import Mathlib.Data.List.Nodup
import IsrRan.Common.Memory

namespace IsrRan.Rlc
open List
open Function (update update_of_ne update_self)

structure PduSegment where
  rlcSn : Option Nat := none
  pdcpSn : Option Nat := none
  deriving DecidableEq, Repr

namespace PduSegment

def empty (s : PduSegment) : Bool := s.rlcSn.isNone && s.pdcpSn.isNone

end PduSegment

def maxPoolSize : Nat := 16384

/-- `n - 1` down to 0, the order in which the pool's constructor leaves the free list. -/
def descending : Nat → List Nat
  | 0 => []
  | n + 1 => n :: descending n

structure SegmentPool where
  segments : Nat → PduSegment := fun _ => {}
  freeList : List Nat := descending maxPoolSize

namespace SegmentPool

def hasSegments (pool : SegmentPool) : Bool := !pool.freeList.isEmpty

def release (pool : SegmentPool) (id : Nat) (segment : PduSegment) : SegmentPool where
  segments := update pool.segments id segment
  freeList := if segment.empty then id :: pool.freeList else pool.freeList

def releasePdcpSn (pool : SegmentPool) (id : Nat) : SegmentPool :=
  pool.release id { pool.segments id with pdcpSn := none }

def releaseRlcSn (pool : SegmentPool) (id : Nat) : SegmentPool :=
  pool.release id { pool.segments id with rlcSn := none }

def take (pool : SegmentPool) (rlcSn pdcpSn : Nat) : Option (Nat × SegmentPool) :=
  match pool.freeList with
  | [] => none
  | id :: freeList =>
    some (id,
      { segments := update pool.segments id { rlcSn := some rlcSn, pdcpSn := some pdcpSn }
        freeList })

def releasePdu (pool : SegmentPool) (segments : List Nat) : SegmentPool := segments.foldl releaseRlcSn pool

end SegmentPool

structure AmdTxPdu (Header : Type) where
  segments : List Nat := []
  retxCount : Nat := 0
  header : Header
  buf : Option (List Byte) := none

/-- `pdcp_pdu_info`: the segments of an SDU that have not been acknowledged. `sn` is `none` for
`invalid_pdcp_sn`. -/
structure PdcpPduInfo where
  list : List Nat := []
  sn : Option Nat := none
  fullyTxed : Bool := false

namespace PdcpPduInfo

def fullyAcked (info : PdcpPduInfo) : Bool := info.fullyTxed && info.list.isEmpty

end PdcpPduInfo

def statusReportSn : Nat := 4294967295

def bufferedPdusSize : Nat := 4096

/-- `buffered_pdcp_pdu_list`; `none` is the place of `status_report_pdu`. -/
structure BufferedPdcpPduList where
  pdus : Option Nat → PdcpPduInfo := fun _ => {}
  count : Nat := 0

namespace BufferedPdcpPduList

def slot (sn : Nat) : Option Nat := if sn = statusReportSn then none else some (sn % bufferedPdusSize)

def getPdu (l : BufferedPdcpPduList) (sn : Nat) : PdcpPduInfo := l.pdus (slot sn)

def hasPdcpSn (l : BufferedPdcpPduList) (sn : Nat) : Bool := (l.getPdu sn).sn = some sn

def setPdu (l : BufferedPdcpPduList) (sn : Nat) (info : PdcpPduInfo) : BufferedPdcpPduList :=
  { l with pdus := update l.pdus (slot sn) info }

def releaseInfo (pool : SegmentPool) (info : PdcpPduInfo) : SegmentPool :=
  info.list.foldl SegmentPool.releasePdcpSn pool

def addPdcpSdu (l : BufferedPdcpPduList) (pool : SegmentPool) (sn : Nat) : BufferedPdcpPduList × SegmentPool :=
  let old := l.getPdu sn
  if old.sn.isSome then (l.setPdu sn { sn := some sn }, releaseInfo pool old)
  else ({ l.setPdu sn { old with sn := some sn } with count := l.count + 1 }, pool)

def clearPdcpSdu (l : BufferedPdcpPduList) (pool : SegmentPool) (sn : Nat) :
    BufferedPdcpPduList × SegmentPool :=
  let info := l.getPdu sn
  if info.sn.isSome then ({ l.setPdu sn {} with count := l.count - 1 }, releaseInfo pool info) else (l, pool)

def clear (l : BufferedPdcpPduList) (pool : SegmentPool) : BufferedPdcpPduList × SegmentPool :=
  ({ pdus := fun
      | none => l.pdus none
      | some _ => {}
     count := 0 },
    (range bufferedPdusSize).foldl (fun pool k => releaseInfo pool (l.pdus (some k))) pool)

def ackSegment (l : BufferedPdcpPduList) (pool : SegmentPool) (sn id : Nat) :
    BufferedPdcpPduList × SegmentPool :=
  let info := l.getPdu sn
  (l.setPdu sn { info with list := info.list.erase id }, pool.releasePdcpSn id)

end BufferedPdcpPduList

namespace SegmentPool

variable {pool pool' : SegmentPool} {id : Nat} {ids : List Nat}

structure FreeInv (pool : SegmentPool) : Prop where
  nodup : pool.freeList.Nodup
  unused : ∀ id ∈ pool.freeList, pool.segments id = {}

theorem mem_descending {n k : Nat} : k ∈ descending n ↔ k < n := by
  induction n with
  | zero => simp [descending]
  | succ n ih =>
    rw [descending, mem_cons, ih]
    omega

theorem descending_nodup (n : Nat) : (descending n).Nodup := by
  induction n with
  | zero => exact .nil
  | succ n ih => exact List.nodup_cons.mpr ⟨fun mem => Nat.lt_irrefl n (mem_descending.mp mem), ih⟩

theorem freeInv_init : ({} : SegmentPool).FreeInv := ⟨descending_nodup _, fun _ _ => rfl⟩

theorem FreeInv.release (h : pool.FreeInv) (used : pool.segments id ≠ {}) (segment : PduSegment) :
    (pool.release id segment).FreeInv := by
  have fresh : id ∉ pool.freeList := fun mem => used (h.unused id mem)
  unfold SegmentPool.release
  split
  · rename_i empty
    have blank : segment = {} := by
      cases segment
      simpa [PduSegment.empty] using empty
    refine ⟨List.nodup_cons.mpr ⟨fresh, h.nodup⟩, fun id' mem => ?_⟩
    dsimp only at mem ⊢
    by_cases same : id' = id
    · rw [same, update_self, blank]
    · rw [update_of_ne same]
      exact h.unused id' ((List.mem_cons.mp mem).resolve_left same)
  · refine ⟨h.nodup, fun id' mem => ?_⟩
    dsimp only at mem ⊢
    have other : id' ≠ id := fun same => fresh (same ▸ mem)
    rw [update_of_ne other]
    exact h.unused id' mem

theorem FreeInv.take (h : pool.FreeInv) {rlcSn pdcpSn : Nat} (room : pool.hasSegments = true) :
    ∃ id pool', pool.take rlcSn pdcpSn = some (id, pool') ∧ pool'.FreeInv ∧ pool.segments id = {} ∧
      pool'.segments = update pool.segments id { rlcSn := some rlcSn, pdcpSn := some pdcpSn } := by
  unfold SegmentPool.take
  cases free : pool.freeList with
  | nil => simp [hasSegments, free] at room
  | cons id rest =>
    have nodup := h.nodup
    rw [free] at nodup
    refine ⟨id, _, rfl, ⟨nodup.of_cons, fun id' mem => ?_⟩, h.unused id (by simp [free]), rfl⟩
    have other : id' ≠ id := fun same => nodup.notMem (same ▸ mem)
    dsimp only
    rw [update_of_ne other]
    exact h.unused id' (by simp [free, mem])

section Release
variable {drop : PduSegment → PduSegment}

theorem segments_foldl_release (idempotent : ∀ s, drop (drop s) = drop s) (ids : List Nat) (id : Nat) :
    (ids.foldl (fun pool id => pool.release id (drop (pool.segments id))) pool).segments id =
      if id ∈ ids then drop (pool.segments id) else pool.segments id := by
  induction ids generalizing pool with
  | nil => simp
  | cons first rest ih =>
    rw [foldl_cons, ih]
    unfold SegmentPool.release
    dsimp only
    by_cases same : id = first
    · rw [same, update_self, idempotent]
      simp
    · rw [update_of_ne same]
      simp [same]

theorem FreeInv.foldl_release (h : pool.FreeInv) (nodup : ids.Nodup)
    (used : ∀ id ∈ ids, pool.segments id ≠ {}) :
    (ids.foldl (fun pool id => pool.release id (drop (pool.segments id))) pool).FreeInv := by
  induction ids generalizing pool with
  | nil => exact h
  | cons first rest ih =>
    refine ih (h.release (used first mem_cons_self) _) nodup.of_cons fun id mem => ?_
    have other : id ≠ first := fun same => nodup.notMem (same ▸ mem)
    unfold SegmentPool.release
    dsimp only
    rw [update_of_ne other]
    exact used id (mem_cons_of_mem _ mem)

end Release

theorem segments_releasePdu (pool : SegmentPool) (ids : List Nat) (id : Nat) :
    (pool.releasePdu ids).segments id =
      if id ∈ ids then { pool.segments id with rlcSn := none } else pool.segments id :=
  @segments_foldl_release pool (fun s => { s with rlcSn := none }) (fun _ => rfl) ids id

theorem FreeInv.releasePdu (h : pool.FreeInv) (nodup : ids.Nodup)
    (held : ∀ id ∈ ids, ∃ sn, (pool.segments id).rlcSn = some sn) : (pool.releasePdu ids).FreeInv := by
  refine @FreeInv.foldl_release pool ids (fun s => { s with rlcSn := none }) h nodup fun id mem blank => ?_
  obtain ⟨sn, rlc⟩ := held id mem
  rw [blank] at rlc
  contradiction

def releasePdcpSns (pool : SegmentPool) (ids : List Nat) : SegmentPool := ids.foldl releasePdcpSn pool

theorem segments_releasePdcpSns (pool : SegmentPool) (ids : List Nat) (id : Nat) :
    (pool.releasePdcpSns ids).segments id =
      if id ∈ ids then { pool.segments id with pdcpSn := none } else pool.segments id :=
  @segments_foldl_release pool (fun s => { s with pdcpSn := none }) (fun _ => rfl) ids id

theorem FreeInv.releasePdcpSns (h : pool.FreeInv) (nodup : ids.Nodup)
    (held : ∀ id ∈ ids, ∃ sn, (pool.segments id).pdcpSn = some sn) : (pool.releasePdcpSns ids).FreeInv := by
  refine @FreeInv.foldl_release pool ids (fun s => { s with pdcpSn := none }) h nodup fun id mem blank => ?_
  obtain ⟨sn, pdcp⟩ := held id mem
  rw [blank] at pdcp
  contradiction

end SegmentPool

namespace BufferedPdcpPduList

variable {l : BufferedPdcpPduList}

theorem getPdu_update (l : BufferedPdcpPduList) (sn : Nat) (info : PdcpPduInfo) (count sn' : Nat) :
    (BufferedPdcpPduList.mk (update l.pdus (slot sn) info) count).getPdu sn' =
      if slot sn' = slot sn then info else l.getPdu sn' := by
  unfold getPdu
  dsimp only
  by_cases same : slot sn' = slot sn
  · rw [same, update_self, if_pos rfl]
  · rw [update_of_ne same, if_neg same]

theorem mod_eq_of_slot_eq {sn sn' : Nat} (same : slot sn = slot sn') :
    sn % bufferedPdusSize = sn' % bufferedPdusSize := by
  unfold slot at same
  split at same <;> split at same
  · rename_i first second
    rw [first, second]
  · contradiction
  · contradiction
  · exact Option.some.inj same

structure Tidy (l : BufferedPdcpPduList) : Prop where
  blank : ∀ place, (l.pdus place).sn = none → l.pdus place = {}
  placed : ∀ place sn, (l.pdus place).sn = some sn → slot sn = place

def listed (l : BufferedPdcpPduList) : List Nat :=
  (range bufferedPdusSize).flatMap fun k => (l.pdus (some k)).list

theorem clear_pool (l : BufferedPdcpPduList) (pool : SegmentPool) :
    (l.clear pool).2 = pool.releasePdcpSns l.listed := by
  unfold clear releaseInfo SegmentPool.releasePdcpSns listed
  rw [foldl_flatMap]

theorem slot_of_ne {sn : Nat} (other : sn ≠ statusReportSn) : slot sn = some (sn % bufferedPdusSize) := if_neg other

theorem tidy_init : ({} : BufferedPdcpPduList).Tidy := ⟨fun _ _ => rfl, fun _ _ held => by contradiction⟩

theorem Tidy.sn_of_listed (h : l.Tidy) {place : Option Nat} {id : Nat} (listed : id ∈ (l.pdus place).list) :
    ∃ sn, (l.pdus place).sn = some sn := by
  cases held : (l.pdus place).sn with
  | none =>
    rw [h.blank place held] at listed
    contradiction
  | some sn => exact ⟨sn, rfl⟩

theorem Tidy.update (h : l.Tidy) {sn : Nat} {info : PdcpPduInfo}
    (fits : info.sn = some sn ∨ info = {}) (count : Nat) :
    (BufferedPdcpPduList.mk (update l.pdus (slot sn) info) count).Tidy := by
  refine ⟨fun place none => ?_, fun place sn' held => ?_⟩
  · by_cases own : place = slot sn
    · dsimp only at none ⊢
      rw [own, update_self] at none ⊢
      rcases fits with valid | empty
      · rw [valid] at none
        contradiction
      · exact empty
    · dsimp only at none ⊢
      rw [update_of_ne own] at none ⊢
      exact h.blank place none
  · by_cases own : place = slot sn
    · dsimp only at held
      rw [own, update_self] at held
      rcases fits with valid | empty
      · rw [own, Option.some.inj (valid.symm.trans held)]
      · rw [empty] at held
        contradiction
    · dsimp only at held
      rw [update_of_ne own] at held
      exact h.placed place sn' held

end BufferedPdcpPduList

end IsrRan.Rlc
