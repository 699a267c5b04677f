import Mathlib.Data.List.Sort
import IsrRan.Pdcp.EntityLte

namespace IsrRan.Pdcp
open List Nat UInt8 UndeliveredSdus

/-- `pdcp_entity_lte`, what it keeps of the COUNTs it received. The source has the vector in descending
order and takes from its back. -/
structure Receiver where
  cfg : Config
  fmc : Nat := 0
  largestRxCount : Nat := 0
  rxCountsInfo : List Nat := []
  deriving Repr

def reorderingWindow : Nat := 2048

def advanceFmc (fmc : Nat) : List Nat → Nat × List Nat
  | [] => (fmc, [])
  | c :: info => if c = fmc then advanceFmc ((fmc + 1) % 4294967296) info else (fmc, c :: info)

namespace Receiver

def giveUpFmc (r : Receiver) : Receiver :=
  match r.rxCountsInfo with
  | [] => r
  | back :: info =>
    if reorderingWindow < r.rxCountsInfo.length then
      { r with
        fmc := (advanceFmc back (back :: info)).1
        rxCountsInfo := (advanceFmc back (back :: info)).2 }
    else r

def storeCount (r : Receiver) (rxCount : Nat) : Receiver :=
  if rxCount = r.fmc then
    { r with
      fmc := (advanceFmc ((r.fmc + 1) % 4294967296) r.rxCountsInfo).1
      rxCountsInfo := (advanceFmc ((r.fmc + 1) % 4294967296) r.rxCountsInfo).2 }
  else { r with rxCountsInfo := r.rxCountsInfo.orderedInsert (· ≤ ·) rxCount }

def updateRxCountsQueue (r : Receiver) (rxCount : Nat) : Receiver :=
  if rxCount < r.fmc then r
  else
    ({ r with largestRxCount := max r.largestRxCount rxCount }.storeCount rxCount).giveUpFmc

end Receiver

def statusReportHeader (cfg : Config) (fms : Nat) : Option (List Byte) :=
  match cfg.snLen with
  | .len12 => some [UInt8.ofNat (fms / 256 % 16), UInt8.ofNat (fms % 256)]
  | .len18 => some [UInt8.ofNat (fms / 65536 % 4), UInt8.ofNat (fms / 256 % 256), UInt8.ofNat (fms % 256)]
  | _ => none

def setBit (fmc rxCount : Nat) (bitmap : List Byte) : List Byte :=
  let offset := u32Sub rxCount ((fmc + 1) % 4294967296)
  bitmap.modify (offset / 8) (fun b => b ||| UInt8.ofNat (2 ^ (7 - offset % 8)))

def Receiver.sendStatusReport (r : Receiver) : Except Fault (Option (List Byte)) :=
  if r.cfg.rbIsUm || !r.cfg.isDrb || !r.cfg.statusReportRequired then .ok none
  else
    match statusReportHeader r.cfg (r.cfg.sn r.fmc) with
    | none => .ok none
    | some header =>
      if r.rxCountsInfo.isEmpty then .ok (some header)
      else
        let diff := i32 (u32Sub r.largestRxCount (u32Sub r.fmc 1))
        let bitmapSz := (diff.toNat + 7) / 8
        if diff < 0 then .ok none
        else if ({} : ByteBuffer).getTailroom < header.length + bitmapSz then .error .undefinedBehaviour
        else .ok (some (header ++ r.rxCountsInfo.foldr (setBit r.fmc) (replicate bitmapSz 0)))

def readFms (cfg : Config) (pdu : List Byte) : Option (Nat × Nat) :=
  match cfg.snLen with
  | .len12 => some ((byteAt pdu 0 * 256 + byteAt pdu 1) % 4096, 2)
  | .len18 => some ((byteAt pdu 0 * 65536 + byteAt pdu 1 * 256 + byteAt pdu 2) % 16384, 3)
  | _ => none

/-- `bset[8]` lies outside the set, the library then reads a bit that is 0. -/
def ackedInByte (fms i byte : Nat) : List Nat :=
  ((range 8).filter fun j => byte.testBit (8 - j)).map fun j => fms + i * 8 + j

def ackedSns (fms bitmapOffset : Nat) (pdu : List Byte) : List Nat :=
  (range (pdu.length - bitmapOffset)).flatMap fun i => ackedInByte fms i (byteAt pdu (bitmapOffset + i))

def UndeliveredSdus.clearBelow (q : UndeliveredSdus) (fms : Nat) : UndeliveredSdus :=
  (range fms).foldl (fun q sn => if q.hasSdu sn then q.clearSdu sn else q) q

def EntityLte.handleStatusReportPdu (e : EntityLte) (pdu : List Byte) : EntityLte :=
  if !e.cfg.isDrb || e.cfg.rbIsUm then e
  else
    match readFms e.cfg pdu with
    | none => e
    | some (fms, bitmapOffset) =>
      { e with undeliveredSdus :=
          (ackedSns fms bitmapOffset pdu).foldl UndeliveredSdus.clearSdu (e.undeliveredSdus.clearBelow fms) }

/-- A status report between two peers. `earlier` holds of the COUNTs that were received before the
receiver's entity got its `FMC`, which at a handover is the last COUNT that was submitted. `history` are
the COUNTs received since, `stored` those of the sender's undelivered SDUs. -/
structure Exchange where
  receiver : Receiver
  sender : EntityLte
  earlier : Nat → Prop
  history : List Nat
  stored : List Nat

namespace Exchange

def received (x : Exchange) (c : Nat) : Prop := x.earlier c ∨ c ∈ x.history

def reporter (x : Exchange) : Receiver := x.history.foldl Receiver.updateRxCountsQueue x.receiver

def sn (x : Exchange) (c : Nat) : Nat := x.sender.cfg.sn c

def Agrees (x : Exchange) : Prop :=
  ∃ pdu, x.reporter.sendStatusReport = .ok (some pdu) ∧
    ∀ sn, (x.sender.handleStatusReportPdu pdu).undeliveredSdus.hasSdu sn = true ↔
      ∃ c ∈ x.stored, x.sn c = sn ∧ ¬ x.received c

def Outstanding (x : Exchange) (c : Nat) : Prop :=
  c ∈ x.stored ∨ c = x.reporter.fmc ∨ x.reporter.fmc < c ∧ x.received c

/-- DRBs on RLC AM that use status reports. No COUNT is received twice, and the SN of a COUNT the report
or the queue is about belongs to no other of them. -/
structure Valid (x : Exchange) : Prop where
  receiverDrb : x.receiver.cfg.isSrb = false ∧ x.receiver.cfg.rbIsUm = false
  required : x.receiver.cfg.statusReportRequired = true
  senderDrb : x.sender.cfg.isSrb = false ∧ x.sender.cfg.rbIsUm = false
  peers : x.receiver.cfg.snLen = x.sender.cfg.snLen
  snLen : x.sender.cfg.snLen = .len12 ∨ x.sender.cfg.snLen = .len18
  queue : x.receiver.rxCountsInfo = [] ∧ x.receiver.largestRxCount ≤ x.receiver.fmc
  fmc : x.receiver.fmc < 4294967296
  earlier : ∀ c, x.earlier c → c ≤ x.receiver.fmc
  distinct : x.history.Nodup
  fresh : ∀ c ∈ x.history, ¬ x.earlier c
  small : ∀ c ∈ x.history, c + 1 < 4294967296
  stored : ∀ sn, x.sender.undeliveredSdus.hasSdu sn = true ↔ ∃ c ∈ x.stored, x.sn c = sn
  near : ∀ c d, x.Outstanding c → x.Outstanding d → c < d + x.sender.cfg.snSpace

def ReportFits (x : Exchange) : Prop :=
  ∀ c, x.received c →
    x.sender.cfg.hdrLenBytes + (c - x.reporter.fmc + 8) / 8 ≤ ({} : ByteBuffer).getTailroom

def fmsRead (x : Exchange) : Nat :=
  match x.sender.cfg.snLen with
  | .len18 => x.sn x.reporter.fmc % 16384
  | _ => x.sn x.reporter.fmc

/-- What a report whose `FMS` is read right says of a COUNT is true: no SN wrap between the COUNT and
`FMC` misplaces it, and it is not at a bit that is not read. -/
structure Aligned (x : Exchange) (c : Nat) : Prop where
  below : c < x.reporter.fmc → (x.sn c < x.sn x.reporter.fmc ↔ x.received c)
  first : c = x.reporter.fmc → ¬ x.received c
  bit : x.reporter.fmc < c → x.sn x.reporter.fmc < x.sn c → x.received c → (c - x.reporter.fmc) % 8 ≠ 0
  wrapped : x.reporter.fmc < c → x.sn c < x.sn x.reporter.fmc → x.received c

def names (x : Exchange) (sn : Nat) : Prop :=
  sn < x.fmsRead ∨ ∃ d, x.reporter.fmc < d ∧ x.received d ∧ (d - x.reporter.fmc) % 8 ≠ 0 ∧
    sn = x.fmsRead + (d - x.reporter.fmc)

def ReadRight (x : Exchange) (c : Nat) : Prop :=
  if x.fmsRead = x.sn x.reporter.fmc then x.Aligned c else (x.received c ↔ x.names (x.sn c))

end Exchange

structure Advanced (fmc : Nat) (info : List Nat) (fmc' : Nat) (info' : List Nat) : Prop where
  le : fmc ≤ fmc'
  suffix : info' <:+ info
  passed : ∀ c ∈ info, c < fmc' ∨ c ∈ info'
  above : ∀ c ∈ info', fmc' < c
  bound : fmc' < 4294967296

theorem advanced_advanceFmc {fmc : Nat} {info : List Nat} (sorted : info.Pairwise (· < ·))
    (above : ∀ c ∈ info, fmc ≤ c) (counts : ∀ c ∈ info, c + 1 < 4294967296) (bound : fmc < 4294967296) :
    Advanced fmc info (advanceFmc fmc info).1 (advanceFmc fmc info).2 := by
  induction info generalizing fmc with
  | nil => exact ⟨Nat.le_refl _, suffix_rfl, by simp, by simp [advanceFmc], bound⟩
  | cons c info ih =>
    obtain ⟨first, rest⟩ := List.pairwise_cons.mp sorted
    unfold advanceFmc
    split
    · rename_i same
      subst same
      have small := counts c mem_cons_self
      have next : ∀ d ∈ info, c + 1 ≤ d := first
      rw [mod_eq_of_lt small]
      obtain ⟨le, suffix, passed, above, bound⟩ :=
        ih rest next (fun d mem => counts d (mem_cons_of_mem _ mem)) small
      refine ⟨by omega, suffix.trans (suffix_cons _ _), fun d mem => ?_, above, bound⟩
      rcases List.mem_cons.mp mem with rfl | mem
      · exact .inl (by omega)
      · exact passed d mem
    · rename_i different
      have lower := above c mem_cons_self
      refine ⟨Nat.le_refl _, suffix_rfl, fun d mem => .inr mem, fun d mem => ?_, bound⟩
      rcases List.mem_cons.mp mem with rfl | mem
      · exact Nat.lt_of_le_of_ne lower (Ne.symm different)
      · have := first d mem
        omega

namespace Receiver

variable {r : Receiver} {received : Nat → Prop}

structure Inv (r : Receiver) (received : Nat → Prop) : Prop where
  sorted : r.rxCountsInfo.Pairwise (· < ·)
  above : ∀ c ∈ r.rxCountsInfo, r.fmc < c
  held : ∀ c ∈ r.rxCountsInfo, received c
  covered : ∀ c, received c → c ≤ r.fmc ∨ c ∈ r.rxCountsInfo
  counts : ∀ c ∈ r.rxCountsInfo, c + 1 < 4294967296
  largest : r.rxCountsInfo ≠ [] → r.largestRxCount ∈ r.rxCountsInfo
  top : ∀ c ∈ r.rxCountsInfo, c ≤ r.largestRxCount
  low : r.rxCountsInfo = [] → r.largestRxCount ≤ r.fmc
  bound : r.fmc < 4294967296

theorem inv_advance {fmc : Nat} (sorted : r.rxCountsInfo.Pairwise (· < ·))
    (above : ∀ c ∈ r.rxCountsInfo, fmc ≤ c) (held : ∀ c ∈ r.rxCountsInfo, received c)
    (covered : ∀ c, received c → c ≤ fmc ∨ c ∈ r.rxCountsInfo)
    (counts : ∀ c ∈ r.rxCountsInfo, c + 1 < 4294967296)
    (largest : r.rxCountsInfo ≠ [] → r.largestRxCount ∈ r.rxCountsInfo)
    (top : ∀ c ∈ r.rxCountsInfo, c ≤ r.largestRxCount)
    (low : r.rxCountsInfo = [] → r.largestRxCount ≤ fmc) (bound : fmc < 4294967296) :
    ({ r with fmc := (advanceFmc fmc r.rxCountsInfo).1, rxCountsInfo := (advanceFmc fmc r.rxCountsInfo).2 } :
      Receiver).Inv received := by
  have moved := advanced_advanceFmc sorted above counts bound
  have inside : ∀ c ∈ (advanceFmc fmc r.rxCountsInfo).2, c ∈ r.rxCountsInfo :=
    fun c mem => moved.suffix.subset mem
  refine ⟨sorted.sublist moved.suffix.sublist, moved.above, fun c mem => held c (inside c mem),
    fun c got => ?_, fun c mem => counts c (inside c mem), fun nonempty => ?_,
    fun c mem => top c (inside c mem), fun empty => ?_, moved.bound⟩
  · rcases covered c got with le | mem
    · exact .inl (Nat.le_trans le moved.le)
    · rcases moved.passed c mem with lt | mem
      · exact .inl (Nat.le_of_lt lt)
      · exact .inr mem
  · dsimp only at nonempty ⊢
    obtain ⟨c, mem⟩ := exists_mem_of_ne_nil _ nonempty
    have le := top c (inside c mem)
    have above := moved.above c mem
    rcases moved.passed _ (largest (ne_nil_of_mem (inside c mem))) with lt | mem
    · omega
    · exact mem
  · dsimp only at empty ⊢
    by_cases before : r.rxCountsInfo = []
    · exact Nat.le_trans (low before) moved.le
    · rcases moved.passed _ (largest before) with lt | mem
      · exact Nat.le_of_lt lt
      · rw [empty] at mem
        contradiction

section
variable (h : r.Inv received)
include h

theorem Inv.giveUpFmc : r.giveUpFmc.Inv received := by
  unfold Receiver.giveUpFmc
  split
  · exact h
  · rename_i back info queue
    split
    · have member : back ∈ r.rxCountsInfo := queue ▸ mem_cons_self
      have first := queue ▸ h.sorted
      have fmc := h.above back member
      have small := h.counts back member
      rw [← queue]
      refine inv_advance h.sorted (fun c mem => ?_) h.held (fun c got => ?_) h.counts h.largest h.top
        (fun empty => ?_) (by omega)
      · rw [queue] at mem
        rcases List.mem_cons.mp mem with rfl | mem
        · exact Nat.le_refl _
        · exact Nat.le_of_lt ((List.pairwise_cons.mp first).1 c mem)
      · exact (h.covered c got).imp_left (by omega)
      · rw [queue] at empty
        contradiction
    · exact h

theorem Inv.storeCount {rxCount : Nat} (fresh : ¬ received rxCount)
    (small : rxCount + 1 < 4294967296) (above : r.fmc ≤ rxCount) :
    ({ r with largestRxCount := max r.largestRxCount rxCount }.storeCount rxCount).Inv
      (fun c => received c ∨ c = rxCount) := by
  unfold Receiver.storeCount
  dsimp only
  split
  · rename_i same
    rw [mod_eq_of_lt (by omega)]
    have beyond : r.rxCountsInfo ≠ [] → rxCount < r.largestRxCount := by
      intro nonempty
      have := h.above _ (h.largest nonempty)
      omega
    refine @inv_advance { r with largestRxCount := max r.largestRxCount rxCount } _ _ h.sorted h.above
      (fun c mem => .inl (h.held c mem)) (fun c got => ?_) h.counts (fun nonempty => ?_)
      (fun c mem => ?_) (fun empty => ?_) (by omega)
    · rcases got with got | rfl
      · exact (h.covered c got).imp_left (by omega)
      · exact .inl (by omega)
    · have := beyond nonempty
      rw [Nat.max_eq_left (by omega)]
      exact h.largest nonempty
    · exact Nat.le_trans (h.top c mem) (Nat.le_max_left _ _)
    · have := h.low empty
      dsimp only
      omega
  · rename_i different
    have member (c : Nat) : c ∈ r.rxCountsInfo.orderedInsert (· ≤ ·) rxCount ↔
        c = rxCount ∨ c ∈ r.rxCountsInfo := mem_orderedInsert _
    have absent : rxCount ∉ r.rxCountsInfo := fun mem => fresh (h.held _ mem)
    refine ⟨?_, fun c mem => ?_, fun c mem => ?_, fun c got => ?_, fun c mem => ?_, fun _ => ?_,
      fun c mem => ?_, fun empty => ?_, h.bound⟩
    · have nodup := (perm_orderedInsert (· ≤ ·) rxCount r.rxCountsInfo).nodup_iff.mpr
        (List.nodup_cons.mpr ⟨absent, h.sorted.imp Nat.ne_of_lt⟩)
      have weak := (h.sorted.imp Nat.le_of_lt).orderedInsert rxCount
      exact (weak.and nodup).imp fun both => Nat.lt_of_le_of_ne both.1 both.2
    · rcases (member c).mp mem with rfl | mem
      · dsimp only
        omega
      · exact h.above c mem
    · rcases (member c).mp mem with rfl | mem
      · exact .inr rfl
      · exact .inl (h.held c mem)
    · rcases got with got | rfl
      · exact (h.covered c got).imp_right fun mem => (member c).mpr (.inr mem)
      · exact .inr ((member c).mpr (.inl rfl))
    · rcases (member c).mp mem with rfl | mem
      · exact small
      · exact h.counts c mem
    · refine (member _).mpr ?_
      dsimp only
      by_cases empty : r.rxCountsInfo = []
      · have := h.low empty
        exact .inl (by omega)
      · rcases Nat.le_total r.largestRxCount rxCount with le | le
        · exact .inl (Nat.max_eq_right le)
        · rw [Nat.max_eq_left le]
          exact .inr (h.largest empty)
    · dsimp only
      rcases (member c).mp mem with rfl | mem
      · exact Nat.le_max_right _ _
      · exact Nat.le_trans (h.top c mem) (Nat.le_max_left _ _)
    · dsimp only at empty
      have mem := (member rxCount).mpr (.inl rfl)
      rw [empty] at mem
      contradiction

theorem Inv.updateRxCountsQueue {rxCount : Nat} (fresh : ¬ received rxCount)
    (small : rxCount + 1 < 4294967296) :
    (r.updateRxCountsQueue rxCount).Inv (fun c => received c ∨ c = rxCount) := by
  unfold Receiver.updateRxCountsQueue
  split
  · rename_i below
    refine ⟨h.sorted, h.above, fun c mem => .inl (h.held c mem), fun c got => ?_, h.counts, h.largest,
      h.top, h.low, h.bound⟩
    rcases got with got | rfl
    · exact h.covered c got
    · exact .inl (Nat.le_of_lt below)
  · exact (h.storeCount fresh small (by omega)).giveUpFmc

theorem Inv.run {history : List Nat} (distinct : history.Nodup)
    (fresh : ∀ c ∈ history, ¬ received c) (small : ∀ c ∈ history, c + 1 < 4294967296) :
    (history.foldl Receiver.updateRxCountsQueue r).Inv (fun c => received c ∨ c ∈ history) := by
  induction history generalizing r received with
  | nil => simpa using h
  | cons c history ih =>
    obtain ⟨absent, distinct⟩ := List.nodup_cons.mp distinct
    have next := h.updateRxCountsQueue (fresh c mem_cons_self) (small c mem_cons_self)
    have rest := ih next distinct (fun d mem => ?_) (fun d mem => small d (mem_cons_of_mem _ mem))
    · simpa only [foldl_cons, mem_cons, or_assoc] using rest
    · rintro (got | rfl)
      · exact fresh d (mem_cons_of_mem _ mem) got
      · exact absent mem

end

end Receiver

theorem setBit_length (fmc rxCount : Nat) (bitmap : List Byte) :
    (setBit fmc rxCount bitmap).length = bitmap.length := by
  simp [setBit]

theorem foldr_setBit_length (fmc : Nat) (info : List Nat) (bitmap : List Byte) :
    (info.foldr (setBit fmc) bitmap).length = bitmap.length := by
  induction info with
  | nil => rfl
  | cons c info ih => rw [foldr_cons, setBit_length, ih]

theorem testBit_setBit {fmc rxCount : Nat} (above : fmc < rxCount) (small : rxCount < 4294967296)
    (bitmap : List Byte) (i k : Nat) :
    (byteAt (setBit fmc rxCount bitmap) i).testBit k = true ↔ (byteAt bitmap i).testBit k = true ∨
      i < bitmap.length ∧ (rxCount - fmc - 1) / 8 = i ∧ 7 - (rxCount - fmc - 1) % 8 = k := by
  have offset : u32Sub rxCount ((fmc + 1) % 4294967296) = rxCount - fmc - 1 := by
    rw [mod_eq_of_lt (by omega), u32Sub_of_le above small]
    omega
  unfold setBit byteAt
  rw [offset]
  by_cases here : (rxCount - fmc - 1) / 8 = i
  · subst here
    by_cases inside : (rxCount - fmc - 1) / 8 < bitmap.length
    · have power : 2 ^ (7 - (rxCount - fmc - 1) % 8) < 256 :=
        Nat.pow_lt_pow_right (lt_succ_self 1) (lt_succ_of_le (sub_le 7 _))
      simp [inside, testBit_two_pow, mod_eq_of_lt power]
    · simp [inside]
  · simp [here]

theorem testBit_bitmap {fmc : Nat} {info : List Nat} (above : ∀ c ∈ info, fmc < c)
    (small : ∀ c ∈ info, c + 1 < 4294967296) (n i k : Nat) :
    (byteAt (info.foldr (setBit fmc) (replicate n 0)) i).testBit k = true ↔
      ∃ c ∈ info, i < n ∧ (c - fmc - 1) / 8 = i ∧ 7 - (c - fmc - 1) % 8 = k := by
  induction info with
  | nil =>
    by_cases inside : i < n <;> simp [byteAt, inside]
  | cons c info ih =>
    rw [foldr_cons,
      testBit_setBit (above c mem_cons_self) (lt_of_succ_lt (small c mem_cons_self)),
      ih (fun d mem => above d (mem_cons_of_mem _ mem))
        (fun d mem => small d (mem_cons_of_mem _ mem)),
      foldr_setBit_length, length_replicate, exists_mem_cons_iff, or_comm]

theorem mem_ackedSns {header bitmap : List Byte} (fms x : Nat) :
    x ∈ ackedSns fms header.length (header ++ bitmap) ↔
      ∃ i < bitmap.length, ∃ j < 8, (byteAt bitmap i).testBit (8 - j) = true ∧ x = fms + i * 8 + j := by
  have behind (i : Nat) : byteAt (header ++ bitmap) (header.length + i) = byteAt bitmap i := by
    simp [byteAt, List.getElem?_append_right]
  simp only [ackedSns, ackedInByte, mem_flatMap, mem_range, length_append,
    Nat.add_sub_cancel_left, behind, mem_map, mem_filter, and_assoc, @eq_comm _ x]

theorem mem_ackedSns_bitmap {header : List Byte} {fmc n : Nat} {info : List Nat}
    (above : ∀ c ∈ info, fmc < c) (small : ∀ c ∈ info, c + 1 < 4294967296)
    (room : ∀ c ∈ info, (c - fmc - 1) / 8 < n) (fms x : Nat) :
    x ∈ ackedSns fms header.length (header ++ info.foldr (setBit fmc) (replicate n 0)) ↔
      ∃ c ∈ info, (c - fmc) % 8 ≠ 0 ∧ x = fms + (c - fmc) := by
  rw [mem_ackedSns, foldr_setBit_length, length_replicate]
  constructor
  · rintro ⟨i, _, j, hj, bit, rfl⟩
    obtain ⟨c, mem, _, byte, place⟩ := (testBit_bitmap above small n i (8 - j)).mp bit
    have := above c mem
    exact ⟨c, mem, by omega, by omega⟩
  · rintro ⟨c, mem, notEighth, rfl⟩
    refine ⟨(c - fmc - 1) / 8, room c mem, (c - fmc - 1) % 8 + 1, by omega, ?_, by omega⟩
    exact (testBit_bitmap above small _ _ _).mpr ⟨c, mem, room c mem, rfl, by omega⟩

theorem statusReportHeader_read {cfg cfg' : Config} (snLen : cfg.snLen = .len12 ∨ cfg.snLen = .len18)
    (peers : cfg'.snLen = cfg.snLen) {fms : Nat} (bound : fms < cfg.snSpace) :
    ∃ header, statusReportHeader cfg' fms = some header ∧ header.length = cfg.hdrLenBytes ∧
      ∀ bitmap, readFms cfg (header ++ bitmap) =
        some (if cfg.snLen = .len18 then fms % 16384 else fms, header.length) := by
  unfold statusReportHeader readFms
  rw [peers]
  rcases snLen with len | len
  · rw [len]
    have space : cfg.snSpace = 4096 := by rw [Config.snSpace, len]; rfl
    refine ⟨_, rfl, by simp [Config.hdrLenBytes, len, SnLen.bits], fun bitmap => ?_⟩
    simp
    omega
  · rw [len]
    refine ⟨_, rfl, by simp [Config.hdrLenBytes, len, SnLen.bits], fun bitmap => ?_⟩
    simp
    omega

theorem hasSdu_clearBelow (q : UndeliveredSdus) (fms x : Nat) :
    (q.clearBelow fms).hasSdu x = true ↔ q.hasSdu x = true ∧ fms ≤ x := by
  unfold UndeliveredSdus.clearBelow
  induction fms with
  | zero => simp
  | succ fms ih =>
    rw [range_succ, foldl_append, foldl_cons, foldl_nil]
    split
    · rw [hasSdu_clearSdu, ih, and_assoc]
      exact and_congr_right fun _ => by omega
    · rename_i absent
      refine ⟨fun h => ?_, fun h => ih.mpr ⟨h.1, by omega⟩⟩
      have := ih.mp h
      refine ⟨this.1, Nat.lt_of_le_of_ne this.2 ?_⟩
      rintro rfl
      exact absent h

theorem handleStatusReportPdu_hasSdu {e : EntityLte} (drb : e.cfg.isSrb = false ∧ e.cfg.rbIsUm = false)
    {pdu : List Byte} {fms bitmapOffset : Nat} (read : readFms e.cfg pdu = some (fms, bitmapOffset))
    (x : Nat) :
    (e.handleStatusReportPdu pdu).undeliveredSdus.hasSdu x = true ↔
      e.undeliveredSdus.hasSdu x = true ∧ fms ≤ x ∧ x ∉ ackedSns fms bitmapOffset pdu := by
  unfold EntityLte.handleStatusReportPdu Config.isDrb
  rw [drb.1, drb.2, if_neg (by decide), read]
  rw [hasSdu_clearAll, hasSdu_clearBelow, and_assoc]

namespace Receiver

variable {r : Receiver} {received : Nat → Prop}

theorem Inv.sendStatusReport (h : r.Inv received) (drb : r.cfg.isSrb = false ∧ r.cfg.rbIsUm = false)
    (required : r.cfg.statusReportRequired = true) {header : List Byte}
    (fms : statusReportHeader r.cfg (r.cfg.sn r.fmc) = some header)
    (near : ∀ c ∈ r.rxCountsInfo, c + 1 < r.fmc + 2147483648) :
    (∀ c ∈ r.rxCountsInfo, header.length + (c - r.fmc + 8) / 8 ≤ ({} : ByteBuffer).getTailroom) ∧
        (∃ n, (∀ c ∈ r.rxCountsInfo, (c - r.fmc - 1) / 8 < n) ∧ r.sendStatusReport =
          .ok (some (header ++ r.rxCountsInfo.foldr (setBit r.fmc) (replicate n 0)))) ∨
      (∃ c ∈ r.rxCountsInfo, ({} : ByteBuffer).getTailroom < header.length + (c - r.fmc + 8) / 8) ∧
        r.sendStatusReport = .error .undefinedBehaviour := by
  unfold Receiver.sendStatusReport Config.isDrb
  rw [drb.1, drb.2, required, if_neg (by decide), fms]
  dsimp only
  by_cases empty : r.rxCountsInfo = []
  · refine .inl ⟨by simp [empty], 0, by simp [empty], ?_⟩
    simp [empty]
  · have member := h.largest empty
    have above := h.above _ member
    have close := near _ member
    have diff : i32 (u32Sub r.largestRxCount (u32Sub r.fmc 1)) = (r.largestRxCount - r.fmc + 1 : Nat) := by
      unfold u32Sub i32
      split <;> omega
    have size : ((r.largestRxCount - r.fmc + 1 : Nat) : Int).toNat + 7 = r.largestRxCount - r.fmc + 8 := by
      omega
    rw [if_neg (by simpa using empty), diff, size]
    by_cases overrun : ({} : ByteBuffer).getTailroom < header.length + (r.largestRxCount - r.fmc + 8) / 8
    · rw [if_pos overrun]
      exact .inr ⟨⟨_, member, overrun⟩, rfl⟩
    · rw [if_neg overrun]
      refine .inl ⟨fun c mem => ?_, _, fun c mem => ?_, rfl⟩
      · have := h.top c mem
        omega
      · have := h.top c mem
        omega

end Receiver

theorem reporter_cfg (history : List Nat) (r : Receiver) :
    (history.foldl Receiver.updateRxCountsQueue r).cfg = r.cfg := by
  induction history generalizing r with
  | nil => rfl
  | cons c history ih =>
    rw [foldl_cons, ih]
    unfold Receiver.updateRxCountsQueue Receiver.giveUpFmc Receiver.storeCount
    split
    · rfl
    · dsimp only
      split <;> split <;> (try split) <;> rfl

namespace Exchange

variable {x : Exchange}

section
variable (h : x.Valid)
include h

theorem Valid.inv : x.reporter.Inv x.received := by
  have initial : x.receiver.Inv x.earlier := by
    refine ⟨?_, ?_, ?_, fun c got => .inl (h.earlier c got), ?_, ?_, ?_, fun _ => h.queue.2, h.fmc⟩
    all_goals simp [h.queue.1]
  exact initial.run h.distinct h.fresh h.small

theorem Valid.mem_rxCountsInfo (c : Nat) :
    c ∈ x.reporter.rxCountsInfo ↔ x.reporter.fmc < c ∧ x.received c := by
  refine ⟨fun mem => ⟨h.inv.above c mem, h.inv.held c mem⟩, fun ⟨above, got⟩ => ?_⟩
  exact (h.inv.covered c got).resolve_left (by omega)

theorem Valid.snSpace :
    x.sender.cfg.snSpace = 4096 ∨ x.sender.cfg.snSpace = 262144 := by
  unfold Config.snSpace
  rcases h.snLen with len | len <;> rw [len]
  · exact .inl rfl
  · exact .inr rfl

theorem Valid.sn_injective {c d : Nat} (hc : x.Outstanding c) (hd : x.Outstanding d)
    (same : x.sn c = x.sn d) : c = d := by
  have below := h.near c d hc hd
  have above := h.near d c hd hc
  unfold sn Config.sn at same
  rcases h.snSpace with space | space <;> rw [space] at same below above <;> omega

theorem Valid.reported :
    (x.ReportFits ∧ ∃ pdu, x.reporter.sendStatusReport = .ok (some pdu) ∧
        ∀ sn, (x.sender.handleStatusReportPdu pdu).undeliveredSdus.hasSdu sn = true ↔
          (∃ c ∈ x.stored, x.sn c = sn) ∧ ¬ x.names sn) ∨
      ¬ x.ReportFits ∧ x.reporter.sendStatusReport = .error .undefinedBehaviour := by
  have inv := h.inv
  have cfg : x.reporter.cfg = x.receiver.cfg := reporter_cfg x.history x.receiver
  have peers : x.reporter.cfg.snLen = x.sender.cfg.snLen := by rw [cfg, h.peers]
  have sameSn : x.reporter.cfg.sn x.reporter.fmc = x.sn x.reporter.fmc := by
    simp only [sn, Config.sn, Config.snSpace, peers]
  have bound : x.sn x.reporter.fmc < x.sender.cfg.snSpace := mod_lt _ (Nat.two_pow_pos _)
  obtain ⟨header, made, length, read⟩ := statusReportHeader_read h.snLen peers bound
  have fms : (if x.sender.cfg.snLen = .len18 then x.sn x.reporter.fmc % 16384 else x.sn x.reporter.fmc) =
      x.fmsRead := by
    unfold fmsRead
    rcases h.snLen with len | len <;> simp [len]
  rw [fms] at read
  have near : ∀ c ∈ x.reporter.rxCountsInfo, c + 1 < x.reporter.fmc + 2147483648 := by
    intro c mem
    have := h.near c x.reporter.fmc (.inr (.inr ((h.mem_rxCountsInfo c).mp mem))) (.inr (.inl rfl))
    have : x.sender.cfg.snSpace ≤ 262144 := by
      rcases h.snLen with len | len <;> rw [Config.snSpace, len] <;> decide
    omega
  have drb : x.reporter.cfg.isSrb = false ∧ x.reporter.cfg.rbIsUm = false := cfg ▸ h.receiverDrb
  have required : x.reporter.cfg.statusReportRequired = true := cfg ▸ h.required
  rcases inv.sendStatusReport drb required (sameSn ▸ made) near with
    ⟨fits, n, room, sent⟩ | ⟨⟨c, mem, overrun⟩, fault⟩
  · refine .inl ⟨fun c got => ?_, _, sent, fun sn => ?_⟩
    · rw [← length]
      rcases inv.covered c got with le | mem
      · have : header.length ≤ 3 := by
          rw [length]
          rcases h.snLen with len | len <;> simp [Config.hdrLenBytes, len, SnLen.bits]
        have : ({} : ByteBuffer).getTailroom = 12237 := rfl
        omega
      · exact fits c mem
    · rw [handleStatusReportPdu_hasSdu h.senderDrb (read _), h.stored,
        mem_ackedSns_bitmap inv.above inv.counts room]
      simp only [names, not_or, Nat.not_lt, h.mem_rxCountsInfo, and_assoc]
  · refine .inr ⟨fun fits => ?_, fault⟩
    have := fits c (inv.held c mem)
    omega

theorem Valid.agrees_iff_names :
    x.Agrees ↔ x.ReportFits ∧ ∀ c ∈ x.stored, (x.received c ↔ x.names (x.sn c)) := by
  rcases h.reported with ⟨fits, pdu, sent, kept⟩ | ⟨overrun, fault⟩
  · constructor
    · rintro ⟨pdu', sent', agrees⟩
      obtain rfl : pdu = pdu' := by simpa [sent] using sent'
      refine ⟨fits, fun c mem => ⟨fun got => ?_, fun named => ?_⟩⟩
      · by_contra unnamed
        obtain ⟨d, hd, same, lost⟩ := (agrees (x.sn c)).mp ((kept (x.sn c)).mpr ⟨⟨c, mem, rfl⟩, unnamed⟩)
        exact lost (h.sn_injective (.inl hd) (.inl mem) same ▸ got)
      · by_contra lost
        exact ((kept (x.sn c)).mp ((agrees (x.sn c)).mpr ⟨c, mem, rfl, lost⟩)).2 named
    · rintro ⟨_, right⟩
      refine ⟨pdu, sent, fun sn => ?_⟩
      rw [kept]
      constructor
      · rintro ⟨⟨c, mem, rfl⟩, unnamed⟩
        exact ⟨c, mem, rfl, fun got => unnamed ((right c mem).mp got)⟩
      · rintro ⟨c, mem, rfl, lost⟩
        exact ⟨⟨c, mem, rfl⟩, fun named => lost ((right c mem).mpr named)⟩
  · refine ⟨fun ⟨pdu, sent, _⟩ => ?_, fun right => absurd right.1 overrun⟩
    rw [fault] at sent
    contradiction

theorem Valid.aligned_iff {c : Nat} (mem : c ∈ x.stored)
    (right : x.fmsRead = x.sn x.reporter.fmc) : (x.received c ↔ x.names (x.sn c)) ↔ x.Aligned c := by
  have fmc : x.Outstanding x.reporter.fmc := .inr (.inl rfl)
  -- the bit that stands for this SN is the COUNT's own
  have own (d : Nat) (after : x.reporter.fmc < d) (got : x.received d)
      (same : x.sn c = x.sn x.reporter.fmc + (d - x.reporter.fmc)) : c = d := by
    have lower := h.near c d (.inl mem) (.inr (.inr ⟨after, got⟩))
    have upper := h.near d c (.inr (.inr ⟨after, got⟩)) (.inl mem)
    unfold sn Config.sn at same
    rcases h.snSpace with space | space <;> rw [space] at same lower upper <;> omega
  have named : x.names (x.sn c) ↔ x.sn c < x.sn x.reporter.fmc ∨
      x.reporter.fmc < c ∧ x.received c ∧ (c - x.reporter.fmc) % 8 ≠ 0 ∧
        x.sn c = x.sn x.reporter.fmc + (c - x.reporter.fmc) := by
    unfold names
    rw [right]
    refine or_congr_right ⟨?_, fun own => ⟨c, own⟩⟩
    rintro ⟨d, after, got, bit, same⟩
    obtain rfl := own d after got same
    exact ⟨after, got, bit, same⟩
  rw [named]
  rcases Nat.lt_trichotomy c x.reporter.fmc with before | same | after
  · have gone : ¬ x.reporter.fmc < c := by omega
    constructor
    · intro agree
      refine ⟨fun _ => ⟨fun low => agree.mpr (.inl low), fun got => ?_⟩, by omega, by omega, by omega⟩
      exact (agree.mp got).resolve_right fun bit => gone bit.1
    · intro aligned
      rw [aligned.below before]
      exact ⟨.inl, fun low => low.resolve_right fun bit => gone bit.1⟩
  · subst same
    simp only [Nat.lt_irrefl, false_and, or_self, iff_false]
    exact ⟨fun lost => ⟨by simp, fun _ => lost, by simp, by simp⟩, fun aligned => aligned.first rfl⟩
  · have near := h.near c x.reporter.fmc (.inl mem) fmc
    have different : x.sn c ≠ x.sn x.reporter.fmc := by
      intro same
      have := h.sn_injective (.inl mem) fmc same
      omega
    have place : x.sn x.reporter.fmc < x.sn c →
        x.sn c = x.sn x.reporter.fmc + (c - x.reporter.fmc) := by
      unfold sn Config.sn
      intro above
      rcases h.snSpace with space | space <;> rw [space] at near above ⊢ <;> omega
    constructor
    · intro agree
      refine ⟨by omega, by omega, fun _ high got => ?_, fun _ low => agree.mpr (.inl low)⟩
      rcases agree.mp got with low | bit
      · omega
      · exact bit.2.2.1
    · intro aligned
      constructor
      · intro got
        rcases Nat.lt_or_gt_of_ne different with low | high
        · exact .inl low
        · exact .inr ⟨after, got, aligned.bit after high got, place high⟩
      · rintro (low | bit)
        · exact aligned.wrapped after low
        · exact bit.2.1

end

theorem agrees_iff (h : x.Valid) : x.Agrees ↔ x.ReportFits ∧ ∀ c ∈ x.stored, x.ReadRight c := by
  rw [h.agrees_iff_names]
  refine and_congr_right fun _ => forall₂_congr fun c mem => ?_
  unfold ReadRight
  split
  · exact h.aligned_iff mem ‹_›
  · rfl

def peers (fmc : Nat) (history stored : List Nat) : Exchange where
  receiver := { cfg := ⟨.len12, false, false, true⟩, fmc }
  sender :=
    { cfg := ⟨.len12, false, false, true⟩
      undeliveredSdus :=
        { snMod := 4095
          count := stored.length
          sdus := fun slot => if slot ∈ stored.map (· % 4096) then some ⟨slot, []⟩ else none } }
  earlier c := c < fmc
  history := history
  stored := stored

theorem peers_hasSdu (fmc : Nat) (history stored : List Nat) (sn : Nat) :
    (peers fmc history stored).sender.undeliveredSdus.hasSdu sn = true ↔
      ∃ c ∈ stored, (peers fmc history stored).sn c = sn := by
  have place (c : Nat) : (peers fmc history stored).sn c = c % 4096 := rfl
  have queue : (peers fmc history stored).sender.undeliveredSdus.sdus =
      fun slot => if slot ∈ stored.map (· % 4096) then some ⟨slot, []⟩ else none := rfl
  simp only [hasSdu, UndeliveredSdus.find, queue, capacity, place]
  by_cases used : sn % 4096 ∈ stored.map (· % 4096)
  · rw [if_pos used]
    obtain ⟨c, mem, slot⟩ := List.mem_map.mp used
    by_cases small : sn % 4096 = sn
    · simp only [Option.filter, small, decide_true, if_true, Option.isSome_some, true_iff]
      exact ⟨c, mem, slot.trans small⟩
    · simp only [Option.filter, small, decide_false, Bool.false_eq_true, if_false, Option.isSome_none,
        false_iff]
      omega
  · rw [if_neg used]
    simp only [Option.filter_none, Option.isSome_none, Bool.false_eq_true, false_iff]
    rintro ⟨c, mem, rfl⟩
    exact used (List.mem_map.mpr ⟨c, mem, by omega⟩)

theorem peers_valid {fmc : Nat} {history stored : List Nat} (bound : fmc < 4294967296)
    (distinct : history.Nodup) (fresh : ∀ c ∈ history, fmc ≤ c) (small : ∀ c ∈ history, c + 1 < 4294967296)
    (low : Nat) (near : ∀ c, (peers fmc history stored).Outstanding c → low ≤ c ∧ c < low + 4096) :
    (peers fmc history stored).Valid where
  receiverDrb := ⟨rfl, rfl⟩
  required := rfl
  senderDrb := ⟨rfl, rfl⟩
  peers := rfl
  snLen := .inl rfl
  queue := ⟨rfl, Nat.zero_le _⟩
  fmc := bound
  earlier _ got := Nat.le_of_lt got
  distinct := distinct
  fresh c mem got := absurd (fresh c mem) (Nat.not_le_of_lt got)
  small := small
  stored := peers_hasSdu fmc history stored
  near c d hc hd := by
    have hc := near c hc
    have hd := near d hd
    change c < d + 4096
    omega

theorem agrees_iff_peers : ∃ x : Exchange, x.Valid ∧ x.history = [0, 2] ∧ x.stored = [1, 2] ∧ x.Agrees := by
  have fmc : (peers 0 [0, 2] [1, 2]).reporter.fmc = 1 := rfl
  have got (c : Nat) : (peers 0 [0, 2] [1, 2]).received c ↔ c = 0 ∨ c = 2 := by
    simp [received, peers]
  have valid : (peers 0 [0, 2] [1, 2]).Valid := by
    refine peers_valid (by decide) (by decide) (by decide) (by decide) 0 fun c near => ?_
    rcases near with mem | rfl | ⟨_, mem⟩
    · rcases List.mem_pair.mp mem with rfl | rfl <;> decide
    · rw [fmc]
      decide
    · rcases (got c).mp mem with rfl | rfl <;> decide
  refine ⟨_, valid, rfl, rfl, (agrees_iff valid).mpr ⟨fun c mem => ?_, fun c mem => ?_⟩⟩
  · rcases (got c).mp mem with rfl | rfl <;> rw [fmc] <;> decide
  · have read : (peers 0 [0, 2] [1, 2]).fmsRead =
        (peers 0 [0, 2] [1, 2]).sn (peers 0 [0, 2] [1, 2]).reporter.fmc := rfl
    unfold ReadRight
    rw [if_pos read]
    rcases List.mem_pair.mp mem with rfl | rfl
    · refine ⟨?_, ?_, ?_, ?_⟩ <;> simp [fmc, got]
    · refine ⟨?_, ?_, ?_, ?_⟩ <;> simp [fmc, got]

theorem peers_disagree : ¬ ∀ x : Exchange, x.Valid → x.Agrees := by
  intro agrees
  have fmc : (peers 4095 [] [4096]).reporter.fmc = 4095 := rfl
  have got (c : Nat) : (peers 4095 [] [4096]).received c ↔ c < 4095 := by
    simp [received, peers]
  have valid : (peers 4095 [] [4096]).Valid := by
    refine peers_valid (by decide) (by decide) (by decide) (by decide) 4095 fun c near => ?_
    rcases near with mem | rfl | ⟨above, mem⟩
    · obtain rfl := List.mem_singleton.mp mem
      decide
    · rw [fmc]
      decide
    · have := (got c).mp mem
      omega
  have right := ((valid.agrees_iff_names).mp (agrees _ valid)).2 4096 (mem_singleton_self _)
  have lost : ¬ (peers 4095 [] [4096]).received 4096 := by
    rw [got]
    decide
  refine lost (right.mpr (.inl ?_))
  change 4096 % 4096 < 4095 % 4096
  decide

end Exchange

end IsrRan.Pdcp
