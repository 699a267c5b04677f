import Mathlib.Data.List.TakeWhile
import IsrRan.Rlc.AmLte.TxWindow

namespace IsrRan.Rlc.AmLte.Tx
open Lib Adt List

section

variable {tx tx' : Tx}

namespace SegmentBuild

/-- A segment from `soStart` on that ends within `soEnd` and fits into the grant. The length indicators cover
what lies below `lower`. -/
structure Cut (b : SegmentBuild) (soStart soEnd nofBytes : Nat) : Prop where
  start : soStart < b.soEnd
  inside : b.soEnd ≤ soEnd
  room : segmentHeaderLength b.li.length + (b.soEnd - soStart) ≤ nofBytes
  covered : b.lower < b.soEnd → b.li.sum = b.lower - soStart

variable {b : SegmentBuild} {soStart soEnd nofBytes : Nat}

section
variable (h : b.Cut soStart soEnd nofBytes)
include h

section
variable (small : soEnd < 65536)
include small

theorem Cut.shrink_eq (grant : nofBytes < 4294967296) :
    b.shrink soStart (u32Sub nofBytes (segmentHeaderLength b.li.length)) = b := by
  have start := h.start
  have inside := h.inside
  have room := h.room
  unfold shrink
  rw [u32Sub_of_le (by omega) grant, u32Sub_of_le (by omega) (by omega), if_neg (by omega)]

theorem Cut.liOf_eq {upper : Nat}
    (needed : soStart < upper) (low : b.lower ≤ upper) (ends : upper < b.soEnd) :
    b.liOf soStart upper = upper - max b.lower soStart := by
  have inside := h.inside
  unfold liOf
  rw [Nat.sub_eq_zero_of_le ends.le, u32Sub_of_le (Nat.zero_le _) (by omega), u32Sub_of_le (by omega) (by omega),
    u16_of_lt (by omega)]
  omega

theorem Cut.addLi {upper : Nat}
    (needed : soStart < upper) (low : b.lower ≤ upper) (below : b.lower < b.soEnd) :
    ({ b.addLi soStart nofBytes upper with lower := upper } : SegmentBuild).Cut soStart soEnd nofBytes := by
  have start := h.start
  have inside := h.inside
  have room := h.room
  have covered := h.covered below
  unfold SegmentBuild.addLi
  dsimp only
  split
  · rename_i ends
    rw [h.liOf_eq small needed low ends]
    split
    · rename_i fits
      rw [u32Sub_of_le (by omega) (by omega)] at fits
      refine ⟨start, inside, ?_, fun _ => ?_⟩
      · dsimp only
        rw [length_append]
        exact fits
      · dsimp only
        rw [sum_append, sum_singleton]
        omega
    · -- no room for the next SDU: the segment ends with this one
      have last : soStart + (b.li.sum + (upper - max b.lower soStart)) = upper := by omega
      rw [last]
      exact ⟨needed, by dsimp only; omega, by dsimp only; omega, fun above => absurd above (Nat.lt_irrefl _)⟩
  · rename_i ends
    exact ⟨start, inside, room, fun above => absurd above ends⟩

theorem Cut.addLis (grant : nofBytes < 4294967296)
    (li : List Nat) : (b.addLis soStart nofBytes li).Cut soStart soEnd nofBytes := by
  induction li generalizing b with
  | nil => exact h
  | cons li rest ih =>
    unfold SegmentBuild.addLis
    split
    · exact h
    · rename_i below
      rw [Nat.not_le] at below
      rw [h.shrink_eq small grant]
      refine ih ?_
      split
      · rename_i needed
        simp only [Bool.and_eq_true, decide_eq_true_eq] at needed
        exact h.addLi small needed.1 (Nat.le_add_right _ _) below
      · rename_i passed
        simp only [Bool.and_eq_true, decide_eq_true_eq] at passed
        refine ⟨h.start, h.inside, h.room, fun _ => ?_⟩
        have covered := h.covered below
        dsimp only
        omega

end

end

end SegmentBuild

theorem segmentOf_cut {header : PduHeader} {soStart soEnd nofBytes : Nat} (start : soStart < soEnd)
    (small : soEnd < 65536) (grant : nofBytes < 4294967296) (room : segmentHeadLen header < nofBytes) :
    soStart < (segmentOf header soStart soEnd nofBytes).soEnd ∧
      (segmentOf header soStart soEnd nofBytes).soEnd ≤ soEnd := by
  have head : segmentHeaderLength 0 ≤ segmentHeadLen header := Nat.le_add_right _ _
  have cut (fi : Nat) : ({ SegmentBuild.shrink { soEnd, fi := 3 } soStart (nofBytes - segmentHeadLen header) with fi } :
      SegmentBuild).Cut soStart soEnd nofBytes := by
    unfold SegmentBuild.shrink
    rw [u32Sub_of_le start.le (by omega)]
    split
    · exact ⟨by dsimp only; omega, by dsimp only; omega, by dsimp only [length_nil]; omega,
        fun _ => (Nat.zero_sub _).symm⟩
    · exact ⟨start, le_rfl, by dsimp only [length_nil]; omega, fun _ => (Nat.zero_sub _).symm⟩
  have done : (segmentOf header soStart soEnd nofBytes).Cut soStart soEnd nofBytes :=
    (cut _).addLis small grant header.li
  exact ⟨done.start, done.inside⟩

theorem copyFrom_eq {buf : List Byte} {start len : Nat} (inside : start + len ≤ buf.length)
    (small : buf.length ≤ bufferTailroom) : copyFrom buf start len = .ok (segment buf start len) := by
  unfold copyFrom
  rw [if_neg (by omega)]
  congr 1
  apply ext_getElem
  · rw [segment_length inside, length_map, length_range]
  · intro i hi _
    have bound : i < len := by simpa using hi
    simp [segment, List.getElem?_eq_getElem (show start + i < buf.length by omega)]

theorem countLis_le (soStart soEnd lower : Nat) (li : List Nat) : countLis soStart soEnd lower li ≤ li.length := by
  induction li generalizing lower with
  | nil => exact le_rfl
  | cons li rest ih =>
    unfold countLis
    have tail := ih (lower + li)
    rw [length_cons]
    split
    · exact Nat.zero_le _
    · split <;> omega

structure RetxInside (retx : Retx) (nBytes : Nat) : Prop where
  start : retx.soStart < retx.soEnd
  fits : retx.soEnd ≤ nBytes
  whole : retx.isSegment = false → retx.soEnd = nBytes

theorem RetxInside.range {retx : Retx} {nBytes : Nat} (h : RetxInside retx nBytes) :
    (retxRange retx nBytes).1 < retx.soEnd ∧ (retxRange retx nBytes).2 = retx.soEnd := by
  have start := h.start
  unfold retxRange
  cases kind : retx.isSegment with
  | true => exact ⟨start, rfl⟩
  | false => exact ⟨Nat.zero_lt_of_lt start, (h.whole kind).symm⟩

theorem bufferTailroom_lt : bufferTailroom < 65536 := by decide

variable {retx : Retx} {rest : List Retx} {pdu : TxPdu} {buf : List Byte} {nofBytes : Nat}

theorem requiredBufferSize_ok (found : tx.txWindow.find retx.sn = some pdu) (stored : pdu.buf = some buf)
    (small : buf.length ≤ bufferTailroom) (few : pdu.header.li.length ≤ maxSdusPerPdu)
    (inside : RetxInside retx buf.length) : ∃ n : Nat, tx.requiredBufferSize retx = .ok n := by
  unfold requiredBufferSize
  simp only [found, stored]
  split
  · have li := countLis_le retx.soStart retx.soEnd 0 pdu.header.li
    have start := inside.start
    have fits := inside.fits
    have tailroom := bufferTailroom_lt
    unfold maxSdusPerPdu at few
    rw [u32Sub_of_le start.le (by omega), Nat.mod_eq_of_lt (by omega)]
    unfold i32
    rw [if_pos (by omega)]
    exact ⟨_, rfl⟩
  · exact ⟨packedLength pdu.header + buf.length, rfl⟩

inductive Resent (retx : Retx) (rest : List Retx) (buf : List Byte) : List Retx → List Byte → Prop where
  | noRoom : Resent retx rest buf (retx :: rest) []
  | last {header : PduHeader} {start len : Nat} : start + len ≤ buf.length →
      Resent retx rest buf rest (writeDataPduHeader header ++ segment buf start len)
  | part {front : Retx} {header : PduHeader} {start len : Nat} : start + len ≤ buf.length →
      front.sn = retx.sn → RetxInside front buf.length →
      Resent retx rest buf (front :: rest) (writeDataPduHeader header ++ segment buf start len)

theorem Resent.all {header : PduHeader} : Resent retx rest buf rest (writeDataPduHeader header ++ buf) := by
  have whole : segment buf 0 buf.length = buf := by simp [segment]
  have inside : 0 + buf.length ≤ buf.length := Nat.le_of_eq (Nat.zero_add _)
  have sent := @Resent.last retx rest buf header 0 buf.length inside
  rwa [whole] at sent

theorem resetPoll_retxQueue (tx : Tx) (p : Bool) :
    (if p then tx.resetPoll else tx).retxQueue = tx.retxQueue := by
  cases p <;> rfl

theorem buildSegment_resent (found : tx.txWindow.find retx.sn = some pdu) (stored : pdu.buf = some buf)
    (small : buf.length ≤ bufferTailroom) (inside : RetxInside retx buf.length)
    (queue : tx.retxQueue = retx :: rest) (grant : nofBytes < 4294967296) :
    ∃ tx' out, tx.buildSegment nofBytes retx = .ok (tx', out) ∧ Resent retx rest buf tx'.retxQueue out := by
  obtain ⟨low, high⟩ := inside.range
  have fits := inside.fits
  have tailroom := bufferTailroom_lt
  unfold buildSegment
  simp only [found, stored]
  split
  · exact ⟨_, _, rfl, by rw [queue]; exact .noRoom⟩
  · rename_i room
    rw [Nat.not_le] at room
    have cut := @segmentOf_cut pdu.header _ _ nofBytes (high ▸ low) (by omega) grant room
    obtain ⟨start, inside'⟩ := cut
    generalize (retxRange retx buf.length).1 = soStart at *
    rw [high] at start inside' ⊢
    generalize segmentOf pdu.header soStart retx.soEnd nofBytes = built at *
    have copied : soStart + (built.soEnd - soStart) ≤ buf.length := by omega
    rw [u32Sub_of_le start.le (by omega), copyFrom_eq copied small]
    refine ⟨_, _, rfl, ?_⟩
    rw [resetPoll_retxQueue, queue]
    unfold advanceRetx
    dsimp only
    split
    · exact .last copied
    · rename_i go
      simp only [Bool.or_eq_true, decide_eq_true_eq] at go
      refine .part copied rfl ⟨?_, fits, fun whole => by contradiction⟩
      dsimp only
      omega

theorem buildRetxPduFor_resent (found : tx.txWindow.find retx.sn = some pdu) (stored : pdu.buf = some buf)
    (small : buf.length ≤ bufferTailroom) (few : pdu.header.li.length ≤ maxSdusPerPdu)
    (inside : RetxInside retx buf.length) (queue : tx.retxQueue = retx :: rest) (grant : nofBytes < 4294967296) :
    ∃ tx' out, tx.buildRetxPduFor nofBytes retx = .ok (tx', out) ∧ Resent retx rest buf tx'.retxQueue out := by
  obtain ⟨reqSize, required⟩ := requiredBufferSize_ok found stored small few inside
  unfold buildRetxPduFor
  simp only [required, bind, Except.bind, show ¬ (reqSize : Int) < 0 by omega, if_false]
  split
  · exact buildSegment_resent found stored small inside queue grant
  · simp only [found, stored]
    refine ⟨_, _, rfl, ?_⟩
    rw [resetPoll_retxQueue, queue]
    exact .all

end

variable {tx tx' : Tx} {retx : Retx} {queue rest : List Retx} {nofBytes : Nat}

def age (tx : Tx) (sn : Nat) : Nat := modOffset mod sn tx.vtS

theorem WindowInv.age_eq (h : tx.WindowInv) {sn : Nat} (present : tx.txWindow.contains sn = true) :
    tx.age sn = tx.offset tx.vtS - tx.offset sn := by
  obtain ⟨hsn, below⟩ := h.keys sn present
  unfold age
  rw [modOffset_rebase h.vtA hsn h.vtS]
  exact if_pos below.le

theorem WindowInv.age_pos (h : tx.WindowInv) {sn : Nat} (present : tx.txWindow.contains sn = true) :
    0 < tx.age sn := by
  have below := (h.keys sn present).2
  rw [h.age_eq present]
  omega

theorem WindowInv.age_le (h : tx.WindowInv) {sn : Nat} (present : tx.txWindow.contains sn = true) :
    tx.age sn ≤ windowSize := by
  have order := h.order
  rw [h.age_eq present]
  omega

/-- No SN in the queue is about to be given to a new PDU, and what is asked for again was stored. An entry
whose PDU is gone is not much older than those before it. -/
structure QueueInv (tx : Tx) (queue : List Retx) : Prop where
  aged : ∀ retx ∈ queue, retx.sn < mod ∧ 0 < tx.age retx.sn
  spread : queue.Pairwise fun earlier later => tx.age later.sn < tx.age earlier.sn + windowSize
  inside : ∀ retx ∈ queue, ∀ pdu buf, tx.txWindow.find retx.sn = some pdu → pdu.buf = some buf →
    RetxInside retx buf.length

namespace QueueInv

theorem nil (tx : Tx) : tx.QueueInv [] := ⟨by simp, .nil, by simp⟩

theorem sublist (h : tx.QueueInv queue) (sub : rest.Sublist queue) : tx.QueueInv rest :=
  ⟨fun retx mem => h.aged retx (sub.subset mem), h.spread.sublist sub,
    fun retx mem => h.inside retx (sub.subset mem)⟩

theorem front {front : Retx} (h : tx.QueueInv (retx :: rest)) (sn : front.sn = retx.sn)
    (inside : ∀ pdu buf, tx.txWindow.find retx.sn = some pdu → pdu.buf = some buf → RetxInside front buf.length) :
    tx.QueueInv (front :: rest) := by
  obtain ⟨first, others⟩ := List.pairwise_cons.mp h.spread
  refine ⟨fun entry mem => ?_, List.pairwise_cons.mpr ⟨fun later mem => ?_, others⟩, fun entry mem => ?_⟩
  · rcases List.mem_cons.mp mem with rfl | mem
    · rw [sn]
      exact h.aged retx mem_cons_self
    · exact h.aged entry (mem_cons_of_mem _ mem)
  · rw [sn]
    exact first later mem
  · rcases List.mem_cons.mp mem with rfl | mem
    · rw [sn]
      exact inside
    · exact h.inside entry (mem_cons_of_mem _ mem)

theorem of_window (window : tx.WindowInv) (present : ∀ retx ∈ queue, tx.txWindow.contains retx.sn = true)
    (inside : ∀ retx ∈ queue, ∀ pdu buf, tx.txWindow.find retx.sn = some pdu → pdu.buf = some buf →
      RetxInside retx buf.length) : tx.QueueInv queue := by
  refine ⟨fun retx mem => ⟨(window.keys _ (present retx mem)).1, window.age_pos (present retx mem)⟩, ?_, inside⟩
  refine List.Pairwise.imp_of_mem (R := fun _ _ => True) ?_ (pairwise_of_forall fun _ _ => trivial)
  intro earlier later mem mem' _
  have old := window.age_le (present later mem')
  have young := window.age_pos (present earlier mem)
  omega

theorem push (h : tx.QueueInv queue) (window : tx.WindowInv) (present : tx.txWindow.contains retx.sn = true)
    (inside : ∀ pdu buf, tx.txWindow.find retx.sn = some pdu → pdu.buf = some buf → RetxInside retx buf.length) :
    tx.QueueInv (queue ++ [retx]) := by
  refine ⟨fun entry mem => ?_, List.pairwise_append.mpr ⟨h.spread, pairwise_singleton _ _, ?_⟩,
    fun entry mem => ?_⟩
  · rcases List.mem_append.mp mem with mem | mem
    · exact h.aged entry mem
    · rw [List.mem_singleton.mp mem]
      exact ⟨(window.keys _ present).1, window.age_pos present⟩
  · intro earlier mem later last
    have young := (h.aged earlier mem).2
    have old := window.age_le present
    rw [List.mem_singleton.mp last]
    omega
  · rcases List.mem_append.mp mem with mem | mem
    · exact h.inside entry mem
    · rw [List.mem_singleton.mp mem]
      exact inside

end QueueInv

def Stored (tx : Tx) : Prop := ∀ sn pdu, tx.txWindow.find sn = some pdu →
  ∃ buf, pdu.buf = some buf ∧ buf.length ≤ bufferTailroom ∧ pdu.header.li.length ≤ maxSdusPerPdu

structure RetxInv (tx : Tx) : Prop where
  window : tx.WindowInv
  stored : tx.Stored
  queue : tx.QueueInv tx.retxQueue

namespace RetxInv

theorem init (cfg : TxConfig) : ({ cfg } : Tx).RetxInv :=
  ⟨windowInv_init cfg, fun sn pdu found => by simp at found, .nil _⟩

theorem of_found (h : tx.RetxInv) (window : tx'.WindowInv) (vtS : tx'.vtS = tx.vtS)
    (found : ∀ sn pdu, tx'.txWindow.find sn = some pdu →
      ∃ old, tx.txWindow.find sn = some old ∧ pdu.header = old.header ∧ pdu.buf = old.buf)
    (queue : tx.QueueInv tx'.retxQueue) : tx'.RetxInv := by
  have age (sn : Nat) : tx'.age sn = tx.age sn := by
    unfold Tx.age
    rw [vtS]
  refine ⟨window, fun sn pdu now => ?_, ⟨fun retx mem => ?_, ?_, fun retx mem pdu buf now stored => ?_⟩⟩
  · obtain ⟨old, was, header, same⟩ := found sn pdu now
    rw [header, same]
    exact h.stored sn old was
  · rw [age]
    exact queue.aged retx mem
  · simp only [age]
    exact queue.spread
  · obtain ⟨old, was, _, same⟩ := found retx.sn pdu now
    exact queue.inside retx mem old buf was (same ▸ stored)

theorem keeps (h : tx.RetxInv) (keeps : Keeps tx tx') (queue : tx.QueueInv tx'.retxQueue) : tx'.RetxInv := by
  refine h.of_found (h.window.keeps keeps) keeps.vtS (fun sn pdu now => ?_) queue
  obtain ⟨old, was, _, header, buf⟩ := keeps.found now
  exact ⟨old, was, header, buf⟩

theorem same (h : tx.RetxInv) (vtA : tx'.vtA = tx.vtA) (vtMs : tx'.vtMs = tx.vtMs) (vtS : tx'.vtS = tx.vtS)
    (window : tx'.txWindow = tx.txWindow) (queue : tx'.retxQueue = tx.retxQueue) : tx'.RetxInv := by
  refine h.of_found (h.window.same vtA vtMs vtS window) vtS (fun sn pdu now => ?_) ?_
  · rw [window] at now
    exact ⟨pdu, now, rfl, rfl⟩
  · rw [queue]
    exact h.queue

end RetxInv

def nBytesAt (tx : Tx) (sn : Nat) : Option Nat := ((tx.txWindow.find sn).bind AmdTxPdu.buf).map List.length

theorem nBytesAt_eq {sn : Nat} {pdu : TxPdu} {buf : List Byte} (found : tx.txWindow.find sn = some pdu)
    (stored : pdu.buf = some buf) : tx.nBytesAt sn = some buf.length := by
  simp [nBytesAt, found, stored]

def edgeEmpty (tx : Tx) : Bool := tx.nBytesAt tx.vtA = some 0

inductive Queued (tx : Tx) (sn : Nat) : List Retx → Prop where
  | absent : tx.txWindow.contains sn = false → Queued tx sn tx.retxQueue
  | pushed {retx : Retx} : tx.txWindow.contains sn = true → retx.sn = sn → Queued tx sn (tx.retxQueue ++ [retx])

theorem RetxInv.retransmitPdu (h : tx.RetxInv) {sn : Nat} (filled : tx.nBytesAt sn ≠ some 0)
    (room : tx.txWindow.contains sn = true → tx.retxQueue.length < windowSize - 1) :
    ∃ tx' calls, tx.retransmitPdu sn = .ok (tx', calls) ∧ tx'.RetxInv ∧ Queued tx sn tx'.retxQueue := by
  unfold Tx.retransmitPdu
  split
  · rename_i empty
    have absent := (h.window.wellFormed.isEmpty_iff (by decide)).mp empty sn
    exact ⟨tx, [], rfl, h, .absent absent⟩
  · cases found : tx.txWindow.find sn with
    | none => exact ⟨tx, [], rfl, h, .absent (CircularMap.contains_eq_false.mpr found)⟩
    | some pdu =>
      have present : tx.txWindow.contains sn = true := CircularMap.contains_eq_true.mpr ⟨pdu, found⟩
      obtain ⟨buf, stored, _, _⟩ := h.stored sn pdu found
      have positive : 0 < buf.length := by
        rw [nBytesAt_eq found stored] at filled
        exact Nat.pos_of_ne_zero fun zero => filled (by rw [zero])
      have inside : ∀ pdu' buf', tx.txWindow.find sn = some pdu' → pdu'.buf = some buf' →
          RetxInside { sn, soEnd := buf.length } buf'.length := by
        intro pdu' buf' found' stored'
        obtain rfl := Option.some.inj (found.symm.trans found')
        obtain rfl := Option.some.inj (stored.symm.trans stored')
        exact ⟨positive, le_rfl, fun _ => rfl⟩
      have counted : (tx.countRetx sn pdu).2.1.buf = some buf := stored
      dsimp only
      rw [counted]
      have pushed : (tx.countRetx sn pdu).1.pushRetx { sn, soEnd := buf.length } = .ok _ :=
        if_pos (room present)
      simp only [pushed]
      refine ⟨_, _, rfl, h.keeps ((keeps_countRetx found).trans (keeps_pushRetx pushed)) ?_,
        .pushed present rfl⟩
      exact h.queue.push h.window present inside

def Fresh (tx : Tx) : Prop := ∀ front rest, tx.retxQueue = front :: rest → tx.txWindow.contains front.sn = true

def Copied (tx : Tx) (out : List Byte) : Prop :=
  out = [] ∨ ∃ sn pdu buf header start len, tx.txWindow.find sn = some pdu ∧ pdu.buf = some buf ∧
    start + len ≤ buf.length ∧ out = writeDataPduHeader header ++ segment buf start len

theorem Copied.of_keeps {out : List Byte} (keeps : Keeps tx tx') (h : tx'.Copied out) : tx.Copied out := by
  rcases h with nothing | ⟨sn, pdu, buf, header, start, len, found, stored, inside, eq⟩
  · exact .inl nothing
  · obtain ⟨old, was, _, _, same⟩ := keeps.found found
    exact .inr ⟨sn, old, buf, header, start, len, was, same ▸ stored, inside, eq⟩

structure RetxRead (tx tx' : Tx) (out : List Byte) : Prop where
  inv : tx'.RetxInv
  copied : tx.Copied out
  fresh : out = [] → tx'.Fresh

theorem RetxInv.buildRetxPduFor (h : tx.RetxInv) (queue : tx.retxQueue = retx :: rest)
    (present : tx.txWindow.contains retx.sn = true) (grant : nofBytes < 4294967296) :
    ∃ tx' out, tx.buildRetxPduFor nofBytes retx = .ok (tx', out) ∧ RetxRead tx tx' out := by
  obtain ⟨pdu, found⟩ := CircularMap.contains_eq_true.mp present
  obtain ⟨buf, stored, small, few⟩ := h.stored retx.sn pdu found
  have before := h.queue
  rw [queue] at before
  have inside := before.inside retx mem_cons_self pdu buf found stored
  obtain ⟨tx', out, built, resent⟩ := buildRetxPduFor_resent found stored small few inside queue grant
  have keeps := keeps_buildRetxPduFor built
  refine ⟨tx', out, built, ?_⟩
  generalize after : tx'.retxQueue = queue' at resent
  cases resent with
  | noRoom =>
    refine ⟨h.keeps keeps (after ▸ before), .inl rfl, fun _ front rest' eq => ?_⟩
    obtain ⟨rfl, _⟩ := List.cons.inj (after.symm.trans eq)
    rw [keeps.contains]
    exact present
  | last copied =>
    refine ⟨h.keeps keeps ?_, .inr ⟨_, pdu, buf, _, _, _, found, stored, copied, rfl⟩, fun nothing => ?_⟩
    · rw [after]
      exact before.sublist (sublist_cons_self _ _)
    · simp [writeDataPduHeader] at nothing
  | part copied sn shrunk =>
    refine ⟨h.keeps keeps ?_, .inr ⟨_, pdu, buf, _, _, _, found, stored, copied, rfl⟩, fun nothing => ?_⟩
    · rw [after]
      refine before.front sn fun pdu' buf' found' stored' => ?_
      obtain rfl := Option.some.inj (found.symm.trans found')
      obtain rfl := Option.some.inj (stored.symm.trans stored')
      exact shrunk
    · simp [writeDataPduHeader] at nothing

def allGone (tx : Tx) : Bool := tx.retxQueue.all fun retx => !tx.txWindow.contains retx.sn

theorem RetxInv.buildRetxPdu (h : tx.RetxInv) (edge : tx.allGone = true → tx.edgeEmpty = false)
    (grant : nofBytes < 4294967296) :
    ∃ tx' out calls, tx.buildRetxPdu nofBytes = .ok (tx', out, calls) ∧ RetxRead tx tx' out := by
  have keepsQueue (queue : List Retx) : Keeps tx { tx with retxQueue := queue } := keeps_with tx _ _ _ _ _
  have dropped : RetxInv
      { tx with retxQueue := tx.retxQueue.dropWhile fun retx => !tx.txWindow.contains retx.sn } :=
    h.keeps (keepsQueue _) (h.queue.sublist (dropWhile_sublist _))
  unfold Tx.buildRetxPdu
  cases left : tx.retxQueue.dropWhile fun retx => !tx.txWindow.contains retx.sn with
  | cons retx rest =>
    rw [left] at dropped
    have present : tx.txWindow.contains retx.sn = true := by
      have first := head_dropWhile_not (fun retx : Retx => !tx.txWindow.contains retx.sn)
        (by rw [left]; exact cons_ne_nil _ _)
      simpa [left] using first
    obtain ⟨tx', out, built, read⟩ := dropped.buildRetxPduFor rfl present grant
    refine ⟨tx', out, [], ?_, read.inv, read.copied.of_keeps (keepsQueue _), read.fresh⟩
    simp only [built, bind, Except.bind]
  | nil =>
    rw [left] at dropped
    dsimp only
    split
    · rename_i present
      have gone : tx.allGone = true := List.all_eq_true.mpr (List.dropWhile_eq_nil_iff.mp left)
      have filled : tx.nBytesAt tx.vtA ≠ some 0 := by simpa [edgeEmpty] using edge gone
      obtain ⟨tx₁, calls, sent, inv, queued⟩ := dropped.retransmitPdu filled
        (fun _ => (by decide : 0 < windowSize - 1))
      have keeps := (keepsQueue []).trans (keeps_retransmitPdu sent)
      generalize queue₁ : tx₁.retxQueue = queue' at queued
      cases queued with
      | absent absent =>
        rw [present] at absent
        contradiction
      | @pushed retx _ sn =>
        have present₁ : tx₁.txWindow.contains retx.sn = true := by
          rw [keeps.contains, sn]
          exact present
        obtain ⟨tx', out, built, read⟩ := inv.buildRetxPduFor queue₁ present₁ grant
        refine ⟨tx', out, calls, ?_, read.inv, read.copied.of_keeps keeps, read.fresh⟩
        simp only [sent, bind, Except.bind, queue₁, nil_append, built]
    · refine ⟨_, [], [], rfl, dropped, .inl rfl, fun _ front rest eq => ?_⟩
      contradiction

def resendsEdge (tx : Tx) : Bool := (tx.windowFull || !tx.retxQueue.isEmpty) && tx.allGone

theorem RetxInv.resend (h : tx.RetxInv) (safe : tx.resendsEdge = true → tx.edgeEmpty = false)
    (grant : nofBytes < 4294967296) :
    ∃ tx₁ calls₁ tx₂ out calls₂, tx.fillRetxQueue = .ok (tx₁, calls₁) ∧
      tx₁.readRetx nofBytes = .ok (tx₂, out, calls₂) ∧ RetxRead tx tx₂ out := by
  unfold fillRetxQueue
  split
  · rename_i full
    simp only [Bool.and_eq_true, List.isEmpty_iff] at full
    obtain ⟨full, empty⟩ := full
    have edge : tx.edgeEmpty = false := safe (by simp [resendsEdge, full, allGone, empty])
    have filled : tx.nBytesAt tx.vtA ≠ some 0 := by simpa [edgeEmpty] using edge
    obtain ⟨tx₁, calls₁, sent, inv, queued⟩ := h.retransmitPdu filled
      (fun _ => by rw [empty]; exact (by decide : 0 < windowSize - 1))
    have keeps := keeps_retransmitPdu sent
    unfold readRetx
    generalize queue₁ : tx₁.retxQueue = queue' at queued
    cases queued with
    | absent =>
      rw [empty] at queue₁
      refine ⟨tx₁, calls₁, tx₁, [], [], sent, by rw [queue₁]; rfl, inv, .inl rfl, fun _ front rest eq => ?_⟩
      rw [queue₁] at eq
      contradiction
    | @pushed retx present sn =>
      have here : tx₁.txWindow.contains retx.sn = true := by
        rw [keeps.contains, sn]
        exact present
      obtain ⟨tx₂, out, calls₂, built, read⟩ := inv.buildRetxPdu (fun gone => by
        simp [allGone, queue₁, here] at gone) grant
      refine ⟨tx₁, calls₁, tx₂, out, calls₂, sent, ?_, read.inv, read.copied.of_keeps keeps, read.fresh⟩
      rw [if_neg (by rw [queue₁]; simp)]
      exact built
  · unfold readRetx
    cases queue : tx.retxQueue with
    | nil =>
      refine ⟨tx, [], tx, [], [], rfl, by rw [queue]; rfl, h, .inl rfl, fun _ front rest eq => ?_⟩
      rw [queue] at eq
      contradiction
    | cons retx rest =>
      obtain ⟨tx₂, out, calls₂, built, read⟩ := h.buildRetxPdu (fun gone => safe (by
        simp [resendsEdge, gone, queue])) grant
      refine ⟨tx, [], tx₂, out, calls₂, rfl, ?_, read⟩
      rw [if_neg (by rw [queue]; simp)]
      exact built

theorem RetxInv.next_unused (h : tx.RetxInv) (fresh : tx.Fresh) (room : tx.offset tx.vtS < windowSize)
    (mem : retx ∈ tx.retxQueue) : tx.age retx.sn + 1 < mod := by
  cases queue : tx.retxQueue with
  | nil =>
    rw [queue] at mem
    contradiction
  | cons front rest =>
    have present := fresh front rest queue
    have young : tx.age front.sn < windowSize := by
      rw [h.window.age_eq present]
      omega
    have spread := h.queue.spread
    rw [queue] at mem spread
    rcases List.mem_cons.mp mem with rfl | mem
    · unfold windowSize mod at *
      omega
    · have near := (List.pairwise_cons.mp spread).1 retx mem
      unfold windowSize mod at *
      omega

theorem RetxInv.built (h : tx.RetxInv) (fresh : tx.Fresh) {pdu : List Byte} (built : Built tx tx' pdu) :
    tx'.RetxInv := by
  have window := h.window.built built
  cases built with
  | nothing => exact h
  | @gaveUp b notFull fills =>
    have added := h.window.added notFull fills
    have same : (b.tx.removePdu tx.vtS).vtS = b.tx.vtS ∧ (b.tx.removePdu tx.vtS).retxQueue = b.tx.retxQueue := by
      unfold removePdu
      split <;> exact ⟨rfl, rfl⟩
    refine h.of_found window (same.1.trans added.vtS) (fun sn pdu now => ?_) ?_
    · rw [find_removePdu] at now
      split at now
      · contradiction
      · rename_i other
        rw [added.others sn other] at now
        exact ⟨pdu, now, rfl, rfl⟩
    · rw [same.2, fills.retxQueue]
      exact h.queue
  | @done b notFull fills own small =>
    have added := h.window.added notFull fills
    have room := h.window.room notFull
    obtain ⟨ownPdu, found⟩ := CircularMap.contains_eq_true.mp added.own
    rw [← own] at found
    obtain ⟨p, fi, _, _, _, _, eq⟩ := finishDataPdu_eq b found
    have present := added.own
    rw [← own] at present
    have find (sn : Nat) : (finishDataPdu b).1.txWindow.find sn =
        if sn = tx.vtS then some { ownPdu with header := { b.header with p, fi }, buf := some b.pdu }
        else tx.txWindow.find sn := by
      rw [eq]
      rw [CircularMap.find_assign present, own]
      split
      · rfl
      · rename_i other
        exact added.others sn other
    have queue : (finishDataPdu b).1.retxQueue = tx.retxQueue := by
      rw [eq]
      exact fills.retxQueue
    have age (retx : Retx) (mem : retx ∈ tx.retxQueue) :
        (finishDataPdu b).1.age retx.sn = tx.age retx.sn + 1 := by
      have unused := h.next_unused fresh room mem
      have next := modOffset_succ (h.queue.aged retx mem).1 h.window.vtS unused
      rw [eq]
      rw [added.vtS]
      exact next
    refine ⟨window, fun sn pdu now => ?_, ⟨fun retx mem => ?_, ?_, fun retx mem pdu buf now stored => ?_⟩⟩
    · rw [find] at now
      split at now
      · cases now
        exact ⟨b.pdu, rfl, small.1, small.2⟩
      · exact h.stored sn pdu now
    · rw [queue] at mem
      rw [age retx mem]
      exact ⟨(h.queue.aged retx mem).1, Nat.succ_pos _⟩
    · rw [queue]
      refine h.queue.spread.imp_of_mem fun {earlier later} mem mem' near => ?_
      rw [age earlier mem, age later mem']
      omega
    · rw [queue] at mem
      have other : retx.sn ≠ tx.vtS := by
        have old := (h.queue.aged retx mem).2
        intro same
        unfold Tx.age at old
        rw [same, modOffset_self h.window.vtS] at old
        contradiction
      rw [find, if_neg other] at now
      exact h.queue.inside retx mem pdu buf now stored

namespace DataBuild
variable {b : DataBuild}

theorem addSdu_noAssert (b : DataBuild) (sdu : TxSdu) : NoAssert (fun _ => True) (b.addSdu sdu) := by
  unfold addSdu
  dsimp only
  split
  · rfl
  · trivial

theorem continueSdu_noAssert (b : DataBuild) : NoAssert (fun _ => True) b.continueSdu := by
  unfold continueSdu
  split
  · trivial
  · exact (addSdu_noAssert b _).bind fun _ _ => trivial

theorem pullSdus_noAssert (b : DataBuild) (fuel : Nat) : NoAssert (fun _ => True) (b.pullSdus fuel) := by
  induction fuel generalizing b with
  | zero => trivial
  | succ fuel ih =>
    unfold pullSdus
    split
    · split
      · trivial
      · dsimp only
        split
        · trivial
        · split
          · trivial
          · exact (addSdu_noAssert _ _).bind fun b _ => ih _
    · trivial

end DataBuild

theorem buildDataPdu_noAssert (tx : Tx) (nofBytes : Nat) :
    NoAssert (fun out => Built tx out.1 out.2) (tx.buildDataPdu nofBytes) := by
  have total : NoAssert (fun _ => True) (tx.buildDataPdu nofBytes) := by
    unfold buildDataPdu
    split
    · trivial
    · refine (DataBuild.continueSdu_noAssert _).bind fun b _ => ?_
      refine (DataBuild.pullSdus_noAssert _ _).bind fun result _ => ?_
      cases result <;> trivial
  exact total.and fun out built => buildDataPdu_built built

end IsrRan.Rlc.AmLte.Tx
