import IsrRan.Rlc.UmNr.System

namespace IsrRan.Rlc.UmNr
open Lib List

structure Slice (sdu : Sdu) (header : PduHeader) (data : List Byte) : Prop where
  bytes : data = segment sdu header.so data.length
  nonempty : 0 < data.length
  bound : header.so + data.length ≤ sdu.length
  last : header.si = .lastSegment → header.so + data.length = sdu.length
  short : sdu.length ≤ maxBufferSizeBytes

structure EntryOf (sdu : Sdu) (pdu : UmdPduSegments) : Prop where
  segments : ∀ entry ∈ pdu.segments, Slice sdu entry.2.header entry.2.buf.msg
  total : pdu.totalSduLength = 0 ∨ pdu.totalSduLength = sdu.length
  started : ∀ buf ∈ pdu.sdu, buf.msg = sdu.take pdu.nextExpectedSo
  positive : pdu.sdu ≠ none → 0 < pdu.nextExpectedSo
  bound : pdu.nextExpectedSo ≤ sdu.length

variable {sdu : Sdu} {pdu : UmdPduSegments}

theorem EntryOf.empty (sdu : Sdu) : EntryOf sdu {} where
  segments := by simp
  total := .inl rfl
  started := by simp
  positive := by simp
  bound := Nat.zero_le _

theorem EntryOf.withoutSegments (h : EntryOf sdu pdu) :
    EntryOf sdu { pdu with segments := [] } :=
  { h with segments := by simp }

theorem EntryOf.add (h : EntryOf sdu pdu) {rxPdu : UmdPdu}
    (slice : Slice sdu rxPdu.header rxPdu.buf.msg) :
    EntryOf sdu { pdu.updateTotalSduLength rxPdu with
      segments := (pdu.updateTotalSduLength rxPdu).segments.emplace rxPdu.header.so rxPdu } := by
  have same : (pdu.updateTotalSduLength rxPdu).segments = pdu.segments ∧
      (pdu.updateTotalSduLength rxPdu).sdu = pdu.sdu ∧
      (pdu.updateTotalSduLength rxPdu).nextExpectedSo = pdu.nextExpectedSo := by
    unfold UmdPduSegments.updateTotalSduLength
    split <;> simp
  refine ⟨?_, ?_, by simpa only [same] using h.started, by simpa only [same] using h.positive,
    by simpa only [same] using h.bound⟩
  · intro entry mem
    rw [same.1] at mem
    rcases OrderedMap.mem_emplace mem with rfl | mem
    · exact slice
    · exact h.segments entry mem
  · unfold UmdPduSegments.updateTotalSduLength
    split
    · rename_i last
      have small : rxPdu.header.so + rxPdu.buf.nBytes < 4294967296 :=
        Nat.lt_of_le_of_lt (Nat.le_trans slice.bound slice.short) (by decide)
      exact .inr ((Nat.mod_eq_of_lt small).trans (slice.last last))
    · exact h.total

theorem assemble_entryOf {out : UmdPduSegments} {rest : OrderedMap UmdPdu}
    {complete : Bool} (h : EntryOf sdu pdu)
    (slices : ∀ entry ∈ rest, Slice sdu entry.2.header entry.2.buf.msg)
    (done : Rx.assemble pdu rest = some (complete, out)) :
    EntryOf sdu out ∧ (complete = true → out.sdu.map ByteBuffer.msg = some sdu) := by
  induction rest generalizing pdu with
  | nil =>
    obtain ⟨rfl, rfl⟩ := done
    exact ⟨h, by simp⟩
  | cons entry rest ih =>
    obtain ⟨so, rxPdu⟩ := entry
    have slice := slices _ mem_cons_self
    have slices' : ∀ entry ∈ rest, Slice sdu entry.2.header entry.2.buf.msg :=
      fun entry mem => slices entry (mem_cons_of_mem _ mem)
    unfold Rx.assemble at done
    split at done
    · rename_i expected
      have bytes := slice.bytes
      have nonempty := slice.nonempty
      have bound := slice.bound
      simp only [expected] at bytes bound
      split at done
      · -- the first segment becomes the SDU buffer
        rename_i first
        rw [first] at bytes bound
        split at done
        · refine ih ?_ slices' done
          refine ⟨h.segments, h.total, ?_, fun _ => nonempty, ?_⟩
          · simpa [segment, ByteBuffer.nBytes] using bytes
          · simpa [ByteBuffer.nBytes] using bound
        · contradiction
      · split at done
        · contradiction
        · rename_i buf started
          have whole : buf.msg ++ rxPdu.buf.msg = sdu.take (pdu.nextExpectedSo + rxPdu.buf.nBytes) := by
            rw [h.started buf started, bytes, ByteBuffer.nBytes, ← take_append_segment]
          split at done
          · contradiction
          · dsimp only at done
            split at done
            · -- the segment that completes the SDU
              rename_i total
              obtain ⟨rfl, rfl⟩ := done
              have full : pdu.nextExpectedSo + rxPdu.buf.nBytes = sdu.length := by
                rcases h.total with none | full
                · simp only [ByteBuffer.nBytes] at total
                  omega
                · exact total.trans full
              refine ⟨⟨?_, h.total, ?_, ?_, ?_⟩, ?_⟩
              · intro entry mem
                rcases List.mem_append.mp mem with mem | mem
                · exact h.segments entry mem
                · exact slices' entry mem
              · simpa using whole
              · intro _
                simp only [ByteBuffer.nBytes]
                omega
              · exact Nat.le_of_eq full
              · simp [whole, full]
            · refine ih ?_ slices' done
              refine ⟨h.segments, h.total, ?_, ?_, ?_⟩
              · simpa using whole
              · intro _
                simp only [ByteBuffer.nBytes]
                omega
              · simpa [ByteBuffer.nBytes] using bound
    · refine ih ?_ slices' done
      refine ⟨?_, h.total, h.started, h.positive, h.bound⟩
      intro entry mem
      rcases List.mem_append.mp mem with mem | mem
      · exact h.segments entry mem
      · obtain rfl := List.mem_singleton.mp mem
        exact slice

namespace Rx

/-- Every entry of the receive buffer holds parts of the SDU that `origin` gives for its SN. -/
def HoldsSlices (rx : Rx) (origin : Nat → Option Sdu) : Prop :=
  ∀ sn entry, rx.rxWindow.find sn = some entry → ∃ sdu, origin sn = some sdu ∧ EntryOf sdu entry

variable {rx rx' : Rx} {origin origin' : Nat → Option Sdu}

variable {sn : Nat} {sdu : Sdu} {sdus : List Sdu}

section
variable (h : rx.HoldsSlices origin)
include h

theorem HoldsSlices.mono
    (keeps : ∀ sn sdu, rx.rxWindow.contains sn = true → origin sn = some sdu → origin' sn = some sdu) :
    rx.HoldsSlices origin' := by
  intro sn entry found
  obtain ⟨sdu, from_, parts⟩ := h sn entry found
  exact ⟨sdu, keeps sn sdu (by simp [OrderedMap.contains, found]) from_, parts⟩

theorem HoldsSlices.ofWindow (same : rx'.rxWindow = rx.rxWindow) :
    rx'.HoldsSlices origin := by
  intro sn entry found
  exact h sn entry (same ▸ found)

theorem HoldsSlices.filter (keep : Nat → Bool) :
    ({ rx with rxWindow := rx.rxWindow.filter (fun entry => keep entry.1) } : Rx).HoldsSlices origin := by
  intro sn entry found
  rw [OrderedMap.find_filter] at found
  split at found
  · exact h sn entry found
  · contradiction

theorem HoldsSlices.erase (sn : Nat) :
    ({ rx with rxWindow := rx.rxWindow.erase sn } : Rx).HoldsSlices origin :=
  h.filter (fun sn' => decide (sn' ≠ sn))

theorem HoldsSlices.insertOrAssign {entry : UmdPduSegments}
    (known : origin sn = some sdu) (new : EntryOf sdu entry) :
    ({ rx with rxWindow := rx.rxWindow.insertOrAssign sn entry } : Rx).HoldsSlices origin := by
  intro sn' entry' found
  rw [OrderedMap.find_insertOrAssign] at found
  split at found
  · rename_i same
    obtain rfl : entry = entry' := by simpa using found
    exact ⟨sdu, same ▸ known, new⟩
  · exact h sn' entry' found

theorem HoldsSlices.dropOutsideWindow :
    rx.dropOutsideWindow.HoldsSlices origin :=
  h.filter (fun sn => rx.snInReassemblyWindow sn)

theorem HoldsSlices.discardBeforeReassembly :
    rx.discardBeforeReassembly.HoldsSlices origin :=
  h.filter (fun sn => !decide (rx.modBase sn < rx.modBase rx.rxNextReassembly))

end

@[simp] theorem advanceNextReassembly_rxWindow (rx : Rx) (sn : Nat) :
    (rx.advanceNextReassembly sn).rxWindow = rx.rxWindow := by
  unfold advanceNextReassembly
  repeat' split
  all_goals rfl

@[simp] theorem advanceNextReassembly_snSize (rx : Rx) (sn : Nat) :
    (rx.advanceNextReassembly sn).snSize = rx.snSize := by
  unfold advanceNextReassembly
  repeat' split
  all_goals rfl

@[simp] theorem moveNextReassembly_rxWindow (rx : Rx) :
    rx.moveNextReassembly.rxWindow = rx.rxWindow := by
  unfold moveNextReassembly
  repeat' split
  all_goals rfl

@[simp] theorem moveNextReassembly_snSize (rx : Rx) : rx.moveNextReassembly.snSize = rx.snSize := by
  unfold moveNextReassembly
  repeat' split
  all_goals rfl

@[simp] theorem moveWindow_snSize (rx : Rx) (sn : Nat) : (rx.moveWindow sn).snSize = rx.snSize := by
  unfold moveWindow
  split
  · rfl
  · rw [moveNextReassembly_snSize]
    rfl

@[simp] theorem stopReassemblyTimer_rxWindow (rx : Rx) :
    rx.stopReassemblyTimer.rxWindow = rx.rxWindow := by
  unfold stopReassemblyTimer
  split <;> rfl

@[simp] theorem stopReassemblyTimer_snSize (rx : Rx) :
    rx.stopReassemblyTimer.snSize = rx.snSize := by
  unfold stopReassemblyTimer
  split <;> rfl

@[simp] theorem startReassemblyTimer_rxWindow (rx : Rx) :
    rx.startReassemblyTimer.rxWindow = rx.rxWindow := by
  unfold startReassemblyTimer
  split <;> rfl

@[simp] theorem startReassemblyTimer_snSize (rx : Rx) :
    rx.startReassemblyTimer.snSize = rx.snSize := by
  unfold startReassemblyTimer
  split <;> rfl

@[simp] theorem catchUpReassembly_rxWindow (rx : Rx) (fuel : Nat) :
    (rx.catchUpReassembly fuel).rxWindow = rx.rxWindow := by
  induction fuel generalizing rx with
  | zero => rfl
  | succ fuel ih =>
    unfold catchUpReassembly
    split
    · exact ih _
    · rfl

@[simp] theorem catchUpReassembly_snSize (rx : Rx) (fuel : Nat) :
    (rx.catchUpReassembly fuel).snSize = rx.snSize := by
  induction fuel generalizing rx with
  | zero => rfl
  | succ fuel ih =>
    unfold catchUpReassembly
    split
    · exact ih _
    · rfl

section
variable (h : rx.HoldsSlices origin)
include h

theorem HoldsSlices.moveWindow (sn : Nat) :
    (rx.moveWindow sn).HoldsSlices origin := by
  unfold Rx.moveWindow
  split
  · exact h
  · refine HoldsSlices.ofWindow (HoldsSlices.dropOutsideWindow ?_) (moveNextReassembly_rxWindow _)
    exact h.ofWindow rfl

theorem HoldsSlices.timerExpired (expired : rx.timerExpired = some rx') :
    rx'.HoldsSlices origin := by
  unfold Rx.timerExpired at expired
  split at expired
  · dsimp only at expired
    obtain rfl := Option.some.inj expired
    refine HoldsSlices.ofWindow (HoldsSlices.discardBeforeReassembly ?_)
      (startReassemblyTimer_rxWindow _)
    exact h.ofWindow (catchUpReassembly_rxWindow _ _)
  · contradiction

theorem HoldsSlices.handleRxBufferUpdate (update : rx.handleRxBufferUpdate sn = some (rx', sdus)) :
    rx'.HoldsSlices origin ∧ ∀ sdu ∈ sdus, origin sn = some sdu := by
  unfold Rx.handleRxBufferUpdate at update
  split at update
  · obtain ⟨rfl, rfl⟩ : rx = rx' ∧ [] = sdus := by simpa using update
    exact ⟨h, by simp⟩
  · rename_i pdu found
    obtain ⟨sdu, known, entry⟩ := h sn pdu found
    split at update
    · contradiction
    · rename_i out done
      obtain ⟨-, complete⟩ := assemble_entryOf entry.withoutSegments entry.segments done
      obtain ⟨rfl, rfl⟩ := update
      refine ⟨(h.erase sn).ofWindow (by simp), ?_⟩
      simp [complete rfl, known]
    · rename_i out done
      obtain ⟨pending, -⟩ := assemble_entryOf entry.withoutSegments entry.segments done
      obtain ⟨rfl, rfl⟩ := update
      exact ⟨((h.insertOrAssign known pending).moveWindow sn).ofWindow (by simp), by simp⟩

theorem HoldsSlices.place {rxPdu : UmdPdu}
    (known : origin rxPdu.header.sn = some sdu) (slice : Slice sdu rxPdu.header rxPdu.buf.msg) :
    (rx.place rxPdu).HoldsSlices origin := by
  have old : EntryOf sdu ((rx.rxWindow.find rxPdu.header.sn).getD {}) := by
    cases found : rx.rxWindow.find rxPdu.header.sn with
    | none => exact .empty sdu
    | some entry =>
      obtain ⟨sdu', known', parts⟩ := h _ entry found
      obtain rfl : sdu' = sdu := by simpa [known'] using known
      exact parts
  exact h.insertOrAssign known (old.add slice)

end

theorem stripPduHeader_write (header : PduHeader) (data : List Byte) :
    stripPduHeader header (writeDataPduHeader header ++ data) =
      ⟨bufferHeaderOffset + packedLength header, data⟩ := by
  simp [stripPduHeader, ← writeDataPduHeader_length]

theorem handleDataPdu_fullSdu (rx : Rx) (sn so : Nat) (sdu : Sdu) :
    rx.handleDataPdu (writeDataPduHeader ⟨.fullSdu, rx.snSize, sn, so⟩ ++ sdu) = some (rx, [sdu]) := by
  unfold handleDataPdu
  rw [append_nil, readDataPduHeader_full]
  simp [stripPduHeader, packedLength, writeDataPduHeader]

theorem HoldsSlices.handleSegment (h : rx.HoldsSlices origin) {header : PduHeader} {data : List Byte}
    (wf : header.WellFormed) (size : header.snSize = rx.snSize)
    (known : origin header.sn = some sdu) (slice : Slice sdu header data)
    (received : rx.handleDataPdu (writeDataPduHeader header ++ data) = some (rx', sdus)) :
    rx'.HoldsSlices origin ∧ ∀ out ∈ sdus, out = sdu := by
  unfold handleDataPdu at received
  simp only [append_nil, ← size, readDataPduHeader_write wf, if_neg wf.segmented, stripPduHeader_write] at received
  split at received
  · obtain ⟨rfl, rfl⟩ : rx = rx' ∧ [] = sdus := by simpa using received
    exact ⟨h, by simp⟩
  · have placed : (rx.place ⟨header, ⟨bufferHeaderOffset + packedLength header, data⟩⟩).HoldsSlices
        origin := h.place known slice
    obtain ⟨held, out⟩ := placed.handleRxBufferUpdate received
    refine ⟨held, fun sdu' mem => ?_⟩
    simpa [known, eq_comm] using out sdu' mem

theorem handleRxBufferUpdate_snSize
    (update : rx.handleRxBufferUpdate sn = some (rx', sdus)) : rx'.snSize = rx.snSize := by
  unfold Rx.handleRxBufferUpdate at update
  split at update
  · obtain ⟨rfl, -⟩ : rx = rx' ∧ [] = sdus := by simpa using update
    rfl
  · split at update
    · contradiction
    all_goals
      obtain ⟨rfl, -⟩ := update
      simp

theorem handleDataPdu_snSize {payload behind : List Byte}
    (received : rx.handleDataPdu payload behind = some (rx', sdus)) : rx'.snSize = rx.snSize := by
  unfold handleDataPdu at received
  dsimp only at received
  split at received
  · obtain ⟨rfl, -⟩ := Prod.mk.inj (Option.some.inj received)
    rfl
  · split at received
    · obtain ⟨rfl, -⟩ := Prod.mk.inj (Option.some.inj received)
      rfl
    · exact (handleRxBufferUpdate_snSize received).trans rfl

theorem timerExpired_snSize (expired : rx.timerExpired = some rx') : rx'.snSize = rx.snSize := by
  unfold Rx.timerExpired at expired
  split at expired
  · obtain rfl := Option.some.inj expired
    simp [discardBeforeReassembly]
  · contradiction

end Rx

/-- A PDU as the transmitter builds it: a written SDU, or a part of the SDU that `numbered` has
under the PDU's `absSn`. -/
inductive SentOf (snSize : SnSize) (written numbered : List Sdu) : SentPdu → Prop where
  | fullSdu {sdu : Sdu} {sn so absSn : Nat} (mem : sdu ∈ written) :
      SentOf snSize written numbered ⟨writeDataPduHeader ⟨.fullSdu, snSize, sn, so⟩ ++ sdu, absSn⟩
  | segment {header : PduHeader} {data : List Byte} {sdu : Sdu} {absSn : Nat}
      (wf : header.WellFormed) (size : header.snSize = snSize) (source : numbered[absSn]? = some sdu)
      (slice : Slice sdu header data) :
      SentOf snSize written numbered ⟨writeDataPduHeader header ++ data, absSn⟩

theorem getElem?_append_of_eq_some {numbered : List Sdu} {i : Nat} {sdu : Sdu}
    (h : numbered[i]? = some sdu) (more : List Sdu) : (numbered ++ more)[i]? = some sdu := by
  obtain ⟨bound, _⟩ := List.getElem?_eq_some_iff.mp h
  rwa [List.getElem?_append_left bound]

theorem SentOf.mono {snSize : SnSize} {written numbered : List Sdu} {pdu : SentPdu}
    (h : SentOf snSize written numbered pdu) (written' numbered' : List Sdu) :
    SentOf snSize (written ++ written') (numbered ++ numbered') pdu := by
  cases h with
  | fullSdu mem => exact .fullSdu (mem_append_left _ mem)
  | segment wf size source slice =>
    exact .segment wf size (getElem?_append_of_eq_some source _) slice

namespace System

structure Inv (s : System) (numbered : List Sdu) : Prop where
  queued : ∀ sdu ∈ s.tx.txSduQueue, sdu ∈ s.written ∧ sdu.length ≤ maxBufferSizeBytes ∧ 0 < sdu.length
  known : ∀ sdu ∈ numbered, sdu ∈ s.written ∧ sdu.length ≤ maxBufferSizeBytes
  counted : numbered.length = s.absSn + (if s.tx.txSdu.isSome then 1 else 0)
  pending : ∀ rest ∈ s.tx.txSdu, ∃ sdu, numbered[s.absSn]? = some sdu ∧
    rest = sdu.drop s.tx.nextSo ∧ 0 < s.tx.nextSo ∧ s.tx.nextSo < sdu.length
  txNext : s.tx.txNext < s.tx.snSize.mod
  snSize : s.rx.snSize = s.tx.snSize
  sent : ∀ pdu ∈ s.sent, SentOf s.tx.snSize s.written numbered pdu
  held : s.rx.HoldsSlices (fun sn => numbered[s.held sn]?)
  delivered : ∀ sdu ∈ s.delivered, sdu ∈ s.written

variable {s s' : System} {numbered : List Sdu}

variable {sdu rest : Sdu} {len : Nat}

theorem inv_init (snSize : SnSize) (txQueueLength : Nat) : (init snSize txQueueLength).Inv [] where
  queued := by simp [init]
  known := by simp
  counted := rfl
  pending := by simp [init]
  txNext := by cases snSize <;> simp [init, SnSize.mod]
  snSize := rfl
  sent := by simp [init]
  held := by simp [init, Rx.HoldsSlices]
  delivered := by simp [init]

section
variable (h : s.Inv numbered)
include h

theorem Inv.writeSdu (fits : SduFits (.writeSdu sdu)) :
    Inv { s with tx := s.tx.writeSdu sdu, written := s.written ++ [sdu] } numbered := by
  have tx : ∃ queue, s.tx.writeSdu sdu = { s.tx with txSduQueue := queue } ∧
      ∀ sdu' ∈ queue, sdu' ∈ s.tx.txSduQueue ∨ sdu' = sdu := by
    unfold Tx.writeSdu
    split
    · exact ⟨_, rfl, by simp⟩
    · exact ⟨_, rfl, fun _ mem => .inl mem⟩
  obtain ⟨queue, tx, mem⟩ := tx
  rw [tx]
  exact {
    queued := by
      intro sdu' inQueue
      rcases mem sdu' inQueue with old | rfl
      · obtain ⟨_, bounds⟩ := h.queued sdu' old
        exact ⟨by simp [*], bounds⟩
      · exact ⟨by simp, fits.2, fits.1⟩
    known := fun sdu' mem => ⟨by simp [h.known sdu' mem], (h.known sdu' mem).2⟩
    counted := h.counted
    pending := h.pending
    txNext := h.txNext
    snSize := h.snSize
    sent := fun pdu mem => by simpa using (h.sent pdu mem).mono [sdu] []
    held := h.held
    delivered := fun sdu' mem => by simp [h.delivered sdu' mem] }

theorem Inv.fullSdu {queue : List Sdu} {nextSo : Nat}
    (free : s.tx.txSdu = none) (queued : s.tx.txSduQueue = sdu :: queue) :
    Inv { s with
      tx := { s.tx with txSdu := none, txSduQueue := queue, nextSo := nextSo }
      sent := s.sent ++
        [⟨writeDataPduHeader ⟨.fullSdu, s.tx.snSize, s.tx.txNext, 0⟩ ++ sdu, s.absSn⟩] } numbered := by
  have known := h.queued sdu (by simp [queued])
  exact {
    queued := fun sdu' mem => h.queued sdu' (by simp [queued, mem])
    known := h.known
    counted := by simpa [free] using h.counted
    pending := by simp
    txNext := h.txNext
    snSize := h.snSize
    sent := by
      intro pdu mem
      rcases List.mem_append.mp mem with old | new
      · exact h.sent pdu old
      · obtain rfl := List.mem_singleton.mp new
        exact .fullSdu known.1
    held := h.held
    delivered := h.delivered }

theorem Inv.firstSegment {queue : List Sdu}
    (free : s.tx.txSdu = none) (queued : s.tx.txSduQueue = sdu :: queue) (positive : 0 < len)
    (proper : len < sdu.length) :
    Inv { s with
      tx := { s.tx with txSdu := some (sdu.drop len), txSduQueue := queue, nextSo := len }
      sent := s.sent ++ [⟨writeDataPduHeader ⟨.firstSegment, s.tx.snSize, s.tx.txNext, 0⟩ ++
        sdu.take len, s.absSn⟩] } (numbered ++ [sdu]) := by
  have known := h.queued sdu (by simp [queued])
  have counted : numbered.length = s.absSn := by simpa [free] using h.counted
  have source : (numbered ++ [sdu])[s.absSn]? = some sdu := by simp [← counted]
  have size : (sdu.take len).length = len := by simp [Nat.le_of_lt proper]
  exact {
    queued := fun sdu' mem => h.queued sdu' (by simp [queued, mem])
    known := by
      intro sdu' mem
      rcases List.mem_append.mp mem with old | new
      · exact h.known sdu' old
      · obtain rfl := List.mem_singleton.mp new
        exact ⟨known.1, known.2.1⟩
    counted := by simp [counted]
    pending := by
      intro rest eq
      obtain rfl : sdu.drop len = rest := by simpa using eq
      exact ⟨sdu, source, rfl, positive, proper⟩
    txNext := h.txNext
    snSize := h.snSize
    sent := by
      intro pdu mem
      rcases List.mem_append.mp mem with old | new
      · simpa using (h.sent pdu old).mono [] [sdu]
      · obtain rfl := List.mem_singleton.mp new
        refine .segment ⟨h.txNext, by simp, by simp, by simp⟩ rfl source ⟨?_, ?_, ?_, by simp, known.2.1⟩
        · simp [segment]
        · omega
        · simp only [size]
          omega
    held := h.held.mono fun sn sdu' _ eq => getElem?_append_of_eq_some eq [sdu]
    delivered := h.delivered }

theorem Inv.laterSegment {si : SiField}
    (later : si = .lastSegment ∨ si = .neitherFirstNorLastSegment)
    (pending : s.tx.txSdu = some rest) (positive : 0 < len) (bound : len ≤ rest.length)
    (last : si = .lastSegment → len = rest.length) :
    SentOf s.tx.snSize s.written numbered
      ⟨writeDataPduHeader ⟨si, s.tx.snSize, s.tx.txNext, s.tx.nextSo⟩ ++ rest.take len, s.absSn⟩ := by
  obtain ⟨sdu, source, rfl, started, unfinished⟩ := h.pending rest pending
  have short := (h.known sdu (mem_of_getElem? source)).2
  have size : ((sdu.drop s.tx.nextSo).take len).length = len := length_take_of_le bound
  rw [length_drop] at bound last
  refine .segment ⟨h.txNext, ?_, ?_, ?_⟩ rfl source ⟨?_, ?_, ?_, ?_, short⟩
  · simp only [maxBufferSizeBytes, bufferHeaderOffset] at short
    dsimp only
    omega
  · rcases later with rfl | rfl <;> simp
  · rcases later with rfl | rfl <;> simp [Nat.ne_of_gt started]
  · rw [size]
    rfl
  · omega
  · simp only [size]
    omega
  · simp only [size]
    intro si_last
    have := last si_last
    omega

theorem Inv.middleSegment (pending : s.tx.txSdu = some rest) (positive : 0 < len) (proper : len < rest.length) :
    Inv { s with
      tx := { s.tx with txSdu := some (rest.drop len), nextSo := s.tx.nextSo + len }
      sent := s.sent ++ [⟨writeDataPduHeader
        ⟨.neitherFirstNorLastSegment, s.tx.snSize, s.tx.txNext, s.tx.nextSo⟩ ++ rest.take len,
        s.absSn⟩] } numbered := by
  have sent := h.laterSegment (.inr rfl) pending positive (Nat.le_of_lt proper) (by simp)
  obtain ⟨sdu, source, rfl, started, unfinished⟩ := h.pending rest pending
  rw [length_drop] at proper
  exact {
    queued := h.queued
    known := h.known
    counted := by simpa [pending] using h.counted
    pending := by
      intro rest eq
      refine ⟨sdu, source, ?_, ?_, ?_⟩
      · simpa [eq_comm] using eq
      · dsimp only
        omega
      · dsimp only
        omega
    txNext := h.txNext
    snSize := h.snSize
    sent := by
      intro pdu mem
      rcases List.mem_append.mp mem with old | new
      · exact h.sent pdu old
      · obtain rfl := List.mem_singleton.mp new
        exact sent
    held := h.held
    delivered := h.delivered }

theorem Inv.lastSegment (pending : s.tx.txSdu = some rest) :
    Inv { s with
      tx := { s.tx with txSdu := none, nextSo := 0, txNext := (s.tx.txNext + 1) % s.tx.snSize.mod }
      absSn := s.absSn + 1
      sent := s.sent ++ [⟨writeDataPduHeader
        ⟨.lastSegment, s.tx.snSize, s.tx.txNext, s.tx.nextSo⟩ ++ rest, s.absSn⟩] } numbered := by
  have sent : SentOf s.tx.snSize s.written numbered ⟨writeDataPduHeader
      ⟨.lastSegment, s.tx.snSize, s.tx.txNext, s.tx.nextSo⟩ ++ rest, s.absSn⟩ := by
    obtain ⟨sdu, source, rfl, started, unfinished⟩ := h.pending rest pending
    have whole := h.laterSegment (.inl rfl) pending (by simp; omega) (Nat.le_refl _) (fun _ => rfl)
    rwa [take_length] at whole
  exact {
    queued := h.queued
    known := h.known
    counted := by simpa [pending] using h.counted
    pending := by simp
    txNext := Nat.mod_lt _ (by cases s.tx.snSize <;> decide)
    snSize := h.snSize
    sent := by
      intro pdu mem
      rcases List.mem_append.mp mem with old | new
      · exact h.sent pdu old
      · obtain rfl := List.mem_singleton.mp new
        exact sent
    held := h.held
    delivered := h.delivered }

end

theorem writeDataPduHeader_append_ne_nil (header : PduHeader) (data : List Byte) :
    writeDataPduHeader header ++ data ≠ [] := by
  unfold writeDataPduHeader
  split
  · simp
  · cases header.snSize <;> simp

theorem succ_mod_ne {snSize : SnSize} {sn : Nat} (h : sn < snSize.mod) :
    (sn + 1) % snSize.mod ≠ sn := by
  cases snSize <;> simp only [SnSize.mod] at h ⊢ <;> omega

theorem Inv.readPdu (h : s.Inv numbered) {nofBytes : Nat} (fits : s.tx.GrantFits nofBytes) :
    ∃ numbered', (s.readPdu nofBytes).Inv numbered' := by
  have started : s.tx.txSdu ≠ none → 0 < s.tx.nextSo := by
    intro pending
    obtain ⟨rest, eq⟩ := Option.ne_none_iff_exists'.mp pending
    obtain ⟨_, _, _, positive, _⟩ := h.pending rest eq
    exact positive
  have built := Tx.built started fits
  unfold System.readPdu
  generalize s.tx.buildDataPdu nofBytes = out at built
  obtain ⟨tx, pdu⟩ := out
  dsimp only at built ⊢
  cases built with
  | nothing => exact ⟨numbered, by simpa using h⟩
  | fullSdu free queued =>
    rw [if_pos rfl]
    exact ⟨_, h.fullSdu free queued⟩
  | firstSegment free queued positive proper =>
    rw [if_pos rfl, if_neg (writeDataPduHeader_append_ne_nil _ _)]
    exact ⟨_, h.firstSegment free queued positive proper⟩
  | middleSegment pending positive proper =>
    rw [if_pos rfl, if_neg (writeDataPduHeader_append_ne_nil _ _)]
    exact ⟨_, h.middleSegment pending positive proper⟩
  | lastSegment pending =>
    rw [if_neg (succ_mod_ne h.txNext), if_neg (writeDataPduHeader_append_ne_nil _ _)]
    exact ⟨_, h.lastSegment pending⟩

theorem Inv.receive (h : s.Inv numbered) {pdu : SentPdu} (mem : pdu ∈ s.sent)
    (fresh : (s.header pdu).si ≠ .fullSdu → s.rx.rxWindow.contains (s.header pdu).sn = true →
      s.held (s.header pdu).sn = pdu.absSn)
    (received : s.receive pdu = some s') : s'.Inv numbered := by
  obtain ⟨⟨rx, sdus⟩, handled, rfl⟩ := Option.map_eq_some_iff.mp received
  have snSize := (Rx.handleDataPdu_snSize handled).trans h.snSize
  suffices parts : rx.HoldsSlices (fun sn => numbered[if (s.header pdu).si = .fullSdu then s.held sn
      else Function.update s.held (s.header pdu).sn pdu.absSn sn]?) ∧ ∀ sdu ∈ sdus, sdu ∈ s.written by
    exact {
      queued := h.queued
      known := h.known
      counted := h.counted
      pending := h.pending
      txNext := h.txNext
      snSize := snSize
      sent := h.sent
      held := by
        split <;> simp_all
      delivered := by
        intro sdu mem
        rcases List.mem_append.mp mem with old | new
        · exact h.delivered sdu old
        · exact parts.2 sdu new }
  rcases h.sent pdu mem with written | ⟨wf, size, source, slice⟩
  · rename_i sdu _ _ _
    simp only [header, ← h.snSize, readDataPduHeader_full]
    rw [← h.snSize, Rx.handleDataPdu_fullSdu] at handled
    obtain ⟨rfl, rfl⟩ := Prod.mk.inj (Option.some.inj handled)
    exact ⟨h.held, by simpa using written⟩
  · rename_i hdr data sdu absSn
    have header_eq : s.header ⟨writeDataPduHeader hdr ++ data, absSn⟩ = hdr := by
      rw [header, h.snSize, ← size, readDataPduHeader_write wf]
    rw [header_eq] at fresh ⊢
    simp only [if_neg wf.segmented]
    -- the entry of this SN, if there is one, already belongs to the same SDU
    have held : s.rx.HoldsSlices (fun sn => numbered[Function.update s.held hdr.sn absSn sn]?) := by
      refine h.held.mono fun sn sdu' present eq => ?_
      by_cases same : sn = hdr.sn
      · subst same
        have := fresh wf.segmented present
        simp_all
      · simpa [Function.update_of_ne same] using eq
    obtain ⟨after, out⟩ := held.handleSegment wf (size.trans h.snSize.symm) (by simpa using source)
      slice handled
    refine ⟨after, fun sdu' mem => ?_⟩
    obtain rfl := out sdu' mem
    exact (h.known _ (mem_of_getElem? source)).1

theorem Inv.timerExpired (h : s.Inv numbered) {rx : Rx} (expired : s.rx.timerExpired = some rx) :
    Inv { s with rx } numbered :=
  { h with
    snSize := (Rx.timerExpired_snSize expired).trans h.snSize
    held := h.held.timerExpired expired }

theorem inv_step {e : Event} (inv : ∃ numbered, s.Inv numbered)
    (allowed : s.Conforming e ∧ s.KeepsSdus e) (next : s.step e = some s') :
    ∃ numbered, s'.Inv numbered := by
  obtain ⟨numbered, h⟩ := inv
  obtain ⟨⟨fits, -⟩, grant, fresh⟩ := allowed
  cases e with
  | writeSdu sdu =>
    obtain rfl := Option.some.inj next
    exact ⟨numbered, h.writeSdu fits⟩
  | readPdu nofBytes =>
    obtain rfl := Option.some.inj next
    exact h.readPdu grant
  | receive i =>
    obtain ⟨pdu, sent, received⟩ := Option.bind_eq_some_iff.mp next
    exact ⟨numbered, h.receive (mem_of_getElem? sent) (fresh pdu sent) received⟩
  | timerExpired =>
    obtain ⟨rx, expired, rfl⟩ := Option.map_eq_some_iff.mp next
    exact ⟨numbered, h.timerExpired expired⟩

theorem delivered_mem_written {snSize : SnSize} {txQueueLength : Nat} {s : System}
    (run : Reaches step (fun s e => s.Conforming e ∧ s.KeepsSdus e) (init snSize txQueueLength) s) :
    ∀ sdu ∈ s.delivered, sdu ∈ s.written := by
  have inv : ∃ numbered, s.Inv numbered :=
    run.invariant (P := fun s : System => ∃ numbered, s.Inv numbered) ⟨[], inv_init snSize txQueueLength⟩
      fun _ _ _ inv allowed next => inv_step inv allowed next
  obtain ⟨_, inv⟩ := inv
  exact inv.delivered

def oneSduRun : List Event :=
  [.writeSdu [10, 11, 12, 13, 14, 15, 16, 17, 18, 19], .readPdu 6, .readPdu 12, .receive 1,
    .receive 0]

theorem delivered_mem_written_oneSduRun :
    ∃ s, runAllowed step (fun s e => s.Conforming e ∧ s.KeepsSdus e) (init .size12bits 4)
        oneSduRun = some s ∧
      s.delivered = [[10, 11, 12, 13, 14, 15, 16, 17, 18, 19]] ∧
      ∀ sdu ∈ s.delivered, sdu ∈ s.written := by
  have run : ∃ s, runAllowed step (fun s e => s.Conforming e ∧ s.KeepsSdus e) (init .size12bits 4)
      oneSduRun = some s ∧ s.delivered = [[10, 11, 12, 13, 14, 15, 16, 17, 18, 19]] :=
    ⟨_, rfl, by decide⟩
  obtain ⟨s, run, delivered⟩ := run
  exact ⟨s, run, delivered,
    delivered_mem_written (by simpa using reaches_of_runAllowed oneSduRun run)⟩

def shortTailRun : List Event :=
  [.writeSdu [10, 11, 12, 13, 14, 15, 16, 17, 18, 19], .readPdu 6, .readPdu 9, .receive 0,
    .receive 1]

theorem shortTailRun_delivers_truncated :
    ¬ ∀ snSize txQueueLength s, Reaches step Conforming (init snSize txQueueLength) s →
      ∀ sdu ∈ s.delivered, sdu ∈ s.written := by
  intro safe
  have run : ∃ s, runAllowed step (fun s e => s.Conforming e) (init .size12bits 4) shortTailRun = some s ∧
      s.delivered = [[10, 11, 12, 13, 14, 15, 16, 17, 18]] ∧
      s.written = [[10, 11, 12, 13, 14, 15, 16, 17, 18, 19]] :=
    ⟨_, rfl, by decide, by decide⟩
  obtain ⟨s, run, delivered, written⟩ := run
  have := safe .size12bits 4 s (by simpa using reaches_of_runAllowed shortTailRun run)
  simp [delivered, written] at this

end System

end IsrRan.Rlc.UmNr
