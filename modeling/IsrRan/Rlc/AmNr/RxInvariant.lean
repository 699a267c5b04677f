import IsrRan.Lib.ModWindow
import IsrRan.Rlc.AmNr.Rx

namespace IsrRan.Rlc.AmNr
open Lib Adt

section
variable (snSize : SnSize)
include snSize

theorem SnSize.modNr_pos : 0 < snSize.modNr := by
  cases snSize <;> decide

theorem SnSize.modNr_eq : snSize.modNr = 2 * snSize.windowSize := by
  cases snSize <;> rfl

theorem SnSize.windowSize_gt : 2 ≤ snSize.windowSize := by
  cases snSize <;> decide

end

namespace Rx

variable {snSize : SnSize} {kept : Prop} {rx rx' : Rx snSize}

def offset (rx : Rx snSize) (sn : Nat) : Nat := modOffset snSize.modNr rx.rxNext sn

variable {sn : Nat} {sdu : RxSdu}

theorem rxModBaseNr_eq (hb : rx.rxNext < snSize.modNr) (h : sn ≤ snSize.modNr) :
    rx.rxModBaseNr sn = rx.offset sn := by
  unfold rxModBaseNr offset modOffset u32Sub
  cases snSize <;> simp only [SnSize.modNr] at * <;> omega

structure SegmentsOk (segments : List RxPdu) : Prop where
  separated : Separated segments
  offsets : ∀ segm ∈ segments, segm.header.so < 65536
  lengths : ∀ segm ∈ segments, segm.buf.length ≤ bufferTailroom

structure SduOk (sdu : RxSdu) : Prop extends SegmentsOk sdu.segments where
  inventory : sdu.fullyReceived = false → (segmentInventory 0 sdu.segments).2 = false

structure WindowInv (kept : Prop) (rx : Rx snSize) : Prop where
  rxNext : rx.rxNext < snSize.modNr
  nextHighest : rx.rxNextHighest < snSize.modNr
  window : rx.offset rx.rxNextHighest ≤ snSize.windowSize
  keys : ∀ sn sdu, rx.rxWindow.find sn = some sdu →
    sn < snSize.modNr ∧ rx.offset sn < rx.offset rx.rxNextHighest
  highestPresent : kept → 0 < rx.offset rx.rxNextHighest →
    rx.rxWindow.contains ((rx.rxNextHighest + snSize.modNr - 1) % snSize.modNr) = true
  segments : kept → ∀ sn sdu, rx.rxWindow.find sn = some sdu → SduOk sdu

structure StatusInv (rx : Rx snSize) : Prop where
  highestStatus : rx.rxHighestStatus < snSize.modNr
  bound : rx.offset rx.rxHighestStatus ≤ rx.offset rx.rxNextHighest
  highestMissing : rx.fullyReceived rx.rxHighestStatus = false
  nextMissing : rx.fullyReceived rx.rxNext = false

structure TimerInv (kept : Prop) (rx : Rx snSize) : Prop where
  trigger : rx.rxNextStatusTrigger < snSize.modNr
  above : rx.reassemblyTimerRunning = true →
    0 < rx.offset rx.rxNextStatusTrigger ∧
      rx.offset rx.rxNextStatusTrigger ≤ rx.offset rx.rxNextHighest
  present : kept → rx.reassemblyTimerRunning = true →
    rx.rxWindow.contains ((rx.rxNextStatusTrigger + snSize.modNr - 1) % snSize.modNr) = true

theorem fullyReceived_mem (received : rx.fullyReceived sn = true) :
    ∃ sdu, rx.rxWindow.find sn = some sdu ∧ sdu.fullyReceived = true := by
  unfold fullyReceived at received
  split at received
  · exact ⟨_, ‹_›, received⟩
  · contradiction

theorem fullyReceived_of_find (found : rx.rxWindow.find sn = some sdu) :
    rx.fullyReceived sn = sdu.fullyReceived := by
  simp only [fullyReceived, found]

theorem fullyReceived_congr (same : rx'.rxWindow.find sn = rx.rxWindow.find sn) :
    rx'.fullyReceived sn = rx.fullyReceived sn := by
  simp only [fullyReceived, same]

theorem WindowInv.not_received_of_bound (h : rx.WindowInv kept)
    (bound : rx.offset rx.rxNextHighest ≤ rx.offset sn) : rx.fullyReceived sn = false := by
  cases received : rx.fullyReceived sn with
  | false => rfl
  | true =>
    obtain ⟨sdu, found, _⟩ := fullyReceived_mem received
    have := (h.keys sn sdu found).2
    omega

structure Passed (rx : Rx snSize) (start stop : Nat) : Prop where
  stop_lt : stop < snSize.modNr
  lower : rx.offset start ≤ rx.offset stop
  upper : rx.offset stop ≤ rx.offset rx.rxNextHighest
  received : ∀ sn < snSize.modNr, rx.offset start ≤ rx.offset sn → rx.offset sn < rx.offset stop →
    rx.fullyReceived sn = true
  missing : rx.offset stop = rx.offset rx.rxNextHighest ∨ rx.fullyReceived stop = false

theorem WindowInv.offset_succ (h : rx.WindowInv kept) (hs : sn < snSize.modNr)
    (below : rx.offset sn < rx.offset rx.rxNextHighest) :
    rx.offset ((sn + 1) % snSize.modNr) = rx.offset sn + 1 := by
  have := h.window
  have := snSize.modNr_eq
  exact modOffset_succ h.rxNext hs (by unfold offset at *; omega)

theorem WindowInv.firstMissing (h : rx.WindowInv kept) {fuel start : Nat} (hs : start < snSize.modNr)
    (below : rx.offset start ≤ rx.offset rx.rxNextHighest)
    (enough : rx.offset rx.rxNextHighest ≤ rx.offset start + fuel) :
    rx.Passed start (rx.firstMissing fuel start) := by
  induction fuel generalizing start with
  | zero =>
    simp only [Rx.firstMissing]
    exact ⟨hs, Nat.le_refl _, below, fun _ _ _ _ => by omega, .inl (by omega)⟩
  | succ fuel ih =>
    unfold Rx.firstMissing
    rw [rxModBaseNr_eq h.rxNext (Nat.le_of_lt hs), rxModBaseNr_eq h.rxNext (Nat.le_of_lt h.nextHighest)]
    split
    · rename_i more
      simp only [Bool.and_eq_true, decide_eq_true_eq] at more
      have next := h.offset_succ hs more.1
      have rest := ih (Nat.mod_lt (start + 1) snSize.modNr_pos) (by omega) (by omega)
      refine ⟨rest.stop_lt, by have := rest.lower; omega, rest.upper, ?_, rest.missing⟩
      intro sn hsn lower upper
      by_cases first : rx.offset sn = rx.offset start
      · rw [modOffset_injective h.rxNext hsn hs first]
        exact more.2
      · exact rest.received sn hsn (by omega) upper
    · rename_i stop
      simp only [Bool.and_eq_true, decide_eq_true_eq, not_and, Bool.not_eq_true] at stop
      refine ⟨hs, Nat.le_refl _, below, fun _ _ _ _ => by omega, ?_⟩
      by_cases more : rx.offset start < rx.offset rx.rxNextHighest
      · exact .inr (stop more)
      · exact .inl (by omega)

structure Removed (rx : Rx snSize) (start stop : Nat)
    (before after : CircularMap snSize.windowSize RxSdu) : Prop where
  passed : ∀ sn < snSize.modNr, rx.offset start ≤ rx.offset sn → rx.offset sn < rx.offset stop →
    after.find sn = none
  others : ∀ sn < snSize.modNr, rx.offset sn < rx.offset start ∨ rx.offset stop ≤ rx.offset sn →
    after.find sn = before.find sn
  absent : ∀ sn, before.find sn = none → after.find sn = none

theorem WindowInv.advanceRxNext (h : rx.WindowInv kept) {fuel start : Nat} (hs : start < snSize.modNr)
    (below : rx.offset start ≤ rx.offset rx.rxNextHighest)
    (enough : rx.offset rx.rxNextHighest ≤ rx.offset start + fuel)
    {window : CircularMap snSize.windowSize RxSdu}
    (same : ∀ sn < snSize.modNr, rx.offset start ≤ rx.offset sn → window.find sn = rx.rxWindow.find sn) :
    (rx.advanceRxNext fuel start window).2 = rx.firstMissing fuel start ∧
      rx.Removed start (rx.firstMissing fuel start) window (rx.advanceRxNext fuel start window).1 := by
  induction fuel generalizing start window with
  | zero =>
    unfold Rx.advanceRxNext Rx.firstMissing
    exact ⟨rfl, fun _ _ _ _ => by omega, fun _ _ _ => rfl, fun _ absent => absent⟩
  | succ fuel ih =>
    have head : ((window.find start).map RxSdu.fullyReceived).getD false = rx.fullyReceived start := by
      rw [same start hs (Nat.le_refl _), fullyReceived]
      cases rx.rxWindow.find start <;> rfl
    unfold Rx.advanceRxNext Rx.firstMissing
    rw [head, rxModBaseNr_eq h.rxNext (Nat.le_of_lt hs),
      rxModBaseNr_eq h.rxNext (Nat.le_of_lt h.nextHighest)]
    split
    · rename_i more
      simp only [Bool.and_eq_true, decide_eq_true_eq] at more
      have next := h.offset_succ hs more.1
      have hn : (start + 1) % snSize.modNr < snSize.modNr := Nat.mod_lt _ snSize.modNr_pos
      have stop := h.firstMissing hn (by omega) (by omega : _ ≤ _ + fuel)
      have erased : ∀ sn < snSize.modNr, rx.offset ((start + 1) % snSize.modNr) ≤ rx.offset sn →
          (window.erase start).find sn = rx.rxWindow.find sn := by
        intro sn hsn above
        rw [CircularMap.find_erase, if_neg (by rintro rfl; omega)]
        exact same sn hsn (by omega)
      obtain ⟨eq, removed⟩ := ih hn (by omega) (by omega) erased
      refine ⟨eq, ⟨fun sn hsn lower upper => ?_, fun sn hsn outside => ?_, fun sn absent => ?_⟩⟩
      · by_cases first : sn = start
        · exact removed.absent sn (by rw [CircularMap.find_erase, if_pos first])
        · have : rx.offset sn ≠ rx.offset start := fun same =>
            first (modOffset_injective h.rxNext hsn hs same)
          exact removed.passed sn hsn (by omega) upper
      · have := stop.lower
        rw [removed.others sn hsn (by omega), CircularMap.find_erase, if_neg (by rintro rfl; omega)]
      · refine removed.absent sn ?_
        rw [CircularMap.find_erase, absent, ite_self]
    · exact ⟨rfl, fun _ _ _ _ => by omega, fun _ _ _ => rfl, fun _ absent => absent⟩

theorem WindowInv.find_overwrite (h : rx.WindowInv kept) (hsn : sn < snSize.modNr)
    (inside : rx.offset sn < snSize.windowSize) (sdu : RxSdu) (sn' : Nat) :
    (rx.rxWindow.overwrite sn sdu).find sn' = if sn' = sn then some sdu else rx.rxWindow.find sn' := by
  refine CircularMap.find_overwrite_of_alone (fun old found slot => ?_) sdu
  obtain ⟨hsn', below⟩ := h.keys sn' old found
  have := h.window
  exact eq_of_slot_eq h.rxNext hsn' (snSize.modNr_eq ▸ Nat.dvd_mul_left _ _) hsn (by unfold offset at *; omega) inside slot

structure Placed (rx rx' : Rx snSize) (sn : Nat) (sdu : RxSdu) : Prop where
  same : rx' = { rx with rxWindow := rx'.rxWindow }
  found : rx'.rxWindow.find sn = some sdu
  others : ∀ sn' ≠ sn, rx'.rxWindow.find sn' = rx.rxWindow.find sn'

def addSegment (sdu : RxSdu) (segment : RxPdu) : RxSdu :=
  let sdu := { sdu with segments := insertReceivedSegment segment sdu.segments }.updateSegmentInventory
  if sdu.fullyReceived then { sdu with buf := sdu.assemble } else sdu

@[simp] theorem addSegment_segments (sdu : RxSdu) (segment : RxPdu) :
    (addSegment sdu segment).segments = insertReceivedSegment segment sdu.segments := by
  unfold addSegment RxSdu.updateSegmentInventory
  dsimp only
  split <;> rfl

theorem addSegment_inventory (sdu : RxSdu) (segment : RxPdu)
    (partly : (addSegment sdu segment).fullyReceived = false) :
    (segmentInventory 0 (addSegment sdu segment).segments).2 = false := by
  rw [addSegment_segments]
  unfold addSegment RxSdu.updateSegmentInventory at partly
  cases inventory : (segmentInventory 0 (insertReceivedSegment segment sdu.segments)).2 with
  | false => rfl
  | true => simp [inventory] at partly

theorem WindowInv.handleFullDataSdu (h : rx.WindowInv kept) {header : PduHeader} {payload : Memory}
    {nofBytes : Nat} {placed : Bool} (hsn : header.sn < snSize.modNr)
    (inside : rx.offset header.sn < snSize.windowSize)
    (done : rx.handleFullDataSdu header payload nofBytes = .ok (rx', placed)) :
    if placed then packedLength snSize header ≤ nofBytes ∧
      rx.Placed rx' header.sn
        { buf := payload.slice (packedLength snSize header) (nofBytes - packedLength snSize header)
          fullyReceived := true }
    else bufferTailroom < nofBytes ∧ rx' = { rx with rxWindow := rx'.rxWindow } ∧
      ∀ sn', rx'.rxWindow.find sn' = if sn' = header.sn then none else rx.rxWindow.find sn' := by
  have overwritten := h.find_overwrite hsn inside {}
  unfold Rx.handleFullDataSdu at done
  dsimp only at done
  split at done
  · rename_i tooLong
    obtain ⟨rfl, rfl⟩ := Prod.mk.inj (Except.ok.inj done)
    refine ⟨tooLong, rfl, fun sn' => ?_⟩
    rw [CircularMap.find_erase, overwritten]
    split <;> rfl
  · split at done
    · contradiction
    · rename_i long
      obtain ⟨rfl, rfl⟩ := Prod.mk.inj (Except.ok.inj done)
      have present : (rx.rxWindow.overwrite header.sn {}).contains header.sn = true := by
        simp [CircularMap.contains, overwritten]
      refine ⟨Nat.not_lt.mp long, rfl, ?_, fun sn' different => ?_⟩
      · simp [CircularMap.find_assign present]
      · simp [CircularMap.find_assign present, overwritten, different]

theorem WindowInv.handleSegmentDataSdu (h : rx.WindowInv kept) {header : PduHeader} {payload : Memory}
    {nofBytes : Nat} {placed : Bool} (hsn : header.sn < snSize.modNr)
    (inside : rx.offset header.sn < snSize.windowSize)
    (done : rx.handleSegmentDataSdu header payload nofBytes = .ok (rx', placed)) :
    placed = true ∧ packedLength snSize header ≤ nofBytes ∧
      nofBytes - packedLength snSize header ≤ bufferTailroom ∧
      rx.Placed rx' header.sn (addSegment ((rx.rxWindow.find header.sn).getD {})
        ⟨header, payload.slice (packedLength snSize header) (nofBytes - packedLength snSize header)⟩) := by
  unfold Rx.handleSegmentDataSdu at done
  dsimp only at done
  split at done
  · contradiction
  · rename_i room
    -- the window with an entry for this SN, new or old
    generalize window_eq : (if rx.rxWindow.contains header.sn = true then rx.rxWindow
      else rx.rxWindow.overwrite header.sn {}) = window at done
    have finds : ∀ sn', window.find sn' =
        if sn' = header.sn then some ((rx.rxWindow.find header.sn).getD {}) else rx.rxWindow.find sn' := by
      intro sn'
      rw [← window_eq]
      split
      · rename_i present
        obtain ⟨sdu, found⟩ := CircularMap.contains_eq_true.mp present
        split
        · rename_i same
          simp [same, found]
        · rfl
      · rename_i absent
        have none : rx.rxWindow.find header.sn = none := by
          simpa [CircularMap.contains] using absent
        rw [h.find_overwrite hsn inside, none]
        rfl
    have present : window.contains header.sn = true := by simp [CircularMap.contains, finds]
    have old : (window.find header.sn).getD {} = (rx.rxWindow.find header.sn).getD {} := by simp [finds]
    rw [old] at done
    have placed_of : ∀ {sdu : RxSdu} {out : Rx snSize × Bool},
        Except.ok (ε := Fault) ({ rx with rxWindow := window.assign header.sn sdu }, true) = .ok out →
        out.2 = true ∧ rx.Placed out.1 header.sn sdu := by
      rintro sdu out eq
      obtain rfl := Except.ok.inj eq
      refine ⟨rfl, rfl, ?_, fun sn' different => ?_⟩
      · simp [CircularMap.find_assign present]
      · simp [CircularMap.find_assign present, finds, different]
    refine ⟨?_, by omega, by omega, ?_⟩
    · split at done
      · split at done
        · contradiction
        · exact (placed_of done).1
      · exact (placed_of done).1
    · unfold addSegment
      split at done
      · rename_i full
        rw [if_pos full]
        split at done
        · contradiction
        · exact (placed_of done).2
      · rename_i partly
        rw [if_neg partly]
        exact (placed_of done).2

@[simp] theorem raiseNextHighest_rxNext (rx : Rx snSize) (sn : Nat) :
    (rx.raiseNextHighest sn).rxNext = rx.rxNext := by
  unfold raiseNextHighest
  split <;> rfl

@[simp] theorem raiseNextHighest_rxWindow (rx : Rx snSize) (sn : Nat) :
    (rx.raiseNextHighest sn).rxWindow = rx.rxWindow := by
  unfold raiseNextHighest
  split <;> rfl

@[simp] theorem raiseNextHighest_rxHighestStatus (rx : Rx snSize) (sn : Nat) :
    (rx.raiseNextHighest sn).rxHighestStatus = rx.rxHighestStatus := by
  unfold raiseNextHighest
  split <;> rfl

@[simp] theorem raiseNextHighest_offset (rx : Rx snSize) (sn sn' : Nat) :
    (rx.raiseNextHighest sn).offset sn' = rx.offset sn' := by
  simp [offset]

theorem offset_raiseNextHighest (hb : rx.rxNext < snSize.modNr) (hh : rx.rxNextHighest < snSize.modNr)
    (hsn : sn < snSize.modNr) (inside : rx.offset sn < snSize.windowSize) :
    rx.offset (rx.raiseNextHighest sn).rxNextHighest =
      max (rx.offset rx.rxNextHighest) (rx.offset sn + 1) := by
  have := snSize.modNr_eq
  unfold raiseNextHighest
  rw [rxModBaseNr_eq hb (Nat.le_of_lt hh), rxModBaseNr_eq hb (Nat.le_of_lt hsn)]
  split
  · have next : rx.offset ((sn + 1) % snSize.modNr) = rx.offset sn + 1 :=
      modOffset_succ hb hsn (by unfold offset at *; omega)
    dsimp only
    omega
  · omega

theorem Placed.offset (placed : rx.Placed rx' sn sdu) (sn' : Nat) :
    rx'.offset sn' = rx.offset sn' := by
  rw [placed.same]
  rfl

theorem WindowInv.placed (h : rx.WindowInv kept) (placed : rx.Placed rx' sn sdu)
    (hsn : sn < snSize.modNr) (inside : rx.offset sn < snSize.windowSize)
    (segments : kept → SduOk sdu) : (rx'.raiseNextHighest sn).WindowInv kept := by
  have rxNext : rx'.rxNext = rx.rxNext := by rw [placed.same]
  have nextHighest : rx'.rxNextHighest = rx.rxNextHighest := by rw [placed.same]
  have hb : rx'.rxNext < snSize.modNr := by rw [rxNext]; exact h.rxNext
  have hh : rx'.rxNextHighest < snSize.modNr := by rw [nextHighest]; exact h.nextHighest
  have raised := offset_raiseNextHighest hb hh hsn (by rwa [placed.offset])
  have window := h.window
  refine ⟨by rwa [raiseNextHighest_rxNext], ?_, ?_, ?_, ?_, ?_⟩
  · unfold raiseNextHighest
    split
    · exact Nat.mod_lt _ snSize.modNr_pos
    · exact hh
  · rw [raiseNextHighest_offset, raised, nextHighest, placed.offset, placed.offset]
    omega
  · intro sn' sdu' found
    rw [raiseNextHighest_rxWindow] at found
    rw [raiseNextHighest_offset, raiseNextHighest_offset, raised, nextHighest]
    simp only [placed.offset]
    by_cases same : sn' = sn
    · subst same
      exact ⟨hsn, by omega⟩
    · rw [placed.others sn' same] at found
      have := h.keys sn' sdu' found
      omega
  · intro keeps positive
    unfold raiseNextHighest
    split
    · -- the SDU just placed is the highest one
      have pred : ((sn + 1) % snSize.modNr + snSize.modNr - 1) % snSize.modNr = sn := by
        cases snSize <;> simp only [SnSize.modNr] at * <;> omega
      simp [pred, CircularMap.contains, placed.found]
    · rename_i lower
      rw [rxModBaseNr_eq hb (Nat.le_of_lt hh)] at lower
      have old := h.highestPresent keeps (by
        rw [placed.offset, nextHighest] at lower
        omega)
      rw [nextHighest]
      obtain ⟨sdu', found⟩ := CircularMap.contains_eq_true.mp old
      by_cases same : (rx.rxNextHighest + snSize.modNr - 1) % snSize.modNr = sn
      · simp [same, CircularMap.contains, placed.found]
      · simp [CircularMap.contains, placed.others _ same, found]
  · intro keeps sn' sdu' found
    rw [raiseNextHighest_rxWindow] at found
    by_cases same : sn' = sn
    · subst same
      obtain rfl : sdu = sdu' := by simpa [placed.found] using found
      exact segments keeps
    · rw [placed.others sn' same] at found
      exact h.segments keeps sn' sdu' found

/-- `RX_Highest_Status` and `RX_Next` while the SDU with the given SN, which has just been fully
received, is still to be accounted for. -/
structure StatusInvBut (rx : Rx snSize) (sn : Nat) : Prop where
  highestStatus : rx.rxHighestStatus < snSize.modNr
  bound : rx.offset rx.rxHighestStatus ≤ rx.offset rx.rxNextHighest
  highestMissing : rx.fullyReceived rx.rxHighestStatus = true → rx.rxHighestStatus = sn
  nextMissing : rx.fullyReceived rx.rxNext = true → rx.rxNext = sn

theorem StatusInv.placed (h : rx.StatusInv) (hw : rx.WindowInv kept)
    (placed : rx.Placed rx' sn sdu) (hsn : sn < snSize.modNr)
    (inside : rx.offset sn < snSize.windowSize) : (rx'.raiseNextHighest sn).StatusInvBut sn := by
  have rxNext : rx'.rxNext = rx.rxNext := by rw [placed.same]
  have nextHighest : rx'.rxNextHighest = rx.rxNextHighest := by rw [placed.same]
  have status : rx'.rxHighestStatus = rx.rxHighestStatus := by rw [placed.same]
  have raised := offset_raiseNextHighest (by rw [rxNext]; exact hw.rxNext)
    (by rw [nextHighest]; exact hw.nextHighest) hsn (by rwa [placed.offset])
  have others : ∀ sn', rx.fullyReceived sn' = false →
      (rx'.raiseNextHighest sn).fullyReceived sn' = true → sn' = sn := by
    intro sn' missing received
    by_contra different
    have same : (rx'.raiseNextHighest sn).fullyReceived sn' = rx.fullyReceived sn' :=
      fullyReceived_congr (by rw [raiseNextHighest_rxWindow, placed.others sn' different])
    rw [same, missing] at received
    contradiction
  refine ⟨?_, ?_, ?_, ?_⟩
  · rw [raiseNextHighest_rxHighestStatus, status]
    exact h.highestStatus
  · have := h.bound
    rw [raiseNextHighest_offset, raiseNextHighest_offset, raised, nextHighest,
      raiseNextHighest_rxHighestStatus, status]
    simp only [placed.offset]
    omega
  · rw [raiseNextHighest_rxHighestStatus, status]
    exact others _ h.highestMissing
  · rw [raiseNextHighest_rxNext, rxNext]
    exact others _ h.nextMissing

end Rx

end IsrRan.Rlc.AmNr
