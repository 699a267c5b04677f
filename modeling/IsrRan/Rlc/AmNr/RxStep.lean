import IsrRan.Rlc.AmNr.RxInvariant

namespace IsrRan.Rlc.AmNr
open Lib Adt Bool Nat

namespace Rx

variable {snSize : SnSize} {kept : Prop} {rx rx' : Rx snSize}

structure TimerInvLoose (kept : Prop) (rx : Rx snSize) : Prop where
  trigger : rx.rxNextStatusTrigger < snSize.modNr
  near : rx.reassemblyTimerRunning = true →
    snSize.windowSize ≤ rx.offset rx.rxNextStatusTrigger ∨
      rx.offset rx.rxNextStatusTrigger ≤ rx.offset rx.rxNextHighest ∧
        (kept → 0 < rx.offset rx.rxNextStatusTrigger →
          rx.rxWindow.contains ((rx.rxNextStatusTrigger + snSize.modNr - 1) % snSize.modNr) = true)

theorem TimerInv.loose (h : rx.TimerInv kept) : rx.TimerInvLoose kept where
  trigger := h.trigger
  near running := .inr ⟨(h.above running).2, fun keeps _ => h.present keeps running⟩

structure StatusInvNext (rx : Rx snSize) (sn : Nat) : Prop where
  highestStatus : rx.rxHighestStatus < snSize.modNr
  bound : rx.offset rx.rxHighestStatus ≤ rx.offset rx.rxNextHighest
  highestMissing : rx.fullyReceived rx.rxHighestStatus = false
  nextMissing : rx.fullyReceived rx.rxNext = true → rx.rxNext = sn

theorem updateHighestStatus_eq (rx : Rx snSize) (sn : Nat) :
    rx.updateHighestStatus sn = { rx with rxHighestStatus := (rx.updateHighestStatus sn).rxHighestStatus } := by
  unfold updateHighestStatus
  split <;> rfl

theorem Passed.not_received {start stop : Nat} (passed : rx.Passed start stop) (h : rx.WindowInv kept) :
    rx.fullyReceived stop = false := by
  rcases passed.missing with top | missing
  · exact h.not_received_of_bound (Nat.le_of_eq top.symm)
  · exact missing

theorem StatusInvBut.updateHighestStatus {sn : Nat} (h : rx.StatusInvBut sn) (hw : rx.WindowInv kept)
    (received : rx.fullyReceived sn = true) : (rx.updateHighestStatus sn).StatusInvNext sn := by
  obtain ⟨sdu, found, _⟩ := fullyReceived_mem received
  obtain ⟨hsn, below⟩ := hw.keys sn sdu found
  have window := hw.window
  have modNr := snSize.modNr_eq
  unfold Rx.updateHighestStatus
  rw [rxModBaseNr_eq hw.rxNext (Nat.le_of_lt hsn), rxModBaseNr_eq hw.rxNext (Nat.le_of_lt h.highestStatus)]
  split
  · rename_i same
    have next := hw.offset_succ h.highestStatus (by omega)
    have passed := hw.firstMissing (mod_lt (rx.rxHighestStatus + 1) snSize.modNr_pos)
      (by omega) (by omega : _ ≤ _ + snSize.modNr)
    exact ⟨passed.stop_lt, passed.upper, passed.not_received hw, h.nextMissing⟩
  · rename_i different
    refine ⟨h.highestStatus, h.bound, ?_, h.nextMissing⟩
    cases highest : rx.fullyReceived rx.rxHighestStatus with
    | false => rfl
    | true => exact absurd (by rw [h.highestMissing highest]) different

theorem offset_rxNext (hb : rx.rxNext < snSize.modNr) : rx.offset rx.rxNext = 0 := modOffset_self hb

structure Advanced (rx rx' : Rx snSize) (stop : Nat) : Prop where
  passed : rx.Passed rx.rxNext stop
  removed : rx.Removed rx.rxNext stop rx.rxWindow rx'.rxWindow
  same : rx' = { rx with rxWindow := rx'.rxWindow, rxNext := stop }

theorem WindowInv.updateRxNext_advanced (h : rx.WindowInv kept) {sn : Nat}
    (same : rx.rxModBaseNr sn = rx.rxModBaseNr rx.rxNext) :
    ∃ stop, rx.Advanced (rx.updateRxNext sn) stop := by
  have zero := offset_rxNext h.rxNext
  have window := h.window
  have modNr := snSize.modNr_eq
  have reduced : rx.rxNext % snSize.modNr = rx.rxNext := mod_eq_of_lt h.rxNext
  obtain ⟨stop, removed⟩ := h.advanceRxNext h.rxNext (by omega) (by omega : _ ≤ _ + snSize.modNr)
    (fun _ _ _ => rfl)
  refine ⟨rx.firstMissing snSize.modNr rx.rxNext, h.firstMissing h.rxNext (by omega) (by omega), ?_, ?_⟩
  · unfold Rx.updateRxNext
    rw [if_pos same, reduced]
    exact removed
  · unfold Rx.updateRxNext
    rw [if_pos same, reduced]
    dsimp only
    rw [stop]

theorem Advanced.contains {stop sn : Nat} (advanced : rx.Advanced rx' stop) (hsn : sn < snSize.modNr)
    (above : rx.offset stop ≤ rx.offset sn) : rx'.rxWindow.contains sn = rx.rxWindow.contains sn := by
  unfold CircularMap.contains
  rw [advanced.removed.others sn hsn (.inr above)]

section
variable {stop : Nat} (advanced : rx.Advanced rx' stop) (h : rx.WindowInv kept)
include advanced h

theorem Advanced.offset {sn : Nat} (hsn : sn < snSize.modNr) :
    rx'.offset sn =
      if rx.offset stop ≤ rx.offset sn then rx.offset sn - rx.offset stop
      else rx.offset sn + snSize.modNr - rx.offset stop := by
  rw [advanced.same]
  exact modOffset_rebase h.rxNext advanced.passed.stop_lt hsn

theorem Advanced.find {sn : Nat} {sdu : RxSdu} (found : rx'.rxWindow.find sn = some sdu) :
    rx.rxWindow.find sn = some sdu ∧ rx.offset stop ≤ rx.offset sn := by
  have present : rx.rxWindow.find sn ≠ none := by
    intro absent
    rw [advanced.removed.absent sn absent] at found
    contradiction
  obtain ⟨old, was⟩ := Option.ne_none_iff_exists'.mp present
  have hsn := (h.keys sn old was).1
  have zero := offset_rxNext h.rxNext
  by_cases above : rx.offset stop ≤ rx.offset sn
  · exact ⟨by rw [← advanced.removed.others sn hsn (.inr above), found], above⟩
  · rw [advanced.removed.passed sn hsn (by omega) (by omega)] at found
    contradiction

theorem Advanced.windowInv : rx'.WindowInv kept := by
  have nextHighest : rx'.rxNextHighest = rx.rxNextHighest := by rw [advanced.same]
  have upper := advanced.passed.upper
  have window := h.window
  have top := advanced.offset h h.nextHighest
  rw [if_pos upper] at top
  refine ⟨?_, by rw [nextHighest]; exact h.nextHighest, by rw [nextHighest]; omega, ?_, ?_, ?_⟩
  · rw [advanced.same]
    exact advanced.passed.stop_lt
  · intro sn sdu found
    obtain ⟨was, above⟩ := advanced.find h found
    obtain ⟨hsn, below⟩ := h.keys sn sdu was
    rw [nextHighest, advanced.offset h hsn, if_pos above]
    exact ⟨hsn, by omega⟩
  · intro keeps positive
    rw [nextHighest] at positive ⊢
    have pred := modOffset_pred h.rxNext h.nextHighest (by unfold Rx.offset at *; omega)
    rw [advanced.contains (mod_lt _ snSize.modNr_pos)]
    · exact h.highestPresent keeps (by omega)
    · unfold Rx.offset at *
      omega
  · intro keeps sn sdu found
    exact h.segments keeps sn sdu (advanced.find h found).1

theorem Advanced.statusInv {sn : Nat} (status : rx.StatusInvNext sn) : rx'.StatusInv := by
  have nextHighest : rx'.rxNextHighest = rx.rxNextHighest := by rw [advanced.same]
  have highest : rx'.rxHighestStatus = rx.rxHighestStatus := by rw [advanced.same]
  have next : rx'.rxNext = stop := by rw [advanced.same]
  have zero := offset_rxNext h.rxNext
  have bound := status.bound
  have above : rx.offset stop ≤ rx.offset rx.rxHighestStatus := by
    by_contra lower
    have := advanced.passed.received _ status.highestStatus (by omega) (by omega)
    rw [status.highestMissing] at this
    contradiction
  have top := advanced.offset h h.nextHighest
  rw [if_pos advanced.passed.upper] at top
  refine ⟨by rw [highest]; exact status.highestStatus, ?_, ?_, ?_⟩
  · rw [highest, nextHighest, advanced.offset h status.highestStatus, if_pos above]
    omega
  · rw [highest, ← status.highestMissing]
    exact fullyReceived_congr (advanced.removed.others _ status.highestStatus (.inr above))
  · rw [next, ← advanced.passed.not_received h]
    exact fullyReceived_congr
      (advanced.removed.others _ advanced.passed.stop_lt (.inr (Nat.le_refl _)))

theorem Advanced.timerInvLoose (timer : rx.TimerInv kept) : rx'.TimerInvLoose kept := by
  have nextHighest : rx'.rxNextHighest = rx.rxNextHighest := by rw [advanced.same]
  have trigger : rx'.rxNextStatusTrigger = rx.rxNextStatusTrigger := by rw [advanced.same]
  have running : rx'.reassemblyTimerRunning = rx.reassemblyTimerRunning := by rw [advanced.same]
  have upper := advanced.passed.upper
  have window := h.window
  have modNr := snSize.modNr_eq
  have top := advanced.offset h h.nextHighest
  refine ⟨by rw [trigger]; exact timer.trigger, ?_⟩
  rw [trigger, nextHighest, top, running, advanced.offset h timer.trigger]
  intro isRunning
  have := timer.above isRunning
  split
  · refine .inr ⟨by omega, fun keeps positive => ?_⟩
    have pred := modOffset_pred h.rxNext timer.trigger (by unfold Rx.offset at *; omega)
    rw [advanced.contains (mod_lt _ snSize.modNr_pos)]
    · exact timer.present keeps isRunning
    · unfold Rx.offset at *
      omega
  · exact .inl (by omega)

end

variable {sn : Nat} {sdu : RxSdu}

theorem StatusInvNext.updateRxNext (status : rx.StatusInvNext sn) (h : rx.WindowInv kept)
    (timer : rx.TimerInv kept) : (rx.updateRxNext sn).WindowInv kept ∧ (rx.updateRxNext sn).StatusInv ∧
      (rx.updateRxNext sn).TimerInvLoose kept := by
  by_cases same : rx.rxModBaseNr sn = rx.rxModBaseNr rx.rxNext
  · obtain ⟨stop, advanced⟩ := h.updateRxNext_advanced same
    exact ⟨advanced.windowInv h, advanced.statusInv h status, advanced.timerInvLoose h timer⟩
  · unfold Rx.updateRxNext
    rw [if_neg same]
    refine ⟨h, ⟨status.highestStatus, status.bound, status.highestMissing, ?_⟩, timer.loose⟩
    cases next : rx.fullyReceived rx.rxNext with
    | false => rfl
    | true => exact absurd (by rw [status.nextMissing next]) same

theorem TimerInv.placed (h : rx.TimerInv kept) (hw : rx.WindowInv kept)
    (placed : rx.Placed rx' sn sdu) (hsn : sn < snSize.modNr)
    (inside : rx.offset sn < snSize.windowSize) : (rx'.raiseNextHighest sn).TimerInv kept := by
  have rxNext : rx'.rxNext = rx.rxNext := by rw [placed.same]
  have nextHighest : rx'.rxNextHighest = rx.rxNextHighest := by rw [placed.same]
  have trigger : (rx'.raiseNextHighest sn).rxNextStatusTrigger = rx.rxNextStatusTrigger := by
    unfold raiseNextHighest
    split <;> rw [placed.same]
  have running : (rx'.raiseNextHighest sn).reassemblyTimerRunning = rx.reassemblyTimerRunning := by
    unfold raiseNextHighest
    split <;> rw [placed.same]
  have raised := offset_raiseNextHighest (by rw [rxNext]; exact hw.rxNext)
    (by rw [nextHighest]; exact hw.nextHighest) hsn (by rwa [placed.offset])
  refine ⟨by rw [trigger]; exact h.trigger, ?_, ?_⟩
  · intro isRunning
    have := h.above (running ▸ isRunning)
    rw [raiseNextHighest_offset, raiseNextHighest_offset, raised, nextHighest, trigger]
    simp only [placed.offset]
    omega
  · intro keeps isRunning
    obtain ⟨sdu', found⟩ := CircularMap.contains_eq_true.mp (h.present keeps (running ▸ isRunning))
    rw [trigger]
    by_cases same : (rx.rxNextStatusTrigger + snSize.modNr - 1) % snSize.modNr = sn
    · simp [same, CircularMap.contains, placed.found]
    · simp [CircularMap.contains, placed.others _ same, found]

theorem deliver_received (found : rx.rxWindow.find sn = some sdu)
    (full : sdu.fullyReceived = true) :
    rx.deliver sn = ((rx.updateHighestStatus sn).updateRxNext sn, [sdu.buf]) := by
  unfold deliver
  rw [found]
  dsimp only
  rw [if_pos full]

theorem deliver_partly (found : rx.rxWindow.find sn = some sdu)
    (partly : sdu.fullyReceived = false) : rx.deliver sn = (rx, []) := by
  unfold deliver
  rw [found]
  dsimp only
  rw [if_neg (not_eq_true _ ▸ partly)]

theorem WindowInv.withHighestStatus (h : rx.WindowInv kept) (highestStatus : Nat) :
    ({ rx with rxHighestStatus := highestStatus } : Rx snSize).WindowInv kept :=
  ⟨h.rxNext, h.nextHighest, h.window, h.keys, h.highestPresent, h.segments⟩

theorem TimerInv.withHighestStatus (h : rx.TimerInv kept) (highestStatus : Nat) :
    ({ rx with rxHighestStatus := highestStatus } : Rx snSize).TimerInv kept :=
  ⟨h.trigger, h.above, h.present⟩

theorem WindowInv.updateState (h : rx.WindowInv kept) (status : rx.StatusInv) (timer : rx.TimerInv kept)
    (placed : rx.Placed rx' sn sdu) (hsn : sn < snSize.modNr)
    (inside : rx.offset sn < snSize.windowSize) (segments : kept → SduOk sdu) :
    (rx'.updateState sn).1.WindowInv kept ∧ (rx'.updateState sn).1.StatusInv ∧
      (rx'.updateState sn).1.TimerInvLoose kept := by
  have window' := h.placed placed hsn inside segments
  have status' := status.placed h placed hsn inside
  have timer' := timer.placed h placed hsn inside
  have found : (rx'.raiseNextHighest sn).rxWindow.find sn = some sdu := by
    rw [raiseNextHighest_rxWindow, placed.found]
  have received : (rx'.raiseNextHighest sn).fullyReceived sn = sdu.fullyReceived :=
    fullyReceived_of_find found
  unfold Rx.updateState
  generalize rx'.raiseNextHighest sn = raised at *
  cases full : sdu.fullyReceived with
  | true =>
    rw [deliver_received found full]
    rw [full] at received
    have next := status'.updateHighestStatus window' received
    have eq := updateHighestStatus_eq raised sn
    have window'' : (raised.updateHighestStatus sn).WindowInv kept := by
      rw [eq]
      exact window'.withHighestStatus _
    have timer'' : (raised.updateHighestStatus sn).TimerInv kept := by
      rw [eq]
      exact timer'.withHighestStatus _
    exact next.updateRxNext window'' timer''
  | false =>
    rw [deliver_partly found full]
    rw [full] at received
    refine ⟨window', ⟨status'.highestStatus, status'.bound, ?_, ?_⟩, timer'.loose⟩
    · cases highest : raised.fullyReceived raised.rxHighestStatus with
      | false => rfl
      | true =>
        rw [status'.highestMissing highest, received] at highest
        contradiction
    · cases next : raised.fullyReceived raised.rxNext with
      | false => rfl
      | true =>
        rw [status'.nextMissing next, received] at next
        contradiction

theorem insideRxWindow_eq (hb : rx.rxNext < snSize.modNr) (hsn : sn < snSize.modNr) :
    rx.insideRxWindow sn = decide (rx.offset sn < snSize.windowSize) := by
  rw [insideRxWindow, rxModBaseNr_eq hb (Nat.le_of_lt hsn)]

theorem TimerInvLoose.stopReassemblyTimer (h : rx.TimerInvLoose kept) (hw : rx.WindowInv kept) :
    (kept → rx.stopReassemblyTimer ≠ .error .assertionFailed) ∧
      ∀ rx', rx.stopReassemblyTimer = .ok rx' →
        ∃ running, rx' = { rx with reassemblyTimerRunning := running } ∧ rx'.TimerInv kept := by
  have modNr := snSize.modNr_eq
  have big := snSize.windowSize_gt
  have hb := hw.rxNext
  have htr := h.trigger
  have next : rx.offset (rx.rxNext + 1) = 1 := by
    unfold offset
    rw [← modOffset_mod, modOffset_add hb (by omega)]
  unfold Rx.stopReassemblyTimer
  split
  · rename_i running
    have near := h.near running
    have trigger : rx.rxNextStatusTrigger = rx.rxNext ↔ rx.offset rx.rxNextStatusTrigger = 0 :=
      (modOffset_eq_zero hb htr).symm
    rw [insideRxWindow_eq hb htr, rxModBaseNr_eq hb (Nat.le_of_lt htr),
      rxModBaseNr_eq hb (succ_le_of_lt hb), next]
    have inv : ∀ stop : Bool,
        (stop = false → 0 < rx.offset rx.rxNextStatusTrigger ∧
          rx.offset rx.rxNextStatusTrigger < snSize.windowSize) →
        ({ rx with reassemblyTimerRunning := !stop } : Rx snSize).TimerInv kept := by
      intro stop within
      refine ⟨htr, fun runs => ?_, fun keeps runs => ?_⟩
      · have := within (by simpa using runs)
        change 0 < rx.offset rx.rxNextStatusTrigger ∧
          rx.offset rx.rxNextStatusTrigger ≤ rx.offset rx.rxNextHighest
        omega
      · have := within (by simpa using runs)
        rcases near with far | ⟨_, present⟩
        · omega
        · exact present keeps this.1
    split
    · rename_i one
      cases found : rx.rxWindow.find rx.rxNext with
      | none =>
        refine ⟨fun keeps => ?_, by simp⟩
        rcases near with far | ⟨_, present⟩
        · omega
        · have there := present keeps (by omega)
          have pred : (rx.rxNextStatusTrigger + snSize.modNr - 1) % snSize.modNr = rx.rxNext := by
            have := modOffset_pred hb htr (by unfold offset at one; omega)
            exact modOffset_injective hb (mod_lt _ snSize.modNr_pos) hb
              (by rw [modOffset_self hb]; unfold offset at one; omega)
          rw [pred] at there
          obtain ⟨sdu, found'⟩ := CircularMap.contains_eq_true.mp there
          rw [found] at found'
          contradiction
      | some sdu =>
        refine ⟨by simp, fun rx' eq => ?_⟩
        obtain rfl := Except.ok.inj eq
        exact ⟨_, rfl, inv _ fun _ => by omega⟩
    · refine ⟨by simp, fun rx' eq => ?_⟩
      obtain rfl := Except.ok.inj eq
      refine ⟨_, rfl, inv _ fun runs => ?_⟩
      simp only [or_eq_false_iff, decide_eq_false_iff_not, not_eq_false', decide_eq_true_eq] at runs
      omega
  · rename_i stopped
    rw [not_eq_true] at stopped
    refine ⟨by simp, fun rx' eq => ?_⟩
    obtain rfl := Except.ok.inj eq
    exact ⟨false, by rw [← stopped], htr, by simp [stopped], by simp [stopped]⟩

theorem WindowInv.startReassemblyTimer (h : rx.WindowInv kept) (htr : rx.rxNextStatusTrigger < snSize.modNr)
    (stopped : rx.reassemblyTimerRunning = false) (hsn : sn < snSize.modNr)
    (near : rx.offset sn ≤ snSize.windowSize) : (rx.startReassemblyTimer sn).TimerInv kept := by
  have modNr := snSize.modNr_eq
  have big := snSize.windowSize_gt
  have next : rx.offset (sn + 1) = rx.offset sn + 1 := by
    unfold offset at *
    rw [← modOffset_mod, modOffset_succ h.rxNext hsn (by omega)]
  unfold Rx.startReassemblyTimer
  rw [rxModBaseNr_eq h.rxNext (succ_le_of_lt hsn), rxModBaseNr_eq h.rxNext (Nat.le_of_lt h.nextHighest),
    next]
  split
  · rename_i missing
    simp only [or_eq_true, and_eq_true, decide_eq_true_eq] at missing
    have positive : 0 < rx.offset rx.rxNextHighest := by omega
    exact ⟨h.nextHighest, fun _ => ⟨positive, Nat.le_refl _⟩, fun keeps _ => h.highestPresent keeps positive⟩
  · exact ⟨htr, by simp [stopped], by simp [stopped]⟩

end Rx

end IsrRan.Rlc.AmNr
