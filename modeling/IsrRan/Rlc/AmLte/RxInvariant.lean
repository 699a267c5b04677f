import IsrRan.Lib.ModWindow
import IsrRan.Rlc.AmLte.Rx

namespace IsrRan.Rlc.AmLte.Rx
open Lib Adt Bool Nat

variable {whole : Prop} {fresh : Nat → Prop} {rx rx' : Rx}

def offset (rx : Rx) (sn : Nat) : Nat := modOffset mod rx.vrR sn

variable {sn : Nat}

theorem offset_lt (rx : Rx) (sn : Nat) : rx.offset sn < mod := modOffset_lt (by decide)

theorem rxModBase_eq (hb : rx.vrR < mod) (sn : Nat) (bound : sn < mod) : rx.rxModBase sn = rx.offset sn := by
  unfold rxModBase offset modOffset u32Sub mod at *
  omega

/-- What holds in each state of a run and inside the steps: `whole` stands for runs in which no PDU without
its data is in the window, `fresh` holds of the SNs whose list never gets a segment of a later PDU. -/
structure Core (whole : Prop) (fresh : Nat → Prop) (rx : Rx) : Prop where
  vrR : rx.vrR < mod
  vrMs : rx.vrMs < mod
  vrH : rx.vrH < mod
  vrX : rx.vrX < mod
  vrMr : rx.vrMr = (rx.vrR + windowSize) % mod
  order : rx.offset rx.vrMs ≤ rx.offset rx.vrH
  window : rx.offset rx.vrH ≤ windowSize
  keys : ∀ sn pdu, rx.rxWindow.find sn = some pdu → sn < mod ∧ rx.offset sn < rx.offset rx.vrH
  complete : whole → ∀ sn pdu, rx.rxWindow.find sn = some pdu → pdu.header.dc = .dataPdu
  segmentSns : ∀ sn segments, rx.rxSegments.find sn = some segments →
    sn < mod ∧ ∀ s ∈ segments, s.header.sn = sn
  segments : ∀ sn segments, fresh sn → rx.rxSegments.find sn = some segments → segments ≠ [] →
    rx.offset sn < rx.offset rx.vrH

structure Inv (whole : Prop) (fresh : Nat → Prop) (rx : Rx) : Prop extends Core whole fresh rx where
  lowMissing : rx.rxWindow.contains rx.vrR = false
  statusMissing : rx.rxWindow.contains rx.vrMs = false
  timer : rx.reorderingTimerRunning = true → 0 < rx.offset rx.vrX ∧ rx.offset rx.vrX ≤ rx.offset rx.vrH

def TimerLoose (rx : Rx) : Prop :=
  rx.reorderingTimerRunning = true →
    0 < rx.offset rx.vrX ∧ rx.offset rx.vrX ≤ rx.offset rx.vrH ∨
    rx.offset rx.vrX = 0 ∧ rx.offset rx.vrH < windowSize ∨
    windowSize + rx.offset rx.vrH < rx.offset rx.vrX

section
variable (h : rx.Core whole fresh)
include h

theorem Core.key_mem (present : rx.rxWindow.contains sn = true) :
    sn < mod ∧ rx.offset sn < rx.offset rx.vrH := by
  obtain ⟨pdu, found⟩ := CircularMap.contains_eq_true.mp present
  exact h.keys sn pdu found

theorem Core.offset_vrR : rx.offset rx.vrR = 0 := modOffset_self h.vrR

theorem Core.insideRxWindow_eq (hsn : sn < mod) :
    rx.insideRxWindow sn = decide (rx.offset sn < windowSize) := by
  have edge : rx.offset rx.vrMr = windowSize := by
    rw [h.vrMr]
    exact modOffset_add h.vrR (by decide)
  have bound : rx.vrMr < mod := h.vrMr ▸ mod_lt _ (by decide)
  unfold insideRxWindow
  rw [rxModBase_eq h.vrR _ hsn, rxModBase_eq h.vrR _ h.vrR, rxModBase_eq h.vrR _ bound, edge, h.offset_vrR]
  simp

end

section
variable (h : rx.Core whole fresh)
include h

theorem Core.find_overwrite (hsn : sn < mod)
    (inside : rx.offset sn < windowSize) (pdu : RxPdu) (sn' : Nat) :
    (rx.rxWindow.overwrite sn pdu).find sn' = if sn' = sn then some pdu else rx.rxWindow.find sn' := by
  refine CircularMap.find_overwrite_of_alone (fun old found slot => ?_) pdu
  obtain ⟨hsn', below⟩ := h.keys sn' old found
  exact eq_of_slot_eq h.vrR hsn' (by decide) hsn (Nat.lt_of_lt_of_le below h.window) inside slot

theorem Core.offset_succ (hsn : sn < mod)
    (inside : rx.offset sn < windowSize) : rx.offset ((sn + 1) % mod) = rx.offset sn + 1 := by
  refine modOffset_succ h.vrR hsn ?_
  unfold offset windowSize mod at *
  omega

theorem Core.firstMissing {fuel start : Nat} (hs : start < mod)
    (below : rx.offset start ≤ rx.offset rx.vrH) (enough : rx.offset rx.vrH ≤ rx.offset start + fuel) :
    rx.firstMissing fuel start < mod ∧ rx.offset (rx.firstMissing fuel start) ≤ rx.offset rx.vrH ∧
      rx.rxWindow.contains (rx.firstMissing fuel start) = false := by
  have absent {sn : Nat} (above : rx.offset rx.vrH ≤ rx.offset sn) : rx.rxWindow.contains sn = false := by
    cases present : rx.rxWindow.contains sn with
    | false => rfl
    | true =>
      have := (h.key_mem present).2
      omega
  induction fuel generalizing start with
  | zero => exact ⟨hs, below, absent enough⟩
  | succ fuel ih =>
    unfold Rx.firstMissing
    split
    · rename_i present
      have inside := (h.key_mem present).2
      have next := h.offset_succ hs (Nat.lt_of_lt_of_le inside h.window)
      exact ih (mod_lt _ (by decide)) (by omega) (by omega)
    · rename_i missing
      exact ⟨hs, below, by simpa using missing⟩

theorem Core.offset_pass (hsn : sn < mod) :
    modOffset mod ((rx.vrR + 1) % mod) sn =
      if 0 < rx.offset sn then rx.offset sn - 1 else mod - 1 := by
  have one : modOffset mod rx.vrR ((rx.vrR + 1) % mod) = 1 := modOffset_add h.vrR (by decide)
  rw [modOffset_rebase h.vrR (mod_lt _ (by decide)) hsn]
  unfold offset
  split <;> split <;> omega

end

theorem find_passVrR_window (rx : Rx) (sn : Nat) :
    rx.passVrR.rxWindow.find sn = if sn = rx.vrR then none else rx.rxWindow.find sn :=
  CircularMap.find_erase _ _ _

theorem find_passVrR_segments (rx : Rx) (sn : Nat) :
    rx.passVrR.rxSegments.find sn =
      if sn = rx.vrR then (rx.rxSegments.find sn).map (fun _ => []) else rx.rxSegments.find sn := by
  unfold passVrR
  by_cases listed : rx.rxSegments.contains rx.vrR = true
  · rw [if_pos listed, OrderedMap.find_insertOrAssign]
    obtain ⟨segments, found⟩ := Option.isSome_iff_exists.mp listed
    split
    · rename_i same
      rw [same, found]
      rfl
    · rfl
  · rw [if_neg listed]
    have none : rx.rxSegments.find rx.vrR = none := by simpa [OrderedMap.contains] using listed
    split
    · rename_i same
      rw [same, none]
      rfl
    · rfl

section
variable (h : rx.Core whole fresh)
include h

theorem Core.passVrR (loose : rx.TimerLoose)
    (statusMissing : rx.rxWindow.contains rx.vrMs = false) (present : rx.rxWindow.contains rx.vrR = true) :
    rx.passVrR.Core whole fresh ∧ rx.passVrR.TimerLoose ∧
      rx.passVrR.rxWindow.contains rx.passVrR.vrMs = false ∧
      rx.passVrR.offset rx.passVrR.vrH + 1 = rx.offset rx.vrH := by
  have positive : 0 < rx.offset rx.vrH := by
    have := (h.key_mem present).2
    omega
  have shift {sn : Nat} (hsn : sn < mod) :
      rx.passVrR.offset sn = if 0 < rx.offset sn then rx.offset sn - 1 else mod - 1 := h.offset_pass hsn
  have vrH : rx.passVrR.offset rx.vrH + 1 = rx.offset rx.vrH := by
    rw [shift h.vrH, if_pos positive]
    omega
  have apart {sn : Nat} (hsn : sn < mod) (different : sn ≠ rx.vrR) : 0 < rx.offset sn :=
    Nat.pos_of_ne_zero fun zero => different ((modOffset_eq_zero h.vrR hsn).mp zero)
  have different : rx.vrMs ≠ rx.vrR := by
    intro same
    rw [same, present] at statusMissing
    contradiction
  have window := h.window
  refine ⟨⟨mod_lt _ (by decide), h.vrMs, h.vrH, h.vrX, ?_, ?_, ?_, ?_, ?_, ?_, ?_⟩, ?_, ?_, vrH⟩
  · change (rx.vrMr + 1) % mod = ((rx.vrR + 1) % mod + windowSize) % mod
    rw [h.vrMr]
    unfold mod windowSize
    omega
  · change rx.passVrR.offset rx.vrMs ≤ rx.passVrR.offset rx.vrH
    have := h.order
    rw [shift h.vrMs, if_pos (apart h.vrMs different)]
    omega
  · change rx.passVrR.offset rx.vrH ≤ windowSize
    omega
  · intro sn pdu found
    rw [find_passVrR_window] at found
    split at found
    · contradiction
    · rename_i other
      obtain ⟨hsn, below⟩ := h.keys sn pdu found
      refine ⟨hsn, ?_⟩
      change rx.passVrR.offset sn < rx.passVrR.offset rx.vrH
      have := apart hsn other
      rw [shift hsn, if_pos this]
      omega
  · intro kept sn pdu found
    rw [find_passVrR_window] at found
    split at found
    · contradiction
    · exact h.complete kept sn pdu found
  · intro sn segments found
    rw [find_passVrR_segments] at found
    split at found
    · obtain ⟨old, listed, rfl⟩ := Option.map_eq_some_iff.mp found
      exact ⟨(h.segmentSns sn old listed).1, by simp⟩
    · exact h.segmentSns sn segments found
  · intro sn segments kept found nonempty
    rw [find_passVrR_segments] at found
    split at found
    · obtain ⟨old, _, rfl⟩ := Option.map_eq_some_iff.mp found
      contradiction
    · rename_i other
      have hsn := (h.segmentSns sn segments found).1
      have below := h.segments sn segments kept found nonempty
      change rx.passVrR.offset sn < rx.passVrR.offset rx.vrH
      have := apart hsn other
      rw [shift hsn, if_pos this]
      omega
  · intro running
    change 0 < rx.passVrR.offset rx.vrX ∧ rx.passVrR.offset rx.vrX ≤ rx.passVrR.offset rx.vrH ∨
      rx.passVrR.offset rx.vrX = 0 ∧ rx.passVrR.offset rx.vrH < windowSize ∨
      windowSize + rx.passVrR.offset rx.vrH < rx.passVrR.offset rx.vrX
    have loose := loose running
    rw [shift h.vrX]
    unfold mod windowSize at *
    split <;> omega
  · cases again : rx.passVrR.rxWindow.contains rx.passVrR.vrMs with
    | false => rfl
    | true =>
      obtain ⟨pdu, found⟩ := CircularMap.contains_eq_true.mp again
      rw [find_passVrR_window] at found
      split at found
      · contradiction
      · have there : rx.rxWindow.contains rx.vrMs = true :=
          CircularMap.contains_eq_true.mpr ⟨pdu, found⟩
        rw [statusMissing] at there
        contradiction

theorem Core.withSdu (sdu : Option ByteBuffer) :
    ({ rx with rxSdu := sdu } : Rx).Core whole fresh :=
  ⟨h.vrR, h.vrMs, h.vrH, h.vrX, h.vrMr, h.order, h.window, h.keys, h.complete, h.segmentSns, h.segments⟩

theorem Core.reassembleLoop (loose : rx.TimerLoose)
    (statusMissing : rx.rxWindow.contains rx.vrMs = false) {fuel : Nat}
    (enough : rx.offset rx.vrH ≤ fuel) {sdus sdus' : List Sdu}
    (done : rx.reassembleLoop sdus fuel = .ok (rx', sdus')) :
    rx'.Core whole fresh ∧ rx'.TimerLoose ∧ rx'.rxWindow.contains rx'.vrMs = false ∧
      rx'.rxWindow.contains rx'.vrR = false := by
  have absent (zero : rx.offset rx.vrH = 0) : rx.rxWindow.contains rx.vrR = false := by
    cases present : rx.rxWindow.contains rx.vrR with
    | false => rfl
    | true =>
      have := (h.key_mem present).2
      omega
  induction fuel generalizing rx sdus with
  | zero =>
    cases done
    exact ⟨h, loose, statusMissing, absent (by omega)⟩
  | succ fuel ih =>
    unfold Rx.reassembleLoop at done
    split at done
    · rename_i missing
      cases done
      exact ⟨h, loose, statusMissing, CircularMap.contains_eq_false.mpr missing⟩
    · rename_i pdu found
      split at done
      · contradiction
      · rename_i rxSdu _
        have present : rx.rxWindow.contains rx.vrR = true :=
          CircularMap.contains_eq_true.mpr ⟨pdu, found⟩
        obtain ⟨core, loose, missing, shorter⟩ :=
          (h.withSdu (pdu.reassemble rxSdu).1).passVrR loose statusMissing present
        refine ih core loose missing ?_ done fun zero => ?_
        · change _ + 1 = rx.offset rx.vrH at shorter
          omega
        · cases again : Rx.rxWindow _ |>.contains _ with
          | false => rfl
          | true =>
            have := (core.key_mem again).2
            omega

theorem Core.reassembleRxSdus (loose : rx.TimerLoose)
    (statusMissing : rx.rxWindow.contains rx.vrMs = false) {sdus : List Sdu}
    (done : rx.reassembleRxSdus = .ok (rx', sdus)) :
    rx'.Core whole fresh ∧ rx'.TimerLoose ∧ rx'.rxWindow.contains rx'.vrMs = false ∧
      rx'.rxWindow.contains rx'.vrR = false :=
  (h.withSdu (some (rx.rxSdu.getD {}))).reassembleLoop loose statusMissing
    (Nat.le_of_lt (offset_lt _ _)) done

theorem Core.updateReorderingTimer (loose : rx.TimerLoose)
    (statusMissing : rx.rxWindow.contains rx.vrMs = false)
    (lowMissing : rx.rxWindow.contains rx.vrR = false) : rx.updateReorderingTimer.Inv whole fresh := by
  have inside := h.insideRxWindow_eq h.vrX
  have atEdge : rx.offset rx.vrX = windowSize ↔ rx.vrX = rx.vrMr := by
    rw [h.vrMr]
    constructor
    · intro edge
      rw [← edge]
      exact (add_modOffset h.vrR h.vrX).symm
    · intro same
      rw [same]
      exact modOffset_add h.vrR (by decide)
  unfold Rx.updateReorderingTimer
  rw [rxModBase_eq h.vrR _ h.vrR, rxModBase_eq h.vrR _ h.vrH, h.offset_vrR, inside]
  dsimp only
  split
  · rename_i start
    refine ⟨⟨h.vrR, h.vrMs, h.vrH, h.vrH, h.vrMr, h.order, h.window, h.keys, h.complete, h.segmentSns,
      h.segments⟩, lowMissing, statusMissing, fun _ => ⟨?_, Nat.le_refl _⟩⟩
    simp only [and_eq_true, decide_eq_true_eq] at start
    exact start.2
  · refine ⟨⟨h.vrR, h.vrMs, h.vrH, h.vrX, h.vrMr, h.order, h.window, h.keys, h.complete, h.segmentSns,
      h.segments⟩, lowMissing, statusMissing, fun running => ?_⟩
    simp only [and_eq_true, not_eq_true', or_eq_false_iff, decide_eq_false_iff_not,
      and_eq_false_iff, not_eq_false', decide_eq_true_eq, ne_eq] at running
    obtain ⟨running, ahead, near⟩ := running
    have apart : rx.offset rx.vrX ≠ 0 := fun zero => ahead ((modOffset_eq_zero h.vrR h.vrX).mp zero)
    rcases loose running with inside | ⟨zero, _⟩ | behind
    · exact inside
    · exact absurd zero apart
    · rw [← atEdge] at near
      omega

end

structure Raised (whole : Prop) (fresh : Nat → Prop) (rx : Rx) (sn edge : Nat) : Prop extends
    Core whole fresh { rx with vrH := edge } where
  below : rx.offset sn < rx.offset edge
  higher : rx.offset rx.vrH ≤ rx.offset edge

theorem Core.raiseHighest (h : rx.Core whole fresh) (hsn : sn < mod)
    (inside : rx.offset sn < windowSize) :
    ∃ edge, rx.raiseHighest sn = { rx with vrH := edge } ∧ Raised whole fresh rx sn edge := by
  unfold Rx.raiseHighest
  rw [rxModBase_eq h.vrR _ h.vrH, rxModBase_eq h.vrR _ hsn]
  split
  · rename_i above
    have next := h.offset_succ hsn inside
    refine ⟨_, rfl, ⟨h.vrR, h.vrMs, mod_lt _ (by decide), h.vrX, h.vrMr, ?_, ?_, fun sn' pdu found => ?_,
      h.complete, h.segmentSns, fun sn' segments kept found nonempty => ?_⟩, ?_, ?_⟩
    · change rx.offset rx.vrMs ≤ rx.offset ((sn + 1) % mod)
      have := h.order
      omega
    · change rx.offset ((sn + 1) % mod) ≤ windowSize
      omega
    · change sn' < mod ∧ rx.offset sn' < rx.offset ((sn + 1) % mod)
      have := h.keys sn' pdu found
      exact ⟨this.1, by omega⟩
    · change rx.offset sn' < rx.offset ((sn + 1) % mod)
      have := h.segments sn' segments kept found nonempty
      omega
    · omega
    · omega
  · rename_i below
    exact ⟨rx.vrH, rfl, h, by omega, Nat.le_refl _⟩

end IsrRan.Rlc.AmLte.Rx
