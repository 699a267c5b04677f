import IsrRan.Rlc.AmLte.RxStep
import Mathlib

namespace IsrRan.Rlc.AmLte.Rx
open Lib Adt Nat UInt8

variable {rx : Rx}

structure VariablesOrdered (rx : Rx) : Prop where
  vrMs : rx.rxModBase rx.vrMs ≤ rx.rxModBase rx.vrH
  vrH : rx.rxModBase rx.vrH ≤ windowSize
  vrMr : rx.rxModBase rx.vrMr = windowSize
  lowMissing : rx.rxWindow.contains rx.vrR = false
  statusMissing : rx.rxWindow.contains rx.vrMs = false
  window : ∀ sn, rx.rxWindow.contains sn = true → sn < mod ∧ rx.rxModBase sn < rx.rxModBase rx.vrH
  segments : ∀ sn segments, rx.rxSegments.find sn = some segments → segments ≠ [] →
    sn < mod ∧ rx.rxModBase sn < rx.rxModBase rx.vrH
  timer : rx.reorderingTimerRunning = true →
    0 < rx.rxModBase rx.vrX ∧ rx.rxModBase rx.vrX ≤ rx.rxModBase rx.vrH

variable {sn : Nat}

theorem Inv.variablesOrdered {whole : Prop} (h : rx.Inv whole fun _ => True) : rx.VariablesOrdered := by
  have vrH := rxModBase_eq h.vrR _ h.vrH
  have vrX := rxModBase_eq h.vrR _ h.vrX
  have edge : rx.vrMr < mod := h.vrMr ▸ mod_lt _ (by decide)
  refine ⟨?_, ?_, ?_, h.lowMissing, h.statusMissing, fun sn present => ?_,
    fun sn segments found nonempty => ?_, fun running => ?_⟩
  · rw [vrH, rxModBase_eq h.vrR _ h.vrMs]
    exact h.order
  · rw [vrH]
    exact h.window
  · rw [rxModBase_eq h.vrR _ edge, h.vrMr]
    exact modOffset_add h.vrR (by decide)
  · obtain ⟨hsn, below⟩ := h.key_mem present
    rw [vrH, rxModBase_eq h.vrR _ hsn]
    exact ⟨hsn, below⟩
  · have hsn := (h.segmentSns sn segments found).1
    rw [vrH, rxModBase_eq h.vrR _ hsn]
    exact ⟨hsn, h.segments sn segments trivial found nonempty⟩
  · rw [vrH, vrX]
    exact h.timer running

def keepsVariables (rx : Rx) (e : RxEvent) : Bool := onPdus keepsSegments rx e && onPdus fitsOrHidden rx e

theorem vr_ordered (run : Reaches next (fun rx e => rx.keepsVariables e = true) {} rx) :
    rx.VariablesOrdered := by
  have inv : rx.Inv False fun _ => True := by
    refine inv_of_reaches (fun rx e ok => ?_) False.elim (fun _ _ rx e ok => ?_) run
    · exact (Bool.and_eq_true _ _ |>.mp ok).2
    · exact (Bool.and_eq_true _ _ |>.mp ok).1
  exact inv.variablesOrdered

def gapsRun : List RxEvent :=
  [.writePdu (.ofList [0xC8, 0, 0, 0, 1, 2]) 6, .writePdu (.ofList [0xA0, 1, 7]) 3, .timerExpired,
    .getStatusPdu 100, .writePdu (.ofList [0x80, 3, 8]) 3]

theorem vr_ordered_gapsRun :
    ∃ rx : Rx, runAllowed next keepsVariables {} gapsRun = some rx ∧
      (rx.vrR, rx.vrMs, rx.vrH, rx.vrX) = (0, 2, 4, 4) ∧ rx.reorderingTimerRunning = true ∧
      rx.VariablesOrdered := by
  have run : ∃ rx : Rx, runAllowed next keepsVariables {} gapsRun = some rx ∧
      (rx.vrR, rx.vrMs, rx.vrH, rx.vrX) = (0, 2, 4, 4) ∧ rx.reorderingTimerRunning = true :=
    ⟨_, rfl, rfl, rfl⟩
  obtain ⟨rx, run, variables_, running⟩ := run
  exact ⟨rx, run, variables_, running, vr_ordered (reaches_of_runAllowed gapsRun run)⟩

def fullPdu (sn : Nat) : Memory := .ofList [UInt8.ofNat (128 + sn / 256), UInt8.ofNat sn, 7]

theorem fullPdu_byte {sn : Nat} (bound : sn < mod) : (fullPdu sn).byte 0 = 128 + sn / 256 ∧
    (fullPdu sn).byte 1 = sn % 256 := by
  unfold mod at bound
  refine ⟨?_, ?_⟩
  · change (UInt8.ofNat (128 + sn / 256)).toNat = _
    simp
    omega
  · change (UInt8.ofNat sn).toNat = _
    simp

theorem readDataPduHeader_fullPdu (bound : sn < mod) :
    readDataPduHeader (fullPdu sn) = .ok ({ dc := .dataPdu, sn }, 2) := by
  obtain ⟨first, second⟩ := fullPdu_byte bound
  unfold mod at bound
  unfold readDataPduHeader
  rw [first, second, if_neg (by omega)]
  have rf : ¬ (128 + sn / 256) / 64 % 2 = 1 := by omega
  have p : ¬ (128 + sn / 256) / 32 % 2 = 1 := by omega
  have ext : ¬ (128 + sn / 256) / 4 % 2 = 1 := by omega
  have fi : (128 + sn / 256) / 8 % 4 = 0 := by omega
  have own : (128 + sn / 256) % 4 * 256 + sn % 256 = sn := by omega
  simp only [rf, p, ext, fi, own]
  rfl

def inOrder (sn : Nat) : Rx where
  vrR := sn
  vrMr := (sn + windowSize) % mod
  vrMs := sn
  vrH := sn
  rxSegments := [(0, [])]
  rxSdu := some {}

def inOrderStored (sn : Nat) : Rx :=
  { inOrder sn with rxWindow := CircularMap.overwrite {} sn ⟨{ dc := .dataPdu, sn }, { msg := [7] }⟩ }

theorem inOrderStored_contains (sn sn' : Nat) : (inOrderStored sn).rxWindow.contains sn' = decide (sn' = sn) := by
  change (CircularMap.find (CircularMap.overwrite _ _ _) _).isSome = _
  rw [CircularMap.find_overwrite]
  split
  · rename_i same
    simp [same]
  · rename_i different
    split <;> simp [different]

theorem inOrderStored_firstMissing (bound : sn + 1 < mod) :
    (inOrderStored sn).firstMissing mod sn = sn + 1 := by
  change firstMissing _ (1022 + 1 + 1) sn = sn + 1
  have next : (sn + 1) % mod = sn + 1 := mod_eq_of_lt bound
  unfold firstMissing
  rw [inOrderStored_contains, if_pos (by simp), next]
  unfold firstMissing
  rw [inOrderStored_contains, if_neg (by simp)]

section
variable (positive : 0 < sn)
include positive

section
variable (bound : sn + 1 < mod)
include bound

theorem inOrderStored_passVrR :
    ({ inOrderStored sn with vrH := sn + 1, vrMs := sn + 1 } : Rx).passVrR = inOrder (sn + 1) := by
  have next : (sn + 1) % mod = sn + 1 := mod_eq_of_lt bound
  have edge : ((sn + windowSize) % mod + 1) % mod = (sn + 1 + windowSize) % mod := by
    unfold mod windowSize
    omega
  have unlisted : (inOrder sn).rxSegments.contains sn = false := by
    simp [inOrder, OrderedMap.contains, OrderedMap.find, Nat.ne_of_gt positive]
  have segments : (if (inOrder sn).rxSegments.contains sn = true then
      (inOrder sn).rxSegments.insertOrAssign sn [] else (inOrder sn).rxSegments) =
      (inOrder sn).rxSegments := if_neg (by simp [unlisted])
  have pass : ({ inOrderStored sn with vrH := sn + 1, vrMs := sn + 1 } : Rx).passVrR =
      { inOrder sn with
        vrR := (sn + 1) % mod
        vrMr := ((sn + windowSize) % mod + 1) % mod
        vrMs := sn + 1
        vrH := sn + 1
        rxWindow := (CircularMap.overwrite {} sn ⟨{ dc := .dataPdu, sn }, { msg := [7] }⟩).erase sn
        rxSegments := if (inOrder sn).rxSegments.contains sn = true then
          (inOrder sn).rxSegments.insertOrAssign sn [] else (inOrder sn).rxSegments } := rfl
  rw [pass, next, edge, segments, CircularMap.erase_overwrite rfl]
  rfl

theorem inOrderStored_reassembleRxSdus :
    ({ inOrderStored sn with vrH := sn + 1, vrMs := sn + 1 } : Rx).reassembleRxSdus =
      .ok (inOrder (sn + 1), [[7]]) := by
  have found : (inOrderStored sn).rxWindow.find (inOrderStored sn).vrR =
      some ⟨{ dc := .dataPdu, sn }, { msg := [7] }⟩ := by
    change CircularMap.find (CircularMap.overwrite _ _ _) _ = _
    rw [CircularMap.find_overwrite, if_pos (show (inOrderStored sn).vrR = sn from rfl)]
  change reassembleLoop { inOrderStored sn with vrH := sn + 1, vrMs := sn + 1, rxSdu := some {} } [] (1023 + 1) = _
  rw [reassembleLoop, found]
  change reassembleLoop ({ inOrderStored sn with vrH := sn + 1, vrMs := sn + 1 } : Rx).passVrR
    [[7]] (1022 + 1) = _
  rw [inOrderStored_passVrR positive bound]
  rfl

theorem inOrder_handleDataPduFull :
    (inOrder sn).handleDataPduFull [7] { dc := .dataPdu, sn } = .ok (inOrder (sn + 1), [[7]]) := by
  have zero : u32Sub sn sn % mod = 0 := by
    unfold u32Sub mod
    omega
  have edge : u32Sub ((sn + windowSize) % mod) sn % mod = windowSize := by
    unfold u32Sub mod windowSize at *
    omega
  have inside : (inOrder sn).insideRxWindow sn = true := by
    change (decide (u32Sub sn sn % mod ≤ u32Sub sn sn % mod) &&
      decide (u32Sub sn sn % mod < u32Sub ((sn + windowSize) % mod) sn % mod)) = true
    rw [zero, edge]
    rfl
  have raised : (inOrderStored sn).raiseHighest sn = { inOrderStored sn with vrH := sn + 1 } := by
    have low : (inOrderStored sn).rxModBase (inOrderStored sn).vrH ≤ (inOrderStored sn).rxModBase sn :=
      Nat.le_refl _
    unfold raiseHighest
    rw [if_pos low, mod_eq_of_lt bound]
  unfold handleDataPduFull
  rw [if_neg (by simp), if_neg (by rw [inside]; simp; rfl)]
  change (reassembleRxSdus
      (({ (inOrderStored sn).raiseHighest sn with
        vrMs := ((inOrderStored sn).raiseHighest sn).firstMissing mod
          ((inOrderStored sn).raiseHighest sn).vrMs } : Rx).poll { dc := .dataPdu, sn }) >>=
    fun r => Except.ok (r.1.updateReorderingTimer, r.2)) = _
  rw [raised, @firstMissing_congr (inOrderStored sn) { inOrderStored sn with vrH := sn + 1 } rfl]
  change (reassembleRxSdus
      { inOrderStored sn with vrMs := (inOrderStored sn).firstMissing mod sn, vrH := sn + 1 } >>=
    fun r => Except.ok (r.1.updateReorderingTimer, r.2)) = _
  rw [inOrderStored_firstMissing bound, inOrderStored_reassembleRxSdus positive bound]
  change Except.ok ((inOrder (sn + 1)).updateReorderingTimer, _) = _
  unfold updateReorderingTimer
  rw [if_neg (by
    change ¬ (_ && decide (u32Sub (sn + 1) (sn + 1) % mod < u32Sub (sn + 1) (sn + 1) % mod)) = true
    simp)]
  rfl

theorem inOrder_next :
    (inOrder sn).next (.writePdu (fullPdu sn) 3) = some (inOrder (sn + 1)) := by
  have read : readDataPduHeader (fullPdu sn) = .ok ({ dc := .dataPdu, sn }, 2) :=
    readDataPduHeader_fullPdu (by omega)
  have data : isControlPdu (fullPdu sn) = false := by
    have first := (@fullPdu_byte sn (by omega)).1
    simp [isControlPdu, first]
  have handled : (inOrder sn).handleDataPdu (fullPdu sn) 3 = .ok (inOrder (sn + 1), [[7]]) := by
    unfold handleDataPdu
    rw [read]
    exact inOrder_handleDataPduFull positive bound
  dsimp only [next]
  rw [writePdu, if_neg (by simp [data]), handled]
  rfl

end

end

def segmentPdu : Memory := .ofList [0xC8, 0, 0, 0, 1, 2]

theorem inOrder_reached (n : Nat) (bound : n + 1 < mod) :
    Reaches next (fun _ _ => True) {} (inOrder (n + 1)) := by
  induction n with
  | zero =>
    have run : runAllowed next (fun _ _ => true) {}
        [.writePdu segmentPdu 6, .writePdu (fullPdu 0) 3] =
          some { inOrder 1 with
            rxWindow := (CircularMap.overwrite {} 0 ⟨{ dc := .dataPdu }, { msg := [7] }⟩).erase 0 } := rfl
    rw [CircularMap.erase_overwrite rfl] at run
    exact (reaches_of_runAllowed _ run).mono fun _ _ _ => trivial
  | succ n ih => exact .tail (ih (by omega)) trivial (inOrder_next (by omega) (by omega))

theorem staleList_unordered : ¬ ∀ rx : Rx, Reaches next (fun _ _ => True) {} rx → rx.VariablesOrdered := by
  intro ordered
  have step : ∃ rx : Rx, (inOrder 513).next (.writePdu segmentPdu 6) = some rx ∧
      (rx.vrR, rx.vrH) = (513, 513) ∧
      rx.rxSegments.find 0 = some [⟨{ dc := .dataPdu, rf := true, fi := 1 }, { msg := [1, 2] }⟩] :=
    ⟨_, rfl, rfl, rfl⟩
  obtain ⟨rx, stored, variables_, listed⟩ := step
  have reached : Reaches next (fun _ _ => True) {} rx :=
    .tail (inOrder_reached 512 (by decide)) trivial stored
  have below := ((ordered rx reached).segments 0 _ listed (by simp)).2
  obtain ⟨vrR, vrH⟩ := Prod.mk.inj variables_
  unfold rxModBase at below
  rw [vrR, vrH] at below
  exact absurd below (by decide)

end IsrRan.Rlc.AmLte.Rx
