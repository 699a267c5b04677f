import IsrRan.Lib.Transition
import IsrRan.Mac.RaSched
import IsrRan.Mac.SchedNrRb

/-! `si_sched`: the windows of the SI messages and the attempts to send them. -/

namespace IsrRan.Mac.Nr
open List Bool
open IsrRan.Phy (u32 sub32)
open Lte.RaSched (AllocResult)

def maxSibTx : Nat := 8

structure SibCfg where
  len : Nat
  periodRf : Nat
  siWindowSlots : Nat
  -- `sfn() % period_frames`
  periodRf_pos : 0 < periodRf

structure SiMsgCtxt where
  n : Nat
  lenBytes : Nat
  winLenSlots : Nat
  periodFrames : Nat
  nTx : Nat := 0
  result : AllocResult := .invalidCoderate
  winStart : SlotPoint := {}
  deriving DecidableEq, Repr

structure SiBwpParams where
  numerologyIdx : Nat
  slots : List Bool
  coresetPresent0 : Bool
  numerology_lt : numerologyIdx < nofNumerologies
  slots_length : slots.length = 2 ^ numerologyIdx * 10

/-- The grid of a slot: the PRBs that are taken and what `alloc_si` answers. -/
structure SiSlotGrid where
  prbs : PrbBitmap
  allocSi : (aggrIdx siIdx siNtx : Nat) → PrbInterval → AllocResult

section
variable (cfg : SiBwpParams) (slPdcch : SlotPoint)

def startsWindow (si : SiMsgCtxt) : Bool :=
  let x := u32 (sub32 si.n 1 * si.winLenSlots)
  if si.n = 0 then slPdcch.slotIdx == 0 && slPdcch.sfn % 2 == 0
  else slPdcch.sfn % si.periodFrames == x / cfg.slots.length && slPdcch.slotIdx == x % cfg.slots.length

def updateWindow (si : SiMsgCtxt) : Except Fault SiMsgCtxt :=
  if si.winStart.valid = false then
    .ok (if startsWindow cfg slPdcch si then
      { si with
        winStart := slPdcch
        nTx := 0 }
      else si)
  else do
    if ← (si.winStart.add si.winLenSlots).ge slPdcch then
      if si.n = 0 then .ok { si with winStart := si.winStart.clear } else .error .assertionFailed
    else .ok si

def SiMsgCtxt.isCandidate (si : SiMsgCtxt) : Bool := si.winStart.valid && si.nTx < maxSibTx

def SiMsgCtxt.attempted (si : SiMsgCtxt) (result : AllocResult) : SiMsgCtxt :=
  if result = .success then
    { si with
      result := result
      winStart := si.winStart.clear
      nTx := si.nTx + 1 }
  else { si with result := result }

def scheduleSi (grid : SiSlotGrid) (si : SiMsgCtxt) : Except Fault SiMsgCtxt :=
  if si.isCandidate then do
    let grant ← findEmptyIntervalOfLength grid.prbs 8 0
    .ok (si.attempted (if grant.length ≥ 8 then grid.allocSi 2 si.n si.nTx grant else .invalidCoderate))
  else .ok si

def updateWindows (sis : List SiMsgCtxt) : Except Fault (List SiMsgCtxt) :=
  if cfg.coresetPresent0 then sis.mapM (updateWindow cfg slPdcch) else .ok sis

def runSlot (grid : SiSlotGrid) (sis : List SiMsgCtxt) : Except Fault (List SiMsgCtxt) :=
  if cfg.coresetPresent0 = false then .ok sis
  else do
    let sis ← updateWindows cfg slPdcch sis
    match cfg.slots[slPdcch.slotIdx]? with
    | none => .error .assertionFailed
    | some isDl => if isDl then sis.mapM (scheduleSi grid) else .ok sis

end

def initialSis (sibs : List SibCfg) : List SiMsgCtxt :=
  sibs.mapIdx fun i sib =>
    { n := i, lenBytes := sib.len, periodFrames := sib.periodRf, winLenSlots := sib.siWindowSlots }

/-! ### The windows as they should be -/

/-- A message with the slots since the start of the window it waits in, and what was seen of it in the last slot:
whether it had to be and was a candidate for allocation, and whether it was sent. -/
structure Watched where
  si : SiMsgCtxt
  window : Option Nat := none
  due : Bool := false
  candidate : Bool := false
  sent : Bool := false
  deriving DecidableEq, Repr

def advanceWindow (starts : Bool) (winLenSlots : Nat) (window : Option Nat) : Option Nat :=
  match window.bind fun age => if age + 1 < winLenSlots then some (age + 1) else none with
  | some age => some age
  | none => if starts then some 0 else none

def Watched.observe (starts isDl : Bool) (w : Watched) (updated si : SiMsgCtxt) : Watched :=
  let window := advanceWindow starts w.si.winLenSlots w.window
  let candidate := isDl && updated.isCandidate
  let sent := candidate && si.result == .success
  { si := si
    window := if sent then none else window
    due := isDl && window.isSome
    candidate := candidate
    sent := sent }

structure Watched.Kept (w : Watched) : Prop where
  candidate : w.due = true → w.candidate = true
  inside : w.sent = true → w.due = true

structure SiRun where
  slot : SlotPoint
  watched : List Watched

namespace SiRun
variable (cfg : SiBwpParams)

def start (slot : SlotPoint) (sibs : List SibCfg) : SiRun := ⟨slot, (initialSis sibs).map fun si => { si := si }⟩

def isDl (slot : SlotPoint) : Bool := cfg.slots.getD slot.slotIdx false

def starts (slot : SlotPoint) (si : SiMsgCtxt) : Bool := cfg.coresetPresent0 && startsWindow cfg slot si

def step (run : SiRun) (grid : SiSlotGrid) : Except Fault SiRun := do
  let updated ← updateWindows cfg run.slot (run.watched.map Watched.si)
  let sis ← runSlot cfg run.slot grid (run.watched.map Watched.si)
  return ⟨run.slot.succ, zipWith (fun w pair =>
    w.observe (starts cfg run.slot w.si) (isDl cfg run.slot) pair.1 pair.2) run.watched (updated.zip sis)⟩

def Kept (run : SiRun) : Prop := ∀ w ∈ run.watched, w.Kept

def Allocates (grid : SiSlotGrid) (si : SiMsgCtxt) : Prop :=
  ∃ grant, findEmptyIntervalOfLength grid.prbs 8 0 = .ok grant ∧ 8 ≤ grant.length ∧
    grid.allocSi 2 si.n 0 grant = .success

def Clear (run : SiRun) (grid : SiSlotGrid) : Prop :=
  ∀ w ∈ run.watched, w.si.winStart.valid = false → starts cfg run.slot w.si = true →
    isDl cfg run.slot = true ∧ Allocates grid w.si ∨ w.si.n = 0 ∧ w.si.winLenSlots = 1

def Waits (slot : SlotPoint) (w : Watched) : Prop :=
  w.window = none ∧ w.si.winStart.valid = false ∨
    w.window = some 0 ∧ w.si.winStart.valid = true ∧ w.si.winStart.count < w.si.winStart.nofSlotsPerHf ∧
      w.si.winStart.succ = slot ∧ w.si.n = 0 ∧ w.si.winLenSlots = 1 ∧ starts cfg w.si.winStart w.si = true

section
variable {cfg} {slot : SlotPoint} {grid : SiSlotGrid} {w : Watched}

theorem startsWindow_succ {si : SiMsgCtxt} (sib1 : si.n = 0) (starts : startsWindow cfg slot si = true) :
    startsWindow cfg slot.succ si = false := by
  unfold startsWindow at *
  rw [if_pos sib1] at *
  have first : slot.slotIdx = 0 := by
    have := (and_eq_true _ _).mp starts
    exact eq_of_beq this.1
  have ne := @SlotPoint.slotIdx_succ_ne slot
  rw [first] at ne
  rw [and_eq_false_iff]
  exact Or.inl (beq_false_of_ne ne)

theorem updateWindow_idle (idle : w.si.winStart.valid = false) (quiet : starts cfg slot w.si = false) :
    (if cfg.coresetPresent0 then updateWindow cfg slot w.si else .ok w.si) = .ok w.si := by
  split
  · rename_i present
    rw [starts, present, Bool.true_and] at quiet
    rw [updateWindow, if_pos idle, quiet]
    rfl
  · rfl

theorem updateWindow_starts (idle : w.si.winStart.valid = false) (first : starts cfg slot w.si = true) :
    (if cfg.coresetPresent0 then updateWindow cfg slot w.si else .ok w.si) =
      .ok { w.si with
        winStart := slot
        nTx := 0 } := by
  have both := (and_eq_true _ _).mp first
  rw [if_pos both.1, updateWindow, if_pos idle, if_pos both.2]

theorem scheduleSi_skips {si : SiMsgCtxt} (skipped : si.isCandidate = false) : scheduleSi grid si = .ok si := by
  rw [scheduleSi, skipped]
  rfl

theorem scheduleSi_tries {si : SiMsgCtxt} (tried : si.isCandidate = true) :
    ∃ result, scheduleSi grid si = .ok (si.attempted result) ∧
      ∀ grant, findEmptyIntervalOfLength grid.prbs 8 0 = .ok grant → 8 ≤ grant.length →
        result = grid.allocSi 2 si.n si.nTx grant := by
  obtain ⟨grant, found⟩ := @emptyIntervalLoop_runs grid.prbs 8 0 {} (Nat.zero_le _)
  change findEmptyIntervalOfLength grid.prbs 8 0 = .ok grant at found
  refine ⟨if grant.length ≥ 8 then grid.allocSi 2 si.n si.nTx grant else .invalidCoderate, ?_, ?_⟩
  · rw [scheduleSi, if_pos tried, found]
    rfl
  · intro other same long
    rw [found] at same
    obtain rfl := Except.ok.inj same
    exact if_pos long

variable (cfg slot grid w) in
def GoesWell : Prop :=
  ∃ u s, (if cfg.coresetPresent0 then updateWindow cfg slot w.si else .ok w.si) = .ok u ∧
    (if cfg.coresetPresent0 && isDl cfg slot then scheduleSi grid u else .ok u) = .ok s ∧
    (w.observe (starts cfg slot w.si) (isDl cfg slot) u s).Kept ∧
    Waits cfg slot.succ (w.observe (starts cfg slot w.si) (isDl cfg slot) u s)

theorem goesWell_of_quiet (none_ : w.window = none) (idle : w.si.winStart.valid = false)
    (quiet : starts cfg slot w.si = false) : GoesWell cfg slot grid w := by
  have skipped : w.si.isCandidate = false := by rw [SiMsgCtxt.isCandidate, idle, Bool.false_and]
  refine ⟨w.si, w.si, updateWindow_idle idle quiet, by rw [scheduleSi_skips skipped, ite_self], ?_⟩
  have observed : w.observe false (isDl cfg slot) w.si w.si = ⟨w.si, none, false, false, false⟩ := by
    simp [Watched.observe, none_, advanceWindow, skipped]
  rw [quiet, observed]
  exact ⟨⟨fun h => h, fun h => h⟩, Or.inl ⟨rfl, idle⟩⟩

theorem waits_of_missed {si : SiMsgCtxt} {due candidate sent : Bool} (valid : slot.valid = true)
    (inside : slot.count < slot.nofSlotsPerHf) (started : starts cfg slot w.si = true)
    (sib1 : w.si.n = 0 ∧ w.si.winLenSlots = 1) (start : si.winStart = slot) (n : si.n = w.si.n)
    (len : si.winLenSlots = w.si.winLenSlots) : Waits cfg slot.succ ⟨si, some 0, due, candidate, sent⟩ := by
  refine Or.inr ⟨rfl, ?_⟩
  rw [start, n, len]
  refine ⟨valid, inside, rfl, sib1.1, sib1.2, ?_⟩
  unfold starts startsWindow at started ⊢
  rw [if_pos sib1.1] at started
  rw [n, if_pos sib1.1]
  exact started

theorem goesWell_of_start (valid : slot.valid = true) (inside : slot.count < slot.nofSlotsPerHf)
    (none_ : w.window = none) (idle : w.si.winStart.valid = false) (first : starts cfg slot w.si = true)
    (clear : isDl cfg slot = true ∧ Allocates grid w.si ∨ w.si.n = 0 ∧ w.si.winLenSlots = 1) :
    GoesWell cfg slot grid w := by
  have present : cfg.coresetPresent0 = true := ((and_eq_true _ _).mp first).1
  have window : advanceWindow true w.si.winLenSlots w.window = some 0 := by rw [none_]; rfl
  generalize updated : ({ w.si with
    winStart := slot
    nTx := 0 } : SiMsgCtxt) = u
  have update := updateWindow_starts idle first
  have tried : u.isCandidate = true := by
    rw [← updated, SiMsgCtxt.isCandidate, valid]
    rfl
  rw [updated] at update
  unfold GoesWell
  rw [first, present, Bool.true_and]
  cases dl : isDl cfg slot with
  | false =>
    have sib1 := clear.resolve_left fun h => Bool.false_ne_true (dl.symm.trans h.1)
    refine ⟨u, u, by rw [if_pos rfl, ← update, if_pos present], rfl, ?_⟩
    have observed : w.observe true false u u = ⟨u, some 0, false, false, false⟩ := by
      simp [Watched.observe, window]
    rw [observed]
    exact ⟨⟨fun h => h, fun h => h⟩, waits_of_missed valid inside first sib1 (by rw [← updated])
      (by rw [← updated]) (by rw [← updated])⟩
  | true =>
    obtain ⟨result, run, answer⟩ := @scheduleSi_tries grid _ tried
    refine ⟨u, u.attempted result, by rw [if_pos rfl, ← update, if_pos present], by rw [if_pos rfl, run], ?_⟩
    unfold SiMsgCtxt.attempted
    by_cases success : result = AllocResult.success
    · rw [if_pos success]
      have observed : ∀ s : SiMsgCtxt, s.result = .success →
          w.observe true true u s = ⟨s, none, true, true, true⟩ := by
        intro s eq
        simp [Watched.observe, window, tried, eq]
      rw [observed _ success]
      exact ⟨⟨fun h => h, fun h => h⟩, Or.inl ⟨rfl, rfl⟩⟩
    · have sib1 := clear.resolve_left fun ⟨_, grant, found, long, taken⟩ => success (by
        rw [answer grant found long, ← updated]
        exact taken)
      rw [if_neg success]
      have observed : ∀ s : SiMsgCtxt, s.result ≠ .success →
          w.observe true true u s = ⟨s, some 0, true, true, false⟩ := by
        intro s ne
        simp [Watched.observe, window, tried, ne]
      rw [observed _ success]
      exact ⟨⟨fun h => h, fun h => absurd h Bool.false_ne_true⟩, waits_of_missed valid inside first sib1
        (by rw [← updated]) (by rw [← updated]) (by rw [← updated])⟩

theorem goesWell_of_missed (some_ : w.window = some 0) (open_ : w.si.winStart.valid = true)
    (within : w.si.winStart.count < w.si.winStart.nofSlotsPerHf) (next : w.si.winStart.succ = slot)
    (sib1 : w.si.n = 0) (single : w.si.winLenSlots = 1) (started : starts cfg w.si.winStart w.si = true) :
    GoesWell cfg slot grid w := by
  obtain ⟨present, started⟩ := (and_eq_true _ _).mp started
  have quiet : startsWindow cfg slot w.si = false := next ▸ startsWindow_succ sib1 started
  have ends : (w.si.winStart.add w.si.winLenSlots).ge slot = .ok true := by
    rw [single, SlotPoint.add_one open_ within]
    exact SlotPoint.ge_self_of_eq next
  have window : advanceWindow false w.si.winLenSlots w.window = none := by rw [some_, single]; rfl
  generalize closed : ({ w.si with winStart := w.si.winStart.clear } : SiMsgCtxt) = u
  have update : updateWindow cfg slot w.si = .ok u := by
    rw [updateWindow, if_neg (by rw [open_]; exact Bool.noConfusion), ends]
    show (if w.si.n = 0 then _ else _) = _
    rw [if_pos sib1, closed]
  have skipped : u.isCandidate = false := by rw [← closed]; rfl
  refine ⟨u, u, by rw [if_pos present, update], by rw [scheduleSi_skips skipped, ite_self], ?_⟩
  have observed : w.observe false (isDl cfg slot) u u = ⟨u, none, false, false, false⟩ := by
    simp [Watched.observe, window, skipped]
  rw [starts, quiet, Bool.and_false, observed]
  exact ⟨⟨fun h => h, fun h => h⟩, Or.inl ⟨rfl, by rw [← closed]; rfl⟩⟩

end

section
variable {cfg} {run : SiRun} {grid : SiSlotGrid}

theorem mapM_map_eq {α β γ : Type} {f : β → Except Fault γ} {h : α → β} {g : α → γ} {l : List α}
    (each : ∀ a ∈ l, f (h a) = .ok (g a)) : (l.map h).mapM f = .ok (l.map g) := by
  induction l with
  | nil => rfl
  | cons a l ih =>
    rw [map_cons, mapM_cons, each a (by simp), ih fun b mem => each b (mem_cons_of_mem _ mem)]
    rfl

theorem zipWith_maps {α β γ : Type} (f : α → β → γ) (g : α → β) (l : List α) :
    zipWith f l (l.map g) = l.map fun a => f a (g a) := by
  induction l with
  | nil => rfl
  | cons a l ih => rw [map_cons, zipWith_cons_cons, ih, map_cons]

theorem slots_get {slot : SlotPoint} (numerology : slot.numerology = cfg.numerologyIdx) :
    cfg.slots[slot.slotIdx]? = some (isDl cfg slot) := by
  have frame : slot.nofSlotsPerFrame = cfg.slots.length := by
    rw [cfg.slots_length, SlotPoint.nofSlotsPerFrame, numerology]
  have within : slot.slotIdx < cfg.slots.length := by
    have := @SlotPoint.nofSlotsPerFrame_ge slot
    rw [SlotPoint.slotIdx, frame]
    exact Nat.mod_lt _ (by omega)
  rw [isDl, getD_eq_getElem?_getD, List.getElem?_eq_getElem within, Option.getD_some]

section
variable {u s : Watched → SiMsgCtxt}

theorem updateWindows_eq (updates : ∀ w ∈ run.watched,
      (if cfg.coresetPresent0 then updateWindow cfg run.slot w.si else .ok w.si) = .ok (u w)) :
    updateWindows cfg run.slot (run.watched.map Watched.si) = .ok (run.watched.map u) := by
  unfold updateWindows
  split
  · rename_i present
    refine mapM_map_eq fun w mem => ?_
    rw [← updates w mem, if_pos present]
  · rename_i absent
    congr 1
    refine map_congr_left fun w mem => ?_
    have update := updates w mem
    rw [if_neg absent] at update
    exact Except.ok.inj update

theorem runSlot_eq (numerology : run.slot.numerology = cfg.numerologyIdx)
    (updates : ∀ w ∈ run.watched,
      (if cfg.coresetPresent0 then updateWindow cfg run.slot w.si else .ok w.si) = .ok (u w))
    (schedules : ∀ w ∈ run.watched,
      (if cfg.coresetPresent0 && isDl cfg run.slot then scheduleSi grid (u w) else .ok (u w)) = .ok (s w)) :
    runSlot cfg run.slot grid (run.watched.map Watched.si) = .ok (run.watched.map s) := by
  unfold runSlot
  cases present : cfg.coresetPresent0 with
  | false =>
    rw [if_pos rfl]
    congr 1
    refine map_congr_left fun w mem => ?_
    have update := updates w mem
    have schedule := schedules w mem
    rw [present] at update schedule
    exact (Except.ok.inj update).trans (Except.ok.inj schedule)
  | true =>
    rw [updateWindows_eq updates]
    simp only [slots_get numerology]
    cases dl : isDl cfg run.slot with
    | false =>
      show Except.ok _ = _
      congr 1
      refine map_congr_left fun w mem => ?_
      have schedule := schedules w mem
      rw [present, dl] at schedule
      exact Except.ok.inj schedule
    | true =>
      refine mapM_map_eq fun w mem => ?_
      have schedule := schedules w mem
      rw [present, dl] at schedule
      exact schedule

end

variable (cfg run) in
structure Inv : Prop where
  numerology : run.slot.numerology = cfg.numerologyIdx
  inside : run.slot.count < run.slot.nofSlotsPerHf
  waits : ∀ w ∈ run.watched, Waits cfg run.slot w
  kept : run.Kept

theorem step_ok {updated sis : List SiMsgCtxt}
    (update : updateWindows cfg run.slot (run.watched.map Watched.si) = .ok updated)
    (ran : runSlot cfg run.slot grid (run.watched.map Watched.si) = .ok sis) :
    step cfg run grid = .ok ⟨run.slot.succ, zipWith (fun w pair =>
      w.observe (starts cfg run.slot w.si) (isDl cfg run.slot) pair.1 pair.2) run.watched (updated.zip sis)⟩ := by
  rw [step, update, ran]
  rfl

theorem step_inv (inv : run.Inv cfg) (clear : Clear cfg run grid) :
    ∃ next, step cfg run grid = .ok next ∧ next.Inv cfg := by
  have valid : run.slot.valid = true := by
    rw [SlotPoint.valid, inv.numerology]
    exact decide_eq_true cfg.numerology_lt
  have well : ∀ w ∈ run.watched, GoesWell cfg run.slot grid w := by
    intro w mem
    rcases inv.waits w mem with ⟨none_, idle⟩ | ⟨some_, open_, within, next, sib1, single, started⟩
    · cases first : starts cfg run.slot w.si with
      | false => exact goesWell_of_quiet none_ idle first
      | true => exact goesWell_of_start valid inv.inside none_ idle first (clear w mem idle first)
    · exact goesWell_of_missed some_ open_ within next sib1 single started
  have : Nonempty SiMsgCtxt := ⟨⟨0, 0, 0, 0, 0, .success, {}⟩⟩
  choose! u s updates schedules kept waits using well
  have stepped : step cfg run grid = .ok ⟨run.slot.succ, run.watched.map fun w =>
      w.observe (starts cfg run.slot w.si) (isDl cfg run.slot) (u w) (s w)⟩ := by
    rw [step_ok (updateWindows_eq updates) (runSlot_eq inv.numerology updates schedules), zip_map', zipWith_maps]
  refine ⟨_, stepped, ?_⟩
  constructor
  case numerology => exact inv.numerology
  case inside => exact SlotPoint.succ_inside inv.inside
  case waits =>
    intro w' mem
    obtain ⟨w, old, rfl⟩ := List.mem_map.mp mem
    exact waits w old
  case kept =>
    intro w' mem
    obtain ⟨w, old, rfl⟩ := List.mem_map.mp mem
    exact kept w old

theorem start_inv {slot : SlotPoint} (sibs : List SibCfg) (numerology : slot.numerology = cfg.numerologyIdx)
    (inside : slot.count < slot.nofSlotsPerHf) : (start slot sibs).Inv cfg := by
  refine ⟨numerology, inside, ?_, ?_⟩
  · intro w mem
    obtain ⟨si, initial, rfl⟩ := List.mem_map.mp mem
    obtain ⟨i, within, rfl⟩ := List.mem_mapIdx.mp initial
    exact Or.inl ⟨rfl, rfl⟩
  · intro w mem
    obtain ⟨si, -, rfl⟩ := List.mem_map.mp mem
    exact ⟨fun h => h, fun h => h⟩

end
end SiRun

theorem siWindows_kept (cfg : SiBwpParams) (slot : SlotPoint) (sibs : List SibCfg) (grids : List SiSlotGrid)
    (numerology : slot.numerology = cfg.numerologyIdx) (inside : slot.count < slot.nofSlotsPerHf)
    (clear : Lib.EachStep (SiRun.step cfg) (SiRun.Clear cfg) (SiRun.start slot sibs) grids) :
    Lib.AllAlong (SiRun.step cfg) SiRun.Kept (SiRun.start slot sibs) grids :=
  (Lib.allAlong_of_eachStep (fun _ _ => SiRun.step_inv) (SiRun.start_inv sibs numerology inside) clear).mono
    fun _ inv => inv.kept

def fddCfg : SiBwpParams where
  numerologyIdx := 0
  slots := replicate 10 true
  coresetPresent0 := true
  numerology_lt := by decide
  slots_length := rfl

def sib1AndSi : List SibCfg := [⟨100, 16, 160, by decide⟩, ⟨50, 16, 20, by decide⟩]

def fullGrid : SiSlotGrid := ⟨⟨52, 2 ^ 52 - 1⟩, fun _ _ _ _ => .noSchSpace⟩

def freeGrid : SiSlotGrid := ⟨⟨52, 0⟩, fun _ _ _ _ => .success⟩

theorem fullGrid_interval : findEmptyIntervalOfLength fullGrid.prbs 8 0 = .ok {} := by
  have next : findNextEmptyInterval fullGrid.prbs 0 fullGrid.prbs.size = .ok {} := rfl
  unfold findEmptyIntervalOfLength emptyIntervalLoop
  split
  · simp_all
  · rename_i interv found
    obtain rfl := Except.ok.inj (next.symm.trans found)
    rfl

theorem freeGrid_interval : findEmptyIntervalOfLength freeGrid.prbs 8 0 = .ok ⟨0, 8, by decide⟩ := by
  have next : findNextEmptyInterval freeGrid.prbs 0 freeGrid.prbs.size = .ok ⟨0, 52, by decide⟩ := rfl
  unfold findEmptyIntervalOfLength emptyIntervalLoop
  split
  · simp_all
  · rename_i interv found
    obtain rfl := Except.ok.inj (next.symm.trans found)
    rfl

theorem freeGrid_eachStep (n : Nat) {run : SiRun} (numerology : run.slot.numerology = 0) :
    Lib.EachStep (SiRun.step fddCfg) (SiRun.Clear fddCfg) run (replicate n freeGrid) := by
  induction n generalizing run with
  | zero => trivial
  | succ n ih =>
    have dl : SiRun.isDl fddCfg run.slot = true :=
      eq_of_mem_replicate (mem_of_getElem? (@SiRun.slots_get fddCfg run.slot numerology))
    refine ⟨fun _ _ _ _ => Or.inl ⟨dl, _, freeGrid_interval, by decide, rfl⟩, fun next stepped => ih ?_⟩
    obtain ⟨_, _, stepped⟩ := bind_eq_ok.mp stepped
    obtain ⟨_, _, stepped⟩ := bind_eq_ok.mp stepped
    cases stepped
    exact numerology

theorem siWindows_kept_free :
    Lib.AllAlong (SiRun.step fddCfg) SiRun.Kept (SiRun.start ⟨0, 0⟩ sib1AndSi) (replicate 400 freeGrid) :=
  siWindows_kept fddCfg ⟨0, 0⟩ sib1AndSi _ rfl (by decide) (freeGrid_eachStep 400 rfl)

theorem fullGrid_assertion : ¬ ∀ (cfg : SiBwpParams) (slot : SlotPoint) (sibs : List SibCfg)
    (grids : List SiSlotGrid), slot.numerology = cfg.numerologyIdx → slot.count < slot.nofSlotsPerHf →
      Lib.AllAlong (SiRun.step cfg) SiRun.Kept (SiRun.start slot sibs) grids := by
  intro all
  obtain ⟨-, first, eq, -, second, fails, -⟩ :=
    all fddCfg ⟨0, 0⟩ sib1AndSi [fullGrid, freeGrid] rfl (by decide)
  have ran : runSlot fddCfg ⟨0, 0⟩ fullGrid (initialSis sib1AndSi) =
      .ok ((initialSis sib1AndSi).map fun si => { si with winStart := ⟨0, 0⟩ }) := by
    show ((initialSis sib1AndSi).map fun si => { si with winStart := ⟨0, 0⟩ }).mapM (scheduleSi fullGrid) = _
    refine SiRun.mapM_map_eq fun si mem => ?_
    have untouched : si.nTx = 0 ∧ si.result = .invalidCoderate := by
      obtain ⟨i, within, rfl⟩ := List.mem_mapIdx.mp mem
      exact ⟨rfl, rfl⟩
    rw [scheduleSi, if_pos (by rw [SiMsgCtxt.isCandidate, untouched.1]; rfl), fullGrid_interval]
    show Except.ok (SiMsgCtxt.attempted _ AllocResult.invalidCoderate) = _
    rw [SiMsgCtxt.attempted, if_neg (by decide), ← untouched.2]
  have started := @SiRun.step_ok fddCfg (SiRun.start ⟨0, 0⟩ sib1AndSi) fullGrid
    ((initialSis sib1AndSi).map fun si => { si with winStart := ⟨0, 0⟩ }) _ rfl ran
  obtain rfl := Except.ok.inj (started.symm.trans eq)
  have trips : (SiRun.step fddCfg _ freeGrid).isOk = true := congrArg Except.isOk fails
  exact Bool.noConfusion (trips.symm.trans rfl : true = false)

end IsrRan.Mac.Nr
