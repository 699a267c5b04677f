import IsrRan.Lib.Transition
import IsrRan.Mac.RaSched

/-! The broadcast scheduler (bc_sched): the windows of the SI messages and the attempts to send them. -/

namespace IsrRan.Mac.Lte.BcSched
open Lib List Option TtiPoint
open RaSched (AllocResult)

def maxSibs : Nat := 16

structure CellCfgSib where
  len : Nat
  periodRf : Nat

structure CellCfg where
  sibs : Nat → CellCfgSib
  siWindowMs : Nat
  nofRbgs : Nat

structure SchedSib where
  isInWindow : Bool := false
  windowStart : TtiPoint := .invalid
  nTx : Nat := 0
  deriving DecidableEq

/-- What the subframe has for a message at its `nTx`-th transmission: no interval of so many RBGs, or what `alloc_sib`
answers. -/
abbrev SibGrid := (sibIdx nTx nrbgs : Nat) → Option AllocResult

def sfIdx (tti : TtiPoint) : Nat := tti.ttiVal % 10

def sfn (tti : TtiPoint) : Nat := tti.ttiVal / 10

section
variable (cfg : CellCfg)

def windowOffset (i : Nat) : Nat := if 0 < i then (i - 1) * cfg.siWindowMs % 2 ^ 32 else 0

def starts (i : Nat) (tti : TtiPoint) : Bool :=
  sfn tti % (cfg.sibs i).periodRf = windowOffset cfg i / 10 &&
    sfIdx tti = if 0 < i then windowOffset cfg i % 10 else 5

def updateSiWindow (tti : TtiPoint) (i : Nat) (sib : SchedSib) : Except Fault SchedSib :=
  if (cfg.sibs i).len = 0 then .ok sib
  else if sib.isInWindow = false then
    if (cfg.sibs i).periodRf = 0 then .error .undefinedBehaviour
    else .ok (if starts cfg i tti then ⟨true, tti, 0⟩ else sib)
  else if 0 < i then .ok (if (sib.windowStart.add cfg.siWindowMs).lt tti then {} else sib)
  else .ok (if sib.nTx = 4 then { sib with nTx := 0 } else sib)

def updateSiWindows (tti : TtiPoint) : (Nat → SchedSib) → Except Fault (Nat → SchedSib) :=
  forIndex maxSibs (updateSiWindow cfg tti)

def attempt (alloc : Nat → Option AllocResult) : (left nrbgs : Nat) → AllocResult → AllocResult
  | 0, _, ret => ret
  | left + 1, nrbgs, ret =>
    if ret = .invalidCoderate then
      match alloc nrbgs with
      | none => .noSchSpace
      | some ret => attempt alloc left (nrbgs + 1) ret
    else ret

def result (grid : SibGrid) (sibIdx nTx : Nat) : AllocResult :=
  attempt (grid sibIdx nTx) (cfg.nofRbgs - 1) 1 .invalidCoderate

def nofTx (sibIdx : Nat) : Nat := if 0 < sibIdx then min ((cfg.siWindowMs + 9) % 2 ^ 32 / 10) 4 else 4

def allocSib (grid : SibGrid) (tti : TtiPoint) (sibIdx : Nat) (state : SchedSib × Bool) :
    Except Fault (SchedSib × Bool) :=
  let sib := state.1
  if (cfg.sibs sibIdx).len = 0 || !sib.isInWindow || decide (4 ≤ sib.nTx) then .ok (sib, false)
  else if 0 < sibIdx ∧ nofTx cfg sibIdx = 0 then .error .undefinedBehaviour
  else
    let nSf := (tti.sub sib.windowStart % 2 ^ 32).toNat
    let sib1Flag := sibIdx = 0 ∧ sfn tti % 2 = 0 ∧ sfIdx tti = 5
    let otherSibsFlag := 0 < sibIdx ∧ cfg.siWindowMs / nofTx cfg sibIdx * sib.nTx ≤ nSf ∧ sfIdx tti = 9
    if ¬sib1Flag ∧ ¬otherSibsFlag then .ok (sib, false)
    else if result cfg grid sibIdx sib.nTx = .success then .ok ({ sib with nTx := sib.nTx + 1 }, true)
    else .ok (sib, false)

def dlSched (grid : SibGrid) (tti : TtiPoint) (pendingSibs : Nat → SchedSib) : Except Fault (Nat → SchedSib × Bool) :=
  match updateSiWindows cfg tti pendingSibs with
  | .error e => .error e
  | .ok updated => forIndex maxSibs (allocSib cfg grid tti) fun i => (updated i, false)

end

/-! ### Runs -/

/-- The TTI that comes next; the messages, the TTI in which the last window of each was opened and what has been sent
of it, each time with the TTI of its window. -/
structure BcRun where
  now : Nat
  pendingSibs : Nat → SchedSib
  opened : Nat → Nat
  sent : Nat → List (Nat × Nat)

namespace BcRun

def initial (now : Nat) : BcRun := ⟨now, fun _ => {}, fun _ => 0, fun _ => []⟩

def openedAt (s : BcRun) (after : SchedSib) (i : Nat) : Nat :=
  if after.isInWindow && !(s.pendingSibs i).isInWindow then s.now else s.opened i

def step (cfg : CellCfg) (s : BcRun) (grid : SibGrid) : Option BcRun :=
  match dlSched cfg grid (.ofTti s.now) s.pendingSibs with
  | .error _ => none
  | .ok after => some
      { now := s.now + 1
        pendingSibs := fun i => (after i).1
        opened := fun i => s.openedAt (after i).1 i
        sent := fun i => if (after i).2 then s.sent i ++ [(s.openedAt (after i).1 i, s.now)] else s.sent i }

end BcRun

def Configured (cfg : CellCfg) (i : Nat) : Prop := 0 < i ∧ i < maxSibs ∧ (cfg.sibs i).len ≠ 0

/-- Transmissions lie in windows, at most four in each; and no two windows are open at a time. -/
structure InWindows (cfg : CellCfg) (s : BcRun) : Prop where
  sent : ∀ i, 0 < i → ∀ w ∈ s.sent i, starts cfg i (.ofTti w.1) = true ∧ w.1 ≤ w.2 ∧ w.2 < w.1 + cfg.siWindowMs
  four : ∀ i, 0 < i → ∀ start, (s.sent i).countP (fun w => w.1 = start) ≤ 4
  apart : ∀ i j, 0 < i → 0 < j → i ≠ j → (s.pendingSibs i).isInWindow = true → (s.pendingSibs j).isInWindow = false

def Disjoint (cfg : CellCfg) : Prop :=
  ∀ i j, Configured cfg i → Configured cfg j → i ≠ j → ∀ a b, starts cfg i (.ofTti a) = true →
    starts cfg j (.ofTti b) = true → ∀ n, a ≤ n → n < a + cfg.siWindowMs → b ≤ n → ¬n < b + cfg.siWindowMs

def Clear (cfg : CellCfg) (s : BcRun) (grid : SibGrid) : Prop :=
  ∀ i, 0 < i → (s.pendingSibs i).isInWindow = true → s.opened i + cfg.siWindowMs = s.now →
    (∀ j, Configured cfg j → j ≠ i → starts cfg j (.ofTti s.now) = false) ∧
      (sfIdx (.ofTti s.now) = 9 → result cfg grid i (s.pendingSibs i).nTx ≠ .success)

/-! ### What a TTI does -/

section
variable {cfg : CellCfg} {i : Nat} {sib after : SchedSib}

theorem updateSiWindow_cases {tti : TtiPoint} (si : 0 < i) (ok : updateSiWindow cfg tti i sib = .ok after) :
    after = sib ∧ (sib.isInWindow = true → (cfg.sibs i).len ≠ 0 → (sib.windowStart.add cfg.siWindowMs).lt tti = false) ∨
      (sib.isInWindow = false ∧ (cfg.sibs i).len ≠ 0 ∧ starts cfg i tti = true ∧ after = ⟨true, tti, 0⟩) ∨
      after = {} := by
  unfold updateSiWindow at ok
  split at ok
  · rename_i none_
    exact .inl ⟨(Except.ok.inj ok).symm, fun _ some_ => absurd none_ some_⟩
  · rename_i some_
    split at ok
    · rename_i outside
      split at ok
      · cases ok
      · have eq := Except.ok.inj ok
        split at eq
        · rename_i first
          exact .inr (.inl ⟨outside, some_, first, eq.symm⟩)
        · exact .inl ⟨eq.symm, fun inside => absurd (inside.symm.trans outside) nofun⟩
    · have eq := Except.ok.inj ok
      split at eq
      · exact .inr (.inr eq.symm)
      · rename_i open_
        exact .inl ⟨eq.symm, fun _ _ => Bool.eq_false_iff.mpr open_⟩

theorem allocSib_cases {grid : SibGrid} {tti : TtiPoint} {sent : Bool} (si : 0 < i)
    (ok : allocSib cfg grid tti i (sib, false) = .ok (after, sent)) :
    ((cfg.sibs i).len ≠ 0 → sib.isInWindow = true → sib.nTx < 4 → cfg.siWindowMs ≠ 0) ∧
      ((sent = false ∧ after = sib) ∨
        (sent = true ∧ sib.isInWindow = true ∧ sib.nTx < 4 ∧ sfIdx tti = 9 ∧ result cfg grid i sib.nTx = .success ∧
          after = { sib with nTx := sib.nTx + 1 })) := by
  unfold allocSib at ok
  dsimp only at ok
  split at ok
  · rename_i skipped
    obtain ⟨rfl, rfl⟩ := Prod.mk.inj (Except.ok.inj ok)
    refine ⟨fun some_ inside few => ?_, .inl ⟨rfl, rfl⟩⟩
    simp [inside] at skipped
    omega
  · rename_i tried
    simp only [Bool.or_eq_true, decide_eq_true_eq, Bool.not_eq_true', not_or, Bool.not_eq_false, Nat.not_le] at tried
    obtain ⟨⟨-, inside⟩, few⟩ := tried
    split at ok
    · cases ok
    · rename_i nonzero
      have window : cfg.siWindowMs ≠ 0 := by
        intro zero
        apply nonzero
        refine ⟨si, ?_⟩
        unfold nofTx
        rw [if_pos si, zero]
        rfl
      refine ⟨fun _ _ _ => window, ?_⟩
      split at ok
      · obtain ⟨rfl, rfl⟩ := Prod.mk.inj (Except.ok.inj ok)
        exact .inl ⟨rfl, rfl⟩
      · rename_i flagged
        have subframe : sfIdx tti = 9 := by
          by_contra other
          exact flagged ⟨fun first => absurd first.1 (Nat.ne_of_gt si), fun flag => other flag.2.2⟩
        split at ok
        · rename_i success
          obtain ⟨rfl, rfl⟩ := Prod.mk.inj (Except.ok.inj ok)
          exact .inr ⟨rfl, inside, few, subframe, success, rfl⟩
        · obtain ⟨rfl, rfl⟩ := Prod.mk.inj (Except.ok.inj ok)
          exact .inl ⟨rfl, rfl⟩

theorem add_eq_or (t jump : Nat) : (∃ e ≤ jump, (ofTti t).add jump = .ofTti (t + e)) ∨
    2 ^ 31 ≤ ((ofTti t).add jump).ttiVal := by
  -- the distance round the clock
  have near : ∀ val, val < 10240 → (10240 ≤ jump ∨ val = (t + jump) % 10240) →
      ∃ e ≤ jump, (⟨val⟩ : TtiPoint) = .ofTti (t + e) := by
    intro val inside reason
    rcases reason with large | rfl
    · refine ⟨(val + 10240 - t % 10240) % 10240, by omega, congrArg TtiPoint.mk ?_⟩
      omega
    · exact ⟨jump, le_rfl, rfl⟩
  unfold TtiPoint.add ofUint
  rw [ttiVal_ofTti]
  split
  · by_cases wraps : 2 ^ 32 ≤ 10240 + (t % 10240 + jump) % 2 ^ 32
    · exact .inl (near _ (by omega) (.inl (by omega)))
    · right
      dsimp only
      omega
  · exact .inl (near _ (Nat.mod_lt _ (by decide)) (by omega))

theorem window_end (t jump : Nat) :
    ∃ e ≤ jump, ∀ k ≤ e + 1, 0 < k → ((ofTti t).add jump).lt (.ofTti (t + k)) = false → k ≤ e := by
  rcases add_eq_or t jump with ⟨e, bound, eq⟩ | beyond
  · refine ⟨e, bound, fun k within _ open_ => ?_⟩
    by_contra late
    rw [eq, lt_ofTti (by omega) (by omega), decide_eq_false_iff_not] at open_
    omega
  · refine ⟨0, Nat.zero_le _, fun k _ _ open_ => ?_⟩
    unfold TtiPoint.lt at open_
    rw [ttiVal_ofTti, decide_eq_false (show ¬((ofTti t).add jump).ttiVal < (t + k) % 10240 by omega)]
      at open_
    simp at open_
    omega

end

namespace BcRun
variable {cfg : CellCfg} {s t : BcRun} {grid : SibGrid} {i : Nat}

def Sends (cfg : CellCfg) (grid : SibGrid) (s t : BcRun) (i : Nat) (u : SchedSib) : Prop :=
  (t.pendingSibs i = u ∧ t.sent i = s.sent i) ∨
    (t.pendingSibs i = { u with nTx := u.nTx + 1 } ∧ t.sent i = s.sent i ++ [(t.opened i, s.now)] ∧ u.nTx < 4 ∧
      sfIdx (.ofTti s.now) = 9 ∧ result cfg grid i u.nTx = .success)

theorem step_cases (si : 0 < i) (next : step cfg s grid = some t) :
    ((t.pendingSibs i).isInWindow = false ∧ t.sent i = s.sent i) ∨
      (s.pendingSibs i).isInWindow = true ∧ t.opened i = s.opened i ∧ Sends cfg grid s t i (s.pendingSibs i) ∧
        (Configured cfg i → (((s.pendingSibs i).windowStart.add cfg.siWindowMs).lt (.ofTti s.now)) = false) ∨
      Configured cfg i ∧ starts cfg i (.ofTti s.now) = true ∧ t.opened i = s.now ∧ cfg.siWindowMs ≠ 0 ∧
        (s.pendingSibs i).isInWindow = false ∧ Sends cfg grid s t i ⟨true, .ofTti s.now, 0⟩ := by
  unfold step at next
  split at next
  · cases next
  · rename_i after ok
    obtain rfl := Option.some.inj next
    unfold dlSched at ok
    split at ok
    · cases ok
    · rename_i u updated
      have before := forIndex_ok updated
      have attempts := forIndex_ok ok
      by_cases inside : i < maxSibs
      · have allocated : allocSib cfg grid (.ofTti s.now) i (u i, false) = .ok ((after i).1, (after i).2) :=
          attempts.1 i inside
        obtain ⟨window, sends⟩ := allocSib_cases si allocated
        rcases updateSiWindow_cases si (before.1 i inside) with ⟨same, open_⟩ | ⟨outside, some_, first, opens⟩ | closed
        · rw [same] at sends
          cases held : (s.pendingSibs i).isInWindow with
          | false =>
            rcases sends with ⟨unsent, stays⟩ | ⟨-, window, -⟩
            · exact .inl ⟨(congrArg SchedSib.isInWindow stays).trans held, if_neg (by rw [unsent]; decide)⟩
            · exact absurd (window.symm.trans held) nofun
          | true =>
            have kept : s.openedAt (after i).1 i = s.opened i := by
              unfold openedAt
              rw [held, Bool.not_true, Bool.and_false]
              rfl
            refine .inr (.inl ⟨rfl, kept, ?_, fun configured => open_ held configured.2.2⟩)
            rcases sends with ⟨unsent, stays⟩ | ⟨sent, -, few, subframe, success, stays⟩
            · exact .inl ⟨stays, if_neg (by rw [unsent]; decide)⟩
            · exact .inr ⟨stays, if_pos sent, few, subframe, success⟩
        · rw [opens] at sends window
          have inWindow : (after i).1.isInWindow = true := by
            rcases sends with ⟨-, stays⟩ | ⟨-, -, -, -, -, stays⟩ <;> rw [stays]
          have new : s.openedAt (after i).1 i = s.now := by
            unfold openedAt
            rw [outside, inWindow]
            rfl
          refine .inr (.inr ⟨⟨si, inside, some_⟩, first, new, window some_ rfl (by decide : 0 < 4), outside, ?_⟩)
          rcases sends with ⟨unsent, stays⟩ | ⟨sent, -, few, subframe, success, stays⟩
          · exact .inl ⟨stays, if_neg (by rw [unsent]; decide)⟩
          · exact .inr ⟨stays, if_pos sent, few, subframe, success⟩
        · rw [closed] at sends
          rcases sends with ⟨unsent, stays⟩ | ⟨-, window, -⟩
          · exact .inl ⟨congrArg SchedSib.isInWindow stays, if_neg (by rw [unsent]; decide)⟩
          · cases window
      · have beyond := Nat.le_of_not_lt inside
        have same : after i = (s.pendingSibs i, false) :=
          (attempts.2 i beyond).trans (congrArg (fun sib => (sib, false)) (before.2 i beyond))
        cases held : (s.pendingSibs i).isInWindow with
        | false => exact .inl ⟨(congrArg (fun state => state.1.isInWindow) same).trans held, if_neg (by rw [same]; exact Bool.false_ne_true)⟩
        | true =>
          refine .inr (.inl ⟨rfl, ?_, .inl ⟨congrArg Prod.fst same, if_neg (by rw [same]; exact Bool.false_ne_true)⟩, fun configured =>
            absurd configured.2.1 inside⟩)
          show s.openedAt (after i).1 i = s.opened i
          unfold openedAt
          rw [held, Bool.not_true, Bool.and_false]
          rfl

structure Held (cfg : CellCfg) (s : BcRun) (i : Nat) : Prop where
  configured : Configured cfg i
  start_eq : (s.pendingSibs i).windowStart = .ofTti (s.opened i)
  starts : starts cfg i (.ofTti (s.opened i)) = true
  before : s.opened i < s.now
  open_ : ∃ e ≤ cfg.siWindowMs, s.now ≤ s.opened i + e + 1 ∧ ∀ k ≤ e + 1, 0 < k →
    ((ofTti (s.opened i)).add cfg.siWindowMs).lt (.ofTti (s.opened i + k)) = false → k ≤ e
  count : (s.pendingSibs i).nTx = (s.sent i).countP fun w => w.1 = s.opened i
  few : (s.pendingSibs i).nTx ≤ 4

structure Inv (cfg : CellCfg) (s : BcRun) : Prop where
  held : ∀ i, 0 < i → (s.pendingSibs i).isInWindow = true → Held cfg s i
  past : ∀ i, 0 < i → ∀ w ∈ s.sent i, w.1 ≤ w.2 ∧ w.2 < s.now
  kept : InWindows cfg s

theorem inv_initial (cfg : CellCfg) (now : Nat) : Inv cfg (initial now) :=
  ⟨fun _ _ inside => (nomatch inside), fun _ _ _ mem => absurd mem not_mem_nil,
    fun _ _ _ mem => absurd mem not_mem_nil, fun _ _ _ => Nat.zero_le 4, fun _ _ _ _ _ inside => (nomatch inside)⟩

theorem step_now (next : step cfg s grid = some t) : t.now = s.now + 1 := by
  unfold step at next
  split at next
  · cases next
  · rw [← Option.some.inj next]

theorem Held.late (held : Held cfg s i) : s.now ≤ s.opened i + cfg.siWindowMs + 1 := by
  obtain ⟨e, bound, last, -⟩ := held.open_
  omega

theorem Sends.count {u : SchedSib} (sends : Sends cfg grid s t i u) (few : u.nTx ≤ 4)
    (count : u.nTx = (s.sent i).countP fun w => w.1 = t.opened i) :
    (t.pendingSibs i).nTx = ((t.sent i).countP fun w => w.1 = t.opened i) ∧ (t.pendingSibs i).nTx ≤ 4 := by
  rcases sends with ⟨stays, unsent⟩ | ⟨stays, sent, room, -⟩
  · rw [stays, unsent]
    exact ⟨count, few⟩
  · rw [stays, sent, countP_append, ← count, countP_singleton, if_pos (decide_eq_true rfl)]
    exact ⟨rfl, room⟩

theorem Sends.windowStart {u : SchedSib} (sends : Sends cfg grid s t i u) :
    (t.pendingSibs i).windowStart = u.windowStart := by
  rcases sends with ⟨stays, -⟩ | ⟨stays, -⟩ <;> rw [stays]

theorem Sends.window {u : SchedSib} (sends : Sends cfg grid s t i u) :
    (t.pendingSibs i).isInWindow = u.isInWindow := by
  rcases sends with ⟨stays, -⟩ | ⟨stays, -⟩ <;> rw [stays]

theorem Sends.four {u : SchedSib} (sends : Sends cfg grid s t i u) (inside : u.isInWindow = true)
    (held : (t.pendingSibs i).isInWindow = true → Held cfg t i) (start : Nat)
    (before : (s.sent i).countP (fun w => w.1 = start) ≤ 4) : (t.sent i).countP (fun w => w.1 = start) ≤ 4 := by
  have now := held (sends.window.trans inside)
  rcases sends with ⟨-, unsent⟩ | ⟨-, sent, -⟩
  · rwa [unsent]
  · by_cases current : start = t.opened i
    · rw [current, ← now.count]
      exact now.few
    · rw [sent, countP_append, countP_singleton, if_neg (by simpa using Ne.symm current)]
      exact before

theorem Inv.held_step (inv : Inv cfg s) (si : 0 < i) (next : step cfg s grid = some t)
    (window : (t.pendingSibs i).isInWindow = true) : Held cfg t i := by
  have later := step_now next
  rcases step_cases si next with ⟨outside, -⟩ | ⟨inside, same, sends, open_⟩ | ⟨configured, first, new, -, -, sends⟩
  · exact absurd (outside.symm.trans window) nofun
  · have held := inv.held i si inside
    obtain ⟨e, bound, last, closes⟩ := held.open_
    have before := held.before
    have stillOpen := open_ held.configured
    rw [held.start_eq, show s.now = s.opened i + (s.now - s.opened i) by omega] at stillOpen
    have short := closes _ (by omega) (by omega) stillOpen
    obtain ⟨count, few⟩ := sends.count held.few (same ▸ held.count)
    refine ⟨held.configured, ?_, same ▸ held.starts, by omega, ?_, count, few⟩
    · rw [sends.windowStart, same]
      exact held.start_eq
    · rw [same]
      exact ⟨e, bound, by omega, closes⟩
  · have none_ : (s.sent i).countP (fun w => w.1 = t.opened i) = 0 := by
      rw [countP_eq_zero]
      intro w mem same
      have past := inv.past i si w mem
      have eq := of_decide_eq_true same
      omega
    obtain ⟨count, few⟩ := sends.count (Nat.zero_le 4) none_.symm
    obtain ⟨e, bound, closes⟩ := window_end s.now cfg.siWindowMs
    refine ⟨configured, ?_, new ▸ first, by omega, ?_, count, few⟩
    · rw [sends.windowStart, new]
    · rw [new]
      exact ⟨e, bound, by omega, closes⟩

theorem Inv.sends_inside (inv : Inv cfg s) (clear : Clear cfg s grid) (si : 0 < i) (next : step cfg s grid = some t)
    {w : Nat × Nat} (mem : w ∈ t.sent i) :
    w ∈ s.sent i ∨ (w = (t.opened i, s.now) ∧ (t.pendingSibs i).isInWindow = true ∧
      t.opened i ≤ s.now ∧ s.now < t.opened i + cfg.siWindowMs) := by
  rcases step_cases si next with ⟨-, unsent⟩ | ⟨inside, same, sends, open_⟩ | ⟨-, -, new, some_, -, sends⟩
  · rw [unsent] at mem
    exact .inl mem
  · rcases sends with ⟨-, unsent⟩ | ⟨stays, sent, -, subframe, success⟩
    · rw [unsent] at mem
      exact .inl mem
    · rw [sent] at mem
      rcases List.mem_append.mp mem with old | new
      · exact .inl old
      · have window : (t.pendingSibs i).isInWindow = true := (congrArg SchedSib.isInWindow stays).trans inside
        have late := (inv.held_step si next window).late
        have before := (inv.held i si inside).before
        have later := step_now next
        refine .inr ⟨List.mem_singleton.mp new, window, by omega, ?_⟩
        by_contra over_
        have ends : s.opened i + cfg.siWindowMs = s.now := by omega
        exact (clear i si inside ends).2 subframe success
  · rcases sends with ⟨-, unsent⟩ | ⟨stays, sent, -⟩
    · rw [unsent] at mem
      exact .inl mem
    · rw [sent] at mem
      rcases List.mem_append.mp mem with old | last
      · exact .inl old
      · exact .inr ⟨List.mem_singleton.mp last, congrArg SchedSib.isInWindow stays, by omega, by omega⟩

theorem Inv.over_alone (inv : Inv cfg s) (clear : Clear cfg s grid) {j : Nat} (si : 0 < i) (sj : 0 < j) (differ : i ≠ j)
    (next : step cfg s grid = some t) (windowI : (t.pendingSibs i).isInWindow = true)
    (windowJ : (t.pendingSibs j).isInWindow = true) : s.now < t.opened i + cfg.siWindowMs := by
  have late := (inv.held_step si next windowI).late
  have later := step_now next
  by_contra over_
  rcases step_cases si next with ⟨outside, -⟩ | ⟨inside, same, -⟩ | ⟨-, -, new, some_, -⟩
  · exact absurd (outside.symm.trans windowI) nofun
  · have quiet := (clear i si inside (by omega)).1 j
    rcases step_cases sj next with ⟨outside, -⟩ | ⟨insideJ, -⟩ | ⟨configured, first, -⟩
    · exact absurd (outside.symm.trans windowJ) nofun
    · exact absurd ((inv.kept.apart i j si sj differ inside).symm.trans insideJ) nofun
    · exact absurd ((quiet configured (Ne.symm differ)).symm.trans first) nofun
  · omega

theorem inv_step (disjoint : Disjoint cfg) (inv : Inv cfg s) (clear : Clear cfg s grid)
    (next : step cfg s grid = some t) : Inv cfg t := by
  have later := step_now next
  have held : ∀ i, 0 < i → (t.pendingSibs i).isInWindow = true → Held cfg t i := fun i si window =>
    inv.held_step si next window
  refine ⟨held, ?_, ?_, ?_, ?_⟩
  · intro i si w mem
    rcases inv.sends_inside clear si next mem with old | ⟨rfl, -, after, -⟩
    · have past := inv.past i si w old
      omega
    · exact ⟨after, by omega⟩
  · intro i si w mem
    rcases inv.sends_inside clear si next mem with old | ⟨rfl, window, after, before⟩
    · exact inv.kept.sent i si w old
    · exact ⟨(held i si window).starts, after, before⟩
  · intro i si start
    have before := inv.kept.four i si start
    rcases step_cases si next with ⟨-, unsent⟩ | ⟨inside, same, sends, -⟩ | ⟨-, -, new, -, -, sends⟩
    · rwa [unsent]
    · exact sends.four inside (held i si) start before
    · exact sends.four rfl (held i si) start before
  · intro i j si sj differ windowI
    cases windowJ : (t.pendingSibs j).isInWindow with
    | false => rfl
    | true =>
      have insideI := inv.over_alone clear si sj differ next windowI windowJ
      have insideJ := inv.over_alone clear sj si (Ne.symm differ) next windowJ windowI
      have heldI := held i si windowI
      have heldJ := held j sj windowJ
      have beforeI := heldI.before
      have beforeJ := heldJ.before
      exact absurd insideJ (disjoint i j heldI.configured heldJ.configured differ _ _ heldI.starts heldJ.starts s.now
        (by omega) insideI (by omega))

theorem inWindows_of_clear {now : Nat} (disjoint : Disjoint cfg)
    (run : Reaches (step cfg) (Clear cfg) (initial now) s) : InWindows cfg s :=
  (run.invariant (inv_initial cfg now) fun _ _ _ inv clear next => inv_step disjoint inv clear next).kept

def twoMessages (i j siWindowMs : Nat) : CellCfg where
  sibs k := if k = i ∨ k = j then ⟨20, 16⟩ else ⟨0, 0⟩
  siWindowMs := siWindowMs
  nofRbgs := 17

def freeGrid : SibGrid := fun _ _ _ => some .success

theorem disjoint_twoMessages : Disjoint (twoMessages 1 2 20) := by
  have only : ∀ k, Configured (twoMessages 1 2 20) k → k = 1 ∨ k = 2 := by
    intro k configured
    by_contra other
    exact configured.2.2 (by simp [twoMessages, other])
  intro i j configuredI configuredJ differ a b startA startB n
  rcases only i configuredI with rfl | rfl <;> rcases only j configuredJ with rfl | rfl
  · exact absurd rfl differ
  · simp [starts, windowOffset, twoMessages, sfn, sfIdx] at startA startB ⊢
    omega
  · simp [starts, windowOffset, twoMessages, sfn, sfIdx] at startA startB ⊢
    omega
  · exact absurd rfl differ

theorem inWindows_of_clear_sent : ∃ s, Reaches (step (twoMessages 1 2 20)) (Clear (twoMessages 1 2 20)) (initial 0) s ∧
    s.sent 1 = [(0, 9)] ∧ InWindows (twoMessages 1 2 20) s := by
  have outcome : (runAllowed (step (twoMessages 1 2 20)) (fun s _ => decide (s.now < 20)) (initial 0)
      (replicate 10 freeGrid)).any (fun s => s.sent 1 = [(0, 9)]) = true := by
    decide +kernel
  obtain ⟨s, run, sent⟩ := (any_eq_true _ _).mp outcome
  have reach := (reaches_of_runAllowed _ run).mono fun t grid early => (fun i _ _ ends =>
    absurd (of_decide_eq_true early) (by
      have window : (twoMessages 1 2 20).siWindowMs = 20 := rfl
      omega) : Clear (twoMessages 1 2 20) t grid)
  exact ⟨s, reach, of_decide_eq_true sent, inWindows_of_clear disjoint_twoMessages reach⟩

theorem inWindows_late : Disjoint (twoMessages 1 2 20) ∧
    (¬∀ s, Reaches (step (twoMessages 1 2 20)) (fun _ _ => True) (initial 0) s → InWindows (twoMessages 1 2 20) s) ∧
    ¬∀ s, Reaches (step (twoMessages 9 11 1)) (fun _ _ => True) (initial 0) s → InWindows (twoMessages 9 11 1) s := by
  refine ⟨disjoint_twoMessages, fun kept => ?_, fun kept => ?_⟩
  · have outcome : (runAllowed (step (twoMessages 1 2 20)) (fun _ _ => true) (initial 0)
        (replicate 21 freeGrid)).any (fun s => (s.pendingSibs 1).isInWindow && (s.pendingSibs 2).isInWindow) =
          true := by
      decide +kernel
    obtain ⟨s, run, both⟩ := (any_eq_true _ _).mp outcome
    obtain ⟨first, second⟩ := Bool.and_eq_true_iff.mp both
    have apart := (kept s ((reaches_of_runAllowed _ run).mono fun _ _ _ => trivial)).apart 1 2 (by decide) (by decide)
      (by decide) first
    exact absurd (second.symm.trans apart) nofun
  · have outcome : (runAllowed (step (twoMessages 9 11 1)) (fun _ _ => true) (initial 0)
        (replicate 10 freeGrid)).any (fun s => s.sent 9 = [(8, 9)]) = true := by
      decide +kernel
    obtain ⟨s, run, sent⟩ := (any_eq_true _ _).mp outcome
    have late := ((kept s ((reaches_of_runAllowed _ run).mono fun _ _ _ => trivial)).sent 9 (by decide) (8, 9)
      (of_decide_eq_true sent ▸ mem_singleton_self _)).2.2
    exact absurd late (by decide)

end BcRun

end IsrRan.Mac.Lte.BcSched
