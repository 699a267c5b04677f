import Mathlib.Data.Option.Basic

namespace IsrRan.Lib
open List

variable {σ ε : Type*}

/-- Runs of a partial step function in which every event meets `allowed` in the state it acts on. -/
inductive Reaches (step : σ → ε → Option σ) (allowed : σ → ε → Prop) (s : σ) : σ → Prop where
  | refl : Reaches step allowed s s
  | tail {t u : σ} {e : ε} : Reaches step allowed s t → allowed t e → step t e = some u →
      Reaches step allowed s u

namespace Reaches
variable {step : σ → ε → Option σ} {allowed weaker : σ → ε → Prop} {s t u : σ}

theorem invariant {P : σ → Prop} (initial : P s)
    (preserved : ∀ t e u, P t → allowed t e → step t e = some u → P u)
    (run : Reaches step allowed s t) : P t := by
  induction run with
  | refl => exact initial
  | tail _ ok next ih => exact preserved _ _ _ ih ok next

theorem mono (imp : ∀ t e, allowed t e → weaker t e) (run : Reaches step allowed s t) :
    Reaches step weaker s t := by
  induction run with
  | refl => exact .refl
  | tail _ ok next ih => exact .tail ih (imp _ _ ok) next

theorem trans (first : Reaches step allowed s t) (second : Reaches step allowed t u) :
    Reaches step allowed s u := by
  induction second with
  | refl => exact first
  | tail _ ok next ih => exact .tail ih ok next

end Reaches

def runAllowed (step : σ → ε → Option σ) (allowed : σ → ε → Bool) (s : σ) : List ε → Option σ
  | [] => some s
  | e :: es => if allowed s e then (step s e).bind (fun t => runAllowed step allowed t es) else none

theorem reaches_of_runAllowed {step : σ → ε → Option σ} {allowed : σ → ε → Bool} (es : List ε)
    {s t : σ} (h : runAllowed step allowed s es = some t) :
    Reaches step (fun s e => allowed s e = true) s t := by
  induction es generalizing s with
  | nil =>
    obtain rfl : s = t := by simpa [runAllowed] using h
    exact .refl
  | cons e es ih =>
    unfold runAllowed at h
    split at h
    · rename_i ok
      obtain ⟨u, first, rest⟩ := Option.bind_eq_some_iff.mp h
      have one : Reaches step (fun s e => allowed s e = true) s u := .tail .refl ok first
      exact one.trans (ih rest)
    · contradiction

theorem foldlM_range_invariant {α β : Type} {f : β → α → Except ε β} {g : Nat → α} {P : Nat → β → Prop}
    {n : Nat} (preserved : ∀ k b b', k < n → P k b → f b (g k) = .ok b' → P (k + 1) b') {b b' : β}
    (initial : P 0 b) (ok : ((range n).map g).foldlM f b = .ok b') : P n b' := by
  induction n generalizing b' with
  | zero =>
    obtain rfl : b = b' := by simpa [pure, Except.pure] using ok
    exact initial
  | succ n ih =>
    rw [range_succ] at ok
    cases first : ((range n).map g).foldlM f b with
    | error e => simp [first, bind, Except.bind] at ok
    | ok c =>
      have before := ih (fun k b b' hk => preserved k b b' (Nat.lt_succ_of_lt hk)) first
      cases last : f c (g n) with
      | error e => simp [first, last, bind, Except.bind] at ok
      | ok d =>
        obtain rfl : d = b' := by simpa [first, last, bind, Except.bind, pure, Except.pure] using ok
        exact preserved n c d (Nat.lt_succ_self n) before last

theorem foldlM_range_ok {α β : Type} {f : β → α → Except ε β} {g : Nat → α} {P : Nat → β → Prop} {n : Nat}
    (total : ∀ k b, k < n → P k b → ∃ b', f b (g k) = .ok b' ∧ P (k + 1) b') {b : β} (initial : P 0 b) :
    ∃ b', ((range n).map g).foldlM f b = .ok b' ∧ P n b' := by
  induction n with
  | zero => exact ⟨b, rfl, initial⟩
  | succ n ih =>
    obtain ⟨c, first, before⟩ := ih fun k b hk => total k b (Nat.lt_succ_of_lt hk)
    obtain ⟨d, last, after⟩ := total n c (Nat.lt_succ_self n) before
    refine ⟨d, ?_, after⟩
    rw [range_succ, map_append, foldlM_append, first]
    simp [bind, Except.bind, pure, Except.pure, last]

/-- A loop that can be left early: `P` when it is through, `Q` when it is left. -/
def Outcome {β : Type*} (P : β → Prop) (Q : ε → Prop) : Except ε β → Prop
  | .ok b => P b
  | .error e => Q e

theorem foldlM_range_outcome {β : Type*} {f : β → Nat → Except ε β} {P : Nat → β → Prop} {Q : ε → Prop} {n : Nat}
    (step : ∀ k b, k < n → P k b → Outcome (P (k + 1)) Q (f b k)) {b : β} (initial : P 0 b) :
    Outcome (P n) Q ((range n).foldlM f b) := by
  induction n with
  | zero => exact initial
  | succ n ih =>
    have before := ih fun k b hk => step k b (Nat.lt_succ_of_lt hk)
    rw [range_succ, foldlM_append]
    cases first : (range n).foldlM f b with
    | error e =>
      rw [first] at before
      exact before
    | ok c =>
      rw [first] at before
      have last := step n c (Nat.lt_succ_self n) before
      change Outcome (P (n + 1)) Q (f c n >>= pure)
      cases round : f c n <;> rw [round] at last <;> exact last

section
variable {φ : Type*} (step : σ → ε → Except φ σ)

def AllAlong (P : σ → Prop) : σ → List ε → Prop
  | s, [] => P s
  | s, e :: es => P s ∧ ∃ t, step s e = .ok t ∧ AllAlong P t es

def EachStep (allowed : σ → ε → Prop) : σ → List ε → Prop
  | _, [] => True
  | s, e :: es => allowed s e ∧ ∀ t, step s e = .ok t → EachStep allowed t es

variable {step} {P : σ → Prop} {allowed : σ → ε → Prop} {s : σ} {es : List ε}

theorem AllAlong.initial (all : AllAlong step P s es) : P s := by
  cases es with
  | nil => exact all
  | cons e es => exact all.1

theorem AllAlong.mono {Q : σ → Prop} (imp : ∀ s, P s → Q s) (all : AllAlong step P s es) : AllAlong step Q s es := by
  induction es generalizing s with
  | nil => exact imp s all
  | cons e es ih =>
    obtain ⟨here, t, next, later⟩ := all
    exact ⟨imp s here, t, next, ih later⟩

theorem allAlong_of_eachStep (preserved : ∀ s e, P s → allowed s e → ∃ t, step s e = .ok t ∧ P t) (initial : P s)
    (each : EachStep step allowed s es) : AllAlong step P s es := by
  induction es generalizing s with
  | nil => exact initial
  | cons e es ih =>
    obtain ⟨t, next, after⟩ := preserved s e initial each.1
    exact ⟨initial, t, next, ih after (each.2 t next)⟩

theorem allAlong_iff_eachStep
    (exact_ : ∀ s e, P s → ((∃ t, step s e = .ok t ∧ P t) ↔ allowed s e)) (initial : P s) :
    AllAlong step P s es ↔ EachStep step allowed s es := by
  constructor
  · intro all
    induction es generalizing s with
    | nil => trivial
    | cons e es ih =>
      obtain ⟨-, t, next, later⟩ := all
      refine ⟨(exact_ s e initial).mp ⟨t, next, later.initial⟩, fun u other => ?_⟩
      obtain rfl : t = u := Except.ok.inj (next.symm.trans other)
      exact ih later.initial later
  · exact allAlong_of_eachStep (fun s e before => (exact_ s e before).mpr) initial

end

def forIndex {α : Type*} (n : Nat) (f : Nat → α → Except ε α) (xs : Nat → α) : Except ε (Nat → α) :=
  (range n).foldlM (fun xs i => (f i (xs i)).map fun x j => if j = i then x else xs j) xs

theorem forIndex_ok {α : Type*} {n : Nat} {f : Nat → α → Except ε α} {xs ys : Nat → α}
    (ok : forIndex n f xs = .ok ys) : (∀ i < n, f i (xs i) = .ok (ys i)) ∧ ∀ i, n ≤ i → ys i = xs i := by
  unfold forIndex at ok
  induction n generalizing ys with
  | zero =>
    obtain rfl := Except.ok.inj ok
    exact ⟨nofun, fun _ _ => rfl⟩
  | succ n ih =>
    rw [range_succ, foldlM_append] at ok
    cases first : (range n).foldlM (fun xs i => (f i (xs i)).map fun x j => if j = i then x else xs j) xs with
    | error e => simp [first, bind, Except.bind] at ok
    | ok zs =>
      obtain ⟨done, rest⟩ := ih first
      rw [first] at ok
      cases last : f n (zs n) with
      | error e => simp [last, bind, Except.bind, Except.map] at ok
      | ok x =>
        have eq : (fun j => if j = n then x else zs j) = ys := by
          simpa [last, bind, Except.bind, Except.map, pure, Except.pure] using ok
        subst eq
        constructor
        · intro i below
          dsimp only
          by_cases here : i = n
          · subst here
            rw [if_pos rfl, ← rest i (Nat.le_refl i), last]
          · rw [if_neg here]
            exact done i (Nat.lt_of_le_of_ne (Nat.le_of_lt_succ below) here)
        · intro i above
          dsimp only
          rw [if_neg (by omega), rest i (Nat.le_of_succ_le above)]

end IsrRan.Lib
