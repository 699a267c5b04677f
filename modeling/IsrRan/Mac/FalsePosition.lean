import IsrRan.Common.Memory
import Mathlib

/-! The search for the crossing of a function on a range of integers (sched_ue_cell.cc). -/

namespace IsrRan.Mac.Lte.FalsePosition

structure Bracket where
  x1 : Int
  y1 : Int
  x2 : Int
  y2 : Int
  deriving DecidableEq

section
variable (point : Bracket → Int) (isError : Int → Bool) (f : Int → Int) (y0 : Int)

/-- A turn of the loop up to its last branch: what it returns, or `x3` and `y3`. The interpolated `point` is rounded. -/
def turn (b : Bracket) : Bracket ⊕ Int × Int :=
  let x3 := point b
  if x3 = b.x2 then
    if !isError (f (x3 - 1)) && decide (f (x3 - 1) < y0) then .inl ⟨x3 - 1, f (x3 - 1), x3, b.y2⟩
    else .inr (x3 - 1, f (x3 - 1))
  else if x3 = b.x1 then
    if !isError (f (x3 + 1)) && decide (y0 ≤ f (x3 + 1)) then .inl ⟨x3, b.y1, x3 + 1, f (x3 + 1)⟩
    else .inr (x3 + 1, f (x3 + 1))
  else if isError (f x3) || f x3 = y0 then .inl ⟨x3, f x3, x3, f x3⟩
  else .inr (x3, f x3)

def searchLoop : Nat → Bracket → Option Bracket
  | 0, _ => none
  | turns + 1, b =>
    if b.x2 > b.x1 + 1 then
      match turn point isError f y0 b with
      | .inl found => some found
      | .inr (x3, y3) =>
        searchLoop turns (if y3 < y0 then { b with x1 := x3, y1 := y3 } else { b with x2 := x3, y2 := y3 })
    else some b

def falsePositionMethod (turns : Nat) (x1 x2 : Int) : Option Bracket :=
  if isError (f x1) || y0 ≤ f x1 then some ⟨x1, f x1, x1, f x1⟩
  else if isError (f x2) || f x2 ≤ y0 then some ⟨x2, f x2, x2, f x2⟩
  else searchLoop point isError f y0 turns ⟨x1, f x1, x2, f x2⟩

end

section
variable {point : Bracket → Int} {isError : Int → Bool} {f : Int → Int} {y0 x1 x2 : Int} {b : Bracket}

def Crosses (f : Int → Int) (y0 x1 x2 : Int) (r : Bracket) : Prop :=
  ∃ x, x1 ≤ x ∧ x ≤ x2 ∧ (r = ⟨x, f x, x, f x⟩ ∧ f x = y0 ∨
    r = ⟨x, f x, x + 1, f (x + 1)⟩ ∧ x + 1 ≤ x2 ∧ f x < y0 ∧ y0 ≤ f (x + 1))

structure Documented (f : Int → Int) (y0 x1 x2 : Int) (r : Bracket) : Prop where
  left : y0 ≤ f x1 → r = ⟨x1, f x1, x1, f x1⟩
  right : f x1 < y0 → f x2 ≤ y0 → r = ⟨x2, f x2, x2, f x2⟩
  inner : f x1 < y0 → y0 < f x2 → Crosses f y0 x1 x2 r

structure Around (f : Int → Int) (y0 x1 x2 : Int) (b : Bracket) : Prop where
  above : x1 ≤ b.x1
  order : b.x1 < b.x2
  below : b.x2 ≤ x2
  left : b.y1 = f b.x1
  right : b.y2 = f b.x2
  less : f b.x1 < y0
  more : y0 ≤ f b.x2

def Interior (point : Bracket → Int) (b : Bracket) : Prop := point b ≠ b.x1 ∧ point b ≠ b.x2

theorem turn_cases (around : Around f y0 x1 x2 b) (wide : b.x2 > b.x1 + 1)
    (sound : ∀ x, x1 ≤ x → x ≤ x2 → isError (f x) = false) (within : b.x1 ≤ point b ∧ point b ≤ b.x2) :
    (∃ x, turn point isError f y0 b = .inl ⟨x, f x, x + 1, f (x + 1)⟩ ∧ ¬Interior point b ∧ b.x1 ≤ x ∧ x + 1 ≤ b.x2 ∧
      f x < y0 ∧ y0 ≤ f (x + 1)) ∨
    (turn point isError f y0 b = .inl ⟨point b, f (point b), point b, f (point b)⟩ ∧ Interior point b ∧ f (point b) = y0) ∨
    ∃ x3, turn point isError f y0 b = .inr (x3, f x3) ∧ b.x1 < x3 ∧ x3 < b.x2 ∧ (Interior point b → f (point b) ≠ y0) := by
  obtain ⟨above, order, below, left, right, less, more⟩ := around
  unfold turn
  by_cases last : point b = b.x2
  · rw [if_pos last, last, sound (b.x2 - 1) (by omega) (by omega), Bool.not_false, Bool.true_and]
    have outer : ¬Interior point b := fun inner => inner.2 last
    by_cases under : f (b.x2 - 1) < y0
    · rw [if_pos (decide_eq_true under)]
      refine .inl ⟨b.x2 - 1, ?_, outer, by omega, by omega, under, ?_⟩
      · rw [Int.sub_add_cancel, right]
      · rwa [Int.sub_add_cancel]
    · rw [if_neg (by simpa using under)]
      exact .inr (.inr ⟨b.x2 - 1, rfl, by omega, by omega, fun inner => absurd inner outer⟩)
  · rw [if_neg last]
    by_cases first : point b = b.x1
    · rw [if_pos first, first, sound (b.x1 + 1) (by omega) (by omega), Bool.not_false, Bool.true_and]
      have outer : ¬Interior point b := fun inner => inner.1 first
      by_cases reached : y0 ≤ f (b.x1 + 1)
      · rw [if_pos (decide_eq_true reached), left]
        exact .inl ⟨b.x1, rfl, outer, by omega, by omega, less, reached⟩
      · rw [if_neg (by simpa using reached)]
        exact .inr (.inr ⟨b.x1 + 1, rfl, by omega, by omega, fun inner => absurd inner outer⟩)
    · rw [if_neg first, sound (point b) (by omega) (by omega), Bool.false_or]
      by_cases hit : f (point b) = y0
      · rw [if_pos (decide_eq_true hit)]
        exact .inr (.inl ⟨rfl, ⟨first, last⟩, hit⟩)
      · rw [if_neg (by simpa using hit)]
        exact .inr (.inr ⟨point b, rfl, by omega, by omega, fun _ => hit⟩)

def narrowed (y0 : Int) (b : Bracket) (x3 y3 : Int) : Bracket :=
  if y3 < y0 then { b with x1 := x3, y1 := y3 } else { b with x2 := x3, y2 := y3 }

theorem Around.narrowed {x3 : Int} (around : Around f y0 x1 x2 b) (after : b.x1 < x3) (before : x3 < b.x2) :
    Around f y0 x1 x2 (narrowed y0 b x3 (f x3)) := by
  obtain ⟨above, order, below, left, right, less, more⟩ := around
  unfold FalsePosition.narrowed
  by_cases under : f x3 < y0
  · rw [if_pos under]
    exact ⟨by dsimp only; omega, before, below, rfl, right, under, more⟩
  · rw [if_neg under]
    exact ⟨above, after, by dsimp only; omega, left, rfl, less, Int.not_lt.mp under⟩

theorem narrowed_shorter {x3 y3 : Int} (after : b.x1 < x3) (before : x3 < b.x2) :
    (narrowed y0 b x3 y3).x2 - (narrowed y0 b x3 y3).x1 < b.x2 - b.x1 := by
  unfold FalsePosition.narrowed
  split
  · show b.x2 - x3 < b.x2 - b.x1
    omega
  · show x3 - b.x1 < b.x2 - b.x1
    omega

theorem searchLoop_spec (sound : ∀ x, x1 ≤ x → x ≤ x2 → isError (f x) = false)
    (within : ∀ b, Around f y0 x1 x2 b → b.x1 ≤ point b ∧ point b ≤ b.x2) {turns : Nat}
    (enough : (b.x2 - b.x1).toNat ≤ turns) (around : Around f y0 x1 x2 b) :
    ∃ r, searchLoop point isError f y0 turns b = some r ∧ Crosses f y0 x1 x2 r := by
  have order := around.order
  induction turns generalizing b with
  | zero => omega
  | succ turns ih =>
    have above := around.above
    have below := around.below
    rw [searchLoop]
    by_cases wide : b.x2 > b.x1 + 1
    · rw [if_pos wide]
      rcases turn_cases around wide sound (within b around) with ⟨x, found, -, low, high, less, more⟩ |
        ⟨found, -, hit⟩ | ⟨x3, moved, after, before, -⟩
      · rw [found]
        exact ⟨_, rfl, x, by omega, by omega, .inr ⟨rfl, by omega, less, more⟩⟩
      · have inside := within b around
        rw [found]
        exact ⟨_, rfl, point b, by omega, by omega, .inl ⟨rfl, hit⟩⟩
      · have shorter := @narrowed_shorter y0 b x3 (f x3) after before
        have next := around.narrowed after before
        rw [moved]
        exact @ih (FalsePosition.narrowed y0 b x3 (f x3)) (by omega) next next.order
    · have next : b.x2 = b.x1 + 1 := by omega
      obtain ⟨-, -, -, left, right, less, more⟩ := around
      rw [if_neg wide]
      refine ⟨b, rfl, b.x1, above, by omega, .inr ⟨?_, by omega, less, next ▸ more⟩⟩
      rw [← next, ← left, ← right]

/-! Where the search ends when several points have the value `y0` -/

def Turns (point : Bracket → Int) (isError : Int → Bool) (f : Int → Int) (y0 : Int) (b b' : Bracket) : Prop :=
  b.x2 > b.x1 + 1 ∧ ∃ x3 y3, turn point isError f y0 b = .inr (x3, y3) ∧ b' = narrowed y0 b x3 y3

/-- From `b` on, the interpolation comes to a point above `x` that has exactly the value `y0`. -/
def Overshoots (point : Bracket → Int) (isError : Int → Bool) (f : Int → Int) (y0 x : Int) (b : Bracket) : Prop :=
  ∃ b', Relation.ReflTransGen (Turns point isError f y0) b b' ∧ b'.x2 > b'.x1 + 1 ∧ Interior point b' ∧
    f (point b') = y0 ∧ x < point b'

theorem overshoots_iff {x : Int} : Overshoots point isError f y0 x b ↔
    (b.x2 > b.x1 + 1 ∧ Interior point b ∧ f (point b) = y0 ∧ x < point b) ∨
      ∃ b', Turns point isError f y0 b b' ∧ Overshoots point isError f y0 x b' := by
  constructor
  · rintro ⟨b', steps, there⟩
    rcases steps.cases_head with rfl | ⟨next, first, rest⟩
    · exact .inl there
    · exact .inr ⟨next, first, b', rest, there⟩
  · rintro (here | ⟨next, first, b', rest, there⟩)
    · exact ⟨b, .refl, here⟩
    · exact ⟨b', .head first rest, there⟩

theorem not_overshoots_of_inl {x : Int} {r : Bracket} (found : turn point isError f y0 b = .inl r)
    (here : Interior point b → f (point b) = y0 → point b ≤ x) : ¬Overshoots point isError f y0 x b := by
  rw [overshoots_iff]
  rintro (⟨-, inner, hit, beyond⟩ | ⟨b', ⟨-, x3, y3, moved, -⟩, -⟩)
  · exact absurd (here inner hit) (Int.not_le.mpr beyond)
  · rw [found] at moved
    cases moved

theorem searchLoop_least (mono : Monotone f) (sound : ∀ x, x1 ≤ x → x ≤ x2 → isError (f x) = false)
    (within : ∀ b, Around f y0 x1 x2 b → b.x1 ≤ point b ∧ point b ≤ b.x2) {turns : Nat} (around : Around f y0 x1 x2 b)
    {x : Int} (reached : y0 ≤ f x) (least : ∀ k, x1 ≤ k → k < x → f k < y0) {r : Bracket}
    (found : searchLoop point isError f y0 turns b = some r) : r.x2 = x ↔ ¬Overshoots point isError f y0 x b := by
  have crossing : ∀ k, x1 ≤ k → f k < y0 → y0 ≤ f (k + 1) → k + 1 = x := by
    intro k above less more
    have before : ¬x ≤ k := fun le => absurd (reached.trans (mono le)) (Int.not_le.mpr less)
    have after : ¬k + 1 < x := fun lt => absurd (least (k + 1) (by omega) lt) (Int.not_lt.mpr more)
    omega
  induction turns generalizing b with
  | zero => cases found
  | succ turns ih =>
    have above := around.above
    rw [searchLoop] at found
    by_cases wide : b.x2 > b.x1 + 1
    · rw [if_pos wide] at found
      rcases turn_cases around wide sound (within b around) with ⟨k, ends, outer, low, high, less, more⟩ |
        ⟨ends, inner, hit⟩ | ⟨x3, moved, after, before, missed⟩
      · rw [ends] at found
        obtain rfl := Option.some.inj found
        exact iff_of_true (crossing k (by omega) less more) (not_overshoots_of_inl ends fun inner => absurd inner outer)
      · rw [ends] at found
        obtain rfl := Option.some.inj found
        have inside := within b around
        rcases Int.lt_or_le x (point b) with beyond | le
        · exact iff_of_false (Int.ne_of_gt beyond) (not_not_intro (overshoots_iff.mpr (.inl ⟨wide, inner, hit, beyond⟩)))
        · have same : point b = x := by
            by_contra other
            exact absurd (least (point b) (by omega) (by omega)) (Int.not_lt.mpr hit.ge)
          exact iff_of_true same (not_overshoots_of_inl ends fun _ _ => le)
      · rw [moved] at found
        have step : Overshoots point isError f y0 x b ↔
            Overshoots point isError f y0 x (FalsePosition.narrowed y0 b x3 (f x3)) := by
          rw [overshoots_iff]
          constructor
          · rintro (⟨-, inner, hit, -⟩ | ⟨b', ⟨-, x3', y3', moved', rfl⟩, beyond⟩)
            · exact absurd hit (missed inner)
            · rw [moved] at moved'
              cases moved'
              exact beyond
          · exact fun beyond => .inr ⟨_, ⟨wide, x3, f x3, moved, rfl⟩, beyond⟩
        rw [step]
        exact ih (around.narrowed after before) found
    · rw [if_neg wide] at found
      obtain rfl := Option.some.inj found
      have next : b.x2 = b.x1 + 1 := by
        have order := around.order
        omega
      have ends : b.x2 = x := by
        rw [next]
        exact crossing b.x1 above around.less (by rw [← next]; exact around.more)
      refine iff_of_true ends ?_
      rw [overshoots_iff]
      rintro (⟨wide', -⟩ | ⟨b', ⟨wide', -⟩, -⟩)
      · exact wide wide'
      · exact wide wide'

theorem falsePositionMethod_documented (point : Bracket → Int) (isError : Int → Bool) (f : Int → Int) (y0 x1 x2 : Int)
    (order : x1 < x2) (sound : ∀ x, x1 ≤ x → x ≤ x2 → isError (f x) = false)
    (within : ∀ b : Bracket, b.x1 < b.x2 → b.y1 < y0 → y0 ≤ b.y2 → b.x1 ≤ point b ∧ point b ≤ b.x2) (turns : Nat)
    (enough : (x2 - x1).toNat ≤ turns) :
    ∃ r, falsePositionMethod point isError f y0 turns x1 x2 = some r ∧ Documented f y0 x1 x2 r := by
  unfold falsePositionMethod
  rw [sound x1 (Int.le_refl _) (Int.le_of_lt order), sound x2 (Int.le_of_lt order) (Int.le_refl _), Bool.false_or,
    Bool.false_or]
  by_cases reached : y0 ≤ f x1
  · rw [if_pos (decide_eq_true reached)]
    exact ⟨_, rfl, fun _ => rfl, fun less => by omega, fun less => by omega⟩
  · rw [if_neg (by simpa using reached)]
    by_cases short : f x2 ≤ y0
    · rw [if_pos (decide_eq_true short)]
      exact ⟨_, rfl, fun more => absurd more reached, fun _ _ => rfl, fun _ more => by omega⟩
    · rw [if_neg (by simpa using short)]
      obtain ⟨r, found, crosses⟩ := @searchLoop_spec point isError f y0 x1 x2 ⟨x1, f x1, x2, f x2⟩ sound
        (fun b inner => within b inner.order (inner.left ▸ inner.less) (inner.right ▸ inner.more)) turns enough
        ⟨Int.le_refl _, order, Int.le_refl _, rfl, rfl, Int.not_le.mp reached, Int.le_of_lt (Int.not_le.mp short)⟩
      exact ⟨r, found, fun more => absurd more reached, fun _ less => absurd less short, fun _ _ => crosses⟩

theorem falsePositionMethod_documented_plateau :
    ∃ r, falsePositionMethod Bracket.x1 (fun y => y = -1) (fun x => if x < 4 then 10 else 40) 20 5 1 6 = some r ∧
      Documented (fun x => if x < 4 then 10 else 40) 20 1 6 r := by
  apply falsePositionMethod_documented _ _ _ _ _ _ (by decide) _ _ 5 (by decide)
  · intro x _ _
    split <;> decide
  · exact fun b order _ _ => ⟨Int.le_refl _, Int.le_of_lt order⟩

end
end IsrRan.Mac.Lte.FalsePosition
