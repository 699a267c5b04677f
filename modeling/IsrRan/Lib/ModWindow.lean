import Mathlib.Data.Nat.Basic

namespace IsrRan.Lib
open Nat

section

def modOffset (m base x : Nat) : Nat := (x + (m - base % m)) % m

variable {m base base' x y k : Nat}

theorem modOffset_lt (positive : 0 < m) : modOffset m base x < m := mod_lt _ positive

theorem modOffset_eq (hb : base < m) (hx : x < m) :
    modOffset m base x = if base ≤ x then x - base else x + m - base := by
  unfold modOffset
  rw [mod_eq_of_lt hb]
  split
  · rw [show x + (m - base) = x - base + m by omega, add_mod_right, mod_eq_of_lt (by omega)]
  · rw [mod_eq_of_lt (by omega)]
    omega

theorem add_mod_eq (hb : base < m) (hk : k < m) :
    (base + k) % m = if base + k < m then base + k else base + k - m := by
  split
  · exact mod_eq_of_lt ‹_›
  · rw [mod_eq_sub_mod (by omega), mod_eq_of_lt (by omega)]

theorem modOffset_mod : modOffset m base (x % m) = modOffset m base x := by
  simp [modOffset]

section
variable (hb : base < m)
include hb

@[simp] theorem modOffset_self : modOffset m base base = 0 := by
  simp [modOffset_eq hb hb]

theorem modOffset_add (hk : k < m) : modOffset m base ((base + k) % m) = k := by
  rw [modOffset_eq hb (mod_lt _ (by omega)), add_mod_eq hb hk]
  split <;> split <;> omega

section
variable (hx : x < m)
include hx

theorem add_modOffset : (base + modOffset m base x) % m = x := by
  have small : modOffset m base x < m := modOffset_lt (by omega)
  rw [add_mod_eq hb small, modOffset_eq hb hx]
  split <;> split <;> omega

theorem modOffset_injective (hy : y < m)
    (same : modOffset m base x = modOffset m base y) : x = y := by
  rw [← add_modOffset hb hx, same, add_modOffset hb hy]

/-- In a ring buffer whose size divides the modulus, a window that fits it has a slot for each of its numbers. -/
theorem eq_of_slot_eq {w : Nat} (whole : w ∣ m) (hy : y < m) (inside : modOffset m base x < w)
    (inside' : modOffset m base y < w) (slot : x % w = y % w) : x = y := by
  have same : modOffset m base x % w = modOffset m base y % w := by
    rw [modOffset, modOffset, mod_mod_of_dvd _ whole, mod_mod_of_dvd _ whole, Nat.add_mod x, slot, ← Nat.add_mod]
  rw [mod_eq_of_lt inside, mod_eq_of_lt inside'] at same
  exact modOffset_injective hb hx hy same

theorem modOffset_eq_zero : modOffset m base x = 0 ↔ x = base := by
  constructor
  · intro zero
    exact modOffset_injective hb hx hb (by rw [zero, modOffset_self hb])
  · rintro rfl
    exact modOffset_self hb

theorem modOffset_succ (room : modOffset m base x + 1 < m) :
    modOffset m base ((x + 1) % m) = modOffset m base x + 1 := by
  rw [modOffset_eq hb hx] at room ⊢
  rw [modOffset_mod, modOffset, mod_eq_of_lt hb]
  by_cases wrapped : base ≤ x
  · rw [if_pos wrapped] at room ⊢
    rw [show x + 1 + (m - base) = x - base + 1 + m by omega, add_mod_right, mod_eq_of_lt room]
  · rw [if_neg wrapped] at room ⊢
    rw [mod_eq_of_lt (by omega)]
    omega

theorem modOffset_pred (positive : 0 < modOffset m base x) :
    modOffset m base ((x + m - 1) % m) = modOffset m base x - 1 := by
  rw [modOffset_eq hb hx] at positive ⊢
  rw [modOffset_mod, modOffset, mod_eq_of_lt hb]
  by_cases above : base ≤ x
  · rw [if_pos above] at positive ⊢
    rw [show x + m - 1 + (m - base) = x - base - 1 + m + m by omega, add_mod_right,
      add_mod_right, mod_eq_of_lt (by omega)]
  · rw [if_neg above] at positive ⊢
    rw [show x + m - 1 + (m - base) = x + m - base - 1 + m by omega, add_mod_right,
      mod_eq_of_lt (by omega)]

end

theorem modOffset_rebase (hb' : base' < m) (hx : x < m) :
    modOffset m base' x =
      if modOffset m base base' ≤ modOffset m base x then modOffset m base x - modOffset m base base'
      else modOffset m base x + m - modOffset m base base' := by
  rw [modOffset_eq hb' hx, modOffset_eq hb hx, modOffset_eq hb hb']
  split <;> split <;> split <;> split <;> omega

end

end

section

/-- A counter whose low part is what came with the message and whose high part is the receiver's. -/
def estimate (m counter seq : Nat) : Nat := counter / m * m + seq

variable {m counter counter' count next : Nat} {counts : List Nat}

theorem estimate_eq_iff (positive : 0 < m) :
    estimate m counter (count % m) = count ↔ counter / m = count / m := by
  unfold estimate
  have split := div_add_mod' count m
  constructor
  · intro eq
    have same : counter / m * m = count / m * m := by omega
    exact eq_of_mul_eq_mul_right positive same
  · intro same
    rw [same]
    exact split

theorem succ_div_of_mod_ne (inside : count % m ≠ m - 1) : (count + 1) / m = count / m := by
  rw [Nat.succ_div, if_neg, Nat.add_zero]
  intro divides
  obtain ⟨k, eq⟩ := divides
  refine inside ?_
  cases k with
  | zero => simp at eq
  | succ k =>
    have positive : 0 < m := by
      rcases Nat.eq_zero_or_pos m with rfl | positive
      · simp at eq
      · exact positive
    have last : count = m - 1 + m * k := by
      rw [mul_succ] at eq
      omega
    rw [last, add_mul_mod_self_left, mod_eq_of_lt (by omega)]

/-- The receiver's counter, the counts in flight and the sender's next one: no count is missing between
them behind which the high part goes up. -/
def Linked (m : Nat) : Nat → List Nat → Nat → Prop
  | counter, [], next => counter / m = next / m
  | counter, count :: counts, next => counter / m = count / m ∧ Linked m (count + 1) counts next

namespace Linked

theorem send (h : Linked m counter counts next) : Linked m counter (counts ++ [next]) (next + 1) := by
  induction counts generalizing counter with
  | nil => exact ⟨h, rfl⟩
  | cons count counts ih => exact ⟨h.1, ih h.2⟩

theorem of_counter (h : Linked m counter counts next) (same : counter' / m = counter / m) :
    Linked m counter' counts next := by
  cases counts with
  | nil => exact same.trans h
  | cons count counts => exact ⟨same.trans h.1, h.2⟩

section
variable (h : Linked m counter (count :: counts) next)
include h

theorem receive : Linked m (count + 1) counts next := h.2

theorem lose (inside : count % m ≠ m - 1) :
    Linked m counter counts next :=
  h.2.of_counter (h.1.trans (succ_div_of_mod_ne inside).symm)

theorem keep (inside : count % m ≠ m - 1) :
    Linked m count counts next :=
  h.2.of_counter (succ_div_of_mod_ne inside).symm

theorem estimate_eq (positive : 0 < m) :
    estimate m counter (count % m) = count :=
  (estimate_eq_iff positive).mpr h.1

end

end Linked

structure Increasing (counter : Nat) (counts : List Nat) : Prop where
  sorted : counts.Pairwise (· < ·)
  below : ∀ n ∈ counts, n < counter

namespace Increasing

theorem nil (counter : Nat) : Increasing counter [] := ⟨.nil, by simp⟩

theorem singleton (count : Nat) : Increasing (count + 1) [count] := ⟨by simp, by simp⟩

theorem accept (h : Increasing counter counts) (fresh : counter ≤ count) :
    Increasing (count + 1) (counts ++ [count]) := by
  constructor
  · apply List.pairwise_append.mpr
    refine ⟨h.sorted, by simp, ?_⟩
    intro n mem last eq
    rw [List.mem_singleton.mp eq]
    exact Nat.lt_of_lt_of_le (h.below n mem) fresh
  · intro n mem
    rcases List.mem_append.mp mem with before | last
    · exact lt_succ_of_lt (Nat.lt_of_lt_of_le (h.below n before) fresh)
    · rw [List.mem_singleton.mp last]
      exact lt_succ_self count

end Increasing

end

end IsrRan.Lib
