import Mathlib.Algebra.Order.Floor.Div
import Mathlib.Data.Int.Log
import Mathlib.Data.Rat.Floor

namespace IsrRan.Lib
open Int Nat

section

def roundDiv (num den : Nat) : Nat :=
  if 2 * (num % den) < den ∨ 2 * (num % den) = den ∧ num / den % 2 = 0 then num / den else num / den + 1

def toBinary32 (n : Nat) : Nat :=
  let ulp := 2 ^ (log2 n - 23)
  roundDiv n ulp * ulp

/-- `ceilf((float)num / den)` -/
def ceilDivBinary32 (num den : Nat) : Nat :=
  let num := toBinary32 num
  let den := toBinary32 den
  let e := log2 (num / den)
  if num < den then min num 1
  else if 23 ≤ e then roundDiv num (den * 2 ^ (e - 23)) * 2 ^ (e - 23)
  else roundDiv (num * 2 ^ (23 - e)) den ⌈/⌉ 2 ^ (23 - e)

end

section

def roundEven (r : ℚ) : ℤ :=
  if r - ⌊r⌋ < 1 / 2 ∨ r - ⌊r⌋ = 1 / 2 ∧ ⌊r⌋ % 2 = 0 then ⌊r⌋ else ⌊r⌋ + 1

/-- `round()` of C: the nearest integer, ties away from zero. -/
def roundAway (r : ℚ) : ℤ := if r < 0 then -⌊-r + 1 / 2⌋ else ⌊r + 1 / 2⌋

/-- A rational in the 24 significant bits of a `float`, its exponent without bounds. -/
def roundBinary32 (r : ℚ) : ℚ :=
  if r = 0 then 0
  else
    let ulp : ℚ := 2 ^ (log 2 |r| - 23)
    roundEven (r / ulp) * ulp

/-- `log2f` of a whole `float`, rounded to the nearest. -/
def log2f (x : Nat) : ℚ :=
  let digits := 23 - log2 (log2 x)
  ((log2 (x ^ 2 ^ (digits + 1)) + 1) / 2 : Nat) / 2 ^ digits

/-- `floorf(log2f(n) + 1)` -/
def floorLog2f (n : Nat) : Nat := ⌊roundBinary32 (log2f (toBinary32 n) + 1)⌋.toNat

variable {r : ℚ} {n : ℤ}

theorem roundEven_le (le : r ≤ n) : roundEven r ≤ n := by
  have whole : ⌊r⌋ ≤ n := by exact_mod_cast (floor_le r).trans le
  unfold roundEven
  split
  · exact whole
  · rename_i up
    rcases whole.lt_or_eq with lt | eq
    · exact lt
    · refine absurd (.inl ?_) up
      rw [eq]
      linarith

theorem le_roundEven (le : n ≤ r) : n ≤ roundEven r := by
  have whole : n ≤ ⌊r⌋ := Int.le_floor.mpr le
  unfold roundEven
  split <;> omega

theorem roundAway_le (nonneg : 0 ≤ r) (le : r ≤ n) : roundAway r ≤ n := by
  unfold roundAway
  rw [if_neg (not_lt.mpr nonneg), ← Int.lt_add_one_iff, Int.floor_lt]
  push_cast
  linarith

theorem le_roundAway (nonneg : 0 ≤ r) (le : n ≤ r) : n ≤ roundAway r := by
  unfold roundAway
  rw [if_neg (not_lt.mpr nonneg), Int.le_floor]
  linarith

theorem roundBinary32_scale (nonzero : r ≠ 0) (small : |r| < 16777216) :
    ∃ k : ℕ, roundBinary32 r = roundEven (r * 2 ^ k) / 2 ^ k := by
  have exponent : log 2 |r| < 24 := by
    rw [← lt_zpow_iff_log_lt (by decide) (abs_pos.mpr nonzero)]
    exact_mod_cast small
  obtain ⟨k, shift⟩ : ∃ k : ℕ, log 2 |r| - 23 = -k := ⟨(23 - log 2 |r|).toNat, by omega⟩
  refine ⟨k, ?_⟩
  unfold roundBinary32
  rw [if_neg nonzero]
  dsimp only
  rw [shift, zpow_neg, zpow_natCast, div_inv_eq_mul, div_eq_mul_inv]

theorem roundBinary32_le (small : |r| < 16777216) (le : r ≤ n) : roundBinary32 r ≤ n := by
  by_cases zero : r = 0
  · unfold roundBinary32
    rw [if_pos zero, ← zero]
    exact le
  · obtain ⟨k, scaled⟩ := roundBinary32_scale zero small
    have pos : (0 : ℚ) < 2 ^ k := by positivity
    have bound : roundEven (r * 2 ^ k) ≤ n * 2 ^ k := by
      apply roundEven_le
      push_cast
      exact mul_le_mul_of_nonneg_right le pos.le
    rw [scaled, div_le_iff₀ pos]
    exact_mod_cast bound

theorem le_roundBinary32 (small : |r| < 16777216) (le : n ≤ r) : n ≤ roundBinary32 r := by
  by_cases zero : r = 0
  · unfold roundBinary32
    rw [if_pos zero, ← zero]
    exact le
  · obtain ⟨k, scaled⟩ := roundBinary32_scale zero small
    have pos : (0 : ℚ) < 2 ^ k := by positivity
    have bound : n * 2 ^ k ≤ roundEven (r * 2 ^ k) := by
      apply le_roundEven
      push_cast
      exact mul_le_mul_of_nonneg_right le pos.le
    rw [scaled, le_div_iff₀ pos]
    exact_mod_cast bound

theorem roundBinary32_intCast (small : |n| < 16777216) : roundBinary32 n = n := by
  have small' : |(n : ℚ)| < 16777216 := by exact_mod_cast small
  exact le_antisymm (roundBinary32_le small' le_rfl) (le_roundBinary32 small' le_rfl)

end

end IsrRan.Lib
