import IsrRan.Lib.Binary32
import Mathlib.Analysis.Complex.ExponentialBounds
import Mathlib.Analysis.SpecialFunctions.Log.Base

/-! The number of bits of a natural number as a `float` computes it. -/

namespace IsrRan.Lib
open Nat

section Conversion
variable {num den n k : Nat}

theorem roundDiv_bounds : num / den ≤ roundDiv num den ∧ roundDiv num den ≤ num / den + 1 := by
  unfold roundDiv
  split <;> omega

theorem toBinary32_mem (low : 2 ^ k ≤ n) (high : n < 2 ^ (k + 1)) :
    2 ^ k ≤ toBinary32 n ∧ toBinary32 n ≤ 2 ^ (k + 1) := by
  have log : log2 n = k := by
    rw [Nat.log2_eq_log_two]
    exact log_eq_of_pow_le_of_lt_pow low high
  unfold toBinary32
  rw [log]
  dsimp only
  by_cases whole : k ≤ 23
  · have one : roundDiv n 1 = n := by
      unfold roundDiv
      simp [mod_one]
    rw [Nat.sub_eq_zero_of_le whole, Nat.pow_zero, one, Nat.mul_one]
    exact ⟨low, high.le⟩
  · obtain ⟨below, above⟩ := @roundDiv_bounds n (2 ^ (k - 23))
    have first : 2 ^ k = 2 ^ 23 * 2 ^ (k - 23) := by
      rw [← Nat.pow_add, Nat.add_sub_cancel' (by omega)]
    have second : 2 ^ (k + 1) = 2 ^ 24 * 2 ^ (k - 23) := by
      rw [Nat.pow_succ, first]
      ring
    have pos := Nat.two_pow_pos (k - 23)
    rw [first] at low
    rw [second] at high
    rw [first, second]
    constructor
    · exact Nat.mul_le_mul_right _ (((Nat.le_div_iff_mul_le pos).mpr low).trans below)
    · exact Nat.mul_le_mul_right _ (above.trans ((Nat.div_lt_iff_lt_mul pos).mpr high))

end Conversion

section Logarithm
variable {x n k : Nat}

def log2Digits (x : Nat) : Nat := 23 - log2 (log2 x)

theorem log2f_nearest (pos : 0 < x) : ∃ m : Nat, log2f x = m / 2 ^ log2Digits x ∧
    |(m : ℝ) - 2 ^ log2Digits x * Real.logb 2 x| ≤ 1 / 2 := by
  refine ⟨((x ^ 2 ^ (log2Digits x + 1)).log2 + 1) / 2, rfl, ?_⟩
  have floor := Real.natFloor_logb_natCast 2 (x ^ 2 ^ (log2Digits x + 1))
  have scaled : Real.logb 2 ((x ^ 2 ^ (log2Digits x + 1) : Nat) : ℝ) = 2 * (2 ^ log2Digits x * Real.logb 2 x) := by
    push_cast
    rw [Real.logb_pow]
    push_cast
    ring
  have nonneg : 0 ≤ Real.logb 2 x := Real.logb_nonneg (by norm_num) (by exact_mod_cast pos)
  rw [← Nat.log2_eq_log_two, Nat.cast_ofNat, scaled, Nat.floor_eq_iff (by positivity)] at floor
  generalize (x ^ 2 ^ (log2Digits x + 1)).log2 = twice at floor ⊢
  obtain ⟨half, rfl | rfl⟩ := Nat.even_or_odd' twice
  · rw [show (2 * half + 1) / 2 = half by omega, abs_le]
    push_cast at floor
    constructor <;> linarith
  · rw [show (2 * half + 1 + 1) / 2 = half + 1 by omega, abs_le]
    push_cast at floor ⊢
    constructor <;> linarith

theorem logb_mem (low : 2 ^ k ≤ x) (high : x ≤ 2 ^ (k + 1)) : k ≤ Real.logb 2 x ∧ Real.logb 2 x ≤ k + 1 := by
  have pos : (0 : ℝ) < x := by exact_mod_cast (Nat.two_pow_pos k).trans_le low
  constructor
  · rw [Real.le_logb_iff_rpow_le (by norm_num) pos, Real.rpow_natCast]
    exact_mod_cast low
  · rw [Real.logb_le_iff_le_rpow (by norm_num) pos]
    exact_mod_cast high

theorem log2f_mem (low : 2 ^ k ≤ x) (high : x ≤ 2 ^ (k + 1)) : k ≤ log2f x ∧ log2f x ≤ k + 1 := by
  obtain ⟨m, eq, near⟩ := log2f_nearest ((Nat.two_pow_pos k).trans_le low)
  obtain ⟨below, above⟩ := logb_mem low high
  have scale : (0 : ℝ) < 2 ^ log2Digits x := by positivity
  rw [abs_le] at near
  have least : k * 2 ^ log2Digits x ≤ m := by
    have close : ((k * 2 ^ log2Digits x : Nat) : ℝ) < m + 1 := by
      push_cast
      nlinarith [mul_le_mul_of_nonneg_left below scale.le]
    exact_mod_cast Nat.lt_succ_iff.mp (by exact_mod_cast close)
  have most : m ≤ (k + 1) * 2 ^ log2Digits x := by
    have close : (m : ℝ) < ((k + 1) * 2 ^ log2Digits x : Nat) + 1 := by
      push_cast
      nlinarith [mul_le_mul_of_nonneg_left above scale.le]
    exact_mod_cast Nat.lt_succ_iff.mp (by exact_mod_cast close)
  have scale : (0 : ℚ) < 2 ^ log2Digits x := by positivity
  rw [eq, le_div_iff₀ scale, div_le_iff₀ scale]
  exact ⟨by exact_mod_cast least, by exact_mod_cast most⟩

theorem floorLog2f_mem (low : 2 ^ k ≤ n) (high : n < 2 ^ (k + 1)) (few : k < 64) :
    k + 1 ≤ floorLog2f n ∧ floorLog2f n ≤ k + 2 := by
  obtain ⟨below, above⟩ := toBinary32_mem low high
  obtain ⟨least, most⟩ := log2f_mem below above
  have few' : (k : ℚ) < 64 := by exact_mod_cast few
  have nonneg : (0 : ℚ) ≤ k := cast_nonneg k
  have small : |log2f (toBinary32 n) + 1| < 16777216 := by
    rw [abs_lt]
    constructor <;> linarith
  have lower := @le_roundBinary32 _ (k + 1) small (by push_cast; linarith)
  have upper := @roundBinary32_le _ (k + 2) small (by push_cast; linarith)
  have lower' := Int.le_floor.mpr lower
  have upper' := Int.floor_le_iff.mpr (upper.trans_lt (lt_add_one _))
  unfold floorLog2f
  omega

end Logarithm

/-! The last numbers below `2 ^ 32` get 33 bits. -/

section Threshold
variable {n x : Nat}

theorem le_roundEven_of_even {r : ℚ} {n : ℤ} (even : n % 2 = 0) (le : n - 1 / 2 ≤ r) : n ≤ roundEven r := by
  have whole : n - 1 ≤ ⌊r⌋ := by
    rw [Int.le_floor]
    push_cast
    linarith
  rcases whole.lt_or_eq with lt | eq
  · exact le_roundEven (Int.le_floor.mp (by omega))
  · have odd : ⌊r⌋ % 2 ≠ 0 := by omega
    have floor : (⌊r⌋ : ℚ) = n - 1 := by
      rw [← eq]
      push_cast
      ring
    unfold roundEven
    rw [if_neg]
    · omega
    · rintro (below | ⟨-, tie⟩)
      · linarith
      · exact odd tie

theorem roundBinary32_of_mem {r : ℚ} (low : 32 ≤ r) (high : r < 64) :
    roundBinary32 r = roundEven (r * 2 ^ 18) / 2 ^ 18 := by
  have pos : 0 < r := by linarith
  have log : Int.log 2 |r| = 5 := by
    rw [abs_of_pos pos]
    apply le_antisymm
    · rw [← Int.lt_add_one_iff, ← Int.lt_zpow_iff_log_lt (by decide) pos]
      norm_num
      exact high
    · rw [← Int.zpow_le_iff_le_log (by decide) pos]
      norm_num
      exact low
  unfold roundBinary32
  rw [if_neg pos.ne', log]
  norm_num [zpow_neg]
  ring_nf

theorem logb_near_32 : Real.logb 2 4294958592 < 32 - 3 / 2 ^ 20 ∧ 32 - 3 / 2 ^ 20 < Real.logb 2 4294958848 := by
  have low := Real.log_two_gt_d9
  have high := Real.log_two_lt_d9
  have pos : 0 < Real.log 2 := by linarith
  unfold Real.logb
  rw [div_lt_iff₀ pos, lt_div_iff₀ pos]
  have all : Real.log (2 ^ 32) = 32 * Real.log 2 := by
    rw [Real.log_pow]
    norm_num
  constructor
  · have split_ : Real.log 4294958592 = Real.log (2 ^ 32) + Real.log (1 - 34 / 2 ^ 24) := by
      rw [← Real.log_mul (by norm_num) (by norm_num)]
      norm_num
    have bound := Real.log_le_sub_one_of_pos (x := 1 - 34 / 2 ^ 24) (by norm_num)
    rw [split_, all]
    linarith
  · have split_ : Real.log 4294958848 = Real.log (2 ^ 32) + Real.log (1 - 33 / 2 ^ 24) := by
      rw [← Real.log_mul (by norm_num) (by norm_num)]
      norm_num
    have bound := Real.one_sub_inv_le_log_of_pos (x := 1 - 33 / 2 ^ 24) (by norm_num)
    rw [split_, all]
    norm_num at bound
    linarith

theorem log2f_below_32 (low : 2 ^ 31 ≤ x) (high : x < 2 ^ 32) :
    ∃ m : Nat, log2f x = m / 2 ^ 19 ∧ |(m : ℝ) - 2 ^ 19 * Real.logb 2 x| ≤ 1 / 2 := by
  have log : log2 x = 31 := by
    rw [Nat.log2_eq_log_two]
    exact log_eq_of_pow_le_of_lt_pow low high
  have digits : log2Digits x = 19 := by
    unfold log2Digits
    rw [log]
    rfl
  have nearest := @log2f_nearest x ((Nat.two_pow_pos 31).trans_le low)
  rw [digits] at nearest
  exact nearest

theorem floorLog2f_le_32_iff (pos : 0 < n) (lt : n < 2 ^ 32) : floorLog2f n ≤ 32 ↔ n < 4294958721 := by
  by_cases small : n < 2 ^ 31
  · obtain ⟨k, low, high⟩ : ∃ k, 2 ^ k ≤ n ∧ n < 2 ^ (k + 1) := ⟨log2 n, log2_self_le pos.ne', lt_log2_self⟩
    have few : k < 31 := (Nat.pow_lt_pow_iff_right (by decide)).mp (low.trans_lt small)
    have bits := (floorLog2f_mem low high (by omega)).2
    omega
  have log : log2 n = 31 := by
    rw [Nat.log2_eq_log_two]
    exact log_eq_of_pow_le_of_lt_pow (Nat.le_of_not_lt small) lt
  have converted : toBinary32 n = roundDiv n 256 * 256 := by
    unfold toBinary32
    rw [log]
    rfl
  obtain ⟨low, high⟩ := toBinary32_mem (Nat.le_of_not_lt small) lt
  obtain ⟨belowLog, aboveLog⟩ := logb_near_32
  unfold floorLog2f
  by_cases near : n < 4294958721
  · have most : toBinary32 n ≤ 4294958592 := by
      rw [converted]
      unfold roundDiv
      split <;> omega
    obtain ⟨m, eq, close⟩ := log2f_below_32 low (by omega)
    have log_le : Real.logb 2 (toBinary32 n) ≤ Real.logb 2 4294958592 :=
      Real.logb_le_logb_of_le (by norm_num) (by exact_mod_cast (Nat.two_pow_pos 31).trans_le low) (by exact_mod_cast most)
    have bound : m ≤ 16777214 := by
      have lt_ : (m : ℝ) < 16777215 := by
        rw [abs_le] at close
        linarith
      have : m < 16777215 := by exact_mod_cast lt_
      omega
    have most' : (m : ℚ) ≤ 16777214 := by exact_mod_cast bound
    have least := (log2f_mem low high).1
    rw [eq] at least ⊢
    have round := @roundEven_le ((m / 2 ^ 19 + 1) * 2 ^ 18) 8650751 (by push_cast; linarith)
    have round' : (roundEven ((m / 2 ^ 19 + 1) * 2 ^ 18) : ℚ) ≤ 8650751 := by exact_mod_cast round
    rw [roundBinary32_of_mem (by push_cast at least; linarith) (by linarith)]
    have floor : ⌊(roundEven ((m / 2 ^ 19 + 1) * 2 ^ 18) : ℚ) / 2 ^ 18⌋ ≤ 32 := by
      rw [← Int.lt_add_one_iff, Int.floor_lt, div_lt_iff₀ (by norm_num)]
      push_cast
      linarith
    omega
  · refine iff_of_false ?_ near
    have bits : 33 ≤ ⌊roundBinary32 (log2f (toBinary32 n) + 1)⌋ := by
      rw [Int.le_floor]
      by_cases top : toBinary32 n = 2 ^ 32
      · obtain ⟨least, most⟩ := @log2f_mem (toBinary32 n) 32 top.ge (by omega)
        push_cast at least most
        refine le_roundBinary32 ?_ (by push_cast; linarith)
        rw [abs_lt]
        constructor <;> linarith
      · have least : 4294958848 ≤ toBinary32 n := by
          rw [converted]
          unfold roundDiv
          split <;> omega
        obtain ⟨m, eq, close⟩ := log2f_below_32 low (by omega)
        have le_log : Real.logb 2 4294958848 ≤ Real.logb 2 (toBinary32 n) :=
          Real.logb_le_logb_of_le (by norm_num) (by norm_num) (by exact_mod_cast least)
        have bound : 16777215 ≤ m := by
          have lt_ : (16777214 : ℝ) < m := by
            rw [abs_le] at close
            linarith
          exact_mod_cast lt_
        have least' : (16777215 : ℚ) ≤ m := by exact_mod_cast bound
        have most := (log2f_mem low high).2
        push_cast at most
        rw [eq] at most ⊢
        have round := @le_roundEven_of_even ((m / 2 ^ 19 + 1) * 2 ^ 18) 8650752 (by decide) (by push_cast; linarith)
        have round' : 8650752 ≤ (roundEven ((m / 2 ^ 19 + 1) * 2 ^ 18) : ℚ) := by exact_mod_cast round
        rw [roundBinary32_of_mem (by linarith) (by linarith), le_div_iff₀ (by norm_num)]
        push_cast
        linarith
    omega

end Threshold

end IsrRan.Lib
