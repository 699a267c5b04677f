import Mathlib.Algebra.Field.ZMod
import Mathlib.RingTheory.AdjoinRoot

/-! Words as polynomials over the field of two elements, and the steps of a division by one of them. -/

namespace IsrRan.Lib.Gf2
open Polynomial Function

noncomputable def word (n : Nat) : (ZMod 2)[X] := ∑ i ∈ Finset.range (n + 1), if n.testBit i then X ^ i else 0

/-- The first `len` bits of a buffer, the highest coefficient in front. -/
noncomputable def message (data : Nat → Bool) (len : Nat) : (ZMod 2)[X] :=
  ∑ j ∈ Finset.range len, if data (len - 1 - j) then X ^ j else 0

theorem sum_coeff (bits : Nat → Bool) (n i : Nat) :
    (∑ j ∈ Finset.range n, if bits j then (X : (ZMod 2)[X]) ^ j else 0).coeff i =
      if i < n ∧ bits i then 1 else 0 := by
  rw [finsetSum_coeff]
  have single : ∀ j, (if bits j then (X : (ZMod 2)[X]) ^ j else 0).coeff i = if j = i then (if bits i then 1 else 0) else 0 := by
    intro j
    by_cases same : j = i
    · subst same
      cases bits j <;> simp
    · cases bits j <;> simp [same, Ne.symm same]
  simp only [single]
  by_cases inside : i < n <;> simp [inside]

theorem word_coeff (n i : Nat) : (word n).coeff i = if n.testBit i then 1 else 0 := by
  unfold word
  rw [sum_coeff]
  congr 1
  apply propext
  constructor
  · exact And.right
  · intro set
    refine ⟨?_, set⟩
    by_contra outside
    have small : n < 2 ^ i := Nat.lt_of_lt_of_le Nat.lt_two_pow_self (Nat.pow_le_pow_right (by decide) (by omega))
    rw [Nat.testBit_lt_two_pow small] at set
    exact Bool.false_ne_true set

theorem message_coeff (data : Nat → Bool) (len i : Nat) :
    (message data len).coeff i = if i < len ∧ data (len - 1 - i) then 1 else 0 :=
  sum_coeff (fun j => data (len - 1 - j)) len i

theorem word_injective : Function.Injective word := by
  intro a b same
  apply Nat.eq_of_testBit_eq
  intro i
  have coefficient := congrArg (fun p => p.coeff i) same
  simp only [word_coeff] at coefficient
  cases bitA : a.testBit i <;> cases bitB : b.testBit i <;> simp_all

theorem word_zero : word 0 = 0 := by
  rfl

theorem word_xor (a b : Nat) : word (a ^^^ b) = word a + word b := by
  ext i
  rw [coeff_add, word_coeff, word_coeff, word_coeff, Nat.testBit_xor]
  cases a.testBit i <;> cases b.testBit i <;> decide

theorem word_shiftLeft (n k : Nat) : word (n <<< k) = X ^ k * word n := by
  ext i
  rw [word_coeff, coeff_X_pow_mul', word_coeff]
  by_cases beyond : k ≤ i <;> simp [beyond]

theorem word_degree {n k : Nat} (small : n < 2 ^ k) : (word n).degree < k := by
  rw [degree_lt_iff_coeff_zero]
  intro m beyond
  rw [word_coeff, Nat.testBit_lt_two_pow (Nat.lt_of_lt_of_le small (Nat.pow_le_pow_right (by decide) beyond))]
  rfl

theorem word_degree_le {n k : Nat} (small : n < 2 ^ (k + 1)) : (word n).degree ≤ k := by
  rw [degree_le_iff_coeff_zero]
  intro m beyond
  have above : k + 1 ≤ m := by exact_mod_cast beyond
  rw [word_coeff, Nat.testBit_lt_two_pow (Nat.lt_of_lt_of_le small (Nat.pow_le_pow_right (by decide) above))]
  rfl

theorem message_degree (data : Nat → Bool) (len : Nat) : (message data len).degree < len := by
  rw [degree_lt_iff_coeff_zero]
  intro m beyond
  rw [message_coeff, if_neg fun inside => absurd inside.1 (Nat.not_lt.mpr beyond)]

theorem message_add (data : Nat → Bool) (m n : Nat) :
    message data (m + n) = X ^ n * message data m + message (fun i => data (m + i)) n := by
  ext i
  rw [coeff_add, coeff_X_pow_mul', message_coeff, message_coeff, message_coeff]
  by_cases low : i < n
  · rw [if_neg (Nat.not_le.mpr low), zero_add, show m + n - 1 - i = m + (n - 1 - i) by omega]
    simp only [low, show i < m + n by omega]
  · rw [if_pos (Nat.le_of_not_lt low), show m + n - 1 - i = m - 1 - (i - n) by omega]
    have same : i < m + n ↔ i - n < m := by omega
    simp only [low, same, false_and, if_false, add_zero]

theorem message_zeros {data : Nat → Bool} {n : Nat} (zeros : ∀ i < n, data i = false) : message data n = 0 := by
  apply Finset.sum_eq_zero
  intro j mem
  have inside := Finset.mem_range.mp mem
  rw [zeros _ (by omega)]
  rfl

structure IsGenerator (poly order : Nat) : Prop where
  high : 2 ^ order ≤ poly
  bounded : poly < 2 ^ (order + 1)
  odd : poly.testBit 0 = true

section
variable {poly order : Nat}

theorem word_monic (high : 2 ^ order ≤ poly) (bounded : poly < 2 ^ (order + 1)) : (word poly).Monic := by
  apply monic_of_degree_le order
  · exact word_degree_le bounded
  · rw [word_coeff, Nat.testBit_of_two_pow_le_and_two_pow_add_one_gt high bounded]
    rfl

theorem degree_word (high : 2 ^ order ≤ poly) (bounded : poly < 2 ^ (order + 1)) : (word poly).degree = order := by
  apply le_antisymm
  · exact word_degree_le bounded
  · apply le_degree_of_ne_zero
    rw [word_coeff, Nat.testBit_of_two_pow_le_and_two_pow_add_one_gt high bounded]
    exact one_ne_zero

theorem eq_modByMonic (gen : IsGenerator poly order) {r p : (ZMod 2)[X]} (small : r.degree < order)
    (same : AdjoinRoot.mk (word poly) r = AdjoinRoot.mk (word poly) p) : r = p %ₘ word poly := by
  have monic := word_monic gen.high gen.bounded
  calc
    r = r %ₘ word poly := ((modByMonic_eq_self_iff monic).mpr (degree_word gen.high gen.bounded ▸ small)).symm
    _ = p %ₘ word poly := modByMonic_eq_of_dvd_sub monic (AdjoinRoot.mk_eq_mk.mp same)

theorem isCoprime_X (gen : IsGenerator poly order) : IsCoprime (word poly) X := by
  refine ⟨1, -divX (word poly), ?_⟩
  have constant : (word poly).coeff 0 = 1 := by
    rw [word_coeff, gen.odd]
    rfl
  have split := divX_mul_X_add (word poly)
  rw [constant, map_one] at split
  linear_combination -split

theorem mk_X_pow_mul_eq (gen : IsGenerator poly order) (k : Nat) {p q : (ZMod 2)[X]} :
    AdjoinRoot.mk (word poly) (X ^ k * p) = AdjoinRoot.mk (word poly) (X ^ k * q) ↔
      AdjoinRoot.mk (word poly) p = AdjoinRoot.mk (word poly) q := by
  rw [AdjoinRoot.mk_eq_mk, AdjoinRoot.mk_eq_mk, ← mul_sub]
  constructor
  · exact (isCoprime_X gen).pow_right.dvd_of_dvd_mul_left
  · exact fun divides => Dvd.dvd.mul_left divides _

end

/-! ### Steps of a division -/

section
variable {poly order c : Nat}

theorem word_shiftRight {k : Nat} (low : X ^ k ∣ word c) : X ^ k * word (c >>> k) = word c := by
  rw [← word_shiftLeft]
  congr 1
  apply Nat.eq_of_testBit_eq
  intro i
  rw [Nat.testBit_shiftLeft, Nat.testBit_shiftRight]
  by_cases beyond : k ≤ i
  · rw [decide_eq_true beyond, Bool.true_and, Nat.add_sub_cancel' beyond]
  · have zero := X_pow_dvd_iff.mp low i (Nat.lt_of_not_le beyond)
    rw [word_coeff] at zero
    rw [decide_eq_false beyond]
    cases bit : c.testBit i with
    | false => rfl
    | true =>
      rw [bit] at zero
      exact absurd zero one_ne_zero

theorem word_half (even : c.testBit 0 = false) : X * word (c >>> 1) = word c := by
  have low : X ^ 1 ∣ word c := by
    rw [X_pow_dvd_iff]
    intro d first_
    obtain rfl : d = 0 := by omega
    rw [word_coeff, even]
    rfl
  rw [← word_shiftRight low, pow_one]

/-- One bit further in a division: what leaves the word on top takes the divisor with it. -/
def divide (poly order c : Nat) : Nat := if c.testBit (order - 1) then (c <<< 1) ^^^ poly else c <<< 1

def undivide (poly c : Nat) : Nat := if c.testBit 0 then (c ^^^ poly) >>> 1 else c >>> 1

theorem mk_divide (poly order c : Nat) :
    AdjoinRoot.mk (word poly) (word (divide poly order c)) = AdjoinRoot.mk (word poly) (X * word c) := by
  have shifted : word (c <<< 1) = X * word c := by rw [word_shiftLeft, pow_one]
  unfold divide
  split
  · rw [word_xor, map_add, AdjoinRoot.mk_self, add_zero, shifted]
  · rw [shifted]

theorem divide_lt (positive : 0 < order) (high : 2 ^ order ≤ poly) (bounded : poly < 2 ^ (order + 1))
    (small : c < 2 ^ order) : divide poly order c < 2 ^ order := by
  apply Nat.lt_pow_two_of_testBit
  intro i beyond
  have above : order < i → poly.testBit i = false ∧ c.testBit (i - 1) = false := by
    intro more
    exact ⟨Nat.testBit_lt_two_pow (Nat.lt_of_lt_of_le bounded (Nat.pow_le_pow_right (by decide) more)),
      Nat.testBit_lt_two_pow (Nat.lt_of_lt_of_le small (Nat.pow_le_pow_right (by decide) (by omega)))⟩
  have shifted : (c <<< 1).testBit i = c.testBit (i - 1) := by
    rw [Nat.testBit_shiftLeft, decide_eq_true (show 1 ≤ i by omega), Bool.true_and]
  unfold divide
  rcases Nat.eq_or_lt_of_le beyond with rfl | more
  · split
    · rename_i top
      rw [Nat.testBit_xor, shifted, top, Nat.testBit_of_two_pow_le_and_two_pow_add_one_gt high bounded]
      rfl
    · rename_i top
      rw [shifted]
      exact Bool.eq_false_of_not_eq_true top
  · obtain ⟨polyBit, bit⟩ := above more
    split
    · rw [Nat.testBit_xor, shifted, polyBit, bit]
      rfl
    · rw [shifted, bit]

theorem mk_undivide (odd : poly.testBit 0 = true) :
    AdjoinRoot.mk (word poly) (X * word (undivide poly c)) = AdjoinRoot.mk (word poly) (word c) := by
  unfold undivide
  split
  · rename_i bit
    have even : (c ^^^ poly).testBit 0 = false := by rw [Nat.testBit_xor, bit, odd]; rfl
    rw [word_half even, word_xor, map_add, AdjoinRoot.mk_self, add_zero]
  · rename_i bit
    rw [word_half (Bool.eq_false_of_not_eq_true bit)]

theorem undivide_lt (bounded : poly < 2 ^ (order + 1)) (small : c < 2 ^ order) : undivide poly c < 2 ^ order := by
  unfold undivide
  have larger : c < 2 ^ (order + 1) := Nat.lt_of_lt_of_le small (Nat.pow_le_pow_right (by decide) (Nat.le_succ _))
  split
  · have both := Nat.xor_lt_two_pow larger bounded
    omega
  · rw [Nat.shiftRight_eq_div_pow]
    exact Nat.lt_of_le_of_lt (Nat.div_le_self _ _) small

theorem mk_iterate_divide (k : Nat) : AdjoinRoot.mk (word poly) (word ((divide poly order)^[k] c)) =
    AdjoinRoot.mk (word poly) (X ^ k * word c) := by
  induction k with
  | zero => rw [iterate_zero_apply, pow_zero, one_mul]
  | succ k ih => rw [iterate_succ_apply', mk_divide, map_mul, ih, ← map_mul, pow_succ', mul_assoc]

theorem iterate_divide_lt (positive : 0 < order) (high : 2 ^ order ≤ poly) (bounded : poly < 2 ^ (order + 1))
    (small : c < 2 ^ order) (k : Nat) : (divide poly order)^[k] c < 2 ^ order := by
  induction k with
  | zero => exact small
  | succ k ih =>
    rw [iterate_succ_apply']
    exact divide_lt positive high bounded ih

theorem mk_iterate_undivide (odd : poly.testBit 0 = true) (k : Nat) :
    AdjoinRoot.mk (word poly) (X ^ k * word ((undivide poly)^[k] c)) = AdjoinRoot.mk (word poly) (word c) := by
  induction k with
  | zero => rw [iterate_zero_apply, pow_zero, one_mul]
  | succ k ih =>
    rw [iterate_succ_apply', pow_succ, mul_assoc, map_mul, mk_undivide odd, ← map_mul, ih]

theorem iterate_undivide_lt (bounded : poly < 2 ^ (order + 1)) (small : c < 2 ^ order) (k : Nat) :
    (undivide poly)^[k] c < 2 ^ order := by
  induction k with
  | zero => exact small
  | succ k ih =>
    rw [iterate_succ_apply']
    exact undivide_lt bounded ih

end

end IsrRan.Lib.Gf2
