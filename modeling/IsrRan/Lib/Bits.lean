import Mathlib.Data.Nat.Bitwise
import Mathlib.Tactic.Ring

namespace IsrRan.Lib
open Nat

/-- The number in `n` bits of a stream from `pos` on, the most significant bit first. -/
def field (bit : Nat → Bool) (pos : Nat) : Nat → Nat
  | 0 => 0
  | n + 1 => 2 * field bit pos n + (bit (pos + n)).toNat

variable {bit bit' : Nat → Bool} {pos m n v : Nat}

theorem field_lt (bit : Nat → Bool) (pos n : Nat) : field bit pos n < 2 ^ n := by
  induction n with
  | zero => exact Nat.one_pos
  | succ n ih =>
    have := Bool.toNat_lt (bit (pos + n))
    rw [field]
    omega

theorem field_add (bit : Nat → Bool) (pos m n : Nat) :
    field bit pos (m + n) = field bit pos m * 2 ^ n + field bit (pos + m) n := by
  induction n with
  | zero => simp [field]
  | succ n ih =>
    rw [← Nat.add_assoc, field, ih, field]
    ring_nf

theorem field_split {u w : Nat} (small : w < 2 ^ n) (whole : field bit pos (m + n) = u * 2 ^ n + w) :
    field bit pos m = u ∧ field bit (pos + m) n = w := by
  have low := field_lt bit (pos + m) n
  rw [field_add] at whole
  have high := congrArg (· / 2 ^ n) whole
  have rest := congrArg (· % 2 ^ n) whole
  simp only [Nat.mul_comm _ (2 ^ n), mul_add_div (Nat.two_pow_pos n), div_eq_of_lt low,
    div_eq_of_lt small] at high
  simp only [Nat.mul_comm _ (2 ^ n), mul_add_mod, mod_eq_of_lt low, mod_eq_of_lt small] at rest
  exact ⟨high, rest⟩

theorem field_split_mod {u w : Nat} (whole : field bit pos (m + n) = (u % 2 ^ m * 2 ^ n + w % 2 ^ n) % 2 ^ (m + n)) :
    field bit pos m = u % 2 ^ m ∧ field bit (pos + m) n = w % 2 ^ n := by
  have low := mod_lt w (Nat.two_pow_pos n)
  have fits : u % 2 ^ m * 2 ^ n + w % 2 ^ n < 2 ^ (m + n) := by
    rw [Nat.pow_add]
    calc
      _ < u % 2 ^ m * 2 ^ n + 2 ^ n := Nat.add_lt_add_left low _
      _ = (u % 2 ^ m + 1) * 2 ^ n := by ring
      _ ≤ 2 ^ m * 2 ^ n := Nat.mul_le_mul_right _ (mod_lt u (Nat.two_pow_pos m))
  rw [mod_eq_of_lt fits] at whole
  exact field_split low whole

theorem field_tail {w : Nat} (small : w < 2 ^ n) (whole : field bit pos (m + n) = w) :
    field bit (pos + m) n = w :=
  (field_split (u := 0) small (by rw [whole, Nat.zero_mul, Nat.zero_add])).2

theorem field_congr {pos' : Nat} (h : ∀ i < n, bit (pos + i) = bit' (pos' + i)) :
    field bit pos n = field bit' pos' n := by
  induction n with
  | zero => rfl
  | succ n ih => rw [field, field, ih (fun i lt => h i (by omega)), h n (lt_succ_self n)]

theorem testBit_field (bit : Nat → Bool) (pos n i : Nat) :
    (field bit pos n).testBit i = (decide (i < n) && bit (pos + (n - 1 - i))) := by
  induction n generalizing i with
  | zero => simp [field]
  | succ n ih =>
    rw [field]
    have bound := Bool.toNat_lt (bit (pos + n))
    cases i with
    | zero =>
      cases last : bit (pos + n) <;> simp [last]
    | succ i =>
      have half : (2 * field bit pos n + (bit (pos + n)).toNat) / 2 = field bit pos n := by omega
      have back : n + 1 - 1 - (i + 1) = n - 1 - i := by omega
      rw [testBit_succ, half, ih i, back]
      simp

theorem field_eq_mod_iff : field bit pos n = v % 2 ^ n ↔ ∀ i < n, bit (pos + i) = v.testBit (n - 1 - i) := by
  constructor
  · intro same i lt
    have bits := testBit_field bit pos n (n - 1 - i)
    rw [same] at bits
    have back : n - 1 - (n - 1 - i) = i := by omega
    simpa [back, show n - 1 - i < n by omega] using bits.symm
  · intro same
    apply eq_of_testBit_eq
    intro i
    rw [testBit_field]
    by_cases lt : i < n
    · have back : n - 1 - (n - 1 - i) = i := by omega
      simpa [lt, back] using same (n - 1 - i) (by omega)
    · simp [lt]

structure Wrote (bit bit' : Nat → Bool) (pos n v : Nat) : Prop where
  before : ∀ i < pos, bit' i = bit i
  written : field bit' pos n = v % 2 ^ n

namespace Wrote

theorem field_eq {at_ len u : Nat} (h : Wrote bit bit' pos n v) (inside : at_ + len ≤ pos)
    (was : field bit at_ len = u) : field bit' at_ len = u :=
  (field_congr fun i lt => h.before (at_ + i) (by omega)).trans was

theorem append {bit'' : Nat → Bool} {u : Nat} (first : Wrote bit bit' pos m v)
    (second : Wrote bit' bit'' (pos + m) n u) : Wrote bit bit'' pos (m + n) (v % 2 ^ m * 2 ^ n + u % 2 ^ n) := by
  refine ⟨fun i lt => (second.before i (by omega)).trans (first.before i lt), ?_⟩
  have low := mod_lt u (Nat.two_pow_pos n)
  have high := mod_lt v (Nat.two_pow_pos m)
  have fits : v % 2 ^ m * 2 ^ n + u % 2 ^ n < 2 ^ (m + n) := by
    rw [Nat.pow_add]
    calc
      v % 2 ^ m * 2 ^ n + u % 2 ^ n < v % 2 ^ m * 2 ^ n + 2 ^ n := Nat.add_lt_add_left low _
      _ = (v % 2 ^ m + 1) * 2 ^ n := by ring
      _ ≤ 2 ^ m * 2 ^ n := Nat.mul_le_mul_right _ high
  rw [field_add, second.written, second.field_eq le_rfl first.written, mod_eq_of_lt fits]

end Wrote
end IsrRan.Lib
