import Mathlib.Algebra.BigOperators.Intervals
import Mathlib.Algebra.Order.Floor.Div

namespace IsrRan.Lib
open Finset

/-- The pieces, each a start and a length, follow one another from `low` to `high`. -/
def Tiles : Nat → List (Nat × Nat) → Nat → Prop
  | low, [], high => low = high
  | low, piece :: pieces, high => piece.1 = low ∧ Tiles (low + piece.2) pieces high

namespace Tiles

variable {low high high' : Nat} {pieces : List (Nat × Nat)}

theorem concat (h : Tiles low pieces high) (len : Nat) : Tiles low (pieces ++ [(high, len)]) (high + len) := by
  induction pieces generalizing low with
  | nil =>
    cases h
    exact ⟨rfl, rfl⟩
  | cons piece pieces ih => exact ⟨h.1, ih h.2⟩

theorem unique (h : Tiles low pieces high) (h' : Tiles low pieces high') : high = high' := by
  induction pieces generalizing low with
  | nil => exact Eq.trans h.symm h'
  | cons piece pieces ih => exact ih h.2 h'.2

theorem sums (len : Nat → Nat) (n : Nat) :
    Tiles 0 ((List.range n).map fun i => (∑ j ∈ range i, len j, len i)) (∑ j ∈ range n, len j) := by
  induction n with
  | zero => rfl
  | succ n ih =>
    rw [List.range_succ, List.map_append, sum_range_succ]
    exact ih.concat (len n)

end Tiles

/-- A whole shared out among `parts`, of which the last ones get what the division leaves. -/
def share (total parts i : Nat) : Nat :=
  if i < parts - total % parts then total / parts else total / parts + 1

section
variable {total parts : Nat}

theorem share_le_succ (i : Nat) : share total parts i ≤ share total parts (i + 1) := by
  unfold share
  split <;> split <;> omega

theorem share_mono : Monotone (share total parts) := by
  apply monotone_nat_of_le_succ
  exact share_le_succ

theorem sum_share_upto (n : Nat) :
    ∑ i ∈ range n, share total parts i = n * (total / parts) + (n - (parts - total % parts)) := by
  induction n with
  | zero => simp
  | succ n ih =>
    rw [sum_range_succ, share, Nat.succ_mul]
    split <;> omega

theorem sum_share (pos : 0 < parts) : ∑ i ∈ range parts, share total parts i = total := by
  have left : total % parts < parts := Nat.mod_lt total pos
  have whole : parts * (total / parts) + total % parts = total := Nat.div_add_mod total parts
  rw [sum_share_upto]
  omega

theorem ceilDiv_eq_div_add_one (pos : 0 < parts) (h : total % parts ≠ 0) :
    total ⌈/⌉ parts = total / parts + 1 := by
  have whole : parts * (total / parts) + total % parts = total := Nat.div_add_mod total parts
  have left : total % parts < parts := Nat.mod_lt total pos
  rw [Nat.ceilDiv_eq_add_pred_div, Nat.div_eq_iff pos, Nat.mul_comm, Nat.mul_add]
  omega

end

theorem ceilDiv_roundUp {size limit unit : Nat} (pos : 0 < size) (limitPos : 0 < limit) (units : unit ∣ limit) :
    ((size ⌈/⌉ limit) * unit * (size ⌈/⌉ ((size ⌈/⌉ limit) * unit))) ⌈/⌉ limit = size ⌈/⌉ limit := by
  generalize blocks : size ⌈/⌉ limit = n
  obtain ⟨k, rfl⟩ := units
  have unitPos : 0 < unit := Nat.pos_of_mul_pos_right limitPos
  have covered : size ≤ unit * k * n := by
    rw [← blocks]
    exact le_smul_ceilDiv limitPos
  have nPos : 0 < n := Nat.pos_of_ne_zero fun h => by
    rw [h] at covered
    omega
  have stepPos : 0 < n * unit := Nat.mul_pos nPos unitPos
  apply le_antisymm
  · rw [ceilDiv_le_iff_le_smul limitPos]
    have rounds : size ⌈/⌉ (n * unit) ≤ k := by
      rw [ceilDiv_le_iff_le_smul stepPos]
      calc size ≤ unit * k * n := covered
        _ = n * unit * k := by rw [Nat.mul_comm, Nat.mul_assoc]
    calc n * unit * (size ⌈/⌉ (n * unit)) ≤ n * unit * k := Nat.mul_le_mul_left _ rounds
      _ = unit * k * n := by rw [Nat.mul_comm (unit * k), Nat.mul_assoc]
  · refine le_trans (le_of_eq blocks.symm) ?_
    rw [ceilDiv_le_iff_le_smul limitPos]
    calc size ≤ n * unit * (size ⌈/⌉ (n * unit)) := le_smul_ceilDiv stepPos
      _ ≤ unit * k * ((n * unit * (size ⌈/⌉ (n * unit))) ⌈/⌉ (unit * k)) := le_smul_ceilDiv limitPos

end IsrRan.Lib
