import Mathlib.Data.Nat.Basic

/-! A matrix that is filled row by row and read column by column, its columns permuted. -/

namespace IsrRan.Lib
open Nat

structure ColumnPerm (cols : Nat) where
  perm : Nat → Nat
  inv : Nat → Nat
  perm_lt : ∀ c < cols, perm c < cols
  inv_lt : ∀ c < cols, inv c < cols
  inv_perm : ∀ c < cols, inv (perm c) = c
  perm_inv : ∀ c < cols, perm (inv c) = c

namespace ColumnPerm
variable {cols : Nat} (π : ColumnPerm cols) (rows : Nat)

/-- The number, row by row, of the cell that is read in place `r`. -/
def cell (r : Nat) : Nat := r % rows * cols + π.perm (r / rows)

def place (v : Nat) : Nat := π.inv (v % cols) * rows + v / cols

variable {π rows} {r v : Nat}

section
variable (inside : r < cols * rows)
include inside

theorem row_lt : r % rows < rows := by
  apply mod_lt
  rcases Nat.eq_zero_or_pos rows with rfl | positive
  · exact absurd inside (by rw [Nat.mul_zero]; exact Nat.not_lt_zero r)
  · exact positive

theorem column_lt : r / rows < cols :=
  Nat.div_lt_of_lt_mul (Nat.mul_comm cols rows ▸ inside)

theorem cell_lt : π.cell rows r < cols * rows := by
  have column := π.perm_lt _ (column_lt inside)
  calc
    _ < r % rows * cols + cols := Nat.add_lt_add_left column _
    _ = (r % rows + 1) * cols := (succ_mul _ _).symm
    _ ≤ rows * cols := Nat.mul_le_mul_right cols (row_lt inside)
    _ = cols * rows := Nat.mul_comm rows cols

end

theorem place_lt (inside : v < cols * rows) : π.place rows v < cols * rows := by
  have row : v / cols < rows := Nat.div_lt_of_lt_mul inside
  have column : v % cols < cols := by
    apply mod_lt
    rcases Nat.eq_zero_or_pos cols with rfl | positive
    · exact absurd inside (by rw [Nat.zero_mul]; exact Nat.not_lt_zero v)
    · exact positive
  calc
    _ < π.inv (v % cols) * rows + rows := Nat.add_lt_add_left row _
    _ = (π.inv (v % cols) + 1) * rows := (succ_mul _ _).symm
    _ ≤ cols * rows := Nat.mul_le_mul_right rows (π.inv_lt _ column)

theorem place_cell (inside : r < cols * rows) : π.place rows (π.cell rows r) = r := by
  have column := π.perm_lt _ (column_lt inside)
  have positive : 0 < cols := Nat.lt_of_le_of_lt (Nat.zero_le _) column
  unfold place cell
  rw [Nat.mul_comm (r % rows) cols, mul_add_mod, mod_eq_of_lt column, mul_add_div positive,
    div_eq_of_lt column, π.inv_perm _ (column_lt inside), Nat.mul_comm]
  exact div_add_mod r rows

theorem cell_place (inside : v < cols * rows) : π.cell rows (π.place rows v) = v := by
  have row : v / cols < rows := Nat.div_lt_of_lt_mul inside
  have positive : 0 < rows := Nat.lt_of_le_of_lt (Nat.zero_le _) row
  have column : v % cols < cols := by
    apply mod_lt
    rcases Nat.eq_zero_or_pos cols with rfl | positive
    · exact absurd inside (by rw [Nat.zero_mul]; exact Nat.not_lt_zero v)
    · exact positive
  unfold place cell
  rw [Nat.mul_comm _ rows, mul_add_mod, mod_eq_of_lt row, mul_add_div positive, div_eq_of_lt row,
    Nat.add_zero, π.perm_inv _ column, Nat.mul_comm]
  exact div_add_mod v cols

end ColumnPerm

end IsrRan.Lib
