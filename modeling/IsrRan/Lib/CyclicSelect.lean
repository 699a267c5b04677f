import Mathlib.Data.List.GetD
import Mathlib.Data.List.Nodup
import Mathlib.Data.List.Perm.Subperm
import Mathlib.Data.List.Range

/-! A loop that walks over a cycle of places and stops when it has taken as many of those that it keeps as
it is asked for. -/

namespace IsrRan.Lib
open List Nat

section
variable {α : Type*} (keep : α → Bool) (place : Nat → α)

/-- The places taken from step `j` on until `k` are found; `none` when `fuel` steps are not enough. -/
def select : Nat → Nat → Nat → Option (List α)
  | _, _, 0 => some []
  | 0, _, _ + 1 => none
  | fuel + 1, j, k + 1 =>
    if keep (place j) then (select fuel (j + 1) k).map (place j :: ·) else select fuel (j + 1) (k + 1)

def keptIn (j n : Nat) : List α := ((range' j n).map place).filter keep

def cycled [Inhabited α] (kept : List α) (k : Nat) : List α :=
  (range k).map fun i => kept.getD (i % kept.length) default

variable {keep place} {j k m n fuel : Nat}

theorem keptIn_succ : keptIn keep place j (n + 1) =
    if keep (place j) then place j :: keptIn keep place (j + 1) n else keptIn keep place (j + 1) n := by
  unfold keptIn
  rw [List.range'_succ, map_cons, filter_cons]

theorem select_zero : select keep place fuel j 0 = some [] := by
  unfold select
  rfl

theorem walk_eq_select {β : Type*} {f : Nat → Nat → Nat → β → Option β} {put : Nat → α → β → β}
    {puts : Nat → List α → β → β} (walk : ∀ fuel k j s, f fuel k j s =
      if k < n then
        match fuel with
        | 0 => none
        | fuel + 1 => if keep (place j) then f fuel (k + 1) (j + 1) (put k (place j) s) else f fuel k (j + 1) s
      else some s)
    (nil : ∀ k s, puts k [] s = s) (cons : ∀ k a l s, puts k (a :: l) s = puts (k + 1) l (put k a s)) {s : β}
    (within : k ≤ n) : f fuel k j s = (select keep place fuel j (n - k)).map fun places => puts k places s := by
  induction fuel generalizing k j s with
  | zero =>
    rw [walk]
    split
    · obtain ⟨left, eq⟩ : ∃ left, n - k = left + 1 := ⟨n - k - 1, by omega⟩
      rw [eq]
      rfl
    · rw [show n - k = 0 by omega, select_zero, Option.map_some, nil]
  | succ fuel ih =>
    rw [walk]
    split
    · rename_i more
      obtain ⟨left, eq⟩ : ∃ left, n - k = left + 1 := ⟨n - k - 1, by omega⟩
      rw [eq, select]
      dsimp only
      rw [ih within, ih more, eq, show n - (k + 1) = left by omega]
      split
      · rw [Option.map_map]
        simp only [Function.comp_def, cons]
      · rfl
    · rw [show n - k = 0 by omega, select_zero, Option.map_some, nil]

theorem select_within (enough : k ≤ (keptIn keep place j m).length) (long : m ≤ fuel) :
    select keep place fuel j k = some ((keptIn keep place j m).take k) := by
  induction m generalizing fuel j k with
  | zero =>
    obtain rfl : k = 0 := Nat.le_zero.mp enough
    exact select_zero
  | succ m ih =>
    obtain ⟨fuel, rfl⟩ : ∃ f, fuel = f + 1 := ⟨fuel - 1, by omega⟩
    cases k with
    | zero => rfl
    | succ k =>
      rw [select]
      rw [keptIn_succ] at enough ⊢
      cases kept : keep (place j) with
      | true =>
        rw [kept] at enough
        rw [ih (le_of_succ_le_succ enough) (le_of_succ_le_succ long)]
        rfl
      | false =>
        rw [kept] at enough
        exact ih enough (le_of_succ_le_succ long)

theorem select_beyond (fewer : (keptIn keep place j m).length ≤ k) :
    select keep place (m + fuel) j k =
      (select keep place fuel (j + m) (k - (keptIn keep place j m).length)).map (keptIn keep place j m ++ ·) := by
  induction m generalizing j k with
  | zero =>
    rw [Nat.zero_add, show keptIn keep place j 0 = [] from rfl]
    cases select keep place fuel j k <;> rfl
  | succ m ih =>
    rw [keptIn_succ] at fewer ⊢
    rw [Nat.add_right_comm]
    cases kept : keep (place j) with
    | true =>
      rw [kept, if_pos rfl, length_cons] at fewer
      obtain ⟨k, rfl⟩ : ∃ l, k = l + 1 := ⟨k - 1, by omega⟩
      rw [select, kept, if_pos rfl, if_pos rfl, ih (le_of_succ_le_succ fewer), length_cons,
        Nat.add_sub_add_right, Nat.add_assoc j 1 m, Nat.add_comm 1 m, Option.map_map]
      rfl
    | false =>
      rw [kept, if_neg Bool.false_ne_true] at fewer
      rw [if_neg Bool.false_ne_true]
      cases k with
      | zero =>
        rw [eq_nil_of_length_eq_zero (Nat.le_zero.mp fewer)]
        rw [select_zero, Nat.zero_sub, select_zero]
        rfl
      | succ k =>
        rw [select, kept, if_neg Bool.false_ne_true, ih fewer, Nat.add_assoc j 1 m, Nat.add_comm 1 m]

end

section
variable {α : Type*} [Inhabited α] {keep : α → Bool} {place : Nat → α} {j k n fuel : Nat} {kept : List α}

@[simp] theorem cycled_length : (cycled kept k).length = k := by
  simp [cycled]

theorem cycled_getElem {i : Nat} (inside : i < (cycled kept k).length) :
    (cycled kept k)[i] = kept.getD (i % kept.length) default := by
  simp only [cycled, getElem_map, getElem_range]

theorem mem_of_mem_cycled (some_ : kept ≠ []) {a : α} (mem : a ∈ cycled kept k) : a ∈ kept := by
  obtain ⟨i, _, rfl⟩ := List.mem_map.mp mem
  have below := mod_lt i (length_pos_of_ne_nil some_)
  rw [getD_eq_getElem _ _ below]
  exact getElem_mem below

theorem cycled_of_le (short : k ≤ kept.length) : cycled kept k = kept.take k := by
  apply ext_getElem
  · rw [cycled_length, length_take, Nat.min_eq_left short]
  · intro i inside _
    rw [cycled_length] at inside
    have below : i < kept.length := Nat.lt_of_lt_of_le inside short
    simp [cycled, mod_eq_of_lt below, below]

theorem cycled_add : cycled kept (kept.length + k) = kept ++ cycled kept k := by
  have whole : cycled kept kept.length = kept := by
    rw [cycled_of_le le_rfl, take_length]
  have split : cycled kept (kept.length + k) = cycled kept kept.length ++ cycled kept k := by
    unfold cycled
    rw [range_add]
    simp
  rw [split, whole]

theorem select_periodic (periodic : ∀ i, place (i + n) = place i) (some_ : keptIn keep place j n ≠ [])
    (enough : k * n ≤ fuel) : select keep place fuel j k = some (cycled (keptIn keep place j n) k) := by
  have again : ∀ i, keptIn keep place (i + n) n = keptIn keep place i n := by
    intro i
    unfold keptIn
    congr 1
    rw [List.range'_eq_map_range, List.range'_eq_map_range, map_map, map_map]
    apply map_congr_left
    intro d _
    rw [Function.comp_apply, Nat.add_right_comm]
    exact periodic (i + d)
  induction k using Nat.strongRecOn generalizing j fuel with
  | ind k ih =>
    by_cases short : k ≤ (keptIn keep place j n).length
    · cases k with
      | zero => exact select_zero
      | succ k =>
        rw [cycled_of_le short]
        apply select_within short
        exact Nat.le_trans (Nat.le_mul_of_pos_left n (succ_pos k)) enough
    · have long := Nat.le_of_not_le short
      have positive := length_pos_of_ne_nil some_
      obtain ⟨rest, split⟩ := Nat.exists_eq_add_of_le long
      have room : rest * n + n ≤ fuel := by
        refine Nat.le_trans ?_ enough
        rw [← Nat.succ_mul]
        exact Nat.mul_le_mul_right n (by omega)
      obtain ⟨fuel, rfl⟩ : ∃ f, fuel = n + f := ⟨fuel - n, by omega⟩
      have later := ih rest (by omega) (again j ▸ some_) (by omega : rest * n ≤ fuel)
      rw [select_beyond long, split, Nat.add_sub_cancel_left, later, again, Option.map_some, cycled_add]

end

section
variable {α : Type*} {place : Nat → α} {keep keep' : α → Bool} {fuel j k : Nat}

theorem select_congr (same : ∀ i, keep (place i) = keep' (place i)) :
    select keep place fuel j k = select keep' place fuel j k := by
  induction fuel generalizing j k with
  | zero => cases k <;> rfl
  | succ fuel ih =>
    cases k with
    | zero => rfl
    | succ k =>
      rw [select, select, same j, ih, ih]

theorem select_add {indices : List α} (found : select keep place fuel j k = some indices) (more : Nat) :
    select keep place (fuel + more) j k = some indices := by
  induction fuel generalizing j k indices with
  | zero =>
    cases k with
    | zero =>
      rw [select_zero] at found ⊢
      exact found
    | succ k => cases found
  | succ fuel ih =>
    cases k with
    | zero =>
      rw [select_zero] at found ⊢
      exact found
    | succ k =>
      rw [Nat.add_right_comm]
      rw [select] at found ⊢
      split
      · rename_i kept
        rw [if_pos kept] at found
        obtain ⟨later, rest, rfl⟩ := Option.map_eq_some_iff.mp found
        rw [ih rest, Option.map_some]
      · rename_i skipped
        rw [if_neg skipped] at found
        exact ih found

theorem mem_keptIn {n : Nat} {a : α} :
    a ∈ keptIn keep place j n ↔ (∃ i, j ≤ i ∧ i < j + n ∧ place i = a) ∧ keep a = true := by
  unfold keptIn
  rw [mem_filter, mem_map]
  apply and_congr_left
  intro _
  constructor
  · rintro ⟨i, mem, rfl⟩
    obtain ⟨lower, upper⟩ := mem_range'_1.mp mem
    exact ⟨i, lower, upper, rfl⟩
  · rintro ⟨i, lower, upper, rfl⟩
    exact ⟨i, mem_range'_1.mpr ⟨lower, upper⟩, rfl⟩

end

section
variable {α : Type*} {cols rows : Nat} {f : Nat → Nat → α}

def grid (cols rows : Nat) (f : Nat → Nat → α) : List α :=
  (range cols).flatMap fun j => (range rows).map (f j)

theorem grid_eq_map (cols rows : Nat) (f : Nat → Nat → α) :
    grid cols rows f = (range (cols * rows)).map fun k => f (k / rows) (k % rows) := by
  rcases Nat.eq_zero_or_pos rows with rfl | positive
  · simp [grid]
  · induction cols with
    | zero => simp [grid]
    | succ cols ih =>
      unfold grid at ih ⊢
      rw [range_succ, flatMap_append, Nat.succ_mul, range_add, map_append, map_map]
      congr 1
      rw [flatMap_singleton]
      apply map_congr_left
      intro i mem
      have below := List.mem_range.mp mem
      rw [Function.comp_apply, Nat.mul_comm cols rows, mul_add_div positive, mul_add_mod,
        div_eq_of_lt below, mod_eq_of_lt below, Nat.add_zero]

@[simp] theorem grid_length : (grid cols rows f).length = cols * rows := by
  rw [grid_eq_map, length_map, length_range]

theorem grid_getD {k : Nat} (inside : k < cols * rows) (d : α) :
    (grid cols rows f).getD k d = f (k / rows) (k % rows) := by
  have below : k < (grid cols rows f).length := by rwa [grid_length]
  rw [getD_eq_getElem _ _ below]
  simp only [grid_eq_map, getElem_map, getElem_range]

theorem grid_transpose_perm (cols rows : Nat) :
    (grid cols rows fun j i => i * cols + j).Perm (range (cols * rows)) := by
  have distinct : (grid cols rows fun j i => i * cols + j).Nodup := by
    rw [grid_eq_map]
    apply List.Nodup.map_on _ nodup_range
    intro k memK l memL same
    have insideK := Nat.div_lt_of_lt_mul (Nat.mul_comm cols rows ▸ List.mem_range.mp memK)
    have insideL := Nat.div_lt_of_lt_mul (Nat.mul_comm cols rows ▸ List.mem_range.mp memL)
    have quotient := congrArg (· / cols) same
    have remainder := congrArg (· % cols) same
    have positive : 0 < cols := Nat.lt_of_le_of_lt (Nat.zero_le _) insideK
    simp only [Nat.mul_comm _ cols, mul_add_div positive, mul_add_mod, div_eq_of_lt insideK,
      div_eq_of_lt insideL, mod_eq_of_lt insideK, mod_eq_of_lt insideL, Nat.add_zero] at quotient remainder
    rw [← div_add_mod k rows, ← div_add_mod l rows, quotient, remainder]
  apply List.Subperm.perm_of_length_le
  · apply distinct.subperm
    intro a mem
    rw [grid_eq_map, mem_map] at mem
    obtain ⟨k, memK, rfl⟩ := mem
    have insideK := Nat.div_lt_of_lt_mul (Nat.mul_comm cols rows ▸ List.mem_range.mp memK)
    have positive : 0 < rows := by
      rcases Nat.eq_zero_or_pos rows with rfl | positive
      · exact absurd (List.mem_range.mp memK) (by simp)
      · exact positive
    rw [mem_range, Nat.mul_comm cols rows]
    calc
      k % rows * cols + k / rows < k % rows * cols + cols := Nat.add_lt_add_left insideK _
      _ = (k % rows + 1) * cols := (Nat.succ_mul _ _).symm
      _ ≤ rows * cols := Nat.mul_le_mul_right cols (mod_lt k positive)
  · rw [length_range, grid_length]

end

end IsrRan.Lib
