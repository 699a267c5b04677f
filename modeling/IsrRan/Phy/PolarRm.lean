import Mathlib.Algebra.Order.Ring.Int
import Mathlib.Tactic.Ring
import IsrRan.Lib.Lists

/-! Polar rate matching and dematching (polar_rm.c). `E` is at most `EMAX` = 8192 and `K` at most 1023, as
`get_code_params` checks, so that no product or sum of them wraps around. -/

namespace IsrRan.Phy.Polar
open List
open Lib (gather scatter)

section
variable {α : Type}

/-! ### The interleaver of the codeword -/

structure BlkInterleaver (n : Nat) where
  indices : Nat → Nat
  lt : ∀ j, j < n → indices j < n
  inj : ∀ i j, i < n → j < n → indices i = indices j → i = j

def interleaverRmTx (input output : Nat → α) (indices : Nat → Nat) (len : Nat) : Nat → α :=
  gather input 0 ((range len).map indices) output

def interleaverRmRx (input output : Nat → α) (indices : Nat → Nat) (len : Nat) : Nat → α :=
  scatter input 0 ((range len).map indices) output

/-! ### The channel interleaver -/

def chTriangle (e s t : Nat) : Nat := if s < e then chTriangle e (s + (t + 1)) (t + 1) else t
  termination_by e - s

def chRow (e t : Nat) : Nat → Nat → Nat → List Nat
  | 0, _, _ => []
  | left + 1, c, iIn => if iIn < e then iIn :: chRow e t left (c + 1) (iIn + (t - c)) else []

def chPositions (e : Nat) : List Nat :=
  (range (chTriangle e 1 1)).flatMap fun r => chRow e (chTriangle e 1 1) (chTriangle e 1 1 - r) 0 r

def chInterleaverRmTx (e f : Nat → α) (len : Nat) : Nat → α := gather e 0 (chPositions len) f

def chInterleaverRmRx (f e : Nat → α) (len : Nat) : Nat → α := scatter f 0 (chPositions len) e

/-! ### Bit selection -/

def bitSelectionRmTx (y : Nat → α) (n e k : Nat) : (Nat → α) × Nat :=
  if e ≥ n then ((range' n (e - n)).foldl (fun y i => Function.update y i (y (i % n))) y, 0)
  else if 16 * k ≤ 7 * e then (y, n - e)
  else (y, 0)

def satAdd (limit a b : Int) : Int :=
  if a + b > limit then limit else if a + b < -limit then -limit else a + b

/-- The buffer from the returned pointer on. For puncturing it points to the cells in front of `e`. -/
def bitSelectionRmRx (limit : Int) (e : Nat → Int) (len n k : Nat) : Nat → Int :=
  if len ≥ n then
    (range' n (len - n)).foldl (fun y i => Function.update y (i % n) (satAdd limit (y (i % n)) (y i))) e
  else if 16 * k ≤ 7 * len then fun i => if i < n - len then 0 else e (i - (n - len))
  else fun i => if len ≤ i ∧ i < n then limit else e i

def polarRmTx (ye input output : Nat → α) (indices : Nat → Nat) (n e k : Nat) (ibil : Bool) : Nat → α :=
  let selected := bitSelectionRmTx (interleaverRmTx input ye indices n) n e k
  if ibil then chInterleaverRmTx (fun i => selected.1 (selected.2 + i)) output e
  else fun i => if i < e then selected.1 (selected.2 + i) else output i

/-- `isrran_polar_rm_rx_c` and its 16-bit version, which differ in the limit only. -/
def polarRmRx (limit : Int) (ye input output : Nat → Int) (indices : Nat → Nat) (n e k : Nat) (ibil : Bool) :
    Nat → Int :=
  let received := if ibil then chInterleaverRmRx input ye e else fun i => if i < e then input i else ye i
  interleaverRmRx (bitSelectionRmRx limit received e n k) output indices n

end

/-! ### The triangle -/

def column (t : Nat) : Nat → Nat
  | 0 => 0
  | c + 1 => column t c + (t - c)

section
variable {e s t : Nat}

theorem two_mul_column {c : Nat} (le : c ≤ t) : 2 * column t c + (t - c) * (t - c + 1) = t * (t + 1) := by
  induction c with
  | zero => simp [column]
  | succ c ih =>
    have before := ih (Nat.le_of_succ_le le)
    obtain ⟨d, eq⟩ : ∃ d, t - c = d + 1 := ⟨t - c - 1, by omega⟩
    rw [eq] at before
    rw [column, eq, show t - (c + 1) = d by omega, ← before]
    ring

theorem chTriangle_covers (sum : 2 * s = t * (t + 1)) : 2 * e ≤ chTriangle e s t * (chTriangle e s t + 1) := by
  fun_induction chTriangle e s t with
  | case1 s t short ih =>
    apply ih
    rw [Nat.mul_add, sum]
    ring
  | case2 s t enough => omega

theorem le_column : e ≤ column (chTriangle e 1 1) (chTriangle e 1 1) := by
  have whole := two_mul_column (Nat.le_refl (chTriangle e 1 1))
  have covers := @chTriangle_covers e 1 1 rfl
  rw [Nat.sub_self] at whole
  omega

theorem column_mono {c c' : Nat} (le : c ≤ c') : column t c ≤ column t c' := by
  induction le with
  | refl => exact Nat.le_refl _
  | step _ ih => exact Nat.le_trans ih (Nat.le_add_right _ _)

theorem column_unique {c c' i : Nat} (lower : column t c ≤ i) (upper : i < column t (c + 1))
    (lower' : column t c' ≤ i) (upper' : i < column t (c' + 1)) : c = c' := by
  rcases Nat.lt_trichotomy c c' with before | same | behind
  · have : column t (c + 1) ≤ column t c' := column_mono before
    omega
  · exact same
  · have : column t (c' + 1) ≤ column t c := column_mono behind
    omega

theorem exists_column {c i : Nat} (inside : i < column t c) :
    ∃ c', c' < c ∧ column t c' ≤ i ∧ i < column t (c' + 1) := by
  induction c with
  | zero => exact absurd inside (Nat.not_lt_zero i)
  | succ c ih =>
    by_cases here : column t c ≤ i
    · exact ⟨c, Nat.lt_succ_self c, here, inside⟩
    · obtain ⟨c', below, found⟩ := ih (Nat.lt_of_not_le here)
      exact ⟨c', Nat.lt_succ_of_lt below, found⟩

theorem mem_chRow {left c r i : Nat} (fits : c + left + r ≤ t) :
    i ∈ chRow e t left c (column t c + r) ↔ i < e ∧ ∃ c', c ≤ c' ∧ c' < c + left ∧ i = column t c' + r := by
  induction left generalizing c with
  | zero =>
    simp only [chRow, not_mem_nil, false_iff]
    omega
  | succ left ih =>
    have next : column t c + r + (t - c) = column t (c + 1) + r := by
      rw [column]
      omega
    rw [chRow, next]
    split
    · rename_i inside
      rw [mem_cons, ih (by omega)]
      constructor
      · rintro (rfl | ⟨below, c', lower, upper, rfl⟩)
        · exact ⟨inside, c, Nat.le_refl c, by omega, rfl⟩
        · exact ⟨below, c', by omega, by omega, rfl⟩
      · rintro ⟨below, c', lower, upper, rfl⟩
        rcases Nat.eq_or_lt_of_le lower with rfl | later
        · exact Or.inl rfl
        · exact Or.inr ⟨below, c', later, by omega, rfl⟩
    · rename_i outside
      simp only [not_mem_nil, false_iff]
      rintro ⟨below, c', lower, upper, rfl⟩
      have := @column_mono t _ _ lower
      omega

theorem nodup_chRow {left c r : Nat} (fits : c + left + r ≤ t) : (chRow e t left c (column t c + r)).Nodup := by
  induction left generalizing c with
  | zero => exact nodup_nil
  | succ left ih =>
    have next : column t c + r + (t - c) = column t (c + 1) + r := by
      rw [column]
      omega
    rw [chRow, next]
    split
    · refine List.nodup_cons.mpr ⟨fun mem => ?_, ih (by omega)⟩
      obtain ⟨-, c', lower, upper, eq⟩ := (mem_chRow (by omega)).mp mem
      have := @column_mono t _ _ lower
      omega
    · exact nodup_nil

theorem chPositions_perm (e : Nat) : (chPositions e).Perm (range e) := by
  have covers := @le_column e
  unfold chPositions
  generalize chTriangle e 1 1 = t at covers ⊢
  have row : ∀ r, r < t → ∀ i, i ∈ chRow e t (t - r) 0 r ↔ i < e ∧ ∃ c, c < t - r ∧ i = column t c + r := by
    intro r below i
    have all := @mem_chRow e t (t - r) 0 r i (by omega)
    rw [column] at all
    simpa using all
  apply (perm_ext_iff_of_nodup ?_ nodup_range).mpr
  · intro i
    rw [mem_flatMap, mem_range]
    constructor
    · rintro ⟨r, mem, here⟩
      exact ((row r (List.mem_range.mp mem) i).mp here).1
    · intro below
      obtain ⟨c, inside, lower, upper⟩ := exists_column (Nat.lt_of_lt_of_le below covers)
      have wide : column t (c + 1) = column t c + (t - c) := rfl
      refine ⟨i - column t c, List.mem_range.mpr (by omega), (row _ (by omega) i).mpr ⟨below, c, by omega, by omega⟩⟩
  refine List.nodup_flatMap.mpr ⟨fun r mem => ?_, ?_⟩
  · have distinct := @nodup_chRow e t (t - r) 0 r (by have := List.mem_range.mp mem; omega)
    rw [column, Nat.zero_add] at distinct
    exact distinct
  · refine List.Pairwise.imp_of_mem (fun {r r'} mem mem' before => ?_) pairwise_lt_range
    -- A position in two rows would lie in one column twice.
    intro i here there
    have below := List.mem_range.mp mem
    have below' := List.mem_range.mp mem'
    obtain ⟨-, c, inside, eq⟩ := (row r below i).mp here
    obtain ⟨-, c', inside', eq'⟩ := (row r' below' i).mp there
    have wide : column t (c + 1) = column t c + (t - c) := rfl
    have wide' : column t (c' + 1) = column t c' + (t - c') := rfl
    have same : c = c' := @column_unique t c c' i (by omega) (by omega) (by omega) (by omega)
    rw [same] at eq
    omega

end
end IsrRan.Phy.Polar
