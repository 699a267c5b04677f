import Mathlib.Data.List.Perm.Basic
import Mathlib.Data.List.Range
import Mathlib.Data.List.Sort
import Mathlib.Data.Nat.Bitwise

namespace IsrRan.Lib
open List Nat
open Function (update update_of_ne update_self)

section
variable {α : Type*} {r : α → α → Prop} {p : α → Bool} {l : List α}

theorem takeWhile_eq_filter (sorted : l.Pairwise r) (down : ∀ a b, r a b → p b = true → p a = true) :
    l.takeWhile p = l.filter p := by
  induction l with
  | nil => rfl
  | cons a l ih =>
    obtain ⟨first, rest⟩ := List.pairwise_cons.mp sorted
    cases meets : p a with
    | true => rw [takeWhile_cons_of_pos meets, filter_cons_of_pos meets, ih rest]
    | false =>
      rw [takeWhile_cons_of_neg (by simp [meets]), filter_cons_of_neg (by simp [meets])]
      symm
      apply List.filter_eq_nil_iff.mpr
      intro b mem later
      rw [down a b (first b mem) later] at meets
      contradiction

theorem dropWhile_eq_filter (sorted : l.Pairwise r) (down : ∀ a b, r a b → p b = true → p a = true) :
    l.dropWhile p = l.filter fun a => !p a := by
  induction l with
  | nil => rfl
  | cons a l ih =>
    obtain ⟨first, rest⟩ := List.pairwise_cons.mp sorted
    cases meets : p a with
    | true => rw [dropWhile_cons_of_pos meets, filter_cons_of_neg (by simp [meets]), ih rest]
    | false =>
      rw [dropWhile_cons_of_neg (by simp [meets])]
      symm
      apply List.filter_eq_self.mpr
      intro b mem
      rcases List.mem_cons.mp mem with rfl | tail
      · simp [meets]
      · cases later : p b with
        | false => rfl
        | true =>
          rw [down a b (first b tail) later] at meets
          contradiction

structure StablySorted {β : Type*} [DecidableEq β] (r : α → α → Prop) (key : α → β) (out l : List α) : Prop where
  perm : out.Perm l
  sorted : out.Pairwise r
  stable : ∀ k, (out.filter fun a => key a = k) = l.filter fun a => key a = k

theorem stablySorted_insertionSort {β : Type*} [DecidableEq β] (r : α → α → Prop) [DecidableRel r] [Std.Total r]
    [IsTrans α r] {key : α → β} (same : ∀ a b, key a = key b → r a b) (l : List α) :
    StablySorted r key (l.insertionSort r) l where
  perm := perm_insertionSort r l
  sorted := pairwise_insertionSort r l
  stable := by
    intro k
    have alike : (l.filter fun a => key a = k).Pairwise r := by
      apply pairwise_of_forall_mem_list
      intro a memA b memB
      apply same
      have keyA := (List.mem_filter.mp memA).2
      have keyB := (List.mem_filter.mp memB).2
      exact (of_decide_eq_true keyA).trans (of_decide_eq_true keyB).symm
    have kept := (sublist_insertionSort alike filter_sublist).filter fun a => key a = k
    rw [filter_filter] at kept
    simp only [Bool.and_self] at kept
    symm
    apply kept.eq_of_length
    exact ((perm_insertionSort r l).filter fun a => key a = k).length_eq.symm

end

section
variable {α : Type*} {n : Nat} (eligible : Nat → Bool) (key : Nat → Nat) (name : Nat → α)

def argMaxStep (best : Option α × Nat) (i : Nat) : Option α × Nat :=
  if eligible i then
    if key i > best.2 then (some (name i), key i) else best
  else best

structure ArgMax (n : Nat) (best : Option α × Nat) : Prop where
  bound : ∀ i, i < n → eligible i = true → key i ≤ best.2
  found : ∀ a, best.1 = some a → ∃ i, i < n ∧ eligible i = true ∧ name i = a ∧ key i = best.2
  absent : best.1 = none → best.2 = 0

theorem argMax_range : ArgMax eligible key name n ((range n).foldl (argMaxStep eligible key name) (none, 0)) := by
  induction n with
  | zero => exact ⟨nofun, nofun, fun _ => rfl⟩
  | succ n ih =>
    rw [range_succ, foldl_append]
    generalize (range n).foldl (argMaxStep eligible key name) (none, 0) = best at ih
    change ArgMax eligible key name (n + 1) (argMaxStep eligible key name best n)
    have earlier : ∀ a, best.1 = some a → ∃ i, i < n + 1 ∧ eligible i = true ∧ name i = a ∧ key i = best.2 := by
      intro a same
      obtain ⟨i, below, rest⟩ := ih.found a same
      exact ⟨i, lt_succ_of_lt below, rest⟩
    unfold argMaxStep
    split
    · rename_i yes
      split
      · rename_i greater
        constructor
        · intro i below ok
          rcases Nat.lt_succ_iff_lt_or_eq.mp below with before | rfl
          · exact (ih.bound i before ok).trans greater.le
          · exact le_rfl
        · intro a same
          exact ⟨n, lt_succ_self n, yes, Option.some.inj same, rfl⟩
        · exact nofun
      · rename_i notGreater
        refine ⟨?_, earlier, ih.absent⟩
        intro i below ok
        rcases Nat.lt_succ_iff_lt_or_eq.mp below with before | rfl
        · exact ih.bound i before ok
        · exact Nat.le_of_not_gt notGreater
    · rename_i no
      refine ⟨?_, earlier, ih.absent⟩
      intro i below ok
      rcases Nat.lt_succ_iff_lt_or_eq.mp below with before | rfl
      · exact ih.bound i before ok
      · exact absurd ok no

end

section
variable {α : Type*}

def gather (src : Nat → α) : Nat → List Nat → (Nat → α) → Nat → α
  | _, [], dst => dst
  | out, i :: later, dst => gather src (out + 1) later (update dst out (src i))

def scatter (src : Nat → α) : Nat → List Nat → (Nat → α) → Nat → α
  | _, [], dst => dst
  | at_, i :: later, dst => scatter src (at_ + 1) later (update dst i (src at_))

variable {src dst : Nat → α} {out : Nat} {positions : List Nat}

theorem gather_before {k : Nat} (before : k < out) : gather src out positions dst k = dst k := by
  induction positions generalizing out dst with
  | nil => rfl
  | cons i later ih =>
    rw [gather, ih (lt_succ_of_lt before), update_of_ne (Nat.ne_of_lt before)]

theorem gather_get (k : Nat) (inside : k < positions.length) :
    gather src out positions dst (out + k) = src positions[k] := by
  induction positions generalizing out dst k with
  | nil => exact absurd inside (Nat.not_lt_zero k)
  | cons i later ih =>
    rw [gather]
    cases k with
    | zero =>
      show gather src (out + 1) later _ out = src i
      rw [gather_before (lt_succ_self out), update_self]
    | succ k =>
      rw [show out + (k + 1) = out + 1 + k by omega, ih k (lt_of_succ_lt_succ inside)]
      rfl

theorem scatter_of_notMem {i : Nat} (untouched : i ∉ positions) : scatter src out positions dst i = dst i := by
  induction positions generalizing out dst with
  | nil => rfl
  | cons j later ih =>
    rw [mem_cons, not_or] at untouched
    rw [scatter, ih untouched.2, update_of_ne untouched.1]

theorem scatter_get (distinct : positions.Nodup) (k : Nat) (inside : k < positions.length) :
    scatter src out positions dst positions[k] = src (out + k) := by
  induction positions generalizing out dst k with
  | nil => exact absurd inside (Nat.not_lt_zero k)
  | cons i later ih =>
    obtain ⟨fresh, distinct⟩ := List.nodup_cons.mp distinct
    rw [scatter]
    cases k with
    | zero =>
      rw [getElem_cons_zero, scatter_of_notMem fresh, update_self]
      rfl
    | succ k =>
      rw [getElem_cons_succ, ih distinct k (lt_of_succ_lt_succ inside),
        show out + 1 + k = out + (k + 1) by omega]

def accumulate {β : Type*} (op : β → α → β) (src : Nat → α) : Nat → List Nat → (Nat → β) → Nat → β
  | _, [], dst => dst
  | at_, i :: later, dst => accumulate op src (at_ + 1) later (update dst i (op (dst i) (src at_)))

theorem accumulate_eq_foldl {β : Type*} (op : β → α → β) (src : Nat → α) (at_ : Nat) (positions : List Nat)
    (dst : Nat → β) : accumulate op src at_ positions dst = (range positions.length).foldl (fun y k =>
      update y (positions.getD k 0) (op (y (positions.getD k 0)) (src (at_ + k)))) dst := by
  induction positions generalizing at_ dst with
  | nil => rfl
  | cons i later ih =>
    rw [accumulate, ih, length_cons, range_succ_eq_map, foldl_cons, foldl_map]
    apply foldl_ext
    intro y k _
    rw [getD_cons_succ, show at_ + 1 + k = at_ + k.succ by omega]

theorem accumulate_apply {β : Type*} (op : β → α → β) (src : Nat → α) (at_ : Nat) (positions : List Nat)
    (dst : Nat → β) (i : Nat) : accumulate op src at_ positions dst i =
      (((range positions.length).filter fun k => positions.getD k 0 = i).map fun k => src (at_ + k)).foldl op
        (dst i) := by
  induction positions generalizing at_ dst with
  | nil => rfl
  | cons j later ih =>
    have shifted : ((range later.length).map succ).filter (fun k => (j :: later).getD k 0 = i) =
        ((range later.length).filter fun k => later.getD k 0 = i).map succ := by
      rw [filter_map]
      rfl
    have values : (fun k => src (at_ + k)) ∘ succ = fun k => src (at_ + 1 + k) := by
      funext k
      show src (at_ + (k + 1)) = src (at_ + 1 + k)
      rw [Nat.add_right_comm, Nat.add_assoc]
    rw [accumulate, ih, length_cons, range_succ_eq_map, filter_cons, getD_cons_zero, shifted]
    by_cases here : j = i
    · rw [if_pos (decide_eq_true here), map_cons, map_map, values, here, update_self]
      rfl
    · rw [if_neg (by simp [here]), map_map, values, update_of_ne (Ne.symm here)]

theorem scatter_gather {n : Nat} (perm : positions.Perm (range n)) (dst' : Nat → α) {i : Nat} (inside : i < n) :
    scatter (gather src 0 positions dst) 0 positions dst' i = src i := by
  have mem : i ∈ positions := perm.mem_iff.mpr (List.mem_range.mpr inside)
  obtain ⟨k, valid, rfl⟩ := List.mem_iff_getElem.mp mem
  rw [scatter_get (perm.nodup_iff.mpr nodup_range) k valid, gather_get k valid]

end

section
variable {l : List Nat} {n : Nat}

def bitmap (l : List Nat) : Nat := l.foldr (fun i mask => mask ||| 2 ^ i) 0

theorem testBit_bitmap (l : List Nat) (i : Nat) : (bitmap l).testBit i = decide (i ∈ l) := by
  induction l with
  | nil => simp [bitmap]
  | cons j l ih =>
    have split_ : bitmap (j :: l) = bitmap l ||| 2 ^ j := rfl
    rw [split_, testBit_or, ih, testBit_two_pow]
    simp [eq_comm, Bool.or_comm]

theorem perm_range_of_bitmap (length : l.length = n) (full : bitmap l = 2 ^ n - 1) : l.Perm (range n) := by
  have covers : range n ⊆ l := by
    intro i mem
    have bit := testBit_bitmap l i
    rw [full, testBit_two_pow_sub_one, decide_eq_decide] at bit
    exact bit.mp (List.mem_range.mp mem)
  symm
  apply (subperm_of_subset nodup_range covers).perm_of_length_le
  rw [length, length_range]

end

section
variable {P Q : Nat → Prop} {found found' : Option Nat}

def FirstOf (P : Nat → Prop) : Option Nat → Prop
  | none => ∀ i, ¬P i
  | some k => P k ∧ ∀ i < k, ¬P i

def LastOf (P : Nat → Prop) : Option Nat → Prop
  | none => ∀ i, ¬P i
  | some k => P k ∧ ∀ i > k, ¬P i

theorem FirstOf.congr (first : FirstOf P found) (same : ∀ i, P i ↔ Q i) : FirstOf Q found := by
  obtain rfl : P = Q := funext fun i => propext (same i)
  exact first

theorem LastOf.congr (last : LastOf P found) (same : ∀ i, P i ↔ Q i) : LastOf Q found := by
  obtain rfl : P = Q := funext fun i => propext (same i)
  exact last

theorem FirstOf.unique (first : FirstOf P found) (first' : FirstOf P found') : found = found' := by
  cases found with
  | none =>
    cases found' with
    | none => rfl
    | some k => exact absurd first'.1 (first k)
  | some j =>
    cases found' with
    | none => exact absurd first.1 (first' j)
    | some k =>
      rcases Nat.lt_trichotomy j k with less | rfl | more
      · exact absurd first.1 (first'.2 j less)
      · rfl
      · exact absurd first'.1 (first.2 k more)

theorem firstOf_find?_range' (p : Nat → Bool) (start stop : Nat) :
    FirstOf (fun i => start ≤ i ∧ i < stop ∧ p i = true) ((range' start (stop - start)).find? p) := by
  cases found : (range' start (stop - start)).find? p with
  | none =>
    rintro i ⟨above, below, here⟩
    exact List.find?_eq_none.mp found i (mem_range'_1.mpr ⟨above, by omega⟩) here
  | some k =>
    have mem := mem_range'_1.mp (mem_of_find?_eq_some found)
    refine ⟨⟨mem.1, by omega, List.find?_some found⟩, ?_⟩
    rintro i less ⟨above, below, here⟩
    rw [List.find?_range'_eq_some] at found
    have early := found.2.2 i above less
    rw [here] at early
    cases early

theorem LastOf.mirrored {top : Nat} (last : LastOf P found) (below : ∀ i, P i → i ≤ top) :
    FirstOf (fun i => i ≤ top ∧ P (top - i)) (found.map fun k => top - k) := by
  cases found with
  | none => exact fun i there => last _ there.2
  | some k =>
    have inside := below k last.1
    refine ⟨⟨sub_le _ _, ?_⟩, ?_⟩
    · rw [Nat.sub_sub_self inside]
      exact last.1
    · rintro i less ⟨at_, there⟩
      have far : i < top - k := less
      exact last.2 (top - i) (by omega) there

end
end IsrRan.Lib
