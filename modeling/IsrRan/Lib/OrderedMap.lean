import Mathlib.Data.List.Basic

namespace IsrRan.Lib
open List

variable {α : Type*}

/-- A map from numeric keys, kept as an association list in increasing key order. -/
abbrev OrderedMap (α : Type*) := List (Nat × α)

namespace OrderedMap

def find : OrderedMap α → Nat → Option α
  | [], _ => none
  | p :: m, k => if k = p.1 then some p.2 else find m k

def contains (m : OrderedMap α) (k : Nat) : Bool := (m.find k).isSome

def erase (m : OrderedMap α) (k : Nat) : OrderedMap α := m.filter (fun p => p.1 ≠ k)

def place (k : Nat) (v : α) : OrderedMap α → OrderedMap α
  | [] => [(k, v)]
  | p :: m => if k < p.1 then (k, v) :: p :: m else p :: place k v m

def emplace (m : OrderedMap α) (k : Nat) (v : α) : OrderedMap α :=
  if m.contains k then m else place k v m

def insertOrAssign (m : OrderedMap α) (k : Nat) (v : α) : OrderedMap α :=
  place k v (m.erase k)

variable {m : OrderedMap α} {k : Nat} {v : α} {p q : Nat × α}

@[simp] theorem find_nil (k : Nat) : find ([] : OrderedMap α) k = none := rfl

theorem find_cons (p : Nat × α) (m : OrderedMap α) (k : Nat) :
    find (p :: m) k = if k = p.1 then some p.2 else find m k := rfl

theorem find_filter (keep : Nat → Bool) (m : OrderedMap α) (k : Nat) :
    find (m.filter (fun p => keep p.1)) k = if keep k then find m k else none := by
  induction m with
  | nil => simp
  | cons p m ih =>
    by_cases hp : keep p.1 <;> by_cases hk : k = p.1 <;>
      simp_all [find_cons]

theorem find_erase (m : OrderedMap α) (k k' : Nat) :
    find (erase m k) k' = if k' = k then none else find m k' := by
  have h := find_filter (fun x => decide (x ≠ k)) m k'
  by_cases hk : k' = k <;> simp_all [erase]

theorem find_place (m : OrderedMap α) (k : Nat) (v : α) (fresh : find m k = none) (k' : Nat) :
    find (place k v m) k' = if k' = k then some v else find m k' := by
  induction m with
  | nil => simp [place, find_cons]
  | cons p m ih =>
    rw [find_cons] at fresh
    unfold place
    split at fresh
    · contradiction
    · rename_i hne
      split
      · simp [find_cons]
      · rw [find_cons, find_cons]
        by_cases h₁ : k' = p.1 <;> by_cases h₂ : k' = k <;> simp_all

theorem find_insertOrAssign (m : OrderedMap α) (k : Nat) (v : α) (k' : Nat) :
    find (insertOrAssign m k v) k' = if k' = k then some v else find m k' := by
  rw [insertOrAssign, find_place _ _ _ (by simp [find_erase]), find_erase]
  by_cases h : k' = k <;> simp [h]

theorem mem_place (h : p ∈ place k v m) :
    p = (k, v) ∨ p ∈ m := by
  induction m with
  | nil => simpa [place] using h
  | cons q m ih =>
    unfold place at h
    split at h
    · simpa using h
    · rcases List.mem_cons.mp h with rfl | h
      · simp
      · rcases ih h with h | h <;> simp [h]

theorem mem_emplace (h : p ∈ emplace m k v) :
    p = (k, v) ∨ p ∈ m := by
  unfold emplace at h
  split at h
  · exact .inr h
  · exact mem_place h

def keys (m : OrderedMap α) : List Nat := m.map Prod.fst

def Sorted (m : OrderedMap α) : Prop := m.Pairwise fun p q => p.1 < q.1

theorem mem_of_find (found : find m k = some v) : (k, v) ∈ m := by
  induction m with
  | nil => simp at found
  | cons p m ih =>
    rw [find_cons] at found
    split at found
    · rename_i same
      rw [same, ← Option.some.inj found]
      exact mem_cons_self
    · exact mem_cons_of_mem _ (ih found)

theorem mem_erase : p ∈ erase m k ↔ p ∈ m ∧ p.1 ≠ k := by
  simp [erase]

theorem Sorted.filter (h : Sorted m) (keep : Nat × α → Bool) :
    Sorted (m.filter keep) := List.Pairwise.filter keep h

theorem le_of_mem_dropWhile (h : Sorted m) {bound : Nat}
    (mem : p ∈ m.dropWhile fun entry => entry.1 < bound) : bound ≤ p.1 := by
  induction m with
  | nil => simp at mem
  | cons q m ih =>
    obtain ⟨first, rest⟩ := List.pairwise_cons.mp h
    rw [dropWhile_cons] at mem
    split at mem
    · exact ih rest mem
    · rename_i reached
      have lower : bound ≤ q.1 := by simpa using reached
      rcases List.mem_cons.mp mem with rfl | mem
      · exact lower
      · exact Nat.le_of_lt (Nat.lt_of_le_of_lt lower (first p mem))

theorem Sorted.place (h : Sorted m) (fresh : ∀ p ∈ m, p.1 ≠ k) (v : α) :
    Sorted (place k v m) := by
  induction m with
  | nil => exact pairwise_singleton _ _
  | cons p m ih =>
    obtain ⟨first, rest⟩ := List.pairwise_cons.mp h
    unfold OrderedMap.place
    split
    · rename_i lower
      refine List.pairwise_cons.mpr ⟨fun q mem => ?_, h⟩
      rcases List.mem_cons.mp mem with rfl | mem
      · exact lower
      · exact Nat.lt_trans lower (first q mem)
    · rename_i notLower
      have different := fresh p mem_cons_self
      refine List.pairwise_cons.mpr ⟨fun q mem => ?_, ih rest fun q mem => fresh q (by simp [mem])⟩
      rcases mem_place mem with rfl | mem
      · exact Nat.lt_of_le_of_ne (Nat.not_lt.mp notLower) different
      · exact first q mem

theorem Sorted.insertOrAssign (h : Sorted m) (k : Nat) (v : α) :
    Sorted (insertOrAssign m k v) :=
  Sorted.place (h.filter _) (fun _ mem => (mem_erase.mp mem).2) v

theorem mem_place_self (m : OrderedMap α) (k : Nat) (v : α) : (k, v) ∈ place k v m := by
  induction m with
  | nil => exact mem_cons_self
  | cons p m ih =>
    unfold place
    split
    · exact mem_cons_self
    · exact mem_cons_of_mem _ ih

theorem mem_place_of_mem (mem : q ∈ m) (k : Nat) (v : α) : q ∈ place k v m := by
  induction m with
  | nil => cases mem
  | cons p m ih =>
    unfold place
    split
    · exact mem_cons_of_mem _ mem
    · rcases List.mem_cons.mp mem with rfl | later
      · exact mem_cons_self
      · exact mem_cons_of_mem _ (ih later)

theorem mem_emplace_of_mem (mem : q ∈ m) (k : Nat) (v : α) : q ∈ emplace m k v := by
  unfold emplace
  split
  · exact mem
  · exact mem_place_of_mem mem k v

theorem contains_emplace {k' : Nat} (v : α) (other : k' ≠ k) :
    contains (emplace m k v) k' = contains m k' := by
  unfold emplace
  split
  · rfl
  · rename_i new
    unfold contains at *
    rw [find_place m k v (by simpa using new), if_neg other]

theorem Sorted.eq_of_key (h : Sorted m) (memP : p ∈ m) (memQ : q ∈ m)
    (same : p.1 = q.1) : p = q := by
  induction m with
  | nil => cases memP
  | cons r m ih =>
    obtain ⟨first, rest⟩ := List.pairwise_cons.mp h
    rcases List.mem_cons.mp memP with rfl | laterP <;> rcases List.mem_cons.mp memQ with rfl | laterQ
    · rfl
    · exact absurd same (Nat.ne_of_lt (first q laterQ))
    · exact absurd same (Nat.ne_of_gt (first p laterP))
    · exact ih rest laterP laterQ

theorem ne_of_find_eq_none (fresh : find m k = none) :
    ∀ p ∈ m, p.1 ≠ k := by
  induction m with
  | nil => simp
  | cons p m ih =>
    rw [find_cons] at fresh
    split at fresh
    · contradiction
    · rename_i different
      intro q mem
      rcases List.mem_cons.mp mem with rfl | mem
      · exact Ne.symm different
      · exact ih fresh q mem

theorem Sorted.emplace (h : Sorted m) (k : Nat) (v : α) : Sorted (emplace m k v) := by
  unfold OrderedMap.emplace contains
  split
  · exact h
  · rename_i fresh
    exact h.place (ne_of_find_eq_none (by simpa using fresh)) v

theorem exists_mem_emplace (m : OrderedMap α) (k : Nat) (v : α) : ∃ w, (k, w) ∈ emplace m k v := by
  unfold emplace contains
  split
  · rename_i there
    obtain ⟨w, found⟩ := Option.isSome_iff_exists.mp there
    exact ⟨w, mem_of_find found⟩
  · exact ⟨v, mem_place_self m k v⟩

theorem Sorted.eq_cons_of_mem_zero (h : Sorted m) (mem : (0, v) ∈ m) :
    ∃ rest, m = (0, v) :: rest := by
  cases m with
  | nil => cases mem
  | cons p rest =>
    rcases List.mem_cons.mp mem with rfl | later
    · exact ⟨rest, rfl⟩
    · exact absurd ((List.pairwise_cons.mp h).1 _ later) (Nat.not_lt_zero _)

theorem mem_insertOrAssign
    (h : p ∈ insertOrAssign m k v) : p = (k, v) ∨ p ∈ m ∧ p.1 ≠ k := by
  rcases mem_place h with same | mem
  · exact .inl same
  · exact .inr (mem_erase.mp mem)

theorem mem_keys : k ∈ keys m ↔ (find m k).isSome = true := by
  induction m with
  | nil => simp [keys]
  | cons p m ih =>
    unfold keys at ih ⊢
    rw [map_cons, mem_cons, find_cons, ih]
    split
    · rename_i same
      simp [same]
    · rename_i other
      simp [other]

theorem find_eq_none_of_lt (above : ∀ p ∈ m, k < p.1) : find m k = none := by
  induction m with
  | nil => rfl
  | cons p m ih =>
    have first := above p mem_cons_self
    rw [find_cons, if_neg (Nat.ne_of_lt first)]
    exact ih fun q mem => above q (mem_cons_of_mem _ mem)

variable {β : Type*}

def updateAll (f : α → Option β) (m : OrderedMap α) : OrderedMap β :=
  m.filterMap fun p => (f p.2).map fun v => (p.1, v)

theorem mem_updateAll {f : α → Option β} {m : OrderedMap α} {q : Nat × β} (mem : q ∈ updateAll f m) :
    ∃ p ∈ m, p.1 = q.1 ∧ f p.2 = some q.2 := by
  obtain ⟨p, there, eq⟩ := List.mem_filterMap.mp mem
  obtain ⟨v, value, rfl⟩ := Option.map_eq_some_iff.mp eq
  exact ⟨p, there, rfl, value⟩

theorem Sorted.updateAll {m : OrderedMap α} (h : Sorted m) (f : α → Option β) : Sorted (updateAll f m) := by
  refine List.Pairwise.filterMap _ (fun p q before p' first q' second => ?_) h
  obtain ⟨v, _, rfl⟩ := Option.map_eq_some_iff.mp first
  obtain ⟨w, _, rfl⟩ := Option.map_eq_some_iff.mp second
  exact before

theorem Sorted.find_updateAll {m : OrderedMap α} (h : Sorted m) (f : α → Option β) (k : Nat) :
    find (OrderedMap.updateAll f m) k = (find m k).bind f := by
  induction m with
  | nil => rfl
  | cons p m ih =>
    obtain ⟨first, rest⟩ := List.pairwise_cons.mp h
    unfold OrderedMap.updateAll at ih ⊢
    rw [filterMap_cons, find_cons]
    cases value : f p.2 with
    | none =>
      simp only [Option.map_none]
      split
      · rename_i same
        rw [same, Option.bind_some, value]
        refine find_eq_none_of_lt fun q mem => ?_
        obtain ⟨p', there, eq, _⟩ := mem_updateAll mem
        rw [← eq]
        exact first p' there
      · exact ih rest
    | some v =>
      simp only [Option.map_some]
      rw [find_cons]
      split
      · rw [Option.bind_some, value]
      · exact ih rest

end OrderedMap

end IsrRan.Lib
