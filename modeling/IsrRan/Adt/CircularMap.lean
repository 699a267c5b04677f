import Mathlib.Data.Finset.Card

namespace IsrRan.Adt
open Finset
open Function (update update_eq_self update_idem update_of_ne update_self)

structure CircularMap (n : Nat) (α : Type*) where
  slots : Nat → Option (Nat × α) := fun _ => none
  count : Nat := 0

namespace CircularMap

variable {n : Nat} {α : Type*}

def find (m : CircularMap n α) (k : Nat) : Option α :=
  match m.slots (k % n) with
  | some (k', v) => if k' = k then some v else none
  | none => none

def contains (m : CircularMap n α) (k : Nat) : Bool := (m.find k).isSome

def overwrite (m : CircularMap n α) (k : Nat) (v : α) : CircularMap n α where
  slots := update m.slots (k % n) (some (k, v))
  count := if (m.slots (k % n)).isSome then m.count else m.count + 1

def erase (m : CircularMap n α) (k : Nat) : CircularMap n α :=
  if m.contains k then
    { slots := update m.slots (k % n) none, count := m.count - 1 }
  else m

def assign (m : CircularMap n α) (k : Nat) (v : α) : CircularMap n α :=
  if m.contains k then { m with slots := update m.slots (k % n) (some (k, v)) } else m

def full (m : CircularMap n α) : Bool := m.count = n

def isEmpty (m : CircularMap n α) : Bool := m.count = 0

def entries (m : CircularMap n α) : List (Nat × α) := (List.range n).filterMap m.slots

variable {m : CircularMap n α} {k slot : Nat} {v : α}

theorem contains_eq_true :
    m.contains k = true ↔ ∃ v, m.find k = some v := by
  simp [contains, Option.isSome_iff_exists]

theorem contains_eq_false :
    m.contains k = false ↔ m.find k = none := by
  simp [contains]

@[simp] theorem find_empty (k : Nat) : ({} : CircularMap n α).find k = none := rfl

theorem find_of_slot (h : m.find k = some v) :
    m.slots (k % n) = some (k, v) := by
  unfold find at h
  split at h
  · rename_i k' v' slot
    split at h
    · simp_all
    · contradiction
  · contradiction

theorem find_overwrite (m : CircularMap n α) (k : Nat) (v : α) (k' : Nat) :
    (m.overwrite k v).find k' =
      if k' = k then some v else if k' % n = k % n then none else m.find k' := by
  by_cases same : k' % n = k % n
  · simp only [find, overwrite, same, update_self, if_true]
    simp only [eq_comm]
  · have : k' ≠ k := fun eq => same (by rw [eq])
    simp [find, overwrite, same, this]

theorem find_overwrite_of_alone {k k' : Nat} (alone : ∀ old, m.find k' = some old → k' % n = k % n → k' = k) (v : α) :
    (m.overwrite k v).find k' = if k' = k then some v else m.find k' := by
  rw [find_overwrite]
  split
  · rfl
  · rename_i other
    split
    · rename_i slot
      cases found : m.find k' with
      | none => rfl
      | some old => exact absurd (alone old found slot) other
    · rfl

theorem find_erase (m : CircularMap n α) (k k' : Nat) :
    (m.erase k).find k' = if k' = k then none else m.find k' := by
  unfold erase
  split
  · rename_i present
    obtain ⟨v, found⟩ := contains_eq_true.mp present
    have slot := find_of_slot found
    by_cases same : k' % n = k % n
    · simp only [find, same, update_self, slot]
      by_cases eq : k' = k
      · rw [if_pos eq]
      · rw [if_neg eq, if_neg (Ne.symm eq)]
    · have : k' ≠ k := fun eq => same (by rw [eq])
      simp [find, update_of_ne same, this]
  · rename_i absent
    split
    · rename_i same
      rw [same]
      simpa [contains] using absent
    · rfl

theorem find_assign (present : m.contains k = true) (v : α) (k' : Nat) :
    (m.assign k v).find k' = if k' = k then some v else m.find k' := by
  obtain ⟨old, found⟩ := contains_eq_true.mp present
  have slot := find_of_slot found
  rw [assign, if_pos present]
  by_cases same : k' % n = k % n
  · simp only [find, same, update_self, slot]
    by_cases eq : k' = k
    · rw [if_pos eq, if_pos eq.symm]
    · rw [if_neg eq, if_neg (Ne.symm eq), if_neg (Ne.symm eq)]
  · have : k' ≠ k := fun eq => same (by rw [eq])
    simp [find, update_of_ne same, this]

theorem erase_overwrite (free : m.slots (k % n) = none) (v : α) :
    (m.overwrite k v).erase k = m := by
  have present : (m.overwrite k v).contains k = true := by
    simp [contains, find_overwrite]
  rw [erase, if_pos present]
  cases m with
  | mk slots count =>
    dsimp only at free
    simp only [overwrite, free, Option.isSome_none, Bool.false_eq_true, if_false, update_idem,
      Nat.add_sub_cancel]
    rw [← free, update_eq_self]

def occupied (m : CircularMap n α) : Finset Nat := (range n).filter fun slot => (m.slots slot).isSome

structure WellFormed (m : CircularMap n α) : Prop where
  placed : ∀ slot k v, m.slots slot = some (k, v) → k % n = slot
  counted : m.count = m.occupied.card

theorem wellFormed_empty : ({} : CircularMap n α).WellFormed :=
  ⟨fun _ _ _ taken => by contradiction, by simp [occupied]⟩

theorem occupied_update_some (m : CircularMap n α) (inside : slot < n) (p : Nat × α) (count : Nat) :
    occupied (n := n) ⟨update m.slots slot (some p), count⟩ = insert slot m.occupied := by
  ext k
  by_cases same : k = slot
  · simp [occupied, same, inside]
  · simp [occupied, same]

theorem occupied_update_none (m : CircularMap n α) (slot count : Nat) :
    occupied (n := n) ⟨update m.slots slot none, count⟩ = m.occupied.erase slot := by
  ext k
  by_cases same : k = slot
  · simp [occupied, same]
  · simp [occupied, same]

theorem mem_occupied :
    slot ∈ m.occupied ↔ slot < n ∧ (m.slots slot).isSome := by
  simp [occupied]

section
variable (h : m.WellFormed)
include h

theorem WellFormed.placed_update (k : Nat) (v : α) (slot k' : Nat) (v' : α)
    (taken : update m.slots (k % n) (some (k, v)) slot = some (k', v')) : k' % n = slot := by
  by_cases same : slot = k % n
  · rw [same, update_self] at taken
    obtain ⟨rfl, _⟩ := Prod.mk.inj (Option.some.inj taken)
    exact same.symm
  · rw [update_of_ne same] at taken
    exact h.placed slot k' v' taken

theorem WellFormed.overwrite (positive : 0 < n) (k : Nat) (v : α) :
    (m.overwrite k v).WellFormed := by
  have inside : k % n < n := Nat.mod_lt _ positive
  refine ⟨h.placed_update k v, ?_⟩
  · unfold CircularMap.overwrite
    rw [occupied_update_some m inside]
    split
    · rename_i taken
      rw [insert_eq_of_mem (mem_occupied.mpr ⟨inside, taken⟩), h.counted]
    · rename_i free
      rw [card_insert_of_notMem fun mem => free (mem_occupied.mp mem).2, h.counted]

theorem WellFormed.erase (positive : 0 < n) (k : Nat) :
    (m.erase k).WellFormed := by
  have inside : k % n < n := Nat.mod_lt _ positive
  unfold CircularMap.erase
  split
  · rename_i present
    obtain ⟨v, found⟩ := contains_eq_true.mp present
    refine ⟨fun slot k' v' taken => ?_, ?_⟩
    · dsimp only at taken
      by_cases same : slot = k % n
      · rw [same, update_self] at taken
        contradiction
      · rw [update_of_ne same] at taken
        exact h.placed slot k' v' taken
    · have mem : k % n ∈ m.occupied := mem_occupied.mpr ⟨inside, by rw [find_of_slot found]; rfl⟩
      rw [occupied_update_none, card_erase_of_mem mem, h.counted]
  · exact h

theorem WellFormed.assign (positive : 0 < n) (k : Nat) (v : α) :
    (m.assign k v).WellFormed := by
  have inside : k % n < n := Nat.mod_lt _ positive
  unfold CircularMap.assign
  split
  · rename_i present
    obtain ⟨old, found⟩ := contains_eq_true.mp present
    refine ⟨h.placed_update k v, ?_⟩
    · have mem : k % n ∈ m.occupied := mem_occupied.mpr ⟨inside, by rw [find_of_slot found]; rfl⟩
      rw [occupied_update_some m inside, insert_eq_of_mem mem, h.counted]
  · exact h

theorem WellFormed.find_eq (taken : m.slots slot = some (k, v)) : m.find k = some v := by
  unfold find
  rw [h.placed slot k v taken, taken]
  simp

theorem WellFormed.mem_entries (positive : 0 < n) :
    (k, v) ∈ m.entries ↔ m.find k = some v := by
  unfold entries
  rw [List.mem_filterMap]
  constructor
  · rintro ⟨slot, _, taken⟩
    exact h.find_eq taken
  · intro found
    exact ⟨k % n, List.mem_range.mpr (Nat.mod_lt _ positive), find_of_slot found⟩

theorem WellFormed.entries_keys :
    m.entries.Pairwise fun p q => p.1 ≠ q.1 := by
  refine List.Pairwise.filterMap _ (fun slot slot' other p taken q taken' same => ?_) List.nodup_range
  obtain ⟨k, v⟩ := p
  obtain ⟨k', v'⟩ := q
  rw [← h.placed slot k v taken, ← h.placed slot' k' v' taken'] at other
  exact other (congrArg (· % n) same)

theorem WellFormed.isEmpty_iff (positive : 0 < n) :
    m.isEmpty = true ↔ ∀ k, m.contains k = false := by
  unfold isEmpty
  rw [decide_eq_true_eq, h.counted, card_eq_zero]
  constructor
  · intro none k
    cases present : m.contains k with
    | false => rfl
    | true =>
      obtain ⟨v, found⟩ := contains_eq_true.mp present
      have mem : k % n ∈ m.occupied :=
        mem_occupied.mpr ⟨Nat.mod_lt _ positive, by rw [find_of_slot found]; rfl⟩
      rw [none] at mem
      simp at mem
  · intro absent
    refine eq_empty_of_forall_notMem fun slot mem => ?_
    obtain ⟨⟨k, v⟩, taken⟩ := Option.isSome_iff_exists.mp (mem_occupied.mp mem).2
    have present : m.contains k = true := contains_eq_true.mpr ⟨v, h.find_eq taken⟩
    rw [absent k] at present
    contradiction

end

end CircularMap

end IsrRan.Adt
