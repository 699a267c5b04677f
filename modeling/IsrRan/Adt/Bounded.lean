import IsrRan.Common.Memory

namespace IsrRan
open List Nat

structure BoundedVector (α : Type) (maxN : Nat) where
  toList : List α
  length_le : toList.length ≤ maxN
  deriving DecidableEq, Repr

namespace BoundedVector
variable {α : Type} {maxN : Nat}

def empty : BoundedVector α maxN := ⟨[], Nat.zero_le _⟩

def pushBack (v : BoundedVector α maxN) (a : α) : Except Fault (BoundedVector α maxN) :=
  if room : v.toList.length < maxN then .ok ⟨v.toList ++ [a], by rw [length_append]; exact room⟩ else .error .assertionFailed

@[simp] theorem empty_toList : (empty : BoundedVector α maxN).toList = [] := rfl

theorem pushBack_of_lt {v : BoundedVector α maxN} (a : α) (room : v.toList.length < maxN) :
    ∃ v', v.pushBack a = .ok v' ∧ v'.toList = v.toList ++ [a] :=
  ⟨_, dif_pos room, rfl⟩

theorem pushBack_of_le {v : BoundedVector α maxN} (a : α) (full : maxN ≤ v.toList.length) :
    v.pushBack a = .error .assertionFailed :=
  dif_neg (Nat.not_lt.mpr full)

end BoundedVector

def popFront {α : Type} : List α → Except Fault (List α)
  | [] => .error .undefinedBehaviour
  | _ :: queue => .ok queue

/-- `bounded_bitset`, position `i` held in bit `i` of the number. -/
structure BoundedBitset where
  size : Nat
  bits : Nat
  deriving DecidableEq, Repr

namespace BoundedBitset

def resized (maxSize newSize : Nat) : Except Fault BoundedBitset :=
  if newSize ≤ maxSize then .ok ⟨newSize, 0⟩ else .error .assertionFailed

def reset (b : BoundedBitset) : BoundedBitset := { b with bits := 0 }

def test (b : BoundedBitset) (pos : Nat) : Except Fault Bool :=
  if pos < b.size then .ok (b.bits.testBit pos) else .error .assertionFailed

def set (b : BoundedBitset) (pos : Nat) : Except Fault BoundedBitset :=
  if pos < b.size then .ok { b with bits := b.bits ||| 1 <<< pos } else .error .assertionFailed

def fill (b : BoundedBitset) (startpos endpos : Nat) : Except Fault BoundedBitset :=
  if startpos ≤ endpos ∧ endpos ≤ b.size then
    .ok { b with bits := b.bits ||| (2 ^ (endpos - startpos) - 1) <<< startpos }
  else .error .assertionFailed

def findLowest (b : BoundedBitset) (startpos endpos : Nat) (value : Bool) : Except Fault (Option Nat) :=
  if startpos ≤ endpos ∧ endpos ≤ b.size then
    .ok ((range' startpos (endpos - startpos)).find? fun i => b.bits.testBit i == value)
  else .error .assertionFailed

def any (b : BoundedBitset) : Bool := b.bits != 0

def anyIn (b : BoundedBitset) (start stop : Nat) : Except Fault Bool :=
  if start ≤ b.size ∧ stop ≤ b.size then
    .ok ((range' start (stop - start)).any fun i => b.bits.testBit i)
  else .error .assertionFailed

def and (b other : BoundedBitset) : Except Fault BoundedBitset :=
  if other.size = b.size then .ok { b with bits := b.bits &&& other.bits } else .error .assertionFailed

def or (b other : BoundedBitset) : Except Fault BoundedBitset :=
  if other.size = b.size then .ok { b with bits := b.bits ||| other.bits } else .error .assertionFailed

instance : Membership Nat BoundedBitset := ⟨fun b pos => b.bits.testBit pos = true⟩

variable {b : BoundedBitset} {pos startpos endpos : Nat}

theorem mem_def : pos ∈ b ↔ b.bits.testBit pos = true := Iff.rfl

theorem not_mem_reset : pos ∉ b.reset := by
  simp [mem_def, reset]

theorem resized_ok {maxSize newSize : Nat} (h : resized maxSize newSize = .ok b) :
    newSize ≤ maxSize ∧ b.size = newSize ∧ ∀ pos, pos ∉ b := by
  unfold resized at h
  split at h
  · rename_i fits
    obtain rfl := Except.ok.inj h
    exact ⟨fits, rfl, fun pos => by simp [mem_def]⟩
  · contradiction

theorem fill_ok {b' : BoundedBitset} (h : b.fill startpos endpos = .ok b') :
    endpos ≤ b.size ∧ b'.size = b.size ∧ ∀ pos, pos ∈ b' ↔ pos ∈ b ∨ startpos ≤ pos ∧ pos < endpos := by
  unfold fill at h
  split at h
  · rename_i range
    obtain rfl := Except.ok.inj h
    refine ⟨range.2, rfl, fun pos => ?_⟩
    simp only [mem_def, testBit_or, testBit_shiftLeft, testBit_two_pow_sub_one, Bool.or_eq_true,
      Bool.and_eq_true, decide_eq_true_eq]
    apply or_congr Iff.rfl
    omega
  · contradiction

theorem any_iff : b.any = true ↔ ∃ pos, pos ∈ b := by
  rw [any, bne_iff_ne]
  constructor
  · exact exists_testBit_of_ne_zero
  · rintro ⟨pos, mem⟩ zero
    rw [mem_def, zero, zero_testBit] at mem
    contradiction

theorem and_ok {other shared : BoundedBitset} (h : b.and other = .ok shared) :
    other.size = b.size ∧ ∀ pos, pos ∈ shared ↔ pos ∈ b ∧ pos ∈ other := by
  unfold BoundedBitset.and at h
  split at h
  · rename_i same
    obtain rfl := Except.ok.inj h
    exact ⟨same, fun pos => by simp [mem_def]⟩
  · contradiction

theorem or_ok {other union : BoundedBitset} (h : b.or other = .ok union) :
    union.size = b.size ∧ ∀ pos, pos ∈ union ↔ pos ∈ b ∨ pos ∈ other := by
  unfold BoundedBitset.or at h
  split at h
  · obtain rfl := Except.ok.inj h
    exact ⟨rfl, fun pos => by simp [mem_def]⟩
  · contradiction

theorem set_ok {b' : BoundedBitset} (h : b.set pos = .ok b') :
    pos < b.size ∧ b'.size = b.size ∧ ∀ i, i ∈ b' ↔ i ∈ b ∨ i = pos := by
  unfold set at h
  split at h
  · rename_i inside
    obtain rfl := Except.ok.inj h
    refine ⟨inside, rfl, fun i => ?_⟩
    simp only [mem_def, testBit_or, one_shiftLeft, testBit_two_pow, Bool.or_eq_true, decide_eq_true_eq]
    exact or_congr Iff.rfl eq_comm
  · contradiction

theorem findLowest_of_le (value : Bool)
    (range : startpos ≤ endpos ∧ endpos ≤ b.size) : ∃ found, b.findLowest startpos endpos value = .ok found :=
  ⟨_, if_pos range⟩

theorem findLowest_some {value : Bool}
    (h : b.findLowest startpos endpos value = .ok (some pos)) :
    startpos ≤ pos ∧ pos < endpos ∧ endpos ≤ b.size ∧ b.bits.testBit pos = value ∧
      ∀ i, startpos ≤ i → i < pos → b.bits.testBit i ≠ value := by
  unfold findLowest at h
  split at h
  · rename_i range
    have found := Except.ok.inj h
    have mem := List.mem_range'_1.mp (List.mem_of_find?_eq_some found)
    have here := List.find?_some found
    refine ⟨mem.1, by omega, range.2, eq_of_beq here, fun i lower upper same => ?_⟩
    rw [List.find?_range'_eq_some] at found
    have := found.2.2 i lower upper
    rw [same] at this
    simp at this
  · contradiction

theorem findLowest_none {value : Bool}
    (h : b.findLowest startpos endpos value = .ok none) :
    ∀ i, startpos ≤ i → i < endpos → b.bits.testBit i ≠ value := by
  unfold findLowest at h
  split at h
  · intro i lower upper same
    have missed := List.find?_eq_none.mp (Except.ok.inj h) i (List.mem_range'_1.mpr ⟨lower, by omega⟩)
    rw [same] at missed
    simp at missed
  · contradiction

theorem anyIn_of_le {b : BoundedBitset} {start stop : Nat} (range : start ≤ b.size ∧ stop ≤ b.size) :
    ∃ found, b.anyIn start stop = .ok found ∧ (found = true ↔ ∃ i, start ≤ i ∧ i < stop ∧ i ∈ b) := by
  refine ⟨_, if_pos range, ?_⟩
  rw [any_eq_true]
  constructor
  · rintro ⟨i, mem, here⟩
    have inside := List.mem_range'_1.mp mem
    exact ⟨i, inside.1, by omega, here⟩
  · rintro ⟨i, lower, upper, here⟩
    exact ⟨i, List.mem_range'_1.mpr ⟨lower, by omega⟩, here⟩

def reserve (total current : BoundedBitset) (startpos endpos : Nat) :
    Except Fault (Option (BoundedBitset × BoundedBitset)) := do
  let current ← current.reset.fill startpos endpos
  let shared ← total.and current
  if shared.any then return none
  return some (← total.or current, current)

section Reserve
variable {total current total' current' : BoundedBitset} {startpos endpos : Nat}

theorem reserve_some (h : reserve total current startpos endpos = .ok (some (total', current'))) :
    endpos ≤ current.size ∧ total'.size = total.size ∧
      (∀ pos, pos ∈ total' ↔ pos ∈ total ∨ startpos ≤ pos ∧ pos < endpos) ∧
      ∀ pos, startpos ≤ pos → pos < endpos → pos ∉ total := by
  obtain ⟨filled, fill, h⟩ := bind_eq_ok.mp h
  obtain ⟨shared, and, h⟩ := bind_eq_ok.mp h
  obtain ⟨fits, _, inFilled⟩ := fill_ok fill
  obtain ⟨_, inShared⟩ := and_ok and
  replace inFilled : ∀ pos, pos ∈ filled ↔ startpos ≤ pos ∧ pos < endpos :=
    fun pos => (inFilled pos).trans (or_iff_right not_mem_reset)
  split at h
  · simp [pure, Except.pure] at h
  · rename_i free
    obtain ⟨union, or, eq⟩ := bind_eq_ok.mp h
    obtain ⟨rfl, rfl⟩ := eq
    obtain ⟨size, inUnion⟩ := or_ok or
    refine ⟨fits, size, fun pos => by rw [inUnion, inFilled], fun pos lower upper taken => free ?_⟩
    exact any_iff.mpr ⟨pos, (inShared pos).mpr ⟨taken, (inFilled pos).mpr ⟨lower, upper⟩⟩⟩

theorem reserve_none (h : reserve total current startpos endpos = .ok none) :
    ∃ pos, startpos ≤ pos ∧ pos < endpos ∧ pos ∈ total := by
  obtain ⟨filled, fill, h⟩ := bind_eq_ok.mp h
  obtain ⟨shared, and, h⟩ := bind_eq_ok.mp h
  obtain ⟨_, _, inFilled⟩ := fill_ok fill
  obtain ⟨_, inShared⟩ := and_ok and
  split at h
  · rename_i collision
    obtain ⟨pos, mem⟩ := any_iff.mp collision
    obtain ⟨taken, inside⟩ := (inShared pos).mp mem
    have range := ((inFilled pos).mp inside).resolve_left not_mem_reset
    exact ⟨pos, range.1, range.2, taken⟩
  · obtain ⟨union, _, eq⟩ := bind_eq_ok.mp h
    simp [pure, Except.pure] at eq

theorem reserve_free (order : startpos ≤ endpos) (fits : endpos ≤ current.size) (same : total.size = current.size)
    (free : ∀ pos, startpos ≤ pos → pos < endpos → pos ∉ total) :
    ∃ masks, reserve total current startpos endpos = .ok (some masks) := by
  have ends : ∃ outcome, reserve total current startpos endpos = .ok outcome := by
    unfold reserve fill BoundedBitset.and BoundedBitset.or
    rw [if_pos ⟨order, fits⟩]
    simp only [bind, Except.bind, reset, same, if_true]
    split
    · exact ⟨none, rfl⟩
    · exact ⟨_, rfl⟩
  obtain ⟨outcome, run⟩ := ends
  cases outcome with
  | none =>
    obtain ⟨pos, lower, upper, taken⟩ := reserve_none run
    exact absurd taken (free pos lower upper)
  | some masks => exact ⟨masks, run⟩

end Reserve
end BoundedBitset
end IsrRan
