import IsrRan.Common.Memory
import IsrRan.Lib.BitList
import IsrRan.Lib.Lists

/-! The words of a `bounded_bitset` (bounded_bitset.h). -/

namespace IsrRan.Adt
open Lib List

abbrev Word := BitVec 64

def maskMsbZeros (n : Nat) : Word :=
  if n = 0 then BitVec.allOnes 64 else if n = 64 then 0 else BitVec.allOnes 64 >>> n

def maskLsbOnes (n : Nat) : Word := maskMsbZeros (64 - n)

def maskLsbZeros (n : Nat) : Word := ~~~maskLsbOnes n

def msbCount (value : Word) : Nat := ((range 64).find? fun i => value.getLsbD (63 - i)).getD 64

def lsbCount (value : Word) : Nat := ((range 64).find? fun i => value.getLsbD i).getD 64

def findFirstMsbOne (value : Word) : Nat := if value = 0 then 64 else 63 - msbCount value

def findFirstLsbOne (value : Word) : Nat := lsbCount value

structure BoundedBitset (N : Nat) (reversed : Bool) where
  buffer : Nat → Word := fun _ => 0
  curSize : Nat := 0

def popcount (w : Nat) : Nat := if w = 0 then 0 else popcount (w &&& (w - 1)) + 1
termination_by w
decreasing_by
  have le : w &&& (w - 1) ≤ w - 1 := Nat.and_le_right
  omega

namespace BoundedBitset
variable {N : Nat} {reversed : Bool} (b other : BoundedBitset N reversed)

def size : Nat := b.curSize

def nofWords : Nat := if 0 < b.size then (b.size - 1) / 64 + 1 else 0

def maxNofWords (_ : BoundedBitset N reversed) : Nat := (N - 1) / 64 + 1

def getBitidx (bitpos : Nat) : Nat := if reversed then b.size - 1 - bitpos else bitpos

def maskbit (pos : Nat) : Word := (1 : Word) <<< (pos % 64)

def mapWords (from_ below : Nat) (f : Nat → Word → Word) : BoundedBitset N reversed :=
  { b with buffer := fun i => if from_ ≤ i ∧ i < below then f i (b.buffer i) else b.buffer i }

def setWord (i : Nat) (w : Word) : BoundedBitset N reversed := b.mapWords i (i + 1) fun _ _ => w

def sanitize : BoundedBitset N reversed :=
  if b.size % 64 ≠ 0 ∧ 0 < b.nofWords then
    b.setWord (b.nofWords - 1) (b.buffer (b.nofWords - 1) &&& ~~~(BitVec.allOnes 64 <<< (b.size % 64)))
  else b

def testBit (bitpos : Nat) : Bool := b.buffer (b.getBitidx bitpos / 64) &&& maskbit (b.getBitidx bitpos) ≠ 0

def setBit (bitpos : Nat) : BoundedBitset N reversed :=
  b.setWord (b.getBitidx bitpos / 64) (b.buffer (b.getBitidx bitpos / 64) ||| maskbit (b.getBitidx bitpos))

def resetBit (bitpos : Nat) : BoundedBitset N reversed :=
  b.setWord (b.getBitidx bitpos / 64) (b.buffer (b.getBitidx bitpos / 64) &&& ~~~maskbit (b.getBitidx bitpos))

/-- What of the word at `i` a search looks at, the first and the last word by their masks. -/
def searched (value : Bool) (startword lastword : Nat) (first last : Word) (i : Nat) : Word :=
  let w := if value then b.buffer i else ~~~b.buffer i
  let w := if i = startword then w &&& first else w
  if i = lastword then w &&& last else w

def searchUp (words : Nat → Word) : Nat → Nat → Option Nat
  | 0, _ => none
  | left + 1, i => if words i ≠ 0 then some (i * 64 + findFirstLsbOne (words i)) else searchUp words left (i + 1)

def searchDown (words : Nat → Word) : Nat → Nat → Option Nat
  | 0, _ => none
  | left + 1, i => if words i ≠ 0 then some (findFirstMsbOne (words i) + i * 64) else searchDown words left (i - 1)

def findFirst (startpos endpos : Nat) (value : Bool) : Option Nat :=
  let startword := startpos / 64
  let lastword := (endpos - 1) / 64
  searchUp (b.searched value startword lastword (maskLsbZeros (startpos % 64)) (maskLsbOnes ((endpos - 1) % 64 + 1)))
    (lastword + 1 - startword) startword

def findFirstReversed (startpos endpos : Nat) (value : Bool) : Option Nat :=
  let startbitpos := b.getBitidx startpos
  let lastbitpos := b.getBitidx (endpos - 1)
  let startword := startbitpos / 64
  let lastword := lastbitpos / 64
  (searchDown (b.searched value startword lastword (maskLsbOnes (startbitpos % 64 + 1)) (maskLsbZeros (lastbitpos % 64)))
    (startword + 1 - lastword) startword).map fun pos => b.size - 1 - pos

def toInt : Option Nat → Int
  | none => -1
  | some pos => i32 (pos % 4294967296)

/-! ### Public operations -/

def resize (newSize : Nat) : Except Fault (BoundedBitset N reversed) :=
  if N < newSize then .error .assertionFailed
  else if newSize = b.curSize then .ok b
  else
    let b := { b with curSize := newSize }.sanitize
    .ok (b.mapWords b.nofWords b.maxNofWords fun _ _ => 0)

def set (pos : Nat) (val : Bool) : Except Fault (BoundedBitset N reversed) :=
  if pos < b.size then .ok (if val then b.setBit pos else b.resetBit pos) else .error .assertionFailed

def resetAll : BoundedBitset N reversed := b.mapWords 0 b.nofWords fun _ _ => 0

def test (pos : Nat) : Except Fault Bool := if pos < b.size then .ok (b.testBit pos) else .error .assertionFailed

def flip : BoundedBitset N reversed := (b.mapWords 0 b.nofWords fun _ w => ~~~w).sanitize

def fill (startpos endpos : Nat) (value : Bool) : Except Fault (BoundedBitset N reversed) :=
  if startpos ≤ endpos ∧ endpos ≤ b.size then
    .ok ((range' startpos (endpos - startpos)).foldl (fun b i => if value then b.setBit i else b.resetBit i) b)
  else .error .assertionFailed

def findLowest (startpos endpos : Nat) (value : Bool) : Except Fault Int :=
  if startpos ≤ endpos ∧ endpos ≤ b.size then
    if startpos = endpos then .ok (-1)
    else .ok (toInt (if reversed then b.findFirstReversed startpos endpos value else b.findFirst startpos endpos value))
  else .error .assertionFailed

def all : Bool :=
  if b.nofWords = 0 then true
  else (range (b.nofWords - 1)).all (fun i => b.buffer i = BitVec.allOnes 64) &&
    decide (b.buffer (b.nofWords - 1) = BitVec.allOnes 64 >>> (b.nofWords * 64 - b.size))

def any : Bool := (range b.nofWords).any fun i => b.buffer i ≠ 0

def anyIn (start stop : Nat) : Except Fault Bool :=
  if start ≤ b.size ∧ stop ≤ b.size then .ok ((range' start (stop - start)).any b.testBit)
  else .error .assertionFailed

def count : Nat := ((range b.nofWords).map fun i => popcount (b.buffer i).toNat).sum

def equal : Bool := b.size = other.size && (range b.nofWords).all fun i => b.buffer i = other.buffer i

def or : Except Fault (BoundedBitset N reversed) :=
  if other.size = b.size then .ok (b.mapWords 0 b.nofWords fun i w => w ||| other.buffer i) else .error .assertionFailed

def and : Except Fault (BoundedBitset N reversed) :=
  if other.size = b.size then .ok (b.mapWords 0 b.nofWords fun i w => w &&& other.buffer i) else .error .assertionFailed

def toUint64 : Except Fault Nat := if b.nofWords = 1 then .ok (b.buffer 0).toNat else .error .assertionFailed

/-- `1U` has 32 bits, and a shift by as many is undefined. -/
def fromUint64 (v : Nat) : Except Fault (BoundedBitset N reversed) :=
  if b.nofWords ≠ 1 then .error .assertionFailed
  else if 32 ≤ b.size then .error .undefinedBehaviour
  else if v < 2 ^ b.size then .ok (b.setWord 0 (BitVec.ofNat 64 v))
  else .error .assertionFailed

end BoundedBitset

open Lib

/-! ### Words -/

theorem getLsbD_maskMsbZeros {n j : Nat} (inside : j < 64) : (maskMsbZeros n).getLsbD j = decide (j < 64 - n) := by
  unfold maskMsbZeros
  split
  · rename_i zero
    rw [BitVec.getLsbD_allOnes, zero]
  · split
    · rename_i whole
      rw [whole]
      exact BitVec.getLsbD_zero
    · rw [BitVec.getLsbD_ushiftRight, BitVec.getLsbD_allOnes, decide_eq_decide]
      omega

theorem getLsbD_maskLsbOnes {n j : Nat} (le : n ≤ 64) (inside : j < 64) : (maskLsbOnes n).getLsbD j = decide (j < n) := by
  unfold maskLsbOnes
  rw [getLsbD_maskMsbZeros inside, Nat.sub_sub_self le]

theorem getLsbD_maskLsbZeros {n j : Nat} (le : n ≤ 64) (inside : j < 64) :
    (maskLsbZeros n).getLsbD j = decide (n ≤ j) := by
  unfold maskLsbZeros
  rw [BitVec.getLsbD_not, getLsbD_maskLsbOnes le inside, decide_eq_true inside, Bool.true_and, ← decide_not,
    decide_eq_decide]
  omega

theorem word_eq_zero_iff {w : Word} : w = 0 ↔ ∀ j < 64, w.getLsbD j = false := by
  constructor
  · rintro rfl j -
    exact BitVec.getLsbD_zero
  · intro clear
    apply BitVec.eq_of_getLsbD_eq
    intro j inside
    rw [clear j inside]
    exact BitVec.getLsbD_zero.symm

theorem firstOf_findFirstLsbOne (w : Word) :
    FirstOf (fun j => j < 64 ∧ w.getLsbD j = true) (if w = 0 then none else some (findFirstLsbOne w)) := by
  have scan := firstOf_find?_range' (fun j => w.getLsbD j) 0 64
  rw [← range_eq_range'] at scan
  simp only [Nat.zero_le, true_and] at scan
  split
  · rename_i zero
    rintro j ⟨inside, set⟩
    rw [word_eq_zero_iff.mp zero j inside] at set
    cases set
  · rename_i some_
    unfold findFirstLsbOne lsbCount
    cases found : (range 64).find? fun j => w.getLsbD j with
    | none =>
      rw [found] at scan
      exact absurd (word_eq_zero_iff.mpr fun j inside => Bool.eq_false_iff.mpr fun set => scan j ⟨inside, set⟩) some_
    | some j =>
      rw [found] at scan
      exact scan

theorem lastOf_findFirstMsbOne (w : Word) :
    LastOf (fun j => j < 64 ∧ w.getLsbD j = true) (if w = 0 then none else some (findFirstMsbOne w)) := by
  have scan := firstOf_find?_range' (fun i => w.getLsbD (63 - i)) 0 64
  rw [← range_eq_range'] at scan
  simp only [Nat.zero_le, true_and] at scan
  have back : ∀ j < 64, 63 - (63 - j) = j := fun j inside => by omega
  split
  · rename_i zero
    rintro j ⟨inside, set⟩
    rw [word_eq_zero_iff.mp zero j inside] at set
    cases set
  · rename_i some_
    unfold findFirstMsbOne msbCount
    rw [if_neg some_]
    cases found : (range 64).find? fun i => w.getLsbD (63 - i) with
    | none =>
      rw [found] at scan
      refine absurd (word_eq_zero_iff.mpr fun j inside => Bool.eq_false_iff.mpr fun set => ?_) some_
      refine scan (63 - j) ⟨by omega, ?_⟩
      rw [back j inside]
      exact set
    | some i =>
      rw [found] at scan
      refine ⟨⟨by rw [Option.getD_some]; omega, scan.1.2⟩, ?_⟩
      rintro j more ⟨inside, set⟩
      rw [Option.getD_some] at more
      refine scan.2 (63 - j) (by omega) ⟨by omega, ?_⟩
      rw [back j inside]
      exact set

/-! ### Bits -/

namespace BoundedBitset
variable {N : Nat} {reversed : Bool} {b : BoundedBitset N reversed} {k pos i : Nat} {w : Word}

def bit (b : BoundedBitset N reversed) (k : Nat) : Bool := (b.buffer (k / 64)).getLsbD (k % 64)

theorem nofWords_eq : b.nofWords = (b.size + 63) / 64 := by
  unfold nofWords
  split <;> omega

@[simp] theorem size_mapWords {from_ below : Nat} {f : Nat → Word → Word} : (b.mapWords from_ below f).size = b.size := rfl

@[simp] theorem size_setWord : (b.setWord i w).size = b.size := rfl

@[simp] theorem size_sanitize : b.sanitize.size = b.size := by
  unfold sanitize
  split <;> rfl

theorem bit_mapWords {from_ below : Nat} {f : Nat → Word → Word} : (b.mapWords from_ below f).bit k =
    if from_ ≤ k / 64 ∧ k / 64 < below then (f (k / 64) (b.buffer (k / 64))).getLsbD (k % 64) else b.bit k := by
  unfold bit mapWords
  dsimp only
  split <;> rfl

theorem bit_setWord : (b.setWord i w).bit k = if k / 64 = i then w.getLsbD (k % 64) else b.bit k := by
  unfold setWord
  rw [bit_mapWords]
  exact if_congr (by omega) rfl rfl

theorem getLsbD_maskbit {j : Nat} : (maskbit pos).getLsbD j = decide (j = pos % 64) := by
  unfold maskbit
  rw [show (1 : Word) = 1#64 from rfl, ← BitVec.twoPow_eq, BitVec.getLsbD_twoPow,
    decide_eq_true (Nat.mod_lt pos (by decide)), Bool.true_and, decide_eq_decide, eq_comm]

theorem testBit_eq : b.testBit pos = b.bit (b.getBitidx pos) := by
  unfold testBit bit
  rw [Bool.eq_iff_iff, decide_eq_true_iff, Ne, word_eq_zero_iff]
  constructor
  · intro some_
    by_contra clear
    refine some_ fun j inside => ?_
    rw [BitVec.getLsbD_and, getLsbD_maskbit, Bool.and_eq_false_iff, decide_eq_false_iff_not]
    by_cases here : j = b.getBitidx pos % 64
    · left
      rw [here]
      exact Bool.eq_false_iff.mpr clear
    · exact .inr here
  · intro set none_
    have clear := none_ (b.getBitidx pos % 64) (Nat.mod_lt _ (by decide))
    rw [BitVec.getLsbD_and, set, getLsbD_maskbit] at clear
    simp at clear

theorem bit_setBit : (b.setBit pos).bit k = (decide (k = b.getBitidx pos) || b.bit k) := by
  unfold setBit
  rw [bit_setWord]
  split
  · rename_i word
    rw [BitVec.getLsbD_or, getLsbD_maskbit, ← word, Bool.or_comm]
    exact congrArg (· || _) (decide_eq_decide.mpr (by omega))
  · rename_i other
    have apart : k ≠ b.getBitidx pos := fun same => other (congrArg (· / 64) same)
    rw [decide_eq_false apart, Bool.false_or]

theorem bit_resetBit : (b.resetBit pos).bit k = (decide (k ≠ b.getBitidx pos) && b.bit k) := by
  have inside : k % 64 < 64 := Nat.mod_lt k (by decide)
  unfold resetBit
  rw [bit_setWord]
  split
  · rename_i word
    rw [BitVec.getLsbD_and, BitVec.getLsbD_not, getLsbD_maskbit, ← word, Bool.and_comm, decide_eq_true inside,
      ← decide_not]
    exact congrArg (· && _) (decide_eq_decide.mpr (by omega))
  · rename_i other
    have apart : k ≠ b.getBitidx pos := fun same => other (congrArg (· / 64) same)
    rw [decide_eq_true apart, Bool.true_and]

theorem bit_sanitize : b.sanitize.bit k = if k / 64 < b.nofWords then decide (k < b.size) && b.bit k else b.bit k := by
  have words := @nofWords_eq N reversed b
  unfold sanitize
  split
  · rename_i partial_
    rw [bit_setWord]
    by_cases last : k / 64 = b.nofWords - 1
    · rw [if_pos last, if_pos (by omega), BitVec.getLsbD_and, BitVec.getLsbD_not, BitVec.getLsbD_shiftLeft,
        BitVec.getLsbD_allOnes, Bool.and_comm, ← last]
      refine congrArg (· && _) ?_
      rw [Bool.eq_iff_iff]
      simp only [Bool.and_eq_true, Bool.not_eq_true', Bool.not_eq_false', decide_eq_true_iff, Bool.and_eq_false_iff,
        decide_eq_false_iff_not]
      omega
    · rw [if_neg last]
      split
      · rw [decide_eq_true (by omega), Bool.true_and]
      · rfl
  · split
    · rw [decide_eq_true (by omega), Bool.true_and]
    · rfl

/-! ### Searches -/

section
variable {words : Nat → Word} {q : Nat → Prop}

theorem set_of_word {i k : Nat} (here : ∀ j < 64, (w.getLsbD j = true ↔ q (i * 64 + j))) (word : k / 64 = i)
    (there : q k) : k % 64 < 64 ∧ w.getLsbD (k % 64) = true := by
  have inside : k % 64 < 64 := Nat.mod_lt k (by decide)
  refine ⟨inside, (here _ inside).mpr ?_⟩
  rwa [show i * 64 + k % 64 = k by omega]

theorem searchUp_spec (left i : Nat)
    (same : ∀ w, i ≤ w → w < i + left → ∀ j < 64, ((words w).getLsbD j = true ↔ q (w * 64 + j))) :
    FirstOf (fun k => i ≤ k / 64 ∧ k / 64 < i + left ∧ q k) (searchUp words left i) := by
  induction left generalizing i with
  | zero =>
    rintro k ⟨above, below, -⟩
    omega
  | succ left ih =>
    have first := firstOf_findFirstLsbOne (words i)
    have here := same i (Nat.le_refl i) (by omega)
    rw [searchUp]
    by_cases zero : words i = 0
    · rw [if_neg (not_not_intro zero)]
      rw [if_pos zero] at first
      apply (ih (i + 1) fun w above below => same w (by omega) (by omega)).congr
      intro k
      constructor
      · rintro ⟨above, below, there⟩
        exact ⟨by omega, by omega, there⟩
      · rintro ⟨above, below, there⟩
        have later : k / 64 ≠ i := fun word => first (k % 64) (set_of_word here word there)
        exact ⟨by omega, by omega, there⟩
    · rw [if_pos zero]
      rw [if_neg zero] at first
      obtain ⟨⟨inside, set⟩, least⟩ := first
      refine ⟨⟨by omega, by omega, (here _ inside).mp set⟩, ?_⟩
      rintro k less ⟨above, below, there⟩
      have word : k / 64 = i := by omega
      exact least (k % 64) (by omega) (set_of_word here word there)

theorem searchDown_spec (left i : Nat) (room : left ≤ i + 1)
    (same : ∀ w, i < w + left → w ≤ i → ∀ j < 64, ((words w).getLsbD j = true ↔ q (w * 64 + j))) :
    LastOf (fun k => i < k / 64 + left ∧ k / 64 ≤ i ∧ q k) (searchDown words left i) := by
  induction left generalizing i with
  | zero =>
    rintro k ⟨above, below, -⟩
    omega
  | succ left ih =>
    have last := lastOf_findFirstMsbOne (words i)
    have here := same i (by omega) (Nat.le_refl i)
    rw [searchDown]
    by_cases zero : words i = 0
    · rw [if_neg (not_not_intro zero)]
      rw [if_pos zero] at last
      have before : ∀ k, k / 64 = i → ¬q k := fun k word there => last (k % 64) (set_of_word here word there)
      cases left with
      | zero =>
        rintro k ⟨above, below, there⟩
        exact before k (by omega) there
      | succ left =>
        apply (ih (i - 1) (by omega) fun w above below => same w (by omega) (by omega)).congr
        intro k
        constructor
        · rintro ⟨above, below, there⟩
          exact ⟨by omega, by omega, there⟩
        · rintro ⟨above, below, there⟩
          have other : k / 64 ≠ i := fun word => before k word there
          exact ⟨by omega, by omega, there⟩
    · rw [if_pos zero]
      rw [if_neg zero] at last
      obtain ⟨⟨inside, set⟩, greatest⟩ := last
      refine ⟨⟨by omega, by omega, ?_⟩, ?_⟩
      · rw [Nat.add_comm]
        exact (here _ inside).mp set
      · rintro k more ⟨above, below, there⟩
        have word : k / 64 = i := by omega
        exact greatest (k % 64) (by omega) (set_of_word here word there)

end

theorem getLsbD_searched {value : Bool} {startword lastword j : Nat} {first last : Word} (inside : j < 64) :
    (b.searched value startword lastword first last i).getLsbD j = true ↔ b.bit (i * 64 + j) = value ∧
      (i = startword → first.getLsbD j = true) ∧ (i = lastword → last.getLsbD j = true) := by
  have here : b.bit (i * 64 + j) = (b.buffer i).getLsbD j := by
    unfold bit
    rw [show (i * 64 + j) / 64 = i by omega, show (i * 64 + j) % 64 = j by omega]
  have masked : ∀ (c : Prop) [Decidable c] (w m : Word), (if c then w &&& m else w).getLsbD j = true ↔
      w.getLsbD j = true ∧ (c → m.getLsbD j = true) := by
    intro c _ w m
    by_cases holds : c <;> simp [holds]
  unfold searched
  rw [here, masked, masked, and_assoc]
  cases value <;> simp [inside]

theorem findFirst_spec {startpos endpos : Nat} (some_ : startpos < endpos) (value : Bool) :
    FirstOf (fun k => startpos ≤ k ∧ k < endpos ∧ b.bit k = value) (b.findFirst startpos endpos value) := by
  apply (@searchUp_spec _ (fun k => startpos ≤ k ∧ k < endpos ∧ b.bit k = value) _ _ ?_).congr
  · intro k
    constructor
    · exact fun found => found.2.2
    · intro found
      exact ⟨by omega, by omega, found⟩
  · intro w above below j inside
    rw [getLsbD_searched inside, getLsbD_maskLsbZeros (by omega) inside, getLsbD_maskLsbOnes (by omega) inside,
      decide_eq_true_iff, decide_eq_true_iff]
    constructor
    · rintro ⟨set, front, back⟩
      exact ⟨by omega, by omega, set⟩
    · rintro ⟨front, back, set⟩
      exact ⟨set, by omega, by omega⟩

theorem findFirstReversed_spec {b : BoundedBitset N true} {startpos endpos : Nat} (some_ : startpos < endpos)
    (inside : endpos ≤ b.size) (value : Bool) :
    FirstOf (fun pos => startpos ≤ pos ∧ pos < endpos ∧ b.bit (b.size - 1 - pos) = value)
      (b.findFirstReversed startpos endpos value) := by
  have last := @searchDown_spec
    (b.searched value ((b.size - 1 - startpos) / 64) ((b.size - 1 - (endpos - 1)) / 64)
      (maskLsbOnes ((b.size - 1 - startpos) % 64 + 1)) (maskLsbZeros ((b.size - 1 - (endpos - 1)) % 64)))
    (fun k => b.size - endpos ≤ k ∧ k ≤ b.size - 1 - startpos ∧ b.bit k = value)
    ((b.size - 1 - startpos) / 64 + 1 - (b.size - 1 - (endpos - 1)) / 64) ((b.size - 1 - startpos) / 64) (by omega) (by
      intro w above below j inside
      rw [getLsbD_searched inside, getLsbD_maskLsbZeros (by omega) inside, getLsbD_maskLsbOnes (by omega) inside,
        decide_eq_true_iff, decide_eq_true_iff]
      constructor
      · rintro ⟨set, front, back⟩
        exact ⟨by omega, by omega, set⟩
      · rintro ⟨front, back, set⟩
        exact ⟨set, by omega, by omega⟩)
  apply (last.mirrored fun k found => (by omega : k ≤ b.size - 1)).congr
  intro pos
  constructor
  · rintro ⟨le, -, -, low, high, set⟩
    exact ⟨by omega, by omega, set⟩
  · rintro ⟨low, high, set⟩
    exact ⟨by omega, by omega, by omega, by omega, by omega, set⟩

theorem findLowest_eq {startpos endpos : Nat} (range : startpos ≤ endpos ∧ endpos ≤ b.size) (value : Bool) :
    b.findLowest startpos endpos value =
      .ok (toInt ((range' startpos (endpos - startpos)).find? fun pos => b.testBit pos == value)) := by
  have scan := firstOf_find?_range' (fun pos => b.testBit pos == value) startpos endpos
  simp only [beq_iff_eq, testBit_eq] at scan
  unfold findLowest
  rw [if_pos range]
  simp only [testBit_eq]
  split
  · rename_i empty
    rw [empty, Nat.sub_self]
    rfl
  · rename_i some_
    have nonempty : startpos < endpos := by omega
    refine congrArg (Except.ok ∘ toInt) ?_
    cases reversed with
    | true => exact (findFirstReversed_spec nonempty range.2 value).unique scan
    | false => exact (findFirst_spec nonempty value).unique scan

end BoundedBitset
end IsrRan.Adt
