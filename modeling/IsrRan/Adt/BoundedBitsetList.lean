import Mathlib.Data.List.Find
import IsrRan.Adt.BoundedBitset

/-! A `bounded_bitset` against the list of its `size()` booleans. -/

namespace IsrRan.Adt
open Lib List
open Function (update update_of_ne update_self)

/-! ### Lists -/

inductive Op where
  | set (pos : Nat) (val : Bool)
  | resetAll
  | flip
  | fill (startpos endpos : Nat) (value : Bool)
  | resize (newSize : Nat)
  | or
  | and
  | assign
  | fromUint64 (v : Nat)

inductive Query where
  | test (pos : Nat)
  | count
  | all
  | any
  | anyIn (start stop : Nat)
  | findLowest (startpos endpos : Nat) (value : Bool)
  | toUint64
  | equal

inductive Answer where
  | bool (b : Bool)
  | nat (n : Nat)
  | int (i : Int)
  deriving DecidableEq

def resizeList (reversed : Bool) (l : List Bool) (newSize : Nat) : List Bool :=
  if reversed then replicate (newSize - l.length) false ++ l.drop (l.length - newSize)
  else l.take newSize ++ replicate (newSize - l.length) false

def lowest (l : List Bool) (startpos endpos : Nat) (value : Bool) : Option Nat :=
  (range' startpos (endpos - startpos)).find? fun pos => l.getD pos false == value

def msbFirst (reversed : Bool) (l : List Bool) : List Bool := if reversed then l else l.reverse

/-- On a list; `none` is an operation that the assertions exclude. -/
def Op.onList (N : Nat) (reversed : Bool) (l other : List Bool) : Op → Option (List Bool)
  | set pos val => if pos < l.length then some (l.set pos val) else none
  | resetAll => some (replicate l.length false)
  | flip => some (l.map not)
  | fill startpos endpos value =>
    if startpos ≤ endpos ∧ endpos ≤ l.length then
      some (l.mapIdx fun i x => if startpos ≤ i ∧ i < endpos then value else x)
    else none
  | resize newSize => if newSize ≤ N then some (resizeList reversed l newSize) else none
  | or => if other.length = l.length then some (zipWith Bool.or l other) else none
  | and => if other.length = l.length then some (zipWith Bool.and l other) else none
  | assign => some other
  | fromUint64 v => if v < 2 ^ l.length ∧ l.length ≤ 64 then some (msbFirst reversed (bitsOf l.length v)) else none

def Query.onList (reversed : Bool) (l other : List Bool) : Query → Option Answer
  | test pos => if pos < l.length then some (.bool (l.getD pos false)) else none
  | count => some (.nat (l.count true))
  | all => some (.bool (l.all id))
  | any => some (.bool (l.any id))
  | anyIn start stop =>
    if start ≤ l.length ∧ stop ≤ l.length then
      some (.bool ((range' start (stop - start)).any fun pos => l.getD pos false))
    else none
  | findLowest startpos endpos value =>
    if startpos ≤ endpos ∧ endpos ≤ l.length then
      some (.int (((lowest l startpos endpos value).map Int.ofNat).getD (-1)))
    else none
  | toUint64 => if 0 < l.length ∧ l.length ≤ 64 then some (.nat (ofBits (msbFirst reversed l))) else none
  | equal => some (.bool (l = other))

/-! ### Words -/

section
variable {N : Nat} {reversed : Bool}

def Op.run (b other : BoundedBitset N reversed) : Op → Except Fault (BoundedBitset N reversed)
  | set pos val => b.set pos val
  | resetAll => .ok b.resetAll
  | flip => .ok b.flip
  | fill startpos endpos value => b.fill startpos endpos value
  | resize newSize => b.resize newSize
  | or => b.or other
  | and => b.and other
  | assign => .ok other
  | fromUint64 v => b.fromUint64 v

def Query.ask (b other : BoundedBitset N reversed) : Query → Except Fault Answer
  | test pos => (b.test pos).map .bool
  | count => .ok (.nat b.count)
  | all => .ok (.bool b.all)
  | any => .ok (.bool b.any)
  | anyIn start stop => (b.anyIn start stop).map .bool
  | findLowest startpos endpos value => (b.findLowest startpos endpos value).map .int
  | toUint64 => b.toUint64.map .nat
  | equal => .ok (.bool (b.equal other))

structure Refines (b : BoundedBitset N reversed) (l : List Bool) : Prop where
  size : b.size = l.length
  bounded : l.length ≤ N
  test : ∀ pos < l.length, b.bit (b.getBitidx pos) = l.getD pos false
  beyond : ∀ k, l.length ≤ k → b.bit k = false

namespace BoundedBitset
variable {b b' : BoundedBitset N reversed} {pos pos' : Nat}

theorem getBitidx_congr (same : b'.size = b.size) : b'.getBitidx pos = b.getBitidx pos := by
  unfold getBitidx
  rw [same]

theorem getBitidx_lt (inside : pos < b.size) : b.getBitidx pos < b.size := by
  unfold getBitidx
  split <;> omega

theorem getBitidx_getBitidx (inside : pos < b.size) : b.getBitidx (b.getBitidx pos) = pos := by
  unfold getBitidx
  split <;> omega

theorem getBitidx_inj (inside : pos < b.size) (inside' : pos' < b.size) :
    b.getBitidx pos = b.getBitidx pos' ↔ pos = pos' := by
  unfold getBitidx
  split <;> omega

theorem lt_nofWords {k : Nat} (inside : k < b.size) : k / 64 < b.nofWords := by
  rw [nofWords_eq]
  omega

end BoundedBitset

namespace Refines
variable {b other : BoundedBitset N reversed} {l m : List Bool}
open BoundedBitset

theorem bit_of_lt (h : Refines b l) {k : Nat} (inside : k < l.length) : b.bit k = l.getD (b.getBitidx k) false := by
  rw [← h.size] at inside
  have back := h.test (b.getBitidx k) (h.size ▸ getBitidx_lt inside)
  rwa [getBitidx_getBitidx inside] at back

theorem initial {n : Nat} (fits : n ≤ N) :
    Refines (⟨fun _ => 0, n⟩ : BoundedBitset N reversed) (replicate n false) where
  size := List.length_replicate.symm
  bounded := by rwa [length_replicate]
  test pos inside := by
    rw [length_replicate] at inside
    rw [getD_replicate _ inside]
    exact BitVec.getLsbD_zero
  beyond _ _ := BitVec.getLsbD_zero

section
variable (h : Refines b l)
include h

theorem set {pos : Nat} (inside : pos < l.length) (val : Bool) :
    Refines (if val then b.setBit pos else b.resetBit pos) (l.set pos val) := by
  have inside' := h.size ▸ inside
  have size : (if val then b.setBit pos else b.resetBit pos).size = b.size := by
    cases val <;> rfl
  have bits : ∀ k, (if val then b.setBit pos else b.resetBit pos).bit k =
      if k = b.getBitidx pos then val else b.bit k := by
    intro k
    cases val with
    | true =>
      rw [if_pos rfl, bit_setBit]
      by_cases here : k = b.getBitidx pos <;> simp
    | false =>
      rw [if_neg Bool.false_ne_true, bit_resetBit]
      by_cases here : k = b.getBitidx pos <;> simp
  constructor
  case size => rw [size, length_set, h.size]
  case bounded => rw [length_set]; exact h.bounded
  case test =>
    intro pos' below
    rw [length_set] at below
    rw [bits, getBitidx_congr size, getD_eq_getElem?_getD, List.getElem?_set]
    by_cases here : pos' = pos
    · rw [if_pos (congrArg _ here), if_pos here.symm, if_pos inside, Option.getD_some]
    · rw [if_neg fun same => here ((getBitidx_inj (h.size ▸ below) inside').mp same), if_neg (Ne.symm here),
        h.test pos' below, getD_eq_getElem?_getD]
  case beyond =>
    intro k above
    rw [length_set] at above
    have apart := getBitidx_lt inside'
    rw [h.size] at apart
    rw [bits, if_neg (by omega), h.beyond k above]

theorem of_bits {b' : BoundedBitset N reversed} {l' : List Bool} (size : b'.size = b.size)
    (length : l'.length = l.length) (inside : ∀ pos < l.length, b'.bit (b.getBitidx pos) = l'.getD pos false)
    (beyond : ∀ k, l.length ≤ k → b'.bit k = false) : Refines b' l' where
  size := by rw [size, length, h.size]
  bounded := length ▸ h.bounded
  test pos below := by
    rw [getBitidx_congr size]
    exact inside pos (length ▸ below)
  beyond k above := beyond k (length ▸ above)

theorem bit_mapped (f : Nat → Word → Word) {pos : Nat} (inside : pos < l.length) :
    (b.mapWords 0 b.nofWords f).bit (b.getBitidx pos) =
      (f (b.getBitidx pos / 64) (b.buffer (b.getBitidx pos / 64))).getLsbD (b.getBitidx pos % 64) := by
  rw [bit_mapWords, if_pos ⟨Nat.zero_le _, lt_nofWords (getBitidx_lt (h.size ▸ inside))⟩]

theorem resetAll : Refines b.resetAll (replicate l.length false) := by
  apply h.of_bits size_mapWords length_replicate
  · intro pos inside
    rw [h.bit_mapped _ inside, getD_replicate _ inside]
    exact BitVec.getLsbD_zero
  · intro k above
    rw [bit_mapWords]
    split
    · exact BitVec.getLsbD_zero
    · exact h.beyond k above

theorem flip : Refines b.flip (l.map not) := by
  have size : (b.mapWords 0 b.nofWords fun _ w => ~~~w).sanitize.size = b.size := size_sanitize
  have words : (b.mapWords 0 b.nofWords fun _ w => ~~~w).nofWords = b.nofWords := rfl
  apply h.of_bits size (length_map _)
  · intro pos inside
    have below := getBitidx_lt (h.size ▸ inside)
    rw [bit_sanitize, words, if_pos (lt_nofWords below), size_mapWords, decide_eq_true below, h.bit_mapped _ inside,
      BitVec.getLsbD_not, decide_eq_true (Nat.mod_lt _ (by decide))]
    have before := h.test pos inside
    rw [getD_eq_getElem _ _ inside] at before
    rw [getD_eq_getElem _ _ (by rwa [length_map]), getElem_map, ← before]
    rfl
  · intro k above
    rw [bit_sanitize]
    split
    · rw [decide_eq_false (by rw [size_mapWords, h.size]; omega), Bool.false_and]
    · rename_i outside
      rw [bit_mapWords, if_neg (fun both => outside (words ▸ both.2)), h.beyond k above]

theorem zipped (h' : Refines other m) (same : m.length = l.length) {f : Word → Word → Word}
    {g : Bool → Bool → Bool} (bitwise : ∀ w w' j, (f w w').getLsbD j = g (w.getLsbD j) (w'.getLsbD j))
    (clear : g false false = false) :
    Refines (b.mapWords 0 b.nofWords fun i w => f w (other.buffer i)) (zipWith g l m) := by
  have length : (zipWith g l m).length = l.length := by rw [length_zipWith, same, Nat.min_self]
  apply h.of_bits size_mapWords length
  · intro pos inside
    have inside' := same ▸ inside
    have idx : other.getBitidx pos = b.getBitidx pos := getBitidx_congr (by rw [h.size, h'.size, same])
    have first := h.test pos inside
    have second := h'.test pos inside'
    rw [idx] at second
    rw [getD_eq_getElem _ _ inside] at first
    rw [getD_eq_getElem _ _ inside'] at second
    rw [h.bit_mapped _ inside, bitwise, getD_eq_getElem _ _ (by rwa [length]), getElem_zipWith,
      ← first, ← second]
    rfl
  · intro k above
    rw [bit_mapWords]
    split
    · have first := h.beyond k above
      have second := h'.beyond k (same ▸ above)
      unfold bit at first second
      rw [bitwise, first, second, clear]
    · exact h.beyond k above

theorem fill (value : Bool) (start n : Nat) (fits : start + n ≤ l.length) :
    Refines ((range' start n).foldl (fun b i => if value then b.setBit i else b.resetBit i) b)
      (l.mapIdx fun i x => if start ≤ i ∧ i < start + n then value else x) := by
  induction n with
  | zero =>
    have same : (l.mapIdx fun i x => if start ≤ i ∧ i < start + 0 then value else x) = l := by
      apply ext_getElem (by rw [length_mapIdx])
      intro i _ _
      rw [getElem_mapIdx, if_neg (by omega)]
    rw [same]
    exact h
  | succ n ih =>
    rw [List.range'_1_concat, foldl_append]
    have before := ih (by omega)
    have last := before.set (show start + n < _ by rw [length_mapIdx]; omega) value
    have same : (l.mapIdx fun i x => if start ≤ i ∧ i < start + n then value else x).set (start + n) value =
        l.mapIdx fun i x => if start ≤ i ∧ i < start + (n + 1) then value else x := by
      apply ext_getElem (by rw [length_set, length_mapIdx, length_mapIdx])
      intro i _ _
      rw [getElem_set, getElem_mapIdx, getElem_mapIdx]
      by_cases here : start + n = i
      · rw [if_pos here, if_pos (by omega)]
      · rw [if_neg here]
        exact if_congr (by omega) rfl rfl
    rw [same] at last
    exact last

theorem bit_resized {newSize pos : Nat} (inside : pos < newSize) :
    b.bit (if reversed then newSize - 1 - pos else pos) = (resizeList reversed l newSize).getD pos false := by
  unfold resizeList
  rw [getD_eq_getElem?_getD]
  cases reversed with
  | true =>
    rw [if_pos rfl, if_pos rfl, List.getElem?_append, length_replicate]
    split
    · rw [h.beyond _ (by omega), List.getElem?_replicate_of_lt (by omega)]
      rfl
    · have place : b.getBitidx (newSize - 1 - pos) = l.length - newSize + (pos - (newSize - l.length)) := by
        unfold getBitidx
        rw [if_pos rfl, h.size]
        omega
      rw [List.getElem?_drop, ← getD_eq_getElem?_getD, h.bit_of_lt (by omega), place]
  | false =>
    rw [if_neg Bool.false_ne_true, if_neg Bool.false_ne_true, List.getElem?_append, length_take]
    split
    · rw [List.getElem?_take_of_lt inside]
      exact h.bit_of_lt (by omega)
    · rw [h.beyond _ (by omega), List.getElem?_replicate_of_lt (by omega)]
      rfl

theorem resize {newSize : Nat} (fits : newSize ≤ N) :
    ∃ b', b.resize newSize = .ok b' ∧ Refines b' (resizeList reversed l newSize) := by
  have length : (resizeList reversed l newSize).length = newSize := by
    unfold resizeList
    split
    · rw [length_append, length_replicate, length_drop]
      omega
    · rw [length_append, length_replicate, length_take]
      omega
  unfold BoundedBitset.resize
  rw [if_neg (Nat.not_lt.mpr fits)]
  split
  · rename_i same
    refine ⟨b, rfl, ?_⟩
    have unchanged : resizeList reversed l newSize = l := by
      rw [same, show b.curSize = l.length from h.size]
      unfold resizeList
      simp
    rwa [unchanged]
  · refine ⟨_, rfl, ?_⟩
    generalize shrunk : ({ b with curSize := newSize } : BoundedBitset N reversed) = c
    have size : c.size = newSize := shrunk ▸ rfl
    have same : ∀ k, c.bit k = b.bit k := fun k => shrunk ▸ rfl
    have words : c.sanitize.nofWords = c.nofWords := by rw [nofWords_eq, nofWords_eq, size_sanitize]
    have bits : ∀ k, (c.sanitize.mapWords c.sanitize.nofWords c.sanitize.maxNofWords fun _ _ => 0).bit k =
        (decide (k < newSize) && b.bit k) := by
      intro k
      have count := @nofWords_eq N reversed c
      have bound : l.length ≤ 64 * ((N - 1) / 64 + 1) := h.bounded.trans (by omega)
      rw [bit_mapWords, bit_sanitize, size, same]
      unfold maxNofWords
      split
      · rw [decide_eq_false (by omega)]
        exact BitVec.getLsbD_zero
      · split
        · rfl
        · rw [h.beyond k (by omega), Bool.and_false]
    constructor
    case size => rw [size_mapWords, size_sanitize, size, length]
    case bounded => rwa [length]
    case test =>
      intro pos inside
      rw [length] at inside
      rw [bits, ← h.bit_resized inside]
      unfold getBitidx
      rw [size_mapWords, size_sanitize, size, decide_eq_true (by split <;> omega), Bool.true_and]
    case beyond =>
      intro k above
      rw [bits, decide_eq_false (by omega), Bool.false_and]

end

end Refines
end

open Lib

theorem popcount_of_pos {w : Nat} (some_ : 0 < w) : popcount w = popcount (w &&& (w - 1)) + 1 := by
  conv_lhs => rw [popcount, if_neg (Nat.ne_of_gt some_)]

theorem popcount_even (m : Nat) : popcount (2 * m) = popcount m := by
  induction m using Nat.strongRecOn with
  | ind m ih =>
    rcases Nat.eq_zero_or_pos m with rfl | some_
    · rfl
    · have shifted : 2 * m &&& (2 * m - 1) = 2 * (m &&& (m - 1)) := by
        apply Nat.eq_of_testBit_eq
        intro i
        cases i with
        | zero => simp
        | succ i =>
          rw [Nat.testBit_and, Nat.testBit_succ, Nat.testBit_succ, Nat.testBit_succ,
            Nat.mul_div_cancel_left _ Nat.two_pos, Nat.mul_div_cancel_left _ Nat.two_pos, Nat.testBit_and,
            show (2 * m - 1) / 2 = m - 1 by omega]
      have le : m &&& (m - 1) ≤ m - 1 := Nat.and_le_right
      rw [popcount_of_pos (by omega), shifted, ih _ (by omega), ← popcount_of_pos some_]

theorem popcount_odd (m : Nat) : popcount (2 * m + 1) = popcount m + 1 := by
  have cleared : (2 * m + 1) &&& (2 * m + 1 - 1) = 2 * m := by
    apply Nat.eq_of_testBit_eq
    intro i
    cases i with
    | zero => simp
    | succ i =>
      rw [Nat.testBit_and, Nat.testBit_succ, Nat.testBit_succ, Nat.testBit_succ, Nat.add_sub_cancel,
        show (2 * m + 1) / 2 = m by omega, Nat.mul_div_cancel_left _ Nat.two_pos, Bool.and_self]
  rw [popcount_of_pos (Nat.succ_pos _), cleared, popcount_even]

theorem popcount_eq {n w : Nat} (fits : w < 2 ^ n) : popcount w = (range n).countP w.testBit := by
  induction n generalizing w with
  | zero =>
    obtain rfl : w = 0 := by simpa using fits
    rw [popcount]
    rfl
  | succ n ih =>
    have half := ih (w := w / 2) (by rw [Nat.pow_succ] at fits; omega)
    have shifted : (fun i => w.testBit (i + 1)) = (w / 2).testBit := funext fun i => Nat.testBit_succ w i
    rw [range_succ_eq_map, countP_cons, countP_map]
    change popcount w = (range n).countP (fun i => w.testBit (i + 1)) + _
    rw [shifted, ← half, Nat.testBit_zero]
    rcases Nat.mod_two_eq_zero_or_one w with even | odd
    · rw [even, ← popcount_even (w / 2)]
      congr 1
      omega
    · rw [odd, if_pos (by decide), ← popcount_odd (w / 2)]
      congr 1
      omega

namespace Refines
variable {N : Nat} {reversed : Bool} {b other : BoundedBitset N reversed} {l m : List Bool}
open BoundedBitset

theorem nofWords_eq (h : Refines b l) : b.nofWords = (l.length + 63) / 64 := by
  rw [BoundedBitset.nofWords_eq, h.size]

theorem testBit_word {i k : Nat} (inside : k < 64) : (b.buffer i).toNat.testBit k = b.bit (64 * i + k) := by
  unfold bit
  rw [show (64 * i + k) / 64 = i by omega, show (64 * i + k) % 64 = k by omega]
  exact BitVec.testBit_toNat _

section
variable (h : Refines b l)
include h

theorem map_bit : (range l.length).map b.bit = if reversed then l.reverse else l := by
  apply ext_getElem (by cases reversed <;> simp)
  intro k below _
  have inside : k < l.length := by simpa using below
  rw [getElem_map, getElem_range, h.bit_of_lt inside]
  have place := h.size
  unfold getBitidx
  cases reversed with
  | true =>
    simp only [if_true, getElem_reverse, place]
    exact getD_eq_getElem _ _ (by omega)
  | false => exact getD_eq_getElem _ _ inside

theorem count : b.count = l.count true := by
  have words : ∀ n, ((range n).map fun i => popcount (b.buffer i).toNat).sum =
      (range (64 * n)).countP b.bit := by
    intro n
    induction n with
    | zero => rfl
    | succ n ih =>
      rw [range_succ, map_append, sum_append, Nat.mul_succ, range_add, countP_append,
        countP_map, map_singleton, popcount_eq (b.buffer n).isLt]
      congr 1
      apply countP_congr
      intro k mem
      rw [testBit_word (List.mem_range.mp mem)]
      rfl
  have inside : (range (64 * b.nofWords)).countP b.bit = (range l.length).countP b.bit := by
    obtain ⟨d, eq⟩ : ∃ d, 64 * b.nofWords = l.length + d := ⟨64 * b.nofWords - l.length, by have := h.nofWords_eq; omega⟩
    rw [eq, range_add, countP_append, countP_map, Nat.add_eq_left, countP_eq_zero]
    intro k _
    exact ne_true_of_eq_false (h.beyond _ (Nat.le_add_right _ _))
  have held : (range l.length).countP b.bit = ((range l.length).map b.bit).count true := by
    rw [List.count, countP_map]
    congr 1
    funext k
    exact (beq_true _).symm
  unfold BoundedBitset.count
  rw [words, inside, held, h.map_bit]
  split
  · exact count_reverse
  · rfl

theorem forall_bit_iff (value : Bool) :
    (∀ k < l.length, b.bit k = value) ↔ ∀ x ∈ l, x = value := by
  have mapped : (∀ k < l.length, b.bit k = value) ↔ ∀ x ∈ (range l.length).map b.bit, x = value := by simp
  rw [mapped, h.map_bit]
  split <;> simp

theorem any : b.any = l.any id := by
  rw [Bool.eq_iff_iff, ← not_iff_not, Bool.not_eq_true]
  have none_ : b.any = false ↔ ∀ k < l.length, b.bit k = false := by
    unfold BoundedBitset.any
    rw [any_eq_false]
    constructor
    · intro clear k inside
      have zero := clear (k / 64) (List.mem_range.mpr (lt_nofWords (h.size ▸ inside)))
      rw [decide_eq_true_iff, not_not, word_eq_zero_iff] at zero
      exact zero (k % 64) (Nat.mod_lt k (by decide))
    · intro clear i mem set
      rw [decide_eq_true_iff] at set
      refine set (word_eq_zero_iff.mpr fun j inside => ?_)
      have here := @testBit_word N reversed b i j inside
      rw [BitVec.testBit_toNat] at here
      rw [here]
      by_cases below : 64 * i + j < l.length
      · exact clear _ below
      · exact h.beyond _ (Nat.le_of_not_lt below)
  rw [none_, h.forall_bit_iff]
  simp

end

theorem ones_iff {w : Word} {c : Nat} : w = BitVec.allOnes 64 >>> c ↔ ∀ j < 64, w.getLsbD j = decide (c + j < 64) := by
  have ones : ∀ j, (BitVec.allOnes 64 >>> c).getLsbD j = decide (c + j < 64) := by
    intro j
    rw [BitVec.getLsbD_ushiftRight, BitVec.getLsbD_allOnes]
  constructor
  · rintro rfl j -
    exact ones j
  · intro same
    apply BitVec.eq_of_getLsbD_eq
    intro j inside
    rw [same j inside, ones]

theorem all (h : Refines b l) : b.all = l.all id := by
  have words := h.nofWords_eq
  rw [Bool.eq_iff_iff, all_eq_true]
  refine Iff.trans ?_ (h.forall_bit_iff true)
  unfold BoundedBitset.all
  split
  · exact iff_of_true rfl fun k inside => by omega
  · have whole : BitVec.allOnes 64 = BitVec.allOnes 64 >>> 0 := rfl
    rw [Bool.and_eq_true, all_eq_true, decide_eq_true_iff, ones_iff]
    simp only [mem_range, decide_eq_true_iff]
    rw [whole]
    simp only [ones_iff, h.size]
    constructor
    · rintro ⟨front, last⟩ k inside
      have ones := fun before => front (k / 64) before (k % 64) (Nat.mod_lt k (by decide))
      unfold bit
      by_cases before : k / 64 < b.nofWords - 1
      · rw [ones before]
        exact decide_eq_true (by omega)
      · have word : k / 64 = b.nofWords - 1 := by omega
        rw [word, last (k % 64) (Nat.mod_lt k (by decide))]
        exact decide_eq_true (by omega)
    · intro set
      constructor
      · intro i before j inside
        rw [← BitVec.testBit_toNat, testBit_word inside, set _ (by omega), decide_eq_true (by omega)]
      · intro j inside
        rw [← BitVec.testBit_toNat, testBit_word inside]
        by_cases below : 64 * (b.nofWords - 1) + j < l.length
        · rw [set _ below, decide_eq_true (by omega)]
        · rw [h.beyond _ (Nat.le_of_not_lt below), decide_eq_false (by omega)]

theorem testBit (h : Refines b l) {pos : Nat} (inside : pos < l.length) : b.testBit pos = l.getD pos false := by
  rw [testBit_eq, h.test pos inside]

theorem getD_msbFirst_bitsOf {n v pos : Nat} (inside : pos < n) :
    (msbFirst reversed (bitsOf n v)).getD pos false = v.testBit (if reversed then n - 1 - pos else pos) := by
  unfold msbFirst
  split
  · exact getD_bitsOf inside
  · have length := bitsOf_length n v
    rw [getD_reverse pos (by omega), getD_bitsOf (by omega)]
    congr 1
    omega

section
variable (h : Refines b l)
include h

theorem toUint64 (some_ : 0 < l.length) (small : l.length ≤ 64) :
    b.toUint64 = .ok (ofBits (msbFirst reversed l)) := by
  have words := h.nofWords_eq
  have bits : ∀ k, (b.buffer 0).toNat.testBit k = b.bit k := by
    intro k
    by_cases inside : k < 64
    · rw [testBit_word inside, Nat.zero_add]
    · rw [BitVec.testBit_toNat, BitVec.getLsbD_of_ge _ _ (Nat.le_of_not_lt inside), h.beyond k (by omega)]
  have fits : (b.buffer 0).toNat < 2 ^ l.length := by
    apply Nat.lt_pow_two_of_testBit
    intro k above
    rw [bits, h.beyond k above]
  have same : msbFirst reversed (bitsOf l.length (b.buffer 0).toNat) = l := by
    apply ext_getElem (by unfold msbFirst; split <;> simp)
    intro pos _ inside
    have here := @getD_msbFirst_bitsOf reversed l.length (b.buffer 0).toNat pos inside
    have held := h.test pos inside
    rw [getD_eq_getElem _ _ (by assumption)] at here held
    unfold getBitidx at held
    rw [here, bits, ← held, h.size]
  have back : msbFirst reversed l = bitsOf l.length (b.buffer 0).toNat := by
    conv_lhs => rw [← same]
    unfold msbFirst
    split
    · rfl
    · exact reverse_reverse _
  unfold BoundedBitset.toUint64
  rw [if_pos (by omega), back, ofBits_bitsOf fits]

theorem fromUint64 {v : Nat} (fits : v < 2 ^ l.length) (some_ : 0 < l.length)
    (small : l.length < 32) :
    ∃ b', b.fromUint64 v = .ok b' ∧ Refines b' (msbFirst reversed (bitsOf l.length v)) := by
  have words := h.nofWords_eq
  have bits : ∀ k < 64, (b.setWord 0 (BitVec.ofNat 64 v)).bit k = v.testBit k := by
    intro k inside
    rw [bit_setWord, if_pos (by omega), Nat.mod_eq_of_lt inside, BitVec.getLsbD_ofNat, decide_eq_true inside, Bool.true_and]
  unfold BoundedBitset.fromUint64
  rw [if_neg (by omega), if_neg (by rw [h.size]; omega), if_pos (by rwa [h.size])]
  refine ⟨_, rfl, h.of_bits size_setWord (by unfold msbFirst; split <;> simp) ?_ ?_⟩
  · intro pos inside
    rw [bits _ ((getBitidx_lt (h.size ▸ inside)).trans (by rw [h.size]; omega)), getD_msbFirst_bitsOf inside, ← h.size]
    rfl
  · intro k above
    by_cases inside : k < 64
    · rw [bits k inside]
      exact Nat.testBit_lt_two_pow (fits.trans_le (Nat.pow_le_pow_right Nat.two_pos above))
    · rw [bit_setWord, if_neg (by omega), h.beyond k above]

theorem fromUint64_fails (v : Nat) (out : ¬(0 < l.length ∧ l.length < 32)) :
    ∃ e, b.fromUint64 v = .error e := by
  have words := h.nofWords_eq
  unfold BoundedBitset.fromUint64
  split
  · exact ⟨_, rfl⟩
  · rw [if_pos (by rw [h.size]; omega)]
    exact ⟨_, rfl⟩

theorem equal (h' : Refines other m) : b.equal other = decide (l = m) := by
  rw [Bool.eq_iff_iff]
  unfold BoundedBitset.equal
  rw [Bool.and_eq_true, all_eq_true]
  simp only [mem_range, decide_eq_true_iff]
  constructor
  · rintro ⟨size, words⟩
    have length : l.length = m.length := by rw [← h.size, size, h'.size]
    apply ext_getElem length
    intro pos inside inside'
    have idx : other.getBitidx pos = b.getBitidx pos := getBitidx_congr size.symm
    have first := h.test pos inside
    have second := h'.test pos inside'
    rw [getD_eq_getElem _ _ inside] at first
    rw [getD_eq_getElem _ _ inside', idx] at second
    rw [← first, ← second]
    unfold bit
    rw [words _ (lt_nofWords (getBitidx_lt (h.size ▸ inside)))]
  · rintro rfl
    have size : b.size = other.size := by rw [h.size, h'.size]
    have same : ∀ k, b.bit k = other.bit k := by
      intro k
      by_cases inside : k < l.length
      · rw [h.bit_of_lt inside, h'.bit_of_lt inside, getBitidx_congr size]
      · rw [h.beyond k (Nat.le_of_not_lt inside), h'.beyond k (Nat.le_of_not_lt inside)]
    refine ⟨size, fun i _ => BitVec.eq_of_getLsbD_eq fun j inside => ?_⟩
    rw [← BitVec.testBit_toNat, ← BitVec.testBit_toNat, testBit_word inside, testBit_word inside, same]

theorem anyIn {start stop : Nat} (range : start ≤ l.length ∧ stop ≤ l.length) :
    b.anyIn start stop = .ok ((range' start (stop - start)).any fun pos => l.getD pos false) := by
  unfold BoundedBitset.anyIn
  rw [if_pos (by rwa [h.size])]
  congr 1
  rw [Bool.eq_iff_iff, any_eq_true, any_eq_true]
  refine exists_congr fun pos => and_congr_right fun mem => ?_
  have inside := mem_range'_1.mp mem
  rw [h.testBit (by omega)]

theorem findLowest {start stop : Nat} (range : start ≤ stop ∧ stop ≤ l.length) (value : Bool) :
    b.findLowest start stop value = .ok (toInt (lowest l start stop value)) := by
  rw [findLowest_eq (by rwa [h.size])]
  congr 2
  apply List.find?_congr
  intro pos mem
  have inside := mem_range'_1.mp mem
  rw [h.testBit (by omega)]

end

end Refines

/-! ### Runs -/

open BoundedBitset

theorem toInt_eq_iff (found : Option Nat) :
    toInt found = (found.map Int.ofNat).getD (-1) ↔ ∀ pos, found = some pos → pos < 2147483648 := by
  cases found with
  | none => simp [toInt]
  | some pos =>
    simp only [toInt, i32]
    split <;> simp <;> omega

inductive Call where
  | change (x other : Nat) (op : Op)
  | ask (x other : Nat) (query : Query)

def runWords {N : Nat} {reversed : Bool} (s : Nat → BoundedBitset N reversed) : List Call → Except Fault (List Answer)
  | [] => .ok []
  | .change x other op :: calls => op.run (s x) (s other) >>= fun b => runWords (update s x b) calls
  | .ask x other query :: calls => query.ask (s x) (s other) >>= fun a => (runWords s calls).map (a :: ·)

section
variable (N : Nat) (reversed : Bool)

def runLists (lists : Nat → List Bool) : List Call → Option (List Answer)
  | [] => some []
  | .change x other op :: calls =>
    (op.onList N reversed (lists x) (lists other)).bind fun l => runLists (update lists x l) calls
  | .ask x other query :: calls =>
    (query.onList reversed (lists x) (lists other)).bind fun a => (runLists lists calls).map (a :: ·)

def Op.Fits (l : List Bool) : Op → Prop
  | fromUint64 _ => 0 < l.length ∧ l.length < 32
  | _ => True

def Query.Fits (l : List Bool) : Query → Prop
  | findLowest startpos endpos value => ∀ pos, lowest l startpos endpos value = some pos → pos < 2147483648
  | _ => True

def RunFits (lists : Nat → List Bool) : List Call → Prop
  | [] => True
  | .change x other op :: calls => op.Fits (lists x) ∧
      ∀ l, op.onList N reversed (lists x) (lists other) = some l → RunFits (update lists x l) calls
  | .ask x _ query :: calls => query.Fits (lists x) ∧ RunFits lists calls

end

section
variable {N : Nat} {reversed : Bool} {b other : BoundedBitset N reversed} {l m l' : List Bool}

theorem Refines.run (h : Refines b l) (h' : Refines other m) {op : Op} (made : op.onList N reversed l m = some l')
    (fits : op.Fits l) : ∃ b', op.run b other = .ok b' ∧ Refines b' l' := by
  cases op with
  | set pos val =>
    obtain ⟨inside, rfl⟩ := Option.ite_some_none_eq_some.mp made
    exact ⟨_, if_pos (by rwa [h.size]), h.set inside val⟩
  | resetAll =>
    obtain rfl := Option.some.inj made
    exact ⟨_, rfl, h.resetAll⟩
  | flip =>
    obtain rfl := Option.some.inj made
    exact ⟨_, rfl, h.flip⟩
  | fill startpos endpos value =>
    obtain ⟨range, rfl⟩ := Option.ite_some_none_eq_some.mp made
    have filled := h.fill value startpos (endpos - startpos) (by omega)
    rw [Nat.add_sub_cancel' range.1] at filled
    exact ⟨_, if_pos (by rwa [h.size]), filled⟩
  | resize newSize =>
    obtain ⟨room, rfl⟩ := Option.ite_some_none_eq_some.mp made
    exact h.resize room
  | or =>
    obtain ⟨same, rfl⟩ := Option.ite_some_none_eq_some.mp made
    exact ⟨_, if_pos (by rw [h.size, h'.size, same]), h.zipped h' same (fun _ _ _ => BitVec.getLsbD_or) rfl⟩
  | and =>
    obtain ⟨same, rfl⟩ := Option.ite_some_none_eq_some.mp made
    exact ⟨_, if_pos (by rw [h.size, h'.size, same]), h.zipped h' same (fun _ _ _ => BitVec.getLsbD_and) rfl⟩
  | assign =>
    obtain rfl := Option.some.inj made
    exact ⟨_, rfl, h'⟩
  | fromUint64 v =>
    obtain ⟨⟨below, -⟩, rfl⟩ := Option.ite_some_none_eq_some.mp made
    exact h.fromUint64 below fits.1 fits.2

theorem Refines.run_fails (h : Refines b l) {op : Op} (out : ¬op.Fits l) : ∃ e, op.run b other = .error e := by
  cases op with
  | fromUint64 v => exact h.fromUint64_fails v out
  | _ => exact absurd trivial out

theorem Refines.ask_iff (h : Refines b l) (h' : Refines other m) {query : Query} {a : Answer}
    (made : query.onList reversed l m = some a) : query.ask b other = .ok a ↔ query.Fits l := by
  cases query with
  | test pos =>
    obtain ⟨inside, rfl⟩ := Option.ite_some_none_eq_some.mp made
    refine iff_of_true ?_ trivial
    rw [Query.ask, BoundedBitset.test, if_pos (by rwa [h.size]), h.testBit inside]
    rfl
  | count =>
    obtain rfl := Option.some.inj made
    exact iff_of_true (by rw [Query.ask, h.count]) trivial
  | all =>
    obtain rfl := Option.some.inj made
    exact iff_of_true (by rw [Query.ask, h.all]) trivial
  | any =>
    obtain rfl := Option.some.inj made
    exact iff_of_true (by rw [Query.ask, h.any]) trivial
  | anyIn start stop =>
    obtain ⟨range, rfl⟩ := Option.ite_some_none_eq_some.mp made
    exact iff_of_true (by rw [Query.ask, h.anyIn range]; rfl) trivial
  | findLowest startpos endpos value =>
    obtain ⟨range, rfl⟩ := Option.ite_some_none_eq_some.mp made
    rw [Query.ask, h.findLowest range]
    refine Iff.trans ?_ (toInt_eq_iff _)
    exact ⟨fun same => Answer.int.inj (Except.ok.inj same), fun same => congrArg (Except.ok ∘ Answer.int) same⟩
  | toUint64 =>
    obtain ⟨⟨some_, small⟩, rfl⟩ := Option.ite_some_none_eq_some.mp made
    exact iff_of_true (by rw [Query.ask, h.toUint64 some_ small]; rfl) trivial
  | equal =>
    obtain rfl := Option.some.inj made
    exact iff_of_true (by rw [Query.ask, h.equal h']) trivial

theorem runWords_iff {s : Nat → BoundedBitset N reversed} {lists : Nat → List Bool}
    (refines : ∀ x, Refines (s x) (lists x)) {calls : List Call} {answers : List Answer}
    (made : runLists N reversed lists calls = some answers) :
    runWords s calls = .ok answers ↔ RunFits N reversed lists calls := by
  induction calls generalizing s lists answers with
  | nil =>
    obtain rfl := Option.some.inj made
    exact iff_of_true rfl trivial
  | cons call calls ih =>
    cases call with
    | change x other op =>
      obtain ⟨l, changed, later⟩ := Option.bind_eq_some_iff.mp made
      rw [runWords]
      by_cases fits : op.Fits (lists x)
      · obtain ⟨b, run, refines'⟩ := (refines x).run (refines other) changed fits
        have next : ∀ y, Refines (update s x b y) (update lists x l y) := by
          intro y
          by_cases here : y = x
          · rw [here, update_self, update_self]
            exact refines'
          · rw [update_of_ne here, update_of_ne here]
            exact refines y
        rw [run]
        refine (ih next later).trans ⟨fun rest => ⟨fits, fun l' changed' => ?_⟩, fun both => both.2 l changed⟩
        obtain rfl : l = l' := Option.some.inj (changed.symm.trans changed')
        exact rest
      · obtain ⟨e, fails⟩ := @Refines.run_fails _ _ _ (s other) _ (refines x) _ fits
        rw [fails]
        exact iff_of_false nofun fun both => fits both.1
    | ask x other query =>
      obtain ⟨a, asked, later⟩ := Option.bind_eq_some_iff.mp made
      obtain ⟨rest, answered, rfl⟩ := Option.map_eq_some_iff.mp later
      rw [runWords, RunFits, ← (refines x).ask_iff (refines other) asked, ← ih refines answered, bind_eq_ok]
      constructor
      · rintro ⟨a', first, run⟩
        obtain ⟨rest', second, eq⟩ := map_eq_ok.mp run
        obtain ⟨rfl, rfl⟩ := List.cons.inj eq
        exact ⟨first, second⟩
      · rintro ⟨first, second⟩
        exact ⟨a, first, map_eq_ok.mpr ⟨rest, second, rfl⟩⟩

theorem boundedBitset_run_iff (sizes : Nat → Nat) (fits : ∀ x, sizes x ≤ N) (calls : List Call) (answers : List Answer)
    (made : runLists N reversed (fun x => replicate (sizes x) false) calls = some answers) :
    runWords (fun x => (⟨fun _ => 0, sizes x⟩ : BoundedBitset N reversed)) calls = .ok answers ↔
      RunFits N reversed (fun x => replicate (sizes x) false) calls :=
  runWords_iff (fun x => Refines.initial (fits x)) made

theorem boundedBitset_run_rbgs :
    runWords (fun _ => (⟨fun _ => 0, 13⟩ : BoundedBitset 25 true))
      [.change 0 0 (.fromUint64 5), .ask 0 0 (.findLowest 0 13 true)] = .ok [.int 10] := by
  apply (boundedBitset_run_iff (fun _ => 13) (fun _ => by decide) _ _ (by decide)).mpr
  refine ⟨⟨by decide, by decide⟩, fun l changed => ⟨fun pos found => ?_, trivial⟩⟩
  have inside := mem_range'_1.mp (mem_of_find?_eq_some found)
  omega

theorem boundedBitset_fromUint64_wide :
    runLists 64 false (fun _ => replicate 32 false) [.change 0 0 (.fromUint64 1), .ask 0 0 .count] =
        some [.nat 1] ∧
      runWords (fun _ => (⟨fun _ => 0, 32⟩ : BoundedBitset 64 false))
        [.change 0 0 (.fromUint64 1), .ask 0 0 .count] = .error .undefinedBehaviour :=
  ⟨by decide, rfl⟩

end
end IsrRan.Adt
