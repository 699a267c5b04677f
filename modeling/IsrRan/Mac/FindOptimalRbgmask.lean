import Mathlib.Data.Int.ConditionallyCompleteOrder
import IsrRan.Lib.Binary32
import IsrRan.Mac.FalsePosition
import IsrRan.Mac.RaSched
import IsrRan.Mac.SchedDciUl
import IsrRan.Phy.Dci

namespace IsrRan.Mac.Lte.RbgAlloc
open RaSched List

/-- `rbgmask_t`, by positions; position `i` is stored in bit `size - 1 - i` of the word. -/
structure RbgMask where
  rbgs : List Bool
  bounded : rbgs.length ≤ 25
  deriving DecidableEq

namespace RbgMask

def size (m : RbgMask) : Nat := m.rbgs.length

theorem size_le (m : RbgMask) : m.size ≤ 25 := m.bounded

def test (m : RbgMask) (pos : Nat) : Bool := m.rbgs.getD pos false

def ofTest (n : Nat) (n_le : n ≤ 25) (test : Nat → Bool) : RbgMask :=
  ⟨(range n).map test, by rw [length_map, length_range]; exact n_le⟩

def fill (m : RbgMask) (startpos endpos : Nat) (value : Bool) : RbgMask :=
  ofTest m.size m.size_le fun i => if startpos ≤ i ∧ i < endpos then value else m.test i

def complement (m : RbgMask) : RbgMask := ofTest m.size m.size_le fun i => !m.test i

def count (m : RbgMask) : Nat := (range m.size).countP m.test

def findLowest (m : RbgMask) (startpos endpos : Nat) (value : Bool) : Option Nat :=
  (range' startpos (endpos - startpos)).find? fun i => m.test i == value

def fromUint64 (m : RbgMask) (v : Nat) : Option RbgMask :=
  if v < 2 ^ m.size then some (ofTest m.size m.size_le fun pos => v.testBit (m.size - 1 - pos)) else none

variable {m : RbgMask} {n startpos endpos pos i : Nat} {value : Bool}

@[simp] theorem size_ofTest {n_le : n ≤ 25} {test : Nat → Bool} : (ofTest n n_le test).size = n := by
  simp [size, ofTest]

@[simp] theorem test_ofTest {n_le : n ≤ 25} {test : Nat → Bool} :
    (ofTest n n_le test).test i = (decide (i < n) && test i) := by
  unfold RbgMask.test ofTest
  by_cases inside : i < n
  · simp [inside]
  · simp [inside]

theorem lt_size_of_test (set : m.test i = true) : i < m.size := by
  by_contra outside
  unfold test at set
  rw [getD_eq_default _ _ (Nat.le_of_not_lt outside)] at set
  contradiction

@[simp] theorem size_complement : m.complement.size = m.size := size_ofTest

theorem test_complement (inside : i < m.size) : m.complement.test i = !m.test i := by
  unfold complement
  rw [test_ofTest, decide_eq_true inside, Bool.true_and]

@[simp] theorem size_fill : (m.fill startpos endpos value).size = m.size := size_ofTest

theorem test_fill (inside : i < m.size) :
    (m.fill startpos endpos value).test i = if startpos ≤ i ∧ i < endpos then value else m.test i := by
  unfold fill
  rw [test_ofTest, decide_eq_true inside, Bool.true_and]

theorem findLowest_some (found : m.findLowest startpos endpos value = some pos) : startpos ≤ pos ∧ pos < endpos ∧
    m.test pos = value ∧ ∀ i, startpos ≤ i → i < pos → m.test i ≠ value := by
  unfold findLowest at found
  have mem := List.mem_range'_1.mp (List.mem_of_find?_eq_some found)
  have here := List.find?_some found
  rw [List.find?_range'_eq_some] at found
  refine ⟨mem.1, by omega, eq_of_beq here, ?_⟩
  intro i above below same
  have early := found.2.2 i above below
  simp [same] at early

theorem findLowest_none (absent : m.findLowest startpos endpos value = none) (above : startpos ≤ i) (below : i < endpos) :
    m.test i ≠ value := by
  have none_there := List.find?_eq_none.mp absent i (List.mem_range'_1.mpr (by omega))
  simpa using none_there

end RbgMask

def intervalFrom (inMask : RbgMask) (maxSize pos : Nat) : RbgInterval :=
  let maxPos := min inMask.size (pos + maxSize)
  ⟨pos, (inMask.findLowest (pos + 1) maxPos true).getD maxPos⟩

theorem intervalFrom_spec {inMask : RbgMask} {maxSize pos : Nat} (positive : 0 < maxSize) (inside : pos < inMask.size)
    (free : inMask.test pos = false) :
    pos < (intervalFrom inMask maxSize pos).stop ∧ (intervalFrom inMask maxSize pos).stop ≤ inMask.size ∧
      (∀ i, pos ≤ i → i < (intervalFrom inMask maxSize pos).stop → inMask.test i = false) ∧
      ((intervalFrom inMask maxSize pos).stop = min inMask.size (pos + maxSize) ∨
        inMask.test (intervalFrom inMask maxSize pos).stop = true) := by
  unfold intervalFrom
  dsimp only
  cases taken : inMask.findLowest (pos + 1) (min inMask.size (pos + maxSize)) true with
  | none =>
    rw [Option.getD_none]
    refine ⟨by omega, Nat.min_le_left _ _, ?_, .inl rfl⟩
    intro i above below
    rcases Nat.eq_or_lt_of_le above with rfl | later
    · exact free
    · exact Bool.eq_false_iff.mpr (RbgMask.findLowest_none taken later below)
  | some stop =>
    obtain ⟨after, before, set, first⟩ := RbgMask.findLowest_some taken
    rw [Option.getD_some]
    refine ⟨after, by omega, ?_, .inr set⟩
    intro i above below
    rcases Nat.eq_or_lt_of_le above with rfl | later
    · exact free
    · exact Bool.eq_false_iff.mpr (first i later below)

def contiguousLoop (inMask : RbgMask) (maxSize n : Nat) (maxInterv : RbgInterval) : RbgInterval :=
  if _more : n < inMask.size then
    match _found : inMask.findLowest n inMask.size false with
    | none => maxInterv
    | some pos =>
      if _long : (intervalFrom inMask maxSize pos).length ≥ maxSize then intervalFrom inMask maxSize pos
      else contiguousLoop inMask maxSize (intervalFrom inMask maxSize pos).stop
        (if (intervalFrom inMask maxSize pos).length > maxInterv.length then intervalFrom inMask maxSize pos
         else maxInterv)
  else maxInterv
termination_by inMask.size - n
decreasing_by
  obtain ⟨above, below, free, _⟩ := RbgMask.findLowest_some _found
  have ends := @intervalFrom_spec inMask maxSize pos (by omega) below free
  omega

def findContiguousInterval (inMask : RbgMask) (maxSize : Nat) : RbgInterval :=
  contiguousLoop inMask maxSize 0 ⟨0, 0⟩

structure FreeRange (m : RbgMask) (start stop : Nat) : Prop where
  order : start ≤ stop
  inside : stop ≤ m.size
  free : ∀ i, start ≤ i → i < stop → m.test i = false

theorem contiguousLoop_spec {m : RbgMask} (n : Nat) (best : RbgInterval) (range : FreeRange m best.start best.stop)
    (longest : ∀ start stop, FreeRange m start stop → start < n → stop - start ≤ best.length) :
    FreeRange m (contiguousLoop m m.size n best).start (contiguousLoop m m.size n best).stop ∧
      ∀ start stop, FreeRange m start stop → stop - start ≤ (contiguousLoop m m.size n best).length := by
  have out_of_range : ∀ start stop, FreeRange m start stop → m.size ≤ start → stop - start ≤ best.length := by
    intro start stop other beyond
    have inside := other.inside
    omega
  induction size : m.size - n using Nat.strongRecOn generalizing n best with
  | ind size ih =>
    rw [contiguousLoop]
    split
    · rename_i more
      split
      · rename_i absent
        refine ⟨range, ?_⟩
        intro start stop other
        by_cases early : start < n
        · exact longest start stop other early
        · by_contra longer
          have inside := other.inside
          exact RbgMask.findLowest_none absent (Nat.le_of_not_lt early) (by omega)
            (other.free start (Nat.le_refl _) (by omega))
      · rename_i pos found
        obtain ⟨above, below, free, first⟩ := RbgMask.findLowest_some found
        obtain ⟨after, inside, all_free, ends⟩ := @intervalFrom_spec m m.size pos (by omega) below free
        have least : min m.size (pos + m.size) = m.size := by omega
        rw [least] at ends
        have own : FreeRange m (intervalFrom m m.size pos).start (intervalFrom m m.size pos).stop :=
          ⟨after.le, inside, all_free⟩
        have shorter : ∀ start stop, FreeRange m start stop → start < (intervalFrom m m.size pos).stop →
            stop - start ≤ max best.length (intervalFrom m m.size pos).length := by
          intro start stop other before
          by_cases early : start < n
          · exact (longest start stop other early).trans (Nat.le_max_left _ _)
          · by_cases skipped : start < pos
            · have taken := first start (Nat.le_of_not_lt early) skipped
              have empty : stop ≤ start := by
                by_contra some_rbg
                exact taken (other.free start (Nat.le_refl _) (by omega))
              omega
            · have bound : stop ≤ (intervalFrom m m.size pos).stop := by
                rcases ends with last | taken
                · rw [last]
                  exact other.inside
                · by_contra longer
                  rw [other.free _ (by omega) (by omega)] at taken
                  contradiction
              have start_eq : (intervalFrom m m.size pos).start = pos := rfl
              unfold RbgInterval.length
              omega
        split
        · rename_i long
          refine ⟨own, ?_⟩
          intro start stop other
          have inside' := other.inside
          omega
        · apply ih (m.size - (intervalFrom m m.size pos).stop) (by omega) _ _ _ _ _ rfl
          · split
            · exact own
            · exact range
          · intro start stop other before
            have bound := shorter start stop other before
            split <;> omega
          · intro start stop other beyond
            have inside' := other.inside
            omega
    · rename_i done
      refine ⟨range, ?_⟩
      intro start stop other
      by_cases early : start < n
      · exact longest start stop other early
      · exact out_of_range start stop other (by omega)

theorem findContiguousInterval_spec (m : RbgMask) :
    FreeRange m (findContiguousInterval m m.size).start (findContiguousInterval m m.size).stop ∧
      ∀ start stop, FreeRange m start stop → stop - start ≤ (findContiguousInterval m m.size).length := by
  apply contiguousLoop_spec 0 ⟨0, 0⟩
  · exact ⟨Nat.le_refl _, Nat.zero_le _, fun i _ below => absurd below (Nat.not_lt_zero i)⟩
  · intro start stop _ before
    exact absurd before (Nat.not_lt_zero start)

def availableEnd (localmask : RbgMask) (maxSize i nofAlloc : Nat) : Nat :=
  if i < localmask.size ∧ nofAlloc < maxSize then
    availableEnd localmask maxSize (i + 1) (if localmask.test i then nofAlloc + 1 else nofAlloc)
  else i
termination_by localmask.size - i

def findAvailableRbgs (inMask : RbgMask) (maxSize : Nat) : RbgMask :=
  let localmask := inMask.complement
  if maxSize ≥ localmask.size ∨ maxSize ≥ localmask.count then localmask
  else localmask.fill (availableEnd localmask maxSize 0 0) localmask.size false

def findAvailableRbgmask (maxNofRbgs : Nat) (isContiguous : Bool) (currentMask : RbgMask) : RbgMask :=
  if isContiguous then
    let interv := findContiguousInterval currentMask maxNofRbgs
    (RbgMask.ofTest currentMask.size currentMask.size_le fun _ => false).fill interv.start interv.stop true
  else findAvailableRbgs currentMask maxNofRbgs

open Lib Phy RaSched FalsePosition

def interpolate (y0 : Int) (b : Bracket) : Int :=
  roundAway (roundBinary32 (b.x1 - roundBinary32
    (roundBinary32 ((b.x2 - b.x1) * (b.y1 - y0) : Int) / roundBinary32 (b.y2 - b.y1 : Int))))

/-- `interval<uint32_t>`, whose constructor asserts the order. -/
structure ReqBytes where
  start : Nat
  stop : Nat
  ordered : start ≤ stop := by decide

section
variable (computeLowerBound : RbgMask → TbsInfo) (nofRbgs : Fin 26)

def searchMask (n : Nat) : RbgMask :=
  (RbgMask.ofTest nofRbgs (Nat.le_of_lt_succ nofRbgs.isLt) fun _ => false).fill 0 n true

def computeTbsApprox (n : Nat) : Int := (computeLowerBound (searchMask nofRbgs n)).tbsBytes

def isError (y : Int) : Bool := y = -1

def shrinkPos (newtxmask : RbgMask) : Nat → Nat → Option Nat
  | 0, pos => some pos
  | rounds + 1, pos => (newtxmask.findLowest (pos + 1) newtxmask.size true).bind (shrinkPos newtxmask rounds)

def shrunkWord (size pos : Nat) : Nat := (4294967295 - (2 ^ pos - 1)) &&& (2 ^ size - 1)

/-- With wideband CQI; `computeLowerBound` is `compute_mcs_and_tbs_lower_bound` of the UE, subframe and format. The
result is the return value, the TBS and the mask; `none` is a failed assertion. -/
def findOptimalRbgmask (dlMask : RbgMask) (dciFormat : DciFormat) (reqBytes : ReqBytes) :
    Option (Bool × TbsInfo × RbgMask) :=
  let newtxmask := findAvailableRbgmask dlMask.size (dciFormat = .format1A) dlMask
  let tb := computeLowerBound newtxmask
  if tb.tbsBytes < i32 reqBytes.start then some (false, tb, newtxmask)
  else if tb.tbsBytes ≤ i32 reqBytes.stop then some (true, tb, newtxmask)
  else if newtxmask.count = 0 then none -- the search looks at the first entry of an empty `tb_table`
  else
    (falsePositionMethod (interpolate (i32 reqBytes.stop)) isError
      (fun n => computeTbsApprox computeLowerBound nofRbgs n.toNat) (i32 reqBytes.stop) newtxmask.count 1
      newtxmask.count).bind fun ret =>
        if ret.y2 ≥ i32 reqBytes.stop then
          (shrinkPos newtxmask (newtxmask.count - ret.x2.toNat) 0).bind fun pos =>
            (newtxmask.fromUint64 (shrunkWord newtxmask.size pos)).map fun shrunk =>
              (true, computeLowerBound (searchMask nofRbgs ret.x2.toNat), shrunk)
        else some (true, tb, newtxmask)

end

/-! The search -/

theorem interpolate_between {y0 : Int} {b : Bracket} (above : 0 ≤ b.x1) (order : b.x1 < b.x2) (below : b.x2 ≤ 25)
    (less : b.y1 < y0) (more : y0 ≤ b.y2) (small : b.y2 - b.y1 < 524290) :
    b.x1 ≤ interpolate y0 b ∧ interpolate y0 b ≤ b.x2 := by
  obtain ⟨x1, y1, x2, y2⟩ := b
  dsimp only at above order below less more small ⊢
  have narrow : x2 - x1 ≤ 25 := by omega
  have product_le : (x2 - x1) * (y1 - y0) ≤ 0 := by
    apply Int.mul_nonpos_of_nonneg_of_nonpos <;> omega
  have product_ge : -((x2 - x1) * (y2 - y1)) ≤ (x2 - x1) * (y1 - y0) := by
    rw [← Int.mul_neg]
    apply Int.mul_le_mul_of_nonneg_left <;> omega
  have span : (x2 - x1) * (y2 - y1) ≤ 25 * 524289 := by
    apply Int.mul_le_mul <;> omega
  generalize num_eq : (x2 - x1) * (y1 - y0) = num at *
  have num_exact : roundBinary32 (num : ℚ) = num := roundBinary32_intCast (by rw [abs_lt]; omega)
  have den_exact : roundBinary32 ((y2 - y1 : Int) : ℚ) = (y2 - y1 : Int) :=
    roundBinary32_intCast (by rw [abs_lt]; omega)
  have den_pos : (0 : ℚ) < (y2 - y1 : Int) := by exact_mod_cast (by omega : 0 < y2 - y1)
  have num_le : (num : ℚ) ≤ 0 := by exact_mod_cast product_le
  have num_ge : -((x2 - x1 : Int) : ℚ) * ((y2 - y1 : Int) : ℚ) ≤ num := by
    have cast := product_ge
    rw [← Int.neg_mul] at cast
    exact_mod_cast cast
  have width_lt : ((x2 - x1 : Int) : ℚ) ≤ 25 := by exact_mod_cast narrow
  have quotient_le : (num : ℚ) / (y2 - y1 : Int) ≤ (0 : Int) := by
    rw [div_le_iff₀ den_pos]
    simpa using num_le
  have quotient_ge : ((-(x2 - x1) : Int) : ℚ) ≤ (num : ℚ) / (y2 - y1 : Int) := by
    rw [le_div_iff₀ den_pos]
    exact_mod_cast num_ge
  have quotient_small : |(num : ℚ) / (y2 - y1 : Int)| < 16777216 := by
    rw [abs_lt]
    push_cast at quotient_ge quotient_le width_lt ⊢
    constructor <;> linarith
  have rounded_le := roundBinary32_le quotient_small quotient_le
  have rounded_ge := le_roundBinary32 quotient_small quotient_ge
  unfold interpolate
  dsimp only
  rw [num_eq, num_exact, den_exact]
  generalize roundBinary32 ((num : ℚ) / (y2 - y1 : Int)) = shift at rounded_le rounded_ge
  have x1_ge : (0 : ℚ) ≤ x1 := by exact_mod_cast above
  have x2_le : (x2 : ℚ) ≤ 25 := by exact_mod_cast below
  push_cast at rounded_le rounded_ge
  have point_ge : (x1 : ℚ) ≤ x1 - shift := by linarith
  have point_le : (x1 : ℚ) - shift ≤ x2 := by linarith
  have point_small : |(x1 : ℚ) - shift| < 16777216 := by
    rw [abs_lt]
    constructor <;> linarith
  have last_le := roundBinary32_le point_small point_le
  have last_ge := le_roundBinary32 point_small point_ge
  have nonneg : 0 ≤ roundBinary32 ((x1 : ℚ) - shift) := by linarith
  exact ⟨le_roundAway nonneg last_ge, roundAway_le nonneg last_le⟩

end IsrRan.Mac.Lte.RbgAlloc
