import IsrRan.Adt.Bounded
import IsrRan.Phy.Cbsegm

/-! PRB and RBG bitmaps of a bandwidth part (sched_nr_rb). -/

namespace IsrRan.Mac.Nr

structure PrbInterval where
  start : Nat := 0
  stop : Nat := 0
  ordered : start ≤ stop := by decide
  deriving DecidableEq, Repr

namespace PrbInterval
variable (interv : PrbInterval)

def empty : Bool := interv.stop == interv.start

def length : Nat := interv.stop - interv.start

end PrbInterval

abbrev PrbBitmap := BoundedBitset

def findNextEmptyInterval (mask : PrbBitmap) (startPrbIdx lastPrbIdx : Nat) : Except Fault PrbInterval :=
  match h : mask.findLowest startPrbIdx (min mask.size lastPrbIdx) false with
  | .error fault => .error fault
  | .ok none => .ok {}
  | .ok (some rbStart) =>
    match h' : mask.findLowest (rbStart + 1) (min mask.size lastPrbIdx) true with
    | .error fault => .error fault
    | .ok none => .ok ⟨rbStart, mask.size, by have := BoundedBitset.findLowest_some h; omega⟩
    | .ok (some rbEnd) => .ok ⟨rbStart, rbEnd, by have := BoundedBitset.findLowest_some h'; omega⟩

theorem findNextEmptyInterval_bounds {mask : PrbBitmap} {startPrbIdx : Nat} {interv : PrbInterval}
    (h : findNextEmptyInterval mask startPrbIdx mask.size = .ok interv) (some_ : interv.empty = false) :
    startPrbIdx ≤ interv.start ∧ interv.stop ≤ mask.size := by
  unfold findNextEmptyInterval at h
  split at h
  · contradiction
  · obtain rfl := Except.ok.inj h
    contradiction
  · rename_i first
    have lower := BoundedBitset.findLowest_some first
    split at h
    · contradiction
    · obtain rfl := Except.ok.inj h
      exact ⟨lower.1, Nat.le_refl _⟩
    · rename_i last
      have upper := BoundedBitset.findLowest_some last
      obtain rfl := Except.ok.inj h
      exact ⟨lower.1, Nat.le_of_lt (Nat.lt_of_lt_of_le upper.2.1 (Nat.min_le_left _ _))⟩

def emptyIntervalLoop (mask : PrbBitmap) (nofPrbs startPrbIdx : Nat) (maxInterv : PrbInterval) :
    Except Fault PrbInterval :=
  match h : findNextEmptyInterval mask startPrbIdx mask.size with
  | .error fault => .error fault
  | .ok interv =>
    if some_ : interv.empty then .ok maxInterv
    else if nofPrbs ≤ interv.length then .ok ⟨interv.start, interv.start + nofPrbs, Nat.le_add_right _ _⟩
    else
      if interv.stop + 1 < mask.size then
        emptyIntervalLoop mask nofPrbs (interv.stop + 1)
          (if interv.length > maxInterv.length then interv else maxInterv)
      else .ok (if interv.length > maxInterv.length then interv else maxInterv)
  termination_by mask.size - startPrbIdx
  decreasing_by
    have bounds := findNextEmptyInterval_bounds h (Bool.eq_false_iff.mpr some_)
    have := interv.ordered
    omega

def findEmptyIntervalOfLength (mask : PrbBitmap) (nofPrbs startPrbIdx : Nat) : Except Fault PrbInterval :=
  emptyIntervalLoop mask nofPrbs startPrbIdx {}

theorem findNextEmptyInterval_runs {mask : PrbBitmap} {startPrbIdx : Nat} (inside : startPrbIdx ≤ mask.size) :
    ∃ interv, findNextEmptyInterval mask startPrbIdx mask.size = .ok interv := by
  have within : startPrbIdx ≤ min mask.size mask.size ∧ min mask.size mask.size ≤ mask.size := by
    rw [Nat.min_self]
    exact ⟨inside, Nat.le_refl _⟩
  obtain ⟨first, found⟩ := BoundedBitset.findLowest_of_le false within
  unfold findNextEmptyInterval
  split
  · rename_i fails
    rw [found] at fails
    contradiction
  · exact ⟨_, rfl⟩
  · rename_i rbStart eq
    have lower := BoundedBitset.findLowest_some eq
    obtain ⟨last, found'⟩ := BoundedBitset.findLowest_of_le true
      (And.intro (Nat.succ_le_of_lt lower.2.1) within.2)
    split
    · rename_i fails
      rw [found'] at fails
      contradiction
    · exact ⟨_, rfl⟩
    · exact ⟨_, rfl⟩

theorem emptyIntervalLoop_runs {mask : PrbBitmap} {nofPrbs startPrbIdx : Nat} {maxInterv : PrbInterval}
    (inside : startPrbIdx ≤ mask.size) :
    ∃ interv, emptyIntervalLoop mask nofPrbs startPrbIdx maxInterv = .ok interv := by
  fun_induction emptyIntervalLoop mask nofPrbs startPrbIdx maxInterv with
  | case1 start maxInterv fault fails =>
    obtain ⟨interv, runs⟩ := findNextEmptyInterval_runs inside
    rw [runs] at fails
    contradiction
  | case2 start maxInterv => exact ⟨maxInterv, rfl⟩
  | case3 start maxInterv interv => exact ⟨_, rfl⟩
  | case4 start maxInterv interv found some_ short more ih => exact ih (Nat.le_of_lt more)
  | case5 start maxInterv interv => exact ⟨_, rfl⟩

end IsrRan.Mac.Nr
