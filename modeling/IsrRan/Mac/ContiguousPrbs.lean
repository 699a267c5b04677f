import IsrRan.Adt.BoundedBitset

/-! The search for free resource blocks side by side (sched_phy_resource.cc). -/

namespace IsrRan.Mac.Lte.PrbSearch
open Lib Adt

structure Interval where
  start : Nat
  stop : Nat
  deriving DecidableEq

namespace Interval

def make (start stop : Nat) : Except Fault Interval :=
  if start ≤ stop then .ok ⟨start, stop⟩ else .error .assertionFailed

def length (i : Interval) : Nat := u32Sub i.stop i.start

def empty (i : Interval) : Bool := i.stop = i.start

def resizeBy (i : Interval) (len : Nat) : Interval := { i with stop := (i.stop + len) % 4294967296 }

end Interval

def validPrbTable : List Bool :=
  [true, true, true, true, true, true, true, false, true, true, true, false, true,
    false, false, true, true, false, true, false, true, false, false, false, true, true,
    false, true, false, false, true, false, true, false, false, false, true, false, false,
    false, true, false, false, false, false, true, false, false, true, false, true, false,
    false, false, true, false, false, false, false, false, true, false, false, false, true,
    false, false, false, false, false, false, false, true, false, false, true, false, false,
    false, false, true, true, false, false, false, false, false, false, false, false, true,
    false, false, false, false, false, true, false, false, false, true]

def validPrb (nofPrb : Nat) : Bool := if nofPrb ≤ 100 then validPrbTable.getD nofPrb false else false

section
variable {N : Nat} {reversed : Bool} (inMask : Adt.BoundedBitset N reversed)

def intervalAt (maxSize pos : Nat) : Except Fault Interval := do
  let maxPos := min inMask.size (pos + maxSize)
  let pos2 ← inMask.findLowest (pos + 1) maxPos true
  Interval.make pos (if pos2 < 0 then maxPos else pos2.toNat)

/-- The loop of `find_contiguous_interval` from position `n`; `none` when the turns are used up. -/
def contiguousLoop (maxSize : Nat) : Nat → Nat → Interval → Except Fault (Option Interval)
  | 0, _, _ => .ok none
  | turns + 1, n, maxInterv =>
    if n < inMask.size then do
      let pos ← inMask.findLowest n inMask.size false
      if pos < 0 then return some maxInterv
      let interv ← intervalAt inMask maxSize pos.toNat
      if interv.length ≥ maxSize then return some interv
      contiguousLoop maxSize turns interv.stop (if interv.length > maxInterv.length then interv else maxInterv)
    else return some maxInterv

def findContiguousInterval (turns maxSize : Nat) : Except Fault (Option Interval) :=
  contiguousLoop inMask maxSize turns 0 ⟨0, 0⟩

def growLoop : Nat → Interval → Except Fault (Option Interval)
  | 0, _ => .ok none
  | turns + 1, interv =>
    if !validPrb interv.length && interv.stop < inMask.size then do
      if ← inMask.test interv.stop then return some interv
      growLoop turns (interv.resizeBy 1)
    else return some interv

def shrinkLoop : Nat → Interval → Option Interval
  | 0, _ => none
  | turns + 1, interv =>
    if !validPrb interv.length && !interv.empty then shrinkLoop turns (interv.resizeBy 4294967295) else some interv

def findContiguousUlPrbs (turns L : Nat) : Except Fault (Option Interval) := do
  let some interv ← findContiguousInterval inMask turns L | return none
  if interv.empty then return some interv
  let some grown ← growLoop inMask turns interv | return none
  return if !validPrb grown.length then shrinkLoop turns (interv.resizeBy 4294967295) else some grown

end

def DftSize (n : Nat) : Prop := ∃ a b c, n = 2 ^ a * 3 ^ b * 5 ^ c

theorem validPrb_dftSize {n : Nat} (valid : validPrb n = true) (some_ : n ≠ 0) : DftSize n := by
  have table : ∀ n < 101, validPrb n = true → n = 0 ∨ ∃ a < 7, ∃ b < 5, ∃ c < 3, n = 2 ^ a * 3 ^ b * 5 ^ c := by
    decide +kernel
  have small : n < 101 := by
    by_contra large
    unfold validPrb at valid
    rw [if_neg (by omega)] at valid
    cases valid
  obtain zero | ⟨a, _, b, _, c, _, eq⟩ := table n small valid
  · exact absurd zero some_
  · exact ⟨a, b, c, eq⟩

section
variable {N : Nat} {reversed : Bool} {m : Adt.BoundedBitset N reversed} {L n turns : Nat} {best : Interval}

structure FreeRange (m : Adt.BoundedBitset N reversed) (start stop : Nat) : Prop where
  order : start ≤ stop
  inside : stop ≤ m.size
  free : ∀ i, start ≤ i → i < stop → m.testBit i = false

/-- The lowest range of the length that was asked for, or a longest one where there is none of it. -/
structure Found (m : Adt.BoundedBitset N reversed) (L : Nat) (r : Interval) : Prop where
  free : FreeRange m r.start r.stop
  whole : (∃ start, FreeRange m start (start + L)) →
    r.stop = r.start + L ∧ ∀ start, FreeRange m start (start + L) → r.start ≤ start
  longest : (¬∃ start, FreeRange m start (start + L)) →
    ∀ start stop, FreeRange m start stop → stop - start ≤ r.stop - r.start

theorem findLowest_spec {start stop : Nat} (small : m.size ≤ 2147483648) (range : start ≤ stop ∧ stop ≤ m.size)
    (value : Bool) : ∃ found : Option Nat,
      m.findLowest start stop value = .ok ((found.map Int.ofNat).getD (-1)) ∧
        FirstOf (fun i => start ≤ i ∧ i < stop ∧ m.testBit i = value) found := by
  have scan := firstOf_find?_range' (fun pos => m.testBit pos == value) start stop
  simp only [beq_iff_eq] at scan
  refine ⟨_, ?_, scan⟩
  rw [Adt.BoundedBitset.findLowest_eq range]
  cases found : (List.range' start (stop - start)).find? fun pos => m.testBit pos == value with
  | none => rfl
  | some pos =>
    rw [found] at scan
    obtain ⟨-, below, -⟩ := scan.1
    have word : pos % 4294967296 = pos := Nat.mod_eq_of_lt (by omega)
    simp only [Adt.BoundedBitset.toInt, i32, word]
    rw [if_pos (by omega)]
    rfl

theorem length_eq {i : Interval} (order : i.start ≤ i.stop) (small : i.stop ≤ 2147483648) :
    i.length = i.stop - i.start := u32Sub_of_le order (by omega)

theorem resizeBy_less {i : Interval} (some_ : 0 < i.stop) (small : i.stop ≤ 2147483648) :
    i.resizeBy 4294967295 = ⟨i.start, i.stop - 1⟩ :=
  congrArg (Interval.mk i.start) (by omega)

theorem intervalAt_spec {pos : Nat} (small : m.size ≤ 2147483648) (positive : 1 ≤ L) (below : pos < m.size)
    (free : m.testBit pos = false) : ∃ stop, intervalAt m L pos = .ok ⟨pos, stop⟩ ∧ pos < stop ∧ stop ≤ pos + L ∧
      FreeRange m pos stop ∧ (stop = m.size ∨ stop = pos + L ∨ m.testBit stop = true) := by
  obtain ⟨found, search, first⟩ := @findLowest_spec N reversed m (pos + 1) (min m.size (pos + L)) small (by omega) true
  unfold intervalAt
  dsimp only
  rw [search]
  cases found with
  | none =>
    refine ⟨min m.size (pos + L), if_pos (by simp; omega), by omega, by omega, ⟨by omega, by omega, ?_⟩, by omega⟩
    intro i above before
    rcases Nat.eq_or_lt_of_le above with rfl | later
    · exact free
    · exact Bool.eq_false_iff.mpr fun set => first i ⟨later, before, set⟩
  | some stop =>
    obtain ⟨⟨after, before, set⟩, least⟩ := first
    refine ⟨stop, if_pos (Nat.le_of_lt after), after, by omega, ⟨by omega, by omega, ?_⟩, .inr (.inr set)⟩
    intro i above lower
    rcases Nat.eq_or_lt_of_le above with rfl | later
    · exact free
    · exact Bool.eq_false_iff.mpr fun taken => least i lower ⟨later, by omega, taken⟩

theorem Found.of_longest (range : FreeRange m best.start best.stop) (short : best.stop - best.start < L)
    (bound : ∀ start stop, FreeRange m start stop → stop - start ≤ best.stop - best.start) : Found m L best := by
  refine ⟨range, ?_, fun _ => bound⟩
  rintro ⟨start, whole⟩
  have le := bound start (start + L) whole
  omega

theorem contiguousLoop_spec (small : m.size ≤ 2147483648) (positive : 1 ≤ L) (enough : m.size - n < turns)
    (range : FreeRange m best.start best.stop) (short : best.stop - best.start < L)
    (longest : ∀ start stop, FreeRange m start stop → start < n → stop - start ≤ best.stop - best.start) :
    ∃ r, contiguousLoop m L turns n best = .ok (some r) ∧ Found m L r := by
  induction turns generalizing n best with
  | zero => omega
  | succ turns ih =>
    rw [contiguousLoop]
    by_cases more : n < m.size
    · obtain ⟨found, search, first⟩ := findLowest_spec small ⟨Nat.le_of_lt more, Nat.le_refl _⟩ false
      rw [if_pos more, search]
      cases found with
      | none =>
        refine ⟨best, rfl, .of_longest range short fun start stop other => ?_⟩
        by_cases early : start < n
        · exact longest start stop other early
        · by_contra longer
          have inside := other.inside
          exact first start ⟨by omega, by omega, other.free start (Nat.le_refl _) (by omega)⟩
      | some pos =>
        obtain ⟨⟨above, below, free⟩, least⟩ := first
        obtain ⟨stop, interval, after, le, own, ends⟩ := intervalAt_spec small positive below free
        have size := own.inside
        have length : (⟨pos, stop⟩ : Interval).length = stop - pos := length_eq own.order (by dsimp only; omega)
        have length' : best.length = best.stop - best.start := length_eq range.order (by have := range.inside; omega)
        -- nothing starts between the position that the search went on from and the one that it found
        have skipped : ∀ start stop, FreeRange m start stop → start < pos → start < stop →
            stop - start ≤ best.stop - best.start := by
          intro start stop other before some_
          by_cases early : start < n
          · exact longest start stop other early
          · exact absurd ⟨by omega, by omega, other.free start (Nat.le_refl _) some_⟩ (least start before)
        change ∃ r, (intervalAt m L pos >>= _) = _ ∧ _
        rw [interval]
        change ∃ r, (if (⟨pos, stop⟩ : Interval).length ≥ L then _ else _) = _ ∧ _
        rw [length, length']
        by_cases whole : stop - pos ≥ L
        · rw [if_pos whole]
          refine ⟨⟨pos, stop⟩, rfl, own, fun _ => ⟨by dsimp only; omega, fun start other => ?_⟩, fun none_ => ?_⟩
          · by_contra before
            have le' := skipped start (start + L) other (by dsimp only at before; omega) (by omega)
            omega
          · obtain rfl : stop = pos + L := by omega
            exact absurd ⟨pos, own⟩ none_
        · rw [if_neg whole]
          have further : ∀ start stop', FreeRange m start stop' → start < stop →
              stop' - start ≤ max (stop - pos) (best.stop - best.start) := by
            intro start stop' other before
            by_cases some_ : start < stop'
            · by_cases early : start < pos
              · exact (skipped start stop' other early some_).trans (Nat.le_max_right _ _)
              · have inside := other.inside
                have bound : stop' ≤ stop := by
                  by_contra longer
                  rcases ends with last | last | taken
                  · omega
                  · omega
                  · rw [other.free stop (by omega) (by omega)] at taken
                    cases taken
                omega
            · omega
          by_cases longer : stop - pos > best.stop - best.start
          · rw [if_pos longer]
            refine ih (by dsimp only; omega) own (by dsimp only; omega) fun start stop' other before => ?_
            have bound := further start stop' other before
            dsimp only
            omega
          · rw [if_neg longer]
            refine ih (by dsimp only; omega) range short fun start stop' other before => ?_
            have bound := further start stop' other before
            omega
    · rw [if_neg more]
      refine ⟨best, rfl, .of_longest range short fun start stop other => ?_⟩
      by_cases early : start < n
      · exact longest start stop other early
      · have inside := other.inside
        omega

theorem findContiguousInterval_found (small : m.size ≤ 2147483648) (positive : 1 ≤ L) (enough : m.size < turns) :
    ∃ r, findContiguousInterval m turns L = .ok (some r) ∧ Found m L r := by
  apply contiguousLoop_spec small positive (by omega)
  · exact ⟨Nat.le_refl _, Nat.zero_le _, fun i _ below => absurd below (Nat.not_lt_zero i)⟩
  · exact positive
  · exact fun start stop _ before => absurd before (Nat.not_lt_zero start)

theorem Found.not_empty {r : Interval} (found : Found m L r) (positive : 1 ≤ L) {i : Nat} (inside : i < m.size)
    (free : m.testBit i = false) : r.start < r.stop := by
  by_cases whole : ∃ start, FreeRange m start (start + L)
  · have stop := (found.whole whole).1
    omega
  · have one : FreeRange m i (i + 1) := by
      refine ⟨Nat.le_succ i, inside, fun j above below => ?_⟩
      obtain rfl : j = i := by omega
      exact free
    have long := found.longest whole i (i + 1) one
    omega

theorem growLoop_spec {i : Interval} (small : m.size ≤ 2147483648) (enough : m.size - i.stop < turns)
    (range : FreeRange m i.start i.stop) : ∃ r, growLoop m turns i = .ok (some r) ∧ i.stop ≤ r.stop ∧
      FreeRange m r.start r.stop ∧ r.start = i.start ∧ (validPrb i.length = true → r = i) := by
  induction turns generalizing i with
  | zero => omega
  | succ turns ih =>
    rw [growLoop]
    cases valid : validPrb i.length with
    | true => exact ⟨i, rfl, Nat.le_refl _, range, rfl, fun _ => rfl⟩
    | false =>
      by_cases more : i.stop < m.size
      · rw [Bool.not_false, Bool.true_and, if_pos (decide_eq_true more)]
        rw [Adt.BoundedBitset.test, if_pos more]
        cases taken : m.testBit i.stop with
        | true => exact ⟨i, rfl, Nat.le_refl _, range, rfl, fun _ => rfl⟩
        | false =>
          have next : i.resizeBy 1 = ⟨i.start, i.stop + 1⟩ := by
            unfold Interval.resizeBy
            rw [Nat.mod_eq_of_lt (by omega)]
          have wider : FreeRange m i.start (i.stop + 1) := by
            refine ⟨Nat.le_succ_of_le range.order, more, fun j above below => ?_⟩
            rcases Nat.eq_or_lt_of_le (Nat.le_of_lt_succ below) with rfl | before
            · exact taken
            · exact range.free j above before
          obtain ⟨r, run, le, free, start, -⟩ := @ih ⟨i.start, i.stop + 1⟩ (by dsimp only; omega) wider
          refine ⟨r, ?_, Nat.le_of_succ_le le, free, start, nofun⟩
          rw [← run, ← next]
          rfl
      · rw [if_neg (by simpa using more)]
        exact ⟨i, rfl, Nat.le_refl _, range, rfl, fun _ => rfl⟩

theorem shrinkLoop_spec {i : Interval} (small : i.stop ≤ 2147483648) (some_ : i.start < i.stop)
    (enough : i.stop - i.start ≤ turns) : ∃ r, shrinkLoop turns i = some r ∧ r.start = i.start ∧ r.start < r.stop ∧
      r.stop ≤ i.stop ∧ validPrb r.length = true := by
  induction turns generalizing i with
  | zero => omega
  | succ turns ih =>
    have length : i.length = i.stop - i.start := length_eq (Nat.le_of_lt some_) small
    rw [shrinkLoop]
    cases valid : validPrb i.length with
    | true => exact ⟨i, rfl, rfl, some_, Nat.le_refl _, valid⟩
    | false =>
      have long : i.stop - i.start ≠ 1 := by
        intro one
        rw [length, one] at valid
        exact absurd valid (by decide)
      have next := resizeBy_less (i := i) (by omega) (by omega)
      have notEmpty : i.empty = false := decide_eq_false (by omega)
      rw [notEmpty, next]
      obtain ⟨r, run, start, more, le, fits⟩ :=
        @ih ⟨i.start, i.stop - 1⟩ (by dsimp only; omega) (by dsimp only; omega) (by dsimp only; omega)
      exact ⟨r, run, start, more, le.trans (Nat.sub_le _ _), fits⟩

/-- What the uplink gets: free blocks, as many as the precoding allows; none only where none is free. -/
structure UlFound (m : Adt.BoundedBitset N reversed) (r : Interval) : Prop where
  free : FreeRange m r.start r.stop
  valid : r.start < r.stop → validPrb r.length = true ∧ DftSize r.length
  empty : r.start = r.stop → ∀ i < m.size, m.testBit i = true

theorem findContiguousUlPrbs_found (small : m.size ≤ 2147483648) (positive : 1 ≤ L) (enough : m.size < turns) :
    ∃ r, findContiguousUlPrbs m turns L = .ok (some r) ∧ UlFound m r := by
  obtain ⟨i, search, found⟩ := findContiguousInterval_found small positive enough
  have order := found.free.order
  have size := found.free.inside
  have conclude : ∀ r : Interval, FreeRange m r.start r.stop → r.start < r.stop → validPrb r.length = true →
      UlFound m r := by
    intro r free some_ valid
    refine ⟨free, fun _ => ⟨valid, validPrb_dftSize valid ?_⟩, fun none_ => by omega⟩
    rw [length_eq free.order (free.inside.trans small)]
    omega
  unfold findContiguousUlPrbs
  rw [search]
  by_cases none_ : i.stop = i.start
  · refine ⟨i, ?_, found.free, fun some_ => by omega, fun _ j inside => ?_⟩
    · change (if decide (i.stop = i.start) = true then _ else _) = _
      rw [if_pos (decide_eq_true none_)]
      rfl
    · by_contra free
      have some_ := found.not_empty positive inside (Bool.eq_false_iff.mpr free)
      omega
  · obtain ⟨grown, grow, longer, free, start, same⟩ := @growLoop_spec N reversed m turns i small (by omega) found.free
    change ∃ r, (if decide (i.stop = i.start) = true then _ else _) = _ ∧ _
    rw [if_neg (by simpa using none_), grow]
    cases valid : validPrb grown.length with
    | true =>
      refine ⟨grown, ?_, conclude grown free (by omega) valid⟩
      change Except.ok (if (!validPrb grown.length) = true then _ else _) = _
      rw [valid]
      rfl
    | false =>
      have invalid : validPrb i.length ≠ true := by
        intro fits
        rw [same fits] at valid
        exact absurd valid (by rw [fits]; decide)
      have long : i.stop - i.start ≠ 1 := by
        intro one
        rw [length_eq order (by omega), one] at invalid
        exact invalid (by decide)
      have next := resizeBy_less (i := i) (by omega) (by omega)
      obtain ⟨r, run, start', some_, le, fits⟩ :=
        @shrinkLoop_spec turns ⟨i.start, i.stop - 1⟩ (by dsimp only; omega) (by dsimp only; omega) (by dsimp only; omega)
      dsimp only at le start'
      refine ⟨r, ?_, conclude r ⟨Nat.le_of_lt some_, by omega, fun j above below => ?_⟩ some_ fits⟩
      · change Except.ok (if (!validPrb grown.length) = true then _ else _) = _
        rw [valid, next, run]
        rfl
      · exact found.free.free j (by omega) (by omega)

/-- Positions are `int`s; the masks of the scheduler have 100 PRBs or 25 RBGs at most. -/
theorem contiguousPrbs_found (m : Adt.BoundedBitset N reversed) (L turns : Nat) (small : m.size ≤ 2147483648)
    (positive : 1 ≤ L) (enough : m.size < turns) :
    (∃ r, findContiguousInterval m turns L = .ok (some r) ∧ Found m L r ∧
      (r.start = r.stop → ∀ i < m.size, m.testBit i = true)) ∧
      ∃ r, findContiguousUlPrbs m turns L = .ok (some r) ∧ UlFound m r := by
  obtain ⟨r, search, found⟩ := findContiguousInterval_found small positive enough
  refine ⟨⟨r, search, found, fun none_ i inside => ?_⟩, findContiguousUlPrbs_found small positive enough⟩
  by_contra free
  have some_ := found.not_empty positive inside (Bool.eq_false_iff.mpr free)
  omega

theorem contiguousPrbs_found_last :
    (∃ r, findContiguousInterval (⟨fun _ => 0x1fffffe, 25⟩ : Adt.BoundedBitset 100 true) 26 3 = .ok (some r) ∧
      Found (⟨fun _ => 0x1fffffe, 25⟩ : Adt.BoundedBitset 100 true) 3 r ∧
      (r.start = r.stop → ∀ i < 25, (⟨fun _ => 0x1fffffe, 25⟩ : Adt.BoundedBitset 100 true).testBit i = true)) ∧
    ∃ r, findContiguousUlPrbs (⟨fun _ => 0x1fffffe, 25⟩ : Adt.BoundedBitset 100 true) 26 3 = .ok (some r) ∧
      UlFound (⟨fun _ => 0x1fffffe, 25⟩ : Adt.BoundedBitset 100 true) r :=
  contiguousPrbs_found _ 3 26 (by decide) (by decide) (by decide)

end
end IsrRan.Mac.Lte.PrbSearch
