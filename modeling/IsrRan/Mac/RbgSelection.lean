import IsrRan.Mac.FindOptimalRbgmask

namespace IsrRan.Mac.Lte.RbgAlloc
open Lib Phy RaSched FalsePosition List Int Nat Option RbgMask

/-! Counting the RBGs of a mask -/

namespace RbgMask
variable {m : RbgMask} {a b c : Nat}

def countIn (m : RbgMask) (a b : Nat) : Nat := (range' a (b - a)).countP m.test

theorem count_eq : m.count = m.countIn 0 m.size := by
  unfold count countIn
  rw [range_eq_range', Nat.sub_zero]

theorem countIn_add (first : a ≤ b) (second : b ≤ c) : m.countIn a c = m.countIn a b + m.countIn b c := by
  have parts : range' a (c - a) = range' a (b - a) ++ range' b (c - b) := by
    have joined := @List.range'_append_1 a (b - a) (c - b)
    rw [Nat.add_sub_cancel' first, show b - a + (c - b) = c - a by omega] at joined
    exact joined.symm
  unfold countIn
  rw [parts, countP_append]

theorem countIn_le : m.countIn a b ≤ b - a := by
  have bound := @List.countP_le_length _ m.test (range' a (b - a))
  rw [length_range'] at bound
  exact bound

theorem count_le_size (m : RbgMask) : m.count ≤ m.size := by
  rw [count_eq]
  exact countIn_le

theorem countIn_full : m.countIn a b = b - a ↔ ∀ i, a ≤ i → i < b → m.test i = true := by
  have full : (range' a (b - a)).countP m.test = (range' a (b - a)).length ↔
      ∀ i ∈ range' a (b - a), m.test i = true := countP_eq_length
  rw [length_range'] at full
  unfold countIn
  rw [full]
  constructor
  · intro all i above below
    exact all i (mem_range'_1.mpr (by omega))
  · intro all i mem
    rw [mem_range'_1] at mem
    exact all i mem.1 (by omega)

theorem countIn_zero : m.countIn a b = 0 ↔ ∀ i, a ≤ i → i < b → m.test i = false := by
  unfold countIn
  rw [countP_eq_zero]
  constructor
  · intro none_set i above below
    exact Bool.eq_false_iff.mpr (none_set i (mem_range'_1.mpr (by omega)))
  · intro none_set i mem
    rw [mem_range'_1] at mem
    rw [none_set i mem.1 (by omega)]
    decide

theorem count_range {start stop : Nat} (order : start ≤ stop) (inside : stop ≤ m.size)
    (range : ∀ i, m.test i = true ↔ start ≤ i ∧ i < stop) : m.count = stop - start := by
  have before : m.countIn 0 start = 0 := countIn_zero.mpr fun i _ below =>
    Bool.eq_false_iff.mpr fun set => by have := (range i).mp set; omega
  have within : m.countIn start stop = stop - start := countIn_full.mpr fun i above below => (range i).mpr ⟨above, below⟩
  have after : m.countIn stop m.size = 0 := countIn_zero.mpr fun i above _ =>
    Bool.eq_false_iff.mpr fun set => by have := (range i).mp set; omega
  rw [count_eq, countIn_add (Nat.zero_le start) (order.trans inside), countIn_add order inside]
  omega

end RbgMask

/-! The mask that is shrunk -/

section Available
variable {dlMask : RbgMask} {contiguous : Bool}

@[simp] theorem size_available : (findAvailableRbgmask dlMask.size contiguous dlMask).size = dlMask.size := by
  unfold findAvailableRbgmask findAvailableRbgs
  cases contiguous <;> simp

theorem available_contiguous (i : Nat) : (findAvailableRbgmask dlMask.size true dlMask).test i = true ↔
    (findContiguousInterval dlMask dlMask.size).start ≤ i ∧ i < (findContiguousInterval dlMask dlMask.size).stop := by
  have range := (findContiguousInterval_spec dlMask).1
  unfold findAvailableRbgmask
  rw [if_pos rfl]
  rcases Nat.lt_or_ge i dlMask.size with inside | outside
  · rw [test_fill (by simpa using inside)]
    simp
  · have bound := range.inside
    constructor
    · intro set
      have below := lt_size_of_test set
      simp only [size_fill, size_ofTest] at below
      omega
    · intro within
      omega

theorem available_scattered : findAvailableRbgmask dlMask.size false dlMask = dlMask.complement := by
  unfold findAvailableRbgmask findAvailableRbgs
  simp

theorem available_free {i : Nat} (set : (findAvailableRbgmask dlMask.size contiguous dlMask).test i = true) :
    dlMask.test i = false := by
  have inside := lt_size_of_test set
  rw [size_available] at inside
  cases contiguous with
  | true =>
    obtain ⟨above, below⟩ := (available_contiguous i).mp set
    exact (findContiguousInterval_spec dlMask).1.free i above below
  | false =>
    rw [available_scattered, test_complement inside] at set
    simpa using set

theorem count_available_contiguous : (findAvailableRbgmask dlMask.size true dlMask).count =
    (findContiguousInterval dlMask dlMask.size).length := by
  have range := (findContiguousInterval_spec dlMask).1
  exact count_range range.order (by rw [size_available]; exact range.inside) available_contiguous

end Available

def Grantable (dlMask : RbgMask) (dciFormat : DciFormat) (n : Nat) : Prop :=
  if dciFormat = .format1A then ∃ start, FreeRange dlMask start (start + n) else n ≤ dlMask.complement.count

theorem grantable_iff {dlMask : RbgMask} {dciFormat : DciFormat} {n : Nat} : Grantable dlMask dciFormat n ↔
    n ≤ (findAvailableRbgmask dlMask.size (dciFormat = .format1A) dlMask).count := by
  unfold Grantable
  by_cases contiguous : dciFormat = .format1A
  · rw [if_pos contiguous, decide_eq_true contiguous, count_available_contiguous]
    obtain ⟨range, longest⟩ := findContiguousInterval_spec dlMask
    constructor
    · rintro ⟨start, free⟩
      have bound := longest start (start + n) free
      omega
    · intro le
      have order := range.order
      have inside := range.inside
      unfold RbgInterval.length at le
      exact ⟨(findContiguousInterval dlMask dlMask.size).start, Nat.le_add_right _ _, by omega,
        fun i above below => range.free i above (by omega)⟩
  · rw [if_neg contiguous, decide_eq_false contiguous, available_scattered]

/-! The loop and the word -/

section Shrink
variable {m : RbgMask} {rounds pos : Nat}

theorem shrinkPos_spec (enough : rounds ≤ m.countIn (pos + 1) m.size) : ∃ last, shrinkPos m rounds pos = some last ∧
    pos ≤ last ∧ (rounds = 0 → last = pos) ∧ (0 < rounds → last < m.size ∧ m.test last = true) ∧
    m.countIn (pos + 1) (last + 1) = rounds := by
  induction rounds generalizing pos with
  | zero =>
    refine ⟨pos, rfl, Nat.le_refl _, fun _ => rfl, (fun some_left => absurd some_left (Nat.lt_irrefl 0)), ?_⟩
    have none_there := @RbgMask.countIn_le m (pos + 1) (pos + 1)
    omega
  | succ rounds ih =>
    unfold shrinkPos
    cases found : m.findLowest (pos + 1) m.size true with
    | none =>
      have none_set : m.countIn (pos + 1) m.size = 0 := RbgMask.countIn_zero.mpr fun i above below =>
        Bool.eq_false_iff.mpr (RbgMask.findLowest_none found above below)
      omega
    | some next =>
      obtain ⟨above, below, set, first⟩ := RbgMask.findLowest_some found
      have skipped : m.countIn (pos + 1) next = 0 := RbgMask.countIn_zero.mpr fun i above below =>
        Bool.eq_false_iff.mpr (first i above below)
      have own : m.countIn next (next + 1) = next + 1 - next := RbgMask.countIn_full.mpr fun i above below => by
        obtain rfl : i = next := by omega
        exact set
      have through := @RbgMask.countIn_add m (pos + 1) next (next + 1) above (le_succ next)
      have rest := @RbgMask.countIn_add m (pos + 1) (next + 1) m.size (by omega) below
      obtain ⟨last, ends, later, same, beyond, count⟩ := @ih next (by omega)
      refine ⟨last, ends, by omega, (fun zero => absurd zero (succ_ne_zero rounds)), ?_, ?_⟩
      · intro _
        rcases Nat.eq_zero_or_pos rounds with none_left | some_left
        · rw [same none_left]
          exact ⟨below, set⟩
        · exact beyond some_left
      · rw [countIn_add (show pos + 1 ≤ next + 1 by omega) (show next + 1 ≤ last + 1 by omega)]
        omega

structure ShrunkAt (m : RbgMask) (upper pos : Nat) : Prop where
  inside : pos ≤ m.size
  unchanged : m.count = upper → pos = 0
  taken : upper < m.count → pos < m.size ∧ m.test pos = true
  removed : m.countIn 1 (pos + 1) = m.count - upper

theorem shrinkPos_shrunkAt {upper : Nat} (positive : 0 < upper) (le : upper ≤ m.count) :
    ∃ pos, shrinkPos m (m.count - upper) 0 = some pos ∧ ShrunkAt m upper pos := by
  have first := @RbgMask.countIn_le m 0 1
  have some_rbg : 0 < m.size := by
    have most := m.count_le_size
    omega
  have parts := @RbgMask.countIn_add m 0 1 m.size (Nat.zero_le 1) some_rbg
  rw [← RbgMask.count_eq] at parts
  have enough : m.count - upper ≤ m.countIn (0 + 1) m.size := by
    show m.count - upper ≤ m.countIn 1 m.size
    omega
  obtain ⟨pos, ends, _, unchanged, taken, removed⟩ := shrinkPos_spec enough
  refine ⟨pos, ends, ?_, ?_, ?_, removed⟩
  · rcases Nat.eq_zero_or_pos (m.count - upper) with none_left | some_left
    · rw [unchanged none_left]
      exact Nat.zero_le _
    · exact (taken some_left).1.le
  · exact fun same => unchanged (by omega)
  · exact fun more => taken (by omega)

namespace ShrunkAt
variable {upper u : Nat} (at_pos : ShrunkAt m upper pos)
include at_pos

theorem parts (le : upper ≤ m.count) (some_rbg : pos < m.size) :
    upper = m.countIn 0 1 + m.countIn (pos + 1) m.size := by
  have whole := @RbgMask.countIn_add m 0 1 m.size (Nat.zero_le 1) (by omega)
  have rest := @RbgMask.countIn_add m 1 (pos + 1) m.size (by omega) some_rbg
  have removed := at_pos.removed
  rw [← RbgMask.count_eq] at whole
  omega

theorem ends_of_count (positive : 0 < upper) (le : upper ≤ m.count) (small : u ≤ upper) (count : m.size - pos = u)
    (some_left : 0 < u) : upper = u ∧ m.test 0 = true ∧ ∀ i, m.size ≤ i + u → i < m.size → m.test i = true := by
  have parts := at_pos.parts le (by omega)
  have first := @RbgMask.countIn_le m 0 1
  have behind := @RbgMask.countIn_le m (pos + 1) m.size
  rcases Nat.eq_or_lt_of_le le with all | fewer
  · have start := at_pos.unchanged all.symm
    have full : m.countIn 0 m.size = m.size - 0 := by
      rw [← RbgMask.count_eq]
      omega
    have every := RbgMask.countIn_full.mp full
    exact ⟨by rw [RbgMask.count_eq] at all; omega, every 0 (Nat.le_refl 0) (by omega),
      fun i _ below => every i (Nat.zero_le i) below⟩
  · have taken := at_pos.taken fewer
    have one : m.countIn 0 1 = 1 - 0 := by omega
    have full : m.countIn (pos + 1) m.size = m.size - (pos + 1) := by omega
    refine ⟨by omega, RbgMask.countIn_full.mp one 0 (Nat.le_refl 0) Nat.one_pos, ?_⟩
    intro i above below
    rcases Nat.eq_or_lt_of_le (show pos ≤ i by omega) with rfl | later
    · exact taken.2
    · exact RbgMask.countIn_full.mp full i later below

theorem count_of_ends (positive : 0 < upper) (le : upper ≤ m.count) (low : ∀ i, i < upper → m.test i = true)
    (high : ∀ i, m.size ≤ i + upper → i < m.size → m.test i = true) : m.size - pos = upper := by
  have whole := m.count_le_size
  have low_full : m.countIn 0 upper = upper - 0 := RbgMask.countIn_full.mpr fun i _ below => low i below
  rcases Nat.eq_or_lt_of_le le with all | fewer
  · have start := at_pos.unchanged all.symm
    have split := @RbgMask.countIn_add m 0 upper m.size (Nat.zero_le _) (by omega)
    rw [← RbgMask.count_eq] at split
    have none_behind := RbgMask.countIn_zero.mp (show m.countIn upper m.size = 0 by omega)
    by_contra longer
    have last := high (m.size - 1) (by omega) (by omega)
    rw [none_behind (m.size - 1) (by omega) (by omega)] at last
    contradiction
  · have taken := at_pos.taken fewer
    have parts := at_pos.parts le taken.1
    have one : m.countIn 0 1 = 1 - 0 := RbgMask.countIn_full.mpr fun i _ below => low i (by omega)
    have behind := @RbgMask.countIn_le m (pos + 1) m.size
    have high_full : m.countIn (m.size - upper) m.size = m.size - (m.size - upper) :=
      RbgMask.countIn_full.mpr fun i above below => high i (by omega) below
    by_contra different
    have early : pos + 1 ≤ m.size - upper := by omega
    have split := @RbgMask.countIn_add m (pos + 1) (m.size - upper) m.size early (sub_le _ _)
    omega

end ShrunkAt

theorem fromUint64_shrunk (inside : pos ≤ m.size) : ∃ shrunk, m.fromUint64 (shrunkWord m.size pos) = some shrunk ∧
    shrunk.size = m.size ∧ (∀ i, shrunk.test i = true ↔ i < m.size - pos) ∧ shrunk.count = m.size - pos := by
  have size_le := m.size_le
  have fits : shrunkWord m.size pos < 2 ^ m.size := and_lt_two_pow _ (sub_lt (Nat.two_pow_pos _) (by decide))
  have bits : ∀ i, (shrunkWord m.size pos).testBit i = true ↔ pos ≤ i ∧ i < m.size := by
    intro i
    have pow_pos := Nat.two_pow_pos pos
    have flipped : 4294967295 - (2 ^ pos - 1) = 2 ^ 32 - ((2 ^ pos - 1) + 1) := by omega
    have below : 2 ^ pos - 1 < 2 ^ 32 :=
      (sub_lt pow_pos (by decide)).trans_le (Nat.pow_le_pow_right (by decide) (by omega))
    unfold shrunkWord
    rw [flipped, testBit_and, testBit_two_pow_sub_succ below, testBit_two_pow_sub_one,
      testBit_two_pow_sub_one]
    simp only [Bool.and_eq_true, decide_eq_true_eq, Bool.not_eq_true', decide_eq_false_iff_not]
    omega
  have set : ∀ i, (ofTest m.size m.size_le fun pos' =>
      (shrunkWord m.size pos).testBit (m.size - 1 - pos')).test i = true ↔ i < m.size - pos := by
    intro i
    rw [test_ofTest, Bool.and_eq_true, decide_eq_true_eq, bits]
    omega
  refine ⟨_, if_pos fits, size_ofTest, set, ?_⟩
  have range := @RbgMask.count_range (ofTest m.size m.size_le fun pos' =>
    (shrunkWord m.size pos).testBit (m.size - 1 - pos')) 0 (m.size - pos) (Nat.zero_le _)
    (by rw [size_ofTest]; exact sub_le _ _) (fun i => by rw [set]; omega)
  rw [range, Nat.sub_zero]

end Shrink

/-- With wideband CQI the TBS depends on the number of RBGs and does not decrease with it. No RBG gives an error, any
other number a TBS of the tables. -/
structure WidebandTbs where
  computeLowerBound : RbgMask → TbsInfo
  ofCount : Nat → Int
  byCount : ∀ m, (computeLowerBound m).tbsBytes = ofCount m.count
  mono : Monotone ofCount
  absent : ofCount 0 = -1
  present : ∀ n, 0 < n → 0 ≤ ofCount n
  largest : ∀ n, ofCount n < 524288

namespace WidebandTbs
variable (tbs : WidebandTbs) {nofRbgs : Fin 26} {n count : Nat} {y0 : Int}

theorem computeTbsApprox_eq : computeTbsApprox tbs.computeLowerBound nofRbgs n = tbs.ofCount (min n nofRbgs) := by
  unfold computeTbsApprox
  rw [tbs.byCount]
  have range := @RbgMask.count_range (searchMask nofRbgs n) 0 (min n nofRbgs) (Nat.zero_le _)
    (by unfold searchMask; simp) (fun i => by
      unfold searchMask RbgMask.fill
      by_cases inside : i < nofRbgs
      · by_cases early : i < n
        · simp [inside]
        · simp [inside]
      · simp [inside])
  rw [range, Nat.sub_zero]

def onCarrier (nofRbgs : Fin 26) (n : Int) : Int := tbs.ofCount (min n.toNat nofRbgs)

theorem computeTbsApprox_onCarrier :
    (fun n : Int => computeTbsApprox tbs.computeLowerBound nofRbgs n.toNat) = tbs.onCarrier nofRbgs :=
  funext fun _ => tbs.computeTbsApprox_eq

theorem onCarrier_mono : Monotone (tbs.onCarrier nofRbgs) := fun _ _ le => tbs.mono (by omega)

theorem onCarrier_of_le {x : Int} (inside : x ≤ nofRbgs) : tbs.onCarrier nofRbgs x = tbs.ofCount x.toNat := by
  unfold onCarrier
  rw [Nat.min_eq_left (by omega)]

theorem onCarrier_sound (inside : count ≤ nofRbgs) (x : Int) (above : 1 ≤ x) (below : x ≤ count) :
    isError (tbs.onCarrier nofRbgs x) = false := by
  have present := tbs.present x.toNat (by omega)
  rw [tbs.onCarrier_of_le (by omega)]
  unfold isError
  rw [decide_eq_false_iff_not]
  omega

theorem interpolate_within (inside : count ≤ nofRbgs) (b : Bracket) (around : Around (tbs.onCarrier nofRbgs) y0 1 count b) :
    b.x1 ≤ interpolate y0 b ∧ interpolate y0 b ≤ b.x2 := by
  obtain ⟨above, order, below, left, right, less, more⟩ := around
  have present := tbs.present b.x1.toNat (by omega)
  have largest := tbs.largest b.x2.toNat
  apply interpolate_between (by omega) order (by omega) (left ▸ less) (right ▸ more)
  rw [left, right, tbs.onCarrier_of_le (by omega), tbs.onCarrier_of_le (by omega)]
  omega

def wholeBracket (nofRbgs : Fin 26) (count : Nat) : Bracket :=
  ⟨1, tbs.onCarrier nofRbgs 1, count, tbs.onCarrier nofRbgs count⟩

theorem around_whole (inside : count ≤ nofRbgs) (first : tbs.onCarrier nofRbgs 1 < y0) (more : y0 < tbs.ofCount count) :
    Around (tbs.onCarrier nofRbgs) y0 1 count (tbs.wholeBracket nofRbgs count) := by
  have last := @onCarrier_of_le tbs nofRbgs count (by omega)
  rw [toNat_natCast] at last
  have order : (1 : Int) < count := by
    by_contra few
    have le := @onCarrier_mono tbs nofRbgs _ _ (Int.not_lt.mp few)
    omega
  refine ⟨Int.le_refl _, order, Int.le_refl _, rfl, rfl, first, ?_⟩
  show y0 ≤ tbs.onCarrier nofRbgs count
  omega

theorem falsePositionMethod_spec (requested : 0 ≤ y0) (inside : count ≤ nofRbgs) (more : y0 < tbs.ofCount count) :
    ∃ r, falsePositionMethod (interpolate y0) isError (tbs.onCarrier nofRbgs) y0 count 1 count = some r ∧
      0 < r.x2 ∧ r.x2 ≤ count ∧ y0 ≤ tbs.ofCount r.x2.toNat ∧ r.y2 = tbs.ofCount r.x2.toNat ∧
      ∀ n : Nat, IsLeast {n | y0 ≤ tbs.ofCount n} n → (r.x2 = n ↔ n = 1 ∨
        ¬Overshoots (interpolate y0) isError (tbs.onCarrier nofRbgs) y0 n (tbs.wholeBracket nofRbgs count)) := by
  have absent := tbs.absent
  have positive : 0 < count := by
    rcases Nat.eq_zero_or_pos count with rfl | positive
    · omega
    · exact positive
  have sound := tbs.onCarrier_sound inside
  have one := @onCarrier_of_le tbs nofRbgs 1 (by omega)
  have last := @onCarrier_of_le tbs nofRbgs count (by omega)
  rw [toNat_natCast] at last
  have some_rbg : ∀ n, y0 ≤ tbs.ofCount n → 0 < n := by
    intro n reached
    rcases Nat.eq_zero_or_pos n with rfl | some_rbg
    · omega
    · exact some_rbg
  unfold falsePositionMethod
  rw [sound 1 (Int.le_refl 1) (by omega), sound count (by omega) (Int.le_refl _), Bool.false_or, Bool.false_or]
  by_cases first : y0 ≤ tbs.onCarrier nofRbgs 1
  · rw [if_pos (decide_eq_true first)]
    refine ⟨_, rfl, Int.one_pos, by dsimp only; omega, one ▸ first, one, ?_⟩
    intro n least
    have le : n ≤ 1 := least.2 (show y0 ≤ tbs.ofCount 1 from one ▸ first)
    obtain rfl : n = 1 := Nat.le_antisymm le (some_rbg n least.1)
    exact iff_of_true rfl (.inl rfl)
  · rw [if_neg (by simpa using first), if_neg (by rw [last]; simpa using more)]
    have around := tbs.around_whole inside (Int.not_le.mp first) more
    obtain ⟨r, found, x, above, below, crosses⟩ :=
      @searchLoop_spec _ _ _ _ _ _ _ sound (tbs.interpolate_within inside) count
        (by show ((count : Int) - 1).toNat ≤ count; omega) around
    have ends : 1 ≤ r.x2 ∧ r.x2 ≤ count ∧ r.y2 = tbs.onCarrier nofRbgs r.x2 ∧ y0 ≤ tbs.onCarrier nofRbgs r.x2 := by
      rcases crosses with ⟨rfl, hit⟩ | ⟨rfl, next, less, more⟩
      · exact ⟨above, below, rfl, hit.ge⟩
      · exact ⟨by dsimp only; omega, next, rfl, more⟩
    obtain ⟨above, below, value, reached⟩ := ends
    rw [tbs.onCarrier_of_le (by omega)] at value reached
    refine ⟨r, found, by omega, below, reached, value, ?_⟩
    intro n least
    have n_le : n ≤ count := least.2 more.le
    have not_one : n ≠ 1 := by
      rintro rfl
      exact first (one ▸ least.1)
    rw [or_iff_right not_one]
    apply searchLoop_least tbs.onCarrier_mono sound (tbs.interpolate_within inside) around _ _ found
    · rw [tbs.onCarrier_of_le (by omega), toNat_natCast]
      exact least.1
    · intro k low high
      rw [tbs.onCarrier_of_le (by omega)]
      by_contra reaches
      have bound : n ≤ k.toNat := least.2 (Int.not_lt.mp reaches)
      omega

end WidebandTbs

section Select
variable (tbs : WidebandTbs) (nofRbgs : Fin 26) (dlMask : RbgMask) (dciFormat : DciFormat) (reqBytes : ReqBytes)

def CarriesMore : Prop := ∃ n, Grantable dlMask dciFormat n ∧ reqBytes.stop < tbs.ofCount n

structure Selected (mask : RbgMask) : Prop where
  free : ∀ i, mask.test i = true → i < dlMask.size ∧ dlMask.test i = false
  contiguous : dciFormat = .format1A → ∃ start stop, ∀ i, mask.test i = true ↔ start ≤ i ∧ i < stop
  least : CarriesMore tbs dlMask dciFormat reqBytes → IsLeast {n | reqBytes.stop ≤ tbs.ofCount n} mask.count

/-- As many RBGs are free on both sides of the carrier, for format 1A all of them. -/
def EndsFree (n : Nat) : Prop :=
  if dciFormat = .format1A then ∀ i, i < dlMask.size → dlMask.test i = false
  else ∀ i, i < n ∨ dlMask.size ≤ i + n → i < dlMask.size → dlMask.test i = false

/-- Interpolating the table of the TBS up to the largest number of RBGs that can be granted does not come to a number
above `n` with exactly the requested TBS. -/
def NotOvershot (n : Nat) : Prop :=
  n = 1 ∨ ∀ most, IsGreatest {k | Grantable dlMask dciFormat k} most →
    ¬Overshoots (interpolate reqBytes.stop) isError (tbs.onCarrier nofRbgs) reqBytes.stop n (tbs.wholeBracket nofRbgs most)

def SelectsWell : Prop :=
  ∃ result, findOptimalRbgmask tbs.computeLowerBound nofRbgs dlMask dciFormat reqBytes = some result ∧
    (result.1 = true → Selected tbs dlMask dciFormat reqBytes result.2.2)

end Select

section Select
variable {tbs : WidebandTbs} {nofRbgs : Fin 26} {dlMask : RbgMask} {dciFormat : DciFormat} {reqBytes : ReqBytes}

theorem carriesMore_iff : CarriesMore tbs dlMask dciFormat reqBytes ↔
    reqBytes.stop < tbs.ofCount (findAvailableRbgmask dlMask.size (dciFormat = .format1A) dlMask).count := by
  constructor
  · rintro ⟨n, grantable, more⟩
    exact more.trans_le (tbs.mono (grantable_iff.mp grantable))
  · exact fun more => ⟨_, grantable_iff.mpr (Nat.le_refl _), more⟩

theorem selected_available (enough : ¬CarriesMore tbs dlMask dciFormat reqBytes) :
    Selected tbs dlMask dciFormat reqBytes (findAvailableRbgmask dlMask.size (dciFormat = .format1A) dlMask) := by
  refine ⟨?_, ?_, fun more => absurd more enough⟩
  · intro i set
    have inside := lt_size_of_test set
    rw [size_available] at inside
    exact ⟨inside, available_free set⟩
  · intro contiguous
    rw [decide_eq_true contiguous]
    exact ⟨_, _, available_contiguous⟩

theorem available_whole (contiguous : dciFormat = .format1A) (some_rbg : 0 < dlMask.size)
    (first : (findAvailableRbgmask dlMask.size (dciFormat = .format1A) dlMask).test 0 = true)
    (last : (findAvailableRbgmask dlMask.size (dciFormat = .format1A) dlMask).test (dlMask.size - 1) = true) :
    ∀ i, i < dlMask.size → dlMask.test i = false := by
  rw [decide_eq_true contiguous] at first last
  have low := (available_contiguous 0).mp first
  have high := (available_contiguous (dlMask.size - 1)).mp last
  intro i inside
  exact (findContiguousInterval_spec dlMask).1.free i (by omega) (by omega)

theorem available_of_ends {n : Nat} {i : Nat}
    (ends : if dciFormat = .format1A then ∀ i, i < dlMask.size → dlMask.test i = false
      else ∀ i, i < n ∨ dlMask.size ≤ i + n → i < dlMask.size → dlMask.test i = false)
    (side : i < n ∨ dlMask.size ≤ i + n) (inside : i < dlMask.size) :
    (findAvailableRbgmask dlMask.size (dciFormat = .format1A) dlMask).test i = true := by
  by_cases contiguous : dciFormat = .format1A
  · rw [if_pos contiguous] at ends
    rw [decide_eq_true contiguous, available_contiguous]
    obtain ⟨range, longest⟩ := findContiguousInterval_spec dlMask
    have all := longest 0 dlMask.size ⟨Nat.zero_le _, Nat.le_refl _, fun i _ below => ends i below⟩
    have bound := range.inside
    unfold RbgInterval.length at all
    omega
  · rw [if_neg contiguous] at ends
    rw [decide_eq_false contiguous, available_scattered, test_complement inside, ends i side inside]
    rfl

theorem isGreatest_grantable : IsGreatest {k | Grantable dlMask dciFormat k}
    (findAvailableRbgmask dlMask.size (dciFormat = .format1A) dlMask).count :=
  ⟨grantable_iff.mpr (Nat.le_refl _), fun _ grantable => grantable_iff.mp grantable⟩

def sixPrbTbs : List Int := [-1, 9, 18, 28, 41, 53, 63]

theorem sixPrbTbs_mono : Monotone fun n => sixPrbTbs.getD n 63 := by
  apply monotone_nat_of_le_succ
  intro n
  rcases Nat.lt_or_ge n 6 with inside | beyond
  · have table : ∀ n < 6, sixPrbTbs.getD n 63 ≤ sixPrbTbs.getD (n + 1) 63 := by decide
    exact table n inside
  · rcases Nat.eq_or_lt_of_le beyond with rfl | beyond
    · decide
    · have value : ∀ k, sixPrbTbs.length ≤ k → sixPrbTbs.getD k 63 = 63 := fun k => getD_eq_default _ _
      rw [value n beyond, value (n + 1) (le_succ_of_le beyond)]

def sixPrb : WidebandTbs where
  computeLowerBound m := { tbsBytes := sixPrbTbs.getD m.count 63 }
  ofCount n := sixPrbTbs.getD n 63
  byCount _ := rfl
  mono := sixPrbTbs_mono
  absent := rfl
  present n positive := (show (0 : Int) ≤ sixPrbTbs.getD 1 63 by decide).trans (sixPrbTbs_mono positive)
  largest n := by
    have last : sixPrbTbs.getD (max n 6) 63 = 63 := by
      rcases Nat.eq_or_lt_of_le (Nat.le_max_right n 6) with same | beyond
      · rw [← same]
        rfl
      · exact getD_eq_default _ _ beyond
    have le : sixPrbTbs.getD n 63 ≤ sixPrbTbs.getD (max n 6) 63 := sixPrbTbs_mono (Nat.le_max_left n 6)
    omega

end Select

end IsrRan.Mac.Lte.RbgAlloc
