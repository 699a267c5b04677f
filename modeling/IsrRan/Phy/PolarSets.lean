import Mathlib.Data.Finset.Interval
import Mathlib.Order.Interval.Finset.Nat
import IsrRan.Phy.PolarCode
import IsrRan.Phy.PolarDematching

/-! The sets of a polar code against its rate matching: what is not sent is frozen. -/

namespace IsrRan.Phy.Polar
open Lib List Nat

/-! ### Tables -/

section
variable {n x : Nat}

theorem motherCode10_perm : motherCode10.Perm (range 1024) :=
  perm_range_of_bitmap (by decide +kernel) (by decide +kernel)

theorem mem_getMotherCode (le : n ≤ 10) : x ∈ getMotherCode n ↔ x < 2 ^ n := by
  have whole : 2 ^ n ≤ 1024 := Nat.pow_le_pow_right Nat.two_pos le
  unfold getMotherCode
  rw [mem_filter, motherCode10_perm.mem_iff, mem_range, decide_eq_true_eq]
  constructor
  · intro both
    exact both.2
  · intro below
    exact ⟨Nat.lt_of_lt_of_le below whole, below⟩

theorem getMotherCode_nodup (n : Nat) : (getMotherCode n).Nodup :=
  (motherCode10_perm.nodup_iff.mpr nodup_range).filter _

theorem blkInterleaver5_lt : ∀ q < 32, blkInterleaver5.getD q 0 < 32 := by decide

theorem blkInterleaver5_inj :
    ∀ q < 32, ∀ q' < 32, blkInterleaver5.getD q 0 = blkInterleaver5.getD q' 0 → q = q' := by decide +kernel

theorem two_pow_eq_blocks (large : 5 ≤ n) : 2 ^ n = 32 * 2 ^ (n - 5) := by
  rw [show (32 : Nat) = 2 ^ 5 from rfl, ← Nat.pow_add, Nat.add_sub_cancel' large]

theorem getBlkInterleaver_div (n i : Nat) :
    getBlkInterleaver n i / 2 ^ (n - 5) = blkInterleaver5.getD (i / 2 ^ (n - 5)) 0 := by
  have pos := Nat.two_pow_pos (n - 5)
  unfold getBlkInterleaver
  rw [Nat.mul_comm, mul_add_div pos, div_eq_of_lt (mod_lt i pos), Nat.add_zero]

theorem getBlkInterleaver_mod (n i : Nat) : getBlkInterleaver n i % 2 ^ (n - 5) = i % 2 ^ (n - 5) := by
  unfold getBlkInterleaver
  rw [mul_add_mod_self_right, mod_mod]

def blkInterleaver (n : Nat) (large : 5 ≤ n) : BlkInterleaver (2 ^ n) where
  indices := getBlkInterleaver n
  lt i inside := by
    rw [two_pow_eq_blocks large] at inside ⊢
    rw [← Nat.div_lt_iff_lt_mul (Nat.two_pow_pos _), getBlkInterleaver_div]
    exact blkInterleaver5_lt _ ((Nat.div_lt_iff_lt_mul (Nat.two_pow_pos _)).mpr inside)
  inj i j inside inside' same := by
    rw [two_pow_eq_blocks large] at inside inside'
    have blocks := congrArg (· / 2 ^ (n - 5)) same
    have places := congrArg (· % 2 ^ (n - 5)) same
    simp only [getBlkInterleaver_div, getBlkInterleaver_mod] at blocks places
    have block := blkInterleaver5_inj _ ((Nat.div_lt_iff_lt_mul (Nat.two_pow_pos _)).mpr inside) _
      ((Nat.div_lt_iff_lt_mul (Nat.two_pow_pos _)).mpr inside') blocks
    rw [← div_add_mod i (2 ^ (n - 5)), block, places, div_add_mod]

end

/-! ### Parameters -/

section
variable {K E nMax x left e : Nat} {p : CodeParams}

theorem ceilLog2From_spec (enough : x ≤ 2 ^ (e + left)) :
    e ≤ ceilLog2From x left e ∧ x ≤ 2 ^ ceilLog2From x left e ∧
      (ceilLog2From x left e = e ∨ 2 ^ (ceilLog2From x left e - 1) < x) := by
  induction left generalizing e with
  | zero => exact ⟨Nat.le_refl e, enough, .inl rfl⟩
  | succ left ih =>
    rw [ceilLog2From]
    by_cases reached : 2 ^ e ≥ x
    · rw [if_pos reached]
      exact ⟨Nat.le_refl e, reached, .inl rfl⟩
    · rw [if_neg reached]
      obtain ⟨above, covers, least⟩ := ih (e := e + 1) (by rwa [Nat.add_right_comm])
      refine ⟨le_of_succ_le above, covers, .inr ?_⟩
      rcases least with first | least
      · rw [first]
        exact Nat.lt_of_not_le reached
      · exact least

structure Accepted (K E : Nat) (p : CodeParams) : Prop where
  length : p.N = 2 ^ p.n
  large : 5 ≤ p.n
  small : p.n ≤ 10
  fits : K + p.nPC ≤ p.N
  pos : 0 < K
  rate : K + p.nPC < E
  nPC : p.nPC ≤ 3
  sent : E < p.N → 16 * K < 9 * E → 9 * p.N < 16 * E
  noBandwidth : p.nWmPC ≠ 1 → p.nWmPC = 0
  bandwidth : p.nWmPC = 1 → p.n = 8 ∧ K + 189 < E ∧ 18 ≤ K ∧ K ≤ 25 ∧ p.nPC = 3

theorem lt_of_two_pow_lt {a b : Nat} (lt : 2 ^ a < 2 ^ b) : a < b := (Nat.pow_lt_pow_iff_right Nat.one_lt_two).mp lt

theorem supportedK_range (supported : supportedK K nMax = true) :
    18 ≤ K ∧ K ≤ 1023 ∧ 9 ≤ nMax ∧ nMax ≤ 10 ∧ (K ≤ 25 → nMax = 10) := by
  unfold supportedK at supported
  split at supported
  · simp only [Bool.not_eq_true', Bool.or_eq_false_iff, decide_eq_false_iff_not] at supported
    omega
  · simp only [Bool.not_eq_true', Bool.or_eq_false_iff, decide_eq_false_iff_not] at supported
    omega
  · contradiction

theorem sentSizeLog_spec (more : 21 < E) (short : E ≤ 8192) :
    5 ≤ sentSizeLog K E ∧ (144 < E → 8 ≤ sentSizeLog K E) ∧
      (E < 2 ^ sentSizeLog K E → 16 * K < 9 * E → 9 * 2 ^ sentSizeLog K E < 16 * E) := by
  obtain ⟨-, covers, least⟩ := @ceilLog2From_spec E 13 1 (by omega)
  have low : 4 < ceilLog2From E 13 1 := lt_of_two_pow_lt (by omega)
  unfold sentSizeLog
  dsimp only
  generalize ceilLog2From E 13 1 = e at covers least low
  obtain ⟨e, rfl⟩ : ∃ e', e = e' + 1 := ⟨e - 1, by omega⟩
  rw [Nat.add_sub_cancel] at least ⊢
  have below : 2 ^ e < E := least.resolve_left (by omega)
  by_cases down : 8 * E ≤ 9 * 2 ^ e ∧ 16 * K < 9 * E
  · rw [if_pos down]
    refine ⟨?_, fun long => ?_, fun over_ => absurd over_ (Nat.not_lt.mpr below.le)⟩
    · exact lt_of_two_pow_lt (a := 4) (by omega)
    · exact lt_of_two_pow_lt (a := 7) (by omega)
  · rw [if_neg down]
    refine ⟨low, fun long => ?_, fun _ rate => ?_⟩
    · exact lt_of_two_pow_lt (by omega)
    · have wide := not_and'.mp down rate
      omega

theorem codeSizeLog_spec (low : 18 ≤ K) (high : K ≤ 1023) (more : 21 < E) (short : E ≤ 8192) (links : 9 ≤ nMax)
    (links' : nMax ≤ 10) :
    5 ≤ codeSizeLog K E nMax ∧ codeSizeLog K E nMax ≤ 10 ∧
      (E < 2 ^ codeSizeLog K E nMax → 16 * K < 9 * E → 9 * 2 ^ codeSizeLog K E nMax < 16 * E) ∧
        (K ≤ 25 → 144 < E → codeSizeLog K E nMax = 8) := by
  obtain ⟨large, wide, sent⟩ := @sentSizeLog_spec K E more short
  obtain ⟨-, covers, least⟩ := @ceilLog2From_spec K 11 0 (by omega)
  have k_low : 4 < ceilLog2From K 11 0 := lt_of_two_pow_lt (by omega)
  have minimum : codeSizeLog K E nMax = min (min (sentSizeLog K E) (ceilLog2From K 11 0 + 3)) nMax := by
    unfold codeSizeLog
    dsimp only
    split_ifs <;> omega
  have le : codeSizeLog K E nMax ≤ sentSizeLog K E := by omega
  refine ⟨by omega, by omega, fun over_ rate => ?_, fun few long => ?_⟩
  · have power := Nat.pow_le_pow_right Nat.two_pos le
    omega
  · have k_high : ceilLog2From K 11 0 - 1 < 5 := by
      apply lt_of_two_pow_lt
      exact Nat.lt_of_lt_of_le (least.resolve_left (by omega)) (by omega)
    omega

theorem accepted_of_some (some_ : getCodeParams K E nMax = some p) : Accepted K E p := by
  unfold getCodeParams at some_
  by_cases long : E > 8192
  · rw [if_pos long] at some_
    contradiction
  rw [if_neg long] at some_
  by_cases unsupported : (!supportedK K nMax) = true
  · rw [if_pos unsupported] at some_
    contradiction
  rw [if_neg unsupported] at some_
  obtain ⟨low, high, links, links', uplink⟩ := supportedK_range (by simpa using unsupported)
  by_cases few : K + (if K ≤ 25 then 3 else 0) ≥ E
  · rw [if_pos few] at some_
    contradiction
  rw [if_neg few] at some_
  by_cases full : K ≥ 2 ^ codeSizeLog K E nMax
  · rw [if_pos full] at some_
    contradiction
  rw [if_neg full] at some_
  obtain rfl := Option.some.inj some_
  have more : 21 < E := by split_ifs at few <;> omega
  obtain ⟨large, small, sent, wide⟩ := @codeSizeLog_spec K E nMax low high more (Nat.le_of_not_lt long) links links'
  have least : 2 ^ 5 ≤ 2 ^ codeSizeLog K E nMax := Nat.pow_le_pow_right Nat.two_pos large
  constructor
  case length => rfl
  case large => exact large
  case small => exact small
  case fits => dsimp only; split_ifs <;> omega
  case pos => omega
  case rate => exact Nat.lt_of_not_le few
  case nPC => dsimp only; split_ifs <;> omega
  case sent => exact sent
  case noBandwidth =>
    dsimp only
    intro other
    split_ifs at other ⊢
    · contradiction
    · rfl
  case bandwidth =>
    intro one
    have both : K ≤ 25 ∧ E > K + 189 := by
      by_contra neither
      rw [if_neg neither] at one
      contradiction
    exact ⟨wide both.1 (by omega), both.2, low, both.1, if_pos both.1⟩

end

/-! ### The temporary set -/

section
variable {x y : List Nat} {T : Int} {K E N n i : Nat} {p : CodeParams}

theorem mem_setdiffStable {a : Nat} : a ∈ setdiffStable x y T ↔ a ∈ x ∧ T < a ∧ a ∉ y := by
  unfold setdiffStable
  simp

theorem le_length_setdiffStable (complete : ∀ a < N, a ∈ x) (cover : Finset Nat)
    (covered : ∀ a < N, (a : Int) ≤ T ∨ a ∈ y → a ∈ cover) : N - cover.card ≤ (setdiffStable x y T).length := by
  have kept : Finset.range N \ cover ⊆ (setdiffStable x y T).toFinset := by
    intro a mem
    obtain ⟨below, free⟩ := Finset.mem_sdiff.mp mem
    have inside := Finset.mem_range.mp below
    rw [mem_toFinset, mem_setdiffStable]
    refine ⟨complete a inside, ?_, ?_⟩
    · apply Int.lt_of_not_ge
      intro low
      exact free (covered a inside (.inl low))
    · intro out
      exact free (covered a inside (.inr out))
  calc
    N - cover.card = (Finset.range N).card - cover.card := by rw [Finset.card_range]
    _ ≤ (Finset.range N \ cover).card := Finset.le_card_sdiff _ _
    _ ≤ (setdiffStable x y T).toFinset.card := Finset.card_le_card kept
    _ ≤ (setdiffStable x y T).length := toFinset_card_le _

theorem interleaved_first (early : i < 8 * 2 ^ (n - 5)) : getBlkInterleaver n i < 8 * 2 ^ (n - 5) := by
  have blocks : ∀ q < 8, blkInterleaver5.getD q 0 < 8 := by decide
  have pos := Nat.two_pow_pos (n - 5)
  rw [← Nat.div_lt_iff_lt_mul pos] at early ⊢
  rw [getBlkInterleaver_div]
  exact blocks _ early

theorem interleaved_early (early : i < 14 * 2 ^ (n - 5)) :
    getBlkInterleaver n i < 11 * 2 ^ (n - 5) ∨
      16 * 2 ^ (n - 5) ≤ getBlkInterleaver n i ∧ getBlkInterleaver n i < 19 * 2 ^ (n - 5) := by
  have blocks : ∀ q < 14, blkInterleaver5.getD q 0 < 11 ∨
      16 ≤ blkInterleaver5.getD q 0 ∧ blkInterleaver5.getD q 0 < 19 := by decide
  have pos := Nat.two_pow_pos (n - 5)
  rw [← Nat.div_lt_iff_lt_mul pos] at early
  rw [← Nat.div_lt_iff_lt_mul pos, ← Nat.div_lt_iff_lt_mul pos, ← Nat.le_div_iff_mul_le pos, getBlkInterleaver_div]
  exact blocks _ early

theorem Accepted.enough (h : Accepted K E p) :
    K + p.nPC ≤ (tmpKSet p K E).length := by
  have complete : ∀ a < p.N, a ∈ getMotherCode p.n := by
    intro a inside
    rw [h.length] at inside
    exact (mem_getMotherCode h.small).mpr inside
  have blocks : p.N = 32 * 2 ^ (p.n - 5) := by rw [h.length, two_pow_eq_blocks h.large]
  have parity := h.nPC
  have rate := h.rate
  unfold tmpKSet rateMatched
  by_cases short : E < p.N
  · rw [if_pos short]
    by_cases punctured : 16 * K ≤ 7 * E
    · rw [if_pos punctured]
      dsimp only
      have sent := h.sent short (by omega)
      by_cases many : E ≥ 3 * p.N / 4
      · rw [if_pos many]
        have bound := @le_length_setdiffStable (getMotherCode p.n)
          ((range (p.N - E)).map (getBlkInterleaver p.n))
          (((3 * p.N / 4 : Nat) : Int) - ((E / 2 : Nat) : Int) - 1) p.N complete
          (Finset.range (3 * p.N / 4 - E / 2)) ?_
        · rw [Finset.card_range] at bound
          omega
        · rintro a inside (low | out)
          · exact Finset.mem_range.mpr (by omega)
          · obtain ⟨i, first, rfl⟩ := List.mem_map.mp out
            have := List.mem_range.mp first
            have := @interleaved_first p.n i (by omega)
            exact Finset.mem_range.mpr (by omega)
      · rw [if_neg many]
        have bound := @le_length_setdiffStable (getMotherCode p.n)
          ((range (p.N - E)).map (getBlkInterleaver p.n))
          (((9 * p.N / 16 : Nat) : Int) - ((E / 4 : Nat) : Int)) p.N complete
          (Finset.range (9 * p.N / 16 - E / 4 + 1) ∪ Finset.Ico (16 * 2 ^ (p.n - 5)) (19 * 2 ^ (p.n - 5))) ?_
        · have cards := Finset.card_union_le (Finset.range (9 * p.N / 16 - E / 4 + 1))
            (Finset.Ico (16 * 2 ^ (p.n - 5)) (19 * 2 ^ (p.n - 5)))
          rw [Finset.card_range, card_Ico] at cards
          omega
        · rintro a inside (low | out)
          · exact Finset.mem_union_left _ (Finset.mem_range.mpr (by omega))
          · obtain ⟨i, first, rfl⟩ := List.mem_map.mp out
            have := List.mem_range.mp first
            rcases @interleaved_early p.n i (by omega) with front | ⟨lower, upper⟩
            · exact Finset.mem_union_left _ (Finset.mem_range.mpr (by omega))
            · exact Finset.mem_union_right _ (Finset.mem_Ico.mpr ⟨lower, upper⟩)
    · rw [if_neg punctured]
      dsimp only
      have bound := @le_length_setdiffStable (getMotherCode p.n)
        ((range' E (p.N - E)).map (getBlkInterleaver p.n)) (-1) p.N complete
        ((range' E (p.N - E)).map (getBlkInterleaver p.n)).toFinset ?_
      · have few := toFinset_card_le ((range' E (p.N - E)).map (getBlkInterleaver p.n))
        rw [length_map, length_range'] at few
        omega
      · rintro a inside (low | out)
        · omega
        · exact List.mem_toFinset.mpr out
  · rw [if_neg short]
    have bound := @le_length_setdiffStable (getMotherCode p.n) [] (-1) p.N complete ∅ ?_
    · rw [Finset.card_empty] at bound
      exact Nat.le_trans h.fits bound
    · rintro a inside (low | out)
      · omega
      · contradiction

end

/-! ### The frozen set -/

section
variable {kSet before after : List Nat} {k N fvalue rounds : Nat}

def complementBelow (kSet : List Nat) (fvalue : Nat) : List Nat := (range fvalue).filter (· ∉ kSet)

theorem complementBelow_succ (kSet : List Nat) (fvalue : Nat) :
    complementBelow kSet (fvalue + 1) =
      if fvalue ∈ kSet then complementBelow kSet fvalue else complementBelow kSet fvalue ++ [fvalue] := by
  unfold complementBelow
  rw [range_succ]
  split <;> simp [*]

theorem complementBelow_isPrefixOf (le : fvalue ≤ N) : complementBelow kSet fvalue <+: complementBelow kSet N := by
  obtain ⟨more, rfl⟩ := Nat.exists_eq_add_of_le le
  unfold complementBelow
  rw [range_add, filter_append]
  exact prefix_append _ _

theorem length_complementBelow (distinct : kSet.Nodup) (inside : ∀ a ∈ kSet, a < N) :
    (complementBelow kSet N).length = N - kSet.length := by
  have taken : ((range N).filter (· ∈ kSet)).Perm kSet := by
    apply (perm_ext_iff_of_nodup (List.nodup_range.filter _) distinct).mpr
    intro a
    rw [mem_filter, mem_range, decide_eq_true_eq]
    exact ⟨And.right, fun mem => ⟨inside a mem, mem⟩⟩
  have both := length_eq_length_filter_add (l := range N) (· ∈ kSet)
  rw [length_range, taken.length_eq] at both
  have same : (complementBelow kSet N).length = ((range N).filter fun a => !decide (a ∈ kSet)).length := by
    unfold complementBelow
    simp
  omega

theorem frozenLoop_spec (sorted : kSet.Pairwise (· < ·)) (split_ : kSet = before ++ k :: after)
    (passed : ∀ a ∈ before, a < fvalue) (next : fvalue ≤ k ∨ after = []) (enough : fvalue + rounds = N) :
    frozenLoop kSet kSet.length (complementBelow kSet N).length rounds before.length fvalue
      (complementBelow kSet fvalue) = some (complementBelow kSet N) := by
  induction rounds generalizing before k after fvalue with
  | zero =>
    obtain rfl : fvalue = N := enough
    exact if_neg (Nat.lt_irrefl _)
  | succ rounds ih =>
    unfold frozenLoop
    by_cases unfinished : (complementBelow kSet fvalue).length < (complementBelow kSet N).length
    · rw [if_pos unfinished]
      have here : kSet[before.length]? = some k := by
        rw [split_]
        simp
      rw [here]
      dsimp only
      have succ := complementBelow_succ kSet fvalue
      by_cases same : k = fvalue
      · have mem : fvalue ∈ kSet := by
          rw [split_, ← same]
          simp
        rw [if_neg (not_not_intro same)]
        rw [if_pos mem] at succ
        rw [← succ]
        cases after with
        | nil =>
          have last : ¬ before.length < kSet.length - 1 := by
            rw [split_]
            simp
          rw [if_neg last]
          exact ih split_ (fun a mem => lt_succ_of_lt (passed a mem)) (.inr rfl) (by omega)
        | cons k' after =>
          have more : before.length < kSet.length - 1 := by
            rw [split_]
            simp
          have shifted : kSet = (before ++ [k]) ++ k' :: after := by
            rw [split_]
            simp
          have place : before.length + 1 = (before ++ [k]).length := by simp
          rw [if_pos more, place]
          refine ih shifted ?_ (.inl ?_) (by omega)
          · intro a mem
            rcases List.mem_append.mp mem with front | back
            · exact lt_succ_of_lt (passed a front)
            · rw [List.mem_singleton.mp back, same]
              exact lt_succ_self _
          · rw [split_] at sorted
            have above := (List.pairwise_cons.mp (List.pairwise_append.mp sorted).2.1).1 k' (mem_cons_self ..)
            omega
      · have notMem : fvalue ∉ kSet := by
          intro mem
          rw [split_] at mem sorted
          obtain ⟨-, behind, -⟩ := List.pairwise_append.mp sorted
          rcases List.mem_append.mp mem with front | back
          · exact Nat.lt_irrefl _ (passed _ front)
          · rcases List.mem_cons.mp back with first_ | later
            · exact same first_.symm
            · have above := (List.pairwise_cons.mp behind).1 _ later
              rcases next with le | none_
              · omega
              · rw [none_] at later
                contradiction
        rw [if_pos same]
        rw [if_neg notMem] at succ
        rw [← succ]
        refine ih split_ (fun a mem => lt_succ_of_lt (passed a mem)) ?_ (by omega)
        rcases next with le | none_
        · exact .inl (by omega)
        · exact .inr none_
    · rw [if_neg unfinished]
      have prefix_ := @complementBelow_isPrefixOf kSet N fvalue (by omega)
      rw [prefix_.eq_of_length_le (Nat.le_of_not_lt unfinished)]

end

/-! ### The sets -/

section
variable {K E nMax : Nat} {p : CodeParams}

def PolarCode.messageSet (c : PolarCode) : List Nat := c.kSet.take (c.K + c.nPC)

def PolarCode.paritySet (c : PolarCode) : List Nat := c.pcSet.take c.nPC

def sentPositions (p : CodeParams) (K E : Nat) : List Nat :=
  let selection := bitSelectionRmTx (interleaverRmTx (fun i => i) (fun _ => 0) (getBlkInterleaver p.n) p.N) p.N E K
  (range E).map fun m => selection.1 (selection.2 + m)

structure Consistent (K E : Nat) (p : CodeParams) (c : PolarCode) : Prop where
  params : c.toCodeParams = p ∧ c.K = K
  messageSize : c.messageSet.length = K + p.nPC
  messageSorted : c.messageSet.Pairwise (· < ·)
  message_lt : ∀ i ∈ c.messageSet, i < p.N
  frozenSize : c.fSet.length = c.fSetSize
  frozenSorted : c.fSet.Pairwise (· < ·)
  complement : ∀ i, i ∈ c.fSet ↔ i < p.N ∧ i ∉ c.messageSet
  paritySize : c.paritySet.length = p.nPC
  parity : ∀ i ∈ c.paritySet, i ∈ c.messageSet
  unsent : ∀ i < p.N, i ∉ sentPositions p K E → i ∈ c.fSet
  removed : E < p.N → ∀ j < p.N, (if 16 * K ≤ 7 * E then j < p.N - E else E ≤ j) →
    getBlkInterleaver p.n j ∈ c.fSet

theorem mem_drop_filter {l front back : List Nat} {kept : Nat → Bool} {x count : Nat}
    (split_ : l = front ++ x :: back) (stays : kept x = true) (near : back.length < count) :
    x ∈ (l.filter kept).drop ((l.filter kept).length - count) := by
  have few := length_filter_le kept back
  rw [split_, filter_append, filter_cons_of_pos stays, length_append, length_cons,
    drop_append_of_le_length (by omega)]
  exact mem_append_right _ (mem_cons_self ..)

theorem Accepted.bandwidth_kept (h : Accepted K E p) (one : p.nWmPC = 1) {w : Nat} (high : 192 ≤ w) :
    (rateMatched p K E).1 < w ∧ w ∉ (rateMatched p K E).2 := by
  obtain ⟨log, long, low, few, -⟩ := h.bandwidth one
  have length : p.N = 256 := by
    rw [h.length, log]
    rfl
  unfold rateMatched
  rw [length, log]
  by_cases short : E < 256
  · rw [if_pos short, if_pos (show 16 * K ≤ 7 * E by omega)]
    refine ⟨by omega, fun out => ?_⟩
    obtain ⟨i, first, rfl⟩ := List.mem_map.mp out
    have := List.mem_range.mp first
    have := @interleaved_first 8 i (by omega)
    omega
  · rw [if_neg short]
    exact ⟨by omega, not_mem_nil⟩

theorem mem_sentPositions (pos : 0 < p.N) {i : Nat} :
    i ∈ sentPositions p K E ↔ ∃ m < E, getBlkInterleaver p.n (selected p.N E K m) = i := by
  unfold sentPositions
  rw [mem_map]
  apply exists_congr
  intro m
  rw [mem_range]
  apply and_congr_right
  intro inside
  rw [bitSelectionRmTx_get _ pos inside, interleaverRmTx_get _ _ _ (selected_lt pos inside)]

theorem Accepted.not_sent (h : Accepted K E p) {i : Nat} (inside : i < p.N) (unsent : i ∉ sentPositions p K E) :
    E < p.N ∧ ∃ j < p.N, (if 16 * K ≤ 7 * E then j < p.N - E else E ≤ j) ∧ getBlkInterleaver p.n j = i := by
  have pos : 0 < p.N := zero_lt_of_lt inside
  rw [mem_sentPositions pos] at unsent
  have inside' := inside
  rw [h.length] at inside'
  obtain ⟨j, below, rfl⟩ := (blkInterleaver p.n h.large).surj inside'
  rw [← h.length] at below
  have other : ∀ m < E, selected p.N E K m ≠ j := fun m sent same => unsent ⟨m, sent, congrArg _ same⟩
  unfold selected at other
  have short : E < p.N := by
    by_contra long
    refine other j (by omega) ?_
    rw [if_pos (Nat.le_of_not_lt long), mod_eq_of_lt below]
  refine ⟨short, j, below, ?_, rfl⟩
  simp only [if_neg (Nat.not_le.mpr short)] at other
  split
  · rename_i punctured
    by_contra sent
    refine other (j - (p.N - E)) (by omega) ?_
    rw [if_pos punctured]
    omega
  · rename_i shortened
    by_contra sent
    refine other j (by omega) ?_
    rw [if_neg shortened]

theorem removed_mem (short : E < p.N) {j : Nat} (inside : j < p.N)
    (out : if 16 * K ≤ 7 * E then j < p.N - E else E ≤ j) :
    getBlkInterleaver p.n j ∈ (rateMatched p K E).2 := by
  unfold rateMatched
  rw [if_pos short]
  split at out
  · rename_i punctured
    rw [if_pos punctured]
    exact mem_map_of_mem (List.mem_range.mpr out)
  · rename_i shortened
    rw [if_neg shortened]
    exact mem_map_of_mem (mem_range'_1.mpr ⟨out, by omega⟩)

theorem Accepted.length_unsortedKSet (h : Accepted K E p) : (unsortedKSet p K E).length = K + p.nPC := by
  have enough := h.enough
  unfold unsortedKSet
  rw [length_drop]
  omega

theorem unsortedKSet_nodup (p : CodeParams) (K E : Nat) : (unsortedKSet p K E).Nodup := by
  exact ((getMotherCode_nodup p.n).filter _).sublist (drop_sublist _ _)

theorem Accepted.unsortedKSet_spec (h : Accepted K E p) {i : Nat} (mem : i ∈ unsortedKSet p K E) :
    i < p.N ∧ i ∉ (rateMatched p K E).2 := by
  obtain ⟨code, -, notOut⟩ := mem_setdiffStable.mp (mem_of_mem_drop mem)
  rw [mem_getMotherCode h.small, ← h.length] at code
  exact ⟨code, notOut⟩

theorem Accepted.bandwidth_mem (h : Accepted K E p) (one : p.nWmPC = 1) :
    (if K ≤ 21 then 252 else 248) ∈ unsortedKSet p K E := by
  obtain ⟨log, long, low, few, three⟩ := h.bandwidth one
  have drops : (tmpKSet p K E).length - K - p.nPC = (tmpKSet p K E).length - (K + 3) := by
    rw [three, Nat.sub_sub]
  unfold unsortedKSet
  rw [drops]
  unfold tmpKSet setdiffStable
  rw [log]
  by_cases short : K ≤ 21
  · rw [if_pos short]
    obtain ⟨above, stays⟩ := h.bandwidth_kept one (show 192 ≤ 252 by decide)
    have place : getMotherCode 8 = (getMotherCode 8).take 248 ++ 252 :: (getMotherCode 8).drop 249 := by decide +kernel
    have behind : ((getMotherCode 8).drop 249).length = 7 := by decide +kernel
    apply mem_drop_filter place
    · simpa using ⟨above, stays⟩
    · omega
  · rw [if_neg short]
    obtain ⟨above, stays⟩ := h.bandwidth_kept one (show 192 ≤ 248 by decide)
    have place : getMotherCode 8 = (getMotherCode 8).take 234 ++ 248 :: (getMotherCode 8).drop 235 := by decide +kernel
    have behind : ((getMotherCode 8).drop 235).length = 21 := by decide +kernel
    apply mem_drop_filter place
    · simpa using ⟨above, stays⟩
    · omega

theorem Accepted.unsortedPcSet_spec (h : Accepted K E p) :
    (unsortedPcSet p K E).length = p.nPC ∧ ∀ i ∈ unsortedPcSet p K E, i ∈ unsortedKSet p K E := by
  have size := h.length_unsortedKSet
  unfold unsortedPcSet
  by_cases one : p.nWmPC = 1
  · obtain ⟨-, -, -, -, three⟩ := h.bandwidth one
    rw [if_pos one]
    constructor
    · rw [length_append, length_take, length_singleton]
      omega
    · intro i mem
      rcases List.mem_append.mp mem with least | last
      · exact mem_of_mem_take least
      · rw [List.mem_singleton.mp last]
        exact h.bandwidth_mem one
  · rw [if_neg one]
    constructor
    · have none_ := h.noBandwidth one
      rw [length_take]
      omega
    · intro i mem
      exact mem_of_mem_take mem

theorem sortedKSet_perm (p : CodeParams) (K E : Nat) : (sortedKSet p K E).Perm (unsortedKSet p K E) :=
  perm_insertionSort _ _

theorem sortedKSet_sorted (p : CodeParams) (K E : Nat) : (sortedKSet p K E).Pairwise (· < ·) := by
  have distinct := (sortedKSet_perm p K E).nodup_iff.mpr (unsortedKSet_nodup p K E)
  exact ((pairwise_insertionSort (· ≤ ·) _).and distinct).imp fun both => Nat.lt_of_le_of_ne both.1 both.2

theorem Accepted.length_sortedKSet (h : Accepted K E p) : (sortedKSet p K E).length = K + p.nPC :=
  (sortedKSet_perm p K E).length_eq.trans h.length_unsortedKSet

theorem Accepted.sortedKSet_spec (h : Accepted K E p) {i : Nat} (mem : i ∈ sortedKSet p K E) :
    i < p.N ∧ i ∉ (rateMatched p K E).2 :=
  h.unsortedKSet_spec ((sortedKSet_perm p K E).mem_iff.mp mem)

theorem Accepted.length_frozen (h : Accepted K E p) :
    (complementBelow (sortedKSet p K E) p.N).length = p.N - K - p.nPC := by
  have distinct := (sortedKSet_perm p K E).nodup_iff.mpr (unsortedKSet_nodup p K E)
  rw [length_complementBelow distinct fun i mem => (h.sortedKSet_spec mem).1, h.length_sortedKSet, Nat.sub_sub]

def polarCode (p : CodeParams) (K E : Nat) : PolarCode :=
  { p with
    K
    fSetSize := p.N - K - p.nPC
    kSet := sortedKSet p K E ++ [1024]
    pcSet := (unsortedPcSet p K E).insertionSort (· ≤ ·) ++ [1024]
    fSet := complementBelow (sortedKSet p K E) p.N }

theorem Accepted.get_eq (h : Accepted K E p) (accepted : getCodeParams K E nMax = some p) :
    isrranPolarCodeGet K E nMax = .ok (polarCode p K E) := by
  have done : frozenLoop (sortedKSet p K E) (K + p.nPC) (p.N - K - p.nPC) p.N 0 0 [] =
      some (complementBelow (sortedKSet p K E) p.N) := by
    have some_ : 0 < (sortedKSet p K E).length := by
      rw [h.length_sortedKSet]
      exact Nat.add_pos_left h.pos _
    obtain ⟨k, after, split_⟩ := exists_cons_of_length_pos some_
    have loop := @frozenLoop_spec _ [] after k p.N 0 p.N (sortedKSet_sorted p K E) split_
      (fun _ mem => absurd mem not_mem_nil) (.inl (Nat.zero_le k)) (Nat.zero_add _)
    rw [h.length_frozen, h.length_sortedKSet] at loop
    exact loop
  unfold isrranPolarCodeGet
  rw [accepted]
  dsimp only
  rw [if_neg (Nat.not_lt.mpr h.enough), done]
  rfl

theorem Accepted.consistent (h : Accepted K E p) : Consistent K E p (polarCode p K E) := by
  have message : (polarCode p K E).messageSet = sortedKSet p K E := take_left' h.length_sortedKSet
  have sortedParity := perm_insertionSort (· ≤ ·) (unsortedPcSet p K E)
  obtain ⟨paritySize, parity⟩ := h.unsortedPcSet_spec
  have paritySet : (polarCode p K E).paritySet = (unsortedPcSet p K E).insertionSort (· ≤ ·) :=
    take_left' (sortedParity.length_eq.trans paritySize)
  have complement : ∀ i, i ∈ (polarCode p K E).fSet ↔ i < p.N ∧ i ∉ (polarCode p K E).messageSet := by
    intro i
    rw [message]
    show i ∈ complementBelow (sortedKSet p K E) p.N ↔ _
    unfold complementBelow
    rw [mem_filter, mem_range, decide_eq_true_eq]
  have removed : E < p.N → ∀ j < p.N, (if 16 * K ≤ 7 * E then j < p.N - E else E ≤ j) →
      getBlkInterleaver p.n j ∈ (polarCode p K E).fSet := by
    intro short j inside out
    have lt := (blkInterleaver p.n h.large).lt j (h.length ▸ inside)
    rw [complement, message]
    refine ⟨h.length.symm ▸ lt, fun mem => ?_⟩
    exact (h.sortedKSet_spec mem).2 (removed_mem short inside out)
  constructor
  case params => exact ⟨rfl, rfl⟩
  case messageSize => rw [message, h.length_sortedKSet]
  case messageSorted =>
    rw [message]
    exact sortedKSet_sorted p K E
  case message_lt =>
    intro i mem
    rw [message] at mem
    exact (h.sortedKSet_spec mem).1
  case frozenSize => exact h.length_frozen
  case frozenSorted => exact List.pairwise_lt_range.filter _
  case complement => exact complement
  case paritySize => rw [paritySet, sortedParity.length_eq, paritySize]
  case parity =>
    intro i mem
    rw [paritySet, sortedParity.mem_iff] at mem
    rw [message, (sortedKSet_perm p K E).mem_iff]
    exact parity i mem
  case unsent =>
    intro i inside unsent
    obtain ⟨short, j, below, out, rfl⟩ := h.not_sent inside unsent
    exact removed short j below out
  case removed => exact removed

theorem isrranPolarCodeGet_consistent (accepted : getCodeParams K E nMax = some p) :
    ∃ c, isrranPolarCodeGet K E nMax = .ok c ∧ Consistent K E p c :=
  ⟨polarCode p K E, (accepted_of_some accepted).get_eq accepted, (accepted_of_some accepted).consistent⟩

theorem isrranPolarCodeGet_consistent_shortest :
    ∃ c, isrranPolarCodeGet 18 208 10 = .ok c ∧ Consistent 18 208 ⟨256, 8, 3, 1⟩ c :=
  isrranPolarCodeGet_consistent (by decide)

end

end IsrRan.Phy.Polar
