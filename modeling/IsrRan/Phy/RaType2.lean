import Mathlib.Data.Nat.Log
import IsrRan.Phy.Cbsegm
import IsrRan.Phy.Dci

namespace IsrRan.Phy
open Nat

def raType2ToRiv (lCrb rbStart nofPrb : Nat) : Nat :=
  if sub32 lCrb 1 ≤ nofPrb / 2 then u32 (nofPrb * sub32 lCrb 1 + rbStart)
  else sub32 (sub32 (u32 (nofPrb * u32 (sub32 nofPrb lCrb + 1) + nofPrb)) 1) rbStart

def raType2FromRiv (riv nofPrb nofVrb : Nat) : Nat × Nat :=
  let lCrb := u32 (riv / nofPrb + 1)
  let rbStart := riv % nofPrb
  if lCrb > sub32 nofVrb rbStart then
    (u32 (sub32 nofPrb (riv / nofPrb) + 1), sub32 (sub32 nofPrb (riv % nofPrb)) 1)
  else (lCrb, rbStart)

inductive RaType2Mode where
  | loc
  | dist
  deriving DecidableEq, Repr

def type2Step (format1C : Bool) (nofPrb : Nat) : Nat := if format1C then raType2NRbStep nofPrb else 1

/-- The interval that `isrran_ra_dl_grant_to_grant_prb_allocation` computes for type 2: length and first block. -/
def type2Interval (mode : RaType2Mode) (ngapIs1 format1C : Bool) (riv nofPrb : Nat) : Nat × Nat :=
  let nofVrb := if mode = .loc then nofPrb else raType2NVrbDl nofPrb ngapIs1
  let nStep := type2Step format1C nofPrb
  let nofPrbT2 := if format1C then nofVrb / nStep else nofPrb
  let interval := raType2FromRiv riv nofPrbT2 (nofVrb / nStep)
  (interval.1 * nStep, interval.2 * nStep)

def type2LocPrbs (format1C : Bool) (riv nofPrb : Nat) : List Nat :=
  let interval := type2Interval .loc true format1C riv nofPrb
  (List.range interval.1).map (· + interval.2)

def maxPrb : Nat := 110

def rivOf (lCrb rbStart nofPrb : Nat) : Nat :=
  if lCrb - 1 ≤ nofPrb / 2 then nofPrb * (lCrb - 1) + rbStart
  else nofPrb * (nofPrb - lCrb + 1) + (nofPrb - 1 - rbStart)

section
variable {lCrb rbStart nofPrb nofVrb riv : Nat}

theorem raType2ToRiv_eq (some_ : 1 ≤ lCrb) (fits : rbStart + lCrb ≤ nofPrb) (lt : nofPrb < 4294967296) :
    raType2ToRiv lCrb rbStart nofPrb = u32 (rivOf lCrb rbStart nofPrb) := by
  unfold raType2ToRiv rivOf
  rw [sub32_of_le some_ (by omega)]
  split
  · rfl
  · next high =>
      have short : u32 (nofPrb - lCrb + 1) = nofPrb - lCrb + 1 := u32_of_lt (by omega)
      rw [sub32_of_le (by omega) lt, short, sub32_u32 (by omega) (by decide), sub32_u32 (by omega) (by omega),
        Nat.sub_sub, Nat.add_sub_assoc (by omega), Nat.sub_sub]

theorem divMod_of_eq {q r : Nat} (lt : r < nofPrb) : (nofPrb * q + r) / nofPrb = q ∧ (nofPrb * q + r) % nofPrb = r := by
  constructor
  · rw [mul_add_div (by omega), div_eq_of_lt lt, Nat.add_zero]
  · rw [mul_add_mod, mod_eq_of_lt lt]

theorem rows_of_lt (lt : riv < nofPrb * nofPrb + nofPrb) : riv / nofPrb ≤ nofPrb := by
  apply le_of_lt_succ
  apply Nat.div_lt_of_lt_mul
  exact lt

theorem raType2FromRiv_eq (lt : nofPrb < 4294967296) (le : nofVrb ≤ nofPrb) (short : riv < 4294967296)
    (rows : riv / nofPrb ≤ nofPrb) (some_ : 1 ≤ nofPrb) :
    raType2FromRiv riv nofPrb nofVrb =
      if riv % nofPrb ≤ nofVrb ∧ nofVrb < riv / nofPrb + 1 + riv % nofPrb then
        (u32 (nofPrb - riv / nofPrb + 1), nofPrb - riv % nofPrb - 1)
      else (riv / nofPrb + 1, riv % nofPrb) := by
  have rest_ := mod_lt riv some_
  have whole := div_add_mod riv nofPrb
  have room : riv / nofPrb ≤ nofPrb * (riv / nofPrb) := Nat.le_mul_of_pos_left _ some_
  unfold raType2FromRiv
  dsimp only
  generalize riv / nofPrb = q at *
  generalize riv % nofPrb = r at *
  have few : q < 65536 := by
    by_contra many
    have square := Nat.mul_le_mul (Nat.le_trans (Nat.not_lt.mp many) rows) (Nat.not_lt.mp many)
    omega
  rw [sub32_of_le rows lt, sub32_of_le rest_.le lt, @sub32_of_le (nofPrb - r) 1 (by omega) (by omega),
    @u32_of_lt (q + 1) (by omega)]
  by_cases inside : r ≤ nofVrb
  · rw [sub32_of_le inside (by omega)]
    by_cases long : nofVrb < q + 1 + r
    · rw [if_pos (by omega), if_pos ⟨inside, long⟩]
    · rw [if_neg (by omega), if_neg fun both => long both.2]
  · have wraps : sub32 nofVrb r = nofVrb + 4294967296 - r := by
      unfold sub32 u32
      omega
    rw [if_neg (by omega), if_neg fun both => inside both.1]

theorem raType2FromRiv_riv (fits : rbStart + lCrb ≤ nofVrb) (le : nofVrb ≤ nofPrb) (lt : nofPrb < 4294967296)
    (some_ : 1 ≤ lCrb) (short : rivOf lCrb rbStart nofPrb < 4294967296) :
    raType2FromRiv (rivOf lCrb rbStart nofPrb) nofPrb nofVrb = (lCrb, rbStart) ↔
      lCrb - 1 ≤ nofPrb / 2 ∨ nofPrb - 1 - rbStart ≤ nofVrb := by
  have decode := @raType2FromRiv_eq nofPrb nofVrb (rivOf lCrb rbStart nofPrb) lt le short
  unfold rivOf at decode ⊢
  by_cases low : lCrb - 1 ≤ nofPrb / 2
  · rw [if_pos low] at decode ⊢
    obtain ⟨q, r⟩ := @divMod_of_eq nofPrb (lCrb - 1) rbStart (by omega)
    rw [q, r] at decode
    rw [decode (by omega) (by omega), if_neg (by omega), Nat.sub_add_cancel some_]
    exact iff_of_true rfl (Or.inl low)
  · rw [if_neg low] at decode ⊢
    obtain ⟨q, r⟩ := @divMod_of_eq nofPrb (nofPrb - lCrb + 1) (nofPrb - 1 - rbStart) (by omega)
    rw [q] at decode
    rw [decode (by omega) (by omega)]
    by_cases seen : nofPrb - 1 - rbStart ≤ nofVrb
    · have back : nofPrb - (nofPrb - lCrb + 1) + 1 = lCrb := by omega
      rw [if_pos (by omega), back, u32_of_lt (by omega)]
      exact iff_of_true (Prod.ext rfl (by dsimp only; omega)) (Or.inr seen)
    · rw [if_neg (by omega)]
      refine iff_of_false (fun same => ?_) (by omega)
      have length := congrArg Prod.fst same
      omega

theorem raType2FromRiv_ne (fits : rbStart + lCrb ≤ nofVrb) (le : nofVrb ≤ nofPrb) (lt : nofPrb < 4294967296)
    (some_ : 1 ≤ lCrb) (long : 4294967296 ≤ rivOf lCrb rbStart nofPrb) :
    raType2FromRiv (u32 (rivOf lCrb rbStart nofPrb)) nofPrb nofVrb ≠ (lCrb, rbStart) := by
  have cut : u32 (rivOf lCrb rbStart nofPrb) + 4294967296 ≤ rivOf lCrb rbStart nofPrb := by
    unfold u32
    omega
  have short : u32 (rivOf lCrb rbStart nofPrb) < 4294967296 := mod_lt _ (by decide)
  have bound : rivOf lCrb rbStart nofPrb < nofPrb * nofPrb + nofPrb := by
    unfold rivOf
    split
    · have less := Nat.mul_le_mul_left nofPrb (show lCrb - 1 ≤ nofPrb by omega)
      omega
    · have less := Nat.mul_le_mul_left nofPrb (show nofPrb - lCrb + 1 ≤ nofPrb by omega)
      omega
  have rows := @rows_of_lt nofPrb (u32 (rivOf lCrb rbStart nofPrb)) (by omega)
  intro same
  rw [raType2FromRiv_eq lt le short rows (by omega)] at same
  generalize u32 (rivOf lCrb rbStart nofPrb) = riv at *
  have whole := div_add_mod riv nofPrb
  unfold rivOf at cut
  split at same
  · -- read as a value of the upper triangle
    have length := congrArg Prod.fst same
    have inside : nofPrb - riv / nofPrb + 1 < 4294967296 := by
      by_contra wraps
      have zero : nofPrb - riv / nofPrb + 1 = 4294967296 := by omega
      rw [zero] at length
      exact absurd length.symm (Nat.one_le_iff_ne_zero.mp some_)
    rw [u32_of_lt inside] at length
    have q : riv / nofPrb = nofPrb - lCrb + 1 := by omega
    rw [q] at whole
    split at cut
    · next low =>
        have less := Nat.mul_le_mul_left nofPrb (show lCrb - 1 ≤ nofPrb - lCrb + 1 by omega)
        omega
    · omega
  · have length := congrArg Prod.fst same
    have q : riv / nofPrb = lCrb - 1 := by omega
    rw [q] at whole
    split at cut
    · omega
    · next high =>
        have less := Nat.mul_le_mul_left nofPrb (show nofPrb - lCrb + 1 ≤ lCrb - 1 by omega)
        omega

theorem raType2FromRiv_inside_iff (some_ : 1 ≤ nofPrb) (lt : nofPrb < 4294967296) (le : nofVrb ≤ nofPrb)
    (short : riv < 4294967296) (field : riv < 2 ^ clog 2 (nofPrb * (nofPrb + 1) / 2)) :
    1 ≤ (raType2FromRiv riv nofPrb nofVrb).1 ∧
        (raType2FromRiv riv nofPrb nofVrb).2 + (raType2FromRiv riv nofPrb nofVrb).1 ≤ nofVrb ↔
      riv / nofPrb + 1 + riv % nofPrb ≤ nofVrb ∨
        riv % nofPrb ≤ nofVrb ∧ 2 * nofPrb ≤ riv / nofPrb + riv % nofPrb + nofVrb := by
  have rows : riv / nofPrb ≤ nofPrb := by
    apply rows_of_lt
    by_cases single : nofPrb = 1
    · subst single
      exact Nat.lt_trans field (by decide)
    · have square := Nat.mul_le_mul (show 2 ≤ nofPrb by omega) (show 2 ≤ nofPrb by omega)
      rw [mul_succ] at field
      have large : 1 < (nofPrb * nofPrb + nofPrb) / 2 := by omega
      have half := pow_pred_clog_lt_self Nat.one_lt_two large
      rw [pred_eq_sub_one] at half
      have twice := Nat.pow_pred_mul (clog_pos Nat.one_lt_two large) (x := 2)
      omega
  have rest_ := mod_lt riv some_
  rw [raType2FromRiv_eq lt le short rows some_]
  generalize riv / nofPrb = q at *
  split
  · next flipped =>
      by_cases whole : nofPrb - q + 1 < 4294967296
      · rw [u32_of_lt whole]
        omega
      · have zero : nofPrb - q + 1 = 4294967296 := by omega
        rw [zero]
        exact iff_of_false (fun both => absurd both.1 (by decide : ¬ 1 ≤ u32 4294967296)) (by omega)
  · dsimp only
    omega

theorem type2LocPrbs_lt {format1C : Bool} (some_ : 1 ≤ nofPrb / type2Step format1C nofPrb) (lt : nofPrb < 4294967296)
    (short : riv < 4294967296)
    (field : riv < 2 ^ clog 2
      (nofPrb / type2Step format1C nofPrb * (nofPrb / type2Step format1C nofPrb + 1) / 2)) :
    ∀ i ∈ type2LocPrbs format1C riv nofPrb, i < nofPrb := by
  have steps := div_mul_le_self nofPrb (type2Step format1C nofPrb)
  have few := Nat.div_le_self nofPrb (type2Step format1C nofPrb)
  have blocks : (if format1C then nofPrb / type2Step format1C nofPrb else nofPrb) =
      nofPrb / type2Step format1C nofPrb := by
    cases format1C
    · exact (Nat.div_one nofPrb).symm
    · rfl
  unfold type2LocPrbs type2Interval
  dsimp only
  rw [if_pos rfl, blocks]
  generalize type2Step format1C nofPrb = nStep at *
  generalize nofPrb / nStep = n at *
  have inside := (raType2FromRiv_inside_iff some_ (by omega) (Nat.le_refl n) short field).mpr (by
    have rest_ := mod_lt riv some_
    omega)
  intro i mem
  obtain ⟨k, below, rfl⟩ := List.mem_map.mp mem
  have k_lt := List.mem_range.mp below
  have room := Nat.mul_le_mul_right nStep inside.2
  rw [Nat.add_mul] at room
  omega

end

theorem raType2_roundTrips_iff (nofPrb nofVrb : Nat) (some_ : 1 ≤ nofPrb) (lt : nofPrb < 4294967296)
    (le : nofVrb ≤ nofPrb) :
    (∀ lCrb rbStart, 1 ≤ lCrb → rbStart + lCrb ≤ nofVrb →
      (raType2FromRiv (raType2ToRiv lCrb rbStart nofPrb) nofPrb nofVrb = (lCrb, rbStart) ↔
        rivOf lCrb rbStart nofPrb < 4294967296 ∧ (lCrb - 1 ≤ nofPrb / 2 ∨ nofPrb - 1 - rbStart ≤ nofVrb))) ∧
      (∀ riv < 4294967296, riv < 2 ^ clog 2 (nofPrb * (nofPrb + 1) / 2) →
        (1 ≤ (raType2FromRiv riv nofPrb nofVrb).1 ∧
            (raType2FromRiv riv nofPrb nofVrb).2 + (raType2FromRiv riv nofPrb nofVrb).1 ≤ nofVrb ↔
          riv / nofPrb + 1 + riv % nofPrb ≤ nofVrb ∨
            riv % nofPrb ≤ nofVrb ∧ 2 * nofPrb ≤ riv / nofPrb + riv % nofPrb + nofVrb)) ∧
      ∀ riv < 4294967296, riv < 2 ^ clog 2 (nofPrb * (nofPrb + 1) / 2) → nofPrb ≤ maxPrb →
        ∀ i ∈ type2LocPrbs false riv nofPrb, i < maxPrb := by
  refine ⟨fun lCrb rbStart long fits => ?_, fun riv short field => raType2FromRiv_inside_iff some_ lt le short field,
    fun riv short field few i mem => ?_⟩
  · rw [raType2ToRiv_eq long (Nat.le_trans fits le) lt]
    by_cases short : rivOf lCrb rbStart nofPrb < 4294967296
    · rw [u32_of_lt short, raType2FromRiv_riv fits le lt long short]
      exact (and_iff_right short).symm
    · have differ := raType2FromRiv_ne fits le lt long (Nat.not_lt.mp short)
      exact iff_of_false differ fun both => short both.1
  · have one : nofPrb / type2Step false nofPrb = nofPrb := Nat.div_one nofPrb
    refine Nat.lt_of_lt_of_le (type2LocPrbs_lt ?_ lt short ?_ i mem) few
    · rw [one]
      exact some_
    · rw [one]
      exact field

theorem raType2_roundTrips_iff_all : raType2FromRiv (raType2ToRiv 50 0 50) 50 50 = (50, 0) :=
  ((raType2_roundTrips_iff 50 50 (by decide) (by decide) (by decide)).1 50 0 (by decide) (by decide)).mpr (by decide)

theorem raType2FromRiv_distributed : ¬ ∀ nofPrb nofVrb lCrb rbStart : Nat, 1 ≤ nofPrb → nofVrb ≤ nofPrb → 1 ≤ lCrb →
    rbStart + lCrb ≤ nofVrb → raType2FromRiv (raType2ToRiv lCrb rbStart nofPrb) nofPrb nofVrb = (lCrb, rbStart) := by
  intro always
  have back := always 100 (raType2NVrbDl 100 true) 60 0 (by decide) (by decide) (by decide) (by decide)
  exact absurd back (by decide)

end IsrRan.Phy
