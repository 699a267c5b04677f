import Mathlib.Data.Rat.Floor

/-! Uplink MCS and transport block size. The entries of the transport block size table are a parameter. -/

namespace IsrRan.Mac.Lte

def ulMcsTbsIdxTable : List Nat :=
  [0, 1, 2, 3, 4, 5, 6, 7, 8, 9, 10, 10, 11, 12, 13, 14, 15, 16, 17, 18, 19, 19, 20, 21, 22, 23, 24, 25, 26]

def ulTbsIdxFromMcs (mcs : Nat) : Option Nat := ulMcsTbsIdxTable[mcs]?

def ulMcsFromTbsIdx (tbsIdx : Nat) : Option Nat :=
  (List.range 29).reverse.find? fun mcs => decide (ulTbsIdxFromMcs mcs = some tbsIdx)

def ulModBits (mcs : Nat) : Nat := if mcs ≤ 10 then 2 else if mcs ≤ 20 then 4 else if mcs ≤ 28 then 6 else 1

abbrev TbsTable := Nat → Nat → Nat

structure TbsInfo where
  tbsBytes : Int := -1
  mcs : Int := 0

section Table
variable (tbsTable : TbsTable)

def tbsFromIdx (tbsIdx nPrb : Nat) : Option Nat :=
  if tbsIdx < 34 ∧ 0 < nPrb ∧ nPrb ≤ 110 then some (tbsTable tbsIdx (nPrb - 1)) else none

/-- `isrran_ra_tbs_to_table_idx`; the error codes are `none`. -/
def tbsToTableIdx (tbs nPrb maxTbsIdx : Nat) : Option Nat :=
  if nPrb = 0 ∨ nPrb > 110 then none
  else if tbs < tbsTable 0 (nPrb - 1) then some 0
  else ((List.range (maxTbsIdx + 1)).reverse.find? fun tbsIdx => decide (tbsTable tbsIdx (nPrb - 1) ≤ tbs)).map (· + 1)

def computeMcsFromMaxTbs (nofPrb maxTbs maxMcs : Nat) : Option (Nat × Nat) :=
  match tbsToTableIdx tbsTable maxTbs nofPrb 26 with
  | none => none
  | some 0 => none
  | some (tbsIdx + 1) =>
    match ulMcsFromTbsIdx tbsIdx with
    | none => none
    | some mcs => if mcs > maxMcs then (ulTbsIdxFromMcs maxMcs).map fun bound => (maxMcs, bound) else some (mcs, tbsIdx)

def getTbsBytes (mcs nofAllocPrb : Nat) : Option Int :=
  (ulTbsIdxFromMcs mcs).bind fun tbsIdx => (tbsFromIdx tbsTable tbsIdx nofAllocPrb).map fun tbs => ((tbs / 8 : Nat) : Int)

variable {tbsTable}

theorem ulTbsIdxFromMcs_of_mcs {tbsIdx mcs : Nat} (h : ulMcsFromTbsIdx tbsIdx = some mcs) :
    ulTbsIdxFromMcs mcs = some tbsIdx := by
  simpa using List.find?_some h

theorem computeMcsFromMaxTbs_spec {nofPrb maxTbs maxMcs mcs tbsIdx : Nat}
    (h : computeMcsFromMaxTbs tbsTable nofPrb maxTbs maxMcs = some (mcs, tbsIdx)) :
    mcs ≤ maxMcs ∧ ulTbsIdxFromMcs mcs = some tbsIdx := by
  unfold computeMcsFromMaxTbs at h
  split at h
  · contradiction
  · contradiction
  · split at h
    · contradiction
    · rename_i found
      split at h
      · obtain ⟨bound, entry, same⟩ := Option.map_eq_some_iff.mp h
        obtain ⟨rfl, rfl⟩ := Prod.mk.inj same
        exact ⟨le_rfl, entry⟩
      · obtain ⟨rfl, rfl⟩ := Prod.mk.inj (Option.some.inj h)
        exact ⟨by omega, ulTbsIdxFromMcs_of_mcs found⟩

variable (tbsTable)

def computeMcsAndTbsLoop (nofPrb nofRe : Nat) (maxCoderate : ℚ) (maxMcs : Nat) : TbsInfo :=
  let maxTbs := ⌊nofRe * maxCoderate - 24⌋
  if maxTbs < 16 then {}
  else
    match found : computeMcsFromMaxTbs tbsTable nofPrb maxTbs.toNat maxMcs with
    | none => {}
    | some (mcs, tbsIdx) =>
      have _bound : mcs ≤ maxMcs := (computeMcsFromMaxTbs_spec found).1
      if mcs = 6 ∧ nofPrb = 1 then computeMcsAndTbsLoop nofPrb nofRe maxCoderate (mcs - 1)
      else
        match tbsFromIdx tbsTable tbsIdx nofPrb with
        | none => {}
        | some tbs =>
          let maxCoderate := min (93 / 100 * (ulModBits mcs : ℚ)) maxCoderate
          if ((24 + tbs : Nat) : ℚ) / nofRe ≤ maxCoderate then ⟨(tbs / 8 : Nat), mcs⟩
          else if mcs > 0 then computeMcsAndTbsLoop nofPrb nofRe maxCoderate (mcs - 1) else {}
termination_by maxMcs
decreasing_by all_goals omega

def computeMcsAndTbs (nofPrb nofRe : Nat) (coderate : ℚ) (maxMcs : Nat) (ulqam64Enabled : Bool) : TbsInfo :=
  computeMcsAndTbsLoop tbsTable nofPrb nofRe (min coderate (93 / 100 * if ulqam64Enabled then 6 else 4)) maxMcs

def computeMinMcsAndTbsFromRequiredBytes (nofPrb nofRe : Nat) (coderate : ℚ) (maxMcs reqBytes : Nat)
    (ulqam64Enabled : Bool) : TbsInfo :=
  let compute := fun maxMcs => computeMcsAndTbs tbsTable nofPrb nofRe coderate maxMcs ulqam64Enabled
  let tbMax := compute maxMcs
  if tbMax.tbsBytes + 8 ≤ reqBytes ∨ tbMax.mcs = 0 then tbMax
  else
    match computeMcsFromMaxTbs tbsTable nofPrb ((reqBytes * 8 + 2 ^ 32 - 1) % 2 ^ 32) maxMcs with
    | none => if (compute 0).tbsBytes ≥ (reqBytes : Int) then compute 0 else tbMax
    | some (mcsMin, _) =>
      ((List.range' (mcsMin + 1) (tbMax.mcs.toNat - (mcsMin + 1))).map compute).find?
        (fun tb2 => decide (tb2.tbsBytes ≥ (reqBytes : Int))) |>.getD tbMax

structure UlEnv where
  fixedMcsUl : Int := -1
  coderate : ℚ := 0
  maxMcsUl : Nat := 28
  ulqam64Enabled : Bool := false
  nofSymb : Nat := 12
  reqBytes : Nat := 0
  nofUciRe : Option Nat := none
  cqiRequest : Bool := false
  maxharqTx : Nat := 5
  maxMsg3retx : Nat := 5

/-- `cqi_to_tbs_ul` without an explicit MCS; `none` is a failed assertion. -/
def cqiToTbsUl (env : UlEnv) (nofPrb nofRe : Nat) : Option TbsInfo :=
  if env.fixedMcsUl < 0 then
    let ret := computeMinMcsAndTbsFromRequiredBytes tbsTable nofPrb nofRe env.coderate env.maxMcsUl env.reqBytes
      env.ulqam64Enabled
    if ret.tbsBytes < 0 then (getTbsBytes tbsTable 0 nofPrb).map fun tbs => ⟨tbs, 0⟩ else some ret
  else (getTbsBytes tbsTable env.fixedMcsUl.toNat nofPrb).map fun tbs => ⟨tbs, env.fixedMcsUl⟩

def Consistent (nofPrb : Nat) (tb : TbsInfo) : Prop :=
  ∃ mcs : Nat, tb.mcs = mcs ∧ getTbsBytes tbsTable mcs nofPrb = some tb.tbsBytes

variable {tbsTable} {nofPrb nofRe maxMcs : Nat} {coderate : ℚ} {env : UlEnv}

theorem computeMcsAndTbsLoop_consistent :
    (computeMcsAndTbsLoop tbsTable nofPrb nofRe coderate maxMcs).tbsBytes < 0 ∨
      Consistent tbsTable nofPrb (computeMcsAndTbsLoop tbsTable nofPrb nofRe coderate maxMcs) := by
  induction maxMcs using Nat.strong_induction_on generalizing coderate with
  | _ maxMcs ih =>
    unfold computeMcsAndTbsLoop
    dsimp only
    split
    · exact .inl (by decide)
    · split
      · exact .inl (by decide)
      · rename_i mcs tbsIdx found
        obtain ⟨bound, entry⟩ := computeMcsFromMaxTbs_spec found
        split
        · exact ih _ (by omega)
        · split
          · exact .inl (by decide)
          · rename_i tbs size
            split
            · refine .inr ⟨mcs, rfl, ?_⟩
              simp [getTbsBytes, entry, size]
            · split
              · exact ih _ (by omega)
              · exact .inl (by decide)

theorem computeMinMcsAndTbs_consistent {reqBytes : Nat} {ulqam64Enabled : Bool} :
    let tb := computeMinMcsAndTbsFromRequiredBytes tbsTable nofPrb nofRe coderate maxMcs reqBytes ulqam64Enabled
    tb.tbsBytes < 0 ∨ Consistent tbsTable nofPrb tb := by
  have each : ∀ max, let tb := computeMcsAndTbs tbsTable nofPrb nofRe coderate max ulqam64Enabled
      tb.tbsBytes < 0 ∨ Consistent tbsTable nofPrb tb := fun _ => computeMcsAndTbsLoop_consistent
  unfold computeMinMcsAndTbsFromRequiredBytes
  dsimp only
  split
  · exact each maxMcs
  · split
    · split
      · exact each 0
      · exact each maxMcs
    · cases found : List.find? _ _ with
      | none => exact each maxMcs
      | some tb2 =>
        obtain ⟨max, _, rfl⟩ := List.mem_map.mp (List.mem_of_find?_eq_some found)
        exact each max

theorem cqiToTbsUl_consistent {tb : TbsInfo} (h : cqiToTbsUl tbsTable env nofPrb nofRe = some tb) :
    Consistent tbsTable nofPrb tb := by
  unfold cqiToTbsUl at h
  dsimp only at h
  split at h
  · split at h
    · obtain ⟨tbs, size, rfl⟩ := Option.map_eq_some_iff.mp h
      exact ⟨0, rfl, size⟩
    · rename_i nonneg
      obtain rfl := Option.some.inj h
      exact computeMinMcsAndTbs_consistent.resolve_left nonneg
  · rename_i fixed
    obtain ⟨tbs, size, rfl⟩ := Option.map_eq_some_iff.mp h
    exact ⟨env.fixedMcsUl.toNat, (Int.toNat_of_nonneg (Int.not_lt.mp fixed)).symm, size⟩

end Table

end IsrRan.Mac.Lte
