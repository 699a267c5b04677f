import IsrRan.Pdcp.UndeliveredCalls

namespace IsrRan.Pdcp.UndeliveredSdus
open Lib Finset Function

section
variable {bearer : AmDrb} {q : UndeliveredSdus} {sn : Nat}

def cleared (q : UndeliveredSdus) (sn : Nat) (sdu : StoredSdu) : UndeliveredSdus :=
  { q with
    count := q.count - 1
    bytes := q.bytes - sdu.msg.length
    sdus := update q.sdus (sn % capacity) none }

variable {sdu : StoredSdu} {x : Nat}

theorem clearSdu_eq (found : q.find sn = some sdu) :
    q.clearSdu sn = if sn = q.fms then (q.cleared sn sdu).updateFms else q.cleared sn sdu := by
  unfold clearSdu
  rw [found]
  rfl

theorem hasSdu_cleared (found : q.find sn = some sdu) (x : Nat) :
    (q.cleared sn sdu).hasSdu x = true ↔ q.hasSdu x = true ∧ x ≠ sn := by
  have same : (q.clearSdu sn).sdus = (q.cleared sn sdu).sdus := by
    rw [clearSdu_eq found]
    split
    · exact updateFms_sdus _
    · rfl
  rw [← hasSdu_clearSdu]
  unfold hasSdu
  rw [find_congr same]

theorem updateFms_same (q : UndeliveredSdus) :
    q.updateFms.count = q.count ∧ q.updateFms.bytes = q.bytes ∧ q.updateFms.snMod = q.snMod := by
  unfold updateFms
  split <;> exact ⟨rfl, rfl, rfl⟩

section
variable (slotted : q.Slotted bearer.cfg)
include slotted

theorem Slotted.cleared :
    (q.cleared sn sdu).Slotted bearer.cfg := by
  refine ⟨slotted.snMod, slotted.fms, fun i held slot => ?_⟩
  by_cases here : i = sn % capacity
  · rw [here] at slot
    unfold UndeliveredSdus.cleared at slot
    dsimp only at slot
    rw [update_self] at slot
    cases slot
  · unfold UndeliveredSdus.cleared at slot
    dsimp only at slot
    rw [update_of_ne here] at slot
    exact slotted.held i held slot

theorem incrementSn_lt (x : Nat) : q.incrementSn x < bearer.cfg.snSpace := by
  unfold incrementSn
  rw [slotted.snMod]
  have positive : 0 < bearer.cfg.snSpace - 1 := by cases bearer.snSpace_eq <;> omega
  exact Nat.lt_of_lt_of_le (Nat.mod_lt (x + 1) positive) (Nat.sub_le _ 1)

theorem Slotted.updateFms : q.updateFms.Slotted bearer.cfg := by
  refine ⟨(updateFms_same q).2.2.trans slotted.snMod, ?_, fun i held slot => ?_⟩
  · unfold UndeliveredSdus.updateFms
    split
    · exact incrementSn_lt slotted _
    · dsimp only
      cases search : q.nextStored (capacity / 2) 0 with
      | none => exact incrementSn_lt slotted _
      | some x =>
        obtain ⟨j, -, -, rfl⟩ := of_nextStored search
        exact incrementSn_lt slotted _
  · rw [updateFms_sdus] at slot
    exact slotted.held i held slot

theorem Slotted.clearSdu (sn : Nat) : (q.clearSdu sn).Slotted bearer.cfg := by
  cases found : q.find sn with
  | none =>
    unfold UndeliveredSdus.clearSdu
    rw [found]
    exact slotted
  | some sdu =>
    rw [clearSdu_eq found]
    split
    · exact slotted.cleared.updateFms
    · exact slotted.cleared

end

theorem Consistent.cleared_counts (consistent : q.Consistent bearer.cfg)
    (found : q.find sn = some sdu) :
    (q.cleared sn sdu).count = (q.cleared sn sdu).nofStored ∧
      (q.cleared sn sdu).bytes = (q.cleared sn sdu).storedBytes := by
  obtain ⟨slot, -⟩ := find_eq_some_iff.mp found
  have ones := @total_update q (q.cleared sn sdu) (fun _ => 1) _ _ slot_lt rfl
  have lengths := @total_update q (q.cleared sn sdu) (fun sdu => sdu.msg.length) _ _ slot_lt rfl
  rw [slot, Option.elim_none, Option.elim_some] at ones lengths
  have count : (q.cleared sn sdu).count = q.count - 1 := rfl
  have bytes : (q.cleared sn sdu).bytes = q.bytes - sdu.msg.length := rfl
  rw [count, bytes, consistent.count, consistent.bytes]
  unfold nofStored storedBytes
  exact ⟨by omega, by omega⟩

theorem exists_isNext (slotted : q.Slotted bearer.cfg) (stored : q.hasSdu x = true) (other : x ≠ q.fms) :
    ∃ y, IsNext bearer.cfg q y := by
  have some_ : ((range bearer.cfg.snSpace).filter fun y => q.hasSdu y = true ∧ y ≠ q.fms).Nonempty :=
    ⟨x, Finset.mem_filter.mpr ⟨Finset.mem_range.mpr (slotted.lt_of_hasSdu stored), stored, other⟩⟩
  obtain ⟨y, mem, least⟩ := exists_min_image _ (modOffset bearer.cfg.snSpace q.fms) some_
  obtain ⟨-, stored, other⟩ := Finset.mem_filter.mp mem
  refine ⟨y, stored, other, fun z storedZ otherZ => ?_⟩
  exact least z (Finset.mem_filter.mpr ⟨Finset.mem_range.mpr (slotted.lt_of_hasSdu storedZ), storedZ, otherZ⟩)

theorem first_iff_eq_next {y : Nat} (slotted : q.Slotted bearer.cfg)
    (fmsFirst : ∀ z, q.hasSdu z = true → ¬ Precedes bearer.cfg z q.fms) (next : IsNext bearer.cfg q x) :
    (q.hasSdu y = true ∧ y ≠ q.fms ∧ ∀ z, q.hasSdu z = true → z ≠ q.fms → ¬ Precedes bearer.cfg z y) ↔ y = x := by
  have fms := slotted.fms
  have boundX := slotted.lt_of_hasSdu next.stored
  have farX := fmsFirst x next.stored
  have otherX := next.other
  unfold Precedes at *
  constructor
  · rintro ⟨stored, other, first_⟩
    have boundY := slotted.lt_of_hasSdu stored
    have apart := first_ x next.stored next.other
    have near := next.first y stored other
    have farY := fmsFirst y stored
    rw [modOffset_eq fms boundX, modOffset_eq fms boundY] at near
    rw [modOffset_eq boundX boundY] at apart
    rw [modOffset_eq boundY fms] at farY
    rw [modOffset_eq boundX fms] at farX
    cases bearer.snSpace_eq <;> split at near <;> split at near <;> split at apart <;> split at farY <;>
      split at farX <;> omega
  · rintro rfl
    refine ⟨next.stored, next.other, fun z stored other => ?_⟩
    have boundZ := slotted.lt_of_hasSdu stored
    have near := next.first z stored other
    have farZ := fmsFirst z stored
    rw [modOffset_eq fms boundX, modOffset_eq fms boundZ] at near
    rw [modOffset_eq boundZ boundX]
    rw [modOffset_eq boundZ fms] at farZ
    cases bearer.snSpace_eq <;> split at near <;> split at near <;> split at farZ <;> split <;> omega

theorem isNext_cleared_iff (found : q.find sn = some sdu) (here : sn = q.fms) (x : Nat) :
    IsNext bearer.cfg (q.cleared sn sdu) x ↔ IsNext bearer.cfg q x := by
  constructor
  · intro next
    refine ⟨((hasSdu_cleared found x).mp next.stored).1, next.other, fun y stored other => ?_⟩
    exact next.first y ((hasSdu_cleared found y).mpr ⟨stored, by rw [here]; exact other⟩) other
  · intro next
    refine ⟨(hasSdu_cleared found x).mpr ⟨next.stored, by rw [here]; exact next.other⟩, next.other, ?_⟩
    intro y stored other
    exact next.first y ((hasSdu_cleared found y).mp stored).1 other

theorem empty_eq_true_iff (consistent : q.count = q.nofStored) (slotted : q.Slotted bearer.cfg) :
    q.empty = true ↔ ∀ x, q.hasSdu x ≠ true := by
  unfold empty
  rw [decide_eq_true_iff, consistent]
  exact nofStored_eq_zero_iff_hasSdu slotted

theorem cleared_fms_iff (slotted : q.Slotted bearer.cfg) (consistent : q.Consistent bearer.cfg)
    (found : q.find sn = some sdu) (here : sn = q.fms) :
    (q.cleared sn sdu).updateFms.Consistent bearer.cfg ↔
      ∀ x, IsNext bearer.cfg q x → Searched bearer.cfg q.fms x := by
  obtain ⟨count, bytes⟩ := consistent.cleared_counts found
  obtain ⟨sameCount, sameBytes, -⟩ := updateFms_same (q.cleared sn sdu)
  have sums (weight : StoredSdu → Nat) : (q.cleared sn sdu).updateFms.total weight =
      (q.cleared sn sdu).total weight := by
    unfold total
    rw [updateFms_sdus]
  have stored (x : Nat) : (q.cleared sn sdu).updateFms.hasSdu x = (q.cleared sn sdu).hasSdu x := by
    unfold hasSdu
    rw [find_congr (updateFms_sdus _)]
  have emptySame : (q.cleared sn sdu).updateFms.empty = (q.cleared sn sdu).empty := by
    unfold empty
    rw [sameCount]
  have wasStored : q.empty = false := by
    have some_ := mt (empty_eq_true_iff consistent.count slotted).mp fun none_ =>
      none_ sn (by unfold hasSdu; rw [found]; rfl)
    exact Bool.eq_false_iff.mpr some_
  have clearedSlots : (q.cleared sn sdu).Slotted bearer.cfg := slotted.cleared
  have fmsFirst : ∀ z, (q.cleared sn sdu).hasSdu z = true → ¬ Precedes bearer.cfg z (q.cleared sn sdu).fms :=
    fun z has => consistent.fmsFirst wasStored z ((hasSdu_cleared found z).mp has).1
  have apart (z : Nat) (has : (q.cleared sn sdu).hasSdu z = true) : z ≠ (q.cleared sn sdu).fms := by
    have ne := ((hasSdu_cleared found z).mp has).2
    rwa [here] at ne
  have parts : (q.cleared sn sdu).updateFms.Consistent bearer.cfg ↔ ((q.cleared sn sdu).empty = false →
      (q.cleared sn sdu).hasSdu (q.cleared sn sdu).updateFms.fms = true ∧
        ∀ z, (q.cleared sn sdu).hasSdu z = true → ¬ Precedes bearer.cfg z (q.cleared sn sdu).updateFms.fms) := by
    constructor
    · intro all some_
      rw [← emptySame] at some_
      simp only [← stored]
      exact ⟨all.fmsStored some_, all.fmsFirst some_⟩
    · intro rest
      refine ⟨?_, ?_, fun some_ => ?_, fun some_ z has => ?_⟩
      · rw [sameCount, count]
        exact (sums _).symm
      · rw [sameBytes, bytes]
        exact (sums _).symm
      · rw [emptySame] at some_
        rw [stored]
        exact (rest some_).1
      · rw [emptySame] at some_
        rw [stored] at has
        exact (rest some_).2 z has
  rw [parts]
  constructor
  · intro rest x next
    have nextHere := (isNext_cleared_iff found here x).mpr next
    have some_ : (q.cleared sn sdu).empty = false := by
      have some_ := mt (empty_eq_true_iff count clearedSlots).mp fun none_ => none_ x nextHere.stored
      exact Bool.eq_false_iff.mpr some_
    obtain ⟨has, first_⟩ := rest some_
    have reached := (first_iff_eq_next clearedSlots fmsFirst nextHere).mp
      ⟨has, apart _ has, fun z hasZ _ => first_ z hasZ⟩
    exact (updateFms_fms_iff clearedSlots some_ nextHere).mp reached
  · intro searched some_
    obtain ⟨y, has⟩ : ∃ y, (q.cleared sn sdu).hasSdu y = true := by
      by_contra none_
      have empty := (empty_eq_true_iff count clearedSlots).mpr fun y has => none_ ⟨y, has⟩
      rw [empty] at some_
      cases some_
    obtain ⟨x, next⟩ := exists_isNext clearedSlots has (apart y has)
    have reached := (updateFms_fms_iff clearedSlots some_ next).mpr
      (searched x ((isNext_cleared_iff found here x).mp next))
    obtain ⟨hasX, -, first_⟩ := (first_iff_eq_next clearedSlots fmsFirst next).mpr reached
    exact ⟨hasX, fun z hasZ => first_ z hasZ (apart z hasZ)⟩

theorem Consistent.cleared_behind (slotted : q.Slotted bearer.cfg)
    (consistent : q.Consistent bearer.cfg) (found : q.find sn = some sdu) (elsewhere : sn ≠ q.fms) :
    (q.cleared sn sdu).Consistent bearer.cfg := by
  obtain ⟨count, bytes⟩ := consistent.cleared_counts found
  have some_ : q.empty = false := by
    have some_ := mt (empty_eq_true_iff consistent.count slotted).mp fun none_ =>
      none_ sn (by unfold hasSdu; rw [found]; rfl)
    exact Bool.eq_false_iff.mpr some_
  refine ⟨count, bytes, fun _ => ?_, fun _ x has => ?_⟩
  · exact (hasSdu_cleared found q.fms).mpr ⟨consistent.fmsStored some_, elsewhere.symm⟩
  · exact consistent.fmsFirst some_ x ((hasSdu_cleared found x).mp has).1

theorem find_clearSdu (found : q.find x = some sdu) (other : x ≠ sn) :
    (q.clearSdu sn).find x = some sdu := by
  obtain ⟨slot, same⟩ := find_eq_some_iff.mp found
  refine find_eq_some_iff.mpr ⟨?_, same⟩
  cases cleared : q.find sn with
  | none =>
    unfold clearSdu
    rw [cleared]
    exact slot
  | some gone =>
    have apart : x % capacity ≠ sn % capacity := by
      intro shared
      obtain ⟨slot', same'⟩ := find_eq_some_iff.mp cleared
      rw [shared, slot'] at slot
      cases slot
      exact other (same.symm.trans same')
    have slots : (q.clearSdu sn).sdus = update q.sdus (sn % capacity) none := by
      rw [clearSdu_eq cleared]
      split
      · exact updateFms_sdus _
      · rfl
    rw [slots, update_of_ne apart, slot]

section
variable (slotted : q.Slotted bearer.cfg)
include slotted

theorem call_iff (consistent : q.Consistent bearer.cfg) (c : Call bearer.cfg) :
    ((q.call bearer.cfg c).Consistent bearer.cfg ∧ q.Keeps bearer.cfg c) ↔ q.CallFits bearer.cfg c := by
  cases c with
  | addSdu sn sdu =>
    obtain ⟨letIn, refuse⟩ := store_eq slotted sn.isLt sdu
    by_cases admitted : Admits bearer.cfg q sn
    · have step : q.call bearer.cfg (.addSdu sn sdu) = q.added sn sdu := by
        show (store bearer.cfg q sn sdu).getD q = _
        rw [letIn admitted]
        rfl
      have fits : q.CallFits bearer.cfg (.addSdu sn sdu) ↔ q.sdus (sn % capacity) = none :=
        ⟨fun fits => fits admitted, fun free _ => free⟩
      rw [fits, ← added_iff slotted consistent sn.isLt sdu admitted]
      unfold Keeps
      rw [step]
      apply and_congr_right
      intro _
      constructor
      · intro keeps x held found
        exact keeps x held found fun _ other => nomatch other
      · intro keeps x held found _
        exact keeps x held found
    · have step : q.call bearer.cfg (.addSdu sn sdu) = q := by
        show (store bearer.cfg q sn sdu).getD q = _
        rw [refuse admitted]
        rfl
      unfold Keeps
      rw [step]
      exact iff_of_true ⟨consistent, fun x held found _ => found⟩ fun admits => absurd admits admitted
  | clearSdu sn =>
    have keeps : q.Keeps bearer.cfg (.clearSdu sn) := fun x sdu found other => find_clearSdu found (other sn rfl)
    have step : q.call bearer.cfg (.clearSdu sn) = q.clearSdu sn := rfl
    rw [and_iff_left keeps, step]
    cases found : q.find sn with
    | none =>
      have same : q.clearSdu sn = q := by
        unfold clearSdu
        rw [found]
      have absent : q.hasSdu sn = false := by
        unfold hasSdu
        rw [found]
        rfl
      rw [same]
      refine iff_of_true consistent fun _ has => ?_
      rw [absent] at has
      cases has
    | some sdu =>
      have has : q.hasSdu sn = true := by
        unfold hasSdu
        rw [found]
        rfl
      rw [clearSdu_eq found]
      by_cases here : (sn : Nat) = q.fms
      · rw [if_pos here, cleared_fms_iff slotted consistent found here]
        exact ⟨fun searched _ _ => searched, fun fits => fits here.symm has⟩
      · rw [if_neg here]
        exact iff_of_true (consistent.cleared_behind slotted found here) fun same => absurd same.symm here

theorem Slotted.call (c : Call bearer.cfg) :
    (q.call bearer.cfg c).Slotted bearer.cfg := by
  cases c with
  | addSdu sn sdu =>
    obtain ⟨letIn, refuse⟩ := store_eq slotted sn.isLt sdu
    show ((store bearer.cfg q sn sdu).getD q).Slotted bearer.cfg
    by_cases admitted : Admits bearer.cfg q sn
    · rw [letIn admitted]
      exact slotted.added sn.isLt sdu
    · rw [refuse admitted]
      exact slotted
  | clearSdu sn => exact slotted.clearSdu sn

theorem run_iff (consistent : q.Consistent bearer.cfg)
    (calls : List (Call bearer.cfg)) : RunConsistent bearer.cfg q calls ↔ RunFits bearer.cfg q calls := by
  induction calls generalizing q with
  | nil => exact iff_of_true consistent trivial
  | cons c calls ih =>
    have step := call_iff slotted consistent c
    constructor
    · rintro ⟨-, keeps, rest⟩
      have next : (q.call bearer.cfg c).Consistent bearer.cfg := by
        cases calls with
        | nil => exact rest
        | cons second rest' => exact rest.1
      exact ⟨step.mp ⟨next, keeps⟩, (ih (slotted.call c) next).mp rest⟩
    · rintro ⟨fits, rest⟩
      obtain ⟨next, keeps⟩ := step.mpr fits
      exact ⟨consistent, keeps, (ih (slotted.call c) next).mpr rest⟩

end

end

theorem configured_slotted (bearer : AmDrb) : (configured bearer.cfg).Slotted bearer.cfg := by
  refine ⟨rfl, ?_, fun i sdu slot => nomatch slot⟩
  show 0 < bearer.cfg.snSpace
  cases bearer.snSpace_eq <;> omega

theorem configured_consistent (bearer : AmDrb) : (configured bearer.cfg).Consistent bearer.cfg := by
  refine ⟨?_, ?_, (fun some_ => nomatch some_), fun some_ => nomatch some_⟩
  · exact (nofStored_eq_zero_iff.mpr fun i lt => rfl).symm
  · unfold storedBytes total
    exact (sum_eq_zero fun i mem => rfl).symm

theorem undeliveredSdus_consistent_iff (bearer : AmDrb) (calls : List (Call bearer.cfg)) :
    RunConsistent bearer.cfg (configured bearer.cfg) calls ↔ RunFits bearer.cfg (configured bearer.cfg) calls :=
  run_iff (configured_slotted bearer) (configured_consistent bearer) calls

def amDrb12 : AmDrb := ⟨{ snLen := .len12, isSrb := false, rbIsUm := false }, rfl, rfl, rfl⟩

def amDrb18 : AmDrb := ⟨{ snLen := .len18, isSrb := false, rbIsUm := false }, rfl, rfl, rfl⟩

theorem undeliveredSdus_disordered :
    ¬ RunConsistent amDrb12.cfg (configured amDrb12.cfg)
        [.addSdu ⟨4094, by decide⟩ {}, .addSdu ⟨4095, by decide⟩ {}, .clearSdu ⟨4094, by decide⟩] ∧
      ¬ RunConsistent amDrb18.cfg (configured amDrb18.cfg)
        [.addSdu ⟨200000, by decide⟩ {}, .addSdu ⟨68928, by decide⟩ {}] := by
  constructor
  · rintro ⟨-, -, -, -, -, -, last⟩
    have stored := last.fmsStored (by decide +kernel)
    exact absurd stored (by decide +kernel)
  · rintro ⟨-, -, -, keeps, -⟩
    have kept := keeps 200000 ⟨200000, []⟩ (by decide +kernel) fun _ other => nomatch other
    exact absurd kept (by decide +kernel)

end IsrRan.Pdcp.UndeliveredSdus
