import IsrRan.Mac.SfCchAllocator

namespace IsrRan.Mac.Lte.SfCchAllocator
open Lib List Backtrack.Space

variable {st st' : SfCchAllocator} {record : AllocRecord} {rounds : Nat}

def Wider (st : SfCchAllocator) (record : AllocRecord) (cfix : Nat) : Prop :=
  st.currentCfix < cfix ∧ cfix ≤ st.currentMaxCfix ∧
    ∃ locs, Pdcch.dciPosList ⟨st.cc, st.ttiRx, cfix⟩ record = .ok locs ∧ 0 < locs.toList.length

theorem widestCfix_ok {cfixTmp nofLocs cfix best : Nat} (h : st.widestCfix record cfixTmp nofLocs cfix = .ok best)
    (upper : cfixTmp ≤ st.currentMaxCfix) (sofar : cfix = st.currentCfix ∨ Wider st record cfix) :
    best = st.currentCfix ∨ Wider st record best := by
  induction cfixTmp generalizing nofLocs cfix with
  | zero =>
    obtain rfl := Except.ok.inj h
    exact sofar
  | succ cfixTmp ih =>
    unfold widestCfix at h
    split at h
    · rename_i above
      split at h
      · contradiction
      · rename_i locs table
        split at h
        · exact ih h (by omega) (.inr ⟨above, upper, locs, table, by omega⟩)
        · obtain rfl := Except.ok.inj h
          exact sofar
    · obtain rfl := Except.ok.inj h
      exact sofar

theorem firstCfix_ok {cfix : Nat} (h : st.firstCfix record = .ok cfix) : cfix = st.currentCfix ∨
    record.allocType.isDlCtrlAlloc = true ∧ st.dciRecordList = [] ∧ Wider st record cfix := by
  unfold firstCfix at h
  split at h
  · rename_i first
    rcases widestCfix_ok h le_rfl (.inl rfl) with same | wider
    · exact .inl same
    · exact .inr ⟨first.1, eq_nil_of_length_eq_zero first.2.1, wider⟩
  · obtain rfl := Except.ok.inj h
    exact .inl rfl

theorem place_ctrl {cfix : Nat} (ctrl : record.allocType.isDlCtrlAlloc = true) (empty : st.lastDciDfs = [])
    (wider : Wider st record cfix) : allocDfsNode record { st with currentCfix := cfix } 0 ≠ .ok none := by
  intro skipped
  obtain ⟨_, _, locs, table, nonempty⟩ := wider
  have entries : positions.table (context { st with currentCfix := cfix }) record = .ok locs.toList := by
    change Except.map _ (Pdcch.dciPosList ⟨st.cc, st.ttiRx, cfix⟩ record) = _
    rw [table]
    rfl
  have none_made := Backtrack.Tables.make_none (T := positions) skipped entries (List.getElem?_eq_getElem nonempty)
  obtain ⟨nofCces, size, made⟩ := bind_eq_ok.mp none_made
  obtain ⟨current, resized, made⟩ := bind_eq_ok.mp made
  obtain ⟨⟨totalMask, totalPucchMask⟩, cumulative, made⟩ := bind_eq_ok.mp made
  obtain ⟨outcome, prb, made⟩ := bind_eq_ok.mp made
  have noPucch : ¬ (record.allocType = .dlData ∧ !record.puschUci) := by
    rintro ⟨data, _⟩
    rw [data] at ctrl
    contradiction
  obtain rfl : some (-1) = outcome := by
    rw [Pdcch.pucchPrb, if_neg noPucch] at prb
    exact Except.ok.inj prb
  obtain ⟨reserved, reserve, made⟩ := bind_eq_ok.mp made
  cases reserved with
  | none =>
    obtain ⟨pos, _, _, taken⟩ := BoundedBitset.reserve_none reserve
    obtain ⟨masks, same, _, _, cces, _⟩ := Pdcch.holds_nil.masks nofCces size
    rw [empty] at cumulative
    obtain rfl := Except.ok.inj (same.symm.trans cumulative)
    simpa using (cces pos).mp taken
  | some masks =>
    obtain ⟨marked, _, made⟩ := bind_eq_ok.mp made
    simp [pure, Except.pure] at made

structure Settled (st : SfCchAllocator) : Prop where
  valid : assignments.Valid (context st) st.dciRecordList st.lastDciDfs
  full : st.lastDciDfs.length = st.dciRecordList.length
  least : ∀ r, assignments.Valid (context st) st.dciRecordList r → r.length = st.dciRecordList.length →
    st.lastDciDfs <:+ r ∨ search.After st.lastDciDfs r

theorem settled_newTti (cc : SchedCellParams) (ttiRx : Nat) : Settled (newTti cc ttiRx) :=
  ⟨trivial, rfl, fun _ _ _ => .inl nil_suffix⟩

theorem valid_max {ch : Pdcch} {m m' : Nat} {records : List AllocRecord} {tree : List TreeNode}
    (valid : assignments.Valid (ch, m) records tree) : assignments.Valid (ch, m') records tree := by
  induction tree with
  | nil => trivial
  | cons top rest ih => exact ⟨valid.1, ih valid.2⟩

def begin (st : SfCchAllocator) (cfix : Nat) : SfCchAllocator := { st with tempDciDfs := [], currentCfix := cfix }

structure Kept (st₀ st : SfCchAllocator) : Prop where
  cc : st.cc = st₀.cc
  ttiRx : st.ttiRx = st₀.ttiRx
  currentMaxCfix : st.currentMaxCfix = st₀.currentMaxCfix
  dciRecordList : st.dciRecordList = st₀.dciRecordList

namespace Kept
variable {st₀ : SfCchAllocator} (kept : Kept st₀ st)
include kept

theorem place {start : Nat} (placed : allocDfsNode record st start = .ok (some st')) : Kept st₀ st' := by
  obtain ⟨node, rfl, _⟩ := Backtrack.Tables.place_some (T := positions) placed
  exact ⟨kept.cc, kept.ttiRx, kept.currentMaxCfix, kept.dciRecordList⟩

theorem pop : Kept st₀ (search.pop st) := ⟨kept.cc, kept.ttiRx, kept.currentMaxCfix, kept.dciRecordList⟩

theorem ascend : Kept st₀ (search.ascend st).2 := ⟨kept.cc, kept.ttiRx, kept.currentMaxCfix, kept.dciRecordList⟩

theorem save : Kept st₀ (search.save st) := by
  change Kept st₀ (if _ then _ else _)
  split
  · exact ⟨kept.cc, kept.ttiRx, kept.currentMaxCfix, kept.dciRecordList⟩
  · exact kept

end Kept

section Search
variable {found : Bool} {cfix : Nat} (settled : Settled st)
include settled

section
variable (first : cfix = st.currentCfix ∨ st.dciRecordList = [])
include first

theorem Settled.valid_begin :
    assignments.Valid (context (begin st cfix)) st.dciRecordList st.lastDciDfs := by
  rcases first with rfl | empty
  · exact settled.valid
  · have nil := settled.full
    rw [empty] at nil
    rw [eq_nil_of_length_eq_zero nil]
    trivial

theorem Settled.kept
    (run : search.find st.dciRecordList record rounds rounds (begin st cfix) = .ok (some (found, st'))) :
    Kept st st' := by
  refine find_invariant assignments (P := Kept st) (fun _ _ _ _ _ kept => kept.place)
    (fun _ _ kept => kept.pop) (fun _ _ kept => kept.ascend) (fun _ _ kept => kept.save)
    (settled.valid_begin first) settled.full ⟨rfl, rfl, rfl, rfl⟩ run

theorem Settled.ahead {k : Context} {r : List TreeNode}
    (here : assignments.FromContext (context (begin st cfix)) k)
    (valid : assignments.Valid k (st.dciRecordList ++ [record]) r) (full : r.length = st.dciRecordList.length + 1) :
    assignments.AtOrBeyond (begin st cfix) k r := by
  rcases here with rfl | later
  · have tail := valid.of_suffix (tail_suffix r)
    have inner := tail.restrict (prefix_append st.dciRecordList [record]) (by simp [full])
    rcases first with rfl | empty
    · rcases settled.least r.tail inner (by simp [full]) with below | after
      · exact .inl ⟨rfl, below.trans (tail_suffix r)⟩
      · exact .inr (.inl ⟨rfl, after.of_suffix (tail_suffix r)⟩)
    · have nil := settled.full
      rw [empty] at nil
      refine .inl ⟨rfl, ?_⟩
      change st.lastDciDfs <:+ r
      rw [eq_nil_of_length_eq_zero nil]
      exact nil_suffix
  · exact .inr (.inr later)

end

end Search

section Allocate
variable (settled : Settled st)
include settled

theorem Settled.allocated (run : st.allocDci rounds record = .ok (some (true, st'))) :
    Settled st' ∧ st'.dciRecordList = st.dciRecordList ++ [record] := by
  unfold allocDci at run
  split at run
  · contradiction
  · rename_i cfix firstCfix
    have first : cfix = st.currentCfix ∨ st.dciRecordList = [] :=
      (firstCfix_ok firstCfix).imp id fun wider => wider.2.1
    split at run
    · contradiction
    · simp at run
    · rename_i st1 search_run
      have kept := settled.kept first search_run
      have start := settled.valid_begin first
      obtain ⟨sound, complete⟩ := find_spec (T := assignments) search_run start settled.full
      obtain ⟨valid, full⟩ := sound rfl
      have here := find_context (T := assignments) search_run start
      simp only [Except.ok.injEq, Option.some.injEq, Prod.mk.injEq, true_and] at run
      subst run
      rw [kept.dciRecordList]
      refine ⟨⟨valid_max valid, ?_, fun r target length => ?_⟩, rfl⟩
      · rw [length_append]
        exact full
      · have target' : assignments.Valid (context st1) (st.dciRecordList ++ [record]) r := valid_max target
        rw [length_append, length_singleton] at length
        rcases (complete _ r target' (by omega) (settled.ahead first here target' length)).2 with
          ⟨_, below⟩ | ⟨_, after⟩ | ⟨_, above, _, same⟩
        · exact .inl below
        · exact .inr after
        · exact absurd (congrArg (fun k => k.1.cfix) same) (Nat.ne_of_lt above)
    · simp at run

section
variable (run : st.allocDci rounds record = .ok (some (false, st')))
include run

theorem Settled.refused_search :
    ∃ st1, search.find st.dciRecordList record rounds rounds (begin st st.currentCfix) = .ok (some (false, st1)) ∧
      st' = { st1 with
        lastDciDfs := st1.tempDciDfs, tempDciDfs := st1.lastDciDfs, currentCfix := st.currentCfix } := by
  unfold allocDci at run
  split at run
  · contradiction
  · rename_i cfix firstCfix
    split at run
    · contradiction
    · simp at run
    · simp at run
    · rename_i st1 search_run
      simp only [Except.ok.injEq, Option.some.injEq, Prod.mk.injEq, true_and] at run
      rcases firstCfix_ok firstCfix with rfl | ⟨ctrl, empty, wider⟩
      · exact ⟨st1, search_run, run.symm⟩
      · have nil := settled.full
        rw [empty] at nil
        have skipped := Backtrack.place_of_find_false search_run
        have placed := @place_ctrl { st with tempDciDfs := [] } record cfix ctrl (eq_nil_of_length_eq_zero nil) wider
        exact absurd skipped placed

theorem Settled.refused_complete {cfix : Nat}
    {grants : List Grant} (lower : st.currentCfix ≤ cfix) (upper : cfix ≤ st.currentMaxCfix)
    (records : grants.map Prod.fst = st.dciRecordList ++ [record])
    (assignment : Pdcch.Assignment ⟨st.cc, st.ttiRx, cfix⟩ grants) :
    ¬ ∀ g ∈ grants, Pdcch.Usable ⟨st.cc, st.ttiRx, cfix⟩ g := by
  intro usable
  obtain ⟨st1, search_run, _⟩ := settled.refused_search run
  obtain ⟨tree, valid, length, _⟩ :=
    exists_valid_of_grants (k := (⟨st.cc, st.ttiRx, cfix⟩, st.currentMaxCfix)) assignment usable
  rw [records] at valid
  have full : tree.length = st.dciRecordList.length + 1 := by
    rw [length, ← length_map (f := Prod.fst), records, length_append, length_singleton]
  have here : assignments.FromContext (context (begin st st.currentCfix))
      (⟨st.cc, st.ttiRx, cfix⟩, st.currentMaxCfix) := by
    rcases Nat.eq_or_lt_of_le lower with rfl | above
    · exact .inl rfl
    · exact .inr ⟨cfix, above, upper, rfl⟩
  have ahead := settled.ahead (.inl rfl) here valid full
  have found := (find_spec (T := assignments) search_run (settled.valid_begin (.inl rfl))
    settled.full).2 _ tree valid (by omega) ahead
  exact absurd found.1 (by simp)

theorem Settled.refused_restores :
    st' = { st with tempDciDfs := st'.tempDciDfs } := by
  obtain ⟨st1, search_run, rfl⟩ := settled.refused_search run
  obtain ⟨kept, saved⟩ := find_failed assignments
    (P := fun u => Kept st u ∧ u.tempDciDfs = st.lastDciDfs)
    (fun _ _ _ _ _ holds placed => ⟨holds.1.place placed, by
      obtain ⟨node, rfl, _⟩ := Backtrack.Tables.place_some (T := positions) placed
      exact holds.2⟩)
    (fun _ _ holds => ⟨holds.1.pop, holds.2⟩) (fun _ _ holds => ⟨holds.1.ascend, holds.2⟩)
    (fun u level holds => ⟨holds.1.save, by
      change (if _ then _ else _ : SfCchAllocator).tempDciDfs = _
      split
      · rename_i empty
        rw [List.isEmpty_iff, holds.2] at empty
        have nil := settled.full
        rw [empty] at nil
        rw [empty]
        exact eq_nil_of_length_eq_zero (level.trans nil.symm)
      · exact holds.2⟩)
    (settled.valid_begin (.inl rfl)) ⟨⟨rfl, rfl, rfl, rfl⟩, rfl⟩ search_run
  rw [SfCchAllocator.mk.injEq]
  exact ⟨kept.cc, kept.ttiRx, rfl, kept.currentMaxCfix, saved, rfl, kept.dciRecordList⟩

end

theorem Settled.alloc_ends (record : AllocRecord) :
    ∃ enough, ∀ rounds, enough ≤ rounds → st.allocDci rounds record ≠ .ok none := by
  cases first_cfix : st.firstCfix record with
  | error fault =>
    refine ⟨0, fun rounds _ none_left => ?_⟩
    rw [allocDci, first_cfix] at none_left
    contradiction
  | ok cfix =>
    have first : cfix = st.currentCfix ∨ st.dciRecordList = [] :=
      (firstCfix_ok first_cfix).imp id fun wider => wider.2.1
    refine ⟨assignments.measure st.dciRecordList.length (begin st cfix) + 1, fun rounds bound none_left => ?_⟩
    have ends : search.find _ record rounds rounds (begin st cfix) ≠ .ok none :=
      find_ends (T := assignments) (settled.valid_begin first) (Nat.lt_of_succ_le bound)
        (Nat.lt_of_succ_le bound)
    rw [allocDci, first_cfix] at none_left
    dsimp only at none_left
    split at none_left
    · contradiction
    · exact ends ‹_›
    · simp at none_left
    · simp at none_left

end Allocate

theorem Settled.step {call : Nat × AllocRecord} (settled : Settled st) (next : st.step call = some st') :
    Settled st' := by
  unfold SfCchAllocator.step at next
  split at next
  · rename_i found st1 run
    obtain rfl := Option.some.inj next
    cases found with
    | true => exact (settled.allocated run).1
    | false =>
      rw [settled.refused_restores run]
      exact ⟨settled.valid, settled.full, settled.least⟩
  · contradiction

theorem Settled.sound (settled : Settled st) : ∃ grants : List Grant, grants.map Prod.fst = st.dciRecordList ∧
    st.pdcch.Assignment grants ∧ (∀ g ∈ grants, st.pdcch.Usable g) ∧ st.pdcch.Holds st.lastDciDfs grants := by
  obtain ⟨grants, records, holds, assignment, usable⟩ := grants_of_valid settled.valid settled.full
  exact ⟨grants, records, assignment, usable, holds⟩

theorem allocDci_of_reaches {cc : SchedCellParams} {ttiRx : Nat}
    (run : Reaches step (fun _ _ => True) (newTti cc ttiRx) st) :
    (∃ grants : List Grant, grants.map Prod.fst = st.dciRecordList ∧ st.pdcch.Assignment grants ∧
        (∀ g ∈ grants, st.pdcch.Usable g) ∧ st.pdcch.Holds st.lastDciDfs grants) ∧
      ∀ record, (∃ enough, ∀ rounds, enough ≤ rounds → st.allocDci rounds record ≠ .ok none) ∧
        ∀ rounds st', (st.allocDci rounds record = .ok (some (true, st')) →
            st'.dciRecordList = st.dciRecordList ++ [record]) ∧
          (st.allocDci rounds record = .ok (some (false, st')) →
            st' = { st with tempDciDfs := st'.tempDciDfs } ∧
            ∀ cfix grants, st.currentCfix ≤ cfix → cfix ≤ st.currentMaxCfix →
              grants.map Prod.fst = st.dciRecordList ++ [record] →
              Pdcch.Assignment ⟨st.cc, st.ttiRx, cfix⟩ grants →
              ¬ ∀ g ∈ grants, Pdcch.Usable ⟨st.cc, st.ttiRx, cfix⟩ g) := by
  have settled := run.invariant (P := Settled) (settled_newTti cc ttiRx) fun _ _ _ holds _ next => holds.step next
  refine ⟨settled.sound, fun record => ⟨settled.alloc_ends record, fun rounds st' => ⟨fun accepted => ?_,
    fun refused => ⟨settled.refused_restores refused, fun cfix grants lower upper records assignment => ?_⟩⟩⟩⟩
  · exact (settled.allocated accepted).2
  · exact settled.refused_complete refused lower upper records assignment

section Runs

def smallCell : SchedCellParams :=
  { nofPrb := 25, cpNorm := true
    pucchCfgCommon :=
      { format := .format1, deltaPucchShift := 2, nRb2 := 2, nCs := 0, nPucch1 := 12, shift_pos := by decide,
        shift_le := by decide }
    commonLocations := [], rarLocations := [], nofCceTable := [2, 6, 10], minNofCtrlSymbols := 1
    maxNofCtrlSymbols := 2, pucchMuxEnabled := false, pucchHarqMaxRb := 0
    nofPrb_le := by decide, nofCce_le := by decide }

def noSr : PucchCfgSr := { srConfigured := false, iSr := 0, nPucchSr := 0 }
def srOnFirstCce : PucchCfgSr := { srConfigured := true, iSr := 157, nPucchSr := 12 }

def userAt (rnti : Nat) (pucchCfg : PucchCfgSr) (locs : CcePositionList) : SchedUe :=
  { rnti, pucchCfg, dciLocations := replicate 10 [[locs], [locs]] }

def ulGrant (rnti : Nat) (locs : CcePositionList) : AllocRecord :=
  { puschUci := false, aggrIdx := 0, allocType := .ulData, user := some (userAt rnti noSr locs) }

def srGrant : AllocRecord :=
  { puschUci := false, aggrIdx := 0, allocType := .dlData, user := some (userAt 0x46 srOnFirstCce ⟨[0], by decide⟩) }

def firstOrSecond : AllocRecord := ulGrant 0x46 ⟨[0, 1], by decide⟩
def onlyFirst : AllocRecord := ulGrant 0x47 ⟨[0], by decide⟩

theorem allocDci_of_reaches_movedDci : ∃ st, Reaches step (fun _ _ => True) (newTti smallCell 0) st ∧
    st.lastDciDfs.map TreeNode.dciPos = [⟨0, 0⟩, ⟨0, 1⟩] ∧
      ∃ grants : List Grant, grants.map Prod.fst = [firstOrSecond, onlyFirst] ∧ st.pdcch.Assignment grants := by
  have calls : runAllowed step (fun _ _ => true) (newTti smallCell 0) [(3, firstOrSecond), (3, onlyFirst)] =
      some { cc := smallCell, ttiRx := 0, currentCfix := 0, currentMaxCfix := 1,
             lastDciDfs := [⟨-1, 0x47, 0, ⟨0, 0⟩, ⟨2, 3⟩, ⟨2, 1⟩, ⟨25, 0⟩⟩, ⟨-1, 0x46, 1, ⟨0, 1⟩, ⟨2, 2⟩, ⟨2, 2⟩, ⟨25, 0⟩⟩],
             tempDciDfs := [⟨-1, 0x46, 0, ⟨0, 0⟩, ⟨2, 1⟩, ⟨2, 1⟩, ⟨25, 0⟩⟩],
             dciRecordList := [firstOrSecond, onlyFirst] } := by decide +kernel
  have run : Reaches step (fun _ _ => True) _ _ := (reaches_of_runAllowed _ calls).mono fun _ _ _ => trivial
  obtain ⟨⟨grants, records, assignment, _, _⟩, _⟩ := allocDci_of_reaches run
  exact ⟨_, run, rfl, grants, records, assignment⟩

theorem refused_with_assignment : ¬ ∀ (cc : SchedCellParams) (ttiRx : Nat) (st : SfCchAllocator),
    Reaches step (fun _ _ => True) (newTti cc ttiRx) st → ∀ record rounds st',
      st.allocDci rounds record = .ok (some (false, st')) → ∀ cfix grants, st.currentCfix ≤ cfix →
        cfix ≤ st.currentMaxCfix → grants.map Prod.fst = st.dciRecordList ++ [record] →
          ¬ Pdcch.Assignment ⟨st.cc, st.ttiRx, cfix⟩ grants := by
  intro complete
  have refused : (newTti smallCell 0).allocDci 3 srGrant = .ok (some (false, newTti smallCell 0)) := by
    decide +kernel
  refine complete smallCell 0 _ .refl srGrant 3 _ refused 0 [(srGrant, 0)] le_rfl (Nat.zero_le _) rfl ⟨?_, ?_⟩
  · intro g mem
    rw [List.mem_singleton.mp mem]
    exact ⟨⟨[0], by decide⟩, 2, rfl, mem_singleton_self 0, rfl, by decide⟩
  · exact pairwise_singleton _ _

end Runs

end IsrRan.Mac.Lte.SfCchAllocator
