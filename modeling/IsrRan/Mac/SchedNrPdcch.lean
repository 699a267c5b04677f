import IsrRan.Adt.Bounded
import IsrRan.Lib.Backtrack
import IsrRan.Lib.Transition
import Mathlib.Data.List.Forall2

namespace IsrRan.Mac.Nr
open Lib List Backtrack.Space BoundedBitset BoundedVector

inductive RntiType where
  | c | p | si | ra | tc | cs | spCsi | mcsC
  deriving DecidableEq, Repr

def invalidRnti : Nat := 0x0
def maxNofCandidatesNr : Nat := 8
def coresetBitmapMaxSize : Nat := 45 * 3
def dciListMaxSize : Nat := 2 * 4

abbrev PdcchCcePosList := BoundedVector Nat maxNofCandidatesNr
abbrev BwpCcePosList := List (List PdcchCcePosList)

def BwpCcePosList.get (lst : BwpCcePosList) (slotIdx aggrIdx : Nat) : Except Fault PdcchCcePosList :=
  match lst[slotIdx]? >>= (·[aggrIdx]?) with
  | some locs => .ok locs
  | none => .error .undefinedBehaviour

structure UeCarrierParams where
  rnti : Nat
  ccePositionsList : List BwpCcePosList
  ssIdToCceIdx : List Nat
  deriving DecidableEq, Repr

def UeCarrierParams.ccePosList (ue : UeCarrierParams) (searchId slotIdx aggrIdx : Nat) :
    Except Fault PdcchCcePosList :=
  match ue.ssIdToCceIdx[searchId]? with
  | none => .error .undefinedBehaviour
  | some cceIdx =>
    match ue.ccePositionsList[cceIdx]? with
    | none => .ok ⟨[], Nat.zero_le _⟩
    | some lst => lst.get slotIdx aggrIdx

structure DciLocation where
  L : Nat
  ncce : Nat
  deriving DecidableEq, Repr

structure CoresetCfg where
  duration : Nat
  nofFreqRes : Nat
  slotIdx : Nat
  rarCceList : BwpCcePosList
  commonCceList : List (Option BwpCcePosList)
  deriving DecidableEq, Repr

def CoresetCfg.nofCces (cfg : CoresetCfg) : Nat := cfg.nofFreqRes * cfg.duration

structure AllocRecord where
  rntiType : RntiType
  aggrIdx : Nat
  ssId : Nat
  isDl : Bool
  ue : Option UeCarrierParams
  deriving DecidableEq, Repr

structure TreeNode where
  rnti : Nat
  dciPosIdx : Nat
  dciPos : DciLocation
  totalMask : BoundedBitset
  currentMask : BoundedBitset
  deriving DecidableEq, Repr

structure CoresetRegion where
  cfg : CoresetCfg
  dciList : List AllocRecord := []
  dfsTree : List TreeNode := []
  savedDfsTree : List TreeNode := []
  locations : List DciLocation := []
  deriving DecidableEq, Repr

def CoresetCfg.getCceLocTable (cfg : CoresetCfg) (record : AllocRecord) : Except Fault PdcchCcePosList :=
  match record.rntiType with
  | .ra => cfg.rarCceList.get cfg.slotIdx record.aggrIdx
  | .si =>
    match cfg.commonCceList[record.ssId]? with
    | none => .error .undefinedBehaviour
    | some none => .error .assertionFailed
    | some (some lst) => lst.get cfg.slotIdx record.aggrIdx
  | .c | .tc | .mcsC | .spCsi =>
    match record.ue with
    | none => .error .undefinedBehaviour
    | some ue => ue.ccePosList record.ssId cfg.slotIdx record.aggrIdx
  | .p | .cs => .error .assertionFailed

def CoresetCfg.cumulativeMask (cfg : CoresetCfg) : List TreeNode → Except Fault BoundedBitset
  | [] => BoundedBitset.resized coresetBitmapMaxSize cfg.nofCces
  | back :: _ => .ok back.totalMask

def CoresetCfg.candidateNode (cfg : CoresetCfg) (record : AllocRecord) (tree : List TreeNode)
    (dciPosIdx ncce : Nat) : Except Fault (Option TreeNode) := do
  let currentMask ← BoundedBitset.resized coresetBitmapMaxSize cfg.nofCces
  let totalMask ← cfg.cumulativeMask tree
  match ← totalMask.reserve currentMask ncce (ncce + 2 ^ record.aggrIdx) with
  | none => return none
  | some (totalMask, currentMask) =>
    let rnti := record.ue.elim invalidRnti (·.rnti)
    return some { rnti, dciPosIdx, dciPos := ⟨record.aggrIdx, ncce⟩, totalMask, currentMask }

namespace CoresetRegion

def reset (cfg : CoresetCfg) : CoresetRegion := { cfg }

/-- The record of a new node is the one at level `dfs_tree.size()`, so this is the DCI that is written. -/
def pushNode (st : CoresetRegion) (node : TreeNode) : CoresetRegion :=
  { st with dfsTree := node :: st.dfsTree, locations := st.locations.set st.dfsTree.length node.dciPos }

def allocDfsNode (record : AllocRecord) (st : CoresetRegion) (startDciIdx : Nat) :
    Except Fault (Option CoresetRegion) := do
  let cceLocs ← st.cfg.getCceLocTable record
  let node ← Backtrack.firstFrom (st.cfg.candidateNode record st.dfsTree) cceLocs.toList startDciIdx
  return node.map st.pushNode

/-- `get_next_dfs` is the `next` of this search, the loop of `alloc_pdcch` its `find`. -/
def search : Backtrack CoresetRegion TreeNode AllocRecord Fault where
  tree := dfsTree
  index := TreeNode.dciPosIdx
  place := allocDfsNode
  pop st := { st with dfsTree := st.dfsTree.tail }
  ascend st := (false, st)
  save st := if st.savedDfsTree.isEmpty then { st with savedDfsTree := st.dfsTree } else st

def allocPdcch (rounds : Nat) (record : AllocRecord) (st : CoresetRegion) :
    Except Fault (Option (Bool × CoresetRegion)) :=
  match search.find st.dciList record rounds rounds
      { st with savedDfsTree := [], locations := st.locations ++ [⟨0, 0⟩] } with
  | .error fault => .error fault
  | .ok none => .ok none
  | .ok (some (true, st')) =>
    if st'.dciList.length < dciListMaxSize then
      .ok (some (true, { st' with dciList := st'.dciList ++ [record] }))
    else .error .assertionFailed
  -- The caller removes the DCI it made for the failed allocation.
  | .ok (some (false, st')) => .ok (some (false, { st' with
      dfsTree := st'.savedDfsTree, savedDfsTree := st'.dfsTree, locations := st'.locations.dropLast }))

def remLastPdcch (st : CoresetRegion) : Except Fault CoresetRegion :=
  if st.dciList.isEmpty then .error .assertionFailed
  else .ok { st with
    dfsTree := st.dfsTree.tail, dciList := st.dciList.dropLast, locations := st.locations.dropLast }

inductive Call where
  | alloc (rounds : Nat) (record : AllocRecord)
  | remLast

def step (st : CoresetRegion) : Call → Option CoresetRegion
  | .alloc rounds record =>
    match st.allocPdcch rounds record with
    | .ok (some (_, st')) => some st'
    | _ => none
  | .remLast =>
    match st.remLastPdcch with
    | .ok st' => some st'
    | .error _ => none

end CoresetRegion

def TreeNode.Covers (node : TreeNode) (cce : Nat) : Prop :=
  node.dciPos.ncce ≤ cce ∧ cce < node.dciPos.ncce + 2 ^ node.dciPos.L

def TreeNode.Apart (a b : TreeNode) : Prop := ∀ cce, ¬ (a.Covers cce ∧ b.Covers cce)

def CoresetCfg.Candidate (cfg : CoresetCfg) (record : AllocRecord) (node : TreeNode) : Prop :=
  node.dciPos.L = record.aggrIdx ∧
    ∃ cceLocs, cfg.getCceLocTable record = .ok cceLocs ∧ node.dciPos.ncce ∈ cceLocs.toList

def takenIn (tree : List TreeNode) (cce : Nat) : Prop := ∃ back ∈ tree.head?, cce ∈ back.totalMask

section Node
variable {cfg : CoresetCfg} {record : AllocRecord} {tree : List TreeNode} {dciPosIdx ncce : Nat} {node : TreeNode}

theorem mem_cumulativeMask {total : BoundedBitset} (h : cfg.cumulativeMask tree = .ok total) (cce : Nat) :
    takenIn tree cce ↔ cce ∈ total := by
  cases tree with
  | nil => simp [takenIn, (resized_ok h).2.2 cce]
  | cons back rest =>
    obtain rfl : back.totalMask = total := Except.ok.inj h
    simp [takenIn]

theorem candidateNode_ok (h : cfg.candidateNode record tree dciPosIdx ncce = .ok (some node)) :
    node.dciPosIdx = dciPosIdx ∧ node.dciPos = ⟨record.aggrIdx, ncce⟩ ∧
      (∀ cce, cce ∈ node.totalMask ↔ takenIn tree cce ∨ node.Covers cce) ∧
      ∀ cce, node.Covers cce → ¬ takenIn tree cce := by
  obtain ⟨current, _, h⟩ := bind_eq_ok.mp h
  obtain ⟨total, masks, h⟩ := bind_eq_ok.mp h
  obtain ⟨outcome, reserved, h⟩ := bind_eq_ok.mp h
  have taken := mem_cumulativeMask masks
  cases outcome with
  | none => simp [pure, Except.pure] at h
  | some masks =>
    obtain rfl := by simpa [pure, Except.pure] using h
    obtain ⟨_, _, union, free⟩ := reserve_some reserved
    refine ⟨rfl, rfl, fun cce => ?_, fun cce covered => ?_⟩
    · rw [taken]
      exact union cce
    · rw [taken]
      exact free cce covered.1 covered.2

end Node

namespace CoresetRegion
variable {cfg : CoresetCfg} {st st' : CoresetRegion} {record : AllocRecord} {records : List AllocRecord}
  {tree : List TreeNode}

def candidates : Backtrack.Tables search CoresetCfg Nat where
  context := CoresetRegion.cfg
  table cfg record := (cfg.getCceLocTable record).map toList
  make := CoresetCfg.candidateNode
  push := pushNode
  bound := maxNofCandidatesNr
  table_le h := by
    obtain ⟨cceLocs, _, rfl⟩ := map_eq_ok.mp h
    exact cceLocs.length_le
  make_index h := (candidateNode_ok h).1
  push_tree _ _ := rfl
  push_context _ _ := rfl
  place record st start := by
    change allocDfsNode record st start = _
    unfold allocDfsNode
    cases st.cfg.getCceLocTable record with
    | error fault => rfl
    | ok cceLocs => exact bind_pure_comp (m := Except Fault) (Option.map st.pushNode) _

def assignments : Backtrack.Space search CoresetCfg where
  context := CoresetRegion.cfg
  Child := candidates.Child
  Later _ _ := False
  height _ := 0
  bound := maxNofCandidatesNr
  index_lt := Backtrack.Tables.index_lt
  index_inj := Backtrack.Tables.index_inj
  place_none := Backtrack.Tables.place_none (T := candidates)
  place_some := Backtrack.Tables.place_child (T := candidates)
  pop _ := ⟨rfl, rfl⟩
  save st := by
    change (if _ then _ else _ : CoresetRegion).dfsTree = _ ∧ (if _ then _ else _ : CoresetRegion).cfg = _
    split <;> exact ⟨rfl, rfl⟩
  ascend_true _ more := by contradiction
  ascend_false _ _ later := later
  later_trans later _ := later

theorem placed_push {start : Nat} (placed : allocDfsNode record st start = .ok (some st')) :
    ∃ node, st' = st.pushNode node := by
  obtain ⟨node, rfl, _⟩ := Backtrack.Tables.place_some (T := candidates) placed
  exact ⟨node, rfl⟩

theorem valid_cons {top : TreeNode} : assignments.Valid cfg records (top :: tree) ↔
    (∃ record, records[tree.length]? = some record ∧ candidates.Child cfg record tree top) ∧
      assignments.Valid cfg records tree :=
  Iff.rfl

theorem masks_of_valid (h : assignments.Valid cfg records tree) :
    (∀ cce, takenIn tree cce ↔ ∃ node ∈ tree, node.Covers cce) ∧ tree.Pairwise TreeNode.Apart := by
  induction tree with
  | nil => simp [takenIn]
  | cons top rest ih =>
    obtain ⟨⟨_, _, _, _, _, _, _, made⟩, below⟩ := valid_cons.mp h
    obtain ⟨masks, apart⟩ := ih below
    obtain ⟨_, _, union, free⟩ := candidateNode_ok made
    constructor
    · intro cce
      simp only [takenIn, List.head?_cons, Option.mem_def, Option.some.injEq, exists_eq_left', mem_cons,
        exists_eq_or_imp]
      rw [union cce, masks cce]
      exact or_comm
    · refine List.pairwise_cons.mpr ⟨fun node mem cce both => ?_, apart⟩
      exact free cce both.1 ((masks cce).mpr ⟨node, mem, both.2⟩)

theorem candidates_of_valid {k : Nat} {node : TreeNode} (h : assignments.Valid cfg records tree)
    (located : records[k]? = some record) (at_level : tree.reverse[k]? = some node) : cfg.Candidate record node := by
  induction tree with
  | nil => simp at at_level
  | cons top rest ih =>
    obtain ⟨⟨record', located', entries, i, ncce, table, position, made⟩, below⟩ := valid_cons.mp h
    obtain ⟨cceLocs, locs, rfl⟩ := map_eq_ok.mp table
    rw [reverse_cons] at at_level
    rcases Nat.lt_or_ge k rest.length with lower | upper
    · rw [List.getElem?_append_left (by simpa using lower)] at at_level
      exact ih below at_level
    · rw [List.getElem?_append_right (by simpa using upper)] at at_level
      obtain ⟨bound, rfl⟩ := List.getElem?_eq_some_iff.mp at_level
      simp only [length_reverse, length_singleton] at bound
      obtain rfl : k = rest.length := by omega
      obtain rfl := Option.some.inj (located.symm.trans located')
      simp only [length_reverse, Nat.sub_self, getElem_cons_zero]
      obtain ⟨_, position', _⟩ := candidateNode_ok made
      rw [CoresetCfg.Candidate, position']
      exact ⟨rfl, cceLocs, locs, mem_of_getElem? position⟩

structure Settled (st : CoresetRegion) : Prop where
  valid : assignments.Valid st.cfg st.dciList st.dfsTree
  full : st.dfsTree.length = st.dciList.length

def Located (st : CoresetRegion) : Prop := st.locations = (st.dfsTree.map TreeNode.dciPos).reverse

structure Exploring (st₀ st : CoresetRegion) : Prop where
  cfg : st.cfg = st₀.cfg
  dciList : st.dciList = st₀.dciList
  locations_length : st.locations.length = st₀.dciList.length + 1
  locations : (st.dfsTree.map TreeNode.dciPos).reverse <+: st.locations

theorem Exploring.place {st₀ : CoresetRegion} {start : Nat} (exploring : Exploring st₀ st)
    (level : st.dfsTree.length ≤ st₀.dciList.length) (placed : allocDfsNode record st start = .ok (some st')) :
    Exploring st₀ st' := by
  obtain ⟨node, rfl⟩ := placed_push placed
  refine ⟨exploring.cfg, exploring.dciList, by simpa [pushNode] using exploring.locations_length, ?_⟩
  obtain ⟨more, split⟩ := exploring.locations
  have length := exploring.locations_length
  rw [← split, length_append, length_reverse, length_map] at length
  cases more with
  | nil =>
    simp only [length_nil] at length
    omega
  | cons old more =>
    unfold pushNode
    rw [← split]
    simp

theorem Exploring.pop {st₀ : CoresetRegion} (exploring : Exploring st₀ st) : Exploring st₀ (search.pop st) := by
  refine ⟨exploring.cfg, exploring.dciList, exploring.locations_length, ?_⟩
  refine List.IsPrefix.trans ?_ exploring.locations
  exact List.reverse_prefix.mpr ((tail_suffix st.dfsTree).map TreeNode.dciPos)

structure Saved (st₀ st : CoresetRegion) : Prop where
  cfg : st.cfg = st₀.cfg
  dciList : st.dciList = st₀.dciList
  saved : st.savedDfsTree = st₀.dfsTree

theorem saved_save {st₀ : CoresetRegion} (full : st₀.dfsTree.length = st₀.dciList.length)
    (level : st.dfsTree.length = st₀.dciList.length) (saved : Saved st₀ st) : Saved st₀ (search.save st) := by
  change Saved st₀ (if _ then _ else _)
  split
  · rename_i empty
    refine ⟨saved.cfg, saved.dciList, ?_⟩
    rw [List.isEmpty_iff, saved.saved] at empty
    rw [empty] at full
    rw [empty]
    exact List.eq_nil_of_length_eq_zero (level.trans full.symm)
  · exact saved

def begin (st : CoresetRegion) : CoresetRegion :=
  { st with savedDfsTree := [], locations := st.locations ++ [⟨0, 0⟩] }

theorem saved_begin : Saved st (search.save st.begin) := ⟨rfl, rfl, rfl⟩

section Allocate
variable {rounds : Nat} (settled : Settled st)
include settled

theorem Settled.valid_begin : assignments.Valid (assignments.context st.begin) st.dciList (search.tree st.begin) :=
  settled.valid

theorem Settled.full_begin : (search.tree st.begin).length = st.dciList.length := settled.full

theorem Settled.exploring (located : Located st) : Exploring st st.begin := by
  refine ⟨rfl, rfl, ?_, ?_⟩
  · rw [begin, located]
    simp [settled.full]
  · rw [begin, located]
    exact prefix_append _ _

theorem Settled.allocated (run : st.allocPdcch rounds record = .ok (some (true, st'))) :
    Settled st' ∧ (Located st → Located st') := by
  unfold allocPdcch at run
  split at run
  · contradiction
  · simp at run
  · rename_i found search_run
    have kept := find_invariant assignments (P := fun u => u.dciList = st.dciList)
      (fun _ _ _ _ _ holds placed => by
        obtain ⟨_, rfl⟩ := placed_push placed
        exact holds)
      (fun _ _ holds => holds) (fun _ _ holds => holds)
      (fun _ _ holds => by
        change (if _ then _ else _ : CoresetRegion).dciList = _
        split <;> exact holds)
      settled.valid_begin settled.full_begin rfl search_run
    obtain ⟨valid, length⟩ :=
      (find_spec (T := assignments) search_run settled.valid_begin settled.full_begin).1 rfl
    split at run
    · simp only [Except.ok.injEq, Option.some.injEq, Prod.mk.injEq, true_and] at run
      subst run
      refine ⟨⟨by rw [kept]; exact valid, ?_⟩, fun located => ?_⟩
      · dsimp only
        rw [kept, length_append]
        exact length
      · have exploring := find_invariant assignments (P := Exploring st)
          (fun _ _ _ _ level holds placed => holds.place level placed) (fun _ _ holds => holds.pop)
          (fun _ _ holds => holds)
          (fun _ _ holds => by
            change Exploring st (if _ then _ else _)
            split
            · exact ⟨holds.cfg, holds.dciList, holds.locations_length, holds.locations⟩
            · exact holds)
          settled.valid_begin settled.full_begin (settled.exploring located) search_run
        refine (exploring.locations.eq_of_length ?_).symm
        rw [exploring.locations_length, length_reverse, length_map]
        exact length
    · contradiction
  · simp at run

theorem Settled.refused (run : st.allocPdcch rounds record = .ok (some (false, st'))) :
    st'.cfg = st.cfg ∧ st'.dciList = st.dciList ∧ st'.dfsTree = st.dfsTree := by
  unfold allocPdcch at run
  split at run
  · contradiction
  · simp at run
  · split at run
    · simp at run
    · contradiction
  · rename_i found search_run
    have saved := find_failed assignments (P := Saved st)
      (fun _ _ _ _ _ holds placed => by
        obtain ⟨_, rfl⟩ := placed_push placed
        exact ⟨holds.cfg, holds.dciList, holds.saved⟩)
      (fun _ _ holds => ⟨holds.cfg, holds.dciList, holds.saved⟩) (fun _ _ holds => holds)
      (fun _ level holds => saved_save settled.full level holds) settled.valid_begin saved_begin search_run
    simp only [Except.ok.injEq, Option.some.injEq, Prod.mk.injEq, true_and] at run
    subst run
    exact ⟨saved.cfg, saved.dciList, saved.saved⟩

end Allocate

theorem Settled.removed (settled : Settled st) (run : st.remLastPdcch = .ok st') :
    Settled st' ∧ (Located st → Located st') := by
  unfold remLastPdcch at run
  split at run
  · contradiction
  · rename_i nonempty
    obtain rfl := Except.ok.inj run
    have full := settled.full
    have short : st.dfsTree.tail.length = st.dciList.dropLast.length := by simp [full]
    refine ⟨⟨?_, short⟩, fun located => ?_⟩
    · have below := settled.valid.of_suffix (tail_suffix st.dfsTree)
      exact below.restrict (List.dropLast_prefix _) short.le
    · rw [Located] at located ⊢
      rw [located, map_tail, ← dropLast_reverse]

/-- The accepted PDCCHs and the new one fit together, at positions that the search has not left behind. -/
def Fits (st : CoresetRegion) (record : AllocRecord) : Prop :=
  ∃ tree, assignments.Valid st.cfg (st.dciList ++ [record]) tree ∧ tree.length = st.dciList.length + 1 ∧
    (st.dfsTree <:+ tree ∨ search.After st.dfsTree tree)

def AtRest (st : CoresetRegion) : Prop := assignments.Stuck st.cfg st.dciList st.dfsTree

def Orderly (st : CoresetRegion) : Call → Prop
  | .alloc _ record => Fits st record ∨ AtRest st
  | .remLast => True

theorem Settled.refused_locations {rounds : Nat} (settled : Settled st) (orderly : Fits st record ∨ AtRest st)
    (run : st.allocPdcch rounds record = .ok (some (false, st'))) : st'.locations = st.locations := by
  unfold allocPdcch at run
  split at run
  · contradiction
  · simp at run
  · split at run
    · simp at run
    · contradiction
  · rename_i found search_run
    simp only [Except.ok.injEq, Option.some.injEq, Prod.mk.injEq, true_and] at run
    subst run
    rcases orderly with ⟨tree, valid, length, ahead⟩ | stuck
    · have complete :=
        (find_spec (T := assignments) search_run settled.valid_begin settled.full_begin).2
      have found := complete st.cfg tree valid (by omega)
        (ahead.imp (fun below => ⟨rfl, below⟩) (fun after => .inl ⟨rfl, after⟩))
      exact absurd found.1 (by simp)
    · have resting : assignments.Stuck (assignments.context st.begin) st.dciList (search.tree st.begin) := stuck
      have kept := find_stuck (P := fun u : CoresetRegion => u.locations = st.begin.locations)
        resting (fun _ _ later => later) settled.valid_begin (fun _ _ holds => holds) (fun _ _ holds => holds) rfl search_run
      rw [kept, begin, dropLast_concat]

theorem Settled.step {call : Call} (settled : Settled st) (next : st.step call = some st') :
    Settled st' ∧ (Located st → Orderly st call → Located st') := by
  cases call with
  | alloc rounds record =>
    unfold CoresetRegion.step at next
    dsimp only at next
    split at next
    · rename_i found st1 run
      obtain rfl := Option.some.inj next
      cases found with
      | true =>
        obtain ⟨settled', located'⟩ := settled.allocated run
        exact ⟨settled', fun located _ => located' located⟩
      | false =>
        obtain ⟨cfg, dciList, dfsTree⟩ := settled.refused run
        refine ⟨⟨by rw [cfg, dciList, dfsTree]; exact settled.valid, by rw [dciList, dfsTree]; exact settled.full⟩,
          fun located orderly => ?_⟩
        rw [Located, settled.refused_locations orderly run, dfsTree]
        exact located
    · contradiction
  | remLast =>
    unfold CoresetRegion.step at next
    dsimp only at next
    split at next
    · rename_i run
      obtain rfl := Option.some.inj next
      obtain ⟨settled', located'⟩ := settled.removed run
      exact ⟨settled', fun located _ => located' located⟩
    · contradiction

structure Sound (st : CoresetRegion) : Prop where
  candidates : List.Forall₂ st.cfg.Candidate st.dciList st.dfsTree.reverse
  disjoint : st.dfsTree.Pairwise TreeNode.Apart

theorem Settled.sound (settled : Settled st) : Sound st := by
  refine ⟨?_, (masks_of_valid settled.valid).2⟩
  refine List.forall₂_iff_get.mpr ⟨by rw [length_reverse, settled.full], fun k lower upper => ?_⟩
  exact candidates_of_valid settled.valid (List.getElem?_eq_getElem lower) (List.getElem?_eq_getElem upper)

theorem settled_reset : Settled (reset cfg) := ⟨trivial, rfl⟩

structure Agreement (st : CoresetRegion) : Prop extends Sound st where
  located : Located st

theorem agreement_of_reaches (run : Reaches step Orderly (reset cfg) st) :
    Agreement st ∧ ∀ rounds record st', Orderly st (.alloc rounds record) →
      st.allocPdcch rounds record = .ok (some (false, st')) → st'.locations = st.locations := by
  obtain ⟨settled, located⟩ := run.invariant (P := fun u => Settled u ∧ Located u) ⟨settled_reset, rfl⟩
    fun _ _ _ holds orderly next => by
      obtain ⟨settled, located⟩ := holds.1.step next
      exact ⟨settled, located holds.2 orderly⟩
  exact ⟨⟨settled.sound, located⟩, fun _ _ _ orderly refused => settled.refused_locations orderly refused⟩

section Runs

def oneSlotCfg : CoresetCfg :=
  { duration := 2, nofFreqRes := 1, slotIdx := 0, rarCceList := [], commonCceList := [] }

def ueAt (rnti aggrIdx : Nat) (positions : PdcchCcePosList) : AllocRecord :=
  let none : PdcchCcePosList := ⟨[], Nat.zero_le _⟩
  { rntiType := .c, aggrIdx, ssId := 0, isDl := true,
    ue := some { rnti, ccePositionsList := [[List.replicate aggrIdx none ++ [positions]]], ssIdToCceIdx := [0] } }

def oneCce : AllocRecord := ueAt 0x46 0 ⟨[0, 1], by decide⟩
def onlyFirstCce : AllocRecord := ueAt 0x46 0 ⟨[0], by decide⟩
def bothCces : AllocRecord := ueAt 0x47 1 ⟨[0], by decide⟩

def firstCceTaken : CoresetRegion :=
  { cfg := oneSlotCfg, dciList := [onlyFirstCce], dfsTree := [⟨0x46, 0, ⟨0, 0⟩, ⟨2, 1⟩, ⟨2, 1⟩⟩],
    locations := [⟨0, 0⟩] }

theorem firstCceTaken_atRest : AtRest firstCceTaken := by
  rintro node rest record _ located node' ⟨entries, i, ncce, table, position, made⟩
  obtain rfl : onlyFirstCce = record := by
    have mem := mem_of_getElem? located
    exact (List.mem_singleton.mp mem).symm
  have only : (oneSlotCfg.getCceLocTable onlyFirstCce).map toList = .ok [0] := rfl
  obtain rfl := Except.ok.inj (only.symm.trans table)
  have bound := (List.getElem?_eq_some_iff.mp position).1
  change node'.dciPosIdx ≤ _
  rw [(candidateNode_ok made).1]
  simp only [length_singleton] at bound
  omega

theorem agreement_of_reaches_restingSlot :
    Reaches step Orderly (reset oneSlotCfg) firstCceTaken ∧ Agreement firstCceTaken ∧
      firstCceTaken.allocPdcch 2 bothCces = .ok (some (false, firstCceTaken)) := by
  have first : (reset oneSlotCfg).step (.alloc 1 onlyFirstCce) = some firstCceTaken := by decide +kernel
  have refused : firstCceTaken.allocPdcch 2 bothCces = .ok (some (false, firstCceTaken)) := by decide +kernel
  have orderly : Orderly (reset oneSlotCfg) (.alloc 1 onlyFirstCce) :=
    Or.inr fun _ _ _ inside => by simp [reset] at inside
  have run := Reaches.tail (.refl : Reaches step Orderly (reset oneSlotCfg) _) orderly first
  have again : firstCceTaken.step (.alloc 2 bothCces) = some firstCceTaken := by decide +kernel
  have atRest : Orderly firstCceTaken (.alloc 2 bothCces) := Or.inr firstCceTaken_atRest
  have run' := Reaches.tail run atRest again
  exact ⟨run', (agreement_of_reaches run').1, refused⟩

theorem crowdedSlot_disagrees :
    ∃ st, Reaches step (fun _ _ => True) (reset oneSlotCfg) st ∧ st.dciList = [oneCce] ∧
      st.locations = [⟨0, 1⟩] ∧ st.dfsTree.map TreeNode.dciPos = [⟨0, 0⟩] ∧ ¬ Agreement st := by
  have calls : Lib.runAllowed step (fun _ _ => true) (reset oneSlotCfg) [.alloc 3 oneCce, .alloc 3 bothCces] =
      some { cfg := oneSlotCfg, dciList := [oneCce], dfsTree := [⟨0x46, 0, ⟨0, 0⟩, ⟨2, 1⟩, ⟨2, 1⟩⟩],
             locations := [⟨0, 1⟩] } := by decide +kernel
  refine ⟨_, (Lib.reaches_of_runAllowed _ calls).mono fun _ _ _ => trivial, rfl, rfl, rfl, fun agreement => ?_⟩
  have located := agreement.located
  rw [Located] at located
  exact absurd located (by decide)

end Runs

end CoresetRegion
end IsrRan.Mac.Nr
