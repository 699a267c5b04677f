import IsrRan.Adt.Bounded
import IsrRan.Lib.Backtrack
import IsrRan.Lib.Transition
import Mathlib.Data.List.Forall2

namespace IsrRan.Mac.Lte
open Lib List BoundedBitset

/-! The PUCCH resource of a HARQ-ACK, as the PHY derives it. -/

inductive PucchFormat where
  | format1 | format1A | format1B | format2 | format2A | format2B | format3 | error
  deriving DecidableEq, Repr

structure PucchCfgCommon where
  format : PucchFormat
  deltaPucchShift : Nat
  nRb2 : Nat
  nCs : Nat
  nPucch1 : Nat
  shift_pos : 0 < deltaPucchShift
  shift_le : deltaPucchShift ≤ 3
  deriving DecidableEq, Repr

structure PucchCfgSr where
  srConfigured : Bool
  iSr : Nat
  nPucchSr : Nat
  deriving DecidableEq, Repr

def nre : Nat := 12

def pucchM (cfg : PucchCfgCommon) (nPucch : Nat) (cpNorm : Bool) : Nat :=
  match cfg.format with
  | .format1 | .format1A | .format1B =>
    let c := if cpNorm then 3 else 2
    if nPucch ≥ c * cfg.nCs / cfg.deltaPucchShift then
      (nPucch - c * cfg.nCs / cfg.deltaPucchShift) / (c * nre / cfg.deltaPucchShift) + cfg.nRb2 + (cfg.nCs + 7) / 8
    else cfg.nRb2
  | .format2 | .format2A | .format2B => nPucch / nre
  | .format3 => nPucch / 5
  | .error => 0

def pucchNPrb (cfg : PucchCfgCommon) (nPucch : Nat) (cpNorm : Bool) (nofPrb ns : Nat) : Nat :=
  let m := pucchM cfg nPucch cpNorm
  if (m + ns) % 2 ≠ 0 then u32Sub (u32Sub nofPrb 1) (m / 2) else m / 2

def ueUlSrSendTti (cfg : PucchCfgSr) (currentTti : Nat) : Int :=
  let period : Option (Nat × Nat) :=
    if cfg.iSr < 5 then some (5, cfg.iSr)
    else if cfg.iSr < 15 then some (10, cfg.iSr - 5)
    else if cfg.iSr < 35 then some (20, cfg.iSr - 15)
    else if cfg.iSr < 75 then some (40, cfg.iSr - 35)
    else if cfg.iSr < 155 then some (80, cfg.iSr - 75)
    else if cfg.iSr < 157 then some (2, cfg.iSr - 155)
    else if cfg.iSr = 157 then some (1, cfg.iSr - 157)
    else none
  if !cfg.srConfigured then 0
  else
    match period with
    | none => -1
    | some (srPeriodicity, srNOffset) =>
      if currentTti ≥ srNOffset ∧ (currentTti - srNOffset) % srPeriodicity = 0 then 1 else 0

def isPucchSrCollision (cfg : PucchCfgSr) (ttiTxDlAck n1Pucch : Nat) : Bool :=
  if cfg.srConfigured ∧ ueUlSrSendTti cfg ttiTxDlAck ≠ 0 then n1Pucch == cfg.nPucchSr else false

def toTxDl (tti : Nat) : Nat := (tti + 4) % 10240
def toTxDlAck (tti : Nat) : Nat := (tti + 8) % 10240
def sfIdx (tti : Nat) : Nat := tti % 10

def invalidRnti : Nat := 0x0
def maxNofCces : Nat := 128
def maxNofPrbs : Nat := 100
def cceListMaxSize : Nat := 6

abbrev CcePositionList := BoundedVector Nat cceListMaxSize
abbrev CceCfiPositionTable := List CcePositionList
abbrev CceSfPositionTable := List CceCfiPositionTable
abbrev CceFramePositionTable := List CceSfPositionTable

structure SchedUe where
  rnti : Nat
  pucchCfg : PucchCfgSr
  dciLocations : CceFramePositionTable
  deriving DecidableEq, Repr

structure SchedCellParams where
  nofPrb : Nat
  cpNorm : Bool
  pucchCfgCommon : PucchCfgCommon
  commonLocations : CceSfPositionTable
  rarLocations : CceFramePositionTable
  nofCceTable : List Nat
  minNofCtrlSymbols : Nat
  maxNofCtrlSymbols : Nat
  pucchMuxEnabled : Bool
  pucchHarqMaxRb : Int
  nofPrb_le : nofPrb ≤ maxNofPrbs
  nofCce_le : ∀ n ∈ nofCceTable, n ≤ maxNofCces
  deriving DecidableEq, Repr

inductive AllocType where
  | dlBc | dlPcch | dlRar | dlPdcchOrder | dlData | ulData
  deriving DecidableEq, Repr

def AllocType.isDlCtrlAlloc : AllocType → Bool
  | .dlBc | .dlPcch | .dlRar | .dlPdcchOrder => true
  | .dlData | .ulData => false

structure DciLocation where
  L : Nat
  ncce : Nat
  deriving DecidableEq, Repr

structure AllocRecord where
  puschUci : Bool
  aggrIdx : Nat
  allocType : AllocType
  user : Option SchedUe
  deriving DecidableEq, Repr

structure TreeNode where
  pucchNPrb : Int := -1
  rnti : Nat := invalidRnti
  dciPosIdx : Nat
  dciPos : DciLocation
  totalMask : BoundedBitset
  currentMask : BoundedBitset
  totalPucchMask : BoundedBitset
  deriving DecidableEq, Repr

def elementAt {α : Type} (array : List α) (i : Nat) : Except Fault α :=
  match array[i]? with
  | some a => .ok a
  | none => .error .undefinedBehaviour

def SchedUe.getLocations (ue : SchedUe) (cfi sfIdx : Nat) : Except Fault CceCfiPositionTable := do
  let bySf ← elementAt ue.dciLocations sfIdx
  elementAt bySf (if 0 < cfi ∧ cfi ≤ 3 then cfi - 1 else 0)

structure Pdcch where
  cc : SchedCellParams
  ttiRx : Nat
  cfix : Nat
  deriving DecidableEq, Repr

namespace Pdcch
variable (ch : Pdcch)

def getCceLocTable (record : AllocRecord) : Except Fault CceCfiPositionTable :=
  match record.allocType with
  | .dlBc | .dlPcch | .dlPdcchOrder => elementAt ch.cc.commonLocations ch.cfix
  | .dlRar => do elementAt (← elementAt ch.cc.rarLocations (sfIdx (toTxDl ch.ttiRx))) ch.cfix
  | .dlData | .ulData =>
    match record.user with
    | none => .error .undefinedBehaviour
    | some user => user.getLocations (ch.cfix + 1) (sfIdx (toTxDl ch.ttiRx))

def dciPosList (record : AllocRecord) : Except Fault CcePositionList := do
  elementAt (← ch.getCceLocTable record) record.aggrIdx

def nofCces : Except Fault Nat := elementAt ch.cc.nofCceTable ch.cfix

def nPucch (ncce : Nat) : Nat := (ncce + ch.cc.pucchCfgCommon.nPucch1) % 2 ^ 16

def harqPrb (ncce : Nat) : Int :=
  let prb := pucchNPrb ch.cc.pucchCfgCommon (ch.nPucch ncce) ch.cc.cpNorm ch.cc.nofPrb 0 % 256
  if prb < 128 then prb else prb - 256

def lowRb (prb : Int) : Int := if prb < (ch.cc.nofPrb : Int) / 2 then prb else ch.cc.nofPrb - prb - 1

def outsideHarqRegion (prb : Int) : Bool := ch.cc.pucchHarqMaxRb > 0 && ch.lowRb prb ≥ ch.cc.pucchHarqMaxRb

/-- A `bounded_bitset` position from an `int8_t`: a negative one is far out of bounds. -/
def bitPos (prb : Int) : Nat := (prb % 2 ^ 64).toNat

def prbTaken (totalPucchMask : BoundedBitset) (prb : Int) : Except Fault Bool :=
  if ch.cc.pucchMuxEnabled then .ok false else totalPucchMask.test (bitPos prb)

/-- The value for `pucch_n_prb`, `none` when the position has to be skipped. -/
def pucchPrb (record : AllocRecord) (totalPucchMask : BoundedBitset) (ncce : Nat) : Except Fault (Option Int) :=
  if record.allocType = .dlData ∧ !record.puschUci then
    match record.user with
    | none => .error .undefinedBehaviour
    | some user =>
      if isPucchSrCollision user.pucchCfg (toTxDlAck ch.ttiRx) (ch.nPucch ncce) then .ok none
      else do
        if ← ch.prbTaken totalPucchMask (ch.harqPrb ncce) then return none
        if ch.outsideHarqRegion (ch.harqPrb ncce) then return none
        return some (ch.harqPrb ncce)
  else .ok (some (-1))

def cumulativeMasks : List TreeNode → Except Fault (BoundedBitset × BoundedBitset)
  | [] => do
    let totalMask ← BoundedBitset.resized maxNofCces (← ch.nofCces)
    let totalPucchMask ← BoundedBitset.resized maxNofPrbs ch.cc.nofPrb
    return (totalMask, totalPucchMask)
  | back :: _ => .ok (back.totalMask, back.totalPucchMask)

def markPrb (totalPucchMask : BoundedBitset) (prb : Int) : Except Fault BoundedBitset :=
  if prb ≥ 0 then totalPucchMask.set (bitPos prb) else .ok totalPucchMask

def candidateNode (record : AllocRecord) (tree : List TreeNode) (dciPosIdx ncce : Nat) :
    Except Fault (Option TreeNode) := do
  let currentMask ← BoundedBitset.resized maxNofCces (← ch.nofCces)
  let (totalMask, totalPucchMask) ← ch.cumulativeMasks tree
  match ← ch.pucchPrb record totalPucchMask ncce with
  | none => return none
  | some pucchNPrb =>
    match ← totalMask.reserve currentMask ncce (ncce + 2 ^ record.aggrIdx) with
    | none => return none
    | some (totalMask, currentMask) =>
      let totalPucchMask ← markPrb totalPucchMask pucchNPrb
      let rnti := record.user.elim invalidRnti (·.rnti)
      return some
        { pucchNPrb, rnti, dciPosIdx, dciPos := ⟨record.aggrIdx, ncce⟩, totalMask, currentMask, totalPucchMask }

end Pdcch

structure SfCchAllocator where
  cc : SchedCellParams
  ttiRx : Nat
  currentCfix : Nat
  currentMaxCfix : Nat
  lastDciDfs : List TreeNode := []
  tempDciDfs : List TreeNode := []
  dciRecordList : List AllocRecord := []
  deriving DecidableEq, Repr

namespace SfCchAllocator

def newTti (cc : SchedCellParams) (ttiRx : Nat) : SfCchAllocator :=
  { cc, ttiRx, currentCfix := u32Sub cc.minNofCtrlSymbols 1, currentMaxCfix := u32Sub cc.maxNofCtrlSymbols 1 }

def pdcch (st : SfCchAllocator) : Pdcch := ⟨st.cc, st.ttiRx, st.currentCfix⟩

def pushNode (st : SfCchAllocator) (node : TreeNode) : SfCchAllocator :=
  { st with lastDciDfs := node :: st.lastDciDfs }

def allocDfsNode (record : AllocRecord) (st : SfCchAllocator) (startDciIdx : Nat) :
    Except Fault (Option SfCchAllocator) := do
  let dciPosList ← st.pdcch.dciPosList record
  let node ← Backtrack.firstFrom (st.pdcch.candidateNode record st.lastDciDfs) dciPosList.toList startDciIdx
  return node.map st.pushNode

def search : Backtrack SfCchAllocator TreeNode AllocRecord Fault where
  tree := lastDciDfs
  index := TreeNode.dciPosIdx
  place := allocDfsNode
  pop st := { st with lastDciDfs := st.lastDciDfs.tail }
  ascend st := (st.currentCfix + 1 ≤ st.currentMaxCfix, { st with currentCfix := st.currentCfix + 1 })
  save st := if st.tempDciDfs.isEmpty then { st with tempDciDfs := st.lastDciDfs } else st

def widestCfix (st : SfCchAllocator) (record : AllocRecord) : Nat → Nat → Nat → Except Fault Nat
  | 0, _, cfix => .ok cfix
  | cfixTmp + 1, nofLocs, cfix =>
    if cfixTmp + 1 > st.currentCfix then
      match Pdcch.dciPosList ⟨st.cc, st.ttiRx, cfixTmp + 1⟩ record with
      | .error fault => .error fault
      | .ok locs =>
        if locs.toList.length > nofLocs then st.widestCfix record cfixTmp locs.toList.length (cfixTmp + 1)
        else .ok cfix
    else .ok cfix

def firstCfix (st : SfCchAllocator) (record : AllocRecord) : Except Fault Nat :=
  if record.allocType.isDlCtrlAlloc ∧ st.dciRecordList.length = 0 ∧ st.cc.nofPrb ≤ 25 ∧
      st.currentMaxCfix > st.currentCfix then
    st.widestCfix record st.currentMaxCfix 0 st.currentCfix
  else .ok st.currentCfix

def allocDci (rounds : Nat) (record : AllocRecord) (st : SfCchAllocator) :
    Except Fault (Option (Bool × SfCchAllocator)) :=
  match st.firstCfix record with
  | .error fault => .error fault
  | .ok cfix =>
    match search.find st.dciRecordList record rounds rounds { st with tempDciDfs := [], currentCfix := cfix } with
    | .error fault => .error fault
    | .ok none => .ok none
    | .ok (some (true, st')) => .ok (some (true, { st' with
        dciRecordList := st'.dciRecordList ++ [record]
        currentMaxCfix := if record.allocType.isDlCtrlAlloc then st'.currentCfix else st'.currentMaxCfix }))
    | .ok (some (false, st')) => .ok (some (false, { st' with
        lastDciDfs := st'.tempDciDfs, tempDciDfs := st'.lastDciDfs, currentCfix := st.currentCfix }))

/-- A call with the rounds that its search may take; a run ends with a failed assertion or undefined behaviour. -/
def step (st : SfCchAllocator) (call : Nat × AllocRecord) : Option SfCchAllocator :=
  match st.allocDci call.1 call.2 with
  | .ok (some (_, st')) => some st'
  | _ => none

end SfCchAllocator

abbrev Grant := AllocRecord × Nat

def AllocRecord.needsPucch (record : AllocRecord) : Prop := record.allocType = .dlData ∧ !record.puschUci

instance (record : AllocRecord) : Decidable record.needsPucch := inferInstanceAs (Decidable (_ ∧ _))

def Grant.Covers (g : Grant) (cce : Nat) : Prop := g.2 ≤ cce ∧ cce < g.2 + 2 ^ g.1.aggrIdx

namespace Pdcch
variable (ch : Pdcch)

def Candidate (g : Grant) : Prop :=
  ∃ dciPosList nofCces, ch.dciPosList g.1 = .ok dciPosList ∧ g.2 ∈ dciPosList.toList ∧
    ch.nofCces = .ok nofCces ∧ g.2 + 2 ^ g.1.aggrIdx ≤ nofCces

/-- The HARQ-ACK has a PRB of its cell, clear of the user's own SR and inside the HARQ region. -/
def Usable (g : Grant) : Prop :=
  g.1.needsPucch → ∃ user, g.1.user = some user ∧
    isPucchSrCollision user.pucchCfg (toTxDlAck ch.ttiRx) (ch.nPucch g.2) = false ∧
    ch.outsideHarqRegion (ch.harqPrb g.2) = false ∧
    ch.harqPrb g.2 < ch.cc.nofPrb ∧ (ch.cc.pucchMuxEnabled = false → 0 ≤ ch.harqPrb g.2)

def Clear (a b : Grant) : Prop :=
  (∀ cce, ¬ (a.Covers cce ∧ b.Covers cce)) ∧
    (ch.cc.pucchMuxEnabled = false → a.1.needsPucch → b.1.needsPucch → ch.harqPrb a.2 ≠ ch.harqPrb b.2)

structure Assignment (grants : List Grant) : Prop where
  candidate : ∀ g ∈ grants, ch.Candidate g
  clear : grants.Pairwise ch.Clear

structure NodeAt (g : Grant) (node : TreeNode) : Prop where
  dciPos : node.dciPos = ⟨g.1.aggrIdx, g.2⟩
  pucchNPrb : node.pucchNPrb = if g.1.needsPucch then ch.harqPrb g.2 else -1

variable {ch} {record : AllocRecord} {tree : List TreeNode} {dciPosIdx ncce : Nat} {node : TreeNode}
  {masks : BoundedBitset × BoundedBitset}

theorem nofCces_le {n : Nat} (h : ch.nofCces = .ok n) : n ≤ maxNofCces := by
  unfold nofCces elementAt at h
  split at h
  · rename_i located
    obtain rfl := Except.ok.inj h
    exact ch.cc.nofCce_le _ (mem_of_getElem? located)
  · contradiction

theorem harqPrb_range (ncce : Nat) : -128 ≤ ch.harqPrb ncce ∧ ch.harqPrb ncce < 128 := by
  unfold harqPrb
  dsimp only
  split <;> omega

theorem bitPos_inj {a b : Nat} (pos : 0 ≤ ch.harqPrb a) (pos' : 0 ≤ ch.harqPrb b)
    (same : bitPos (ch.harqPrb a) = bitPos (ch.harqPrb b)) : ch.harqPrb a = ch.harqPrb b := by
  have rangeA := ch.harqPrb_range a
  have rangeB := ch.harqPrb_range b
  unfold bitPos at same
  omega

theorem bitPos_lt {a n : Nat} (pos : 0 ≤ ch.harqPrb a) : bitPos (ch.harqPrb a) < n ↔ ch.harqPrb a < n := by
  have range := ch.harqPrb_range a
  unfold bitPos
  omega

theorem harqPrb_nonneg {a : Nat} (bound : bitPos (ch.harqPrb a) < ch.cc.nofPrb) : 0 ≤ ch.harqPrb a := by
  have range := ch.harqPrb_range a
  have small := ch.cc.nofPrb_le
  have limit : maxNofPrbs = 100 := rfl
  unfold bitPos at bound
  omega

theorem pucchPrb_some {totalPucchMask : BoundedBitset} {prb : Int}
    (h : ch.pucchPrb record totalPucchMask ncce = .ok (some prb)) :
    prb = (if record.needsPucch then ch.harqPrb ncce else -1) ∧
      (record.needsPucch → ∃ user, record.user = some user ∧
        isPucchSrCollision user.pucchCfg (toTxDlAck ch.ttiRx) (ch.nPucch ncce) = false ∧
        ch.outsideHarqRegion (ch.harqPrb ncce) = false ∧
        (ch.cc.pucchMuxEnabled = false → bitPos (ch.harqPrb ncce) < totalPucchMask.size ∧
          bitPos (ch.harqPrb ncce) ∉ totalPucchMask)) := by
  unfold pucchPrb at h
  split at h
  · rename_i needs
    have needed : record.needsPucch := needs
    split at h
    · contradiction
    · rename_i user owner
      split at h
      · simp at h
      · rename_i noCollision
        obtain ⟨collides, tested, h⟩ := bind_eq_ok.mp h
        split at h
        · simp [pure, Except.pure] at h
        · rename_i free
          split at h
          · simp [pure, Except.pure] at h
          · rename_i inside
            obtain rfl : ch.harqPrb ncce = prb := by simpa [pure, Except.pure] using h
            refine ⟨by rw [if_pos needed], fun _ => ⟨user, owner, by simpa using noCollision, by simpa using inside,
              fun muxOff => ?_⟩⟩
            rw [prbTaken, muxOff, if_neg Bool.false_ne_true, BoundedBitset.test] at tested
            split at tested
            · rename_i bound
              obtain rfl := Except.ok.inj tested
              exact ⟨bound, free⟩
            · contradiction
  · rename_i no
    obtain rfl : -1 = prb := by simpa using h
    exact ⟨by rw [if_neg (show ¬ record.needsPucch from no)], fun needed => absurd needed no⟩

theorem pucchPrb_free {totalPucchMask : BoundedBitset} (size : totalPucchMask.size = ch.cc.nofPrb)
    (usable : ch.Usable (record, ncce))
    (free : ch.cc.pucchMuxEnabled = false → record.needsPucch → bitPos (ch.harqPrb ncce) ∉ totalPucchMask) :
    ch.pucchPrb record totalPucchMask ncce =
      .ok (some (if record.needsPucch then ch.harqPrb ncce else -1)) := by
  unfold pucchPrb
  by_cases needed : record.needsPucch
  · obtain ⟨user, owner, noCollision, inside, upper, lower⟩ := usable needed
    rw [if_pos (show _ ∧ _ from needed), if_pos needed, owner]
    dsimp only
    rw [noCollision]
    cases mux : ch.cc.pucchMuxEnabled with
    | true => simp [inside, bind, Except.bind, pure, Except.pure, prbTaken, mux]
    | false =>
      have bound : bitPos (ch.harqPrb ncce) < totalPucchMask.size := by
        rw [size, bitPos_lt (lower mux)]
        exact upper
      have unset : totalPucchMask.bits.testBit (bitPos (ch.harqPrb ncce)) = false :=
        Bool.eq_false_iff.mpr (free mux needed)
      simp [inside, bind, Except.bind, pure, Except.pure, prbTaken, BoundedBitset.test, bound, unset]
  · rw [if_neg (show ¬ (_ ∧ _) from needed), if_neg needed]

variable (ch) in
def TakesPrb (grants : List Grant) (pos : Nat) : Prop :=
  ∃ g ∈ grants, g.1.needsPucch ∧ 0 ≤ ch.harqPrb g.2 ∧ pos = bitPos (ch.harqPrb g.2)

variable (ch) in
structure Holds (tree : List TreeNode) (grants : List Grant) : Prop where
  nodes : List.Forall₂ ch.NodeAt grants tree.reverse
  masks : ∀ n, ch.nofCces = .ok n → ∃ masks, ch.cumulativeMasks tree = .ok masks ∧
    masks.1.size = n ∧ masks.2.size = ch.cc.nofPrb ∧
    (∀ cce, cce ∈ masks.1 ↔ ∃ g ∈ grants, g.Covers cce) ∧ ∀ pos, pos ∈ masks.2 ↔ ch.TakesPrb grants pos

theorem holds_nil : ch.Holds [] [] := by
  refine ⟨.nil, fun n size => ?_⟩
  have fits := nofCces_le size
  refine ⟨(⟨n, 0⟩, ⟨ch.cc.nofPrb, 0⟩), ?_, rfl, rfl, fun cce => ?_, fun pos => ?_⟩
  · simp [cumulativeMasks, size, BoundedBitset.resized, fits, ch.cc.nofPrb_le, bind, Except.bind, pure, Except.pure]
  · simp [mem_def]
  · simp [mem_def, TakesPrb]

theorem markPrb_ok {totalPucchMask marked : BoundedBitset} {prb : Int} (h : markPrb totalPucchMask prb = .ok marked) :
    marked.size = totalPucchMask.size ∧ (0 ≤ prb → bitPos prb < totalPucchMask.size) ∧
      ∀ pos, pos ∈ marked ↔ pos ∈ totalPucchMask ∨ 0 ≤ prb ∧ pos = bitPos prb := by
  unfold markPrb at h
  split at h
  · rename_i nonneg
    obtain ⟨bound, size, mem⟩ := BoundedBitset.set_ok h
    refine ⟨size, fun _ => bound, fun pos => ?_⟩
    rw [mem]
    exact or_congr Iff.rfl (iff_and_self.mpr fun _ => nonneg)
  · rename_i negative
    obtain rfl := Except.ok.inj h
    exact ⟨rfl, fun nonneg => absurd nonneg negative, fun pos => by simp [negative]⟩

section Place
variable {grants : List Grant} (holds : ch.Holds tree grants)
include holds

theorem Holds.placed (made : ch.candidateNode record tree dciPosIdx ncce = .ok (some node)) :
    node.dciPosIdx = dciPosIdx ∧ ch.Holds (node :: tree) (grants ++ [(record, ncce)]) ∧
      ch.Usable (record, ncce) ∧ (∀ g ∈ grants, ch.Clear g (record, ncce)) ∧
      ∃ nofCces, ch.nofCces = .ok nofCces ∧ ncce + 2 ^ record.aggrIdx ≤ nofCces := by
  obtain ⟨nofCces, size, made⟩ := bind_eq_ok.mp made
  obtain ⟨current, resized, made⟩ := bind_eq_ok.mp made
  obtain ⟨⟨totalMask, totalPucchMask⟩, cumulative, made⟩ := bind_eq_ok.mp made
  obtain ⟨masks, same, sizeCce, sizePrb, cces, prbs⟩ := holds.masks nofCces size
  obtain rfl := Except.ok.inj (same.symm.trans cumulative)
  obtain ⟨outcome, prb, made⟩ := bind_eq_ok.mp made
  cases outcome with
  | none => simp [pure, Except.pure] at made
  | some pucchNPrb =>
    obtain ⟨reserved, reserve, made⟩ := bind_eq_ok.mp made
    cases reserved with
    | none => simp [pure, Except.pure] at made
    | some total =>
      obtain ⟨marked, mark, made⟩ := bind_eq_ok.mp made
      obtain rfl := by simpa [pure, Except.pure] using made
      obtain ⟨fits, sizeTotal, union, free⟩ := reserve_some reserve
      obtain ⟨rfl, harq⟩ := pucchPrb_some prb
      obtain ⟨sizeMarked, inBounds, markedIff⟩ := markPrb_ok mark
      rw [(resized_ok resized).2.1] at fits
      refine ⟨rfl, ⟨?_, fun n size' => ?_⟩, fun needed => ?_, fun g mem => ⟨fun cce both => ?_, ?_⟩,
        nofCces, size, fits⟩
      · rw [reverse_cons]
        exact rel_append holds.nodes (.cons ⟨rfl, rfl⟩ .nil)
      · obtain rfl := Except.ok.inj (size.symm.trans size')
        refine ⟨(total.1, marked), rfl, sizeTotal.trans sizeCce, sizeMarked.trans sizePrb, fun cce => ?_,
          fun pos => ?_⟩
        · rw [union cce, cces cce]
          simp [Grant.Covers]
        · rw [markedIff pos, prbs pos]
          by_cases needed : record.needsPucch
          · simp [TakesPrb, needed]
          · simp [TakesPrb, needed]
      · obtain ⟨user, owner, noCollision, inside, muxOff⟩ := harq needed
        rw [if_pos needed] at inBounds
        refine ⟨user, owner, noCollision, inside, ?_, fun off => ?_⟩
        · rcases lt_or_ge (ch.harqPrb ncce) 0 with negative | nonneg
          · exact lt_of_lt_of_le negative (Int.natCast_nonneg _)
          · exact (bitPos_lt nonneg).mp (sizePrb ▸ inBounds nonneg)
        · exact harqPrb_nonneg (sizePrb ▸ (muxOff off).1)
      · exact free cce both.2.1 both.2.2 ((cces cce).mpr ⟨g, mem, both.1⟩)
      · intro off needs needed same
        obtain ⟨user, owner, noCollision, inside, muxOff⟩ := harq needed
        obtain ⟨bound, unset⟩ := muxOff off
        refine unset ((prbs _).mpr ⟨g, mem, needs, ?_, by rw [same]⟩)
        rw [same]
        exact harqPrb_nonneg (sizePrb ▸ bound)

theorem Holds.exists_node {g : Grant} (candidate : ch.Candidate g) (usable : ch.Usable g)
    (clear : ∀ g' ∈ grants, ch.Clear g' g) (dciPosIdx : Nat) :
    ∃ node, ch.candidateNode g.1 tree dciPosIdx g.2 = .ok (some node) := by
  obtain ⟨_, nofCces, _, _, size, fits⟩ := candidate
  obtain ⟨masks, cumulative, sizeCce, sizePrb, cces, prbs⟩ := holds.masks nofCces size
  have free : ∀ cce, g.2 ≤ cce → cce < g.2 + 2 ^ g.1.aggrIdx → cce ∉ masks.1 := by
    intro cce lower upper taken
    obtain ⟨g', mem, covers⟩ := (cces cce).mp taken
    exact (clear g' mem).1 cce ⟨covers, lower, upper⟩
  have prb := pucchPrb_free sizePrb usable (fun off needed taken => by
    obtain ⟨g', mem, needs, nonneg, same⟩ := (prbs _).mp taken
    obtain ⟨_, _, _, _, _, lower⟩ := usable needed
    exact (clear g' mem).2 off needs needed (bitPos_inj nonneg (lower off) same.symm))
  have reserved : ∃ total, masks.1.reserve ⟨nofCces, 0⟩ g.2 (g.2 + 2 ^ g.1.aggrIdx) = .ok (some total) :=
    reserve_free (Nat.le_add_right _ _) fits sizeCce free
  obtain ⟨total, reserve⟩ := reserved
  have marks : ∃ marked, markPrb masks.2 (if g.1.needsPucch then ch.harqPrb g.2 else -1) = .ok marked := by
    unfold markPrb
    by_cases needed : g.1.needsPucch
    · rw [if_pos needed]
      split
      · rename_i nonneg
        obtain ⟨_, _, _, _, upper, _⟩ := usable needed
        have bound : bitPos (ch.harqPrb g.2) < masks.2.size := by
          rw [sizePrb, bitPos_lt nonneg]
          exact upper
        rw [BoundedBitset.set, if_pos bound]
        exact ⟨_, rfl⟩
      · exact ⟨_, rfl⟩
    · rw [if_neg needed]
      exact ⟨_, rfl⟩
  obtain ⟨marked, mark⟩ := marks
  unfold candidateNode
  simp only [size, bind, Except.bind, BoundedBitset.resized, if_pos (nofCces_le size), cumulative, prb, reserve, mark]
  exact ⟨_, rfl⟩

end Place

theorem candidateNode_index (made : ch.candidateNode record tree dciPosIdx ncce = .ok (some node)) :
    node.dciPosIdx = dciPosIdx := by
  obtain ⟨_, _, made⟩ := bind_eq_ok.mp made
  obtain ⟨_, _, made⟩ := bind_eq_ok.mp made
  obtain ⟨_, _, made⟩ := bind_eq_ok.mp made
  obtain ⟨outcome, _, made⟩ := bind_eq_ok.mp made
  cases outcome with
  | none => simp [pure, Except.pure] at made
  | some prb =>
    obtain ⟨reserved, _, made⟩ := bind_eq_ok.mp made
    cases reserved with
    | none => simp [pure, Except.pure] at made
    | some total =>
      obtain ⟨_, _, made⟩ := bind_eq_ok.mp made
      obtain rfl := by simpa [pure, Except.pure] using made
      rfl

end Pdcch

namespace SfCchAllocator

abbrev Context := Pdcch × Nat

def context (st : SfCchAllocator) : Context := (st.pdcch, st.currentMaxCfix)

def positions : Backtrack.Tables search Context Nat where
  context := context
  table k record := (k.1.dciPosList record).map BoundedVector.toList
  make k := k.1.candidateNode
  push := pushNode
  bound := cceListMaxSize
  table_le h := by
    obtain ⟨dciPosList, _, rfl⟩ := map_eq_ok.mp h
    exact dciPosList.length_le
  make_index := Pdcch.candidateNode_index
  push_tree _ _ := rfl
  push_context _ _ := rfl
  place record st start := by
    change allocDfsNode record st start = (Except.map _ (st.pdcch.dciPosList record)).bind _
    unfold allocDfsNode
    cases st.pdcch.dciPosList record with
    | error fault => rfl
    | ok dciPosList => exact bind_pure_comp (m := Except Fault) (Option.map st.pushNode) _

def LaterCfi (k k' : Context) : Prop := ∃ cfix, k.1.cfix < cfix ∧ cfix ≤ k.2 ∧ k' = ({ k.1 with cfix }, k.2)

def assignments : Backtrack.Space search Context where
  context := context
  Child := positions.Child
  Later := LaterCfi
  height k := k.2 + 1 - k.1.cfix
  bound := cceListMaxSize
  index_lt := Backtrack.Tables.index_lt
  index_inj := Backtrack.Tables.index_inj
  place_none := Backtrack.Tables.place_none (T := positions)
  place_some := Backtrack.Tables.place_child (T := positions)
  pop _ := ⟨rfl, rfl⟩
  save st := by
    change (if _ then _ else _ : SfCchAllocator).lastDciDfs = _ ∧ context (if _ then _ else _) = _
    split <;> exact ⟨rfl, rfl⟩
  ascend_true := by
    intro st empty more
    have room : st.currentCfix + 1 ≤ st.currentMaxCfix := of_decide_eq_true more
    refine ⟨empty, ⟨st.currentCfix + 1, Nat.lt_succ_self _, room, rfl⟩, ?_, ?_⟩
    · change st.currentMaxCfix + 1 - (st.currentCfix + 1) < st.currentMaxCfix + 1 - st.currentCfix
      omega
    · rintro k ⟨cfix, lower, upper, rfl⟩
      rcases Nat.eq_or_lt_of_le (show st.currentCfix + 1 ≤ cfix from lower) with rfl | above
      · exact .inl rfl
      · exact .inr ⟨cfix, above, upper, rfl⟩
  ascend_false := by
    rintro st k _ last ⟨cfix, lower, upper, _⟩
    have none : ¬ st.currentCfix + 1 ≤ st.currentMaxCfix := of_decide_eq_false last
    exact none (le_trans lower upper)
  later_trans := by
    rintro k _ _ ⟨cfix, lower, _, rfl⟩ ⟨cfix', lower', upper', rfl⟩
    exact ⟨cfix', lower.trans lower', upper', rfl⟩

variable {k : Context} {grants : List Grant} {tree : List TreeNode}

theorem grants_of_valid {records : List AllocRecord} (valid : assignments.Valid k records tree)
    (full : tree.length = records.length) :
    ∃ grants : List Grant, grants.map Prod.fst = records ∧ k.1.Holds tree grants ∧ k.1.Assignment grants ∧
      ∀ g ∈ grants, k.1.Usable g := by
  induction tree generalizing records with
  | nil =>
    obtain rfl := eq_nil_of_length_eq_zero full.symm
    exact ⟨[], rfl, Pdcch.holds_nil, ⟨by simp, .nil⟩, by simp⟩
  | cons top rest ih =>
    obtain ⟨⟨record, located, entries, i, ncce, table, position, made⟩, inner⟩ := valid
    have below := inner.restrict (List.dropLast_prefix records) (by simp [← full])
    obtain ⟨grants, fsts, holds, assignment, usable⟩ := ih below (by simp [← full])
    obtain ⟨_, holds', usable', clear, nofCces, size, fits⟩ := holds.placed made
    obtain ⟨dciPosList, list, rfl⟩ := map_eq_ok.mp table
    refine ⟨grants ++ [(record, ncce)], ?_, holds', ⟨?_, ?_⟩, ?_⟩
    · have last : records.length - 1 = rest.length := by
        rw [← full, length_cons, Nat.add_sub_cancel]
      rw [map_append, fsts]
      refine dropLast_append_getLast? record ?_
      rw [List.getLast?_eq_getElem?, last]
      exact located
    · intro g mem
      rcases List.mem_append.mp mem with earlier | new
      · exact assignment.candidate g earlier
      · rw [List.mem_singleton.mp new]
        exact ⟨dciPosList, nofCces, list, mem_of_getElem? position, size, fits⟩
    · refine List.pairwise_append.mpr ⟨assignment.clear, pairwise_singleton _ _, fun g mem g' new => ?_⟩
      rw [List.mem_singleton.mp new]
      exact clear g mem
    · intro g mem
      rcases List.mem_append.mp mem with earlier | new
      · exact usable g earlier
      · rw [List.mem_singleton.mp new]
        exact usable'

theorem exists_valid_of_grants (assignment : k.1.Assignment grants) (usable : ∀ g ∈ grants, k.1.Usable g) :
    ∃ tree, assignments.Valid k (grants.map Prod.fst) tree ∧ tree.length = grants.length ∧ k.1.Holds tree grants := by
  induction grants using List.reverseRecOn with
  | nil => exact ⟨[], trivial, rfl, Pdcch.holds_nil⟩
  | append_singleton grants g ih =>
    obtain ⟨clear, _, last⟩ := List.pairwise_append.mp assignment.clear
    obtain ⟨tree, valid, full, holds⟩ := ih
      ⟨fun g' mem => assignment.candidate g' (mem_append_left _ mem), clear⟩
      (fun g' mem => usable g' (mem_append_left _ mem))
    have member : g ∈ grants ++ [g] := by simp
    have candidate := assignment.candidate g member
    obtain ⟨dciPosList, nofCces, list, position, _⟩ := candidate
    obtain ⟨i, located⟩ := List.getElem?_of_mem position
    obtain ⟨node, made⟩ := holds.exists_node (assignment.candidate g member) (usable g member)
      (fun g' mem => last g' mem g (mem_singleton_self g)) i
    refine ⟨node :: tree, ⟨⟨g.1, ?_, dciPosList.toList, i, g.2, ?_, located, made⟩, ?_⟩, by simp [full],
      (holds.placed made).2.1⟩
    · simp [full]
    · change Except.map _ (k.1.dciPosList g.1) = _
      rw [list]
      rfl
    · rw [map_append]
      exact valid.mono (prefix_append _ _)

end SfCchAllocator
end IsrRan.Mac.Lte
