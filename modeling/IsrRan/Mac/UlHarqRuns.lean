import IsrRan.Lib.Transition
import IsrRan.Mac.SchedDciUl
import IsrRan.Mac.SchedHarq
import Mathlib

namespace IsrRan.Mac.Lte

def PrbInterval.length (alloc : PrbInterval) : Nat := alloc.stop - alloc.start

def rvIdx : List Nat := [0, 2, 3, 1]

def getRvidx (retxIdx : Nat) : Nat := rvIdx.getD (retxIdx % 4) 0

inductive UlAllocType where
  | newtx
  | noadaptRetx
  | adaptRetx
  deriving DecidableEq

def UlAllocType.needsPdcch (type : UlAllocType) (isMsg3 : Bool) : Bool := (type = .newtx && !isMsg3) || type = .adaptRetx

def UlHarqProc.allocType (h : UlHarqProc) (alloc : PrbInterval) : UlAllocType :=
  if !h.hasPendingRetx then .newtx else if h.retxRequiresPdcch alloc then .adaptRetx else .noadaptRetx

/-- `try_ul_retx_alloc`: the PRBs of the retransmission. `collides` says that the mask has the old ones in use, and
`found` is what the search for the same number of PRBs returns. -/
def UlHarqProc.tryUlRetxAlloc (h : UlHarqProc) (collides : Bool) (found : PrbInterval) : Option PrbInterval :=
  if !collides then some h.allocation
  else if found.length ≠ h.allocation.length then none else some found

structure UlSchedData where
  needsPdcch : Bool
  tbs : Int
  currentTxNb : Nat
  ndi : Bool
  cqiRequest : Bool
  alloc : PrbInterval
  mcsIdx : Int := 0
  rv : Nat := 0
  deriving DecidableEq

section Format0
variable (tbsTable : TbsTable)

def newTbInfo (env : UlEnv) (alloc : PrbInterval) (explicitMcs : Int) : Option TbsInfo :=
  let mcs := if explicitMcs ≥ 0 then explicitMcs else env.fixedMcsUl
  if mcs ≥ 0 then (getTbsBytes tbsTable mcs.toNat alloc.length).map fun tbs => ⟨tbs, mcs⟩
  else
    let nofRe := env.nofSymb * alloc.length * 12
    match env.nofUciRe with
    | some nofUciRe => cqiToTbsUl tbsTable env alloc.length (if nofRe ≥ nofUciRe then nofRe - nofUciRe else nofRe)
    | none => cqiToTbsUl tbsTable env alloc.length nofRe

/-- `generate_format0`; no grant where the size is negative, `none` where an assertion fails. -/
def generateFormat0 (env : UlEnv) (h : UlHarqProc) (tti : TtiPoint) (alloc : PrbInterval) (needsPdcch : Bool)
    (explicitMcs : Int) : Option (UlHarqProc × Option UlSchedData) := do
  let isNewtx := h.isEmptyTb 0
  let (h, tb) ← if isNewtx then
      (newTbInfo tbsTable env alloc explicitMcs).map fun tb =>
        (h.newTx tti tb.mcs tb.tbsBytes alloc (if needsPdcch then env.maxharqTx else env.maxMsg3retx) (!needsPdcch), tb)
    else
      (getTbsBytes tbsTable (h.tb 0).lastMcs.toNat alloc.length).map fun tbs =>
        (h.newRetx tti alloc, ⟨tbs, (h.tb 0).lastMcs⟩)
  let data : UlSchedData :=
    { needsPdcch, tbs := tb.tbsBytes, currentTxNb := h.nofRetx 0, ndi := h.getNdi 0, cqiRequest := env.cqiRequest, alloc }
  if tb.tbsBytes < 0 then some (h, none)
  else if tb.tbsBytes = 0 ∧ (env.cqiRequest ∨ env.nofUciRe.isSome) then
    some (h, some { data with cqiRequest := true, mcsIdx := 29, rv := 0 })
  else if tb.tbsBytes > 0 then
    let rv := getRvidx (h.nofRetx 0)
    some (h, some { data with rv, mcsIdx := if !isNewtx ∧ needsPdcch then 28 + rv else tb.mcs })
  else some (h, some data)

def keptGrant (data : Option UlSchedData) : Option UlSchedData :=
  data.filter fun d => !decide (d.tbs = 0 ∧ d.mcsIdx ≠ 29)

end Format0

inductive UlPhase where
  | idle
  | started
  | phichDone
  | generated
  deriving DecidableEq

structure RetxDci where
  mcsIdx : Int
  rv : Nat
  original : Int
  deriving DecidableEq

structure UlHarqRun where
  h : UlHarqProc
  phase : UlPhase := .idle
  txs : List (Bool × Nat × Int) := []
  retxDcis : List RetxDci := []
  phich : Option Bool := none
  /-- the UE was told ACK, or assumes it in a measurement gap, and has had no PDCCH since -/
  toldAck : Bool := false
  /-- a non-adaptive retransmission was scheduled then -/
  nonAdaptiveAfterAck : Bool := false
  fault : Bool := false

inductive UlHarqEvent where
  | crc (ack : Bool)
  | newTti
  | phich (listFull phichEnabled : Bool)
  | noPhich
  | newTx (env : UlEnv) (tti : TtiPoint) (alloc : PrbInterval)
  | msg3 (env : UlEnv) (tti : TtiPoint) (alloc : PrbInterval) (mcs : Nat)
  | retx (env : UlEnv) (tti : TtiPoint) (collides : Bool) (found : PrbInterval)
  | notAllocated
  | finish
  | reset

namespace UlHarqRun
variable (tbsTable : TbsTable)

def allocPhich (s : UlHarqRun) (listFull phichEnabled : Bool) : UlHarqRun :=
  if !s.h.pendingPhich then s
  else
    match s.h.popPendingPhich with
    | none => { s with fault := true }
    | some (h, ack) =>
      if listFull then { s with h }
      else if !phichEnabled then
        if h.isEmptyTb 0 then { s with h, toldAck := true } else { s with h := h.requestPdcch, toldAck := true }
      else { s with h, phich := some ack, toldAck := s.toldAck || ack }

def skipRetx (s : UlHarqRun) : UlHarqRun :=
  if s.h.isEmpty then s
  else
    match s.phich with
    | none => { s with h := s.h.retxSkipped }
    | some true => { s with h := s.h.retxSkipped, fault := true }
    | some false => { s with h := s.h.retxSkipped, phich := some true, toldAck := true }

def granted (s : UlHarqRun) (isNewtx : Bool) (original : Int) (result : UlHarqProc × Option UlSchedData) : UlHarqRun :=
  match keptGrant result.2 with
  | none => { s with h := result.1, phase := .generated, txs := if isNewtx then [] else s.txs }
  | some d =>
    { s with
      h := result.1
      phase := .generated
      txs := (d.ndi, d.alloc.length, d.tbs) :: if isNewtx then [] else s.txs
      retxDcis := if !isNewtx ∧ d.needsPdcch then ⟨d.mcsIdx, d.rv, original⟩ :: s.retxDcis else s.retxDcis
      nonAdaptiveAfterAck := s.nonAdaptiveAfterAck || (!isNewtx && !d.needsPdcch && s.toldAck)
      toldAck := if isNewtx ∨ d.needsPdcch then false else s.toldAck }

def step (s : UlHarqRun) : UlHarqEvent → Option UlHarqRun
  | .crc ack => if s.phase = .idle then some { s with h := (s.h.setAck 0 ack).1 } else none
  | .newTti => if s.phase = .idle then some { s with h := s.h.newTti, phase := .started, phich := none } else none
  | .phich listFull phichEnabled =>
    if s.phase = .started then some { s.allocPhich listFull phichEnabled with phase := .phichDone } else none
  | .noPhich => if s.phase = .started then some { s with phase := .phichDone } else none
  | .newTx env tti alloc =>
    if s.phase = .phichDone ∧ s.h.isEmpty ∧ 0 < alloc.length then
      (generateFormat0 tbsTable env s.h tti alloc ((s.h.allocType alloc).needsPdcch s.h.isMsg3) (-1)).map
        (s.granted true 0)
    else none
  | .msg3 env tti alloc mcs =>
    if s.phase = .phichDone ∧ s.h.isEmpty ∧ 0 < alloc.length then
      (generateFormat0 tbsTable env s.h tti alloc (UlAllocType.newtx.needsPdcch true) mcs).map (s.granted true 0)
    else none
  | .retx env tti collides found =>
    if s.phase = .phichDone ∧ s.h.hasPendingRetx then
      (s.h.tryUlRetxAlloc collides found).bind fun alloc =>
        (generateFormat0 tbsTable env s.h tti alloc ((s.h.allocType alloc).needsPdcch s.h.isMsg3) (-1)).map
          (s.granted false (s.h.tb 0).lastMcs)
    else none
  | .notAllocated => if s.phase = .phichDone then some { s.skipRetx with phase := .generated } else none
  | .finish =>
    if s.phase = .generated then
      some { s with
        h := if !s.h.isEmpty ∧ s.h.maxRetx = 0 then s.h.resetPendingData else s.h
        phase := .idle }
    else none
  | .reset =>
    if s.phase = .idle ∨ s.phase = .started then
      let once := { s.h with toHarqProc := s.h.reset 0 }.resetPendingData
      some { s with h := { once with toHarqProc := once.reset 1 }.resetPendingData }
    else none

def RetxDci.Understood (d : RetxDci) : Prop :=
  (29 ≤ d.mcsIdx ∧ d.mcsIdx ≤ 31 ∧ d.mcsIdx = 28 + d.rv) ∨ (d.mcsIdx = d.original ∧ d.rv = 0)

structure Synchronised (s : UlHarqRun) : Prop where
  sameBlock : ∀ x ∈ s.txs, ∀ y ∈ s.txs, x = y
  announced : ∀ d ∈ s.retxDcis, RetxDci.Understood d
  bounded : s.txs.length ≤ s.h.maxRetx
  ackFinal : s.nonAdaptiveAfterAck = false
  noFault : s.fault = false

/-- At least one transmission is allowed, and no adaptive retransmission falls on redundancy version 0 unless the MCS
is 28. -/
def Kept (s : UlHarqRun) : UlHarqEvent → Prop
  | .newTx env _ _ => 1 ≤ env.maxharqTx ∧ 1 ≤ env.maxMsg3retx
  | .msg3 env _ _ _ => 1 ≤ env.maxMsg3retx
  | .retx _ _ collides found => ∀ alloc, s.h.tryUlRetxAlloc collides found = some alloc →
      s.h.retxRequiresPdcch alloc = true → (s.h.nofRetx 0 + 1) % 4 ≠ 0 ∨ (s.h.tb 0).lastMcs = 28
  | _ => True

end UlHarqRun

end IsrRan.Mac.Lte
