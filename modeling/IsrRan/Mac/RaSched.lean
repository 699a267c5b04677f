import IsrRan.Mac.SchedHarq

namespace IsrRan.Mac.Lte.RaSched

inductive AllocResult where
  | success
  | schCollision
  | noCchSpace
  | noSchSpace
  | noRntiOpportunity
  | invalidGrantParams
  | invalidCoderate
  | noGrantSpace
  | otherCause
  deriving DecidableEq, Repr

structure RbgInterval where
  start : Nat
  stop : Nat
  deriving DecidableEq, Repr

def RbgInterval.length (i : RbgInterval) : Nat := i.stop - i.start

structure RarInfo where
  preambleIdx : Nat
  taCmd : Nat
  tempCrnti : Nat
  msg3Size : Nat
  prachTti : Nat
  deriving DecidableEq, Repr

structure RarGrant where
  tpcPusch : Nat
  truncMcs : Nat
  rba : Nat
  deriving DecidableEq, Repr

structure Msg3Grant where
  data : RarInfo
  grant : RarGrant
  deriving DecidableEq, Repr

structure PendingRar where
  raRnti : Nat
  prachTti : TtiPoint
  msg3Grant : List RarInfo
  deriving DecidableEq, Repr

structure RarAlloc where
  rbgRange : RbgInterval
  reqBytes : Nat
  rnti : Nat
  tbs : Nat
  msg3Grant : List Msg3Grant
  deriving DecidableEq, Repr

def maxRarList : Nat := 8
def prachRarOffset : Nat := 3
def rarAggrLevel : Nat := 2

structure CellParams where
  nofPrb : Nat
  nofRbgs : Nat
  pucchNrb : Nat
  prachRarWindow : Nat
  prb_le : 6 ≤ nofPrb
  pucch_le : pucchNrb ≤ nofPrb
  window_le : prachRarWindow ≤ 10

/-- The PDCCH and the RBGs of one subframe, as the RAR scheduler sees them: what is free, what allocating
does, and whether a DCI 1A of so many bytes fits its code rate. -/
structure Grid (σ : Type) where
  findEmptyRbgInterval : σ → Nat → RbgInterval
  allocDlCtrl : σ → Nat → RbgInterval → AllocResult × σ
  remLastAllocDl : σ → RbgInterval → σ
  fitsCoderate : σ → TtiPoint → Nat → RbgInterval → Bool

def raType2ToRiv (lCrb rbStart nofPrb : Nat) : Nat :=
  if lCrb - 1 ≤ nofPrb / 2 then nofPrb * (lCrb - 1) + rbStart
  else nofPrb * (nofPrb - lCrb + 1) + nofPrb - 1 - rbStart

def rivToPrbs (riv nofPrb : Nat) : PrbInterval :=
  let lCrb := riv / nofPrb + 1
  let rbStart := riv % nofPrb
  if lCrb > nofPrb - rbStart then
    let start := nofPrb - riv % nofPrb - 1
    ⟨start, start + (nofPrb - riv / nofPrb + 1)⟩
  else ⟨rbStart, rbStart + lCrb⟩

structure SfSched (σ : Type) where
  ttiTxDl : TtiPoint
  grid : σ
  rarAllocs : List RarAlloc
  lastMsg3Prb : Nat
  deriving Repr

namespace SfSched
variable {σ : Type}

def maxMsg3Prb (cell : CellParams) : Nat := max 6 (cell.nofPrb - cell.pucchNrb)

def generateRarDci (cell : CellParams) (rar : PendingRar) (rbgs : RbgInterval) (nofGrants startMsg3Prb : Nat) :
    RarAlloc :=
  let reqBytes := 7 * nofGrants + 1
  ⟨rbgs, reqBytes, rar.raRnti, reqBytes, ((rar.msg3Grant.take nofGrants).zipIdx).map fun (data, i) =>
    ⟨data, 3, 0, raType2ToRiv 3 (startMsg3Prb + 3 * i) cell.nofPrb⟩⟩

def allocRar (grid : Grid σ) (cell : CellParams) (sf : SfSched σ) (aggrLvl : Nat) (rar : PendingRar)
    (rbgs : RbgInterval) (nofGrants : Nat) : AllocResult × SfSched σ :=
  if sf.rarAllocs.length = maxRarList then (.noGrantSpace, sf)
  else
    let totalUlNofPrbs := 3 * nofGrants
    if sf.lastMsg3Prb + totalUlNofPrbs > maxMsg3Prb cell then (.schCollision, sf)
    else
      match grid.allocDlCtrl sf.grid aggrLvl rbgs with
      | (.success, g) =>
        if grid.fitsCoderate g sf.ttiTxDl (7 * nofGrants + 1) rbgs then
          (.success, { sf with
            grid := g
            rarAllocs := sf.rarAllocs ++ [generateRarDci cell rar rbgs nofGrants sf.lastMsg3Prb]
            lastMsg3Prb := sf.lastMsg3Prb + totalUlNofPrbs * nofGrants })
        else (.invalidCoderate, { sf with grid := grid.remLastAllocDl g rbgs })
      | (ret, g) => (ret, { sf with grid := g })

end SfSched

variable {σ : Type}

def tryRbgs (grid : Grid σ) (cell : CellParams) (sf : SfSched σ) (rar : PendingRar) (nofGrants : Nat) :
    List Nat → AllocResult × SfSched σ
  | [] => (.invalidCoderate, sf)
  | nrbg :: later =>
    let rbgs := grid.findEmptyRbgInterval sf.grid nrbg
    if rbgs.length = nrbg then
      match sf.allocRar grid cell rarAggrLevel rar rbgs nofGrants with
      | (.invalidCoderate, sf) => tryRbgs grid cell sf rar nofGrants later
      | (ret, sf) => (ret, sf)
    else (.noSchSpace, sf)

def allocateFrom (grid : Grid σ) (cell : CellParams) (sf : SfSched σ) (rar : PendingRar) (last : AllocResult) :
    Nat → AllocResult × Nat × SfSched σ
  | 0 => (last, 0, sf)
  | n + 1 =>
    let out := tryRbgs grid cell sf rar (n + 1) (List.range' 1 (cell.nofRbgs - 1))
    -- with too few RBGs, fewer grants are tried
    if out.1 ≠ .invalidCoderate ∧ out.1 ≠ .noSchSpace then (out.1, n + 1, out.2)
    else allocateFrom grid cell out.2 rar out.1 n

def allocatePendingRar (grid : Grid σ) (cell : CellParams) (sf : SfSched σ) (rar : PendingRar) :
    AllocResult × Nat × SfSched σ :=
  allocateFrom grid cell sf rar .otherCause rar.msg3Grant.length

structure Pass (σ : Type) where
  sf : SfSched σ
  discarded : List PendingRar
  pending : List PendingRar

def dlSched (grid : Grid σ) (cell : CellParams) (sf : SfSched σ) : List PendingRar → Pass σ
  | [] => ⟨sf, [], []⟩
  | rar :: later =>
    let start := rar.prachTti.add prachRarOffset
    let stop := rar.prachTti.add (prachRarOffset + cell.prachRarWindow)
    if !((start = sf.ttiTxDl || start.lt sf.ttiTxDl) && sf.ttiTxDl.lt stop) then
      if sf.ttiTxDl.ge stop then
        let pass := dlSched grid cell sf later
        { pass with discarded := rar :: pass.discarded }
      -- the RARs are ordered by TTI
      else ⟨sf, [], rar :: later⟩
    else
      match allocatePendingRar grid cell sf rar with
      | (.success, nofGrants, sf) =>
        if nofGrants = rar.msg3Grant.length then dlSched grid cell sf later
        else ⟨sf, [], { rar with msg3Grant := rar.msg3Grant.drop nofGrants } :: later⟩
      | (.noCchSpace, _, sf) =>
        let pass := dlSched grid cell sf later
        { pass with pending := rar :: pass.pending }
      | (_, _, sf) => ⟨sf, [], rar :: later⟩

def joinPending (info : RarInfo) (raRnti : Nat) : List PendingRar → Option (Bool × List PendingRar)
  | [] => none
  | r :: later =>
    if r.prachTti.ttiVal = info.prachTti ∧ raRnti = r.raRnti then
      if r.msg3Grant.length ≥ maxRarList then some (false, r :: later)
      else some (true, { r with msg3Grant := r.msg3Grant ++ [info] } :: later)
    else (joinPending info raRnti later).map fun (accepted, rars) => (accepted, r :: rars)

def dlRachInfo (pending : List PendingRar) (info : RarInfo) : Bool × List PendingRar :=
  let raRnti := 1 + info.prachTti % 10
  (joinPending info raRnti pending).getD
    (true, pending ++ [⟨raRnti, .ofUint info.prachTti, [info]⟩])

def ulSched (cell : CellParams) (ueDb : List Nat) (sf : SfSched σ) : List (Nat × PrbInterval) :=
  sf.rarAllocs.flatMap fun rar => rar.msg3Grant.filterMap fun g =>
    if g.data.tempCrnti ∈ ueDb then some (g.data.tempCrnti, rivToPrbs g.grant.rba cell.nofPrb) else none

end IsrRan.Mac.Lte.RaSched
