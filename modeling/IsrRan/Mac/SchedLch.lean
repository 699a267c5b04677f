import IsrRan.Mac.SchedHarq
import IsrRan.Mac.SchPdu
import IsrRan.Phy.Dci
import Mathlib

namespace IsrRan.Mac.Lte.SchedLch
open Function List

def rlcMaxHeaderSizeNoLi : Nat := 3
def macMaxHeaderSize : Nat := 3
def macMinHeaderSize : Nat := 2
def macMinAllocSize : Nat := rlcMaxHeaderSizeNoLi + macMinHeaderSize
def maxRlcPduList : Nat := 8
def intMax : Int := 2147483647

theorem one_le_intMax : 1 ≤ intMax := by decide
def pbrInfinity : Nat := 4294967295

def sub32 (a b : Nat) : Nat := (a + (4294967296 - b)) % 4294967296

def toInt (n : Nat) : Int := if n < 2147483648 then n else n - 4294967296

def getMacSubheaderSize (sduBytes : Nat) : Nat := if sduBytes = 0 then 0 else if sduBytes > 128 then 3 else 2

def getMacSduAndSubheaderSize (sduBytes : Nat) : Nat := sduBytes + getMacSubheaderSize sduBytes

abbrev LchId := Fin 11

instance LchId.eleven : NeZero 11 := ⟨by decide⟩

inductive Direction where
  | idle
  | ul
  | dl
  | both
  deriving DecidableEq, Repr

def Direction.isDl (direction : Direction) : Bool := direction = .dl || direction = .both

structure LogicalChannel where
  direction : Direction := .idle
  priority : Int := 1
  priority_le : priority ≤ intMax := by decide
  pbr : Nat := pbrInfinity
  -- `int`, as the totals over all channels, which stay below 2^31
  bufTx : Nat := 0
  bufPrioTx : Nat := 0
  bj : Int := 0

inductive CeCmd where
  | scellActivation4Octet
  | scellActivation
  | conResId
  | taCmd
  | drxCmd
  deriving DecidableEq, Repr

def CeCmd.lcid : CeCmd → Nat
  | .scellActivation4Octet => Pdu.Lcid.scellActivation4Octet
  | .scellActivation => Pdu.Lcid.scellActivation
  | .conResId => Pdu.Lcid.conResId
  | .taCmd => Pdu.Lcid.taCmd
  | .drxCmd => Pdu.Lcid.drxCmd

def ceTotalSize (ce : CeCmd) : Nat := 1 + Pdu.dlCeSize ce.lcid

structure DlSchedPdu where
  lcid : Nat
  nbytes : Nat := 0
  deriving DecidableEq, Repr

structure DlSchedData where
  dci : Phy.DciDl
  tbs : TbIdx → Nat := fun _ => 0
  pdu : TbIdx → List DlSchedPdu := fun _ => []

structure LchUeManager where
  channels : LchId → LogicalChannel
  prioIdx : Nat := 0
  pendingCes : List CeCmd := []

namespace LchUeManager
variable (m : LchUeManager)

def getDlTx (lcid : LchId) : Nat := if (m.channels lcid).direction.isDl then (m.channels lcid).bufTx else 0

def getDlPrioTx (lcid : LchId) : Nat := if (m.channels lcid).direction.isDl then (m.channels lcid).bufPrioTx else 0

def getDlTxTotalOf (lcid : LchId) : Nat := m.getDlTx lcid + m.getDlPrioTx lcid

def getDlTxTotal : Nat := ∑ lcid, m.getDlTxTotalOf lcid

def minPrioLcid (eligible : LchId → Bool) : Option LchId :=
  ((finRange 11).foldl (fun (best : Int × Option LchId) lcid =>
    if eligible lcid && decide ((m.channels lcid).priority < best.1) then ((m.channels lcid).priority, some lcid)
    else best) (intMax, none)).2

def chosenLcids : List LchId :=
  ((finRange 11).foldl (fun (best : Int × List LchId) lcid =>
    if 0 < m.getDlTxTotalOf lcid then
      if (m.channels lcid).priority < best.1 then ((m.channels lcid).priority, [lcid])
      else if (m.channels lcid).priority = best.1 then (best.1, best.2 ++ [lcid])
      else best
    else best) (intMax, [])).2

def getMaxPrioLcid : Option LchId :=
  match m.minPrioLcid fun lcid => decide (0 < m.getDlPrioTx lcid) with
  | some lcid => some lcid
  | none =>
    match m.minPrioLcid fun lcid => decide (0 < m.getDlTx lcid ∧ 0 < (m.channels lcid).bj) with
    | some lcid => some lcid
    | none => m.chosenLcids[m.prioIdx % m.chosenLcids.length]?

def setChannel (lcid : LchId) (c : LogicalChannel) : LchUeManager :=
  { m with channels := update m.channels lcid c }

def rlcOverhead (lcid : LchId) : Nat := if lcid = 0 then 0 else rlcMaxHeaderSizeNoLi

/-- `channels[lcid].buf_prio_tx -= alloc`, which needs that the buffer holds so much. -/
def drawPrioTx (lcid : LchId) (alloc : Nat) (_held : alloc ≤ (m.channels lcid).bufPrioTx) : LchUeManager :=
  m.setChannel lcid { m.channels lcid with bufPrioTx := (m.channels lcid).bufPrioTx - alloc }

def drawTx (lcid : LchId) (alloc : Nat) (_held : alloc ≤ (m.channels lcid).bufTx) : LchUeManager :=
  m.setChannel lcid { m.channels lcid with
    bufTx := (m.channels lcid).bufTx - alloc
    bj := if 0 < alloc ∧ (m.channels lcid).pbr ≠ pbrInfinity then (m.channels lcid).bj - alloc
          else (m.channels lcid).bj }

variable {m} in
theorem getDlPrioTx_le {lcid : LchId} : m.getDlPrioTx lcid ≤ (m.channels lcid).bufPrioTx := by
  unfold getDlPrioTx
  split <;> omega

variable {m} in
theorem getDlTx_le {lcid : LchId} : m.getDlTx lcid ≤ (m.channels lcid).bufTx := by
  unfold getDlTx
  split <;> omega

def allocPrioTxBytes (lcid : LchId) (remBytes : Int) : LchUeManager × Nat :=
  if remBytes ≤ rlcOverhead lcid then (m, 0)
  else
    let alloc := min (remBytes - rlcOverhead lcid).toNat (m.getDlPrioTx lcid)
    (m.drawPrioTx lcid alloc ((Nat.min_le_right _ _).trans getDlPrioTx_le),
      alloc + if 0 < alloc then rlcOverhead lcid else 0)

def allocTxBytes (lcid : LchId) (remBytes : Int) : LchUeManager × Nat :=
  if remBytes ≤ rlcOverhead lcid then (m, 0)
  else
    let alloc := min (remBytes - rlcOverhead lcid).toNat (m.getDlTx lcid)
    (m.drawTx lcid alloc ((Nat.min_le_right _ _).trans getDlTx_le),
      alloc + if 0 < alloc then rlcOverhead lcid else 0)

def allocBytes (lcid : LchId) (remBytes : Int) : LchUeManager × Nat :=
  let prio := m.allocPrioTxBytes lcid remBytes
  if prio.2 = 0 then prio.1.allocTxBytes lcid remBytes else prio

def addLeftover (allocBytes : Nat) (remBytes : Int) : Nat :=
  let leftoverBytes := remBytes - allocBytes
  if 0 < leftoverBytes ∧ (leftoverBytes ≤ macMinAllocSize ∨ m.getDlTxTotal = 0) then
    allocBytes + leftoverBytes.toNat
  else allocBytes

def allocRlcPdu (remBytes : Int) : LchUeManager × Option DlSchedPdu :=
  match m.getMaxPrioLcid with
  | none => (m, none)
  | some lcid =>
    let drawn := m.allocBytes lcid remBytes
    let nbytes := drawn.1.addLeftover drawn.2 remBytes
    (drawn.1, if 0 < nbytes then some ⟨lcid, nbytes⟩ else none)

end LchUeManager

def mergeSdu : List DlSchedPdu → DlSchedPdu → List DlSchedPdu
  | [], new => [new]
  | sdu :: sdus, new =>
    if sdu.lcid = new.lcid then { sdu with nbytes := sdu.nbytes + new.nbytes } :: sdus
    else sdu :: mergeSdu sdus new

namespace LchUeManager
variable {m m' : LchUeManager} {lcid : LchId} {remBytes : Int} {pdu : DlSchedPdu}

theorem allocPrioTxBytes_le : (m.allocPrioTxBytes lcid remBytes).2 = 0 ∨
    ((m.allocPrioTxBytes lcid remBytes).2 : Int) ≤ remBytes := by
  unfold allocPrioTxBytes
  split
  · exact .inl rfl
  · right
    dsimp only
    split <;> omega

theorem allocTxBytes_le : (m.allocTxBytes lcid remBytes).2 = 0 ∨
    ((m.allocTxBytes lcid remBytes).2 : Int) ≤ remBytes := by
  unfold allocTxBytes
  split
  · exact .inl rfl
  · right
    dsimp only
    split <;> omega

theorem allocBytes_le : (m.allocBytes lcid remBytes).2 = 0 ∨ ((m.allocBytes lcid remBytes).2 : Int) ≤ remBytes := by
  unfold allocBytes
  dsimp only
  split
  · exact allocTxBytes_le
  · exact allocPrioTxBytes_le

theorem addLeftover_le {allocBytes : Nat} (bound : allocBytes = 0 ∨ (allocBytes : Int) ≤ remBytes)
    (positive : 0 < m.addLeftover allocBytes remBytes) : (m.addLeftover allocBytes remBytes : Int) ≤ remBytes := by
  unfold addLeftover at positive ⊢
  dsimp only at positive ⊢
  split at positive
  · rename_i leftover
    rw [if_pos leftover]
    omega
  · rename_i leftover
    rw [if_neg leftover]
    omega

theorem allocRlcPdu_le (placed : m.allocRlcPdu remBytes = (m', some pdu)) :
    0 < pdu.nbytes ∧ (pdu.nbytes : Int) ≤ remBytes := by
  unfold allocRlcPdu at placed
  cases next : m.getMaxPrioLcid with
  | none => simp [next] at placed
  | some lcid =>
    simp only [next] at placed
    obtain ⟨_, result⟩ := Prod.mk.inj placed
    obtain ⟨positive, rfl⟩ := Option.ite_some_none_eq_some.mp result
    exact ⟨positive, addLeftover_le allocBytes_le positive⟩

end LchUeManager

structure SduRound where
  m : LchUeManager
  sdus : List DlSchedPdu := []
  remTbs : Nat

namespace SduRound

def maxSduBytes (s : SduRound) : Nat := sub32 s.remTbs (getMacSubheaderSize (sub32 s.remTbs macMinHeaderSize))

def next (first : Nat) (s : SduRound) : Option SduRound :=
  if s.remTbs > macMaxHeaderSize ∧ first + s.sdus.length < maxRlcPduList then
    match s.m.allocRlcPdu (toInt s.maxSduBytes) with
    | (_, none) => none
    | (m, some pdu) =>
      some { m, sdus := mergeSdu s.sdus pdu, remTbs := sub32 s.remTbs (getMacSduAndSubheaderSize pdu.nbytes) }
  else none

variable {first : Nat} {s s' : SduRound}

theorem getMacSubheaderSize_mono {a b : Nat} (le : a ≤ b) : getMacSubheaderSize a ≤ getMacSubheaderSize b := by
  unfold getMacSubheaderSize
  split_ifs <;> omega

theorem getMacSubheaderSize_pos {n : Nat} (positive : 0 < n) : 2 ≤ getMacSubheaderSize n ∧ getMacSubheaderSize n ≤ 3 := by
  unfold getMacSubheaderSize
  split_ifs <;> omega

theorem sub32_of_le {a b : Nat} (small : a < 4294967296) (le : b ≤ a) : sub32 a b = a - b := by
  unfold sub32
  omega

theorem maxSduBytes_of_lt (small : s.remTbs < 4294967296) (some_left : 3 < s.remTbs) :
    s.maxSduBytes = s.remTbs - getMacSubheaderSize (s.remTbs - 2) := by
  have header := @getMacSubheaderSize_pos (s.remTbs - 2) (by omega)
  unfold maxSduBytes macMinHeaderSize
  rw [@sub32_of_le s.remTbs 2 small (by omega), sub32_of_le small (by omega)]

theorem charged_le {m : LchUeManager} {pdu : DlSchedPdu} (small : s.remTbs < 4294967296) (some_left : 3 < s.remTbs)
    (placed : s.m.allocRlcPdu (toInt s.maxSduBytes) = (m, some pdu)) :
    0 < pdu.nbytes ∧ getMacSduAndSubheaderSize pdu.nbytes ≤ s.remTbs := by
  obtain ⟨positive, bound⟩ := LchUeManager.allocRlcPdu_le placed
  have header := @getMacSubheaderSize_pos (s.remTbs - 2) (by omega)
  rw [maxSduBytes_of_lt small some_left] at bound
  have inside : pdu.nbytes ≤ s.remTbs - getMacSubheaderSize (s.remTbs - 2) := by
    unfold toInt at bound
    split at bound <;> omega
  have smaller := @getMacSubheaderSize_mono pdu.nbytes (s.remTbs - 2) (by omega)
  unfold getMacSduAndSubheaderSize
  exact ⟨positive, by omega⟩

theorem next_eq_some (round : s.next first = some s') : 3 < s.remTbs ∧ first + s.sdus.length < maxRlcPduList ∧
    ∃ pdu, s.m.allocRlcPdu (toInt s.maxSduBytes) = (s'.m, some pdu) ∧ s'.sdus = mergeSdu s.sdus pdu ∧
      s'.remTbs = sub32 s.remTbs (getMacSduAndSubheaderSize pdu.nbytes) := by
  unfold next at round
  split at round
  · rename_i goes_on
    cases result : s.m.allocRlcPdu (toInt s.maxSduBytes) with
    | mk m placed =>
      cases placed with
      | none => simp [result] at round
      | some pdu =>
        simp only [result] at round
        obtain rfl := Option.some.inj round
        exact ⟨goes_on.1, goes_on.2, pdu, rfl, rfl, rfl⟩
  · contradiction

theorem next_remTbs (round : s.next first = some s') : s'.remTbs < s.remTbs := by
  obtain ⟨some_left, _, pdu, placed, _, rem⟩ := next_eq_some round
  rcases Nat.lt_or_ge s.remTbs 4294967296 with small | large
  · obtain ⟨positive, inside⟩ := charged_le small some_left placed
    rw [rem, sub32_of_le small inside]
    unfold getMacSduAndSubheaderSize
    omega
  · rw [rem]
    exact (Nat.mod_lt _ (by decide)).trans_le large

def run (first : Nat) (s : SduRound) : SduRound :=
  match _round : s.next first with
  | none => s
  | some s' => s'.run first
termination_by s.remTbs
decreasing_by exact next_remTbs _round

end SduRound

def allocateMacSdus (data : DlSchedData) (lchHandler : LchUeManager) (totalTbs : Nat) (tbidx : TbIdx) :
    DlSchedData × LchUeManager × Nat :=
  let done := SduRound.run (data.pdu tbidx).length { m := lchHandler, remTbs := totalTbs }
  ({ data with pdu := update data.pdu tbidx (data.pdu tbidx ++ done.sdus) }, done.m,
    sub32 totalTbs done.remTbs)

def placeCes : List CeCmd → List DlSchedPdu → Int → List CeCmd × List DlSchedPdu × Int
  | [], pdu, remTbs => ([], pdu, remTbs)
  | ce :: ces, pdu, remTbs =>
    if pdu.length < maxRlcPduList then
      if remTbs < ceTotalSize ce then (ce :: ces, pdu, remTbs)
      else placeCes ces (pdu ++ [{ lcid := ce.lcid }]) (remTbs - ceTotalSize ce)
    else (ce :: ces, pdu, remTbs)

def allocateMacCes (data : DlSchedData) (lchHandler : LchUeManager) (totalTbs : Int) :
    DlSchedData × LchUeManager × Int :=
  let (ces, pdu, remTbs) := placeCes lchHandler.pendingCes (data.pdu 0) totalTbs
  ({ data with pdu := update data.pdu 0 pdu }, { lchHandler with pendingCes := ces }, totalTbs - remTbs)

namespace LchUeManager
variable {m m' : LchUeManager} {lcid : LchId} {remBytes : Int} {rem : Nat}

theorem minPrioLcid_eligible {eligible : LchId → Bool} (found : m.minPrioLcid eligible = some lcid) :
    eligible lcid = true := by
  have general : ∀ (lcids : List LchId) (best : Int × Option LchId), (best.2 = some lcid → eligible lcid = true) →
      (lcids.foldl (fun (best : Int × Option LchId) lcid =>
        if eligible lcid && decide ((m.channels lcid).priority < best.1) then ((m.channels lcid).priority, some lcid)
        else best) best).2 = some lcid → eligible lcid = true := by
    intro lcids
    induction lcids with
    | nil => exact fun _ before found => before found
    | cons c lcids ih =>
      intro best before
      apply ih
      dsimp only
      split
      · rename_i better
        intro same
        obtain rfl := Option.some.inj same
        exact (Bool.and_eq_true_iff.mp better).1
      · exact before
  exact general _ _ (by simp) found

theorem chosenLcids_spec : (∀ c ∈ m.chosenLcids, 0 < m.getDlTxTotalOf c) ∧
    (m.chosenLcids = [] → ∀ c, m.getDlTxTotalOf c = 0) := by
  have general : ∀ (lcids : List LchId) (best : Int × List LchId), (∀ c ∈ best.2, 0 < m.getDlTxTotalOf c) →
      (best.2 = [] → best.1 = intMax) →
      let result := lcids.foldl (fun (best : Int × List LchId) lcid =>
        if 0 < m.getDlTxTotalOf lcid then
          if (m.channels lcid).priority < best.1 then ((m.channels lcid).priority, [lcid])
          else if (m.channels lcid).priority = best.1 then (best.1, best.2 ++ [lcid])
          else best
        else best) best
      (∀ c ∈ result.2, 0 < m.getDlTxTotalOf c) ∧
        (result.2 = [] → best.2 = [] ∧ ∀ c ∈ lcids, m.getDlTxTotalOf c = 0) := by
    intro lcids
    induction lcids with
    | nil =>
      intro best wanted _
      exact ⟨wanted, fun empty => ⟨empty, fun _ mem => absurd mem not_mem_nil⟩⟩
    | cons c lcids ih =>
      intro best wanted untouched
      rw [foldl_cons]
      by_cases pending : 0 < m.getDlTxTotalOf c
      · rw [if_pos pending]
        have priority := (m.channels c).priority_le
        by_cases better : (m.channels c).priority < best.1
        · rw [if_pos better]
          have later := ih ((m.channels c).priority, [c]) (by simpa using pending) (by simp)
          exact ⟨later.1, fun empty => absurd (later.2 empty).1 (by simp)⟩
        · rw [if_neg better]
          by_cases same : (m.channels c).priority = best.1
          · rw [if_pos same]
            have later := ih (best.1, best.2 ++ [c]) (by
              intro d mem
              rcases List.mem_append.mp mem with old | new
              · exact wanted d old
              · obtain rfl := List.mem_singleton.mp new
                exact pending) (by simp)
            exact ⟨later.1, fun empty => absurd (later.2 empty).1 (by simp)⟩
          · rw [if_neg same]
            have later := ih best wanted untouched
            refine ⟨later.1, fun empty => absurd (untouched (later.2 empty).1) ?_⟩
            omega
      · rw [if_neg pending]
        have later := ih best wanted untouched
        refine ⟨later.1, fun empty => ⟨(later.2 empty).1, ?_⟩⟩
        intro d mem
        rcases List.mem_cons.mp mem with rfl | old
        · omega
        · exact (later.2 empty).2 d old
  have whole := general (finRange 11) (intMax, []) (by simp) (fun _ => rfl)
  exact ⟨whole.1, fun empty c => (whole.2 empty).2 c (mem_finRange c)⟩

theorem getDlTxTotal_eq_zero : m.getDlTxTotal = 0 ↔ ∀ c, m.getDlTxTotalOf c = 0 := by
  unfold getDlTxTotal
  simp

theorem getMaxPrioLcid_some (next : m.getMaxPrioLcid = some lcid) : 0 < m.getDlTxTotalOf lcid := by
  unfold getMaxPrioLcid at next
  split at next
  · rename_i found
    obtain rfl := Option.some.inj next
    have prio := of_decide_eq_true (minPrioLcid_eligible found)
    unfold getDlTxTotalOf
    omega
  · split at next
    · rename_i found
      obtain rfl := Option.some.inj next
      have tx := (of_decide_eq_true (minPrioLcid_eligible found)).1
      unfold getDlTxTotalOf
      omega
    · exact chosenLcids_spec.1 lcid (mem_of_getElem? next)

theorem getMaxPrioLcid_none : m.getMaxPrioLcid = none ↔ m.getDlTxTotal = 0 := by
  rw [getDlTxTotal_eq_zero]
  constructor
  · intro next
    unfold getMaxPrioLcid at next
    split at next
    · contradiction
    · split at next
      · contradiction
      · apply chosenLcids_spec.2
        have outside := List.getElem?_eq_none_iff.mp next
        by_contra some_left
        have positive := List.length_pos_iff.mpr some_left
        have inside := Nat.mod_lt m.prioIdx positive
        omega
  · intro empty
    cases next : m.getMaxPrioLcid with
    | none => rfl
    | some c =>
      have positive := getMaxPrioLcid_some next
      have zero := empty c
      omega

variable (m lcid) in
def nextBytes : Nat := if 0 < m.getDlPrioTx lcid then m.getDlPrioTx lcid else m.getDlTx lcid

variable (m lcid) in
def drawNext : LchUeManager :=
  if 0 < m.getDlPrioTx lcid then m.drawPrioTx lcid (m.getDlPrioTx lcid) getDlPrioTx_le
  else m.drawTx lcid (m.getDlTx lcid) getDlTx_le

def DrawnFrom (m m' : LchUeManager) : Prop :=
  ∀ lcid, (m'.channels lcid).bufTx ≤ (m.channels lcid).bufTx ∧
    (m'.channels lcid).bufPrioTx ≤ (m.channels lcid).bufPrioTx

theorem nextBytes_pos (next : m.getMaxPrioLcid = some lcid) : 0 < m.nextBytes lcid := by
  have total := getMaxPrioLcid_some next
  unfold nextBytes
  unfold getDlTxTotalOf at total
  split <;> omega

section Draw
variable {alloc : Nat}

@[simp] theorem getDlTx_drawPrioTx {held : alloc ≤ (m.channels lcid).bufPrioTx} {c : LchId} :
    (m.drawPrioTx lcid alloc held).getDlTx c = m.getDlTx c := by
  unfold getDlTx drawPrioTx setChannel
  rcases eq_or_ne c lcid with rfl | different
  · simp
  · simp [different]

@[simp] theorem getDlPrioTx_drawPrioTx {held : alloc ≤ (m.channels lcid).bufPrioTx} {c : LchId} :
    (m.drawPrioTx lcid alloc held).getDlPrioTx c = if c = lcid then m.getDlPrioTx c - alloc else m.getDlPrioTx c := by
  unfold getDlPrioTx drawPrioTx setChannel
  rcases eq_or_ne c lcid with rfl | different
  · simp only [update_self]
    split <;> simp
  · simp [different]

@[simp] theorem getDlPrioTx_drawTx {held : alloc ≤ (m.channels lcid).bufTx} {c : LchId} :
    (m.drawTx lcid alloc held).getDlPrioTx c = m.getDlPrioTx c := by
  unfold getDlPrioTx drawTx setChannel
  rcases eq_or_ne c lcid with rfl | different
  · simp
  · simp [different]

@[simp] theorem getDlTx_drawTx {held : alloc ≤ (m.channels lcid).bufTx} {c : LchId} :
    (m.drawTx lcid alloc held).getDlTx c = if c = lcid then m.getDlTx c - alloc else m.getDlTx c := by
  unfold getDlTx drawTx setChannel
  rcases eq_or_ne c lcid with rfl | different
  · simp only [update_self]
    split <;> simp
  · simp [different]

theorem drawPrioTx_zero : m.drawPrioTx lcid 0 (Nat.zero_le _) = m := by
  exact congrArg (fun channels => { m with channels := channels }) (update_eq_self lcid m.channels)

theorem DrawnFrom.refl : DrawnFrom m m := fun _ => ⟨Nat.le_refl _, Nat.le_refl _⟩

theorem DrawnFrom.trans {m'' : LchUeManager} (first : DrawnFrom m m') (second : DrawnFrom m' m'') :
    DrawnFrom m m'' :=
  fun c => ⟨(second c).1.trans (first c).1, (second c).2.trans (first c).2⟩

theorem drawnFrom_drawPrioTx {held : alloc ≤ (m.channels lcid).bufPrioTx} :
    DrawnFrom m (m.drawPrioTx lcid alloc held) := by
  intro c
  unfold drawPrioTx setChannel
  rcases eq_or_ne c lcid with rfl | different
  · simp
  · simp [different]

theorem drawnFrom_drawTx {held : alloc ≤ (m.channels lcid).bufTx} : DrawnFrom m (m.drawTx lcid alloc held) := by
  intro c
  unfold drawTx setChannel
  rcases eq_or_ne c lcid with rfl | different
  · simp
  · simp [different]

end Draw

theorem getDlTxTotal_drawNext (next : 0 < m.nextBytes lcid) : (m.drawNext lcid).getDlTxTotal < m.getDlTxTotal := by
  unfold nextBytes at next
  unfold getDlTxTotal drawNext getDlTxTotalOf
  apply Finset.sum_lt_sum
  · intro c _
    split <;> simp only [getDlTx_drawPrioTx, getDlPrioTx_drawPrioTx, getDlTx_drawTx, getDlPrioTx_drawTx] <;>
      split <;> omega
  · refine ⟨lcid, Finset.mem_univ _, ?_⟩
    split
    · simp only [getDlTx_drawPrioTx, getDlPrioTx_drawPrioTx, if_true]
      omega
    · rename_i no_prio
      rw [if_neg no_prio] at next
      simp only [getDlTx_drawTx, getDlPrioTx_drawTx, if_true]
      omega

theorem allocPrioTxBytes_eq {alloc : Nat} (header : rlcOverhead lcid < rem)
    (least : min (rem - rlcOverhead lcid) (m.getDlPrioTx lcid) = alloc) (held : alloc ≤ (m.channels lcid).bufPrioTx) :
    m.allocPrioTxBytes lcid rem =
      (m.drawPrioTx lcid alloc held, alloc + if 0 < alloc then rlcOverhead lcid else 0) := by
  subst least
  have bytes : ((rem : Int) - rlcOverhead lcid).toNat = rem - rlcOverhead lcid := by omega
  unfold allocPrioTxBytes
  rw [if_neg (by omega)]
  simp only [bytes]

theorem allocTxBytes_eq {alloc : Nat} (header : rlcOverhead lcid < rem)
    (least : min (rem - rlcOverhead lcid) (m.getDlTx lcid) = alloc) (held : alloc ≤ (m.channels lcid).bufTx) :
    m.allocTxBytes lcid rem = (m.drawTx lcid alloc held, alloc + if 0 < alloc then rlcOverhead lcid else 0) := by
  subst least
  have bytes : ((rem : Int) - rlcOverhead lcid).toNat = rem - rlcOverhead lcid := by omega
  unfold allocTxBytes
  rw [if_neg (by omega)]
  simp only [bytes]

theorem allocBytes_no_prio (none_left : m.getDlPrioTx lcid = 0) (header : rlcOverhead lcid < rem) :
    m.allocBytes lcid rem = m.allocTxBytes lcid rem := by
  unfold allocBytes
  rw [@allocPrioTxBytes_eq m lcid rem 0 header (by omega) (Nat.zero_le _), drawPrioTx_zero]
  rfl

theorem drawnFrom_allocBytes : DrawnFrom m (m.allocBytes lcid remBytes).1 := by
  have prio : DrawnFrom m (m.allocPrioTxBytes lcid remBytes).1 := by
    unfold allocPrioTxBytes
    split
    · exact .refl
    · exact @drawnFrom_drawPrioTx m lcid _ ((Nat.min_le_right _ _).trans getDlPrioTx_le)
  unfold allocBytes
  dsimp only
  split
  · apply prio.trans
    unfold allocTxBytes
    split
    · exact .refl
    · exact @drawnFrom_drawTx _ lcid _ ((Nat.min_le_right _ _).trans getDlTx_le)
  · exact prio

theorem allocBytes_whole (pending : 0 < m.nextBytes lcid) (room : rlcOverhead lcid + m.nextBytes lcid < rem) :
    m.allocBytes lcid rem = (m.drawNext lcid, rlcOverhead lcid + m.nextBytes lcid) := by
  unfold nextBytes drawNext at *
  by_cases prio : 0 < m.getDlPrioTx lcid
  · rw [if_pos prio] at room ⊢
    rw [if_pos prio]
    unfold allocBytes
    rw [@allocPrioTxBytes_eq m lcid rem _ (by omega) (by omega) getDlPrioTx_le, if_pos prio]
    rw [if_neg (by omega), Nat.add_comm]
  · rw [if_neg prio] at room pending ⊢
    rw [if_neg prio, allocBytes_no_prio (by omega) (by omega),
      @allocTxBytes_eq m lcid rem _ (by omega) (by omega) getDlTx_le, if_pos pending, Nat.add_comm]

theorem allocBytes_cut (room : rem ≤ rlcOverhead lcid + m.nextBytes lcid) :
    (m.allocBytes lcid rem).2 = rem ∨ rem ≤ rlcOverhead lcid ∧ (m.allocBytes lcid rem).2 = 0 := by
  rcases Nat.lt_or_ge (rlcOverhead lcid) rem with header | header
  · left
    have positive : 0 < rem - rlcOverhead lcid := by omega
    unfold nextBytes at room
    by_cases prio : 0 < m.getDlPrioTx lcid
    · rw [if_pos prio] at room
      unfold allocBytes
      rw [@allocPrioTxBytes_eq m lcid rem (rem - rlcOverhead lcid) header (by omega)
        (le_trans (by omega) getDlPrioTx_le), if_pos positive]
      rw [if_neg (by omega)]
      omega
    · rw [if_neg prio] at room
      rw [allocBytes_no_prio (by omega) header,
        @allocTxBytes_eq m lcid rem (rem - rlcOverhead lcid) header (by omega) (le_trans (by omega) getDlTx_le),
        if_pos positive]
      omega
  · right
    refine ⟨header, ?_⟩
    have no_room : (rem : Int) ≤ rlcOverhead lcid := by omega
    unfold allocBytes allocPrioTxBytes allocTxBytes
    simp only [if_pos no_room, if_true]

theorem allocRlcPdu_last (next : m.getMaxPrioLcid = some lcid) (positive : 0 < rem)
    (last : rem ≤ rlcOverhead lcid + m.nextBytes lcid + macMinAllocSize ∨ (m.drawNext lcid).getDlTxTotal = 0) :
    m.allocRlcPdu rem = ((m.allocBytes lcid rem).1, some ⟨lcid, rem⟩) := by
  have overhead : rlcOverhead lcid ≤ 3 := by
    unfold rlcOverhead rlcMaxHeaderSizeNoLi
    split <;> omega
  have whole : (m.allocBytes lcid rem).1.addLeftover (m.allocBytes lcid rem).2 rem = rem := by
    unfold addLeftover
    rcases Nat.lt_or_ge (rlcOverhead lcid + m.nextBytes lcid) rem with room | cut
    · rw [allocBytes_whole (nextBytes_pos next) room]
      rw [if_pos ⟨by omega, last.imp (fun small => by omega) id⟩]
      omega
    · rcases allocBytes_cut cut with all | ⟨small, nothing⟩
      · rw [all]
        simp
      · rw [nothing]
        unfold macMinAllocSize rlcMaxHeaderSizeNoLi macMinHeaderSize
        rw [if_pos ⟨by omega, .inl (by omega)⟩]
        omega
  unfold allocRlcPdu
  simp only [next, whole]
  rw [if_pos positive]

theorem allocRlcPdu_whole (next : m.getMaxPrioLcid = some lcid)
    (room : rlcOverhead lcid + m.nextBytes lcid + macMinAllocSize < rem)
    (more : (m.drawNext lcid).getDlTxTotal ≠ 0) :
    m.allocRlcPdu rem = (m.drawNext lcid, some ⟨lcid, rlcOverhead lcid + m.nextBytes lcid⟩) := by
  have pending := nextBytes_pos next
  unfold allocRlcPdu
  simp only [next, allocBytes_whole pending (show rlcOverhead lcid + m.nextBytes lcid < rem by omega)]
  have same : (m.drawNext lcid).addLeftover (rlcOverhead lcid + m.nextBytes lcid) rem =
      rlcOverhead lcid + m.nextBytes lcid := by
    exact if_neg (by omega)
  rw [same, if_pos (by omega)]

theorem drawnFrom_allocRlcPdu : DrawnFrom m (m.allocRlcPdu remBytes).1 := by
  unfold allocRlcPdu
  split
  · exact .refl
  · exact drawnFrom_allocBytes

end LchUeManager

end IsrRan.Mac.Lte.SchedLch
