import IsrRan.Mac.SchedLch
import IsrRan.Mac.UlHarqRuns

namespace IsrRan.Mac.Lte.DlDci
open Phy SchedLch HarqProc
open Function (update update_of_ne update_self)

section

def tbOf (dci : DciDl) (tb : TbIdx) : DciTb := if tb = 0 then dci.tb0 else dci.tb1

def setTb (dci : DciDl) (tb : TbIdx) (t : DciTb) : DciDl :=
  if tb = 0 then { dci with tb0 := t } else { dci with tb1 := t }

def isTbEn (t : DciTb) : Bool := !(t.mcsIdx = 0 && t.rv = 1)

def tbDisable (t : DciTb) : DciTb := { t with mcsIdx := 0, rv := 1 }

def toU32 (v : Int) : Nat := (v % 4294967296).toNat

def toUint64 (mask : List Bool) : Nat := mask.foldl (fun value rbg => 2 * value + rbg.toNat) 0

/-- What the functions read of the UE and of the carrier. A transport block that is computed is absent or has a size
and an MCS of the tables. -/
structure UeCell where
  dlRi : Nat
  isPcell : Bool
  maxharqTx : Nat
  computeMcsAndTbs : LchUeManager → DciDl → TbsInfo
  computed : ∀ lchHandler dci, (computeMcsAndTbs lchHandler dci).tbsBytes = -1 ∨
    0 ≤ (computeMcsAndTbs lchHandler dci).tbsBytes ∧ (computeMcsAndTbs lchHandler dci).tbsBytes < 2147483648 ∧
    0 ≤ (computeMcsAndTbs lchHandler dci).mcs ∧ (computeMcsAndTbs lchHandler dci).mcs < 32

structure Allocation where
  data : DlSchedData
  lchHandler : LchUeManager
  h : DlHarqProc

variable (cell : UeCell) (userMask : List Bool) (ttiTxDl : TtiPoint) (nCce : Nat)

def allocateElems (a : Allocation) (tbsBytes : Int) (tb : TbIdx) : DlSchedData × LchUeManager × Int :=
  let ces := if cell.isPcell then allocateMacCes a.data a.lchHandler tbsBytes else (a.data, a.lchHandler, 0)
  let remTbs := tbsBytes - ces.2.2
  let sdus := allocateMacSdus ces.1 ces.2.1 (toU32 remTbs) tb
  (sdus.1, sdus.2.1, remTbs - sdus.2.2)

def allocateNewDlMacPdu (a : Allocation) (tb : TbIdx) : Allocation × TbsInfo :=
  let tbInfo := cell.computeMcsAndTbs a.lchHandler a.data.dci
  let (data, lchHandler, remTbs) := allocateElems cell a tbInfo.tbsBytes tb
  if remTbs ≠ tbInfo.tbsBytes then
    (⟨data, lchHandler, a.h.newTx userMask tb ttiTxDl tbInfo.mcs tbInfo.tbsBytes nCce cell.maxharqTx⟩, tbInfo)
  else (⟨data, lchHandler, a.h⟩, { tbsBytes := 0, mcs := 0 })

def noRetx (h : DlHarqProc) : Bool := cell.dlRi = 0 || (h.isEmptyTb 0 && h.isEmptyTb 1)

def tbEn (h : DlHarqProc) (tb : TbIdx) : Bool :=
  if cell.dlRi = 0 then if h.isEmptyTb 1 then tb = 0 else tb = 1
  else !h.isEmptyTb tb || noRetx cell h

def fillTb (enabled : Bool) (a : Allocation) (tbinfo : TbsInfo) (tb : TbIdx) : Allocation :=
  let t := tbOf a.data.dci tb
  if 0 < tbinfo.tbsBytes ∧ enabled then
    let t := { t with mcsIdx := toU32 tbinfo.mcs, rv := (getRvidx (a.h.nofRetx tb) : Int) }
    let t := if isTbEn t then t else { t with rv := 2 }
    { a with data := { a.data with
        dci := setTb a.data.dci tb { t with ndi := a.h.getNdi tb, cwIdx := tb }
        tbs := update a.data.tbs tb (toU32 tbinfo.tbsBytes) } }
  else
    { a with data := { a.data with
        dci := setTb a.data.dci tb (tbDisable t)
        tbs := update a.data.tbs tb 0 } }

def generateTb (enabled : TbIdx → Bool) (no_retx : Bool) (a : Allocation) (tb : TbIdx) : Allocation :=
  if !a.h.isEmptyTb tb then
    let tbinfo : TbsInfo := ⟨(a.h.tb tb).lastTbs, (a.h.tb tb).lastMcs⟩
    fillTb (enabled tb) { a with h := a.h.newRetx userMask tb ttiTxDl nCce } tbinfo tb
  else if enabled tb && no_retx then
    let (a, tbinfo) := allocateNewDlMacPdu cell userMask ttiTxDl nCce a tb
    fillTb (enabled tb) a tbinfo tb
  else fillTb (enabled tb) a {} tb

/-- The returned number of bytes is the sum of the two sizes in `data`. -/
def generateFormat2a (a : Allocation) : Allocation :=
  let start := { a with data := { a.data with dci := { a.data.dci with alloc := .type0 (toUint64 userMask) } } }
  [0, 1].foldl (generateTb cell userMask ttiTxDl nCce (tbEn cell a.h) (noRetx cell a.h)) start

/-! One block -/

section Block
variable {cell userMask ttiTxDl nCce} {enabled no_retx : Bool} {a : Allocation} {tb other : TbIdx} {tbinfo : TbsInfo}
  {dci : DciDl} {t : DciTb}

@[simp] theorem tbOf_setTb : tbOf (setTb dci tb t) tb = t := by
  unfold tbOf setTb
  split <;> rfl

theorem tbOf_setTb_of_ne (different : other ≠ tb) : tbOf (setTb dci tb t) other = tbOf dci other := by
  have one : ∀ i : TbIdx, i = 0 ∨ i = 1 := by decide
  rcases one tb with rfl | rfl <;> rcases one other with rfl | rfl <;> first | contradiction | rfl

@[simp] theorem fillTb_h : (fillTb enabled a tbinfo tb).h = a.h := by
  unfold fillTb
  split <;> rfl

theorem fillTb_other (different : other ≠ tb) :
    tbOf (fillTb enabled a tbinfo tb).data.dci other = tbOf a.data.dci other ∧
      (fillTb enabled a tbinfo tb).data.tbs other = a.data.tbs other := by
  unfold fillTb
  split <;> exact ⟨tbOf_setTb_of_ne different, update_of_ne different _ _⟩

theorem fillTb_enabled (filled : 0 < tbinfo.tbsBytes ∧ enabled = true) :
    isTbEn (tbOf (fillTb enabled a tbinfo tb).data.dci tb) = true ∧
      (tbOf (fillTb enabled a tbinfo tb).data.dci tb).mcsIdx = toU32 tbinfo.mcs ∧
      (fillTb enabled a tbinfo tb).data.tbs tb = toU32 tbinfo.tbsBytes := by
  unfold fillTb
  rw [if_pos filled]
  refine ⟨?_, ?_, update_self tb _ _⟩
  · rw [tbOf_setTb]
    split
    · rename_i en
      exact en
    · simp [isTbEn]
  · rw [tbOf_setTb]
    split <;> rfl

theorem fillTb_disabled (not_filled : ¬(0 < tbinfo.tbsBytes ∧ enabled = true)) :
    isTbEn (tbOf (fillTb enabled a tbinfo tb).data.dci tb) = false := by
  unfold fillTb
  rw [if_neg not_filled, tbOf_setTb]
  rfl

end Block

/-! A new block -/

theorem placeCes_nothing (ces : List CeCmd) (pdu : List DlSchedPdu) {remTbs : Int} (none_left : remTbs ≤ 0) :
    (placeCes ces pdu remTbs).2.2 = remTbs := by
  cases ces with
  | nil => rfl
  | cons ce ces =>
    have positive : 0 < ceTotalSize ce := by
      unfold ceTotalSize
      omega
    unfold placeCes
    split
    · rw [if_pos (by omega)]
    · rfl

theorem allocateMacSdus_nothing (data : DlSchedData) (lchHandler : LchUeManager) (tb : TbIdx) {tbsBytes : Int}
    (none_left : tbsBytes = -1 ∨ tbsBytes = 0) :
    (allocateMacSdus data lchHandler (toU32 tbsBytes) tb).2.2 = 0 := by
  have stops : (SduRound.mk lchHandler [] (toU32 tbsBytes)).next (data.pdu tb).length = none := by
    rcases none_left with rfl | rfl
    · cases round : (SduRound.mk lchHandler [] (toU32 (-1))).next (data.pdu tb).length with
      | none => rfl
      | some s' =>
        obtain ⟨_, _, pdu, placed, _, _⟩ := SduRound.next_eq_some round
        obtain ⟨positive, bound⟩ := LchUeManager.allocRlcPdu_le placed
        have negative : toInt (SchedLch.sub32 4294967295
            (getMacSubheaderSize (SchedLch.sub32 4294967295 macMinHeaderSize))) = -4 := by
          decide
        have start : toInt (SduRound.mk lchHandler [] (toU32 (-1))).maxSduBytes = -4 := negative
        omega
    · unfold SduRound.next
      exact if_neg (fun goes_on => absurd goes_on.1 (by decide : ¬toU32 0 > macMaxHeaderSize))
  have stays : SduRound.run (data.pdu tb).length (SduRound.mk lchHandler [] (toU32 tbsBytes)) =
      SduRound.mk lchHandler [] (toU32 tbsBytes) := by
    rw [SduRound.run]
    split
    · rfl
    · rename_i round
      rw [stops] at round
      contradiction
  unfold allocateMacSdus
  rw [stays]
  rcases none_left with rfl | rfl
  · exact (by decide : SchedLch.sub32 4294967295 4294967295 = 0)
  · exact (by decide : SchedLch.sub32 0 0 = 0)

def Sendable (info : TbsInfo) : Prop :=
  0 < info.tbsBytes ∧ info.tbsBytes < 2147483648 ∧ 0 ≤ info.mcs ∧ info.mcs < 32

section New
variable {cell userMask ttiTxDl nCce} {a : Allocation} {tb : TbIdx}

theorem allocateElems_keeps {tbsBytes : Int} : (allocateElems cell a tbsBytes tb).1.dci = a.data.dci ∧
    (allocateElems cell a tbsBytes tb).1.tbs = a.data.tbs := by
  unfold allocateElems allocateMacSdus
  split <;> exact ⟨rfl, rfl⟩

theorem allocateElems_nothing {tbsBytes : Int} (none_left : tbsBytes = -1 ∨ tbsBytes = 0) :
    (allocateElems cell a tbsBytes tb).2.2 = tbsBytes := by
  have ces : (if cell.isPcell then allocateMacCes a.data a.lchHandler tbsBytes
      else (a.data, a.lchHandler, 0)).2.2 = 0 := by
    split
    · have left := placeCes_nothing a.lchHandler.pendingCes (a.data.pdu 0) (show tbsBytes ≤ 0 by omega)
      show tbsBytes - (placeCes a.lchHandler.pendingCes (a.data.pdu 0) tbsBytes).2.2 = 0
      rw [left, Int.sub_self]
    · rfl
  unfold allocateElems
  dsimp only
  rw [ces, Int.sub_zero, allocateMacSdus_nothing _ _ tb none_left]
  exact Int.sub_zero tbsBytes

theorem allocateNewDlMacPdu_keeps : (allocateNewDlMacPdu cell userMask ttiTxDl nCce a tb).1.data.dci = a.data.dci ∧
    (allocateNewDlMacPdu cell userMask ttiTxDl nCce a tb).1.data.tbs = a.data.tbs := by
  unfold allocateNewDlMacPdu
  dsimp only
  split <;> exact allocateElems_keeps

theorem allocateNewDlMacPdu_cases :
    ((allocateNewDlMacPdu cell userMask ttiTxDl nCce a tb).1.h = a.h ∧
      (allocateNewDlMacPdu cell userMask ttiTxDl nCce a tb).2 = { tbsBytes := 0, mcs := 0 }) ∨
    ∃ info, Sendable info ∧ (allocateNewDlMacPdu cell userMask ttiTxDl nCce a tb).2 = info ∧
      (allocateNewDlMacPdu cell userMask ttiTxDl nCce a tb).1.h =
        a.h.newTx userMask tb ttiTxDl info.mcs info.tbsBytes nCce cell.maxharqTx := by
  have computed := cell.computed a.lchHandler a.data.dci
  unfold allocateNewDlMacPdu
  dsimp only
  split
  · rename_i taken
    right
    refine ⟨cell.computeMcsAndTbs a.lchHandler a.data.dci, ⟨?_, ?_, ?_, ?_⟩, rfl, rfl⟩
    · by_contra none_left
      exact taken (allocateElems_nothing (by omega))
    all_goals
      rcases computed with absent | bounds
      · exact absurd (allocateElems_nothing (.inl absent)) taken
      · omega
  · exact .inl ⟨rfl, rfl⟩

end New

end

variable {cell : UeCell} {userMask : List Bool} {ttiTxDl : TtiPoint} {nCce : Nat}

inductive TbOutcome (enabled no_retx : Bool) (before after : HarqTb) (t : DciTb) (tbs : Nat) : Prop where
  | again (active : before.active = true)
      (resent : after = { before with ackState := false, nRtx := before.nRtx + 1 })
      (on : isTbEn t = (enabled && decide (0 < before.lastTbs)))
      (same : isTbEn t = true → t.mcsIdx = toU32 before.lastMcs ∧ tbs = toU32 before.lastTbs)
  | fresh (empty : before.active = false) (asked : enabled = true) (alone : no_retx = true)
      (toggled : after.ndi = !before.ndi) (on : isTbEn t = true)
  | idle (empty : before.active = false) (kept : after = before) (off : isTbEn t = false)

section Step
variable {enabled : TbIdx → Bool} {no_retx : Bool} {a : Allocation} {tb other : TbIdx}

variable {h : DlHarqProc} {mcs tbs : Int} {maxRetx : Nat}

theorem newTx_other (different : other ≠ tb) :
    (h.newTx userMask tb ttiTxDl mcs tbs nCce maxRetx).tb other = h.tb other := by
  simp [DlHarqProc.newTx, newTxCommon, HarqProc.reset, HarqProc.setTb, different]

theorem newTx_ndi :
    ((h.newTx userMask tb ttiTxDl mcs tbs nCce maxRetx).tb tb).ndi = !(h.tb tb).ndi := by
  simp [DlHarqProc.newTx, newTxCommon, HarqProc.reset, HarqProc.setTb]

theorem newTx_sent :
    ((h.newTx userMask tb ttiTxDl mcs tbs nCce maxRetx).tb tb).lastMcs = mcs ∧
      ((h.newTx userMask tb ttiTxDl mcs tbs nCce maxRetx).tb tb).lastTbs = tbs := by
  simp [DlHarqProc.newTx, newTxCommon, HarqProc.setTb]

theorem newRetx_self : (h.newRetx userMask tb ttiTxDl nCce).tb tb =
    { h.tb tb with ackState := false, nRtx := (h.tb tb).nRtx + 1 } := by
  simp [DlHarqProc.newRetx, newRetxCommon, HarqProc.setTb]

theorem newRetx_other (different : other ≠ tb) :
    (h.newRetx userMask tb ttiTxDl nCce).tb other = h.tb other := by
  simp [DlHarqProc.newRetx, newRetxCommon, HarqProc.setTb, different]

theorem generateTb_other (different : other ≠ tb) :
    (generateTb cell userMask ttiTxDl nCce enabled no_retx a tb).h.tb other = a.h.tb other ∧
      tbOf (generateTb cell userMask ttiTxDl nCce enabled no_retx a tb).data.dci other = tbOf a.data.dci other ∧
      (generateTb cell userMask ttiTxDl nCce enabled no_retx a tb).data.tbs other = a.data.tbs other := by
  unfold generateTb
  split
  · rw [fillTb_h]
    exact ⟨newRetx_other different, fillTb_other different⟩
  · split
    · dsimp only
      obtain ⟨dci, tbs⟩ := @allocateNewDlMacPdu_keeps cell userMask ttiTxDl nCce a tb
      obtain ⟨filled, sized⟩ := @fillTb_other (enabled tb) (allocateNewDlMacPdu cell userMask ttiTxDl nCce a tb).1 tb other
        (allocateNewDlMacPdu cell userMask ttiTxDl nCce a tb).2 different
      rw [fillTb_h, filled, sized, dci, tbs]
      refine ⟨?_, rfl, rfl⟩
      rcases @allocateNewDlMacPdu_cases cell userMask ttiTxDl nCce a tb with ⟨same, _⟩ | ⟨info, _, _, sent⟩
      · rw [same]
      · rw [sent, newTx_other different]
    · rw [fillTb_h]
      exact ⟨rfl, fillTb_other different⟩

theorem generateTb_outcome : TbOutcome (enabled tb) no_retx (a.h.tb tb)
    ((generateTb cell userMask ttiTxDl nCce enabled no_retx a tb).h.tb tb)
    (tbOf (generateTb cell userMask ttiTxDl nCce enabled no_retx a tb).data.dci tb)
    ((generateTb cell userMask ttiTxDl nCce enabled no_retx a tb).data.tbs tb) := by
  unfold generateTb isEmptyTb
  cases active : (a.h.tb tb).active with
  | true =>
    simp only [Bool.not_true, Bool.not_false, if_true]
    by_cases filled : 0 < (a.h.tb tb).lastTbs ∧ enabled tb = true
    · obtain ⟨on, mcs, tbs⟩ := @fillTb_enabled (enabled tb) { a with h := a.h.newRetx userMask tb ttiTxDl nCce } tb
        ⟨(a.h.tb tb).lastTbs, (a.h.tb tb).lastMcs⟩ filled
      apply TbOutcome.again active
      · rw [fillTb_h]
        exact newRetx_self
      · rw [on, filled.2]
        simpa using filled.1
      · exact fun _ => ⟨mcs, tbs⟩
    · have off := @fillTb_disabled (enabled tb) { a with h := a.h.newRetx userMask tb ttiTxDl nCce } tb
        ⟨(a.h.tb tb).lastTbs, (a.h.tb tb).lastMcs⟩ filled
      apply TbOutcome.again active
      · rw [fillTb_h]
        exact newRetx_self
      · rw [off]
        symm
        rw [Bool.and_eq_false_iff, decide_eq_false_iff_not]
        by_contra both
        exact filled ⟨by_contra fun none_left => both (.inr none_left), by simpa using fun off => both (.inl off)⟩
      · intro on
        rw [off] at on
        contradiction
  | false =>
    simp only [Bool.not_true, Bool.not_false, Bool.false_eq_true, if_false]
    by_cases asked : (enabled tb && no_retx) = true
    · rw [if_pos asked]
      obtain ⟨on, alone⟩ := Bool.and_eq_true_iff.mp asked
      rcases @allocateNewDlMacPdu_cases cell userMask ttiTxDl nCce a tb with ⟨same, zero⟩ | ⟨info, sendable, size, sent⟩
      · apply TbOutcome.idle active
        · rw [fillTb_h, same]
        · rw [zero]
          exact fillTb_disabled (fun filled => absurd filled.1 (by decide))
      · apply TbOutcome.fresh active on alone
        · rw [fillTb_h, sent, newTx_ndi]
        · rw [size]
          exact (fillTb_enabled ⟨sendable.1, on⟩).1
    · rw [if_neg asked]
      apply TbOutcome.idle active
      · rw [fillTb_h]
      · exact fillTb_disabled (fun filled => absurd filled.1 (by decide))

end Step

theorem generateFormat2a_outcome (a : Allocation) (tb : TbIdx) :
    TbOutcome (tbEn cell a.h tb) (noRetx cell a.h) (a.h.tb tb)
      ((generateFormat2a cell userMask ttiTxDl nCce a).h.tb tb)
      (tbOf (generateFormat2a cell userMask ttiTxDl nCce a).data.dci tb)
      ((generateFormat2a cell userMask ttiTxDl nCce a).data.tbs tb) := by
  unfold generateFormat2a
  simp only [List.foldl_cons, List.foldl_nil]
  generalize start : Allocation.mk { a.data with dci := { a.data.dci with alloc := .type0 (toUint64 userMask) } }
    a.lchHandler a.h = s
  have same : s.h = a.h := by rw [← start]
  rw [← same]
  generalize tbEn cell s.h = enabled
  generalize noRetx cell s.h = no_retx
  have first := @generateTb_outcome cell userMask ttiTxDl nCce enabled no_retx s 0
  generalize through : generateTb cell userMask ttiTxDl nCce enabled no_retx s 0 = t at *
  have one : tb = 0 ∨ tb = 1 := by
    revert tb
    decide
  rcases one with rfl | rfl
  · obtain ⟨h, dci, tbs⟩ := @generateTb_other cell userMask ttiTxDl nCce enabled no_retx t 1 0 (by decide)
    rw [h, dci, tbs]
    exact first
  · have second := @generateTb_outcome cell userMask ttiTxDl nCce enabled no_retx t 1
    have frame := @generateTb_other cell userMask ttiTxDl nCce enabled no_retx s 0 1 (by decide)
    rw [through] at frame
    rw [frame.1] at second
    exact second

/-! Histories of a process -/

inductive History : DlHarqProc → (TbIdx → TbsInfo) → Prop where
  | empty {h : DlHarqProc} {first : TbIdx → TbsInfo} : h.isEmpty = true → History h first
  | newTti {h : DlHarqProc} {first : TbIdx → TbsInfo} (ttiTxDl : TtiPoint) : History h first →
      History (h.newTti ttiTxDl) first
  | setAck {h : DlHarqProc} {first : TbIdx → TbsInfo} (tb : TbIdx) (ack : Bool) : History h first →
      History (h.setAck tb ack).1 first
  | resetPendingData {h : DlHarqProc} {first : TbIdx → TbsInfo} : History h first → History h.resetPendingData first
  | newTx {h : DlHarqProc} {first : TbIdx → TbsInfo} (newMask : List Bool) (tb : TbIdx) (ttiTxDl : TtiPoint)
      (info : TbsInfo) (nCce maxRetx : Nat) : Sendable info → History h first →
      History (h.newTx newMask tb ttiTxDl info.mcs info.tbsBytes nCce maxRetx) (update first tb info)
  | newRetx {h : DlHarqProc} {first : TbIdx → TbsInfo} (newMask : List Bool) (tb : TbIdx) (ttiTxDl : TtiPoint)
      (nCce : Nat) : History h first → History (h.newRetx newMask tb ttiTxDl nCce) first

def SentWith (t : HarqTb) (info : TbsInfo) : Prop :=
  t.active = true → t.lastMcs = info.mcs ∧ t.lastTbs = info.tbsBytes ∧ Sendable info

theorem setAck_tb {h : DlHarqProc} {one tb : TbIdx} {ack : Bool} : (h.setAck one ack).1.tb tb = h.tb tb ∨
    (h.tb tb).active = true ∧ (h.setAck one ack).1.tb tb = { h.tb tb with ackState := ack, active := !ack } := by
  unfold DlHarqProc.setAck setAckCommon
  by_cases empty : h.isEmptyTb one = true
  · rw [if_pos empty]
    exact .inl rfl
  · rw [if_neg empty]
    rcases eq_or_ne tb one with rfl | different
    · right
      exact ⟨by simpa [isEmptyTb] using empty, update_self tb _ _⟩
    · exact .inl (update_of_ne different _ _)

theorem History.sentWith {h : DlHarqProc} {first : TbIdx → TbsInfo} (history : History h first) (tb : TbIdx) :
    SentWith (h.tb tb) (first tb) := by
  induction history with
  | empty none_active =>
    intro active
    rw [HarqProc.isEmpty_eq_true.mp none_active tb] at active
    contradiction
  | newTti ttiTxDl _ ih =>
    intro active
    have same := DlHarqProc.newTti_active active
    rw [same] at active ⊢
    exact ih active
  | @setAck h first one ack _ ih =>
    rcases @setAck_tb h one tb ack with same | ⟨busy, acked⟩
    · rw [same]
      exact ih
    · rw [acked]
      exact fun _ => ih busy
  | resetPendingData _ ih =>
    intro active
    contradiction
  | @newTx h first newMask one ttiTxDl info nCce maxRetx sendable _ ih =>
    intro active
    rcases eq_or_ne tb one with rfl | different
    · rw [update_self]
      exact ⟨newTx_sent.1, newTx_sent.2, sendable⟩
    · rw [newTx_other different] at active ⊢
      rw [update_of_ne different]
      exact ih active
  | @newRetx h first newMask one ttiTxDl nCce _ ih =>
    intro active
    rcases eq_or_ne tb one with rfl | different
    · rw [newRetx_self] at active ⊢
      exact ih active
    · rw [newRetx_other different] at active ⊢
      exact ih active

/-- The bookkeeping of one block over a call, for a block first sent with `first`. The TTI is that of the process, and
a block that is empty has none. -/
structure TbKept (first : TbsInfo) (tb : TbIdx) (h h' : DlHarqProc) (data : DlSchedData) : Prop where
  idle : isTbEn (tbOf data.dci tb) = false → (h'.tb tb).nRtx = (h.tb tb).nRtx ∧
    (h'.tb tb).ackState = (h.tb tb).ackState ∧ (h.isEmptyTb tb = false → h'.tti = h.tti)
  ndi : (h'.tb tb).ndi ≠ (h.tb tb).ndi ↔ isTbEn (tbOf data.dci tb) = true ∧ h.isEmptyTb tb = true
  again : h.isEmptyTb tb = false → isTbEn (tbOf data.dci tb) = true →
    (data.tbs tb : Int) = first.tbsBytes ∧ ((tbOf data.dci tb).mcsIdx : Int) = first.mcs

theorem generateFormat2a_kept_iff (cell : UeCell) (userMask : List Bool) (ttiTxDl : TtiPoint) (nCce : Nat)
    (a : Allocation) (first : TbIdx → TbsInfo) (history : History a.h first) :
    (∀ tb, TbKept (first tb) tb a.h (generateFormat2a cell userMask ttiTxDl nCce a).h
      (generateFormat2a cell userMask ttiTxDl nCce a).data) ↔
    ¬(cell.dlRi = 0 ∧ ∀ tb, a.h.isEmptyTb tb = false) := by
  constructor
  · rintro kept ⟨one_layer, both⟩
    have disabled : tbEn cell a.h 0 = false := by simp [tbEn, one_layer, both]
    have active : (a.h.tb 0).active = true := by simpa [isEmptyTb] using both 0
    cases @generateFormat2a_outcome cell userMask ttiTxDl nCce a 0 with
    | again _ resent on _ =>
      rw [disabled, Bool.false_and] at on
      have count := ((kept 0).idle on).1
      rw [resent] at count
      dsimp only at count
      omega
    | fresh empty _ _ _ _ =>
      rw [active] at empty
      contradiction
    | idle empty _ _ =>
      rw [active] at empty
      contradiction
  · intro not_both tb
    have enabled : (a.h.tb tb).active = true → tbEn cell a.h tb = true := by
      intro active
      have one : ∀ i : TbIdx, i = 0 ∨ i = 1 := by decide
      unfold tbEn isEmptyTb
      by_cases one_layer : cell.dlRi = 0
      · rw [if_pos one_layer]
        rcases one tb with rfl | rfl
        · have other : (a.h.tb 1).active = false := by
            by_contra busy
            refine not_both ⟨one_layer, ?_⟩
            intro i
            rcases one i with rfl | rfl
            · simpa [isEmptyTb] using active
            · simpa [isEmptyTb] using busy
          simp [other]
        · simp [active]
      · rw [if_neg one_layer, active]
        rfl
    have sent := history.sentWith tb
    cases @generateFormat2a_outcome cell userMask ttiTxDl nCce a tb with
    | again active resent on same =>
      obtain ⟨mcs, tbs, sendable⟩ := sent active
      have is_on : isTbEn (tbOf (generateFormat2a cell userMask ttiTxDl nCce a).data.dci tb) = true := by
        rw [on, enabled active, tbs]
        simpa using sendable.1
      have busy : a.h.isEmptyTb tb = false := by simp [isEmptyTb, active]
      refine ⟨?_, ?_, ?_⟩
      · intro off
        rw [is_on] at off
        contradiction
      · rw [resent, busy]
        simp
      · intro _ _
        obtain ⟨announced_mcs, announced_tbs⟩ := same is_on
        obtain ⟨_, _, _, _⟩ := sendable
        rw [announced_mcs, announced_tbs, mcs, tbs]
        unfold toU32
        omega
    | fresh empty asked alone toggled on =>
      have was_empty : a.h.isEmptyTb tb = true := by simp [isEmptyTb, empty]
      refine ⟨?_, ?_, ?_⟩
      · intro off
        rw [on] at off
        contradiction
      · rw [toggled, on, was_empty]
        simp
      · intro busy
        rw [was_empty] at busy
        contradiction
    | idle empty kept off =>
      have was_empty : a.h.isEmptyTb tb = true := by simp [isEmptyTb, empty]
      refine ⟨?_, ?_, ?_⟩
      · intro _
        rw [kept, was_empty]
        exact ⟨rfl, rfl, fun busy => by contradiction⟩
      · rw [kept, off]
        simp
      · intro busy
        rw [was_empty] at busy
        contradiction

def twoSent : DlHarqProc :=
  (({} : DlHarqProc).newTx [] 0 ⟨100⟩ 10 200 0 5).newTx [] 1 ⟨100⟩ 12 240 0 5

def twoSentFirst : TbIdx → TbsInfo :=
  update (update (fun _ => {}) 0 ⟨200, 10⟩) 1 ⟨240, 12⟩

theorem twoSent_history : History twoSent twoSentFirst :=
  .newTx [] 1 ⟨100⟩ ⟨240, 12⟩ 0 5 (by decide : 0 < (240 : Int) ∧ (240 : Int) < 2147483648 ∧ 0 ≤ (12 : Int) ∧ (12 : Int) < 32)
    (.newTx [] 0 ⟨100⟩ ⟨200, 10⟩ 0 5
      (by decide : 0 < (200 : Int) ∧ (200 : Int) < 2147483648 ∧ 0 ≤ (10 : Int) ∧ (10 : Int) < 32) (.empty rfl))

def twoSentGrant : Allocation :=
  { data := { dci := { rnti := 70, format := .format2A } }, lchHandler := { channels := fun _ => { priority_le := one_le_intMax } }, h := twoSent }

def layersCell (dlRi : Nat) : UeCell :=
  { dlRi, isPcell := true, maxharqTx := 5, computeMcsAndTbs := fun _ _ => {}, computed := fun _ _ => .inl rfl }

theorem twoSent_one_layer : History twoSent twoSentFirst ∧
    ¬∀ tb, TbKept (twoSentFirst tb) tb twoSent (generateFormat2a (layersCell 0) [true] ⟨108⟩ 0 twoSentGrant).h
      (generateFormat2a (layersCell 0) [true] ⟨108⟩ 0 twoSentGrant).data := by
  refine ⟨twoSent_history, ?_⟩
  intro kept
  have count := ((kept 0).idle (by decide)).1
  exact absurd count (by decide)

theorem twoSent_two_layers : History twoSent twoSentFirst ∧
    ∀ tb, TbKept (twoSentFirst tb) tb twoSent (generateFormat2a (layersCell 1) [true] ⟨108⟩ 0 twoSentGrant).h
      (generateFormat2a (layersCell 1) [true] ⟨108⟩ 0 twoSentGrant).data := by
  refine ⟨twoSent_history, ?_⟩
  exact (generateFormat2a_kept_iff (layersCell 1) [true] ⟨108⟩ 0 twoSentGrant twoSentFirst twoSent_history).mpr
    (by decide)

end IsrRan.Mac.Lte.DlDci
