import IsrRan.Common.TimePoint

namespace IsrRan.Mac.Lte
open Function (update update_of_ne update_self)

abbrev TbIdx := Fin 2

instance TbIdx.two : NeZero 2 := ⟨by decide⟩

/-- The arrays of `harq_proc` at one transport block; `max_retx` keeps `nRtx` below the wrap of its type. -/
structure HarqTb where
  ackState : Bool := false
  active : Bool := false
  ndi : Bool := false
  nRtx : Nat := 0
  txCnt : Nat := 0
  lastMcs : Int := 0
  lastTbs : Int := 0
  deriving DecidableEq

structure HarqProc where
  id : Nat := 0
  maxRetx : Nat := 5
  tti : TtiPoint := .invalid
  tb : TbIdx → HarqTb := fun _ => {}

namespace HarqProc

def setTb (h : HarqProc) (tbIdx : TbIdx) (t : HarqTb) : HarqProc := { h with tb := update h.tb tbIdx t }

def reset (h : HarqProc) (tbIdx : TbIdx) : HarqProc :=
  { h.setTb tbIdx { h.tb tbIdx with ackState := false, active := false, nRtx := 0, lastMcs := -1, lastTbs := -1,
                                    txCnt := 0 } with tti := ⟨0⟩ }

def isEmptyTb (h : HarqProc) (tbIdx : TbIdx) : Bool := !(h.tb tbIdx).active

def isEmpty (h : HarqProc) : Bool := h.isEmptyTb 0 && h.isEmptyTb 1

def hasPendingRetxCommon (h : HarqProc) (tbIdx : TbIdx) : Bool := (h.tb tbIdx).active && !(h.tb tbIdx).ackState

def setAckCommon (h : HarqProc) (tbIdx : TbIdx) (ack : Bool) : HarqProc × Bool :=
  if h.isEmptyTb tbIdx then (h, false)
  else (h.setTb tbIdx { h.tb tbIdx with ackState := ack, active := !ack }, true)

def newTxCommon (h : HarqProc) (tbIdx : TbIdx) (tti : TtiPoint) (mcs tbs : Int) (maxRetx : Nat) : HarqProc :=
  let h := h.reset tbIdx
  let t := h.tb tbIdx
  { h.setTb tbIdx { t with ndi := !t.ndi, txCnt := t.txCnt + 1, lastMcs := mcs, lastTbs := tbs, active := true } with
    tti := tti, maxRetx := maxRetx }

def newRetxCommon (h : HarqProc) (tbIdx : TbIdx) (tti : TtiPoint) : HarqProc :=
  let t := h.tb tbIdx
  { h.setTb tbIdx { t with ackState := false, nRtx := t.nRtx + 1 } with tti := tti }

def resetPendingDataCommon (h : HarqProc) : HarqProc :=
  { h with tb := fun tbIdx => { h.tb tbIdx with active := false } }

def nofRetx (h : HarqProc) (tbIdx : TbIdx) : Nat := (h.tb tbIdx).nRtx
def getNdi (h : HarqProc) (tbIdx : TbIdx) : Bool := (h.tb tbIdx).ndi

end HarqProc

structure DlHarqProc extends HarqProc where
  rbgmask : List Bool := []
  nCce : Nat := 0

namespace DlHarqProc

def hasPendingRetxTb (h : DlHarqProc) (tbIdx : TbIdx) (ttiTxDl : TtiPoint) : Bool :=
  ttiTxDl.ge (toTxDlAck h.tti) && h.hasPendingRetxCommon tbIdx

def hasPendingRetx (h : DlHarqProc) (ttiTxDl : TtiPoint) : Bool :=
  h.hasPendingRetxTb 0 ttiTxDl || h.hasPendingRetxTb 1 ttiTxDl

def newTti (h : DlHarqProc) (ttiTxDl : TtiPoint) : DlHarqProc :=
  { h with tb := fun tbIdx =>
      if h.hasPendingRetxTb tbIdx ttiTxDl ∧ h.nofRetx tbIdx + 1 ≥ h.maxRetx then
        { h.tb tbIdx with active := false }
      else h.tb tbIdx }

def newTx (h : DlHarqProc) (newMask : List Bool) (tbIdx : TbIdx) (ttiTxDl : TtiPoint) (mcs tbs : Int) (nCce : Nat)
    (maxRetx : Nat) : DlHarqProc :=
  { toHarqProc := h.newTxCommon tbIdx ttiTxDl mcs tbs maxRetx, rbgmask := newMask, nCce := nCce }

def newRetx (h : DlHarqProc) (newMask : List Bool) (tbIdx : TbIdx) (ttiTxDl : TtiPoint) (nCce : Nat) : DlHarqProc :=
  { toHarqProc := h.newRetxCommon tbIdx ttiTxDl, rbgmask := newMask, nCce := nCce }

def setAck (h : DlHarqProc) (tbIdx : TbIdx) (ack : Bool) : DlHarqProc × Bool :=
  let (p, ok) := h.setAckCommon tbIdx ack
  ({ h with toHarqProc := p }, ok)

def resetPendingData (h : DlHarqProc) : DlHarqProc := { h with toHarqProc := h.resetPendingDataCommon }

end DlHarqProc

structure PrbInterval where
  start : Nat
  stop : Nat
  deriving DecidableEq, Repr

structure UlHarqProc extends HarqProc where
  allocation : PrbInterval := ⟨0, 0⟩
  pendingData : Int := 0
  pendingPhich : Bool := false
  isMsg3 : Bool := false
  pdcchRequested : Bool := false

namespace UlHarqProc

def hasPendingRetx (h : UlHarqProc) : Bool := h.hasPendingRetxCommon 0

def resetPendingData (h : UlHarqProc) : UlHarqProc :=
  { h with toHarqProc := h.resetPendingDataCommon, pendingData := 0, isMsg3 := false, pdcchRequested := false }

def newTti (h : UlHarqProc) : UlHarqProc :=
  if h.hasPendingRetx ∧ h.nofRetx 0 + 1 ≥ h.maxRetx then
    let h := { h with toHarqProc := h.setTb 0 { h.tb 0 with active := false } }
    if h.pendingPhich then h else h.resetPendingData
  else h

def newTx (h : UlHarqProc) (tti : TtiPoint) (mcs tbs : Int) (alloc : PrbInterval) (maxRetx : Nat) (isMsg3 : Bool) :
    UlHarqProc :=
  { toHarqProc := h.newTxCommon 0 tti mcs tbs maxRetx, allocation := alloc, pendingData := tbs, pendingPhich := true,
    isMsg3 := isMsg3, pdcchRequested := false }

def newRetx (h : UlHarqProc) (tti : TtiPoint) (alloc : PrbInterval) : UlHarqProc :=
  { h with toHarqProc := h.newRetxCommon 0 tti, allocation := alloc, pendingPhich := true, pdcchRequested := false }

def retxRequiresPdcch (h : UlHarqProc) (alloc : PrbInterval) : Bool := alloc ≠ h.allocation || h.pdcchRequested

def setAck (h : UlHarqProc) (tbIdx : TbIdx) (ack : Bool) : UlHarqProc × Bool :=
  if h.isEmpty then (h, false)
  else
    let h := { h with toHarqProc := (h.setAckCommon tbIdx ack).1 }
    (if h.isEmptyTb 0 && !h.pendingPhich then h.resetPendingData else h, true)

def requestPdcch (h : UlHarqProc) : UlHarqProc := { h with pdcchRequested := true }

def retxSkipped (h : UlHarqProc) : UlHarqProc :=
  { h with toHarqProc := h.setTb 0 { h.tb 0 with nRtx := (h.tb 0).nRtx + 1 }, pdcchRequested := true }

def popPendingPhich (h : UlHarqProc) : Option (UlHarqProc × Bool) :=
  if h.pendingPhich then
    let ret := (h.tb 0).ackState
    let h := { h with pendingPhich := false }
    some (if h.isEmptyTb 0 then h.resetPendingData else h, ret)
  else none

end UlHarqProc

def isAsync : Bool := fddHarqDelayUlMs ≤ 4

structure HarqEntity where
  lastTtis : Nat → TtiPoint := fun _ => .invalid
  nofDlHarqs : Nat
  nofUlHarqs : Nat
  dlHarqs : Nat → DlHarqProc := fun i => { id := i }
  ulHarqs : Nat → UlHarqProc := fun i => { id := i }

namespace HarqEntity

def setDl (ent : HarqEntity) (pid : Nat) (h : DlHarqProc) : HarqEntity :=
  { ent with dlHarqs := update ent.dlHarqs pid h }

def reset (ent : HarqEntity) : HarqEntity :=
  { ent with
    dlHarqs := fun i => { ent.dlHarqs i with toHarqProc := ((ent.dlHarqs i).reset 0).reset 1 }
    ulHarqs := fun i =>
      let once := { ent.ulHarqs i with toHarqProc := (ent.ulHarqs i).reset 0 }.resetPendingData
      { once with toHarqProc := once.reset 1 }.resetPendingData }

def getUlHarq (ent : HarqEntity) (ttiTxUl : TtiPoint) : Nat := ttiTxUl.ttiVal % ent.nofUlHarqs

def newTti (ent : HarqEntity) (ttiRx : TtiPoint) : HarqEntity :=
  let ul := ent.getUlHarq (toTxUl ttiRx)
  { ent with
    lastTtis := update ent.lastTtis (ttiRx.ttiVal % 8) ttiRx
    ulHarqs := update ent.ulHarqs ul (ent.ulHarqs ul).newTti
    dlHarqs := fun i => (ent.dlHarqs i).newTti (toTxDl ttiRx) }

def getEmptyDlHarq (ent : HarqEntity) (ttiTxDl : TtiPoint) : Option Nat :=
  if !isAsync then
    let pid := ttiTxDl.ttiVal % ent.nofDlHarqs
    if (ent.dlHarqs pid).isEmpty then some pid else none
  else (List.range ent.nofDlHarqs).find? fun i => (ent.dlHarqs i).isEmpty

def getOldestDlHarq (ent : HarqEntity) (ttiTxDl : TtiPoint) : Option Nat :=
  ((List.range ent.nofDlHarqs).foldl (fun best i =>
    let h := ent.dlHarqs i
    let ackTtiRx := h.tti.add fddHarqDelayDlMs
    if h.hasPendingRetx ttiTxDl && decide (ent.lastTtis (ackTtiRx.ttiVal % 8) = ackTtiRx) then
      let x := (ttiTxDl.sub h.tti % 2 ^ 32).toNat
      if x > best.2 then (some h.id, x) else best
    else best) (none, 0)).1

def getPendingDlHarq (ent : HarqEntity) (ttiTxDl : TtiPoint) : Option Nat :=
  if !isAsync then
    let pid := ttiTxDl.ttiVal % ent.nofDlHarqs
    if (ent.dlHarqs pid).hasPendingRetx ttiTxDl then some pid else none
  else ent.getOldestDlHarq ttiTxDl

def setAckInfo (ent : HarqEntity) (ttiRx : TtiPoint) (tbIdx : TbIdx) (ack : Bool) : HarqEntity × Nat × Int × Int :=
  match (List.range ent.nofDlHarqs).find? fun i => decide ((ent.dlHarqs i).tti.add fddHarqDelayDlMs = ttiRx) with
  | none => (ent, ent.nofDlHarqs, -1, -1)
  | some i =>
    let (h, ok) := (ent.dlHarqs i).setAck tbIdx ack
    (ent.setDl i h, if ok then (h.id, (h.tb tbIdx).lastTbs, (h.tb tbIdx).lastMcs) else (h.id, -1, -1))

def finishTti (ent : HarqEntity) (ttiRx : TtiPoint) : HarqEntity :=
  let ul := ent.getUlHarq (toTxUl ttiRx)
  let hul := ent.ulHarqs ul
  { ent with
    ulHarqs := update ent.ulHarqs ul (if !hul.isEmpty ∧ hul.maxRetx = 0 then hul.resetPendingData else hul)
    dlHarqs := fun i =>
      let h := ent.dlHarqs i
      if !h.isEmpty ∧ h.maxRetx = 0 then h.resetPendingData else h }

end HarqEntity

/-- The transport blocks that are empty are started, as `generate_format1` and `generate_format2a` do on an empty
process. -/
def DlHarqProc.sendNew (h : DlHarqProc) (newMask : List Bool) (ttiTxDl : TtiPoint) (nCce maxRetx : Nat)
    (pdu : TbIdx → Option (Int × Int)) : DlHarqProc :=
  ([0, 1] : List TbIdx).foldl (fun h tbIdx =>
    match pdu tbIdx with
    | none => h
    | some (mcs, tbs) => h.newTx newMask tbIdx ttiTxDl mcs tbs nCce maxRetx) h

def DlHarqProc.sendAgain (h : DlHarqProc) (newMask : List Bool) (ttiTxDl : TtiPoint) (nCce : Nat) : DlHarqProc :=
  ([0, 1] : List TbIdx).foldl (fun h tbIdx =>
    if h.isEmptyTb tbIdx then h else h.newRetx newMask tbIdx ttiTxDl nCce) h

namespace HarqProc

def Tidy (h : HarqProc) : Prop := ∀ tbIdx, (h.tb tbIdx).active = true → (h.tb tbIdx).ackState = false

theorem isEmpty_eq_true {h : HarqProc} : h.isEmpty = true ↔ ∀ tbIdx, (h.tb tbIdx).active = false := by
  simp [isEmpty, isEmptyTb]

theorem isEmpty_eq_false {h : HarqProc} : h.isEmpty = false ↔ ∃ tbIdx, (h.tb tbIdx).active = true := by
  simp [isEmpty, isEmptyTb, imp_iff_not_or]

theorem setAckCommon_keeps {h : HarqProc} {tbIdx : TbIdx} {ack : Bool} : (h.setAckCommon tbIdx ack).1.tti = h.tti ∧
    (h.setAckCommon tbIdx ack).1.id = h.id ∧ (h.setAckCommon tbIdx ack).1.maxRetx = h.maxRetx := by
  unfold setAckCommon
  split <;> exact ⟨rfl, rfl, rfl⟩

end HarqProc

namespace DlHarqProc
open HarqProc
variable {h : DlHarqProc} {tbIdx : TbIdx} {ttiTxDl : TtiPoint} {newMask : List Bool} {nCce maxRetx : Nat}

theorem hasPendingRetx_eq_true : h.hasPendingRetx ttiTxDl = true ↔ ttiTxDl.ge (toTxDlAck h.tti) = true ∧
    ∃ tbIdx, (h.tb tbIdx).active = true ∧ (h.tb tbIdx).ackState = false := by
  simp only [hasPendingRetx, hasPendingRetxTb, hasPendingRetxCommon, Bool.or_eq_true, Bool.and_eq_true,
    Bool.not_eq_true', Fin.exists_fin_two]
  tauto

theorem newTti_active (active : ((h.newTti ttiTxDl).tb tbIdx).active = true) :
    (h.newTti ttiTxDl).tb tbIdx = h.tb tbIdx := by
  simp only [newTti] at active ⊢
  split at active
  · contradiction
  · rename_i kept
    exact if_neg kept

theorem newTti_early (early : ttiTxDl.ge (toTxDlAck h.tti) = false) : h.newTti ttiTxDl = h := by
  unfold newTti hasPendingRetxTb
  simp [early]

theorem Tidy.newTti (tidy : h.Tidy) : (h.newTti ttiTxDl).Tidy := by
  intro tbIdx active
  have same := newTti_active active
  rw [same] at active ⊢
  exact tidy tbIdx active

theorem Tidy.setAck {ack : Bool} (tidy : h.Tidy) : (h.setAck tbIdx ack).1.Tidy := by
  intro other active
  unfold DlHarqProc.setAck setAckCommon at active ⊢
  by_cases empty : h.isEmptyTb tbIdx = true
  · rw [if_pos empty] at active ⊢
    exact tidy other active
  · rw [if_neg empty] at active ⊢
    dsimp only [setTb] at active ⊢
    rcases eq_or_ne other tbIdx with rfl | different
    · rw [update_self] at active ⊢
      simpa using active
    · rw [update_of_ne different] at active ⊢
      exact tidy other active

theorem setAck_keeps {ack : Bool} : (h.setAck tbIdx ack).1.tti = h.tti ∧ (h.setAck tbIdx ack).1.id = h.id ∧
    (h.setAck tbIdx ack).1.maxRetx = h.maxRetx := setAckCommon_keeps

theorem setAck_active {ack : Bool} (empty : h.isEmpty = true) : (h.setAck tbIdx ack).1.isEmpty = true := by
  have inactive := isEmpty_eq_true.mp empty tbIdx
  unfold setAck setAckCommon isEmptyTb
  simpa [inactive] using empty

theorem newTx_tidy {mcs tbs : Int} (tidy : h.Tidy) : (h.newTx newMask tbIdx ttiTxDl mcs tbs nCce maxRetx).Tidy := by
  intro other active
  rcases eq_or_ne other tbIdx with rfl | different
  · simp [newTx, newTxCommon, HarqProc.reset, setTb]
  · simp only [newTx, newTxCommon, HarqProc.reset, setTb, update_of_ne different] at active ⊢
    exact tidy other active

theorem newTx_active {mcs tbs : Int} :
    ((h.newTx newMask tbIdx ttiTxDl mcs tbs nCce maxRetx).tb tbIdx).active = true := by
  simp [newTx, newTxCommon, setTb]

structure Sent (before after : DlHarqProc) (tti : TtiPoint) : Prop where
  tidy : after.Tidy
  busy : after.isEmpty = false
  tti : after.tti = tti
  id : after.id = before.id

theorem sendNew_sent {pdu : TbIdx → Option (Int × Int)} (tidy : h.Tidy) (some_tb : ∃ tbIdx, pdu tbIdx ≠ none) :
    Sent h (h.sendNew newMask ttiTxDl nCce maxRetx pdu) ttiTxDl ∧
      (h.sendNew newMask ttiTxDl nCce maxRetx pdu).maxRetx = maxRetx := by
  have both := Fin.exists_fin_two.mp some_tb
  unfold sendNew
  simp only [List.foldl_cons]
  cases first : pdu 0 with
  | none =>
    cases second : pdu 1 with
    | none => simp [first, second] at both
    | some pair => exact ⟨⟨newTx_tidy tidy, isEmpty_eq_false.mpr ⟨1, newTx_active⟩, rfl, rfl⟩, rfl⟩
  | some pair =>
    cases second : pdu 1 with
    | none => exact ⟨⟨newTx_tidy tidy, isEmpty_eq_false.mpr ⟨0, newTx_active⟩, rfl, rfl⟩, rfl⟩
    | some pair' =>
      exact ⟨⟨newTx_tidy (newTx_tidy tidy), isEmpty_eq_false.mpr ⟨1, newTx_active⟩, rfl, rfl⟩, rfl⟩

theorem newRetx_tidy (tidy : h.Tidy) : (h.newRetx newMask tbIdx ttiTxDl nCce).Tidy := by
  intro other active
  rcases eq_or_ne other tbIdx with rfl | different
  · simp [newRetx, newRetxCommon, setTb]
  · simp only [newRetx, newRetxCommon, setTb, update_of_ne different] at active ⊢
    exact tidy other active

theorem newRetx_active {other : TbIdx} :
    ((h.newRetx newMask tbIdx ttiTxDl nCce).tb other).active = (h.tb other).active := by
  rcases eq_or_ne other tbIdx with rfl | different
  · simp [newRetx, newRetxCommon, setTb]
  · simp [newRetx, newRetxCommon, setTb, update_of_ne different]

theorem sendAgain_sent (tidy : h.Tidy) (busy : h.isEmpty = false) :
    Sent h (h.sendAgain newMask ttiTxDl nCce) ttiTxDl ∧ (h.sendAgain newMask ttiTxDl nCce).maxRetx = h.maxRetx := by
  obtain ⟨one, active⟩ := isEmpty_eq_false.mp busy
  unfold sendAgain
  simp only [List.foldl_cons]
  by_cases first : h.isEmptyTb 0 = true
  · rw [if_pos first]
    by_cases second : h.isEmptyTb 1 = true
    · have none_active : h.isEmpty = true := by simp [isEmpty, first, second]
      rw [none_active] at busy
      contradiction
    · rw [if_neg second]
      exact ⟨⟨newRetx_tidy tidy, isEmpty_eq_false.mpr ⟨one, newRetx_active.trans active⟩, rfl, rfl⟩, rfl⟩
  · rw [if_neg first]
    split
    · exact ⟨⟨newRetx_tidy tidy, isEmpty_eq_false.mpr ⟨one, newRetx_active.trans active⟩, rfl, rfl⟩, rfl⟩
    · exact ⟨⟨newRetx_tidy (newRetx_tidy tidy),
        isEmpty_eq_false.mpr ⟨one, newRetx_active.trans (newRetx_active.trans active)⟩, rfl, rfl⟩, rfl⟩

end DlHarqProc

end IsrRan.Mac.Lte
