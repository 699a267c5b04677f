import IsrRan.Phy.DciNrPack

namespace IsrRan.Phy
open Lib

def DciCtxNr.Monitored (cfg : DciCfgNr) (ctx : DciCtxNr) : Prop :=
  match ctx.format with
  | .f00 => ctx.rntiType.isFor00 = true ∧
      (ctx.ssType.isCommon ∧ cfg.monitorCommon00 ∨ ctx.ssType = .ue ∧ cfg.monitor00And10)
  | .f10 => ctx.rntiType ≠ .spCsi ∧ (ctx.ssType.isCommon ∨ ctx.ssType = .ue ∧ cfg.monitor00And10)
  | .f01 => ctx.rntiType.isFor01 = true ∧ ctx.ssType = .ue ∧ cfg.monitor01And11
  | .f11 => ctx.rntiType.isFor11 = true ∧ ctx.ssType = .ue ∧ cfg.monitor01And11

section Sizes
variable (cfg : DciCfgNr) (ssType : SearchSpaceType)

def size00 : Nat := dciNrFormat00Sizeof cfg (ulBw cfg ssType)

def size10 : Nat := dciNrFormat10Sizeof (dlBw cfg ssType)

def sizeUe : Nat := max (size00 cfg .ue) (size10 cfg .ue)

end Sizes

section Uplink
variable (q : DciNr)

def DciUlNr.Fits (d : DciUlNr) : Prop :=
  match d.ctx.format with
  | .f00 =>
    let bw := ulBw q.cfg d.ctx.ssType
    let trunc := if d.ctx.ssType.isCommon then q.dci00CommonTrunc else 0
    d.freqDomainAssigment < 2 ^ (dciNrFreqResourceSizeType1 bw - hopBits q.cfg bw - trunc) ∧
      FieldsFit [(hopBits q.cfg bw, d.frequencyOffset), (4, d.timeDomainAssigment), (1, d.freqHoppingFlag),
        (5, d.mcs), (1, d.ndi), (2, d.rv), (4, d.pid), (2, d.tpc), (sulBits q.cfg, d.sul)]
  | .f01 => FieldsFit (format01PackedFirst q d ++ (dciNrUlPortsSize q.cfg, d.ports) :: format01PackedRest q d)
  | _ => False

def DciUlNr.carried (cfg : DciCfgNr) (d init : DciUlNr) : DciUlNr :=
  match d.ctx.format with
  | .f00 =>
    { init with
      ctx := d.ctx
      frequencyOffset := if cfg.enableHopping then d.frequencyOffset else 0
      freqDomainAssigment := held (dciNrFreqResourceSizeType1 (ulBw cfg d.ctx.ssType)) d.freqDomainAssigment
      timeDomainAssigment := d.timeDomainAssigment
      freqHoppingFlag := d.freqHoppingFlag
      mcs := d.mcs
      ndi := d.ndi
      rv := d.rv
      pid := d.pid
      tpc := d.tpc
      sul := if cfg.enableSul then d.sul else init.sul }
  | _ =>
    { init with
      ctx := d.ctx
      ccId := held cfg.carrierIndicatorSize d.ccId
      sul := held (sulBits cfg) d.sul
      bwpId := held (dciNrBwpIdSize cfg.nofUlBwp) d.bwpId
      freqDomainAssigment := held (dciNrFreqResourceSize cfg.puschAllocType cfg.nofRbGroups cfg.bwpUlActiveBw)
        d.freqDomainAssigment
      timeDomainAssigment := held (dciNrTimeResSize cfg.nofUlTimeRes) d.timeDomainAssigment
      freqHoppingFlag := if ulHoppingFlagBits cfg = 1 then d.freqHoppingFlag else init.freqHoppingFlag
      mcs := d.mcs
      ndi := d.ndi
      rv := d.rv
      pid := d.pid
      dai1 := d.dai1
      dai2 := if cfg.dynamicDualHarqAckCodebook then d.dai2 else init.dai2
      tpc := d.tpc
      isrId := held (dciNrIsrIdSize cfg) d.isrId
      ports := held (dciNrUlPortsSize cfg) d.ports
      isrRequest := d.isrRequest
      csiRequest := held (min 6 cfg.reportTriggerSize) d.csiRequest
      cbgInfo := held cfg.puschNofCbg d.cbgInfo
      ptrsId := held (dciNrPtrsSize cfg) d.ptrsId
      betaId := if cfg.puschDynamicBetas then d.betaId else init.betaId
      dmrsId := if cfg.enableTransformPrecoding then init.dmrsId else d.dmrsId
      ulsch := d.ulsch }

/-- Packing succeeds with as many bits as the size says, and unpacking these gives every field the format carries,
whatever stands behind them in the payload and in the record that is unpacked into. -/
def DciUlNr.RoundTrips (d : DciUlNr) : Prop :=
  ∀ nofBits, ∃ bits, dciNrUlPack q d nofBits = some (bits, dciNrSize q d.ctx.ssType d.ctx.format) ∧
    bits.length = dciNrSize q d.ctx.ssType d.ctx.format ∧
    ∀ (init : DciUlNr) (stale : List Bool), bits.length + stale.length = dciNrPayload →
      dciNrUlUnpack q ⟨d.ctx, bits ++ stale, bits.length⟩ init = some (d.carried q.cfg init)

def UlDecodesAll (format : DciFormatNr) : Prop :=
  ∀ (msg : DciMsgNr) (init init' d : DciUlNr), msg.payload.length = dciNrPayload → msg.ctx.format = format →
    dciNrUlUnpack q msg init = some d → dciNrUlUnpack q msg init' = some (d.carried q.cfg init')

end Uplink

section Downlink
variable (q : DciNr)

def format10Packed (dci : DciDlNr) : List (Nat × Nat) :=
  let rnti := dci.ctx.rntiType
  [(bitsIf (rnti == .p) 2, dci.smi), (bitsIf (rnti == .p) 8, dci.sm),
    (dciNrFreqResourceSizeType1 (dlBw q.cfg dci.ctx.ssType), dci.freqDomainAssigment), (4, dci.timeDomainAssigment),
    (1, dci.vrbToPrbMapping), (5, dci.mcs), (bitsIf (rnti == .p || rnti == .ra) 2, dci.tbScaling),
    (bitsIf rnti.isUser 1, dci.ndi), (bitsIf (rnti.isUser || rnti == .si) 2, dci.rv), (bitsIf rnti.isUser 4, dci.pid),
    (bitsIf (rnti == .si) 1, dci.sii), (bitsIf rnti.isUser 2, dci.dai), (bitsIf rnti.isUser 2, dci.tpc),
    (bitsIf rnti.isUser 3, dci.pucchResource), (bitsIf rnti.isUser 3, dci.harqFeedback),
    (reservedBits rnti, dci.reserved)]

def format11Packed (dci : DciDlNr) : List (Nat × Nat) :=
  let cfg := q.cfg
  [(cfg.carrierIndicatorSize, dci.ccId), (dciNrBwpIdSize cfg.nofDlBwp, dci.bwpId),
    (dciNrFreqResourceSize cfg.pdschAllocType cfg.nofRbGroups cfg.bwpDlActiveBw, dci.freqDomainAssigment),
    (dciNrTimeResSize cfg.nofDlTimeRes, dci.timeDomainAssigment), (vrbToPrbBits cfg, dci.vrbToPrbMapping),
    (bitsIf cfg.pdschRmPattern1 1, dci.rmPattern1), (bitsIf cfg.pdschRmPattern2 1, dci.rmPattern2),
    (zpCsiRsBits cfg, dci.zpCsiRsId), (5, dci.mcs), (1, dci.ndi), (2, dci.rv), (bitsIf cfg.pdsch2cw 5, dci.mcs2),
    (bitsIf cfg.pdsch2cw 1, dci.ndi2), (bitsIf cfg.pdsch2cw 2, dci.rv2), (4, dci.pid), (dlDaiBits cfg, dci.dai),
    (2, dci.tpc), (3, dci.pucchResource), (ceilLog2 cfg.nofDlToUlAck, dci.harqFeedback),
    (dciNrDlPortsSize cfg, dci.ports), (bitsIf cfg.pdschTci 3, dci.tci), (isrRequestBits cfg, dci.isrRequest),
    (cfg.pdschNofCbg, dci.cbgInfo), (bitsIf cfg.pdschCbgFlush 1, dci.cbgFlush), (1, dci.dmrsId)]

def DciDlNr.Fits (d : DciDlNr) : Prop :=
  match d.ctx.format with
  | .f10 => FieldsFit (format10Packed q d)
  | .f11 => FieldsFit (format11Packed q d)
  | _ => False

def DciDlNr.carried (cfg : DciCfgNr) (d init : DciDlNr) : DciDlNr :=
  let rnti := d.ctx.rntiType
  match d.ctx.format with
  | .f10 =>
    { init with
      ctx := d.ctx
      coreset0Bw := cfg.coreset0Bw
      smi := if rnti == .p then d.smi else init.smi
      sm := if rnti == .p then d.sm else init.sm
      freqDomainAssigment := held (dciNrFreqResourceSizeType1 (dlBw cfg d.ctx.ssType)) d.freqDomainAssigment
      timeDomainAssigment := d.timeDomainAssigment
      vrbToPrbMapping := d.vrbToPrbMapping
      mcs := d.mcs
      tbScaling := if rnti == .p || rnti == .ra then d.tbScaling else init.tbScaling
      ndi := if rnti.isUser then d.ndi else init.ndi
      rv := if rnti.isUser || rnti == .si then d.rv else init.rv
      pid := if rnti.isUser then d.pid else init.pid
      sii := if rnti == .si then d.sii else init.sii
      dai := if rnti.isUser then d.dai else init.dai
      tpc := if rnti.isUser then d.tpc else init.tpc
      pucchResource := if rnti.isUser then d.pucchResource else init.pucchResource
      harqFeedback := if rnti.isUser then d.harqFeedback else init.harqFeedback
      reserved := if reservedBits rnti = 0 then init.reserved else d.reserved }
  | _ =>
    { init with
      ctx := d.ctx
      coreset0Bw := cfg.coreset0Bw
      ccId := held cfg.carrierIndicatorSize d.ccId
      bwpId := held (dciNrBwpIdSize cfg.nofDlBwp) d.bwpId
      freqDomainAssigment := held (dciNrFreqResourceSize cfg.pdschAllocType cfg.nofRbGroups cfg.bwpDlActiveBw)
        d.freqDomainAssigment
      timeDomainAssigment := held (dciNrTimeResSize cfg.nofDlTimeRes) d.timeDomainAssigment
      vrbToPrbMapping := if vrbToPrbBits cfg = 1 then d.vrbToPrbMapping else init.vrbToPrbMapping
      rmPattern1 := if cfg.pdschRmPattern1 then d.rmPattern1 else init.rmPattern1
      rmPattern2 := if cfg.pdschRmPattern2 then d.rmPattern2 else init.rmPattern2
      zpCsiRsId := held (zpCsiRsBits cfg) d.zpCsiRsId
      mcs := d.mcs
      ndi := d.ndi
      rv := d.rv
      mcs2 := if cfg.pdsch2cw then d.mcs2 else init.mcs2
      ndi2 := if cfg.pdsch2cw then d.ndi2 else init.ndi2
      rv2 := if cfg.pdsch2cw then d.rv2 else init.rv2
      pid := d.pid
      dai := if cfg.harqAckCodebok = .dynamic then d.dai else init.dai
      tpc := d.tpc
      pucchResource := d.pucchResource
      harqFeedback := held (ceilLog2 cfg.nofDlToUlAck) d.harqFeedback
      ports := d.ports
      tci := if cfg.pdschTci then d.tci else init.tci
      isrRequest := d.isrRequest
      cbgInfo := held cfg.pdschNofCbg d.cbgInfo
      cbgFlush := if cfg.pdschCbgFlush then d.cbgFlush else init.cbgFlush
      dmrsId := d.dmrsId }

def DciDlNr.RoundTrips (d : DciDlNr) : Prop :=
  ∃ bits, dciNrDlPack q d = some (bits, dciNrSize q d.ctx.ssType d.ctx.format) ∧
    bits.length = dciNrSize q d.ctx.ssType d.ctx.format ∧
    ∀ (init : DciDlNr) (stale : List Bool), bits.length + stale.length = dciNrPayload →
      dciNrDlUnpack q ⟨d.ctx, bits ++ stale, bits.length⟩ init = some (d.carried q.cfg init)

def DlDecodesAll (format : DciFormatNr) : Prop :=
  ∀ (msg : DciMsgNr) (init init' d : DciDlNr), msg.payload.length = dciNrPayload → msg.ctx.format = format →
    dciNrDlUnpack q msg init = some d → dciNrDlUnpack q msg init' = some (d.carried q.cfg init')

end Downlink

section Kept
variable (cfg : DciCfgNr)

/-- The uplink grants that survive. The reader of format 0_0 knows no hopping offset, no truncation and only a padding
of eight bits; format 0_1 is read for one kind of antenna ports, is not padded where its size says so, and stops in
the middle where something is not implemented. -/
def DciUlNr.Kept (d : DciUlNr) : Prop :=
  match d.ctx.format with
  | .f00 =>
    let ss := d.ctx.ssType
    bitsIf cfg.enableHopping 1 < dciNrFreqResourceSizeType1 (ulBw cfg ss) ∧
      (ss.isCommon → size00 cfg ss ≤ size10 cfg ss) ∧ max (size00 cfg ss) (size10 cfg ss) ≤ dciNrPayload ∧
      (cfg.enableHopping → d.frequencyOffset = 0) ∧ (cfg.enableSul → d.sul = 0 ∧ size00 cfg ss + 8 ≤ size10 cfg ss)
  | .f01 =>
    format01Bits cfg ≤ dciNrPayload ∧ format01Bits cfg ≠ sizeUe cfg ∧ format01StopsEarly cfg = false ∧
      cfg.puschDmrsType = .type1 ∧ cfg.carrierIndicatorSize ≤ 3
  | _ => False

def RntiType.isFor10 (rntiType : RntiType) : Bool := rntiType ∈ [.c, .tc, .p, .si, .ra]

def DciDlNr.Kept (d : DciDlNr) : Prop :=
  match d.ctx.format with
  | .f10 =>
    let ss := d.ctx.ssType
    d.ctx.rntiType.isFor10 = true ∧ size10 cfg ss ≤ dciNrPayload ∧
      (ss.isCommon = false → size00 cfg ss ≤ size10 cfg ss)
  | .f11 => format11Bits cfg ≤ dciNrPayload ∧ format11Bits cfg ≠ sizeUe cfg
  | _ => False

end Kept

section SetCfg
variable {cfg : DciCfgNr} {q : DciNr}

theorem size10_eq (ssType : SearchSpaceType) :
    size10 cfg ssType = dciNrFreqResourceSizeType1 (dlBw cfg ssType) + 28 := by
  unfold size10 dciNrFormat10Sizeof
  omega

structure DciNr.Sized (q : DciNr) (cfg : DciCfgNr) : Prop where
  cfgEq : q.cfg = cfg
  commonSize : ∀ ssType : SearchSpaceType, ssType.isCommon = true → q.dci00And10CommonSize = size10 cfg ssType
  commonPadd : ∀ ssType : SearchSpaceType, ssType.isCommon = true → cfg.monitorCommon00 = true →
    q.dci00CommonPadd = size10 cfg ssType - size00 cfg ssType
  commonTrunc : ∀ ssType : SearchSpaceType, ssType.isCommon = true → cfg.monitorCommon00 = true →
    q.dci00CommonTrunc = size00 cfg ssType - size10 cfg ssType
  ueSize : q.dci00And10UeSize = sizeUe cfg
  uePadd : cfg.monitor00And10 = true → q.dci00UePadd = size10 cfg .ue - size00 cfg .ue
  size01 : q.dci01Size = dciNrFormat01Sizeof cfg + if dciNrFormat01Sizeof cfg = sizeUe cfg then 1 else 0
  size11 : q.dci11Size = dciNrFormat11Sizeof cfg + if dciNrFormat11Sizeof cfg = sizeUe cfg then 1 else 0
  positive01 : dciNrFormat01Sizeof cfg ≠ 0
  positive11 : dciNrFormat11Sizeof cfg ≠ 0

theorem size10_common {ssType : SearchSpaceType} (common : ssType.isCommon = true) :
    size10 cfg ssType =
      if cfg.coreset0Bw ≠ 0 then dciNrFormat10Sizeof cfg.coreset0Bw else dciNrFormat10Sizeof cfg.bwpDlInitialBw := by
  unfold size10 dlBw
  rw [if_pos common]
  by_cases present : cfg.coreset0Bw = 0 <;> simp [present]

theorem size00_common {ssType : SearchSpaceType} (common : ssType.isCommon = true) :
    size00 cfg ssType = dciNrFormat00Sizeof cfg cfg.bwpUlInitialBw := by
  unfold size00 ulBw
  rw [if_pos common]

theorem ite_sub_eq {p : Prop} [Decidable p] (holds : p) (a b : Nat) : (if p ∧ a < b then b - a else 0) = b - a := by
  split
  · rfl
  · next short =>
      have le : b ≤ a := Nat.not_lt.mp fun less => short ⟨holds, less⟩
      omega

theorem sized_of_setCfg (accepted : dciNrSetCfg cfg = some q) : q.Sized cfg := by
  unfold dciNrSetCfg at accepted
  dsimp only at accepted
  split at accepted
  · cases accepted
  · next positive =>
      have sizes := Option.some.inj accepted
      subst sizes
      obtain ⟨positive01, positive11⟩ := not_or.mp positive
      have ue : max (max (dciNrFormat00Sizeof cfg cfg.bwpUlActiveBw) (dciNrFormat10Sizeof cfg.bwpDlActiveBw))
          dciNrMinSize = sizeUe cfg := by
        have large := @size10_eq cfg .ue
        change max (max (size00 cfg .ue) (size10 cfg .ue)) 12 = max (size00 cfg .ue) (size10 cfg .ue)
        omega
      constructor
      · rfl
      · intro ssType common
        have large := @size10_eq cfg ssType
        rw [size10_common common] at large ⊢
        exact Nat.max_eq_left (by rw [large]; exact Nat.le_trans (by decide) (Nat.le_add_left 28 _))
      · intro ssType common monitored
        rw [size10_common common, size00_common common]
        exact ite_sub_eq monitored _ _
      · intro ssType common monitored
        rw [size10_common common, size00_common common]
        exact ite_sub_eq monitored _ _
      · exact ue
      · exact fun monitored => ite_sub_eq monitored _ _
      · dsimp only
        rw [ue]
      · dsimp only
        rw [ue]
      · exact positive01
      · exact positive11

end SetCfg

def readValues {σ : Type} (fields : List (BitField σ)) (values : List Nat) : List Nat :=
  (fieldsOf (widths fields) values).map fun f => f.2 % 2 ^ f.1

section Keep
variable {α : Type} {c : Prop} [Decidable c]

theorem ite_then_kept (a b b' : α) : (if c then a else b') = if c then (if c then a else b) else b' := by
  split <;> rfl

theorem ite_else_kept (a b b' : α) : (if c then b' else a) = if c then b' else (if c then b else a) := by
  split <;> rfl

end Keep

theorem packFields_eq_some {size : Nat} {fields : List (Nat × Nat)} {result : List Bool × Nat} :
    packFields size fields = some result ↔ (writeFields fields).length ≤ dciNrPayload ∧
      size = (writeFields fields).length ∧ result = (writeFields fields, size) := by
  unfold packFields
  dsimp only
  split
  · next fits =>
      rw [Option.some.injEq]
      exact ⟨fun same => ⟨fits.1, fits.2, same.symm⟩, fun all => all.2.2.symm⟩
  · next misfit => exact ⟨(fun absent => nomatch absent), fun all => absurd ⟨all.1, all.2.1⟩ misfit⟩

theorem held_of_ne {width v : Nat} (some_ : width ≠ 0) : held width v = v := if_neg some_

section
variable (q : DciNr) (ctx : DciCtxNr) (values : List Nat)

theorem format00_carried (format : ctx.format = .f00) (init init' : DciUlNr) :
    setFields (format00Fields q ctx.ssType) (readValues (format00Fields q ctx.ssType) values) { init' with ctx } =
      (setFields (format00Fields q ctx.ssType) (readValues (format00Fields q ctx.ssType) values)
        { init with ctx }).carried q.cfg init' := by
  have here : (setFields (format00Fields q ctx.ssType) (readValues (format00Fields q ctx.ssType) values)
      { init with ctx }).ctx.format = .f00 := format
  unfold DciUlNr.carried
  rw [here]
  apply DciUlNr.ext
  case freqDomainAssigment => exact (held_mod _ _).symm
  case frequencyOffset =>
    change values.headD 0 % 2 ^ 0 = if q.cfg.enableHopping then values.headD 0 % 2 ^ 0 else 0
    rw [Nat.pow_zero, Nat.mod_one, ite_self]
  case sul => exact ite_then_kept _ _ _
  all_goals rfl

theorem ulPortsSize_of_goesOn {cfg : DciCfgNr} (goesOn : format01StopsEarly cfg = false) :
    dciNrUlPortsSize cfg = if cfg.puschDmrsType = .type1 then 3 else 4 := by
  unfold format01StopsEarly at goesOn
  unfold dciNrUlPortsSize
  cases tp : cfg.enableTransformPrecoding <;> cases len : cfg.puschDmrsMaxLen <;> cases cfg.puschDmrsType <;>
    simp_all

theorem format01_carried (format : ctx.format = .f01) (goesOn : format01StopsEarly q.cfg = false)
    (init init' : DciUlNr) :
    setFields (format01FieldsFirst q ++ format01FieldsRest q)
        (readValues (format01FieldsFirst q ++ format01FieldsRest q) values) { init' with ctx } =
      (setFields (format01FieldsFirst q ++ format01FieldsRest q)
        (readValues (format01FieldsFirst q ++ format01FieldsRest q) values) { init with ctx }).carried q.cfg init' := by
  have here : (setFields (format01FieldsFirst q ++ format01FieldsRest q)
      (readValues (format01FieldsFirst q ++ format01FieldsRest q) values) { init with ctx }).ctx.format = .f01 := format
  have ports : dciNrUlPortsSize q.cfg ≠ 0 := by
    rw [ulPortsSize_of_goesOn goesOn]
    split <;> decide
  unfold DciUlNr.carried
  rw [here]
  apply DciUlNr.ext
  case ccId =>
    change values.headD 0 % 2 ^ min q.cfg.carrierIndicatorSize 3 =
      held q.cfg.carrierIndicatorSize (values.headD 0 % 2 ^ min q.cfg.carrierIndicatorSize 3)
    cases size : q.cfg.carrierIndicatorSize with
    | zero => exact Nat.mod_one _
    | succ n => exact (held_of_ne (Nat.succ_ne_zero n)).symm
  case ports => exact (held_of_ne ports).symm
  case sul => exact (held_mod _ _).symm
  case bwpId => exact (held_mod _ _).symm
  case freqDomainAssigment => exact (held_mod _ _).symm
  case timeDomainAssigment => exact (held_mod _ _).symm
  case isrId => exact (held_mod _ _).symm
  case csiRequest => exact (held_mod _ _).symm
  case cbgInfo => exact (held_mod _ _).symm
  case ptrsId => exact (held_mod _ _).symm
  case freqHoppingFlag => exact ite_then_kept _ _ _
  case dai2 => exact ite_then_kept _ _ _
  case betaId => exact ite_then_kept _ _ _
  case dmrsId => exact ite_else_kept _ _ _
  all_goals rfl

theorem format10_carried (format : ctx.format = .f10) (init init' : DciDlNr) :
    setFields (format10Fields q ctx) (readValues (format10Fields q ctx) values)
        { init' with
          ctx
          coreset0Bw := q.cfg.coreset0Bw } =
      (setFields (format10Fields q ctx) (readValues (format10Fields q ctx) values)
        { init with
          ctx
          coreset0Bw := q.cfg.coreset0Bw }).carried q.cfg init' := by
  have here : (setFields (format10Fields q ctx) (readValues (format10Fields q ctx) values)
      { init with
        ctx
        coreset0Bw := q.cfg.coreset0Bw }).ctx.format = .f10 := format
  unfold DciDlNr.carried
  rw [here]
  apply DciDlNr.ext
  case freqDomainAssigment => exact (held_mod _ _).symm
  case smi => exact ite_then_kept _ _ _
  case sm => exact ite_then_kept _ _ _
  case tbScaling => exact ite_then_kept _ _ _
  case ndi => exact ite_then_kept _ _ _
  case rv => exact ite_then_kept _ _ _
  case pid => exact ite_then_kept _ _ _
  case sii => exact ite_then_kept _ _ _
  case dai => exact ite_then_kept _ _ _
  case tpc => exact ite_then_kept _ _ _
  case pucchResource => exact ite_then_kept _ _ _
  case harqFeedback => exact ite_then_kept _ _ _
  case reserved => exact ite_else_kept _ _ _
  all_goals rfl

theorem format11_carried (format : ctx.format = .f11) (init init' : DciDlNr) :
    setFields (format11Fields q) (readValues (format11Fields q) values)
        { init' with
          ctx
          coreset0Bw := q.cfg.coreset0Bw } =
      (setFields (format11Fields q) (readValues (format11Fields q) values)
        { init with
          ctx
          coreset0Bw := q.cfg.coreset0Bw }).carried q.cfg init' := by
  have here : (setFields (format11Fields q) (readValues (format11Fields q) values)
      { init with
        ctx
        coreset0Bw := q.cfg.coreset0Bw }).ctx.format = .f11 := format
  unfold DciDlNr.carried
  rw [here]
  apply DciDlNr.ext
  case ccId => exact (held_mod _ _).symm
  case bwpId => exact (held_mod _ _).symm
  case freqDomainAssigment => exact (held_mod _ _).symm
  case timeDomainAssigment => exact (held_mod _ _).symm
  case zpCsiRsId => exact (held_mod _ _).symm
  case harqFeedback => exact (held_mod _ _).symm
  case cbgInfo => exact (held_mod _ _).symm
  case vrbToPrbMapping => exact ite_then_kept _ _ _
  case rmPattern1 => exact ite_then_kept _ _ _
  case rmPattern2 => exact ite_then_kept _ _ _
  case mcs2 => exact ite_then_kept _ _ _
  case ndi2 => exact ite_then_kept _ _ _
  case rv2 => exact ite_then_kept _ _ _
  case dai => exact ite_then_kept _ _ _
  case tci => exact ite_then_kept _ _ _
  case cbgFlush => exact ite_then_kept _ _ _
  all_goals rfl

end

section
variable {q : DciNr}

def heldValues (fields : List (Nat × Nat)) : List Nat := fields.map fun f => held f.1 f.2

theorem ite_bitsIf {c : Bool} {width : Nat} (some_ : width ≠ 0) (v b : Nat) :
    (if c then held (bitsIf c width) v else b) = if c then v else b := by
  cases c
  · rfl
  · exact if_neg some_

def format01Packed (q : DciNr) (d : DciUlNr) : List (Nat × Nat) :=
  (format01PackedFirst q d).tail ++ (dciNrUlPortsSize q.cfg, d.ports) :: format01PackedRest q d

theorem format01_written {d : DciUlNr} (format : d.ctx.format = .f01) (init : DciUlNr) :
    setFields (format01FieldsFirst q ++ format01FieldsRest q) (heldValues (format01Packed q d))
      { init with ctx := d.ctx } =
      d.carried q.cfg init := by
  unfold DciUlNr.carried
  rw [format]
  apply DciUlNr.ext
  case dai1 =>
    change held (dai1Bits q.cfg) d.dai1 = d.dai1
    apply held_of_ne
    unfold dai1Bits
    split <;> decide
  case isrRequest =>
    change held (isrRequestBits q.cfg) d.isrRequest = d.isrRequest
    apply held_of_ne
    unfold isrRequestBits
    split <;> decide
  case freqHoppingFlag =>
    change (if ulHoppingFlagBits q.cfg = 1 then held (ulHoppingFlagBits q.cfg) d.freqHoppingFlag
        else init.freqHoppingFlag) =
      if ulHoppingFlagBits q.cfg = 1 then d.freqHoppingFlag else init.freqHoppingFlag
    split
    · next one => rw [one]; rfl
    · rfl
  case dai2 => exact ite_bitsIf (by decide) _ _
  case betaId => exact ite_bitsIf (by decide) _ _
  case dmrsId =>
    change (if q.cfg.enableTransformPrecoding then init.dmrsId
        else held (bitsIf (!q.cfg.enableTransformPrecoding) 1) d.dmrsId) =
      if q.cfg.enableTransformPrecoding then init.dmrsId else d.dmrsId
    cases q.cfg.enableTransformPrecoding <;> rfl
  all_goals rfl

theorem format10_written {d : DciDlNr} (format : d.ctx.format = .f10) (init : DciDlNr) :
    setFields (format10Fields q d.ctx) (heldValues (format10Packed q d))
        { init with
          ctx := d.ctx
          coreset0Bw := q.cfg.coreset0Bw } = d.carried q.cfg init := by
  unfold DciDlNr.carried
  rw [format]
  apply DciDlNr.ext
  case smi => exact ite_bitsIf (by decide) _ _
  case sm => exact ite_bitsIf (by decide) _ _
  case tbScaling => exact ite_bitsIf (by decide) _ _
  case ndi => exact ite_bitsIf (by decide) _ _
  case rv => exact ite_bitsIf (by decide) _ _
  case pid => exact ite_bitsIf (by decide) _ _
  case sii => exact ite_bitsIf (by decide) _ _
  case dai => exact ite_bitsIf (by decide) _ _
  case tpc => exact ite_bitsIf (by decide) _ _
  case pucchResource => exact ite_bitsIf (by decide) _ _
  case harqFeedback => exact ite_bitsIf (by decide) _ _
  case reserved =>
    change (if reservedBits d.ctx.rntiType = 0 then init.reserved else held (reservedBits d.ctx.rntiType) d.reserved) =
      if reservedBits d.ctx.rntiType = 0 then init.reserved else d.reserved
    split
    · rfl
    · next some_ => exact held_of_ne some_
  all_goals rfl

theorem format11_written {d : DciDlNr} (format : d.ctx.format = .f11) (init : DciDlNr) :
    setFields (format11Fields q) (heldValues (format11Packed q d))
        { init with
          ctx := d.ctx
          coreset0Bw := q.cfg.coreset0Bw } = d.carried q.cfg init := by
  unfold DciDlNr.carried
  rw [format]
  apply DciDlNr.ext
  case vrbToPrbMapping =>
    change (if vrbToPrbBits q.cfg = 1 then held (vrbToPrbBits q.cfg) d.vrbToPrbMapping else init.vrbToPrbMapping) =
      if vrbToPrbBits q.cfg = 1 then d.vrbToPrbMapping else init.vrbToPrbMapping
    split
    · next one => rw [one]; rfl
    · rfl
  case dai =>
    change (if q.cfg.harqAckCodebok = .dynamic then held (dlDaiBits q.cfg) d.dai else init.dai) =
      if q.cfg.harqAckCodebok = .dynamic then d.dai else init.dai
    split
    · next dynamic =>
        apply held_of_ne
        unfold dlDaiBits
        rw [if_pos dynamic]
        split <;> decide
    · rfl
  case ports =>
    apply held_of_ne
    unfold dciNrDlPortsSize
    omega
  case isrRequest =>
    change held (isrRequestBits q.cfg) d.isrRequest = d.isrRequest
    apply held_of_ne
    unfold isrRequestBits
    split <;> decide
  case rmPattern1 => exact ite_bitsIf (by decide) _ _
  case rmPattern2 => exact ite_bitsIf (by decide) _ _
  case mcs2 => exact ite_bitsIf (by decide) _ _
  case ndi2 => exact ite_bitsIf (by decide) _ _
  case rv2 => exact ite_bitsIf (by decide) _ _
  case tci => exact ite_bitsIf (by decide) _ _
  case cbgFlush => exact ite_bitsIf (by decide) _ _
  all_goals rfl

end

end IsrRan.Phy
