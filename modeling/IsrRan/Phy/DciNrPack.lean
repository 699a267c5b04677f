import IsrRan.Phy.Dci

namespace IsrRan.Phy
open Lib

inductive SearchSpaceType where
  | common0
  | common0A
  | common1
  | common2
  | common3
  | ue
  | rar
  | cg
  deriving DecidableEq, Repr

def SearchSpaceType.isCommon : SearchSpaceType → Bool
  | common0 | common0A | common1 | common2 | common3 => true
  | ue | rar | cg => false

inductive RntiType where
  | c
  | p
  | si
  | ra
  | tc
  | cs
  | spCsi
  | mcsC
  deriving DecidableEq, Repr

inductive DciFormatNr where
  | f00
  | f01
  | f10
  | f11
  deriving DecidableEq, Repr

inductive HarqAckCodebook where
  | absent
  | semiStatic
  | dynamic
  deriving DecidableEq, Repr

inductive ResourceAlloc where
  | type0
  | type1
  | dynamic
  deriving DecidableEq, Repr

inductive DmrsSchType where
  | type1
  | type2
  deriving DecidableEq, Repr

inductive DmrsSchLen where
  | len1
  | len2
  deriving DecidableEq, Repr

structure DciCfgNr where
  coreset0Bw : Nat := 0
  bwpDlInitialBw : Nat
  bwpDlActiveBw : Nat
  bwpUlInitialBw : Nat
  bwpUlActiveBw : Nat
  monitorCommon00 : Bool := true
  monitor00And10 : Bool := true
  monitor01And11 : Bool := true
  enableSul : Bool := false
  enableHopping : Bool := false
  carrierIndicatorSize : Nat := 0
  harqAckCodebok : HarqAckCodebook := .dynamic
  nofRbGroups : Nat := 0
  nofUlBwp : Nat := 0
  nofUlTimeRes : Nat := 0
  nofIsr : Nat := 1
  nofUlLayers : Nat := 1
  puschNofCbg : Nat := 0
  reportTriggerSize : Nat := 0
  enableTransformPrecoding : Bool := false
  dynamicDualHarqAckCodebook : Bool := false
  puschTxConfigNonCodebook : Bool := false
  puschPtrs : Bool := false
  puschDynamicBetas : Bool := false
  puschAllocType : ResourceAlloc := .type1
  puschDmrsType : DmrsSchType := .type1
  puschDmrsMaxLen : DmrsSchLen := .len1
  nofDlBwp : Nat := 0
  nofDlTimeRes : Nat := 0
  nofAperiodicZp : Nat := 0
  pdschNofCbg : Nat := 0
  nofDlToUlAck : Nat := 0
  pdschInterPrbToPrb : Bool := false
  pdschRmPattern1 : Bool := false
  pdschRmPattern2 : Bool := false
  pdsch2cw : Bool := false
  multipleScell : Bool := false
  pdschTci : Bool := false
  pdschCbgFlush : Bool := false
  pdschAllocType : ResourceAlloc := .type1
  pdschDmrsType : DmrsSchType := .type1
  pdschDmrsMaxLen : DmrsSchLen := .len1
  deriving DecidableEq, Repr

structure DciCtxNr where
  ssType : SearchSpaceType
  rntiType : RntiType
  format : DciFormatNr
  rnti : Nat
  deriving DecidableEq, Repr

def dciNrFreqResourceSizeType1 (n : Nat) : Nat := if n = 0 then 0 else ceilLog2 (n * (n + 1) % 2 ^ 32 / 2)

def dciNrFreqResourceSize (allocType : ResourceAlloc) (nRbg nBwpRb : Nat) : Nat :=
  match allocType with
  | .type0 => nRbg
  | .type1 => dciNrFreqResourceSizeType1 nBwpRb
  | .dynamic => (max nRbg (dciNrFreqResourceSizeType1 nBwpRb) + 1) % 2 ^ 32

def dciNrBwpIdSize (nBwpRrc : Nat) : Nat := ceilLog2 (if nBwpRrc ≤ 3 then nBwpRrc + 1 else nBwpRrc)

def dciNrTimeResSize (nofTimeRes : Nat) : Nat := ceilLog2 (if nofTimeRes = 0 then 16 else nofTimeRes)

section Sizes
variable (cfg : DciCfgNr)

def dciNrPtrsSize : Nat :=
  if (!cfg.puschPtrs && !cfg.enableTransformPrecoding) || cfg.enableTransformPrecoding || decide (cfg.nofUlLayers ≤ 1)
  then 0 else 2

def dciNrDlPortsSize : Nat :=
  4 + (if cfg.pdschDmrsType = .type2 then 1 else 0) + (if cfg.pdschDmrsMaxLen = .len2 then 1 else 0)

def dciNrUlPortsSize : Nat :=
  match cfg.enableTransformPrecoding, cfg.puschDmrsType, cfg.puschDmrsMaxLen with
  | true, .type1, .len1 => 2
  | true, .type1, .len2 => 4
  | false, .type1, .len1 => 3
  | false, .type1, .len2 => 4
  | false, .type2, .len1 => 4
  | false, .type2, .len2 => 5
  | true, .type2, _ => 0

/-- `MIN` of 1 and the number of resources: without a non-codebook configuration there is no bit. -/
def dciNrIsrIdSize : Nat :=
  if cfg.puschTxConfigNonCodebook then
    ceilLog2 (((List.range (min cfg.nofUlLayers cfg.nofIsr - 1)).map fun k => cfg.nofIsr / (k + 1)).sum % 2 ^ 32)
  else ceilLog2 (min 1 cfg.nofIsr)

def sulBits : Nat := if cfg.enableSul then 1 else 0

def hopBits (nUlBwpRb : Nat) : Nat := if cfg.enableHopping then if nUlBwpRb < 50 then 1 else 2 else 0

def dciNrFormat00Sizeof (nUlBwpRb : Nat) : Nat :=
  let n := dciNrFreqResourceSizeType1 nUlBwpRb
  if n < hopBits cfg nUlBwpRb then 0
  else 1 + hopBits cfg nUlBwpRb + (n - hopBits cfg nUlBwpRb) + 4 + 1 + 5 + 1 + 2 + 4 + 2 + sulBits cfg

def dciNrFormat10Sizeof (nDlBwpRb : Nat) : Nat :=
  1 + dciNrFreqResourceSizeType1 nDlBwpRb + 4 + 1 + 5 + 1 + 2 + 4 + 2 + 2 + 3 + 3

def isrRequestBits : Nat := if cfg.enableSul then 3 else 2

def ulHoppingFlagBits : Nat := if cfg.puschAllocType = .type0 || !cfg.enableHopping then 0 else 1

def dai1Bits : Nat := if cfg.harqAckCodebok = .semiStatic then 1 else 2

def format01Bits : Nat :=
  1 + cfg.carrierIndicatorSize + sulBits cfg + dciNrBwpIdSize cfg.nofUlBwp +
    dciNrFreqResourceSize cfg.puschAllocType cfg.nofRbGroups cfg.bwpUlActiveBw + dciNrTimeResSize cfg.nofUlTimeRes +
    ulHoppingFlagBits cfg + 5 + 1 + 2 + 4 + dai1Bits cfg + (if cfg.dynamicDualHarqAckCodebook then 2 else 0) + 2 +
    dciNrIsrIdSize cfg + dciNrUlPortsSize cfg + isrRequestBits cfg + min 6 cfg.reportTriggerSize + cfg.puschNofCbg +
    dciNrPtrsSize cfg + (if cfg.puschDynamicBetas then 2 else 0) + (if cfg.enableTransformPrecoding then 0 else 1) + 1

def dciNrFormat01Sizeof : Nat :=
  if !cfg.puschTxConfigNonCodebook && decide (cfg.nofUlLayers > 1) then 0 else format01Bits cfg % 2 ^ 32

def vrbToPrbBits : Nat := if cfg.pdschAllocType ≠ .type0 ∧ cfg.pdschInterPrbToPrb then 1 else 0

def zpCsiRsBits : Nat := ceilLog2 ((cfg.nofAperiodicZp + 1) % 2 ^ 32)

def dlDaiBits : Nat := if cfg.harqAckCodebok = .dynamic then if cfg.multipleScell then 4 else 2 else 0

def format11Bits : Nat :=
  1 + cfg.carrierIndicatorSize + dciNrBwpIdSize cfg.nofDlBwp +
    dciNrFreqResourceSize cfg.pdschAllocType cfg.nofRbGroups cfg.bwpDlActiveBw + dciNrTimeResSize cfg.nofDlTimeRes +
    vrbToPrbBits cfg + (if cfg.pdschRmPattern1 then 1 else 0) + (if cfg.pdschRmPattern2 then 1 else 0) +
    zpCsiRsBits cfg + 5 + 1 + 2 + (if cfg.pdsch2cw then 5 + 1 + 2 else 0) + 4 + dlDaiBits cfg + 2 + 3 +
    ceilLog2 cfg.nofDlToUlAck + dciNrDlPortsSize cfg + (if cfg.pdschTci then 3 else 0) + isrRequestBits cfg +
    cfg.pdschNofCbg + (if cfg.pdschCbgFlush then 1 else 0) + 1

def dciNrFormat11Sizeof : Nat := format11Bits cfg % 2 ^ 32

def dlBw (ssType : SearchSpaceType) : Nat :=
  if ssType.isCommon then if cfg.coreset0Bw = 0 then cfg.bwpDlInitialBw else cfg.coreset0Bw else cfg.bwpDlActiveBw

def ulBw (ssType : SearchSpaceType) : Nat := if ssType.isCommon then cfg.bwpUlInitialBw else cfg.bwpUlActiveBw

end Sizes

structure DciNr where
  cfg : DciCfgNr
  dci00And10CommonSize : Nat
  dci00CommonTrunc : Nat
  dci00CommonPadd : Nat
  dci00And10UeSize : Nat
  dci00UePadd : Nat
  dci10UePadd : Nat
  dci01Size : Nat
  dci01Padd : Nat
  dci11Size : Nat
  dci11Padd : Nat
  deriving DecidableEq, Repr

def dciNrMinSize : Nat := 12

def dciNrSetCfg (cfg : DciCfgNr) : Option DciNr :=
  let sizeDci00Common := dciNrFormat00Sizeof cfg cfg.bwpUlInitialBw
  let sizeDci10Common :=
    if cfg.coreset0Bw ≠ 0 then dciNrFormat10Sizeof cfg.coreset0Bw else dciNrFormat10Sizeof cfg.bwpDlInitialBw
  let sizeDci00Ue := dciNrFormat00Sizeof cfg cfg.bwpUlActiveBw
  let sizeDci10Ue := dciNrFormat10Sizeof cfg.bwpDlActiveBw
  let ueSize := max (max sizeDci00Ue sizeDci10Ue) dciNrMinSize
  let sizeDci01 := dciNrFormat01Sizeof cfg
  let sizeDci11 := dciNrFormat11Sizeof cfg
  if sizeDci01 = 0 ∨ sizeDci11 = 0 then none
  else
    let padd01 := if sizeDci01 = ueSize then 1 else 0
    let padd11 := if sizeDci11 = ueSize then 1 else 0
    some {
      cfg
      dci00And10CommonSize := max sizeDci10Common dciNrMinSize
      dci00CommonPadd :=
        if cfg.monitorCommon00 ∧ sizeDci00Common < sizeDci10Common then sizeDci10Common - sizeDci00Common else 0
      dci00CommonTrunc :=
        if cfg.monitorCommon00 ∧ sizeDci00Common > sizeDci10Common then sizeDci00Common - sizeDci10Common else 0
      dci00And10UeSize := ueSize
      dci00UePadd := if cfg.monitor00And10 ∧ sizeDci00Ue < sizeDci10Ue then sizeDci10Ue - sizeDci00Ue else 0
      dci10UePadd := if cfg.monitor00And10 ∧ sizeDci10Ue < sizeDci00Ue then sizeDci00Ue - sizeDci10Ue else 0
      dci01Padd := padd01
      dci01Size := sizeDci01 + padd01
      dci11Padd := padd11
      dci11Size := sizeDci11 + padd11 }

def dciNrSize (q : DciNr) (ssType : SearchSpaceType) (format : DciFormatNr) : Nat :=
  if ssType.isCommon then q.dci00And10CommonSize
  else
    match format with
    | .f00 | .f10 => q.dci00And10UeSize
    | .f01 => q.dci01Size
    | .f11 => q.dci11Size

@[ext]
structure DciUlNr where
  ctx : DciCtxNr
  freqDomainAssigment : Nat := 0
  timeDomainAssigment : Nat := 0
  freqHoppingFlag : Nat := 0
  mcs : Nat := 0
  rv : Nat := 0
  ndi : Nat := 0
  pid : Nat := 0
  tpc : Nat := 0
  frequencyOffset : Nat := 0
  csiRequest : Nat := 0
  sul : Nat := 0
  ccId : Nat := 0
  bwpId : Nat := 0
  dai1 : Nat := 0
  dai2 : Nat := 0
  isrId : Nat := 0
  ports : Nat := 0
  isrRequest : Nat := 0
  cbgInfo : Nat := 0
  ptrsId : Nat := 0
  betaId : Nat := 0
  dmrsId : Nat := 0
  ulsch : Nat := 0
  deriving DecidableEq, Repr

@[ext]
structure DciDlNr where
  ctx : DciCtxNr
  freqDomainAssigment : Nat := 0
  timeDomainAssigment : Nat := 0
  vrbToPrbMapping : Nat := 0
  mcs : Nat := 0
  rv : Nat := 0
  reserved : Nat := 0
  ndi : Nat := 0
  pid : Nat := 0
  dai : Nat := 0
  tpc : Nat := 0
  pucchResource : Nat := 0
  harqFeedback : Nat := 0
  smi : Nat := 0
  sm : Nat := 0
  tbScaling : Nat := 0
  sii : Nat := 0
  mcs2 : Nat := 0
  ndi2 : Nat := 0
  rv2 : Nat := 0
  ccId : Nat := 0
  bwpId : Nat := 0
  rmPattern1 : Nat := 0
  rmPattern2 : Nat := 0
  zpCsiRsId : Nat := 0
  ports : Nat := 0
  tci : Nat := 0
  isrRequest : Nat := 0
  cbgInfo : Nat := 0
  cbgFlush : Nat := 0
  dmrsId : Nat := 0
  coreset0Bw : Nat := 0
  deriving DecidableEq, Repr

def dciNrPayload : Nat := 50

structure DciMsgNr where
  ctx : DciCtxNr
  payload : List Bool
  nofBits : Nat

def bitsIf (present : Bool) (width : Nat) : Nat := if present then width else 0

/-- The end of each packer: the fields have filled the payload (past its end the behaviour is undefined, as it is for
a field of more than 32 bits) and must be as many bits as the size says. -/
def packFields (size : Nat) (fields : List (Nat × Nat)) : Option (List Bool × Nat) :=
  let bits := writeFields fields
  if bits.length ≤ dciNrPayload ∧ size = bits.length then some (bits, size) else none

def RntiType.isFor00 (rntiType : RntiType) : Bool := rntiType ∈ [.c, .cs, .mcsC, .tc]

def RntiType.isFor01 (rntiType : RntiType) : Bool := rntiType ∈ [.c, .cs, .spCsi, .mcsC]

def RntiType.isFor11 (rntiType : RntiType) : Bool := rntiType ∈ [.c, .cs, .mcsC]

section Format00
variable (q : DciNr)

/-- The packer's `N_UL_hop`, which tests the bandwidth and not whether it is less than 50. -/
def packHopBits (nUlBwpRb : Nat) : Nat := if q.cfg.enableHopping then if nUlBwpRb ≠ 0 then 1 else 2 else 0

def dciNrFormat00Pack (dci : DciUlNr) : Option (List Bool × Nat) :=
  let isCommon := dci.ctx.ssType.isCommon
  let trunc := if isCommon then q.dci00CommonTrunc else 0
  let padding := if isCommon then q.dci00CommonPadd else q.dci00UePadd
  let bw := ulBw q.cfg dci.ctx.ssType
  let nUlHop := packHopBits q bw
  let n := dciNrFreqResourceSizeType1 bw
  if !dci.ctx.rntiType.isFor00 then none
  else if n ≤ nUlHop then none
  else
    packFields (dciNrSize q dci.ctx.ssType .f00) [
      (1, 0), (nUlHop, dci.frequencyOffset), (n - nUlHop - trunc, dci.freqDomainAssigment),
      (4, dci.timeDomainAssigment), (1, dci.freqHoppingFlag), (5, dci.mcs), (1, dci.ndi), (2, dci.rv), (4, dci.pid),
      (2, dci.tpc), (padding, 0), (sulBits q.cfg, 0)]

/-- Hopping, truncation and padding are constants in the reader: none, none and eight bits. The pointer moves over the
padding without a read, so that it is read here only where the SUL indicator is behind it. -/
def format00Fields (ssType : SearchSpaceType) : List (BitField DciUlNr) := [
  ⟨0, fun v d => { d with frequencyOffset := v }⟩,
  ⟨dciNrFreqResourceSizeType1 (ulBw q.cfg ssType), fun v d => { d with freqDomainAssigment := v }⟩,
  ⟨4, fun v d => { d with timeDomainAssigment := v }⟩,
  ⟨1, fun v d => { d with freqHoppingFlag := v }⟩,
  ⟨5, fun v d => { d with mcs := v }⟩,
  ⟨1, fun v d => { d with ndi := v }⟩,
  ⟨2, fun v d => { d with rv := v }⟩,
  ⟨4, fun v d => { d with pid := v }⟩,
  ⟨2, fun v d => { d with tpc := v }⟩,
  ⟨bitsIf q.cfg.enableSul 8, fun _ d => d⟩,
  ⟨sulBits q.cfg, fun v d => { d with sul := if q.cfg.enableSul then v else d.sul }⟩]

def dciNrFormat00Unpack (msg : DciMsgNr) (dci : DciUlNr) : Option DciUlNr :=
  if !msg.ctx.rntiType.isFor00 then none
  else if msg.nofBits ≠ dciNrSize q msg.ctx.ssType .f00 then none
  else
    ((do
      let isDl ← takeBit
      if isDl then failure else readFields (format00Fields q msg.ctx.ssType) dci : BitReader DciUlNr) msg.payload).map
      Prod.fst

end Format00

section Format01
variable (q : DciNr)

def format01PackedFirst (dci : DciUlNr) : List (Nat × Nat) :=
  let cfg := q.cfg
  [(1, 0), (cfg.carrierIndicatorSize, dci.ccId), (sulBits cfg, dci.sul), (dciNrBwpIdSize cfg.nofUlBwp, dci.bwpId),
    (dciNrFreqResourceSize cfg.puschAllocType cfg.nofRbGroups cfg.bwpUlActiveBw, dci.freqDomainAssigment),
    (dciNrTimeResSize cfg.nofUlTimeRes, dci.timeDomainAssigment), (ulHoppingFlagBits cfg, dci.freqHoppingFlag),
    (5, dci.mcs), (1, dci.ndi), (2, dci.rv), (4, dci.pid), (dai1Bits cfg, dci.dai1),
    (bitsIf cfg.dynamicDualHarqAckCodebook 2, dci.dai2), (2, dci.tpc), (dciNrIsrIdSize cfg, dci.isrId)]

def format01PackedRest (dci : DciUlNr) : List (Nat × Nat) :=
  let cfg := q.cfg
  [(isrRequestBits cfg, dci.isrRequest), (min 6 cfg.reportTriggerSize, dci.csiRequest), (cfg.puschNofCbg, dci.cbgInfo),
    (dciNrPtrsSize cfg, dci.ptrsId), (bitsIf cfg.puschDynamicBetas 2, dci.betaId),
    (bitsIf (!cfg.enableTransformPrecoding) 1, dci.dmrsId), (1, dci.ulsch)]

/-- For a non-codebook configuration the packer stops in the middle, and returns 0, which is success, with `nof_bits` as
it was. -/
def dciNrFormat01Pack (dci : DciUlNr) (nofBits : Nat) : Option (List Bool × Nat) :=
  let first := format01PackedFirst q dci
  if !dci.ctx.rntiType.isFor01 then none
  else if q.cfg.puschTxConfigNonCodebook then
    if (writeFields first).length ≤ dciNrPayload then some (writeFields first, nofBits) else none
  else
    packFields (dciNrSize q dci.ctx.ssType .f01)
      (first ++ (dciNrUlPortsSize q.cfg, dci.ports) :: format01PackedRest q dci)

def format01FieldsFirst : List (BitField DciUlNr) :=
  let cfg := q.cfg
  [⟨min cfg.carrierIndicatorSize 3, fun v d => { d with ccId := v }⟩,
    ⟨sulBits cfg, fun v d => { d with sul := v }⟩,
    ⟨dciNrBwpIdSize cfg.nofUlBwp, fun v d => { d with bwpId := v }⟩,
    ⟨dciNrFreqResourceSize cfg.puschAllocType cfg.nofRbGroups cfg.bwpUlActiveBw,
      fun v d => { d with freqDomainAssigment := v }⟩,
    ⟨dciNrTimeResSize cfg.nofUlTimeRes, fun v d => { d with timeDomainAssigment := v }⟩,
    ⟨ulHoppingFlagBits cfg,
      fun v d => { d with freqHoppingFlag := if ulHoppingFlagBits cfg = 1 then v else d.freqHoppingFlag }⟩,
    ⟨5, fun v d => { d with mcs := v }⟩,
    ⟨1, fun v d => { d with ndi := v }⟩,
    ⟨2, fun v d => { d with rv := v }⟩,
    ⟨4, fun v d => { d with pid := v }⟩,
    ⟨dai1Bits cfg, fun v d => { d with dai1 := v }⟩,
    ⟨bitsIf cfg.dynamicDualHarqAckCodebook 2,
      fun v d => { d with dai2 := if cfg.dynamicDualHarqAckCodebook then v else d.dai2 }⟩,
    ⟨2, fun v d => { d with tpc := v }⟩,
    ⟨dciNrIsrIdSize cfg, fun v d => { d with isrId := v }⟩]

def format01FieldsRest : List (BitField DciUlNr) :=
  let cfg := q.cfg
  [⟨3, fun v d => { d with ports := v }⟩,
    ⟨isrRequestBits cfg, fun v d => { d with isrRequest := v }⟩,
    ⟨min 6 cfg.reportTriggerSize, fun v d => { d with csiRequest := v }⟩,
    ⟨cfg.puschNofCbg, fun v d => { d with cbgInfo := v }⟩,
    ⟨dciNrPtrsSize cfg, fun v d => { d with ptrsId := v }⟩,
    ⟨bitsIf cfg.puschDynamicBetas 2, fun v d => { d with betaId := if cfg.puschDynamicBetas then v else d.betaId }⟩,
    ⟨bitsIf (!cfg.enableTransformPrecoding) 1,
      fun v d => { d with dmrsId := if cfg.enableTransformPrecoding then d.dmrsId else v }⟩,
    ⟨1, fun v d => { d with ulsch := v }⟩]

/-- Neither a non-codebook configuration nor antenna ports but those of the first case is implemented: the reader then
returns 0, which is success, with the rest of the fields as they were. -/
def format01StopsEarly (cfg : DciCfgNr) : Bool :=
  cfg.puschTxConfigNonCodebook || !(!cfg.enableTransformPrecoding && cfg.puschDmrsMaxLen == .len1)

def dciNrFormat01Unpack (msg : DciMsgNr) (dci : DciUlNr) : Option DciUlNr := do
  if !msg.ctx.rntiType.isFor01 then none
  else
    let (isDl, bits) ← takeBit msg.payload
    if isDl then none
    else
      let (dci, bits) ← readFields (format01FieldsFirst q) dci bits
      if format01StopsEarly q.cfg then some dci
      else
        let (dci, bits) ← readFields (format01FieldsRest q) dci bits
        if msg.nofBits ≠ msg.payload.length - bits.length then none else some dci

end Format01

section Format10
variable (q : DciNr)

def RntiType.isUser (rntiType : RntiType) : Bool := rntiType == .c || rntiType == .tc

def reservedBits : RntiType → Nat
  | .p => 6
  | .si => 15
  | .ra => 16
  | _ => 0

def dciNrFormat10Pack (dci : DciDlNr) : Option (List Bool × Nat) :=
  let rnti := dci.ctx.rntiType
  packFields (dciNrSize q dci.ctx.ssType .f10) [
    (bitsIf rnti.isUser 1, 1), (bitsIf (rnti == .p) 2, dci.smi), (bitsIf (rnti == .p) 8, dci.sm),
    (dciNrFreqResourceSizeType1 (dlBw q.cfg dci.ctx.ssType), dci.freqDomainAssigment), (4, dci.timeDomainAssigment),
    (1, dci.vrbToPrbMapping), (5, dci.mcs), (bitsIf (rnti == .p || rnti == .ra) 2, dci.tbScaling),
    (bitsIf rnti.isUser 1, dci.ndi), (bitsIf (rnti.isUser || rnti == .si) 2, dci.rv), (bitsIf rnti.isUser 4, dci.pid),
    (bitsIf (rnti == .si) 1, dci.sii), (bitsIf rnti.isUser 2, dci.dai), (bitsIf rnti.isUser 2, dci.tpc),
    (bitsIf rnti.isUser 3, dci.pucchResource), (bitsIf rnti.isUser 3, dci.harqFeedback),
    (reservedBits rnti, dci.reserved)]

def format10Fields (ctx : DciCtxNr) : List (BitField DciDlNr) :=
  let rnti := ctx.rntiType
  let user := rnti.isUser
  [⟨bitsIf (rnti == .p) 2, fun v d => { d with smi := if rnti == .p then v else d.smi }⟩,
    ⟨bitsIf (rnti == .p) 8, fun v d => { d with sm := if rnti == .p then v else d.sm }⟩,
    ⟨dciNrFreqResourceSizeType1 (dlBw q.cfg ctx.ssType), fun v d => { d with freqDomainAssigment := v }⟩,
    ⟨4, fun v d => { d with timeDomainAssigment := v }⟩,
    ⟨1, fun v d => { d with vrbToPrbMapping := v }⟩,
    ⟨5, fun v d => { d with mcs := v }⟩,
    ⟨bitsIf (rnti == .p || rnti == .ra) 2,
      fun v d => { d with tbScaling := if rnti == .p || rnti == .ra then v else d.tbScaling }⟩,
    ⟨bitsIf user 1, fun v d => { d with ndi := if user then v else d.ndi }⟩,
    ⟨bitsIf (user || rnti == .si) 2, fun v d => { d with rv := if user || rnti == .si then v else d.rv }⟩,
    ⟨bitsIf user 4, fun v d => { d with pid := if user then v else d.pid }⟩,
    ⟨bitsIf (rnti == .si) 1, fun v d => { d with sii := if rnti == .si then v else d.sii }⟩,
    ⟨bitsIf user 2, fun v d => { d with dai := if user then v else d.dai }⟩,
    ⟨bitsIf user 2, fun v d => { d with tpc := if user then v else d.tpc }⟩,
    ⟨bitsIf user 3, fun v d => { d with pucchResource := if user then v else d.pucchResource }⟩,
    ⟨bitsIf user 3, fun v d => { d with harqFeedback := if user then v else d.harqFeedback }⟩,
    ⟨reservedBits rnti, fun v d => { d with reserved := if reservedBits rnti = 0 then d.reserved else v }⟩]

def unpackDl (flag : Bool) (fields : List (BitField DciDlNr)) (msg : DciMsgNr) (dci : DciDlNr) : Option DciDlNr := do
  let (isDl, bits) ← (if flag then takeBit else pure true : BitReader Bool) msg.payload
  if !isDl then none
  else
    let (dci, bits) ← readFields fields dci bits
    if msg.nofBits ≠ msg.payload.length - bits.length then none else some dci

def dciNrFormat10Unpack (msg : DciMsgNr) (dci : DciDlNr) : Option DciDlNr :=
  if msg.nofBits ≠ dciNrSize q msg.ctx.ssType .f10 then none
  else unpackDl msg.ctx.rntiType.isUser (format10Fields q msg.ctx) msg dci

end Format10

section Format11
variable (q : DciNr)

def dciNrFormat11Pack (dci : DciDlNr) : Option (List Bool × Nat) :=
  let cfg := q.cfg
  if !dci.ctx.rntiType.isFor11 then none
  else
    packFields (dciNrSize q dci.ctx.ssType .f11) [
      (1, 1), (cfg.carrierIndicatorSize, dci.ccId), (dciNrBwpIdSize cfg.nofDlBwp, dci.bwpId),
      (dciNrFreqResourceSize cfg.pdschAllocType cfg.nofRbGroups cfg.bwpDlActiveBw, dci.freqDomainAssigment),
      (dciNrTimeResSize cfg.nofDlTimeRes, dci.timeDomainAssigment), (vrbToPrbBits cfg, dci.vrbToPrbMapping),
      (bitsIf cfg.pdschRmPattern1 1, dci.rmPattern1), (bitsIf cfg.pdschRmPattern2 1, dci.rmPattern2),
      (zpCsiRsBits cfg, dci.zpCsiRsId), (5, dci.mcs), (1, dci.ndi), (2, dci.rv), (bitsIf cfg.pdsch2cw 5, dci.mcs2),
      (bitsIf cfg.pdsch2cw 1, dci.ndi2), (bitsIf cfg.pdsch2cw 2, dci.rv2), (4, dci.pid), (dlDaiBits cfg, dci.dai),
      (2, dci.tpc), (3, dci.pucchResource), (ceilLog2 cfg.nofDlToUlAck, dci.harqFeedback),
      (dciNrDlPortsSize cfg, dci.ports), (bitsIf cfg.pdschTci 3, dci.tci), (isrRequestBits cfg, dci.isrRequest),
      (cfg.pdschNofCbg, dci.cbgInfo), (bitsIf cfg.pdschCbgFlush 1, dci.cbgFlush), (1, dci.dmrsId)]

def format11Fields : List (BitField DciDlNr) :=
  let cfg := q.cfg
  [⟨cfg.carrierIndicatorSize, fun v d => { d with ccId := v }⟩,
    ⟨dciNrBwpIdSize cfg.nofDlBwp, fun v d => { d with bwpId := v }⟩,
    ⟨dciNrFreqResourceSize cfg.pdschAllocType cfg.nofRbGroups cfg.bwpDlActiveBw,
      fun v d => { d with freqDomainAssigment := v }⟩,
    ⟨dciNrTimeResSize cfg.nofDlTimeRes, fun v d => { d with timeDomainAssigment := v }⟩,
    ⟨vrbToPrbBits cfg, fun v d => { d with vrbToPrbMapping := if vrbToPrbBits cfg = 1 then v else d.vrbToPrbMapping }⟩,
    ⟨bitsIf cfg.pdschRmPattern1 1, fun v d => { d with rmPattern1 := if cfg.pdschRmPattern1 then v else d.rmPattern1 }⟩,
    ⟨bitsIf cfg.pdschRmPattern2 1, fun v d => { d with rmPattern2 := if cfg.pdschRmPattern2 then v else d.rmPattern2 }⟩,
    ⟨zpCsiRsBits cfg, fun v d => { d with zpCsiRsId := v }⟩,
    ⟨5, fun v d => { d with mcs := v }⟩,
    ⟨1, fun v d => { d with ndi := v }⟩,
    ⟨2, fun v d => { d with rv := v }⟩,
    ⟨bitsIf cfg.pdsch2cw 5, fun v d => { d with mcs2 := if cfg.pdsch2cw then v else d.mcs2 }⟩,
    ⟨bitsIf cfg.pdsch2cw 1, fun v d => { d with ndi2 := if cfg.pdsch2cw then v else d.ndi2 }⟩,
    ⟨bitsIf cfg.pdsch2cw 2, fun v d => { d with rv2 := if cfg.pdsch2cw then v else d.rv2 }⟩,
    ⟨4, fun v d => { d with pid := v }⟩,
    ⟨dlDaiBits cfg, fun v d => { d with dai := if cfg.harqAckCodebok = .dynamic then v else d.dai }⟩,
    ⟨2, fun v d => { d with tpc := v }⟩,
    ⟨3, fun v d => { d with pucchResource := v }⟩,
    ⟨ceilLog2 cfg.nofDlToUlAck, fun v d => { d with harqFeedback := v }⟩,
    ⟨dciNrDlPortsSize cfg, fun v d => { d with ports := v }⟩,
    ⟨bitsIf cfg.pdschTci 3, fun v d => { d with tci := if cfg.pdschTci then v else d.tci }⟩,
    ⟨isrRequestBits cfg, fun v d => { d with isrRequest := v }⟩,
    ⟨cfg.pdschNofCbg, fun v d => { d with cbgInfo := v }⟩,
    ⟨bitsIf cfg.pdschCbgFlush 1, fun v d => { d with cbgFlush := if cfg.pdschCbgFlush then v else d.cbgFlush }⟩,
    ⟨1, fun v d => { d with dmrsId := v }⟩]

def dciNrFormat11Unpack (msg : DciMsgNr) (dci : DciDlNr) : Option DciDlNr :=
  if !msg.ctx.rntiType.isFor11 then none
  else if msg.nofBits ≠ dciNrSize q msg.ctx.ssType .f11 then none
  else unpackDl true (format11Fields q) msg dci

end Format11

section Msg
variable (q : DciNr)

def dciNrUlPack (dci : DciUlNr) (nofBits : Nat) : Option (List Bool × Nat) :=
  match dci.ctx.format with
  | .f00 => dciNrFormat00Pack q dci
  | .f01 => dciNrFormat01Pack q dci nofBits
  | _ => none

def dciNrUlUnpack (msg : DciMsgNr) (dci : DciUlNr) : Option DciUlNr :=
  let dci := { dci with ctx := msg.ctx }
  match msg.ctx.format with
  | .f00 => dciNrFormat00Unpack q msg dci
  | .f01 => dciNrFormat01Unpack q msg dci
  | _ => none

def dciNrDlPack (dci : DciDlNr) : Option (List Bool × Nat) :=
  match dci.ctx.format with
  | .f10 => dciNrFormat10Pack q dci
  | .f11 => dciNrFormat11Pack q dci
  | _ => none

def dciNrDlUnpack (msg : DciMsgNr) (dci : DciDlNr) : Option DciDlNr :=
  let dci := { dci with ctx := msg.ctx, coreset0Bw := q.cfg.coreset0Bw }
  match msg.ctx.format with
  | .f10 => dciNrFormat10Unpack q msg dci
  | .f11 => dciNrFormat11Unpack q msg dci
  | _ => none

end Msg

end IsrRan.Phy
