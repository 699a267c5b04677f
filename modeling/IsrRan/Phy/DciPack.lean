import IsrRan.Phy.Dci
import Mathlib.Data.List.Perm.Subperm

namespace IsrRan.Phy
open Lib List

/-- What packing leaves in the payload, bit by bit: `none` where the pointer moves on and nothing is written. -/
abbrev Cells := List (Option Bool)

def written (bits : List Bool) : Cells := bits.map some

def padTo {α : Type} (zero : α) (n : Nat) (cells : List α) : List α :=
  cells ++ replicate (n - cells.length) zero

structure DciMsg where
  payload : List Bool
  nofBits : Nat
  rnti : Nat
  format : DciFormat

namespace PuschHop

def val : PuschHop → Nat
  | disabled => 3
  | quart => 0
  | quartNeg => 1
  | half => 2
  | type2 => 3

def ofVal : Nat → PuschHop
  | 0 => quart
  | 1 => quartNeg
  | 2 => half
  | _ => type2

end PuschHop

def NGap.ofBit (b : Bool) : NGap := if b then .ng2 else .ng1

def NGap.bit (gap : NGap) : Bool := gap = .ng2

def NPrb1a.ofBit (b : Bool) : NPrb1a := if b then .three else .two

def NPrb1a.bit (n : NPrb1a) : Bool := n = .three

def Type2Mode.ofBit (b : Bool) : Type2Mode := if b then .dist else .loc

def Type2Mode.bit (mode : Type2Mode) : Bool := mode = .dist

/-- The two bits that are packed of `rv`, an `int` that `isrran_bit_unpack` takes as a `uint32_t`. -/
def rvBits (rv : Int) : List Bool := bitsOf 2 (rv % 2 ^ 32).toNat

def readFlag (present : Bool) : BitReader Bool := if present then takeBit else pure false

section Fields
variable (cell : Cell) (cfg : DciCfg)

def readCif : BitReader Nat := takeBits (cifBits cfg)

def nUlHop : PuschHop → Nat
  | .disabled => 0
  | _ => if cell.nofPrb < 50 then 1 else 2

def hopCells (hop : PuschHop) : List Bool :=
  if hop = .disabled then [false] else true :: bitsOf (nUlHop cell hop) hop.val

def readHop : BitReader PuschHop := do
  let hopping ← takeBit
  if hopping then
    let v ← takeBits (if cell.nofPrb < 50 then 1 else 2)
    pure (PuschHop.ofVal v)
  else pure .disabled

def rbgSubsetBits : Nat := ceilLog2 (raType0P cell.nofPrb)

def vrbBitmaskBits : Nat := allocSize cell.nofPrb - rbgSubsetBits cell - 1

def raAllocCells : RaAlloc → Option (List Bool)
  | .type0 rbgBitmask =>
    some ((if cell.nofPrb > 10 then [false] else []) ++ bitsOf (allocSize cell.nofPrb) rbgBitmask)
  | .type1 rbgSubset shift vrbBitmask =>
    some ((if cell.nofPrb > 10 then [true] else []) ++ bitsOf (rbgSubsetBits cell) rbgSubset ++ [shift] ++
      bitsOf (vrbBitmaskBits cell) vrbBitmask)
  | .type2 _ => none

def readRaType1 : BitReader RaAlloc := do
  let rbgSubset ← takeBits (rbgSubsetBits cell)
  let shift ← takeBit
  let vrbBitmask ← takeBits (vrbBitmaskBits cell)
  pure (.type1 rbgSubset shift vrbBitmask)

def readRaType0 : BitReader RaAlloc := do
  let rbgBitmask ← takeBits (allocSize cell.nofPrb)
  pure (.type0 rbgBitmask)

def readRaAlloc : BitReader RaAlloc := do
  let type1 ← readFlag (cell.nofPrb > 10)
  if type1 then readRaType1 cell else readRaType0 cell

def daiBits : Nat := if cell.isTdd then 2 else 0

def csiBits : Nat := if cfg.multipleCsi then 2 else 1

end Fields

section Format0
variable (cell : Cell) (sf : DlSfCfg) (cfg : DciCfg)

def dciFormat0Pack (d : DciUl) : List Bool :=
  padTo false (dciFormatSizeof cell cfg .format0)
    ((if d.cifPresent then bitsOf 3 d.cif else []) ++ [false] ++ hopCells cell d.freqHopFl ++
      bitsOf (rivNbits cell.nofPrb - nUlHop cell d.freqHopFl) d.type2Riv ++ bitsOf 5 d.tb.mcsIdx ++ [d.tb.ndi] ++
      bitsOf 2 d.tpcPusch ++ bitsOf 3 d.nDmrs ++
      (if cfg.multipleCsi then [d.cqiRequest, false] else [d.cqiRequest]) ++
      if cfg.isrInFormat0 then [d.isrRequest && d.isrRequestPresent] else [])

def readFormat0 (rnti cif : Nat) : BitReader DciUl := do
  let freqHopFl ← readHop cell
  let riv ← takeBits (rivNbits cell.nofPrb - nUlHop cell freqHopFl)
  let mcsIdx ← takeBits 5
  let ndi ← takeBit
  let tpcPusch ← takeBits 2
  let nDmrs ← takeBits 3
  -- `IS_TDD_CFG0` has an uplink index there, the other TDD configurations the assignment index
  let index ← takeBits (daiBits cell)
  let csi ← takeBits (csiBits cfg)
  let isrRequest ← readFlag cfg.isrInFormat0
  let raType ← readFlag cfg.raFormatEnabled
  pure {
    rnti, cif, freqHopFl, tpcPusch, nDmrs, isrRequest, raType
    cifPresent := cfg.cifEnabled
    type2Riv := riv
    tb := ⟨mcsIdx, 0, ndi, 0⟩
    ulIdx := if sf.sfConfig = 0 then index else 0
    dai := if sf.sfConfig = 0 then 0 else index
    isTdd := cell.isTdd
    multipleCsiRequestPresent := cfg.multipleCsi
    multipleCsiRequest := if cfg.multipleCsi then csi else 0
    cqiRequest := !cfg.multipleCsi && csi != 0
    isrRequestPresent := cfg.isrInFormat0
    raTypePresent := cfg.raFormatEnabled }

def dciFormat0Unpack (rnti : Nat) : BitReader DciUl := do
  let cif ← readCif cfg
  let isFormat1A ← takeBit
  if isFormat1A then failure else readFormat0 cell sf cfg rnti cif

end Format0

section Formats
variable (cell : Cell) (cfg : DciCfg)

def dciFormat1Pack (d : DciDl) : Option (List Bool) := do
  let alloc ← raAllocCells cell d.alloc
  some (padTo false (dciFormatSizeof cell cfg .format1)
    ((if d.cifPresent then bitsOf 3 d.cif else []) ++ alloc ++ bitsOf 5 d.tb0.mcsIdx ++ bitsOf cell.harqPidLen d.pid ++
      [d.tb0.ndi] ++ rvBits d.tb0.rv ++ bitsOf 2 d.tpcPucch))

def dciFormat1Unpack (rnti : Nat) : BitReader DciDl := do
  let cif ← readCif cfg
  let alloc ← readRaAlloc cell
  let mcsIdx ← takeBits 5
  let pid ← takeBits cell.harqPidLen
  let ndi ← takeBit
  let rv ← takeBits 2
  let tpcPucch ← takeBits 2
  let dai ← takeBits (daiBits cell)
  pure {
    rnti, cif, alloc, pid, tpcPucch, dai
    format := .format1
    cifPresent := cfg.cifEnabled
    tb0 := ⟨mcsIdx, rv, ndi, 0⟩
    isTdd := cell.isTdd }

def gapFirst (rnti : Nat) (mode : Type2Mode) : Bool :=
  rntiIsUser rnti && mode.bit && decide (cell.nofPrb ≥ 50)

def dciFormat1AsPack (d : DciDl) : Option Cells :=
  let head := (if d.cifPresent then bitsOf 3 d.cif else []) ++ [true]
  let pad := padTo (some false) (dciFormatSizeof cell cfg .format1A)
  if d.isPdcchOrder then
    some (pad (written (head ++ [false] ++ replicate (rivNbits cell.nofPrb) true ++ bitsOf 6 d.preambleIdx ++
      bitsOf 4 d.prachMaskIdx)))
  else
    match d.alloc with
    | .type2 alloc =>
      let gap := gapFirst cell d.rnti alloc.mode
      some (pad (written (head ++ [alloc.mode.bit] ++ (if gap then [alloc.nGap.bit] else []) ++
          bitsOf (rivNbits cell.nofPrb - gap.toNat) alloc.riv ++ bitsOf 5 d.tb0.mcsIdx ++
          bitsOf cell.harqPidLen d.pid) ++
        (if rntiIsUser d.rnti then [some d.tb0.ndi]
          else if cell.nofPrb ≥ 50 ∧ alloc.mode = .dist then [some alloc.nGap.bit] else [none]) ++
        written (rvBits d.tb0.rv) ++
        -- the TPC command is not implemented
        if rntiIsUser d.rnti then [some false, some false] else [none, some alloc.nPrb1a.bit]))
    | _ => none

/-- The test for a PDCCH order, with `y` from the bit behind the format flag on. A carrier indicator is in front of it
and in `nofBits` too, so that with one the last three bits looked at are no bits of the message. -/
def looksLikePdcchOrder (nofBits : Nat) (y : List Bool) : Bool :=
  let nbits := rivNbits cell.nofPrb
  y[0]? == some false && (range nbits).all (fun i => y[1 + i]? == some true) &&
    decide (1 + 10 + nbits ≤ nofBits - 1) &&
    (range (nofBits - 1 - (1 + 10 + nbits))).all (fun i => y[1 + 10 + nbits + i]? == some false)

def readPdcchOrder (rnti cif : Nat) : BitReader DciDl := do
  let _rba ← takeBits (1 + rivNbits cell.nofPrb)
  let preambleIdx ← takeBits 6
  let prachMaskIdx ← takeBits 4
  pure {
    rnti, cif, preambleIdx, prachMaskIdx
    format := .format1A
    cifPresent := cfg.cifEnabled
    isPdcchOrder := true }

def readFormat1A (rnti cif : Nat) : BitReader DciDl := do
  let mode ← takeBit
  let gap ← readFlag (gapFirst cell rnti (Type2Mode.ofBit mode))
  let riv ← takeBits (rivNbits cell.nofPrb - (gapFirst cell rnti (Type2Mode.ofBit mode)).toNat)
  let mcsIdx ← takeBits 5
  let pid ← takeBits cell.harqPidLen
  -- the new data indicator of a user; N_gap or a reserved bit for the other RNTIs
  let ndi ← takeBit
  let rv ← takeBits 2
  let _tpcMsb ← takeBit
  let nPrb1a ← takeBit
  let dai ← takeBits (daiBits cell)
  pure {
    rnti, cif, pid, dai
    format := .format1A
    cifPresent := cfg.cifEnabled
    alloc := .type2 {
      riv
      nPrb1a := if rntiIsUser rnti then .two else NPrb1a.ofBit nPrb1a
      nGap := if rntiIsUser rnti then NGap.ofBit gap
        else if cell.nofPrb ≥ 50 ∧ mode then NGap.ofBit ndi else .ng1
      mode := Type2Mode.ofBit mode }
    tb0 := ⟨mcsIdx, rv, rntiIsUser rnti && ndi, 0⟩
    isTdd := cell.isTdd }

def dciFormat1AsUnpack (rnti nofBits : Nat) : BitReader DciDl := do
  let cif ← readCif cfg
  let isFormat1A ← takeBit
  if isFormat1A then
    let y ← get
    if looksLikePdcchOrder cell nofBits y then readPdcchOrder cell cfg rnti cif else readFormat1A cell cfg rnti cif
  else failure

def format1CRivBits (gap : NGap) : Nat :=
  rivNbits (raType2NVrbDl cell.nofPrb (gap = .ng1) / raType2NRbStep cell.nofPrb)

def dciFormat1CsPack (d : DciDl) : Option (List Bool) :=
  match d.alloc with
  | .type2 alloc =>
    if alloc.mode = .dist then
      some ((if d.cifPresent then bitsOf 3 d.cif else []) ++
        (if cell.nofPrb ≥ 50 then [alloc.nGap.bit] else []) ++ bitsOf (format1CRivBits cell alloc.nGap) alloc.riv ++
        bitsOf 5 d.tb0.mcsIdx)
    else none
  | _ => none

def dciFormat1CsUnpack (rnti : Nat) : BitReader DciDl := do
  let gap ← readFlag (cell.nofPrb ≥ 50)
  let riv ← takeBits (format1CRivBits cell (NGap.ofBit gap))
  let mcsIdx ← takeBits 5
  pure {
    rnti
    format := .format1C
    alloc := .type2 { riv, nGap := NGap.ofBit gap, mode := .dist }
    tb0 := ⟨mcsIdx, -1, false, 0⟩ }

def pinfoBits : DciFormat → Nat
  | .format2 => precodingBitsF2 cell.nofPorts
  | .format2A => precodingBitsF2a cell.nofPorts
  | _ => 0

def DciTb.cells (tb : DciTb) : List Bool := bitsOf 5 tb.mcsIdx ++ [tb.ndi] ++ rvBits tb.rv

def readTb : BitReader DciTb := do
  let mcsIdx ← takeBits 5
  let ndi ← takeBit
  let rv ← takeBits 2
  pure ⟨mcsIdx, rv, ndi, 0⟩

def DciTb.isEn (tb : DciTb) : Bool := !(tb.mcsIdx == 0 && tb.rv == 1)

def DciDl.withCwIdx (d : DciDl) : DciDl :=
  let both := d.tb0.isEn && d.tb1.isEn
  { d with
    tb0 := { d.tb0 with cwIdx := if both then d.tbCwSwap.toNat % 2 else 0 }
    tb1 := { d.tb1 with cwIdx := if both then (d.tbCwSwap.toNat + 1) % 2 else 0 } }

def DciDl.swapBit (d : DciDl) : Bool := if d.format = .format2B then d.sramId else d.tbCwSwap

def format2Body (d : DciDl) : List Bool :=
  bitsOf cell.harqPidLen d.pid ++ [d.swapBit] ++ d.tb0.cells ++ d.tb1.cells ++ bitsOf (pinfoBits cell d.format) d.pinfo

def dciFormat2ABPack (d : DciDl) : Option (List Bool) := do
  let alloc ← raAllocCells cell d.alloc
  some (padTo false (dciFormatSizeof cell cfg d.format)
    ((if d.cifPresent then bitsOf 3 d.cif else []) ++ alloc ++ bitsOf 2 d.tpcPucch ++ format2Body cell d))

def dciFormat2ABUnpack (rnti : Nat) (format : DciFormat) : BitReader DciDl := do
  let cif ← readCif cfg
  let alloc ← readRaAlloc cell
  let tpcPucch ← takeBits 2
  let dai ← takeBits (daiBits cell)
  let pid ← takeBits cell.harqPidLen
  let swap ← takeBit
  let tb0 ← readTb
  let tb1 ← readTb
  let pinfo ← takeBits (pinfoBits cell format)
  pure (DciDl.withCwIdx {
    rnti, format, cif, alloc, tpcPucch, dai, pid, tb0, tb1, pinfo
    cifPresent := cfg.cifEnabled
    isTdd := cell.isTdd
    sramId := format == .format2B && swap
    tbCwSwap := format != .format2B && swap })

end Formats

section Msg
variable (cell : Cell) (sf : DlSfCfg) (cfg : DciCfg)

def dciMsgPackPdsch (d : DciDl) : Option Cells :=
  match d.format with
  | .format1 => (dciFormat1Pack cell cfg d).map written
  | .format1A => dciFormat1AsPack cell cfg d
  | .format1C => (dciFormat1CsPack cell d).map written
  | .format2 | .format2A | .format2B => (dciFormat2ABPack cell cfg d).map written
  | .format0 => none

def dciMsgUnpackPdsch (msg : DciMsg) : Option DciDl :=
  let fits := msg.nofBits = dciFormatSizeof cell cfg msg.format
  match msg.format with
  | .format1 => if fits then (dciFormat1Unpack cell cfg msg.rnti msg.payload).map Prod.fst else none
  | .format1A => (dciFormat1AsUnpack cell cfg msg.rnti msg.nofBits msg.payload).map Prod.fst
  | .format1C => if fits then (dciFormat1CsUnpack cell msg.rnti msg.payload).map Prod.fst else none
  | .format2 | .format2A | .format2B => (dciFormat2ABUnpack cell cfg msg.rnti msg.format msg.payload).map Prod.fst
  | .format0 => none

def dciMsgPackPusch (d : DciUl) : Cells := written (dciFormat0Pack cell cfg d)

def dciMsgUnpackPusch (msg : DciMsg) : Option DciUl :=
  (dciFormat0Unpack cell sf cfg msg.rnti msg.payload).map Prod.fst

end Msg

structure Cell.IsValid (cell : Cell) : Prop where
  least : 6 ≤ cell.nofPrb
  most : cell.nofPrb ≤ 110

section Uplink
variable (cell : Cell) (sf : DlSfCfg) (cfg : DciCfg)

structure DciUl.Fits (d : DciUl) : Prop where
  cif : d.cif < 8
  cifPresent : d.cifPresent = cfg.cifEnabled
  freqHopFl : d.freqHopFl ≠ .disabled → d.freqHopFl.val < 2 ^ nUlHop cell d.freqHopFl
  type2Riv : d.type2Riv < 2 ^ (rivNbits cell.nofPrb - nUlHop cell d.freqHopFl)
  mcsIdx : d.tb.mcsIdx < 32
  tpcPusch : d.tpcPusch < 4
  nDmrs : d.nDmrs < 8
  dai : d.dai < 4
  ulIdx : d.ulIdx < 4
  multipleCsiRequest : d.multipleCsiRequest < 4

def DciUl.carried (d : DciUl) : DciUl where
  rnti := d.rnti
  type2Riv := d.type2Riv
  freqHopFl := d.freqHopFl
  tb := ⟨d.tb.mcsIdx, 0, d.tb.ndi, 0⟩
  nDmrs := d.nDmrs
  cqiRequest := !cfg.multipleCsi && d.cqiRequest
  dai := if cell.isTdd ∧ sf.sfConfig ≠ 0 then d.dai else 0
  ulIdx := if cell.isTdd ∧ sf.sfConfig = 0 then d.ulIdx else 0
  isTdd := cell.isTdd
  tpcPusch := d.tpcPusch
  cif := if cfg.cifEnabled then d.cif else 0
  cifPresent := cfg.cifEnabled
  multipleCsiRequest := if cfg.multipleCsi then d.multipleCsiRequest else 0
  multipleCsiRequestPresent := cfg.multipleCsi
  isrRequest := cfg.isrInFormat0 && d.isrRequest && d.isrRequestPresent
  isrRequestPresent := cfg.isrInFormat0
  raType := cfg.raFormatEnabled && d.raType
  raTypePresent := cfg.raFormatEnabled

/-- Packing writes every bit of a message of the size that the format has, and from these bits, whatever stands behind
them in the payload, unpacking gives what the message carries. -/
def DciUl.RoundTrips (d : DciUl) : Prop :=
  ∃ bits : List Bool, dciMsgPackPusch cell cfg d = written bits ∧ bits.length = dciFormatSizeof cell cfg .format0 ∧
    ∀ stale : List Bool, bits.length + stale.length = dciMaxBits →
      dciMsgUnpackPusch cell sf cfg ⟨bits ++ stale, bits.length, d.rnti, .format0⟩ = some (d.carried cell sf cfg)

def DciUl.index (d : DciUl) : Nat := if sf.sfConfig = 0 then d.ulIdx else d.dai

/-- The grants that format 0 keeps: the packer has one bit for the CSI request where there are two, none for the
allocation type and, in TDD, none for the index, whose place the requests then take. -/
def DciUl.Kept (d : DciUl) : Prop :=
  (cfg.raFormatEnabled → d.raType = false) ∧
  if cell.isTdd then
    (cfg.isrInFormat0 → (d.isrRequest && d.isrRequestPresent) = false) ∧
      if cfg.multipleCsi then d.multipleCsiRequest = 0 ∧ d.index sf = 2 * d.cqiRequest.toNat
      else d.cqiRequest = false ∧ d.index sf = 0
  else cfg.multipleCsi → d.multipleCsiRequest = 2 * d.cqiRequest.toNat

end Uplink

section Downlink
variable (cell : Cell) (cfg : DciCfg)

structure DciTb.Fits (tb : DciTb) : Prop where
  mcsIdx : tb.mcsIdx < 32
  rvLow : 0 ≤ tb.rv
  rvHigh : tb.rv < 4

def RaAlloc.Fits01 : RaAlloc → Prop
  | .type0 rbgBitmask => rbgBitmask < 2 ^ allocSize cell.nofPrb
  | .type1 rbgSubset _ vrbBitmask =>
    cell.nofPrb > 10 ∧ rbgSubset < 2 ^ rbgSubsetBits cell ∧ vrbBitmask < 2 ^ vrbBitmaskBits cell
  | .type2 _ => False

def RaAlloc.Fits1A (rnti : Nat) : RaAlloc → Prop
  | .type2 a =>
    a.riv < 2 ^ (rivNbits cell.nofPrb - (gapFirst cell rnti a.mode).toNat) ∧
      (a.nGap = .ng2 → a.mode = .dist ∧ 50 ≤ cell.nofPrb) ∧ (a.nPrb1a = .three → rntiIsUser rnti = false)
  | _ => False

def RaAlloc.Fits1C : RaAlloc → Prop
  | .type2 a =>
    a.mode = .dist ∧ a.riv < 2 ^ format1CRivBits cell a.nGap ∧ (a.nGap = .ng2 → 50 ≤ cell.nofPrb) ∧ a.nPrb1a = .two
  | _ => False

structure DciDl.Fits (d : DciDl) : Prop where
  format : d.format ≠ .format0
  cif : d.cif < 8
  cifPresent : d.cifPresent = cfg.cifEnabled
  tb0 : d.tb0.Fits
  tb1 : d.tb1.Fits
  tpcPucch : d.tpcPucch < 4
  pid : d.pid < 2 ^ cell.harqPidLen
  dai : d.dai < 4
  pinfo : d.pinfo < 2 ^ pinfoBits cell d.format
  preambleIdx : d.preambleIdx < 64
  prachMaskIdx : d.prachMaskIdx < 16
  alloc : match d.format with
    | .format1A => d.isPdcchOrder = false → d.alloc.Fits1A cell d.rnti
    | .format1C => d.alloc.Fits1C cell
    | _ => d.alloc.Fits01 cell

def DciDl.base (d : DciDl) : DciDl where
  rnti := d.rnti
  format := d.format
  cif := if cfg.cifEnabled then d.cif else 0
  cifPresent := cfg.cifEnabled

def DciDl.carried (d : DciDl) : DciDl :=
  let dai := if cell.isTdd then d.dai else 0
  match d.format with
  | .format1 =>
    { d.base cfg with
      alloc := d.alloc, pid := d.pid, tpcPucch := d.tpcPucch, dai, isTdd := cell.isTdd
      tb0 := { d.tb0 with cwIdx := 0 } }
  | .format1A =>
    if d.isPdcchOrder then
      { d.base cfg with isPdcchOrder := true, preambleIdx := d.preambleIdx, prachMaskIdx := d.prachMaskIdx }
    else
      { d.base cfg with
        alloc := d.alloc, pid := d.pid, dai, isTdd := cell.isTdd
        tb0 := { d.tb0 with ndi := rntiIsUser d.rnti && d.tb0.ndi, cwIdx := 0 }
        tpcPucch := if rntiIsUser d.rnti then d.tpcPucch else 0
        isrRequest := cfg.isrRequestEnabled && d.isrRequest && d.isrRequestPresent }
  | .format1C => { d.base cfg with alloc := d.alloc, tb0 := ⟨d.tb0.mcsIdx, -1, false, 0⟩ }
  | .format2 | .format2A | .format2B =>
    DciDl.withCwIdx { d.base cfg with
      alloc := d.alloc, pid := d.pid, tpcPucch := d.tpcPucch, dai, isTdd := cell.isTdd
      tb0 := { d.tb0 with cwIdx := 0 }, tb1 := { d.tb1 with cwIdx := 0 }, pinfo := d.pinfo
      sramId := d.format == .format2B && d.swapBit, tbCwSwap := d.format != .format2B && d.swapBit }
  | .format0 => d

def DciDl.RoundTrips (d : DciDl) : Prop :=
  ∃ bits : List Bool, dciMsgPackPdsch cell cfg d = some (written bits) ∧
    bits.length = dciFormatSizeof cell cfg d.format ∧
    ∀ stale : List Bool, bits.length + stale.length = dciMaxBits →
      dciMsgUnpackPdsch cell cfg ⟨bits ++ stale, bits.length, d.rnti, d.format⟩ = some (d.carried cell cfg)

def DciDl.seemsOrder (d : DciDl) : Prop :=
  (∃ a, d.alloc = .type2 a ∧ a.mode = .loc ∧ a.riv = 2 ^ rivNbits cell.nofPrb - 1) ∧
    if cell.isTdd then d.tb0.rv = 0 else d.tb0.rv % 2 = 0

def DciTb.Blank (tb : DciTb) : Prop := tb.mcsIdx = 0 ∧ tb.ndi = false ∧ tb.rv = 0

structure DciDl.Blank (d : DciDl) : Prop where
  dai : d.dai = 0
  pid : d.pid = 0
  swapBit : d.swapBit = false
  tb0 : d.tb0.Blank
  tb1 : d.tb1.Blank
  pinfo : d.pinfo = 0

/-- The messages that survive. In TDD no packer writes the assignment index; format 1A has its TPC command and SRS
request only in its size, leaves two bits unwritten where the RNTI is no user's, and looks three bits too far behind a
carrier indicator; format 1C has the sizes of the first gap. -/
def DciDl.Kept (d : DciDl) : Prop :=
  match d.format with
  | .format1 => cell.isTdd → d.dai = 0
  | .format1A =>
    if d.isPdcchOrder then cfg.cifEnabled = false
    else rntiIsUser d.rnti ∧ d.tpcPucch = 0 ∧ (cell.isTdd → d.dai = 0) ∧
      (cfg.isrRequestEnabled → (d.isrRequest && d.isrRequestPresent) = false) ∧ ¬ d.seemsOrder cell
  | .format1C => cfg.cifEnabled = false ∧ (50 ≤ cell.nofPrb → ∀ a, d.alloc = .type2 a → a.nGap = .ng1)
  | .format2 | .format2A | .format2B => cell.isTdd → d.Blank
  | .format0 => False

end Downlink

def StoredIn (cells : Cells) (payload : List Bool) : Prop :=
  ∃ bits stale, payload = bits ++ stale ∧ List.Forall₂ (fun cell b => ∀ v, cell = some v → b = v) cells bits

theorem cif_cells {cfg : DciCfg} {present : Bool} {cif : Nat} (agrees : present = cfg.cifEnabled) :
    (if present then bitsOf 3 cif else []) = bitsOf (cifBits cfg) (if cfg.cifEnabled then cif else 0) := by
  rw [agrees]
  unfold cifBits
  cases cfg.cifEnabled <;> rfl

theorem cif_lt {cfg : DciCfg} {cif : Nat} (fits : cif < 8) :
    (if cfg.cifEnabled then cif else 0) < 2 ^ cifBits cfg := by
  unfold cifBits
  cases cfg.cifEnabled
  · exact Nat.one_pos
  · exact fits

theorem rvBits_eq {tb : DciTb} (fits : tb.Fits) : rvBits tb.rv = bitsOf 2 tb.rv.toNat := by
  have low := fits.rvLow
  have high := fits.rvHigh
  unfold rvBits
  rw [Int.emod_eq_of_lt low (by omega)]

@[simp] theorem rvBits_length (rv : Int) : (rvBits rv).length = 2 := bitsOf_length 2 _

theorem readFlag_exact (present : Bool) :
    Exact (readFlag present) (fun b => b = true → present = true) fun b => if present then [b] else [] := by
  cases present with
  | false =>
    intro bits b rest
    change (pure false : BitReader Bool) bits = _ ↔ _
    rw [Exact.pure_iff]
    cases b <;> simp
  | true =>
    intro bits b rest
    change takeBit bits = _ ↔ _
    simpa using Exact.takeBit bits b rest

@[simp] theorem PuschHop.ofVal_val {hop : PuschHop} (enabled : hop ≠ .disabled) : ofVal hop.val = hop := by
  cases hop with
  | disabled => exact absurd rfl enabled
  | _ => rfl

theorem PuschHop.val_ofVal {v : Nat} (fits : v < 4) : (ofVal v).val = v := by
  match v with
  | 0 | 1 | 2 | 3 => rfl

theorem PuschHop.ofVal_ne_disabled (v : Nat) : ofVal v ≠ .disabled := by
  unfold ofVal
  split <;> simp

theorem nUlHop_of_enabled {cell : Cell} {hop : PuschHop} (enabled : hop ≠ .disabled) :
    nUlHop cell hop = if cell.nofPrb < 50 then 1 else 2 := by
  cases hop with
  | disabled => exact absurd rfl enabled
  | _ => rfl

theorem readHop_exact (cell : Cell) :
    Exact (readHop cell) (fun hop => hop ≠ .disabled → hop.val < 2 ^ nUlHop cell hop) (hopCells cell) := by
  intro bits hop rest
  unfold readHop
  rw [Exact.takeBit.bind_iff]
  constructor
  · rintro ⟨hopping, bits', -, rfl, read⟩
    cases hopping with
    | false =>
      cases read
      exact ⟨fun enabled => absurd rfl enabled, rfl⟩
    | true =>
      rw [if_pos rfl, (Exact.takeBits _).bind_iff] at read
      obtain ⟨v, bits'', fits, rfl, read⟩ := read
      obtain ⟨rfl, rfl⟩ := Exact.pure_iff.mp read
      have enabled := PuschHop.ofVal_ne_disabled v
      have small : v < 4 := by
        split at fits <;> omega
      unfold hopCells
      rw [nUlHop_of_enabled enabled, PuschHop.val_ofVal small, if_neg enabled]
      refine ⟨fun _ => ?_, rfl⟩
      rw [nUlHop_of_enabled enabled, PuschHop.val_ofVal small]
      exact fits
  · rintro ⟨fits, rfl⟩
    by_cases disabled : hop = .disabled
    · subst disabled
      exact ⟨false, rest, trivial, rfl, rfl⟩
    · unfold hopCells
      rw [if_neg disabled]
      refine ⟨true, bitsOf (nUlHop cell hop) hop.val ++ rest, trivial, rfl, ?_⟩
      rw [if_pos rfl, (Exact.takeBits _).bind_iff, ← nUlHop_of_enabled disabled]
      exact ⟨hop.val, rest, fits disabled, rfl, Exact.pure_iff.mpr ⟨PuschHop.ofVal_val disabled, rfl⟩⟩

theorem readTb_exact : Exact readTb (fun tb => tb.Fits ∧ tb.cwIdx = 0) DciTb.cells := by
  intro bits tb rest
  unfold readTb
  simp only [(Exact.takeBits _).bind_iff, Exact.takeBit.bind_iff, Exact.pure_iff]
  constructor
  · rintro ⟨mcsIdx, _, mcsFits, rfl, ndi, _, -, rfl, rv, _, rvFits, rfl, rfl, rfl⟩
    have fits : DciTb.Fits ⟨mcsIdx, rv, ndi, 0⟩ := ⟨mcsFits, Int.natCast_nonneg rv, Int.ofNat_lt.mpr rvFits⟩
    refine ⟨⟨fits, rfl⟩, ?_⟩
    unfold DciTb.cells
    rw [rvBits_eq fits]
    simp
  · rintro ⟨⟨fits, cw⟩, rfl⟩
    have low := fits.rvLow
    have high := fits.rvHigh
    refine ⟨tb.mcsIdx, _, fits.mcsIdx, ?_, tb.ndi, _, trivial, rfl, tb.rv.toNat, rest, by omega, rfl, ?_, rfl⟩
    · unfold DciTb.cells
      rw [rvBits_eq fits]
      simp
    · rw [Int.toNat_of_nonneg low, ← cw]

theorem raAllocCells_of_fits {cell : Cell} {alloc : RaAlloc} (fits : alloc.Fits01 cell) :
    raAllocCells cell alloc = some ((raAllocCells cell alloc).getD []) := by
  cases alloc with
  | type0 _ => rfl
  | type1 _ _ _ => rfl
  | type2 _ => exact fits.elim

theorem readRaAlloc_exact (cell : Cell) :
    Exact (readRaAlloc cell) (RaAlloc.Fits01 cell) fun alloc => (raAllocCells cell alloc).getD [] := by
  intro bits alloc rest
  unfold readRaAlloc
  rw [(readFlag_exact _).bind_iff]
  constructor
  · rintro ⟨type1, bits', many, rfl, read⟩
    cases type1 with
    | false =>
      unfold readRaType0 at read
      simp only [Bool.false_eq_true, if_false, (Exact.takeBits _).bind_iff] at read
      obtain ⟨rbgBitmask, _, fits, rfl, rfl, rfl⟩ := read
      refine ⟨fits, ?_⟩
      simp [raAllocCells]
    | true =>
      unfold readRaType1 at read
      simp only [if_true, (Exact.takeBits _).bind_iff, Exact.takeBit.bind_iff] at read
      obtain ⟨rbgSubset, _, subsetFits, rfl, shift, _, -, rfl, vrbBitmask, _, vrbFits, rfl, rfl, rfl⟩ := read
      refine ⟨⟨by simpa using many rfl, subsetFits, vrbFits⟩, ?_⟩
      simp [raAllocCells]
  · rintro ⟨fits, rfl⟩
    cases alloc with
    | type0 rbgBitmask =>
      refine ⟨false, bitsOf (allocSize cell.nofPrb) rbgBitmask ++ rest, by simp, by simp [raAllocCells], ?_⟩
      unfold readRaType0
      simp only [Bool.false_eq_true, if_false, (Exact.takeBits _).bind_iff, Exact.pure_iff]
      exact ⟨rbgBitmask, rest, fits, rfl, rfl, rfl⟩
    | type1 rbgSubset shift vrbBitmask =>
      obtain ⟨many, subsetFits, vrbFits⟩ := fits
      refine ⟨true, _, fun _ => by simpa using many, by simp [raAllocCells]; rfl, ?_⟩
      unfold readRaType1
      simp only [if_true, (Exact.takeBits _).bind_iff, Exact.takeBit.bind_iff, Exact.pure_iff]
      exact ⟨rbgSubset, _, subsetFits, rfl, shift, _, trivial, rfl, vrbBitmask, rest, vrbFits, rfl, rfl, rfl⟩
    | type2 _ => exact fits.elim

variable {cell : Cell} {cfg : DciCfg}

section
variable (valid : cell.IsValid)
include valid

theorem rivNbits_bounds : 5 ≤ rivNbits cell.nofPrb ∧ rivNbits cell.nofPrb ≤ 13 := by
  have all : ∀ n < 111, 6 ≤ n → 5 ≤ rivNbits n ∧ rivNbits n ≤ 13 := by decide +kernel
  exact all cell.nofPrb (Nat.lt_succ_of_le valid.most) valid.least

theorem allocSize_bounds : allocSize cell.nofPrb ≤ 28 := by
  have all : ∀ n < 111, allocSize n ≤ 28 := by decide +kernel
  exact all cell.nofPrb (Nat.lt_succ_of_le valid.most)

theorem format1CRivBits_lt (wide : 50 ≤ cell.nofPrb) :
    format1CRivBits cell .ng1 < format1CRivBits cell .ng2 := by
  have all : ∀ n < 111, 50 ≤ n → rivNbits (raType2NVrbDl n true / raType2NRbStep n) <
      rivNbits (raType2NVrbDl n false / raType2NRbStep n) := by decide +kernel
  exact all cell.nofPrb (Nat.lt_succ_of_le valid.most) wide

theorem format1CRivBits_le : format1CRivBits cell .ng1 ≤ 13 := by
  have all : ∀ n < 111, rivNbits (raType2NVrbDl n true / raType2NRbStep n) ≤ 13 := by decide +kernel
  exact all cell.nofPrb (Nat.lt_succ_of_le valid.most)

end

theorem cifBits_le : cifBits cfg ≤ 3 := by
  unfold cifBits
  split <;> omega

theorem nUlHop_le (hop : PuschHop) : nUlHop cell hop ≤ 2 := by
  cases hop <;> simp only [nUlHop] <;> first | omega | (split <;> omega)

theorem hopCells_length (hop : PuschHop) : (hopCells cell hop).length = 1 + nUlHop cell hop := by
  unfold hopCells
  split
  · next disabled => rw [disabled]; rfl
  · rw [length_cons, bitsOf_length, Nat.add_comm]

section Skip
variable {avoid : Nat → Bool}

theorem le_skipSizes (rounds n : Nat) : n ≤ skipSizes avoid rounds n := by
  induction rounds generalizing n with
  | zero => exact Nat.le_refl n
  | succ rounds ih =>
    unfold skipSizes
    split
    · exact Nat.le_of_succ_le (ih (n + 1))
    · exact Nat.le_refl n

theorem skipSizes_le (rounds n : Nat) : skipSizes avoid rounds n ≤ n + rounds := by
  induction rounds generalizing n with
  | zero => exact Nat.le_refl n
  | succ rounds ih =>
    unfold skipSizes
    split
    · exact Nat.le_trans (ih (n + 1)) (by omega)
    · omega

end Skip

def format1ALeast (cell : Cell) (cfg : DciCfg) : Nat :=
  cifBits cfg + rivNbits cell.nofPrb + cell.harqPidLen + daiBits cell + 12 + if cfg.isrRequestEnabled then 1 else 0

theorem dciFormat0Sizeof_eq_sum : dciFormat0Sizeof_ cell cfg =
    cifBits cfg + rivNbits cell.nofPrb + 13 + daiBits cell + csiBits cfg + (if cfg.isrInFormat0 then 1 else 0) + 1 := by
  unfold dciFormat0Sizeof_ daiBits csiBits
  omega

theorem dciFormat1ASizeof_bounds :
    format1ALeast cell cfg ≤ dciFormat1ASizeof cell cfg ∧
      dciFormat0Sizeof_ cell cfg ≤ dciFormat1ASizeof cell cfg ∧
      dciFormat1ASizeof cell cfg ≤ max (format1ALeast cell cfg) (dciFormat0Sizeof_ cell cfg) + 1 := by
  have least : cifBits cfg + 1 + 1 + rivNbits cell.nofPrb + 5 + cell.harqPidLen + 1 + 2 + 2 +
      (if cell.isTdd then 2 else 0) + (if cfg.isrRequestEnabled then 1 else 0) = format1ALeast cell cfg := by
    unfold format1ALeast daiBits
    omega
  unfold dciFormat1ASizeof
  rw [least]
  dsimp only
  split <;> omega

theorem dciFormat0Sizeof_eq : dciFormat0Sizeof cell cfg = dciFormat1ASizeof cell cfg :=
  Nat.max_eq_right dciFormat1ASizeof_bounds.2.1

def allocBits (cell : Cell) : Nat := allocSize cell.nofPrb + if cell.nofPrb > 10 then 1 else 0

theorem le_dciFormat1Sizeof : cifBits cfg + allocBits cell + cell.harqPidLen + daiBits cell + 10 ≤
    dciFormatSizeof cell cfg .format1 := by
  unfold dciFormatSizeof dciFormat1Sizeof
  apply Nat.le_trans _ (le_skipSizes 16 _)
  unfold allocBits daiBits
  omega

theorem le_dciFormat2xSizeof (precodingBits : Nat) :
    cifBits cfg + allocBits cell + cell.harqPidLen + daiBits cell + precodingBits + 19 ≤
      dciFormat2xSizeof cell cfg precodingBits := by
  apply Nat.le_trans _ (le_skipSizes 16 _)
  unfold allocBits daiBits
  omega

theorem dciFormat2xSizeof_le (valid : cell.IsValid) {precodingBits : Nat} (few : precodingBits ≤ 6) :
    dciFormat2xSizeof cell cfg precodingBits ≤ 100 := by
  have cif := @cifBits_le cfg
  have alloc := allocSize_bounds valid
  apply Nat.le_trans (skipSizes_le 16 _)
  unfold Cell.harqPidLen
  split <;> split <;> omega

theorem dciFormatSizeof_le (valid : cell.IsValid) (format : DciFormat) : dciFormatSizeof cell cfg format ≤ 100 := by
  have riv := (rivNbits_bounds valid).2
  have cif := @cifBits_le cfg
  have alloc := allocSize_bounds valid
  have pid : cell.harqPidLen ≤ 4 := by unfold Cell.harqPidLen; split <;> omega
  have dai : daiBits cell ≤ 2 := by unfold daiBits; split <;> omega
  have csi : csiBits cfg ≤ 2 := by unfold csiBits; split <;> omega
  have format1A : dciFormat1ASizeof cell cfg ≤ 100 := by
    have bound := (@dciFormat1ASizeof_bounds cell cfg).2.2
    rw [dciFormat0Sizeof_eq_sum] at bound
    unfold format1ALeast at bound
    apply Nat.le_trans bound
    split <;> split <;> omega
  cases format with
  | format0 => exact dciFormat0Sizeof_eq.trans_le format1A
  | format1 =>
    unfold dciFormatSizeof dciFormat1Sizeof
    apply Nat.le_trans (skipSizes_le 16 _)
    split <;> split <;> omega
  | format1A => exact format1A
  | format1C =>
    have gap := format1CRivBits_le valid
    change format1CRivBits cell .ng1 + 5 + _ ≤ 100
    split <;> omega
  | format2 =>
    apply dciFormat2xSizeof_le valid
    unfold precodingBitsF2
    split <;> omega
  | format2A =>
    apply dciFormat2xSizeof_le valid
    unfold precodingBitsF2a
    split <;> omega
  | format2B => exact dciFormat2xSizeof_le valid (Nat.zero_le 6)

end IsrRan.Phy
