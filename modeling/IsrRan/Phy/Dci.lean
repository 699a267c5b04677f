import IsrRan.Lib.BitList

namespace IsrRan.Phy
open Lib

inductive FrameType where
  | fdd
  | tdd
  deriving DecidableEq, Repr

structure Cell where
  nofPrb : Nat
  nofPorts : Nat
  frameType : FrameType
  deriving DecidableEq, Repr

structure DlSfCfg where
  sfConfig : Nat
  deriving DecidableEq, Repr

structure DciCfg where
  multipleCsiRequestEnabled : Bool := false
  cifEnabled : Bool := false
  isrRequestEnabled : Bool := false
  raFormatEnabled : Bool := false
  isNotUeSs : Bool := false
  deriving DecidableEq, Repr

inductive DciFormat where
  | format0
  | format1
  | format1A
  | format1C
  | format2
  | format2A
  | format2B
  deriving DecidableEq, Repr

inductive NPrb1a where
  | two
  | three
  deriving DecidableEq, Repr

inductive NGap where
  | ng1
  | ng2
  deriving DecidableEq, Repr

inductive Type2Mode where
  | loc
  | dist
  deriving DecidableEq, Repr

structure RaType2 where
  riv : Nat
  nPrb1a : NPrb1a := .two
  nGap : NGap := .ng1
  mode : Type2Mode := .loc
  deriving DecidableEq, Repr

inductive RaAlloc where
  | type0 (rbgBitmask : Nat)
  | type1 (rbgSubset : Nat) (shift : Bool) (vrbBitmask : Nat)
  | type2 (alloc : RaType2)
  deriving DecidableEq, Repr

inductive PuschHop where
  | disabled
  | quart
  | quartNeg
  | half
  | type2
  deriving DecidableEq, Repr

structure DciTb where
  mcsIdx : Nat
  rv : Int
  ndi : Bool
  cwIdx : Nat := 0
  deriving DecidableEq, Repr

structure DciDl where
  rnti : Nat
  format : DciFormat
  alloc : RaAlloc := .type0 0
  tb0 : DciTb := ⟨0, 0, false, 0⟩
  tb1 : DciTb := ⟨0, 1, false, 0⟩
  tbCwSwap : Bool := false
  pinfo : Nat := 0
  tpcPucch : Nat := 0
  isPdcchOrder : Bool := false
  preambleIdx : Nat := 0
  prachMaskIdx : Nat := 0
  cif : Nat := 0
  cifPresent : Bool := false
  isrRequest : Bool := false
  isrRequestPresent : Bool := false
  pid : Nat := 0
  dai : Nat := 0
  isTdd : Bool := false
  sramId : Bool := false
  deriving DecidableEq, Repr

structure DciUl where
  rnti : Nat
  type2Riv : Nat := 0
  freqHopFl : PuschHop := .quart
  tb : DciTb := ⟨0, 0, false, 0⟩
  nDmrs : Nat := 0
  cqiRequest : Bool := false
  dai : Nat := 0
  ulIdx : Nat := 0
  isTdd : Bool := false
  tpcPusch : Nat := 0
  cif : Nat := 0
  cifPresent : Bool := false
  multipleCsiRequest : Nat := 0
  multipleCsiRequestPresent : Bool := false
  isrRequest : Bool := false
  isrRequestPresent : Bool := false
  raType : Bool := false
  raTypePresent : Bool := false
  deriving DecidableEq, Repr

def dciMaxBits : Nat := 128

def rntiIsUser (rnti : Nat) : Bool := 0x000B ≤ rnti && rnti ≤ 0xFFF3

namespace Cell
variable (cell : Cell)

def isTdd : Bool := cell.frameType = .tdd

def harqPidLen : Nat := if cell.isTdd then 4 else 3

end Cell

def ceilLog2 (v : Nat) : Nat := ((List.range 32).find? fun k => v ≤ 2 ^ k).getD 32

def rivNbits (nofPrb : Nat) : Nat := ceilLog2 (nofPrb * (nofPrb + 1) / 2)

def raType0P (nofPrb : Nat) : Nat :=
  if nofPrb ≤ 10 then 1 else if nofPrb ≤ 26 then 2 else if nofPrb ≤ 63 then 3 else 4

def raType2Ngap (nofPrb : Nat) (ngapIs1 : Bool) : Nat :=
  if nofPrb ≤ 10 then nofPrb / 2
  else if nofPrb = 11 then 4
  else if nofPrb ≤ 19 then 8
  else if nofPrb ≤ 26 then 12
  else if nofPrb ≤ 44 then 18
  else if nofPrb ≤ 49 then 27
  else if nofPrb ≤ 63 then if ngapIs1 then 27 else 9
  else if nofPrb ≤ 79 then if ngapIs1 then 32 else 16
  else if ngapIs1 then 48 else 16

def raType2NRbStep (nofPrb : Nat) : Nat := if nofPrb < 50 then 2 else 4

def raType2NVrbDl (nofPrb : Nat) (ngapIs1 : Bool) : Nat :=
  let ngap := raType2Ngap nofPrb ngapIs1
  if ngapIs1 then 2 * if ngap < nofPrb - ngap then ngap else nofPrb - ngap else nofPrb / ngap * 2 * ngap

def allocSize (nofPrb : Nat) : Nat := (nofPrb + raType0P nofPrb - 1) / raType0P nofPrb

def ambiguousSizes : List Nat := [12, 14, 16, 20, 24, 26, 32, 40, 44, 56]

def isAmbiguousSize (size : Nat) : Bool := size ∈ ambiguousSizes

/-- `while (avoid(n)) { n++; }`, for at most as many rounds as the first argument says. -/
def skipSizes (avoid : Nat → Bool) : Nat → Nat → Nat
  | 0, n => n
  | rounds + 1, n => if avoid n then skipSizes avoid rounds (n + 1) else n

section Sizeof
variable (cell : Cell) (cfg : DciCfg)

def cifBits : Nat := if cfg.cifEnabled then 3 else 0

def DciCfg.multipleCsi : Bool := cfg.multipleCsiRequestEnabled && !cfg.isNotUeSs

def DciCfg.isrInFormat0 : Bool := cfg.isrRequestEnabled && !cfg.isNotUeSs

def dciFormat0Sizeof_ : Nat :=
  cifBits cfg + 1 + 1 + rivNbits cell.nofPrb + 5 + 1 + 2 + 3 + (if cell.isTdd then 2 else 0) +
    (if cfg.multipleCsi then 2 else 1) + (if cfg.isrInFormat0 then 1 else 0) + 1

def dciFormat1ASizeof : Nat :=
  let n := cifBits cfg + 1 + 1 + rivNbits cell.nofPrb + 5 + cell.harqPidLen + 1 + 2 + 2 +
    (if cell.isTdd then 2 else 0) + (if cfg.isrRequestEnabled then 1 else 0)
  let n := max n (dciFormat0Sizeof_ cell cfg)
  if isAmbiguousSize n then n + 1 else n

def dciFormat0Sizeof : Nat := max (dciFormat0Sizeof_ cell cfg) (dciFormat1ASizeof cell cfg)

def dciFormat1Sizeof : Nat :=
  let n := allocSize cell.nofPrb + 5 + cell.harqPidLen + 1 + 2 + 2 + cifBits cfg + (if cell.isTdd then 2 else 0) +
    (if cell.nofPrb > 10 then 1 else 0)
  skipSizes (fun n => n = dciFormat0Sizeof cell cfg || n = dciFormat1ASizeof cell cfg || isAmbiguousSize n) 16 n

def dciFormat1CSizeof : Nat :=
  rivNbits (raType2NVrbDl cell.nofPrb true / raType2NRbStep cell.nofPrb) + 5 + if cell.nofPrb ≥ 50 then 1 else 0

def precodingBitsF2 (nofPorts : Nat) : Nat := if nofPorts ≤ 2 then 3 else 6

def precodingBitsF2a (nofPorts : Nat) : Nat := if nofPorts ≤ 2 then 0 else 2

def dciFormat2xSizeof (precodingBits : Nat) : Nat :=
  let n := allocSize cell.nofPrb + 2 + cell.harqPidLen + 1 + 2 * (5 + 1 + 2) + precodingBits + cifBits cfg +
    (if cell.isTdd then 2 else 0) + (if cell.nofPrb > 10 then 1 else 0)
  skipSizes isAmbiguousSize 16 n

def dciFormat2Sizeof : Nat := dciFormat2xSizeof cell cfg (precodingBitsF2 cell.nofPorts)

def dciFormat2ASizeof : Nat := dciFormat2xSizeof cell cfg (precodingBitsF2a cell.nofPorts)

def dciFormat2BSizeof : Nat := dciFormat2xSizeof cell cfg 0

def dciFormatSizeof : DciFormat → Nat
  | .format0 => dciFormat0Sizeof cell cfg
  | .format1 => dciFormat1Sizeof cell cfg
  | .format1A => dciFormat1ASizeof cell cfg
  | .format1C => dciFormat1CSizeof cell
  | .format2 => dciFormat2Sizeof cell cfg
  | .format2A => dciFormat2ASizeof cell cfg
  | .format2B => dciFormat2BSizeof cell cfg

end Sizeof

end IsrRan.Phy
