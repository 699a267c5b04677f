import IsrRan.Common.Memory

namespace IsrRan.Mac.Nr
open UInt8

/-! `nr_lcid_sch_t`: some values mean one thing on the DL-SCH and another on the UL-SCH. -/

namespace Lcid

def ccchSize48 : Nat := 0b110100
def ccchSize64 : Nat := 0b000000
def sePhr : Nat := 0b111001
def crnti : Nat := 0b111010
def shortTruncBsr : Nat := 0b111011
def longTruncBsr : Nat := 0b111100
def taCmd : Nat := 0b111101
def shortBsr : Nat := 0b111101
def conResId : Nat := 0b111110
def longBsr : Nat := 0b111110
def padding : Nat := 0b111111

end Lcid

def macSubheaderLenThreshold : Nat := 256

section
variable (ulsch : Bool) (lcid : Nat)

def isUlCcch : Bool := ulsch && (lcid == Lcid.ccchSize48 || lcid == Lcid.ccchSize64)

def isSdu : Bool := lcid ≤ 32 && !isUlCcch ulsch lcid

def isVarLenCe : Bool := ulsch && (lcid == Lcid.longTruncBsr || lcid == Lcid.longBsr)

def hasLengthField : Bool :=
  if isUlCcch ulsch lcid then false else isSdu ulsch lcid || isVarLenCe ulsch lcid

def isValidLcid : Bool := lcid ≤ 63 && (ulsch && (lcid ≤ 32 || 52 ≤ lcid) || (lcid ≤ 32 || 47 ≤ lcid))

def sizeofCe : Nat :=
  if ulsch then
    if lcid = Lcid.ccchSize48 then 6
    else if lcid = Lcid.ccchSize64 then 8
    else if lcid = Lcid.crnti then 2
    else if lcid = Lcid.shortBsr ∨ lcid = Lcid.shortTruncBsr then 1
    else if lcid = Lcid.sePhr then 2
    else if lcid = Lcid.longBsr ∨ lcid = Lcid.longTruncBsr then 1
    else 0
  else
    if lcid = Lcid.conResId then 6
    else if lcid = Lcid.taCmd then 1
    else 0

end

structure SubPdu where
  lcid : Nat := 0
  headerLength : Nat := 0
  sduLength : Int := 0
  fBit : Bool := false
  sdu : Option Memory := none

namespace SubPdu

def getTotalLength (p : SubPdu) : Nat := ((p.headerLength + p.sduLength) % 4294967296).toNat

def readSubheader (ulsch : Bool) (mem : Memory) (start : Nat) : Option SubPdu :=
  let fBit := mem.byte start / 64 % 2 = 1
  let lcid := mem.byte start % 64
  if isValidLcid ulsch lcid then
    if hasLengthField ulsch lcid then
      if fBit then
        some ⟨lcid, 3, (mem.byte (start + 1) * 256 + mem.byte (start + 2) : Nat), true,
          some fun i => mem (start + 3 + i)⟩
      else some ⟨lcid, 2, (mem.byte (start + 1) : Nat), false, some fun i => mem (start + 2 + i)⟩
    else some ⟨lcid, 1, (sizeofCe ulsch lcid : Nat), fBit, some fun i => mem (start + 1 + i)⟩
  else none

def setLength (lcid headerLength : Nat) (sduLength : Int) (payload : Memory) : SubPdu :=
  if macSubheaderLenThreshold ≤ sduLength then ⟨lcid, headerLength + 1, sduLength, true, some payload⟩
  else ⟨lcid, headerLength, sduLength, false, some payload⟩

def sduLcid (lcid len : Nat) : Nat :=
  if lcid = Lcid.ccchSize64 ∧ len = sizeofCe true Lcid.ccchSize48 then Lcid.ccchSize48 else lcid

def setSdu (ulsch : Bool) (lcid : Nat) (payload : Memory) (len : Nat) : SubPdu :=
  let lcid := sduLcid lcid len
  if isUlCcch ulsch lcid then setLength lcid 1 (sizeofCe ulsch lcid : Nat) payload
  else setLength lcid 2 (i32 len) payload

def setPadding (p : SubPdu) (len : Nat) : SubPdu :=
  { p with lcid := Lcid.padding, sduLength := i32 (u32Sub len 1), headerLength := 1 }

def setCe (ulsch : Bool) (lcid : Nat) (storage : List Byte) : SubPdu :=
  { lcid, headerLength := 1, sduLength := (sizeofCe ulsch lcid : Nat), sdu := some (Memory.ofList storage) }

def setCRnti (ulsch : Bool) (crnti : Nat) : SubPdu :=
  setCe ulsch Lcid.crnti [UInt8.ofNat (crnti / 256), UInt8.ofNat crnti]

def setSePhr (ulsch : Bool) (phr pcmax : Byte) : SubPdu :=
  setCe ulsch Lcid.sePhr [UInt8.ofNat (phr.toNat % 64), UInt8.ofNat (pcmax.toNat % 64)]

def setSbsr (ulsch : Bool) (lcgId bufferSize : Byte) : SubPdu :=
  setCe ulsch Lcid.shortBsr [UInt8.ofNat (lcgId.toNat % 8 * 32 + bufferSize.toNat % 32)]

def setUeConResIdCe (ulsch : Bool) (id : Fin 6 → Byte) : SubPdu :=
  setCe ulsch Lcid.conResId ((List.ofFn id).take (sizeofCe ulsch Lcid.conResId))

def header (p : SubPdu) : List Byte :=
  UInt8.ofNat ((if p.fBit then 64 else 0) + p.lcid % 64) ::
    match p.headerLength with
    | 3 => [UInt8.ofNat (p.sduLength / 256 % 256).toNat, UInt8.ofNat (p.sduLength % 256).toNat]
    | 2 => [UInt8.ofNat (p.sduLength % 256).toNat]
    | _ => []

/-- The bytes written, as many as `get_total_length` says. The copy of a negative length is out of bounds. -/
def writeSubpdu (p : SubPdu) : Except Fault (List Byte) :=
  if p.sduLength < 0 then .error .undefinedBehaviour
  else .ok (p.header ++ match p.sdu with
    | some payload => payload.slice 0 p.sduLength.toNat
    | none => List.replicate p.sduLength.toNat 0)

end SubPdu

structure SchPduTx where
  ulsch : Bool
  subpdus : List SubPdu := []
  buffer : ByteBuffer
  remainingLen : Nat

inductive AddCall where
  | sdu (lcid : Nat) (payload : Memory) (len : Nat)
  | crntiCe (crnti : Nat)
  | sePhrCe (phr pcmax : Byte)
  | sbsrCe (lcgId bufferSize : Byte)
  | ueConResIdCe (id : Fin 6 → Byte)

namespace SchPduTx

def initTx (buffer : ByteBuffer) (pduLen : Nat) (ulsch : Bool) : SchPduTx :=
  { ulsch, buffer, remainingLen := pduLen }

def sizeHeaderSdu (pdu : SchPduTx) (lcid nbytes : Nat) : Nat :=
  if isUlCcch pdu.ulsch lcid then 1 else if nbytes < 256 then 2 else 3

def append (pdu : SchPduTx) (p : SubPdu) : Except Fault SchPduTx := do
  let bytes ← p.writeSubpdu
  if pdu.buffer.getTailroom < bytes.length then .error .undefinedBehaviour
  else .ok { pdu with
    buffer := { pdu.buffer with msg := pdu.buffer.msg ++ bytes }
    remainingLen := pdu.remainingLen - p.getTotalLength
    subpdus := pdu.subpdus ++ [p] }

def addSudpdu (pdu : SchPduTx) (p : SubPdu) : Except Fault (SchPduTx × Bool) :=
  if pdu.remainingLen < p.getTotalLength then .ok (pdu, false)
  else (pdu.append p).map fun pdu => (pdu, true)

def addSdu (pdu : SchPduTx) (lcid : Nat) (payload : Memory) (len : Nat) : Except Fault (SchPduTx × Bool) :=
  if pdu.remainingLen < (pdu.sizeHeaderSdu lcid len + len) % 4294967296 then .ok (pdu, false)
  else pdu.addSudpdu (.setSdu pdu.ulsch lcid payload len)

def add (pdu : SchPduTx) : AddCall → Except Fault (SchPduTx × Bool)
  | .sdu lcid payload len => pdu.addSdu lcid payload len
  | .crntiCe crnti => pdu.addSudpdu (.setCRnti pdu.ulsch crnti)
  | .sePhrCe phr pcmax => pdu.addSudpdu (.setSePhr pdu.ulsch phr pcmax)
  | .sbsrCe lcgId bufferSize => pdu.addSudpdu (.setSbsr pdu.ulsch lcgId bufferSize)
  | .ueConResIdCe id => pdu.addSudpdu (.setUeConResIdCe pdu.ulsch id)

def pack (pdu : SchPduTx) : Except Fault SchPduTx :=
  if pdu.remainingLen ≠ 0 then pdu.append (SubPdu.setPadding {} pdu.remainingLen) else .ok pdu

end SchPduTx

/-- The loop of `unpack`, from `offset` on, with the subPDUs read so far. `none` when `rounds` are too few. -/
def unpackFrom (ulsch : Bool) (payload : Memory) (len : Nat) :
    (rounds offset : Nat) → List SubPdu → Option (Bool × List SubPdu)
  | rounds, offset, subpdus =>
    if offset < len then
      match rounds with
      | 0 => none
      | rounds + 1 =>
        match SubPdu.readSubheader ulsch payload offset with
        | none => some (false, subpdus)
        | some p =>
          let next := (offset + p.getTotalLength) % 4294967296
          if p.lcid = Lcid.padding then
            unpackFrom ulsch payload len rounds len (subpdus ++ [p.setPadding (u32Sub len next + 1)])
          else unpackFrom ulsch payload len rounds next (subpdus ++ [p])
    else some (offset = len, subpdus)

def unpack (ulsch : Bool) (payload : Memory) (len rounds : Nat) : Option (Bool × List SubPdu) :=
  unpackFrom ulsch payload len rounds 0 []

end IsrRan.Mac.Nr
