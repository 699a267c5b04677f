import Mathlib.Data.Rat.Floor
import IsrRan.Common.Memory

namespace IsrRan.Mac.Lte.Pdu
open List UInt8

/-- Which table of LCIDs a PDU uses: `subh_type` and `is_ul()` together. -/
inductive Kind where
  | dlSch
  | ulSch
  | mch
  deriving DecidableEq, Repr

namespace Lcid

def reserved : Nat := 0b10001
def scellActivation4Octet : Nat := 0b11000
def scellActivation : Nat := 0b11011
def conResId : Nat := 0b11100
def taCmd : Nat := 0b11101
def drxCmd : Nat := 0b11110
def phrReport : Nat := 0b11010
def crnti : Nat := 0b11011
def truncBsr : Nat := 0b11100
def shortBsr : Nat := 0b11101
def longBsr : Nat := 0b11110
def mchSchedInfo : Nat := 0b11110
def padding : Nat := 0b11111

end Lcid

def isSdu (kind : Kind) (lcid : Nat) : Bool :=
  match kind with
  | .mch => lcid < Lcid.mchSchedInfo
  | .dlSch | .ulSch => lcid ≤ Lcid.reserved

def isVarLenCe (kind : Kind) (lcid : Nat) : Bool := kind == .mch && lcid == Lcid.mchSchedInfo

def hasLengthField (kind : Kind) (lcid : Nat) : Bool := isSdu kind lcid || isVarLenCe kind lcid

def ulCeSize (lcid : Nat) : Nat :=
  if lcid = Lcid.phrReport then 1
  else if lcid = Lcid.crnti then 2
  else if lcid = Lcid.truncBsr then 1
  else if lcid = Lcid.shortBsr then 1
  else if lcid = Lcid.longBsr then 3
  else 0

def dlCeSize (lcid : Nat) : Nat :=
  if lcid = Lcid.scellActivation4Octet then 4
  else if lcid = Lcid.scellActivation then 1
  else if lcid = Lcid.conResId then 6
  else if lcid = Lcid.taCmd then 1
  else 0

def sizeofCe (kind : Kind) (lcid nofMchSchedCe : Nat) : Nat :=
  match kind with
  | .ulSch => ulCeSize lcid
  | .dlSch => dlCeSize lcid
  | .mch => if lcid = Lcid.mchSchedInfo then nofMchSchedCe * 2 else 0

def sizeHeaderSdu (nbytes : Nat) : Nat := if nbytes = 0 then 0 else if nbytes < 128 then 2 else 3

structure SchSubh where
  lcid : Nat := 0
  nofBytes : Nat := 0
  nofMchSchedCe : Nat := 0
  wPayloadCe : List Byte := replicate 64 0
  deriving DecidableEq

namespace SchSubh

def getHeaderSize (kind : Kind) (s : SchSubh) (isLast : Bool) : Nat :=
  if isLast then 1 else if hasLengthField kind s.lcid then sizeHeaderSdu s.nofBytes else 1

def writeSubheader (kind : Kind) (s : SchSubh) (isLast : Bool) : List Byte :=
  UInt8.ofNat ((if isLast then 0 else 32) + s.lcid % 32) ::
    if hasLengthField kind s.lcid && !isLast then
      if 128 ≤ s.nofBytes then [UInt8.ofNat (128 + s.nofBytes / 256 % 128), UInt8.ofNat s.nofBytes]
      else [UInt8.ofNat (s.nofBytes % 128)]
    else []

def writePayload (kind : Kind) (s : SchSubh) : List Byte :=
  s.wPayloadCe.take (sizeofCe kind s.lcid s.nofMchSchedCe)

def writeCe (s : SchSubh) (bytes : List Byte) : SchSubh :=
  { s with wPayloadCe := bytes ++ s.wPayloadCe.drop bytes.length }

def setPadding (paddingLen : Nat) : SchSubh := { lcid := Lcid.padding, nofBytes := paddingLen }

end SchSubh

/-- A `sch_pdu` between `init_tx` and `write_packet`, with the first `nof_subheaders` of its subheaders.
While a PDU is written the current subheader, `cur_idx`, is the last of them. -/
structure SchPdu where
  kind : Kind
  maxSubheaders : Nat
  subheaders : List SchSubh := []
  pduLen : Nat
  remLen : Nat
  lastSduIdx : Option Nat := none
  buffer : ByteBuffer

namespace SchPdu

def initTx (kind : Kind) (maxSubheaders : Nat) (buffer : ByteBuffer) (pduLenBytes : Nat) : SchPdu :=
  { kind, maxSubheaders, buffer, pduLen := pduLenBytes, remLen := pduLenBytes }

variable (p : SchPdu)

/-- `none` where the function returns false, as in the functions below. -/
def newSubh : Option SchPdu :=
  if p.subheaders.length + 1 < p.maxSubheaders ∧ 2 ≤ p.remLen ∧ 1 < p.buffer.headroom then
    some { p with subheaders := p.subheaders ++ [{}] }
  else none

def delSubh : SchPdu := { p with subheaders := p.subheaders.dropLast }

def getCurrentIdx : Nat := p.subheaders.length - 1

def get : SchSubh := p.subheaders.getLastD {}

def setCurrent (s : SchSubh) : SchPdu := { p with subheaders := p.subheaders.dropLast ++ [s] }

def hasSpaceCe (nbytes : Nat) : Bool := nbytes + 1 ≤ p.remLen

def lastSduExtension : Nat :=
  match p.lastSduIdx with
  | none => 0
  | some i => sizeHeaderSdu ((p.subheaders.getD i {}).nofBytes) - 1

def getSduSpace : Nat := min (p.remLen - p.lastSduExtension - 1) p.buffer.getTailroom

def hasSpaceSdu (nbytes : Nat) : Bool := nbytes ≤ p.getSduSpace

def setCe (lcid : Nat) (bytes : List Byte) : Option SchPdu :=
  if p.hasSpaceCe bytes.length then
    let p := p.setCurrent { p.get.writeCe bytes with lcid, nofBytes := bytes.length }
    some { p with remLen := p.remLen - (bytes.length + 1) }
  else none

def setCRnti (crnti : Nat) : Option SchPdu :=
  p.setCe Lcid.crnti [UInt8.ofNat (crnti / 256), UInt8.ofNat crnti]

end SchPdu

def phrReportTable (phrValue : ℚ) : Nat := ⌊min (max phrValue (-23)) 40 + 23⌋.toNat

def SchPdu.setPhr (p : SchPdu) (phr : ℚ) : Option SchPdu :=
  p.setCe Lcid.phrReport [UInt8.ofNat (phrReportTable phr % 64)]

def btable : List Nat :=
  [0, 1, 10, 12, 14, 17, 19, 22, 26, 31, 36, 42, 49, 57, 67, 78,
   91, 107, 125, 146, 171, 200, 234, 274, 321, 376, 440, 515, 603, 706, 826, 967,
   1132, 1326, 1552, 1817, 2127, 2490, 2915, 3413, 3995, 4667, 5476, 6411, 7505, 8787, 10287, 12043,
   14099, 16507, 19325, 22624, 26487, 31009, 36304, 42502, 49759, 58255, 68201, 79846, 93479, 109439, 128125, 150000]

def buffSizeTable (bufferSize : Nat) : Nat :=
  if bufferSize = 0 then 0
  else if 150000 < bufferSize then 63
  else ((range' 1 61).find? fun i => bufferSize ≤ btable.getD (i + 1) 0).getD 62

inductive BsrFormat where
  | longBsr
  | shortBsr
  | truncBsr
  deriving DecidableEq, Repr

def BsrFormat.lcid : BsrFormat → Nat
  | .longBsr => Lcid.longBsr
  | .shortBsr => Lcid.shortBsr
  | .truncBsr => Lcid.truncBsr

/-- The sizes are `uint32_t`; they are kept as integers to show where one would fall below zero. -/
instance BuffSize.four : NeZero 4 := ⟨by decide⟩

abbrev BuffSize := Fin 4 → Int

def BuffSize.u32 (buffSize : BuffSize) (lcg : Fin 4) : Nat := (buffSize lcg % 4294967296).toNat

def nonzeroLcg (buffSize : BuffSize) : Fin 4 :=
  (finRange 4).foldl (fun lcg i => if buffSize.u32 i ≠ 0 then i else lcg) 0

def bsrBytes (buffSize : BuffSize) (format : BsrFormat) : List Byte :=
  let level := fun i => buffSizeTable (buffSize.u32 i)
  match format with
  | .longBsr =>
    [UInt8.ofNat (level 0 % 64 * 4 + level 1 / 16 % 4), UInt8.ofNat (level 1 % 16 * 16 + level 2 / 4 % 16),
     UInt8.ofNat (level 2 % 4 * 64 + level 3 % 64)]
  | .shortBsr | .truncBsr => [UInt8.ofNat ((nonzeroLcg buffSize).val * 64 + level (nonzeroLcg buffSize) % 64)]

def getBsr (lcid : Nat) (payload : List Byte) : List (Fin 4 × Nat) :=
  let byte := byteAt payload
  if lcid = Lcid.longBsr then
    [(0, byte 0 / 4), (1, byte 0 % 4 * 16 + byte 1 / 16), (2, byte 1 % 16 * 4 + byte 2 / 64), (3, byte 2 % 64)]
  else [(Fin.ofNat 4 (byte 0 / 64), byte 0 % 64)]

structure RlcInterfaceMac (σ : Type) where
  getBufferState : σ → Nat → Nat
  readPdu : σ → Nat → Nat → List Byte × σ

namespace SchPdu
variable (p : SchPdu)

def setBsr (buffSize : BuffSize) (format : BsrFormat) : Option SchPdu :=
  p.setCe format.lcid (bsrBytes buffSize format)

def updateBsr (idx : Nat) (buffSize : BuffSize) (format : BsrFormat) : SchPdu :=
  { p with subheaders := p.subheaders.modify idx fun s => s.writeCe (bsrBytes buffSize format) }

/-- `update_space_sdu` and `add_sdu` for the bytes that were written behind the others. -/
def addSdu (lcid : Nat) (bytes : List Byte) : SchPdu :=
  { p.setCurrent { p.get with
      lcid
      nofBytes := bytes.length } with
    remLen := p.remLen - (bytes.length + 1 + p.lastSduExtension)
    lastSduIdx := some p.getCurrentIdx
    buffer := { p.buffer with msg := p.buffer.msg ++ bytes } }

def setSdu {σ : Type} (rlc : RlcInterfaceMac σ) (state : σ) (lcid requestedBytes : Nat) :
    Option (SchPdu × Nat) × σ :=
  if p.hasSpaceSdu requestedBytes then
    let (bytes, state) := rlc.readPdu state lcid requestedBytes
    if bytes.length = 0 ∨ requestedBytes < bytes.length then (none, state)
    else (some (p.addSdu lcid bytes, bytes.length), state)
  else (none, state)

/-! `write_packet` -/

def ceOnly : Bool := p.lastSduIdx.isNone

def multibytePadding : Bool := 2 < p.remLen

def onetwoPadding : Nat := if p.multibytePadding then 0 else p.remLen

def numPadding : Nat :=
  if p.multibytePadding then p.remLen - 1 - p.lastSduExtension else 0

def headerSz : Nat :=
  (p.subheaders.zipIdx.map fun (s, i) =>
    s.getHeaderSize p.kind (!p.multibytePadding && p.lastSduIdx == some i)).sum +
  if p.multibytePadding then 1 else p.onetwoPadding

def cePayloadSz : Nat :=
  (p.subheaders.map fun s => if isSdu p.kind s.lcid then 0 else s.nofBytes).sum

def written : List Byte :=
  (replicate p.onetwoPadding ((SchSubh.setPadding 0).writeSubheader p.kind (p.pduLen ≤ p.onetwoPadding))).flatten ++
  (p.subheaders.zipIdx.flatMap fun (s, i) =>
    if isSdu p.kind s.lcid then []
    else s.writeSubheader p.kind (p.ceOnly && !p.multibytePadding && i + 1 == p.subheaders.length)) ++
  (if p.ceOnly then []
    else p.subheaders.zipIdx.flatMap fun (s, i) =>
      if isSdu p.kind s.lcid then s.writeSubheader p.kind (!p.multibytePadding && p.lastSduIdx == some i) else []) ++
  (if p.multibytePadding then (SchSubh.setPadding p.numPadding).writeSubheader p.kind true else []) ++
  p.subheaders.flatMap fun s => if isSdu p.kind s.lcid then [] else s.writePayload p.kind

def writePacket : Option (List Byte) :=
  let totalHeaderSize := p.headerSz + p.cePayloadSz
  let region := replicate totalHeaderSize 0 ++ p.buffer.msg
  if p.buffer.headroom < totalHeaderSize then none
  else if p.buffer.getTailroom < p.numPadding then none
  else if p.buffer.nBytes + totalHeaderSize + p.numPadding ≠ p.pduLen then none
  else some ((p.written ++ region.drop p.written.length).take region.length ++ replicate p.numPadding 0)

end SchPdu

structure ReadSubh where
  lcid : Nat
  nofBytes : Nat
  payload : Nat := 0
  deriving DecidableEq, Repr

def readSubheader (kind : Kind) (mem : Memory) (ptr : Nat) : Bool × ReadSubh × Nat :=
  let eBit := mem.byte ptr / 32 % 2 = 1
  let lcid := mem.byte ptr % 32
  if hasLengthField kind lcid then
    if eBit then
      if 128 ≤ mem.byte (ptr + 1) then
        (true, ⟨lcid, mem.byte (ptr + 1) % 128 * 256 + mem.byte (ptr + 2), 0⟩, 3)
      else (true, ⟨lcid, mem.byte (ptr + 1), 0⟩, 2)
    else (false, ⟨lcid, 0, 0⟩, 1)
  else (eBit, ⟨lcid, sizeofCe kind lcid 0, 0⟩, 1)

/-- The first loop of `pdu::parse_packet`, with the number of subheaders that may still be read, the one at
`ptr` included. `none` for a corrupted PDU. -/
def readSubheaders (kind : Kind) (mem : Memory) (pduLen : Nat) : Nat → Nat → Option (List ReadSubh × Nat)
  | 0, ptr => some ([], ptr)
  | room + 1, ptr =>
    let (more, subh, len) := readSubheader kind mem ptr
    if more && pduLen ≤ ptr + len then none
    else if more && 0 < room then
      (readSubheaders kind mem pduLen room (ptr + len)).map fun (subhs, ptr) => (subh :: subhs, ptr)
    else some ([subh], ptr + len)

def readPayloads (pduLen : Nat) : List ReadSubh → Nat → Option (List ReadSubh)
  | [], _ => some []
  | s :: rest, ptr =>
    if pduLen < ptr + s.nofBytes then none
    else (readPayloads pduLen rest (ptr + s.nofBytes)).map ({ s with payload := ptr } :: ·)

def ReadSubh.sizePlusHeader (kind : Kind) (s : ReadSubh) : Nat :=
  if hasLengthField kind s.lcid then sizeHeaderSdu s.nofBytes + s.nofBytes else 1 + s.nofBytes

/-- `sch_pdu::parse_packet` of a receiver with `maxSubheaders`: the subheaders, none of them for a corrupted PDU.
The size of the last one is what is left. -/
def parsePacket (kind : Kind) (maxSubheaders : Nat) (mem : Memory) (pduLen : Nat) : List ReadSubh :=
  match readSubheaders kind mem pduLen (min maxSubheaders (max 1 (maxSubheaders - 1))) 0 with
  | none => []
  | some (subhs, ptr) =>
    match readPayloads pduLen subhs ptr with
    | none => []
    | some subhs =>
      match subhs.getLast? with
      | none => []
      | some last =>
        let readLen := (subhs.dropLast.map (·.sizePlusHeader kind)).sum
        if readLen + 1 ≤ pduLen then subhs.dropLast ++ [{ last with nofBytes := pduLen - readLen - 1 }] else []

end IsrRan.Mac.Lte.Pdu
