import IsrRan.Common.Memory
import IsrRan.Lib.Peek

namespace IsrRan.Upper

@[simp] def gtpuFlagsVersionMask : Nat := 0xE0
@[simp] def gtpuFlagsVersionV1 : Nat := 0x20
@[simp] def gtpuFlagsGtpProtocol : Nat := 0x10
@[simp] def gtpuFlagsExtendedHdr : Nat := 0x04
@[simp] def gtpuFlagsSequence : Nat := 0x02
@[simp] def gtpuFlagsPacketNum : Nat := 0x01

@[simp] def gtpuMsgEchoRequest : Nat := 1
@[simp] def gtpuMsgEchoResponse : Nat := 2
@[simp] def gtpuMsgErrorIndication : Nat := 26
@[simp] def gtpuMsgEndMarker : Nat := 254
@[simp] def gtpuMsgDataPdu : Nat := 255

@[simp] def gtpuExtHeaderPdcpPduNumber : Nat := 0xC0
@[simp] def gtpuExtHeaderPduSessionContainer : Nat := 0x85

structure GtpuHeader where
  flags : Nat := 0
  messageType : Nat := 0
  length : Nat := 0
  teid : Nat := 0
  seqNumber : Nat := 0
  nPdu : Nat := 0
  nextExtHdrType : Nat := 0
  extBuffer : List Byte := []
  deriving DecidableEq, Repr

def gtpuSupportedFlagsCheck (header : GtpuHeader) : Bool :=
  header.flags &&& gtpuFlagsVersionMask = gtpuFlagsVersionV1 && header.flags &&& gtpuFlagsGtpProtocol ≠ 0 &&
    header.flags &&& gtpuFlagsPacketNum = 0

def gtpuSupportedMsgTypeCheck (header : GtpuHeader) : Bool :=
  header.messageType ∈
    [gtpuMsgDataPdu, gtpuMsgEchoRequest, gtpuMsgEchoResponse, gtpuMsgErrorIndication, gtpuMsgEndMarker]

def GtpuHeader.isLong (header : GtpuHeader) : Bool :=
  header.flags &&& (gtpuFlagsExtendedHdr ||| gtpuFlagsSequence ||| gtpuFlagsPacketNum) ≠ 0

def byteOf (n : Nat) : Byte := UInt8.ofNat n

def uint16ToUint8 (n : Nat) : List Byte := [byteOf (n / 256), byteOf n]

def uint32ToUint8 (n : Nat) : List Byte :=
  [byteOf (n / 2 ^ 24), byteOf (n / 2 ^ 16), byteOf (n / 2 ^ 8), byteOf n]

section Write
variable (header : GtpuHeader)

def GtpuHeader.extLen : Nat := if header.nextExtHdrType > 0 then header.extBuffer.length else 0

def GtpuHeader.mandatory : List Byte :=
  [byteOf header.flags, byteOf header.messageType] ++ uint16ToUint8 header.length ++ uint32ToUint8 header.teid

def GtpuHeader.optional : List Byte :=
  uint16ToUint8 (if header.flags &&& gtpuFlagsSequence ≠ 0 then header.seqNumber else 0) ++ [byteOf header.nPdu] ++
    if header.flags &&& gtpuFlagsExtendedHdr ≠ 0 then byteOf header.nextExtHdrType :: header.extBuffer else [0]

def GtpuHeader.written : List Byte := header.mandatory ++ if header.isLong then header.optional else []

def GtpuHeader.sent (header : GtpuHeader) : GtpuHeader :=
  if header.isLong then
    { header with
      length := u16 (header.length + (12 - 8) + header.extLen)
      nPdu := if header.flags &&& gtpuFlagsPacketNum ≠ 0 then header.nPdu else 0 }
  else header

/-- `gtpu_write_header`: the message with the header in front of the payload. An extension is only written under its
flag. -/
def gtpuWriteHeader (pdu : ByteBuffer) : Option (List Byte) :=
  if !gtpuSupportedFlagsCheck header || !gtpuSupportedMsgTypeCheck header then none
  else if pdu.headroom < if header.isLong then 12 else 8 then none
  else some (header.sent.written ++ pdu.msg)

end Write

section Read

def gtpuReadExtHeaderAt (header : GtpuHeader) (ptr msg nBytes : Nat) :
    Lib.Peek Nat Byte (Bool × GtpuHeader × Nat × Nat) := do
  if header.flags &&& gtpuFlagsExtendedHdr = 0 ∨ header.nextExtHdrType = 0 then pure (true, header, msg, nBytes)
  else if header.nextExtHdrType = gtpuExtHeaderPdcpPduNumber then
    let e0 ← Lib.Peek.cell ptr
    let e1 ← Lib.Peek.cell (ptr + 1)
    let e2 ← Lib.Peek.cell (ptr + 2)
    let e3 ← Lib.Peek.cell (ptr + 3)
    pure (true, { header with extBuffer := [e0, e1, e2, e3] }, msg + 4, u32Sub nBytes 4)
  else if header.nextExtHdrType = gtpuExtHeaderPduSessionContainer then pure (true, header, msg + 4, u32Sub nBytes 4)
  else pure (false, header, msg, nBytes)

/-- `gtpu_read_header` into a header that it does not clear: the result, the header, and where the payload is. -/
def gtpuReadHeaderAt (header : GtpuHeader) (msg nBytes : Nat) : Lib.Peek Nat Byte (Bool × GtpuHeader × Nat × Nat) := do
  let b0 ← Lib.Peek.cell msg
  let b1 ← Lib.Peek.cell (msg + 1)
  let b2 ← Lib.Peek.cell (msg + 2)
  let b3 ← Lib.Peek.cell (msg + 3)
  let b4 ← Lib.Peek.cell (msg + 4)
  let b5 ← Lib.Peek.cell (msg + 5)
  let b6 ← Lib.Peek.cell (msg + 6)
  let b7 ← Lib.Peek.cell (msg + 7)
  let header : GtpuHeader :=
    { header with
      flags := b0.toNat
      messageType := b1.toNat
      length := b2.toNat * 256 + b3.toNat
      teid := b4.toNat * 2 ^ 24 + b5.toNat * 2 ^ 16 + b6.toNat * 2 ^ 8 + b7.toNat }
  if !gtpuSupportedFlagsCheck header || !gtpuSupportedMsgTypeCheck header then pure (false, header, msg, nBytes)
  else if header.isLong then
    let b8 ← Lib.Peek.cell (msg + 8)
    let b9 ← Lib.Peek.cell (msg + 9)
    let b10 ← Lib.Peek.cell (msg + 10)
    let b11 ← Lib.Peek.cell (msg + 11)
    gtpuReadExtHeaderAt
      { header with
        seqNumber := b8.toNat * 256 + b9.toNat
        nPdu := b10.toNat
        nextExtHdrType := b11.toNat } (msg + 12) (msg + 12) (u32Sub nBytes 12)
  else pure (true, header, msg + 8, u32Sub nBytes 8)

end Read

def gtpuReadHeader (bytes : List Byte) : Option (GtpuHeader × List Byte) :=
  let (ret, header, msg, _) := (gtpuReadHeaderAt {} 0 bytes.length).run (Memory.ofList bytes)
  if ret then some (header, bytes.drop msg) else none

def dataHeader (nBytes teidOut : Nat) (pdcpSn : Int) : GtpuHeader :=
  let header : GtpuHeader :=
    { flags := gtpuFlagsVersionV1 ||| gtpuFlagsGtpProtocol, messageType := gtpuMsgDataPdu, length := u16 nBytes,
      teid := teidOut }
  if pdcpSn ≥ 0 then
    { header with
      flags := header.flags ||| gtpuFlagsExtendedHdr
      nextExtHdrType := gtpuExtHeaderPdcpPduNumber
      extBuffer := [1, byteOf (pdcpSn.toNat / 256), byteOf pdcpSn.toNat, 0] }
  else header

def rxPdcpSn (header : GtpuHeader) : Option Nat :=
  if header.flags &&& gtpuFlagsExtendedHdr ≠ 0 ∧ header.nextExtHdrType = gtpuExtHeaderPdcpPduNumber then
    some (byteAt header.extBuffer 1 * 256 + byteAt header.extBuffer 2)
  else none

@[simp] theorem toNat_byteOf (n : Nat) : (byteOf n).toNat = n % 256 := UInt8.toNat_ofNat'

variable {pdu : ByteBuffer} {teid : Nat} {bytes : List Byte}

theorem gtpuReadHeader_dataHeader {nBytes : Nat} {pdcpSn : Int} (small : teid < 2 ^ 32)
    (written : gtpuWriteHeader (dataHeader nBytes teid pdcpSn) pdu = some bytes) :
    ∃ header, gtpuReadHeader bytes = some (header, pdu.msg) ∧ header.messageType = gtpuMsgDataPdu ∧
      header.teid = teid ∧ rxPdcpSn header = if pdcpSn ≥ 0 then some (pdcpSn.toNat % 65536) else none := by
  by_cases numbered : pdcpSn ≥ 0
  · simp [dataHeader, numbered, gtpuWriteHeader, gtpuSupportedFlagsCheck, gtpuSupportedMsgTypeCheck,
      GtpuHeader.isLong, GtpuHeader.sent, GtpuHeader.written, GtpuHeader.mandatory, GtpuHeader.optional,
      uint16ToUint8, uint32ToUint8] at written
    obtain ⟨_, rfl⟩ := written
    simp [rxPdcpSn, gtpuReadHeader, gtpuReadHeaderAt, gtpuReadExtHeaderAt, gtpuSupportedFlagsCheck,
      gtpuSupportedMsgTypeCheck, GtpuHeader.isLong, Memory.ofList]
    omega
  · simp [dataHeader, numbered, gtpuWriteHeader, gtpuSupportedFlagsCheck, gtpuSupportedMsgTypeCheck,
      GtpuHeader.isLong, GtpuHeader.sent, GtpuHeader.written, GtpuHeader.mandatory, uint16ToUint8, uint32ToUint8]
      at written
    obtain ⟨_, rfl⟩ := written
    simp [rxPdcpSn, gtpuReadHeader, gtpuReadHeaderAt, gtpuSupportedFlagsCheck, gtpuSupportedMsgTypeCheck,
      GtpuHeader.isLong, Memory.ofList]
    omega

end IsrRan.Upper
