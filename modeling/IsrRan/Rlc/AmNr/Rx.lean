import IsrRan.Rlc.Common
import IsrRan.Adt.CircularMap

namespace IsrRan.Rlc.AmNr
open List UInt8

/-- `rlc_am_nr_sn_size_t`; `configure` refuses the `nulltype`. -/
inductive SnSize where
  | size12bits
  | size18bits
  deriving DecidableEq, Repr

def SnSize.modNr : SnSize → Nat
  | size12bits => 4096
  | size18bits => 262144

def SnSize.windowSize : SnSize → Nat
  | size12bits => 2048
  | size18bits => 131072

structure PduHeader where
  dc : Bool
  p : Bool
  si : SiField
  sn : Nat
  so : Nat
  deriving DecidableEq, Repr

def packedLength (snSize : SnSize) (header : PduHeader) : Nat :=
  (if header.si = .fullSdu ∨ header.si = .firstSegment then 2 else 4) +
  (if snSize = .size18bits then 1 else 0)

def readSo (payload : Memory) (pos : Nat) (header : PduHeader) : Nat × PduHeader :=
  if header.si = .lastSegment ∨ header.si = .neitherFirstNorLastSegment then
    (pos + 2, { header with so := payload.byte pos * 256 + payload.byte (pos + 1) })
  else (pos, header)

def readDataPduHeader (payload : Memory) (snSize : SnSize) : Nat × PduHeader :=
  let b := payload.byte 0
  let header : PduHeader := ⟨b / 128 % 2 = 1, b / 64 % 2 = 1, .ofBits (b / 16 % 4), 0, 0⟩
  match snSize with
  | .size12bits => readSo payload 2 { header with sn := b % 16 * 256 + payload.byte 1 }
  | .size18bits =>
    if b / 4 % 4 ≠ 0 then (0, header)
    else readSo payload 3
      { header with sn := b % 4 * 65536 + payload.byte 1 * 256 + payload.byte 2 }

section
variable (payload : Memory)
include payload

theorem readSo_sn (pos : Nat) (header : PduHeader) :
    (readSo payload pos header).2.sn = header.sn := by
  unfold readSo
  split <;> rfl

theorem readSo_so_lt (pos : Nat) {header : PduHeader} (h : header.so < 65536) :
    (readSo payload pos header).2.so < 65536 := by
  unfold readSo
  split
  · have := payload.byte_lt pos
    have := payload.byte_lt (pos + 1)
    dsimp only
    omega
  · exact h

section
variable (snSize : SnSize)
include snSize

theorem readDataPduHeader_sn_lt :
    (readDataPduHeader payload snSize).2.sn < snSize.modNr := by
  have := payload.byte_lt 1
  have := payload.byte_lt 2
  cases snSize with
  | size12bits =>
    simp only [readDataPduHeader, readSo_sn, SnSize.modNr]
    omega
  | size18bits =>
    simp only [readDataPduHeader, SnSize.modNr]
    split
    · exact Nat.zero_lt_succ _
    · rw [readSo_sn]
      dsimp only
      omega

theorem readDataPduHeader_so_lt :
    (readDataPduHeader payload snSize).2.so < 65536 := by
  cases snSize with
  | size12bits => exact readSo_so_lt _ _ (by simp)
  | size18bits =>
    simp only [readDataPduHeader]
    split
    · simp
    · exact readSo_so_lt _ _ (by simp)

theorem readSo_length (header : PduHeader) :
    (readSo payload (if snSize = .size18bits then 3 else 2) header).1 =
      packedLength snSize (readSo payload (if snSize = .size18bits then 3 else 2) header).2 := by
  obtain ⟨dc, p, si, sn, so⟩ := header
  cases si <;> cases snSize <;> simp [readSo, packedLength]

theorem readDataPduHeader_length :
    (readDataPduHeader payload snSize).1 = 0 ∨
      (readDataPduHeader payload snSize).1 =
        packedLength snSize (readDataPduHeader payload snSize).2 := by
  cases snSize with
  | size12bits => exact .inr (readSo_length payload .size12bits _)
  | size18bits =>
    unfold readDataPduHeader
    dsimp only
    split
    · exact .inl rfl
    · exact .inr (readSo_length payload .size18bits _)

end

end

def soEndOfSdu : Nat := 65535

structure Nack where
  nackSn : Nat
  hasSo : Bool := false
  soStart : Nat := 0
  soEnd : Nat := soEndOfSdu
  hasNackRange : Bool := false
  nackRange : Nat := 0
  deriving DecidableEq, Repr

/-- `rlc_am_nr_status_pdu_t`. The back of the vector `nacks_` is the head of `stack`. -/
structure StatusPdu where
  ackSn : Nat := 4294967295
  stack : List Nack := []
  packedSize : Nat := 3
  deriving DecidableEq, Repr

def isContinuousSequence (snSize : SnSize) (left right : Nack) : Bool :=
  right.nackSn = (if left.hasNackRange then left.nackSn + left.nackRange else left.nackSn + 1) %
      snSize.modNr &&
    !(left.hasSo && left.soEnd ≠ soEndOfSdu) && !(right.hasSo && right.soStart ≠ 0)

def nackSize (snSize : SnSize) (nack : Nack) : Nat :=
  (match snSize with
    | .size12bits => 2
    | .size18bits => 3) +
  (if nack.hasSo then 4 else 0) + (if nack.hasNackRange then 1 else 0)

/-- The previous NACK after it took in the next one. `nack_range` is a `uint8_t`. -/
def Nack.expand (prev nack : Nack) : Nack where
  nackSn := prev.nackSn
  hasSo := prev.hasSo || nack.hasSo
  soStart := if nack.hasSo && !prev.hasSo then 0 else prev.soStart
  soEnd := if nack.hasSo then nack.soEnd else if prev.hasSo then soEndOfSdu else prev.soEnd
  hasNackRange := true
  nackRange :=
    (if nack.hasNackRange then
      if prev.hasNackRange then prev.nackRange + nack.nackRange else nack.nackRange + 1
    else if prev.hasNackRange then prev.nackRange + 1 else 2) % 256

namespace StatusPdu

def nacks (status : StatusPdu) : List Nack := status.stack.reverse

def pushNack (snSize : SnSize) (status : StatusPdu) (nack : Nack) : StatusPdu :=
  match status.stack with
  | [] => { status with stack := [nack], packedSize := status.packedSize + nackSize snSize nack }
  | prev :: rest =>
    if isContinuousSequence snSize prev nack then
      { status with
        stack := prev.expand nack :: rest
        packedSize := status.packedSize - nackSize snSize prev + nackSize snSize (prev.expand nack) }
    else
      { status with
        stack := nack :: prev :: rest
        packedSize := status.packedSize + nackSize snSize nack }

def removeNacks (snSize : SnSize) (maxPackedSize ackSn packedSize : Nat) : List Nack → StatusPdu
  | [] => ⟨ackSn, [], packedSize⟩
  | nack :: rest =>
    if maxPackedSize < packedSize ∨ nack.nackSn = ackSn then
      removeNacks snSize maxPackedSize nack.nackSn (packedSize - nackSize snSize nack) rest
    else ⟨ackSn, nack :: rest, packedSize⟩

def trim (snSize : SnSize) (status : StatusPdu) (maxPackedSize : Nat) : StatusPdu :=
  if status.packedSize ≤ maxPackedSize then status
  else if maxPackedSize < 3 then status
  else removeNacks snSize maxPackedSize status.ackSn status.packedSize status.stack

end StatusPdu

def readWord (payload : Memory) (pos : Nat) : Nat := payload.byte pos * 256 + payload.byte (pos + 1)

structure NackFields where
  nackSn : Nat
  e1 : Bool
  e2 : Bool
  e3 : Bool
  reserved : Bool

def readNackFields (payload : Memory) (pos : Nat) : SnSize → NackFields
  | .size12bits =>
    let b := payload.byte (pos + 1)
    ⟨payload.byte pos * 16 + b / 16, b / 8 % 2 = 1, b / 4 % 2 = 1, b / 2 % 2 = 1, b % 2 ≠ 0⟩
  | .size18bits =>
    let b := payload.byte (pos + 2)
    ⟨payload.byte pos * 1024 + payload.byte (pos + 1) * 4 + b / 64,
      b / 32 % 2 = 1, b / 16 % 2 = 1, b / 8 % 2 = 1, b % 8 ≠ 0⟩

def nackSnLength : SnSize → Nat
  | .size12bits => 2
  | .size18bits => 3

def readNackSo (payload : Memory) (pos : Nat) (e2 : Bool) (nack : Nack) : Nack × Nat :=
  if e2 then
    ({ nack with hasSo := true, soStart := readWord payload pos, soEnd := readWord payload (pos + 2) }, pos + 4)
  else (nack, pos)

def readNackRange (payload : Memory) (pos : Nat) (e3 : Bool) (nack : Nack) : Nack × Nat :=
  if e3 then ({ nack with hasNackRange := true, nackRange := payload.byte pos }, pos + 1) else (nack, pos)

def readNack (payload : Memory) (snSize : SnSize) (pos : Nat) (fields : NackFields) : Nack × Nat :=
  let read := readNackSo payload (pos + nackSnLength snSize) fields.e2 { nackSn := fields.nackSn }
  readNackRange payload read.2 fields.e3 read.1

/-- What `rlc_am_nr_read_status_pdu` leaves in `status`, how far it read, and whether it took the PDU
for malformed. It returns 0 either way. -/
structure ReadStatus where
  status : StatusPdu
  length : Nat
  malformed : Bool
  deriving DecidableEq, Repr

def readNacks (payload : Memory) (nofBytes : Nat) (snSize : SnSize) : Nat → Nat → StatusPdu → ReadStatus
  | 0, pos, status => ⟨status, pos, true⟩
  | fuel + 1, pos, status =>
    if nofBytes ≤ pos then ⟨status, pos, true⟩
    else
      let fields := readNackFields payload pos snSize
      if fields.reserved then ⟨status, pos, true⟩
      else
        let read := readNack payload snSize pos fields
        let status := status.pushNack snSize read.1
        if fields.e1 then readNacks payload nofBytes snSize fuel read.2 status
        else ⟨status, read.2, false⟩

def readAckSn (payload : Memory) : SnSize → Nat × Bool × Bool
  | .size12bits =>
    let b := payload.byte 2
    (payload.byte 0 % 16 * 256 + payload.byte 1, b / 128 = 1, b % 128 ≠ 0)
  | .size18bits =>
    let b := payload.byte 2
    (payload.byte 0 % 16 * 16384 + payload.byte 1 * 64 + b / 4, b / 2 % 2 = 1, b % 2 ≠ 0)

/-- `rlc_am_nr_read_status_pdu`. A CPT other than STATUS leaves the invalid ACK_SN of `reset`. -/
def readStatusPdu (payload : Memory) (nofBytes : Nat) (snSize : SnSize) : ReadStatus :=
  if payload.byte 0 / 16 % 8 ≠ 0 then ⟨{}, 1, true⟩
  else
    let (ackSn, e1, reserved) := readAckSn payload snSize
    if reserved then ⟨{ ackSn }, 3, true⟩
    else if e1 then readNacks payload nofBytes snSize (nofBytes + 1) 3 { ackSn }
    else ⟨{ ackSn }, 3, false⟩

def wordBytes (w : Nat) : List Byte := [UInt8.ofNat (w / 256), UInt8.ofNat w]

def writeNack (snSize : SnSize) (more : Bool) (nack : Nack) : List Byte :=
  (match snSize with
    | .size12bits =>
      [UInt8.ofNat (nack.nackSn / 16),
        UInt8.ofNat (nack.nackSn % 16 * 16 + more.toNat * 8 + nack.hasSo.toNat * 4 + nack.hasNackRange.toNat * 2)]
    | .size18bits =>
      [UInt8.ofNat (nack.nackSn / 1024), UInt8.ofNat (nack.nackSn / 4),
        UInt8.ofNat (nack.nackSn % 4 * 64 + more.toNat * 32 + nack.hasSo.toNat * 16 +
          nack.hasNackRange.toNat * 8)]) ++
  (if nack.hasSo then wordBytes nack.soStart ++ wordBytes nack.soEnd else []) ++
  (if nack.hasNackRange then [UInt8.ofNat nack.nackRange] else [])

def writeNacks (snSize : SnSize) : List Nack → List Byte
  | [] => []
  | nack :: rest => writeNack snSize (!rest.isEmpty) nack ++ writeNacks snSize rest

def writeAckSn (snSize : SnSize) (ackSn : Nat) (e1 : Bool) : List Byte :=
  match snSize with
  | .size12bits => [UInt8.ofNat (ackSn / 256 % 16), UInt8.ofNat ackSn, UInt8.ofNat (e1.toNat * 128)]
  | .size18bits =>
    [UInt8.ofNat (ackSn / 16384 % 16), UInt8.ofNat (ackSn / 64), UInt8.ofNat (ackSn % 64 * 4 + e1.toNat * 2)]

def writeStatusPdu (snSize : SnSize) (status : StatusPdu) : List Byte :=
  writeAckSn snSize status.ackSn (!status.nacks.isEmpty) ++ writeNacks snSize status.nacks

open Adt

structure RxPdu where
  header : PduHeader
  buf : List Byte
  deriving DecidableEq, Repr

/-- `rlc_amd_rx_sdu_nr_t`; `segments` is a set ordered by segment offset. -/
structure RxSdu where
  fullyReceived : Bool := false
  hasGap : Bool := false
  buf : List Byte := []
  segments : List RxPdu := []
  deriving DecidableEq, Repr

structure Rx (snSize : SnSize) where
  rxNext : Nat := 0
  rxNextStatusTrigger : Nat := 0
  rxHighestStatus : Nat := 0
  rxNextHighest : Nat := 0
  rxWindow : CircularMap snSize.windowSize RxSdu := {}
  doStatus : Bool := false
  reassemblyTimerRunning : Bool := false
  statusProhibitTimerRunning : Bool := false

/-- The bytes of a buffer behind `msg`, which `make_byte_buffer` leaves at the header offset. -/
def bufferTailroom : Nat := ({} : ByteBuffer).getTailroom

/-- `insert` of a `std::set`: a segment whose offset is already there is not stored. -/
def insertReceivedSegment (segment : RxPdu) : List RxPdu → List RxPdu
  | [] => [segment]
  | segm :: rest =>
    if segment.header.so < segm.header.so then segment :: segm :: rest
    else if segment.header.so = segm.header.so then segm :: rest
    else segm :: insertReceivedSegment segment rest

def segmentInventory (nextByte : Nat) : List RxPdu → Bool × Bool
  | [] => (false, false)
  | segm :: rest =>
    if segm.header.so ≠ nextByte then (true, false)
    else if segm.header.si = .lastSegment then (false, true)
    else segmentInventory (nextByte + segm.buf.length) rest

def RxSdu.updateSegmentInventory (sdu : RxSdu) : RxSdu :=
  let inventory := segmentInventory 0 sdu.segments
  { sdu with hasGap := inventory.1, fullyReceived := inventory.2 }

def RxSdu.assemble (sdu : RxSdu) : List Byte := (sdu.segments.map RxPdu.buf).flatten

def overlapping (so pduLastByte : Nat) (segm : RxPdu) : Bool :=
  let segmLastByte := u32Sub (segm.header.so + segm.buf.length) 1
  (segm.header.so ≤ so && so ≤ segmLastByte) ||
    (segm.header.so ≤ pduLastByte && pduLastByte ≤ segmLastByte)

namespace Rx

variable {snSize : SnSize}

def rxModBaseNr (rx : Rx snSize) (sn : Nat) : Nat := u32Sub sn rx.rxNext % snSize.modNr

def insideRxWindow (rx : Rx snSize) (sn : Nat) : Bool := rx.rxModBaseNr sn < snSize.windowSize

def validAckSn (rx : Rx snSize) (sn : Nat) : Bool :=
  0 < rx.rxModBaseNr sn && rx.rxModBaseNr sn ≤ snSize.windowSize

def fullyReceived (rx : Rx snSize) (sn : Nat) : Bool :=
  match rx.rxWindow.find sn with
  | some sdu => sdu.fullyReceived
  | none => false

def firstMissing (rx : Rx snSize) : Nat → Nat → Nat
  | 0, sn => sn
  | fuel + 1, sn =>
    if rx.rxModBaseNr sn < rx.rxModBaseNr rx.rxNextHighest && rx.fullyReceived sn then
      rx.firstMissing fuel ((sn + 1) % snSize.modNr)
    else sn

def advanceRxNext (rx : Rx snSize) : Nat → Nat → CircularMap snSize.windowSize RxSdu →
    CircularMap snSize.windowSize RxSdu × Nat
  | 0, sn, window => (window, sn)
  | fuel + 1, sn, window =>
    if rx.rxModBaseNr sn < rx.rxModBaseNr rx.rxNextHighest &&
        ((window.find sn).map RxSdu.fullyReceived).getD false then
      rx.advanceRxNext fuel ((sn + 1) % snSize.modNr) (window.erase sn)
    else (window, sn)

def isDuplicate (rx : Rx snSize) (header : PduHeader) (pduLastByte : Nat) : Bool :=
  match rx.rxWindow.find header.sn with
  | none => false
  | some sdu => sdu.fullyReceived ||
      (header.si ≠ .fullSdu && sdu.segments.any (overlapping header.so pduLastByte))

/-- `none` when the PDU does not fit the buffer; the SDU is then not in the window. -/
def handleFullDataSdu (rx : Rx snSize) (header : PduHeader) (payload : Memory) (nofBytes : Nat) :
    Except Fault (Rx snSize × Bool) :=
  let hdrLen := packedLength snSize header
  let window := rx.rxWindow.overwrite header.sn {}
  if bufferTailroom < nofBytes then .ok ({ rx with rxWindow := window.erase header.sn }, false)
  else if nofBytes < hdrLen then .error .undefinedBehaviour
  else
    let sdu : RxSdu := { buf := payload.slice hdrLen (nofBytes - hdrLen), fullyReceived := true }
    .ok ({ rx with rxWindow := window.assign header.sn sdu }, true)

def handleSegmentDataSdu (rx : Rx snSize) (header : PduHeader) (payload : Memory) (nofBytes : Nat) :
    Except Fault (Rx snSize × Bool) :=
  let hdrLen := packedLength snSize header
  let window :=
    if rx.rxWindow.contains header.sn then rx.rxWindow else rx.rxWindow.overwrite header.sn {}
  let sdu := (window.find header.sn).getD {}
  if nofBytes < hdrLen ∨ bufferTailroom < nofBytes - hdrLen then .error .undefinedBehaviour
  else
    let segment : RxPdu := ⟨header, payload.slice hdrLen (nofBytes - hdrLen)⟩
    let sdu := { sdu with segments := insertReceivedSegment segment sdu.segments }
    let sdu := sdu.updateSegmentInventory
    if sdu.fullyReceived then
      if bufferTailroom < sdu.assemble.length then .error .undefinedBehaviour
      else .ok ({ rx with rxWindow := window.assign header.sn { sdu with buf := sdu.assemble } }, true)
    else .ok ({ rx with rxWindow := window.assign header.sn sdu }, true)

def updateHighestStatus (rx : Rx snSize) (sn : Nat) : Rx snSize :=
  if rx.rxModBaseNr sn = rx.rxModBaseNr rx.rxHighestStatus then
    { rx with rxHighestStatus :=
        rx.firstMissing snSize.modNr ((rx.rxHighestStatus + 1) % snSize.modNr) }
  else rx

def updateRxNext (rx : Rx snSize) (sn : Nat) : Rx snSize :=
  if rx.rxModBaseNr sn = rx.rxModBaseNr rx.rxNext then
    let advanced := rx.advanceRxNext snSize.modNr (rx.rxNext % snSize.modNr) rx.rxWindow
    { rx with rxWindow := advanced.1, rxNext := advanced.2 }
  else rx

def raiseNextHighest (rx : Rx snSize) (sn : Nat) : Rx snSize :=
  if rx.rxModBaseNr rx.rxNextHighest ≤ rx.rxModBaseNr sn then
    { rx with rxNextHighest := (sn + 1) % snSize.modNr }
  else rx

def deliver (rx : Rx snSize) (sn : Nat) : Rx snSize × List Sdu :=
  match rx.rxWindow.find sn with
  | some sdu =>
    if sdu.fullyReceived then ((rx.updateHighestStatus sn).updateRxNext sn, [sdu.buf]) else (rx, [])
  | none => (rx, [])

def updateState (rx : Rx snSize) (sn : Nat) : Rx snSize × List Sdu := (rx.raiseNextHighest sn).deliver sn

def stopReassemblyTimer (rx : Rx snSize) : Except Fault (Rx snSize) :=
  if rx.reassemblyTimerRunning then
    let outside := rx.rxNextStatusTrigger = rx.rxNext || !rx.insideRxWindow rx.rxNextStatusTrigger
    if rx.rxModBaseNr rx.rxNextStatusTrigger = rx.rxModBaseNr (rx.rxNext + 1) then
      match rx.rxWindow.find rx.rxNext with
      | none => .error .assertionFailed
      | some sdu => .ok { rx with reassemblyTimerRunning := !(outside || !sdu.hasGap) }
    else .ok { rx with reassemblyTimerRunning := !outside }
  else .ok rx

def hasGap (rx : Rx snSize) (sn : Nat) : Bool :=
  match rx.rxWindow.find sn with
  | some sdu => sdu.hasGap
  | none => false

def startReassemblyTimer (rx : Rx snSize) (from_ : Nat) : Rx snSize :=
  if rx.rxModBaseNr (from_ + 1) < rx.rxModBaseNr rx.rxNextHighest ||
      rx.rxModBaseNr rx.rxNextHighest = rx.rxModBaseNr (from_ + 1) && rx.hasGap from_ then
    { rx with reassemblyTimerRunning := true, rxNextStatusTrigger := rx.rxNextHighest }
  else rx

def placeDataPdu (rx : Rx snSize) (header : PduHeader) (payload : Memory) (nofBytes : Nat) :
    Except Fault (Rx snSize × Bool) :=
  if header.si = .fullSdu then rx.handleFullDataSdu header payload nofBytes
  else rx.handleSegmentDataSdu header payload nofBytes

def restartReassemblyTimer (rx : Rx snSize) : Except Fault (Rx snSize) := do
  let rx ← rx.stopReassemblyTimer
  .ok (if rx.reassemblyTimerRunning then rx else rx.startReassemblyTimer rx.rxNext)

def pduLastByte (header : PduHeader) (nofBytes hdrLen : Nat) : Nat :=
  u32Sub (u32Sub (header.so + nofBytes) hdrLen) 1

def handleHeader (rx : Rx snSize) (header : PduHeader) (payload : Memory) (nofBytes hdrLen : Nat) :
    Except Fault (Rx snSize × List Sdu) :=
  if !rx.insideRxWindow header.sn || rx.isDuplicate header (pduLastByte header nofBytes hdrLen) then
    .ok (rx, [])
  else do
    let placed ← rx.placeDataPdu header payload nofBytes
    if placed.2 then
      let updated := placed.1.updateState header.sn
      let rx ← updated.1.restartReassemblyTimer
      .ok (rx, updated.2)
    else .ok (placed.1, [])

def handleDataPdu (rx : Rx snSize) (payload : Memory) (nofBytes : Nat) :
    Except Fault (Rx snSize × List Sdu) :=
  let parsed := readDataPduHeader payload snSize
  { rx with doStatus := rx.doStatus || parsed.2.p }.handleHeader parsed.2 payload nofBytes parsed.1

def reassemblyTimerExpired (rx : Rx snSize) : Except Fault (Rx snSize) :=
  let rx := { rx with
    reassemblyTimerRunning := false
    rxHighestStatus := rx.firstMissing snSize.modNr rx.rxNextStatusTrigger }
  if rx.validAckSn rx.rxHighestStatus then
    .ok { rx.startReassemblyTimer rx.rxHighestStatus with doStatus := true }
  else .error .assertionFailed

def nackSegments (snSize : SnSize) (sn : Nat) (status : StatusPdu) (lastSo : Nat)
    (lastSegmentRx : Bool) : List RxPdu → Except Fault StatusPdu
  | [] =>
    if lastSegmentRx then .ok status
    else .ok (status.pushNack snSize { nackSn := sn, hasSo := true, soStart := u16 lastSo })
  | segm :: rest =>
    let lastSegmentRx := lastSegmentRx || segm.header.si = .lastSegment
    let nextSo := segm.header.so + segm.buf.length
    if segm.header.so = lastSo then nackSegments snSize sn status nextSo lastSegmentRx rest
    else
      let nack : Nack :=
        { nackSn := sn, hasSo := true, soStart := u16 lastSo, soEnd := u16 (segm.header.so + 65535) }
      if nack.soStart ≤ nack.soEnd then
        nackSegments snSize sn (status.pushNack snSize nack) nextSo lastSegmentRx rest
      else .error .assertionFailed

def nackSn (rx : Rx snSize) (status : StatusPdu) (sn : Nat) : Except Fault StatusPdu :=
  match rx.rxWindow.find sn with
  | none => .ok (status.pushNack snSize { nackSn := sn })
  | some sdu =>
    if sdu.fullyReceived then .ok status
    else nackSegments snSize sn status 0 false sdu.segments

def nackLoop (rx : Rx snSize) : Nat → Nat → StatusPdu → Except Fault StatusPdu
  | 0, _, status => .ok status
  | fuel + 1, sn, status =>
    if rx.rxModBaseNr sn < rx.rxModBaseNr rx.rxHighestStatus then do
      let status ← rx.nackSn status sn
      rx.nackLoop fuel ((sn + 1) % snSize.modNr) status
    else .ok status

def uint32Max : Nat := 4294967295

def getStatusPdu (rx : Rx snSize) (maxLen : Nat) : Except Fault (Rx snSize × StatusPdu) := do
  let status ← rx.nackLoop snSize.modNr rx.rxNext {}
  let status := { status with ackSn := rx.rxHighestStatus }
  let status := if maxLen < status.packedSize then status.trim snSize maxLen else status
  if maxLen = uint32Max then .ok (rx, status)
  else .ok ({ rx with statusProhibitTimerRunning := true, doStatus := false }, status)

end Rx

def Separated (segments : List RxPdu) : Prop :=
  segments.Pairwise fun a b => a.header.so < b.header.so ∧ a.header.so + a.buf.length ≤ b.header.so

def RxPdu.covers (segm : RxPdu) (byte : Nat) : Prop :=
  segm.header.so ≤ byte ∧ byte < segm.header.so + segm.buf.length

def swallows (so len pduLastByte : Nat) (segm : RxPdu) : Bool :=
  so < segm.header.so && segm.header.so < so + len &&
    segm.header.so + segm.buf.length ≤ pduLastByte

variable {segments : List RxPdu} {segment : RxPdu}

theorem Separated.disjoint (h : Separated segments) :
    segments.Pairwise fun a b => ∀ byte, ¬ (a.covers byte ∧ b.covers byte) := by
  refine List.Pairwise.imp ?_ h
  rintro a b ⟨_, before⟩ byte ⟨inA, inB⟩
  simp only [RxPdu.covers] at inA inB
  omega

theorem mem_insertReceivedSegment {segm : RxPdu}
    (mem : segm ∈ insertReceivedSegment segment segments) : segm = segment ∨ segm ∈ segments := by
  induction segments with
  | nil => simpa [insertReceivedSegment] using mem
  | cons head rest ih =>
    unfold insertReceivedSegment at mem
    split at mem
    · simpa using mem
    · split at mem
      · exact .inr mem
      · rcases List.mem_cons.mp mem with rfl | mem
        · simp
        · rcases ih mem with same | mem
          · exact .inl same
          · exact .inr (mem_cons_of_mem _ mem)

theorem apart_of_not_overlapping {segm : RxPdu} {pduLastByte : Nat}
    (small : segment.header.so < 65536) (stored : segm.header.so + segm.buf.length < 4294967296)
    (last : segment.header.so + segment.buf.length ≤ pduLastByte + 1)
    (free : overlapping segment.header.so pduLastByte segm = false)
    (kept : swallows segment.header.so segment.buf.length pduLastByte segm = false) :
    (segm.header.so < segment.header.so →
      segm.header.so + segm.buf.length ≤ segment.header.so) ∧
    (segment.header.so < segm.header.so →
      segment.header.so + segment.buf.length ≤ segm.header.so) := by
  simp only [overlapping, swallows, Bool.or_eq_false_iff, Bool.and_eq_false_iff, decide_eq_false_iff_not] at free kept
  simp only [u32Sub] at free
  constructor <;> intro order <;> omega

theorem Separated.insert (h : Separated segments)
    (apart : ∀ segm ∈ segments,
      (segm.header.so < segment.header.so →
        segm.header.so + segm.buf.length ≤ segment.header.so) ∧
      (segment.header.so < segm.header.so →
        segment.header.so + segment.buf.length ≤ segm.header.so)) :
    Separated (insertReceivedSegment segment segments) := by
  induction segments with
  | nil => simp [Separated, insertReceivedSegment]
  | cons segm rest ih =>
    obtain ⟨first, others⟩ := List.pairwise_cons.mp h
    obtain ⟨before, behind⟩ := apart segm mem_cons_self
    unfold insertReceivedSegment
    split
    · rename_i lower
      refine List.pairwise_cons.mpr ⟨?_, h⟩
      intro next mem
      have := behind lower
      rcases List.mem_cons.mp mem with rfl | mem
      · exact ⟨lower, this⟩
      · have := first next mem
        omega
    · rename_i notLower
      split
      · exact h
      · rename_i different
        refine List.pairwise_cons.mpr ⟨?_, ih others fun s mem => apart s (by simp [mem])⟩
        intro next mem
        rcases mem_insertReceivedSegment mem with rfl | mem
        · have : segm.header.so < next.header.so := by omega
          exact ⟨this, before this⟩
        · exact first next mem

theorem nackSegments_ok {snSize : SnSize} {sn : Nat}
    (h : Separated segments) (offsets : ∀ segm ∈ segments, segm.header.so < 65536)
    {lastSo : Nat} (behind : ∀ segm ∈ segments, lastSo ≤ segm.header.so)
    (status : StatusPdu) (lastSegmentRx : Bool) :
    ∃ status', Rx.nackSegments snSize sn status lastSo lastSegmentRx segments = .ok status' := by
  induction segments generalizing lastSo status lastSegmentRx with
  | nil =>
    unfold Rx.nackSegments
    split <;> exact ⟨_, rfl⟩
  | cons segm rest ih =>
    obtain ⟨first, others⟩ := List.pairwise_cons.mp h
    have next : ∀ s ∈ rest, segm.header.so + segm.buf.length ≤ s.header.so :=
      fun s mem => (first s mem).2
    have offsets' : ∀ s ∈ rest, s.header.so < 65536 := fun s mem => offsets s (by simp [mem])
    have bound := behind segm mem_cons_self
    have small := offsets segm mem_cons_self
    unfold Rx.nackSegments
    split
    · exact ih others offsets' next _ _
    · rename_i missing
      have order : u16 lastSo ≤ u16 (segm.header.so + 65535) := by
        unfold u16
        omega
      rw [if_pos order]
      exact ih others offsets' next _ _

end IsrRan.Rlc.AmNr
