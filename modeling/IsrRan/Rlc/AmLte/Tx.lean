import IsrRan.Rlc.AmDataStructs
import IsrRan.Rlc.AmLte.RxStatus

namespace IsrRan.Rlc.AmLte
open Adt

structure TxSdu where
  pdcpSn : Nat
  msg : List Byte
  deriving DecidableEq, Repr

abbrev TxPdu := AmdTxPdu PduHeader

structure Retx where
  sn : Nat
  isSegment : Bool := false
  soStart : Nat := 0
  soEnd : Nat
  deriving DecidableEq, Repr

inductive TimerState where
  | stopped
  | running
  | expired
  deriving DecidableEq, Repr

namespace TimerState

def stop : TimerState → TimerState
  | running => stopped
  | t => t

end TimerState

/-- `rlc_am_config_t` and the queue length. `asserts` says if the build keeps `assert`. -/
structure TxConfig where
  pollPdu : Int := 0
  pollByte : Int := 0
  maxRetxThresh : Nat := 4
  tStatusProhibit : Nat := 0
  txQueueLength : Nat := 128
  asserts : Bool := true

/-- What the sender tells PDCP and RRC. A released segment reports `invalid_pdcp_sn`, here `none`. -/
inductive TxCall where
  | maxRetxAttempted
  | notifyFailure (pdcpSns : List (Option Nat))
  | protocolFailure
  | notifyDelivery (pdcpSns : List Nat)
  deriving DecidableEq, Repr

/-- `rlc_am_lte_tx`. In the queue a discarded SDU is a null pointer. -/
structure Tx where
  cfg : TxConfig := {}
  txEnabled : Bool := true
  vtA : Nat := 0
  vtMs : Nat := windowSize
  vtS : Nat := 0
  pollSn : Nat := 0
  pduWithoutPoll : Nat := 0
  byteWithoutPoll : Nat := 0
  pollRetxTimer : TimerState := .stopped
  statusProhibitTimer : Option Nat := none
  txSdu : Option TxSdu := none
  txSduQueue : List (Option TxSdu) := []
  txWindow : CircularMap windowSize TxPdu := {}
  retxQueue : List Retx := []
  segmentPool : SegmentPool := {}
  undeliveredSdus : BufferedPdcpPduList := {}
  notifyInfoVec : List Nat := []

def maxSdusPerPdu : Nat := 128

def minDataPduSize : Nat := 3

def pollPeriodicity : Nat := 8

def maxSdusToNotify : Nat := 4096

namespace Tx

def txModBase (tx : Tx) (sn : Nat) : Nat := u32Sub sn tx.vtA % mod

def windowFull (tx : Tx) : Bool := windowSize ≤ tx.txModBase tx.vtS

def nSdus (tx : Tx) : Nat := (tx.txSduQueue.filter Option.isSome).length

def pollRequired (tx : Tx) : Bool :=
  0 < tx.cfg.pollPdu && tx.cfg.pollPdu < tx.pduWithoutPoll ||
  0 < tx.cfg.pollByte && tx.cfg.pollByte < tx.byteWithoutPoll ||
  tx.pollRetxTimer = .expired || tx.windowFull ||
  tx.txSduQueue.isEmpty && tx.retxQueue.isEmpty ||
  tx.cfg.pollPdu = 0 && tx.cfg.pollByte = 0 && tx.vtS % pollPeriodicity = 0

def resetPoll (tx : Tx) : Tx :=
  { tx with pduWithoutPoll := 0, byteWithoutPoll := 0, pollRetxTimer := .running }

/-- `push` of the ring of 512, which `full()` says to be full with 511. -/
def pushRetx (tx : Tx) (retx : Retx) : Except Fault Tx :=
  if tx.retxQueue.length < windowSize - 1 then .ok { tx with retxQueue := tx.retxQueue ++ [retx] }
  else if tx.cfg.asserts then .error .assertionFailed
  else .ok { tx with retxQueue := [] }

def removePdu (tx : Tx) (sn : Nat) : Tx :=
  match tx.txWindow.find sn with
  | none => tx
  | some pdu =>
    { tx with txWindow := tx.txWindow.erase sn, segmentPool := tx.segmentPool.releasePdu pdu.segments }

def addPdu (tx : Tx) (sn : Nat) : Tx :=
  { tx with
    txWindow := tx.txWindow.overwrite sn { header := {} }
    segmentPool :=
      match tx.txWindow.slots (sn % windowSize) with
      | some (_, old) => tx.segmentPool.releasePdu old.segments
      | none => tx.segmentPool }

def makeSegment (tx : Tx) (rlcSn pdcpSn : Nat) : Tx :=
  match tx.segmentPool.take rlcSn pdcpSn, tx.txWindow.find rlcSn with
  | some (id, segmentPool), some pdu =>
    let info := tx.undeliveredSdus.getPdu pdcpSn
    { tx with
      segmentPool
      txWindow := tx.txWindow.assign rlcSn { pdu with segments := id :: pdu.segments }
      undeliveredSdus := tx.undeliveredSdus.setPdu pdcpSn { info with list := id :: info.list } }
  | _, _ => tx

def setFullyTxed (tx : Tx) (pdcpSn : Nat) : Tx :=
  { tx with
    undeliveredSdus :=
      tx.undeliveredSdus.setPdu pdcpSn { tx.undeliveredSdus.getPdu pdcpSn with fullyTxed := true } }

def clearPdcpSdu (tx : Tx) (pdcpSn : Nat) : Tx :=
  let (undeliveredSdus, segmentPool) := tx.undeliveredSdus.clearPdcpSdu tx.segmentPool pdcpSn
  { tx with undeliveredSdus, segmentPool }

def emptyQueue (tx : Tx) : Tx :=
  match tx.txSdu with
  | none => { tx with txSduQueue := [] }
  | some sdu => { { tx with txSduQueue := [] }.clearPdcpSdu sdu.pdcpSn with txSdu := none }

def stop (tx : Tx) : Tx :=
  let tx := tx.emptyQueue
  let pool := tx.segmentPool.releasePdu (tx.txWindow.entries.flatMap fun entry => entry.2.segments)
  let (undeliveredSdus, segmentPool) := tx.undeliveredSdus.clear pool
  { cfg := tx.cfg
    txEnabled := false
    pollRetxTimer := tx.pollRetxTimer.stop
    undeliveredSdus
    segmentPool
    notifyInfoVec := tx.notifyInfoVec }

def reestablish (tx : Tx) : Tx := { tx.stop with txEnabled := true }

def writeSdu (tx : Tx) (sdu : TxSdu) : Tx :=
  if tx.txEnabled && tx.txSduQueue.length < tx.cfg.txQueueLength then
    { tx with txSduQueue := tx.txSduQueue ++ [some sdu] }
  else tx

def discardFirst (pdcpSn : Nat) : List (Option TxSdu) → List (Option TxSdu)
  | [] => []
  | none :: rest => none :: discardFirst pdcpSn rest
  | some sdu :: rest => if sdu.pdcpSn = pdcpSn then none :: rest else some sdu :: discardFirst pdcpSn rest

def discardSdu (tx : Tx) (pdcpSn : Nat) : Tx :=
  if tx.txEnabled then { tx with txSduQueue := discardFirst pdcpSn tx.txSduQueue } else tx

def checkSnReachedMaxRetx (tx : Tx) (pdu : TxPdu) : List TxCall :=
  if pdu.retxCount = tx.cfg.maxRetxThresh then
    [.maxRetxAttempted, .notifyFailure (pdu.segments.map fun id => (tx.segmentPool.segments id).pdcpSn)]
  else []

def countRetx (tx : Tx) (sn : Nat) (pdu : TxPdu) : Tx × TxPdu × List TxCall :=
  let pdu := { pdu with retxCount := pdu.retxCount + 1 }
  ({ tx with txWindow := tx.txWindow.assign sn pdu }, pdu, tx.checkSnReachedMaxRetx pdu)

def retransmitPdu (tx : Tx) (sn : Nat) : Except Fault (Tx × List TxCall) :=
  if tx.txWindow.isEmpty then .ok (tx, [])
  else
    match tx.txWindow.find sn with
    | none => .ok (tx, [])
    | some pdu =>
      let (tx, pdu, calls) := tx.countRetx sn pdu
      match pdu.buf with
      | none => .error .undefinedBehaviour
      | some buf => do
        let tx ← tx.pushRetx { sn, soEnd := buf.length }
        .ok (tx, calls)

def countLis (soStart soEnd : Nat) : Nat → List Nat → Nat
  | _, [] => 0
  | lower, li :: rest =>
    if soEnd ≤ lower then 0
    else
      (if soStart < lower + li && lower < soEnd then 1 else 0) + countLis soStart soEnd (lower + li) rest

def requiredBufferSize (tx : Tx) (retx : Retx) : Except Fault Int :=
  match tx.txWindow.find retx.sn with
  | none => if retx.isSegment then .error .assertionFailed else .ok (-1)
  | some pdu =>
    if retx.isSegment then
      let nLi := countLis retx.soStart retx.soEnd 0 pdu.header.li
      .ok (i32 ((4 + (3 * nLi + 1) / 2 + u32Sub retx.soEnd retx.soStart) % 4294967296))
    else
      match pdu.buf with
      | none => .ok (-1)
      | some buf => .ok (packedLength pdu.header + buf.length)

structure SegmentBuild where
  soEnd : Nat
  fi : Nat
  li : List Nat := []
  lower : Nat := 0

def segmentHeaderLength (nLi : Nat) : Nat := packedLength { rf := true, li := List.replicate nLi 0 }

namespace SegmentBuild

def shrink (b : SegmentBuild) (soStart pduSpace : Nat) : SegmentBuild :=
  if pduSpace < u32Sub b.soEnd soStart then { b with soEnd := soStart + pduSpace } else b

def liOf (b : SegmentBuild) (soStart upper : Nat) : Nat :=
  u16 (u32Sub (u32Sub (upper - b.lower) (upper - b.soEnd)) (soStart - b.lower))

def addLi (b : SegmentBuild) (soStart nofBytes upper : Nat) : SegmentBuild :=
  let li := b.liOf soStart upper
  let fi := if 0 < b.lower && b.lower = soStart then b.fi &&& 1 else b.fi
  let fi := if upper = b.soEnd then fi &&& 2 else fi
  if upper < b.soEnd then
    if segmentHeaderLength (b.li.length + 1) + u32Sub b.soEnd soStart ≤ nofBytes then
      { b with fi, li := b.li ++ [li] }
    else { b with fi := fi &&& 2, soEnd := soStart + (b.li.sum + li) }
  else { b with fi }

def addLis (b : SegmentBuild) (soStart nofBytes : Nat) : List Nat → SegmentBuild
  | [] => b
  | li :: rest =>
    if b.soEnd ≤ b.lower then b
    else
      let upper := b.lower + li
      let b := b.shrink soStart (u32Sub nofBytes (segmentHeaderLength b.li.length))
      let b := if soStart < upper && b.lower < b.soEnd then b.addLi soStart nofBytes upper else b
      { b with lower := upper }.addLis soStart nofBytes rest

end SegmentBuild

def segmentHeadLen (header : PduHeader) : Nat := segmentHeaderLength 0 + if header.li.isEmpty then 0 else 2

def segmentOf (header : PduHeader) (soStart soEnd nofBytes : Nat) : SegmentBuild :=
  let built := SegmentBuild.shrink { soEnd, fi := 3 } soStart (nofBytes - segmentHeadLen header)
  let fi := if soStart = 0 && startAligned header.fi then built.fi &&& 1 else built.fi
  { built with fi }.addLis soStart nofBytes header.li

def advanceRetx (lsf : Bool) (soEnd : Nat) : List Retx → List Retx
  | [] => []
  | front :: rest =>
    if lsf || front.soEnd = soEnd then rest else { front with isSegment := true, soStart := soEnd } :: rest

/-- `len` bytes of a buffer; behind `N_bytes` stands what was there before, read here as 0. -/
def copyFrom (buf : List Byte) (start len : Nat) : Except Fault (List Byte) :=
  if bufferTailroom < start + len then .error .undefinedBehaviour
  else .ok ((List.range len).map fun i => buf.getD (start + i) 0)

def retxRange (retx : Retx) (nBytes : Nat) : Nat × Nat :=
  if retx.isSegment then (retx.soStart, retx.soEnd) else (0, nBytes)

def buildSegment (tx : Tx) (nofBytes : Nat) (retx : Retx) : Except Fault (Tx × List Byte) :=
  match tx.txWindow.find retx.sn with
  | none => .error .assertionFailed
  | some pdu =>
    match pdu.buf with
    | none => .ok (tx, [])
    | some buf =>
      let (soStart, soEnd) := retxRange retx buf.length
      let tx := { tx with
        pduWithoutPoll := tx.pduWithoutPoll + 1
        byteWithoutPoll := tx.byteWithoutPoll + buf.length + packedLength {} }
      if nofBytes ≤ segmentHeadLen pdu.header then .ok (tx, [])
      else do
        let built := segmentOf pdu.header soStart soEnd nofBytes
        let lsf := buf.length = built.soEnd
        let tx := { tx with retxQueue := advanceRetx lsf built.soEnd tx.retxQueue }
        let p := tx.pollRequired
        let tx := if p then tx.resetPoll else tx
        let fi := if lsf && endAligned pdu.header.fi then built.fi &&& 2 else built.fi
        let header : PduHeader :=
          { dc := .dataPdu, rf := true, p, fi, sn := pdu.header.sn, lsf, so := u16 soStart, li := built.li }
        let data ← copyFrom buf soStart (u32Sub built.soEnd soStart)
        .ok (tx, writeDataPduHeader header ++ data)

def buildRetxPduFor (tx : Tx) (nofBytes : Nat) (retx : Retx) : Except Fault (Tx × List Byte) := do
  let reqSize ← tx.requiredBufferSize retx
  if reqSize < 0 then .ok ({ tx with retxQueue := tx.retxQueue.tail }, [])
  else if retx.isSegment || nofBytes < reqSize then tx.buildSegment nofBytes retx
  else
    match tx.txWindow.find retx.sn with
    | none => .error .assertionFailed
    | some pdu =>
      let buf := pdu.buf.getD []
      let header := { pdu.header with p := false }
      let tx := { tx with
        pduWithoutPoll := tx.pduWithoutPoll + 1
        byteWithoutPoll := tx.byteWithoutPoll + buf.length + packedLength header }
      let p := tx.pollRequired
      let tx := if p then tx.resetPoll else tx
      .ok ({ tx with retxQueue := tx.retxQueue.tail }, writeDataPduHeader { header with p } ++ buf)

/-- `build_retx_pdu` with entries in the queue. Those whose PDU is gone are dropped; behind the last of them
the PDU at `vt_a` is sent again. -/
def buildRetxPdu (tx : Tx) (nofBytes : Nat) : Except Fault (Tx × List Byte × List TxCall) :=
  let tx := { tx with retxQueue := tx.retxQueue.dropWhile fun retx => !tx.txWindow.contains retx.sn }
  match tx.retxQueue with
  | retx :: _ => do
    let (tx, pdu) ← tx.buildRetxPduFor nofBytes retx
    .ok (tx, pdu, [])
  | [] =>
    if tx.txWindow.contains tx.vtA then do
      let (tx, calls) ← tx.retransmitPdu tx.vtA
      match tx.retxQueue with
      | [] => .error .assertionFailed
      | retx :: _ =>
        let (tx, pdu) ← tx.buildRetxPduFor nofBytes retx
        .ok (tx, pdu, calls)
    else .ok (tx, [], [])

def readSdu : List (Option TxSdu) → Option TxSdu × List (Option TxSdu)
  | [] => (none, [])
  | none :: rest => readSdu rest
  | some sdu :: rest => (some sdu, rest)

def storeSduInfo (tx : Tx) (pdcpSn : Nat) : Tx :=
  if tx.undeliveredSdus.hasPdcpSn pdcpSn then tx
  else
    let (undeliveredSdus, segmentPool) := tx.undeliveredSdus.addPdcpSdu tx.segmentPool pdcpSn
    { tx with undeliveredSdus, segmentPool }

structure DataBuild where
  tx : Tx
  header : PduHeader
  headLen : Nat
  lastLi : Nat := 0
  pduSpace : Nat
  pdu : List Byte := []

namespace DataBuild

def addSdu (b : DataBuild) (sdu : TxSdu) : Except Fault DataBuild :=
  let toMove := min sdu.msg.length (b.pduSpace - b.headLen)
  if bufferTailroom < b.pdu.length + toMove then .error .undefinedBehaviour
  else
    let rest := sdu.msg.drop toMove
    let tx :=
      if b.tx.undeliveredSdus.hasPdcpSn sdu.pdcpSn then
        let tx := b.tx.makeSegment b.header.sn sdu.pdcpSn
        if rest.isEmpty then tx.setFullyTxed sdu.pdcpSn else tx
      else b.tx
    .ok { b with
      tx := { tx with txSdu := if rest.isEmpty then none else some { sdu with msg := rest } }
      lastLi := toMove
      pdu := b.pdu ++ sdu.msg.take toMove }

def continueSdu (b : DataBuild) : Except Fault DataBuild :=
  match b.tx.txSdu with
  | none => .ok b
  | some sdu => do
    let b ← b.addSdu sdu
    .ok { b with
      pduSpace :=
        if b.lastLi < b.pduSpace then b.pduSpace - min b.lastLi (bufferTailroom - b.pdu.length) else 0
      header := { b.header with fi := b.header.fi ||| 2 } }

def pushLi (b : DataBuild) : DataBuild :=
  let header := { b.header with li := if 0 < b.lastLi then b.header.li ++ [u16 b.lastLi] else b.header.li }
  { b with header, headLen := packedLength header }

def dropLi (b : DataBuild) : DataBuild := { b with header := { b.header with li := b.header.li.dropLast } }

/-- The loop over the queue, with `fuel` for its length. Without segments for the first SDU the PDU is given
up. -/
def pullSdus (b : DataBuild) : Nat → Except Fault (Tx ⊕ DataBuild)
  | 0 => .ok (.inr b)
  | fuel + 1 =>
    if b.headLen < b.pduSpace && 0 < b.tx.nSdus && b.header.li.length < maxSdusPerPdu then
      if !b.tx.segmentPool.hasSegments then
        .ok (if b.pdu.isEmpty then .inl (b.tx.removePdu b.header.sn) else .inr b)
      else
        let b := b.pushLi
        if b.pduSpace ≤ b.headLen then .ok (.inr b.dropLi)
        else
          match readSdu b.tx.txSduQueue with
          | (none, rest) => .ok (.inr { b with tx := { b.tx with txSduQueue := rest } }.dropLi)
          | (some sdu, rest) => do
            let tx := { b.tx with txSduQueue := rest }.storeSduInfo sdu.pdcpSn
            let b ← { b with tx }.addSdu sdu
            { b with pduSpace := b.pduSpace - b.lastLi }.pullSdus fuel
    else .ok (.inr b)

end DataBuild

def finishDataPdu (b : DataBuild) : Tx × List Byte :=
  let fi := if b.tx.txSdu.isSome then b.header.fi ||| 1 else b.header.fi
  let tx : Tx := { b.tx with
    pduWithoutPoll := b.tx.pduWithoutPoll + 1
    byteWithoutPoll := b.tx.byteWithoutPoll + b.pdu.length + b.headLen }
  let p := tx.pollRequired
  let tx := if p then { tx.resetPoll with pollSn := tx.vtS } else tx
  let header := { b.header with p, fi }
  let txWindow :=
    match tx.txWindow.find header.sn with
    | some pdu => tx.txWindow.assign header.sn { pdu with header, buf := some b.pdu }
    | none => tx.txWindow
  ({ tx with vtS := (tx.vtS + 1) % mod, txWindow }, writeDataPduHeader header ++ b.pdu)

def buildDataPdu (tx : Tx) (nofBytes : Nat) : Except Fault (Tx × List Byte) :=
  if tx.txSdu.isNone && tx.txSduQueue.isEmpty || tx.windowFull || nofBytes < minDataPduSize ||
      !tx.segmentPool.hasSegments then .ok (tx, [])
  else do
    let header : PduHeader := { dc := .dataPdu, sn := tx.vtS }
    let b : DataBuild :=
      { tx := tx.addPdu tx.vtS, header, headLen := packedLength header, pduSpace := min nofBytes bufferTailroom }
    let b ← b.continueSdu
    match ← b.pullSdus b.tx.txSduQueue.length with
    | .inl tx => .ok (tx, [])
    | .inr b => .ok (finishDataPdu b)

structure Read where
  tx : Tx
  rx : Rx
  pdu : List Byte
  calls : List TxCall := []

/-- With a full window and nothing to send again, the PDU at `vt_a` is sent again. -/
def fillRetxQueue (tx : Tx) : Except Fault (Tx × List TxCall) :=
  if tx.windowFull && tx.retxQueue.isEmpty then tx.retransmitPdu tx.vtA else .ok (tx, [])

def readRetx (tx : Tx) (nofBytes : Nat) : Except Fault (Tx × List Byte × List TxCall) :=
  if tx.retxQueue.isEmpty then .ok (tx, [], []) else tx.buildRetxPdu nofBytes

def readPdu (tx : Tx) (rx : Rx) (ownsLock : Bool) (nofBytes : Nat) : Except Fault Read :=
  if !tx.txEnabled then .ok ⟨tx, rx, [], []⟩
  else if rx.doStatus && tx.statusProhibitTimer.isNone then
    let built := rx.buildStatusPdu tx.cfg.tStatusProhibit tx.statusProhibitTimer ownsLock nofBytes
    .ok ⟨{ tx with statusProhibitTimer := built.statusProhibitTimer }, built.rx, built.payload, []⟩
  else do
    let (tx, calls) ← tx.fillRetxQueue
    let (tx, pdu, retxCalls) ← tx.readRetx nofBytes
    if !pdu.isEmpty then .ok ⟨tx, rx, pdu, calls ++ retxCalls⟩
    else do
      let (tx, pdu) ← tx.buildDataPdu nofBytes
      .ok ⟨tx, rx, pdu, calls ++ retxCalls⟩

def pollRetxTimerExpired (tx : Tx) : Except Fault (Tx × List TxCall) :=
  let tx := { tx with pollRetxTimer := .expired }
  if tx.retxQueue.isEmpty && tx.txSduQueue.isEmpty || tx.windowFull then tx.retransmitPdu tx.vtA
  else .ok (tx, [])

def getBufferState (tx : Tx) : Except Fault Tx :=
  match tx.retxQueue with
  | retx :: rest =>
    if tx.txEnabled && tx.txWindow.contains retx.sn then do
      let reqBytes ← tx.requiredBufferSize retx
      .ok (if reqBytes < 0 then { tx with retxQueue := rest } else tx)
    else .ok tx
  | [] => .ok tx

def retxOf (nack : Nack) (sn nBytes : Nat) : Retx :=
  if nack.hasSo then
    let soStart := if nBytes ≤ nack.soStart then 0 else nack.soStart
    let special := nack.soEnd = 0x7FFF
    let valid := soStart < nBytes && (special || nack.soEnd ≤ nBytes)
    { sn
      isSegment := valid
      soStart := if valid then soStart else 0
      soEnd := if special then nBytes else nack.soEnd + 1 }
  else { sn, soEnd := nBytes }

def handleNack (tx : Tx) (sn : Nat) (nack : Nack) : Except Fault (Tx × List TxCall) :=
  match tx.txWindow.find sn with
  | none => .ok (tx, [])
  | some pdu =>
    if tx.retxQueue.any fun retx => retx.sn = sn then .ok (tx, [])
    else
      let (tx, pdu, calls) := tx.countRetx sn pdu
      match pdu.buf with
      | none => .error .undefinedBehaviour
      | some buf => do
        let tx ← tx.pushRetx (retxOf nack sn buf.length)
        .ok (tx, calls)

def handleNacks (tx : Tx) (sn : Nat) (calls : List TxCall) : List Nack → Except Fault (Tx × List TxCall)
  | [] => .ok (tx, calls)
  | nack :: rest =>
    if nack.nackSn = sn then do
      let (tx, more) ← tx.handleNack sn nack
      tx.handleNacks sn (calls ++ more) rest
    else tx.handleNacks sn calls rest

def ackSegment (tx : Tx) (id : Nat) : Tx :=
  match (tx.segmentPool.segments id).pdcpSn with
  | none => tx
  | some pdcpSn =>
    let (undeliveredSdus, segmentPool) := tx.undeliveredSdus.ackSegment tx.segmentPool pdcpSn id
    let tx := { tx with undeliveredSdus, segmentPool }
    if (undeliveredSdus.getPdu pdcpSn).fullyAcked then
      { tx with
        notifyInfoVec :=
          if tx.notifyInfoVec.length < maxSdusToNotify then tx.notifyInfoVec ++ [pdcpSn]
          else tx.notifyInfoVec }.clearPdcpSdu pdcpSn
    else tx

def updateNotificationAckInfo (tx : Tx) (pdu : TxPdu) : Tx := pdu.segments.foldl ackSegment tx

def handleAck (tx : Tx) (sn : Nat) (updateVtA : Bool) : Tx :=
  let tx :=
    match tx.txWindow.find sn with
    | some pdu => (tx.updateNotificationAckInfo pdu).removePdu sn
    | none => tx
  if updateVtA then { tx with vtA := (tx.vtA + 1) % mod, vtMs := (tx.vtMs + 1) % mod } else tx

def ackLoop (status : StatusPdu) (vtSLocal : Nat) :
    Nat → Nat → Bool → Tx → List TxCall → Except Fault (Tx × List TxCall)
  | 0, _, _, tx, calls => .ok (tx, calls)
  | fuel + 1, i, updateVtA, tx, calls =>
    if tx.txModBase i < tx.txModBase status.ackSn && tx.txModBase i < tx.txModBase vtSLocal then
      if status.nacks.any fun nack => nack.nackSn = i then do
        let (tx, calls) ← tx.handleNacks i calls status.nacks
        ackLoop status vtSLocal fuel ((i + 1) % mod) false tx calls
      else ackLoop status vtSLocal fuel ((i + 1) % mod) updateVtA (tx.handleAck i updateVtA) calls
    else .ok (tx, calls)

def validAckSn (tx : Tx) (ackSn : Nat) : Bool :=
  u32Sub (mod + ackSn) tx.vtA % mod ≤ windowSize && u32Sub (mod + tx.vtS) ackSn % mod ≤ windowSize

def handleStatus (tx : Tx) (status : StatusPdu) : Except Fault (Tx × List TxCall) :=
  if !tx.validAckSn status.ackSn then .ok (tx, [])
  else do
    let pollRetxTimer :=
      if tx.txModBase tx.pollSn < tx.txModBase status.ackSn then tx.pollRetxTimer.stop else tx.pollRetxTimer
    let retxQueue := if status.nacks.isEmpty then tx.retxQueue else []
    let (tx, calls) ← ackLoop status tx.vtS mod tx.vtA true { tx with pollRetxTimer, retxQueue } []
    let failure := if !tx.txWindow.isEmpty && !tx.txWindow.contains tx.vtA then [.protocolFailure] else []
    let delivery := if tx.notifyInfoVec.isEmpty then [] else [.notifyDelivery tx.notifyInfoVec]
    .ok ({ tx with notifyInfoVec := [] }, calls ++ failure ++ delivery)

def handleControlPdu (tx : Tx) (payload : Memory) (nofBytes : Nat) (stale : Memory) :
    Except Fault (Tx × List TxCall) :=
  if !tx.txEnabled then .ok (tx, [])
  else do
    let status ← readStatusPdu payload nofBytes stale
    tx.handleStatus status

end Tx

inductive TxEvent where
  | writeSdu (sdu : TxSdu)
  | discardSdu (pdcpSn : Nat)
  | readPdu (rx : Rx) (ownsLock : Bool) (nofBytes : UInt32)
  | pollRetxTimerExpired
  | statusProhibitTimerExpired
  | handleControlPdu (payload : Memory) (nofBytes : Nat) (stale : Memory)
  | getBufferState
  | emptyQueue
  | reestablish
  | stop

namespace Tx

structure Outcome where
  tx : Tx
  pdu : List Byte := []
  calls : List TxCall := []

def step (tx : Tx) : TxEvent → Option (Except Fault Outcome)
  | .writeSdu sdu => some (.ok { tx := tx.writeSdu sdu })
  | .discardSdu pdcpSn => some (.ok { tx := tx.discardSdu pdcpSn })
  | .readPdu rx ownsLock nofBytes =>
    some ((tx.readPdu rx ownsLock nofBytes.toNat).map fun read =>
      { tx := read.tx, pdu := read.pdu, calls := read.calls })
  | .pollRetxTimerExpired =>
    if tx.pollRetxTimer = .running then
      some (tx.pollRetxTimerExpired.map fun out => { tx := out.1, calls := out.2 })
    else none
  | .statusProhibitTimerExpired =>
    if tx.statusProhibitTimer.isSome then some (.ok { tx := { tx with statusProhibitTimer := none } }) else none
  | .handleControlPdu payload nofBytes stale =>
    some ((tx.handleControlPdu payload nofBytes stale).map fun out => { tx := out.1, calls := out.2 })
  | .getBufferState => some (tx.getBufferState.map fun tx => { tx })
  | .emptyQueue => some (.ok { tx := tx.emptyQueue })
  | .reestablish => some (.ok { tx := tx.reestablish })
  | .stop => some (.ok { tx := tx.stop })

def next (tx : Tx) (e : TxEvent) : Option Tx := (tx.step e).bind fun out => out.toOption.map Outcome.tx

end Tx

end IsrRan.Rlc.AmLte
