import IsrRan.Lib.OrderedMap
import IsrRan.Lib.Transition
import IsrRan.Rlc.UmNr.Tx

namespace IsrRan.Rlc.UmNr
open Lib

structure UmdPdu where
  header : PduHeader
  buf : ByteBuffer
  deriving DecidableEq, Repr

structure UmdPduSegments where
  segments : OrderedMap UmdPdu := []
  sdu : Option ByteBuffer := none
  nextExpectedSo : Nat := 0
  totalSduLength : Nat := 0
  deriving DecidableEq, Repr

structure Rx where
  snSize : SnSize
  rxNextReassembly : Nat := 0
  rxTimerTrigger : Nat := 0
  rxNextHighest : Nat := 0
  rxWindow : OrderedMap UmdPduSegments := []
  reassemblyTimerRunning : Bool := false
  deriving DecidableEq, Repr

def UmdPduSegments.updateTotalSduLength (pdu : UmdPduSegments) (rxPdu : UmdPdu) : UmdPduSegments :=
  if rxPdu.header.si = .lastSegment then
    { pdu with totalSduLength := (rxPdu.header.so + rxPdu.buf.nBytes) % 4294967296 }
  else pdu

namespace Rx

def mod (rx : Rx) : Nat := rx.snSize.mod

def umWindowSize (rx : Rx) : Nat := rx.snSize.umWindowSize

def modBase (rx : Rx) (x : Nat) : Nat :=
  u32Sub (u32Sub x rx.rxNextHighest) rx.umWindowSize % rx.mod

def snInReassemblyWindow (rx : Rx) (sn : Nat) : Bool :=
  rx.modBase (u32Sub rx.rxNextHighest rx.umWindowSize) ≤ rx.modBase sn &&
    rx.modBase sn < rx.modBase rx.rxNextHighest

def snInvalidForRxBuffer (rx : Rx) (sn : Nat) : Bool :=
  rx.modBase (u32Sub rx.rxNextHighest rx.umWindowSize) ≤ rx.modBase sn &&
    rx.modBase sn < rx.modBase rx.rxNextReassembly

def hasMissingByteSegment (rx : Rx) (sn : Nat) : Bool := rx.rxWindow.contains sn

/-- `N_bytes` wraps around when the PDU ends before its header does; no loop reads the bytes of such a buffer. -/
def stripPduHeader (header : PduHeader) (payload : List Byte) : ByteBuffer :=
  ⟨bufferHeaderOffset + packedLength header,
    if packedLength header ≤ payload.length then payload.drop (packedLength header)
    else List.replicate (u32Sub payload.length (packedLength header)) 0⟩

/-- The loop over the stored segments: the entry it leaves behind, in which `segments` are the
skipped ones, and whether the SDU is complete. -/
def assemble (pdu : UmdPduSegments) : OrderedMap UmdPdu → Option (Bool × UmdPduSegments)
  | [] => some (false, pdu)
  | (so, rxPdu) :: rest =>
    if rxPdu.header.so = pdu.nextExpectedSo then
      if pdu.nextExpectedSo = 0 then
        match pdu.sdu with
        | none =>
          assemble { pdu with sdu := some rxPdu.buf, nextExpectedSo := rxPdu.buf.nBytes } rest
        -- the iterator stays where it is and the loop never ends
        | some _ => none
      else
        match pdu.sdu with
        | none => none
        | some sdu =>
          -- the error path reads the tailroom of the null pointer `rx_sdu`
          if sdu.getTailroom < rxPdu.buf.nBytes then none
          else
            let pdu := { pdu with
              sdu := some { sdu with msg := sdu.msg ++ rxPdu.buf.msg }
              nextExpectedSo := pdu.nextExpectedSo + rxPdu.buf.nBytes }
            if pdu.nextExpectedSo = pdu.totalSduLength then
              some (true, { pdu with segments := pdu.segments ++ rest })
            else assemble pdu rest
    else assemble { pdu with segments := pdu.segments ++ [(so, rxPdu)] } rest

def dropOutsideWindow (rx : Rx) : Rx :=
  { rx with rxWindow := rx.rxWindow.filter (fun entry => rx.snInReassemblyWindow entry.1) }

def advanceNextReassembly (rx : Rx) (sn : Nat) : Rx :=
  if sn = rx.rxNextReassembly then
    if rx.rxWindow.isEmpty then { rx with rxNextReassembly := rx.rxNextHighest }
    else
      match rx.rxWindow.find? (fun entry => rx.modBase rx.rxNextReassembly < rx.modBase entry.1) with
      | some entry => { rx with rxNextReassembly := entry.1 }
      | none => rx
  else rx

def moveNextReassembly (rx : Rx) : Rx :=
  if rx.snInReassemblyWindow rx.rxNextReassembly then rx
  else
    match rx.rxWindow.find?
        (fun entry => rx.modBase (u32Sub rx.rxNextHighest rx.umWindowSize) ≤ entry.1) with
    | some entry => { rx with rxNextReassembly := entry.1 }
    | none => rx

def moveWindow (rx : Rx) (sn : Nat) : Rx :=
  if rx.snInReassemblyWindow sn then rx
  else
    ({ rx with rxNextHighest := (sn + 1) % rx.mod } : Rx).dropOutsideWindow.moveNextReassembly

def stopReassemblyTimer (rx : Rx) : Rx :=
  if rx.reassemblyTimerRunning &&
      (rx.rxTimerTrigger ≤ rx.rxNextReassembly ||
        !rx.snInReassemblyWindow rx.rxTimerTrigger && rx.rxTimerTrigger ≠ rx.rxNextHighest ||
        rx.rxNextHighest = rx.rxNextReassembly + 1 && !rx.hasMissingByteSegment rx.rxNextReassembly)
  then { rx with reassemblyTimerRunning := false }
  else rx

def startReassemblyTimer (rx : Rx) : Rx :=
  if !rx.reassemblyTimerRunning &&
      (rx.modBase rx.rxNextHighest > rx.modBase (rx.rxNextReassembly + 1) ||
        rx.modBase rx.rxNextHighest = rx.modBase (rx.rxNextReassembly + 1) &&
          rx.hasMissingByteSegment rx.rxNextReassembly)
  then { rx with reassemblyTimerRunning := true, rxTimerTrigger := rx.rxNextHighest }
  else rx

def handleRxBufferUpdate (rx : Rx) (sn : Nat) : Option (Rx × List Sdu) :=
  match rx.rxWindow.find sn with
  | none => some (rx, [])
  | some pdu =>
    match assemble { pdu with segments := [] } pdu.segments with
    | none => none
    | some (true, pdu) =>
      let rx := ({ rx with rxWindow := rx.rxWindow.erase sn } : Rx).advanceNextReassembly sn
      some (rx.stopReassemblyTimer.startReassemblyTimer,
        (pdu.sdu.map ByteBuffer.msg).toList)
    | some (false, pdu) =>
      let rx := ({ rx with rxWindow := rx.rxWindow.insertOrAssign sn pdu } : Rx).moveWindow sn
      some (rx.stopReassemblyTimer.startReassemblyTimer, [])

def place (rx : Rx) (rxPdu : UmdPdu) : Rx :=
  let entry := ((rx.rxWindow.find rxPdu.header.sn).getD {}).updateTotalSduLength rxPdu
  let entry := { entry with segments := entry.segments.emplace rxPdu.header.so rxPdu }
  { rx with rxWindow := rx.rxWindow.insertOrAssign rxPdu.header.sn entry }

/-- The header of a PDU that is shorter is read from what lies `behind` it. -/
def handleDataPdu (rx : Rx) (payload : List Byte) (behind : List Byte := []) : Option (Rx × List Sdu) :=
  let header := (readDataPduHeader (payload ++ behind) rx.snSize).2
  if header.si = .fullSdu then some (rx, [(stripPduHeader header payload).msg])
  else if rx.snInvalidForRxBuffer header.sn then some (rx, [])
  else (rx.place ⟨header, stripPduHeader header payload⟩).handleRxBufferUpdate header.sn

/-- The loop of `timer_expired` that takes `RX_Next_Reassembly` up to `RX_Next_Highest`; it takes
fewer than `mod` turns. -/
def catchUpReassembly (rx : Rx) : Nat → Rx
  | 0 => rx
  | fuel + 1 =>
    if rx.modBase rx.rxNextReassembly < rx.modBase rx.rxNextHighest then
      catchUpReassembly { rx with rxNextReassembly := (rx.rxNextReassembly + 1) % rx.mod } fuel
    else rx

def discardBeforeReassembly (rx : Rx) : Rx :=
  { rx with rxWindow :=
      rx.rxWindow.filter (fun entry => !(rx.modBase entry.1 < rx.modBase rx.rxNextReassembly)) }

def timerExpired (rx : Rx) : Option Rx :=
  if rx.reassemblyTimerRunning then
    let rx := { rx with reassemblyTimerRunning := false, rxNextReassembly := rx.rxTimerTrigger }
    some (rx.catchUpReassembly rx.mod).discardBeforeReassembly.startReassemblyTimer
  else none

end Rx

structure SentPdu where
  bytes : List Byte
  absSn : Nat
  deriving DecidableEq, Repr

/-- A transmitter, its peer receiver and the channel between them. `held` gives for each SN the
`absSn` of the last segment that reached the receiver under it. -/
structure System where
  tx : Tx
  rx : Rx
  absSn : Nat := 0
  written : List Sdu := []
  sent : List SentPdu := []
  held : Nat → Nat := fun _ => 0
  delivered : List Sdu := []

inductive Event where
  | writeSdu (sdu : Sdu)
  | readPdu (nofBytes : Nat)
  | receive (i : Nat)
  | timerExpired

namespace System

def init (snSize : SnSize) (txQueueLength : Nat) : System where
  tx := { snSize, txQueueLength }
  rx := { snSize }

def header (s : System) (pdu : SentPdu) : PduHeader := (readDataPduHeader pdu.bytes s.rx.snSize).2

def readPdu (s : System) (nofBytes : Nat) : System :=
  let built := s.tx.buildDataPdu nofBytes
  { s with
    tx := built.1
    absSn := if built.1.txNext = s.tx.txNext then s.absSn else s.absSn + 1
    sent := if built.2 = [] then s.sent else s.sent ++ [⟨built.2, s.absSn⟩] }

def receive (s : System) (pdu : SentPdu) : Option System :=
  (s.rx.handleDataPdu pdu.bytes).map fun received =>
    { s with
      rx := received.1
      held := if (s.header pdu).si = .fullSdu then s.held
        else Function.update s.held (s.header pdu).sn pdu.absSn
      delivered := s.delivered ++ received.2 }

/-- `receive i` hands over the `i`-th PDU that was ever sent, whether or not it arrived before. -/
def step (s : System) : Event → Option System
  | .writeSdu sdu => some { s with tx := s.tx.writeSdu sdu, written := s.written ++ [sdu] }
  | .readPdu nofBytes => some (s.readPdu nofBytes)
  | .receive i => s.sent[i]?.bind s.receive
  | .timerExpired => s.rx.timerExpired.map fun rx => { s with rx }

def SduFits : Event → Prop
  | .writeSdu sdu => 0 < sdu.length ∧ sdu.length ≤ maxBufferSizeBytes
  | _ => True

def SameSn (s : System) (pdu other : SentPdu) : Prop :=
  (s.header pdu).si ≠ .fullSdu ∧ (s.header other).si ≠ .fullSdu ∧ (s.header pdu).sn = (s.header other).sn

/-- No segment arrives when its SN has been given to a later SDU. -/
def SnNotReused (s : System) : Event → Prop
  | .receive i => ∀ pdu ∈ s.sent[i]?, ∀ later ∈ s.sent, s.SameSn pdu later → later.absSn ≤ pdu.absSn
  | _ => True

/-- No segment arrives while segments of another SDU wait under its SN. -/
def NoneStale (s : System) : Event → Prop
  | .receive i => ∀ pdu ∈ s.sent[i]?, (s.header pdu).si ≠ .fullSdu →
      s.rx.rxWindow.contains (s.header pdu).sn = true → s.held (s.header pdu).sn = pdu.absSn
  | _ => True

def GrantFits (s : System) : Event → Prop
  | .readPdu nofBytes => s.tx.GrantFits nofBytes
  | _ => True

instance : DecidablePred SduFits
  | .writeSdu _ => inferInstanceAs (Decidable (_ ∧ _))
  | .readPdu _ | .receive _ | .timerExpired => .isTrue trivial

instance (s : System) (pdu other : SentPdu) : Decidable (s.SameSn pdu other) :=
  inferInstanceAs (Decidable (_ ∧ _ ∧ _))

instance (s : System) : DecidablePred s.SnNotReused
  | .receive i => inferInstanceAs (Decidable (∀ pdu ∈ s.sent[i]?, ∀ later ∈ s.sent, _ → _))
  | .writeSdu _ | .readPdu _ | .timerExpired => .isTrue trivial

instance (s : System) : DecidablePred s.NoneStale
  | .receive i => inferInstanceAs (Decidable (∀ pdu ∈ s.sent[i]?, _))
  | .writeSdu _ | .readPdu _ | .timerExpired => .isTrue trivial

instance (s : System) : DecidablePred s.GrantFits
  | .readPdu nofBytes => inferInstanceAs (Decidable (s.tx.GrantFits nofBytes))
  | .writeSdu _ | .receive _ | .timerExpired => .isTrue trivial

def Conforming (s : System) (e : Event) : Prop := SduFits e ∧ s.SnNotReused e

def KeepsSdus (s : System) (e : Event) : Prop := s.GrantFits e ∧ s.NoneStale e

instance (s : System) : DecidablePred s.Conforming := fun _ => inferInstanceAs (Decidable (_ ∧ _))

instance (s : System) : DecidablePred s.KeepsSdus := fun _ => inferInstanceAs (Decidable (_ ∧ _))

end System

end IsrRan.Rlc.UmNr
