import IsrRan.Adt.CircularMap
import IsrRan.Lib.Transition
import IsrRan.Upper.GtpuHeader
import IsrRan.Lib.Lists

namespace IsrRan.Upper
open Adt
open Function (update update_of_ne update_self)

abbrev Pdu := List Byte

inductive TunnelState where
  | pdcpActive
  | buffering
  | forwardTo
  | forwardedFrom
  | inactive
  deriving DecidableEq, Repr

inductive OnRemoval where
  | nothing
  | activate (afterTeid : Nat)
  | remove (txTeid : Nat)
  deriving DecidableEq, Repr

/-- A pointer to a tunnel is its slot in the pool. An SN of `none` is `undefined_pdcp_sn`. -/
structure Tunnel where
  rnti : Nat
  epsBearerId : Nat
  teidIn : Nat
  teidOut : Nat
  spgwAddr : Nat
  state : TunnelState := .pdcpActive
  rxTimer : Bool := false
  buffer : Option (List (Option Nat × Pdu)) := none
  fwdTunnel : Option Nat := none
  onRemoval : OnRemoval := .nothing
  deriving DecidableEq, Repr

abbrev BearerTeid := Nat × Nat

def BearerTeid.Lt (p q : BearerTeid) : Prop := p.1 < q.1 ∨ p.1 = q.1 ∧ p.2 < q.2

def BearerTeid.Le (p q : BearerTeid) : Prop := p.1 < q.1 ∨ p.1 = q.1 ∧ p.2 ≤ q.2

instance (p q : BearerTeid) : Decidable (BearerTeid.Lt p q) := inferInstanceAs (Decidable (_ ∨ _))

instance (p q : BearerTeid) : Decidable (BearerTeid.Le p q) := inferInstanceAs (Decidable (_ ∨ _))

def lowerBound (l : List BearerTeid) (x : BearerTeid) : List BearerTeid :=
  l.dropWhile fun p => decide (BearerTeid.Lt p x)

structure WriteSdu where
  rnti : Nat
  epsBearerId : Nat
  sdu : Pdu
  pdcpSn : Int
  deriving DecidableEq, Repr

def WriteSdu.ofRx (rnti epsBearerId : Nat) (sduPair : Option Nat × Pdu) : WriteSdu where
  rnti := rnti
  epsBearerId := epsBearerId
  sdu := sduPair.2
  pdcpSn := match sduPair.1 with | none => -1 | some sn => sn

def maxTunnels : Nat := 640
def maxTunnelsPerUe : Nat := 10
def bufferSize : Nat := 512

structure Gtpu where
  tunnels : CircularMap maxTunnels Tunnel := {}
  nextId : Nat := 1
  ueTeidinDb : Nat → Option (List BearerTeid) := fun _ => none
  indirectTunnelTimeoutMsec : Nat
  sdus : List WriteSdu := []
  sent : List (Nat × List Byte) := []

def isLteRb (lcid : Nat) : Bool := lcid ≤ 10

def lowerSn (lhs rhs : Option Nat × Pdu) : Prop :=
  match lhs.1, rhs.1 with
  | _, none => True
  | some m, some n => m ≤ n
  | none, some _ => False

instance (lhs rhs : Option Nat × Pdu) : Decidable (lowerSn lhs rhs) := by
  unfold lowerSn
  split <;> infer_instance

namespace Gtpu

def tunnel (g : Gtpu) (teid : Nat) : Except Fault Tunnel :=
  match g.tunnels.find teid with
  | some tun => .ok tun
  | none => .error .assertionFailed

def setTunnel (g : Gtpu) (teid : Nat) (tun : Tunnel) : Gtpu := { g with tunnels := g.tunnels.assign teid tun }

def findRntiBearerTunnels (g : Gtpu) (rnti epsBearerId : Nat) : List BearerTeid :=
  if !isLteRb epsBearerId then []
  else
    match g.ueTeidinDb rnti with
    | none => []
    | some ue =>
      (lowerBound ue (epsBearerId, 0)).takeWhile fun p => decide (BearerTeid.Lt p (epsBearerId + 1, 0))

def freeId (g : Gtpu) : Option Nat :=
  if g.tunnels.full then none
  else ((List.range (2 * maxTunnels)).map fun i => (g.nextId + i) % 2 ^ 32).find? fun id =>
    (g.tunnels.slots (id % maxTunnels)).isNone

def addTunnel (g : Gtpu) (rnti epsBearerId teidOut spgwAddr : Nat) : Gtpu × Option Nat :=
  if !isLteRb epsBearerId then (g, none)
  else
    match g.freeId with
    | none => (g, none)
    | some teid =>
      let tun : Tunnel := { rnti, epsBearerId, teidIn := teid, teidOut, spgwAddr }
      let ueTunnels := (g.ueTeidinDb rnti).getD []
      if ueTunnels.length = maxTunnelsPerUe then
        ({ g with tunnels := (g.tunnels.overwrite teid tun).erase teid, nextId := (teid + 1) % 2 ^ 32 }, none)
      else
        ({ g with
            tunnels := g.tunnels.overwrite teid tun
            nextId := (teid + 1) % 2 ^ 32
            ueTeidinDb := update g.ueTeidinDb rnti
              (some ((ueTunnels ++ [(epsBearerId, teid)]).insertionSort BearerTeid.Le)) }, some teid)

def activateTunnel (g : Gtpu) (teid : Nat) : Except Fault Gtpu := do
  let tun ← g.tunnel teid
  if tun.state = .pdcpActive then .ok g
  else
    match tun.buffer with
    | none => .error .undefinedBehaviour
    | some buffer =>
      let flushed := (buffer.insertionSort lowerSn).map (WriteSdu.ofRx tun.rnti tun.epsBearerId)
      .ok { g.setTunnel teid { tun with buffer := none, state := .pdcpActive } with sdus := g.sdus ++ flushed }

def suspendTunnel (g : Gtpu) (teid : Nat) : Except Fault Gtpu := do
  let tun ← g.tunnel teid
  if tun.state ≠ .pdcpActive then .ok g
  else .ok (g.setTunnel teid { tun with buffer := some [], state := .buffering })

/-- The tunnels that forward to `slot` are deactivated; in their state the call on them does nothing else. -/
def deactivateSources (g : Gtpu) (teid slot : Nat) : List BearerTeid → Except Fault Gtpu
  | [] => .ok g
  | bearerTun :: rest =>
    if bearerTun.2 ≠ teid then
      match g.tunnels.find bearerTun.2 with
      | none => .error .undefinedBehaviour
      | some mmeenbTun =>
        if mmeenbTun.state = .forwardTo ∧ mmeenbTun.fwdTunnel = some slot then
          (g.setTunnel bearerTun.2 { mmeenbTun with state := .inactive }).deactivateSources teid slot rest
        else g.deactivateSources teid slot rest
    else g.deactivateSources teid slot rest

def deactivateTunnel (g : Gtpu) (teid : Nat) : Except Fault Gtpu := do
  let tun ← g.tunnel teid
  let g ← (if tun.state = .forwardedFrom then
      g.deactivateSources teid (teid % maxTunnels) (g.findRntiBearerTunnels tun.rnti tun.epsBearerId)
    else .ok g)
  .ok (g.setTunnel teid { tun with state := .inactive })

def unlist (g : Gtpu) (tun : Tunnel) : Except Fault Gtpu :=
  let ue := (g.ueTeidinDb tun.rnti).getD []
  let key : BearerTeid := (tun.epsBearerId, tun.teidIn)
  match lowerBound ue key with
  | [] => .error .undefinedBehaviour
  | bearerIt :: rest =>
    if bearerIt = key then
      let erased := ue.takeWhile (fun p => decide (BearerTeid.Lt p key)) ++ rest
      .ok { g with ueTeidinDb := update g.ueTeidinDb tun.rnti (some erased) }
    else .error .assertionFailed

def runOnRemoval (remove : Gtpu → Nat → Except Fault Gtpu) (g : Gtpu) : OnRemoval → Except Fault Gtpu
  | .nothing => .ok g
  | .activate afterTeid => if g.tunnels.contains afterTeid then g.activateTunnel afterTeid else .ok g
  | .remove txTeid => if g.tunnels.contains txTeid then remove g txTeid else .ok g

/-- The destructor runs while the tunnel is still in the pool. Callbacks that never come to an end run out of the first
argument. -/
def removeTunnel : Nat → Gtpu → Nat → Except Fault Gtpu
  | 0, _, _ => .error .undefinedBehaviour
  | depth + 1, g, teid => do
    let g ← g.deactivateTunnel teid
    let tun ← g.tunnel teid
    let g ← g.unlist tun
    let g ← g.runOnRemoval (removeTunnel depth) tun.onRemoval
    .ok { g with tunnels := g.tunnels.erase teid }

def maxDepth : Nat := maxTunnels + 1

def relabel (newRnti : Nat) : List BearerTeid → Gtpu → Except Fault (Gtpu × List Nat)
  | [], g => .ok (g, [])
  | bearer :: rest, g => do
    let tun ← g.tunnel bearer.2
    let tun' := { tun with rnti := newRnti }
    let tun' := if tun.state = .forwardTo then { tun' with state := .pdcpActive, fwdTunnel := none } else tun'
    let (g, toRemove) ← relabel newRnti rest (g.setTunnel bearer.2 tun')
    .ok (g, if tun.state = .forwardedFrom then bearer.2 :: toRemove else toRemove)

def removeAll : List Nat → Gtpu → Except Fault Gtpu
  | [], g => .ok g
  | teid :: rest, g => do removeAll rest (← removeTunnel maxDepth g teid)

def updateRnti (g : Gtpu) (oldRnti newRnti : Nat) : Except Fault Gtpu :=
  match g.ueTeidinDb oldRnti with
  | none => .ok g
  | some old =>
    if (g.ueTeidinDb newRnti).getD [] ≠ [] then .ok g
    else do
      let swapped := update (update g.ueTeidinDb oldRnti (some [])) newRnti (some old)
      let (g, toRemove) ← relabel newRnti old { g with ueTeidinDb := swapped }
      let g ← removeAll toRemove.reverse g
      .ok { g with ueTeidinDb := update g.ueTeidinDb oldRnti (some []) }

def setTunnelPriority (g : Gtpu) (beforeTeid afterTeid : Nat) : Except Fault Gtpu := do
  let _ ← g.tunnel beforeTeid
  let g ← g.suspendTunnel afterTeid
  let beforeTun ← g.tunnel beforeTeid
  .ok (g.setTunnel beforeTeid { beforeTun with
    onRemoval := .activate afterTeid
    rxTimer := decide (g.indirectTunnelTimeoutMsec > 0) || beforeTun.rxTimer })

def bufferPdcpSdu (g : Gtpu) (teid : Nat) (pdcpSn : Option Nat) (sdu : Pdu) : Except Fault Gtpu := do
  let rxTun ← g.tunnel teid
  if rxTun.state ≠ .buffering then .error .assertionFailed
  else
    match rxTun.buffer with
    | none => .error .undefinedBehaviour
    | some buffer =>
      if buffer.length = bufferSize then .ok g
      else .ok (g.setTunnel teid { rxTun with buffer := some (buffer ++ [(pdcpSn, sdu)]) })

def setupForwarding (g : Gtpu) (rxTeid txTeid : Nat) : Except Fault Gtpu := do
  let rxTun ← g.tunnel rxTeid
  let g := g.setTunnel rxTeid { rxTun with
    state := .forwardTo, fwdTunnel := some (txTeid % maxTunnels), onRemoval := .remove txTeid }
  let txTun ← g.tunnel txTeid
  .ok (g.setTunnel txTeid { txTun with state := .forwardedFrom })

end Gtpu

structure BearerProps where
  flushBeforeTeidin : Option Nat := none
  forwardFromTeidin : Option Nat := none
  deriving DecidableEq, Repr

def validIpVersion (msg : List Byte) : Bool := byteAt msg 0 / 16 = 4 || byteAt msg 0 / 16 = 6

def endMarkerHeader (teidOut : Nat) : GtpuHeader :=
  { flags := gtpuFlagsVersionV1 ||| gtpuFlagsGtpProtocol, messageType := gtpuMsgEndMarker, teid := teidOut }

def rxPdu (bytes payload : List Byte) : ByteBuffer :=
  { headroom := bufferHeaderOffset + (bytes.length - payload.length), msg := payload }

/-- `get_buffered_pdus` returns the buffered PDUs of PDCP by increasing SN. -/
inductive GtpuEvent where
  | addBearer (rnti epsBearerId addrOut teidOut : Nat) (props : BearerProps) (bufferedPdus : List (Nat × ByteBuffer))
  | setTunnelStatus (teidin : Nat) (dlActive : Bool)
  | remBearer (rnti epsBearerId : Nat)
  | modBearerRnti (oldRnti newRnti : Nat)
  | remUser (rnti : Nat)
  | writePdu (rnti epsBearerId : Nat) (pdu : ByteBuffer)
  | rxPacket (bytes : List Byte)
  | rxTimeout (teidin : Nat)

namespace Gtpu

def sendPduToTunnel (g : Gtpu) (txTun : Tunnel) (pdu : ByteBuffer) (pdcpSn : Int) : Gtpu :=
  if !validIpVersion pdu.msg then g
  else
    match gtpuWriteHeader (dataHeader pdu.nBytes txTun.teidOut pdcpSn) pdu with
    | none => g
    | some bytes => { g with sent := g.sent ++ [(txTun.spgwAddr, bytes)] }

def fwdTunnel (g : Gtpu) (tun : Tunnel) : Except Fault Tunnel :=
  match tun.fwdTunnel with
  | none => .error .undefinedBehaviour
  | some slot =>
    match g.tunnels.slots slot with
    | none => .error .undefinedBehaviour
    | some (_, txTun) => .ok txTun

def createDlFwdTunnel (g : Gtpu) (rxTeidIn txTeidIn : Nat) (pdus : List (Nat × ByteBuffer)) :
    Except Fault (Gtpu × Bool) :=
  if !g.tunnels.contains rxTeidIn || !g.tunnels.contains txTeidIn then .ok (g, false)
  else do
    let g ← g.setupForwarding rxTeidIn txTeidIn
    let txTun ← g.tunnel txTeidIn
    .ok (pdus.foldl (fun g pduPair => g.sendPduToTunnel txTun pduPair.2 pduPair.1) g, true)

def setTunnelStatus (g : Gtpu) (teidin : Nat) (dlActive : Bool) : Except Fault Gtpu :=
  if !g.tunnels.contains teidin then .ok g
  else if dlActive then g.activateTunnel teidin
  else g.suspendTunnel teidin

def writePdu (g : Gtpu) (rnti epsBearerId : Nat) (pdu : ByteBuffer) : Except Fault Gtpu :=
  match g.findRntiBearerTunnels rnti epsBearerId with
  | [] => .ok g
  | (_, teid) :: _ =>
    match g.tunnels.find teid with
    | none => .error .undefinedBehaviour
    | some txTun => .ok (g.sendPduToTunnel txTun pdu (-1))

def handleMsgDataPdu (g : Gtpu) (header : GtpuHeader) (rxTunnel : Tunnel) (pdu : ByteBuffer) : Except Fault Gtpu :=
  if !validIpVersion pdu.msg then .ok g
  else
    match rxTunnel.state with
    | .forwardTo => do .ok (g.sendPduToTunnel (← g.fwdTunnel rxTunnel) pdu (-1))
    | .buffering => g.bufferPdcpSdu rxTunnel.teidIn (rxPdcpSn header) pdu.msg
    | .pdcpActive =>
      .ok { g with sdus := g.sdus ++ [WriteSdu.ofRx rxTunnel.rnti rxTunnel.epsBearerId (rxPdcpSn header, pdu.msg)] }
    | .forwardedFrom => .ok g
    | .inactive => .ok g

section Socket
-- Whether `sendto` takes datagram `n`.
variable (sendto : Nat → Bool)

def sendEndMarker (g : Gtpu) (teidin : Nat) : Except Fault Gtpu :=
  match g.tunnels.find teidin with
  | none => .ok g
  | some txTun =>
    let bytes := (gtpuWriteHeader (endMarkerHeader txTun.teidOut) {}).getD []
    let g' : Gtpu := { g with sent := g.sent ++ [(txTun.spgwAddr, bytes)] }
    if sendto g.sent.length then g'.deactivateTunnel txTun.teidIn else .ok g'

def remTunnel : Nat → Gtpu → Nat → Except Fault Gtpu
  | 0, _, _ => .error .undefinedBehaviour
  | depth + 1, g, teidin =>
    match g.tunnels.find teidin with
    | none => .ok g
    | some tun => do
      let g ← (if tun.state = .forwardedFrom then g.sendEndMarker sendto tun.teidIn
        else if tun.state = .forwardTo then do
          let g ← g.sendEndMarker sendto (← g.fwdTunnel tun).teidIn
          remTunnel depth g (← g.fwdTunnel tun).teidIn
        else .ok g)
      removeTunnel maxDepth g teidin

def remFront (front : Gtpu → Option BearerTeid) : Nat → Gtpu → Except Fault Gtpu
  | 0, g => if (front g).isNone then .ok g else .error .undefinedBehaviour
  | rounds + 1, g =>
    match front g with
    | none => .ok g
    | some (_, teid) => do remFront front rounds (← remTunnel sendto maxDepth g teid)

def remBearer (g : Gtpu) (rnti epsBearerId : Nat) : Except Fault Gtpu :=
  remFront sendto (fun g => (g.findRntiBearerTunnels rnti epsBearerId).head?) maxTunnelsPerUe g

def remUser (g : Gtpu) (rnti : Nat) : Except Fault Gtpu :=
  if (g.ueTeidinDb rnti).isNone then .ok g
  else do
    let g ← remFront sendto (fun g => ((g.ueTeidinDb rnti).getD []).head?) maxTunnelsPerUe g
    .ok { g with ueTeidinDb := update g.ueTeidinDb rnti none }

def addBearer (g : Gtpu) (rnti epsBearerId addrOut teidOut : Nat) (props : BearerProps)
    (bufferedPdus : List (Nat × ByteBuffer)) : Except Fault (Gtpu × Option Nat) :=
  match g.addTunnel rnti epsBearerId teidOut addrOut with
  | (g, none) => .ok (g, none)
  | (g, some teidIn) => do
    let g ← (match props.flushBeforeTeidin with
      | none => .ok g
      | some mainTeid => do (← g.suspendTunnel teidIn).setTunnelPriority teidIn mainTeid)
    match props.forwardFromTeidin with
    | none => .ok (g, some teidIn)
    | some rxTeid => do
      let (g, connected) ← g.createDlFwdTunnel rxTeid teidIn bufferedPdus
      if connected then .ok (g, some teidIn)
      else do .ok (← remTunnel sendto maxDepth g teidIn, none)

def handleEndMarker (g : Gtpu) (rxTunnel : Tunnel) : Except Fault Gtpu := do
  let g ← (if rxTunnel.state = .forwardTo then do
      let g ← g.sendEndMarker sendto (← g.fwdTunnel rxTunnel).teidIn
      remTunnel sendto maxDepth g (← g.fwdTunnel rxTunnel).teidIn
    else .ok g)
  remTunnel sendto maxDepth g rxTunnel.teidIn

/-- `handle_gtpu_s1u_rx_packet`. The answers to an echo request and to an unknown TEID are not kept. -/
def handleGtpuS1uRxPacket (g : Gtpu) (bytes : List Byte) : Except Fault Gtpu :=
  match gtpuReadHeader bytes with
  | none => .ok g
  | some (header, payload) =>
    if header.messageType = gtpuMsgEchoRequest ∨ header.messageType = gtpuMsgErrorIndication then .ok g
    else
      match g.tunnels.find header.teid with
      | none => .ok g
      | some tun =>
        if header.messageType = gtpuMsgDataPdu then g.handleMsgDataPdu header tun (rxPdu bytes payload)
        else if header.messageType = gtpuMsgEndMarker then g.handleEndMarker sendto tun
        else .ok g

def rxTimeout (g : Gtpu) (teidin : Nat) : Except Fault Gtpu :=
  match g.tunnels.find teidin with
  | none => .ok g
  | some tun => if tun.rxTimer then removeTunnel maxDepth g teidin else .ok g

def step (g : Gtpu) : GtpuEvent → Except Fault Gtpu
  | .addBearer rnti epsBearerId addrOut teidOut props bufferedPdus =>
    (g.addBearer sendto rnti epsBearerId addrOut teidOut props bufferedPdus).map (·.1)
  | .setTunnelStatus teidin dlActive => g.setTunnelStatus teidin dlActive
  | .remBearer rnti epsBearerId => g.remBearer sendto rnti epsBearerId
  | .modBearerRnti oldRnti newRnti => g.updateRnti oldRnti newRnti
  | .remUser rnti => g.remUser sendto rnti
  | .writePdu rnti epsBearerId pdu => g.writePdu rnti epsBearerId pdu
  | .rxPacket bytes => g.handleGtpuS1uRxPacket sendto bytes
  | .rxTimeout teidin => g.rxTimeout teidin

end Socket

end Gtpu

structure Table (pool : Nat → Option Tunnel) (list : Nat → List BearerTeid) : Prop where
  teidIn : ∀ teid tun, pool teid = some tun → tun.teidIn = teid
  lteRb : ∀ teid tun, pool teid = some tun → isLteRb tun.epsBearerId = true
  listed : ∀ teid tun, pool teid = some tun → (tun.epsBearerId, teid) ∈ list tun.rnti
  owned : ∀ rnti p, p ∈ list rnti → ∃ tun, pool p.2 = some tun ∧ tun.rnti = rnti ∧ tun.epsBearerId = p.1
  sorted : ∀ rnti, (list rnti).Pairwise BearerTeid.Lt
  short : ∀ rnti, (list rnti).length ≤ maxTunnelsPerUe

structure Links (pool : Nat → Option Tunnel) : Prop where
  slot : ∀ teid teid' tun tun', pool teid = some tun → pool teid' = some tun' →
    teid % maxTunnels = teid' % maxTunnels → teid = teid'
  forwards : ∀ teid tun, pool teid = some tun → tun.state = .forwardTo →
    ∃ txTeid txTun, tun.fwdTunnel = some (txTeid % maxTunnels) ∧ pool txTeid = some txTun ∧
      txTun.state = .forwardedFrom ∧ txTun.rnti = tun.rnti ∧ txTun.epsBearerId = tun.epsBearerId ∧
      tun.onRemoval = .remove txTeid
  buffered : ∀ teid tun, pool teid = some tun → (tun.buffer.isSome ↔ tun.state = .buffering)
  activates : ∀ teid tun, pool teid = some tun → ∀ afterTeid, tun.onRemoval = .activate afterTeid →
    afterTeid ≠ teid ∧ ∀ afterTun, pool afterTeid = some afterTun →
      afterTun.state = .pdcpActive ∨ afterTun.state = .buffering
  removes : ∀ teid tun, pool teid = some tun → ∀ txTeid, tun.onRemoval = .remove txTeid →
    ∀ txTun, pool txTeid = some txTun →
      txTun.onRemoval = .nothing ∧ (txTun.state = .forwardedFrom ∨ txTun.state = .inactive)
  receives : ∀ teid tun, pool teid = some tun → tun.state = .forwardedFrom → tun.onRemoval = .nothing

def Unreferred (pool : Nat → Option Tunnel) (teid : Nat) : Prop :=
  ∀ teid' tun, pool teid' = some tun → tun.onRemoval ≠ .activate teid ∧ tun.onRemoval ≠ .remove teid

def Tunnel.cut (teid : Nat) (tun : Tunnel) : Tunnel :=
  if tun.state = .forwardTo ∧ tun.fwdTunnel = some (teid % maxTunnels) then { tun with state := .inactive } else tun

namespace Tunnel
variable {teid : Nat} {tun : Tunnel}

@[simp] theorem cut_rnti : (tun.cut teid).rnti = tun.rnti := by unfold cut; split <;> rfl

@[simp] theorem cut_epsBearerId : (tun.cut teid).epsBearerId = tun.epsBearerId := by unfold cut; split <;> rfl

@[simp] theorem cut_teidIn : (tun.cut teid).teidIn = tun.teidIn := by unfold cut; split <;> rfl

@[simp] theorem cut_buffer : (tun.cut teid).buffer = tun.buffer := by unfold cut; split <;> rfl

@[simp] theorem cut_onRemoval : (tun.cut teid).onRemoval = tun.onRemoval := by unfold cut; split <;> rfl

@[simp] theorem cut_fwdTunnel : (tun.cut teid).fwdTunnel = tun.fwdTunnel := by unfold cut; split <;> rfl

theorem cut_of_ne (other : tun.state ≠ .forwardTo) : tun.cut teid = tun := by
  unfold cut
  rw [if_neg fun cond => other cond.1]

theorem cut_state_eq {state : TunnelState} (other : state ≠ .inactive) :
    (tun.cut teid).state = state → tun.state = state := by
  intro same
  unfold cut at same
  split at same
  · exact absurd same.symm other
  · exact same

end Tunnel

def dropped (pool : Nat → Option Tunnel) (teid : Nat) : Nat → Option Tunnel :=
  update (fun k => (pool k).map (Tunnel.cut teid)) teid none

def unlisted (list : Nat → List BearerTeid) (teid : Nat) : Nat → List BearerTeid :=
  fun rnti => (list rnti).filter fun p => p.2 ≠ teid

section Pool
variable {pool : Nat → Option Tunnel} {list : Nat → List BearerTeid} {teid : Nat}

variable {k : Nat} {tun new : Tunnel}

theorem dropped_eq_some :
    dropped pool teid k = some tun ↔ k ≠ teid ∧ ∃ old, pool k = some old ∧ old.cut teid = tun := by
  by_cases same : k = teid
  · simp [dropped, same]
  · simp [dropped, same]

theorem dropped_isSome : (dropped pool teid k).isSome ↔ k ≠ teid ∧ (pool k).isSome := by
  by_cases same : k = teid
  · simp [dropped, same]
  · simp [dropped, same]

theorem mem_unlisted {rnti : Nat} {p : BearerTeid} : p ∈ unlisted list teid rnti ↔ p ∈ list rnti ∧ p.2 ≠ teid := by
  simp [unlisted]

theorem Table.dropped (table : Table pool list) : Table (dropped pool teid) (unlisted list teid) where
  teidIn := by
    intro k tun found
    obtain ⟨_, old, before, rfl⟩ := dropped_eq_some.mp found
    rw [Tunnel.cut_teidIn]
    exact table.teidIn k old before
  lteRb := by
    intro k tun found
    obtain ⟨_, old, before, rfl⟩ := dropped_eq_some.mp found
    rw [Tunnel.cut_epsBearerId]
    exact table.lteRb k old before
  listed := by
    intro k tun found
    obtain ⟨other, old, before, rfl⟩ := dropped_eq_some.mp found
    rw [Tunnel.cut_epsBearerId, Tunnel.cut_rnti]
    exact mem_unlisted.mpr ⟨table.listed k old before, other⟩
  owned := by
    intro rnti p mem
    obtain ⟨before, other⟩ := mem_unlisted.mp mem
    obtain ⟨tun, found, rfl, eps⟩ := table.owned rnti p before
    exact ⟨tun.cut teid, dropped_eq_some.mpr ⟨other, tun, found, rfl⟩, by simp, by simp [eps]⟩
  sorted := fun rnti => (table.sorted rnti).filter _
  short := fun rnti => (List.length_filter_le _ _).trans (table.short rnti)

theorem Links.dropped (links : Links pool) : Links (dropped pool teid) where
  slot := by
    intro k k' tun tun' found found' same
    obtain ⟨_, old, before, _⟩ := dropped_eq_some.mp found
    obtain ⟨_, old', before', _⟩ := dropped_eq_some.mp found'
    exact links.slot k k' old old' before before' same
  forwards := by
    intro k tun found state
    obtain ⟨other, old, before, rfl⟩ := dropped_eq_some.mp found
    obtain ⟨txTeid, txTun, fwd, tx, from_, rnti, eps, callback⟩ :=
      links.forwards k old before (Tunnel.cut_state_eq (by simp) state)
    have kept : txTeid ≠ teid := by
      rintro rfl
      rw [Tunnel.cut, if_pos ⟨Tunnel.cut_state_eq (by simp) state, fwd⟩] at state
      contradiction
    have same : txTun.cut teid = txTun := Tunnel.cut_of_ne (by rw [from_]; simp)
    exact ⟨txTeid, txTun, by simpa using fwd, dropped_eq_some.mpr ⟨kept, txTun, tx, same⟩, from_, by simpa using rnti,
      by simpa using eps, by simpa using callback⟩
  buffered := by
    intro k tun found
    obtain ⟨_, old, before, rfl⟩ := dropped_eq_some.mp found
    rw [Tunnel.cut_buffer, links.buffered k old before]
    unfold Tunnel.cut
    split
    · rename_i cond
      simp [cond.1]
    · rfl
  activates := by
    intro k tun found afterTeid callback
    obtain ⟨_, old, before, rfl⟩ := dropped_eq_some.mp found
    obtain ⟨other, states⟩ := links.activates k old before afterTeid (by simpa using callback)
    refine ⟨other, fun afterTun found' => ?_⟩
    obtain ⟨_, old', before', rfl⟩ := dropped_eq_some.mp found'
    have state := states old' before'
    rw [Tunnel.cut_of_ne (by rcases state with eq | eq <;> simp [eq])]
    exact state
  removes := by
    intro k tun found txTeid callback txTun found'
    obtain ⟨_, old, before, rfl⟩ := dropped_eq_some.mp found
    obtain ⟨_, old', before', rfl⟩ := dropped_eq_some.mp found'
    obtain ⟨nothing, state⟩ := links.removes k old before txTeid (by simpa using callback) old' before'
    rw [Tunnel.cut_of_ne (by rcases state with eq | eq <;> simp [eq])]
    exact ⟨nothing, state⟩
  receives := by
    intro k tun found state
    obtain ⟨_, old, before, rfl⟩ := dropped_eq_some.mp found
    simpa using links.receives k old before (Tunnel.cut_state_eq (by simp) state)

def Tunnel.Open (tun : Tunnel) : Prop := tun.state = .pdcpActive ∨ tun.state = .buffering

theorem update_eq_some :
    update pool teid (some new) k = some tun ↔ k = teid ∧ new = tun ∨ k ≠ teid ∧ pool k = some tun := by
  by_cases same : k = teid
  · simp [same]
  · simp [same]

def Tunnel.key (tun : Tunnel) : Nat × Nat × Nat := (tun.teidIn, tun.rnti, tun.epsBearerId)

theorem Unreferred.assign (unreferred : Unreferred pool teid) (k : Nat)
    (apart : new.onRemoval ≠ .activate teid ∧ new.onRemoval ≠ .remove teid) :
    Unreferred (update pool k (some new)) teid := by
  intro k' tun there
  rcases update_eq_some.mp there with ⟨rfl, rfl⟩ | ⟨_, old⟩
  · exact apart
  · exact unreferred k' tun old

theorem Table.congr (table : Table pool list) {pool' : Nat → Option Tunnel}
    (same : ∀ k, (pool' k).map Tunnel.key = (pool k).map Tunnel.key) : Table pool' list := by
  have old : ∀ k tun, pool' k = some tun → ∃ old, pool k = some old ∧ old.teidIn = tun.teidIn ∧ old.rnti = tun.rnti ∧
      old.epsBearerId = tun.epsBearerId := by
    intro k tun found
    have eq := same k
    rw [found] at eq
    obtain ⟨before, there, key⟩ := Option.map_eq_some_iff.mp eq.symm
    simp only [Tunnel.key, Prod.mk.injEq] at key
    exact ⟨before, there, key⟩
  constructor
  · intro k tun found
    obtain ⟨before, there, teidIn, _⟩ := old k tun found
    rw [← teidIn]
    exact table.teidIn k before there
  · intro k tun found
    obtain ⟨before, there, _, _, eps⟩ := old k tun found
    rw [← eps]
    exact table.lteRb k before there
  · intro k tun found
    obtain ⟨before, there, _, rnti, eps⟩ := old k tun found
    rw [← eps, ← rnti]
    exact table.listed k before there
  · intro rnti p mem
    obtain ⟨before, there, ofRnti, ofEps⟩ := table.owned rnti p mem
    have eq := same p.2
    rw [there] at eq
    obtain ⟨tun, found, key⟩ := Option.map_eq_some_iff.mp eq
    simp only [Tunnel.key, Prod.mk.injEq] at key
    exact ⟨tun, found, key.2.1.trans ofRnti, key.2.2.trans ofEps⟩
  · exact table.sorted
  · exact table.short

theorem Table.assign (table : Table pool list) (found : pool teid = some tun)
    (teidIn : new.teidIn = tun.teidIn) (rnti : new.rnti = tun.rnti) (eps : new.epsBearerId = tun.epsBearerId) :
    Table (update pool teid (some new)) list := by
  apply table.congr
  intro k
  by_cases same : k = teid
  · rw [same, update_self, found, Option.map_some, Tunnel.key, teidIn, rnti, eps]
    rfl
  · rw [update_of_ne same]

theorem Links.assign_open (links : Links pool) (found : pool teid = some tun) (before : tun.Open)
    (after : new.Open) (callback : new.onRemoval = tun.onRemoval) (buffer : new.buffer.isSome ↔ new.state = .buffering) :
    Links (update pool teid (some new)) where
  slot := by
    have present : ∀ {k tun'}, update pool teid (some new) k = some tun' → ∃ old, pool k = some old := by
      intro k tun' found'
      rcases update_eq_some.mp found' with ⟨rfl, _⟩ | ⟨_, old⟩
      · exact ⟨tun, found⟩
      · exact ⟨tun', old⟩
    intro k k' tun' tun'' found' found'' same
    obtain ⟨_, old⟩ := present found'
    obtain ⟨_, old'⟩ := present found''
    exact links.slot k k' _ _ old old' same
  forwards := by
    intro k tun' found' state
    rcases update_eq_some.mp found' with ⟨rfl, rfl⟩ | ⟨_, old⟩
    · rcases after with eq | eq <;> simp [eq] at state
    · obtain ⟨txTeid, txTun, fwd, tx, from_, rest⟩ := links.forwards k tun' old state
      have other : txTeid ≠ teid := by
        rintro rfl
        obtain rfl := Option.some.inj (tx.symm.trans found)
        rcases before with eq | eq <;> simp [eq] at from_
      exact ⟨txTeid, txTun, fwd, by rw [update_of_ne other, tx], from_, rest⟩
  buffered := by
    intro k tun' found'
    rcases update_eq_some.mp found' with ⟨rfl, rfl⟩ | ⟨_, old⟩
    · exact buffer
    · exact links.buffered k tun' old
  activates := by
    intro k tun' found' afterTeid cb
    have old : ∃ old, pool k = some old ∧ old.onRemoval = .activate afterTeid := by
      rcases update_eq_some.mp found' with ⟨rfl, rfl⟩ | ⟨_, old⟩
      · exact ⟨tun, found, callback.symm.trans cb⟩
      · exact ⟨tun', old, cb⟩
    obtain ⟨old, foundOld, cbOld⟩ := old
    obtain ⟨other, states⟩ := links.activates k old foundOld afterTeid cbOld
    refine ⟨other, fun afterTun foundAfter => ?_⟩
    rcases update_eq_some.mp foundAfter with ⟨rfl, rfl⟩ | ⟨_, oldAfter⟩
    · exact after
    · exact states afterTun oldAfter
  removes := by
    intro k tun' found' txTeid cb txTun foundTx
    have old : ∃ old, pool k = some old ∧ old.onRemoval = .remove txTeid := by
      rcases update_eq_some.mp found' with ⟨rfl, rfl⟩ | ⟨_, old⟩
      · exact ⟨tun, found, callback.symm.trans cb⟩
      · exact ⟨tun', old, cb⟩
    obtain ⟨old, foundOld, cbOld⟩ := old
    rcases update_eq_some.mp foundTx with ⟨rfl, rfl⟩ | ⟨_, oldTx⟩
    · obtain ⟨_, state⟩ := links.removes k old foundOld _ cbOld tun found
      rcases before with eq | eq <;> simp [eq] at state
    · exact links.removes k old foundOld txTeid cbOld txTun oldTx
  receives := by
    intro k tun' found' state
    rcases update_eq_some.mp found' with ⟨rfl, rfl⟩ | ⟨_, old⟩
    · rcases after with eq | eq <;> simp [eq] at state
    · exact links.receives k tun' old state

structure Assignable (pool : Nat → Option Tunnel) (teid : Nat) (new : Tunnel) : Prop where
  forwards : new.state = .forwardTo →
    ∃ txTeid txTun, txTeid ≠ teid ∧ new.fwdTunnel = some (txTeid % maxTunnels) ∧ pool txTeid = some txTun ∧
      txTun.state = .forwardedFrom ∧ txTun.rnti = new.rnti ∧ txTun.epsBearerId = new.epsBearerId ∧
      new.onRemoval = .remove txTeid
  buffer : new.buffer.isSome ↔ new.state = .buffering
  activates : ∀ afterTeid, new.onRemoval = .activate afterTeid →
    afterTeid ≠ teid ∧ ∀ afterTun, pool afterTeid = some afterTun → afterTun.Open
  removes : ∀ txTeid, new.onRemoval = .remove txTeid → txTeid ≠ teid ∧
    ∀ txTun, pool txTeid = some txTun →
      txTun.onRemoval = .nothing ∧ (txTun.state = .forwardedFrom ∨ txTun.state = .inactive)
  receives : new.state = .forwardedFrom → new.onRemoval = .nothing

theorem Links.assign (links : Links pool)
    (noActivate : ∀ k tun, pool k = some tun → tun.onRemoval ≠ .activate teid)
    (removers : ∀ k tun, pool k = some tun → tun.onRemoval = .remove teid →
      tun.state ≠ .forwardTo ∧ new.onRemoval = .nothing ∧ (new.state = .forwardedFrom ∨ new.state = .inactive))
    (alone : ∀ k tun, pool k = some tun → k % maxTunnels = teid % maxTunnels → k = teid)
    (fits : Assignable pool teid new) :
    Links (update pool teid (some new)) where
  slot := by
    intro k k' tun tun' found found' same
    rcases update_eq_some.mp found with ⟨rfl, _⟩ | ⟨_, old⟩
    · rcases update_eq_some.mp found' with ⟨rfl, _⟩ | ⟨_, old'⟩
      · rfl
      · exact (alone k' tun' old' same.symm).symm
    · rcases update_eq_some.mp found' with ⟨rfl, _⟩ | ⟨_, old'⟩
      · exact alone k tun old same
      · exact links.slot k k' tun tun' old old' same
  forwards := by
    intro k tun found state
    rcases update_eq_some.mp found with ⟨rfl, rfl⟩ | ⟨_, old⟩
    · obtain ⟨txTeid, txTun, other, fwd, tx, rest⟩ := fits.forwards state
      exact ⟨txTeid, txTun, fwd, by rw [update_of_ne other, tx], rest⟩
    · obtain ⟨txTeid, txTun, fwd, tx, from_, rnti, eps, callback⟩ := links.forwards k tun old state
      have other : txTeid ≠ teid := by
        rintro rfl
        exact (removers k tun old callback).1 state
      exact ⟨txTeid, txTun, fwd, by rw [update_of_ne other, tx], from_, rnti, eps, callback⟩
  buffered := by
    intro k tun found
    rcases update_eq_some.mp found with ⟨rfl, rfl⟩ | ⟨_, old⟩
    · exact fits.buffer
    · exact links.buffered k tun old
  activates := by
    intro k tun found afterTeid callback
    rcases update_eq_some.mp found with ⟨rfl, rfl⟩ | ⟨_, old⟩
    · obtain ⟨other, states⟩ := fits.activates afterTeid callback
      refine ⟨other, fun afterTun foundAfter => states afterTun ?_⟩
      rwa [update_of_ne other] at foundAfter
    · obtain ⟨other, states⟩ := links.activates k tun old afterTeid callback
      refine ⟨other, fun afterTun foundAfter => states afterTun ?_⟩
      rwa [update_of_ne] at foundAfter
      rintro rfl
      exact noActivate k tun old callback
  removes := by
    intro k tun found txTeid callback txTun foundTx
    rcases update_eq_some.mp found with ⟨rfl, rfl⟩ | ⟨_, old⟩
    · obtain ⟨other, states⟩ := fits.removes txTeid callback
      rw [update_of_ne other] at foundTx
      exact states txTun foundTx
    · rcases update_eq_some.mp foundTx with ⟨rfl, rfl⟩ | ⟨_, oldTx⟩
      · exact (removers k tun old callback).2
      · exact links.removes k tun old txTeid callback txTun oldTx
  receives := by
    intro k tun found state
    rcases update_eq_some.mp found with ⟨rfl, rfl⟩ | ⟨_, old⟩
    · exact fits.receives state
    · exact links.receives k tun old state

theorem Links.assign_unreferred (links : Links pool) (unreferred : Unreferred pool teid)
    (alone : ∀ k tun, pool k = some tun → k % maxTunnels = teid % maxTunnels → k = teid)
    (fits : Assignable pool teid new) :
    Links (update pool teid (some new)) :=
  links.assign (fun k tun found => (unreferred k tun found).1)
    (fun k tun found callback => absurd callback (unreferred k tun found).2) alone fits

theorem Links.cut_eq (links : Links pool) (found : pool teid = some tun)
    (other : tun.state ≠ .forwardedFrom) {old : Tunnel} (before : pool k = some old) :
    old.cut teid = old := by
  unfold Tunnel.cut
  split
  · rename_i cond
    obtain ⟨txTeid, txTun, fwd, tx, from_, _⟩ := links.forwards k old before cond.1
    have same := links.slot txTeid teid txTun tun tx found (Option.some.inj (fwd.symm.trans cond.2))
    subst same
    obtain rfl := Option.some.inj (tx.symm.trans found)
    exact absurd from_ other
  · rfl

end Pool

end IsrRan.Upper
