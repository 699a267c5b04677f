import IsrRan.Upper.GtpuRuns

namespace IsrRan.Upper
open Adt Lib Option Gtpu
open Function (update update_eq_self update_of_ne update_self)

abbrev Packet := Option Nat × Pdu

def snArg : Option Nat → Int
  | none => -1
  | some pdcpSn => pdcpSn

/-- The table, and of each tunnel the packets that it has accepted: while it was buffering, and else. -/
structure Handover where
  g : Gtpu
  mainTeid : Nat
  indirectTeid : Option Nat := none
  bufferedMain : List Packet := []
  directMain : List Packet := []
  bufferedIndirect : List Packet := []
  directIndirect : List Packet := []

inductive HandoverEvent where
  | addIndirect (addrOut teidOut : Nat)
  | mainData (pdcpSn : Option Nat) (pdu : ByteBuffer)
  | indirectData (pdcpSn : Option Nat) (pdu : ByteBuffer)
  | activateIndirect
  | endMarker
  | rxTimeout

instance : Std.Total lowerSn := ⟨fun ⟨m, _⟩ ⟨n, _⟩ => by
  cases m <;> cases n <;> simp only [lowerSn, true_or, or_true]
  exact Nat.le_total _ _⟩

instance : IsTrans (Option Nat × Pdu) lowerSn := ⟨fun ⟨m, _⟩ ⟨n, _⟩ ⟨k, _⟩ first second => by
  cases m <;> cases n <;> cases k <;> simp only [lowerSn] at *
  exact Nat.le_trans first second⟩

namespace Handover

section Step
variable (sendto : Nat → Bool) (rnti epsBearerId : Nat)

def receive (g : Gtpu) (teid : Nat) (pdcpSn : Option Nat) (pdu : ByteBuffer) : Except Fault (Gtpu × List Packet) :=
  match gtpuWriteHeader (dataHeader pdu.nBytes teid (snArg pdcpSn)) pdu with
  | none => .ok (g, [])
  | some bytes =>
    (g.step sendto (.rxPacket bytes)).map fun g' =>
      (g', if validIpVersion pdu.msg && g.tunnels.contains teid then [(pdcpSn, pdu.msg)] else [])

def buffers (s : Handover) (teid : Nat) : Bool := (s.g.pool teid).any fun tun => tun.state = .buffering

def step (s : Handover) : HandoverEvent → Except Fault Handover
  | .addIndirect addrOut teidOut =>
    if s.indirectTeid.isSome then .ok s
    else
      (s.g.addBearer sendto rnti epsBearerId addrOut teidOut { flushBeforeTeidin := some s.mainTeid } []).map
        fun (g, teid) => { s with g, indirectTeid := teid }
  | .mainData pdcpSn pdu =>
    (receive sendto s.g s.mainTeid pdcpSn pdu).map fun (g, accepted) =>
      if s.buffers s.mainTeid then { s with g, bufferedMain := s.bufferedMain ++ accepted }
      else { s with g, directMain := s.directMain ++ accepted }
  | .indirectData pdcpSn pdu =>
    match s.indirectTeid with
    | none => .ok s
    | some teid =>
      (receive sendto s.g teid pdcpSn pdu).map fun (g, accepted) =>
        if s.buffers teid then { s with g, bufferedIndirect := s.bufferedIndirect ++ accepted }
        else { s with g, directIndirect := s.directIndirect ++ accepted }
  | .activateIndirect =>
    match s.indirectTeid with
    | none => .ok s
    | some teid => (s.g.step sendto (.setTunnelStatus teid true)).map fun g => { s with g }
  | .endMarker =>
    match s.indirectTeid with
    | none => .ok s
    | some teid =>
      match gtpuWriteHeader (endMarkerHeader teid) {} with
      | none => .ok s
      | some bytes => (s.g.step sendto (.rxPacket bytes)).map fun g => { s with g }
  | .rxTimeout =>
    match s.indirectTeid with
    | none => .ok s
    | some teid => (s.g.step sendto (.rxTimeout teid)).map fun g => { s with g }

end Step

def held (s : Handover) (teid : Nat) : List Packet := ((s.g.pool teid).bind (·.buffer)).getD []

/-- The indirect tunnel comes first, SNs fit into the extension header, and the indirect tunnel is removed when it has
nothing buffered. That the buffers have room is part of what the run promises. -/
def Kept (s : Handover) : HandoverEvent → Prop
  | .addIndirect _ _ => ∀ teid, s.g.freeId = some teid → Unreferred s.g.pool teid
  | .mainData pdcpSn _ =>
    s.indirectTeid.isSome ∧ (∀ sn, pdcpSn = some sn → sn < 65536) ∧ (s.held s.mainTeid).length < bufferSize
  | .indirectData pdcpSn _ =>
    (∀ sn, pdcpSn = some sn → sn < 65536) ∧ ∀ teid, s.indirectTeid = some teid → (s.held teid).length < bufferSize
  | .activateIndirect => True
  | .endMarker => ∀ teid, s.indirectTeid = some teid → s.held teid = []
  | .rxTimeout => ∀ teid, s.indirectTeid = some teid → s.held teid = []

/-- What a tunnel has buffered is still held, or it has been passed on by SN. -/
def Flushed (buffered held flushed : List Packet) : Prop :=
  held = buffered ∧ flushed = [] ∨ held = [] ∧ StablySorted lowerSn Prod.fst flushed buffered

/-- What PDCP has got since it had got `before`: each tunnel's buffered packets by SN and then the others as they came,
and those of the indirect tunnel first. What it has not got is still held. -/
structure InOrder (before : List WriteSdu) (rnti epsBearerId : Nat) (s : Handover) : Prop where
  delivered : ∃ flushedIndirect flushedMain : List Packet,
    Flushed s.bufferedIndirect (s.indirectTeid.elim [] s.held) flushedIndirect ∧
    Flushed s.bufferedMain (s.held s.mainTeid) flushedMain ∧
    s.g.sdus = before ++ (flushedIndirect ++ s.directIndirect ++ (flushedMain ++ s.directMain)).map
      (WriteSdu.ofRx rnti epsBearerId)
  complete : ∀ teid, s.indirectTeid = some teid → s.g.pool teid = none → s.held s.mainTeid = []

section Receive
variable (sendto : Nat → Bool) {g : Gtpu} {teid : Nat} {tun : Tunnel} {pdcpSn : Option Nat} {pdu : ByteBuffer}

theorem freeId_lt (free : g.freeId = some teid) : teid < 2 ^ 32 := by
  unfold freeId at free
  split at free
  · contradiction
  · obtain ⟨i, _, rfl⟩ := List.mem_map.mp (List.mem_of_find?_eq_some free)
    exact Nat.mod_lt _ (by decide)

theorem gtpuReadHeader_endMarker {bytes : List Byte} (small : teid < 2 ^ 32)
    (written : gtpuWriteHeader (endMarkerHeader teid) {} = some bytes) :
    ∃ header, gtpuReadHeader bytes = some (header, []) ∧ header.messageType = gtpuMsgEndMarker ∧
      header.teid = teid := by
  simp [endMarkerHeader, gtpuWriteHeader, gtpuSupportedFlagsCheck, gtpuSupportedMsgTypeCheck, GtpuHeader.isLong,
    GtpuHeader.sent, GtpuHeader.written, GtpuHeader.mandatory, uint16ToUint8, uint32ToUint8] at written
  obtain ⟨_, rfl⟩ := written
  simp [gtpuReadHeader, gtpuReadHeaderAt, gtpuSupportedFlagsCheck, gtpuSupportedMsgTypeCheck, GtpuHeader.isLong,
    Memory.ofList]
  omega

theorem rxPacket_eq {bytes : List Byte} (small : teid < 2 ^ 32) (fits : ∀ sn, pdcpSn = some sn → sn < 65536)
    (written : gtpuWriteHeader (dataHeader pdu.nBytes teid (snArg pdcpSn)) pdu = some bytes) :
    ∃ header, rxPdcpSn header = pdcpSn ∧ g.step sendto (.rxPacket bytes) =
      match g.pool teid with
      | none => .ok g
      | some tun => g.handleMsgDataPdu header tun (rxPdu bytes pdu.msg) := by
  obtain ⟨header, read, type, ofTeid, sn⟩ := gtpuReadHeader_dataHeader small written
  refine ⟨header, ?_, ?_⟩
  · rw [sn]
    cases pdcpSn with
    | none => simp [snArg]
    | some n =>
      have lt := fits n rfl
      simp only [snArg, Int.natCast_nonneg, if_true, Int.toNat_natCast]
      rw [Nat.mod_eq_of_lt lt]
  · rw [Gtpu.step, handleGtpuS1uRxPacket, read]
    simp only [type, ofTeid]
    rfl

theorem receive_absent (small : teid < 2 ^ 32) (fits : ∀ sn, pdcpSn = some sn → sn < 65536)
    (absent : g.pool teid = none) : receive sendto g teid pdcpSn pdu = .ok (g, []) := by
  unfold receive
  split
  · rfl
  · rename_i bytes written
    obtain ⟨header, _, result⟩ := rxPacket_eq sendto small fits written
    have notThere : g.tunnels.contains teid = false := CircularMap.contains_eq_false.mpr absent
    rw [result, absent, notThere]
    simp [Except.map]

theorem receive_active (pdu : ByteBuffer) (small : teid < 2 ^ 32) (fits : ∀ sn, pdcpSn = some sn → sn < 65536)
    (found : g.pool teid = some tun) (active : tun.state = .pdcpActive) :
    ∃ accepted, receive sendto g teid pdcpSn pdu =
      .ok ({ g with sdus := g.sdus ++ accepted.map (WriteSdu.ofRx tun.rnti tun.epsBearerId) }, accepted) := by
  unfold receive
  split
  · exact ⟨[], by simp⟩
  · rename_i bytes written
    obtain ⟨header, sn, result⟩ := rxPacket_eq sendto (g := g) small fits written
    have there : g.tunnels.contains teid = true := CircularMap.contains_eq_true.mpr ⟨tun, found⟩
    rw [result, found, there]
    dsimp only [handleMsgDataPdu, rxPdu]
    cases valid : validIpVersion pdu.msg with
    | false => exact ⟨[], by simp [Except.map]⟩
    | true => exact ⟨[(pdcpSn, pdu.msg)], by simp [Except.map, active, sn]⟩

theorem receive_buffering (pdcpSn : Option Nat) (pdu : ByteBuffer) (inv : g.Inv) (small : teid < 2 ^ 32)
    (fits : ∀ sn, pdcpSn = some sn → sn < 65536)
    (found : g.pool teid = some tun) (buffering : tun.state = .buffering) {buffer : List Packet}
    (buffered : tun.buffer = some buffer) (room : buffer.length < bufferSize) :
    ∃ accepted tunnels, receive sendto g teid pdcpSn pdu = .ok ({ g with tunnels }, accepted) ∧
      tunnels.find = update g.pool teid (some { tun with buffer := some (buffer ++ accepted) }) := by
  have unchanged : g.tunnels.find =
      update g.pool teid (some { tun with buffer := some (buffer ++ []) }) := by
    rw [List.append_nil, ← buffered, ← found, update_eq_self]
    rfl
  unfold receive
  split
  · exact ⟨[], g.tunnels, rfl, unchanged⟩
  · rename_i bytes written
    obtain ⟨header, sn, result⟩ := rxPacket_eq sendto (g := g) small fits written
    have there : g.tunnels.contains teid = true := CircularMap.contains_eq_true.mpr ⟨tun, found⟩
    rw [result, found, there]
    dsimp only [handleMsgDataPdu, rxPdu]
    cases valid : validIpVersion pdu.msg with
    | false => exact ⟨[], g.tunnels, by simp [Except.map], unchanged⟩
    | true =>
      let new : Tunnel := { tun with buffer := some (buffer ++ [(pdcpSn, pdu.msg)]) }
      refine ⟨[(pdcpSn, pdu.msg)], (g.setTunnel teid new).tunnels, ?_, pool_setTunnel found new⟩
      have stored : g.bufferPdcpSdu teid pdcpSn pdu.msg = .ok (g.setTunnel teid new) := by
        rw [bufferPdcpSdu, tunnel_eq found]
        simp only [bind, Except.bind]
        rw [if_neg (by simp [buffering])]
        simp only [buffered]
        rw [if_neg (Nat.ne_of_lt room)]
      rw [buffering, inv.table.teidIn teid tun found, sn]
      simp only [stored]
      rfl

end Receive

structure Serves (rnti epsBearerId : Nat) (held : Option (List Packet)) (tun : Tunnel) : Prop where
  rnti : tun.rnti = rnti
  epsBearerId : tun.epsBearerId = epsBearerId
  buffer : tun.buffer = held
  state : tun.state = if held.isSome then .buffering else .pdcpActive

inductive Phase (before : List WriteSdu) (rnti eps : Nat) (s : Handover) : Prop
  | alone (main : Tunnel) (found : s.g.pool s.mainTeid = some main) (serves : Serves rnti eps none main)
      (noIndirect : s.indirectTeid = none) (noneMain : s.bufferedMain = [] ∧ s.directMain = [])
      (noneIndirect : s.bufferedIndirect = [] ∧ s.directIndirect = []) (sdus : s.g.sdus = before)
  | waiting (main indirect : Tunnel) (teid : Nat) (found : s.g.pool s.mainTeid = some main)
      (serves : Serves rnti eps (some s.bufferedMain) main) (ofTeid : s.indirectTeid = some teid)
      (small : teid < 2 ^ 32) (there : s.g.pool teid = some indirect)
      (servesToo : Serves rnti eps (some s.bufferedIndirect) indirect)
      (callback : indirect.onRemoval = .activate s.mainTeid) (direct : s.directMain = [] ∧ s.directIndirect = [])
      (sdus : s.g.sdus = before)
  | flushed (main indirect : Tunnel) (teid : Nat)
      (found : s.g.pool s.mainTeid = some main) (serves : Serves rnti eps (some s.bufferedMain) main)
      (ofTeid : s.indirectTeid = some teid) (small : teid < 2 ^ 32) (there : s.g.pool teid = some indirect)
      (servesToo : Serves rnti eps none indirect) (callback : indirect.onRemoval = .activate s.mainTeid)
      (direct : s.directMain = [])
      (sdus : s.g.sdus = before ++ (s.bufferedIndirect.insertionSort lowerSn ++ s.directIndirect).map
        (WriteSdu.ofRx rnti eps))
  | switched (main : Tunnel) (teid : Nat)
      (found : s.g.pool s.mainTeid = some main) (serves : Serves rnti eps none main)
      (ofTeid : s.indirectTeid = some teid) (small : teid < 2 ^ 32) (gone : s.g.pool teid = none)
      (sdus : s.g.sdus = before ++ (s.bufferedIndirect.insertionSort lowerSn ++ s.directIndirect ++
        (s.bufferedMain.insertionSort lowerSn ++ s.directMain)).map (WriteSdu.ofRx rnti eps))

theorem lowerSn_of_eq (p q : Packet) (same : p.1 = q.1) : lowerSn p q := by
  unfold lowerSn
  rw [same]
  cases q.1 with
  | none => trivial
  | some sn => exact Nat.le_refl sn

theorem flush_sorted (l : List Packet) : StablySorted lowerSn Prod.fst (l.insertionSort lowerSn) l :=
  stablySorted_insertionSort lowerSn lowerSn_of_eq l

theorem flushed_nil : Flushed [] [] [] := .inl ⟨rfl, rfl⟩

theorem buffers_eq {s : Handover} {teid rnti eps : Nat} {tun : Tunnel} {buffer : Option (List Packet)}
    (found : s.g.pool teid = some tun) (serves : Serves rnti eps buffer tun) : s.buffers teid = buffer.isSome := by
  rw [buffers, found, any_some, serves.state]
  cases buffer <;> rfl

theorem held_eq {s : Handover} {teid rnti eps : Nat} {tun : Tunnel} {buffer : Option (List Packet)}
    (found : s.g.pool teid = some tun) (serves : Serves rnti eps buffer tun) : s.held teid = buffer.getD [] := by
  rw [held, found, bind_some, serves.buffer]

theorem Phase.inOrder {before : List WriteSdu} {rnti eps : Nat} {s : Handover} (phase : Phase before rnti eps s) :
    InOrder before rnti eps s := by
  cases phase with
  | alone main found serves noIndirect noneMain noneIndirect sdus =>
    refine ⟨⟨[], [], ?_, ?_, ?_⟩, ?_⟩
    · rw [noneIndirect.1, noIndirect]
      exact flushed_nil
    · rw [noneMain.1, held_eq found serves]
      exact flushed_nil
    · rw [noneMain.2, noneIndirect.2]
      simpa using sdus
    · intro teid ofTeid
      rw [noIndirect] at ofTeid
      contradiction
  | waiting main indirect teid found serves ofTeid small there servesToo callback direct sdus =>
    refine ⟨⟨[], [], .inl ⟨?_, rfl⟩, .inl ⟨held_eq found serves, rfl⟩, ?_⟩, ?_⟩
    · rw [ofTeid]
      exact held_eq there servesToo
    · rw [direct.1, direct.2]
      simpa using sdus
    · intro teid' ofTeid' gone
      obtain rfl := Option.some.inj (ofTeid.symm.trans ofTeid')
      rw [there] at gone
      contradiction
  | flushed main indirect teid found serves ofTeid small there servesToo callback direct sdus =>
    refine ⟨⟨_, [], .inr ⟨?_, flush_sorted s.bufferedIndirect⟩, .inl ⟨held_eq found serves, rfl⟩, ?_⟩, ?_⟩
    · rw [ofTeid]
      exact held_eq there servesToo
    · rw [direct]
      simpa using sdus
    · intro teid' ofTeid' gone
      obtain rfl := Option.some.inj (ofTeid.symm.trans ofTeid')
      rw [there] at gone
      contradiction
  | switched main teid found serves ofTeid small gone sdus =>
    refine ⟨⟨_, _, .inr ⟨?_, flush_sorted s.bufferedIndirect⟩,
      .inr ⟨held_eq found serves, flush_sorted s.bufferedMain⟩, sdus⟩, ?_⟩
    · rw [ofTeid, elim_some, held, gone]
      rfl
    · intro _ _ _
      exact held_eq found serves

namespace Serves
variable {rnti eps : Nat} {held : Option (List Packet)} {tun : Tunnel}

theorem open_ (serves : Serves rnti eps held tun) : tun.Open := by
  have state := serves.state
  split at state
  · exact .inr state
  · exact .inl state

theorem activated (serves : Serves rnti eps held tun) : Serves rnti eps none tun.activated :=
  ⟨serves.rnti, serves.epsBearerId, rfl, rfl⟩

theorem append {buffer : List Packet} (serves : Serves rnti eps (some buffer) tun) (accepted : List Packet) :
    Serves rnti eps (some (buffer ++ accepted)) { tun with buffer := some (buffer ++ accepted) } :=
  ⟨serves.rnti, serves.epsBearerId, rfl, serves.state⟩

theorem flushed_eq (serves : Serves rnti eps held tun) :
    tun.flushed = ((held.getD []).insertionSort lowerSn).map (WriteSdu.ofRx rnti eps) := by
  unfold Tunnel.flushed
  rw [serves.buffer, serves.rnti, serves.epsBearerId]
  cases held <;> rfl

end Serves

section Run
variable (sendto : Nat → Bool) {rnti eps : Nat} {before : List WriteSdu} {s : Handover}

structure Sound (before : List WriteSdu) (rnti eps : Nat) (s : Handover) : Prop where
  inv : s.g.Inv
  small : s.mainTeid < 2 ^ 32
  phase : Phase before rnti eps s

theorem addTunnel_sdus (g : Gtpu) (rnti eps out addr : Nat) : (g.addTunnel rnti eps out addr).1.sdus = g.sdus := by
  unfold addTunnel
  split
  · rfl
  · split
    · rfl
    · dsimp only
      split <;> rfl

theorem receive_inv {g g' : Gtpu} {teid : Nat} {pdcpSn : Option Nat} {pdu : ByteBuffer} {accepted : List Packet}
    (inv : g.Inv) (received : receive sendto g teid pdcpSn pdu = .ok (g', accepted)) : g'.Inv := by
  unfold receive at received
  split at received
  · obtain ⟨rfl, _⟩ := Prod.mk.inj (Except.ok.inj received)
    exact inv
  · rename_i bytes _
    obtain ⟨g₁, result, eq⟩ := map_eq_ok.mp received
    obtain ⟨rfl, _⟩ := Prod.mk.inj eq
    obtain ⟨g₂, result', inv'⟩ := Gtpu.step_ok sendto inv (.rxPacket bytes) trivial
    obtain rfl := Except.ok.inj (result.symm.trans result')
    exact inv'

theorem inv_of_step {g g' : Gtpu} (inv : g.Inv) {event : GtpuEvent} (kept : g.Kept event)
    (result : g.step sendto event = .ok g') : g'.Inv := by
  obtain ⟨g₁, result', inv'⟩ := Gtpu.step_ok sendto inv event kept
  obtain rfl := Except.ok.inj (result.symm.trans result')
  exact inv'

theorem switch (inv : s.g.Inv) {main indirect : Tunnel} {teid : Nat} (found : s.g.pool s.mainTeid = some main)
    (serves : Serves rnti eps (some s.bufferedMain) main) (ofTeid : s.indirectTeid = some teid) (small : teid < 2 ^ 32)
    (there : s.g.pool teid = some indirect) (callback : indirect.onRemoval = .activate s.mainTeid)
    (direct : s.directMain = [])
    (sdus : s.g.sdus = before ++ (s.bufferedIndirect.insertionSort lowerSn ++ s.directIndirect).map
      (WriteSdu.ofRx rnti eps)) :
    ∃ g', removeTunnel maxDepth s.g teid = .ok g' ∧ Phase before rnti eps { s with g := g' } := by
  obtain ⟨g', removed, ⟨tunnels, ueTeidinDb, rfl⟩, _, after⟩ :=
    removeTunnel_activate inv there callback 640 found
  have other := (inv.links.activates teid indirect there s.mainTeid callback).1
  refine ⟨_, removed, .switched main.activated teid ?_ serves.activated ofTeid small ?_ ?_⟩
  · show Gtpu.pool _ s.mainTeid = _
    rw [after, update_self]
  · show Gtpu.pool _ teid = _
    rw [after, update_of_ne other.symm, dropped, update_self]
  · show s.g.sdus ++ main.flushed = before ++ (s.bufferedIndirect.insertionSort lowerSn ++ s.directIndirect ++
      (s.bufferedMain.insertionSort lowerSn ++ s.directMain)).map (WriteSdu.ofRx rnti eps)
    rw [sdus, serves.flushed_eq, direct]
    simp

theorem endMarker_eq {g : Gtpu} (inv : g.Inv) {teid : Nat} {tun : Tunnel} (found : g.pool teid = some tun)
    (opened : tun.Open) (small : teid < 2 ^ 32) {bytes : List Byte}
    (written : gtpuWriteHeader (endMarkerHeader teid) {} = some bytes) :
    g.step sendto (.rxPacket bytes) = removeTunnel maxDepth g teid := by
  obtain ⟨header, read, type, ofTeid⟩ := gtpuReadHeader_endMarker small written
  have source : g.tunnels.find teid = some tun := found
  have notForward : tun.state ≠ .forwardTo := by rcases opened with eq | eq <;> simp [eq]
  have notFrom : tun.state ≠ .forwardedFrom := by rcases opened with eq | eq <;> simp [eq]
  rw [Gtpu.step, handleGtpuS1uRxPacket, read]
  simp only [type, ofTeid, source]
  rw [handleEndMarker, if_neg notForward, inv.table.teidIn teid tun found]
  change remTunnel sendto (640 + 1) g teid = _
  rw [remTunnel]
  simp only [source]
  rw [if_neg notFrom, if_neg notForward]
  rfl

section
variable (sound : Sound before rnti eps s)
include sound

theorem sound_addIndirect (addr out : Nat) (kept : s.Kept (.addIndirect addr out)) :
    ∃ s', s.step sendto rnti eps (.addIndirect addr out) = .ok s' ∧ Sound before rnti eps s' := by
  rw [step]
  split
  · exact ⟨s, rfl, sound⟩
  · rename_i notYet
    cases sound.phase with
    | waiting main indirect teid found serves ofTeid => simp [ofTeid] at notYet
    | flushed main indirect teid found serves ofTeid => simp [ofTeid] at notYet
    | switched main teid found serves ofTeid => simp [ofTeid] at notYet
    | alone main found serves noIndirect noneMain noneIndirect sdus =>
      have sdus₁ := addTunnel_sdus s.g rnti eps out addr
      cases added : s.g.addTunnel rnti eps out addr with
      | mk g₁ teid =>
        rw [added] at sdus₁
        cases teid with
        | none =>
          obtain ⟨inv₁, pool₁, _⟩ := addTunnel_none sound.inv added
          refine ⟨{ s with g := g₁, indirectTeid := none }, by rw [Gtpu.addBearer, added]; rfl, inv₁, sound.small, ?_⟩
          exact .alone main ((congrFun pool₁ _).trans found) serves rfl noneMain noneIndirect (sdus₁.trans sdus)
        | some teid =>
          have free := (addTunnel_some sound.inv added).1
          obtain ⟨_, tunnels, result, inv', mainAfter, newAfter⟩ :=
            addBearer_flush sendto [] sound.inv added (kept teid free) found serves.open_
          refine ⟨{ s with g := { g₁ with tunnels }, indirectTeid := some teid }, by rw [result]; rfl, inv',
            sound.small, ?_⟩
          have active : main.state = .pdcpActive := serves.state
          refine .waiting _ _ teid mainAfter ?_ rfl (freeId_lt free) newAfter ?_ rfl ⟨noneMain.2, noneIndirect.2⟩
            (sdus₁.trans sdus)
          · show Serves rnti eps (some s.bufferedMain) _
            rw [noneMain.1, Tunnel.suspended, if_pos active]
            exact ⟨serves.rnti, serves.epsBearerId, rfl, rfl⟩
          · show Serves rnti eps (some s.bufferedIndirect) _
            rw [noneIndirect.1]
            exact ⟨rfl, rfl, rfl, rfl⟩

theorem sound_mainData (pdcpSn : Option Nat) (pdu : ByteBuffer)
    (kept : s.Kept (.mainData pdcpSn pdu)) :
    ∃ s', s.step sendto rnti eps (.mainData pdcpSn pdu) = .ok s' ∧ Sound before rnti eps s' := by
  obtain ⟨has, fits, room⟩ := kept
  -- while the indirect tunnel is there, the main one buffers
  have buffer : ∀ main indirect teid, s.g.pool s.mainTeid = some main → Serves rnti eps (some s.bufferedMain) main →
      s.g.pool teid = some indirect → indirect.onRemoval = .activate s.mainTeid →
      ∃ accepted tunnels main', receive sendto s.g s.mainTeid pdcpSn pdu = .ok ({ s.g with tunnels }, accepted) ∧
        tunnels.find s.mainTeid = some main' ∧ Serves rnti eps (some (s.bufferedMain ++ accepted)) main' ∧
        tunnels.find teid = some indirect := by
    intro main indirect teid found serves there callback
    have other := (sound.inv.links.activates teid indirect there s.mainTeid callback).1
    rw [held_eq found serves] at room
    obtain ⟨accepted, tunnels, received, after⟩ := receive_buffering sendto pdcpSn pdu sound.inv
      sound.small fits found serves.state serves.buffer room
    exact ⟨accepted, tunnels, _, received, by rw [after, update_self], serves.append accepted,
      by rw [after, update_of_ne other.symm, there]⟩
  rw [step]
  cases sound.phase with
  | alone main found serves noIndirect => simp [noIndirect] at has
  | waiting main indirect teid found serves ofTeid small there servesToo callback direct sdus =>
    obtain ⟨accepted, tunnels, main', received, found', serves', there'⟩ :=
      buffer main indirect teid found serves there callback
    refine ⟨{ s with g := { s.g with tunnels }, bufferedMain := s.bufferedMain ++ accepted },
      by rw [received, buffers_eq found serves]; rfl, receive_inv sendto sound.inv received, sound.small, ?_⟩
    exact .waiting main' indirect teid found' serves' ofTeid small there' servesToo callback direct sdus
  | flushed main indirect teid found serves ofTeid small there servesToo callback direct sdus =>
    obtain ⟨accepted, tunnels, main', received, found', serves', there'⟩ :=
      buffer main indirect teid found serves there callback
    refine ⟨{ s with g := { s.g with tunnels }, bufferedMain := s.bufferedMain ++ accepted },
      by rw [received, buffers_eq found serves]; rfl, receive_inv sendto sound.inv received, sound.small, ?_⟩
    exact .flushed main' indirect teid found' serves' ofTeid small there' servesToo callback direct sdus
  | switched main teid found serves ofTeid small gone sdus =>
    obtain ⟨accepted, received⟩ := receive_active sendto pdu sound.small fits found serves.state
    let g' : Gtpu := { s.g with sdus := s.g.sdus ++ accepted.map (WriteSdu.ofRx main.rnti main.epsBearerId) }
    refine ⟨{ s with g := g', directMain := s.directMain ++ accepted },
      by rw [received, buffers_eq found serves]; rfl, receive_inv sendto sound.inv received, sound.small, ?_⟩
    refine .switched main teid found serves ofTeid small gone ?_
    show s.g.sdus ++ _ = before ++ (s.bufferedIndirect.insertionSort lowerSn ++ s.directIndirect ++
      (s.bufferedMain.insertionSort lowerSn ++ (s.directMain ++ accepted))).map (WriteSdu.ofRx rnti eps)
    rw [sdus, serves.rnti, serves.epsBearerId]
    simp

theorem sound_indirectData (pdcpSn : Option Nat) (pdu : ByteBuffer)
    (kept : s.Kept (.indirectData pdcpSn pdu)) :
    ∃ s', s.step sendto rnti eps (.indirectData pdcpSn pdu) = .ok s' ∧ Sound before rnti eps s' := by
  obtain ⟨fits, room⟩ := kept
  rw [step]
  cases sound.phase with
  | alone main found serves noIndirect =>
    rw [noIndirect]
    exact ⟨s, rfl, sound⟩
  | waiting main indirect teid found serves ofTeid small there servesToo callback direct sdus =>
    have other := (sound.inv.links.activates teid indirect there s.mainTeid callback).1
    replace room := room teid ofTeid
    rw [held_eq there servesToo] at room
    obtain ⟨accepted, tunnels, received, after⟩ := receive_buffering sendto pdcpSn pdu sound.inv
      small fits there servesToo.state servesToo.buffer room
    rw [ofTeid]
    dsimp only
    refine ⟨{ s with g := { s.g with tunnels }, bufferedIndirect := s.bufferedIndirect ++ accepted },
      by rw [received, buffers_eq there servesToo, ofTeid]; rfl, receive_inv sendto sound.inv received, sound.small, ?_⟩
    refine .waiting main _ teid ?_ serves ofTeid small ?_ (servesToo.append accepted) callback direct sdus
    · show tunnels.find s.mainTeid = _
      rw [after, update_of_ne other, found]
    · show tunnels.find teid = _
      rw [after, update_self]
  | flushed main indirect teid found serves ofTeid small there servesToo callback direct sdus =>
    obtain ⟨accepted, received⟩ := receive_active sendto pdu small fits there servesToo.state
    rw [ofTeid]
    dsimp only
    let g' : Gtpu := { s.g with sdus := s.g.sdus ++ accepted.map (WriteSdu.ofRx indirect.rnti indirect.epsBearerId) }
    refine ⟨{ s with g := g', directIndirect := s.directIndirect ++ accepted },
      by rw [received, buffers_eq there servesToo, ofTeid]; rfl, receive_inv sendto sound.inv received, sound.small, ?_⟩
    refine .flushed main indirect teid found serves ofTeid small there servesToo callback direct ?_
    show s.g.sdus ++ _ = before ++ (s.bufferedIndirect.insertionSort lowerSn ++ (s.directIndirect ++ accepted)).map
      (WriteSdu.ofRx rnti eps)
    rw [sdus, servesToo.rnti, servesToo.epsBearerId]
    simp
  | switched main teid found serves ofTeid small gone sdus =>
    have quiet : s.buffers teid = false := by
      rw [buffers, gone]
      rfl
    rw [ofTeid]
    dsimp only
    rw [receive_absent sendto small fits gone]
    refine ⟨{ s with directIndirect := s.directIndirect ++ [] }, by rw [quiet, ofTeid]; rfl, sound.inv, sound.small, ?_⟩
    exact .switched main teid found serves ofTeid small gone (by simpa using sdus)

theorem sound_activateIndirect :
    ∃ s', s.step sendto rnti eps .activateIndirect = .ok s' ∧ Sound before rnti eps s' := by
  have activate : ∀ indirect teid held, s.g.pool teid = some indirect → Serves rnti eps held indirect →
      ∃ tunnels, s.g.step sendto (.setTunnelStatus teid true) =
          .ok { s.g with tunnels, sdus := s.g.sdus ++ indirect.flushed } ∧
        tunnels.find teid = some indirect.activated ∧ (∀ k ≠ teid, tunnels.find k = s.g.tunnels.find k) ∧
        Gtpu.Inv { s.g with tunnels, sdus := s.g.sdus ++ indirect.flushed } := by
    intro indirect teid held there serves
    have buffered := sound.inv.links.buffered teid indirect there
    obtain ⟨tunnels, result, after⟩ := activateTunnel_eq there serves.open_ buffered
    have present : s.g.tunnels.contains teid = true := CircularMap.contains_eq_true.mpr ⟨indirect, there⟩
    have stepped : s.g.step sendto (.setTunnelStatus teid true) =
        .ok { s.g with tunnels, sdus := s.g.sdus ++ indirect.flushed } := by
      rw [Gtpu.step, Gtpu.setTunnelStatus, present]
      exact result
    refine ⟨tunnels, stepped, by rw [after, update_self], fun k other => by
      rw [after, update_of_ne other]; rfl, inv_of_step sendto sound.inv ?_ stepped⟩
    intro _ tun found
    obtain rfl := Option.some.inj (there.symm.trans found)
    exact serves.open_
  rw [step]
  cases sound.phase with
  | alone main found serves noIndirect =>
    rw [noIndirect]
    exact ⟨s, rfl, sound⟩
  | waiting main indirect teid found serves ofTeid small there servesToo callback direct sdus =>
    have other := (sound.inv.links.activates teid indirect there s.mainTeid callback).1
    obtain ⟨tunnels, result, stored, kept, inv'⟩ := activate indirect teid _ there servesToo
    rw [ofTeid]
    dsimp only
    refine ⟨{ s with g := { s.g with tunnels, sdus := s.g.sdus ++ indirect.flushed } }, by rw [result, ofTeid]; rfl, inv',
      sound.small, ?_⟩
    refine .flushed main indirect.activated teid ((kept _ other).trans found) serves ofTeid small
      stored servesToo.activated callback direct.1 ?_
    show s.g.sdus ++ indirect.flushed = before ++ (s.bufferedIndirect.insertionSort lowerSn ++ s.directIndirect).map
      (WriteSdu.ofRx rnti eps)
    rw [sdus, servesToo.flushed_eq, direct.2]
    simp
  | flushed main indirect teid found serves ofTeid small there servesToo callback direct sdus =>
    have other := (sound.inv.links.activates teid indirect there s.mainTeid callback).1
    obtain ⟨tunnels, result, stored, kept, inv'⟩ := activate indirect teid _ there servesToo
    rw [ofTeid]
    dsimp only
    refine ⟨{ s with g := { s.g with tunnels, sdus := s.g.sdus ++ indirect.flushed } }, by rw [result, ofTeid]; rfl, inv',
      sound.small, ?_⟩
    refine .flushed main indirect.activated teid ((kept _ other).trans found) serves ofTeid small stored
      servesToo.activated callback direct ?_
    show s.g.sdus ++ indirect.flushed = before ++ (s.bufferedIndirect.insertionSort lowerSn ++ s.directIndirect).map
      (WriteSdu.ofRx rnti eps)
    rw [sdus, servesToo.flushed_eq]
    simp
  | switched main teid found serves ofTeid small gone =>
    have absent : s.g.tunnels.contains teid = false := CircularMap.contains_eq_false.mpr gone
    rw [ofTeid]
    dsimp only
    rw [Gtpu.step, Gtpu.setTunnelStatus, absent]
    exact ⟨s, by rw [← ofTeid]; rfl, sound⟩

theorem sound_remove {teid : Nat} (ofTeid : s.indirectTeid = some teid)
    (empty : s.held teid = []) (event : GtpuEvent) (kept : s.g.Kept event)
    (acts : ∀ tun, s.g.pool teid = some tun → tun.Open → teid < 2 ^ 32 → s.g.step sendto event = .ok s.g ∨
      s.g.step sendto event = removeTunnel maxDepth s.g teid)
    (rests : s.g.pool teid = none → teid < 2 ^ 32 → s.g.step sendto event = .ok s.g) :
    ∃ s', (s.g.step sendto event).map (fun g => { s with g, indirectTeid := some teid }) = .ok s' ∧
      Sound before rnti eps s' := by
  have unchanged : s.g.step sendto event = .ok s.g →
      ∃ s', (s.g.step sendto event).map (fun g => { s with g, indirectTeid := some teid }) = .ok s' ∧
        Sound before rnti eps s' := by
    intro result
    exact ⟨s, by rw [result, ← ofTeid]; rfl, sound⟩
  cases sound.phase with
  | alone main found serves noIndirect =>
    rw [noIndirect] at ofTeid
    contradiction
  | waiting main indirect teid' found serves ofTeid' small there servesToo callback direct sdus =>
    obtain rfl := Option.some.inj (ofTeid'.symm.trans ofTeid)
    rw [held_eq there servesToo, getD_some] at empty
    rcases acts indirect there servesToo.open_ small with result | result
    · exact unchanged result
    · obtain ⟨g', removed, phase⟩ := switch sound.inv found serves ofTeid' small there
        callback direct.1 (by rw [empty, direct.2]; simpa using sdus)
      refine ⟨{ s with g := g' }, by rw [result, removed, ← ofTeid']; rfl, ?_, sound.small, phase⟩
      exact inv_of_step sendto sound.inv kept (result.trans removed)
  | flushed main indirect teid' found serves ofTeid' small there servesToo callback direct sdus =>
    obtain rfl := Option.some.inj (ofTeid'.symm.trans ofTeid)
    rcases acts indirect there servesToo.open_ small with result | result
    · exact unchanged result
    · obtain ⟨g', removed, phase⟩ := switch sound.inv found serves ofTeid' small there callback direct sdus
      refine ⟨{ s with g := g' }, by rw [result, removed, ← ofTeid']; rfl, ?_, sound.small, phase⟩
      exact inv_of_step sendto sound.inv kept (result.trans removed)
  | switched main teid' found serves ofTeid' small gone =>
    obtain rfl := Option.some.inj (ofTeid'.symm.trans ofTeid)
    exact unchanged (rests gone small)

theorem sound_step (event : HandoverEvent) (kept : s.Kept event) :
    ∃ s', s.step sendto rnti eps event = .ok s' ∧ Sound before rnti eps s' := by
  cases event with
  | addIndirect addr out => exact sound_addIndirect sendto sound addr out kept
  | mainData pdcpSn pdu => exact sound_mainData sendto sound pdcpSn pdu kept
  | indirectData pdcpSn pdu => exact sound_indirectData sendto sound pdcpSn pdu kept
  | activateIndirect => exact sound_activateIndirect sendto sound
  | endMarker =>
    rw [step]
    cases ofTeid : s.indirectTeid with
    | none => exact ⟨s, rfl, sound⟩
    | some teid =>
      dsimp only
      split
      · exact ⟨s, rfl, sound⟩
      · rename_i bytes written
        apply sound_remove sendto sound ofTeid (kept teid ofTeid) (.rxPacket bytes) trivial
        · intro tun found opened small
          exact .inr (endMarker_eq sendto sound.inv found opened small written)
        · intro gone small
          obtain ⟨header, read, type, same⟩ := gtpuReadHeader_endMarker small written
          have absent : s.g.tunnels.find teid = none := gone
          rw [Gtpu.step, handleGtpuS1uRxPacket, read]
          simp only [type, same, absent]
          rw [if_neg (by decide)]
  | rxTimeout =>
    rw [step]
    cases ofTeid : s.indirectTeid with
    | none => exact ⟨s, rfl, sound⟩
    | some teid =>
      apply sound_remove sendto sound ofTeid (kept teid ofTeid) (.rxTimeout teid) trivial
      · intro tun found _ _
        have source : s.g.tunnels.find teid = some tun := found
        rw [Gtpu.step, Gtpu.rxTimeout, source]
        dsimp only
        split
        · exact .inr rfl
        · exact .inl rfl
      · intro gone _
        have absent : s.g.tunnels.find teid = none := gone
        rw [Gtpu.step, Gtpu.rxTimeout, absent]

end

end Run

def oneBearer : Handover where
  g := (addTunnel { indirectTunnelTimeoutMsec := 0 } 70 5 101 1).1
  mainTeid := 1

end Handover

end IsrRan.Upper
