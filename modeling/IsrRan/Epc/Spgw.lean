import IsrRan.Common.Memory

namespace IsrRan.Epc
open Function

/-! ## `std::map`, without its order -/

abbrev Table (α : Type) := Nat → Option α

namespace Table
variable {α : Type}

def assign (table : Table α) (key : Nat) (value : α) : Table α := update table key (some value)

def erase (table : Table α) (key : Nat) : Table α := update table key none

def insert (table : Table α) (key : Nat) (value : α) : Table α :=
  if (table key).isSome then table else table.assign key value

variable {table : Table α} {key other : Nat} {value : α}

@[simp] theorem assign_self (table : Table α) (key : Nat) (value : α) : table.assign key value key = some value :=
  update_self ..

theorem assign_of_ne (ne : other ≠ key) :
    table.assign key value other = table other :=
  update_of_ne ne _ _

@[simp] theorem erase_self (table : Table α) (key : Nat) : table.erase key key = none := update_self ..

theorem erase_of_ne (ne : other ≠ key) : table.erase key other = table other :=
  update_of_ne ne _ _

theorem erase_eq_some :
    table.erase key other = some value ↔ other ≠ key ∧ table other = some value := by
  by_cases same : other = key
  · subst same
    simp
  · rw [erase_of_ne same]
    exact ⟨fun found => ⟨same, found⟩, fun h => h.2⟩

theorem assign_eq_some {value' : α} :
    table.assign key value other = some value' ↔
      other = key ∧ value = value' ∨ other ≠ key ∧ table other = some value' := by
  by_cases same : other = key
  · subst same
    simp
  · rw [assign_of_ne same]
    simp [same]

theorem insert_of_none (free : table key = none) :
    table.insert key value = table.assign key value := by
  unfold insert
  rw [free]
  rfl

theorem insert_of_some {value' : α} (taken : table key = some value') :
    table.insert key value = table := by
  unfold insert
  rw [taken]
  rfl

end Table

/-! ## State -/

structure Fteid where
  ipv4 : Nat
  teid : Nat
  deriving DecidableEq, Repr

abbrev Packet := List Byte

structure TunnelCtx where
  imsi : Nat
  ebi : Nat
  upCtrlTeid : Nat
  upUserTeid : Nat
  dwCtrlFteid : Fteid
  dwUserFteid : Fteid
  ueIpv4 : Nat
  pagingPending : Bool
  pagingQueue : List Packet
  deriving DecidableEq, Repr

structure Spgw where
  nextCtrlTeid : Nat
  nextUserTeid : Nat
  maxPagingQueue : Nat
  imsiToCtrTeid : Table Nat
  teidToTunnelCtx : Table TunnelCtx
  ueIpAddrPool : List Nat
  imsiToIp : Table Nat
  ipToUsrTeid : Table Fteid
  ipToCtrTeid : Table Nat

inductive Output where
  | createSessionResponse (mmeTeid ctrlTeid userTeid ueIpv4 : Nat)
  | modifyBearerResponse (mmeTeid ebi : Nat)
  | downlinkDataNotification (mmeTeid : Nat)
  | s1u (enbFteid : Fteid) (packet : Packet)
  deriving DecidableEq, Repr

namespace Spgw

/-! ## `gtpu.cc`: tunnel management -/

def modifyGtpuTunnel (s : Spgw) (ueIpv4 : Nat) (dwUserFteid : Fteid) (upCtrlTeid : Nat) : Spgw :=
  { s with
    ipToUsrTeid := s.ipToUsrTeid.assign ueIpv4 dwUserFteid
    ipToCtrTeid := s.ipToCtrTeid.assign ueIpv4 upCtrlTeid }

def deleteGtpuTunnel (s : Spgw) (ueIpv4 : Nat) : Spgw := { s with ipToUsrTeid := s.ipToUsrTeid.erase ueIpv4 }

def deleteGtpcTunnel (s : Spgw) (ueIpv4 : Nat) : Spgw := { s with ipToCtrTeid := s.ipToCtrTeid.erase ueIpv4 }

def sendAllQueuedPackets (dwUserFteid : Fteid) (queue : List Packet) : List Output :=
  queue.map (.s1u dwUserFteid)

/-! ## `gtpc.cc`: contexts and queues -/

def setCtx (s : Spgw) (ctrlTeid : Nat) (ctx : TunnelCtx) : Spgw :=
  { s with teidToTunnelCtx := s.teidToTunnelCtx.assign ctrlTeid ctx }

def getNewUeIpv4 (s : Spgw) (imsi : Nat) : Nat × Spgw :=
  match s.imsiToIp imsi, s.ueIpAddrPool with
  | some ueAddr, _ => (ueAddr, s)
  | none, [] => (0, s)
  | none, ueAddr :: pool => (ueAddr, { s with ueIpAddrPool := pool })

def createGtpcCtx (s : Spgw) (imsi : Nat) (sender : Fteid) : TunnelCtx × Spgw :=
  let ctrlTeid := s.nextCtrlTeid % 4294967296
  let userTeid := s.nextUserTeid % 4294967296
  let ueIp := s.getNewUeIpv4 imsi
  let ctx : TunnelCtx := ⟨imsi, 5, ctrlTeid, userTeid, sender, ⟨0, 0⟩, ueIp.1, false, []⟩
  (ctx, { ueIp.2 with
    nextCtrlTeid := (s.nextCtrlTeid + 1) % 18446744073709551616
    nextUserTeid := (s.nextUserTeid + 1) % 18446744073709551616
    teidToTunnelCtx := s.teidToTunnelCtx.insert ctrlTeid ctx
    imsiToCtrTeid := s.imsiToCtrTeid.insert imsi ctrlTeid })

def deleteGtpcCtx (s : Spgw) (ctrlTeid : Nat) : Spgw :=
  match s.teidToTunnelCtx ctrlTeid with
  | none => s
  | some ctx => { s.deleteGtpcTunnel ctx.ueIpv4 with
      imsiToCtrTeid := s.imsiToCtrTeid.erase ctx.imsi
      teidToTunnelCtx := s.teidToTunnelCtx.erase ctrlTeid }

def queueDownlinkPacket (s : Spgw) (ctrlTeid : Nat) (packet : Packet) : Bool × Spgw :=
  match s.teidToTunnelCtx ctrlTeid with
  | none => (false, s)
  | some ctx =>
    if !ctx.pagingPending then (false, s)
    else if ctx.pagingQueue.length < s.maxPagingQueue then
      (true, s.setCtx ctrlTeid { ctx with pagingQueue := ctx.pagingQueue ++ [packet] })
    else (false, s)

def stopPaging (ctx : TunnelCtx) : TunnelCtx := { ctx with pagingPending := false, pagingQueue := [] }

def sendDownlinkDataNotification (s : Spgw) (ctrlTeid : Nat) : Spgw × List Output :=
  match s.teidToTunnelCtx ctrlTeid with
  | none => (s, [])
  | some ctx =>
    if ctx.pagingPending then (s, [])
    else (s.setCtx ctrlTeid { ctx with pagingPending := true }, [.downlinkDataNotification ctx.dwCtrlFteid.teid])

/-! ## `gtpc.cc`: messages of the MME -/

def deletePrevious (s : Spgw) (imsi : Nat) : Spgw :=
  match s.imsiToCtrTeid imsi with
  | none => s
  | some ctrlTeid => s.deleteGtpcCtx ctrlTeid

def handleCreateSessionRequest (s : Spgw) (imsi : Nat) (sender : Fteid) : Spgw × List Output :=
  let created := (s.deletePrevious imsi).createGtpcCtx imsi sender
  (created.2, [.createSessionResponse created.1.dwCtrlFteid.teid created.1.upCtrlTeid created.1.upUserTeid
    created.1.ueIpv4])

def handleModifyBearerRequest (s : Spgw) (ctrlTeid : Nat) (enbFteid : Fteid) : Spgw × List Output :=
  match s.teidToTunnelCtx ctrlTeid with
  | none => (s, [])
  | some ctx =>
    let ctx := { ctx with dwUserFteid := enbFteid }
    let s := s.modifyGtpuTunnel ctx.ueIpv4 enbFteid ctx.upCtrlTeid
    let response := [Output.modifyBearerResponse ctx.dwCtrlFteid.teid ctx.ebi]
    if ctx.pagingPending then
      (s.setCtx ctrlTeid (stopPaging ctx), sendAllQueuedPackets enbFteid ctx.pagingQueue ++ response)
    else (s.setCtx ctrlTeid ctx, response)

def handleDeleteSessionRequest (s : Spgw) (ctrlTeid : Nat) : Spgw × List Output :=
  match s.teidToTunnelCtx ctrlTeid with
  | none => (s, [])
  | some ctx => ((s.deleteGtpuTunnel ctx.ueIpv4).deleteGtpcCtx ctrlTeid, [])

def handleReleaseAccessBearersRequest (s : Spgw) (ctrlTeid : Nat) : Spgw × List Output :=
  match s.teidToTunnelCtx ctrlTeid with
  | none => (s, [])
  | some ctx => (s.deleteGtpuTunnel ctx.ueIpv4, [])

/-! `GTPC_CAUSE_VALUE_*` -/

abbrev causeRequestAccepted : Nat := 16
abbrev causeContextNotFound : Nat := 64
abbrev causeUnableToPageUe : Nat := 90
abbrev causeUnableToPageUeDueToSuspension : Nat := 102
abbrev causeUeAlreadyReAttached : Nat := 115

def handleDownlinkDataNotificationAcknowledge (s : Spgw) (ctrlTeid cause : Nat) : Spgw × List Output :=
  match s.teidToTunnelCtx ctrlTeid with
  | none => (s, [])
  | some ctx =>
    if cause = causeContextNotFound ∨ cause = causeUeAlreadyReAttached ∨ cause = causeUnableToPageUe ∨
        cause = causeUnableToPageUeDueToSuspension then (s.setCtx ctrlTeid (stopPaging ctx), [])
    else if cause ≠ causeRequestAccepted then (s.setCtx ctrlTeid (stopPaging ctx), [])
    else (s, [])

def handleDownlinkDataNotificationFailureIndication (s : Spgw) (ctrlTeid : Nat) : Spgw × List Output :=
  match s.teidToTunnelCtx ctrlTeid with
  | none => (s, [])
  | some ctx => (s.setCtx ctrlTeid (stopPaging ctx), [])

/-! ## `gtpu.cc`: packets from the SGi interface -/

def ipVersion (packet : Packet) : Nat := byteAt packet 0 / 16

def ipTotLen (packet : Packet) : Nat := byteAt packet 2 * 256 + byteAt packet 3

/-- The destination address as it is compared, a `uint32_t` in network order. -/
def ipDaddr (packet : Packet) : Nat :=
  byteAt packet 16 + byteAt packet 17 * 256 + byteAt packet 18 * 65536 + byteAt packet 19 * 16777216

def handleSgiPdu (s : Spgw) (packet : Packet) : Spgw × List Output :=
  if ipVersion packet ≠ 4 then (s, [])
  else if ipTotLen packet < 20 then (s, [])
  else
    match s.ipToUsrTeid (ipDaddr packet), s.ipToCtrTeid (ipDaddr packet) with
    | none, none => (s, [])
    | none, some spgwTeid =>
      let notified := s.sendDownlinkDataNotification spgwTeid
      ((notified.1.queueDownlinkPacket spgwTeid packet).2, notified.2)
    | some _, none => (s, [])
    | some enbFteid, some _ => (s, [.s1u enbFteid packet])

/-! ## Runs -/

inductive Event where
  | createSession (imsi : Nat) (sender : Fteid)
  | modifyBearer (ctrlTeid : Nat) (enbFteid : Fteid)
  | deleteSession (ctrlTeid : Nat)
  | releaseAccessBearers (ctrlTeid : Nat)
  | notificationAcknowledge (ctrlTeid cause : Nat)
  | notificationFailure (ctrlTeid cause : Nat)
  | sgiPdu (packet : Packet)
  deriving DecidableEq, Repr

def handle (s : Spgw) : Event → Spgw × List Output
  | .createSession imsi sender => s.handleCreateSessionRequest imsi sender
  | .modifyBearer ctrlTeid enbFteid => s.handleModifyBearerRequest ctrlTeid enbFteid
  | .deleteSession ctrlTeid => s.handleDeleteSessionRequest ctrlTeid
  | .releaseAccessBearers ctrlTeid => s.handleReleaseAccessBearersRequest ctrlTeid
  | .notificationAcknowledge ctrlTeid cause => s.handleDownlinkDataNotificationAcknowledge ctrlTeid cause
  | .notificationFailure ctrlTeid _ => s.handleDownlinkDataNotificationFailureIndication ctrlTeid
  | .sgiPdu packet => s.handleSgiPdu packet

def run (s : Spgw) (events : List Event) : Spgw := events.foldl (fun s event => (s.handle event).1) s

theorem run_concat (s : Spgw) (events : List Event) (event : Event) :
    s.run (events ++ [event]) = ((s.run events).handle event).1 := by
  unfold run
  rw [List.foldl_append]
  rfl

/-! ## What an event does -/

section
variable {s : Spgw} {ctrlTeid : Nat} {ctx : TunnelCtx}

theorem setCtx_eq_some {ctx' ctx'' : TunnelCtx} {teid : Nat} :
    (s.setCtx ctrlTeid ctx').teidToTunnelCtx teid = some ctx'' ↔
      teid = ctrlTeid ∧ ctx' = ctx'' ∨ teid ≠ ctrlTeid ∧ s.teidToTunnelCtx teid = some ctx'' :=
  Table.assign_eq_some

theorem setCtx_self (found : s.teidToTunnelCtx ctrlTeid = some ctx) : s.setCtx ctrlTeid ctx = s := by
  unfold setCtx Table.assign
  rw [← found, update_eq_self]

theorem setCtx_setCtx (ctx' ctx'' : TunnelCtx) :
    (s.setCtx ctrlTeid ctx').setCtx ctrlTeid ctx'' = s.setCtx ctrlTeid ctx'' := by
  unfold setCtx Table.assign
  rw [update_idem]

theorem deleteGtpcCtx_of_some (found : s.teidToTunnelCtx ctrlTeid = some ctx) :
    s.deleteGtpcCtx ctrlTeid = { s with
      ipToCtrTeid := s.ipToCtrTeid.erase ctx.ueIpv4
      imsiToCtrTeid := s.imsiToCtrTeid.erase ctx.imsi
      teidToTunnelCtx := s.teidToTunnelCtx.erase ctrlTeid } := by
  unfold deleteGtpcCtx
  rw [found]
  rfl

theorem deletePrevious_of_some {imsi : Nat} (session : s.imsiToCtrTeid imsi = some ctrlTeid) :
    s.deletePrevious imsi = s.deleteGtpcCtx ctrlTeid := by
  unfold deletePrevious
  rw [session]

def paged (s : Spgw) (ctx : TunnelCtx) (packet : Packet) : TunnelCtx :=
  { ctx with
    pagingPending := true
    pagingQueue :=
      if ctx.pagingQueue.length < s.maxPagingQueue then ctx.pagingQueue ++ [packet] else ctx.pagingQueue }

theorem notifyAndQueue_eq (found : s.teidToTunnelCtx ctrlTeid = some ctx) (packet : Packet) :
    (((s.sendDownlinkDataNotification ctrlTeid).1.queueDownlinkPacket ctrlTeid packet).2,
        (s.sendDownlinkDataNotification ctrlTeid).2) =
      (s.setCtx ctrlTeid (s.paged ctx packet),
        if ctx.pagingPending then [] else [.downlinkDataNotification ctx.dwCtrlFteid.teid]) := by
  unfold sendDownlinkDataNotification paged
  rw [found]
  dsimp only
  by_cases room : ctx.pagingQueue.length < s.maxPagingQueue
  · rw [if_pos room]
    cases pending : ctx.pagingPending with
    | true =>
      rw [if_pos rfl, if_pos rfl]
      unfold queueDownlinkPacket
      rw [found]
      dsimp only
      rw [pending, if_neg (by decide), if_pos room]
    | false =>
      rw [if_neg (by decide), if_neg (by decide)]
      unfold queueDownlinkPacket
      rw [show (s.setCtx ctrlTeid { ctx with pagingPending := true }).teidToTunnelCtx ctrlTeid =
        some { ctx with pagingPending := true } from Table.assign_self ..]
      dsimp only
      rw [if_neg (by decide), if_pos (by exact room)]
      rw [setCtx_setCtx]
  · rw [if_neg room]
    cases pending : ctx.pagingPending with
    | true =>
      have same : { ctx with pagingPending := true, pagingQueue := ctx.pagingQueue } = ctx := by rw [← pending]
      rw [if_pos rfl, if_pos rfl, same, setCtx_self found]
      unfold queueDownlinkPacket
      rw [found]
      dsimp only
      rw [pending, if_neg (by decide), if_neg room]
    | false =>
      rw [if_neg (by decide), if_neg (by decide)]
      unfold queueDownlinkPacket
      rw [show (s.setCtx ctrlTeid { ctx with pagingPending := true }).teidToTunnelCtx ctrlTeid =
        some { ctx with pagingPending := true } from Table.assign_self ..]
      dsimp only
      rw [if_neg (by decide), if_neg (by exact room)]

theorem notifyAndQueue_accepts (found : s.teidToTunnelCtx ctrlTeid = some ctx) (packet : Packet) :
    ((s.sendDownlinkDataNotification ctrlTeid).1.queueDownlinkPacket ctrlTeid packet).1 =
      decide (ctx.pagingQueue.length < s.maxPagingQueue) := by
  have known : ∃ ctx', (s.sendDownlinkDataNotification ctrlTeid).1.teidToTunnelCtx ctrlTeid = some ctx' ∧
      ctx'.pagingPending = true ∧ ctx'.pagingQueue = ctx.pagingQueue ∧
        (s.sendDownlinkDataNotification ctrlTeid).1.maxPagingQueue = s.maxPagingQueue := by
    unfold sendDownlinkDataNotification
    rw [found]
    dsimp only
    cases pending : ctx.pagingPending with
    | true =>
      exact ⟨ctx, found, pending, rfl, rfl⟩
    | false =>
      exact ⟨{ ctx with pagingPending := true }, Table.assign_self .., rfl, rfl, rfl⟩
  obtain ⟨ctx', found', pending, queue, limit⟩ := known
  unfold queueDownlinkPacket
  rw [found']
  dsimp only
  rw [pending, queue, limit, if_neg (by decide)]
  by_cases room : ctx.pagingQueue.length < s.maxPagingQueue
  · rw [if_pos room, decide_eq_true room]
  · rw [if_neg room, decide_eq_false room]

theorem handleSgiPdu_cases (s : Spgw) (packet : Packet) :
    s.handleSgiPdu packet = (s, []) ∨
      (∃ fteid teid, s.ipToUsrTeid (ipDaddr packet) = some fteid ∧ s.ipToCtrTeid (ipDaddr packet) = some teid ∧
        s.handleSgiPdu packet = (s, [.s1u fteid packet])) ∨
      ∃ teid ctx, s.ipToUsrTeid (ipDaddr packet) = none ∧ s.ipToCtrTeid (ipDaddr packet) = some teid ∧
        s.teidToTunnelCtx teid = some ctx ∧
        s.handleSgiPdu packet = (s.setCtx teid (s.paged ctx packet),
          if ctx.pagingPending then [] else [.downlinkDataNotification ctx.dwCtrlFteid.teid]) := by
  unfold handleSgiPdu
  by_cases version : ipVersion packet ≠ 4
  · exact Or.inl (if_pos version)
  rw [if_neg version]
  by_cases short : ipTotLen packet < 20
  · exact Or.inl (if_pos short)
  rw [if_neg short]
  cases user : s.ipToUsrTeid (ipDaddr packet) with
  | none =>
    cases control : s.ipToCtrTeid (ipDaddr packet) with
    | none => exact Or.inl rfl
    | some teid =>
      cases found : s.teidToTunnelCtx teid with
      | none =>
        refine Or.inl ?_
        unfold sendDownlinkDataNotification queueDownlinkPacket
        dsimp only
        rw [found]
        rw [found]
      | some ctx => exact Or.inr (Or.inr ⟨teid, ctx, rfl, rfl, found, notifyAndQueue_eq found packet⟩)
  | some fteid =>
    cases control : s.ipToCtrTeid (ipDaddr packet) with
    | none => exact Or.inl rfl
    | some teid => exact Or.inr (Or.inl ⟨fteid, teid, rfl, rfl, rfl⟩)

end

end Spgw

structure AddressPlan where
  static : Table Nat
  pool : List Nat
  oneEach : ∀ imsi imsi' addr, static imsi = some addr → static imsi' = some addr → imsi = imsi'
  disjoint : ∀ imsi addr, static imsi = some addr → addr ∉ pool
  nodup : pool.Nodup
  static_ne_zero : ∀ imsi addr, static imsi = some addr → addr ≠ 0
  pool_ne_zero : ∀ addr ∈ pool, addr ≠ 0

def AddressPlan.ofPool (pool : List Nat) (nodup : pool.Nodup) (pool_ne_zero : ∀ addr ∈ pool, addr ≠ 0) :
    AddressPlan where
  static := fun _ => none
  pool
  oneEach := by simp
  disjoint := by simp
  nodup
  static_ne_zero := by simp
  pool_ne_zero

def start (plan : AddressPlan) (maxPagingQueue : Nat) : Spgw :=
  { nextCtrlTeid := 1, nextUserTeid := 1, maxPagingQueue, imsiToCtrTeid := fun _ => none,
    teidToTunnelCtx := fun _ => none, ueIpAddrPool := plan.pool, imsiToIp := plan.static,
    ipToUsrTeid := fun _ => none, ipToCtrTeid := fun _ => none }

end IsrRan.Epc
