import Mathlib.Data.List.Induction
import IsrRan.Epc.Spgw
import IsrRan.Lib.Transition

namespace IsrRan.Epc
open Lib List Spgw Table

/-- Per control TEID: the packets that were accepted for the session and not sent or dropped since, in the
order of their arrival, the numbers of the notifications that are outstanding, and how many were sent. -/
structure Ledger where
  waiting : Nat → List Packet
  outstanding : Nat → List Nat
  sent : Nat → Nat

/-- What arrives, for an acknowledgement with the number of the notification that it answers. The code does not look at
the number. -/
structure Arrival where
  event : Spgw.Event
  answers : Nat := 0

namespace Spgw

def refuses : Event → Option Nat
  | .notificationAcknowledge ctrlTeid cause => if cause = causeRequestAccepted then none else some ctrlTeid
  | _ => none

def settles (s : Spgw) : Event → Nat → Bool
  | .createSession imsi _, teid => s.imsiToCtrTeid imsi = some teid
  | .modifyBearer ctrlTeid _, teid => ctrlTeid = teid
  | .deleteSession ctrlTeid, teid => ctrlTeid = teid
  | .notificationFailure ctrlTeid _, teid => ctrlTeid = teid
  | .releaseAccessBearers _, _ | .notificationAcknowledge _ _, _ | .sgiPdu _, _ => false

def pagingTarget (s : Spgw) (packet : Packet) : Option Nat :=
  if ipVersion packet ≠ 4 then none
  else if ipTotLen packet < 20 then none
  else
    match s.ipToUsrTeid (ipDaddr packet), s.ipToCtrTeid (ipDaddr packet) with
    | none, some teid => some teid
    | _, _ => none

def accepted (s : Spgw) : Event → Nat → List Packet
  | .sgiPdu packet, teid =>
    if s.pagingTarget packet = some teid then
      if ((s.sendDownlinkDataNotification teid).1.queueDownlinkPacket teid packet).1 then [packet] else []
    else []
  | _, _ => []

def notifications (s : Spgw) : Event → Nat → Nat
  | .sgiPdu packet, teid =>
    if s.pagingTarget packet = some teid then (s.sendDownlinkDataNotification teid).2.length else 0
  | _, _ => 0

end Spgw

namespace Ledger
variable (l : Ledger)

/-- A refusing acknowledgement settles the notification that it answers, if that is outstanding. -/
def settled (s : Spgw) (a : Arrival) (teid : Nat) : Bool :=
  s.settles a.event teid || (refuses a.event = some teid && (l.outstanding teid).contains a.answers)

def record (s : Spgw) (a : Arrival) : Ledger where
  waiting teid := (if l.settled s a teid then [] else l.waiting teid) ++ s.accepted a.event teid
  outstanding teid := (if l.settled s a teid then [] else l.outstanding teid) ++
    range' (l.sent teid) (s.notifications a.event teid)
  sent teid := l.sent teid + s.notifications a.event teid

/-- No refusing acknowledgement comes for an earlier notification of the session than the one that is outstanding. -/
def inTime (a : Arrival) : Bool :=
  match refuses a.event with
  | some teid => (l.outstanding teid).isEmpty || (l.outstanding teid).contains a.answers
  | none => true

end Ledger

abbrev Paging := Spgw × Ledger

namespace Paging

def start (plan : AddressPlan) (maxPagingQueue : Nat) : Paging :=
  (IsrRan.Epc.start plan maxPagingQueue, ⟨fun _ => [], fun _ => [], fun _ => 0⟩)

def step (x : Paging) (a : Arrival) : Option Paging := some ((x.1.handle a.event).1, x.2.record x.1 a)

end Paging

def sentToEnbs (outputs : List Output) : List (Fteid × Packet) :=
  outputs.filterMap fun
    | .s1u fteid packet => some (fteid, packet)
    | _ => none

/-- The packets that wait for a session are sent, all of them and in order, by a modify bearer request and by
nothing else; a packet is forwarded at once only when none wait for the session that it is for. -/
def Delivers (s : Spgw) (l : Ledger) : Spgw.Event → List Output → Prop
  | .modifyBearer teid fteid, outputs =>
    sentToEnbs outputs = (l.waiting teid).map fun packet => (fteid, packet)
  | .sgiPdu packet, outputs =>
    sentToEnbs outputs = [] ∨
      ∃ fteid teid, sentToEnbs outputs = [(fteid, packet)] ∧ s.ipToCtrTeid (ipDaddr packet) = some teid ∧
        l.waiting teid = [] ∧ ∀ teid, s.accepted (.sgiPdu packet) teid = []
  | _, outputs => sentToEnbs outputs = []

structure Served (s : Spgw) (l : Ledger) : Prop where
  gone : ∀ teid, s.teidToTunnelCtx teid = none → l.waiting teid = [] ∧ l.outstanding teid = []
  queue : ∀ teid ctx, s.teidToTunnelCtx teid = some ctx → ctx.pagingQueue = l.waiting teid
  pending : ∀ teid ctx, s.teidToTunnelCtx teid = some ctx →
    (l.outstanding teid).length = if ctx.pagingPending then 1 else 0
  idle : ∀ teid ctx, s.teidToTunnelCtx teid = some ctx → ctx.pagingPending = false → ctx.pagingQueue = []
  teids : ∀ teid ctx, s.teidToTunnelCtx teid = some ctx → ctx.upCtrlTeid = teid
  control : ∀ addr teid, s.ipToCtrTeid addr = some teid →
    ∃ ctx, s.teidToTunnelCtx teid = some ctx ∧ ctx.ueIpv4 = addr
  connected : ∀ addr fteid teid ctx, s.ipToUsrTeid addr = some fteid → s.ipToCtrTeid addr = some teid →
    s.teidToTunnelCtx teid = some ctx → ctx.pagingQueue = []

section
variable {s : Spgw} {l l' : Ledger} {teid : Nat} {ctx ctx' : TunnelCtx}

namespace Served

def SameBut (teid : Nat) (l l' : Ledger) : Prop :=
  ∀ t, t ≠ teid → l'.waiting t = l.waiting t ∧ l'.outstanding t = l.outstanding t

section
variable (h : Served s l)
include h

theorem setCtx (found : s.teidToTunnelCtx teid = some ctx)
    (upCtrlTeid : ctx'.upCtrlTeid = ctx.upCtrlTeid) (ueIpv4 : ctx'.ueIpv4 = ctx.ueIpv4)
    (queue : ctx'.pagingQueue = l'.waiting teid)
    (pending : (l'.outstanding teid).length = if ctx'.pagingPending then 1 else 0)
    (idle : ctx'.pagingPending = false → ctx'.pagingQueue = [])
    (connected : ∀ fteid, s.ipToUsrTeid ctx.ueIpv4 = some fteid → s.ipToCtrTeid ctx.ueIpv4 = some teid →
      ctx'.pagingQueue = []) (others : SameBut teid l l') : Served (s.setCtx teid ctx') l' := by
  constructor
  case gone =>
    intro t absent
    have ne : t ≠ teid := by
      rintro rfl
      have there : (s.setCtx t ctx').teidToTunnelCtx t = some ctx' := assign_self ..
      exact absurd (absent.symm.trans there) (by simp)
    rw [(others t ne).1, (others t ne).2]
    exact h.gone t ((assign_of_ne ne).symm.trans absent)
  case queue =>
    intro t c known
    rcases Spgw.setCtx_eq_some.mp known with ⟨rfl, rfl⟩ | ⟨ne, known⟩
    · exact queue
    · rw [(others t ne).1]
      exact h.queue t c known
  case pending =>
    intro t c known
    rcases Spgw.setCtx_eq_some.mp known with ⟨rfl, rfl⟩ | ⟨ne, known⟩
    · exact pending
    · rw [(others t ne).2]
      exact h.pending t c known
  case idle =>
    intro t c known
    rcases Spgw.setCtx_eq_some.mp known with ⟨rfl, rfl⟩ | ⟨-, known⟩
    · exact idle
    · exact h.idle t c known
  case teids =>
    intro t c known
    rcases Spgw.setCtx_eq_some.mp known with ⟨rfl, rfl⟩ | ⟨-, known⟩
    · exact upCtrlTeid.trans (h.teids t ctx found)
    · exact h.teids t c known
  case control =>
    intro addr t entry
    obtain ⟨c, known, eq⟩ := h.control addr t entry
    by_cases this : t = teid
    · subst this
      rw [found] at known
      cases known
      exact ⟨ctx', assign_self .., ueIpv4.trans eq⟩
    · exact ⟨c, Spgw.setCtx_eq_some.mpr (Or.inr ⟨this, known⟩), eq⟩
  case connected =>
    intro addr fteid t c tunnel entry known
    rcases Spgw.setCtx_eq_some.mp known with ⟨rfl, rfl⟩ | ⟨-, known⟩
    · obtain ⟨c, there, eq⟩ := h.control addr t entry
      rw [found] at there
      cases there
      rw [← eq] at tunnel entry
      exact connected fteid tunnel entry
    · exact h.connected addr fteid t c tunnel entry known

theorem deleteGtpuTunnel (addr : Nat) : Served (s.deleteGtpuTunnel addr) l := by
  constructor
  case connected =>
    intro a fteid t c tunnel entry known
    exact h.connected a fteid t c (Table.erase_eq_some.mp tunnel).2 entry known
  case gone => exact h.gone
  case queue => exact h.queue
  case pending => exact h.pending
  case idle => exact h.idle
  case teids => exact h.teids
  case control => exact h.control

theorem absent (found : s.teidToTunnelCtx teid = none)
    (none_ : l'.waiting teid = [] ∧ l'.outstanding teid = []) (others : SameBut teid l l') : Served s l' := by
  have here := h.gone teid found
  have waiting : l'.waiting = l.waiting := by
    funext t
    by_cases this : t = teid
    · subst this
      exact none_.1.trans here.1.symm
    · exact (others t this).1
  have outstanding : l'.outstanding = l.outstanding := by
    funext t
    by_cases this : t = teid
    · subst this
      exact none_.2.trans here.2.symm
    · exact (others t this).2
  constructor
  case gone =>
    rw [waiting, outstanding]
    exact h.gone
  case queue =>
    rw [waiting]
    exact h.queue
  case pending =>
    rw [outstanding]
    exact h.pending
  case idle => exact h.idle
  case teids => exact h.teids
  case control => exact h.control
  case connected => exact h.connected

theorem deleteGtpcCtx (none_ : l'.waiting teid = [] ∧ l'.outstanding teid = [])
    (others : SameBut teid l l') : Served (s.deleteGtpcCtx teid) l' := by
  cases found : s.teidToTunnelCtx teid with
  | none =>
    unfold Spgw.deleteGtpcCtx
    rw [found]
    exact h.absent found none_ others
  | some ctx =>
    rw [deleteGtpcCtx_of_some found]
    have others' : ∀ {t c}, (s.teidToTunnelCtx.erase teid) t = some c ↔ t ≠ teid ∧ s.teidToTunnelCtx t = some c :=
      erase_eq_some
    constructor
    case gone =>
      intro t absent
      by_cases this : t = teid
      · subst this
        exact none_
      · rw [(others t this).1, (others t this).2]
        exact h.gone t ((erase_of_ne this).symm.trans absent)
    case queue =>
      intro t c known
      obtain ⟨ne, known⟩ := others'.mp known
      rw [(others t ne).1]
      exact h.queue t c known
    case pending =>
      intro t c known
      obtain ⟨ne, known⟩ := others'.mp known
      rw [(others t ne).2]
      exact h.pending t c known
    case idle => exact fun t c known => h.idle t c (others'.mp known).2
    case teids => exact fun t c known => h.teids t c (others'.mp known).2
    case control =>
      intro addr t entry
      obtain ⟨ne, entry⟩ := Table.erase_eq_some.mp entry
      obtain ⟨c, known, eq⟩ := h.control addr t entry
      refine ⟨c, others'.mpr ⟨?_, known⟩, eq⟩
      rintro rfl
      rw [found] at known
      cases known
      exact ne eq.symm
    case connected =>
      intro addr fteid t c tunnel entry known
      exact h.connected addr fteid t c tunnel (Table.erase_eq_some.mp entry).2 (others'.mp known).2

theorem connect (found : s.teidToTunnelCtx teid = some ctx) (empty : ctx.pagingQueue = [])
    (fteid : Fteid) : Served (s.modifyGtpuTunnel ctx.ueIpv4 fteid teid) l := by
  constructor
  case control =>
    intro addr t entry
    rcases Table.assign_eq_some.mp entry with ⟨rfl, rfl⟩ | ⟨-, entry⟩
    · exact ⟨ctx, found, rfl⟩
    · exact h.control addr t entry
  case connected =>
    intro addr fteid' t c tunnel entry known
    rcases Table.assign_eq_some.mp entry with ⟨rfl, rfl⟩ | ⟨ne, entry⟩
    · have same : some ctx = some c := found.symm.trans known
      cases same
      exact empty
    · exact h.connected addr fteid' t c ((assign_of_ne ne).symm.trans tunnel) entry known
  case gone => exact h.gone
  case queue => exact h.queue
  case pending => exact h.pending
  case idle => exact h.idle
  case teids => exact h.teids

theorem create (imsi : Nat) (sender : Fteid) : Served (s.createGtpcCtx imsi sender).2 l := by
  have tunnels : (s.createGtpcCtx imsi sender).2.ipToUsrTeid = s.ipToUsrTeid ∧
      (s.createGtpcCtx imsi sender).2.ipToCtrTeid = s.ipToCtrTeid := by
    unfold createGtpcCtx Spgw.getNewUeIpv4
    split <;> exact ⟨rfl, rfl⟩
  have new : (s.createGtpcCtx imsi sender).1.upCtrlTeid = s.nextCtrlTeid % 4294967296 ∧
      (s.createGtpcCtx imsi sender).1.pagingQueue = [] ∧
        (s.createGtpcCtx imsi sender).1.pagingPending = false := ⟨rfl, rfl, rfl⟩
  have table : (s.createGtpcCtx imsi sender).2.teidToTunnelCtx =
      s.teidToTunnelCtx.insert (s.nextCtrlTeid % 4294967296) (s.createGtpcCtx imsi sender).1 := rfl
  generalize s.nextCtrlTeid % 4294967296 = teid at new table
  obtain ⟨ownTeid, empty, quiet⟩ := new
  cases taken : s.teidToTunnelCtx teid with
  | some other =>
    rw [insert_of_some taken] at table
    constructor <;> rw [table]
    case gone => exact h.gone
    case queue => exact h.queue
    case pending => exact h.pending
    case idle => exact h.idle
    case teids => exact h.teids
    case control =>
      rw [tunnels.2]
      exact h.control
    case connected =>
      rw [tunnels.1, tunnels.2]
      exact h.connected
  | none =>
    rw [insert_of_none taken] at table
    have nothing := h.gone teid taken
    constructor <;> rw [table]
    case gone =>
      intro t absent
      by_cases this : t = teid
      · subst this
        exact nothing
      · exact h.gone t ((assign_of_ne this).symm.trans absent)
    case queue =>
      intro t c known
      rcases Table.assign_eq_some.mp known with ⟨rfl, rfl⟩ | ⟨-, known⟩
      · exact empty.trans nothing.1.symm
      · exact h.queue t c known
    case pending =>
      intro t c known
      rcases Table.assign_eq_some.mp known with ⟨rfl, rfl⟩ | ⟨-, known⟩
      · rw [quiet, nothing.2]
        rfl
      · exact h.pending t c known
    case idle =>
      intro t c known
      rcases Table.assign_eq_some.mp known with ⟨rfl, rfl⟩ | ⟨-, known⟩
      · exact fun _ => empty
      · exact h.idle t c known
    case teids =>
      intro t c known
      rcases Table.assign_eq_some.mp known with ⟨rfl, rfl⟩ | ⟨-, known⟩
      · exact ownTeid
      · exact h.teids t c known
    case control =>
      intro addr t entry
      rw [tunnels.2] at entry
      obtain ⟨c, known, eq⟩ := h.control addr t entry
      refine ⟨c, Table.assign_eq_some.mpr (Or.inr ⟨?_, known⟩), eq⟩
      rintro rfl
      exact absurd (taken.symm.trans known) (by simp)
    case connected =>
      intro addr fteid t c tunnel entry known
      rw [tunnels.1] at tunnel
      rw [tunnels.2] at entry
      rcases Table.assign_eq_some.mp known with ⟨rfl, rfl⟩ | ⟨-, known⟩
      · exact empty
      · exact h.connected addr fteid t c tunnel entry known

end

end Served

/-! ## Events -/

theorem record_settled {a : Arrival} (settled : ∀ t, l.settled s a t = decide (teid = t))
    (accepted : ∀ t, s.accepted a.event t = []) (notifications : ∀ t, s.notifications a.event t = 0) :
    ((l.record s a).waiting teid = [] ∧ (l.record s a).outstanding teid = []) ∧
      Served.SameBut teid l (l.record s a) := by
  unfold Ledger.record
  refine ⟨?_, ?_⟩
  · simp [settled, accepted, notifications]
  · intro t ne
    simp [settled, accepted, notifications, ne.symm]

theorem record_quiet {a : Arrival} (settled : ∀ t, l.settled s a t = false)
    (accepted : ∀ t, s.accepted a.event t = []) (notifications : ∀ t, s.notifications a.event t = 0) :
    l.record s a = l := by
  unfold Ledger.record
  simp [settled, accepted, notifications]

theorem settled_eq {a : Arrival} (answers : refuses a.event = none) : l.settled s a = s.settles a.event := by
  funext t
  simp [Ledger.settled, answers]

namespace Served

theorem stopPaging (h : Served s l) (found : s.teidToTunnelCtx teid = some ctx)
    (none_ : l'.waiting teid = [] ∧ l'.outstanding teid = []) (others : SameBut teid l l') :
    Served (s.setCtx teid (Spgw.stopPaging ctx)) l' :=
  h.setCtx found rfl rfl none_.1.symm (congrArg length none_.2) (fun _ => rfl) (fun _ _ _ => rfl) others

theorem modify (h : Served s l) (found : s.teidToTunnelCtx teid = some ctx) (fteid : Fteid)
    (upCtrlTeid : ctx'.upCtrlTeid = ctx.upCtrlTeid) (ueIpv4 : ctx'.ueIpv4 = ctx.ueIpv4)
    (empty : ctx'.pagingQueue = []) (quiet : ctx'.pagingPending = false)
    (none_ : l'.waiting teid = [] ∧ l'.outstanding teid = []) (others : SameBut teid l l') :
    Served ((s.modifyGtpuTunnel ctx.ueIpv4 fteid ctx.upCtrlTeid).setCtx teid ctx') l' := by
  have changed : Served (s.setCtx teid ctx') l' := by
    refine h.setCtx found upCtrlTeid ueIpv4 (empty.trans none_.1.symm) ?_ (fun _ => empty) (fun _ _ _ => empty) others
    rw [quiet, none_.2]
    rfl
  have known : (s.setCtx teid ctx').teidToTunnelCtx teid = some ctx' := assign_self ..
  have connected := changed.connect known empty fteid
  rw [ueIpv4] at connected
  rw [h.teids teid ctx found]
  exact connected

end Served

variable {packet : Packet}

theorem pagingTarget_eq_some (target : s.pagingTarget packet = some teid) :
    s.ipToUsrTeid (ipDaddr packet) = none ∧ s.ipToCtrTeid (ipDaddr packet) = some teid := by
  unfold pagingTarget at target
  split at target
  · cases target
  split at target
  · cases target
  split at target
  · rename_i user control
    cases target
    exact ⟨user, control⟩
  · cases target

theorem handleSgiPdu_of_target (target : s.pagingTarget packet = some teid) :
    s.handleSgiPdu packet =
      (((s.sendDownlinkDataNotification teid).1.queueDownlinkPacket teid packet).2,
        (s.sendDownlinkDataNotification teid).2) := by
  obtain ⟨user, control⟩ := pagingTarget_eq_some target
  unfold pagingTarget at target
  unfold handleSgiPdu
  split at target
  · cases target
  rename_i version
  split at target
  · cases target
  rename_i short
  rw [if_neg version, if_neg short, user, control]

theorem handleSgiPdu_of_no_target (target : s.pagingTarget packet = none) :
    s.handleSgiPdu packet = (s, []) ∨
      ∃ fteid teid, s.ipToUsrTeid (ipDaddr packet) = some fteid ∧
        s.ipToCtrTeid (ipDaddr packet) = some teid ∧ s.handleSgiPdu packet = (s, [.s1u fteid packet]) := by
  rcases s.handleSgiPdu_cases packet with same | forwarded | ⟨teid, ctx, user, control, found, queued⟩
  · exact Or.inl same
  · exact Or.inr forwarded
  · left
    unfold pagingTarget at target
    unfold handleSgiPdu
    split at target
    · rename_i version
      rw [if_pos version]
    · rename_i version
      split at target
      · rename_i short
        rw [if_neg version, if_pos short]
      · rw [user, control] at target
        cases target

theorem accepted_of_found (target : s.pagingTarget packet = some teid)
    (found : s.teidToTunnelCtx teid = some ctx) (t : Nat) :
    s.accepted (.sgiPdu packet) t =
        (if t = teid ∧ ctx.pagingQueue.length < s.maxPagingQueue then [packet] else []) ∧
      s.notifications (.sgiPdu packet) t = if t = teid ∧ ctx.pagingPending = false then 1 else 0 := by
  have sent := congrArg Prod.snd (notifyAndQueue_eq found packet)
  unfold Spgw.accepted notifications
  dsimp only
  rw [target]
  by_cases this : t = teid
  · subst this
    rw [notifyAndQueue_accepts found, sent]
    constructor
    · simp
    · cases ctx.pagingPending <;> simp
  · have other : some teid ≠ some t := fun eq => this (Option.some.inj eq).symm
    rw [if_neg other, if_neg other, if_neg fun both => this both.1, if_neg fun both => this both.1]
    exact ⟨rfl, rfl⟩

theorem Served.sgiPdu (h : Served s l) (packet : Packet) (answers : Nat) :
    Served (s.handleSgiPdu packet).1 (l.record s ⟨.sgiPdu packet, answers⟩) ∧
      Delivers s l (.sgiPdu packet) (s.handleSgiPdu packet).2 := by
  have settled : ∀ t, l.settled s ⟨.sgiPdu packet, answers⟩ t = false := fun _ => rfl
  cases target : s.pagingTarget packet with
  | none =>
    have accepted : ∀ t, s.accepted (.sgiPdu packet) t = [] := by
      intro t
      unfold Spgw.accepted
      dsimp only
      rw [target]
      rfl
    have notifications : ∀ t, s.notifications (.sgiPdu packet) t = 0 := by
      intro t
      unfold notifications
      dsimp only
      rw [target]
      rfl
    rw [record_quiet settled accepted notifications]
    rcases handleSgiPdu_of_no_target target with same | ⟨fteid, teid, user, control, forwarded⟩
    · rw [same]
      exact ⟨h, Or.inl rfl⟩
    · rw [forwarded]
      obtain ⟨ctx, found, -⟩ := h.control _ _ control
      have empty := h.connected _ fteid teid ctx user control found
      rw [h.queue teid ctx found] at empty
      exact ⟨h, Or.inr ⟨fteid, teid, rfl, control, empty, accepted⟩⟩
  | some teid =>
    obtain ⟨user, control⟩ := pagingTarget_eq_some target
    obtain ⟨ctx, found, address⟩ := h.control _ _ control
    have both := accepted_of_found target found
    rw [handleSgiPdu_of_target target, notifyAndQueue_eq found]
    refine ⟨?_, ?_⟩
    · refine h.setCtx found rfl rfl ?_ ?_ ?_ ?_ ?_
      · show (s.paged ctx packet).pagingQueue = l.waiting teid ++ s.accepted (.sgiPdu packet) teid
        rw [(both teid).1, ← h.queue teid ctx found]
        unfold paged
        by_cases room : ctx.pagingQueue.length < s.maxPagingQueue
        · rw [if_pos room, if_pos ⟨rfl, room⟩]
        · rw [if_neg room, if_neg fun p => room p.2, append_nil]
      · show (l.outstanding teid ++ range' (l.sent teid) (s.notifications (.sgiPdu packet) teid)).length = 1
        rw [length_append, length_range', (both teid).2, h.pending teid ctx found]
        cases ctx.pagingPending <;> simp
      · intro idle
        cases idle
      · intro fteid tunnel
        rw [address, user] at tunnel
        cases tunnel
      · intro t ne
        have none_ := both t
        rw [if_neg fun p => ne p.1, if_neg fun p => ne p.1] at none_
        refine ⟨?_, ?_⟩
        · show l.waiting t ++ s.accepted (.sgiPdu packet) t = l.waiting t
          rw [none_.1, append_nil]
        · show l.outstanding t ++ range' (l.sent t) (s.notifications (.sgiPdu packet) t) = l.outstanding t
          rw [none_.2, List.range'_zero, append_nil]
    · left
      cases ctx.pagingPending <;> rfl

theorem sentToEnbs_sendAllQueuedPackets (fteid : Fteid) (queue : List Packet) (rest : List Output) :
    sentToEnbs (sendAllQueuedPackets fteid queue ++ rest) =
      (queue.map fun packet => (fteid, packet)) ++ sentToEnbs rest := by
  induction queue with
  | nil => rfl
  | cons packet queue ih =>
    show (fteid, packet) :: sentToEnbs (sendAllQueuedPackets fteid queue ++ rest) = _
    rw [ih]
    rfl

section
variable (h : Served s l)
include h

theorem Served.modifyBearer (teid : Nat) (fteid : Fteid) (answers : Nat) :
    Served (s.handleModifyBearerRequest teid fteid).1 (l.record s ⟨.modifyBearer teid fteid, answers⟩) ∧
      Delivers s l (.modifyBearer teid fteid) (s.handleModifyBearerRequest teid fteid).2 := by
  obtain ⟨none_, others⟩ := @record_settled s l teid ⟨.modifyBearer teid fteid, answers⟩
    (fun t => by rw [settled_eq rfl]; rfl) (fun _ => rfl) (fun _ => rfl)
  unfold Delivers handleModifyBearerRequest
  cases found : s.teidToTunnelCtx teid with
  | none =>
    dsimp only
    rw [(h.gone teid found).1]
    exact ⟨h.absent found none_ others, rfl⟩
  | some ctx =>
    dsimp only
    rw [← h.queue teid ctx found]
    cases pending : ctx.pagingPending with
    | true =>
      rw [if_pos rfl]
      refine ⟨h.modify found fteid rfl rfl rfl rfl none_ others, ?_⟩
      rw [sentToEnbs_sendAllQueuedPackets]
      exact append_nil _
    | false =>
      have empty := h.idle teid ctx found pending
      refine ⟨h.modify found fteid rfl rfl empty rfl none_ others, ?_⟩
      rw [empty]
      rfl

theorem Served.acknowledge (teid cause answers : Nat)
    (inTime : l.inTime ⟨.notificationAcknowledge teid cause, answers⟩ = true) :
    Served (s.handleDownlinkDataNotificationAcknowledge teid cause).1
      (l.record s ⟨.notificationAcknowledge teid cause, answers⟩) := by
  unfold handleDownlinkDataNotificationAcknowledge
  by_cases accepted : cause = causeRequestAccepted
  · have refuses : refuses (.notificationAcknowledge teid cause) = none := if_pos accepted
    rw [record_quiet (fun t => by rw [settled_eq refuses]; rfl) (fun _ => rfl) (fun _ => rfl)]
    subst accepted
    cases s.teidToTunnelCtx teid with
    | none => exact h
    | some ctx => exact h
  · have refuses : refuses (.notificationAcknowledge teid cause) = some teid := if_neg accepted
    by_cases current : answers ∈ l.outstanding teid
    · have settled : ∀ t, l.settled s ⟨.notificationAcknowledge teid cause, answers⟩ t = decide (teid = t) := by
        intro t
        by_cases this : teid = t
        · subst this
          simpa [Ledger.settled, refuses] using .inr current
        · simp [Ledger.settled, refuses, this, settles]
      obtain ⟨none_, others⟩ := record_settled settled (fun _ => rfl) (fun _ => rfl)
      cases found : s.teidToTunnelCtx teid with
      | none => exact h.absent found none_ others
      | some ctx =>
        dsimp only
        rw [if_pos accepted, ite_self]
        exact h.stopPaging found none_ others
    · -- nothing is outstanding, so nothing waits that the code could drop
      have settled : ∀ t, l.settled s ⟨.notificationAcknowledge teid cause, answers⟩ t = false := by
        intro t
        by_cases this : teid = t
        · subst this
          simpa [Ledger.settled, refuses, settles] using current
        · simp [Ledger.settled, refuses, this, settles]
      have none_ : l.outstanding teid = [] := by
        unfold Ledger.inTime at inTime
        rw [refuses] at inTime
        simpa [current] using inTime
      rw [record_quiet settled (fun _ => rfl) (fun _ => rfl)]
      cases found : s.teidToTunnelCtx teid with
      | none => exact h
      | some ctx =>
        have length := h.pending teid ctx found
        rw [none_] at length
        have idle : ctx.pagingPending = false := by
          cases pending : ctx.pagingPending with
          | false => rfl
          | true => simp [pending] at length
        have same : Spgw.stopPaging ctx = ctx := by
          have empty := h.idle teid ctx found idle
          obtain ⟨⟩ := ctx
          dsimp only at idle empty
          rw [idle, empty]
          rfl
        dsimp only
        rw [if_pos accepted, ite_self, same, setCtx_self found]
        exact h

theorem Served.delivers (event : Spgw.Event) : Delivers s l event (s.handle event).2 := by
  cases event with
  | modifyBearer teid fteid => exact (h.modifyBearer teid fteid 0).2
  | sgiPdu packet => exact (h.sgiPdu packet 0).2
  | createSession imsi sender => rfl
  | deleteSession teid =>
    show sentToEnbs (s.handleDeleteSessionRequest teid).2 = []
    unfold handleDeleteSessionRequest
    split <;> rfl
  | releaseAccessBearers teid =>
    show sentToEnbs (s.handleReleaseAccessBearersRequest teid).2 = []
    unfold handleReleaseAccessBearersRequest
    split <;> rfl
  | notificationAcknowledge teid cause =>
    show sentToEnbs (s.handleDownlinkDataNotificationAcknowledge teid cause).2 = []
    unfold handleDownlinkDataNotificationAcknowledge
    split
    · rfl
    · split
      · rfl
      · split <;> rfl
  | notificationFailure teid cause =>
    show sentToEnbs (s.handleDownlinkDataNotificationFailureIndication teid).2 = []
    unfold handleDownlinkDataNotificationFailureIndication
    split <;> rfl

theorem Served.handle (a : Arrival) (inTime : l.inTime a = true) :
    Served (s.handle a.event).1 (l.record s a) := by
  obtain ⟨event, answers⟩ := a
  cases event with
  | createSession imsi sender =>
    apply Served.create
    unfold Spgw.deletePrevious
    cases session : s.imsiToCtrTeid imsi with
    | none =>
      rw [record_quiet (fun t => ?_) (fun _ => rfl) (fun _ => rfl)]
      · exact h
      · rw [settled_eq rfl]
        simp [settles, session]
    | some teid =>
      obtain ⟨none_, others⟩ := @record_settled s l teid ⟨.createSession imsi sender, answers⟩
        (fun t => by rw [settled_eq rfl]; simp [settles, session]) (fun _ => rfl) (fun _ => rfl)
      exact h.deleteGtpcCtx none_ others
  | modifyBearer teid fteid => exact (h.modifyBearer teid fteid answers).1
  | deleteSession teid =>
    obtain ⟨none_, others⟩ := @record_settled s l teid ⟨.deleteSession teid, answers⟩
      (fun t => by rw [settled_eq rfl]; rfl) (fun _ => rfl) (fun _ => rfl)
    show Served (s.handleDeleteSessionRequest teid).1 _
    unfold handleDeleteSessionRequest
    cases found : s.teidToTunnelCtx teid with
    | none => exact h.absent found none_ others
    | some ctx => exact (h.deleteGtpuTunnel ctx.ueIpv4).deleteGtpcCtx none_ others
  | releaseAccessBearers teid =>
    rw [record_quiet (fun _ => by rw [settled_eq rfl]; rfl) (fun _ => rfl) (fun _ => rfl)]
    show Served (s.handleReleaseAccessBearersRequest teid).1 l
    unfold handleReleaseAccessBearersRequest
    cases s.teidToTunnelCtx teid with
    | none => exact h
    | some ctx => exact h.deleteGtpuTunnel ctx.ueIpv4
  | notificationAcknowledge teid cause => exact h.acknowledge teid cause answers inTime
  | notificationFailure teid cause =>
    obtain ⟨none_, others⟩ := @record_settled s l teid ⟨.notificationFailure teid cause, answers⟩
      (fun t => by rw [settled_eq rfl]; rfl) (fun _ => rfl) (fun _ => rfl)
    show Served (s.handleDownlinkDataNotificationFailureIndication teid).1 _
    unfold handleDownlinkDataNotificationFailureIndication
    cases found : s.teidToTunnelCtx teid with
    | none => exact h.absent found none_ others
    | some ctx => exact h.stopPaging found none_ others
  | sgiPdu packet => exact (h.sgiPdu packet answers).1

end

end

theorem start_served (plan : AddressPlan) (maxPagingQueue : Nat) :
    Served (Paging.start plan maxPagingQueue).1 (Paging.start plan maxPagingQueue).2 := by
  constructor
  case gone => exact fun _ _ => ⟨rfl, rfl⟩
  all_goals
    intros
    contradiction

def Paging.Pages (x : Paging) : Prop :=
  (∀ teid ctx, x.1.teidToTunnelCtx teid = some ctx →
    ctx.pagingQueue = x.2.waiting teid ∧ (x.2.outstanding teid).length ≤ 1) ∧
  ∀ event, Delivers x.1 x.2 event (x.1.handle event).2

theorem pages_of_reaches (plan : AddressPlan) (maxPagingQueue : Nat) {x : Paging}
    (run : Reaches Paging.step (fun x a => x.2.inTime a = true) (Paging.start plan maxPagingQueue) x) : x.Pages := by
  have served : Served x.1 x.2 := by
    apply run.invariant (P := fun x => Served x.1 x.2) (start_served plan maxPagingQueue)
    intro x a y h inTime next
    obtain rfl := Option.some.inj next
    exact h.handle a inTime
  refine ⟨?_, served.delivers⟩
  intro teid ctx found
  refine ⟨served.queue teid ctx found, ?_⟩
  rw [served.pending teid ctx found]
  cases ctx.pagingPending <;> decide

def oneAddress : AddressPlan := .ofPool [33558700] (by decide) (by decide)

def packetTo (id : Byte) : Packet := [0x45, 0, 0, 20, 0, id, 0, 0, 64, 17, 0, 0, 10, 0, 0, 1, 172, 16, 0, 2]

def pagedTwice : List Arrival :=
  [⟨.createSession 1010123456789 ⟨1, 1⟩, 0⟩, ⟨.modifyBearer 1 ⟨2, 7⟩, 0⟩, ⟨.releaseAccessBearers 1, 0⟩,
    ⟨.sgiPdu (packetTo 1), 0⟩, ⟨.modifyBearer 1 ⟨2, 8⟩, 0⟩, ⟨.releaseAccessBearers 1, 0⟩, ⟨.sgiPdu (packetTo 2), 0⟩]

theorem pages_of_reaches_refused : ∃ x : Paging,
    runAllowed Paging.step (fun x a => x.2.inTime a) (Paging.start oneAddress 10)
      (pagedTwice ++ [⟨.notificationAcknowledge 1 causeUnableToPageUe, 1⟩]) = some x ∧ x.Pages := by
  have runs : (runAllowed Paging.step (fun x a => x.2.inTime a) (Paging.start oneAddress 10)
      (pagedTwice ++ [⟨.notificationAcknowledge 1 causeUnableToPageUe, 1⟩])).isSome = true := by decide +kernel
  obtain ⟨x, run⟩ := Option.isSome_iff_exists.mp runs
  exact ⟨x, run, pages_of_reaches oneAddress 10 (reaches_of_runAllowed _ run)⟩

theorem lateRefusal_loses : ∃ x : Paging,
    Reaches Paging.step (fun _ _ => True) (Paging.start oneAddress 10) x ∧ x.2.outstanding 1 = [1, 2] ∧
      x.2.waiting 1 = [packetTo 2, packetTo 3] ∧
      sentToEnbs (x.1.handle (.modifyBearer 1 ⟨2, 9⟩)).2 = [(⟨2, 9⟩, packetTo 3)] ∧ ¬x.Pages := by
  have seen : ((runAllowed Paging.step (fun _ _ => true) (Paging.start oneAddress 10) (pagedTwice ++
      [⟨.notificationAcknowledge 1 causeUnableToPageUe, 0⟩, ⟨.sgiPdu (packetTo 3), 0⟩])).map fun x =>
        (x.2.outstanding 1, x.2.waiting 1, sentToEnbs (x.1.handle (.modifyBearer 1 ⟨2, 9⟩)).2)) =
      some ([1, 2], [packetTo 2, packetTo 3], [(⟨2, 9⟩, packetTo 3)]) := by decide +kernel
  obtain ⟨x, run, same⟩ := Option.map_eq_some_iff.mp seen
  simp only [Prod.mk.injEq] at same
  obtain ⟨outstanding, waiting, sent⟩ := same
  refine ⟨x, (reaches_of_runAllowed _ run).mono fun _ _ _ => trivial, outstanding, waiting, sent, ?_⟩
  intro pages
  have delivers : sentToEnbs _ = _ := pages.2 (.modifyBearer 1 ⟨2, 9⟩)
  rw [sent, waiting] at delivers
  exact absurd delivers (by decide)

end IsrRan.Epc
