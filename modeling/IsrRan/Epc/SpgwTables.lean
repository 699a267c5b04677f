import Mathlib.Data.List.Induction
import IsrRan.Epc.Spgw

namespace IsrRan.Epc
open Spgw Table

structure Consistent (s : Spgw) : Prop where
  sessions : ∀ imsi teid, s.imsiToCtrTeid imsi = some teid ↔
    ∃ ctx, s.teidToTunnelCtx teid = some ctx ∧ ctx.imsi = imsi
  teids : ∀ teid ctx, s.teidToTunnelCtx teid = some ctx → ctx.upCtrlTeid = teid
  addresses : ∀ teid teid' ctx ctx', s.teidToTunnelCtx teid = some ctx → s.teidToTunnelCtx teid' = some ctx' →
    ctx.ueIpv4 = ctx'.ueIpv4 → teid = teid'
  nonzero : ∀ teid ctx, s.teidToTunnelCtx teid = some ctx → ctx.ueIpv4 ≠ 0
  user : ∀ addr fteid, s.ipToUsrTeid addr = some fteid →
    ∃ teid ctx, s.teidToTunnelCtx teid = some ctx ∧ ctx.ueIpv4 = addr ∧ ctx.dwUserFteid = fteid
  control : ∀ addr teid, s.ipToCtrTeid addr = some teid →
    ∃ ctx, s.teidToTunnelCtx teid = some ctx ∧ ctx.ueIpv4 = addr
  tunnels : ∀ addr fteid, s.ipToUsrTeid addr = some fteid → ∃ teid, s.ipToCtrTeid addr = some teid
  paging : ∀ teid ctx, s.teidToTunnelCtx teid = some ctx → ctx.pagingPending = false → ctx.pagingQueue = []

/-- No session is created for a subscriber whose session still has its user tunnel, without an address that
is left, or with the control TEID of another session. -/
def Clean (s : Spgw) : Spgw.Event → Prop
  | .createSession imsi _ =>
    (∀ teid ctx, s.imsiToCtrTeid imsi = some teid → s.teidToTunnelCtx teid = some ctx →
      s.ipToUsrTeid ctx.ueIpv4 = none) ∧
    (s.imsiToIp imsi = none → s.ueIpAddrPool ≠ []) ∧
    ∀ ctx, s.teidToTunnelCtx (s.nextCtrlTeid % 4294967296) = some ctx → ctx.imsi = imsi
  | _ => True

structure Allocated (s : Spgw) : Prop where
  oneEach : ∀ imsi imsi' addr, s.imsiToIp imsi = some addr → s.imsiToIp imsi' = some addr → imsi = imsi'
  disjoint : ∀ imsi addr, s.imsiToIp imsi = some addr → addr ∉ s.ueIpAddrPool
  nodup : s.ueIpAddrPool.Nodup
  static_ne_zero : ∀ imsi addr, s.imsiToIp imsi = some addr → addr ≠ 0
  pool_ne_zero : ∀ addr ∈ s.ueIpAddrPool, addr ≠ 0
  live : ∀ teid ctx, s.teidToTunnelCtx teid = some ctx →
    s.imsiToIp ctx.imsi = some ctx.ueIpv4 ∨
      ctx.ueIpv4 ∉ s.ueIpAddrPool ∧ ∀ imsi, s.imsiToIp imsi ≠ some ctx.ueIpv4

section
variable {s s' : Spgw} {teid imsi : Nat} {ctx ctx' : TunnelCtx} {fteid : Fteid}

namespace Consistent

section
variable (h : Consistent s)
include h

theorem setCtx (found : s.teidToTunnelCtx teid = some ctx) (same : ctx'.imsi = ctx.imsi)
    (upCtrlTeid : ctx'.upCtrlTeid = ctx.upCtrlTeid) (ueIpv4 : ctx'.ueIpv4 = ctx.ueIpv4)
    (dwUserFteid : s.ipToUsrTeid ctx.ueIpv4 = none ∨ ctx'.dwUserFteid = ctx.dwUserFteid)
    (paging : ctx'.pagingPending = false → ctx'.pagingQueue = []) : Consistent (s.setCtx teid ctx') := by
  -- every session before is one after, and the other way round
  have after : ∀ t c, s.teidToTunnelCtx t = some c → ∃ c', (s.setCtx teid ctx').teidToTunnelCtx t = some c' ∧
      c'.imsi = c.imsi ∧ c'.ueIpv4 = c.ueIpv4 ∧
        (s.ipToUsrTeid c.ueIpv4 = none ∨ c'.dwUserFteid = c.dwUserFteid) := by
    intro t c known
    by_cases this : t = teid
    · subst this
      rw [found] at known
      cases known
      exact ⟨ctx', assign_self .., same, ueIpv4, dwUserFteid⟩
    · exact ⟨c, Spgw.setCtx_eq_some.mpr (Or.inr ⟨this, known⟩), rfl, rfl, Or.inr rfl⟩
  have before : ∀ t c, (s.setCtx teid ctx').teidToTunnelCtx t = some c → ∃ c₀, s.teidToTunnelCtx t = some c₀ ∧
      c.imsi = c₀.imsi ∧ c.upCtrlTeid = c₀.upCtrlTeid ∧ c.ueIpv4 = c₀.ueIpv4 := by
    intro t c known
    rcases Spgw.setCtx_eq_some.mp known with ⟨rfl, rfl⟩ | ⟨-, known⟩
    · exact ⟨ctx, found, same, upCtrlTeid, ueIpv4⟩
    · exact ⟨c, known, rfl, rfl, rfl⟩
  constructor
  case sessions =>
    intro imsi t
    rw [show (s.setCtx teid ctx').imsiToCtrTeid imsi = s.imsiToCtrTeid imsi from rfl, h.sessions]
    constructor
    · rintro ⟨c, known, eq⟩
      obtain ⟨c', known', imsi', -⟩ := after t c known
      exact ⟨c', known', imsi'.trans eq⟩
    · rintro ⟨c, known, eq⟩
      obtain ⟨c₀, known', imsi', -⟩ := before t c known
      exact ⟨c₀, known', imsi'.symm.trans eq⟩
  case teids =>
    intro t c known
    obtain ⟨c₀, known', -, teid', -⟩ := before t c known
    exact teid'.trans (h.teids t c₀ known')
  case addresses =>
    intro t t' c c' known known' eq
    obtain ⟨c₀, old, -, -, addr⟩ := before t c known
    obtain ⟨c₀', old', -, -, addr'⟩ := before t' c' known'
    exact h.addresses t t' c₀ c₀' old old' (addr.symm.trans (eq.trans addr'))
  case nonzero =>
    intro t c known
    obtain ⟨c₀, old, -, -, addr⟩ := before t c known
    rw [addr]
    exact h.nonzero t c₀ old
  case user =>
    intro addr fteid tunnel
    obtain ⟨t, c, known, eq, eq'⟩ := h.user addr fteid tunnel
    obtain ⟨c', known', -, addr', none_ | fteid'⟩ := after t c known
    · rw [eq] at *
      exact absurd (none_.symm.trans tunnel) (by simp)
    · exact ⟨t, c', known', addr'.trans eq, fteid'.trans eq'⟩
  case control =>
    intro addr t entry
    obtain ⟨c, known, eq⟩ := h.control addr t entry
    obtain ⟨c', known', -, addr', -⟩ := after t c known
    exact ⟨c', known', addr'.trans eq⟩
  case tunnels => exact h.tunnels
  case paging =>
    intro t c known
    rcases Spgw.setCtx_eq_some.mp known with ⟨rfl, rfl⟩ | ⟨-, known⟩
    · exact paging
    · exact h.paging t c known

theorem deleteGtpuTunnel (addr : Nat) : Consistent (s.deleteGtpuTunnel addr) := by
  constructor
  case user =>
    intro a fteid tunnel
    exact h.user a fteid (Table.erase_eq_some.mp tunnel).2
  case tunnels =>
    intro a fteid tunnel
    exact h.tunnels a fteid (Table.erase_eq_some.mp tunnel).2
  case sessions => exact h.sessions
  case teids => exact h.teids
  case addresses => exact h.addresses
  case nonzero => exact h.nonzero
  case control => exact h.control
  case paging => exact h.paging

section
variable (found : s.teidToTunnelCtx teid = some ctx)
include found

theorem deleteGtpcCtx (free : s.ipToUsrTeid ctx.ueIpv4 = none) : Consistent (s.deleteGtpcCtx teid) := by
  unfold Spgw.deleteGtpcCtx
  rw [found]
  have others : ∀ {t c}, (s.teidToTunnelCtx.erase teid) t = some c ↔ t ≠ teid ∧ s.teidToTunnelCtx t = some c :=
    erase_eq_some
  have session : s.imsiToCtrTeid ctx.imsi = some teid := (h.sessions ctx.imsi teid).mpr ⟨ctx, found, rfl⟩
  constructor
  case sessions =>
    intro imsi t
    rw [erase_eq_some, h.sessions]
    constructor
    · rintro ⟨other, c, known, eq⟩
      refine ⟨c, others.mpr ⟨?_, known⟩, eq⟩
      rintro rfl
      rw [found] at known
      cases known
      exact other eq.symm
    · rintro ⟨c, known, eq⟩
      obtain ⟨ne, known⟩ := others.mp known
      refine ⟨?_, c, known, eq⟩
      rintro rfl
      have entry := (h.sessions ctx.imsi t).mpr ⟨c, known, eq⟩
      rw [session] at entry
      exact ne (Option.some.inj entry).symm
  case teids =>
    intro t c known
    exact h.teids t c (others.mp known).2
  case addresses =>
    intro t t' c c' known known'
    exact h.addresses t t' c c' (others.mp known).2 (others.mp known').2
  case nonzero =>
    intro t c known
    exact h.nonzero t c (others.mp known).2
  case user =>
    intro addr fteid tunnel
    obtain ⟨t, c, known, eq, eq'⟩ := h.user addr fteid tunnel
    refine ⟨t, c, others.mpr ⟨?_, known⟩, eq, eq'⟩
    rintro rfl
    rw [found] at known
    cases known
    subst eq
    exact absurd (free.symm.trans tunnel) (by simp)
  case control =>
    intro addr t entry
    obtain ⟨ne, entry⟩ := Table.erase_eq_some.mp entry
    obtain ⟨c, known, eq⟩ := h.control addr t entry
    refine ⟨c, others.mpr ⟨?_, known⟩, eq⟩
    rintro rfl
    rw [found] at known
    cases known
    exact ne eq.symm
  case tunnels =>
    intro addr fteid tunnel
    obtain ⟨t, entry⟩ := h.tunnels addr fteid tunnel
    refine ⟨t, Table.erase_eq_some.mpr ⟨?_, entry⟩⟩
    rintro rfl
    exact absurd (free.symm.trans tunnel) (by simp)
  case paging =>
    intro t c known
    exact h.paging t c (others.mp known).2

theorem connect :
    Consistent (s.modifyGtpuTunnel ctx.ueIpv4 ctx.dwUserFteid teid) := by
  constructor
  case user =>
    intro addr fteid tunnel
    rcases Table.assign_eq_some.mp tunnel with ⟨rfl, rfl⟩ | ⟨-, tunnel⟩
    · exact ⟨teid, ctx, found, rfl, rfl⟩
    · exact h.user addr fteid tunnel
  case control =>
    intro addr t entry
    rcases Table.assign_eq_some.mp entry with ⟨rfl, rfl⟩ | ⟨-, entry⟩
    · exact ⟨ctx, found, rfl⟩
    · exact h.control addr t entry
  case tunnels =>
    intro addr fteid tunnel
    rcases Table.assign_eq_some.mp tunnel with ⟨rfl, -⟩ | ⟨ne, tunnel⟩
    · exact ⟨teid, assign_self ..⟩
    · obtain ⟨t, entry⟩ := h.tunnels addr fteid tunnel
      exact ⟨t, Table.assign_eq_some.mpr (Or.inr ⟨ne, entry⟩)⟩
  case sessions => exact h.sessions
  case teids => exact h.teids
  case addresses => exact h.addresses
  case nonzero => exact h.nonzero
  case paging => exact h.paging

theorem modify (same : ctx'.imsi = ctx.imsi)
    (upCtrlTeid : ctx'.upCtrlTeid = ctx.upCtrlTeid) (ueIpv4 : ctx'.ueIpv4 = ctx.ueIpv4)
    (paging : ctx'.pagingPending = false → ctx'.pagingQueue = []) :
    Consistent ((s.modifyGtpuTunnel ctx.ueIpv4 ctx'.dwUserFteid ctx.upCtrlTeid).setCtx teid ctx') := by
  have free : (s.deleteGtpuTunnel ctx.ueIpv4).ipToUsrTeid ctx.ueIpv4 = none := erase_self ..
  have changed := (h.deleteGtpuTunnel ctx.ueIpv4).setCtx found same upCtrlTeid ueIpv4 (Or.inl free) paging
  have known : ((s.deleteGtpuTunnel ctx.ueIpv4).setCtx teid ctx').teidToTunnelCtx teid = some ctx' :=
    assign_self ..
  have connected := changed.connect known
  rw [ueIpv4] at connected
  rw [h.teids teid ctx found]
  unfold modifyGtpuTunnel Spgw.setCtx Spgw.deleteGtpuTunnel Table.assign Table.erase at *
  rw [Function.update_idem] at connected
  exact connected

end

theorem create (absent : s.imsiToCtrTeid imsi = none)
    (fresh : s.teidToTunnelCtx (s.nextCtrlTeid % 4294967296) = none)
    (ne_zero : (s.getNewUeIpv4 imsi).1 ≠ 0)
    (unused : ∀ t c, s.teidToTunnelCtx t = some c → c.ueIpv4 ≠ (s.getNewUeIpv4 imsi).1) (sender : Fteid) :
    Consistent (s.createGtpcCtx imsi sender).2 := by
  have user : (s.createGtpcCtx imsi sender).2.ipToUsrTeid = s.ipToUsrTeid := by
    unfold createGtpcCtx Spgw.getNewUeIpv4
    split <;> rfl
  have control : (s.createGtpcCtx imsi sender).2.ipToCtrTeid = s.ipToCtrTeid := by
    unfold createGtpcCtx Spgw.getNewUeIpv4
    split <;> rfl
  generalize new : (s.createGtpcCtx imsi sender).1 = ctx
  have table : (s.createGtpcCtx imsi sender).2.teidToTunnelCtx =
      s.teidToTunnelCtx.assign (s.nextCtrlTeid % 4294967296) ctx := by
    rw [← new, ← insert_of_none fresh]
    rfl
  have imsis : (s.createGtpcCtx imsi sender).2.imsiToCtrTeid =
      s.imsiToCtrTeid.assign imsi (s.nextCtrlTeid % 4294967296) := by
    rw [← insert_of_none absent]
    rfl
  have own : ctx.imsi = imsi ∧ ctx.upCtrlTeid = s.nextCtrlTeid % 4294967296 ∧
      ctx.ueIpv4 = (s.getNewUeIpv4 imsi).1 ∧ ctx.pagingQueue = [] := by
    rw [← new]
    exact ⟨rfl, rfl, rfl, rfl⟩
  obtain ⟨ownImsi, ownTeid, ownAddr, empty⟩ := own
  generalize s.nextCtrlTeid % 4294967296 = teid at *
  have lookup : ∀ t c, (s.teidToTunnelCtx.assign teid ctx) t = some c ↔
      t = teid ∧ ctx = c ∨ s.teidToTunnelCtx t = some c := by
    intro t c
    rw [assign_eq_some]
    constructor
    · rintro (this | ⟨-, known⟩)
      · exact Or.inl this
      · exact Or.inr known
    · rintro (this | known)
      · exact Or.inl this
      · refine Or.inr ⟨?_, known⟩
        rintro rfl
        exact absurd (fresh.symm.trans known) (by simp)
  constructor
  case sessions =>
    intro imsi' t
    rw [imsis, table, assign_eq_some, h.sessions]
    constructor
    · rintro (⟨rfl, rfl⟩ | ⟨-, c, known, eq⟩)
      · exact ⟨ctx, assign_self .., ownImsi⟩
      · exact ⟨c, (lookup t c).mpr (Or.inr known), eq⟩
    · rintro ⟨c, known, eq⟩
      rcases (lookup t c).mp known with ⟨rfl, rfl⟩ | old
      · exact Or.inl ⟨eq.symm.trans ownImsi, rfl⟩
      · refine Or.inr ⟨?_, c, old, eq⟩
        rintro rfl
        have entry := (h.sessions imsi' t).mpr ⟨c, old, eq⟩
        exact absurd (absent.symm.trans entry) (by simp)
  case teids =>
    intro t c known
    rw [table] at known
    rcases (lookup t c).mp known with ⟨rfl, rfl⟩ | old
    · exact ownTeid
    · exact h.teids t c old
  case addresses =>
    intro t t' c c' known known' eq
    rw [table] at known known'
    rcases (lookup t c).mp known with ⟨rfl, rfl⟩ | old
    · rcases (lookup t' c').mp known' with ⟨rfl, rfl⟩ | old'
      · rfl
      · exact absurd (eq.symm.trans ownAddr) (unused t' c' old')
    · rcases (lookup t' c').mp known' with ⟨rfl, rfl⟩ | old'
      · exact absurd (eq.trans ownAddr) (unused t c old)
      · exact h.addresses t t' c c' old old' eq
  case nonzero =>
    intro t c known
    rw [table] at known
    rcases (lookup t c).mp known with ⟨rfl, rfl⟩ | old
    · rw [ownAddr]
      exact ne_zero
    · exact h.nonzero t c old
  case user =>
    intro addr fteid tunnel
    rw [user] at tunnel
    obtain ⟨t, c, known, eq, eq'⟩ := h.user addr fteid tunnel
    refine ⟨t, c, ?_, eq, eq'⟩
    rw [table]
    exact (lookup t c).mpr (Or.inr known)
  case control =>
    intro addr t entry
    rw [control] at entry
    obtain ⟨c, known, eq⟩ := h.control addr t entry
    refine ⟨c, ?_, eq⟩
    rw [table]
    exact (lookup t c).mpr (Or.inr known)
  case tunnels =>
    rw [user, control]
    exact h.tunnels
  case paging =>
    intro t c known
    rw [table] at known
    rcases (lookup t c).mp known with ⟨rfl, rfl⟩ | old
    · exact fun _ => empty
    · exact h.paging t c old

theorem deletePrevious (free : ∀ teid ctx, s.imsiToCtrTeid imsi = some teid → s.teidToTunnelCtx teid = some ctx →
      s.ipToUsrTeid ctx.ueIpv4 = none) : Consistent (s.deletePrevious imsi) := by
  unfold Spgw.deletePrevious
  cases session : s.imsiToCtrTeid imsi with
  | none => exact h
  | some teid =>
    obtain ⟨ctx, found, -⟩ := (h.sessions imsi teid).mp session
    exact h.deleteGtpcCtx found (free teid ctx session found)

theorem deletePrevious_eq (imsi : Nat) :
    (s.deletePrevious imsi).imsiToCtrTeid imsi = none ∧
      ∀ t c, (s.deletePrevious imsi).teidToTunnelCtx t = some c ↔ s.teidToTunnelCtx t = some c ∧ c.imsi ≠ imsi := by
  unfold Spgw.deletePrevious
  cases session : s.imsiToCtrTeid imsi with
  | none =>
    refine ⟨session, ?_⟩
    intro t c
    constructor
    · intro known
      refine ⟨known, ?_⟩
      intro eq
      have entry := (h.sessions imsi t).mpr ⟨c, known, eq⟩
      exact absurd (session.symm.trans entry) (by simp)
    · exact fun known => known.1
  | some teid =>
    obtain ⟨ctx, found, eq⟩ := (h.sessions imsi teid).mp session
    dsimp only
    rw [deleteGtpcCtx_of_some found]
    refine ⟨?_, ?_⟩
    · rw [← eq]
      exact erase_self ..
    · intro t c
      rw [erase_eq_some]
      constructor
      · rintro ⟨ne, known⟩
        refine ⟨known, ?_⟩
        intro same
        have entry := (h.sessions imsi t).mpr ⟨c, known, same⟩
        rw [session] at entry
        exact ne (Option.some.inj entry).symm
      · rintro ⟨known, ne⟩
        refine ⟨?_, known⟩
        rintro rfl
        rw [found] at known
        cases known
        exact ne eq

end

end Consistent

/-! ## Addresses -/

namespace Allocated

section
variable (h : Allocated s)
include h

theorem of_live (static : s'.imsiToIp = s.imsiToIp) (pool : s'.ueIpAddrPool = s.ueIpAddrPool)
    (live : ∀ t c, s'.teidToTunnelCtx t = some c →
      ∃ t₀ c₀, s.teidToTunnelCtx t₀ = some c₀ ∧ c.imsi = c₀.imsi ∧ c.ueIpv4 = c₀.ueIpv4) : Allocated s' := by
  constructor
  case live =>
    intro t c known
    obtain ⟨t₀, c₀, old, imsi, addr⟩ := live t c known
    rw [static, pool, imsi, addr]
    exact h.live t₀ c₀ old
  case oneEach =>
    rw [static]
    exact h.oneEach
  case disjoint =>
    rw [static, pool]
    exact h.disjoint
  case nodup =>
    rw [pool]
    exact h.nodup
  case static_ne_zero =>
    rw [static]
    exact h.static_ne_zero
  case pool_ne_zero =>
    rw [pool]
    exact h.pool_ne_zero

theorem setCtx (found : s.teidToTunnelCtx teid = some ctx) (same : ctx'.imsi = ctx.imsi)
    (ueIpv4 : ctx'.ueIpv4 = ctx.ueIpv4) : Allocated (s.setCtx teid ctx') := by
  refine h.of_live rfl rfl ?_
  intro t c known
  rcases Spgw.setCtx_eq_some.mp known with ⟨rfl, rfl⟩ | ⟨-, known⟩
  · exact ⟨t, ctx, found, same, ueIpv4⟩
  · exact ⟨t, c, known, rfl, rfl⟩

theorem deleteGtpcCtx (teid : Nat) : Allocated (s.deleteGtpcCtx teid) := by
  unfold Spgw.deleteGtpcCtx
  cases found : s.teidToTunnelCtx teid with
  | none => exact h
  | some ctx =>
    refine h.of_live rfl rfl ?_
    intro t c known
    exact ⟨t, c, (Table.erase_eq_some.mp known).2, rfl, rfl⟩

theorem deletePrevious (imsi : Nat) : Allocated (s.deletePrevious imsi) := by
  unfold Spgw.deletePrevious
  cases s.imsiToCtrTeid imsi with
  | none => exact h
  | some teid => exact h.deleteGtpcCtx teid

theorem getNewUeIpv4 (left : s.imsiToIp imsi = none → s.ueIpAddrPool ≠ [])
    (absent : ∀ t c, s.teidToTunnelCtx t = some c → c.imsi ≠ imsi) :
    (s.getNewUeIpv4 imsi).1 ≠ 0 ∧
      (∀ t c, s.teidToTunnelCtx t = some c → c.ueIpv4 ≠ (s.getNewUeIpv4 imsi).1) ∧
      Allocated (s.getNewUeIpv4 imsi).2 ∧
      (s.imsiToIp imsi = some (s.getNewUeIpv4 imsi).1 ∨
        (s.getNewUeIpv4 imsi).1 ∉ (s.getNewUeIpv4 imsi).2.ueIpAddrPool ∧
          ∀ imsi', s.imsiToIp imsi' ≠ some (s.getNewUeIpv4 imsi).1) := by
  unfold Spgw.getNewUeIpv4
  cases static : s.imsiToIp imsi with
  | some addr =>
    refine ⟨h.static_ne_zero imsi addr static, ?_, h, Or.inl rfl⟩
    intro t c known eq
    rcases h.live t c known with own | ⟨-, other⟩
    · rw [eq] at own
      exact absent t c known (h.oneEach c.imsi imsi addr own static)
    · exact other imsi (eq ▸ static)
  | none =>
    cases pool : s.ueIpAddrPool with
    | nil => exact absurd pool (left static)
    | cons addr rest =>
      have mem : addr ∈ s.ueIpAddrPool := by
        rw [pool]
        exact List.mem_cons_self
      have nodup := h.nodup
      rw [pool] at nodup
      have smaller : ∀ a ∈ rest, a ∈ s.ueIpAddrPool := by
        intro a inRest
        rw [pool]
        exact List.mem_cons_of_mem addr inRest
      have unused : ∀ imsi', s.imsiToIp imsi' ≠ some addr := fun imsi' eq => h.disjoint imsi' addr eq mem
      refine ⟨h.pool_ne_zero addr mem, ?_, ?_, Or.inr ⟨(List.nodup_cons.mp nodup).1, unused⟩⟩
      · intro t c known eq
        have same : c.ueIpv4 = addr := eq
        rcases h.live t c known with own | ⟨outside, -⟩
        · rw [same] at own
          exact unused c.imsi own
        · rw [same] at outside
          exact outside mem
      · constructor
        case oneEach => exact h.oneEach
        case disjoint => exact fun imsi' a eq inRest => h.disjoint imsi' a eq (smaller a inRest)
        case nodup => exact (List.nodup_cons.mp nodup).2
        case static_ne_zero => exact h.static_ne_zero
        case pool_ne_zero => exact fun a inRest => h.pool_ne_zero a (smaller a inRest)
        case live =>
          intro t c known
          rcases h.live t c known with own | ⟨outside, other⟩
          · exact Or.inl own
          · exact Or.inr ⟨fun inRest => outside (smaller _ inRest), other⟩

end

end Allocated

/-! ## Events -/

theorem handle_createSession (h : Consistent s) (allocated : Allocated s) {sender : Fteid}
    (clean : Clean s (.createSession imsi sender)) :
    Consistent (s.handle (.createSession imsi sender)).1 ∧ Allocated (s.handle (.createSession imsi sender)).1 := by
  obtain ⟨free, left, fresh⟩ := clean
  obtain ⟨absent, sessions⟩ := h.deletePrevious_eq imsi
  have before := h.deletePrevious free
  have allocated := allocated.deletePrevious imsi
  have same : (s.deletePrevious imsi).nextCtrlTeid = s.nextCtrlTeid ∧
      (s.deletePrevious imsi).imsiToIp = s.imsiToIp ∧ (s.deletePrevious imsi).ueIpAddrPool = s.ueIpAddrPool := by
    unfold Spgw.deletePrevious Spgw.deleteGtpcCtx
    repeat' split
    all_goals exact ⟨rfl, rfl, rfl⟩
  have unused : (s.deletePrevious imsi).teidToTunnelCtx ((s.deletePrevious imsi).nextCtrlTeid % 4294967296) =
      none := by
    rw [same.1]
    cases taken : (s.deletePrevious imsi).teidToTunnelCtx (s.nextCtrlTeid % 4294967296) with
    | none => rfl
    | some ctx =>
      obtain ⟨known, other⟩ := (sessions _ ctx).mp taken
      exact absurd (fresh ctx known) other
  have others : ∀ t c, (s.deletePrevious imsi).teidToTunnelCtx t = some c → c.imsi ≠ imsi :=
    fun t c known => ((sessions t c).mp known).2
  rw [← same.2.1, ← same.2.2] at left
  show Consistent ((s.deletePrevious imsi).createGtpcCtx imsi sender).2 ∧
    Allocated ((s.deletePrevious imsi).createGtpcCtx imsi sender).2
  generalize s.deletePrevious imsi = s at *
  obtain ⟨ne_zero, distinct, rest, address⟩ := allocated.getNewUeIpv4 left others
  refine ⟨before.create absent unused ne_zero distinct sender, ?_⟩
  have static : (s.getNewUeIpv4 imsi).2.imsiToIp = s.imsiToIp ∧
      (s.getNewUeIpv4 imsi).2.teidToTunnelCtx = s.teidToTunnelCtx := by
    unfold Spgw.getNewUeIpv4
    split <;> exact ⟨rfl, rfl⟩
  constructor
  case oneEach => exact rest.oneEach
  case disjoint => exact rest.disjoint
  case nodup => exact rest.nodup
  case static_ne_zero => exact rest.static_ne_zero
  case pool_ne_zero => exact rest.pool_ne_zero
  case live =>
    intro t c known
    unfold createGtpcCtx at known ⊢
    dsimp only at known ⊢
    rw [insert_of_none unused] at known
    rcases Table.assign_eq_some.mp known with ⟨rfl, rfl⟩ | ⟨-, known⟩
    · rw [static.1]
      exact address
    · rw [← static.2] at known
      exact rest.live t c known

theorem handle_consistent (h : Consistent s) (allocated : Allocated s) (event : Spgw.Event) (clean : Clean s event) :
    Consistent (s.handle event).1 ∧ Allocated (s.handle event).1 := by
  have unchanged : Consistent s ∧ Allocated s := ⟨h, allocated⟩
  have stopped : ∀ {teid ctx}, s.teidToTunnelCtx teid = some ctx →
      Consistent (s.setCtx teid (Spgw.stopPaging ctx)) ∧ Allocated (s.setCtx teid (Spgw.stopPaging ctx)) :=
    fun found => ⟨h.setCtx found rfl rfl rfl (Or.inr rfl) fun _ => rfl, allocated.setCtx found rfl rfl⟩
  cases event with
  | createSession imsi sender => exact handle_createSession h allocated clean
  | modifyBearer teid fteid =>
    show Consistent (s.handleModifyBearerRequest teid fteid).1 ∧ Allocated (s.handleModifyBearerRequest teid fteid).1
    unfold handleModifyBearerRequest
    cases found : s.teidToTunnelCtx teid with
    | none => exact unchanged
    | some ctx =>
      have tunnel : Allocated (s.modifyGtpuTunnel ctx.ueIpv4 fteid ctx.upCtrlTeid) :=
        allocated.of_live rfl rfl fun t c known => ⟨t, c, known, rfl, rfl⟩
      dsimp only
      split
      · exact ⟨h.modify found rfl rfl rfl fun _ => rfl, tunnel.setCtx found rfl rfl⟩
      · exact ⟨h.modify found rfl rfl rfl (h.paging teid ctx found), tunnel.setCtx found rfl rfl⟩
  | deleteSession teid =>
    show Consistent (s.handleDeleteSessionRequest teid).1 ∧ Allocated (s.handleDeleteSessionRequest teid).1
    unfold handleDeleteSessionRequest
    cases found : s.teidToTunnelCtx teid with
    | none => exact unchanged
    | some ctx =>
      have tunnel : Allocated (s.deleteGtpuTunnel ctx.ueIpv4) :=
        allocated.of_live rfl rfl fun t c known => ⟨t, c, known, rfl, rfl⟩
      exact ⟨(h.deleteGtpuTunnel ctx.ueIpv4).deleteGtpcCtx found (erase_self ..), tunnel.deleteGtpcCtx teid⟩
  | releaseAccessBearers teid =>
    show Consistent (s.handleReleaseAccessBearersRequest teid).1 ∧
      Allocated (s.handleReleaseAccessBearersRequest teid).1
    unfold handleReleaseAccessBearersRequest
    cases found : s.teidToTunnelCtx teid with
    | none => exact unchanged
    | some ctx =>
      exact ⟨h.deleteGtpuTunnel ctx.ueIpv4,
        allocated.of_live rfl rfl fun t c known => ⟨t, c, known, rfl, rfl⟩⟩
  | notificationAcknowledge teid cause =>
    show Consistent (s.handleDownlinkDataNotificationAcknowledge teid cause).1 ∧
      Allocated (s.handleDownlinkDataNotificationAcknowledge teid cause).1
    unfold handleDownlinkDataNotificationAcknowledge
    cases found : s.teidToTunnelCtx teid with
    | none => exact unchanged
    | some ctx =>
      dsimp only
      split
      · exact stopped found
      · split
        · exact stopped found
        · exact unchanged
  | notificationFailure teid cause =>
    show Consistent (s.handleDownlinkDataNotificationFailureIndication teid).1 ∧
      Allocated (s.handleDownlinkDataNotificationFailureIndication teid).1
    unfold handleDownlinkDataNotificationFailureIndication
    cases found : s.teidToTunnelCtx teid with
    | none => exact unchanged
    | some ctx => exact stopped found
  | sgiPdu packet =>
    show Consistent (s.handleSgiPdu packet).1 ∧ Allocated (s.handleSgiPdu packet).1
    rcases s.handleSgiPdu_cases packet with same | ⟨fteid, teid, -, -, same⟩ | ⟨teid, ctx, -, -, found, queued⟩
    · rw [same]
      exact unchanged
    · rw [same]
      exact unchanged
    · rw [queued]
      refine ⟨h.setCtx found rfl rfl rfl (Or.inr rfl) ?_, allocated.setCtx found rfl rfl⟩
      intro idle
      cases idle

theorem clean_of_consistent (h : Consistent s) (event : Spgw.Event) (after : Consistent (s.handle event).1) :
    Clean s event := by
  cases event with
  | createSession imsi sender =>
    obtain ⟨absent, sessions⟩ := h.deletePrevious_eq imsi
    have user : (s.handle (.createSession imsi sender)).1.ipToUsrTeid = s.ipToUsrTeid := by
      show ((s.deletePrevious imsi).createGtpcCtx imsi sender).2.ipToUsrTeid = _
      unfold createGtpcCtx Spgw.getNewUeIpv4 Spgw.deletePrevious Spgw.deleteGtpcCtx
      repeat' split
      all_goals rfl
    have control : (s.handle (.createSession imsi sender)).1.ipToCtrTeid = (s.deletePrevious imsi).ipToCtrTeid := by
      show ((s.deletePrevious imsi).createGtpcCtx imsi sender).2.ipToCtrTeid = _
      unfold createGtpcCtx Spgw.getNewUeIpv4
      split <;> rfl
    have next : (s.deletePrevious imsi).nextCtrlTeid = s.nextCtrlTeid := by
      unfold Spgw.deletePrevious Spgw.deleteGtpcCtx
      repeat' split
      all_goals rfl
    have session : (s.handle (.createSession imsi sender)).1.imsiToCtrTeid imsi =
        some (s.nextCtrlTeid % 4294967296) := by
      show (s.deletePrevious imsi).imsiToCtrTeid.insert imsi _ imsi = _
      rw [insert_of_none absent, next]
      exact assign_self ..
    obtain ⟨ctx, found, own⟩ := (after.sessions imsi _).mp session
    have table : (s.handle (.createSession imsi sender)).1.teidToTunnelCtx =
        (s.deletePrevious imsi).teidToTunnelCtx.insert (s.nextCtrlTeid % 4294967296)
          ((s.deletePrevious imsi).createGtpcCtx imsi sender).1 := by
      rw [← next]
      rfl
    -- the new context is in the table, since no other one of the subscriber is left
    have fresh : (s.deletePrevious imsi).teidToTunnelCtx (s.nextCtrlTeid % 4294967296) = none := by
      cases taken : (s.deletePrevious imsi).teidToTunnelCtx (s.nextCtrlTeid % 4294967296) with
      | none => rfl
      | some other =>
        rw [table, insert_of_some taken, taken] at found
        cases found
        exact absurd own ((sessions _ _).mp taken).2
    refine ⟨?_, ?_, ?_⟩
    · intro teid old previous known
      cases tunnel : s.ipToUsrTeid old.ueIpv4 with
      | none => rfl
      | some fteid =>
        rw [← user] at tunnel
        obtain ⟨t, entry⟩ := after.tunnels old.ueIpv4 fteid tunnel
        rw [control, deletePrevious_of_some previous, deleteGtpcCtx_of_some known] at entry
        exact absurd rfl (Table.erase_eq_some.mp entry).1
    · intro dynamic empty
      have zero : ((s.deletePrevious imsi).createGtpcCtx imsi sender).1.ueIpv4 = 0 := by
        show ((s.deletePrevious imsi).getNewUeIpv4 imsi).1 = 0
        have same : (s.deletePrevious imsi).imsiToIp = s.imsiToIp ∧
            (s.deletePrevious imsi).ueIpAddrPool = s.ueIpAddrPool := by
          unfold Spgw.deletePrevious Spgw.deleteGtpcCtx
          repeat' split
          all_goals exact ⟨rfl, rfl⟩
        unfold Spgw.getNewUeIpv4
        rw [same.1, same.2, dynamic, empty]
      refine after.nonzero (s.nextCtrlTeid % 4294967296)
        ((s.deletePrevious imsi).createGtpcCtx imsi sender).1 ?_ zero
      rw [table, insert_of_none fresh]
      exact assign_self ..
    · intro old known
      by_contra other
      have left := (sessions _ old).mpr ⟨known, other⟩
      exact absurd (fresh.symm.trans left) (by simp)
  | _ => trivial

end

theorem start_consistent (plan : AddressPlan) (maxPagingQueue : Nat) :
    Consistent (start plan maxPagingQueue) ∧ Allocated (start plan maxPagingQueue) := by
  constructor
  · constructor
    case sessions => simp [start]
    all_goals
      intros
      contradiction
  · constructor
    case oneEach => exact plan.oneEach
    case disjoint => exact plan.disjoint
    case nodup => exact plan.nodup
    case static_ne_zero => exact plan.static_ne_zero
    case pool_ne_zero => exact plan.pool_ne_zero
    case live =>
      intro t c known
      contradiction

theorem consistent_iff (plan : AddressPlan) (maxPagingQueue : Nat) (events : List Spgw.Event) :
    (∀ before, before <+: events → Consistent ((start plan maxPagingQueue).run before)) ↔
      ∀ before event, before ++ [event] <+: events → Clean ((start plan maxPagingQueue).run before) event := by
  constructor
  · intro consistent before event this
    have after := consistent (before ++ [event]) this
    rw [run_concat] at after
    exact clean_of_consistent (consistent before ((List.prefix_append _ _).trans this)) event after
  · intro clean before
    have both : before <+: events → Consistent ((start plan maxPagingQueue).run before) ∧
        Allocated ((start plan maxPagingQueue).run before) := by
      induction before using List.reverseRecOn with
      | nil => exact fun _ => start_consistent plan maxPagingQueue
      | append_singleton before event ih =>
        intro this
        obtain ⟨consistent, allocated⟩ := ih ((List.prefix_append _ _).trans this)
        rw [run_concat]
        exact handle_consistent consistent allocated event (clean before event this)
    exact fun this => (both this).1

def twoAddresses : AddressPlan := .ofPool [33558700, 50335916] (by decide) (by decide)

def reattach : List Spgw.Event :=
  [.createSession 1010123456789 ⟨1, 1⟩, .modifyBearer 1 ⟨2, 7⟩, .createSession 1010123456789 ⟨1, 2⟩]

theorem reattach_inconsistent :
    ((start twoAddresses 100).run reattach).ipToUsrTeid 33558700 = some ⟨2, 7⟩ ∧
      ((start twoAddresses 100).run reattach).ipToCtrTeid 33558700 = none ∧
      ¬ ∀ (plan : AddressPlan) (maxPagingQueue : Nat) (events : List Spgw.Event),
        Consistent ((start plan maxPagingQueue).run events) := by
  have user : ((start twoAddresses 100).run reattach).ipToUsrTeid 33558700 = some ⟨2, 7⟩ := by decide
  have control : ((start twoAddresses 100).run reattach).ipToCtrTeid 33558700 = none := by decide
  refine ⟨user, control, ?_⟩
  intro consistent
  obtain ⟨teid, entry⟩ := (consistent twoAddresses 100 reattach).tunnels _ _ user
  rw [control] at entry
  cases entry

end IsrRan.Epc
