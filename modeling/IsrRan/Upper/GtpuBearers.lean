import IsrRan.Upper.GtpuManager
import Mathlib

namespace IsrRan.Upper
open Adt List Tunnel
open Function (update update_apply update_comm update_eq_self update_idem update_of_ne update_self)

namespace BearerTeid

instance : Std.Total BearerTeid.Le := ⟨fun p q => by unfold Le; omega⟩

instance : IsTrans BearerTeid BearerTeid.Le := ⟨fun p q x first second => by unfold Le at *; omega⟩

theorem Le.lt {p q : BearerTeid} (le : Le p q) (ne : p ≠ q) : Lt p q := by
  have apart : ¬ (p.1 = q.1 ∧ p.2 = q.2) := fun eq => ne (Prod.ext eq.1 eq.2)
  unfold Le at le
  unfold Lt
  omega

end BearerTeid

theorem sorted_insert {l : List BearerTeid} (sorted : l.Pairwise BearerTeid.Lt) {x : BearerTeid} (fresh : x ∉ l) :
    ((l ++ [x]).insertionSort BearerTeid.Le).Pairwise BearerTeid.Lt := by
  have ordered := pairwise_insertionSort BearerTeid.Le (l ++ [x])
  have nodup : ((l ++ [x]).insertionSort BearerTeid.Le).Nodup := by
    apply (perm_insertionSort BearerTeid.Le (l ++ [x])).nodup_iff.mpr
    rw [nodup_append]
    refine ⟨sorted.imp fun lt => lt.ne, nodup_singleton x, ?_⟩
    rintro p mem q single rfl
    rw [List.mem_singleton.mp single] at mem
    exact fresh mem
  exact (ordered.and nodup).imp fun both => both.1.lt both.2

theorem Table.insert {pool : Nat → Option Tunnel} {list : Nat → List BearerTeid} (table : Table pool list) {teid : Nat}
    (absent : pool teid = none) (new : Tunnel) (teidIn : new.teidIn = teid) (lte : isLteRb new.epsBearerId = true)
    (space : (list new.rnti).length < maxTunnelsPerUe) :
    Table (update pool teid (some new)) (update list new.rnti
      ((list new.rnti ++ [(new.epsBearerId, teid)]).insertionSort BearerTeid.Le)) := by
  have fresh : ∀ rnti p, p ∈ list rnti → p.2 ≠ teid := by
    rintro rnti p mem rfl
    obtain ⟨tun, found, _⟩ := table.owned rnti p mem
    rw [absent] at found
    contradiction
  have mem_new : ∀ rnti p, p ∈ update list new.rnti
      ((list new.rnti ++ [(new.epsBearerId, teid)]).insertionSort BearerTeid.Le) rnti ↔
      p ∈ list rnti ∨ rnti = new.rnti ∧ p = (new.epsBearerId, teid) := by
    intro rnti p
    rw [update_apply]
    split
    · rename_i same
      rw [same]
      simp
    · rename_i other
      simp [other]
  constructor
  · intro k tun found
    rcases update_eq_some.mp found with ⟨rfl, rfl⟩ | ⟨_, old⟩
    · exact teidIn
    · exact table.teidIn k tun old
  · intro k tun found
    rcases update_eq_some.mp found with ⟨rfl, rfl⟩ | ⟨_, old⟩
    · exact lte
    · exact table.lteRb k tun old
  · intro k tun found
    rw [mem_new]
    rcases update_eq_some.mp found with ⟨rfl, rfl⟩ | ⟨_, old⟩
    · exact .inr ⟨rfl, rfl⟩
    · exact .inl (table.listed k tun old)
  · intro rnti p mem
    rcases (mem_new rnti p).mp mem with old | ⟨rfl, rfl⟩
    · obtain ⟨tun, found, rest⟩ := table.owned rnti p old
      exact ⟨tun, by rw [update_of_ne (fresh rnti p old), found], rest⟩
    · exact ⟨new, by rw [update_self], rfl, rfl⟩
  · intro rnti
    rw [update_apply]
    split
    · exact sorted_insert (table.sorted _) fun mem => fresh _ _ mem rfl
    · exact table.sorted rnti
  · intro rnti
    rw [update_apply]
    split
    · rw [length_insertionSort, length_append]
      exact space
    · exact table.short rnti

def moved (pool : Nat → Option Tunnel) (oldRnti newRnti : Nat) : Nat → Option Tunnel :=
  fun k => (pool k).map fun tun => if tun.rnti = oldRnti then tun.relabelled newRnti else tun

section Moved
variable {pool : Nat → Option Tunnel} {oldRnti newRnti : Nat}

theorem moved_eq_some {k : Nat} {tun : Tunnel} : moved pool oldRnti newRnti k = some tun ↔
    ∃ old, pool k = some old ∧ (if old.rnti = oldRnti then old.relabelled newRnti else old) = tun := by
  simp [moved]

theorem moved_of_ne (oldRnti newRnti : Nat) {k : Nat} {old : Tunnel} (found : pool k = some old)
    (other : old.state ≠ .forwardTo) :
    ∃ tun, moved pool oldRnti newRnti k = some tun ∧ tun.state = old.state ∧ tun.onRemoval = old.onRemoval := by
  refine ⟨_, moved_eq_some.mpr ⟨old, found, rfl⟩, ?_⟩
  split
  · simp [relabelled, other]
  · simp

theorem Table.moved {list : Nat → List BearerTeid} (table : Table pool list)
    (empty : list newRnti = []) :
    Table (moved pool oldRnti newRnti)
      (update (update list oldRnti []) newRnti (list oldRnti)) := by
  have lists : ∀ rnti, update (update list oldRnti []) newRnti (list oldRnti) rnti =
      if rnti = newRnti then list oldRnti else if rnti = oldRnti then [] else list rnti := by
    intro rnti
    simp only [update_apply]
  constructor
  · intro k tun found
    obtain ⟨old, before, rfl⟩ := moved_eq_some.mp found
    rw [← table.teidIn k old before]
    unfold relabelled
    split_ifs <;> rfl
  · intro k tun found
    obtain ⟨old, before, rfl⟩ := moved_eq_some.mp found
    rw [← table.lteRb k old before]
    unfold relabelled
    split_ifs <;> rfl
  · intro k tun found
    obtain ⟨old, before, rfl⟩ := moved_eq_some.mp found
    have listed := table.listed k old before
    rw [lists]
    by_cases ofOld : old.rnti = oldRnti
    · rw [if_pos ofOld]
      have key : (old.relabelled newRnti).rnti = newRnti ∧ (old.relabelled newRnti).epsBearerId = old.epsBearerId := by
        unfold relabelled
        split <;> exact ⟨rfl, rfl⟩
      rw [key.1, key.2, if_pos rfl, ← ofOld]
      exact listed
    · have notNew : old.rnti ≠ newRnti := by
        intro same
        rw [same, empty] at listed
        contradiction
      rw [if_neg ofOld, if_neg notNew, if_neg ofOld]
      exact listed
  · intro rnti p mem
    rw [lists] at mem
    have own : ∀ rnti', p ∈ list rnti' → ∃ old, pool p.2 = some old ∧ old.rnti = rnti' ∧ old.epsBearerId = p.1 :=
      fun rnti' => table.owned rnti' p
    split at mem
    · rename_i isNew
      obtain ⟨old, before, ofOld, eps⟩ := own oldRnti mem
      refine ⟨_, moved_eq_some.mpr ⟨old, before, rfl⟩, ?_⟩
      rw [if_pos ofOld, isNew]
      unfold relabelled
      split <;> exact ⟨rfl, eps⟩
    · split at mem
      · contradiction
      · rename_i notOld
        obtain ⟨old, before, ofRnti, eps⟩ := own rnti mem
        refine ⟨_, moved_eq_some.mpr ⟨old, before, rfl⟩, ?_⟩
        rw [if_neg (by rw [ofRnti]; exact notOld)]
        exact ⟨ofRnti, eps⟩
  · intro rnti
    rw [lists]
    split_ifs
    · exact table.sorted oldRnti
    · exact List.Pairwise.nil
    · exact table.sorted rnti
  · intro rnti
    rw [lists]
    split_ifs
    · exact table.short oldRnti
    · exact Nat.zero_le _
    · exact table.short rnti

theorem Links.moved (links : Links pool) : Links (moved pool oldRnti newRnti) := by
  have callback : ∀ k tun, Upper.moved pool oldRnti newRnti k = some tun →
      ∃ old, pool k = some old ∧ old.onRemoval = tun.onRemoval := by
    intro k tun found
    obtain ⟨old, before, rfl⟩ := moved_eq_some.mp found
    refine ⟨old, before, ?_⟩
    unfold relabelled
    split_ifs <;> rfl
  constructor
  · intro k k' tun tun' found found' same
    obtain ⟨old, before, _⟩ := moved_eq_some.mp found
    obtain ⟨old', before', _⟩ := moved_eq_some.mp found'
    exact links.slot k k' old old' before before' same
  · intro k tun found state
    obtain ⟨old, before, rfl⟩ := moved_eq_some.mp found
    by_cases ofOld : old.rnti = oldRnti
    · rw [if_pos ofOld, relabelled] at state
      split at state
      · contradiction
      · rename_i notForward
        exact absurd state notForward
    · rw [if_neg ofOld] at state ⊢
      obtain ⟨txTeid, txTun, fwd, tx, from_, rnti, rest⟩ := links.forwards k old before state
      refine ⟨txTeid, txTun, fwd, moved_eq_some.mpr ⟨txTun, tx, ?_⟩, from_, rnti, rest⟩
      rw [if_neg (by rw [rnti]; exact ofOld)]
  · intro k tun found
    obtain ⟨old, before, rfl⟩ := moved_eq_some.mp found
    have buffered := links.buffered k old before
    unfold relabelled
    split_ifs with ofOld forward
    · rw [forward] at buffered
      simpa using buffered
    · exact buffered
    · exact buffered
  · intro k tun found afterTeid cb
    obtain ⟨old, before, same⟩ := callback k tun found
    obtain ⟨other, states⟩ := links.activates k old before afterTeid (same.trans cb)
    refine ⟨other, fun afterTun foundAfter => ?_⟩
    obtain ⟨oldAfter, beforeAfter, _⟩ := moved_eq_some.mp foundAfter
    have opened := states oldAfter beforeAfter
    obtain ⟨tun', found', state, _⟩ :=
      moved_of_ne oldRnti newRnti beforeAfter (by rcases opened with eq | eq <;> simp [eq])
    obtain rfl := Option.some.inj (foundAfter.symm.trans found')
    rw [state]
    exact opened
  · intro k tun found txTeid cb txTun foundTx
    obtain ⟨old, before, same⟩ := callback k tun found
    obtain ⟨oldTx, beforeTx, _⟩ := moved_eq_some.mp foundTx
    obtain ⟨nothing, states⟩ := links.removes k old before txTeid (same.trans cb) oldTx beforeTx
    obtain ⟨tun', found', state, sameCb⟩ :=
      moved_of_ne oldRnti newRnti beforeTx (by rcases states with eq | eq <;> simp [eq])
    obtain rfl := Option.some.inj (foundTx.symm.trans found')
    rw [state, sameCb]
    exact ⟨nothing, states⟩
  · intro k tun found state
    obtain ⟨old, before, same⟩ := callback k tun found
    rw [← same]
    apply links.receives k old before
    obtain ⟨old', before', rfl⟩ := moved_eq_some.mp found
    obtain rfl := Option.some.inj (before.symm.trans before')
    unfold relabelled at state
    split_ifs at state
    · exact state
    · exact state

end Moved

namespace Gtpu
variable {g : Gtpu}

variable {teid : Nat} {tun : Tunnel}

theorem freeId_free (free : g.freeId = some teid) : g.tunnels.slots (teid % maxTunnels) = none := by
  unfold freeId at free
  split at free
  · contradiction
  · simpa using List.find?_some free

def newTunnel (rnti epsBearerId teidOut spgwAddr teid : Nat) : Tunnel :=
  { rnti, epsBearerId, teidIn := teid, teidOut, spgwAddr }

section
variable (inv : g.Inv)
include inv

theorem addTunnel_none {rnti eps out addr : Nat} {g' : Gtpu}
    (added : g.addTunnel rnti eps out addr = (g', none)) : g'.Inv ∧ g'.pool = g.pool ∧ g'.list = g.list := by
  unfold addTunnel at added
  split at added
  · obtain ⟨rfl, _⟩ := Prod.mk.inj added
    exact ⟨inv, rfl, rfl⟩
  · split at added
    · obtain ⟨rfl, _⟩ := Prod.mk.inj added
      exact ⟨inv, rfl, rfl⟩
    · rename_i teid free
      dsimp only at added
      split at added
      · obtain ⟨rfl, _⟩ := Prod.mk.inj added
        have same : (g.tunnels.overwrite teid (newTunnel rnti eps out addr teid)).erase teid = g.tunnels :=
          CircularMap.erase_overwrite (freeId_free free) _
        have pool : ∀ nextId, ({ g with
            tunnels := (g.tunnels.overwrite teid (newTunnel rnti eps out addr teid)).erase teid, nextId } : Gtpu).pool =
            g.pool := by
          intro nextId
          rw [same]
          rfl
        exact ⟨.of_eq (pool _) rfl inv.table inv.links, pool _, rfl⟩
      · simp at added

theorem addTunnel_some {rnti eps out addr : Nat} {g' : Gtpu}
    (added : g.addTunnel rnti eps out addr = (g', some teid)) :
    g.freeId = some teid ∧ g.pool teid = none ∧
      g'.pool = update g.pool teid (some (newTunnel rnti eps out addr teid)) ∧
      (Unreferred g.pool teid → g'.Inv) := by
  unfold addTunnel at added
  split at added
  · simp at added
  · rename_i lte
    split at added
    · simp at added
    · rename_i teid' free
      dsimp only at added
      split at added
      · simp at added
      · rename_i space
        obtain ⟨rfl, eq⟩ := Prod.mk.inj added
        obtain rfl := Option.some.inj eq
        have slot := freeId_free free
        have alone : ∀ k tun, g.pool k = some tun → k % maxTunnels = teid' % maxTunnels → k = teid' := by
          intro k tun found same
          have taken := slot_eq found
          rw [same, slot] at taken
          contradiction
        have absent : g.pool teid' = none := by
          unfold pool CircularMap.find
          rw [slot]
        have pool : Gtpu.pool { g with
            tunnels := g.tunnels.overwrite teid' (newTunnel rnti eps out addr teid'),
            nextId := (teid' + 1) % 2 ^ 32,
            ueTeidinDb := update g.ueTeidinDb rnti
              (some (((g.ueTeidinDb rnti).getD [] ++ [(eps, teid')]).insertionSort BearerTeid.Le)) } =
            update g.pool teid' (some (newTunnel rnti eps out addr teid')) := by
          funext k
          show (g.tunnels.overwrite teid' _).find k = _
          rw [CircularMap.find_overwrite_of_alone (alone k), update_apply]
          rfl
        refine ⟨free, absent, pool, fun unreferred => ?_⟩
        apply Inv.of_eq pool rfl
        · have short := inv.table.short rnti
          have table := inv.table.insert absent (newTunnel rnti eps out addr teid') rfl
            (by simpa [newTunnel] using lte) (Nat.lt_of_le_of_ne short space)
          convert table using 1
          funext r
          show (update g.ueTeidinDb rnti _ r).getD [] = update g.list rnti _ r
          rw [update_apply, update_apply]
          split <;> rfl
        · refine inv.links.assign_unreferred unreferred alone ⟨?_, ?_, ?_, ?_, ?_⟩
          · intro state
            contradiction
          · simp [newTunnel]
          · intro k callback
            contradiction
          · intro k callback
            contradiction
          · intro state
            contradiction

section
variable (found : g.pool teid = some tun)
include found

theorem Inv.alone :
    ∀ k tun', g.pool k = some tun' → k % maxTunnels = teid % maxTunnels → k = teid :=
  fun k tun' there same => inv.links.slot k teid tun' tun there found same

theorem activateTunnel_ok (opened : tun.Open) : ∃ g', g.activateTunnel teid = .ok g' ∧ g'.Inv := by
  obtain ⟨tunnels, activated, after⟩ := activateTunnel_eq found opened (inv.links.buffered teid tun found)
  refine ⟨_, activated, .of_eq after rfl (inv.table.assign found rfl rfl rfl) ?_⟩
  exact inv.links.assign_open found opened (.inl rfl) rfl (by simp [Tunnel.activated])

theorem suspendTunnel_ok :
    ∃ tunnels, g.suspendTunnel teid = .ok { g with tunnels } ∧
      tunnels.find = update g.pool teid (some tun.suspended) ∧ Gtpu.Inv { g with tunnels } := by
  obtain ⟨tunnels, suspended, after⟩ := suspendTunnel_eq found
  refine ⟨tunnels, suspended, after, ?_⟩
  have buffered := inv.links.buffered teid tun found
  by_cases active : tun.state = .pdcpActive
  · refine .of_eq after rfl (inv.table.assign found (by simp) (by simp) (by simp)) ?_
    exact inv.links.assign_open found (.inl active) (suspended_open (.inl active)) (by simp)
      (suspended_buffered buffered)
  · have same : tun.suspended = tun := if_neg active
    rw [same, ← found, update_eq_self] at after
    exact .of_eq after rfl inv.table inv.links

end

theorem setTunnelPriority_ok {beforeTeid afterTeid : Nat} {beforeTun afterTun : Tunnel}
    (before : g.pool beforeTeid = some beforeTun) (buffering : beforeTun.state = .buffering)
    (unreferred : Unreferred g.pool beforeTeid) (after : g.pool afterTeid = some afterTun) (opened : afterTun.Open)
    (other : afterTeid ≠ beforeTeid) :
    ∃ tunnels, g.setTunnelPriority beforeTeid afterTeid = .ok { g with tunnels } ∧ Gtpu.Inv { g with tunnels } ∧
      tunnels.find = update (update g.pool afterTeid (some afterTun.suspended)) beforeTeid
        (some { beforeTun with
          onRemoval := .activate afterTeid
          rxTimer := decide (g.indirectTunnelTimeoutMsec > 0) || beforeTun.rxTimer }) := by
  obtain ⟨tunnels, suspended, pool, inv'⟩ := suspendTunnel_ok inv after
  have before' : Gtpu.pool { g with tunnels } beforeTeid = some beforeTun := by
    show tunnels.find beforeTeid = _
    rw [pool, update_of_ne other.symm, before]
  let new : Tunnel := { beforeTun with
    onRemoval := .activate afterTeid
    rxTimer := decide (g.indirectTunnelTimeoutMsec > 0) || beforeTun.rxTimer }
  have result : (tunnels.assign beforeTeid new).find = update tunnels.find beforeTeid (some new) :=
    pool_setTunnel before' new
  refine ⟨tunnels.assign beforeTeid new, ?_, ?_, by rw [result, pool]⟩
  · unfold setTunnelPriority
    simp only [bind, Except.bind, tunnel_eq before, suspended, tunnel_eq before']
    rfl
  · refine .of_eq result rfl (inv'.table.assign before' rfl rfl rfl) ?_
    have unreferred' : Unreferred tunnels.find beforeTeid := by
      rw [pool]
      exact unreferred.assign afterTeid (by rw [suspended_onRemoval]; exact unreferred _ afterTun after)
    refine inv'.links.assign_unreferred unreferred' (inv'.alone before') ⟨?_, ?_, ?_, ?_, ?_⟩
    · intro state
      rw [show new.state = _ from buffering] at state
      contradiction
    · exact inv'.links.buffered beforeTeid beforeTun before'
    · intro k callback
      obtain rfl : afterTeid = k := OnRemoval.activate.inj callback
      refine ⟨other, fun tun found => ?_⟩
      rw [show Gtpu.pool { g with tunnels } = _ from pool, update_self] at found
      obtain rfl := Option.some.inj found
      exact suspended_open opened
    · intro k callback
      contradiction
    · intro state
      rw [show new.state = _ from buffering] at state
      contradiction

theorem bufferPdcpSdu_ok (found : g.pool teid = some tun)
    (buffering : tun.state = .buffering) (pdcpSn : Option Nat) (sdu : Pdu) :
    ∃ g', g.bufferPdcpSdu teid pdcpSn sdu = .ok g' ∧ g'.Inv := by
  obtain ⟨buffer, present⟩ := Option.isSome_iff_exists.mp ((inv.links.buffered teid tun found).mpr buffering)
  unfold bufferPdcpSdu
  rw [tunnel_eq found]
  simp only [bind, Except.bind, buffering, present, ne_eq, not_true, if_false]
  split
  · exact ⟨g, rfl, inv⟩
  · refine ⟨_, rfl, .of_eq (pool_setTunnel found _) rfl (inv.table.assign found rfl rfl rfl) ?_⟩
    exact inv.links.assign_open found (.inr buffering) (.inr rfl) rfl (by simp)

theorem setupForwarding_ok {rxTeid txTeid : Nat} {rxTun txTun : Tunnel}
    (rx : g.pool rxTeid = some rxTun) (tx : g.pool txTeid = some txTun) (other : rxTeid ≠ txTeid)
    (rxUnreferred : Unreferred g.pool rxTeid) (txUnreferred : Unreferred g.pool txTeid)
    (unbuffered : rxTun.state ≠ .buffering) (active : txTun.state = .pdcpActive) (nothing : txTun.onRemoval = .nothing)
    (rnti : txTun.rnti = rxTun.rnti) (eps : txTun.epsBearerId = rxTun.epsBearerId) :
    ∃ tunnels, g.setupForwarding rxTeid txTeid = .ok { g with tunnels } ∧ Gtpu.Inv { g with tunnels } ∧
      tunnels.find txTeid = some { txTun with state := .forwardedFrom } := by
  let newRx : Tunnel := { rxTun with
    state := .forwardTo, fwdTunnel := some (txTeid % maxTunnels), onRemoval := .remove txTeid }
  let newTx : Tunnel := { txTun with state := .forwardedFrom }
  have first := pool_setTunnel rx newRx
  have tx' : (g.setTunnel rxTeid newRx).pool txTeid = some txTun := by
    rw [first, update_of_ne other.symm, tx]
  have second := pool_setTunnel tx' newTx
  have result : ((g.setTunnel rxTeid newRx).setTunnel txTeid newTx).pool =
      update (update g.pool txTeid (some newTx)) rxTeid (some newRx) := by
    rw [second, first, update_comm other.symm]
  refine ⟨((g.setTunnel rxTeid newRx).setTunnel txTeid newTx).tunnels, ?_, ?_, ?_⟩
  · unfold setupForwarding
    simp only [bind, Except.bind, tunnel_eq rx]
    rw [tunnel_eq tx']
    rfl
  · have noBuffer : txTun.buffer.isSome ↔ newTx.state = .buffering := by
      rw [inv.links.buffered txTeid txTun tx, active]
      simp
    have linksTx : Links (update g.pool txTeid (some newTx)) := by
      refine inv.links.assign_unreferred txUnreferred (inv.alone tx) ⟨?_, ?_, ?_, ?_, ?_⟩
      · intro state
        contradiction
      · exact noBuffer
      · intro k callback
        rw [show newTx.onRemoval = _ from nothing] at callback
        contradiction
      · intro k callback
        rw [show newTx.onRemoval = _ from nothing] at callback
        contradiction
      · intro _
        exact nothing
    have tableTx : Table (update g.pool txTeid (some newTx)) g.list := inv.table.assign tx rfl rfl rfl
    have rx' : update g.pool txTeid (some newTx) rxTeid = some rxTun := by
      rw [update_of_ne other, rx]
    refine .of_eq result rfl (tableTx.assign rx' rfl rfl rfl) ?_
    have rxUnreferred' : Unreferred (update g.pool txTeid (some newTx)) rxTeid :=
      rxUnreferred.assign txTeid (by rw [show newTx.onRemoval = _ from nothing]; simp)
    refine linksTx.assign_unreferred rxUnreferred' ?_ ⟨?_, ?_, ?_, ?_, ?_⟩
    · exact fun k tun found same => linksTx.slot k rxTeid tun rxTun found rx' same
    · intro _
      exact ⟨txTeid, newTx, other.symm, rfl, update_self .., rfl, rnti, eps, rfl⟩
    · have empty := inv.links.buffered rxTeid rxTun rx
      simp only [unbuffered] at empty
      simp [newRx, empty]
    · intro k callback
      contradiction
    · intro k callback
      obtain rfl : txTeid = k := OnRemoval.remove.inj callback
      refine ⟨other.symm, fun tun found => ?_⟩
      rw [update_self] at found
      obtain rfl := Option.some.inj found
      exact ⟨nothing, .inl rfl⟩
    · intro state
      contradiction
  · show Gtpu.pool _ txTeid = _
    rw [second, update_self]

theorem deactivateTunnel_ok (found : g.pool teid = some tun)
    (from_ : tun.state = .forwardedFrom) :
    ∃ tunnels, g.deactivateTunnel teid = .ok { g with tunnels } ∧ Gtpu.Inv { g with tunnels } ∧
      tunnels.find = update (fun k => (g.pool k).map (Tunnel.cut teid)) teid
        (some { tun with state := .inactive }) := by
  obtain ⟨tunnels, deactivated, after⟩ := deactivateTunnel_eq inv.living found
  let dead : Tunnel := { tun with state := .inactive }
  have pool : tunnels.find = update (dropped g.pool teid) teid (some dead) := by
    rw [after, dropped, update_idem]
  refine ⟨tunnels, deactivated, Inv.of_eq (show Gtpu.pool { g with tunnels } = _ from after) rfl ?_ ?_, after⟩
  · apply inv.table.congr
    intro k
    by_cases same : k = teid
    · rw [same, update_self, found]
      rfl
    · rw [update_of_ne same]
      cases g.pool k with
      | none => rfl
      | some old => simp [key]
  · rw [← after, pool]
    refine inv.links.dropped.assign ?_ ?_ ?_ ⟨?_, ?_, ?_, ?_, ?_⟩
    · intro k tun' there callback
      obtain ⟨_, old, before, rfl⟩ := dropped_eq_some.mp there
      have opened := (inv.links.activates k old before teid (by simpa using callback)).2 tun found
      rcases opened with eq | eq <;> simp [from_] at eq
    · intro k tun' there remove
      refine ⟨fun state => ?_, inv.links.receives teid tun found from_, .inr rfl⟩
      obtain ⟨txTeid, txTun, _, tx, _, _, _, callback⟩ := inv.links.dropped.forwards k tun' there state
      obtain rfl := OnRemoval.remove.inj (callback.symm.trans remove)
      exact (dropped_eq_some.mp tx).1 rfl
    · intro k tun' there same
      obtain ⟨_, old, before, _⟩ := dropped_eq_some.mp there
      exact inv.alone found k old before same
    · intro state
      contradiction
    · have empty := inv.links.buffered teid tun found
      simp only [from_] at empty
      simp [dead, empty]
    · intro k callback
      rw [show dead.onRemoval = _ from inv.links.receives teid tun found from_] at callback
      contradiction
    · intro k callback
      rw [show dead.onRemoval = _ from inv.links.receives teid tun found from_] at callback
      contradiction
    · intro state
      contradiction

end

theorem relabel_eq (newRnti : Nat) (l : List BearerTeid) {g : Gtpu} (nodup : (l.map (·.2)).Nodup)
    (present : ∀ p ∈ l, (g.pool p.2).isSome) :
    ∃ tunnels toRemove, relabel newRnti l g = .ok ({ g with tunnels }, toRemove) ∧
      (∀ k, tunnels.find k = if k ∈ l.map (·.2) then (g.pool k).map (relabelled newRnti) else g.pool k) ∧
      toRemove.Nodup ∧
      ∀ k, k ∈ toRemove ↔ k ∈ l.map (·.2) ∧ ∃ tun, g.pool k = some tun ∧ tun.state = .forwardedFrom := by
  induction l generalizing g with
  | nil => exact ⟨g.tunnels, [], rfl, by simp [pool], nodup_nil, by simp⟩
  | cons p rest ih =>
    rw [map_cons, nodup_cons] at nodup
    obtain ⟨fresh, nodupRest⟩ := nodup
    obtain ⟨tun, found⟩ := Option.isSome_iff_exists.mp (present p (mem_cons_self ..))
    have afterOne := pool_setTunnel found (tun.relabelled newRnti)
    have others : ∀ k, k ∈ rest.map (·.2) → (g.setTunnel p.2 (tun.relabelled newRnti)).pool k = g.pool k := by
      intro k mem
      rw [afterOne, update_of_ne]
      rintro rfl
      exact fresh mem
    obtain ⟨tunnels, toRemove, result, after, nodupRemove, memRemove⟩ :=
      ih (g := g.setTunnel p.2 (tun.relabelled newRnti)) nodupRest (by
        intro q mem
        rw [others q.2 (mem_map_of_mem mem)]
        exact present q (mem_cons_of_mem _ mem))
    refine ⟨tunnels, if tun.state = .forwardedFrom then p.2 :: toRemove else toRemove, ?_, ?_, ?_, ?_⟩
    · rw [relabel, tunnel_eq found]
      change (relabel newRnti rest (g.setTunnel p.2 (tun.relabelled newRnti)) >>= fun r =>
        .ok (r.1, if tun.state = TunnelState.forwardedFrom then p.2 :: r.2 else r.2)) = _
      rw [result]
      rfl
    · intro k
      rw [after k]
      by_cases same : k = p.2
      · subst same
        rw [if_neg fresh, if_pos (by simp), afterOne, update_self, found, Option.map_some]
      · rw [map_cons]
        simp only [mem_cons, same, false_or]
        rw [afterOne, update_of_ne same]
    · split
      · refine List.nodup_cons.mpr ⟨fun mem => fresh ((memRemove p.2).mp mem).1, nodupRemove⟩
      · exact nodupRemove
    · intro k
      have inRest : k ∈ toRemove ↔ k ∈ rest.map (·.2) ∧ ∃ tun, g.pool k = some tun ∧ tun.state = .forwardedFrom := by
        rw [memRemove k]
        apply and_congr_right
        intro mem
        rw [others k mem]
      rw [map_cons, mem_cons]
      split
      · rename_i state
        rw [mem_cons, inRest]
        constructor
        · rintro (rfl | ⟨mem, there⟩)
          · exact ⟨.inl rfl, tun, found, state⟩
          · exact ⟨.inr mem, there⟩
        · rintro ⟨rfl | mem, there⟩
          · exact .inl rfl
          · exact .inr ⟨mem, there⟩
      · rename_i state
        rw [inRest]
        constructor
        · exact And.imp_left .inr
        · rintro ⟨rfl | mem, there⟩
          · obtain ⟨tun', found', from_⟩ := there
            obtain rfl := Option.some.inj (found.symm.trans found')
            exact absurd from_ state
          · exact ⟨mem, there⟩

theorem removeAll_ok (l : List Nat) {g : Gtpu} (inv : g.Inv) (nodup : l.Nodup)
    (from_ : ∀ k ∈ l, ∃ tun, g.pool k = some tun ∧ tun.state = .forwardedFrom) :
    ∃ g', removeAll l g = .ok g' ∧ g'.Inv ∧ ∀ rnti, (g'.list rnti).Sublist (g.list rnti) := by
  induction l generalizing g with
  | nil => exact ⟨g, rfl, inv, fun rnti => List.Sublist.refl _⟩
  | cons k rest ih =>
    obtain ⟨fresh, nodupRest⟩ := List.nodup_cons.mp nodup
    obtain ⟨tun, found, state⟩ := from_ k (mem_cons_self ..)
    obtain ⟨g₁, removed, _, lists, after⟩ :=
      removeTunnel_nothing inv.living found (inv.links.receives k tun found state) maxTunnels
    have inv₁ : g₁.Inv := .of_eq after lists inv.table.dropped inv.links.dropped
    obtain ⟨g', result, inv', sublist⟩ := ih inv₁ nodupRest (by
      intro k' mem
      obtain ⟨tun', found', state'⟩ := from_ k' (mem_cons_of_mem _ mem)
      refine ⟨tun', ?_, state'⟩
      rw [after, dropped_eq_some]
      refine ⟨?_, tun', found', cut_of_ne (by simp [state'])⟩
      rintro rfl
      exact fresh mem)
    refine ⟨g', ?_, inv', fun rnti => (sublist rnti).trans ?_⟩
    · rw [removeAll]
      change removeTunnel (maxTunnels + 1) g k >>= _ = _
      rw [removed]
      exact result
    · rw [lists]
      exact unlisted_sublist _ _ _

theorem updateRnti_ok (inv : g.Inv) (oldRnti newRnti : Nat) :
    ∃ g', g.updateRnti oldRnti newRnti = .ok g' ∧ g'.Inv := by
  unfold updateRnti
  cases entry : g.ueTeidinDb oldRnti with
  | none => exact ⟨g, rfl, inv⟩
  | some old =>
    dsimp only
    split
    · exact ⟨g, rfl, inv⟩
    · rename_i free
      have empty : g.list newRnti = [] := by simpa [list] using free
      have listOld : g.list oldRnti = old := by simp [list, entry]
      have owner : ∀ p ∈ old, ∃ tun, g.pool p.2 = some tun ∧ tun.rnti = oldRnti ∧ tun.epsBearerId = p.1 := by
        intro p mem
        rw [← listOld] at mem
        exact inv.table.owned oldRnti p mem
      have nodup : (old.map (·.2)).Nodup := by
        rw [List.Nodup, pairwise_map]
        have distinct : old.Pairwise (· ≠ ·) := by
          rw [← listOld]
          exact (inv.table.sorted oldRnti).imp fun lt => lt.ne
        refine distinct.imp_of_mem fun {p q} memP memQ ne same => ?_
        obtain ⟨tun, found, _, eps⟩ := owner p memP
        obtain ⟨tun', found', _, eps'⟩ := owner q memQ
        rw [same] at found
        obtain rfl := Option.some.inj (found.symm.trans found')
        exact ne (Prod.ext (eps.symm.trans eps') same)
      let swapped : Gtpu := { g with
        ueTeidinDb := update (update g.ueTeidinDb oldRnti (some [])) newRnti (some old) }
      obtain ⟨tunnels, toRemove, relabelled, after, nodupRemove, memRemove⟩ :=
        relabel_eq newRnti old (g := swapped) nodup fun p mem => by
          obtain ⟨tun, found, _⟩ := owner p mem
          exact Option.isSome_iff_exists.mpr ⟨tun, found⟩
      have pool : tunnels.find = moved g.pool oldRnti newRnti := by
        funext k
        rw [after k, moved]
        cases there : g.pool k with
        | none => simp [show swapped.pool k = none from there]
        | some tun =>
          rw [show swapped.pool k = some tun from there, Option.map_some, Option.map_some]
          by_cases ofOld : tun.rnti = oldRnti
          · have mem : k ∈ old.map (·.2) := by
              have listed := inv.table.listed k tun there
              rw [ofOld, listOld] at listed
              exact List.mem_map.mpr ⟨_, listed, rfl⟩
            rw [if_pos mem, if_pos ofOld]
          · have notMem : k ∉ old.map (·.2) := by
              intro mem
              obtain ⟨p, memP, rfl⟩ := List.mem_map.mp mem
              obtain ⟨tun', found, rnti, _⟩ := owner p memP
              obtain rfl := Option.some.inj (there.symm.trans found)
              exact ofOld rnti
            rw [if_neg notMem, if_neg ofOld]
      have lists : Gtpu.list { swapped with tunnels } =
          update (update g.list oldRnti []) newRnti (g.list oldRnti) := by
        funext rnti
        show (update (update g.ueTeidinDb oldRnti (some [])) newRnti (some old) rnti).getD [] = _
        rw [listOld]
        simp only [update_apply]
        split_ifs <;> rfl
      have inv' : Gtpu.Inv { swapped with tunnels } := .of_eq pool lists (inv.table.moved empty) inv.links.moved
      obtain ⟨g₂, result, inv₂, sublist⟩ := removeAll_ok toRemove.reverse inv' (List.nodup_reverse.mpr nodupRemove)
        fun k mem => by
          obtain ⟨_, tun, found, state⟩ := (memRemove k).mp (List.mem_reverse.mp mem)
          obtain ⟨tun', found', state', _⟩ :=
            moved_of_ne oldRnti newRnti (show g.pool k = some tun from found)
              (by simp [state])
          exact ⟨tun', (congrFun pool k).trans found', state'.trans state⟩
      have emptied : g₂.list oldRnti = [] := by
        have before : Gtpu.list { swapped with tunnels } oldRnti = [] := by
          rw [lists, update_apply]
          split
          · rename_i same
            rw [same]
            exact empty
          · rw [update_self]
        have sub := sublist oldRnti
        rw [before] at sub
        exact List.sublist_nil.mp sub
      refine ⟨{ g₂ with ueTeidinDb := update g₂.ueTeidinDb oldRnti (some []) }, ?_, ?_⟩
      · change (relabel newRnti old swapped >>= fun r => removeAll r.2.reverse r.1 >>= fun g =>
          .ok { g with ueTeidinDb := update g.ueTeidinDb oldRnti (some []) }) = _
        rw [relabelled]
        simp only [bind, Except.bind, result]
      · refine .of_eq rfl ?_ inv₂.table inv₂.links
        funext rnti
        show (update g₂.ueTeidinDb oldRnti (some []) rnti).getD [] = _
        rw [update_apply]
        split
        · rename_i same
          rw [same, emptied]
          rfl
        · rfl

end Gtpu

end IsrRan.Upper
