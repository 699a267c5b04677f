import IsrRan.Upper.Gtpu

namespace IsrRan.Upper
open Adt List Option Tunnel
open Function (update update_apply update_eq_self update_of_ne update_self)

namespace BearerTeid

theorem Lt.ne {p q : BearerTeid} (lt : Lt p q) : p ≠ q := by
  rintro rfl
  unfold Lt at lt
  omega

theorem Lt.trans {p q x : BearerTeid} (first : Lt p q) (second : Lt q x) : Lt p x := by
  unfold Lt at *
  omega

end BearerTeid

theorem lowerBound_eq_filter {l : List BearerTeid} (sorted : l.Pairwise BearerTeid.Lt) (x : BearerTeid) :
    lowerBound l x = l.filter fun p => !decide (BearerTeid.Lt p x) := by
  apply Lib.dropWhile_eq_filter sorted
  intro a b lt below
  exact decide_eq_true (lt.trans (of_decide_eq_true below))

theorem lowerBound_of_mem {l : List BearerTeid} (sorted : l.Pairwise BearerTeid.Lt) {x : BearerTeid} (mem : x ∈ l) :
    ∃ rest, lowerBound l x = x :: rest := by
  have inside : x ∈ lowerBound l x := by
    rw [lowerBound_eq_filter sorted]
    simp [mem, BearerTeid.Lt]
  have above : ∀ p ∈ lowerBound l x, ¬ BearerTeid.Lt p x := by
    intro p memP
    rw [lowerBound_eq_filter sorted] at memP
    simpa using (List.mem_filter.mp memP).2
  have ordered : (lowerBound l x).Pairwise BearerTeid.Lt := by
    rw [lowerBound_eq_filter sorted]
    exact sorted.filter _
  cases eq : lowerBound l x with
  | nil => simp [eq] at inside
  | cons first rest =>
    rw [eq] at inside above ordered
    rcases List.mem_cons.mp inside with rfl | later
    · exact ⟨rest, rfl⟩
    · exact absurd ((List.pairwise_cons.mp ordered).1 x later) (above first (mem_cons_self ..))

def Tunnel.flushed (tun : Tunnel) : List WriteSdu :=
  match tun.buffer with
  | none => []
  | some buffer => (buffer.insertionSort lowerSn).map (WriteSdu.ofRx tun.rnti tun.epsBearerId)

def Tunnel.activated (tun : Tunnel) : Tunnel := { tun with buffer := none, state := .pdcpActive }

def Tunnel.suspended (tun : Tunnel) : Tunnel :=
  if tun.state = .pdcpActive then { tun with buffer := some [], state := .buffering } else tun

def Tunnel.relabelled (newRnti : Nat) (tun : Tunnel) : Tunnel :=
  if tun.state = .forwardTo then { tun with rnti := newRnti, state := .pdcpActive, fwdTunnel := none }
  else { tun with rnti := newRnti }

namespace Tunnel

theorem suspended_open {tun : Tunnel} (opened : tun.Open) : tun.suspended.Open := by
  unfold suspended
  split
  · exact .inr rfl
  · exact opened

@[simp] theorem suspended_rnti (tun : Tunnel) : tun.suspended.rnti = tun.rnti := by
  unfold suspended; split <;> rfl

@[simp] theorem suspended_epsBearerId (tun : Tunnel) : tun.suspended.epsBearerId = tun.epsBearerId := by
  unfold suspended; split <;> rfl

@[simp] theorem suspended_teidIn (tun : Tunnel) : tun.suspended.teidIn = tun.teidIn := by
  unfold suspended; split <;> rfl

@[simp] theorem suspended_onRemoval (tun : Tunnel) : tun.suspended.onRemoval = tun.onRemoval := by
  unfold suspended; split <;> rfl

theorem suspended_buffered {tun : Tunnel} (buffered : tun.buffer.isSome ↔ tun.state = .buffering) :
    tun.suspended.buffer.isSome ↔ tun.suspended.state = .buffering := by
  unfold suspended
  split
  · simp
  · exact buffered

end Tunnel

namespace Gtpu

def pool (g : Gtpu) : Nat → Option Tunnel := g.tunnels.find

def list (g : Gtpu) (rnti : Nat) : List BearerTeid := (g.ueTeidinDb rnti).getD []

structure Inv (g : Gtpu) : Prop where
  table : Table g.pool g.list
  links : Links g.pool

section Basic
variable {g : Gtpu} {teid : Nat} {tun : Tunnel}

section
variable (found : g.pool teid = some tun)
include found

theorem tunnel_eq : g.tunnel teid = .ok tun := by
  rw [pool] at found
  rw [tunnel, found]

theorem pool_setTunnel (new : Tunnel) :
    (g.setTunnel teid new).pool = update g.pool teid (some new) := by
  funext k
  have present : g.tunnels.contains teid = true := CircularMap.contains_eq_true.mpr ⟨tun, found⟩
  show (g.tunnels.assign teid new).find k = _
  rw [CircularMap.find_assign present, update_apply]
  rfl

theorem slot_eq : g.tunnels.slots (teid % maxTunnels) = some (teid, tun) :=
  CircularMap.find_of_slot found

end

theorem mem_findRntiBearerTunnels (sorted : ∀ rnti, (g.list rnti).Pairwise BearerTeid.Lt) {rnti eps : Nat}
    {p : BearerTeid} :
    p ∈ g.findRntiBearerTunnels rnti eps ↔ isLteRb eps = true ∧ p ∈ g.list rnti ∧ p.1 = eps := by
  unfold findRntiBearerTunnels
  cases lte : isLteRb eps with
  | false => simp
  | true =>
    have listed := sorted rnti
    unfold list at listed ⊢
    cases entry : g.ueTeidinDb rnti with
    | none => simp
    | some ue =>
      rw [entry] at listed
      dsimp only [getD_some] at listed ⊢
      rw [ lowerBound_eq_filter listed,
        Lib.takeWhile_eq_filter (listed.filter _) fun a b lt below =>
          decide_eq_true (lt.trans (of_decide_eq_true below))]
      simp [BearerTeid.Lt]
      omega

end Basic

variable {teid : Nat} {g : Gtpu} {tun : Tunnel}

theorem deactivateSources_eq (l : List BearerTeid)
    (present : ∀ p ∈ l, p.2 ≠ teid → (g.pool p.2).isSome) :
    ∃ tunnels, g.deactivateSources teid (teid % maxTunnels) l = .ok { g with tunnels } ∧
      ∀ k, tunnels.find k = if k ≠ teid ∧ k ∈ l.map (·.2) then (g.pool k).map (Tunnel.cut teid) else g.pool k := by
  induction l generalizing g with
  | nil => exact ⟨g.tunnels, rfl, by simp [pool]⟩
  | cons p rest ih =>
    have later : ∀ q ∈ rest, q.2 ≠ teid → (g.pool q.2).isSome := fun q mem => present q (mem_cons_of_mem _ mem)
    by_cases self : p.2 = teid
    · obtain ⟨tunnels, result, after⟩ := ih later
      refine ⟨tunnels, by rw [deactivateSources, if_neg (by simp [self]), result], fun k => ?_⟩
      rw [after k]
      by_cases same : k = teid
      · simp [same]
      · have other : k ≠ p.2 := by
          rw [self]
          exact same
        simp only [map_cons, mem_cons, other, false_or]
    · obtain ⟨tun, found⟩ := Option.isSome_iff_exists.mp (present p (mem_cons_self ..) self)
      have source : g.tunnels.find p.2 = some tun := found
      by_cases cond : tun.state = .forwardTo ∧ tun.fwdTunnel = some (teid % maxTunnels)
      · have afterOne := pool_setTunnel found { tun with state := .inactive }
        obtain ⟨tunnels, result, after⟩ := ih (g := g.setTunnel p.2 { tun with state := .inactive }) (by
          intro q mem other
          rw [afterOne, update_apply]
          split
          · rfl
          · exact later q mem other)
        refine ⟨tunnels, ?_, fun k => ?_⟩
        · rw [deactivateSources, if_pos self]
          simp only [source]
          rw [if_pos cond]
          exact result
        · rw [after k, afterOne, update_apply]
          have cutTun : tun.cut teid = { tun with state := .inactive } := by rw [Tunnel.cut, if_pos cond]
          by_cases same : k = p.2
          · subst same
            simp only [if_true, self, ne_eq, not_false_eq_true, true_and, map_cons, mem_cons, true_or, found,
              map_some, cutTun]
            rw [cut_of_ne (by simp), ite_self]
          · simp only [map_cons, mem_cons, same, false_or, if_false]
      · obtain ⟨tunnels, result, after⟩ := ih later
        refine ⟨tunnels, ?_, fun k => ?_⟩
        · rw [deactivateSources, if_pos self]
          simp only [source]
          rw [if_neg cond]
          exact result
        · rw [after k]
          by_cases same : k = p.2
          · subst same
            simp [found, Tunnel.cut, cond]
          · simp only [map_cons, mem_cons, same, false_or]

structure Living (g : Gtpu) (living : Nat → Option Tunnel) : Prop where
  table : Table living g.list
  links : Links living
  inPool : ∀ k tun, living k = some tun → g.pool k = some tun
  dying : ∀ k tun, g.pool k = some tun → living k = none → tun.state = .inactive

theorem Inv.living (inv : g.Inv) : g.Living g.pool where
  table := inv.table
  links := inv.links
  inPool := fun _ _ found => found
  dying := by
    intro k tun found none
    rw [found] at none
    contradiction

theorem deactivateTunnel_eq {living : Nat → Option Tunnel} (inv : g.Living living)
    (alive : living teid = some tun) :
    ∃ tunnels, g.deactivateTunnel teid = .ok { g with tunnels } ∧
      tunnels.find = update (fun k => (g.pool k).map (Tunnel.cut teid)) teid
        (some { tun with state := .inactive }) := by
  have found := inv.inPool teid tun alive
  have sources : ∃ tunnels, (if tun.state = .forwardedFrom then
      g.deactivateSources teid (teid % maxTunnels) (g.findRntiBearerTunnels tun.rnti tun.epsBearerId)
      else .ok g) = .ok { g with tunnels } ∧ tunnels.find teid = some tun ∧
      ∀ k, k ≠ teid → tunnels.find k = (g.pool k).map (Tunnel.cut teid) := by
    by_cases state : tun.state = .forwardedFrom
    · have inList : ∀ p ∈ g.findRntiBearerTunnels tun.rnti tun.epsBearerId, p.2 ≠ teid → (g.pool p.2).isSome := by
        intro p mem _
        obtain ⟨tun', foundP, _⟩ :=
          inv.table.owned tun.rnti p ((mem_findRntiBearerTunnels inv.table.sorted).mp mem).2.1
        rw [inv.inPool p.2 tun' foundP]
        rfl
      obtain ⟨tunnels, result, after⟩ := deactivateSources_eq _ inList
      refine ⟨tunnels, by rw [if_pos state, result], by rw [after teid, if_neg (by simp), found], fun k other => ?_⟩
      rw [after k]
      split
      · rfl
      · rename_i unlisted
        cases source : g.pool k with
        | none => rfl
        | some tun' =>
          have untouched : tun'.cut teid = tun' := by
            by_contra changed
            have cond : tun'.state = .forwardTo ∧ tun'.fwdTunnel = some (teid % maxTunnels) := by
              by_contra cond
              exact changed (by rw [Tunnel.cut, if_neg cond])
            cases live : living k with
            | none => simp [inv.dying k tun' source live] at cond
            | some tun'' =>
              obtain rfl := Option.some.inj ((inv.inPool k tun'' live).symm.trans source)
              obtain ⟨txTeid, txTun, fwd, tx, _, rnti, eps, _⟩ := inv.links.forwards k tun'' live cond.1
              have same := inv.links.slot txTeid teid txTun tun tx alive
                (Option.some.inj (fwd.symm.trans cond.2))
              subst same
              obtain rfl := Option.some.inj (tx.symm.trans alive)
              have mem : (tun''.epsBearerId, k) ∈ g.findRntiBearerTunnels txTun.rnti txTun.epsBearerId := by
                apply (mem_findRntiBearerTunnels inv.table.sorted).mpr
                refine ⟨inv.table.lteRb _ txTun alive, ?_, eps.symm⟩
                rw [rnti]
                exact inv.table.listed k tun'' live
              exact unlisted ⟨other, List.mem_map.mpr ⟨_, mem, rfl⟩⟩
          rw [map_some, untouched]
    · refine ⟨g.tunnels, by rw [if_neg state], found, fun k _ => ?_⟩
      cases source : g.pool k with
      | none => exact source
      | some tun' =>
        have untouched : tun'.cut teid = tun' := by
          cases live : living k with
          | none => exact cut_of_ne (by simp [inv.dying k tun' source live])
          | some tun'' =>
            obtain rfl := Option.some.inj ((inv.inPool k tun'' live).symm.trans source)
            exact inv.links.cut_eq alive state live
        rw [map_some, untouched]
        exact source
  obtain ⟨tunnels, result, itself, after⟩ := sources
  refine ⟨tunnels.assign teid { tun with state := .inactive }, ?_, ?_⟩
  · unfold deactivateTunnel
    rw [tunnel_eq found]
    simp only [bind, Except.bind, result]
    rfl
  · funext k
    rw [CircularMap.find_assign (CircularMap.contains_eq_true.mpr ⟨tun, itself⟩), update_apply]
    split
    · rfl
    · rename_i other
      exact after k other

theorem unlist_eq {pool : Nat → Option Tunnel} (table : Table pool g.list)
    (alive : pool teid = some tun) (new : Tunnel) (rnti : new.rnti = tun.rnti) (teidIn : new.teidIn = tun.teidIn)
    (eps : new.epsBearerId = tun.epsBearerId) :
    ∃ ueTeidinDb, g.unlist new = .ok { g with ueTeidinDb } ∧
      (fun rnti => (ueTeidinDb rnti).getD []) = unlisted g.list teid := by
  have sorted := table.sorted tun.rnti
  have mem : (tun.epsBearerId, teid) ∈ g.list tun.rnti := table.listed teid tun alive
  obtain ⟨rest, bound⟩ := lowerBound_of_mem sorted mem
  have parts : (g.list tun.rnti).takeWhile (fun p => decide (BearerTeid.Lt p (tun.epsBearerId, teid))) ++
      (tun.epsBearerId, teid) :: rest = g.list tun.rnti := by
    rw [← bound]
    exact takeWhile_append_dropWhile
  have others : ∀ rnti p, p ∈ g.list rnti → p.2 = teid → rnti = tun.rnti ∧ p = (tun.epsBearerId, teid) := by
    intro rnti p memP same
    obtain ⟨tun', found, ofRnti, ofEps⟩ := table.owned rnti p memP
    rw [same] at found
    obtain rfl := Option.some.inj (found.symm.trans alive)
    exact ⟨ofRnti.symm, Prod.ext ofEps.symm same⟩
  refine ⟨update g.ueTeidinDb tun.rnti (some ((g.list tun.rnti).takeWhile
    (fun p => decide (BearerTeid.Lt p (tun.epsBearerId, teid))) ++ rest)), ?_, ?_⟩
  · unfold unlist
    rw [rnti, teidIn, eps, table.teidIn teid tun alive]
    have first : lowerBound ((g.ueTeidinDb tun.rnti).getD []) (tun.epsBearerId, teid) = _ := bound
    simp only [first]
    rfl
  · funext rnti
    rw [update_apply]
    split
    · rename_i same
      subst same
      have nodup : (g.list tun.rnti).Pairwise (· ≠ ·) := sorted.imp fun lt => lt.ne
      rw [getD_some, unlisted, ← parts, filter_append, filter_cons_of_neg (by simp)]
      rw [← parts] at nodup
      obtain ⟨_, after, across⟩ := List.pairwise_append.mp nodup
      have before : ∀ p ∈ (g.list tun.rnti).takeWhile
          (fun p => decide (BearerTeid.Lt p (tun.epsBearerId, teid))), p.2 ≠ teid := by
        intro p memP same
        have inList : p ∈ g.list tun.rnti := (List.takeWhile_prefix _).subset memP
        exact across p memP _ (mem_cons_self ..) (others _ p inList same).2
      have behind : ∀ p ∈ rest, p.2 ≠ teid := by
        intro p memP same
        have inList : p ∈ g.list tun.rnti := by
          rw [← parts]
          exact mem_append_right _ (mem_cons_of_mem _ memP)
        exact (List.pairwise_cons.mp after).1 p memP (others _ p inList same).2.symm
      rw [parts, List.filter_eq_self.mpr (by simpa using before), List.filter_eq_self.mpr (by simpa using behind)]
    · rename_i other
      symm
      apply List.filter_eq_self.mpr
      intro p memP
      exact decide_eq_true fun same => other (others rnti p memP same).1

theorem activateTunnel_eq (found : g.pool teid = some tun) (opened : tun.Open)
    (buffered : tun.buffer.isSome ↔ tun.state = .buffering) :
    ∃ tunnels, g.activateTunnel teid = .ok { g with tunnels, sdus := g.sdus ++ tun.flushed } ∧
      tunnels.find = update g.pool teid (some tun.activated) := by
  unfold activateTunnel
  rw [tunnel_eq found]
  simp only [bind, Except.bind]
  rcases opened with active | buffering
  · have empty : tun.buffer = none := by
      rw [← not_isSome_iff_eq_none, buffered, active]
      simp
    refine ⟨g.tunnels, ?_, ?_⟩
    · rw [if_pos active, Tunnel.flushed, empty, append_nil]
    · have same : tun.activated = tun := by
        unfold Tunnel.activated
        rw [← active, ← empty]
      rw [same, ← found, update_eq_self]
      rfl
  · obtain ⟨buffer, present⟩ := Option.isSome_iff_exists.mp (buffered.mpr buffering)
    refine ⟨_, ?_, pool_setTunnel found tun.activated⟩
    rw [if_neg (by simp [buffering])]
    simp only [present, Tunnel.flushed]
    rfl

theorem suspendTunnel_eq (found : g.pool teid = some tun) :
    ∃ tunnels, g.suspendTunnel teid = .ok { g with tunnels } ∧
      tunnels.find = update g.pool teid (some tun.suspended) := by
  unfold suspendTunnel
  rw [tunnel_eq found]
  simp only [bind, Except.bind]
  by_cases active : tun.state = .pdcpActive
  · refine ⟨_, ?_, pool_setTunnel found tun.suspended⟩
    rw [if_neg (by simp [active]), Tunnel.suspended, if_pos active]
    rfl
  · refine ⟨g.tunnels, by rw [if_pos active], ?_⟩
    rw [Tunnel.suspended, if_neg active, ← found, update_eq_self]
    rfl

theorem removeTunnel_eq {living : Nat → Option Tunnel} (inv : g.Living living)
    (alive : living teid = some tun) (depth : Nat) :
    ∃ g', removeTunnel (depth + 1) g teid =
        (g'.runOnRemoval (removeTunnel depth) tun.onRemoval).map (fun g => { g with tunnels := g.tunnels.erase teid }) ∧
      (∃ tunnels ueTeidinDb, g' = { g with tunnels, ueTeidinDb }) ∧
      g'.list = unlisted g.list teid ∧ g'.Living (dropped living teid) ∧
      g'.pool = update (fun k => (g.pool k).map (Tunnel.cut teid)) teid
        (some { tun with state := .inactive }) := by
  obtain ⟨tunnels, deactivated, after⟩ := deactivateTunnel_eq inv alive
  let dead : Tunnel := { tun with state := .inactive }
  obtain ⟨ueTeidinDb, erased, lists⟩ :=
    unlist_eq (g := { g with tunnels }) inv.table alive dead rfl rfl rfl
  refine ⟨{ g with tunnels, ueTeidinDb }, ?_, ⟨tunnels, ueTeidinDb, rfl⟩, lists, ?_, after⟩
  · have itself : ({ g with tunnels } : Gtpu).pool teid = some dead := by
      show tunnels.find teid = _
      rw [after, update_self]
    rw [removeTunnel, deactivated]
    simp only [bind, Except.bind, tunnel_eq itself, erased]
    cases ({ g with tunnels, ueTeidinDb } : Gtpu).runOnRemoval (removeTunnel depth) tun.onRemoval <;> rfl
  · constructor
    · show Table _ (fun rnti => (ueTeidinDb rnti).getD [])
      rw [lists]
      exact inv.table.dropped
    · exact inv.links.dropped
    · intro k tun' found
      obtain ⟨other, old, before, rfl⟩ := dropped_eq_some.mp found
      show tunnels.find k = _
      rw [after, update_of_ne other, inv.inPool k old before, map_some]
    · intro k tun' found absent
      replace found : tunnels.find k = some tun' := found
      rw [after, update_apply] at found
      split at found
      · rw [← Option.some.inj found]
      · rename_i other
        obtain ⟨old, before, rfl⟩ := Option.map_eq_some_iff.mp found
        have notLiving : living k = none := by
          cases live : living k with
          | none => rfl
          | some tun'' =>
            rw [dropped_eq_some.mpr ⟨other, tun'', live, rfl⟩] at absent
            contradiction
        have inactive := inv.dying k old before notLiving
        rw [cut_of_ne (by simp [inactive])]
        exact inactive

theorem removeTunnel_nothing {living : Nat → Option Tunnel} (inv : g.Living living)
    (alive : living teid = some tun) (callback : tun.onRemoval = .nothing) (depth : Nat) :
    ∃ g', removeTunnel (depth + 1) g teid = .ok g' ∧ (∃ tunnels ueTeidinDb, g' = { g with tunnels, ueTeidinDb }) ∧
      g'.list = unlisted g.list teid ∧ g'.pool = dropped g.pool teid := by
  obtain ⟨g', removed, ⟨tunnels, ueTeidinDb, rfl⟩, lists, _, after⟩ := removeTunnel_eq inv alive depth
  refine ⟨_, by rw [removed, callback]; rfl, ⟨tunnels.erase teid, ueTeidinDb, rfl⟩, lists, ?_⟩
  funext k
  show (tunnels.erase teid).find k = _
  replace after : tunnels.find = _ := after
  rw [CircularMap.find_erase, after, dropped]
  by_cases same : k = teid
  · simp [same]
  · simp [same]

theorem Inv.of_eq {g' : Gtpu} {pool : Nat → Option Tunnel} {list : Nat → List BearerTeid} (poolEq : g'.pool = pool)
    (listEq : g'.list = list) (table : Table pool list) (links : Links pool) : g'.Inv := by
  subst poolEq listEq
  exact ⟨table, links⟩

theorem removeTunnel_activate (inv : g.Inv) {afterTeid : Nat}
    (found : g.pool teid = some tun) (callback : tun.onRemoval = .activate afterTeid) (depth : Nat) {afterTun : Tunnel}
    (waits : g.pool afterTeid = some afterTun) :
    ∃ g', removeTunnel (depth + 1) g teid = .ok g' ∧
      (∃ tunnels ueTeidinDb, g' = { g with tunnels, ueTeidinDb, sdus := g.sdus ++ afterTun.flushed }) ∧
      g'.list = unlisted g.list teid ∧
      g'.pool = update (dropped g.pool teid) afterTeid (some afterTun.activated) := by
  obtain ⟨other, states⟩ := inv.links.activates teid tun found afterTeid callback
  have opened := states afterTun waits
  obtain ⟨g₁, removed, ⟨tunnels, ueTeidinDb, rfl⟩, lists, living, after⟩ := removeTunnel_eq inv.living found depth
  have waits₁ : ({ g with tunnels, ueTeidinDb } : Gtpu).pool afterTeid = some afterTun := by
    rw [after, update_of_ne other, waits, map_some,
      cut_of_ne (by rcases opened with eq | eq <;> simp [eq])]
  obtain ⟨tunnels', activated, after'⟩ :=
    activateTunnel_eq waits₁ opened (inv.links.buffered afterTeid afterTun waits)
  have present : tunnels.contains afterTeid = true := CircularMap.contains_eq_true.mpr ⟨afterTun, waits₁⟩
  refine ⟨_, ?_, ⟨tunnels'.erase teid, ueTeidinDb, rfl⟩, lists, ?_⟩
  · rw [removed, callback, runOnRemoval, if_pos present, activated]
    rfl
  · funext k
    show (tunnels'.erase teid).find k = _
    rw [CircularMap.find_erase, after', after, dropped]
    by_cases same : k = teid
    · subst same
      rw [if_pos rfl, update_of_ne (Ne.symm other), update_self]
    · rw [if_neg same]
      by_cases isAfter : k = afterTeid
      · rw [isAfter, update_self, update_self]
      · rw [update_of_ne isAfter, update_of_ne isAfter, update_of_ne same,
          update_of_ne same]

theorem removeTunnel_absent (inv : g.Inv) (found : g.pool teid = some tun)
    (absent : ∀ k, tun.onRemoval = .activate k ∨ tun.onRemoval = .remove k → g.pool k = none) (depth : Nat) :
    ∃ g', removeTunnel (depth + 1) g teid = .ok g' ∧ g'.list = unlisted g.list teid ∧
      g'.pool = dropped g.pool teid := by
  obtain ⟨g₁, removed, ⟨tunnels, ueTeidinDb, rfl⟩, lists, living, after⟩ := removeTunnel_eq inv.living found depth
  have missing : ∀ k, tun.onRemoval = .activate k ∨ tun.onRemoval = .remove k → tunnels.contains k = false := by
    intro k callback
    have gone := absent k callback
    have other : k ≠ teid := by
      rintro rfl
      rw [found] at gone
      contradiction
    have nothing : tunnels.find k = none := by
      replace after : tunnels.find = _ := after
      rw [after, update_of_ne other, gone]
      rfl
    simp [CircularMap.contains, nothing]
  refine ⟨{ g with tunnels := tunnels.erase teid, ueTeidinDb }, ?_, lists, ?_⟩
  · rw [removed]
    cases callback : tun.onRemoval with
    | nothing => rfl
    | activate k =>
      rw [runOnRemoval, if_neg (by simp [missing k (.inl callback)])]
      rfl
    | remove k =>
      rw [runOnRemoval, if_neg (by simp [missing k (.inr callback)])]
      rfl
  · funext k
    show (tunnels.erase teid).find k = _
    replace after : tunnels.find = _ := after
    rw [CircularMap.find_erase, after, dropped]
    by_cases same : k = teid
    · simp [same]
    · simp [same]

theorem removeTunnel_remove (inv : g.Inv) {txTeid : Nat} (found : g.pool teid = some tun)
    (callback : tun.onRemoval = .remove txTeid) (depth : Nat) {txTun : Tunnel} (tx : g.pool txTeid = some txTun) :
    ∃ g', removeTunnel (depth + 2) g teid = .ok g' ∧ g'.list = unlisted (unlisted g.list teid) txTeid ∧
      g'.pool = dropped (dropped g.pool teid) txTeid := by
  obtain ⟨nothing, state⟩ := inv.links.removes teid tun found txTeid callback txTun tx
  have other : txTeid ≠ teid := by
    rintro rfl
    obtain rfl := Option.some.inj (tx.symm.trans found)
    rw [callback] at nothing
    contradiction
  obtain ⟨g₁, removed, ⟨tunnels, ueTeidinDb, rfl⟩, lists, living, after⟩ :=
    removeTunnel_eq inv.living found (depth + 1)
  have same : txTun.cut teid = txTun := cut_of_ne (by rcases state with eq | eq <;> simp [eq])
  have alive : dropped g.pool teid txTeid = some txTun := dropped_eq_some.mpr ⟨other, txTun, tx, same⟩
  obtain ⟨g₂, removed', ⟨tunnels', ueTeidinDb', rfl⟩, lists', after'⟩ :=
    removeTunnel_nothing living alive nothing depth
  have present : tunnels.contains txTeid = true :=
    CircularMap.contains_eq_true.mpr ⟨txTun, living.inPool txTeid txTun alive⟩
  refine ⟨{ g with tunnels := tunnels'.erase teid, ueTeidinDb := ueTeidinDb' }, ?_, ?_, ?_⟩
  · rw [removed, callback, runOnRemoval, if_pos present, removed']
    rfl
  · rw [← lists]
    exact lists'
  · funext k
    show (tunnels'.erase teid).find k = _
    replace after' : tunnels'.find = _ := after'
    rw [CircularMap.find_erase, after', after]
    unfold dropped
    by_cases gone : k = teid
    · subst gone
      rw [if_pos rfl, update_of_ne (Ne.symm other), update_self]
      rfl
    · rw [if_neg gone]
      by_cases isTx : k = txTeid
      · rw [isTx, update_self, update_self]
      · rw [update_of_ne isTx, update_of_ne isTx, update_of_ne gone,
          update_of_ne gone]

structure Removed (g g' : Gtpu) (gone : Nat → Prop) : Prop where
  inv : g'.Inv
  sublist : ∀ rnti, (g'.list rnti).Sublist (g.list rnti)
  kept : ∀ k, (g'.pool k).isSome ↔ (g.pool k).isSome ∧ ¬ gone k

theorem unlisted_sublist (list : Nat → List BearerTeid) (teid rnti : Nat) :
    (unlisted list teid rnti).Sublist (list rnti) := filter_sublist

theorem removeTunnel_ok (inv : g.Inv) (found : g.pool teid = some tun)
    (depth : Nat) :
    ∃ g', removeTunnel (depth + 2) g teid = .ok g' ∧
      g.Removed g' fun k => k = teid ∨ tun.onRemoval = .remove k := by
  by_cases absent : ∀ k, tun.onRemoval = .activate k ∨ tun.onRemoval = .remove k → g.pool k = none
  · obtain ⟨g', removed, lists, after⟩ := removeTunnel_absent inv found absent (depth + 1)
    refine ⟨g', removed, .of_eq after lists inv.table.dropped inv.links.dropped, ?_, fun k => ?_⟩
    · intro rnti
      rw [lists]
      exact unlisted_sublist _ _ _
    · rw [after, dropped_isSome, and_comm]
      apply and_congr_right
      intro present
      have notThere : ¬ tun.onRemoval = .remove k := by
        intro callback
        rw [absent k (.inr callback)] at present
        contradiction
      simp [notThere]
  · obtain ⟨k, absent⟩ := not_forall.mp absent
    obtain ⟨callback, there⟩ := Classical.not_imp.mp absent
    obtain ⟨other, present⟩ := ne_none_iff_exists'.mp there
    rcases callback with callback | callback
    · obtain ⟨g', removed, _, lists, after⟩ := removeTunnel_activate inv found callback (depth + 1) present
      have alive : dropped g.pool teid k = some other := by
        obtain ⟨distinct, states⟩ := inv.links.activates teid tun found k callback
        refine dropped_eq_some.mpr ⟨distinct, other, present, ?_⟩
        exact cut_of_ne (by rcases states other present with eq | eq <;> simp [eq])
      have opened := (inv.links.activates teid tun found k callback).2 other present
      refine ⟨g', removed, .of_eq after lists ?_ ?_, ?_, fun k' => ?_⟩
      · exact inv.table.dropped.assign alive rfl rfl rfl
      · exact inv.links.dropped.assign_open alive opened (.inl rfl) rfl (by simp [Tunnel.activated])
      · intro rnti
        rw [lists]
        exact unlisted_sublist _ _ _
      · rw [after, update_apply]
        simp only [callback, reduceCtorEq, or_false]
        by_cases same : k' = k
        · subst same
          rw [present]
          simpa using (dropped_eq_some.mp alive).1
        · rw [if_neg same, dropped_isSome, and_comm]
    · obtain ⟨g', removed, lists, after⟩ := removeTunnel_remove inv found callback depth present
      refine ⟨g', removed, .of_eq after lists inv.table.dropped.dropped inv.links.dropped.dropped, ?_, fun k' => ?_⟩
      · intro rnti
        rw [lists]
        exact (unlisted_sublist _ _ _).trans (unlisted_sublist _ _ _)
      · rw [after, dropped_isSome, dropped_isSome, callback]
        simp only [OnRemoval.remove.injEq]
        tauto

end Gtpu

end IsrRan.Upper
