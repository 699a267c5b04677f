import IsrRan.Upper.GtpuBearers

namespace IsrRan.Upper
open Adt Lib
open Function (update update_apply update_idem update_of_ne update_self)

def Gtpu.Kept (g : Gtpu) : GtpuEvent → Prop
  | .addBearer rnti epsBearerId _ _ props _ =>
    (∀ teid, g.freeId = some teid → Unreferred g.pool teid) ∧
    (props.flushBeforeTeidin = none ∨ props.forwardFromTeidin = none) ∧
    (∀ mainTeid, props.flushBeforeTeidin = some mainTeid → ∃ tun, g.pool mainTeid = some tun ∧ tun.Open) ∧
    ∀ rxTeid, props.forwardFromTeidin = some rxTeid →
      ∃ tun, g.pool rxTeid = some tun ∧ tun.state ≠ .buffering ∧ Unreferred g.pool rxTeid ∧ tun.rnti = rnti ∧
        tun.epsBearerId = epsBearerId
  | .setTunnelStatus teidin dlActive => dlActive = true → ∀ tun, g.pool teidin = some tun → tun.Open
  | _ => True

structure Gtpu.Consistent (g : Gtpu) : Prop where
  listed : ∀ teid tun, g.pool teid = some tun → tun.teidIn = teid ∧ ∀ rnti epsBearerId,
    (g.list rnti).count (epsBearerId, teid) = if rnti = tun.rnti ∧ epsBearerId = tun.epsBearerId then 1 else 0
  sorted : ∀ rnti, (g.list rnti).Pairwise BearerTeid.Lt
  exists_ : ∀ rnti p, p ∈ g.list rnti → g.tunnels.contains p.2 = true
  forwards : ∀ teid tun, g.pool teid = some tun → tun.state = .forwardTo →
    ∃ slot txTeid txTun, tun.fwdTunnel = some slot ∧ g.tunnels.slots slot = some (txTeid, txTun) ∧
      txTun.state = .forwardedFrom
  buffered : ∀ teid tun, g.pool teid = some tun → (tun.buffer.isSome ↔ tun.state = .buffering)

namespace Gtpu
variable {g g' : Gtpu} {teid : Nat} {tun : Tunnel}

theorem Inv.consistent (inv : g.Inv) : g.Consistent where
  listed := by
    intro teid tun found
    refine ⟨inv.table.teidIn teid tun found, fun rnti eps => ?_⟩
    have nodup : (g.list rnti).Nodup := (inv.table.sorted rnti).imp fun lt => lt.ne
    rw [nodup.count]
    apply if_congr _ rfl rfl
    constructor
    · intro mem
      obtain ⟨tun', found', ofRnti, ofEps⟩ := inv.table.owned rnti _ mem
      obtain rfl := Option.some.inj (found.symm.trans found')
      exact ⟨ofRnti.symm, ofEps.symm⟩
    · rintro ⟨rfl, rfl⟩
      exact inv.table.listed teid tun found
  sorted := inv.table.sorted
  exists_ := by
    intro rnti p mem
    obtain ⟨tun, found, _⟩ := inv.table.owned rnti p mem
    exact CircularMap.contains_eq_true.mpr ⟨tun, found⟩
  forwards := by
    intro teid tun found state
    obtain ⟨txTeid, txTun, fwd, tx, from_, _⟩ := inv.links.forwards teid tun found state
    exact ⟨_, txTeid, txTun, fwd, slot_eq tx, from_⟩
  buffered := inv.links.buffered

theorem Inv.same (inv : g.Inv) (pool : g'.pool = g.pool) (list : g'.list = g.list) : g'.Inv :=
  .of_eq pool list inv.table inv.links

theorem pool_sendPduToTunnel (g : Gtpu) (txTun : Tunnel) (pdu : ByteBuffer) (pdcpSn : Int) :
    (g.sendPduToTunnel txTun pdu pdcpSn).pool = g.pool ∧ (g.sendPduToTunnel txTun pdu pdcpSn).list = g.list := by
  unfold sendPduToTunnel
  split
  · exact ⟨rfl, rfl⟩
  · split <;> exact ⟨rfl, rfl⟩

theorem Inv.sendPduToTunnel (inv : g.Inv) (txTun : Tunnel) (pdu : ByteBuffer) (pdcpSn : Int) :
    (g.sendPduToTunnel txTun pdu pdcpSn).Inv :=
  inv.same (pool_sendPduToTunnel g txTun pdu pdcpSn).1 (pool_sendPduToTunnel g txTun pdu pdcpSn).2

theorem fwdTunnel_eq {txTeid : Nat} {txTun : Tunnel} (fwd : tun.fwdTunnel = some (txTeid % maxTunnels))
    (tx : g.pool txTeid = some txTun) : g.fwdTunnel tun = .ok txTun := by
  unfold fwdTunnel
  rw [fwd]
  simp only [slot_eq tx]

section Socket
variable (sendto : Nat → Bool)

theorem sendEndMarker_ok (inv : g.Inv) (found : g.pool teid = some tun) (from_ : tun.state = .forwardedFrom) :
    ∃ g', g.sendEndMarker sendto teid = .ok g' ∧ g'.Inv ∧ g'.list = g.list ∧
      (∀ k, (g'.pool k).isSome = (g.pool k).isSome) ∧
      ∃ tun', g'.pool teid = some tun' ∧ tun'.teidIn = teid ∧ tun'.onRemoval = .nothing ∧
        (tun'.state = .forwardedFrom ∨ tun'.state = .inactive) := by
  have nothing := inv.links.receives teid tun found from_
  have teidIn := inv.table.teidIn teid tun found
  have source : g.tunnels.find teid = some tun := found
  unfold sendEndMarker
  simp only [source]
  split
  · let sent := g.sent ++ [(tun.spgwAddr, (gtpuWriteHeader (endMarkerHeader tun.teidOut) {}).getD [])]
    have inv' : Gtpu.Inv { g with sent } := inv.same rfl rfl
    obtain ⟨tunnels, deactivated, inv'', after⟩ :=
      deactivateTunnel_ok inv' (show Gtpu.pool { g with sent } teid = some tun from found) from_
    refine ⟨{ g with sent, tunnels }, ?_, inv'', rfl, fun k => ?_, { tun with state := .inactive }, ?_, teidIn, nothing,
      .inr rfl⟩
    · rw [teidIn]
      exact deactivated
    · show (tunnels.find k).isSome = _
      rw [after]
      by_cases same : k = teid
      · rw [same, update_self, found]
        rfl
      · rw [update_of_ne same, Option.isSome_map]
        rfl
    · show tunnels.find teid = _
      rw [after, update_self]
  · exact ⟨_, rfl, inv.same rfl rfl, rfl, fun _ => rfl, tun, found, teidIn, nothing, .inl from_⟩

structure Shrunk (g g' : Gtpu) : Prop where
  inv : g'.Inv
  sublist : ∀ rnti, (g'.list rnti).Sublist (g.list rnti)
  kept : ∀ k, (g'.pool k).isSome → (g.pool k).isSome

theorem Removed.shrunk {gone : Nat → Prop} (removed : g.Removed g' gone) : g.Shrunk g' :=
  ⟨removed.inv, removed.sublist, fun k there => ((removed.kept k).mp there).1⟩

theorem Shrunk.trans {g₁ g₂ : Gtpu} (first : g.Shrunk g₁) (second : g₁.Shrunk g₂) : g.Shrunk g₂ :=
  ⟨second.inv, fun rnti => (second.sublist rnti).trans (first.sublist rnti),
    fun k there => first.kept k (second.kept k there)⟩

theorem Shrunk.of_isSome (inv : g'.Inv) (list : g'.list = g.list)
    (same : ∀ k, (g'.pool k).isSome = (g.pool k).isSome) : g.Shrunk g' := by
  refine ⟨inv, fun rnti => ?_, fun k there => ?_⟩
  · rw [list]
  · rw [← same k]
    exact there

theorem remove_last (inv : g.Inv) (found : g.pool teid = some tun) :
    ∃ g', removeTunnel maxDepth g teid = .ok g' ∧ g.Shrunk g' ∧ g'.pool teid = none ∧
      (tun.onRemoval = .nothing → ∀ k, k ≠ teid → (g.pool k).isSome → (g'.pool k).isSome) := by
  obtain ⟨g', removed, shape⟩ := removeTunnel_ok inv found 639
  refine ⟨g', removed, shape.shrunk, ?_, fun nothing k other there => ?_⟩
  · rw [← Option.not_isSome_iff_eq_none, shape.kept]
    simp
  · rw [shape.kept, nothing]
    exact ⟨there, by simp [other]⟩

theorem remTunnel_far (inv : g.Inv) (found : g.pool teid = some tun) (nothing : tun.onRemoval = .nothing)
    (state : tun.state = .forwardedFrom ∨ tun.state = .inactive) (depth : Nat) :
    ∃ g', remTunnel sendto (depth + 1) g teid = .ok g' ∧ g.Shrunk g' ∧ g'.pool teid = none ∧
      ∀ k, k ≠ teid → (g.pool k).isSome → (g'.pool k).isSome := by
  have source : g.tunnels.find teid = some tun := found
  rw [remTunnel]
  simp only [source]
  rcases state with from_ | inactive
  · obtain ⟨g₁, sent, inv₁, list₁, same₁, tun₁, found₁, _, nothing₁, _⟩ :=
      sendEndMarker_ok sendto inv found from_
    obtain ⟨g', removed, shrunk, gone, kept⟩ := remove_last inv₁ found₁
    refine ⟨g', ?_, (Shrunk.of_isSome inv₁ list₁ same₁).trans shrunk, gone, fun k other there => ?_⟩
    · rw [if_pos from_, inv.table.teidIn teid tun found, sent]
      exact removed
    · exact kept nothing₁ k other ((same₁ k).trans there)
  · obtain ⟨g', removed, shrunk, gone, kept⟩ := remove_last inv found
    refine ⟨g', ?_, shrunk, gone, kept nothing⟩
    rw [if_neg (by simp [inactive]), if_neg (by simp [inactive])]
    exact removed

theorem remForwarding_ok (inv : g.Inv) (found : g.pool teid = some tun) (state : tun.state = .forwardTo)
    (depth : Nat) :
    ∃ g', (do
        let g ← g.sendEndMarker sendto (← g.fwdTunnel tun).teidIn
        remTunnel sendto (depth + 1) g (← g.fwdTunnel tun).teidIn) = .ok g' ∧
      g.Shrunk g' ∧ (g'.pool teid).isSome := by
  obtain ⟨txTeid, txTun, fwd, tx, from_, _⟩ := inv.links.forwards teid tun found state
  have other : teid ≠ txTeid := by
    rintro rfl
    obtain rfl := Option.some.inj (tx.symm.trans found)
    rw [state] at from_
    contradiction
  obtain ⟨g₁, sent, inv₁, list₁, same₁, tx₁, found₁, teidIn₁, nothing₁, state₁⟩ :=
    sendEndMarker_ok sendto inv tx from_
  obtain ⟨g₂, removed, shrunk, _, kept⟩ := remTunnel_far sendto inv₁ found₁ nothing₁ state₁ depth
  refine ⟨g₂, ?_, (Shrunk.of_isSome inv₁ list₁ same₁).trans shrunk, ?_⟩
  · simp only [bind, Except.bind, fwdTunnel_eq fwd tx, inv.table.teidIn txTeid txTun tx, sent, fwdTunnel_eq fwd found₁,
      teidIn₁]
    exact removed
  · apply kept teid other
    rw [same₁, found]
    rfl

theorem remTunnel_ok (inv : g.Inv) (found : g.pool teid = some tun) (depth : Nat) :
    ∃ g', remTunnel sendto (depth + 2) g teid = .ok g' ∧ g.Shrunk g' ∧ g'.pool teid = none := by
  have source : g.tunnels.find teid = some tun := found
  rw [remTunnel]
  simp only [source]
  by_cases from_ : tun.state = .forwardedFrom
  · obtain ⟨g₁, sent, inv₁, list₁, same₁, tun₁, found₁, _⟩ := sendEndMarker_ok sendto inv found from_
    obtain ⟨g', removed, shrunk, gone, _⟩ := remove_last inv₁ found₁
    refine ⟨g', ?_, (Shrunk.of_isSome inv₁ list₁ same₁).trans shrunk, gone⟩
    rw [if_pos from_, inv.table.teidIn teid tun found, sent]
    exact removed
  · by_cases state : tun.state = .forwardTo
    · obtain ⟨g₁, far, shrunk₁, there⟩ := remForwarding_ok sendto inv found state depth
      obtain ⟨tun₁, found₁⟩ := Option.isSome_iff_exists.mp there
      obtain ⟨g', removed, shrunk, gone, _⟩ := remove_last shrunk₁.inv found₁
      refine ⟨g', ?_, shrunk₁.trans shrunk, gone⟩
      rw [if_neg from_, if_pos state, far]
      exact removed
    · obtain ⟨g', removed, shrunk, gone, _⟩ := remove_last inv found
      refine ⟨g', ?_, shrunk, gone⟩
      rw [if_neg from_, if_neg state]
      exact removed

theorem remFront_ok (front : Gtpu → Option BearerTeid) (rnti : Nat)
    (member : ∀ g p, Gtpu.Inv g → front g = some p → p ∈ g.list rnti) (rounds : Nat) (inv : g.Inv)
    (enough : (g.list rnti).length ≤ rounds) :
    ∃ g', remFront sendto front rounds g = .ok g' ∧ g'.Inv ∧ front g' = none := by
  induction rounds generalizing g with
  | zero =>
    have empty : g.list rnti = [] := List.length_eq_zero_iff.mp (Nat.le_zero.mp enough)
    have done : front g = none := by
      cases next : front g with
      | none => rfl
      | some p =>
        have mem := member g p inv next
        rw [empty] at mem
        contradiction
    exact ⟨g, by rw [remFront, done]; rfl, inv, done⟩
  | succ rounds ih =>
    cases next : front g with
    | none => exact ⟨g, by simp only [remFront, next], inv, next⟩
    | some p =>
      have mem := member g p inv next
      obtain ⟨tun, found, _⟩ := inv.table.owned rnti p mem
      obtain ⟨g₁, removed, shrunk, gone⟩ := remTunnel_ok sendto inv found 639
      have shorter : (g₁.list rnti).length < (g.list rnti).length := by
        apply Nat.lt_of_le_of_ne (shrunk.sublist rnti).length_le
        intro same
        have still : p ∈ g₁.list rnti := by
          rw [(shrunk.sublist rnti).eq_of_length same]
          exact mem
        obtain ⟨tun', found', _⟩ := shrunk.inv.table.owned rnti p still
        rw [gone] at found'
        contradiction
      obtain ⟨g', result, inv', done⟩ := ih shrunk.inv (by omega)
      refine ⟨g', ?_, inv', done⟩
      simp only [remFront, next]
      change remTunnel sendto (639 + 2) g p.2 >>= _ = _
      rw [removed]
      exact result

theorem remBearer_ok (inv : g.Inv) (rnti eps : Nat) : ∃ g', g.remBearer sendto rnti eps = .ok g' ∧ g'.Inv := by
  obtain ⟨g', result, inv', _⟩ := remFront_ok sendto
    (fun g => (g.findRntiBearerTunnels rnti eps).head?) rnti (fun g p inv next =>
      ((mem_findRntiBearerTunnels inv.table.sorted).mp (List.mem_of_mem_head? next)).2.1)
    maxTunnelsPerUe inv (inv.table.short rnti)
  exact ⟨g', result, inv'⟩

theorem remUser_ok (inv : g.Inv) (rnti : Nat) : ∃ g', g.remUser sendto rnti = .ok g' ∧ g'.Inv := by
  unfold remUser
  split
  · exact ⟨g, rfl, inv⟩
  · obtain ⟨g', result, inv', done⟩ := remFront_ok sendto
      (fun g => ((g.ueTeidinDb rnti).getD []).head?) rnti
      (fun g p _ next => List.mem_of_mem_head? next) maxTunnelsPerUe inv (inv.table.short rnti)
    refine ⟨{ g' with ueTeidinDb := update g'.ueTeidinDb rnti none }, ?_, inv'.same rfl ?_⟩
    · simp only [bind, Except.bind, result]
    · funext r
      show (update g'.ueTeidinDb rnti none r).getD [] = _
      rw [update_apply]
      split
      · rename_i same
        rw [same]
        exact (List.head?_eq_none_iff.mp done).symm
      · rfl

theorem Inv.foldl_send (inv : g.Inv) (txTun : Tunnel) (pdus : List (Nat × ByteBuffer)) :
    Inv (pdus.foldl (fun g pduPair => g.sendPduToTunnel txTun pduPair.2 pduPair.1) g) := by
  induction pdus generalizing g with
  | nil => exact inv
  | cons pduPair rest ih => exact ih (inv.sendPduToTunnel txTun pduPair.2 pduPair.1)

section
variable (pdus : List (Nat × ByteBuffer)) (inv : g.Inv) {rnti eps addr out teidIn : Nat} {g₁ : Gtpu}
  (added : g.addTunnel rnti eps out addr = (g₁, some teidIn)) (unreferred : Unreferred g.pool teidIn)
include inv added unreferred

theorem addTunnel_fresh :
    g₁.Inv ∧ g₁.pool = update g.pool teidIn (some (newTunnel rnti eps out addr teidIn)) ∧
      ∀ k tun, g.pool k = some tun → k ≠ teidIn ∧ g₁.pool k = some tun := by
  obtain ⟨_, absent, pool₁, inv₁⟩ := addTunnel_some inv added
  refine ⟨inv₁ unreferred, pool₁, fun k tun found => ?_⟩
  have other : k ≠ teidIn := by
    rintro rfl
    rw [absent] at found
    contradiction
  exact ⟨other, by rw [pool₁, update_of_ne other, found]⟩

theorem addBearer_flush {mainTeid : Nat} {mainTun : Tunnel} (main : g.pool mainTeid = some mainTun)
    (opened : mainTun.Open) :
    mainTeid ≠ teidIn ∧ ∃ tunnels,
      g.addBearer sendto rnti eps addr out { flushBeforeTeidin := some mainTeid } pdus =
        .ok ({ g₁ with tunnels }, some teidIn) ∧ Gtpu.Inv { g₁ with tunnels } ∧
      tunnels.find mainTeid = some mainTun.suspended ∧
      tunnels.find teidIn = some { (newTunnel rnti eps out addr teidIn).suspended with
        onRemoval := .activate mainTeid, rxTimer := decide (g₁.indirectTunnelTimeoutMsec > 0) } := by
  obtain ⟨inv₁, pool₁, stays⟩ := addTunnel_fresh inv added unreferred
  obtain ⟨other, main₁⟩ := stays mainTeid mainTun main
  let new := newTunnel rnti eps out addr teidIn
  have found₁ : g₁.pool teidIn = some new := by
    rw [pool₁, update_self]
  obtain ⟨tunnels₂, suspended, pool₂, inv₂⟩ := suspendTunnel_ok inv₁ found₁
  have pool₂' : Gtpu.pool { g₁ with tunnels := tunnels₂ } = _ := pool₂
  have found₂ : Gtpu.pool { g₁ with tunnels := tunnels₂ } teidIn = some new.suspended := by
    rw [pool₂', update_self]
  have main₂ : Gtpu.pool { g₁ with tunnels := tunnels₂ } mainTeid = some mainTun := by
    rw [pool₂', update_of_ne other, main₁]
  have unreferred₂ : Unreferred (Gtpu.pool { g₁ with tunnels := tunnels₂ }) teidIn := by
    rw [pool₂', pool₁, update_idem]
    exact unreferred.assign teidIn ⟨nofun, nofun⟩
  obtain ⟨tunnels₃, prioritised, inv₃, pool₃⟩ := setTunnelPriority_ok inv₂ found₂ rfl unreferred₂ main₂ opened other
  refine ⟨other, tunnels₃, ?_, inv₃, ?_, ?_⟩
  · unfold addBearer
    rw [added]
    simp only [bind, Except.bind, suspended, prioritised]
  · rw [pool₃, update_of_ne other, update_self]
  · rw [pool₃]
    simp [Tunnel.suspended, new, newTunnel]

theorem addBearer_forward {rxTeid : Nat} {rxTun : Tunnel} (rx : g.pool rxTeid = some rxTun)
    (unbuffered : rxTun.state ≠ .buffering) (alone : Unreferred g.pool rxTeid) (ofRnti : rxTun.rnti = rnti)
    (ofEps : rxTun.epsBearerId = eps) :
    ∃ g', g.addBearer sendto rnti eps addr out { forwardFromTeidin := some rxTeid } pdus = .ok (g', some teidIn) ∧
      g'.Inv := by
  obtain ⟨inv₁, pool₁, stays⟩ := addTunnel_fresh inv added unreferred
  obtain ⟨other, rx₁⟩ := stays rxTeid rxTun rx
  let new := newTunnel rnti eps out addr teidIn
  have found₁ : g₁.pool teidIn = some new := by
    rw [pool₁, update_self]
  have unreferred₁ : ∀ {k}, Unreferred g.pool k → Unreferred g₁.pool k := by
    intro k alone
    rw [pool₁]
    exact alone.assign teidIn ⟨nofun, nofun⟩
  obtain ⟨tunnels, forwarded, inv₂, tx₂⟩ := setupForwarding_ok inv₁ rx₁ found₁ other (unreferred₁ alone)
    (unreferred₁ unreferred) unbuffered rfl rfl ofRnti.symm ofEps.symm
  have bothThere : ¬ ((!g₁.tunnels.contains rxTeid || !g₁.tunnels.contains teidIn) = true) := by
    have rxThere : g₁.tunnels.contains rxTeid = true := CircularMap.contains_eq_true.mpr ⟨rxTun, rx₁⟩
    have txThere : g₁.tunnels.contains teidIn = true := CircularMap.contains_eq_true.mpr ⟨new, found₁⟩
    simp [rxThere, txThere]
  refine ⟨_, ?_, inv₂.foldl_send { new with state := .forwardedFrom } pdus⟩
  unfold addBearer
  rw [added]
  simp only [bind, Except.bind, createDlFwdTunnel]
  rw [if_neg bothThere, forwarded]
  simp only [tunnel_eq (g := { g₁ with tunnels }) tx₂, if_true]

end

section
variable (inv : g.Inv)
include inv

theorem addBearer_ok (rnti eps addr out : Nat) (props : BearerProps) (pdus : List (Nat × ByteBuffer))
    (kept : g.Kept (.addBearer rnti eps addr out props pdus)) :
    ∃ result, g.addBearer sendto rnti eps addr out props pdus = .ok result ∧ result.1.Inv := by
  obtain ⟨flushBefore, forwardFrom⟩ := props
  obtain ⟨unreferred, oneOf, flush, forward⟩ := kept
  cases added : g.addTunnel rnti eps out addr with
  | mk g₁ teid =>
    cases teid with
    | none => exact ⟨(g₁, none), by rw [addBearer, added], (addTunnel_none inv added).1⟩
    | some teidIn =>
      have fresh := unreferred teidIn (addTunnel_some inv added).1
      cases flushBefore with
      | some mainTeid =>
        obtain rfl : forwardFrom = none := oneOf.resolve_left nofun
        obtain ⟨mainTun, main, opened⟩ := flush mainTeid rfl
        obtain ⟨_, tunnels, result, inv', _⟩ :=
          addBearer_flush sendto pdus inv added fresh main opened
        exact ⟨_, result, inv'⟩
      | none =>
        cases forwardFrom with
        | none => exact ⟨(g₁, some teidIn), by rw [addBearer, added]; rfl, (addTunnel_some inv added).2.2.2 fresh⟩
        | some rxTeid =>
          obtain ⟨rxTun, rx, unbuffered, alone, ofRnti, ofEps⟩ := forward rxTeid rfl
          obtain ⟨g', result, inv'⟩ := addBearer_forward sendto pdus inv added fresh rx
            unbuffered alone ofRnti ofEps
          exact ⟨_, result, inv'⟩

theorem handleMsgDataPdu_ok (header : GtpuHeader) (found : g.pool teid = some tun) (pdu : ByteBuffer) :
    ∃ g', g.handleMsgDataPdu header tun pdu = .ok g' ∧ g'.Inv := by
  unfold handleMsgDataPdu
  split
  · exact ⟨g, rfl, inv⟩
  · cases state : tun.state with
    | forwardTo =>
      obtain ⟨txTeid, txTun, fwd, tx, _⟩ := inv.links.forwards teid tun found state
      refine ⟨_, ?_, inv.sendPduToTunnel txTun pdu (-1)⟩
      simp only [bind, Except.bind, fwdTunnel_eq fwd tx]
    | buffering =>
      rw [inv.table.teidIn teid tun found]
      exact bufferPdcpSdu_ok inv found state _ _
    | pdcpActive => exact ⟨_, rfl, inv.same rfl rfl⟩
    | forwardedFrom => exact ⟨g, rfl, inv⟩
    | inactive => exact ⟨g, rfl, inv⟩

theorem handleEndMarker_ok (found : g.pool teid = some tun) :
    ∃ g', g.handleEndMarker sendto tun = .ok g' ∧ g'.Inv := by
  unfold handleEndMarker
  rw [inv.table.teidIn teid tun found]
  by_cases state : tun.state = .forwardTo
  · obtain ⟨g₁, far, shrunk, there⟩ := remForwarding_ok sendto inv found state 640
    obtain ⟨tun₁, found₁⟩ := Option.isSome_iff_exists.mp there
    obtain ⟨g', removed, shrunk', _⟩ := remTunnel_ok sendto shrunk.inv found₁ 639
    refine ⟨g', ?_, shrunk'.inv⟩
    rw [if_pos state]
    have far' : (do
        let g ← g.sendEndMarker sendto (← g.fwdTunnel tun).teidIn
        remTunnel sendto maxDepth g (← g.fwdTunnel tun).teidIn : Except Fault Gtpu) = .ok g₁ := far
    rw [far']
    exact removed
  · obtain ⟨g', removed, shrunk, _⟩ := remTunnel_ok sendto inv found 639
    refine ⟨g', ?_, shrunk.inv⟩
    rw [if_neg state]
    exact removed

theorem handleGtpuS1uRxPacket_ok (bytes : List Byte) :
    ∃ g', g.handleGtpuS1uRxPacket sendto bytes = .ok g' ∧ g'.Inv := by
  unfold handleGtpuS1uRxPacket
  split
  · exact ⟨g, rfl, inv⟩
  · rename_i header payload _
    split
    · exact ⟨g, rfl, inv⟩
    · split
      · exact ⟨g, rfl, inv⟩
      · rename_i tun found
        split
        · exact handleMsgDataPdu_ok inv header found _
        · split
          · exact handleEndMarker_ok sendto inv found
          · exact ⟨g, rfl, inv⟩

theorem writePdu_ok (rnti eps : Nat) (pdu : ByteBuffer) :
    ∃ g', g.writePdu rnti eps pdu = .ok g' ∧ g'.Inv := by
  unfold writePdu
  split
  · exact ⟨g, rfl, inv⟩
  · rename_i p teid rest first
    have mem : (p, teid) ∈ g.findRntiBearerTunnels rnti eps := by
      rw [first]
      exact List.mem_cons_self ..
    obtain ⟨tun, found, _⟩ :=
      inv.table.owned rnti _ ((mem_findRntiBearerTunnels inv.table.sorted).mp mem).2.1
    have source : g.tunnels.find teid = some tun := found
    rw [source]
    exact ⟨_, rfl, inv.sendPduToTunnel tun pdu (-1)⟩

end

theorem step_ok (inv : g.Inv) (event : GtpuEvent) (kept : g.Kept event) :
    ∃ g', g.step sendto event = .ok g' ∧ g'.Inv := by
  cases event with
  | addBearer rnti eps addr out props pdus =>
    obtain ⟨result, added, inv'⟩ := addBearer_ok sendto inv rnti eps addr out props pdus kept
    exact ⟨result.1, by rw [step, added]; rfl, inv'⟩
  | setTunnelStatus teidin dlActive =>
    rw [step, setTunnelStatus]
    cases present : g.tunnels.contains teidin with
    | false => exact ⟨g, rfl, inv⟩
    | true =>
      obtain ⟨tun, found⟩ := CircularMap.contains_eq_true.mp present
      cases dlActive with
      | true => exact activateTunnel_ok inv found (kept rfl tun found)
      | false =>
        obtain ⟨tunnels, suspended, _, inv'⟩ := suspendTunnel_ok inv found
        exact ⟨_, suspended, inv'⟩
  | remBearer rnti eps => exact remBearer_ok sendto inv rnti eps
  | modBearerRnti oldRnti newRnti => exact updateRnti_ok inv oldRnti newRnti
  | remUser rnti => exact remUser_ok sendto inv rnti
  | writePdu rnti eps pdu => exact writePdu_ok inv rnti eps pdu
  | rxPacket bytes => exact handleGtpuS1uRxPacket_ok sendto inv bytes
  | rxTimeout teidin =>
    rw [step, rxTimeout]
    split
    · exact ⟨g, rfl, inv⟩
    · rename_i tun found
      split
      · obtain ⟨g', removed, shrunk, _⟩ := remove_last inv found
        exact ⟨g', removed, shrunk.inv⟩
      · exact ⟨g, rfl, inv⟩

theorem inv_initial (timeout : Nat) : Gtpu.Inv { indirectTunnelTimeoutMsec := timeout } where
  table := by
    constructor
    · intro teid tun found
      contradiction
    · intro teid tun found
      contradiction
    · intro teid tun found
      contradiction
    · intro rnti p mem
      contradiction
    · exact fun rnti => List.Pairwise.nil
    · exact fun rnti => Nat.zero_le _
  links := by
    constructor
    · intro teid teid' tun tun' found
      contradiction
    · intro teid tun found
      contradiction
    · intro teid tun found
      contradiction
    · intro teid tun found
      contradiction
    · intro teid tun found
      contradiction
    · intro teid tun found
      contradiction

theorem inv_of_kept {timeout : Nat}
    (run : Reaches (fun g event => (step sendto g event).toOption) Kept { indirectTunnelTimeoutMsec := timeout } g) :
    g.Inv := by
  apply run.invariant (inv_initial timeout)
  intro g event g' inv kept next
  obtain ⟨g₁, result, inv₁⟩ := step_ok sendto inv event kept
  rw [result] at next
  obtain rfl := Option.some.inj next
  exact inv₁

theorem consistent_of_kept {timeout : Nat}
    (run : Reaches (fun g event => (step sendto g event).toOption) Kept { indirectTunnelTimeoutMsec := timeout } g) :
    g.Consistent ∧ ∀ event, g.Kept event → ∃ g', g.step sendto event = .ok g' := by
  have inv := inv_of_kept sendto run
  refine ⟨inv.consistent, fun event kept => ?_⟩
  obtain ⟨g', result, _⟩ := step_ok sendto inv event kept
  exact ⟨g', result⟩

end Socket

theorem addBearer_plain {sendto : Nat → Bool} {rnti eps addr out : Nat} {g₁ : Gtpu} {teid : Nat}
    (added : g.addTunnel rnti eps out addr = (g₁, some teid)) :
    g.step sendto (.addBearer rnti eps addr out {} []) = .ok g₁ := by
  rw [step, addBearer, added]
  rfl

theorem consistent_of_kept_forwarding :
    ∃ g : Gtpu, (g.pool 2).map (·.state) = some .forwardedFrom ∧ g.Consistent := by
  let g₀ : Gtpu := { indirectTunnelTimeoutMsec := 100 }
  let first : GtpuEvent := .addBearer 70 5 1 101 {} []
  let second : GtpuEvent := .addBearer 70 5 2 102 { forwardFromTeidin := some 1 } []
  have evaluated : ((g₀.addTunnel 70 5 101 1).2 = some 1 ∧
      (((g₀.addTunnel 70 5 101 1).1.step (fun _ => true) second).toOption.any fun g =>
        decide ((g.pool 2).map (·.state) = some .forwardedFrom)) = true) := by decide +kernel
  obtain ⟨added, forwarded⟩ := evaluated
  cases firstResult : g₀.addTunnel 70 5 101 1 with
  | mk g₁ teid =>
    rw [firstResult] at added forwarded
    subst added
    obtain ⟨g₂, result₂, state⟩ := (Option.any_eq_true _ _).mp forwarded
    obtain ⟨_, _, pool₁, _⟩ := addTunnel_some (inv_initial 100) firstResult
    have only : ∀ k tun, g₁.pool k = some tun → tun = newTunnel 70 5 101 1 1 := by
      intro k tun found
      rw [pool₁] at found
      rcases update_eq_some.mp found with ⟨_, same⟩ | ⟨_, before⟩
      · exact same.symm
      · cases before
    have kept₀ : g₀.Kept first := by
      refine ⟨fun teid _ k tun found => ?_, .inl rfl, ?_, ?_⟩
      · cases found
      · intro mainTeid flush
        cases flush
      · intro rxTeid forward
        cases forward
    have unreferred : ∀ teid, Unreferred g₁.pool teid := by
      intro teid k tun found
      rw [only k tun found]
      exact ⟨nofun, nofun⟩
    have kept₁ : g₁.Kept second := by
      refine ⟨fun teid _ => unreferred teid, .inl rfl, ?_, ?_⟩
      · intro mainTeid flush
        cases flush
      · intro rxTeid forward
        cases forward
        exact ⟨_, by rw [pool₁, update_self], by simp [newTunnel], unreferred 1, rfl, rfl⟩
    have run : Reaches (fun g event => (step (fun _ => true) g event).toOption) Kept g₀ g₂ :=
      .tail (.tail .refl kept₀ (by rw [addBearer_plain firstResult]; rfl)) kept₁ result₂
    exact ⟨g₂, of_decide_eq_true state, (consistent_of_kept _ run).1⟩

theorem forwardTo_activated : ([.addBearer 70 5 1 101 {} [], .addBearer 70 5 2 102 { forwardFromTeidin := some 1 } [],
    .setTunnelStatus 1 true].foldlM (step fun _ => true) { indirectTunnelTimeoutMsec := 0 }) matches
    .error .undefinedBehaviour := by decide +kernel

end Gtpu

end IsrRan.Upper
