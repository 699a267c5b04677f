import IsrRan.Lib.OrderedMap
import IsrRan.Pdcp.EntityLteRx
import Mathlib.Data.List.TakeWhile
import IsrRan.Pdcp.Count

namespace IsrRan.Pdcp
open Lib List

/-- `pdcp_entity_nr`, its receive side. `tReordering` is `none` for infinity. -/
structure EntityNr where
  cfg : Config
  tReordering : Option Nat := some 500
  integrityDirection : Direction := .none
  encryptionDirection : Direction := .none
  rxNext : Nat := 0
  rxDeliv : Nat := 0
  rxReord : Nat := 0
  reorderQueue : OrderedMap Payload := []
  reorderingTimerRunning : Bool := false
  rxOverflow : Bool := false

namespace Config

def hfn (cfg : Config) (count : Nat) : Nat := count / cfg.snSpace

def windowSize (cfg : Config) : Nat := 2 ^ (cfg.snLen.bits - 1)

end Config

structure Delivery where
  rxDeliv : Nat
  rxOverflow : Bool
  reorderQueue : OrderedMap Payload
  sdus : List RxSdu := []

def deliverAllConsecutiveCounts (rxDeliv : Nat) (rxOverflow : Bool) : OrderedMap Payload → Delivery
  | [] => ⟨rxDeliv, rxOverflow, [], []⟩
  | (count, payload) :: queue =>
    if count = rxDeliv then
      if rxOverflow then ⟨rxDeliv, rxOverflow, (count, payload) :: queue, []⟩
      else
        let rest := deliverAllConsecutiveCounts ((rxDeliv + 1) % 4294967296) (rxDeliv = 4294967295) queue
        { rest with sdus := ⟨count, payload⟩ :: rest.sdus }
    else ⟨rxDeliv, rxOverflow, (count, payload) :: queue, []⟩

namespace EntityNr

def rcvdHfn (e : EntityNr) (rcvdSn : Nat) : Nat :=
  if (rcvdSn : Int) < (e.cfg.sn e.rxDeliv : Int) - e.cfg.windowSize then
    (e.cfg.hfn e.rxDeliv + 1) % 4294967296
  else if e.cfg.sn e.rxDeliv + e.cfg.windowSize ≤ rcvdSn then u32Sub (e.cfg.hfn e.rxDeliv) 1
  else e.cfg.hfn e.rxDeliv

def rcvdCount (e : EntityNr) (rcvdSn : Nat) : Nat := e.cfg.count (e.rcvdHfn rcvdSn) rcvdSn

def deliverConsecutive (e : EntityNr) : EntityNr × List RxSdu :=
  let delivery := deliverAllConsecutiveCounts e.rxDeliv e.rxOverflow e.reorderQueue
  ({ e with
      rxDeliv := delivery.rxDeliv
      rxOverflow := delivery.rxOverflow
      reorderQueue := delivery.reorderQueue },
    delivery.sdus)

def stopReorderingTimer (e : EntityNr) : EntityNr :=
  if e.reorderingTimerRunning && e.rxReord ≤ e.rxDeliv then { e with reorderingTimerRunning := false } else e

def startReorderingTimer (e : EntityNr) : EntityNr :=
  if e.tReordering.isSome && !e.reorderingTimerRunning && e.rxDeliv < e.rxNext then
    { e with rxReord := e.rxNext, reorderingTimerRunning := true }
  else e

def storePdu (e : EntityNr) (rcvdCount : Nat) (payload : Payload) : EntityNr :=
  { e with
    reorderQueue := e.reorderQueue.insertOrAssign rcvdCount payload
    rxNext := if e.rxNext ≤ rcvdCount then (rcvdCount + 1) % 4294967296 else e.rxNext }

def receive (e : EntityNr) (rcvdCount : Nat) (payload : Payload) : EntityNr × List RxSdu :=
  if rcvdCount < e.rxDeliv then (e, [])
  else if e.reorderQueue.contains rcvdCount then (e, [])
  else
    let e := e.storePdu rcvdCount payload
    let delivered := if rcvdCount = e.rxDeliv then e.deliverConsecutive else (e, [])
    (delivered.1.stopReorderingTimer.startReorderingTimer, delivered.2)

def verifiesIntegrity (e : EntityNr) : Bool := e.integrityDirection.isTx

def deciphered (e : EntityNr) (security : RxSecurity) (pdu : List Byte) : List Byte :=
  if e.encryptionDirection.isRx then
    security.decryptBody e.cfg (e.rcvdCount (readDataHeader e.cfg pdu)) pdu
  else pdu

def extracted (e : EntityNr) (security : RxSecurity) (pdu : List Byte) : List Byte × List Byte :=
  if e.cfg.isSrb || e.verifiesIntegrity then extractMac (e.deciphered security pdu) [0, 0, 0, 0]
  else (e.deciphered security pdu, [0, 0, 0, 0])

def writePdu (e : EntityNr) (security : RxSecurity) (pdu : List Byte) : Except Fault (EntityNr × List RxCall) :=
  if e.rxOverflow then .ok (e, [])
  else if pdu.length ≤ e.cfg.hdrLenBytes then .ok (e, [])
  else
    let rcvdCount := e.rcvdCount (readDataHeader e.cfg pdu)
    let extracted := e.extracted security pdu
    if e.encryptionDirection.isRx && !security.fits (pdu.length - e.cfg.hdrLenBytes) then .error .undefinedBehaviour
    else if e.verifiesIntegrity && !security.integrityVerify rcvdCount extracted.1 extracted.2 then
      .ok (e, [.notifyPdcpIntegrityError])
    else
      let received := e.receive rcvdCount (discardDataHeader e.cfg extracted.1)
      .ok (received.1, received.2.map .writePdu)

/-- A timer of duration 0 has no callback. -/
def reorderingTimerExpired (e : EntityNr) : EntityNr × List RxSdu :=
  if e.tReordering = some 0 then ({ e with reorderingTimerRunning := false }, []) else
  let due := e.reorderQueue.takeWhile fun entry => entry.1 < e.rxReord
  let e := { e with
    reorderingTimerRunning := false
    reorderQueue := e.reorderQueue.dropWhile fun entry => entry.1 < e.rxReord
    rxDeliv := e.rxReord }
  let delivered := e.deliverConsecutive
  let e := delivered.1
  (if e.rxDeliv < e.rxNext then { e with rxReord := e.rxNext, reorderingTimerRunning := true } else e,
    (due.map fun entry => ⟨entry.1, entry.2⟩) ++ delivered.2)

end EntityNr

open Lib OrderedMap

structure Delivery.Consecutive (start bound : Nat) (d : Delivery) : Prop where
  lower : start ≤ d.rxDeliv
  upper : d.rxDeliv ≤ bound
  overflow : d.rxOverflow = false
  sorted : Sorted d.reorderQueue
  keys : ∀ p ∈ d.reorderQueue, d.rxDeliv < p.1 ∧ p.1 < bound
  increasing : d.sdus.Pairwise fun a b => a.count < b.count
  delivered : ∀ sdu ∈ d.sdus, start ≤ sdu.count ∧ sdu.count < d.rxDeliv

theorem deliverAllConsecutiveCounts_consecutive {bound : Nat} (small : bound < 4294967296)
    {queue : OrderedMap Payload} (sorted : Sorted queue) {start : Nat} (le : start ≤ bound)
    (keys : ∀ p ∈ queue, start ≤ p.1 ∧ p.1 < bound) :
    (deliverAllConsecutiveCounts start false queue).Consecutive start bound := by
  induction queue generalizing start with
  | nil => exact ⟨Nat.le_refl _, le, rfl, sorted, by simp [deliverAllConsecutiveCounts], .nil,
      by simp [deliverAllConsecutiveCounts]⟩
  | cons p queue ih =>
    obtain ⟨count, msg⟩ := p
    obtain ⟨above, rest⟩ := List.pairwise_cons.mp sorted
    have first := keys _ mem_cons_self
    unfold deliverAllConsecutiveCounts
    split
    · rename_i eq
      subst eq
      simp only [Bool.false_eq_true, if_false]
      rw [Nat.mod_eq_of_lt (by omega), decide_eq_false (by omega)]
      have later := @ih rest (count + 1) (by omega) fun q mem =>
        ⟨above q mem, (keys q (mem_cons_of_mem _ mem)).2⟩
      have lower := later.lower
      refine ⟨by dsimp only; omega, later.upper, later.overflow, later.sorted, later.keys, ?_, ?_⟩
      · refine .cons (fun sdu mem => ?_) later.increasing
        exact Nat.lt_of_succ_le (later.delivered sdu mem).1
      · intro sdu mem
        rcases List.mem_cons.mp mem with rfl | mem
        · exact ⟨Nat.le_refl _, Nat.lt_of_succ_le lower⟩
        · exact ⟨Nat.le_of_succ_le (later.delivered sdu mem).1, (later.delivered sdu mem).2⟩
    · rename_i gap
      refine ⟨Nat.le_refl _, le, rfl, sorted, ?_, .nil, by simp⟩
      intro q mem
      refine ⟨?_, (keys q mem).2⟩
      change start < q.1
      rcases List.mem_cons.mp mem with rfl | mem
      · dsimp only at first gap ⊢
        omega
      · have := above q mem
        omega

structure NrReceiver where
  entity : EntityNr
  delivered : List RxSdu := []

inductive NrEvent where
  | writePdu (security : RxSecurity) (pdu : List Byte)
  | reorderingTimerExpired
  | enableSecurity (integrity encryption : Direction)

namespace EntityNr

def impliedHfn (e : EntityNr) (rcvdSn : Nat) : Int :=
  if (rcvdSn : Int) < (e.cfg.sn e.rxDeliv : Int) - e.cfg.windowSize then e.cfg.hfn e.rxDeliv + 1
  else if e.cfg.sn e.rxDeliv + e.cfg.windowSize ≤ rcvdSn then e.cfg.hfn e.rxDeliv - 1
  else e.cfg.hfn e.rxDeliv

def impliedCount (e : EntityNr) (rcvdSn : Nat) : Int := e.impliedHfn rcvdSn * e.cfg.snSpace + rcvdSn

def HfnInRange (e : EntityNr) (rcvdSn : Nat) : Prop :=
  e.cfg.hfn e.rxDeliv = 0 → rcvdSn < e.cfg.sn e.rxDeliv + e.cfg.windowSize

def CountNear (e : EntityNr) (pdu : List Byte) : Prop :=
  e.rxDeliv ≤ e.rcvdCount (readDataHeader e.cfg pdu) + e.cfg.windowSize ∧
    e.rcvdCount (readDataHeader e.cfg pdu) ≤ e.rxDeliv + e.cfg.windowSize

end EntityNr

namespace NrReceiver

def step (r : NrReceiver) : NrEvent → Option NrReceiver
  | .writePdu security pdu =>
    (r.entity.writePdu security pdu).toOption.map fun out =>
      ⟨out.1, r.delivered ++ out.2.filterMap fun
        | .writePdu sdu => some sdu
        | .notifyPdcpIntegrityError => none⟩
  | .reorderingTimerExpired =>
    if r.entity.reorderingTimerRunning then
      some ⟨r.entity.reorderingTimerExpired.1, r.delivered ++ r.entity.reorderingTimerExpired.2⟩
    else none
  | .enableSecurity integrity encryption =>
    some { r with entity := { r.entity with
      integrityDirection := r.entity.integrityDirection.enable integrity
      encryptionDirection := r.entity.encryptionDirection.enable encryption } }

def CountsBelow (r : NrReceiver) : NrEvent → Prop
  | .writePdu _ pdu => r.entity.impliedCount (readDataHeader r.entity.cfg pdu) < 4294967295
  | _ => True

def HfnsInRange (r : NrReceiver) : NrEvent → Prop
  | .writePdu _ pdu => r.entity.HfnInRange (readDataHeader r.entity.cfg pdu)
  | _ => True

structure Initial (r : NrReceiver) : Prop where
  variables_ : r.entity.rxNext = 0 ∧ r.entity.rxDeliv = 0 ∧ r.entity.rxReord = 0
  queue : r.entity.reorderQueue = []
  timer : r.entity.reorderingTimerRunning = false
  overflow : r.entity.rxOverflow = false
  delivered : r.delivered = []

/-- What upper layers got is in order, and what waits for them lies between RX_DELIV and RX_NEXT. -/
structure Ordered (r : NrReceiver) : Prop where
  increasing : r.delivered.Pairwise fun a b => a.count < b.count
  edges : r.entity.rxDeliv ≤ r.entity.rxNext
  keys : ∀ p ∈ r.entity.reorderQueue, r.entity.rxDeliv < p.1 ∧ p.1 < r.entity.rxNext

end NrReceiver

namespace EntityNr

variable {e : EntityNr}

theorem le_mul_snSpace (cfg : Config) {a : Int} (nonneg : 0 ≤ a) : a ≤ a * cfg.snSpace := by
  have positive := Config.snSpace_pos cfg
  simpa using Int.mul_le_mul_of_nonneg_left (show (1 : Int) ≤ cfg.snSpace by omega) nonneg

theorem rcvdHfn_eq (e : EntityNr) (rcvdSn : Nat) (inRange : e.HfnInRange rcvdSn)
    (below : e.impliedCount rcvdSn < 4294967295) : (e.rcvdHfn rcvdSn : Int) = e.impliedHfn rcvdSn := by
  unfold impliedCount at below
  unfold HfnInRange at inRange
  unfold rcvdHfn impliedHfn at *
  split at below
  · rename_i ahead
    rw [if_pos ahead, if_pos ahead]
    have bound := le_mul_snSpace e.cfg (show (0 : Int) ≤ e.cfg.hfn e.rxDeliv + 1 by omega)
    rw [Nat.mod_eq_of_lt (by omega)]
    exact Int.natCast_succ _
  · rename_i ahead
    rw [if_neg ahead, if_neg ahead]
    split at below
    · rename_i behind
      rw [if_pos behind]
      have bound := le_mul_snSpace e.cfg (show (0 : Int) ≤ e.cfg.hfn e.rxDeliv - 1 by omega)
      unfold u32Sub
      omega
    · rename_i behind
      rw [if_neg behind, if_neg behind]

theorem snSpace_eq (cfg : Config) : cfg.snSpace = 2 * cfg.windowSize := by
  unfold Config.snSpace Config.windowSize
  cases cfg.snLen <;> rfl

theorem readDataHeader_lt (cfg : Config) (pdu : List Byte) : readDataHeader cfg pdu < cfg.snSpace := by
  have positive := Config.snSpace_pos cfg
  unfold readDataHeader
  split
  · exact positive
  · cases cfg.snLen <;> exact Nat.mod_lt _ positive

theorem rcvdCount_eq (e : EntityNr) {rcvdSn : Nat} (hsn : rcvdSn < e.cfg.snSpace)
    (inRange : e.HfnInRange rcvdSn) (below : e.impliedCount rcvdSn < 4294967295) :
    (e.rcvdCount rcvdSn : Int) = e.impliedCount rcvdSn := by
  have hfn := rcvdHfn_eq e rcvdSn inRange below
  unfold rcvdCount impliedCount at *
  rw [← hfn] at below ⊢
  rw [Config.count_eq e.cfg hsn (by omega)]
  rfl

theorem impliedCount_near (e : EntityNr) {rcvdSn : Nat} (hsn : rcvdSn < e.cfg.snSpace) :
    e.rxDeliv - e.cfg.windowSize ≤ e.impliedCount rcvdSn ∧
      e.impliedCount rcvdSn ≤ e.rxDeliv + e.cfg.windowSize := by
  have space := snSpace_eq e.cfg
  have parts : e.cfg.hfn e.rxDeliv * e.cfg.snSpace + e.cfg.sn e.rxDeliv = e.rxDeliv := Nat.div_add_mod' _ _
  have sn : e.cfg.sn e.rxDeliv < e.cfg.snSpace := Nat.mod_lt _ (Config.snSpace_pos e.cfg)
  have parts' : (e.cfg.hfn e.rxDeliv : Int) * e.cfg.snSpace = e.rxDeliv - e.cfg.sn e.rxDeliv := by
    omega
  unfold impliedCount impliedHfn
  split
  · rw [Int.add_mul]
    omega
  · split
    · rw [Int.sub_mul]
      omega
    · rw [parts']
      omega

structure QueueInv (e : EntityNr) : Prop where
  edges : e.rxDeliv ≤ e.rxNext
  small : e.rxNext < 4294967296
  overflow : e.rxOverflow = false
  sorted : Sorted e.reorderQueue
  keys : ∀ p ∈ e.reorderQueue, e.rxDeliv < p.1 ∧ p.1 < e.rxNext
  timer : e.reorderingTimerRunning = true → e.rxDeliv < e.rxReord ∧ e.rxReord ≤ e.rxNext

structure MovedTo (e : EntityNr) (out : EntityNr × List RxSdu) : Prop where
  inv : out.1.QueueInv
  lower : e.rxDeliv ≤ out.1.rxDeliv
  increasing : out.2.Pairwise fun a b => a.count < b.count
  delivered : ∀ sdu ∈ out.2, e.rxDeliv ≤ sdu.count ∧ sdu.count < out.1.rxDeliv

theorem QueueInv.stay (h : e.QueueInv) : e.MovedTo (e, []) :=
  ⟨h, Nat.le_refl _, .nil, by simp⟩

structure StoredInv (e : EntityNr) : Prop where
  edges : e.rxDeliv ≤ e.rxNext
  small : e.rxNext < 4294967296
  overflow : e.rxOverflow = false
  sorted : Sorted e.reorderQueue
  keys : ∀ p ∈ e.reorderQueue, e.rxDeliv ≤ p.1 ∧ p.1 < e.rxNext

theorem StoredInv.deliverConsecutive (h : e.StoredInv) :
    ∃ rxDeliv queue sdus,
      e.deliverConsecutive = ({ e with rxDeliv := rxDeliv, rxOverflow := false, reorderQueue := queue }, sdus) ∧
      (Delivery.mk rxDeliv false queue sdus).Consecutive e.rxDeliv e.rxNext := by
  have spec := deliverAllConsecutiveCounts_consecutive h.small h.sorted h.edges h.keys
  unfold EntityNr.deliverConsecutive
  rw [h.overflow]
  generalize deliverAllConsecutiveCounts e.rxDeliv false e.reorderQueue = delivery at spec ⊢
  obtain ⟨rxDeliv, rxOverflow, queue, sdus⟩ := delivery
  obtain rfl : rxOverflow = false := spec.overflow
  exact ⟨rxDeliv, queue, sdus, rfl, spec⟩

theorem stopReorderingTimer_eq (e : EntityNr) : ∃ running,
    e.stopReorderingTimer = { e with reorderingTimerRunning := running } ∧
      (running = true → e.reorderingTimerRunning = true ∧ e.rxDeliv < e.rxReord) := by
  unfold stopReorderingTimer
  split
  · exact ⟨false, rfl, by simp⟩
  · rename_i go
    refine ⟨e.reorderingTimerRunning, rfl, fun running => ⟨running, ?_⟩⟩
    simpa [running] using go

theorem startReorderingTimer_eq (e : EntityNr) : ∃ running rxReord,
    e.startReorderingTimer = { e with reorderingTimerRunning := running, rxReord := rxReord } ∧
      (running = true → rxReord = e.rxReord ∧ e.reorderingTimerRunning = true ∨
        rxReord = e.rxNext ∧ e.rxDeliv < e.rxNext) := by
  unfold startReorderingTimer
  split
  · rename_i go
    simp only [Bool.and_eq_true, decide_eq_true_eq] at go
    exact ⟨true, e.rxNext, rfl, fun _ => .inr ⟨rfl, go.2⟩⟩
  · exact ⟨e.reorderingTimerRunning, e.rxReord, rfl, fun running => .inl ⟨rfl, running⟩⟩

theorem restartTimer (edges : e.rxDeliv ≤ e.rxNext) (small : e.rxNext < 4294967296)
    (overflow : e.rxOverflow = false) (sorted : Sorted e.reorderQueue)
    (keys : ∀ p ∈ e.reorderQueue, e.rxDeliv < p.1 ∧ p.1 < e.rxNext)
    (timer : e.reorderingTimerRunning = true → e.rxReord ≤ e.rxNext) :
    e.stopReorderingTimer.startReorderingTimer.QueueInv ∧
      e.stopReorderingTimer.startReorderingTimer.rxDeliv = e.rxDeliv := by
  obtain ⟨running, stopped, above⟩ := stopReorderingTimer_eq e
  rw [stopped]
  obtain ⟨running', rxReord, started, cases⟩ :=
    startReorderingTimer_eq { e with reorderingTimerRunning := running }
  rw [started]
  refine ⟨⟨edges, small, overflow, sorted, keys, fun isRunning => ?_⟩, rfl⟩
  rcases cases isRunning with ⟨same, was⟩ | ⟨next, lt⟩
  · obtain ⟨wasRunning, lt⟩ := above was
    exact ⟨same ▸ lt, same ▸ timer wasRunning⟩
  · exact ⟨next ▸ lt, Nat.le_of_eq next⟩

theorem QueueInv.storePdu (h : e.QueueInv) {count : Nat} (small : count < 4294967295)
    (above : e.rxDeliv ≤ count) (msg : Payload) : (e.storePdu count msg).StoredInv := by
  have edges := h.edges
  have next : (e.storePdu count msg).rxNext = max e.rxNext (count + 1) := by
    unfold EntityNr.storePdu
    dsimp only
    split
    · rw [Nat.mod_eq_of_lt (by omega)]
      omega
    · omega
  refine ⟨?_, ?_, h.overflow, h.sorted.insertOrAssign count msg, fun p mem => ?_⟩
  · rw [next]
    exact Nat.le_trans edges (Nat.le_max_left _ _)
  · rw [next]
    have := h.small
    omega
  · rw [next]
    change e.rxDeliv ≤ p.1 ∧ p.1 < max e.rxNext (count + 1)
    rcases mem_insertOrAssign mem with rfl | ⟨mem, -⟩
    · exact ⟨above, by dsimp only; omega⟩
    · have := h.keys p mem
      omega

theorem QueueInv.receive (h : e.QueueInv) {count : Nat} (small : count < 4294967295) (msg : Payload) :
    e.MovedTo (e.receive count msg) := by
  unfold EntityNr.receive
  split
  · exact h.stay
  · rename_i current
    split
    · exact h.stay
    · have stored := h.storePdu small (Nat.le_of_not_lt current) msg
      have upper : e.rxNext ≤ (e.storePdu count msg).rxNext := by
        unfold EntityNr.storePdu
        dsimp only
        split
        · rw [Nat.mod_eq_of_lt (by omega)]
          omega
        · exact Nat.le_refl _
      have timer : (e.storePdu count msg).reorderingTimerRunning = true →
          (e.storePdu count msg).rxReord ≤ (e.storePdu count msg).rxNext :=
        fun running => Nat.le_trans (h.timer running).2 upper
      dsimp only
      split
      · obtain ⟨rxDeliv, queue, sdus, eq, spec⟩ := stored.deliverConsecutive
        rw [eq]
        obtain ⟨inv, same⟩ := restartTimer (e := { e.storePdu count msg with
          rxDeliv := rxDeliv, rxOverflow := false, reorderQueue := queue })
          spec.upper stored.small rfl spec.sorted spec.keys timer
        refine ⟨inv, ?_, spec.increasing, fun sdu mem => ?_⟩
        · rw [same]
          exact spec.lower
        · rw [same]
          exact spec.delivered sdu mem
      · rename_i other
        have keys : ∀ p ∈ (e.storePdu count msg).reorderQueue,
            (e.storePdu count msg).rxDeliv < p.1 ∧ p.1 < (e.storePdu count msg).rxNext := by
          intro p mem
          refine ⟨?_, (stored.keys p mem).2⟩
          rcases mem_insertOrAssign mem with rfl | ⟨mem, -⟩
          · exact Nat.lt_of_le_of_ne (Nat.le_of_not_lt current) (Ne.symm other)
          · exact (h.keys p mem).1
        obtain ⟨inv, same⟩ := restartTimer stored.edges stored.small stored.overflow stored.sorted keys timer
        exact ⟨inv, Nat.le_of_eq same.symm, .nil, by simp⟩

theorem pairwise_append_below {early late : List RxSdu} {bound : Nat}
    (first : early.Pairwise fun a b => a.count < b.count) (below : ∀ sdu ∈ early, sdu.count < bound)
    (second : late.Pairwise fun a b => a.count < b.count) (above : ∀ sdu ∈ late, bound ≤ sdu.count) :
    (early ++ late).Pairwise fun a b => a.count < b.count :=
  List.pairwise_append.mpr ⟨first, second, fun a ha b hb => Nat.lt_of_lt_of_le (below a ha) (above b hb)⟩

theorem QueueInv.reorderingTimerExpired (h : e.QueueInv) (running : e.reorderingTimerRunning = true) :
    e.MovedTo e.reorderingTimerExpired := by
  obtain ⟨ahead, edges⟩ := h.timer running
  have stored : ({ e with
      reorderingTimerRunning := false
      reorderQueue := e.reorderQueue.dropWhile fun entry => entry.1 < e.rxReord
      rxDeliv := e.rxReord } : EntityNr).StoredInv := by
    refine ⟨edges, h.small, h.overflow, h.sorted.sublist (dropWhile_sublist _), fun p mem => ⟨?_, ?_⟩⟩
    · exact le_of_mem_dropWhile h.sorted mem
    · exact (h.keys p ((dropWhile_sublist _).subset mem)).2
  obtain ⟨rxDeliv, queue, sdus, eq, spec⟩ := stored.deliverConsecutive
  have due : ∀ sdu ∈ (e.reorderQueue.takeWhile fun entry => entry.1 < e.rxReord).map
      fun entry => (⟨entry.1, entry.2⟩ : RxSdu), e.rxDeliv ≤ sdu.count ∧ sdu.count < e.rxReord := by
    intro sdu mem
    obtain ⟨entry, waiting, rfl⟩ := List.mem_map.mp mem
    refine ⟨Nat.le_of_lt (h.keys entry ((takeWhile_sublist _).subset waiting)).1, ?_⟩
    simpa using mem_takeWhile_imp waiting
  have ordered : ((e.reorderQueue.takeWhile fun entry => entry.1 < e.rxReord).map
      fun entry => (⟨entry.1, entry.2⟩ : RxSdu)).Pairwise fun a b => a.count < b.count :=
    List.pairwise_map.mpr (h.sorted.sublist (takeWhile_sublist _))
  have lower : e.rxReord ≤ rxDeliv := spec.lower
  unfold EntityNr.reorderingTimerExpired
  by_cases silent : e.tReordering = some 0
  · rw [if_pos silent]
    exact ⟨⟨h.edges, h.small, h.overflow, h.sorted, h.keys, fun running => by contradiction⟩, Nat.le_refl _, .nil,
      by simp⟩
  rw [if_neg silent]
  dsimp only
  rw [eq]
  refine ⟨?_, ?_, pairwise_append_below ordered (fun sdu mem => (due sdu mem).2) spec.increasing
    fun sdu mem => (spec.delivered sdu mem).1, fun sdu mem => ?_⟩
  · dsimp only
    split
    · rename_i waiting
      exact ⟨spec.upper, h.small, rfl, spec.sorted, spec.keys, fun _ => ⟨waiting, Nat.le_refl _⟩⟩
    · exact ⟨spec.upper, h.small, rfl, spec.sorted, spec.keys, fun running => by contradiction⟩
  · dsimp only
    split <;> exact Nat.le_trans (Nat.le_of_lt ahead) lower
  · have bounds : e.rxDeliv ≤ sdu.count ∧ sdu.count < rxDeliv := by
      rcases List.mem_append.mp mem with mem | mem
      · have := due sdu mem
        omega
      · have reached := (spec.delivered sdu mem).1
        exact ⟨Nat.le_trans (Nat.le_of_lt ahead) reached, (spec.delivered sdu mem).2⟩
    split <;> exact bounds

theorem writePdu_cases {security : RxSecurity} {pdu : List Byte} {out : EntityNr × List RxCall}
    (done : e.writePdu security pdu = .ok out) :
    out.1 = e ∧ (∀ sdu, .writePdu sdu ∉ out.2) ∨
      ∃ msg, out.1 = (e.receive (e.rcvdCount (readDataHeader e.cfg pdu)) msg).1 ∧
        out.2 = (e.receive (e.rcvdCount (readDataHeader e.cfg pdu)) msg).2.map .writePdu := by
  unfold EntityNr.writePdu at done
  split at done
  · obtain rfl := Except.ok.inj done
    exact .inl ⟨rfl, by simp⟩
  · split at done
    · obtain rfl := Except.ok.inj done
      exact .inl ⟨rfl, by simp⟩
    · dsimp only at done
      split at done
      · contradiction
      split at done
      · obtain rfl := Except.ok.inj done
        exact .inl ⟨rfl, by simp⟩
      · obtain rfl := Except.ok.inj done
        exact .inr ⟨_, rfl, rfl⟩

end EntityNr

namespace NrReceiver

variable {r r' : NrReceiver}

structure Inv (r : NrReceiver) : Prop where
  queue : r.entity.QueueInv
  increasing : r.delivered.Pairwise fun a b => a.count < b.count
  past : ∀ sdu ∈ r.delivered, sdu.count < r.entity.rxDeliv

theorem Inv.ordered (h : r.Inv) : r.Ordered := ⟨h.increasing, h.queue.edges, h.queue.keys⟩

theorem Initial.inv (h : r.Initial) : r.Inv := by
  obtain ⟨next, deliv, reord⟩ := h.variables_
  refine ⟨⟨?_, ?_, h.overflow, ?_, ?_, ?_⟩, ?_, ?_⟩
  · omega
  · omega
  · rw [h.queue]
    exact .nil
  · simp [h.queue]
  · simp [h.timer]
  · rw [h.delivered]
    exact .nil
  · simp [h.delivered]

theorem Inv.moved (h : r.Inv) {out : EntityNr × List RxSdu} (moved : r.entity.MovedTo out) :
    (NrReceiver.mk out.1 (r.delivered ++ out.2)).Inv := by
  refine ⟨moved.inv, EntityNr.pairwise_append_below h.increasing h.past moved.increasing
    (fun sdu mem => (moved.delivered sdu mem).1), fun sdu mem => ?_⟩
  rcases List.mem_append.mp mem with mem | mem
  · exact Nat.lt_of_lt_of_le (h.past sdu mem) moved.lower
  · exact (moved.delivered sdu mem).2

theorem Inv.step (h : r.Inv) {event : NrEvent} (below : r.CountsBelow event) (inRange : r.HfnsInRange event)
    (stepped : r.step event = some r') : r'.Inv := by
  cases event with
  | writePdu security pdu =>
    obtain ⟨out, done, rfl⟩ := Option.map_eq_some_iff.mp stepped
    have ok : r.entity.writePdu security pdu = .ok out := by
      cases result : r.entity.writePdu security pdu with
      | error fault => simp [result, Except.toOption] at done
      | ok out' => simpa [result, Except.toOption] using done
    have count := EntityNr.rcvdCount_eq r.entity (EntityNr.readDataHeader_lt r.entity.cfg pdu) inRange below
    have small : r.entity.rcvdCount (readDataHeader r.entity.cfg pdu) < 4294967295 := by
      have : r.entity.impliedCount (readDataHeader r.entity.cfg pdu) < 4294967295 := below
      omega
    rcases EntityNr.writePdu_cases ok with ⟨same, silent⟩ | ⟨msg, entity, calls⟩
    · have none : (out.2.filterMap fun
          | .writePdu sdu => some sdu
          | .notifyPdcpIntegrityError => Option.none) = [] := by
        refine List.filterMap_eq_nil_iff.mpr fun call mem => ?_
        cases call with
        | notifyPdcpIntegrityError => rfl
        | writePdu sdu => exact absurd mem (silent sdu)
      rw [none, same, append_nil]
      exact h
    · have moved := h.moved (h.queue.receive small msg)
      rw [calls, entity]
      simpa using moved
  | reorderingTimerExpired =>
    dsimp only [NrReceiver.step] at stepped
    split at stepped
    · rename_i running
      obtain rfl := Option.some.inj stepped
      exact h.moved (h.queue.reorderingTimerExpired running)
    · contradiction
  | enableSecurity integrity encryption =>
    obtain rfl := Option.some.inj stepped
    exact ⟨⟨h.queue.edges, h.queue.small, h.queue.overflow, h.queue.sorted, h.queue.keys, h.queue.timer⟩,
      h.increasing, h.past⟩

theorem ordered_of_reaches {initial : NrReceiver} (start : initial.Initial)
    (run : Reaches step (fun r event => r.CountsBelow event ∧ r.HfnsInRange event) initial r) :
    r.Ordered ∧ ∀ security pdu, r.CountsBelow (.writePdu security pdu) →
      r.HfnsInRange (.writePdu security pdu) → r.entity.CountNear pdu := by
  have inv : r.Inv := run.invariant start.inv fun r event r' h ok => h.step ok.1 ok.2
  refine ⟨inv.ordered, fun _ pdu below inRange => ?_⟩
  have hsn := EntityNr.readDataHeader_lt r.entity.cfg pdu
  have count := EntityNr.rcvdCount_eq r.entity hsn inRange below
  have near := EntityNr.impliedCount_near r.entity hsn
  unfold EntityNr.CountNear
  omega

def nrDrbConfig : Config := { snLen := .len12, isSrb := false, rbIsUm := false }

def plainSecurity : RxSecurity where
  integrity := none
  cipherDecrypt := none
  cipherDecrypt_length := by simp

def nrDrb : NrReceiver := { entity := { cfg := nrDrbConfig } }

theorem nrDrb_initial : nrDrb.Initial := ⟨⟨rfl, rfl, rfl⟩, rfl, rfl, rfl, rfl⟩

def lostPduRun : List NrEvent :=
  [.writePdu plainSecurity [0x80, 1, 11], .writePdu plainSecurity [0x80, 3, 13], .reorderingTimerExpired,
    .writePdu plainSecurity [0x80, 2, 12]]

instance (r : NrReceiver) : (event : NrEvent) → Decidable (r.CountsBelow event ∧ r.HfnsInRange event)
  | .writePdu _ pdu => inferInstanceAs (Decidable
      (r.entity.impliedCount (readDataHeader r.entity.cfg pdu) < 4294967295 ∧
        (r.entity.cfg.hfn r.entity.rxDeliv = 0 → readDataHeader r.entity.cfg pdu <
          r.entity.cfg.sn r.entity.rxDeliv + r.entity.cfg.windowSize)))
  | .reorderingTimerExpired => inferInstanceAs (Decidable (True ∧ True))
  | .enableSecurity _ _ => inferInstanceAs (Decidable (True ∧ True))

theorem ordered_of_reaches_lostPduRun :
    ∃ r : NrReceiver, runAllowed step (fun r event => r.CountsBelow event ∧ r.HfnsInRange event) nrDrb
        lostPduRun = some r ∧
      r.delivered.map RxSdu.count = [1, 2, 3] ∧ r.entity.rxDeliv = 4 ∧ r.entity.rxNext = 4 ∧ r.Ordered ∧
      r.entity.CountNear [0x87, 0xFF, 1] := by
  have run : ∃ r : NrReceiver,
      runAllowed step (fun r event => r.CountsBelow event ∧ r.HfnsInRange event) nrDrb lostPduRun = some r ∧
        r.delivered.map RxSdu.count = [1, 2, 3] ∧ r.entity.rxDeliv = 4 ∧ r.entity.rxNext = 4 ∧
        (r.CountsBelow (.writePdu plainSecurity [0x87, 0xFF, 1]) ∧
          r.HfnsInRange (.writePdu plainSecurity [0x87, 0xFF, 1])) := ⟨_, rfl, rfl, rfl, rfl, by decide⟩
  obtain ⟨r, run, counts, deliv, next, below, inRange⟩ := run
  have reached := (reaches_of_runAllowed lostPduRun run).mono fun _ _ ok => of_decide_eq_true ok
  obtain ⟨ordered, near⟩ := ordered_of_reaches nrDrb_initial reached
  exact ⟨r, run, counts, deliv, next, ordered, near plainSecurity _ below inRange⟩

theorem nrDrb_count_far :
    ¬ ∀ r : NrReceiver, Reaches step CountsBelow nrDrb r →
      r.Ordered ∧ ∀ security pdu, r.CountsBelow (.writePdu security pdu) → r.entity.CountNear pdu := by
  intro near
  have far := (near nrDrb .refl).2 plainSecurity [0x88, 0, 1]
    (show nrDrb.entity.impliedCount 2048 < 4294967295 by decide)
  revert far
  unfold EntityNr.CountNear
  decide

end NrReceiver

end IsrRan.Pdcp
