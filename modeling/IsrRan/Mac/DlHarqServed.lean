import IsrRan.Mac.DlHarqRuns
import Mathlib

namespace IsrRan.Mac.Lte.DlHarqRun
open Lib DlHarqProc Function TtiPoint

variable {s t : DlHarqRun} {start pid u : Nat} {h : DlHarqProc}

@[simp] theorem dlHarqs_transmit {q : Nat} : (s.transmit pid h).ent.dlHarqs q = if q = pid then h else s.ent.dlHarqs q :=
  update_apply _ _ _ _

@[simp] theorem nextTti_transmit : (s.transmit pid h).nextTti = s.now + 1 := rfl

theorem inv_initial {n m : Nat} : Inv start (initial start n m) where
  span := Nat.lt_succ_self start
  ids _ := rfl
  tidy _ _ active := by contradiction
  ring t after before := by
    change t ≤ start at before
    omega
  past := nofun
  busy _ busy := by contradiction
  recent := nofun

namespace Inv
variable (inv : Inv start s)
include inv

theorem newTti (kept : ∀ pid u, (s.ent.dlHarqs pid).isEmpty = false → s.lastTx pid = some u → s.now + 1 < u + 12) :
    Inv start { s with now := s.now + 1, closed := false, ent := s.ent.newTti (.ofTti (s.now + 1)) } := by
  have stays : ∀ pid, ((s.ent.newTti (.ofTti (s.now + 1))).dlHarqs pid).isEmpty = false →
      (s.ent.dlHarqs pid).isEmpty = false := by
    intro pid busy
    obtain ⟨tbIdx, active⟩ := HarqProc.isEmpty_eq_false.mp busy
    exact HarqProc.isEmpty_eq_false.mpr ⟨tbIdx, (congrArg HarqTb.active (newTti_active active)).symm.trans active⟩
  have next := s.nextTti_le
  constructor
  · have span := inv.span
    change start < s.now + 1
    omega
  · exact inv.ids
  · exact fun pid => Tidy.newTti (inv.tidy pid)
  · intro t after before recent
    change t ≤ s.now + 1 at before
    change s.now + 1 < t + 8 at recent
    change update s.ent.lastTtis ((s.now + 1) % 10240 % 8) _ (t % 8) = _
    rw [Nat.mod_mod_of_dvd _ (show 8 ∣ 10240 by decide)]
    rcases Nat.eq_or_lt_of_le before with rfl | earlier
    · exact update_self _ _ _
    · rw [update_of_ne (by omega)]
      exact inv.ring t after (by omega) (by omega)
  · intro u pid mem
    have past := inv.past u pid mem
    change start + 4 < u ∧ u < s.now + 1 + 4
    omega
  · intro pid busy
    obtain ⟨inside, retx, u, last, tti, _⟩ := inv.busy pid (stays pid busy)
    exact ⟨inside, retx, u, last, tti, kept pid u (stays pid busy) last⟩
  · intro u pid mem due
    change s.now + 1 ≤ u + 4 at due
    obtain ⟨inside, last, tti, lower, busy⟩ := inv.recent u pid mem (by omega)
    refine ⟨inside, last, tti, lower, ?_⟩
    intro later
    change s.now + 1 < u + 4 at later
    have past := inv.past u pid mem
    change ((s.ent.dlHarqs pid).newTti (toTxDl (.ofTti (s.now + 1)))).isEmpty = false
    rw [newTti_early]
    · exact busy (by omega)
    · rw [tti, toTxDl_ofTti, toTxDlAck_ofTti, ge_ofTti (by omega) (by omega), decide_eq_false_iff_not]
      omega

theorem feedback {tbIdx : TbIdx} {ack : Bool} (due : u + 4 = s.nextTti) (mem : u ∈ s.sent.map Prod.fst) :
    Inv start { s with ent := (s.ent.setAckInfo (.ofTti (u + 4)) tbIdx ack).1 } := by
  obtain ⟨⟨v, pid⟩, sent, rfl⟩ := List.mem_map.mp mem
  have last := (inv.recent v pid sent due.ge).2.1
  rw [(inv.setAckInfo_eq due sent).1]
  obtain ⟨tti, id, maxRetx⟩ := @setAck_keeps (s.ent.dlHarqs pid) tbIdx ack
  have proc : ∀ q, (s.ent.setDl pid ((s.ent.dlHarqs pid).setAck tbIdx ack).1).dlHarqs q =
      if q = pid then ((s.ent.dlHarqs pid).setAck tbIdx ack).1 else s.ent.dlHarqs q :=
    fun q => update_apply _ _ _ _
  have sameTti : ∀ q, ((s.ent.setDl pid ((s.ent.dlHarqs pid).setAck tbIdx ack).1).dlHarqs q).tti =
      (s.ent.dlHarqs q).tti := by
    intro q
    rw [proc]
    split
    · rename_i same
      exact same ▸ tti
    · rfl
  have stays : ∀ q, ((s.ent.setDl pid ((s.ent.dlHarqs pid).setAck tbIdx ack).1).dlHarqs q).isEmpty = false →
      (s.ent.dlHarqs q).isEmpty = false := by
    intro q busy
    rw [proc] at busy
    split at busy
    · rename_i same
      subst same
      cases empty : (s.ent.dlHarqs q).isEmpty with
      | false => rfl
      | true => exact (setAck_active empty).symm.trans busy
    · exact busy
  constructor
  · exact inv.span
  · intro q
    rw [proc]
    split
    · rename_i same
      exact id.trans ((inv.ids pid).trans same.symm)
    · exact inv.ids q
  · intro q
    rw [proc]
    split
    · exact Tidy.setAck (inv.tidy pid)
    · exact inv.tidy q
  · exact inv.ring
  · exact inv.past
  · intro q busy
    obtain ⟨inside, retx, w, last, ttiw, age⟩ := inv.busy q (stays q busy)
    refine ⟨inside, ?_, w, last, (sameTti q).trans ttiw, age⟩
    rw [proc]
    split
    · rename_i same
      subst same
      exact maxRetx ▸ retx
    · exact retx
  · intro w q memq dueq
    obtain ⟨inside, lastq, ttiq, lower, busy⟩ := inv.recent w q memq dueq
    refine ⟨inside, lastq, (sameTti q).trans ttiq, ?_, ?_⟩
    · intro r below
      exact (sameTti r).symm ▸ lower r below
    · intro later
      have different : q ≠ pid := by
        rintro rfl
        have same : v = w := Option.some.inj (last.symm.trans lastq)
        change s.nextTti < w + 4 at later
        omega
      rw [proc, if_neg different]
      exact busy later

theorem transmit (opened : s.closed = false) (inside : pid < s.ent.nofDlHarqs)
    (sent : Sent (s.ent.dlHarqs pid) h s.txTti) (retx : 1 ≤ h.maxRetx)
    (free : ∀ u, (u, pid) ∈ s.sent → s.now < u + 4 → False)
    (lower : ∀ q, q < pid → (s.ent.dlHarqs q).tti.add fddHarqDelayDlMs ≠ s.txTti.add fddHarqDelayDlMs) :
    Inv start (s.transmit pid h) := by
  have next : s.nextTti = s.now := by
    unfold nextTti
    rw [opened]
    rfl
  have tti : h.tti.add fddHarqDelayDlMs = .ofTti (s.now + 4 + 4) := by
    rw [sent.tti]
    exact ofTti_add (by decide)
  have span := inv.span
  constructor
  · rw [nextTti_transmit]
    omega
  · intro q
    rw [dlHarqs_transmit]
    split
    · rename_i same
      exact sent.id.trans ((inv.ids pid).trans same.symm)
    · exact inv.ids q
  · intro q
    rw [dlHarqs_transmit]
    split
    · exact sent.tidy
    · exact inv.tidy q
  · exact inv.ring
  · intro u q mem
    rw [nextTti_transmit]
    rcases List.mem_cons.mp mem with new | old
    · obtain ⟨rfl, rfl⟩ := Prod.mk.inj new
      omega
    · have past := inv.past u q old
      omega
  · intro q busy
    rw [dlHarqs_transmit] at busy ⊢
    rw [lastTx_transmit]
    split at busy
    · rename_i same
      subst same
      refine ⟨inside, by simpa using retx, s.now + 4, by simp, by rw [if_pos rfl]; exact sent.tti, ?_⟩
      change s.now < s.now + 4 + 12
      omega
    · rename_i different
      rw [if_neg different, if_neg different]
      exact inv.busy q busy
  · intro u q mem due
    rw [nextTti_transmit] at due ⊢
    rw [lastTx_transmit]
    simp only [dlHarqs_transmit]
    rcases List.mem_cons.mp mem with new | old
    · obtain ⟨rfl, rfl⟩ := Prod.mk.inj new
      refine ⟨inside, if_pos rfl, by rw [if_pos rfl]; exact sent.tti, ?_, ?_⟩
      · intro r below
        rw [if_neg (by omega)]
        exact fun same => lower r below (same.trans (ofTti_add (by decide)).symm)
      · intro _
        simpa using sent.busy
    · have past := inv.past u q old
      have different : q ≠ pid := by
        rintro rfl
        exact free u old (by omega)
      obtain ⟨insideq, last, ttiq, lowerq, busy⟩ := inv.recent u q old (by omega)
      rw [if_neg different, if_neg different]
      refine ⟨insideq, last, ttiq, ?_, fun _ => busy (by omega)⟩
      intro r below
      split
      · rw [tti]
        intro same
        have := (ofTti_eq_of_near (by omega) (by omega)).mp same
        omega
      · exact lowerq r below

theorem newTx {newMask : List Bool} {nCce maxRetx : Nat} {pdu : TbIdx → Option (Int × Int)} (opened : s.closed = false)
    (some_tb : ∃ tbIdx, pdu tbIdx ≠ none) (retx : 1 ≤ maxRetx) (found : s.ent.getEmptyDlHarq s.txTti = some pid) :
    Inv start (s.transmit pid ((s.ent.dlHarqs pid).sendNew newMask s.txTti nCce maxRetx pdu)) := by
  have next : s.nextTti = s.now := by
    unfold nextTti
    rw [opened]
    rfl
  obtain ⟨empty, inside, first⟩ := List.find?_range_eq_some.mp found
  obtain ⟨sent, max⟩ := @sendNew_sent (s.ent.dlHarqs pid) s.txTti newMask nCce maxRetx pdu (inv.tidy pid) some_tb
  apply inv.transmit opened (List.mem_range.mp inside) sent (max.symm ▸ retx)
  · intro u mem young
    have busy := (inv.recent u pid mem (by omega)).2.2.2.2 (by omega)
    rw [empty] at busy
    contradiction
  · intro q below same
    obtain ⟨_, _, v, last, tti, age⟩ := inv.busy q (by simpa using first q below)
    have past := inv.past v q (mem_of_lastTx last)
    rw [tti, txTti, ofTti_add (by decide), ofTti_add (by decide),
      ofTti_eq_of_near (by omega) (by omega)] at same
    omega

theorem retx {newMask : List Bool} {nCce : Nat} (opened : s.closed = false)
    (found : s.ent.getPendingDlHarq s.txTti = some pid)
    (lower : ∀ q, q < pid → (s.ent.dlHarqs q).tti.add fddHarqDelayDlMs ≠ s.txTti.add fddHarqDelayDlMs) :
    Inv start (s.transmit pid ((s.ent.dlHarqs pid).sendAgain newMask s.txTti nCce)) := by
  have next : s.nextTti = s.now := by
    unfold nextTti
    rw [opened]
    rfl
  obtain ⟨v, inside, ⟨tbIdx, active, _⟩, last, passed⟩ := inv.pending found
  have busy := HarqProc.isEmpty_eq_false.mpr ⟨tbIdx, active⟩
  obtain ⟨sent, max⟩ := @sendAgain_sent (s.ent.dlHarqs pid) s.txTti newMask nCce (inv.tidy pid) busy
  apply inv.transmit opened inside sent (max.symm ▸ (inv.busy pid busy).2.1) _ lower
  intro u mem young
  have same : u = v := Option.some.inj ((inv.recent u pid mem (by omega)).2.1.symm.trans last)
  omega

theorem finish : Inv start { s with closed := true, ent := s.ent.finishTti (.ofTti s.now) } := by
  have same : (s.ent.finishTti (.ofTti s.now)).dlHarqs = s.ent.dlHarqs := by
    funext q
    change (if !(s.ent.dlHarqs q).isEmpty ∧ (s.ent.dlHarqs q).maxRetx = 0 then _ else _) = _
    rw [if_neg]
    rintro ⟨busy, zero⟩
    have retx := (inv.busy q (by simpa using busy)).2.1
    omega
  have next := s.nextTti_le
  have span := inv.span
  constructor
  · change start < s.now + 1
    omega
  · exact same ▸ inv.ids
  · exact same ▸ inv.tidy
  · exact inv.ring
  · intro u pid mem
    have past := inv.past u pid mem
    change start + 4 < u ∧ u < s.now + 1 + 4
    omega
  · exact same ▸ inv.busy
  · intro u pid mem due
    change s.now + 1 ≤ u + 4 at due
    obtain ⟨inside, last, tti, lower, busy⟩ := inv.recent u pid mem (by omega)
    refine ⟨inside, last, same ▸ tti, same ▸ lower, ?_⟩
    intro later
    change s.now + 1 < u + 4 at later
    exact same ▸ busy (by omega)

theorem reset : Inv start { s with ent := s.ent.reset, sent := [] } := by
  have inactive : ∀ pid tbIdx, ((s.ent.reset.dlHarqs pid).tb tbIdx).active = false := by
    intro pid
    rw [Fin.forall_fin_two]
    constructor <;> simp [HarqEntity.reset, HarqProc.reset, HarqProc.setTb]
  constructor
  · exact inv.span
  · exact inv.ids
  · intro pid tbIdx active
    rw [inactive] at active
    contradiction
  · exact inv.ring
  · intro _ _ mem
    cases mem
  · intro pid busy
    contradiction
  · intro _ _ mem
    cases mem

theorem step {e : DlHarqEvent} (kept : s.Kept e) (next : s.step e = some t) : Inv start t := by
  cases e with
  | newTti =>
    obtain rfl := Option.some.inj next
    exact inv.newTti kept
  | feedback u tbIdx ack =>
    obtain ⟨⟨due, mem⟩, rfl⟩ := Option.ite_some_none_eq_some.mp next
    exact inv.feedback due mem
  | newTx newMask nCce maxRetx pdu =>
    obtain ⟨⟨opened, some_tb⟩, same⟩ := Option.ite_none_right_eq_some.mp next
    obtain ⟨pid, found, rfl⟩ := Option.map_eq_some_iff.mp same
    exact inv.newTx opened some_tb kept found
  | retx newMask nCce =>
    obtain ⟨opened, same⟩ := Option.ite_none_right_eq_some.mp next
    obtain ⟨pid, found, rfl⟩ := Option.map_eq_some_iff.mp same
    exact inv.retx opened found (kept pid found)
  | finish =>
    obtain rfl := Option.some.inj next
    exact inv.finish
  | reset =>
    obtain rfl := Option.some.inj next
    exact inv.reset

end Inv

theorem served_of_kept {n m : Nat} (run : Reaches step Kept (initial start n m) s) : Served s :=
  (run.invariant inv_initial fun _ _ _ inv kept next => inv.step kept next : Inv start s).served

def oneBlock : DlHarqEvent := .newTx [] 0 5 fun tbIdx => if tbIdx = 0 then some (1, 10) else none

theorem served_of_kept_oneBlock : ∃ s, Reaches step Kept (initial 0 8 8) s ∧ s.sent = [(5, 0)] ∧ Served s := by
  have kept : Kept (initial 0 8 8) .newTti := by
    intro pid u busy
    change true = false at busy
    contradiction
  have first : Reaches step Kept (initial 0 8 8) _ := .tail .refl kept rfl
  have retx : ∀ s, Kept s oneBlock := fun _ => Nat.succ_le_succ (Nat.zero_le 4)
  have second : Reaches step Kept (initial 0 8 8) _ := .tail first (retx _) rfl
  exact ⟨_, second, rfl, served_of_kept second⟩

def starved : List DlHarqEvent :=
  [.newTti, oneBlock] ++ List.replicate 7 .newTti ++ [.finish, .feedback 5 0 false] ++ List.replicate 9 .newTti

theorem starved_stranded : ¬∀ start n m s, Reaches step (fun _ _ => True) (initial start n m) s → Served s := by
  have outcome : (runAllowed step (fun _ _ => true) (initial 0 8 8) starved).any (fun s =>
      s.ent.getPendingDlHarq s.txTti = none ∧ s.now = 17 ∧ s.ent.nofDlHarqs = 8 ∧ s.lastTx 0 = some 5 ∧
        ((s.ent.dlHarqs 0).tb 0).active = true ∧ ((s.ent.dlHarqs 0).tb 0).ackState = false) = true := by
    decide +kernel
  intro served
  obtain ⟨s, run, found⟩ := (Option.any_eq_true _ _).mp outcome
  obtain ⟨absent, now, size, last, active, unacked⟩ := of_decide_eq_true found
  have waiting : s.Waiting 0 5 := ⟨by omega, ⟨0, active, unacked⟩, last, by omega⟩
  have reach := (reaches_of_runAllowed starved run).mono fun _ _ _ => trivial
  obtain ⟨pid, _, present, _⟩ := (served 0 8 8 s reach).longest ⟨0, 5, waiting⟩
  cases absent.symm.trans present

end IsrRan.Mac.Lte.DlHarqRun
