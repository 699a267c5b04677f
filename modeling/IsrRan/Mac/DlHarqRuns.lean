import IsrRan.Lib.Lists
import IsrRan.Lib.Transition
import IsrRan.Mac.SchedHarq

namespace IsrRan.Mac.Lte
open Lib TtiPoint

structure DlHarqRun where
  now : Nat
  closed : Bool
  ent : HarqEntity
  sent : List (Nat × Nat)

inductive DlHarqEvent where
  | newTti
  | feedback (u : Nat) (tbIdx : TbIdx) (ack : Bool)
  | newTx (newMask : List Bool) (nCce maxRetx : Nat) (pdu : TbIdx → Option (Int × Int))
  | retx (newMask : List Bool) (nCce : Nat)
  | finish
  | reset

namespace DlHarqRun

def initial (start nofDlHarqs nofUlHarqs : Nat) : DlHarqRun :=
  { now := start, closed := true, ent := { nofDlHarqs, nofUlHarqs }, sent := [] }

def nextTti (s : DlHarqRun) : Nat := if s.closed then s.now + 1 else s.now

def txTti (s : DlHarqRun) : TtiPoint := .ofTti (s.now + 4)

def lastTx (s : DlHarqRun) (pid : Nat) : Option Nat := (s.sent.find? fun x => decide (x.2 = pid)).map Prod.fst

def transmit (s : DlHarqRun) (pid : Nat) (h : DlHarqProc) : DlHarqRun :=
  { s with closed := true, ent := s.ent.setDl pid h, sent := (s.now + 4, pid) :: s.sent }

/-- Feedback of a subframe comes in before its scheduling, as the receiving worker asks for the grants last. -/
def step (s : DlHarqRun) : DlHarqEvent → Option DlHarqRun
  | .newTti => some { s with now := s.now + 1, closed := false, ent := s.ent.newTti (.ofTti (s.now + 1)) }
  | .feedback u tbIdx ack =>
    if u + 4 = s.nextTti ∧ u ∈ s.sent.map Prod.fst then
      some { s with ent := (s.ent.setAckInfo (.ofTti (u + 4)) tbIdx ack).1 }
    else none
  | .newTx newMask nCce maxRetx pdu =>
    if s.closed = false ∧ ∃ tbIdx, pdu tbIdx ≠ none then
      (s.ent.getEmptyDlHarq s.txTti).map fun pid =>
        s.transmit pid ((s.ent.dlHarqs pid).sendNew newMask s.txTti nCce maxRetx pdu)
    else none
  | .retx newMask nCce =>
    if s.closed = false then
      (s.ent.getPendingDlHarq s.txTti).map fun pid =>
        s.transmit pid ((s.ent.dlHarqs pid).sendAgain newMask s.txTti nCce)
    else none
  | .finish => some { s with closed := true, ent := s.ent.finishTti (.ofTti s.now) }
  | .reset => some { s with ent := s.ent.reset, sent := [] }

def Waiting (s : DlHarqRun) (pid u : Nat) : Prop :=
  pid < s.ent.nofDlHarqs ∧ (∃ tbIdx, ((s.ent.dlHarqs pid).tb tbIdx).active = true ∧
    ((s.ent.dlHarqs pid).tb tbIdx).ackState = false) ∧ s.lastTx pid = some u ∧ u + 4 ≤ s.now

/-- The process that waits longest is found, and feedback acts on the process that was sent four subframes before. -/
structure Served (s : DlHarqRun) : Prop where
  longest : (∃ pid u, s.Waiting pid u) → ∃ pid u, s.ent.getPendingDlHarq s.txTti = some pid ∧ s.Waiting pid u ∧
    ∀ q v, s.Waiting q v → u ≤ v
  feedback : ∀ u pid tbIdx ack, u + 4 = s.nextTti → (u, pid) ∈ s.sent →
    (s.ent.setAckInfo (.ofTti (u + 4)) tbIdx ack).1 = s.ent.setDl pid ((s.ent.dlHarqs pid).setAck tbIdx ack).1 ∧
    (s.ent.setAckInfo (.ofTti (u + 4)) tbIdx ack).2.1 = pid

/-- No unacknowledged block stays for twelve subframes, blocks may be sent again, and a repetition never falls on a
subframe that a lower process still carries. -/
def Kept (s : DlHarqRun) : DlHarqEvent → Prop
  | .newTti => ∀ pid u, (s.ent.dlHarqs pid).isEmpty = false → s.lastTx pid = some u → s.now + 1 < u + 12
  | .newTx _ _ maxRetx _ => 1 ≤ maxRetx
  | .retx _ _ => ∀ pid, s.ent.getPendingDlHarq s.txTti = some pid → ∀ q, q < pid →
      (s.ent.dlHarqs q).tti.add fddHarqDelayDlMs ≠ s.txTti.add fddHarqDelayDlMs
  | _ => True

structure Inv (start : Nat) (s : DlHarqRun) : Prop where
  span : start < s.nextTti
  ids : ∀ pid, (s.ent.dlHarqs pid).id = pid
  tidy : ∀ pid, (s.ent.dlHarqs pid).Tidy
  ring : ∀ t, start < t → t ≤ s.now → s.now < t + 8 → s.ent.lastTtis (t % 8) = .ofTti t
  past : ∀ u pid, (u, pid) ∈ s.sent → start + 4 < u ∧ u < s.nextTti + 4
  busy : ∀ pid, (s.ent.dlHarqs pid).isEmpty = false → pid < s.ent.nofDlHarqs ∧ 1 ≤ (s.ent.dlHarqs pid).maxRetx ∧
    ∃ u, s.lastTx pid = some u ∧ (s.ent.dlHarqs pid).tti = .ofTti u ∧ s.now < u + 12
  recent : ∀ u pid, (u, pid) ∈ s.sent → s.nextTti ≤ u + 4 → pid < s.ent.nofDlHarqs ∧ s.lastTx pid = some u ∧
    (s.ent.dlHarqs pid).tti = .ofTti u ∧
    (∀ q, q < pid → (s.ent.dlHarqs q).tti.add fddHarqDelayDlMs ≠ .ofTti (u + 4)) ∧
    (s.nextTti < u + 4 → (s.ent.dlHarqs pid).isEmpty = false)

variable {s t : DlHarqRun} {start pid u : Nat}

theorem mem_of_lastTx (last : s.lastTx pid = some u) : (u, pid) ∈ s.sent := by
  obtain ⟨⟨v, q⟩, found, rfl⟩ := Option.map_eq_some_iff.mp last
  have same : q = pid := by simpa using List.find?_some found
  exact same ▸ List.mem_of_find?_eq_some found

theorem lastTx_transmit {h : DlHarqProc} {q : Nat} :
    (s.transmit pid h).lastTx q = if q = pid then some (s.now + 4) else s.lastTx q := by
  unfold lastTx transmit
  by_cases same : q = pid
  · simp [same]
  · simp [same, Ne.symm same]

theorem nextTti_le : s.now ≤ s.nextTti ∧ s.nextTti ≤ s.now + 1 := by
  unfold nextTti
  split <;> omega

namespace Inv
variable (inv : Inv start s)
include inv

theorem lastTx_bounds (last : s.lastTx pid = some u) : start + 4 < u ∧ u < s.now + 5 := by
  have bounds := inv.past u pid (mem_of_lastTx last)
  have next := s.nextTti_le
  omega

theorem eligible_iff (inside : pid < s.ent.nofDlHarqs) :
    ((s.ent.dlHarqs pid).hasPendingRetx s.txTti && decide (s.ent.lastTtis
      (((s.ent.dlHarqs pid).tti.add fddHarqDelayDlMs).ttiVal % 8) = (s.ent.dlHarqs pid).tti.add fddHarqDelayDlMs)) = true ↔
    ∃ u, s.Waiting pid u := by
  rw [Bool.and_eq_true, DlHarqProc.hasPendingRetx_eq_true, decide_eq_true_eq]
  constructor
  · rintro ⟨⟨passed, tbIdx, active, unacked⟩, _⟩
    obtain ⟨_, _, u, last, tti, age⟩ := inv.busy pid (HarqProc.isEmpty_eq_false.mpr ⟨tbIdx, active⟩)
    have bounds := inv.lastTx_bounds last
    rw [tti, toTxDlAck_ofTti, txTti, ge_ofTti (by omega) (by omega), decide_eq_true_eq] at passed
    exact ⟨u, inside, ⟨tbIdx, active, unacked⟩, last, by omega⟩
  · rintro ⟨u, _, ⟨tbIdx, active, unacked⟩, last, passed⟩
    obtain ⟨_, _, v, lastv, tti, age⟩ := inv.busy pid (HarqProc.isEmpty_eq_false.mpr ⟨tbIdx, active⟩)
    obtain rfl : v = u := Option.some.inj (lastv.symm.trans last)
    have bounds := inv.lastTx_bounds last
    rw [tti, toTxDlAck_ofTti, txTti, ge_ofTti (by omega) (by omega), decide_eq_true_eq]
    refine ⟨⟨by omega, tbIdx, active, unacked⟩, ?_⟩
    rw [ofTti_add (by decide), ttiVal_ofTti, Nat.mod_mod_of_dvd _ (show 8 ∣ 10240 by decide)]
    exact inv.ring (v + 4) (by omega) passed (by omega)

theorem key_eq (waiting : s.Waiting pid u) :
    (s.txTti.sub (s.ent.dlHarqs pid).tti % 2 ^ 32).toNat = s.now + 4 - u := by
  obtain ⟨_, ⟨tbIdx, active, _⟩, last, passed⟩ := waiting
  obtain ⟨_, _, v, lastv, tti, age⟩ := inv.busy pid (HarqProc.isEmpty_eq_false.mpr ⟨tbIdx, active⟩)
  obtain rfl : v = u := Option.some.inj (lastv.symm.trans last)
  rw [tti, txTti, sub_ofTti (by omega) (by omega)]
  omega

theorem getOldestDlHarq_spec : ∃ best : Option Nat × Nat, s.ent.getOldestDlHarq s.txTti = best.1 ∧
    (∀ q v, s.Waiting q v → s.now + 4 - v ≤ best.2) ∧
    (∀ pid, best.1 = some pid → ∃ u, s.Waiting pid u ∧ s.now + 4 - u = best.2) ∧ (best.1 = none → best.2 = 0) := by
  have search := argMax_range (n := s.ent.nofDlHarqs)
    (fun i => (s.ent.dlHarqs i).hasPendingRetx s.txTti && decide (s.ent.lastTtis
      (((s.ent.dlHarqs i).tti.add fddHarqDelayDlMs).ttiVal % 8) = (s.ent.dlHarqs i).tti.add fddHarqDelayDlMs))
    (fun i => (s.txTti.sub (s.ent.dlHarqs i).tti % 2 ^ 32).toNat) (fun i => (s.ent.dlHarqs i).id)
  refine ⟨_, rfl, ?_, ?_, search.absent⟩
  · intro q v waiting
    rw [← inv.key_eq waiting]
    exact search.bound q waiting.1 ((inv.eligible_iff waiting.1).mpr ⟨v, waiting⟩)
  · intro pid found
    obtain ⟨i, inside, eligible, name, key⟩ := search.found pid found
    obtain rfl : i = pid := (inv.ids i).symm.trans name
    obtain ⟨u, waiting⟩ := (inv.eligible_iff inside).mp eligible
    exact ⟨u, waiting, (inv.key_eq waiting).symm.trans key⟩

theorem longest (exists_waiting : ∃ pid u, s.Waiting pid u) : ∃ pid u, s.ent.getPendingDlHarq s.txTti = some pid ∧
    s.Waiting pid u ∧ ∀ q v, s.Waiting q v → u ≤ v := by
  obtain ⟨⟨result, age⟩, search, bound, found, absent⟩ := inv.getOldestDlHarq_spec
  cases result with
  | none =>
    obtain ⟨q, v, waiting⟩ := exists_waiting
    have positive := bound q v waiting
    have zero := absent rfl
    have passed := waiting.2.2.2
    omega
  | some p =>
    obtain ⟨u, waiting, key⟩ := found p rfl
    refine ⟨p, u, search, waiting, ?_⟩
    intro q v other
    have less := bound q v other
    have passed := waiting.2.2.2
    omega

theorem pending (found : s.ent.getPendingDlHarq s.txTti = some pid) : ∃ u, s.Waiting pid u := by
  obtain ⟨best, search, _, result, _⟩ := inv.getOldestDlHarq_spec
  obtain ⟨u, waiting, _⟩ := result pid (search.symm.trans found)
  exact ⟨u, waiting⟩

theorem setAckInfo_eq {tbIdx : TbIdx} {ack : Bool} (due : u + 4 = s.nextTti) (mem : (u, pid) ∈ s.sent) :
    (s.ent.setAckInfo (.ofTti (u + 4)) tbIdx ack).1 = s.ent.setDl pid ((s.ent.dlHarqs pid).setAck tbIdx ack).1 ∧
    (s.ent.setAckInfo (.ofTti (u + 4)) tbIdx ack).2.1 = pid := by
  obtain ⟨inside, _, tti, lower, _⟩ := inv.recent u pid mem due.ge
  have found : (List.range s.ent.nofDlHarqs).find? (fun i =>
      decide ((s.ent.dlHarqs i).tti.add fddHarqDelayDlMs = .ofTti (u + 4))) = some pid := by
    rw [List.find?_range_eq_some]
    refine ⟨?_, List.mem_range.mpr inside, ?_⟩
    · rw [tti, decide_eq_true_eq]
      exact ofTti_add (by decide)
    · intro q below
      simpa using lower q below
  unfold HarqEntity.setAckInfo
  rw [found]
  refine ⟨rfl, ?_⟩
  have id := (@DlHarqProc.setAck_keeps (s.ent.dlHarqs pid) tbIdx ack).2.1
  dsimp only
  split
  · exact id.trans (inv.ids pid)
  · exact id.trans (inv.ids pid)

theorem served : Served s := ⟨inv.longest, fun _ _ _ _ due mem => inv.setAckInfo_eq due mem⟩

end Inv

end DlHarqRun

end IsrRan.Mac.Lte
