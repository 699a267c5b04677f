import IsrRan.Rlc.AmLte.TxBuild

namespace IsrRan.Rlc.AmLte.Tx
open Lib Adt

variable {tx tx' : Tx}

theorem windowInv_init (cfg : TxConfig) : ({ cfg } : Tx).WindowInv where
  vtA := (by decide : 0 < mod)
  vtS := (by decide : 0 < mod)
  vtMs := (by decide : windowSize = (0 + windowSize) % mod)
  order := (by decide : modOffset mod 0 0 ≤ windowSize)
  wellFormed := CircularMap.wellFormed_empty
  keys := fun sn present => by simp [CircularMap.contains] at present

theorem emptyQueue_eq (tx : Tx) : ∃ segmentPool undeliveredSdus,
    tx.emptyQueue = { tx with txSdu := none, txSduQueue := [], segmentPool, undeliveredSdus } := by
  unfold emptyQueue
  split
  · rename_i none
    refine ⟨tx.segmentPool, tx.undeliveredSdus, ?_⟩
    rw [← none]
  · exact ⟨_, _, rfl⟩

theorem WindowInv.handleStatus (h : tx.WindowInv) {status : StatusPdu} {calls : List TxCall}
    (handled : tx.handleStatus status = .ok (tx', calls)) :
    tx'.WindowInv ∧ ∀ sn, tx'.txWindow.contains sn = (tx.txWindow.contains sn &&
      !(tx.validAckSn status.ackSn && tx.offset sn < tx.offset status.ackSn && !nacked status sn)) := by
  cases valid : tx.validAckSn status.ackSn with
  | false =>
    unfold Tx.handleStatus at handled
    rw [if_pos (by simp [valid])] at handled
    cases handled
    exact ⟨h, by simp⟩
  | true =>
    obtain ⟨s, folded, rfl, _⟩ := handleStatus_eq h.vtA valid handled
    have progress := h.ackProgress folded
    have inv := progress.windowInv h (Nat.min_le_right _ _)
    refine ⟨⟨inv.vtA, inv.vtS, inv.vtMs, inv.order, inv.wellFormed, inv.keys⟩, fun sn => ?_⟩
    rw [progress.window]
    cases present : tx.txWindow.contains sn with
    | false => rfl
    | true =>
      have below := (h.keys sn present).2
      have same : tx.offset sn < tx.ackCount status ↔ tx.offset sn < tx.offset status.ackSn := by
        unfold ackCount
        omega
      simp [same]

theorem WindowInv.same (h : tx.WindowInv) (vtA : tx'.vtA = tx.vtA) (vtMs : tx'.vtMs = tx.vtMs)
    (vtS : tx'.vtS = tx.vtS) (window : tx'.txWindow = tx.txWindow) : tx'.WindowInv := by
  refine ⟨by rw [vtA]; exact h.vtA, by rw [vtS]; exact h.vtS, by rw [vtMs, vtA]; exact h.vtMs, ?_,
    by rw [window]; exact h.wellFormed, fun sn present => ?_⟩
  · unfold offset
    rw [vtA, vtS]
    exact h.order
  · rw [window] at present
    unfold offset
    rw [vtA, vtS]
    exact h.keys sn present

theorem WindowInv.step (h : tx.WindowInv) {e : TxEvent} {out : Outcome} (stepped : tx.step e = some (.ok out)) :
    out.tx.WindowInv := by
  cases e with
  | writeSdu sdu =>
    cases stepped
    unfold writeSdu
    split
    · exact h.same rfl rfl rfl rfl
    · exact h
  | discardSdu pdcpSn =>
    cases stepped
    unfold discardSdu
    split
    · exact h.same rfl rfl rfl rfl
    · exact h
  | readPdu rx ownsLock nofBytes =>
    obtain ⟨read, done, rfl⟩ := map_eq_ok.mp (Option.some.inj stepped)
    rcases readPdu_cases done with keeps | ⟨tx₁, keeps, built⟩
    · exact h.keeps keeps
    · exact (h.keeps keeps).built (buildDataPdu_built built)
  | pollRetxTimerExpired =>
    dsimp only [Tx.step] at stepped
    split at stepped
    · obtain ⟨⟨tx₁, calls⟩, expired, rfl⟩ := map_eq_ok.mp (Option.some.inj stepped)
      exact h.keeps (keeps_pollRetxTimerExpired expired)
    · contradiction
  | statusProhibitTimerExpired =>
    dsimp only [Tx.step] at stepped
    split at stepped
    · cases stepped
      exact h.same rfl rfl rfl rfl
    · contradiction
  | handleControlPdu payload nofBytes stale =>
    obtain ⟨⟨tx₁, calls⟩, handled, rfl⟩ := map_eq_ok.mp (Option.some.inj stepped)
    unfold handleControlPdu at handled
    split at handled
    · cases handled
      exact h
    · obtain ⟨status, _, handled⟩ := bind_eq_ok.mp handled
      exact (h.handleStatus handled).1
  | getBufferState =>
    obtain ⟨tx₁, got, rfl⟩ := map_eq_ok.mp (Option.some.inj stepped)
    exact h.keeps (keeps_getBufferState got)
  | emptyQueue =>
    cases stepped
    obtain ⟨pool, undelivered, eq⟩ := emptyQueue_eq tx
    rw [eq]
    exact h.same rfl rfl rfl rfl
  | reestablish =>
    cases stepped
    exact (windowInv_init tx.cfg).same rfl rfl rfl rfl
  | stop =>
    cases stepped
    exact (windowInv_init tx.cfg).same rfl rfl rfl rfl

theorem windowInv_of_reaches {cfg : TxConfig} {allowed : Tx → TxEvent → Prop}
    (run : Reaches next allowed { cfg } tx) : tx.WindowInv := by
  refine run.invariant (windowInv_init cfg) fun tx e tx' h _ eq => ?_
  obtain ⟨out, stepped, rfl⟩ := next_eq_some eq
  exact h.step stepped

def isStatusPdu (payload : Memory) : Bool := payload.byte 0 < 16

structure WindowOrdered (tx : Tx) : Prop where
  vtS : tx.txModBase tx.vtS ≤ windowSize
  vtMs : tx.vtMs = (tx.vtA + windowSize) % mod
  window : ∀ sn, tx.txWindow.contains sn = true → sn < mod ∧ tx.txModBase sn < tx.txModBase tx.vtS

/-- What a control PDU does to the window when its report `status` passes the check of ACK_SN: a STATUS PDU only takes
out what it acknowledges, an edge that is not there is reported as protocol failure. -/
structure AcksOnly (tx : Tx) (payload : Memory) (status : StatusPdu) (out : Outcome) : Prop where
  edge : out.tx.txWindow.isEmpty = true ∨ out.tx.txWindow.contains out.tx.vtA = true ∨
    TxCall.protocolFailure ∈ out.calls
  removed : isStatusPdu payload = true → ∀ sn, tx.txWindow.contains sn = true →
    out.tx.txWindow.contains sn = false → tx.txModBase sn < tx.txModBase status.ackSn ∧
      ∀ nack ∈ status.nacks, nack.nackSn ≠ sn

theorem txWindow_ordered {cfg : TxConfig} (run : Reaches next (fun _ _ => True) { cfg } tx) :
    tx.WindowOrdered ∧
      (∀ sn, tx.txWindow.isEmpty = true → tx.txWindow.contains sn = false) ∧
      ∀ payload nofBytes stale status out, tx.step (.handleControlPdu payload nofBytes stale) = some (.ok out) →
        readStatusPdu payload nofBytes stale = .ok status →
        if tx.txEnabled && tx.validAckSn status.ackSn then tx.AcksOnly payload status out
        else out.tx.txWindow = tx.txWindow := by
  have inv := windowInv_of_reaches run
  have base := txModBase_eq inv.vtA
  refine ⟨⟨?_, inv.vtMs, fun sn present => ?_⟩,
    fun sn empty => (inv.wellFormed.isEmpty_iff (by decide)).mp empty sn,
    fun payload nofBytes stale status out stepped read => ?_⟩
  · rw [base]
    exact inv.order
  · rw [base, base]
    exact inv.keys sn present
  · obtain ⟨⟨tx₁, calls⟩, handled, rfl⟩ := map_eq_ok.mp (Option.some.inj stepped)
    unfold handleControlPdu at handled
    dsimp only
    cases enabled : tx.txEnabled with
    | false =>
      rw [enabled] at handled
      cases handled
      simp
    | true =>
      rw [if_neg (by simp [enabled])] at handled
      obtain ⟨status', read', handled⟩ := bind_eq_ok.mp handled
      obtain rfl : status = status' := Except.ok.inj (read.symm.trans read')
      have window := (inv.handleStatus handled).2
      cases valid : tx.validAckSn status.ackSn with
      | false =>
        unfold Tx.handleStatus at handled
        rw [if_pos (by simp [valid])] at handled
        cases handled
        simp
      | true =>
        simp only [Bool.and_self, if_true]
        obtain ⟨s, folded, rfl, rfl⟩ := handleStatus_eq inv.vtA valid handled
        refine ⟨?_, fun _ sn before gone => ?_⟩
        · dsimp only
          cases s.1.txWindow.isEmpty <;> cases s.1.txWindow.contains s.1.vtA <;> simp
        · rw [window, before, valid] at gone
          simp only [Bool.true_and, Bool.not_eq_false', Bool.and_eq_true, decide_eq_true_eq,
            Bool.not_eq_true'] at gone
          rw [base, base]
          refine ⟨gone.1, fun nack mem same => ?_⟩
          have listed : nacked status sn = true := List.any_eq_true.mpr ⟨nack, mem, by simp [same]⟩
          rw [gone.2] at listed
          contradiction

def ackedRun : List TxEvent :=
  [.writeSdu ⟨0, [1]⟩, .readPdu {} true 3, .handleControlPdu (.ofList [0, 4]) 2 (.ofList [])]

theorem txWindow_ordered_ackedRun :
    ∃ tx : Tx, runAllowed next (fun _ _ => true) {} ackedRun = some tx ∧ (tx.vtA, tx.vtS) = (1, 1) ∧
      tx.WindowOrdered := by
  have run : ∃ tx : Tx, runAllowed next (fun _ _ => true) {} ackedRun = some tx ∧
      (tx.vtA, tx.vtS) = (1, 1) := ⟨_, rfl, rfl⟩
  obtain ⟨tx, run, variables_⟩ := run
  have reached : Reaches next (fun _ _ => True) {} tx :=
    (reaches_of_runAllowed ackedRun run).mono fun _ _ _ => trivial
  exact ⟨tx, run, variables_, (txWindow_ordered reached).1⟩

def gapAckedRun : List TxEvent :=
  [.writeSdu ⟨0, [1]⟩, .readPdu {} true 3, .writeSdu ⟨1, [1]⟩, .readPdu {} true 3, .writeSdu ⟨2, [1]⟩,
    .readPdu {} true 3, .handleControlPdu (.ofList [0, 10, 0, 0]) 4 (.ofList []),
    .handleControlPdu (.ofList [0, 4]) 2 (.ofList [])]

theorem gapAckedRun_loses_edge :
    ¬ ∀ (cfg : TxConfig) (tx : Tx), Reaches next (fun _ _ => True) { cfg } tx →
      (∃ sn, tx.txWindow.contains sn = true) → tx.txWindow.contains tx.vtA = true := by
  intro edge
  have run : ∃ tx : Tx, runAllowed next (fun _ _ => true) {} gapAckedRun = some tx ∧
      tx.txWindow.contains 2 = true ∧ tx.txWindow.contains tx.vtA = false := ⟨_, rfl, rfl, rfl⟩
  obtain ⟨tx, run, present, absent⟩ := run
  have reached : Reaches next (fun _ _ => True) {} tx :=
    (reaches_of_runAllowed gapAckedRun run).mono fun _ _ _ => trivial
  rw [edge {} tx reached ⟨2, present⟩] at absent
  contradiction

end IsrRan.Rlc.AmLte.Tx
