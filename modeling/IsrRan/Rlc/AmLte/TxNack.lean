import IsrRan.Rlc.AmLte.TxRetx

namespace IsrRan.Rlc.AmLte
open List Bool

/-- What a NACK asks for lies in a PDU of `nBytes` bytes. A start behind the end of the PDU means its first
byte, and an end of 0x7FFF its last one. -/
def Nack.fits (nack : Nack) (nBytes : Nat) : Bool :=
  0 < nBytes && (!nack.hasSo || nack.soEnd = 0x7FFF ||
    (if nBytes ≤ nack.soStart then 0 else nack.soStart) ≤ nack.soEnd && nack.soEnd < nBytes)

namespace Tx
open Lib Adt

variable {tx tx' tx₀ : Tx} {status : StatusPdu} {sn : Nat} {pdu : TxPdu} {buf : List Byte}

variable {k : Nat} {s : Tx × Bool × List TxCall}

theorem retxOf_sn (nack : Nack) (sn nBytes : Nat) : (retxOf nack sn nBytes).sn = sn := by
  unfold retxOf
  split <;> rfl

theorem retxOf_inside {nack : Nack} {nBytes : Nat} (fits : nack.fits nBytes = true) :
    RetxInside (retxOf nack sn nBytes) nBytes := by
  simp only [Nack.fits, and_eq_true, or_eq_true, decide_eq_true_eq] at fits
  obtain ⟨positive, fits⟩ := fits
  unfold retxOf
  split
  · rename_i hasSo
    rw [hasSo] at fits
    have low : (if nBytes ≤ nack.soStart then 0 else nack.soStart) < nBytes := by
      split <;> omega
    generalize (if nBytes ≤ nack.soStart then 0 else nack.soStart) = soStart at *
    by_cases special : nack.soEnd = 0x7FFF
    · simp only [special, low]
      exact ⟨low, le_rfl, fun whole => by contradiction⟩
    · obtain ⟨order, inside⟩ : soStart ≤ nack.soEnd ∧ nack.soEnd < nBytes := by
        rcases fits with (none | special') | range
        · contradiction
        · exact absurd special' special
        · exact range
      simp only [special, low, inside.le, decide_true, decide_false, Bool.false_or, Bool.and_true, if_true,
        if_false]
      exact ⟨by dsimp only; omega, by dsimp only; omega, fun whole => by contradiction⟩
  · exact ⟨positive, le_rfl, fun _ => rfl⟩

theorem handleNacks_absent (absent : tx.txWindow.find sn = none) (calls : List TxCall) (nacks : List Nack) :
    tx.handleNacks sn calls nacks = .ok (tx, calls) := by
  induction nacks generalizing calls with
  | nil => rfl
  | cons nack nacks ih =>
    have one : tx.handleNack sn nack = .ok (tx, []) := by
      unfold handleNack
      rw [absent]
    unfold handleNacks
    split
    · simp only [one, bind, Except.bind, append_nil]
      exact ih calls
    · exact ih calls

theorem handleNacks_queued (queued : tx.retxQueue.any (fun retx => retx.sn = sn) = true) (calls : List TxCall)
    (nacks : List Nack) : tx.handleNacks sn calls nacks = .ok (tx, calls) := by
  induction nacks generalizing calls with
  | nil => rfl
  | cons nack nacks ih =>
    have one : tx.handleNack sn nack = .ok (tx, []) := by
      unfold handleNack
      split
      · rfl
      · rw [if_pos queued]
    unfold handleNacks
    split
    · simp only [one, bind, Except.bind, append_nil]
      exact ih calls
    · exact ih calls

theorem handleNacks_first {nacks : List Nack} {nack : Nack} (found : tx.txWindow.find sn = some pdu)
    (stored : pdu.buf = some buf) (fresh : tx.retxQueue.any (fun retx => retx.sn = sn) = false)
    (room : tx.retxQueue.length < windowSize - 1) (calls : List TxCall)
    (first : (nacks.find? fun nack => nack.nackSn = sn) = some nack) :
    ∃ tx' calls', tx.handleNacks sn calls nacks = .ok (tx', calls') ∧
      tx'.retxQueue = tx.retxQueue ++ [retxOf nack sn buf.length] := by
  induction nacks generalizing calls with
  | nil => contradiction
  | cons head nacks ih =>
    unfold handleNacks
    rw [List.find?_cons] at first
    split
    · rename_i named
      simp only [named, decide_true, Option.some.injEq] at first
      subst first
      have counted : (tx.countRetx sn pdu).2.1.buf = some buf := stored
      have pushed : (tx.countRetx sn pdu).1.pushRetx (retxOf head sn buf.length) = .ok _ := if_pos room
      unfold handleNack
      simp only [found, fresh, counted, pushed]
      refine ⟨_, _, handleNacks_queued ?_ _ _, rfl⟩
      simp [retxOf_sn]
    · rename_i other
      simp only [other] at first
      exact ih calls first

def requested (tx : Tx) (status : StatusPdu) (sn : Nat) : Bool := nacked status sn && tx.txWindow.contains sn

theorem snsFrom_concat (start n : Nat) : snsFrom start (n + 1) = snsFrom start n ++ [(start + n) % mod] := by
  simp [snsFrom, range_succ]

def nackedSns (tx : Tx) (status : StatusPdu) : List Nat :=
  (snsFrom tx.vtA (tx.ackCount status)).filter (tx.requested status)

def nacksFit (tx : Tx) (status : StatusPdu) : Bool :=
  (tx.nackedSns status).length < windowSize &&
    (tx.nackedSns status).all fun sn =>
      (status.nacks.find? fun nack => nack.nackSn = sn).all fun nack => (tx.nBytesAt sn).all nack.fits

structure NackProgress (status : StatusPdu) (tx₀ : Tx) (k : Nat) (s : Tx × Bool × List TxCall) : Prop where
  acks : AckProgress status tx₀ k s
  found : ∀ sn pdu, s.1.txWindow.find sn = some pdu →
    ∃ old, tx₀.txWindow.find sn = some old ∧ pdu.header = old.header ∧ pdu.buf = old.buf
  queue : ∃ added, s.1.retxQueue = (tx₀.startAcks status).retxQueue ++ added ∧
    added.map Retx.sn = (snsFrom tx₀.vtA k).filter (tx₀.requested status) ∧
    ∀ retx ∈ added, ∀ pdu buf, tx₀.txWindow.find retx.sn = some pdu → pdu.buf = some buf →
      RetxInside retx buf.length

theorem startAcks_queue (nack : nacked status sn = true) : (tx.startAcks status).retxQueue = [] := by
  unfold nacked at nack
  unfold startAcks
  dsimp only
  rw [if_neg]
  intro empty
  rw [List.isEmpty_iff.mp empty] at nack
  contradiction

section
variable (h : NackProgress status tx₀ k s)
include h

theorem NackProgress.advance {s' : Tx × Bool × List TxCall} (acks : AckProgress status tx₀ (k + 1) s')
    (found : ∀ sn pdu, s'.1.txWindow.find sn = some pdu →
      ∃ old, s.1.txWindow.find sn = some old ∧ pdu.header = old.header ∧ pdu.buf = old.buf)
    (more : List Retx) (queue : s'.1.retxQueue = s.1.retxQueue ++ more)
    (sns : more.map Retx.sn = [(tx₀.vtA + k) % mod].filter (tx₀.requested status))
    (inside : ∀ retx ∈ more, ∀ pdu buf, tx₀.txWindow.find retx.sn = some pdu → pdu.buf = some buf →
      RetxInside retx buf.length) : NackProgress status tx₀ (k + 1) s' := by
  obtain ⟨added, before, addedSns, addedInside⟩ := h.queue
  refine ⟨acks, fun sn pdu now => ?_, added ++ more, ?_, ?_, fun retx mem => ?_⟩
  · obtain ⟨mid, was, header, buf⟩ := found sn pdu now
    obtain ⟨old, before, header', buf'⟩ := h.found sn mid was
    exact ⟨old, before, header.trans header', buf.trans buf'⟩
  · rw [queue, before, append_assoc]
  · rw [map_append, addedSns, sns, snsFrom_concat, filter_append]
  · rcases List.mem_append.mp mem with mem | mem
    · exact addedInside retx mem
    · exact inside retx mem

theorem NackProgress.unqueued (ha : tx₀.vtA < mod) (hk : k < mod) (nack : nacked status ((tx₀.vtA + k) % mod) = true) :
    s.1.retxQueue.any (fun retx => retx.sn = (tx₀.vtA + k) % mod) = false := by
  obtain ⟨added, queue, sns, _⟩ := h.queue
  rw [startAcks_queue nack] at queue
  rw [queue, any_eq_false]
  intro retx mem same
  have listed : retx.sn ∈ (snsFrom tx₀.vtA k).filter (tx₀.requested status) := by
    rw [← sns]
    exact mem_map_of_mem mem
  have early := ((mem_snsFrom ha hk.le).mp (mem_of_mem_filter listed)).2
  rw [of_decide_eq_true same, modOffset_add ha hk] at early
  exact Nat.lt_irrefl k early

theorem NackProgress.room (below : k < tx₀.ackCount status) (few : (tx₀.nackedSns status).length < windowSize)
    (wanted : tx₀.requested status ((tx₀.vtA + k) % mod) = true) :
    s.1.retxQueue.length < windowSize - 1 := by
  obtain ⟨added, queue, sns, _⟩ := h.queue
  have nack : nacked status ((tx₀.vtA + k) % mod) = true := by
    exact (and_eq_true _ _ ▸ wanted).1
  rw [startAcks_queue nack, nil_append] at queue
  have more : (snsFrom tx₀.vtA (k + 1)).Sublist (snsFrom tx₀.vtA (tx₀.ackCount status)) := by
    exact (List.range_sublist.mpr below).map _
  have counted := (more.filter (tx₀.requested status)).length_le
  rw [snsFrom_concat, filter_append, length_append, ← sns, length_map, filter_singleton,
    wanted, cond_true, length_singleton] at counted
  unfold nackedSns at few
  rw [queue]
  omega

end

theorem NackProgress.next (h₀ : tx₀.RetxInv)
    (fits : tx₀.nacksFit status = true) (below : k < tx₀.ackCount status) (h : NackProgress status tx₀ k s) :
    ∃ s', ackOne status s ((tx₀.vtA + k) % mod) = .ok s' ∧ NackProgress status tx₀ (k + 1) s' := by
  have inside : k + 1 < mod := by
    have order := h₀.window.order
    unfold ackCount at below
    unfold windowSize mod at *
    omega
  simp only [nacksFit, and_eq_true, decide_eq_true_eq, all_eq_true] at fits
  obtain ⟨few, fits⟩ := fits
  have offset : tx₀.offset ((tx₀.vtA + k) % mod) = k := modOffset_add h₀.window.vtA (by omega)
  cases nack : nacked status ((tx₀.vtA + k) % mod) with
  | false =>
    obtain ⟨pool, undelivered, vec, eq⟩ := handleAck_eq s.1 ((tx₀.vtA + k) % mod) s.2.1
    have one : ackOne status s ((tx₀.vtA + k) % mod) =
        .ok (s.1.handleAck ((tx₀.vtA + k) % mod) s.2.1, s.2.1, s.2.2) := by
      unfold ackOne
      rw [nack]
      exact if_neg Bool.false_ne_true
    refine ⟨_, one, h.advance (h.acks.next h₀.window inside one) (fun sn pdu now => ?_) [] ?_ ?_ (by simp)⟩
    · rw [eq] at now
      rw [CircularMap.find_erase] at now
      split at now
      · contradiction
      · exact ⟨pdu, now, rfl, rfl⟩
    · rw [eq, append_nil]
    · simp [requested, nack]
  | true =>
    have window : s.1.txWindow.contains ((tx₀.vtA + k) % mod) = tx₀.txWindow.contains ((tx₀.vtA + k) % mod) := by
      rw [h.acks.window, offset]
      simp
    cases found : s.1.txWindow.find ((tx₀.vtA + k) % mod) with
    | none =>
      have one : ackOne status s ((tx₀.vtA + k) % mod) = .ok (s.1, false, s.2.2) := by
        unfold ackOne
        simp only [nack, if_true, handleNacks_absent found, bind, Except.bind]
      have absent : tx₀.txWindow.contains ((tx₀.vtA + k) % mod) = false := by
        rw [← window]
        exact CircularMap.contains_eq_false.mpr found
      exact ⟨_, one, h.advance (h.acks.next h₀.window inside one) (fun sn pdu now => ⟨pdu, now, rfl, rfl⟩) []
        (append_nil _).symm (by simp [requested, absent]) (by simp)⟩
    | some pdu =>
      have present : tx₀.txWindow.contains ((tx₀.vtA + k) % mod) = true := by
        rw [← window]
        exact CircularMap.contains_eq_true.mpr ⟨pdu, found⟩
      have wanted : tx₀.requested status ((tx₀.vtA + k) % mod) = true := by simp [requested, nack, present]
      obtain ⟨old, was, _, same⟩ := h.found _ pdu found
      obtain ⟨buf, stored, _, _⟩ := h₀.stored _ old was
      obtain ⟨first, isFirst⟩ := Option.isSome_iff_exists.mp (List.find?_isSome.mpr (List.any_eq_true.mp nack))
      have listed : (tx₀.vtA + k) % mod ∈ tx₀.nackedSns status :=
        List.mem_filter.mpr ⟨mem_map_of_mem (List.mem_range.mpr below), wanted⟩
      have asked := fits _ listed
      rw [isFirst, nBytesAt_eq was stored] at asked
      obtain ⟨tx₁, calls, handled, queue⟩ := handleNacks_first found (same.trans stored)
        (h.unqueued h₀.window.vtA (by omega) nack) (h.room below few wanted) s.2.2 isFirst
      have one : ackOne status s ((tx₀.vtA + k) % mod) = .ok (tx₁, false, calls) := by
        unfold ackOne
        simp only [nack, if_true, handled, bind, Except.bind]
      refine ⟨_, one, h.advance (h.acks.next h₀.window inside one) (fun sn pdu now => ?_) _ queue ?_
        fun retx mem pdu' buf' found' stored' => ?_⟩
      · obtain ⟨old, was, _, header, buf⟩ := (keeps_handleNacks handled).found now
        exact ⟨old, was, header, buf⟩
      · rw [filter_singleton, wanted, cond_true, map_singleton, retxOf_sn]
      · have own : retx = retxOf first ((tx₀.vtA + k) % mod) buf.length := List.mem_singleton.mp mem
        rw [own, retxOf_sn] at found'
        obtain rfl := Option.some.inj (was.symm.trans found')
        obtain rfl := Option.some.inj (stored.symm.trans stored')
        rw [own]
        exact retxOf_inside asked

theorem RetxInv.handleStatus (h : tx.RetxInv)
    (safe : tx.validAckSn status.ackSn = true → tx.nacksFit status = true) :
    ∃ tx' calls, tx.handleStatus status = .ok (tx', calls) ∧ tx'.RetxInv := by
  cases valid : tx.validAckSn status.ackSn with
  | false =>
    refine ⟨tx, [], ?_, h⟩
    unfold Tx.handleStatus
    rw [valid]
    rfl
  | true =>
    have start : NackProgress status tx 0 (tx.startAcks status, true, []) :=
      ⟨h.window.startProgress status, fun sn pdu now => ⟨pdu, now, rfl, rfl⟩, [], (append_nil _).symm, rfl,
        by simp⟩
    obtain ⟨s, folded, progress⟩ := foldlM_range_ok
      (fun k s below (progress : NackProgress status tx k s) => progress.next h (safe valid) below) start
    have window := progress.acks.windowInv h.window (Nat.min_le_right _ _)
    rw [handleStatus_foldlM h.window.vtA valid]
    change ∃ tx' calls, Except.map _ (((range (tx.ackCount status)).map _).foldlM _ _) = _ ∧ _
    rw [folded]
    refine ⟨_, _, rfl, h.of_found (window.same rfl rfl rfl rfl) progress.acks.vtS progress.found ?_⟩
    obtain ⟨added, queue, sns, inside⟩ := progress.queue
    rw [queue]
    cases quiet : status.nacks.isEmpty with
    | true =>
      have none (sn : Nat) : tx.requested status sn = false := by
        unfold requested nacked
        rw [List.isEmpty_iff.mp quiet]
        rfl
      have nothing : added = [] := by
        rw [funext none] at sns
        simpa using sns
      have same : (tx.startAcks status).retxQueue = tx.retxQueue := if_pos quiet
      rw [nothing, append_nil, same]
      exact h.queue
    | false =>
      have empty : (tx.startAcks status).retxQueue = [] := if_neg (by simp [quiet])
      rw [empty]
      refine .of_window h.window (fun retx mem => ?_) inside
      have listed : retx.sn ∈ (snsFrom tx.vtA (tx.ackCount status)).filter (tx.requested status) := by
        rw [← sns]
        exact mem_map_of_mem mem
      have wanted := (List.mem_filter.mp listed).2
      exact (and_eq_true _ _ ▸ wanted).2

theorem readNacks_noAssert (bits : Nat → Nat) (fuel ptr : Nat) (ext : Bool) (nacks : List Nack) :
    NoAssert (fun _ => True) (readNacks bits fuel ptr ext nacks) := by
  induction fuel generalizing ptr ext nacks with
  | zero => cases ext <;> trivial
  | succ fuel ih =>
    cases ext with
    | false => trivial
    | true =>
      unfold readNacks
      dsimp only
      split
      · exact ih _ _ _
      · exact ih _ _ _

theorem readStatusPdu_noAssert (payload : Memory) (nofBytes : Nat) (stale : Memory) :
    NoAssert (fun status => readStatusPdu payload nofBytes stale = .ok status)
      (readStatusPdu payload nofBytes stale) := by
  have total : NoAssert (fun _ => True) (readStatusPdu payload nofBytes stale) := by
    unfold readStatusPdu
    split
    · rfl
    · dsimp only
      split
      · exact (readNacks_noAssert _ _ _ _ _).bind fun _ _ => trivial
      · trivial
  exact total.and fun _ read => read

/-- The entries that an event puts into the queue are within their PDUs and have room: the PDU at `VT(A)` has bytes
when it is sent again unasked, and the NACKs of a report are fewer than 512 and name bytes of their PDUs. -/
def retxSafe (tx : Tx) : TxEvent → Bool
  | .readPdu rx _ _ => rx.doStatus && tx.statusProhibitTimer.isNone || !tx.resendsEdge || !tx.edgeEmpty
  | .pollRetxTimerExpired =>
    !(tx.retxQueue.isEmpty && tx.txSduQueue.isEmpty || tx.windowFull) || !tx.txWindow.contains tx.vtA ||
      !tx.edgeEmpty && tx.retxQueue.length < windowSize - 1
  | .handleControlPdu payload nofBytes stale =>
    match readStatusPdu payload nofBytes stale with
    | .ok status => !tx.validAckSn status.ackSn || tx.nacksFit status
    | .error _ => true
  | _ => true

section
variable (h : tx.RetxInv)
include h

theorem RetxInv.readPdu {rx : Rx} {ownsLock : Bool} {nofBytes : UInt32}
    (safe : tx.retxSafe (.readPdu rx ownsLock nofBytes) = true) :
    NoAssert (fun read => read.tx.RetxInv) (tx.readPdu rx ownsLock nofBytes.toNat) := by
  unfold Tx.readPdu
  split
  · exact h
  · split
    · exact h.same rfl rfl rfl rfl rfl
    · rename_i noStatus
      have edge : tx.resendsEdge = true → tx.edgeEmpty = false := by
        intro resends
        simp only [retxSafe, resends, Bool.not_true, Bool.or_false, or_eq_true] at safe
        simpa using safe.resolve_left noStatus
      obtain ⟨tx₁, calls₁, tx₂, out, calls₂, filled, read, done⟩ := h.resend edge nofBytes.toNat_lt
      simp only [filled, read, bind, Except.bind]
      cases sent : out.isEmpty with
      | false => exact done.inv
      | true =>
        refine (buildDataPdu_noAssert tx₂ _).bind fun built done' => ?_
        exact done.inv.built (done.fresh (List.isEmpty_iff.mp sent)) done'

theorem RetxInv.pollRetxTimerExpired (safe : tx.retxSafe .pollRetxTimerExpired = true) :
    ∃ tx' calls, tx.pollRetxTimerExpired = .ok (tx', calls) ∧ tx'.RetxInv := by
  have expired : ({ tx with pollRetxTimer := .expired } : Tx).RetxInv := h.same rfl rfl rfl rfl rfl
  unfold Tx.pollRetxTimerExpired
  dsimp only
  split
  · rename_i resend
    have resend : (tx.retxQueue.isEmpty && tx.txSduQueue.isEmpty || tx.windowFull) = true := resend
    simp only [retxSafe, resend, Bool.not_true, Bool.false_or, or_eq_true, and_eq_true,
      not_eq_true', decide_eq_true_eq] at safe
    have filled : tx.nBytesAt tx.vtA ≠ some 0 := by
      rcases safe with absent | ⟨filled, _⟩
      · simp [nBytesAt, CircularMap.contains_eq_false.mp absent]
      · simpa [edgeEmpty] using filled
    obtain ⟨tx', calls, sent, inv, _⟩ := expired.retransmitPdu filled fun present => by
      rcases safe with absent | ⟨_, room⟩
      · rw [present] at absent
        contradiction
      · exact room
    exact ⟨tx', calls, sent, inv⟩
  · exact ⟨_, _, rfl, expired⟩

theorem RetxInv.getBufferState : tx.getBufferState = .ok tx := by
  unfold Tx.getBufferState
  split
  · rename_i retx rest queue
    split
    · rename_i here
      obtain ⟨pdu, found⟩ := CircularMap.contains_eq_true.mp (and_eq_true _ _ ▸ here).2
      obtain ⟨buf, stored, small, few⟩ := h.stored retx.sn pdu found
      have inside := h.queue.inside retx (queue ▸ mem_cons_self) pdu buf found stored
      obtain ⟨n, required⟩ := requiredBufferSize_ok found stored small few inside
      simp only [required, bind, Except.bind, show ¬ (n : Int) < 0 by omega, if_false]
    · rfl
  · rfl

theorem RetxInv.step {e : TxEvent} (safe : tx.retxSafe e = true)
    {result : Except Fault Outcome} (stepped : tx.step e = some result) :
    NoAssert (fun out => out.tx.RetxInv) result := by
  cases e with
  | writeSdu sdu =>
    cases stepped
    unfold writeSdu
    split
    · exact h.same rfl rfl rfl rfl rfl
    · exact h
  | discardSdu pdcpSn =>
    cases stepped
    unfold discardSdu
    split
    · exact h.same rfl rfl rfl rfl rfl
    · exact h
  | readPdu rx ownsLock nofBytes =>
    cases stepped
    exact (h.readPdu safe).map fun _ inv => inv
  | pollRetxTimerExpired =>
    dsimp only [Tx.step] at stepped
    split at stepped
    · cases stepped
      obtain ⟨tx', calls, expired, inv⟩ := h.pollRetxTimerExpired safe
      rw [expired]
      exact inv
    · contradiction
  | statusProhibitTimerExpired =>
    dsimp only [Tx.step] at stepped
    split at stepped
    · cases stepped
      exact h.same rfl rfl rfl rfl rfl
    · contradiction
  | handleControlPdu payload nofBytes stale =>
    cases stepped
    refine NoAssert.map (P := fun out => out.1.RetxInv) ?_ fun _ inv => inv
    unfold handleControlPdu
    split
    · exact h
    · refine (readStatusPdu_noAssert _ _ _).bind fun status read => ?_
      have fits : tx.validAckSn status.ackSn = true → tx.nacksFit status = true := by
        intro valid
        simpa [retxSafe, read, valid] using safe
      obtain ⟨tx', calls, handled, inv⟩ := h.handleStatus fits
      rw [handled]
      exact inv
  | getBufferState =>
    cases stepped
    rw [h.getBufferState]
    exact h
  | emptyQueue =>
    cases stepped
    obtain ⟨pool, undelivered, eq⟩ := emptyQueue_eq tx
    rw [eq]
    exact h.same rfl rfl rfl rfl rfl
  | reestablish =>
    cases stepped
    exact (init tx.cfg).same rfl rfl rfl rfl rfl
  | stop =>
    cases stepped
    exact (init tx.cfg).same rfl rfl rfl rfl rfl

end

theorem retxInv_of_reaches {cfg : TxConfig} (run : Reaches next (fun tx e => tx.retxSafe e = true) { cfg } tx) :
    tx.RetxInv := by
  refine run.invariant (.init cfg) fun tx e tx' h safe eq => ?_
  obtain ⟨out, stepped, rfl⟩ := next_eq_some eq
  exact h.step safe stepped

def checked (tx : Tx) : Tx := { tx with cfg := { tx.cfg with asserts := true } }

theorem RetxInv.checked (h : tx.RetxInv) : tx.checked.RetxInv := h.same rfl rfl rfl rfl rfl

theorem checked_retxSafe (tx : Tx) (e : TxEvent) : tx.checked.retxSafe e = tx.retxSafe e := by
  cases e <;> rfl

/-- The entries of the queue are within their PDUs, a retransmission copies bytes of a stored PDU, and no
`assert` fails, among them that the ring is not full when an entry is pushed. -/
structure RetxInBounds (allowed : Tx → TxEvent → Bool) (tx : Tx) : Prop where
  entries : ∀ retx ∈ tx.retxQueue, ∀ pdu, tx.txWindow.find retx.sn = some pdu →
    ∃ buf, pdu.buf = some buf ∧ retx.soStart < retx.soEnd ∧ retx.soEnd ≤ buf.length
  copies : ∀ rx ownsLock (nofBytes : UInt32), allowed tx (.readPdu rx ownsLock nofBytes) = true →
    (rx.doStatus && tx.statusProhibitTimer.isNone) = false →
    ∃ tx₁ calls₁ tx₂ out calls₂, tx.fillRetxQueue = .ok (tx₁, calls₁) ∧
      tx₁.readRetx nofBytes.toNat = .ok (tx₂, out, calls₂) ∧ tx.Copied out
  room : ∀ e, allowed tx e = true → tx.checked.step e ≠ some (.error .assertionFailed)

theorem retxQueue_inBounds {cfg : TxConfig}
    (run : Reaches next (fun tx e => tx.retxSafe e = true) { cfg } tx) : tx.RetxInBounds retxSafe := by
  have inv := retxInv_of_reaches run
  refine ⟨fun retx mem pdu found => ?_, fun rx ownsLock nofBytes safe noStatus => ?_, fun e safe failed => ?_⟩
  · obtain ⟨buf, stored, _, _⟩ := inv.stored retx.sn pdu found
    have inside := inv.queue.inside retx mem pdu buf found stored
    exact ⟨buf, stored, inside.start, inside.fits⟩
  · have edge : tx.resendsEdge = true → tx.edgeEmpty = false := by
      intro resends
      simpa [retxSafe, resends, noStatus] using safe
    obtain ⟨tx₁, calls₁, tx₂, out, calls₂, filled, read, done⟩ := inv.resend edge nofBytes.toNat_lt
    exact ⟨tx₁, calls₁, tx₂, out, calls₂, filled, read, done.copied⟩
  · have fault : Fault.assertionFailed = .undefinedBehaviour :=
      inv.checked.step ((checked_retxSafe tx e).trans safe) failed
    contradiction

def segmentNackedRun : List TxEvent :=
  [.writeSdu ⟨0, [1, 2, 3]⟩, .readPdu {} true 5,
    .handleControlPdu (.ofList [0, 6, 0, 32, 0, 64, 1, 0]) 8 (.ofList [])]

theorem retxQueue_inBounds_segmentNackedRun :
    ∃ tx : Tx, runAllowed next retxSafe {} segmentNackedRun = some tx ∧
      tx.retxQueue = [{ sn := 0, isSegment := true, soStart := 1, soEnd := 3 }] ∧ tx.RetxInBounds retxSafe := by
  have run : ∃ tx : Tx, runAllowed next retxSafe {} segmentNackedRun = some tx ∧
      tx.retxQueue = [{ sn := 0, isSegment := true, soStart := 1, soEnd := 3 }] := ⟨_, rfl, rfl⟩
  obtain ⟨tx, run, queue⟩ := run
  exact ⟨tx, run, queue, retxQueue_inBounds (reaches_of_runAllowed segmentNackedRun run)⟩

def overlongNackRun : List TxEvent :=
  [.writeSdu ⟨0, [1]⟩, .readPdu {} true 3,
    .handleControlPdu (.ofList [0, 6, 0, 32, 0, 0, 0, 128]) 8 (.ofList [])]

theorem overlongNackRun_leaves_bounds :
    ¬ ∀ (cfg : TxConfig) (tx : Tx), Reaches next (fun _ _ => True) { cfg } tx →
      tx.RetxInBounds fun _ _ => true := by
  intro bounds
  have run : ∃ (tx : Tx) (pdu : TxPdu), runAllowed next (fun _ _ => true) {} overlongNackRun = some tx ∧
      tx.retxQueue = [{ sn := 0, isSegment := true, soStart := 0, soEnd := 2 }] ∧
      tx.txWindow.find 0 = some pdu ∧ pdu.buf = some [1] := ⟨_, _, rfl, rfl, rfl, rfl⟩
  obtain ⟨tx, pdu, run, queue, found, stored⟩ := run
  have reached : Reaches next (fun _ _ => True) {} tx :=
    (reaches_of_runAllowed overlongNackRun run).mono fun _ _ _ => trivial
  obtain ⟨buf, same, _, fits⟩ := (bounds {} tx reached).entries _ (by rw [queue]; exact mem_cons_self) pdu found
  obtain rfl := Option.some.inj (stored.symm.trans same)
  exact absurd fits (by decide)

end Tx

end IsrRan.Rlc.AmLte
