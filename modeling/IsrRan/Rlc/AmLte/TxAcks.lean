import IsrRan.Rlc.AmLte.Tx

namespace IsrRan.Rlc.AmLte.Tx
open Lib Adt Bool List Nat

section

variable {tx tx' tx'' : Tx}

theorem next_eq_some {e : TxEvent} (eq : tx.next e = some tx') :
    ∃ out, tx.step e = some (.ok out) ∧ out.tx = tx' := by
  obtain ⟨result, stepped, rest⟩ := Option.bind_eq_some_iff.mp eq
  cases result with
  | error fault => simp [Except.toOption] at rest
  | ok out => exact ⟨out, stepped, by simpa [Except.toOption] using rest⟩

def forgetRetx (pdu : TxPdu) : TxPdu := { pdu with retxCount := 0 }

structure Keeps (tx tx' : Tx) : Prop where
  cfg : tx'.cfg = tx.cfg
  txEnabled : tx'.txEnabled = tx.txEnabled
  vtA : tx'.vtA = tx.vtA
  vtMs : tx'.vtMs = tx.vtMs
  vtS : tx'.vtS = tx.vtS
  txSdu : tx'.txSdu = tx.txSdu
  txSduQueue : tx'.txSduQueue = tx.txSduQueue
  segmentPool : tx'.segmentPool = tx.segmentPool
  undeliveredSdus : tx'.undeliveredSdus = tx.undeliveredSdus
  notifyInfoVec : tx'.notifyInfoVec = tx.notifyInfoVec
  wellFormed : tx.txWindow.WellFormed → tx'.txWindow.WellFormed
  window : ∀ sn, (tx'.txWindow.find sn).map forgetRetx = (tx.txWindow.find sn).map forgetRetx

namespace Keeps

theorem refl (tx : Tx) : Keeps tx tx :=
  ⟨rfl, rfl, rfl, rfl, rfl, rfl, rfl, rfl, rfl, rfl, id, fun _ => rfl⟩

theorem trans (first : Keeps tx tx') (second : Keeps tx' tx'') : Keeps tx tx'' where
  cfg := second.cfg.trans first.cfg
  txEnabled := second.txEnabled.trans first.txEnabled
  vtA := second.vtA.trans first.vtA
  vtMs := second.vtMs.trans first.vtMs
  vtS := second.vtS.trans first.vtS
  txSdu := second.txSdu.trans first.txSdu
  txSduQueue := second.txSduQueue.trans first.txSduQueue
  segmentPool := second.segmentPool.trans first.segmentPool
  undeliveredSdus := second.undeliveredSdus.trans first.undeliveredSdus
  notifyInfoVec := second.notifyInfoVec.trans first.notifyInfoVec
  wellFormed := second.wellFormed ∘ first.wellFormed
  window := fun sn => (second.window sn).trans (first.window sn)

theorem contains (h : Keeps tx tx') (sn : Nat) : tx'.txWindow.contains sn = tx.txWindow.contains sn := by
  have same := congrArg Option.isSome (h.window sn)
  simpa [CircularMap.contains] using same

theorem found (h : Keeps tx tx') {sn : Nat} {pdu : TxPdu} (now : tx'.txWindow.find sn = some pdu) :
    ∃ old, tx.txWindow.find sn = some old ∧ pdu.segments = old.segments ∧ pdu.header = old.header ∧
      pdu.buf = old.buf := by
  have same := h.window sn
  rw [now] at same
  obtain ⟨old, was, eq⟩ := Option.map_eq_some_iff.mp same.symm
  have parts := eq.symm
  simp only [forgetRetx, AmdTxPdu.mk.injEq] at parts
  exact ⟨old, was, parts.1, parts.2.2.1, parts.2.2.2⟩

end Keeps

variable {retx : Retx} {calls : List TxCall} {nofBytes : Nat} {pdu : List Byte}

theorem keeps_with (tx : Tx) (retxQueue : List Retx) (pduWithoutPoll byteWithoutPoll : Nat)
    (pollRetxTimer : TimerState) (statusProhibitTimer : Option Nat) :
    Keeps tx { tx with retxQueue, pduWithoutPoll, byteWithoutPoll, pollRetxTimer, statusProhibitTimer } :=
  ⟨rfl, rfl, rfl, rfl, rfl, rfl, rfl, rfl, rfl, rfl, id, fun _ => rfl⟩

theorem keeps_countRetx {sn : Nat} {pdu : TxPdu} (found : tx.txWindow.find sn = some pdu) :
    Keeps tx (tx.countRetx sn pdu).1 := by
  have present : tx.txWindow.contains sn = true := CircularMap.contains_eq_true.mpr ⟨pdu, found⟩
  refine ⟨rfl, rfl, rfl, rfl, rfl, rfl, rfl, rfl, rfl, rfl, fun h => h.assign (by decide) sn _, fun sn' => ?_⟩
  change ((tx.txWindow.assign sn { pdu with retxCount := pdu.retxCount + 1 }).find sn').map forgetRetx = _
  rw [CircularMap.find_assign present]
  split
  · rename_i same
    rw [same, found]
    rfl
  · rfl

theorem pushRetx_eq (pushed : tx.pushRetx retx = .ok tx') :
    ∃ retxQueue, tx' = { tx with retxQueue } ∧
      (retxQueue = tx.retxQueue ++ [retx] ∧ tx.retxQueue.length < windowSize - 1 ∨ retxQueue = []) := by
  unfold pushRetx at pushed
  split at pushed
  · rename_i room
    cases pushed
    exact ⟨_, rfl, .inl ⟨rfl, room⟩⟩
  · split at pushed
    · contradiction
    · cases pushed
      exact ⟨_, rfl, .inr rfl⟩

theorem keeps_pushRetx (pushed : tx.pushRetx retx = .ok tx') : Keeps tx tx' := by
  obtain ⟨retxQueue, rfl, _⟩ := pushRetx_eq pushed
  exact keeps_with tx retxQueue _ _ _ _

theorem keeps_retransmitPdu {sn : Nat}
    (sent : tx.retransmitPdu sn = .ok (tx', calls)) : Keeps tx tx' := by
  unfold retransmitPdu at sent
  split at sent
  · cases sent
    exact .refl tx
  · split at sent
    · cases sent
      exact .refl tx
    · rename_i pdu found
      have counted := keeps_countRetx found
      dsimp only at sent
      split at sent
      · contradiction
      · obtain ⟨tx₁, pushed, rest⟩ := bind_eq_ok.mp sent
        cases rest
        exact counted.trans (keeps_pushRetx pushed)

theorem keeps_resetPoll (tx : Tx) (p : Bool) : Keeps tx (if p then tx.resetPoll else tx) := by
  cases p with
  | false => exact .refl tx
  | true => exact keeps_with tx _ _ _ _ _

theorem keeps_buildSegment
    (built : tx.buildSegment nofBytes retx = .ok (tx', pdu)) : Keeps tx tx' := by
  unfold buildSegment at built
  split at built
  · contradiction
  · split at built
    · cases built
      exact .refl tx
    · dsimp only at built
      split at built
      · cases built
        exact keeps_with tx _ _ _ _ _
      · obtain ⟨data, _, rest⟩ := bind_eq_ok.mp built
        cases rest
        exact (keeps_with tx _ _ _ _ _).trans (keeps_resetPoll _ _)

theorem keeps_buildRetxPduFor
    (built : tx.buildRetxPduFor nofBytes retx = .ok (tx', pdu)) : Keeps tx tx' := by
  obtain ⟨reqSize, _, built⟩ := bind_eq_ok.mp built
  split at built
  · cases built
    exact keeps_with tx _ _ _ _ _
  · split at built
    · exact keeps_buildSegment built
    · split at built
      · contradiction
      · cases built
        refine Keeps.trans ?_ (keeps_with _ _ _ _ _ _)
        exact (keeps_with tx _ _ _ _ _).trans (keeps_resetPoll _ _)

theorem keeps_buildRetxPdu
    (built : tx.buildRetxPdu nofBytes = .ok (tx', pdu, calls)) : Keeps tx tx' := by
  unfold buildRetxPdu at built
  have dropped : Keeps tx
      { tx with retxQueue := tx.retxQueue.dropWhile fun retx => !tx.txWindow.contains retx.sn } :=
    keeps_with tx _ _ _ _ _
  dsimp only at built
  split at built
  · obtain ⟨⟨tx₁, pdu₁⟩, done, rest⟩ := bind_eq_ok.mp built
    cases rest
    exact dropped.trans (keeps_buildRetxPduFor done)
  · split at built
    · obtain ⟨⟨tx₁, calls₁⟩, sent, built⟩ := bind_eq_ok.mp built
      split at built
      · contradiction
      · obtain ⟨⟨tx₂, pdu₂⟩, done, rest⟩ := bind_eq_ok.mp built
        cases rest
        exact (dropped.trans (keeps_retransmitPdu sent)).trans (keeps_buildRetxPduFor done)
    · cases built
      exact dropped

theorem keeps_pollRetxTimerExpired
    (expired : tx.pollRetxTimerExpired = .ok (tx', calls)) : Keeps tx tx' := by
  unfold pollRetxTimerExpired at expired
  dsimp only at expired
  split at expired
  · exact (keeps_with tx _ _ _ _ _).trans (keeps_retransmitPdu expired)
  · cases expired
    exact keeps_with tx _ _ _ _ _

theorem keeps_getBufferState (got : tx.getBufferState = .ok tx') : Keeps tx tx' := by
  unfold getBufferState at got
  split at got
  · split at got
    · obtain ⟨reqBytes, _, rest⟩ := bind_eq_ok.mp got
      cases rest
      split
      · exact keeps_with tx _ _ _ _ _
      · exact .refl tx
    · cases got
      exact .refl tx
  · cases got
    exact .refl tx

theorem keeps_fillRetxQueue (filled : tx.fillRetxQueue = .ok (tx', calls)) :
    Keeps tx tx' := by
  unfold fillRetxQueue at filled
  split at filled
  · exact keeps_retransmitPdu filled
  · cases filled
    exact .refl tx

theorem keeps_readRetx
    (read : tx.readRetx nofBytes = .ok (tx', pdu, calls)) : Keeps tx tx' := by
  unfold readRetx at read
  split at read
  · cases read
    exact .refl tx
  · exact keeps_buildRetxPdu read

theorem readPdu_cases {rx : Rx} {ownsLock : Bool} {read : Read}
    (done : tx.readPdu rx ownsLock nofBytes = .ok read) :
    Keeps tx read.tx ∨
      ∃ tx', Keeps tx tx' ∧ tx'.buildDataPdu nofBytes = .ok (read.tx, read.pdu) := by
  unfold readPdu at done
  split at done
  · cases done
    exact .inl (.refl tx)
  · split at done
    · cases done
      exact .inl (keeps_with tx _ _ _ _ _)
    · obtain ⟨⟨tx₁, calls₁⟩, sent, done⟩ := bind_eq_ok.mp done
      obtain ⟨⟨tx₂, pdu₂, calls₂⟩, built, done⟩ := bind_eq_ok.mp done
      have keeps := (keeps_fillRetxQueue sent).trans (keeps_readRetx built)
      dsimp only at done
      split at done
      · cases done
        exact .inl keeps
      · obtain ⟨⟨tx₃, pdu₃⟩, data, rest⟩ := bind_eq_ok.mp done
        cases rest
        exact .inr ⟨tx₂, keeps, data⟩

end

variable {tx tx' : Tx}

def offset (tx : Tx) (sn : Nat) : Nat := modOffset mod tx.vtA sn

theorem offset_lt (tx : Tx) (sn : Nat) : tx.offset sn < mod := modOffset_lt (by decide)

theorem txModBase_eq (ha : tx.vtA < mod) (sn : Nat) : tx.txModBase sn = tx.offset sn := by
  unfold txModBase offset modOffset u32Sub mod at *
  omega

def snsFrom (start n : Nat) : List Nat := (range n).map fun k => (start + k) % mod

theorem snsFrom_succ (start n : Nat) (hs : start < mod) :
    snsFrom start (n + 1) = start :: snsFrom ((start + 1) % mod) n := by
  unfold snsFrom
  rw [range_succ_eq_map, map_cons, map_map]
  have low : (start + 0) % mod = start := mod_eq_of_lt hs
  congr 1
  refine map_congr_left fun k _ => ?_
  dsimp only [Function.comp]
  unfold mod
  omega

theorem mem_snsFrom {start n sn : Nat} (hs : start < mod) (few : n ≤ mod) :
    sn ∈ snsFrom start n ↔ sn < mod ∧ modOffset mod start sn < n := by
  constructor
  · intro mem
    obtain ⟨k, hk, rfl⟩ := List.mem_map.mp mem
    have bound := List.mem_range.mp hk
    refine ⟨mod_lt _ (by decide), ?_⟩
    rw [modOffset_add hs (by omega)]
    exact bound
  · rintro ⟨hsn, below⟩
    exact List.mem_map.mpr ⟨_, List.mem_range.mpr below, add_modOffset hs hsn⟩

def nacked (status : StatusPdu) (sn : Nat) : Bool := status.nacks.any fun nack => nack.nackSn = sn

def ackOne (status : StatusPdu) (s : Tx × Bool × List TxCall) (sn : Nat) :
    Except Fault (Tx × Bool × List TxCall) :=
  if nacked status sn then do
    let (tx, calls) ← s.1.handleNacks sn s.2.2 status.nacks
    .ok (tx, false, calls)
  else .ok (s.1.handleAck sn s.2.1, s.2.1, s.2.2)

theorem keeps_handleNack {sn : Nat} {nack : Nack} {calls : List TxCall}
    (handled : tx.handleNack sn nack = .ok (tx', calls)) : Keeps tx tx' := by
  unfold handleNack at handled
  split at handled
  · cases handled
    exact .refl tx
  · rename_i pdu found
    split at handled
    · cases handled
      exact .refl tx
    · dsimp only at handled
      split at handled
      · contradiction
      · obtain ⟨tx₁, pushed, rest⟩ := bind_eq_ok.mp handled
        cases rest
        exact (keeps_countRetx found).trans (keeps_pushRetx pushed)

theorem keeps_handleNacks {sn : Nat} {nacks : List Nack} {calls calls' : List TxCall}
    (handled : tx.handleNacks sn calls nacks = .ok (tx', calls')) : Keeps tx tx' := by
  induction nacks generalizing tx calls with
  | nil =>
    cases handled
    exact .refl _
  | cons nack nacks ih =>
    unfold handleNacks at handled
    split at handled
    · obtain ⟨⟨tx₁, more⟩, one, handled⟩ := bind_eq_ok.mp handled
      exact (keeps_handleNack one).trans (ih handled)
    · exact ih handled

theorem ackSegment_eq (tx : Tx) (id : Nat) : ∃ segmentPool undeliveredSdus notifyInfoVec,
    tx.ackSegment id = { tx with segmentPool, undeliveredSdus, notifyInfoVec } := by
  unfold ackSegment
  split
  · exact ⟨_, _, _, rfl⟩
  · dsimp only
    split
    · exact ⟨_, _, _, rfl⟩
    · exact ⟨_, _, _, rfl⟩

theorem updateNotificationAckInfo_eq (tx : Tx) (pdu : TxPdu) : ∃ segmentPool undeliveredSdus notifyInfoVec,
    tx.updateNotificationAckInfo pdu = { tx with segmentPool, undeliveredSdus, notifyInfoVec } := by
  unfold updateNotificationAckInfo
  induction pdu.segments generalizing tx with
  | nil => exact ⟨_, _, _, rfl⟩
  | cons id segments ih =>
    obtain ⟨pool, undelivered, vec, first⟩ := ackSegment_eq tx id
    obtain ⟨pool', undelivered', vec', rest⟩ := ih (tx.ackSegment id)
    rw [foldl_cons, rest, first]
    exact ⟨_, _, _, rfl⟩

theorem handleAck_eq (tx : Tx) (sn : Nat) (updateVtA : Bool) :
    ∃ segmentPool undeliveredSdus notifyInfoVec, tx.handleAck sn updateVtA =
      { tx with
        segmentPool, undeliveredSdus, notifyInfoVec
        txWindow := tx.txWindow.erase sn
        vtA := if updateVtA then (tx.vtA + 1) % mod else tx.vtA
        vtMs := if updateVtA then (tx.vtMs + 1) % mod else tx.vtMs } := by
  unfold handleAck
  cases found : tx.txWindow.find sn with
  | none =>
    have absent : tx.txWindow.erase sn = tx.txWindow := by
      rw [CircularMap.erase, if_neg (by simp [CircularMap.contains, found])]
    rw [absent]
    cases updateVtA <;> exact ⟨_, _, _, rfl⟩
  | some pdu =>
    obtain ⟨pool, undelivered, vec, eq⟩ := updateNotificationAckInfo_eq tx pdu
    dsimp only
    rw [eq]
    unfold removePdu
    rw [found]
    cases updateVtA <;> exact ⟨_, _, _, rfl⟩

theorem offset_pass (tx : Tx) (sn : Nat) :
    modOffset mod ((tx.vtA + 1) % mod) sn = if 0 < tx.offset sn then tx.offset sn - 1 else mod - 1 := by
  unfold offset modOffset mod at *
  split <;> omega

theorem ackLoop_eq (status : StatusPdu) (vtSLocal : Nat) {fuel n i : Nat} {updateVtA : Bool}
    {calls : List TxCall} (ha : tx.vtA < mod) (hi : i < mod) (low : updateVtA = true → i = tx.vtA)
    (position : tx.offset i + n = min (tx.offset status.ackSn) (tx.offset vtSLocal)) (enough : n < fuel) :
    ackLoop status vtSLocal fuel i updateVtA tx calls =
      ((snsFrom i n).foldlM (ackOne status) (tx, updateVtA, calls)).map fun s => (s.1, s.2.2) := by
  induction fuel generalizing n i updateVtA tx calls with
  | zero => omega
  | succ fuel ih =>
    have bound := tx.offset_lt vtSLocal
    unfold ackLoop
    rw [txModBase_eq ha, txModBase_eq ha, txModBase_eq ha]
    cases n with
    | zero =>
      rw [if_neg (by simp only [and_eq_true, decide_eq_true_eq]; omega)]
      rfl
    | succ n =>
      have next : tx.offset ((i + 1) % mod) = tx.offset i + 1 := modOffset_succ ha hi (by
        change tx.offset i + 1 < mod
        omega)
      rw [if_pos (by simp only [and_eq_true, decide_eq_true_eq]; omega), snsFrom_succ _ _ hi,
        foldlM_cons]
      change (if nacked status i = true then _ else _) = _
      unfold ackOne
      split
      · dsimp only
        cases handled : tx.handleNacks i calls status.nacks with
        | error fault => rfl
        | ok out =>
          obtain ⟨tx₁, calls₁⟩ := out
          have vtA := (keeps_handleNacks handled).vtA
          have same (sn : Nat) : tx₁.offset sn = tx.offset sn := by
            unfold offset
            rw [vtA]
          exact ih (by rw [vtA]; exact ha) (mod_lt _ (by decide)) (by simp)
            (by rw [same, same, same]; omega) (by omega)
      · change ackLoop status vtSLocal fuel ((i + 1) % mod) updateVtA (tx.handleAck i updateVtA) calls =
          ((snsFrom ((i + 1) % mod) n).foldlM (ackOne status)
            (tx.handleAck i updateVtA, updateVtA, calls)).map _
        obtain ⟨pool, undelivered, vec, eq⟩ := handleAck_eq tx i updateVtA
        have vtA : (tx.handleAck i updateVtA).vtA = if updateVtA then (tx.vtA + 1) % mod else tx.vtA := by
          rw [eq]
        refine ih ?_ (mod_lt _ (by decide)) (fun update => ?_) ?_ (by omega)
        · rw [vtA]
          split
          · exact mod_lt _ (by decide)
          · exact ha
        · rw [vtA, if_pos update, low update]
        · unfold offset
          rw [vtA]
          split
          · rename_i update
            rw [offset_pass, offset_pass, offset_pass]
            split <;> split <;> split <;> omega
          · change tx.offset _ + n = min (tx.offset _) (tx.offset _)
            omega

structure WindowInv (tx : Tx) : Prop where
  vtA : tx.vtA < mod
  vtS : tx.vtS < mod
  vtMs : tx.vtMs = (tx.vtA + windowSize) % mod
  order : tx.offset tx.vtS ≤ windowSize
  wellFormed : tx.txWindow.WellFormed
  keys : ∀ sn, tx.txWindow.contains sn = true → sn < mod ∧ tx.offset sn < tx.offset tx.vtS

theorem WindowInv.keeps (h : tx.WindowInv) (keeps : Keeps tx tx') : tx'.WindowInv := by
  have same (sn : Nat) : tx'.offset sn = tx.offset sn := by
    unfold offset
    rw [keeps.vtA]
  refine ⟨by rw [keeps.vtA]; exact h.vtA, by rw [keeps.vtS]; exact h.vtS, ?_, ?_, keeps.wellFormed h.wellFormed,
    fun sn present => ?_⟩
  · rw [keeps.vtMs, keeps.vtA]
    exact h.vtMs
  · rw [keeps.vtS, same]
    exact h.order
  · rw [keeps.contains] at present
    rw [keeps.vtS, same, same]
    exact h.keys sn present

structure AckProgress (status : StatusPdu) (tx₀ : Tx) (k : Nat) (s : Tx × Bool × List TxCall) : Prop where
  vtA : s.1.vtA < mod
  vtS : s.1.vtS = tx₀.vtS
  vtMs : s.1.vtMs = (s.1.vtA + windowSize) % mod
  passed : tx₀.offset s.1.vtA ≤ k
  update : s.2.1 = true → tx₀.offset s.1.vtA = k
  acked : ∀ m < tx₀.offset s.1.vtA, nacked status ((tx₀.vtA + m) % mod) = false
  wellFormed : s.1.txWindow.WellFormed
  window : ∀ sn, s.1.txWindow.contains sn =
    (tx₀.txWindow.contains sn && !(tx₀.offset sn < k && !nacked status sn))

variable {status : StatusPdu} {tx₀ : Tx}

theorem offset_eq_iff {k sn : Nat} (vtA : tx₀.vtA < mod) (room : k < mod) (hsn : sn < mod) :
    tx₀.offset sn = k ↔ sn = (tx₀.vtA + k) % mod := by
  constructor
  · rintro rfl
    exact (add_modOffset vtA hsn).symm
  · rintro rfl
    exact modOffset_add vtA room

theorem passed_of_nacked {k sn : Nat} (vtA : tx₀.vtA < mod) (room : k < mod) (hsn : sn < mod)
    (nack : nacked status ((tx₀.vtA + k) % mod) = true) :
    (tx₀.offset sn < k + 1 && !nacked status sn) = (tx₀.offset sn < k && !nacked status sn) := by
  by_cases last : tx₀.offset sn = k
  · simp [(offset_eq_iff vtA room hsn).mp last, nack]
  · have same : tx₀.offset sn < k + 1 ↔ tx₀.offset sn < k := by omega
    simp [same]

theorem passed_of_acked {k sn : Nat} (vtA : tx₀.vtA < mod) (room : k < mod) (hsn : sn < mod)
    (ack : nacked status ((tx₀.vtA + k) % mod) = false) :
    (tx₀.offset sn < k + 1 && !nacked status sn) =
      ((tx₀.offset sn < k && !nacked status sn) || sn = (tx₀.vtA + k) % mod) := by
  have only := offset_eq_iff vtA room hsn
  by_cases last : tx₀.offset sn = k
  · rw [decide_eq_true (only.mp last), only.mp last, ack, ← only.mp last]
    simp [last]
  · have same : tx₀.offset sn < k + 1 ↔ tx₀.offset sn < k := by omega
    simp [same, mt only.mpr last]

theorem AckProgress.next {k : Nat} {s s' : Tx × Bool × List TxCall} (h₀ : tx₀.WindowInv)
    (h : AckProgress status tx₀ k s) (room : k + 1 < mod)
    (one : ackOne status s ((tx₀.vtA + k) % mod) = .ok s') : AckProgress status tx₀ (k + 1) s' := by
  unfold ackOne at one
  split at one
  · rename_i nack
    obtain ⟨⟨tx₁, calls⟩, handled, rest⟩ := bind_eq_ok.mp one
    cases rest
    have keeps := keeps_handleNacks handled
    refine ⟨keeps.vtA ▸ h.vtA, keeps.vtS.trans h.vtS, ?_, ?_, by simp, ?_, keeps.wellFormed h.wellFormed,
      fun sn => ?_⟩
    · rw [keeps.vtMs, keeps.vtA]
      exact h.vtMs
    · rw [keeps.vtA]
      exact le_succ_of_le h.passed
    · rw [keeps.vtA]
      exact h.acked
    · rw [keeps.contains, h.window]
      cases present : tx₀.txWindow.contains sn with
      | false => rfl
      | true => rw [passed_of_nacked h₀.vtA (by omega) (h₀.keys sn present).1 nack]
  · rename_i ack
    cases one
    obtain ⟨pool, undelivered, vec, eq⟩ := handleAck_eq s.1 ((tx₀.vtA + k) % mod) s.2.1
    have ack : nacked status ((tx₀.vtA + k) % mod) = false := by simpa using ack
    rw [eq]
    have up (update : s.2.1 = true) : tx₀.offset ((s.1.vtA + 1) % mod) = k + 1 := by
      have at_ := h.update update
      have next := modOffset_succ h₀.vtA h.vtA (by unfold offset at at_; omega)
      exact next.trans (by unfold offset at at_; omega)
    refine ⟨?_, h.vtS, ?_, ?_, fun update => ?_, ?_, h.wellFormed.erase (by decide) _, fun sn => ?_⟩
    · dsimp only
      split
      · exact mod_lt _ (by decide)
      · exact h.vtA
    · dsimp only
      have vtMs := h.vtMs
      split
      · rw [vtMs]
        unfold mod windowSize
        omega
      · exact vtMs
    · dsimp only
      split
      · rename_i update
        rw [up update]
      · exact le_succ_of_le h.passed
    · dsimp only
      rw [if_pos update, up update]
    · dsimp only
      split
      · rename_i update
        rw [up update]
        intro m hm
        rcases Nat.lt_succ_iff_lt_or_eq.mp hm with below | rfl
        · exact h.acked m (by rw [h.update update]; exact below)
        · exact ack
      · exact h.acked
    · dsimp only
      have erased : (s.1.txWindow.erase ((tx₀.vtA + k) % mod)).contains sn =
          if sn = (tx₀.vtA + k) % mod then false else s.1.txWindow.contains sn := by
        unfold CircularMap.contains
        rw [CircularMap.find_erase]
        split <;> rfl
      rw [erased, h.window]
      cases present : tx₀.txWindow.contains sn with
      | false => simp
      | true =>
        rw [passed_of_acked h₀.vtA (by omega) (h₀.keys sn present).1 ack]
        by_cases last : sn = (tx₀.vtA + k) % mod <;> simp [last]

theorem AckProgress.windowInv {k : Nat} {s : Tx × Bool × List TxCall} (h₀ : tx₀.WindowInv)
    (h : AckProgress status tx₀ k s) (inside : k ≤ tx₀.offset tx₀.vtS) : s.1.WindowInv := by
  have passed := h.passed
  have order := h₀.order
  have rebase {sn : Nat} (hsn : sn < mod) (above : tx₀.offset s.1.vtA ≤ tx₀.offset sn) :
      s.1.offset sn = tx₀.offset sn - tx₀.offset s.1.vtA := by
    unfold offset at *
    rw [modOffset_rebase h₀.vtA h.vtA hsn, if_pos above]
  have vtS : s.1.offset s.1.vtS = tx₀.offset tx₀.vtS - tx₀.offset s.1.vtA := by
    rw [h.vtS]
    exact rebase h₀.vtS (by omega)
  refine ⟨h.vtA, h.vtS ▸ h₀.vtS, h.vtMs, by omega, h.wellFormed, fun sn present => ?_⟩
  rw [h.window] at present
  simp only [and_eq_true, not_eq_true', and_eq_false_iff, decide_eq_false_iff_not] at present
  obtain ⟨before, kept⟩ := present
  obtain ⟨hsn, below⟩ := h₀.keys sn before
  have above : tx₀.offset s.1.vtA ≤ tx₀.offset sn := by
    by_contra gone
    have acked := h.acked (tx₀.offset sn) (by omega)
    rw [show (tx₀.vtA + tx₀.offset sn) % mod = sn from add_modOffset h₀.vtA hsn] at acked
    rcases kept with high | nack
    · omega
    · rw [acked] at nack
      contradiction
  rw [rebase hsn above]
  omega

def ackCount (tx : Tx) (status : StatusPdu) : Nat := min (tx.offset status.ackSn) (tx.offset tx.vtS)

def startAcks (tx : Tx) (status : StatusPdu) : Tx :=
  { tx with
    pollRetxTimer :=
      if tx.txModBase tx.pollSn < tx.txModBase status.ackSn then tx.pollRetxTimer.stop else tx.pollRetxTimer
    retxQueue := if status.nacks.isEmpty then tx.retxQueue else [] }

theorem handleStatus_foldlM (ha : tx.vtA < mod) (valid : tx.validAckSn status.ackSn = true) :
    tx.handleStatus status =
      ((snsFrom tx.vtA (tx.ackCount status)).foldlM (ackOne status) (tx.startAcks status, true, [])).map fun s =>
        ({ s.1 with notifyInfoVec := [] }, s.2.2 ++
          (if !s.1.txWindow.isEmpty && !s.1.txWindow.contains s.1.vtA then [.protocolFailure] else []) ++
          (if s.1.notifyInfoVec.isEmpty then [] else [.notifyDelivery s.1.notifyInfoVec])) := by
  have few : tx.ackCount status < mod := Nat.lt_of_le_of_lt (Nat.min_le_right _ _) (tx.offset_lt _)
  have low : tx.offset tx.vtA = 0 := modOffset_self ha
  have start : (tx.startAcks status).offset tx.vtA + tx.ackCount status =
      min ((tx.startAcks status).offset status.ackSn) ((tx.startAcks status).offset tx.vtS) := by
    change tx.offset tx.vtA + tx.ackCount status = tx.ackCount status
    omega
  unfold handleStatus
  rw [if_neg (by simp [valid])]
  change (ackLoop status tx.vtS mod tx.vtA true (tx.startAcks status) [] >>= _) = _
  rw [@ackLoop_eq (tx.startAcks status) status tx.vtS _ _ _ _ _ ha ha (fun _ => rfl) start few]
  cases (snsFrom tx.vtA (tx.ackCount status)).foldlM (ackOne status) (tx.startAcks status, true, []) with
  | error fault => rfl
  | ok s => rfl

theorem handleStatus_eq (ha : tx.vtA < mod) {calls : List TxCall} (valid : tx.validAckSn status.ackSn = true)
    (handled : tx.handleStatus status = .ok (tx', calls)) :
    ∃ s, (snsFrom tx.vtA (tx.ackCount status)).foldlM (ackOne status) (tx.startAcks status, true, []) = .ok s ∧
      tx' = { s.1 with notifyInfoVec := [] } ∧
      calls = s.2.2 ++
        (if !s.1.txWindow.isEmpty && !s.1.txWindow.contains s.1.vtA then [.protocolFailure] else []) ++
        (if s.1.notifyInfoVec.isEmpty then [] else [.notifyDelivery s.1.notifyInfoVec]) := by
  rw [handleStatus_foldlM ha valid] at handled
  obtain ⟨s, folded, eq⟩ := map_eq_ok.mp handled
  obtain ⟨rfl, rfl⟩ := Prod.mk.inj eq
  exact ⟨s, folded, rfl, rfl⟩

theorem WindowInv.startProgress (h : tx.WindowInv) (status : StatusPdu) :
    AckProgress status tx 0 (tx.startAcks status, true, []) := by
  have low : tx.offset tx.vtA = 0 := modOffset_self h.vtA
  refine ⟨h.vtA, rfl, h.vtMs, Nat.le_of_eq low, fun _ => low, fun m hm => ?_, h.wellFormed, fun sn => ?_⟩
  · change m < tx.offset tx.vtA at hm
    omega
  · simp [startAcks]

theorem WindowInv.ackProgress (h : tx.WindowInv) {s : Tx × Bool × List TxCall}
    (folded : (snsFrom tx.vtA (tx.ackCount status)).foldlM (ackOne status) (tx.startAcks status, true, []) =
      .ok s) : AckProgress status tx (tx.ackCount status) s := by
  have few : tx.ackCount status < mod := Nat.lt_of_le_of_lt (Nat.min_le_right _ _) (tx.offset_lt _)
  exact foldlM_range_invariant (fun k s s' hk progress one => progress.next h (by omega) one)
    (h.startProgress status) folded

end IsrRan.Rlc.AmLte.Tx
