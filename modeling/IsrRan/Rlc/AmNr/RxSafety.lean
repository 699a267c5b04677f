import IsrRan.Lib.Transition
import IsrRan.Rlc.AmNr.RxStep

namespace IsrRan.Rlc.AmNr
open Lib Adt

namespace Rx

variable {snSize : SnSize} {kept : Prop} {rx rx' : Rx snSize}

structure Inv (kept : Prop) (rx : Rx snSize) : Prop where
  window : rx.WindowInv kept
  status : rx.StatusInv
  timer : rx.TimerInv kept

variable {header : PduHeader} {nofBytes hdrLen : Nat} {payload : Memory}

theorem inv_init : ({} : Rx snSize).Inv kept where
  window := by
    refine ⟨snSize.modNr_pos, snSize.modNr_pos, ?_, by simp, ?_, by simp⟩
    · rw [offset, modOffset_self snSize.modNr_pos]
      exact Nat.zero_le _
    · rw [offset, modOffset_self snSize.modNr_pos]
      simp
  status := ⟨snSize.modNr_pos, Nat.le_refl _, rfl, rfl⟩
  timer := ⟨snSize.modNr_pos, by simp, by simp⟩

/-- What the duplicate check lets through does not swallow a stored segment and does not, as a full
SDU that is too long for the buffer, take the stored segments out of the window. -/
def keepsSegments (rx : Rx snSize) (header : PduHeader) (nofBytes hdrLen : Nat) : Bool :=
  rx.isDuplicate header (pduLastByte header nofBytes hdrLen) ||
    match rx.rxWindow.find header.sn with
    | none => true
    | some sdu =>
      if header.si = .fullSdu then nofBytes ≤ bufferTailroom
      else sdu.segments.all fun segm => !swallows header.so
        (nofBytes - packedLength snSize header) (pduLastByte header nofBytes hdrLen) segm

theorem bufferTailroom_eq : bufferTailroom = 12237 := rfl

theorem SegmentsOk.insert {segments : List RxPdu} (h : SegmentsOk segments)
    {data : List Byte} {lastByte : Nat} (small : header.so < 65536)
    (short : data.length ≤ bufferTailroom) (last : header.so + data.length ≤ lastByte + 1)
    (free : segments.any (overlapping header.so lastByte) = false)
    (kept : segments.all (fun segm => !swallows header.so data.length lastByte segm) = true) :
    SegmentsOk (insertReceivedSegment ⟨header, data⟩ segments) := by
  refine ⟨h.separated.insert fun segm mem => ?_, fun segm mem => ?_, fun segm mem => ?_⟩
  · have lengths := h.lengths segm mem
    have offsets := h.offsets segm mem
    rw [bufferTailroom_eq] at lengths
    refine apart_of_not_overlapping small (by omega) last ?_ ?_
    · simpa using List.any_eq_false.mp free segm mem
    · simpa using List.all_eq_true.mp kept segm mem
  · rcases mem_insertReceivedSegment mem with rfl | mem
    · exact small
    · exact h.offsets segm mem
  · rcases mem_insertReceivedSegment mem with rfl | mem
    · exact short
    · exact h.lengths segm mem

theorem SegmentsOk.singleton {data : List Byte} (small : header.so < 65536)
    (short : data.length ≤ bufferTailroom) : SegmentsOk [⟨header, data⟩] :=
  ⟨List.pairwise_singleton _ _, by simpa using small, by simpa using short⟩

theorem pduLastByte_ge (small : header.so < 65536)
    (consumed : hdrLen ≤ packedLength snSize header)
    (long : packedLength snSize header ≤ nofBytes)
    (short : nofBytes - packedLength snSize header ≤ bufferTailroom) :
    header.so + (nofBytes - packedLength snSize header) ≤ pduLastByte header nofBytes hdrLen + 1 := by
  have : packedLength snSize header ≤ 5 := by
    unfold packedLength
    split <;> split <;> omega
  rw [bufferTailroom_eq] at short
  simp only [pduLastByte, u32Sub]
  omega

theorem Inv.placeDataPdu (h : rx.Inv kept)
    {placed : Bool} (hsn : header.sn < snSize.modNr) (small : header.so < 65536)
    (consumed : hdrLen ≤ packedLength snSize header) (inside : rx.offset header.sn < snSize.windowSize)
    (fresh : rx.isDuplicate header (pduLastByte header nofBytes hdrLen) = false)
    (keeps : kept → rx.keepsSegments header nofBytes hdrLen = true)
    (done : rx.placeDataPdu header payload nofBytes = .ok (rx', placed)) :
    if placed then ∃ sdu, rx.Placed rx' header.sn sdu ∧ (kept → SduOk sdu)
    else rx' = { rx with rxWindow := rx'.rxWindow } ∧
      ∀ sn, rx'.rxWindow.find sn = rx.rxWindow.find sn ∨ ¬ kept ∧ rx'.rxWindow.find sn = none := by
  unfold Rx.placeDataPdu at done
  unfold keepsSegments at keeps
  rw [fresh, Bool.false_or] at keeps
  split at done
  · rename_i full
    have result := h.window.handleFullDataSdu hsn inside done
    cases placed with
    | true => exact ⟨_, result.2, fun _ => ⟨⟨List.Pairwise.nil, by simp, by simp⟩, by simp⟩⟩
    | false =>
      obtain ⟨tooLong, same, finds⟩ := result
      refine ⟨same, fun sn => ?_⟩
      rw [finds]
      split
      · rename_i eq
        subst eq
        cases found : rx.rxWindow.find header.sn with
        | none => exact .inl rfl
        | some sdu =>
          refine .inr ⟨fun kept => ?_, rfl⟩
          have keeps := keeps kept
          rw [found] at keeps
          simp only [full, if_true, decide_eq_true_eq] at keeps
          omega
      · exact .inl rfl
  · rename_i segment
    obtain ⟨rfl, long, short, result⟩ := h.window.handleSegmentDataSdu hsn inside done
    refine ⟨_, result, fun kept => ⟨?_, addSegment_inventory _ _⟩⟩
    have keeps := keeps kept
    rw [addSegment_segments]
    have last := pduLastByte_ge small consumed long short
    cases found : rx.rxWindow.find header.sn with
    | none => exact .singleton small (by simpa using short)
    | some sdu =>
      rw [found] at keeps
      simp only [segment] at keeps
      have free : sdu.segments.any (overlapping header.so (pduLastByte header nofBytes hdrLen)) = false := by
        simp only [isDuplicate, found, Bool.or_eq_false_iff, segment, ne_eq] at fresh
        exact fresh.2
      exact SegmentsOk.insert (h.window.segments kept _ sdu found).toSegmentsOk small (by simpa using short)
        (by simpa using last) free (by simpa using keeps)

theorem Inv.congr (h : rx.Inv kept) (same : ∃ doStatus statusProhibit,
      rx' = { rx with
        rxWindow := rx'.rxWindow, doStatus := doStatus, statusProhibitTimerRunning := statusProhibit })
    (finds : ∀ sn, rx'.rxWindow.find sn = rx.rxWindow.find sn ∨
      ¬ kept ∧ rx'.rxWindow.find sn = none) : rx'.Inv kept := by
  obtain ⟨doStatus, statusProhibit, same⟩ := same
  have found_of : ∀ {sn sdu}, rx'.rxWindow.find sn = some sdu → rx.rxWindow.find sn = some sdu := by
    intro sn sdu found
    rcases finds sn with eq | ⟨_, none⟩
    · rw [← eq, found]
    · rw [none] at found
      contradiction
  have contains : kept → ∀ sn, rx'.rxWindow.contains sn = rx.rxWindow.contains sn := by
    intro keeps sn
    rcases finds sn with eq | ⟨lost, _⟩
    · rw [CircularMap.contains, CircularMap.contains, eq]
    · exact absurd keeps lost
  have missing : ∀ sn, rx.fullyReceived sn = false → rx'.fullyReceived sn = false := by
    intro sn was
    rcases finds sn with eq | ⟨_, none⟩
    · rw [fullyReceived_congr eq, was]
    · simp [Rx.fullyReceived, none]
  generalize rx'.rxWindow = window at *
  subst same
  refine ⟨⟨h.window.rxNext, h.window.nextHighest, h.window.window, ?_, ?_, ?_⟩,
    ⟨h.status.highestStatus, h.status.bound, ?_, ?_⟩, ⟨h.timer.trigger, h.timer.above, ?_⟩⟩
  · exact fun sn sdu found => h.window.keys sn sdu (found_of found)
  · exact fun keeps positive => (contains keeps _).trans (h.window.highestPresent keeps positive)
  · exact fun keeps sn sdu found => h.window.segments keeps sn sdu (found_of found)
  · exact missing _ h.status.highestMissing
  · exact missing _ h.status.nextMissing
  · exact fun keeps running => (contains keeps _).trans (h.timer.present keeps running)

theorem WindowInv.withTimer (h : rx.WindowInv kept) (running : Bool) :
    ({ rx with reassemblyTimerRunning := running } : Rx snSize).WindowInv kept :=
  ⟨h.rxNext, h.nextHighest, h.window, h.keys, h.highestPresent, h.segments⟩

theorem StatusInv.withTimer (h : rx.StatusInv) (running : Bool) :
    ({ rx with reassemblyTimerRunning := running } : Rx snSize).StatusInv :=
  ⟨h.highestStatus, h.bound, h.highestMissing, h.nextMissing⟩

theorem startReassemblyTimer_eq (rx : Rx snSize) (sn : Nat) : ∃ running trigger,
    rx.startReassemblyTimer sn =
      { rx with reassemblyTimerRunning := running, rxNextStatusTrigger := trigger } := by
  unfold startReassemblyTimer
  split
  · exact ⟨_, _, rfl⟩
  · exact ⟨rx.reassemblyTimerRunning, rx.rxNextStatusTrigger, rfl⟩

theorem Inv.start (window : rx.WindowInv kept) (status : rx.StatusInv)
    (trigger : rx.rxNextStatusTrigger < snSize.modNr) (stopped : rx.reassemblyTimerRunning = false)
    {sn : Nat} (hsn : sn < snSize.modNr) (near : rx.offset sn ≤ snSize.windowSize) :
    (rx.startReassemblyTimer sn).Inv kept := by
  have timer := window.startReassemblyTimer trigger stopped hsn near
  obtain ⟨running, trigger', eq⟩ := startReassemblyTimer_eq rx sn
  refine ⟨?_, ?_, timer⟩
  · rw [eq]
    exact ⟨window.rxNext, window.nextHighest, window.window, window.keys, window.highestPresent,
      window.segments⟩
  · rw [eq]
    exact ⟨status.highestStatus, status.bound, status.highestMissing, status.nextMissing⟩

theorem restartReassemblyTimer_inv (window : rx.WindowInv kept) (status : rx.StatusInv)
    (timer : rx.TimerInvLoose kept) :
    (kept → rx.restartReassemblyTimer ≠ .error .assertionFailed) ∧
      ∀ rx', rx.restartReassemblyTimer = .ok rx' → rx'.Inv kept := by
  obtain ⟨noAssertion, inv⟩ := timer.stopReassemblyTimer window
  unfold restartReassemblyTimer
  cases done : rx.stopReassemblyTimer with
  | error fault =>
    rw [done] at noAssertion
    exact ⟨by simpa [bind, Except.bind] using noAssertion, by simp [bind, Except.bind]⟩
  | ok stopped =>
    refine ⟨by simp [bind, Except.bind], fun rx' eq => ?_⟩
    obtain rfl := Except.ok.inj eq
    obtain ⟨running, rfl, inv⟩ := inv stopped done
    have window' := window.withTimer running
    have status' := status.withTimer running
    cases running with
    | true => exact ⟨window', status', inv⟩
    | false =>
      refine Inv.start window' status' inv.trigger rfl window'.rxNext ?_
      rw [offset_rxNext window'.rxNext]
      exact Nat.zero_le _

theorem Inv.handleHeader (h : rx.Inv kept)
    (hsn : header.sn < snSize.modNr) (small : header.so < 65536)
    (consumed : hdrLen ≤ packedLength snSize header)
    (keeps : kept → rx.keepsSegments header nofBytes hdrLen = true) :
    (kept → rx.handleHeader header payload nofBytes hdrLen ≠ .error .assertionFailed) ∧
      ∀ out, rx.handleHeader header payload nofBytes hdrLen = .ok out → out.1.Inv kept := by
  unfold Rx.handleHeader
  split
  · refine ⟨by simp, fun out eq => ?_⟩
    obtain rfl := Except.ok.inj eq
    exact h
  · rename_i accepted
    simp only [insideRxWindow_eq h.window.rxNext hsn, Bool.or_eq_true, Bool.not_eq_true',
      decide_eq_false_iff_not, not_or, Decidable.not_not, Bool.not_eq_true] at accepted
    obtain ⟨inside, fresh⟩ := accepted
    cases done : rx.placeDataPdu header payload nofBytes with
    | error fault =>
      have : fault = .undefinedBehaviour := by
        unfold Rx.placeDataPdu Rx.handleFullDataSdu Rx.handleSegmentDataSdu at done
        dsimp only at done
        repeat' split at done
        all_goals simp_all
      subst this
      exact ⟨by simp [bind, Except.bind], by simp [bind, Except.bind]⟩
    | ok result =>
      obtain ⟨rx', placed⟩ := result
      have spec := h.placeDataPdu hsn small consumed inside fresh keeps done
      cases placed with
      | false =>
        refine ⟨by simp [bind, Except.bind], fun out eq => ?_⟩
        obtain rfl : out = (rx', []) := by simpa [bind, Except.bind, eq_comm] using eq
        exact h.congr ⟨rx.doStatus, rx.statusProhibitTimerRunning, spec.1⟩ spec.2
      | true =>
        obtain ⟨sdu, placed, segments⟩ := spec
        obtain ⟨window, status, timer⟩ :=
          h.window.updateState h.status h.timer placed hsn inside segments
        obtain ⟨noAssertion, inv⟩ := restartReassemblyTimer_inv window status timer
        cases restarted : (rx'.updateState header.sn).1.restartReassemblyTimer with
        | error fault =>
          simpa [bind, Except.bind, restarted] using noAssertion
        | ok rx'' =>
          refine ⟨by simp [bind, Except.bind, restarted], fun out eq => ?_⟩
          obtain rfl : out = (rx'', (rx'.updateState header.sn).2) := by
            simpa [bind, Except.bind, restarted, eq_comm] using eq
          exact inv rx'' restarted

theorem Inv.handleDataPdu (h : rx.Inv kept)
    (keeps : kept → rx.keepsSegments (readDataPduHeader payload snSize).2 nofBytes
      (readDataPduHeader payload snSize).1 = true) :
    (kept → rx.handleDataPdu payload nofBytes ≠ .error .assertionFailed) ∧
      ∀ out, rx.handleDataPdu payload nofBytes = .ok out → out.1.Inv kept := by
  have polled : ({ rx with doStatus := rx.doStatus || (readDataPduHeader payload snSize).2.p } :
      Rx snSize).Inv kept := h.congr ⟨_, rx.statusProhibitTimerRunning, rfl⟩ fun _ => .inl rfl
  refine polled.handleHeader (readDataPduHeader_sn_lt payload snSize)
    (readDataPduHeader_so_lt payload snSize) ?_ keeps
  rcases readDataPduHeader_length payload snSize with malformed | read
  · rw [malformed]
    exact Nat.zero_le _
  · exact Nat.le_of_eq read

theorem Inv.reassemblyTimerExpired (h : rx.Inv kept) (running : rx.reassemblyTimerRunning = true) :
    ∃ rx', rx.reassemblyTimerExpired = .ok rx' ∧ rx'.Inv kept := by
  have above := h.timer.above running
  have modNr := snSize.modNr_eq
  have window := h.window.window
  have passed := h.window.firstMissing h.timer.trigger above.2 (by omega : _ ≤ _ + snSize.modNr)
  generalize stop_eq : rx.firstMissing snSize.modNr rx.rxNextStatusTrigger = stop at passed
  have lower := passed.lower
  have upper := passed.upper
  have window' : ({ rx with reassemblyTimerRunning := false, rxHighestStatus := stop } :
      Rx snSize).WindowInv kept := (h.window.withTimer false).withHighestStatus stop
  have status' : ({ rx with reassemblyTimerRunning := false, rxHighestStatus := stop } :
      Rx snSize).StatusInv :=
    ⟨passed.stop_lt, passed.upper, passed.not_received h.window, h.status.nextMissing⟩
  have valid : ({ rx with reassemblyTimerRunning := false, rxHighestStatus := stop } :
      Rx snSize).validAckSn stop = true := by
    rw [validAckSn, rxModBaseNr_eq window'.rxNext (Nat.le_of_lt passed.stop_lt)]
    change (decide (0 < rx.offset stop) && decide (rx.offset stop ≤ snSize.windowSize)) = true
    simp only [Bool.and_eq_true, decide_eq_true_eq]
    omega
  have started := Inv.start window' status' h.timer.trigger rfl passed.stop_lt
    (Nat.le_trans upper window)
  unfold Rx.reassemblyTimerExpired
  rw [stop_eq]
  rw [if_pos valid]
  refine ⟨_, rfl, started.congr ⟨true, _, rfl⟩ fun _ => .inl rfl⟩

theorem WindowInv.nackSn_ok (h : rx.WindowInv kept) (keeps : kept) (status : StatusPdu) (sn : Nat) :
    ∃ status', rx.nackSn status sn = .ok status' := by
  unfold Rx.nackSn
  cases found : rx.rxWindow.find sn with
  | none => exact ⟨_, rfl⟩
  | some sdu =>
    have segments := h.segments keeps sn sdu found
    dsimp only
    split
    · exact ⟨_, rfl⟩
    · exact nackSegments_ok segments.separated segments.offsets (fun _ _ => Nat.zero_le _) _ _

theorem WindowInv.nackLoop_ok (h : rx.WindowInv kept) (keeps : kept) (fuel sn : Nat)
    (status : StatusPdu) : ∃ status', rx.nackLoop fuel sn status = .ok status' := by
  induction fuel generalizing sn status with
  | zero => exact ⟨_, rfl⟩
  | succ fuel ih =>
    unfold Rx.nackLoop
    split
    · obtain ⟨status', eq⟩ := h.nackSn_ok keeps status sn
      rw [eq]
      exact ih _ _
    · exact ⟨_, rfl⟩

theorem Inv.getStatusPdu (h : rx.Inv kept) (maxLen : Nat) :
    (kept → rx.getStatusPdu maxLen ≠ .error .assertionFailed) ∧
      ∀ out, rx.getStatusPdu maxLen = .ok out → out.1.Inv kept := by
  unfold Rx.getStatusPdu
  cases reported : rx.nackLoop snSize.modNr rx.rxNext {} with
  | error fault =>
    refine ⟨fun keeps => ?_, by simp [bind, Except.bind]⟩
    obtain ⟨status, eq⟩ := h.window.nackLoop_ok keeps snSize.modNr rx.rxNext {}
    rw [eq] at reported
    contradiction
  | ok status =>
    dsimp only [bind, Except.bind]
    split
    · refine ⟨by simp, fun out eq => ?_⟩
      obtain rfl := Except.ok.inj eq
      exact h
    · refine ⟨by simp, fun out eq => ?_⟩
      obtain rfl := Except.ok.inj eq
      exact h.congr ⟨_, _, rfl⟩ fun _ => .inl rfl

end Rx

inductive RxEvent where
  | receive (payload : Memory) (nofBytes : Nat)
  | getStatusPdu (maxLen : Nat)
  | reassemblyTimerExpired
  | statusProhibitTimerExpired

namespace Rx

variable {snSize : SnSize} {kept : Prop} {rx rx' : Rx snSize}

def step (rx : Rx snSize) : RxEvent → Except Fault (Rx snSize)
  | .receive payload nofBytes => (rx.handleDataPdu payload nofBytes).map Prod.fst
  | .getStatusPdu maxLen => (rx.getStatusPdu maxLen).map Prod.fst
  | .reassemblyTimerExpired =>
    if rx.reassemblyTimerRunning then rx.reassemblyTimerExpired else .ok rx
  | .statusProhibitTimerExpired => .ok { rx with statusProhibitTimerRunning := false }

def next (rx : Rx snSize) (e : RxEvent) : Option (Rx snSize) := (rx.step e).toOption

def admissible (rx : Rx snSize) : RxEvent → Bool
  | .receive payload nofBytes => rx.keepsSegments (readDataPduHeader payload snSize).2 nofBytes
      (readDataPduHeader payload snSize).1
  | _ => true

theorem Inv.step (h : rx.Inv kept) {e : RxEvent} (ok : kept → rx.admissible e = true) :
    (kept → rx.step e ≠ .error .assertionFailed) ∧ ∀ rx', rx.step e = .ok rx' → rx'.Inv kept := by
  cases e with
  | receive payload nofBytes =>
    obtain ⟨noAssertion, inv⟩ := h.handleDataPdu ok
    simp only [Rx.step]
    cases done : rx.handleDataPdu payload nofBytes with
    | error fault =>
      rw [done] at noAssertion
      exact ⟨by simpa [Except.map] using noAssertion, by simp [Except.map]⟩
    | ok out => exact ⟨by simp [Except.map], fun rx' eq => Except.ok.inj eq ▸ inv out done⟩
  | getStatusPdu maxLen =>
    obtain ⟨noAssertion, inv⟩ := h.getStatusPdu maxLen
    simp only [Rx.step]
    cases done : rx.getStatusPdu maxLen with
    | error fault =>
      rw [done] at noAssertion
      exact ⟨by simpa [Except.map] using noAssertion, by simp [Except.map]⟩
    | ok out => exact ⟨by simp [Except.map], fun rx' eq => Except.ok.inj eq ▸ inv out done⟩
  | reassemblyTimerExpired =>
    simp only [Rx.step]
    split
    · rename_i running
      obtain ⟨out, done, inv⟩ := h.reassemblyTimerExpired running
      rw [done]
      exact ⟨by simp, fun rx' eq => Except.ok.inj eq ▸ inv⟩
    · exact ⟨by simp, fun rx' eq => Except.ok.inj eq ▸ h⟩
  | statusProhibitTimerExpired =>
    simp only [Rx.step]
    refine ⟨by simp, fun rx' eq => ?_⟩
    rw [← Except.ok.inj eq]
    exact h.congr ⟨_, _, rfl⟩ fun _ => .inl rfl

theorem inv_of_reaches {allowed : Rx snSize → RxEvent → Prop}
    (ok : kept → ∀ rx e, allowed rx e → rx.admissible e = true) (run : Reaches next allowed {} rx) :
    rx.Inv kept := by
  refine run.invariant inv_init fun rx e rx' h allowed eq => ?_
  obtain ⟨_, inv⟩ := h.step fun keeps => ok keeps rx e allowed
  cases done : rx.step e with
  | error fault => simp [next, done, Except.toOption] at eq
  | ok out =>
    obtain rfl : out = rx' := by simpa [next, done, Except.toOption] using eq
    exact inv out done

structure VariablesOrdered (rx : Rx snSize) : Prop where
  highestStatus : rx.rxHighestStatus < snSize.modNr ∧
    rx.offset rx.rxHighestStatus ≤ rx.offset rx.rxNextHighest
  nextHighest : rx.rxNextHighest < snSize.modNr ∧ rx.offset rx.rxNextHighest ≤ snSize.windowSize
  statusTrigger : rx.reassemblyTimerRunning = true → rx.rxNextStatusTrigger < snSize.modNr ∧
    0 < rx.offset rx.rxNextStatusTrigger ∧ rx.offset rx.rxNextStatusTrigger ≤ rx.offset rx.rxNextHighest
  window : ∀ sn sdu, rx.rxWindow.find sn = some sdu →
    sn < snSize.modNr ∧ rx.offset sn < rx.offset rx.rxNextHighest
  nextMissing : rx.fullyReceived rx.rxNext = false
  highestMissing : rx.fullyReceived rx.rxHighestStatus = false

theorem variables_ordered {rx : Rx snSize} (run : Reaches next (fun _ _ => True) {} rx) :
    rx.rxNext < snSize.modNr ∧ rx.VariablesOrdered := by
  have inv : rx.Inv False := inv_of_reaches (fun keeps => keeps.elim) run
  exact ⟨inv.window.rxNext, ⟨inv.status.highestStatus, inv.status.bound⟩,
    ⟨inv.window.nextHighest, inv.window.window⟩,
    fun running => ⟨inv.timer.trigger, inv.timer.above running⟩, inv.window.keys,
    inv.status.nextMissing, inv.status.highestMissing⟩

def missingSduRun : List RxEvent :=
  [.receive (.ofList [0x80, 2, 1, 2]) 4, .receive (.ofList [0x80, 0, 1, 2]) 4, .reassemblyTimerExpired]

theorem variables_ordered_missingSduRun :
    ∃ rx : Rx .size12bits, runAllowed next (fun _ _ => true) {} missingSduRun = some rx ∧
      rx.rxNext = 1 ∧ rx.rxNextHighest = 3 ∧ rx.rxHighestStatus = 3 ∧ rx.VariablesOrdered := by
  have run : ∃ rx : Rx .size12bits, runAllowed next (fun _ _ => true) {} missingSduRun = some rx ∧
      rx.rxNext = 1 ∧ rx.rxNextHighest = 3 ∧ rx.rxHighestStatus = 3 := ⟨_, rfl, rfl, rfl, rfl⟩
  obtain ⟨rx, run, edges⟩ := run
  have reached := (reaches_of_runAllowed missingSduRun run).mono fun _ _ _ => trivial
  exact ⟨rx, run, edges.1, edges.2.1, edges.2.2, (variables_ordered reached).2⟩

def SegmentsDisjoint (rx : Rx snSize) : Prop :=
  ∀ sn sdu, rx.rxWindow.find sn = some sdu →
    sdu.segments.Pairwise fun a b => ∀ byte, ¬ (a.covers byte ∧ b.covers byte)

theorem assertions_hold {rx : Rx snSize}
    (run : Reaches next (fun rx e => rx.admissible e = true) {} rx) :
    rx.SegmentsDisjoint ∧ ∀ e, rx.admissible e = true → rx.step e ≠ .error .assertionFailed := by
  have inv : rx.Inv True := inv_of_reaches (fun _ _ _ ok => ok) run
  exact ⟨fun sn sdu found => (inv.window.segments trivial sn sdu found).separated.disjoint,
    fun e ok => (inv.step fun _ => ok).1 trivial⟩

def disjointRun : List RxEvent :=
  [.receive (.ofList [0xB0, 0, 0, 5, 1, 2]) 6, .receive (.ofList [0xB0, 0, 0, 3, 1, 2]) 6,
    .reassemblyTimerExpired, .getStatusPdu 30, .receive (.ofList [0xA0, 0, 0, 9, 1, 2]) 6]

theorem assertions_hold_disjointRun :
    ∃ rx : Rx .size12bits, runAllowed next (fun rx e => rx.admissible e) {} disjointRun = some rx ∧
      ((rx.rxWindow.find 0).map fun sdu => sdu.segments.map fun segm => segm.header.so) = some [3, 5, 9] ∧
      rx.SegmentsDisjoint ∧ ∀ e, rx.admissible e = true → rx.step e ≠ .error .assertionFailed := by
  have run : ∃ rx : Rx .size12bits,
      runAllowed next (fun rx e => rx.admissible e) {} disjointRun = some rx ∧
        ((rx.rxWindow.find 0).map fun sdu => sdu.segments.map fun segm => segm.header.so) =
          some [3, 5, 9] := ⟨_, rfl, rfl⟩
  obtain ⟨rx, run, offsets⟩ := run
  exact ⟨rx, run, offsets, assertions_hold (reaches_of_runAllowed disjointRun run)⟩

def swallowingRun : List RxEvent :=
  [.receive (.ofList [0xB0, 0, 0, 5, 1, 2]) 6,
    .receive (.ofList [0xB0, 0, 0, 3, 1, 2, 3, 4, 5, 6, 7]) 11, .reassemblyTimerExpired]

theorem swallowingRun_asserts :
    ¬ ∀ (snSize : SnSize) (rx : Rx snSize), Reaches next (fun _ _ => True) {} rx →
      rx.SegmentsDisjoint ∧ ∀ e, rx.step e ≠ .error .assertionFailed := by
  intro safe
  have run : ∃ rx : Rx .size12bits, runAllowed next (fun _ _ => true) {} swallowingRun = some rx ∧
      rx.step (.getStatusPdu 30) = .error .assertionFailed := ⟨_, rfl, rfl⟩
  obtain ⟨rx, run, failed⟩ := run
  have reached : Reaches next (fun _ _ => True) {} rx :=
    (reaches_of_runAllowed swallowingRun run).mono fun _ _ _ => trivial
  exact (safe .size12bits rx reached).2 _ failed

end Rx

end IsrRan.Rlc.AmNr
