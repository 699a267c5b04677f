import IsrRan.Lib.Transition
import IsrRan.Rlc.AmLte.RxInvariant

namespace IsrRan.Rlc.AmLte
open Lib Adt

theorem mem_addSegment {segment s : RxPdu} {segments : List RxPdu} (mem : s ∈ addSegment segment segments) :
    s = segment ∨ s ∈ segments := by
  induction segments with
  | nil => simpa [addSegment] using mem
  | cons first rest ih =>
    unfold addSegment at mem
    split at mem
    · rcases List.mem_cons.mp mem with rfl | mem
      · simp
      · exact (ih mem).imp_right (List.mem_cons_of_mem _)
    · split at mem
      · split at mem
        · exact (List.mem_cons.mp mem).imp_right (List.mem_cons_of_mem _)
        · exact .inr mem
      · exact List.mem_cons.mp mem

theorem dropOverlapped_subset (so : Nat) (segments : List RxPdu) : (dropOverlapped so segments).1 ⊆ segments := by
  induction segments generalizing so with
  | nil => simp [dropOverlapped]
  | cons first rest ih =>
    unfold dropOverlapped
    split
    · exact List.Subset.refl _
    · split
      · exact List.Subset.trans (ih so) (List.subset_cons_self _ _)
      · exact List.cons_subset_cons _ (ih _)

theorem rebuildHeader_sn {front back : RxPdu} {segments : List RxPdu} {header : PduHeader}
    (rebuilt : rebuildHeader front back segments = .ok header) :
    header.sn = front.header.sn ∧ header.dc = .dataPdu := by
  obtain ⟨_, _, rest⟩ := bind_eq_ok.mp rebuilt
  cases rest
  exact ⟨rfl, rfl⟩

theorem joinSegments_fits {full data : List Byte} (fits : full.length ≤ bufferTailroom)
    {segments : List RxPdu} (joined : joinSegments full segments = .ok data) :
    data.length ≤ bufferTailroom := by
  induction segments generalizing full with
  | nil =>
    cases joined
    exact fits
  | cons s rest ih =>
    unfold joinSegments at joined
    dsimp only at joined
    split at joined
    · split at joined
      · contradiction
      · rename_i room
        simp only [Bool.or_eq_true, decide_eq_true_eq, not_or, Nat.not_lt] at room
        exact ih room.2 joined
    · exact ih fits joined

namespace Rx

variable {whole : Prop} {fresh : Nat → Prop} {rx rx' : Rx}

/-- A PDU that fits its buffer. One that does not fit leaves its SN in the window without data; this goes
unnoticed as long as the SN is below `VR(H)` and neither `VR(R)` nor `VR(MS)`. -/
def harmless (rx : Rx) (sn len : Nat) : Bool :=
  len ≤ bufferTailroom || rx.rxModBase sn < rx.rxModBase rx.vrH && sn ≠ rx.vrR && sn ≠ rx.vrMs

def stores (rx : Rx) (header : PduHeader) (len : Nat) : Bool :=
  header.li.sum ≤ len && rx.insideRxWindow header.sn && !rx.rxWindow.contains header.sn

variable {sn : Nat} {sdus : List Sdu} {header : PduHeader} {segments : List RxPdu}

theorem Core.withFlags (h : rx.Core whole fresh) (pollReceived doStatus : Bool) :
    ({ rx with pollReceived, doStatus } : Rx).Core whole fresh :=
  ⟨h.vrR, h.vrMs, h.vrH, h.vrX, h.vrMr, h.order, h.window, h.keys, h.complete, h.segmentSns, h.segments⟩

theorem Inv.withFlags (h : rx.Inv whole fresh) (pollReceived doStatus : Bool) :
    ({ rx with pollReceived, doStatus } : Rx).Inv whole fresh :=
  ⟨h.toCore.withFlags _ _, h.lowMissing, h.statusMissing, h.timer⟩

theorem Inv.discard (h : rx.Inv whole fresh) (header : PduHeader) : (rx.discard header).Inv whole fresh :=
  h.withFlags rx.pollReceived (rx.doStatus || header.p)

theorem poll_eq (rx : Rx) (header : PduHeader) :
    ∃ pollReceived doStatus, rx.poll header = { rx with pollReceived, doStatus } := by
  unfold poll
  split
  · exact ⟨_, _, rfl⟩
  · exact ⟨rx.pollReceived, rx.doStatus, rfl⟩

theorem Core.overwrite (h : rx.Core whole fresh) (hsn : sn < mod)
    (below : rx.offset sn < rx.offset rx.vrH) (pdu : RxPdu) (dc : whole → pdu.header.dc = .dataPdu) :
    ({ rx with rxWindow := rx.rxWindow.overwrite sn pdu } : Rx).Core whole fresh := by
  have finds := h.find_overwrite hsn (Nat.lt_of_lt_of_le below h.window) pdu
  refine ⟨h.vrR, h.vrMs, h.vrH, h.vrX, h.vrMr, h.order, h.window, fun sn' pdu' found => ?_,
    fun kept sn' pdu' found => ?_, h.segmentSns, h.segments⟩
  · dsimp only at found
    rw [finds] at found
    split at found
    · rename_i same
      rw [same]
      exact ⟨hsn, below⟩
    · exact h.keys sn' pdu' found
  · dsimp only at found
    rw [finds] at found
    split at found
    · rw [← Option.some.inj found]
      exact dc kept
    · exact h.complete kept sn' pdu' found

theorem raiseHighest_with {edge : Nat} (raised : rx.raiseHighest sn = { rx with vrH := edge })
    (rxWindow : CircularMap windowSize RxPdu) (rxSegments : OrderedMap (List RxPdu)) :
    ({ rx with rxWindow, rxSegments } : Rx).raiseHighest sn =
      { rx with rxWindow, rxSegments, vrH := edge } := by
  have same : ({ rx with rxWindow, rxSegments } : Rx).raiseHighest sn =
      { rx.raiseHighest sn with rxWindow, rxSegments } := by
    unfold Rx.raiseHighest
    split <;> split <;> first | rfl | contradiction
  rw [same, raised]

theorem Core.stored (h : rx.Core whole fresh) (loose : rx.TimerLoose) (header : PduHeader)
    (done : (({ rx with vrMs := rx.firstMissing mod rx.vrMs } : Rx).poll header).reassembleRxSdus =
      .ok (rx', sdus)) : rx'.updateReorderingTimer.Inv whole fresh := by
  have bound := offset_lt rx rx.vrH
  have enough : rx.offset rx.vrH ≤ rx.offset rx.vrMs + mod := by omega
  obtain ⟨hs, below, missing⟩ := h.firstMissing h.vrMs h.order enough
  have moved : ({ rx with vrMs := rx.firstMissing mod rx.vrMs } : Rx).Core whole fresh :=
    ⟨h.vrR, hs, h.vrH, h.vrX, h.vrMr, below, h.window, h.keys, h.complete, h.segmentSns, h.segments⟩
  obtain ⟨pollReceived, doStatus, polled⟩ :=
    poll_eq ({ rx with vrMs := rx.firstMissing mod rx.vrMs } : Rx) header
  rw [polled] at done
  obtain ⟨core, loose, statusMissing, lowMissing⟩ :=
    (moved.withFlags pollReceived doStatus).reassembleRxSdus loose missing done
  exact core.updateReorderingTimer loose statusMissing lowMissing

theorem Inv.handleDataPduFull (h : rx.Inv whole fresh) {payload : List Byte}
    (hsn : header.sn < mod) (dc : header.dc = .dataPdu)
    (ok : rx.stores header payload.length = true →
      rx.harmless header.sn payload.length = true ∧ (whole → payload.length ≤ bufferTailroom))
    (done : rx.handleDataPduFull payload header = .ok (rx', sdus)) : rx'.Inv whole fresh := by
  unfold Rx.handleDataPduFull at done
  split at done
  · cases done
    exact h
  · rename_i long
    split at done
    · cases done
      exact h.discard header
    · rename_i new
      replace ok := ok (by simpa [stores, Nat.not_lt.mp long] using new)
      simp only [Bool.or_eq_true, Bool.not_eq_true', not_or, Bool.not_eq_false] at new
      rw [h.insideRxWindow_eq hsn, decide_eq_true_eq] at new
      obtain ⟨inside, missing⟩ := new
      split at done
      · rename_i tooLong
        cases done
        obtain ⟨ok, kept⟩ := ok
        unfold harmless at ok
        rw [rxModBase_eq h.vrR _ hsn, rxModBase_eq h.vrR _ h.vrH] at ok
        simp only [Bool.or_eq_true, decide_eq_true_eq, Bool.and_eq_true] at ok
        obtain ⟨⟨below, notR⟩, notMs⟩ := ok.resolve_left (by omega)
        have finds := h.find_overwrite hsn inside {}
        refine ⟨h.toCore.overwrite hsn below {} fun complete => absurd (kept complete) (by omega), ?_, ?_, h.timer⟩
        · simpa [CircularMap.contains, finds, Ne.symm notR] using h.lowMissing
        · simpa [CircularMap.contains, finds, Ne.symm notMs] using h.statusMissing
      · obtain ⟨edge, eq, raised⟩ := h.toCore.raiseHighest hsn inside
        obtain ⟨⟨rx'', sdus''⟩, reassembled, rest⟩ := bind_eq_ok.mp done
        cases rest
        rw [raiseHighest_with eq] at reassembled
        have placed := raised.toCore.overwrite hsn raised.below ⟨header, { msg := payload }⟩ fun _ => dc
        refine placed.stored (fun running => .inl ⟨(h.timer running).1, ?_⟩) header reassembled
        exact Nat.le_trans (h.timer running).2 raised.higher

theorem Core.storeSegments (h : rx.Core whole fresh) (hsn : sn < mod)
    (sns : ∀ s ∈ segments, s.header.sn = sn)
    (below : fresh sn → segments ≠ [] → rx.offset sn < rx.offset rx.vrH) :
    ({ rx with rxSegments := rx.rxSegments.insertOrAssign sn segments } : Rx).Core whole fresh := by
  refine ⟨h.vrR, h.vrMs, h.vrH, h.vrX, h.vrMr, h.order, h.window, h.keys, h.complete,
    fun sn' segments' found => ?_, fun sn' segments' kept found nonempty => ?_⟩
  · dsimp only at found
    rw [OrderedMap.find_insertOrAssign] at found
    split at found
    · rename_i same
      obtain rfl := Option.some.inj found
      rw [same]
      exact ⟨hsn, sns⟩
    · exact h.segmentSns sn' segments' found
  · dsimp only at found
    rw [OrderedMap.find_insertOrAssign] at found
    split at found
    · rename_i same
      obtain rfl := Option.some.inj found
      subst same
      exact below kept nonempty
    · exact h.segments sn' segments' kept found nonempty

theorem Inv.eraseSegments (h : rx.Inv whole fun sn' => fresh sn' ∧ sn' ≠ sn) :
    ({ rx with rxSegments := rx.rxSegments.erase sn } : Rx).Inv whole fresh := by
  refine ⟨⟨h.vrR, h.vrMs, h.vrH, h.vrX, h.vrMr, h.order, h.window, h.keys, h.complete,
    fun sn' segments found => ?_, fun sn' segments kept found nonempty => ?_⟩, h.lowMissing,
    h.statusMissing, h.timer⟩
  · dsimp only at found
    rw [OrderedMap.find_erase] at found
    split at found
    · contradiction
    · exact h.segmentSns sn' segments found
  · dsimp only at found
    rw [OrderedMap.find_erase] at found
    split at found
    · contradiction
    · rename_i other
      exact h.segments sn' segments ⟨kept, other⟩ found nonempty

theorem Core.weaken {fresh' : Nat → Prop} (h : rx.Core whole fresh) (fewer : ∀ sn, fresh' sn → fresh sn) :
    rx.Core whole fresh' :=
  ⟨h.vrR, h.vrMs, h.vrH, h.vrX, h.vrMr, h.order, h.window, h.keys, h.complete, h.segmentSns,
    fun sn segments kept => h.segments sn segments (fewer sn kept)⟩

def keepsOrder (rx : Rx) (header : PduHeader) : Bool :=
  rx.rxModBase header.sn < rx.rxModBase rx.vrH || header.so = 0 && header.lsf

theorem Inv.storeSegments (h : rx.Inv whole fresh) (hsn : sn < mod)
    (sns : ∀ s ∈ segments, s.header.sn = sn)
    (below : fresh sn → segments ≠ [] → rx.offset sn < rx.offset rx.vrH) :
    ({ rx with rxSegments := rx.rxSegments.insertOrAssign sn segments } : Rx).Inv whole fresh :=
  ⟨h.toCore.storeSegments hsn sns below, h.lowMissing, h.statusMissing, h.timer⟩

theorem dropOverlapped_single {segment : RxPdu} (first : segment.header.so = 0) :
    (dropOverlapped 0 [segment]).2 = true ∧
      ∀ back ∈ (dropOverlapped 0 [segment]).1.getLast?, back = segment := by
  unfold dropOverlapped
  rw [first, if_neg (Nat.lt_irrefl 0)]
  split <;> simp [dropOverlapped]

theorem Inv.addSegmentAndCheck (h : rx.Inv whole fresh) (hsn : sn < mod)
    (listed : rx.rxSegments.find sn = some segments) {segment : RxPdu}
    (own : segment.header.sn = sn)
    (keeps : fresh sn → rx.offset sn < rx.offset rx.vrH ∨ segment.header.so = 0 ∧ segment.header.lsf = true)
    {complete : Bool}
    (done : rx.addSegmentAndCheck sn segments segment = .ok (rx', sdus, complete)) :
    if complete then rx'.Inv whole (fun sn' => fresh sn' ∧ sn' ≠ sn) else rx'.Inv whole fresh := by
  have sns : ∀ s ∈ (dropOverlapped 0 (addSegment segment segments)).1, s.header.sn = sn := by
    intro s mem
    rcases mem_addSegment (dropOverlapped_subset _ _ mem) with rfl | mem
    · exact own
    · exact (h.segmentSns sn segments listed).2 s mem
  -- a list above `VR(H)` was empty, and holds the whole PDU now
  have below (kept : fresh sn) : rx.offset sn < rx.offset rx.vrH ∨
      (dropOverlapped 0 (addSegment segment segments)).2 = true ∧
        ∀ back ∈ (dropOverlapped 0 (addSegment segment segments)).1.getLast?, back.header.lsf = true := by
    refine or_iff_not_imp_left.mpr fun above => ?_
    obtain ⟨first, last⟩ := (keeps kept).resolve_left above
    have empty : segments = [] := by
      by_contra nonempty
      exact above (h.segments sn segments kept listed nonempty)
    rw [empty]
    obtain ⟨gapless, only⟩ := dropOverlapped_single first
    exact ⟨gapless, fun back mem => by rw [only back mem]; exact last⟩
  unfold Rx.addSegmentAndCheck at done
  dsimp only at sns below done
  split at done
  · rename_i gap
    cases done
    refine h.storeSegments hsn sns fun kept _ => ?_
    exact (below kept).resolve_right fun whole => by simp [whole.1] at gap
  · split at done
    · rename_i front back head last
      split at done
      · rename_i notLast
        cases done
        refine h.storeSegments hsn sns fun kept _ => ?_
        exact (below kept).resolve_right fun whole => by simp [whole.2 back last] at notLast
      · obtain ⟨header, rebuilt, done⟩ := bind_eq_ok.mp done
        obtain ⟨full, joined, done⟩ := bind_eq_ok.mp done
        obtain ⟨⟨rx'', sdus''⟩, handled, done⟩ := bind_eq_ok.mp done
        cases done
        obtain ⟨headerSn, dc⟩ := rebuildHeader_sn rebuilt
        rw [sns front (List.mem_of_mem_head? head)] at headerSn
        have fits := joinSegments_fits (Nat.zero_le _) joined
        have others : rx.Inv whole fun sn' => fresh sn' ∧ sn' ≠ sn :=
          ⟨h.toCore.weaken fun _ kept => kept.1, h.lowMissing, h.statusMissing, h.timer⟩
        refine (others.storeSegments hsn sns fun kept => absurd rfl kept.2).handleDataPduFull
          (headerSn ▸ hsn) dc (fun _ => ⟨?_, fun _ => fits⟩) handled
        simp [harmless, fits]
    · contradiction

theorem Inv.handleDataPduSegment (h : rx.Inv whole fresh) {payload : List Byte}
    (hsn : header.sn < mod)
    (keeps : fresh header.sn → rx.insideRxWindow header.sn = true → payload.length ≤ bufferTailroom →
      rx.rxSegments.contains header.sn = true → rx.keepsOrder header = true)
    (done : rx.handleDataPduSegment payload header = .ok (rx', sdus)) :
    rx'.Inv whole fresh := by
  unfold Rx.handleDataPduSegment at done
  split at done
  · cases done
    exact h.discard header
  · rename_i inside
    rw [Bool.not_eq_true, Bool.not_eq_false'] at inside
    have near : rx.offset header.sn < windowSize := by
      simpa [h.insideRxWindow_eq hsn] using inside
    split at done
    · cases done
      exact h
    · rename_i room
      split at done
      · rename_i segments listed
        obtain ⟨⟨rx'', sdus'', complete⟩, added, done⟩ := bind_eq_ok.mp done
        have result := (h.discard header).addSegmentAndCheck hsn listed rfl (fun kept => ?_) added
        · dsimp only at done
          cases complete with
          | true =>
            cases done
            exact result.eraseSegments
          | false =>
            cases done
            exact result
        · have order := keeps kept inside (Nat.not_lt.mp room) (by simp [OrderedMap.contains, listed])
          unfold keepsOrder at order
          rw [rxModBase_eq h.vrR _ hsn, rxModBase_eq h.vrR _ h.vrH] at order
          change rx.offset header.sn < rx.offset rx.vrH ∨ _
          simpa using order
      · cases done
        obtain ⟨edge, eq, raised⟩ := h.toCore.raiseHighest hsn near
        rw [raiseHighest_with eq]
        obtain ⟨pollReceived, doStatus, polled⟩ := poll_eq
          { rx with
            rxSegments := rx.rxSegments.insertOrAssign header.sn [⟨header, { msg := payload }⟩]
            vrH := edge } header
        rw [polled]
        have only : ∀ s ∈ [(⟨header, { msg := payload }⟩ : RxPdu)], s.header.sn = header.sn := by simp
        have listed := raised.toCore.storeSegments hsn only fun _ _ => raised.below
        exact ⟨listed.withFlags _ _, h.lowMissing, h.statusMissing, fun running =>
          ⟨(h.timer running).1, Nat.le_trans (h.timer running).2 raised.higher⟩⟩

def accepts (payload : Memory) (nofBytes : Nat) (cond : PduHeader → List Byte → Bool) : Bool :=
  match readDataPduHeader payload with
  | .error _ => true
  | .ok (header, headLen) =>
    nofBytes < headLen || cond header (payload.slice headLen (nofBytes - headLen))

def keepsSegments (rx : Rx) (header : PduHeader) (data : List Byte) : Bool :=
  !(header.rf && rx.insideRxWindow header.sn && data.length ≤ bufferTailroom &&
    rx.rxSegments.contains header.sn) || rx.keepsOrder header

def fits (rx : Rx) (header : PduHeader) (data : List Byte) : Bool :=
  !(!header.rf && rx.stores header data.length) || data.length ≤ bufferTailroom

def fitsOrHidden (rx : Rx) (header : PduHeader) (data : List Byte) : Bool :=
  !(!header.rf && rx.stores header data.length) || rx.harmless header.sn data.length

theorem fitsOrHidden_of_fits {data : List Byte} (ok : rx.fits header data = true) :
    rx.fitsOrHidden header data = true := by
  unfold fitsOrHidden harmless
  unfold fits at ok
  cases rf : header.rf <;> cases stored : rx.stores header data.length <;>
    simp_all

theorem Inv.writePdu (h : rx.Inv whole fresh) {payload : Memory} {nofBytes : Nat}
    (hidden : accepts payload nofBytes rx.fitsOrHidden = true)
    (kept : whole → accepts payload nofBytes rx.fits = true)
    (keeps : ∀ sn, fresh sn → accepts payload nofBytes rx.keepsSegments = true)
    (done : rx.writePdu payload nofBytes = .ok (rx', sdus)) : rx'.Inv whole fresh := by
  unfold Rx.writePdu at done
  split at done
  · cases done
    exact h
  · rename_i control
    obtain ⟨⟨header, headLen⟩, read, done⟩ := bind_eq_ok.mp done
    have hsn := readDataPduHeader_sn_lt read
    have dc := readDataPduHeader_dc (by simp at control; exact control.2) read
    unfold accepts at hidden kept keeps
    rw [read] at hidden kept keeps
    dsimp only at done hidden kept keeps
    split at done
    · cases done
      exact h
    · rename_i long
      simp only [decide_eq_false long] at hidden kept keeps
      generalize payload.slice headLen (nofBytes - headLen) = data at *
      split at done
      · rename_i rf
        refine h.handleDataPduSegment hsn (fun fresh inside room listed => ?_) done
        have keeps := keeps _ fresh
        unfold keepsSegments at keeps
        simpa [rf, inside, room, listed] using keeps
      · rename_i rf
        refine h.handleDataPduFull hsn dc (fun stores => ?_) done
        unfold fitsOrHidden at hidden
        unfold fits at kept
        simp only [rf, stores] at hidden kept
        exact ⟨by simpa using hidden, fun whole => by simpa using kept whole⟩

theorem firstMissing_congr {rx rx' : Rx} (same : rx'.rxWindow = rx.rxWindow) (fuel sn : Nat) :
    rx'.firstMissing fuel sn = rx.firstMissing fuel sn := by
  induction fuel generalizing sn with
  | zero => rfl
  | succ fuel ih =>
    unfold Rx.firstMissing
    rw [same, ih]

theorem Inv.timerExpired (h : rx.Inv whole fresh) (running : rx.reorderingTimerRunning = true) :
    rx.timerExpired.Inv whole fresh := by
  have bound := offset_lt rx rx.vrH
  have enough : rx.offset rx.vrH ≤ rx.offset rx.vrX + mod := by omega
  obtain ⟨hs, below, missing⟩ := h.firstMissing h.vrX (h.timer running).2 enough
  have moved : ({ rx with reorderingTimerRunning := false, vrMs := rx.firstMissing mod rx.vrX } : Rx).Core
      whole fresh :=
    ⟨h.vrR, hs, h.vrH, h.vrX, h.vrMr, below, h.window, h.keys, h.complete, h.segmentSns, h.segments⟩
  unfold Rx.timerExpired
  dsimp only
  rw [@firstMissing_congr rx { rx with reorderingTimerRunning := false, vrMs := rx.vrX } rfl]
  split
  · rename_i more
    refine ⟨⟨h.vrR, hs, h.vrH, h.vrH, h.vrMr, below, h.window, h.keys, h.complete, h.segmentSns,
      h.segments⟩, h.lowMissing, missing, fun _ => ⟨?_, Nat.le_refl _⟩⟩
    change 0 < rx.offset rx.vrH
    change rx.rxModBase _ < rx.rxModBase rx.vrH at more
    rw [rxModBase_eq h.vrR _ h.vrH] at more
    omega
  · exact ⟨moved.withFlags rx.pollReceived (rx.doStatus || rx.pollReceived), h.lowMissing, missing,
      fun running => by contradiction⟩

end Rx

inductive RxEvent where
  | writePdu (payload : Memory) (nofBytes : Nat)
  | timerExpired
  | getStatusPdu (maxPduSize : Nat)
  | stop

namespace Rx

/-- `none` when the source's behaviour is undefined, or when no timer runs that could expire. -/
def next (rx : Rx) : RxEvent → Option Rx
  | .writePdu payload nofBytes => (rx.writePdu payload nofBytes).toOption.map Prod.fst
  | .timerExpired => if rx.reorderingTimerRunning then some rx.timerExpired else none
  | .getStatusPdu maxPduSize => some (rx.getStatusPdu maxPduSize).1
  | .stop => some rx.stop

def onPdus (cond : Rx → PduHeader → List Byte → Bool) (rx : Rx) : RxEvent → Bool
  | .writePdu payload nofBytes => accepts payload nofBytes (cond rx)
  | _ => true

theorem inv_init : ({} : Rx).Inv whole fresh := by
  refine ⟨⟨by decide, by decide, by decide, by decide, by decide, Nat.le_refl _, by decide, ?_, ?_, ?_, ?_⟩,
    rfl, rfl, ?_⟩
  · intro sn pdu found
    contradiction
  · intro _ sn pdu found
    contradiction
  · intro sn segments found
    contradiction
  · intro sn segments _ found
    contradiction
  · intro running
    contradiction

theorem inv_of_reaches {allowed : Rx → RxEvent → Prop}
    (hidden : ∀ rx e, allowed rx e → onPdus fitsOrHidden rx e = true)
    (kept : whole → ∀ rx e, allowed rx e → onPdus fits rx e = true)
    (keeps : ∀ sn, fresh sn → ∀ rx e, allowed rx e → onPdus keepsSegments rx e = true)
    (run : Reaches next allowed {} rx) : rx.Inv whole fresh := by
  refine run.invariant inv_init fun rx e rx' h ok eq => ?_
  cases e with
  | writePdu payload nofBytes =>
    cases done : rx.writePdu payload nofBytes with
    | error fault => simp [next, done, Except.toOption] at eq
    | ok out =>
      obtain rfl : out.1 = rx' := by simpa [next, done, Except.toOption] using eq
      exact h.writePdu (hidden rx _ ok) (fun whole => kept whole rx _ ok)
        (fun sn fresh => keeps sn fresh rx _ ok) done
  | timerExpired =>
    dsimp only [next] at eq
    split at eq
    · rename_i running
      obtain rfl := Option.some.inj eq
      exact h.timerExpired running
    · contradiction
  | getStatusPdu maxPduSize =>
    obtain rfl := Option.some.inj eq
    unfold getStatusPdu
    split
    · exact h
    · exact h.withFlags false false
  | stop =>
    obtain rfl := Option.some.inj eq
    exact inv_init

end Rx

end IsrRan.Rlc.AmLte
