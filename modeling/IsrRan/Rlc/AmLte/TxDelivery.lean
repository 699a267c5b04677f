import IsrRan.Rlc.AmLte.TxCarry

namespace IsrRan.Rlc.AmLte
open Lib List

abbrev Tracker := OrderedMap Flight

namespace Tracker
open OrderedMap

def carry (t : Tracker) (sn : Nat) (sdu : TxSdu × Nat) : Tracker :=
  insertOrAssign t sdu.1.pdcpSn
    { pending := sn :: ((find t sdu.1.pdcpSn).map Flight.pending).getD []
      finished := sdu.2 = sdu.1.msg.length }

def carryAll (t : Tracker) (sn : Nat) (sdus : List (TxSdu × Nat)) : Tracker :=
  sdus.foldl (fun t sdu => carry t sn sdu) t

def rest (acked : Nat → Bool) (flight : Flight) : Option Flight :=
  if (flight.ack acked).delivered then none else some (flight.ack acked)

def acknowledge (t : Tracker) (acked : Nat → Bool) : Tracker := updateAll (rest acked) t

def completes (t : Tracker) (acked : Nat → Bool) (pdcpSn : Nat) : Bool :=
  match find t pdcpSn with
  | some flight => (flight.ack acked).delivered
  | none => false

variable {t : Tracker}

theorem find_carry (t : Tracker) (sn : Nat) (sdu : TxSdu × Nat) :
    find (t.carry sn sdu) = Flights.carry (find t) sn sdu := by
  funext p
  unfold carry Flights.carry
  rw [find_insertOrAssign, Function.update_apply]

theorem find_carryAll (t : Tracker) (sn : Nat) (sdus : List (TxSdu × Nat)) :
    find (t.carryAll sn sdus) = Flights.carryAll (find t) sn sdus := by
  induction sdus generalizing t with
  | nil => rfl
  | cons sdu sdus ih =>
    refine (ih (t.carry sn sdu)).trans ?_
    rw [find_carry]
    rfl

theorem sorted_carryAll (h : Sorted t) (sn : Nat) (sdus : List (TxSdu × Nat)) : Sorted (t.carryAll sn sdus) := by
  induction sdus generalizing t with
  | nil => exact h
  | cons sdu sdus ih => exact ih (h.insertOrAssign _ _)

theorem find_acknowledge (h : Sorted t) (acked : Nat → Bool) :
    find (t.acknowledge acked) = Flights.acknowledge (find t) acked := by
  funext p
  exact h.find_updateAll _ p

theorem completes_iff (t : Tracker) (acked : Nat → Bool) (p : Nat) :
    t.completes acked p = true ↔ (find t p).isSome = true ∧ Flights.acknowledge (find t) acked p = none := by
  unfold completes
  cases flying : find t p with
  | none => simp
  | some flight =>
    rw [Flights.acknowledge_of_some flying]
    simp

end Tracker

namespace Tx
open Adt Flights OrderedMap

variable {tx tx' : Tx}

def dataFields (pdu : TxPdu) : List Nat :=
  pdu.header.li ++ [(pdu.buf.getD []).length - pdu.header.li.sum]

def carriedSdus (tx tx' : Tx) : List (TxSdu × Nat) :=
  let popped := tx.txSduQueue.take (tx.txSduQueue.length - tx'.txSduQueue.length)
  match tx'.txWindow.find tx.vtS with
  | some pdu => (tx.txSdu.toList ++ popped.reduceOption).zip (dataFields pdu)
  | none => []

def reported (tx : Tx) (payload : Memory) (nofBytes : Nat) (stale : Memory) (sn : Nat) : Bool :=
  match readStatusPdu payload nofBytes stale with
  | .ok status => tx.txEnabled && tx.acknowledges status sn
  | .error _ => false

def ackedBy (tx : Tx) : TxEvent → Nat → Bool
  | .handleControlPdu payload nofBytes stale => tx.reported payload nofBytes stale
  | _ => fun _ => false

def observe (t : Tracker) (tx : Tx) (e : TxEvent) (tx' : Tx) : Tracker :=
  match e with
  | .readPdu .. =>
    if tx'.vtS = tx.vtS then t else t.carryAll tx.vtS (carriedSdus tx tx')
  | .handleControlPdu payload nofBytes stale => t.acknowledge (tx.reported payload nofBytes stale)
  | .emptyQueue => tx.txSdu.elim t fun sdu => erase t sdu.pdcpSn
  | .reestablish | .stop => []
  | _ => t

def nextTracked (s : Tx × Tracker) (e : TxEvent) : Option (Tx × Tracker) :=
  (s.1.next e).map fun tx' => (tx', observe s.2 s.1 e tx')

def accepts (tx : Tx) : Bool := tx.txEnabled && tx.txSduQueue.length < tx.cfg.txQueueLength

/-- An SDU from PDCP has bytes, and the SDUs in flight, in the queue or on their way, have PDCP SNs that
differ modulo 4096. -/
def distinctSns (s : Tx × Tracker) : TxEvent → Bool
  | .writeSdu sdu =>
    !s.1.accepts || !sdu.msg.isEmpty &&
      (s.1.txSduQueue.reduceOption.map TxSdu.pdcpSn ++ keys s.2).all fun p =>
        p % bufferedPdusSize ≠ sdu.pdcpSn % bufferedPdusSize
  | _ => true

/-- The sender is not stopped or reestablished while the segments of a status report are kept, but for one
that is being sent. -/
def deliverySafe (tx : Tx) : TxEvent → Bool
  | .reestablish | .stop =>
    !tx.undeliveredSdus.hasPdcpSn statusReportSn || tx.txSdu.any fun sdu => sdu.pdcpSn = statusReportSn
  | _ => true

/-- An event notifies PDCP of the SDUs that it completes, once and of no others, and they are not on their way
any more. -/
structure Notifies (s : Tx × Tracker) (e : TxEvent) (out : Outcome) : Prop where
  once : (delivered out.calls).Nodup
  exact : ∀ p, p ∈ delivered out.calls ↔ s.2.completes (s.1.ackedBy e) p = true
  gone : ∀ p ∈ delivered out.calls, find (observe s.2 s.1 e out.tx) p = none

variable {s : Tx × Tracker}

structure Tracked (s : Tx × Tracker) : Prop where
  window : s.1.WindowInv
  books : Books s.1 (find s.2)
  flying : Flying s.1 (find s.2)
  sorted : Sorted s.2
  empty : s.1.notifyInfoVec = []

variable {flights : Flights} {t : Tracker} {b : DataBuild} {sdus : List (TxSdu × Nat)}

theorem Flying.init (cfg : TxConfig) : Flying { cfg } fun _ => none where
  filled := fun sdu there => by contradiction
  queue := .nil
  waiting := fun sdu there => by contradiction
  apart := fun p q tracked => by contradiction
  live := fun p flight flying => by contradiction
  current := fun sdu now => by contradiction

theorem Tracked.init (cfg : TxConfig) : Tracked ({ cfg }, []) :=
  ⟨windowInv_init cfg, .init cfg, .init cfg, .nil, rfl⟩

theorem Flying.same (h : Flying tx flights) (sdu : tx'.txSdu = tx.txSdu)
    (queue : tx'.txSduQueue = tx.txSduQueue) : Flying tx' flights := by
  obtain ⟨filled, nodup, waiting, apart, live, current⟩ := h
  exact ⟨by rw [queue]; exact filled, by rw [queue]; exact nodup, by rw [queue]; exact waiting, apart, live,
    by rw [sdu]; exact current⟩

theorem Tracked.keeps (h : Tracked (tx, t)) (keeps : Keeps tx tx') : Tracked (tx', t) :=
  ⟨h.window.keeps keeps, h.books.keeps keeps, h.flying.same keeps.txSdu keeps.txSduQueue, h.sorted,
    keeps.notifyInfoVec.trans h.empty⟩

theorem Keeps.carriedSdus_eq (keeps : Keeps tx tx') (read : Tx) : carriedSdus tx read = carriedSdus tx' read := by
  unfold carriedSdus
  rw [keeps.vtS, keeps.txSdu, keeps.txSduQueue]

section
variable (h : DataBuild.Carrying tx flights b sdus)
include h

theorem DataBuild.Carrying.stored
    : ∃ pdu, (finishDataPdu b).1.txWindow.find tx.vtS = some pdu ∧
      pdu.header.li = b.header.li ∧ pdu.buf = some b.pdu := by
  obtain ⟨pdu, found⟩ := CircularMap.contains_eq_true.mp h.here
  rw [← h.sn] at found
  obtain ⟨p, fi, _, _, _, _, eq⟩ := finishDataPdu_eq b found
  refine ⟨{ pdu with header := { b.header with p, fi }, buf := some b.pdu }, ?_, rfl, rfl⟩
  rw [eq, ← h.sn]
  rw [CircularMap.find_assign (CircularMap.contains_eq_true.mpr ⟨pdu, found⟩), if_pos rfl]

theorem finishDataPdu_carried
    : carriedSdus tx (finishDataPdu b).1 = sdus := by
  obtain ⟨pdu, stored, li, buf⟩ := h.stored
  obtain ⟨popped, whole, taken⟩ := h.taken
  have queue : (finishDataPdu b).1.txSduQueue = b.tx.txSduQueue := by
    obtain ⟨own, found⟩ := CircularMap.contains_eq_true.mp h.here
    rw [← h.sn] at found
    obtain ⟨_, _, _, _, _, _, eq⟩ := finishDataPdu_eq b found
    rw [eq]
  have front : tx.txSduQueue.take (tx.txSduQueue.length - b.tx.txSduQueue.length) = popped := by
    rw [whole, length_append, Nat.add_sub_cancel, take_left]
  unfold carriedSdus
  rw [stored, queue, front]
  dsimp only [dataFields]
  rw [li, buf, Option.getD_some, ← taken]
  by_cases none : b.lastLi = 0
  · rw [h.start none]
    rfl
  · have lens := h.lens
    have bytes := h.bytes
    rw [if_pos (Nat.pos_of_ne_zero none)] at lens
    rw [lens, sum_append, sum_singleton] at bytes
    have last : b.pdu.length - b.header.li.sum = b.lastLi := by omega
    rw [last, ← lens]
    exact (zip_of_prod rfl rfl).symm

theorem DataBuild.Carrying.finish
    (fills : Fills tx.vtS (tx.addPdu tx.vtS) b.tx) :
    Books (finishDataPdu b).1 (flights.carryAll tx.vtS sdus) ∧
      Flying (finishDataPdu b).1 (flights.carryAll tx.vtS sdus) ∧
      (finishDataPdu b).1.vtS = (tx.vtS + 1) % mod ∧ (finishDataPdu b).1.notifyInfoVec = tx.notifyInfoVec := by
  obtain ⟨pdu, found⟩ := CircularMap.contains_eq_true.mp h.here
  rw [← h.sn] at found
  obtain ⟨p, fi, _, _, _, _, eq⟩ := finishDataPdu_eq b found
  have present := CircularMap.contains_eq_true.mpr ⟨pdu, found⟩
  rw [eq]
  refine ⟨h.books.congr rfl rfl fun sn => ?_, h.flying.same rfl rfl, ?_, fills.notifyInfoVec⟩
  · unfold segmentsAt
    rw [CircularMap.find_assign present]
    split
    · rename_i own
      rw [own, found]
      rfl
    · rfl
  · change (b.tx.vtS + 1) % mod = (tx.vtS + 1) % mod
    rw [fills.vtS]
    rfl

end

theorem Tracked.readPdu (h : Tracked (tx, t)) {rx : Rx} {ownsLock : Bool} {nofBytes : Nat} {read : Read}
    (done : tx.readPdu rx ownsLock nofBytes = .ok read) :
    Tracked (read.tx, if read.tx.vtS = tx.vtS then t else t.carryAll tx.vtS (carriedSdus tx read.tx)) := by
  have kept {tx₁ : Tx} (keeps : Keeps tx tx₁) : Tracked (tx₁,
      if tx₁.vtS = tx.vtS then t else t.carryAll tx.vtS (carriedSdus tx tx₁)) := by
    rw [if_pos keeps.vtS]
    exact h.keeps keeps
  rcases readPdu_cases done with keeps | ⟨tx₁, keeps, built⟩
  · exact kept keeps
  · have before := h.keeps keeps
    have window := before.window.built (buildDataPdu_built built)
    rcases buildDataPdu_carrying before.window before.books before.flying built with
      same | ⟨b, sdus, eq, fills, carrying⟩
    · rw [same]
      exact kept keeps
    · have carried : carriedSdus tx read.tx = sdus := by
        rw [eq, keeps.carriedSdus_eq, finishDataPdu_carried carrying]
      obtain ⟨books, flying, next, vec⟩ := carrying.finish fills
      rw [← eq] at books flying next vec
      have moved : read.tx.vtS ≠ tx.vtS := by
        rw [next, keeps.vtS]
        unfold mod at *
        omega
      rw [if_neg moved, carried]
      refine ⟨window, ?_, ?_, Tracker.sorted_carryAll h.sorted _ _, vec.trans before.empty⟩
      · rw [Tracker.find_carryAll, ← keeps.vtS]
        exact books
      · rw [Tracker.find_carryAll, ← keeps.vtS]
        exact flying

theorem Flying.acknowledge (h : Flying tx flights) (acked : Nat → Bool) (sdu : tx'.txSdu = tx.txSdu)
    (queue : tx'.txSduQueue = tx.txSduQueue) : Flying tx' (flights.acknowledge acked) := by
  refine ⟨by rw [queue]; exact h.filled, by rw [queue]; exact h.queue, ?_, ?_, acknowledge_live _ _, ?_⟩
  · rw [queue]
    exact fun sdu' there p still => h.waiting sdu' there p (isSome_of_acknowledge still)
  · exact fun p q still still' => h.apart p q (isSome_of_acknowledge still) (isSome_of_acknowledge still')
  · rw [sdu]
    intro sdu' now
    obtain ⟨filled, flight, flying, going⟩ := h.current sdu' now
    refine ⟨filled, flight.ack acked, ?_, going⟩
    rw [acknowledge_of_some flying]
    simp [Flight.delivered, Flight.ack, going]

theorem Tracked.handleControlPdu (h : Tracked (tx, t)) {payload stale : Memory} {nofBytes : Nat}
    {calls : List TxCall} (handled : tx.handleControlPdu payload nofBytes stale = .ok (tx', calls)) :
    (tx'.WindowInv → Tracked (tx', t.acknowledge (tx.reported payload nofBytes stale))) ∧ (delivered calls).Nodup ∧
      ∀ p, p ∈ delivered calls ↔ t.completes (tx.reported payload nofBytes stale) p = true := by
  have reached (acked : Nat → Bool) (books : Books tx' (Flights.acknowledge (find t) acked))
      (sdus : tx'.txSdu = tx.txSdu ∧ tx'.txSduQueue = tx.txSduQueue) (empty : tx'.notifyInfoVec = [])
      (window : tx'.WindowInv) : Tracked (tx', t.acknowledge acked) := by
    refine ⟨window, ?_, ?_, h.sorted.updateAll _, empty⟩
    · rw [Tracker.find_acknowledge h.sorted]
      exact books
    · rw [Tracker.find_acknowledge h.sorted]
      exact h.flying.acknowledge acked sdus.1 sdus.2
  simp only [Tracker.completes_iff]
  unfold Tx.handleControlPdu at handled
  split at handled
  · rename_i disabled
    cases handled
    have none (sn : Nat) : tx.reported payload nofBytes stale sn = false := by
      have off : tx.txEnabled = false := by simpa using disabled
      unfold reported
      rw [off]
      split <;> rfl
    have same : Flights.acknowledge (find t) (tx.reported payload nofBytes stale) = find t :=
      h.flying.live.acknowledge_none fun _ _ _ sn _ => none sn
    refine ⟨reached _ (by rw [same]; exact h.books) ⟨rfl, rfl⟩ h.empty, .nil, fun p => ?_⟩
    rw [same]
    cases find t p <;> simp [delivered]
  · rename_i enabled
    obtain ⟨status, read, handled⟩ := bind_eq_ok.mp handled
    have on : tx.reported payload nofBytes stale = tx.acknowledges status := by
      have on : tx.txEnabled = true := by simpa using enabled
      unfold reported
      rw [read, on]
      rfl
    obtain ⟨books, sdus, empty, nodup, exact⟩ :=
      h.books.handleStatus h.window h.flying.live h.flying.apart h.empty handled
    rw [on]
    exact ⟨reached _ books sdus empty, nodup, exact⟩

theorem Tracked.writeSdu (h : Tracked (tx, t)) {sdu : TxSdu}
    (distinct : distinctSns (tx, t) (.writeSdu sdu) = true) : Tracked (tx.writeSdu sdu, t) := by
  cases accepted : tx.accepts with
  | false =>
    have same : tx.writeSdu sdu = tx := by
      exact if_neg (by unfold accepts at accepted; simp [accepted])
    rw [same]
    exact h
  | true =>
    have queued : tx.writeSdu sdu = { tx with txSduQueue := tx.txSduQueue ++ [some sdu] } := if_pos accepted
    unfold distinctSns at distinct
    simp only [accepted, Bool.not_true, Bool.false_or, Bool.and_eq_true, Bool.not_eq_true', isEmpty_eq_false_iff,
      all_append, all_eq_true, decide_eq_true_eq] at distinct
    obtain ⟨filled, others, tracked⟩ := distinct
    have all : (tx.txSduQueue ++ [some sdu]).reduceOption = tx.txSduQueue.reduceOption ++ [sdu] := by
      rw [reduceOption_append]
      rfl
    have mem {sdu' : TxSdu} (there : some sdu' ∈ tx.txSduQueue ++ [some sdu]) :
        some sdu' ∈ tx.txSduQueue ∨ sdu' = sdu := by
      simpa using there
    rw [queued]
    refine ⟨h.window.same rfl rfl rfl rfl, h.books.congr rfl rfl fun _ => rfl,
      ⟨fun sdu' there => ?_, ?_, fun sdu' there p flying => ?_, h.flying.apart, h.flying.live, h.flying.current⟩,
      h.sorted, h.empty⟩
    · rcases mem there with old | rfl
      · exact h.flying.filled sdu' old
      · exact filled
    · dsimp only
      rw [all, map_append]
      refine List.nodup_append.mpr ⟨h.flying.queue, nodup_singleton _, fun k old k' last same => ?_⟩
      obtain ⟨sdu', there, rfl⟩ := List.mem_map.mp old
      rw [List.mem_singleton.mp last] at same
      exact others _ (mem_map_of_mem there) same
    · rcases mem there with old | rfl
      · exact h.flying.waiting sdu' old p flying
      · exact tracked p (mem_keys.mpr flying)

theorem discardFirst_sublist (pdcpSn : Nat) (queue : List (Option TxSdu)) :
    (discardFirst pdcpSn queue).reduceOption.Sublist queue.reduceOption := by
  induction queue with
  | nil => exact .refl _
  | cons first queue ih =>
    cases first with
    | none => exact ih
    | some sdu =>
      unfold discardFirst
      split
      · exact sublist_cons_self _ _
      · exact ih.cons_cons sdu

theorem Tracked.discardSdu (h : Tracked (tx, t)) (pdcpSn : Nat) : Tracked (tx.discardSdu pdcpSn, t) := by
  unfold Tx.discardSdu
  split
  · have sub := discardFirst_sublist pdcpSn tx.txSduQueue
    have mem {sdu : TxSdu} (there : some sdu ∈ discardFirst pdcpSn tx.txSduQueue) : some sdu ∈ tx.txSduQueue :=
      List.reduceOption_mem_iff.mp (sub.subset (List.reduceOption_mem_iff.mpr there))
    exact ⟨h.window.same rfl rfl rfl rfl, h.books.congr rfl rfl fun _ => rfl,
      ⟨fun sdu there => h.flying.filled sdu (mem there), h.flying.queue.sublist (sub.map _),
        fun sdu there => h.flying.waiting sdu (mem there), h.flying.apart, h.flying.live, h.flying.current⟩,
      h.sorted, h.empty⟩
  · exact h

theorem Tracked.emptyQueue (h : Tracked (tx, t)) :
    Tracked (tx.emptyQueue, tx.txSdu.elim t fun sdu => erase t sdu.pdcpSn) := by
  obtain ⟨pool, undelivered, eq⟩ := emptyQueue_eq tx
  have books := h.books.emptyQueue fun sdu now => by
    obtain ⟨_, flight, flying, _⟩ := h.flying.current sdu now
    rw [flying]
    rfl
  have window : tx.emptyQueue.WindowInv := by
    rw [eq]
    exact h.window.same rfl rfl rfl rfl
  have empty : tx.emptyQueue.notifyInfoVec = [] := by
    rw [eq]
    exact h.empty
  have emptied {flights : Flights} (sub : ∀ p flight, flights p = some flight → find t p = some flight) :
      Flying tx.emptyQueue flights := by
    have tracked {p : Nat} (flying : (flights p).isSome = true) : (find t p).isSome = true := by
      obtain ⟨flight, flying⟩ := Option.isSome_iff_exists.mp flying
      rw [sub p flight flying]
      rfl
    rw [eq]
    exact ⟨fun sdu there => by contradiction, .nil, fun sdu there => by contradiction,
      fun p q its its' => h.flying.apart p q (tracked its) (tracked its'),
      fun p flight flying => h.flying.live p flight (sub p flight flying), fun sdu now => by contradiction⟩
  cases now : tx.txSdu with
  | none =>
    rw [now] at books
    exact ⟨window, books, emptied fun p flight => id, h.sorted, empty⟩
  | some sdu =>
    have erased : find (erase t sdu.pdcpSn) = Function.update (find t) sdu.pdcpSn none := by
      funext p
      rw [find_erase, Function.update_apply]
    rw [now] at books
    refine ⟨window, ?_, ?_, h.sorted.filter _, empty⟩
    · change Books tx.emptyQueue (find (erase t sdu.pdcpSn))
      rw [erased]
      exact books
    · refine emptied fun p flight flying => ?_
      change find (erase t sdu.pdcpSn) p = some flight at flying
      rw [find_erase] at flying
      split at flying
      · contradiction
      · exact flying

theorem Tracked.stop (h : Tracked (tx, t)) (safe : tx.deliverySafe .stop = true) :
    Tracked (tx.stop, []) := by
  have emptied := h.emptyQueue
  have report : find (tx.txSdu.elim t fun sdu => erase t sdu.pdcpSn) statusReportSn = none := by
    unfold deliverySafe BufferedPdcpPduList.hasPdcpSn at safe
    simp only [Bool.or_eq_true, h.books.tracked] at safe
    rcases safe with untracked | sending
    · have absent : find t statusReportSn = none := by simpa using untracked
      cases tx.txSdu with
      | none => exact absent
      | some sdu =>
        change find (erase t sdu.pdcpSn) statusReportSn = none
        rw [find_erase, absent]
        split <;> rfl
    · cases now : tx.txSdu with
      | none =>
        rw [now] at sending
        contradiction
      | some sdu =>
        have own : sdu.pdcpSn = statusReportSn := by simpa [now] using sending
        change find (erase t sdu.pdcpSn) statusReportSn = none
        rw [find_erase, if_pos own.symm]
  have init := Tracked.init tx.cfg
  have empty : tx.stop.notifyInfoVec = [] := emptied.empty
  exact ⟨init.window.same rfl rfl rfl rfl, emptied.books.stop h.window.wellFormed report, init.flying.same rfl rfl,
    .nil, empty⟩

theorem Tracked.step (h : Tracked s) {e : TxEvent} (distinct : distinctSns s e = true)
    (safe : s.1.deliverySafe e = true) {out : Outcome} (stepped : s.1.step e = some (.ok out)) :
    Tracked (out.tx, observe s.2 s.1 e out.tx) := by
  obtain ⟨tx, t⟩ := s
  have window := h.window.step stepped
  cases e with
  | writeSdu sdu =>
    cases stepped
    exact h.writeSdu distinct
  | discardSdu pdcpSn =>
    cases stepped
    exact h.discardSdu pdcpSn
  | readPdu rx ownsLock nofBytes =>
    obtain ⟨read, done, rfl⟩ := map_eq_ok.mp (Option.some.inj stepped)
    exact h.readPdu done
  | pollRetxTimerExpired =>
    dsimp only [Tx.step] at stepped
    split at stepped
    · obtain ⟨⟨tx₁, calls⟩, expired, rfl⟩ := map_eq_ok.mp (Option.some.inj stepped)
      exact h.keeps (keeps_pollRetxTimerExpired expired)
    · contradiction
  | statusProhibitTimerExpired =>
    dsimp only [Tx.step] at stepped
    split at stepped
    · cases stepped
      exact h.keeps (keeps_with tx _ _ _ _ _)
    · contradiction
  | handleControlPdu payload nofBytes stale =>
    obtain ⟨⟨tx₁, calls⟩, handled, rfl⟩ := map_eq_ok.mp (Option.some.inj stepped)
    exact (h.handleControlPdu handled).1 window
  | getBufferState =>
    obtain ⟨tx₁, got, rfl⟩ := map_eq_ok.mp (Option.some.inj stepped)
    exact h.keeps (keeps_getBufferState got)
  | emptyQueue =>
    cases stepped
    exact h.emptyQueue
  | reestablish =>
    cases stepped
    have stopped := h.stop safe
    change Tracked ({ tx.stop with txEnabled := true }, [])
    generalize tx.stop = tx₁ at stopped
    exact ⟨stopped.window.same rfl rfl rfl rfl, stopped.books.congr rfl rfl fun _ => rfl,
      stopped.flying.same rfl rfl, .nil, stopped.empty⟩
  | stop =>
    cases stepped
    exact h.stop safe

theorem Tracked.completes_nothing (h : Tracked s) (p : Nat) : s.2.completes (fun _ => false) p = false := by
  unfold Tracker.completes
  cases flying : find s.2 p with
  | none => rfl
  | some flight =>
    dsimp only
    rw [Flight.ack_none fun _ _ => rfl]
    exact h.flying.live p flight flying

theorem Tracked.notifies (h : Tracked s) {e : TxEvent} {out : Outcome} (stepped : s.1.step e = some (.ok out)) :
    Notifies s e out := by
  have quiet (silent : delivered out.calls = []) (nothing : s.1.ackedBy e = fun _ => false) : Notifies s e out := by
    refine ⟨by rw [silent]; exact .nil, fun p => ?_, fun p mem => ?_⟩
    · rw [silent, nothing, h.completes_nothing p]
      simp
    · rw [silent] at mem
      contradiction
  cases e with
  | handleControlPdu payload nofBytes stale =>
    obtain ⟨⟨tx₁, calls⟩, handled, rfl⟩ := map_eq_ok.mp (Option.some.inj stepped)
    obtain ⟨_, nodup, exact⟩ := h.handleControlPdu handled
    refine ⟨nodup, exact, fun p mem => ?_⟩
    change find (s.2.acknowledge _) p = none
    rw [Tracker.find_acknowledge h.sorted]
    exact ((Tracker.completes_iff _ _ p).mp ((exact p).mp mem)).2
  | readPdu rx ownsLock nofBytes =>
    obtain ⟨read, done, rfl⟩ := map_eq_ok.mp (Option.some.inj stepped)
    exact quiet (readPdu_delivered done) rfl
  | pollRetxTimerExpired =>
    dsimp only [Tx.step] at stepped
    split at stepped
    · obtain ⟨⟨tx₁, calls⟩, expired, rfl⟩ := map_eq_ok.mp (Option.some.inj stepped)
      exact quiet (pollRetxTimerExpired_delivered expired) rfl
    · contradiction
  | statusProhibitTimerExpired =>
    dsimp only [Tx.step] at stepped
    split at stepped
    · cases stepped
      exact quiet rfl rfl
    · contradiction
  | getBufferState =>
    obtain ⟨tx₁, got, rfl⟩ := map_eq_ok.mp (Option.some.inj stepped)
    exact quiet rfl rfl
  | writeSdu sdu =>
    cases stepped
    exact quiet rfl rfl
  | discardSdu pdcpSn =>
    cases stepped
    exact quiet rfl rfl
  | emptyQueue =>
    cases stepped
    exact quiet rfl rfl
  | reestablish =>
    cases stepped
    exact quiet rfl rfl
  | stop =>
    cases stepped
    exact quiet rfl rfl

def deliveryAllowed (s : Tx × Tracker) (e : TxEvent) : Bool := distinctSns s e && s.1.deliverySafe e

theorem tracked_of_reaches {cfg : TxConfig}
    (run : Reaches nextTracked (fun s e => deliveryAllowed s e = true) ({ cfg }, []) s) : Tracked s := by
  refine run.invariant (.init cfg) fun s e s' h allowed eq => ?_
  obtain ⟨distinct, safe⟩ := Bool.and_eq_true_iff.mp allowed
  obtain ⟨tx', next, rfl⟩ := Option.map_eq_some_iff.mp eq
  obtain ⟨out, stepped, rfl⟩ := next_eq_some next
  exact h.step distinct safe stepped

theorem notifies_of_reaches {cfg : TxConfig}
    (run : Reaches nextTracked (fun s e => deliveryAllowed s e = true) ({ cfg }, []) s) {e : TxEvent} {out : Outcome}
    (stepped : s.1.step e = some (.ok out)) : Notifies s e out := (tracked_of_reaches run).notifies stepped

def firstAck : TxEvent := .handleControlPdu (.ofList [0, 4]) 2 (.ofList [])

def sentRun : List TxEvent := [.writeSdu ⟨7, [1]⟩, .readPdu {} true 3]

theorem notifies_of_reaches_sentRun :
    ∃ (s : Tx × Tracker) (out : Outcome), runAllowed nextTracked deliveryAllowed ({}, []) sentRun = some s ∧
      s.1.step firstAck = some (.ok out) ∧ delivered out.calls = [7] ∧ Notifies s firstAck out := by
  have run : ∃ (s : Tx × Tracker) (out : Outcome),
      runAllowed nextTracked deliveryAllowed ({}, []) sentRun = some s ∧
        s.1.step firstAck = some (.ok out) ∧ delivered out.calls = [7] := ⟨_, _, rfl, rfl, rfl⟩
  obtain ⟨s, out, run, stepped, calls⟩ := run
  exact ⟨s, out, run, stepped, calls, notifies_of_reaches (reaches_of_runAllowed sentRun run) stepped⟩

def cutOffRun : List TxEvent :=
  [.writeSdu ⟨statusReportSn, [1]⟩, .readPdu {} true 3, .reestablish, .writeSdu ⟨statusReportSn, [1]⟩,
    .readPdu {} true 3]

theorem cutOffRun_stays_silent :
    ¬ ∀ (cfg : TxConfig) (s : Tx × Tracker), Reaches nextTracked (fun s e => distinctSns s e = true) ({ cfg }, []) s →
      ∀ e out, s.1.step e = some (.ok out) → Notifies s e out := by
  intro notifies
  have run : ((runAllowed nextTracked distinctSns ({}, []) cutOffRun).bind fun s =>
      (s.1.step firstAck).map fun result => (result.toOption.map fun out => delivered out.calls,
        s.2.completes (s.1.ackedBy firstAck) statusReportSn)) = some (some [], true) := by decide +kernel
  obtain ⟨s, run, acked⟩ := Option.bind_eq_some_iff.mp run
  obtain ⟨result, stepped, eq⟩ := Option.map_eq_some_iff.mp acked
  obtain ⟨calls, completes⟩ := Prod.mk.inj eq
  obtain ⟨out, ok, silent⟩ := Option.map_eq_some_iff.mp calls
  have stepped : s.1.step firstAck = some (.ok out) := by
    rw [stepped]
    cases result with
    | error fault => cases ok
    | ok out' => rw [Option.some.inj ok]
  have exact := (notifies {} s (reaches_of_runAllowed cutOffRun run) firstAck out stepped).exact statusReportSn
  rw [completes, silent] at exact
  exact not_mem_nil (exact.mpr rfl)

end Tx

end IsrRan.Rlc.AmLte
