import IsrRan.Rlc.UmNr.RxVariables
import Mathlib.Logic.Relation

namespace IsrRan.Rlc.UmNr
open Lib OrderedMap

/-- The loop of `handle_rx_buffer_update` between two iterations: `pdu.segments` are the segments it
went past, `rest` those from the iterator on. -/
structure SegmentLoop where
  pdu : UmdPduSegments
  rest : OrderedMap UmdPdu

namespace SegmentLoop

inductive Exit where
  | atEnd (pdu : UmdPduSegments)
  | sduComplete (pdu : UmdPduSegments)
  -- the segment does not fit the SDU buffer; the log line reads through the null pointer `rx_sdu`
  | tailroom
  | nullSdu

inductive Iteration where
  | erased (loop : SegmentLoop)
  | advanced (loop : SegmentLoop)
  | left (exit : Exit)
  | stayed

def iterate (loop : SegmentLoop) : Iteration :=
  match loop.rest with
  | [] => .left (.atEnd loop.pdu)
  | (so, rxPdu) :: rest =>
    if rxPdu.header.so = loop.pdu.nextExpectedSo then
      if loop.pdu.nextExpectedSo = 0 then
        match loop.pdu.sdu with
        | none =>
          .erased ⟨{ loop.pdu with sdu := some rxPdu.buf, nextExpectedSo := rxPdu.buf.nBytes }, rest⟩
        -- the test inside, that the offsets differ, is the negation of the one around it
        | some _ => .stayed
      else
        match loop.pdu.sdu with
        | none => .left .nullSdu
        | some sdu =>
          if sdu.getTailroom < rxPdu.buf.nBytes then .left .tailroom
          else
            let pdu := { loop.pdu with
              sdu := some { sdu with msg := sdu.msg ++ rxPdu.buf.msg }
              nextExpectedSo := loop.pdu.nextExpectedSo + rxPdu.buf.nBytes }
            if pdu.nextExpectedSo = pdu.totalSduLength then
              .left (.sduComplete { pdu with segments := pdu.segments ++ rest })
            else .erased ⟨pdu, rest⟩
    else .advanced ⟨{ loop.pdu with segments := loop.pdu.segments ++ [(so, rxPdu)] }, rest⟩

def Iteration.next : Iteration → Option SegmentLoop
  | erased loop => some loop
  | advanced loop => some loop
  | left _ => none
  | stayed => none

def Visits : SegmentLoop → SegmentLoop → Prop :=
  Relation.ReflTransGen fun loop later => loop.iterate.next = some later

def Ends (loop : SegmentLoop) : Prop := ∃ last exit, loop.Visits last ∧ last.iterate = .left exit

def Progresses (loop : SegmentLoop) : Prop := ∀ later, loop.Visits later → later.iterate ≠ .stayed

variable {loop later : SegmentLoop}

theorem rest_length_of_next (eq : loop.iterate.next = some later) :
    loop.rest.length = later.rest.length + 1 := by
  obtain ⟨pdu, rest⟩ := loop
  cases rest with
  | nil => cases eq
  | cons entry rest =>
    unfold iterate at eq
    dsimp only at eq
    repeat' split at eq
    all_goals first | cases eq; done | (cases eq; rfl)

theorem eq_of_visits_of_next (stuck : loop.iterate.next = none) (visits : loop.Visits later) :
    later = loop := by
  cases Relation.ReflTransGen.cases_head visits with
  | inl same => exact same.symm
  | inr more =>
    obtain ⟨_, eq, _⟩ := more
    rw [stuck] at eq
    cases eq

theorem Ends.progresses (h : loop.Ends) : loop.Progresses := by
  intro later visits stayed
  obtain ⟨last, exit, reached, left⟩ := h
  have unique : Relator.RightUnique fun loop later : SegmentLoop => loop.iterate.next = some later :=
    fun _ _ _ eq eq' => Option.some.inj (eq.symm.trans eq')
  have same : later = last := by
    rcases Relation.ReflTransGen.total_of_right_unique unique reached visits with after | before
    · exact eq_of_visits_of_next (by rw [left]; rfl) after
    · exact (eq_of_visits_of_next (by rw [stayed]; rfl) before).symm
  rw [same, left] at stayed
  cases stayed

theorem Progresses.ends (h : loop.Progresses) : loop.Ends := by
  induction size : loop.rest.length using Nat.strongRecOn generalizing loop with
  | ind n ih =>
    have moved : ∀ next, loop.iterate.next = some next → loop.Ends := by
      intro next eq
      have first : loop.Visits next := Relation.ReflTransGen.single eq
      have shorter := rest_length_of_next eq
      obtain ⟨last, exit, visits, left⟩ :=
        ih next.rest.length (by omega) (fun later visits => h later (first.trans visits)) rfl
      exact ⟨last, exit, first.trans visits, left⟩
    cases eq : loop.iterate with
    | erased next => exact moved next (by rw [eq]; rfl)
    | advanced next => exact moved next (by rw [eq]; rfl)
    | left exit => exact ⟨loop, exit, Relation.ReflTransGen.refl, eq⟩
    | stayed => exact absurd eq (h loop Relation.ReflTransGen.refl)

def Exit.outcome : Exit → Option (Bool × UmdPduSegments)
  | atEnd pdu => some (false, pdu)
  | sduComplete pdu => some (true, pdu)
  | tailroom => none
  | nullSdu => none

theorem rest_of_atEnd {pdu : UmdPduSegments} (left : loop.iterate = .left (.atEnd pdu)) :
    loop = ⟨pdu, []⟩ := by
  obtain ⟨here, rest⟩ := loop
  cases rest with
  | nil =>
    cases left
    rfl
  | cons entry rest =>
    unfold iterate at left
    dsimp only at left
    repeat' split at left
    all_goals cases left

theorem assemble_of_left {exit : Exit} (left : loop.iterate = .left exit) :
    Rx.assemble loop.pdu loop.rest = exit.outcome := by
  obtain ⟨pdu, rest⟩ := loop
  cases rest with
  | nil =>
    cases left
    rfl
  | cons entry rest =>
    unfold iterate at left
    unfold Rx.assemble
    dsimp only at left ⊢
    repeat' split at left
    all_goals first | cases left; done | (cases left; simp_all [Exit.outcome])

theorem assemble_of_next (eq : loop.iterate.next = some later) :
    Rx.assemble loop.pdu loop.rest = Rx.assemble later.pdu later.rest := by
  obtain ⟨pdu, rest⟩ := loop
  cases rest with
  | nil => cases eq
  | cons entry rest =>
    unfold iterate at eq
    conv_lhs => unfold Rx.assemble
    dsimp only at eq ⊢
    repeat' split at eq
    all_goals first | cases eq; done | (cases eq; simp_all)

theorem assemble_of_stayed (stayed : loop.iterate = .stayed) : Rx.assemble loop.pdu loop.rest = none := by
  obtain ⟨pdu, rest⟩ := loop
  cases rest with
  | nil => cases stayed
  | cons entry rest =>
    unfold iterate at stayed
    unfold Rx.assemble
    dsimp only at stayed ⊢
    repeat' split at stayed
    all_goals first | cases stayed; done | simp_all

theorem assemble_of_visits (visits : loop.Visits later) :
    Rx.assemble loop.pdu loop.rest = Rx.assemble later.pdu later.rest := by
  induction visits with
  | refl => rfl
  | tail _ eq ih => exact ih.trans (assemble_of_next eq)

theorem progresses_of_assemble {out : Bool × UmdPduSegments}
    (assembled : Rx.assemble loop.pdu loop.rest = some out) : loop.Progresses := by
  intro later visits stayed
  rw [assemble_of_visits visits, assemble_of_stayed stayed] at assembled
  cases assembled

structure Clean (loop : SegmentLoop) : Prop where
  sorted : (loop.pdu.segments ++ loop.rest).Sorted
  offsets : ∀ entry ∈ loop.pdu.segments ++ loop.rest, entry.2.header.so = entry.1
  absorbed : ∀ sdu, loop.pdu.sdu = some sdu → loop.pdu.nextExpectedSo = sdu.nBytes
  single : loop.pdu.sdu.isSome = true → loop.pdu.nextExpectedSo = 0 →
    ∀ entry ∈ loop.pdu.segments ++ loop.rest, entry.1 ≠ 0

section
variable (h : loop.Clean)
include h

theorem Clean.not_stayed : loop.iterate ≠ .stayed := by
  obtain ⟨pdu, rest⟩ := loop
  intro stayed
  cases rest with
  | nil => cases stayed
  | cons entry rest =>
    unfold iterate at stayed
    dsimp only at stayed
    repeat' split at stayed
    all_goals first | cases stayed; done | skip
    rename_i here zero _ _ held
    have offset : entry.2.header.so = entry.1 := h.offsets entry (by simp)
    refine h.single (by simp [held]) zero entry (by simp) ?_
    omega

theorem Clean.next (eq : loop.iterate.next = some later) : later.Clean := by
  obtain ⟨pdu, rest⟩ := loop
  cases rest with
  | nil => cases eq
  | cons entry rest =>
    obtain ⟨sorted, offsets, absorbed, single⟩ := h
    have fewer : ∀ other ∈ pdu.segments ++ rest, other ∈ pdu.segments ++ entry :: rest := by
      simp +contextual [or_imp]
    have sorted' : (pdu.segments ++ rest).Sorted :=
      sorted.sublist (List.Sublist.append_left (List.sublist_cons_self entry rest) pdu.segments)
    unfold iterate at eq
    dsimp only at eq
    repeat' split at eq
    all_goals first | cases eq; done | cases eq
    · rename_i here zero _ fresh
      have first : entry.1 = 0 := (offsets entry (by simp)).symm.trans (here.trans zero)
      refine ⟨sorted', fun other mem => offsets other (fewer other mem), by simp, fun _ _ => ?_⟩
      obtain ⟨_, behind, before⟩ := List.pairwise_append.mp sorted
      intro other mem
      rcases List.mem_append.mp mem with earlier | behind'
      · have := before other earlier entry (by simp)
        omega
      · have := (List.pairwise_cons.mp behind).1 other behind'
        omega
    · rename_i here started _ sdu held fits more
      have counted := absorbed sdu held
      refine ⟨sorted', fun other mem => offsets other (fewer other mem), ?_, ?_⟩
      · intro sdu' eq
        cases eq
        change pdu.nextExpectedSo + entry.2.buf.nBytes = (sdu.msg ++ entry.2.buf.msg).length
        rw [List.length_append]
        exact congrArg (· + entry.2.buf.nBytes) counted
      · intro _ none
        dsimp only at none
        omega
    · have same : pdu.segments ++ [(entry.1, entry.2)] ++ rest = pdu.segments ++ entry :: rest := by simp
      exact ⟨same ▸ sorted, same ▸ offsets, absorbed, same ▸ single⟩

theorem Clean.visits (visits : loop.Visits later) : later.Clean := by
  induction visits with
  | refl => exact h
  | tail _ eq ih => exact ih.next eq

theorem Clean.ends : loop.Ends :=
  Progresses.ends fun _ visits => (h.visits visits).not_stayed

theorem Clean.assemble {pdu : UmdPduSegments}
    (pending : Rx.assemble loop.pdu loop.rest = some (false, pdu)) : Clean ⟨pdu, []⟩ := by
  obtain ⟨last, exit, visits, left⟩ := h.ends
  rw [assemble_of_visits visits, assemble_of_left left] at pending
  cases exit with
  | atEnd out =>
    cases pending
    rw [← rest_of_atEnd left]
    exact h.visits visits
  | sduComplete out => cases pending
  | tailroom => cases pending
  | nullSdu => cases pending

end

theorem not_progresses_of_repeated {sdu : ByteBuffer} {rxPdu : UmdPdu} {rest : OrderedMap UmdPdu}
    (begun : loop.pdu.sdu = some sdu) (unmoved : loop.pdu.nextExpectedSo = 0)
    (first : loop.rest = (0, rxPdu) :: rest) (offset : rxPdu.header.so = 0) : ¬ loop.Progresses := by
  intro progress
  refine progress loop Relation.ReflTransGen.refl ?_
  unfold iterate
  rw [first]
  dsimp only
  rw [begun, unmoved, if_pos offset, if_pos rfl]

end SegmentLoop

namespace Rx

variable {rx rx' : Rx}

def buffersPdu (rx : Rx) (header : PduHeader) : Bool :=
  header.si ≠ .fullSdu && !rx.snInvalidForRxBuffer header.sn

def segmentLoop (rx : Rx) (payload : List Byte) (behind : List Byte := []) : Option SegmentLoop :=
  let header := (readDataPduHeader (payload ++ behind) rx.snSize).2
  if rx.buffersPdu header then
    ((rx.place ⟨header, stripPduHeader header payload⟩).rxWindow.find header.sn).map
      fun pdu => ⟨{ pdu with segments := [] }, pdu.segments⟩
  else none

def repeatsEmptySegment (rx : Rx) (payload : List Byte) (behind : List Byte := []) : Bool :=
  let header := (readDataPduHeader (payload ++ behind) rx.snSize).2
  rx.buffersPdu header && header.so = 0 &&
    ((rx.rxWindow.find header.sn).bind UmdPduSegments.sdu).any fun sdu => sdu.nBytes = 0

def EntriesClean (rx : Rx) : Prop :=
  ∀ sn entry, rx.rxWindow.find sn = some entry → SegmentLoop.Clean ⟨entry, []⟩

variable {rxPdu : UmdPdu} {pdu : UmdPduSegments} {sn : Nat}

section
variable (h : rx.EntriesClean)
include h

theorem EntriesClean.ofWindow (same : rx'.rxWindow = rx.rxWindow) :
    rx'.EntriesClean := by
  intro sn entry found
  exact h sn entry (same ▸ found)

theorem EntriesClean.filter (keep : Nat → Bool) :
    ({ rx with rxWindow := rx.rxWindow.filter (fun entry => keep entry.1) } : Rx).EntriesClean := by
  intro sn entry found
  rw [find_filter] at found
  split at found
  · exact h sn entry found
  · contradiction

theorem EntriesClean.moveWindow (sn : Nat) : (rx.moveWindow sn).EntriesClean := by
  unfold Rx.moveWindow
  split
  · exact h
  · refine ofWindow ?_ (moveNextReassembly_rxWindow _)
    have moved : ({ rx with rxNextHighest := (sn + 1) % rx.mod } : Rx).EntriesClean := h
    exact moved.filter fun sn' => ({ rx with rxNextHighest := (sn + 1) % rx.mod } : Rx).snInReassemblyWindow sn'

theorem EntriesClean.timerExpired (expired : rx.timerExpired = some rx') :
    rx'.EntriesClean := by
  unfold Rx.timerExpired at expired
  split at expired
  · obtain rfl := Option.some.inj expired
    refine ofWindow ?_ (startReassemblyTimer_rxWindow _)
    generalize caught : catchUpReassembly _ _ = rx₁
    have held : rx₁.EntriesClean := h.ofWindow (by rw [← caught, catchUpReassembly_rxWindow])
    exact held.filter fun sn => !decide (rx₁.modBase sn < rx₁.modBase rx₁.rxNextReassembly)
  · contradiction

theorem EntriesClean.entryFor (sn : Nat) :
    SegmentLoop.Clean ⟨(rx.rxWindow.find sn).getD {}, []⟩ := by
  cases found : rx.rxWindow.find sn with
  | none => exact ⟨List.Pairwise.nil, by simp, by simp, by simp⟩
  | some entry => exact h sn entry found

end

theorem updateTotalSduLength_eq (pdu : UmdPduSegments) (rxPdu : UmdPdu) :
    ∃ total, pdu.updateTotalSduLength rxPdu = { pdu with totalSduLength := total } := by
  unfold UmdPduSegments.updateTotalSduLength
  split
  · exact ⟨_, rfl⟩
  · exact ⟨pdu.totalSduLength, rfl⟩

theorem find_place_self (rx : Rx) (rxPdu : UmdPdu) :
    ∃ total, (rx.place rxPdu).rxWindow.find rxPdu.header.sn =
      some { (rx.rxWindow.find rxPdu.header.sn).getD {} with
        totalSduLength := total
        segments := ((rx.rxWindow.find rxPdu.header.sn).getD {}).segments.emplace rxPdu.header.so rxPdu } := by
  obtain ⟨total, eq⟩ := updateTotalSduLength_eq ((rx.rxWindow.find rxPdu.header.sn).getD {}) rxPdu
  refine ⟨total, ?_⟩
  unfold Rx.place
  rw [find_insertOrAssign, if_pos rfl, eq]

theorem EntriesClean.place (h : rx.EntriesClean)
    (single : rxPdu.header.so = 0 →
      ((rx.rxWindow.find rxPdu.header.sn).bind UmdPduSegments.sdu).any (fun sdu => sdu.nBytes = 0) = false)
    (found : (rx.place rxPdu).rxWindow.find rxPdu.header.sn = some pdu) :
    SegmentLoop.Clean ⟨{ pdu with segments := [] }, pdu.segments⟩ := by
  obtain ⟨total, eq⟩ := find_place_self rx rxPdu
  rw [eq] at found
  cases found
  have old := h.entryFor rxPdu.header.sn
  have begun : ∀ sdu, ((rx.rxWindow.find rxPdu.header.sn).getD {}).sdu = some sdu →
      (rx.rxWindow.find rxPdu.header.sn).bind UmdPduSegments.sdu = some sdu := by
    cases rx.rxWindow.find rxPdu.header.sn <;> simp
  obtain ⟨sorted, offsets, absorbed, alone⟩ := old
  simp only [List.append_nil] at sorted offsets alone
  refine ⟨sorted.emplace _ _, ?_, absorbed, ?_⟩
  · intro other mem
    rcases mem_emplace mem with rfl | mem
    · rfl
    · exact offsets other mem
  · intro held unmoved other mem
    rcases mem_emplace mem with rfl | mem
    · intro zero
      obtain ⟨sdu, held⟩ := Option.isSome_iff_exists.mp held
      have := single zero
      rw [begun sdu held] at this
      have counted := absorbed sdu held
      dsimp only at unmoved counted
      simp [← counted, unmoved] at this
    · exact alone held unmoved other mem

theorem entriesClean_handleRxBufferUpdate
    (others : ∀ sn' entry, sn' ≠ sn → rx.rxWindow.find sn' = some entry → SegmentLoop.Clean ⟨entry, []⟩)
    (found : rx.rxWindow.find sn = some pdu)
    (clean : SegmentLoop.Clean ⟨{ pdu with segments := [] }, pdu.segments⟩) {sdus : List Sdu}
    (update : rx.handleRxBufferUpdate sn = some (rx', sdus)) : rx'.EntriesClean := by
  unfold Rx.handleRxBufferUpdate at update
  rw [found] at update
  dsimp only at update
  split at update
  · contradiction
  · simp only [Option.some.injEq] at update
    obtain ⟨rfl, -⟩ := update
    have erased : ({ rx with rxWindow := rx.rxWindow.erase sn } : Rx).EntriesClean := by
      intro sn' entry here
      rw [OrderedMap.find_erase] at here
      split at here
      · contradiction
      · rename_i different
        exact others sn' entry different here
    exact erased.ofWindow (by simp)
  · rename_i out pending
    obtain ⟨rfl, -⟩ := update
    have kept : ({ rx with rxWindow := rx.rxWindow.insertOrAssign sn out } : Rx).EntriesClean := by
      intro sn' entry here
      rw [find_insertOrAssign] at here
      split at here
      · cases here
        exact clean.assemble pending
      · rename_i different
        exact others sn' entry different here
    exact (kept.moveWindow sn).ofWindow (by simp)

theorem progresses_of_update {out : Rx × List Sdu}
    (found : rx.rxWindow.find sn = some pdu) (update : rx.handleRxBufferUpdate sn = some out) :
    SegmentLoop.Progresses ⟨{ pdu with segments := [] }, pdu.segments⟩ := by
  unfold Rx.handleRxBufferUpdate at update
  rw [found] at update
  cases assembled : assemble { pdu with segments := [] } pdu.segments with
  | none => simp [assembled] at update
  | some out => exact SegmentLoop.progresses_of_assemble assembled

theorem find_place_other (different : sn ≠ rxPdu.header.sn) :
    (rx.place rxPdu).rxWindow.find sn = rx.rxWindow.find sn := by
  unfold Rx.place
  rw [find_insertOrAssign, if_neg different]

theorem EntriesClean.not_progresses_place (h : rx.EntriesClean) (offset : rxPdu.header.so = 0)
    (begun : ((rx.rxWindow.find rxPdu.header.sn).bind UmdPduSegments.sdu).any (fun sdu => sdu.nBytes = 0) = true)
    (found : (rx.place rxPdu).rxWindow.find rxPdu.header.sn = some pdu) :
    ¬ SegmentLoop.Progresses ⟨{ pdu with segments := [] }, pdu.segments⟩ := by
  obtain ⟨total, eq⟩ := find_place_self rx rxPdu
  rw [eq] at found
  cases found
  obtain ⟨sdu, held, empty⟩ := (Option.any_eq_true _ _).mp begun
  obtain ⟨entry, there, held⟩ := Option.bind_eq_some_iff.mp held
  obtain ⟨sorted, offsets, absorbed, alone⟩ := h _ entry there
  simp only [List.append_nil] at sorted offsets alone
  have unmoved : entry.nextExpectedSo = 0 := (absorbed sdu held).trans (of_decide_eq_true empty)
  rw [there, offset]
  obtain ⟨first, mem⟩ := exists_mem_emplace entry.segments 0 rxPdu
  obtain ⟨rest, eq⟩ := (sorted.emplace 0 rxPdu).eq_cons_of_mem_zero mem
  refine SegmentLoop.not_progresses_of_repeated held unmoved eq ?_
  rcases mem_emplace mem with same | old
  · cases same
    exact offset
  · exact offsets _ old

theorem EntriesClean.segmentLoop_progresses_iff (h : rx.EntriesClean) (payload behind : List Byte) :
    (∀ loop, rx.segmentLoop payload behind = some loop → loop.Progresses) ↔
      rx.repeatsEmptySegment payload behind = false := by
  unfold segmentLoop repeatsEmptySegment
  dsimp only
  generalize (readDataPduHeader (payload ++ behind) rx.snSize).2 = header
  cases buffered : rx.buffersPdu header with
  | false => simp
  | true =>
    obtain ⟨total, found⟩ := find_place_self rx ⟨header, stripPduHeader header payload⟩
    rw [found]
    simp only [Bool.true_and, Bool.and_eq_false_iff, decide_eq_false_iff_not]
    constructor
    · intro progresses
      by_cases offset : header.so = 0
      · refine Or.inr (Bool.eq_false_iff.mpr fun begun => ?_)
        exact h.not_progresses_place offset begun found (progresses _ rfl)
      · exact Or.inl offset
    · intro unlike loop eq
      cases eq
      have single : header.so = 0 → _ := fun offset => unlike.resolve_left (not_not_intro offset)
      exact (h.place single found).ends.progresses

theorem EntriesClean.handleDataPdu (h : rx.EntriesClean) {payload behind : List Byte} {sdus : List Sdu}
    (done : rx.handleDataPdu payload behind = some (rx', sdus)) : rx'.EntriesClean := by
  have iff := h.segmentLoop_progresses_iff payload behind
  unfold Rx.handleDataPdu at done
  unfold segmentLoop repeatsEmptySegment at iff
  dsimp only at done iff
  generalize (readDataPduHeader (payload ++ behind) rx.snSize).2 = header at done iff
  split at done
  · obtain ⟨rfl, -⟩ := Prod.mk.inj (Option.some.inj done)
    exact h
  · rename_i segment
    split at done
    · obtain ⟨rfl, -⟩ := Prod.mk.inj (Option.some.inj done)
      exact h
    · rename_i valid
      have buffered : rx.buffersPdu header = true := by simp [buffersPdu, segment, valid]
      obtain ⟨total, found⟩ := find_place_self rx ⟨header, stripPduHeader header payload⟩
      rw [found, buffered] at iff
      have progresses := progresses_of_update found done
      have unlike := iff.mp fun loop eq => Option.some.inj eq ▸ progresses
      have clean := h.place (fun offset => by simpa [show header.so = 0 from offset] using unlike) found
      refine entriesClean_handleRxBufferUpdate (fun sn entry different here => ?_) found clean done
      rw [find_place_other different] at here
      exact h sn entry here

theorem entriesClean_of_reaches {snSize : SnSize}
    (run : Reaches next (fun _ _ => True) { snSize } rx) : rx.EntriesClean := by
  refine run.invariant (fun sn entry found => by cases found) fun rx e rx' h _ eq => ?_
  cases e with
  | receive payload behind =>
    obtain ⟨_, done, rfl⟩ := Option.map_eq_some_iff.mp eq
    exact h.handleDataPdu done
  | timerExpired => exact h.timerExpired eq

theorem segmentLoop_ends_iff {snSize : SnSize} (run : Reaches next (fun _ _ => True) { snSize } rx)
    (payload behind : List Byte) :
    (∀ loop, rx.segmentLoop payload behind = some loop → loop.Ends ∧ loop.Progresses) ↔
      rx.repeatsEmptySegment payload behind = false := by
  rw [← (entriesClean_of_reaches run).segmentLoop_progresses_iff payload behind]
  exact ⟨fun h loop eq => (h loop eq).2, fun h loop eq => ⟨(h loop eq).ends, h loop eq⟩⟩

def retransmittedRun : List RxEvent :=
  [.receive [0x45, 1, 2], .receive [0x45, 1, 2], .receive [0x85, 0, 2, 3]]

theorem segmentLoop_ends_retransmittedRun :
    ∃ rx : Rx, runAllowed next (fun _ _ => true) { snSize := .size6bits } retransmittedRun = some rx ∧
      ∀ loop, rx.segmentLoop [0x46] = some loop → loop.Ends ∧ loop.Progresses := by
  have run : ∃ rx : Rx, runAllowed next (fun _ _ => true) { snSize := .size6bits } retransmittedRun = some rx ∧
      rx.repeatsEmptySegment [0x46] = false := ⟨_, rfl, rfl⟩
  obtain ⟨rx, run, unlike⟩ := run
  have reached := (reaches_of_runAllowed retransmittedRun run).mono fun _ _ _ => trivial
  exact ⟨rx, run, (segmentLoop_ends_iff reached [0x46] []).mpr unlike⟩

theorem emptySegmentTwice_stays :
    ¬ ∀ (snSize : SnSize) (rx : Rx), Reaches next (fun _ _ => True) { snSize } rx →
      ∀ payload behind loop, rx.segmentLoop payload behind = some loop → loop.Ends := by
  intro ends
  have run : ∃ rx : Rx, runAllowed next (fun _ _ => true) { snSize := .size6bits } [.receive [0x40]] = some rx ∧
      ∃ loop, rx.segmentLoop [0x40] = some loop ∧ loop.iterate = .stayed := ⟨_, rfl, _, rfl, rfl⟩
  obtain ⟨rx, run, loop, eq, stayed⟩ := run
  have reached := (reaches_of_runAllowed [RxEvent.receive [0x40]] run).mono fun _ _ _ => trivial
  exact (ends .size6bits rx reached [0x40] [] loop eq).progresses loop Relation.ReflTransGen.refl stayed

end Rx

end IsrRan.Rlc.UmNr
