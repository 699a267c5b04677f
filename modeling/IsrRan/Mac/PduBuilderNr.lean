import IsrRan.Adt.Bounded
import IsrRan.Lib.Transition
import IsrRan.Mac.SchPduNr

/-! The MAC CEs and LCIDs that `ue_buffer_manager::pdu_builder` puts in a DL PDU. -/

namespace IsrRan.Mac.Nr
open List Nat BoundedVector

def maxLcId : Nat := 31
def maxSubpdus : Nat := 8
def ccch : Nat := 0

structure Ce where
  lcid : Nat
  cc : Nat
  isCe : maxLcId < lcid
  deriving DecidableEq, Repr

structure LogicalChannel where
  isDl : Bool := false
  bufTx : Nat := 0
  bufPrioTx : Nat := 0
  deriving DecidableEq, Repr

structure UeBufferManager where
  channels : Fin (maxLcId + 1) → LogicalChannel := fun _ => {}
  pendingCes : List Ce := []

abbrev DlPdu := BoundedVector Nat maxSubpdus

namespace UeBufferManager
variable (parent : UeBufferManager)

def getDlTxTotal (lcid : Fin (maxLcId + 1)) : Nat :=
  if (parent.channels lcid).isDl then
    ((parent.channels lcid).bufTx + (parent.channels lcid).bufPrioTx) % 2 ^ 32
  else 0

def dlBufferState (lcid txQueue prioTxQueue : Nat) : UeBufferManager :=
  { parent with
    channels := fun l =>
      if l.val = lcid then { parent.channels l with bufPrioTx := prioTxQueue, bufTx := txQueue }
      else parent.channels l }

/-- `ue::add_dl_mac_ce`; `cc` is the carrier of the first cell. -/
def addDlMacCe (ceLcid : Nat) (isCe : maxLcId < ceLcid) (nofCmds cc : Nat) : UeBufferManager :=
  { parent with pendingCes := parent.pendingCes ++ replicate nofCmds ⟨ceLcid, cc, isCe⟩ }

end UeBufferManager

section
variable (cc : Nat)

/-- The loop over the pending CEs. The range is that of the queue before the first removal, and what is
removed is the front of the queue as it has become. -/
def allocCes : List Ce → List Ce → Nat → DlPdu → Except Fault (List Ce × Nat × DlPdu)
  | [], queue, remBytes, pdu => .ok (queue, remBytes, pdu)
  | ce :: later, queue, remBytes, pdu =>
    if ce.cc = cc then
      if sizeofCe false ce.lcid > remBytes then .ok (queue, remBytes, pdu)
      else do
        let pdu ← pdu.pushBack ce.lcid
        let queue ← popFront queue
        allocCes later queue (remBytes - sizeofCe false ce.lcid) pdu
    else allocCes later queue remBytes pdu

variable (parent : UeBufferManager)

def allocLcids : List (Fin (maxLcId + 1)) → Nat → DlPdu → Except Fault (DlPdu × Bool)
  | [], _, pdu => .ok (pdu, true)
  | lcid :: later, remBytes, pdu =>
    if remBytes = 0 then .ok (pdu, true)
    else if lcid.val = ccch ∧ parent.getDlTxTotal lcid > remBytes then do
      let pdu ← pdu.pushBack lcid.val
      .ok (pdu, false)
    else if parent.getDlTxTotal lcid > 0 then do
      let pdu ← pdu.pushBack lcid.val
      allocLcids later (remBytes - min remBytes (parent.getDlTxTotal lcid)) pdu
    else allocLcids later remBytes pdu

def allocSubpdus (remBytes : Nat) (pdu : DlPdu) : Except Fault (UeBufferManager × DlPdu × Bool) := do
  let (queue, remBytes, pdu) ← allocCes cc parent.pendingCes parent.pendingCes remBytes pdu
  let (pdu, whole) ← allocLcids parent (finRange (maxLcId + 1)) remBytes pdu
  return ({ parent with pendingCes := queue }, pdu, whole)

end

/-! ### What fits -/

section
variable {α : Type} (size : α → Nat)

def fitting : Nat → List α → List α
  | _, [] => []
  | left, item :: later => if size item > left then [] else item :: fitting (left - size item) later

theorem fitting_initial (left : Nat) (items : List α) : fitting size left items <+: items := by
  induction items generalizing left with
  | nil => exact prefix_refl []
  | cons item later ih =>
    unfold fitting
    split
    · exact nil_prefix
    · exact (prefix_cons_inj item).mpr (ih _)

def reached : Nat → List α → List α
  | _, [] => []
  | left, item :: later =>
    if left = 0 then []
    else if size item > 0 then item :: reached (left - size item) later
    else reached left later

theorem reached_zero (items : List α) : reached size 0 items = [] := by
  cases items <;> rfl

end

section
variable (cc : Nat)

def sizeofPending (ce : Ce) : Nat := sizeofCe false ce.lcid

def own (queue : List Ce) : List Ce := queue.filter (fun ce => ce.cc = cc)

def fittingCes (queue : List Ce) (remBytes : Nat) : List Ce := fitting sizeofPending remBytes (own cc queue)

theorem own_cons_of_eq {ce : Ce} {queue : List Ce} (same : ce.cc = cc) : own cc (ce :: queue) = ce :: own cc queue := by
  simp [own, same]

theorem own_cons_of_ne {ce : Ce} {queue : List Ce} (other : ce.cc ≠ cc) : own cc (ce :: queue) = own cc queue := by
  simp [own, other]

def leftAfter (queue : List Ce) (remBytes : Nat) : Nat :=
  remBytes - ((fittingCes cc queue remBytes).map sizeofPending).sum

variable {cc : Nat} {ce : Ce} {later queue : List Ce} {remBytes : Nat} {pdu : DlPdu}

theorem fittingCes_of_large (same : ce.cc = cc) (large : sizeofCe false ce.lcid > remBytes) :
    fittingCes cc (ce :: later) remBytes = [] := by
  rw [fittingCes, own_cons_of_eq cc same]
  exact if_pos large

theorem fittingCes_of_fits (same : ce.cc = cc) (fits : ¬ sizeofCe false ce.lcid > remBytes) :
    fittingCes cc (ce :: later) remBytes = ce :: fittingCes cc later (remBytes - sizeofCe false ce.lcid) := by
  rw [fittingCes, own_cons_of_eq cc same]
  exact if_neg fits

theorem fittingCes_of_other (other : ce.cc ≠ cc) :
    fittingCes cc (ce :: later) remBytes = fittingCes cc later remBytes := by
  rw [fittingCes, own_cons_of_ne cc other, fittingCes]

theorem allocCes_ok (within : later.length ≤ queue.length)
    (room : pdu.toList.length + (fittingCes cc later remBytes).length ≤ maxSubpdus) :
    ∃ pdu', allocCes cc later queue remBytes pdu =
        .ok (queue.drop (fittingCes cc later remBytes).length, leftAfter cc later remBytes, pdu') ∧
      pdu'.toList = pdu.toList ++ (fittingCes cc later remBytes).map Ce.lcid := by
  induction later generalizing queue remBytes pdu with
  | nil => exact ⟨pdu, rfl, (append_nil _).symm⟩
  | cons ce later ih =>
    unfold allocCes
    by_cases same : ce.cc = cc
    · rw [if_pos same]
      by_cases large : sizeofCe false ce.lcid > remBytes
      · rw [if_pos large, leftAfter, fittingCes_of_large same large]
        exact ⟨pdu, rfl, (append_nil _).symm⟩
      · have next := @fittingCes_of_fits cc ce later remBytes same large
        rw [if_neg large, leftAfter, next]
        rw [next, length_cons] at room
        obtain ⟨front, queue, rfl⟩ := exists_cons_of_length_pos (Nat.lt_of_lt_of_le (succ_pos _) within)
        obtain ⟨pushed, push, content⟩ := pushBack_of_lt (v := pdu) ce.lcid (by omega)
        obtain ⟨pdu', run, lcids⟩ := @ih queue (remBytes - sizeofCe false ce.lcid) pushed
          (le_of_succ_le_succ within) (by rw [content, length_append, length_singleton]; omega)
        refine ⟨pdu', ?_, ?_⟩
        · simp only [push, popFront, bind, Except.bind, run, length_cons, drop_succ_cons, map_cons,
            sum_cons, leftAfter, sizeofPending, Nat.sub_sub]
        · rw [lcids, content, map_cons, append_assoc, singleton_append]
    · have next := @fittingCes_of_other cc ce later remBytes same
      rw [if_neg same, leftAfter, next]
      rw [next] at room
      exact ih (le_of_succ_le within) room

theorem allocCes_overflows (within : later.length ≤ queue.length)
    (full : maxSubpdus < pdu.toList.length + (fittingCes cc later remBytes).length) :
    allocCes cc later queue remBytes pdu = .error .assertionFailed := by
  induction later generalizing queue remBytes pdu with
  | nil => exact absurd full (Nat.not_lt.mpr pdu.length_le)
  | cons ce later ih =>
    unfold allocCes
    by_cases same : ce.cc = cc
    · rw [if_pos same]
      by_cases large : sizeofCe false ce.lcid > remBytes
      · rw [fittingCes_of_large same large] at full
        exact absurd full (Nat.not_lt.mpr pdu.length_le)
      · rw [fittingCes_of_fits same large, length_cons] at full
        rw [if_neg large]
        by_cases room : pdu.toList.length < maxSubpdus
        · obtain ⟨front, queue, rfl⟩ := exists_cons_of_length_pos (Nat.lt_of_lt_of_le (succ_pos _) within)
          obtain ⟨pushed, push, content⟩ := pushBack_of_lt (v := pdu) ce.lcid room
          simp only [push]
          apply ih (le_of_succ_le_succ within)
          rw [content, length_append, length_singleton]
          omega
        · rw [pushBack_of_le _ (Nat.not_lt.mp room)]
          rfl
    · rw [fittingCes_of_other same] at full
      rw [if_neg same]
      exact ih (le_of_succ_le within) full

end

section
variable {parent : UeBufferManager} {lcids : List (Fin (maxLcId + 1))} {remBytes : Nat} {pdu : DlPdu}

theorem allocLcids_ok
    (room : pdu.toList.length + (reached parent.getDlTxTotal remBytes lcids).length ≤ maxSubpdus) :
    ∃ pdu' whole, allocLcids parent lcids remBytes pdu = .ok (pdu', whole) ∧
      pdu'.toList = pdu.toList ++ (reached parent.getDlTxTotal remBytes lcids).map Fin.val := by
  induction lcids generalizing remBytes pdu with
  | nil => exact ⟨pdu, true, rfl, (append_nil _).symm⟩
  | cons lcid later ih =>
    unfold allocLcids reached
    unfold reached at room
    by_cases empty : remBytes = 0
    · rw [if_pos empty, if_pos empty]
      exact ⟨pdu, true, rfl, (append_nil _).symm⟩
    rw [if_neg empty, if_neg empty]
    rw [if_neg empty] at room
    by_cases pending : parent.getDlTxTotal lcid > 0
    · rw [if_pos pending, length_cons] at room
      obtain ⟨pushed, push, content⟩ := pushBack_of_lt (v := pdu) lcid.val (by omega)
      rw [push]
      by_cases whole : lcid.val = ccch ∧ parent.getDlTxTotal lcid > remBytes
      · -- A CCCH that takes all that is left: no LCID is reached behind it.
        rw [if_pos whole, Nat.sub_eq_zero_of_le (Nat.le_of_lt whole.2), reached_zero]
        exact ⟨pushed, false, rfl, by rw [content, if_pos pending]; rfl⟩
      · have taken : remBytes - min remBytes (parent.getDlTxTotal lcid) =
            remBytes - parent.getDlTxTotal lcid := by omega
        rw [if_neg whole, if_pos pending, if_pos pending, taken]
        obtain ⟨pdu', whole', run, list⟩ := @ih (remBytes - parent.getDlTxTotal lcid) pushed
          (by rw [content, length_append, length_singleton]; omega)
        refine ⟨pdu', whole', run, ?_⟩
        rw [list, content, map_cons, append_assoc, singleton_append]
    · have silent : ¬ (lcid.val = ccch ∧ parent.getDlTxTotal lcid > remBytes) := fun large => pending (by omega)
      rw [if_neg pending] at room
      rw [if_neg silent, if_neg pending, if_neg pending]
      exact ih room

theorem allocLcids_overflows
    (full : maxSubpdus < pdu.toList.length + (reached parent.getDlTxTotal remBytes lcids).length) :
    allocLcids parent lcids remBytes pdu = .error .assertionFailed := by
  induction lcids generalizing remBytes pdu with
  | nil => exact absurd full (Nat.not_lt.mpr pdu.length_le)
  | cons lcid later ih =>
    unfold allocLcids
    unfold reached at full
    by_cases empty : remBytes = 0
    · rw [if_pos empty] at full
      exact absurd full (Nat.not_lt.mpr pdu.length_le)
    rw [if_neg empty] at full
    rw [if_neg empty]
    by_cases pending : parent.getDlTxTotal lcid > 0
    · rw [if_pos pending, length_cons] at full
      rw [if_pos pending]
      by_cases room : pdu.toList.length < maxSubpdus
      · obtain ⟨pushed, push, content⟩ := pushBack_of_lt (v := pdu) lcid.val room
        have taken : remBytes - min remBytes (parent.getDlTxTotal lcid) =
            remBytes - parent.getDlTxTotal lcid := by omega
        have whole : ¬ (lcid.val = ccch ∧ parent.getDlTxTotal lcid > remBytes) := by
          intro whole
          rw [Nat.sub_eq_zero_of_le (Nat.le_of_lt whole.2), reached_zero, length_nil] at full
          omega
        rw [if_neg whole, push, taken]
        apply ih
        rw [content, length_append, length_singleton]
        omega
      · rw [pushBack_of_le _ (Nat.not_lt.mp room)]
        split <;> rfl
    · have silent : ¬ (lcid.val = ccch ∧ parent.getDlTxTotal lcid > remBytes) := fun large => pending (by omega)
      rw [if_neg pending] at full
      rw [if_neg silent, if_neg pending]
      exact ih full

end

section
variable (cc : Nat) (parent : UeBufferManager) (remBytes : Nat)

def servedLcids : List (Fin (maxLcId + 1)) :=
  reached parent.getDlTxTotal (leftAfter cc parent.pendingCes remBytes) (finRange (maxLcId + 1))

def nofSubpdus : Nat :=
  (fittingCes cc parent.pendingCes remBytes).length + (servedLcids cc parent remBytes).length

variable {cc parent remBytes}

theorem allocSubpdus_ok (room : nofSubpdus cc parent remBytes ≤ maxSubpdus) :
    ∃ pdu whole, allocSubpdus cc parent remBytes .empty =
        .ok ({ parent with
          pendingCes := parent.pendingCes.drop (fittingCes cc parent.pendingCes remBytes).length }, pdu, whole) ∧
      pdu.toList = (fittingCes cc parent.pendingCes remBytes).map Ce.lcid ++
        (servedLcids cc parent remBytes).map Fin.val := by
  unfold nofSubpdus at room
  obtain ⟨pdu, ces, content⟩ := @allocCes_ok cc parent.pendingCes parent.pendingCes remBytes .empty
    (Nat.le_refl _) (by rw [empty_toList, length_nil]; omega)
  rw [empty_toList, nil_append] at content
  obtain ⟨pdu', whole, lcids, content'⟩ := @allocLcids_ok parent (finRange (maxLcId + 1))
    (leftAfter cc parent.pendingCes remBytes) pdu
    (by rw [content, length_map]; exact room)
  refine ⟨pdu', whole, ?_, by rw [content', content]; rfl⟩
  simp only [allocSubpdus, bind, Except.bind, ces, lcids]
  rfl

theorem allocSubpdus_overflows (full : maxSubpdus < nofSubpdus cc parent remBytes) :
    allocSubpdus cc parent remBytes .empty = .error .assertionFailed := by
  unfold allocSubpdus
  by_cases room : (fittingCes cc parent.pendingCes remBytes).length ≤ maxSubpdus
  · obtain ⟨pdu, ces, content⟩ := @allocCes_ok cc parent.pendingCes parent.pendingCes remBytes .empty
      (Nat.le_refl _) (by rw [empty_toList, length_nil]; omega)
    rw [empty_toList, nil_append] at content
    have lcids := @allocLcids_overflows parent (finRange (maxLcId + 1))
      (leftAfter cc parent.pendingCes remBytes) pdu
      (by rw [content, length_map]; exact full)
    simp only [bind, Except.bind, ces, lcids]
  · have ces := @allocCes_overflows cc parent.pendingCes parent.pendingCes remBytes .empty
      (Nat.le_refl _) (by rw [empty_toList]; omega)
    rw [ces]
    rfl

end
/-! The queue of CEs that the PDU builders of a UE share, over whole runs. -/

inductive CeEvent where
  | addDlMacCe (ceLcid : Nat) (isCe : maxLcId < ceLcid) (nofCmds cc : Nat)
  | dlBufferState (lcid txQueue prioTxQueue : Nat)
  | allocSubpdus (cc remBytes : Nat)

/-- A UE with the CEs it was ever given and the subPDUs of every DL PDU, under the carrier that built it. -/
structure CeRun where
  buffers : UeBufferManager
  added : List Ce
  sent : List (Nat × List Nat)

namespace CeRun

def start (buffers : UeBufferManager) : CeRun := ⟨buffers, buffers.pendingCes, []⟩

def step (run : CeRun) : CeEvent → Except Fault CeRun
  | .addDlMacCe ceLcid isCe nofCmds cc =>
    .ok { run with
      buffers := run.buffers.addDlMacCe ceLcid isCe nofCmds cc
      added := run.added ++ replicate nofCmds ⟨ceLcid, cc, isCe⟩ }
  | .dlBufferState lcid txQueue prioTxQueue =>
    .ok { run with buffers := run.buffers.dlBufferState lcid txQueue prioTxQueue }
  | .allocSubpdus cc remBytes => do
    let (buffers, pdu, _) ← Nr.allocSubpdus cc run.buffers remBytes .empty
    return { run with
      buffers := buffers
      sent := run.sent ++ [(cc, pdu.toList)] }

def sentOn (run : CeRun) (cc : Nat) : List Nat :=
  ((run.sent.filter (fun pdu => pdu.1 = cc)).map (fun pdu => pdu.2.filter (fun lcid => maxLcId < lcid))).flatten

def SentOnce (run : CeRun) : Prop :=
  ∀ cc, run.sentOn cc ++ (own cc run.buffers.pendingCes).map Ce.lcid = (own cc run.added).map Ce.lcid

def Clear (run : CeRun) : CeEvent → Prop
  | .allocSubpdus cc remBytes =>
    (∀ ce ∈ run.buffers.pendingCes.take (fittingCes cc run.buffers.pendingCes remBytes).length, ce.cc = cc) ∧
      nofSubpdus cc run.buffers remBytes ≤ maxSubpdus
  | _ => True

theorem start_sentOnce (buffers : UeBufferManager) : (start buffers).SentOnce := fun _ => rfl

section
variable {run : CeRun} {cc other remBytes : Nat}

theorem own_append (cc : Nat) (front back : List Ce) : own cc (front ++ back) = own cc front ++ own cc back :=
  filter_append ..

theorem own_of_all {ces : List Ce} (all : ∀ ce ∈ ces, ce.cc = cc) : own cc ces = ces :=
  List.filter_eq_self.mpr fun ce mem => decide_eq_true (all ce mem)

theorem own_of_none {ces : List Ce} (all : ∀ ce ∈ ces, ce.cc = cc) (ne : other ≠ cc) : own other ces = [] :=
  List.filter_eq_nil_iff.mpr fun ce mem same => ne ((of_decide_eq_true same).symm.trans (all ce mem))

theorem filter_ces (ces : List Ce) (lcids : List (Fin (maxLcId + 1))) :
    (ces.map Ce.lcid ++ lcids.map Fin.val).filter (fun lcid => maxLcId < lcid) = ces.map Ce.lcid := by
  rw [filter_append]
  have all : (ces.map Ce.lcid).filter (fun lcid => maxLcId < lcid) = ces.map Ce.lcid := by
    apply List.filter_eq_self.mpr
    intro lcid mem
    obtain ⟨ce, -, rfl⟩ := List.mem_map.mp mem
    exact decide_eq_true ce.isCe
  have none_ : (lcids.map Fin.val).filter (fun lcid => maxLcId < lcid) = [] := by
    apply List.filter_eq_nil_iff.mpr
    intro lcid mem above
    obtain ⟨bounded, -, rfl⟩ := List.mem_map.mp mem
    have := of_decide_eq_true above
    omega
  rw [all, none_, append_nil]

theorem sentOn_append (run : CeRun) (buffers : UeBufferManager) (cc other : Nat) (pdu : List Nat) :
    ({ run with
        buffers := buffers
        sent := run.sent ++ [(cc, pdu)] } : CeRun).sentOn other =
      run.sentOn other ++ if cc = other then pdu.filter (fun lcid => maxLcId < lcid) else [] := by
  unfold sentOn
  by_cases same : cc = other <;> simp [same]

theorem fittingCes_eq_take (queue : List Ce) :
    fittingCes cc queue remBytes = (own cc queue).take (fittingCes cc queue remBytes).length :=
  List.prefix_iff_eq_take.mp (fitting_initial _ _ _)

theorem taken_iff (queue : List Ce) :
    (∀ other, (if cc = other then (fittingCes cc queue remBytes).map Ce.lcid else []) ++
        (own other (queue.drop (fittingCes cc queue remBytes).length)).map Ce.lcid = (own other queue).map Ce.lcid) ↔
      ∀ ce ∈ queue.take (fittingCes cc queue remBytes).length, ce.cc = cc := by
  generalize counted : (fittingCes cc queue remBytes).length = n
  have parts : ∀ other, own other queue = own other (queue.take n) ++ own other (queue.drop n) := fun other => by
    rw [← own_append, take_append_drop]
  constructor
  · intro adds ce mem
    by_contra ne
    have other := adds ce.cc
    rw [if_neg (Ne.symm ne), nil_append, parts ce.cc, map_append] at other
    have lengths := congrArg length other
    rw [length_append, length_map, length_map] at lengths
    have mine : ce ∈ own ce.cc (queue.take n) := List.mem_filter.mpr ⟨mem, decide_eq_true rfl⟩
    have := length_pos_of_mem mine
    omega
  · intro all other
    rw [parts other, map_append]
    by_cases same : cc = other
    · subst same
      rw [if_pos rfl, own_of_all all]
      have inFront : fittingCes cc queue remBytes = queue.take n := by
        have short : (queue.take n).length = n := by
          have := (length_filter_le (fun ce : Ce => decide (ce.cc = cc)) queue)
          have := (fitting_initial sizeofPending remBytes (own cc queue)).length_le
          rw [length_take]
          unfold fittingCes own at *
          omega
        rw [fittingCes_eq_take, counted, parts cc, own_of_all all,
          take_append_of_le_length (Nat.le_of_eq short.symm)]
        exact take_of_length_le (Nat.le_of_eq short)
      rw [inFront]
    · rw [if_neg same, own_of_none all (Ne.symm same)]
      rfl

theorem step_sentOnce_iff (event : CeEvent) (before : run.SentOnce) :
    (∃ next, run.step event = .ok next ∧ next.SentOnce) ↔ run.Clear event := by
  cases event with
  | addDlMacCe ceLcid isCe nofCmds cc =>
    refine ⟨fun _ => trivial, fun _ => ⟨_, rfl, fun other => ?_⟩⟩
    show run.sentOn other ++ (own other (run.buffers.pendingCes ++ _)).map Ce.lcid =
      (own other (run.added ++ _)).map Ce.lcid
    rw [own_append, own_append, map_append, map_append, ← before other, append_assoc]
  | dlBufferState lcid txQueue prioTxQueue => exact ⟨fun _ => trivial, fun _ => ⟨_, rfl, before⟩⟩
  | allocSubpdus cc remBytes =>
    by_cases room : nofSubpdus cc run.buffers remBytes ≤ maxSubpdus
    · obtain ⟨pdu, whole, call, content⟩ := allocSubpdus_ok room
      have stepped : run.step (.allocSubpdus cc remBytes) = .ok { run with
          buffers := { run.buffers with
            pendingCes := run.buffers.pendingCes.drop (fittingCes cc run.buffers.pendingCes remBytes).length }
          sent := run.sent ++ [(cc, pdu.toList)] } := by
        simp only [step, call]
        rfl
      have exact_ := @taken_iff cc remBytes run.buffers.pendingCes
      have once : ∀ next, run.step (.allocSubpdus cc remBytes) = .ok next → (next.SentOnce ↔
          ∀ ce ∈ run.buffers.pendingCes.take (fittingCes cc run.buffers.pendingCes remBytes).length, ce.cc = cc) := by
        intro next eq
        rw [stepped] at eq
        obtain rfl := Except.ok.inj eq
        rw [← exact_]
        apply forall_congr'
        intro other
        rw [sentOn_append, content, filter_ces, append_assoc, ← before other]
        exact append_right_inj _
      constructor
      · rintro ⟨next, eq, after⟩
        exact ⟨(once next eq).mp after, room⟩
      · rintro ⟨inFront, -⟩
        exact ⟨_, stepped, (once _ stepped).mpr inFront⟩
    · have fails : run.step (.allocSubpdus cc remBytes) = .error .assertionFailed := by
        simp only [step, allocSubpdus_overflows (Nat.lt_of_not_le room), bind, Except.bind]
      constructor
      · rintro ⟨next, eq, -⟩
        rw [fails] at eq
        contradiction
      · exact fun clear => absurd clear.2 room

end
end CeRun

theorem sentOnce_iff_clear (buffers : UeBufferManager) (events : List CeEvent) :
    Lib.AllAlong CeRun.step CeRun.SentOnce (CeRun.start buffers) events ↔
      Lib.EachStep CeRun.step CeRun.Clear (CeRun.start buffers) events :=
  Lib.allAlong_iff_eachStep (fun _ event => CeRun.step_sentOnce_iff event) (CeRun.start_sentOnce buffers)

def twoCarriers : UeBufferManager := { pendingCes := [⟨Lcid.conResId, 0, by decide⟩, ⟨Lcid.taCmd, 1, by decide⟩] }

theorem otherCarrier_ce_lost : ¬ ∀ (buffers : UeBufferManager) (events : List CeEvent),
    Lib.AllAlong CeRun.step CeRun.SentOnce (CeRun.start buffers) events := by
  intro all
  obtain ⟨-, next, eq, once⟩ := all twoCarriers [.allocSubpdus 1 1]
  have stepped : (CeRun.start twoCarriers).step (.allocSubpdus 1 1) = .ok next := eq
  have lost : (next.sentOn 0, (own 0 next.buffers.pendingCes).map Ce.lcid, (own 0 next.added).map Ce.lcid) =
      ([], [], [Lcid.conResId]) := by
    obtain rfl := Except.ok.inj (stepped.symm.trans rfl)
    rfl
  have zero := once 0
  simp only [Prod.mk.injEq] at lost
  rw [lost.1, lost.2.1, lost.2.2] at zero
  contradiction

end IsrRan.Mac.Nr
