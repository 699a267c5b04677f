import IsrRan.Common.Timers
import IsrRan.Lib.Transition
import Mathlib.Data.List.Infix

namespace IsrRan.Common
open List Nat Option TimerHandler
open Function (update_of_ne update_self)

open Lib (Reaches runAllowed reaches_of_runAllowed)

namespace TimerHandler

def now (h : TimerHandler) : Nat := (h.curTime + 1) % 2 ^ 32

def DueNow (h : TimerHandler) (id : Nat) : Prop :=
  (h.timers id).isRunning = true ∧ (h.timers id).callback = true ∧ (h.timers id).state.timeout = h.now

instance (h : TimerHandler) (id : Nat) : Decidable (h.DueNow id) := instDecidableAnd

end TimerHandler

/-- Where `step_all` is: not entered, in its loop with the lock held, or in a callback without it. -/
inductive Phase where
  | idle
  | locked (cursor : Option Nat)
  | callback (cursor : Option Nat)
  deriving DecidableEq, Repr

inductive TimerEvent where
  | call (op : TimerHandler.Op)
  | beginTick
  | visit
  | finishTick
  deriving DecidableEq, Repr

inductive Occurrence where
  | started (id duration : Nat) (callback : Bool)
  | stopped (id : Nat)
  | released (id : Nat)
  | tickBegun
  | invoked (id : Nat)
  | tickDone
  deriving DecidableEq, Repr

structure TimerRun where
  handler : TimerHandler
  phase : Phase := .idle
  history : List Occurrence := []

open TimerHandler (Op)

/-- The call is seen as a start, a stop or a release. `set` starts a timer that is running. -/
def recorded (before after : TimerHandler) : Op → List Occurrence
  | .alloc => []
  | .set id duration _ =>
    if (before.timers id).isRunning then [.started id (max duration 1) (after.timers id).callback] else []
  | .run id => [.started id (before.timers id).state.duration (after.timers id).callback]
  | .stop id => [.stopped id]
  | .release id => [.released id]

namespace TimerRun

def init (capacity : Nat) : TimerRun := { handler := TimerHandler.init capacity }

def call (r : TimerRun) (op : Op) : Option TimerRun :=
  (r.handler.apply op).map fun h => { r with handler := h, history := recorded r.handler h op ++ r.history }

def visit (r : TimerRun) (id : Nat) : TimerRun :=
  let timer := r.handler.timers id
  let next := r.handler.links.next id
  if timer.state.timeout = r.handler.now then
    let h := r.handler.stopTimer id true
    if timer.callback then { handler := h, phase := .callback next, history := .invoked id :: r.history }
    else { r with handler := h, phase := .locked next }
  else { r with phase := .locked next }

/-- Calls are made between ticks and, as the lock is not held there, while a callback runs. -/
def step (r : TimerRun) : TimerEvent → Option TimerRun
  | .call op =>
    match r.phase with
    | .locked _ => none
    | _ => r.call op
  | .beginTick =>
    match r.phase with
    | .idle => some { r with
        phase := .locked (r.handler.wheel (TimerHandler.slot r.handler.now))
        history := .tickBegun :: r.history }
    | _ => none
  | .visit =>
    match r.phase with
    | .locked (some id) => some (r.visit id)
    | .callback (some id) => some (r.visit id)
    | _ => none
  | .finishTick =>
    match r.phase with
    | .locked none | .callback none => some
        { handler := { r.handler with curTime := r.handler.now }, phase := .idle, history := .tickDone :: r.history }
    | _ => none

end TimerRun

def ticks (history : List Occurrence) : Nat := history.count .tickBegun

def Occurrence.disturbs (id : Nat) : Occurrence → Bool
  | .started id' _ _ | .stopped id' | .released id' => id' = id
  | _ => false

/-- A timer with a callback that is started with a duration of `d` after `n` ticks, and not disturbed since, has its
callback invoked in tick `n + d`, once; a stopped or released timer is not invoked before its next start. -/
structure OnTime (history : List Occurrence) : Prop where
  inTick : ∀ later between before id d,
    history = later ++ .invoked id :: (between ++ .started id d true :: before) → 1 ≤ d →
    (∀ o ∈ between, o.disturbs id = false) →
    ticks (between ++ before) = ticks before + d ∧ .invoked id ∉ between
  invoked : ∀ later between before id d, history = later ++ .tickDone :: (between ++ .started id d true :: before) →
    1 ≤ d → (∀ o ∈ between, o.disturbs id = false) → ticks before + d ≤ ticks (between ++ before) →
    .invoked id ∈ between
  silent : ∀ later between before id o, history = later ++ .invoked id :: (between ++ o :: before) →
    o = .stopped id ∨ o = .released id → ∃ d callback, .started id d callback ∈ between

def pending (id : Nat) : List Occurrence → Option Nat
  | [] => none
  | .started id' d callback :: history =>
    if id' = id then (if callback then some (ticks history + d) else none) else pending id history
  | .stopped id' :: history | .released id' :: history | .invoked id' :: history =>
    if id' = id then none else pending id history
  | .tickBegun :: history | .tickDone :: history => pending id history

def Timely : List Occurrence → Prop
  | [] => True
  | .invoked id :: history => pending id history = some (ticks history) ∧ Timely history
  | .tickDone :: history => (∀ id D, pending id history = some D → ticks history < D) ∧ Timely history
  | _ :: history => Timely history

theorem Timely.tail {o : Occurrence} {history : List Occurrence} (timely : Timely (o :: history)) :
    Timely history := by
  cases o with
  | started | stopped | released | tickBegun => exact timely
  | invoked | tickDone => exact timely.2

theorem Timely.suffix {later history : List Occurrence} (timely : Timely (later ++ history)) : Timely history := by
  induction later with
  | nil => exact timely
  | cons o later ih => exact ih timely.tail

theorem pending_undisturbed {id d : Nat} {between before : List Occurrence}
    (calm : ∀ o ∈ between, o.disturbs id = false) : pending id (between ++ .started id d true :: before) =
      if .invoked id ∈ between then none else some (ticks before + d) := by
  induction between with
  | nil => simp [pending]
  | cons o between ih =>
    have ih := ih fun o mem => calm o (by simp [mem])
    have first := calm o (by simp)
    cases o with
    | started id' d' callback =>
      have other : id' ≠ id := by simpa [Occurrence.disturbs] using first
      simpa [pending, other] using ih
    | stopped id' | released id' =>
      have other : id' ≠ id := by simpa [Occurrence.disturbs] using first
      simpa [pending, other] using ih
    | tickBegun | tickDone => simpa [pending] using ih
    | invoked id' =>
      by_cases same : id' = id
      · simp [pending, same]
      · simpa [pending, same, Ne.symm same] using ih

theorem pending_of_not_started {id : Nat} {o : Occurrence} {between before : List Occurrence}
    (ended : o = .stopped id ∨ o = .released id) (calm : ∀ d callback, .started id d callback ∉ between) :
    pending id (between ++ o :: before) = none := by
  induction between with
  | nil => rcases ended with rfl | rfl <;> simp [pending]
  | cons first between ih =>
    have ih := ih fun d callback mem => calm d callback (by simp [mem])
    cases first with
    | started id' d callback =>
      have other : id' ≠ id := by
        rintro rfl
        exact calm d callback (by simp)
      simpa [pending, other] using ih
    | stopped id' | released id' | invoked id' =>
      simp only [cons_append, pending, ih, ite_self]
    | tickBegun | tickDone => exact ih

theorem Timely.onTime {history : List Occurrence} (timely : Timely history) : OnTime history := by
  refine ⟨?_, ?_, ?_⟩
  · rintro later between before id d rfl _ calm
    have pend := timely.suffix.1
    rw [pending_undisturbed calm] at pend
    split at pend
    · contradiction
    · rename_i notYet
      have same := Option.some.inj pend
      have count : ticks (between ++ .started id d true :: before) = ticks (between ++ before) := by
        simp [ticks]
      exact ⟨by omega, notYet⟩
  · rintro later between before id d rfl _ calm due
    by_contra notYet
    have left := timely.suffix.1 id (ticks before + d)
      (by rw [pending_undisturbed calm, if_neg notYet])
    have count : ticks (between ++ .started id d true :: before) = ticks (between ++ before) := by
      simp [ticks]
    omega
  · rintro later between before id o rfl ended
    have pend := timely.suffix.1
    by_contra calm
    simp only [not_exists] at calm
    rw [pending_of_not_started ended calm] at pend
    contradiction

structure Booked (h : TimerHandler) (history : List Occurrence) (least : Nat) : Prop where
  running : ∀ id D, pending id history = some D →
    (h.timers id).isRunning = true ∧ (h.timers id).callback = true ∧ (h.timers id).state.timeout = D % 2 ^ 32
  window : ∀ id D, pending id history = some D → least ≤ D ∧ D ≤ ticks history + maxTimerDuration
  covers : ∀ id, (h.timers id).isRunning = true → (h.timers id).callback = true →
    ∃ D, pending id history = some D

/-- The timer at the iterator is in the list, and what expires in this tick is from it on; or the timer at the
iterator was taken out, and there is nothing left that expires. There are at most `rounds` to go. -/
def Follows (h : TimerHandler) (list : List Nat) (cursor : Option Nat) (rounds : Nat) : Prop :=
  (∃ before rest, list = before ++ rest ∧ rest.length ≤ rounds ∧ cursor = rest.head? ∧
    ∀ id, h.DueNow id → id ∈ rest) ∨
  ∃ id, cursor = some id ∧ 1 ≤ rounds ∧ (h.timers id).isRunning = false ∧
    ((h.timers id).callback = true → (h.timers id).state.timeout ≠ h.now) ∧ ∀ id, ¬ h.DueNow id

structure Between (h : TimerHandler) (history : List Occurrence) : Prop where
  linked : ∃ lists, h.Linked lists
  valid : h.Valid
  clock : h.curTime = ticks history % 2 ^ 32
  booked : Booked h history (ticks history + 1)
  timely : Timely history

structure Within (h : TimerHandler) (history : List Occurrence) (cursor : Option Nat) (rounds : Nat) : Prop where
  linked : ∃ lists, h.Linked lists ∧ Follows h (lists (TimerHandler.slot h.now)) cursor rounds
  valid : h.Valid
  clock : h.now = ticks history % 2 ^ 32
  booked : Booked h history (ticks history)
  timely : Timely history

namespace Booked
variable {h h' : TimerHandler} {history : List Occurrence} {least id : Nat}

theorem idle (booked : Booked h history least)
    (idle : (h.timers id).isRunning = false ∨ (h.timers id).callback = false)
    (idle' : (h'.timers id).isRunning = false) (others : ∀ other, other ≠ id → h'.timers other = h.timers other) :
    Booked h' history least := by
  refine ⟨fun other D pend => ?_, booked.window, fun other running callback => ?_⟩
  · have holds := booked.running other D pend
    have apart : other ≠ id := by
      rintro rfl
      rcases idle with idle | idle <;> simp [holds] at idle
    rw [others other apart]
    exact holds
  · have apart : other ≠ id := by
      rintro rfl
      rw [idle'] at running
      contradiction
    rw [others other apart] at running callback
    exact booked.covers other running callback

theorem ended (booked : Booked h history least) {o : Occurrence}
    (seen : o = .stopped id ∨ o = .released id ∨ o = .invoked id)
    (idle : (h'.timers id).isRunning = false) (others : ∀ other, other ≠ id → h'.timers other = h.timers other) :
    Booked h' (o :: history) least := by
  have count : ticks (o :: history) = ticks history := by
    rcases seen with rfl | rfl | rfl <;> simp [ticks]
  have pend : ∀ other, pending other (o :: history) = if id = other then none else pending other history := by
    rcases seen with rfl | rfl | rfl <;> simp [pending]
  refine ⟨fun other D => ?_, fun other D => ?_, fun other running callback => ?_⟩
  · rw [pend]
    split
    · simp
    · rename_i apart
      rw [others other (Ne.symm apart)]
      exact booked.running other D
  · rw [pend, count]
    split
    · simp
    · exact booked.window other D
  · have apart : other ≠ id := by
      rintro rfl
      rw [idle] at running
      contradiction
    rw [others other apart] at running callback
    rw [pend, if_neg (Ne.symm apart)]
    exact booked.covers other running callback

theorem started (booked : Booked h history (ticks history + 1)) {d : Nat} {callback : Bool}
    (running : (h'.timers id).isRunning = true) (hasCallback : (h'.timers id).callback = callback)
    (timeout : (h'.timers id).state.timeout = (ticks history + d) % 2 ^ 32)
    (duration : callback = true → 1 ≤ d) (bound : d ≤ maxTimerDuration)
    (others : ∀ other, other ≠ id → h'.timers other = h.timers other) :
    Booked h' (.started id d callback :: history) (ticks history + 1) := by
  refine ⟨fun other D => ?_, fun other D => ?_, fun other otherRunning otherCallback => ?_⟩
  · simp only [pending]
    by_cases same : id = other
    · subst same
      rw [if_pos rfl]
      cases callback with
      | false => simp
      | true =>
        rintro ⟨⟩
        exact ⟨running, hasCallback, timeout⟩
    · rw [if_neg same, others other (Ne.symm same)]
      exact booked.running other D
  · have count : ticks (.started id d callback :: history) = ticks history := by simp [ticks]
    simp only [pending]
    by_cases same : id = other
    · subst same
      rw [if_pos rfl]
      cases callback with
      | false => simp
      | true =>
        rintro ⟨⟩
        have := duration rfl
        omega
    · rw [if_neg same]
      exact booked.window other D
  · simp only [pending]
    by_cases same : id = other
    · subst same
      rw [hasCallback] at otherCallback
      subst otherCallback
      exact ⟨_, by simp; rfl⟩
    · rw [if_neg same]
      rw [others other (Ne.symm same)] at otherRunning otherCallback
      exact booked.covers other otherRunning otherCallback

end Booked

theorem TimerHandler.DueNow.before {h h' : TimerHandler} {id other : Nat} (due : h'.DueNow other)
    (now : h'.now = h.now) (idle' : (h'.timers id).isRunning = false)
    (others : ∀ other, other ≠ id → h'.timers other = h.timers other) : other ≠ id ∧ h.DueNow other := by
  obtain ⟨running, callback, time⟩ := due
  have apart : other ≠ id := by
    rintro rfl
    rw [idle'] at running
    contradiction
  rw [others other apart] at running callback time
  exact ⟨apart, running, callback, now ▸ time⟩

namespace Follows
variable {h h' : TimerHandler} {list : List Nat} {cursor : Option Nat} {rounds id : Nat}

variable {lists : Nat → List Nat}

theorem idle (follows : Follows h list cursor rounds) (now : h'.now = h.now) (idle : (h.timers id).isRunning = false)
    (idle' : (h'.timers id).isRunning = false) (others : ∀ other, other ≠ id → h'.timers other = h.timers other)
    (atCursor : cursor = some id → (h'.timers id).callback = true → (h'.timers id).state.timeout ≠ h.now) :
    Follows h' list cursor rounds := by
  have due : ∀ other, h'.DueNow other → h.DueNow other := fun other is => (is.before now idle' others).2
  rcases follows with ⟨before, rest, split, length, head, all⟩ | ⟨c, head, pos, notRunning, silent, none⟩
  · exact .inl ⟨before, rest, split, length, head, fun other is => all other (due other is)⟩
  · refine .inr ⟨c, head, pos, ?_, ?_, fun other is => none other (due other is)⟩
    · by_cases same : c = id
      · exact same ▸ idle'
      · rw [others c same]
        exact notRunning
    · rw [now]
      by_cases same : c = id
      · subst same
        exact atCursor head
      · rw [others c same]
        exact silent

theorem pos (follows : Follows h list (some id) rounds) : 1 ≤ rounds := by
  rcases follows with ⟨before, rest, _, length, head, _⟩ | ⟨_, _, pos, _⟩
  · cases rest with
    | nil => contradiction
    | cons first rest => exact Nat.le_trans (Nat.le_add_left 1 _) length
  · exact pos

theorem ended (follows : Follows h list cursor rounds) (now : h'.now = h.now) (idle' : (h'.timers id).isRunning = false)
    (others : ∀ other, other ≠ id → h'.timers other = h.timers other)
    (atCursor : cursor = some id → (∀ other, other ≠ id → ¬ h.DueNow other) ∧
      ((h'.timers id).callback = true → (h'.timers id).state.timeout ≠ h.now)) :
    Follows h' (list.erase id) cursor rounds := by
  have due : ∀ other, h'.DueNow other → other ≠ id ∧ h.DueNow other := fun other is => is.before now idle' others
  by_cases here : cursor = some id
  · obtain ⟨others', silent⟩ := atCursor here
    exact .inr ⟨id, here, (here ▸ follows).pos, idle', now ▸ silent,
      fun other is => others' other (due other is).1 (due other is).2⟩
  rcases follows with ⟨before, rest, split, length, head, all⟩ | ⟨c, head, pos, notRunning, silent, none⟩
  · left
    by_cases inBefore : id ∈ before
    · refine ⟨before.erase id, rest, by rw [split, erase_append_left _ inBefore], length, head, ?_⟩
      exact fun other is => all other (due other is).2
    · refine ⟨before, rest.erase id, by rw [split, erase_append_right _ inBefore],
        Nat.le_trans length_erase_le length, ?_, fun other is => ?_⟩
      · cases rest with
        | nil => exact head
        | cons first rest =>
          have apart : first ≠ id := by
            rintro rfl
            exact here head
          rw [erase_cons_tail (by simpa using apart)]
          exact head
      · exact (mem_erase_of_ne (due other is).1).mpr (all other (due other is).2)
  · refine .inr ⟨c, head, pos, ?_, ?_, fun other is => none other (due other is).2⟩
    · rw [others c (by rintro rfl; exact here head)]
      exact notRunning
    · rw [others c (by rintro rfl; exact here head), now]
      exact silent

theorem running_or_silent (linked : h.Linked lists)
    (follows : Follows h (lists (TimerHandler.slot h.now)) (some id) rounds) : (h.timers id).isRunning = true ∨
      (h.timers id).isRunning = false ∧
        ((h.timers id).callback = true → (h.timers id).state.timeout ≠ h.now) := by
  rcases follows with ⟨before, rest, split, _, head, _⟩ | ⟨c, head, _, idle, silent, _⟩
  · have inside : id ∈ lists (TimerHandler.slot h.now) := by
      rw [split]
      exact mem_append_right _ (mem_of_mem_head? head.symm)
    exact .inl ((linked.mem _ _).mp inside).1
  · obtain rfl := Option.some.inj head
    exact .inr ⟨idle, silent⟩

theorem advance (linked : h.Linked lists)
    (follows : Follows h (lists (TimerHandler.slot h.now)) (some id) rounds) (notDue : ¬ h.DueNow id) :
    Follows h (lists (TimerHandler.slot h.now)) (h.links.next id) (rounds - 1) := by
  rcases follows with ⟨before, rest, split, length, head, all⟩ | ⟨c, head, pos, idle, _, none⟩
  · cases rest with
    | nil => contradiction
    | cons first rest =>
      obtain rfl := Option.some.inj head
      have chain := linked.chain (TimerHandler.slot h.now)
      rw [split] at chain
      refine .inl ⟨before ++ [id], rest, by simp [split], le_sub_one_of_lt length, chain.next_append,
        fun other due => ?_⟩
      refine (List.mem_cons.mp (all other due)).resolve_left ?_
      rintro rfl
      exact notDue due
  · obtain rfl := Option.some.inj head
    refine .inl ⟨_, [], (append_nil _).symm, Nat.zero_le _, linked.loose id idle, fun other due => ?_⟩
    exact absurd due (none other)

theorem advance_ended (linked : h.Linked lists)
    (follows : Follows h (lists (TimerHandler.slot h.now)) (some id) rounds) (running : (h.timers id).isRunning = true)
    (now : h'.now = h.now) (idle' : (h'.timers id).isRunning = false)
    (others : ∀ other, other ≠ id → h'.timers other = h.timers other) :
    Follows h' ((lists (TimerHandler.slot h.now)).erase id) (h.links.next id) (rounds - 1) := by
  rcases follows with ⟨before, rest, split, length, head, all⟩ | ⟨c, head, pos, idle, _, none⟩
  · cases rest with
    | nil => contradiction
    | cons first rest =>
      obtain rfl := Option.some.inj head
      have chain := linked.chain (TimerHandler.slot h.now)
      have nodup := linked.nodup (TimerHandler.slot h.now)
      rw [split] at chain nodup
      have absent : id ∉ before := fun inside =>
        (List.nodup_append.mp nodup).2.2 id inside id (by simp) rfl
      refine .inl ⟨before, rest, ?_, le_sub_one_of_lt length, chain.next_append, fun other due => ?_⟩
      · rw [split, erase_append_right _ absent, erase_cons_head]
      · obtain ⟨apart, was⟩ := due.before now idle' others
        exact (List.mem_cons.mp (all other was)).resolve_left apart
  · obtain rfl := Option.some.inj head
    rw [idle] at running
    contradiction

end Follows

/-- The call, made while a callback runs, starts no timer, and takes the timer at the iterator out of the wheel
only where this leaves the loop nothing to do. -/
def LeavesWalk (h : TimerHandler) (cursor : Option Nat) : Op → Prop
  | .alloc => True
  | .set id _ _ => (h.timers id).isRunning = false ∧ cursor ≠ some id
  | .run _ => False
  | .stop id => cursor = some id → ∀ other < h.size, ¬ h.DueNow other
  | .release id => cursor = some id → ∀ other < h.size, other ≠ id → ¬ h.DueNow other

instance (h : TimerHandler) (cursor : Option Nat) : (op : Op) → Decidable (LeavesWalk h cursor op)
  | .alloc => .isTrue trivial
  | .set _ _ _ => instDecidableAnd
  | .run _ => .isFalse id
  | .stop id => inferInstanceAs (Decidable (cursor = some id → ∀ other < h.size, ¬ h.DueNow other))
  | .release id =>
    inferInstanceAs (Decidable (cursor = some id → ∀ other < h.size, other ≠ id → ¬ h.DueNow other))

variable {h h' : TimerHandler} {id : Nat} {op : Op} {history : List Occurrence}

theorem not_dueNow_of_lt_size (valid : h.Valid) {P : Nat → Prop}
    (none : ∀ other < h.size, P other → ¬ h.DueNow other) : ∀ other, P other → ¬ h.DueNow other :=
  fun other holds due => none other (valid.size other (valid.allocated_of_running due.1)) holds due

inductive Effect (h h' : TimerHandler) (lists : Nat → List Nat) : Op → List Occurrence → Prop where
  | idle {op : Op} (id : Nat) (before : (h.timers id).isRunning = false) (after : (h'.timers id).isRunning = false)
      (others : ∀ other, other ≠ id → h'.timers other = h.timers other) (linked : h'.Linked lists)
      (called : op = .alloc ∧ (h'.timers id).callback = false ∨
        ∃ duration callback, op = .set id duration callback) :
      Effect h h' lists op []
  | ended {op : Op} (id : Nat) {o : Occurrence} (after : (h'.timers id).isRunning = false)
      (others : ∀ other, other ≠ id → h'.timers other = h.timers other)
      (linked : h'.Linked fun slot => (lists slot).erase id)
      (called : op = .stop id ∧ o = .stopped id ∧ (h'.timers id).callback = (h.timers id).callback ∧
          (h'.timers id).state.timeout = (h.timers id).state.timeout ∨
        op = .release id ∧ o = .released id ∧ (h'.timers id).callback = false) : Effect h h' lists op [o]
  | started {op : Op} (id : Nat) (after : (h'.timers id).isRunning = true)
      (others : ∀ other, other ≠ id → h'.timers other = h.timers other) (linked : ∃ lists', h'.Linked lists')
      (timeout : (h'.timers id).state.timeout = (h.curTime + (h'.timers id).state.duration) % 2 ^ 32)
      (called : op = .run id ∨
        ∃ duration callback, op = .set id duration callback ∧ (h.timers id).isRunning = true) :
      Effect h h' lists op [.started id (h'.timers id).state.duration (h'.timers id).callback]

theorem stop_eq (valid : h.Valid) :
    h.apply (.stop id) = some (h.stopTimer id false) := by
  by_cases allocated : (h.timers id).allocated = true
  · simp [TimerHandler.apply, allocated]
  · have idle : (h.timers id).isRunning = false := by
      by_contra running
      exact allocated (valid.allocated_of_running (by simpa using running))
    simp [TimerHandler.apply, stopTimer_of_not_running false idle]

theorem apply_effect {lists : Nat → List Nat} (linked : h.Linked lists)
    (valid : h.Valid) (ok : h.apply op = some h') :
    h'.Valid ∧ h'.curTime = h.curTime ∧ Effect h h' lists op (recorded h h' op) := by
  cases op with
  | alloc =>
    obtain ⟨⟨h₂, id⟩, new, eq⟩ := Option.map_eq_some_iff.mp ok
    obtain rfl : h₂ = h' := eq
    obtain ⟨free, timers, curTime, links, wheel, valid'⟩ := allocTimer_spec valid new
    have before : (h.timers id).isRunning = false := by
      rw [(valid.timer id).blank free]
      rfl
    have taken : h₂.timers = (h.setTimer id { allocated := true }).timers := timers
    refine ⟨valid', curTime, .idle id before (by rw [timers]; simp [TimerImpl.isRunning]) ?_ ?_
      (.inl ⟨rfl, by rw [timers]; simp⟩)⟩
    · intro other apart
      rw [timers, update_of_ne apart]
    · have set : (h.setTimer id { allocated := true }).Linked lists :=
        linked.setTimer (by rw [before]; rfl) (by simp [TimerImpl.isRunning])
      refine ⟨?_, set.nodup, ?_, ?_⟩
      · rw [links, wheel]
        exact linked.chain
      · rw [taken]
        exact set.mem
      · rw [taken, links]
        exact set.loose
  | set id duration callback =>
    simp only [TimerHandler.apply, ite_none_right_eq_some, Bool.and_eq_true, decide_eq_true_eq,
      Option.some.injEq] at ok
    obtain ⟨⟨allocated, bound⟩, rfl⟩ := ok
    have timers := @TimerHandler.set_timers h id duration callback
    obtain ⟨lists', linked', same⟩ := linked.set id duration callback
    refine ⟨set_valid valid allocated bound callback,
      set_curTime id duration callback, ?_⟩
    have others : ∀ other, other ≠ id → (h.set id duration callback).timers other = h.timers other := by
      intro other apart
      rw [timers, update_of_ne apart]
    cases running : (h.timers id).isRunning with
    | true =>
      have after : (h.set id duration callback).timers id = { h.timers id with
          state := h.startState id (max duration 1), callback := callback.getD (h.timers id).callback } := by
        rw [timers, update_self, if_pos running]
      have state : h.startState id (max duration 1) =
          ⟨.running, max duration 1, (h.curTime + max duration 1) % 2 ^ 32⟩ := by
        have pos : max duration 1 ≠ 0 := by omega
        simp only [startState, if_neg pos]
      have seen : recorded h (h.set id duration callback) (.set id duration callback) =
          [.started id ((h.set id duration callback).timers id).state.duration
            ((h.set id duration callback).timers id).callback] := by
        simp only [recorded, running, if_true, after, state]
      rw [seen]
      exact .started id (by rw [after]; rfl) others ⟨lists', linked'⟩ (by rw [after, state])
        (.inr ⟨_, _, rfl, running⟩)
    | false =>
      have seen : recorded h (h.set id duration callback) (.set id duration callback) = [] := by
        simp [recorded, running]
      rw [seen]
      have after : ((h.set id duration callback).timers id).isRunning = false := by
        rw [timers, update_self]
        simp only [running]
        rfl
      exact .idle id running after others (same running ▸ linked') (.inr ⟨_, _, rfl⟩)
  | run id =>
    simp only [TimerHandler.apply, ite_none_right_eq_some, Option.some.injEq] at ok
    obtain ⟨allocated, rfl⟩ := ok
    have timers := @TimerHandler.startRun_timers h id 0
    have after : (h.startRun id 0).timers id = { h.timers id with state := h.startState id 0 } := by
      rw [timers, update_self]
    have seen : recorded h (h.startRun id 0) (.run id) =
        [.started id ((h.startRun id 0).timers id).state.duration ((h.startRun id 0).timers id).callback] := by
      simp only [recorded, after]
      rfl
    refine ⟨startRun_valid valid allocated (Nat.zero_le _), startRun_curTime 0, ?_⟩
    rw [seen]
    refine .started id (by rw [after]; rfl) ?_ (linked.startRun id 0) (by rw [after]; rfl) (.inl rfl)
    intro other apart
    rw [timers, update_of_ne apart]
  | stop id =>
    rw [stop_eq valid] at ok
    obtain rfl := Option.some.inj ok
    refine ⟨stopTimer_valid valid id false, stopTimer_curTime false, ?_⟩
    exact .ended id (stopTimer_idle h id false) (fun _ => stopTimer_other h false)
      (linked.stopTimer id false) (.inl ⟨rfl, rfl, stopTimer_keeps h id false⟩)
  | release id =>
    obtain rfl := Option.some.inj ok
    have timers := deallocTimer_timers id valid
    refine ⟨deallocTimer_valid valid id, ?_, 
      .ended id (by rw [timers]; simp [TimerImpl.isRunning]) ?_
      (deallocTimer_linked linked id valid) (.inr ⟨rfl, rfl, by rw [timers]; simp⟩)⟩
    · unfold deallocTimer
      split
      · exact stopTimer_curTime false
      · rfl
    · intro other apart
      rw [timers, update_of_ne apart]

theorem quiet {o : Occurrence} (ended : o = .stopped id ∨ o = .released id)
    (timely : Timely history) : ticks (o :: history) = ticks history ∧ Timely (o :: history) := by
  rcases ended with rfl | rfl <;> exact ⟨by simp [ticks], timely⟩

theorem Between.call (between : Between h history)
    (ok : h.apply op = some h') : Between h' (recorded h h' op ++ history) := by
  obtain ⟨lists, linked⟩ := between.linked
  obtain ⟨valid, curTime, effect⟩ := apply_effect linked between.valid ok
  have clock := curTime.trans between.clock
  generalize recorded h h' op = seen at effect
  cases effect with
  | idle _ before after others linked =>
    exact ⟨⟨_, linked⟩, valid, clock, between.booked.idle (.inl before) after others, between.timely⟩
  | @ended id o after others linked called =>
    have which := called.imp (·.2.1) (·.2.1)
    obtain ⟨count, timely⟩ := quiet which between.timely
    refine ⟨⟨_, linked⟩, valid, ?_, ?_, timely⟩
    · rw [singleton_append, count, clock]
    · rw [singleton_append, count]
      exact between.booked.ended (which.imp_right .inl) after others
  | started id after others linked timeout called =>
    generalize seen : Occurrence.started id (h'.timers id).state.duration (h'.timers id).callback = o
    have count : ticks (o :: history) = ticks history := by simp [ticks, ← seen]
    refine ⟨linked, valid, ?_, ?_, by rw [← seen]; exact between.timely⟩
    · rw [singleton_append, count, clock]
    · rw [← seen]
      refine between.booked.started after rfl ?_ (fun callback => (valid.timer id).callback callback)
        (valid.timer id).duration others
      rw [timeout, between.clock, mod_add_mod]

theorem Within.call {cursor : Option Nat} {rounds : Nat}
    (within : Within h history cursor rounds) (leaves : LeavesWalk h cursor op) (ok : h.apply op = some h') :
    Within h' (recorded h h' op ++ history) cursor rounds := by
  obtain ⟨lists, linked, follows⟩ := within.linked
  obtain ⟨valid, curTime, effect⟩ := apply_effect linked within.valid ok
  have now : h'.now = h.now := by simp only [TimerHandler.now, curTime]
  have clock := now.trans within.clock
  generalize recorded h h' op = seen at effect
  cases effect with
  | idle id before after others linked called =>
    refine ⟨⟨_, linked, ?_⟩, valid, clock, within.booked.idle (.inl before) after others, within.timely⟩
    rw [now]
    refine follows.idle now before after others fun atCursor callback => ?_
    rcases called with ⟨_, blank⟩ | ⟨_, _, rfl⟩
    · rw [blank] at callback
      contradiction
    · exact absurd atCursor leaves.2
  | @ended id o after others linked' called =>
    have which := called.imp (·.2.1) (·.2.1)
    obtain ⟨count, timely⟩ := quiet which within.timely
    refine ⟨⟨_, linked', ?_⟩, valid, ?_, ?_, timely⟩
    · rw [now]
      refine follows.ended now after others fun atCursor => ?_
      rcases called with ⟨rfl, _, callback, timeout⟩ | ⟨rfl, _, blank⟩
      · have none := not_dueNow_of_lt_size within.valid (P := fun _ => True)
          fun other inside _ => leaves atCursor other inside
        refine ⟨fun other _ => none other trivial, ?_⟩
        rw [callback, timeout]
        rcases Follows.running_or_silent linked (atCursor ▸ follows) with running | ⟨_, silent⟩
        · exact fun isSet now => none id trivial ⟨running, isSet, now⟩
        · exact silent
      · refine ⟨not_dueNow_of_lt_size within.valid (leaves atCursor), fun isSet => ?_⟩
        rw [blank] at isSet
        contradiction
    · rw [singleton_append, count, clock]
    · rw [singleton_append, count]
      exact within.booked.ended (which.imp_right .inl) after others
  | started _ after others linked timeout called =>
    rcases called with rfl | ⟨_, _, rfl, running⟩
    · exact leaves.elim
    · rw [leaves.1] at running
      contradiction

theorem Within.visit {r : TimerRun} {rounds : Nat} (within : Within r.handler r.history (some id) rounds) :
    ∃ cursor, ((r.visit id).phase = .locked cursor ∨ (r.visit id).phase = .callback cursor) ∧
      Within (r.visit id).handler (r.visit id).history cursor (rounds - 1) := by
  obtain ⟨lists, linked, follows⟩ := within.linked
  obtain ⟨h, phase, history⟩ := r
  dsimp only at within linked follows
  have clock := within.clock
  have stopped := linked.stopTimer id true
  have valid := stopTimer_valid within.valid id true
  have idle := stopTimer_idle h id true
  have others : ∀ other, other ≠ id → (h.stopTimer id true).timers other = h.timers other :=
    fun _ => stopTimer_other h true
  have now : (h.stopTimer id true).now = h.now := by simp [TimerHandler.now]
  refine ⟨h.links.next id, ?_, ?_⟩
  · unfold TimerRun.visit
    dsimp only
    split
    · split <;> simp
    · simp
  · unfold TimerRun.visit
    dsimp only
    split
    · rename_i expires
      have follows' : Follows (h.stopTimer id true) ((lists (TimerHandler.slot h.now)).erase id) (h.links.next id)
          (rounds - 1) := by
        rcases Follows.running_or_silent linked follows with running | ⟨notRunning, _⟩
        · exact Follows.advance_ended linked follows running now idle others
        · have absent : id ∉ lists (TimerHandler.slot h.now) := by
            intro inside
            rw [((linked.mem _ _).mp inside).1] at notRunning
            contradiction
          rw [stopTimer_of_not_running true notRunning, erase_of_not_mem absent]
          exact follows.advance linked fun due => by simp [due.1] at notRunning
      split
      · rename_i callback
        have running : (h.timers id).isRunning = true := by
          rcases Follows.running_or_silent linked follows with running | ⟨_, silent⟩
          · exact running
          · exact absurd expires (silent callback)
        have pend : pending id history = some (ticks history) := by
          obtain ⟨D, pend⟩ := within.booked.covers id running callback
          obtain ⟨least, most⟩ := within.booked.window id D pend
          have timeout := (within.booked.running id D pend).2.2
          have window : maxTimerDuration = 0x3FFFFFFF := rfl
          rw [pend]
          congr 1
          omega
        have count : ticks (.invoked id :: history) = ticks history := by simp [ticks]
        refine ⟨⟨_, stopped, now ▸ follows'⟩, valid, by rw [now, count, clock], ?_, pend, within.timely⟩
        exact within.booked.ended (.inr (.inr rfl)) idle others
      · rename_i noCallback
        refine ⟨⟨_, stopped, now ▸ follows'⟩, valid, by rw [now, clock], ?_, within.timely⟩
        exact within.booked.idle (.inr (by simpa using noCallback)) idle others
    · rename_i expires
      refine ⟨⟨lists, linked, ?_⟩, within.valid, clock, within.booked, within.timely⟩
      exact follows.advance linked fun due => expires due.2.2

theorem Within.finish {rounds : Nat}
    (within : Within h history none rounds) :
    Between { h with curTime := h.now } (.tickDone :: history) := by
  obtain ⟨lists, linked, follows⟩ := within.linked
  have notDue : ∀ id, ¬ h.DueNow id := by
    intro id due
    rcases follows with ⟨before, rest, _, _, head, all⟩ | ⟨c, head, _⟩
    · have inside := all id due
      rw [head?_eq_none_iff.mp head.symm] at inside
      contradiction
    · contradiction
  have later : ∀ id D, pending id history = some D → ticks history < D := by
    intro id D pend
    obtain ⟨least, _⟩ := within.booked.window id D pend
    obtain ⟨running, callback, timeout⟩ := within.booked.running id D pend
    refine Nat.lt_of_le_of_ne least ?_
    rintro rfl
    exact notDue id ⟨running, callback, timeout.trans within.clock.symm⟩
  have count : ticks (.tickDone :: history) = ticks history := by simp [ticks]
  have valid : TimerHandler.Valid { h with curTime := h.now } :=
    ⟨within.valid.timer, within.valid.size, within.valid.free⟩
  have linked' : TimerHandler.Linked { h with curTime := h.now } lists :=
    ⟨linked.chain, linked.nodup, linked.mem, linked.loose⟩
  refine ⟨⟨lists, linked'⟩, valid, ?_, ?_, later, within.timely⟩
  · rw [count]
    exact within.clock
  · rw [count]
    refine ⟨within.booked.running, fun id D pend => ?_, within.booked.covers⟩
    exact ⟨later id D pend, (within.booked.window id D pend).2⟩

theorem Between.begin (between : Between h history) :
    ∃ rounds, Within h (.tickBegun :: history) (h.wheel (TimerHandler.slot h.now)) rounds := by
  obtain ⟨lists, linked⟩ := between.linked
  have count : ticks (.tickBegun :: history) = ticks history + 1 := by simp [ticks]
  refine ⟨_, ⟨lists, linked, .inl ⟨[], _, rfl, Nat.le_refl _, (linked.chain _).head_eq, ?_⟩⟩, between.valid,
    ?_, ?_, between.timely⟩
  · rintro id ⟨running, _, timeout⟩
    exact (linked.mem _ _).mpr ⟨running, by rw [timeout]⟩
  · rw [count, TimerHandler.now, between.clock, mod_add_mod]
  · rw [count]
    refine ⟨between.booked.running, fun id D pend => ?_, between.booked.covers⟩
    obtain ⟨least, most⟩ := between.booked.window id D pend
    exact ⟨least, by rw [count]; omega⟩

namespace TimerRun

def Allowed (r : TimerRun) : TimerEvent → Prop
  | .call op =>
    match r.phase with
    | .callback cursor => LeavesWalk r.handler cursor op
    | _ => True
  | _ => True

instance (r : TimerRun) (e : TimerEvent) : Decidable (r.Allowed e) := by
  unfold Allowed
  split
  · split <;> infer_instance
  · infer_instance

def Inv (r : TimerRun) (rounds : Nat) : Prop :=
  match r.phase with
  | .idle => Between r.handler r.history
  | .locked cursor | .callback cursor => Within r.handler r.history cursor rounds

theorem Inv.of_within {r : TimerRun} {cursor : Option Nat} {rounds : Nat}
    (phase : r.phase = .locked cursor ∨ r.phase = .callback cursor)
    (within : Within r.handler r.history cursor rounds) : r.Inv rounds := by
  unfold Inv
  rcases phase with phase | phase <;> rw [phase] <;> exact within

theorem Inv.preserved {r r' : TimerRun} {rounds : Nat} {e : TimerEvent} (inv : r.Inv rounds) (allowed : r.Allowed e)
    (next : r.step e = some r') : match e with
      | .call _ => r'.Inv rounds ∧ (r'.phase = .idle ↔ r.phase = .idle)
      | .visit => 1 ≤ rounds ∧ r'.Inv (rounds - 1) ∧ r'.phase ≠ .idle
      | .beginTick => ∃ rounds', r'.Inv rounds'
      | .finishTick => r'.Inv 0 := by
  obtain ⟨h, phase, history⟩ := r
  cases e with
  | call op =>
    cases phase with
    | locked cursor => contradiction
    | idle =>
      obtain ⟨h', ok, rfl⟩ := Option.map_eq_some_iff.mp next
      exact ⟨Between.call inv ok, Iff.rfl⟩
    | callback cursor =>
      obtain ⟨h', ok, rfl⟩ := Option.map_eq_some_iff.mp next
      exact ⟨Within.call inv allowed ok, Iff.rfl⟩
  | beginTick =>
    cases phase with
    | idle =>
      obtain rfl := Option.some.inj next
      exact Between.begin inv
    | locked cursor => contradiction
    | callback cursor => contradiction
  | visit =>
    have within : ∃ id, Within h history (some id) rounds ∧ TimerRun.visit ⟨h, phase, history⟩ id = r' := by
      cases phase with
      | idle => contradiction
      | locked cursor | callback cursor =>
        cases cursor with
        | none => contradiction
        | some id => exact ⟨id, inv, Option.some.inj next⟩
    obtain ⟨id, within, rfl⟩ := within
    obtain ⟨cursor, phase', after⟩ := Within.visit (r := ⟨h, phase, history⟩) within
    obtain ⟨lists, _, follows⟩ := within.linked
    refine ⟨follows.pos, .of_within phase' after, ?_⟩
    rcases phase' with phase' | phase' <;> rw [phase'] <;> simp
  | finishTick =>
    cases phase with
    | idle => contradiction
    | locked cursor | callback cursor =>
      cases cursor with
      | some id => contradiction
      | none =>
        obtain rfl := Option.some.inj next
        exact Within.finish inv

theorem init_inv (capacity : Nat) : (init capacity).Inv 0 := by
  refine ⟨⟨_, init_linked capacity⟩, init_valid capacity, rfl, ⟨?_, ?_, ?_⟩, trivial⟩
  · simp [init, pending]
  · simp [init, pending]
  · simp [init, TimerHandler.init]

theorem Inv.onTime {r : TimerRun} {rounds : Nat} (inv : r.Inv rounds) : OnTime r.history := by
  obtain ⟨h, phase, history⟩ := r
  cases phase with
  | idle => exact (Between.timely inv).onTime
  | locked cursor | callback cursor => exact (Within.timely inv).onTime

theorem inv_of_reaches {capacity : Nat} {r : TimerRun} (run : Reaches step Allowed (init capacity) r) :
    ∃ rounds, r.Inv rounds := by
  refine run.invariant (P := fun r => ∃ rounds, r.Inv rounds) ⟨0, init_inv capacity⟩ ?_
  rintro r e r' ⟨rounds, inv⟩ allowed next
  have after := inv.preserved allowed next
  cases e with
  | call op => exact ⟨_, after.1⟩
  | beginTick => exact after
  | visit => exact ⟨_, after.2.1⟩
  | finishTick => exact ⟨_, after⟩

def TickEnds (r : TimerRun) : Prop :=
  r.phase ≠ .idle → ∃ rounds, ∀ es r', runAllowed step (fun r e => decide (r.Allowed e)) r es = some r' →
    .finishTick ∉ es → es.count .visit ≤ rounds

theorem Inv.rounds {r r' : TimerRun} {rounds : Nat} (inv : r.Inv rounds) (busy : r.phase ≠ .idle)
    {es : List TimerEvent} (run : runAllowed step (fun r e => decide (r.Allowed e)) r es = some r')
    (open_ : .finishTick ∉ es) : es.count .visit ≤ rounds := by
  induction es generalizing r rounds with
  | nil => exact Nat.zero_le _
  | cons e es ih =>
    simp only [runAllowed, decide_eq_true_eq, ite_none_right_eq_some] at run
    obtain ⟨allowed, run⟩ := run
    obtain ⟨r₁, next, rest⟩ := Option.bind_eq_some_iff.mp run
    have after := inv.preserved allowed next
    simp only [mem_cons, not_or] at open_
    cases e with
    | call op =>
      exact ih after.1 (fun idle => busy (after.2.mp idle)) rest open_.2
    | beginTick =>
      obtain ⟨h, phase, history⟩ := r
      cases phase with
      | idle => exact absurd rfl busy
      | locked cursor => contradiction
      | callback cursor => contradiction
    | visit =>
      have := ih after.2.1 after.2.2 rest open_.2
      rw [count_cons_self]
      omega
    | finishTick => exact absurd rfl open_.1

theorem onTime_of_reaches {capacity : Nat} {r : TimerRun} (run : Reaches step Allowed (init capacity) r) :
    OnTime r.history ∧ r.TickEnds := by
  obtain ⟨rounds, inv⟩ := inv_of_reaches run
  exact ⟨inv.onTime, fun busy => ⟨rounds, fun es r' => Inv.rounds inv busy⟩⟩

def orderlyRun : List TimerEvent :=
  [.call .alloc, .call .alloc, .call (.set 0 1 (some true)), .call (.set 1 1 (some true)), .call (.run 0),
    .call (.run 1), .beginTick, .visit, .call .alloc, .visit, .call (.set 1 2 none), .finishTick,
    .call (.run 0), .call (.run 1), .beginTick, .visit, .call (.stop 1), .finishTick, .beginTick, .finishTick]

theorem onTime_of_reaches_orderlyRun :
    ∃ r, runAllowed step (fun r e => decide (r.Allowed e)) (init 2) orderlyRun = some r ∧
      r.history.count (.invoked 0) = 2 ∧ r.history.count (.invoked 1) = 1 ∧ OnTime r.history ∧ r.TickEnds := by
  have run : ∃ r, runAllowed step (fun r e => decide (r.Allowed e)) (init 2) orderlyRun = some r ∧
      r.history.count (.invoked 0) = 2 ∧ r.history.count (.invoked 1) = 1 := ⟨_, rfl, rfl, rfl⟩
  obtain ⟨r, run, twice, once⟩ := run
  have reached := (reaches_of_runAllowed orderlyRun run).mono fun _ _ ok => of_decide_eq_true ok
  exact ⟨r, run, twice, once, onTime_of_reaches reached⟩

def restartInCallback : List TimerEvent :=
  [.call .alloc, .call (.set 0 1 (some true)), .call (.run 0), .beginTick, .visit, .call (.run 0), .finishTick,
    .beginTick, .finishTick]

def stopInCallback : List TimerEvent :=
  [.call .alloc, .call .alloc, .call (.set 0 1 (some true)), .call (.set 1 1 (some true)), .call (.run 0),
    .call (.run 1), .beginTick, .visit, .call (.stop 0), .visit]

theorem not_onTime :
    (∃ r, runAllowed step (fun _ _ => true) (init 2) restartInCallback = some r ∧ ¬ OnTime r.history) ∧
      ∃ r, runAllowed step (fun _ _ => true) (init 2) stopInCallback = some r ∧ ¬ OnTime r.history := by
  have restarted : ∃ r, runAllowed step (fun _ _ => true) (init 2) restartInCallback = some r ∧
      r.history = [.tickDone, .tickBegun, .tickDone] ++ .started 0 1 true ::
        [.invoked 0, .tickBegun, .started 0 1 true] := ⟨_, rfl, rfl⟩
  have stopped : ∃ r, runAllowed step (fun _ _ => true) (init 2) stopInCallback = some r ∧
      r.history = .invoked 0 :: ([] ++ .stopped 0 ::
        [.invoked 1, .tickBegun, .started 1 1 true, .started 0 1 true]) := ⟨_, rfl, rfl⟩
  constructor
  · obtain ⟨r, run, history⟩ := restarted
    refine ⟨r, run, fun onTime => ?_⟩
    have invoked := onTime.invoked [] [.tickBegun, .tickDone] _ 0 1 history (by decide) (by decide) (by decide)
    simp at invoked
  · obtain ⟨r, run, history⟩ := stopped
    refine ⟨r, run, fun onTime => ?_⟩
    obtain ⟨d, callback, started⟩ := onTime.silent [] [] _ 0 _ history (.inl rfl)
    simp at started

end TimerRun

end IsrRan.Common
