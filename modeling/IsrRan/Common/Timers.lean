import Mathlib.Algebra.GroupWithZero.Nat
import IsrRan.Adt.IntrusiveList

namespace IsrRan.Common
open List Nat
open Function (update_apply update_eq_self update_idem update_of_ne update_self)

open Adt (Links)
open Function (update)

def wheelSize : Nat := 65536

def maxTimerDuration : Nat := 0x3FFFFFFF

inductive TimerMode where
  | stopped
  | running
  | expired
  deriving DecidableEq, Repr

/-- What `encode_state` packs into 64 bits: the mode flag, a duration of 30 bits and a timeout of 32. -/
structure TimerState where
  mode : TimerMode := .stopped
  duration : Nat := 0
  timeout : Nat := 0
  deriving DecidableEq, Repr

structure TimerImpl where
  allocated : Bool := false
  state : TimerState := {}
  callback : Bool := false
  deriving DecidableEq, Repr

def TimerImpl.isRunning (timer : TimerImpl) : Bool := timer.state.mode = .running

structure TimerHandler where
  curTime : Nat := 0
  timers : Nat → TimerImpl := fun _ => {}
  size : Nat
  freeList : List Nat
  links : Links Nat := {}
  wheel : Nat → Option Nat := fun _ => none

namespace TimerHandler

def init (capacity : Nat) : TimerHandler := { size := capacity, freeList := range capacity }

def slot (timeout : Nat) : Nat := timeout % wheelSize

def setTimer (h : TimerHandler) (id : Nat) (timer : TimerImpl) : TimerHandler :=
  { h with timers := update h.timers id timer }

def setState (h : TimerHandler) (id : Nat) (state : TimerState) : TimerHandler :=
  h.setTimer id { h.timers id with state }

def wheelPush (h : TimerHandler) (slot id : Nat) : TimerHandler :=
  { h with
    links := (h.links.pushFront (h.wheel slot) id).1
    wheel := update h.wheel slot (h.links.pushFront (h.wheel slot) id).2 }

def wheelPop (h : TimerHandler) (slot id : Nat) : TimerHandler :=
  { h with
    links := (h.links.pop (h.wheel slot) id).1
    wheel := update h.wheel slot (h.links.pop (h.wheel slot) id).2 }

/-- The state that `start_run_` gives a timer; a duration of 0 stands for the one that is set. -/
def startState (h : TimerHandler) (id duration : Nat) : TimerState :=
  let duration := if duration = 0 then (h.timers id).state.duration else duration
  ⟨.running, duration, (h.curTime + duration) % 2 ^ 32⟩

def startRun (h : TimerHandler) (id duration : Nat) : TimerHandler :=
  let oldSlot := slot (h.timers id).state.timeout
  let newSlot := slot (h.startState id duration).timeout
  if (h.timers id).isRunning && oldSlot == newSlot then h.setState id (h.startState id duration)
  else if (h.timers id).isRunning then
    ((h.wheelPop oldSlot id).wheelPush newSlot id).setState id (h.startState id duration)
  else (h.wheelPush newSlot id).setState id (h.startState id duration)

def stopTimer (h : TimerHandler) (id : Nat) (expiry : Bool) : TimerHandler :=
  let old := (h.timers id).state
  if (h.timers id).isRunning then
    (h.wheelPop (slot old.timeout) id).setState id { old with mode := if expiry then .expired else .stopped }
  else h

def allocTimer (h : TimerHandler) : Option (TimerHandler × Nat) :=
  match h.freeList with
  | id :: rest =>
    if (h.timers id).allocated then none
    else some ({ h with freeList := rest }.setTimer id { h.timers id with allocated := true }, id)
  | [] => some ({ h with size := h.size + 1 }.setTimer h.size { allocated := true }, h.size)

def deallocTimer (h : TimerHandler) (id : Nat) : TimerHandler :=
  if (h.timers id).allocated then
    { (h.stopTimer id false).setTimer id {} with freeList := id :: h.freeList }
  else h

def setDuration (h : TimerHandler) (id duration : Nat) : TimerHandler :=
  let duration := max duration 1
  if (h.timers id).isRunning then h.startRun id duration
  else h.setState id ⟨.stopped, duration, 0⟩

def set (h : TimerHandler) (id duration : Nat) (callback : Option Bool) : TimerHandler :=
  match callback with
  | none => h.setDuration id duration
  | some callback =>
    (h.setDuration id duration).setTimer id { (h.setDuration id duration).timers id with callback }

inductive Op where
  | alloc
  | set (id duration : Nat) (callback : Option Bool)
  | run (id : Nat)
  | stop (id : Nat)
  | release (id : Nat)
  deriving DecidableEq, Repr

/-- `none` where an assertion fails: the handle is empty or the duration is over the maximum. -/
def apply (h : TimerHandler) : Op → Option TimerHandler
  | .alloc => (allocTimer h).map Prod.fst
  | .set id duration callback =>
    if (h.timers id).allocated && duration ≤ maxTimerDuration then
      some (h.set id duration callback)
    else none
  | .run id => if (h.timers id).allocated then some (h.startRun id 0) else none
  | .stop id => some (if (h.timers id).allocated then h.stopTimer id false else h)
  | .release id => some (h.deallocTimer id)

variable {h : TimerHandler} {id : Nat} {lists : Nat → List Nat}

@[simp] theorem setTimer_timers (timer : TimerImpl) : (h.setTimer id timer).timers = update h.timers id timer := rfl

@[simp] theorem setState_timers (state : TimerState) :
    (h.setState id state).timers = update h.timers id { h.timers id with state } := rfl

@[simp] theorem wheelPush_timers (slot : Nat) : (h.wheelPush slot id).timers = h.timers := rfl

@[simp] theorem wheelPop_timers (slot : Nat) : (h.wheelPop slot id).timers = h.timers := rfl

section
variable (expiry : Bool)
include expiry

theorem stopTimer_of_not_running (idle : (h.timers id).isRunning = false) :
    h.stopTimer id expiry = h := by
  simp [stopTimer, idle]

theorem stopTimer_timers (running : (h.timers id).isRunning = true) :
    (h.stopTimer id expiry).timers = update h.timers id
      { h.timers id with
        state := { (h.timers id).state with mode := if expiry then .expired else .stopped } } := by
  simp only [stopTimer, running, if_true, setState_timers, wheelPop_timers]

@[simp] theorem stopTimer_curTime : (h.stopTimer id expiry).curTime = h.curTime := by
  unfold stopTimer
  split <;> rfl

@[simp] theorem stopTimer_size : (h.stopTimer id expiry).size = h.size := by
  unfold stopTimer
  split <;> rfl

@[simp] theorem stopTimer_freeList : (h.stopTimer id expiry).freeList = h.freeList := by
  unfold stopTimer
  split <;> rfl

end

theorem stopTimer_idle (h : TimerHandler) (id : Nat) (expiry : Bool) :
    ((h.stopTimer id expiry).timers id).isRunning = false := by
  by_cases running : (h.timers id).isRunning = true
  · rw [stopTimer_timers expiry running]
    cases expiry <;> simp [TimerImpl.isRunning]
  · rw [Bool.not_eq_true] at running
    rw [stopTimer_of_not_running expiry running, running]

theorem stopTimer_other (h : TimerHandler) (expiry : Bool) {other : Nat} (apart : other ≠ id) :
    (h.stopTimer id expiry).timers other = h.timers other := by
  by_cases running : (h.timers id).isRunning = true
  · rw [stopTimer_timers expiry running, update_of_ne apart]
  · rw [stopTimer_of_not_running expiry (by simpa using running)]

theorem stopTimer_keeps (h : TimerHandler) (id : Nat) (expiry : Bool) :
    ((h.stopTimer id expiry).timers id).callback = (h.timers id).callback ∧
      ((h.stopTimer id expiry).timers id).state.timeout = (h.timers id).state.timeout := by
  by_cases running : (h.timers id).isRunning = true
  · rw [stopTimer_timers expiry running, update_self]
    exact ⟨rfl, rfl⟩
  · rw [stopTimer_of_not_running expiry (by simpa using running)]
    exact ⟨rfl, rfl⟩

theorem startRun_timers (duration : Nat) : (h.startRun id duration).timers =
    update h.timers id { h.timers id with state := h.startState id duration } := by
  unfold startRun
  dsimp only
  split
  · rfl
  · split <;> rfl

@[simp] theorem startRun_curTime (duration : Nat) : (h.startRun id duration).curTime = h.curTime := by
  unfold startRun
  dsimp only
  split
  · rfl
  · split <;> rfl

@[simp] theorem startRun_freeList (duration : Nat) : (h.startRun id duration).freeList = h.freeList := by
  unfold startRun
  dsimp only
  split
  · rfl
  · split <;> rfl

@[simp] theorem startRun_size (duration : Nat) : (h.startRun id duration).size = h.size := by
  unfold startRun
  dsimp only
  split
  · rfl
  · split <;> rfl

structure Linked (h : TimerHandler) (lists : Nat → List Nat) : Prop where
  chain : ∀ slot, h.links.Chain none (h.wheel slot) (lists slot)
  nodup : ∀ slot, (lists slot).Nodup
  mem : ∀ slot id, id ∈ lists slot ↔
    (h.timers id).isRunning = true ∧ TimerHandler.slot (h.timers id).state.timeout = slot
  loose : ∀ id, (h.timers id).isRunning = false → h.links.next id = none

theorem init_linked (capacity : Nat) : (init capacity).Linked fun _ => [] := by
  refine ⟨fun _ => rfl, fun _ => .nil, fun slot id => ?_, fun _ _ => rfl⟩
  simp [init, TimerImpl.isRunning]

namespace Linked

section
variable (linked : h.Linked lists)
include linked

theorem disjoint {a b : Nat} (other : a ≠ b) : (lists a).Disjoint (lists b) := by
  intro id inA inB
  have slotA := ((linked.mem a id).mp inA).2
  have slotB := ((linked.mem b id).mp inB).2
  exact other (slotA.symm.trans slotB)

theorem setTimer {timer : TimerImpl}
    (running : timer.isRunning = (h.timers id).isRunning)
    (place : timer.isRunning = true →
      TimerHandler.slot timer.state.timeout = TimerHandler.slot (h.timers id).state.timeout) :
    (h.setTimer id timer).Linked lists := by
  refine ⟨linked.chain, linked.nodup, fun slot other => ?_, fun other idle => ?_⟩
  · rw [linked.mem, setTimer_timers, update_apply]
    split
    · rename_i same
      subst same
      rw [running]
      refine and_congr_right fun isRunning => ?_
      rw [place (running.trans isRunning)]
    · rfl
  · rw [setTimer_timers, update_apply] at idle
    refine linked.loose other ?_
    split at idle
    · rename_i same
      rw [same, ← running, idle]
    · exact idle

theorem pop (running : (h.timers id).isRunning = true) (state : TimerState)
    (mode : state.mode ≠ .running) :
    ((h.wheelPop (TimerHandler.slot (h.timers id).state.timeout) id).setState id state).Linked
      fun slot => (lists slot).erase id := by
  generalize place : TimerHandler.slot (h.timers id).state.timeout = own
  have mem : id ∈ lists own := (linked.mem _ _).mpr ⟨running, place⟩
  have chain := linked.chain own
  refine ⟨fun slot => ?_, fun slot => (linked.nodup slot).erase id, fun slot other => ?_, fun other idle => ?_⟩
  · change (h.links.pop (h.wheel own) id).1.Chain none (update h.wheel own _ slot) _
    rw [update_apply]
    split
    · rename_i same
      subst same
      exact Links.pop_chain chain (linked.nodup slot) (by simp) mem
    · rename_i other
      have apart := linked.disjoint (Ne.symm other)
      rw [erase_of_not_mem (apart mem)]
      exact Links.pop_other chain mem (linked.chain slot) apart
  · rw [(linked.nodup slot).mem_erase_iff, linked.mem]
    simp only [setState_timers, update_apply]
    split
    · simp_all [TimerImpl.isRunning]
    · simp_all
  · simp only [setState_timers, wheelPop_timers, update_apply] at idle
    change (h.links.pop (h.wheel own) id).1.next other = none
    rw [Links.pop_next]
    split
    · rfl
    · rename_i apart
      rw [if_neg (Ne.symm apart)] at idle
      have loose := linked.loose other idle
      rw [if_neg, loose]
      intro before
      have inside : other ∈ lists own := by
        rcases chain.prev_mem mem with ⟨first, _⟩ | ⟨p, inside, eq⟩
        · rw [before] at first
          contradiction
        · rw [before] at eq
          exact Option.some.inj eq ▸ inside
      rw [((linked.mem _ _).mp inside).1] at idle
      contradiction

theorem push (idle : (h.timers id).isRunning = false) (state : TimerState)
    (mode : state.mode = .running) :
    ((h.wheelPush (TimerHandler.slot state.timeout) id).setState id state).Linked
      (update lists (TimerHandler.slot state.timeout) (id :: lists (TimerHandler.slot state.timeout))) := by
  have fresh : ∀ slot, id ∉ lists slot := by
    intro slot inside
    rw [((linked.mem _ _).mp inside).1] at idle
    contradiction
  have chain := linked.chain (TimerHandler.slot state.timeout)
  refine ⟨fun slot => ?_, fun slot => ?_, fun slot other => ?_, fun other idleNow => ?_⟩
  · change (h.links.pushFront (h.wheel _) id).1.Chain none (update h.wheel _ _ slot) _
    by_cases same : slot = TimerHandler.slot state.timeout
    · rw [same, update_self, update_self]
      exact Links.pushFront_chain chain (linked.nodup _) (fresh _)
    · rw [update_of_ne same, update_of_ne same]
      exact Links.pushFront_other chain (linked.chain slot) (linked.disjoint (Ne.symm same)) (fresh slot)
  · rw [update_apply]
    split
    · exact List.nodup_cons.mpr ⟨fresh _, linked.nodup _⟩
    · exact linked.nodup slot
  · simp only [setState_timers]
    have old := linked.mem slot other
    by_cases self : other = id
    · subst self
      by_cases same : slot = TimerHandler.slot state.timeout
      · simp [same, TimerImpl.isRunning, mode]
      · simp [same, fresh slot, Ne.symm same]
    · by_cases same : slot = TimerHandler.slot state.timeout
      · simpa [same, self] using same ▸ old
      · simpa [same, self] using old
  · simp only [setState_timers, update_apply] at idleNow
    change (h.links.pushFront (h.wheel _) id).1.next other = none
    rw [Links.pushFront_next]
    by_cases self : other = id
    · subst self
      simp [TimerImpl.isRunning, mode] at idleNow
    · rw [if_neg self] at idleNow
      rw [if_neg (Ne.symm self)]
      exact linked.loose other idleNow

theorem stopTimer (id : Nat) (expiry : Bool) :
    (h.stopTimer id expiry).Linked fun slot => (lists slot).erase id := by
  by_cases running : (h.timers id).isRunning = true
  · unfold TimerHandler.stopTimer
    simp only [running]
    exact linked.pop running _ (by cases expiry <;> simp)
  · have idle : (h.timers id).isRunning = false := by simpa using running
    rw [stopTimer_of_not_running expiry idle]
    have absent : (fun slot => (lists slot).erase id) = lists := by
      funext slot
      exact erase_of_not_mem fun inside => running ((linked.mem _ _).mp inside).1
    rw [absent]
    exact linked

theorem startRun (id duration : Nat) :
    ∃ lists', (h.startRun id duration).Linked lists' := by
  have mode : (h.startState id duration).mode = .running := rfl
  unfold TimerHandler.startRun
  dsimp only
  split
  · rename_i stays
    obtain ⟨running, place⟩ := Bool.and_eq_true_iff.mp stays
    exact ⟨lists, linked.setTimer (by simp [TimerImpl.isRunning, mode] at running ⊢; exact running)
      fun _ => (beq_iff_eq.mp place).symm⟩
  · split
    · rename_i running
      -- between the two the timer is in no list, as if it were stopped
      have stopped := linked.pop running {} (by simp)
      have idle : ((h.wheelPop (slot (h.timers id).state.timeout) id).setState id {}).timers id =
          { h.timers id with state := {} } := by simp
      have pushed := stopped.push (by rw [idle]; rfl) (h.startState id duration) mode
      have same : ((((h.wheelPop (slot (h.timers id).state.timeout) id).setState id {}).wheelPush
            (slot (h.startState id duration).timeout) id).setState id (h.startState id duration)) =
          ((h.wheelPop (slot (h.timers id).state.timeout) id).wheelPush
            (slot (h.startState id duration).timeout) id).setState id (h.startState id duration) := by
        simp [setState, TimerHandler.setTimer, wheelPush]
      exact ⟨_, same ▸ pushed⟩
    · rename_i idle
      exact ⟨_, linked.push (by simpa using idle) _ mode⟩

end

end Linked

end TimerHandler

structure TimerImpl.Valid (timer : TimerImpl) : Prop where
  blank : timer.allocated = false → timer = {}
  callback : timer.callback = true → 1 ≤ timer.state.duration
  duration : timer.state.duration ≤ maxTimerDuration
  timeout : timer.state.timeout < 2 ^ 32

namespace TimerHandler

structure Valid (h : TimerHandler) : Prop where
  timer : ∀ id, (h.timers id).Valid
  size : ∀ id, (h.timers id).allocated = true → id < h.size
  free : ∀ id ∈ h.freeList, id < h.size

variable {h h' : TimerHandler} {id : Nat}

variable {duration : Nat} {lists : Nat → List Nat}

theorem blank_valid : TimerImpl.Valid {} := by
  refine ⟨fun _ => rfl, ?_, ?_, ?_⟩ <;> decide

theorem Valid.update {timer : TimerImpl} (valid : h.Valid) (timers : h'.timers = update h.timers id timer)
    (size : h.size ≤ h'.size) (free : ∀ id ∈ h'.freeList, id < h'.size) (new : timer.Valid)
    (inside : timer.allocated = true → id < h'.size) : h'.Valid := by
  refine ⟨fun other => ?_, fun other => ?_, free⟩
  · rw [timers, update_apply]
    split
    · exact new
    · exact valid.timer other
  · rw [timers, update_apply]
    split
    · rename_i same
      rw [same]
      exact inside
    · exact fun allocated => Nat.lt_of_lt_of_le (valid.size other allocated) size

theorem Valid.allocated_of_running (valid : h.Valid) (running : (h.timers id).isRunning = true) :
    (h.timers id).allocated = true := by
  by_contra free
  rw [(valid.timer id).blank (by simpa using free)] at running
  contradiction

theorem init_valid (capacity : Nat) : (init capacity).Valid :=
  ⟨fun _ => blank_valid, fun _ allocated => by simp [init] at allocated, fun id mem => List.mem_range.mp mem⟩

section
variable (valid : h.Valid)
include valid

theorem stopTimer_valid (id : Nat) (expiry : Bool) : (h.stopTimer id expiry).Valid := by
  by_cases running : (h.timers id).isRunning = true
  · have old := valid.timer id
    have allocated := valid.allocated_of_running running
    refine valid.update (stopTimer_timers expiry running) (by simp) (by simpa using valid.free)
      ⟨?_, old.callback, old.duration, old.timeout⟩ (by simpa using valid.size id)
    intro free
    simp [allocated] at free
  · rw [stopTimer_of_not_running expiry (by simpa using running)]
    exact valid

theorem startState_duration_pos (callback : (h.timers id).callback = true) (duration : Nat) :
    1 ≤ (h.startState id duration).duration := by
  have := (valid.timer id).callback callback
  simp only [startState]
  split <;> omega

theorem startState_duration_le (bound : duration ≤ maxTimerDuration) :
    (h.startState id duration).duration ≤ maxTimerDuration := by
  simp only [startState]
  split
  · exact (valid.timer id).duration
  · exact bound

theorem startRun_valid (allocated : (h.timers id).allocated = true)
    (bound : duration ≤ maxTimerDuration) : (h.startRun id duration).Valid := by
  refine valid.update (startRun_timers duration) (by simp) (by simpa using valid.free)
    ⟨?_, fun callback => startState_duration_pos valid callback duration, startState_duration_le valid bound,
      mod_lt _ (by decide)⟩ (by simpa using valid.size id)
  intro free
  simp [allocated] at free

theorem allocTimer_spec (ok : h.allocTimer = some (h', id)) :
    (h.timers id).allocated = false ∧ h'.timers = update h.timers id { allocated := true } ∧
      h'.curTime = h.curTime ∧ h'.links = h.links ∧ h'.wheel = h.wheel ∧ h'.Valid := by
  have taken : TimerImpl.Valid { allocated := true } := by
    refine ⟨?_, ?_, ?_, ?_⟩ <;> decide
  unfold allocTimer at ok
  split at ok
  · rename_i first rest freeList
    split at ok
    · contradiction
    · rename_i free
      obtain ⟨rfl, rfl⟩ := Prod.mk.inj (Option.some.inj ok)
      have blank := (valid.timer first).blank (by simpa using free)
      have inside : first < h.size := valid.free first (by simp [freeList])
      have timers : update h.timers first { h.timers first with allocated := true } =
          update h.timers first { allocated := true } := by rw [blank]
      refine ⟨by simpa using free, timers, rfl, rfl, rfl, ?_⟩
      refine valid.update timers (Nat.le_refl _) (fun id mem => ?_) taken fun _ => inside
      exact valid.free id (by rw [freeList]; exact mem_cons_of_mem _ mem)
  · rename_i freeList
    obtain ⟨rfl, rfl⟩ := Prod.mk.inj (Option.some.inj ok)
    have free : (h.timers h.size).allocated = false := by
      by_contra allocated
      exact Nat.lt_irrefl _ (valid.size h.size (by simpa using allocated))
    refine ⟨free, rfl, rfl, rfl, rfl, ?_⟩
    refine valid.update rfl (le_succ _) (fun id mem => ?_) taken fun _ => lt_succ_self _
    exact lt_succ_of_lt (valid.free id mem)

theorem deallocTimer_valid (id : Nat) : (h.deallocTimer id).Valid := by
  unfold deallocTimer
  split
  · rename_i allocated
    refine (stopTimer_valid valid id false).update rfl (Nat.le_refl _) (fun other mem => ?_) blank_valid
      (by simp)
    change other < (h.stopTimer id false).size
    rw [stopTimer_size]
    rcases List.mem_cons.mp mem with rfl | mem
    · exact valid.size _ allocated
    · exact valid.free other mem
  · exact valid

end

theorem deallocTimer_timers (id : Nat) (valid : h.Valid) : (h.deallocTimer id).timers = update h.timers id {} := by
  unfold deallocTimer
  split
  · change update (h.stopTimer id false).timers id {} = _
    by_cases running : (h.timers id).isRunning = true
    · rw [stopTimer_timers false running, update_idem]
    · rw [stopTimer_of_not_running false (by simpa using running)]
  · rename_i free
    rw [← (valid.timer id).blank (by simpa using free), update_eq_self]

theorem deallocTimer_linked (linked : h.Linked lists) (id : Nat) (valid : h.Valid) :
    (h.deallocTimer id).Linked fun slot => (lists slot).erase id := by
  have stopped := linked.stopTimer id false
  unfold deallocTimer
  split
  · have idle : ((h.stopTimer id false).timers id).isRunning = false := by
      by_cases running : (h.timers id).isRunning = true
      · rw [stopTimer_timers false running]
        simp [TimerImpl.isRunning]
      · rw [stopTimer_of_not_running false (by simpa using running)]
        simpa using running
    have blank : ((h.stopTimer id false).setTimer id {}).Linked fun slot => (lists slot).erase id :=
      stopped.setTimer (by rw [idle]; rfl) (by simp [TimerImpl.isRunning])
    exact ⟨blank.chain, blank.nodup, blank.mem, blank.loose⟩
  · rename_i free
    have notRunning : (h.timers id).isRunning = false := by
      rw [(valid.timer id).blank (by simpa using free)]
      rfl
    rw [stopTimer_of_not_running false notRunning] at stopped
    exact stopped

theorem set_timers (id duration : Nat) (callback : Option Bool) : (h.set id duration callback).timers =
    update h.timers id
      { h.timers id with
        state := if (h.timers id).isRunning then h.startState id (max duration 1)
          else ⟨.stopped, max duration 1, 0⟩
        callback := callback.getD (h.timers id).callback } := by
  by_cases running : (h.timers id).isRunning = true
  · cases callback <;> simp [set, setDuration, running, startRun_timers]
  · cases callback <;> simp [set, setDuration, running]

@[simp] theorem set_curTime (id duration : Nat) (callback : Option Bool) :
    (h.set id duration callback).curTime = h.curTime := by
  have base : (h.setDuration id duration).curTime = h.curTime := by
    unfold setDuration
    split
    · exact startRun_curTime _
    · rfl
  cases callback <;> exact base

theorem set_valid (valid : h.Valid) (allocated : (h.timers id).allocated = true)
    (bound : duration ≤ maxTimerDuration) (callback : Option Bool) : (h.set id duration callback).Valid := by
  have bound' : max duration 1 ≤ maxTimerDuration := Nat.max_le.mpr ⟨bound, by decide⟩
  have size : (h.set id duration callback).size = h.size ∧ (h.set id duration callback).freeList = h.freeList := by
    have base : (h.setDuration id duration).size = h.size ∧ (h.setDuration id duration).freeList = h.freeList := by
      unfold setDuration
      split
      · simp
      · exact ⟨rfl, rfl⟩
    cases callback <;> exact base
  refine valid.update (set_timers id duration callback) (by omega) (by rw [size.1, size.2]; exact valid.free)
    ⟨?_, ?_, ?_, ?_⟩ (by rw [size.1]; exact valid.size id)
  · intro free
    simp [allocated] at free
  · intro _
    split
    · change 1 ≤ if max duration 1 = 0 then _ else _
      rw [if_neg (by omega)]
      exact Nat.le_max_right _ _
    · exact Nat.le_max_right _ _
  · dsimp only
    split
    · exact startState_duration_le valid bound'
    · exact bound'
  · dsimp only
    split
    · exact mod_lt _ (by decide)
    · exact Nat.two_pow_pos 32

theorem Linked.setCallback (linked : h.Linked lists) (id : Nat) (callback : Bool) :
    (h.setTimer id { h.timers id with callback }).Linked lists :=
  linked.setTimer rfl fun _ => rfl

theorem Linked.set (linked : h.Linked lists) (id duration : Nat)
    (callback : Option Bool) : ∃ lists', (h.set id duration callback).Linked lists' ∧
      ((h.timers id).isRunning = false → lists' = lists) := by
  have base : ∃ lists', (h.setDuration id duration).Linked lists' ∧
      ((h.timers id).isRunning = false → lists' = lists) := by
    unfold setDuration
    split
    · rename_i running
      obtain ⟨lists', started⟩ := linked.startRun id (max duration 1)
      exact ⟨lists', started, by simp [running]⟩
    · rename_i idle
      refine ⟨lists, linked.setTimer ?_ (by simp [TimerImpl.isRunning]), fun _ => rfl⟩
      rw [Bool.not_eq_true] at idle
      rw [idle]
      rfl
  obtain ⟨lists', linked', same⟩ := base
  cases callback with
  | none => exact ⟨lists', linked', same⟩
  | some callback => exact ⟨lists', linked'.setCallback id callback, same⟩

end TimerHandler

end IsrRan.Common
