import Mathlib.Data.Nat.ModEq
import IsrRan.Common.Memory

namespace IsrRan.Adt
open List Nat

/-- `base_circular_buffer`: the storage slots, of which those of the content hold an object. -/
structure CircularBuffer (α : Type) where
  maxSize : Nat
  buffer : Nat → Option α := fun _ => none
  rpos : Nat := 0
  count : Nat := 0

namespace CircularBuffer
variable {α : Type} (b : CircularBuffer α)

def full : Bool := b.count == b.maxSize

def isEmpty : Bool := b.count == 0

def wrap (pos : Nat) : Except Fault Nat := if b.maxSize = 0 then .error .undefinedBehaviour else .ok (pos % b.maxSize)

def write (idx : Nat) (t : Option α) : CircularBuffer α := { b with buffer := fun i => if i = idx then t else b.buffer i }

@[simp] theorem write_maxSize (idx : Nat) (t : Option α) : (b.write idx t).maxSize = b.maxSize := rfl

@[simp] theorem write_rpos (idx : Nat) (t : Option α) : (b.write idx t).rpos = b.rpos := rfl

@[simp] theorem write_count (idx : Nat) (t : Option α) : (b.write idx t).count = b.count := rfl

def read (idx : Nat) : Except Fault α :=
  match b.buffer idx with
  | some t => .ok t
  | none => .error .undefinedBehaviour

def push (t : α) : Except Fault (CircularBuffer α) :=
  if b.full then .error .assertionFailed
  else do
    let wpos ← b.wrap (b.rpos + b.count)
    pure { b.write wpos (some t) with count := b.count + 1 }

def tryPush (t : α) : Except Fault (Bool × CircularBuffer α) :=
  if b.full then .ok (false, b) else (b.push t).map fun b => (true, b)

def pop : Except Fault (CircularBuffer α) :=
  if b.isEmpty then .error .assertionFailed
  else do
    let rpos ← b.wrap (b.rpos + 1)
    pure { b.write b.rpos none with rpos, count := b.count - 1 }

def clear : CircularBuffer α :=
  { (range b.count).foldl (fun b' i => b'.write ((b.rpos + i) % b.maxSize) none) b with count := 0 }

def get (i : Nat) : Except Fault α :=
  if b.count ≤ i then .error .assertionFailed
  else do
    let idx ← b.wrap (b.rpos + i)
    b.read idx

def deref (idx : Nat) : Except Fault α :=
  if idx + (if b.rpos ≤ idx then 0 else b.maxSize) < b.rpos + b.count then b.read idx else .error .assertionFailed

/-- From one iterator to another, calling `func` on what is between, which may change it, until it returns true. The
elements visited are kept. -/
def visitLoop (func : α → Bool × α) (last : Nat) : (turns idx : Nat) → CircularBuffer α →
    Except Fault (Bool × List α × CircularBuffer α)
  | 0, _, _ => .error .undefinedBehaviour
  | turns + 1, idx, b =>
    if idx = last then .ok (false, [], b)
    else do
      let t ← b.deref idx
      if (func t).1 then pure (true, [t], b.write idx (some (func t).2))
      else
        let next ← b.wrap (idx + 1)
        let (found, visited, b) ← visitLoop func last turns next (b.write idx (some (func t).2))
        pure (found, t :: visited, b)

def applyFirst (func : α → Bool × α) : Except Fault (Bool × List α × CircularBuffer α) := do
  let last ← b.wrap (b.rpos + b.count)
  visitLoop func last (b.maxSize + 1) b.rpos b

def iterate : Except Fault (List α) := (b.applyFirst fun t => (false, t)).map fun (_, visited, _) => visited

end CircularBuffer

/-! The abstract buffer is the list of its elements, the oldest first. -/

inductive BufferOp (α : Type) where
  | push (t : α)
  | tryPush (t : α)
  | pop
  | clear
  | get (i : Nat)
  | iterate
  | applyFirst (func : α → Bool × α)

inductive BufferResult (α : Type) where
  | done
  | pushed (ok : Bool)
  | element (t : α)
  | visited (found : Bool) (elements : List α)
  deriving DecidableEq

def CircularBuffer.step {α : Type} (b : CircularBuffer α) : BufferOp α → Except Fault (BufferResult α × CircularBuffer α)
  | .push t => (b.push t).map fun b => (.done, b)
  | .tryPush t => (b.tryPush t).map fun (ok, b) => (.pushed ok, b)
  | .pop => b.pop.map fun b => (.done, b)
  | .clear => .ok (.done, b.clear)
  | .get i => (b.get i).map fun t => (.element t, b)
  | .iterate => b.iterate.map fun elements => (.visited false elements, b)
  | .applyFirst func => (b.applyFirst func).map fun (found, elements, b) => (.visited found elements, b)

namespace BoundedList
variable {α : Type}

def applyFirst (func : α → Bool × α) : List α → Bool × List α × List α
  | [] => (false, [], [])
  | t :: rest =>
    if (func t).1 then (true, [t], (func t).2 :: rest)
    else
      let (found, visited, rest) := applyFirst func rest
      (found, t :: visited, (func t).2 :: rest)

def step (capacity : Nat) (l : List α) : BufferOp α → Except Fault (BufferResult α × List α)
  | .push t => if l.length = capacity then .error .assertionFailed else .ok (.done, l ++ [t])
  | .tryPush t => if l.length = capacity then .ok (.pushed false, l) else .ok (.pushed true, l ++ [t])
  | .pop => if l.length = 0 then .error .assertionFailed else .ok (.done, l.tail)
  | .clear => .ok (.done, [])
  | .get i => match l[i]? with
    | some t => .ok (.element t, l)
    | none => .error .assertionFailed
  | .iterate => .ok (.visited false l, l)
  | .applyFirst func =>
    let (found, visited, l) := applyFirst func l
    .ok (.visited found visited, l)

end BoundedList

def results {σ ε ρ : Type} (step : σ → ε → Except Fault (ρ × σ)) (s : σ) : List ε → List ρ × Option Fault
  | [] => ([], none)
  | op :: rest =>
    match step s op with
    | .error fault => ([], some fault)
    | .ok (result, s) =>
      let (more, fault) := results step s rest
      (result :: more, fault)

/-! The slots hold the elements from `rpos` on. -/

structure Represents {α : Type} (b : CircularBuffer α) (l : List α) : Prop where
  count : b.count = l.length
  fits : l.length ≤ b.maxSize
  rpos : b.rpos < b.maxSize ∨ b.maxSize = 0
  slots : ∀ i, i < l.length → b.buffer ((b.rpos + i) % b.maxSize) = l[i]?

section
variable {n r i j : Nat}

theorem mod_add_inj (hi : i < n) (hj : j < n) (same : (r + i) % n = (r + j) % n) : i = j := by
  have shifted : i % n = j % n := Nat.ModEq.add_left_cancel' r same
  rwa [mod_eq_of_lt hi, mod_eq_of_lt hj] at shifted

end

namespace Represents
variable {α : Type} {b : CircularBuffer α} {l : List α}

theorem empty (capacity : Nat) : Represents (CircularBuffer.mk capacity (fun _ => none) 0 0 : CircularBuffer α) [] := by
  refine ⟨rfl, Nat.zero_le _, ?_, by simp⟩
  rcases Nat.eq_zero_or_pos capacity with zero | pos
  · exact .inr zero
  · exact .inl pos

section
variable (rep : Represents b l)
include rep

theorem push (t : α) :
    (b.full = true ∧ l.length = b.maxSize) ∨
    ∃ b', b.push t = .ok b' ∧ b.full = false ∧ Represents b' (l ++ [t]) ∧ b'.maxSize = b.maxSize ∧
      l.length ≠ b.maxSize := by
  obtain ⟨count, fits, rpos, slots⟩ := rep
  by_cases isFull : l.length = b.maxSize
  · exact .inl ⟨by simp [CircularBuffer.full, count, isFull], isFull⟩
  · have notFull : b.full = false := by simp [CircularBuffer.full, count, isFull]
    have pos : b.maxSize ≠ 0 := by omega
    refine .inr ⟨{ b.write ((b.rpos + b.count) % b.maxSize) (some t) with count := b.count + 1 }, ?_, notFull, ?_, rfl,
      isFull⟩
    · simp [CircularBuffer.push, notFull, CircularBuffer.wrap, pos, bind, Except.bind, pure, Except.pure]
    · refine ⟨by simp [count], by simp; omega, rpos, ?_⟩
      intro i below
      simp only [length_append, length_singleton] at below
      dsimp only [CircularBuffer.write]
      by_cases last : i = l.length
      · simp [last, count]
      · have apart : (b.rpos + i) % b.maxSize ≠ (b.rpos + b.count) % b.maxSize := by
          intro same
          have := mod_add_inj (by omega) (by omega) same
          omega
        rw [if_neg apart, slots i (by omega), List.getElem?_append_left (by omega)]

theorem pop :
    (b.pop = .error .assertionFailed ∧ l.length = 0) ∨
    ∃ b', b.pop = .ok b' ∧ Represents b' l.tail ∧ b'.maxSize = b.maxSize ∧ l.length ≠ 0 := by
  obtain ⟨count, fits, rpos, slots⟩ := rep
  by_cases none_ : l.length = 0
  · exact .inl ⟨by simp [CircularBuffer.pop, CircularBuffer.isEmpty, count, none_], none_⟩
  · have pos : b.maxSize ≠ 0 := by omega
    refine .inr ⟨{ b.write b.rpos none with rpos := (b.rpos + 1) % b.maxSize, count := b.count - 1 }, ?_, ?_, rfl, none_⟩
    · simp [CircularBuffer.pop, CircularBuffer.isEmpty, count, none_, CircularBuffer.wrap, pos, bind, Except.bind, pure,
        Except.pure]
    · refine ⟨by simp [count], by simp; omega, .inl (mod_lt _ (by omega)), ?_⟩
      intro i below
      rw [length_tail] at below
      dsimp only [CircularBuffer.write]
      have next : ((b.rpos + 1) % b.maxSize + i) % b.maxSize = (b.rpos + (i + 1)) % b.maxSize := by
        rw [mod_add_mod]
        congr 1
        omega
      have here : b.rpos = (b.rpos + 0) % b.maxSize := by
        rw [Nat.add_zero, mod_eq_of_lt (by omega)]
      have apart : (b.rpos + (i + 1)) % b.maxSize ≠ b.rpos := by
        intro same
        rw [here] at same
        rw [mod_add_mod] at same
        have := mod_add_inj (by omega) (by omega) same
        omega
      rw [next, if_neg apart, slots (i + 1) (by omega), List.getElem?_tail]

theorem clear : Represents b.clear [] ∧ b.clear.maxSize = b.maxSize := by
  have kept : ∀ (positions : List Nat) (b' : CircularBuffer α),
      (positions.foldl (fun b' i => b'.write ((b.rpos + i) % b.maxSize) none) b').maxSize = b'.maxSize ∧
      (positions.foldl (fun b' i => b'.write ((b.rpos + i) % b.maxSize) none) b').rpos = b'.rpos := by
    intro positions
    induction positions with
    | nil => exact fun b' => ⟨rfl, rfl⟩
    | cons i rest ih => exact fun b' => ih (b'.write ((b.rpos + i) % b.maxSize) none)
  obtain ⟨size, start⟩ := kept (range b.count) b
  refine ⟨⟨rfl, Nat.zero_le _, ?_, by simp⟩, size⟩
  dsimp only [CircularBuffer.clear]
  rw [size, start]
  exact rep.rpos

theorem get (i : Nat) : b.get i = match l[i]? with
    | some t => .ok t
    | none => .error .assertionFailed := by
  obtain ⟨count, fits, rpos, slots⟩ := rep
  unfold CircularBuffer.get
  by_cases inside : i < l.length
  · have slot := slots i inside
    rw [if_neg (by omega), List.getElem?_eq_getElem inside]
    rw [List.getElem?_eq_getElem inside] at slot
    simp [CircularBuffer.wrap, show b.maxSize ≠ 0 by omega, CircularBuffer.read, slot, bind, Except.bind]
  · rw [if_pos (by omega), List.getElem?_eq_none (by omega)]

end

end Represents

namespace Represents
variable {α : Type} {b : CircularBuffer α} {front rest : List α} {t : α}

theorem deref (rep : Represents b (front ++ t :: rest)) :
    b.deref ((b.rpos + front.length) % b.maxSize) = .ok t := by
  obtain ⟨count, fits, rpos, slots⟩ := rep
  have slot := slots front.length (by simp)
  simp only [length_append, length_cons] at count fits
  rw [List.getElem?_append_right (Nat.le_refl _), Nat.sub_self, List.getElem?_cons_zero] at slot
  have inside : (b.rpos + front.length) % b.maxSize +
      (if b.rpos ≤ (b.rpos + front.length) % b.maxSize then 0 else b.maxSize) < b.rpos + b.count := by
    by_cases wraps : b.rpos + front.length < b.maxSize
    · rw [mod_eq_of_lt wraps, if_pos (by omega)]
      omega
    · have wrapped : (b.rpos + front.length) % b.maxSize = b.rpos + front.length - b.maxSize := by
        rw [mod_eq_sub_mod (by omega), mod_eq_of_lt (by omega)]
      rw [if_neg (by omega)]
      omega
  rw [CircularBuffer.deref, if_pos inside, CircularBuffer.read, slot]

theorem write (rep : Represents b (front ++ t :: rest)) (t' : α) :
    Represents (b.write ((b.rpos + front.length) % b.maxSize) (some t')) (front ++ t' :: rest) := by
  obtain ⟨count, fits, rpos, slots⟩ := rep
  simp only [length_append, length_cons] at count fits slots
  refine ⟨by simpa using count, by simpa using fits, by simpa using rpos, ?_⟩
  intro i below
  simp only [length_append, length_cons] at below
  dsimp only [CircularBuffer.write]
  by_cases here : i = front.length
  · rw [here, if_pos rfl, List.getElem?_append_right (Nat.le_refl _), Nat.sub_self, List.getElem?_cons_zero]
  · have apart : (b.rpos + i) % b.maxSize ≠ (b.rpos + front.length) % b.maxSize := by
      intro same
      exact here (mod_add_inj (by omega) (by omega) same)
    rw [if_neg apart, slots i below]
    by_cases before : i < front.length
    · rw [List.getElem?_append_left before, List.getElem?_append_left before]
    · obtain ⟨k, later⟩ := exists_eq_succ_of_ne_zero (show i - front.length ≠ 0 by omega)
      rw [List.getElem?_append_right (by omega), List.getElem?_append_right (by omega), later,
        List.getElem?_cons_succ, List.getElem?_cons_succ]

theorem visitLoop (func : α → Bool × α) (rep : Represents b (front ++ rest)) (notFull : b.count < b.maxSize)
    {turns : Nat} (enough : rest.length < turns) :
    ∃ b', CircularBuffer.visitLoop func ((b.rpos + b.count) % b.maxSize) turns ((b.rpos + front.length) % b.maxSize) b =
        .ok ((BoundedList.applyFirst func rest).1, (BoundedList.applyFirst func rest).2.1, b') ∧
      Represents b' (front ++ (BoundedList.applyFirst func rest).2.2) ∧ b'.maxSize = b.maxSize := by
  induction rest generalizing b front turns with
  | nil =>
    obtain ⟨turns, rfl⟩ := exists_eq_succ_of_ne_zero (Nat.ne_of_gt enough)
    have atLast : (b.rpos + front.length) % b.maxSize = (b.rpos + b.count) % b.maxSize := by
      rw [rep.count, append_nil]
    refine ⟨b, ?_, rep, rfl⟩
    rw [CircularBuffer.visitLoop, if_pos atLast]
    rfl
  | cons t rest ih =>
    obtain ⟨turns, rfl⟩ := exists_eq_succ_of_ne_zero (show turns ≠ 0 by omega)
    have size : b.count = front.length + (rest.length + 1) := by simpa using rep.count
    have notLast : (b.rpos + front.length) % b.maxSize ≠ (b.rpos + b.count) % b.maxSize := by
      intro same
      have := mod_add_inj (by omega) (by omega) same
      omega
    have written := rep.write (func t).2
    have read := rep.deref
    unfold CircularBuffer.visitLoop BoundedList.applyFirst
    rw [if_neg notLast, read]
    by_cases found : (func t).1 = true
    · refine ⟨b.write ((b.rpos + front.length) % b.maxSize) (some (func t).2), ?_, ?_, rfl⟩
      · simp [found, bind, Except.bind, pure, Except.pure]
      · rw [if_pos found]
        exact written
    · have next : ((b.rpos + front.length) % b.maxSize + 1) % b.maxSize =
          (b.rpos + (front ++ [(func t).2]).length) % b.maxSize := by
        rw [mod_add_mod, length_append, length_singleton, Nat.add_assoc]
      rw [← singleton_append, ← append_assoc] at written
      obtain ⟨b', visited, rep', size'⟩ := ih written notFull (show rest.length < turns by simp at enough; omega)
      simp only [CircularBuffer.write_rpos, CircularBuffer.write_maxSize, CircularBuffer.write_count] at visited size'
      refine ⟨b', ?_, ?_, size'⟩
      · simp only [found, Bool.false_eq_true, if_false, CircularBuffer.wrap, show b.maxSize ≠ 0 by omega, next, visited,
          bind, Except.bind, pure, Except.pure]
      · rw [if_neg found]
        simpa using rep'

theorem applyFirst (func : α → Bool × α) {l : List α} (rep : Represents b l) (notFull : l.length ≠ b.maxSize) :
    ∃ b', b.applyFirst func =
        .ok ((BoundedList.applyFirst func l).1, (BoundedList.applyFirst func l).2.1, b') ∧
      Represents b' (BoundedList.applyFirst func l).2.2 ∧ b'.maxSize = b.maxSize := by
  have below : l.length < b.maxSize := Nat.lt_of_le_of_ne rep.fits notFull
  have start : (b.rpos + ([] : List α).length) % b.maxSize = b.rpos := by
    rcases rep.rpos with inside | none_
    · exact mod_eq_of_lt inside
    · omega
  obtain ⟨b', visited, rep', size⟩ := @visitLoop _ b [] l func rep (by rw [rep.count]; exact below) (b.maxSize + 1)
    (by omega)
  rw [start] at visited
  refine ⟨b', ?_, rep', size⟩
  simp only [CircularBuffer.applyFirst, CircularBuffer.wrap, show b.maxSize ≠ 0 by omega, if_false, visited, bind,
    Except.bind]

theorem applyFirst_full (func : α → Bool × α) {l : List α} (rep : Represents b l) (isFull : l.length = b.maxSize) :
    b.applyFirst func = .error .undefinedBehaviour ∧ l = [] ∨ b.applyFirst func = .ok (false, [], b) ∧ l ≠ [] := by
  by_cases none_ : b.maxSize = 0
  · refine .inl ⟨?_, eq_nil_of_length_eq_zero (by rw [isFull, none_])⟩
    simp [CircularBuffer.applyFirst, CircularBuffer.wrap, none_, bind, Except.bind]
  · have around : (b.rpos + b.count) % b.maxSize = b.rpos := by
      rw [rep.count, isFull, add_mod_right]
      rcases rep.rpos with inside | zero
      · exact mod_eq_of_lt inside
      · exact absurd zero none_
    refine .inr ⟨?_, fun empty => ?_⟩
    · simp [CircularBuffer.applyFirst, CircularBuffer.wrap, none_, around, CircularBuffer.visitLoop, bind, Except.bind]
    · rw [empty] at isFull
      exact none_ isFull.symm

theorem tryPush {l : List α} (rep : Represents b l) (t : α) :
    (b.tryPush t = .ok (false, b) ∧ l.length = b.maxSize) ∨
    ∃ b', b.tryPush t = .ok (true, b') ∧ Represents b' (l ++ [t]) ∧ b'.maxSize = b.maxSize ∧ l.length ≠ b.maxSize := by
  rcases rep.push t with ⟨full, isFull⟩ | ⟨b', pushed, notFull, rep', size, room⟩
  · exact .inl ⟨by rw [CircularBuffer.tryPush, if_pos full], isFull⟩
  · refine .inr ⟨b', ?_, rep', size, room⟩
    rw [CircularBuffer.tryPush, notFull, pushed]
    rfl

end Represents

theorem BoundedList.applyFirst_all {α : Type} (l : List α) :
    BoundedList.applyFirst (fun t => (false, t)) l = (false, l, l) := by
  induction l with
  | nil => rfl
  | cons t rest ih => simp [BoundedList.applyFirst, ih]

theorem BoundedList.applyFirst_visits {α : Type} (func : α → Bool × α) {l : List α} (notEmpty : l ≠ []) :
    (BoundedList.applyFirst func l).2.1 ≠ [] := by
  cases l with
  | nil => exact absurd rfl notEmpty
  | cons t rest =>
    unfold BoundedList.applyFirst
    split <;> simp

def BufferOp.visits {α : Type} : BufferOp α → Bool
  | .iterate => true
  | .applyFirst _ => true
  | _ => false

namespace CircularBuffer
variable {α : Type} {b : CircularBuffer α} {l : List α}

def Agrees (concrete : Except Fault (BufferResult α × CircularBuffer α)) (abstract : Except Fault (BufferResult α × List α))
    (capacity : Nat) : Prop :=
  match abstract with
  | .error fault => concrete = .error fault
  | .ok (result, l) => ∃ b, concrete = .ok (result, b) ∧ Represents b l ∧ b.maxSize = capacity

theorem step_agrees (rep : Represents b l) (op : BufferOp α) (notFull : op.visits = true → l.length ≠ b.maxSize) :
    Agrees (b.step op) (BoundedList.step b.maxSize l op) b.maxSize := by
  cases op with
  | push t =>
    show Agrees ((b.push t).map _) _ _
    rcases rep.push t with ⟨full, isFull⟩ | ⟨b', pushed, _, rep', size, room⟩
    · rw [CircularBuffer.push, if_pos full, BoundedList.step, if_pos isFull]
      rfl
    · rw [pushed, BoundedList.step, if_neg room]
      exact ⟨b', rfl, rep', size⟩
  | tryPush t =>
    show Agrees ((b.tryPush t).map _) _ _
    rcases rep.tryPush t with ⟨refused, isFull⟩ | ⟨b', pushed, rep', size, room⟩
    · rw [refused, BoundedList.step, if_pos isFull]
      exact ⟨b, rfl, rep, rfl⟩
    · rw [pushed, BoundedList.step, if_neg room]
      exact ⟨b', rfl, rep', size⟩
  | pop =>
    show Agrees (b.pop.map _) _ _
    rcases rep.pop with ⟨failed, none_⟩ | ⟨b', popped, rep', size, some_⟩
    · rw [failed, BoundedList.step, if_pos none_]
      rfl
    · rw [popped, BoundedList.step, if_neg some_]
      exact ⟨b', rfl, rep', size⟩
  | clear => exact ⟨b.clear, rfl, rep.clear.1, rep.clear.2⟩
  | get i =>
    show Agrees ((b.get i).map _) _ _
    rw [rep.get i, BoundedList.step]
    cases l[i]? with
    | none => rfl
    | some t => exact ⟨b, rfl, rep, rfl⟩
  | iterate =>
    obtain ⟨b', visited, _⟩ := rep.applyFirst (fun t => (false, t)) (notFull rfl)
    refine ⟨b, ?_, rep, rfl⟩
    rw [BoundedList.applyFirst_all] at visited
    rw [CircularBuffer.step, CircularBuffer.iterate, visited]
    rfl
  | applyFirst func =>
    obtain ⟨b', visited, rep', size⟩ := rep.applyFirst func (notFull rfl)
    refine ⟨b', ?_, rep', size⟩
    rw [CircularBuffer.step, visited]
    rfl

theorem step_full (rep : Represents b l) (op : BufferOp α) (visits : op.visits = true) (isFull : l.length = b.maxSize) :
    ∃ found elements l', BoundedList.step b.maxSize l op = .ok (.visited found elements, l') ∧
      (b.step op = .error .undefinedBehaviour ∨ b.step op = .ok (.visited false [], b) ∧ elements ≠ []) := by
  cases op with
  | iterate =>
    refine ⟨false, l, l, rfl, ?_⟩
    rw [CircularBuffer.step, CircularBuffer.iterate]
    rcases rep.applyFirst_full (fun t => (false, t)) isFull with ⟨fault, _⟩ | ⟨nothing, some_⟩
    · rw [fault]
      exact .inl rfl
    · rw [nothing]
      exact .inr ⟨rfl, some_⟩
  | applyFirst func =>
    refine ⟨_, _, _, rfl, ?_⟩
    rw [CircularBuffer.step]
    rcases rep.applyFirst_full func isFull with ⟨fault, _⟩ | ⟨nothing, some_⟩
    · rw [fault]
      exact .inl rfl
    · rw [nothing]
      exact .inr ⟨rfl, BoundedList.applyFirst_visits func some_⟩
  | _ => exact absurd visits Bool.false_ne_true

end CircularBuffer

def LoopsNotFull {α : Type} (capacity : Nat) (l : List α) : List (BufferOp α) → Prop
  | [] => True
  | op :: rest =>
    (op.visits = true → l.length ≠ capacity) ∧
      ∀ result l', BoundedList.step capacity l op = .ok (result, l') → LoopsNotFull capacity l' rest

namespace Represents
variable {α : Type} {b : CircularBuffer α} {l : List α}

theorem results_agree (rep : Represents b l) (ops : List (BufferOp α)) :
    results CircularBuffer.step b ops = results (BoundedList.step b.maxSize) l ops ↔ LoopsNotFull b.maxSize l ops := by
  induction ops generalizing b l with
  | nil => exact ⟨fun _ => trivial, fun _ => rfl⟩
  | cons op rest ih =>
    by_cases loops : op.visits = true ∧ l.length = b.maxSize
    · have refused : ¬ LoopsNotFull b.maxSize l (op :: rest) := fun allowed => allowed.1 loops.1 loops.2
      refine iff_of_false (fun same => ?_) refused
      obtain ⟨found, elements, l', abstract, concrete⟩ := CircularBuffer.step_full rep op loops.1 loops.2
      unfold results at same
      rw [abstract] at same
      rcases concrete with fault | ⟨nothing, some_⟩
      · rw [fault] at same
        exact cons_ne_nil _ _ (congrArg Prod.fst same).symm
      · rw [nothing] at same
        have head := congrArg head? (congrArg Prod.fst same)
        simp only [head?_cons, Option.some.injEq, BufferResult.visited.injEq] at head
        exact some_ head.2.symm
    · have agrees := CircularBuffer.step_agrees rep op fun visits isFull => loops ⟨visits, isFull⟩
      unfold results LoopsNotFull
      cases abstract : BoundedList.step b.maxSize l op with
      | error fault =>
        rw [abstract] at agrees
        rw [show b.step op = .error fault from agrees]
        exact ⟨fun _ => ⟨fun visits isFull => loops ⟨visits, isFull⟩, fun _ _ ok => nomatch ok⟩, fun _ => rfl⟩
      | ok outcome =>
        obtain ⟨result, l'⟩ := outcome
        rw [abstract] at agrees
        obtain ⟨b', concrete, rep', size⟩ : ∃ b', _ ∧ _ ∧ _ := agrees
        have later := ih rep'
        rw [size] at later
        rw [concrete]
        constructor
        · intro same
          refine ⟨fun visits isFull => loops ⟨visits, isFull⟩, ?_⟩
          rintro _ _ ⟨⟩
          apply later.mp
          have tails := congrArg (fun outcome => (outcome.1.tail, outcome.2)) same
          exact tails
        · intro allowed
          have same := later.mpr (allowed.2 result l' rfl)
          simp only [same]

end Represents

theorem circularBuffer_results_iff {α : Type} (capacity : Nat) (ops : List (BufferOp α)) :
    results CircularBuffer.step (CircularBuffer.mk capacity (fun _ => none) 0 0) ops =
      results (BoundedList.step capacity) [] ops ↔ LoopsNotFull capacity [] ops :=
  (Represents.empty capacity).results_agree ops

theorem iterate_full_sees_nothing :
    results CircularBuffer.step (CircularBuffer.mk 2 (fun _ => none) 0 0) [.push 10, .push 11, .iterate] =
      ([.done, .done, .visited false []], none) ∧
    results (BoundedList.step 2) [] [.push 10, .push 11, .iterate] = ([.done, .done, .visited false [10, 11]], none) := by
  decide

end IsrRan.Adt
