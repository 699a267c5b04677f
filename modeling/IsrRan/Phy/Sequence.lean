import Mathlib

/-! The scrambling sequences: steps of 24 chips at once, and calls that go on where others ended. -/

namespace IsrRan.Phy.Sequence
open BitVec List

def nc : Nat := 1600

def memlessStep (feedback : BitVec 32 → BitVec 32) (bits : Nat) (state : BitVec 32) : BitVec 32 :=
  (state >>> bits) ^^^ ((feedback state &&& BitVec.ofNat 32 (2 ^ bits - 1)) <<< (31 - bits))

def feedbackX1 (state : BitVec 32) : BitVec 32 := state ^^^ (state >>> 3)

def feedbackX2 (state : BitVec 32) : BitVec 32 := state ^^^ (state >>> 1) ^^^ (state >>> 2) ^^^ (state >>> 3)

def memlessStepX1 : BitVec 32 → BitVec 32 := memlessStep feedbackX1 1
def memlessStepParX1 : BitVec 32 → BitVec 32 := memlessStep feedbackX1 24
def memlessStepX2 : BitVec 32 → BitVec 32 := memlessStep feedbackX2 1
def memlessStepParX2 : BitVec 32 → BitVec 32 := memlessStep feedbackX2 24

def sequenceX1Init : BitVec 32 := memlessStepX1^[nc] 1

def sequenceX2Init (i : Nat) : BitVec 32 := memlessStepX2^[nc] (1#32 <<< i)

def getX2Init (seed : BitVec 32) : BitVec 32 :=
  (range 31).foldl (fun x2 i => if seed.getLsbD i then x2 ^^^ sequenceX2Init i else x2) 0

structure State where
  x1 : BitVec 32
  x2 : BitVec 32

def stateInit (seed : BitVec 32) : State := ⟨sequenceX1Init, getX2Init seed⟩

section
variable {α β : Type} (op : α → Bool → β)

def applySingle : State → List α → List β × State
  | s, [] => ([], s)
  | s, a :: input =>
    let (out, s') := applySingle ⟨memlessStepX1 s.x1, memlessStepX2 s.x2⟩ input
    (op a ((s.x1 ^^^ s.x2).getLsbD 0) :: out, s')

def stateApply (s : State) (input : List α) : List β × State :=
  if 24 ≤ input.length then
    let c := s.x1 ^^^ s.x2
    let (out, s') := stateApply ⟨memlessStepParX1 s.x1, memlessStepParX2 s.x2⟩ (input.drop 24)
    ((input.take 24).mapIdx (fun j a => op a (c.getLsbD j)) ++ out, s')
  else applySingle op s input
termination_by input.length

end

def stateAdvance (s : State) (length : Nat) : State :=
  if 24 ≤ length then stateAdvance ⟨memlessStepParX1 s.x1, memlessStepParX2 s.x2⟩ (length - 24)
  else ⟨memlessStepX1^[length] s.x1, memlessStepX2^[length] s.x2⟩

/-- The m-sequences of TS 36.211, 7.2, and the Gold sequence that they make. -/
def x1 (n : Nat) : Bool := if n < 31 then n = 0 else x1 (n - 28) ^^ x1 (n - 31)

def x2 (cInit : Nat → Bool) (n : Nat) : Bool :=
  if n < 31 then cInit n else x2 cInit (n - 28) ^^ x2 cInit (n - 29) ^^ x2 cInit (n - 30) ^^ x2 cInit (n - 31)

def gold (cInit : BitVec 32) (n : Nat) : Bool := x1 (n + nc) ^^ x2 cInit.getLsbD (n + nc)

def Holds (x : Nat → Bool) (t : Nat) (s : BitVec 32) : Prop := ∀ i, s.getLsbD i = (decide (i < 31) && x (t + i))

variable {x : Nat → Bool} {t : Nat} {s : BitVec 32} {feedback : BitVec 32 → BitVec 32}

def FeedsBack (x : Nat → Bool) (feedback : BitVec 32 → BitVec 32) : Prop :=
  ∀ t s, Holds x t s → ∀ i < 28, (feedback s).getLsbD i = x (t + i + 31)

theorem feedsBack_x1 : FeedsBack x1 feedbackX1 := by
  intro t s holds i inside
  rw [x1, if_neg (by omega), (by omega : t + i + 31 - 28 = t + (3 + i)), (by omega : t + i + 31 - 31 = t + i)]
  simp [feedbackX1, holds _, (by omega : i < 31), (by omega : 3 + i < 31), Bool.xor_comm]

theorem feedsBack_x2 (cInit : Nat → Bool) : FeedsBack (x2 cInit) feedbackX2 := by
  intro t s holds i inside
  rw [x2, if_neg (by omega), (by omega : t + i + 31 - 28 = t + (3 + i)), (by omega : t + i + 31 - 29 = t + (2 + i)),
    (by omega : t + i + 31 - 30 = t + (1 + i)), (by omega : t + i + 31 - 31 = t + i)]
  simp [feedbackX2, holds _, (by omega : i < 31), (by omega : 1 + i < 31), (by omega : 2 + i < 31),
    (by omega : 3 + i < 31)]
  grind

theorem Holds.memlessStep (holds : Holds x t s) (feeds : FeedsBack x feedback) {bits : Nat} (few : bits ≤ 28) :
    Holds x (t + bits) (memlessStep feedback bits s) := by
  intro i
  have mask (k : Nat) : (BitVec.ofNat 32 (2 ^ bits - 1)).getLsbD k = decide (k < bits) := by
    rw [getLsbD_ofNat, Nat.testBit_two_pow_sub_one]
    grind
  simp only [Sequence.memlessStep, getLsbD_xor, getLsbD_ushiftRight, getLsbD_shiftLeft,
    getLsbD_and, mask, holds _]
  by_cases old : bits + i < 31
  · simp [old, (by omega : i < 31 - bits), (by omega : i < 31), Nat.add_assoc]
  · by_cases inside : i < 31
    · have fed := feeds t s holds (i - (31 - bits)) (by omega)
      rw [(by omega : t + (i - (31 - bits)) + 31 = t + bits + i)] at fed
      simp [old, inside, fed, (by omega : i < 32), (by omega : i - (31 - bits) < bits), (by omega : 31 - bits ≤ i)]
    · have : ¬i - (31 - bits) < bits := by omega
      simp [old, inside, this]

theorem Holds.iterate (holds : Holds x t s) (feeds : FeedsBack x feedback) (n : Nat) :
    Holds x (t + n) ((Sequence.memlessStep feedback 1)^[n] s) := by
  induction n with
  | zero => exact holds
  | succ n ih =>
    rw [Function.iterate_succ_apply', ← Nat.add_assoc]
    exact ih.memlessStep feeds (by omega)

theorem Holds.xor {y : Nat → Bool} {s' : BitVec 32} (holds : Holds x t s) (holds' : Holds y t s') :
    Holds (fun n => x n ^^ y n) t (s ^^^ s') := by
  intro i
  rw [getLsbD_xor, holds, holds']
  cases decide (i < 31) <;> rfl

theorem x2_linear {h f g : Nat → Bool} (sum : ∀ j < 31, h j = (f j ^^ g j)) (n : Nat) :
    x2 h n = (x2 f n ^^ x2 g n) := by
  induction n using Nat.strongRecOn with
  | _ n ih =>
    rw [x2.eq_def h, x2.eq_def f, x2.eq_def g]
    by_cases first : n < 31
    · simpa only [if_pos first] using sum n first
    · simp only [if_neg first, ih (n - 28) (by omega), ih (n - 29) (by omega), ih (n - 30) (by omega),
        ih (n - 31) (by omega)]
      simp only [Bool.xor_assoc, Bool.xor_left_comm]

theorem sequenceX2Init_holds {k : Nat} (inside : k < 31) : Holds (x2 (· = k)) nc (sequenceX2Init k) := by
  have first : Holds (x2 (· = k)) 0 (1#32 <<< k) := by
    intro i
    rw [Nat.zero_add, x2, getLsbD_shiftLeft]
    by_cases here : i < 31
    · simp [here]
      grind
    · simp [here]
      grind
  have later := first.iterate (feedsBack_x2 _) nc
  rwa [Nat.zero_add] at later

theorem getX2Init_holds (seed : BitVec 32) : Holds (x2 seed.getLsbD) nc (getX2Init seed) := by
  suffices prefixes : ∀ k ≤ 31, ∀ h : Nat → Bool, (∀ j < 31, h j = (decide (j < k) && seed.getLsbD j)) →
      Holds (x2 h) nc ((range k).foldl (fun x2 i => if seed.getLsbD i then x2 ^^^ sequenceX2Init i else x2) 0) from
    prefixes 31 le_rfl _ fun j inside => by simp [inside]
  intro k few
  induction k with
  | zero =>
    intro h none_ i
    have := x2_linear (h := h) (f := h) (g := h) (fun j inside => by simp [none_ j inside]) (nc + i)
    rw [this, Bool.xor_self]
    simp
  | succ k ih =>
    intro h bits
    rw [range_succ, foldl_append, foldl_cons, foldl_nil]
    split
    · rename_i bit
      have sum (n : Nat) := x2_linear (h := h) (f := fun j => decide (j < k) && seed.getLsbD j) (g := (· = k))
        (fun j inside => by rw [bits j inside]; clear ih; grind) n
      have holds := (ih (by omega) (fun j => decide (j < k) && seed.getLsbD j) fun _ _ => rfl).xor
        (sequenceX2Init_holds (k := k) (by omega))
      rwa [← funext sum] at holds
    · rename_i bit
      exact ih (by omega) h fun j inside => by rw [bits j inside]; clear ih; grind

structure At (seed : BitVec 32) (p : Nat) (s : State) : Prop where
  x1 : Holds x1 (p + nc) s.x1
  x2 : Holds (x2 seed.getLsbD) (p + nc) s.x2

theorem At.chip {seed : BitVec 32} {p : Nat} {s : State} (at_ : At seed p s) {j : Nat} (inside : j < 31) :
    (s.x1 ^^^ s.x2).getLsbD j = gold seed (p + j) := by
  rw [getLsbD_xor, at_.x1, at_.x2, gold, Nat.add_right_comm]
  simp [inside]

theorem At.steps {seed : BitVec 32} {p : Nat} {s : State} (at_ : At seed p s) (bits : Nat) (few : bits ≤ 28) :
    At seed (p + bits) ⟨memlessStep feedbackX1 bits s.x1, memlessStep feedbackX2 bits s.x2⟩ := by
  constructor <;> rw [Nat.add_right_comm]
  · exact at_.x1.memlessStep feedsBack_x1 few
  · exact at_.x2.memlessStep (feedsBack_x2 _) few

theorem sequenceX1Init_holds : Holds x1 nc sequenceX1Init := by
  have first : Holds x1 0 1 := by
    intro i
    rw [Nat.zero_add, x1]
    by_cases here : i < 31
    · simp [here]
    · simp [here]
      omega
  have later := first.iterate feedsBack_x1 nc
  rwa [Nat.zero_add] at later

theorem stateInit_at (seed : BitVec 32) : At seed 0 (stateInit seed) := by
  rw [stateInit]
  constructor <;> rw [Nat.zero_add] <;> dsimp only
  · exact sequenceX1Init_holds
  · exact getX2Init_holds seed

section
variable {α β : Type} {op : α → Bool → β} {seed : BitVec 32} {p : Nat}

theorem At.applySingle {s : State} (at_ : At seed p s) (input : List α) :
    (applySingle op s input).1 = input.mapIdx (fun j a => op a (gold seed (p + j))) ∧
      At seed (p + input.length) (applySingle op s input).2 := by
  induction input generalizing s p with
  | nil => exact ⟨rfl, at_⟩
  | cons a input ih =>
    obtain ⟨out, last⟩ := ih (at_.steps 1 (by omega))
    rw [Nat.add_right_comm] at last
    refine ⟨?_, last⟩
    rw [Sequence.applySingle, mapIdx_cons, at_.chip (by omega)]
    simp only [memlessStepX1, memlessStepX2, out, Nat.add_assoc, Nat.add_comm 1]

variable (op) in
theorem At.stateApply {s : State} (at_ : At seed p s) (input : List α) :
    (stateApply op s input).1 = input.mapIdx (fun j a => op a (gold seed (p + j))) ∧
      At seed (p + input.length) (stateApply op s input).2 := by
  fun_induction Sequence.stateApply op s input generalizing p with
  | case1 s input enough c out s' rest =>
    rename_i ih
    obtain ⟨later, last⟩ := ih (at_.steps 24 (by omega))
    rw [rest, length_drop, Nat.add_assoc, Nat.add_sub_cancel' enough] at last
    refine ⟨?_, last⟩
    have chips : (input.take 24).mapIdx (fun j a => op a (c.getLsbD j)) =
        (input.take 24).mapIdx fun j a => op a (gold seed (p + j)) :=
      List.mapIdx_eq_mapIdx_iff.mpr fun j inside => by
        rw [at_.chip (by rw [length_take] at inside; omega)]
    rw [rest] at later
    dsimp only at later ⊢
    rw [chips, later]
    conv_rhs => rw [← take_append_drop 24 input, mapIdx_append]
    simp only [length_take, Nat.min_eq_left enough, Nat.add_assoc, Nat.add_comm 24]
  | case2 s input short => exact at_.applySingle input

theorem At.stateAdvance {s : State} (at_ : At seed p s) (length : Nat) :
    At seed (p + length) (stateAdvance s length) := by
  fun_induction Sequence.stateAdvance s length generalizing p with
  | case1 s length enough ih =>
    have := ih (at_.steps 24 (by omega))
    rwa [Nat.add_assoc, Nat.add_sub_cancel' enough] at this
  | case2 s length short =>
    exact ⟨Nat.add_right_comm p nc length ▸ at_.x1.iterate feedsBack_x1 length,
      Nat.add_right_comm p nc length ▸ at_.x2.iterate (feedsBack_x2 _) length⟩

variable (op) in
def calls : State → List (List α ⊕ Nat) → List (List β)
  | _, [] => []
  | s, .inl input :: later => (stateApply op s input).1 :: calls (stateApply op s input).2 later
  | s, .inr length :: later => calls (stateAdvance s length) later

variable (op seed) in
/-- What the calls are to give: each element is changed by the chip of its place in the whole sequence. -/
def scrambled : Nat → List (List α ⊕ Nat) → List (List β)
  | _, [] => []
  | p, .inl input :: later => input.mapIdx (fun j a => op a (gold seed (p + j))) :: scrambled (p + input.length) later
  | p, .inr length :: later => scrambled (p + length) later

theorem At.calls {s : State} (at_ : At seed p s) (cs : List (List α ⊕ Nat)) :
    calls op s cs = scrambled op seed p cs := by
  fun_induction scrambled op seed p cs generalizing s with
  | case1 p => rfl
  | case2 p input later ih =>
    obtain ⟨out, last⟩ := at_.stateApply op input
    rw [Sequence.calls, out, ih last]
  | case3 p length later ih => exact ih (at_.stateAdvance length)

end

theorem calls_eq_scrambled {α β : Type} (op : α → Bool → β) (seed : BitVec 32) (cs : List (List α ⊕ Nat)) :
    calls op (stateInit seed) cs = scrambled op seed 0 cs :=
  (stateInit_at seed).calls cs

end IsrRan.Phy.Sequence
