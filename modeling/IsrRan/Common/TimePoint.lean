import Mathlib.Tactic.Ring
import IsrRan.Common.Memory

namespace IsrRan
open Nat

structure TtiPoint where
  ttiVal : Nat
  deriving DecidableEq, Repr

namespace TtiPoint

def invalid : TtiPoint := ⟨2 ^ 32 - 1⟩

def ofUint (val : Nat) : TtiPoint :=
  if val > (2 ^ 32 - 1) / 2 then
    let diff := 2 ^ 32 - 1 - val
    ⟨(10240 + 2 ^ 32 - diff - 1) % 2 ^ 32⟩
  else ⟨val % 10240⟩

def add (tti : TtiPoint) (jump : Nat) : TtiPoint := ofUint ((tti.ttiVal + jump) % 2 ^ 32)

def lt (tti other : TtiPoint) : Bool :=
  let lowerVal := decide (tti.ttiVal < other.ttiVal)
  let wrapFlag := decide ((if lowerVal then other.ttiVal - tti.ttiVal else tti.ttiVal - other.ttiVal) > 10240 / 2)
  lowerVal != wrapFlag

def ge (tti other : TtiPoint) : Bool := !tti.lt other

def sub (tti other : TtiPoint) : Int :=
  let diff : Int := tti.ttiVal - other.ttiVal
  if diff > 10240 / 2 then diff - 10240 else if diff < -10240 / 2 then diff + 10240 else diff

def ofTti (t : Nat) : TtiPoint := ⟨t % 10240⟩

variable {t u jump : Nat}

@[simp] theorem ttiVal_ofTti : (ofTti t).ttiVal = t % 10240 := rfl

@[simp] theorem ofTti_add (small : jump < 10240) : (ofTti t).add jump = ofTti (t + jump) := by
  unfold add ofUint
  rw [ttiVal_ofTti, mod_eq_of_lt (show t % 10240 + jump < 2 ^ 32 by omega),
    if_neg (show ¬t % 10240 + jump > (2 ^ 32 - 1) / 2 by omega), mod_add_mod]
  rfl

theorem ofTti_inj : ofTti t = ofTti u ↔ t % 10240 = u % 10240 :=
  ⟨fun h => congrArg ttiVal h, fun h => congrArg mk h⟩

theorem ofTti_eq_of_near (low : t < u + 10240) (high : u < t + 10240) : ofTti t = ofTti u ↔ t = u := by
  rw [ofTti_inj]
  constructor
  · intro same
    omega
  · rintro rfl
    rfl

theorem ge_ofTti (low : t < u + 5120) (high : u < t + 5120) : (ofTti t).ge (ofTti u) = decide (u ≤ t) := by
  unfold ge lt
  by_cases below : t % 10240 < u % 10240 <;> by_cases order : u ≤ t <;> simp [below, order] <;> omega

theorem lt_ofTti (low : t < u + 5120) (high : u < t + 5120) : (ofTti t).lt (ofTti u) = decide (t < u) := by
  have reverse := ge_ofTti low high
  rw [ge, Bool.not_eq_eq_eq_not] at reverse
  rw [reverse, ← decide_not]
  exact decide_eq_decide.mpr Nat.not_le

theorem sub_ofTti (order : u ≤ t) (near : t < u + 5120) : (ofTti t).sub (ofTti u) = ((t - u : Nat) : Int) := by
  unfold sub
  simp only [ttiVal_ofTti]
  split_ifs <;> omega

end TtiPoint

def fddHarqDelayDlMs : Nat := 4
def fddHarqDelayUlMs : Nat := 4
def txEnbDelay : Nat := fddHarqDelayUlMs

def toTxDl (t : TtiPoint) : TtiPoint := t.add txEnbDelay
def toTxUl (t : TtiPoint) : TtiPoint := t.add (txEnbDelay + fddHarqDelayDlMs)
def toTxDlAck (t : TtiPoint) : TtiPoint := toTxUl t

@[simp] theorem toTxDl_ofTti {t : Nat} : toTxDl (.ofTti t) = .ofTti (t + 4) := TtiPoint.ofTti_add (by decide)
@[simp] theorem toTxUl_ofTti {t : Nat} : toTxUl (.ofTti t) = .ofTti (t + 8) := TtiPoint.ofTti_add (by decide)
@[simp] theorem toTxDlAck_ofTti {t : Nat} : toTxDlAck (.ofTti t) = .ofTti (t + 8) := toTxUl_ofTti

/-! `slot_point`: a slot of the radio frame counter of 1024 frames, which wraps around. -/

def nofNumerologies : Nat := 5

structure SlotPoint where
  numerology : Nat := nofNumerologies
  count : Nat := 0
  deriving DecidableEq, Repr

namespace SlotPoint
variable (s : SlotPoint)

def nofSlotsPerFrame : Nat := 2 ^ s.numerology * 10

def nofSlotsPerHf : Nat := s.nofSlotsPerFrame * 1024

def valid : Bool := s.numerology < nofNumerologies

def sfn : Nat := s.count / s.nofSlotsPerFrame

def slotIdx : Nat := s.count % s.nofSlotsPerFrame

def clear : SlotPoint := { s with numerology := nofNumerologies }

def lt (other : SlotPoint) : Except Fault Bool :=
  if s.numerology = other.numerology then
    let a : Int := other.count - s.count
    .ok (if a > 0 then a < (s.nofSlotsPerHf / 2 : Nat) else a < -((s.nofSlotsPerHf / 2 : Nat) : Int))
  else .error .assertionFailed

def ge (other : SlotPoint) : Except Fault Bool := do return !(← s.lt other)

def succ : SlotPoint := { s with count := if s.count + 1 = s.nofSlotsPerHf then 0 else s.count + 1 }

def add (jump : Nat) : SlotPoint := { s with count := (s.count + jump) % 2 ^ 32 % s.nofSlotsPerHf }

variable {s}

theorem nofSlotsPerFrame_ge : 10 ≤ s.nofSlotsPerFrame := by
  have := Nat.one_le_two_pow (n := s.numerology)
  unfold nofSlotsPerFrame
  omega

theorem succ_inside (inside : s.count < s.nofSlotsPerHf) : s.succ.count < s.succ.nofSlotsPerHf := by
  show (if s.count + 1 = s.nofSlotsPerHf then 0 else s.count + 1) < s.nofSlotsPerHf
  split <;> omega

theorem ge_self_of_eq {other : SlotPoint} (same : s = other) : s.ge other = .ok true := by
  subst same
  simp [ge, lt, bind, Except.bind, pure, Except.pure]
  omega

theorem nofSlotsPerHf_le (valid : s.valid = true) : s.nofSlotsPerHf ≤ 163840 := by
  have bound : s.numerology ≤ 4 := by
    have := of_decide_eq_true valid
    unfold nofNumerologies at this
    omega
  have : 2 ^ s.numerology ≤ 2 ^ 4 := Nat.pow_le_pow_right (by decide) bound
  unfold nofSlotsPerHf nofSlotsPerFrame
  omega

theorem add_one (valid : s.valid = true) (inside : s.count < s.nofSlotsPerHf) : s.add 1 = s.succ := by
  have := nofSlotsPerHf_le valid
  unfold add succ
  rw [mod_eq_of_lt (a := s.count + 1) (by omega)]
  congr 1
  split
  · rename_i wraps
    rw [wraps, mod_self]
  · exact mod_eq_of_lt (by omega)

theorem slotIdx_succ_ne : s.succ.slotIdx ≠ s.slotIdx := by
  have wide := @nofSlotsPerFrame_ge s
  unfold slotIdx
  have same : s.succ.nofSlotsPerFrame = s.nofSlotsPerFrame := rfl
  rw [same]
  have count : s.succ.count % s.nofSlotsPerFrame = (s.count + 1) % s.nofSlotsPerFrame := by
    show (if s.count + 1 = s.nofSlotsPerHf then 0 else s.count + 1) % s.nofSlotsPerFrame = _
    split
    · rename_i wraps
      rw [wraps, nofSlotsPerHf, zero_mod, mul_mod_right]
    · rfl
  rw [count, add_mod]
  generalize s.nofSlotsPerFrame = w at *
  have low := mod_lt s.count (Nat.lt_of_lt_of_le (succ_pos 9) wide)
  rw [mod_eq_of_lt (a := 1) (by omega)]
  generalize s.count % w = i at *
  by_cases last : i + 1 = w
  · rw [last, mod_self]
    omega
  · rw [mod_eq_of_lt (by omega)]
    omega

end SlotPoint
end IsrRan
