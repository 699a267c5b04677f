import IsrRan.Common.Memory
import IsrRan.Lib.Tiling

namespace IsrRan.Phy

def u32 (n : Nat) : Nat := n % 4294967296

def sub32 (a b : Nat) : Nat := u32 (a + (4294967296 - b))

def ceil32 (num den : Nat) : Nat := u32 (num + (den - 1)) / den

theorem u32_of_lt {n : Nat} (h : n < 4294967296) : u32 n = n := Nat.mod_eq_of_lt h

theorem sub32_of_le {a b : Nat} (h : b ≤ a) (lt : a < 4294967296) : sub32 a b = a - b := by
  unfold sub32 u32
  omega

theorem sub32_u32 {a b : Nat} (le : b ≤ a) (lt : b < 4294967296) : sub32 (u32 a) b = u32 (a - b) := by
  unfold sub32 u32
  omega

theorem ceil32_of_lt {num den : Nat} (h : num + (den - 1) < 4294967296) :
    ceil32 num den = (num + (den - 1)) / den := by
  rw [ceil32, u32_of_lt h]

inductive Basegraph where
  | bg1
  | bg2
  deriving DecidableEq, Repr

namespace Basegraph

def k : Basegraph → Nat
  | bg1 => 22
  | bg2 => 10

def nFull : Basegraph → Nat
  | bg1 => 68
  | bg2 => 52

def maxLenCb : Basegraph → Nat
  | bg1 => 8448
  | bg2 => 3840

end Basegraph

def maxLiftsize : Nat := 384

/-- `LSindex`, a row for each index; a size in no row has `VOID_LIFTSIZE` there. -/
def lsIndex : List (List Nat) :=
  [[2, 4, 8, 16, 32, 64, 128, 256],
   [3, 6, 12, 24, 48, 96, 192, 384],
   [5, 10, 20, 40, 80, 160, 320],
   [7, 14, 28, 56, 112, 224],
   [9, 18, 36, 72, 144, 288],
   [11, 22, 44, 88, 176, 352],
   [13, 26, 52, 104, 208],
   [15, 30, 60, 120, 240]]

def getLsIndex (ls : Nat) : Option Nat :=
  if ls ≤ maxLiftsize then lsIndex.findIdx? (·.contains ls) else none

structure CbSegm where
  f : Nat := 0
  c : Nat := 0
  k1 : Nat := 0
  k2 : Nat := 0
  k1Idx : Nat := 0
  k2Idx : Nat := 0
  c1 : Nat := 0
  c2 : Nat := 0
  tbs : Nat := 0
  lTb : Nat := 0
  lCb : Nat := 0
  z : Nat := 0
  deriving DecidableEq, Repr

def cbsegmCbSize (b z : Nat) : Nat × Nat :=
  if b ≤ z then (1, b)
  else
    let c := ceil32 b (z - 24)
    (c, u32 (b + u32 (24 * c)))

def cbsegmLdpcSelectLs (kp kB : Nat) : Option (Nat × Nat) :=
  if ceil32 kp kB > maxLiftsize then none
  else (List.range' (ceil32 kp kB) (maxLiftsize + 1 - ceil32 kp kB)).findSome? fun z =>
    (getLsIndex z).map fun i => (z, i)

def cbsegmLdpcL (tbs : Nat) : Nat := if tbs ≤ 3824 then 16 else 24

def cbsegmLdpcKb (bg : Basegraph) (b : Nat) : Nat :=
  match bg with
  | .bg1 => 22
  | .bg2 =>
    if b > 640 then 10
    else if b > 560 then 9
    else if b > 192 then 8
    else 6

/-- `none` stands for `ISRRAN_ERROR`. With no code block the division of `Bp` traps. -/
def cbsegmLdpc (bg : Basegraph) (tbs : Nat) : Except Fault (Option CbSegm) :=
  if tbs = 0 then .ok (some {})
  else
    let l := cbsegmLdpcL tbs
    let b := u32 (tbs + l)
    let blocks := cbsegmCbSize b bg.maxLenCb
    if blocks.1 = 0 then .error .undefinedBehaviour
    else
      match cbsegmLdpcSelectLs (blocks.2 / blocks.1) (cbsegmLdpcKb bg b) with
      | none => .ok none
      | some (zC, iLs) => .ok (some {
          tbs := tbs, lTb := l, lCb := if blocks.1 > 1 then 24 else 0, c := blocks.1,
          f := u32 (zC * bg.k * blocks.1), c1 := blocks.1, k1 := zC * bg.k, k1Idx := iLs, z := zC })

def IsLiftingSize (z : Nat) : Prop := (getLsIndex z).isSome

instance (z : Nat) : Decidable (IsLiftingSize z) := inferInstanceAs (Decidable (_ = true))

theorem IsLiftingSize.le {z : Nat} (h : IsLiftingSize z) : z ≤ maxLiftsize := by
  unfold IsLiftingSize getLsIndex at h
  split at h
  · assumption
  · contradiction

theorem isLiftingSize_max : IsLiftingSize maxLiftsize := by decide

theorem ceil32_le_iff {num den z : Nat} (pos : 0 < den) (small : num + (den - 1) < 4294967296) :
    ceil32 num den ≤ z ↔ num ≤ den * z := by
  rw [ceil32_of_lt small, ← Nat.add_sub_assoc pos]
  exact ceilDiv_le_iff_le_mul pos

theorem ceil32_eq_ceilDiv {num den : Nat} (pos : 0 < den) (small : num + (den - 1) < 4294967296) :
    ceil32 num den = num ⌈/⌉ den := by
  rw [ceil32_of_lt small, Nat.ceilDiv_eq_add_pred_div, Nat.add_sub_assoc pos]

theorem cbsegmLdpcSelectLs_spec {kp kB : Nat} (pos : 0 < kB) (small : kp + (kB - 1) < 4294967296)
    (fits : kp ≤ kB * maxLiftsize) :
    ∃ z i, cbsegmLdpcSelectLs kp kB = some (z, i) ∧ IsLiftingSize z ∧ kp ≤ kB * z ∧
      ∀ z', IsLiftingSize z' → kp ≤ kB * z' → z ≤ z' := by
  have low : ceil32 kp kB ≤ maxLiftsize := (ceil32_le_iff pos small).mpr fits
  have inRange : ∀ z', IsLiftingSize z' → kp ≤ kB * z' →
      z' ∈ List.range' (ceil32 kp kB) (maxLiftsize + 1 - ceil32 kp kB) := by
    intro z' lifting enough
    have high := lifting.le
    have above := (ceil32_le_iff pos small).mpr enough
    rw [List.mem_range'_1]
    omega
  unfold cbsegmLdpcSelectLs
  rw [if_neg (Nat.not_lt.mpr low)]
  generalize sizes : List.range' (ceil32 kp kB) (maxLiftsize + 1 - ceil32 kp kB) = zs at inRange
  have sorted : zs.Pairwise (· < ·) := sizes ▸ List.pairwise_lt_range'
  cases found : zs.findSome? fun z => (getLsIndex z).map fun i => (z, i) with
  | none =>
    have absent := List.findSome?_eq_none_iff.mp found maxLiftsize (inRange _ isLiftingSize_max fits)
    exact absurd isLiftingSize_max (by simpa [IsLiftingSize] using absent)
  | some chosen =>
    obtain ⟨front, z, back, rfl, hit, missed⟩ := List.findSome?_eq_some_iff.mp found
    obtain ⟨i, index, rfl⟩ := Option.map_eq_some_iff.mp hit
    have mem : z ∈ List.range' (ceil32 kp kB) (maxLiftsize + 1 - ceil32 kp kB) := by simp [sizes]
    refine ⟨z, i, rfl, by simp [IsLiftingSize, index], ?_, ?_⟩
    · exact (ceil32_le_iff pos small).mp (List.mem_range'_1.mp mem).1
    · intro z' lifting enough
      rcases List.mem_append.mp (inRange z' lifting enough) with before | after
      · exact absurd lifting (by simpa [IsLiftingSize] using missed z' before)
      · rcases List.mem_cons.mp after with rfl | later
        · exact le_rfl
        · have order := (List.pairwise_append.mp sorted).2.1
          exact Nat.le_of_lt ((List.pairwise_cons.mp order).1 z' later)

end IsrRan.Phy
