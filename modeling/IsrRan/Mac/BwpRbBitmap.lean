import IsrRan.Mac.SchedNrRb

/-! `bwp_rb_bitmap`: the PRBs of a bandwidth part and the RBGs that they make up. -/

namespace IsrRan.Mac.Nr
open List Nat BoundedBitset
open IsrRan.Phy (u32 sub32 u32_of_lt sub32_of_le sub32_u32)

/-- Size and start of a bandwidth part, with the size that `get_P` asserts. -/
structure Bwp where
  nofPrb : Nat
  start : Nat
  config1 : Bool
  nofPrb_pos : 0 < nofPrb
  nofPrb_le : nofPrb ≤ 275
  start_lt : start < 2 ^ 32

namespace Bwp
variable (bwp : Bwp)

def getP : Nat :=
  if bwp.nofPrb ≤ 36 then (if bwp.config1 then 2 else 4)
  else if bwp.nofPrb ≤ 72 then (if bwp.config1 then 4 else 8)
  else if bwp.nofPrb ≤ 144 then (if bwp.config1 then 8 else 16)
  else 16

def getNofRbgs : Nat := (bwp.nofPrb + bwp.start % bwp.getP + bwp.getP - 1) / bwp.getP

def getRbgSize (rbgIdx : Nat) : Nat :=
  if rbgIdx = 0 then bwp.getP - bwp.start % bwp.getP
  else if rbgIdx = bwp.getNofRbgs - 1 then
    (if u32 (bwp.start + bwp.nofPrb) % bwp.getP > 0 then u32 (bwp.start + bwp.nofPrb) % bwp.getP else bwp.getP)
  else bwp.getP

def rbgFirst (rbgIdx : Nat) : Nat := ((range rbgIdx).map bwp.getRbgSize).sum

def InRbg (rbgIdx prbIdx : Nat) : Prop :=
  bwp.rbgFirst rbgIdx ≤ prbIdx ∧ prbIdx < bwp.rbgFirst rbgIdx + bwp.getRbgSize rbgIdx

instance (rbgIdx prbIdx : Nat) : Decidable (bwp.InRbg rbgIdx prbIdx) := inferInstanceAs (Decidable (_ ∧ _))

end Bwp

structure RbBitmap (n : Nat) where
  mask : BoundedBitset
  size : mask.size = n
  inside : ∀ i ∈ mask, i < n

structure BwpRbBitmap where
  prbs : BoundedBitset
  rbgs : BoundedBitset
  p : Nat
  pnofbits : Nat
  firstRbgSize : Nat
  deriving DecidableEq, Repr

namespace BwpRbBitmap

def ofBwp (bwp : Bwp) : BwpRbBitmap where
  prbs := ⟨bwp.nofPrb, 0⟩
  rbgs := ⟨bwp.getNofRbgs, 0⟩
  p := bwp.getP
  pnofbits := log2 bwp.getP
  firstRbgSize := bwp.getRbgSize 0

def prbToRbgIdx (b : BwpRbBitmap) (prbIdx : Nat) : Nat := sub32 (u32 (prbIdx + b.p)) b.firstRbgSize >>> b.pnofbits

def addPrbsToRbgs (grant : PrbBitmap) (b : BwpRbBitmap) (idx : Nat) : Except Fault BwpRbBitmap :=
  match h : grant.findLowest idx grant.size true with
  | .error fault => .error fault
  | .ok none => .ok b
  | .ok (some idx') => do
    let rbgs ← b.rbgs.set (b.prbToRbgIdx idx')
    if idx' + 1 = b.prbs.size then .ok { b with rbgs := rbgs }
    else addPrbsToRbgs grant { b with rbgs := rbgs } (idx' + 1)
  termination_by grant.size - idx
  decreasing_by
    have := BoundedBitset.findLowest_some h
    omega

def addIntervalToRbgs (b : BwpRbBitmap) (grant : PrbInterval) : Except Fault BwpRbBitmap := do
  let rbgStart := b.prbToRbgIdx grant.start
  let rbgStop := min (u32 (b.prbToRbgIdx (sub32 grant.stop 1) + 1)) b.rbgs.size
  return { b with rbgs := ← b.rbgs.fill rbgStart rbgStop }

def rbgPrbIdx (b : BwpRbBitmap) (idx : Nat) : Nat := u32 (u32 (sub32 idx 1 * b.p) + b.firstRbgSize)

def rbgPrbEnd (b : BwpRbBitmap) (idx : Nat) : Nat :=
  min (u32 (b.rbgPrbIdx idx + if idx = 0 then b.firstRbgSize else b.p)) b.prbs.size

def addRbgsToPrbs (grant : BoundedBitset) (b : BwpRbBitmap) (idx : Nat) : Except Fault BwpRbBitmap :=
  match h : grant.findLowest idx grant.size true with
  | .error fault => .error fault
  | .ok none => .ok b
  | .ok (some idx') => do
    let prbs ← b.prbs.fill (b.rbgPrbIdx idx') (b.rbgPrbEnd idx')
    if idx' + 1 = b.prbs.size then .ok { b with prbs := prbs }
    else addRbgsToPrbs grant { b with prbs := prbs } (idx' + 1)
  termination_by grant.size - idx
  decreasing_by
    have := BoundedBitset.findLowest_some h
    omega

def addInterval (b : BwpRbBitmap) (grant : PrbInterval) : Except Fault BwpRbBitmap := do
  let prbs ← b.prbs.fill grant.start grant.stop
  addIntervalToRbgs { b with prbs := prbs } grant

def addPrbs (b : BwpRbBitmap) (grant : PrbBitmap) : Except Fault BwpRbBitmap := do
  let prbs ← b.prbs.or grant
  addPrbsToRbgs grant { b with prbs := prbs } 0

def addRbgs (b : BwpRbBitmap) (grant : BoundedBitset) : Except Fault BwpRbBitmap := do
  let rbgs ← b.rbgs.or grant
  addRbgsToPrbs grant { b with rbgs := rbgs } 0

def set (b : BwpRbBitmap) (prbIdx : Nat) : Except Fault BwpRbBitmap := do
  let prbs ← b.prbs.set prbIdx
  return { b with
    prbs := prbs
    rbgs := ← b.rbgs.set (b.prbToRbgIdx prbIdx) }

def collidesRbgs (b : BwpRbBitmap) (grant : BoundedBitset) : Except Fault Bool := do
  return (← b.rbgs.and grant).any

def collidesPrbs (b : BwpRbBitmap) (grant : PrbInterval) : Except Fault Bool := b.prbs.anyIn grant.start grant.stop

end BwpRbBitmap

/-! ### The RBGs as `get_rbg_size` delimits them -/

namespace Bwp
variable {bwp : Bwp}

theorem getP_pow : ∃ k, k ≤ 4 ∧ 0 < k ∧ bwp.getP = 2 ^ k := by
  unfold getP
  repeat' split
  all_goals first
    | exact ⟨1, by decide⟩
    | exact ⟨2, by decide⟩
    | exact ⟨3, by decide⟩
    | exact ⟨4, by decide⟩

theorem getP_pos : 0 < bwp.getP := by
  obtain ⟨k, -, -, eq⟩ := @getP_pow bwp
  rw [eq]
  exact Nat.two_pow_pos k

theorem getP_le : bwp.getP ≤ 16 := by
  obtain ⟨k, le, -, eq⟩ := @getP_pow bwp
  rw [eq]
  exact Nat.pow_le_pow_right (succ_pos 1) le

theorem getP_ge : 2 ≤ bwp.getP := by
  obtain ⟨k, -, pos, eq⟩ := @getP_pow bwp
  rw [eq]
  exact Nat.pow_le_pow_right (succ_pos 1) pos

theorem getP_dvd : bwp.getP ∣ 4294967296 := by
  obtain ⟨k, le, -, eq⟩ := @getP_pow bwp
  rw [eq]
  exact Nat.pow_dvd_pow 2 (show k ≤ 32 by omega)

theorem rest_lt : bwp.start % bwp.getP < bwp.getP := mod_lt _ getP_pos

def rbgOf (bwp : Bwp) (prbIdx : Nat) : Nat := (prbIdx + bwp.start % bwp.getP) / bwp.getP

theorem rbgOf_lt {prbIdx : Nat} (inside : prbIdx < bwp.nofPrb) : bwp.rbgOf prbIdx < bwp.getNofRbgs := by
  have pos := @getP_pos bwp
  unfold rbgOf getNofRbgs
  rw [show bwp.nofPrb + bwp.start % bwp.getP + bwp.getP - 1 = bwp.nofPrb - 1 + bwp.start % bwp.getP + bwp.getP by
    have := bwp.nofPrb_pos; omega, add_div_right _ pos]
  exact lt_succ_of_le (Nat.div_le_div_right (by omega))

theorem rbgFirst_succ (rbgIdx : Nat) : bwp.rbgFirst (rbgIdx + 1) = bwp.rbgFirst rbgIdx + bwp.getRbgSize rbgIdx := by
  simp [rbgFirst, range_succ]

theorem rbgFirst_eq {rbgIdx : Nat} (inside : rbgIdx + 1 < bwp.getNofRbgs) :
    bwp.rbgFirst (rbgIdx + 1) + bwp.start % bwp.getP = (rbgIdx + 1) * bwp.getP := by
  induction rbgIdx with
  | zero =>
    have := @rest_lt bwp
    rw [rbgFirst_succ, getRbgSize, if_pos rfl]
    simp only [rbgFirst, range_zero, map_nil, sum_nil]
    omega
  | succ rbgIdx ih =>
    rw [rbgFirst_succ, getRbgSize, if_neg (succ_ne_zero _), if_neg (by omega), succ_mul (rbgIdx + 1)]
    omega

theorem nofRbgs_bounds :
    (bwp.getNofRbgs - 1) * bwp.getP < bwp.nofPrb + bwp.start % bwp.getP ∧
      bwp.nofPrb + bwp.start % bwp.getP ≤ bwp.getNofRbgs * bwp.getP ∧ 0 < bwp.getNofRbgs := by
  have pos := @getP_pos bwp
  have some_ := bwp.nofPrb_pos
  have upper := @Nat.lt_div_mul_add (bwp.nofPrb + bwp.start % bwp.getP + bwp.getP - 1) bwp.getP pos
  have lower := div_mul_le_self (bwp.nofPrb + bwp.start % bwp.getP + bwp.getP - 1) bwp.getP
  have nonzero : 0 < bwp.getNofRbgs := Nat.div_pos (by omega) pos
  change bwp.getNofRbgs * bwp.getP ≤ _ at lower
  change _ < bwp.getNofRbgs * bwp.getP + _ at upper
  have whole := Nat.sub_one_mul bwp.getNofRbgs bwp.getP
  omega

theorem rbgFirst_last (several : 1 < bwp.getNofRbgs) :
    bwp.rbgFirst (bwp.getNofRbgs - 1) + bwp.getRbgSize (bwp.getNofRbgs - 1) = bwp.nofPrb := by
  obtain ⟨lower, upper, -⟩ := @nofRbgs_bounds bwp
  obtain ⟨k, eq⟩ : ∃ k, bwp.getNofRbgs = k + 2 := ⟨bwp.getNofRbgs - 2, by omega⟩
  have first := @rbgFirst_eq bwp k (by omega)
  have wrap : u32 (bwp.start + bwp.nofPrb) % bwp.getP = (bwp.nofPrb + bwp.start % bwp.getP) % bwp.getP := by
    rw [u32, mod_mod_of_dvd _ getP_dvd, Nat.add_comm bwp.nofPrb, mod_add_mod]
  have last : bwp.getNofRbgs - 1 = k + 1 := by omega
  rw [last] at lower ⊢
  rw [eq, succ_mul (k + 1)] at upper
  obtain ⟨size, split⟩ : ∃ size, bwp.nofPrb + bwp.start % bwp.getP = (k + 1) * bwp.getP + size :=
    ⟨_, (Nat.add_sub_cancel' (Nat.le_of_lt lower)).symm⟩
  rw [getRbgSize, if_neg (succ_ne_zero k), if_pos (by omega), wrap, split, mul_add_mod']
  by_cases full : size = bwp.getP
  · rw [full, mod_self, if_neg (Nat.lt_irrefl 0)]
    omega
  · rw [mod_eq_of_lt (by omega), if_pos (by omega)]
    omega

theorem inRbg_iff {rbgIdx prbIdx : Nat} (inside : prbIdx < bwp.nofPrb) (valid : rbgIdx < bwp.getNofRbgs) :
    bwp.InRbg rbgIdx prbIdx ↔ rbgIdx = bwp.rbgOf prbIdx := by
  have pos := @getP_pos bwp
  obtain ⟨-, upper, -⟩ := @nofRbgs_bounds bwp
  unfold InRbg rbgOf
  rw [eq_comm, Nat.div_eq_iff pos]
  cases rbgIdx with
  | zero =>
    rw [getRbgSize, if_pos rfl]
    simp only [rbgFirst, range_zero, map_nil, sum_nil]
    omega
  | succ k =>
    have first := @rbgFirst_eq bwp k valid
    by_cases last : k + 1 = bwp.getNofRbgs - 1
    · have ends := @rbgFirst_last bwp (by omega)
      rw [← last] at ends
      have whole : bwp.getNofRbgs * bwp.getP = (k + 1) * bwp.getP + bwp.getP := by
        rw [show bwp.getNofRbgs = k + 2 by omega, succ_mul]
      omega
    · rw [getRbgSize, if_neg (succ_ne_zero k), if_neg last]
      omega

theorem rbgOf_mono {p q : Nat} (le : p ≤ q) : bwp.rbgOf p ≤ bwp.rbgOf q :=
  Nat.div_le_div_right (Nat.add_le_add_right le _)

theorem rbgOf_eq_iff {rbgIdx prbIdx : Nat} :
    bwp.rbgOf prbIdx = rbgIdx ↔
      rbgIdx * bwp.getP ≤ prbIdx + bwp.start % bwp.getP ∧
        prbIdx + bwp.start % bwp.getP < rbgIdx * bwp.getP + bwp.getP := by
  have pos := @getP_pos bwp
  rw [rbgOf, Nat.div_eq_iff pos]
  omega

theorem rbgOf_interval {first last rbgIdx : Nat} (order : first ≤ last) :
    (∃ prbIdx, first ≤ prbIdx ∧ prbIdx ≤ last ∧ bwp.rbgOf prbIdx = rbgIdx) ↔
      bwp.rbgOf first ≤ rbgIdx ∧ rbgIdx ≤ bwp.rbgOf last := by
  constructor
  · rintro ⟨prbIdx, lower, upper, rfl⟩
    exact ⟨rbgOf_mono lower, rbgOf_mono upper⟩
  · rintro ⟨lower, upper⟩
    by_cases here : bwp.rbgOf first = rbgIdx
    · exact ⟨first, Nat.le_refl _, order, here⟩
    · -- The RBG starts behind the first PRB of the interval.
      have pos := @getP_pos bwp
      have behind := (Nat.div_lt_iff_lt_mul pos).mp (Nat.lt_of_le_of_ne lower here)
      have before := (Nat.le_div_iff_mul_le pos).mp upper
      refine ⟨rbgIdx * bwp.getP - bwp.start % bwp.getP, by omega, by omega, rbgOf_eq_iff.mpr ?_⟩
      omega

theorem nofRbgs_le : bwp.getNofRbgs ≤ bwp.nofPrb := by
  obtain ⟨lower, -, some_⟩ := @nofRbgs_bounds bwp
  have rest_ := @rest_lt bwp
  have wide := @getP_ge bwp
  have prbs := bwp.nofPrb_pos
  by_cases several : bwp.getNofRbgs ≤ 1
  · omega
  · obtain ⟨k, eq⟩ : ∃ k, bwp.getNofRbgs = k + 2 := ⟨bwp.getNofRbgs - 2, by omega⟩
    rw [eq] at lower ⊢
    have split : (k + 2 - 1) * bwp.getP = k * bwp.getP + bwp.getP := succ_mul k _
    have twice := Nat.mul_le_mul_left k wide
    omega

end Bwp

namespace BwpRbBitmap
variable {bwp : Bwp} {b : BwpRbBitmap}

structure Shape (bwp : Bwp) (b : BwpRbBitmap) : Prop where
  prbs_size : b.prbs.size = bwp.nofPrb
  rbgs_size : b.rbgs.size = bwp.getNofRbgs
  p_eq : b.p = bwp.getP
  pnofbits_eq : 2 ^ b.pnofbits = bwp.getP
  firstRbgSize_eq : b.firstRbgSize = bwp.getP - bwp.start % bwp.getP

theorem ofBwp_shape : Shape bwp (ofBwp bwp) := by
  refine ⟨rfl, rfl, rfl, ?_, show bwp.getRbgSize 0 = _ from if_pos rfl⟩
  obtain ⟨k, -, -, eq⟩ := @Bwp.getP_pow bwp
  show 2 ^ log2 bwp.getP = bwp.getP
  rw [eq, log2_two_pow]

section
variable (shape : Shape bwp b)
include shape

theorem prbToRbgIdx_eq {prbIdx : Nat} (small : prbIdx ≤ bwp.nofPrb) : b.prbToRbgIdx prbIdx = bwp.rbgOf prbIdx := by
  have rest_ := @Bwp.rest_lt bwp
  have wide := @Bwp.getP_le bwp
  have few := bwp.nofPrb_le
  rw [prbToRbgIdx, shape.p_eq, shape.firstRbgSize_eq, u32_of_lt (by omega), sub32_of_le (by omega) (by omega),
    shiftRight_eq_div_pow, shape.pnofbits_eq]
  congr 1
  omega

theorem prbToRbgIdx_wrapped :
    b.prbToRbgIdx (sub32 0 1) + 1 =
      if bwp.start % bwp.getP = 0 then 4294967296 / bwp.getP else 1 := by
  have rest_ := @Bwp.rest_lt bwp
  have wide := @Bwp.getP_le bwp
  have last : sub32 0 1 = 4294967295 := rfl
  rw [prbToRbgIdx, shape.p_eq, shape.firstRbgSize_eq, sub32_u32 (by omega) (by omega), shiftRight_eq_div_pow,
    shape.pnofbits_eq]
  split
  · rename_i whole
    obtain ⟨k, le, -, eq⟩ := @Bwp.getP_pow bwp
    rw [whole, eq]
    obtain rfl | rfl | rfl | rfl | rfl : k = 0 ∨ k = 1 ∨ k = 2 ∨ k = 3 ∨ k = 4 := by omega
    all_goals rfl
  · rw [u32, div_eq_of_lt (by omega)]

theorem rbgPrbIdx_eq {rbgIdx : Nat} (valid : rbgIdx < bwp.getNofRbgs)
    (aligned : rbgIdx = 0 → bwp.start % bwp.getP = 0) :
    b.rbgPrbIdx rbgIdx = rbgIdx * bwp.getP - bwp.start % bwp.getP := by
  have rest_ := @Bwp.rest_lt bwp
  have wide := @Bwp.getP_le bwp
  rw [rbgPrbIdx, shape.p_eq, shape.firstRbgSize_eq]
  cases rbgIdx with
  | zero =>
    rw [aligned rfl, Nat.zero_mul, Nat.sub_zero, show sub32 0 1 = 4294967295 from rfl,
      show 4294967295 * bwp.getP = (4294967296 - bwp.getP) + 4294967296 * (bwp.getP - 1) by omega]
    unfold u32
    rw [add_mul_mod_self_left, mod_eq_of_lt (a := 4294967296 - bwp.getP) (by omega),
      Nat.sub_add_cancel (by omega)]
  | succ k =>
    have few := @Bwp.nofRbgs_le bwp
    have small := bwp.nofPrb_le
    have bound : k * bwp.getP ≤ 275 * 16 := Nat.mul_le_mul (by omega) wide
    rw [@sub32_of_le (k + 1) 1 (by omega) (by omega), Nat.add_sub_cancel, succ_mul,
      @u32_of_lt (k * bwp.getP) (by omega), u32_of_lt (by omega)]
    omega

theorem rbgPrbEnd_eq {rbgIdx : Nat} (valid : rbgIdx < bwp.getNofRbgs)
    (aligned : rbgIdx = 0 → bwp.start % bwp.getP = 0) :
    b.rbgPrbEnd rbgIdx = min (rbgIdx * bwp.getP + bwp.getP - bwp.start % bwp.getP) bwp.nofPrb := by
  have rest_ := @Bwp.rest_lt bwp
  have wide := @Bwp.getP_le bwp
  have few := @Bwp.nofRbgs_le bwp
  have small := bwp.nofPrb_le
  have bound : rbgIdx * bwp.getP ≤ 275 * 16 := Nat.mul_le_mul (by omega) wide
  rw [rbgPrbEnd, rbgPrbIdx_eq shape valid aligned, shape.p_eq, shape.firstRbgSize_eq, shape.prbs_size]
  by_cases zero : rbgIdx = 0
  · rw [if_pos zero, u32_of_lt (by omega)]
    omega
  · have least := Nat.le_mul_of_pos_left bwp.getP (Nat.pos_of_ne_zero zero)
    rw [if_neg zero, u32_of_lt (by omega)]
    omega

theorem fill_rbg {rbgIdx : Nat} (valid : rbgIdx < bwp.getNofRbgs) (aligned : rbgIdx = 0 → bwp.start % bwp.getP = 0) :
    ∃ prbs, b.prbs.fill (b.rbgPrbIdx rbgIdx) (b.rbgPrbEnd rbgIdx) = .ok prbs ∧ prbs.size = b.prbs.size ∧
      ∀ prbIdx, prbIdx ∈ prbs ↔ prbIdx ∈ b.prbs ∨ prbIdx < bwp.nofPrb ∧ bwp.rbgOf prbIdx = rbgIdx := by
  obtain ⟨lower, -, -⟩ := @Bwp.nofRbgs_bounds bwp
  have before : rbgIdx * bwp.getP ≤ (bwp.getNofRbgs - 1) * bwp.getP := Nat.mul_le_mul_right _ (by omega)
  rw [rbgPrbIdx_eq shape valid aligned, rbgPrbEnd_eq shape valid aligned]
  have range : rbgIdx * bwp.getP - bwp.start % bwp.getP ≤
      min (rbgIdx * bwp.getP + bwp.getP - bwp.start % bwp.getP) bwp.nofPrb ∧
      min (rbgIdx * bwp.getP + bwp.getP - bwp.start % bwp.getP) bwp.nofPrb ≤ b.prbs.size := by
    rw [shape.prbs_size]
    omega
  obtain ⟨prbs, fill⟩ : ∃ prbs, b.prbs.fill (rbgIdx * bwp.getP - bwp.start % bwp.getP)
      (min (rbgIdx * bwp.getP + bwp.getP - bwp.start % bwp.getP) bwp.nofPrb) = .ok prbs := ⟨_, if_pos range⟩
  obtain ⟨-, size, mem⟩ := fill_ok fill
  refine ⟨prbs, fill, size, fun prbIdx => (mem prbIdx).trans (or_congr Iff.rfl ?_)⟩
  rw [Bwp.rbgOf_eq_iff]
  omega

theorem fill_rbg_zero (shifted : bwp.start % bwp.getP ≠ 0) :
    b.prbs.fill (b.rbgPrbIdx 0) (b.rbgPrbEnd 0) = .error .assertionFailed := by
  have rest_ := @Bwp.rest_lt bwp
  have wide := @Bwp.getP_le bwp
  have small := bwp.nofPrb_le
  have below : b.rbgPrbIdx 0 = 4294967296 - bwp.start % bwp.getP := by
    rw [rbgPrbIdx, shape.p_eq, shape.firstRbgSize_eq, show sub32 0 1 = 4294967295 from rfl]
    unfold u32
    omega
  have endpos : b.rbgPrbEnd 0 ≤ bwp.nofPrb := by
    rw [rbgPrbEnd, shape.prbs_size]
    exact Nat.min_le_right _ _
  exact if_neg (by omega)

end

section
variable {grant : BoundedBitset} {idx : Nat}

theorem addPrbsToRbgs_ok (shape : Shape bwp b) (size : grant.size = bwp.nofPrb) (start : idx ≤ bwp.nofPrb) :
    ∃ rbgs, addPrbsToRbgs grant b idx = .ok { b with rbgs := rbgs } ∧ rbgs.size = b.rbgs.size ∧
      ∀ rbgIdx, rbgIdx ∈ rbgs ↔ rbgIdx ∈ b.rbgs ∨
        ∃ prbIdx, idx ≤ prbIdx ∧ prbIdx < bwp.nofPrb ∧ prbIdx ∈ grant ∧ bwp.rbgOf prbIdx = rbgIdx := by
  fun_induction addPrbsToRbgs grant b idx with
  | case1 b idx fault fails =>
    obtain ⟨found, runs⟩ := findLowest_of_le true (And.intro (size ▸ start) (Nat.le_refl grant.size))
    rw [runs] at fails
    contradiction
  | case2 b idx found =>
    refine ⟨b.rbgs, rfl, rfl, fun rbgIdx => (or_iff_left ?_).symm⟩
    rintro ⟨prbIdx, lower, upper, mem, -⟩
    exact BoundedBitset.findLowest_none found prbIdx lower (size ▸ upper) mem
  | case3 b idx idx' found ih =>
    obtain ⟨lower, upper, -, here, lowest⟩ := BoundedBitset.findLowest_some found
    rw [size] at upper
    have inside := Bwp.rbgOf_lt upper
    rw [prbToRbgIdx_eq shape (Nat.le_of_lt upper)]
    obtain ⟨rbgs, set⟩ : ∃ rbgs, b.rbgs.set (bwp.rbgOf idx') = .ok rbgs :=
      ⟨_, if_pos (by rw [shape.rbgs_size]; exact inside)⟩
    obtain ⟨-, same, mem⟩ := BoundedBitset.set_ok set
    -- The PRBs from `idx` on are those before `idx'`, which are not in the grant, `idx'` and those behind it.
    have parts : ∀ rbgIdx, (∃ prbIdx, idx ≤ prbIdx ∧ prbIdx < bwp.nofPrb ∧ prbIdx ∈ grant ∧
          bwp.rbgOf prbIdx = rbgIdx) ↔ rbgIdx = bwp.rbgOf idx' ∨
        ∃ prbIdx, idx' + 1 ≤ prbIdx ∧ prbIdx < bwp.nofPrb ∧ prbIdx ∈ grant ∧ bwp.rbgOf prbIdx = rbgIdx := by
      intro rbgIdx
      constructor
      · rintro ⟨prbIdx, from_, below, marked, rfl⟩
        rcases Nat.lt_trichotomy prbIdx idx' with before | rfl | behind
        · exact absurd marked (lowest prbIdx from_ before)
        · exact Or.inl rfl
        · exact Or.inr ⟨prbIdx, behind, below, marked, rfl⟩
      · rintro (rfl | ⟨prbIdx, from_, rest_⟩)
        · exact ⟨idx', lower, upper, here, rfl⟩
        · exact ⟨prbIdx, by omega, rest_⟩
    simp only [bind, Except.bind, set]
    by_cases last : idx' + 1 = b.prbs.size
    · rw [if_pos last]
      refine ⟨rbgs, rfl, same, fun rbgIdx => ?_⟩
      rw [mem, parts, or_iff_left (a := rbgIdx = bwp.rbgOf idx')]
      rw [shape.prbs_size] at last
      omega
    · rw [if_neg last]
      obtain ⟨all, run, size', mem'⟩ := ih rbgs
        ⟨shape.prbs_size, same.trans shape.rbgs_size, shape.p_eq, shape.pnofbits_eq, shape.firstRbgSize_eq⟩ upper
      exact ⟨all, run, size'.trans same, fun rbgIdx => by rw [mem', mem, parts, or_assoc]⟩

theorem addRbgsToPrbs_ok (shape : Shape bwp b) (size : grant.size = bwp.getNofRbgs) (start : idx ≤ bwp.getNofRbgs)
    (aligned : idx = 0 → 0 ∈ grant → bwp.start % bwp.getP = 0) :
    ∃ prbs, addRbgsToPrbs grant b idx = .ok { b with prbs := prbs } ∧ prbs.size = b.prbs.size ∧
      ∀ prbIdx, prbIdx ∈ prbs ↔ prbIdx ∈ b.prbs ∨
        prbIdx < bwp.nofPrb ∧ idx ≤ bwp.rbgOf prbIdx ∧ bwp.rbgOf prbIdx ∈ grant := by
  fun_induction addRbgsToPrbs grant b idx with
  | case1 b idx fault fails =>
    obtain ⟨found, runs⟩ := findLowest_of_le true (And.intro (size ▸ start) (Nat.le_refl grant.size))
    rw [runs] at fails
    contradiction
  | case2 b idx found =>
    refine ⟨b.prbs, rfl, rfl, fun prbIdx => (or_iff_left ?_).symm⟩
    rintro ⟨inside, lower, mem⟩
    exact BoundedBitset.findLowest_none found _ lower (size ▸ Bwp.rbgOf_lt inside) mem
  | case3 b idx idx' found ih =>
    obtain ⟨lower, upper, -, here, lowest⟩ := BoundedBitset.findLowest_some found
    rw [size] at upper
    obtain ⟨prbs, fill, same, mem⟩ := fill_rbg shape upper fun zero =>
      aligned (by omega) (by rw [zero] at here; exact here)
    have parts : ∀ prbIdx, prbIdx < bwp.nofPrb ∧ idx ≤ bwp.rbgOf prbIdx ∧ bwp.rbgOf prbIdx ∈ grant ↔
        (prbIdx < bwp.nofPrb ∧ bwp.rbgOf prbIdx = idx') ∨
          prbIdx < bwp.nofPrb ∧ idx' + 1 ≤ bwp.rbgOf prbIdx ∧ bwp.rbgOf prbIdx ∈ grant := by
      intro prbIdx
      constructor
      · rintro ⟨below, from_, marked⟩
        rcases Nat.lt_trichotomy (bwp.rbgOf prbIdx) idx' with before | same | behind
        · exact absurd marked (lowest _ from_ before)
        · exact Or.inl ⟨below, same⟩
        · exact Or.inr ⟨below, behind, marked⟩
      · rintro (⟨below, same⟩ | ⟨below, from_, marked⟩)
        · exact ⟨below, by omega, by rw [same]; exact here⟩
        · exact ⟨below, by omega, marked⟩
    rw [fill]
    show ∃ all, (if idx' + 1 = b.prbs.size then _ else _) = _ ∧ _
    by_cases last : idx' + 1 = b.prbs.size
    · rw [if_pos last]
      refine ⟨prbs, rfl, same, fun prbIdx => ?_⟩
      rw [mem, parts, or_iff_left (a := prbIdx < bwp.nofPrb ∧ bwp.rbgOf prbIdx = idx')]
      rintro ⟨below, from_, -⟩
      have few := @Bwp.nofRbgs_le bwp
      have valid := Bwp.rbgOf_lt below
      rw [shape.prbs_size] at last
      omega
    · rw [if_neg last]
      obtain ⟨all, run, size', mem'⟩ := ih prbs
        ⟨same.trans shape.prbs_size, shape.rbgs_size, shape.p_eq, shape.pnofbits_eq, shape.firstRbgSize_eq⟩ upper
        (fun zero => absurd zero (succ_ne_zero idx'))
      exact ⟨all, run, size'.trans same, fun prbIdx => by rw [mem', mem, parts, or_assoc]⟩

theorem addRbgsToPrbs_fails (shape : Shape bwp b) (size : grant.size = bwp.getNofRbgs) (first : 0 ∈ grant)
    (shifted : bwp.start % bwp.getP ≠ 0) : addRbgsToPrbs grant b 0 = .error .assertionFailed := by
  have fails := fill_rbg_zero shape shifted
  have range : 0 < grant.size := by
    rw [size]
    exact (@Bwp.nofRbgs_bounds bwp).2.2
  unfold addRbgsToPrbs
  split
  · rename_i fault eq
    obtain ⟨found, runs⟩ := findLowest_of_le true (And.intro (Nat.zero_le _) (Nat.le_refl grant.size))
    rw [runs] at eq
    contradiction
  · rename_i eq
    exact absurd first (BoundedBitset.findLowest_none eq 0 (Nat.le_refl 0) range)
  · rename_i idx' eq
    have zero : idx' = 0 := by
      by_contra later
      exact (BoundedBitset.findLowest_some eq).2.2.2.2 0 (Nat.le_refl 0) (Nat.pos_of_ne_zero later) first
    subst zero
    rw [fails]
    rfl

end
end BwpRbBitmap
end IsrRan.Mac.Nr
