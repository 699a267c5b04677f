import Mathlib.Tactic.Ring
import IsrRan.Phy.Cbsegm

namespace IsrRan.Phy
open List Nat

def tcCbSizes : List Nat :=
  [40, 48, 56, 64, 72, 80, 88, 96, 104, 112, 120, 128, 136, 144, 152, 160, 168, 176, 184, 192, 200, 208, 216,
    224, 232, 240, 248, 256, 264, 272, 280, 288, 296, 304, 312, 320, 328, 336, 344, 352, 360, 368, 376, 384,
    392, 400, 408, 416, 424, 432, 440, 448, 456, 464, 472, 480, 488, 496, 504, 512, 528, 544, 560, 576, 592,
    608, 624, 640, 656, 672, 688, 704, 720, 736, 752, 768, 784, 800, 816, 832, 848, 864, 880, 896, 912, 928,
    944, 960, 976, 992, 1008, 1024, 1056, 1088, 1120, 1152, 1184, 1216, 1248, 1280, 1312, 1344, 1376, 1408,
    1440, 1472, 1504, 1536, 1568, 1600, 1632, 1664, 1696, 1728, 1760, 1792, 1824, 1856, 1888, 1920, 1952,
    1984, 2016, 2048, 2112, 2176, 2240, 2304, 2368, 2432, 2496, 2560, 2624, 2688, 2752, 2816, 2880, 2944,
    3008, 3072, 3136, 3200, 3264, 3328, 3392, 3456, 3520, 3584, 3648, 3712, 3776, 3840, 3904, 3968, 4032,
    4096, 4160, 4224, 4288, 4352, 4416, 4480, 4544, 4608, 4672, 4736, 4800, 4864, 4928, 4992, 5056, 5120,
    5184, 5248, 5312, 5376, 5440, 5504, 5568, 5632, 5696, 5760, 5824, 5888, 5952, 6016, 6080, 6144]

def tcodMaxLenCb : Nat := 6144

def isrranCbsegmCbindex (longCb : Nat) : Option Nat := tcCbSizes.findIdx? fun size => longCb ≤ size

def isrranCbsegmCbsize (index : Nat) : Option Nat := tcCbSizes[index]?

/-- `isrran_cbsegm` with the number of code blocks and their bits together. Without code blocks a division
traps, and so it does when `K_2` is `K_1`. -/
def cbsegmOfSizes (tbs c bp : Nat) : Except Fault (Option CbSegm) :=
  if c = 0 then .error .undefinedBehaviour
  else
    match isrranCbsegmCbindex (u32 (sub32 bp 1 / c + 1)) with
    | none => .ok none
    | some idx1 =>
      match isrranCbsegmCbsize idx1, isrranCbsegmCbsize (idx1 - 1) with
      | some k1, some k2 =>
        if c = 1 then
          .ok (some { tbs, c, k1, k1Idx := idx1, c1 := 1, lTb := 24, lCb := 24, f := sub32 k1 bp })
        else if k1 = k2 then .error .undefinedBehaviour
        else
          let c2 := sub32 (u32 (c * k1)) bp / sub32 k1 k2
          let c1 := sub32 c c2
          .ok (some { tbs, c, k1, k1Idx := idx1, k2, k2Idx := idx1 - 1, c1, c2, lTb := 24, lCb := 24,
                      f := sub32 (u32 (c1 * k1 + c2 * k2)) bp })
      | _, _ => .ok none

def isrranCbsegm (tbs : Nat) : Except Fault (Option CbSegm) :=
  if tbs = 0 then .ok (some {})
  else
    let blocks := cbsegmCbSize (u32 (tbs + 24)) tcodMaxLenCb
    cbsegmOfSizes tbs blocks.1 blocks.2

theorem tcCbSizes_spec : ∀ size ∈ tcCbSizes, 8 ∣ size ∧ 40 ≤ size ∧ size ≤ tcodMaxLenCb := by decide +kernel

theorem tcCbSizes_sorted : tcCbSizes.Pairwise (· < ·) := by decide +kernel

section
variable {tbs longCb idx k : Nat} {segm : CbSegm}

theorem cbsize_mem (size : isrranCbsegmCbsize idx = some k) : k ∈ tcCbSizes := mem_of_getElem? size

theorem le_of_cbindex (index : isrranCbsegmCbindex longCb = some idx) (size : isrranCbsegmCbsize idx = some k) :
    longCb ≤ k := by
  obtain ⟨lt, found, -⟩ := findIdx?_eq_some_iff_getElem.mp index
  have eq : tcCbSizes[idx] = k := getElem_eq_iff lt |>.mpr size
  rw [eq] at found
  exact of_decide_eq_true found

theorem cbindex_of_le (fits : longCb ≤ tcodMaxLenCb) :
    ∃ idx k, isrranCbsegmCbindex longCb = some idx ∧ isrranCbsegmCbsize idx = some k := by
  cases index : isrranCbsegmCbindex longCb with
  | none =>
    have missed := findIdx?_eq_none_iff.mp index tcodMaxLenCb (by decide +kernel)
    exact absurd fits (of_decide_eq_false missed)
  | some idx =>
    obtain ⟨lt, -, -⟩ := findIdx?_eq_some_iff_getElem.mp index
    exact ⟨idx, tcCbSizes[idx], rfl, List.getElem?_eq_getElem lt⟩

theorem cbsize_least (index : isrranCbsegmCbindex longCb = some idx) (size : isrranCbsegmCbsize idx = some k) :
    ∀ k' ∈ tcCbSizes, longCb ≤ k' → k ≤ k' := by
  intro k' mem large
  obtain ⟨lt, -, missed⟩ := findIdx?_eq_some_iff_getElem.mp index
  have eq : tcCbSizes[idx] = k := getElem_eq_iff lt |>.mpr size
  obtain ⟨j, inside, rfl⟩ := getElem_of_mem mem
  rw [← eq]
  rcases Nat.lt_trichotomy j idx with less | rfl | greater
  · exact absurd large (by simpa using missed j less)
  · exact Nat.le_refl _
  · exact Nat.le_of_lt (List.pairwise_iff_getElem.mp tcCbSizes_sorted idx j lt inside greater)

theorem cbsize_pred (index : isrranCbsegmCbindex longCb = some (idx + 1))
    (size : isrranCbsegmCbsize (idx + 1) = some k) :
    ∃ k2, isrranCbsegmCbsize idx = some k2 ∧ k2 < longCb ∧ k2 < k := by
  obtain ⟨lt, -, missed⟩ := findIdx?_eq_some_iff_getElem.mp index
  have eq : tcCbSizes[idx + 1] = k := getElem_eq_iff lt |>.mpr size
  have small := missed idx (lt_succ_self idx)
  refine ⟨tcCbSizes[idx], List.getElem?_eq_getElem _, by simpa using small, ?_⟩
  rw [← eq]
  exact List.pairwise_iff_getElem.mp tcCbSizes_sorted idx (idx + 1) _ lt (lt_succ_self idx)

theorem cbsize_le_double {k2 : Nat} (pred : isrranCbsegmCbsize idx = some k2)
    (size : isrranCbsegmCbsize (idx + 1) = some k) :
    k ≤ 2 * k2 := by
  have steps : ∀ i : Fin 187, tcCbSizes.getD (i + 1) 0 ≤ 2 * tcCbSizes.getD i 0 := by decide +kernel
  obtain ⟨lt, eq⟩ := List.getElem?_eq_some_iff.mp size
  have step := steps ⟨idx, lt_of_succ_lt_succ lt⟩
  rw [getD_eq_getElem?_getD, getD_eq_getElem?_getD] at step
  unfold isrranCbsegmCbsize at pred
  rw [pred, List.getElem?_eq_getElem lt, eq] at step
  exact step

end

theorem smaller_blocks {c bp k1 k2 : Nat} (less : k2 < k1) (fits : bp ≤ c * k1) (tight : c * k2 < bp) :
    (c * k1 - bp) / (k1 - k2) < c ∧
      (c - (c * k1 - bp) / (k1 - k2)) * k1 + (c * k1 - bp) / (k1 - k2) * k2 = bp + (c * k1 - bp) % (k1 - k2) := by
  obtain ⟨d, rfl⟩ := Nat.exists_eq_add_of_lt less
  have width : k2 + d + 1 - k2 = d + 1 := by omega
  rw [width]
  have spread : c * (k2 + d + 1) = c * k2 + c * (d + 1) := by ring
  have lt : (c * (k2 + d + 1) - bp) / (d + 1) < c := by
    apply Nat.div_lt_of_lt_mul
    rw [Nat.mul_comm (d + 1) c]
    omega
  have whole := div_add_mod (c * (k2 + d + 1) - bp) (d + 1)
  generalize (c * (k2 + d + 1) - bp) / (d + 1) = c2 at *
  obtain ⟨c1, rfl⟩ := Nat.exists_eq_add_of_le lt.le
  have left : c2 + c1 - c2 = c1 := by omega
  have sum : c1 * (k2 + d + 1) + c2 * k2 + (d + 1) * c2 = (c2 + c1) * (k2 + d + 1) := by ring
  rw [left]
  omega

structure Covers (tbs c bp : Nat) (segm : CbSegm) : Prop where
  tbs_eq : segm.tbs = tbs
  c_eq : segm.c = c
  blocks : segm.c1 + segm.c2 = c
  first : 0 < segm.c1
  size : isrranCbsegmCbsize segm.k1Idx = some segm.k1
  enough : bp ≤ c * segm.k1
  least : ∀ k ∈ tcCbSizes, bp ≤ c * k → segm.k1 ≤ k
  total : segm.c1 * segm.k1 + segm.c2 * segm.k2 = bp + segm.f
  single : c = 1 → segm.c2 = 0
  pred : c ≠ 1 → segm.k1Idx = segm.k2Idx + 1 ∧ isrranCbsegmCbsize segm.k2Idx = some segm.k2 ∧ segm.k2 < segm.k1
  filler : c ≠ 1 → segm.f < segm.k1 - segm.k2

theorem roundedUp_le_iff {c bp k : Nat} (pos : 0 < c) (some_ : 0 < bp) : (bp - 1) / c + 1 ≤ k ↔ bp ≤ c * k := by
  rw [add_one_le_iff, Nat.div_lt_iff_lt_mul pos, Nat.mul_comm]
  omega

theorem cbsegmOfSizes_covers {tbs c bp : Nat} (pos : 0 < c) (some_ : 0 < bp) (lt : bp < 4294967296)
    (fits : bp ≤ c * tcodMaxLenCb) (several : c ≠ 1 → c * 40 < bp) :
    ∃ segm, cbsegmOfSizes tbs c bp = .ok (some segm) ∧ Covers tbs c bp segm := by
  have step : u32 (sub32 bp 1 / c + 1) = (bp - 1) / c + 1 := by
    have smaller := Nat.div_le_self (bp - 1) c
    rw [sub32_of_le (show 1 ≤ bp from some_) lt]
    exact u32_of_lt (by omega)
  obtain ⟨idx, k1, index, size⟩ := cbindex_of_le ((roundedUp_le_iff pos some_).mpr fits)
  have enough := (roundedUp_le_iff pos some_).mp (le_of_cbindex index size)
  have least : ∀ k ∈ tcCbSizes, bp ≤ c * k → k1 ≤ k := fun k mem large =>
    cbsize_least index size k mem ((roundedUp_le_iff pos some_).mpr large)
  have bound := tcCbSizes_spec k1 (cbsize_mem size)
  unfold tcodMaxLenCb at bound
  unfold cbsegmOfSizes
  rw [if_neg pos.ne', step, index]
  dsimp only
  rw [size]
  by_cases single : c = 1
  · subst single
    obtain ⟨k2, pred⟩ : ∃ k2, isrranCbsegmCbsize (idx - 1) = some k2 := by
      obtain ⟨inside, -⟩ := List.getElem?_eq_some_iff.mp size
      exact ⟨_, List.getElem?_eq_getElem (Nat.lt_of_le_of_lt (sub_le idx 1) inside)⟩
    rw [pred]
    dsimp only
    rw [sub32_of_le (by omega) (by omega)]
    exact ⟨_, rfl, rfl, rfl, rfl, Nat.one_pos, size, enough, least, by dsimp only; omega, fun _ => rfl,
      fun more => absurd rfl more, fun more => absurd rfl more⟩
  · -- the first size of the table is too small for several blocks
    obtain ⟨i, rfl⟩ : ∃ i, idx = i + 1 := by
      apply exists_eq_succ_of_ne_zero
      rintro rfl
      have first_ : k1 = 40 := (Option.some.inj size).symm
      rw [first_] at enough
      exact absurd (several single) (Nat.not_lt.mpr enough)
    obtain ⟨k2, pred, short, less⟩ := cbsize_pred index size
    have tight : c * k2 < bp := Nat.lt_of_not_le fun large =>
      absurd ((roundedUp_le_iff pos some_).mpr large) (Nat.not_le.mpr short)
    obtain ⟨fewer, total⟩ := smaller_blocks less enough tight
    have filler := mod_lt (c * k1 - bp) (Nat.sub_pos_of_lt less)
    have narrow : c * k1 ≤ c * (2 * k2) := Nat.mul_le_mul_left c (cbsize_le_double pred size)
    rw [Nat.mul_left_comm] at narrow
    have few : c < 4294967296 := by
      omega
    have left : sub32 (u32 (c * k1)) bp = c * k1 - bp := (sub32_u32 enough lt).trans (u32_of_lt (by omega))
    rw [Nat.add_sub_cancel, pred]
    dsimp only
    rw [if_neg single, if_neg less.ne', left, sub32_of_le less.le (by omega), sub32_of_le fewer.le few, total,
      sub32_u32 (Nat.le_add_right _ _) lt, Nat.add_sub_cancel_left, u32_of_lt (by omega)]
    exact ⟨_, rfl, rfl, rfl, Nat.sub_add_cancel fewer.le, Nat.sub_pos_of_lt fewer, size, enough, least, total,
      fun one => absurd one single, fun _ => ⟨rfl, pred, less⟩, fun _ => filler⟩

section
variable {tbs longCb idx k : Nat} {segm : CbSegm}

structure Segmented (tbs : Nat) (segm : CbSegm) : Prop where
  pos : 0 < segm.c
  tbs_eq : segm.tbs = tbs
  blocks : segm.c1 + segm.c2 = segm.c
  first : 0 < segm.c1
  larger : 0 < segm.c2 → segm.k2 < segm.k1
  octets : 8 ∣ segm.k1
  room : 40 ≤ segm.k1
  several : segm.c ≠ 1 → 48 ≤ segm.k1
  total : segm.c1 * segm.k1 + segm.c2 * segm.k2 = tbs + 24 + if segm.c = 1 then 0 else 24 * segm.c

def maxCodeblocks : Nat := 32

section
variable {b c bp : Nat}

theorem cbsegmCbSize_of_single (sizes : cbsegmCbSize b tcodMaxLenCb = (1, bp)) (lt : b < 4294967296) :
    bp = b ∧ b ≤ tcodMaxLenCb := by
  unfold cbsegmCbSize at sizes
  split at sizes
  · cases sizes
    exact ⟨rfl, by assumption⟩
  · rename_i large
    have one : ceil32 b (tcodMaxLenCb - 24) = 1 := congrArg Prod.fst sizes
    unfold ceil32 u32 tcodMaxLenCb at one
    unfold tcodMaxLenCb at large
    omega

theorem cbsegmCbSize_of_several (sizes : cbsegmCbSize b tcodMaxLenCb = (c, bp)) (some_ : c ≠ 0)
    (several : c ≠ 1) (lt : b < 4294967296) :
    tcodMaxLenCb < b ∧ b ≤ 6120 * c ∧ 6120 * c < b + 6120 ∧ (b + 24 * c < 4294967296 → bp = b + 24 * c) := by
  unfold cbsegmCbSize at sizes
  split at sizes
  · cases sizes
    exact absurd rfl several
  · rename_i large
    have blocks : ceil32 b (tcodMaxLenCb - 24) = c := congrArg Prod.fst sizes
    have bits : u32 (b + u32 (24 * c)) = bp := blocks ▸ congrArg Prod.snd sizes
    unfold tcodMaxLenCb at blocks large ⊢
    have inside : b + (6144 - 24 - 1) < 4294967296 := by
      by_contra wraps
      refine some_ ?_
      rw [← blocks]
      unfold ceil32 u32
      omega
    rw [ceil32_of_lt inside] at blocks
    unfold u32 at bits
    omega

end

theorem Covers.segmented {c bp : Nat} (covers : Covers tbs c bp segm) (pos : 0 < c) (noFiller : segm.f = 0)
    (bits : bp = tbs + 24 + if c = 1 then 0 else 24 * c) (several : c ≠ 1 → c * 40 < bp) : Segmented tbs segm := by
  obtain ⟨octets, room, -⟩ := tcCbSizes_spec _ (cbsize_mem covers.size)
  refine ⟨covers.c_eq ▸ pos, covers.tbs_eq, covers.blocks.trans covers.c_eq.symm, covers.first, fun some_ => ?_, octets,
    room, fun more => ?_, ?_⟩
  · refine (covers.pred fun one => ?_).2.2
    rw [covers.single one] at some_
    exact absurd some_ (Nat.lt_irrefl 0)
  · rw [covers.c_eq] at more
    -- a multiple of eight that is not the smallest size
    have large : 40 < segm.k1 := by
      by_contra small
      have enough := Nat.le_trans covers.enough (Nat.mul_le_mul_left c (Nat.not_lt.mp small))
      exact absurd (several more) (Nat.not_lt.mpr enough)
    omega
  · rw [covers.c_eq, covers.total, noFiller, bits, Nat.add_zero]

theorem c_eq_of_returned {c bp : Nat} (returned : cbsegmOfSizes tbs c bp = .ok (some segm)) : segm.c = c := by
  unfold cbsegmOfSizes at returned
  split at returned
  · cases returned
  · split at returned
    · cases returned
    · split at returned
      · split at returned
        · cases returned
          rfl
        · split at returned
          · cases returned
          · cases returned
            rfl
      · cases returned

theorem segmented_of_sizes {b c bp : Nat} (sizes : cbsegmCbSize b tcodMaxLenCb = (c, bp)) (lt : b < 4294967296)
    (bits : b = tbs + 24 ∨ b < 24) (returned : cbsegmOfSizes tbs c bp = .ok (some segm))
    (noFiller : segm.f = 0) (few : segm.c ≤ maxCodeblocks) : Segmented tbs segm := by
  have some_ : c ≠ 0 := by
    rintro rfl
    cases returned
  have pos := Nat.pos_of_ne_zero some_
  rw [c_eq_of_returned returned] at few
  by_cases single : c = 1
  · subst single
    obtain ⟨rfl, fits⟩ := cbsegmCbSize_of_single sizes lt
    have whole : 0 < bp := by
      apply Nat.pos_of_ne_zero
      rintro rfl
      cases returned
      have filled : sub32 40 0 = 0 := noFiller
      exact absurd filled (by decide)
    obtain ⟨segm', same, covers⟩ := @cbsegmOfSizes_covers tbs 1 bp Nat.one_pos whole lt (by omega) (absurd rfl)
    cases returned.symm.trans same
    have room := (tcCbSizes_spec _ (cbsize_mem covers.size)).2.1
    have total := covers.total
    have one := covers.blocks
    rw [covers.single rfl] at one total
    rw [show segm.c1 = 1 from one] at total
    exact covers.segmented pos noFiller (by simp only [if_true]; omega) (absurd rfl)
  · obtain ⟨large, upper, lower, together⟩ := cbsegmCbSize_of_several sizes some_ single lt
    unfold maxCodeblocks at few
    obtain ⟨segm', same, covers⟩ := @cbsegmOfSizes_covers tbs c bp pos (by omega) (by omega)
      (by unfold tcodMaxLenCb; omega) (by omega)
    cases returned.symm.trans same
    exact covers.segmented pos noFiller (by rw [if_neg single]; unfold tcodMaxLenCb at large; omega) (by omega)

theorem segmented_of_cbsegm (lt : tbs < 4294967296) (nonzero : tbs ≠ 0)
    (returned : isrranCbsegm tbs = .ok (some segm)) (noFiller : segm.f = 0) (few : segm.c ≤ maxCodeblocks) :
    Segmented tbs segm := by
  have bits : u32 (tbs + 24) < 4294967296 ∧ (u32 (tbs + 24) = tbs + 24 ∨ u32 (tbs + 24) < 24) := by
    unfold u32
    omega
  unfold isrranCbsegm at returned
  rw [if_neg nonzero] at returned
  exact segmented_of_sizes rfl bits.1 bits.2 returned noFiller few

theorem bits_of_sizes {c bp : Nat} (sizes : cbsegmCbSize (tbs + 24) tcodMaxLenCb = (c, bp))
    (inside : tbs + 24 + 24 * ((tbs + 24) ⌈/⌉ (tcodMaxLenCb - 24)) < 4294967296) :
    0 < c ∧ bp = tbs + 24 + (if c > 1 then 24 * c else 0) ∧ bp < 4294967296 ∧ bp ≤ c * tcodMaxLenCb ∧
      (c ≠ 1 → c * 40 < bp) := by
  unfold tcodMaxLenCb at *
  rw [ceilDiv_eq_add_pred_div] at inside
  unfold cbsegmCbSize at sizes
  split at sizes
  · cases sizes
    exact ⟨Nat.one_pos, rfl, by omega, by omega, absurd rfl⟩
  · next large =>
      obtain ⟨rfl, rfl⟩ := Prod.mk.inj sizes
      rw [ceil32_of_lt (by omega)]
      unfold u32
      have few : (tbs + 24 + (6144 - 24 - 1)) / (6144 - 24) > 1 := by omega
      rw [if_pos few]
      omega

theorem isrranCbsegm_covers (tbs : Nat) (some_ : 1 ≤ tbs)
    (inside : tbs + 24 + 24 * ((tbs + 24) ⌈/⌉ (tcodMaxLenCb - 24)) < 4294967296) :
    ∃ segm, isrranCbsegm tbs = .ok (some segm) ∧ segm.c = segm.c1 + segm.c2 ∧ 1 ≤ segm.c1 ∧
      segm.c1 * segm.k1 + segm.c2 * segm.k2 = tbs + 24 + (if segm.c > 1 then 24 * segm.c else 0) + segm.f ∧
      segm.k1 ∈ tcCbSizes ∧ (segm.c2 > 0 → segm.k2 ∈ tcCbSizes) ∧
      (segm.c > 1 → segm.k1Idx = segm.k2Idx + 1 ∧ isrranCbsegmCbsize segm.k2Idx = some segm.k2 ∧
        isrranCbsegmCbsize segm.k1Idx = some segm.k1) ∧
      tbs + 24 + (if segm.c > 1 then 24 * segm.c else 0) ≤ segm.c * segm.k1 ∧
      (∀ k ∈ tcCbSizes, tbs + 24 + (if segm.c > 1 then 24 * segm.c else 0) ≤ segm.c * k → segm.k1 ≤ k) ∧
      (segm.c > 1 → segm.f < segm.k1 - segm.k2) ∧ segm.f < segm.k1 ∧ (segm.c2 > 0 → segm.f < segm.k2) := by
  have lt : tbs + 24 < 4294967296 := by omega
  obtain ⟨c, bp, sizes⟩ : ∃ c bp, cbsegmCbSize (tbs + 24) tcodMaxLenCb = (c, bp) := ⟨_, _, rfl⟩
  obtain ⟨pos, bits, short, fits, several⟩ := bits_of_sizes sizes inside
  obtain ⟨segm, returned, covers⟩ := @cbsegmOfSizes_covers tbs c bp pos (by omega) short fits several
  have blocks := covers.blocks
  have bits' : tbs + 24 + (if segm.c > 1 then 24 * segm.c else 0) = bp := by
    rw [covers.c_eq, bits]
  have narrow (more : segm.c > 1) : segm.f < segm.k1 - segm.k2 ∧ segm.k1 ≤ 2 * segm.k2 := by
    have differ : c ≠ 1 := covers.c_eq ▸ more.ne'
    obtain ⟨next, pred, -⟩ := covers.pred differ
    exact ⟨covers.filler differ, cbsize_le_double pred (next ▸ covers.size)⟩
  have smaller (some_ : segm.c2 > 0) : segm.c > 1 := by
    have first_ := covers.first
    have c_eq := covers.c_eq
    omega
  refine ⟨segm, ?_, covers.c_eq.trans blocks.symm, covers.first, ?_, cbsize_mem covers.size, fun some_ => ?_,
    fun more => ?_, ?_, ?_, fun more => (narrow more).1, ?_, fun some_ => ?_⟩
  · unfold isrranCbsegm
    rw [if_neg (by omega), u32_of_lt lt, sizes]
    exact returned
  · rw [bits', covers.total]
  · exact cbsize_mem (covers.pred (covers.c_eq ▸ (smaller some_).ne')).2.1
  · obtain ⟨next, pred, -⟩ := covers.pred (covers.c_eq ▸ more.ne')
    exact ⟨next, pred, covers.size⟩
  · rw [bits', covers.c_eq]
    exact covers.enough
  · rw [bits', covers.c_eq]
    exact covers.least
  · by_cases more : segm.c > 1
    · have step := (narrow more).1
      omega
    · have total := covers.total
      have c_eq := covers.c_eq
      have first_ := covers.first
      have single : segm.c1 = 1 ∧ segm.c2 = 0 := by omega
      rw [single.1, single.2] at total
      omega
  · obtain ⟨step, double⟩ := narrow (smaller some_)
    omega

theorem isrranCbsegm_covers_split : ∃ segm, isrranCbsegm 6121 = .ok (some segm) ∧ segm.c = segm.c1 + segm.c2 := by
  obtain ⟨segm, returned, blocks, -⟩ := isrranCbsegm_covers 6121 (by decide) (by decide)
  exact ⟨segm, returned, blocks⟩

end

end IsrRan.Phy
