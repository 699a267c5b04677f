import Mathlib.Data.Nat.Bitwise
import IsrRan.Lib.Gf2

/-! The CRC of a buffer (crc.c, crc.h): a table for whole bytes, and bits that are taken back from the last one. -/

namespace IsrRan.Phy.Fec
open Lib Gf2 Polynomial AdjoinRoot List Nat

structure Crc where
  table : Nat → Nat
  polynom : Nat
  order : Nat
  crcinit : Nat
  crcmask : Nat
  crchighbit : Nat

def tableRound (polynom crchighbit crc : Nat) : Nat :=
  if crc &&& crchighbit ≠ 0 then (crc <<< 1) % 2 ^ 64 ^^^ polynom else (crc <<< 1) % 2 ^ 64

def genCrcTable (h : Crc) : Crc :=
  let pad := if h.order < 8 then 8 - h.order else 0
  let ord := h.order + pad - 8
  let polynom := (h.polynom <<< pad) % 2 ^ 32
  let crchighbit := (h.crchighbit <<< pad) % 2 ^ 32
  { h with table := fun i => ((tableRound polynom crchighbit)^[8] (i <<< ord)) >>> pad &&& h.crcmask }

def reversecrcbit (crc nbits : Nat) (h : Crc) : Nat :=
  (fun crc => if 1 &&& crc = 1 then (crc ^^^ h.polynom) >>> 1 else crc >>> 1)^[nbits] crc &&& h.crcmask

def crcSetInit (h : Crc) (crcInitValue : Nat) : Int × Crc :=
  if crcInitValue ≠ crcInitValue &&& h.crcmask then (-1, { h with crcinit := crcInitValue })
  else (0, { h with crcinit := crcInitValue })

def crcInit (crcPoly crcOrder : Nat) : Int × Crc :=
  let h : Crc :=
    { table := fun _ => 0
      polynom := crcPoly
      order := crcOrder
      crcinit := 0
      crcmask := (((1 <<< (crcOrder - 1)) - 1) <<< 1) ||| 1
      crchighbit := 1 <<< (crcOrder - 1) }
  let (status, h) := crcSetInit h h.crcinit
  if status ≠ 0 then (-1, h) else (0, genCrcTable h)

def crcChecksumPutByte (h : Crc) (byte : Nat) : Crc :=
  let idx :=
    if 8 < h.order then ((h.crcinit >>> (h.order - 8)) &&& 255) ^^^ byte
    else ((h.crcinit <<< (8 - h.order)) % 2 ^ 64 &&& 255) ^^^ byte
  { h with crcinit := (h.crcinit <<< 8) % 2 ^ 64 ^^^ h.table idx }

def crcChecksumGet (h : Crc) : Nat := h.crcinit &&& h.crcmask

def bitPack (bits : Nat → Bool) (top n : Nat) : Nat :=
  (range n).foldl (fun value i => value ||| (bits i).toNat <<< (top - i)) 0

/-- The byte of a round: `res8` bits stand in front of the last one, the rest of it is zero. -/
def byteAt (data : Nat → Bool) (len i : Nat) : Nat :=
  if i = len / 8 then bitPack (fun k => data (8 * i + k)) 7 (len % 8) else bitPack (fun k => data (8 * i + k)) 7 8

def crcChecksum (h : Crc) (data : Nat → Bool) (len : Nat) : Nat × Crc :=
  let a := if 0 < len % 8 then 1 else 0
  let h := (range (len / 8 + a)).foldl (fun h i => crcChecksumPutByte h (byteAt data len i)) (crcSetInit h 0).2
  let crc := crcChecksumGet h % 2 ^ 32
  (if a = 1 then reversecrcbit crc (8 - len % 8) h % 2 ^ 32 else crc, h)

def crcChecksumByte (h : Crc) (data : Nat → Nat) (len : Nat) : Nat × Crc :=
  let h := (range (len / 8)).foldl (fun h i => crcChecksumPutByte h (data i)) (crcSetInit h 0).2
  (crcChecksumGet h % 2 ^ 32, h)

def crcAttach (h : Crc) (data : Nat → Bool) (len : Nat) : (Nat → Bool) × Crc :=
  let (checksum, h) := crcChecksum h data len
  (fun k => if len ≤ k ∧ k < len + h.order then checksum.testBit (h.order - (k - len) - 1) else data k, h)

def crcMatch (h : Crc) (data : Nat → Bool) (len : Nat) : Bool × Crc :=
  let (checksum, h) := crcChecksum h data (len + h.order)
  (checksum = 0, h)

/-! ### The register -/

section
variable {poly order : Nat}

variable {n crc top : Nat} {h : Crc}

theorem mask_eq (positive : 0 < order) : (((1 <<< (order - 1)) - 1) <<< 1) ||| 1 = 2 ^ order - 1 := by
  obtain ⟨k, rfl⟩ : ∃ k, order = k + 1 := ⟨order - 1, by omega⟩
  have low := @Nat.two_pow_add_eq_or_of_lt 1 1 (by decide) (2 ^ k - 1)
  have pos := Nat.two_pow_pos k
  rw [Nat.add_sub_cancel, one_shiftLeft, shiftLeft_eq, Nat.mul_comm]
  omega

structure Made (h : Crc) (poly order : Nat) : Prop where
  polynom : h.polynom = poly
  order_eq : h.order = order
  mask : h.crcmask = 2 ^ order - 1
  entry_lt : ∀ i, h.table i < 2 ^ order
  entry : ∀ i < 256, mk (word poly) (word (h.table i)) = mk (word poly) (X ^ order * word i)

theorem tableRound_eq (small : crc < 2 ^ n) (fits : n < 64) :
    tableRound poly (2 ^ (n - 1)) crc = divide poly n crc := by
  have shifted : (crc <<< 1) % 2 ^ 64 = crc <<< 1 := by
    apply mod_eq_of_lt
    calc
      crc <<< 1 = crc * 2 := shiftLeft_eq crc 1
      _ < 2 ^ n * 2 := Nat.mul_lt_mul_of_pos_right small (by decide)
      _ = 2 ^ (n + 1) := (Nat.pow_succ ..).symm
      _ ≤ 2 ^ 64 := Nat.pow_le_pow_right (by decide) fits
  unfold tableRound divide
  rw [shifted, and_two_pow]
  cases bit : crc.testBit (n - 1) with
  | false => simp
  | true => simp

theorem iterate_tableRound (positive : 0 < n) (high : 2 ^ n ≤ poly) (bounded : poly < 2 ^ (n + 1))
    (small : crc < 2 ^ n) (fits : n < 64) (k : Nat) :
    (tableRound poly (2 ^ (n - 1)))^[k] crc = (divide poly n)^[k] crc := by
  induction k with
  | zero => rfl
  | succ k ih =>
    rw [Function.iterate_succ_apply', Function.iterate_succ_apply', ih]
    exact tableRound_eq (iterate_divide_lt positive high bounded small k) fits

theorem padded_entry (gen : IsGenerator poly order) {pad i ord : Nat} (wide : order + pad = ord + 8)
    (small : i < 256) :
    ((divide (poly <<< pad) (order + pad))^[8] (i <<< ord)) >>> pad < 2 ^ order ∧
      mk (word poly) (word (((divide (poly <<< pad) (order + pad))^[8] (i <<< ord)) >>> pad)) =
        mk (word poly) (X ^ order * word i) := by
  have high : 2 ^ (order + pad) ≤ poly <<< pad := by
    rw [shiftLeft_eq, Nat.pow_add]
    exact Nat.mul_le_mul_right _ gen.high
  have bounded : poly <<< pad < 2 ^ (order + pad + 1) := by
    rw [shiftLeft_eq, Nat.add_right_comm, Nat.pow_add]
    exact Nat.mul_lt_mul_of_pos_right gen.bounded (Nat.two_pow_pos pad)
  have start : i <<< ord < 2 ^ (order + pad) := by
    rw [shiftLeft_eq, wide, Nat.pow_add, Nat.mul_comm]
    exact Nat.mul_lt_mul_of_pos_left small (Nat.two_pow_pos ord)
  have below := iterate_divide_lt (by omega : 0 < order + pad) high bounded start 8
  have class_ := @mk_iterate_divide (poly <<< pad) (order + pad) (i <<< ord) 8
  generalize (divide (poly <<< pad) (order + pad))^[8] (i <<< ord) = crc at below class_
  have padded : word (poly <<< pad) = X ^ pad * word poly := word_shiftLeft poly pad
  have power : X ^ 8 * word (i <<< ord) = X ^ pad * (X ^ order * word i) := by
    rw [word_shiftLeft, ← mul_assoc, ← pow_add, ← mul_assoc, ← pow_add, Nat.add_comm 8, ← wide, Nat.add_comm order]
  rw [mk_eq_mk, padded, power] at class_
  have low : X ^ pad ∣ word crc := by
    have both := dvd_add ((Dvd.intro (word poly) rfl).trans class_) (Dvd.intro (X ^ order * word i) rfl)
    rwa [sub_add_cancel] at both
  constructor
  · rw [shiftRight_eq_div_pow]
    rw [Nat.pow_add] at below
    exact Nat.div_lt_of_lt_mul (Nat.mul_comm _ (2 ^ pad) ▸ below)
  · rw [mk_eq_mk]
    rw [← word_shiftRight low, ← mul_sub] at class_
    exact (mul_dvd_mul_iff_left (pow_ne_zero pad X_ne_zero)).mp class_

theorem crcInit_eq (positive : 0 < order) : crcInit poly order = (0, genCrcTable
    { table := fun _ => 0, polynom := poly, order := order, crcinit := 0, crcmask := 2 ^ order - 1,
      crchighbit := 2 ^ (order - 1) }) := by
  unfold crcInit crcSetInit
  dsimp only
  rw [mask_eq positive, one_shiftLeft, zero_and, if_neg (fun differ => differ rfl), if_neg (fun differ => differ rfl)]

theorem crcInit_made (gen : IsGenerator poly order) (positive : 0 < order) (bounded : order ≤ 24) :
    Made (crcInit poly order).2 poly order := by
  rw [crcInit_eq positive]
  unfold genCrcTable
  refine ⟨rfl, rfl, rfl, fun i => ?_, fun i small => ?_⟩
  · dsimp only
    rw [and_two_pow_sub_one_eq_mod]
    exact mod_lt _ (Nat.two_pow_pos order)
  · dsimp only
    generalize padEq : (if order < 8 then 8 - order else 0) = pad
    have wide : order + pad = order + pad - 8 + 8 := by
      split at padEq <;> omega
    have narrow : order + pad ≤ 24 := by
      split at padEq <;> omega
    have smallPoly : poly <<< pad < 2 ^ (order + pad + 1) := by
      rw [shiftLeft_eq, Nat.add_right_comm, Nat.pow_add]
      exact Nat.mul_lt_mul_of_pos_right gen.bounded (Nat.two_pow_pos pad)
    have polyFits : (poly <<< pad) % 2 ^ 32 = poly <<< pad :=
      mod_eq_of_lt (Nat.lt_of_lt_of_le smallPoly (Nat.pow_le_pow_right (by decide) (by omega)))
    have highFits : (2 ^ (order - 1) <<< pad) % 2 ^ 32 = 2 ^ (order + pad - 1) := by
      rw [shiftLeft_eq, ← Nat.pow_add, show order - 1 + pad = order + pad - 1 by omega]
      exact mod_eq_of_lt (Nat.pow_lt_pow_right (by decide) (by omega))
    have high : 2 ^ (order + pad) ≤ poly <<< pad := by
      rw [shiftLeft_eq, Nat.pow_add]
      exact Nat.mul_le_mul_right _ gen.high
    have start : i <<< (order + pad - 8) < 2 ^ (order + pad) := by
      rw [shiftLeft_eq]
      calc
        _ < 2 ^ 8 * 2 ^ (order + pad - 8) := Nat.mul_lt_mul_of_pos_right small (Nat.two_pow_pos _)
        _ = 2 ^ (order + pad) := by rw [← Nat.pow_add, Nat.add_comm, ← wide]
    obtain ⟨below, class_⟩ := @padded_entry poly order gen pad i (order + pad - 8) wide small
    rw [polyFits, highFits, iterate_tableRound (by omega) high smallPoly start (by omega),
      and_two_pow_sub_one_of_lt_two_pow below, class_]

theorem leaving (crc : Nat) (byte : Nat) (bounded : order ≤ 24) :
    ∃ top, (if 8 < order then ((crc >>> (order - 8)) &&& 255) ^^^ byte
        else ((crc <<< (8 - order)) % 2 ^ 64 &&& 255) ^^^ byte) = top ^^^ byte ∧ top < 256 ∧
      (crc % 2 ^ order) <<< 8 = ((crc <<< 8) % 2 ^ 64) % 2 ^ order ^^^ top <<< order := by
  by_cases wide : 8 < order
  · refine ⟨(crc >>> (order - 8)) &&& (2 ^ 8 - 1), if_pos wide, ?_, ?_⟩
    · rw [and_two_pow_sub_one_eq_mod]
      exact mod_lt _ (by decide)
    · apply eq_of_testBit_eq
      intro i
      simp only [and_two_pow_sub_one_eq_mod, testBit_xor, testBit_shiftLeft, testBit_mod_two_pow,
        testBit_shiftRight]
      by_cases low : i < order
      · simp only [low, show i < 64 by omega, show i - 8 < order by omega, show ¬ order ≤ i by omega, decide_true,
          decide_false, Bool.true_and, Bool.false_and, Bool.xor_false]
      · simp only [low, show order ≤ i by omega, show 8 ≤ i by omega, decide_true, decide_false, Bool.true_and,
          Bool.false_and, Bool.false_xor, show order - 8 + (i - order) = i - 8 by omega]
        congr 1
        apply decide_eq_decide.mpr
        omega
  · refine ⟨(crc <<< (8 - order)) % 2 ^ 64 &&& (2 ^ 8 - 1), if_neg wide, ?_, ?_⟩
    · rw [and_two_pow_sub_one_eq_mod]
      exact mod_lt _ (by decide)
    · apply eq_of_testBit_eq
      intro i
      simp only [and_two_pow_sub_one_eq_mod, testBit_xor, testBit_shiftLeft, testBit_mod_two_pow]
      by_cases low : i < order
      · simp only [show ¬ 8 ≤ i by omega, show ¬ order ≤ i by omega, decide_false, Bool.false_and, Bool.and_false,
          Bool.xor_false]
      · by_cases inside : i < order + 8
        · simp only [low, show order ≤ i by omega, show i - order < 8 by omega, show i - order < 64 by omega,
            decide_true, decide_false, Bool.true_and, Bool.false_and, Bool.false_xor]
          by_cases data : 8 ≤ i
          · simp only [data, show i - 8 < order by omega, show 8 - order ≤ i - order by omega, decide_true,
              Bool.true_and, show i - order - (8 - order) = i - 8 by omega]
          · simp only [data, show ¬ 8 - order ≤ i - order by omega, decide_false, Bool.false_and]
        · simp only [low, show ¬ i - order < 8 by omega, show ¬ i - 8 < order by omega, decide_false, Bool.and_false,
            Bool.false_and, Bool.xor_false]

structure Holds (h : Crc) (poly order : Nat) (m : (ZMod 2)[X]) : Prop where
  made : Made h poly order
  residue : mk (word poly) (word (h.crcinit % 2 ^ order)) = mk (word poly) (X ^ order * m)

theorem holds_reset (made : Made h poly order) : Holds (crcSetInit h 0).2 poly order 0 := by
  unfold crcSetInit
  rw [zero_and, if_neg fun differ => differ rfl]
  refine ⟨⟨made.polynom, made.order_eq, made.mask, made.entry_lt, made.entry⟩, ?_⟩
  rw [zero_mod, word_zero, mul_zero]

theorem holds_putByte {m : (ZMod 2)[X]} (bounded : order ≤ 24) (holds : Holds h poly order m) {byte : Nat}
    (small : byte < 256) : Holds (crcChecksumPutByte h byte) poly order (X ^ 8 * m + word byte) := by
  obtain ⟨made, residue⟩ := holds
  refine ⟨⟨made.polynom, made.order_eq, made.mask, made.entry_lt, made.entry⟩, ?_⟩
  obtain ⟨top, index, inside, split⟩ := leaving h.crcinit byte bounded
  have entryIndex : top ^^^ byte < 256 := @Nat.xor_lt_two_pow top byte 8 inside small
  unfold crcChecksumPutByte
  rw [made.order_eq, index, xor_mod_two_pow, mod_eq_of_lt (made.entry_lt _), word_xor, map_add,
    made.entry _ entryIndex, word_xor]
  have words := congrArg word split
  rw [word_xor, word_shiftLeft, word_shiftLeft] at words
  have low : word (((h.crcinit <<< 8) % 2 ^ 64) % 2 ^ order) =
      X ^ 8 * word (h.crcinit % 2 ^ order) - X ^ order * word top := by
    rw [words, add_sub_cancel_right]
  rw [low, map_sub, map_mul, residue]
  simp only [map_mul, map_add]
  ring

/-! ### The bits -/

theorem bitPack_testBit (bits : Nat → Bool) (fits : n ≤ top + 1) (j : Nat) :
    (bitPack bits top n).testBit j = (decide (j ≤ top ∧ top - j < n) && bits (top - j)) := by
  induction n with
  | zero =>
    rw [decide_eq_false fun both => Nat.not_lt_zero _ both.2]
    exact zero_testBit j
  | succ n ih =>
    have next : bitPack bits top (n + 1) = bitPack bits top n ||| (bits n).toNat <<< (top - n) := by
      unfold bitPack
      rw [range_succ, foldl_append]
      rfl
    rw [next, testBit_or, ih (le_of_succ_le fits), testBit_shiftLeft, testBit_bool_toNat]
    by_cases here : j = top - n
    · subst here
      rw [show top - (top - n) = n by omega]
      simp only [Nat.lt_irrefl, and_false, decide_false, Bool.false_and, Bool.false_or, le_refl, decide_true,
        Bool.true_and, Nat.sub_self, Nat.sub_le, Nat.lt_succ_self, and_self]
    · have skips : (decide (top - n ≤ j) && (decide (j - (top - n) = 0) && bits n)) = false := by
        by_cases above : top - n ≤ j
        · rw [decide_eq_false (show ¬ j - (top - n) = 0 by omega), Bool.false_and, Bool.and_false]
        · rw [decide_eq_false above, Bool.false_and]
      have same : (j ≤ top ∧ top - j < n) ↔ (j ≤ top ∧ top - j < n + 1) := by omega
      rw [skips, Bool.or_false, decide_eq_decide.mpr same]

theorem bitPack_lt (bits : Nat → Bool) (fits : n ≤ top + 1) : bitPack bits top n < 2 ^ (top + 1) := by
  apply lt_pow_two_of_testBit
  intro j beyond
  rw [bitPack_testBit bits fits, decide_eq_false fun both => absurd both.1 (Nat.not_le.mpr beyond), Bool.false_and]

theorem word_bitPack (bits : Nat → Bool) (fits : n ≤ top + 1) :
    word (bitPack bits top n) = X ^ (top + 1 - n) * message bits n := by
  ext j
  rw [word_coeff, bitPack_testBit bits fits, coeff_X_pow_mul', message_coeff]
  by_cases above : top + 1 - n ≤ j
  · have inside : (j ≤ top ∧ top - j < n) ↔ j - (top + 1 - n) < n := by omega
    have place : 0 < n → n - 1 - (j - (top + 1 - n)) = top - j := by omega
    rw [if_pos above, decide_eq_decide.mpr inside]
    by_cases below : j - (top + 1 - n) < n
    · rw [place (by omega), decide_eq_true below, Bool.true_and]
      simp only [below, true_and]
    · simp only [below, decide_false, Bool.false_and, false_and, Bool.false_eq_true]
  · rw [if_neg above, decide_eq_false (show ¬ (j ≤ top ∧ top - j < n) by omega)]
    rfl

theorem holds_bytes {h : Crc} (bounded : order ≤ 24) (made : Made h poly order) (data : Nat → Bool) (packed : Nat → Nat)
    {n : Nat} (packs : ∀ i < n, packed i = bitPack (fun k => data (8 * i + k)) 7 8) :
    Holds ((range n).foldl (fun h i => crcChecksumPutByte h (packed i)) (crcSetInit h 0).2) poly order
      (message data (8 * n)) := by
  induction n with
  | zero => exact holds_reset made
  | succ n ih =>
    rw [range_succ, foldl_append]
    have before := ih fun i inside => packs i (lt_succ_of_lt inside)
    have byte : packed n < 256 := packs n (Nat.lt_succ_self n) ▸ bitPack_lt _ (by decide : 8 ≤ 7 + 1)
    have after := holds_putByte bounded before byte
    have value : word (packed n) = message (fun k => data (8 * n + k)) 8 := by
      rw [packs n (Nat.lt_succ_self n), word_bitPack _ (by decide : 8 ≤ 7 + 1), pow_zero, one_mul]
    rwa [value, ← message_add] at after

theorem checksumGet_eq {m : (ZMod 2)[X]} (bounded : order ≤ 24) (holds : Holds h poly order m) :
    crcChecksumGet h % 2 ^ 32 = h.crcinit % 2 ^ order ∧ h.crcinit % 2 ^ order < 2 ^ order := by
  have below := mod_lt h.crcinit (Nat.two_pow_pos order)
  unfold crcChecksumGet
  rw [holds.made.mask, and_two_pow_sub_one_eq_mod]
  refine ⟨mod_eq_of_lt (Nat.lt_of_lt_of_le below (Nat.pow_le_pow_right (by decide) (by omega))), below⟩

theorem reversecrcbit_eq (gen : IsGenerator poly order) (made : Made h poly order)
    (small : crc < 2 ^ order) (nbits : Nat) : reversecrcbit crc nbits h = (undivide poly)^[nbits] crc := by
  have step : (fun crc => if 1 &&& crc = 1 then (crc ^^^ h.polynom) >>> 1 else crc >>> 1) = undivide poly := by
    funext c
    unfold undivide
    rw [made.polynom]
    simp
  unfold reversecrcbit
  rw [step, made.mask, and_two_pow_sub_one_of_lt_two_pow (iterate_undivide_lt gen.bounded small nbits)]

theorem crcChecksum_part (bounded : order ≤ 24) (made : Made h poly order) (data : Nat → Bool) {len : Nat}
    (part : 0 < len % 8) : ∃ h', Holds h' poly order (X ^ (8 - len % 8) * message data len) ∧
      crcChecksum h data len = (reversecrcbit (crcChecksumGet h' % 2 ^ 32) (8 - len % 8) h' % 2 ^ 32, h') := by
  have fits : len % 8 ≤ 7 + 1 := Nat.le_of_lt (mod_lt len (by decide))
  have bytes := @holds_bytes poly order h bounded made data (byteAt data len) (len / 8) fun i inside =>
    if_neg (Nat.ne_of_lt inside)
  have last : byteAt data len (len / 8) = bitPack (fun k => data (8 * (len / 8) + k)) 7 (len % 8) := if_pos rfl
  have after := holds_putByte bounded bytes (last ▸ bitPack_lt _ fits : byteAt data len (len / 8) < 256)
  have padded : X ^ 8 * message data (8 * (len / 8)) + word (byteAt data len (len / 8)) =
      X ^ (8 - len % 8) * message data len := by
    have split := message_add data (8 * (len / 8)) (len % 8)
    rw [div_add_mod] at split
    rw [last, word_bitPack _ fits, split, mul_add, ← mul_assoc, ← pow_add, Nat.sub_add_cancel fits]
  rw [padded] at after
  refine ⟨_, after, ?_⟩
  unfold crcChecksum
  dsimp only
  rw [if_pos part, range_succ, foldl_append]
  rfl

section
variable (gen : IsGenerator poly order)
include gen

section
variable (bounded : order ≤ 24)
include bounded

section
variable (made : Made h poly order)
include made

section
variable (data : Nat → Bool)
include data

theorem checksum_residue (len : Nat) :
    (crcChecksum h data len).1 < 2 ^ order ∧ Made (crcChecksum h data len).2 poly order ∧
      mk (word poly) (word (crcChecksum h data len).1) =
        mk (word poly) (X ^ order * message data len) := by
  by_cases part : 0 < len % 8
  · obtain ⟨h', holds, eq⟩ := crcChecksum_part bounded made data part
    obtain ⟨value, below⟩ := checksumGet_eq bounded holds
    have reversed := iterate_undivide_lt gen.bounded below (8 - len % 8)
    have fits : 2 ^ order ≤ 2 ^ 32 := Nat.pow_le_pow_right (by decide) (by omega)
    rw [eq, value, reversecrcbit_eq gen holds.made below, mod_eq_of_lt (Nat.lt_of_lt_of_le reversed fits)]
    refine ⟨reversed, holds.made, ?_⟩
    rw [← mk_X_pow_mul_eq gen (8 - len % 8), mk_iterate_undivide gen.odd, holds.residue, mul_left_comm]
  · have bytes := @holds_bytes poly order h bounded made data (byteAt data len) (len / 8) fun i inside =>
      if_neg (Nat.ne_of_lt inside)
    obtain ⟨value, below⟩ := checksumGet_eq bounded bytes
    unfold crcChecksum
    dsimp only
    rw [if_neg part, if_neg (by decide), Nat.add_zero, value]
    refine ⟨below, bytes.made, ?_⟩
    rw [bytes.residue, show 8 * (len / 8) = len by omega]

theorem checksum_eq_modByMonic (len : Nat) :
    word (crcChecksum h data len).1 = (message data len * X ^ order) %ₘ word poly := by
  obtain ⟨below, -, residue⟩ := checksum_residue gen bounded made data len
  rw [mul_comm]
  exact eq_modByMonic gen (word_degree below) residue

theorem checksum_eq_zero_iff (len : Nat) :
    (crcChecksum h data len).1 = 0 ↔ mk (word poly) (message data len) = 0 := by
  obtain ⟨below, -, residue⟩ := checksum_residue gen bounded made data len
  have cancel := @mk_X_pow_mul_eq poly order gen order (message data len) 0
  rw [mul_zero, map_zero] at cancel
  rw [← cancel, ← residue]
  constructor
  · intro zero
    rw [zero, word_zero, map_zero]
  · intro zero
    apply word_injective
    have remainder := eq_modByMonic gen (word_degree below) (zero.trans (map_zero _).symm)
    rw [remainder, zero_modByMonic, word_zero]

theorem crcMatch_iff_residue (len : Nat) :
    (crcMatch h data len).1 = true ↔ mk (word poly) (message data (len + order)) = 0 := by
  unfold crcMatch
  rw [made.order_eq]
  exact decide_eq_true_iff.trans (checksum_eq_zero_iff gen bounded made data (len + order))

theorem crcMatch_iff (len : Nat) : (crcMatch h data len).1 = true ↔
      ∀ i < order, data (len + i) = (crcChecksum h data len).1.testBit (order - 1 - i) := by
  obtain ⟨below, -, residue⟩ := checksum_residue gen bounded made data len
  rw [crcMatch_iff_residue gen bounded made, message_add, map_add, ← residue, ← map_add, mk_eq_zero]
  have tail := message_degree (fun i => data (len + i)) order
  have small : (word (crcChecksum h data len).1 + message (fun i => data (len + i)) order).degree < order :=
    lt_of_le_of_lt (degree_add_le _ _) (max_lt (word_degree below) tail)
  constructor
  · intro divides i inside
    have zero := eq_modByMonic gen small ((AdjoinRoot.mk_eq_zero.mpr divides).trans (map_zero _).symm)
    have coefficient := congrArg (fun p => p.coeff (order - 1 - i)) zero
    simp only [coeff_add, word_coeff, message_coeff] at coefficient
    rw [show order - 1 - (order - 1 - i) = i by omega] at coefficient
    simp only [show order - 1 - i < order by omega] at coefficient
    cases bit : data (len + i) <;> cases check : (crcChecksum h data len).1.testBit (order - 1 - i) <;>
      simp_all
  · intro same
    have equal : word (crcChecksum h data len).1 = message (fun i => data (len + i)) order := by
      ext j
      rw [word_coeff, message_coeff]
      by_cases inside : j < order
      · rw [same _ (by omega), show order - 1 - (order - 1 - j) = j by omega]
        simp only [inside, true_and]
      · have small := Nat.testBit_lt_two_pow (Nat.lt_of_lt_of_le below
          (Nat.pow_le_pow_right (by decide : 0 < 2) (Nat.le_of_not_lt inside)))
        simp only [small, inside, false_and, Bool.false_eq_true]
    rw [equal, CharTwo.add_self_eq_zero]
    exact dvd_zero _

end

end

end

end

theorem message_congr {data data' : Nat → Bool} {len : Nat} (same : ∀ k < len, data k = data' k) :
    message data len = message data' len := by
  apply Finset.sum_congr rfl
  intro j mem
  have inside := Finset.mem_range.mp mem
  rw [same _ (by omega)]

theorem crcMatch_crcAttach (gen : IsGenerator poly order) (bounded : order ≤ 24) (made : Made h poly order)
    (data : Nat → Bool) (len : Nat) : (crcMatch h (crcAttach h data len).1 len).1 = true := by
  have attached : ∀ k, (crcAttach h data len).1 k = if len ≤ k ∧ k < len + order then
      (crcChecksum h data len).1.testBit (order - (k - len) - 1) else data k := by
    intro k
    unfold crcAttach
    dsimp only
    rw [(checksum_residue gen bounded made data len).2.1.order_eq]
  have kept : message (crcAttach h data len).1 len = message data len := by
    apply message_congr
    intro k inside
    rw [attached, if_neg fun behind => absurd behind.1 (Nat.not_le.mpr inside)]
  have checksum : (crcChecksum h (crcAttach h data len).1 len).1 = (crcChecksum h data len).1 := by
    apply word_injective
    rw [checksum_eq_modByMonic gen bounded made, checksum_eq_modByMonic gen bounded made, kept]
  rw [crcMatch_iff gen bounded made, checksum]
  intro i inside
  rw [attached, if_pos ⟨Nat.le_add_right len i, Nat.add_lt_add_left inside len⟩, Nat.add_sub_cancel_left,
    Nat.sub_right_comm]

theorem crcChecksumByte_eq {data : Nat → Bool} {packed : Nat → Nat}
    (packs : ∀ i < n, packed i = bitPack (fun k => data (8 * i + k)) 7 8) :
    (crcChecksumByte h packed (8 * n)).1 = (crcChecksum h data (8 * n)).1 := by
  have whole : 8 * n / 8 = n := Nat.mul_div_cancel_left n (by decide)
  have bytes : (range n).foldl (fun h i => crcChecksumPutByte h (packed i)) (crcSetInit h 0).2 =
      (range n).foldl (fun h i => crcChecksumPutByte h (byteAt data (8 * n) i)) (crcSetInit h 0).2 := by
    apply foldl_ext
    intro state i mem
    have inside := List.mem_range.mp mem
    unfold byteAt
    rw [packs i inside, whole, if_neg (Nat.ne_of_lt inside)]
  unfold crcChecksumByte crcChecksum
  dsimp only
  rw [mul_mod_right, if_neg (Nat.lt_irrefl 0), if_neg (by decide), Nat.add_zero, whole, bytes]

end

def initialised (poly order register : Nat) : Crc := { (crcInit poly order).2 with crcinit := register }

theorem crc_divides {poly order : Nat} (gen : IsGenerator poly order) (least : 6 ≤ order) (most : order ≤ 24)
    (register : Nat) :
    (crcInit poly order).1 = 0 ∧
    (∀ data len, word (crcChecksum (initialised poly order register) data len).1 =
      (message data len * X ^ order) %ₘ word poly) ∧
    (∀ data packed n, (∀ i < n, packed i = bitPack (fun k => data (8 * i + k)) 7 8) →
      (crcChecksumByte (initialised poly order register) packed (8 * n)).1 =
        (crcChecksum (initialised poly order register) data (8 * n)).1) ∧
    (∀ data len, (crcMatch (initialised poly order register) data len).1 = true ↔
      ∀ i < order, data (len + i) =
        (crcChecksum (initialised poly order register) data len).1.testBit (order - 1 - i)) ∧
    ∀ data len zeros, (crcMatch (initialised poly order register) data len).1 = true →
      (∀ i < zeros, data (len + order + i) = false) →
        (crcMatch (initialised poly order register) data (len + zeros)).1 = true := by
  have positive : 0 < order := by omega
  have first_ := crcInit_made gen positive most
  have made : Made (initialised poly order register) poly order :=
    ⟨first_.polynom, first_.order_eq, first_.mask, first_.entry_lt, first_.entry⟩
  refine ⟨?_, checksum_eq_modByMonic gen most made, fun _ _ _ packs => crcChecksumByte_eq packs,
    crcMatch_iff gen most made, ?_⟩
  · rw [crcInit_eq positive]
  · intro data len zeros accepted behind
    rw [crcMatch_iff_residue gen most made] at accepted ⊢
    rw [show len + zeros + order = len + order + zeros by omega, message_add, message_zeros behind, add_zero, map_mul,
      accepted, mul_zero]

theorem crc_divides_crc24A :
    (crcInit 0x1864CFB 24).1 = 0 ∧
    (∀ data len, word (crcChecksum (initialised 0x1864CFB 24 5) data len).1 =
      (message data len * X ^ 24) %ₘ word 0x1864CFB) ∧
    (∀ data packed n, (∀ i < n, packed i = bitPack (fun k => data (8 * i + k)) 7 8) →
      (crcChecksumByte (initialised 0x1864CFB 24 5) packed (8 * n)).1 =
        (crcChecksum (initialised 0x1864CFB 24 5) data (8 * n)).1) ∧
    (∀ data len, (crcMatch (initialised 0x1864CFB 24 5) data len).1 = true ↔
      ∀ i < 24, data (len + i) = (crcChecksum (initialised 0x1864CFB 24 5) data len).1.testBit (24 - 1 - i)) ∧
    ∀ data len zeros, (crcMatch (initialised 0x1864CFB 24 5) data len).1 = true →
      (∀ i < zeros, data (len + 24 + i) = false) →
        (crcMatch (initialised 0x1864CFB 24 5) data (len + zeros)).1 = true :=
  crc_divides ⟨by decide, by decide, by decide⟩ (by decide) (by decide) 5

theorem message_xor (data error : Nat → Bool) (len : Nat) :
    message (fun k => data k ^^ error k) len = message data len + message error len := by
  ext i
  rw [coeff_add, message_coeff, message_coeff, message_coeff]
  by_cases inside : i < len
  · cases data (len - 1 - i) <;> cases error (len - 1 - i) <;> simp [inside, CharTwo.add_self_eq_zero]
  · simp [inside]

theorem burst_residue {poly order : Nat} (gen : IsGenerator poly order) {error : Nat → Bool} {start len : Nat}
    (burst : ∀ k < len, error k → start ≤ k ∧ k < start + order) {k : Nat} (inside : k < len) (hit : error k) :
    mk (word poly) (message error len) ≠ 0 := by
  intro zero
  obtain ⟨first, last⟩ := burst k inside hit
  obtain ⟨width, behind, parts, narrow, reach⟩ :
      ∃ width behind, len = start + width + behind ∧ width ≤ order ∧ (width < order → behind = 0) :=
    ⟨min order (len - start), len - start - min order (len - start), by omega, by omega, by omega⟩
  subst parts
  have head : message error start = 0 := message_zeros fun i before => by
    by_contra hit
    exact absurd (burst i (by omega) (by simpa using hit)).1 (by omega)
  have tail : message (fun i => error (start + width + i)) behind = 0 := message_zeros fun i before => by
    by_contra hit
    have := (burst (start + width + i) (by omega) (by simpa using hit)).2
    omega
  have cancel := @mk_X_pow_mul_eq poly order gen behind (message (fun i => error (start + i)) width) 0
  rw [mul_zero, map_zero] at cancel
  rw [message_add, tail, add_zero, message_add, head, mul_zero, zero_add, cancel] at zero
  have small := lt_of_lt_of_le (message_degree (fun i => error (start + i)) width) (Nat.cast_le.mpr narrow)
  have nothing := eq_modByMonic gen small (zero.trans (map_zero _).symm)
  rw [zero_modByMonic] at nothing
  have coefficient := message_coeff (fun i => error (start + i)) width (width - 1 - (k - start))
  rw [nothing, coeff_zero, if_pos ⟨by omega, by
    rwa [(by omega : start + (width - 1 - (width - 1 - (k - start))) = k)]⟩] at coefficient
  exact zero_ne_one coefficient

theorem crcMatch_attached_burst {poly order : Nat} (gen : IsGenerator poly order) (least : 6 ≤ order) (most : order ≤ 24)
    (register : Nat) (data : Nat → Bool) (len : Nat) :
    let h := initialised poly order register
    (crcMatch h (crcAttach h data len).1 len).1 = true ∧
      ∀ (error : Nat → Bool) (start : Nat), (∀ k < len + order, error k → start ≤ k ∧ k < start + order) →
        (∃ k < len + order, error k) → (crcMatch h (fun k => (crcAttach h data len).1 k ^^ error k) len).1 = false := by
  have first := crcInit_made gen (by omega) most
  have made : Made (initialised poly order register) poly order :=
    ⟨first.polynom, first.order_eq, first.mask, first.entry_lt, first.entry⟩
  have accepted := crcMatch_crcAttach gen most made data len
  refine ⟨accepted, fun error start burst hit => ?_⟩
  obtain ⟨k, inside, hit⟩ := hit
  rw [Bool.eq_false_iff, Ne, crcMatch_iff_residue gen most made, message_xor, map_add,
    (crcMatch_iff_residue gen most made _ len).mp accepted, zero_add]
  exact burst_residue gen burst inside hit

theorem crcMatch_attached_burst_crc16 : let h := initialised 0x11021 16 0
    (crcMatch h (crcAttach h (· = 7) 40).1 40).1 = true ∧
      ∀ (error : Nat → Bool) (start : Nat), (∀ k < 40 + 16, error k → start ≤ k ∧ k < start + 16) →
        (∃ k < 40 + 16, error k) → (crcMatch h (fun k => (crcAttach h (· = 7) 40).1 k ^^ error k) 40).1 = false :=
  crcMatch_attached_burst ⟨by decide, by decide, by decide⟩ (by decide) (by decide) 0 (· = 7) 40

end IsrRan.Phy.Fec
