import IsrRan.Common.Memory
import IsrRan.Lib.Bits
import Mathlib.Tactic.IntervalCases

namespace IsrRan.Asn1
open Lib List Nat UInt8

inductive IsrasnCode where
  | success | encodeFail | decodeFail
  deriving DecidableEq, Repr

theorem octet_pos : 0 < 8 := by decide

/-- `bit_ref` and `cbit_ref`: `ptr` counts from `start_ptr`, and `max_ptr` is the end of the buffer. -/
structure BitRef where
  buf : List Byte
  ptr : Nat := 0
  offset : Nat := 0
  offset_lt : offset < 8 := by decide
  deriving DecidableEq, Repr

structure Unpacked (α : Type) where
  code : IsrasnCode
  val : α
  bref : BitRef
  deriving DecidableEq, Repr

structure Packed where
  code : IsrasnCode
  bref : BitRef
  deriving DecidableEq, Repr

/-- `HANDLE_CODE`; on an early return the output parameter is still `val`. -/
def Unpacked.handle {α β : Type} (r : Unpacked α) (val : β) (next : α → BitRef → Unpacked β) : Unpacked β :=
  if r.code = .success then next r.val r.bref else ⟨r.code, val, r.bref⟩

def Packed.handle (r : Packed) (next : BitRef → Packed) : Packed := if r.code = .success then next r.bref else r

namespace BitRef

def pos (bref : BitRef) : Nat := 8 * bref.ptr + bref.offset

def bit (buf : List Byte) (i : Nat) : Bool := (buf.getD (i / 8) 0).toNat.testBit (7 - i % 8)

def distance (bref other : BitRef) : Int := (bref.offset : Int) - other.offset + 8 * ((bref.ptr : Int) - other.ptr)

def maskByte (bref : BitRef) (nBits : Nat) : Nat :=
  (256 + 2 ^ (8 - bref.offset) % 256 - 2 ^ (8 - bref.offset - nBits) % 256) % 256

def unpackLoop (width : Nat) : Nat → BitRef → Nat → Nat → Unpacked Nat
  | 0, bref, val, _ => ⟨.success, val, bref⟩
  | rounds + 1, bref, val, nBits =>
    if nBits = 0 then ⟨.success, val, bref⟩
    else
      match bref.buf[bref.ptr]? with
      | none => ⟨.decodeFail, val, bref⟩
      | some byte =>
        if within : 8 - bref.offset > nBits then
          let read := (byte.toNat &&& bref.maskByte nBits) >>> (8 - bref.offset - nBits)
          ⟨.success, (val + read) % 2 ^ width,
            { bref with offset := bref.offset + nBits, offset_lt := by omega }⟩
        else
          let mask := 2 ^ (8 - bref.offset) - 1
          let read := (byte.toNat &&& mask) <<< (nBits + bref.offset - 8)
          unpackLoop width rounds { buf := bref.buf, ptr := bref.ptr + 1 } ((val + read) % 2 ^ width)
            (nBits - (8 - bref.offset))

/-- `unpack_bits`, with the value that the output parameter had. -/
def unpack (width : Nat) (old : Nat) (bref : BitRef) (nBits : Nat) : Unpacked Nat :=
  if nBits > width then ⟨.decodeFail, old, bref⟩ else unpackLoop width nBits bref 0 nBits

def keepmask (bref : BitRef) : Nat := 255 - (2 ^ (8 - bref.offset) - 1) % 256

def packLoop : Nat → BitRef → Nat → Nat → Packed
  | 0, bref, _, _ => ⟨.success, bref⟩
  | rounds + 1, bref, val, nBits =>
    if nBits = 0 then ⟨.success, bref⟩
    else
      match bref.buf[bref.ptr]? with
      | none => ⟨.encodeFail, bref⟩
      | some byte =>
        let val := val &&& (2 ^ nBits - 1)
        if within : 8 - bref.offset > nBits then
          let bits := val <<< (8 - bref.offset - nBits) % 256
          let byte := UInt8.ofNat ((byte.toNat &&& bref.keepmask) + bits)
          ⟨.success, { buf := bref.buf.set bref.ptr byte, ptr := bref.ptr, offset := bref.offset + nBits,
                       offset_lt := by omega }⟩
        else
          let bits := val >>> (nBits + bref.offset - 8) % 256
          let byte := UInt8.ofNat ((byte.toNat &&& bref.keepmask) + bits)
          packLoop rounds { buf := bref.buf.set bref.ptr byte, ptr := bref.ptr + 1 } val
            (nBits - (8 - bref.offset))

def pack (bref : BitRef) (val nBits : Nat) : Packed :=
  if nBits ≥ 64 then ⟨.encodeFail, bref⟩ else packLoop nBits bref val nBits

def alignBytes (bref : BitRef) : Packed :=
  if bref.offset = 0 then ⟨.success, bref⟩
  else if bref.ptr ≥ bref.buf.length then ⟨.decodeFail, bref⟩
  else ⟨.success, { buf := bref.buf, ptr := bref.ptr + 1 }⟩

def alignBytesZero (bref : BitRef) : Packed :=
  if bref.offset = 0 then ⟨.success, bref⟩
  else
    match bref.buf[bref.ptr]? with
    | none => ⟨.encodeFail, bref⟩
    | some byte =>
      let mask := (256 - 2 ^ (8 - bref.offset)) % 256
      ⟨.success, { buf := bref.buf.set bref.ptr (UInt8.ofNat (byte.toNat &&& mask)), ptr := bref.ptr + 1 }⟩

variable {bref : BitRef} {buf : List Byte} {nBits : Nat}

theorem ext_pos {a b : BitRef} (buf : a.buf = b.buf) (pos : a.pos = b.pos) : a = b := by
  obtain ⟨bufA, ptrA, offsetA, ltA⟩ := a
  obtain ⟨bufB, ptrB, offsetB, ltB⟩ := b
  simp only [BitRef.pos] at pos
  obtain rfl : ptrA = ptrB := by omega
  obtain rfl : offsetA = offsetB := by omega
  obtain rfl : bufA = bufB := buf
  rfl

theorem distance_eq (bref other : BitRef) : bref.distance other = (bref.pos : Int) - other.pos := by
  unfold distance pos
  omega

section Byte
variable {ptr k n : Nat} {byte : Byte}

theorem bit_of_byte (located : buf[ptr]? = some byte) (lt : k < 8) :
    bit buf (8 * ptr + k) = byte.toNat.testBit (7 - k) := by
  have quotient : (8 * ptr + k) / 8 = ptr := by omega
  have remainder : (8 * ptr + k) % 8 = k := by omega
  rw [bit, quotient, remainder, getD_eq_getElem?_getD, located]
  rfl

theorem field_of_byte (located : buf[ptr]? = some byte) (inside : k + n ≤ 8) :
    field (bit buf) (8 * ptr + k) n = (byte.toNat >>> (8 - k - n)) % 2 ^ n := by
  refine field_eq_mod_iff.mpr fun i lt => ?_
  rw [Nat.add_assoc, bit_of_byte located (by omega), testBit_shiftRight]
  congr 1
  omega

theorem and_ones_shiftRight (b n s : Nat) : (b &&& (2 ^ n - 1) <<< s) >>> s = (b >>> s) % 2 ^ n := by
  rw [shiftRight_and_distrib, shiftLeft_shiftRight, Nat.and_two_pow_sub_one_eq_mod]

theorem maskByte_eq (within : nBits < 8 - bref.offset) (pos : 0 < nBits) :
    bref.maskByte nBits = (2 ^ nBits - 1) <<< (8 - bref.offset - nBits) := by
  have lt := bref.offset_lt
  unfold maskByte
  generalize bref.offset = k at lt within
  interval_cases k <;> interval_cases nBits <;> rfl

theorem keepmask_eq : bref.keepmask = (2 ^ bref.offset - 1) <<< (8 - bref.offset) := by
  have lt := bref.offset_lt
  unfold keepmask
  generalize bref.offset = k at lt
  interval_cases k <;> rfl

theorem testBit_overwrite {k low i : Nat} (byte : Byte) (le : k ≤ 8) (small : low < 2 ^ (8 - k)) (lt : i < 8) :
    (UInt8.ofNat ((byte.toNat &&& (2 ^ k - 1) <<< (8 - k)) + low)).toNat.testBit (7 - i) =
      if i < k then byte.toNat.testBit (7 - i) else low.testBit (7 - i) := by
  have shifted : byte.toNat &&& (2 ^ k - 1) <<< (8 - k) = 2 ^ (8 - k) * (byte.toNat / 2 ^ (8 - k)) := by
    apply eq_of_testBit_eq
    intro j
    rw [testBit_two_pow_mul, testBit_div_two_pow]
    by_cases high : 8 - k ≤ j
    · rw [Nat.sub_add_cancel high]
      by_cases exceeds : j < 8
      · have : j - (8 - k) < k := by omega
        simp [high, this]
      · have : byte.toNat.testBit j = false := testBit_lt_two_pow (lt_of_lt_of_le byte.toNat_lt
          (Nat.pow_le_pow_right (by decide) (Nat.le_of_not_lt exceeds)))
        simp [this]
    · simp [high]
  have bound : 2 ^ (8 - k) * (byte.toNat / 2 ^ (8 - k)) + low < 256 := by
    have top : byte.toNat / 2 ^ (8 - k) < 2 ^ k := by
      rw [Nat.div_lt_iff_lt_mul (Nat.two_pow_pos _), ← Nat.pow_add, Nat.add_sub_cancel' le]
      exact byte.toNat_lt
    calc
      _ < 2 ^ (8 - k) * (byte.toNat / 2 ^ (8 - k)) + 2 ^ (8 - k) := Nat.add_lt_add_left small _
      _ ≤ 2 ^ (8 - k) * 2 ^ k := Nat.mul_le_mul_left _ top
      _ = 256 := by rw [← Nat.pow_add, Nat.sub_add_cancel le]
  rw [shifted, toNat_ofNat_of_lt' bound, testBit_two_pow_mul_add _ small, testBit_div_two_pow]
  split
  · rw [if_neg (by omega)]
  · rw [if_pos (by omega), Nat.sub_add_cancel (by omega)]

end Byte

def moved (bref : BitRef) (n : Nat) : BitRef where
  buf := bref.buf
  ptr := bref.ptr + (bref.offset + n) / 8
  offset := (bref.offset + n) % 8
  offset_lt := mod_lt _ (by decide)

def rest (bref : BitRef) : Nat := 8 * bref.buf.length - bref.pos

@[simp] theorem moved_buf (bref : BitRef) (n : Nat) : (bref.moved n).buf = bref.buf := rfl

@[simp] theorem moved_pos (bref : BitRef) (n : Nat) : (bref.moved n).pos = bref.pos + n := by
  unfold moved pos
  dsimp only
  omega

@[simp] theorem moved_moved (bref : BitRef) (m n : Nat) : (bref.moved m).moved n = bref.moved (m + n) := by
  refine ext_pos rfl ?_
  rw [moved_pos, moved_pos, moved_pos, Nat.add_assoc]

@[simp] theorem moved_zero (bref : BitRef) : bref.moved 0 = bref := ext_pos rfl (moved_pos bref 0)

@[simp] theorem rest_moved (bref : BitRef) (n : Nat) : (bref.moved n).rest = bref.rest - n := by
  rw [rest, moved_pos, moved_buf, rest, Nat.sub_sub]

theorem getElem?_eq_none_iff_rest : bref.buf[bref.ptr]? = none ↔ bref.rest = 0 := by
  have lt := bref.offset_lt
  rw [List.getElem?_eq_none_iff]
  unfold rest pos
  omega

theorem le_rest_of_byte {byte : Byte} (located : bref.buf[bref.ptr]? = some byte) : 8 - bref.offset ≤ bref.rest := by
  obtain ⟨inside, -⟩ := List.getElem?_eq_some_iff.mp located
  unfold rest pos
  omega

theorem moved_within (bound : bref.offset + nBits < 8) :
    ({ bref with offset := bref.offset + nBits, offset_lt := bound } : BitRef) = bref.moved nBits := by
  refine ext_pos rfl ?_
  rw [moved_pos]
  unfold pos
  dsimp only
  omega

theorem moved_across (bref : BitRef) :
    ({ buf := bref.buf, ptr := bref.ptr + 1 } : BitRef) = bref.moved (8 - bref.offset) := by
  have lt := bref.offset_lt
  refine ext_pos rfl ?_
  rw [moved_pos]
  unfold pos
  dsimp only
  omega

section Unpack
variable {width val rounds : Nat} {byte : Byte}

theorem read_within (located : bref.buf[bref.ptr]? = some byte) (within : nBits < 8 - bref.offset) (pos : 0 < nBits) :
    (byte.toNat &&& bref.maskByte nBits) >>> (8 - bref.offset - nBits) = field (bit bref.buf) bref.pos nBits := by
  rw [maskByte_eq within pos, and_ones_shiftRight, BitRef.pos, field_of_byte located (by omega)]

theorem read_across (located : bref.buf[bref.ptr]? = some byte) :
    byte.toNat &&& (2 ^ (8 - bref.offset) - 1) = field (bit bref.buf) bref.pos (8 - bref.offset) := by
  have lt := bref.offset_lt
  rw [BitRef.pos, field_of_byte located (by omega), Nat.sub_self, Nat.shiftRight_zero, Nat.and_two_pow_sub_one_eq_mod]

theorem unpackLoop_eq (enough : nBits ≤ rounds) (small : val < 2 ^ width) :
    unpackLoop width rounds bref val nBits =
      ⟨if nBits ≤ bref.rest then .success else .decodeFail,
        (val + field (bit bref.buf) bref.pos (min nBits bref.rest) * 2 ^ (nBits - bref.rest)) % 2 ^ width,
        bref.moved (min nBits bref.rest)⟩ := by
  induction rounds generalizing bref val nBits with
  | zero =>
    obtain rfl : nBits = 0 := by omega
    simp [unpackLoop, field, mod_eq_of_lt small]
  | succ rounds ih =>
    rw [unpackLoop]
    by_cases zero : nBits = 0
    · subst zero
      simp [field, mod_eq_of_lt small]
    rw [if_neg zero]
    cases located : bref.buf[bref.ptr]? with
    | none =>
      have rest : bref.rest = 0 := getElem?_eq_none_iff_rest.mp located
      simp [rest, zero, field, mod_eq_of_lt small]
    | some byte =>
      have inside := le_rest_of_byte located
      have lt := bref.offset_lt
      by_cases within : 8 - bref.offset > nBits
      · have fits : nBits ≤ bref.rest := by omega
        have nothing : nBits - bref.rest = 0 := by omega
        have bound : bref.offset + nBits < 8 := by omega
        simp only [dif_pos within, read_within located within (by omega), moved_within bound, if_pos fits,
          Nat.min_eq_left fits, nothing, Nat.pow_zero, Nat.mul_one]
      · simp only [dif_neg within, moved_across, read_across located]
        rw [ih (by omega) (mod_lt _ (Nat.two_pow_pos _))]
        have fits : nBits - (8 - bref.offset) ≤ bref.rest - (8 - bref.offset) ↔ nBits ≤ bref.rest := by omega
        have split : min nBits bref.rest =
            (8 - bref.offset) + min (nBits - (8 - bref.offset)) (bref.rest - (8 - bref.offset)) := by omega
        have exceeds : nBits - (8 - bref.offset) - (bref.rest - (8 - bref.offset)) = nBits - bref.rest := by omega
        have shift : nBits + bref.offset - 8 =
            min (nBits - (8 - bref.offset)) (bref.rest - (8 - bref.offset)) + (nBits - bref.rest) := by omega
        rw [rest_moved, moved_moved, moved_pos, moved_buf, if_congr fits rfl rfl, exceeds, mod_add_mod, split,
          field_add, shift, shiftLeft_eq]
        ring_nf

theorem unpack_eq (width old : Nat) (bref : BitRef) (nBits : Nat) :
    bref.unpack width old nBits =
      if nBits > width then ⟨.decodeFail, old, bref⟩
      else ⟨if nBits ≤ bref.rest then .success else .decodeFail,
        (field (bit bref.buf) bref.pos (min nBits bref.rest) * 2 ^ (nBits - bref.rest)) % 2 ^ width,
        bref.moved (min nBits bref.rest)⟩ := by
  rw [unpack, unpackLoop_eq le_rfl (Nat.two_pow_pos width), Nat.zero_add]

section
variable (small : nBits ≤ width)
include small

theorem unpack_val_lt (old : Nat) (bref : BitRef) :
    (bref.unpack width old nBits).val < 2 ^ nBits := by
  rw [unpack_eq, if_neg (by omega)]
  refine lt_of_le_of_lt (mod_le _ _) ?_
  have total : min nBits bref.rest + (nBits - bref.rest) = nBits := by omega
  calc
    _ < 2 ^ min nBits bref.rest * 2 ^ (nBits - bref.rest) :=
      Nat.mul_lt_mul_of_pos_right (field_lt _ _ _) (Nat.two_pow_pos _)
    _ = 2 ^ nBits := by rw [← Nat.pow_add, total]

theorem unpack_of_fits (fits : nBits ≤ bref.rest) (old : Nat) :
    bref.unpack width old nBits = ⟨.success, field (bit bref.buf) bref.pos nBits, bref.moved nBits⟩ := by
  have lt : field (bit bref.buf) bref.pos nBits < 2 ^ width :=
    lt_of_lt_of_le (field_lt _ _ _) (Nat.pow_le_pow_right (by decide) small)
  rw [unpack_eq, if_neg (by omega), if_pos fits, Nat.min_eq_left fits, Nat.sub_eq_zero_of_le fits, Nat.pow_zero,
    Nat.mul_one, mod_eq_of_lt lt]

theorem unpack_of_field {v : Nat} (fits : nBits ≤ bref.rest)
    (written : field (bit bref.buf) bref.pos nBits = v) (old : Nat) :
    bref.unpack width old nBits = ⟨.success, v, bref.moved nBits⟩ := by
  rw [unpack_of_fits small fits, written]

theorem unpack_of_moved {k v : Nat} (fits : k + nBits ≤ bref.rest)
    (written : field (bit bref.buf) (bref.pos + k) nBits = v) (old : Nat) :
    (bref.moved k).unpack width old nBits = ⟨.success, v, bref.moved (k + nBits)⟩ := by
  rw [← moved_pos] at written
  rw [unpack_of_field small (by rw [rest_moved]; omega) written, moved_moved]

end

theorem unpack_code (width old : Nat) (bref : BitRef) (nBits : Nat) :
    (bref.unpack width old nBits).code = .success ↔ nBits ≤ width ∧ nBits ≤ bref.rest := by
  rw [unpack_eq]
  by_cases large : nBits > width
  · simp [large]
  · by_cases fits : nBits ≤ bref.rest
    · simp [large]
      omega
    · simp [large, fits]

theorem unpack_of_success {old : Nat} (ok : (bref.unpack width old nBits).code = .success) :
    bref.unpack width old nBits = ⟨.success, field (bit bref.buf) bref.pos nBits, bref.moved nBits⟩ := by
  obtain ⟨small, fits⟩ := (unpack_code width old bref nBits).mp ok
  exact unpack_of_fits small fits old

end Unpack

structure Packs (bref : BitRef) (n v : Nat) (r : Packed) : Prop where
  code : r.code = .success ↔ n ≤ bref.rest
  length : r.bref.buf.length = bref.buf.length
  before : ∀ i < bref.pos, bit r.bref.buf i = bit bref.buf i
  pos_le : r.bref.pos ≤ bref.pos + n
  pos : r.code = .success → r.bref.pos = bref.pos + n
  written : r.code = .success → field (bit r.bref.buf) bref.pos n = v % 2 ^ n

namespace Packs
variable {mid : BitRef} {m n u v w : Nat} {r : Packed}

theorem congr (h : Packs bref n v r) (same : v % 2 ^ n = w % 2 ^ n) : Packs bref n w r :=
  ⟨h.code, h.length, h.before, h.pos_le, h.pos, fun ok => (h.written ok).trans same⟩

theorem nothing (bref : BitRef) (v : Nat) : Packs bref 0 v ⟨.success, bref⟩ :=
  ⟨by simp, rfl, fun _ _ => rfl, le_rfl, fun _ => rfl, fun _ => by simp [field, mod_one]⟩

theorem restart (h : Packs bref n v r) (ok : r.code = .success) {start : BitRef}
    (started : ({ bref with buf := r.bref.buf } : BitRef) = start) :
    start.pos = bref.pos ∧ n ≤ start.rest ∧ field (bit start.buf) start.pos n = v % 2 ^ n := by
  subst started
  refine ⟨rfl, (h.code.mp ok).trans_eq ?_, h.written ok⟩
  unfold rest
  rw [h.length]
  rfl

theorem after (length : mid.buf.length = bref.buf.length) (reached : mid.pos = bref.pos + m) (fits : m ≤ bref.rest)
    (wrote : Wrote (bit bref.buf) (bit mid.buf) bref.pos m u) (h : Packs mid n v r) :
    Packs bref (m + n) (u % 2 ^ m * 2 ^ n + v % 2 ^ n) r := by
  have left : mid.rest = bref.rest - m := by
    unfold rest
    omega
  have most := h.pos_le
  refine ⟨?_, h.length.trans length, fun i lt => ?_, by omega, fun ok => ?_, fun ok => ?_⟩
  · rw [h.code]
    omega
  · exact (h.before i (by omega)).trans (wrote.before i lt)
  · rw [h.pos ok, reached, Nat.add_assoc]
  · have second : Wrote (bit mid.buf) (bit r.bref.buf) (bref.pos + m) n v := reached ▸ ⟨h.before, h.written ok⟩
    exact (wrote.append second).written

theorem handle {p : Packed} {next : BitRef → Packed} (first : Packs bref m u p)
    (second : ∀ mid : BitRef, mid.pos = bref.pos + m → Packs mid n v (next mid)) :
    Packs bref (m + n) (u % 2 ^ m * 2 ^ n + v % 2 ^ n) (p.handle next) := by
  have most := first.pos_le
  unfold Packed.handle
  by_cases ok : p.code = .success
  · rw [if_pos ok]
    exact Packs.after first.length (first.pos ok) (first.code.mp ok) ⟨first.before, first.written ok⟩
      (second p.bref (first.pos ok))
  · have large : ¬m ≤ bref.rest := fun fits => ok (first.code.mpr fits)
    rw [if_neg ok]
    refine ⟨⟨fun success => absurd success ok, fun fits => absurd (by omega) large⟩, first.length, first.before,
      by omega, fun success => absurd success ok, fun success => absurd success ok⟩

end Packs

section Pack
variable {rounds val low v m : Nat} {byte : Byte}

theorem bit_set (located : buf[bref.ptr]? = some byte) (small : low < 2 ^ (8 - bref.offset)) (i : Nat) :
    bit (buf.set bref.ptr (UInt8.ofNat ((byte.toNat &&& bref.keepmask) + low))) i =
      if i / 8 = bref.ptr ∧ bref.offset ≤ i % 8 then low.testBit (7 - i % 8) else bit buf i := by
  obtain ⟨inside, -⟩ := List.getElem?_eq_some_iff.mp located
  have lt := bref.offset_lt
  rw [bit, bit, getD_eq_getElem?_getD, getD_eq_getElem?_getD]
  by_cases here : i / 8 = bref.ptr
  · rw [here, List.getElem?_set_self inside, located, Option.getD_some, Option.getD_some, keepmask_eq,
      testBit_overwrite byte (by omega) small (mod_lt i (by decide))]
    by_cases kept : i % 8 < bref.offset
    · rw [if_pos kept, if_neg (by omega)]
    · rw [if_neg kept, if_pos (by omega)]
  · rw [List.getElem?_set_ne (Ne.symm here), if_neg (fun both => here both.1)]

theorem wrote_set (located : buf[bref.ptr]? = some byte) (small : low < 2 ^ (8 - bref.offset))
    (inside : m ≤ 8 - bref.offset) (top : ∀ i < m, low.testBit (7 - bref.offset - i) = v.testBit (m - 1 - i)) :
    Wrote (bit buf) (bit (buf.set bref.ptr (UInt8.ofNat ((byte.toNat &&& bref.keepmask) + low)))) bref.pos m v := by
  refine ⟨fun i before => ?_, field_eq_mod_iff.mpr fun i bound => ?_⟩
  · rw [bit_set located small, if_neg]
    unfold pos at before
    omega
  · have quotient : (bref.pos + i) / 8 = bref.ptr := by
      unfold pos
      omega
    have remainder : (bref.pos + i) % 8 = bref.offset + i := by
      unfold pos
      omega
    rw [bit_set located small, if_pos ⟨quotient, by omega⟩, remainder, ← top i bound, Nat.sub_sub]

theorem low_within (within : nBits < 8 - bref.offset) (v : Nat) :
    (v % 2 ^ nBits) <<< (8 - bref.offset - nBits) % 256 = (v % 2 ^ nBits) <<< (8 - bref.offset - nBits) ∧
      (v % 2 ^ nBits) <<< (8 - bref.offset - nBits) < 2 ^ (8 - bref.offset) := by
  have bound : (v % 2 ^ nBits) <<< (8 - bref.offset - nBits) < 2 ^ (8 - bref.offset) := by
    rw [shiftLeft_eq]
    calc
      _ < 2 ^ nBits * 2 ^ (8 - bref.offset - nBits) :=
        Nat.mul_lt_mul_of_pos_right (mod_lt _ (Nat.two_pow_pos _)) (Nat.two_pow_pos _)
      _ = 2 ^ (8 - bref.offset) := by rw [← Nat.pow_add, Nat.add_sub_cancel' (Nat.le_of_lt within)]
  have byte : 2 ^ (8 - bref.offset) ≤ 2 ^ 8 := Nat.pow_le_pow_right (by decide) (sub_le _ _)
  exact ⟨mod_eq_of_lt (lt_of_lt_of_le bound byte), bound⟩

theorem low_across (across : 8 - bref.offset ≤ nBits) (v : Nat) :
    (v % 2 ^ nBits) >>> (nBits + bref.offset - 8) % 256 = (v % 2 ^ nBits) >>> (nBits + bref.offset - 8) ∧
      (v % 2 ^ nBits) >>> (nBits + bref.offset - 8) < 2 ^ (8 - bref.offset) := by
  have lt := bref.offset_lt
  have bound : (v % 2 ^ nBits) >>> (nBits + bref.offset - 8) < 2 ^ (8 - bref.offset) := by
    rw [shiftRight_eq_div_pow, Nat.div_lt_iff_lt_mul (Nat.two_pow_pos _), ← Nat.pow_add]
    have total : 8 - bref.offset + (nBits + bref.offset - 8) = nBits := by omega
    rw [total]
    exact mod_lt _ (Nat.two_pow_pos _)
  have byte : 2 ^ (8 - bref.offset) ≤ 2 ^ 8 := Nat.pow_le_pow_right (by decide) (sub_le _ _)
  exact ⟨mod_eq_of_lt (lt_of_lt_of_le bound byte), bound⟩

theorem packLoop_packs (enough : nBits ≤ rounds) : Packs bref nBits val (packLoop rounds bref val nBits) := by
  induction rounds generalizing bref val nBits with
  | zero =>
    obtain rfl : nBits = 0 := by omega
    exact Packs.nothing bref val
  | succ rounds ih =>
    rw [packLoop]
    by_cases zero : nBits = 0
    · subst zero
      exact Packs.nothing bref val
    rw [if_neg zero]
    have lt := bref.offset_lt
    cases located : bref.buf[bref.ptr]? with
    | none =>
      have rest : bref.rest = 0 := getElem?_eq_none_iff_rest.mp located
      exact ⟨by simp [rest, zero], rfl, fun _ _ => rfl, Nat.le_add_right _ _, by simp, by simp⟩
    | some byte =>
      have inside := le_rest_of_byte located
      simp only [Nat.and_two_pow_sub_one_eq_mod]
      by_cases within : 8 - bref.offset > nBits
      · obtain ⟨low, small⟩ := low_within within val
        have wrote := wrote_set (m := nBits) (v := val) located small (by omega) (fun i bound => by
          have back : 7 - bref.offset - i - (8 - bref.offset - nBits) = nBits - 1 - i := by omega
          have above : 8 - bref.offset - nBits ≤ 7 - bref.offset - i := by omega
          have below : nBits - 1 - i < nBits := by omega
          simp [back, above, below])
        rw [dif_pos within, low]
        have reached : bref.pos + nBits = 8 * bref.ptr + (bref.offset + nBits) := Nat.add_assoc _ _ _
        exact ⟨by simp; omega, length_set, wrote.before, reached.ge, fun _ => reached.symm,
          fun _ => wrote.written⟩
      · obtain ⟨low, small⟩ := low_across (Nat.le_of_not_lt within) val
        have high := wrote_set (m := 8 - bref.offset) (v := (val % 2 ^ nBits) >>> (nBits + bref.offset - 8))
          located small le_rfl (fun i bound => by congr 1; omega)
        rw [dif_neg within, low]
        have length : (bref.buf.set bref.ptr (UInt8.ofNat ((byte.toNat &&& bref.keepmask) +
          (val % 2 ^ nBits) >>> (nBits + bref.offset - 8)))).length = bref.buf.length := length_set
        generalize bref.buf.set bref.ptr _ = buf at high length
        have reached : ({ buf := buf, ptr := bref.ptr + 1 } : BitRef).pos = bref.pos + (8 - bref.offset) := by
          unfold pos
          dsimp only
          omega
        have later := Packs.after length reached inside high
          (@ih _ (nBits - (8 - bref.offset)) (val % 2 ^ nBits) (by omega))
        have total : 8 - bref.offset + (nBits - (8 - bref.offset)) = nBits := by omega
        have shift : nBits + bref.offset - 8 = nBits - (8 - bref.offset) := by omega
        rw [total, mod_eq_of_lt small, shift, shiftRight_eq_div_pow, Nat.mul_comm, div_add_mod] at later
        exact later.congr (mod_mod _ _)

theorem pack_packs (bref : BitRef) (v nBits : Nat) (small : nBits < 64) : Packs bref nBits v (bref.pack v nBits) := by
  rw [pack, if_neg (by omega)]
  exact packLoop_packs le_rfl

def pad (bref : BitRef) : Nat := (8 - bref.offset) % 8

theorem pad_congr {a b : BitRef} (same : a.pos = b.pos) : a.pad = b.pad := by
  have ltA := a.offset_lt
  have ltB := b.offset_lt
  unfold pos at same
  unfold pad
  omega

theorem alignBytes_eq (bref : BitRef) :
    bref.alignBytes =
      if bref.pad ≤ bref.rest then ⟨.success, bref.moved bref.pad⟩ else ⟨.decodeFail, bref⟩ := by
  have lt := bref.offset_lt
  unfold alignBytes
  by_cases aligned : bref.offset = 0
  · have nothing : bref.pad = 0 := by simp [pad, aligned]
    simp [aligned, nothing]
  · have partly : bref.pad = 8 - bref.offset := mod_eq_of_lt (by omega)
    rw [if_neg aligned, partly, ← moved_across]
    by_cases inside : bref.ptr ≥ bref.buf.length
    · rw [if_pos inside, if_neg]
      unfold rest pos
      omega
    · rw [if_neg inside, if_pos]
      unfold rest pos
      omega

theorem pad_eq_zero {mid : BitRef} {k : Nat} (reached : mid.pos = bref.pos + bref.pad + 8 * k) : mid.pad = 0 := by
  have lt := bref.offset_lt
  unfold pos pad at reached
  unfold pad
  omega

theorem alignBytesZero_packs (bref : BitRef) : Packs bref bref.pad 0 bref.alignBytesZero := by
  have lt := bref.offset_lt
  unfold alignBytesZero
  by_cases aligned : bref.offset = 0
  · have nothing : bref.pad = 0 := by simp [pad, aligned]
    rw [if_pos aligned, nothing]
    exact Packs.nothing bref 0
  · have partly : bref.pad = 8 - bref.offset := mod_eq_of_lt (by omega)
    rw [if_neg aligned, partly]
    cases located : bref.buf[bref.ptr]? with
    | none =>
      have rest : bref.rest = 0 := getElem?_eq_none_iff_rest.mp located
      exact ⟨by simp; omega, rfl, fun _ _ => rfl, Nat.le_add_right _ _, by simp, by simp⟩
    | some byte =>
      have inside := le_rest_of_byte located
      have mask : (256 - 2 ^ (8 - bref.offset)) % 256 = bref.keepmask := by
        unfold keepmask
        generalize bref.offset = k at lt aligned
        interval_cases k <;> first | contradiction | rfl
      have wrote := wrote_set (m := 8 - bref.offset) (v := 0) located (Nat.two_pow_pos _) le_rfl (fun _ _ => by simp)
      dsimp only
      rw [mask]
      have reached : bref.pos + (8 - bref.offset) = 8 * (bref.ptr + 1) := by
        unfold pos
        omega
      exact ⟨by simp [inside], length_set, wrote.before, reached.ge, fun _ => reached.symm,
        fun _ => wrote.written⟩

end Pack

end BitRef
end IsrRan.Asn1
