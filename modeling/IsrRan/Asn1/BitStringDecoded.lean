import IsrRan.Asn1.BitStringPrefix
import Mathlib.Data.Nat.Prime.Basic

namespace IsrRan.Asn1.BitstringUtils
open BitRef Lib Nat

section Encoded
variable {start mid bref : BitRef} {data : List Byte} {len lb ub n : Nat} {withinBounds isAligned : Bool}

def bitfieldPad (bref : BitRef) (lb ub : Nat) (isAligned : Bool) : Nat :=
  if isAligned ∧ (lb ≠ ub ∨ ub > 16) then bref.pad else 0

theorem bitfieldPad_le (bref : BitRef) (lb ub : Nat) (isAligned : Bool) :
    bitfieldPad bref lb ub isAligned ≤ bref.pad := by
  unfold bitfieldPad
  split
  · exact le_rfl
  · exact Nat.zero_le _

theorem bitfieldPad_congr {a b : BitRef} (same : a.pos = b.pos) :
    bitfieldPad a lb ub isAligned = bitfieldPad b lb ub isAligned := by
  unfold bitfieldPad
  rw [pad_congr same]

theorem pad_le_rest (some_ : bref.rest ≠ 0) : bref.pad ≤ bref.rest := by
  cases located : bref.buf[bref.ptr]? with
  | none => exact absurd (getElem?_eq_none_iff_rest.mp located) some_
  | some byte => exact (mod_le _ _).trans (le_rest_of_byte located)

theorem bitfieldStart_eq (fits : bitfieldPad bref lb ub isAligned ≤ bref.rest) :
    bitfieldStart bref lb ub isAligned = bref.moved (bitfieldPad bref lb ub isAligned) := by
  unfold bitfieldStart
  unfold bitfieldPad at *
  split
  · rename_i aligned
    rw [if_pos aligned] at fits
    rw [alignBytes_eq, if_pos fits]
  · exact (moved_zero bref).symm

theorem bitfieldPad_le_rest (pos : n ≠ 0) (fits : n ≤ (bitfieldStart bref lb ub isAligned).rest) :
    bitfieldPad bref lb ub isAligned ≤ bref.rest := by
  by_contra exceeds
  have none_ : bref.rest = 0 := by
    by_contra some_
    exact exceeds ((bitfieldPad_le _ _ _ _).trans (pad_le_rest some_))
  have still : bitfieldStart bref lb ub isAligned = bref := by
    unfold bitfieldStart
    split
    · rename_i aligned
      rw [bitfieldPad, if_pos aligned] at exceeds
      rw [alignBytes_eq, if_neg exceeds]
    · rfl
  rw [still] at fits
  omega

theorem bitsValue_lt (data : List Byte) (pos : n ≠ 0) : bitsValue data n < 2 ^ n := by
  have top : byteAt data (ceilFrac n 8 - 1) % 2 ^ ((n - 1) % 8 + 1) + 1 ≤ 2 ^ ((n - 1) % 8 + 1) :=
    mod_lt _ (Nat.two_pow_pos _)
  calc
    _ < byteAt data (ceilFrac n 8 - 1) % 2 ^ ((n - 1) % 8 + 1) * 2 ^ (8 * (ceilFrac n 8 - 1)) +
        2 ^ (8 * (ceilFrac n 8 - 1)) := Nat.add_lt_add_left (octetsValue_lt data _) _
    _ = (byteAt data (ceilFrac n 8 - 1) % 2 ^ ((n - 1) % 8 + 1) + 1) * 2 ^ (8 * (ceilFrac n 8 - 1)) := by ring
    _ ≤ 2 ^ ((n - 1) % 8 + 1) * 2 ^ (8 * (ceilFrac n 8 - 1)) := Nat.mul_le_mul_right _ top
    _ = 2 ^ n := by rw [← Nat.pow_add, bits_split pos]

structure Encoded (start : BitRef) (data : List Byte) (len front : Nat) (r : BitRef) : Prop where
  some_ : len ≠ 0
  length : r.buf.length = start.buf.length
  fits : front + len ≤ start.rest
  pos : r.pos = start.pos + front + len
  bits : field (bit r.buf) (start.pos + front) len = bitsValue data len
  before : ∀ i < start.pos, bit r.buf i = bit start.buf i

theorem packBitfield_encoded (ok : (packBitfield mid data len lb ub isAligned).code = .success) :
    Encoded mid data len (bitfieldPad mid lb ub isAligned) (packBitfield mid data len lb ub isAligned).bref ∧
      ∀ i < mid.pos + bitfieldPad mid lb ub isAligned,
        bit (packBitfield mid data len lb ub isAligned).bref.buf i = bit mid.buf i := by
  have some_ : len ≠ 0 := by
    rintro rfl
    cases ok
  have packed := @packBitfield_packs mid data len lb ub isAligned some_
  have inside := packed.code.mp ok
  have skipped := bitfieldPad_le_rest some_ inside
  rw [bitfieldStart_eq skipped] at packed inside
  rw [rest_moved] at inside
  have reached := packed.pos ok
  have written := packed.written ok
  have before := packed.before
  rw [moved_pos] at reached written before
  refine ⟨⟨some_, packed.length, by omega, reached, ?_, fun i lt => before i (by omega)⟩, before⟩
  rw [written, mod_eq_of_lt (bitsValue_lt data some_)]

theorem Encoded.behind {p : Packed} {front value : Nat} (prefixed : Packs start front value p)
    (packed : p.code = .success) (ok : (packBitfield p.bref data len lb ub isAligned).code = .success) :
    Encoded start data len (front + bitfieldPad p.bref lb ub isAligned)
        (packBitfield p.bref data len lb ub isAligned).bref ∧
      field (bit (packBitfield p.bref data len lb ub isAligned).bref.buf) start.pos
          (front + bitfieldPad p.bref lb ub isAligned) =
        value % 2 ^ front * 2 ^ bitfieldPad p.bref lb ub isAligned +
          field (bit p.bref.buf) p.bref.pos (bitfieldPad p.bref lb ub isAligned) := by
  obtain ⟨encoded, before⟩ := packBitfield_encoded ok
  have reached := prefixed.pos packed
  have left : p.bref.rest = start.rest - front := by
    unfold rest
    rw [prefixed.length, reached, Nat.sub_sub]
  have inside := prefixed.code.mp packed
  have fits := encoded.fits
  refine ⟨⟨encoded.some_, encoded.length.trans prefixed.length, by omega, ?_, ?_, fun i lt => ?_⟩, ?_⟩
  · rw [encoded.pos]
    omega
  · rw [← Nat.add_assoc, ← reached]
    exact encoded.bits
  · rw [before i (by omega), prefixed.before i lt]
  · rw [field_add, ← reached, ← prefixed.written packed]
    congr 1
    · congr 1
      exact field_congr fun i lt => before _ (by omega)
    · exact field_congr fun i lt => before _ (by omega)

theorem pad_octets {k : Nat} (reached : mid.pos = start.pos + 8 * k) : mid.pad = start.pad := by
  have lt := start.offset_lt
  have lt' := mid.offset_lt
  unfold pos at reached
  unfold pad
  omega

theorem octetBits_eq (len : Nat) : ∃ k, octetBits len = 8 * k := by
  unfold octetBits
  split
  · exact ⟨1, rfl⟩
  · exact ⟨2, rfl⟩

theorem packOctets_clear (ok : (packOctets bref len).code = .success) : (packOctets bref len).bref.Clear := by
  unfold packOctets at ok ⊢
  split at ok
  · rename_i short
    rw [if_pos short]
    exact pack_clear (by decide) ok
  · rename_i long
    rw [if_neg long]
    unfold Packed.handle at ok ⊢
    split at ok
    · rename_i first_
      rw [if_pos first_]
      exact pack_clear (by decide) ok
    · exact absurd ok ‹_›

theorem determinant_encoded (packed : (packLength start len false).code = .success)
    (ok : (packBitfield (packLength start len false).bref data len lb ub isAligned).code = .success) :
    len < asn16K ∧
      Encoded start data len (octetBits len + bitfieldPad start lb ub isAligned)
        (packBitfield (packLength start len false).bref data len lb ub isAligned).bref ∧
      field (bit (packBitfield (packLength start len false).bref data len lb ub isAligned).bref.buf) start.pos
        (octetBits len + bitfieldPad start lb ub isAligned) =
          octetValue len * 2 ^ bitfieldPad start lb ub isAligned := by
  have small : len < asn16K := by
    have fits := (packLength_code start len false).mp packed
    unfold LengthFits at fits
    split at fits
    · assumption
    · exact absurd fits.1 (by decide)
  refine ⟨small, ?_⟩
  rw [packLength_unaligned small] at packed ok ⊢
  have prefixed := packs_length small start
  obtain ⟨encoded, written⟩ := Encoded.behind prefixed packed ok
  obtain ⟨k, octets⟩ := octetBits_eq len
  have same : bitfieldPad (packOctets start len).bref lb ub isAligned = bitfieldPad start lb ub isAligned := by
    unfold bitfieldPad
    rw [pad_octets ((prefixed.pos packed).trans (congrArg _ octets))]
  have clear : field (bit (packOctets start len).bref.buf) (packOctets start len).bref.pos
      (bitfieldPad (packOctets start len).bref lb ub isAligned) = 0 := by
    unfold bitfieldPad
    split
    · exact packOctets_clear packed
    · rfl
  rw [clear, same, mod_eq_of_lt (octetValue_lt small)] at written
  rw [same] at encoded
  exact ⟨encoded, written⟩

def lengthPad (start : BitRef) (lenBits : Nat) (isAligned : Bool) : Nat :=
  if isAligned then (start.moved lenBits).pad else 0

def packBounded (start : BitRef) (v lenBits : Nat) (isAligned : Bool) : Packed :=
  (start.pack v lenBits).handle fun bref => if isAligned then bref.alignBytesZero else ⟨.success, bref⟩

theorem packBounded_packs {lenBits : Nat} (few : lenBits < 64) (v : Nat) :
    Packs start (lenBits + lengthPad start lenBits isAligned)
      (v % 2 ^ lenBits * 2 ^ lengthPad start lenBits isAligned) (packBounded start v lenBits isAligned) := by
  cases isAligned with
  | false =>
    have written := (pack_packs start v lenBits few).handle fun mid _ => Packs.nothing mid 0
    exact written
  | true =>
    have written := (pack_packs start v lenBits few).handle fun mid reached => by
      have same : mid.pad = (start.moved lenBits).pad := pad_congr (reached.trans (moved_pos start _).symm)
      exact same ▸ alignBytesZero_packs mid
    exact written

theorem bounded_encoded {v lenBits : Nat} (few : lenBits < 64)
    (packed : (packBounded start v lenBits isAligned).code = .success)
    (ok : (packBitfield (packBounded start v lenBits isAligned).bref data len lb ub isAligned).code = .success) :
    Encoded start data len (lenBits + lengthPad start lenBits isAligned)
        (packBitfield (packBounded start v lenBits isAligned).bref data len lb ub isAligned).bref ∧
      field (bit (packBitfield (packBounded start v lenBits isAligned).bref data len lb ub isAligned).bref.buf)
        start.pos (lenBits + lengthPad start lenBits isAligned) =
          v % 2 ^ lenBits * 2 ^ lengthPad start lenBits isAligned := by
  have prefixed := @packBounded_packs start isAligned lenBits few v
  obtain ⟨encoded, written⟩ := Encoded.behind prefixed packed ok
  have nothing : bitfieldPad (packBounded start v lenBits isAligned).bref lb ub isAligned = 0 := by
    unfold bitfieldPad
    split
    · rename_i aligned
      have reached := prefixed.pos packed
      rw [lengthPad, if_pos aligned.1] at reached
      refine @pad_eq_zero (start.moved lenBits) _ 0 (reached.trans ?_)
      rw [moved_pos]
      omega
    · rfl
  have small : v % 2 ^ lenBits * 2 ^ lengthPad start lenBits isAligned <
      2 ^ (lenBits + lengthPad start lenBits isAligned) := by
    rw [Nat.pow_add]
    exact Nat.mul_lt_mul_of_pos_right (mod_lt _ (Nat.two_pow_pos _)) (Nat.two_pow_pos _)
  rw [nothing] at encoded written
  rw [mod_eq_of_lt small] at written
  refine ⟨encoded, ?_⟩
  rw [Nat.pow_zero, Nat.mul_one] at written
  exact written

end Encoded

theorem eq_zero_of_shift {v z bits : Nat} (pos : z ≠ 0) (same : v * 2 ^ z % 2 ^ bits = v) : v = 0 := by
  have lt : v < 2 ^ bits := by
    rw [← same]
    exact mod_lt _ (Nat.two_pow_pos _)
  have divides : 2 ^ bits ∣ v * (2 ^ z - 1) := by
    have congruent : v * 2 ^ z % 2 ^ bits = v % 2 ^ bits := same.trans (mod_eq_of_lt lt).symm
    have difference := dvd_of_mod_eq_zero (sub_mod_eq_zero_of_mod_eq congruent)
    rw [Nat.mul_sub, Nat.mul_one]
    exact difference
  have coprime : Nat.Coprime (2 ^ bits) (2 ^ z - 1) := by
    apply Nat.Coprime.pow_left
    obtain ⟨y, rfl⟩ := exists_eq_succ_of_ne_zero pos
    rw [coprime_two_left, odd_iff]
    have := Nat.two_pow_pos y
    omega
  exact eq_zero_of_dvd_of_lt (coprime.dvd_of_dvd_mul_right divides) lt

theorem field_mod {bits : Nat → Bool} {pos m n whole : Nat} (written : field bits pos (m + n) = whole) :
    field bits (pos + m) n = whole % 2 ^ n := by
  rw [← written, field_add, mul_add_mod_self_right, mod_eq_of_lt (field_lt _ _ _)]

section Decoded
variable {start c stop : BitRef} {data : List Byte} {len lb ub front old : Nat} {isAligned : Bool}

def BitsReturn (data : List Byte) (len lb ub : Nat) (isAligned : Bool) (c stop : BitRef) : Prop :=
  ∀ buf : List Byte, ceilFrac len 8 ≤ buf.length →
    ∃ out, unpackBitfield buf c len lb ub isAligned = ⟨.success, out, stop⟩ ∧ ∀ i < len, get out i = get data i

theorem bitfieldStart_buf (c : BitRef) (lb ub : Nat) (isAligned : Bool) :
    (bitfieldStart c lb ub isAligned).buf = c.buf := by
  unfold bitfieldStart
  split
  · rw [alignBytes_eq]
    split <;> rfl
  · rfl

theorem Encoded.within (encoded : Encoded start data len front stop) :
    start.pos + front + len ≤ 8 * start.buf.length := by
  have fits := encoded.fits
  have some_ := encoded.some_
  unfold rest at fits
  omega

theorem bitsReturn_iff (c : BitRef) (encoded : Encoded start data len front stop) (same : c.buf = stop.buf) :
    BitsReturn data len lb ub isAligned c stop ↔
      len ≤ asn64K ∧ c.pos + bitfieldPad c lb ub isAligned = start.pos + front := by
  have within := encoded.within
  have length := encoded.length
  have reached := encoded.pos
  constructor
  · intro returned
    obtain ⟨out, result, -⟩ := returned (List.replicate (ceilFrac len 8) 0) (List.length_replicate).ge
    obtain ⟨le, moved⟩ := @unpackBitfield_success c (List.replicate (ceilFrac len 8) 0) len lb ub isAligned
      encoded.some_ (by rw [result])
    rw [result] at moved
    have last := congrArg BitRef.pos moved
    rw [moved_pos] at last
    dsimp only at last
    have fits : len ≤ (bitfieldStart c lb ub isAligned).rest := by
      unfold rest
      rw [bitfieldStart_buf, same]
      omega
    rw [bitfieldStart_eq (bitfieldPad_le_rest encoded.some_ fits), moved_pos] at last
    exact ⟨le, by omega⟩
  · rintro ⟨le, met⟩ buf octets
    have left : bitfieldPad c lb ub isAligned + len ≤ c.rest := by
      unfold rest
      rw [same]
      omega
    have begun := bitfieldStart_eq (show bitfieldPad c lb ub isAligned ≤ c.rest by omega)
    obtain ⟨out, result, bits⟩ := @unpackBitfield_reads c buf data len lb ub isAligned encoded.some_ le octets
      (by rw [begun, rest_moved]; omega)
      (by rw [begun, moved_pos, moved_buf, met, same]; exact encoded.bits)
    refine ⟨out, ?_, bits⟩
    rw [result, begun]
    congr 1
    refine ext_pos same ?_
    rw [moved_pos, moved_pos]
    omega

def PrefixReturns (old : Nat) (again : BitRef) (data : List Byte) (len lb ub : Nat) (ext isAligned : Bool)
    (stop : BitRef) : Prop :=
  ∃ c, unpackPrefix old again lb ub ext isAligned = .ok ⟨.success, len, c⟩ ∧
    BitsReturn data len lb ub isAligned c stop

section Again
variable {again : BitRef} (sameBuf : again.buf = stop.buf) (samePos : again.pos = start.pos)
include sameBuf samePos

theorem fixed_returns_iff (encoded : Encoded start data len (bitfieldPad start lb ub isAligned) stop)
    (fixed : lb = ub) (within : lb = len) :
    PrefixReturns old again data len lb ub false isAligned stop ↔ len ≤ asn64K := by
  subst fixed within
  unfold PrefixReturns unpackPrefix
  by_cases unbounded : lb = u32Max
  · have large : ¬lb ≤ asn64K := by
      rw [unbounded]
      decide
    rw [if_pos (.inl unbounded)]
    refine iff_of_false ?_ large
    rintro ⟨c, decoded, -⟩
    have decoded := Except.ok.inj decoded
    obtain ⟨w, len, result, -, stands⟩ := unpackLength_success (by rw [decoded])
    have same : len = lb := congrArg Unpacked.val (result.symm.trans decoded)
    have below : len < 2 ^ 14 := by
      obtain ⟨-, octet⟩ | ⟨-, small, -⟩ := stands
      · rw [← octet]
        exact (field_lt _ _ 8).trans (by decide)
      · exact small
    unfold asn64K at large
    omega
  · rw [if_neg (by simp [unbounded]), if_pos rfl]
    constructor
    · rintro ⟨c, decoded, returned⟩
      obtain rfl : again = c := congrArg Unpacked.bref (Except.ok.inj decoded)
      exact ((bitsReturn_iff again encoded sameBuf).mp returned).1
    · intro le
      refine ⟨again, rfl, (bitsReturn_iff again encoded sameBuf).mpr ⟨le, ?_⟩⟩
      rw [bitfieldPad_congr samePos, samePos]

section Determinant
variable (encoded : Encoded start data len (octetBits len + bitfieldPad start lb ub isAligned) stop)
  (written : field (bit stop.buf) start.pos (octetBits len + bitfieldPad start lb ub isAligned) =
    octetValue len * 2 ^ bitfieldPad start lb ub isAligned)
include encoded written

theorem determinant_returns (small : len < asn16K) (nothing : isAligned = false ∨ start.pad = 0) :
    ∃ c, unpackLength old again isAligned = ⟨.success, len, c⟩ ∧ BitsReturn data len lb ub isAligned c stop := by
  have within := encoded.within
  have length := encoded.length
  have left : octetBits len ≤ again.rest := by
    unfold rest
    rw [sameBuf]
    omega
  obtain ⟨determinant, -⟩ := field_split (Nat.two_pow_pos _) (written.trans (Nat.add_zero _).symm)
  rw [← sameBuf, ← samePos] at determinant
  refine ⟨again.moved (octetBits len), ?_, ?_⟩
  · obtain rfl | aligned := nothing
    · exact reads_unaligned small left determinant
    · rw [← pad_congr samePos] at aligned
      cases isAligned with
      | false => exact reads_unaligned small left determinant
      | true =>
        have read := @reads_aligned again len old small (by omega) (by rw [aligned]; exact determinant)
        rw [aligned, Nat.zero_add] at read
        exact read
  · obtain ⟨k, octets⟩ := octetBits_eq len
    have pads : bitfieldPad (again.moved (octetBits len)) lb ub isAligned = bitfieldPad start lb ub isAligned := by
      have reached : (again.moved (octetBits len)).pos = start.pos + 8 * k := by
        rw [moved_pos, samePos, octets]
      unfold bitfieldPad
      rw [pad_octets reached]
    apply (bitsReturn_iff (again.moved (octetBits len)) encoded sameBuf).mpr
    unfold asn16K at small
    unfold asn64K
    rw [moved_pos]
    omega

theorem determinant_returns_iff (small : len < asn16K) :
    (∃ c, unpackLength old again isAligned = ⟨.success, len, c⟩ ∧ BitsReturn data len lb ub isAligned c stop) ↔
      isAligned = false ∨ start.pad = 0 := by
  refine ⟨?_, determinant_returns sameBuf samePos encoded written small⟩
  rintro ⟨c, decoded, returned⟩
  by_contra shifted
  rw [not_or, Bool.not_eq_false] at shifted
  obtain ⟨rfl, padded⟩ := shifted
  obtain ⟨w, len', result, -, stands⟩ := unpackLength_success (by rw [decoded])
  obtain rfl : len' = len := congrArg Unpacked.val (result.symm.trans decoded)
  have reached : c = again.moved (lengthSkip again true + w) := congrArg Unpacked.bref (decoded.symm.trans result)
  have skip : lengthSkip again true = start.pad := pad_congr samePos
  rw [skip] at reached
  rw [skip, samePos, sameBuf] at stands
  have met := ((bitsReturn_iff c encoded (reached ▸ sameBuf)).mp returned).2
  obtain ⟨k, octets⟩ := octetBits_eq len'
  obtain ⟨j, octets'⟩ : ∃ j, w = 8 * j := by
    obtain ⟨rfl, -⟩ | ⟨rfl, -⟩ := stands
    · exact ⟨1, rfl⟩
    · exact ⟨2, rfl⟩
  have place : c.pos = start.pos + start.pad + 8 * j := by
    rw [reached, moved_pos, samePos, octets', Nat.add_assoc]
  have nothing : bitfieldPad c lb ub true = 0 :=
    Nat.le_zero.mp ((bitfieldPad_le _ _ _ _).trans (pad_eq_zero place).le)
  have most : start.pad < 8 := mod_lt _ (by decide)
  have pads := bitfieldPad_le start lb ub true
  have same : bitfieldPad start lb ub true = start.pad ∧ w = octetBits len' := by omega
  rw [same.1, Nat.add_comm (octetBits len')] at written
  have window := field_mod written
  have value : octetValue len' * 2 ^ start.pad % 2 ^ octetBits len' = octetValue len' := by
    rw [← window, ← same.2]
    have shape := same.2
    unfold octetBits at shape
    unfold octetValue
    obtain ⟨rfl, number⟩ | ⟨rfl, -, number⟩ := stands
    · split at shape
      · rw [if_pos ‹_›, number]
      · cases shape
    · split at shape
      · cases shape
      · rw [if_neg ‹_›]
        omega
  have zero := eq_zero_of_shift padded value
  have some_ := encoded.some_
  unfold octetValue at zero
  split at zero <;> omega

end Determinant
end Again
end Decoded

end IsrRan.Asn1.BitstringUtils
