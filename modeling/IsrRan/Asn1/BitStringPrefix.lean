import IsrRan.Asn1.BitString
import IsrRan.Asn1.PerBounds

namespace IsrRan.Asn1
open BitRef Lib Packed Unpacked

namespace BitRef
variable {bref : BitRef} {rounds val nBits : Nat}

def Clear (bref : BitRef) : Prop := field (bit bref.buf) bref.pos bref.pad = 0

theorem clear_of_pad (none_ : bref.pad = 0) : bref.Clear := by
  unfold Clear
  rw [none_]
  rfl

theorem packLoop_clear (enough : nBits ≤ rounds) (start : nBits = 0 → bref.Clear)
    (ok : (packLoop rounds bref val nBits).code = .success) : (packLoop rounds bref val nBits).bref.Clear := by
  induction rounds generalizing bref val nBits with
  | zero => exact start (by omega)
  | succ rounds ih =>
    rw [packLoop] at ok ⊢
    by_cases zero : nBits = 0
    · rw [if_pos zero]
      exact start zero
    rw [if_neg zero] at ok ⊢
    have lt := bref.offset_lt
    cases located : bref.buf[bref.ptr]? with
    | none =>
      rw [located] at ok
      cases ok
    | some byte =>
      simp only [located, Nat.and_two_pow_sub_one_eq_mod] at ok ⊢
      by_cases within : 8 - bref.offset > nBits
      · obtain ⟨low, small⟩ := low_within within val
        rw [dif_pos within, low]
        refine (field_eq_mod_iff.mpr fun i bound => ?_).trans (Nat.zero_mod _)
        unfold pad at bound
        unfold pos
        dsimp only at bound ⊢
        have here : (8 * bref.ptr + (bref.offset + nBits) + i) / 8 = bref.ptr := by omega
        have place : (8 * bref.ptr + (bref.offset + nBits) + i) % 8 = bref.offset + nBits + i := by omega
        rw [bit_set located small, if_pos ⟨here, by omega⟩, place]
        have below : ¬7 - (bref.offset + nBits + i) ≥ 8 - bref.offset - nBits := by omega
        simp [below]
      · rw [dif_neg within] at ok ⊢
        exact ih (by omega) (fun _ => clear_of_pad (by simp [pad])) ok

theorem pack_clear (pos : nBits ≠ 0) (ok : (bref.pack val nBits).code = .success) :
    (bref.pack val nBits).bref.Clear := by
  unfold pack at ok ⊢
  split at ok
  · cases ok
  · rename_i few
    rw [if_neg few]
    exact packLoop_clear le_rfl (fun zero => absurd zero pos) ok

end BitRef

section Length
variable {bref : BitRef} {old : Nat} {aligned : Bool}

def lengthSkip (bref : BitRef) (aligned : Bool) : Nat := if aligned then bref.pad else 0

theorem Unpacked.handle_ok {α β : Type} {r : Unpacked α} {val : β} {next : α → BitRef → Unpacked β}
    (ok : (r.handle val next).code = .success) : r.code = .success ∧ r.handle val next = next r.val r.bref := by
  unfold Unpacked.handle at ok ⊢
  by_cases read : r.code = .success
  · exact ⟨read, if_pos read⟩
  · rw [if_neg read] at ok
    exact absurd ok read

theorem Packed.unpacking_ok {α : Type} {r : Packed} {val : α} {next : BitRef → Unpacked α}
    (ok : (r.unpacking val next).code = .success) : r.code = .success ∧ r.unpacking val next = next r.bref := by
  unfold unpacking at ok ⊢
  by_cases read : r.code = .success
  · exact ⟨read, if_pos read⟩
  · rw [if_neg read] at ok
    exact absurd ok read

theorem alignBytes_ok (ok : bref.alignBytes.code = .success) :
    bref.pad ≤ bref.rest ∧ bref.alignBytes = ⟨.success, bref.moved bref.pad⟩ := by
  rw [alignBytes_eq] at ok ⊢
  by_cases fits : bref.pad ≤ bref.rest
  · exact ⟨fits, if_pos fits⟩
  · rw [if_neg fits] at ok
    cases ok

structure LengthAt (bref : BitRef) (skip w len : Nat) : Prop where
  fits : skip + w ≤ bref.rest
  stands : w = 8 ∧ field (bit bref.buf) (bref.pos + skip) 8 = len ∨
    w = 16 ∧ len < 2 ^ 14 ∧ field (bit bref.buf) (bref.pos + skip) 16 = 2 ^ 15 + len

theorem unpackLength_unaligned_success (ok : (unpackLength old bref false).code = .success) :
    ∃ w len, unpackLength old bref false = ⟨.success, len, bref.moved w⟩ ∧ LengthAt bref 0 w len := by
  unfold unpackLength at ok ⊢
  rw [if_pos rfl] at ok ⊢
  obtain ⟨first_, step⟩ := handle_ok ok
  rw [step, unpack_of_success first_] at ok ⊢
  dsimp only at ok ⊢
  obtain ⟨whole, seven, fourteen⟩ := octet_split (bit bref.buf) bref.pos
  have octet := field_lt (bit bref.buf) bref.pos 1
  split at ok
  · rename_i short
    rw [if_pos short]
    have fits' := ((unpack_code _ _ _ _).mp ok).2
    rw [rest_moved] at fits'
    refine ⟨8, field (bit bref.buf) (bref.pos + 1) 7, ?_, ⟨by omega, .inl ⟨rfl, ?_⟩⟩⟩
    · rw [unpack_of_success ok, moved_pos, moved_moved, moved_buf]
    · rw [Nat.add_zero]
      omega
  · rename_i long
    rw [if_neg long]
    obtain ⟨second, step'⟩ := handle_ok ok
    rw [step', unpack_of_success second] at ok ⊢
    dsimp only at ok ⊢
    split at ok
    · rename_i short
      rw [if_pos short]
      have fits' := ((unpack_code _ _ _ _).mp ok).2
      rw [moved_moved, rest_moved] at fits'
      rw [moved_pos, moved_buf] at short
      have sixteen := field_add (bit bref.buf) bref.pos 2 14
      have two := field_add (bit bref.buf) bref.pos 1 1
      refine ⟨16, field (bit bref.buf) (bref.pos + 2) 14, ?_, ⟨by omega, .inr ⟨rfl, field_lt _ _ 14, ?_⟩⟩⟩
      · rw [unpack_of_success ok, moved_moved, moved_pos, moved_moved, moved_buf]
      · rw [Nat.add_zero]
        rw [sixteen, show field (bit bref.buf) bref.pos 2 = _ from two]
        omega
    · cases ok

theorem unpackLength_aligned_success (ok : (unpackLength old bref true).code = .success) :
    ∃ w len, unpackLength old bref true = ⟨.success, len, bref.moved (bref.pad + w)⟩ ∧
      LengthAt bref bref.pad w len := by
  unfold unpackLength at ok ⊢
  rw [if_neg (by decide)] at ok ⊢
  obtain ⟨padded, step⟩ := unpacking_ok ok
  obtain ⟨-, aligned⟩ := alignBytes_ok padded
  rw [step, aligned] at ok ⊢
  obtain ⟨first_, step'⟩ := handle_ok ok
  have fits := ((unpack_code _ _ _ _).mp first_).2
  rw [rest_moved] at fits
  rw [step', unpack_of_success first_, moved_pos, moved_buf, moved_moved] at ok ⊢
  dsimp only at ok ⊢
  split at ok
  · rename_i short
    rw [if_pos short]
    exact ⟨8, _, rfl, ⟨by omega, .inl ⟨rfl, rfl⟩⟩⟩
  · rename_i long
    rw [if_neg long]
    split at ok
    · rename_i second
      rw [if_pos second]
      obtain ⟨third, step''⟩ := handle_ok ok
      have fits' := ((unpack_code _ _ _ _).mp third).2
      rw [rest_moved] at fits'
      have sixteen := field_add (bit bref.buf) (bref.pos + bref.pad) 8 8
      have low := field_lt (bit bref.buf) (bref.pos + bref.pad + 8) 8
      rw [unpack_of_success third, moved_pos, moved_buf, moved_moved, ← Nat.add_assoc]
      refine ⟨16, _, rfl, ⟨by omega, .inr ⟨rfl, ?_, ?_⟩⟩⟩
      · dsimp only
        omega
      · change field (bit bref.buf) (bref.pos + bref.pad) (8 + 8) = _
        dsimp only
        omega
    · cases ok

theorem unpackLength_success (ok : (unpackLength old bref aligned).code = .success) :
    ∃ w len, unpackLength old bref aligned = ⟨.success, len, bref.moved (lengthSkip bref aligned + w)⟩ ∧
      LengthAt bref (lengthSkip bref aligned) w len := by
  cases aligned with
  | false =>
    obtain ⟨w, len, result, stands⟩ := unpackLength_unaligned_success ok
    exact ⟨w, len, by rw [result]; simp [lengthSkip], stands⟩
  | true => exact unpackLength_aligned_success ok

theorem reads_twoOctets {len : Nat} (stands : LengthAt bref bref.pad 16 len) :
    unpackLength old bref true = ⟨.success, len, bref.moved (bref.pad + 16)⟩ := by
  obtain ⟨fits, ⟨impossible, -⟩ | ⟨-, small, written⟩⟩ := stands
  · cases impossible
  have last : len % 256 < 2 ^ 8 := Nat.mod_lt _ (by decide)
  obtain ⟨high, low⟩ := @field_split (bit bref.buf) (bref.pos + bref.pad) 8 8 (128 + len / 256) _ last
    (written.trans (by omega))
  have first_ := unpack_of_moved (show 8 ≤ 32 by decide) (show bref.pad + 8 ≤ bref.rest by omega) high old
  have second := unpack_of_moved (show 8 ≤ 32 by decide) (show bref.pad + 8 + 8 ≤ bref.rest by omega) low 0
  have whole : (128 + len / 256 - 128) * 256 + len % 256 = len := by omega
  rw [unpackLength, if_neg (by decide), alignBytes_eq, if_pos (by omega), unpacking]
  simp only [first_, Unpacked.handle, if_true]
  rw [if_neg (by omega), if_pos (by omega)]
  simp only [second, whole, if_true]

end Length

section Constrained
variable {ty : IntType} {bref c : BitRef} {old n lb ub : ty.Value} {aligned : Bool} {ra : Nat}

def offsetSkip (bref : BitRef) (ra : Nat) (aligned : Bool) : Nat := if aligned = false ∨ ra < 256 then 0 else bref.pad

def offsetBits (ra : Nat) (aligned : Bool) : Nat :=
  if aligned = false ∨ ra < 256 then ceilLog2 ra else ceilFrac (ceilLog2 ra) 8 * 8

theorem offsetBits_le (small : ceilLog2 ra ≤ ty.bits) (aligned : Bool) : offsetBits ra aligned ≤ ty.bits := by
  unfold offsetBits
  split
  · exact small
  · exact ceilFrac_mul_le small

theorem ceilLog2_le_offsetBits (ra : Nat) (aligned : Bool) : ceilLog2 ra ≤ offsetBits ra aligned := by
  unfold offsetBits ceilFrac
  split <;> omega

theorem offsetIn_eq (le : ra ≤ asn64K) :
    offsetIn ty bref ra aligned = bref.bitsAt (offsetSkip bref ra aligned) (offsetBits ra aligned) := by
  unfold offsetIn offsetSkip offsetBits
  split
  · rfl
  · rfl

theorem unpackInRange_of_fits (small : ceilLog2 ra ≤ ty.bits) (le : ra ≤ asn64K)
    (fits : offsetSkip bref ra aligned + offsetBits ra aligned ≤ bref.rest) :
    unpackInRange ty old bref ra (ceilLog2 ra) aligned =
      ⟨.success, ty.ofInt (field (bit bref.buf) (bref.pos + offsetSkip bref ra aligned) (offsetBits ra aligned)),
        bref.moved (offsetSkip bref ra aligned + offsetBits ra aligned)⟩ := by
  have octets := offsetBits_le small aligned
  unfold unpackInRange
  by_cases short : aligned = false ∨ ra < 256
  · have skip : offsetSkip bref ra aligned = 0 := if_pos short
    have bits : offsetBits ra aligned = ceilLog2 ra := if_pos short
    rw [skip, bits, Nat.zero_add] at fits ⊢
    have read : unpackInt ty old bref (ceilLog2 ra) = _ := unpackInt_eq small fits
    split
    · exact read
    · rw [if_pos (short.resolve_left ‹_›)]
      exact read
  · have skip : offsetSkip bref ra aligned = bref.pad := if_neg short
    have bits : offsetBits ra aligned = ceilFrac (ceilLog2 ra) 8 * 8 := if_neg short
    rw [bits] at octets
    rw [skip, bits] at fits ⊢
    rw [not_or] at short
    rw [if_neg short.1, if_neg short.2, if_pos le, alignBytes_eq, if_pos (by omega), unpacking]
    have reached : (bref.moved (bref.pad + ceilFrac (ceilLog2 ra) 8 * 8)).pad = 0 := by
      have pos : (bref.moved (bref.pad + ceilFrac (ceilLog2 ra) 8 * 8)).pos =
          bref.pos + bref.pad + 8 * ceilFrac (ceilLog2 ra) 8 := by
        rw [moved_pos]
        omega
      exact pad_eq_zero pos
    rw [unpackInt_eq octets (by rw [rest_moved]; omega), Unpacked.handle, moved_moved, alignBytes_eq, reached,
      moved_zero, moved_pos]
    rfl

section
variable (computed : ty.RangeComputed lb ub) (several : ty.span lb ub ≠ 1) (le : ty.span lb ub ≤ asn64K)
include computed several le

theorem unpackConstrained_of_offset (within : lb.val ≤ n.val ∧ n.val ≤ ub.val)
    (fits : offsetSkip bref (ty.span lb ub) aligned + offsetBits (ty.span lb ub) aligned ≤ bref.rest)
    (stands : field (bit bref.buf) (bref.pos + offsetSkip bref (ty.span lb ub) aligned)
      (offsetBits (ty.span lb ub) aligned) = offsetOf n lb) :
    unpackConstrainedWholeNumber ty old bref lb ub aligned =
      .ok ⟨.success, n,
        bref.moved (offsetSkip bref (ty.span lb ub) aligned + offsetBits (ty.span lb ub) aligned)⟩ := by
  have ordered := within.1.trans within.2
  have small : ceilLog2 (ty.span lb ub) ≤ ty.bits :=
    (ceilLog2_le_iff (IntType.span_pos ordered)).mpr (IntType.span_le lb ub)
  rw [unpackConstrainedWholeNumber_eq ordered computed several]
  rw [unpackInRange_of_fits small le fits, stands, addLowerBound_eq within computed]

theorem unpackConstrained_success (least : lb.val ≤ n.val) (ordered : lb.val ≤ ub.val)
    (decoded : unpackConstrainedWholeNumber ty old bref lb ub aligned = .ok ⟨.success, n, c⟩) :
    offsetSkip bref (ty.span lb ub) aligned + offsetBits (ty.span lb ub) aligned ≤ bref.rest ∧
      field (bit bref.buf) (bref.pos + offsetSkip bref (ty.span lb ub) aligned)
        (offsetBits (ty.span lb ub) aligned) = offsetOf n lb ∧
      c = bref.moved (offsetSkip bref (ty.span lb ub) aligned + offsetBits (ty.span lb ub) aligned) := by
  have small : ceilLog2 (ty.span lb ub) ≤ ty.bits :=
    (ceilLog2_le_iff (IntType.span_pos ordered)).mpr (IntType.span_le lb ub)
  rw [unpackConstrainedWholeNumber_eq ordered computed several] at decoded
  obtain ⟨read, stop⟩ := addLowerBound_success decoded rfl
  have found := unpackInRange_finds old bref small aligned
  rw [offsetIn_eq le, bitsAt] at found
  split at found
  · rename_i fits
    have offset := addLowerBound_offset found decoded least
    dsimp only at stop offset
    refine ⟨fits, ?_, ?_⟩
    · unfold offsetOf
      omega
    · rw [stop, unpackInRange_of_fits small le fits]
  · exact absurd read found

end
end Constrained

end IsrRan.Asn1
