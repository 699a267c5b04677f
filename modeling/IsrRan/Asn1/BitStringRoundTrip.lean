import IsrRan.Asn1.BitStringDecoded

namespace IsrRan.Asn1.BitstringUtils
open BitRef Lib Nat

def BoundedMeets (start : BitRef) (len lb ub : Nat) (isAligned : Bool) : Prop :=
  let lenBits := ceilLog2 (ub - lb)
  let pad := lengthPad start lenBits isAligned
  if ub ≥ asn64K then
    isAligned = true ∧ len < asn16K ∧ lenBits + pad = start.pad + 16 ∧ (len - lb) * 2 ^ pad % 2 ^ 16 = 2 ^ 15 + len
  else if isAligned = false then ceilLog2 (ub - lb + 1) = lenBits
  else if ub - lb < 255 then ceilLog2 (ub - lb + 1) = lenBits ∨ len = lb ∧ pad ≠ 0
  else lenBits + pad = start.pad + ceilFrac (ceilLog2 (ub - lb + 1)) 8 * 8 ∧ (len = lb ∨ pad = 0)

section Bounded
variable {start c stop again : BitRef} {data : List Byte} {len lb ub old : Nat} {isAligned : Bool}

section Types
theorem tyU32_val {n : Nat} (limited : ub < u32Max) (le : n ≤ ub) : (tyU32.ofInt n).val = n := by
  unfold u32Max at limited
  refine IntType.reduce_of_mem ?_ ?_
  · exact Int.natCast_nonneg n
  · exact (show (n : Int) ≤ 2 ^ 32 - 1 by omega)

variable (bounded : lb < ub) (limited : ub < u32Max)
include bounded limited

theorem tyU32_span : tyU32.span (tyU32.ofInt lb) (tyU32.ofInt ub) = ub - lb + 1 := by
  rw [IntType.span, tyU32_val limited le_rfl, tyU32_val limited bounded.le]
  omega

theorem tyU32_computed : tyU32.RangeComputed (tyU32.ofInt lb) (tyU32.ofInt ub) := by
  unfold u32Max at limited
  constructor
  · intro signed
    cases signed
  · rw [tyU32_val limited le_rfl, tyU32_val limited bounded.le]
    omega

theorem tyU32_offset (within : lb ≤ len ∧ len ≤ ub) : offsetOf (tyU32.ofInt len) (tyU32.ofInt lb) = len - lb := by
  rw [offsetOf, tyU32_val limited within.2, tyU32_val limited bounded.le]
  omega

theorem ceilLog2_le_32_of_bounds : ceilLog2 (ub - lb) ≤ 32 := by
  unfold u32Max at limited
  apply (ceilLog2_le_iff (by omega)).mpr
  omega

theorem prefixReturns_unbounded (large : ub ≥ asn64K) :
    PrefixReturns old again data len lb ub false isAligned stop ↔
      ∃ c, unpackLength 0 again isAligned = ⟨.success, len, c⟩ ∧ BitsReturn data len lb ub isAligned c stop := by
  have unfolded : unpackPrefix old again lb ub false isAligned =
      .ok ⟨(unpackLength 0 again isAligned).code, (tyU32.ofInt (unpackLength 0 again isAligned).val).val.toNat,
        (unpackLength 0 again isAligned).bref⟩ := by
    rw [unpackPrefix, if_neg (by simp; omega), if_neg (by omega), unpackLengthIn, tyU32_val limited le_rfl,
      if_pos (by omega)]
    rfl
  have value (ok : (unpackLength 0 again isAligned).code = .success) :
      (tyU32.ofInt (unpackLength 0 again isAligned).val).val.toNat = (unpackLength 0 again isAligned).val := by
    obtain ⟨w, len, result, -, stands⟩ := unpackLength_success ok
    have below : len < 2 ^ 14 := by
      obtain ⟨-, octet⟩ | ⟨-, small, -⟩ := stands
      · rw [← octet]
        exact (field_lt _ _ 8).trans (by decide)
      · exact small
    unfold asn64K at large
    rw [result, tyU32_val limited (by dsimp only; omega)]
    rfl
  unfold PrefixReturns
  rw [unfolded]
  constructor
  · rintro ⟨c, decoded, returned⟩
    have decoded := Except.ok.inj decoded
    have ok : (unpackLength 0 again isAligned).code = .success := congrArg Unpacked.code decoded
    rw [value ok] at decoded
    exact ⟨c, decoded, returned⟩
  · rintro ⟨c, decoded, returned⟩
    have ok : (unpackLength 0 again isAligned).code = .success := congrArg Unpacked.code decoded
    exact ⟨c, by rw [value ok, decoded], returned⟩

end Types

theorem ceilLog2_succ {x : Nat} (pos : 0 < x) :
    ceilLog2 (x + 1) = ceilLog2 x ∨ ceilLog2 (x + 1) = ceilLog2 x + 1 ∧ x = 2 ^ ceilLog2 x := by
  have most := le_two_pow_ceilLog2 pos
  have mono : ceilLog2 x ≤ ceilLog2 (x + 1) :=
    (ceilLog2_le_iff pos).mpr ((le_succ x).trans (le_two_pow_ceilLog2 (succ_pos x)))
  by_cases exceeds : x + 1 ≤ 2 ^ ceilLog2 x
  · exact .inl (Nat.le_antisymm ((ceilLog2_le_iff (succ_pos x)).mpr exceeds) mono)
  · have above : ¬ceilLog2 (x + 1) ≤ ceilLog2 x := fun le => exceeds ((ceilLog2_le_iff (succ_pos x)).mp le)
    have next : ceilLog2 (x + 1) ≤ ceilLog2 x + 1 := by
      apply (ceilLog2_le_iff (succ_pos x)).mpr
      omega
    exact .inr ⟨by omega, by omega⟩

theorem offset_bound (within : lb ≤ len ∧ len ≤ ub) (bounded : lb < ub) :
    len - lb < 2 ^ ceilLog2 (ub - lb + 1) ∧ len - lb ≤ 2 ^ ceilLog2 (ub - lb) := by
  have most := le_two_pow_ceilLog2 (show 0 < ub - lb + 1 by omega)
  have most' := le_two_pow_ceilLog2 (show 0 < ub - lb by omega)
  omega

section Again
variable (sameBuf : again.buf = stop.buf) (samePos : again.pos = start.pos) (within : lb ≤ len ∧ len ≤ ub)
  (bounded : lb < ub) (limited : ub < u32Max)
  (encoded : Encoded start data len
    (ceilLog2 (ub - lb) + lengthPad start (ceilLog2 (ub - lb)) isAligned) stop)
  (written : field (bit stop.buf) start.pos (ceilLog2 (ub - lb) + lengthPad start (ceilLog2 (ub - lb)) isAligned) =
    (len - lb) % 2 ^ ceilLog2 (ub - lb) * 2 ^ lengthPad start (ceilLog2 (ub - lb)) isAligned)
include sameBuf samePos within bounded limited encoded written

theorem large_returns_iff (large : ub ≥ asn64K) :
    PrefixReturns old again data len lb ub false isAligned stop ↔
      isAligned = true ∧ len < asn16K ∧
        ceilLog2 (ub - lb) + lengthPad start (ceilLog2 (ub - lb)) isAligned = start.pad + 16 ∧
        (len - lb) * 2 ^ lengthPad start (ceilLog2 (ub - lb)) isAligned % 2 ^ 16 = 2 ^ 15 + len := by
  rw [prefixReturns_unbounded bounded limited large]
  have wide (small : len < 2 ^ 14) : 16 ≤ ceilLog2 (ub - lb) := by
    by_contra narrow
    have most := (ceilLog2_le_iff (show 0 < ub - lb by omega)).mp (show ceilLog2 (ub - lb) ≤ 15 by omega)
    unfold asn64K at large
    omega
  have kept (small : len < 2 ^ 14) : (len - lb) % 2 ^ ceilLog2 (ub - lb) = len - lb := by
    apply mod_eq_of_lt
    calc
      len - lb < 2 ^ 16 := by omega
      _ ≤ _ := Nat.pow_le_pow_right (by decide) (wide small)
  have most : start.pad < 8 := mod_lt _ (by decide)
  constructor
  · rintro ⟨c, decoded, returned⟩
    obtain ⟨w, len', result, -, stands⟩ := unpackLength_success (by rw [decoded])
    obtain rfl : len' = len := congrArg Unpacked.val (result.symm.trans decoded)
    have reached : c = again.moved (lengthSkip again isAligned + w) :=
      congrArg Unpacked.bref (decoded.symm.trans result)
    have met := ((bitsReturn_iff c encoded (reached ▸ sameBuf)).mp returned).2
    rw [samePos, sameBuf] at stands
    have small : len' < 2 ^ 14 := by
      obtain ⟨-, octet⟩ | ⟨-, small, -⟩ := stands
      · rw [← octet]
        exact (field_lt _ _ 8).trans (by decide)
      · exact small
    rw [kept small] at written
    cases isAligned with
    | false =>
      have skip : lengthSkip again false = 0 := rfl
      have nothing : lengthPad start (ceilLog2 (ub - lb)) false = 0 := rfl
      have nothing' : bitfieldPad c lb ub false = 0 := rfl
      rw [nothing', reached, moved_pos] at met
      rw [nothing] at written
      rw [skip] at stands
      obtain ⟨rfl, -⟩ | ⟨rfl, -, number⟩ := stands
      · omega
      · have bits : ceilLog2 (ub - lb) + 0 = 16 := by omega
        rw [bits] at written
        rw [Nat.add_zero] at number
        omega
    | true =>
      have skip : lengthSkip again true = start.pad := pad_congr samePos
      rw [skip] at reached stands
      obtain ⟨j, octets⟩ : ∃ j, w = 8 * j := by
        obtain ⟨rfl, -⟩ | ⟨rfl, -⟩ := stands
        · exact ⟨1, rfl⟩
        · exact ⟨2, rfl⟩
      have place : c.pos = start.pos + start.pad + 8 * j := by
        rw [reached, moved_pos, samePos, octets, Nat.add_assoc]
      have nothing : bitfieldPad c lb ub true = 0 :=
        Nat.le_zero.mp ((bitfieldPad_le _ _ _ _).trans (pad_eq_zero place).le)
      obtain ⟨rfl, -⟩ | ⟨rfl, -, number⟩ := stands
      · omega
      · have same : ceilLog2 (ub - lb) + lengthPad start (ceilLog2 (ub - lb)) true = start.pad + 16 := by omega
        rw [same] at written
        exact ⟨rfl, small, same, (field_mod written).symm.trans number⟩
  · rintro ⟨rfl, small, same, value⟩
    rw [kept small, same] at written
    have fits := encoded.fits
    have length := encoded.length
    have window := field_mod written
    rw [value, ← sameBuf, ← samePos, ← pad_congr samePos] at window
    have stands : LengthAt again again.pad 16 len := by
      refine ⟨?_, .inr ⟨rfl, small, window⟩⟩
      unfold rest at fits ⊢
      rw [pad_congr samePos, sameBuf]
      omega
    refine ⟨_, reads_twoOctets stands, (bitsReturn_iff (again.moved (again.pad + 16)) encoded sameBuf).mpr ?_⟩
    have nothing : bitfieldPad (again.moved (again.pad + 16)) lb ub true = 0 := by
      have place : (again.moved (again.pad + 16)).pos = again.pos + again.pad + 8 * 2 := by
        rw [moved_pos, Nat.add_assoc]
      exact Nat.le_zero.mp ((bitfieldPad_le _ _ _ _).trans (pad_eq_zero place).le)
    rw [nothing, moved_pos, pad_congr samePos]
    unfold asn64K
    omega

theorem small_returns_iff (small : ub < asn64K) :
    PrefixReturns old again data len lb ub false isAligned stop ↔
      offsetSkip start (ub - lb + 1) isAligned + offsetBits (ub - lb + 1) isAligned +
          (if isAligned then (start.moved (offsetSkip start (ub - lb + 1) isAligned +
            offsetBits (ub - lb + 1) isAligned)).pad else 0) =
        ceilLog2 (ub - lb) + lengthPad start (ceilLog2 (ub - lb)) isAligned ∧
      field (bit stop.buf) (start.pos + offsetSkip start (ub - lb + 1) isAligned)
        (offsetBits (ub - lb + 1) isAligned) = len - lb := by
  have lower := tyU32_val limited bounded.le
  have upper := tyU32_val limited (le_refl ub)
  have value := tyU32_val limited within.2
  have span := tyU32_span bounded limited
  have computed := tyU32_computed bounded limited
  have several : tyU32.span (tyU32.ofInt lb) (tyU32.ofInt ub) ≠ 1 := by omega
  have few : tyU32.span (tyU32.ofInt lb) (tyU32.ofInt ub) ≤ asn64K := by omega
  have skip : offsetSkip again (ub - lb + 1) isAligned = offsetSkip start (ub - lb + 1) isAligned := by
    unfold offsetSkip
    rw [pad_congr samePos]
  have unfolded : unpackPrefix old again lb ub false isAligned = (do
      let r ← unpackConstrainedWholeNumber tyU32 (tyU32.ofInt old) again (tyU32.ofInt lb) (tyU32.ofInt ub) isAligned
      pure ⟨r.code, r.val.val.toNat, r.bref⟩) := by
    rw [unpackPrefix, if_neg (by simp; omega), if_neg (by omega), unpackLengthIn, if_neg (by omega)]
  have pads (k : Nat) : bitfieldPad (again.moved k) lb ub isAligned = if isAligned then (start.moved k).pad else 0 := by
    have same : (again.moved k).pad = (start.moved k).pad := pad_congr (by rw [moved_pos, moved_pos, samePos])
    unfold bitfieldPad
    rw [same]
    cases isAligned with
    | false => rfl
    | true => exact if_pos ⟨rfl, .inl bounded.ne⟩
  have fits := encoded.fits
  have length := encoded.length
  unfold PrefixReturns
  rw [unfolded]
  constructor
  · rintro ⟨c, decoded, returned⟩
    obtain ⟨⟨code, n, bref⟩, result, same⟩ := bind_eq_ok.mp decoded
    injection Except.ok.inj same with code_eq value_eq bref_eq
    dsimp only at code_eq value_eq bref_eq
    subst code_eq bref_eq
    have least := n.2.1
    have positive : (0 : Int) ≤ n.val := least
    obtain rfl : n = tyU32.ofInt len := Subtype.ext (by omega)
    obtain ⟨-, stands, reached⟩ :=
      unpackConstrained_success computed several few (by omega) (by omega) result
    rw [span, skip] at stands reached
    rw [tyU32_offset bounded limited within, samePos, sameBuf] at stands
    have met := ((bitsReturn_iff bref encoded (reached ▸ sameBuf)).mp returned).2
    rw [reached, pads, moved_pos] at met
    exact ⟨by omega, stands⟩
  · rintro ⟨met, stands⟩
    have inside : offsetSkip again (ub - lb + 1) isAligned + offsetBits (ub - lb + 1) isAligned ≤ again.rest := by
      unfold rest at fits ⊢
      rw [sameBuf]
      omega
    rw [← skip, ← samePos, ← sameBuf] at stands
    have read := @unpackConstrained_of_offset tyU32 again (tyU32.ofInt old) (tyU32.ofInt len) (tyU32.ofInt lb)
      (tyU32.ofInt ub) isAligned computed several few ⟨by omega, by omega⟩ (by rw [span]; exact inside)
      (by rw [span, tyU32_offset bounded limited within]; exact stands)
    refine ⟨_, ?_, (bitsReturn_iff (again.moved (offsetSkip again (ub - lb + 1) isAligned +
      offsetBits (ub - lb + 1) isAligned)) encoded sameBuf).mpr ⟨by omega, ?_⟩⟩
    · rw [read, span]
      change Except.ok (Unpacked.mk _ (tyU32.ofInt len).val.toNat _) = _
      rw [value]
      rfl
    · rw [pads, moved_pos, skip]
      omega

omit sameBuf samePos encoded limited in
theorem unaligned_iff (unaligned : isAligned = false) :
    (ceilLog2 (ub - lb + 1) = ceilLog2 (ub - lb) + lengthPad start (ceilLog2 (ub - lb)) isAligned ∧
      field (bit stop.buf) start.pos (ceilLog2 (ub - lb + 1)) = len - lb) ↔
        ceilLog2 (ub - lb + 1) = ceilLog2 (ub - lb) := by
  have bound := offset_bound within bounded
  have nothing : lengthPad start (ceilLog2 (ub - lb)) isAligned = 0 := by
    rw [lengthPad, unaligned]
    rfl
  rw [nothing, Nat.add_zero, Nat.pow_zero, Nat.mul_one] at written
  rw [nothing, Nat.add_zero]
  constructor
  · exact And.left
  · intro same
    refine ⟨same, ?_⟩
    rw [same] at bound ⊢
    rw [written, mod_eq_of_lt bound.1]

omit sameBuf samePos encoded limited in
theorem field_iff (aligned : isAligned = true) :
    (ceilLog2 (ub - lb + 1) + (start.moved (ceilLog2 (ub - lb + 1))).pad =
        ceilLog2 (ub - lb) + lengthPad start (ceilLog2 (ub - lb)) isAligned ∧
      field (bit stop.buf) start.pos (ceilLog2 (ub - lb + 1)) = len - lb) ↔
        ceilLog2 (ub - lb + 1) = ceilLog2 (ub - lb) ∨
          len = lb ∧ lengthPad start (ceilLog2 (ub - lb)) isAligned ≠ 0 := by
  have bound := offset_bound within bounded
  have padded : lengthPad start (ceilLog2 (ub - lb)) isAligned = (start.moved (ceilLog2 (ub - lb))).pad :=
    if_pos aligned
  have stepped : (start.moved (ceilLog2 (ub - lb) + 1)).pad + 1 = (start.moved (ceilLog2 (ub - lb))).pad ∨
      (start.moved (ceilLog2 (ub - lb))).pad = 0 ∧ (start.moved (ceilLog2 (ub - lb) + 1)).pad = 7 := by
    unfold pad moved
    dsimp only
    omega
  rw [padded] at written ⊢
  obtain same | ⟨more, power⟩ := ceilLog2_succ (show 0 < ub - lb by omega)
  · refine iff_of_true ⟨by rw [same], ?_⟩ (.inl same)
    rw [same] at bound ⊢
    rw [(field_split (Nat.two_pow_pos _) (written.trans (Nat.add_zero _).symm)).1, mod_eq_of_lt bound.1]
  · have differ : ¬ceilLog2 (ub - lb + 1) = ceilLog2 (ub - lb) := by omega
    simp only [differ, false_or]
    rw [more]
    constructor
    · rintro ⟨met, number⟩
      obtain next | ⟨zero, seven⟩ := stepped
      · rw [← next, Nat.pow_succ', ← Nat.mul_assoc, Nat.add_comm _ 1, ← Nat.add_assoc] at written
        have top := (field_split (Nat.two_pow_pos _) (written.trans (Nat.add_zero _).symm)).1
        rw [number] at top
        refine ⟨?_, by omega⟩
        by_cases last : len - lb = 2 ^ ceilLog2 (ub - lb)
        · rw [last, mod_self, Nat.zero_mul] at top
          exact absurd top (Nat.two_pow_pos _).ne'
        · rw [mod_eq_of_lt (by omega)] at top
          omega
      · omega
    · rintro ⟨rfl, some_⟩
      obtain next | ⟨zero, -⟩ := stepped
      · refine ⟨by omega, ?_⟩
        rw [← next, Nat.pow_succ', ← Nat.mul_assoc, Nat.add_comm _ 1, ← Nat.add_assoc] at written
        rw [(field_split (Nat.two_pow_pos _) (written.trans (Nat.add_zero _).symm)).1, Nat.sub_self, zero_mod,
          Nat.zero_mul]
      · exact absurd zero some_

omit sameBuf samePos encoded limited in
theorem octets_iff (bits : Nat) (le : ceilLog2 (ub - lb + 1) ≤ bits) :
    (start.pad + bits = ceilLog2 (ub - lb) + lengthPad start (ceilLog2 (ub - lb)) isAligned ∧
      field (bit stop.buf) (start.pos + start.pad) bits = len - lb) ↔
        ceilLog2 (ub - lb) + lengthPad start (ceilLog2 (ub - lb)) isAligned = start.pad + bits ∧
          (len = lb ∨ lengthPad start (ceilLog2 (ub - lb)) isAligned = 0) := by
  have bound := offset_bound within bounded
  have grows : ceilLog2 (ub - lb) ≤ ceilLog2 (ub - lb + 1) := by
    obtain same | ⟨more, -⟩ := ceilLog2_succ (show 0 < ub - lb by omega) <;> omega
  rw [eq_comm]
  apply and_congr_right
  intro met
  rw [met] at written
  rw [field_mod written]
  constructor
  · intro number
    by_cases nothing : lengthPad start (ceilLog2 (ub - lb)) isAligned = 0
    · exact .inr nothing
    · refine .inl ?_
      by_cases last : len - lb = 2 ^ ceilLog2 (ub - lb)
      · rw [last, mod_self, Nat.zero_mul, zero_mod] at number
        exact absurd number (Nat.two_pow_pos _).ne
      · rw [mod_eq_of_lt (show len - lb < 2 ^ ceilLog2 (ub - lb) by omega)] at number
        have zero := eq_zero_of_shift nothing number
        omega
  · rintro (rfl | nothing)
    · rw [Nat.sub_self, zero_mod, Nat.zero_mul, zero_mod]
    · have same : ceilLog2 (ub - lb + 1) = ceilLog2 (ub - lb) ∧ bits = ceilLog2 (ub - lb) := by omega
      rw [nothing, Nat.pow_zero, Nat.mul_one, same.2, mod_mod, ← same.1, mod_eq_of_lt bound.1]

theorem bounded_returns_iff :
    PrefixReturns old again data len lb ub false isAligned stop ↔ BoundedMeets start len lb ub isAligned := by
  unfold BoundedMeets
  by_cases large : ub ≥ asn64K
  · rw [if_pos large]
    exact large_returns_iff sameBuf samePos within bounded limited encoded written large
  rw [if_neg large, small_returns_iff sameBuf samePos within bounded limited encoded written (by omega)]
  by_cases unaligned : isAligned = false
  · have skip : offsetSkip start (ub - lb + 1) isAligned = 0 := if_pos (.inl unaligned)
    have bits : offsetBits (ub - lb + 1) isAligned = ceilLog2 (ub - lb + 1) := if_pos (.inl unaligned)
    rw [if_pos unaligned, skip, bits, if_neg (by simp [unaligned]), Nat.zero_add]
    exact unaligned_iff within bounded written unaligned
  have aligned : isAligned = true := by simpa using unaligned
  rw [if_neg unaligned, if_pos aligned]
  by_cases few : ub - lb < 255
  · have skip : offsetSkip start (ub - lb + 1) isAligned = 0 := if_pos (.inr (by omega))
    have bits : offsetBits (ub - lb + 1) isAligned = ceilLog2 (ub - lb + 1) := if_pos (.inr (by omega))
    rw [if_pos few, skip, bits, Nat.zero_add]
    exact field_iff within bounded written aligned
  · have many : ¬(isAligned = false ∨ ub - lb + 1 < 256) := not_or.mpr ⟨unaligned, by omega⟩
    have skip : offsetSkip start (ub - lb + 1) isAligned = start.pad := if_neg many
    have bits : offsetBits (ub - lb + 1) isAligned = ceilFrac (ceilLog2 (ub - lb + 1)) 8 * 8 := if_neg many
    have reached : (start.moved (start.pad + ceilFrac (ceilLog2 (ub - lb + 1)) 8 * 8)).pad = 0 := by
      have place : (start.moved (start.pad + ceilFrac (ceilLog2 (ub - lb + 1)) 8 * 8)).pos =
          start.pos + start.pad + 8 * ceilFrac (ceilLog2 (ub - lb + 1)) 8 := by
        rw [moved_pos]
        omega
      exact pad_eq_zero place
    rw [if_neg few, skip, bits, reached]
    exact octets_iff within bounded written _ (bits ▸ ceilLog2_le_offsetBits _ isAligned)

end Again
end Bounded

section RoundTrip
variable {start stop again bref : BitRef} {p r : Packed} {data : List Byte} {len lb ub old : Nat}
  {withinBounds hasExt isAligned : Bool}

def BitstringMeets (start : BitRef) (len lb ub : Nat) (withinBounds isAligned : Bool) : Prop :=
  if lb = ub ∧ withinBounds then len ≤ asn64K
  else if ub = u32Max ∨ withinBounds = false then isAligned = false ∨ start.pad = 0
  else BoundedMeets start len lb ub isAligned

theorem bitstringMeets_congr {other : BitRef} (same : start.pos = other.pos) :
    BitstringMeets start len lb ub withinBounds isAligned ↔ BitstringMeets other len lb ub withinBounds isAligned := by
  have pads (k : Nat) : lengthPad start k isAligned = lengthPad other k isAligned := by
    unfold lengthPad
    rw [pad_congr (show (start.moved k).pos = (other.moved k).pos by rw [moved_pos, moved_pos, same])]
  unfold BitstringMeets BoundedMeets
  simp only [pads, pad_congr same]

def Returned (bref : BitRef) (data : List Byte) (len lb ub : Nat) (hasExt isAligned : Bool) (stop : BitRef) : Prop :=
  ∀ old, ∃ c, unpackLengthPrefix old { bref with buf := stop.buf } lb ub hasExt isAligned = .ok ⟨.success, len, c⟩ ∧
    BitsReturn data len lb ub isAligned c stop

theorem u32Sub_of_le {a b : Nat} (le : b ≤ a) (lt : a < 2 ^ 32) : u32Sub a b = a - b := by
  unfold u32Sub
  omega

section Prefix
variable (ordered : lb ≤ ub) (limit : ub < 2 ^ 32) (known : withinBounds = decide (len ≥ lb ∧ len ≤ ub))
  (packed : packPrefix start len lb ub withinBounds isAligned = .ok p) (ok : p.code = .success)
  (bits : (packBitfield p.bref data len lb ub isAligned).code = .success)
include ordered limit known packed ok bits

theorem prefix_returns_iff (sameBuf : again.buf = (packBitfield p.bref data len lb ub isAligned).bref.buf)
    (samePos : again.pos = start.pos) :
    (∃ front, Encoded start data len front (packBitfield p.bref data len lb ub isAligned).bref) ∧
      (PrefixReturns old again data len lb ub (!withinBounds) isAligned
          (packBitfield p.bref data len lb ub isAligned).bref ↔
        BitstringMeets start len lb ub withinBounds isAligned) := by
  unfold packPrefix at packed
  unfold BitstringMeets
  by_cases fixed : lb = ub ∧ withinBounds = true
  · rw [if_pos fixed] at packed ⊢
    obtain rfl := Except.ok.inj packed
    obtain ⟨encoded, -⟩ := packBitfield_encoded bits
    have within := of_decide_eq_true (known.symm.trans fixed.2)
    rw [fixed.2]
    exact ⟨⟨_, encoded⟩, fixed_returns_iff sameBuf samePos encoded fixed.1 (by omega)⟩
  rw [if_neg fixed] at packed ⊢
  by_cases free : ub = u32Max ∨ withinBounds = false
  · rw [if_pos free] at packed ⊢
    obtain rfl := Except.ok.inj packed
    obtain ⟨small, encoded, written⟩ := determinant_encoded ok bits
    refine ⟨⟨_, encoded⟩, ?_⟩
    have settled : (∃ c, unpackLength old again isAligned = ⟨.success, len, c⟩ ∧ _) ↔ _ :=
      determinant_returns_iff sameBuf samePos encoded written small
    rw [← settled]
    have unfolded : unpackPrefix old again lb ub (!withinBounds) isAligned =
        .ok (unpackLength old again isAligned) := by
      rw [unpackPrefix, if_pos (free.imp_right fun outside => by rw [outside]; rfl)]
    unfold PrefixReturns
    rw [unfolded]
    simp
  · rw [if_neg free] at packed ⊢
    rw [not_or, Bool.not_eq_false] at free
    obtain ⟨limited, inside⟩ := free
    have within := of_decide_eq_true (known.symm.trans inside)
    have bounded : lb < ub := Nat.lt_of_le_of_ne ordered fun same => fixed ⟨same, inside⟩
    have below : ub < u32Max := by
      unfold u32Max at limited ⊢
      omega
    rw [u32Sub_of_le ordered limit, u32Sub_of_le within.1 (by omega), nofBits, if_neg (by omega)] at packed
    obtain rfl : packBounded start (len - lb) (ceilLog2 (ub - lb)) isAligned = p := Except.ok.inj packed
    have few := ceilLog2_le_32_of_bounds bounded below
    obtain ⟨encoded, written⟩ := bounded_encoded (by omega) ok bits
    rw [inside]
    exact ⟨⟨_, encoded⟩, bounded_returns_iff sameBuf samePos within bounded below encoded written⟩

end Prefix

theorem handle_success {next : BitRef → Packed} (ok : (p.handle next).code = .success) :
    p.code = .success ∧ p.handle next = next p.bref := by
  unfold Packed.handle at ok ⊢
  by_cases first_ : p.code = .success
  · exact ⟨first_, if_pos first_⟩
  · rw [if_neg first_] at ok
    exact absurd ok first_

theorem returned_iff (ordered : lb ≤ ub) (limit : ub < 2 ^ 32)
    (packed : pack bref data len lb ub hasExt isAligned = .ok r) (ok : r.code = .success) :
    Returned bref data len lb ub hasExt isAligned r.bref ↔
      BitstringMeets (bref.moved (if hasExt then 1 else 0)) len lb ub (decide (lb ≤ len ∧ len ≤ ub)) isAligned := by
  obtain ⟨p, prefixed, result⟩ := bind_eq_ok.mp packed
  obtain rfl := Except.ok.inj result
  obtain ⟨first_, step⟩ := handle_success ok
  rw [step] at ok ⊢
  unfold packLengthPrefix at prefixed
  split at prefixed
  · obtain rfl := Except.ok.inj prefixed
    cases first_
  dsimp only at prefixed
  split at prefixed
  · obtain rfl := Except.ok.inj prefixed
    cases first_
  rename_i accepted
  cases hasExt with
  | false =>
    have inside : decide (len ≥ lb ∧ len ≤ ub) = true := by simpa using accepted
    simp only [Bool.false_eq_true, if_false, moved_zero] at prefixed ⊢
    have settled (old : Nat) := (@prefix_returns_iff bref { bref with buf := _ } p data len lb ub old _ isAligned
      ordered limit rfl prefixed first_ ok rfl rfl).2
    rw [inside] at settled
    rw [show decide (lb ≤ len ∧ len ≤ ub) = true from inside]
    constructor
    · intro returned
      exact (settled 0).mp (returned 0)
    · intro meets old
      exact (settled old).mpr meets
  | true =>
    simp only [if_true] at prefixed ⊢
    split at prefixed
    · rename_i extended
      have flagged := pack_packs bref (!decide (len ≥ lb ∧ len ≤ ub)).toNat 1 (by decide)
      generalize (bref.pack (!decide (len ≥ lb ∧ len ≤ ub)).toNat 1) = ext at prefixed extended flagged
      have behind := flagged.pos extended
      have settled (old : Nat) := @prefix_returns_iff ext.bref
        (({ bref with buf := (packBitfield p.bref data len lb ub isAligned).bref.buf } : BitRef).moved 1) p data len
        lb ub old _ isAligned ordered limit rfl prefixed first_ ok rfl ((moved_pos _ _).trans behind.symm)
      obtain ⟨front, encoded⟩ := (settled 0).1
      generalize (packBitfield p.bref data len lb ub isAligned).bref = stop at settled encoded ⊢
      have flag : field (bit stop.buf) bref.pos 1 = (!decide (len ≥ lb ∧ len ≤ ub)).toNat := by
        have unchanged : field (bit stop.buf) bref.pos 1 = field (bit ext.bref.buf) bref.pos 1 :=
          field_congr fun i lt => encoded.before _ (by omega)
        rw [unchanged, flagged.written extended]
        exact mod_eq_of_lt (Bool.toNat_lt _)
      have left : 1 ≤ ({ bref with buf := stop.buf } : BitRef).rest := by
        have there := flagged.code.mp extended
        have length := encoded.length.trans flagged.length
        unfold rest at there ⊢
        rw [show ({ bref with buf := stop.buf } : BitRef).pos = bref.pos from rfl]
        dsimp only
        omega
      have read : ({ bref with buf := stop.buf } : BitRef).unpack 8 0 1 = ⟨.success, _, _⟩ :=
        unpack_of_field (by decide) left flag 0
      have step (old : Nat) : unpackLengthPrefix old { bref with buf := stop.buf } lb ub true isAligned =
          unpackPrefix old (({ bref with buf := stop.buf } : BitRef).moved 1) lb ub
            (!decide (len ≥ lb ∧ len ≤ ub)) isAligned := by
        rw [unpackLengthPrefix, read]
        cases decide (len ≥ lb ∧ len ≤ ub) <;> rfl
      have same : ext.bref.pos = (bref.moved 1).pos := behind.trans (moved_pos _ _).symm
      unfold Returned
      simp only [step]
      rw [← bitstringMeets_congr same]
      constructor
      · intro returned
        exact (settled 0).2.mp (returned 0)
      · intro meets old
        exact (settled old).2.mpr meets
    · obtain rfl := Except.ok.inj prefixed
      exact absurd first_ ‹_›

theorem bitstring_roundTrips_iff (bref : BitRef) (data : List Byte) (len lb ub : Nat) (hasExt isAligned : Bool)
    (r : Packed) (ptr : List Byte) (number nbits : Nat) (ordered : lb ≤ ub) (limit : ub < 2 ^ 32)
    (packed : pack bref data len lb ub hasExt isAligned = .ok r) (accepted : r.code = .success)
    (few : nbits ≤ 64) (fits : number < 2 ^ nbits) :
    (Returned bref data len lb ub hasExt isAligned r.bref ↔
        BitstringMeets (bref.moved (if hasExt then 1 else 0)) len lb ub (decide (lb ≤ len ∧ len ≤ ub)) isAligned) ∧
      (toNumber (fromNumber ptr number nbits) nbits = .ok number ↔ nbits ≤ 32 ∧ number < 2 ^ 31) :=
  ⟨returned_iff ordered limit packed accepted, toNumber_fromNumber_iff ptr few fits⟩

theorem bitstring_roundTrips_tenBits :
    Returned ⟨[0, 0], 0, 0, by decide⟩ [0x82, 0x02] 10 5 15 false false ⟨[0x5A, 0x08], 1, 6, by decide⟩ ∧
      toNumber (fromNumber [0, 0] 642 10) 10 = .ok 642 := by
  have settled := bitstring_roundTrips_iff ⟨[0, 0], 0, 0, by decide⟩ [0x82, 0x02] 10 5 15 false false
    ⟨.success, ⟨[0x5A, 0x08], 1, 6, by decide⟩⟩ [0, 0] 642 10 (by decide) (by decide) (by decide +kernel) rfl
    (by decide) (by decide)
  refine ⟨settled.1.mpr ?_, settled.2.mpr (by decide)⟩
  unfold BitstringMeets BoundedMeets
  decide

theorem bitstring_notReturned :
    (∃ r, pack ⟨[0], 0, 0, by decide⟩ [1] 1 0 1 false false = .ok r ∧ r.code = .success ∧
        ¬Returned ⟨[0], 0, 0, by decide⟩ [1] 1 0 1 false false r.bref) ∧
      toNumber (fromNumber [0, 0, 0, 0] 0x80000000 32) 32 = .ok 0xFFFFFFFF80000000 := by
  refine ⟨⟨⟨.success, ⟨[0x80], 0, 1, by decide⟩⟩, by decide +kernel, rfl, fun returned => ?_⟩, by decide +kernel⟩
  obtain ⟨c, decoded, bits⟩ := returned 0
  have read : unpackLengthPrefix 0 ⟨[0x80], 0, 0, by decide⟩ 0 1 false false =
      .ok ⟨.success, 1, ⟨[0x80], 0, 1, by decide⟩⟩ := by decide +kernel
  obtain rfl := congrArg Unpacked.bref (Except.ok.inj (read.symm.trans decoded))
  obtain ⟨out, result, -⟩ := bits [0] (by decide)
  have behind : unpackBitfield [0] ⟨[0x80], 0, 1, by decide⟩ 1 0 1 false =
      ⟨.success, [0], ⟨[0x80], 0, 2, by decide⟩⟩ := by decide +kernel
  exact absurd (congrArg (fun r => r.bref.offset) (behind.symm.trans result)) (by simp)

end RoundTrip

end IsrRan.Asn1.BitstringUtils
