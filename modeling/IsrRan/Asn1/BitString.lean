import IsrRan.Asn1.PerRoundTrip

namespace IsrRan.Asn1.BitstringUtils
open BitRef Lib List Nat

def u32Max : Nat := 2 ^ 32 - 1

def tyU32 : IntType := ⟨.w32, false⟩

def get (ptr : List Byte) (idx : Nat) : Bool := decide (byteAt ptr (idx / 8) &&& 2 ^ (idx % 8) > 0)

def packPrefix (bref : BitRef) (len lb ub : Nat) (withinBounds isAligned : Bool) : Except Fault Packed :=
  if lb = ub ∧ withinBounds then .ok ⟨.success, bref⟩
  else if ub = u32Max ∨ withinBounds = false then .ok (packLength bref len false)
  else do
    let lenBits ← nofBits (u32Sub ub lb)
    pure ((bref.pack (u32Sub len lb) lenBits).handle fun bref =>
      if isAligned then bref.alignBytesZero else ⟨.success, bref⟩)

def packLengthPrefix (bref : BitRef) (len lb ub : Nat) (hasExt isAligned : Bool) : Except Fault Packed :=
  if hasExt ∧ ub = u32Max then .ok ⟨.encodeFail, bref⟩
  else
    let withinBounds := decide (len ≥ lb ∧ len ≤ ub)
    if withinBounds = false ∧ hasExt = false then .ok ⟨.encodeFail, bref⟩
    else if hasExt then
      let ext := bref.pack (!withinBounds).toNat 1
      if ext.code = .success then packPrefix ext.bref len lb ub withinBounds isAligned else .ok ext
    else packPrefix bref len lb ub withinBounds isAligned

/-- Where the bits of the string start; what `align_bytes` returns is not looked at. -/
def bitfieldStart (bref : BitRef) (lb ub : Nat) (isAligned : Bool) : BitRef :=
  if isAligned ∧ (lb ≠ ub ∨ ub > 16) then bref.alignBytes.bref else bref

def packRest (buf : List Byte) : Nat → BitRef → Packed
  | 0, bref => ⟨.success, bref⟩
  | k + 1, bref => (bref.pack (byteAt buf k) 8).handle (packRest buf k)

def packBitfield (bref : BitRef) (buf : List Byte) (nbits lb ub : Nat) (isAligned : Bool) : Packed :=
  if nbits = 0 then ⟨.encodeFail, bref⟩
  else
    let nOcts := ceilFrac nbits 8
    let offset := (nbits - 1) % 8 + 1
    ((bitfieldStart bref lb ub isAligned).pack (byteAt buf (nOcts - 1)) offset).handle (packRest buf (nOcts - 1))

def pack (bref : BitRef) (data : List Byte) (len lb ub : Nat) (hasExt isAligned : Bool) : Except Fault Packed := do
  let r ← packLengthPrefix bref len lb ub hasExt isAligned
  pure (r.handle fun bref => packBitfield bref data len lb ub isAligned)

def unpackPrefix (old : Nat) (bref : BitRef) (lb ub : Nat) (ext isAligned : Bool) : Except Fault (Unpacked Nat) :=
  if ub = u32Max ∨ ext then .ok (unpackLength old bref isAligned)
  else if lb = ub then .ok ⟨.success, lb, bref⟩
  else do
    let r ← unpackLengthIn tyU32 (tyU32.ofInt old) bref (tyU32.ofInt lb) (tyU32.ofInt ub) isAligned
    pure ⟨r.code, r.val.val.toNat, r.bref⟩

def unpackLengthPrefix (old : Nat) (bref : BitRef) (lb ub : Nat) (hasExt isAligned : Bool) :
    Except Fault (Unpacked Nat) :=
  if hasExt then
    let ext := bref.unpack 8 0 1
    if ext.code = .success then unpackPrefix old ext.bref lb ub (ext.val ≠ 0) isAligned
    else .ok ⟨ext.code, old, ext.bref⟩
  else unpackPrefix old bref lb ub false isAligned

def unpackRest : Nat → List Byte → BitRef → Unpacked (List Byte)
  | 0, buf, bref => ⟨.success, buf, bref⟩
  | k + 1, buf, bref =>
    let r := bref.unpack 8 (byteAt buf k) 8
    let buf := buf.set k (UInt8.ofNat r.val)
    r.handle buf fun _ bref => unpackRest k buf bref

def unpackBitfield (buf : List Byte) (bref : BitRef) (n lb ub : Nat) (isAligned : Bool) : Unpacked (List Byte) :=
  if n > asn64K then ⟨.decodeFail, buf, bref⟩
  else if n = 0 then ⟨.success, buf, bref⟩
  else
    let nOcts := ceilFrac n 8
    let offset := (n - 1) % 8 + 1
    let r := (bitfieldStart bref lb ub isAligned).unpack 8 (byteAt buf (nOcts - 1)) offset
    let buf := buf.set (nOcts - 1) (UInt8.ofNat r.val)
    r.handle buf fun _ bref => unpackRest (nOcts - 1) buf bref

def fromNumber (ptr : List Byte) (number nbits : Nat) : List Byte :=
  if nbits > 64 then ptr
  else
    let nofBytes := ceilFrac nbits 8
    let octets := (List.range nofBytes).map fun i => UInt8.ofNat (number >>> (i * 8) &&& 0xFF)
    let offset := nbits % 8
    let octets :=
      if offset > 0 then octets.set (nofBytes - 1) (UInt8.ofNat (byteAt octets (nofBytes - 1) &&& 2 ^ offset - 1))
      else octets
    octets ++ ptr.drop nofBytes

/-- `ptr[i] << (i * 8u)`, where the octet is promoted to `int`: the result is converted back to `int`. -/
def shiftOctet (octet i : Nat) : Except Fault Int :=
  if i * 8 ≥ 32 then .error .undefinedBehaviour else .ok ((⟨.w32, true⟩ : IntType).reduce (octet * 2 ^ (i * 8)))

def sumOctets (ptr : List Byte) : Nat → Except Fault Nat
  | 0 => .ok 0
  | n + 1 => do
    let val ← sumOctets ptr n
    let shifted ← shiftOctet (byteAt ptr n) n
    pure (u64 (val + shifted))

def toNumber (ptr : List Byte) (nbits : Nat) : Except Fault Nat :=
  if nbits > 64 then .ok 0 else sumOctets ptr (ceilFrac nbits 8)

section Octets
variable {bref start : BitRef} {buf data : List Byte} {k n : Nat}

def octetsValue (data : List Byte) : Nat → Nat
  | 0 => 0
  | k + 1 => byteAt data k * 2 ^ (8 * k) + octetsValue data k

theorem byteAt_lt (data : List Byte) (i : Nat) : byteAt data i < 256 := (data.getD i 0).toNat_lt

theorem octetsValue_lt (data : List Byte) (k : Nat) : octetsValue data k < 2 ^ (8 * k) := by
  induction k with
  | zero => exact Nat.one_pos
  | succ k ih =>
    have octet := byteAt_lt data k
    rw [mul_succ, Nat.pow_add]
    calc
      _ < byteAt data k * 2 ^ (8 * k) + 2 ^ (8 * k) := Nat.add_lt_add_left ih _
      _ = (byteAt data k + 1) * 2 ^ (8 * k) := by ring
      _ ≤ 2 ^ 8 * 2 ^ (8 * k) := Nat.mul_le_mul_right _ octet
      _ = _ := Nat.mul_comm _ _

theorem packRest_packs (data : List Byte) (k : Nat) (bref : BitRef) :
    Packs bref (8 * k) (octetsValue data k) (packRest data k bref) := by
  induction k generalizing bref with
  | zero => exact Packs.nothing bref 0
  | succ k ih =>
    have written := (pack_packs bref (byteAt data k) 8 (by decide)).handle fun mid _ => ih mid
    rw [mod_eq_of_lt (octetsValue_lt data k), mod_eq_of_lt (show byteAt data k < 2 ^ 8 from byteAt_lt data k),
      Nat.add_comm 8] at written
    exact written

theorem byteAt_set_self {v : Nat} (inside : k < buf.length) (small : v < 256) :
    byteAt (buf.set k (UInt8.ofNat v)) k = v := by
  rw [byteAt, getD_eq_getElem?_getD, List.getElem?_set_self inside, Option.getD_some,
    UInt8.toNat_ofNat_of_lt' small]

theorem byteAt_set_ne {i : Nat} (differ : k ≠ i) (b : Byte) : byteAt (buf.set k b) i = byteAt buf i := by
  rw [byteAt, byteAt, getD_eq_getElem?_getD, getD_eq_getElem?_getD, List.getElem?_set_ne differ]

theorem unpackRest_reads (inside : k ≤ buf.length) (fits : 8 * k ≤ start.rest)
    (written : field (bit start.buf) start.pos (8 * k) = octetsValue data k) :
    ∃ out, unpackRest k buf start = ⟨.success, out, start.moved (8 * k)⟩ ∧ out.length = buf.length ∧
      (∀ i < k, byteAt out i = byteAt data i) ∧ ∀ i, k ≤ i → byteAt out i = byteAt buf i := by
  induction k generalizing buf start with
  | zero => exact ⟨buf, by rw [unpackRest, moved_zero], rfl, by simp, fun _ _ => rfl⟩
  | succ k ih =>
    rw [mul_succ, Nat.add_comm (8 * k) 8] at fits written ⊢
    obtain ⟨octet, behind⟩ := field_split (octetsValue_lt data k) written
    have small := byteAt_lt data k
    rw [← moved_pos] at behind
    obtain ⟨out, result, length, read, kept⟩ := @ih (start.moved 8) (buf.set k (UInt8.ofNat (byteAt data k)))
      (by rw [length_set]; omega) (by rw [rest_moved]; omega) behind
    refine ⟨out, ?_, length.trans length_set, fun i lt => ?_, fun i le => ?_⟩
    · rw [unpackRest, unpack_of_field (by decide) (by omega) octet]
      simp only [Unpacked.handle, if_true]
      rw [result, moved_moved]
    · by_cases last : i = k
      · rw [last, kept k le_rfl, byteAt_set_self (by omega) small]
      · exact read i (by omega)
    · rw [kept i (by omega), byteAt_set_ne (by omega)]

theorem unpackRest_success (ok : (unpackRest k buf start).code = .success) :
    (unpackRest k buf start).bref = start.moved (8 * k) := by
  induction k generalizing buf start with
  | zero => rw [moved_zero, unpackRest]
  | succ k ih =>
    rw [unpackRest] at ok ⊢
    by_cases read : (start.unpack 8 (byteAt buf k) 8).code = .success
    · simp only [Unpacked.handle, if_pos read] at ok ⊢
      rw [ih ok, unpack_of_success read, moved_moved, mul_succ, Nat.add_comm]
    · simp only [Unpacked.handle, if_neg read] at ok
      exact absurd ok read

end Octets

section Bitfield
variable {bref : BitRef} {buf data : List Byte} {n lb ub : Nat} {isAligned : Bool}

theorem get_eq (ptr : List Byte) (idx : Nat) : get ptr idx = (byteAt ptr (idx / 8)).testBit (idx % 8) := by
  rw [get, and_two_pow]
  cases (byteAt ptr (idx / 8)).testBit (idx % 8) with
  | false => simp
  | true => simp

def bitsValue (data : List Byte) (n : Nat) : Nat :=
  byteAt data (ceilFrac n 8 - 1) % 2 ^ ((n - 1) % 8 + 1) * 2 ^ (8 * (ceilFrac n 8 - 1)) +
    octetsValue data (ceilFrac n 8 - 1)

theorem bits_split (pos : n ≠ 0) : (n - 1) % 8 + 1 + 8 * (ceilFrac n 8 - 1) = n := by
  unfold ceilFrac
  omega

theorem packBitfield_packs (pos : n ≠ 0) :
    Packs (bitfieldStart bref lb ub isAligned) n (bitsValue data n) (packBitfield bref data n lb ub isAligned) := by
  rw [packBitfield, if_neg pos]
  have written := (pack_packs (bitfieldStart bref lb ub isAligned) (byteAt data (ceilFrac n 8 - 1)) ((n - 1) % 8 + 1)
    (by omega)).handle fun mid _ => packRest_packs data (ceilFrac n 8 - 1) mid
  rw [mod_eq_of_lt (octetsValue_lt data _), bits_split pos] at written
  exact written

theorem unpackBitfield_reads (pos : n ≠ 0) (le : n ≤ asn64K) (octets : ceilFrac n 8 ≤ buf.length)
    (fits : n ≤ (bitfieldStart bref lb ub isAligned).rest)
    (written : field (bit (bitfieldStart bref lb ub isAligned).buf) (bitfieldStart bref lb ub isAligned).pos n =
      bitsValue data n) :
    ∃ out, unpackBitfield buf bref n lb ub isAligned =
        ⟨.success, out, (bitfieldStart bref lb ub isAligned).moved n⟩ ∧
      ∀ i < n, get out i = get data i := by
  rw [unpackBitfield, if_neg (by omega), if_neg pos]
  dsimp only
  generalize bitfieldStart bref lb ub isAligned = start at fits written
  have positive : 0 < ceilFrac n 8 := by
    unfold ceilFrac
    omega
  have bits := bits_split pos
  obtain ⟨octet, behind⟩ := field_split (octetsValue_lt data _) ((congrArg _ bits).trans written)
  rw [← moved_pos, ← moved_buf start] at behind
  have small : byteAt data (ceilFrac n 8 - 1) % 2 ^ ((n - 1) % 8 + 1) < 256 :=
    (mod_le _ _).trans_lt (byteAt_lt data _)
  have inside : ceilFrac n 8 - 1 ≤ (buf.set (ceilFrac n 8 - 1)
      (UInt8.ofNat (byteAt data (ceilFrac n 8 - 1) % 2 ^ ((n - 1) % 8 + 1)))).length := by
    rw [length_set]
    omega
  obtain ⟨out, result, length, read, kept⟩ := unpackRest_reads inside (by rw [rest_moved]; omega) behind
  refine ⟨out, ?_, fun i lt => ?_⟩
  · rw [unpack_of_field (by omega) (by omega) octet]
    simp only [Unpacked.handle, if_true]
    rw [result, moved_moved, bits]
  · rw [get_eq, get_eq]
    by_cases last : i / 8 = ceilFrac n 8 - 1
    · have bound : i % 8 < (n - 1) % 8 + 1 := by omega
      rw [last, kept _ le_rfl, byteAt_set_self (by omega) small]
      simp [bound]
    · rw [read _ (by unfold ceilFrac at last ⊢; omega)]

theorem unpackBitfield_success (pos : n ≠ 0) (ok : (unpackBitfield buf bref n lb ub isAligned).code = .success) :
    n ≤ asn64K ∧ (unpackBitfield buf bref n lb ub isAligned).bref =
      (bitfieldStart bref lb ub isAligned).moved n := by
  rw [unpackBitfield] at ok ⊢
  by_cases large : n > asn64K
  · rw [if_pos large] at ok
    cases ok
  rw [if_neg large, if_neg pos] at ok ⊢
  refine ⟨Nat.le_of_not_lt large, ?_⟩
  generalize bitfieldStart bref lb ub isAligned = start at ok
  by_cases read : (start.unpack 8 (byteAt buf (ceilFrac n 8 - 1)) ((n - 1) % 8 + 1)).code = .success
  · simp only [Unpacked.handle, if_pos read] at ok ⊢
    rw [unpackRest_success ok, unpack_of_success read, moved_moved, bits_split pos]
  · simp only [Unpacked.handle, if_neg read] at ok
    exact absurd ok read

end Bitfield

section Number
variable {ptr : List Byte} {number nbits n : Nat}

theorem shiftOctet_small {octet i : Nat} (few : i < 3) (lt : octet < 256) :
    shiftOctet octet i = .ok ((octet * 2 ^ (i * 8) : Nat) : Int) := by
  have bound : octet * 2 ^ (i * 8) < 2 ^ 24 := by
    calc
      _ < 2 ^ 8 * 2 ^ (i * 8) := Nat.mul_lt_mul_of_pos_right lt (Nat.two_pow_pos _)
      _ = 2 ^ (8 + i * 8) := (Nat.pow_add _ _ _).symm
      _ ≤ 2 ^ 24 := Nat.pow_le_pow_right (by decide) (by omega)
  rw [shiftOctet, if_neg (by omega)]
  have cast : ((octet : Int) * 2 ^ (i * 8)) = ((octet * 2 ^ (i * 8) : Nat) : Int) := by
    rfl
  rw [cast, IntType.reduce_of_mem]
  · exact (show (-2 ^ 31 : Int) ≤ _ by omega)
  · exact (show _ ≤ (2 ^ 31 - 1 : Int) by omega)

theorem sumOctets_small (few : n ≤ 3) : sumOctets ptr n = .ok (octetsValue ptr n) := by
  induction n with
  | zero => rfl
  | succ n ih =>
    have lt := octetsValue_lt ptr (n + 1)
    have most : 2 ^ (8 * (n + 1)) ≤ 2 ^ 24 := Nat.pow_le_pow_right (by decide) (by omega)
    rw [sumOctets, ih (by omega), shiftOctet_small (by omega) (byteAt_lt ptr n)]
    change Except.ok (u64 _) = _
    rw [octetsValue, Nat.mul_comm 8 n] at lt ⊢
    unfold u64
    congr 1
    omega

theorem octetsValue_of_digits (digits : ∀ i < n, byteAt ptr i = number / 2 ^ (8 * i) % 256) :
    octetsValue ptr n = number % 2 ^ (8 * n) := by
  induction n with
  | zero => simp [octetsValue, mod_one]
  | succ n ih =>
    rw [octetsValue, digits n (lt_succ_self n), ih fun i lt => digits i (lt_succ_of_lt lt), mul_succ,
      Nat.pow_add, mod_mul, Nat.mul_comm, Nat.add_comm]

theorem byteAt_append {a b : List Byte} {i : Nat} (lt : i < a.length) : byteAt (a ++ b) i = byteAt a i := by
  rw [byteAt, byteAt, getD_append _ _ _ _ lt]

theorem byteAt_digits {i : Nat} (lt : i < n) :
    byteAt ((List.range n).map fun i => UInt8.ofNat (number >>> (i * 8) &&& 0xFF)) i = number / 2 ^ (8 * i) % 256 := by
  have masked : number >>> (i * 8) &&& 0xFF = number / 2 ^ (8 * i) % 256 := by
    rw [Nat.shiftRight_eq_div_pow, Nat.mul_comm]
    exact Nat.and_two_pow_sub_one_eq_mod _ 8
  have small : number / 2 ^ (8 * i) % 256 < UInt8.size := Nat.mod_lt _ (by decide)
  rw [byteAt, getD_eq_getElem?_getD, List.getElem?_map, List.getElem?_range lt, Option.map_some, Option.getD_some,
    masked, UInt8.toNat_ofNat_of_lt' small]

theorem byteAt_fromNumber {i : Nat} (few : nbits ≤ 64) (fits : number < 2 ^ nbits) (lt : i < ceilFrac nbits 8) :
    byteAt (fromNumber ptr number nbits) i = number / 2 ^ (8 * i) % 256 := by
  rw [fromNumber, if_neg (by omega)]
  dsimp only
  split
  · rename_i partly
    rw [byteAt_append (by rw [length_set, length_map, length_range]; exact lt)]
    by_cases last : i = ceilFrac nbits 8 - 1
    · have top : number / 2 ^ (8 * i) < 2 ^ (nbits % 8) := by
        rw [Nat.div_lt_iff_lt_mul (Nat.two_pow_pos _), ← Nat.pow_add]
        have total : nbits % 8 + 8 * i = nbits := by
          unfold ceilFrac at last lt
          omega
        rwa [total]
      have octet : 2 ^ (nbits % 8) ≤ 2 ^ 8 := Nat.pow_le_pow_right (by decide) (by omega)
      rw [byteAt_digits (last ▸ lt), ← last, mod_eq_of_lt (by omega), Nat.and_two_pow_sub_one_eq_mod,
        mod_eq_of_lt top, byteAt_set_self (by rw [length_map, length_range]; exact lt) (by omega)]
    · rw [byteAt_set_ne (Ne.symm last), byteAt_digits lt]
  · rw [byteAt_append (by rw [length_map, length_range]; exact lt), byteAt_digits lt]

theorem sumOctets_fromNumber (few : nbits ≤ 64) (fits : number < 2 ^ nbits) (le : n ≤ ceilFrac nbits 8)
    (small : n ≤ 3) : sumOctets (fromNumber ptr number nbits) n = .ok (number % 2 ^ (8 * n)) := by
  rw [sumOctets_small small, octetsValue_of_digits fun i lt => byteAt_fromNumber few fits (by omega)]

theorem sumOctets_four (few : nbits ≤ 64) (fits : number < 2 ^ nbits) (le : 4 ≤ ceilFrac nbits 8) :
    sumOctets (fromNumber ptr number nbits) 4 =
      .ok (u64 (number % 2 ^ 24 + (⟨.w32, true⟩ : IntType).reduce ((number / 2 ^ 24 % 256 : Nat) * 2 ^ 24))) := by
  rw [sumOctets, sumOctets_fromNumber few fits (by omega) le_rfl, byteAt_fromNumber few fits (by omega)]
  rfl

theorem sumOctets_shift (many : 4 < n) : ∃ fault, sumOctets ptr n = .error fault := by
  induction n with
  | zero => omega
  | succ n ih =>
    rw [sumOctets]
    cases before : sumOctets ptr n with
    | error fault => exact ⟨fault, rfl⟩
    | ok val =>
      rw [shiftOctet, if_pos (by omega)]
      exact ⟨.undefinedBehaviour, rfl⟩

theorem toNumber_fromNumber_iff (ptr : List Byte) (few : nbits ≤ 64) (fits : number < 2 ^ nbits) :
    toNumber (fromNumber ptr number nbits) nbits = .ok number ↔ nbits ≤ 32 ∧ number < 2 ^ 31 := by
  rw [toNumber, if_neg (by omega)]
  by_cases short : nbits ≤ 32
  · have bound : number < 2 ^ 32 := fits.trans_le (Nat.pow_le_pow_right (by decide) short)
    by_cases three : ceilFrac nbits 8 ≤ 3
    · have bits : nbits ≤ 8 * ceilFrac nbits 8 := by
        unfold ceilFrac
        omega
      have small : nbits ≤ 24 := by
        omega
      have below : number < 2 ^ 24 := fits.trans_le (Nat.pow_le_pow_right (by decide) small)
      rw [sumOctets_fromNumber few fits le_rfl three,
        mod_eq_of_lt (fits.trans_le (Nat.pow_le_pow_right (by decide) bits))]
      exact iff_of_true rfl (by omega)
    · have four : ceilFrac nbits 8 = 4 := by
        unfold ceilFrac at three ⊢
        omega
      rw [four, sumOctets_four few fits four.ge, Except.ok.injEq]
      unfold IntType.reduce IntType.min u64
      simp only [IntType.bits, IntWidth.bits, if_true]
      omega
  · have many : 4 < ceilFrac nbits 8 := by
      unfold ceilFrac
      omega
    obtain ⟨fault, broken⟩ := @sumOctets_shift (fromNumber ptr number nbits) _ many
    rw [broken]
    exact iff_of_false (by simp) (by omega)

end Number

end IsrRan.Asn1.BitstringUtils
