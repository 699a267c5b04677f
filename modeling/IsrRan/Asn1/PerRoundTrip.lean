import IsrRan.Asn1.WholeNumber

namespace IsrRan.Asn1
open BitRef Lib Nat

section Length
variable {bref start : BitRef} {val old : Nat} {aligned : Bool}

theorem alignBytes_packs (bref : BitRef) :
    Packs bref bref.pad (field (bit bref.buf) bref.pos bref.pad) bref.alignBytes := by
  rw [alignBytes_eq]
  split
  · rename_i fits
    exact ⟨by simp [fits], rfl, fun _ _ => rfl, (moved_pos _ _).le, fun _ => moved_pos _ _,
      fun _ => (mod_eq_of_lt (field_lt _ _ _)).symm⟩
  · rename_i exceeds
    exact ⟨by simp [exceeds], rfl, fun _ _ => rfl, Nat.le_add_right _ _, by simp, by simp⟩

def packOctets (bref : BitRef) (val : Nat) : Packed :=
  if val < 128 then bref.pack val 8 else (bref.pack 0b10 2).handle fun bref => bref.pack val 14

def octetBits (val : Nat) : Nat := if val < 128 then 8 else 16

def octetValue (val : Nat) : Nat := if val < 128 then val else 2 * 2 ^ 14 + val

theorem packs_length (small : val < asn16K) (bref : BitRef) :
    Packs bref (octetBits val) (octetValue val) (packOctets bref val) := by
  unfold packOctets octetBits octetValue
  split
  · exact pack_packs bref val 8 (by decide)
  · have written := (pack_packs bref 0b10 2 (by decide)).handle fun mid _ => pack_packs mid val 14 (by decide)
    unfold asn16K at small
    rw [mod_eq_of_lt (show val < 2 ^ 14 by omega)] at written
    exact written

theorem octetValue_lt (small : val < asn16K) : octetValue val < 2 ^ octetBits val := by
  unfold asn16K at small
  unfold octetValue octetBits
  split <;> omega

theorem reads_unaligned (small : val < asn16K) (fits : octetBits val ≤ start.rest)
    (written : field (bit start.buf) start.pos (octetBits val) = octetValue val) :
    unpackLength old start false = ⟨.success, val, start.moved (octetBits val)⟩ := by
  unfold asn16K at small
  unfold octetBits octetValue at *
  rw [unpackLength]
  by_cases short : val < 128
  · rw [if_pos short] at fits
    rw [if_pos short, if_pos short] at written
    obtain ⟨ext, value⟩ := field_split (m := 1) (n := 7) (u := 0) short (written.trans (Nat.zero_add val).symm)
    have first := unpack_of_field (show 1 ≤ 8 by decide) (show 1 ≤ start.rest by omega) ext 0
    have number := unpack_of_moved (show 7 ≤ 32 by decide) (show 1 + 7 ≤ start.rest by omega) value old
    simp only [first, Unpacked.handle, if_true, number, if_pos short]
  · rw [if_neg short] at fits
    rw [if_neg short, if_neg short] at written
    obtain ⟨ext, behind⟩ := field_split (m := 1) (n := 15) (u := 1) (show val < 2 ^ 15 by omega)
      (written.trans (by omega))
    obtain ⟨ext', value⟩ := field_split (m := 1) (n := 14) (u := 0) (show val < 2 ^ 14 by omega)
      (behind.trans (by omega))
    have first := unpack_of_field (show 1 ≤ 8 by decide) (show 1 ≤ start.rest by omega) ext 0
    have second := unpack_of_moved (show 1 ≤ 8 by decide) (show 1 + 1 ≤ start.rest by omega) ext' 1
    have number := unpack_of_moved (show 14 ≤ 32 by decide) (show 1 + 1 + 14 ≤ start.rest by omega) value old
    simp only [first, second, Unpacked.handle, if_true, Nat.one_ne_zero, if_false, number, if_neg short]

theorem reads_aligned (small : val < asn16K) (fits : start.pad + octetBits val ≤ start.rest)
    (written : field (bit start.buf) (start.pos + start.pad) (octetBits val) = octetValue val) :
    unpackLength old start true = ⟨.success, val, start.moved (start.pad + octetBits val)⟩ := by
  unfold asn16K at small
  rw [unpackLength, if_neg (by decide), alignBytes_eq, if_pos (by omega), Packed.unpacking]
  unfold octetBits octetValue at *
  by_cases short : val < 128
  · rw [if_pos short] at fits
    rw [if_pos short] at written
    have number := unpack_of_moved (show 8 ≤ 32 by decide) fits written old
    simp only [number, Unpacked.handle, if_true, if_pos short]
  · rw [if_neg short] at fits
    rw [if_neg short, if_neg short] at written
    obtain ⟨high, low⟩ := field_split (m := 8) (n := 8) (u := 128 + val / 256) (w := val % 256)
      (show val % 256 < 2 ^ 8 from mod_lt _ (by decide)) (written.trans (by omega))
    have first := unpack_of_moved (show 8 ≤ 32 by decide) (show start.pad + 8 ≤ start.rest by omega) high old
    have second := unpack_of_moved (show 8 ≤ 32 by decide) (show start.pad + 8 + 8 ≤ start.rest by omega) low 0
    have large : ¬128 + val / 256 < 128 := by omega
    have few : 128 + val / 256 - 128 < 64 := by omega
    have whole : (128 + val / 256 - 128) * 256 + val % 256 = val := by omega
    simp only [first, Unpacked.handle, if_true, if_neg large, if_pos few, second, whole, if_neg short]

def lengthBits (bref : BitRef) (val : Nat) (aligned : Bool) : Nat :=
  if aligned then bref.pad + octetBits val else octetBits val

theorem packLength_unaligned (small : val < asn16K) (bref : BitRef) :
    packLength bref val false = packOctets bref val := by
  rw [packLength, if_pos small]
  rfl

theorem packLength_aligned (small : val < asn16K) (bref : BitRef) :
    packLength bref val true = bref.alignBytes.handle fun bref => packOctets bref val := by
  have le : ¬val > asn64K := by
    unfold asn16K at small
    unfold asn64K
    omega
  rw [packLength, if_neg le]
  simp only [if_pos small]
  rfl

theorem length_exact (small : val < asn16K) (bref : BitRef) (aligned : Bool) :
    ∃ v, Exact val bref (fun bref => .ok (packLength bref val aligned))
      (fun old bref => .ok (unpackLength old bref aligned)) (lengthBits bref val aligned) v := by
  have octets := octetValue_lt small
  cases aligned with
  | false =>
    refine ⟨octetValue val, Exact.of_packs (fun other _ => ⟨_, rfl, ?_⟩) (fun old start _ fits written => ?_)⟩
    · rw [packLength_unaligned small]
      exact packs_length small other
    · exact congrArg _ (reads_unaligned small fits (written.trans (mod_eq_of_lt octets)))
  | true =>
    have packed (other : BitRef) := (alignBytes_packs other).handle fun mid _ => packs_length small mid
    refine ⟨field (bit bref.buf) bref.pos bref.pad % 2 ^ bref.pad * 2 ^ octetBits val +
      octetValue val % 2 ^ octetBits val, ⟨_, rfl, ?_⟩, fun other s same result _ => ?_,
      fun old start same fits written => ?_⟩
    · rw [packLength_aligned small]
      exact packed bref
    · obtain rfl := Except.ok.inj result
      rw [packLength_aligned small]
      have most := (packed other).pos_le
      rw [pad_congr same, same] at most
      exact most
    · obtain ⟨-, value⟩ := field_split_mod written
      rw [mod_eq_of_lt octets] at value
      unfold lengthBits at fits ⊢
      rw [← pad_congr same] at fits ⊢
      rw [← pad_congr same] at value
      exact congrArg _ (reads_aligned small fits value)

theorem fragment_packs (large : ¬val < asn16K) (le : val ≤ asn64K) (bref : BitRef) :
    ∃ w, Packs bref (bref.pad + (2 + (6 + 16)))
      (field (bit bref.buf) bref.pos bref.pad % 2 ^ bref.pad * 2 ^ (2 + (6 + 16)) +
        (0b11 % 2 ^ 2 * 2 ^ (6 + 16) + w % 2 ^ (6 + 16)) % 2 ^ (2 + (6 + 16))) (packLength bref val true) := by
  have short : ¬val < 128 := by
    unfold asn16K at large
    omega
  rw [packLength, if_neg (by decide), if_neg (by omega)]
  simp only [if_neg large, if_neg short]
  exact ⟨_, (alignBytes_packs bref).handle fun mid _ =>
    (pack_packs mid 0b11 2 (by decide)).handle fun mid' _ =>
    (pack_packs mid' (val / asn16K) 6 (by decide)).handle fun mid'' _ => pack_packs mid'' _ 16 (by decide)⟩

theorem fragment_not_read {f w : Nat} (fits : start.pad + (2 + (6 + 16)) ≤ start.rest)
    (written : field (bit start.buf) start.pos (start.pad + (2 + (6 + 16))) =
      (f % 2 ^ start.pad * 2 ^ (2 + (6 + 16)) + (0b11 % 2 ^ 2 * 2 ^ (6 + 16) + w % 2 ^ (6 + 16)) %
        2 ^ (2 + (6 + 16))) % 2 ^ (start.pad + (2 + (6 + 16)))) (old : Nat) :
    (unpackLength old start true).code ≠ .success := by
  obtain ⟨-, header⟩ := field_split_mod written
  obtain ⟨mark, -⟩ := field_split_mod header
  have octet : field (bit start.buf) (start.pos + start.pad) 8 ≥ 192 := by
    change field (bit start.buf) (start.pos + start.pad) (2 + 6) ≥ 192
    rw [field_add]
    omega
  have number := unpack_of_moved (show 8 ≤ 32 by decide) (show start.pad + 8 ≤ start.rest by omega) rfl old
  rw [unpackLength, if_neg (by decide), alignBytes_eq, if_pos (by omega), Packed.unpacking]
  simp only [number, Unpacked.handle, if_true]
  rw [if_neg (by omega), if_neg (by omega)]
  simp

def LengthFits (rest pad val : Nat) (aligned : Bool) : Prop :=
  if val < asn16K then (if aligned then pad else 0) + octetBits val ≤ rest
  else aligned = true ∧ val ≤ asn64K ∧ pad + 24 ≤ rest

theorem packLength_code (bref : BitRef) (val : Nat) (aligned : Bool) :
    (packLength bref val aligned).code = .success ↔ LengthFits bref.rest bref.pad val aligned := by
  unfold LengthFits
  by_cases small : val < asn16K
  · obtain ⟨v, exactly⟩ := length_exact small bref aligned
    obtain ⟨r, result, packed⟩ := exactly.packs
    obtain rfl := Except.ok.inj result
    rw [if_pos small, packed.code]
    cases aligned <;> simp [lengthBits]
  · rw [if_neg small]
    cases aligned with
    | false =>
      have short : ¬val < 128 := fun short => small (short.trans (by decide))
      simp [packLength, if_neg small, if_neg short]
    | true =>
      by_cases le : val ≤ asn64K
      · obtain ⟨w, packed⟩ := fragment_packs small le bref
        rw [packed.code]
        simp [le]
      · simp [packLength, lt_of_not_ge le]

theorem fragment_unread (large : ¬val < asn16K) (fits : LengthFits bref.rest bref.pad val aligned) :
    let r := packLength bref val aligned
    r.bref.buf.length = bref.buf.length ∧ (∀ i < bref.pos, bit r.bref.buf i = bit bref.buf i) ∧
      ∀ old, (unpackLength old { bref with buf := r.bref.buf } aligned).code ≠ .success := by
  intro r
  have ok : r.code = .success := (packLength_code bref val aligned).mpr fits
  unfold LengthFits at fits
  rw [if_neg large] at fits
  obtain ⟨rfl, le, inside⟩ := fits
  obtain ⟨w, packed⟩ := fragment_packs large le bref
  refine ⟨packed.length, packed.before, fun old => ?_⟩
  obtain ⟨begun, fits, written⟩ := packed.restart ok rfl
  exact fragment_not_read fits written old

theorem length_settled (bref : BitRef) (val : Nat) (aligned : Bool) :
    Settled val bref (fun bref => .ok (packLength bref val aligned))
      (fun old bref => .ok (unpackLength old bref aligned))
      (val < asn16K ∨ ¬LengthFits bref.rest bref.pad val aligned) := by
  constructor
  · rintro (small | exceeds)
    · obtain ⟨v, exactly⟩ := length_exact small bref aligned
      exact Or.inl ⟨_, v, exactly⟩
    · exact Or.inr ⟨_, rfl, fun ok => exceeds ((packLength_code bref val aligned).mp ok)⟩
  · intro fails
    rw [not_or, not_not] at fails
    obtain ⟨large, fits⟩ := fails
    obtain ⟨length, before, unread⟩ := fragment_unread large fits
    refine Or.inr ⟨_, rfl, (packLength_code bref val aligned).mpr fits, length, before, 0, fun read => ?_⟩
    exact unread 0 (congrArg Unpacked.code (Except.ok.inj read))

end Length

section Bounded
variable {ty : IntType}

def lengthOf (n : ty.Value) : Nat := u64 n.val % 2 ^ 32

def LengthInMeets (ty : IntType) (rest pad : Nat) (n lb ub : ty.Value) (aligned : Bool) : Prop :=
  if ub.val ≥ asn64K then
    ¬LengthFits rest pad (lengthOf n) aligned ∨ lengthOf n < asn16K ∧ (lengthOf n : Int) = n.val
  else ConstrainedMeets ty rest pad n lb ub aligned

theorem ofInt_lengthOf {n ub : ty.Value} (wide : ub.val ≥ asn64K) (small : lengthOf n < asn16K) :
    (ty.ofInt (lengthOf n)).val = lengthOf n := by
  have low := ty.min_le_zero
  unfold asn64K at wide
  unfold asn16K at small
  exact IntType.reduce_of_mem (by omega) (by omega)

theorem lengthIn_settled (bref : BitRef) (n lb ub : ty.Value) (aligned : Bool) :
    Settled n bref (fun bref => packLengthIn ty bref n lb ub aligned)
      (fun old bref => unpackLengthIn ty old bref lb ub aligned)
      (LengthInMeets ty bref.rest bref.pad n lb ub aligned) := by
  unfold LengthInMeets packLengthIn unpackLengthIn
  by_cases wide : ub.val ≥ asn64K
  · simp only [if_pos wide]
    constructor
    · rintro (exceeds | ⟨small, same⟩)
      · exact Or.inr ⟨_, rfl, fun ok => exceeds ((packLength_code bref _ aligned).mp ok)⟩
      · obtain ⟨v, exactly⟩ := length_exact small bref aligned
        refine Or.inl ⟨_, v, exactly.packs, exactly.most, fun old start begun fits written => ?_⟩
        have read := Except.ok.inj (exactly.reads 0 start begun fits written)
        have back : ty.ofInt (lengthOf n) = n := Subtype.ext ((ofInt_lengthOf wide small).trans same)
        rw [read, back]
    · intro fails
      rw [not_or, not_not] at fails
      obtain ⟨fits, differs⟩ := fails
      have ok := (packLength_code bref (lengthOf n) aligned).mpr fits
      by_cases small : lengthOf n < asn16K
      · obtain ⟨v, exactly⟩ := length_exact small bref aligned
        obtain ⟨r, result, returned⟩ := exactly.roundTrips
        obtain rfl := Except.ok.inj result
        obtain ⟨s, result', packed⟩ := exactly.packs
        obtain rfl := Except.ok.inj result'
        refine Or.inr ⟨_, rfl, ok, packed.length, packed.before, n, fun read => differs ⟨small, ?_⟩⟩
        have number := congrArg Unpacked.val (Except.ok.inj ((returned ok).unpacked 0))
        have same := congrArg Unpacked.val (Except.ok.inj read)
        have back : (ty.ofInt (lengthOf n)).val = n.val :=
          (congrArg (fun m : Nat => (ty.ofInt m).val) number.symm).trans (congrArg Subtype.val same)
        exact (ofInt_lengthOf wide small).symm.trans back
      · obtain ⟨length, before, unread⟩ := fragment_unread small fits
        exact Or.inr ⟨_, rfl, ok, length, before, n, fun read =>
          unread 0 (congrArg Unpacked.code (Except.ok.inj read))⟩
  · simp only [if_neg wide]
    exact constrained_settled bref n lb ub aligned

end Bounded

section Enum
variable {bref : BitRef} {e nofTypes nofExts : Nat} {hasExt : Bool}

theorem packNormSmall_exact {n : Nat} (small : n ≤ 63) (bref : BitRef) :
    Packs bref 7 n (packNormSmallNonNegWholeNumber bref n) := by
  rw [packNormSmallNonNegWholeNumber, if_pos small]
  exact pack_packs bref n 7 (by decide)

theorem reads_normSmall {start : BitRef} {n k : Nat} (small : n ≤ 63) (fits : k + 7 ≤ start.rest)
    (written : field (bit start.buf) (start.pos + k) 7 = n) (old : Nat) :
    unpackNormSmallNonNegWholeNumber old (start.moved k) = ⟨.success, n, start.moved (k + 7)⟩ := by
  obtain ⟨ext, value⟩ := field_split (m := 1) (n := 6) (u := 0) (show n < 2 ^ 6 by omega)
    (written.trans (by omega))
  have first := unpack_of_moved (show 1 ≤ 8 by decide) (show k + 1 ≤ start.rest by omega) ext 0
  have number := unpack_of_moved (show 6 ≤ 32 by decide) (show k + 1 + 6 ≤ start.rest by omega) value old
  simp only [unpackNormSmallNonNegWholeNumber, first, Unpacked.handle, if_true, number]

def EnumMeets (e nofTypes nofExts : Nat) (hasExt : Bool) : Prop :=
  nofTypes ≤ e ∨ hasExt = false ∨ nofTypes ≠ nofExts

theorem ceilLog2_le_32 {x : Nat} (pos : 0 < x) (lt : x < 2 ^ 32) : ceilLog2 x ≤ 32 :=
  (ceilLog2_le_iff pos).mpr (Nat.le_of_lt lt)

theorem u32Sub_eq_zero_iff (types : nofTypes < 2 ^ 32) (exts : nofExts < 2 ^ 32) :
    u32Sub nofTypes nofExts = 0 ↔ nofTypes = nofExts := by
  unfold u32Sub
  omega

section Inside
variable (inside : e < nofTypes)
include inside

theorem checkEnum_of_lt (bref : BitRef) : checkEnum nofTypes ⟨.success, e, bref⟩ = ⟨.success, e, bref⟩ :=
  if_neg (Nat.not_le_of_lt inside)

theorem enum_root_exact (types : nofTypes < 2 ^ 32) (bref : BitRef) :
    Exact e bref (fun bref => packEnum bref e nofTypes nofExts false)
      (fun _ bref => unpackEnum nofTypes nofExts false bref) (ceilLog2 nofTypes) e := by
  have narrow := ceilLog2_le_32 (zero_lt_of_lt inside) types
  have lt := inside.trans_le (le_two_pow_ceilLog2 (zero_lt_of_lt inside))
  have bits : nofBits nofTypes = .ok (ceilLog2 nofTypes) := if_neg (by omega)
  refine Exact.of_packs (fun other _ => ⟨other.pack e (ceilLog2 nofTypes), ?_, pack_packs other e _ (by omega)⟩)
    (fun _ start _ fits written => ?_)
  · rw [packEnum, if_neg (by omega), bits]
    rfl
  · have number := unpack_of_field narrow fits (written.trans (mod_eq_of_lt lt)) 0
    rw [unpackEnum, bits]
    change Except.ok (checkEnum nofTypes (start.unpack 32 0 (ceilLog2 nofTypes))) = _
    rw [number, checkEnum_of_lt inside]

section Extended
variable {base : Nat} (begins : u32Sub nofTypes nofExts = base) (several : base ≠ 0)
include begins several

theorem packEnum_extended (bref : BitRef) :
    packEnum bref e nofTypes nofExts true = .ok (packEnumExt bref e (ceilLog2 base) base) := by
  have bits : nofBits base = .ok (ceilLog2 base) := if_neg several
  rw [packEnum, if_neg (by omega), begins, bits]
  rfl

omit inside in
theorem unpackEnum_extended {start : BitRef} {flag : Nat}
    (ext : start.unpack 8 0 1 = ⟨.success, flag, start.moved 1⟩) :
    unpackEnum nofTypes nofExts true start =
      if flag = 0 then .ok (checkEnum nofTypes ((start.moved 1).unpack 32 0 (ceilLog2 base)))
      else
        let r := unpackNormSmallNonNegWholeNumber 0 (start.moved 1)
        .ok (checkEnum nofTypes ⟨r.code, (r.val + base) % 2 ^ 32, r.bref⟩) := by
  have bits : nofBits base = .ok (ceilLog2 base) := if_neg several
  rw [unpackEnum, if_pos rfl, begins, bits]
  change (if (start.unpack 8 0 1).code ≠ .success then _ else _) = _
  rw [ext, if_neg (by simp)]
  rfl

theorem enum_before_exact (before : e < base) (bref : BitRef) :
    Exact e bref (fun bref => packEnum bref e nofTypes nofExts true)
      (fun _ bref => unpackEnum nofTypes nofExts true bref) (1 + ceilLog2 base) (0 % 2 ^ 1 * 2 ^ ceilLog2 base +
        e % 2 ^ ceilLog2 base) := by
  have bound : base < 2 ^ 32 := by
    unfold u32Sub at begins
    omega
  have narrow := ceilLog2_le_32 (zero_lt_of_lt before) bound
  have lt := before.trans_le (le_two_pow_ceilLog2 (zero_lt_of_lt before))
  refine Exact.of_packs (fun other _ => ⟨_, packEnum_extended inside begins several other, ?_⟩)
    (fun _ start _ fits written => ?_)
  · have flag : decide (e ≥ base) = false := decide_eq_false (by omega)
    simp only [packEnumExt, flag]
    exact (pack_packs other 0 1 (by decide)).handle fun mid _ => pack_packs mid e _ (by omega)
  · obtain ⟨ext, value⟩ := field_split_mod written
    have first := unpack_of_field (show 1 ≤ 8 by decide) (by omega) ext 0
    have number := unpack_of_moved narrow fits (value.trans (mod_eq_of_lt lt)) 0
    rw [unpackEnum_extended begins several first, if_pos (by decide), number,
      checkEnum_of_lt inside]

theorem enum_behind_exact (types : nofTypes < 2 ^ 32) (behind : base ≤ e) (small : e - base ≤ 63) (bref : BitRef) :
    Exact e bref (fun bref => packEnum bref e nofTypes nofExts true)
      (fun _ bref => unpackEnum nofTypes nofExts true bref) (1 + 7) (1 % 2 ^ 1 * 2 ^ 7 + (e - base) % 2 ^ 7) := by
  refine Exact.of_packs (fun other _ => ⟨_, packEnum_extended inside begins several other, ?_⟩)
    (fun _ start _ fits written => ?_)
  · have flag : decide (e ≥ base) = true := decide_eq_true behind
    simp only [packEnumExt, flag]
    exact (pack_packs other 1 1 (by decide)).handle fun mid _ => packNormSmall_exact small mid
  · obtain ⟨ext, value⟩ := field_split_mod written
    have first := unpack_of_field (show 1 ≤ 8 by decide) (by omega) ext 0
    have number := reads_normSmall small fits (value.trans (mod_eq_of_lt (by omega))) 0
    have back : (e - base + base) % 2 ^ 32 = e := by omega
    rw [unpackEnum_extended begins several first, if_neg (by decide), number]
    dsimp only
    rw [back, checkEnum_of_lt inside]

end Extended
end Inside

theorem enum_settled (types : nofTypes < 2 ^ 32) (exts : nofExts < 2 ^ 32) (e : Nat) (hasExt : Bool) (bref : BitRef) :
    Settled e bref (fun bref => packEnum bref e nofTypes nofExts hasExt)
      (fun _ bref => unpackEnum nofTypes nofExts hasExt bref) (EnumMeets e nofTypes nofExts hasExt) := by
  by_cases inside : e < nofTypes
  · cases hasExt with
    | false => exact ⟨fun _ => Or.inl ⟨_, _, enum_root_exact inside types bref⟩,
        fun fails => absurd (Or.inr (Or.inl rfl)) fails⟩
    | true =>
      by_cases several : u32Sub nofTypes nofExts = 0
      · refine ⟨fun meets => ?_, fun _ => Or.inl ⟨.undefinedBehaviour, ?_⟩⟩
        · have same := (u32Sub_eq_zero_iff types exts).mp several
          unfold EnumMeets at meets
          simp at meets
          omega
        · change packEnum bref e nofTypes nofExts true = _
          rw [packEnum, if_neg (by omega), several]
          rfl
      · have differ := mt (u32Sub_eq_zero_iff types exts).mpr several
        refine ⟨fun _ => ?_, fun fails => absurd (Or.inr (Or.inr differ)) fails⟩
        by_cases before : e < u32Sub nofTypes nofExts
        · exact Or.inl ⟨_, _, enum_before_exact inside rfl several before bref⟩
        by_cases small : e - u32Sub nofTypes nofExts ≤ 63
        · exact Or.inl ⟨_, _, enum_behind_exact inside rfl several types (by omega) small bref⟩
        · refine Or.inr ⟨_, packEnum_extended inside rfl several bref, ?_⟩
          have flag : decide (e ≥ u32Sub nofTypes nofExts) = true := decide_eq_true (by omega)
          simp only [packEnumExt, flag]
          refine handle_failed fun mid => ?_
          rw [packNormSmallNonNegWholeNumber, if_neg small]
          exact handle_failed fun _ => by simp
  · have outside : nofTypes ≤ e := Nat.le_of_not_lt inside
    exact ⟨fun _ => Or.inr ⟨_, if_pos outside, by simp⟩, fun fails => absurd (Or.inl outside) fails⟩

end Enum

section Octets
variable {ty : IntType} {bref start : BitRef} {n lb ub old : ty.Value} {aligned : Bool} {x len : Nat}

def packNumber (bref : BitRef) (x len : Nat) (aligned : Bool) : Packed :=
  if aligned then bref.alignBytesZero.handle fun bref => bref.pack x (len * 8) else bref.pack x (len * 8)

def numberLength (x : Nat) : Nat := ceilFrac (ceilLog2 x + 1) 8

theorem lt_two_pow_numberLength (pos : 0 < x) : x < 2 ^ (numberLength x * 8) := by
  refine (le_two_pow_ceilLog2 pos).trans_lt (Nat.pow_lt_pow_right (by decide) ?_)
  unfold numberLength ceilFrac
  omega

theorem numberLength_lt (pos : 0 < x) (lt : x < 2 ^ 64) : numberLength x < 128 := by
  have := (ceilLog2_le_iff pos).mpr (Nat.le_of_lt lt)
  unfold numberLength ceilFrac
  omega

theorem packNumber_packs (few : len * 8 < 64) (started : aligned = true → bref.pad = 0) :
    Packs bref (len * 8) x (packNumber bref x len aligned) := by
  cases aligned with
  | false => exact pack_packs bref x _ few
  | true =>
    have first := alignBytesZero_packs bref
    rw [started rfl] at first
    have written := first.handle fun mid _ => pack_packs mid x _ few
    rw [Nat.zero_add] at written
    refine written.congr ?_
    simp

theorem pad_behind_length {mid : BitRef} (small : len < 128)
    (reached : mid.pos = bref.pos + lengthBits bref len aligned) (flag : aligned = true) : mid.pad = 0 := by
  subst flag
  refine @pad_eq_zero bref mid 1 ?_
  rw [reached, lengthBits, if_pos rfl, octetBits, if_pos small]
  omega

theorem number_packs (small : len < 128) (few : len * 8 < 64) (bref : BitRef) (x : Nat) (aligned : Bool) :
    ∃ v, Exact len bref (fun bref => .ok (packLength bref len aligned))
        (fun old bref => .ok (unpackLength old bref aligned)) (lengthBits bref len aligned) v ∧
      Packs bref (lengthBits bref len aligned + len * 8)
        (v % 2 ^ lengthBits bref len aligned * 2 ^ (len * 8) + x % 2 ^ (len * 8))
        ((packLength bref len aligned).handle fun bref => packNumber bref x len aligned) := by
  obtain ⟨v, exactly⟩ := length_exact (show len < asn16K from small.trans (by decide)) bref aligned
  obtain ⟨r, result, packed⟩ := exactly.packs
  obtain rfl := Except.ok.inj result
  exact ⟨v, exactly, packed.handle fun mid reached => packNumber_packs few (pad_behind_length small reached)⟩

theorem number_reads {v : Nat} (small : len < 128) (lt : x < 2 ^ (len * 8))
    (exactly : Exact len bref (fun bref => .ok (packLength bref len aligned))
      (fun old bref => .ok (unpackLength old bref aligned)) (lengthBits bref len aligned) v)
    (begun : start.pos = bref.pos) (fits : lengthBits bref len aligned + len * 8 ≤ start.rest)
    (written : field (bit start.buf) start.pos (lengthBits bref len aligned + len * 8) =
      (v % 2 ^ lengthBits bref len aligned * 2 ^ (len * 8) + x % 2 ^ (len * 8)) %
        2 ^ (lengthBits bref len aligned + len * 8)) :
    (unpackLength 0 start aligned).handle old (fun len bref => unpackUnconstrainedWholeNumber ty old bref len aligned) =
        unpackInt ty old (start.moved (lengthBits bref len aligned)) (len * 8) ∧
      field (bit start.buf) (start.pos + lengthBits bref len aligned) (len * 8) = x := by
  obtain ⟨length, value⟩ := field_split_mod written
  have read := Except.ok.inj (exactly.reads 0 start begun (by omega) length)
  refine ⟨?_, value.trans (mod_eq_of_lt lt)⟩
  rw [read, Unpacked.handle, if_pos rfl, unpackUnconstrainedWholeNumber]
  cases flag : aligned with
  | false => rfl
  | true =>
    have reached : (start.moved (lengthBits bref len true)).pos = bref.pos + lengthBits bref len true := by
      rw [moved_pos, begun]
    have aligned' := pad_behind_length small reached rfl
    rw [if_pos rfl, alignBytes_eq, aligned', if_pos (Nat.zero_le _), moved_zero, Packed.unpacking, if_pos rfl]

end Octets

section Integer
variable {ty : IntType} {bref : BitRef} {n lb ub : ty.Value} {within aligned : Bool}

/-- When the octets of a number without bounds are read back: there are no more of them than in the type, or they are
not written. -/
def OctetsMeet (ty : IntType) (rest pad : Nat) (n : Int) (aligned : Bool) : Prop :=
  0 < n ∧ (numberLength n.toNat * 8 ≤ ty.bits ∨ 64 ≤ numberLength n.toNat * 8 ∨
    rest < (if aligned then pad else 0) + 8 + numberLength n.toNat * 8)

theorem toNat_lt (n : ty.Value) : n.val.toNat < 2 ^ 64 := by
  obtain ⟨n, low, high⟩ := n
  have total := ty.max_sub_min
  have power : (2 : Int) ^ ty.bits ≤ 2 ^ 64 := pow_le_pow_right₀ (by decide) ty.bits_le
  have := ty.min_le_zero
  dsimp only
  omega

def Unbounded (ty : IntType) (lb ub : ty.Value) (within : Bool) : Prop :=
  ¬(within && lowerBounded ty lb && upperBounded ty ub) = true ∧
    (!within || (!lowerBounded ty lb && !upperBounded ty ub)) = true

theorem packIntegerBody_unbounded (free : Unbounded ty lb ub within) (pos : 0 < n.val) (bref : BitRef) :
    packIntegerBody ty bref n lb ub within aligned =
      .ok ((packLength bref (numberLength n.val.toNat) aligned).handle fun bref =>
        packNumber bref n.val.toNat (numberLength n.val.toNat) aligned) := by
  have lt := toNat_lt n
  have same : u64 n.val = n.val.toNat := by
    unfold u64
    omega
  have length : unconstrainedWholeNumberLength n.val = .ok (numberLength n.val.toNat) := if_neg (by omega)
  rw [packIntegerBody, if_neg free.1, if_pos free.2, length]
  change (if (packLength bref (numberLength n.val.toNat) aligned).code = .success then _ else _) = _
  unfold Packed.handle
  split
  · rw [packUnconstrainedWholeNumber, length]
    cases aligned <;> rw [← same] <;> rfl
  · rfl

theorem unpackIntegerBody_unbounded (free : Unbounded ty lb ub within) (old : ty.Value) (bref : BitRef) :
    unpackIntegerBody ty old bref lb ub within aligned =
      .ok ((unpackLength 0 bref aligned).handle old fun len bref =>
        unpackUnconstrainedWholeNumber ty old bref len aligned) := by
  rw [unpackIntegerBody, if_neg free.1, if_pos free.2]

theorem packNumber_failed {x len : Nat} (wide : 64 ≤ len * 8) (bref : BitRef) (aligned : Bool) :
    (packNumber bref x len aligned).code ≠ .success := by
  have failed (mid : BitRef) : (mid.pack x (len * 8)).code ≠ .success := by
    rw [pack_failed mid x wide]
    simp
  cases aligned with
  | false => exact failed bref
  | true => exact handle_failed failed

theorem lengthBits_congr {a b : BitRef} (same : a.pos = b.pos) (len : Nat) (aligned : Bool) :
    lengthBits a len aligned = lengthBits b len aligned := by
  rw [lengthBits, lengthBits, pad_congr same]

theorem octets_exact_or_breaks (free : Unbounded ty lb ub within) (pos : 0 < n.val)
    (few : numberLength n.val.toNat * 8 < 64) (bref : BitRef) (aligned : Bool) :
    (numberLength n.val.toNat * 8 ≤ ty.bits → ∃ v, Exact n bref
      (fun bref => packIntegerBody ty bref n lb ub within aligned)
      (fun old bref => unpackIntegerBody ty old bref lb ub within aligned)
      (lengthBits bref (numberLength n.val.toNat) aligned + numberLength n.val.toNat * 8) v) ∧
    (lengthBits bref (numberLength n.val.toNat) aligned + numberLength n.val.toNat * 8 ≤ bref.rest →
      ty.bits < numberLength n.val.toNat * 8 → Breaks n bref
        (fun bref => packIntegerBody ty bref n lb ub within aligned)
        (fun old bref => unpackIntegerBody ty old bref lb ub within aligned)) ∧
    (bref.rest < lengthBits bref (numberLength n.val.toNat) aligned + numberLength n.val.toNat * 8 →
      Refuses bref (fun bref => packIntegerBody ty bref n lb ub within aligned)) := by
  have positive : 0 < n.val.toNat := by omega
  have small := numberLength_lt positive (toNat_lt n)
  have lt := lt_two_pow_numberLength positive
  have back : ty.ofInt (n.val.toNat : Nat) = n := by
    rw [Int.toNat_of_nonneg (by omega)]
    exact IntType.ofInt_val n
  have body (other : BitRef) := @packIntegerBody_unbounded ty n lb ub within aligned free pos other
  generalize n.val.toNat = x at *
  generalize numberLength x = len at *
  obtain ⟨v, exactly, packed⟩ := number_packs small few bref x aligned
  refine ⟨fun narrow => ⟨_, ⟨_, body bref, packed⟩, fun other s same result _ => ?_,
      fun old start begun fits written => ?_⟩,
    fun fits wide => ?_, fun exceeds => ⟨_, body bref, fun ok => ?_⟩⟩
  · obtain ⟨w, -, packed'⟩ := number_packs small few other x aligned
    obtain rfl := Except.ok.inj ((body other).symm.trans result)
    rw [← same, ← lengthBits_congr same]
    exact packed'.pos_le
  · obtain ⟨read, value⟩ := @number_reads ty bref start old aligned x len v small lt exactly begun fits written
    have number : unpackInt ty old (start.moved (lengthBits bref len aligned)) (len * 8) = ⟨.success, ty.ofInt x,
        (start.moved (lengthBits bref len aligned)).moved (len * 8)⟩ :=
      unpackInt_of_field narrow (by rw [rest_moved]; omega) (by rw [moved_pos]; exact value)
    rw [unpackIntegerBody_unbounded free, read, number, back, moved_moved]
  · have ok := packed.code.mpr fits
    refine Or.inr ⟨_, body bref, ok, packed.length, packed.before, n, fun decoded => ?_⟩
    obtain ⟨begun, inside, written⟩ := packed.restart ok rfl
    have read := (@number_reads ty bref _ n aligned x len v small lt exactly begun inside written).1
    change unpackIntegerBody ty n _ lb ub within aligned = _ at decoded
    rw [unpackIntegerBody_unbounded free, read] at decoded
    exact unpackInt_short (Or.inr (by omega)) (congrArg Unpacked.code (Except.ok.inj decoded))
  · have := packed.code.mp ok
    omega

theorem octets_settled (free : Unbounded ty lb ub within) (bref : BitRef) (n : ty.Value) (aligned : Bool) :
    Settled n bref (fun bref => packIntegerBody ty bref n lb ub within aligned)
      (fun old bref => unpackIntegerBody ty old bref lb ub within aligned)
      (OctetsMeet ty bref.rest bref.pad n.val aligned) := by
  have header : lengthBits bref (numberLength n.val.toNat) aligned = (if aligned then bref.pad else 0) + 8 ∨
      ¬0 < n.val := by
    by_cases pos : 0 < n.val
    · have small := numberLength_lt (x := n.val.toNat) (by omega) (toNat_lt n)
      cases aligned <;> simp [lengthBits, octetBits, small]
    · exact Or.inr pos
  by_cases pos : 0 < n.val
  · replace header := header.resolve_right (not_not.mpr pos)
    by_cases few : numberLength n.val.toNat * 8 < 64
    · obtain ⟨exactly, breaks, refuses⟩ := octets_exact_or_breaks free pos few bref aligned
      rw [header] at exactly breaks refuses
      constructor
      · rintro ⟨-, narrow | wide | exceeds⟩
        · obtain ⟨v, holds⟩ := exactly narrow
          exact Or.inl ⟨_, v, holds⟩
        · omega
        · exact Or.inr (refuses exceeds)
      · intro fails
        unfold OctetsMeet at fails
        exact breaks (by omega) (by omega)
    · refine ⟨fun _ => Or.inr ⟨_, packIntegerBody_unbounded free pos bref, ?_⟩,
        fun fails => absurd ⟨pos, Or.inr (Or.inl (by omega))⟩ fails⟩
      exact handle_failed fun mid => packNumber_failed (by omega) mid aligned
  · refine ⟨fun meets => absurd meets.1 pos, fun _ => Or.inl ⟨.undefinedBehaviour, ?_⟩⟩
    change packIntegerBody ty bref n lb ub within aligned = _
    rw [packIntegerBody, if_neg free.1, if_pos free.2, unconstrainedWholeNumberLength, if_pos (by omega)]
    rfl

theorem unset_breaks {pack : BitRef → Except Fault Packed}
    {unpack : ty.Value → BitRef → Except Fault (Unpacked ty.Value)}
    (packs : pack bref = .ok ⟨.success, bref⟩) (reads : ∀ old, unpack old bref = .ok ⟨.success, old, bref⟩) :
    Breaks n bref pack unpack := by
  have other : ∃ old : ty.Value, old ≠ n := by
    have lt : ty.min < ty.max := by
      have total := ty.max_sub_min
      have : (1 : Int) < 2 ^ ty.bits := one_lt_pow₀ (by decide) ty.bits_pos.ne'
      omega
    by_cases top : n.val = ty.max
    · exact ⟨⟨ty.min, le_rfl, lt.le⟩, fun same => by simp [← same] at top; omega⟩
    · exact ⟨⟨ty.max, lt.le, le_rfl⟩, fun same => top (by simp [← same])⟩
  obtain ⟨old, differs⟩ := other
  refine Or.inr ⟨_, packs, rfl, rfl, fun _ _ => rfl, old, fun read => differs ?_⟩
  exact congrArg Unpacked.val (Except.ok.inj ((reads old).symm.trans read))

def BodyMeets (ty : IntType) (rest pad : Nat) (n lb ub : ty.Value) (within aligned : Bool) : Prop :=
  if within && lowerBounded ty lb && upperBounded ty ub then
    lb.val ≠ ub.val ∧ ConstrainedMeets ty rest pad n lb ub aligned
  else if !within || (!lowerBounded ty lb && !upperBounded ty ub) then OctetsMeet ty rest pad n.val aligned
  else False

theorem body_settled (bref : BitRef) (n lb ub : ty.Value) (within aligned : Bool) :
    Settled n bref (fun bref => packIntegerBody ty bref n lb ub within aligned)
      (fun old bref => unpackIntegerBody ty old bref lb ub within aligned)
      (BodyMeets ty bref.rest bref.pad n lb ub within aligned) := by
  unfold BodyMeets
  by_cases bounded : (within && lowerBounded ty lb && upperBounded ty ub) = true
  · simp only [packIntegerBody, unpackIntegerBody, if_pos bounded]
    by_cases single : lb.val = ub.val
    · simp only [if_pos single]
      exact ⟨fun meets => absurd single meets.1, fun _ => unset_breaks rfl fun _ => rfl⟩
    · simp only [if_neg single]
      obtain ⟨good, bad⟩ := constrained_settled bref n lb ub aligned
      exact ⟨fun meets => good meets.2, fun fails => bad fun meets => fails ⟨single, meets⟩⟩
  · rw [if_neg bounded]
    by_cases free : (!within || (!lowerBounded ty lb && !upperBounded ty ub)) = true
    · rw [if_pos free]
      exact octets_settled ⟨bounded, free⟩ bref n aligned
    · simp only [packIntegerBody, unpackIntegerBody, if_neg bounded, if_neg free]
      exact ⟨fun meets => absurd meets (by simp), fun _ => unset_breaks rfl fun _ => rfl⟩

end Integer

section Extension
variable {α : Type} {value : α} {bref : BitRef} {packBody : BitRef → Except Fault Packed}
  {unpackBody : Bool → α → BitRef → Except Fault (Unpacked α)} {condition : Prop}

def packExtended (packBody : BitRef → Except Fault Packed) (ext : Bool) (bref : BitRef) : Except Fault Packed :=
  let r := bref.pack ext.toNat 1
  if r.code = .success then packBody r.bref else .ok r

def unpackExtended (unpackBody : Bool → α → BitRef → Except Fault (Unpacked α)) (old : α) (bref : BitRef) :
    Except Fault (Unpacked α) :=
  let r := bref.unpack 8 1 1
  if r.code = .success then unpackBody (r.val = 0) old r.bref else .ok ⟨r.code, old, r.bref⟩

theorem unpackExtended_eq {ext : Bool} {start : BitRef} (fits : 1 ≤ start.rest)
    (written : field (bit start.buf) start.pos 1 = ext.toNat) (old : α) :
    unpackExtended unpackBody old start = unpackBody (!ext) old (start.moved 1) := by
  have first := unpack_of_field (show 1 ≤ 8 by decide) fits written 1
  unfold unpackExtended
  rw [first]
  cases ext <;> rfl

theorem packExtended_eq {ext : Bool} {other : BitRef} (fits : 1 ≤ other.rest) :
    packExtended packBody ext other = packBody (other.pack ext.toNat 1).bref := by
  have first := pack_packs other ext.toNat 1 (by decide)
  unfold packExtended
  rw [if_pos (first.code.mpr fits)]

theorem settled_extended (ext : Bool)
    (body : Settled value (bref.pack ext.toNat 1).bref packBody (unpackBody (!ext)) condition) :
    Settled value bref (packExtended packBody ext) (unpackExtended unpackBody) (bref.rest = 0 ∨ condition) := by
  have first (other : BitRef) := pack_packs other ext.toNat 1 (by decide)
  have small : ext.toNat % 2 ^ 1 = ext.toNat := by cases ext <;> rfl
  by_cases fits : 1 ≤ bref.rest
  · have ok := (first bref).code.mpr fits
    have whole := @packExtended_eq packBody ext bref fits
    constructor
    · rintro (none | holds)
      · omega
      obtain ⟨n, v, exactly⟩ | ⟨r, result, failed⟩ := body.good holds
      · refine Or.inl ⟨1 + n, ext.toNat % 2 ^ 1 * 2 ^ n + v % 2 ^ n, ?_, fun other s same result done => ?_,
          fun old start begun inside written => ?_⟩
        · obtain ⟨r, result, packed⟩ := exactly.packs
          refine ⟨r, whole.trans result, ?_⟩
          exact Packs.after (first bref).length ((first bref).pos ok) fits
            ⟨(first bref).before, (first bref).written ok⟩ packed
        · by_cases inside : 1 ≤ other.rest
          · rw [packExtended_eq inside] at result
            have reached := (first other).pos ((first other).code.mpr inside)
            have most := exactly.most _ s (by rw [reached, (first bref).pos ok, same]) result done
            rw [(first bref).pos ok] at most
            omega
          · have failed : (other.pack ext.toNat 1).code ≠ .success := fun ok => inside ((first other).code.mp ok)
            unfold packExtended at result
            rw [if_neg failed] at result
            obtain rfl := Except.ok.inj result
            exact absurd done failed
        · obtain ⟨flag, behind⟩ := field_split_mod written
          rw [unpackExtended_eq (by omega) (flag.trans small), exactly.reads old (start.moved 1)
            (by rw [moved_pos, begun, (first bref).pos ok]) (by rw [rest_moved]; omega)
            (by rw [moved_pos]; exact behind), moved_moved]
      · exact Or.inr ⟨r, whole.trans result, failed⟩
    · intro fails
      rw [not_or] at fails
      obtain ⟨fault, broken⟩ | ⟨r, result, done, length, before, old, differs⟩ := body.bad fails.2
      · exact Or.inl ⟨fault, whole.trans broken⟩
      have reached := (first bref).pos ok
      refine Or.inr ⟨r, whole.trans result, done, length.trans (first bref).length,
        fun i lt => (before i (by omega)).trans ((first bref).before i lt), old, fun read => differs ?_⟩
      generalize started : ({ bref with buf := r.bref.buf } : BitRef) = start at read
      have begun : start.pos = bref.pos := by rw [← started]; rfl
      have buffer : start.buf = r.bref.buf := by rw [← started]
      have rest : start.rest = bref.rest := by rw [BitRef.rest, begun, buffer, length, (first bref).length, BitRef.rest]
      have flag : field (bit start.buf) start.pos 1 = ext.toNat := by
        rw [begun, buffer, ← small, ← (first bref).written ok]
        exact field_congr fun i lt => before (bref.pos + i) (by omega)
      have behind : start.moved 1 = { (bref.pack ext.toNat 1).bref with buf := r.bref.buf } :=
        ext_pos buffer ((moved_pos _ _).trans ((congrArg (· + 1) begun).trans reached.symm))
      rw [unpackExtended_eq (by omega) flag, behind] at read
      exact read
  · have failed : (bref.pack ext.toNat 1).code ≠ .success := fun ok => fits ((first bref).code.mp ok)
    exact ⟨fun _ => Or.inr ⟨_, if_neg failed, failed⟩, fun fails => absurd (Or.inl (by omega)) fails⟩

end Extension
section Integer
variable {ty : IntType}

def withinBounds (n lb ub : ty.Value) : Bool := decide (lb.val ≤ n.val ∧ n.val ≤ ub.val)

def IntegerMeets (ty : IntType) (bref : BitRef) (n lb ub : ty.Value) (hasExt aligned : Bool) : Prop :=
  if hasExt then
    bref.rest = 0 ∨ BodyMeets ty (bref.rest - 1) (bref.moved 1).pad n lb ub (withinBounds n lb ub) aligned
  else withinBounds n lb ub = false ∨ BodyMeets ty bref.rest bref.pad n lb ub true aligned

theorem integer_settled (bref : BitRef) (n lb ub : ty.Value) (hasExt aligned : Bool) :
    Settled n bref (fun bref => packInteger ty bref n lb ub hasExt aligned)
      (fun old bref => unpackInteger ty old bref lb ub hasExt aligned)
      (IntegerMeets ty bref n lb ub hasExt aligned) := by
  cases hasExt with
  | false =>
    cases within : withinBounds n lb ub with
    | false =>
      have refused : packInteger ty bref n lb ub false aligned = .ok ⟨.encodeFail, bref⟩ := by
        exact if_pos within
      exact ⟨fun _ => Or.inr ⟨_, refused, by simp⟩, fun fails => absurd (Or.inl within) fails⟩
    | true =>
      have packs (bref : BitRef) : packInteger ty bref n lb ub false aligned =
          packIntegerBody ty bref n lb ub true aligned := by
        change (if withinBounds n lb ub = false then _ else packIntegerBody ty bref n lb ub _ aligned) = _
        rw [if_neg (by simp [within])]
        exact congrArg (fun flag => packIntegerBody ty bref n lb ub flag aligned) within
      obtain ⟨good, bad⟩ := body_settled bref n lb ub true aligned
      simp only [packs]
      exact ⟨fun meets => good (meets.resolve_left (by simp [within])),
        fun fails => bad fun meets => fails (Or.inr meets)⟩
  | true =>
    let within := withinBounds n lb ub
    have first := pack_packs bref (!within).toNat 1 (by decide)
    have body := body_settled (bref.pack (!within).toNat 1).bref n lb ub within aligned
    have whole := @settled_extended _ n bref (fun bref => packIntegerBody ty bref n lb ub within aligned)
      (fun within old bref => unpackIntegerBody ty old bref lb ub within aligned) _ (!within)
      (by rw [Bool.not_not]; exact body)
    have same : (bref.rest = 0 ∨ BodyMeets ty (bref.pack (!within).toNat 1).bref.rest
        (bref.pack (!within).toNat 1).bref.pad n lb ub within aligned) ↔
          IntegerMeets ty bref n lb ub true aligned := by
      refine or_congr_right' fun some => ?_
      have reached := first.pos (first.code.mpr (by omega))
      have rest : (bref.pack (!within).toNat 1).bref.rest = bref.rest - 1 := by
        rw [BitRef.rest, reached, first.length, BitRef.rest, Nat.sub_sub]
      rw [rest, pad_congr (reached.trans (moved_pos bref 1).symm)]
    exact ⟨fun meets => whole.good (same.mpr meets), fun fails => whole.bad fun meets => fails (same.mp meets)⟩

end Integer

def uint8 : IntType := ⟨.w8, false⟩

end IsrRan.Asn1
