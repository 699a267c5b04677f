import IsrRan.Asn1.WholeNumber

namespace IsrRan.Asn1
open BitRef Lib Int Option IntType Packed Unpacked

namespace BitRef
variable {bref : BitRef} {n k : Nat}

def Inside (bref : BitRef) : Prop := bref.pos ≤ 8 * bref.buf.length

instance (bref : BitRef) : Decidable bref.Inside := inferInstanceAs (Decidable (_ ≤ _))

def bitsAt (bref : BitRef) (skip n : Nat) : Option Nat :=
  if skip + n ≤ bref.rest then some (field (bit bref.buf) (bref.pos + skip) n) else none

namespace Inside

theorem moved (inside : bref.Inside) (le : n ≤ bref.rest) : (bref.moved n).Inside := by
  unfold Inside at inside ⊢
  unfold rest at le
  rw [moved_pos, moved_buf]
  omega

theorem unpack (inside : bref.Inside) (width old n : Nat) : (bref.unpack width old n).bref.Inside := by
  rw [unpack_eq]
  split
  · exact inside
  · exact inside.moved (Nat.min_le_right _ _)

theorem alignBytes (inside : bref.Inside) : bref.alignBytes.bref.Inside := by
  rw [alignBytes_eq]
  split
  · exact inside.moved ‹_›
  · exact inside

end Inside
end BitRef

section Cursor
variable {α β : Type} {bref : BitRef}

theorem Unpacked.handle_inside {r : Unpacked α} (read : r.bref.Inside) (val : β)
    {next : α → BitRef → Unpacked β} (then_ : ∀ v mid, BitRef.Inside mid → (next v mid).bref.Inside) :
    (r.handle val next).bref.Inside := by
  unfold Unpacked.handle
  split
  · exact then_ _ _ read
  · exact read

theorem Packed.unpacking_inside {r : Packed} (read : r.bref.Inside) (val : α) {next : BitRef → Unpacked α}
    (then_ : ∀ mid, BitRef.Inside mid → (next mid).bref.Inside) : (r.unpacking val next).bref.Inside := by
  unfold unpacking
  split
  · exact then_ _ read
  · exact read

variable (inside : bref.Inside)
include inside

theorem unpackInt_inside (ty : IntType) (old : ty.Value) (n : Nat) : (unpackInt ty old bref n).bref.Inside := by
  unfold unpackInt
  split
  · exact inside
  · exact inside.unpack _ _ _

theorem unpackInRange_inside (ty : IntType) (old : ty.Value) (ra nBits : Nat) (aligned : Bool) :
    (unpackInRange ty old bref ra nBits aligned).bref.Inside := by
  unfold unpackInRange
  split
  · exact unpackInt_inside inside ty old nBits
  split
  · exact unpackInt_inside inside ty old nBits
  split
  · apply unpacking_inside inside.alignBytes
    intro mid reached
    apply handle_inside (unpackInt_inside reached ty old _)
    intro v mid' reached'
    exact unpacking_inside reached'.alignBytes v fun _ last => last
  · apply handle_inside (inside.unpack _ _ _)
    intro octets mid reached
    apply unpacking_inside reached.alignBytes
    intro mid' reached'
    exact unpackInt_inside reached' ty old _

theorem unpackLength_inside (old : Nat) (aligned : Bool) : (unpackLength old bref aligned).bref.Inside := by
  unfold unpackLength
  split
  · apply handle_inside (inside.unpack _ _ _)
    intro ext mid reached
    split
    · exact reached.unpack _ _ _
    · apply handle_inside (reached.unpack _ _ _)
      intro ext' mid' reached'
      split
      · exact reached'.unpack _ _ _
      · exact reached'
  · apply unpacking_inside inside.alignBytes
    intro mid reached
    apply handle_inside (reached.unpack _ _ _)
    intro val mid' reached'
    split
    · exact reached'
    split
    · exact handle_inside (reached'.unpack _ _ _) _ fun _ _ last => last
    · exact reached'

theorem unpackNormSmallNonNegWholeNumber_inside (old : Nat) :
    (unpackNormSmallNonNegWholeNumber old bref).bref.Inside := by
  apply handle_inside (inside.unpack _ _ _)
  intro ext mid reached
  split
  · exact reached.unpack _ _ _
  · exact reached

end Cursor

section Offset
variable {ty : IntType} {bref : BitRef} {old lb ub : ty.Value} {k x : Nat}

/-- The offset from the lower bound, for `ra` values, if the buffer holds it and the type takes it. -/
def offsetIn (ty : IntType) (bref : BitRef) (ra : Nat) (aligned : Bool) : Option Nat :=
  if aligned = false ∨ ra < 256 then bref.bitsAt 0 (ceilLog2 ra)
  else if ra ≤ asn64K then bref.bitsAt bref.pad (ceilFrac (ceilLog2 ra) 8 * 8)
  else
    let nBitsLen := ceilLog2 (ceilFrac (ceilLog2 ra) 8)
    (bref.bitsAt 0 nBitsLen).bind fun nOctets =>
      if (nOctets + 1) * 8 ≤ ty.bits then bref.bitsAt (nBitsLen + (bref.moved nBitsLen).pad) ((nOctets + 1) * 8)
      else none

def Finds (r : Unpacked ty.Value) (offset : Option Nat) : Prop :=
  match offset with
  | none => r.code ≠ .success
  | some x => r.code = .success ∧ r.val = ty.ofInt x ∧ x < 2 ^ ty.bits

theorem unpackInt_finds (small : k ≤ ty.bits) : Finds (unpackInt ty old bref k) (bref.bitsAt 0 k) := by
  unfold bitsAt
  rw [Nat.zero_add]
  split
  · rw [unpackInt_eq small ‹_›]
    exact ⟨rfl, rfl, lt_of_lt_of_le (field_lt _ _ _) (Nat.pow_le_pow_right (by decide) small)⟩
  · exact unpackInt_short (.inl ‹_›)

theorem bitsAt_moved {skip : Nat} (le : skip ≤ bref.rest) : (bref.moved skip).bitsAt 0 k = bref.bitsAt skip k := by
  have fits : 0 + k ≤ bref.rest - skip ↔ skip + k ≤ bref.rest := by omega
  unfold bitsAt
  rw [rest_moved, moved_pos]
  exact if_congr fits rfl rfl

theorem bitsAt_none {skip : Nat} (exceeds : ¬skip ≤ bref.rest) : bref.bitsAt skip k = none :=
  if_neg (by omega)

theorem bitsAt_zero : bref.bitsAt 0 k = if k ≤ bref.rest then some (field (bit bref.buf) bref.pos k) else none := by
  unfold bitsAt
  rw [Nat.zero_add, Nat.add_zero]

theorem octets_find (nOctets : Nat) (small : nOctets * 8 ≤ ty.bits) :
    Finds (bref.alignBytes.unpacking old fun bref =>
        let r := unpackInt ty old bref (nOctets * 8)
        r.handle r.val fun n bref => bref.alignBytes.unpacking n fun bref => ⟨.success, n, bref⟩)
      (bref.bitsAt bref.pad (nOctets * 8)) := by
  rw [alignBytes_eq]
  split
  · rename_i le
    rw [← bitsAt_moved le, unpacking]
    have found : Finds (unpackInt ty old (bref.moved bref.pad) (nOctets * 8)) _ := unpackInt_finds small
    rw [bitsAt_zero] at found ⊢
    split at found
    · rename_i fits
      obtain ⟨ok, value, lt⟩ := found
      rw [if_pos fits, Unpacked.handle, unpackInt_eq small fits]
      have nothing : ((bref.moved bref.pad).moved (nOctets * 8)).pad = 0 := by
        have reached : ((bref.moved bref.pad).moved (nOctets * 8)).pos = bref.pos + bref.pad + 8 * nOctets := by
          rw [moved_pos, moved_pos, Nat.mul_comm]
        exact pad_eq_zero reached
      rw [alignBytes_eq, nothing]
      exact ⟨rfl, rfl, lt⟩
    · rename_i short
      rw [if_neg short, Unpacked.handle, if_neg found]
      exact found
  · rw [bitsAt_none ‹_›]
    exact IsrasnCode.noConfusion

theorem unpackInRange_finds (old : ty.Value) (bref : BitRef) (small : ceilLog2 k ≤ ty.bits) (aligned : Bool) :
    Finds (unpackInRange ty old bref k (ceilLog2 k) aligned) (offsetIn ty bref k aligned) := by
  unfold unpackInRange offsetIn
  by_cases unaligned : aligned = false
  · rw [if_pos unaligned, if_pos (.inl unaligned)]
    exact unpackInt_finds small
  rw [if_neg unaligned]
  by_cases few : k < 256
  · rw [if_pos few, if_pos (.inr few)]
    exact unpackInt_finds small
  rw [if_neg few, if_neg (not_or.mpr ⟨unaligned, few⟩)]
  by_cases octets : k ≤ asn64K
  · rw [if_pos octets, if_pos octets]
    exact octets_find _ (ceilFrac_mul_le small)
  rw [if_neg octets, if_neg octets]
  dsimp only
  have count := ceilLog2_octets_le (ceilLog2 k) (small.trans ty.bits_le)
  generalize ceilLog2 (ceilFrac (ceilLog2 k) 8) = nBitsLen at count
  rw [bitsAt_zero]
  by_cases counted : nBitsLen ≤ bref.rest
  · rw [if_pos counted, unpack_of_fits (by omega) counted, Unpacked.handle, if_pos rfl, bind_some]
    generalize field (bit bref.buf) bref.pos nBitsLen = nOctets
    rw [alignBytes_eq]
    by_cases fits : (bref.moved nBitsLen).pad ≤ (bref.moved nBitsLen).rest
    · rw [if_pos fits, unpacking, if_pos rfl]
      split
      · rename_i taken
        rw [rest_moved] at fits
        have same : bref.bitsAt (nBitsLen + (bref.moved nBitsLen).pad) ((nOctets + 1) * 8) =
            ((bref.moved nBitsLen).moved (bref.moved nBitsLen).pad).bitsAt 0 ((nOctets + 1) * 8) := by
          rw [moved_moved]
          exact (bitsAt_moved (by omega)).symm
        rw [same]
        exact unpackInt_finds taken
      · exact unpackInt_short (.inr ‹_›)
    · rw [if_neg fits, unpacking, if_neg (by simp)]
      rw [rest_moved] at fits
      split
      · rw [bitsAt_none (by omega)]
        exact IsrasnCode.noConfusion
      · exact IsrasnCode.noConfusion
  · rw [if_neg counted, Unpacked.handle]
    have short : ¬(bref.unpack 32 0 nBitsLen).code = .success := by
      rw [unpack_code]
      exact fun both => counted both.2
    rw [if_neg short]
    exact short

theorem offsetIn_lt {ra : Nat} (found : offsetIn ty bref ra false = some x) : x < 2 ^ ceilLog2 ra := by
  rw [offsetIn, if_pos (.inl rfl), bitsAt_zero] at found
  split at found
  · obtain rfl := Option.some.inj found
    exact field_lt _ _ _
  · cases found

end Offset

section Sum
variable {ty : IntType} {lb ub : ty.Value} {r s : Unpacked ty.Value} {aligned : Bool} {x : Nat}

theorem IntType.arith_emod {sum y : Int} (computed : ty.arith y = .ok sum) : y % 2 ^ ty.bits = sum % 2 ^ ty.bits := by
  unfold arith at computed
  split at computed
  · rw [Except.ok.inj computed]
  split at computed
  · split at computed
    · rw [Except.ok.inj computed]
    · cases computed
  · rw [← Except.ok.inj computed, emod_emod_of_dvd _ (dvd_refl _)]

theorem addLowerBound_offset (read : Finds r (some x)) (added : addLowerBound ty r lb ub aligned = .ok s)
    (least : lb.val ≤ s.val.val) : (x : Int) = s.val.val - lb.val := by
  obtain ⟨ok, value, lt⟩ := read
  have high := s.val.2.2
  have total := ty.max_sub_min
  have congruent : s.val.val % 2 ^ ty.bits = ((x : Int) + lb.val) % 2 ^ ty.bits := by
    rw [addLowerBound, if_pos ok, value] at added
    obtain ⟨sum, computed, result⟩ := bind_eq_ok.mp added
    have sum_eq : (ty.ofInt sum).val % 2 ^ ty.bits = ((x : Int) + lb.val) % 2 ^ ty.bits := by
      change ty.reduce sum % _ = _
      rw [reduce_emod, ← arith_emod computed, add_emod]
      change (ty.reduce x % _ + _) % _ = _
      rw [reduce_emod, ← add_emod]
    dsimp only at result
    split at result <;> cases Except.ok.inj result <;> exact sum_eq
  have same : (s.val.val - lb.val) % 2 ^ ty.bits = (x : Int) % 2 ^ ty.bits := by
    rw [sub_emod, congruent, ← sub_emod, Int.add_sub_cancel]
  have small : (x : Int) < 2 ^ ty.bits := by
    have cast : ((2 ^ ty.bits : Nat) : Int) = 2 ^ ty.bits := natCast_pow 2 ty.bits
    omega
  rw [emod_eq_of_lt (by omega) (by omega), emod_eq_of_lt (by omega) small] at same
  exact same.symm

theorem addLowerBound_exact (ub : ty.Value) (aligned : Bool) (read : Finds r (some x))
    (le : (x : Int) + lb.val ≤ ty.max) (positive : ty.signed = true → 32 ≤ ty.bits → (x : Int) ≤ ty.max) :
    ∃ n : ty.Value, n.val = x + lb.val ∧ addLowerBound ty r lb ub aligned =
      .ok (if aligned = false ∧ n.val > ub.val then ⟨.decodeFail, n, r.bref⟩ else ⟨.success, n, r.bref⟩) := by
  obtain ⟨ok, value, lt⟩ := read
  have least := ty.min_le_zero
  refine ⟨⟨x + lb.val, by omega, le⟩, rfl, ?_⟩
  have added : ∃ sum, ty.arith (ty.reduce x + lb.val) = .ok sum ∧ ty.reduce sum = x + lb.val := by
    by_cases narrow : ty.bits < 32
    · refine ⟨_, if_pos narrow, ?_⟩
      have congruent : (ty.reduce x + lb.val) % 2 ^ ty.bits = ((x : Int) + lb.val) % 2 ^ ty.bits := by
        rw [add_emod, reduce_emod, ← add_emod]
      rw [reduce_congr congruent, IntType.reduce_of_mem (by omega) le]
    · have high : (x : Int) ≤ ty.max := by
        by_cases signed : ty.signed = true
        · exact positive signed (by omega)
        · have zero : ty.min = 0 := by simp [IntType.min, signed]
          omega
      rw [IntType.reduce_of_mem (by omega) high]
      refine ⟨x + lb.val, ?_, IntType.reduce_of_mem (by omega) le⟩
      unfold IntType.arith
      rw [if_neg narrow]
      split
      · rw [if_pos ⟨by omega, le⟩]
      · have zero : ty.min = 0 := by
          unfold IntType.min
          rw [if_neg ‹_›]
        have total := ty.max_sub_min
        rw [emod_eq_of_lt (by omega) (by omega)]
  obtain ⟨sum, computed, same⟩ := added
  rw [addLowerBound, if_pos ok, value]
  change (do let sum ← ty.arith (ty.reduce x + lb.val); _) = _
  rw [computed]
  have same' : ty.ofInt sum = ⟨x + lb.val, by omega, le⟩ := Subtype.ext same
  change (if aligned = false ∧ (ty.ofInt sum).val > ub.val then _ else _) = _
  rw [same']
  split <;> rfl

theorem addLowerBound_refused (added : addLowerBound ty r lb ub aligned = .ok s) (read : r.code = .success)
    (refused : s.code ≠ .success) : aligned = false ∧ ub.val < s.val.val := by
  rw [addLowerBound, if_pos read] at added
  obtain ⟨sum, -, result⟩ := bind_eq_ok.mp added
  dsimp only at result
  split at result
  · rename_i above
    cases Except.ok.inj result
    exact above
  · cases Except.ok.inj result
    exact absurd rfl refused

theorem le_max_of_field (computed : ty.RangeComputed lb ub) (le : lb.val ≤ ub.val)
    (fewer : x < 2 ^ ceilLog2 (ty.span lb ub)) (signed : ty.signed = true) (wide : 32 ≤ ty.bits) :
    (x : Int) ≤ ty.max := by
  have most := computed.1 signed wide
  have max_eq : ty.max = 2 ^ (ty.bits - 1) - 1 := if_pos signed
  have cast : ((2 ^ (ty.bits - 1) : Nat) : Int) = 2 ^ (ty.bits - 1) := natCast_pow 2 _
  have bits : ceilLog2 (ty.span lb ub) ≤ ty.bits - 1 := by
    apply (ceilLog2_le_iff (span_pos le)).mpr
    unfold IntType.span
    omega
  have := Nat.pow_le_pow_right (show 0 < 2 by decide) bits
  omega

end Sum

/-- A decoder returns; a value that it reports meets the constraint, and a failure leaves the cursor in the buffer. -/
def StaysIn {α : Type} (constraint : α → Prop) (decoded : Except Fault (Unpacked α)) : Prop :=
  ∃ r, decoded = .ok r ∧ (r.code = .success → constraint r.val) ∧ (r.code ≠ .success → r.bref.Inside)

section WholeNumber
variable {ty : IntType} {bref : BitRef} {lb ub : ty.Value} {aligned : Bool}

def OffsetMeets (ty : IntType) (bref : BitRef) (lb ub : ty.Value) (aligned : Bool) : Prop :=
  ty.RangeComputed lb ub ∧ ∀ x, offsetIn ty bref (ty.span lb ub) aligned = some x →
    (x : Int) + lb.val ≤ if aligned then ub.val else ty.max

theorem addLowerBound_staysIn_iff {r : Unpacked ty.Value} {x : Nat} (computed : ty.RangeComputed lb ub)
    (le : lb.val ≤ ub.val) (inside : r.bref.Inside) (read : Finds r (some x))
    (fewer : aligned = false → x < 2 ^ ceilLog2 (ty.span lb ub)) :
    StaysIn (fun n : ty.Value => lb.val ≤ n.val ∧ n.val ≤ ub.val) (addLowerBound ty r lb ub aligned) ↔
      (x : Int) + lb.val ≤ if aligned then ub.val else ty.max := by
  have high := ub.2.2
  constructor
  · rintro ⟨s, added, within, -⟩
    by_cases ok : s.code = .success
    · have offset := addLowerBound_offset read added (within ok).1
      have := (within ok).2
      split <;> omega
    · obtain ⟨rfl, above⟩ := addLowerBound_refused added read.1 ok
      have offset := addLowerBound_offset read added (by omega)
      have := s.val.2.2
      rw [if_neg (by decide)]
      omega
  · intro bound
    cases aligned with
    | false =>
      obtain ⟨n, sum, added⟩ := addLowerBound_exact ub false read bound
        (le_max_of_field computed le (fewer rfl))
      refine ⟨_, added, ?_⟩
      split
      · exact ⟨fun ok => absurd ok (by simp), fun _ => inside⟩
      · rename_i above
        have least : lb.val ≤ n.val := by omega
        exact ⟨fun _ => ⟨least, Int.not_lt.mp fun lt => above ⟨rfl, lt⟩⟩, fun failed => absurd rfl failed⟩
    | true =>
      rw [if_pos rfl] at bound
      obtain ⟨n, sum, added⟩ := addLowerBound_exact ub true read (bound.trans high)
        (fun signed wide => by have := computed.1 signed wide; omega)
      refine ⟨_, added, ?_⟩
      have within : lb.val ≤ n.val ∧ n.val ≤ ub.val := by omega
      exact ⟨fun _ => within, fun failed => absurd rfl failed⟩

theorem unpackConstrainedWholeNumber_staysIn_iff (old : ty.Value) (inside : bref.Inside) (le : lb.val ≤ ub.val) :
    StaysIn (fun n : ty.Value => lb.val ≤ n.val ∧ n.val ≤ ub.val)
        (unpackConstrainedWholeNumber ty old bref lb ub aligned) ↔ OffsetMeets ty bref lb ub aligned := by
  unfold OffsetMeets
  by_cases computed : ty.RangeComputed lb ub
  · simp only [computed, true_and]
    by_cases single : ty.span lb ub = 1
    · have only : lb.val = ub.val := by
        unfold IntType.span at single
        omega
      have range := range_eq le computed
      rw [single] at range
      have decoded : unpackConstrainedWholeNumber ty old bref lb ub aligned = .ok ⟨.success, lb, bref⟩ := by
        rw [unpackConstrainedWholeNumber, if_neg (by omega), range]
        rfl
      refine iff_of_true ⟨_, decoded, fun _ => ⟨le_rfl, le⟩, fun failed => absurd rfl failed⟩ fun x found => ?_
      rw [single, offsetIn, if_pos (.inr (by decide)), show ceilLog2 1 = 0 from rfl] at found
      obtain rfl := Option.some.inj found
      simp only [field]
      split <;> omega
    · have small : ceilLog2 (ty.span lb ub) ≤ ty.bits :=
        (ceilLog2_le_iff (span_pos le)).mpr (span_le lb ub)
      have read := unpackInRange_finds old bref small aligned
      have reached := unpackInRange_inside inside ty old (ty.span lb ub) (ceilLog2 (ty.span lb ub)) aligned
      have fewer (x : Nat) (found : offsetIn ty bref (ty.span lb ub) aligned = some x) (unaligned : aligned = false) :
          x < 2 ^ ceilLog2 (ty.span lb ub) := by
        subst unaligned
        exact offsetIn_lt found
      rw [unpackConstrainedWholeNumber_eq le computed single]
      cases found : offsetIn ty bref (ty.span lb ub) aligned with
      | none =>
        rw [found] at read
        refine iff_of_true ⟨_, if_neg read, fun ok => absurd ok read, fun _ => reached⟩ ?_
        intro x impossible
        cases impossible
      | some x =>
        rw [found] at read
        rw [addLowerBound_staysIn_iff computed le reached read (fewer x found)]
        simp
  · refine iff_of_false ?_ fun both => computed both.1
    rintro ⟨r, decoded, -⟩
    rw [unpackConstrainedWholeNumber, if_neg (by omega)] at decoded
    obtain ⟨fault, broken⟩ | zero := range_not_computed computed
    · rw [broken] at decoded
      cases decoded
    · rw [zero] at decoded
      cases decoded

end WholeNumber

section Length
variable {bref : BitRef}

def lengthIn (bref : BitRef) (aligned : Bool) : Option Nat :=
  let skip := if aligned then bref.pad else 0
  (bref.bitsAt skip 1).bind fun ext =>
    if ext = 0 then bref.bitsAt (skip + 1) 7
    else (bref.bitsAt (skip + 1) 1).bind fun ext => if ext = 0 then bref.bitsAt (skip + 2) 14 else none

def FindsLength (r : Unpacked Nat) (length : Option Nat) : Prop :=
  match length with
  | none => r.code ≠ .success
  | some len => r.code = .success ∧ r.val = len ∧ len < asn16K

theorem unpack_findsLength {skip n : Nat} (le : skip ≤ bref.rest) (small : n ≤ 14) (old : Nat) :
    FindsLength ((bref.moved skip).unpack 32 old n) (bref.bitsAt skip n) := by
  unfold bitsAt
  split
  · rename_i fits
    rw [unpack_of_fits (by omega) (by rw [rest_moved]; omega), moved_pos]
    exact ⟨rfl, rfl, (field_lt _ _ _).trans_le (Nat.pow_le_pow_right (by decide) small)⟩
  · rename_i short
    intro ok
    have fits := ((unpack_code _ _ _ _).mp ok).2
    rw [rest_moved] at fits
    omega

theorem unpackLength_unaligned (old : Nat) : FindsLength (unpackLength old bref false) (lengthIn bref false) := by
  have read_bit {mid : BitRef} (there : 1 ≤ mid.rest) (old : Nat) :
      mid.unpack 8 old 1 = ⟨.success, field (bit mid.buf) mid.pos 1, mid.moved 1⟩ :=
    unpack_of_fits (by decide) there old
  unfold unpackLength lengthIn
  dsimp only
  rw [if_pos rfl, if_neg (by decide), bitsAt_zero]
  by_cases first_ : 1 ≤ bref.rest
  · rw [if_pos first_, read_bit first_, Unpacked.handle, if_pos rfl, bind_some]
    split
    · exact unpack_findsLength first_ (by decide) old
    · unfold bitsAt
      by_cases second : 0 + 1 + 1 ≤ bref.rest
      · rw [if_pos second, read_bit (by rw [rest_moved]; omega), Unpacked.handle, if_pos rfl, bind_some,
          moved_buf, moved_pos, moved_moved]
        split
        · exact unpack_findsLength second (by decide) old
        · exact IsrasnCode.noConfusion
      · have short (ext : Nat) : ¬((bref.moved 1).unpack 8 ext 1).code = .success := by
          rw [unpack_code, rest_moved]
          omega
        rw [if_neg second, Unpacked.handle, if_neg (short _)]
        exact short _
  · have short : ¬(bref.unpack 8 0 1).code = .success := by
      rw [unpack_code]
      omega
    rw [if_neg first_, Unpacked.handle, if_neg short]
    exact short

theorem lengthIn_short (short : bref.rest < bref.pad + 8) : lengthIn bref true = none := by
  unfold lengthIn
  rw [bind_eq_none_iff]
  intro ext _
  simp only [if_true]
  split
  · exact if_neg (by omega)
  · rw [bind_eq_none_iff]
    intro ext' _
    split
    · exact if_neg (by omega)
    · rfl

theorem octet_split (bit : Nat → Bool) (p : Nat) :
    field bit p 8 = field bit p 1 * 128 + (field bit (p + 1) 1 * 64 + field bit (p + 2) 6) ∧
      field bit (p + 1) 7 = field bit (p + 1) 1 * 64 + field bit (p + 2) 6 ∧
      field bit (p + 2) 14 = field bit (p + 2) 6 * 256 + field bit (p + 8) 8 :=
  have seven : field bit (p + 1) 7 = field bit (p + 1) 1 * 64 + field bit (p + 2) 6 := field_add bit (p + 1) 1 6
  ⟨seven ▸ field_add bit p 1 7, seven, field_add bit (p + 2) 6 8⟩

theorem unpackLength_aligned (old : Nat) : FindsLength (unpackLength old bref true) (lengthIn bref true) := by
  unfold unpackLength
  rw [if_neg (by decide), alignBytes_eq]
  by_cases padded : bref.pad ≤ bref.rest
  · rw [if_pos padded, unpacking]
    by_cases octet : bref.pad + 8 ≤ bref.rest
    · obtain ⟨whole, seven, fourteen⟩ := octet_split (bit bref.buf) (bref.pos + bref.pad)
      have first_ := field_lt (bit bref.buf) (bref.pos + bref.pad) 1
      have second := field_lt (bit bref.buf) (bref.pos + bref.pad + 1) 1
      have six := field_lt (bit bref.buf) (bref.pos + bref.pad + 2) 6
      have there (n : Nat) (le : n ≤ 8) : bref.bitsAt bref.pad n =
          some (field (bit bref.buf) (bref.pos + bref.pad) n) := if_pos (by omega)
      have there' (n : Nat) (le : n ≤ 7) : bref.bitsAt (bref.pad + 1) n =
          some (field (bit bref.buf) (bref.pos + bref.pad + 1) n) := if_pos (by omega)
      rw [unpack_of_fits (by decide) (by rw [rest_moved]; omega), moved_pos, moved_buf, moved_moved, Unpacked.handle]
      unfold lengthIn
      simp only [if_true, there 1 (by decide), there' 1 (by decide), there' 7 (by decide), bind_some]
      by_cases short : field (bit bref.buf) (bref.pos + bref.pad) 1 = 0
      · have same : field (bit bref.buf) (bref.pos + bref.pad) 8 =
            field (bit bref.buf) (bref.pos + bref.pad + 1) 7 := by
          omega
        rw [if_pos short, if_pos (by omega)]
        refine ⟨rfl, same, ?_⟩
        unfold asn16K
        omega
      rw [if_neg short, if_neg (by omega)]
      by_cases long : field (bit bref.buf) (bref.pos + bref.pad + 1) 1 = 0
      · rw [if_pos long, if_pos (by omega)]
        unfold bitsAt
        by_cases fits : bref.pad + 2 + 14 ≤ bref.rest
        · rw [if_pos fits, unpack_of_fits (by decide) (by rw [rest_moved]; omega), Unpacked.handle, if_pos rfl,
            moved_pos, moved_buf, ← Nat.add_assoc, ← Nat.add_assoc]
          have last := field_lt (bit bref.buf) (bref.pos + bref.pad + 8) 8
          refine ⟨rfl, ?_, ?_⟩
          · dsimp only
            omega
          · unfold asn16K
            omega
        · have failed : ¬((bref.moved (bref.pad + 8)).unpack 32 0 8).code = .success := by
            rw [unpack_code, rest_moved]
            omega
          rw [if_neg fits, Unpacked.handle, if_neg failed]
          exact failed
      · rw [if_neg long, if_neg (by omega)]
        exact IsrasnCode.noConfusion
    · have failed : ¬((bref.moved bref.pad).unpack 32 old 8).code = .success := by
        rw [unpack_code, rest_moved]
        omega
      rw [lengthIn_short (by omega), Unpacked.handle, if_neg failed]
      exact failed
  · rw [if_neg padded, lengthIn_short (by omega)]
    exact IsrasnCode.noConfusion

theorem unpackLength_finds (old : Nat) (bref : BitRef) (aligned : Bool) :
    FindsLength (unpackLength old bref aligned) (lengthIn bref aligned) := by
  cases aligned with
  | false => exact unpackLength_unaligned old
  | true => exact unpackLength_aligned old

def LengthMeets (ty : IntType) (bref : BitRef) (lb ub : ty.Value) (aligned : Bool) : Prop :=
  if ub.val ≥ asn64K then ∀ len, lengthIn bref aligned = some len → lb.val ≤ (len : Int)
  else OffsetMeets ty bref lb ub aligned

theorem unpackLengthIn_staysIn_iff {ty : IntType} {lb ub : ty.Value} {aligned : Bool} (old : ty.Value)
    (inside : bref.Inside) (le : lb.val ≤ ub.val) :
    StaysIn (fun n : ty.Value => lb.val ≤ n.val ∧ n.val ≤ ub.val) (unpackLengthIn ty old bref lb ub aligned) ↔
      LengthMeets ty bref lb ub aligned := by
  unfold LengthMeets unpackLengthIn
  by_cases large : ub.val ≥ asn64K
  · rw [if_pos large, if_pos large]
    have reached := unpackLength_inside inside 0 aligned
    have read := unpackLength_finds 0 bref aligned
    cases found : lengthIn bref aligned with
    | none =>
      rw [found] at read
      refine iff_of_true ⟨_, rfl, fun ok => absurd ok read, fun _ => reached⟩ ?_
      intro len impossible
      cases impossible
    | some len =>
      rw [found] at read
      obtain ⟨ok, value, lt⟩ := read
      have least := ty.min_le_zero
      unfold asn16K at lt
      unfold asn64K at large
      have kept : (ty.ofInt (unpackLength 0 bref aligned).val).val = len := by
        rw [value]
        exact IntType.reduce_of_mem (by omega) (by omega)
      simp only [StaysIn, Except.ok.injEq, exists_eq_left', ok, kept]
      simp
      omega
  · rw [if_neg large, if_neg large]
    exact unpackConstrainedWholeNumber_staysIn_iff old inside le

end Length

section Enum
variable {bref : BitRef} {nofTypes nofExts : Nat} {hasExt : Bool}

theorem checkEnum_staysIn {r : Unpacked Nat} (inside : r.bref.Inside) :
    StaysIn (· < nofTypes) (.ok (checkEnum nofTypes r)) := by
  refine ⟨_, rfl, ?_⟩
  unfold checkEnum
  split
  · exact ⟨fun ok => absurd ok (by simp), fun _ => inside⟩
  · exact ⟨fun _ => Nat.lt_of_not_le ‹_›, fun _ => inside⟩

def rootTypes (nofTypes nofExts : Nat) (hasExt : Bool) : Nat := if hasExt then u32Sub nofTypes nofExts else nofTypes

theorem unpackEnum_staysIn_iff (inside : bref.Inside) :
    StaysIn (· < nofTypes) (unpackEnum nofTypes nofExts hasExt bref) ↔ rootTypes nofTypes nofExts hasExt ≠ 0 := by
  unfold rootTypes unpackEnum
  cases hasExt with
  | false =>
    simp only [Bool.false_eq_true, if_false]
    by_cases zero : nofTypes = 0
    · refine iff_of_false ?_ (not_not.mpr zero)
      rintro ⟨r, decoded, -⟩
      rw [zero] at decoded
      cases decoded
    · refine iff_of_true ?_ zero
      rw [nofBits, if_neg zero]
      exact checkEnum_staysIn (inside.unpack _ _ _)
  | true =>
    simp only [if_true]
    by_cases zero : u32Sub nofTypes nofExts = 0
    · refine iff_of_false ?_ (not_not.mpr zero)
      rintro ⟨r, decoded, -⟩
      rw [zero] at decoded
      cases decoded
    · refine iff_of_true ?_ zero
      rw [nofBits, if_neg zero]
      have reached := inside.unpack 8 0 1
      split
      · rename_i failed
        exact ⟨_, rfl, fun ok => absurd ok failed, fun _ => reached⟩
      split
      · exact checkEnum_staysIn (reached.unpack _ _ _)
      · exact checkEnum_staysIn (unpackNormSmallNonNegWholeNumber_inside reached 0)

end Enum

theorem decoders_stayIn_iff (ty : IntType) (old : ty.Value) (bref : BitRef) (lb ub : ty.Value) (aligned : Bool)
    (nofTypes nofExts : Nat) (hasExt : Bool) (inside : bref.Inside) (le : lb.val ≤ ub.val) :
    (StaysIn (fun n : ty.Value => lb.val ≤ n.val ∧ n.val ≤ ub.val)
        (unpackConstrainedWholeNumber ty old bref lb ub aligned) ↔ OffsetMeets ty bref lb ub aligned) ∧
      (StaysIn (fun n : ty.Value => lb.val ≤ n.val ∧ n.val ≤ ub.val) (unpackLengthIn ty old bref lb ub aligned) ↔
        LengthMeets ty bref lb ub aligned) ∧
      (StaysIn (· < nofTypes) (unpackEnum nofTypes nofExts hasExt bref) ↔ rootTypes nofTypes nofExts hasExt ≠ 0) :=
  ⟨unpackConstrainedWholeNumber_staysIn_iff old inside le, unpackLengthIn_staysIn_iff old inside le,
    unpackEnum_staysIn_iff inside⟩

section Octets

def tyU8 : IntType := ⟨.w8, false⟩

theorem decoders_stayIn_twoBits : StaysIn (fun n : tyU8.Value => 10 ≤ n.val ∧ n.val ≤ 12)
    (unpackConstrainedWholeNumber tyU8 (tyU8.ofInt 0) ⟨[0x80], 0, 0, by decide⟩ (tyU8.ofInt 10) (tyU8.ofInt 12)
      true) := by
  have settled := decoders_stayIn_iff tyU8 (tyU8.ofInt 0) ⟨[0x80], 0, 0, by decide⟩ (tyU8.ofInt 10) (tyU8.ofInt 12)
    true 3 0 false (by decide) (by decide)
  refine settled.1.mpr ⟨⟨fun signed => absurd signed (by decide), by decide⟩, fun x found => ?_⟩
  have stands : offsetIn tyU8 ⟨[0x80], 0, 0, by decide⟩ (tyU8.span (tyU8.ofInt 10) (tyU8.ofInt 12)) true =
      some 2 := by decide
  obtain rfl := Option.some.inj (stands.symm.trans found)
  decide

theorem decoders_leave_bounds :
    ¬StaysIn (fun n : tyU8.Value => 200 ≤ n.val ∧ n.val ≤ 255)
        (unpackConstrainedWholeNumber tyU8 (tyU8.ofInt 0) ⟨[0xFC], 0, 0, by decide⟩ (tyU8.ofInt 200)
          (tyU8.ofInt 255) false) ∧
      ¬StaysIn (fun n : tyU8.Value => 0 ≤ n.val ∧ n.val ≤ 4)
        (unpackConstrainedWholeNumber tyU8 (tyU8.ofInt 0) ⟨[0xE0], 0, 0, by decide⟩ (tyU8.ofInt 0)
          (tyU8.ofInt 4) true) := by
  have wrapped : unpackConstrainedWholeNumber tyU8 (tyU8.ofInt 0) ⟨[0xFC], 0, 0, by decide⟩ (tyU8.ofInt 200)
      (tyU8.ofInt 255) false = .ok ⟨.success, tyU8.ofInt 7, ⟨[0xFC], 0, 6, by decide⟩⟩ := by decide +kernel
  have unchecked : unpackConstrainedWholeNumber tyU8 (tyU8.ofInt 0) ⟨[0xE0], 0, 0, by decide⟩ (tyU8.ofInt 0)
      (tyU8.ofInt 4) true = .ok ⟨.success, tyU8.ofInt 7, ⟨[0xE0], 0, 3, by decide⟩⟩ := by decide +kernel
  constructor
  · rintro ⟨r, decoded, within, -⟩
    obtain rfl := Except.ok.inj (wrapped.symm.trans decoded)
    exact absurd (within rfl).1 (by decide)
  · rintro ⟨r, decoded, within, -⟩
    obtain rfl := Except.ok.inj (unchecked.symm.trans decoded)
    exact absurd (within rfl).2 (by decide)

end Octets

end IsrRan.Asn1
