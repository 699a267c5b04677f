import IsrRan.Asn1.Per
import IsrRan.Lib.Log2f

namespace IsrRan.Asn1
open BitRef Lib Int Nat IntType

section RoundTrip
variable {α : Type} (value : α) (bref : BitRef) (pack : BitRef → Except Fault Packed)
  (unpack : α → BitRef → Except Fault (Unpacked α))

structure Returned (r : Packed) : Prop where
  before : ∀ i < bref.pos, bit r.bref.buf i = bit bref.buf i
  unpacked : ∀ old, unpack old { bref with buf := r.bref.buf } = .ok ⟨.success, value, r.bref⟩
  fits : ∀ (other : BitRef) s, other.pos = bref.pos → pack other = .ok s → s.code = .success →
    s.bref.pos ≤ bref.pos + bref.rest

def RoundTrips : Prop := ∃ r, pack bref = .ok r ∧ (r.code = .success → Returned value bref pack unpack r)

structure Exact (n v : Nat) : Prop where
  packs : ∃ r, pack bref = .ok r ∧ Packs bref n v r
  most : ∀ (other : BitRef) s, other.pos = bref.pos → pack other = .ok s → s.code = .success →
    s.bref.pos ≤ bref.pos + n
  reads : ∀ old (start : BitRef), start.pos = bref.pos → n ≤ start.rest →
    field (bit start.buf) start.pos n = v % 2 ^ n → unpack old start = .ok ⟨.success, value, start.moved n⟩

def Refuses : Prop := ∃ r, pack bref = .ok r ∧ r.code ≠ .success

/-- `pack` has no result, or reports success for bits that are read otherwise. -/
def Breaks : Prop :=
  (∃ fault, pack bref = .error fault) ∨
    ∃ r, pack bref = .ok r ∧ r.code = .success ∧ r.bref.buf.length = bref.buf.length ∧
      (∀ i < bref.pos, bit r.bref.buf i = bit bref.buf i) ∧
      ∃ old, unpack old { bref with buf := r.bref.buf } ≠ .ok ⟨.success, value, r.bref⟩

structure Settled (condition : Prop) : Prop where
  good : condition → (∃ n v, Exact value bref pack unpack n v) ∨ Refuses bref pack
  bad : ¬condition → Breaks value bref pack unpack

variable {value bref pack unpack} {n v : Nat}

theorem Exact.of_packs
    (packs : ∀ other : BitRef, other.pos = bref.pos → ∃ r, pack other = .ok r ∧ Packs other n v r)
    (reads : ∀ old (start : BitRef), start.pos = bref.pos → n ≤ start.rest →
      field (bit start.buf) start.pos n = v % 2 ^ n → unpack old start = .ok ⟨.success, value, start.moved n⟩) :
    Exact value bref pack unpack n v := by
  refine ⟨packs bref rfl, fun other s same packed ok => ?_, reads⟩
  obtain ⟨r, result, wrote⟩ := packs other same
  obtain rfl : r = s := Except.ok.inj (result.symm.trans packed)
  exact same ▸ wrote.pos_le

theorem Exact.roundTrips (h : Exact value bref pack unpack n v) : RoundTrips value bref pack unpack := by
  obtain ⟨r, packed, wrote⟩ := h.packs
  refine ⟨r, packed, fun ok => ⟨wrote.before, fun old => ?_, fun other s same packed ok' => ?_⟩⟩
  · obtain ⟨begun, fits, written⟩ := wrote.restart ok rfl
    have reached : r.bref = ({ bref with buf := r.bref.buf } : BitRef).moved n :=
      ext_pos rfl ((wrote.pos ok).trans (moved_pos _ _).symm)
    rw [h.reads old _ begun fits written, ← reached]
  · have := h.most other s same packed ok'
    have := wrote.code.mp ok
    omega

theorem Breaks.not_roundTrips (h : Breaks value bref pack unpack) : ¬RoundTrips value bref pack unpack := by
  rintro ⟨r, packed, returned⟩
  obtain ⟨fault, broken⟩ | ⟨s, result, ok, -, -, old, differs⟩ := h
  · exact absurd (packed.symm.trans broken) (by simp)
  · obtain rfl : r = s := Except.ok.inj (packed.symm.trans result)
    exact differs ((returned ok).unpacked old)

theorem Settled.roundTrips_iff {condition : Prop} (h : Settled value bref pack unpack condition) :
    RoundTrips value bref pack unpack ↔ condition := by
  constructor
  · intro returns
    by_contra fails
    exact (h.bad fails).not_roundTrips returns
  · intro holds
    obtain ⟨n, v, exact'⟩ | ⟨r, packed, failed⟩ := h.good holds
    · exact exact'.roundTrips
    · exact ⟨r, packed, fun ok => absurd ok failed⟩

end RoundTrip

section Log

theorem ceilLog2_le_iff {x k : Nat} (pos : 0 < x) : ceilLog2 x ≤ k ↔ x ≤ 2 ^ k := by
  unfold ceilLog2
  split
  · have := Nat.two_pow_pos k
    omega
  · rw [Nat.add_one_le_iff, Nat.log2_lt (by omega)]
    omega

theorem le_two_pow_ceilLog2 {x : Nat} (pos : 0 < x) : x ≤ 2 ^ ceilLog2 x := (ceilLog2_le_iff pos).mp le_rfl

end Log

namespace IntType
variable {ty : IntType} {n lb ub : ty.Value}

theorem bits_le (ty : IntType) : ty.bits ≤ 64 := by
  obtain ⟨width, signed⟩ := ty
  cases width <;> simp [bits, IntWidth.bits]

theorem bits_pos (ty : IntType) : 0 < ty.bits := by
  obtain ⟨width, signed⟩ := ty
  cases width <;> simp [bits, IntWidth.bits]

theorem bits_wide {k : Nat} (wide : 16 < k ∧ k ≤ ty.bits) : 32 ≤ ty.bits := by
  obtain ⟨width, signed⟩ := ty
  cases width <;> simp only [bits, IntWidth.bits] at wide ⊢ <;> omega

theorem max_sub_min (ty : IntType) : ty.max - ty.min = 2 ^ ty.bits - 1 := by
  obtain ⟨width, signed⟩ := ty
  cases width <;> cases signed <;> rfl

theorem min_le_zero (ty : IntType) : ty.min ≤ 0 := by
  obtain ⟨width, signed⟩ := ty
  cases width <;> cases signed <;> decide

theorem reduce_of_mem {x : Int} (low : ty.min ≤ x) (high : x ≤ ty.max) : ty.reduce x = x := by
  have total := ty.max_sub_min
  rw [reduce, emod_eq_of_lt (by omega) (by omega)]
  omega

theorem ofInt_val (n : ty.Value) : ty.ofInt n.val = n := Subtype.ext (reduce_of_mem n.2.1 n.2.2)

theorem reduce_emod (x : Int) : ty.reduce x % 2 ^ ty.bits = x % 2 ^ ty.bits := by
  rw [reduce, add_emod, emod_emod_of_dvd _ (dvd_refl _), ← add_emod]
  congr 1
  omega

theorem reduce_congr {x y : Int} (same : x % 2 ^ ty.bits = y % 2 ^ ty.bits) : ty.reduce x = ty.reduce y := by
  rw [reduce, reduce, sub_emod, same, ← sub_emod]

theorem u64_reduce {k : Nat} (small : k ≤ ty.bits) (x : Nat) : u64 (ty.reduce x) % 2 ^ k = x % 2 ^ k := by
  have wide : k ≤ 64 := small.trans ty.bits_le
  have low : (ty.reduce x) % 2 ^ k = (x : Int) % 2 ^ k := by
    have divides : (2 : Int) ^ k ∣ 2 ^ ty.bits := pow_dvd_pow 2 small
    rw [← emod_emod_of_dvd _ divides, reduce_emod, emod_emod_of_dvd _ divides]
  have lower : ((ty.reduce x % 2 ^ 64) % 2 ^ k) = (x : Int) % 2 ^ k := by
    rw [emod_emod_of_dvd _ (pow_dvd_pow 2 wide), low]
  have nonneg : 0 ≤ ty.reduce x % 2 ^ 64 := emod_nonneg _ (by decide)
  have cast : ((u64 (ty.reduce x) % 2 ^ k : Nat) : Int) = ((x % 2 ^ k : Nat) : Int) := by
    rw [natCast_mod, u64, toNat_of_nonneg nonneg]
    exact lower
  exact Int.ofNat_inj.mp cast

def RangeComputed (ty : IntType) (lb ub : ty.Value) : Prop :=
  (ty.signed = true → 32 ≤ ty.bits → ub.val - lb.val ≤ ty.max) ∧ ub.val - lb.val + 1 < 2 ^ 64

def span (ty : IntType) (lb ub : ty.Value) : Nat := (ub.val - lb.val + 1).toNat

theorem arith_eq {x : Int} (computed : ty.RangeComputed lb ub) (nonneg : 0 ≤ x) (le : x ≤ ub.val - lb.val) :
    ty.arith x = .ok x := by
  unfold arith
  split
  · rfl
  · rename_i wide
    have bound : ub.val - lb.val ≤ ty.max - ty.min := by
      omega
    rw [ty.max_sub_min] at bound
    have low := ty.min_le_zero
    split
    · rename_i signed
      have high := computed.1 signed (by omega)
      rw [if_pos ⟨by omega, by omega⟩]
    · rw [emod_eq_of_lt nonneg (by omega)]

theorem span_pos (le : lb.val ≤ ub.val) : 0 < ty.span lb ub := by
  unfold span
  omega

theorem span_le (lb ub : ty.Value) : ty.span lb ub ≤ 2 ^ ty.bits := by
  have total := ty.max_sub_min
  have cast : ((2 ^ ty.bits : Nat) : Int) = 2 ^ ty.bits := natCast_pow 2 ty.bits
  unfold span
  omega

theorem range_eq (le : lb.val ≤ ub.val) (computed : ty.RangeComputed lb ub) :
    range ty lb ub = .ok (ty.span lb ub) := by
  have bound := computed.2
  unfold range
  rw [arith_eq computed (by omega) le_rfl]
  change Except.ok (u64 (u64 (ub.val - lb.val) + 1)) = _
  congr 1
  unfold u64 span
  omega

theorem range_not_computed (overflows : ¬ty.RangeComputed lb ub) :
    (∃ fault, range ty lb ub = .error fault) ∨ range ty lb ub = .ok 0 := by
  have total := ty.max_sub_min
  have power : (2 : Int) ^ ty.bits ≤ 2 ^ 64 := pow_le_pow_right₀ (by decide) ty.bits_le
  by_cases exceeds : ty.signed = true ∧ 32 ≤ ty.bits ∧ ¬ub.val - lb.val ≤ ty.max
  · refine Or.inl ⟨.undefinedBehaviour, ?_⟩
    obtain ⟨signed, wide, large⟩ := exceeds
    rw [range, arith, if_neg (by omega), if_pos signed, if_neg (fun both => large both.2)]
    rfl
  · have whole : ub.val - lb.val = 2 ^ 64 - 1 := by
      by_contra other
      exact overflows ⟨fun signed wide => by by_contra large; exact exceeds ⟨signed, wide, large⟩, by omega⟩
    have computed : ty.arith (ub.val - lb.val) = .ok (ub.val - lb.val) := by
      have narrow : ¬ty.bits < 32 := by
        intro narrow
        have : (2 : Int) ^ ty.bits ≤ 2 ^ 32 := pow_le_pow_right₀ (by decide) (by omega)
        omega
      have unsigned : ¬ty.signed = true := by
        intro signed
        have : ty.min < 0 := by
          unfold min
          rw [if_pos signed]
          have := pow_pos (show (0 : Int) < 2 by decide) (ty.bits - 1)
          omega
        exact exceeds ⟨signed, by omega, by omega⟩
      rw [arith, if_neg narrow, if_neg unsigned, emod_eq_of_lt (by omega) (by omega)]
    refine Or.inr ?_
    rw [range, computed, whole]
    rfl

end IntType

section ConstrainedWholeNumber
variable {ty : IntType} {bref start : BitRef} {old n lb ub : ty.Value} {aligned : Bool} {k x : Nat}

theorem unpackInt_eq (small : k ≤ ty.bits) (fits : k ≤ bref.rest) :
    unpackInt ty old bref k = ⟨.success, ty.ofInt (field (bit bref.buf) bref.pos k), bref.moved k⟩ := by
  rw [unpackInt, if_neg (by omega), unpack_of_fits small fits]

theorem unpackInt_short (exceeds : ¬k ≤ bref.rest ∨ ¬k ≤ ty.bits) :
    (unpackInt ty old bref k).code ≠ .success := by
  unfold unpackInt
  split
  · simp
  · rename_i small
    intro ok
    have := (unpack_code ty.bits 0 bref k).mp ok
    omega

def offsetOf (n lb : ty.Value) : Nat := (n.val - lb.val).toNat

section
variable (within : lb.val ≤ n.val ∧ n.val ≤ ub.val)
include within

theorem offsetOf_lt : offsetOf n lb < ty.span lb ub := by
  unfold offsetOf IntType.span
  omega

theorem width_bounds : 0 < ty.span lb ub ∧
    ceilLog2 (ty.span lb ub) ≤ ty.bits ∧ offsetOf n lb < 2 ^ ceilLog2 (ty.span lb ub) := by
  have positive := span_pos (within.1.trans within.2)
  exact ⟨positive, (ceilLog2_le_iff positive).mpr (span_le lb ub),
    (offsetOf_lt within).trans_le (le_two_pow_ceilLog2 positive)⟩

theorem offsetOf_le_max (computed : ty.RangeComputed lb ub)
    (wide : 32 ≤ ty.bits) : ((offsetOf n lb : Nat) : Int) ≤ ty.max := by
  unfold offsetOf
  by_cases signed : ty.signed = true
  · have := computed.1 signed wide
    omega
  · have least : ty.min = 0 := by simp [IntType.min, signed]
    omega

theorem addLowerBound_eq (computed : ty.RangeComputed lb ub) :
    addLowerBound ty ⟨.success, ty.ofInt (offsetOf n lb), start⟩ lb ub aligned = .ok ⟨.success, n, start⟩ := by
  have back : ((offsetOf n lb : Nat) : Int) + lb.val = n.val := by
    unfold offsetOf
    omega
  have whole : ∃ sum, ty.arith (ty.reduce (offsetOf n lb) + lb.val) = .ok sum ∧ ty.ofInt sum = n := by
    by_cases narrow : ty.bits < 32
    · refine ⟨_, if_pos narrow, ?_⟩
      have congruent : (ty.reduce (offsetOf n lb) + lb.val) % 2 ^ ty.bits = n.val % 2 ^ ty.bits := by
        rw [add_emod, reduce_emod, ← add_emod, back]
      refine Subtype.ext ?_
      change ty.reduce _ = n.val
      rw [reduce_congr congruent, reduce_of_mem n.2.1 n.2.2]
    · have low := ty.min_le_zero
      have most := offsetOf_le_max within computed (by omega)
      rw [reduce_of_mem (by omega) most, back]
      refine ⟨n.val, ?_, ofInt_val n⟩
      unfold arith
      rw [if_neg narrow]
      split
      · rw [if_pos n.2]
      · rename_i unsigned
        have least : ty.min = 0 := by simp [IntType.min, unsigned]
        have total := ty.max_sub_min
        rw [emod_eq_of_lt (by omega) (by omega)]
  obtain ⟨sum, computed', same⟩ := whole
  change (do let sum ← ty.arith (ty.reduce (offsetOf n lb) + lb.val); _) = _
  rw [computed']
  change (if aligned = false ∧ (ty.ofInt sum).val > ub.val then _ else _) = _
  rw [same, if_neg (by omega)]
  rfl

end

theorem addLowerBound_success {r s : Unpacked ty.Value} (added : addLowerBound ty r lb ub aligned = .ok s)
    (ok : s.code = .success) : r.code = .success ∧ s.bref = r.bref := by
  unfold addLowerBound at added
  split at added
  · rename_i read
    obtain ⟨sum, -, result⟩ := bind_eq_ok.mp added
    dsimp only at result
    split at result
    · obtain rfl := Except.ok.inj result
      contradiction
    · obtain rfl := Except.ok.inj result
      exact ⟨read, rfl⟩
  · obtain rfl := Except.ok.inj added
    exact ⟨ok, rfl⟩

theorem packConstrainedWholeNumber_eq (within : lb.val ≤ n.val ∧ n.val ≤ ub.val)
    (computed : ty.RangeComputed lb ub) (several : ty.span lb ub ≠ 1) (bref : BitRef) :
    packConstrainedWholeNumber ty bref n lb ub aligned =
      .ok (packInRange bref (ty.reduce (offsetOf n lb)) (ty.span lb ub) (ceilLog2 (ty.span lb ub)) aligned) := by
  have le : lb.val ≤ ub.val := within.1.trans within.2
  have positive := span_pos le
  have exactly : n.val - lb.val = (offsetOf n lb : Nat) := by
    unfold offsetOf
    omega
  rw [packConstrainedWholeNumber, if_neg (by omega), range_eq le computed, exactly,
    arith_eq computed (by omega) (by omega)]
  change (if ty.span lb ub = 1 then _ else _) = _
  rw [if_neg several, nofBits, if_neg (by omega)]
  rfl

theorem unpackConstrainedWholeNumber_eq (le : lb.val ≤ ub.val) (computed : ty.RangeComputed lb ub)
    (several : ty.span lb ub ≠ 1) (bref : BitRef) :
    unpackConstrainedWholeNumber ty old bref lb ub aligned =
      let r := unpackInRange ty old bref (ty.span lb ub) (ceilLog2 (ty.span lb ub)) aligned
      addLowerBound ty r lb ub aligned := by
  have positive := span_pos le
  rw [unpackConstrainedWholeNumber, if_neg (by omega), range_eq le computed]
  change (if ty.span lb ub = 1 then _ else _) = _
  rw [if_neg several, nofBits, if_neg (by omega)]
  rfl

variable {N v : Nat}

theorem exact_of_inRange (within : lb.val ≤ n.val ∧ n.val ≤ ub.val) (computed : ty.RangeComputed lb ub)
    (several : ty.span lb ub ≠ 1)
    (packs : ∀ other : BitRef, other.pos = bref.pos → Packs other N v
      (packInRange other (ty.reduce (offsetOf n lb)) (ty.span lb ub) (ceilLog2 (ty.span lb ub)) aligned))
    (reads : ∀ old (start : BitRef), start.pos = bref.pos → N ≤ start.rest →
      field (bit start.buf) start.pos N = v % 2 ^ N →
      unpackInRange ty old start (ty.span lb ub) (ceilLog2 (ty.span lb ub)) aligned =
        ⟨.success, ty.ofInt (offsetOf n lb), start.moved N⟩) :
    Exact n bref (fun bref => packConstrainedWholeNumber ty bref n lb ub aligned)
      (fun old bref => unpackConstrainedWholeNumber ty old bref lb ub aligned) N v := by
  refine Exact.of_packs (fun other same => ?_) (fun old start same fits written => ?_)
  · exact ⟨_, packConstrainedWholeNumber_eq within computed several other, packs other same⟩
  · rw [unpackConstrainedWholeNumber_eq (within.1.trans within.2) computed several, reads old start same fits written,
      addLowerBound_eq within computed]

section InRange
variable {ra : Nat}

theorem packs_field (small : k ≤ ty.bits) (narrow : k < 64) (x : Nat) (bref : BitRef) :
    Packs bref k x (bref.pack (u64 (ty.reduce x)) k) :=
  (pack_packs bref _ k narrow).congr (u64_reduce small x)

theorem unpackInt_of_field (small : k ≤ ty.bits) (fits : k ≤ start.rest)
    (written : field (bit start.buf) start.pos k = x) :
    unpackInt ty old start k = ⟨.success, ty.ofInt x, start.moved k⟩ := by
  rw [unpackInt_eq small fits, written]

theorem packs_octets (small : k ≤ ty.bits) (lt : x < 2 ^ k) (narrow : k < 64) (ra_ge : ¬ra < 256)
    (ra_le : ra ≤ asn64K) (bref : BitRef) :
    Packs bref (bref.pad + ceilFrac k 8 * 8) x (packInRange bref (ty.reduce x) ra k true) := by
  have total : ceilFrac k 8 * 8 - k + (k + 0) = ceilFrac k 8 * 8 := by
    unfold ceilFrac
    omega
  have large : x < 2 ^ (ceilFrac k 8 * 8) :=
    lt.trans_le (Nat.pow_le_pow_right (by decide) (by unfold ceilFrac; omega))
  unfold packInRange
  rw [if_neg ra_ge, if_pos ra_le]
  have written := (alignBytesZero_packs bref).handle fun mid reached =>
    (pack_packs mid 0 (ceilFrac k 8 * 8 - k) (by unfold ceilFrac; omega)).handle fun mid' reached' =>
    (packs_field small narrow x mid').handle fun mid'' reached'' => by
      have aligned : mid''.pad = 0 := @pad_eq_zero bref mid'' (ceilFrac k 8) (by omega)
      exact aligned ▸ alignBytesZero_packs mid''
  rw [total] at written
  refine written.congr ?_
  simp only [zero_mod, Nat.zero_mul, Nat.zero_add, Nat.pow_zero, Nat.mul_one, Nat.add_zero, mod_eq_of_lt lt,
    mod_eq_of_lt large]

theorem reads_octets (octets : ceilFrac k 8 * 8 ≤ ty.bits) (lt : x < 2 ^ k) (ra_ge : ¬ra < 256)
    (ra_le : ra ≤ asn64K) (fits : start.pad + ceilFrac k 8 * 8 ≤ start.rest)
    (written : field (bit start.buf) start.pos (start.pad + ceilFrac k 8 * 8) =
      x % 2 ^ (start.pad + ceilFrac k 8 * 8)) :
    unpackInRange ty old start ra k true =
      ⟨.success, ty.ofInt x, start.moved (start.pad + ceilFrac k 8 * 8)⟩ := by
  have larger {m : Nat} (le : k ≤ m) : x < 2 ^ m := lt.trans_le (Nat.pow_le_pow_right (by decide) le)
  have whole : k ≤ ceilFrac k 8 * 8 := by
    unfold ceilFrac
    omega
  rw [mod_eq_of_lt (larger (by omega))] at written
  have value := field_tail (larger whole) written
  have aligned : (start.moved (start.pad + ceilFrac k 8 * 8)).pad = 0 :=
    @pad_eq_zero start _ (ceilFrac k 8) (by rw [moved_pos]; omega)
  have number : unpackInt ty old (start.moved start.pad) (ceilFrac k 8 * 8) =
      ⟨.success, ty.ofInt x, (start.moved start.pad).moved (ceilFrac k 8 * 8)⟩ :=
    unpackInt_of_field octets (by rw [rest_moved]; omega) (by rw [moved_pos]; exact value)
  unfold unpackInRange
  rw [if_neg (by decide), if_neg ra_ge, if_pos ra_le, alignBytes_eq, if_pos (by omega)]
  simp only [Packed.unpacking, Unpacked.handle, number, moved_moved]
  rw [alignBytes_eq, aligned, if_pos (Nat.zero_le _), moved_zero]
  simp only [if_true]

def octetsOf (x : Nat) : Nat := ceilFrac (floorLog2f (max x 1)) 8

theorem floorLog2f_bounds (lt : x < 2 ^ 64) : x < 2 ^ floorLog2f (max x 1) ∧
    floorLog2f (max x 1) ≤ (max x 1).log2 + 2 := by
  have small : max x 1 < 2 ^ 64 := Nat.max_lt.mpr ⟨lt, by decide⟩
  have bits : (max x 1).log2 < 64 := (Nat.log2_lt (by omega)).mpr small
  obtain ⟨least, most⟩ := floorLog2f_mem (log2_self_le (by omega)) (lt_log2_self (n := max x 1)) bits
  have below : max x 1 < 2 ^ ((max x 1).log2 + 1) := lt_log2_self
  exact ⟨(Nat.le_max_left x 1).trans_lt (below.trans_le (Nat.pow_le_pow_right (by decide) least)), most⟩

theorem lt_two_pow_octetsOf (lt : x < 2 ^ 64) : x < 2 ^ (octetsOf x * 8) := by
  refine (floorLog2f_bounds lt).1.trans_le (Nat.pow_le_pow_right (by decide) ?_)
  unfold octetsOf ceilFrac
  omega

theorem octetsOf_pos (lt : x < 2 ^ 64) : 0 < octetsOf x := by
  have small : max x 1 < 2 ^ 64 := Nat.max_lt.mpr ⟨lt, Nat.one_lt_two_pow (by decide)⟩
  have some_ : floorLog2f (max x 1) ≠ 0 := by
    intro none
    have below := (floorLog2f_bounds small).1
    rw [Nat.max_eq_left (Nat.le_max_right x 1), none] at below
    omega
  unfold octetsOf ceilFrac
  omega

/-- The values of a range of at most `2 ^ 32` that take five octets, of which a length of two bits tells one. -/
def Overcounted (span offset : Nat) : Prop := span ≤ 2 ^ 32 ∧ 4294958721 ≤ offset

theorem octetsOf_overcounted (lt : x < 2 ^ 32) (large : 4294958721 ≤ x) : octetsOf x = 5 := by
  have here : max x 1 = x := by omega
  have bits : x.log2 < 32 := (Nat.log2_lt (by omega)).mpr lt
  have most := (floorLog2f_bounds (x := x) (by omega)).2
  have more := (floorLog2f_le_32_iff (by omega) lt).not.mpr (Nat.not_lt.mpr large)
  unfold octetsOf ceilFrac
  rw [here] at most ⊢
  omega

theorem octetsOf_counted {span : Nat} (wide : 16 < ceilLog2 span) (small : ceilLog2 span ≤ ty.bits)
    (fine : ¬Overcounted span x) (few : octetsOf x * 8 < 64) :
    octetsOf x - 1 < 2 ^ ceilLog2 (ceilFrac (ceilLog2 span) 8) ∧ octetsOf x * 8 ≤ ty.bits := by
  have pos : 0 < span := by
    by_contra zero
    rw [Nat.eq_zero_of_not_pos zero] at wide
    exact absurd wide (by decide)
  have le := ty.bits_le
  by_cases short : ceilLog2 span ≤ 32
  · have offset : x < 4294958721 := by
      by_contra large
      exact fine ⟨(ceilLog2_le_iff pos).mp short, Nat.le_of_not_lt large⟩
    have bits := (floorLog2f_le_32_iff (n := max x 1) (by omega) (by omega)).mpr (by omega)
    have octets : octetsOf x ≤ 4 := by
      unfold octetsOf ceilFrac
      omega
    have type := bits_wide ⟨wide, small⟩
    have two : 2 ≤ ceilLog2 (ceilFrac (ceilLog2 span) 8) := by
      rw [← Nat.not_lt, Nat.lt_succ_iff, ceilLog2_le_iff (by unfold ceilFrac; omega)]
      unfold ceilFrac
      omega
    have room : 2 ^ 2 ≤ 2 ^ ceilLog2 (ceilFrac (ceilLog2 span) 8) := Nat.pow_le_pow_right (by decide) two
    omega
  · have three : 3 ≤ ceilLog2 (ceilFrac (ceilLog2 span) 8) := by
      rw [← Nat.not_lt, Nat.lt_succ_iff, ceilLog2_le_iff (by unfold ceilFrac; omega)]
      unfold ceilFrac
      omega
    have room : 2 ^ 3 ≤ 2 ^ ceilLog2 (ceilFrac (ceilLog2 span) 8) := Nat.pow_le_pow_right (by decide) three
    have type : 64 ≤ ty.bits := by
      obtain ⟨width, signed⟩ := ty
      cases width <;> simp only [IntType.bits, IntWidth.bits] at small ⊢ <;> omega
    omega

theorem ceilLog2_octets_le (k : Nat) (le : k ≤ 64) : ceilLog2 (ceilFrac k 8) ≤ 3 := by
  by_cases none : ceilFrac k 8 = 0
  · rw [none]
    decide
  · refine (ceilLog2_le_iff (Nat.pos_of_ne_zero none)).mpr ?_
    unfold ceilFrac
    omega

def countedRest (bref : BitRef) (k x : Nat) : Nat := (bref.moved (ceilLog2 (ceilFrac k 8))).pad + octetsOf x * 8

theorem countedRest_congr {a b : BitRef} (same : a.pos = b.pos) : countedRest a k x = countedRest b k x := by
  unfold countedRest
  rw [pad_congr]
  rw [moved_pos, moved_pos, same]

theorem lt_two_pow_countedRest (lt : x < 2 ^ 64) (bref : BitRef) (k : Nat) : x < 2 ^ countedRest bref k x :=
  (lt_two_pow_octetsOf lt).trans_le (Nat.pow_le_pow_right (by decide) (Nat.le_add_left _ _))

section Counted
variable (wide : ¬ra ≤ asn64K) (lt : x < 2 ^ k) (le : k ≤ 64)
include wide lt le

theorem packInRange_counted (inside : (x : Int) ≤ ty.max) (bref : BitRef) :
    packInRange bref (ty.reduce x) ra k true =
      (bref.pack (octetsOf x - 1) (ceilLog2 (ceilFrac k 8))).handle fun bref =>
        bref.alignBytesZero.handle fun bref => bref.pack (u64 (ty.reduce x)) (octetsOf x * 8) := by
  have low := ty.min_le_zero
  have small : x < 2 ^ 64 := lt.trans_le (Nat.pow_le_pow_right (by decide) le)
  have same : u64 (max (ty.reduce x) 1) = max x 1 := by
    rw [reduce_of_mem (by omega) inside]
    unfold u64
    omega
  have many : ¬ra < 256 := by
    unfold asn64K at wide
    omega
  unfold packInRange
  rw [if_neg many, if_neg wide, same]
  rfl

theorem packs_counted (inside : (x : Int) ≤ ty.max) (few : octetsOf x * 8 < 64) (bref : BitRef) :
    Packs bref (ceilLog2 (ceilFrac k 8) + countedRest bref k x)
      ((octetsOf x - 1) % 2 ^ ceilLog2 (ceilFrac k 8) * 2 ^ countedRest bref k x + x)
      (packInRange bref (ty.reduce x) ra k true) := by
  have count := ceilLog2_octets_le k le
  have low := ty.min_le_zero
  have small : x < 2 ^ 64 := lt.trans_le (Nat.pow_le_pow_right (by decide) le)
  have same : u64 (ty.reduce x) = x := by
    rw [reduce_of_mem (by omega) inside]
    unfold u64
    omega
  rw [packInRange_counted wide lt le inside, same]
  have written := (pack_packs bref (octetsOf x - 1) (ceilLog2 (ceilFrac k 8)) (by omega)).handle fun mid reached => by
    have same : mid.pad = (bref.moved (ceilLog2 (ceilFrac k 8))).pad :=
      pad_congr (reached.trans (moved_pos bref _).symm)
    exact same ▸ (alignBytesZero_packs mid).handle fun mid' _ => pack_packs mid' x (octetsOf x * 8) few
  refine written.congr ?_
  change (_ * 2 ^ countedRest bref k x + _ % 2 ^ countedRest bref k x) % _ = _
  rw [zero_mod, Nat.zero_mul, Nat.zero_add, mod_eq_of_lt (lt_two_pow_octetsOf small),
    mod_eq_of_lt (lt_two_pow_countedRest small bref k)]

theorem reads_counted (counted : octetsOf x - 1 < 2 ^ ceilLog2 (ceilFrac k 8)) (octets : octetsOf x * 8 ≤ ty.bits)
    (fits : ceilLog2 (ceilFrac k 8) + countedRest start k x ≤ start.rest)
    (written : field (bit start.buf) start.pos (ceilLog2 (ceilFrac k 8) + countedRest start k x) =
      ((octetsOf x - 1) * 2 ^ countedRest start k x + x) % 2 ^ (ceilLog2 (ceilFrac k 8) + countedRest start k x)) :
    unpackInRange ty old start ra k true =
      ⟨.success, ty.ofInt x, start.moved (ceilLog2 (ceilFrac k 8) + countedRest start k x)⟩ := by
  have few := ceilLog2_octets_le k le
  have small : x < 2 ^ 64 := lt.trans_le (Nat.pow_le_pow_right (by decide) le)
  have large := lt_two_pow_countedRest small start k
  have total : (octetsOf x - 1) * 2 ^ countedRest start k x + x <
      2 ^ (ceilLog2 (ceilFrac k 8) + countedRest start k x) := by
    rw [Nat.pow_add]
    calc
      _ < (octetsOf x - 1) * 2 ^ countedRest start k x + 2 ^ countedRest start k x := Nat.add_lt_add_left large _
      _ = (octetsOf x - 1 + 1) * 2 ^ countedRest start k x := by ring
      _ ≤ _ := Nat.mul_le_mul_right _ counted
  rw [mod_eq_of_lt total] at written
  obtain ⟨count, behind⟩ := field_split large written
  have value := field_tail (lt_two_pow_octetsOf small) behind
  have many : ¬ra < 256 := by
    unfold asn64K at wide
    omega
  have positive : octetsOf x - 1 + 1 = octetsOf x := Nat.sub_add_cancel (octetsOf_pos small)
  have first : start.unpack 32 0 (ceilLog2 (ceilFrac k 8)) =
      ⟨.success, octetsOf x - 1, start.moved (ceilLog2 (ceilFrac k 8))⟩ := by
    rw [unpack_of_fits (by omega) (by omega), count]
  unfold unpackInRange
  rw [if_neg (by decide), if_neg many, if_neg wide]
  dsimp only
  rw [first]
  have rest : (start.moved (ceilLog2 (ceilFrac k 8))).pad + octetsOf x * 8 ≤
      (start.moved (ceilLog2 (ceilFrac k 8))).rest := by
    rw [rest_moved]
    unfold countedRest at fits
    omega
  unfold countedRest at value ⊢
  generalize ceilLog2 (ceilFrac k 8) = bits at *
  have number : unpackInt ty old ((start.moved bits).moved (start.moved bits).pad) (octetsOf x * 8) = ⟨.success,
      ty.ofInt x, ((start.moved bits).moved (start.moved bits).pad).moved (octetsOf x * 8)⟩ :=
    unpackInt_of_field octets (by rw [rest_moved]; omega) (by rw [moved_pos, moved_pos]; exact value)
  simp only [Unpacked.handle, if_true, alignBytes_eq]
  rw [if_pos (by omega), Packed.unpacking, if_pos rfl, positive, number, moved_moved, moved_moved]

end Counted
end InRange

theorem handle_failed {r : Packed} {next : BitRef → Packed} (failed : ∀ mid, (next mid).code ≠ .success) :
    (r.handle next).code ≠ .success := by
  unfold Packed.handle
  split
  · exact failed _
  · assumption

theorem pack_failed (bref : BitRef) (v : Nat) (wide : 64 ≤ k) : bref.pack v k = ⟨.encodeFail, bref⟩ := if_pos wide

theorem ceilFrac_mul_le (small : k ≤ ty.bits) : ceilFrac k 8 * 8 ≤ ty.bits := by
  obtain ⟨width, signed⟩ := ty
  unfold ceilFrac
  cases width <;> simp only [IntType.bits, IntWidth.bits] at small ⊢ <;> omega

theorem ceilLog2_wide {span : Nat} (pos : 0 < span) (wide : ¬span ≤ asn64K) : 16 < ceilLog2 span := by
  by_contra short
  exact wide ((ceilLog2_le_iff pos).mp (Nat.le_of_not_lt short))

/-- When the encoding of a constrained whole number can be relied on: the number of values has to be computed, and the
unaligned variant loses what `pack` reports. -/
def ConstrainedMeets (ty : IntType) (rest pad : Nat) (n lb ub : ty.Value) (aligned : Bool) : Prop :=
  ¬(lb.val ≤ n.val ∧ n.val ≤ ub.val) ∨
    ty.RangeComputed lb ub ∧
      if aligned then ¬(Overcounted (ty.span lb ub) (offsetOf n lb) ∧ 42 + (pad + 6) % 8 ≤ rest)
      else ty.span lb ub = 1 ∨ ceilLog2 (ty.span lb ub) < 64 ∧ ceilLog2 (ty.span lb ub) ≤ rest

section Settled
variable (within : lb.val ≤ n.val ∧ n.val ≤ ub.val) (computed : ty.RangeComputed lb ub)
include within computed

theorem single_exact (single : ty.span lb ub = 1) :
    Exact n bref (fun bref => packConstrainedWholeNumber ty bref n lb ub aligned)
      (fun old bref => unpackConstrainedWholeNumber ty old bref lb ub aligned) 0 0 := by
  have le : lb.val ≤ ub.val := within.1.trans within.2
  have same : lb = n := Subtype.ext (by unfold IntType.span at single; omega)
  have range := range_eq le computed
  rw [single] at range
  refine Exact.of_packs (fun other _ => ⟨_, ?_, Packs.nothing other 0⟩) (fun old start _ _ _ => ?_)
  · rw [packConstrainedWholeNumber, if_neg (by omega), range]
    rfl
  · rw [unpackConstrainedWholeNumber, if_neg (by omega), range, moved_zero, ← same]
    rfl

section Several
variable (several : ty.span lb ub ≠ 1)
include several

theorem field_exact (few : ty.span lb ub < 256) :
    Exact n bref (fun bref => packConstrainedWholeNumber ty bref n lb ub true)
      (fun old bref => unpackConstrainedWholeNumber ty old bref lb ub true)
      (ceilLog2 (ty.span lb ub)) (offsetOf n lb) := by
  obtain ⟨positive, small, lt⟩ := width_bounds within
  have narrow : ceilLog2 (ty.span lb ub) ≤ 8 := (ceilLog2_le_iff positive).mpr (Nat.le_of_lt few)
  refine exact_of_inRange within computed several (fun other _ => ?_) (fun old start _ fits written => ?_)
  · rw [packInRange, if_pos few]
    exact packs_field small (by omega) (offsetOf n lb) other
  · rw [unpackInRange, if_pos few]
    exact unpackInt_of_field small fits (written.trans (mod_eq_of_lt lt))

theorem octets_exact (many : ¬ty.span lb ub < 256) (octets : ty.span lb ub ≤ asn64K) :
    Exact n bref (fun bref => packConstrainedWholeNumber ty bref n lb ub true)
      (fun old bref => unpackConstrainedWholeNumber ty old bref lb ub true)
      (bref.pad + ceilFrac (ceilLog2 (ty.span lb ub)) 8 * 8) (offsetOf n lb) := by
  obtain ⟨positive, small, lt⟩ := width_bounds within
  have narrow : ceilLog2 (ty.span lb ub) ≤ 16 := (ceilLog2_le_iff positive).mpr octets
  refine exact_of_inRange within computed several (fun other same => ?_) (fun old start same fits written => ?_)
  · rw [← pad_congr same]
    exact packs_octets small lt (by omega) many octets other
  · rw [← pad_congr same] at fits written ⊢
    exact reads_octets (ceilFrac_mul_le small) lt many octets fits written

theorem counted_exact (wide : ¬ty.span lb ub ≤ asn64K) (fine : ¬Overcounted (ty.span lb ub) (offsetOf n lb)) :
    (∃ N v, Exact n bref (fun bref => packConstrainedWholeNumber ty bref n lb ub true)
      (fun old bref => unpackConstrainedWholeNumber ty old bref lb ub true) N v) ∨
    Refuses bref (fun bref => packConstrainedWholeNumber ty bref n lb ub true) := by
  obtain ⟨positive, small, lt⟩ := width_bounds within
  have long := ceilLog2_wide positive wide
  have inside := offsetOf_le_max within computed (bits_wide ⟨long, small⟩)
  have le := small.trans ty.bits_le
  by_cases fewer : octetsOf (offsetOf n lb) * 8 < 64
  · obtain ⟨counted, most⟩ := octetsOf_counted long small fine fewer
    have rest {other : BitRef} (same : other.pos = bref.pos) :
        countedRest other (ceilLog2 (ty.span lb ub)) (offsetOf n lb) =
          countedRest bref (ceilLog2 (ty.span lb ub)) (offsetOf n lb) := countedRest_congr same
    have packs (other : BitRef) := packs_counted wide lt le inside fewer other
    rw [mod_eq_of_lt counted] at packs
    refine Or.inl ⟨_, (octetsOf (offsetOf n lb) - 1) *
        2 ^ countedRest bref (ceilLog2 (ty.span lb ub)) (offsetOf n lb) + offsetOf n lb,
      exact_of_inRange within computed several (fun other same => rest same ▸ packs other)
        (fun old start same fits written => ?_)⟩
    rw [← rest same] at fits written ⊢
    exact reads_counted wide lt le counted most fits written
  · refine Or.inr ⟨_, packConstrainedWholeNumber_eq within computed several bref, ?_⟩
    rw [packInRange_counted wide lt le inside]
    refine handle_failed fun mid => handle_failed fun mid' => ?_
    rw [pack_failed mid' _ (by omega)]
    simp

section Overcounted
variable (beyond : Overcounted (ty.span lb ub) (offsetOf n lb))
include beyond

omit computed several in
theorem overcounted_bits : 16 < ceilLog2 (ty.span lb ub) ∧ ceilLog2 (ty.span lb ub) ≤ 32 ∧
    ceilLog2 (ceilFrac (ceilLog2 (ty.span lb ub)) 8) = 2 ∧ ¬ty.span lb ub ≤ asn64K := by
  obtain ⟨positive, -, -⟩ := width_bounds within
  have below := offsetOf_lt within
  have wide : ¬ty.span lb ub ≤ asn64K := by
    unfold asn64K
    have := beyond.2
    omega
  have long := ceilLog2_wide positive wide
  have short := (ceilLog2_le_iff positive).mpr beyond.1
  refine ⟨long, short, le_antisymm ?_ ?_, wide⟩
  · rw [ceilLog2_le_iff (by unfold ceilFrac; omega)]
    unfold ceilFrac
    omega
  · rw [← Nat.not_lt, Nat.lt_succ_iff, ceilLog2_le_iff (by unfold ceilFrac; omega)]
    unfold ceilFrac
    omega

omit several in
theorem overcounted_packs : Packs bref (42 + (bref.pad + 6) % 8) (offsetOf n lb)
    (packInRange bref (ty.reduce (offsetOf n lb)) (ty.span lb ub) (ceilLog2 (ty.span lb ub)) true) := by
  obtain ⟨long, short, bits, wide⟩ := overcounted_bits within beyond
  obtain ⟨-, small, lt⟩ := width_bounds within
  have octets := octetsOf_overcounted ((offsetOf_lt within).trans_le beyond.1) beyond.2
  have packs := packs_counted wide lt (by omega) (offsetOf_le_max within computed (bits_wide ⟨long, small⟩))
    (by omega) bref
  have rest : countedRest bref (ceilLog2 (ty.span lb ub)) (offsetOf n lb) = 40 + (bref.pad + 6) % 8 := by
    have bound := bref.offset_lt
    unfold countedRest
    rw [octets, bits]
    unfold pad moved
    dsimp only
    omega
  rw [rest, bits, octets] at packs
  rw [show 42 + (bref.pad + 6) % 8 = 2 + (40 + (bref.pad + 6) % 8) by omega]
  simpa using packs

omit within computed several beyond in
theorem unpackInRange_one_octet {ra : Nat} (wide : ¬ra ≤ asn64K) (bits : ceilLog2 (ceilFrac k 8) = 2)
    (fits : 10 + (start.moved 2).pad ≤ start.rest) (count : field (bit start.buf) start.pos 2 = 0) :
    (unpackInRange ty old start ra k true).bref = start.moved (10 + (start.moved 2).pad) := by
  have many : ¬ra < 256 := by
    unfold asn64K at wide
    omega
  have octet : 8 ≤ ty.bits := by
    obtain ⟨width, signed⟩ := ty
    cases width <;> simp [IntType.bits, IntWidth.bits]
  have first : start.unpack 32 0 2 = ⟨.success, 0, start.moved 2⟩ := by
    rw [unpack_of_fits (by decide) (by omega), count]
  unfold unpackInRange
  rw [if_neg (by decide), if_neg many, if_neg wide, bits]
  dsimp only
  rw [first]
  simp only [Unpacked.handle, if_true, alignBytes_eq]
  rw [rest_moved, if_pos (by omega), Packed.unpacking, if_pos rfl, moved_moved,
    unpackInt_eq octet (by rw [rest_moved]; omega), moved_moved]
  refine congrArg start.moved ?_
  omega

theorem overcounted_breaks (fits : 42 + (bref.pad + 6) % 8 ≤ bref.rest) :
    Breaks n bref (fun bref => packConstrainedWholeNumber ty bref n lb ub true)
      (fun old bref => unpackConstrainedWholeNumber ty old bref lb ub true) := by
  obtain ⟨long, short, bits, wide⟩ := overcounted_bits within beyond
  have le := within.1.trans within.2
  have packed := @overcounted_packs _ bref _ _ _ within computed beyond
  have ok := packed.code.mpr fits
  refine Or.inr ⟨_, packConstrainedWholeNumber_eq within computed several bref, ok, packed.length, packed.before, n,
    fun decoded => ?_⟩
  have stop := packed.pos ok
  obtain ⟨begun, inside, written⟩ := packed.restart ok rfl
  dsimp only at decoded
  rw [unpackConstrainedWholeNumber_eq le computed several] at decoded
  obtain ⟨-, stopped⟩ := addLowerBound_success decoded rfl
  have bound := bref.offset_lt
  have small : offsetOf n lb < 2 ^ (40 + (bref.pad + 6) % 8) :=
    (offsetOf_lt within).trans_le (beyond.1.trans (Nat.pow_le_pow_right (by decide) (by omega)))
  have small' : offsetOf n lb < 2 ^ (2 + (40 + (bref.pad + 6) % 8)) :=
    small.trans_le (Nat.pow_le_pow_right (by decide) (by omega))
  -- the two bits of the length are the lower ones of 4
  rw [show 42 + (bref.pad + 6) % 8 = 2 + (40 + (bref.pad + 6) % 8) by omega, mod_eq_of_lt small'] at written
  have count := (field_split small (written.trans (by omega : _ = 0 * 2 ^ (40 + (bref.pad + 6) % 8) + _))).1
  have pad_ : (BitRef.moved { bref with buf := (packInRange bref (ty.reduce (offsetOf n lb)) (ty.span lb ub)
      (ceilLog2 (ty.span lb ub)) true).bref.buf } 2).pad = (bref.pad + 6) % 8 := by
    unfold pad moved
    dsimp only
    omega
  rw [unpackInRange_one_octet wide bits (by omega) count] at stopped
  have pos := congrArg BitRef.pos stopped
  rw [moved_pos, begun, pad_, stop] at pos
  omega

end Overcounted

theorem unaligned_exact (fits : ceilLog2 (ty.span lb ub) ≤ bref.rest) (narrow : ceilLog2 (ty.span lb ub) < 64) :
    Exact n bref (fun bref => packConstrainedWholeNumber ty bref n lb ub false)
      (fun old bref => unpackConstrainedWholeNumber ty old bref lb ub false)
      (ceilLog2 (ty.span lb ub)) (offsetOf n lb) := by
  have le := within.1.trans within.2
  obtain ⟨positive, small, lt⟩ := width_bounds within
  have packed (other : BitRef) := packs_field small narrow (offsetOf n lb) other
  refine ⟨⟨_, packConstrainedWholeNumber_eq within computed several bref, ?_⟩, fun other s same result _ => ?_,
    fun old start _ inside written => ?_⟩
  · have here := packed bref
    exact ⟨by simp [packInRange, fits], here.length, here.before, here.pos_le, fun _ => here.pos (here.code.mpr fits),
      fun _ => here.written (here.code.mpr fits)⟩
  · rw [packConstrainedWholeNumber_eq within computed several] at result
    obtain rfl := Except.ok.inj result
    exact same ▸ (packed other).pos_le
  · rw [unpackConstrainedWholeNumber_eq le computed several, unpackInRange, if_pos rfl,
      unpackInt_of_field small inside (written.trans (mod_eq_of_lt lt)), addLowerBound_eq within computed]

theorem unaligned_breaks (exceeds : ¬(ceilLog2 (ty.span lb ub) < 64 ∧ ceilLog2 (ty.span lb ub) ≤ bref.rest)) :
    Breaks n bref (fun bref => packConstrainedWholeNumber ty bref n lb ub false)
      (fun old bref => unpackConstrainedWholeNumber ty old bref lb ub false) := by
  have le := within.1.trans within.2
  have read {start stop : BitRef} (decoded : unpackConstrainedWholeNumber ty n start lb ub false =
      .ok ⟨.success, n, stop⟩) : ceilLog2 (ty.span lb ub) ≤ start.rest ∧
        stop = start.moved (ceilLog2 (ty.span lb ub)) := by
    rw [unpackConstrainedWholeNumber_eq le computed several, unpackInRange, if_pos rfl] at decoded
    obtain ⟨ok, stopped⟩ := addLowerBound_success decoded rfl
    have inside : ceilLog2 (ty.span lb ub) ≤ start.rest ∧ ceilLog2 (ty.span lb ub) ≤ ty.bits := by
      by_contra short
      exact unpackInt_short (by omega) ok
    refine ⟨inside.1, stopped.trans ?_⟩
    rw [unpackInt_eq inside.2 inside.1]
  refine Or.inr ⟨_, packConstrainedWholeNumber_eq within computed several bref, ?_⟩
  simp only [packInRange, if_true]
  by_cases narrow : ceilLog2 (ty.span lb ub) < 64
  · have packed := pack_packs bref (u64 (ty.reduce (offsetOf n lb))) _ narrow
    refine ⟨trivial, packed.length, packed.before, n, fun decoded => ?_⟩
    have inside := (read decoded).1
    rw [rest, packed.length] at inside
    exact exceeds ⟨narrow, inside⟩
  · rw [pack_failed bref _ (by omega)]
    refine ⟨trivial, rfl, fun _ _ => rfl, n, fun decoded => ?_⟩
    have still : bref.pos = bref.pos + ceilLog2 (ty.span lb ub) :=
      (congrArg BitRef.pos (read decoded).2).trans (moved_pos _ _)
    omega

end Several

end Settled

theorem packConstrainedWholeNumber_error (within : lb.val ≤ n.val ∧ n.val ≤ ub.val)
    (overflows : ¬ty.RangeComputed lb ub) (bref : BitRef) (aligned : Bool) :
    ∃ fault, packConstrainedWholeNumber ty bref n lb ub aligned = .error fault := by
  rw [packConstrainedWholeNumber, if_neg (by omega)]
  obtain ⟨fault, broken⟩ | zero := range_not_computed overflows
  · exact ⟨fault, by rw [broken]; rfl⟩
  · exact ⟨.undefinedBehaviour, by rw [zero]; rfl⟩

theorem constrained_settled (bref : BitRef) (n lb ub : ty.Value) (aligned : Bool) :
    Settled n bref (fun bref => packConstrainedWholeNumber ty bref n lb ub aligned)
      (fun old bref => unpackConstrainedWholeNumber ty old bref lb ub aligned)
      (ConstrainedMeets ty bref.rest bref.pad n lb ub aligned) := by
  by_cases within : lb.val ≤ n.val ∧ n.val ≤ ub.val
  swap
  · refine ⟨fun _ => Or.inr ⟨_, if_pos (by omega), by simp⟩, fun fails => absurd (Or.inl within) fails⟩
  by_cases computed : ty.RangeComputed lb ub
  swap
  · have broken := packConstrainedWholeNumber_error within computed bref aligned
    exact ⟨fun meets => absurd (meets.resolve_left (not_not.mpr within)).1 computed, fun _ => Or.inl broken⟩
  unfold ConstrainedMeets
  rw [or_iff_right (not_not.mpr within), and_iff_right computed]
  by_cases single : ty.span lb ub = 1
  · refine ⟨fun _ => Or.inl ⟨0, 0, single_exact within computed single⟩, fun fails => ?_⟩
    have below := offsetOf_lt within
    split at fails
    · have beyond := (not_not.mp fails).1.2
      omega
    · exact absurd (Or.inl single) fails
  cases aligned with
  | false =>
    rw [if_neg Bool.false_ne_true, or_iff_right single]
    exact ⟨fun meets => Or.inl ⟨_, _, unaligned_exact within computed single meets.2 meets.1⟩,
      unaligned_breaks within computed single⟩
  | true =>
    rw [if_pos rfl]
    refine ⟨fun fine => ?_, fun fails => ?_⟩
    · by_cases few : ty.span lb ub < 256
      · exact Or.inl ⟨_, _, field_exact within computed single few⟩
      by_cases octets : ty.span lb ub ≤ asn64K
      · exact Or.inl ⟨_, _, octets_exact within computed single few octets⟩
      by_cases beyond : Overcounted (ty.span lb ub) (offsetOf n lb)
      · refine Or.inr ⟨_, packConstrainedWholeNumber_eq within computed single bref,
          fun ok => fine ⟨beyond, ?_⟩⟩
        exact (overcounted_packs within computed beyond).code.mp ok
      · exact counted_exact within computed single octets beyond
    · obtain ⟨beyond, fits⟩ := not_not.mp fails
      exact overcounted_breaks within computed single beyond fits

end ConstrainedWholeNumber

end IsrRan.Asn1
