import IsrRan.Asn1.BitRef
import IsrRan.Lib.Binary32

namespace IsrRan.Asn1
open BitRef

inductive IntWidth where
  | w8 | w16 | w32 | w64
  deriving DecidableEq, Repr

def IntWidth.bits : IntWidth → Nat
  | .w8 => 8
  | .w16 => 16
  | .w32 => 32
  | .w64 => 64

structure IntType where
  width : IntWidth
  signed : Bool
  deriving DecidableEq, Repr

namespace IntType

def bits (ty : IntType) : Nat := ty.width.bits

def min (ty : IntType) : Int := if ty.signed then -2 ^ (ty.bits - 1) else 0

def max (ty : IntType) : Int := if ty.signed then 2 ^ (ty.bits - 1) - 1 else 2 ^ ty.bits - 1

abbrev Value (ty : IntType) : Type := { x : Int // ty.min ≤ x ∧ x ≤ ty.max }

def reduce (ty : IntType) (x : Int) : Int := (x - ty.min) % 2 ^ ty.bits + ty.min

theorem reduce_mem (ty : IntType) (x : Int) : ty.min ≤ ty.reduce x ∧ ty.reduce x ≤ ty.max := by
  obtain ⟨width, signed⟩ := ty
  cases width <;> cases signed <;>
    simp only [reduce, min, max, bits, IntWidth.bits, Bool.false_eq_true, if_true, if_false] <;> omega

def ofInt (ty : IntType) (x : Int) : ty.Value := ⟨ty.reduce x, ty.reduce_mem x⟩

/-- A sum or difference of two values, by its exact value `x`. Narrow operands are promoted to `int`. -/
def arith (ty : IntType) (x : Int) : Except Fault Int :=
  if ty.bits < 32 then .ok x
  else if ty.signed then if ty.min ≤ x ∧ x ≤ ty.max then .ok x else .error .undefinedBehaviour
  else .ok (x % 2 ^ ty.bits)

end IntType

def u64 (x : Int) : Nat := (x % 2 ^ 64).toNat

def asn16K : Nat := 16384

def asn64K : Nat := 65536

def ceilFrac (n d : Nat) : Nat := (n + (d - 1)) / d

/-- `ceilf(log2f(x))` without rounding, for a positive `x`. -/
def ceilLog2 (x : Nat) : Nat := if x ≤ 1 then 0 else (x - 1).log2 + 1

/-- The conversion of `ceilf(log2f(x))` to `uint32_t`: the logarithm of 0 is infinite. -/
def nofBits (x : Nat) : Except Fault Nat := if x = 0 then .error .undefinedBehaviour else .ok (ceilLog2 x)

def Packed.unpacking {α : Type} (r : Packed) (val : α) (next : BitRef → Unpacked α) : Unpacked α :=
  if r.code = .success then next r.bref else ⟨r.code, val, r.bref⟩

def unpackInt (ty : IntType) (old : ty.Value) (bref : BitRef) (nBits : Nat) : Unpacked ty.Value :=
  if nBits > ty.bits then ⟨.decodeFail, old, bref⟩
  else
    let r := bref.unpack ty.bits 0 nBits
    ⟨r.code, ty.ofInt r.val, r.bref⟩

section ConstrainedWholeNumber
variable (ty : IntType)

def range (lb ub : ty.Value) : Except Fault Nat := do
  let width ← ty.arith (ub.val - lb.val)
  pure (u64 (u64 width + 1))

def packInRange (bref : BitRef) (toencode : Int) (ra nBits : Nat) (aligned : Bool) : Packed :=
  if aligned = false then ⟨.success, (bref.pack (u64 toencode) nBits).bref⟩
  else if ra < 256 then bref.pack (u64 toencode) nBits
  else if ra ≤ asn64K then
    let nOctets := ceilFrac nBits 8
    bref.alignBytesZero.handle fun bref =>
    (bref.pack 0 (nOctets * 8 - nBits)).handle fun bref =>
    (bref.pack (u64 toencode) nBits).handle fun bref =>
    bref.alignBytesZero
  else
    let nBitsLen := ceilLog2 (ceilFrac nBits 8)
    let nBits := Lib.floorLog2f (u64 (max toencode 1))
    let nOctets := ceilFrac nBits 8
    (bref.pack (nOctets - 1) nBitsLen).handle fun bref =>
    bref.alignBytesZero.handle fun bref =>
    bref.pack (u64 toencode) (nOctets * 8)

def packConstrainedWholeNumber (bref : BitRef) (n lb ub : ty.Value) (aligned : Bool) : Except Fault Packed :=
  if ub.val < lb.val ∨ n.val < lb.val ∨ n.val > ub.val then .ok ⟨.encodeFail, bref⟩
  else do
    let ra ← range ty lb ub
    if ra = 1 then pure ⟨.success, bref⟩
    else
      let nBits ← nofBits ra
      let toencode ← ty.arith (n.val - lb.val)
      pure (packInRange bref (ty.ofInt toencode).val ra nBits aligned)

def unpackInRange (old : ty.Value) (bref : BitRef) (ra nBits : Nat) (aligned : Bool) : Unpacked ty.Value :=
  if aligned = false then unpackInt ty old bref nBits
  else if ra < 256 then unpackInt ty old bref nBits
  else if ra ≤ asn64K then
    let nOctets := ceilFrac nBits 8
    bref.alignBytes.unpacking old fun bref =>
    let r := unpackInt ty old bref (nOctets * 8)
    r.handle r.val fun n bref =>
    bref.alignBytes.unpacking n fun bref => ⟨.success, n, bref⟩
  else
    let nBitsLen := ceilLog2 (ceilFrac nBits 8)
    (bref.unpack 32 0 nBitsLen).handle old fun nOctets bref =>
    bref.alignBytes.unpacking old fun bref =>
    unpackInt ty old bref ((nOctets + 1) * 8)

def addLowerBound (r : Unpacked ty.Value) (lb ub : ty.Value) (aligned : Bool) : Except Fault (Unpacked ty.Value) :=
  if r.code = .success then do
    let sum ← ty.arith (r.val.val + lb.val)
    let n := ty.ofInt sum
    if aligned = false ∧ n.val > ub.val then pure ⟨.decodeFail, n, r.bref⟩ else pure ⟨.success, n, r.bref⟩
  else .ok r

def unpackConstrainedWholeNumber (old : ty.Value) (bref : BitRef) (lb ub : ty.Value) (aligned : Bool) :
    Except Fault (Unpacked ty.Value) :=
  if ub.val < lb.val then .ok ⟨.decodeFail, old, bref⟩
  else do
    let ra ← range ty lb ub
    if ra = 1 then pure ⟨.success, lb, bref⟩
    else
      let nBits ← nofBits ra
      addLowerBound ty (unpackInRange ty old bref ra nBits aligned) lb ub aligned

end ConstrainedWholeNumber

def packNormSmallNonNegWholeNumber (bref : BitRef) (n : Nat) : Packed :=
  if n ≤ 63 then bref.pack n 7 else (bref.pack 1 1).handle fun bref => ⟨.encodeFail, bref⟩

def unpackNormSmallNonNegWholeNumber (old : Nat) (bref : BitRef) : Unpacked Nat :=
  (bref.unpack 8 0 1).handle old fun ext bref => if ext = 0 then bref.unpack 32 old 6 else ⟨.decodeFail, old, bref⟩

/-- `ceilf((log2f(n) + 1) / 8.0f)` without rounding; the logarithm of no other number is finite. -/
def unconstrainedWholeNumberLength (n : Int) : Except Fault Nat :=
  if n ≤ 0 then .error .undefinedBehaviour else .ok (ceilFrac (ceilLog2 n.toNat + 1) 8)

def packUnconstrainedWholeNumber (bref : BitRef) (n : Int) (aligned : Bool) : Except Fault Packed := do
  let len ← unconstrainedWholeNumberLength n
  if aligned then pure (bref.alignBytesZero.handle fun bref => bref.pack (u64 n) (len * 8))
  else pure (bref.pack (u64 n) (len * 8))

def unpackUnconstrainedWholeNumber (ty : IntType) (old : ty.Value) (bref : BitRef) (len : Nat) (aligned : Bool) :
    Unpacked ty.Value :=
  if aligned then bref.alignBytes.unpacking old fun bref => unpackInt ty old bref (len * 8)
  else unpackInt ty old bref (len * 8)

def packLength (bref : BitRef) (val : Nat) (aligned : Bool) : Packed :=
  if aligned = false then
    if val < 128 then bref.pack val 8
    else if val < asn16K then (bref.pack 0b10 2).handle fun bref => bref.pack val 14
    else ⟨.encodeFail, bref⟩
  else if val > asn64K then ⟨.encodeFail, bref⟩
  else
    bref.alignBytes.handle fun bref =>
    if val < 128 then bref.pack val 8
    else if val < asn16K then (bref.pack 0b10 2).handle fun bref => bref.pack val 14
    else
      (bref.pack 0b11 2).handle fun bref =>
      (bref.pack (val / asn16K) 6).handle fun bref =>
      bref.pack (val - val / asn16K * asn16K) 16

def unpackLength (old : Nat) (bref : BitRef) (aligned : Bool) : Unpacked Nat :=
  if aligned = false then
    (bref.unpack 8 0 1).handle old fun ext bref =>
    if ext = 0 then bref.unpack 32 old 7
    else
      (bref.unpack 8 ext 1).handle old fun ext bref =>
      if ext = 0 then bref.unpack 32 old 14 else ⟨.decodeFail, 0, bref⟩
  else
    bref.alignBytes.unpacking old fun bref =>
    let r := bref.unpack 32 old 8
    r.handle r.val fun val bref =>
    if val < 128 then ⟨.success, val, bref⟩
    else if val - 128 < 64 then
      (bref.unpack 32 0 8).handle (val - 128) fun octet2 bref => ⟨.success, (val - 128) * 256 + octet2, bref⟩
    else ⟨.decodeFail, val - 128, bref⟩

section Bounded
variable (ty : IntType)

def packLengthIn (bref : BitRef) (n lb ub : ty.Value) (aligned : Bool) : Except Fault Packed :=
  if ub.val ≥ asn64K then .ok (packLength bref (u64 n.val % 2 ^ 32) aligned)
  else packConstrainedWholeNumber ty bref n lb ub aligned

/-- The local `len` starts unset; it reads as 0 when no bit of the length is there. -/
def unpackLengthIn (old : ty.Value) (bref : BitRef) (lb ub : ty.Value) (aligned : Bool) :
    Except Fault (Unpacked ty.Value) :=
  if ub.val ≥ asn64K then
    let r := unpackLength 0 bref aligned
    .ok ⟨r.code, ty.ofInt r.val, r.bref⟩
  else unpackConstrainedWholeNumber ty old bref lb ub aligned

def lowerBounded (lb : ty.Value) : Bool := lb.val ≠ ty.min || !ty.signed

def upperBounded (ub : ty.Value) : Bool := ub.val ≠ ty.max

def packIntegerBody (bref : BitRef) (n lb ub : ty.Value) (withinBounds aligned : Bool) : Except Fault Packed :=
  if withinBounds && lowerBounded ty lb && upperBounded ty ub then
    if lb.val = ub.val then .ok ⟨.success, bref⟩ else packConstrainedWholeNumber ty bref n lb ub aligned
  else if !withinBounds || (!lowerBounded ty lb && !upperBounded ty ub) then do
    let len ← unconstrainedWholeNumberLength n.val
    let r := packLength bref len aligned
    if r.code = .success then packUnconstrainedWholeNumber r.bref n.val aligned else pure r
  else .ok ⟨.success, bref⟩

def packInteger (bref : BitRef) (n lb ub : ty.Value) (hasExt aligned : Bool) : Except Fault Packed :=
  let withinBounds := decide (lb.val ≤ n.val ∧ n.val ≤ ub.val)
  if hasExt then
    let r := bref.pack (!withinBounds).toNat 1
    if r.code = .success then packIntegerBody ty r.bref n lb ub withinBounds aligned else .ok r
  else if withinBounds = false then .ok ⟨.encodeFail, bref⟩
  else packIntegerBody ty bref n lb ub withinBounds aligned

def unpackIntegerBody (old : ty.Value) (bref : BitRef) (lb ub : ty.Value) (withinBounds aligned : Bool) :
    Except Fault (Unpacked ty.Value) :=
  if withinBounds && lowerBounded ty lb && upperBounded ty ub then
    if lb.val = ub.val then .ok ⟨.success, old, bref⟩ else unpackConstrainedWholeNumber ty old bref lb ub aligned
  else if !withinBounds || (!lowerBounded ty lb && !upperBounded ty ub) then
    .ok ((unpackLength 0 bref aligned).handle old fun len bref =>
      unpackUnconstrainedWholeNumber ty old bref len aligned)
  else .ok ⟨.success, old, bref⟩

def unpackInteger (old : ty.Value) (bref : BitRef) (lb ub : ty.Value) (hasExt aligned : Bool) :
    Except Fault (Unpacked ty.Value) :=
  if hasExt then
    let r := bref.unpack 8 1 1
    if r.code = .success then unpackIntegerBody ty old r.bref lb ub (r.val = 0) aligned
    else .ok ⟨r.code, old, r.bref⟩
  else unpackIntegerBody ty old bref lb ub true aligned

end Bounded

def packEnumExt (bref : BitRef) (enumVal nBits nofNoext : Nat) : Packed :=
  let ext := decide (enumVal ≥ nofNoext)
  (bref.pack ext.toNat 1).handle fun bref =>
  if ext = false then bref.pack enumVal nBits
  else packNormSmallNonNegWholeNumber bref (enumVal - nofNoext)

def packEnum (bref : BitRef) (e nofTypes nofExts : Nat) (hasExt : Bool) : Except Fault Packed :=
  if e ≥ nofTypes then .ok ⟨.encodeFail, bref⟩
  else if hasExt then do
    let nBits ← nofBits (u32Sub nofTypes nofExts)
    pure (packEnumExt bref e nBits (u32Sub nofTypes nofExts))
  else do
    let nBits ← nofBits nofTypes
    pure (bref.pack e nBits)

def checkEnum (nofTypes : Nat) (r : Unpacked Nat) : Unpacked Nat :=
  if r.val ≥ nofTypes then ⟨.decodeFail, r.val, r.bref⟩ else r

def unpackEnum (nofTypes nofExts : Nat) (hasExt : Bool) (bref : BitRef) : Except Fault (Unpacked Nat) :=
  if hasExt then do
    let nBits ← nofBits (u32Sub nofTypes nofExts)
    let ext := bref.unpack 8 0 1
    if ext.code ≠ .success then pure ⟨ext.code, 0, ext.bref⟩
    else if ext.val = 0 then pure (checkEnum nofTypes (ext.bref.unpack 32 0 nBits))
    else
      let r := unpackNormSmallNonNegWholeNumber 0 ext.bref
      pure (checkEnum nofTypes ⟨r.code, (r.val + u32Sub nofTypes nofExts) % 2 ^ 32, r.bref⟩)
  else do
    let nBits ← nofBits nofTypes
    pure (checkEnum nofTypes (bref.unpack 32 0 nBits))

end IsrRan.Asn1
