import IsrRan.Asn1.Per
import Mathlib

namespace IsrRan.Asn1
open BitRef Lib List

inductive Call where
  | unpack (width old nBits : Nat)
  | unpackBytes (nBytes : Nat)
  | alignBytes
  deriving DecidableEq, Repr

def unpackBytesLoop : Nat → BitRef → Unpacked (List Nat)
  | 0, bref => ⟨.success, [], bref⟩
  | nBytes + 1, bref =>
    (bref.unpack 8 0 8).handle [] fun byte bref =>
    let r := unpackBytesLoop nBytes bref
    ⟨r.code, byte :: r.val, r.bref⟩

def unpackBytes (bref : BitRef) (nBytes : Nat) : Unpacked (List Nat) :=
  if nBytes = 0 then ⟨.success, [], bref⟩
  else if bref.offset = 0 then
    if bref.ptr + nBytes > bref.buf.length then ⟨.decodeFail, [], bref⟩
    else
      let bytes := (bref.buf.drop bref.ptr).take nBytes
      ⟨.success, bytes.map UInt8.toNat, { buf := bref.buf, ptr := bref.ptr + nBytes, offset_lt := octet_pos }⟩
  else if bref.ptr + nBytes ≥ bref.buf.length then ⟨.decodeFail, [], bref⟩
  else unpackBytesLoop nBytes bref

namespace Call

def run : Call → BitRef → Unpacked (List Nat)
  | .unpack width old nBits, bref =>
    let r := bref.unpack width old nBits
    ⟨r.code, [r.val], r.bref⟩
  | .unpackBytes nBytes, bref => Asn1.unpackBytes bref nBytes
  | .alignBytes, bref =>
    let r := bref.alignBytes
    ⟨r.code, [], r.bref⟩

def runs (bref : BitRef) (calls : List Call) : BitRef := calls.foldl (fun bref call => (call.run bref).bref) bref

def decoded : List Call → BitRef → List (IsrasnCode × List Nat)
  | [], _ => []
  | call :: calls, bref => ((call.run bref).code, (call.run bref).val) :: decoded calls (call.run bref).bref

end Call

structure VarlengthFieldUnpackGuard where
  bref0 : BitRef
  len : Nat := 0
  deriving DecidableEq, Repr

namespace VarlengthFieldUnpackGuard

/-- The constructor leaves the cursor at `bref0`. Its `unpack_length` may fail. -/
def enter (bref : BitRef) (align : Bool) : VarlengthFieldUnpackGuard :=
  let r := unpackLength 0 bref align
  ⟨r.bref, r.val⟩

def leftover (g : VarlengthFieldUnpackGuard) (bref : BitRef) : Nat :=
  ((8 * g.len - bref.distance g.bref0) % 2 ^ 32).toNat

def leave (g : VarlengthFieldUnpackGuard) (bref : BitRef) : BitRef := (bref.unpack 32 0 (g.leftover bref)).bref

end VarlengthFieldUnpackGuard

section Runs
variable {bref a b : BitRef}

theorem unpack_moved (width old nBits : Nat) (bref : BitRef) :
    ∃ k, (bref.unpack width old nBits).bref = bref.moved k := by
  rw [unpack_eq]
  split
  · exact ⟨0, (moved_zero bref).symm⟩
  · exact ⟨_, rfl⟩

theorem unpackBytesLoop_moved (nBytes : Nat) (bref : BitRef) :
    ∃ k, (unpackBytesLoop nBytes bref).bref = bref.moved k := by
  induction nBytes generalizing bref with
  | zero => exact ⟨0, (moved_zero bref).symm⟩
  | succ nBytes ih =>
    obtain ⟨k, first⟩ := unpack_moved 8 0 8 bref
    rw [unpackBytesLoop, Unpacked.handle]
    split
    · obtain ⟨l, others⟩ := ih (bref.unpack 8 0 8).bref
      exact ⟨k + l, by rw [others, first, moved_moved]⟩
    · exact ⟨k, first⟩

theorem moved_bytes (aligned : bref.offset = 0) (n : Nat) :
    ({ buf := bref.buf, ptr := bref.ptr + n } : BitRef) = bref.moved (8 * n) := by
  refine ext_pos rfl ?_
  rw [moved_pos]
  unfold pos
  dsimp only
  omega

theorem Call.run_moved (call : Call) (bref : BitRef) : ∃ k, (call.run bref).bref = bref.moved k := by
  have still : ∃ k, bref = bref.moved k := ⟨0, (moved_zero bref).symm⟩
  cases call with
  | unpack width old nBits => exact unpack_moved width old nBits bref
  | unpackBytes nBytes =>
    change ∃ k, (Asn1.unpackBytes bref nBytes).bref = _
    unfold Asn1.unpackBytes
    split
    · exact still
    · split
      · rename_i aligned
        split
        · exact still
        · exact ⟨_, moved_bytes aligned nBytes⟩
      · split
        · exact still
        · exact unpackBytesLoop_moved nBytes bref
  | alignBytes =>
    change ∃ k, bref.alignBytes.bref = _
    rw [alignBytes_eq]
    split
    · exact ⟨_, rfl⟩
    · exact still

theorem Call.runs_moved (calls : List Call) (bref : BitRef) : ∃ k, Call.runs bref calls = bref.moved k := by
  induction calls generalizing bref with
  | nil => exact ⟨0, (moved_zero bref).symm⟩
  | cons call calls ih =>
    obtain ⟨k, first⟩ := call.run_moved bref
    obtain ⟨l, others⟩ := ih (call.run bref).bref
    refine ⟨k + l, ?_⟩
    rw [← moved_moved, ← first, ← others]
    rfl

structure SameRest (a b : BitRef) : Prop where
  offset : a.offset = b.offset
  rest : a.rest = b.rest
  bits : ∀ i < a.rest, bit a.buf (a.pos + i) = bit b.buf (b.pos + i)

namespace SameRest

section
variable (h : SameRest a b)
include h

theorem moved (n : Nat) : SameRest (a.moved n) (b.moved n) := by
  refine ⟨?_, by rw [rest_moved, rest_moved, h.rest], fun i lt => ?_⟩
  · change (a.offset + n) % 8 = (b.offset + n) % 8
    rw [h.offset]
  · rw [rest_moved] at lt
    rw [moved_pos, moved_pos, Nat.add_assoc, Nat.add_assoc]
    exact h.bits (n + i) (by omega)

theorem unpack (width old nBits : Nat) :
    ∃ code val k, a.unpack width old nBits = ⟨code, val, a.moved k⟩ ∧
      b.unpack width old nBits = ⟨code, val, b.moved k⟩ := by
  rw [unpack_eq, unpack_eq, ← h.rest]
  split
  · exact ⟨_, _, 0, by rw [moved_zero], by rw [moved_zero]⟩
  · have same : field (bit b.buf) b.pos (min nBits a.rest) = field (bit a.buf) a.pos (min nBits a.rest) :=
      field_congr fun i lt => (h.bits i (by omega)).symm
    exact ⟨_, _, _, rfl, by rw [same]⟩

theorem alignBytes :
    ∃ code k, a.alignBytes = ⟨code, a.moved k⟩ ∧ b.alignBytes = ⟨code, b.moved k⟩ := by
  have pad : b.pad = a.pad := by rw [pad, pad, h.offset]
  rw [alignBytes_eq, alignBytes_eq, pad, ← h.rest]
  split
  · exact ⟨_, _, rfl, rfl⟩
  · exact ⟨_, 0, by rw [moved_zero], by rw [moved_zero]⟩

theorem drop (aligned : a.offset = 0) : a.buf.drop a.ptr = b.buf.drop b.ptr := by
  have aligned' : b.offset = 0 := h.offset ▸ aligned
  have rest := h.rest
  have atA : a.pos = 8 * a.ptr := by rw [pos, aligned, Nat.add_zero]
  have atB : b.pos = 8 * b.ptr := by rw [pos, aligned', Nat.add_zero]
  unfold BitRef.rest at rest
  refine ext_getElem (by rw [length_drop, length_drop]; omega) fun i inA inB => ?_
  rw [length_drop] at inA inB
  rw [getElem_drop, getElem_drop]
  refine UInt8.toNat_inj.mp (Nat.eq_of_testBit_eq fun j => ?_)
  by_cases small : j < 8
  · have same := h.bits (8 * i + (7 - j)) (by unfold BitRef.rest; omega)
    have left : a.pos + (8 * i + (7 - j)) = 8 * (a.ptr + i) + (7 - j) := by omega
    have right : b.pos + (8 * i + (7 - j)) = 8 * (b.ptr + i) + (7 - j) := by omega
    have back : 7 - (7 - j) = j := by omega
    rw [left, right, bit_of_byte (List.getElem?_eq_getElem (by omega)) (by omega),
      bit_of_byte (List.getElem?_eq_getElem (by omega)) (by omega), back] at same
    exact same
  · have beyond (byte : Byte) : byte.toNat.testBit j = false := Nat.testBit_lt_two_pow
      (lt_of_lt_of_le byte.toNat_lt (Nat.pow_le_pow_right (by decide) (Nat.le_of_not_lt small)))
    rw [beyond, beyond]

theorem unpackBytesLoop (nBytes : Nat) :
    ∃ code val k, Asn1.unpackBytesLoop nBytes a = ⟨code, val, a.moved k⟩ ∧
      Asn1.unpackBytesLoop nBytes b = ⟨code, val, b.moved k⟩ := by
  induction nBytes generalizing a b with
  | zero => exact ⟨_, _, 0, by rw [moved_zero]; rfl, by rw [moved_zero]; rfl⟩
  | succ nBytes ih =>
    obtain ⟨code, val, k, left, right⟩ := h.unpack 8 0 8
    obtain ⟨code', val', l, left', right'⟩ := ih (h.moved k)
    simp only [Asn1.unpackBytesLoop, left, right, Unpacked.handle, left', right', moved_moved]
    split
    · exact ⟨_, _, _, rfl, rfl⟩
    · exact ⟨_, _, _, rfl, rfl⟩

theorem run (call : Call) :
    ∃ code val k, call.run a = ⟨code, val, a.moved k⟩ ∧ call.run b = ⟨code, val, b.moved k⟩ := by
  cases call with
  | unpack width old nBits =>
    obtain ⟨code, val, k, left, right⟩ := h.unpack width old nBits
    exact ⟨code, [val], k, by simp [Call.run, left], by simp [Call.run, right]⟩
  | alignBytes =>
    obtain ⟨code, k, left, right⟩ := h.alignBytes
    exact ⟨code, [], k, by simp [Call.run, left], by simp [Call.run, right]⟩
  | unpackBytes nBytes =>
    have still (code : IsrasnCode) : ∃ code' val k,
        (⟨code, [], a⟩ : Unpacked (List Nat)) = ⟨code', val, a.moved k⟩ ∧
          (⟨code, [], b⟩ : Unpacked (List Nat)) = ⟨code', val, b.moved k⟩ :=
      ⟨code, [], 0, by rw [moved_zero], by rw [moved_zero]⟩
    have rest := h.rest
    unfold BitRef.rest pos at rest
    change ∃ code val k, Asn1.unpackBytes a nBytes = _ ∧ Asn1.unpackBytes b nBytes = _
    unfold Asn1.unpackBytes
    by_cases none : nBytes = 0
    · rw [if_pos none, if_pos none]
      exact still _
    rw [if_neg none, ← h.offset]
    by_cases aligned : a.offset = 0
    · have exceeds : a.ptr + nBytes > a.buf.length ↔ b.ptr + nBytes > b.buf.length := by
        rw [← h.offset] at rest
        omega
      rw [if_pos aligned, if_congr exceeds rfl rfl]
      split
      · exact still _
      · exact ⟨_, _, _, by rw [moved_bytes aligned], by rw [h.drop aligned, moved_bytes (h.offset ▸ aligned)]⟩
    · have exceeds : a.ptr + nBytes ≥ a.buf.length ↔ b.ptr + nBytes ≥ b.buf.length := by
        have ltA := a.offset_lt
        rw [← h.offset] at rest
        omega
      rw [if_neg aligned, if_congr exceeds rfl rfl]
      split
      · exact still _
      · exact h.unpackBytesLoop nBytes

theorem decoded (calls : List Call) : Call.decoded calls a = Call.decoded calls b := by
  induction calls generalizing a b with
  | nil => rfl
  | cons call calls ih =>
    obtain ⟨code, val, k, left, right⟩ := h.run call
    rw [Call.decoded, Call.decoded, left, right]
    exact congrArg _ (ih (h.moved k))

end

end SameRest
end Runs

theorem unpackLength_val_lt (bref : BitRef) (aligned : Bool) : (unpackLength 0 bref aligned).val < 16384 := by
  have unset : 0 < 16384 := by decide
  cases aligned with
  | false =>
    have short (bref : BitRef) := unpack_val_lt (show 7 ≤ 32 by decide) 0 bref
    have long (bref : BitRef) := unpack_val_lt (show 14 ≤ 32 by decide) 0 bref
    simp only [unpackLength, Unpacked.handle, if_true]
    repeat' split
    all_goals first | exact (short _).trans (by decide) | exact long _ | exact unset
  | true =>
    simp only [unpackLength, Packed.unpacking, Unpacked.handle, Bool.true_eq_false, if_false]
    split
    · generalize bref.alignBytes.bref = bref
      have octet := unpack_val_lt (show 8 ≤ 32 by decide) 0 bref
      have octet2 := unpack_val_lt (show 8 ≤ 32 by decide) 0 (bref.unpack 32 0 8).bref
      repeat' split
      all_goals dsimp only; omega
    · exact unset

theorem unpackLength_octets {bref : BitRef} (ok : (unpackLength 0 bref false).code = .success) :
    ∃ k, (unpackLength 0 bref false).bref = bref.moved (8 * k) := by
  simp only [unpackLength, Unpacked.handle, if_true] at ok ⊢
  split at ok
  · rename_i first
    rw [if_pos first]
    rw [unpack_of_success first] at ok ⊢
    split at ok
    · rename_i short
      rw [if_pos short, unpack_of_success ok]
      exact ⟨1, moved_moved bref 1 7⟩
    · rename_i long
      rw [if_neg long]
      split at ok
      · rename_i second
        rw [if_pos second]
        rw [unpack_of_success second] at ok ⊢
        split at ok
        · rename_i whole
          rw [if_pos whole, unpack_of_success ok]
          exact ⟨2, by rw [moved_moved, moved_moved]⟩
        · contradiction
      · contradiction
  · contradiction

namespace VarlengthFieldUnpackGuard
variable {g : VarlengthFieldUnpackGuard} {left : BitRef}

def stop (g : VarlengthFieldUnpackGuard) : Nat := g.bref0.pos + 8 * g.len

def Skips (g : VarlengthFieldUnpackGuard) (left : BitRef) : Prop :=
  g.stop - left.pos ≤ 32 ∧ g.stop - left.pos ≤ left.rest

theorem leftover_eq (short : g.len < 16384) (begun : g.bref0.pos ≤ left.pos) (inside : left.pos ≤ g.stop) :
    g.leftover left = g.stop - left.pos := by
  unfold stop at inside ⊢
  rw [leftover, distance_eq]
  omega

theorem leave_pos_iff (short : g.len < 16384) (begun : g.bref0.pos ≤ left.pos) (inside : left.pos ≤ g.stop) :
    (g.leave left).pos = g.stop ↔ g.Skips left := by
  rw [leave, leftover_eq short begun inside, unpack_eq, Skips]
  split
  · dsimp only
    omega
  · rw [moved_pos]
    omega

end VarlengthFieldUnpackGuard
end IsrRan.Asn1
