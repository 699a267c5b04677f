import IsrRan.Lib.OrderedMap
import IsrRan.Rlc.LengthIndicators

namespace IsrRan.Rlc.UmLte
open Lib.Peek

inductive SnSize where
  | size5bits
  | size10bits
  deriving DecidableEq, Repr

/-- `rlc_umd_pdu_header_t`; `li` are the first `N_li` entries of the array. -/
structure PduHeader where
  fi : Nat
  sn : Nat
  snSize : SnSize
  li : List Nat
  deriving DecidableEq, Repr

def headerStart : SnSize → Nat
  | .size5bits => 1
  | .size10bits => 2

def packedLength (header : PduHeader) : Nat := headerStart header.snSize + (3 * header.li.length + 1) / 2

def lookDataPduHeader : SnSize → Lib.Peek Nat Byte (Except Fault PduHeader)
  | .size5bits => do
    let first ← Lib.Peek.cell 0
    let b := first.toNat
    let finish (r : Except Fault (List Nat × Nat)) : Except Fault PduHeader :=
      r.map fun (li, _) => { fi := b / 64, sn := b % 32, snSize := .size5bits, li }
    finish <$> lookLi maxEntries 1 (b / 32 % 2 = 1) []
  | .size10bits => do
    let first ← Lib.Peek.cell 0
    let second ← Lib.Peek.cell 1
    let b := first.toNat
    let finish (r : Except Fault (List Nat × Nat)) : Except Fault PduHeader :=
      r.map fun (li, _) => { fi := b / 8 % 4, sn := b % 4 * 256 + second.toNat, snSize := .size10bits, li }
    finish <$> lookLi maxEntries 2 (b / 4 % 2 = 1) []

structure UmdPdu where
  header : PduHeader
  buf : List Byte
  headLen : Nat
  nBytes : Nat

structure Rx where
  rxSnFieldLength : SnSize
  rxWindowSize : Nat
  rxMod : Nat
  vrUr : Nat := 0
  vrUx : Nat := 0
  vrUh : Nat := 0
  rxWindow : Lib.OrderedMap UmdPdu := []

namespace Rx

def rxModBase (rx : Rx) (sn : Nat) : Nat := u32Sub (u32Sub sn rx.vrUh) rx.rxWindowSize % rx.rxMod

def insideReorderingWindow (rx : Rx) (sn : Nat) : Bool :=
  rx.rxWindowSize = 0 || rx.rxWindow.isEmpty ||
    rx.rxModBase (u32Sub rx.vrUh rx.rxWindowSize) ≤ rx.rxModBase sn && rx.rxModBase sn < rx.rxModBase rx.vrUh

def discards (rx : Rx) (sn : Nat) : Bool :=
  rx.rxModBase (u32Sub rx.vrUh rx.rxWindowSize) ≤ rx.rxModBase sn && rx.rxModBase sn < rx.rxModBase rx.vrUr ||
    rx.rxWindow.contains sn

/-- `handle_data_pdu` up to the reassembly; `none` is one of its returns before. The copy goes to a new buffer. -/
def storeDataPdu (rx : Rx) (payload : Memory) (nofBytes : Nat) : Except Fault (Option Rx) := do
  let header ← (lookDataPduHeader rx.rxSnFieldLength).run payload
  if rx.discards header.sn then .ok none
  else if ({} : ByteBuffer).getTailroom < nofBytes then .error .undefinedBehaviour
  else
    let headLen := packedLength header
    let pdu : UmdPdu :=
      { header
        buf := payload.slice 0 nofBytes
        headLen
        nBytes := u32Sub nofBytes headLen }
    let rx := { rx with rxWindow := rx.rxWindow.insertOrAssign header.sn pdu }
    .ok (some
      (if rx.insideReorderingWindow header.sn then rx else { rx with vrUh := (header.sn + 1) % rx.rxMod }))

end Rx

section
variable {payload : Memory} {nofBytes : Nat}

def headerExt (payload : Memory) : SnSize → Bool
  | .size5bits => payload.byte 0 / 32 % 2 = 1
  | .size10bits => payload.byte 0 / 4 % 2 = 1

def UmDataEnds (payload : Memory) (snSize : SnSize) (nofBytes : Nat) : Prop :=
  LiEnds payload (headerStart snSize) (headerExt payload snSize) nofBytes

theorem lookDataPduHeader_eq (snSize : SnSize) :
    (∀ i, i ∈ (lookDataPduHeader snSize).reads payload ↔ i < headerStart snSize ∨
        i ∈ (lookLi maxEntries (headerStart snSize) (headerExt payload snSize) []).reads payload) ∧
      ∃ fi sn, (lookDataPduHeader snSize).run payload =
        ((lookLi maxEntries (headerStart snSize) (headerExt payload snSize) []).run payload).map fun (li, _) =>
          { fi, sn, snSize, li } := by
  cases snSize with
  | size5bits =>
    unfold lookDataPduHeader
    simp only [reads_cell_bind, run_cell_bind, reads_map, run_map]
    refine ⟨fun i => ?_, _, _, rfl⟩
    rw [List.mem_cons]
    apply or_congr_left
    exact Nat.lt_one_iff.symm
  | size10bits =>
    unfold lookDataPduHeader
    simp only [reads_cell_bind, run_cell_bind, reads_map, run_map]
    refine ⟨fun i => ?_, _, _, rfl⟩
    simp only [List.mem_cons, ← or_assoc]
    apply or_congr_left
    show i = 0 ∨ i = 1 ↔ i < 2
    omega

theorem lookDataPduHeader_inside_iff (snSize : SnSize) :
    ((∀ i ∈ (lookDataPduHeader snSize).reads payload, i < nofBytes) ∧
        ∃ header, (lookDataPduHeader snSize).run payload = .ok header) ↔
      UmDataEnds payload snSize nofBytes := by
  obtain ⟨reads, fi, sn, run⟩ := @lookDataPduHeader_eq payload snSize
  have chain := @lookLi_all_inside_iff payload (headerStart snSize) (headerExt payload snSize) nofBytes
  have start : 1 ≤ headerStart snSize := by cases snSize <;> decide
  unfold UmDataEnds
  simp only [reads, run, map_eq_ok]
  rw [← chain]
  constructor
  · rintro ⟨inside, header, r, ok, -⟩
    have last := inside (headerStart snSize - 1) (.inl (by omega))
    exact ⟨by omega, fun i read => inside i (.inr read), r, ok⟩
  · rintro ⟨fixed, inside, r, ok⟩
    refine ⟨fun i read => ?_, _, r, ok, rfl⟩
    cases read with
    | inl early => omega
    | inr read => exact inside i read

theorem lookDataPduHeader_length {snSize : SnSize} {header : PduHeader}
    (ok : (lookDataPduHeader snSize).run payload = .ok header) : header.li.length ≤ maxEntries := by
  obtain ⟨-, fi, sn, run⟩ := @lookDataPduHeader_eq payload snSize
  rw [run, map_eq_ok] at ok
  obtain ⟨⟨li, ptr⟩, ok, rfl⟩ := ok
  exact (@lookLi_result payload (headerStart snSize) maxEntries 0 ptr _ [] li rfl (Nat.zero_add _) ok).2.1

end

end IsrRan.Rlc.UmLte
