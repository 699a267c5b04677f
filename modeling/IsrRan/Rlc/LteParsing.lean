import IsrRan.Rlc.AmLte.StatusBounds
import IsrRan.Rlc.UmLte.Rx

namespace IsrRan.Rlc.AmLte
open Lib.Peek

/-! `rlc_am_read_data_pdu_header` once more, byte by byte. -/

def PduHeader.finish (header : PduHeader) (r : Except Fault (List Nat × Nat)) : Except Fault (PduHeader × Nat) :=
  r.map fun (li, ptr) => ({ header with li }, ptr + li.length % 2)

def lookHeaderBehind (b : Nat) : Lib.Peek Nat Byte (Except Fault (PduHeader × Nat)) :=
  if b < 128 then pure (.ok ({}, 0))
  else do
    let second ← Lib.Peek.cell 1
    let header : PduHeader :=
      { dc := .dataPdu
        rf := b / 64 % 2 = 1
        p := b / 32 % 2 = 1
        fi := b / 8 % 4
        sn := b % 4 * 256 + second.toNat }
    let ext := b / 4 % 2 = 1
    if b / 64 % 2 = 1 then do
      let third ← Lib.Peek.cell 2
      let fourth ← Lib.Peek.cell 3
      let header :=
        { header with
          lsf := third.toNat / 128 = 1
          so := third.toNat % 128 * 256 + fourth.toNat }
      header.finish <$> lookLi windowSize 4 ext []
    else header.finish <$> lookLi windowSize 2 ext []

def lookDataPduHeader : Lib.Peek Nat Byte (Except Fault (PduHeader × Nat)) := do
  let first ← Lib.Peek.cell 0
  lookHeaderBehind first.toNat

section
variable {payload : Memory} {nofBytes : Nat}

theorem lookLi_run (room ptr : Nat) (ext : Bool) (li : List Nat) :
    readLi payload room ptr ext li =
      ((lookLi room ptr ext li).run payload).map fun (li, ptr) => (li, ptr + li.length % 2) := by
  induction room generalizing ptr ext li with
  | zero =>
    cases ext with
    | false =>
      unfold readLi lookLi
      simp only [Except.map]
      split <;> simp_all
    | true => rfl
  | succ room ih =>
    cases ext with
    | false =>
      unfold readLi lookLi
      simp only [Except.map]
      split <;> simp_all
    | true =>
      rw [readLi, lookLi]
      simp only [ih]
      split <;> rfl

theorem lookDataPduHeader_run : lookDataPduHeader.run payload = readDataPduHeader payload := by
  show (lookHeaderBehind (payload.byte 0)).run payload = readDataPduHeader payload
  unfold lookHeaderBehind readDataPduHeader
  by_cases control : payload.byte 0 < 128
  · rw [if_pos control, if_pos control]
    rfl
  · rw [if_neg control, if_neg control, run_cell_bind]
    by_cases segment : payload.byte 0 / 64 % 2 = 1
    · simp only [segment, if_true, run_cell_bind, run_map, lookLi_run]
      cases (lookLi windowSize 4 _ []).run payload <;> rfl
    · simp only [segment, if_false, run_map, lookLi_run]
      cases (lookLi windowSize 2 _ []).run payload <;> rfl

def headerStart (payload : Memory) : Nat := if payload.byte 0 / 64 % 2 = 1 then 4 else 2

def AmDataEnds (payload : Memory) (nofBytes : Nat) : Prop :=
  1 ≤ nofBytes ∧
    (payload.byte 0 < 128 ∨ LiEnds payload (headerStart payload) (payload.byte 0 / 4 % 2 = 1) nofBytes)

theorem lookDataPduHeader_control (control : payload.byte 0 < 128) : lookDataPduHeader.reads payload = [0] := by
  show 0 :: (lookHeaderBehind (payload.byte 0)).reads payload = [0]
  unfold lookHeaderBehind
  rw [if_pos control]
  rfl

theorem lookDataPduHeader_data (data : ¬ payload.byte 0 < 128) :
    (∀ i, i ∈ lookDataPduHeader.reads payload ↔ i < headerStart payload ∨
        i ∈ (lookLi windowSize (headerStart payload) (payload.byte 0 / 4 % 2 = 1) []).reads payload) ∧
      ∃ header : PduHeader, lookDataPduHeader.run payload =
        header.finish ((lookLi windowSize (headerStart payload) (payload.byte 0 / 4 % 2 = 1) []).run payload) := by
  have run : lookDataPduHeader.run payload = (lookHeaderBehind (payload.byte 0)).run payload := rfl
  have reads : lookDataPduHeader.reads payload = 0 :: (lookHeaderBehind (payload.byte 0)).reads payload := rfl
  rw [run, reads]
  unfold lookHeaderBehind headerStart
  rw [if_neg data]
  by_cases segment : payload.byte 0 / 64 % 2 = 1
  · simp only [segment, if_true, run_cell_bind, reads_cell_bind, run_map,
      reads_map]
    refine ⟨fun i => ?_, _, rfl⟩
    simp only [List.mem_cons, ← or_assoc]
    apply or_congr_left
    omega
  · simp only [segment, if_false, run_cell_bind, reads_cell_bind, run_map,
      reads_map]
    refine ⟨fun i => ?_, _, rfl⟩
    simp only [List.mem_cons, ← or_assoc]
    apply or_congr_left
    omega

theorem finish_ok_iff {header : PduHeader} {r : Except Fault (List Nat × Nat)} {out : PduHeader × Nat} :
    header.finish r = .ok out ↔
      ∃ li ptr, r = .ok (li, ptr) ∧ out = ({ header with li }, ptr + li.length % 2) := by
  unfold PduHeader.finish
  cases r with
  | error fault => simp [Except.map]
  | ok found =>
    obtain ⟨li, ptr⟩ := found
    constructor
    · intro ok
      exact ⟨li, ptr, rfl, (Except.ok.inj ok).symm⟩
    · rintro ⟨li', ptr', same, rfl⟩
      cases same
      rfl

theorem lookDataPduHeader_inside_iff :
    ((∀ i ∈ lookDataPduHeader.reads payload, i < nofBytes) ∧ ∃ out, lookDataPduHeader.run payload = .ok out) ↔
      AmDataEnds payload nofBytes := by
  unfold AmDataEnds
  by_cases control : payload.byte 0 < 128
  · rw [lookDataPduHeader_control control, lookDataPduHeader_run]
    have run : readDataPduHeader payload = .ok ({}, 0) := if_pos control
    simp [run, control, Nat.succ_le_iff]
  · obtain ⟨reads, header, run⟩ := lookDataPduHeader_data control
    have chain := @lookLi_all_inside_iff payload (headerStart payload) (payload.byte 0 / 4 % 2 = 1) nofBytes
    have start : 2 ≤ headerStart payload := by
      unfold headerStart
      split <;> omega
    simp only [reads, run, finish_ok_iff, control, false_or]
    rw [← chain]
    constructor
    · rintro ⟨inside, out, li, ptr, ok, -⟩
      have fixed : headerStart payload ≤ nofBytes := by
        have last := inside (headerStart payload - 1) (.inl (by omega))
        omega
      exact ⟨by omega, fixed, fun i read => inside i (.inr read), _, ok⟩
    · rintro ⟨-, fixed, inside, ⟨li, ptr⟩, ok⟩
      refine ⟨fun i read => ?_, _, li, ptr, ok, rfl⟩
      cases read with
      | inl early => omega
      | inr read => exact inside i read

end

end IsrRan.Rlc.AmLte

namespace IsrRan.Rlc

/-- A reader that looks at nothing from `limit` on and stores no more entries than there is room for. -/
def StaysInside {α : Type} (limit : Nat) (reads : List Nat) (result : Except Fault α) (stored : α → Nat) : Prop :=
  (∀ i ∈ reads, i < limit) ∧ ∃ a, result = .ok a ∧ stored a ≤ maxEntries

theorem staysInside_iff {α : Type} {limit : Nat} {reads : List Nat} {result : Except Fault α} {stored : α → Nat}
    (room : ∀ a, result = .ok a → stored a ≤ maxEntries) :
    StaysInside limit reads result stored ↔ (∀ i ∈ reads, i < limit) ∧ ∃ a, result = .ok a :=
  and_congr_right fun _ => exists_congr fun a => and_iff_left_of_imp (room a)

section
variable (payload : Memory) (nofBytes : Nat)

def AmHeaderInside : Prop :=
  StaysInside nofBytes (AmLte.lookDataPduHeader.reads payload) (AmLte.readDataPduHeader payload)
    fun out => out.1.li.length

def UmHeaderInside (snSize : UmLte.SnSize) : Prop :=
  StaysInside nofBytes ((UmLte.lookDataPduHeader snSize).reads payload)
    ((UmLte.lookDataPduHeader snSize).run payload) fun header => header.li.length

def StatusInside (stale : Memory) : Prop :=
  StaysInside (8 * nofBytes)
    ((AmLte.lookStatusPdu nofBytes).reads (AmLte.bitUnpackVector payload nofBytes stale))
    (AmLte.readStatusPdu payload nofBytes stale) fun status => status.nacks.length

/-- Strings whose header reaches behind their end leave the AM entity as it is. The UM entity has no such check. -/
def AmDropped : Prop :=
  ∀ out, AmLte.readDataPduHeader payload = .ok out → ¬ AmLte.AmDataEnds payload nofBytes →
    ∀ rx : AmLte.Rx, rx.writePdu payload nofBytes = .ok (rx, [])

variable {payload nofBytes}

theorem am_inside_iff : AmHeaderInside payload nofBytes ↔ AmLte.AmDataEnds payload nofBytes := by
  rw [AmHeaderInside, ← AmLte.lookDataPduHeader_inside_iff, ← AmLte.lookDataPduHeader_run]
  apply staysInside_iff
  intro out ok
  by_cases control : payload.byte 0 < 128
  · rw [AmLte.lookDataPduHeader_run] at ok
    have empty : AmLte.readDataPduHeader payload = .ok ({}, 0) := if_pos control
    cases empty.symm.trans ok
    exact Nat.zero_le _
  · obtain ⟨-, header, run⟩ := AmLte.lookDataPduHeader_data control
    rw [run, AmLte.finish_ok_iff] at ok
    obtain ⟨li, ptr, ok, rfl⟩ := ok
    exact (@lookLi_result payload (AmLte.headerStart payload) maxEntries 0 ptr _ [] li rfl (Nat.zero_add _) ok).2.1

theorem am_dropped : AmDropped payload nofBytes := by
  intro out ok outside rx
  by_cases handled : nofBytes < 1 ∨ AmLte.isControlPdu payload = true
  · exact if_pos (by simpa using handled)
  · obtain ⟨some_, data⟩ := not_or.mp handled
    have byte : ¬ payload.byte 0 < 128 := by simpa [AmLte.isControlPdu] using data
    obtain ⟨-, header, run⟩ := AmLte.lookDataPduHeader_data byte
    have found := ok
    rw [← AmLte.lookDataPduHeader_run, run, AmLte.finish_ok_iff] at found
    obtain ⟨li, ptr, found, rfl⟩ := found
    obtain ⟨chain, le, place⟩ :=
      @lookLi_result payload (AmLte.headerStart payload) maxEntries 0 ptr _ [] li rfl (Nat.zero_add _) found
    have short : nofBytes < ptr + li.length % 2 := by
      by_contra long
      have reach := @entryPtr_end (AmLte.headerStart payload) li.length
      exact outside ⟨by omega, .inr ⟨_, le, chain, by omega⟩⟩
    have unhandled : (decide (nofBytes < 1) || AmLte.isControlPdu payload) = false := by simp [some_, data]
    rw [AmLte.Rx.writePdu, unhandled, AmLte.Rx.handleDataPdu, ok]
    exact if_pos short

theorem um_inside_iff {snSize : UmLte.SnSize} :
    UmHeaderInside payload nofBytes snSize ↔ UmLte.UmDataEnds payload snSize nofBytes := by
  rw [← UmLte.lookDataPduHeader_inside_iff]
  exact staysInside_iff fun header => UmLte.lookDataPduHeader_length

theorem readStatusPdu_length {stale : Memory} {status : AmLte.StatusPdu}
    (ok : AmLte.readStatusPdu payload nofBytes stale = .ok status) : status.nacks.length ≤ maxEntries := by
  unfold AmLte.readStatusPdu at ok
  split at ok
  · cases ok
  · dsimp only at ok
    split at ok
    · obtain ⟨nacks, read, ok⟩ := bind_eq_ok.mp ok
      cases ok
      rw [← AmLte.lookNacks_run] at read
      have bound := AmLte.lookNacks_length read
      rwa [List.length_nil] at bound
    · cases ok
      exact Nat.zero_le _

theorem status_inside_iff {stale : Memory} :
    StatusInside payload nofBytes stale ↔ AmLte.StatusEnds payload nofBytes := by
  rw [StatusInside, ← @AmLte.lookStatusPdu_inside_iff payload stale, AmLte.lookStatusPdu_run]
  exact staysInside_iff fun status => readStatusPdu_length

end

theorem lte_parsing_inBounds_iff (payload : Memory) (nofBytes : Nat) :
    (AmHeaderInside payload nofBytes ↔ AmLte.AmDataEnds payload nofBytes) ∧
      (∀ snSize, UmHeaderInside payload nofBytes snSize ↔ UmLte.UmDataEnds payload snSize nofBytes) ∧
      (∀ stale, StatusInside payload nofBytes stale ↔ AmLte.StatusEnds payload nofBytes) ∧
      AmDropped payload nofBytes :=
  ⟨am_inside_iff, fun _ => um_inside_iff, fun _ => status_inside_iff, am_dropped⟩

theorem lte_parsing_leavesString :
    ¬ AmHeaderInside (Memory.ofList [0x84, 0]) 2 ∧ ¬ UmHeaderInside (Memory.ofList [0x20]) 1 .size5bits ∧
      ({ rxSnFieldLength := .size5bits, rxWindowSize := 16, rxMod := 32 : UmLte.Rx }.storeDataPdu
        (Memory.ofList [0x20]) 1).toOption.join.isSome = true := by
  refine ⟨fun inside => ?_, fun inside => ?_, ?_⟩
  · have read : 2 ∈ AmLte.lookDataPduHeader.reads (Memory.ofList [0x84, 0]) := by decide
    exact absurd (inside.1 2 read) (by decide)
  · have read : 1 ∈ (UmLte.lookDataPduHeader .size5bits).reads (Memory.ofList [0x20]) := by decide
    exact absurd (inside.1 1 read) (by decide)
  · decide

end IsrRan.Rlc
