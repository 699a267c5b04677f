import IsrRan.Rlc.AmLte.Tx
import IsrRan.Rlc.LengthIndicators

namespace IsrRan.Rlc.AmLte
open List Lib.Peek

/-! `rlc_am_read_status_pdu` once more, entry by entry of the unpacked bit buffer. -/

def lookBits (ptr n : Nat) : Lib.Peek Nat Nat Nat :=
  (List.range n).foldlM (fun value i => (fun bit => value ||| bit <<< (n - 1 - i)) <$> Lib.Peek.cell (ptr + i)) 0

def lookNacks : (room ptr : Nat) → (ext : Bool) → (nacks : List Nack) → Lib.Peek Nat Nat (Except Fault (List Nack))
  | _, _, false, nacks => pure (.ok nacks)
  | 0, _, true, _ => pure (.error .undefinedBehaviour)
  | room + 1, ptr, true, nacks => do
    let nackSn ← lookBits ptr 10
    let ext1 ← lookBits (ptr + 10) 1
    let ext2 ← lookBits (ptr + 11) 1
    if ext2 % 256 ≠ 0 then
      let soStart ← lookBits (ptr + 12) 15
      let soEnd ← lookBits (ptr + 27) 15
      let nack := { nackSn, hasSo := true, soStart := u16 soStart, soEnd := u16 soEnd }
      lookNacks room (ptr + 42) (ext1 % 256 ≠ 0) (nacks ++ [nack])
    else lookNacks room (ptr + 12) (ext1 % 256 ≠ 0) (nacks ++ [{ nackSn }])

def lookStatus : Lib.Peek Nat Nat (Except Fault StatusPdu) := do
  let ackSn ← lookBits 4 10
  let ext1 ← lookBits 14 1
  let nacks ← lookNacks windowSize 15 (ext1 % 256 ≠ 0) []
  pure (nacks.map fun nacks => { ackSn := u16 ackSn, nacks })

def lookStatusPdu (nofBytes : Nat) : Lib.Peek Nat Nat (Except Fault StatusPdu) :=
  if maxBits < 8 * nofBytes then pure (.error .undefinedBehaviour)
  else do
    let dc ← lookBits 0 1
    if dc = 0 then
      let cpt ← lookBits 1 3
      if cpt % 256 = 0 then lookStatus else pure (.ok {})
    else pure (.ok {})

section
variable {bits : Nat → Nat}

theorem lookBits_run (ptr n : Nat) : (lookBits ptr n).run bits = bitPack bits ptr n := by
  unfold lookBits bitPack
  rw [run_foldlM]
  simp only [run_map, run_cell]

theorem mem_lookBits_reads {ptr n i : Nat} : i ∈ (lookBits ptr n).reads bits ↔ ptr ≤ i ∧ i < ptr + n := by
  have one : ∀ value j, ((fun bit => value ||| bit <<< (n - 1 - j)) <$> Lib.Peek.cell (ptr + j)).reads bits =
      [ptr + j] := fun value j => rfl
  unfold lookBits
  rw [reads_foldlM bits one, mem_map]
  simp only [mem_range]
  constructor
  · rintro ⟨j, lt, rfl⟩
    omega
  · rintro ⟨le, lt⟩
    exact ⟨i - ptr, by omega, by omega⟩

theorem lookNacks_run (room ptr : Nat) (ext : Bool) (nacks : List Nack) :
    (lookNacks room ptr ext nacks).run bits = readNacks bits room ptr ext nacks := by
  induction room generalizing ptr ext nacks with
  | zero => cases ext <;> rfl
  | succ room ih =>
    cases ext with
    | false => rfl
    | true =>
      rw [lookNacks, readNacks]
      simp only [run_bind, lookBits_run]
      by_cases segment : bitPack bits (ptr + 11) 1 % 256 ≠ 0
      · simp only [if_pos segment, run_bind, lookBits_run, ih]
      · simp only [if_neg segment, ih]

theorem lookStatusPdu_run (payload : Memory) (nofBytes : Nat) (stale : Memory) :
    (lookStatusPdu nofBytes).run (bitUnpackVector payload nofBytes stale) = readStatusPdu payload nofBytes stale := by
  unfold lookStatusPdu readStatusPdu
  by_cases long : maxBits < 8 * nofBytes
  · rw [if_pos long, if_pos long]
    rfl
  · rw [if_neg long, if_neg long]
    generalize bitUnpackVector payload nofBytes stale = bits
    rw [run_bind, lookBits_run]
    by_cases control : bitPack bits 0 1 = 0
    · rw [if_pos control, run_bind, lookBits_run]
      by_cases type : bitPack bits 1 3 % 256 = 0
      · rw [if_pos type]
        simp only [lookStatus, run_bind, lookBits_run, lookNacks_run, control, type]
        cases readNacks bits windowSize 15 _ [] <;> rfl
      · rw [if_neg type]
        simp [type]
    · rw [if_neg control]
      simp [control]

def bitSet (bits : Nat → Nat) (ptr : Nat) : Bool := bits ptr % 256 ≠ 0

def nackLen (segment : Bool) : Nat := if segment then 42 else 12

def NackChain (bits : Nat → Nat) : (segments : List Bool) → (ptr : Nat) → (ext : Bool) → Prop
  | [], _, ext => ext = false
  | segment :: rest, ptr, ext =>
    ext = true ∧ bitSet bits (ptr + 11) = segment ∧
      NackChain bits rest (ptr + nackLen segment) (bitSet bits (ptr + 10))

theorem bitPack_one (ptr : Nat) : bitPack bits ptr 1 = bits ptr := by
  simp [bitPack]

theorem lookNacks_step (room ptr : Nat) (nacks : List Nack) :
    ∃ nack, (∀ i, i ∈ (lookNacks (room + 1) ptr true nacks).reads bits ↔
        (ptr ≤ i ∧ i < ptr + nackLen (bitSet bits (ptr + 11))) ∨
          i ∈ (lookNacks room (ptr + nackLen (bitSet bits (ptr + 11))) (bitSet bits (ptr + 10))
            (nacks ++ [nack])).reads bits) ∧
      (lookNacks (room + 1) ptr true nacks).run bits =
        (lookNacks room (ptr + nackLen (bitSet bits (ptr + 11))) (bitSet bits (ptr + 10))
          (nacks ++ [nack])).run bits := by
  rw [lookNacks]
  simp only [run_bind, reads_bind, lookBits_run, bitPack_one]
  by_cases segment : bits (ptr + 11) % 256 ≠ 0
  · have set : bitSet bits (ptr + 11) = true := decide_eq_true segment
    simp only [if_pos segment, reads_bind, set, nackLen, if_true]
    refine ⟨_, fun i => ?_, rfl⟩
    simp only [mem_append, mem_lookBits_reads, ← or_assoc]
    apply or_congr_left
    omega
  · have clear : bitSet bits (ptr + 11) = false := decide_eq_false segment
    simp only [if_neg segment, clear, nackLen, Bool.false_eq_true, if_false]
    refine ⟨_, fun i => ?_, rfl⟩
    simp only [mem_append, mem_lookBits_reads, ← or_assoc]
    apply or_congr_left
    omega

theorem lookNacks_inside_iff {limit : Nat} (room ptr : Nat) (ext : Bool) (nacks : List Nack) :
    ((∀ i ∈ (lookNacks room ptr ext nacks).reads bits, i < limit) ∧
        ∃ r, (lookNacks room ptr ext nacks).run bits = .ok r) ↔
      ∃ segments : List Bool, segments.length ≤ room ∧ NackChain bits segments ptr ext ∧
        (segments ≠ [] → ptr + (segments.map nackLen).sum ≤ limit) := by
  induction room generalizing ptr ext nacks with
  | zero =>
    cases ext with
    | false => exact iff_of_true ⟨by simp [lookNacks], _, rfl⟩ ⟨[], Nat.le_refl _, rfl, by simp⟩
    | true =>
      refine iff_of_false ?_ ?_
      · rintro ⟨-, r, overrun⟩
        cases overrun
      · rintro ⟨segments, le, chain, -⟩
        have none_ : segments = [] := eq_nil_of_length_eq_zero (by omega)
        subst none_
        cases chain
  | succ room ih =>
    cases ext with
    | false => exact iff_of_true ⟨by simp [lookNacks], _, rfl⟩ ⟨[], by simp, rfl, by simp⟩
    | true =>
      obtain ⟨nack, reads, run⟩ := @lookNacks_step bits room ptr nacks
      have behind := ih (ptr + nackLen (bitSet bits (ptr + 11))) (bitSet bits (ptr + 10)) (nacks ++ [nack])
      have some_ : 12 ≤ nackLen (bitSet bits (ptr + 11)) := by
        unfold nackLen
        split <;> omega
      simp only [reads, run]
      constructor
      · rintro ⟨inside, ok⟩
        obtain ⟨segments, le, chain, bound⟩ := behind.mp ⟨fun i read => inside i (.inr read), ok⟩
        refine ⟨bitSet bits (ptr + 11) :: segments, by simpa using le, ⟨rfl, rfl, chain⟩, fun _ => ?_⟩
        have last := inside (ptr + nackLen (bitSet bits (ptr + 11)) - 1) (.inl (by omega))
        rw [map_cons, sum_cons]
        cases segments with
        | nil =>
          rw [map_nil, sum_nil]
          omega
        | cons second rest =>
          have all := bound (cons_ne_nil _ _)
          omega
      · rintro ⟨segments, le, chain, bound⟩
        cases segments with
        | nil => cases chain
        | cons segment rest =>
          obtain ⟨-, rfl, chain⟩ := chain
          have all := bound (cons_ne_nil _ _)
          rw [map_cons, sum_cons] at all
          obtain ⟨inside, ok⟩ := behind.mpr ⟨rest, by simpa using le, chain, fun _ => by omega⟩
          refine ⟨fun i read => ?_, ok⟩
          cases read with
          | inl here => omega
          | inr read => exact inside i read

theorem lookNacks_length {room ptr : Nat} {ext : Bool} {nacks nacks' : List Nack}
    (ok : (lookNacks room ptr ext nacks).run bits = .ok nacks') : nacks'.length ≤ nacks.length + room := by
  induction room generalizing ptr ext nacks with
  | zero =>
    cases ext with
    | false =>
      cases ok
      omega
    | true => cases ok
  | succ room ih =>
    cases ext with
    | false =>
      cases ok
      omega
    | true =>
      obtain ⟨nack, -, run⟩ := @lookNacks_step bits room ptr nacks
      rw [run] at ok
      have rest := ih ok
      rw [length_append, length_singleton] at rest
      omega

theorem NackChain.congr {bits' : Nat → Nat} {limit : Nat} (same : ∀ i < limit, bits i = bits' i)
    {segments : List Bool} {ptr : Nat} {ext : Bool} (inside : ptr + (segments.map nackLen).sum ≤ limit)
    (chain : NackChain bits segments ptr ext) : NackChain bits' segments ptr ext := by
  induction segments generalizing ptr ext with
  | nil => exact chain
  | cons segment rest ih =>
    obtain ⟨more, kind, chain⟩ := chain
    rw [map_cons, sum_cons] at inside
    have some_ : 12 ≤ nackLen segment := by
      unfold nackLen
      split <;> omega
    have e1 : bitSet bits' (ptr + 10) = bitSet bits (ptr + 10) := by
      unfold bitSet
      rw [same (ptr + 10) (by omega)]
    have e2 : bitSet bits' (ptr + 11) = bitSet bits (ptr + 11) := by
      unfold bitSet
      rw [same (ptr + 11) (by omega)]
    refine ⟨more, e2.trans kind, ?_⟩
    rw [e1]
    exact ih (by omega) chain

end

def bitAt (payload : Memory) (i : Nat) : Nat := payload.byte (i / 8) / 2 ^ (7 - i % 8) % 2

/-- A string that the unpacked buffer has room for, and that is no STATUS PDU or one whose NACKs end inside it and are
no more than there is room for. -/
def StatusEnds (payload : Memory) (nofBytes : Nat) : Prop :=
  1 ≤ nofBytes ∧ 8 * nofBytes ≤ maxBits ∧
    (payload.byte 0 < 16 → ∃ segments : List Bool, segments.length ≤ maxEntries ∧
      NackChain (bitAt payload) segments 15 (bitSet (bitAt payload) 14) ∧
      15 + (segments.map nackLen).sum ≤ 8 * nofBytes)

section
variable {payload stale : Memory} {nofBytes : Nat}

theorem bitUnpackVector_inside {i : Nat} (inside : i < 8 * nofBytes) :
    bitUnpackVector payload nofBytes stale i = bitAt payload i := if_pos inside

theorem status_type_iff : ∀ b < 256, b < 16 ↔
    b / 2 ^ 7 % 2 = 0 ∧
      ((0 ||| (b / 2 ^ 6 % 2) <<< 2) ||| (b / 2 ^ 5 % 2) <<< 1 ||| (b / 2 ^ 4 % 2) <<< 0) % 256 = 0 := by
  decide +kernel

theorem mem_lookStatus_reads {bits : Nat → Nat} {i : Nat} :
    i ∈ lookStatus.reads bits ↔ (4 ≤ i ∧ i < 15) ∨
      i ∈ (lookNacks maxEntries 15 (bitSet bits 14) []).reads bits := by
  unfold lookStatus
  simp only [reads_bind, reads_pure, lookBits_run, bitPack_one, append_nil, mem_append,
    mem_lookBits_reads, ← or_assoc]
  apply or_congr_left
  omega

theorem lookStatus_run_ok_iff {bits : Nat → Nat} :
    (∃ status, lookStatus.run bits = .ok status) ↔
      ∃ nacks, (lookNacks maxEntries 15 (bitSet bits 14) []).run bits = .ok nacks := by
  unfold lookStatus
  simp only [run_bind, lookBits_run, bitPack_one]
  show (∃ status, ((lookNacks maxEntries 15 (bitSet bits 14) []).run bits).map _ = .ok status) ↔ _
  cases (lookNacks maxEntries 15 (bitSet bits 14) []).run bits with
  | error fault => simp [Except.map]
  | ok nacks => simp [Except.map]

theorem lookStatus_inside_iff {bits : Nat → Nat} {limit : Nat} :
    ((∀ i ∈ lookStatus.reads bits, i < limit) ∧ ∃ status, lookStatus.run bits = .ok status) ↔
      ∃ segments : List Bool, segments.length ≤ maxEntries ∧
        NackChain bits segments 15 (bitSet bits 14) ∧ 15 + (segments.map nackLen).sum ≤ limit := by
  have chain_iff := @lookNacks_inside_iff bits limit maxEntries 15 (bitSet bits 14) []
  simp only [mem_lookStatus_reads, lookStatus_run_ok_iff]
  constructor
  · rintro ⟨inside, ok⟩
    obtain ⟨segments, le, chain, bound⟩ := chain_iff.mp ⟨fun i read => inside i (.inr read), ok⟩
    refine ⟨segments, le, chain, ?_⟩
    cases segments with
    | nil => exact inside 14 (.inl (by omega))
    | cons first rest => exact bound (cons_ne_nil _ _)
  · rintro ⟨segments, le, chain, bound⟩
    obtain ⟨inside, ok⟩ := chain_iff.mpr ⟨segments, le, chain, fun _ => bound⟩
    refine ⟨fun i read => ?_, ok⟩
    cases read with
    | inl fixed => omega
    | inr read => exact inside i read

theorem lookStatusPdu_cases (fits : 8 * nofBytes ≤ maxBits) (some_ : 1 ≤ nofBytes) :
    if payload.byte 0 < 16 then
      (∀ i, i ∈ (lookStatusPdu nofBytes).reads (bitUnpackVector payload nofBytes stale) ↔ i < 4 ∨
        i ∈ lookStatus.reads (bitUnpackVector payload nofBytes stale)) ∧
      (lookStatusPdu nofBytes).run (bitUnpackVector payload nofBytes stale) =
        lookStatus.run (bitUnpackVector payload nofBytes stale)
    else
      (∀ i ∈ (lookStatusPdu nofBytes).reads (bitUnpackVector payload nofBytes stale), i < 4) ∧
      (lookStatusPdu nofBytes).run (bitUnpackVector payload nofBytes stale) = .ok {} := by
  have dc : bitPack (bitUnpackVector payload nofBytes stale) 0 1 = payload.byte 0 / 2 ^ 7 % 2 := by
    rw [bitPack_one]
    exact bitUnpackVector_inside (by omega)
  have cpt : bitPack (bitUnpackVector payload nofBytes stale) 1 3 =
      (0 ||| (payload.byte 0 / 2 ^ 6 % 2) <<< 2) ||| (payload.byte 0 / 2 ^ 5 % 2) <<< 1 |||
        (payload.byte 0 / 2 ^ 4 % 2) <<< 0 := by
    simp only [bitPack, range_succ, foldl_append, foldl_cons,
      @bitUnpackVector_inside payload stale nofBytes (1 + 0) (by omega),
      @bitUnpackVector_inside payload stale nofBytes (1 + 1) (by omega),
      @bitUnpackVector_inside payload stale nofBytes (1 + 2) (by omega)]
    rfl
  have type_iff := status_type_iff _ (payload.byte_lt 0)
  rw [← dc, ← cpt] at type_iff
  generalize bitUnpackVector payload nofBytes stale = bits at *
  unfold lookStatusPdu
  rw [if_neg (Nat.not_lt.mpr fits), reads_bind, run_bind, lookBits_run]
  split
  · have type := type_iff.mp ‹_›
    rw [if_pos type.1, reads_bind, run_bind, lookBits_run, if_pos type.2]
    refine ⟨fun i => ?_, rfl⟩
    simp only [mem_append, mem_lookBits_reads, ← or_assoc]
    apply or_congr_left
    omega
  · rename_i other
    by_cases control : bitPack bits 0 1 = 0
    · have type : ¬ bitPack bits 1 3 % 256 = 0 := fun type => other (type_iff.mpr ⟨control, type⟩)
      rw [if_pos control, reads_bind, run_bind, lookBits_run, if_neg type]
      refine ⟨fun i read => ?_, rfl⟩
      simp only [mem_append, mem_lookBits_reads, reads_pure, not_mem_nil, or_false] at read
      omega
    · rw [if_neg control]
      refine ⟨fun i read => ?_, rfl⟩
      simp only [mem_append, mem_lookBits_reads, reads_pure, not_mem_nil, or_false] at read
      omega

theorem lookStatusPdu_inside_iff :
    ((∀ i ∈ (lookStatusPdu nofBytes).reads (bitUnpackVector payload nofBytes stale), i < 8 * nofBytes) ∧
        ∃ status, (lookStatusPdu nofBytes).run (bitUnpackVector payload nofBytes stale) = .ok status) ↔
      StatusEnds payload nofBytes := by
  unfold StatusEnds
  by_cases fits : 8 * nofBytes ≤ maxBits
  · by_cases some_ : 1 ≤ nofBytes
    · have cases_ := @lookStatusPdu_cases payload stale nofBytes fits some_
      simp only [fits, some_, true_and]
      split at cases_
      · obtain ⟨reads, run⟩ := cases_
        have behind := @lookStatus_inside_iff (bitUnpackVector payload nofBytes stale) (8 * nofBytes)
        rw [run]
        simp only [reads, ‹payload.byte 0 < 16›, true_implies]
        constructor
        · rintro ⟨inside, ok⟩
          obtain ⟨segments, le, chain, bound⟩ := behind.mp ⟨fun i read => inside i (.inr read), ok⟩
          have e1 : bitSet (bitUnpackVector payload nofBytes stale) 14 = bitSet (bitAt payload) 14 := by
            unfold bitSet
            rw [bitUnpackVector_inside (by omega)]
          rw [e1] at chain
          exact ⟨segments, le, chain.congr (fun i => bitUnpackVector_inside) bound, bound⟩
        · rintro ⟨segments, le, chain, bound⟩
          have e1 : bitSet (bitUnpackVector payload nofBytes stale) 14 = bitSet (bitAt payload) 14 := by
            unfold bitSet
            rw [bitUnpackVector_inside (by omega)]
          have chain' := chain.congr (fun i lt => (@bitUnpackVector_inside payload stale nofBytes i lt).symm) bound
          rw [← e1] at chain'
          obtain ⟨inside, ok⟩ := behind.mpr ⟨segments, le, chain', bound⟩
          refine ⟨fun i read => ?_, ok⟩
          cases read with
          | inl early => omega
          | inr read => exact inside i read
      · obtain ⟨reads, run⟩ := cases_
        rename_i other
        rw [run]
        simp only [other, false_implies, iff_true]
        exact ⟨fun i read => by have := reads i read; omega, _, rfl⟩
    · have empty : nofBytes = 0 := by omega
      subst empty
      refine iff_of_false ?_ (by simp)
      rintro ⟨inside, -⟩
      have first_ := inside 0 (by
        unfold lookStatusPdu
        rw [if_neg (by decide), reads_bind, mem_append, mem_lookBits_reads]
        omega)
      omega
  · refine iff_of_false ?_ fun ends => fits ends.2.1
    rintro ⟨-, status, ok⟩
    unfold lookStatusPdu at ok
    rw [if_pos (by omega)] at ok
    cases ok

end

end IsrRan.Rlc.AmLte
