import IsrRan.Lib.Peek
import IsrRan.Lib.Tiling
import IsrRan.Mac.SchPduNr

namespace IsrRan.Mac.Nr
open List Lib.Peek Lcid

/-! The parser once more, byte by byte, with the place of each subPDU instead of a pointer to its SDU. -/

def lookSubheader (ulsch : Bool) (start : Nat) : Lib.Peek Nat Byte (Option SubPdu) := do
  let first ← Lib.Peek.cell start
  let fBit := decide (first.toNat / 64 % 2 = 1)
  let lcid := first.toNat % 64
  if isValidLcid ulsch lcid then
    if hasLengthField ulsch lcid then
      let second ← Lib.Peek.cell (start + 1)
      if fBit then
        let third ← Lib.Peek.cell (start + 2)
        pure (some ⟨lcid, 3, (second.toNat * 256 + third.toNat : Nat), true, none⟩)
      else pure (some ⟨lcid, 2, (second.toNat : Nat), false, none⟩)
    else pure (some ⟨lcid, 1, (sizeofCe ulsch lcid : Nat), fBit, none⟩)
  else pure none

def lookFrom (ulsch : Bool) (len : Nat) :
    (rounds offset : Nat) → List (Nat × SubPdu) → Lib.Peek Nat Byte (Option (Bool × List (Nat × SubPdu)))
  | rounds, offset, subpdus =>
    if offset < len then
      match rounds with
      | 0 => pure none
      | rounds + 1 => do
        match ← lookSubheader ulsch offset with
        | none => pure (some (false, subpdus))
        | some p =>
          let next := (offset + p.getTotalLength) % 4294967296
          if p.lcid = Lcid.padding then
            lookFrom ulsch len rounds len (subpdus ++ [(offset, p.setPadding (u32Sub len next + 1))])
          else lookFrom ulsch len rounds next (subpdus ++ [(offset, p)])
    else pure (some (decide (offset = len), subpdus))

def SubPdu.placed (mem : Memory) (s : Nat × SubPdu) : SubPdu :=
  { s.2 with sdu := some fun i => mem (s.1 + s.2.headerLength + i) }

section
variable {ulsch : Bool} {mem : Memory} {len : Nat}

theorem lookSubheader_run (start : Nat) :
    ((lookSubheader ulsch start).run mem).map (fun p => SubPdu.placed mem (start, p)) =
      SubPdu.readSubheader ulsch mem start := by
  unfold lookSubheader SubPdu.readSubheader
  simp only [run_cell_bind, run_ite, run_pure, decide_eq_true_eq]
  by_cases valid : isValidLcid ulsch ((mem start).toNat % 64) = true
  · by_cases field : hasLengthField ulsch ((mem start).toNat % 64) = true
    · by_cases fBit : (mem start).toNat / 64 % 2 = 1 <;> simp [valid, field, fBit, SubPdu.placed, Memory.byte]
    · simp only [valid, field, SubPdu.placed, Memory.byte, if_true]
      congr
  · simp [valid, Memory.byte]

structure HeaderAt (ulsch : Bool) (mem : Memory) (start : Nat) (p : SubPdu) : Prop where
  lcid : p.lcid = mem.byte start % 64
  valid : isValidLcid ulsch p.lcid = true
  field : hasLengthField ulsch p.lcid = true →
    (mem.byte start / 64 % 2 = 1 → p.headerLength = 3 ∧
      p.sduLength = (mem.byte (start + 1) * 256 + mem.byte (start + 2) : Nat)) ∧
    (¬ mem.byte start / 64 % 2 = 1 → p.headerLength = 2 ∧ p.sduLength = mem.byte (start + 1))
  fixed : hasLengthField ulsch p.lcid = false → p.headerLength = 1 ∧ p.sduLength = sizeofCe ulsch p.lcid

theorem headerAt_of_run {start : Nat} {p : SubPdu} (read : (lookSubheader ulsch start).run mem = some p) :
    HeaderAt ulsch mem start p ∧ (lookSubheader ulsch start).reads mem = range' start p.headerLength := by
  unfold lookSubheader at *
  simp only [run_cell_bind, run_ite, run_pure, decide_eq_true_eq] at read
  by_cases valid : isValidLcid ulsch ((mem start).toNat % 64) = true
  · by_cases field : hasLengthField ulsch ((mem start).toNat % 64) = true
    · by_cases fBit : (mem start).toNat / 64 % 2 = 1
      · simp only [valid, field, fBit, if_true, Option.some.injEq] at read
        obtain rfl := read
        refine ⟨⟨rfl, valid, fun _ => ⟨fun _ => ⟨rfl, rfl⟩, fun short => absurd fBit short⟩, ?_⟩, ?_⟩
        · exact fun noField => absurd field (by simp [noField])
        · simp [valid, field, fBit, List.range'_succ]
      · simp only [valid, field, fBit, if_true, if_false, Option.some.injEq] at read
        obtain rfl := read
        refine ⟨⟨rfl, valid, fun _ => ⟨fun long => absurd long fBit, fun _ => ⟨rfl, rfl⟩⟩, ?_⟩, ?_⟩
        · exact fun noField => absurd field (by simp [noField])
        · simp [valid, field, fBit, List.range'_succ]
    · simp only [valid, field, if_true, Bool.false_eq_true, if_false, Option.some.injEq] at read
      obtain rfl := read
      refine ⟨⟨rfl, valid, fun hasField => absurd hasField field, fun _ => ⟨rfl, rfl⟩⟩, ?_⟩
      simp [field]
  · simp [valid] at read

theorem placed_setPadding {start : Nat} {p : SubPdu} (header : HeaderAt ulsch mem start p)
    (padding : p.lcid = Lcid.padding) (n : Nat) :
    SubPdu.placed mem (start, p.setPadding n) = (SubPdu.placed mem (start, p)).setPadding n := by
  have noField : hasLengthField ulsch p.lcid = false := by
    rw [padding]
    cases ulsch <;> rfl
  simp [SubPdu.placed, SubPdu.setPadding, (header.fixed noField).1]

theorem lookFrom_run (rounds offset : Nat) (subpdus : List (Nat × SubPdu)) :
    ((lookFrom ulsch len rounds offset subpdus).run mem).map (fun r => (r.1, r.2.map (SubPdu.placed mem))) =
      unpackFrom ulsch mem len rounds offset (subpdus.map (SubPdu.placed mem)) := by
  induction rounds generalizing offset subpdus with
  | zero =>
    unfold lookFrom unpackFrom
    split <;> rfl
  | succ rounds ih =>
    unfold lookFrom unpackFrom
    by_cases inside : offset < len
    · rw [if_pos inside, if_pos inside, ← lookSubheader_run, run_bind]
      cases read : (lookSubheader ulsch offset).run mem with
      | none => rfl
      | some p =>
        have same : (SubPdu.placed mem (offset, p)).lcid = p.lcid := rfl
        by_cases padding : p.lcid = Lcid.padding
        · simp only [Option.map_some, same, if_pos padding, ih, map_append, map_singleton,
            placed_setPadding (headerAt_of_run read).1 padding]
          rfl
        · simp only [Option.map_some, same, if_neg padding, ih, map_append, map_singleton]
          rfl
    · rw [if_neg inside, if_neg inside]
      rfl

theorem reads_of_run_none {start : Nat} (read : (lookSubheader ulsch start).run mem = none) :
    (lookSubheader ulsch start).reads mem = [start] := by
  unfold lookSubheader at *
  simp only [run_cell_bind] at read
  by_cases valid : isValidLcid ulsch ((mem start).toNat % 64) = true
  · simp only [valid, if_true] at read
    split at read
    · split at read <;> exact nomatch read
    · exact nomatch read
  · simp [valid]

theorem hasLengthField_padding : hasLengthField ulsch Lcid.padding = false := by
  cases ulsch <;> decide

end

/-! The getters of the control elements, over the bytes behind the pointer to the SDU. -/

namespace SubPdu
variable (ulsch : Bool) (p : SubPdu)

def getCRnti : Lib.Peek Nat Byte Nat :=
  if ulsch = true ∧ p.lcid = Lcid.crnti then do
    let high ← Lib.Peek.cell 0
    let low ← Lib.Peek.cell 1
    pure (high.toNat * 256 + low.toNat)
  else pure 0

def getPhr : Lib.Peek Nat Byte Nat :=
  if ulsch = true ∧ p.lcid = sePhr then (fun b => b.toNat % 64) <$> Lib.Peek.cell 0 else pure 0

def getPcmax : Lib.Peek Nat Byte Nat :=
  if ulsch = true ∧ p.lcid = sePhr then (fun b => b.toNat % 64) <$> Lib.Peek.cell 1 else pure 0

def getTa : Lib.Peek Nat Byte (Nat × Nat) :=
  if p.lcid = Lcid.taCmd then (fun b => (b.toNat / 64, b.toNat % 64)) <$> Lib.Peek.cell 0 else pure (0, 0)

def getSbsr : Lib.Peek Nat Byte (Nat × Nat) :=
  if ulsch = true ∧ (p.lcid = Lcid.shortBsr ∨ p.lcid = shortTruncBsr) then
    (fun b => (b.toNat / 32, b.toNat % 32)) <$> Lib.Peek.cell 0
  else pure (0, 0)

def getLbsrList (bitmap : Nat) : (lcgs : List Nat) → (bsrCnt : Nat) → Lib.Peek Nat Byte (List (Nat × Nat))
  | [], _ => pure []
  | lcg :: rest, bsrCnt =>
    if bitmap / 2 ^ lcg % 2 = 1 then
      if 1 + (bsrCnt : Int) < p.sduLength then do
        let bufferSize ← Lib.Peek.cell (1 + bsrCnt)
        let list ← getLbsrList bitmap rest (bsrCnt + 1)
        pure ((lcg, bufferSize.toNat) :: list)
      else do
        let list ← getLbsrList bitmap rest bsrCnt
        pure ((lcg, if p.lcid = longTruncBsr then 63 else 0) :: list)
    else getLbsrList bitmap rest bsrCnt

def getLbsr : Lib.Peek Nat Byte (Nat × List (Nat × Nat)) :=
  if ulsch = true ∧ (p.lcid = Lcid.longBsr ∨ p.lcid = longTruncBsr) then do
    let bitmap ← Lib.Peek.cell 0
    if bitmap.toNat = 0 then pure (0, [])
    else do
      let list ← p.getLbsrList bitmap.toNat (range 8) 0
      pure (bitmap.toNat, list)
  else pure (0, [])

def getUeConResIdCe : Lib.Peek Nat Byte (List Byte) :=
  if ulsch = false ∧ p.lcid = Lcid.conResId then do
    let b0 ← Lib.Peek.cell 0
    let b1 ← Lib.Peek.cell 1
    let b2 ← Lib.Peek.cell 2
    let b3 ← Lib.Peek.cell 3
    let b4 ← Lib.Peek.cell 4
    let b5 ← Lib.Peek.cell 5
    pure [b0, b1, b2, b3, b4, b5]
  else pure (replicate 6 0)

def ceReads (payload : Memory) : List Nat :=
  (p.getCRnti ulsch).reads payload ++ (p.getPhr ulsch).reads payload ++ (p.getPcmax ulsch).reads payload ++
    p.getTa.reads payload ++ (p.getSbsr ulsch).reads payload ++ (p.getLbsr ulsch).reads payload ++
    (p.getUeConResIdCe ulsch).reads payload

def EmptyLongBsr : Prop := ulsch = true ∧ (p.lcid = Lcid.longBsr ∨ p.lcid = longTruncBsr) ∧ p.sduLength ≤ 0

theorem getLbsrList_reads (payload : Memory) (bitmap : Nat) (lcgs : List Nat) (bsrCnt : Nat) :
    ∀ i ∈ (p.getLbsrList bitmap lcgs bsrCnt).reads payload, (i : Int) < p.sduLength := by
  induction lcgs generalizing bsrCnt with
  | nil => simp [getLbsrList]
  | cons lcg rest ih =>
    unfold getLbsrList
    split
    · split
      · rename_i inside
        rw [reads_cell_bind, reads_bind, reads_pure, append_nil, forall_mem_cons]
        exact ⟨by omega, ih (bsrCnt + 1)⟩
      · simpa using ih bsrCnt
    · exact ih bsrCnt

theorem ceReads_inside_iff (payload : Memory)
    (sized : hasLengthField ulsch p.lcid = false → p.lcid ≠ Lcid.padding → p.sduLength = sizeofCe ulsch p.lcid) :
    (∀ i ∈ p.ceReads ulsch payload, (i : Int) < p.sduLength) ↔ ¬ p.EmptyLongBsr ulsch := by
  by_cases long : ulsch = true ∧ (p.lcid = Lcid.longBsr ∨ p.lcid = longTruncBsr)
  · have list := p.getLbsrList_reads payload (payload 0).toNat (range 8) 0
    have reads : p.ceReads ulsch payload = 0 :: if (payload 0).toNat = 0 then [] else
        (p.getLbsrList (payload 0).toNat (range 8) 0).reads payload := by
      have lbsr : (p.getLbsr ulsch).reads payload = 0 :: if (payload 0).toNat = 0 then [] else
          (p.getLbsrList (payload 0).toNat (range 8) 0).reads payload := by
        unfold getLbsr
        rw [if_pos long, reads_cell_bind, reads_ite, reads_bind, reads_pure,
          reads_pure, append_nil]
      obtain ⟨rfl, lcid⟩ := long
      unfold ceReads
      rw [lbsr]
      rcases lcid with lcid | lcid <;>
        simp [getCRnti, getPhr, getPcmax, getTa, getSbsr, getUeConResIdCe, lcid, Lcid.longBsr, longTruncBsr,
          Lcid.crnti, sePhr, Lcid.taCmd, Lcid.shortBsr, shortTruncBsr]
    rw [reads, forall_mem_cons]
    constructor
    · rintro ⟨first, -⟩ ⟨-, -, empty⟩
      exact absurd first (by omega)
    · intro some_
      refine ⟨?_, ?_⟩
      · by_contra none_
        exact some_ ⟨long.1, long.2, by omega⟩
      · split
        · simp
        · exact list
  · refine iff_of_true ?_ fun empty => long ⟨empty.1, empty.2.1⟩
    intro i read
    -- every other getter asks for an LCID of a fixed size
    have of_size : ∀ lcid, p.lcid = lcid → hasLengthField ulsch lcid = false → lcid ≠ Lcid.padding →
        p.sduLength = sizeofCe ulsch lcid := by
      rintro _ rfl noField notPadding
      exact sized noField notPadding
    simp only [ceReads, mem_append] at read
    rcases read with (((((read | read) | read) | read) | read) | read) | read
    · obtain ⟨⟨rfl, lcid⟩, at_⟩ := of_mem_reads_ite read
      rw [of_size _ lcid (by decide) (by decide)]
      simp only [reads_cell_bind, reads_pure, mem_cons, not_mem_nil, or_false] at at_
      rcases at_ with rfl | rfl <;> decide
    · obtain ⟨⟨rfl, lcid⟩, at_⟩ := of_mem_reads_ite read
      rw [of_size _ lcid (by decide) (by decide)]
      obtain rfl : i = 0 := by simpa using at_
      decide
    · obtain ⟨⟨rfl, lcid⟩, at_⟩ := of_mem_reads_ite read
      rw [of_size _ lcid (by decide) (by decide)]
      obtain rfl : i = 1 := by simpa using at_
      decide
    · obtain ⟨lcid, at_⟩ := of_mem_reads_ite read
      rw [of_size _ lcid (by cases ulsch <;> decide) (by decide)]
      obtain rfl : i = 0 := by simpa using at_
      cases ulsch <;> decide
    · obtain ⟨⟨rfl, lcid | lcid⟩, at_⟩ := of_mem_reads_ite read <;>
      · rw [of_size _ lcid (by decide) (by decide)]
        obtain rfl : i = 0 := by simpa using at_
        decide
    · exact absurd (of_mem_reads_ite read).1 long
    · obtain ⟨⟨rfl, lcid⟩, at_⟩ := of_mem_reads_ite read
      rw [of_size _ lcid (by decide) (by decide)]
      simp only [reads_cell_bind, reads_pure, mem_cons, not_mem_nil, or_false] at at_
      rcases at_ with rfl | rfl | rfl | rfl | rfl | rfl <;> decide

end SubPdu

inductive WellFormed (ulsch : Bool) (mem : Memory) (len : Nat) : Nat → Prop where
  | done : WellFormed ulsch mem len len
  | padding {offset : Nat} {p : SubPdu} (inside : offset < len) (header : HeaderAt ulsch mem offset p)
      (lcid : p.lcid = Lcid.padding) : WellFormed ulsch mem len offset
  | next {offset : Nat} {p : SubPdu} (inside : offset < len) (header : HeaderAt ulsch mem offset p)
      (lcid : p.lcid ≠ Lcid.padding) (rest : WellFormed ulsch mem len (offset + p.getTotalLength)) :
      WellFormed ulsch mem len offset

def starts (ulsch : Bool) (mem : Memory) (len : Nat) : (rounds offset : Nat) → List Nat
  | 0, _ => []
  | rounds + 1, offset =>
    if offset < len then
      offset :: match (lookSubheader ulsch offset).run mem with
        | none => []
        | some p => if p.lcid = Lcid.padding then [] else starts ulsch mem len rounds (offset + p.getTotalLength)
    else []

section
variable {ulsch : Bool} {mem : Memory} {len : Nat}

variable {start offset : Nat} {p : SubPdu}

theorem HeaderAt.total (header : HeaderAt ulsch mem start p) :
    p.getTotalLength = p.headerLength + p.sduLength.toNat ∧ 0 ≤ p.sduLength ∧ 1 ≤ p.headerLength ∧
      p.getTotalLength ≤ 65538 := by
  have small : ∀ lcid, sizeofCe ulsch lcid ≤ 8 := by
    intro lcid
    unfold sizeofCe
    repeat' split
    all_goals omega
  have first := mem.byte_lt (start + 1)
  have second := mem.byte_lt (start + 2)
  unfold SubPdu.getTotalLength
  cases field : hasLengthField ulsch p.lcid with
  | true =>
    by_cases long : mem.byte start / 64 % 2 = 1
    · obtain ⟨length, size⟩ := (header.field field).1 long
      omega
    · obtain ⟨length, size⟩ := (header.field field).2 long
      omega
  | false =>
    obtain ⟨length, size⟩ := header.fixed field
    have := small p.lcid
    omega

theorem HeaderAt.unique {q : SubPdu} (header : HeaderAt ulsch mem start p)
    (read : (lookSubheader ulsch start).run mem = some q) :
    q.lcid = p.lcid ∧ q.sduLength = p.sduLength ∧ q.getTotalLength = p.getTotalLength := by
  have header' := (headerAt_of_run read).1
  have lcid : q.lcid = p.lcid := header'.lcid.trans header.lcid.symm
  have both : q.headerLength = p.headerLength ∧ q.sduLength = p.sduLength := by
    cases field : hasLengthField ulsch p.lcid with
    | true =>
      by_cases long : mem.byte start / 64 % 2 = 1
      · obtain ⟨length, size⟩ := (header.field field).1 long
        obtain ⟨length', size'⟩ := (header'.field (lcid ▸ field)).1 long
        exact ⟨length'.trans length.symm, size'.trans size.symm⟩
      · obtain ⟨length, size⟩ := (header.field field).2 long
        obtain ⟨length', size'⟩ := (header'.field (lcid ▸ field)).2 long
        exact ⟨length'.trans length.symm, size'.trans size.symm⟩
    | false =>
      obtain ⟨length, size⟩ := header.fixed field
      obtain ⟨length', size'⟩ := header'.fixed (lcid ▸ field)
      rw [lcid] at size'
      exact ⟨length'.trans length.symm, size'.trans size.symm⟩
  refine ⟨lcid, both.2, ?_⟩
  rw [SubPdu.getTotalLength, SubPdu.getTotalLength, both.1, both.2]

theorem run_of_valid {start : Nat} (valid : isValidLcid ulsch (mem.byte start % 64) = true) :
    ∃ p, (lookSubheader ulsch start).run mem = some p := by
  cases read : (lookSubheader ulsch start).run mem with
  | some p => exact ⟨p, rfl⟩
  | none =>
    unfold lookSubheader at read
    simp only [run_cell_bind] at read
    change isValidLcid ulsch ((mem start).toNat % 64) = true at valid
    rw [if_pos valid] at read
    split at read
    · split at read <;> exact nomatch read
    · exact nomatch read

theorem WellFormed.offset_le (wellFormed : WellFormed ulsch mem len offset) : offset ≤ len := by
  cases wellFormed with
  | done => exact Nat.le_refl _
  | padding inside => exact Nat.le_of_lt inside
  | next inside => exact Nat.le_of_lt inside

theorem setPadding_total (p : SubPdu) (inside : offset < len) (small : len < 4294967296) :
    (p.setPadding (u32Sub len (offset + 1) + 1)).getTotalLength = len - offset := by
  unfold SubPdu.setPadding SubPdu.getTotalLength u32Sub i32
  dsimp only
  split <;> omega

def LoopSpec (ulsch : Bool) (mem : Memory) (len rounds offset : Nat) (subpdus : List (Nat × SubPdu)) : Prop :=
  ∃ ok more, (lookFrom ulsch len rounds offset subpdus).run mem = some (ok, subpdus ++ more) ∧
    (lookFrom ulsch len rounds offset subpdus).reads mem =
      (starts ulsch mem len rounds offset).flatMap (fun s => (lookSubheader ulsch s).reads mem) ∧
    (ok = true ↔ WellFormed ulsch mem len offset) ∧
    (ok = true → Lib.Tiles offset (more.map fun s => (s.1, s.2.getTotalLength)) len ∧
      ∀ s ∈ starts ulsch mem len rounds offset, ∃ p, (s, p) ∈ more) ∧
    ∀ s ∈ more, s.1 ∈ starts ulsch mem len rounds offset ∧
      (HeaderAt ulsch mem s.1 s.2 ∨ s.2.lcid = Lcid.padding ∧ mem.byte s.1 % 64 = Lcid.padding)

theorem loopSpec_outside {rounds : Nat} {subpdus : List (Nat × SubPdu)} (outside : ¬ offset < len) :
    LoopSpec ulsch mem len rounds offset subpdus := by
  have none_ : starts ulsch mem len rounds offset = [] := by
    cases rounds with
    | zero => rfl
    | succ rounds => rw [starts, if_neg outside]
  refine ⟨decide (offset = len), [], ?_, ?_, ?_, ?_, by simp⟩
  · unfold lookFrom
    rw [if_neg outside, append_nil]
    rfl
  · unfold lookFrom
    rw [if_neg outside, none_]
    rfl
  · rw [decide_eq_true_iff]
    constructor
    · rintro rfl
      exact .done
    · intro wellFormed
      have := wellFormed.offset_le
      omega
  · intro atEnd
    rw [none_]
    have here : offset = len := of_decide_eq_true atEnd
    exact ⟨here, by simp⟩

theorem loopSpec (small : len + 65538 < 4294967296) (rounds offset : Nat) (enough : len ≤ offset + rounds)
    (subpdus : List (Nat × SubPdu)) : LoopSpec ulsch mem len rounds offset subpdus := by
  induction rounds generalizing offset subpdus with
  | zero => exact loopSpec_outside (by omega)
  | succ rounds ih =>
    by_cases inside : offset < len
    · unfold LoopSpec lookFrom starts
      rw [if_pos inside, if_pos inside]
      rw [run_bind, reads_bind]
      cases read : (lookSubheader ulsch offset).run mem with
      | none =>
        refine ⟨false, [], by simp, by simp, ?_, by simp, by simp⟩
        have invalid : ∀ p, ¬ HeaderAt ulsch mem offset p := by
          intro p header
          obtain ⟨q, found⟩ := @run_of_valid ulsch mem offset (header.lcid ▸ header.valid)
          rw [read] at found
          exact nomatch found
        refine iff_of_false Bool.false_ne_true ?_
        intro wellFormed
        cases wellFormed with
        | done => omega
        | padding _ header => exact invalid _ header
        | next _ header => exact invalid _ header
      | some p =>
        have header := (headerAt_of_run read).1
        obtain ⟨total, pos, one, bound⟩ := header.total
        have next : (offset + p.getTotalLength) % 4294967296 = offset + p.getTotalLength :=
          Nat.mod_eq_of_lt (by omega)
        dsimp only
        rw [next]
        by_cases padding : p.lcid = Lcid.padding
        · have oneByte : p.getTotalLength = 1 := by
            obtain ⟨length, size⟩ := header.fixed (by rw [padding, hasLengthField_padding])
            have none_ : sizeofCe ulsch Lcid.padding = 0 := by cases ulsch <;> decide
            rw [padding, none_] at size
            rw [total, length, size]
            rfl
          have stop : ∀ subpdus, lookFrom ulsch len rounds len subpdus = pure (some (true, subpdus)) := by
            unfold lookFrom
            simp
          rw [if_pos padding, if_pos padding, oneByte, stop]
          refine ⟨true, [(offset, p.setPadding (u32Sub len (offset + 1) + 1))], rfl, ?_, ?_, ?_, ?_⟩
          · simp
          · exact iff_of_true rfl (.padding inside header padding)
          · intro _
            refine ⟨⟨rfl, ?_⟩, by simp⟩
            show offset + (p.setPadding (u32Sub len (offset + 1) + 1)).getTotalLength = len
            rw [setPadding_total p inside (by omega)]
            omega
          · intro s mem_
            obtain rfl := List.mem_singleton.mp mem_
            exact ⟨mem_cons_self, .inr ⟨rfl, header.lcid ▸ padding⟩⟩
        · rw [if_neg padding, if_neg padding]
          obtain ⟨ok, more, run, reads, wellFormed, covers, here⟩ := ih (offset + p.getTotalLength) (by omega)
            (subpdus ++ [(offset, p)])
          refine ⟨ok, (offset, p) :: more, ?_, ?_, ?_, ?_, ?_⟩
          · rw [run, append_assoc]
            rfl
          · rw [reads]
            rfl
          · rw [wellFormed]
            constructor
            · exact .next inside header padding
            · intro whole
              cases whole with
              | done => omega
              | padding _ header' lcid => exact absurd ((header'.unique read).1.trans lcid) padding
              | next _ header' _ rest =>
                rw [(header'.unique read).2.2]
                exact rest
          · intro atEnd
            obtain ⟨tiles, all⟩ := covers atEnd
            refine ⟨⟨rfl, tiles⟩, ?_⟩
            intro s mem_
            rcases List.mem_cons.mp mem_ with rfl | later
            · exact ⟨p, mem_cons_self⟩
            · obtain ⟨q, found⟩ := all s later
              exact ⟨q, mem_cons_of_mem _ found⟩
          · intro s mem_
            rcases List.mem_cons.mp mem_ with rfl | later
            · exact ⟨mem_cons_self, .inl header⟩
            · exact ⟨mem_cons_of_mem _ (here s later).1, (here s later).2⟩
    · exact loopSpec_outside inside

def LengthCutOff (ulsch : Bool) (mem : Memory) (len start : Nat) : Prop :=
  isValidLcid ulsch (mem.byte start % 64) = true ∧ hasLengthField ulsch (mem.byte start % 64) = true ∧
    (start + 1 = len ∨ start + 2 = len ∧ mem.byte start / 64 % 2 = 1)

def EmptyLongBsrAt (ulsch : Bool) (mem : Memory) (start : Nat) : Prop :=
  ulsch = true ∧ (mem.byte start % 64 = Lcid.longBsr ∨ mem.byte start % 64 = longTruncBsr) ∧
    mem.byte (start + 1) = 0 ∧ (mem.byte start / 64 % 2 = 1 → mem.byte (start + 2) = 0)

instance (start : Nat) : Decidable (LengthCutOff ulsch mem len start) := inferInstanceAs (Decidable (_ ∧ _))

instance (start : Nat) : Decidable (EmptyLongBsrAt ulsch mem start) := inferInstanceAs (Decidable (_ ∧ _))

theorem lookSubheader_reads_inside (inside : start < len) :
    (∀ i ∈ (lookSubheader ulsch start).reads mem, i < len) ↔ ¬ LengthCutOff ulsch mem len start := by
  cases read : (lookSubheader ulsch start).run mem with
  | none =>
    rw [reads_of_run_none read]
    refine iff_of_true (by simpa using inside) fun cutOff => ?_
    obtain ⟨p, found⟩ := run_of_valid cutOff.1
    rw [read] at found
    exact nomatch found
  | some p =>
    obtain ⟨header, reads⟩ := headerAt_of_run read
    rw [reads]
    have whole : (∀ i ∈ range' start p.headerLength, i < len) ↔ start + p.headerLength ≤ len := by
      constructor
      · intro all
        by_contra beyond
        have := all (start + (p.headerLength - 1)) (mem_range'_1.mpr (by omega))
        omega
      · intro fits i mem_
        have := mem_range'_1.mp mem_
        omega
    rw [whole, LengthCutOff, ← header.lcid]
    cases field : hasLengthField ulsch p.lcid with
    | true =>
      by_cases long : mem.byte start / 64 % 2 = 1
      · obtain ⟨length, -⟩ := (header.field field).1 long
        simp only [header.valid, true_and]
        omega
      · obtain ⟨length, -⟩ := (header.field field).2 long
        simp only [header.valid, true_and]
        omega
    | false =>
      obtain ⟨length, -⟩ := header.fixed field
      simp only [Bool.false_eq_true, false_and, and_false, not_false_iff, iff_true]
      omega

theorem HeaderAt.emptyLongBsr_iff (header : HeaderAt ulsch mem start p) :
    p.EmptyLongBsr ulsch ↔ EmptyLongBsrAt ulsch mem start := by
  unfold SubPdu.EmptyLongBsr EmptyLongBsrAt
  rw [← header.lcid]
  apply and_congr_right
  rintro rfl
  apply and_congr_right
  intro lcid
  have field : hasLengthField true p.lcid = true := by
    rcases lcid with lcid | lcid <;> rw [lcid] <;> decide
  by_cases long : mem.byte start / 64 % 2 = 1
  · rw [((header.field field).1 long).2]
    omega
  · rw [((header.field field).2 long).2]
    omega

theorem starts_lt (rounds offset : Nat) : ∀ s ∈ starts ulsch mem len rounds offset, s < len := by
  induction rounds generalizing offset with
  | zero => simp [starts]
  | succ rounds ih =>
    unfold starts
    split
    · rename_i inside
      rw [forall_mem_cons]
      refine ⟨inside, ?_⟩
      cases (lookSubheader ulsch offset).run mem with
      | none => simp
      | some p =>
        dsimp only
        split
        · simp
        · exact ih _
    · simp

/-- The loop looks only at the string; the subPDUs of what it accepts cover the string one behind the other, and the
getters of their control elements stay inside the payload. -/
structure UnpackInBounds (ulsch : Bool) (mem : Memory) (len : Nat) : Prop where
  headers : ∀ i ∈ (lookFrom ulsch len len 0 []).reads mem, i < len
  covers : ∀ subpdus, (lookFrom ulsch len len 0 []).run mem = some (true, subpdus) →
    Lib.Tiles 0 (subpdus.map fun s => (s.1, s.2.getTotalLength)) len
  ces : ∀ subpdus, (lookFrom ulsch len len 0 []).run mem = some (true, subpdus) →
    ∀ s ∈ subpdus, ∀ i ∈ s.2.ceReads ulsch (fun i => mem (s.1 + s.2.headerLength + i)), (i : Int) < s.2.sduLength

theorem unpackInBounds_iff (small : len + 65538 < 4294967296) :
    UnpackInBounds ulsch mem len ↔
      (∀ s ∈ starts ulsch mem len len 0, ¬ LengthCutOff ulsch mem len s) ∧
      (WellFormed ulsch mem len 0 → ∀ s ∈ starts ulsch mem len len 0, ¬ EmptyLongBsrAt ulsch mem s) := by
  obtain ⟨ok, more, run, reads, wellFormed, covers, here⟩ := @loopSpec ulsch mem len small len 0 (by omega) []
  have headers : (∀ i ∈ (lookFrom ulsch len len 0 []).reads mem, i < len) ↔
      ∀ s ∈ starts ulsch mem len len 0, ¬ LengthCutOff ulsch mem len s := by
    rw [reads, forall_mem_flatMap]
    exact forall₂_congr fun s mem_ => lookSubheader_reads_inside (starts_lt len 0 s mem_)
  -- the getters read a subPDU by its header
  have getters : ∀ s ∈ more, ∀ payload, (∀ i ∈ s.2.ceReads ulsch payload, (i : Int) < s.2.sduLength) ↔
      ¬ EmptyLongBsrAt ulsch mem s.1 := by
    intro s mem_ payload
    rcases (here s mem_).2 with header | ⟨padding, byte⟩
    · rw [SubPdu.ceReads_inside_iff ulsch s.2 payload fun noField _ => (header.fixed noField).2,
        header.emptyLongBsr_iff]
    · rw [SubPdu.ceReads_inside_iff ulsch s.2 payload fun _ notPadding => absurd padding notPadding]
      apply not_congr
      refine iff_of_false (fun empty => ?_) fun empty => ?_
      · rcases empty.2.1 with lcid | lcid <;> rw [padding] at lcid <;> exact absurd lcid (by decide)
      · rcases empty.2.1 with lcid | lcid <;> rw [byte] at lcid <;> exact absurd lcid (by decide)
  constructor
  · intro bounds
    refine ⟨headers.mp bounds.headers, fun whole s mem_ => ?_⟩
    obtain rfl := wellFormed.mpr whole
    obtain ⟨p, found⟩ := (covers rfl).2 s mem_
    exact (getters (s, p) found _).mp (bounds.ces more run (s, p) found)
  · rintro ⟨whole, noEmpty⟩
    refine ⟨headers.mpr whole, ?_, ?_⟩
    · intro subpdus accepted
      rw [run] at accepted
      obtain ⟨rfl, rfl⟩ := Prod.mk.inj (Option.some.inj accepted)
      exact (covers rfl).1
    · intro subpdus accepted s mem_
      rw [run] at accepted
      obtain ⟨rfl, rfl⟩ := Prod.mk.inj (Option.some.inj accepted)
      exact (getters s mem_ _).mpr (noEmpty (wellFormed.mp rfl) s.1 (here s mem_).1)

end

end IsrRan.Mac.Nr
