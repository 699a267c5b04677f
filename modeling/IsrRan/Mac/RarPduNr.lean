import IsrRan.Lib.BitList
import IsrRan.Mac.SchPduNrBounds

namespace IsrRan.Mac.Nr.Rar
open List

inductive SubhType where
  | backoff
  | rapid
  deriving DecidableEq, Repr

structure RarSubPdu where
  payloadLength : Nat := 0
  ulGrant : List Bool := List.replicate 27 false
  ta : Nat := 0
  tempCrnti : Nat := 0
  rapid : Nat := 0
  backoffIndicator : Nat := 0
  type : SubhType := .backoff
  eBit : Bool := true
  deriving DecidableEq, Repr

def macRarNbytes : Nat := 7

def RarSubPdu.getTotalLength (s : RarSubPdu) : Nat := 1 + s.payloadLength

def readSubpdu (siRapidSet : Bool) (remainingLen ptr : Nat) : Lib.Peek Nat Byte (Bool × RarSubPdu) := do
  let first ← Lib.Peek.cell ptr
  let eBit := decide (first.toNat / 128 % 2 = 1)
  if first.toNat / 64 % 2 = 1 then
    let s : RarSubPdu := { eBit, type := .rapid, rapid := first.toNat % 64 }
    if siRapidSet then pure (true, s)
    else if macRarNbytes ≤ remainingLen then
      let r0 ← Lib.Peek.cell (ptr + 1)
      if 128 ≤ r0.toNat then pure (false, s)
      else
        let r1 ← Lib.Peek.cell (ptr + 2)
        let r2 ← Lib.Peek.cell (ptr + 3)
        let r3 ← Lib.Peek.cell (ptr + 4)
        let r4 ← Lib.Peek.cell (ptr + 5)
        let r5 ← Lib.Peek.cell (ptr + 6)
        let r6 ← Lib.Peek.cell (ptr + 7)
        pure (true,
          { s with
            ta := r0.toNat % 128 * 32 + r1.toNat / 8
            ulGrant := Lib.bitsOf 3 r1.toNat ++ Lib.bitsOf 8 r2.toNat ++ Lib.bitsOf 8 r3.toNat ++ Lib.bitsOf 8 r4.toNat
            tempCrnti := r5.toNat * 256 + r6.toNat
            payloadLength := macRarNbytes })
    else pure (false, s)
  else if first.toNat / 16 % 4 ≠ 0 then pure (false, { eBit })
  else pure (true, { eBit, backoffIndicator := first.toNat % 16 })

def unpackFrom (siRapidSet : Bool) (len : Nat) :
    (rounds offset remainingLen : Nat) → List (Nat × RarSubPdu) →
      Lib.Peek Nat Byte (Option (Bool × List (Nat × RarSubPdu)))
  | 0, _, _, _ => pure none
  | rounds + 1, offset, remainingLen, subpdus => do
    let (ret, s) ← readSubpdu siRapidSet remainingLen offset
    let next := (offset + s.getTotalLength) % 4294967296
    let subpdus := if ret then subpdus ++ [(offset, s)] else subpdus
    if ret && s.eBit && next ≤ len then
      unpackFrom siRapidSet len rounds next (u32Sub remainingLen s.getTotalLength) subpdus
    else pure (some (ret, subpdus))

/-- `unpack` of a new object. More than `len + 1` rounds are never needed. -/
def unpack (siRapidSet : Bool) (len : Nat) : Lib.Peek Nat Byte (Option (Bool × List (Nat × RarSubPdu))) :=
  unpackFrom siRapidSet len (len + 1) 0 len []

def starts (siRapidSet : Bool) (mem : Memory) (len : Nat) : (rounds offset : Nat) → List Nat
  | 0, _ => []
  | rounds + 1, offset =>
    let (ret, s) := (readSubpdu siRapidSet (len - offset) offset).run mem
    offset :: if ret && s.eBit && offset + s.getTotalLength ≤ len then
      starts siRapidSet mem len rounds (offset + s.getTotalLength)
    else []

/-- The subPDU at `start` is announced where the string ends, or is a response of which the last byte is missing. -/
def Overruns (siRapidSet : Bool) (mem : Memory) (len start : Nat) : Prop :=
  start = len ∨
    start + macRarNbytes = len ∧ siRapidSet = false ∧ mem.byte start / 64 % 2 = 1 ∧ mem.byte (start + 1) < 128

/-- Only the string is looked at; the subPDUs of what is accepted lie in it one behind the other. -/
structure UnpackInBounds (siRapidSet : Bool) (mem : Memory) (len : Nat) : Prop where
  reads : ∀ i ∈ (unpack siRapidSet len).reads mem, i < len
  inside : ∀ subpdus, (unpack siRapidSet len).run mem = some (true, subpdus) →
    ∃ high, Lib.Tiles 0 (subpdus.map fun s => (s.1, s.2.getTotalLength)) high ∧ high ≤ len

section
variable {siRapidSet : Bool} {mem : Memory} {len : Nat}

instance (start : Nat) : Decidable (Overruns siRapidSet mem len start) := inferInstanceAs (Decidable (_ ∨ _))

theorem readSubpdu_inside {start : Nat} (inside : start ≤ len) :
    ((∀ i ∈ (readSubpdu siRapidSet (len - start) start).reads mem, i < len) ↔ ¬ Overruns siRapidSet mem len start) ∧
    ((readSubpdu siRapidSet (len - start) start).run mem).2.getTotalLength ≤ 8 ∧
    1 ≤ ((readSubpdu siRapidSet (len - start) start).run mem).2.getTotalLength ∧
    (¬ Overruns siRapidSet mem len start →
      start + ((readSubpdu siRapidSet (len - start) start).run mem).2.getTotalLength ≤ len) := by
  unfold readSubpdu Overruns macRarNbytes
  simp only [Lib.Peek.run_cell_bind, Lib.Peek.run_ite, Lib.Peek.run_pure, Lib.Peek.reads_cell_bind, Lib.Peek.reads_ite,
    Lib.Peek.reads_pure, Memory.byte]
  by_cases rapid : (mem start).toNat / 64 % 2 = 1
  · rw [if_pos rapid, if_pos rapid]
    cases siRapidSet with
    | true =>
      simp only [if_true, forall_mem_cons, not_mem_nil, false_imp_iff, implies_true, and_true,
        Bool.true_eq_false, false_and, and_false, or_false, RarSubPdu.getTotalLength]
      omega
    | false =>
      simp only [Bool.false_eq_true, if_false, true_and]
      by_cases enough : 7 ≤ len - start
      · rw [if_pos enough, if_pos enough]
        by_cases reserved : 128 ≤ (mem (start + 1)).toNat
        · rw [if_pos reserved, if_pos reserved]
          simp only [forall_mem_cons, not_mem_nil, false_imp_iff, implies_true, and_true,
            RarSubPdu.getTotalLength]
          omega
        · rw [if_neg reserved, if_neg reserved]
          simp only [forall_mem_cons, not_mem_nil, false_imp_iff, implies_true, and_true,
            RarSubPdu.getTotalLength]
          omega
      · rw [if_neg enough, if_neg enough]
        simp only [forall_mem_cons, not_mem_nil, false_imp_iff, implies_true, and_true,
          RarSubPdu.getTotalLength]
        omega
  · rw [if_neg rapid]
    split <;>
    · simp only [forall_mem_cons, not_mem_nil, false_imp_iff, implies_true, and_true,
        RarSubPdu.getTotalLength]
      omega

theorem unpackFrom_spec (small : len + 65538 < 4294967296) (rounds offset : Nat) (inside : offset ≤ len)
    (enough : len < offset + rounds) (subpdus : List (Nat × RarSubPdu)) :
    ∃ ret more high, (unpackFrom siRapidSet len rounds offset (len - offset) subpdus).run mem =
        some (ret, subpdus ++ more) ∧
      (unpackFrom siRapidSet len rounds offset (len - offset) subpdus).reads mem =
        (starts siRapidSet mem len rounds offset).flatMap
          (fun s => (readSubpdu siRapidSet (len - s) s).reads mem) ∧
      (∀ s ∈ starts siRapidSet mem len rounds offset, s ≤ len) ∧
      Lib.Tiles offset (more.map fun s => (s.1, s.2.getTotalLength)) high ∧
      ((∀ s ∈ starts siRapidSet mem len rounds offset, ¬ Overruns siRapidSet mem len s) → high ≤ len) := by
  induction rounds generalizing offset subpdus with
  | zero => omega
  | succ rounds ih =>
    obtain ⟨-, short, one, ends⟩ := @readSubpdu_inside siRapidSet mem len offset inside
    unfold unpackFrom starts
    rw [Lib.Peek.run_bind, Lib.Peek.reads_bind]
    generalize (readSubpdu siRapidSet (len - offset) offset).run mem = read at short one ends ⊢
    obtain ⟨ret, s⟩ := read
    dsimp only at short one ends ⊢
    have next : (offset + s.getTotalLength) % 4294967296 = offset + s.getTotalLength := Nat.mod_eq_of_lt (by omega)
    rw [next]
    by_cases goesOn : (ret && s.eBit && offset + s.getTotalLength ≤ len) = true
    · rw [if_pos goesOn, if_pos goesOn]
      simp only [Bool.and_eq_true, decide_eq_true_eq] at goesOn
      obtain ⟨⟨rfl, -⟩, fits⟩ := goesOn
      have left : u32Sub (len - offset) s.getTotalLength = len - (offset + s.getTotalLength) := by
        rw [u32Sub_of_le (by omega) (by omega)]
        omega
      obtain ⟨ret, more, high, run, reads, places, tiles, within⟩ := ih (offset + s.getTotalLength) fits (by omega)
        (subpdus ++ [(offset, s)])
      rw [left, if_pos rfl]
      refine ⟨ret, (offset, s) :: more, high, ?_, ?_, ?_, ⟨rfl, tiles⟩, ?_⟩
      · rw [run, append_assoc]
        rfl
      · rw [reads]
        rfl
      · rw [forall_mem_cons]
        exact ⟨inside, places⟩
      · rw [forall_mem_cons]
        exact fun all => within all.2
    · rw [if_neg goesOn, if_neg goesOn]
      cases ret with
      | false =>
        refine ⟨false, [], offset, by simp, by simp, by simpa using inside, rfl, fun _ => inside⟩
      | true =>
        refine ⟨true, [(offset, s)], offset + s.getTotalLength, rfl, by simp, by simpa using inside, ⟨rfl, rfl⟩, ?_⟩
        intro all
        exact ends (all offset mem_cons_self)

theorem unpackInBounds_iff (small : len + 65538 < 4294967296) :
    UnpackInBounds siRapidSet mem len ↔
      ∀ s ∈ starts siRapidSet mem len (len + 1) 0, ¬ Overruns siRapidSet mem len s := by
  obtain ⟨ret, more, high, run, reads, places, tiles, within⟩ :=
    @unpackFrom_spec siRapidSet mem len small (len + 1) 0 (Nat.zero_le _) (by omega) []
  rw [Nat.sub_zero] at run reads
  have all : (∀ i ∈ (unpack siRapidSet len).reads mem, i < len) ↔
      ∀ s ∈ starts siRapidSet mem len (len + 1) 0, ¬ Overruns siRapidSet mem len s := by
    unfold unpack
    rw [reads, forall_mem_flatMap]
    exact forall₂_congr fun s mem_ => (readSubpdu_inside (places s mem_)).1
  rw [← all]
  refine ⟨fun bounds => bounds.reads, fun looked => ⟨looked, ?_⟩⟩
  intro subpdus accepted
  unfold unpack at accepted
  rw [run] at accepted
  obtain ⟨rfl, rfl⟩ := Prod.mk.inj (Option.some.inj accepted)
  exact ⟨high, tiles, within (all.mp looked)⟩

end

end IsrRan.Mac.Nr.Rar

namespace IsrRan.Mac.Nr

theorem nrPdus_inBounds_iff {len : Nat} (small : len + 65538 < 4294967296) (ulsch siRapidSet : Bool) (mem : Memory) :
    (UnpackInBounds ulsch mem len ↔
      (∀ s ∈ starts ulsch mem len len 0, ¬ LengthCutOff ulsch mem len s) ∧
      (WellFormed ulsch mem len 0 → ∀ s ∈ starts ulsch mem len len 0, ¬ EmptyLongBsrAt ulsch mem s)) ∧
    (Rar.UnpackInBounds siRapidSet mem len ↔
      ∀ s ∈ Rar.starts siRapidSet mem len (len + 1) 0, ¬ Rar.Overruns siRapidSet mem len s) :=
  ⟨unpackInBounds_iff small, Rar.unpackInBounds_iff small⟩

theorem nrPdus_inBounds_iff_twoSubpdus :
    UnpackInBounds true (Memory.ofList [0x3d, 0x21, 0x3f, 0x00]) 4 ∧
    Rar.UnpackInBounds false (Memory.ofList [0x40, 0x05, 0xa0, 0x00, 0x11, 0x46, 0x46, 0x16]) 8 :=
  ⟨(nrPdus_inBounds_iff (by decide) true false (Memory.ofList [0x3d, 0x21, 0x3f, 0x00])).1.mpr
      ⟨by decide, fun _ => by decide⟩,
    (nrPdus_inBounds_iff (by decide) true false
      (Memory.ofList [0x40, 0x05, 0xa0, 0x00, 0x11, 0x46, 0x46, 0x16])).2.mpr (by decide)⟩

theorem rar_sevenBytes_accepted :
    ((Rar.unpack false 7).run (Memory.ofList [0x40, 0x05, 0xa0, 0x00, 0x11, 0x46, 0x46])).map
      (fun outcome => (outcome.1, outcome.2.map fun s => (s.1, s.2.getTotalLength))) = some (true, [(0, 8)]) ∧
    7 ∈ (Rar.unpack false 7).reads (Memory.ofList [0x40, 0x05, 0xa0, 0x00, 0x11, 0x46, 0x46]) ∧
    ¬ Rar.UnpackInBounds false (Memory.ofList [0x40, 0x05, 0xa0, 0x00, 0x11, 0x46, 0x46]) 7 := by
  have read : 7 ∈ (Rar.unpack false 7).reads (Memory.ofList [0x40, 0x05, 0xa0, 0x00, 0x11, 0x46, 0x46]) := by decide
  exact ⟨by decide, read, fun bounds => absurd (bounds.reads 7 read) (by decide)⟩

end IsrRan.Mac.Nr
