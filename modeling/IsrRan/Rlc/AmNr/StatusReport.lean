import IsrRan.Lib.Lists
import IsrRan.Rlc.AmNr.RxSafety

namespace IsrRan.Rlc.AmNr
open Lib Adt List Nat UInt8 Memory

section
variable {snSize : SnSize}

def Nack.count (nack : Nack) : Nat := if nack.hasNackRange then nack.nackRange else 1

def Nack.denotes (snSize : SnSize) (nack : Nack) (sn byte : Nat) : Prop :=
  ∃ j < nack.count, sn = (nack.nackSn + j) % snSize.modNr ∧
    (nack.hasSo = true → (j = 0 → nack.soStart ≤ byte) ∧
      (j + 1 = nack.count → nack.soEnd = soEndOfSdu ∨ byte ≤ nack.soEnd))

end

section

structure Nack.Valid (snSize : SnSize) (nack : Nack) : Prop where
  nackSn : nack.nackSn < snSize.modNr
  soStart : nack.soStart < 65536
  soEnd : nack.soEnd < 65536
  nackRange : nack.nackRange < 256

def Nack.onWire (nack : Nack) : Nack where
  nackSn := nack.nackSn
  hasSo := nack.hasSo
  soStart := if nack.hasSo then nack.soStart else 0
  soEnd := if nack.hasSo then nack.soEnd else soEndOfSdu
  hasNackRange := nack.hasNackRange
  nackRange := if nack.hasNackRange then nack.nackRange else 0

section Nacks
variable {snSize : SnSize} {nack prev next : Nack}

theorem denotes_onWire {sn byte : Nat} : nack.onWire.denotes snSize sn byte ↔ nack.denotes snSize sn byte := by
  have count : nack.onWire.count = nack.count := by
    unfold Nack.count Nack.onWire
    cases nack.hasNackRange <;> rfl
  unfold Nack.denotes
  rw [count]
  unfold Nack.onWire
  cases nack.hasSo <;> simp

theorem isContinuousSequence_onWire :
    isContinuousSequence snSize prev.onWire next.onWire = isContinuousSequence snSize prev next := by
  unfold isContinuousSequence Nack.onWire
  cases prev.hasSo <;> cases prev.hasNackRange <;> cases next.hasSo <;> rfl

theorem Nack.Valid.expand (valid : prev.Valid snSize) (validNext : next.Valid snSize) :
    (prev.expand next).Valid snSize := by
  refine ⟨valid.nackSn, ?_, ?_, mod_lt _ (by decide)⟩
  · unfold Nack.expand
    dsimp only
    split
    · decide
    · exact valid.soStart
  · unfold Nack.expand soEndOfSdu
    dsimp only
    split
    · exact validNext.soEnd
    · split
      · decide
      · exact valid.soEnd

theorem isContinuousSequence_expand_right {before : Nack} :
    isContinuousSequence snSize before (prev.expand next) = isContinuousSequence snSize before prev := by
  unfold isContinuousSequence Nack.expand
  cases prev.hasSo <;> cases next.hasSo <;> rfl

end Nacks

structure StatusPdu.Tracked (snSize : SnSize) (status : StatusPdu) : Prop where
  ackSn : status.ackSn < snSize.modNr
  packedSize : status.packedSize = 3 + (status.stack.map (nackSize snSize)).sum
  valid : ∀ nack ∈ status.stack, nack.Valid snSize
  apart : status.stack.IsChain fun next prev => isContinuousSequence snSize prev next = false

section Status
variable {snSize : SnSize} {status : StatusPdu} {nack : Nack}

section
variable (tracked : status.Tracked snSize)
include tracked

theorem StatusPdu.Tracked.pushNack (valid : nack.Valid snSize) :
    (status.pushNack snSize nack).Tracked snSize := by
  obtain ⟨ackSn, packedSize, allValid, apart⟩ := tracked
  unfold StatusPdu.pushNack
  cases stack : status.stack with
  | nil =>
    rw [stack] at packedSize
    refine ⟨ackSn, ?_, ?_, isChain_singleton nack⟩
    · simp [packedSize]
    · simpa using valid
  | cons prev rest =>
    rw [stack] at packedSize allValid apart
    rw [map_cons, sum_cons] at packedSize
    dsimp only
    cases continued : isContinuousSequence snSize prev nack with
    | true =>
      rw [if_pos rfl]
      refine ⟨ackSn, ?_, ?_, ?_⟩
      · dsimp only
        rw [map_cons, sum_cons]
        omega
      · intro other mem
        rcases List.mem_cons.mp mem with rfl | mem
        · exact (allValid prev mem_cons_self).expand valid
        · exact allValid other (mem_cons_of_mem prev mem)
      · cases rest with
        | nil => exact isChain_singleton _
        | cons before rest =>
          rw [isChain_cons_cons] at apart ⊢
          exact ⟨isContinuousSequence_expand_right.trans apart.1, apart.2⟩
    | false =>
      rw [if_neg Bool.false_ne_true]
      refine ⟨ackSn, ?_, ?_, ?_⟩
      · dsimp only
        rw [map_cons, sum_cons, map_cons, sum_cons]
        omega
      · intro other mem
        rcases List.mem_cons.mp mem with rfl | mem
        · exact valid
        · exact allValid other mem
      · exact List.isChain_cons_cons.mpr ⟨continued, apart⟩

theorem StatusPdu.Tracked.removeNacks (maxPackedSize : Nat) :
    (StatusPdu.removeNacks snSize maxPackedSize status.ackSn status.packedSize status.stack).Tracked snSize := by
  obtain ⟨ackSn, stack, packedSize⟩ := status
  induction stack generalizing ackSn packedSize with
  | nil => exact tracked
  | cons nack rest ih =>
    unfold StatusPdu.removeNacks
    split
    · obtain ⟨-, size, valid, apart⟩ := tracked
      apply ih
      refine ⟨(valid nack mem_cons_self).nackSn, ?_, ?_, apart.tail⟩
      · rw [map_cons, sum_cons] at size
        dsimp only at size ⊢
        omega
      · exact fun other mem => valid other (mem_cons_of_mem nack mem)
    · exact tracked

theorem StatusPdu.Tracked.trim (maxPackedSize : Nat) :
    (status.trim snSize maxPackedSize).Tracked snSize := by
  unfold StatusPdu.trim
  split
  · exact tracked
  · split
    · exact tracked
    · exact tracked.removeNacks maxPackedSize

end

theorem pushNack_apart {nacks : List Nack}
    (apart : (nacks.reverse ++ status.stack).IsChain fun next prev => isContinuousSequence snSize prev next = false) :
    (nacks.foldl (StatusPdu.pushNack snSize) status).stack = nacks.reverse ++ status.stack ∧
      (nacks.foldl (StatusPdu.pushNack snSize) status).ackSn = status.ackSn := by
  induction nacks generalizing status with
  | nil => exact ⟨rfl, rfl⟩
  | cons nack nacks ih =>
    rw [reverse_cons, append_assoc, singleton_append] at apart ⊢
    have pushed : (status.pushNack snSize nack).stack = nack :: status.stack ∧
        (status.pushNack snSize nack).ackSn = status.ackSn := by
      unfold StatusPdu.pushNack
      cases stack : status.stack with
      | nil => exact ⟨rfl, rfl⟩
      | cons prev rest =>
        rw [stack] at apart
        have here := (List.isChain_cons_cons.mp (List.isChain_append.mp apart).2.1).1
        dsimp only
        rw [here]
        exact ⟨rfl, rfl⟩
    rw [← pushed.1, ← pushed.2]
    apply ih
    rw [pushed.1]
    exact apart

end Status

section Wire
variable {snSize : SnSize} {nack : Nack} (front rest : List Byte)

theorem wordBytes_length (w : Nat) : (wordBytes w).length = 2 := rfl

theorem readWord_write {w : Nat} (bound : w < 65536) :
    readWord (ofList (front ++ (wordBytes w ++ rest))) front.length = w := by
  unfold readWord
  rw [byte_here, byte_behind]
  simp only [wordBytes, cons_append, getD_cons_zero, getD_cons_succ, toNat_ofNat']
  omega

def snBytes (snSize : SnSize) (more : Bool) (nack : Nack) : List Byte :=
  match snSize with
  | .size12bits =>
    [UInt8.ofNat (nack.nackSn / 16),
      UInt8.ofNat (nack.nackSn % 16 * 16 + more.toNat * 8 + nack.hasSo.toNat * 4 + nack.hasNackRange.toNat * 2)]
  | .size18bits =>
    [UInt8.ofNat (nack.nackSn / 1024), UInt8.ofNat (nack.nackSn / 4),
      UInt8.ofNat (nack.nackSn % 4 * 64 + more.toNat * 32 + nack.hasSo.toNat * 16 +
        nack.hasNackRange.toNat * 8)]

def soBytes (nack : Nack) : List Byte :=
  if nack.hasSo then wordBytes nack.soStart ++ wordBytes nack.soEnd else []

def rangeBytes (nack : Nack) : List Byte := if nack.hasNackRange then [UInt8.ofNat nack.nackRange] else []

theorem writeNack_eq (more : Bool) :
    writeNack snSize more nack = snBytes snSize more nack ++ soBytes nack ++ rangeBytes nack := rfl

theorem snBytes_length (more : Bool) : (snBytes snSize more nack).length = nackSnLength snSize := by
  cases snSize <;> rfl

theorem writeNack_length (more : Bool) : (writeNack snSize more nack).length = nackSize snSize nack := by
  rw [writeNack_eq, length_append, length_append, snBytes_length]
  unfold soBytes rangeBytes nackSize nackSnLength
  cases nack.hasSo <;> cases nack.hasNackRange <;> cases snSize <;> rfl

theorem toNat_cases (b : Bool) : b.toNat = 0 ∧ b = false ∨ b.toNat = 1 ∧ b = true := by
  cases b
  · exact .inl ⟨rfl, rfl⟩
  · exact .inr ⟨rfl, rfl⟩

section
variable (valid : nack.Valid snSize)
include valid

theorem readNackFields_write (more : Bool) :
    readNackFields (ofList (front ++ (snBytes snSize more nack ++ rest))) front.length snSize =
      ⟨nack.nackSn, more, nack.hasSo, nack.hasNackRange, false⟩ := by
  have bound := valid.nackSn
  have e1 := toNat_cases more
  have e2 := toNat_cases nack.hasSo
  have e3 := toNat_cases nack.hasNackRange
  cases snSize with
  | size12bits =>
    change nack.nackSn < 4096 at bound
    unfold readNackFields snBytes
    rw [byte_here, byte_behind]
    simp only [cons_append, getD_cons_zero, getD_cons_succ, toNat_ofNat', NackFields.mk.injEq]
    refine ⟨by omega, ?_, ?_, ?_, ?_⟩
    · rcases e1 with ⟨e1, value⟩ | ⟨e1, value⟩ <;> rw [value] <;> simp <;> omega
    · rcases e2 with ⟨e2, value⟩ | ⟨e2, value⟩ <;> rw [value] <;> simp <;> omega
    · rcases e3 with ⟨e3, value⟩ | ⟨e3, value⟩ <;> rw [value] <;> simp <;> omega
    · simp
      omega
  | size18bits =>
    change nack.nackSn < 262144 at bound
    unfold readNackFields snBytes
    rw [byte_here, byte_behind, byte_behind]
    simp only [cons_append, getD_cons_zero, getD_cons_succ, toNat_ofNat', NackFields.mk.injEq]
    refine ⟨by omega, ?_, ?_, ?_, ?_⟩
    · rcases e1 with ⟨e1, value⟩ | ⟨e1, value⟩ <;> rw [value] <;> simp <;> omega
    · rcases e2 with ⟨e2, value⟩ | ⟨e2, value⟩ <;> rw [value] <;> simp <;> omega
    · rcases e3 with ⟨e3, value⟩ | ⟨e3, value⟩ <;> rw [value] <;> simp <;> omega
    · simp
      omega

theorem readNackSo_write (read : Nack) :
    readNackSo (ofList (front ++ (soBytes nack ++ rest))) front.length nack.hasSo read =
      (if nack.hasSo then { read with hasSo := true, soStart := nack.soStart, soEnd := nack.soEnd } else read,
        front.length + (soBytes nack).length) := by
  unfold readNackSo soBytes
  cases nack.hasSo with
  | false => rfl
  | true =>
    simp only [if_true, append_assoc]
    have second : readWord (ofList (front ++ (wordBytes nack.soStart ++ (wordBytes nack.soEnd ++ rest))))
        (front.length + 2) = nack.soEnd := by
      rw [← append_assoc, ← wordBytes_length nack.soStart, ← length_append]
      exact readWord_write _ _ valid.soEnd
    rw [readWord_write front _ valid.soStart, second]
    rfl

theorem readNackRange_write (read : Nack) :
    readNackRange (ofList (front ++ (rangeBytes nack ++ rest))) front.length nack.hasNackRange read =
      (if nack.hasNackRange then { read with hasNackRange := true, nackRange := nack.nackRange } else read,
        front.length + (rangeBytes nack).length) := by
  unfold readNackRange rangeBytes
  cases nack.hasNackRange with
  | false => rfl
  | true =>
    simp only [if_true]
    have value : (ofList (front ++ ([UInt8.ofNat nack.nackRange] ++ rest))).byte front.length =
        nack.nackRange := by
      rw [byte_here]
      exact toNat_ofNat_byte valid.nackRange
    rw [value]
    rfl

theorem readNack_write (more : Bool) :
    readNack (ofList (front ++ (writeNack snSize more nack ++ rest))) snSize front.length
        ⟨nack.nackSn, more, nack.hasSo, nack.hasNackRange, false⟩ =
      (nack.onWire, front.length + (writeNack snSize more nack).length) := by
  have bytes : front ++ (writeNack snSize more nack ++ rest) =
      (front ++ snBytes snSize more nack) ++ (soBytes nack ++ (rangeBytes nack ++ rest)) := by
    rw [writeNack_eq]
    simp
  have place : front.length + nackSnLength snSize = (front ++ snBytes snSize more nack).length := by
    rw [length_append, snBytes_length]
  unfold readNack
  rw [bytes, place, readNackSo_write _ _ valid]
  rw [← append_assoc (front ++ snBytes snSize more nack), ← length_append, readNackRange_write _ _ valid,
    writeNack_eq]
  unfold Nack.onWire
  cases nack.hasSo <;> cases nack.hasNackRange <;> simp [Nat.add_assoc]

end

theorem writeNacks_length (nacks : List Nack) :
    (writeNacks snSize nacks).length = (nacks.map (nackSize snSize)).sum := by
  induction nacks with
  | nil => rfl
  | cons nack nacks ih =>
    rw [writeNacks, length_append, writeNack_length, ih, map_cons, sum_cons]

theorem two_le_nackSize : 2 ≤ nackSize snSize nack := by
  cases snSize <;> exact le_add_right_of_le (le_add_right_of_le (by decide))

theorem readNacks_write {nofBytes fuel : Nat} (nacks : List Nack) (some_ : nacks ≠ [])
    (valid : ∀ nack ∈ nacks, nack.Valid snSize) (inside : front.length + (writeNacks snSize nacks).length ≤ nofBytes)
    (enough : nacks.length ≤ fuel) (status : StatusPdu) :
    readNacks (ofList (front ++ (writeNacks snSize nacks ++ rest))) nofBytes snSize fuel front.length status =
      ⟨(nacks.map Nack.onWire).foldl (StatusPdu.pushNack snSize) status,
        front.length + (writeNacks snSize nacks).length, false⟩ := by
  induction nacks generalizing front fuel status with
  | nil => exact absurd rfl some_
  | cons nack nacks ih =>
    obtain ⟨fuel, rfl⟩ : ∃ more, fuel = more + 1 := ⟨fuel - 1, by rw [length_cons] at enough; omega⟩
    have here := valid nack mem_cons_self
    have size := @two_le_nackSize snSize nack
    have room : ¬ nofBytes ≤ front.length := by
      rw [writeNacks, length_append, writeNack_length] at inside
      omega
    have bytes : front ++ (writeNacks snSize (nack :: nacks) ++ rest) =
        front ++ (writeNack snSize (!nacks.isEmpty) nack ++ (writeNacks snSize nacks ++ rest)) := by
      rw [writeNacks, append_assoc]
    have fields : readNackFields (ofList (front ++ (writeNack snSize (!nacks.isEmpty) nack ++
        (writeNacks snSize nacks ++ rest)))) front.length snSize =
        ⟨nack.nackSn, !nacks.isEmpty, nack.hasSo, nack.hasNackRange, false⟩ := by
      rw [writeNack_eq, append_assoc, append_assoc]
      exact readNackFields_write front _ here _
    rw [bytes, readNacks, if_neg room]
    rw [fields, if_neg Bool.false_ne_true, readNack_write front _ here]
    dsimp only
    cases nacks with
    | nil =>
      have alone : writeNacks snSize [nack] = writeNack snSize (!([] : List Nack).isEmpty) nack := append_nil _
      rw [alone]
      rfl
    | cons second others =>
      rw [show (!(second :: others).isEmpty) = true from rfl, ← append_assoc front,
        ← length_append, ih (front ++ writeNack snSize true nack) (cons_ne_nil _ _)
          (fun other mem => valid other (mem_cons_of_mem nack mem)) _ (le_of_succ_le_succ enough)]
      · rw [length_append, Nat.add_assoc, ← length_append]
        rfl
      · rw [length_append, Nat.add_assoc, ← length_append]
        exact inside

end Wire

end

end IsrRan.Rlc.AmNr
