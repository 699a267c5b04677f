import IsrRan.Rlc.AmNr.MergedNacks

namespace IsrRan.Rlc.AmNr
open List UInt8 Memory

def writeDataPduHeader (snSize : SnSize) (header : PduHeader) : Nat × List Byte :=
  let fixed := header.dc.toNat * 128 + header.p.toNat * 64 + header.si.bits * 16
  (packedLength snSize header,
    (match snSize with
      | .size12bits => [UInt8.ofNat (fixed + header.sn / 256 % 16), UInt8.ofNat header.sn]
      | .size18bits =>
        [UInt8.ofNat (fixed + header.sn / 65536 % 4), UInt8.ofNat (header.sn / 256), UInt8.ofNat header.sn]) ++
    (if header.so ≠ 0 then wordBytes header.so else []))

structure PduHeader.Valid (snSize : SnSize) (header : PduHeader) : Prop where
  sn : header.sn < snSize.modNr
  so : header.so < 65536
  segment : header.so ≠ 0 ↔ header.si = .lastSegment ∨ header.si = .neitherFirstNorLastSegment

namespace StatusPdu

def denotes (snSize : SnSize) (status : StatusPdu) (sn byte : Nat) : Prop :=
  ∃ nack ∈ status.nacks, nack.denotes snSize sn byte

def build (snSize : SnSize) (ackSn : Nat) (nacks : List Nack) (maxPackedSize : Option Nat) : StatusPdu :=
  let status := nacks.foldl (pushNack snSize) { ackSn }
  match maxPackedSize with
  | none => status
  | some maxPackedSize => status.trim snSize maxPackedSize

/-- The entries that `trim` leaves, each with the NACKs that it was merged from. -/
def kept (snSize : SnSize) (ackSn : Nat) (nacks : List Nack) (maxPackedSize : Option Nat) : List MergedNack :=
  let merged := MergedNack.pushAll snSize nacks
  merged.drop (merged.length - (build snSize ackSn nacks maxPackedSize).stack.length)

end StatusPdu

section Header
variable {snSize : SnSize} {header : PduHeader}

theorem PduHeader.Valid.writeDataPduHeader_length (valid : header.Valid snSize) :
    (writeDataPduHeader snSize header).2.length = packedLength snSize header := by
  have segment := valid.segment
  unfold writeDataPduHeader packedLength
  cases snSize <;> cases si : header.si <;> simp_all [wordBytes]

theorem readSo_write (front rest : List Byte) (valid : header.Valid snSize) :
    readSo (ofList (front ++ ((if header.so ≠ 0 then wordBytes header.so else []) ++ rest))) front.length
        { header with so := 0 } =
      (front.length + (if header.so ≠ 0 then wordBytes header.so else []).length, header) := by
  have segment := valid.segment
  unfold readSo
  by_cases offset : header.so ≠ 0
  · rw [if_pos offset, if_pos (segment.mp offset)]
    have value := readWord_write front rest valid.so
    unfold readWord at value
    rw [value]
    rfl
  · rw [if_neg offset, if_neg fun si => offset (segment.mpr si)]
    have zero : header.so = 0 := not_not.mp offset
    rw [← zero]
    rfl

theorem fixed_bits {dc p : Bool} {si : SiField} {sn b : Nat} (bound : sn < 16)
    (byte : dc.toNat * 128 + p.toNat * 64 + si.bits * 16 + sn = b) :
    decide (b / 128 % 2 = 1) = dc ∧ decide (b / 64 % 2 = 1) = p ∧ b / 16 % 4 = si.bits ∧ b % 16 = sn ∧ b < 256 := by
  have si_lt := si.bits_lt
  cases dc <;> cases p <;> simp only [Bool.toNat_true, Bool.toNat_false] at byte <;>
    refine ⟨?_, ?_, ?_, ?_, ?_⟩ <;> first | omega | (simp only [decide_eq_true_iff, decide_eq_false_iff_not]; omega)

theorem readDataPduHeader_write (valid : header.Valid snSize) (rest : List Byte) :
    readDataPduHeader (ofList ((writeDataPduHeader snSize header).2 ++ rest)) snSize =
      (packedLength snSize header, header) := by
  have length := valid.writeDataPduHeader_length
  have sn := valid.sn
  cases snSize with
  | size12bits =>
    change header.sn < 4096 at sn
    unfold writeDataPduHeader at length ⊢
    dsimp only at length ⊢
    generalize byte : header.dc.toNat * 128 + header.p.toNat * 64 + header.si.bits * 16 + header.sn / 256 % 16 = b at *
    obtain ⟨dc, p, si, low, small⟩ := fixed_bits (by omega) byte
    have read := readSo_write [UInt8.ofNat b, UInt8.ofNat header.sn] rest valid
    rw [length_append] at length
    rw [append_assoc]
    generalize (if header.so ≠ 0 then wordBytes header.so else []) = so at *
    have first_ : (ofList ([UInt8.ofNat b, UInt8.ofNat header.sn] ++ (so ++ rest))).byte 0 = b :=
      toNat_ofNat_byte small
    have second : (ofList ([UInt8.ofNat b, UInt8.ofNat header.sn] ++ (so ++ rest))).byte 1 = header.sn % 256 :=
      toNat_ofNat'
    have value : header.sn / 256 % 16 * 256 + header.sn % 256 = header.sn := by omega
    unfold readDataPduHeader
    dsimp only
    rw [first_, second, dc, p, si, low, value, SiField.ofBits_bits, ← length]
    exact read
  | size18bits =>
    change header.sn < 262144 at sn
    unfold writeDataPduHeader at length ⊢
    dsimp only at length ⊢
    generalize byte : header.dc.toNat * 128 + header.p.toNat * 64 + header.si.bits * 16 + header.sn / 65536 % 4 = b at *
    obtain ⟨dc, p, si, low, small⟩ := fixed_bits (by omega) byte
    have read := readSo_write [UInt8.ofNat b, UInt8.ofNat (header.sn / 256), UInt8.ofNat header.sn] rest valid
    rw [length_append] at length
    rw [append_assoc]
    generalize (if header.so ≠ 0 then wordBytes header.so else []) = so at *
    have first_ : (ofList ([UInt8.ofNat b, UInt8.ofNat (header.sn / 256), UInt8.ofNat header.sn] ++
        (so ++ rest))).byte 0 = b := toNat_ofNat_byte small
    have second : (ofList ([UInt8.ofNat b, UInt8.ofNat (header.sn / 256), UInt8.ofNat header.sn] ++
        (so ++ rest))).byte 1 = header.sn / 256 % 256 := toNat_ofNat'
    have third : (ofList ([UInt8.ofNat b, UInt8.ofNat (header.sn / 256), UInt8.ofNat header.sn] ++
        (so ++ rest))).byte 2 = header.sn % 256 := toNat_ofNat'
    have reserved : ¬ b / 4 % 4 ≠ 0 := by omega
    have value : b % 4 * 65536 + header.sn / 256 % 256 * 256 + header.sn % 256 = header.sn := by omega
    unfold readDataPduHeader
    dsimp only
    rw [first_, second, third, dc, p, si, if_neg reserved, value, SiField.ofBits_bits, ← length]
    exact read

end Header

section Status
variable {snSize : SnSize} {status : StatusPdu}

theorem StatusPdu.build_tracked {ackSn : Nat} {nacks : List Nack} (maxPackedSize : Option Nat)
    (bound : ackSn < snSize.modNr) (valid : ∀ nack ∈ nacks, nack.Valid snSize) :
    (StatusPdu.build snSize ackSn nacks maxPackedSize).Tracked snSize := by
  have pushed (status : StatusPdu) (tracked : status.Tracked snSize) :
      (nacks.foldl (pushNack snSize) status).Tracked snSize := by
    induction nacks generalizing status with
    | nil => exact tracked
    | cons nack nacks ih =>
      exact ih (fun other mem => valid other (mem_cons_of_mem nack mem)) _
        (tracked.pushNack (valid nack mem_cons_self))
  have all := pushed { ackSn } ⟨bound, rfl, (fun nack mem => nomatch mem), isChain_nil⟩
  cases maxPackedSize with
  | none => exact all
  | some maxPackedSize => exact all.trim maxPackedSize

theorem writeAckSn_length (ackSn : Nat) (e1 : Bool) : (writeAckSn snSize ackSn e1).length = 3 := by
  cases snSize <;> rfl

theorem StatusPdu.Tracked.writeStatusPdu_length (tracked : status.Tracked snSize) :
    (writeStatusPdu snSize status).length = status.packedSize := by
  unfold writeStatusPdu
  rw [length_append, writeAckSn_length, writeNacks_length, tracked.packedSize]
  unfold StatusPdu.nacks
  rw [map_reverse, sum_reverse]

theorem readAckSn_write {ackSn : Nat} (bound : ackSn < snSize.modNr) (e1 : Bool) (rest : List Byte) :
    (ofList (writeAckSn snSize ackSn e1 ++ rest)).byte 0 / 16 % 8 = 0 ∧
      readAckSn (ofList (writeAckSn snSize ackSn e1 ++ rest)) snSize = (ackSn, e1, false) := by
  cases snSize with
  | size12bits =>
    change ackSn < 4096 at bound
    unfold readAckSn writeAckSn Memory.byte ofList
    cases e1 <;> simp <;> omega
  | size18bits =>
    change ackSn < 262144 at bound
    unfold readAckSn writeAckSn Memory.byte ofList
    cases e1 <;> simp <;> omega

theorem StatusPdu.Tracked.readStatusPdu_write (tracked : status.Tracked snSize) (rest : List Byte) :
    ∃ read : StatusPdu, readStatusPdu (ofList (writeStatusPdu snSize status ++ rest)) status.packedSize snSize =
        ⟨read, status.packedSize, false⟩ ∧
      read.ackSn = status.ackSn ∧ read.stack = status.stack.map Nack.onWire := by
  have length := tracked.writeStatusPdu_length
  unfold writeStatusPdu at length ⊢
  rw [append_assoc]
  obtain ⟨type, ack⟩ := readAckSn_write tracked.ackSn (!status.nacks.isEmpty) (writeNacks snSize status.nacks ++ rest)
  unfold readStatusPdu
  rw [if_neg (not_not.mpr type), ack]
  dsimp only
  cases stack : status.stack with
  | nil =>
    have none_ : status.nacks = [] := by
      unfold StatusPdu.nacks
      rw [stack, reverse_nil]
    have size := tracked.packedSize
    rw [stack] at size
    rw [none_, size]
    exact ⟨{ ackSn := status.ackSn }, rfl, rfl, rfl⟩
  | cons last others =>
    have some_ : status.nacks ≠ [] := by
      unfold StatusPdu.nacks
      rw [stack]
      simp
    have more : (!status.nacks.isEmpty) = true := by simpa using some_
    have fuel : status.nacks.length ≤ status.packedSize + 1 := by
      rw [← length, length_append, writeNacks_length]
      have each : status.nacks.length ≤ (status.nacks.map (nackSize snSize)).sum := by
        generalize status.nacks = nacks
        induction nacks with
        | nil => exact Nat.le_refl 0
        | cons nack nacks ih =>
          have two := @two_le_nackSize snSize nack
          rw [length_cons, map_cons, sum_cons]
          omega
      omega
    have valid : ∀ nack ∈ status.nacks, nack.Valid snSize := fun nack mem =>
      tracked.valid nack (List.mem_reverse.mp mem)
    rw [if_pos more]
    have here := @writeAckSn_length snSize status.ackSn (!status.nacks.isEmpty)
    have inside : (writeAckSn snSize status.ackSn (!status.nacks.isEmpty)).length +
        (writeNacks snSize status.nacks).length ≤ status.packedSize := by
      rw [← length, length_append]
    have read := readNacks_write (writeAckSn snSize status.ackSn (!status.nacks.isEmpty)) rest status.nacks some_ valid
      inside fuel { ackSn := status.ackSn }
    rw [← length_append, length, here] at read
    refine ⟨_, read, ?_⟩
    have apart : ((status.nacks.map Nack.onWire).reverse ++ ({ ackSn := status.ackSn } : StatusPdu).stack).IsChain
        fun next prev => isContinuousSequence snSize prev next = false := by
      rw [append_nil, ← map_reverse]
      unfold StatusPdu.nacks
      rw [reverse_reverse, isChain_map]
      simp only [isContinuousSequence_onWire]
      exact tracked.apart
    obtain ⟨pushed, ackSn⟩ := pushNack_apart apart
    refine ⟨ackSn, ?_⟩
    rw [pushed, append_nil, ← map_reverse]
    unfold StatusPdu.nacks
    rw [reverse_reverse, stack]

theorem denotes_of_stack {read : StatusPdu} (stack : read.stack = status.stack.map Nack.onWire) (sn byte : Nat) :
    read.denotes snSize sn byte ↔ status.denotes snSize sn byte := by
  unfold StatusPdu.denotes StatusPdu.nacks
  simp only [mem_reverse, stack, mem_map]
  constructor
  · rintro ⟨_, ⟨nack, mem, rfl⟩, denotes⟩
    exact ⟨nack, mem, denotes_onWire.mp denotes⟩
  · rintro ⟨nack, mem, denotes⟩
    exact ⟨_, ⟨nack, mem, rfl⟩, denotes_onWire.mpr denotes⟩

end Status

def PduHeader.RoundTrips (snSize : SnSize) (header : PduHeader) : Prop :=
  (writeDataPduHeader snSize header).1 = packedLength snSize header ∧
    (writeDataPduHeader snSize header).2.length = packedLength snSize header ∧
    ∀ rest : List Byte, readDataPduHeader (ofList ((writeDataPduHeader snSize header).2 ++ rest)) snSize =
      (packedLength snSize header, header)

/-- The report takes as many bytes as was counted, and what is read back, to the last byte, denotes what was pushed. -/
def StatusPdu.RoundTrips (snSize : SnSize) (status : StatusPdu) (pushed : List Nack) : Prop :=
  (writeStatusPdu snSize status).length = status.packedSize ∧
    ∀ rest : List Byte, ∃ read : StatusPdu,
      readStatusPdu (ofList (writeStatusPdu snSize status ++ rest)) status.packedSize snSize =
        ⟨read, status.packedSize, false⟩ ∧
      read.ackSn = status.ackSn ∧ ∀ sn byte, read.denotes snSize sn byte ↔ ∃ nack ∈ pushed, nack.denotes snSize sn byte

section Kept
variable {snSize : SnSize} {rxNext : Nat} {nacks : List Nack} (ackSn : Nat) (maxPackedSize : Option Nat)

theorem build_suffix : (StatusPdu.build snSize ackSn nacks maxPackedSize).stack <:+
    (MergedNack.pushAll snSize nacks).map MergedNack.nack := by
  obtain ⟨-, -, stack⟩ := @MergedNack.pushAll_spec snSize ackSn nacks
  rw [← stack]
  cases maxPackedSize with
  | none => exact suffix_refl _
  | some maxPackedSize => exact trim_suffix _ _

theorem build_stack : (StatusPdu.build snSize ackSn nacks maxPackedSize).stack =
    (StatusPdu.kept snSize ackSn nacks maxPackedSize).map MergedNack.nack := by
  have eq := List.suffix_iff_eq_drop.mp (@build_suffix snSize nacks ackSn maxPackedSize)
  rw [length_map, ← map_drop] at eq
  exact eq

theorem kept_sublist : (StatusPdu.kept snSize ackSn nacks maxPackedSize).Sublist (MergedNack.pushAll snSize nacks) :=
  drop_sublist _ _

theorem kept_pushed_sublist : ((StatusPdu.kept snSize ackSn nacks maxPackedSize).flatMap MergedNack.pushed).Sublist
    nacks.reverse := by
  obtain ⟨-, all, -⟩ := @MergedNack.pushAll_spec snSize ackSn nacks
  unfold StatusPdu.kept
  dsimp only
  generalize (MergedNack.pushAll snSize nacks).length - _ = trimmed
  rw [← all]
  nth_rewrite 2 [← take_append_drop trimmed (MergedNack.pushAll snSize nacks)]
  rw [flatMap_append]
  exact sublist_append_right _ _

section
variable (ordered : InWindowOrder snSize rxNext nacks)
include ordered

theorem InWindowOrder.kept :
    InWindowOrder snSize rxNext ((StatusPdu.kept snSize ackSn nacks maxPackedSize).flatMap MergedNack.pushed).reverse :=
  ordered.sublist (List.reverse_sublist.mp (by simpa using kept_pushed_sublist ackSn maxPackedSize))

theorem InWindowOrder.entry {merged : MergedNack}
    (mem : merged ∈ StatusPdu.kept snSize ackSn nacks maxPackedSize) :
    InWindowOrder snSize rxNext merged.pushed.reverse :=
  (ordered.kept ackSn maxPackedSize).sublist (List.reverse_sublist.mpr (sublist_flatten_of_mem (mem_map_of_mem mem)))

theorem InWindowOrder.entries_apart :
    (StatusPdu.kept snSize ackSn nacks maxPackedSize).Pairwise (MergedNack.Apart snSize) := by
  have entries := (List.pairwise_flatMap.mp (List.pairwise_reverse.mp (ordered.kept ackSn maxPackedSize).before)).2
  refine entries.imp_of_mem fun {merged other} mem mem' before nack own nack' own' sn byte denotes denotes' => ?_
  exact (before nack own nack' own').apart ((ordered.entry ackSn maxPackedSize mem').inside nack' (List.mem_reverse.mpr own'))
    ((ordered.entry ackSn maxPackedSize mem).inside nack (List.mem_reverse.mpr own)) ordered.start denotes' denotes

theorem InWindowOrder.denotes_iff :
    (∀ sn byte, (StatusPdu.build snSize ackSn nacks maxPackedSize).denotes snSize sn byte ↔
      ∃ nack ∈ (StatusPdu.kept snSize ackSn nacks maxPackedSize).flatMap MergedNack.pushed,
        nack.denotes snSize sn byte) ↔
    ∀ merged ∈ StatusPdu.kept snSize ackSn nacks maxPackedSize, merged.count < 256 := by
  obtain ⟨allMerge, -, -⟩ := @MergedNack.pushAll_spec snSize ackSn nacks
  have merges (merged : MergedNack) (mem : merged ∈ StatusPdu.kept snSize ackSn nacks maxPackedSize) :=
    allMerge merged ((kept_sublist ackSn maxPackedSize).subset mem)
  have entry (sn byte : Nat) : (StatusPdu.build snSize ackSn nacks maxPackedSize).denotes snSize sn byte ↔
      ∃ merged ∈ StatusPdu.kept snSize ackSn nacks maxPackedSize, merged.nack.denotes snSize sn byte := by
    unfold StatusPdu.denotes StatusPdu.nacks
    simp only [mem_reverse, build_stack, mem_map, exists_exists_and_eq_and]
  constructor
  · intro same merged mem
    by_contra large
    obtain ⟨last, own, denotes, misses⟩ := (merges merged mem).misses_last
      (ordered.entry ackSn maxPackedSize mem) (Nat.le_of_not_lt large)
    obtain ⟨other, mem', denotes'⟩ :=
      (entry _ _).mp ((same _ _).mpr ⟨last, List.mem_flatMap.mpr ⟨merged, mem, own⟩, denotes⟩)
    by_cases here : other = merged
    · rw [here] at denotes'
      exact misses denotes'
    · obtain ⟨nack, own', denotes'⟩ := (merges other mem').of_denotes (ordered.entry ackSn maxPackedSize mem') denotes'
      exact (ordered.entries_apart ackSn maxPackedSize).forall mem' mem here nack own' last own _ _ denotes' denotes
  · intro small sn byte
    rw [entry]
    simp only [mem_flatMap]
    constructor
    · rintro ⟨merged, mem, denotes⟩
      obtain ⟨nack, own, denotes⟩ := ((merges merged mem).denotes_iff
        (ordered.entry ackSn maxPackedSize mem) (small merged mem)).mp denotes
      exact ⟨nack, ⟨merged, mem, own⟩, denotes⟩
    · rintro ⟨nack, ⟨merged, mem, own⟩, denotes⟩
      exact ⟨merged, mem, ((merges merged mem).denotes_iff (ordered.entry ackSn maxPackedSize mem) (small merged mem)).mpr
        ⟨nack, own, denotes⟩⟩

end

end Kept

def segmentsAndRange : List Nack :=
  [{ nackSn := 5, hasSo := true, soStart := 3, soEnd := 7 }, { nackSn := 5, hasSo := true, soStart := 9 },
    { nackSn := 6 }, { nackSn := 7, hasNackRange := true, nackRange := 9 }]

theorem segmentsAndRange_ordered : InWindowOrder .size12bits 4 segmentsAndRange where
  start := by decide
  valid := by
    unfold segmentsAndRange
    simp only [forall_mem_cons, not_mem_nil, IsEmpty.forall_iff, implies_true, and_true]
    refine ⟨?_, ?_, ?_, ?_⟩ <;> constructor <;> decide
  some_ := by decide
  inside := by decide
  before := by decide

def wideRanges : List Nack :=
  [{ nackSn := 0, hasNackRange := true, nackRange := 128 }, { nackSn := 128, hasNackRange := true, nackRange := 128 }]

theorem wideRanges_ordered : InWindowOrder .size12bits 0 wideRanges where
  start := by decide
  valid := by
    unfold wideRanges
    simp only [forall_mem_cons, not_mem_nil, IsEmpty.forall_iff, implies_true, and_true]
    refine ⟨?_, ?_⟩ <;> constructor <;> decide
  some_ := by decide
  inside := by decide
  before := by decide

end IsrRan.Rlc.AmNr
