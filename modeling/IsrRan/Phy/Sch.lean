import IsrRan.Lib.Binary32
import IsrRan.Phy.CbsegmTurbo
import Mathlib.Algebra.BigOperators.Ring.Finset

namespace IsrRan.Phy.Sch
open Finset Lib

structure RateMatching where
  cbLenIdx : Nat
  start : Nat
  nE : Nat
  deriving DecidableEq, Repr

/-! ## Encoder -/

/-- A code block in `encode_tb_off`: the bytes of `data` that are copied to `cb_in`, whether the parity of
the transport block is appended to them, and the arguments of the rate matching. -/
structure TxBlock where
  cbLen : Nat
  dataPos : Nat
  cbIn : List Byte
  lastCb : Bool
  rm : RateMatching
  deriving DecidableEq, Repr

structure TxState where
  rp : Nat := 0
  wp : Nat := 0
  blocks : List TxBlock := []

def txCbLen (segm : CbSegm) (i : Nat) : Nat := if i < segm.c2 then segm.k2 else segm.k1

def txCbLenIdx (segm : CbSegm) (i : Nat) : Nat := if i < segm.c2 then segm.k2Idx else segm.k1Idx

def txRlen (segm : CbSegm) (i : Nat) : Nat := if 1 < segm.c then txCbLen segm i - 24 else txCbLen segm i

def txNE (segm : CbSegm) (qm nofEBits i : Nat) : Nat :=
  let gp := nofEBits / qm
  let gamma := gp % segm.c
  if i ≤ segm.c - gamma - 1 then qm * (gp / segm.c) else qm * ceilDivBinary32 gp segm.c

def encodeBlock (segm : CbSegm) (qm nofEBits : Nat) (data : List Byte) (s : TxState) (i : Nat) : TxState :=
  let rlen := txRlen segm i
  let lastCb := decide (segm.c - 1 ≤ i)
  let len := if lastCb then (rlen - 24) / 8 else rlen / 8
  { rp := s.rp + rlen
    wp := s.wp + txNE segm qm nofEBits i
    blocks := s.blocks ++
      [⟨txCbLen segm i, s.rp / 8, (data.drop (s.rp / 8)).take len, lastCb,
        ⟨txCbLenIdx segm i, s.wp, txNE segm qm nofEBits i⟩⟩] }

def encodeTbOff (segm : CbSegm) (qm nofEBits maxCb : Nat) (data : List Byte) : Option (List TxBlock) :=
  if segm.f ≠ 0 then none
  else if maxCb < segm.c then none
  else if qm = 0 then none
  else some ((List.range segm.c).foldl (encodeBlock segm qm nofEBits data) {}).blocks

/-! ## Decoder -/

/-- A code block in `decode_tb_cb`; `rm` is missing when the block is copied from the soft buffer. -/
structure RxBlock where
  cbLen : Nat
  dataPos : Nat
  rm : Option RateMatching
  deriving DecidableEq, Repr

structure Softbuffer where
  cbCrc : Nat → Bool
  data : Nat → List Byte
  tbCrc : Bool

structure RxState where
  softbuffer : Softbuffer
  data : List Byte
  blocks : List RxBlock

def memcpy (buffer : List Byte) (pos : Nat) (bytes : List Byte) : List Byte :=
  buffer.take pos ++ bytes ++ buffer.drop (pos + bytes.length)

def rxCbLen (segm : CbSegm) (i : Nat) : Nat := if i < segm.c1 then segm.k1 else segm.k2

def rxCbLenIdx (segm : CbSegm) (i : Nat) : Nat := if i < segm.c1 then segm.k1Idx else segm.k2Idx

def rxRlen (segm : CbSegm) (i : Nat) : Nat := if segm.c = 1 then rxCbLen segm i else rxCbLen segm i - 24

def rxSlice (segm : CbSegm) (qm nofEBits i : Nat) : Nat × Nat :=
  let gp := nofEBits / qm
  let gamma := gp % segm.c
  let nE := qm * (gp / segm.c)
  if segm.c - gamma < i then ((segm.c - gamma) * nE + (i - (segm.c - gamma)) * (nE + qm), nE + qm)
  else (i * nE, nE)

/-- The turbo decoder on a code block: the bytes of its last iteration, and whether their CRC matched
before the iterations were used up. -/
abbrev TurboDecoder := Nat → RateMatching → List Byte × Bool

def decodeBlock (segm : CbSegm) (qm nofEBits : Nat) (tdec : TurboDecoder) (s : RxState) (i : Nat) : RxState :=
  let pos := i * rxRlen segm i / 8
  if s.softbuffer.cbCrc i then
    { s with
      data := memcpy s.data pos ((s.softbuffer.data i).take (rxRlen segm i / 8))
      blocks := s.blocks ++ [⟨rxCbLen segm i, pos, none⟩] }
  else
    let slice := rxSlice segm qm nofEBits i
    let rm : RateMatching := ⟨rxCbLenIdx segm i, slice.1, slice.2⟩
    let decoded := tdec i rm
    { softbuffer := { s.softbuffer with cbCrc := Function.update s.softbuffer.cbCrc i decoded.2 }
      data := memcpy s.data pos (decoded.1.take (rxCbLen segm i / 8))
      blocks := s.blocks ++ [⟨rxCbLen segm i, pos, some rm⟩] }

def saveBlock (segm : CbSegm) (data : List Byte) (softbuffer : Softbuffer) (i : Nat) : Softbuffer :=
  if softbuffer.cbCrc i then
    { softbuffer with
      data := Function.update softbuffer.data i ((data.drop (i * rxRlen segm i / 8)).take (rxRlen segm i / 8)) }
  else softbuffer

/-- `decode_tb_cb`; the flag that it returns is the `tb_crc` of the soft buffer. `none`: it refuses. -/
def decodeTbCb (segm : CbSegm) (qm nofEBits : Nat) (tdec : TurboDecoder) (softbuffer : Softbuffer)
    (data : List Byte) : Option RxState :=
  if maxCodeblocks < segm.c then none
  else
    let s := (List.range segm.c).foldl (decodeBlock segm qm nofEBits tdec) ⟨softbuffer, data, []⟩
    let tbCrc := (List.range segm.c).all s.softbuffer.cbCrc
    let kept := if tbCrc then s.softbuffer
      else (List.range segm.c).foldl (saveBlock segm s.data) s.softbuffer
    some { s with softbuffer := { kept with tbCrc } }

/-! ## The blocks in closed form -/

def txBlock (segm : CbSegm) (qm nofEBits : Nat) (data : List Byte) (i : Nat) : TxBlock :=
  let rp := ∑ j ∈ range i, txRlen segm j
  let lastCb := decide (segm.c - 1 ≤ i)
  let len := if lastCb then (txRlen segm i - 24) / 8 else txRlen segm i / 8
  ⟨txCbLen segm i, rp / 8, (data.drop (rp / 8)).take len, lastCb,
    ⟨txCbLenIdx segm i, ∑ j ∈ range i, txNE segm qm nofEBits j, txNE segm qm nofEBits i⟩⟩

def rxBlock (segm : CbSegm) (qm nofEBits : Nat) (cbCrc : Nat → Bool) (i : Nat) : RxBlock :=
  let slice := rxSlice segm qm nofEBits i
  ⟨rxCbLen segm i, i * rxRlen segm i / 8, if cbCrc i then none else some ⟨rxCbLenIdx segm i, slice.1, slice.2⟩⟩

section
variable {segm : CbSegm} {qm nofEBits : Nat}

theorem foldl_encodeBlock (data : List Byte) (n : Nat) :
    (List.range n).foldl (encodeBlock segm qm nofEBits data) {} =
      ⟨∑ j ∈ range n, txRlen segm j, ∑ j ∈ range n, txNE segm qm nofEBits j,
        (List.range n).map (txBlock segm qm nofEBits data)⟩ := by
  induction n with
  | zero => rfl
  | succ n ih =>
    rw [List.range_succ, List.foldl_append, ih, List.map_append, sum_range_succ, sum_range_succ]
    rfl

theorem encodeTbOff_eq {maxCb : Nat} {data : List Byte} {tx : List TxBlock}
    (encoded : encodeTbOff segm qm nofEBits maxCb data = some tx) :
    tx = (List.range segm.c).map (txBlock segm qm nofEBits data) := by
  unfold encodeTbOff at encoded
  rw [foldl_encodeBlock] at encoded
  split at encoded
  · cases encoded
  split at encoded
  · cases encoded
  split at encoded
  · cases encoded
  exact (Option.some.inj encoded).symm

theorem foldl_decodeBlock (tdec : TurboDecoder) (softbuffer : Softbuffer) (data : List Byte) (n : Nat) :
    ((List.range n).foldl (decodeBlock segm qm nofEBits tdec) ⟨softbuffer, data, []⟩).blocks =
        (List.range n).map (rxBlock segm qm nofEBits softbuffer.cbCrc) ∧
      ∀ i, n ≤ i → ((List.range n).foldl (decodeBlock segm qm nofEBits tdec) ⟨softbuffer, data, []⟩).softbuffer.cbCrc
        i = softbuffer.cbCrc i := by
  induction n with
  | zero => exact ⟨rfl, fun _ _ => rfl⟩
  | succ n ih =>
    rw [List.range_succ, List.foldl_append, List.map_append]
    generalize (List.range n).foldl (decodeBlock segm qm nofEBits tdec) ⟨softbuffer, data, []⟩ = s at ih
    obtain ⟨blocks, flags⟩ := ih
    have flag := flags n (Nat.le_refl n)
    have block : (decodeBlock segm qm nofEBits tdec s n).blocks =
        s.blocks ++ [rxBlock segm qm nofEBits softbuffer.cbCrc n] := by
      unfold decodeBlock rxBlock
      rw [flag]
      cases softbuffer.cbCrc n <;> rfl
    refine ⟨?_, ?_⟩
    · rw [List.foldl_cons, List.foldl_nil, block, blocks, List.map_singleton]
    · intro i le
      rw [← flags i (by omega), List.foldl_cons]
      unfold decodeBlock
      split
      · rfl
      · exact Function.update_of_ne (by omega) _ _

theorem decodeTbCb_blocks {tdec : TurboDecoder} {softbuffer : Softbuffer} {data : List Byte} {rx : RxState}
    (decoded : decodeTbCb segm qm nofEBits tdec softbuffer data = some rx) :
    rx.blocks = (List.range segm.c).map (rxBlock segm qm nofEBits softbuffer.cbCrc) := by
  unfold decodeTbCb at decoded
  split at decoded
  · cases decoded
  · rw [← Option.some.inj decoded]
    exact (foldl_decodeBlock tdec softbuffer data segm.c).1

end

def Matches (tx : TxBlock) (rx : RxBlock) : Prop :=
  rx.cbLen = tx.cbLen ∧ rx.dataPos = tx.dataPos ∧ ∀ rm ∈ rx.rm, rm = tx.rm

structure Agree (segm : CbSegm) (qm nofEBits : Nat) (tx : List TxBlock) : Prop where
  blocks : ∀ tdec softbuffer data rx, decodeTbCb segm qm nofEBits tdec softbuffer data = some rx →
    List.Forall₂ Matches tx rx.blocks
  codedBits : Tiles 0 (tx.map fun block => (block.rm.start, block.rm.nE)) nofEBits
  transportBlock : Tiles 0 (tx.map fun block => (8 * block.dataPos, 8 * block.cbIn.length)) segm.tbs

section
variable {segm : CbSegm} {qm nofEBits tbs : Nat} {data : List Byte}

theorem forall₂_blocks {cbCrc : Nat → Bool} :
    List.Forall₂ Matches ((List.range segm.c).map (txBlock segm qm nofEBits data))
        ((List.range segm.c).map (rxBlock segm qm nofEBits cbCrc)) ↔
      ∀ i < segm.c, Matches (txBlock segm qm nofEBits data i) (rxBlock segm qm nofEBits cbCrc i) := by
  rw [List.forall₂_map_left_iff, List.forall₂_map_right_iff, List.forall₂_same]
  simp only [List.mem_range]

theorem codedBits_iff :
    Tiles 0 (((List.range segm.c).map (txBlock segm qm nofEBits data)).map fun block =>
        (block.rm.start, block.rm.nE)) nofEBits ↔
      ∑ i ∈ range segm.c, txNE segm qm nofEBits i = nofEBits := by
  have tiles := Tiles.sums (txNE segm qm nofEBits) segm.c
  rw [List.map_map]
  constructor
  · exact tiles.unique
  · intro total
    rw [total] at tiles
    exact tiles

theorem Agree.pending (few : segm.c ≤ maxCodeblocks)
    (h : Agree segm qm nofEBits ((List.range segm.c).map (txBlock segm qm nofEBits data))) {i : Nat}
    (lt : i < segm.c) :
    Matches (txBlock segm qm nofEBits data i) (rxBlock segm qm nofEBits (fun _ => false) i) := by
  obtain ⟨rx, decoded⟩ : ∃ rx, decodeTbCb segm qm nofEBits (fun _ _ => ([], false))
      ⟨fun _ => false, fun _ => [], false⟩ [] = some rx := by
    unfold decodeTbCb
    rw [if_neg (Nat.not_lt.mpr few)]
    exact ⟨_, rfl⟩
  have blocks := h.blocks _ _ _ rx decoded
  rw [decodeTbCb_blocks decoded] at blocks
  exact forall₂_blocks.mp blocks i lt

theorem Agree.c2_eq_zero (segmented : Segmented tbs segm) (few : segm.c ≤ maxCodeblocks)
    (h : Agree segm qm nofEBits ((List.range segm.c).map (txBlock segm qm nofEBits data))) : segm.c2 = 0 := by
  by_contra some_
  have pos : 0 < segm.c2 := Nat.pos_of_ne_zero some_
  have same : rxCbLen segm 0 = txCbLen segm 0 := (h.pending few segmented.pos).1
  unfold rxCbLen txCbLen at same
  rw [if_pos segmented.first, if_pos pos] at same
  exact absurd same (segmented.larger pos).ne'

theorem Agree.dvd (pos : 0 < segm.c) (few : segm.c ≤ maxCodeblocks) (units : qm ∣ nofEBits) (symbols : 0 < qm)
    (h : Agree segm qm nofEBits ((List.range segm.c).map (txBlock segm qm nofEBits data))) :
    segm.c ∣ nofEBits / qm := by
  have left : nofEBits / qm % segm.c < segm.c := Nat.mod_lt _ pos
  have equal : ∀ i < segm.c, txNE segm qm nofEBits i = qm * (nofEBits / qm / segm.c) := by
    intro i lt
    by_cases early : i ≤ segm.c - nofEBits / qm % segm.c - 1
    · exact if_pos early
    · have same : (rxSlice segm qm nofEBits (segm.c - nofEBits / qm % segm.c)).2 =
          txNE segm qm nofEBits (segm.c - nofEBits / qm % segm.c) :=
        congrArg RateMatching.nE ((h.pending few (by omega)).2.2 _ rfl)
      unfold rxSlice txNE at same
      rw [if_neg (lt_irrefl _), if_neg (by omega)] at same
      unfold txNE
      rw [if_neg early]
      exact same.symm
  have total := codedBits_iff.mp h.codedBits
  rw [sum_congr rfl fun i mem => equal i (mem_range.mp mem), sum_const, card_range] at total
  refine ⟨nofEBits / qm / segm.c, Nat.eq_of_mul_eq_mul_left symbols ?_⟩
  calc qm * (nofEBits / qm) = nofEBits := Nat.mul_div_cancel' units
    _ = segm.c * (qm * (nofEBits / qm / segm.c)) := total.symm
    _ = qm * (segm.c * (nofEBits / qm / segm.c)) := Nat.mul_left_comm ..

theorem codedBits_of_even (units : qm ∣ nofEBits) (even : segm.c ∣ nofEBits / qm) :
    ∑ i ∈ range segm.c, txNE segm qm nofEBits i = nofEBits := by
  have slice : ∀ i ∈ range segm.c, txNE segm qm nofEBits i = qm * (nofEBits / qm / segm.c) := by
    intro i mem
    have lt := mem_range.mp mem
    unfold txNE
    rw [if_pos (by omega)]
  rw [sum_congr rfl slice, sum_const, card_range, smul_eq_mul, Nat.mul_left_comm, Nat.mul_div_cancel' even]
  exact Nat.mul_div_cancel' units

section
variable (segmented : Segmented tbs segm) (none_ : segm.c2 = 0)
include segmented none_

omit segmented in
theorem txRlen_eq (i : Nat) : txRlen segm i = if 1 < segm.c then segm.k1 - 24 else segm.k1 := by
  have size : txCbLen segm i = segm.k1 := if_neg (by omega)
  unfold txRlen
  rw [size]

theorem rxRlen_eq {i : Nat} (lt : i < segm.c) : rxRlen segm i = txRlen segm 0 := by
  have blocks := segmented.blocks
  have size : rxCbLen segm i = segm.k1 := if_pos (by omega)
  rw [txRlen_eq none_]
  unfold rxRlen
  rw [size]
  by_cases single : segm.c = 1
  · rw [if_pos single, if_neg (by omega)]
  · rw [if_neg single, if_pos (by omega)]

theorem octets_txRlen : ∃ n, txRlen segm 0 = 8 * n ∧ 3 ≤ n := by
  obtain ⟨k, eq⟩ := segmented.octets
  have room := segmented.room
  rw [txRlen_eq none_]
  by_cases several : 1 < segm.c
  · have more := segmented.several (by omega)
    rw [if_pos several]
    exact ⟨k - 3, by omega, by omega⟩
  · rw [if_neg several]
    exact ⟨k, eq, by omega⟩

omit segmented in
theorem sum_txRlen (i : Nat) : ∑ j ∈ range i, txRlen segm j = i * txRlen segm 0 := by
  have same : ∀ j ∈ range i, txRlen segm j = txRlen segm 0 := by
    intro j _
    rw [txRlen_eq none_, txRlen_eq none_]
  rw [sum_congr rfl same, sum_const, card_range, smul_eq_mul]

theorem total_txRlen : segm.c * txRlen segm 0 = tbs + 24 := by
  have total := segmented.total
  have blocks := segmented.blocks
  have pos := segmented.pos
  rw [none_, Nat.zero_mul, Nat.add_zero, show segm.c1 = segm.c by omega] at total
  rw [txRlen_eq none_]
  by_cases single : segm.c = 1
  · rw [if_pos single] at total
    rw [if_neg (by omega), total]
  · rw [if_neg single] at total
    rw [if_pos (by omega), Nat.mul_sub]
    omega

theorem matches_of_even (even : segm.c ∣ nofEBits / qm) {cbCrc : Nat → Bool} {i : Nat} (lt : i < segm.c) :
    Matches (txBlock segm qm nofEBits data i) (rxBlock segm qm nofEBits cbCrc i) := by
  have blocks := segmented.blocks
  have rlen : ∑ j ∈ range i, txRlen segm j = i * rxRlen segm i := by
    rw [rxRlen_eq segmented none_ lt, sum_txRlen none_]
  have slice : ∀ j < segm.c, txNE segm qm nofEBits j = qm * (nofEBits / qm / segm.c) := by
    intro j inside
    unfold txNE
    rw [if_pos (by omega)]
  have start : ∑ j ∈ range i, txNE segm qm nofEBits j = i * (qm * (nofEBits / qm / segm.c)) := by
    rw [sum_congr rfl fun j mem => slice j ((mem_range.mp mem).trans lt), sum_const, card_range, smul_eq_mul]
  have taken : rxSlice segm qm nofEBits i =
      (i * (qm * (nofEBits / qm / segm.c)), qm * (nofEBits / qm / segm.c)) := if_neg (by omega)
  refine ⟨?_, ?_, ?_⟩
  · show rxCbLen segm i = txCbLen segm i
    unfold rxCbLen txCbLen
    rw [if_pos (by omega), if_neg (by omega)]
  · show i * rxRlen segm i / 8 = (∑ j ∈ range i, txRlen segm j) / 8
    rw [rlen]
  · intro rm mem
    unfold rxBlock at mem
    rw [taken] at mem
    cases flag : cbCrc i with
    | true =>
      rw [flag] at mem
      cases mem
    | false =>
      rw [flag] at mem
      cases mem
      unfold txBlock rxCbLenIdx txCbLenIdx
      rw [start, slice i lt, if_pos (by omega), if_neg (by omega)]

theorem transportBlock_of_c2_eq_zero (enough : tbs ≤ 8 * data.length) :
    Tiles 0 (((List.range segm.c).map (txBlock segm qm nofEBits data)).map fun block =>
      (8 * block.dataPos, 8 * block.cbIn.length)) tbs := by
  obtain ⟨n, octets, room⟩ := octets_txRlen segmented none_
  have total := total_txRlen segmented none_
  have pos := segmented.pos
  rw [octets] at total
  have dataPos : ∀ i < segm.c, (txBlock segm qm nofEBits data i).dataPos = i * n := by
    intro i lt
    unfold txBlock
    dsimp only
    rw [sum_txRlen none_, octets, Nat.mul_left_comm, Nat.mul_div_cancel_left _ (by decide)]
  have len : ∀ i < segm.c, (txBlock segm qm nofEBits data i).cbIn.length =
      if segm.c - 1 ≤ i then n - 3 else n := by
    intro i lt
    have position := dataPos i lt
    unfold txBlock at position ⊢
    dsimp only at position ⊢
    rw [txRlen_eq none_, ← txRlen_eq none_ 0, List.length_take, List.length_drop]
    have inside : (i + 1) * n ≤ segm.c * n := Nat.mul_le_mul_right n lt
    have spread : segm.c * (8 * n) = 8 * (segm.c * n) := by ring
    rw [Nat.add_mul] at inside
    by_cases last : segm.c - 1 ≤ i
    · have all : (i + 1) * n = segm.c * n := by rw [show i + 1 = segm.c by omega]
      rw [if_pos last, if_pos (by simpa using last)]
      omega
    · have next : (i + 1 + 1) * n ≤ segm.c * n := Nat.mul_le_mul_right n (by omega)
      rw [Nat.add_mul, Nat.add_mul] at next
      rw [if_neg last, if_neg (by simpa using last)]
      omega
  have before : ∀ i < segm.c, ∑ j ∈ range i, 8 * (txBlock segm qm nofEBits data j).cbIn.length = 8 * (i * n) := by
    intro i lt
    rw [← Finset.mul_sum, sum_congr rfl fun j mem => (len j ((mem_range.mp mem).trans lt)).trans
      (if_neg (by have := mem_range.mp mem; omega)), sum_const, card_range, smul_eq_mul]
  have all : ∑ j ∈ range segm.c, 8 * (txBlock segm qm nofEBits data j).cbIn.length = tbs := by
    obtain ⟨m, eq⟩ : ∃ m, segm.c = m + 1 := ⟨segm.c - 1, by omega⟩
    have last := len m (by omega)
    rw [if_pos (by omega)] at last
    have spread : segm.c * (8 * n) = 8 * (m * n) + 8 * n := by rw [eq]; ring
    rw [eq, sum_range_succ, before m (by omega)]
    omega
  have tiles := Tiles.sums (fun j => 8 * (txBlock segm qm nofEBits data j).cbIn.length) segm.c
  rw [all] at tiles
  rw [List.map_map]
  convert tiles using 1
  apply List.map_congr_left
  intro i mem
  have lt := List.mem_range.mp mem
  show (8 * (txBlock segm qm nofEBits data i).dataPos, _) = _
  rw [dataPos i lt, before i lt]

end

end

theorem agree_iff (tbs qm nofEBits maxCb : Nat) (segm : CbSegm) (data : List Byte) (tx : List TxBlock)
    (lt : tbs < 4294967296) (returned : isrranCbsegm tbs = .ok (some segm)) (noFiller : segm.f = 0)
    (few : segm.c ≤ maxCodeblocks) (symbols : 0 < qm) (units : qm ∣ nofEBits) (enough : tbs ≤ 8 * data.length)
    (encoded : encodeTbOff segm qm nofEBits maxCb data = some tx) :
    Agree segm qm nofEBits tx ↔ segm.c2 = 0 ∧ segm.c ∣ nofEBits / qm := by
  rw [encodeTbOff_eq encoded]
  by_cases empty : tbs = 0
  · subst empty
    cases returned
    have bits : nofEBits = qm * (nofEBits / qm) := (Nat.mul_div_cancel' units).symm
    constructor
    · intro agree
      have none_ : 0 = nofEBits := agree.codedBits
      exact ⟨rfl, by rw [← none_]; simp⟩
    · rintro ⟨-, zero⟩
      rw [Nat.eq_zero_of_zero_dvd zero] at bits
      refine ⟨?_, bits.symm, rfl⟩
      intro tdec softbuffer buffer rx decoded
      rw [decodeTbCb_blocks decoded]
      exact List.Forall₂.nil
  · have segmented := segmented_of_cbsegm lt empty returned noFiller few
    constructor
    · intro agree
      exact ⟨agree.c2_eq_zero segmented few, agree.dvd segmented.pos few units symbols⟩
    · rintro ⟨none_, even⟩
      refine ⟨?_, codedBits_iff.mpr (codedBits_of_even units even), ?_⟩
      · intro tdec softbuffer buffer rx decoded
        rw [decodeTbCb_blocks decoded]
        exact forall₂_blocks.mpr fun i inside => matches_of_even segmented none_ even inside
      · rw [segmented.tbs_eq]
        exact transportBlock_of_c2_eq_zero segmented none_ enough

def segm6200 : CbSegm :=
  { f := 0, c := 2, k1 := 3136, k2 := 3072, k1Idx := 140, k2Idx := 139, c1 := 2, c2 := 0, tbs := 6200,
    lTb := 24, lCb := 24 }

theorem cbsegm_6200 : isrranCbsegm 6200 = .ok (some segm6200) := by decide +kernel

theorem oddSymbols_disagree :
    isrranCbsegm 6200 = .ok (some segm6200) ∧
      (txBlock segm6200 2 12402 [] 1).rm = ⟨140, 6200, 6202⟩ ∧
      (rxBlock segm6200 2 12402 (fun _ => false) 1).rm = some ⟨140, 6200, 6200⟩ ∧
      ¬ ∀ (tbs qm nofEBits maxCb : Nat) (segm : CbSegm) (data : List Byte) (tx : List TxBlock),
        isrranCbsegm tbs = .ok (some segm) → segm.f = 0 → segm.c ≤ maxCodeblocks → qm ∣ nofEBits →
          segm.c * qm ≤ nofEBits → tbs ≤ 8 * data.length →
            encodeTbOff segm qm nofEBits maxCb data = some tx → Agree segm qm nofEBits tx := by
  have sent : (txBlock segm6200 2 12402 [] 1).rm = ⟨140, 6200, 6202⟩ := by decide +kernel
  have taken : (rxBlock segm6200 2 12402 (fun _ => false) 1).rm = some ⟨140, 6200, 6200⟩ := by decide +kernel
  refine ⟨cbsegm_6200, sent, taken, ?_⟩
  intro claim
  have agree := claim 6200 2 12402 2 segm6200 (List.replicate 775 0) _ cbsegm_6200 rfl (by decide) (by decide)
    (by decide) (by rw [List.length_replicate]) rfl
  rw [foldl_encodeBlock] at agree
  have same := (agree.pending (by decide) (show 1 < segm6200.c by decide)).2.2 _ taken
  exact absurd (same.trans sent) (by decide)

theorem agree_iff_evenSymbols :
    Agree segm6200 2 12400 ((List.range 2).map (txBlock segm6200 2 12400 (List.replicate 775 0))) ↔
      segm6200.c2 = 0 ∧ segm6200.c ∣ 12400 / 2 :=
  agree_iff 6200 2 12400 2 segm6200 (List.replicate 775 0) _ (by decide) cbsegm_6200 rfl (by decide) (by decide)
    (by decide) (by rw [List.length_replicate]) (congrArg (fun s : TxState => some s.blocks) (foldl_encodeBlock _ _))

end IsrRan.Phy.Sch
