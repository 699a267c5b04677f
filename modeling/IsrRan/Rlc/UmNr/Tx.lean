import IsrRan.Rlc.Common

namespace IsrRan.Rlc.UmNr
open UInt8

/-- `rlc_um_nr_sn_size_t`. The zero value, which `{}` gives, is `size6bits`. -/
inductive SnSize where
  | size6bits
  | size12bits
  deriving DecidableEq, Repr

def SnSize.mod : SnSize → Nat
  | size6bits => 64
  | size12bits => 4096

def SnSize.umWindowSize : SnSize → Nat
  | size6bits => 32
  | size12bits => 2048

structure PduHeader where
  si : SiField
  snSize : SnSize
  sn : Nat
  so : Nat
  deriving DecidableEq, Repr

def packedLength (header : PduHeader) : Nat :=
  if header.si = .fullSdu then 1
  else
    (match header.snSize with
      | .size6bits => 1
      | .size12bits => 2) +
    (if header.so ≠ 0 then 2 else 0)

def writeDataPduHeader (header : PduHeader) : List Byte :=
  if header.si = .fullSdu then [UInt8.ofNat (header.si.bits * 64)]
  else
    (match header.snSize with
      | .size6bits => [UInt8.ofNat (header.si.bits * 64 + header.sn % 64)]
      | .size12bits =>
        [UInt8.ofNat (header.si.bits * 64 + header.sn / 256 % 16), UInt8.ofNat (header.sn % 256)]) ++
    (if header.so ≠ 0 then [UInt8.ofNat (header.so / 256), UInt8.ofNat (header.so % 256)] else [])

def readSo (payload : List Byte) (pos : Nat) (header : PduHeader) : Nat × PduHeader :=
  if header.si = .lastSegment ∨ header.si = .neitherFirstNorLastSegment then
    (pos + 2, { header with so := byteAt payload pos * 256 + byteAt payload (pos + 1) })
  else (pos, header)

def readDataPduHeader (payload : List Byte) (snSize : SnSize) : Nat × PduHeader :=
  let si := SiField.ofBits (byteAt payload 0 / 64 % 4)
  match snSize with
  | .size6bits =>
    let header : PduHeader := ⟨si, snSize, byteAt payload 0 % 64, 0⟩
    if si = .fullSdu ∧ header.sn ≠ 0 then (0, header) else readSo payload 1 header
  | .size12bits =>
    let header : PduHeader := ⟨si, snSize, byteAt payload 0 % 16 * 256, 0⟩
    if si = .fullSdu ∧ header.sn ≠ 0 then (0, header)
    else if si = .firstSegment ∧ byteAt payload 0 / 16 % 4 ≠ 0 then (0, header)
    else if si = .fullSdu then (1, header)
    else readSo payload 2 { header with sn := header.sn + byteAt payload 1 }

structure PduHeader.WellFormed (header : PduHeader) : Prop where
  snBound : header.sn < header.snSize.mod
  soBound : header.so < 65536
  segmented : header.si ≠ .fullSdu
  offset : header.so = 0 ↔ header.si = .firstSegment

theorem writeDataPduHeader_length (header : PduHeader) :
    (writeDataPduHeader header).length = packedLength header := by
  unfold writeDataPduHeader packedLength
  by_cases full : header.si = .fullSdu
  · simp [full]
  · by_cases so : header.so = 0 <;> cases header.snSize <;> simp [full, so]

theorem readDataPduHeader_write {header : PduHeader} (wf : header.WellFormed) (data : List Byte) :
    readDataPduHeader (writeDataPduHeader header ++ data) header.snSize =
      (packedLength header, header) := by
  obtain ⟨si, snSize, sn, so⟩ := header
  obtain ⟨snBound, soBound, segmented, offset⟩ := wf
  simp only [SnSize.mod] at *
  have short : ∀ si n, si < 4 → (si * 64 + n % 64) % 256 / 64 % 4 = si := by omega
  have long : ∀ si n, si < 4 → (si * 64 + n % 16) % 256 / 64 % 4 = si := by omega
  have reserved : ∀ n, (64 + n % 16) % 256 / 16 % 4 = 0 := by omega
  have short₁ := short 1
  have short₂ := short 2
  have short₃ := short 3
  have long₁ := long 1
  have long₂ := long 2
  have long₃ := long 3
  cases snSize <;> cases si <;>
    simp_all [readDataPduHeader, writeDataPduHeader, packedLength, readSo, SiField.bits, SiField.ofBits]
  all_goals omega

theorem readDataPduHeader_full (snSize : SnSize) (so sn : Nat) (data : List Byte) :
    readDataPduHeader (writeDataPduHeader ⟨.fullSdu, snSize, sn, so⟩ ++ data) snSize =
      (1, ⟨.fullSdu, snSize, 0, 0⟩) := by
  cases snSize <;> simp [readDataPduHeader, writeDataPduHeader, readSo, SiField.bits, SiField.ofBits]

/-- `rlc_um_nr_tx`. Of `tx_sdu` only the bytes not yet sent are kept, as in the source. -/
structure Tx where
  snSize : SnSize
  txQueueLength : Nat
  txNext : Nat := 0
  nextSo : Nat := 0
  txSdu : Option Sdu := none
  txSduQueue : List Sdu := []
  deriving DecidableEq, Repr

namespace Tx

def headLenFull : Nat := 1

/-- `configure` measures this header before it knows the SN size. -/
def headLenSegment : Nat := packedLength ⟨.firstSegment, .size6bits, 0, 1⟩

def writeSdu (tx : Tx) (sdu : Sdu) : Tx :=
  if tx.txSduQueue.length < tx.txQueueLength then { tx with txSduQueue := tx.txSduQueue ++ [sdu] }
  else tx

def selectSegmentation (tx : Tx) (pduSpace : Nat) : Option (Tx × Sdu × SiField) :=
  match tx.txSdu, tx.txSduQueue with
  | none, [] => none
  | none, sdu :: queue =>
    some ({ tx with txSdu := some sdu, txSduQueue := queue, nextSo := 0 }, sdu,
      if sdu.length ≤ u32Sub pduSpace headLenFull then .fullSdu else .firstSegment)
  | some sdu, _ =>
    some (tx, sdu,
      if sdu.length ≤ u32Sub pduSpace headLenSegment then .lastSegment
      else .neitherFirstNorLastSegment)

def pduSpace (nofBytes : Nat) : Nat := min nofBytes ({} : ByteBuffer).getTailroom

def emitPdu (tx : Tx) (sdu : Sdu) (header : PduHeader) (toMove : Nat) : Tx × List Byte :=
  ({ tx with
      txSdu := if toMove = sdu.length then none else some (sdu.drop toMove)
      nextSo := if header.si = .lastSegment then 0 else tx.nextSo + toMove
      txNext := if header.si = .lastSegment then (tx.txNext + 1) % tx.snSize.mod else tx.txNext },
    writeDataPduHeader header ++ sdu.take toMove)

def buildDataPdu (tx : Tx) (nofBytes : Nat) : Tx × List Byte :=
  if nofBytes < 2 then (tx, [])
  else
    match tx.selectSegmentation (pduSpace nofBytes) with
    | none => (tx, [])
    | some (tx, sdu, si) =>
      let header : PduHeader := ⟨si, tx.snSize, tx.txNext, tx.nextSo⟩
      if pduSpace nofBytes ≤ packedLength header + 1 then (tx, [])
      else tx.emitPdu sdu header (min (pduSpace nofBytes - packedLength header) sdu.length)

variable {nofBytes : Nat} {tx : Tx}

theorem pduSpace_le_tailroom (nofBytes : Nat) : pduSpace nofBytes ≤ 12237 := Nat.min_le_right ..

theorem pduSpace_of_le (h : nofBytes ≤ 12237) : pduSpace nofBytes = nofBytes :=
  Nat.min_eq_left h

theorem pduSpace_of_lt (h : 12237 < nofBytes) : pduSpace nofBytes = 12237 :=
  Nat.min_eq_right (Nat.le_of_lt h)

/-- The grant neither consumes a new SDU without building a PDU, nor runs into the
one byte by which `headLenSegment` is too short for 12-bit SNs. -/
structure GrantFits (tx : Tx) (nofBytes : Nat) : Prop where
  newSdu : tx.txSdu = none → ∀ sdu ∈ tx.txSduQueue.head?,
    nofBytes < 2 ∨ 4 ≤ nofBytes ∨ nofBytes = 3 ∧ (tx.snSize = .size6bits ∨ sdu.length ≤ 2)
  oldSdu : ∀ sdu ∈ tx.txSdu,
    tx.snSize = .size12bits → 6 ≤ pduSpace nofBytes → sdu.length ≠ pduSpace nofBytes - 3

instance (tx : Tx) (nofBytes : Nat) : Decidable (tx.GrantFits nofBytes) :=
  decidable_of_iff (_ ∧ _) ⟨fun h => ⟨h.1, h.2⟩, fun h => ⟨h.newSdu, h.oldSdu⟩⟩

inductive Built (tx : Tx) : Tx → List Byte → Prop where
  | nothing : Built tx tx []
  | fullSdu {sdu : Sdu} {queue : List Sdu} (free : tx.txSdu = none)
      (queued : tx.txSduQueue = sdu :: queue) :
      Built tx { tx with txSdu := none, txSduQueue := queue, nextSo := sdu.length }
        (writeDataPduHeader ⟨.fullSdu, tx.snSize, tx.txNext, 0⟩ ++ sdu)
  | firstSegment {sdu : Sdu} {queue : List Sdu} {len : Nat} (free : tx.txSdu = none)
      (queued : tx.txSduQueue = sdu :: queue) (positive : 0 < len) (proper : len < sdu.length) :
      Built tx { tx with txSdu := some (sdu.drop len), txSduQueue := queue, nextSo := len }
        (writeDataPduHeader ⟨.firstSegment, tx.snSize, tx.txNext, 0⟩ ++ sdu.take len)
  | middleSegment {rest : Sdu} {len : Nat} (pending : tx.txSdu = some rest)
      (positive : 0 < len) (proper : len < rest.length) :
      Built tx { tx with txSdu := some (rest.drop len), nextSo := tx.nextSo + len }
        (writeDataPduHeader ⟨.neitherFirstNorLastSegment, tx.snSize, tx.txNext, tx.nextSo⟩ ++
          rest.take len)
  | lastSegment {rest : Sdu} (pending : tx.txSdu = some rest) :
      Built tx { tx with txSdu := none, nextSo := 0, txNext := (tx.txNext + 1) % tx.snSize.mod }
        (writeDataPduHeader ⟨.lastSegment, tx.snSize, tx.txNext, tx.nextSo⟩ ++ rest)

theorem emitPdu_rest (tx : Tx) (sdu : Sdu) (header : PduHeader) :
    tx.emitPdu sdu header sdu.length =
      ({ tx with
          txSdu := none
          nextSo := if header.si = .lastSegment then 0 else tx.nextSo + sdu.length
          txNext := if header.si = .lastSegment then (tx.txNext + 1) % tx.snSize.mod else tx.txNext },
        writeDataPduHeader header ++ sdu) := by
  simp [emitPdu]

theorem emitPdu_part (tx : Tx) {sdu : Sdu} {header : PduHeader} {len : Nat}
    (proper : len < sdu.length) (segment : header.si ≠ .lastSegment) :
    tx.emitPdu sdu header len =
      ({ tx with txSdu := some (sdu.drop len), nextSo := tx.nextSo + len },
        writeDataPduHeader header ++ sdu.take len) := by
  simp [emitPdu, segment, Nat.ne_of_lt proper]

theorem packedLength_first (snSize : SnSize) (sn : Nat) :
    packedLength ⟨.firstSegment, snSize, sn, 0⟩ = if snSize = .size6bits then 1 else 2 := by
  cases snSize <;> rfl

theorem packedLength_later {si : SiField} (later : si = .lastSegment ∨ si = .neitherFirstNorLastSegment)
    (snSize : SnSize) (sn : Nat) {so : Nat} (started : 0 < so) :
    packedLength ⟨si, snSize, sn, so⟩ = if snSize = .size6bits then 3 else 4 := by
  rcases later with rfl | rfl <;> cases snSize <;> simp [packedLength, Nat.ne_of_gt started]

theorem built_newSdu {sdu : Sdu} {queue : List Sdu}
    (enough : 2 ≤ nofBytes) (free : tx.txSdu = none) (queued : tx.txSduQueue = sdu :: queue)
    (fits : tx.GrantFits nofBytes) :
    tx.Built (tx.buildDataPdu nofBytes).1 (tx.buildDataPdu nofBytes).2 := by
  have bound := pduSpace_le_tailroom nofBytes
  have room := fits.newSdu free sdu (by simp [queued])
  have space : 3 ≤ pduSpace nofBytes ∧
      (4 ≤ pduSpace nofBytes ∨ tx.snSize = .size6bits ∨ sdu.length ≤ pduSpace nofBytes - 1) := by
    by_cases small : nofBytes ≤ 12237
    · rw [pduSpace_of_le small]
      rcases room with tiny | large | ⟨rfl, size | short⟩
      · omega
      · exact ⟨by omega, .inl large⟩
      · exact ⟨Nat.le_refl _, .inr (.inl size)⟩
      · exact ⟨Nat.le_refl _, .inr (.inr short)⟩
    · have := pduSpace_of_lt (Nat.lt_of_not_le small)
      omega
  have minus : u32Sub (pduSpace nofBytes) headLenFull = pduSpace nofBytes - 1 :=
    u32Sub_of_le (by simp only [headLenFull]; omega) (by omega)
  rw [buildDataPdu, if_neg (by omega)]
  simp only [selectSegmentation, free, queued, minus]
  by_cases whole : sdu.length ≤ pduSpace nofBytes - 1
  · have header : packedLength ⟨.fullSdu, tx.snSize, tx.txNext, 0⟩ = 1 := rfl
    simp only [if_pos whole]
    rw [if_neg (by omega), Nat.min_eq_right (by omega), emitPdu_rest]
    simpa using Built.fullSdu free queued
  · have header := packedLength_first tx.snSize tx.txNext
    have longer : 0 < packedLength ⟨.firstSegment, tx.snSize, tx.txNext, 0⟩ ∧
        packedLength ⟨.firstSegment, tx.snSize, tx.txNext, 0⟩ + 1 < pduSpace nofBytes := by
      rw [header]
      obtain ⟨_, large | size | short⟩ := space
      · split <;> omega
      · rw [if_pos size]
        omega
      · exact absurd short whole
    simp only [if_neg whole]
    rw [if_neg (by omega), emitPdu_part _ (by omega) (by simp)]
    simp only [Nat.zero_add]
    exact .firstSegment free queued (by omega) (by omega)

theorem built_oldSdu {rest : Sdu} (enough : 2 ≤ nofBytes)
    (pending : tx.txSdu = some rest) (started : 0 < tx.nextSo) (fits : tx.GrantFits nofBytes) :
    tx.Built (tx.buildDataPdu nofBytes).1 (tx.buildDataPdu nofBytes).2 := by
  have bound := pduSpace_le_tailroom nofBytes
  have minus : 3 ≤ pduSpace nofBytes →
      u32Sub (pduSpace nofBytes) headLenSegment = pduSpace nofBytes - 3 :=
    fun h => u32Sub_of_le h (by omega)
  rw [buildDataPdu, if_neg (by omega)]
  simp only [selectSegmentation, pending]
  by_cases whole : rest.length ≤ u32Sub (pduSpace nofBytes) headLenSegment
  · have header := packedLength_later (.inl rfl) tx.snSize tx.txNext started
    simp only [if_pos whole]
    split
    · exact .nothing
    · rename_i roomy
      have complete : rest.length ≤ pduSpace nofBytes -
          packedLength ⟨.lastSegment, tx.snSize, tx.txNext, tx.nextSo⟩ := by
        rw [header] at roomy ⊢
        rw [minus (by split at roomy <;> omega)] at whole
        cases size : tx.snSize with
        | size6bits => simpa using whole
        | size12bits =>
          have wide : 6 ≤ pduSpace nofBytes := by
            simp only [size, reduceCtorEq, if_false] at roomy
            omega
          have := fits.oldSdu rest pending size wide
          simp only [reduceCtorEq, if_false]
          omega
      rw [Nat.min_eq_right complete, emitPdu_rest]
      simpa using Built.lastSegment pending
  · have header := packedLength_later (.inr rfl) tx.snSize tx.txNext started
    simp only [if_neg whole]
    split
    · exact .nothing
    · rename_i roomy
      have long : 3 ≤ packedLength ⟨.neitherFirstNorLastSegment, tx.snSize, tx.txNext, tx.nextSo⟩ := by
        rw [header]
        split <;> omega
      rw [emitPdu_part _ (by omega) (by simp)]
      exact Built.middleSegment pending (by omega) (by omega)

theorem built (started : tx.txSdu ≠ none → 0 < tx.nextSo)
    (fits : tx.GrantFits nofBytes) :
    tx.Built (tx.buildDataPdu nofBytes).1 (tx.buildDataPdu nofBytes).2 := by
  by_cases enough : 2 ≤ nofBytes
  · cases pending : tx.txSdu with
    | some rest => exact built_oldSdu enough pending (started (by simp [pending])) fits
    | none =>
      cases queued : tx.txSduQueue with
      | cons sdu queue => exact built_newSdu enough pending queued fits
      | nil =>
        rw [buildDataPdu]
        simpa [selectSegmentation, pending, queued] using (Built.nothing : tx.Built tx [])
  · rw [buildDataPdu, if_pos (by omega)]
    exact .nothing

end Tx

end IsrRan.Rlc.UmNr
