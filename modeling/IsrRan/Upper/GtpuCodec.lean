import Mathlib.Data.List.GetD
import IsrRan.Upper.GtpuHeader

namespace IsrRan.Upper
open List Lib.Peek

/-- A `byte_buffer_t` with all of its buffer, whose first place is 0. -/
structure PduBuffer where
  buffer : Memory
  msg : Nat
  nBytes : Nat

section Write
variable (header : GtpuHeader)

/-- `gtpu_write_header`, which changes the header, too. The room is only checked for the part of fixed length. -/
def gtpuWriteHeaderAt (pdu : PduBuffer) : Except Fault (Option (GtpuHeader × PduBuffer)) :=
  if !gtpuSupportedFlagsCheck header || !gtpuSupportedMsgTypeCheck header then .ok none
  else
    let (headerLen, extLen) := if header.isLong then (12, header.extLen) else (8, 0)
    if pdu.msg < headerLen then .ok none
    else if pdu.msg < headerLen + extLen then .error .undefinedBehaviour
    else
      let msg := pdu.msg - (headerLen + extLen)
      .ok (some (header.sent,
        ⟨pdu.buffer.store msg header.sent.written, msg, (pdu.nBytes + headerLen + extLen) % 2 ^ 32⟩))

end Write

section Codec

/-- A header that can be written: values of the widths of the fields, a supported kind of message, and an extension of
four bytes where its type is the PDCP PDU number and of none otherwise. -/
structure GtpuHeader.WellFormed (header : GtpuHeader) : Prop where
  supportedFlags : gtpuSupportedFlagsCheck header = true
  supportedType : gtpuSupportedMsgTypeCheck header = true
  flags : header.flags < 2 ^ 8
  messageType : header.messageType < 2 ^ 8
  length : header.length < 2 ^ 16
  teid : header.teid < 2 ^ 32
  seqNumber : header.seqNumber < 2 ^ 16
  nPdu : header.nPdu < 2 ^ 8
  nextExtHdrType : header.nextExtHdrType < 2 ^ 8
  extBuffer : header.extBuffer.length = if header.nextExtHdrType = gtpuExtHeaderPdcpPduNumber then 4 else 0
  announced : header.nextExtHdrType ≠ 0 → header.flags &&& gtpuFlagsExtendedHdr ≠ 0

def GtpuHeader.headerLen (header : GtpuHeader) : Nat := if header.isLong then 12 + header.extLen else 8

structure GtpuHeader.FitsBefore (header : GtpuHeader) (pdu : PduBuffer) : Prop where
  headroom : header.headerLen ≤ pdu.msg
  nBytes : pdu.nBytes + header.headerLen < 2 ^ 32

structure GtpuHeader.Restored (sent written read : GtpuHeader) : Prop where
  flags : read.flags = sent.flags
  messageType : read.messageType = sent.messageType
  length : read.length = written.length
  teid : read.teid = sent.teid
  seqNumber : sent.flags &&& gtpuFlagsSequence ≠ 0 → read.seqNumber = sent.seqNumber
  nPdu : sent.flags &&& gtpuFlagsPacketNum ≠ 0 → read.nPdu = sent.nPdu
  nextExtHdrType : sent.flags &&& gtpuFlagsExtendedHdr ≠ 0 → read.nextExtHdrType = sent.nextExtHdrType
  extBuffer : sent.flags &&& gtpuFlagsExtendedHdr ≠ 0 → sent.nextExtHdrType ≠ 0 → read.extBuffer = sent.extBuffer

/-- Writing succeeds and leaves the payload alone; reading gives the payload and the header, into whatever header. -/
def GtpuHeader.RoundTrips (header : GtpuHeader) (pdu : PduBuffer) : Prop :=
  ∃ header' pdu', gtpuWriteHeaderAt header pdu = .ok (some (header', pdu')) ∧
    (∀ i, pdu.msg ≤ i → pdu'.buffer i = pdu.buffer i) ∧
    ∀ into, ∃ read, (gtpuReadHeaderAt into pdu'.msg pdu'.nBytes).run pdu'.buffer = (true, read, pdu.msg, pdu.nBytes) ∧
      header.Restored header' read

def gtpuReadLen (mem : Memory) (msg : Nat) : Nat :=
  if mem.byte msg &&& 7 = 0 then 8
  else if mem.byte msg &&& gtpuFlagsExtendedHdr = 0 ∨ mem.byte (msg + 11) = 0 then 12
  else 16

variable {mem : Memory} {header into : GtpuHeader} {ptr msg msg' nBytes nBytes' : Nat}

theorem gtpuReadExtHeaderAt_true {read : GtpuHeader}
    (run : (gtpuReadExtHeaderAt header ptr msg nBytes).run mem = (true, read, msg', nBytes')) :
    (header.flags &&& gtpuFlagsExtendedHdr = 0 ∨ header.nextExtHdrType = 0 →
      msg' = msg ∧ nBytes' = nBytes ∧ (gtpuReadExtHeaderAt header ptr msg nBytes).reads mem = []) ∧
    (¬(header.flags &&& gtpuFlagsExtendedHdr = 0 ∨ header.nextExtHdrType = 0) →
      msg' = msg + 4 ∧ nBytes' = u32Sub nBytes 4 ∧
        ∀ c ∈ (gtpuReadExtHeaderAt header ptr msg nBytes).reads mem, ptr ≤ c ∧ c < ptr + 4) := by
  unfold gtpuReadExtHeaderAt at run ⊢
  by_cases without : header.flags &&& gtpuFlagsExtendedHdr = 0 ∨ header.nextExtHdrType = 0
  · rw [if_pos without] at run ⊢
    cases run
    exact ⟨fun _ => ⟨rfl, rfl, rfl⟩, absurd without⟩
  · rw [if_neg without] at run ⊢
    refine ⟨fun with_ => absurd with_ without, fun _ => ?_⟩
    split at run
    · next pdcp =>
        cases run
        rw [if_pos pdcp]
        refine ⟨rfl, rfl, fun c looked => ?_⟩
        simp only [reads_cell_bind, reads_pure, mem_cons, not_mem_nil, or_false] at looked
        omega
    · next other =>
        rw [if_neg other]
        split at run
        · next container =>
            cases run
            rw [if_pos container]
            exact ⟨rfl, rfl, fun c looked => nomatch looked⟩
        · cases run

theorem gtpuReadHeaderAt_true {read : GtpuHeader}
    (run : (gtpuReadHeaderAt into msg nBytes).run mem = (true, read, msg', nBytes')) :
    msg' = msg + gtpuReadLen mem msg ∧
      (nBytes < 2 ^ 32 → nBytes' = u32Sub nBytes (gtpuReadLen mem msg)) ∧
      ∀ c ∈ (gtpuReadHeaderAt into msg nBytes).reads mem, msg ≤ c ∧ c < msg + gtpuReadLen mem msg := by
  unfold gtpuReadHeaderAt at run ⊢
  simp only [run_cell_bind, reads_cell_bind] at run ⊢
  split at run
  · cases run
  · next supported =>
      rw [if_neg supported]
      split at run
      · next long =>
          have more : mem.byte msg &&& 7 ≠ 0 := of_decide_eq_true long
          rw [if_pos long]
          simp only [reads_cell_bind] at run ⊢
          have behind := gtpuReadExtHeaderAt_true run
          unfold gtpuReadLen
          rw [if_neg more]
          by_cases without : mem.byte msg &&& gtpuFlagsExtendedHdr = 0 ∨ mem.byte (msg + 11) = 0
          · obtain ⟨msgEq, nBytesEq, reads⟩ := behind.1 without
            rw [if_pos without]
            refine ⟨msgEq, fun _ => nBytesEq, fun c looked => ?_⟩
            rw [reads] at looked
            simp only [mem_cons, not_mem_nil, or_false] at looked
            omega
          · obtain ⟨msgEq, nBytesEq, reads⟩ := behind.2 without
            rw [if_neg without]
            refine ⟨msgEq, fun small => ?_, fun c looked => ?_⟩
            · rw [nBytesEq]
              unfold u32Sub
              omega
            · simp only [mem_cons] at looked
              rcases looked with rfl | rfl | rfl | rfl | rfl | rfl | rfl | rfl | rfl | rfl | rfl | rfl | looked
              rotate_right
              · have inside := reads c looked
                omega
              all_goals omega
      · next short =>
          have only : mem.byte msg &&& 7 = 0 := not_not.mp fun more => short (decide_eq_true more)
          rw [if_neg short]
          cases run
          unfold gtpuReadLen
          rw [if_pos only]
          refine ⟨rfl, fun _ => rfl, fun c looked => ?_⟩
          simp only [reads_pure, mem_cons, not_mem_nil, or_false] at looked
          omega

section RoundTrip
variable {pdu : PduBuffer}

def GtpuHeader.sentIn (header : GtpuHeader) (pdu : PduBuffer) : PduBuffer :=
  ⟨pdu.buffer.store (pdu.msg - header.headerLen) header.sent.written, pdu.msg - header.headerLen,
    pdu.nBytes + header.headerLen⟩

section
variable (formed : header.WellFormed)
include formed

theorem gtpuWriteHeaderAt_eq (fits : header.FitsBefore pdu) :
    gtpuWriteHeaderAt header pdu = .ok (some (header.sent, header.sentIn pdu)) := by
  have headroom := fits.headroom
  have nBytes := fits.nBytes
  unfold gtpuWriteHeaderAt GtpuHeader.sentIn GtpuHeader.sent
  unfold GtpuHeader.headerLen at *
  rw [formed.supportedFlags, formed.supportedType]
  by_cases long : header.isLong = true
  · simp only [long, if_true] at headroom nBytes ⊢
    rw [if_neg (by decide), if_neg (by omega), if_neg (by omega), Nat.add_assoc pdu.nBytes, Nat.mod_eq_of_lt nBytes]
  · have short := Bool.eq_false_iff.mpr long
    simp only [short, Bool.false_eq_true, if_false] at headroom nBytes ⊢
    rw [if_neg (by decide), if_neg (by omega), if_neg (by omega)]
    simp only [Nat.mod_eq_of_lt nBytes]

theorem extBuffer_of_next_eq_zero (none_ : header.nextExtHdrType = 0) :
    header.extBuffer = [] := by
  have length := formed.extBuffer
  rw [none_] at length
  exact eq_nil_of_length_eq_zero length

theorem extLen_eq : header.extLen = header.extBuffer.length := by
  unfold GtpuHeader.extLen
  split
  · rfl
  · next none_ => rw [extBuffer_of_next_eq_zero formed (by omega)]; rfl

end

theorem sent_of_long (long : header.isLong = true) :
    header.sent = { header with
      length := u16 (header.length + (12 - 8) + header.extLen)
      nPdu := if header.flags &&& gtpuFlagsPacketNum ≠ 0 then header.nPdu else 0 } := if_pos long

section
variable (formed : header.WellFormed)
include formed

theorem optional_length : header.optional.length = 4 + header.extLen := by
  rw [extLen_eq formed]
  unfold GtpuHeader.optional
  rw [length_append]
  by_cases present : header.flags &&& gtpuFlagsExtendedHdr ≠ 0
  · rw [if_pos present]
    exact Nat.add_right_comm 3 _ 1
  · have none_ : header.nextExtHdrType = 0 := by_contra fun some_ => present (formed.announced some_)
    rw [if_neg present, extBuffer_of_next_eq_zero formed none_]
    rfl

theorem written_length : header.sent.written.length = header.headerLen := by
  unfold GtpuHeader.headerLen GtpuHeader.written
  by_cases long : header.isLong = true
  · have still : header.sent.isLong = true := by rw [sent_of_long long]; exact long
    have rest_ : header.sent.optional.length = header.optional.length := by
      rw [sent_of_long long]
      rfl
    rw [if_pos still, if_pos long, length_append, rest_, optional_length formed]
    exact (Nat.add_assoc 8 4 _).symm
  · have same : header.sent = header := if_neg long
    rw [same, if_neg long, if_neg long]
    rfl

theorem sentIn_front {k : Nat} (inside : k < header.headerLen) :
    (header.sentIn pdu).buffer ((header.sentIn pdu).msg + k) = header.sent.written.getD k 0 :=
  Memory.store_inside pdu.buffer (written_length formed ▸ inside)

theorem sentIn_payload (fits : header.FitsBefore pdu) {i : Nat} (payload : pdu.msg ≤ i) :
    (header.sentIn pdu).buffer i = pdu.buffer i := by
  have headroom := fits.headroom
  apply Memory.store_behind
  rw [written_length formed]
  omega

end

theorem uint16_bytes {n : Nat} (small : n < 65536) : (byteOf (n / 256)).toNat * 256 + (byteOf n).toNat = n := by
  rw [toNat_byteOf, toNat_byteOf]
  omega

theorem uint32_bytes {n : Nat} (small : n < 2 ^ 32) :
    (byteOf (n / 2 ^ 24)).toNat * 2 ^ 24 + (byteOf (n / 2 ^ 16)).toNat * 2 ^ 16 + (byteOf (n / 2 ^ 8)).toNat * 2 ^ 8 +
      (byteOf n).toNat = n := by
  simp only [toNat_byteOf]
  omega

theorem uint8_byte {n : Nat} (small : n < 2 ^ 8) : (byteOf n).toNat = n := by
  exact Nat.mod_eq_of_lt small

theorem wellFormed_sent (formed : header.WellFormed) : header.sent.WellFormed := by
  by_cases long : header.isLong = true
  · rw [sent_of_long long]
    have small : (if header.flags &&& gtpuFlagsPacketNum ≠ 0 then header.nPdu else 0) < 2 ^ 8 := by
      split
      · exact formed.nPdu
      · decide
    exact { formed with
      length := Nat.mod_lt _ (by decide)
      nPdu := small }
  · rwa [show header.sent = header from if_neg long]

def GtpuHeader.withMandatory (into header : GtpuHeader) : GtpuHeader :=
  { into with
    flags := header.flags
    messageType := header.messageType
    length := header.length
    teid := header.teid }

theorem gtpuReadHeaderAt_mandatory (formed : header.WellFormed)
    (cells : ∀ k < 8, mem (msg + k) = header.mandatory.getD k 0) :
    (gtpuReadHeaderAt into msg nBytes).run mem =
      if header.isLong then
        (gtpuReadExtHeaderAt
          { into.withMandatory header with
            seqNumber := mem.byte (msg + 8) * 256 + mem.byte (msg + 9)
            nPdu := mem.byte (msg + 10)
            nextExtHdrType := mem.byte (msg + 11) } (msg + 12) (msg + 12) (u32Sub nBytes 12)).run mem
      else (true, into.withMandatory header, msg + 8, u32Sub nBytes 8) := by
  have c0 : mem msg = byteOf header.flags := cells 0 (by decide)
  have c1 : mem (msg + 1) = byteOf header.messageType := cells 1 (by decide)
  have c2 : mem (msg + 2) = byteOf (header.length / 256) := cells 2 (by decide)
  have c3 : mem (msg + 3) = byteOf header.length := cells 3 (by decide)
  have c4 : mem (msg + 4) = byteOf (header.teid / 2 ^ 24) := cells 4 (by decide)
  have c5 : mem (msg + 5) = byteOf (header.teid / 2 ^ 16) := cells 5 (by decide)
  have c6 : mem (msg + 6) = byteOf (header.teid / 2 ^ 8) := cells 6 (by decide)
  have c7 : mem (msg + 7) = byteOf header.teid := cells 7 (by decide)
  unfold gtpuReadHeaderAt
  simp only [run_cell_bind]
  rw [c0, c1, c2, c3, c4, c5, c6, c7, uint8_byte formed.flags, uint8_byte formed.messageType,
    uint16_bytes formed.length, uint32_bytes formed.teid]
  have supported : ¬(!gtpuSupportedFlagsCheck (into.withMandatory header) ||
      !gtpuSupportedMsgTypeCheck (into.withMandatory header)) = true := by
    have flags : gtpuSupportedFlagsCheck (into.withMandatory header) = true := formed.supportedFlags
    have type : gtpuSupportedMsgTypeCheck (into.withMandatory header) = true := formed.supportedType
    rw [flags, type]
    decide
  refine (congrArg (Lib.Peek.run mem) (if_neg supported)).trans ?_
  by_cases long : header.isLong = true
  · rw [if_pos long]
    refine (congrArg (Lib.Peek.run mem) (if_pos long)).trans ?_
    rfl
  · rw [if_neg long]
    exact congrArg (Lib.Peek.run mem) (if_neg long)

def GtpuHeader.withOptional (into header : GtpuHeader) : GtpuHeader :=
  { into.withMandatory header.sent with
    seqNumber := if header.flags &&& gtpuFlagsSequence ≠ 0 then header.seqNumber else 0
    nPdu := header.sent.nPdu
    nextExtHdrType := header.nextExtHdrType }

theorem sent_getD_behind (long : header.isLong = true) (k : Nat) :
    header.sent.written.getD (8 + k) 0 = header.sent.optional.getD k 0 := by
  have still : header.sent.isLong = true := by rw [sent_of_long long]; exact long
  unfold GtpuHeader.written
  rw [if_pos still, getD_append_right _ _ _ _ (Nat.le_add_right 8 k)]
  exact congrArg (header.sent.optional.getD · 0) (Nat.add_sub_cancel_left 8 k)

theorem optional_getD_ext (long : header.isLong = true) (present : header.flags &&& gtpuFlagsExtendedHdr ≠ 0) (k : Nat) :
    header.sent.optional.getD (4 + k) 0 = header.extBuffer.getD k 0 := by
  have behind : 4 + k - 3 = k + 1 := by omega
  rw [sent_of_long long]
  unfold GtpuHeader.optional
  rw [if_pos present, getD_append_right _ _ _ _ (show 3 ≤ 4 + k by omega)]
  exact congrArg ((byteOf header.nextExtHdrType :: header.extBuffer).getD · 0) behind

theorem gtpuReadHeaderAt_long (formed : header.WellFormed) (long : header.isLong = true) :
    (gtpuReadHeaderAt into (header.sentIn pdu).msg nBytes).run (header.sentIn pdu).buffer =
      (gtpuReadExtHeaderAt (into.withOptional header) ((header.sentIn pdu).msg + 12) ((header.sentIn pdu).msg + 12)
        (u32Sub nBytes 12)).run (header.sentIn pdu).buffer := by
  have room : 12 ≤ header.headerLen := by
    unfold GtpuHeader.headerLen
    rw [if_pos long]
    exact Nat.le_add_right _ _
  have still : header.sent.isLong = true := by rw [sent_of_long long]; exact long
  have front (k : Nat) (lt : k < 8) :
      (header.sentIn pdu).buffer ((header.sentIn pdu).msg + k) = header.sent.mandatory.getD k 0 := by
    rw [sentIn_front formed (by omega)]
    exact getD_append _ _ _ _ lt
  have behind (k : Nat) (lt : k < 4) :
      (header.sentIn pdu).buffer ((header.sentIn pdu).msg + (8 + k)) = header.sent.optional.getD k 0 := by
    rw [sentIn_front formed (by omega), sent_getD_behind long]
  have flags : header.sent.flags = header.flags := by rw [sent_of_long long]
  have next : header.sent.nextExtHdrType = header.nextExtHdrType := by rw [sent_of_long long]
  have number : header.sent.seqNumber = header.seqNumber := by rw [sent_of_long long]
  have small : (if header.flags &&& gtpuFlagsSequence ≠ 0 then header.seqNumber else 0) < 65536 := by
    split
    · exact formed.seqNumber
    · decide
  have last_ : (header.sent.optional.getD 3 0).toNat = header.nextExtHdrType := by
    unfold GtpuHeader.optional
    rw [flags, next]
    by_cases present : header.flags &&& gtpuFlagsExtendedHdr ≠ 0
    · rw [if_pos present]
      exact uint8_byte formed.nextExtHdrType
    · have none_ : header.nextExtHdrType = 0 := by_contra fun some_ => present (formed.announced some_)
      rw [if_neg present, none_]
      rfl
  have middle : (header.sent.optional.getD 0 0).toNat * 256 + (header.sent.optional.getD 1 0).toNat =
      if header.flags &&& gtpuFlagsSequence ≠ 0 then header.seqNumber else 0 := by
    unfold GtpuHeader.optional
    rw [flags, number]
    exact uint16_bytes small
  have nPdu : (header.sent.optional.getD 2 0).toNat = header.sent.nPdu := uint8_byte (wellFormed_sent formed).nPdu
  have b8 := behind 0 (by decide)
  have b9 := behind 1 (by decide)
  have b10 := behind 2 (by decide)
  have b11 := behind 3 (by decide)
  rw [gtpuReadHeaderAt_mandatory (wellFormed_sent formed) front, if_pos still]
  unfold Memory.byte GtpuHeader.withOptional
  rw [b8, b9, b10, b11, last_, middle, nPdu]

theorem restored_withOptional (long : header.isLong = true) (data : List Byte)
    (same : header.nextExtHdrType ≠ 0 → data = header.extBuffer) :
    header.Restored header.sent { into.withOptional header with extBuffer := data } := by
  have flags : header.sent.flags = header.flags := by rw [sent_of_long long]
  have type : header.sent.messageType = header.messageType := by rw [sent_of_long long]
  have teid : header.sent.teid = header.teid := by rw [sent_of_long long]
  have nPdu (announced : header.flags &&& gtpuFlagsPacketNum ≠ 0) : header.sent.nPdu = header.nPdu := by
    rw [sent_of_long long]
    exact if_pos announced
  exact ⟨flags, type, rfl, teid, fun announced => if_pos announced, nPdu, fun _ => rfl, fun _ => same⟩

theorem sentIn_landed (fits : header.FitsBefore pdu) :
    (header.sentIn pdu).msg + header.headerLen = pdu.msg ∧
      u32Sub (header.sentIn pdu).nBytes header.headerLen = pdu.nBytes := by
  have nBytes := fits.nBytes
  refine ⟨Nat.sub_add_cancel fits.headroom, ?_⟩
  unfold GtpuHeader.sentIn u32Sub
  dsimp only
  omega

theorem roundTrips_iff (formed : header.WellFormed) (fits : header.FitsBefore pdu) :
    header.RoundTrips pdu ↔
      header.nextExtHdrType = 0 ∨ header.nextExtHdrType = gtpuExtHeaderPdcpPduNumber := by
  have written := gtpuWriteHeaderAt_eq formed fits
  have landed := sentIn_landed fits
  by_cases long : header.isLong = true
  · have headerLen : header.headerLen = 12 + header.extLen := if_pos long
    have ext := extLen_eq formed
    have four := formed.extBuffer
    by_cases none_ : header.nextExtHdrType = 0
    · refine iff_of_true ⟨_, _, written, fun i => sentIn_payload formed fits, fun into => ?_⟩ (Or.inl none_)
      rw [none_, if_neg (by decide)] at four
      rw [headerLen, ext, four] at landed
      refine ⟨into.withOptional header, ?_, restored_withOptional long into.extBuffer fun some_ => absurd none_ some_⟩
      rw [gtpuReadHeaderAt_long formed long]
      refine (congrArg (Lib.Peek.run _) (if_pos (Or.inr none_))).trans ?_
      rw [run_pure, landed.1, landed.2]
    · have present (into : GtpuHeader) : ¬((into.withOptional header).flags &&& gtpuFlagsExtendedHdr = 0 ∨
          (into.withOptional header).nextExtHdrType = 0) := by
        have flags : (into.withOptional header).flags = header.flags := by
          unfold GtpuHeader.withOptional GtpuHeader.withMandatory
          rw [sent_of_long long]
        rw [flags]
        exact not_or.mpr ⟨formed.announced none_, none_⟩
      by_cases pdcp : header.nextExtHdrType = gtpuExtHeaderPdcpPduNumber
      · rw [if_pos pdcp] at four
        rw [headerLen, ext, four] at landed
        refine iff_of_true ⟨_, _, written, fun i => sentIn_payload formed fits, fun into => ?_⟩ (Or.inr pdcp)
        refine ⟨{ into.withOptional header with extBuffer := header.extBuffer }, ?_,
          restored_withOptional long header.extBuffer fun _ => rfl⟩
        have read (k : Nat) (lt : k < 4) :
            (header.sentIn pdu).buffer ((header.sentIn pdu).msg + 12 + k) = header.extBuffer.getD k 0 := by
          rw [Nat.add_assoc, sentIn_front formed (by omega), show 12 + k = 8 + (4 + k) by omega, sent_getD_behind long,
            optional_getD_ext long (formed.announced none_)]
        obtain ⟨e0, e1, e2, e3, data⟩ : ∃ e0 e1 e2 e3, header.extBuffer = [e0, e1, e2, e3] := by
          match header.extBuffer, four with
          | [e0, e1, e2, e3], _ => exact ⟨e0, e1, e2, e3, rfl⟩
        rw [data] at read ⊢
        have r0 := read 0 (by decide)
        have r1 := read 1 (by decide)
        have r2 := read 2 (by decide)
        have r3 := read 3 (by decide)
        rw [gtpuReadHeaderAt_long formed long]
        unfold gtpuReadExtHeaderAt
        rw [if_neg (present into), if_pos (show (into.withOptional header).nextExtHdrType = _ from pdcp)]
        simp only [run_cell_bind]
        have here : (header.sentIn pdu).msg + 12 + 4 = pdu.msg := landed.1
        have left : u32Sub (u32Sub (header.sentIn pdu).nBytes 12) 4 = pdu.nBytes := by
          rw [← landed.2]
          unfold u32Sub GtpuHeader.sentIn
          omega
        rw [here, left, r1, r2, r3, show (header.sentIn pdu).buffer ((header.sentIn pdu).msg + 12) = e0 from r0]
        rfl
      · rw [if_neg pdcp] at four
        refine iff_of_false (fun back => ?_) (not_or.mpr ⟨none_, pdcp⟩)
        obtain ⟨header', pdu', written', -, back⟩ := back
        cases written.symm.trans written'
        obtain ⟨read, run, -⟩ := back {}
        rw [gtpuReadHeaderAt_long formed long] at run
        unfold gtpuReadExtHeaderAt at run
        rw [if_neg (present {}), if_neg (show ¬(GtpuHeader.withOptional {} header).nextExtHdrType = _ from pdcp)] at run
        split at run
        · have far := congrArg (fun result => result.2.2.1) run
          simp only [run_pure] at far
          omega
        · cases congrArg Prod.fst run
  · have without : header.flags &&& 7 = 0 := not_not.mp fun more => long (decide_eq_true more)
    have bits : ∀ f < 256, f &&& 7 = 0 → f &&& 4 = 0 ∧ f &&& 2 = 0 ∧ f &&& 1 = 0 := by decide +kernel
    obtain ⟨noExt, noSeq, noPdu⟩ := bits _ formed.flags without
    have none_ : header.nextExtHdrType = 0 := by_contra fun some_ => formed.announced some_ noExt
    refine iff_of_true ⟨_, _, written, fun i => sentIn_payload formed fits, fun into => ?_⟩ (Or.inl none_)
    have headerLen : header.headerLen = 8 := if_neg long
    have same : header.sent = header := if_neg long
    have cells : ∀ k < 8, (header.sentIn pdu).buffer ((header.sentIn pdu).msg + k) = header.mandatory.getD k 0 := by
      intro k lt
      rw [sentIn_front formed (headerLen ▸ lt), same]
      unfold GtpuHeader.written
      rw [if_neg long, append_nil]
    rw [gtpuReadHeaderAt_mandatory formed cells, if_neg long]
    rw [headerLen] at landed
    refine ⟨into.withMandatory header, ?_, ?_⟩
    · rw [landed.1, landed.2]
    · exact ⟨rfl, rfl, by rw [same]; rfl, rfl, fun announced => absurd noSeq announced,
        fun announced => absurd noPdu announced, fun announced => absurd noExt announced,
        fun announced => absurd noExt announced⟩

end RoundTrip

theorem gtpuReadHeaderAt_inside_iff {read : GtpuHeader} (small : nBytes < 2 ^ 32)
    (run : (gtpuReadHeaderAt into msg nBytes).run mem = (true, read, msg', nBytes')) :
    ((∀ c ∈ (gtpuReadHeaderAt into msg nBytes).reads mem, msg ≤ c ∧ c < msg + nBytes) ∧
        msg ≤ msg' ∧ msg' + nBytes' = msg + nBytes) ↔ gtpuReadLen mem msg ≤ nBytes := by
  obtain ⟨msgEq, nBytesEq, reads⟩ := gtpuReadHeaderAt_true run
  unfold u32Sub at nBytesEq
  constructor
  · rintro ⟨-, -, whole⟩
    omega
  · intro long
    refine ⟨fun c looked => ?_, by omega, by omega⟩
    have inside := reads c looked
    omega

end Codec

theorem gtpuHeader_roundTrips_iff (header : GtpuHeader) (pdu : PduBuffer) (mem : Memory) (into : GtpuHeader)
    (msg nBytes : Nat) :
    (header.WellFormed → header.FitsBefore pdu →
      (header.RoundTrips pdu ↔
        header.nextExtHdrType = 0 ∨ header.nextExtHdrType = gtpuExtHeaderPdcpPduNumber)) ∧
      ∀ (read : GtpuHeader) (msg' nBytes' : Nat), nBytes < 2 ^ 32 →
        (gtpuReadHeaderAt into msg nBytes).run mem = (true, read, msg', nBytes') →
          ((∀ c ∈ (gtpuReadHeaderAt into msg nBytes).reads mem, msg ≤ c ∧ c < msg + nBytes) ∧
              msg ≤ msg' ∧ msg' + nBytes' = msg + nBytes ↔ gtpuReadLen mem msg ≤ nBytes) :=
  ⟨roundTrips_iff, fun _ _ _ => gtpuReadHeaderAt_inside_iff⟩

section Messages

def snHeader : GtpuHeader := {
  flags := 0x34
  messageType := gtpuMsgDataPdu
  length := 3
  teid := 5
  nextExtHdrType := gtpuExtHeaderPdcpPduNumber
  extBuffer := [1, 0, 7, 0] }

def payload3 : PduBuffer := ⟨fun _ => 0, bufferHeaderOffset, 3⟩

theorem snHeader_wellFormed : snHeader.WellFormed := by constructor <;> decide

theorem gtpuHeader_roundTrips_iff_sn : snHeader.RoundTrips payload3 :=
  ((gtpuHeader_roundTrips_iff snHeader payload3 (fun _ => 0) {} 0 0).1 snHeader_wellFormed
    ⟨by decide, by decide⟩).mpr (Or.inr rfl)

def containerHeader : GtpuHeader := {
  flags := 0x34
  messageType := gtpuMsgDataPdu
  length := 3
  teid := 5
  nextExtHdrType := gtpuExtHeaderPduSessionContainer }

theorem containerHeader_lost : ¬ ((∀ (header : GtpuHeader) (pdu : PduBuffer), header.WellFormed →
      header.FitsBefore pdu → header.RoundTrips pdu) ∧
    ∀ (mem : Memory) (into read : GtpuHeader) (msg nBytes msg' nBytes' : Nat), nBytes < 2 ^ 32 →
      (gtpuReadHeaderAt into msg nBytes).run mem = (true, read, msg', nBytes') →
        (∀ c ∈ (gtpuReadHeaderAt into msg nBytes).reads mem, msg ≤ c ∧ c < msg + nBytes) ∧
          msg ≤ msg' ∧ msg' + nBytes' = msg + nBytes) := by
  rintro ⟨always, -⟩
  have formed : containerHeader.WellFormed := by constructor <;> decide
  have fits : containerHeader.FitsBefore payload3 := ⟨by decide, by decide⟩
  exact absurd ((roundTrips_iff formed fits).mp (always _ _ formed fits)) (by decide)

end Messages

end IsrRan.Upper
