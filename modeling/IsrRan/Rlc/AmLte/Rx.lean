import IsrRan.Rlc.Common
import IsrRan.Adt.CircularMap
import IsrRan.Lib.OrderedMap

namespace IsrRan.Rlc.AmLte
open List Nat UInt8 Memory

def mod : Nat := 1024

def windowSize : Nat := 512

inductive DcField where
  | controlPdu
  | dataPdu
  deriving DecidableEq, Repr

/-- `rlc_amd_pdu_header_t`; `li` are the first `N_li` entries of the array. -/
structure PduHeader where
  dc : DcField := .controlPdu
  rf : Bool := false
  p : Bool := false
  fi : Nat := 0
  sn : Nat := 0
  lsf : Bool := false
  so : Nat := 0
  li : List Nat := []
  deriving DecidableEq, Repr

def isControlPdu (payload : Memory) : Bool := payload.byte 0 < 128

/-- The extension part from `ptr` on, with room for `fuel` more length indicators in the array. Two of
them share three bytes. -/
def readLi (payload : Memory) : Nat → Nat → Bool → List Nat → Except Fault (List Nat × Nat)
  | _, ptr, false, li => .ok (li, if li.length % 2 = 1 then ptr + 1 else ptr)
  | 0, _, true, _ => .error .undefinedBehaviour
  | fuel + 1, ptr, true, li =>
    if li.length % 2 = 0 then
      readLi payload fuel (ptr + 1) (payload.byte ptr / 128 = 1)
        (li ++ [payload.byte ptr % 128 * 16 + payload.byte (ptr + 1) / 16])
    else
      readLi payload fuel (ptr + 2) (payload.byte ptr / 8 % 2 = 1)
        (li ++ [payload.byte ptr % 8 * 256 + payload.byte (ptr + 1)])

def readDataPduHeader (payload : Memory) : Except Fault (PduHeader × Nat) :=
  let b := payload.byte 0
  if b < 128 then .ok ({}, 0)
  else do
    let rf := b / 64 % 2 = 1
    let header : PduHeader :=
      { dc := .dataPdu, rf, p := b / 32 % 2 = 1, fi := b / 8 % 4, sn := b % 4 * 256 + payload.byte 1 }
    let header : PduHeader :=
      if rf then
        { header with
          lsf := payload.byte 2 / 128 = 1
          so := payload.byte 2 % 128 * 256 + payload.byte 3 }
      else header
    let (li, ptr) ← readLi payload windowSize (if rf then 4 else 2) (b / 4 % 2 = 1) []
    .ok ({ header with li }, ptr)

def packedLength (header : PduHeader) : Nat :=
  (if header.rf then 4 else 2) + (3 * header.li.length + 1) / 2

def liBytes : List Nat → List Byte
  | [] => []
  | [li] => [UInt8.ofNat (li / 16 % 128), UInt8.ofNat (li % 16 * 16)]
  | li₀ :: li₁ :: rest =>
    UInt8.ofNat (128 + li₀ / 16 % 128) ::
      UInt8.ofNat (li₀ % 16 * 16 + (if rest.isEmpty then 0 else 8) + li₁ / 256 % 8) ::
      UInt8.ofNat li₁ :: liBytes rest

def writeDataPduHeader (header : PduHeader) : List Byte :=
  UInt8.ofNat ((if header.dc = .dataPdu then 128 else 0) + (if header.rf then 64 else 0) +
      (if header.p then 32 else 0) + header.fi % 4 * 8 + (if header.li.isEmpty then 0 else 4) +
      header.sn / 256 % 4) ::
    UInt8.ofNat header.sn ::
    ((if header.rf then
        [UInt8.ofNat ((if header.lsf then 128 else 0) + header.so / 256 % 128), UInt8.ofNat header.so]
      else []) ++ liBytes header.li)

def startAligned (fi : Nat) : Bool := fi = 0 || fi = 1

def endAligned (fi : Nat) : Bool := fi = 0 || fi = 2

structure Nack where
  nackSn : Nat
  hasSo : Bool := false
  soStart : Nat := 0
  soEnd : Nat := 65535
  deriving DecidableEq, Repr

structure StatusPdu where
  ackSn : Nat := 0
  nacks : List Nack := []
  deriving DecidableEq, Repr

namespace StatusPdu

def lengthBits (status : StatusPdu) : Nat :=
  15 + (status.nacks.map fun nack => if nack.hasSo then 42 else 12).sum

def packedLength (status : StatusPdu) : Nat := (status.lengthBits + 7) / 8

def isValid (status : StatusPdu) (rxWinMin : Nat) : Bool :=
  u32Sub (mod + status.ackSn) rxWinMin % mod ≤ windowSize &&
    status.nacks.all fun nack =>
      u32Sub (mod + status.ackSn) nack.nackSn % mod ≤ windowSize && nack.nackSn ≠ status.ackSn

end StatusPdu

def bitUnpack (value n : Nat) : List Bool := (range n).map fun i => value.testBit (n - 1 - i)

def bitPackVector : List Bool → List Byte
  | b₀ :: b₁ :: b₂ :: b₃ :: b₄ :: b₅ :: b₆ :: b₇ :: bits =>
    UInt8.ofNat (128 * b₀.toNat + 64 * b₁.toNat + 32 * b₂.toNat + 16 * b₃.toNat + 8 * b₄.toNat +
      4 * b₅.toNat + 2 * b₆.toNat + b₇.toNat) :: bitPackVector bits
  | _ => []

def nackBits : List Nack → List Bool
  | [] => []
  | nack :: nacks =>
    bitUnpack nack.nackSn 10 ++ [!nacks.isEmpty] ++
      (if nack.hasSo then true :: bitUnpack nack.soStart 15 ++ bitUnpack nack.soEnd 15 else [false]) ++
      nackBits nacks

def statusBits (status : StatusPdu) : List Bool :=
  replicate 4 false ++ bitUnpack status.ackSn 10 ++ [!status.nacks.isEmpty] ++ nackBits status.nacks

def writeStatusPdu (status : StatusPdu) : List Byte :=
  let bits := statusBits status
  bitPackVector (bits ++ replicate (8 - bits.length % 8) false)

def maxBits : Nat := 97896

def bitUnpackVector (payload : Memory) (nofBytes : Nat) (stale : Memory) (i : Nat) : Nat :=
  if i < 8 * nofBytes then payload.byte (i / 8) / 2 ^ (7 - i % 8) % 2 else stale.byte i

def bitPack (bits : Nat → Nat) (ptr n : Nat) : Nat :=
  (range n).foldl (fun value i => value ||| (bits (ptr + i)) <<< (n - 1 - i)) 0

def readNacks (bits : Nat → Nat) : Nat → Nat → Bool → List Nack → Except Fault (List Nack)
  | _, _, false, nacks => .ok nacks
  | 0, _, true, _ => .error .undefinedBehaviour
  | fuel + 1, ptr, true, nacks =>
    let nackSn := bitPack bits ptr 10
    let ext1 := bitPack bits (ptr + 10) 1 % 256 ≠ 0
    let ext2 := bitPack bits (ptr + 11) 1 % 256 ≠ 0
    if ext2 then
      readNacks bits fuel (ptr + 42) ext1
        (nacks ++ [{ nackSn, hasSo := true, soStart := u16 (bitPack bits (ptr + 12) 15),
                     soEnd := u16 (bitPack bits (ptr + 27) 15) }])
    else readNacks bits fuel (ptr + 12) ext1 (nacks ++ [{ nackSn }])

/-- `rlc_am_read_status_pdu`; a control PDU of another type leaves the report as it was made. -/
def readStatusPdu (payload : Memory) (nofBytes : Nat) (stale : Memory) : Except Fault StatusPdu :=
  if maxBits < 8 * nofBytes then .error .undefinedBehaviour
  else
    let bits := bitUnpackVector payload nofBytes stale
    if bitPack bits 0 1 = 0 && bitPack bits 1 3 % 256 = 0 then do
      let nacks ← readNacks bits windowSize 15 (bitPack bits 14 1 % 256 ≠ 0) []
      .ok { ackSn := u16 (bitPack bits 4 10), nacks }
    else .ok {}

theorem bitUnpack_length (value n : Nat) : (bitUnpack value n).length = n := by
  simp [bitUnpack]

theorem nackBits_length (nacks : List Nack) :
    (nackBits nacks).length = (nacks.map fun nack => if nack.hasSo then 42 else 12).sum := by
  induction nacks with
  | nil => rfl
  | cons nack nacks ih =>
    cases so : nack.hasSo <;> simp [nackBits, so, bitUnpack_length] <;> omega

theorem statusBits_length (status : StatusPdu) : (statusBits status).length = status.lengthBits := by
  simp only [statusBits, StatusPdu.lengthBits, length_append, length_replicate,
    bitUnpack_length, nackBits_length, length_singleton]

theorem bitPackVector_length (bits : List Bool) : (bitPackVector bits).length = bits.length / 8 := by
  induction bits using bitPackVector.induct with
  | case1 b₀ b₁ b₂ b₃ b₄ b₅ b₆ b₇ bits ih => 
      rw [bitPackVector]
      simp only [length_cons]
      omega
  | case2 bits short =>
    rw [bitPackVector.eq_2 _ short]
    match bits, short with
    | [], _ | [_], _ | [_, _], _ | [_, _, _], _ | [_, _, _, _], _ | [_, _, _, _, _], _
    | [_, _, _, _, _, _], _ | [_, _, _, _, _, _, _], _ => simp
    | b₀ :: b₁ :: b₂ :: b₃ :: b₄ :: b₅ :: b₆ :: b₇ :: bits, short =>
      exact absurd rfl (short b₀ b₁ b₂ b₃ b₄ b₅ b₆ b₇ bits)

theorem writeStatusPdu_length (status : StatusPdu) : (writeStatusPdu status).length = status.packedLength := by
  have odd : status.lengthBits % 2 = 1 := by
    unfold StatusPdu.lengthBits
    induction status.nacks with
    | nil => rfl
    | cons nack nacks ih =>
      simp only [map_cons, sum_cons]
      split <;> omega
  simp only [writeStatusPdu, bitPackVector_length, length_append, length_replicate,
    statusBits_length, StatusPdu.packedLength]
  omega

theorem readDataPduHeader_sn_lt {payload : Memory} {header : PduHeader} {ptr : Nat}
    (read : readDataPduHeader payload = .ok (header, ptr)) : header.sn < mod := by
  unfold readDataPduHeader at read
  dsimp only at read
  split at read
  · cases read
    decide
  · obtain ⟨⟨li, ptr⟩, _, read⟩ := bind_eq_ok.mp read
    cases read
    have := payload.byte_lt 1
    unfold mod
    split <;> dsimp only <;> omega

theorem readDataPduHeader_dc {payload : Memory} {header : PduHeader} {ptr : Nat}
    (data : isControlPdu payload = false) (read : readDataPduHeader payload = .ok (header, ptr)) :
    header.dc = .dataPdu := by
  have high : ¬ payload.byte 0 < 128 := by simpa [isControlPdu] using data
  unfold readDataPduHeader at read
  rw [if_neg high] at read
  obtain ⟨⟨li, ptr⟩, _, read⟩ := bind_eq_ok.mp read
  cases read
  split <;> rfl

def cut : List Nat → List Byte → List (List Byte)
  | [], data => [data]
  | len :: li, data => data.take len :: cut li (data.drop len)

theorem cut_length (li : List Nat) (data : List Byte) : (cut li data).length = li.length + 1 := by
  induction li generalizing data with
  | nil => rfl
  | cons len li ih =>
    rw [cut, length_cons, ih]
    rfl

theorem cut_flatten (whole : List (List Byte)) (part : List Byte) :
    cut (whole.map length) (whole ++ [part]).flatten = whole ++ [part] := by
  induction whole with
  | nil => simp [cut]
  | cons piece whole ih =>
    rw [map_cons, cons_append, flatten_cons, cut, take_left, drop_left, ih]

theorem length_le_of_cut {li : List Nat} {data part : List Byte} {whole : List (List Byte)}
    (pieces : cut li data = whole ++ [part]) {i : Nat} (inside : i < whole.length) :
    (whole.getD i []).length ≤ li.getD i 0 := by
  induction whole generalizing li data i with
  | nil => exact absurd inside (Nat.not_lt_zero i)
  | cons piece whole ih =>
    cases li with
    | nil =>
      have length := congrArg length pieces
      rw [cut_length] at length
      simp at length
    | cons len li =>
      obtain ⟨head, tail⟩ := List.cons.inj pieces
      cases i with
      | zero =>
        rw [getD_cons_zero, ← head, length_take]
        exact Nat.min_le_left _ _
      | succ i =>
        exact ih tail (lt_of_succ_lt_succ inside)

theorem liBytes_length (li : List Nat) : (liBytes li).length = (3 * li.length + 1) / 2 := by
  induction li using liBytes.induct with
  | case1 => rfl
  | case2 li => simp [liBytes]
  | case3 li₀ li₁ rest ih =>
    rw [liBytes]
    simp only [length_cons]
    omega

theorem readLi_done (payload : Memory) (fuel ptr : Nat) (acc : List Nat) :
    readLi payload fuel ptr false acc = .ok (acc, if acc.length % 2 = 1 then ptr + 1 else ptr) := by
  unfold readLi
  rfl

theorem readLi_write (front rest : List Byte) {fuel : Nat} (li acc : List Nat) (even : acc.length % 2 = 0)
    (room : li.length ≤ fuel) :
    readLi (ofList (front ++ (liBytes li ++ rest))) fuel front.length (!li.isEmpty) acc =
      .ok (acc ++ li.map (· % 2048), front.length + (liBytes li).length) := by
  induction li using liBytes.induct generalizing front fuel acc with
  | case1 =>
    rw [show (!([] : List Nat).isEmpty) = false from rfl, readLi_done, if_neg (by omega), map_nil,
      append_nil]
    rfl
  | case2 li =>
    obtain ⟨fuel, rfl⟩ : ∃ f, fuel = f + 1 := ⟨fuel - 1, by simp only [length_singleton] at room; omega⟩
    have first_ : (ofList (front ++ (liBytes [li] ++ rest))).byte front.length = li / 16 % 128 := by
      rw [byte_here]
      exact toNat_ofNat_byte (by omega)
    have second : (ofList (front ++ (liBytes [li] ++ rest))).byte (front.length + 1) = li % 16 * 16 := by
      rw [byte_behind]
      exact toNat_ofNat_byte (by omega)
    have last : decide (li / 16 % 128 / 128 = 1) = false := decide_eq_false (by omega)
    have value : li / 16 % 128 % 128 * 16 + li % 16 * 16 / 16 = li % 2048 := by omega
    have odd : (acc ++ [li % 2048]).length % 2 = 1 := by
      rw [length_append, length_singleton]
      omega
    rw [show (!([li] : List Nat).isEmpty) = true from rfl, readLi, if_pos even, first_, second, last, value,
      readLi_done, if_pos odd, liBytes_length]
    simp
  | case3 li₀ li₁ more ih =>
    obtain ⟨fuel, rfl⟩ : ∃ f, fuel = f + 2 := ⟨fuel - 2, by simp only [length_cons] at room; omega⟩
    generalize bit : (if more.isEmpty = true then 0 else 8) = e at *
    have bits : e = 0 ∧ (!more.isEmpty) = false ∨ e = 8 ∧ (!more.isEmpty) = true := by
      cases empty : more.isEmpty <;> simp_all
    have bytes : liBytes (li₀ :: li₁ :: more) = [UInt8.ofNat (128 + li₀ / 16 % 128),
        UInt8.ofNat (li₀ % 16 * 16 + e + li₁ / 256 % 8), UInt8.ofNat li₁] ++ liBytes more := by
      rw [liBytes, bit]
      rfl
    have behind : front ++ (liBytes (li₀ :: li₁ :: more) ++ rest) =
        (front ++ [UInt8.ofNat (128 + li₀ / 16 % 128), UInt8.ofNat (li₀ % 16 * 16 + e + li₁ / 256 % 8),
          UInt8.ofNat li₁]) ++ (liBytes more ++ rest) := by
      rw [bytes]
      simp
    have first_ : (ofList (front ++ (liBytes (li₀ :: li₁ :: more) ++ rest))).byte front.length =
        128 + li₀ / 16 % 128 := by
      rw [byte_here]
      exact toNat_ofNat_byte (by omega)
    have second : (ofList (front ++ (liBytes (li₀ :: li₁ :: more) ++ rest))).byte (front.length + 1) =
        li₀ % 16 * 16 + e + li₁ / 256 % 8 := by
      rw [byte_behind, bytes]
      exact toNat_ofNat_byte (by omega)
    have third : (ofList (front ++ (liBytes (li₀ :: li₁ :: more) ++ rest))).byte (front.length + 1 + 1) =
        li₁ % 256 := by
      rw [Nat.add_assoc, byte_behind]
      exact toNat_ofNat'
    have goes : decide ((128 + li₀ / 16 % 128) / 128 = 1) = true := decide_eq_true (by omega)
    have value₀ : (128 + li₀ / 16 % 128) % 128 * 16 + (li₀ % 16 * 16 + e + li₁ / 256 % 8) / 16 = li₀ % 2048 := by
      omega
    have last : decide ((li₀ % 16 * 16 + e + li₁ / 256 % 8) / 8 % 2 = 1) = !more.isEmpty := by
      rcases bits with ⟨zero, flag⟩ | ⟨eight, flag⟩
      · rw [flag]
        exact decide_eq_false (by omega)
      · rw [flag]
        exact decide_eq_true (by omega)
    have value₁ : (li₀ % 16 * 16 + e + li₁ / 256 % 8) % 8 * 256 + li₁ % 256 = li₁ % 2048 := by omega
    have odd : ¬ (acc ++ [li₀ % 2048]).length % 2 = 0 := by
      rw [length_append, length_singleton]
      omega
    have even' : (acc ++ [li₀ % 2048] ++ [li₁ % 2048]).length % 2 = 0 := by
      simp only [length_append, length_singleton]
      omega
    have rest_ := ih (front ++ [UInt8.ofNat (128 + li₀ / 16 % 128), UInt8.ofNat (li₀ % 16 * 16 + e + li₁ / 256 % 8),
      UInt8.ofNat li₁]) (acc ++ [li₀ % 2048] ++ [li₁ % 2048]) even'
      (by simp only [length_cons] at room; exact le_of_succ_le_succ (le_of_succ_le_succ room))
    rw [← behind, length_append] at rest_
    rw [show (!(li₀ :: li₁ :: more).isEmpty) = true from rfl, readLi, if_pos even, first_, second, goes, value₀, readLi,
      if_neg odd, second, third, last, value₁]
    refine rest_.trans ?_
    rw [bytes, length_append, append_assoc, append_assoc, Nat.add_assoc]
    rfl

theorem readDataPduHeader_write {header : PduHeader} (data : header.dc = .dataPdu) (whole : header.rf = false)
    (fi : header.fi < 4) (few : header.li.length ≤ windowSize) (rest : List Byte) :
    readDataPduHeader (ofList (writeDataPduHeader header ++ rest)) =
      .ok ({ dc := .dataPdu, p := header.p, fi := header.fi, sn := header.sn % mod, li := header.li.map (· % 2048) },
        (writeDataPduHeader header).length) := by
  obtain ⟨b, byte⟩ : ∃ b, b = 128 + (if header.p then 32 else 0) + header.fi * 8 +
    (if header.li.isEmpty then 0 else 4) + header.sn / 256 % 4 := ⟨_, rfl⟩
  have written : writeDataPduHeader header = [UInt8.ofNat b, UInt8.ofNat header.sn] ++ liBytes header.li := by
    unfold writeDataPduHeader
    rw [data, whole, byte, mod_eq_of_lt fi]
    rfl
  have poll : (if header.p then 32 else 0) = 32 ∧ header.p = true ∨
      (if header.p then 32 else 0) = 0 ∧ header.p = false := by
    cases header.p <;> simp
  have ext : (if header.li.isEmpty then 0 else 4) = 4 ∧ (!header.li.isEmpty) = true ∨
      (if header.li.isEmpty then 0 else 4) = 0 ∧ (!header.li.isEmpty) = false := by
    cases header.li.isEmpty <;> simp
  have first_ : (ofList (writeDataPduHeader header ++ rest)).byte 0 = b := by
    rw [written]
    exact toNat_ofNat_byte (by omega)
  have second : (ofList (writeDataPduHeader header ++ rest)).byte 1 = header.sn % 256 := by
    exact toNat_ofNat'
  have plain : ¬ b / 64 % 2 = 1 := by omega
  have rf : decide (b / 64 % 2 = 1) = false := decide_eq_false plain
  have p : decide (b / 32 % 2 = 1) = header.p := by
    rcases poll with ⟨value, flag⟩ | ⟨value, flag⟩
    · rw [flag]
      exact decide_eq_true (by omega)
    · rw [flag]
      exact decide_eq_false (by omega)
  have goes : decide (b / 4 % 2 = 1) = !header.li.isEmpty := by
    rcases ext with ⟨value, flag⟩ | ⟨value, flag⟩
    · rw [flag]
      exact decide_eq_true (by omega)
    · rw [flag]
      exact decide_eq_false (by omega)
  have fiBits : b / 8 % 4 = header.fi := by omega
  have sn : b % 4 * 256 + header.sn % 256 = header.sn % mod := by
    unfold mod
    omega
  have chain := readLi_write [UInt8.ofNat b, UInt8.ofNat header.sn] rest header.li [] rfl few
  rw [← append_assoc, ← written] at chain
  change readLi _ _ 2 _ _ = _ at chain
  unfold readDataPduHeader
  rw [first_, if_neg (by omega)]
  simp only [if_neg plain]
  rw [rf, second, p, goes, fiBits, sn, chain, written, length_append]
  rfl

open Lib Adt

structure RxPdu where
  header : PduHeader := {}
  buf : ByteBuffer := {}
  deriving DecidableEq, Repr

/-- `rlc_am_lte_rx`. The STATUS PDU prohibit timer belongs to the sender. -/
structure Rx where
  vrR : Nat := 0
  vrMr : Nat := windowSize
  vrX : Nat := 0
  vrMs : Nat := 0
  vrH : Nat := 0
  rxWindow : CircularMap windowSize RxPdu := {}
  rxSegments : OrderedMap (List RxPdu) := []
  rxSdu : Option ByteBuffer := none
  pollReceived : Bool := false
  doStatus : Bool := false
  reorderingTimerRunning : Bool := false

def bufferTailroom : Nat := ({} : ByteBuffer).getTailroom

namespace ByteBuffer

def append (b : ByteBuffer) (bytes : List Byte) : ByteBuffer := { b with msg := b.msg ++ bytes }

def strip (b : ByteBuffer) (len : Nat) : ByteBuffer :=
  { headroom := b.headroom + len, msg := b.msg.drop len }

end ByteBuffer

/-- The loop over the length indicators: `rx_sdu` and the PDU's buffer afterwards and the SDUs that were
delivered. `rx_sdu` is `none` when the PDU is dropped. -/
def takeSdus (rxSdu buf : ByteBuffer) (sdus : List Sdu) : List Nat → Option ByteBuffer × ByteBuffer × List Sdu
  | [] => (some rxSdu, buf, sdus)
  | len :: li =>
    if len = 0 then (some rxSdu, buf, sdus)
    else if rxSdu.getTailroom < len || maxBufferSizeBytes ≤ buf.headroom + len || buf.nBytes < len then
      (none, buf, sdus)
    else takeSdus {} (ByteBuffer.strip buf len) (sdus ++ [rxSdu.msg ++ buf.msg.take len]) li

def RxPdu.reassemble (pdu : RxPdu) (rxSdu : ByteBuffer) : Option ByteBuffer × List Sdu :=
  match takeSdus rxSdu pdu.buf [] pdu.header.li with
  | (none, _, sdus) => (none, sdus)
  | (some rxSdu, buf, sdus) =>
    if rxSdu.getTailroom < buf.nBytes then (none, sdus)
    else if endAligned pdu.header.fi then (some {}, sdus ++ [rxSdu.msg ++ buf.msg])
    else (some (ByteBuffer.append rxSdu buf.msg), sdus)

def addSegment (segment : RxPdu) : List RxPdu → List RxPdu
  | [] => [segment]
  | s :: rest =>
    if s.header.so < segment.header.so then s :: addSegment segment rest
    else if s.header.so = segment.header.so then
      if s.buf.nBytes < segment.buf.nBytes then segment :: rest else s :: rest
    else segment :: s :: rest

def dropOverlapped (so : Nat) : List RxPdu → List RxPdu × Bool
  | [] => ([], true)
  | s :: rest =>
    if so < s.header.so then (s :: rest, false)
    else if s.header.so + s.buf.nBytes ≤ so then dropOverlapped so rest
    else
      let kept := dropOverlapped (max so (s.header.so + s.buf.nBytes)) rest
      (s :: kept.1, kept.2)

structure LiRebuild where
  li : List Nat := []
  nLi : Nat := 0
  count : Nat := 0
  carryover : Nat := 0
  consumedBytes : Nat := 0

namespace LiRebuild

def pushLi (r : LiRebuild) (value : Nat) : Except Fault LiRebuild :=
  if r.nLi < windowSize then
    .ok { r with
      li := if r.nLi < r.li.length then r.li.set r.nLi (u16 value) else r.li ++ [u16 value]
      nLi := r.nLi + 1 }
  else .error .undefinedBehaviour

def addLi (so : Nat) (li : List Nat) (r : LiRebuild) (i : Nat) : Except Fault LiRebuild :=
  let totalPduOffset := so + (li.take (i + 1)).sum
  if r.li.getD i 0 < totalPduOffset && r.consumedBytes < totalPduOffset then do
    let r ← r.pushLi (totalPduOffset - r.consumedBytes)
    .ok { r with
      consumedBytes := u16 totalPduOffset
      count := u16 (r.count + li.getD i 0)
      carryover := 0 }
  else .ok r

def carry (r : LiRebuild) (so nBytes : Nat) : Except Fault LiRebuild :=
  if r.count ≤ nBytes then
    .ok { r with
      carryover := (r.li.take r.nLi).foldl (fun carryover li => u16 (carryover + 65536 - li)) (u16 (so + nBytes)) }
  else if r.nLi = 0 then .error .undefinedBehaviour
  else
    .ok { r with
      nLi := r.nLi - 1
      carryover := u16 (nBytes + 65536 + r.li.getD (r.nLi - 1) 0 - r.count) }

def addSegment (r : LiRebuild) (s : RxPdu) (last : Bool) : Except Fault LiRebuild := do
  let r ← (range s.header.li.length).foldlM (addLi s.header.so s.header.li) r
  let r ← r.carry s.header.so s.buf.nBytes
  if endAligned s.header.fi && !last then do
    let pushed ← r.pushLi r.carryover
    .ok { pushed with consumedBytes := u16 (r.consumedBytes + r.carryover), carryover := 0, count := 0 }
  else .ok { r with count := 0 }

def addSegments (r : LiRebuild) : List RxPdu → Except Fault LiRebuild
  | [] => .ok r
  | s :: rest => do
    let r ← r.addSegment s rest.isEmpty
    r.addSegments rest

end LiRebuild

def rebuildHeader (front back : RxPdu) (segments : List RxPdu) : Except Fault PduHeader := do
  let r ← LiRebuild.addSegments {} segments
  .ok
    { dc := .dataPdu
      p := segments.any fun s => s.header.p
      fi := (front.header.fi &&& 2) ||| (back.header.fi &&& 1)
      sn := front.header.sn
      li := r.li.take r.nLi }

def joinSegments (full : List Byte) : List RxPdu → Except Fault (List Byte)
  | [] => .ok full
  | s :: rest =>
    if full.length < s.header.so + s.buf.nBytes then
      let data := s.buf.msg.drop (full.length - s.header.so)
      if full.length < s.header.so || bufferTailroom < (full ++ data).length then .error .undefinedBehaviour
      else joinSegments (full ++ data) rest
    else joinSegments full rest

namespace Rx

def rxModBase (rx : Rx) (sn : Nat) : Nat := u32Sub sn rx.vrR % mod

def insideRxWindow (rx : Rx) (sn : Nat) : Bool :=
  rx.rxModBase rx.vrR ≤ rx.rxModBase sn && rx.rxModBase sn < rx.rxModBase rx.vrMr

def firstMissing (rx : Rx) : Nat → Nat → Nat
  | 0, sn => sn
  | fuel + 1, sn => if rx.rxWindow.contains sn then rx.firstMissing fuel ((sn + 1) % mod) else sn

def poll (rx : Rx) (header : PduHeader) : Rx :=
  if header.p then
    { rx with
      pollReceived := true
      doStatus := rx.doStatus || rx.rxModBase header.sn < rx.rxModBase rx.vrMs ||
        rx.rxModBase rx.vrMr ≤ rx.rxModBase header.sn }
  else rx

def raiseHighest (rx : Rx) (sn : Nat) : Rx :=
  if rx.rxModBase rx.vrH ≤ rx.rxModBase sn then { rx with vrH := (sn + 1) % mod } else rx

/-- Takes the PDU at `VR(R)` out of the window; its segments are cleared, not their list. -/
def passVrR (rx : Rx) : Rx :=
  { rx with
    rxSegments :=
      if rx.rxSegments.contains rx.vrR then rx.rxSegments.insertOrAssign rx.vrR [] else rx.rxSegments
    rxWindow := rx.rxWindow.erase rx.vrR
    vrR := (rx.vrR + 1) % mod
    vrMr := (rx.vrMr + 1) % mod }

def reassembleLoop (rx : Rx) (sdus : List Sdu) : Nat → Except Fault (Rx × List Sdu)
  | 0 => .ok (rx, sdus)
  | fuel + 1 =>
    match rx.rxWindow.find rx.vrR with
    | none => .ok (rx, sdus)
    | some pdu =>
      match rx.rxSdu with
      -- the null `rx_sdu` behind a PDU that was dropped
      | none => .error .undefinedBehaviour
      | some rxSdu =>
        let taken := pdu.reassemble rxSdu
        reassembleLoop { rx with rxSdu := taken.1 }.passVrR (sdus ++ taken.2) fuel

def reassembleRxSdus (rx : Rx) : Except Fault (Rx × List Sdu) :=
  { rx with rxSdu := some (rx.rxSdu.getD {}) }.reassembleLoop [] mod

def updateReorderingTimer (rx : Rx) : Rx :=
  let running := rx.reorderingTimerRunning &&
    !(rx.vrX = rx.vrR || !rx.insideRxWindow rx.vrX && rx.vrX ≠ rx.vrMr)
  if !running && rx.rxModBase rx.vrR < rx.rxModBase rx.vrH then
    { rx with reorderingTimerRunning := true, vrX := rx.vrH }
  else { rx with reorderingTimerRunning := running }

def discard (rx : Rx) (header : PduHeader) : Rx := { rx with doStatus := rx.doStatus || header.p }

def handleDataPduFull (rx : Rx) (payload : List Byte) (header : PduHeader) : Except Fault (Rx × List Sdu) :=
  if payload.length < header.li.sum then .ok (rx, [])
  else if !rx.insideRxWindow header.sn || rx.rxWindow.contains header.sn then .ok (rx.discard header, [])
  else if bufferTailroom < payload.length then
    .ok ({ rx with rxWindow := rx.rxWindow.overwrite header.sn {} }, [])
  else do
    let rx := { rx with rxWindow := rx.rxWindow.overwrite header.sn ⟨header, { msg := payload }⟩ }
    let rx := rx.raiseHighest header.sn
    let rx := { rx with vrMs := rx.firstMissing mod rx.vrMs }
    let (rx, sdus) ← (rx.poll header).reassembleRxSdus
    .ok (rx.updateReorderingTimer, sdus)

def addSegmentAndCheck (rx : Rx) (sn : Nat) (segments : List RxPdu) (segment : RxPdu) :
    Except Fault (Rx × List Sdu × Bool) :=
  let (segments, gapless) := dropOverlapped 0 (addSegment segment segments)
  let stored := { rx with rxSegments := rx.rxSegments.insertOrAssign sn segments }
  if !gapless then .ok (stored, [], false)
  else
    match segments.head?, segments.getLast? with
    | some front, some back =>
      if !back.header.lsf then .ok (stored, [], false)
      else do
        let header ← rebuildHeader front back segments
        let full ← joinSegments [] segments
        let (rx, sdus) ← stored.handleDataPduFull full header
        .ok (rx, sdus, true)
    | _, _ => .error .undefinedBehaviour

def handleDataPduSegment (rx : Rx) (payload : List Byte) (header : PduHeader) :
    Except Fault (Rx × List Sdu) :=
  if !rx.insideRxWindow header.sn then .ok (rx.discard header, [])
  else if bufferTailroom < payload.length then .ok (rx, [])
  else
    let segment : RxPdu := ⟨header, { msg := payload }⟩
    match rx.rxSegments.find header.sn with
    | some segments => do
      let (rx, sdus, complete) ← (rx.discard header).addSegmentAndCheck header.sn segments segment
      if complete then .ok ({ rx with rxSegments := rx.rxSegments.erase header.sn }, sdus) else .ok (rx, sdus)
    | none =>
      let rx := { rx with rxSegments := rx.rxSegments.insertOrAssign header.sn [segment] }
      .ok ((rx.raiseHighest header.sn).poll header, [])

def handleDataPdu (rx : Rx) (payload : Memory) (nofBytes : Nat) : Except Fault (Rx × List Sdu) := do
  let (header, headLen) ← readDataPduHeader payload
  if nofBytes < headLen then .ok (rx, [])
  else
    let data := payload.slice headLen (nofBytes - headLen)
    if header.rf then rx.handleDataPduSegment data header else rx.handleDataPduFull data header

def writePdu (rx : Rx) (payload : Memory) (nofBytes : Nat) : Except Fault (Rx × List Sdu) :=
  if nofBytes < 1 || isControlPdu payload then .ok (rx, []) else rx.handleDataPdu payload nofBytes

def timerExpired (rx : Rx) : Rx :=
  let rx := { rx with reorderingTimerRunning := false, vrMs := rx.vrX }
  let rx := { rx with vrMs := rx.firstMissing mod rx.vrMs }
  let rx := { rx with doStatus := rx.doStatus || rx.pollReceived }
  if rx.rxModBase rx.vrMs < rx.rxModBase rx.vrH then
    { rx with reorderingTimerRunning := true, vrX := rx.vrH }
  else rx

def resetStatus (rx : Rx) : Rx := { rx with doStatus := false, pollReceived := false }

/-- The loop of `get_status_pdu` from `i` on, with the report so far. `none` is the return of 0 that
leaves the status flags alone. -/
def statusLoop (rx : Rx) (maxPduSize : Nat) : Nat → Nat → StatusPdu → Option StatusPdu
  | 0, _, status => some status
  | fuel + 1, i, status =>
    if rx.rxModBase i ≤ rx.rxModBase rx.vrMs && status.nacks.length < windowSize then
      let status :=
        if rx.rxWindow.contains i || i = rx.vrMs then { status with ackSn := i }
        else { status with nacks := status.nacks ++ [{ nackSn := i }] }
      if maxPduSize < status.packedLength then
        if 1 ≤ status.nacks.length && status.nacks.length < windowSize then
          let status := { status with nacks := status.nacks.dropLast }
          if status.isValid rx.vrR then some status else some { ackSn := rx.vrR }
        else none
      else rx.statusLoop maxPduSize fuel ((i + 1) % mod) status
    else some status

def getStatusPdu (rx : Rx) (maxPduSize : Nat) : Rx × StatusPdu × Nat :=
  match rx.statusLoop maxPduSize (mod + 1) rx.vrR { ackSn := rx.vrR } with
  | none => (rx, {}, 0)
  | some status => (rx.resetStatus, status, status.packedLength)

def stop (_ : Rx) : Rx := {}

end Rx

end IsrRan.Rlc.AmLte
