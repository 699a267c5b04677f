import IsrRan.Mac.SchPduNr

namespace IsrRan.Mac.Nr
open List Memory Lcid SubPdu

def AddCall.subPdu (ulsch : Bool) : AddCall → SubPdu
  | .sdu lcid payload len => .setSdu ulsch lcid payload len
  | .crntiCe crnti => .setCRnti ulsch crnti
  | .sePhrCe phr pcmax => .setSePhr ulsch phr pcmax
  | .sbsrCe lcgId bufferSize => .setSbsr ulsch lcgId bufferSize
  | .ueConResIdCe id => .setUeConResIdCe ulsch id

structure Content where
  lcid : Nat
  sduLength : Int
  payload : List Byte
  deriving DecidableEq, Repr

namespace SubPdu

def payload (p : SubPdu) : List Byte :=
  match p.sdu with
  | some payload => payload.slice 0 p.sduLength.toNat
  | none => List.replicate p.sduLength.toNat 0

def content (p : SubPdu) : Content := ⟨p.lcid, p.sduLength, p.payload⟩

structure ReadsBack (ulsch : Bool) (p : SubPdu) : Prop where
  lcid : p.lcid < Lcid.padding
  valid : isValidLcid ulsch p.lcid = true
  length : 0 ≤ p.sduLength ∧ p.sduLength < 65536
  header : if hasLengthField ulsch p.lcid then
      p.headerLength = (if p.fBit then 3 else 2) ∧ (p.fBit = false → p.sduLength < 256)
    else p.headerLength = 1 ∧ p.sduLength = sizeofCe ulsch p.lcid ∧ p.fBit = false

end SubPdu

theorem slice_behind (front data rest : List Byte) :
    slice (fun i => ofList (front ++ (data ++ rest)) (front.length + i)) 0 data.length = data := by
  apply ext_getElem
  · simp
  · intro i h _
    have bound : i < data.length := by simpa using h
    simp [slice, ofList_behind, List.getElem?_append_left bound, List.getElem?_eq_getElem bound]

namespace SubPdu

variable {ulsch : Bool} {p : SubPdu}

theorem payload_length (p : SubPdu) : p.payload.length = p.sduLength.toNat := by
  unfold payload
  split <;> simp

theorem ReadsBack.firstByte (reads : p.ReadsBack ulsch) :
    (UInt8.ofNat ((if p.fBit then 64 else 0) + p.lcid % 64)).toNat = (if p.fBit then 64 else 0) + p.lcid := by
  have := reads.lcid
  unfold Lcid.padding at this
  rw [toNat_ofNat_byte] <;> split <;> omega

theorem readSubheader_bytes (reads : p.ReadsBack ulsch) (front rest : List Byte) :
    ∃ q, readSubheader ulsch (ofList (front ++ (p.header ++ p.payload ++ rest))) front.length = some q ∧
      q.content = p.content ∧ q.headerLength = p.headerLength := by
  obtain ⟨lcidBound, valid, ⟨pos, short⟩, header⟩ := reads
  have first := ReadsBack.firstByte ⟨lcidBound, valid, ⟨pos, short⟩, header⟩
  unfold Lcid.padding at lcidBound
  generalize mem : ofList (front ++ (p.header ++ p.payload ++ rest)) = memory
  have byteAt : ∀ i, memory.byte (front.length + i) = ((p.header ++ p.payload ++ rest).getD i 0).toNat := by
    intro i
    rw [← mem, Memory.byte, ofList_behind]
  have byte0 : memory.byte front.length = (if p.fBit then 64 else 0) + p.lcid := by
    rw [← first]
    exact byteAt 0
  have lcid : memory.byte front.length % 64 = p.lcid := by
    rw [byte0]
    split <;> omega
  have fBit : (memory.byte front.length / 64 % 2 = 1) ↔ p.fBit = true := by
    rw [byte0]
    cases p.fBit <;> simp <;> omega
  have content : ∀ n, p.header.length = n → slice (fun i => memory (front.length + n + i)) 0
      p.sduLength.toNat = p.payload := by
    intro n length
    have behind := slice_behind (front ++ p.header) p.payload rest
    rw [payload_length, length_append, length] at behind
    rw [← mem]
    simpa using behind
  unfold readSubheader
  simp only [lcid, valid, fBit, if_true]
  by_cases hasLength : hasLengthField ulsch p.lcid = true
  · rw [if_pos hasLength] at header ⊢
    obtain ⟨headerLength, oneByte⟩ := header
    cases flag : p.fBit with
    | true =>
      rw [flag, if_pos rfl] at headerLength
      have bytes : p.header = [UInt8.ofNat ((if p.fBit then 64 else 0) + p.lcid % 64),
          UInt8.ofNat (p.sduLength / 256 % 256).toNat, UInt8.ofNat (p.sduLength % 256).toNat] := by
        simp only [SubPdu.header, headerLength]
      have byte1 := byteAt 1
      have byte2 := byteAt 2
      rw [bytes] at byte1 byte2
      simp only [cons_append, getD_cons_succ, getD_cons_zero] at byte1 byte2
      rw [toNat_ofNat_byte (by omega)] at byte1 byte2
      refine ⟨_, if_pos rfl, ?_, headerLength.symm⟩
      have length : ((memory.byte (front.length + 1) * 256 + memory.byte (front.length + 2) : Nat) : Int) =
          p.sduLength := by
        omega
      simp only [SubPdu.content, SubPdu.payload, length, content 3 (by rw [bytes]; rfl)]
    | false =>
      rw [flag] at headerLength
      have small := oneByte flag
      have bytes : p.header = [UInt8.ofNat ((if p.fBit then 64 else 0) + p.lcid % 64),
          UInt8.ofNat (p.sduLength % 256).toNat] := by
        simp only [SubPdu.header, headerLength]
        rfl
      have byte1 := byteAt 1
      rw [bytes] at byte1
      simp only [cons_append, getD_cons_succ, getD_cons_zero] at byte1
      rw [toNat_ofNat_byte (by omega)] at byte1
      refine ⟨_, if_neg (by simp), ?_, headerLength.symm⟩
      have length : ((memory.byte (front.length + 1) : Nat) : Int) = p.sduLength := by
        omega
      simp only [SubPdu.content, SubPdu.payload, length, content 2 (by rw [bytes]; rfl)]
  · rw [if_neg hasLength] at header ⊢
    obtain ⟨headerLength, length, flag⟩ := header
    have bytes : p.header = [UInt8.ofNat ((if p.fBit then 64 else 0) + p.lcid % 64)] := by
      simp only [SubPdu.header, headerLength]
    refine ⟨_, rfl, ?_, headerLength.symm⟩
    simp only [SubPdu.content, SubPdu.payload, ← length, content 1 (by rw [bytes]; rfl)]

def bytes (p : SubPdu) : List Byte := p.header ++ p.payload

structure Sized (p : SubPdu) : Prop where
  header : p.header.length = p.headerLength
  length : 0 ≤ p.sduLength ∧ p.sduLength < 65536

theorem header_length (short : p.headerLength = 1 ∨ p.headerLength = 2 ∨ p.headerLength = 3) :
    p.header.length = p.headerLength := by
  rcases short with length | length | length <;> simp [header, length]

theorem Sized.bytes_length (sized : p.Sized) : p.bytes.length = p.getTotalLength := by
  obtain ⟨header, pos, short⟩ := sized
  have : p.header.length ≤ 3 := by
    simp only [SubPdu.header, length_cons]
    split <;> simp
  simp only [bytes, length_append, payload_length, getTotalLength]
  omega

theorem bytes_pos (p : SubPdu) : 1 ≤ p.bytes.length := by
  simp only [bytes, header, cons_append, length_cons]
  omega

theorem ReadsBack.sized (reads : p.ReadsBack ulsch) : p.Sized := by
  refine ⟨header_length ?_, reads.length⟩
  have header := reads.header
  split at header
  · rw [header.1]
    split <;> simp
  · exact .inl header.1

end SubPdu

section
variable {ulsch : Bool} {mem : Memory} {len rounds offset : Nat} {acc : List SubPdu} {p : SubPdu}

theorem unpackFrom_next (more : offset < len) (read : SubPdu.readSubheader ulsch mem offset = some p)
    (notPadding : p.lcid ≠ Lcid.padding) : unpackFrom ulsch mem len (rounds + 1) offset acc =
      unpackFrom ulsch mem len rounds ((offset + p.getTotalLength) % 4294967296) (acc ++ [p]) := by
  conv_lhs => unfold unpackFrom
  simp only [if_pos more, read, if_neg notPadding]

theorem unpackFrom_end (done : ¬ offset < len) :
    unpackFrom ulsch mem len rounds offset acc = some (decide (offset = len), acc) := by
  unfold unpackFrom
  rw [if_neg done]

theorem unpackFrom_padding (more : offset < len) (read : SubPdu.readSubheader ulsch mem offset = some p)
    (padding : p.lcid = Lcid.padding) : unpackFrom ulsch mem len (rounds + 1) offset acc = some (true,
      acc ++ [p.setPadding (u32Sub len ((offset + p.getTotalLength) % 4294967296) + 1)]) := by
  conv_lhs => unfold unpackFrom
  simp only [if_pos more, read, if_pos padding]
  rw [unpackFrom_end (Nat.lt_irrefl len)]
  simp

end

theorem unpackFrom_subPdus {ulsch : Bool} {subpdus : List SubPdu} (reads : ∀ p ∈ subpdus, p.ReadsBack ulsch)
    (front tail : List Byte) (len rounds : Nat) (acc : List SubPdu)
    (inside : front.length + (subpdus.flatMap SubPdu.bytes).length ≤ len) (small : len < 4294967296)
    (enough : subpdus.length ≤ rounds) : ∃ read : List SubPdu, read.map SubPdu.content = subpdus.map SubPdu.content ∧
      unpackFrom ulsch (ofList (front ++ (subpdus.flatMap SubPdu.bytes ++ tail))) len rounds front.length acc =
        unpackFrom ulsch (ofList (front ++ (subpdus.flatMap SubPdu.bytes ++ tail))) len
          (rounds - subpdus.length) (front.length + (subpdus.flatMap SubPdu.bytes).length) (acc ++ read) := by
  induction subpdus generalizing front rounds acc with
  | nil => exact ⟨[], rfl, by simp⟩
  | cons p subpdus ih =>
    obtain ⟨rounds, rfl⟩ : ∃ n, rounds = n + 1 := ⟨rounds - 1, by simp at enough; omega⟩
    have first := reads p (by simp)
    obtain ⟨q, read, content, header⟩ := readSubheader_bytes first front
      (subpdus.flatMap SubPdu.bytes ++ tail)
    have lcid : q.lcid = p.lcid := congrArg Content.lcid content
    have sduLength : q.sduLength = p.sduLength := congrArg Content.sduLength content
    have total : q.getTotalLength = p.bytes.length := by
      rw [first.sized.bytes_length, SubPdu.getTotalLength, SubPdu.getTotalLength, sduLength, header]
    have pos := p.bytes_pos
    rw [flatMap_cons, length_append] at inside
    obtain ⟨others, contents, run⟩ := ih (fun p mem => reads p (by simp [mem])) (front ++ p.bytes) rounds
      (acc ++ [q]) (by rw [length_append]; omega) (Nat.le_of_succ_le_succ enough)
    have notPadding : q.lcid ≠ Lcid.padding := by
      have := first.lcid
      omega
    refine ⟨q :: others, by simp [content, contents], ?_⟩
    have next : (front.length + q.getTotalLength) % 4294967296 = (front ++ p.bytes).length := by
      rw [length_append]
      omega
    have same : front ++ ((p :: subpdus).flatMap SubPdu.bytes ++ tail) =
        front ++ (p.header ++ p.payload ++ (subpdus.flatMap SubPdu.bytes ++ tail)) := by
      simp [SubPdu.bytes]
    have same' : front ++ ((p :: subpdus).flatMap SubPdu.bytes ++ tail) =
        (front ++ p.bytes) ++ (subpdus.flatMap SubPdu.bytes ++ tail) := by simp
    rw [← same] at read
    rw [← same'] at run
    rw [unpackFrom_next (by omega) read notPadding, next, run]
    congr 1
    · simp
    · simp [Nat.add_assoc]
    · simp

def paddingBytes : Nat → List Byte
  | 0 => []
  | n + 1 => 63 :: List.replicate n 0

@[simp] theorem paddingBytes_length (n : Nat) : (paddingBytes n).length = n := by
  cases n <;> simp [paddingBytes]

theorem readSubheader_padding (ulsch : Bool) (front rest : List Byte) (n : Nat) :
    ∃ q, q.lcid = Lcid.padding ∧
      SubPdu.readSubheader ulsch (ofList (front ++ (paddingBytes (n + 1) ++ rest))) front.length = some q := by
  have byte : (ofList (front ++ (paddingBytes (n + 1) ++ rest))).byte front.length = 63 :=
    congrArg UInt8.toNat (ofList_behind front (paddingBytes (n + 1) ++ rest) 0)
  unfold SubPdu.readSubheader
  simp only [byte]
  cases ulsch <;> exact ⟨_, rfl, rfl⟩

/-- The bytes are taken for subPDUs with these contents and at most one that is padding, whatever lies behind them. -/
def ReadsAs (ulsch : Bool) (pdu : List Byte) (contents : List Content) : Prop :=
  ∀ rest rounds, pdu.length ≤ rounds → ∃ read padding,
    unpack ulsch (ofList (pdu ++ rest)) pdu.length rounds = some (true, read) ∧
      read.map SubPdu.content = contents ++ padding ∧ padding.length ≤ 1 ∧ ∀ c ∈ padding, c.lcid = Lcid.padding

theorem length_le_flatMap_bytes (subpdus : List SubPdu) :
    subpdus.length ≤ (subpdus.flatMap SubPdu.bytes).length := by
  induction subpdus with
  | nil => simp
  | cons p subpdus ih =>
    have := p.bytes_pos
    rw [flatMap_cons, length_append, length_cons]
    omega

theorem readsAs_of_readsBack {ulsch : Bool} {subpdus : List SubPdu} (reads : ∀ p ∈ subpdus, p.ReadsBack ulsch)
    (n : Nat) (small : (subpdus.flatMap SubPdu.bytes).length + n < 4294967296) :
    ReadsAs ulsch (subpdus.flatMap SubPdu.bytes ++ paddingBytes n) (subpdus.map SubPdu.content) := by
  intro rest rounds enough
  have count := length_le_flatMap_bytes subpdus
  rw [length_append, paddingBytes_length] at enough ⊢
  generalize len : (subpdus.flatMap SubPdu.bytes).length + n = total at enough small ⊢
  obtain ⟨read, contents, run⟩ := unpackFrom_subPdus reads [] (paddingBytes n ++ rest) total
    rounds [] (by simp only [length_nil]; omega) small (by omega)
  simp only [nil_append, length_nil, Nat.zero_add] at run
  simp only [unpack, append_assoc, run]
  cases n with
  | zero =>
    refine ⟨read, [], ?_, by simp [contents], by simp, by simp⟩
    rw [unpackFrom_end (by omega)]
    simp only [← len, Nat.add_zero, decide_true]
  | succ n =>
    obtain ⟨left, more⟩ : ∃ left, rounds - subpdus.length = left + 1 := ⟨rounds - subpdus.length - 1, by omega⟩
    obtain ⟨q, lcid, header⟩ := readSubheader_padding ulsch (subpdus.flatMap SubPdu.bytes) rest n
    rw [more, unpackFrom_padding (by omega) header lcid]
    refine ⟨_, [_], rfl, by rw [map_append, contents]; rfl, by simp, ?_⟩
    simp [SubPdu.content, SubPdu.setPadding]

theorem sizeofCe_lt (ulsch : Bool) (lcid : Nat) : sizeofCe ulsch lcid < 256 := by
  unfold sizeofCe
  repeat' split
  all_goals decide

namespace AddCall

/-- The LCID is one of an SDU, its length and header fit in 32 bits, and the UL CCCH has SDUs of 6 or 8 bytes. -/
def InDomain (ulsch : Bool) : AddCall → Prop
  | .sdu lcid _ len => lcid ≤ 32 ∧ len + 3 < 4294967296 ∧ (ulsch = true → lcid = ccchSize64 → len = 6 ∨ len = 8)
  | _ => True

/-- No SDU of 6 bytes on the DL CCCH, and no CE that belongs to the other direction and has other sizes there. -/
def Faithful (ulsch : Bool) : AddCall → Prop
  | .sdu lcid _ len => ulsch = false → ¬ (lcid = ccchSize64 ∧ len = 6)
  | .crntiCe _ | .sePhrCe _ _ => ulsch = true
  | .ueConResIdCe _ => ulsch = false
  | .sbsrCe _ _ => True

/-- What the call asks for: an SDU as it is given, of 6 bytes on the UL CCCH under the LCID for that size, or the
element with the bytes that its standard gives it. -/
def content (ulsch : Bool) : AddCall → Content
  | .sdu lcid payload len =>
    ⟨if ulsch = true ∧ lcid = ccchSize64 ∧ len = 6 then ccchSize48 else lcid, len, payload.slice 0 len⟩
  | .crntiCe crnti => ⟨Lcid.crnti, 2, [UInt8.ofNat (crnti / 256), UInt8.ofNat crnti]⟩
  | .sePhrCe phr pcmax => ⟨sePhr, 2, [UInt8.ofNat (phr.toNat % 64), UInt8.ofNat (pcmax.toNat % 64)]⟩
  | .sbsrCe lcgId bufferSize =>
    ⟨Lcid.shortBsr, 1, [UInt8.ofNat (lcgId.toNat % 8 * 32 + bufferSize.toNat % 32)]⟩
  | .ueConResIdCe id => ⟨Lcid.conResId, 6, List.ofFn id⟩

variable {ulsch : Bool}

theorem headerLength_short (c : AddCall) : (c.subPdu ulsch).headerLength = 1 ∨
    (c.subPdu ulsch).headerLength = 2 ∨ (c.subPdu ulsch).headerLength = 3 := by
  cases c with
  | sdu lcid payload len =>
    simp only [subPdu, SubPdu.setSdu, SubPdu.setLength]
    split <;> split <;> simp
  | crntiCe | sePhrCe | sbsrCe | ueConResIdCe => exact .inl rfl

theorem setCe_readsBack {lcid : Nat} (storage : List Byte) (small : lcid < Lcid.padding)
    (valid : isValidLcid ulsch lcid = true) (fixed : hasLengthField ulsch lcid = false)
    (size : sizeofCe ulsch lcid < 65536) : (SubPdu.setCe ulsch lcid storage).ReadsBack ulsch := by
  refine ⟨small, valid, ⟨Int.natCast_nonneg _, by simp only [SubPdu.setCe]; omega⟩, ?_⟩
  rw [if_neg (by simp [SubPdu.setCe, fixed])]
  exact ⟨rfl, rfl, rfl⟩

theorem setLength_readsBack {lcid : Nat} {sduLength : Int} (payload : Memory) (small : lcid < Lcid.padding)
    (valid : isValidLcid ulsch lcid = true) (field : hasLengthField ulsch lcid = true)
    (length : 0 ≤ sduLength ∧ sduLength < 65536) : (SubPdu.setLength lcid 2 sduLength payload).ReadsBack ulsch := by
  unfold SubPdu.setLength macSubheaderLenThreshold
  split
  · refine ⟨small, valid, length, ?_⟩
    rw [if_pos field]
    exact ⟨rfl, by simp⟩
  · refine ⟨small, valid, length, ?_⟩
    rw [if_pos field]
    exact ⟨rfl, fun _ => by dsimp only; omega⟩

theorem setLength_readsBack_fixed {lcid : Nat} (payload : Memory) (small : lcid < Lcid.padding)
    (valid : isValidLcid ulsch lcid = true) (fixed : hasLengthField ulsch lcid = false)
    (size : sizeofCe ulsch lcid < 256) :
    (SubPdu.setLength lcid 1 (sizeofCe ulsch lcid : Nat) payload).ReadsBack ulsch := by
  unfold SubPdu.setLength macSubheaderLenThreshold
  rw [if_neg (by omega)]
  refine ⟨small, valid, ⟨Int.natCast_nonneg _, by dsimp only; omega⟩, ?_⟩
  rw [if_neg (by simp [fixed])]
  exact ⟨rfl, rfl, rfl⟩

theorem setSdu_readsBack {lcid len : Nat} {payload : Memory} (domain : (AddCall.sdu lcid payload len).InDomain ulsch)
    (faithful : (AddCall.sdu lcid payload len).Faithful ulsch)
    (length : 0 ≤ (SubPdu.setSdu ulsch lcid payload len).sduLength ∧
      (SubPdu.setSdu ulsch lcid payload len).sduLength < 65536) :
    (SubPdu.setSdu ulsch lcid payload len).ReadsBack ulsch := by
  obtain ⟨lcidBound, _, _⟩ := domain
  revert length
  unfold SubPdu.setSdu
  dsimp only
  cases ccch : isUlCcch ulsch (sduLcid lcid len) with
  | true =>
    intro _
    rw [if_pos rfl]
    simp only [isUlCcch, Bool.and_eq_true, Bool.or_eq_true, beq_iff_eq] at ccch
    obtain ⟨rfl, is48 | is64⟩ := ccch
    · rw [is48]
      exact setLength_readsBack_fixed payload (by decide) (by decide) (by decide) (by decide)
    · rw [is64]
      exact setLength_readsBack_fixed payload (by decide) (by decide) (by decide) (by decide)
  | false =>
    have same : sduLcid lcid len = lcid := by
      refine if_neg fun short => ?_
      cases ulsch with
      | false => exact faithful rfl short
      | true => simp [sduLcid, short, isUlCcch] at ccch
    rw [same] at ccch ⊢
    rw [if_neg (by simp)]
    intro length
    have field : hasLengthField ulsch lcid = true := by
      simp [hasLengthField, ccch, isSdu, lcidBound]
    have valid : isValidLcid ulsch lcid = true := by
      simp [isValidLcid]
      omega
    have small : lcid < Lcid.padding := by
      unfold Lcid.padding
      omega
    refine setLength_readsBack payload small valid field ?_
    unfold SubPdu.setLength at length
    split at length <;> exact length

theorem readsBack {c : AddCall} (domain : c.InDomain ulsch) (faithful : c.Faithful ulsch)
    (sized : (c.subPdu ulsch).Sized) : (c.subPdu ulsch).ReadsBack ulsch := by
  cases c with
  | sdu lcid payload len => exact setSdu_readsBack domain faithful sized.length
  | crntiCe | sePhrCe =>
    obtain rfl : ulsch = true := faithful
    exact setCe_readsBack _ (by decide) (by decide) (by decide) (by decide)
  | sbsrCe => cases ulsch <;> exact setCe_readsBack _ (by decide) (by decide) (by decide) (by decide)
  | ueConResIdCe id =>
    obtain rfl : ulsch = false := faithful
    exact setCe_readsBack _ (by decide) (by decide) (by decide) (by decide)

theorem setLength_content (lcid headerLength : Nat) (sduLength : Int) (payload : Memory) :
    (SubPdu.setLength lcid headerLength sduLength payload).content =
      ⟨lcid, sduLength, payload.slice 0 sduLength.toNat⟩ := by
  unfold SubPdu.setLength
  split <;> rfl

theorem subPdu_content {c : AddCall} (domain : c.InDomain ulsch) (sized : (c.subPdu ulsch).Sized)
    (faithful : c.Faithful ulsch) : (c.subPdu ulsch).content = c.content ulsch := by
  cases c with
  | crntiCe | sePhrCe =>
    obtain rfl : ulsch = true := faithful
    rfl
  | sbsrCe => cases ulsch <;> rfl
  | ueConResIdCe id =>
    obtain rfl : ulsch = false := faithful
    simp [subPdu, SubPdu.setUeConResIdCe, SubPdu.setCe, SubPdu.content, SubPdu.payload, content, sizeofCe,
      Lcid.conResId, slice, ofList, range_succ]
  | sdu lcid payload len =>
    obtain ⟨lcidBound, noWrap, ccchLen⟩ := domain
    have length := sized.length
    simp only [subPdu, SubPdu.setSdu] at length ⊢
    have same : sduLcid lcid len =
        if ulsch = true ∧ lcid = ccchSize64 ∧ len = 6 then ccchSize48 else lcid := by
      refine if_congr ?_ rfl rfl
      constructor
      · intro short
        cases ulsch with
        | true => exact ⟨rfl, short⟩
        | false => exact absurd short (faithful rfl)
      · exact fun short => short.2
    split at length
    · rename_i ccch
      rw [if_pos ccch, setLength_content]
      simp only [isUlCcch, Bool.and_eq_true, Bool.or_eq_true, beq_iff_eq] at ccch
      obtain rfl := ccch.1
      have size : sizeofCe true (sduLcid lcid len) = len := by
        by_cases short : lcid = ccchSize64 ∧ len = 6
        · obtain ⟨rfl, rfl⟩ := short
          decide
        · have kept : sduLcid lcid len = lcid := if_neg short
          rw [kept] at ccch ⊢
          have is64 : lcid = ccchSize64 := ccch.2.resolve_left (by unfold ccchSize48; omega)
          have eight : len = 8 := (ccchLen rfl is64).resolve_left fun six => short ⟨is64, six⟩
          rw [is64, eight]
          decide
      rw [size, same]
      rfl
    · rename_i notCcch
      rw [if_neg notCcch, setLength_content, same]
      have exact_ : i32 len = len := by
        have lengthEq : (SubPdu.setLength (sduLcid lcid len) 2 (i32 len) payload).sduLength = i32 len :=
          congrArg Content.sduLength (setLength_content _ _ _ _)
        rw [lengthEq] at length
        unfold i32 at length ⊢
        split at length <;> omega
      rw [exact_]
      rfl

end AddCall

namespace SchPduTx

theorem append_spec {pdu pdu' : SchPduTx} {p : SubPdu} (ok : pdu.append p = .ok pdu') :
    0 ≤ p.sduLength ∧ p.bytes.length ≤ pdu.buffer.getTailroom ∧ pdu' = { pdu with
      buffer := { pdu.buffer with msg := pdu.buffer.msg ++ p.bytes }
      remainingLen := pdu.remainingLen - p.getTotalLength
      subpdus := pdu.subpdus ++ [p] } := by
  obtain ⟨bytes, written, ok⟩ := bind_eq_ok.mp ok
  unfold writeSubpdu at written
  split at written
  · contradiction
  · rename_i pos
    obtain rfl : p.bytes = bytes := Except.ok.inj written
    split at ok
    · contradiction
    · rename_i room
      exact ⟨by omega, by omega, (Except.ok.inj ok).symm⟩

theorem append_ok {pdu : SchPduTx} {p : SubPdu} (pos : 0 ≤ p.sduLength)
    (room : p.bytes.length ≤ pdu.buffer.getTailroom) : ∃ pdu', pdu.append p = .ok pdu' := by
  have written : p.writeSubpdu = .ok p.bytes := if_neg (by omega)
  exact ⟨_, bind_eq_ok.mpr ⟨_, written, if_neg (by omega)⟩⟩

theorem add_spec {pdu pdu' : SchPduTx} {c : AddCall} {success : Bool} (ok : pdu.add c = .ok (pdu', success)) :
    success = false ∧ pdu' = pdu ∨
      success = true ∧ (c.subPdu pdu.ulsch).getTotalLength ≤ pdu.remainingLen ∧
        pdu.append (c.subPdu pdu.ulsch) = .ok pdu' := by
  have sub : ∀ p, pdu.addSudpdu p = .ok (pdu', success) → success = false ∧ pdu' = pdu ∨
      success = true ∧ p.getTotalLength ≤ pdu.remainingLen ∧ pdu.append p = .ok pdu' := by
    intro p ok
    unfold addSudpdu at ok
    split at ok
    · obtain ⟨rfl, rfl⟩ := Prod.mk.inj (Except.ok.inj ok)
      exact .inl ⟨rfl, rfl⟩
    · rename_i fits
      obtain ⟨pdu₁, appended, eq⟩ := map_eq_ok.mp ok
      obtain ⟨rfl, rfl⟩ := Prod.mk.inj eq
      exact .inr ⟨rfl, by omega, appended⟩
  cases c with
  | sdu lcid payload len =>
    simp only [add, addSdu] at ok
    split at ok
    · obtain ⟨rfl, rfl⟩ := Prod.mk.inj (Except.ok.inj ok)
      exact .inl ⟨rfl, rfl⟩
    · exact sub _ ok
  | crntiCe | sePhrCe | sbsrCe | ueConResIdCe => exact sub _ ok

def addAll (pdu : SchPduTx) : List AddCall → Except Fault (SchPduTx × List AddCall)
  | [] => .ok (pdu, [])
  | c :: calls => do
    let (pdu, success) ← pdu.add c
    let (pdu, accepted) ← pdu.addAll calls
    .ok (pdu, if success then c :: accepted else accepted)

structure Wrote (buffer : ByteBuffer) (pduLen : Nat) (ulsch : Bool) (subpdus : List SubPdu) (pdu : SchPduTx) :
    Prop where
  ulsch : pdu.ulsch = ulsch
  written : pdu.buffer = { buffer with msg := buffer.msg ++ subpdus.flatMap SubPdu.bytes }
  remaining : pdu.remainingLen + (subpdus.flatMap SubPdu.bytes).length = pduLen
  room : (subpdus.flatMap SubPdu.bytes).length ≤ buffer.getTailroom
  sized : ∀ p ∈ subpdus, p.Sized

variable {buffer : ByteBuffer} {pduLen : Nat} {ulsch : Bool} {subpdus : List SubPdu} {pdu pdu' : SchPduTx}

theorem initTx_wrote (buffer : ByteBuffer) (pduLen : Nat) (ulsch : Bool) :
    (initTx buffer pduLen ulsch).Wrote buffer pduLen ulsch [] := by
  refine ⟨rfl, ?_, rfl, Nat.zero_le _, by simp⟩
  simp [initTx]

theorem Wrote.append {p : SubPdu} (wrote : pdu.Wrote buffer pduLen ulsch subpdus)
    (short : p.headerLength = 1 ∨ p.headerLength = 2 ∨ p.headerLength = 3)
    (fits : p.getTotalLength ≤ pdu.remainingLen) (ok : pdu.append p = .ok pdu') :
    pdu'.Wrote buffer pduLen ulsch (subpdus ++ [p]) := by
  obtain ⟨pos, room, rfl⟩ := append_spec ok
  rw [wrote.written] at room
  simp only [ByteBuffer.getTailroom, ByteBuffer.nBytes, length_append] at room
  have before := wrote.room
  simp only [ByteBuffer.getTailroom, ByteBuffer.nBytes] at before
  have bound : maxBufferSizeBytes = 13257 := rfl
  have payload : p.bytes.length = p.header.length + p.sduLength.toNat := by
    simp [SubPdu.bytes, SubPdu.payload_length]
  have sized : p.Sized := ⟨SubPdu.header_length short, pos, by omega⟩
  have total := sized.bytes_length
  have remaining := wrote.remaining
  have flat : (subpdus ++ [p]).flatMap SubPdu.bytes = subpdus.flatMap SubPdu.bytes ++ p.bytes := by simp
  refine ⟨wrote.ulsch, ?_, ?_, ?_, ?_⟩
  · simp [wrote.written]
  · rw [flat, length_append]
    dsimp only
    omega
  · rw [flat, length_append]
    simp only [ByteBuffer.getTailroom, ByteBuffer.nBytes]
    omega
  · intro q mem
    rcases List.mem_append.mp mem with mem | mem
    · exact wrote.sized q mem
    · exact List.mem_singleton.mp mem ▸ sized

theorem Wrote.addAll {calls accepted : List AddCall} (wrote : pdu.Wrote buffer pduLen ulsch subpdus)
    (ok : pdu.addAll calls = .ok (pdu', accepted)) :
    pdu'.Wrote buffer pduLen ulsch (subpdus ++ accepted.map (AddCall.subPdu ulsch)) ∧ accepted ⊆ calls := by
  induction calls generalizing pdu subpdus accepted with
  | nil =>
    obtain ⟨rfl, rfl⟩ := Prod.mk.inj (Except.ok.inj ok)
    exact ⟨by simpa using wrote, List.Subset.refl _⟩
  | cons c calls ih =>
    obtain ⟨⟨pdu₁, success⟩, added, ok⟩ := bind_eq_ok.mp ok
    obtain ⟨⟨pdu₂, others⟩, rest, ok⟩ := bind_eq_ok.mp ok
    obtain ⟨rfl, rfl⟩ := Prod.mk.inj (Except.ok.inj ok)
    rcases add_spec added with ⟨rfl, rfl⟩ | ⟨rfl, fits, appended⟩
    · obtain ⟨after, subset⟩ := ih wrote rest
      exact ⟨by simpa using after, fun x mem => mem_cons_of_mem _ (subset (by simpa using mem))⟩
    · rw [wrote.ulsch] at fits appended
      obtain ⟨after, subset⟩ := ih (wrote.append c.headerLength_short fits appended) rest
      refine ⟨by simpa using after, fun x mem => ?_⟩
      rcases List.mem_cons.mp mem with rfl | mem
      · exact mem_cons_self ..
      · exact mem_cons_of_mem _ (subset mem)

theorem setPadding_bytes {n : Nat} (small : n < 2147483648) :
    (SubPdu.setPadding {} (n + 1)).sduLength = n ∧
      (SubPdu.setPadding {} (n + 1)).bytes = paddingBytes (n + 1) := by
  have length : i32 (u32Sub (n + 1) 1) = n := by
    rw [u32Sub_of_le (by omega) (by omega), i32]
    omega
  simp [SubPdu.setPadding, length]
  rfl

section
variable (wrote : pdu.Wrote buffer pduLen ulsch subpdus)
include wrote

theorem Wrote.pack (small : pduLen < 4294967296)
    (ok : pdu.pack = .ok pdu') : pduLen ≤ buffer.getTailroom ∧ pdu'.buffer =
      { buffer with msg := buffer.msg ++ (subpdus.flatMap SubPdu.bytes ++ paddingBytes pdu.remainingLen) } := by
  have remaining := wrote.remaining
  have before := wrote.room
  unfold SchPduTx.pack at ok
  split at ok
  · rename_i more
    obtain ⟨pos, room, rfl⟩ := append_spec ok
    obtain ⟨n, left⟩ : ∃ n, pdu.remainingLen = n + 1 := ⟨pdu.remainingLen - 1, by omega⟩
    have fits : n < 2147483648 := by
      simp only [SubPdu.setPadding, left, u32Sub_of_le (Nat.le_add_left 1 n) (show n + 1 < 4294967296 by omega)] at pos
      unfold i32 at pos
      split at pos <;> omega
    obtain ⟨_, bytes⟩ := setPadding_bytes fits
    rw [left, bytes, paddingBytes_length, wrote.written] at room
    simp only [ByteBuffer.getTailroom, ByteBuffer.nBytes, length_append] at room before ⊢
    refine ⟨by omega, ?_⟩
    simp [left, bytes, wrote.written]
  · rename_i done
    obtain rfl := Except.ok.inj ok
    simp only [not_not] at done
    refine ⟨by omega, ?_⟩
    simp [wrote.written, done, paddingBytes]

theorem Wrote.pack_ok (room : pduLen ≤ buffer.getTailroom) :
    ∃ pdu', pdu.pack = .ok pdu' := by
  unfold SchPduTx.pack
  split
  · obtain ⟨n, left⟩ : ∃ n, pdu.remainingLen = n + 1 := ⟨pdu.remainingLen - 1, by omega⟩
    have remaining := wrote.remaining
    have bound : maxBufferSizeBytes = 13257 := rfl
    simp only [ByteBuffer.getTailroom, ByteBuffer.nBytes] at room
    obtain ⟨length, bytes⟩ := @setPadding_bytes n (by omega)
    rw [left]
    refine append_ok (by rw [length]; omega) ?_
    rw [bytes, paddingBytes_length, wrote.written]
    simp only [ByteBuffer.getTailroom, ByteBuffer.nBytes, length_append]
    omega
  · exact ⟨_, rfl⟩

theorem Wrote.add_ok (room : pduLen ≤ buffer.getTailroom)
    {c : AddCall} (domain : c.InDomain ulsch) : ∃ result, pdu.add c = .ok result := by
  have remaining := wrote.remaining
  have bound : maxBufferSizeBytes = 13257 := rfl
  simp only [ByteBuffer.getTailroom, ByteBuffer.nBytes] at room
  have sub : ∀ c : AddCall, 0 ≤ (c.subPdu pdu.ulsch).sduLength ∧ (c.subPdu pdu.ulsch).sduLength < 65536 →
      ∃ result, pdu.addSudpdu (c.subPdu pdu.ulsch) = .ok result := by
    intro c length
    unfold addSudpdu
    split
    · exact ⟨_, rfl⟩
    · have sized : (c.subPdu pdu.ulsch).Sized := ⟨SubPdu.header_length c.headerLength_short, length⟩
      have total := sized.bytes_length
      obtain ⟨pdu', ok⟩ := @append_ok pdu _ length.1 (by
        rw [wrote.written]
        simp only [ByteBuffer.getTailroom, ByteBuffer.nBytes, length_append]
        omega)
      exact ⟨_, map_eq_ok.mpr ⟨pdu', ok, rfl⟩⟩
  have fixed : ∀ lcid, 0 ≤ (sizeofCe pdu.ulsch lcid : Int) ∧ (sizeofCe pdu.ulsch lcid : Int) < 65536 := by
    intro lcid
    have := sizeofCe_lt pdu.ulsch lcid
    omega
  cases c with
  | sdu lcid payload len =>
    obtain ⟨_, noWrap, _⟩ := domain
    simp only [add, addSdu]
    split
    · exact ⟨_, rfl⟩
    · rename_i fits
      have header : pdu.sizeHeaderSdu lcid len ≤ 3 := by
        unfold sizeHeaderSdu
        split
        · decide
        · split <;> decide
      refine sub (.sdu lcid payload len) ?_
      simp only [AddCall.subPdu, SubPdu.setSdu]
      split
      · have := fixed (sduLcid lcid len)
        unfold SubPdu.setLength
        split <;> exact this
      · have : 0 ≤ i32 len ∧ i32 len < 65536 := by
          unfold i32
          split <;> omega
        unfold SubPdu.setLength
        split <;> exact this
  | crntiCe crnti => exact sub (.crntiCe crnti) (fixed _)
  | sePhrCe phr pcmax => exact sub (.sePhrCe phr pcmax) (fixed _)
  | sbsrCe lcgId bufferSize => exact sub (.sbsrCe lcgId bufferSize) (fixed _)
  | ueConResIdCe id => exact sub (.ueConResIdCe id) (fixed _)

end

end SchPduTx

end IsrRan.Mac.Nr
