import IsrRan.Mac.SchPdu

namespace IsrRan.Mac.Lte.Pdu
open List Memory

structure Element where
  lcid : Nat
  body : List Byte
  deriving DecidableEq, Repr

namespace Element
variable (kind : Kind)

def header (e : Element) (isLast : Bool) : List Byte :=
  ({ lcid := e.lcid, nofBytes := e.body.length } : SchSubh).writeSubheader kind isLast

structure HasLength (e : Element) : Prop where
  lcid : e.lcid < 32
  field : hasLengthField kind e.lcid = true → 0 < e.body.length ∧ e.body.length < 32768
  fixed : hasLengthField kind e.lcid = false → e.body.length = sizeofCe kind e.lcid 0

structure EndsPdu (e : Element) : Prop where
  lcid : e.lcid < 32
  fixed : hasLengthField kind e.lcid = false → sizeofCe kind e.lcid 0 ≤ e.body.length

end Element

def encode (kind : Kind) (elements : List Element) (last : Element) : List Byte :=
  elements.flatMap (·.header kind false) ++ last.header kind true ++ (elements.flatMap (·.body) ++ last.body)

def elementAt (mem : Memory) (s : ReadSubh) : Element := ⟨s.lcid, mem.slice s.payload s.nofBytes⟩

def parse (kind : Kind) (maxSubheaders : Nat) (bytes : List Byte) (pduLen : Nat) : List Element :=
  (parsePacket kind maxSubheaders (ofList bytes) pduLen).map (elementAt (ofList bytes))

section
variable {kind : Kind} {e : Element}

theorem Element.HasLength.endsPdu (has : e.HasLength kind) : e.EndsPdu kind :=
  ⟨has.lcid, fun noField => (has.fixed noField).ge⟩

theorem header_last_length : (e.header kind true).length = 1 := by
  simp [Element.header, SchSubh.writeSubheader]

theorem header_length_pos (isLast : Bool) : 0 < (e.header kind isLast).length := by
  simp [Element.header, SchSubh.writeSubheader]

theorem HasLength.sizePlusHeader (has : e.HasLength kind) (payload : Nat) :
    (ReadSubh.mk e.lcid e.body.length payload).sizePlusHeader kind = (e.header kind false).length + e.body.length := by
  obtain ⟨-, field, -⟩ := has
  unfold ReadSubh.sizePlusHeader Element.header SchSubh.writeSubheader
  cases lengthField : hasLengthField kind e.lcid with
  | false => simp
  | true =>
    have := field lengthField
    unfold sizeHeaderSdu
    by_cases long : 128 ≤ e.body.length
    · simp [long, show e.body.length ≠ 0 by omega]
    · simp [long, show e.body.length ≠ 0 by omega]

theorem readSubheader_header (has : e.HasLength kind) (front rest : List Byte) :
    readSubheader kind (ofList (front ++ (e.header kind false ++ rest))) front.length =
      (true, ⟨e.lcid, e.body.length, 0⟩, (e.header kind false).length) := by
  obtain ⟨lcidBound, field, fixed⟩ := has
  generalize memory : ofList (front ++ (e.header kind false ++ rest)) = mem
  have byteAt : ∀ i, mem.byte (front.length + i) = ((e.header kind false ++ rest).getD i 0).toNat := by
    intro i
    rw [← memory, Memory.byte, ofList_behind]
  have first : mem.byte front.length = 32 + e.lcid := by
    have := byteAt 0
    rw [Nat.add_zero] at this
    rw [this]
    simp only [Element.header, SchSubh.writeSubheader, cons_append, getD_cons_zero]
    rw [toNat_ofNat_byte] <;> simp <;> omega
  have second := byteAt 1
  have third := byteAt 2
  have lcid : (32 + e.lcid) % 32 = e.lcid := by omega
  have eBit : (32 + e.lcid) / 32 % 2 = 1 := by omega
  unfold readSubheader
  simp only [first, lcid, eBit]
  unfold Element.header SchSubh.writeSubheader at second third ⊢
  cases lengthField : hasLengthField kind e.lcid with
  | false => simp [fixed lengthField]
  | true =>
    have := field lengthField
    by_cases long : 128 ≤ e.body.length
    · simp only [lengthField, long, Bool.not_false, Bool.and_self, if_true, cons_append, getD_cons_succ,
        getD_cons_zero] at second third
      rw [toNat_ofNat_byte (by omega)] at second
      simp only [UInt8.toNat_ofNat'] at third
      simp only [Bool.not_false, Bool.and_self, if_true, long, length_cons, length_nil]
      rw [if_pos (by omega)]
      simp only [Prod.mk.injEq, ReadSubh.mk.injEq, true_and, and_true]
      omega
    · simp only [lengthField, long, Bool.not_false, Bool.and_self, if_true, if_false, cons_append,
        getD_cons_succ, getD_cons_zero] at second
      rw [toNat_ofNat_byte (by omega)] at second
      simp only [Bool.not_false, Bool.and_self, if_true, long, if_false, length_cons, length_nil]
      rw [if_neg (by omega)]
      simp only [Prod.mk.injEq, ReadSubh.mk.injEq, true_and, and_true]
      omega

theorem readSubheader_last (ends : e.EndsPdu kind) (front rest : List Byte) :
    readSubheader kind (ofList (front ++ (e.header kind true ++ rest))) front.length =
      (false, ⟨e.lcid, if hasLengthField kind e.lcid then 0 else sizeofCe kind e.lcid 0, 0⟩, 1) := by
  have lcidBound := ends.lcid
  have first : (ofList (front ++ (e.header kind true ++ rest))).byte front.length = e.lcid := by
    have := ofList_behind front (e.header kind true ++ rest) 0
    rw [Nat.add_zero] at this
    rw [Memory.byte, this]
    simp only [Element.header, SchSubh.writeSubheader, cons_append, getD_cons_zero]
    rw [toNat_ofNat_byte] <;> simp <;> omega
  have lcid : e.lcid % 32 = e.lcid := by omega
  have eBit : ¬ e.lcid / 32 % 2 = 1 := by omega
  unfold readSubheader
  simp only [first, lcid, eBit]
  cases hasLengthField kind e.lcid <;> simp

end

def placed : List Element → Nat → List ReadSubh
  | [], _ => []
  | e :: rest, ptr => ⟨e.lcid, e.body.length, ptr⟩ :: placed rest (ptr + e.body.length)

section
variable {kind : Kind} {elements : List Element} {last : Element}

theorem placed_sizePlusHeader (has : ∀ e ∈ elements, e.HasLength kind) (ptr : Nat) :
    ((placed elements ptr).map (·.sizePlusHeader kind)).sum =
      (elements.flatMap (·.header kind false)).length + (elements.flatMap (·.body)).length := by
  induction elements generalizing ptr with
  | nil => rfl
  | cons e rest ih =>
    have tail := ih (fun e' mem => has e' (mem_cons_of_mem _ mem)) (ptr + e.body.length)
    have head := HasLength.sizePlusHeader (has e mem_cons_self) ptr
    simp only [placed, map_cons, sum_cons, flatMap_cons, length_append]
    omega

theorem placed_elementAt (front rest : List Byte) :
    (placed elements front.length).map (elementAt (ofList (front ++ (elements.flatMap (·.body) ++ rest)))) =
      elements := by
  induction elements generalizing front with
  | nil => rfl
  | cons e tail ih =>
    have behind := ih (front ++ e.body)
    have head := slice_ofList_middle front e.body (tail.flatMap (·.body) ++ rest)
    simp only [length_append, append_assoc] at behind
    simp only [placed, map_cons, flatMap_cons, append_assoc, behind, elementAt, head]

theorem readSubheaders_headers (has : ∀ e ∈ elements, e.HasLength kind) (ends : last.EndsPdu kind)
    (front rest : List Byte) {room pduLen : Nat} (enough : elements.length < room)
    (inside : front.length + (elements.flatMap (·.header kind false)).length + 1 ≤ pduLen) :
    readSubheaders kind
        (ofList (front ++ (elements.flatMap (·.header kind false) ++ (last.header kind true ++ rest))))
        pduLen room front.length =
      some (elements.map (fun e => ⟨e.lcid, e.body.length, 0⟩) ++
          [⟨last.lcid, if hasLengthField kind last.lcid then 0 else sizeofCe kind last.lcid 0, 0⟩],
        front.length + (elements.flatMap (·.header kind false)).length + 1) := by
  induction elements generalizing front room with
  | nil =>
    obtain ⟨room, rfl⟩ := Nat.exists_eq_succ_of_ne_zero (Nat.ne_of_gt enough)
    unfold readSubheaders
    simp only [flatMap_nil, nil_append, readSubheader_last ends front rest]
    simp
  | cons e tail ih =>
    obtain ⟨room, rfl⟩ := Nat.exists_eq_succ_of_ne_zero (show room ≠ 0 by omega)
    simp only [length_cons] at enough
    simp only [flatMap_cons, length_append] at inside
    have first := readSubheader_header (has e mem_cons_self) front
    have behind := @ih (fun e' mem => has e' (mem_cons_of_mem _ mem)) (front ++ e.header kind false) room
      (by omega) (by simp only [length_append]; omega)
    simp only [length_append, append_assoc] at behind
    unfold readSubheaders
    simp only [flatMap_cons, append_assoc, first, behind]
    rw [if_neg (by simp; omega), if_pos (by simp; omega)]
    simp only [Option.map_some, map_cons, cons_append, length_append, Nat.add_assoc]

theorem readPayloads_placed {lastSize pduLen : Nat} (ptr : Nat)
    (inside : ptr + (elements.flatMap (·.body)).length + lastSize ≤ pduLen) :
    readPayloads pduLen (elements.map (fun e => ⟨e.lcid, e.body.length, 0⟩) ++ [⟨last.lcid, lastSize, 0⟩]) ptr =
      some (placed elements ptr ++ [⟨last.lcid, lastSize, ptr + (elements.flatMap (·.body)).length⟩]) := by
  induction elements generalizing ptr with
  | nil =>
    simp only [flatMap_nil, length_nil, Nat.add_zero] at inside
    simp [readPayloads, placed, inside]
  | cons e tail ih =>
    simp only [flatMap_cons, length_append] at inside
    have behind := ih (ptr + e.body.length) (by omega)
    simp only [map_cons, cons_append, readPayloads, behind]
    rw [if_neg (by omega)]
    simp only [Option.map_some, placed, cons_append, flatMap_cons, length_append, Nat.add_assoc]

theorem parse_encode_of_room (has : ∀ e ∈ elements, e.HasLength kind) (ends : last.EndsPdu kind) (rest : List Byte)
    {maxSubheaders : Nat} (room : elements.length < min maxSubheaders (max 1 (maxSubheaders - 1))) :
    parse kind maxSubheaders (encode kind elements last ++ rest) (encode kind elements last).length =
      elements ++ [last] := by
  have size : (encode kind elements last).length =
      (elements.flatMap (·.header kind false)).length + 1 + (elements.flatMap (·.body)).length +
        last.body.length := by
    unfold encode
    simp only [length_append, header_last_length]
    omega
  have shape : encode kind elements last ++ rest = elements.flatMap (·.header kind false) ++
      (last.header kind true ++ (elements.flatMap (·.body) ++ (last.body ++ rest))) := by
    simp only [encode, append_assoc]
  have heads := @readSubheaders_headers kind elements last has ends []
    (elements.flatMap (·.body) ++ (last.body ++ rest)) (min maxSubheaders (max 1 (maxSubheaders - 1)))
    (encode kind elements last).length room (by simp only [length_nil]; omega)
  have short : (if hasLengthField kind last.lcid then 0 else sizeofCe kind last.lcid 0) ≤ last.body.length := by
    cases field : hasLengthField kind last.lcid with
    | true => simp
    | false => simpa using ends.fixed field
  generalize (if hasLengthField kind last.lcid then 0 else sizeofCe kind last.lcid 0) = lastSize at heads short
  have bodies := @readPayloads_placed elements last lastSize (encode kind elements last).length
    ((elements.flatMap (·.header kind false)).length + 1) (by omega)
  have read := placed_sizePlusHeader has ((elements.flatMap (·.header kind false)).length + 1)
  simp only [nil_append, length_nil, Nat.zero_add] at heads
  unfold parse parsePacket
  simp only [shape, heads, bodies, List.getLast?_concat, dropLast_concat, read]
  rw [if_pos (by omega)]
  have inFront : (elements.flatMap (·.header kind false) ++ last.header kind true).length =
      (elements.flatMap (·.header kind false)).length + 1 := by
    simp [header_last_length]
  have placedBack := @placed_elementAt elements (elements.flatMap (·.header kind false) ++ last.header kind true)
  have lastBack := slice_ofList_middle
    (elements.flatMap (·.header kind false) ++ last.header kind true ++ elements.flatMap (·.body)) last.body rest
  simp only [length_append, append_assoc, header_last_length] at placedBack lastBack
  have left : (encode kind elements last).length - ((elements.flatMap (·.header kind false)).length +
      (elements.flatMap (·.body)).length) - 1 = last.body.length := by omega
  simp only [map_append, placedBack, map_cons, map_nil, elementAt, left]
  rw [← Nat.add_assoc] at lastBack
  rw [lastBack]

theorem parse_encode (has : ∀ e ∈ elements, e.HasLength kind) (ends : last.EndsPdu kind) (rest : List Byte)
    {maxSubheaders : Nat} (room : elements.length + 1 < maxSubheaders) :
    parse kind maxSubheaders (encode kind elements last ++ rest) (encode kind elements last).length =
      elements ++ [last] :=
  parse_encode_of_room has ends rest (by omega)

end

end IsrRan.Mac.Lte.Pdu
