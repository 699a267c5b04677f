import IsrRan.Mac.SchPduTx

namespace IsrRan.Mac.Lte.Pdu
open List Bool SchPdu

def paddingElements (n : Nat) : List Element := replicate n ⟨Lcid.padding, []⟩

def SchPdu.wire (p : SchPdu) (elements : List Element) : List Element :=
  paddingElements p.onetwoPadding ++ controlElements p.kind elements ++ sdus p.kind elements ++
    if p.multibytePadding then [⟨Lcid.padding, replicate p.numPadding 0⟩] else []

section
variable {p : SchPdu} {elements : List Element}

def SchPdu.sduIsLast (p : SchPdu) (i : Nat) : Bool := !p.multibytePadding && p.lastSduIdx == some i

def SchPdu.ceIsLast (p : SchPdu) (count i : Nat) : Bool := p.ceOnly && !p.multibytePadding && i + 1 == count

section
variable (holds : Counted p elements)
include holds

theorem Counted.headerSz_eq :
    p.headerSz = (elements.zipIdx.map fun (e, i) => (e.header p.kind (p.sduIsLast i)).length).sum +
      if p.multibytePadding then 1 else p.onetwoPadding := by
  have sizes := zipIdx_map_eq_of_forall₂ (forall₂_and holds.subheaders holds.hasLength) (f := fun s i => s.getHeaderSize p.kind (p.sduIsLast i))
    (fun s e i both => both.1.getHeaderSize both.2 (p.sduIsLast i)) 0
  exact congrArg (·.sum + _) sizes

theorem Counted.cePayloadSz_eq :
    p.cePayloadSz = ((controlElements p.kind elements).flatMap (·.body)).length := by
  have sizes := map_eq_of_forall₂ holds.subheaders
    (f := fun s => if isSdu p.kind s.lcid then 0 else s.nofBytes)
    fun s e describes => by rw [describes.lcid, describes.nofBytes]
  have others := flatMap_unless (fun e : Element => isSdu p.kind e.lcid) (·.body) elements
  unfold cePayloadSz controlElements
  rw [sizes, ← others, length_flatMap]
  congr 2
  funext e
  cases isSdu p.kind e.lcid <;> rfl

theorem Counted.ceHeaders_eq :
    (p.subheaders.zipIdx.flatMap fun (s, i) =>
      if isSdu p.kind s.lcid then []
      else s.writeSubheader p.kind (p.ceOnly && !p.multibytePadding && i + 1 == p.subheaders.length)) =
    elements.zipIdx.flatMap fun (e, i) =>
      if isSdu p.kind e.lcid then [] else e.header p.kind (p.ceIsLast elements.length i) := by
  have length := holds.subheaders.length_eq
  have headers := zipIdx_map_eq_of_forall₂ holds.subheaders
    (f := fun s i => if isSdu p.kind s.lcid then [] else s.writeSubheader p.kind (p.ceIsLast elements.length i))
    (fun s e i describes => by rw [describes.lcid, describes.writeSubheader]) 0
  rw [length]
  exact congrArg flatten headers

theorem Counted.sduHeaders_eq :
    (p.subheaders.zipIdx.flatMap fun (s, i) =>
      if isSdu p.kind s.lcid then s.writeSubheader p.kind (!p.multibytePadding && p.lastSduIdx == some i) else []) =
    elements.zipIdx.flatMap fun (e, i) =>
      if isSdu p.kind e.lcid then e.header p.kind (p.sduIsLast i) else [] := by
  have headers := zipIdx_map_eq_of_forall₂ holds.subheaders
    (f := fun s i => if isSdu p.kind s.lcid then s.writeSubheader p.kind (p.sduIsLast i) else [])
    (fun s e i describes => by rw [describes.lcid, describes.writeSubheader]) 0
  exact congrArg flatten headers

theorem Counted.payloads_eq :
    (p.subheaders.flatMap fun s => if isSdu p.kind s.lcid then [] else s.writePayload p.kind) =
      (controlElements p.kind elements).flatMap (·.body) := by
  have payloads := map_eq_of_forall₂ holds.subheaders
    (f := fun s => if isSdu p.kind s.lcid then [] else s.writePayload p.kind)
    (g := fun e => if isSdu p.kind e.lcid then [] else e.body)
    fun s e describes => by
      rw [describes.lcid]
      cases kindOf : isSdu p.kind e.lcid with
      | true => rfl
      | false => simpa using describes.payload kindOf
  have others := flatMap_unless (fun e : Element => isSdu p.kind e.lcid) (·.body) elements
  exact (congrArg flatten payloads).trans others

theorem Counted.written_eq : p.written =
    (paddingElements p.onetwoPadding).flatMap (·.header p.kind (p.pduLen ≤ p.onetwoPadding)) ++
    (elements.zipIdx.flatMap fun (e, i) =>
      if isSdu p.kind e.lcid then [] else e.header p.kind (p.ceIsLast elements.length i)) ++
    (if p.ceOnly then []
      else elements.zipIdx.flatMap fun (e, i) => if isSdu p.kind e.lcid then e.header p.kind (p.sduIsLast i) else []) ++
    (if p.multibytePadding then Element.header p.kind ⟨Lcid.padding, replicate p.numPadding 0⟩ true else []) ++
    (controlElements p.kind elements).flatMap (·.body) := by
  have pads : (replicate p.onetwoPadding
      ((SchSubh.setPadding 0).writeSubheader p.kind (p.pduLen ≤ p.onetwoPadding))).flatten =
      (paddingElements p.onetwoPadding).flatMap (·.header p.kind (p.pduLen ≤ p.onetwoPadding)) := by
    simp [paddingElements, flatMap, Element.header, SchSubh.setPadding]
  have multi : (SchSubh.setPadding p.numPadding).writeSubheader p.kind true =
      Element.header p.kind ⟨Lcid.padding, replicate p.numPadding 0⟩ true := by
    simp [Element.header, SchSubh.setPadding]
  unfold SchPdu.written
  rw [pads, holds.ceHeaders_eq, holds.sduHeaders_eq, holds.payloads_eq, multi]

end

/-- `last_sdu_idx` tells what `write_packet` has to know: whether there is an SDU and, if the padding does not end the
PDU, which one is the last. -/
def SchPdu.ShowsSdus (p : SchPdu) (elements : List Element) : Prop :=
  if p.multibytePadding then p.lastSduIdx = none → ∀ e ∈ elements, isSdu p.kind e.lcid = false
  else LastSdu p.kind elements p.lastSduIdx

theorem Holds.shown (holds : Holds p elements) (noIdx : p.lastSduIdx = none) :
    ∀ e ∈ elements, isSdu p.kind e.lcid = false := by
  have last := holds.lastSdu
  rwa [noIdx] at last

theorem Holds.showsSdus (holds : Holds p elements) : p.ShowsSdus elements := by
  unfold SchPdu.ShowsSdus
  split
  · exact holds.shown
  · exact holds.lastSdu

theorem sizes_eq (kind : Kind) (elements : List Element) : (elements.map (·.size kind)).sum =
    ((controlElements kind elements).flatMap (·.header kind false)).length +
    ((controlElements kind elements).flatMap (·.body)).length +
    (((sdus kind elements).flatMap (·.header kind false)).length + ((sdus kind elements).flatMap (·.body)).length) := by
  have size : ∀ l : List Element, (l.map (·.size kind)).sum =
      (l.flatMap (·.header kind false)).length + (l.flatMap (·.body)).length := by
    intro l
    induction l with
    | nil => rfl
    | cons e rest ih =>
      have head : e.size kind = (e.header kind false).length + e.body.length := rfl
      rw [map_cons, sum_cons]
      simp only [flatMap_cons, length_append]
      omega
  rw [sum_map_filter (fun e : Element => isSdu kind e.lcid), size, size]
  rfl

theorem headers_split (kind : Kind) (elements : List Element) : (elements.map fun e => (e.header kind false).length).sum =
    ((controlElements kind elements).flatMap (·.header kind false)).length +
      ((sdus kind elements).flatMap (·.header kind false)).length := by
  rw [sum_map_filter (fun e : Element => isSdu kind e.lcid), length_flatMap, length_flatMap]
  rfl

theorem lastSduExtension_le (p : SchPdu) : p.lastSduExtension ≤ 2 := by
  unfold lastSduExtension sizeHeaderSdu
  split
  · omega
  · split
    · omega
    · split <;> omega

theorem lastSduExtension_of_none (noIdx : p.lastSduIdx = none) : p.lastSduExtension = 0 := by
  simp [lastSduExtension, noIdx]

theorem Counted.total_eq (holds : Counted p elements) :
    p.buffer.nBytes + (p.headerSz + p.cePayloadSz) + p.numPadding = p.pduLen := by
  have bytes : p.buffer.nBytes = ((sdus p.kind elements).flatMap (·.body)).length := by
    rw [ByteBuffer.nBytes, holds.msg]
  have payloads := holds.cePayloadSz_eq
  have counted := holds.headerSz_eq
  have rem := holds.rem
  have plain := headers_split p.kind elements
  have extension := lastSduExtension_le p
  rw [sizes_eq] at rem
  by_cases multi : p.multibytePadding = true
  · have more : 2 < p.remLen := by simpa [SchPdu.multibytePadding] using multi
    have padding : p.numPadding = p.remLen - 1 - p.lastSduExtension := by simp [numPadding, multi]
    have headers := @zipIdx_map_flag _ _ (fun e flag => (Element.header p.kind e flag).length) p.sduIsLast elements 0
      fun i _ _ => by simp [SchPdu.sduIsLast, multi]
    rw [headers, if_pos multi] at counted
    omega
  · have single : p.multibytePadding = false := Bool.eq_false_iff.mpr multi
    have onetwo : p.onetwoPadding = p.remLen := by simp [SchPdu.onetwoPadding, single]
    have padding : p.numPadding = 0 := by simp [numPadding, single]
    rw [if_neg multi] at counted
    cases idx : p.lastSduIdx with
    | none =>
      have headers := @zipIdx_map_flag _ _ (fun e flag => (Element.header p.kind e flag).length) p.sduIsLast elements
        0 fun i _ _ => by simp [SchPdu.sduIsLast, idx]
      have none_ := lastSduExtension_of_none idx
      rw [headers] at counted
      omega
    | some i =>
      obtain ⟨before, e, after, rfl, rfl, isSdu_⟩ := holds.sduAt i idx
      have own := holds.lastSduExtension_eq rfl idx
      have header := (header_length_sdu (holds.hasLength e (by simp)) isSdu_).1
      have oneByte := @header_last_length p.kind e
      have headers := congrArg sum (@zipIdx_map_one _ _ (fun e flag => (Element.header p.kind e flag).length)
        p.sduIsLast before after e fun i => by
          simp [SchPdu.sduIsLast, single, idx, beq_eq_decide_eq, eq_comm])
      rw [sum_append, sum_cons] at headers
      rw [map_append, map_cons, sum_append, sum_cons] at plain
      rw [headers] at counted
      omega

theorem paddingElement_hasLength (kind : Kind) : Element.HasLength kind ⟨Lcid.padding, []⟩ := by
  cases kind <;> exact ⟨by decide, by decide, by decide⟩

theorem paddingElement_endsPdu (kind : Kind) (bytes : List Byte) : Element.EndsPdu kind ⟨Lcid.padding, bytes⟩ := by
  cases kind <;> exact ⟨by simp [Lcid.padding], fun _ => Nat.zero_le _⟩

theorem paddingElements_hasLength {kind : Kind} {n : Nat} {e : Element} (mem : e ∈ paddingElements n) :
    e.HasLength kind := by
  rw [eq_of_mem_replicate mem]
  exact paddingElement_hasLength kind

theorem paddingElements_body (n : Nat) : (paddingElements n).flatMap (·.body) = [] := by
  simp [paddingElements]

theorem paddingElements_headers (kind : Kind) (n : Nat) :
    ((paddingElements n).flatMap (·.header kind false)).length = n := by
  have one : (Element.header kind ⟨Lcid.padding, []⟩ false).length = 1 := by cases kind <;> rfl
  simp [paddingElements, one]

theorem flatMap_zipIdx_plain {f : Element → Bool → List Byte} {flag : Nat → Bool} (off : ∀ i, flag i = false) :
    (elements.zipIdx.flatMap fun (e, i) => f e (flag i)) = elements.flatMap (f · false) :=
  congrArg flatten (zipIdx_map_flag f elements 0 fun i _ _ => off i)

theorem flatMap_zipIdx_one {f : Element → Bool → List Byte} {flag : Nat → Bool} {before after : List Element}
    {e : Element} (one : ∀ i, flag i = decide (i = before.length)) :
    ((before ++ e :: after).zipIdx.flatMap fun (e, i) => f e (flag i)) =
      before.flatMap (f · false) ++ f e true ++ after.flatMap (f · false) := by
  have pieces := congrArg flatten (zipIdx_map_one f before after e one)
  rw [flatten_append, flatten_cons, ← append_assoc] at pieces
  exact pieces

theorem flatMap_sdus (kind : Kind) (f : Element → List Byte) (l : List Element) :
    (l.flatMap fun e => if isSdu kind e.lcid then f e else []) = (sdus kind l).flatMap f := by
  induction l with
  | nil => rfl
  | cons e rest ih => cases isSdu_ : isSdu kind e.lcid <;> simp [sdus, isSdu_, ih]

theorem flatMap_controlElements (kind : Kind) (f : Element → List Byte) (l : List Element) :
    (l.flatMap fun e => if isSdu kind e.lcid then [] else f e) = (controlElements kind l).flatMap f :=
  flatMap_unless _ f l

theorem ceHeaders_plain {kind : Kind} {flag : Nat → Bool} (off : ∀ i, flag i = false) :
    (elements.zipIdx.flatMap fun (e, i) => if isSdu kind e.lcid then [] else e.header kind (flag i)) =
      (controlElements kind elements).flatMap (·.header kind false) :=
  (flatMap_zipIdx_plain (f := fun e flag => if isSdu kind e.lcid then [] else e.header kind flag) off).trans
    (flatMap_controlElements kind _ elements)

theorem shown_multibyte (shown : p.lastSduIdx = none → ∀ e ∈ elements, isSdu p.kind e.lcid = false) :
    (controlElements p.kind elements ++ if p.ceOnly then [] else sdus p.kind elements) =
        controlElements p.kind elements ++ sdus p.kind elements ∧
      (if p.ceOnly then ((sdus p.kind elements).flatMap (·.header p.kind false)).length else 0) = 0 := by
  cases idx : p.lastSduIdx with
  | some i => simp [SchPdu.ceOnly, idx]
  | none => simp [SchPdu.ceOnly, idx, (onlyCes (shown idx)).1]

theorem Counted.headerSz_plain (counted : Counted p elements) (off : ∀ i, p.sduIsLast i = false) :
    p.headerSz = ((controlElements p.kind elements).flatMap (·.header p.kind false)).length +
      ((sdus p.kind elements).flatMap (·.header p.kind false)).length +
      if p.multibytePadding then 1 else p.onetwoPadding := by
  have sizes := @zipIdx_map_flag _ _ (fun e flag => (Element.header p.kind e flag).length) p.sduIsLast elements 0
    fun i _ _ => off i
  rw [counted.headerSz_eq, sizes, headers_split]

theorem sdus_split {kind : Kind} {before after : List Element} {e : Element} (isSdu_ : isSdu kind e.lcid = true) :
    sdus kind (before ++ e :: after) = sdus kind before ++ e :: sdus kind after ∧
      controlElements kind (before ++ e :: after) = controlElements kind before ++ controlElements kind after := by
  simp [sdus, controlElements, isSdu_]

/-- The subheaders of the packet: those of `front`, that of `last` without a length, and those of `tail`. `unused` bytes
of the header are never written. -/
structure SchPdu.Writes (p : SchPdu) (elements front : List Element) (last : Element) (tail : List Element)
    (unused : Nat) : Prop where
  written : p.written = front.flatMap (·.header p.kind false) ++ last.header p.kind true ++
    (tail.flatMap (·.header p.kind false) ++ (controlElements p.kind elements).flatMap (·.body))
  headerSz : p.headerSz = (front.flatMap (·.header p.kind false)).length + 1 +
    (tail.flatMap (·.header p.kind false)).length + unused
  hasLength : ∀ e ∈ front, e.HasLength p.kind
  endsPdu : last.EndsPdu p.kind

section
variable (counted : Counted p elements)
include counted

theorem Counted.hasLength_wire (n : Nat) :
    ∀ e ∈ paddingElements n ++ controlElements p.kind elements ++ sdus p.kind elements, e.HasLength p.kind := by
  intro e mem
  rcases List.mem_append.mp mem with front | sdu
  · rcases List.mem_append.mp front with pad | ce
    · exact paddingElements_hasLength pad
    · exact counted.hasLength e (List.mem_filter.mp ce).1
  · exact counted.hasLength e (List.mem_filter.mp sdu).1

theorem Counted.writes_multibyte (multi : p.multibytePadding = true) :
    p.Writes elements (controlElements p.kind elements ++ if p.ceOnly then [] else sdus p.kind elements)
      ⟨Lcid.padding, replicate p.numPadding 0⟩ []
      (if p.ceOnly then ((sdus p.kind elements).flatMap (·.header p.kind false)).length else 0) := by
  have onetwo : p.onetwoPadding = 0 := by simp [SchPdu.onetwoPadding, multi]
  have ceFlag : ∀ i, p.ceIsLast elements.length i = false := fun i => by simp [SchPdu.ceIsLast, multi]
  have sduFlag : ∀ i, p.sduIsLast i = false := fun i => by simp [SchPdu.sduIsLast, multi]
  have written := counted.written_eq
  have headers := counted.headerSz_plain sduFlag
  have has := counted.hasLength_wire 0
  rw [onetwo, ceHeaders_plain ceFlag, flatMap_zipIdx_plain (f := fun e flag => if isSdu p.kind e.lcid then e.header p.kind flag else []) sduFlag,
    flatMap_sdus, if_pos multi] at written
  rw [if_pos multi] at headers
  cases only : p.ceOnly with
  | true =>
    refine ⟨by rw [written]; simp [paddingElements, only], ?_, fun e mem => has e (by simp_all), paddingElement_endsPdu _ _⟩
    rw [headers]
    simp
    omega
  | false =>
    refine ⟨by rw [written]; simp [paddingElements, only], ?_, has, paddingElement_endsPdu _ _⟩
    rw [headers]
    simp

theorem Counted.padding_inside (single : p.multibytePadding = false)
    (inserted : elements ≠ []) : decide (p.pduLen ≤ p.onetwoPadding) = false := by
  have onetwo : p.onetwoPadding = p.remLen := by simp [SchPdu.onetwoPadding, single]
  have rem := counted.rem
  rw [decide_eq_false_iff_not]
  cases idx : p.lastSduIdx with
  | none =>
    obtain ⟨e, rest, rfl⟩ := exists_cons_of_ne_nil inserted
    have byte := @header_length_pos p.kind e false
    have size : Element.size p.kind e = (e.header p.kind false).length + e.body.length := rfl
    rw [lastSduExtension_of_none idx, map_cons, sum_cons] at rem
    omega
  | some i =>
    obtain ⟨before, e, after, rfl, rfl, isSdu_⟩ := counted.sduAt i idx
    have header := (header_length_sdu (counted.hasLength e (by simp)) isSdu_).1
    have size : Element.size p.kind e = (e.header p.kind false).length + e.body.length := rfl
    rw [counted.lastSduExtension_eq rfl idx, map_append, map_cons, sum_append, sum_cons] at rem
    omega

end

theorem Counted.writes_ce {init : List Element} {last : Element} (counted : Counted p (init ++ [last]))
    (single : p.multibytePadding = false) (noIdx : p.lastSduIdx = none) (isCe : isSdu p.kind last.lcid = false) :
    p.Writes (init ++ [last]) (paddingElements p.onetwoPadding ++ controlElements p.kind init) last []
      ((last.header p.kind false).length - 1 + ((sdus p.kind init).flatMap (·.header p.kind false)).length) := by
  have ceFlag : ∀ i, p.ceIsLast (init ++ [last]).length i = decide (i = init.length) := by
    simp [SchPdu.ceIsLast, SchPdu.ceOnly, single, noIdx, beq_eq_decide_eq]
  have byte := @header_length_pos p.kind last false
  have headers := counted.headerSz_plain fun i => by simp [SchPdu.sduIsLast, noIdx]
  have pads := paddingElements_headers p.kind p.onetwoPadding
  have split : controlElements p.kind (init ++ [last]) = controlElements p.kind init ++ [last] ∧
      sdus p.kind (init ++ [last]) = sdus p.kind init := by
    simp [controlElements, sdus, isCe]
  have written := counted.written_eq
  rw [counted.padding_inside single (by simp),
    flatMap_zipIdx_one (f := fun e flag => if isSdu p.kind e.lcid then [] else e.header p.kind flag) ceFlag,
    flatMap_controlElements, isCe, single] at written
  refine ⟨?_, ?_, ?_, (counted.hasLength last (by simp)).endsPdu⟩
  · rw [written]
    simp [SchPdu.ceOnly, noIdx]
  · rw [headers, split.1, split.2, single]
    simp only [flatMap_append, flatMap_singleton, flatMap_nil, length_append, length_nil, pads,
      false_eq_true, if_false]
    omega
  · intro e mem
    apply counted.hasLength_wire p.onetwoPadding e
    rw [split.1, ← append_assoc, append_assoc]
    exact mem_append_left _ mem

theorem Counted.writes_sdu {before after : List Element} {e : Element} (counted : Counted p (before ++ e :: after))
    (single : p.multibytePadding = false) (idx : p.lastSduIdx = some before.length) (isSdu_ : isSdu p.kind e.lcid = true) :
    p.Writes (before ++ e :: after)
      (paddingElements p.onetwoPadding ++ controlElements p.kind (before ++ e :: after) ++ sdus p.kind before) e
      (sdus p.kind after) 0 := by
  have ceFlag : ∀ i, p.ceIsLast (before ++ e :: after).length i = false := fun i => by
    simp [SchPdu.ceIsLast, SchPdu.ceOnly, idx]
  have sduFlag : ∀ i, p.sduIsLast i = decide (i = before.length) := by
    simp [SchPdu.sduIsLast, single, idx, beq_eq_decide_eq, eq_comm]
  obtain ⟨sduSplit, ceSplit⟩ := @sdus_split p.kind before after e isSdu_
  have pads := paddingElements_headers p.kind p.onetwoPadding
  have sizes := congrArg sum (zipIdx_map_one (fun e flag => (Element.header p.kind e flag).length) before after e
    sduFlag)
  have headers := counted.headerSz_eq
  rw [sizes, single, sum_append, sum_cons, headers_split, headers_split, header_last_length] at headers
  have written := counted.written_eq
  rw [counted.padding_inside single (by simp), ceHeaders_plain ceFlag,
    flatMap_zipIdx_one (f := fun e flag => if isSdu p.kind e.lcid then e.header p.kind flag else []) sduFlag,
    flatMap_sdus, flatMap_sdus, isSdu_, single] at written
  refine ⟨?_, ?_, ?_, (counted.hasLength e (by simp)).endsPdu⟩
  · rw [written]
    simp [SchPdu.ceOnly, idx]
  · rw [headers, ceSplit]
    simp only [flatMap_append, length_append, pads, false_eq_true, if_false]
    omega
  · intro e' mem
    apply counted.hasLength_wire p.onetwoPadding e'
    rw [sduSplit, ← append_assoc]
    exact mem_append_left _ mem

/-- There is room for the header in front of the SDUs and for the padding behind them. -/
def SchPdu.Fits (p : SchPdu) : Prop :=
  p.headerSz + p.cePayloadSz ≤ p.buffer.headroom ∧ p.numPadding ≤ p.buffer.getTailroom

theorem SchPdu.Writes.writePacket_eq {front tail : List Element} {last : Element} {unused : Nat}
    (writes : p.Writes elements front last tail unused) (counted : Counted p elements) (fits : p.Fits) :
    p.writePacket = some (p.written ++ (replicate unused 0 ++
      ((sdus p.kind elements).flatMap (·.body) ++ replicate p.numPadding 0))) := by
  obtain ⟨headroom, tailroom⟩ := fits
  have total := counted.total_eq
  have headers : p.headerSz + p.cePayloadSz = p.written.length + unused := by
    rw [writes.written, writes.headerSz, counted.cePayloadSz_eq]
    simp only [length_append, header_last_length]
    omega
  unfold SchPdu.writePacket
  rw [if_neg (by omega), if_neg (by omega), if_neg (by omega), headers, drop_append_of_le_length (by simp),
    drop_replicate, Nat.add_sub_cancel_left, counted.msg, take_of_length_le (by simp; omega)]
  simp only [append_assoc]

theorem SchPdu.Writes.writePacket {front : List Element} {last : Element} {unused : Nat}
    (writes : p.Writes elements front last [] unused) (counted : Counted p elements) (fits : p.Fits) {body : List Byte}
    (bodies : front.flatMap (·.body) ++ body = (controlElements p.kind elements).flatMap (·.body) ++
      (replicate unused 0 ++ ((sdus p.kind elements).flatMap (·.body) ++ replicate p.numPadding 0))) :
    p.writePacket = some (encode p.kind front ⟨last.lcid, body⟩) := by
  have same : Element.header p.kind ⟨last.lcid, body⟩ true = last.header p.kind true := by
    simp [Element.header, SchSubh.writeSubheader]
  rw [writes.writePacket_eq counted fits, writes.written, encode, bodies, same]
  simp only [flatMap_nil, nil_append, append_assoc]

theorem writePacket_length {packet : List Byte} (wrote : p.writePacket = some packet) : packet.length = p.pduLen := by
  unfold SchPdu.writePacket at wrote
  dsimp only at wrote
  split at wrote
  · simp at wrote
  split at wrote
  · simp at wrote
  split at wrote
  · simp at wrote
  case isFalse total =>
    simp only [Option.some.injEq] at wrote
    rw [← wrote]
    simp only [ByteBuffer.nBytes] at total
    simp only [length_append, length_take, length_drop, length_replicate]
    omega

/-- Scheduling information that ends the PDU is written without its length. -/
def SchPdu.Lengthless (p : SchPdu) (elements : List Element) : Prop :=
  p.lastSduIdx = none ∧ p.remLen ≤ 2 ∧ ∃ e, elements.getLast? = some e ∧ isVarLenCe p.kind e.lcid = true

theorem Counted.packet (counted : Counted p elements) (shows_ : p.ShowsSdus elements) (inserted : elements ≠ [])
    (oneEntry : (∀ e ∈ elements, isSdu p.kind e.lcid = false) →
      ∀ e ∈ elements, isVarLenCe p.kind e.lcid = true → e.body.length = 2) (fits : p.Fits) :
    ∃ front sent last, p.wire elements = front ++ [sent] ∧ p.writePacket = some (encode p.kind front last) ∧
      (∀ e ∈ front, e.HasLength p.kind) ∧ last.EndsPdu p.kind ∧ last.lcid = sent.lcid ∧
      (¬p.Lengthless elements → last = sent) ∧ (p.Lengthless elements → sent ∈ elements ∧ last.body = sent.body ++ [0]) := by
  cases multi : p.multibytePadding with
  | true =>
    have more : 2 < p.remLen := by simpa [SchPdu.multibytePadding] using multi
    rw [SchPdu.ShowsSdus, if_pos multi] at shows_
    have writes := counted.writes_multibyte multi
    obtain ⟨front, unused⟩ := shown_multibyte shows_
    rw [front, unused] at writes
    refine ⟨_, _, _, ?_, writes.writePacket counted fits ?_, writes.hasLength, writes.endsPdu, rfl, fun _ => rfl,
      fun lengthless => absurd lengthless.2.1 (by omega)⟩
    · simp [SchPdu.wire, multi, SchPdu.onetwoPadding, paddingElements]
    · simp
  | false =>
    have few : p.remLen ≤ 2 := by simpa [SchPdu.multibytePadding] using multi
    rw [SchPdu.ShowsSdus, if_neg (by simp [multi])] at shows_
    have padding : p.numPadding = 0 := by simp [numPadding, multi]
    cases idx : p.lastSduIdx with
    | none =>
      rw [idx] at shows_
      rcases eq_nil_or_concat elements with empty | ⟨init, ce, rfl⟩
      · exact absurd empty inserted
      rw [concat_eq_append] at *
      obtain ⟨noSdus, allCes⟩ := onlyCes shows_
      obtain ⟨noneBefore, cesBefore⟩ := onlyCes fun e mem => shows_ e (mem_append_left _ mem)
      have notSdu := shows_ ce (by simp)
      have writes := counted.writes_ce multi idx notSdu
      have has := counted.hasLength ce (by simp)
      rw [noneBefore, cesBefore] at writes
      cases varLen : isVarLenCe p.kind ce.lcid with
      | false =>
        have oneByte : (ce.header p.kind false).length = 1 := by
          simp [Element.header, SchSubh.writeSubheader, hasLengthField, notSdu, varLen]
        rw [oneByte] at writes
        refine ⟨_, ce, _, ?_, writes.writePacket counted fits ?_, writes.hasLength, writes.endsPdu, rfl, fun _ => rfl, ?_⟩
        · simp [SchPdu.wire, multi, noSdus, allCes]
        · simp [paddingElements_body, noSdus, allCes, padding]
        · rintro ⟨-, -, e, ends, other⟩
          rw [getLast?_concat] at ends
          rw [← Option.some.inj ends, varLen] at other
          contradiction
      | true =>
        have field : hasLengthField p.kind ce.lcid = true := by simp [hasLengthField, varLen]
        have twoBytes : (ce.header p.kind false).length = 2 := by
          simp [Element.header, SchSubh.writeSubheader, field, oneEntry shows_ ce (by simp) varLen]
        have lengthless : p.Lengthless (init ++ [ce]) := ⟨idx, few, ce, by simp, varLen⟩
        rw [twoBytes] at writes
        refine ⟨_, ce, ⟨ce.lcid, ce.body ++ [0]⟩, ?_, writes.writePacket counted fits ?_, writes.hasLength,
          ⟨has.lcid, fun noField => by simp [field] at noField⟩, rfl, fun other => absurd lengthless other,
          fun _ => ⟨by simp, rfl⟩⟩
        · simp [SchPdu.wire, multi, noSdus, allCes]
        · simp [paddingElements_body, noSdus, allCes, padding]
    | some i =>
      rw [idx] at shows_
      obtain ⟨before, e, after, rfl, rfl, isSdu_, noMore⟩ := shows_
      have sduSplit := (@sdus_split p.kind before after e isSdu_).1
      have writes := counted.writes_sdu multi idx isSdu_
      rw [(onlyCes noMore).1] at writes sduSplit
      refine ⟨_, _, _, ?_, writes.writePacket counted fits ?_, writes.hasLength, writes.endsPdu, rfl, fun _ => rfl,
        fun lengthless => absurd (idx.symm.trans lengthless.1) (by simp)⟩
      · simp [SchPdu.wire, multi, sduSplit]
      · simp [paddingElements_body, sduSplit, padding]

theorem Holds.parse_packet (holds : Holds p elements) (inserted : elements ≠ [])
    (fixed : ∀ e ∈ controlElements p.kind elements, hasLengthField p.kind e.lcid = false) (fits : p.Fits) :
    ∃ packet, p.writePacket = some packet ∧ packet.length = p.pduLen ∧
      ∀ rest maxSubheaders, (p.wire elements).length < maxSubheaders →
        parse p.kind maxSubheaders (packet ++ rest) p.pduLen = p.wire elements := by
  have noVarLen : (∀ e ∈ elements, isSdu p.kind e.lcid = false) → ∀ e ∈ elements, isVarLenCe p.kind e.lcid ≠ true := by
    intro noSdu e mem
    have field := fixed e (by rwa [(onlyCes noSdu).2])
    simpa using (Bool.or_eq_false_iff.mp field).2
  have whole : ¬p.Lengthless elements := by
    rintro ⟨noIdx, -, e, ends, varLen⟩
    exact noVarLen (holds.shown noIdx) e (mem_of_getLast? ends) varLen
  obtain ⟨front, sent, last, wire, wrote, has, ends, -, same, -⟩ := holds.packet holds.showsSdus inserted
    (fun noSdu e mem varLen => absurd varLen (noVarLen noSdu e mem)) fits
  obtain rfl := same whole
  have length := writePacket_length wrote
  refine ⟨_, wrote, length, ?_⟩
  intro rest maxSubheaders room
  rw [wire] at room ⊢
  rw [← length]
  exact parse_encode has ends rest (by simpa using room)

theorem header_length_le (kind : Kind) (e : Element) (isLast : Bool) : (e.header kind isLast).length ≤ 3 := by
  unfold Element.header SchSubh.writeSubheader
  cases hasLengthField kind e.lcid && !isLast with
  | false => simp
  | true =>
    by_cases long : 128 ≤ e.body.length
    · simp [long]
    · simp [long]

theorem Holds.headerSz_le (holds : Holds p elements) (ul : p.kind = .ulSch) :
    p.headerSz + p.cePayloadSz ≤ 6 * elements.length + 2 := by
  have headers : ∀ l : List (Element × Nat),
      (l.map fun (e, i) => (e.header p.kind (p.sduIsLast i)).length).sum ≤ 3 * l.length := by
    intro l
    induction l with
    | nil => simp
    | cons head tail ih =>
      have := header_length_le p.kind head.1 (p.sduIsLast head.2)
      rw [map_cons, sum_cons, length_cons]
      dsimp only at ih ⊢
      omega
  have bodies : ∀ l : List Element, (∀ e ∈ l, e.HasLength p.kind) →
      ((controlElements p.kind l).flatMap (·.body)).length ≤ 3 * l.length := by
    intro l has
    induction l with
    | nil => simp [controlElements]
    | cons e tail ih =>
      have behind := ih fun e' mem => has e' (mem_cons_of_mem _ mem)
      unfold controlElements at behind ⊢
      cases isSdu_ : isSdu p.kind e.lcid with
      | true =>
        rw [filter_cons_of_neg (by simp [isSdu_])]
        simp only [length_cons]
        omega
      | false =>
        have own : e.body.length ≤ 3 := by
          rw [(has e mem_cons_self).fixed (by simp [hasLengthField, isSdu_]; simp [isVarLenCe, ul]), ul]
          simp only [sizeofCe, ulCeSize]
          repeat' split
          all_goals omega
        rw [filter_cons_of_pos (by simp [isSdu_])]
        simp only [flatMap_cons, length_append, length_cons]
        omega
  have payloads := holds.cePayloadSz_eq
  have sizes := headers elements.zipIdx
  have small := bodies elements holds.hasLength
  rw [length_zipIdx] at sizes
  rw [holds.headerSz_eq]
  have onetwo : (if p.multibytePadding then 1 else p.onetwoPadding) ≤ 2 := by
    unfold SchPdu.onetwoPadding SchPdu.multibytePadding
    by_cases multi : 2 < p.remLen
    · simp [multi]
    · simp [multi]
      omega
  omega

end

end IsrRan.Mac.Lte.Pdu
