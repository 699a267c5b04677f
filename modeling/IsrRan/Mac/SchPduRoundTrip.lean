import IsrRan.Mac.SchPduInsert

namespace IsrRan.Mac.Lte.Pdu
open List Memory

/-! What the parser makes of a PDU with more subheaders than it reads -/

section
variable {kind : Kind} {front : List Element}

theorem readSubheaders_length {mem : Memory} {pduLen room ptr ptr' : Nat} {subhs : List ReadSubh}
    (read : readSubheaders kind mem pduLen room ptr = some (subhs, ptr')) : subhs.length ≤ room := by
  induction room generalizing ptr subhs ptr' with
  | zero =>
    obtain ⟨rfl, -⟩ := Prod.mk.inj (Option.some.inj read)
    exact Nat.le_refl _
  | succ room ih =>
    unfold readSubheaders at read
    dsimp only at read
    obtain ⟨-, read⟩ := Option.ite_none_left_eq_some.mp read
    split at read
    · obtain ⟨⟨later, end_⟩, more, both⟩ := Option.map_eq_some_iff.mp read
      obtain ⟨rfl, -⟩ := Prod.mk.inj both
      exact Nat.succ_le_succ (ih more)
    · obtain ⟨rfl, -⟩ := Prod.mk.inj (Option.some.inj read)
      exact Nat.succ_le_succ (Nat.zero_le _)

theorem readPayloads_fields {pduLen ptr : Nat} {subhs placed : List ReadSubh}
    (read : readPayloads pduLen subhs ptr = some placed) :
    placed.map (fun s => (s.lcid, s.nofBytes)) = subhs.map fun s => (s.lcid, s.nofBytes) := by
  induction subhs generalizing ptr placed with
  | nil =>
    rw [← Option.some.inj read]
  | cons s subhs ih =>
    obtain ⟨inside, read⟩ := Option.ite_none_left_eq_some.mp read
    obtain ⟨later, more, rfl⟩ := Option.map_eq_some_iff.mp read
    rw [map_cons, map_cons, ih more]

theorem parse_cases (kind : Kind) (maxSubheaders : Nat) (bytes : List Byte) (pduLen : Nat) :
    parse kind maxSubheaders bytes pduLen = [] ∨ ∃ (subhs : List ReadSubh) (ptr : Nat) (before : List ReadSubh) (s : ReadSubh),
      readSubheaders kind (ofList bytes) pduLen (min maxSubheaders (max 1 (maxSubheaders - 1))) 0 =
        some (subhs, ptr) ∧
      (before ++ [s]).map (fun s => (s.lcid, s.nofBytes)) = subhs.map (fun s => (s.lcid, s.nofBytes)) ∧
      (before.map (·.sizePlusHeader kind)).sum + 1 ≤ pduLen ∧
      parse kind maxSubheaders bytes pduLen = (before ++ [{ s with
        nofBytes := pduLen - (before.map fun s : ReadSubh => s.sizePlusHeader kind).sum - 1 }]).map (elementAt (ofList bytes)) := by
  unfold parse parsePacket
  cases heads : readSubheaders kind (ofList bytes) pduLen (min maxSubheaders (max 1 (maxSubheaders - 1))) 0 with
  | none => exact .inl rfl
  | some read =>
    obtain ⟨subhs, ptr⟩ := read
    dsimp only
    cases bodies : readPayloads pduLen subhs ptr with
    | none => exact .inl rfl
    | some placed =>
      have fields := readPayloads_fields bodies
      rcases eq_nil_or_concat placed with rfl | ⟨before, s, rfl⟩
      · exact .inl rfl
      · rw [concat_eq_append] at *
        dsimp only
        rw [getLast?_concat, dropLast_concat]
        dsimp only
        split
        · exact .inr ⟨subhs, ptr, before, s, rfl, fields, by assumption, rfl⟩
        · exact .inl rfl

theorem parse_nothing (kind : Kind) (maxSubheaders : Nat) (bytes : List Byte) : parse kind maxSubheaders bytes 0 = [] := by
  rcases parse_cases kind maxSubheaders bytes 0 with nothing | ⟨_, _, _, _, -, -, inside, -⟩
  · exact nothing
  · exact absurd inside (Nat.not_succ_le_zero _)

theorem parse_length (kind : Kind) {maxSubheaders : Nat} (two : 2 ≤ maxSubheaders) (bytes : List Byte) (pduLen : Nat) :
    (parse kind maxSubheaders bytes pduLen).length ≤ maxSubheaders - 1 := by
  rcases parse_cases kind maxSubheaders bytes pduLen with nothing | ⟨subhs, ptr, before, s, heads, fields, -, read⟩
  · rw [nothing]
    exact Nat.zero_le _
  · have most := readSubheaders_length heads
    have same := congrArg length fields
    rw [read]
    simp only [length_map, length_append, length_cons, length_nil] at same ⊢
    omega

theorem parse_sizes {maxSubheaders pduLen : Nat} {bytes : List Byte} {last : Element}
    (read : parse kind maxSubheaders bytes pduLen = front ++ [last]) (has : ∀ e ∈ front, e.HasLength kind) :
    (front.map (·.size kind)).sum + 1 + last.body.length = pduLen := by
  rcases parse_cases kind maxSubheaders bytes pduLen with nothing | ⟨subhs, ptr, before, s, -, -, inside, parsed⟩
  · rw [nothing] at read
    simp at read
  · rw [read, map_append] at parsed
    obtain ⟨rfl, tail⟩ := append_inj' parsed rfl
    have size : last.body.length = pduLen - (before.map (·.sizePlusHeader kind)).sum - 1 := by
      rw [(List.cons.inj tail).1, elementAt, slice_length]
    have own : (before.map (elementAt (ofList bytes))).map (·.size kind) = before.map (·.sizePlusHeader kind) := by
      rw [map_map]
      apply map_congr_left
      intro s mem
      have whole := HasLength.sizePlusHeader (has _ (mem_map_of_mem mem)) s.payload
      rw [elementAt, slice_length] at whole
      have sized : Element.size kind (elementAt (ofList bytes) s) =
          ((elementAt (ofList bytes) s).header kind false).length + s.nofBytes := by
        rw [Element.size, elementAt, slice_length]
      exact sized.trans whole.symm
    rw [own, size]
    omega

theorem readSubheaders_lcids (has : ∀ e ∈ front, e.HasLength kind) {last : Element} (ends : last.EndsPdu kind)
    (before rest : List Byte) {room pduLen ptr : Nat} {subhs : List ReadSubh}
    (read : readSubheaders kind (ofList (before ++ (front.flatMap (·.header kind false) ++
      (last.header kind true ++ rest)))) pduLen room before.length = some (subhs, ptr)) :
    List.IsPrefix (subhs.map (·.lcid)) ((front ++ [last]).map (·.lcid)) := by
  cases room with
  | zero =>
    obtain ⟨rfl, -⟩ := Prod.mk.inj (Option.some.inj read)
    exact nil_prefix
  | succ room =>
    induction front generalizing before room subhs ptr with
    | nil =>
      unfold readSubheaders at read
      simp only [flatMap_nil, nil_append, readSubheader_last ends before rest, Bool.false_and,
        Bool.false_eq_true, if_false] at read
      obtain ⟨rfl, -⟩ := Prod.mk.inj (Option.some.inj read)
      exact prefix_refl _
    | cons e tail ih =>
      have first_ := readSubheader_header (has e mem_cons_self) before
        (tail.flatMap (·.header kind false) ++ (last.header kind true ++ rest))
      unfold readSubheaders at read
      simp only [flatMap_cons, append_assoc, first_, Bool.true_and] at read
      obtain ⟨-, read⟩ := Option.ite_none_left_eq_some.mp read
      rw [cons_append, map_cons]
      cases room with
      | zero =>
        obtain ⟨rfl, -⟩ := Prod.mk.inj (Option.some.inj read)
        exact (prefix_cons_inj _).mpr nil_prefix
      | succ room =>
        rw [if_pos (by simp)] at read
        obtain ⟨⟨later, end_⟩, more, both⟩ := Option.map_eq_some_iff.mp read
        obtain ⟨rfl, -⟩ := Prod.mk.inj both
        have behind := @ih (fun e' mem => has e' (mem_cons_of_mem _ mem)) (before ++ e.header kind false) end_ later room
        rw [length_append, append_assoc] at behind
        exact (prefix_cons_inj _).mpr (behind more)

theorem parse_lcids (has : ∀ e ∈ front, e.HasLength kind) {last : Element} (ends : last.EndsPdu kind) (rest : List Byte)
    (maxSubheaders pduLen : Nat) :
    List.IsPrefix ((parse kind maxSubheaders (front.flatMap (·.header kind false) ++ (last.header kind true ++ rest))
      pduLen).map (·.lcid)) ((front ++ [last]).map (·.lcid)) := by
  rcases parse_cases kind maxSubheaders (front.flatMap (·.header kind false) ++ (last.header kind true ++ rest)) pduLen with
    nothing | ⟨subhs, ptr, before, s, heads, fields, -, read⟩
  · rw [nothing]
    exact nil_prefix
  · have lcids := readSubheaders_lcids has ends [] rest heads
    have same := congrArg (map Prod.fst) fields
    rw [map_map, map_map] at same
    rw [read]
    refine Eq.mp (congrArg (List.IsPrefix · _) ?_) lcids
    refine same.symm.trans ?_
    rw [map_map, map_append, map_append]
    rfl

end

/-! What is written -/

section
variable {p : SchPdu} {elements : List Element}

theorem Counted.writePacket_none {len : Nat} (holds : Counted { p with pduLen := len } elements) (short : len ≠ p.pduLen) :
    p.writePacket = none := by
  have total : p.buffer.nBytes + (p.headerSz + p.cePayloadSz) + p.numPadding = len := holds.total_eq
  unfold SchPdu.writePacket
  by_cases headroom : p.buffer.headroom < p.headerSz + p.cePayloadSz
  · exact if_pos headroom
  · rw [if_neg headroom]
    by_cases tailroom : p.buffer.getTailroom < p.numPadding
    · exact if_pos tailroom
    · rw [if_neg tailroom, total]
      exact if_pos short

end

def SchPdu.nofPaddingSubheaders (p : SchPdu) : Nat := if 2 < p.remLen then 1 else p.remLen

/-- What was inserted is written into the whole PDU and read back by a receiver with as many subheaders, whatever stands
behind the PDU in memory. -/
def RoundTrips (p : SchPdu) (elements : List Element) : Prop :=
  ∃ packet, p.writePacket = some packet ∧ packet.length = p.pduLen ∧
    ∀ rest, (parse p.kind p.maxSubheaders (packet ++ rest) p.pduLen).filter (fun e => e.lcid ≠ Lcid.padding) =
      controlElements p.kind elements ++ sdus p.kind elements

/-- Before `write_packet`: what was charged too much for the entries of scheduling information is what was never charged
for SDUs, `last_sdu_idx` shows the SDUs, no scheduling information ends the PDU, and there is a subheader to spare. -/
structure Carries (p : SchPdu) (elements : List Element) (uncharged : Nat) : Prop where
  charged : waste p.kind elements = uncharged
  showsSdus : p.ShowsSdus elements
  lastLength : ¬p.Lengthless elements
  readable : elements ≠ [] → elements.length + p.nofPaddingSubheaders < p.maxSubheaders

section
variable {p : SchPdu} {elements : List Element}

theorem wire_length (p : SchPdu) (elements : List Element) :
    (p.wire elements).length = elements.length + p.nofPaddingSubheaders := by
  have parts : (controlElements p.kind elements).length + (sdus p.kind elements).length = elements.length := by
    have split := length_eq_length_filter_add (l := elements) fun e => !isSdu p.kind e.lcid
    simp only [Bool.not_not] at split
    exact split.symm
  unfold SchPdu.wire SchPdu.nofPaddingSubheaders SchPdu.onetwoPadding SchPdu.multibytePadding paddingElements
  by_cases multi : 2 < p.remLen
  · simp [multi]
    omega
  · simp [multi]
    omega

theorem wire_filter (proper : ∀ e ∈ elements, e.lcid < Lcid.padding) :
    (p.wire elements).filter (fun e => e.lcid ≠ Lcid.padding) = controlElements p.kind elements ++ sdus p.kind elements := by
  have kept : ∀ l : List Element, (∀ e ∈ l, e ∈ elements) → l.filter (fun e => e.lcid ≠ Lcid.padding) = l := by
    intro l sub
    apply List.filter_eq_self.mpr
    intro e mem
    exact decide_eq_true (Nat.ne_of_lt (proper e (sub e mem)))
  have controls := kept (controlElements p.kind elements) fun e mem => (List.mem_filter.mp mem).1
  have sdus_ := kept (sdus p.kind elements) fun e mem => (List.mem_filter.mp mem).1
  have pads : (paddingElements p.onetwoPadding).filter (fun e => e.lcid ≠ Lcid.padding) = [] := by
    apply List.filter_eq_nil_iff.mpr
    intro e mem
    rw [eq_of_mem_replicate mem]
    simp
  unfold SchPdu.wire
  rw [filter_append, filter_append, filter_append, controls, sdus_, pads]
  by_cases multi : p.multibytePadding = true
  · simp
  · simp

/-! A PDU of padding only -/

theorem parse_padding (kind : Kind) (maxSubheaders n : Nat) (rest : List Byte) :
    (parse kind maxSubheaders (replicate n 31 ++ rest) n).filter (fun e => e.lcid ≠ Lcid.padding) = [] := by
  cases n with
  | zero => rw [parse_nothing, filter_nil]
  | succ n =>
    have shape : replicate (n + 1) 31 = encode kind [] ⟨Lcid.padding, replicate n 31⟩ := by
      cases kind <;> rfl
    have length : (encode kind [] ⟨Lcid.padding, replicate n 31⟩).length = n + 1 := by
      rw [← shape, length_replicate]
    rcases Nat.eq_zero_or_pos maxSubheaders with rfl | some_
    · rfl
    · have noElement : ∀ e ∈ ([] : List Element), e.HasLength kind := by
        intro e mem
        exact absurd mem not_mem_nil
      have read := parse_encode_of_room noElement (paddingElement_endsPdu kind (replicate n 31)) rest
        (show 0 < min maxSubheaders (max 1 (maxSubheaders - 1)) by omega)
      rw [length, ← shape] at read
      rw [read]
      rfl

theorem Holds.roundTrips_nil (holds : Holds p []) (fits : p.Fits) : RoundTrips p [] := by
  by_cases multi : p.multibytePadding = true
  · have writes := holds.writes_multibyte multi
    obtain ⟨front, unused⟩ := shown_multibyte holds.shown
    rw [front, unused] at writes
    have wrote := @SchPdu.Writes.writePacket _ _ _ _ _ writes holds.toCounted fits (replicate p.numPadding 0)
      (by simp [sdus, controlElements])
    have length := writePacket_length wrote
    refine ⟨_, wrote, length, ?_⟩
    intro rest
    rw [← length]
    rcases Nat.eq_zero_or_pos p.maxSubheaders with none_ | some_
    · rw [none_]
      rfl
    · have noElement : ∀ e ∈ ([] : List Element), e.HasLength p.kind := by
        intro e mem
        exact absurd mem not_mem_nil
      have read := parse_encode_of_room noElement (paddingElement_endsPdu p.kind (replicate p.numPadding 0)) rest
        (show 0 < min p.maxSubheaders (max 1 (p.maxSubheaders - 1)) by omega)
      refine (congrArg (filter _) read).trans ?_
      rfl
  · have single : p.multibytePadding = false := Bool.eq_false_iff.mpr multi
    have onetwo : p.onetwoPadding = p.remLen := by simp [SchPdu.onetwoPadding, single]
    have padding : p.numPadding = 0 := by simp [SchPdu.numPadding, single]
    have noIdx : p.lastSduIdx = none := by
      cases idx : p.lastSduIdx with
      | none => rfl
      | some i =>
        have last := holds.lastSdu
        rw [idx] at last
        obtain ⟨before, e, after, split, -⟩ := last
        simp at split
    have rem := holds.rem
    rw [lastSduExtension_of_none noIdx] at rem
    have rem : p.remLen = p.pduLen := rem
    have counted := holds.headerSz_eq
    have payloads := holds.cePayloadSz_eq
    have written := holds.written_eq
    have oneByte : Element.header p.kind ⟨Lcid.padding, []⟩ true = [31] := by cases p.kind <;> rfl
    have bytes : p.written = replicate p.pduLen 31 := by
      rw [written, onetwo, rem, single]
      simp [paddingElements, controlElements, oneByte, flatMap]
    have msg : p.buffer.msg = [] := holds.msg
    have header : p.headerSz + p.cePayloadSz = p.pduLen := by
      rw [counted, payloads, single, onetwo, rem]
      simp [controlElements]
    have total := holds.total_eq
    obtain ⟨headroom, tailroom⟩ := fits
    refine ⟨replicate p.pduLen 31, ?_, length_replicate, fun rest => parse_padding _ _ _ rest⟩
    unfold SchPdu.writePacket
    rw [if_neg (by omega), if_neg (by omega), if_neg (by omega), header, bytes, padding, msg]
    simp

/-! The round trip -/

theorem countP_wire_take (p : SchPdu) (elements : List Element) (n : Nat) :
    ((p.wire elements).take n).countP (fun e => decide (e.lcid ≠ Lcid.padding)) ≤ n - p.onetwoPadding := by
  unfold SchPdu.wire
  rw [append_assoc, append_assoc, take_append, countP_append]
  have pads : ((paddingElements p.onetwoPadding).take n).countP (fun e => decide (e.lcid ≠ Lcid.padding)) = 0 := by
    apply List.countP_eq_zero.mpr
    intro e mem
    rw [eq_of_mem_replicate (mem_of_mem_take mem)]
    simp
  rw [pads, Nat.zero_add]
  refine (countP_le_length).trans ?_
  rw [length_take]
  exact (Nat.min_le_left _ _).trans (by simp [paddingElements])

theorem Counted.not_roundTrips_cut (counted : Counted p elements) (inserted : elements ≠ [])
    (room : elements.length < p.maxSubheaders) (full : p.maxSubheaders ≤ elements.length + p.nofPaddingSubheaders)
    {front : List Element} {sent last : Element} (wire : p.wire elements = front ++ [sent])
    (wrote : p.writePacket = some (encode p.kind front last)) (has : ∀ e ∈ front, e.HasLength p.kind)
    (ends : last.EndsPdu p.kind) (lcid : last.lcid = sent.lcid) : ¬RoundTrips p elements := by
  rintro ⟨packet, same, -, reads⟩
  obtain rfl := Option.some.inj (wrote.symm.trans same)
  have some_ : 0 < elements.length := List.length_pos_iff.mpr inserted
  have read := reads []
  have shape : encode p.kind front last ++ [] = front.flatMap (·.header p.kind false) ++
      (last.header p.kind true ++ (front.flatMap (·.body) ++ last.body)) := by
    simp [encode]
  have lcids := parse_lcids has ends (front.flatMap (·.body) ++ last.body) p.maxSubheaders p.pduLen
  have most := parse_length p.kind (show 2 ≤ p.maxSubheaders by omega) (encode p.kind front last ++ []) p.pduLen
  have parts : (controlElements p.kind elements ++ sdus p.kind elements).length = elements.length := by
    have split := length_eq_length_filter_add (l := elements) fun e => !isSdu p.kind e.lcid
    simp only [Bool.not_not] at split
    rw [length_append]
    exact split.symm
  rw [← shape] at lcids
  have sameLcids : (front ++ [last]).map (·.lcid) = (p.wire elements).map (·.lcid) := by simp [wire, lcid]
  generalize parsed : parse p.kind p.maxSubheaders (encode p.kind front last ++ []) p.pduLen = back at read lcids most
  have kept := congrArg length read
  rw [← countP_eq_length_filter, parts] at kept
  unfold SchPdu.nofPaddingSubheaders at full
  by_cases multi : 2 < p.remLen
  · rw [if_pos multi] at full
    have whole := countP_le_length (p := fun e : Element => decide (e.lcid ≠ Lcid.padding)) (l := back)
    rw [List.filter_eq_self.mpr (List.countP_eq_length.mp (by omega))] at read
    rcases eq_nil_or_concat back with rfl | ⟨before, cut, rfl⟩
    · simp only [length_nil] at whole
      omega
    rw [concat_eq_append] at *
    have hasLength := counted.hasLength_wire 0
    have sizes := parse_sizes parsed fun e mem => hasLength e (by
      rw [paddingElements, replicate_zero, nil_append, ← read]
      exact mem_append_left _ mem)
    have rem := counted.rem
    have all := congrArg (fun l : List Element => (l.map (·.size p.kind)).sum) read
    have extension := lastSduExtension_le p
    have byte := @header_length_pos p.kind cut false
    have size : Element.size p.kind cut = (cut.header p.kind false).length + cut.body.length := rfl
    have split := sum_map_filter (fun e : Element => isSdu p.kind e.lcid) (·.size p.kind) elements
    simp only [map_append, sum_append, map_singleton, sum_singleton] at all
    unfold controlElements sdus at all
    omega
  · have onetwo : p.onetwoPadding = p.remLen := by simp [SchPdu.onetwoPadding, SchPdu.multibytePadding, multi]
    rw [if_neg multi] at full
    have count : ∀ l : List Element, l.countP (fun e => decide (e.lcid ≠ Lcid.padding)) =
        (l.map (·.lcid)).countP (fun lcid => decide (lcid ≠ Lcid.padding)) := by
      intro l
      rw [countP_map]
      rfl
    have few := countP_wire_take p elements back.length
    rw [sameLcids, prefix_iff_eq_take, length_map] at lcids
    rw [count, map_take, ← lcids, ← count] at few
    omega

/-! What `last_sdu_idx` does not show -/

theorem SchPdu.Writes.not_roundTrips {front tail : List Element} {last : Element} {unused : Nat}
    (writes : p.Writes elements front last tail unused) (counted : Counted p elements) (fits : p.Fits)
    (fewer : (sdus p.kind (front ++ [last])).length < (sdus p.kind elements).length) : ¬RoundTrips p elements := by
  rintro ⟨packet, wrote, -, reads⟩
  obtain rfl := Option.some.inj ((writes.writePacket_eq counted fits).symm.trans wrote)
  have read := reads []
  rw [writes.written] at read
  simp only [append_assoc] at read
  have lcids := parse_lcids writes.hasLength writes.endsPdu (tail.flatMap (·.header p.kind false) ++
    ((controlElements p.kind elements).flatMap (·.body) ++ (replicate unused 0 ++
      ((sdus p.kind elements).flatMap (·.body) ++ (replicate p.numPadding 0 ++ []))))) p.maxSubheaders p.pduLen
  have count : ∀ l : List Element, (sdus p.kind l).length = (l.map (·.lcid)).countP (fun lcid => isSdu p.kind lcid) := by
    intro l
    rw [countP_map, countP_eq_length_filter]
    rfl
  have most := lcids.sublist.countP_le (p := fun lcid => isSdu p.kind lcid)
  rw [← count, ← count] at most
  generalize parse p.kind p.maxSubheaders _ p.pduLen = back at read most
  have kept := ((filter_sublist (p := fun e : Element => decide (e.lcid ≠ Lcid.padding))
    (l := back)).filter fun e => isSdu p.kind e.lcid).length_le
  rw [read, filter_append] at kept
  have all : (sdus p.kind elements).filter (fun e => isSdu p.kind e.lcid) = sdus p.kind elements := by
    simp [sdus]
  rw [all, length_append] at kept
  unfold sdus at most fewer kept
  omega

theorem sdus_length_pos {e : Element} (mem : e ∈ elements) (isSdu_ : isSdu p.kind e.lcid = true) :
    0 < (sdus p.kind elements).length :=
  length_pos_of_mem (List.mem_filter.mpr ⟨mem, isSdu_⟩)

theorem sdus_controlElements (kind : Kind) (n : Nat) (l : List Element) :
    sdus kind (paddingElements n ++ controlElements kind l) = [] := by
  have padding : isSdu kind Lcid.padding = false := by cases kind <;> rfl
  simp [sdus, controlElements, paddingElements, padding]

theorem Counted.not_roundTrips_hidden (counted : Counted p elements) (hidden : ¬p.ShowsSdus elements)
    (last : ∀ e, elements.getLast? = some e → isSdu p.kind e.lcid = true → LastSdu p.kind elements p.lastSduIdx)
    (fits : p.Fits) : ¬RoundTrips p elements := by
  unfold SchPdu.ShowsSdus at hidden
  cases multi : p.multibytePadding with
  | true =>
    rw [if_pos multi] at hidden
    push Not at hidden
    obtain ⟨noIdx, e, mem, isSdu_⟩ := hidden
    refine (counted.writes_multibyte multi).not_roundTrips counted fits ?_
    have none_ : sdus p.kind (controlElements p.kind elements ++ [⟨Lcid.padding, replicate p.numPadding 0⟩]) = [] := by
      have padding : isSdu p.kind Lcid.padding = false := by cases p.kind <;> rfl
      simp [sdus, controlElements, padding]
    rw [show p.ceOnly = true by simp [SchPdu.ceOnly, noIdx], if_pos rfl, append_nil, none_]
    exact sdus_length_pos mem (by simpa using isSdu_)
  | false =>
    rw [if_neg (by simp [multi])] at hidden
    cases idx : p.lastSduIdx with
    | none =>
      rw [idx] at hidden last
      obtain ⟨e, mem, isSdu_⟩ : ∃ e ∈ elements, isSdu p.kind e.lcid = true := by
        simpa [LastSdu] using hidden
      rcases eq_nil_or_concat elements with rfl | ⟨init, final, rfl⟩
      · contradiction
      rw [concat_eq_append] at *
      cases isCe : isSdu p.kind final.lcid with
      | true => exact absurd (last final (by simp) isCe) hidden
      | false =>
        refine (counted.writes_ce multi idx isCe).not_roundTrips counted fits ?_
        rw [sdus_append, sdus_controlElements, (onlyCes (l := [final]) (by simpa using isCe)).1]
        exact sdus_length_pos mem isSdu_
    | some i =>
      obtain ⟨before, e, after, rfl, rfl, isSdu_⟩ := counted.sduAt i idx
      by_cases more : ∃ e' ∈ after, isSdu p.kind e'.lcid = true
      · obtain ⟨e', mem, sdu⟩ := more
        have some_ := sdus_length_pos mem sdu
        refine (counted.writes_sdu multi idx isSdu_).not_roundTrips counted fits ?_
        rw [(@sdus_split p.kind before after e isSdu_).1, sdus_append, sdus_append, sdus_controlElements]
        simp [sdus, isSdu_] at some_ ⊢
        omega
      · rw [idx] at hidden
        refine absurd ⟨before, e, after, rfl, rfl, isSdu_, fun e' mem => ?_⟩ hidden
        exact Bool.eq_false_iff.mpr fun sdu => more ⟨e', mem, sdu⟩

theorem Counted.roundTrips_iff (counted : Counted p elements) (inserted : elements ≠ [])
    (proper : ∀ e ∈ elements, e.lcid < Lcid.padding) (room : elements.length < p.maxSubheaders)
    (oneEntry : (∀ e ∈ elements, isSdu p.kind e.lcid = false) →
      ∀ e ∈ elements, isVarLenCe p.kind e.lcid = true → e.body.length = 2)
    (ends_ : ∀ e, elements.getLast? = some e → isSdu p.kind e.lcid = true → LastSdu p.kind elements p.lastSduIdx)
    (fits : p.Fits) :
    RoundTrips p elements ↔ p.ShowsSdus elements ∧ ¬p.Lengthless elements ∧
      elements.length + p.nofPaddingSubheaders < p.maxSubheaders := by
  by_cases shows_ : p.ShowsSdus elements
  swap
  · exact iff_of_false (counted.not_roundTrips_hidden shows_ ends_ fits) fun all => shows_ all.1
  obtain ⟨front, sent, last, wire, wrote, has, ends, lcid, good, bad⟩ :=
    counted.packet shows_ inserted oneEntry fits
  have length := writePacket_length wrote
  have wireLength := wire_length p elements
  have filtered := @wire_filter p elements proper
  by_cases readable : elements.length + p.nofPaddingSubheaders < p.maxSubheaders
  · have enough : front.length + 1 < p.maxSubheaders := by
      rw [wire, length_append, length_singleton] at wireLength
      omega
    rw [wire, filter_append] at filtered
    constructor
    · rintro ⟨packet, same, -, reads⟩
      obtain rfl := Option.some.inj (wrote.symm.trans same)
      refine ⟨shows_, fun lengthless => ?_, readable⟩
      obtain ⟨mem, body⟩ := bad lengthless
      have read := reads []
      rw [← length, parse_encode has ends [] enough, filter_append, ← filtered] at read
      have tails := append_cancel_left read
      have known : sent.lcid ≠ Lcid.padding := Nat.ne_of_lt (proper sent mem)
      have kept : ∀ e : Element, e.lcid ≠ Lcid.padding → [e].filter (fun e => decide (e.lcid ≠ Lcid.padding)) = [e] :=
        fun e own => by simp [own]
      rw [kept last (by rw [lcid]; exact known), kept sent known] at tails
      have same := congrArg (fun e => e.body.length) (List.cons.inj tails).1
      rw [body] at same
      simp at same
    · rintro ⟨-, whole, -⟩
      obtain rfl := good whole
      refine ⟨_, wrote, length, ?_⟩
      intro rest
      rw [← length, parse_encode has ends rest enough, filter_append]
      exact filtered
  · constructor
    · intro trips
      exact absurd trips (counted.not_roundTrips_cut inserted room (Nat.le_of_not_lt readable) wire wrote has ends lcid)
    · exact fun all => absurd all.2.2 readable

end

theorem Inserted.roundTrips_iff {kind : Kind} {maxSubheaders pduLen : Nat} {s : Assembly}
    (inserted : Inserted kind maxSubheaders pduLen s) (enough : EnoughRoom s.pdu s.elements) :
    RoundTrips s.pdu s.elements ↔ Carries s.pdu s.elements s.uncharged := by
  obtain ⟨headroom, behind⟩ := enough
  have within := inserted.wasted
  have proper := fun e mem => (inserted.proper e mem).1
  obtain rfl : s.pdu.kind = kind := inserted.kind_eq
  obtain rfl : s.pdu.pduLen = pduLen := inserted.pduLen_eq
  by_cases charged : waste s.pdu.kind s.elements = s.uncharged
  · have counted : Counted s.pdu s.elements := by
      have left : s.pdu.pduLen + s.uncharged - waste s.pdu.kind s.elements = s.pdu.pduLen := by omega
      have counted := inserted.counted
      rw [left] at counted
      exact counted
    have rem := counted.rem
    have tailroom : s.pdu.numPadding ≤ s.pdu.buffer.getTailroom := by
      unfold SchPdu.numPadding
      split
      · omega
      · exact Nat.zero_le _
    have nothing : (∀ e ∈ s.elements, isSdu s.pdu.kind e.lcid = false) → s.uncharged = 0 := by
      intro noSdu
      by_contra some_
      obtain ⟨e, mem, isSdu_⟩ := inserted.late some_
      rw [noSdu e mem] at isSdu_
      contradiction
    by_cases none_ : s.elements = []
    · have newest := inserted.newest (nothing (by simp [none_]))
      have holds : Holds s.pdu s.elements := ⟨counted, newest⟩
      have trips : RoundTrips s.pdu s.elements := by
        rw [none_] at holds ⊢
        exact holds.roundTrips_nil ⟨headroom, tailroom⟩
      refine iff_of_true trips ⟨charged, holds.showsSdus, ?_, fun some_ => absurd none_ some_⟩
      rintro ⟨-, -, e, ends, -⟩
      simp [none_] at ends
    · have room := inserted.room none_
      rw [← inserted.maxSubheaders_eq] at room
      rw [counted.roundTrips_iff none_ proper room ?_ ?_ ⟨headroom, tailroom⟩]
      · exact ⟨fun all => ⟨charged, all.1, all.2.1, fun _ => all.2.2⟩,
          fun carries => ⟨carries.showsSdus, carries.lastLength, carries.readable none_⟩⟩
      · intro noSdu e mem varLen
        have two := (inserted.proper e mem).2 varLen
        rw [nothing noSdu] at charged
        have own := List.sum_eq_zero_iff_forall_eq_nat.mp charged (e.waste s.pdu.kind) (mem_map_of_mem mem)
        unfold Element.waste at own
        rw [if_pos varLen] at own
        omega
      · intro e ends isSdu_
        rcases inserted.last e ends isSdu_ with newest | full
        · exact newest
        · omega
  · refine iff_of_false ?_ fun carries => charged carries.charged
    rintro ⟨packet, wrote, -⟩
    have none_ : s.pdu.writePacket = none := inserted.counted.writePacket_none (by omega)
    rw [none_] at wrote
    contradiction

theorem insertSubhs_roundTrips_iff (kind : Kind) (maxSubheaders pduLen headroom : Nat) (insertions : List Insertion)
    (legal : ∀ insertion ∈ insertions, insertion.Legal kind)
    (enough : ∀ s, insertSubhs { pdu := SchPdu.initTx kind maxSubheaders { headroom } pduLen } insertions = .ok s →
      EnoughRoom s.pdu s.elements) :
    (∃ s, insertSubhs { pdu := SchPdu.initTx kind maxSubheaders { headroom } pduLen } insertions = .ok s ∧
        RoundTrips s.pdu s.elements) ↔
      ∃ s, insertSubhs { pdu := SchPdu.initTx kind maxSubheaders { headroom } pduLen } insertions = .ok s ∧
        Carries s.pdu s.elements s.uncharged := by
  refine exists_congr fun s => and_congr_right fun run => ?_
  exact ((Inserted.initTx kind maxSubheaders pduLen headroom).insertSubhs legal run).roundTrips_iff (enough s run)

theorem taCmdAndSdu_roundTrips :
    ∃ s, insertSubhs { pdu := SchPdu.initTx .dlSch 20 {} 10 } [.ce (.taCmd 5), .sduPayload 3 [1, 2, 3]] = .ok s ∧
      RoundTrips s.pdu s.elements := by
  apply (insertSubhs_roundTrips_iff .dlSch 20 10 bufferHeaderOffset [.ce (.taCmd 5), .sduPayload 3 [1, 2, 3]] ?_ ?_).mpr
  · refine ⟨_, rfl, rfl, ?_, ?_, ?_⟩
    · intro noIdx
      contradiction
    · rintro ⟨noIdx, -⟩
      contradiction
    · intro _
      decide
  · intro insertion mem
    simp only [mem_cons, not_mem_nil, or_false] at mem
    rcases mem with rfl | rfl
    · rfl
    · exact ⟨rfl, by decide, by decide⟩
  · intro s run
    obtain rfl := Except.ok.inj run
    exact ⟨by decide, by decide⟩

theorem twoSchedEntries_lost :
    ¬∃ s, insertSubhs { pdu := SchPdu.initTx .mch 20 {} 20 } [.mchSchedInfo [(1, 10), (2, 20)]] = .ok s ∧
      RoundTrips s.pdu s.elements := by
  rintro ⟨s, run, packet, wrote, -⟩
  have lost : s.pdu.writePacket = none := by
    rw [← Except.ok.inj run]
    rfl
  rw [lost] at wrote
  contradiction

end IsrRan.Mac.Lte.Pdu
