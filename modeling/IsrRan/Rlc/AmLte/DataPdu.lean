import IsrRan.Rlc.AmLte.DataPduEnd

namespace IsrRan.Rlc.AmLte.Tx
open DataBuild List

variable {tx tx' : Tx} {nofBytes space : Nat} {sdu : TxSdu} {b b' : DataBuild} {h : PduHeader}

/-- The PDU is no longer than the grant, and its length indicators cut its data where one of the SDUs to send ends and
the next one begins; its framing info says if the first SDU starts and the last one ends in it. -/
structure Carried (tx tx' : Tx) (nofBytes : Nat) (pdu : List Byte) : Prop where
  short : pdu.length ≤ nofBytes
  cuts : ∃ header headLen whole part rest later,
    readDataPduHeader (Memory.ofList pdu) = .ok (header, headLen) ∧
    cut header.li (pdu.drop headLen) = whole ++ [part] ∧ part ≠ [] ∧
    tx.unsent = whole ++ (part ++ rest) :: later ∧
    tx'.unsent = (if rest = [] then later else rest :: later) ∧
    startAligned header.fi = tx.txSdu.isNone ∧ endAligned header.fi = rest.isEmpty

def Faithful (tx : Tx) (nofBytes : Nat) : Prop :=
  ∃ tx' pdu, tx.buildDataPdu nofBytes = .ok (tx', pdu) ∧
    (pdu = [] ∧ tx'.unsent = tx.unsent ∨ Carried tx tx' nofBytes pdu)

structure Ready (tx : Tx) (nofBytes : Nat) : Prop where
  window : tx.windowFull = false
  grant : minDataPduSize ≤ nofBytes
  nonempty : [] ∉ tx.unsent

/-- Too much of the SDU that the last PDU ended in is moved for the tailroom that is left: the space does not shrink by
as much, and another SDU is taken. -/
def Overruns (tx : Tx) (space : Nat) (sdu : TxSdu) : Prop :=
  tx.sdus ≠ [] ∧ ((tx.addPdu tx.vtS).bookRest tx.vtS sdu).segmentPool.hasSegments = true ∧
    bufferTailroom < 2 * min sdu.msg.length (space - headerLength 0) ∧
    bufferTailroom + headerLength 1 < space + min sdu.msg.length (space - headerLength 0)

/-- Something is left in the queue but for SDUs that have been discarded, no SDU of 2048 bytes or more is followed by
another one in the PDU, and the space is not overrun. -/
def Carriable (tx : Tx) (nofBytes : Nat) : Prop :=
  tx.segmentPool.hasSegments = true →
    match tx.txSdu with
    | none => (tx.sdus = [] → tx.txSduQueue = []) ∧
        ShortBefore tx.vtS (min nofBytes bufferTailroom) (tx.addPdu tx.vtS) 0 0 0 tx.sdus
    | some sdu => ¬ tx.Overruns (min nofBytes bufferTailroom) sdu ∧
        ShortBefore tx.vtS (min nofBytes bufferTailroom) ((tx.addPdu tx.vtS).bookRest tx.vtS sdu) sdu.msg.length 1
          sdu.msg.length tx.sdus

def startBuild (tx : Tx) (nofBytes : Nat) : DataBuild where
  tx := tx.addPdu tx.vtS
  header := { dc := .dataPdu, sn := tx.vtS }
  headLen := headerLength 0
  pduSpace := min nofBytes bufferTailroom

theorem buildDataPdu_eq (ready : tx.Ready nofBytes) (segments : tx.segmentPool.hasSegments = true)
    (some_ : tx.txSdu = none → tx.txSduQueue ≠ []) :
    tx.buildDataPdu nofBytes = (do
      let b ← (tx.startBuild nofBytes).continueSdu
      match ← b.pullSdus b.tx.txSduQueue.length with
      | .inl tx => .ok (tx, [])
      | .inr b => .ok (finishDataPdu b)) := by
  have go : ¬ (tx.txSdu.isNone && tx.txSduQueue.isEmpty || tx.windowFull || nofBytes < minDataPduSize ||
      !tx.segmentPool.hasSegments) = true := by
    have grant := Nat.not_lt.mpr ready.grant
    cases current : tx.txSdu with
    | none => simp [ready.window, grant, segments, some_ current]
    | some sdu => simp [ready.window, grant, segments]
  unfold buildDataPdu
  rw [if_neg go]
  rfl

theorem hasSegments_releasePdu {pool : SegmentPool} (segments : pool.hasSegments = true) (ids : List Nat) :
    (pool.releasePdu ids).hasSegments = true := by
  induction ids generalizing pool with
  | nil => exact segments
  | cons id ids ih =>
    apply ih
    unfold SegmentPool.releaseRlcSn SegmentPool.release SegmentPool.hasSegments
    split
    · rfl
    · exact segments

theorem hasSegments_addPdu (segments : tx.segmentPool.hasSegments = true) (sn : Nat) :
    (tx.addPdu sn).segmentPool.hasSegments = true := by
  unfold addPdu
  split
  · exact hasSegments_releasePdu segments _
  · exact segments

theorem finishDataPdu_pdu (b : DataBuild) :
    ∃ p, (finishDataPdu b).2 =
      writeDataPduHeader { b.header with p, fi := if b.tx.txSdu.isSome then b.header.fi ||| 1 else b.header.fi } ++
        b.pdu :=
  ⟨_, rfl⟩

theorem finishDataPdu_unsent (b : DataBuild) : (finishDataPdu b).1.unsent = b.tx.unsent := by
  unfold finishDataPdu
  dsimp only
  split <;> rfl

theorem writeDataPduHeader_length {header : PduHeader} (whole : header.rf = false) :
    (writeDataPduHeader header).length = headerLength header.li.length := by
  unfold writeDataPduHeader headerLength
  rw [whole]
  simp [liBytes_length]
  omega

theorem finishDataPdu_read (data : b.header.dc = .dataPdu) (whole : b.header.rf = false)
    (fi : b.header.fi = if tx.txSdu.isSome then 2 else 0) (few : b.header.li.length ≤ windowSize) :
    ∃ header headLen, readDataPduHeader (Memory.ofList (finishDataPdu b).2) = .ok (header, headLen) ∧
      header.li = b.header.li.map (· % 2048) ∧ (finishDataPdu b).2.drop headLen = b.pdu ∧
      startAligned header.fi = tx.txSdu.isNone ∧ endAligned header.fi = b.tx.txSdu.isNone ∧
      (finishDataPdu b).2.length = headerLength b.header.li.length + b.pdu.length := by
  obtain ⟨p, pdu⟩ := finishDataPdu_pdu b
  obtain ⟨header, eq⟩ : ∃ header : PduHeader, header = { b.header with
      p
      fi := if b.tx.txSdu.isSome then b.header.fi ||| 1 else b.header.fi } := ⟨_, rfl⟩
  rw [← eq] at pdu
  have data' : header.dc = .dataPdu := by rw [eq]; exact data
  have whole' : header.rf = false := by rw [eq]; exact whole
  have li : header.li = b.header.li := by rw [eq]
  have small : header.fi < 4 ∧ startAligned header.fi = tx.txSdu.isNone ∧ endAligned header.fi = b.tx.txSdu.isNone := by
    rw [eq]
    rw [fi]
    cases tx.txSdu <;> cases b.tx.txSdu <;> simp [startAligned, endAligned]
  have read := readDataPduHeader_write data' whole' small.1 (li ▸ few) b.pdu
  rw [← pdu] at read
  refine ⟨_, _, read, ?_, ?_, small.2.1, small.2.2, ?_⟩
  · dsimp only
    rw [li]
  · rw [pdu, drop_left]
  · rw [pdu, length_append, writeDataPduHeader_length whole', li]

theorem carried_of_ended {whole : List (List Byte)} {part rest : List Byte} {later : List (List Byte)}
    (ended : Ended h space tx.unsent b whole part rest later) (data : h.dc = .dataPdu) (rf : h.rf = false)
    (fi : h.fi = if tx.txSdu.isSome then 2 else 0) (room : space ≤ nofBytes) :
    Carried tx (finishDataPdu b).1 nofBytes (finishDataPdu b).2 := by
  have few : b.header.li.length ≤ windowSize := by
    rw [ended.header]
    rw [length_map]
    exact Nat.le_trans ended.few (by decide)
  obtain ⟨header, headLen, read, li, pdu, start, end_, length⟩ := @finishDataPdu_read tx b
    (by rw [ended.header]; exact data) (by rw [ended.header]; exact rf) (by rw [ended.header]; exact fi) few
  have fits := ended.fits
  have lis : header.li = whole.map List.length := by
    rw [li, ended.header, map_map]
    exact map_congr_left fun piece mem => Nat.mod_eq_of_lt (ended.short piece mem)
  refine ⟨?_, header, headLen, whole, part, rest, later, read, ?_, ended.nonempty, ended.stream, ?_, start, ?_⟩
  · rw [ended.header] at length
    rw [length_map] at length
    omega
  · rw [pdu, lis, ended.pdu]
    exact cut_flatten whole part
  · rw [finishDataPdu_unsent, ended.unsent]
  · rw [end_, ← Option.not_isSome, ended.txSdu, Bool.not_not]

theorem not_carried_of_overflows (data : b.header.dc = .dataPdu) (whole : b.header.rf = false)
    (fi : b.header.fi = if tx.txSdu.isSome then 2 else 0) (few : b.header.li.length ≤ windowSize)
    (overflows : Overflows tx.unsent b.header.li) : ¬ Carried tx tx' nofBytes (finishDataPdu b).2 := by
  rintro ⟨-, header', headLen', pieces, part, rest, later, read', cuts, -, stream, -⟩
  obtain ⟨header, headLen, read, li, pdu, -⟩ := @finishDataPdu_read tx b data whole fi few
  obtain ⟨rfl, rfl⟩ : header = header' ∧ headLen = headLen' := by
    rw [read] at read'
    exact ⟨congrArg Prod.fst (Except.ok.inj read'), congrArg Prod.snd (Except.ok.inj read')⟩
  obtain ⟨i, inside, long, sdu_⟩ := overflows
  rw [li] at cuts
  have length := congrArg List.length cuts
  rw [cut_length, length_map, length_append, length_singleton] at length
  have inside' : i < pieces.length := by omega
  have short := length_le_of_cut cuts inside'
  rw [stream, getD_append _ _ _ _ inside'] at sdu_
  have value : (b.header.li.map (· % 2048)).getD i 0 = b.header.li.getD i 0 % 2048 := by
    simp [inside]
  omega

theorem not_carried_of_empty (empty : tx.unsent = []) {pdu : List Byte} : ¬ Carried tx tx' nofBytes pdu := by
  rintro ⟨-, header, headLen, pieces, part, rest, later, -, -, -, stream, -⟩
  rw [empty] at stream
  simp at stream

def firstHeader (tx : Tx) : PduHeader where
  dc := .dataPdu
  fi := if tx.txSdu.isSome then 2 else 0
  sn := tx.vtS

section
variable (ready : tx.Ready nofBytes) (segments : tx.segmentPool.hasSegments = true)
  (some_ : tx.txSdu = none → tx.txSduQueue ≠ []) (continued : (tx.startBuild nofBytes).continueSdu = .ok b)
include ready segments some_ continued

theorem faithful_of_ended {whole : List (List Byte)} {part rest : List Byte} {later : List (List Byte)}
    (pulled : b.pullSdus b.tx.txSduQueue.length = .ok (.inr b'))
    (ended : Ended tx.firstHeader (min nofBytes bufferTailroom) tx.unsent b' whole part rest later) :
    tx.Faithful nofBytes := by
  have built : tx.buildDataPdu nofBytes = .ok (finishDataPdu b') := by
    rw [buildDataPdu_eq ready segments some_, continued]
    dsimp only [bind, Except.bind]
    rw [pulled]
  exact ⟨_, _, built, .inr (carried_of_ended ended rfl rfl rfl (Nat.min_le_left _ _))⟩

theorem not_faithful_of_overflows
    (overflows : ∀ result, b.pullSdus b.tx.txSduQueue.length = .ok result → ∃ b' : DataBuild, result = .inr b' ∧
      b'.header = { tx.firstHeader with li := b'.header.li } ∧ Overflows tx.unsent b'.header.li) :
    ¬ tx.Faithful nofBytes := by
  rintro ⟨tx', pdu, built, carried⟩
  rw [buildDataPdu_eq ready segments some_, continued] at built
  obtain ⟨b₀, same, built⟩ := bind_eq_ok.mp built
  cases same
  obtain ⟨result, pulled, built⟩ := bind_eq_ok.mp built
  obtain ⟨b', rfl, header, overflows⟩ := overflows result pulled
  have few : b'.header.li.length ≤ windowSize := by
    have small := (continueSdu_fills continued).2.2 ⟨Nat.zero_le _, Nat.zero_le _⟩
    rcases pullSdus_fills pulled with ⟨b'', -, same⟩ | ⟨b'', -, -, small', same⟩
    · contradiction
    · cases same
      exact Nat.le_trans (small' small).2 (by decide)
  have pdu_ : (tx', pdu) = finishDataPdu b' := (Except.ok.inj built).symm
  obtain ⟨rfl, rfl⟩ : tx' = (finishDataPdu b').1 ∧ pdu = (finishDataPdu b').2 := by
    rw [← pdu_]
    exact ⟨rfl, rfl⟩
  have data : b'.header.dc = .dataPdu := by rw [header]; rfl
  have rf : b'.header.rf = false := by rw [header]; rfl
  have fi : b'.header.fi = if tx.txSdu.isSome then 2 else 0 := by rw [header]; rfl
  rcases carried with ⟨empty, -⟩ | carried
  · obtain ⟨header, headLen, -, -, -, -, -, length⟩ := @finishDataPdu_read tx b' data rf fi few
    rw [empty] at length
    unfold headerLength at length
    rw [length_nil] at length
    omega
  · exact not_carried_of_overflows data rf fi few overflows carried

theorem faithful_iff_of_filled {pieces : List (List Byte)}
    (filled : Filled tx.firstHeader (min nofBytes bufferTailroom) pieces tx.sdus b)
    (unsent_ : tx.unsent = pieces ++ tx.sdus.map TxSdu.msg) (short : pieces.length ≤ 1)
    (started : pieces = [] →
      tx.sdus ≠ [] ∧ b.tx.segmentPool.hasSegments = true ∧ headerLength 0 < min nofBytes bufferTailroom) :
    tx.Faithful nofBytes ↔ ShortBefore tx.vtS (min nofBytes bufferTailroom) b.tx pieces.flatten.length pieces.length
      (pieces.getLastD []).length tx.sdus := by
  have room := Nat.min_le_right nofBytes bufferTailroom
  have enough : tx.sdus.length ≤ b.tx.txSduQueue.length := by
    rw [← filled.queue]
    exact length_filterMap_le _ _
  have nonempty : ∀ sdu ∈ tx.sdus, sdu.msg ≠ [] := by
    intro sdu mem empty
    refine ready.nonempty ?_
    rw [← empty]
    exact mem_append_right _ (mem_map_of_mem mem)
  have one : pieces.dropLast = [] := eq_nil_of_length_eq_zero (by rw [length_dropLast]; omega)
  constructor
  · intro faithful
    by_contra long
    refine absurd faithful (not_faithful_of_overflows ready segments some_ continued fun result pulled => ?_)
    rw [unsent_]
    exact filled.pullSdus_overflows rfl room nonempty long enough pulled
  · intro short
    obtain ⟨b', whole, part, rest, later, pulled, ended⟩ := filled.pullSdus_ended rfl room nonempty (by simp [one])
      started short enough
    rw [← unsent_] at ended
    exact faithful_of_ended ready segments some_ continued pulled ended

end

section
variable (ready : tx.Ready nofBytes) (segments : tx.segmentPool.hasSegments = true) (none_ : tx.txSdu = none)
include ready segments none_

theorem not_faithful_of_discarded (empty : tx.sdus = []) (queue : tx.txSduQueue ≠ []) : ¬ tx.Faithful nofBytes := by
  have continued : (tx.startBuild nofBytes).continueSdu = .ok (tx.startBuild nofBytes) := by
    unfold continueSdu
    rw [show (tx.startBuild nofBytes).tx.txSdu = none from none_]
  rintro ⟨tx', pdu, built, carried⟩
  rw [buildDataPdu_eq ready segments fun _ => queue, continued] at built
  dsimp only [bind, Except.bind] at built
  rw [@pullSdus_nil (tx.startBuild nofBytes) _ empty] at built
  have unsent : tx.unsent = [] := by
    unfold unsent
    rw [none_, empty]
    rfl
  rcases carried with ⟨nothing, -⟩ | carried
  · cases built
    simp [writeDataPduHeader] at nothing
  · exact not_carried_of_empty unsent carried

theorem faithful_iff_of_none (some_ : tx.sdus ≠ []) :
    tx.Faithful nofBytes ↔
      ShortBefore tx.vtS (min nofBytes bufferTailroom) (tx.addPdu tx.vtS) 0 0 0 tx.sdus := by
  have continued : (tx.startBuild nofBytes).continueSdu = .ok (tx.startBuild nofBytes) := by
    unfold continueSdu
    rw [show (tx.startBuild nofBytes).tx.txSdu = none from none_]
  have queue : tx.txSduQueue ≠ [] := by
    intro empty
    refine some_ ?_
    unfold sdus
    rw [empty]
    rfl
  have unsent_ : tx.unsent = [] ++ tx.sdus.map TxSdu.msg := by
    unfold unsent
    rw [none_]
    rfl
  have grant : minDataPduSize ≤ min nofBytes bufferTailroom := Nat.le_min.mpr ⟨ready.grant, by decide⟩
  have header : tx.firstHeader = { dc := .dataPdu, sn := tx.vtS } := by
    unfold firstHeader
    rw [none_]
    rfl
  have filled : Filled tx.firstHeader (min nofBytes bufferTailroom) [] tx.sdus (tx.startBuild nofBytes) := by
    rw [header]
    exact ⟨rfl, rfl, rfl, rfl, rfl, rfl, none_, by simp, Nat.le_trans (by decide) grant, Nat.zero_le _⟩
  exact faithful_iff_of_filled ready segments (fun _ => queue) continued filled unsent_ (Nat.zero_le _)
    fun _ => ⟨some_, hasSegments_addPdu segments _, grant⟩

end

structure Continued (tx : Tx) (space : Nat) (sdu : TxSdu) (b : DataBuild) : Prop where
  header : b.header = { dc := .dataPdu, fi := 2, sn := tx.vtS }
  headLen : b.headLen = headerLength 0
  lastLi : b.lastLi = min sdu.msg.length (space - headerLength 0)
  pdu : b.pdu = sdu.msg.take b.lastLi
  pduSpace : b.pduSpace = space - min b.lastLi (bufferTailroom - b.lastLi)
  sdus : b.tx.sdus = tx.sdus
  txSdu : b.tx.txSdu =
    if b.lastLi = sdu.msg.length then none else some { sdu with msg := sdu.msg.drop b.lastLi }
  segments : b.tx.segmentPool = ((tx.addPdu tx.vtS).bookRest tx.vtS sdu).segmentPool
  books : b.lastLi = sdu.msg.length →
    ∃ queue, b.tx = ((tx.addPdu tx.vtS).bookRest tx.vtS sdu).withSdus none queue

theorem continueSdu_some (ready : tx.Ready nofBytes) (current : tx.txSdu = some sdu) :
    ∃ b, (tx.startBuild nofBytes).continueSdu = .ok b ∧ Continued tx (min nofBytes bufferTailroom) sdu b := by
  have grant : minDataPduSize ≤ min nofBytes bufferTailroom := Nat.le_min.mpr ⟨ready.grant, by decide⟩
  have room := Nat.min_le_right nofBytes bufferTailroom
  obtain ⟨space, eq⟩ : ∃ space, space = min nofBytes bufferTailroom := ⟨_, rfl⟩
  have start : tx.startBuild nofBytes = { tx.startBuild nofBytes with pduSpace := space } := by rw [eq]; rfl
  rw [← eq] at grant room ⊢
  unfold minDataPduSize at grant
  have first_ : headerLength 0 = 2 := rfl
  have fi : (tx.startBuild nofBytes).header.fi ||| 2 = 2 := by
    change 0 ||| 2 = 2
    decide
  unfold continueSdu
  rw [show (tx.startBuild nofBytes).tx.txSdu = some sdu from current]
  rw [start]
  by_cases fits : sdu.msg.length ≤ space - headerLength 0
  · have queue : ((tx.addPdu tx.vtS).bookRest tx.vtS sdu).txSduQueue = tx.txSduQueue := by
      have made := congrArg Tx.txSduQueue
        (@makeSegment_withSdus (tx.addPdu tx.vtS) tx.txSdu tx.txSduQueue tx.vtS sdu.pdcpSn)
      unfold bookRest
      split
      · exact made
      · rfl
    have moved : min sdu.msg.length (space - headerLength 0) = sdu.msg.length := Nat.min_eq_left fits
    have below : sdu.msg.length < space := by omega
    dsimp only
    rw [addSdu_whole (by show 0 + sdu.msg.length ≤ _; omega) fits]
    refine ⟨_, rfl, by dsimp only; rw [fi]; rfl, rfl, moved.symm, (take_length).symm, ?_, ?_, ?_, rfl, ?_⟩
    · dsimp only
      rw [if_pos below]
      rfl
    · exact congrArg (List.filterMap id) queue
    · exact (if_pos rfl).symm
    · exact fun _ => ⟨_, rfl⟩
  · have moved : min sdu.msg.length (space - headerLength 0) = space - headerLength 0 := Nat.min_eq_right (by omega)
    have other : space - headerLength 0 ≠ sdu.msg.length := by omega
    have length : (sdu.msg.take (space - headerLength 0)).length = space - headerLength 0 := by
      rw [length_take]
      omega
    obtain ⟨tx₁, added, queue, segments⟩ := @addSdu_part { tx.startBuild nofBytes with pduSpace := space } sdu
      (by show 0 + (space - headerLength 0) ≤ _; omega) (Nat.not_le.mp fits)
    dsimp only at added ⊢
    rw [added]
    refine ⟨_, rfl, by dsimp only; rw [fi]; rfl, rfl, moved.symm, rfl, ?_, ?_, ?_, segments, ?_⟩
    · refine (if_pos (show space - headerLength 0 < space by omega)).trans ?_
      exact congrArg (fun n => space - min (space - headerLength 0) (bufferTailroom - n)) length
    · exact congrArg (List.filterMap id) queue
    · exact (if_neg other).symm
    · exact fun whole => absurd whole other

namespace Continued

variable (continued : Continued tx space sdu b) (some_ : sdu.msg ≠ []) (grant : minDataPduSize ≤ space)
include continued some_ grant

theorem lastLi_pos : 0 < b.lastLi := by
  have length := List.length_pos_iff.mpr some_
  have first_ : headerLength 0 = 2 := rfl
  rw [continued.lastLi]
  unfold minDataPduSize at grant
  omega

theorem ended (current : tx.txSdu = some sdu) (headLen : Nat) :
    Ended tx.firstHeader space tx.unsent { b with headLen } [] (sdu.msg.take b.lastLi) (sdu.msg.drop b.lastLi)
      (tx.sdus.map TxSdu.msg) := by
  have lastLi := continued.lastLi
  have positive := continued.lastLi_pos some_ grant
  have length : (sdu.msg.take b.lastLi).length = b.lastLi := by
    rw [length_take]
    omega
  have behind : sdu.msg.drop b.lastLi = [] ↔ b.lastLi = sdu.msg.length := by
    rw [drop_eq_nil_iff]
    omega
  refine ⟨?_, ?_, ?_, by simp, Nat.zero_le _, ?_, ?_, ?_, ?_⟩
  · dsimp only
    rw [continued.header]
    unfold firstHeader
    rw [current]
    rfl
  · simp [continued.pdu]
  · dsimp only
    rw [continued.pdu]
    show headerLength 0 + _ ≤ _
    omega
  · rw [← length_pos_iff, length]
    exact positive
  · rw [take_append_drop]
    unfold unsent
    rw [current]
    rfl
  · unfold unsent
    rw [continued.txSdu, continued.sdus]
    by_cases whole : b.lastLi = sdu.msg.length
    · rw [if_pos whole, if_pos (behind.mpr whole)]
      rfl
    · rw [if_neg whole, if_neg (mt behind.mp whole)]
      rfl
  · dsimp only
    rw [continued.txSdu]
    by_cases whole : b.lastLi = sdu.msg.length
    · rw [if_pos whole, whole, drop_length]
      rfl
    · rw [if_neg whole, List.isEmpty_eq_false_iff.mpr (mt behind.mp whole)]
      rfl

variable (room : space ≤ bufferTailroom)
include room

theorem pushLi : b.pushLi.header.li = [b.lastLi] ∧ b.pushLi.headLen = headerLength 1 := by
  have positive := continued.lastLi_pos some_ grant
  have small : b.lastLi < 65536 := by
    rw [continued.lastLi]
    rw [bufferTailroom_eq] at room
    omega
  rw [pushLi_eq b (by rw [continued.header]), continued.header]
  simp [positive, u16, Nat.mod_eq_of_lt small]

theorem goes_iff : b.Goes ↔
    ((tx.addPdu tx.vtS).bookRest tx.vtS sdu).segmentPool.hasSegments = true ∧ headerLength 1 < b.pduSpace := by
  have headLen := (continued.pushLi some_ grant room).2
  rw [← continued.segments]
  constructor
  · intro goes
    exact ⟨goes.segments, headLen ▸ goes.more⟩
  · rintro ⟨segments, more⟩
    exact ⟨by rw [continued.header]; exact Nat.succ_pos 127, segments, headLen.symm ▸ more⟩

theorem filled (whole : b.lastLi = sdu.msg.length) (half : 2 * sdu.msg.length ≤ bufferTailroom)
    (current : tx.txSdu = some sdu) : Filled tx.firstHeader space [sdu.msg] tx.sdus b := by
  have lastLi := continued.lastLi
  have pduSpace := continued.pduSpace
  have first_ : headerLength 0 = 2 := rfl
  unfold minDataPduSize at grant
  refine ⟨?_, continued.headLen, whole, ?_, ?_, continued.sdus, ?_, ?_, ?_, Nat.succ_le_succ (Nat.zero_le _)⟩
  · rw [continued.header]
    unfold firstHeader
    rw [current]
    rfl
  · rw [continued.pdu, whole]
    simp
  · rw [flatten_singleton]
    omega
  · rw [continued.txSdu, if_pos whole]
  · rw [mem_singleton]
    exact fun empty => some_ empty.symm
  · rw [flatten_singleton]
    show _ + headerLength 0 ≤ _
    omega

end Continued

theorem faithful_iff_of_some (ready : tx.Ready nofBytes) (segments : tx.segmentPool.hasSegments = true)
    (current : tx.txSdu = some sdu) :
    tx.Faithful nofBytes ↔ ¬ tx.Overruns (min nofBytes bufferTailroom) sdu ∧
      ShortBefore tx.vtS (min nofBytes bufferTailroom) ((tx.addPdu tx.vtS).bookRest tx.vtS sdu) sdu.msg.length 1
        sdu.msg.length tx.sdus := by
  obtain ⟨b, start, continued⟩ := continueSdu_some ready current
  have noQueue : tx.txSdu = none → tx.txSduQueue ≠ [] := fun none_ => by simp [none_] at current
  have grant : minDataPduSize ≤ min nofBytes bufferTailroom := Nat.le_min.mpr ⟨ready.grant, by decide⟩
  have room := Nat.min_le_right nofBytes bufferTailroom
  have unsent_ : tx.unsent = [sdu.msg] ++ tx.sdus.map TxSdu.msg := by
    unfold unsent
    rw [current]
    rfl
  have some_ : sdu.msg ≠ [] := by
    intro empty
    exact ready.nonempty (by rw [unsent_, empty]; simp)
  have others : ∀ sdu ∈ b.tx.sdus, sdu.msg ≠ [] := by
    rw [continued.sdus]
    intro sdu mem empty
    refine ready.nonempty ?_
    rw [← empty]
    exact mem_append_right _ (mem_map_of_mem mem)
  have positive := continued.lastLi_pos some_ grant
  have bytes : b.pdu ≠ [] := by
    rw [continued.pdu]
    intro empty
    have length := congrArg List.length empty
    rw [length_take] at length
    have moved := continued.lastLi
    rw [length_nil] at length
    omega
  have goes := continued.goes_iff some_ grant room
  have pduSpace := continued.pduSpace
  have lastLi := continued.lastLi
  have first_ : headerLength 0 = 2 := rfl
  have second : headerLength 1 = 4 := rfl
  by_cases overruns : tx.Overruns (min nofBytes bufferTailroom) sdu
  · refine ⟨fun faithful => ?_, fun all => absurd overruns all.1⟩
    obtain ⟨queue, free, half, beyond⟩ := overruns
    rw [← lastLi] at half beyond
    have goes_ := goes.mpr ⟨free, by omega⟩
    have queue_ : b.tx.sdus ≠ [] := by rwa [continued.sdus]
    have headLen : b.headLen = packedLength b.header := by
      rw [continued.headLen, continued.header]
      rfl
    have fuel : 0 < b.tx.txSduQueue.length := Nat.lt_of_lt_of_le (List.length_pos_iff.mpr queue_)
      (length_filterMap_le _ _)
    refine absurd faithful (not_faithful_of_overflows ready segments noQueue start fun result pulled => ?_)
    obtain ⟨b', eq, header, li⟩ := (pullSdus_keeps others positive bytes headLen pulled).2 fuel queue_ goes_
    rw [(continued.pushLi some_ grant room).1] at li
    rw [continued.header] at header
    refine ⟨b', eq, ?_, @Overflows.of_prefix _ [b.lastLi] _ ⟨0, Nat.succ_pos 0, ?_, ?_⟩ li⟩
    · unfold firstHeader
      rw [current]
      exact header
    · rw [getD_cons_zero]
      rw [bufferTailroom_eq] at half
      omega
    · rw [unsent_]
      show b.lastLi ≤ sdu.msg.length
      omega
  · by_cases plain : b.lastLi = sdu.msg.length ∧ 2 * sdu.msg.length ≤ bufferTailroom
    · obtain ⟨whole, half⟩ := plain
      obtain ⟨queue, books⟩ := continued.books whole
      rw [faithful_iff_of_filled ready segments noQueue start
        (continued.filled some_ grant room whole half current) unsent_ (Nat.le_refl _) (by simp), books,
        shortBefore_withSdus, flatten_singleton]
      exact (and_iff_right overruns).symm
    · refine iff_of_true ?_ ⟨overruns, ?_⟩
      · have stops : b.tx.sdus ≠ [] → ¬ b.Goes := by
          rw [continued.sdus]
          intro queue goes_
          obtain ⟨free, more⟩ := goes.mp goes_
          refine overruns ⟨queue, free, ?_⟩
          omega
        obtain ⟨headLen, pulled⟩ := @pullSdus_stops b b.tx.txSduQueue.length positive bytes stops
        exact faithful_of_ended ready segments noQueue start pulled (continued.ended some_ grant current headLen)
      · by_cases full : min nofBytes bufferTailroom ≤ sdu.msg.length + headerLength 1
        · exact shortBefore_full full
        · cases queue : tx.sdus with
          | nil => trivial
          | cons next rest =>
            refine fun more => absurd ⟨by simp [queue], more.2.1, ?_⟩ overruns
            omega

theorem buildDataPdu_faithful_iff (ready : tx.Ready nofBytes) : tx.Faithful nofBytes ↔ tx.Carriable nofBytes := by
  by_cases segments : tx.segmentPool.hasSegments = true
  · unfold Carriable
    rw [forall_prop_of_true segments]
    cases current : tx.txSdu with
    | some sdu => exact faithful_iff_of_some ready segments current
    | none =>
      by_cases empty : tx.sdus = []
      · by_cases queue : tx.txSduQueue = []
        · refine iff_of_true ⟨tx, [], ?_, .inl ⟨rfl, rfl⟩⟩ ⟨fun _ => queue, by rw [empty]; trivial⟩
          unfold buildDataPdu
          rw [if_pos (by simp [current, queue])]
        · exact iff_of_false (not_faithful_of_discarded ready segments current empty queue)
            fun all => queue (all.1 empty)
      · rw [faithful_iff_of_none ready segments current empty]
        exact (and_iff_right fun none_ => absurd none_ empty).symm
  · refine iff_of_true ⟨tx, [], ?_, .inl ⟨rfl, rfl⟩⟩ fun free => absurd free segments
    unfold buildDataPdu
    rw [if_pos (by simp [segments])]

theorem buildDataPdu_faithful_shortSdus :
    let tx : Tx := { txSduQueue := [some ⟨0, [1, 2, 3]⟩, none, some ⟨1, [4, 5]⟩] }
    tx.Ready 10 ∧ tx.Faithful 10 := by
  have ready : ({ txSduQueue := [some ⟨0, [1, 2, 3]⟩, none, some ⟨1, [4, 5]⟩] } : Tx).Ready 10 :=
    ⟨by decide, by decide, by decide⟩
  exact ⟨ready, (buildDataPdu_faithful_iff ready).mpr fun _ =>
    ⟨fun none_ => by contradiction, fun _ => ⟨by decide, fun _ => ⟨by decide, trivial⟩⟩⟩⟩

theorem buildDataPdu_unfaithful :
    ¬ ∀ (tx : Tx) (nofBytes : Nat), tx.Ready nofBytes → tx.Faithful nofBytes := by
  intro all
  obtain ⟨msg, length⟩ : ∃ msg : List Byte, msg.length = 3000 := ⟨List.replicate 3000 0, length_replicate⟩
  obtain ⟨tx, eq⟩ : ∃ tx : Tx, tx = { txSduQueue := [some ⟨0, msg⟩, some ⟨1, [1]⟩] } := ⟨_, rfl⟩
  have sdus : tx.sdus = [⟨0, msg⟩, ⟨1, [1]⟩] := by rw [eq]; rfl
  have some_ : msg ≠ [] := by
    rintro rfl
    contradiction
  have ready : tx.Ready 4000 := by
    refine ⟨by rw [eq]; simp [windowFull, txModBase, u32Sub, mod, windowSize], by decide, ?_⟩
    unfold unsent
    rw [sdus, eq]
    simpa using some_.symm
  have queued : tx.sdus ≠ [] := by
    rw [sdus]
    exact cons_ne_nil _ _
  have short := (faithful_iff_of_none ready (by rw [eq]; rfl) (by rw [eq]) queued).mp (all tx 4000 ready)
  rw [sdus] at short
  have free : (tx.addPdu tx.vtS).segmentPool.hasSegments = true := by rw [eq]; rfl
  have free' : ((tx.addPdu tx.vtS).bookSdu tx.vtS ⟨0, msg⟩).segmentPool.hasSegments = true := by
    rw [eq]
    rfl
  have long := ((short ⟨by decide, free, by decide⟩).2 ⟨by decide, free', by rw [length]; decide⟩).1
  rw [length] at long
  exact absurd long (by decide)

end IsrRan.Rlc.AmLte.Tx
