import IsrRan.Mac.MuxAssembly

namespace IsrRan.Mac.Lte.UlMux
open Pdu List

def IsBsr (e : Element) : Prop := e.lcid = Lcid.truncBsr ∨ e.lcid = Lcid.shortBsr ∨ e.lcid = Lcid.longBsr

/-- The levels of a BSR are those of what the LCGs have left. A truncated one is written for the LCG that the BSR
procedure selects from its own record of the buffers, and is only meant where that LCG has data left. -/
def Reports (b : BsrProc) (left : Fin 4 → Nat) (e : Element) : Prop :=
  (e.lcid = Lcid.truncBsr → 0 < left b.findMaxPriorityLcgWithData) →
    ∀ report ∈ getBsr e.lcid e.body, report.2 = buffSizeTable (left report.1)

inductive CompleteCe (m : Mux) (phr : Option ℚ) : Element → Prop where
  | crnti (pending : m.pendingCrntiCe ≠ 0) : CompleteCe m phr (crntiElement m.pendingCrntiCe)
  | phr (phrValue : ℚ) (pending : phr = some phrValue) : CompleteCe m phr (phrElement phrValue)
  | bsr (bsr : Bsr) : CompleteCe m phr (bsrElement bsr)

section
variable {b : BsrProc} {left : Fin 4 → Nat} {bsr : Bsr}

theorem reports_bsrElement (small : ∀ lcg, left lcg < 4294967296)
    (whole : bsr.format ≠ .truncBsr → ∀ lcg, bsr.buffSize lcg = left lcg)
    (truncated : bsr.format = .truncBsr → ∀ lcg,
      bsr.buffSize lcg = if b.findMaxPriorityLcgWithData ≠ lcg then 0 else (left lcg : Int)) :
    Reports b left (bsrElement bsr) := by
  intro hasData report mem
  have levels := getBsr_bsrBytes bsr.buffSize bsr.format
  dsimp only [bsrElement] at mem hasData
  rw [levels] at mem
  have u32 : ∀ lcg, bsr.buffSize lcg = left lcg → bsr.buffSize.u32 lcg = left lcg := by
    intro lcg same
    have := small lcg
    unfold BuffSize.u32
    omega
  cases format : bsr.format with
  | longBsr =>
    rw [format] at mem
    obtain ⟨lcg, -, rfl⟩ := List.mem_map.mp mem
    rw [u32 lcg (whole (by simp [format]) lcg)]
  | shortBsr =>
    rw [format] at mem
    rw [List.mem_singleton.mp mem]
    rw [u32 _ (whole (by simp [format]) _)]
  | truncBsr =>
    rw [format] at mem hasData
    have pos := hasData rfl
    have sizes := truncated format
    have own : bsr.buffSize.u32 b.findMaxPriorityLcgWithData = left b.findMaxPriorityLcgWithData :=
      u32 _ (by rw [sizes]; simp)
    have selected : nonzeroLcg bsr.buffSize = b.findMaxPriorityLcgWithData := by
      apply nonzeroLcg_eq
      · rw [own]
        omega
      · intro i other
        have : bsr.buffSize i = 0 := by
          rw [sizes, if_pos fun same => other same.symm]
        simp [BuffSize.u32, this]
    rw [List.mem_singleton.mp mem]
    rw [selected, own]

end

section
variable {σ : Type} {rlc : RlcInterfaceMac σ} {m : Mux} {phr : Option ℚ} {pduSz : Nat} {elements : List Element}
variable {state : σ × List Element} {l : Lcp (σ × List Element)} {bsrCe phrCe data : List Element}

def Mux.left (rlc : RlcInterfaceMac σ) (m : Mux) (state : σ) (data : List Element) (lcg : Fin 4) : Nat :=
  m.lcgBuffer rlc state lcg - lcgBytes m.logicalChannels lcg data

section
variable (done : LcpDone rlc m phr pduSz elements state l bsrCe phrCe data)
include done

theorem LcpDone.whole_left
    (whole : l.bsr.format ≠ .truncBsr) (lcg : Fin 4) : l.bsr.buffSize lcg = m.left rlc state.1 data lcg := by
  have sizes := done.whole whole lcg
  have within := done.within lcg
  unfold Mux.left
  omega

theorem finishBsr_spec (small : ∀ lcg, m.left rlc state.1 data lcg < 4294967296) :
    ∃ bsrs₁ bsrs₂, Filling (Mux.finishBsr l).1 pduSz (elements ++ bsrs₁ ++ phrCe ++ data ++ bsrs₂) ∧
      (∀ e ∈ bsrs₁ ++ bsrs₂, ∃ bsr, e = bsrElement bsr ∧ Reports m.bsrProcedure (m.left rlc state.1 data) e) ∧
      (elements ++ bsrs₁ ++ phrCe ++ data ++ bsrs₂ = [] → pduSz < 2) := by
  obtain ⟨filling, -, -, idx, -, lcgs, -, -, truncated, -, -⟩ := id done
  have whole := done.whole_left
  have selected := BsrProc.findMaxPriorityLcgWithData_congr lcgs
  unfold Mux.finishBsr
  rcases idx with ⟨found, sizes, rfl⟩ | ⟨notFound, rfl⟩
  · rw [found]
    rw [append_assoc, append_assoc] at filling
    obtain ⟨holds, kind, pduLen, maxSubheaders, headroom, count⟩ := filling
    have length := bsrBytes_length l.bsr.buffSize l.bsr.format
    have sameLength : (bsrBytes l.bsr.buffSize l.bsr.format).length =
        (bsrElement { l.bsr with buffSize := sizes }).body.length := length.trans (bsrBytes_length sizes _).symm
    have updated := holds.updateCe (by rw [kind]; exact (bsrLcid_fixed l.bsr.format).2.1) sameLength
    refine ⟨[bsrElement l.bsr], [], ?_, ?_, by simp⟩
    · rw [append_nil, append_assoc, append_assoc]
      exact ⟨updated, kind, pduLen, maxSubheaders, headroom, by simpa using count⟩
    · intro e mem
      rw [List.mem_singleton.mp mem]
      refine ⟨l.bsr, rfl, reports_bsrElement small whole fun trunc lcg => ?_⟩
      obtain ⟨rfl, -, zeroed⟩ := truncated trunc
      rw [zeroed lcg]
      simp [Mux.left, lcgBytes, bytesOf, totalBytes]
  · rw [notFound]
    dsimp only
    have unchanged : Filling l.pdu pduSz (elements ++ [] ++ phrCe ++ data ++ []) := by simpa using filling
    have short : elements ++ [] ++ phrCe ++ data ++ [] = [] → l.pdu.remLen = pduSz := by
      intro empty
      rw [empty] at unchanged
      exact unchanged.remLen_of_nil
    rcases @BsrProc.generatePaddingBsr_spec l.bsrProcedure l.bsr l.pdu.remLen with
      ⟨enough, generated, chosen⟩ | ⟨few, generated⟩
    · rw [generated]
      generalize (l.bsrProcedure.generatePaddingBsr l.pdu.remLen l.bsr).2.1 = bsr at chosen ⊢
      by_cases trunc : l.bsr.format = .truncBsr
      · obtain ⟨-, blocked, -⟩ := truncated trunc
        have same : (insertCe l.pdu fun x => x.setBsr bsr.buffSize bsr.format) = l.pdu := by
          simp [insertCe, blocked]
        rw [same]
        refine ⟨[], [], unchanged, by simp, fun empty => ?_⟩
        have room := unchanged.newSubh_isSome
        rw [empty, blocked] at room
        exact absurd (room.mpr ⟨by decide, enough⟩) (by simp)
      · obtain ⟨lcidBound, noLength, -⟩ := bsrLcid_fixed bsr.format
        have length := bsrBytes_length bsr.buffSize bsr.format
        obtain ⟨new, filled, which⟩ := unchanged.insertCe lcidBound noLength length
        change Filling (insertCe l.pdu fun x => x.setBsr bsr.buffSize bsr.format) pduSz _ at filled
        refine ⟨[], new, by simpa using filled, ?_, ?_⟩
        · intro e mem
          rcases which with ⟨rfl, -⟩ | rfl
          · simp at mem
          · rw [nil_append] at mem
            rw [List.mem_singleton.mp mem]
            refine ⟨bsr, rfl, reports_bsrElement small (fun wholeFormat lcg => ?_) fun truncFormat lcg => ?_⟩
            · rw [chosen.whole wholeFormat]
              exact whole trunc lcg
            · rw [(chosen.truncated truncFormat).2, selected]
              dsimp only
              rw [whole trunc lcg]
        · intro empty
          rcases which with ⟨rfl, -, noRoom⟩ | rfl
          · rw [empty] at noRoom
            exact absurd ⟨by decide, by rw [length]; have := chosen.fits; omega, enough⟩ noRoom
          · simp at empty
    · rw [generated]
      refine ⟨[], [], unchanged, by simp, fun empty => ?_⟩
      rw [← short empty]
      exact few

end

theorem Filling.parse_packet {p : SchPdu} (filling : Filling p pduSz elements) (inserted : elements ≠ [])
    (capacity : pduSz ≤ maxBufferSizeBytes - bufferHeaderOffset) :
    ∃ packet, p.writePacket = some packet ∧ packet.length = pduSz ∧
      ∀ rest maxSubheaders, (p.wire elements).length < maxSubheaders →
        parse .ulSch maxSubheaders (packet ++ rest) pduSz = p.wire elements := by
  obtain ⟨holds, kind, pduLen, -, headroom, count⟩ := filling
  have fixed : ∀ e ∈ controlElements p.kind elements, hasLengthField p.kind e.lcid = false := by
    intro e mem
    have notSdu := (List.mem_filter.mp mem).2
    rw [kind] at notSdu ⊢
    simpa [hasLengthField, isVarLenCe] using notSdu
  have enoughHead : p.headerSz + p.cePayloadSz ≤ p.buffer.headroom := by
    have := holds.headerSz_le kind
    rw [headroom]
    simp only [maxNofSubheaders, bufferHeaderOffset] at count ⊢
    omega
  have enoughTail : p.numPadding ≤ p.buffer.getTailroom := by
    have rem := holds.rem
    rw [sizes_eq] at rem
    have bytes : p.buffer.nBytes = ((sdus p.kind elements).flatMap (·.body)).length := by
      rw [ByteBuffer.nBytes, holds.msg]
    unfold ByteBuffer.getTailroom SchPdu.numPadding
    cases multi : p.multibytePadding with
    | false => simp
    | true =>
      rw [if_pos rfl]
      omega
  have parsed := holds.parse_packet inserted fixed ⟨enoughHead, enoughTail⟩
  rw [kind, pduLen] at parsed
  exact parsed

/-- The PDU of a grant: `ccch` was read from the RLC before the logical channels were looked at and `data` after it,
and `left` is what their LCGs have left then. -/
structure Assembled (m : Mux) (phr : Option ℚ) (pduSz : Nat) (left : Fin 4 → Nat) (ccch data ces : List Element)
    (packet : List Byte) : Prop where
  length : packet.length = pduSz
  parses : ∃ front back, (∀ e ∈ front ++ back, e.lcid = Lcid.padding) ∧ (front ++ back).length ≤ 2 ∧
    ∀ rest maxSubheaders, ces.length + (ccch ++ data).length + 2 < maxSubheaders →
      parse .ulSch maxSubheaders (packet ++ rest) pduSz = front ++ ces ++ (ccch ++ data) ++ back
  complete : ∀ e ∈ ces, CompleteCe m phr e
  crnti : m.pendingCrntiCe ≠ 0 → ccch = [] → crntiElement m.pendingCrntiCe ∈ ces
  bsr : ∀ e ∈ ces, IsBsr e → Reports m.bsrProcedure left e

theorem wire_split (p : SchPdu) (elements : List Element) : ∃ front back,
    (∀ e ∈ front ++ back, e.lcid = Lcid.padding) ∧ (front ++ back).length ≤ 2 ∧
      p.wire elements = front ++ controlElements p.kind elements ++ sdus p.kind elements ++ back := by
  refine ⟨paddingElements p.onetwoPadding,
    if p.multibytePadding then [⟨Lcid.padding, List.replicate p.numPadding 0⟩] else [], ?_, ?_, rfl⟩
  · intro e mem
    rcases List.mem_append.mp mem with single | multi
    · rw [eq_of_mem_replicate single]
    · split at multi
      · rw [List.mem_singleton.mp multi]
      · simp at multi
  · unfold paddingElements SchPdu.onetwoPadding SchPdu.multibytePadding
    by_cases multi : 2 < p.remLen
    · simp [multi]
    · simp [multi]
      omega

theorem crntiElement_not_bsr (crnti : Nat) : ¬ IsBsr (crntiElement crnti) := by
  simp [IsBsr, crntiElement, Lcid.crnti, Lcid.truncBsr, Lcid.shortBsr, Lcid.longBsr]

theorem phrElement_not_bsr (phrValue : ℚ) : ¬ IsBsr (phrElement phrValue) := by
  simp [IsBsr, phrElement, Lcid.phrReport, Lcid.truncBsr, Lcid.shortBsr, Lcid.longBsr]

theorem pduGet_assembles (reads : ReadsAtMost rlc) (configured : m.Configured) (phr : Option ℚ) (grant : 2 ≤ pduSz)
    (capacity : pduSz ≤ maxBufferSizeBytes - bufferHeaderOffset) (room : pduSz = 2 → m.pendingCrntiCe = 0) (rlcState : σ)
    (small : m.pendingBytes rlc (m.startPdu (logged rlc) pduSz (rlcState, [])).2.1 < 2147483648) :
    let start := m.startPdu (logged rlc) pduSz (rlcState, [])
    let l := m.lcp (logged rlc) phr start.1 start.2
    let out := m.pduGet (logged rlc) phr pduSz (rlcState, [])
    (∃ packet ces data, out.1 = some packet ∧ out.2.2.2 = start.2.2 ++ data ∧
      Assembled m phr pduSz (m.left rlc start.2.1 data) start.2.2 data ces packet) ∧
    (∀ ch ∈ l.channels, 0 ≤ ch.bufferLen ∧ 0 ≤ ch.schedLen) ∧ (∀ lcg, 0 ≤ l.bsr.buffSize lcg) ∧
    0 ≤ l.sduSpace₁ ∧ scheduled l.channels ≤ l.sduSpace₀ := by
  intro start l out
  obtain ⟨ccch, crntiCe, filledStart, ccchLog, ccchLcid, crntiWhich⟩ := startPdu_spec reads m grant room rlcState
  obtain ⟨bsrCe, phrCe, data, done⟩ := lcp_done reads configured phr filledStart start.2 small
  change start.2.2 = ccch at ccchLog
  change LcpDone rlc m phr pduSz (ccch ++ crntiCe) start.2 l bsrCe phrCe data at done
  have smallLeft : ∀ lcg, m.left rlc start.2.1 data lcg < 4294967296 := fun lcg =>
    calc m.left rlc start.2.1 data lcg
        ≤ m.lcgBuffer rlc start.2.1 lcg := Nat.sub_le _ _
      _ ≤ m.pendingBytes rlc start.2.1 := m.lcgBuffer_le rlc start.2.1 lcg
      _ < 4294967296 := small.trans (by decide)
  obtain ⟨bsrs₁, bsrs₂, filled, bsrs, nonempty⟩ := finishBsr_spec done smallLeft
  refine ⟨?_, done.counters, ?_, done.space⟩
  · obtain ⟨packet, wrote, length, parsed⟩ := filled.parse_packet (fun empty => by have := nonempty empty; omega) capacity
    obtain ⟨front, back, padding, few, wire⟩ := wire_split (Mux.finishBsr l).1
      (ccch ++ crntiCe ++ bsrs₁ ++ phrCe ++ data ++ bsrs₂)
    have log : out.2.2.2 = start.2.2 ++ data := done.log
    have bsrLcid : ∀ e ∈ bsrs₁ ++ bsrs₂, isSdu .ulSch e.lcid = false := by
      intro e mem
      obtain ⟨bsr, rfl, -⟩ := bsrs e mem
      show isSdu .ulSch bsr.format.lcid = false
      cases bsr.format <;> rfl
    have crntiLcid : ∀ e ∈ crntiCe, isSdu .ulSch e.lcid = false := by
      intro e mem
      rcases crntiWhich with ⟨rfl, -⟩ | ⟨rfl, -⟩
      · simp at mem
      · rw [List.mem_singleton.mp mem]
        rfl
    have phrLcid : ∀ e ∈ phrCe, isSdu .ulSch e.lcid = false := by
      intro e mem
      rcases done.phr with rfl | ⟨phrValue, -, rfl⟩
      · simp at mem
      · rw [List.mem_singleton.mp mem]
        rfl
    have ccchSdu : ∀ e ∈ ccch, isSdu .ulSch e.lcid = true := by
      intro e mem
      rw [ccchLcid e mem]
      rfl
    have bsr₁ := onlyCes fun e mem => bsrLcid e (mem_append_left _ mem)
    have bsr₂ := onlyCes fun e mem => bsrLcid e (mem_append_right _ mem)
    have crnti := onlyCes crntiLcid
    have phr_ := onlyCes phrLcid
    have ccch_ := onlySdus ccchSdu
    have data_ := onlySdus done.isSdu
    rw [filled.kind] at wire
    simp only [controlElements_append, sdus_append, bsr₁, bsr₂, crnti, phr_, ccch_, data_, nil_append,
      append_nil] at wire
    have ces : ∀ e ∈ crntiCe ++ bsrs₁ ++ phrCe ++ bsrs₂,
        (e = crntiElement m.pendingCrntiCe ∧ m.pendingCrntiCe ≠ 0) ∨
        (∃ phrValue, phr = some phrValue ∧ e = phrElement phrValue) ∨
        ∃ bsr, e = bsrElement bsr ∧ Reports m.bsrProcedure (m.left rlc start.2.1 data) e := by
      intro e mem
      simp only [mem_append] at mem
      rcases mem with ((isCrnti | isBsr) | isPhr) | isBsr
      · rcases crntiWhich with ⟨rfl, -⟩ | ⟨rfl, pending⟩
        · simp at isCrnti
        · exact .inl ⟨List.mem_singleton.mp isCrnti, pending⟩
      · exact .inr (.inr (bsrs e (mem_append_left _ isBsr)))
      · rcases done.phr with rfl | ⟨phrValue, pending, rfl⟩
        · simp at isPhr
        · exact .inr (.inl ⟨phrValue, pending, List.mem_singleton.mp isPhr⟩)
      · exact .inr (.inr (bsrs e (mem_append_right _ isBsr)))
    refine ⟨packet, crntiCe ++ bsrs₁ ++ phrCe ++ bsrs₂, data, wrote, log, length, ⟨front, back, padding, few, ?_⟩, ?_, ?_,
      ?_⟩
    · intro rest maxSubheaders enough
      rw [ccchLog] at enough ⊢
      rw [parsed rest maxSubheaders, wire]
      rw [wire]
      simp only [length_append] at enough few ⊢
      omega
    · intro e mem
      rcases ces e mem with ⟨rfl, pending⟩ | ⟨phrValue, pending, rfl⟩ | ⟨bsr, rfl, -⟩
      · exact .crnti pending
      · exact .phr phrValue pending
      · exact .bsr bsr
    · intro pending noCcch
      rcases crntiWhich with ⟨-, none_⟩ | ⟨rfl, -⟩
      · exact absurd (none_ (ccchLog.symm.trans noCcch)) pending
      · simp
    · intro e mem isBsr
      rcases ces e mem with ⟨rfl, -⟩ | ⟨phrValue, -, rfl⟩ | ⟨bsr, rfl, reports⟩
      · exact absurd isBsr (crntiElement_not_bsr _)
      · exact absurd isBsr (phrElement_not_bsr _)
      · exact reports
  · intro lcg
    by_cases trunc : l.bsr.format = .truncBsr
    · rw [(done.truncated trunc).2.2 lcg]
      split
      · exact le_refl 0
      · exact Int.natCast_nonneg _
    · rw [done.whole_left trunc lcg]
      exact Int.natCast_nonneg _

end

def bytePipe : RlcInterfaceMac (Nat → Nat) where
  getBufferState pending lcid := pending lcid
  readPdu pending lcid nofBytes :=
    (List.replicate (min nofBytes (pending lcid)) 0,
      fun i => if i = lcid then pending i - min nofBytes (pending lcid) else pending i)

theorem bytePipe_reads : ReadsAtMost bytePipe := by
  intro pending lcid nofBytes
  simp [bytePipe]

def twoBearers : Mux where
  logicalChannels := [⟨3, 1, 8, 8, 0, 0⟩, ⟨4, 1, 0, 0, 0, 0⟩]
  bsrProcedure := { lcgs := fun _ => [] }

def twoBearersPending (lcid : Nat) : Nat := if lcid = 3 then 100 else if lcid = 4 then 10 else 0

theorem twoBearers_configured : twoBearers.Configured := ⟨by decide, by decide⟩

theorem pduGet_assembles_twoBearers : ∃ packet,
    (twoBearers.pduGet (logged bytePipe) none 20 (twoBearersPending, [])).1 = some packet ∧ packet.length = 20 := by
  obtain ⟨⟨packet, ces, data, wrote, -, assembled⟩, -⟩ := @pduGet_assembles _ bytePipe twoBearers 20 bytePipe_reads
    twoBearers_configured none (by decide) (by decide) (by decide) twoBearersPending (by decide +kernel)
  exact ⟨packet, wrote, assembled.length⟩

theorem sduSpace_negative_and_no_pdu :
    ReadsAtMost bytePipe ∧ twoBearers.Configured ∧
    (twoBearers.lcp bytePipe none (twoBearers.startPdu bytePipe 20 twoBearersPending).1
      (twoBearers.startPdu bytePipe 20 twoBearersPending).2).sduSpace = -2 ∧
    (twoBearers.pduGet bytePipe none 20000 fun _ => 0).1 = none :=
  ⟨bytePipe_reads, twoBearers_configured, by decide +kernel, by decide +kernel⟩

end IsrRan.Mac.Lte.UlMux
