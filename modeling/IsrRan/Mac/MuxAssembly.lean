import IsrRan.Mac.Mux

namespace IsrRan.Mac.Lte.UlMux
open Pdu List UInt8

/-! What a BSR says -/

theorem buffSizeTable_lt (n : Nat) : buffSizeTable n < 64 := by
  unfold buffSizeTable
  split
  · omega
  · split
    · omega
    · cases found : (range' 1 61).find? fun i => n ≤ btable.getD (i + 1) 0 with
      | none => simp
      | some i =>
        have mem := mem_of_find?_eq_some found
        rw [mem_range'_1] at mem
        simp only [Option.getD_some]
        omega

theorem bsrBytes_length (buffSize : BuffSize) (format : BsrFormat) :
    (bsrBytes buffSize format).length = ulCeSize format.lcid := by
  cases format <;> rfl

theorem bsrLcid_fixed (format : BsrFormat) :
    format.lcid < 32 ∧ hasLengthField .ulSch format.lcid = false ∧ 0 < ulCeSize format.lcid := by
  cases format <;> decide

theorem getBsr_bsrBytes (buffSize : BuffSize) (format : BsrFormat) :
    getBsr format.lcid (bsrBytes buffSize format) =
      match format with
      | .longBsr => (finRange 4).map fun lcg => (lcg, buffSizeTable (buffSize.u32 lcg))
      | .shortBsr | .truncBsr => [(nonzeroLcg buffSize, buffSizeTable (buffSize.u32 (nonzeroLcg buffSize)))] := by
  have level := fun lcg => buffSizeTable_lt (buffSize.u32 lcg)
  have zero := level 0
  have one := level 1
  have two := level 2
  have three := level 3
  have only : ∀ lcg : Fin 4, getBsr Lcid.shortBsr
      [UInt8.ofNat (lcg.val * 64 + buffSizeTable (buffSize.u32 lcg) % 64)] =
        [(lcg, buffSizeTable (buffSize.u32 lcg))] := by
    intro lcg
    have := level lcg
    simp only [getBsr, byteAt_zero]
    rw [if_neg (by decide), toNat_ofNat_byte (by omega)]
    have lcg_ : (lcg.val * 64 + buffSizeTable (buffSize.u32 lcg) % 64) / 64 = lcg.val := by omega
    have index : (lcg.val * 64 + buffSizeTable (buffSize.u32 lcg) % 64) % 64 = buffSizeTable (buffSize.u32 lcg) := by
      omega
    rw [lcg_, index]
    simp
  cases format with
  | longBsr =>
    simp only [getBsr, bsrBytes, byteAt_zero, byteAt_succ]
    rw [toNat_ofNat_byte (by omega), toNat_ofNat_byte (by omega), toNat_ofNat_byte (by omega)]
    refine List.cons_eq_cons.mpr ⟨Prod.ext rfl ?_, List.cons_eq_cons.mpr ⟨Prod.ext rfl ?_,
      List.cons_eq_cons.mpr ⟨Prod.ext rfl ?_, List.cons_eq_cons.mpr ⟨Prod.ext rfl ?_, rfl⟩⟩⟩⟩
    · show _ = buffSizeTable (buffSize.u32 0)
      omega
    · show _ = buffSizeTable (buffSize.u32 1)
      omega
    · show _ = buffSizeTable (buffSize.u32 2)
      omega
    · show _ = buffSizeTable (buffSize.u32 3)
      omega
  | shortBsr => exact only _
  | truncBsr => exact only _

theorem nonzeroLcg_eq {buffSize : BuffSize} {lcg : Fin 4} (own : buffSize.u32 lcg ≠ 0)
    (others : ∀ i, i ≠ lcg → buffSize.u32 i = 0) : nonzeroLcg buffSize = lcg := by
  have decided : ∀ i, (buffSize.u32 i ≠ 0) = (i = lcg) := by
    intro i
    by_cases same : i = lcg
    · simp [same, own]
    · simp [same, others i same]
  simp only [nonzeroLcg, decided]
  clear own others decided
  revert lcg
  decide

namespace BsrProc
variable {b b' : BsrProc} {bsr : Bsr}

theorem findMaxPriorityLcgWithData_congr (same : b'.lcgs = b.lcgs) :
    b'.findMaxPriorityLcgWithData = b.findMaxPriorityLcgWithData := by
  simp only [findMaxPriorityLcgWithData, same]

structure Chosen (b : BsrProc) (bsr : Bsr) (pduSpace : Nat) (chosen : Bsr) : Prop where
  fits : 1 + ulCeSize chosen.format.lcid ≤ pduSpace
  whole : chosen.format ≠ .truncBsr → chosen.buffSize = bsr.buffSize
  truncated : chosen.format = .truncBsr → pduSpace < 4 ∧
    chosen.buffSize = fun i => if b.findMaxPriorityLcgWithData ≠ i then 0 else bsr.buffSize i

theorem chooseFormat_spec {pduSpace : Nat} {chosen : Bsr} (chose : b.chooseFormat bsr pduSpace = some chosen) :
    b.Chosen bsr pduSpace chosen := by
  have long : 1 + ulCeSize Lcid.longBsr = 4 := rfl
  have short : 1 + ulCeSize Lcid.shortBsr = 2 := rfl
  unfold chooseFormat at chose
  split at chose
  · split at chose
    all_goals
      obtain rfl := Option.some.inj chose
      refine ⟨?_, fun _ => rfl, fun trunc => by simp at trunc⟩
      simp only [BsrFormat.lcid]
      omega
  · split at chose
    · split at chose
      · obtain rfl := Option.some.inj chose
        exact ⟨by simp only [BsrFormat.lcid]; change 2 ≤ pduSpace; omega, fun whole => absurd rfl whole,
          fun _ => ⟨by omega, rfl⟩⟩
      · obtain rfl := Option.some.inj chose
        exact ⟨by simp only [BsrFormat.lcid]; omega, fun _ => rfl, fun trunc => by simp at trunc⟩
    · simp at chose

theorem generateBsr_spec (pduSpace : Nat) :
    (b.generateBsr bsr pduSpace).2.2.lcgs = b.lcgs ∧
      ((b.generateBsr bsr pduSpace).1 = true ∧ b.Chosen bsr pduSpace (b.generateBsr bsr pduSpace).2.1 ∨
        (b.generateBsr bsr pduSpace).1 = false ∧ (b.generateBsr bsr pduSpace).2.1 = bsr ∧ pduSpace < 2) := by
  unfold generateBsr
  cases chose : b.chooseFormat bsr pduSpace with
  | some chosen => exact ⟨rfl, .inl ⟨rfl, chooseFormat_spec chose⟩⟩
  | none =>
    refine ⟨rfl, .inr ⟨rfl, rfl, ?_⟩⟩
    unfold chooseFormat at chose
    split at chose
    · split at chose <;> simp at chose
    · split at chose
      · split at chose <;> simp at chose
      · next short =>
        change ¬ 2 ≤ pduSpace at short
        omega

theorem needToSendBsrOnUlGrant_spec (grantSize totalData : Nat) :
    (b.needToSendBsrOnUlGrant grantSize totalData bsr).2.2.lcgs = b.lcgs ∧
      ((b.needToSendBsrOnUlGrant grantSize totalData bsr).1 = true ∧
          b.Chosen bsr grantSize (b.needToSendBsrOnUlGrant grantSize totalData bsr).2.1 ∨
        (b.needToSendBsrOnUlGrant grantSize totalData bsr).1 = false ∧
          (b.needToSendBsrOnUlGrant grantSize totalData bsr).2.1 = bsr) := by
  unfold needToSendBsrOnUlGrant
  by_cases triggered : b.triggeredBsrType = .periodic ∨ b.triggeredBsrType = .regular
  · rw [if_pos triggered]
    by_cases all : totalData ≤ grantSize
    · rw [if_pos all]
      exact ⟨rfl, .inr ⟨rfl, rfl⟩⟩
    · rw [if_neg all]
      obtain ⟨lcgs, sent | ⟨notSent, same, -⟩⟩ := @generateBsr_spec b bsr grantSize
      · exact ⟨lcgs, .inl sent⟩
      · exact ⟨lcgs, .inr ⟨notSent, same⟩⟩
  · rw [if_neg triggered]
    exact ⟨rfl, .inr ⟨rfl, rfl⟩⟩

theorem generatePaddingBsr_spec (nofPaddingBytes : Nat) :
    (2 ≤ nofPaddingBytes ∧ (b.generatePaddingBsr nofPaddingBytes bsr).1 = true ∧
        b.Chosen bsr nofPaddingBytes (b.generatePaddingBsr nofPaddingBytes bsr).2.1) ∨
      nofPaddingBytes < 2 ∧ (b.generatePaddingBsr nofPaddingBytes bsr).1 = false := by
  have short : 1 + ulCeSize Lcid.shortBsr = 2 := rfl
  unfold generatePaddingBsr
  rw [short]
  by_cases enough : 2 ≤ nofPaddingBytes
  · rw [if_pos enough]
    refine .inl ⟨enough, rfl, ?_⟩
    obtain ⟨-, ⟨-, chosen⟩ | ⟨-, -, few⟩⟩ :=
      @generateBsr_spec { b with triggeredBsrType := .padding } bsr nofPaddingBytes
    · exact ⟨chosen.fits, chosen.whole, chosen.truncated⟩
    · omega
  · rw [if_neg enough]
    exact .inr ⟨by omega, rfl⟩

end BsrProc

def crntiElement (crnti : Nat) : Element := ⟨Lcid.crnti, [UInt8.ofNat (crnti / 256), UInt8.ofNat crnti]⟩

def phrElement (phrValue : ℚ) : Element := ⟨Lcid.phrReport, [UInt8.ofNat (phrReportTable phrValue % 64)]⟩

def bsrElement (bsr : Bsr) : Element := ⟨bsr.format.lcid, bsrBytes bsr.buffSize bsr.format⟩

/-- `mux_base::setup_lcid` keeps one entry for each LCID, and an LCID is that of an SDU. -/
structure Mux.Configured (m : Mux) : Prop where
  nodup : (m.logicalChannels.map (·.lcid)).Nodup
  isSdu : ∀ ch ∈ m.logicalChannels, isSdu .ulSch ch.lcid = true

section
variable {σ : Type} {rlc : RlcInterfaceMac σ} {p : SchPdu} {pduSz : Nat} {elements : List Element}

theorem Filling.insertCe (filling : Filling p pduSz elements) {lcid : Nat} {bytes : List Byte} (lcidBound : lcid < 32)
    (noLength : hasLengthField .ulSch lcid = false) (size : bytes.length = ulCeSize lcid) :
    ∃ new, Filling (insertCe p fun opened => opened.setCe lcid bytes) pduSz (elements ++ new) ∧
      (new = [] ∧ (insertCe p fun opened => opened.setCe lcid bytes) = p ∧
          ¬ (elements.length + 1 < maxNofSubheaders ∧ bytes.length + 1 ≤ p.remLen ∧ 2 ≤ p.remLen) ∨
        new = [⟨lcid, bytes⟩]) := by
  unfold UlMux.insertCe
  cases opened : p.newSubh with
  | none =>
    have blocked := filling.newSubh_isSome
    rw [opened] at blocked
    refine ⟨[], by simpa using filling, .inl ⟨rfl, rfl, fun fits => ?_⟩⟩
    exact absurd (blocked.mpr ⟨fits.1, fits.2.2⟩) (by simp)
  | some q =>
    dsimp only
    by_cases fits : bytes.length + 1 ≤ p.remLen
    · obtain ⟨p', set, filled, -⟩ := filling.setCe opened fits lcidBound noLength size
      rw [set]
      exact ⟨[⟨lcid, bytes⟩], filled, .inr rfl⟩
    · have set := setCe_newSubh opened lcid bytes
      rw [if_neg fits] at set
      rw [set]
      rw [delSubh_newSubh opened]
      exact ⟨[], by simpa using filling, .inl ⟨rfl, rfl, fun all => fits all.2.1⟩⟩

theorem Filling.remLen_of_nil (filling : Filling p pduSz []) : p.remLen = pduSz := by
  have last := filling.holds.lastSdu
  have rem := filling.holds.rem
  have none_ : p.lastSduIdx = none := by
    cases idx : p.lastSduIdx with
    | none => rfl
    | some i =>
      rw [idx] at last
      obtain ⟨before, e, after, split, -⟩ := last
      simp at split
  simp only [SchPdu.lastSduExtension, none_, filling.pduLen] at rem
  exact rem

theorem insertCRnti_spec (filling : Filling p pduSz []) (grant : 2 ≤ pduSz) {crnti : Nat}
    (room : pduSz = 2 → crnti = 0) :
    ∃ crntiCe, Filling (insertCRnti p crnti) pduSz crntiCe ∧
      (crntiCe = [] ∧ crnti = 0 ∨ crntiCe = [crntiElement crnti] ∧ crnti ≠ 0) := by
  have rem := filling.remLen_of_nil
  unfold insertCRnti
  by_cases pending : crnti ≠ 0
  · rw [if_pos pending]
    obtain ⟨q, opened⟩ := Option.isSome_iff_exists.mp (filling.newSubh_isSome.mpr ⟨by decide, by omega⟩)
    obtain ⟨p', set, filled, -⟩ := @Filling.setCe p q pduSz [] filling opened Lcid.crnti
      [UInt8.ofNat (crnti / 256), UInt8.ofNat crnti] (by simp; omega) (by decide) (by decide) rfl
    rw [opened]
    dsimp only [SchPdu.setCRnti]
    rw [set]
    exact ⟨_, filled, .inr ⟨rfl, pending⟩⟩
  · rw [if_neg pending]
    exact ⟨[], filling, .inl ⟨rfl, by simpa using pending⟩⟩

theorem startPdu_spec (reads : ReadsAtMost rlc) (m : Mux) (grant : 2 ≤ pduSz)
    (crnti : pduSz = 2 → m.pendingCrntiCe = 0) (state : σ) :
    ∃ ccch crntiCe, Filling (m.startPdu (logged rlc) pduSz (state, [])).1 pduSz (ccch ++ crntiCe) ∧
      (m.startPdu (logged rlc) pduSz (state, [])).2.2 = ccch ∧ (∀ e ∈ ccch, e.lcid = 0) ∧
      (crntiCe = [] ∧ (ccch = [] → m.pendingCrntiCe = 0) ∨
        crntiCe = [crntiElement m.pendingCrntiCe] ∧ m.pendingCrntiCe ≠ 0) := by
  obtain ⟨ccch, filled, log, all, total, -⟩ := @allocateLoop_logged _ rlc _ pduSz [] reads 0 (by decide)
    (filling_initTx pduSz) pduSz pduSz (state, [])
  unfold Mux.startPdu allocateSdu
  generalize allocateLoop (logged rlc) 0 pduSz pduSz (SchPdu.initTx .ulSch maxNofSubheaders {} pduSz) (state, []) = out
    at filled log total
  obtain ⟨sduLen, p', state'⟩ := out
  dsimp only at filled log total ⊢
  by_cases none_ : sduLen = 0
  · rw [if_pos none_]
    have empty : ccch = [] := by
      cases ccch with
      | nil => rfl
      | cons e rest =>
        have := (all e mem_cons_self).2
        simp only [totalBytes, map_cons, sum_cons] at total
        omega
    subst empty
    obtain ⟨crntiCe, inserted, which⟩ := insertCRnti_spec filled grant crnti
    exact ⟨[], crntiCe, by simpa using inserted, log, by simp, which.imp (fun none_ => ⟨none_.1, fun _ => none_.2⟩) id⟩
  · rw [if_neg none_]
    refine ⟨ccch, [], by simpa using filled, log, fun e mem => (all e mem).1, .inl ⟨rfl, fun empty => ?_⟩⟩
    rw [empty] at total
    exact absurd total none_

theorem insertRegular_spec (filling : Filling p pduSz elements) (b : BsrProc) {bsr : Bsr} (whole : bsr.format ≠ .truncBsr)
    (total : Nat) :
    let need := b.needToSendBsrOnUlGrant p.remLen total bsr
    let out := if need.1 then insertRegularBsr p need.2.1 else (p, none)
    need.2.2.lcgs = b.lcgs ∧
    (∃ bsrCe, Filling out.1 pduSz (elements ++ bsrCe) ∧
      (out.2 = some elements.length ∧ bsrCe = [bsrElement need.2.1] ∨ out.2 = none ∧ bsrCe = [])) ∧
    (need.2.1.format ≠ .truncBsr ∧ need.2.1.buffSize = bsr.buffSize ∨
      need.2.1.format = .truncBsr ∧ out.1.newSubh = none ∧
        need.2.1.buffSize = fun i => if b.findMaxPriorityLcgWithData ≠ i then 0 else bsr.buffSize i) := by
  obtain ⟨lcgs, chosen⟩ := @BsrProc.needToSendBsrOnUlGrant_spec b bsr p.remLen total
  generalize b.needToSendBsrOnUlGrant p.remLen total bsr = need at lcgs chosen
  obtain ⟨send, bsr', b'⟩ := need
  dsimp only at lcgs chosen ⊢
  refine ⟨lcgs, ?_⟩
  rcases chosen with ⟨rfl, chosen⟩ | ⟨rfl, rfl⟩
  · obtain ⟨fits, wholeSizes, truncated⟩ := chosen
    obtain ⟨lcidBound, noLength, some_⟩ := bsrLcid_fixed bsr'.format
    have length := bsrBytes_length bsr'.buffSize bsr'.format
    rw [if_pos rfl]
    unfold insertRegularBsr
    cases opened : p.newSubh with
    | none =>
      refine ⟨⟨[], by simpa using filling, .inr ⟨rfl, rfl⟩⟩, ?_⟩
      by_cases trunc : bsr'.format = .truncBsr
      · exact .inr ⟨trunc, opened, (truncated trunc).2⟩
      · exact .inl ⟨trunc, wholeSizes trunc⟩
    | some q =>
      have enough : (bsrBytes bsr'.buffSize bsr'.format).length + 1 ≤ p.remLen := by omega
      obtain ⟨p', set, filled, rem, idx⟩ := filling.setCe opened enough lcidBound noLength length
      dsimp only [SchPdu.setBsr]
      rw [set]
      dsimp only
      refine ⟨⟨[bsrElement bsr'], filled, .inl ⟨by rw [idx], rfl⟩⟩, ?_⟩
      by_cases trunc : bsr'.format = .truncBsr
      · have few := (truncated trunc).1
        refine .inr ⟨trunc, ?_, (truncated trunc).2⟩
        rw [← Option.not_isSome_iff_eq_none, filled.newSubh_isSome]
        omega
      · exact .inl ⟨trunc, wholeSizes trunc⟩
  · exact ⟨⟨[], by simpa using filling, .inr ⟨rfl, rfl⟩⟩, .inl ⟨whole, rfl⟩⟩

theorem insertPhr_spec (filling : Filling p pduSz elements) (phr : Option ℚ) :
    (∃ phrCe, Filling (insertPhr p phr) pduSz (elements ++ phrCe) ∧
      (phrCe = [] ∨ ∃ phrValue, phr = some phrValue ∧ phrCe = [phrElement phrValue])) ∧
      (p.newSubh = none → insertPhr p phr = p) := by
  cases phr with
  | none => exact ⟨⟨[], by simpa [insertPhr] using filling, .inl rfl⟩, fun _ => rfl⟩
  | some phrValue =>
    obtain ⟨new, filled, which⟩ := @Filling.insertCe p pduSz elements filling Lcid.phrReport
      [UInt8.ofNat (phrReportTable phrValue % 64)] (by decide) (by decide) rfl
    refine ⟨⟨new, filled, ?_⟩, fun blocked => ?_⟩
    · rcases which with ⟨none_, -⟩ | some_
      · exact .inl none_
      · exact .inr ⟨phrValue, rfl, some_⟩
    · simp [insertPhr, UlMux.insertCe, blocked]

end

/-! What the logical channels have to send, and what is left of it -/

section
variable {σ : Type} (rlc : RlcInterfaceMac σ) (m : Mux) (state : σ)

def Mux.lcgBuffer (lcg : Fin 4) : Nat :=
  ((m.logicalChannels.filter (·.lcg == lcg)).map fun ch => rlc.getBufferState state ch.lcid).sum

def Mux.pendingBytes : Nat :=
  (m.logicalChannels.map fun ch =>
    rlc.getBufferState state ch.lcid + sizeHeaderSdu (rlc.getBufferState state ch.lcid)).sum

theorem Mux.lcgBuffer_le (lcg : Fin 4) : m.lcgBuffer rlc state lcg ≤ m.pendingBytes rlc state := by
  unfold Mux.lcgBuffer Mux.pendingBytes
  induction m.logicalChannels with
  | nil => simp
  | cons ch rest ih =>
    by_cases mine : ch.lcg = lcg
    · rw [filter_cons_of_pos (by simp [mine]), map_cons, map_cons, sum_cons, sum_cons]
      omega
    · rw [filter_cons_of_neg (by simpa using mine), map_cons, sum_cons]
      omega

theorem i32_bufferState {channels : List LogicalChannel} (small : (channels.map fun ch =>
      rlc.getBufferState state ch.lcid + sizeHeaderSdu (rlc.getBufferState state ch.lcid)).sum < 2147483648) :
    (channels.map fun ch => { ch with schedLen := 0, bufferLen := i32 (rlc.getBufferState state ch.lcid) }) =
      channels.map fun ch => { ch with schedLen := 0, bufferLen := (rlc.getBufferState state ch.lcid : Int) } := by
  induction channels with
  | nil => rfl
  | cons ch rest ih =>
    rw [map_cons, sum_cons] at small
    have own : i32 (rlc.getBufferState state ch.lcid) = rlc.getBufferState state ch.lcid := if_pos (by omega)
    rw [map_cons, map_cons, own, ih (by omega)]

end

structure Planned {σ : Type} (rlc : RlcInterfaceMac σ) (state : σ) (before after : LogicalChannel) : Prop where
  lcid : after.lcid = before.lcid
  lcg : after.lcg = before.lcg
  bufferLen : 0 ≤ after.bufferLen
  schedLen : 0 ≤ after.schedLen
  total : after.bufferLen + after.schedLen = rlc.getBufferState state before.lcid

section
variable {σ : Type} {rlc : RlcInterfaceMac σ} {state : σ} {channels planned : List LogicalChannel}

theorem served_trans {a b c : List LogicalChannel} (first : List.Forall₂ Served a b) (second : List.Forall₂ Served b c) :
    List.Forall₂ Served a c := by
  induction first generalizing c with
  | nil => exact second
  | cons head _ ih =>
    cases second with
    | cons head' tail' => exact .cons (head.trans head') (ih tail')

theorem planned_of_served (served : List.Forall₂ Served (channels.map fun ch =>
      { ch with schedLen := 0, bufferLen := (rlc.getBufferState state ch.lcid : Int) }) planned) :
    List.Forall₂ (Planned rlc state) channels planned := by
  induction channels generalizing planned with
  | nil =>
    cases served
    exact .nil
  | cons ch rest ih =>
    cases served with
    | cons head tail =>
      have grows := head.grows
      have total := head.total
      refine .cons ⟨head.lcid, head.lcg, head.bufferLen (by dsimp only; omega), grows, ?_⟩ (ih tail)
      dsimp only at total
      omega

theorem rounds_planned (rlc : RlcInterfaceMac σ) (state : σ) (channels : List LogicalChannel) (space : Nat) :
    let read := channels.map fun ch => { ch with schedLen := 0, bufferLen := (rlc.getBufferState state ch.lcid : Int) }
    let first := firstRound read space 0
    List.Forall₂ (Planned rlc state) channels (secondRound first.2.2 first.1 (first.2.1 + first.2.2)).1 ∧
      0 ≤ first.2.1 ∧ scheduled (secondRound first.2.2 first.1 (first.2.1 + first.2.2)).1 ≤ space := by
  intro read first
  obtain ⟨firstServed, left, lastPos, firstTotal⟩ := @firstRound_spec read space 0 (by omega) (le_refl 0)
  obtain ⟨secondServed, secondTotal⟩ := @secondRound_spec first.1 (first.2.1 + first.2.2) first.2.2 lastPos
  have none_ : scheduled read = 0 := by simp [scheduled, read, Function.comp_def]
  refine ⟨planned_of_served (served_trans firstServed secondServed), left, ?_⟩
  change scheduled first.1 - scheduled read + first.2.1 + first.2.2 ≤ _ at firstTotal
  change 0 ≤ first.2.1 at left
  change 0 ≤ first.2.2 at lastPos
  omega

theorem pendingPerLcg_read (rlc : RlcInterfaceMac σ) (state : σ) (m : Mux) (lcg : Fin 4) :
    pendingPerLcg (m.logicalChannels.map fun ch =>
      { ch with schedLen := 0, bufferLen := (rlc.getBufferState state ch.lcid : Int) }) lcg = m.lcgBuffer rlc state lcg := by
  unfold pendingPerLcg Mux.lcgBuffer
  induction m.logicalChannels with
  | nil => rfl
  | cons ch rest ih =>
    by_cases mine : ch.lcg = lcg
    · simp only [map_cons, filter_cons, mine, beq_self_eq_true, if_true, sum_cons, ih]
      rfl
    · simp [mine]
      simpa using ih

section
variable (plan : List.Forall₂ (Planned rlc state) channels planned)
include plan

theorem planned_mem {ch' : LogicalChannel}
    (mem : ch' ∈ planned) : ∃ ch ∈ channels, Planned rlc state ch ch' := by
  induction plan with
  | nil => cases mem
  | cons head _ ih =>
    rcases List.mem_cons.mp mem with rfl | later
    · exact ⟨_, mem_cons_self, head⟩
    · obtain ⟨ch, mem', planned⟩ := ih later
      exact ⟨ch, mem_cons_of_mem _ mem', planned⟩

theorem planned_lcids :
    planned.map (·.lcid) = channels.map (·.lcid) :=
  (map_eq_of_forall₂ plan fun _ _ p => p.lcid.symm).symm

theorem planned_lcgBytes (lcg : Fin 4)
    (data : List Element) : lcgBytes planned lcg data = lcgBytes channels lcg data := by
  induction plan with
  | nil => rfl
  | cons head _ ih => rw [lcgBytes_cons, lcgBytes_cons, ih, head.lcid, head.lcg]

theorem planned_within {data : List Element}
    (served : ∀ ch ∈ planned, (bytesOf ch.lcid data : Int) ≤ ch.schedLen) (lcg : Fin 4) :
    lcgBytes planned lcg data ≤
      ((channels.filter (·.lcg == lcg)).map fun ch => rlc.getBufferState state ch.lcid).sum := by
  induction plan with
  | nil => simp [lcgBytes]
  | @cons ch ch' rest rest' head _ ih =>
    have own := served ch' mem_cons_self
    have behind := ih fun ch mem => served ch (mem_cons_of_mem _ mem)
    obtain ⟨lcid, sameLcg, bufferLen, schedLen, total⟩ := head
    rw [lcgBytes_cons, sameLcg]
    by_cases mine : lcg = ch.lcg
    · rw [if_pos mine, filter_cons_of_pos (by simp [mine]), map_cons, sum_cons]
      omega
    · rw [if_neg mine, filter_cons_of_neg (by simpa using fun same => mine same.symm)]
      omega

end

end

structure LcpDone {σ : Type} (rlc : RlcInterfaceMac σ) (m : Mux) (phr : Option ℚ) (pduSz : Nat)
    (elements : List Element) (state : σ × List Element) (l : Lcp (σ × List Element))
    (bsrCe phrCe data : List Element) : Prop where
  filling : Filling l.pdu pduSz (elements ++ bsrCe ++ phrCe ++ data)
  log : l.rlc.2 = state.2 ++ data
  isSdu : ∀ e ∈ data, isSdu .ulSch e.lcid = true
  bsr : (l.bsrIdx = some elements.length ∧ ∃ sizes, bsrCe = [bsrElement { l.bsr with buffSize := sizes }]) ∨
    l.bsrIdx = none ∧ bsrCe = []
  phr : phrCe = [] ∨ ∃ phrValue, phr = some phrValue ∧ phrCe = [phrElement phrValue]
  lcgs : l.bsrProcedure.lcgs = m.bsrProcedure.lcgs
  within : ∀ lcg, lcgBytes m.logicalChannels lcg data ≤ m.lcgBuffer rlc state.1 lcg
  whole : l.bsr.format ≠ .truncBsr → ∀ lcg,
    l.bsr.buffSize lcg = m.lcgBuffer rlc state.1 lcg - lcgBytes m.logicalChannels lcg data
  truncated : l.bsr.format = .truncBsr → data = [] ∧ l.pdu.newSubh = none ∧ ∀ lcg,
    l.bsr.buffSize lcg = if m.bsrProcedure.findMaxPriorityLcgWithData ≠ lcg then 0 else (m.lcgBuffer rlc state.1 lcg : Int)
  counters : ∀ ch ∈ l.channels, 0 ≤ ch.bufferLen ∧ 0 ≤ ch.schedLen
  space : 0 ≤ l.sduSpace₁ ∧ scheduled l.channels ≤ l.sduSpace₀

section
variable {σ : Type} {rlc : RlcInterfaceMac σ} {p : SchPdu} {pduSz : Nat} {elements : List Element}

theorem lcp_done (reads : ReadsAtMost rlc) {m : Mux} (configured : m.Configured) (phr : Option ℚ)
    (filling : Filling p pduSz elements) (state : σ × List Element) (small : m.pendingBytes rlc state.1 < 2147483648) :
    ∃ bsrCe phrCe data, LcpDone rlc m phr pduSz elements state (m.lcp (logged rlc) phr p state) bsrCe phrCe data := by
  obtain ⟨nodup, isSdu_⟩ := configured
  unfold Mux.lcp
  rw [i32_bufferState (logged rlc) state small]
  generalize readEq : (m.logicalChannels.map fun ch =>
    { ch with schedLen := 0, bufferLen := ((logged rlc).getBufferState state ch.lcid : Int) }) = read
  dsimp only
  have pending : ∀ lcg, pendingPerLcg read lcg = (m.lcgBuffer rlc state.1 lcg : Int) := fun lcg => by
    rw [← readEq]
    exact pendingPerLcg_read rlc state.1 m lcg
  obtain ⟨lcgs, ⟨bsrCe, filledBsr, idx⟩, sizes⟩ := @insertRegular_spec p pduSz elements filling m.bsrProcedure
    { buffSize := pendingPerLcg read } (by simp) (totalPendingData read % 4294967296).toNat
  generalize m.bsrProcedure.needToSendBsrOnUlGrant p.remLen (totalPendingData read % 4294967296).toNat
    { buffSize := pendingPerLcg read } = need at lcgs filledBsr idx sizes ⊢
  obtain ⟨send, bsr, bsrProcedure⟩ := need
  dsimp only at lcgs filledBsr idx sizes ⊢
  generalize (if send then insertRegularBsr p bsr else (p, none)) = inserted at filledBsr idx sizes ⊢
  obtain ⟨pBsr, bsrIdx⟩ := inserted
  obtain ⟨⟨phrCe, filledPhr, phrWhich⟩, phrBlocked⟩ := insertPhr_spec filledBsr phr
  have plan := rounds_planned (logged rlc) state m.logicalChannels (insertPhr pBsr phr).getSduSpace
  rw [readEq] at plan
  dsimp only at plan
  generalize firstRound read (insertPhr pBsr phr).getSduSpace 0 = first at plan ⊢
  obtain ⟨channels₁, space₁, last₁⟩ := first
  generalize secondRound last₁ channels₁ (space₁ + last₁) = second at plan ⊢
  obtain ⟨channels₂, space₂⟩ := second
  obtain ⟨plan, space⟩ := plan
  have isSduAll : ∀ ch' ∈ channels₂, isSdu .ulSch ch'.lcid = true := by
    intro ch' mem
    obtain ⟨ch, mem', planned⟩ := planned_mem plan mem
    rw [planned.lcid]
    exact isSdu_ ch mem'
  have counters : ∀ ch' ∈ channels₂, 0 ≤ ch'.bufferLen ∧ 0 ≤ ch'.schedLen := by
    intro ch' mem
    obtain ⟨ch, -, planned⟩ := planned_mem plan mem
    exact ⟨planned.bufferLen, planned.schedLen⟩
  obtain ⟨data, filled, log, mem, format, sent, served⟩ := allocateChannels_logged reads
    ((planned_lcids plan).symm ▸ nodup) isSduAll (fun ch' mem => (counters ch' mem).2)
    filledPhr state bsr
  have blocked : bsr.format = .truncBsr → ∃ bsr', allocateChannels (logged rlc) channels₂ (insertPhr pBsr phr) state bsr =
      (insertPhr pBsr phr, state, bsr') ∧ bsr'.format = bsr.format ∧ bsr'.buffSize = bsr.buffSize ∧
        (insertPhr pBsr phr).newSubh = none := by
    intro trunc
    rcases sizes with ⟨whole, -⟩ | ⟨-, noRoom, -⟩
    · exact absurd trunc whole
    · rw [phrBlocked noRoom]
      obtain ⟨bsr', out, format, same⟩ := allocateChannels_blocked noRoom channels₂ state bsr
      exact ⟨bsr', out, format, same, noRoom⟩
  have within := planned_within plan served
  simp only [planned_lcgBytes plan] at within sent
  generalize allocateChannels (logged rlc) channels₂ (insertPhr pBsr phr) state bsr = out at filled log format sent blocked ⊢
  refine ⟨bsrCe, phrCe, data, ⟨filled, log, ?_, ?_, phrWhich, lcgs, within, ?_, ?_, counters, space⟩⟩
  · intro e inData
    obtain ⟨ch', mem', lcid⟩ := List.mem_map.mp (mem e inData)
    rw [← lcid]
    exact isSduAll ch' mem'
  · dsimp only
    rcases idx with ⟨found, element⟩ | none_
    · refine .inl ⟨found, bsr.buffSize, ?_⟩
      rw [element, format]
    · exact .inr none_
  · dsimp only
    intro whole lcg
    rcases sizes with ⟨-, all⟩ | ⟨trunc, -⟩
    · rw [sent lcg, all, pending lcg]
    · exact absurd (format.trans trunc) whole
  · dsimp only
    intro trunc
    obtain ⟨bsr', same, -, sizes', noRoom⟩ := blocked (format.symm.trans trunc)
    rcases sizes with ⟨whole, -⟩ | ⟨-, -, zeroed⟩
    · exact absurd (format.symm.trans trunc) whole
    obtain ⟨rfl, rfl, rfl⟩ := same
    refine ⟨?_, noRoom, fun lcg => ?_⟩
    · simpa using log
    · rw [sizes', zeroed, ← pending lcg]

end

end IsrRan.Mac.Lte.UlMux
