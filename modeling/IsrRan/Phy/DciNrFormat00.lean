import IsrRan.Phy.DciNrFields

namespace IsrRan.Phy
open Lib List Nat

section Format00
variable {cfg : DciCfgNr} {q : DciNr} {d : DciUlNr}

def freqBits (cfg : DciCfgNr) (ssType : SearchSpaceType) : Nat := dciNrFreqResourceSizeType1 (ulBw cfg ssType)

theorem size00_eq {ssType : SearchSpaceType} (room : bitsIf cfg.enableHopping 1 < freqBits cfg ssType) :
    hopBits cfg (ulBw cfg ssType) ≤ freqBits cfg ssType ∧
      size00 cfg ssType = freqBits cfg ssType + 20 + sulBits cfg := by
  change _ ∧ (if freqBits cfg ssType < _ then _ else _ + (freqBits cfg ssType - _) + _ + _ + _ + _ + _ + _ + _ + _) = _
  have hop : hopBits cfg (ulBw cfg ssType) ≤ freqBits cfg ssType := by
    unfold bitsIf at room
    unfold hopBits
    cases hopping : cfg.enableHopping with
    | false => exact Nat.zero_le _
    | true =>
      rw [hopping, if_pos rfl] at room
      rw [if_pos rfl]
      split <;> omega
  rw [if_neg (Nat.not_lt.mpr hop)]
  omega

theorem packHopBits_eq (sized : q.Sized cfg) {ssType : SearchSpaceType} :
    packHopBits q (ulBw cfg ssType) < freqBits cfg ssType ↔ bitsIf cfg.enableHopping 1 < freqBits cfg ssType := by
  unfold packHopBits bitsIf freqBits dciNrFreqResourceSizeType1
  rw [sized.cfgEq]
  cases cfg.enableHopping
  · rfl
  · by_cases none : ulBw cfg ssType = 0 <;> simp [none]

structure Aligned (q : DciNr) (cfg : DciCfgNr) (ssType : SearchSpaceType) (size : Nat) : Prop where
  isSize : dciNrSize q ssType .f00 = size
  padd : (if ssType.isCommon then q.dci00CommonPadd else q.dci00UePadd) = size10 cfg ssType - size00 cfg ssType
  trunc : (if ssType.isCommon then q.dci00CommonTrunc else 0) =
    if ssType.isCommon then size00 cfg ssType - size10 cfg ssType else 0
  size_eq : size = if ssType.isCommon then size10 cfg ssType else max (size00 cfg ssType) (size10 cfg ssType)

theorem aligned_of_monitored (sized : q.Sized cfg) {ctx : DciCtxNr} (format : ctx.format = .f00)
    (monitored : ctx.Monitored cfg) : Aligned q cfg ctx.ssType (dciNrSize q ctx.ssType .f00) := by
  unfold DciCtxNr.Monitored at monitored
  rw [format] at monitored
  obtain ⟨-, ⟨common, monitored⟩ | ⟨ue, monitored⟩⟩ := monitored
  · refine ⟨rfl, ?_, ?_, ?_⟩
    · rw [if_pos common, sized.commonPadd _ common monitored]
    · rw [if_pos common, if_pos common, sized.commonTrunc _ common monitored]
    · unfold dciNrSize
      rw [if_pos common, if_pos common, sized.commonSize _ common]
  · rw [ue]
    refine ⟨rfl, ?_, rfl, ?_⟩
    · exact sized.uePadd monitored
    · exact sized.ueSize

def format00Layout (cfg : DciCfgNr) (d : DciUlNr) : List (Nat × Nat) := [
  (0, 0), (freqBits cfg d.ctx.ssType, d.freqDomainAssigment), (4, d.timeDomainAssigment), (1, d.freqHoppingFlag),
  (5, d.mcs), (1, d.ndi), (2, d.rv), (4, d.pid), (2, d.tpc)]

theorem format00Layout_length : (writeFields (format00Layout cfg d)).length = freqBits cfg d.ctx.ssType + 19 := by
  rw [writeFields_length]
  unfold format00Layout
  simp only [map_cons, map_nil, sum_cons, sum_nil]
  omega

def SulTail (cfg : DciCfgNr) (d : DciUlNr) (bits : List Bool) : Prop :=
  cfg.enableSul = true → ∃ padding rest, padding.length = 8 ∧ bits = padding ++ (bitsOf 1 d.sul ++ rest)

def valueAt : List Nat → Nat → Nat
  | values, 0 => values.headD 0
  | values, k + 1 => valueAt values.tail k

theorem format00_written_of_read (sized : q.Sized cfg) (format : d.ctx.format = .f00) {values : List Nat}
    (set : d.carried cfg d = setFields (format00Fields q d.ctx.ssType)
      ((fieldsOf (widths (format00Fields q d.ctx.ssType)) values).map fun f => f.2 % 2 ^ f.1) { d with ctx := d.ctx })
    (room : 0 < freqBits cfg d.ctx.ssType) :
    (cfg.enableHopping = true → d.frequencyOffset = 0) ∧
      ∃ padding sulRead, writeFields (fieldsOf (widths (format00Fields q d.ctx.ssType)) values) =
        writeFields (format00Layout cfg d) ++
          (bitsOf (bitsIf cfg.enableSul 8) padding ++ bitsOf (sulBits cfg) sulRead) ∧
        (cfg.enableSul = true → bitsOf (sulBits cfg) sulRead = bitsOf 1 d.sul) := by
  unfold DciUlNr.carried at set
  rw [format] at set
  have field {α : Type} (get : DciUlNr → α) := congrArg get set
  have offset : (if cfg.enableHopping then d.frequencyOffset else 0) = valueAt values 0 % 2 ^ 0 :=
    field DciUlNr.frequencyOffset
  have freq : held (freqBits cfg d.ctx.ssType) d.freqDomainAssigment =
      valueAt values 1 % 2 ^ dciNrFreqResourceSizeType1 (ulBw q.cfg d.ctx.ssType) := field DciUlNr.freqDomainAssigment
  have time : d.timeDomainAssigment = valueAt values 2 % 2 ^ 4 := field DciUlNr.timeDomainAssigment
  have flag : d.freqHoppingFlag = valueAt values 3 % 2 ^ 1 := field DciUlNr.freqHoppingFlag
  have mcs : d.mcs = valueAt values 4 % 2 ^ 5 := field DciUlNr.mcs
  have ndi : d.ndi = valueAt values 5 % 2 ^ 1 := field DciUlNr.ndi
  have rv : d.rv = valueAt values 6 % 2 ^ 2 := field DciUlNr.rv
  have pid : d.pid = valueAt values 7 % 2 ^ 4 := field DciUlNr.pid
  have tpc : d.tpc = valueAt values 8 % 2 ^ 2 := field DciUlNr.tpc
  have sul : (if cfg.enableSul then d.sul else d.sul) =
      if q.cfg.enableSul then valueAt values 10 % 2 ^ sulBits q.cfg else d.sul := field DciUlNr.sul
  rw [sized.cfgEq] at freq sul
  change _ = valueAt values 1 % 2 ^ freqBits cfg d.ctx.ssType at freq
  rw [held_of_ne (Nat.ne_of_gt room)] at freq
  refine ⟨?_, valueAt values 9, valueAt values 10, ?_, ?_⟩
  · intro hopping
    rwa [hopping, Nat.pow_zero, mod_one] at offset
  · have widths_ : widths (format00Fields q d.ctx.ssType) =
        [0, freqBits cfg d.ctx.ssType, 4, 1, 5, 1, 2, 4, 2, bitsIf cfg.enableSul 8, sulBits cfg] := by
      rw [← sized.cfgEq]
      rfl
    have read : fieldsOf [0, freqBits cfg d.ctx.ssType, 4, 1, 5, 1, 2, 4, 2, bitsIf cfg.enableSul 8, sulBits cfg]
          values =
        [(0, valueAt values 0), (freqBits cfg d.ctx.ssType, valueAt values 1), (4, valueAt values 2),
          (1, valueAt values 3), (5, valueAt values 4), (1, valueAt values 5), (2, valueAt values 6),
          (4, valueAt values 7), (2, valueAt values 8), (bitsIf cfg.enableSul 8, valueAt values 9),
          (sulBits cfg, valueAt values 10)] := rfl
    rw [widths_, read]
    unfold format00Layout
    rw [freq, time, flag, mcs, ndi, rv, pid, tpc]
    simp only [writeFields_cons, writeFields_nil, bitsOf_mod, append_assoc, append_nil]
    rfl
  · intro enabled
    rw [enabled, if_pos rfl, if_pos rfl] at sul
    rw [sul, sulBits, if_pos enabled, bitsOf_mod]

theorem format00_written (sized : q.Sized cfg) (format : d.ctx.format = .f00)
    (offset : cfg.enableHopping = true → d.frequencyOffset = 0) {padding sulField : Nat × Nat}
    (sul : cfg.enableSul = true → sulField.2 % 2 ^ sulField.1 = d.sul) (init : DciUlNr) :
    setFields (format00Fields q d.ctx.ssType)
      (heldValues (format00Layout cfg d) ++ [padding, sulField].map fun f => f.2 % 2 ^ f.1) { init with ctx := d.ctx } =
        d.carried cfg init := by
  unfold DciUlNr.carried
  rw [format]
  apply DciUlNr.ext
  case frequencyOffset =>
    change 0 = if cfg.enableHopping then d.frequencyOffset else 0
    split
    · next hopping => exact (offset hopping).symm
    · rfl
  case sul =>
    change (if q.cfg.enableSul then sulField.2 % 2 ^ sulField.1 else init.sul) =
      if cfg.enableSul then d.sul else init.sul
    rw [sized.cfgEq]
    split
    · next enabled => exact sul enabled
    · rfl
  all_goals rfl

theorem takeBit_false {α : Type} (r : BitReader α) (bits : List Bool) :
    (do
      let isDl ← takeBit
      if isDl then failure else r : BitReader α) (false :: bits) = r bits := rfl

theorem format00_unpack_iff (sized : q.Sized cfg) (format : d.ctx.format = .f00) (rnti : d.ctx.rntiType.isFor00 = true)
    (room : 0 < freqBits cfg d.ctx.ssType) (fit : FieldsFit (format00Layout cfg d))
    (sul : cfg.enableSul = true → d.sul < 2) {payload : List Bool} {nofBits : Nat} (size : nofBits = dciNrSize q d.ctx.ssType .f00) :
    (∀ init, dciNrUlUnpack q ⟨d.ctx, payload, nofBits⟩ init = some (d.carried cfg init)) ↔
      (cfg.enableHopping = true → d.frequencyOffset = 0) ∧ ∃ rest,
        payload = false :: (writeFields (format00Layout cfg d) ++ rest) ∧ SulTail cfg d rest := by
  have unpack_eq : ∀ init, dciNrUlUnpack q ⟨d.ctx, payload, nofBits⟩ init =
      (((do
        let isDl ← takeBit
        if isDl then failure
        else readFields (format00Fields q d.ctx.ssType) { init with ctx := d.ctx } : BitReader DciUlNr) payload).map
        Prod.fst) := by
    intro init
    unfold dciNrUlUnpack dciNrFormat00Unpack
    dsimp only
    rw [format]
    rw [rnti, if_neg (by simp), if_neg (not_not.mpr size)]
  simp only [unpack_eq]
  constructor
  · intro restored
    have read := restored d
    rw [map_fst_eq_some] at read
    obtain ⟨rest, read⟩ := read
    rw [Exact.takeBit.bind_iff] at read
    obtain ⟨isDl, bits, -, rfl, read⟩ := read
    cases isDl with
    | true => cases read
    | false =>
      obtain ⟨values, rfl, set⟩ := readFields_eq_some read
      obtain ⟨offset, padding, sulRead, same, sulSame⟩ := format00_written_of_read sized format set room
      refine ⟨offset, bitsOf (bitsIf cfg.enableSul 8) padding ++ (bitsOf (sulBits cfg) sulRead ++ rest), ?_, ?_⟩
      · rw [same]
        simp
      · intro enabled
        refine ⟨bitsOf 8 padding, rest, bitsOf_length 8 padding, ?_⟩
        rw [sulSame enabled, enabled]
        rfl
  · rintro ⟨offset, rest, rfl, tail⟩ init
    rw [map_fst_eq_some, takeBit_false]
    obtain ⟨padding, sulField, back, rfl, same, sulSame⟩ : ∃ padding sulField back,
        rest = writeFields [padding, sulField] ++ back ∧
          widths (format00Fields q d.ctx.ssType) = (format00Layout cfg d ++ [padding, sulField]).map Prod.fst ∧
          (cfg.enableSul = true → sulField.2 % 2 ^ sulField.1 = d.sul) := by
      unfold widths format00Fields bitsIf sulBits
      rw [sized.cfgEq]
      cases enabled : cfg.enableSul with
      | false => exact ⟨(0, 0), (0, 0), rest, rfl, rfl, fun absurd => nomatch absurd⟩
      | true =>
        obtain ⟨padding, back, eight, rfl⟩ := tail enabled
        refine ⟨(8, ofBits padding), (1, d.sul), back, ?_, rfl, fun _ => mod_eq_of_lt (sul enabled)⟩
        rw [writeFields_cons, writeFields_cons, writeFields_nil, bitsOf_ofBits eight, append_nil,
          append_assoc]
    refine ⟨back, ?_⟩
    have reads := readFields_reads same { init with ctx := d.ctx } back
    have mods : (format00Layout cfg d ++ [padding, sulField]).map (fun f => f.2 % 2 ^ f.1) =
        heldValues (format00Layout cfg d) ++ [padding, sulField].map fun f => f.2 % 2 ^ f.1 := by
      rw [map_append, map_mod_eq fit]
      rfl
    rw [mods, format00_written sized format offset sulSame, writeFields_append, append_assoc] at reads
    exact reads

def format00Packed (q : DciNr) (cfg : DciCfgNr) (d : DciUlNr) : List (Nat × Nat) :=
  let ss := d.ctx.ssType
  let hop := packHopBits q (ulBw cfg ss)
  let trunc := if ss.isCommon then size00 cfg ss - size10 cfg ss else 0
  [(1, 0), (hop, d.frequencyOffset), (freqBits cfg ss - hop - trunc, d.freqDomainAssigment),
    (4, d.timeDomainAssigment), (1, d.freqHoppingFlag), (5, d.mcs), (1, d.ndi), (2, d.rv), (4, d.pid), (2, d.tpc),
    (size10 cfg ss - size00 cfg ss, 0), (sulBits cfg, 0)]

section
variable (sized : q.Sized cfg)
include sized

section
variable (format : d.ctx.format = .f00)
include format

theorem format00Pack_eq (monitored : d.ctx.Monitored cfg)
    (nofBits : Nat) : dciNrUlPack q d nofBits =
      if freqBits cfg d.ctx.ssType ≤ packHopBits q (ulBw cfg d.ctx.ssType) then none
      else packFields (dciNrSize q d.ctx.ssType .f00) (format00Packed q cfg d) := by
  have aligned := aligned_of_monitored sized format monitored
  have rnti : d.ctx.rntiType.isFor00 = true := by
    unfold DciCtxNr.Monitored at monitored
    rw [format] at monitored
    exact monitored.1
  unfold dciNrUlPack dciNrFormat00Pack
  rw [format]
  rw [rnti, if_neg (by simp), sized.cfgEq, aligned.padd, aligned.trunc]
  rfl

theorem format00Packed_length (monitored : d.ctx.Monitored cfg)
    (room : bitsIf cfg.enableHopping 1 < freqBits cfg d.ctx.ssType) :
    (writeFields (format00Packed q cfg d)).length = dciNrSize q d.ctx.ssType .f00 := by
  have size := (aligned_of_monitored sized format monitored).size_eq
  have s00 := (size00_eq room).2
  have s10 : 28 ≤ size10 cfg d.ctx.ssType := by
    rw [size10_eq]
    exact Nat.le_add_left 28 _
  have hop := (packHopBits_eq sized).mpr room
  have few : packHopBits q (ulBw cfg d.ctx.ssType) ≤ 2 := by
    unfold packHopBits
    split
    · split <;> omega
    · omega
  have sul : sulBits cfg ≤ 1 := by
    unfold sulBits
    split <;> omega
  rw [writeFields_length]
  unfold format00Packed
  simp only [map_cons, map_nil, sum_cons, sum_nil]
  cases common : d.ctx.ssType.isCommon with
  | true =>
    rw [common, if_pos rfl] at size
    rw [if_pos rfl]
    omega
  | false =>
    rw [common, if_neg Bool.false_ne_true] at size
    rw [if_neg Bool.false_ne_true]
    omega

theorem fits00 (room : bitsIf cfg.enableHopping 1 < freqBits cfg d.ctx.ssType) (fits : d.Fits q) :
    FieldsFit (format00Layout cfg d) ∧ (cfg.enableSul = true → d.sul < 2) ∧
      d.freqDomainAssigment < 2 ^ (freqBits cfg d.ctx.ssType - packHopBits q (ulBw cfg d.ctx.ssType)) := by
  unfold DciUlNr.Fits at fits
  rw [format, sized.cfgEq] at fits
  obtain ⟨freq, fields⟩ := fits
  unfold FieldsFit at fields
  simp only [forall_mem_cons] at fields
  obtain ⟨-, time, flag, mcs, ndi, rv, pid, tpc, sul, -⟩ := fields
  have below := Nat.lt_of_lt_of_le freq
    (Nat.pow_le_pow_right Nat.two_pos (Nat.le_trans (sub_le _ _) (sub_le _ _)))
  refine ⟨?_, ?_, ?_⟩
  · unfold FieldsFit format00Layout
    simp only [forall_mem_cons]
    exact ⟨fun none_ => absurd rfl none_, fun _ => below, time, flag, mcs, ndi, rv, pid, tpc,
      fun _ mem => absurd mem not_mem_nil⟩
  · intro enabled
    rw [sulBits, if_pos enabled] at sul
    exact sul (by decide)
  · refine Nat.lt_of_lt_of_le freq (Nat.pow_le_pow_right Nat.two_pos ?_)
    have hop : packHopBits q (ulBw cfg d.ctx.ssType) ≤ hopBits cfg (ulBw cfg d.ctx.ssType) := by
      have some_ : ulBw cfg d.ctx.ssType ≠ 0 := by
        intro none_
        unfold freqBits dciNrFreqResourceSizeType1 at room
        rw [if_pos none_] at room
        exact absurd room (Nat.not_lt_zero _)
      unfold packHopBits hopBits
      rw [sized.cfgEq]
      split
      · split <;> decide
      · exact Nat.le_refl 0
    unfold freqBits
    omega

end

theorem format00Packed_eq (room : bitsIf cfg.enableHopping 1 < freqBits cfg d.ctx.ssType)
    (freq : d.freqDomainAssigment < 2 ^ (freqBits cfg d.ctx.ssType - packHopBits q (ulBw cfg d.ctx.ssType)))
    (offset : cfg.enableHopping = true → d.frequencyOffset = 0)
    (noTrunc : d.ctx.ssType.isCommon = true → size00 cfg d.ctx.ssType ≤ size10 cfg d.ctx.ssType) :
    writeFields (format00Packed q cfg d) = false :: (writeFields (format00Layout cfg d) ++
      replicate (size10 cfg d.ctx.ssType - size00 cfg d.ctx.ssType + sulBits cfg) false) := by
  have hop := (packHopBits_eq sized).mpr room
  have trunc : (if d.ctx.ssType.isCommon then size00 cfg d.ctx.ssType - size10 cfg d.ctx.ssType else 0) = 0 := by
    split
    · next common => exact Nat.sub_eq_zero_of_le (noTrunc common)
    · rfl
  have hopping : bitsOf (packHopBits q (ulBw cfg d.ctx.ssType)) d.frequencyOffset =
      bitsOf (packHopBits q (ulBw cfg d.ctx.ssType)) 0 := by
    cases enabled : cfg.enableHopping with
    | true => rw [offset enabled]
    | false =>
      unfold packHopBits
      rw [sized.cfgEq, enabled]
      rfl
  have assignment : bitsOf (packHopBits q (ulBw cfg d.ctx.ssType)) 0 ++
      bitsOf (freqBits cfg d.ctx.ssType - packHopBits q (ulBw cfg d.ctx.ssType)) d.freqDomainAssigment =
        bitsOf (freqBits cfg d.ctx.ssType) d.freqDomainAssigment := by
    rw [← bitsOf_add freq, Nat.add_sub_cancel' (Nat.le_of_lt hop)]
  have packed : format00Packed q cfg d = (1, 0) :: (packHopBits q (ulBw cfg d.ctx.ssType), d.frequencyOffset) ::
      (freqBits cfg d.ctx.ssType - packHopBits q (ulBw cfg d.ctx.ssType) -
        (if d.ctx.ssType.isCommon then size00 cfg d.ctx.ssType - size10 cfg d.ctx.ssType else 0),
        d.freqDomainAssigment) ::
      ((format00Layout cfg d).drop 2 ++
        [(size10 cfg d.ctx.ssType - size00 cfg d.ctx.ssType, 0), (sulBits cfg, 0)]) := rfl
  have layout : writeFields (format00Layout cfg d) = bitsOf (freqBits cfg d.ctx.ssType) d.freqDomainAssigment ++
      writeFields ((format00Layout cfg d).drop 2) := rfl
  have front : bitsOf 1 0 = [false] := rfl
  rw [packed, trunc, Nat.sub_zero, layout, ← assignment, writeFields_cons, writeFields_cons, writeFields_cons,
    writeFields_append, hopping, front]
  simp only [writeFields_cons, writeFields_nil, bitsOf_zero, append_nil, append_assoc, cons_append,
    nil_append, replicate_append_replicate]

end

theorem size_of_unpack_iff {packed : List Bool} (room : packed.length ≤ dciNrPayload)
    (always : ∀ stale : List Bool, packed.length + stale.length = dciNrPayload → ∃ rest,
      packed ++ stale = false :: (writeFields (format00Layout cfg d) ++ rest) ∧ SulTail cfg d rest) :
    freqBits cfg d.ctx.ssType + 20 ≤ packed.length ∧
      (cfg.enableSul = true → packed[freqBits cfg d.ctx.ssType + 28]? = some (d.sul.testBit 0)) := by
  have length := @format00Layout_length cfg d
  constructor
  · obtain ⟨b, last⟩ : ∃ b,
        (false :: writeFields (format00Layout cfg d))[freqBits cfg d.ctx.ssType + 19]? = some b := by
      refine ⟨_, List.getElem?_eq_getElem ?_⟩
      rw [length_cons, length]
      exact lt_succ_self _
    have inside : packed[freqBits cfg d.ctx.ssType + 19]? = some b := by
      refine getElem?_of_forall_stale room fun stale fill => ?_
      obtain ⟨rest, same, -⟩ := always stale fill
      rw [same, ← cons_append, List.getElem?_append_left, last]
      rw [length_cons, length]
      exact lt_succ_self _
    obtain ⟨within, -⟩ := List.getElem?_eq_some_iff.mp inside
    omega
  · intro enabled
    refine getElem?_of_forall_stale room fun stale fill => ?_
    obtain ⟨rest, same, tail⟩ := always stale fill
    obtain ⟨padding, back, eight, rfl⟩ := tail enabled
    rw [same, ← cons_append, List.getElem?_append_right, length_cons, length,
      List.getElem?_append_right (by omega), eight,
      show freqBits cfg d.ctx.ssType + 28 - (freqBits cfg d.ctx.ssType + 19 + 1) - 8 = 0 by omega]
    · rfl
    · rw [length_cons]
      omega

theorem roundTrips_iff_of_f00 (sized : q.Sized cfg) (format : d.ctx.format = .f00) (monitored : d.ctx.Monitored cfg)
    (fits : d.Fits q) : d.RoundTrips q ↔ d.Kept cfg := by
  have rnti : d.ctx.rntiType.isFor00 = true := by
    unfold DciCtxNr.Monitored at monitored
    rw [format] at monitored
    exact monitored.1
  have aligned := aligned_of_monitored sized format monitored
  have size := aligned.size_eq
  unfold DciUlNr.RoundTrips DciUlNr.Kept
  rw [format, sized.cfgEq]
  simp only [format00Pack_eq sized format monitored]
  by_cases room : bitsIf cfg.enableHopping 1 < freqBits cfg d.ctx.ssType
  · have length := format00Packed_length sized format monitored room
    have s00 := (size00_eq room).2
    have some_ : 0 < freqBits cfg d.ctx.ssType := Nat.lt_of_le_of_lt (Nat.zero_le _) room
    obtain ⟨fit, sul, freq⟩ := fits00 sized format room fits
    have unpacks (payload : List Bool) :=
      @format00_unpack_iff cfg q d sized format rnti some_ fit sul payload _ rfl
    rw [if_neg (Nat.not_le.mpr ((packHopBits_eq sized).mpr room))]
    have sulOne : cfg.enableSul = true → sulBits cfg = 1 := fun enabled => if_pos enabled
    have sulNone : cfg.enableSul = false → sulBits cfg = 0 := fun disabled => by rw [sulBits, disabled]; rfl
    constructor
    · intro back
      obtain ⟨bits, packed, -, restored⟩ := back 0
      obtain ⟨short, -, same⟩ := packFields_eq_some.mp packed
      cases same
      have found (stale : List Bool)
          (fill : (writeFields (format00Packed q cfg d)).length + stale.length = dciNrPayload) :=
        (unpacks (writeFields (format00Packed q cfg d) ++ stale)).mp fun init => by
          rw [← restored init stale fill, length]
      obtain ⟨offset, -⟩ := found
        (replicate (dciNrPayload - (writeFields (format00Packed q cfg d)).length) false) (by simp; omega)
      obtain ⟨within, indicator⟩ := size_of_unpack_iff short fun stale fill => (found stale fill).2
      have enough : cfg.enableSul = true → freqBits cfg d.ctx.ssType + 28 < dciNrSize q d.ctx.ssType .f00 := by
        intro enabled
        obtain ⟨inside, -⟩ := List.getElem?_eq_some_iff.mp (indicator enabled)
        rwa [length] at inside
      rw [length] at within short
      have noTrunc : d.ctx.ssType.isCommon = true → size00 cfg d.ctx.ssType ≤ size10 cfg d.ctx.ssType := by
        intro common
        rw [common, if_pos rfl] at size
        cases enabled : cfg.enableSul with
        | true =>
          have one := sulOne enabled
          have more := enough enabled
          omega
        | false =>
          have none_ := sulNone enabled
          omega
      have isMax : dciNrSize q d.ctx.ssType .f00 = max (size00 cfg d.ctx.ssType) (size10 cfg d.ctx.ssType) := by
        rw [size]
        split
        · next common => exact (Nat.max_eq_right (noTrunc common)).symm
        · rfl
      refine ⟨room, noTrunc, isMax ▸ short, offset, fun enabled => ?_⟩
      have one := sulOne enabled
      have more := enough enabled
      have bit := indicator enabled
      rw [format00Packed_eq sized room freq offset noTrunc, ← cons_append, List.getElem?_append_right,
        length_cons, format00Layout_length, List.getElem?_replicate, if_pos (by omega)] at bit
      · have below := sul enabled
        have even := testBit_zero d.sul
        rw [← Option.some.inj bit] at even
        have parity := of_decide_eq_false even.symm
        omega
      · rw [length_cons, format00Layout_length]
        omega
    · rintro ⟨-, noTrunc, short, offset, tail⟩ nofBits
      have isMax : dciNrSize q d.ctx.ssType .f00 = max (size00 cfg d.ctx.ssType) (size10 cfg d.ctx.ssType) := by
        rw [size]
        split
        · next common => exact (Nat.max_eq_right (noTrunc common)).symm
        · rfl
      refine ⟨_, packFields_eq_some.mpr ⟨by rw [length, isMax]; exact short, length.symm, rfl⟩, length,
        fun init stale _ => ?_⟩
      rw [length]
      refine (unpacks _).mpr ⟨offset,
        replicate (size10 cfg d.ctx.ssType - size00 cfg d.ctx.ssType + sulBits cfg) false ++ stale, ?_, fun enabled => ?_⟩ init
      · rw [format00Packed_eq sized room freq offset noTrunc, cons_append, append_assoc]
      · obtain ⟨zero, padd⟩ := tail enabled
        obtain ⟨more, eq⟩ := Nat.exists_eq_add_of_le padd
        have split : replicate (size10 cfg d.ctx.ssType - size00 cfg d.ctx.ssType + sulBits cfg) false =
            replicate 8 false ++ (replicate 1 false ++ replicate more false) := by
          rw [replicate_append_replicate, replicate_append_replicate, sulOne enabled]
          congr 1
          omega
        refine ⟨replicate 8 false, replicate more false ++ stale, length_replicate, ?_⟩
        rw [split, zero, bitsOf_zero, append_assoc, append_assoc]
  · refine iff_of_false (fun back => ?_) fun kept => room kept.1
    obtain ⟨bits, packed, -⟩ := back 0
    rw [if_pos (Nat.not_lt.mp (mt (packHopBits_eq sized).mp room))] at packed
    contradiction

theorem decodesAll00 (q : DciNr) : UlDecodesAll q .f00 := by
  intro msg init init' d _ format read
  unfold dciNrUlUnpack dciNrFormat00Unpack at read ⊢
  rw [format] at read ⊢
  dsimp only at read ⊢
  split at read
  · cases read
  · next rnti =>
      split at read
      · cases read
      · next size =>
          rw [map_fst_eq_some] at read
          obtain ⟨rest, read⟩ := read
          rw [Exact.takeBit.bind_iff] at read
          obtain ⟨isDl, bits, -, payload, read⟩ := read
          cases isDl with
          | true => cases read
          | false =>
            obtain ⟨values, rfl, again⟩ := readFields_again read
            rw [if_neg rnti, if_neg size, payload, map_fst_eq_some]
            refine ⟨rest, ?_⟩
            change (do
              let isDl ← takeBit
              if isDl then failure
              else readFields (format00Fields q msg.ctx.ssType) { init' with ctx := msg.ctx } : BitReader DciUlNr)
                (false :: bits) = _
            rw [takeBit_false, again]
            exact congrArg (fun d => some (d, rest)) (format00_carried q msg.ctx values format init init')

end Format00

end IsrRan.Phy
