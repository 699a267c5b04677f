import IsrRan.Phy.DciNrFormat00

namespace IsrRan.Phy
open Lib List Nat

section
variable {cfg : DciCfgNr} {q : DciNr} {d : DciUlNr}

def format01Fields (q : DciNr) : List (BitField DciUlNr) := format01FieldsFirst q ++ format01FieldsRest q

theorem format01Packed_length (sized : q.Sized cfg) :
    (writeFields ((1, 0) :: format01Packed q d)).length = format01Bits cfg := by
  rw [writeFields_length]
  unfold format01Packed format01PackedFirst format01PackedRest format01Bits bitsIf
  rw [sized.cfgEq]
  simp only [tail_cons, cons_append, nil_append, map_cons, sum_cons]
  have dmrs : (if (!cfg.enableTransformPrecoding) = true then 1 else 0) =
      if cfg.enableTransformPrecoding = true then 0 else 1 := by
    cases cfg.enableTransformPrecoding <;> rfl
  rw [dmrs]
  ac_rfl

theorem format01Fields_sum (sized : q.Sized cfg) :
    (widths (format01Fields q)).sum + cfg.carrierIndicatorSize + dciNrUlPortsSize cfg + 1 =
      format01Bits cfg + min cfg.carrierIndicatorSize 3 + 3 := by
  have packed := @format01Packed_length cfg q { ctx := ⟨.ue, .c, .f01, 0⟩ } sized
  rw [writeFields_length] at packed
  rw [← packed]
  unfold format01Fields format01FieldsFirst format01FieldsRest format01Packed format01PackedFirst format01PackedRest
    widths
  rw [sized.cfgEq]
  simp only [tail_cons, cons_append, nil_append, map_cons, sum_cons]
  ac_rfl

theorem format01Unpack_eq (goesOn : format01StopsEarly q.cfg = false) (msg : DciMsgNr) (init : DciUlNr) :
    dciNrFormat01Unpack q msg init =
      if !msg.ctx.rntiType.isFor01 then none
      else (do
        let (isDl, bits) ← takeBit msg.payload
        if isDl then none
        else
          let (dci, rest) ← readFields (format01Fields q) init bits
          if msg.nofBits ≠ msg.payload.length - rest.length then none else some dci) := by
  unfold dciNrFormat01Unpack format01Fields
  by_cases rnti : (!msg.ctx.rntiType.isFor01) = true
  · rw [if_pos rnti, if_pos rnti]
  · rw [if_neg rnti, if_neg rnti]
    refine congrArg (Option.bind (takeBit msg.payload)) (funext fun ⟨isDl, bits⟩ => ?_)
    dsimp only
    cases isDl with
    | true => rw [if_pos rfl, if_pos rfl]
    | false =>
      rw [readFields_append]
      refine Eq.trans ?_ (Option.bind_assoc (readFields (format01FieldsFirst q) init bits) _ _).symm
      refine congrArg (Option.bind (readFields (format01FieldsFirst q) init bits)) (funext fun ⟨dci, rest⟩ => ?_)
      rw [goesOn]
      rfl

theorem format01Unpack_early {msg : DciMsgNr} {init d : DciUlNr} (early : format01StopsEarly q.cfg = true)
    (read : dciNrFormat01Unpack q msg init = some d) : d.ctx = init.ctx ∧ d.ulsch = init.ulsch := by
  unfold dciNrFormat01Unpack at read
  split at read
  · cases read
  · obtain ⟨⟨isDl, bits⟩, -, read⟩ := Option.bind_eq_some_iff.mp read
    cases isDl with
    | true => cases read
    | false =>
      obtain ⟨⟨d', rest⟩, fieldsRead, read⟩ := Option.bind_eq_some_iff.mp read
      cases read
      obtain ⟨values, -, set⟩ := readFields_eq_some fieldsRead
      have ctx := congrArg DciUlNr.ctx set
      have ulsch := congrArg DciUlNr.ulsch set
      exact ⟨ctx, ulsch⟩

theorem format01Unpack_size {msg : DciMsgNr} {init d : DciUlNr} (goesOn : format01StopsEarly q.cfg = false)
    (read : dciNrFormat01Unpack q msg init = some d) : msg.nofBits = (widths (format01Fields q)).sum + 1 := by
  rw [format01Unpack_eq goesOn] at read
  split at read
  · cases read
  · obtain ⟨⟨isDl, bits⟩, front, read⟩ := Option.bind_eq_some_iff.mp read
    cases isDl with
    | true => cases read
    | false =>
      obtain ⟨⟨d', rest⟩, fieldsRead, read⟩ := Option.bind_eq_some_iff.mp read
      have length := readFields_length fieldsRead
      obtain ⟨-, payload⟩ := (Exact.takeBit _ _ _).mp front
      dsimp only at read
      split at read
      · cases read
      · next size =>
          rw [not_not.mp size, payload, length_append, length_singleton]
          omega

theorem format01Unpack_written (format : d.ctx.format = .f01) (rnti : d.ctx.rntiType.isFor01 = true)
    (goesOn : format01StopsEarly q.cfg = false) (same : widths (format01Fields q) = (format01Packed q d).map Prod.fst)
    (fit : FieldsFit (format01Packed q d)) (stale : List Bool) (init : DciUlNr) :
    dciNrFormat01Unpack q ⟨d.ctx, writeFields ((1, 0) :: format01Packed q d) ++ stale,
      (writeFields ((1, 0) :: format01Packed q d)).length⟩ { init with ctx := d.ctx } =
        some (d.carried q.cfg init) := by
  have reads := readFields_reads same { init with ctx := d.ctx } stale
  rw [map_mod_eq fit] at reads
  have front : takeBit (writeFields ((1, 0) :: format01Packed q d) ++ stale) =
      some (false, writeFields (format01Packed q d) ++ stale) := rfl
  rw [format01Unpack_eq goesOn]
  rw [rnti]
  change (readFields (format01Fields q) { init with ctx := d.ctx }
    (writeFields (format01Packed q d) ++ stale)).bind _ = _
  rw [reads]
  change (if _ ≠ (writeFields ((1, 0) :: format01Packed q d) ++ stale).length - stale.length then none else _) = _
  rw [if_neg]
  · exact congrArg some (format01_written format init)
  · rw [length_append, Nat.add_sub_cancel]
    exact fun differ => differ rfl

theorem ulUnpack_f01 {msg : DciMsgNr} (format : msg.ctx.format = .f01) (init : DciUlNr) :
    dciNrUlUnpack q msg init = dciNrFormat01Unpack q msg { init with ctx := msg.ctx } := by
  unfold dciNrUlUnpack
  rw [format]

theorem roundTrips_iff_of_f01 (sized : q.Sized cfg) (format : d.ctx.format = .f01) (monitored : d.ctx.Monitored cfg)
    (fits : d.Fits q) : d.RoundTrips q ↔ d.Kept cfg := by
  unfold DciCtxNr.Monitored at monitored
  rw [format] at monitored
  obtain ⟨rnti, ue, -⟩ := monitored
  have fit : FieldsFit (format01Packed q d) := by
    unfold DciUlNr.Fits at fits
    rw [format] at fits
    exact (List.forall_mem_cons.mp fits).2
  have size : dciNrSize q d.ctx.ssType .f01 = q.dci01Size := by rw [ue]; rfl
  have length := @format01Packed_length cfg q d sized
  have sum := format01Fields_sum sized
  have pack (nofBits : Nat) : dciNrUlPack q d nofBits = if cfg.puschTxConfigNonCodebook then
      if (writeFields (format01PackedFirst q d)).length ≤ dciNrPayload
        then some (writeFields (format01PackedFirst q d), nofBits) else none
      else packFields (dciNrSize q d.ctx.ssType .f01) ((1, 0) :: format01Packed q d) := by
    have packed : format01PackedFirst q d ++ (dciNrUlPortsSize q.cfg, d.ports) :: format01PackedRest q d =
        (1, 0) :: format01Packed q d := rfl
    unfold dciNrUlPack dciNrFormat01Pack
    rw [format]
    rw [rnti, if_neg (by simp), packed, sized.cfgEq]
  have sizeEq : dciNrFormat01Sizeof cfg = format01Bits cfg % 2 ^ 32 := by
    have positive := sized.positive01
    unfold dciNrFormat01Sizeof at positive ⊢
    split at positive
    · exact absurd rfl positive
    · next codebook => rw [if_neg codebook]
  unfold DciUlNr.RoundTrips DciUlNr.Kept
  rw [format]
  cases early : format01StopsEarly cfg with
  | true =>
    refine iff_of_false (fun back => ?_) fun kept => Bool.false_ne_true kept.2.2.1.symm
    obtain ⟨bits, packed, fill, restored⟩ := back (dciNrSize q d.ctx.ssType .f01 + 1)
    rw [pack] at packed
    split at packed
    · split at packed
      · have same := congrArg Prod.snd (Option.some.inj packed)
        exact absurd same (Nat.succ_ne_self _)
      · cases packed
    · obtain ⟨short, -, same⟩ := packFields_eq_some.mp packed
      cases same
      have read := restored { d with ulsch := d.ulsch + 1 }
        (replicate (dciNrPayload - (writeFields ((1, 0) :: format01Packed q d)).length) false)
        (by rw [length_replicate]; omega)
      rw [ulUnpack_f01 (by exact format)] at read
      have kept := (format01Unpack_early (by rw [sized.cfgEq]; exact early) read).2
      unfold DciUlNr.carried at kept
      rw [format] at kept
      exact absurd kept.symm (Nat.succ_ne_self _)
  | false =>
    have goesOn : format01StopsEarly q.cfg = false := by rwa [sized.cfgEq]
    have codebook : cfg.puschTxConfigNonCodebook = false := by
      exact (Bool.or_eq_false_iff.mp early).1
    have ports := ulPortsSize_of_goesOn early
    constructor
    · intro back
      obtain ⟨bits, packed, fill, restored⟩ := back 0
      rw [pack, codebook] at packed
      obtain ⟨short, same, eq⟩ := packFields_eq_some.mp packed
      cases eq
      have read := restored d
        (replicate (dciNrPayload - (writeFields ((1, 0) :: format01Packed q d)).length) false)
        (by rw [length_replicate]; omega)
      rw [ulUnpack_f01 (by exact format)] at read
      have consumed := format01Unpack_size goesOn read
      dsimp only at consumed
      rw [length] at consumed short same
      rw [size, sized.size01, sizeEq] at same
      unfold dciNrPayload at short
      refine ⟨short, fun collides => ?_, rfl, ?_, ?_⟩
      · rw [mod_eq_of_lt (by omega), if_pos collides] at same
        omega
      · by_contra other
        rw [if_neg other] at ports
        omega
      · split at ports <;> omega
    · rintro ⟨short, differ, -, type1, carrier⟩ nofBits
      rw [if_pos type1] at ports
      have same : widths (format01Fields q) = (format01Packed q d).map Prod.fst := by
        unfold widths format01Fields format01FieldsFirst format01FieldsRest format01Packed format01PackedFirst
          format01PackedRest
        rw [sized.cfgEq, ports]
        simp only [tail_cons, cons_append, nil_append, map_cons, map_nil,
          Nat.min_eq_left carrier]
      have isSize : dciNrSize q d.ctx.ssType .f01 = (writeFields ((1, 0) :: format01Packed q d)).length := by
        unfold dciNrPayload at short
        rw [size, sized.size01, sizeEq, length, mod_eq_of_lt (by omega), if_neg differ]
        rfl
      refine ⟨_, ?_, isSize.symm, fun init stale _ => ?_⟩
      · rw [pack, codebook]
        exact packFields_eq_some.mpr ⟨by rw [length]; exact short, isSize, rfl⟩
      · rw [ulUnpack_f01 (by exact format)]
        exact format01Unpack_written format rnti goesOn same fit stale init

theorem decodesAll01_of_goesOn (goesOn : format01StopsEarly q.cfg = false) : UlDecodesAll q .f01 := by
  intro msg init init' d _ format read
  rw [ulUnpack_f01 format, format01Unpack_eq goesOn] at read ⊢
  split at read
  · cases read
  · next rnti =>
      obtain ⟨⟨isDl, bits⟩, front, read⟩ := Option.bind_eq_some_iff.mp read
      cases isDl with
      | true => cases read
      | false =>
        obtain ⟨⟨d', rest⟩, fieldsRead, read⟩ := Option.bind_eq_some_iff.mp read
        obtain ⟨values, set, again⟩ := readFields_again fieldsRead
        dsimp only at read
        split at read
        · cases read
        · next size =>
            cases read
            rw [if_neg rnti, front, set]
            change (readFields (format01Fields q) _ bits).bind _ = _
            rw [again]
            refine (if_neg size).trans ?_
            exact congrArg some (format01_carried q msg.ctx values format goesOn init init')

theorem decodesAll01_iff : UlDecodesAll q .f01 ↔
    (format01StopsEarly q.cfg = true → dciNrPayload ≤ (widths (format01FieldsFirst q)).sum) := by
  cases early : format01StopsEarly q.cfg with
  | false => exact iff_of_true (decodesAll01_of_goesOn early) fun absurd => nomatch absurd
  | true =>
    constructor
    · intro decodes _
      by_contra short
      let ctx : DciCtxNr := ⟨.ue, .c, .f01, 0⟩
      let msg : DciMsgNr := ⟨ctx, replicate dciNrPayload false, 0⟩
      have reads (init : DciUlNr) : ∃ d, dciNrUlUnpack q msg init = some d := by
        obtain ⟨d, rest, read⟩ := @readFields_of_le _ (format01FieldsFirst q) (replicate 49 false)
          (by rw [length_replicate]; unfold dciNrPayload at short; omega) { init with ctx }
        refine ⟨d, ?_⟩
        rw [ulUnpack_f01 rfl]
        unfold dciNrFormat01Unpack
        rw [early]
        change (readFields (format01FieldsFirst q) { init with ctx } (replicate 49 false)).bind _ = _
        rw [read]
        rfl
      obtain ⟨d, read⟩ := reads { ctx, ulsch := 0 }
      have again := decodes msg { ctx, ulsch := 0 } { ctx, ulsch := 1 } d length_replicate rfl read
      have first_ := format01Unpack_early early read
      have second_ := (format01Unpack_early early again).2
      have format : d.ctx.format = .f01 := congrArg DciCtxNr.format first_.1
      unfold DciUlNr.carried at second_
      rw [format] at second_
      exact absurd (first_.2.symm.trans second_) (by decide)
    · intro short msg init init' d length format read
      rw [ulUnpack_f01 format] at read
      unfold dciNrFormat01Unpack at read
      split at read
      · cases read
      · obtain ⟨⟨isDl, bits⟩, front, read⟩ := Option.bind_eq_some_iff.mp read
        cases isDl with
        | true => cases read
        | false =>
          obtain ⟨⟨d', rest_⟩, fieldsRead, -⟩ := Option.bind_eq_some_iff.mp read
          have consumed := readFields_length fieldsRead
          obtain ⟨-, payload⟩ := (Exact.takeBit _ _ _).mp front
          have long := short rfl
          rw [payload, length_append, length_singleton] at length
          omega

end

section
variable {q : DciNr} {d : DciDlNr} {flag : Bool} {fields : List (BitField DciDlNr)} {written : List (Nat × Nat)}
  {size : Nat}

theorem unpackDl_reads (same : widths fields = written.map Prod.fst) (ctx : DciCtxNr) (rest : List Bool)
    (init : DciDlNr) :
    unpackDl flag fields
        ⟨ctx, writeFields ((bitsIf flag 1, 1) :: written) ++ rest, (writeFields ((bitsIf flag 1, 1) :: written)).length⟩
        init = some (setFields fields (written.map fun f => f.2 % 2 ^ f.1) init) := by
  have reads := readFields_reads same init rest
  have front : (if flag then takeBit else pure true : BitReader Bool)
      (writeFields ((bitsIf flag 1, 1) :: written) ++ rest) = some (true, writeFields written ++ rest) := by
    cases flag <;> rfl
  unfold unpackDl
  rw [front]
  change (readFields fields init (writeFields written ++ rest)).bind _ = _
  rw [reads]
  change (if _ ≠ (writeFields ((bitsIf flag 1, 1) :: written) ++ rest).length - rest.length then none else _) = _
  rw [if_neg]
  rw [length_append, Nat.add_sub_cancel]
  exact fun differ => differ rfl

theorem roundTrips_iff_of_reads (isSize : size = dciNrSize q d.ctx.ssType d.ctx.format)
    (packs : dciNrDlPack q d = packFields size ((bitsIf flag 1, 1) :: written))
    (unpacks : ∀ bits init, dciNrDlUnpack q ⟨d.ctx, bits, size⟩ init = unpackDl flag fields ⟨d.ctx, bits, size⟩
      { init with
        ctx := d.ctx
        coreset0Bw := q.cfg.coreset0Bw })
    (same : widths fields = written.map Prod.fst)
    (carries : ∀ init : DciDlNr, setFields fields (written.map fun f => f.2 % 2 ^ f.1)
      { init with
        ctx := d.ctx
        coreset0Bw := q.cfg.coreset0Bw } = d.carried q.cfg init) :
    d.RoundTrips q ↔ (writeFields ((bitsIf flag 1, 1) :: written)).length ≤ dciNrPayload ∧
      size = (writeFields ((bitsIf flag 1, 1) :: written)).length := by
  unfold DciDlNr.RoundTrips
  rw [← isSize]
  constructor
  · rintro ⟨bits, packed, -⟩
    rw [packs, packFields_eq_some] at packed
    exact ⟨packed.1, packed.2.1⟩
  · rintro ⟨room, fits⟩
    refine ⟨_, packs.trans (packFields_eq_some.mpr ⟨room, fits, rfl⟩), fits.symm, fun init stale _ => ?_⟩
    rw [← fits, unpacks, fits, unpackDl_reads same, carries]

theorem unpackDl_again {msg : DciMsgNr} {init : DciDlNr} (read : unpackDl flag fields msg init = some d) :
    ∃ values, d = setFields fields (readValues fields values) init ∧
      ∀ init', unpackDl flag fields msg init' = some (setFields fields (readValues fields values) init') := by
  unfold unpackDl at read ⊢
  obtain ⟨⟨isDl, bits⟩, front, read⟩ := Option.bind_eq_some_iff.mp read
  cases isDl with
  | false => cases read
  | true =>
    obtain ⟨⟨d', rest⟩, fieldsRead, read⟩ := Option.bind_eq_some_iff.mp read
    obtain ⟨values, set, again⟩ := readFields_again fieldsRead
    dsimp only at read
    split at read
    · cases read
    · next size =>
        cases read
        refine ⟨values, set, fun init' => ?_⟩
        rw [front]
        change (readFields fields init' bits).bind _ = _
        rw [again]
        exact if_neg size

end

section Format10
variable {cfg : DciCfgNr} {q : DciNr} {d : DciDlNr}

theorem format10Packed_length (sized : q.Sized cfg) :
    (writeFields ((bitsIf d.ctx.rntiType.isUser 1, 1) :: format10Packed q d)).length =
      if d.ctx.rntiType.isFor10 then size10 cfg d.ctx.ssType else size10 cfg d.ctx.ssType - 18 := by
  have s10 := @size10_eq cfg d.ctx.ssType
  unfold format10Packed
  rw [sized.cfgEq]
  cases d.ctx.rntiType <;> simp [bitsIf, RntiType.isUser, RntiType.isFor10, reservedBits] <;> omega

theorem dciNrSize_f10 (sized : q.Sized cfg) {ssType : SearchSpaceType} (known : ssType.isCommon = true ∨ ssType = .ue) :
    dciNrSize q ssType .f10 =
      if ssType.isCommon then size10 cfg ssType else max (size00 cfg ssType) (size10 cfg ssType) := by
  unfold dciNrSize
  rcases known with common | rfl
  · rw [if_pos common, if_pos common, sized.commonSize _ common]
  · exact sized.ueSize

theorem roundTrips_iff_of_f10 (sized : q.Sized cfg) (format : d.ctx.format = .f10) (monitored : d.ctx.Monitored cfg)
    (fits : d.Fits q) : d.RoundTrips q ↔ d.Kept cfg := by
  have known : d.ctx.ssType.isCommon = true ∨ d.ctx.ssType = .ue := by
    unfold DciCtxNr.Monitored at monitored
    rw [format] at monitored
    exact monitored.2.imp_right And.left
  have fit : FieldsFit (format10Packed q d) := by
    unfold DciDlNr.Fits at fits
    rwa [format] at fits
  have size := dciNrSize_f10 sized known
  have length := @format10Packed_length cfg q d sized
  have s10 := @size10_eq cfg d.ctx.ssType
  rw [@roundTrips_iff_of_reads q d d.ctx.rntiType.isUser (format10Fields q d.ctx) (format10Packed q d)
    (dciNrSize q d.ctx.ssType .f10) (by rw [format]) ?_ ?_ rfl ?_]
  · unfold DciDlNr.Kept
    rw [format, length, size]
    dsimp only
    cases d.ctx.rntiType.isFor10 <;> cases d.ctx.ssType.isCommon <;> simp <;> omega
  · unfold dciNrDlPack
    rw [format]
    rfl
  · intro bits init
    unfold dciNrDlUnpack dciNrFormat10Unpack
    rw [format]
    exact if_neg fun differ => differ rfl
  · intro init
    rw [map_mod_eq fit]
    exact format10_written format init

theorem decodesAll10 (q : DciNr) : DlDecodesAll q .f10 := by
  intro msg init init' d _ format read
  unfold dciNrDlUnpack dciNrFormat10Unpack at read ⊢
  rw [format] at read ⊢
  dsimp only at read ⊢
  split at read
  · cases read
  · next size =>
      obtain ⟨values, rfl, again⟩ := unpackDl_again read
      rw [if_neg size, again, format10_carried q msg.ctx values format init init']

end Format10

section Format11
variable {cfg : DciCfgNr} {q : DciNr} {d : DciDlNr}

theorem format11Packed_length (sized : q.Sized cfg) :
    (writeFields ((bitsIf true 1, 1) :: format11Packed q d)).length = format11Bits cfg := by
  rw [writeFields_length]
  unfold format11Packed format11Bits bitsIf
  rw [sized.cfgEq]
  simp only [map_cons, map_nil, sum_cons, sum_nil]
  cases cfg.pdsch2cw <;> simp only [if_true, Bool.false_eq_true, if_false] <;> omega

theorem roundTrips_iff_of_f11 (sized : q.Sized cfg) (format : d.ctx.format = .f11) (monitored : d.ctx.Monitored cfg)
    (fits : d.Fits q) : d.RoundTrips q ↔ d.Kept cfg := by
  unfold DciCtxNr.Monitored at monitored
  rw [format] at monitored
  obtain ⟨rnti, ue, -⟩ := monitored
  have fit : FieldsFit (format11Packed q d) := by
    unfold DciDlNr.Fits at fits
    rwa [format] at fits
  have size : dciNrSize q d.ctx.ssType .f11 = q.dci11Size := by rw [ue]; rfl
  have length := @format11Packed_length cfg q d sized
  rw [@roundTrips_iff_of_reads q d true (format11Fields q) (format11Packed q d)
    (dciNrSize q d.ctx.ssType .f11) (by rw [format]) ?_ ?_ rfl ?_]
  · unfold DciDlNr.Kept
    rw [format, length, size, sized.size11]
    unfold dciNrFormat11Sizeof dciNrPayload
    constructor
    · rintro ⟨short, same⟩
      refine ⟨short, fun collides => ?_⟩
      rw [mod_eq_of_lt (by omega), if_pos collides] at same
      omega
    · rintro ⟨short, differ⟩
      rw [mod_eq_of_lt (by omega), if_neg differ]
      exact ⟨short, rfl⟩
  · unfold dciNrDlPack dciNrFormat11Pack
    rw [format]
    rw [rnti]
    rfl
  · intro bits init
    unfold dciNrDlUnpack dciNrFormat11Unpack
    dsimp only
    rw [format]
    rw [rnti, if_neg (by simp)]
    exact if_neg fun differ => differ rfl
  · intro init
    rw [map_mod_eq fit]
    exact format11_written format init

theorem decodesAll11 (q : DciNr) : DlDecodesAll q .f11 := by
  intro msg init init' d _ format read
  unfold dciNrDlUnpack dciNrFormat11Unpack at read ⊢
  rw [format] at read ⊢
  dsimp only at read ⊢
  split at read
  · cases read
  · next rnti =>
      split at read
      · cases read
      · next size =>
          obtain ⟨values, rfl, again⟩ := unpackDl_again read
          rw [if_neg rnti, if_neg size, again, format11_carried q msg.ctx values format init init']

end Format11

section
variable {cfg : DciCfgNr} {q : DciNr}

theorem DciUlNr.roundTrips_iff {d : DciUlNr} (sized : q.Sized cfg) (monitored : d.ctx.Monitored cfg) (fits : d.Fits q) :
    d.RoundTrips q ↔ d.Kept cfg := by
  cases format : d.ctx.format with
  | f00 => exact roundTrips_iff_of_f00 sized format monitored fits
  | f01 => exact roundTrips_iff_of_f01 sized format monitored fits
  | f10 | f11 =>
    unfold DciUlNr.Fits at fits
    rw [format] at fits
    exact fits.elim

theorem DciDlNr.roundTrips_iff {d : DciDlNr} (sized : q.Sized cfg) (monitored : d.ctx.Monitored cfg) (fits : d.Fits q) :
    d.RoundTrips q ↔ d.Kept cfg := by
  cases format : d.ctx.format with
  | f10 => exact roundTrips_iff_of_f10 sized format monitored fits
  | f11 => exact roundTrips_iff_of_f11 sized format monitored fits
  | f00 | f01 =>
    unfold DciDlNr.Fits at fits
    rw [format] at fits
    exact fits.elim

theorem ulDecodesAll_iff (format : DciFormatNr) : UlDecodesAll q format ↔
    (format = .f01 → format01StopsEarly q.cfg = true → dciNrPayload ≤ (widths (format01FieldsFirst q)).sum) := by
  cases format with
  | f00 => exact iff_of_true (decodesAll00 q) fun other => nomatch other
  | f01 => exact decodesAll01_iff.trans ⟨fun short _ => short, fun short => short rfl⟩
  | f10 | f11 =>
    refine iff_of_true (fun msg init init' d _ format read => ?_) fun other => nomatch other
    unfold dciNrUlUnpack at read
    rw [format] at read
    cases read

theorem dlDecodesAll (format : DciFormatNr) : DlDecodesAll q format := by
  cases format with
  | f10 => exact decodesAll10 q
  | f11 => exact decodesAll11 q
  | f00 | f01 =>
    intro msg init init' d _ format read
    unfold dciNrDlUnpack at read
    rw [format] at read
    cases read

theorem dciNrSize_ue_ne (sized : q.Sized cfg) :
    ∀ format ∈ [DciFormatNr.f01, .f11], ∀ fallback ∈ [DciFormatNr.f00, .f10],
      dciNrSize q .ue format ≠ dciNrSize q .ue fallback := by
  have padded (size : Nat) : (size + if size = sizeUe cfg then 1 else 0) ≠ sizeUe cfg := by
    split
    · next same =>
        rw [same]
        exact Nat.succ_ne_self _
    · next differ => exact differ
  have differ01 : q.dci01Size ≠ q.dci00And10UeSize := by
    rw [sized.size01, sized.ueSize]
    exact padded _
  have differ11 : q.dci11Size ≠ q.dci00And10UeSize := by
    rw [sized.size11, sized.ueSize]
    exact padded _
  intro format one fallback other
  rcases List.mem_pair.mp one with rfl | rfl <;> rcases List.mem_pair.mp other with rfl | rfl <;> assumption

end

theorem dciNr_roundTrips_iff_kept (cfg : DciCfgNr) (q : DciNr) (accepted : dciNrSetCfg cfg = some q) :
    (∀ d : DciUlNr, d.ctx.Monitored cfg → d.Fits q → (d.RoundTrips q ↔ d.Kept cfg)) ∧
      (∀ d : DciDlNr, d.ctx.Monitored cfg → d.Fits q → (d.RoundTrips q ↔ d.Kept cfg)) ∧
      (∀ format, UlDecodesAll q format ↔
        (format = .f01 → format01StopsEarly q.cfg = true → dciNrPayload ≤ (widths (format01FieldsFirst q)).sum)) ∧
      (∀ format, DlDecodesAll q format) ∧
      ∀ format ∈ [DciFormatNr.f01, .f11], ∀ fallback ∈ [DciFormatNr.f00, .f10],
        dciNrSize q .ue format ≠ dciNrSize q .ue fallback := by
  have sized := sized_of_setCfg accepted
  exact ⟨fun _ => DciUlNr.roundTrips_iff sized, fun _ => DciDlNr.roundTrips_iff sized, ulDecodesAll_iff, dlDecodesAll,
    dciNrSize_ue_ne sized⟩

section Grants

def carrierCfg : DciCfgNr := {
  bwpDlInitialBw := 52
  bwpDlActiveBw := 52
  bwpUlInitialBw := 52
  bwpUlActiveBw := 52 }

def carrierDci : DciNr := {
  cfg := carrierCfg
  dci00And10CommonSize := 39
  dci00CommonTrunc := 0
  dci00CommonPadd := 8
  dci00And10UeSize := 39
  dci00UePadd := 8
  dci10UePadd := 0
  dci01Size := 40
  dci01Padd := 1
  dci11Size := 42
  dci11Padd := 0 }

theorem carrierCfg_accepted : dciNrSetCfg carrierCfg = some carrierDci := by decide +kernel

def carrierDlGrant : DciDlNr := {
  ctx := ⟨.ue, .c, .f11, 0x4601⟩
  freqDomainAssigment := 0x33
  mcs := 27
  ndi := 1
  pid := 5
  dai := 3
  pucchResource := 7 }

theorem dciNr_roundTrips_iff_kept_carrier : carrierDlGrant.RoundTrips carrierDci :=
  ((dciNr_roundTrips_iff_kept carrierCfg carrierDci carrierCfg_accepted).2.1 carrierDlGrant ⟨rfl, rfl, rfl⟩
    (by decide +kernel : FieldsFit (format11Packed carrierDci carrierDlGrant))).mpr
      ⟨by decide +kernel, by decide +kernel⟩

def carrierUlGrant : DciUlNr := {
  ctx := ⟨.ue, .c, .f01, 0x4601⟩
  freqDomainAssigment := 0x33
  mcs := 10 }

theorem carrierUlGrant_lost : ¬ ∀ (cfg : DciCfgNr) (q : DciNr), dciNrSetCfg cfg = some q →
    ∀ d : DciUlNr, d.ctx.Monitored cfg → d.Fits q → d.RoundTrips q := by
  intro always
  obtain ⟨bits, packed, -⟩ := always carrierCfg carrierDci carrierCfg_accepted carrierUlGrant ⟨rfl, rfl, rfl⟩
    (by decide +kernel : FieldsFit (format01PackedFirst carrierDci carrierUlGrant ++
      (dciNrUlPortsSize carrierCfg, carrierUlGrant.ports) :: format01PackedRest carrierDci carrierUlGrant)) 0
  have rejected : dciNrUlPack carrierDci carrierUlGrant 0 = none := by decide +kernel
  rw [rejected] at packed
  cases packed

end Grants

end IsrRan.Phy
