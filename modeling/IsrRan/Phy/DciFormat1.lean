import IsrRan.Phy.DciPack

namespace IsrRan.Phy
open Lib List Option DciDl

section
variable {cell : Cell} {cfg : DciCfg} {d : DciDl}

theorem raAllocCells_length {alloc : RaAlloc} (valid : cell.IsValid) (fits : alloc.Fits01 cell) :
    ((raAllocCells cell alloc).getD []).length = allocBits cell := by
  have enough : ∀ n < 111, 10 < n → ceilLog2 (raType0P n) + 1 ≤ allocSize n := by decide +kernel
  cases alloc with
  | type0 rbgBitmask =>
    unfold allocBits
    by_cases many : cell.nofPrb > 10
    · simp [raAllocCells, many]
    · simp [raAllocCells, many]
  | type1 rbgSubset shift vrbBitmask =>
    have room := enough cell.nofPrb (Nat.lt_succ_of_le valid.most) fits.1
    unfold allocBits
    simp only [raAllocCells, getD_some, if_pos fits.1, length_append, length_singleton, bitsOf_length,
      vrbBitmaskBits, rbgSubsetBits]
    omega
  | type2 _ => exact fits.elim

theorem carriedDai_lt (fits : d.Fits cell cfg) : (if cell.isTdd then d.dai else 0) < 2 ^ daiBits cell := by
  have dai := fits.dai
  unfold daiBits
  cases cell.isTdd
  · exact Nat.one_pos
  · exact dai

theorem DciTb.Fits.rvToNat {tb : DciTb} (fits : tb.Fits) : tb.rv.toNat < 4 ∧ (tb.rv.toNat : Int) = tb.rv := by
  have low := fits.rvLow
  have high := fits.rvHigh
  omega

def format1Bits (cell : Cell) (cfg : DciCfg) (d : DciDl) : List Bool :=
  bitsOf (cifBits cfg) (if cfg.cifEnabled then d.cif else 0) ++ (raAllocCells cell d.alloc).getD [] ++
    bitsOf 5 d.tb0.mcsIdx ++ bitsOf cell.harqPidLen d.pid ++ [d.tb0.ndi] ++ rvBits d.tb0.rv ++ bitsOf 2 d.tpcPucch

theorem dciFormat1Pack_eq (fits : d.Fits cell cfg) (alloc : d.alloc.Fits01 cell) : dciFormat1Pack cell cfg d =
    some (padTo false (dciFormatSizeof cell cfg .format1) (format1Bits cell cfg d)) := by
  unfold dciFormat1Pack format1Bits
  rw [raAllocCells_of_fits alloc, cif_cells fits.cifPresent]
  rfl

theorem format1Bits_length (valid : cell.IsValid) (alloc : d.alloc.Fits01 cell) :
    (format1Bits cell cfg d).length = cifBits cfg + allocBits cell + cell.harqPidLen + 10 := by
  unfold format1Bits
  simp only [length_append, bitsOf_length, length_singleton, rvBits_length, raAllocCells_length valid alloc]
  omega

theorem dciFormat1Unpack_iff (format : d.format = .format1) (fits : d.Fits cell cfg) (alloc : d.alloc.Fits01 cell)
    {bits rest : List Bool} : dciFormat1Unpack cell cfg d.rnti bits = some (d.carried cell cfg, rest) ↔
      bits = format1Bits cell cfg d ++ bitsOf (daiBits cell) (if cell.isTdd then d.dai else 0) ++ rest := by
  unfold dciFormat1Unpack readCif format1Bits DciDl.carried base
  rw [format, rvBits_eq fits.tb0]
  simp only [(Exact.takeBits _).bind_iff, (readRaAlloc_exact _).bind_iff, Exact.takeBit.bind_iff, Exact.pure_iff]
  constructor
  · rintro ⟨cif, _, -, rfl, ra, _, -, rfl, mcs, _, -, rfl, pid, _, -, rfl, ndi, _, -, rfl, rv, _, -, rfl,
      tpc, _, -, rfl, dai, _, -, rfl, same, rfl⟩
    simp only [DciDl.mk.injEq, DciTb.mk.injEq, true_and, and_true] at same
    obtain ⟨rfl, ⟨rfl, rv_eq, rfl⟩, rfl, rfl, rfl, rfl⟩ := same
    rw [← rv_eq]
    simp
  · rintro rfl
    refine ⟨_, _, cif_lt fits.cif, by simp only [append_assoc]; rfl, _, _, alloc, rfl, _, _, fits.tb0.mcsIdx, rfl,
      _, _, fits.pid, rfl, _, _, trivial, rfl, _, _, fits.tb0.rvToNat.1, rfl, _, _, fits.tpcPucch, rfl,
      _, rest, carriedDai_lt fits, rfl, ?_, rfl⟩
    rw [fits.tb0.rvToNat.2]

theorem DciDl.roundTrips_iff_of_pack {packed : List Bool} (pack : dciMsgPackPdsch cell cfg d = some (written packed))
    (sized : packed.length = dciFormatSizeof cell cfg d.format) :
    d.RoundTrips cell cfg ↔ ∀ stale : List Bool, packed.length + stale.length = dciMaxBits →
      dciMsgUnpackPdsch cell cfg ⟨packed ++ stale, packed.length, d.rnti, d.format⟩ = some (d.carried cell cfg) := by
  constructor
  · rintro ⟨bits, packed', -, restored⟩
    have same := List.map_injective_iff.mpr (some_injective _) (Option.some.inj (pack.symm.trans packed'))
    subst same
    exact restored
  · intro restored
    exact ⟨packed, pack, sized, restored⟩

theorem DciDl.roundTrips_iff_prefix (layout : List Bool) {packed : List Bool} (valid : cell.IsValid)
    (pack : dciMsgPackPdsch cell cfg d = some (written packed))
    (length : packed.length = dciFormatSizeof cell cfg d.format) (short : layout.length ≤ packed.length)
    (reads : ∀ payload, dciMsgUnpackPdsch cell cfg ⟨payload, packed.length, d.rnti, d.format⟩ =
      some (d.carried cell cfg) ↔ ∃ rest, payload = layout ++ rest) :
    d.RoundTrips cell cfg ↔ layout <+: packed := by
  have room : packed.length ≤ dciMaxBits := by
    rw [length]
    exact Nat.le_trans (dciFormatSizeof_le valid d.format) (by decide)
  rw [← forall_stale_iff_prefix short room, roundTrips_iff_of_pack pack length]
  simp only [reads]

theorem padTo_length {n : Nat} {bits : List Bool} (short : bits.length ≤ n) : (padTo false n bits).length = n := by
  unfold padTo
  rw [length_append, length_replicate]
  omega

theorem DciDl.roundTrips_iff_format1 (valid : cell.IsValid) (format : d.format = .format1) (fits : d.Fits cell cfg) :
    d.RoundTrips cell cfg ↔ (cell.isTdd → d.dai = 0) := by
  have alloc : d.alloc.Fits01 cell := by simpa [format] using fits.alloc
  have bits := @format1Bits_length cell cfg d valid alloc
  have size := @le_dciFormat1Sizeof cell cfg
  have dai_le : daiBits cell ≤ dciFormatSizeof cell cfg .format1 - (format1Bits cell cfg d).length := by omega
  have padded : (padTo false (dciFormatSizeof cell cfg .format1) (format1Bits cell cfg d)).length =
      dciFormatSizeof cell cfg .format1 := padTo_length (by omega)
  have pack : dciMsgPackPdsch cell cfg d =
      some (written (padTo false (dciFormatSizeof cell cfg .format1) (format1Bits cell cfg d))) := by
    unfold dciMsgPackPdsch
    rw [format]
    rw [dciFormat1Pack_eq fits alloc]
    rfl
  rw [DciDl.roundTrips_iff_prefix (format1Bits cell cfg d ++ bitsOf (daiBits cell) (if cell.isTdd then d.dai else 0))
    valid pack (by rw [padded, format])]
  · unfold padTo
    rw [prefix_append_right_inj, bitsOf_prefix_zeros_iff (carriedDai_lt fits) dai_le]
    cases cell.isTdd <;> simp
  · rw [length_append, bitsOf_length]
    omega
  · intro payload
    unfold dciMsgUnpackPdsch
    rw [format]
    dsimp only
    rw [if_pos padded, map_fst_eq_some]
    simp only [dciFormat1Unpack_iff format fits alloc]

def format1CBits (cell : Cell) (d : DciDl) (a : RaType2) : List Bool :=
  (if cell.nofPrb ≥ 50 then [a.nGap.bit] else []) ++ bitsOf (format1CRivBits cell a.nGap) a.riv ++
    bitsOf 5 d.tb0.mcsIdx

theorem format1CBits_length (a : RaType2) : (format1CBits cell d a).length =
    (if cell.nofPrb ≥ 50 then 1 else 0) + format1CRivBits cell a.nGap + 5 := by
  unfold format1CBits
  split <;> simp only [length_append, length_singleton, length_nil, bitsOf_length]

theorem NGap.ofBit_bit (gap : NGap) : NGap.ofBit gap.bit = gap := by
  cases gap <;> rfl

theorem dciFormat1CsUnpack_reads {a : RaType2} (format : d.format = .format1C) (fits : d.Fits cell cfg)
    (alloc : d.alloc = .type2 a) (fitsAlloc : d.alloc.Fits1C cell) (noCif : cfg.cifEnabled = false) (rest : List Bool) :
    dciFormat1CsUnpack cell d.rnti (format1CBits cell d a ++ rest) = some (d.carried cell cfg, rest) := by
  obtain ⟨riv, nPrb1a, nGap, mode⟩ := a
  rw [alloc] at fitsAlloc
  obtain ⟨rfl, riv_lt, gap, rfl⟩ := fitsAlloc
  unfold dciFormat1CsUnpack format1CBits DciDl.carried base
  rw [format, noCif, alloc]
  simp only [(readFlag_exact _).bind_iff, (Exact.takeBits _).bind_iff, Exact.pure_iff, decide_eq_true_eq]
  refine ⟨nGap.bit, _, fun second => gap (by simpa [NGap.bit] using second), by simp only [append_assoc]; rfl,
    riv, _, ?_, ?_, _, rest, fits.tb0.mcsIdx, rfl, ?_, rfl⟩
  · rw [NGap.ofBit_bit]
    exact riv_lt
  · rw [NGap.ofBit_bit]
  · rw [NGap.ofBit_bit]
    rfl

theorem DciDl.roundTrips_iff_format1C (valid : cell.IsValid) (format : d.format = .format1C) (fits : d.Fits cell cfg) :
    d.RoundTrips cell cfg ↔ cfg.cifEnabled = false ∧ (50 ≤ cell.nofPrb → ∀ a, d.alloc = .type2 a → a.nGap = .ng1) := by
  have fitsAlloc : d.alloc.Fits1C cell := by simpa [format] using fits.alloc
  obtain ⟨a, alloc⟩ : ∃ a, d.alloc = .type2 a := by
    cases alloc : d.alloc with
    | type2 a => exact ⟨a, rfl⟩
    | _ => rw [alloc] at fitsAlloc; exact fitsAlloc.elim
  have fitsAlloc' := fitsAlloc
  rw [alloc] at fitsAlloc'
  have pack : dciMsgPackPdsch cell cfg d = some (written ((if cfg.cifEnabled then bitsOf 3 d.cif else []) ++
      format1CBits cell d a)) := by
    unfold dciMsgPackPdsch dciFormat1CsPack format1CBits
    rw [format, alloc, fits.cifPresent]
    dsimp only
    rw [if_pos fitsAlloc'.1]
    simp
  have length := @format1CBits_length cell d a
  have size : dciFormatSizeof cell cfg .format1C =
      format1CRivBits cell .ng1 + 5 + if cell.nofPrb ≥ 50 then 1 else 0 := rfl
  constructor
  · rintro ⟨bits, packed, sized, -⟩
    have same := List.map_injective_iff.mpr (some_injective _) (Option.some.inj (pack.symm.trans packed))
    rw [format, ← same, length_append, length] at sized
    cases second : a.nGap with
    | ng1 =>
      refine ⟨?_, fun _ a' alloc' => ?_⟩
      · cases cif : cfg.cifEnabled with
        | false => rfl
        | true =>
          rw [cif, if_pos rfl, bitsOf_length, second] at sized
          omega
      · rw [alloc] at alloc'
        cases alloc'
        exact second
    | ng2 =>
      have longer := format1CRivBits_lt valid (fitsAlloc'.2.2.1 second)
      rw [second] at sized
      omega
  · rintro ⟨noCif, gap⟩
    have gap' : a.nGap = .ng1 := by
      by_cases wide : 50 ≤ cell.nofPrb
      · exact gap wide a alloc
      · cases second : a.nGap with
        | ng1 => rfl
        | ng2 => exact absurd (fitsAlloc'.2.2.1 second) wide
    rw [noCif, if_neg Bool.false_ne_true, nil_append] at pack
    have sized : (format1CBits cell d a).length = dciFormatSizeof cell cfg .format1C := by
      rw [length, gap']
      omega
    refine ⟨_, pack, by rw [format, sized], fun stale _ => ?_⟩
    unfold dciMsgUnpackPdsch
    rw [format]
    dsimp only
    rw [if_pos sized, map_fst_eq_some]
    exact ⟨stale, dciFormat1CsUnpack_reads format fits alloc fitsAlloc noCif stale⟩

end

section
variable {cell : Cell} {cfg : DciCfg} {d : DciDl}

def DciFormat.IsFormat2x (format : DciFormat) : Prop := format = .format2 ∨ format = .format2A ∨ format = .format2B

def format2Head (cell : Cell) (cfg : DciCfg) (d : DciDl) : List Bool :=
  bitsOf (cifBits cfg) (if cfg.cifEnabled then d.cif else 0) ++ (raAllocCells cell d.alloc).getD [] ++
    bitsOf 2 d.tpcPucch

theorem dciFormat2ABPack_eq (fits : d.Fits cell cfg) (alloc : d.alloc.Fits01 cell) : dciFormat2ABPack cell cfg d =
    some (padTo false (dciFormatSizeof cell cfg d.format) (format2Head cell cfg d ++ format2Body cell d)) := by
  unfold dciFormat2ABPack format2Head
  rw [raAllocCells_of_fits alloc, cif_cells fits.cifPresent]
  rfl

theorem DciDl.withCwIdx_inj {a b : DciDl} (same : a.withCwIdx = b.withCwIdx) (a0 : a.tb0.cwIdx = 0)
    (a1 : a.tb1.cwIdx = 0) (b0 : b.tb0.cwIdx = 0) (b1 : b.tb1.cwIdx = 0) : a = b := by
  have withZero : ∀ c : DciDl, c.tb0.cwIdx = 0 → c.tb1.cwIdx = 0 →
      { c.withCwIdx with
        tb0 := { c.withCwIdx.tb0 with cwIdx := 0 }, tb1 := { c.withCwIdx.tb1 with cwIdx := 0 } } = c := by
    intro c
    obtain ⟨_, _, _, ⟨_, _, _, _⟩, ⟨_, _, _, _⟩, _, _, _, _, _, _, _, _, _, _, _, _, _, _⟩ := c
    rintro rfl rfl
    rfl
  rw [← withZero a a0 a1, same, withZero b b0 b1]

theorem dciFormat2ABUnpack_iff (format : d.format.IsFormat2x) (fits : d.Fits cell cfg) (alloc : d.alloc.Fits01 cell)
    {bits rest : List Bool} :
    dciFormat2ABUnpack cell cfg d.rnti d.format bits = some (d.carried cell cfg, rest) ↔
      bits = format2Head cell cfg d ++ (bitsOf (daiBits cell) (if cell.isTdd then d.dai else 0) ++
        format2Body cell d) ++ rest := by
  have carried : d.carried cell cfg = withCwIdx { d.base cfg with
        alloc := d.alloc, pid := d.pid, tpcPucch := d.tpcPucch, dai := if cell.isTdd then d.dai else 0
        isTdd := cell.isTdd
        tb0 := { d.tb0 with cwIdx := 0 }, tb1 := { d.tb1 with cwIdx := 0 }, pinfo := d.pinfo
        sramId := d.format == .format2B && d.swapBit, tbCwSwap := d.format != .format2B && d.swapBit } := by
    unfold DciDl.carried
    obtain format | format | format := format <;> rw [format]
  rw [carried]
  unfold dciFormat2ABUnpack readCif format2Head format2Body base
  simp only [(Exact.takeBits _).bind_iff, (readRaAlloc_exact _).bind_iff, Exact.takeBit.bind_iff, readTb_exact.bind_iff,
    Exact.pure_iff]
  constructor
  · rintro ⟨cif, _, -, rfl, ra, _, -, rfl, tpc, _, -, rfl, dai, _, -, rfl, pid, _, -, rfl, swap, _, -, rfl,
      tb0, _, ⟨-, tb0Cw⟩, rfl, tb1, _, ⟨-, tb1Cw⟩, rfl, pinfo, _, -, rfl, same, rfl⟩
    have same := withCwIdx_inj same tb0Cw tb1Cw rfl rfl
    simp only [DciDl.mk.injEq, true_and] at same
    obtain ⟨rfl, rfl, rfl, swapSame, rfl, rfl, rfl, rfl, rfl, sramSame⟩ := same
    have swap_eq : swap = d.swapBit := by
      obtain format | format | format := format <;> rw [format] at swapSame sramSame
      · exact swapSame
      · exact swapSame
      · exact sramSame
    rw [swap_eq]
    simp only [append_assoc]
    rfl
  · rintro rfl
    refine ⟨_, _, cif_lt fits.cif, by simp only [append_assoc]; rfl, _, _, alloc, rfl, _, _, fits.tpcPucch, rfl,
      _, _, carriedDai_lt fits, rfl, _, _, fits.pid, rfl, _, _, trivial, rfl, { d.tb0 with cwIdx := 0 }, _,
      ⟨⟨fits.tb0.1, fits.tb0.2, fits.tb0.3⟩, rfl⟩, rfl, { d.tb1 with cwIdx := 0 }, _,
      ⟨⟨fits.tb1.1, fits.tb1.2, fits.tb1.3⟩, rfl⟩, rfl, _, rest, fits.pinfo, rfl, rfl, rfl⟩

theorem rvBits_eq_zeros_iff {tb : DciTb} (fits : tb.Fits) : rvBits tb.rv = replicate 2 false ↔ tb.rv = 0 := by
  have low := fits.rvLow
  rw [rvBits_eq fits, bitsOf_eq_replicate_false fits.rvToNat.1]
  omega

theorem DciTb.cells_eq_zeros_iff {tb : DciTb} (fits : tb.Fits) :
    tb.cells = replicate 8 false ↔ tb.Blank := by
  unfold cells Blank
  rw [append_eq_replicate_iff, append_eq_replicate_iff]
  simp only [bitsOf_length, rvBits_length, rvBits_eq_zeros_iff fits, bitsOf_eq_replicate_false (n := 5) fits.mcsIdx,
    length_append, length_singleton, replicate_one, List.cons.injEq, and_true, true_and]
  rw [and_assoc]

theorem DciTb.cells_length (tb : DciTb) : tb.cells.length = 8 := by
  unfold cells
  simp only [length_append, bitsOf_length, rvBits_length, length_singleton]

theorem format2Body_eq_zeros_iff (fits : d.Fits cell cfg) :
    format2Body cell d = replicate (format2Body cell d).length false ↔
      d.pid = 0 ∧ d.swapBit = false ∧ d.tb0.Blank ∧ d.tb1.Blank ∧ d.pinfo = 0 := by
  unfold format2Body
  simp only [append_eq_replicate_iff, length_append, bitsOf_length, DciTb.cells_length,
    bitsOf_eq_replicate_false fits.pid, bitsOf_eq_replicate_false fits.pinfo, DciTb.cells_eq_zeros_iff fits.tb0,
    DciTb.cells_eq_zeros_iff fits.tb1, length_singleton, replicate_one, List.cons.injEq, true_and, and_assoc]

theorem format2Head_length (valid : cell.IsValid) (alloc : d.alloc.Fits01 cell) :
    (format2Head cell cfg d).length = cifBits cfg + allocBits cell + 2 := by
  unfold format2Head
  simp only [length_append, bitsOf_length, raAllocCells_length valid alloc]

theorem format2Body_length : (format2Body cell d).length = cell.harqPidLen + 17 + pinfoBits cell d.format := by
  unfold format2Body
  simp only [length_append, bitsOf_length, DciTb.cells_length, length_singleton]

theorem le_dciFormatSizeof_format2x (format : d.format.IsFormat2x) :
    cifBits cfg + allocBits cell + cell.harqPidLen + daiBits cell + pinfoBits cell d.format + 19 ≤
      dciFormatSizeof cell cfg d.format := by
  obtain format | format | format := format <;> rw [format] <;> exact le_dciFormat2xSizeof _

theorem format2Body_prefix_iff (fits : d.Fits cell cfg) {pad : Nat} (long : daiBits cell ≤ pad) :
    bitsOf (daiBits cell) (if cell.isTdd then d.dai else 0) ++ format2Body cell d <+:
      format2Body cell d ++ replicate pad false ↔ (cell.isTdd → d.Blank) := by
  have zeros_iff := format2Body_eq_zeros_iff fits
  have daiFits := fits.dai
  unfold daiBits at long ⊢
  cases tdd : cell.isTdd with
  | false =>
    simp only [Bool.false_eq_true, false_implies, iff_true]
    exact prefix_append _ _
  | true =>
    rw [tdd, if_pos rfl] at long
    simp only [if_true, forall_const]
    constructor
    · intro shifted
      obtain ⟨front, body⟩ := eq_zeros_of_shift (by simp [bitsOf]) shifted
      rw [bitsOf_length, bitsOf_eq_replicate_false daiFits] at front
      obtain ⟨pid, swap, tb0, tb1, pinfo⟩ := zeros_iff.mp body
      exact ⟨front, pid, swap, tb0, tb1, pinfo⟩
    · rintro ⟨dai, pid, swap, tb0, tb1, pinfo⟩
      have body := zeros_iff.mpr ⟨pid, swap, tb0, tb1, pinfo⟩
      rw [(bitsOf_eq_replicate_false daiFits).mpr dai, body, replicate_append_replicate,
        replicate_append_replicate]
      refine ⟨replicate (pad - 2) false, ?_⟩
      rw [replicate_append_replicate]
      congr 1
      omega

theorem DciDl.roundTrips_iff_format2x (valid : cell.IsValid) (format : d.format.IsFormat2x) (fits : d.Fits cell cfg) :
    d.RoundTrips cell cfg ↔ (cell.isTdd → d.Blank) := by
  have alloc : d.alloc.Fits01 cell := by
    have alloc := fits.alloc
    obtain format | format | format := format <;> simpa [format] using alloc
  have head := @format2Head_length cell cfg d valid alloc
  have body := @format2Body_length cell d
  have size := @le_dciFormatSizeof_format2x cell cfg d format
  have padded : (padTo false (dciFormatSizeof cell cfg d.format) (format2Head cell cfg d ++ format2Body cell d)).length =
      dciFormatSizeof cell cfg d.format := padTo_length (by rw [length_append]; omega)
  have pack : dciMsgPackPdsch cell cfg d = some (written
      (padTo false (dciFormatSizeof cell cfg d.format) (format2Head cell cfg d ++ format2Body cell d))) := by
    have packed := dciFormat2ABPack_eq fits alloc
    unfold dciMsgPackPdsch
    obtain format | format | format := format <;> rw [format] at packed ⊢ <;> dsimp only <;> rw [packed] <;> rfl
  have short : daiBits cell + (format2Head cell cfg d ++ format2Body cell d).length ≤
      dciFormatSizeof cell cfg d.format := by
    rw [length_append]
    omega
  rw [DciDl.roundTrips_iff_prefix (format2Head cell cfg d ++
    (bitsOf (daiBits cell) (if cell.isTdd then d.dai else 0) ++ format2Body cell d)) valid pack padded]
  · unfold padTo
    rw [append_assoc, prefix_append_right_inj, format2Body_prefix_iff fits (by omega)]
  · rw [padded]
    simp only [length_append, bitsOf_length] at short ⊢
    omega
  · intro payload
    have reads := @dciFormat2ABUnpack_iff cell cfg d format fits alloc payload
    unfold dciMsgUnpackPdsch
    obtain format | format | format := format <;> rw [format] at reads ⊢ <;> dsimp only <;> rw [map_fst_eq_some] <;>
      simp only [reads]

end

end IsrRan.Phy
