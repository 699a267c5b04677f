import IsrRan.Phy.DciFormat1A

namespace IsrRan.Phy
open Lib List

section

variable {cell : Cell} {sf : DlSfCfg} {cfg : DciCfg} {d : DciUl}

def format0Head (cell : Cell) (cfg : DciCfg) (d : DciUl) : List Bool :=
  bitsOf (cifBits cfg) (if cfg.cifEnabled then d.cif else 0) ++ [false] ++ hopCells cell d.freqHopFl ++
    bitsOf (rivNbits cell.nofPrb - nUlHop cell d.freqHopFl) d.type2Riv ++ bitsOf 5 d.tb.mcsIdx ++ [d.tb.ndi] ++
    bitsOf 2 d.tpcPusch ++ bitsOf 3 d.nDmrs

def format0Requests (cfg : DciCfg) (d : DciUl) : List Bool :=
  (if cfg.multipleCsi then [d.cqiRequest, false] else [d.cqiRequest]) ++
    if cfg.isrInFormat0 then [d.isrRequest && d.isrRequestPresent] else []

def DciUl.carriedIndex (cell : Cell) (sf : DlSfCfg) (d : DciUl) : Nat := if cell.isTdd then d.index sf else 0

def DciUl.csi (cfg : DciCfg) (d : DciUl) : Nat :=
  if cfg.multipleCsi then d.multipleCsiRequest else d.cqiRequest.toNat

def format0Expected (cell : Cell) (sf : DlSfCfg) (cfg : DciCfg) (d : DciUl) : List Bool :=
  bitsOf (daiBits cell) (d.carriedIndex cell sf) ++ bitsOf (csiBits cfg) (d.csi cfg) ++
    (if cfg.isrInFormat0 then [d.isrRequest && d.isrRequestPresent] else []) ++
    if cfg.raFormatEnabled then [d.raType] else []

section
variable (fits : d.Fits cell cfg)
include fits

theorem dciFormat0Pack_eq : dciFormat0Pack cell cfg d =
    padTo false (dciFormatSizeof cell cfg .format0) (format0Head cell cfg d ++ format0Requests cfg d) := by
  unfold dciFormat0Pack format0Head format0Requests
  rw [cif_cells fits.cifPresent]
  simp only [append_assoc]

theorem carriedIndex_lt : d.carriedIndex cell sf < 2 ^ daiBits cell := by
  have dai := fits.dai
  have ulIdx := fits.ulIdx
  unfold DciUl.carriedIndex DciUl.index daiBits
  cases cell.isTdd
  · exact Nat.one_pos
  · rw [if_pos rfl, if_pos rfl]
    split <;> omega

theorem csi_lt : d.csi cfg < 2 ^ csiBits cfg := by
  have multiple := fits.multipleCsiRequest
  unfold DciUl.csi csiBits
  cases cfg.multipleCsi
  · exact Bool.toNat_lt _
  · exact multiple

theorem dciFormat0Unpack_iff {bits rest : List Bool} :
    dciFormat0Unpack cell sf cfg d.rnti bits = some (d.carried cell sf cfg, rest) ↔
      bits = format0Head cell cfg d ++ format0Expected cell sf cfg d ++ rest := by
  unfold dciFormat0Unpack readCif
  simp only [(Exact.takeBits _).bind_iff, Exact.takeBit.bind_iff]
  constructor
  · rintro ⟨cif, _, -, rfl, isFormat1A, _, -, rfl, read⟩
    cases isFormat1A with
    | true => cases read
    | false =>
      rw [if_neg Bool.false_ne_true] at read
      unfold readFormat0 at read
      simp only [(readHop_exact _).bind_iff, (Exact.takeBits _).bind_iff, Exact.takeBit.bind_iff,
        (readFlag_exact _).bind_iff, Exact.pure_iff] at read
      obtain ⟨hop, _, -, rfl, riv, _, -, rfl, mcs, _, -, rfl, ndi, _, -, rfl, tpc, _, -, rfl, dmrs, _, -, rfl,
        index, _, indexFits, rfl, csi, _, csiFits, rfl, isr, _, isrFits, rfl, ra, _, raFits, rfl, same, rfl⟩ := read
      unfold DciUl.carried at same
      simp only [DciUl.mk.injEq, true_and, and_true] at same
      obtain ⟨rfl, rfl, ⟨rfl, rfl⟩, rfl, cqi, dai, ulIdx, rfl, rfl, multiple, isrSame, raSame⟩ := same
      have index_eq : index = d.carriedIndex cell sf := by
        unfold DciUl.carriedIndex DciUl.index
        unfold daiBits at indexFits
        cases tdd : cell.isTdd with
        | false =>
          rw [tdd] at indexFits
          exact Nat.lt_one_iff.mp indexFits
        | true =>
          simp only [tdd] at dai ulIdx
          by_cases first : sf.sfConfig = 0
          · simpa [first] using ulIdx
          · simpa [first] using dai
      have csi_eq : csi = d.csi cfg := by
        unfold DciUl.csi
        unfold csiBits at csiFits
        cases multi : cfg.multipleCsi with
        | false =>
          simp only [multi, Bool.not_false, Bool.true_and] at cqi
          rw [multi] at csiFits
          rw [← cqi]
          match csi with
          | 0 | 1 => rfl
        | true => simpa [multi] using multiple
      unfold format0Head format0Expected
      cases isrIn : cfg.isrInFormat0 <;> cases raIn : cfg.raFormatEnabled <;>
        simp_all
  · rintro rfl
    unfold format0Head format0Expected
    refine ⟨_, _, cif_lt fits.cif, by simp only [append_assoc]; rfl, false, _, trivial, rfl, ?_⟩
    rw [if_neg Bool.false_ne_true]
    unfold readFormat0
    simp only [(readHop_exact _).bind_iff, (Exact.takeBits _).bind_iff, Exact.takeBit.bind_iff,
      (readFlag_exact _).bind_iff, Exact.pure_iff]
    refine ⟨_, _, fits.freqHopFl, rfl, _, _, fits.type2Riv, rfl, _, _, fits.mcsIdx, rfl, _, _, trivial, rfl,
      _, _, fits.tpcPusch, rfl, _, _, fits.nDmrs, rfl, _, _, carriedIndex_lt fits, rfl, _, _, csi_lt fits, rfl,
      cfg.isrInFormat0 && d.isrRequest && d.isrRequestPresent, _, by simp_all, ?_,
      cfg.raFormatEnabled && d.raType, rest, by simp_all, rfl, ?_, rfl⟩
    · cases cfg.isrInFormat0 <;> cases cfg.raFormatEnabled <;> rfl
    · unfold DciUl.carried DciUl.carriedIndex DciUl.index DciUl.csi
      simp only [DciUl.mk.injEq, true_and, and_true]
      refine ⟨?_, ?_, ?_, ?_⟩
      · cases cfg.multipleCsi <;> cases d.cqiRequest <;> rfl
      · by_cases first : sf.sfConfig = 0 <;> cases cell.isTdd <;> simp [first]
      · by_cases first : sf.sfConfig = 0 <;> cases cell.isTdd <;> simp [first]
      · cases cfg.multipleCsi <;> rfl

end

theorem dciFormat0Unpack_format1A {rnti : Nat} {front rest : List Bool} (length : front.length = cifBits cfg) :
    dciFormat0Unpack cell sf cfg rnti (front ++ true :: rest) = none := by
  unfold dciFormat0Unpack readCif
  cases read : (takeBits (cifBits cfg) >>= fun cif => _ : BitReader DciUl) (front ++ true :: rest) with
  | none => rfl
  | some result =>
    simp only [(Exact.takeBits _).bind_iff, Exact.takeBit.bind_iff] at read
    obtain ⟨cif, _, -, same, isFormat1A, _, -, rfl, read⟩ := read
    have flag := (append_inj same (by rw [bitsOf_length, length])).2
    cases flag
    cases read

theorem exists_two_bits {v : Nat} (fits : v < 4) : ∃ high low : Bool, v = 2 * high.toNat + low.toNat := by
  match v with
  | 0 => exact ⟨false, false, rfl⟩
  | 1 => exact ⟨false, true, rfl⟩
  | 2 => exact ⟨true, false, rfl⟩
  | 3 => exact ⟨true, true, rfl⟩

theorem bitsOf_two (high low : Bool) : bitsOf 2 (2 * high.toNat + low.toNat) = [high, low] := by
  cases high <;> cases low <;> rfl

theorem bitsOf_one (b : Bool) : bitsOf 1 b.toNat = [b] := by
  cases b <;> rfl

theorem format0Expected_prefix_iff (fits : d.Fits cell cfg) {pad : Nat} (long : daiBits cell + 1 ≤ pad) :
    format0Expected cell sf cfg d <+: format0Requests cfg d ++ List.replicate pad false ↔ d.Kept cell sf cfg := by
  have index : d.index sf < 4 := by
    have dai := fits.dai
    have ulIdx := fits.ulIdx
    unfold DciUl.index
    split <;> omega
  obtain ⟨multiHigh, multiLow, multiple⟩ := exists_two_bits fits.multipleCsiRequest
  obtain ⟨high, low, index⟩ := exists_two_bits index
  unfold format0Expected format0Requests DciUl.Kept DciUl.carriedIndex DciUl.csi
  unfold daiBits at long ⊢
  unfold csiBits
  rw [multiple, index]
  generalize d.cqiRequest = cqi
  generalize (d.isrRequest && d.isrRequestPresent) = isr
  generalize d.raType = ra
  cases tdd : cell.isTdd with
  | false =>
    obtain ⟨pad, rfl⟩ : ∃ k, pad = k + 1 := ⟨pad - 1, by rw [tdd] at long; simp at long; omega⟩
    cases cfg.multipleCsi <;> cases cfg.isrInFormat0 <;> cases cfg.raFormatEnabled <;>
      simp [bitsOf_two, bitsOf, replicate_succ]
    all_goals cases multiHigh <;> cases multiLow <;> cases cqi <;> simp
  | true =>
    obtain ⟨pad, rfl⟩ : ∃ k, pad = k + 3 := ⟨pad - 3, by rw [tdd] at long; simp at long; omega⟩
    cases cfg.multipleCsi <;> cases cfg.isrInFormat0 <;> cases cfg.raFormatEnabled <;>
      simp [bitsOf_two, bitsOf_one, replicate_succ]
    all_goals cases high <;> cases low <;> cases cqi <;> cases isr <;> cases ra <;> simp

theorem format0Head_length (valid : cell.IsValid) :
    (format0Head cell cfg d).length = cifBits cfg + rivNbits cell.nofPrb + 13 := by
  have riv := (rivNbits_bounds valid).1
  have hop := @nUlHop_le cell d.freqHopFl
  unfold format0Head
  simp only [length_append, bitsOf_length, hopCells_length, length_singleton]
  omega

theorem format0Requests_length : (format0Requests cfg d).length = csiBits cfg + if cfg.isrInFormat0 then 1 else 0 := by
  unfold format0Requests csiBits
  cases cfg.multipleCsi <;> cases cfg.isrInFormat0 <;> rfl

theorem format0Expected_length_le : (format0Expected cell sf cfg d).length ≤
    daiBits cell + csiBits cfg + (if cfg.isrInFormat0 then 1 else 0) + 1 := by
  unfold format0Expected
  simp only [length_append]
  cases cfg.isrInFormat0 <;> cases cfg.raFormatEnabled <;> simp

theorem DciUl.roundTrips_iff (valid : cell.IsValid) (fits : d.Fits cell cfg) :
    d.RoundTrips cell sf cfg ↔ d.Kept cell sf cfg := by
  have size : dciFormat0Sizeof_ cell cfg ≤ dciFormatSizeof cell cfg .format0 := Nat.le_max_left ..
  have most := @dciFormatSizeof_le cell cfg valid .format0
  have head := @format0Head_length cell cfg d valid
  have requests := @format0Requests_length cfg d
  have expected := @format0Expected_length_le cell sf cfg d
  have packed_eq := dciFormat0Pack_eq fits
  unfold padTo at packed_eq
  rw [dciFormat0Sizeof_eq_sum] at size
  have length : (dciFormat0Pack cell cfg d).length = dciFormatSizeof cell cfg .format0 := by
    rw [packed_eq]
    simp only [length_append, length_replicate]
    omega
  have reads : ∀ stale, dciMsgUnpackPusch cell sf cfg
        ⟨dciFormat0Pack cell cfg d ++ stale, (dciFormat0Pack cell cfg d).length, d.rnti, .format0⟩ =
      some (d.carried cell sf cfg) ↔
        ∃ rest, dciFormat0Pack cell cfg d ++ stale = format0Head cell cfg d ++ format0Expected cell sf cfg d ++ rest := by
    intro stale
    unfold dciMsgUnpackPusch
    rw [map_fst_eq_some]
    simp only [dciFormat0Unpack_iff fits]
  have kept : format0Head cell cfg d ++ format0Expected cell sf cfg d <+: dciFormat0Pack cell cfg d ↔
      d.Kept cell sf cfg := by
    rw [packed_eq, append_assoc, prefix_append_right_inj]
    apply format0Expected_prefix_iff fits
    rw [length_append]
    omega
  rw [← kept, ← forall_stale_iff_prefix (n := dciMaxBits) (by rw [length_append]; omega)
    (by rw [length]; exact Nat.le_trans most (by decide))]
  constructor
  · rintro ⟨bits, packed, -, restored⟩ stale full
    have same : bits = dciFormat0Pack cell cfg d := (List.map_injective_iff.mpr (Option.some_injective _) packed).symm
    subst same
    exact (reads stale).mp (restored stale full)
  · intro found
    exact ⟨_, rfl, length, fun stale full => (reads stale).mpr (found stale full)⟩

end

variable {cell : Cell} {sf : DlSfCfg} {cfg : DciCfg}

theorem DciDl.not_roundTrips_of_not_user {d : DciDl} (format : d.format = .format1A) (order : d.isPdcchOrder = false)
    (other : rntiIsUser d.rnti = false) : ¬ d.RoundTrips cell cfg := by
  rintro ⟨bits, packed, -⟩
  unfold dciMsgPackPdsch at packed
  rw [format] at packed
  unfold dciFormat1AsPack at packed
  rw [order, other] at packed
  cases alloc : d.alloc with
  | type2 a =>
    rw [alloc] at packed
    have unwritten : (none : Option Bool) ∈ written bits := by
      rw [← Option.some.inj packed]
      simp [padTo]
    obtain ⟨b, -, same⟩ := List.mem_map.mp unwritten
    cases same
  | _ =>
    rw [alloc] at packed
    cases packed

theorem DciDl.roundTrips_iff {d : DciDl} (valid : cell.IsValid) (fits : d.Fits cell cfg) :
    d.RoundTrips cell cfg ↔ d.Kept cell cfg := by
  unfold DciDl.Kept
  cases format : d.format with
  | format0 => exact absurd format fits.format
  | format1 => exact d.roundTrips_iff_format1 valid format fits
  | format1C => exact d.roundTrips_iff_format1C valid format fits
  | format2 => exact d.roundTrips_iff_format2x valid (Or.inl format) fits
  | format2A => exact d.roundTrips_iff_format2x valid (Or.inr (Or.inl format)) fits
  | format2B => exact d.roundTrips_iff_format2x valid (Or.inr (Or.inr format)) fits
  | format1A =>
    cases order : d.isPdcchOrder with
    | true => exact d.roundTrips_iff_order valid format order fits
    | false =>
      cases user : rntiIsUser d.rnti with
      | true =>
        rw [d.roundTrips_iff_user valid format order user fits]
        simp
      | false =>
        simp only [Bool.false_eq_true, false_and, if_false, iff_false]
        exact DciDl.not_roundTrips_of_not_user format order user

section ToldApart

variable {payload : List Bool} {cells : Cells}

theorem front_of_stored {front : List Bool} {rest : Cells} (cells_eq : cells = written front ++ rest)
    (stored : StoredIn cells payload) : ∃ rest, payload = front ++ rest := by
  obtain ⟨bits, stale, rfl, matching⟩ := stored
  subst cells_eq
  induction front generalizing bits with
  | nil => exact ⟨bits ++ stale, rfl⟩
  | cons b front ih =>
    cases matching with
    | cons first others =>
      obtain ⟨rest, same⟩ := ih _ others
      exact ⟨rest, by rw [cons_append, same, first b rfl, cons_append]⟩

theorem dciMsgPackPusch_front {d : DciUl} (fits : d.Fits cell cfg) : ∃ front rest,
    front.length = cifBits cfg ∧ dciMsgPackPusch cell cfg d = written (front ++ [false]) ++ rest := by
  refine ⟨bitsOf (cifBits cfg) (if cfg.cifEnabled then d.cif else 0), ?_⟩
  unfold dciMsgPackPusch
  rw [dciFormat0Pack_eq fits]
  unfold format0Head padTo written
  simp only [map_append, append_assoc]
  exact ⟨_, bitsOf_length _ _, rfl⟩

theorem dciFormat1AsPack_front {d : DciDl} (fits : d.Fits cell cfg)
    (pack : dciFormat1AsPack cell cfg d = some cells) : ∃ front rest,
    front.length = cifBits cfg ∧ cells = written (front ++ [true]) ++ rest := by
  refine ⟨bitsOf (cifBits cfg) (if cfg.cifEnabled then d.cif else 0), ?_⟩
  unfold dciFormat1AsPack padTo written at pack
  rw [cif_cells fits.cifPresent] at pack
  simp only [map_append] at pack
  split at pack
  · rw [← Option.some.inj pack]
    unfold written
    simp only [map_append, append_assoc]
    exact ⟨_, bitsOf_length _ _, rfl⟩
  · split at pack
    · rw [← Option.some.inj pack]
      unfold written
      simp only [map_append, append_assoc]
      exact ⟨_, bitsOf_length _ _, rfl⟩
    · cases pack

theorem unpackPdsch_format0 {d : DciUl} {nofBits rnti : Nat} (fits : d.Fits cell cfg)
    (stored : StoredIn (dciMsgPackPusch cell cfg d) payload) :
    dciMsgUnpackPdsch cell cfg ⟨payload, nofBits, rnti, .format1A⟩ = none := by
  obtain ⟨front, rest, length, cells_eq⟩ := dciMsgPackPusch_front fits
  obtain ⟨rest, rfl⟩ := front_of_stored cells_eq stored
  unfold dciMsgUnpackPdsch
  rw [append_assoc, singleton_append, dciFormat1AsUnpack_format0 length]
  rfl

theorem unpackPusch_format1A {d : DciDl} {nofBits rnti : Nat}
    (format : d.format = .format1A) (fits : d.Fits cell cfg) (pack : dciMsgPackPdsch cell cfg d = some cells)
    (stored : StoredIn cells payload) :
    dciMsgUnpackPusch cell sf cfg ⟨payload, nofBits, rnti, .format0⟩ = none := by
  unfold dciMsgPackPdsch at pack
  rw [format] at pack
  obtain ⟨front, rest, length, cells_eq⟩ := dciFormat1AsPack_front fits pack
  obtain ⟨rest, rfl⟩ := front_of_stored cells_eq stored
  unfold dciMsgUnpackPusch
  rw [append_assoc, singleton_append, dciFormat0Unpack_format1A length]
  rfl

end ToldApart

theorem dci_roundTrips_iff_kept (cell : Cell) (valid : cell.IsValid) (sf : DlSfCfg) (cfg : DciCfg) :
    (∀ d : DciUl, d.Fits cell cfg → (d.RoundTrips cell sf cfg ↔ d.Kept cell sf cfg)) ∧
      (∀ d : DciDl, d.Fits cell cfg → (d.RoundTrips cell cfg ↔ d.Kept cell cfg)) ∧
      dciFormatSizeof cell cfg .format0 = dciFormatSizeof cell cfg .format1A ∧
      (∀ (d : DciUl) (payload : List Bool) (nofBits rnti : Nat), d.Fits cell cfg →
        StoredIn (dciMsgPackPusch cell cfg d) payload →
          dciMsgUnpackPdsch cell cfg ⟨payload, nofBits, rnti, .format1A⟩ = none) ∧
      ∀ (d : DciDl) (cells : Cells) (payload : List Bool) (nofBits rnti : Nat), d.format = .format1A →
        d.Fits cell cfg → dciMsgPackPdsch cell cfg d = some cells → StoredIn cells payload →
          dciMsgUnpackPusch cell sf cfg ⟨payload, nofBits, rnti, .format0⟩ = none :=
  ⟨fun d => d.roundTrips_iff valid, fun d => d.roundTrips_iff valid, dciFormat0Sizeof_eq,
    fun _ _ _ _ => unpackPdsch_format0, fun _ _ _ _ _ => unpackPusch_format1A⟩

section Grants

def fddCell : Cell := ⟨100, 2, .fdd⟩

def fddGrant : DciDl := {
  rnti := 0x46
  format := .format1
  alloc := .type0 0x1ffffff
  tb0 := ⟨10, 2, true, 0⟩
  pid := 5
  tpcPucch := 1 }

theorem fddGrant_fits : fddGrant.Fits fddCell {} := by
  constructor <;> first | decide | exact ⟨by decide, by decide, by decide⟩ | exact (by decide : 0x1ffffff < 2 ^ 25)

theorem dci_roundTrips_iff_kept_fddGrant : fddCell.IsValid ∧ fddGrant.RoundTrips fddCell {} :=
  ⟨⟨by decide, by decide⟩,
    ((dci_roundTrips_iff_kept fddCell ⟨by decide, by decide⟩ ⟨0⟩ {}).2.1 fddGrant fddGrant_fits).mpr fun _ => rfl⟩

def tddCell : Cell := ⟨100, 2, .tdd⟩

def tddGrant : DciDl := {
  rnti := 0x46
  format := .format2
  alloc := .type0 0x1ffffff
  tb0 := ⟨10, 0, true, 0⟩
  tb1 := ⟨10, 0, true, 0⟩
  pid := 5 }

theorem tddGrant_fits : tddGrant.Fits tddCell {} := by
  constructor <;> first | decide | exact ⟨by decide, by decide, by decide⟩ | exact (by decide : 0x1ffffff < 2 ^ 25)

theorem tddGrant_lost : ¬ ∀ (cell : Cell) (cfg : DciCfg) (d : DciDl),
    cell.IsValid → d.Fits cell cfg → d.RoundTrips cell cfg := by
  intro always
  have valid : tddCell.IsValid := ⟨by decide, by decide⟩
  have blank := (tddGrant.roundTrips_iff valid tddGrant_fits).mp (always _ _ _ valid tddGrant_fits) rfl
  exact absurd blank.pid (by decide)

end Grants

end IsrRan.Phy
