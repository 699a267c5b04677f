import IsrRan.Phy.DciFormat1

namespace IsrRan.Phy
open Lib List DciDl

variable {cell : Cell} {cfg : DciCfg} {d : DciDl}

variable {rnti nofBits cif : Nat} {rest y : List Bool}

theorem dciFormat1AsUnpack_eq (fits : cif < 2 ^ cifBits cfg) (y : List Bool) :
    dciFormat1AsUnpack cell cfg rnti nofBits (bitsOf (cifBits cfg) cif ++ true :: y) =
      if looksLikePdcchOrder cell nofBits y then readPdcchOrder cell cfg rnti cif y
      else readFormat1A cell cfg rnti cif y := by
  unfold dciFormat1AsUnpack readCif
  rw [(Reads.takeBits fits).bind_apply]
  change (if looksLikePdcchOrder cell nofBits y then readPdcchOrder cell cfg rnti cif
    else readFormat1A cell cfg rnti cif) y = _
  split <;> rfl

theorem dciFormat1AsUnpack_format0 {front : List Bool}
    (length : front.length = cifBits cfg) :
    dciFormat1AsUnpack cell cfg rnti nofBits (front ++ false :: rest) = none := by
  have same : front = bitsOf (cifBits cfg) (ofBits front) := by
    apply ofBits_inj (by rw [bitsOf_length, length])
    rw [ofBits_bitsOf (by rw [← length]; exact ofBits_lt front)]
  rw [same]
  unfold dciFormat1AsUnpack readCif
  rw [(Reads.takeBits (by rw [← length]; exact ofBits_lt front)).bind_apply]
  rfl

theorem looksLikePdcchOrder_iff : looksLikePdcchOrder cell nofBits y = true ↔
    y[0]? = some false ∧ replicate (rivNbits cell.nofPrb) true <+: y.drop 1 ∧
      11 + rivNbits cell.nofPrb ≤ nofBits - 1 ∧
      replicate (nofBits - 1 - (11 + rivNbits cell.nofPrb)) false <+: y.drop (11 + rivNbits cell.nofPrb) := by
  unfold looksLikePdcchOrder
  simp only [Bool.and_eq_true, beq_iff_eq, decide_eq_true_eq, all_range_iff_prefix, and_assoc]

theorem isPdcchOrder_of_readFormat1A {r : DciDl}
    (read : readFormat1A cell cfg rnti cif y = some (r, rest)) : r.isPdcchOrder = false := by
  unfold readFormat1A at read
  simp only [(Exact.takeBits _).bind_iff, (readFlag_exact _).bind_iff, Exact.takeBit.bind_iff] at read
  obtain ⟨_, _, -, -, _, _, -, -, _, _, -, -, _, _, -, -, _, _, -, -, _, _, -, -, _, _, -, -, _, _, -, -, _, _, -, -,
    _, _, -, -, rfl, -⟩ := read
  rfl

theorem isPdcchOrder_of_readPdcchOrder {r : DciDl}
    (read : readPdcchOrder cell cfg rnti cif y = some (r, rest)) : r.isPdcchOrder = true := by
  unfold readPdcchOrder at read
  simp only [(Exact.takeBits _).bind_iff] at read
  obtain ⟨_, _, -, -, _, _, -, -, _, _, -, -, rfl, -⟩ := read
  rfl

theorem carried_isPdcchOrder (format : d.format = .format1A) : (d.carried cell cfg).isPdcchOrder = d.isPdcchOrder := by
  unfold DciDl.carried
  rw [format]
  cases order : d.isPdcchOrder <;> rfl

section Order

def pdcchOrderBits (cell : Cell) (d : DciDl) : List Bool :=
  [false] ++ replicate (rivNbits cell.nofPrb) true ++ bitsOf 6 d.preambleIdx ++ bitsOf 4 d.prachMaskIdx

theorem pdcchOrderBits_length : (pdcchOrderBits cell d).length = 11 + rivNbits cell.nofPrb := by
  unfold pdcchOrderBits
  simp only [length_append, bitsOf_length, length_singleton, length_replicate]
  omega

theorem looksLikePdcchOrder_order {zeros : Nat} (stale : List Bool) :
    looksLikePdcchOrder cell (cifBits cfg + 12 + rivNbits cell.nofPrb + zeros)
      (pdcchOrderBits cell d ++ (replicate zeros false ++ stale)) = true ↔
        replicate (cifBits cfg) false <+: stale := by
  have length : (pdcchOrderBits cell d).length = 11 + rivNbits cell.nofPrb := pdcchOrderBits_length
  have size : cifBits cfg + 12 + rivNbits cell.nofPrb + zeros - 1 - (11 + rivNbits cell.nofPrb) =
      cifBits cfg + (0 + zeros) := by omega
  have ones : replicate (rivNbits cell.nofPrb) true <+:
      (pdcchOrderBits cell d ++ (replicate zeros false ++ stale)).drop 1 := by
    unfold pdcchOrderBits
    simp only [append_assoc]
    exact prefix_append _ _
  have last := @zeros_prefix_iff [] stale zeros (cifBits cfg)
  rw [length_nil, nil_append] at last
  rw [looksLikePdcchOrder_iff, size, ← length, drop_left, last]
  constructor
  · intro looks
    exact looks.2.2.2.2
  · intro found
    exact ⟨rfl, ones, by omega, rfl, found⟩

theorem readPdcchOrder_reads (format : d.format = .format1A) (order : d.isPdcchOrder = true) (fits : d.Fits cell cfg)
    (rest : List Bool) :
    readPdcchOrder cell cfg d.rnti (if cfg.cifEnabled then d.cif else 0) (pdcchOrderBits cell d ++ rest) =
      some (d.carried cell cfg, rest) := by
  unfold readPdcchOrder pdcchOrderBits DciDl.carried base
  rw [format, order]
  simp only [(Exact.takeBits _).bind_iff, Exact.pure_iff]
  have rba : [false] ++ replicate (rivNbits cell.nofPrb) true =
      bitsOf (1 + rivNbits cell.nofPrb) (2 ^ rivNbits cell.nofPrb - 1) := by
    apply ofBits_inj (by simp [Nat.add_comm])
    have positive := Nat.two_pow_pos (rivNbits cell.nofPrb)
    rw [singleton_append, ofBits, ofBits_replicate_true, ofBits_bitsOf (by rw [Nat.pow_add]; omega)]
    simp
  refine ⟨_, _, ?_, by rw [rba]; simp only [append_assoc]; rfl, _, _, fits.preambleIdx, rfl, _, rest,
    fits.prachMaskIdx, rfl, rfl, rfl⟩
  have positive := Nat.two_pow_pos (rivNbits cell.nofPrb)
  rw [Nat.pow_add]
  omega

end Order

theorem dciFormat1AsPack_order (order : d.isPdcchOrder = true) (fits : d.Fits cell cfg) : dciFormat1AsPack cell cfg d =
    some (written (padTo false (dciFormatSizeof cell cfg .format1A)
      (bitsOf (cifBits cfg) (if cfg.cifEnabled then d.cif else 0) ++ true :: pdcchOrderBits cell d))) := by
  unfold dciFormat1AsPack pdcchOrderBits padTo written
  rw [order, cif_cells fits.cifPresent]
  simp

theorem DciDl.roundTrips_iff_order (valid : cell.IsValid) (format : d.format = .format1A)
    (order : d.isPdcchOrder = true) (fits : d.Fits cell cfg) : d.RoundTrips cell cfg ↔ cfg.cifEnabled = false := by
  have least := (@dciFormat1ASizeof_bounds cell cfg).1
  have most := @dciFormatSizeof_le cell cfg valid .format1A
  unfold format1ALeast at least
  obtain ⟨zeros, size⟩ : ∃ zeros, dciFormatSizeof cell cfg .format1A =
      cifBits cfg + 12 + rivNbits cell.nofPrb + zeros :=
    ⟨_, (Nat.add_sub_cancel' (show cifBits cfg + 12 + rivNbits cell.nofPrb ≤ dciFormat1ASizeof cell cfg by omega)).symm⟩
  have pack := dciFormat1AsPack_order order fits
  have length : (pdcchOrderBits cell d).length = 11 + rivNbits cell.nofPrb := pdcchOrderBits_length
  have padded : padTo false (dciFormatSizeof cell cfg .format1A)
      (bitsOf (cifBits cfg) (if cfg.cifEnabled then d.cif else 0) ++ true :: pdcchOrderBits cell d) =
      bitsOf (cifBits cfg) (if cfg.cifEnabled then d.cif else 0) ++ true :: (pdcchOrderBits cell d ++
        replicate zeros false) := by
    unfold padTo
    rw [length_append, length_cons, bitsOf_length, append_assoc, cons_append]
    congr 5
    omega
  rw [padded] at pack
  generalize packed_eq : bitsOf (cifBits cfg) (if cfg.cifEnabled then d.cif else 0) ++
    true :: (pdcchOrderBits cell d ++ replicate zeros false) = packed at pack
  have sized : packed.length = dciFormatSizeof cell cfg .format1A := by
    rw [← packed_eq]
    simp only [length_append, length_cons, bitsOf_length, length_replicate]
    omega
  have unpack : ∀ stale, dciMsgUnpackPdsch cell cfg ⟨packed ++ stale, packed.length, d.rnti, d.format⟩ =
      (if replicate (cifBits cfg) false <+: stale then some (d.carried cell cfg)
        else (readFormat1A cell cfg d.rnti (if cfg.cifEnabled then d.cif else 0)
          (pdcchOrderBits cell d ++ (replicate zeros false ++ stale))).map Prod.fst) := by
    intro stale
    unfold dciMsgUnpackPdsch
    rw [format]
    rw [sized, size, ← packed_eq, append_assoc, cons_append, append_assoc,
      dciFormat1AsUnpack_eq (cif_lt fits.cif)]
    by_cases found : replicate (cifBits cfg) false <+: stale
    · rw [if_pos ((looksLikePdcchOrder_order stale).mpr found), if_pos found,
        readPdcchOrder_reads format order fits]
      rfl
    · rw [if_neg fun looks => found ((looksLikePdcchOrder_order stale).mp looks), if_neg found]
  have pack' : dciMsgPackPdsch cell cfg d = some (written packed) := by
    unfold dciMsgPackPdsch
    rw [format]
    exact pack
  rw [roundTrips_iff_of_pack pack' (by rw [format, sized])]
  constructor
  · intro restored
    have ones := restored (replicate (128 - packed.length) true) (by rw [length_replicate]; simp [dciMaxBits]; omega)
    rw [unpack] at ones
    cases cif : cfg.cifEnabled with
    | false => rfl
    | true =>
      have beyond : ¬ replicate (cifBits cfg) false <+: replicate (128 - packed.length) true := by
        rintro ⟨rest, same⟩
        have first := congrArg (fun bits => bits[0]?) same
        have room : 0 < 128 - packed.length := by omega
        simp [cifBits, cif, room] at first
      rw [if_neg beyond, map_fst_eq_some] at ones
      obtain ⟨rest, ones⟩ := ones
      have ordinary := isPdcchOrder_of_readFormat1A ones
      rw [carried_isPdcchOrder format, order] at ordinary
      cases ordinary
  · intro noCif stale _
    rw [unpack, if_pos]
    unfold cifBits
    rw [noCif]
    exact nil_prefix

theorem Type2Mode.ofBit_bit (mode : Type2Mode) : Type2Mode.ofBit mode.bit = mode := by
  cases mode <;> rfl

section Ordinary
variable {a : RaType2}

def format1AFields (cell : Cell) (d : DciDl) (a : RaType2) : List Bool :=
  [a.mode.bit] ++ (if gapFirst cell d.rnti a.mode then [a.nGap.bit] else []) ++
    bitsOf (rivNbits cell.nofPrb - (gapFirst cell d.rnti a.mode).toNat) a.riv ++ bitsOf 5 d.tb0.mcsIdx ++
    bitsOf cell.harqPidLen d.pid ++ [d.tb0.ndi] ++ rvBits d.tb0.rv

theorem format1AFields_length (valid : cell.IsValid) :
    (format1AFields cell d a).length = rivNbits cell.nofPrb + cell.harqPidLen + 9 := by
  have riv := (rivNbits_bounds valid).1
  unfold format1AFields
  cases gapFirst cell d.rnti a.mode <;> simp <;> omega

theorem dciFormat1AsPack_user (order : d.isPdcchOrder = false) (user : rntiIsUser d.rnti = true)
    (alloc : d.alloc = .type2 a) (fits : d.Fits cell cfg) : dciFormat1AsPack cell cfg d =
    some (written (padTo false (dciFormatSizeof cell cfg .format1A)
      (bitsOf (cifBits cfg) (if cfg.cifEnabled then d.cif else 0) ++ true ::
        (format1AFields cell d a ++ [false, false])))) := by
  unfold dciFormat1AsPack format1AFields padTo written
  rw [order, alloc, user, cif_cells fits.cifPresent]
  simp

def format1ABack (cell : Cell) (cfg : DciCfg) (d : DciDl) : DciDl :=
  { d.base cfg with
    alloc := d.alloc, pid := d.pid, isTdd := cell.isTdd, tb0 := { d.tb0 with cwIdx := 0 } }

theorem readFormat1A_reads (user : rntiIsUser d.rnti = true) (format : d.format = .format1A)
    (alloc : d.alloc = .type2 a) (fits : d.Fits cell cfg) (fitsAlloc : d.alloc.Fits1A cell d.rnti) (rest : List Bool) :
    readFormat1A cell cfg d.rnti (if cfg.cifEnabled then d.cif else 0)
      (format1AFields cell d a ++ ([false, false] ++ (bitsOf (daiBits cell) 0 ++ rest))) =
      some (format1ABack cell cfg d, rest) := by
  obtain ⟨riv, nPrb1a, nGap, mode⟩ := a
  rw [alloc] at fitsAlloc
  obtain ⟨riv_lt, gap, prb⟩ := fitsAlloc
  unfold readFormat1A format1AFields format1ABack base
  rw [rvBits_eq fits.tb0, alloc, format]
  simp only [(Exact.takeBits _).bind_iff, (readFlag_exact _).bind_iff, Exact.takeBit.bind_iff, Exact.pure_iff]
  refine ⟨mode.bit, _, trivial, by simp only [append_assoc]; rfl, ?_⟩
  rw [Type2Mode.ofBit_bit]
  refine ⟨gapFirst cell d.rnti mode && nGap.bit, _, fun second => (Bool.and_eq_true_iff.mp second).1,
    (by cases gapFirst cell d.rnti mode <;> rfl), riv, _, riv_lt, rfl, d.tb0.mcsIdx, _, fits.tb0.mcsIdx, rfl,
    d.pid, _, fits.pid, rfl, d.tb0.ndi, _, trivial, rfl, d.tb0.rv.toNat, _, fits.tb0.rvToNat.1, rfl,
    false, _, trivial, rfl, false, _, trivial, rfl, 0, rest, Nat.two_pow_pos _, rfl, ?_, rfl⟩
  have prb1a : nPrb1a = .two := by
    cases three : nPrb1a with
    | two => rfl
    | three => rw [prb three] at user; cases user
  have gapRead : NGap.ofBit (gapFirst cell d.rnti mode && nGap.bit) = nGap := by
    cases second : nGap with
    | ng1 => cases gapFirst cell d.rnti mode <;> rfl
    | ng2 =>
      obtain ⟨dist, wide⟩ := gap second
      dsimp only at dist
      rw [dist]
      unfold gapFirst
      rw [user, decide_eq_true wide]
      rfl
  rw [gapRead, user, prb1a, fits.tb0.rvToNat.2]
  rfl

def rvTested (cell : Cell) (d : DciDl) : List Bool := if cell.isTdd then rvBits d.tb0.rv else (rvBits d.tb0.rv).drop 1

theorem rvTested_length : (rvTested cell d).length + 2 = cell.harqPidLen := by
  unfold rvTested Cell.harqPidLen
  cases cell.isTdd <;> simp

theorem rvTested_eq_zeros_iff (fits : d.Fits cell cfg) :
    rvTested cell d = replicate (rvTested cell d).length false ↔
      if cell.isTdd then d.tb0.rv = 0 else d.tb0.rv % 2 = 0 := by
  unfold rvTested
  cases cell.isTdd with
  | true =>
    exact rvBits_eq_zeros_iff fits.tb0
  | false =>
    have low := fits.tb0.rvLow
    have high := fits.tb0.rvHigh
    generalize d.tb0.rv = rv at *
    obtain ⟨v, rfl⟩ := Int.eq_ofNat_of_zero_le low
    match v with
    | 0 | 1 | 2 | 3 => decide

theorem format1AFields_loc (mode : a.mode = .loc) : ∃ front : List Bool, front.length = 10 ∧
    format1AFields cell d a = false :: (bitsOf (rivNbits cell.nofPrb) a.riv ++ (front ++ rvTested cell d)) := by
  have gap : gapFirst cell d.rnti a.mode = false := by
    rw [mode]
    unfold gapFirst
    rw [Bool.and_eq_false_iff, Bool.and_eq_false_iff]
    exact Or.inl (Or.inr rfl)
  have unread : ∃ unread : List Bool, rvBits d.tb0.rv = unread ++ rvTested cell d := by
    unfold rvTested
    split
    · exact ⟨[], rfl⟩
    · exact ⟨(rvBits d.tb0.rv).take 1, (take_append_drop 1 _).symm⟩
  obtain ⟨unread, same⟩ := unread
  have lengths := congrArg length same
  rw [rvBits_length, length_append] at lengths
  have tested := @rvTested_length cell d
  refine ⟨bitsOf 5 d.tb0.mcsIdx ++ bitsOf cell.harqPidLen d.pid ++ [d.tb0.ndi] ++ unread, ?_, ?_⟩
  · simp only [length_append, bitsOf_length, length_singleton]
    omega
  · unfold format1AFields
    rw [gap, mode, same]
    simp [Type2Mode.bit]

theorem looksLikePdcchOrder_ordinary (alloc : d.alloc = .type2 a) (fits : d.Fits cell cfg)
    (fitsAlloc : d.alloc.Fits1A cell d.rnti) {zeros : Nat} (stale : List Bool) :
    looksLikePdcchOrder cell (cifBits cfg + 12 + cell.harqPidLen + rivNbits cell.nofPrb + zeros)
      (format1AFields cell d a ++ ([false, false] ++ (replicate zeros false ++ stale))) = true ↔
        d.seemsOrder cell ∧ replicate (cifBits cfg) false <+: stale := by
  rw [alloc] at fitsAlloc
  have riv_lt := fitsAlloc.1
  have seems : d.seemsOrder cell ↔ a.mode = .loc ∧ a.riv = 2 ^ rivNbits cell.nofPrb - 1 ∧
      rvTested cell d = replicate (rvTested cell d).length false := by
    rw [rvTested_eq_zeros_iff fits]
    unfold seemsOrder
    rw [alloc]
    simp [and_assoc]
  rw [looksLikePdcchOrder_iff, seems]
  cases mode : a.mode with
  | dist =>
    have first : (format1AFields cell d a ++ ([false, false] ++ (replicate zeros false ++ stale)))[0]? =
        some true := by
      unfold format1AFields
      rw [mode]
      rfl
    rw [first]
    simp
  | loc =>
    have gap : gapFirst cell d.rnti a.mode = false := by
      rw [mode]
      unfold gapFirst
      rw [Bool.and_eq_false_iff, Bool.and_eq_false_iff]
      exact Or.inl (Or.inr rfl)
    rw [gap, Bool.toNat_false, Nat.sub_zero] at riv_lt
    obtain ⟨front, ten, fields⟩ := @format1AFields_loc cell d a mode
    have tested := @rvTested_length cell d
    have size : cifBits cfg + 12 + cell.harqPidLen + rivNbits cell.nofPrb + zeros - 1 - (11 + rivNbits cell.nofPrb) =
        cifBits cfg + ((rvTested cell d).length + (2 + zeros)) := by omega
    have y_eq : format1AFields cell d a ++ ([false, false] ++ (replicate zeros false ++ stale)) =
        false :: (bitsOf (rivNbits cell.nofPrb) a.riv ++ (front ++
          (rvTested cell d ++ (replicate (2 + zeros) false ++ stale)))) := by
      rw [fields, ← replicate_append_replicate]
      simp only [append_assoc, cons_append]
      rfl
    have behind : (false :: (bitsOf (rivNbits cell.nofPrb) a.riv ++ (front ++
        (rvTested cell d ++ (replicate (2 + zeros) false ++ stale))))).drop (11 + rivNbits cell.nofPrb) =
        rvTested cell d ++ (replicate (2 + zeros) false ++ stale) := by
      rw [← append_assoc, ← cons_append]
      apply drop_left'
      rw [length_cons, length_append, bitsOf_length]
      omega
    have ones := @replicate_prefix_append_iff (bitsOf (rivNbits cell.nofPrb) a.riv)
      (front ++ (rvTested cell d ++ (replicate (2 + zeros) false ++ stale))) true
    rw [bitsOf_length, bitsOf_eq_replicate_true riv_lt] at ones
    rw [y_eq, behind, size, zeros_prefix_iff]
    constructor
    · rintro ⟨-, riv, -, rv, found⟩
      exact ⟨⟨rfl, ones.mp riv, rv⟩, found⟩
    · rintro ⟨⟨-, riv, rv⟩, found⟩
      exact ⟨rfl, ones.mpr riv, by omega, rv, found⟩

theorem format1ABack_eq_iff (format : d.format = .format1A) (order : d.isPdcchOrder = false)
    (user : rntiIsUser d.rnti = true) {p : Prop} :
    (format1ABack cell cfg d = d.carried cell cfg ∧ p) ↔ d.tpcPucch = 0 ∧ (cell.isTdd → d.dai = 0) ∧
      (cfg.isrRequestEnabled → (d.isrRequest && d.isrRequestPresent) = false) ∧ p := by
  unfold format1ABack DciDl.carried base
  rw [format, order, user]
  cases cell.isTdd <;> cases cfg.isrRequestEnabled <;> 
    simp [and_assoc, and_left_comm, @eq_comm _ 0 d.tpcPucch, @eq_comm _ 0 d.dai]

theorem DciDl.roundTrips_iff_user (valid : cell.IsValid) (format : d.format = .format1A)
    (order : d.isPdcchOrder = false) (user : rntiIsUser d.rnti = true) (fits : d.Fits cell cfg) :
    d.RoundTrips cell cfg ↔ d.tpcPucch = 0 ∧ (cell.isTdd → d.dai = 0) ∧
      (cfg.isrRequestEnabled → (d.isrRequest && d.isrRequestPresent) = false) ∧ ¬ d.seemsOrder cell := by
  have fitsAlloc : d.alloc.Fits1A cell d.rnti := by
    have alloc := fits.alloc
    rw [format] at alloc
    exact alloc order
  obtain ⟨a, alloc⟩ : ∃ a, d.alloc = .type2 a := by
    cases alloc : d.alloc with
    | type2 a => exact ⟨a, rfl⟩
    | _ => rw [alloc] at fitsAlloc; exact fitsAlloc.elim
  have least := (@dciFormat1ASizeof_bounds cell cfg).1
  have most := @dciFormatSizeof_le cell cfg valid .format1A
  have fields := @format1AFields_length cell d a valid
  unfold format1ALeast at least
  obtain ⟨zeros, size⟩ : ∃ zeros, dciFormatSizeof cell cfg .format1A =
      cifBits cfg + 12 + cell.harqPidLen + rivNbits cell.nofPrb + (daiBits cell + zeros) :=
    ⟨_, (Nat.add_sub_cancel' (show cifBits cfg + 12 + cell.harqPidLen + rivNbits cell.nofPrb + daiBits cell ≤
      dciFormat1ASizeof cell cfg by omega)).symm.trans (Nat.add_assoc _ _ _)⟩
  have pack := dciFormat1AsPack_user order user alloc fits
  have padded : padTo false (dciFormatSizeof cell cfg .format1A)
      (bitsOf (cifBits cfg) (if cfg.cifEnabled then d.cif else 0) ++ true ::
        (format1AFields cell d a ++ [false, false])) =
      bitsOf (cifBits cfg) (if cfg.cifEnabled then d.cif else 0) ++ true ::
        (format1AFields cell d a ++ ([false, false] ++ replicate (daiBits cell + zeros) false)) := by
    unfold padTo
    rw [append_assoc, cons_append, append_assoc]
    congr 5
    simp only [length_append, length_cons, length_nil, bitsOf_length]
    omega
  rw [padded] at pack
  generalize packed_eq : bitsOf (cifBits cfg) (if cfg.cifEnabled then d.cif else 0) ++ true ::
    (format1AFields cell d a ++ ([false, false] ++ replicate (daiBits cell + zeros) false)) = packed at pack
  have sized : packed.length = dciFormatSizeof cell cfg .format1A := by
    rw [← packed_eq]
    simp only [length_append, length_cons, length_nil, bitsOf_length, length_replicate]
    omega
  have unpack : ∀ stale, dciMsgUnpackPdsch cell cfg ⟨packed ++ stale, packed.length, d.rnti, d.format⟩ =
      ((if looksLikePdcchOrder cell (dciFormatSizeof cell cfg .format1A) (format1AFields cell d a ++
          ([false, false] ++ (replicate (daiBits cell + zeros) false ++ stale))) then
        readPdcchOrder cell cfg d.rnti (if cfg.cifEnabled then d.cif else 0) (format1AFields cell d a ++
          ([false, false] ++ (replicate (daiBits cell + zeros) false ++ stale)))
        else some (format1ABack cell cfg d, replicate zeros false ++ stale))).map Prod.fst := by
    intro stale
    have reads := readFormat1A_reads user format alloc fits fitsAlloc (replicate zeros false ++ stale)
    rw [(bitsOf_eq_replicate_false (Nat.two_pow_pos _)).mpr rfl, ← append_assoc (replicate _ _),
      replicate_append_replicate] at reads
    unfold dciMsgUnpackPdsch
    rw [format]
    rw [sized, ← packed_eq, append_assoc, cons_append, append_assoc, append_assoc,
      dciFormat1AsUnpack_eq (cif_lt fits.cif), reads]
  have looks : ∀ stale, looksLikePdcchOrder cell (dciFormatSizeof cell cfg .format1A) (format1AFields cell d a ++
      ([false, false] ++ (replicate (daiBits cell + zeros) false ++ stale))) = true ↔
        d.seemsOrder cell ∧ replicate (cifBits cfg) false <+: stale := by
    intro stale
    rw [size]
    exact looksLikePdcchOrder_ordinary alloc fits fitsAlloc stale
  have pack' : dciMsgPackPdsch cell cfg d = some (written packed) := by
    unfold dciMsgPackPdsch
    rw [format]
    exact pack
  rw [← format1ABack_eq_iff format order user, roundTrips_iff_of_pack pack' (by rw [format, sized])]
  constructor
  · intro restored
    have quiet := restored (replicate (128 - packed.length) false)
      (by rw [length_replicate]; simp only [dciMaxBits]; omega)
    have behind : replicate (cifBits cfg) false <+: replicate (128 - packed.length) false := by
      have few := @cifBits_le cfg
      refine ⟨replicate (128 - packed.length - cifBits cfg) false, ?_⟩
      rw [replicate_append_replicate]
      congr 1
      omega
    rw [unpack] at quiet
    by_cases order' : d.seemsOrder cell
    · rw [if_pos ((looks _).mpr ⟨order', behind⟩), map_fst_eq_some] at quiet
      obtain ⟨rest, quiet⟩ := quiet
      have isOrder := isPdcchOrder_of_readPdcchOrder quiet
      rw [carried_isPdcchOrder format, order] at isOrder
      cases isOrder
    · rw [if_neg fun found => order' ((looks _).mp found).1] at quiet
      exact ⟨Option.some.inj quiet, order'⟩
  · rintro ⟨back, ordinary⟩ stale -
    rw [unpack, if_neg fun found => ordinary ((looks stale).mp found).1, back]
    rfl

end Ordinary

end IsrRan.Phy
