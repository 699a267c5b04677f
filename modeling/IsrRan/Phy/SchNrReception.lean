import Mathlib.Algebra.BigOperators.Ring.Finset
import Mathlib.Algebra.Order.BigOperators.Group.Finset
import IsrRan.Phy.SchNr

namespace IsrRan.Phy
open Finset Lib Nat

section
variable {nofPrb : Nat} {schCfg : SchCfg} {tb : SchTb} {cfg : TbInfo}

theorem cbsegm_of_fillTbInfo (filled : isrranSchNrFillTbInfo nofPrb schCfg tb = .ok (some cfg)) :
    ∃ cbsegm nref, cbsegmLdpc (isrranSchNrSelectBasegraph tb.tbs tb.R) tb.tbs = .ok (some cbsegm) ∧
      cfg = fillFrom tb (isrranSchNrSelectBasegraph tb.tbs tb.R) cbsegm nref ∧
      cbsegm.c ≠ 0 ∧ cbsegm.c ≤ maxNofCbLdpc := by
  obtain ⟨segm, segmented, rest⟩ := bind_eq_ok.mp filled
  cases segm with
  | none => exact absurd (Except.ok.inj rest) (by simp)
  | some cbsegm =>
    dsimp only at rest
    split at rest
    · exact absurd (Except.ok.inj rest) (by simp)
    split at rest
    · contradiction
    obtain ⟨nref, _, rest⟩ := bind_eq_ok.mp rest
    split at rest
    · contradiction
    · refine ⟨cbsegm, nref, segmented, ?_, by assumption, by omega⟩
      exact (Option.some.inj (Except.ok.inj rest)).symm

structure Filled (tb : SchTb) (cfg : TbInfo) : Prop where
  qm : cfg.qm = isrranModBitsXSymbol tb.mod
  g : cfg.g = tb.nofBits
  nl : cfg.nl = tb.nL
  cp : cfg.cp = cfg.c
  pos : 0 < cfg.c
  le : cfg.c ≤ maxNofCbLdpc
  mask : ∀ r < cfg.c, cfg.mask.getD r false = true

theorem filled_of_fillTbInfo (filled : isrranSchNrFillTbInfo nofPrb schCfg tb = .ok (some cfg)) :
    Filled tb cfg := by
  obtain ⟨cbsegm, nref, -, rfl, ne, le⟩ := cbsegm_of_fillTbInfo filled
  refine ⟨rfl, rfl, rfl, rfl, Nat.pos_of_ne_zero ne, le, ?_⟩
  intro r lt
  have bound : r < cbsegm.c := lt
  simp [fillFrom, List.getElem?_append_left, bound]

theorem modBits_le (m : Mod) : isrranModBitsXSymbol m ≤ 8 := by cases m <;> decide

end

def unit (cfg : TbInfo) : Nat := cfg.nl * cfg.qm

def Even (cfg : TbInfo) : Prop := cfg.g + unit cfg * cfg.c ≤ 4294967296 ∨ unit cfg * cfg.c ∣ cfg.g

def sliceOf (cfg : TbInfo) (r : Nat) : Slice := ⟨r, ∑ i ∈ range r, schNrGetE cfg i, schNrGetE cfg r⟩

def Partition (cfg : TbInfo) : Prop := ∑ i ∈ range cfg.c, schNrGetE cfg i = cfg.g

namespace Filled
variable {tb : SchTb} {cfg : TbInfo}

theorem unit_le (h : Filled tb cfg) : unit cfg ≤ 64 := by
  have layers : cfg.nl ≤ 8 := h.nl ▸ tb.nL_le
  have bits : cfg.qm ≤ 8 := h.qm ▸ modBits_le tb.mod
  exact Nat.mul_le_mul layers bits

theorem unit_mul_le (h : Filled tb cfg) : unit cfg * cfg.c ≤ 2624 := Nat.mul_le_mul h.unit_le h.le

theorem g_lt (h : Filled tb cfg) : cfg.g < 4294967296 := h.g ▸ tb.nofBits_lt

theorem getE_of_unit_eq_zero (none_ : unit cfg = 0) (j : Nat) : schNrGetE cfg j = 0 := by
  have factor : cfg.nl = 0 ∨ cfg.qm = 0 ∨ cfg.cp = 0 := by
    rcases Nat.mul_eq_zero.mp none_ with nl | qm
    · exact .inl nl
    · exact .inr (.inl qm)
  exact if_pos factor

section
variable {t : Nat} (h : Filled tb cfg) (some_ : 0 < unit cfg) (whole : cfg.g = unit cfg * t)
include h some_ whole

theorem getE_eq (j : Nat) :
    schNrGetE cfg j = if j < cfg.c - t % cfg.c then unit cfg * (t / cfg.c)
      else u32 (unit cfg * ceil32 cfg.g (unit cfg * cfg.c)) := by
  have nl : cfg.nl ≠ 0 := (Nat.pos_of_mul_pos_right some_).ne'
  have qm : cfg.qm ≠ 0 := (Nat.pos_of_mul_pos_left some_).ne'
  have pos := h.pos
  have guard : ¬ (cfg.nl = 0 ∨ cfg.qm = 0 ∨ cfg.c = 0) := by omega
  have single : u32 (cfg.nl * cfg.qm) = unit cfg := u32_of_lt (Nat.lt_of_le_of_lt h.unit_le (by decide))
  have all : u32 (cfg.nl * cfg.qm * cfg.c) = unit cfg * cfg.c :=
    u32_of_lt (Nat.lt_of_le_of_lt h.unit_mul_le (by decide))
  have units : cfg.g / unit cfg = t := by rw [whole, Nat.mul_div_cancel_left t some_]
  have low : cfg.g / (unit cfg * cfg.c) = t / cfg.c := by rw [← Nat.div_div_eq_div_mul, units]
  have left : t % cfg.c < cfg.c := mod_lt t pos
  have bound : j ≤ cfg.c - t % cfg.c - 1 ↔ j < cfg.c - t % cfg.c := by omega
  rw [schNrGetE, h.cp, if_neg guard, single, all, units, low]
  exact if_congr bound rfl rfl

theorem getE_of_lt {j : Nat} (first : j < cfg.c - t % cfg.c) : schNrGetE cfg j = unit cfg * (t / cfg.c) := by
  rw [h.getE_eq some_ whole, if_pos first]

theorem getE_of_le {j : Nat} (fits : cfg.g + unit cfg * cfg.c ≤ 4294967296) (lt : j < cfg.c)
    (last : cfg.c - t % cfg.c ≤ j) : schNrGetE cfg j = unit cfg * (t / cfg.c + 1) := by
  have pos : 0 < unit cfg * cfg.c := Nat.mul_pos some_ h.pos
  have rest : t % cfg.c ≠ 0 := by omega
  have up : ceil32 cfg.g (unit cfg * cfg.c) = t / cfg.c + 1 := by
    rw [ceil32_eq_ceilDiv pos (by omega), whole, ← ceilDiv_eq_div_add_one h.pos rest]
    apply eq_of_forall_ge_iff
    intro x
    rw [ceilDiv_le_iff_le_mul pos, ceilDiv_le_iff_le_mul h.pos, Nat.mul_assoc]
    exact Nat.mul_le_mul_left_iff some_
  have larger : unit cfg * (t / cfg.c + 1) < 4294967296 := by
    have left : t % cfg.c < cfg.c := mod_lt t h.pos
    have several : unit cfg * 1 < unit cfg * cfg.c := Nat.mul_lt_mul_of_pos_left (by omega) some_
    calc unit cfg * (t / cfg.c + 1) = unit cfg * (t / cfg.c) + unit cfg * 1 := Nat.mul_add ..
      _ ≤ cfg.g + unit cfg * 1 := by
          rw [whole]
          exact Nat.add_le_add_right (Nat.mul_le_mul_left _ (Nat.div_le_self t cfg.c)) _
      _ < 4294967296 := by omega
  rw [h.getE_eq some_ whole, if_neg (Nat.not_lt.mpr last), up, u32_of_lt larger]

theorem getE_of_overflow {j : Nat} (full : 4294967296 < cfg.g + unit cfg * cfg.c)
    (last : cfg.c - t % cfg.c ≤ j) : schNrGetE cfg j = 0 := by
  have lt := h.g_lt
  have wrapped : u32 (cfg.g + (unit cfg * cfg.c - 1)) < unit cfg * cfg.c := by
    unfold u32
    omega
  rw [h.getE_eq some_ whole, if_neg (Nat.not_lt.mpr last), ceil32, div_eq_of_lt wrapped]
  rfl

omit h in
theorem mod_eq_zero (dvd : unit cfg * cfg.c ∣ cfg.g) : t % cfg.c = 0 := by
  rw [whole] at dvd
  exact mod_eq_zero_of_dvd (Nat.dvd_of_mul_dvd_mul_left some_ dvd)

theorem getE_eq_share (even : Even cfg) {j : Nat} (lt : j < cfg.c) :
    schNrGetE cfg j = unit cfg * share t cfg.c j := by
  unfold share
  split
  · exact h.getE_of_lt some_ whole (by assumption)
  · rcases even with fits | dvd
    · exact h.getE_of_le some_ whole fits lt (by omega)
    · have rest := mod_eq_zero some_ whole dvd
      omega

theorem partition_of_even (even : Even cfg) : Partition cfg := by
  have parts : ∑ i ∈ range cfg.c, schNrGetE cfg i = ∑ i ∈ range cfg.c, unit cfg * share t cfg.c i :=
    sum_congr rfl fun i hi => h.getE_eq_share some_ whole even (mem_range.mp hi)
  rw [Partition, parts, ← mul_sum, sum_share h.pos, whole]

theorem even_of_partition (partition : Partition cfg) : Even cfg := by
  by_contra uneven
  unfold Even at uneven
  have full : 4294967296 < cfg.g + unit cfg * cfg.c := by omega
  have rest : t % cfg.c ≠ 0 := by
    intro zero
    apply uneven
    rw [whole]
    exact .inr (Nat.mul_dvd_mul_left _ (dvd_of_mod_eq_zero zero))
  have parts : ∀ i ∈ range cfg.c, schNrGetE cfg i ≤ unit cfg * (t / cfg.c) := by
    intro i _
    by_cases first : i < cfg.c - t % cfg.c
    · exact (h.getE_of_lt some_ whole first).le
    · rw [h.getE_of_overflow some_ whole full (by omega)]
      exact Nat.zero_le _
  have short : cfg.g ≤ unit cfg * (cfg.c * (t / cfg.c)) := by
    calc cfg.g = ∑ i ∈ range cfg.c, schNrGetE cfg i := partition.symm
      _ ≤ ∑ _i ∈ range cfg.c, unit cfg * (t / cfg.c) := sum_le_sum parts
      _ = unit cfg * (cfg.c * (t / cfg.c)) := by
          rw [sum_const, card_range, smul_eq_mul, Nat.mul_left_comm]
  have divided := div_add_mod t cfg.c
  have less : unit cfg * (cfg.c * (t / cfg.c)) < unit cfg * t := Nat.mul_lt_mul_of_pos_left (by omega) some_
  omega

end

theorem partition_iff (h : Filled tb cfg) (dvd : unit cfg ∣ cfg.g) : Partition cfg ↔ Even cfg := by
  obtain ⟨t, whole⟩ := dvd
  rcases Nat.eq_zero_or_pos (unit cfg) with none_ | some_
  · have zero : cfg.g = 0 := by rw [whole, none_, Nat.zero_mul]
    have both : Partition cfg := by
      rw [Partition, zero]
      exact sum_eq_zero fun i _ => getE_of_unit_eq_zero none_ i
    exact iff_of_true both (.inr (zero ▸ dvd_zero _))
  · exact ⟨h.even_of_partition some_ whole, h.partition_of_even some_ whole⟩

theorem getE_mono (h : Filled tb cfg) (dvd : unit cfg ∣ cfg.g) (even : Even cfg) {i j : Nat} (le : i ≤ j)
    (lt : j < cfg.c) : schNrGetE cfg i ≤ schNrGetE cfg j := by
  obtain ⟨t, whole⟩ := dvd
  rcases Nat.eq_zero_or_pos (unit cfg) with none_ | some_
  · rw [getE_of_unit_eq_zero none_]
    exact Nat.zero_le _
  · rw [h.getE_eq_share some_ whole even (Nat.lt_of_le_of_lt le lt), h.getE_eq_share some_ whole even lt]
    exact Nat.mul_le_mul_left _ (share_mono le)

theorem initRm_of_le (h : Filled tb cfg) (dvd : unit cfg ∣ cfg.g) (even : Even cfg) {i j : Nat} (le : i ≤ j)
    (lt : j < cfg.c) (accepted : initRm (schNrGetE cfg j) tb.mod = true) : initRm (schNrGetE cfg i) tb.mod = true := by
  have smaller := h.getE_mono dvd even le lt
  have divides : isrranModBitsXSymbol tb.mod ∣ schNrGetE cfg i := by
    obtain ⟨t, whole⟩ := dvd
    rcases Nat.eq_zero_or_pos (unit cfg) with none_ | some_
    · rw [getE_of_unit_eq_zero none_]
      exact dvd_zero _
    · rw [h.getE_eq_share some_ whole even (Nat.lt_of_le_of_lt le lt), ← h.qm]
      exact Dvd.dvd.mul_right (Nat.dvd_mul_left cfg.qm cfg.nl) _
  simp only [initRm, Bool.and_eq_true, decide_eq_true_eq, beq_iff_eq] at accepted ⊢
  exact ⟨⟨smaller.trans accepted.1.1, accepted.1.2⟩, mod_eq_zero_of_dvd divides⟩

end Filled

section
variable {tb : SchTb} {cfg : TbInfo}

def WritesUpTo (tb : SchTb) (cfg : TbInfo) (k : Nat) (s : TxState) : Prop :=
  s.written = (List.range k).map (sliceOf cfg) ∧ ∀ i < k, initRm (schNrGetE cfg i) tb.mod = true

theorem encodeBlock_outcome (h : Filled tb cfg) {k : Nat} (lt : k < cfg.c) {s : TxState} (j : s.j = k)
    (outputPtr : s.outputPtr = ∑ i ∈ range k, schNrGetE cfg i) (writes : WritesUpTo tb cfg k s) :
    Outcome (fun s' => s'.j = k + 1 ∧ s'.outputPtr = ∑ i ∈ range (k + 1), schNrGetE cfg i ∧
        WritesUpTo tb cfg (k + 1) s')
      (fun s' => WritesUpTo tb cfg k s' ∧ initRm (schNrGetE cfg k) tb.mod = false)
      (encodeBlock tb cfg s k) := by
  obtain ⟨written, accepted⟩ := writes
  cases rm : initRm (schNrGetE cfg k) tb.mod with
  | false =>
    simp only [encodeBlock, h.mask k lt, j, rm]
    exact ⟨⟨written, accepted⟩, trivial⟩
  | true =>
    simp only [encodeBlock, h.mask k lt, j, rm]
    refine ⟨rfl, ?_, ?_, ?_⟩
    · rw [outputPtr, sum_range_succ]
    · rw [written, outputPtr, List.range_succ, List.map_append]
      rfl
    · intro i below
      rcases Nat.lt_succ_iff_lt_or_eq.mp below with earlier | rfl
      · exact accepted i earlier
      · exact rm

theorem schNrEncode_written (h : Filled tb cfg) {q : SoftbufferTx} (fits : q.Fits cfg) :
    ∃ k ≤ cfg.c, WritesUpTo tb cfg k (final (schNrEncode tb cfg q)) ∧
      (k < cfg.c → initRm (schNrGetE cfg k) tb.mod = false) := by
  have run := foldlM_range_outcome (f := encodeBlock tb cfg) (n := cfg.c) (b := {})
    (P := fun k s => s.j = k ∧ s.outputPtr = ∑ i ∈ range k, schNrGetE cfg i ∧ WritesUpTo tb cfg k s)
    (Q := fun s => ∃ k < cfg.c, WritesUpTo tb cfg k s ∧ initRm (schNrGetE cfg k) tb.mod = false)
    (fun k s lt before => by
      have round := encodeBlock_outcome h lt before.1 before.2.1 before.2.2
      cases step : encodeBlock tb cfg s k with
      | ok s' =>
        rw [step] at round
        exact round
      | error s' =>
        rw [step] at round
        exact ⟨k, lt, round⟩)
    ⟨rfl, by simp, by simp, by simp⟩
  rw [schNrEncode, if_pos fits]
  cases result : (List.range cfg.c).foldlM (encodeBlock tb cfg) {} with
  | ok s =>
    rw [result] at run
    exact ⟨cfg.c, le_rfl, run.2.2, fun lt => absurd lt (lt_irrefl _)⟩
  | error s =>
    rw [result] at run
    obtain ⟨k, lt, writes, refused⟩ := run
    exact ⟨k, lt.le, writes, fun _ => refused⟩

def taken (cfg : TbInfo) (cbCrc : Nat → Bool) (r : Nat) : Slice :=
  ⟨r, ∑ i ∈ range r, if cbCrc i then 0 else schNrGetE cfg i, schNrGetE cfg r⟩

def TakesUpTo (tb : SchTb) (cfg : TbInfo) (cbCrc : Nat → Bool) (k : Nat) (s : RxState) : Prop :=
  s.dematched = ((List.range k).filter (!cbCrc ·)).map (taken cfg cbCrc) ∧
    ∀ i < k, cbCrc i = false → initRm (schNrGetE cfg i) tb.mod = true

structure RxLoop (tb : SchTb) (cfg : TbInfo) (cbCrc : Nat → Bool) (k : Nat) (s : RxState) : Prop where
  j : s.j = k
  flags : ∀ i, k ≤ i → s.cbCrc i = cbCrc i
  inputPtr : s.inputPtr = ∑ i ∈ range k, if cbCrc i then 0 else schNrGetE cfg i
  takes : TakesUpTo tb cfg cbCrc k s

def Left (tb : SchTb) (cfg : TbInfo) (cbCrc : Nat → Bool) (ldpc : Nat → Int) (s : RxState) : Prop :=
  (∃ k < cfg.c, TakesUpTo tb cfg cbCrc k s ∧ initRm (schNrGetE cfg k) tb.mod = false) ∨
    ∃ k < cfg.c, TakesUpTo tb cfg cbCrc (k + 1) s ∧ ldpc k < 0

variable {cbCrc : Nat → Bool} {ldpc : Nat → Int}

theorem decodeBlock_outcome (h : Filled tb cfg) {k : Nat} (lt : k < cfg.c) {s : RxState}
    (loop : RxLoop tb cfg cbCrc k s) :
    Outcome (RxLoop tb cfg cbCrc (k + 1)) (Left tb cfg cbCrc ldpc) (decodeBlock tb cfg ldpc s k) := by
  obtain ⟨j, flags, inputPtr, dematched, accepted⟩ := loop
  have flag : s.cbCrc k = cbCrc k := flags k le_rfl
  cases decoded : cbCrc k with
  | true =>
    simp only [decodeBlock, h.mask k lt, flag, decoded]
    refine ⟨by rw [← j], fun i below => flags i (le_of_succ_le below), ?_, ?_, ?_⟩
    · rw [sum_range_succ, decoded]
      exact inputPtr
    · rw [List.range_succ, List.filter_append, List.filter_singleton, decoded]
      simpa using dematched
    · intro i below not
      rcases Nat.lt_succ_iff_lt_or_eq.mp below with earlier | rfl
      · exact accepted i earlier not
      · rw [decoded] at not
        contradiction
  | false =>
    have next : s.dematched ++ [⟨k, s.inputPtr, schNrGetE cfg k⟩] =
        ((List.range (k + 1)).filter (!cbCrc ·)).map (taken cfg cbCrc) := by
      rw [List.range_succ, List.filter_append, List.filter_singleton, decoded, dematched, inputPtr]
      simp [taken]
    cases rm : initRm (schNrGetE cfg k) tb.mod with
    | false =>
      simp only [decodeBlock, h.mask k lt, flag, decoded, j, rm]
      exact .inl ⟨k, lt, ⟨dematched, accepted⟩, rm⟩
    | true =>
      have all : ∀ i < k + 1, cbCrc i = false → initRm (schNrGetE cfg i) tb.mod = true := by
        intro i below not
        rcases Nat.lt_succ_iff_lt_or_eq.mp below with earlier | rfl
        · exact accepted i earlier not
        · exact rm
      simp only [decodeBlock, h.mask k lt, flag, decoded, j, rm]
      by_cases failed : ldpc k < 0
      · rw [if_pos failed]
        exact .inr ⟨k, lt, ⟨next, all⟩, failed⟩
      · rw [if_neg failed]
        refine ⟨rfl, ?_, ?_, next, all⟩
        · intro i below
          have other : i ≠ k := by omega
          change Function.update s.cbCrc k _ i = cbCrc i
          rw [Function.update_of_ne other, flags i (le_of_succ_le below)]
        · change s.inputPtr + _ = _
          rw [sum_range_succ, decoded, inputPtr]
          rfl

theorem schNrDecode_dematched (ldpc : Nat → Int) (h : Filled tb cfg) {q : SoftbufferRx} (fits : q.Fits cfg) :
    ∃ k ≤ cfg.c, TakesUpTo tb cfg q.cbCrc k (final (schNrDecode tb cfg q ldpc)) ∧
      ((∀ i, 0 ≤ ldpc i) → k < cfg.c → initRm (schNrGetE cfg k) tb.mod = false) := by
  have run := foldlM_range_outcome (f := decodeBlock tb cfg ldpc) (n := cfg.c) (b := { cbCrc := q.cbCrc })
    (fun k s lt loop => decodeBlock_outcome h lt loop)
    ⟨rfl, fun _ _ => rfl, by simp, by simp, by simp⟩
  rw [schNrDecode, if_pos fits]
  cases result : (List.range cfg.c).foldlM (decodeBlock tb cfg ldpc) { cbCrc := q.cbCrc } with
  | ok s =>
    rw [result] at run
    exact ⟨cfg.c, le_rfl, run.takes, fun _ lt => absurd lt (lt_irrefl _)⟩
  | error s =>
    rw [result] at run
    rcases run with ⟨k, lt, takes, refused⟩ | ⟨k, lt, takes, failed⟩
    · exact ⟨k, lt.le, takes, fun _ _ => refused⟩
    · exact ⟨k + 1, lt, takes, fun never => absurd (never k) (not_le.mpr failed)⟩

end

/-- Every bit is in one slice, and each block is taken from the slice that was written for it. -/
structure RightBits (tb : SchTb) (cfg : TbInfo) (qt : SoftbufferTx) (q : SoftbufferRx) : Prop where
  partition : Partition cfg
  slices : ∀ ldpc, ∀ s ∈ (final (schNrDecode tb cfg q ldpc)).dematched,
    s = sliceOf cfg s.cb ∧ s ∈ (final (schNrEncode tb cfg qt)).written

def NoneSkipped (tb : SchTb) (cfg : TbInfo) (cbCrc : Nat → Bool) : Prop :=
  ∀ r < cfg.c, cbCrc r = false → initRm (schNrGetE cfg r) tb.mod = true →
    ∀ i < r, cbCrc i = true → schNrGetE cfg i = 0

section
variable {tb : SchTb} {cfg : TbInfo} {cbCrc : Nat → Bool}

theorem taken_eq_sliceOf_iff {r : Nat} :
    taken cfg cbCrc r = sliceOf cfg r ↔ ∀ i < r, cbCrc i = true → schNrGetE cfg i = 0 := by
  have starts : taken cfg cbCrc r = sliceOf cfg r ↔
      (∑ i ∈ range r, if cbCrc i then 0 else schNrGetE cfg i) = ∑ i ∈ range r, schNrGetE cfg i := by
    simp [taken, sliceOf]
  have below : ∀ i ∈ range r, (if cbCrc i then 0 else schNrGetE cfg i) ≤ schNrGetE cfg i := by
    intro i _
    split
    · exact Nat.zero_le _
    · exact le_rfl
  rw [starts, sum_eq_sum_iff_of_le below]
  constructor
  · intro same i lt decoded
    have eq := same i (mem_range.mpr lt)
    rw [if_pos decoded] at eq
    exact eq.symm
  · intro zero i mem
    split
    · exact (zero i (mem_range.mp mem) (by assumption)).symm
    · rfl

theorem TakesUpTo.mem {k : Nat} {s : RxState} (takes : TakesUpTo tb cfg cbCrc k s) {slice : Slice} :
    slice ∈ s.dematched ↔ ∃ r < k, cbCrc r = false ∧ taken cfg cbCrc r = slice := by
  rw [takes.1]
  simp [and_assoc]

theorem rightBits_iff (h : Filled tb cfg) (dvd : unit cfg ∣ cfg.g) {qt : SoftbufferTx} (fitsTx : qt.Fits cfg)
    {q : SoftbufferRx} (fitsRx : q.Fits cfg) :
    RightBits tb cfg qt q ↔ Even cfg ∧ NoneSkipped tb cfg q.cbCrc := by
  constructor
  · intro right
    have even := (h.partition_iff dvd).mp right.partition
    refine ⟨even, ?_⟩
    intro r lt pending accepted
    -- a decoder that fails on no block shows all blocks up to the first refused size
    obtain ⟨k, -, takes, stop⟩ := schNrDecode_dematched (fun _ => 0) h fitsRx
    have reached : r < k := by
      by_contra late
      have refused := stop (fun _ => le_rfl) (by omega)
      have fine := h.initRm_of_le dvd even (not_lt.mp late) lt accepted
      rw [refused] at fine
      contradiction
    have mem := takes.mem.mpr ⟨r, reached, pending, rfl⟩
    exact taken_eq_sliceOf_iff.mp (right.slices _ _ mem).1
  · rintro ⟨even, noneSkipped⟩
    refine ⟨(h.partition_iff dvd).mpr even, ?_⟩
    intro ldpc slice mem
    obtain ⟨k, le, takes, -⟩ := schNrDecode_dematched ldpc h fitsRx
    obtain ⟨r, lt, pending, rfl⟩ := takes.mem.mp mem
    have inside : r < cfg.c := Nat.lt_of_lt_of_le lt le
    have accepted := takes.2 r lt pending
    have same := taken_eq_sliceOf_iff.mpr (noneSkipped r inside pending accepted)
    rw [same]
    refine ⟨rfl, ?_⟩
    obtain ⟨k', -, writes, stop⟩ := schNrEncode_written h fitsTx
    have reached : r < k' := by
      by_contra late
      have refused := stop (by omega)
      have fine := h.initRm_of_le dvd even (not_lt.mp late) inside accepted
      rw [refused] at fine
      contradiction
    rw [writes.1]
    exact List.mem_map.mpr ⟨r, List.mem_range.mpr reached, rfl⟩

end

structure Reception where
  tb : SchTb
  ldpc : Nat → Int

def receive (nofPrb : Nat) (schCfg : SchCfg) (q : SoftbufferRx) (x : Reception) : SoftbufferRx :=
  match isrranSchNrFillTbInfo nofPrb schCfg x.tb with
  | .ok (some cfg) => { q with cbCrc := (final (schNrDecode x.tb cfg q x.ldpc)).cbCrc }
  | _ => q

theorem reception_rightBits_iff (nofPrb : Nat) (schCfg : SchCfg) (start : SoftbufferRx) (before : List Reception)
    (tb : SchTb) (cfg : TbInfo) (filled : isrranSchNrFillTbInfo nofPrb schCfg tb = .ok (some cfg))
    (dvd : tb.nL * isrranModBitsXSymbol tb.mod ∣ tb.nofBits) (qt : SoftbufferTx) (fitsTx : qt.Fits cfg)
    (fitsRx : start.Fits cfg) :
    let q := before.foldl (receive nofPrb schCfg) start
    RightBits tb cfg qt q ↔ Even cfg ∧ NoneSkipped tb cfg q.cbCrc := by
  have h := filled_of_fillTbInfo filled
  have units : unit cfg ∣ cfg.g := by
    rw [unit, h.nl, h.qm, h.g]
    exact dvd
  have sizes : ∀ q : SoftbufferRx, q.Fits cfg → (before.foldl (receive nofPrb schCfg) q).Fits cfg := by
    clear dvd units h filled
    induction before with
    | nil => exact fun q fits => fits
    | cons x xs ih =>
      intro q fits
      apply ih
      unfold receive
      split <;> exact fits
  exact rightBits_iff h units fitsTx (sizes start fitsRx)

def twoBlocks : SchTb := ⟨.qpsk, 1, 8456, 1 / 2, 12000, by decide, by decide⟩

def twoBlocksInfo : TbInfo :=
  { bg := .bg1, qm := 2, g := 12000, a := 8456, lTb := 24, lCb := 24, b := 8480, bp := 8528, kp := 4264, kr := 4576,
    f := 312, nref := 25344, z := 208, nl := 1,
    mask := List.replicate 2 true ++ List.replicate 39 false, c := 2, cp := 2 }

def roomyTx : SoftbufferTx := ⟨41, 25344⟩
def firstDecoded : SoftbufferRx := ⟨41, 25344, fun r => r == 0⟩

theorem fillTbInfo_twoBlocks :
    isrranSchNrFillTbInfo 106 ⟨.qam64, false⟩ twoBlocks = .ok (some twoBlocksInfo) := by
  decide +kernel

theorem secondBlock_wrongBits :
    isrranSchNrFillTbInfo 106 ⟨.qam64, false⟩ twoBlocks = .ok (some twoBlocksInfo) ∧
      (final (schNrDecode twoBlocks twoBlocksInfo firstDecoded fun _ => 0)).dematched = [⟨1, 0, 6000⟩] ∧
      (final (schNrEncode twoBlocks twoBlocksInfo roomyTx)).written = [⟨0, 0, 6000⟩, ⟨1, 6000, 6000⟩] ∧
      ¬ RightBits twoBlocks twoBlocksInfo roomyTx firstDecoded := by
  have dematched : (final (schNrDecode twoBlocks twoBlocksInfo firstDecoded fun _ => 0)).dematched =
      [⟨1, 0, 6000⟩] := by decide
  have written : (final (schNrEncode twoBlocks twoBlocksInfo roomyTx)).written =
      [⟨0, 0, 6000⟩, ⟨1, 6000, 6000⟩] := by decide
  refine ⟨fillTbInfo_twoBlocks, dematched, written, ?_⟩
  intro right
  have mem := (right.slices (fun _ => 0) ⟨1, 0, 6000⟩ (by simp [dematched])).2
  rw [written] at mem
  exact absurd mem (by decide)

theorem reception_rightBits_iff_twoBlocks :
    RightBits twoBlocks twoBlocksInfo roomyTx ⟨41, 25344, fun _ => false⟩ ↔
      Even twoBlocksInfo ∧ NoneSkipped twoBlocks twoBlocksInfo fun _ => false :=
  reception_rightBits_iff 106 ⟨.qam64, false⟩ ⟨41, 25344, fun _ => false⟩ [] twoBlocks twoBlocksInfo
    fillTbInfo_twoBlocks (by decide) roomyTx (by decide) (by decide)

end IsrRan.Phy
