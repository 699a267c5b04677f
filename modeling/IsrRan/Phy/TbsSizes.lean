import IsrRan.Phy.SchNrReception

namespace IsrRan.Phy
open Finset Lib

/-! The segmentation of a size that the blocks share out evenly. -/

def blocksOf (bg : Basegraph) (b : Nat) : Nat := if b ≤ bg.maxLenCb then 1 else b ⌈/⌉ (bg.maxLenCb - 24)

def cbCrcLen (blocks : Nat) : Nat := if blocks > 1 then 24 else 0

theorem lt_ceilDiv_iff {size limit k : Nat} (pos : 0 < limit) : k < size ⌈/⌉ limit ↔ limit * k < size := by
  rw [← not_le, ceilDiv_le_iff_le_mul pos, not_le]

section
variable {bg : Basegraph} {b : Nat}

theorem maxLenCb_bounds (bg : Basegraph) : 3840 ≤ bg.maxLenCb ∧ bg.maxLenCb ≤ 8448 := by
  cases bg <;> decide

theorem blocksOf_single (h : b ≤ bg.maxLenCb) : blocksOf bg b = 1 := if_pos h

theorem blocksOf_several (h : bg.maxLenCb < b) :
    blocksOf bg b = b ⌈/⌉ (bg.maxLenCb - 24) ∧ 1 < blocksOf bg b ∧
      b ≤ (bg.maxLenCb - 24) * blocksOf bg b ∧ (bg.maxLenCb - 24) * (blocksOf bg b - 1) < b := by
  have limits := maxLenCb_bounds bg
  have pos : 0 < bg.maxLenCb - 24 := by omega
  have eq : blocksOf bg b = b ⌈/⌉ (bg.maxLenCb - 24) := if_neg (not_le.mpr h)
  have several : 1 < blocksOf bg b := by
    rw [eq, lt_ceilDiv_iff pos]
    omega
  refine ⟨eq, several, ?_, ?_⟩
  · rw [eq, ← ceilDiv_le_iff_le_mul pos]
  · rw [← lt_ceilDiv_iff pos]
    omega

theorem blocksOf_pos : 0 < blocksOf bg b := by
  by_cases h : b ≤ bg.maxLenCb
  · rw [blocksOf_single h]
    exact Nat.one_pos
  · have several := (blocksOf_several (not_le.mp h)).2.1
    omega

theorem crcBits_lt (small : b ≤ 4240000000) :
    b + blocksOf bg b * cbCrcLen (blocksOf bg b) < 4294967296 := by
  have limits := maxLenCb_bounds bg
  by_cases h : b ≤ bg.maxLenCb
  · rw [blocksOf_single h, cbCrcLen, if_neg (by decide)]
    omega
  · obtain ⟨-, several, -, above⟩ := blocksOf_several (not_le.mp h)
    have fewer : 3816 * (blocksOf bg b - 1) < b :=
      Nat.lt_of_le_of_lt (Nat.mul_le_mul_right _ (by omega)) above
    rw [cbCrcLen, if_pos several]
    omega

theorem cbsegmCbSize_eq (small : b ≤ 4240000000) :
    cbsegmCbSize b bg.maxLenCb = (blocksOf bg b, b + blocksOf bg b * cbCrcLen (blocksOf bg b)) := by
  have limits := maxLenCb_bounds bg
  by_cases h : b ≤ bg.maxLenCb
  · rw [cbsegmCbSize, if_pos h, blocksOf_single h]
    rfl
  · obtain ⟨eq, several, -, above⟩ := blocksOf_several (not_le.mp h)
    have count : ceil32 b (bg.maxLenCb - 24) = blocksOf bg b := by
      rw [ceil32_eq_ceilDiv (by omega) (by omega), eq]
    have all := @crcBits_lt bg b small
    rw [cbCrcLen, if_pos several] at all
    have crc : u32 (24 * blocksOf bg b) = blocksOf bg b * 24 := by
      rw [u32_of_lt (by omega), Nat.mul_comm]
    rw [cbsegmCbSize, if_neg h]
    dsimp only
    rw [count, crc, u32_of_lt (by omega), cbCrcLen, if_pos several]

def cbSize (bg : Basegraph) (b : Nat) : Nat := b / blocksOf bg b + cbCrcLen (blocksOf bg b)

theorem cbSize_eq : (b + blocksOf bg b * cbCrcLen (blocksOf bg b)) / blocksOf bg b = cbSize bg b := by
  rw [cbSize, Nat.add_mul_div_left _ _ blocksOf_pos]

theorem cbSize_le : cbSize bg b ≤ bg.maxLenCb := by
  have limits := maxLenCb_bounds bg
  by_cases h : b ≤ bg.maxLenCb
  · rw [cbSize, blocksOf_single h, Nat.div_one]
    exact h
  · obtain ⟨-, several, covered, -⟩ := blocksOf_several (not_le.mp h)
    have part : b / blocksOf bg b ≤ bg.maxLenCb - 24 := by
      rw [Nat.div_le_iff_le_mul_add_pred blocksOf_pos, Nat.mul_comm]
      exact covered.trans (Nat.le_add_right _ _)
    rw [cbSize, cbCrcLen, if_pos several]
    omega

theorem kb_bounds : 6 ≤ cbsegmLdpcKb bg b ∧ cbsegmLdpcKb bg b ≤ bg.k := by
  cases bg with
  | bg1 => exact ⟨Nat.le_of_ble_eq_true rfl, le_rfl⟩
  | bg2 =>
    change 6 ≤ (if b > 640 then 10 else if b > 560 then 9 else if b > 192 then 8 else 6) ∧
      (if b > 640 then 10 else if b > 560 then 9 else if b > 192 then 8 else 6) ≤ 10
    grind

theorem cbSize_le_kb : cbSize bg b ≤ cbsegmLdpcKb bg b * maxLiftsize := by
  cases bg with
  | bg1 =>
    have reach : Basegraph.bg1.maxLenCb ≤ 22 * maxLiftsize := by decide
    exact cbSize_le.trans reach
  | bg2 =>
    by_cases h : 640 < b
    · rw [cbsegmLdpcKb, if_pos h]
      exact cbSize_le.trans (by decide)
    · have single : b ≤ Basegraph.bg2.maxLenCb := (not_lt.mp h).trans (by decide)
      rw [cbSize, blocksOf_single single, Nat.div_one]
      calc b ≤ 6 * maxLiftsize := (not_lt.mp h).trans (by decide)
        _ ≤ cbsegmLdpcKb .bg2 b * maxLiftsize := Nat.mul_le_mul_right _ kb_bounds.1

end

def segmented (bg : Basegraph) (tbs z i : Nat) : CbSegm :=
  let l := cbsegmLdpcL tbs
  let c := blocksOf bg (tbs + l)
  { tbs := tbs, lTb := l, lCb := cbCrcLen c, c := c, f := u32 (z * bg.k * c), c1 := c, k1 := z * bg.k, k1Idx := i,
    z := z }

theorem cbsegmLdpc_spec {bg : Basegraph} {tbs : Nat} (pos : 0 < tbs) (small : tbs + cbsegmLdpcL tbs ≤ 4240000000) :
    ∃ z i, cbsegmLdpc bg tbs = .ok (some (segmented bg tbs z i)) ∧ IsLiftingSize z ∧
      cbSize bg (tbs + cbsegmLdpcL tbs) ≤ cbsegmLdpcKb bg (tbs + cbsegmLdpcL tbs) * z ∧
      ∀ z', IsLiftingSize z' →
        cbSize bg (tbs + cbsegmLdpcL tbs) ≤ cbsegmLdpcKb bg (tbs + cbsegmLdpcL tbs) * z' → z ≤ z' := by
  have limits := maxLenCb_bounds bg
  have total : u32 (tbs + cbsegmLdpcL tbs) = tbs + cbsegmLdpcL tbs := u32_of_lt (by omega)
  have sizes : cbsegmCbSize (tbs + cbsegmLdpcL tbs) bg.maxLenCb = _ := cbsegmCbSize_eq small
  have kb : cbsegmLdpcKb bg (tbs + cbsegmLdpcL tbs) ≤ 22 := kb_bounds.2.trans (by cases bg <;> decide)
  have size : cbSize bg (tbs + cbsegmLdpcL tbs) ≤ bg.maxLenCb := cbSize_le
  obtain ⟨z, i, found, lifting, enough, least⟩ :=
    @cbsegmLdpcSelectLs_spec (cbSize bg (tbs + cbsegmLdpcL tbs)) (cbsegmLdpcKb bg (tbs + cbsegmLdpcL tbs))
      (Nat.lt_of_lt_of_le (by decide) kb_bounds.1) (by omega) cbSize_le_kb
  refine ⟨z, i, ?_, lifting, enough, least⟩
  unfold cbsegmLdpc
  rw [if_neg pos.ne']
  dsimp only
  rw [total, sizes, if_neg blocksOf_pos.ne']
  rw [cbSize_eq, found]
  rfl

/-! Reading a transport block in segments. -/

section
variable {tb : SchTb} {cfg : TbInfo}

theorem encodeBlock_segments {k : Nat} {s s' : TxState} (step : encodeBlock tb cfg s k = .ok s') :
    s'.segments = s.segments ++ [(s.inputPtr, cbLen cfg k)] ∧ s'.inputPtr = s.inputPtr + cbLen cfg k / 8 := by
  unfold encodeBlock at step
  dsimp only at step
  split at step
  · split at step
    · obtain rfl := Except.ok.inj step
      exact ⟨rfl, rfl⟩
    · contradiction
  · obtain rfl := Except.ok.inj step
    exact ⟨rfl, rfl⟩

theorem schNrEncode_segments {q : SoftbufferTx} {s : TxState} (run : schNrEncode tb cfg q = .ok s) :
    (s.segments.map Prod.snd).sum = ∑ i ∈ range cfg.c, cbLen cfg i ∧
      s.inputPtr = ∑ i ∈ range cfg.c, cbLen cfg i / 8 := by
  have outcome := foldlM_range_outcome (f := encodeBlock tb cfg) (n := cfg.c) (b := {}) (Q := fun _ => True)
    (P := fun k s => (s.segments.map Prod.snd).sum = ∑ i ∈ range k, cbLen cfg i ∧
      s.inputPtr = ∑ i ∈ range k, cbLen cfg i / 8)
    (fun k s _ before => by
      cases step : encodeBlock tb cfg s k with
      | error e => trivial
      | ok s' =>
        obtain ⟨segments, inputPtr⟩ := encodeBlock_segments step
        change (s'.segments.map Prod.snd).sum = _ ∧ s'.inputPtr = _
        rw [segments, inputPtr, sum_range_succ, sum_range_succ, ← before.1, ← before.2]
        simp)
    (by simp)
  unfold schNrEncode at run
  split at run
  · rw [run] at outcome
    exact outcome
  · contradiction

theorem cbLen_eq {q : Nat} (pos : 0 < cfg.c) (count : cfg.c < 4294967296) (kp : cfg.kp = q + cfg.lCb)
    (small : cfg.kp < 4294967296) (holds : cfg.lTb ≤ q) (r : Nat) :
    cbLen cfg r = if r = cfg.c - 1 then q - cfg.lTb else q := by
  have payload : sub32 cfg.kp cfg.lCb = q := by
    rw [sub32_of_le (by omega) small]
    omega
  rw [cbLen, payload, sub32_of_le (by omega) count, sub32_of_le holds (by omega)]

theorem sum_cbLen {q : Nat} (pos : 0 < cfg.c) (count : cfg.c < 4294967296) (kp : cfg.kp = q + cfg.lCb)
    (small : cfg.kp < 4294967296) (holds : cfg.lTb ≤ q) :
    ∑ i ∈ range cfg.c, cbLen cfg i = cfg.c * q - cfg.lTb := by
  have len := cbLen_eq pos count kp small holds
  obtain ⟨n, last⟩ : ∃ n, cfg.c = n + 1 := ⟨cfg.c - 1, by omega⟩
  have front : ∑ i ∈ range n, cbLen cfg i = ∑ _i ∈ range n, q := by
    apply sum_congr rfl
    intro i mem
    have earlier : i ≠ cfg.c - 1 := by
      have lt := mem_range.mp mem
      omega
    rw [len, if_neg earlier]
  rw [last, sum_range_succ, front, sum_const, card_range, smul_eq_mul, len, if_pos (by omega), Nat.succ_mul]
  omega

theorem sum_cbLen_div {n : Nat} (bytes : ∀ i, 8 ∣ cbLen cfg i) :
    8 * ∑ i ∈ range n, cbLen cfg i / 8 = ∑ i ∈ range n, cbLen cfg i := by
  rw [mul_sum]
  apply sum_congr rfl
  intro i _
  exact Nat.mul_div_cancel' (bytes i)

end

structure SegmentsEvenly (tb : SchTb) (blocks : Nat) (cfg : TbInfo) : Prop where
  bg : cfg.bg = isrranSchNrSelectBasegraph tb.tbs tb.R
  bytes : 8 ∣ tb.tbs
  whole : cfg.c * cfg.kp = tb.tbs + cfg.lTb + cfg.c * cfg.lCb
  kpBytes : 8 ∣ cfg.kp
  kp_le : cfg.kp ≤ cfg.kr
  kr : cfg.kr = cfg.bg.k * cfg.z
  lifting : IsLiftingSize cfg.z
  enough : cfg.kp ≤ cbsegmLdpcKb cfg.bg cfg.b * cfg.z
  least : ∀ z, IsLiftingSize z → cfg.kp ≤ cbsegmLdpcKb cfg.bg cfg.b * z → cfg.z ≤ z
  count : cfg.c = blocks
  consumed : ∀ q s, schNrEncode tb cfg q = .ok s → (s.segments.map Prod.snd).sum = tb.tbs ∧ 8 * s.inputPtr = tb.tbs

structure EvenSize (bg : Basegraph) (tbs : Nat) : Prop where
  pos : 0 < tbs
  small : tbs + cbsegmLdpcL tbs ≤ 4240000000
  bytes : 8 * blocksOf bg (tbs + cbsegmLdpcL tbs) ∣ tbs + cbsegmLdpcL tbs

theorem cbsegmLdpcL_cases (tbs : Nat) : cbsegmLdpcL tbs = 16 ∨ cbsegmLdpcL tbs = 24 := by
  unfold cbsegmLdpcL
  split
  · exact .inl rfl
  · exact .inr rfl

theorem nPrbLbrm_sample (nofPrb : Nat) :
    ∃ n ∈ [0, 67, 108, 136, 163, 218], schNrNPrbLbrm nofPrb = schNrNPrbLbrm n := by
  unfold schNrNPrbLbrm
  split
  · exact ⟨0, by simp⟩
  split
  · exact ⟨0, by simp⟩
  split
  · exact ⟨67, by simp⟩
  split
  · exact ⟨108, by simp⟩
  split
  · exact ⟨136, by simp⟩
  split
  · exact ⟨163, by simp⟩
  · exact ⟨218, by simp⟩

theorem schNrNref_samples :
    ∀ n ∈ [0, 67, 108, 136, 163, 218], ∀ t ∈ [McsTable.qam64, .qam256, .qam64LowSe],
      (schNrNref n t 4).isOk = true := by
  decide +kernel

theorem nrefOf_ok (nofPrb : Nat) (schCfg : SchCfg) : ∃ n, nrefOf nofPrb schCfg = .ok n := by
  unfold nrefOf
  split
  · obtain ⟨n, mem, same⟩ := nPrbLbrm_sample nofPrb
    have table : schCfg.mcsTable ∈ [McsTable.qam64, .qam256, .qam64LowSe] := by
      cases schCfg.mcsTable <;> decide
    have ok := schNrNref_samples n mem schCfg.mcsTable table
    have eq : schNrNref nofPrb schCfg.mcsTable 4 = schNrNref n schCfg.mcsTable 4 := by
      unfold schNrNref
      rw [same]
    rw [eq]
    cases run : schNrNref n schCfg.mcsTable 4 with
    | ok value => exact ⟨_, rfl⟩
    | error fault =>
      rw [run] at ok
      contradiction
  · exact ⟨_, rfl⟩

structure SmallestLifting (bg : Basegraph) (b z : Nat) : Prop where
  lifting : IsLiftingSize z
  enough : cbSize bg b ≤ cbsegmLdpcKb bg b * z
  least : ∀ z', IsLiftingSize z' → cbSize bg b ≤ cbsegmLdpcKb bg b * z' → z ≤ z'

section
variable {nofPrb : Nat} {schCfg : SchCfg} {tb : SchTb} {bg : Basegraph}

theorem fillTbInfo_spec (selected : isrranSchNrSelectBasegraph tb.tbs tb.R = bg) (even : EvenSize bg tb.tbs) :
    ∃ z i nref, SmallestLifting bg (tb.tbs + cbsegmLdpcL tb.tbs) z ∧
      isrranSchNrFillTbInfo nofPrb schCfg tb =
        (if maxNofCbLdpc < blocksOf bg (tb.tbs + cbsegmLdpcL tb.tbs) then .error .undefinedBehaviour
        else .ok (some (fillFrom tb bg (segmented bg tb.tbs z i) nref))) := by
  obtain ⟨z, i, segments, lifting, enough, least⟩ := @cbsegmLdpc_spec bg _ even.pos even.small
  obtain ⟨nref, ok⟩ := nrefOf_ok nofPrb schCfg
  refine ⟨z, i, nref, ⟨lifting, enough, least⟩, ?_⟩
  have fits : ¬ z > maxLiftsize := not_lt.mpr lifting.le
  unfold isrranSchNrFillTbInfo
  dsimp only
  rw [selected, segments, ok]
  change (if z > maxLiftsize then _ else if blocksOf _ _ = 0 then _ else _) = _
  rw [if_neg fits, if_neg blocksOf_pos.ne']
  rfl

variable {z i nref : Nat}

theorem fillFrom_sizes (even : EvenSize bg tb.tbs) :
    (fillFrom tb bg (segmented bg tb.tbs z i) nref).b = tb.tbs + cbsegmLdpcL tb.tbs ∧
      (fillFrom tb bg (segmented bg tb.tbs z i) nref).kp = cbSize bg (tb.tbs + cbsegmLdpcL tb.tbs) := by
  have small := even.small
  have all := @crcBits_lt bg _ small
  have total : u32 (tb.tbs + cbsegmLdpcL tb.tbs) = tb.tbs + cbsegmLdpcL tb.tbs := u32_of_lt (by omega)
  refine ⟨total, ?_⟩
  change u32 (u32 (tb.tbs + cbsegmLdpcL tb.tbs) + u32 (cbCrcLen _ * blocksOf bg _)) / blocksOf bg _ = _
  rw [total, Nat.mul_comm (cbCrcLen _), u32_of_lt (n := blocksOf _ _ * _) (by omega), u32_of_lt all]
  exact cbSize_eq

theorem parts_of_even (even : EvenSize bg tb.tbs) :
    ∃ q, blocksOf bg (tb.tbs + cbsegmLdpcL tb.tbs) * q = tb.tbs + cbsegmLdpcL tb.tbs ∧ 8 ∣ q ∧
      cbsegmLdpcL tb.tbs ≤ q ∧
      cbSize bg (tb.tbs + cbsegmLdpcL tb.tbs) = q + cbCrcLen (blocksOf bg (tb.tbs + cbsegmLdpcL tb.tbs)) := by
  obtain ⟨k, parts⟩ := even.bytes
  have limits := maxLenCb_bounds bg
  have crcs := cbsegmLdpcL_cases tb.tbs
  have eq : blocksOf bg (tb.tbs + cbsegmLdpcL tb.tbs) * (8 * k) = tb.tbs + cbsegmLdpcL tb.tbs := by
    calc blocksOf bg (tb.tbs + cbsegmLdpcL tb.tbs) * (8 * k) = 8 * blocksOf bg (tb.tbs + cbsegmLdpcL tb.tbs) * k := by
          rw [Nat.mul_left_comm, Nat.mul_assoc]
      _ = tb.tbs + cbsegmLdpcL tb.tbs := parts.symm
  refine ⟨8 * k, eq, Nat.dvd_mul_right 8 k, ?_, ?_⟩
  · by_cases h : tb.tbs + cbsegmLdpcL tb.tbs ≤ bg.maxLenCb
    · rw [blocksOf_single h] at eq
      omega
    · obtain ⟨-, several, -, above⟩ := blocksOf_several (not_le.mp h)
      have fewer : 3816 * (blocksOf bg (tb.tbs + cbsegmLdpcL tb.tbs) - 1) < tb.tbs + cbsegmLdpcL tb.tbs :=
        Nat.lt_of_le_of_lt (Nat.mul_le_mul_right _ (by omega)) above
      generalize blocksOf bg (tb.tbs + cbsegmLdpcL tb.tbs) = c at *
      by_contra short
      have few : c * (8 * k) ≤ c * 24 := Nat.mul_le_mul_left _ (by omega)
      omega
  · rw [cbSize]
    congr 1
    exact Nat.div_eq_of_eq_mul_right blocksOf_pos eq.symm

theorem segmentsEvenly_of_even (selected : isrranSchNrSelectBasegraph tb.tbs tb.R = bg)
    (even : EvenSize bg tb.tbs) (smallest : SmallestLifting bg (tb.tbs + cbsegmLdpcL tb.tbs) z) :
    SegmentsEvenly tb (blocksOf bg (tb.tbs + cbsegmLdpcL tb.tbs))
      (fillFrom tb bg (segmented bg tb.tbs z i) nref) := by
  obtain ⟨b, kp⟩ := @fillFrom_sizes tb bg z i nref even
  obtain ⟨q, parts, bytes, holds, size⟩ := parts_of_even even
  generalize filled : fillFrom tb bg (segmented bg tb.tbs z i) nref = cfg at b kp
  have bg_eq : cfg.bg = bg := filled ▸ rfl
  have c : cfg.c = blocksOf bg (tb.tbs + cbsegmLdpcL tb.tbs) := filled ▸ rfl
  have lTb : cfg.lTb = cbsegmLdpcL tb.tbs := filled ▸ rfl
  have lCb : cfg.lCb = cbCrcLen (blocksOf bg (tb.tbs + cbsegmLdpcL tb.tbs)) := filled ▸ rfl
  have kr : cfg.kr = z * bg.k := filled ▸ rfl
  have z_eq : cfg.z = z := filled ▸ rfl
  have pos : 0 < cfg.c := c ▸ blocksOf_pos
  have small := even.small
  have crcs := cbsegmLdpcL_cases tb.tbs
  have limits := maxLenCb_bounds bg
  have crc : 8 ∣ cbCrcLen (blocksOf bg (tb.tbs + cbsegmLdpcL tb.tbs)) := by
    unfold cbCrcLen
    split <;> decide
  have atMost : cbSize bg (tb.tbs + cbsegmLdpcL tb.tbs) ≤ bg.maxLenCb := cbSize_le
  have kpq : cfg.kp = q + cfg.lCb := by rw [kp, size, lCb]
  have count : cfg.c < 4294967296 := by
    have one : blocksOf bg (tb.tbs + cbsegmLdpcL tb.tbs) * 1 ≤ blocksOf bg (tb.tbs + cbsegmLdpcL tb.tbs) * q :=
      Nat.mul_le_mul_left _ (by omega)
    omega
  have kpSmall : cfg.kp < 4294967296 := by omega
  have room : cfg.lTb ≤ q := lTb ▸ holds
  have segments : ∑ i ∈ range cfg.c, cbLen cfg i = tb.tbs := by
    rw [sum_cbLen pos count kpq kpSmall room, c, parts, lTb, Nat.add_sub_cancel]
  have aligned : ∀ i, 8 ∣ cbLen cfg i := by
    intro i
    rw [cbLen_eq pos count kpq kpSmall room]
    split
    · exact Nat.dvd_sub bytes (by omega)
    · exact bytes
  have total : 8 ∣ tb.tbs := by
    rw [← segments]
    exact dvd_sum fun i _ => aligned i
  refine ⟨?_, total, ?_, ?_, ?_, ?_, ?_, ?_, ?_, c, ?_⟩
  · rw [bg_eq, selected]
  · rw [kpq, Nat.mul_add, c, parts, lTb]
  · rw [kp, size]
    exact Nat.dvd_add bytes crc
  · rw [kp, kr, Nat.mul_comm]
    exact smallest.enough.trans (Nat.mul_le_mul_right _ kb_bounds.2)
  · rw [kr, bg_eq, z_eq, Nat.mul_comm]
  · exact z_eq ▸ smallest.lifting
  · rw [kp, bg_eq, b, z_eq]
    exact smallest.enough
  · rw [kp, bg_eq, b, z_eq]
    exact smallest.least
  · intro qt s run
    obtain ⟨lens, inputPtr⟩ := schNrEncode_segments run
    rw [lens, inputPtr, sum_cbLen_div aligned, segments]
    exact ⟨rfl, rfl⟩

end

def assumedBlocks (nInfo : Nat) (R : ℚ) : Nat :=
  if nInfo ≤ 3824 then 1
  else if R ≤ 1 / 4 then ceil32 (u32 (nInfoPrime4 nInfo + 24)) 3816
  else if nInfoPrime4 nInfo > 8424 then ceil32 (u32 (nInfoPrime4 nInfo + 24)) 8424
  else 1

def raNrTbsFromNInfo (nInfo : Nat) (R : ℚ) : Nat :=
  if nInfo ≤ 3824 then raNrTbsFromNInfo3 nInfo else raNrTbsFromNInfo4 nInfo R

section
variable {nInfo : Nat} {R : ℚ}

theorem tbsTable_entries : ∀ t ∈ raNrTbsTable, 8 ∣ t ∧ 24 ≤ t ∧ t ≤ 3824 := by decide

theorem raNrTbsFromNInfo3_mem : raNrTbsFromNInfo3 nInfo ∈ raNrTbsTable := by
  unfold raNrTbsFromNInfo3
  dsimp only
  cases found : raNrTbsTable.find? _ with
  | none => decide
  | some t => exact List.mem_of_find?_eq_some found

theorem evenSize_of_table {bg : Basegraph} {t : Nat} (mem : t ∈ raNrTbsTable) :
    EvenSize bg t ∧ blocksOf bg (t + cbsegmLdpcL t) = 1 := by
  obtain ⟨bytes, low, high⟩ := tbsTable_entries t mem
  have limits := maxLenCb_bounds bg
  have crc : cbsegmLdpcL t = 16 := if_pos high
  have single : blocksOf bg (t + cbsegmLdpcL t) = 1 := blocksOf_single (by omega)
  refine ⟨⟨by omega, by omega, ?_⟩, single⟩
  rw [single]
  omega

theorem nInfoPrime4_bounds (low : 3824 < nInfo) (lt : nInfo < 4294967296) :
    3840 ≤ nInfoPrime4 nInfo ∧ nInfoPrime4 nInfo ≤ 4227858432 := by
  rw [nInfoPrime4_eq]
  refine ⟨le_max_left .., max_le (by decide) ?_⟩
  by_cases top : nInfo - 24 < 2 ^ 31
  · have small : quantized (nInfo - 24) ≤ 2 ^ 31 := quantized_le_of_lt (by omega) top
    exact (Nat.mod_le _ _).trans (small.trans (by decide))
  · rw [@quantized_eq (nInfo - 24) 26 (by omega) (by omega), u32]
    omega

theorem roundUp_eq {bits c : Nat} (pos : 0 < c) (low : 3864 ≤ bits) (high : bits ≤ 4227858456) (few : c ≤ 1200000) :
    sub32 (u32 (8 * c * ceil32 bits (8 * c))) 24 + 24 = c * 8 * (bits ⌈/⌉ (c * 8)) ∧
      bits ≤ c * 8 * (bits ⌈/⌉ (c * 8)) ∧ c * 8 * (bits ⌈/⌉ (c * 8)) < bits + c * 8 := by
  have unitPos : 0 < c * 8 := by omega
  have up : bits ≤ c * 8 * (bits ⌈/⌉ (c * 8)) := le_smul_ceilDiv unitPos
  have near : c * 8 * (bits ⌈/⌉ (c * 8)) < bits + c * 8 := by
    have below := (@lt_ceilDiv_iff bits (c * 8) (bits ⌈/⌉ (c * 8) - 1) unitPos).mp (by
      have one := (@lt_ceilDiv_iff bits (c * 8) 0 unitPos).mpr (by omega)
      omega)
    rw [Nat.mul_sub_one] at below
    omega
  rw [Nat.mul_comm 8, ceil32_eq_ceilDiv unitPos (by omega), u32_of_lt (by omega), sub32_of_le (by omega) (by omega)]
  omega

theorem blocks_le {bits limit : Nat} (low : 3816 ≤ limit) (high : bits ≤ 4227858456) :
    bits ⌈/⌉ limit ≤ 1200000 := by
  rw [ceilDiv_le_iff_le_mul (by omega)]
  calc bits ≤ 3816 * 1200000 := by omega
    _ ≤ limit * 1200000 := Nat.mul_le_mul_right _ low

theorem cbsegmLdpcL_large {tbs : Nat} (h : 3824 < tbs) : cbsegmLdpcL tbs = 24 := if_neg (not_le.mpr h)

theorem evenSize_of_roundUp {bg : Basegraph} {bits tbs : Nat} (many : bg.maxLenCb < bits) (low : 3864 ≤ bits)
    (high : bits ≤ 4227858456)
    (size : tbs = sub32 (u32 (8 * ceil32 bits (bg.maxLenCb - 24) *
      ceil32 bits (8 * ceil32 bits (bg.maxLenCb - 24)))) 24) :
    EvenSize bg tbs ∧ blocksOf bg (tbs + cbsegmLdpcL tbs) = ceil32 bits (bg.maxLenCb - 24) ∧ 3824 < tbs := by
  have limits := maxLenCb_bounds bg
  have units : 8 ∣ bg.maxLenCb - 24 := by cases bg <;> decide
  have limitPos : 0 < bg.maxLenCb - 24 := by omega
  have count : ceil32 bits (bg.maxLenCb - 24) = bits ⌈/⌉ (bg.maxLenCb - 24) :=
    ceil32_eq_ceilDiv limitPos (by omega)
  have few : bits ⌈/⌉ (bg.maxLenCb - 24) ≤ 1200000 := blocks_le (by omega) high
  have pos : 0 < bits ⌈/⌉ (bg.maxLenCb - 24) := (lt_ceilDiv_iff limitPos).mpr (by omega)
  have same := @ceilDiv_roundUp bits _ 8 (by omega) limitPos units
  rw [count] at size ⊢
  generalize bits ⌈/⌉ (bg.maxLenCb - 24) = c at *
  obtain ⟨eq, up, near⟩ := roundUp_eq pos low high few
  rw [← size] at eq
  have large : 3824 < tbs := by omega
  have blocks : blocksOf bg (tbs + 24) = c := by
    rw [eq, (blocksOf_several (by omega)).1, same]
  refine ⟨⟨by omega, ?_, ?_⟩, ?_, large⟩
  · rw [cbsegmLdpcL_large large]
    omega
  · rw [cbsegmLdpcL_large large, blocks, eq, Nat.mul_comm 8]
    exact Nat.dvd_mul_right _ _
  · rw [cbsegmLdpcL_large large, blocks]

theorem evenSize_of_single {bits tbs : Nat} (low : 3864 ≤ bits) (high : bits ≤ 8448)
    (size : tbs = sub32 (u32 (8 * ceil32 bits 8)) 24) :
    EvenSize .bg1 tbs ∧ blocksOf .bg1 (tbs + cbsegmLdpcL tbs) = 1 ∧ 3824 < tbs := by
  obtain ⟨eq, up, -⟩ := roundUp_eq Nat.one_pos low (by omega) (by decide)
  have most : bits ⌈/⌉ 8 ≤ 1056 := (ceilDiv_le_iff_le_mul (by decide)).mpr (by omega)
  rw [Nat.mul_one] at eq
  simp only [Nat.one_mul] at eq up
  have large : 3824 < tbs := by omega
  have fits : tbs + 24 ≤ Basegraph.bg1.maxLenCb := by
    change tbs + 24 ≤ 8448
    omega
  have blocks : blocksOf .bg1 (tbs + 24) = 1 := blocksOf_single fits
  refine ⟨⟨by omega, ?_, ?_⟩, ?_, large⟩
  · rw [cbsegmLdpcL_large large]
    omega
  · rw [cbsegmLdpcL_large large, blocks]
    omega
  · rw [cbsegmLdpcL_large large, blocks]

theorem evenSize_tbs (lt : nInfo < 4294967296) :
    EvenSize (isrranSchNrSelectBasegraph (raNrTbsFromNInfo nInfo R) R) (raNrTbsFromNInfo nInfo R) ∧
      blocksOf (isrranSchNrSelectBasegraph (raNrTbsFromNInfo nInfo R) R)
        (raNrTbsFromNInfo nInfo R + cbsegmLdpcL (raNrTbsFromNInfo nInfo R)) = assumedBlocks nInfo R := by
  by_cases small : nInfo ≤ 3824
  · rw [raNrTbsFromNInfo, if_pos small, assumedBlocks, if_pos small]
    exact evenSize_of_table raNrTbsFromNInfo3_mem
  obtain ⟨low, high⟩ := nInfoPrime4_bounds (not_le.mp small) lt
  have bits : u32 (nInfoPrime4 nInfo + 24) = nInfoPrime4 nInfo + 24 := u32_of_lt (by omega)
  generalize size : raNrTbsFromNInfo nInfo R = tbs
  rw [raNrTbsFromNInfo, if_neg small, raNrTbsFromNInfo4] at size
  rw [bits] at size
  rw [assumedBlocks, if_neg small, bits]
  by_cases rate : R ≤ 1 / 4
  · have bg : isrranSchNrSelectBasegraph tbs R = .bg2 := if_pos (.inr (.inr rate))
    rw [if_pos rate] at size
    rw [bg, if_pos rate]
    obtain ⟨even, blocks, -⟩ := @evenSize_of_roundUp .bg2 _ _ (by change 3840 < _; omega) (by omega) (by omega) size.symm
    exact ⟨even, blocks⟩
  · have bg : 3824 < tbs → isrranSchNrSelectBasegraph tbs R = .bg1 := by
      intro large
      unfold isrranSchNrSelectBasegraph
      rw [if_neg]
      rintro (h | ⟨h, -⟩ | h)
      · omega
      · omega
      · exact rate h
    rw [if_neg rate] at size
    rw [if_neg rate]
    by_cases many : nInfoPrime4 nInfo > 8424
    · rw [if_pos many] at size
      rw [if_pos many]
      obtain ⟨even, blocks, large⟩ :=
        @evenSize_of_roundUp .bg1 _ _ (by change 8448 < _; omega) (by omega) (by omega) size.symm
      rw [bg large]
      exact ⟨even, blocks⟩
    · rw [if_neg many] at size
      rw [if_neg many]
      obtain ⟨even, blocks, large⟩ := evenSize_of_single (by omega) (by omega) size.symm
      rw [bg large]
      exact ⟨even, blocks⟩

def FitsMask (nInfo : Nat) (R : ℚ) : Prop :=
  nInfo < (if R ≤ 1 / 4 then 157720 else 348184) ∨ 24 + wrapsFrom ≤ nInfo

theorem nInfoPrime4_le_iff {n k most : Nat} (large : 3824 < nInfo) (lt : nInfo < 4294967296) (low : 32 ≤ k)
    (high : k < 63) (room : 3840 ≤ most) (inside : most < 4294967296) (reached : 2 ^ n * k ≤ most)
    (missed : most < 2 ^ n * (k + 1)) :
    nInfoPrime4 nInfo ≤ most ↔ 2 * (nInfo - 24) < 2 ^ n * (2 * k + 1) ∨ 24 + wrapsFrom ≤ nInfo := by
  have threshold := quantized_le_iff (y := nInfo - 24) (by omega) low high reached missed
  have wraps := quantized_lt_iff (y := nInfo - 24) (by omega) (by omega)
  have full : quantized (nInfo - 24) ≤ 2 ^ 32 := quantized_le_of_lt (by omega) (by omega)
  rw [nInfoPrime4_eq]
  by_cases top : quantized (nInfo - 24) < 4294967296
  · rw [u32_of_lt top]
    omega
  · have zero : u32 (quantized (nInfo - 24)) = 0 := by
      unfold u32
      omega
    omega

theorem assumedBlocks_le_iff (lt : nInfo < 4294967296) :
    assumedBlocks nInfo R ≤ maxNofCbLdpc ↔ FitsMask nInfo R := by
  have mask : maxNofCbLdpc = 41 := rfl
  rw [FitsMask]
  by_cases small : nInfo ≤ 3824
  · rw [assumedBlocks, if_pos small]
    split <;> omega
  obtain ⟨low, high⟩ := nInfoPrime4_bounds (not_le.mp small) lt
  have bits : u32 (nInfoPrime4 nInfo + 24) = nInfoPrime4 nInfo + 24 := u32_of_lt (by omega)
  rw [assumedBlocks, if_neg small, bits]
  by_cases rate : R ≤ 1 / 4
  · have threshold := @nInfoPrime4_le_iff nInfo 12 38 156432 (not_le.mp small) lt (by decide) (by decide)
    rw [if_pos rate, if_pos rate, ceil32_le_iff (by decide) (by omega)]
    omega
  · have threshold := @nInfoPrime4_le_iff nInfo 13 42 345360 (not_le.mp small) lt (by decide) (by decide)
    have single : nInfoPrime4 nInfo ≤ 345360 ↔ (if nInfoPrime4 nInfo > 8424 then ceil32 (nInfoPrime4 nInfo + 24) 8424
        else 1) ≤ 41 := by
      split
      · rw [ceil32_le_iff (by decide) (by omega)]
        omega
      · omega
    rw [if_neg rate, if_neg rate]
    omega

end

theorem toUint32_lt {x : ℚ} {n : Nat} (h : toUint32 x = .ok n) : n < 4294967296 := by
  unfold toUint32 at h
  split at h
  · rename_i inside
    obtain rfl := Except.ok.inj h
    have below : ⌊x⌋ < 4294967296 := Int.floor_lt.mpr (by exact_mod_cast inside.2)
    omega
  · contradiction

theorem toNat_floor_lt_iff {x : ℚ} {n : Nat} (pos : 0 < n) : ⌊x⌋.toNat < n ↔ x < n := by
  have cast : ⌊x⌋ < (n : ℤ) ↔ x < n := by
    rw [Int.floor_lt]
    norm_cast
  rw [← cast]
  omega

theorem isrranRaNrTbs_eq (nRe : Nat) (S R : ℚ) (qm nofLayers : Nat) :
    isrranRaNrTbs nRe S R qm nofLayers =
      (toUint32 (nInfoExact nRe S R qm nofLayers)).map (raNrTbsFromNInfo · R) := by
  unfold isrranRaNrTbs
  cases toUint32 (nInfoExact nRe S R qm nofLayers) with
  | error fault => rfl
  | ok nInfo =>
    by_cases small : nInfo ≤ 3824
    · change (if nInfo ≤ 3824 then pure _ else pure _) = Except.ok (raNrTbsFromNInfo nInfo R)
      rw [if_pos small, raNrTbsFromNInfo, if_pos small]
      rfl
    · change (if nInfo ≤ 3824 then pure _ else pure _) = Except.ok (raNrTbsFromNInfo nInfo R)
      rw [if_neg small, raNrTbsFromNInfo, if_neg small]
      rfl

def TbsSegmentsEvenly (nofPrb : Nat) (schCfg : SchCfg) (base : SchTb) (nRe : Nat) (S R : ℚ) (qm nofLayers : Nat) : Prop :=
  ∃ nInfo tbs cfg, toUint32 (nInfoExact nRe S R qm nofLayers) = .ok nInfo ∧
    isrranRaNrTbs nRe S R qm nofLayers = .ok tbs ∧
    isrranSchNrFillTbInfo nofPrb schCfg { base with tbs := tbs, R := R } = .ok (some cfg) ∧
    SegmentsEvenly { base with tbs := tbs, R := R } (assumedBlocks nInfo R) cfg

/-- The bits fit the mask of 41 code blocks, or their rounded number leaves 32 bits. -/
def BitsFit (x R : ℚ) : Prop :=
  -1 < x ∧ x < 4294967296 ∧ (x < (if R ≤ 1 / 4 then 157720 else 348184) ∨ 4261412888 ≤ x)

theorem fitsMask_iff {x R : ℚ} : FitsMask ⌊x⌋.toNat R ↔ x < (if R ≤ 1 / 4 then 157720 else 348184) ∨ 4261412888 ≤ x := by
  have wrap : 24 + wrapsFrom ≤ ⌊x⌋.toNat ↔ 4261412888 ≤ x := by
    rw [← not_lt, toNat_floor_lt_iff (by decide)]
    norm_num [wrapsFrom]
  rw [FitsMask, wrap]
  split
  · rw [toNat_floor_lt_iff (by decide)]
    norm_num
  · rw [toNat_floor_lt_iff (by decide)]
    norm_num

theorem tbsSegmentsEvenly_iff (nofPrb : Nat) (schCfg : SchCfg) (base : SchTb) (nRe : Nat) (S R : ℚ)
    (qm nofLayers : Nat) :
    TbsSegmentsEvenly nofPrb schCfg base nRe S R qm nofLayers ↔ BitsFit (nInfoExact nRe S R qm nofLayers) R := by
  unfold TbsSegmentsEvenly BitsFit
  rw [isrranRaNrTbs_eq, ← fitsMask_iff]
  generalize nInfoExact nRe S R qm nofLayers = x
  by_cases inside : -1 < x ∧ x < 4294967296
  · have converted : toUint32 x = .ok ⌊x⌋.toNat := if_pos inside
    rw [converted]
    generalize number : ⌊x⌋.toNat = nInfo at *
    have lt := toUint32_lt converted
    obtain ⟨even, blocks⟩ := @evenSize_tbs nInfo R lt
    obtain ⟨z, i, nref, smallest, filled⟩ :=
      @fillTbInfo_spec nofPrb schCfg { base with tbs := raNrTbsFromNInfo nInfo R, R := R } _ rfl even
    rw [blocks] at filled
    constructor
    · rintro ⟨_, _, cfg, -, size, accepted, -⟩
      obtain rfl := Except.ok.inj size
      refine ⟨inside.1, inside.2, (assumedBlocks_le_iff lt).mp ?_⟩
      by_contra many
      rw [filled, if_pos (not_le.mp many)] at accepted
      contradiction
    · rintro ⟨-, -, fits⟩
      have few := (assumedBlocks_le_iff lt).mpr fits
      rw [if_neg (not_lt.mpr few)] at filled
      refine ⟨nInfo, _, _, rfl, rfl, filled, ?_⟩
      rw [← blocks]
      exact segmentsEvenly_of_even rfl even smallest
  · have undefined : toUint32 x = .error .undefinedBehaviour := if_neg inside
    rw [undefined]
    constructor
    · rintro ⟨_, _, _, run, -⟩
      contradiction
    · rintro ⟨low, high, -⟩
      exact absurd ⟨low, high⟩ inside

theorem twoLayers_maskExceeded :
    ¬ TbsSegmentsEvenly 273 ⟨.qam256, false⟩ ⟨.qam256, 2, 0, 0, 0, by decide, by decide⟩ 42588 1 (948 / 1024) 8 2 := by
  rintro ⟨_, tbs, cfg, -, size, filled, -⟩
  have computed : isrranRaNrTbs 42588 1 (948 / 1024) 8 2 = .ok 638984 := by decide +kernel
  rw [computed] at size
  obtain rfl := Except.ok.inj size
  have refused : isrranSchNrFillTbInfo 273 ⟨.qam256, false⟩ ⟨.qam256, 2, 638984, 948 / 1024, 0, by decide, by decide⟩ =
      .error .undefinedBehaviour := by decide +kernel
  rw [refused] at filled
  contradiction

end IsrRan.Phy
