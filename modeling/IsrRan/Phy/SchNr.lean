import Mathlib.Data.Rat.Floor
import IsrRan.Phy.Cbsegm
import IsrRan.Lib.Transition

namespace IsrRan.Phy
open List Nat

def raNrTbsTable : List Nat :=
  [24, 32, 40, 48, 56, 64, 72, 80, 88, 96, 104, 112, 120, 128, 136, 144, 152, 160, 168,
   176, 184, 192, 208, 224, 240, 256, 272, 288, 304, 320, 336, 352, 368, 384, 408, 432, 456, 480,
   504, 528, 552, 576, 608, 640, 672, 704, 736, 768, 808, 848, 888, 928, 984, 1032, 1064, 1128, 1160,
   1192, 1224, 1256, 1288, 1320, 1352, 1416, 1480, 1544, 1608, 1672, 1736, 1800, 1864, 1928, 2024, 2088, 2152, 2216,
   2280, 2408, 2472, 2536, 2600, 2664, 2728, 2792, 2856, 2976, 3104, 3240, 3368, 3496, 3624, 3752, 3824]

/-! The products, `log2`, `floor` and `round` are taken exactly. -/

def roundDiv (num den : Nat) : Nat := (2 * num + den) / (2 * den)

def raNrTbsFromNInfo3 (nInfo : Nat) : Nat :=
  let n := max 3 (log2 nInfo - 6)
  let nInfoPrime := max 24 (2 ^ n * (nInfo / 2 ^ n))
  (raNrTbsTable.find? (nInfoPrime ≤ ·)).getD 3824

def nInfoPrime4 (nInfo : Nat) : Nat :=
  let n := log2 (nInfo - 24) - 5
  max 3840 (u32 (2 ^ n * roundDiv (nInfo - 24) (2 ^ n)))

def raNrTbsFromNInfo4 (nInfo : Nat) (R : ℚ) : Nat :=
  let bits := u32 (nInfoPrime4 nInfo + 24)
  if R ≤ 1 / 4 then
    let c := ceil32 bits 3816
    sub32 (u32 (8 * c * ceil32 bits (8 * c))) 24
  else if nInfoPrime4 nInfo > 8424 then
    let c := ceil32 bits 8424
    sub32 (u32 (8 * c * ceil32 bits (8 * c))) 24
  else sub32 (u32 (8 * ceil32 bits 8)) 24

def nInfoExact (nRe : Nat) (S R : ℚ) (qm nofLayers : Nat) : ℚ :=
  nRe * (if S = 0 then 1 else S) * R * qm * (if nofLayers = 0 then 1 else nofLayers : Nat)

/-- The conversion from `double` drops the fraction and is undefined when the rest does not fit. -/
def toUint32 (x : ℚ) : Except Fault Nat :=
  if -1 < x ∧ x < 4294967296 then .ok ⌊x⌋.toNat else .error .undefinedBehaviour

def isrranRaNrTbs (nRe : Nat) (S R : ℚ) (qm nofLayers : Nat) : Except Fault Nat := do
  let nInfo ← toUint32 (nInfoExact nRe S R qm nofLayers)
  if nInfo ≤ 3824 then pure (raNrTbsFromNInfo3 nInfo) else pure (raNrTbsFromNInfo4 nInfo R)

/-! Six bits of the size are kept, so that rounding does not leave the interval between two powers. -/

def quantized (y : Nat) : Nat := 2 ^ (log2 y - 5) * roundDiv y (2 ^ (log2 y - 5))

theorem nInfoPrime4_eq (nInfo : Nat) : nInfoPrime4 nInfo = max 3840 (u32 (quantized (nInfo - 24))) := rfl

section
variable {y : Nat} (h : 32 ≤ y)
include h

theorem pow_log2_eq : 2 ^ log2 y = 32 * 2 ^ (log2 y - 5) := by
  have five : 5 ≤ log2 y := (le_log2 (by omega)).mpr h
  calc 2 ^ log2 y = 2 ^ (5 + (log2 y - 5)) := by rw [Nat.add_sub_cancel' five]
    _ = 32 * 2 ^ (log2 y - 5) := by rw [Nat.pow_add]

theorem roundDiv_bounds :
    32 ≤ roundDiv y (2 ^ (log2 y - 5)) ∧ roundDiv y (2 ^ (log2 y - 5)) ≤ 64 := by
  have low : 2 ^ log2 y ≤ y := log2_self_le (by omega)
  have high : y < 2 ^ (log2 y + 1) := lt_log2_self
  rw [Nat.pow_succ, pow_log2_eq h] at high
  rw [pow_log2_eq h] at low
  unfold roundDiv
  constructor
  · rw [Nat.le_div_iff_mul_le (by omega)]
    omega
  · rw [← Nat.lt_succ_iff, Nat.div_lt_iff_lt_mul (by omega)]
    omega

theorem pow_le_quantized : 2 ^ log2 y ≤ quantized y := by
  rw [pow_log2_eq h, Nat.mul_comm]
  exact Nat.mul_le_mul_left _ (roundDiv_bounds h).1

theorem quantized_le_pow : quantized y ≤ 2 * 2 ^ log2 y := by
  rw [pow_log2_eq h]
  calc 2 ^ (log2 y - 5) * roundDiv y (2 ^ (log2 y - 5)) ≤ 2 ^ (log2 y - 5) * 64 :=
        Nat.mul_le_mul_left _ (roundDiv_bounds h).2
    _ = 2 * (32 * 2 ^ (log2 y - 5)) := by omega

end

theorem quantized_eq {y n : Nat} (low : 32 * 2 ^ n ≤ y) (high : y < 64 * 2 ^ n) :
    quantized y = 2 ^ n * roundDiv y (2 ^ n) := by
  have first : 2 ^ (n + 5) = 32 * 2 ^ n := by rw [Nat.pow_add, Nat.mul_comm]
  have next : 2 ^ (n + 5 + 1) = 64 * 2 ^ n := by
    omega
  have log : log2 y = n + 5 := by
    rw [log2_eq_iff (by omega), first, next]
    exact ⟨low, high⟩
  rw [quantized, log, Nat.add_sub_cancel]

theorem quantized_le_of_lt {y e : Nat} (h : 32 ≤ y) (lt : y < 2 ^ e) : quantized y ≤ 2 ^ e := by
  have below : log2 y + 1 ≤ e := (log2_lt (by omega)).mpr lt
  calc quantized y ≤ 2 * 2 ^ log2 y := quantized_le_pow h
    _ = 2 ^ (log2 y + 1) := by rw [Nat.pow_succ, Nat.mul_comm]
    _ ≤ 2 ^ e := Nat.pow_le_pow_right (by decide) below

theorem le_quantized_of_le {y e : Nat} (h : 32 ≤ y) (le : 2 ^ e ≤ y) : 2 ^ e ≤ quantized y :=
  (Nat.pow_le_pow_right (by decide) ((le_log2 (by omega)).mpr le)).trans (pow_le_quantized h)

def wrapsFrom : Nat := 4294967296 - 33554432

theorem quantized_lt_iff {y : Nat} (h : 32 ≤ y) (lt : y < 4294967296) :
    quantized y < 4294967296 ↔ y < wrapsFrom := by
  by_cases top : y < 2 ^ 31
  · have small : quantized y ≤ 2 ^ 31 := quantized_le_of_lt h top
    unfold wrapsFrom
    omega
  · rw [@quantized_eq y 26 (by omega) (by omega), roundDiv, wrapsFrom]
    omega

theorem quantized_le_iff {y n k most : Nat} (h : 32 ≤ y) (low : 32 ≤ k) (high : k < 63) (reached : 2 ^ n * k ≤ most)
    (missed : most < 2 ^ n * (k + 1)) : quantized y ≤ most ↔ 2 * y < 2 ^ n * (2 * k + 1) := by
  have middle : 2 ^ n * (2 * k + 1) = 2 * (2 ^ n * k) + 2 ^ n := by
    rw [Nat.mul_add, Nat.mul_left_comm, Nat.mul_one]
  rw [middle]
  by_cases below : y < 32 * 2 ^ n
  · have five : 32 * 2 ^ n = 2 ^ (5 + n) := by rw [Nat.pow_add]
    have small : quantized y ≤ 32 * 2 ^ n := five ▸ quantized_le_of_lt h (five ▸ below)
    have first : 2 ^ n * 32 ≤ 2 ^ n * k := Nat.mul_le_mul_left _ low
    omega
  · by_cases above : 64 * 2 ^ n ≤ y
    · have six : 64 * 2 ^ n = 2 ^ (6 + n) := by rw [Nat.pow_add]
      have large : 64 * 2 ^ n ≤ quantized y := six ▸ le_quantized_of_le h (six ▸ above)
      have last : 2 ^ n * (k + 1) ≤ 2 ^ n * 63 := Nat.mul_le_mul_left _ high
      omega
    · have next : (k + 1) * (2 * 2 ^ n) = 2 * (2 ^ n * k) + 2 * 2 ^ n := by
        rw [Nat.add_mul, Nat.mul_left_comm, Nat.mul_comm k, Nat.one_mul]
      have steps : roundDiv y (2 ^ n) ≤ k ↔ 2 * y < 2 * (2 ^ n * k) + 2 ^ n := by
        rw [roundDiv, ← Nat.lt_succ_iff, Nat.div_lt_iff_lt_mul (by omega), succ_eq_add_one]
        omega
      rw [@quantized_eq y n (by omega) (by omega), ← steps]
      constructor
      · intro within
        exact Nat.lt_succ_iff.mp (Nat.lt_of_mul_lt_mul_left (Nat.lt_of_le_of_lt within missed))
      · intro few
        exact (Nat.mul_le_mul_left _ few).trans reached

def isrranSchNrSelectBasegraph (tbs : Nat) (R : ℚ) : Basegraph :=
  if tbs ≤ 292 ∨ tbs ≤ 3824 ∧ R ≤ 67 / 100 ∨ R ≤ 1 / 4 then .bg2 else .bg1

inductive Mod where
  | bpsk
  | qpsk
  | qam16
  | qam64
  | qam256
  | nitems
  deriving DecidableEq, Repr

def isrranModBitsXSymbol : Mod → Nat
  | .bpsk => 1
  | .qpsk => 2
  | .qam16 => 4
  | .qam64 => 6
  | .qam256 => 8
  | .nitems => 0

inductive McsTable where
  | qam64
  | qam256
  | qam64LowSe
  deriving DecidableEq, Repr

structure SchCfg where
  mcsTable : McsTable
  limitedBufferRm : Bool

def isrranMaxLayersNr : Nat := 8

/-- `isrran_sch_tb_t`. The size is read as a `uint32_t` wherever it is used. -/
structure SchTb where
  mod : Mod
  nL : Nat
  tbs : Nat
  R : ℚ
  nofBits : Nat
  nL_le : nL ≤ isrranMaxLayersNr
  nofBits_lt : nofBits < 4294967296

def maxNofCbLdpc : Nat := (156 * 275 * 8 + (8448 - 1)) / 8448

structure TbInfo where
  bg : Basegraph
  qm : Nat
  g : Nat
  a : Nat
  lTb : Nat
  lCb : Nat
  b : Nat
  bp : Nat
  kp : Nat
  kr : Nat
  f : Nat
  nref : Nat
  z : Nat
  nl : Nat
  mask : List Bool
  c : Nat
  cp : Nat
  deriving DecidableEq, Repr

def schNrNPrbLbrm (nofPrb : Nat) : Nat :=
  if nofPrb < 33 then 32
  else if nofPrb ≤ 66 then 32
  else if nofPrb ≤ 107 then 107
  else if nofPrb ≤ 135 then 135
  else if nofPrb ≤ 162 then 162
  else if nofPrb ≤ 217 then 217
  else 273

def schNrNref (nRb : Nat) (mcsTable : McsTable) (maxMimoLayers : Nat) : Except Fault (Option Nat) := do
  let qmLbrm := if mcsTable = .qam256 then 8 else 6
  let tbs ← isrranRaNrTbs (156 * schNrNPrbLbrm nRb) 1 (948 / 1024) qmLbrm (min 4 maxMimoLayers)
  let cbsegm ← cbsegmLdpc (isrranSchNrSelectBasegraph tbs (2 / 3)) tbs
  pure (cbsegm.map fun s => ⌈(tbs : ℚ) / (s.c * (2 / 3))⌉.toNat)

/-- `(uint32_t)ISRRAN_ERROR` is kept as it is when `N_ref` cannot be computed. -/
def nrefOf (nofPrb : Nat) (schCfg : SchCfg) : Except Fault Nat :=
  if schCfg.limitedBufferRm then (schNrNref nofPrb schCfg.mcsTable 4).map fun n => n.getD 4294967295
  else .ok (384 * 66)

def fillFrom (tb : SchTb) (bg : Basegraph) (cbsegm : CbSegm) (nref : Nat) : TbInfo :=
  let b := u32 (cbsegm.tbs + cbsegm.lTb)
  let bp := u32 (b + u32 (cbsegm.lCb * cbsegm.c))
  let kp := bp / cbsegm.c
  { bg := bg, qm := isrranModBitsXSymbol tb.mod, g := tb.nofBits, a := tb.tbs, lTb := cbsegm.lTb, lCb := cbsegm.lCb,
    b := b, bp := bp, kp := kp, kr := cbsegm.k1, f := sub32 cbsegm.k1 kp, nref := nref,
    z := cbsegm.z, nl := tb.nL,
    mask := replicate cbsegm.c true ++ replicate (maxNofCbLdpc - cbsegm.c) false,
    c := cbsegm.c, cp := cbsegm.c }

/-- Without code blocks the division for `Kp` traps; with too many the mask is written past its end. -/
def isrranSchNrFillTbInfo (nofPrb : Nat) (schCfg : SchCfg) (tb : SchTb) : Except Fault (Option TbInfo) := do
  let bg := isrranSchNrSelectBasegraph tb.tbs tb.R
  match ← cbsegmLdpc bg tb.tbs with
  | none => pure none
  | some cbsegm =>
    if cbsegm.z > maxLiftsize then pure none
    else if cbsegm.c = 0 then .error .undefinedBehaviour
    else
      let nref ← nrefOf nofPrb schCfg
      if maxNofCbLdpc < cbsegm.c then .error .undefinedBehaviour
      else pure (some (fillFrom tb bg cbsegm nref))

def schNrGetE (cfg : TbInfo) (j : Nat) : Nat :=
  if cfg.nl = 0 ∨ cfg.qm = 0 ∨ cfg.cp = 0 then 0
  else if j ≤ cfg.cp - cfg.g / u32 (cfg.nl * cfg.qm) % cfg.cp - 1 then
    cfg.nl * cfg.qm * (cfg.g / u32 (cfg.nl * cfg.qm * cfg.cp))
  else u32 (cfg.nl * cfg.qm * ceil32 cfg.g (u32 (cfg.nl * cfg.qm * cfg.cp)))

structure Slice where
  cb : Nat
  start : Nat
  len : Nat
  deriving DecidableEq, Repr

def maxE : Nat := 273 * 13 * 12 * 8 * 4

def initRm (e : Nat) (modType : Mod) : Bool :=
  e ≤ maxE && isrranModBitsXSymbol modType != 0 && e % isrranModBitsXSymbol modType == 0

def encodedLen (cfg : TbInfo) : Nat := cfg.bg.nFull * cfg.z - 2 * cfg.z

structure SoftbufferTx where
  maxCb : Nat
  maxCbSize : Nat

def SoftbufferTx.Fits (q : SoftbufferTx) (cfg : TbInfo) : Prop := cfg.c ≤ q.maxCb ∧ encodedLen cfg ≤ q.maxCbSize

instance (q : SoftbufferTx) (cfg : TbInfo) : Decidable (q.Fits cfg) := inferInstanceAs (Decidable (_ ∧ _))

def cbLen (cfg : TbInfo) (r : Nat) : Nat :=
  if r = sub32 cfg.c 1 then sub32 (sub32 cfg.kp cfg.lCb) cfg.lTb else sub32 cfg.kp cfg.lCb

structure TxState where
  inputPtr : Nat := 0
  outputPtr : Nat := 0
  j : Nat := 0
  segments : List (Nat × Nat) := []
  written : List Slice := []

def encodeBlock (tb : SchTb) (cfg : TbInfo) (s : TxState) (r : Nat) : Except TxState TxState :=
  let s := { s with segments := s.segments ++ [(s.inputPtr, cbLen cfg r)], inputPtr := s.inputPtr + cbLen cfg r / 8 }
  if cfg.mask.getD r false then
    let e := schNrGetE cfg s.j
    if initRm e tb.mod then
      .ok { s with j := s.j + 1, written := s.written ++ [⟨r, s.outputPtr, e⟩], outputPtr := s.outputPtr + e }
    else .error s
  else .ok s

def schNrEncode (tb : SchTb) (cfg : TbInfo) (q : SoftbufferTx) : Except TxState TxState :=
  if q.Fits cfg then (range cfg.c).foldlM (encodeBlock tb cfg) {} else .error {}

structure SoftbufferRx where
  maxCb : Nat
  maxCbSize : Nat
  cbCrc : Nat → Bool

def SoftbufferRx.Fits (q : SoftbufferRx) (cfg : TbInfo) : Prop := cfg.cp ≤ q.maxCb ∧ encodedLen cfg ≤ q.maxCbSize

instance (q : SoftbufferRx) (cfg : TbInfo) : Decidable (q.Fits cfg) := inferInstanceAs (Decidable (_ ∧ _))

structure RxState where
  cbCrc : Nat → Bool
  inputPtr : Nat := 0
  j : Nat := 0
  cbOk : Nat := 0
  dematched : List Slice := []

/-- `ldpc r` is what the LDPC decoder returns for code block `r`: an error, 0 when the CRC does not match. -/
def decodeBlock (tb : SchTb) (cfg : TbInfo) (ldpc : Nat → Int) (s : RxState) (r : Nat) : Except RxState RxState :=
  let decoded := s.cbCrc r
  if cfg.mask.getD r false then
    let e := schNrGetE cfg s.j
    if decoded then .ok { s with j := s.j + 1, cbOk := s.cbOk + 1 }
    else if initRm e tb.mod then
      let dematched := s.dematched ++ [⟨r, s.inputPtr, e⟩]
      if ldpc r < 0 then .error { s with j := s.j + 1, dematched := dematched }
      else .ok { s with
        j := s.j + 1, dematched := dematched, cbCrc := Function.update s.cbCrc r (ldpc r ≠ 0),
        cbOk := if ldpc r ≠ 0 then s.cbOk + 1 else s.cbOk, inputPtr := s.inputPtr + e }
    else .error { s with j := s.j + 1 }
  else .ok { s with cbOk := if decoded then s.cbOk + 1 else s.cbOk }

def schNrDecode (tb : SchTb) (cfg : TbInfo) (q : SoftbufferRx) (ldpc : Nat → Int) : Except RxState RxState :=
  if q.Fits cfg then (range cfg.c).foldlM (decodeBlock tb cfg ldpc) { cbCrc := q.cbCrc }
  else .error { cbCrc := q.cbCrc }

def final {σ : Type} : Except σ σ → σ
  | .ok s => s
  | .error s => s

end IsrRan.Phy
