import IsrRan.Lib.CyclicSelect
import IsrRan.Phy.PolarRm
import IsrRan.Phy.SchNr

/-! LDPC rate matching and dematching (ldpc_rm.c), the latter for 8-bit soft values. -/

namespace IsrRan.Phy.Ldpc
open Lib List Function Nat
open Polar (satAdd)

def fillerBit : Nat := 254

def baseK0 (rv : Nat) : Basegraph → Nat
  | .bg1 => [0, 17, 33, 56].getD rv 0
  | .bg2 => [0, 13, 25, 43].getD rv 0

def baseN : Basegraph → Nat
  | .bg1 => 66
  | .bg2 => 50

def baseK : Basegraph → Nat
  | .bg1 => 22
  | .bg2 => 10

def maxE : Nat := 273 * 13 * 12 * 8 * 4

structure Rm where
  n : Nat
  e : Nat
  k : Nat
  f : Nat
  ls : Nat
  modOrder : Nat
  bg : Basegraph
  ncb : Nat
  k0 : Nat
  deriving DecidableEq, Repr

def initRm (e f : Nat) (bg : Basegraph) (ls rv : Nat) (mod : Mod) (nref : Nat) : Option Rm :=
  let modOrder := isrranModBitsXSymbol mod
  let n := ls * baseN bg
  if maxE < e then none
  else if modOrder = 0 then none
  else if e % modOrder ≠ 0 then none
  else
    let ncb := if n ≤ nref then n else nref
    let k0 := if n ≤ nref then ls * baseK0 rv bg else ls * (baseK0 rv bg * nref / n)
    some ⟨n, e, ls * baseK bg, f, ls, modOrder, bg, ncb, k0⟩

def icwd (k0 ncb j : Nat) : Nat := (k0 + j) % 4294967296 % ncb

def bitSelectionRmTx (input : Nat → Nat) (e k0 ncb : Nat) : Nat → Nat → Nat → (Nat → Nat) → Option (Nat → Nat)
  | 0, k, _, output => if k < e then none else some output
  | fuel + 1, k, j, output =>
    if k < e then
      if input (icwd k0 ncb j) ≠ fillerBit then
        bitSelectionRmTx input e k0 ncb fuel (k + 1) (j + 1) (update output k (input (icwd k0 ncb j)))
      else bitSelectionRmTx input e k0 ncb fuel k (j + 1) output
    else some output

/-- Adds the soft values, one after the other, onto the positions; 63 is `infinity7`. -/
def addSoftBits (input : Nat → Int) (indices : List Nat) (output : Nat → Int) : Nat → Int :=
  accumulate (satAdd 63) input 0 indices output

/-- `bit_selection_rm_rx_c`: the indices first, then 127 for the filler bits, then the soft bits. -/
def bitSelectionRmRxC (input : Nat → Int) (e : Nat) (output : Nat → Int) (iniExclude endExclude k0 ncb fuel : Nat) :
    Option (Nat → Int) :=
  (select (fun i => !(iniExclude ≤ i && i < endExclude)) (icwd k0 ncb) fuel 0 e).map fun indices =>
    addSoftBits input indices fun i => if iniExclude ≤ i ∧ i < endExclude then 127 else output i

/-- `i * cols + j` in the order in which both interleavers go through them; the other index, `i + j * rows`,
counts up. -/
def interleaverIndices (len modOrder : Nat) : List Nat :=
  grid (len / modOrder) modOrder fun j i => i * (len / modOrder) + j

def bitInterleaverRmTx (input output : Nat → Nat) (len modOrder : Nat) : Nat → Nat :=
  gather input 0 (interleaverIndices len modOrder) output

def bitInterleaverRmRxC (input output : Nat → Int) (len modOrder : Nat) : Nat → Int :=
  scatter input 0 (interleaverIndices len modOrder) output

def rmTx (q : Rm) (input output tmp : Nat → Nat) (fuel : Nat) : Option (Nat → Nat) :=
  if q.modOrder = 1 then bitSelectionRmTx input q.e q.k0 q.ncb fuel 0 0 output
  else (bitSelectionRmTx input q.e q.k0 q.ncb fuel 0 0 tmp).map fun tmp =>
    bitInterleaverRmTx tmp output q.e q.modOrder

def Rm.endExclude (q : Rm) : Nat := q.k - 2 * q.ls

def Rm.iniExclude (q : Rm) : Nat := u32Sub q.endExclude q.f

def rmRxC (q : Rm) (input output tmp : Nat → Int) (fuel : Nat) : Option ((Nat → Int) × Nat) :=
  let selected := if q.modOrder = 1 then input else bitInterleaverRmRxC input tmp q.e q.modOrder
  (bitSelectionRmRxC selected q.e output q.iniExclude q.endExclude q.k0 q.ncb fuel).map fun output =>
    (output, min (q.k0 + q.e) q.ncb)

/-! ### The two selections take the same positions -/

section
variable {input output : Nat → Nat} {e k0 ncb fuel k j : Nat}

theorem bitSelectionRmTx_eq (within : k ≤ e) : bitSelectionRmTx input e k0 ncb fuel k j output =
    (select (fun i => input i != fillerBit) (icwd k0 ncb) fuel j (e - k)).map fun indices =>
      gather input k indices output := by
  refine walk_eq_select (fun fuel k j output => ?_) (fun _ _ => rfl) (fun _ _ _ _ => rfl) within
  cases fuel with
  | zero => rfl
  | succ fuel => simp only [bitSelectionRmTx, bne_iff_ne]

end

section
variable {k0 ncb e : Nat} {keep : Nat → Bool}

theorem select_positions (small : ncb ≤ 4294967296) (some_ : ∃ i < ncb, keep i = true) :
    ∃ indices : List Nat, indices.length = e ∧ (∀ i ∈ indices, i < ncb ∧ keep i = true) ∧
      ∀ fuel, e * 4294967296 ≤ fuel → select keep (icwd k0 ncb) fuel 0 e = some indices := by
  obtain ⟨i, below, taken⟩ := some_
  have periodic : ∀ j, icwd k0 ncb (j + 4294967296) = icwd k0 ncb j := by
    intro j
    unfold icwd
    rw [← Nat.add_assoc, add_mod_right]
  have kept : keptIn keep (icwd k0 ncb) 0 4294967296 ≠ [] := by
    have here : icwd k0 ncb ((i + 4294967296 - k0 % 4294967296) % 4294967296) = i := by
      unfold icwd
      rw [show (k0 + (i + 4294967296 - k0 % 4294967296) % 4294967296) % 4294967296 = i by omega]
      exact mod_eq_of_lt below
    apply ne_nil_of_mem
    apply mem_keptIn.mpr
    refine ⟨⟨_, Nat.zero_le _, ?_, here⟩, taken⟩
    exact mod_lt _ (by decide)
  refine ⟨cycled (keptIn keep (icwd k0 ncb) 0 4294967296) e, cycled_length, ?_, ?_⟩
  · intro a mem
    obtain ⟨⟨j, _, _, rfl⟩, keeps⟩ := mem_keptIn.mp (mem_of_mem_cycled kept mem)
    exact ⟨mod_lt _ (Nat.lt_of_le_of_lt (Nat.zero_le i) below), keeps⟩
  · intro fuel enough
    exact select_periodic periodic kept enough

end

/-! ### What the interleavers do to the order -/

section
variable {len modOrder : Nat}

theorem interleaverIndices_perm (whole : modOrder ∣ len) : (interleaverIndices len modOrder).Perm (range len) := by
  have perm := grid_transpose_perm (len / modOrder) modOrder
  rwa [Nat.div_mul_cancel whole] at perm

theorem interleaverIndices_one : interleaverIndices len 1 = range len := by
  unfold interleaverIndices
  rw [grid_eq_map, Nat.div_one, Nat.mul_one]
  apply map_id''
  intro k
  rw [mod_one, Nat.zero_mul, Nat.zero_add, Nat.div_one]

def receivedOrder (len modOrder : Nat) : List Nat :=
  grid modOrder (len / modOrder) fun i j => j * modOrder + i

section
variable (whole : modOrder ∣ len)
include whole

theorem receivedOrder_perm : (receivedOrder len modOrder).Perm (range len) := by
  have perm := grid_transpose_perm modOrder (len / modOrder)
  rwa [Nat.mul_div_cancel' whole] at perm

theorem interleaverIndices_receivedOrder {i : Nat} (inside : i < len) :
    (interleaverIndices len modOrder).getD ((receivedOrder len modOrder).getD i 0) 0 = i := by
  have cells : len / modOrder * modOrder = len := Nat.div_mul_cancel whole
  have row : i / (len / modOrder) < modOrder := Nat.div_lt_of_lt_mul (by rwa [cells])
  have column : i % (len / modOrder) < len / modOrder := by
    apply mod_lt
    rcases Nat.eq_zero_or_pos (len / modOrder) with none_ | some_
    · rw [none_] at cells
      omega
    · exact some_
  have place : i % (len / modOrder) * modOrder + i / (len / modOrder) < len / modOrder * modOrder := by
    calc
      _ < i % (len / modOrder) * modOrder + modOrder := Nat.add_lt_add_left row _
      _ = (i % (len / modOrder) + 1) * modOrder := (succ_mul _ _).symm
      _ ≤ len / modOrder * modOrder := Nat.mul_le_mul_right modOrder column
  unfold receivedOrder
  rw [grid_getD (by rwa [Nat.mul_comm, cells])]
  unfold interleaverIndices
  rw [grid_getD place, Nat.mul_comm (i % (len / modOrder)) modOrder,
    mul_add_div (Nat.lt_of_le_of_lt (Nat.zero_le _) row), mul_add_mod, div_eq_of_lt row,
    mod_eq_of_lt row, Nat.mul_comm]
  exact div_add_mod i (len / modOrder)

theorem receivedOrder_getD_lt {i : Nat} (inside : i < len) :
    (receivedOrder len modOrder).getD i 0 < len := by
  have perm := receivedOrder_perm whole
  have below : i < (receivedOrder len modOrder).length := by rwa [perm.length_eq, length_range]
  rw [getD_eq_getElem _ _ below]
  exact List.mem_range.mp (perm.mem_iff.mp (getElem_mem below))

theorem deinterleaved {input tmp : Nat → Int} {i : Nat} (inside : i < len) :
    (if modOrder = 1 then input else bitInterleaverRmRxC input tmp len modOrder) i =
      input ((receivedOrder len modOrder).getD i 0) := by
  have back := interleaverIndices_receivedOrder whole inside
  have below := receivedOrder_getD_lt whole inside
  generalize (receivedOrder len modOrder).getD i 0 = k at back below ⊢
  have perm := interleaverIndices_perm whole
  split
  · rename_i single
    subst single
    rw [interleaverIndices_one, getD_eq_getElem _ _ (by rwa [length_range]), getElem_range] at back
    rw [back]
  · have place : k < (interleaverIndices len modOrder).length := by rwa [perm.length_eq, length_range]
    rw [getD_eq_getElem _ _ place] at back
    have scattered := @scatter_get _ input tmp 0 _ (perm.nodup_iff.mpr nodup_range) k place
    rw [back, Nat.zero_add] at scattered
    exact scattered

end

end

/-! ### The round trip -/

/-- A filler bit of the codeword, without the first two lifting sizes that the encoder leaves out. -/
def Rm.IsFiller (q : Rm) (i : Nat) : Prop := q.iniExclude ≤ i ∧ i < q.endExclude

instance (q : Rm) (i : Nat) : Decidable (q.IsFiller i) := inferInstanceAs (Decidable (_ ∧ _))

def combined (q : Rm) (taken : Nat → Nat) (order : List Nat) (soft prior : Nat → Int) : Nat → Int :=
  order.foldl (fun y k => update y (taken k) (satAdd 63 (y (taken k)) (soft k)))
    fun i => if q.IsFiller i then 127 else prior i

/-- What a receiver makes of the bits of a transmitter: `taken` names the position that each bit is taken
from, and each soft value is added onto the position of its bit. -/
structure Undoes (tx rx : Rm) (input : Nat → Nat) (soft prior : Nat → Int) (taken : Nat → Nat) (order : List Nat)
    (rounds : Nat) : Prop where
  inside : ∀ k < rx.e, taken k < rx.ncb ∧ ¬ rx.IsFiller (taken k)
  once : order.Perm (range rx.e)
  sent : ∀ fuel, rounds ≤ fuel → ∀ output tmp, ∃ sent, rmTx tx input output tmp fuel = some sent ∧
    ∀ k < rx.e, sent k = input (taken k)
  received : ∀ fuel, rounds ≤ fuel → ∀ tmp, rmRxC rx soft prior tmp fuel =
    some (combined rx taken order soft prior, min (rx.k0 + rx.e) rx.ncb)
  filler : ∀ i, rx.IsFiller i → combined rx taken order soft prior i = 127
  untouched : ∀ i, ¬ rx.IsFiller i → (∀ k < rx.e, taken k ≠ i) → combined rx taken order soft prior i = prior i

section
variable {soft prior : Nat → Int} {taken : Nat → Nat} {order : List Nat} {q : Rm}

theorem foldl_of_not_taken {i : Nat} (apart : ∀ k ∈ order, taken k ≠ i) (start : Nat → Int) :
    order.foldl (fun y k => update y (taken k) (satAdd 63 (y (taken k)) (soft k))) start i = start i := by
  induction order generalizing start with
  | nil => rfl
  | cons k order ih =>
    rw [foldl_cons, ih fun k' mem => apart k' (mem_cons_of_mem k mem)]
    exact update_of_ne (apart k mem_cons_self).symm _ _

theorem addSoftBits_combined {indices : List Nat} {selected : Nat → Int}
    (ordered : order.length = indices.length)
    (same : ∀ i < indices.length,
      selected i = soft (order.getD i 0) ∧ indices.getD i 0 = taken (order.getD i 0)) :
    (addSoftBits selected indices fun i => if q.IsFiller i then 127 else prior i) =
      combined q taken order soft prior := by
  have listed : order = (range indices.length).map fun i => order.getD i 0 := by
    apply ext_getElem
    · rw [length_map, length_range, ordered]
    · intro i inside _
      rw [getElem_map, getElem_range, getD_eq_getElem _ _ inside]
  unfold addSoftBits combined
  rw [accumulate_eq_foldl]
  conv_rhs => rw [listed, foldl_map]
  apply foldl_ext
  intro y i mem
  obtain ⟨value, place⟩ := same i (List.mem_range.mp mem)
  rw [Nat.zero_add, value, place]

end

theorem initRm_eq_some {e f ls rv nref : Nat} {bg : Basegraph} {mod : Mod} {q : Rm}
    (init : initRm e f bg ls rv mod nref = some q) :
    q.modOrder ≠ 0 ∧ q.modOrder ∣ q.e ∧ q.ncb ≤ ls * baseN bg ∧ q.n = ls * baseN bg ∧
      q = ⟨ls * baseN bg, e, ls * baseK bg, f, ls, isrranModBitsXSymbol mod, bg, q.ncb, q.k0⟩ := by
  unfold initRm at init
  dsimp only at init
  split at init
  · cases init
  · split at init
    · cases init
    · rename_i some_
      split at init
      · cases init
      · rename_i whole
        obtain rfl := Option.some.inj init
        refine ⟨some_, dvd_of_mod_eq_zero (not_not.mp whole), ?_, rfl, rfl⟩
        split
        · exact Nat.le_refl _
        · rename_i long
          exact Nat.le_of_not_le long

theorem initRm_filler {e f f' ls rv nref : Nat} {bg : Basegraph} {mod : Mod} {tx rx : Rm}
    (initTx : initRm e f bg ls rv mod nref = some tx) (initRx : initRm e f' bg ls rv mod nref = some rx) :
    tx = { rx with f := f } := by
  unfold initRm at initTx initRx
  dsimp only at initTx initRx
  split at initTx
  · cases initTx
  · rename_i short
    rw [if_neg short] at initRx
    split at initTx
    · cases initTx
    · rename_i some_
      rw [if_neg some_] at initRx
      split at initTx
      · cases initTx
      · rename_i whole
        rw [if_neg whole] at initRx
        rw [← Option.some.inj initTx, ← Option.some.inj initRx]

section
variable {tx rx : Rm} {indices : List Nat} {input : Nat → Nat} {soft prior : Nat → Int} {fuel : Nat}

def Rm.takenFrom (q : Rm) (indices : List Nat) (k : Nat) : Nat :=
  indices.getD ((interleaverIndices q.e q.modOrder).getD k 0) 0

theorem gather_getD {src dst : Nat → Nat} {k : Nat} (inside : k < indices.length) :
    gather src 0 indices dst k = src (indices.getD k 0) := by
  have value := @gather_get _ src dst 0 indices k inside
  rw [Nat.zero_add] at value
  rw [value, getD_eq_getElem _ _ inside]

theorem interleaverIndices_getD_lt {len modOrder k : Nat} (whole : modOrder ∣ len) (inside : k < len) :
    (interleaverIndices len modOrder).getD k 0 < len := by
  have perm := interleaverIndices_perm whole
  have place : k < (interleaverIndices len modOrder).length := by rwa [perm.length_eq, length_range]
  rw [getD_eq_getElem _ _ place]
  exact List.mem_range.mp (perm.mem_iff.mp (getElem_mem place))

theorem takenFrom_mem (whole : rx.modOrder ∣ rx.e) (length : indices.length = rx.e) {k : Nat} (inside : k < rx.e) :
    rx.takenFrom indices k ∈ indices := by
  have place := interleaverIndices_getD_lt whole inside
  unfold Rm.takenFrom
  rw [getD_eq_getElem _ _ (by rwa [length])]
  exact getElem_mem _

theorem rmTx_sends (whole : tx.modOrder ∣ tx.e) (length : indices.length = tx.e)
    (selected : select (fun i => input i != fillerBit) (icwd tx.k0 tx.ncb) fuel 0 tx.e = some indices)
    (output tmp : Nat → Nat) : ∃ sent, rmTx tx input output tmp fuel = some sent ∧
      ∀ k < tx.e, sent k = input (tx.takenFrom indices k) := by
  have ends : ∀ out, bitSelectionRmTx input tx.e tx.k0 tx.ncb fuel 0 0 out = some (gather input 0 indices out) := by
    intro out
    rw [bitSelectionRmTx_eq (Nat.zero_le _), Nat.sub_zero, selected]
    rfl
  unfold rmTx
  rw [ends, ends]
  split
  · rename_i single
    refine ⟨_, rfl, fun k inside => ?_⟩
    have place : k < (range tx.e).length := by rwa [length_range]
    unfold Rm.takenFrom
    rw [single, interleaverIndices_one, getD_eq_getElem _ _ place, getElem_range]
    exact gather_getD (by rwa [length])
  · refine ⟨_, rfl, fun k inside => ?_⟩
    have place : k < (interleaverIndices tx.e tx.modOrder).length := by
      rwa [(interleaverIndices_perm whole).length_eq, length_range]
    calc
      _ = gather input 0 indices tmp ((interleaverIndices tx.e tx.modOrder).getD k 0) := gather_getD place
      _ = _ := gather_getD (by rw [length]; exact interleaverIndices_getD_lt whole inside)

theorem rmRxC_combines (whole : rx.modOrder ∣ rx.e) (length : indices.length = rx.e)
    (selected : select (fun i => !(decide (rx.iniExclude ≤ i) && decide (i < rx.endExclude))) (icwd rx.k0 rx.ncb)
      fuel 0 rx.e = some indices) (tmp : Nat → Int) :
    rmRxC rx soft prior tmp fuel =
      some (combined rx (rx.takenFrom indices) (receivedOrder rx.e rx.modOrder) soft prior,
        min (rx.k0 + rx.e) rx.ncb) := by
  have ordered : (receivedOrder rx.e rx.modOrder).length = indices.length := by
    rw [(receivedOrder_perm whole).length_eq, length_range, length]
  unfold rmRxC bitSelectionRmRxC
  dsimp only
  rw [selected]
  refine congrArg (fun y => some (y, _)) (addSoftBits_combined ordered fun i inside => ?_)
  rw [length] at inside
  refine ⟨deinterleaved whole inside, ?_⟩
  unfold Rm.takenFrom
  rw [interleaverIndices_receivedOrder whole inside]

end

theorem rmRx_undoes_rmTx {e f ls rv nref : Nat} {bg : Basegraph} {mod : Mod} {tx rx : Rm} (liftingSize : ls ≤ 384)
    (initTx : initRm e 0 bg ls rv mod nref = some tx) (initRx : initRm e f bg ls rv mod nref = some rx)
    {input : Nat → Nat} (codeword : ∀ i < rx.n, input i = fillerBit ↔ rx.IsFiller i)
    (some_ : ∃ i < rx.ncb, ¬ rx.IsFiller i) (soft prior : Nat → Int) :
    ∃ taken order rounds, Undoes tx rx input soft prior taken order rounds := by
  obtain ⟨_, whole, buffer, size, -⟩ := initRm_eq_some initRx
  have bound : ls * baseN bg ≤ 384 * 66 := Nat.mul_le_mul liftingSize (by cases bg <;> decide)
  obtain rfl := initRm_filler initTx initRx
  obtain ⟨i, below, data⟩ := some_
  have free : ∀ i, (!(decide (rx.iniExclude ≤ i) && decide (i < rx.endExclude))) = true ↔ ¬ rx.IsFiller i := by
    intro i
    rw [Bool.not_eq_true', ← Bool.decide_and, decide_eq_false_iff_not]
    rfl
  have kept : ∃ i < rx.ncb, (!(decide (rx.iniExclude ≤ i) && decide (i < rx.endExclude))) = true :=
    ⟨i, below, (free i).mpr data⟩
  obtain ⟨indices, length, inside, selected⟩ := @select_positions rx.k0 rx.ncb rx.e _ (by omega) kept
  -- the marker in the codeword and the interval stand for the same positions
  have marked : ∀ j, (input (icwd rx.k0 rx.ncb j) != fillerBit) =
      !(decide (rx.iniExclude ≤ icwd rx.k0 rx.ncb j) && decide (icwd rx.k0 rx.ncb j < rx.endExclude)) := by
    intro j
    have place : icwd rx.k0 rx.ncb j < rx.ncb := mod_lt _ (Nat.lt_of_le_of_lt (Nat.zero_le i) below)
    rw [Bool.eq_iff_iff, free, bne_iff_ne]
    exact not_congr (codeword _ (by omega))
  have once := receivedOrder_perm whole
  refine ⟨rx.takenFrom indices, receivedOrder rx.e rx.modOrder, rx.e * 4294967296, ?_, once, ?_, ?_, ?_, ?_⟩
  · intro k below
    obtain ⟨lower, keeps⟩ := inside _ (takenFrom_mem whole length below)
    exact ⟨lower, (free _).mp keeps⟩
  · intro fuel enough
    have same := @select_congr _ (icwd rx.k0 rx.ncb) (fun i => input i != fillerBit)
      (fun i => !(decide (rx.iniExclude ≤ i) && decide (i < rx.endExclude))) fuel 0 rx.e marked
    exact @rmTx_sends { rx with f := 0 } indices input fuel whole length (same.trans (selected fuel enough))
  · intro fuel enough
    exact rmRxC_combines whole length (selected fuel enough)
  · intro i filler
    unfold combined
    rw [foldl_of_not_taken, if_pos filler]
    intro k mem same
    have keeps := (inside _ (takenFrom_mem whole length (List.mem_range.mp (once.mem_iff.mp mem)))).2
    rw [same] at keeps
    exact (free i).mp keeps filler
  · intro i data untaken
    unfold combined
    rw [foldl_of_not_taken fun k mem => untaken k (List.mem_range.mp (once.mem_iff.mp mem)), if_neg data]

def smallRm : Rm := ⟨100, 4, 20, 3, 2, 2, .bg2, 100, 0⟩

theorem rmRx_undoes_rmTx_smallRm : ∃ taken order rounds,
    Undoes { smallRm with f := 0 } smallRm (fun i => if 13 ≤ i ∧ i < 16 then 254 else i % 2) (fun k => 10 * k) (fun _ => 0)
      taken order rounds := by
  refine rmRx_undoes_rmTx (by decide) (rfl : initRm 4 0 .bg2 2 0 .qpsk 100 = _)
    (rfl : initRm 4 3 .bg2 2 0 .qpsk 100 = _) ?_ ⟨0, by decide, by decide⟩ _ _
  intro i _
  by_cases filler : 13 ≤ i ∧ i < 16
  · exact ⟨fun _ => filler, fun _ => if_pos filler⟩
  · rw [if_neg filler]
    have bit := mod_lt i (by decide : 0 < 2)
    exact ⟨fun same => absurd same (by unfold fillerBit; omega), fun inside => absurd inside filler⟩

end IsrRan.Phy.Ldpc
