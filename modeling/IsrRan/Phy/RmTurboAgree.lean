import IsrRan.Lib.Lists
import IsrRan.Phy.RmTurboTables

/-! The turbo rate matching sends the coded bits of a row of the receiver's table, and the receiver adds the soft
values to them. -/

namespace IsrRan.Phy.RmTurbo
open Lib Bit List Nat Option

/-! ### The buffer of the transmitter -/

section
variable {d inLen p : Nat}

def tablesOf (cbLen : Nat) : Tables where
  systematicBits := (range' 0 (kP (3 * (cbLen + 4)))).filterMap (entryAt (3 * (cbLen + 4)))
  parityBits := (range' (kP (3 * (cbLen + 4))) (2 * kP (3 * (cbLen + 4)))).filterMap (entryAt (3 * (cbLen + 4)))
  k0Vec := (gentableParity (3 * (cbLen + 4)) (cbLen + 4)
    (gentableSystematic (3 * (cbLen + 4)) fun _ => none).start).start
  deinterleaver := (range 4).map (rowOf (cbLen + 4))

theorem gentables_eq (cbLen : Nat) (temp : Nat → Nat → Nat) {fuel : Nat} (enough : nCb (3 * (cbLen + 4)) ≤ fuel) :
    gentables cbLen temp fuel = some (tablesOf cbLen) := by
  have len : 3 * cbLen + 12 = 3 * (cbLen + 4) := by ring
  have third : 3 * (cbLen + 4) / 3 = cbLen + 4 := Nat.mul_div_cancel_left _ (by decide)
  have rows : (fun i => gentableReceive (3 * (cbLen + 4)) i (temp i) fuel) = fun i => some (rowOf (cbLen + 4) i) := by
    funext i
    exact gentableReceive_eq (cbLen + 4) i (temp i) enough
  have parity := gentableParity_eq (3 * (cbLen + 4)) (gentableSystematic (3 * (cbLen + 4)) fun _ => none).start
  rw [third] at parity
  have systematicTable : (gentableSystematic (3 * (cbLen + 4)) fun _ => none).table =
      (tablesOf cbLen).systematicBits := by
    rw [gentableSystematic_eq, (visits_spec _ _ _ _).1]
    rfl
  have parityTable : (gentableParity (3 * (cbLen + 4)) (cbLen + 4)
      (gentableSystematic (3 * (cbLen + 4)) fun _ => none).start).table = (tablesOf cbLen).parityBits := by
    rw [parity, (visits_spec _ _ _ _).1]
    rfl
  unfold gentables
  dsimp only
  rw [len, third, rows, systematicTable, parityTable]
  rfl

theorem row_eq {cbLen rvIdx : Nat} (version : rvIdx < 4) : (tablesOf cbLen).row rvIdx = rowOf (cbLen + 4) rvIdx := by
  unfold Tables.row tablesOf
  simp [version]

def codedBit (d : Nat) (systematic parity : Buffer) (c : Nat) : Bool :=
  if c % 3 = 0 then bitAt systematic (c / 3)
  else if c % 3 = 1 then bitAt parity (c / 3)
  else bitAt parity (d + c / 3)

theorem bitAt_behind (byte : Nat) (f : Buffer → Buffer) (buffer : Buffer) (k : Nat) :
    bitAt (behind byte f buffer) k =
      if 8 * byte ≤ k then bitAt (f fun i => buffer (byte + i)) (k - 8 * byte) else bitAt buffer k := by
  unfold bitAt behind
  by_cases later : 8 * byte ≤ k
  · rw [if_pos later, if_pos (by omega), show k / 8 - byte = (k - 8 * byte) / 8 by omega,
      show k % 8 = (k - 8 * byte) % 8 by omega]
  · rw [if_neg later, if_neg (by omega)]

theorem bitAt_shift (buffer : Buffer) (byte k : Nat) :
    bitAt (fun i => buffer (byte + i)) k = bitAt buffer (8 * byte + k) := by
  unfold bitAt
  rw [show (8 * byte + k) / 8 = byte + k / 8 by omega, show (8 * byte + k) % 8 = k % 8 by omega]

def keptAt (d x : Nat) : Nat := (kept (3 * d) 0 (nCb (3 * d))).getD x 0

theorem systematicBits_getD {cbLen x : Nat} (inside : x < cbLen + 4) :
    (tablesOf cbLen).systematicBits.getD x 0 = codedAt (3 * (cbLen + 4)) (keptAt (cbLen + 4) x) / 3 ∧
      streamAt (3 * (cbLen + 4)) (keptAt (cbLen + 4) x) = 0 := by
  have below : x < (kept (3 * (cbLen + 4)) 0 (kP (3 * (cbLen + 4)))).length := by rwa [kept_systematic_length]
  have here : keptAt (cbLen + 4) x = (kept (3 * (cbLen + 4)) 0 (kP (3 * (cbLen + 4))))[x] := by
    unfold keptAt
    rw [show nCb (3 * (cbLen + 4)) = kP (3 * (cbLen + 4)) + 2 * kP (3 * (cbLen + 4)) by unfold nCb; omega, kept_add,
      getD_append _ _ _ _ below, getD_eq_getElem _ _ below]
  have mem := getElem_mem below
  rw [← here] at mem
  have systematic := (mem_kept.mp mem).1.2
  rw [Nat.zero_add] at systematic
  have stream : streamAt (3 * (cbLen + 4)) (keptAt (cbLen + 4) x) = 0 := by
    exact if_pos systematic
  refine ⟨?_, stream⟩
  have listed : (tablesOf cbLen).systematicBits = (kept (3 * (cbLen + 4)) 0 (kP (3 * (cbLen + 4)))).map _ :=
    filterMap_entryAt _
  rw [listed, getD_eq_getElem _ _ (by rwa [length_map]), getElem_map, ← here, codedAt_div, stream]
  rfl

theorem parityBits_getD {cbLen x : Nat} (inside : x < 2 * (cbLen + 4)) :
    (tablesOf cbLen).parityBits.getD x 0 =
        codedAt (3 * (cbLen + 4)) (keptAt (cbLen + 4) (cbLen + 4 + x)) / 3 +
          (if streamAt (3 * (cbLen + 4)) (keptAt (cbLen + 4) (cbLen + 4 + x)) = 2 then cbLen + 4 else 0) ∧
      streamAt (3 * (cbLen + 4)) (keptAt (cbLen + 4) (cbLen + 4 + x)) ≠ 0 := by
  have third : 3 * (cbLen + 4) / 3 = cbLen + 4 := Nat.mul_div_cancel_left _ (by decide)
  have parts := kept_add (3 * (cbLen + 4)) 0 (kP (3 * (cbLen + 4))) (2 * kP (3 * (cbLen + 4)))
  rw [Nat.zero_add, show kP (3 * (cbLen + 4)) + 2 * kP (3 * (cbLen + 4)) = nCb (3 * (cbLen + 4)) by unfold nCb; omega]
    at parts
  have below : x < (kept (3 * (cbLen + 4)) (kP (3 * (cbLen + 4))) (2 * kP (3 * (cbLen + 4)))).length := by
    have whole := kept_length (cbLen + 4)
    rw [parts, length_append, kept_systematic_length] at whole
    omega
  have here : keptAt (cbLen + 4) (cbLen + 4 + x) =
      (kept (3 * (cbLen + 4)) (kP (3 * (cbLen + 4))) (2 * kP (3 * (cbLen + 4))))[x] := by
    unfold keptAt
    rw [parts, getD_append_right _ _ _ _ (by rw [kept_systematic_length]; omega), kept_systematic_length,
      Nat.add_sub_cancel_left, getD_eq_getElem _ _ below]
  have mem := getElem_mem below
  rw [← here] at mem
  have parity := (mem_kept.mp mem).1.1
  have stream : streamAt (3 * (cbLen + 4)) (keptAt (cbLen + 4) (cbLen + 4 + x)) ≠ 0 := by
    unfold streamAt
    rw [if_neg (Nat.not_lt.mpr parity)]
    omega
  refine ⟨?_, stream⟩
  have listed : (tablesOf cbLen).parityBits =
      (kept (3 * (cbLen + 4)) (kP (3 * (cbLen + 4))) (2 * kP (3 * (cbLen + 4)))).map _ := filterMap_entryAt _
  rw [listed, getD_eq_getElem _ _ (by rwa [length_map]), getElem_map, ← here, codedAt_div, third]

theorem fill_bit {cbLen x : Nat} (whole : 8 ∣ cbLen) (systematic parity wBuff : Buffer) (inside : x < 3 * (cbLen + 4)) :
    bitAt (fill (tablesOf cbLen) cbLen systematic parity wBuff) x =
      codedBit (cbLen + 4) systematic parity (codedAt (3 * (cbLen + 4)) (keptAt (cbLen + 4) x)) := by
  obtain ⟨m, rfl⟩ := whole
  have byte : 8 * ((3 * (8 * m) + 12) / 24) = 8 * m := by omega
  have first_ := bitInterleaverRun_puts ((tablesOf (8 * m)).systematicBits.getD · 0) (8 * m + 4) 0 systematic wBuff
    (.inl rfl)
  have second := fun w => bitInterleaverRun_puts ((tablesOf (8 * m)).parityBits.getD · 0) ((8 * m + 4) * 2) 4 parity w
    (.inr ⟨rfl, by omega, by omega⟩)
  have front : ∀ x < 8 * m + 4,
      bitAt (bitInterleaverRun ((tablesOf (8 * m)).systematicBits.getD · 0) (8 * m + 4) systematic wBuff 0) x =
        codedBit (8 * m + 4) systematic parity (codedAt (3 * (8 * m + 4)) (keptAt (8 * m + 4) x)) := by
    intro x inside
    obtain ⟨table, stream⟩ := systematicBits_getD inside
    rw [first_ x, if_pos (by omega), Nat.sub_zero]
    dsimp only
    rw [table]
    unfold codedBit
    rw [codedAt_mod, stream, if_pos rfl]
  unfold fill
  rw [bitAt_behind, byte]
  by_cases later : 8 * m ≤ x
  · rw [if_pos later, second _ (x - 8 * m)]
    by_cases parityBits : 8 * m + 4 ≤ x
    · obtain ⟨y, rfl⟩ := Nat.exists_eq_add_of_le parityBits
      obtain ⟨table, stream⟩ := @parityBits_getD (8 * m) y (by omega)
      have small := streamAt_lt (3 * (8 * m + 4)) (keptAt (8 * m + 4) (8 * m + 4 + y))
      rw [if_pos (by omega), show 8 * m + 4 + y - 8 * m - 4 = y by omega]
      dsimp only
      rw [table]
      unfold codedBit
      rw [codedAt_mod, if_neg stream]
      by_cases one : streamAt (3 * (8 * m + 4)) (keptAt (8 * m + 4) (8 * m + 4 + y)) = 1
      · rw [if_pos one, one, if_neg (by decide), Nat.add_zero]
      · rw [if_neg one, if_pos (by omega), Nat.add_comm]
    · rw [if_neg (by omega), bitAt_shift, byte, Nat.add_sub_cancel' later]
      exact front x (by omega)
  · rw [if_neg later]
    exact front x (by omega)

/-! ### The bits that are sent -/

theorem selectBits_spec (wBuff : Buffer) {inLen outLen wOffset fuel wLen rPtr : Nat} (output : Buffer)
    (inside : rPtr < inLen) (within : wLen ≤ outLen) (enough : outLen - wLen ≤ fuel) :
    ∃ result, selectBits wBuff inLen outLen wOffset fuel wLen rPtr output = some result ∧
      (∀ k < wLen + wOffset, bitAt result k = bitAt output k) ∧
      ∀ i, wLen + i < outLen → bitAt result (wLen + wOffset + i) = bitAt wBuff ((rPtr + i) % inLen) := by
  induction fuel generalizing wLen rPtr output with
  | zero =>
    refine ⟨output, if_neg (by omega), fun _ _ => rfl, ?_⟩
    omega
  | succ fuel ih =>
    unfold selectBits
    by_cases more : wLen < outLen
    · rw [if_pos more]
      have copied : ∃ cpLen, (if inLen ≤ outLen - wLen + rPtr then inLen - rPtr else outLen - wLen) = cpLen ∧
          0 < cpLen ∧ wLen + cpLen ≤ outLen ∧ rPtr + cpLen ≤ inLen := by
        refine ⟨_, rfl, ?_⟩
        split <;> omega
      obtain ⟨cpLen, eq, positive, fits, room⟩ := copied
      have next : (if inLen ≤ rPtr + cpLen then rPtr + cpLen - inLen else rPtr + cpLen) = (rPtr + cpLen) % inLen := by
        split
        · rename_i end_
          rw [Nat.le_antisymm room end_, Nat.sub_self, mod_self]
        · rename_i short
          rw [mod_eq_of_lt (by omega)]
      dsimp only
      rw [eq, next]
      obtain ⟨before, here⟩ := bitCopy_bits output (wLen + wOffset) wBuff rPtr cpLen
      obtain ⟨result, run, kept_, later⟩ := ih (bitCopy output (wLen + wOffset) wBuff rPtr cpLen)
        (mod_lt _ (by omega)) fits (by omega)
      refine ⟨result, run, ?_, ?_⟩
      · intro k early
        rw [kept_ k (by omega), before k early]
      · intro i wanted
        by_cases first_ : i < cpLen
        · rw [kept_ _ (by omega), here i first_, mod_eq_of_lt (by omega)]
        · have rest_ := later (i - cpLen) (by omega)
          rw [show wLen + cpLen + wOffset + (i - cpLen) = wLen + wOffset + i by omega, mod_add_mod,
            show rPtr + cpLen + (i - cpLen) = rPtr + i by omega] at rest_
          exact rest_
    · rw [if_neg more]
      refine ⟨output, rfl, fun _ _ => rfl, ?_⟩
      omega

def Filled (tables : Tables) (cbIdx : Nat) (systematic parity wBuff : Buffer) : Prop :=
  ∃ earlier output outLen wOffset fuel result,
    rmTurboTxLut tables earlier systematic parity output cbIdx outLen wOffset 0 fuel = some (0, wBuff, result)

theorem startOf_lt (positive : 1 ≤ d) {rvIdx : Nat} (version : rvIdx < 4) : startOf (3 * d) rvIdx < 3 * d := by
  have found := findIdx?_kept positive version
  have inside := (findIdx?_eq_some_iff_getElem.mp found).1
  rwa [kept_length] at inside

theorem filled_eq {cbIdx cbLen : Nat} {systematic parity wBuff : Buffer} (size : isrranCbsegmCbsize cbIdx = some cbLen)
    (filled : Filled (tablesOf cbLen) cbIdx systematic parity wBuff) :
    ∃ earlier, wBuff = fill (tablesOf cbLen) cbLen systematic parity earlier := by
  obtain ⟨earlier, output, outLen, wOffset, fuel, result, call⟩ := filled
  refine ⟨earlier, ?_⟩
  unfold rmTurboTxLut at call
  rw [size] at call
  dsimp only at call
  rw [if_pos (by decide)] at call
  split at call
  · cases call
  · obtain ⟨_, -, same⟩ := Option.map_eq_some_iff.mp call
    exact (congrArg (fun r => r.2.1) same).symm

theorem rmTurboTxLut_emits {cbIdx cbLen rvIdx : Nat} (size : isrranCbsegmCbsize cbIdx = some cbLen)
    (version : rvIdx < 4) {systematic parity wBuff : Buffer}
    (buffer : rvIdx = 0 ∨ Filled (tablesOf cbLen) cbIdx systematic parity wBuff) (output : Buffer)
    {outLen wOffset fuel : Nat} (enough : outLen ≤ fuel) :
    ∃ wBuff' sent, rmTurboTxLut (tablesOf cbLen) wBuff systematic parity output cbIdx outLen wOffset rvIdx fuel =
        some (0, wBuff', sent) ∧
      ∀ i < outLen, bitAt sent (wOffset + i) =
        codedBit (cbLen + 4) systematic parity (((tablesOf cbLen).row rvIdx).getD (i % (3 * cbLen + 12)) 0) := by
  have whole := (tcCbSizes_spec cbLen (cbsize_mem size)).1
  have len : 3 * cbLen + 12 = 3 * (cbLen + 4) := by ring
  have filled : ∃ earlier, (if rvIdx = 0 then fill (tablesOf cbLen) cbLen systematic parity wBuff else wBuff) =
      fill (tablesOf cbLen) cbLen systematic parity earlier := by
    by_cases zero : rvIdx = 0
    · exact ⟨wBuff, if_pos zero⟩
    · rw [if_neg zero]
      exact filled_eq size (buffer.resolve_left zero)
  obtain ⟨earlier, eq⟩ := filled
  have start : (tablesOf cbLen).k0Vec rvIdx = some (startOf (3 * (cbLen + 4)) rvIdx) := k0Vec_eq (by omega) version
  have below := startOf_lt (by omega : 1 ≤ cbLen + 4) version
  obtain ⟨sent, run, -, bits⟩ := @selectBits_spec (fill (tablesOf cbLen) cbLen systematic parity earlier)
    (3 * (cbLen + 4)) outLen wOffset fuel 0 _ output below (Nat.zero_le _) (by omega)
  unfold rmTurboTxLut
  rw [size]
  dsimp only
  rw [if_pos version, eq, start]
  dsimp only
  rw [len, run]
  refine ⟨_, sent, rfl, ?_⟩
  intro i wanted
  have around := mod_lt i (by omega : 0 < 3 * (cbLen + 4))
  have bit := bits i (by omega)
  rw [Nat.zero_add] at bit
  rw [bit, fill_bit whole _ _ _ (mod_lt _ (by omega)), row_eq version, rowOf_getD _ _ around, add_mod_mod]
  rfl

end

/-! ### The soft values that are added -/

section
variable {α : Type} [Add α] {input : Nat → α} {deinter : Nat → Nat} {inLen outLen lanes tail : Nat}

def addSpan (input : Nat → α) (deinter : Nat → Nat) (outLen i n : Nat) (output : Nat → α) : Nat → α :=
  (range' i n).foldl (fun output i => addAt input (deinter (i % outLen)) i output) output

theorem addSpan_add (i m n : Nat) (output : Nat → α) : addSpan input deinter outLen i (m + n) output =
    addSpan input deinter outLen (i + m) n (addSpan input deinter outLen i m output) := by
  unfold addSpan
  rw [← List.range'_append_1, foldl_append]

theorem addBlock_eq {xPtr lutPtr : Nat} (same : xPtr % outLen = lutPtr) (inside : lutPtr + lanes ≤ outLen)
    (output : Nat → α) :
    addBlock input deinter lanes xPtr lutPtr output = addSpan input deinter outLen xPtr lanes output := by
  unfold addBlock addSpan
  rw [List.range'_eq_map_range, foldl_map]
  apply foldl_ext
  intro output j mem
  have below := List.mem_range.mp mem
  rw [← mod_add_mod, same, mod_eq_of_lt (by omega)]

theorem addBlocks_eq (n : Nat) (inside : lanes * n ≤ outLen) (positive : 0 < lanes) (output : Nat → α) :
    (range n).foldl (fun output i => addBlock input deinter lanes (lanes * i) (lanes * i) output) output =
      addSpan input deinter outLen 0 (lanes * n) output := by
  induction n with
  | zero => rfl
  | succ n ih =>
    rw [mul_succ] at inside ⊢
    rw [range_succ, foldl_append, ih (by omega), foldl_cons, foldl_nil,
      addBlock_eq (mod_eq_of_lt (by omega)) inside, addSpan_add, Nat.zero_add]

structure VectorInv (input : Nat → α) (deinter : Nat → Nat) (inLen outLen lanes : Nat) (output : Nat → α)
    (s : VectorState α) : Prop where
  counts : s.xPtr = s.inputCnt
  table : s.inputCnt = s.nwrapps * outLen + s.lutPtr
  ahead : s.intCnt = s.lutPtr + lanes
  aligned : lanes ∣ s.lutPtr
  inside : s.inputCnt ≤ inLen
  room : s.inputCnt < inLen - lanes → s.lutPtr + lanes ≤ outLen
  added : s.output = addSpan input deinter outLen 0 s.inputCnt output

theorem tail_eq {lutPtr : Nat} (aligned : lanes ∣ lutPtr) (within : lutPtr ≤ outLen) (end_ : outLen < lutPtr + lanes) :
    outLen = lutPtr + outLen % lanes := by
  obtain ⟨q, rfl⟩ := aligned
  obtain ⟨r, rfl⟩ := Nat.exists_eq_add_of_le within
  rw [mul_add_mod, mod_eq_of_lt (by omega)]

theorem addVectors_spec (positive : 0 < lanes) (rest_ : outLen % lanes = tail) (some_ : 0 < tail)
    (long : lanes ≤ outLen) (output : Nat → α) {fuel : Nat} {s : VectorState α} (inv : VectorInv input deinter inLen outLen lanes output s)
    (enough : inLen - s.inputCnt ≤ fuel) :
    ∃ s', addVectors input deinter inLen outLen lanes tail fuel s = some s' ∧
      VectorInv input deinter inLen outLen lanes output s' := by
  induction fuel generalizing s with
  | zero => exact ⟨s, if_neg (by omega), inv⟩
  | succ fuel ih =>
    unfold addVectors
    by_cases more : s.inputCnt < inLen - lanes
    · rw [if_pos more]
      have fits := inv.room more
      have below : s.lutPtr < outLen := by omega
      have place : s.xPtr % outLen = s.lutPtr := by
        rw [inv.counts, inv.table, Nat.mul_comm, mul_add_mod, mod_eq_of_lt below]
      have block : addBlock input deinter lanes s.xPtr s.lutPtr s.output =
          addSpan input deinter outLen 0 (s.inputCnt + lanes) output := by
        rw [addBlock_eq place fits, inv.added, inv.counts, addSpan_add, Nat.zero_add]
      dsimp only
      rw [block]
      by_cases wraps : outLen ≤ s.intCnt + lanes ∧ s.inputCnt + lanes < inLen - lanes
      · rw [if_pos wraps]
        have ahead := inv.ahead
        have counts := inv.table
        have step : outLen = s.lutPtr + lanes + tail := by
          have aligned : lanes ∣ s.lutPtr + lanes := Nat.dvd_add inv.aligned (Nat.dvd_refl lanes)
          by_cases last : outLen < s.lutPtr + lanes + lanes
          · rw [← rest_]
            exact tail_eq aligned fits last
          · have whole : outLen = s.lutPtr + lanes + lanes := by omega
            have none_ : outLen % lanes = 0 := by
              rw [whole]
              exact mod_eq_zero_of_dvd (Nat.dvd_add aligned (Nat.dvd_refl lanes))
            omega
        have round : (s.nwrapps + 1) * outLen = s.inputCnt + lanes + tail := by
          rw [succ_mul]
          omega
        apply ih
        · refine ⟨?_, ?_, ?_, Nat.dvd_zero lanes, ?_, fun _ => ?_, ?_⟩
          · exact round
          · show s.inputCnt + lanes + tail = (s.nwrapps + 1) * outLen + 0
            omega
          · exact (Nat.zero_add lanes).symm
          · show s.inputCnt + lanes + tail ≤ inLen
            omega
          · show 0 + lanes ≤ outLen
            omega
          · show (range' ((s.nwrapps + 1) * outLen - tail) tail).foldl _ _ = _
            rw [round, Nat.add_sub_cancel, addSpan_add _ (s.inputCnt + lanes) tail, Nat.zero_add]
            rfl
        · show inLen - (s.inputCnt + lanes + tail) ≤ fuel
          omega
      · rw [if_neg wraps]
        have ahead := inv.ahead
        have counts := inv.table
        apply ih
        · refine ⟨?_, ?_, ?_, Nat.dvd_add inv.aligned (Nat.dvd_refl lanes), ?_, ?_, rfl⟩
          · show s.xPtr + lanes = s.inputCnt + lanes
            rw [inv.counts]
          · show s.inputCnt + lanes = s.nwrapps * outLen + (s.lutPtr + lanes)
            omega
          · show s.intCnt + lanes = s.lutPtr + lanes + lanes
            omega
          · show s.inputCnt + lanes ≤ inLen
            omega
          · intro again
            have again : s.inputCnt + lanes < inLen - lanes := again
            show s.lutPtr + lanes + lanes ≤ outLen
            omega
        · show inLen - (s.inputCnt + lanes) ≤ fuel
          omega
    · rw [if_neg more]
      exact ⟨s, rfl, inv⟩

theorem rxLutVector_eq (positive : 0 < lanes) (rest_ : outLen % lanes = tail) (some_ : 0 < tail) (long : lanes ≤ outLen)
    (output : Nat → α) {fuel : Nat} (enough : inLen ≤ fuel) :
    rxLutVector input deinter inLen outLen lanes tail output fuel =
      some (addSpan input deinter outLen 0 inLen output) := by
  unfold rxLutVector
  by_cases short : inLen ≤ outLen
  · have blocks : lanes * (inLen / lanes) ≤ inLen := mul_div_le inLen lanes
    have vectors := @addBlocks_eq _ _ input deinter outLen lanes (inLen / lanes) (by omega) positive output
    rw [if_pos short, vectors]
    have split := @addSpan_add _ _ input deinter outLen 0 (lanes * (inLen / lanes))
      (inLen - lanes * (inLen / lanes)) output
    rw [Nat.add_sub_cancel' blocks, Nat.zero_add] at split
    rw [split]
    rfl
  · rw [if_neg short]
    have start : VectorInv input deinter inLen outLen lanes output ⟨lanes, 0, 0, 0, 0, output⟩ := by
      refine ⟨rfl, ?_, ?_, Nat.dvd_zero lanes, Nat.zero_le _, fun _ => ?_, rfl⟩
      · show 0 = 0 * outLen + 0
        omega
      · exact (Nat.zero_add lanes).symm
      · show 0 + lanes ≤ outLen
        omega
    obtain ⟨s, run, inv⟩ := @addVectors_spec _ _ _ _ _ _ _ tail positive rest_ some_ long output fuel _ start
      (Nat.le_trans (sub_le _ _) enough)
    rw [run]
    have split := @addSpan_add _ _ input deinter outLen 0 s.inputCnt (inLen - s.inputCnt) output
    rw [Nat.add_sub_cancel' inv.inside, Nat.zero_add] at split
    rw [split, ← inv.added]
    rfl

theorem addSpan_apply (n : Nat) (output : Nat → α) (p : Nat) : addSpan input deinter outLen 0 n output p =
    (((range n).filter fun i => deinter (i % outLen) = p).map input).foldl (· + ·) (output p) := by
  have positions : addSpan input deinter outLen 0 n output =
      accumulate (· + ·) input 0 ((range n).map fun i => deinter (i % outLen)) output := by
    rw [accumulate_eq_foldl, length_map, length_range]
    unfold addSpan
    rw [← range_eq_range']
    apply foldl_ext
    intro output i mem
    have inside := List.mem_range.mp mem
    simp [addAt, inside]
  rw [positions, accumulate_apply, length_map, length_range]
  simp only [Nat.zero_add]
  congr 2
  apply filter_congr
  intro i mem
  have inside := List.mem_range.mp mem
  simp [inside]

end

/-! ### The input of the decoder -/

def keptColumns (cols : Nat) : ColumnPerm cols where
  perm c := c
  inv c := c
  perm_lt _ inside := inside
  inv_lt _ inside := inside
  inv_perm _ _ := rfl
  perm_inv _ _ := rfl

theorem sbPlace_inj {longCb nofSb a b : Nat} (whole : nofSb ∣ longCb)
    (same : sbPlace longCb nofSb a = sbPlace longCb nofSb b) : a = b := by
  obtain ⟨rows, rfl⟩ := whole
  rcases Nat.eq_zero_or_pos nofSb with rfl | positive
  · simp only [sbPlace, Nat.zero_mul, Nat.mul_zero, Nat.not_lt_zero, if_false] at same
    omega
  · have rowsEq : nofSb * rows / nofSb = rows := Nat.mul_div_cancel_left rows positive
    have window : ∀ x < nofSb * rows, x % rows * nofSb + x / rows = (keptColumns nofSb).cell rows x := fun _ _ => rfl
    have small : ∀ x < nofSb * rows, x % rows * nofSb + x / rows < nofSb * rows := by
      intro x inside
      rw [window x inside]
      exact ColumnPerm.cell_lt inside
    unfold sbPlace at same
    rw [rowsEq] at same
    by_cases bitA : a < 3 * (nofSb * rows) <;> by_cases bitB : b < 3 * (nofSb * rows)
    · rw [if_pos bitA, if_pos bitB] at same
      have belowA : a / 3 < nofSb * rows := by omega
      have belowB : b / 3 < nofSb * rows := by omega
      have smallA := small _ belowA
      have smallB := small _ belowB
      have streams : a % 3 = b % 3 := by
        have quotient := congrArg (· / (nofSb * rows + 32)) same
        simp only [Nat.mul_comm _ (nofSb * rows + 32), mul_add_div (by omega : 0 < nofSb * rows + 32)] at quotient
        rwa [div_eq_of_lt (by omega), div_eq_of_lt (by omega)] at quotient
      rw [streams] at same
      have cells := Nat.add_left_cancel same
      rw [window _ belowA, window _ belowB] at cells
      have places := congrArg ((keptColumns nofSb).place rows) cells
      rw [ColumnPerm.place_cell belowA, ColumnPerm.place_cell belowB] at places
      omega
    · rw [if_pos bitA, if_neg bitB] at same
      have smallA := small (a / 3) (by omega)
      have bound : a % 3 * (nofSb * rows + 32) ≤ 2 * (nofSb * rows + 32) := Nat.mul_le_mul_right _ (by omega)
      omega
    · rw [if_neg bitA, if_pos bitB] at same
      have smallB := small (b / 3) (by omega)
      have bound : b % 3 * (nofSb * rows + 32) ≤ 2 * (nofSb * rows + 32) := Nat.mul_le_mul_right _ (by omega)
      omega
    · rw [if_neg bitA, if_neg bitB] at same
      omega

theorem deinterPlace_inj (target : Target) (enableInputTdec : Bool) (cbLen : Nat) {a b : Nat}
    (same : deinterPlace target enableInputTdec cbLen a = deinterPlace target enableInputTdec cbLen b) : a = b := by
  have whole : getSubblocks target cbLen ∣ cbLen ∨ getSubblocks target cbLen = 0 := by
    unfold getSubblocks
    split
    · rename_i wide
      exact .inl (dvd_of_mod_eq_zero wide.2.1)
    · split
      · rename_i narrow
        exact .inl (dvd_of_mod_eq_zero narrow.1)
      · exact .inr rfl
  unfold deinterPlace at same
  split at same
  · exact same
  · rename_i windows
    exact sbPlace_inj (whole.resolve_right fun none_ => windows (.inl none_)) same

theorem rmTurboRxLut_adds {α : Type} [Add α] (target : Target) {cbIdx cbLen rvIdx : Nat}
    (size : isrranCbsegmCbsize cbIdx = some cbLen) (version : rvIdx < 4) (input output : Nat → α) (inLen : Nat)
    (enableInputTdec : Bool) {fuel : Nat} (enough : inLen ≤ fuel) :
    ∃ received, rmTurboRxLut_ target (tablesOf cbLen) input output inLen cbIdx rvIdx enableInputTdec fuel =
        some (0, received) ∧
      ∀ c < 3 * cbLen + 12, received (deinterPlace target enableInputTdec cbLen c) =
        (((range inLen).filter fun i =>
          ((tablesOf cbLen).row rvIdx).getD (i % (3 * cbLen + 12)) 0 = c).map input).foldl (· + ·)
          (output (deinterPlace target enableInputTdec cbLen c)) := by
  obtain ⟨whole, large, -⟩ := tcCbSizes_spec cbLen (cbsize_mem size)
  obtain ⟨m, rfl⟩ := whole
  have scalar : addRest input (fun i => deinterPlace target enableInputTdec (8 * m)
      (((tablesOf (8 * m)).row rvIdx).getD i 0)) inLen (3 * (8 * m) + 12) 0 output =
      addSpan input (fun i => deinterPlace target enableInputTdec (8 * m)
        (((tablesOf (8 * m)).row rvIdx).getD i 0)) (3 * (8 * m) + 12) 0 inLen output := rfl
  have wide : (3 * (8 * m) + 12) % 16 = if (3 * (8 * m) + 12) % 16 = 12 then 12 else 4 := by
    split <;> omega
  unfold rmTurboRxLut_
  rw [size]
  dsimp only
  rw [if_pos version]
  refine ⟨addSpan input (fun i => deinterPlace target enableInputTdec (8 * m)
    (((tablesOf (8 * m)).row rvIdx).getD i 0)) (3 * (8 * m) + 12) 0 inLen output, ?_, ?_⟩
  · cases target with
    | portable => rw [scalar, map_some]
    | sse => rw [rxLutVector_eq (by decide) (by omega) (by decide) (by omega) output enough, map_some]
    | avx =>
      rw [rxLutVector_eq (by decide) wide (by split <;> decide) (by omega) output enough, map_some]
    | avx2 =>
      rw [rxLutVector_eq (by decide) wide (by split <;> decide) (by omega) output enough, map_some]
  · intro c _
    rw [addSpan_apply]
    congr 2
    apply filter_congr
    intro i _
    apply decide_eq_decide.mpr
    constructor
    · exact deinterPlace_inj target enableInputTdec (8 * m)
    · intro same
      rw [same]

/-! ### Both sides -/

structure Agree (tables : Tables) (cbIdx cbLen : Nat) : Prop where
  permutes : ∀ rvIdx < 4, (tables.row rvIdx).Perm (range (3 * cbLen + 12))
  emits : ∀ rvIdx < 4, ∀ systematic parity wBuff output outLen wOffset fuel, outLen ≤ fuel →
    (rvIdx = 0 ∨ Filled tables cbIdx systematic parity wBuff) →
    ∃ wBuff' sent, rmTurboTxLut tables wBuff systematic parity output cbIdx outLen wOffset rvIdx fuel =
        some (0, wBuff', sent) ∧
      ∀ i < outLen, bitAt sent (wOffset + i) =
        codedBit (cbLen + 4) systematic parity ((tables.row rvIdx).getD (i % (3 * cbLen + 12)) 0)
  adds : ∀ {α : Type} [Add α] (target : Target), ∀ rvIdx < 4, ∀ (input output : Nat → α) inLen enableInputTdec fuel,
    inLen ≤ fuel →
    ∃ received, rmTurboRxLut_ target tables input output inLen cbIdx rvIdx enableInputTdec fuel = some (0, received) ∧
      ∀ c < 3 * cbLen + 12, received (deinterPlace target enableInputTdec cbLen c) =
        (((range inLen).filter fun i => (tables.row rvIdx).getD (i % (3 * cbLen + 12)) 0 = c).map input).foldl
          (· + ·) (output (deinterPlace target enableInputTdec cbLen c))
  apart : ∀ target enableInputTdec a b,
    deinterPlace target enableInputTdec cbLen a = deinterPlace target enableInputTdec cbLen b → a = b

theorem rmTurbo_tables_agree {cbIdx cbLen : Nat} (size : isrranCbsegmCbsize cbIdx = some cbLen)
    (temp : Nat → Nat → Nat) : ∃ rounds, ∀ fuel ≥ rounds, ∃ tables,
      gentables cbLen temp fuel = some tables ∧ Agree tables cbIdx cbLen := by
  refine ⟨nCb (3 * (cbLen + 4)), fun fuel enough => ⟨tablesOf cbLen, gentables_eq cbLen temp enough, ?_⟩⟩
  constructor
  · intro rvIdx version
    rw [row_eq version, show 3 * cbLen + 12 = 3 * (cbLen + 4) by ring]
    exact rowOf_perm (cbLen + 4) rvIdx
  · intro rvIdx version systematic parity wBuff output outLen wOffset fuel enough buffer
    exact rmTurboTxLut_emits size version buffer output enough
  · intro α _ target rvIdx version input output inLen enableInputTdec fuel enough
    exact rmTurboRxLut_adds target size version input output inLen enableInputTdec enough
  · intro target enableInputTdec a b
    exact deinterPlace_inj target enableInputTdec cbLen

theorem rmTurbo_tables_agree_smallest : ∃ rounds, ∀ fuel ≥ rounds, ∃ tables,
    gentables 40 (fun _ _ => 0) fuel = some tables ∧ Agree tables 0 40 :=
  @rmTurbo_tables_agree 0 40 rfl fun _ _ => 0

/-! ### Soft combining -/

section
variable {α : Type} [AddCommMonoid α]

structure Transmission (α : Type) where
  rvIdx : Nat
  len : Nat
  channel : Nat → Bool → α

structure SoftLink (α : Type) where
  wBuff : Buffer
  soft : Nat → α

def SoftLink.transmit (target : Target) (tables : Tables) (cbIdx fuel : Nat) (systematic parity : Buffer)
    (s : SoftLink α) (t : Transmission α) : Option (SoftLink α) := do
  let (_, wBuff, sent) ← rmTurboTxLut tables s.wBuff systematic parity (fun _ => 0) cbIdx t.len 0 t.rvIdx fuel
  let (_, soft) ← rmTurboRxLut target tables (fun i => t.channel i (bitAt sent i)) s.soft t.len cbIdx t.rvIdx fuel
  some ⟨wBuff, soft⟩

/-- What the channel made of the coded bit at place `c` in one transmission, repetitions included. -/
def Transmission.received (tables : Tables) (cbLen c : Nat) (bit : Bool) (t : Transmission α) : α :=
  (((range t.len).filter fun i => (tables.row t.rvIdx).getD (i % (3 * cbLen + 12)) 0 = c).map
    fun i => t.channel i bit).sum

theorem transmit_spec (target : Target) {cbIdx cbLen fuel : Nat} (size : isrranCbsegmCbsize cbIdx = some cbLen)
    {systematic parity : Buffer} {s : SoftLink α} {t : Transmission α} (version : t.rvIdx < 4) (enough : t.len ≤ fuel)
    (buffer : t.rvIdx = 0 ∨ Filled (tablesOf cbLen) cbIdx systematic parity s.wBuff) :
    ∃ s', s.transmit target (tablesOf cbLen) cbIdx fuel systematic parity t = some s' ∧
      Filled (tablesOf cbLen) cbIdx systematic parity s'.wBuff ∧
      ∀ c < 3 * cbLen + 12, s'.soft (deinterPlace target true cbLen c) = s.soft (deinterPlace target true cbLen c) +
        t.received (tablesOf cbLen) cbLen c (codedBit (cbLen + 4) systematic parity c) := by
  obtain ⟨wBuff, sent, call, bits⟩ := @rmTurboTxLut_emits _ _ _ size version _ _ _ buffer (fun _ => 0) _ 0 _ enough
  obtain ⟨soft, adds, sums⟩ := rmTurboRxLut_adds target size version (fun i => t.channel i (bitAt sent i)) s.soft t.len
    true enough
  have kept : Filled (tablesOf cbLen) cbIdx systematic parity wBuff := by
    by_cases first : t.rvIdx = 0
    · rw [first] at call
      exact ⟨_, _, _, _, _, _, call⟩
    · have same : wBuff = s.wBuff := by
        unfold rmTurboTxLut at call
        rw [size] at call
        dsimp only at call
        rw [if_pos version, if_neg first] at call
        split at call
        · cases call
        · obtain ⟨_, -, eq⟩ := Option.map_eq_some_iff.mp call
          exact (congrArg (fun r => r.2.1) eq).symm
      rw [same]
      exact buffer.resolve_left first
  refine ⟨⟨wBuff, soft⟩, ?_, kept, ?_⟩
  · unfold SoftLink.transmit rmTurboRxLut
    rw [call]
    simp only [bind_eq_bind, bind_some, adds]
  · intro c inside
    show soft _ = _
    rw [sums c inside, ← add_zero (s.soft _), foldl_assoc, ← sum_eq_foldl, add_zero]
    unfold Transmission.received
    congr 2
    apply map_congr_left
    intro i mem
    obtain ⟨within, place⟩ := List.mem_filter.mp mem
    have bit := bits i (List.mem_range.mp within)
    rw [Nat.zero_add, of_decide_eq_true place] at bit
    rw [bit]

theorem transmissions_spec (target : Target) {cbIdx cbLen fuel : Nat} (size : isrranCbsegmCbsize cbIdx = some cbLen)
    {systematic parity : Buffer} (sent : List (Transmission α)) (usable : ∀ t ∈ sent, t.rvIdx < 4 ∧ t.len ≤ fuel)
    (s : SoftLink α)
    (start : (∀ t ∈ sent.head?, t.rvIdx = 0) ∨ Filled (tablesOf cbLen) cbIdx systematic parity s.wBuff) :
    ∃ s', sent.foldlM (SoftLink.transmit target (tablesOf cbLen) cbIdx fuel systematic parity) s = some s' ∧
      ∀ c < 3 * cbLen + 12, s'.soft (deinterPlace target true cbLen c) = s.soft (deinterPlace target true cbLen c) +
        (sent.map (Transmission.received (tablesOf cbLen) cbLen c (codedBit (cbLen + 4) systematic parity c))).sum := by
  induction sent generalizing s with
  | nil => exact ⟨s, rfl, fun c _ => (add_zero _).symm⟩
  | cons t sent ih =>
    obtain ⟨version, enough⟩ := usable t mem_cons_self
    obtain ⟨s₁, step, filled, adds⟩ := transmit_spec target size version enough
      (start.imp_left fun first => first t rfl)
    obtain ⟨s₂, run, sums⟩ := ih (fun t mem => usable t (mem_cons_of_mem _ mem)) s₁ (.inr filled)
    refine ⟨s₂, ?_, ?_⟩
    · rw [foldlM_cons, step]
      exact run
    · intro c inside
      rw [sums c inside, adds c inside, map_cons, sum_cons, add_assoc]

theorem soft_values_combine (target : Target) {cbIdx cbLen : Nat} (size : isrranCbsegmCbsize cbIdx = some cbLen)
    (temp : Nat → Nat → Nat) : ∃ rounds, ∀ fuel ≥ rounds, ∃ tables, gentables cbLen temp fuel = some tables ∧
      ∀ (systematic parity wBuff : Buffer) (sent : List (Transmission α)),
        (∀ t ∈ sent, t.rvIdx < 4 ∧ t.len ≤ fuel) → (∀ t ∈ sent.head?, t.rvIdx = 0) →
        ∃ s, sent.foldlM (SoftLink.transmit target tables cbIdx fuel systematic parity) ⟨wBuff, fun _ => 0⟩ = some s ∧
          ∀ c < 3 * cbLen + 12, s.soft (deinterPlace target true cbLen c) =
            (sent.map (Transmission.received tables cbLen c (codedBit (cbLen + 4) systematic parity c))).sum := by
  refine ⟨nCb (3 * (cbLen + 4)), fun fuel enough => ⟨tablesOf cbLen, gentables_eq cbLen temp enough, ?_⟩⟩
  intro systematic parity wBuff sent usable first
  obtain ⟨s, run, sums⟩ := transmissions_spec target size sent usable ⟨wBuff, fun _ => 0⟩ (.inl first)
  refine ⟨s, run, fun c inside => ?_⟩
  rw [sums c inside]
  exact zero_add _

end

theorem soft_values_combine_twice : ∃ rounds, ∀ fuel ≥ rounds, ∃ tables,
    gentables 40 (fun _ _ => 0) fuel = some tables ∧
      ∀ (systematic parity wBuff : Buffer) (sent : List (Transmission Int)),
        (∀ t ∈ sent, t.rvIdx < 4 ∧ t.len ≤ fuel) → (∀ t ∈ sent.head?, t.rvIdx = 0) →
        ∃ s, sent.foldlM (SoftLink.transmit .sse tables 0 fuel systematic parity) ⟨wBuff, fun _ => 0⟩ = some s ∧
          ∀ c < 132, s.soft (deinterPlace .sse true 40 c) =
            (sent.map (Transmission.received tables 40 c (codedBit 44 systematic parity c))).sum :=
  @soft_values_combine Int _ .sse 0 40 rfl fun _ _ => 0

end IsrRan.Phy.RmTurbo
