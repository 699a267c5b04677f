import Mathlib.Tactic.Ring
import IsrRan.Lib.CyclicSelect
import IsrRan.Lib.Lists
import IsrRan.Lib.SubBlock

/-! Rate matching of the convolutional code (rm_conv.c). The soft values are of any type with an addition;
`rxNull` stands for `ISRRAN_RX_NULL`. -/

namespace IsrRan.Phy.RmConv
open Lib List Nat

def nCols : Nat := 32

def nRowsMax : Nat := 32

def txNull : Nat := 100

def rmPermCc : List Nat :=
  [1, 17, 9, 25, 5, 21, 13, 29, 3, 19, 11, 27, 7, 23, 15, 31,
   0, 16, 8, 24, 4, 20, 12, 28, 2, 18, 10, 26, 6, 22, 14, 30]

def rmPermCcInv : List Nat :=
  [16, 0, 24, 8, 20, 4, 28, 12, 18, 2, 26, 10, 22, 6, 30, 14,
   17, 1, 25, 9, 21, 5, 29, 13, 19, 3, 27, 11, 23, 7, 31, 15]

def nrows (len : Nat) : Nat := (len / 3 - 1) / nCols + 1

def kP (len : Nat) : Nat := nrows len * nCols

def ndummy (len : Nat) : Nat := kP len - len / 3

def interleaved (input : Nat → Nat) (len : Nat) : List Nat :=
  (List.range 3).flatMap fun s => grid nCols (nrows len) fun j i =>
    if i * nCols + rmPermCc.getD j 0 < ndummy len then txNull
    else input ((i * nCols + rmPermCc.getD j 0 - ndummy len) * 3 + s)

def nextPlace (len j : Nat) : Nat := if j + 1 = 3 * kP len then 0 else j + 1

def collect (tmp : List Nat) (len outLen : Nat) : Nat → Nat → Nat → (Nat → Nat) → Option (Nat → Nat)
  | 0, k, _, output => if k < outLen then none else some output
  | fuel + 1, k, j, output =>
    if k < outLen then
      if tmp.getD j 0 ≠ txNull then
        collect tmp len outLen fuel (k + 1) (nextPlace len j) (Function.update output k (tmp.getD j 0))
      else collect tmp len outLen fuel k (nextPlace len j) output
    else some output

def rmConvTx (input : Nat → Nat) (inLen : Nat) (output : Nat → Nat) (outLen fuel : Nat) : Option (Int × (Nat → Nat)) :=
  if nRowsMax < nrows inLen then some (-1, output)
  else (collect (interleaved input inLen) inLen outLen fuel 0 0 output).map fun output => (0, output)

section
variable {α : Type} [Add α] [Zero α] [DecidableEq α] (rxNull : α)

def combine (old value : α) : α :=
  if old = rxNull then value else if value ≠ rxNull then old + value else old

def undoCollect (input : Nat → α) (len inLen : Nat) : Nat → Nat → Nat → (Nat → α) → Option (Nat → α)
  | 0, k, _, tmp => if k < inLen then none else some tmp
  | fuel + 1, k, j, tmp =>
    if k < inLen then
      let dI := j % kP len / nrows len
      let dJ := j % kP len % nrows len
      if ndummy len ≤ dJ * nCols + rmPermCc.getD dI 0 then
        undoCollect input len inLen fuel (k + 1) (nextPlace len j)
          (Function.update tmp j (combine rxNull (tmp j) (input k)))
      else undoCollect input len inLen fuel k (nextPlace len j) tmp
    else some tmp

def sourcePlace (len i j : Nat) : Nat :=
  let dI := (i + ndummy len) / nCols
  let dJ := (i + ndummy len) % nCols
  kP len * j + rmPermCcInv.getD dJ 0 * nrows len + dI

/-- `isrran_rm_conv_rx`: the last loop writes the positions `i * 3 + j`. -/
def rmConvRx (input : Nat → α) (inLen : Nat) (output : Nat → α) (outLen fuel : Nat) : Option (Int × (Nat → α)) :=
  if nRowsMax < nrows outLen then some (-1, output)
  else (undoCollect rxNull input outLen inLen fuel 0 0 fun _ => rxNull).map fun tmp =>
    (0, fun p =>
      if p < outLen / 3 * 3 then
        let o := tmp (sourcePlace outLen (p / 3) (p % 3))
        if o ≠ rxNull then o else 0
      else output p)

end

/-! ### The matrix -/

def columns : ColumnPerm nCols where
  perm c := rmPermCc.getD c 0
  inv c := rmPermCcInv.getD c 0
  perm_lt := by decide
  inv_lt := by decide
  inv_perm := by decide
  perm_inv := by decide

def keeps (len p : Nat) : Bool := ndummy len ≤ columns.cell (nrows len) (p % kP len)

def codedBit (len p : Nat) : Nat := (columns.cell (nrows len) (p % kP len) - ndummy len) * 3 + p / kP len

def readOrder (len : Nat) : List Nat := (keptIn (keeps len) (· % (3 * kP len)) 0 (3 * kP len)).map (codedBit len)

section
variable {d len p : Nat}

theorem kP_pos (len : Nat) : 0 < kP len := Nat.mul_pos (succ_pos _) (by decide)

theorem kP_eq (len : Nat) : kP len = nCols * nrows len := Nat.mul_comm _ _

theorem le_kP (d : Nat) : d ≤ kP (3 * d) := by
  unfold kP nrows nCols
  omega

theorem ndummy_add (d : Nat) : ndummy (3 * d) + d = kP (3 * d) := by
  have := le_kP d
  unfold ndummy
  omega

theorem cell_lt_kP (p : Nat) : columns.cell (nrows len) (p % kP len) < kP len := by
  have inside := mod_lt p (kP_pos len)
  rw [kP_eq] at inside ⊢
  exact ColumnPerm.cell_lt inside

theorem codedBit_lt (kept : keeps (3 * d) p = true) (inside : p < 3 * kP (3 * d)) : codedBit (3 * d) p < 3 * d := by
  have stream : p / kP (3 * d) < 3 := Nat.div_lt_of_lt_mul (by rwa [Nat.mul_comm])
  have cell := @cell_lt_kP (3 * d) p
  have dummies := ndummy_add d
  have data := of_decide_eq_true kept
  unfold codedBit
  omega

theorem sourcePlace_eq (len i j : Nat) :
    sourcePlace len i j = kP len * j + columns.place (nrows len) (i + ndummy len) := by
  unfold sourcePlace ColumnPerm.place
  rw [Nat.add_assoc]
  rfl

theorem sourcePlace_codedBit (kept : keeps (3 * d) p = true) (inside : p < 3 * kP (3 * d)) :
    sourcePlace (3 * d) (codedBit (3 * d) p / 3) (codedBit (3 * d) p % 3) = p := by
  have stream : p / kP (3 * d) < 3 := Nat.div_lt_of_lt_mul (by rwa [Nat.mul_comm])
  have data := of_decide_eq_true kept
  have split : codedBit (3 * d) p / 3 = columns.cell (nrows (3 * d)) (p % kP (3 * d)) - ndummy (3 * d) ∧
      codedBit (3 * d) p % 3 = p / kP (3 * d) := by
    unfold codedBit
    generalize p / kP (3 * d) = s at stream
    omega
  have cell : p % kP (3 * d) < nCols * nrows (3 * d) := kP_eq (3 * d) ▸ mod_lt p (kP_pos _)
  rw [sourcePlace_eq, split.1, split.2, Nat.sub_add_cancel data, ColumnPerm.place_cell cell]
  exact div_add_mod p _

theorem codedBit_sourcePlace {q : Nat} (inside : q < 3 * d) :
    sourcePlace (3 * d) (q / 3) (q % 3) < 3 * kP (3 * d) ∧
      keeps (3 * d) (sourcePlace (3 * d) (q / 3) (q % 3)) = true ∧
        codedBit (3 * d) (sourcePlace (3 * d) (q / 3) (q % 3)) = q := by
  have dummies := ndummy_add d
  have below : q / 3 + ndummy (3 * d) < nCols * nrows (3 * d) := by
    rw [← kP_eq]
    omega
  have place := @ColumnPerm.place_lt nCols columns _ _ below
  rw [sourcePlace_eq]
  rw [← kP_eq] at place
  have positive := kP_pos (3 * d)
  have quotient : (kP (3 * d) * (q % 3) + columns.place (nrows (3 * d)) (q / 3 + ndummy (3 * d))) / kP (3 * d) =
      q % 3 := by
    rw [mul_add_div positive, div_eq_of_lt place, Nat.add_zero]
  have cell : columns.cell (nrows (3 * d)) ((kP (3 * d) * (q % 3) +
      columns.place (nrows (3 * d)) (q / 3 + ndummy (3 * d))) % kP (3 * d)) = q / 3 + ndummy (3 * d) := by
    rw [mul_add_mod, mod_eq_of_lt place, ColumnPerm.cell_place below]
  refine ⟨?_, ?_, ?_⟩
  · calc
      _ < kP (3 * d) * (q % 3) + kP (3 * d) := Nat.add_lt_add_left place _
      _ = (q % 3 + 1) * kP (3 * d) := by ring
      _ ≤ 3 * kP (3 * d) := Nat.mul_le_mul_right _ (mod_lt q (by decide))
  · unfold keeps
    rw [cell]
    exact decide_eq_true (Nat.le_add_left _ _)
  · unfold codedBit
    omega

theorem mem_keptPlaces : p ∈ keptIn (keeps len) (· % (3 * kP len)) 0 (3 * kP len) ↔
    p < 3 * kP len ∧ keeps len p = true := by
  rw [mem_keptIn]
  apply and_congr_left
  intro _
  constructor
  · rintro ⟨i, -, below, rfl⟩
    rw [Nat.zero_add] at below
    exact mod_lt _ (Nat.lt_of_le_of_lt (Nat.zero_le i) below)
  · intro below
    exact ⟨p, Nat.zero_le p, by rwa [Nat.zero_add], mod_eq_of_lt below⟩

theorem nodup_keptPlaces : (keptIn (keeps len) (· % (3 * kP len)) 0 (3 * kP len)).Nodup := by
  apply List.Nodup.filter
  apply List.Nodup.map_on _ nodup_range'
  intro i memI j memJ same
  have belowI := (mem_range'_1.mp memI).2
  have belowJ := (mem_range'_1.mp memJ).2
  rw [Nat.zero_add] at belowI belowJ
  rwa [mod_eq_of_lt belowI, mod_eq_of_lt belowJ] at same

theorem readOrder_perm (d : Nat) : (readOrder (3 * d)).Perm (List.range (3 * d)) := by
  have distinct : (readOrder (3 * d)).Nodup := by
    apply List.Nodup.map_on _ nodup_keptPlaces
    intro p memP q memQ same
    obtain ⟨insideP, keptP⟩ := mem_keptPlaces.mp memP
    obtain ⟨insideQ, keptQ⟩ := mem_keptPlaces.mp memQ
    rw [← sourcePlace_codedBit keptP insideP, same, sourcePlace_codedBit keptQ insideQ]
  apply (perm_ext_iff_of_nodup distinct nodup_range).mpr
  intro q
  unfold readOrder
  rw [mem_map, mem_range]
  constructor
  · rintro ⟨p, mem, rfl⟩
    obtain ⟨inside, kept⟩ := mem_keptPlaces.mp mem
    exact codedBit_lt kept inside
  · intro inside
    obtain ⟨below, kept, back⟩ := codedBit_sourcePlace inside
    exact ⟨_, mem_keptPlaces.mpr ⟨below, kept⟩, back⟩

/-! ### The loops -/

theorem nextPlace_mod (i : Nat) : nextPlace len (i % (3 * kP len)) = (i + 1) % (3 * kP len) := by
  have inside := mod_lt i (Nat.mul_pos (by decide : 0 < 3) (kP_pos len))
  have next : (i % (3 * kP len) + 1) % (3 * kP len) = (i + 1) % (3 * kP len) := mod_add_mod i _ 1
  unfold nextPlace
  split
  · rename_i last
    rw [← next, last, mod_self]
  · rename_i more
    rw [← next, mod_eq_of_lt (Nat.lt_of_le_of_ne inside more)]

theorem interleaved_getD (input : Nat → Nat) (inside : p < 3 * kP len) :
    (interleaved input len).getD p 0 = if keeps len p then input (codedBit len p) else txNull := by
  have listed : interleaved input len = grid 3 (kP len) fun s r =>
      if columns.cell (nrows len) r < ndummy len then txNull
      else input ((columns.cell (nrows len) r - ndummy len) * 3 + s) := by
    rw [kP_eq]
    apply congrArg fun f => (List.range 3).flatMap f
    funext s
    exact grid_eq_map nCols (nrows len) fun j i =>
      if i * nCols + rmPermCc.getD j 0 < ndummy len then txNull
      else input ((i * nCols + rmPermCc.getD j 0 - ndummy len) * 3 + s)
  rw [listed, grid_getD inside]
  unfold keeps codedBit
  by_cases dummy : columns.cell (nrows len) (p % kP len) < ndummy len
  · rw [if_pos dummy, if_neg (by simpa using dummy)]
  · rw [if_neg dummy, if_pos (by simpa using dummy)]

theorem collect_eq (tmp : List Nat) (output : Nat → Nat) {outLen fuel k i : Nat} (within : k ≤ outLen) :
    collect tmp len outLen fuel k (i % (3 * kP len)) output =
      (select (fun p => tmp.getD p 0 != txNull) (· % (3 * kP len)) fuel i (outLen - k)).map fun places =>
        gather (fun p => tmp.getD p 0) k places output := by
  refine walk_eq_select (f := fun fuel k i output => collect tmp len outLen fuel k (i % (3 * kP len)) output)
    (fun fuel k i output => ?_) (fun _ _ => rfl) (fun _ _ _ _ => rfl) within
  cases fuel with
  | zero => rfl
  | succ fuel => simp only [collect, nextPlace_mod, bne_iff_ne]

end

section
variable {α : Type} [Add α] [DecidableEq α] {rxNull : α} {len : Nat}

theorem undoCollect_eq (input : Nat → α) (tmp : Nat → α) {inLen fuel k i : Nat} (within : k ≤ inLen) :
    undoCollect rxNull input len inLen fuel k (i % (3 * kP len)) tmp =
      (select (keeps len) (· % (3 * kP len)) fuel i (inLen - k)).map fun places =>
        accumulate (combine rxNull) input k places tmp := by
  refine walk_eq_select (f := fun fuel k i tmp => undoCollect rxNull input len inLen fuel k (i % (3 * kP len)) tmp)
    (fun fuel k i tmp => ?_) (fun _ _ => rfl) (fun _ _ _ _ => rfl) within
  cases fuel with
  | zero => rfl
  | succ fuel =>
    simp only [undoCollect, nextPlace_mod, keeps, decide_eq_true_iff]
    rfl

end

/-! ### Both directions -/

def taken (d k : Nat) : Nat := (readOrder (3 * d)).getD (k % (3 * d)) 0

section
variable {d outLen : Nat}

def places (d outLen : Nat) : List Nat :=
  cycled (keptIn (keeps (3 * d)) (· % (3 * kP (3 * d))) 0 (3 * kP (3 * d))) outLen

theorem keptPlaces_length (d : Nat) :
    (keptIn (keeps (3 * d)) (· % (3 * kP (3 * d))) 0 (3 * kP (3 * d))).length = 3 * d := by
  calc
    _ = (readOrder (3 * d)).length := (length_map _).symm
    _ = (List.range (3 * d)).length := (readOrder_perm d).length_eq
    _ = 3 * d := length_range

section
variable (positive : 1 ≤ d)
include positive

theorem keptPlaces_ne_nil :
    keptIn (keeps (3 * d)) (· % (3 * kP (3 * d))) 0 (3 * kP (3 * d)) ≠ [] := by
  intro empty
  have length := keptPlaces_length d
  rw [empty, length_nil] at length
  omega

theorem places_inside {p : Nat} (mem : p ∈ places d outLen) :
    p < 3 * kP (3 * d) ∧ keeps (3 * d) p = true :=
  mem_keptPlaces.mp (mem_of_mem_cycled (keptPlaces_ne_nil positive) mem)

theorem codedBit_places {k : Nat} (inside : k < (places d outLen).length) :
    codedBit (3 * d) (places d outLen)[k] = taken d k := by
  have below : k % (3 * d) < (readOrder (3 * d)).length := by
    rw [(readOrder_perm d).length_eq, length_range]
    exact mod_lt k (by omega)
  have there := below
  unfold readOrder at there
  rw [length_map] at there
  have place : (places d outLen)[k] = _ := cycled_getElem inside
  rw [place, keptPlaces_length, getD_eq_getElem _ _ there]
  unfold taken
  rw [getD_eq_getElem _ _ below]
  exact (getElem_map (codedBit (3 * d))).symm

theorem select_places {fuel : Nat} (enough : outLen * (3 * kP (3 * d)) ≤ fuel) :
    select (keeps (3 * d)) (· % (3 * kP (3 * d))) fuel 0 outLen = some (places d outLen) :=
  select_periodic (fun i => add_mod_right i _) (keptPlaces_ne_nil positive) enough

end

theorem not_too_large (bounded : d ≤ 1024) : ¬ nRowsMax < nrows (3 * d) := by
  unfold nRowsMax nrows nCols
  omega

theorem rmConvTx_sends (positive : 1 ≤ d) (bounded : d ≤ 1024) {input : Nat → Nat}
    (coded : ∀ q < 3 * d, input q ≠ txNull) (output : Nat → Nat) {fuel : Nat}
    (enough : outLen * (3 * kP (3 * d)) ≤ fuel) :
    ∃ sent, rmConvTx input (3 * d) output outLen fuel = some (0, sent) ∧ ∀ k < outLen, sent k = input (taken d k) := by
  have sameKeep : ∀ i, ((interleaved input (3 * d)).getD (i % (3 * kP (3 * d))) 0 != txNull) =
      keeps (3 * d) (i % (3 * kP (3 * d))) := by
    intro i
    have inside := mod_lt i (Nat.mul_pos (by decide : 0 < 3) (kP_pos (3 * d)))
    rw [interleaved_getD input inside]
    cases kept : keeps (3 * d) (i % (3 * kP (3 * d))) with
    | true =>
      exact bne_iff_ne.mpr (coded _ (codedBit_lt kept inside))
    | false => rfl
  have selected := @select_congr _ (· % (3 * kP (3 * d))) (fun p => (interleaved input (3 * d)).getD p 0 != txNull)
    (keeps (3 * d)) fuel 0 outLen sameKeep
  have collected := @collect_eq (3 * d) (interleaved input (3 * d)) output outLen fuel 0 0 (Nat.zero_le _)
  rw [zero_mod, Nat.sub_zero, selected, select_places positive enough] at collected
  unfold rmConvTx
  rw [if_neg (not_too_large bounded), collected]
  refine ⟨_, rfl, fun k below => ?_⟩
  have inside : k < (places d outLen).length := by
    unfold places
    rwa [cycled_length]
  obtain ⟨lower, kept⟩ := places_inside positive (getElem_mem inside)
  calc
    _ = gather (fun p => (interleaved input (3 * d)).getD p 0) 0 (places d outLen) output (0 + k) := by rw [Nat.zero_add]
    _ = (interleaved input (3 * d)).getD (places d outLen)[k] 0 := gather_get k inside
    _ = input (codedBit (3 * d) (places d outLen)[k]) := by rw [interleaved_getD input lower, if_pos kept]
    _ = input (taken d k) := by rw [codedBit_places positive inside]

end

section
variable {α : Type} [Add α] [Zero α]

def total : List α → α
  | [] => 0
  | first_ :: later => later.foldl (· + ·) first_

theorem total_concat {values : List α} (some_ : values ≠ []) (value : α) :
    total (values ++ [value]) = total values + value := by
  cases values with
  | nil => exact absurd rfl some_
  | cons first_ later =>
    show (later ++ [value]).foldl (· + ·) first_ = _
    rw [foldl_append]
    rfl

end

section
variable {α : Type} [Add α] [Zero α] [DecidableEq α] {rxNull : α} {d outLen : Nat}

def received (d : Nat) (soft : Nat → α) (outLen p : Nat) : List α :=
  ((List.range outLen).filter fun k => taken d k = p).map soft

theorem combine_total {values : List α} (value : ∀ v ∈ values, v ≠ rxNull)
    (sums : ∀ part, part ≠ [] → part <+: values → total part ≠ rxNull) :
    values.foldl (combine rxNull) rxNull = if values = [] then rxNull else total values := by
  induction values using reverseRecOn with
  | nil => rfl
  | append_singleton values last ih =>
    rw [foldl_append, ih (fun v mem => value v (mem_append_left _ mem))
      (fun part some_ before => sums part some_ (before.trans (prefix_append _ _))),
      if_neg (append_ne_nil_of_right_ne_nil _ (cons_ne_nil last []))]
    by_cases first_ : values = []
    · subst first_
      exact if_pos rfl
    · rw [if_neg first_, total_concat first_]
      show combine rxNull (total values) last = _
      unfold combine
      rw [if_neg (sums values first_ (prefix_append _ _)),
        if_pos (value last (mem_append_right _ (mem_singleton_self last)))]

theorem rmConvRx_adds (positive : 1 ≤ d) (bounded : d ≤ 1024) {soft : Nat → α}
    (values : ∀ k < outLen, soft k ≠ rxNull)
    (sums : ∀ p part, part ≠ [] → part <+: received d soft outLen p → total part ≠ rxNull)
    (output : Nat → α) {fuel : Nat} (enough : outLen * (3 * kP (3 * d)) ≤ fuel) :
    ∃ out, rmConvRx rxNull soft outLen output (3 * d) fuel = some (0, out) ∧
      ∀ p < 3 * d, out p = total (received d soft outLen p) := by
  have undone := @undoCollect_eq _ _ _ rxNull (3 * d) soft (fun _ => rxNull) outLen fuel 0 0 (Nat.zero_le _)
  rw [zero_mod, Nat.sub_zero, select_places positive enough, Option.map_some] at undone
  unfold rmConvRx
  rw [if_neg (not_too_large bounded), undone]
  refine ⟨_, rfl, fun p below => ?_⟩
  obtain ⟨lower, kept, back⟩ := codedBit_sourcePlace below
  have length : (places d outLen).length = outLen := cycled_length
  have here : accumulate (combine rxNull) soft 0 (places d outLen) (fun _ => rxNull)
      (sourcePlace (3 * d) (p / 3) (p % 3)) = (received d soft outLen p).foldl (combine rxNull) rxNull := by
    rw [accumulate_apply, length]
    have chosen : (List.range outLen).filter (fun k => (places d outLen).getD k 0 =
        sourcePlace (3 * d) (p / 3) (p % 3)) = (List.range outLen).filter fun k => taken d k = p := by
      apply filter_congr
      intro k mem
      have inside : k < (places d outLen).length := by
        rw [length]
        exact List.mem_range.mp mem
      obtain ⟨belowK, keptK⟩ := places_inside positive (getElem_mem inside)
      apply decide_eq_decide.mpr
      rw [getD_eq_getElem _ _ inside]
      constructor
      · intro same
        rw [← codedBit_places positive inside, same, back]
      · intro same
        rw [← codedBit_places positive inside] at same
        rw [← same, sourcePlace_codedBit keptK belowK]
    rw [chosen]
    unfold received
    simp
  have fed : ∀ v ∈ received d soft outLen p, v ≠ rxNull := by
    intro v mem
    obtain ⟨k, chosen, rfl⟩ := List.mem_map.mp mem
    exact values k (List.mem_range.mp (List.mem_filter.mp chosen).1)
  rw [if_pos (by omega)]
  rw [here, combine_total fed (sums p)]
  by_cases empty : received d soft outLen p = []
  · rw [if_pos empty, if_neg (not_not.mpr rfl), empty]
    rfl
  · rw [if_neg empty, if_pos (sums p _ empty (prefix_refl _))]

theorem rmConvRx_undoes_rmConvTx (positive : 1 ≤ d) (bounded : d ≤ 1024) {input : Nat → Nat}
    (coded : ∀ q < 3 * d, input q ≠ txNull) {soft : Nat → α} (values : ∀ k < outLen, soft k ≠ rxNull)
    (sums : ∀ p part, part ≠ [] → part <+: received d soft outLen p → total part ≠ rxNull)
    (txOutput : Nat → Nat) (rxOutput : Nat → α) :
    (readOrder (3 * d)).Perm (List.range (3 * d)) ∧ ∃ rounds, ∀ fuel ≥ rounds,
      (∃ sent, rmConvTx input (3 * d) txOutput outLen fuel = some (0, sent) ∧
        ∀ k < outLen, sent k = input (taken d k)) ∧
      ∃ out, rmConvRx rxNull soft outLen rxOutput (3 * d) fuel = some (0, out) ∧
        ∀ p < 3 * d, out p = total (received d soft outLen p) :=
  ⟨readOrder_perm d, outLen * (3 * kP (3 * d)), fun _ enough =>
    ⟨rmConvTx_sends positive bounded coded txOutput enough, rmConvRx_adds positive bounded values sums rxOutput enough⟩⟩

theorem rmConvRx_undoes_rmConvTx_two : (readOrder (3 * 2)).Perm (List.range (3 * 2)) ∧ ∃ rounds, ∀ fuel ≥ rounds,
    (∃ sent, rmConvTx (fun q => q % 2) (3 * 2) (fun _ => 0) 11 fuel = some (0, sent) ∧
      ∀ k < 11, sent k = taken 2 k % 2) ∧
    ∃ out, rmConvRx (10000 : Int) (fun k => -k - 1) 11 (fun _ => 0) (3 * 2) fuel = some (0, out) ∧
      ∀ p < 3 * 2, out p = total (received 2 (fun k => -(k : Int) - 1) 11 p) := by
  refine rmConvRx_undoes_rmConvTx (by decide) (by decide) ?_ ?_ ?_ _ _
  · intro q _
    have bit := mod_lt q (by decide : 0 < 2)
    unfold txNull
    omega
  · intro k _
    omega
  · intro p part some_ before
    have negative : ∀ v ∈ part, v < 0 := by
      intro v mem
      obtain ⟨k, -, rfl⟩ := List.mem_map.mp (before.subset mem)
      omega
    suffices below : total part < 0 by omega
    clear before
    induction part using reverseRecOn with
    | nil => exact absurd rfl some_
    | append_singleton part last ih =>
      have final := negative last (mem_append_right _ (mem_singleton_self last))
      by_cases first_ : part = []
      · subst first_
        exact final
      · rw [total_concat first_]
        have earlier := ih first_ fun v mem => negative v (mem_append_left _ mem)
        omega

end

end IsrRan.Phy.RmConv
