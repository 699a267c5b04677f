import IsrRan.Lib.SubBlock
import IsrRan.Phy.RmTurbo

/-! What the tables of the turbo rate matching hold: both sides go through the places of the circular buffer that are
no dummy bits, from the same one on. -/

namespace IsrRan.Phy.RmTurbo
open Lib Bit List Function Nat

/-! ### Places and bits -/

def columns : ColumnPerm nCols where
  perm c := rmPermTc.getD c 0
  inv c := rmPermTc.getD c 0
  perm_lt := by decide
  inv_lt := by decide
  inv_perm := by decide
  perm_inv := by decide

section
variable (inLen p : Nat)

def cellAt : Nat :=
  if p < kP inLen then columns.cell (nrows inLen) p
  else if (p - kP inLen) % 2 = 0 then columns.cell (nrows inLen) ((p - kP inLen) / 2)
  else (columns.cell (nrows inLen) ((p - kP inLen) / 2) + 1) % kP inLen

def streamAt : Nat := if p < kP inLen then 0 else 1 + (p - kP inLen) % 2

def keeps : Bool := ndummy inLen ≤ cellAt inLen p

def codedAt : Nat := 3 * (cellAt inLen p - ndummy inLen) + streamAt inLen p

def entryAt : Option Nat :=
  if keeps inLen p then
    some (cellAt inLen p - ndummy inLen + if streamAt inLen p = 2 then inLen / 3 else 0)
  else none

end

def kept (inLen a n : Nat) : List Nat := (range' a n).filter (keeps inLen)

section
variable {inLen d p q : Nat}

theorem kP_eq (inLen : Nat) : kP inLen = nCols * nrows inLen := Nat.mul_comm _ _

theorem nrows_pos (inLen : Nat) : 0 < nrows inLen := succ_pos _

theorem kP_pos (inLen : Nat) : 0 < kP inLen := Nat.mul_pos (nrows_pos inLen) (by decide)

theorem kP_even (inLen : Nat) : kP inLen % 2 = 0 := by
  unfold kP nCols
  omega

theorem ndummy_add (d : Nat) : ndummy (3 * d) + d = kP (3 * d) := by
  unfold ndummy kP nrows nCols
  omega

theorem cell_eq (inLen q : Nat) :
    cell (q / nrows inLen) (q % nrows inLen) = columns.cell (nrows inLen) q := rfl

theorem cell2_eq (inLen q : Nat) : cell2 inLen q = (columns.cell (nrows inLen) q + 1) % kP inLen := by
  unfold cell2 ColumnPerm.cell
  rw [Nat.mul_comm nCols, Nat.add_comm (rmPermTc.getD _ 0)]
  rfl

theorem isDummy_eq (inLen p : Nat) : isDummy inLen p = !keeps inLen p := by
  have even := kP_even inLen
  have less : ∀ a b : Nat, decide (a < b) = !decide (b ≤ a) := by
    intro a b
    rw [← decide_not]
    exact decide_eq_decide.mpr Nat.not_le.symm
  unfold isDummy keeps cellAt
  by_cases systematic : p < kP inLen
  · rw [if_pos (.inl systematic), if_pos systematic]
    dsimp only
    rw [if_neg (by omega), cell_eq, less]
  · rw [if_neg systematic]
    by_cases first_ : p % 2 = 0
    · rw [if_pos (.inr first_), if_pos (by omega)]
      dsimp only
      rw [if_pos (by omega), cell_eq, less]
    · rw [if_neg (by omega), if_neg (by omega), cell2_eq, show (p - kP inLen - 1) / 2 = (p - kP inLen) / 2 by omega,
        less]

theorem cellAt_lt (inside : p < nCb inLen) : cellAt inLen p < kP inLen := by
  unfold nCb at inside
  unfold cellAt
  split
  · rename_i systematic
    rw [kP_eq] at systematic ⊢
    exact ColumnPerm.cell_lt systematic
  · have half : (p - kP inLen) / 2 < kP inLen := by omega
    split
    · rw [kP_eq] at half ⊢
      exact ColumnPerm.cell_lt half
    · exact mod_lt _ (kP_pos inLen)

theorem streamAt_lt (inLen p : Nat) : streamAt inLen p < 3 := by
  unfold streamAt
  split <;> omega

theorem codedAt_lt (inside : p < nCb (3 * d)) (keep : keeps (3 * d) p = true) : codedAt (3 * d) p < 3 * d := by
  have cell := cellAt_lt inside
  have stream := streamAt_lt (3 * d) p
  have dummies := ndummy_add d
  have data := of_decide_eq_true keep
  unfold codedAt
  omega

theorem codedAt_div (inLen p : Nat) : codedAt inLen p / 3 = cellAt inLen p - ndummy inLen := by
  have stream := streamAt_lt inLen p
  unfold codedAt
  omega

theorem codedAt_mod (inLen p : Nat) : codedAt inLen p % 3 = streamAt inLen p := by
  have stream := streamAt_lt inLen p
  unfold codedAt
  omega

/-! ### Where the receiver looks for a bit -/

def placeOf (inLen v j : Nat) : Nat :=
  if j = 0 then columns.place (nrows inLen) v
  else if j = 1 then kP inLen + 2 * columns.place (nrows inLen) v
  else kP inLen + 2 * columns.place (nrows inLen) (if v = 0 then kP inLen - 1 else v - 1) + 1

theorem sourcePlace_eq {i j : Nat} (stream : j < 3) (inside : i + ndummy inLen < kP inLen) :
    sourcePlace inLen i j = placeOf inLen (i + ndummy inLen) j := by
  unfold sourcePlace placeOf
  obtain rfl | rfl | rfl : j = 0 ∨ j = 1 ∨ j = 2 := by omega
  · rw [Nat.mul_zero, Nat.zero_add, Nat.one_mul]
    rfl
  · rw [Nat.mul_one]
    rfl
  · have index : (if i + ndummy inLen = 0 then kP inLen - 1 else (i + ndummy inLen - 1) % kP inLen) =
        if i + ndummy inLen = 0 then kP inLen - 1 else i + ndummy inLen - 1 := by
      split
      · rfl
      · exact mod_eq_of_lt (by omega)
    have below : (if i + ndummy inLen = 0 then kP inLen - 1 else i + ndummy inLen - 1) < kP inLen := by
      split <;> omega
    have second : ¬(2 ≠ 2) := not_not.mpr rfl
    rw [if_neg second, if_neg (show ¬(2 = 0) by decide), if_neg (show ¬(2 = 1) by decide)]
    dsimp only
    rw [index]
    generalize (if i + ndummy inLen = 0 then kP inLen - 1 else i + ndummy inLen - 1) = k at below
    have place : k / nCols + nrows inLen * rmPermTc.getD (k % nCols) 0 = columns.place (nrows inLen) k := by
      rw [Nat.add_comm, Nat.mul_comm]
      rfl
    have small : columns.place (nrows inLen) k < kP inLen := by
      rw [kP_eq] at below ⊢
      exact ColumnPerm.place_lt below
    rw [place, mod_eq_of_lt small]
    omega

theorem placeOf_spec {v j : Nat} (stream : j < 3) (inside : v < kP inLen) :
    placeOf inLen v j < nCb inLen ∧ cellAt inLen (placeOf inLen v j) = v ∧ streamAt inLen (placeOf inLen v j) = j := by
  have small : ∀ k < kP inLen, columns.place (nrows inLen) k < kP inLen := by
    intro k below
    rw [kP_eq] at below ⊢
    exact ColumnPerm.place_lt below
  have back : ∀ k < kP inLen, columns.cell (nrows inLen) (columns.place (nrows inLen) k) = k := by
    intro k below
    rw [kP_eq] at below
    exact ColumnPerm.cell_place below
  unfold placeOf nCb cellAt streamAt
  obtain rfl | rfl | rfl : j = 0 ∨ j = 1 ∨ j = 2 := by omega
  · have place := small v inside
    simp only [if_true, place, back v inside, and_true]
    omega
  · have place := small v inside
    simp only [show ¬(1 = 0) by decide, if_true, if_false]
    rw [if_neg (by omega), if_pos (by omega), if_neg (by omega),
      show (kP inLen + 2 * columns.place (nrows inLen) v - kP inLen) / 2 = columns.place (nrows inLen) v by omega,
      back v inside]
    omega
  · have below : (if v = 0 then kP inLen - 1 else v - 1) < kP inLen := by
      split <;> omega
    have next : ((if v = 0 then kP inLen - 1 else v - 1) + 1) % kP inLen = v := by
      split
      · rename_i zero
        rw [Nat.sub_add_cancel (by omega), mod_self, zero]
      · rw [Nat.sub_add_cancel (by omega), mod_eq_of_lt inside]
    generalize (if v = 0 then kP inLen - 1 else v - 1) = k at below next
    have place := small k below
    simp only [show ¬(2 = 0) by decide, show ¬(2 = 1) by decide, if_false]
    rw [if_neg (by omega), if_neg (by omega), if_neg (by omega),
      show (kP inLen + 2 * columns.place (nrows inLen) k + 1 - kP inLen) / 2 = columns.place (nrows inLen) k by omega,
      back k below]
    omega

theorem placeOf_cellAt (inside : p < nCb inLen) : placeOf inLen (cellAt inLen p) (streamAt inLen p) = p := by
  unfold nCb at inside
  have back : ∀ k < kP inLen, columns.place (nrows inLen) (columns.cell (nrows inLen) k) = k := by
    intro k below
    rw [kP_eq] at below
    exact ColumnPerm.place_cell below
  have small : ∀ k < kP inLen, columns.cell (nrows inLen) k < kP inLen := by
    intro k below
    rw [kP_eq] at below ⊢
    exact ColumnPerm.cell_lt below
  unfold placeOf cellAt streamAt
  by_cases systematic : p < kP inLen
  · rw [if_pos systematic, if_pos systematic, if_pos rfl, back p systematic]
  · have half : (p - kP inLen) / 2 < kP inLen := by omega
    rw [if_neg systematic, if_neg systematic, if_neg (by omega)]
    by_cases first_ : (p - kP inLen) % 2 = 0
    · rw [if_pos first_, first_, if_pos rfl, back _ half]
      omega
    · have cell := small _ half
      have before : (if (columns.cell (nrows inLen) ((p - kP inLen) / 2) + 1) % kP inLen = 0 then kP inLen - 1
          else (columns.cell (nrows inLen) ((p - kP inLen) / 2) + 1) % kP inLen - 1) =
          columns.cell (nrows inLen) ((p - kP inLen) / 2) := by
        by_cases last : columns.cell (nrows inLen) ((p - kP inLen) / 2) + 1 = kP inLen
        · rw [last, mod_self, if_pos rfl]
          omega
        · rw [mod_eq_of_lt (by omega), if_neg (succ_ne_zero _), Nat.add_sub_cancel]
      rw [if_neg first_, if_neg (by omega), before, back _ half]
      omega

theorem sourcePlace_codedAt (inside : p < nCb (3 * d)) (keep : keeps (3 * d) p = true) :
    sourcePlace (3 * d) (codedAt (3 * d) p / 3) (codedAt (3 * d) p % 3) = p := by
  have data := of_decide_eq_true keep
  have cell := cellAt_lt inside
  rw [codedAt_div, codedAt_mod, sourcePlace_eq (streamAt_lt _ _) (by omega), Nat.sub_add_cancel data,
    placeOf_cellAt inside]

theorem codedAt_sourcePlace {c : Nat} (inside : c < 3 * d) :
    sourcePlace (3 * d) (c / 3) (c % 3) < nCb (3 * d) ∧ keeps (3 * d) (sourcePlace (3 * d) (c / 3) (c % 3)) = true ∧
      codedAt (3 * d) (sourcePlace (3 * d) (c / 3) (c % 3)) = c := by
  have dummies := ndummy_add d
  have below : c / 3 + ndummy (3 * d) < kP (3 * d) := by omega
  have stream := mod_lt c (by decide : 0 < 3)
  obtain ⟨place, cell, which⟩ := placeOf_spec stream below
  rw [sourcePlace_eq stream below]
  refine ⟨place, ?_, ?_⟩
  · unfold keeps
    rw [cell]
    exact decide_eq_true (Nat.le_add_left _ _)
  · unfold codedAt
    omega

/-! ### The places that are kept -/

theorem mem_kept {a n : Nat} : p ∈ kept inLen a n ↔ (a ≤ p ∧ p < a + n) ∧ keeps inLen p = true := by
  unfold kept
  rw [mem_filter, mem_range'_1]

theorem kept_nodup (inLen a n : Nat) : (kept inLen a n).Nodup := List.Nodup.filter _ nodup_range'

theorem kept_add (inLen a m n : Nat) : kept inLen a (m + n) = kept inLen a m ++ kept inLen (a + m) n := by
  unfold kept
  rw [← List.range'_append_1, filter_append]

theorem kept_perm (d : Nat) : ((kept (3 * d) 0 (nCb (3 * d))).map (codedAt (3 * d))).Perm (range (3 * d)) := by
  have distinct : ((kept (3 * d) 0 (nCb (3 * d))).map (codedAt (3 * d))).Nodup := by
    apply List.Nodup.map_on _ (kept_nodup _ _ _)
    intro p memP q memQ same
    obtain ⟨⟨-, insideP⟩, keepP⟩ := mem_kept.mp memP
    obtain ⟨⟨-, insideQ⟩, keepQ⟩ := mem_kept.mp memQ
    rw [Nat.zero_add] at insideP insideQ
    rw [← sourcePlace_codedAt insideP keepP, same, sourcePlace_codedAt insideQ keepQ]
  apply (perm_ext_iff_of_nodup distinct nodup_range).mpr
  intro c
  rw [mem_map, mem_range]
  constructor
  · rintro ⟨p, mem, rfl⟩
    obtain ⟨⟨-, inside⟩, keep⟩ := mem_kept.mp mem
    rw [Nat.zero_add] at inside
    exact codedAt_lt inside keep
  · intro inside
    obtain ⟨place, keep, back⟩ := codedAt_sourcePlace inside
    exact ⟨_, mem_kept.mpr ⟨⟨Nat.zero_le _, by rwa [Nat.zero_add]⟩, keep⟩, back⟩

theorem kept_length (d : Nat) : (kept (3 * d) 0 (nCb (3 * d))).length = 3 * d := by
  calc
    _ = ((kept (3 * d) 0 (nCb (3 * d))).map (codedAt (3 * d))).length := (length_map _).symm
    _ = (range (3 * d)).length := (kept_perm d).length_eq
    _ = 3 * d := length_range

theorem kept_systematic_length (d : Nat) : (kept (3 * d) 0 (kP (3 * d))).length = d := by
  have dummies := ndummy_add d
  have coded : ∀ p ∈ kept (3 * d) 0 (kP (3 * d)), p < nCb (3 * d) ∧ keeps (3 * d) p = true ∧
      codedAt (3 * d) p = 3 * (cellAt (3 * d) p - ndummy (3 * d)) := by
    intro p mem
    obtain ⟨⟨-, inside⟩, keep⟩ := mem_kept.mp mem
    rw [Nat.zero_add] at inside
    refine ⟨by unfold nCb; omega, keep, ?_⟩
    unfold codedAt streamAt
    rw [if_pos inside, Nat.add_zero]
  have perm : ((kept (3 * d) 0 (kP (3 * d))).map fun p => codedAt (3 * d) p / 3).Perm (range d) := by
    apply (perm_ext_iff_of_nodup _ nodup_range).mpr
    · intro c
      rw [mem_map, mem_range]
      constructor
      · rintro ⟨p, mem, rfl⟩
        obtain ⟨inside, keep, -⟩ := coded p mem
        have := codedAt_lt inside keep
        omega
      · intro inside
        obtain ⟨place, cell, stream⟩ := @placeOf_spec (3 * d) (c + ndummy (3 * d)) 0 (by decide) (by omega)
        refine ⟨placeOf (3 * d) (c + ndummy (3 * d)) 0, mem_kept.mpr ⟨⟨Nat.zero_le _, ?_⟩, ?_⟩, ?_⟩
        · unfold streamAt at stream
          split at stream <;> omega
        · unfold keeps
          rw [cell]
          exact decide_eq_true (Nat.le_add_left _ _)
        · rw [codedAt_div, cell, Nat.add_sub_cancel]
    · apply List.Nodup.map_on _ (kept_nodup _ _ _)
      intro p memP q memQ same
      obtain ⟨insideP, keepP, codedP⟩ := coded p memP
      obtain ⟨insideQ, keepQ, codedQ⟩ := coded q memQ
      rw [← sourcePlace_codedAt insideP keepP, ← sourcePlace_codedAt insideQ keepQ,
        show codedAt (3 * d) p = codedAt (3 * d) q by omega]
  calc
    _ = ((kept (3 * d) 0 (kP (3 * d))).map fun p => codedAt (3 * d) p / 3).length := (length_map _).symm
    _ = (range d).length := perm.length_eq
    _ = d := length_range

/-! ### The tables of the transmitter -/

theorem filterMap_entryAt (places : List Nat) : places.filterMap (entryAt inLen) =
    (places.filter (keeps inLen)).map fun p =>
      cellAt inLen p - ndummy inLen + if streamAt inLen p = 2 then inLen / 3 else 0 := by
  induction places with
  | nil => rfl
  | cons p places ih =>
    cases keep : keeps inLen p with
    | true =>
      have entry : entryAt inLen p = some (cellAt inLen p - ndummy inLen +
          if streamAt inLen p = 2 then inLen / 3 else 0) := if_pos keep
      rw [filterMap_cons_some entry, filter_cons_of_pos keep, ih, map_cons]
    | false =>
      have entry : entryAt inLen p = none := if_neg (by rw [keep]; exact Bool.false_ne_true)
      rw [filterMap_cons_none entry, filter_cons_of_neg (by rw [keep]; exact Bool.false_ne_true), ih]

theorem visits_spec (offset a n : Nat) (g : Gen) :
    ((range' a n).foldl (fun g p => g.visit inLen offset p (entryAt inLen p)) g).table =
        g.table ++ (range' a n).filterMap (entryAt inLen) ∧
      ∀ rvIdx, ((range' a n).foldl (fun g p => g.visit inLen offset p (entryAt inLen p)) g).start rvIdx =
        (g.start rvIdx).or (((kept inLen a n).findIdx? fun p => k0 inLen rvIdx % nCb inLen ≤ p).map
          (offset + g.table.length + ·)) := by
  induction n with
  | zero =>
    constructor
    · exact (append_nil _).symm
    · intro rvIdx
      show g.start rvIdx = (g.start rvIdx).or _
      cases g.start rvIdx <;> rfl
  | succ n ih =>
    obtain ⟨table, start⟩ := ih
    have grown : (kept inLen a n).length = ((range' a n).filterMap (entryAt inLen)).length := by
      rw [filterMap_entryAt, length_map]
      rfl
    rw [List.range'_concat, foldl_append, foldl_cons, foldl_nil, Nat.one_mul, filterMap_append]
    generalize (range' a n).foldl (fun g p => g.visit inLen offset p (entryAt inLen p)) g = g' at table start
    constructor
    · show g'.table ++ (entryAt inLen (a + n)).toList = _
      rw [table, append_assoc]
      congr 2
    · intro rvIdx
      rw [kept_add, findIdx?_append]
      have single : kept inLen (a + n) 1 = if keeps inLen (a + n) then [a + n] else [] := by
        cases keep : keeps inLen (a + n) with
        | true => exact filter_cons_of_pos keep
        | false => exact filter_cons_of_neg (by rw [keep]; exact Bool.false_ne_true)
      unfold Gen.visit
      dsimp only
      rw [start rvIdx, table, single]
      cases keep : keeps inLen (a + n) with
      | false =>
        have entry : entryAt inLen (a + n) = none := if_neg (by rw [keep]; exact Bool.false_ne_true)
        rw [entry]
        simp
      | true =>
        have entry : (entryAt inLen (a + n)).toList.length = 1 ∧ (entryAt inLen (a + n)).isSome = true := by
          unfold entryAt
          rw [if_pos keep]
          exact ⟨rfl, rfl⟩
        rw [entry.2]
        cases g.start rvIdx with
        | some s => simp
        | none =>
          cases (kept inLen a n).findIdx? fun p => k0 inLen rvIdx % nCb inLen ≤ p with
          | some k => simp
          | none =>
            by_cases here : k0 inLen rvIdx % nCb inLen ≤ a + n
            · simp [here]
              omega
            · simp [here]

theorem gentableSystematic_eq (inLen : Nat) (start : Nat → Option Nat) : gentableSystematic inLen start =
    (range' 0 (kP inLen)).foldl (fun g p => g.visit inLen 0 p (entryAt inLen p)) ⟨[], start⟩ := by
  unfold gentableSystematic
  rw [grid_eq_map, foldl_map, ← range_eq_range', ← kP_eq]
  apply foldl_ext
  intro g p mem
  have inside := List.mem_range.mp mem
  have entry : entryAt inLen p = if ndummy inLen ≤ columns.cell (nrows inLen) p then
      some (columns.cell (nrows inLen) p - ndummy inLen) else none := by
    unfold entryAt keeps cellAt streamAt
    simp [inside]
  dsimp only
  rw [entry, cell_eq, div_add_mod']

theorem foldl_range'_pairs {β : Type} (f : β → Nat → β) (a n : Nat) (b : β) : (range' a (2 * n)).foldl f b =
    (range n).foldl (fun b k => f (f b (a + 2 * k)) (a + 2 * k + 1)) b := by
  induction n with
  | zero => rfl
  | succ n ih =>
    rw [range_succ, foldl_append, ← ih, mul_succ, ← List.range'_append_1, foldl_append]
    rfl

theorem gentableParity_eq (inLen : Nat) (start : Nat → Option Nat) : gentableParity inLen (inLen / 3) start =
    (range' (kP inLen) (2 * kP inLen)).foldl
      (fun g p => g.visit inLen (inLen / 3) p (entryAt inLen p)) ⟨[], start⟩ := by
  unfold gentableParity
  rw [grid_eq_map, foldl_map, foldl_range'_pairs, ← kP_eq]
  apply foldl_ext
  intro g k mem
  have first_ : entryAt inLen (kP inLen + 2 * k) = if ndummy inLen ≤ columns.cell (nrows inLen) k then
      some (columns.cell (nrows inLen) k - ndummy inLen) else none := by
    unfold entryAt keeps cellAt streamAt
    simp
  have second : entryAt inLen (kP inLen + 2 * k + 1) = if ndummy inLen ≤ cell2 inLen k then
      some (cell2 inLen k - ndummy inLen + inLen / 3) else none := by
    unfold entryAt keeps cellAt streamAt
    have half : (kP inLen + 2 * k + 1 - kP inLen) / 2 = k := by omega
    have odd : (kP inLen + 2 * k + 1 - kP inLen) % 2 = 1 := by omega
    have after : ¬kP inLen + 2 * k + 1 < kP inLen := by omega
    simp [half, odd, after, cell2_eq]
  dsimp only
  rw [first_, second, cell_eq, div_add_mod', Nat.add_right_comm (2 * k) 1, Nat.add_comm (2 * k)]

/-! ### The start of a redundancy version -/

def startOf (inLen rvIdx : Nat) : Nat := (kept inLen 0 (k0 inLen rvIdx % nCb inLen)).length

theorem k0_eq (inLen rvIdx : Nat) : k0 inLen rvIdx = nrows inLen * (24 * rvIdx + 2) := by
  have positive := nrows_pos inLen
  have quotient : (nCb inLen + (8 * nrows inLen - 1)) / (8 * nrows inLen) = 12 := by
    apply Nat.div_eq_of_lt_le
    · unfold nCb kP nCols
      omega
    · unfold nCb kP nCols
      omega
  unfold k0
  rw [quotient]

theorem exists_kept_behind (positive : 1 ≤ d) {rvIdx : Nat} (version : rvIdx < 4) :
    ∃ p ∈ kept (3 * d) 0 (nCb (3 * d)), k0 (3 * d) rvIdx % nCb (3 * d) ≤ p := by
  have dummies := ndummy_add d
  have rows := nrows_pos (3 * d)
  have last : columns.cell (nrows (3 * d)) (kP (3 * d) - 1) = kP (3 * d) - 1 := by
    have split : kP (3 * d) - 1 = nrows (3 * d) * 31 + (nrows (3 * d) - 1) := by
      unfold kP nCols
      omega
    have quotient : (kP (3 * d) - 1) / nrows (3 * d) = 31 := by
      rw [split, mul_add_div rows, div_eq_of_lt (by omega)]
    have remainder : (kP (3 * d) - 1) % nrows (3 * d) = nrows (3 * d) - 1 := by
      rw [split, mul_add_mod, mod_eq_of_lt (by omega)]
    unfold ColumnPerm.cell
    rw [quotient, remainder]
    show (nrows (3 * d) - 1) * 32 + 31 = nrows (3 * d) * 32 - 1
    omega
  have place : cellAt (3 * d) (3 * kP (3 * d) - 2) = kP (3 * d) - 1 := by
    unfold cellAt
    rw [if_neg (by omega), if_pos (by omega), show (3 * kP (3 * d) - 2 - kP (3 * d)) / 2 = kP (3 * d) - 1 by omega,
      last]
  refine ⟨3 * kP (3 * d) - 2, mem_kept.mpr ⟨⟨Nat.zero_le _, ?_⟩, ?_⟩, ?_⟩
  · unfold nCb
    omega
  · unfold keeps
    exact decide_eq_true (by omega)
  · apply Nat.le_trans (mod_le _ _)
    rw [k0_eq]
    calc
      nrows (3 * d) * (24 * rvIdx + 2) ≤ nrows (3 * d) * 74 := Nat.mul_le_mul_left _ (by omega)
      _ ≤ 3 * kP (3 * d) - 2 := by
        unfold kP nCols
        omega

theorem findIdx?_kept (positive : 1 ≤ d) {rvIdx : Nat} (version : rvIdx < 4) :
    ((kept (3 * d) 0 (nCb (3 * d))).findIdx? fun p => k0 (3 * d) rvIdx % nCb (3 * d) ≤ p) =
      some (startOf (3 * d) rvIdx) := by
  have below : k0 (3 * d) rvIdx % nCb (3 * d) < nCb (3 * d) :=
    mod_lt _ (Nat.mul_pos (by decide) (kP_pos (3 * d)))
  obtain ⟨p, mem, later⟩ := exists_kept_behind positive version
  unfold startOf
  generalize k0 (3 * d) rvIdx % nCb (3 * d) = t at below later
  obtain ⟨rest_, split⟩ := Nat.exists_eq_add_of_le (Nat.le_of_lt below)
  rw [split, kept_add, Nat.zero_add] at mem ⊢
  have before : ((kept (3 * d) 0 t).findIdx? fun p => t ≤ p) = none := by
    rw [findIdx?_eq_none_iff]
    intro q memQ
    have inside := (mem_kept.mp memQ).1.2
    rw [Nat.zero_add] at inside
    exact decide_eq_false (Nat.not_le.mpr inside)
  have after : p ∈ kept (3 * d) t rest_ := by
    rcases List.mem_append.mp mem with early | late
    · have inside := (mem_kept.mp early).1.2
      omega
    · exact late
  obtain ⟨q, others, list⟩ := exists_cons_of_ne_nil (ne_nil_of_mem after)
  have first_ : t ≤ q := (mem_kept.mp (list ▸ mem_cons_self : q ∈ kept (3 * d) t rest_)).1.1
  rw [findIdx?_append, before, list, findIdx?_cons, decide_eq_true first_]
  simp

theorem k0Vec_eq (positive : 1 ≤ d) {rvIdx : Nat} (version : rvIdx < 4) :
    (gentableParity (3 * d) d (gentableSystematic (3 * d) fun _ => none).start).start rvIdx =
      some (startOf (3 * d) rvIdx) := by
  have third : 3 * d / 3 = d := Nat.mul_div_cancel_left d (by decide)
  have parity := gentableParity_eq (3 * d) (gentableSystematic (3 * d) fun _ => none).start
  rw [third] at parity
  rw [parity, (visits_spec _ _ _ _).2, gentableSystematic_eq, (visits_spec _ _ _ _).2, ← findIdx?_kept positive version,
    show nCb (3 * d) = kP (3 * d) + 2 * kP (3 * d) by unfold nCb; omega, kept_add, findIdx?_append,
    kept_systematic_length]
  simp [Nat.add_comm d]

/-! ### The table of the receiver -/

theorem foldl_update_index {n c : Nat} (f : Nat → Nat) (distinct : ∀ a < n, ∀ b < n, f a = f b → a = b)
    (inside : c < n) (temp : Nat → Nat) :
    (range n).foldl (fun temp k => update temp (f k) k) temp (f c) = c := by
  induction n with
  | zero => exact absurd inside (Nat.not_lt_zero c)
  | succ n ih =>
    rw [range_succ, foldl_append, foldl_cons, foldl_nil]
    by_cases last : c = n
    · rw [last, update_self]
    · have other : f c ≠ f n := fun same => last (distinct c inside n (lt_succ_self n) same)
      rw [update_of_ne other]
      exact ih (fun a belowA b belowB => distinct a (by omega) b (by omega)) (by omega)

theorem tempTable2_eq (temp : Nat → Nat) (inside : p < nCb (3 * d)) (keep : keeps (3 * d) p = true) :
    tempTable2 (3 * d) temp p = codedAt (3 * d) p := by
  have third : 3 * d / 3 = d := Nat.mul_div_cancel_left d (by decide)
  have loop : tempTable2 (3 * d) temp = (range (3 * d)).foldl
      (fun temp k => update temp (sourcePlace (3 * d) (k / 3) (k % 3)) k) temp := by
    unfold tempTable2
    rw [third, grid_eq_map, foldl_map, Nat.mul_comm d 3]
    apply foldl_ext
    intro temp k _
    dsimp only
    rw [div_add_mod]
  have distinct : ∀ a < 3 * d, ∀ b < 3 * d, sourcePlace (3 * d) (a / 3) (a % 3) = sourcePlace (3 * d) (b / 3) (b % 3) →
      a = b := by
    intro a belowA b belowB same
    rw [← (codedAt_sourcePlace belowA).2.2, same, (codedAt_sourcePlace belowB).2.2]
  have found := foldl_update_index (fun k => sourcePlace (3 * d) (k / 3) (k % 3)) distinct (codedAt_lt inside keep) temp
  rw [← loop, sourcePlace_codedAt inside keep] at found
  exact found

theorem keptIn_cycle (k : Nat) : keptIn (keeps inLen) (fun j => (k + j) % nCb inLen) 0 (nCb inLen) =
    (kept inLen 0 (nCb inLen)).rotate (kept inLen 0 (k % nCb inLen)).length := by
  have below : k % nCb inLen < nCb inLen := mod_lt _ (Nat.mul_pos (by decide) (kP_pos inLen))
  have places : (range' 0 (nCb inLen)).map (fun j => (k + j) % nCb inLen) =
      range' (k % nCb inLen) (nCb inLen - k % nCb inLen) ++ range' 0 (k % nCb inLen) := by
    apply ext_getElem
    · simp only [length_map, length_range', length_append]
      omega
    · intro i inside _
      rw [length_map, length_range'] at inside
      rw [getElem_map, getElem_range', Nat.zero_add, Nat.one_mul, getElem_append]
      split
      · rename_i early
        rw [length_range'] at early
        rw [getElem_range', Nat.one_mul, ← mod_add_mod, mod_eq_of_lt (by omega)]
      · rename_i late
        rw [length_range'] at late
        rw [getElem_range', Nat.one_mul, Nat.zero_add, length_range', ← mod_add_mod,
          show k % nCb inLen + i = i - (nCb inLen - k % nCb inLen) + nCb inLen by omega, add_mod_right,
          mod_eq_of_lt (by omega)]
  have split : kept inLen 0 (nCb inLen) =
      kept inLen 0 (k % nCb inLen) ++ kept inLen (k % nCb inLen) (nCb inLen - k % nCb inLen) := by
    have parts := kept_add inLen 0 (k % nCb inLen) (nCb inLen - k % nCb inLen)
    rwa [Nat.add_sub_cancel' (Nat.le_of_lt below), Nat.zero_add] at parts
  unfold keptIn
  rw [places, filter_append, split, rotate_append_length_eq]
  rfl

def rowOf (d rvIdx : Nat) : List Nat :=
  ((kept (3 * d) 0 (nCb (3 * d))).map (codedAt (3 * d))).rotate (startOf (3 * d) rvIdx)

theorem gentableReceive_eq (d rvIdx : Nat) (temp : Nat → Nat) {fuel : Nat} (enough : nCb (3 * d) ≤ fuel) :
    gentableReceive (3 * d) rvIdx temp fuel = some (rowOf d rvIdx) := by
  have same := @select_congr _ (fun j => (k0 (3 * d) rvIdx + j) % nCb (3 * d)) (fun jp => !isDummy (3 * d) jp)
    (keeps (3 * d)) fuel 0 (3 * d) fun i => by rw [isDummy_eq, Bool.not_not]
  have length : (keptIn (keeps (3 * d)) (fun j => (k0 (3 * d) rvIdx + j) % nCb (3 * d)) 0 (nCb (3 * d))).length =
      3 * d := by
    rw [keptIn_cycle, length_rotate, kept_length]
  have found := @select_within _ (keeps (3 * d)) (fun j => (k0 (3 * d) rvIdx + j) % nCb (3 * d)) 0 (3 * d) (nCb (3 * d))
    fuel length.ge enough
  unfold gentableReceive rowOf startOf
  rw [same, found, take_of_length_le length.le, keptIn_cycle, Option.map_some, ← map_rotate]
  congr 1
  apply map_congr_left
  intro p mem
  obtain ⟨⟨-, inside⟩, keep⟩ := mem_kept.mp (List.mem_rotate.mp mem)
  rw [Nat.zero_add] at inside
  exact tempTable2_eq temp inside keep

theorem rowOf_perm (d rvIdx : Nat) : (rowOf d rvIdx).Perm (range (3 * d)) :=
  (rotate_perm _ _).trans (kept_perm d)

theorem rowOf_getD (d rvIdx : Nat) {i : Nat} (inside : i < 3 * d) : (rowOf d rvIdx).getD i 0 =
    codedAt (3 * d) ((kept (3 * d) 0 (nCb (3 * d))).getD ((startOf (3 * d) rvIdx + i) % (3 * d)) 0) := by
  have length := kept_length d
  have below : (startOf (3 * d) rvIdx + i) % (3 * d) < (kept (3 * d) 0 (nCb (3 * d))).length := by
    rw [length]
    exact mod_lt _ (by omega)
  have here : i < (((kept (3 * d) 0 (nCb (3 * d))).map (codedAt (3 * d))).rotate (startOf (3 * d) rvIdx)).length := by
    rwa [length_rotate, length_map, length]
  unfold rowOf
  rw [getD_eq_getElem _ _ here, getD_eq_getElem _ _ below]
  simp only [getElem_rotate, getElem_map, length_map, length, Nat.add_comm i]

end

end IsrRan.Phy.RmTurbo
