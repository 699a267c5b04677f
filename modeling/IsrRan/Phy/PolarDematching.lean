import IsrRan.Phy.PolarRm

/-! Rate dematching against rate matching: every codeword position gets back the values sent for it. -/

namespace IsrRan.Phy.Polar
open List Nat
open Lib (gather scatter gather_get scatter_get scatter_gather)
open Function (update update_of_ne update_self)

def selected (n e k i : Nat) : Nat :=
  if e ≥ n then i % n else if 16 * k ≤ 7 * e then n - e + i else i

def combine (limit fill : Int) : List Int → Int
  | [] => fill
  | v :: vs => vs.foldl (satAdd limit) v

/-- What stands for no value: nothing is known of a punctured bit, and a shortened bit is 0. -/
def fillValue (limit : Int) (e k : Nat) : Int := if 16 * k ≤ 7 * e then 0 else limit

theorem combine_eq_sum {limit fill v : Int} {vs : List Int}
    (small : ∀ part, part <+: v :: vs → -limit ≤ part.sum ∧ part.sum ≤ limit) :
    combine limit fill (v :: vs) = (v :: vs).sum := by
  induction vs using reverseRecOn with
  | nil => simp [combine]
  | append_singleton vs w ih =>
    have before : vs.foldl (satAdd limit) v = (v :: vs).sum :=
      ih fun part inside => small part (inside.trans ⟨[w], by simp⟩)
    have whole := small (v :: (vs ++ [w])) (prefix_refl _)
    have total : (v :: (vs ++ [w])).sum = (v :: vs).sum + w := by simp [Int.add_assoc]
    rw [total] at whole ⊢
    show (vs ++ [w]).foldl (satAdd limit) v = _
    rw [foldl_append, foldl_cons, foldl_nil, before, satAdd, if_neg (by omega), if_neg (by omega)]

section
variable {α : Type} {n e k : Nat}

theorem selected_lt {i : Nat} (pos : 0 < n) (inside : i < e) : selected n e k i < n := by
  unfold selected
  split
  · exact mod_lt _ pos
  · split <;> omega

/-! ### Transmitter -/

theorem repetition (y : Nat → α) (pos : 0 < n) (m i : Nat) :
    (range' n m).foldl (fun y i => update y i (y (i % n))) y i =
      if n ≤ i ∧ i < n + m then y (i % n) else y i := by
  induction m generalizing i with
  | zero => rw [if_neg (by omega)]; rfl
  | succ m ih =>
    have low := mod_lt (n + m) pos
    rw [List.range'_1_concat, foldl_append, foldl_cons, foldl_nil, ih]
    by_cases last : i = n + m
    · subst last
      rw [update_self, if_neg (by omega), if_pos (by omega)]
    · rw [update_of_ne last, ih]
      by_cases before : n ≤ i ∧ i < n + m
      · rw [if_pos before, if_pos (by omega)]
      · rw [if_neg before, if_neg (by omega)]

theorem bitSelectionRmTx_get (y : Nat → α) (pos : 0 < n) {i : Nat} (inside : i < e) :
    (bitSelectionRmTx y n e k).1 ((bitSelectionRmTx y n e k).2 + i) = y (selected n e k i) := by
  unfold bitSelectionRmTx selected
  by_cases long : e ≥ n
  · simp only [if_pos long, Nat.zero_add]
    rw [repetition y pos]
    by_cases repeated : n ≤ i
    · rw [if_pos (by omega)]
    · rw [if_neg (by omega), mod_eq_of_lt (Nat.lt_of_not_le repeated)]
  · simp only [if_neg long]
    split
    · rfl
    · simp only [Nat.zero_add]

theorem interleaverRmTx_get (input output : Nat → α) (indices : Nat → Nat) {j : Nat} (inside : j < n) :
    interleaverRmTx input output indices n j = input (indices j) := by
  have get := @gather_get α input output 0 ((range n).map indices) j (by simpa using inside)
  simpa [interleaverRmTx] using get

def channelPlace (e : Nat) (ibil : Bool) (i : Nat) : Nat := if ibil then (chPositions e).idxOf i else i

theorem chPositions_get {i : Nat} (inside : i < e) : ∃ valid : (chPositions e).idxOf i < (chPositions e).length,
    (chPositions e)[(chPositions e).idxOf i] = i := by
  have mem : i ∈ chPositions e := (chPositions_perm e).mem_iff.mpr (List.mem_range.mpr inside)
  exact ⟨idxOf_lt_length_of_mem mem, getElem_idxOf _⟩

theorem polarRmTx_get (ye input output : Nat → α) (blk : BlkInterleaver n) (ibil : Bool) (pos : 0 < n) {i : Nat}
    (inside : i < e) :
    polarRmTx ye input output blk.indices n e k ibil (channelPlace e ibil i) =
      input (blk.indices (selected n e k i)) := by
  have bit : ∀ i, i < e → (bitSelectionRmTx (interleaverRmTx input ye blk.indices n) n e k).1
      ((bitSelectionRmTx (interleaverRmTx input ye blk.indices n) n e k).2 + i) =
        input (blk.indices (selected n e k i)) := by
    intro i inside
    rw [bitSelectionRmTx_get _ pos inside, interleaverRmTx_get _ _ _ (selected_lt pos inside)]
  unfold polarRmTx channelPlace
  cases ibil with
  | false => exact (if_pos inside).trans (bit i inside)
  | true =>
    obtain ⟨valid, get⟩ := chPositions_get inside
    simp only [if_true]
    unfold chInterleaverRmTx
    have place := @gather_get α (fun i => (bitSelectionRmTx (interleaverRmTx input ye blk.indices n) n e k).1
      ((bitSelectionRmTx (interleaverRmTx input ye blk.indices n) n e k).2 + i)) output 0 (chPositions e) _ valid
    rw [Nat.zero_add] at place
    rw [place, get]
    exact bit i inside

end

/-! ### Receiver -/

section
variable {limit : Int} {n e k : Nat}

theorem accumulation (places : List Nat) (behind : ∀ i ∈ places, n ≤ i) (pos : 0 < n) (y : Nat → Int) :
    (∀ j, j < n → places.foldl (fun y i => update y (i % n) (satAdd limit (y (i % n)) (y i))) y j =
      ((places.filter (fun i => i % n = j)).map y).foldl (satAdd limit) (y j)) ∧
      ∀ i, n ≤ i → places.foldl (fun y i => update y (i % n) (satAdd limit (y (i % n)) (y i))) y i = y i := by
  induction places generalizing y with
  | nil => exact ⟨fun j _ => rfl, fun i _ => rfl⟩
  | cons i later ih =>
    have low := mod_lt i pos
    have kept : ∀ i', n ≤ i' → update y (i % n) (satAdd limit (y (i % n)) (y i)) i' = y i' :=
      fun i' high => update_of_ne (by omega) _ _
    obtain ⟨sums, rest_⟩ := ih (fun i' mem => behind i' (mem_cons_of_mem _ mem))
      (update y (i % n) (satAdd limit (y (i % n)) (y i)))
    constructor
    · intro j inside
      rw [foldl_cons, sums j inside]
      have same : (later.filter (fun i => i % n = j)).map
          (update y (i % n) (satAdd limit (y (i % n)) (y i))) = (later.filter (fun i => i % n = j)).map y :=
        map_congr_left fun i' mem => kept i' (behind i' (mem_cons_of_mem _ (List.mem_filter.mp mem).1))
      rw [same]
      by_cases here : i % n = j
      · subst here
        rw [update_self, filter_cons_of_pos (by simp), map_cons, foldl_cons]
      · rw [update_of_ne (Ne.symm here), filter_cons_of_neg (by simpa using here)]
    · intro i' high
      rw [foldl_cons, rest_ i' high, kept i' high]

theorem filter_range (m j : Nat) : (range m).filter (fun i => i = j) = if j < m then [j] else [] := by
  induction m with
  | zero => rfl
  | succ m ih =>
    rw [range_succ, filter_append, ih]
    by_cases last : m = j
    · subst last
      simp
    · rw [filter_cons_of_neg (by simpa using last), filter_nil, append_nil]
      by_cases before : j < m
      · rw [if_pos before, if_pos (by omega)]
      · rw [if_neg before, if_neg (by omega)]

def sources (n e k j : Nat) : List Nat := (range e).filter fun i => selected n e k i = j

theorem sources_of_long {j : Nat} (long : n ≤ e) (inside : j < n) :
    sources n e k j = j :: (range' n (e - n)).filter fun i => i % n = j := by
  have split : range e = range n ++ range' n (e - n) := by
    have parts := @List.range'_append_1 0 n (e - n)
    rw [Nat.zero_add, Nat.add_sub_cancel' long] at parts
    rw [range_eq_range', range_eq_range', parts]
  have first : (range n).filter (fun i => decide (i % n = j)) = [j] := by
    rw [filter_congr (q := fun i => decide (i = j)), filter_range, if_pos inside]
    intro i mem
    rw [mod_eq_of_lt (List.mem_range.mp mem)]
  unfold sources selected
  simp only [if_pos long]
  rw [split, filter_append, first, singleton_append]

theorem sources_of_short {j : Nat} (short : e < n) (inside : j < n) :
    sources n e k j = if 16 * k ≤ 7 * e then (if n - e ≤ j then [j - (n - e)] else [])
      else (if j < e then [j] else []) := by
  unfold sources selected
  simp only [if_neg (Nat.not_le.mpr short)]
  split
  · by_cases behind : n - e ≤ j
    · rw [if_pos behind, filter_congr (q := fun i => decide (i = j - (n - e))), filter_range, if_pos (by omega)]
      intro i _
      exact decide_eq_decide.mpr (by omega)
    · rw [if_neg behind]
      apply List.filter_eq_nil_iff.mpr
      intro i _ same
      have := of_decide_eq_true same
      omega
  · exact filter_range e j

theorem bitSelectionRmRx_get (r : Nat → Int) {j : Nat} (inside : j < n) :
    bitSelectionRmRx limit r e n k j = combine limit (fillValue limit e k) ((sources n e k j).map r) := by
  unfold bitSelectionRmRx
  by_cases long : e ≥ n
  · have sums := (@accumulation limit n (range' n (e - n))
      (fun i mem => (mem_range'_1.mp mem).1) (by omega) r).1 j inside
    rw [if_pos long, sums, sources_of_long long inside]
    rfl
  · rw [if_neg long, sources_of_short (Nat.lt_of_not_le long) inside, fillValue]
    split
    · by_cases behind : n - e ≤ j
      · rw [if_pos behind]
        exact if_neg (Nat.not_lt.mpr behind)
      · rw [if_neg behind]
        exact if_pos (Nat.lt_of_not_le behind)
    · by_cases kept : j < e
      · rw [if_pos kept]
        exact if_neg fun outside => Nat.not_lt.mpr outside.1 kept
      · rw [if_neg kept]
        exact if_pos ⟨Nat.le_of_not_lt kept, inside⟩

end

section
variable {limit : Int} {n e k : Nat} {ibil : Bool} (blk : BlkInterleaver n)

def carried (n e k : Nat) (blk : BlkInterleaver n) (ibil : Bool) : Nat → Nat :=
  polarRmTx (fun _ => 0) (fun i => i) (fun _ => 0) blk.indices n e k ibil

def channelOrder (e : Nat) (ibil : Bool) : List Nat := (range e).map (channelPlace e ibil)

def receivedFor (n e k : Nat) (blk : BlkInterleaver n) (ibil : Bool) (llr : Nat → Int) (p : Nat) : List Int :=
  ((channelOrder e ibil).filter fun i => carried n e k blk ibil i = p).map llr

theorem channelOrder_perm : (channelOrder e ibil).Perm (range e) := by
  unfold channelOrder channelPlace
  cases ibil with
  | false => simp
  | true =>
    have perm := chPositions_perm e
    have length : (chPositions e).length = e := by rw [perm.length_eq, length_range]
    have distinct : ((range e).map fun i => (chPositions e).idxOf i).Nodup := by
      refine List.Nodup.map_on (fun i mem i' mem' same => ?_) nodup_range
      obtain ⟨valid, get⟩ := chPositions_get (List.mem_range.mp mem)
      obtain ⟨valid', get'⟩ := chPositions_get (List.mem_range.mp mem')
      rw [← get, ← get']
      simp only [same]
    refine (subperm_of_subset distinct fun place mem => ?_).perm_of_length_le (by simp)
    obtain ⟨i, sent, rfl⟩ := List.mem_map.mp mem
    obtain ⟨valid, -⟩ := chPositions_get (List.mem_range.mp sent)
    rw [length] at valid
    exact List.mem_range.mpr valid

variable {blk}

theorem BlkInterleaver.nodup : ((range n).map blk.indices).Nodup :=
  List.Nodup.map_on (fun i mem j mem' => blk.inj i j (List.mem_range.mp mem) (List.mem_range.mp mem')) nodup_range

theorem BlkInterleaver.surj {p : Nat} (inside : p < n) : ∃ j, j < n ∧ blk.indices j = p := by
  have perm : ((range n).map blk.indices).Perm (range n) := by
    refine (subperm_of_subset blk.nodup fun q mem => ?_).perm_of_length_le (by simp)
    obtain ⟨j, inside', rfl⟩ := List.mem_map.mp mem
    exact List.mem_range.mpr (blk.lt j (List.mem_range.mp inside'))
  obtain ⟨j, mem, eq⟩ := List.mem_map.mp (perm.mem_iff.mpr (List.mem_range.mpr inside))
  exact ⟨j, List.mem_range.mp mem, eq⟩

theorem receivedFor_eq {llr : Nat → Int} {j : Nat} (inside : j < n) :
    receivedFor n e k blk ibil llr (blk.indices j) =
      (sources n e k j).map fun i => llr (channelPlace e ibil i) := by
  unfold receivedFor channelOrder sources
  rw [filter_map, map_map]
  congr 1
  refine filter_congr fun i mem => ?_
  have sent := List.mem_range.mp mem
  have place := selected_lt (k := k) (zero_lt_of_lt inside) sent
  rw [Function.comp_apply, carried, polarRmTx_get _ _ _ blk ibil (zero_lt_of_lt inside) sent]
  exact decide_eq_decide.mpr ⟨blk.inj _ _ place inside, congrArg blk.indices⟩

theorem polarRmRx_get (ye llr output : Nat → Int) {j : Nat} (inside : j < n) :
    polarRmRx limit ye llr output blk.indices n e k ibil (blk.indices j) =
      combine limit (fillValue limit e k) ((sources n e k j).map fun i => llr (channelPlace e ibil i)) := by
  unfold polarRmRx interleaverRmRx
  generalize received : (if ibil then chInterleaverRmRx llr ye e else fun i => if i < e then llr i else ye i) = r
  have place := @scatter_get Int (bitSelectionRmRx limit r e n k) output 0 ((range n).map blk.indices) blk.nodup j
    (by simpa using inside)
  rw [getElem_map, getElem_range, Nat.zero_add] at place
  rw [place, bitSelectionRmRx_get r inside]
  congr 1
  refine map_congr_left fun i mem => ?_
  have sent := List.mem_range.mp (List.mem_filter.mp mem).1
  rw [← received]
  cases ibil with
  | false => exact if_pos sent
  | true =>
    obtain ⟨valid, get⟩ := chPositions_get sent
    have written := @scatter_get Int llr ye 0 (chPositions e) ((chPositions_perm e).nodup_iff.mpr nodup_range)
      _ valid
    rw [get, Nat.zero_add] at written
    exact written

end

theorem polarRm_undone (limit : Int) (n e k : Nat) (blk : BlkInterleaver n) (ibil : Bool) :
    ((chPositions e).Perm (range e) ∧
      ∀ (x f y : Nat → Int) (i : Nat), i < e → chInterleaverRmRx (chInterleaverRmTx x f e) y e i = x i) ∧
    (channelOrder e ibil).Perm (range e) ∧
    ∀ (p : Nat), p < n →
      (∀ (ye output x : Nat → Int) (i : Nat), i < e →
        polarRmTx ye x output blk.indices n e k ibil i = x (carried n e k blk ibil i)) ∧
      ∀ (ye output llr : Nat → Int),
        polarRmRx limit ye llr output blk.indices n e k ibil p =
            combine limit (fillValue limit e k) (receivedFor n e k blk ibil llr p) ∧
          (receivedFor n e k blk ibil llr p ≠ [] →
            (∀ part, part <+: receivedFor n e k blk ibil llr p → -limit ≤ part.sum ∧ part.sum ≤ limit) →
              polarRmRx limit ye llr output blk.indices n e k ibil p = (receivedFor n e k blk ibil llr p).sum) ∧
          (n ≤ e → receivedFor n e k blk ibil llr p ≠ []) ∧
          (e < n → (receivedFor n e k blk ibil llr p).length ≤ 1 ∧
            (receivedFor n e k blk ibil llr p = [] ↔
              ∃ j, j < n ∧ p = blk.indices j ∧ if 16 * k ≤ 7 * e then j < n - e else e ≤ j)) := by
  refine ⟨⟨chPositions_perm e, fun x f y i inside => scatter_gather (chPositions_perm e) y inside⟩,
    channelOrder_perm, fun p below => ⟨?_, ?_⟩⟩
  · intro ye output x place sent
    obtain ⟨i, mem, rfl⟩ := List.mem_map.mp ((@channelOrder_perm e ibil).mem_iff.mpr (List.mem_range.mpr sent))
    have pos := zero_lt_of_lt below
    rw [carried, polarRmTx_get _ _ _ blk ibil pos (List.mem_range.mp mem),
      polarRmTx_get _ _ _ blk ibil pos (List.mem_range.mp mem)]
  · intro ye output llr
    obtain ⟨j, inside, rfl⟩ := blk.surj below
    rw [receivedFor_eq inside, polarRmRx_get ye llr output inside]
    refine ⟨rfl, fun some_ small => ?_, fun long => ?_, fun short => ?_⟩
    · obtain ⟨v, vs, eq⟩ := exists_cons_of_ne_nil some_
      rw [eq] at small ⊢
      exact combine_eq_sum small
    · rw [sources_of_long long inside]
      exact cons_ne_nil _ _
    · rw [sources_of_short short inside]
      have only : ∀ P : Nat → Prop, (∃ j', j' < n ∧ blk.indices j = blk.indices j' ∧ P j') ↔ P j := fun P =>
        ⟨fun ⟨j', inside', same, here⟩ => blk.inj j j' inside inside' same ▸ here, fun here => ⟨j, inside, rfl, here⟩⟩
      rw [only]
      split
      · split <;> simp <;> omega
      · split <;> simp <;> omega

end IsrRan.Phy.Polar
