import IsrRan.Phy.LdpcRm

namespace IsrRan.Phy.Ldpc
open Lib List Nat

/-! ### The decoder -/

def bgK : Basegraph → Nat
  | .bg1 => 68 - 46
  | .bg2 => 52 - 42

def bgN : Basegraph → Nat
  | .bg1 => 68
  | .bg2 => 52

def cdwdRmLength (bg : Basegraph) (ls len : Nat) : Nat :=
  let len := if ls * bgN bg - 2 * ls < len then ls * bgN bg - 2 * ls else len
  let len := if len < (bgK bg + 2) * ls then (bgK bg + 2) * ls else len
  if len % ls ≠ 0 then (len / ls + 1) * ls else len

def nLayers (bg : Basegraph) (ls len : Nat) : Nat := (cdwdRmLength bg ls len / ls - bgK bg + 2) % 256

/-- Each layer behind the first four brings in one more variable node, and the first two nodes are not part of
the codeword. -/
def processes (bg : Basegraph) (ls len i : Nat) : Bool := i / ls + 2 < bgK bg + nLayers bg ls len

/-! ### Receptions of one code block -/

structure Reception (bg : Basegraph) (ls : Nat) where
  rm : Rm
  soft : Nat → Int
  set : ∃ f rv mod nref, initRm rm.e f bg ls rv mod nref = some rm ∧ f < ls * baseK bg - 2 * ls ∧ 0 < nref

def receiveAll {bg : Basegraph} {ls : Nat} (tmp : Nat → Int) (fuel : Nat) :
    List (Reception bg ls) → (Nat → Int) × Nat → Option ((Nat → Int) × Nat)
  | [], s => some s
  | r :: later, s => (rmRxC r.rm r.soft s.1 tmp fuel).bind fun s => receiveAll tmp fuel later s

def Rm.Receives (q : Rm) (i : Nat) : Prop :=
  ∃ fuel indices, select (fun i => !(decide (q.iniExclude ≤ i) && decide (i < q.endExclude))) (icwd q.k0 q.ncb)
    fuel 0 q.e = some indices ∧ i ∈ indices

def Rm.reach (q : Rm) : Nat := min (q.k0 + q.e + (q.endExclude - max q.k0 q.iniExclude)) q.ncb

section
variable {bg : Basegraph} {ls len i : Nat}

theorem bgN_eq (bg : Basegraph) : bgN bg = baseN bg + 2 := by cases bg <;> rfl

theorem bgK_eq (bg : Basegraph) : bgK bg = baseK bg := by cases bg <;> rfl

theorem cdwdRmLength_spec (lifting : 0 < ls) : ls ∣ cdwdRmLength bg ls len ∧
    (bgK bg + 2) * ls ≤ cdwdRmLength bg ls len ∧ cdwdRmLength bg ls len ≤ baseN bg * ls := by
  have whole : ls * bgN bg - 2 * ls = baseN bg * ls := by
    rw [bgN_eq, Nat.mul_add, Nat.mul_comm ls 2, Nat.add_sub_cancel, Nat.mul_comm]
  have room : (bgK bg + 2) * ls ≤ baseN bg * ls := Nat.mul_le_mul_right ls (by cases bg <;> decide)
  unfold cdwdRmLength
  rw [whole]
  dsimp only
  generalize lenEq : (if (if baseN bg * ls < len then baseN bg * ls else len) < (bgK bg + 2) * ls then
    (bgK bg + 2) * ls else if baseN bg * ls < len then baseN bg * ls else len) = adjusted
  have bounds : (bgK bg + 2) * ls ≤ adjusted ∧ adjusted ≤ baseN bg * ls := by
    rw [← lenEq]
    split <;> split <;> omega
  split
  · rename_i part
    have quotient := div_add_mod adjusted ls
    have rest := mod_lt adjusted lifting
    have upper : adjusted / ls + 1 ≤ baseN bg := by
      apply Nat.lt_of_mul_lt_mul_left (a := ls)
      rw [Nat.mul_comm ls (baseN bg)]
      omega
    have over_ : adjusted ≤ (adjusted / ls + 1) * ls := by
      rw [succ_mul, Nat.mul_comm]
      omega
    exact ⟨Nat.dvd_mul_left ls _, bounds.1.trans over_, Nat.mul_le_mul_right ls upper⟩
  · rename_i whole
    exact ⟨dvd_of_mod_eq_zero (not_not.mp whole), bounds.1, bounds.2⟩

theorem processes_iff (lifting : 0 < ls) : processes bg ls len i = true ↔ i < cdwdRmLength bg ls len := by
  obtain ⟨⟨layers, eq⟩, lower, upper⟩ := @cdwdRmLength_spec bg ls len lifting
  have quotient : cdwdRmLength bg ls len / ls = layers := by
    rw [eq, Nat.mul_div_cancel_left _ lifting]
  rw [eq, Nat.mul_comm ls layers] at lower upper
  have least := Nat.le_of_mul_le_mul_right lower lifting
  have most := Nat.le_of_mul_le_mul_right upper lifting
  have small : baseN bg ≤ 66 := by cases bg <;> decide
  unfold processes nLayers
  rw [quotient, decide_eq_true_eq, eq, Nat.mul_comm ls layers, ← Nat.div_lt_iff_lt_mul lifting]
  omega

end

/-! ### How far a reception reaches -/

section
variable {ini stop a m : Nat}

theorem length_filter_range' (ordered : ini ≤ stop) (behind : stop ≤ a + m) :
    ((range' a m).filter fun i => !(decide (ini ≤ i) && decide (i < stop))).length = m - (stop - max a ini) := by
  have general : ∀ m, ((range' a m).filter fun i => !(decide (ini ≤ i) && decide (i < stop))).length =
      m - (min stop (a + m) - max a ini) := by
    intro m
    induction m with
    | zero =>
      rw [List.range'_zero, filter_nil, length_nil, Nat.zero_sub]
    | succ m ih =>
      rw [List.range'_concat, filter_append, length_append, Nat.one_mul, filter_singleton]
      by_cases filler : ini ≤ a + m ∧ a + m < stop
      · rw [show (!(decide (ini ≤ a + m) && decide (a + m < stop))) = false by simp [filler]]
        simp only [cond_false, length_nil]
        omega
      · rw [show (!(decide (ini ≤ a + m) && decide (a + m < stop))) = true by
          simp only [Bool.not_eq_true', Bool.and_eq_false_iff, decide_eq_false_iff_not]
          omega]
        simp only [cond_true, length_singleton]
        omega
  rw [general, Nat.min_eq_left behind]

end

structure Rm.WellFormed (bg : Basegraph) (ls : Nat) (q : Rm) : Prop where
  buffer : q.ncb ≤ ls * baseN bg
  start : q.k0 < q.ncb
  ordered : q.iniExclude ≤ q.endExclude
  systematic : q.endExclude ≤ ls * bgK bg - 2 * ls
  first : 0 < q.iniExclude

section
variable {bg : Basegraph} {ls : Nat}

theorem Reception.wellFormed (lifting : 0 < ls) (liftingSize : ls ≤ 384) (r : Reception bg ls) :
    r.rm.WellFormed bg ls := by
  obtain ⟨f, rv, mod, nref, init, few, positive⟩ := r.set
  obtain ⟨-, -, buffer, -, eq⟩ := initRm_eq_some init
  have size : ls * baseK bg ≤ 384 * 22 := Nat.mul_le_mul liftingSize (by cases bg <;> decide)
  have ends : r.rm.endExclude = ls * baseK bg - 2 * ls := by
    rw [eq]
    rfl
  have begins : r.rm.iniExclude = ls * baseK bg - 2 * ls - f := by
    unfold Rm.iniExclude
    rw [ends, eq]
    unfold u32Sub
    dsimp only
    omega
  have offset : baseK0 rv bg < baseN bg := by
    cases bg
    · rcases rv with _ | _ | _ | _ | rv
      all_goals first | decide | exact (by decide : 0 < baseN .bg1)
    · rcases rv with _ | _ | _ | _ | rv
      all_goals first | decide | exact (by decide : 0 < baseN .bg2)
  refine ⟨buffer, ?_, ?_, ?_, ?_⟩
  · unfold initRm at init
    dsimp only at init
    split at init
    · cases init
    · split at init
      · cases init
      · split at init
        · cases init
        · rw [← Option.some.inj init]
          split
          · exact Nat.mul_lt_mul_of_pos_left offset lifting
          · rename_i long
            have limit : ls * (baseK0 rv bg * nref / (ls * baseN bg)) * baseN bg < nref * baseN bg := by
              calc
                _ = ls * baseN bg * (baseK0 rv bg * nref / (ls * baseN bg)) := by ring
                _ ≤ baseK0 rv bg * nref := mul_div_le _ _
                _ < baseN bg * nref := Nat.mul_lt_mul_of_pos_right offset positive
                _ = nref * baseN bg := Nat.mul_comm _ _
            exact Nat.lt_of_mul_lt_mul_right limit
  · omega
  · rw [ends, bgK_eq]
  · omega

variable {q : Rm} {len : Nat}

theorem keptIn_icwd {keep : Nat → Bool} {k0 ncb m : Nat} (inside : k0 + m ≤ ncb) (small : ncb ≤ 4294967296) :
    keptIn keep (icwd k0 ncb) 0 m = (range' k0 m).filter keep := by
  have places : (range' 0 m).map (icwd k0 ncb) = range' k0 m := by
    apply ext_getElem
    · simp
    · intro j below _
      rw [length_map, length_range'] at below
      rw [getElem_map, getElem_range', getElem_range', Nat.one_mul, Nat.zero_add]
      unfold icwd
      rw [mod_eq_of_lt (show k0 + j < 4294967296 by omega), mod_eq_of_lt (show k0 + j < ncb by omega)]
  unfold keptIn
  rw [places]

def Rm.keeps (q : Rm) (i : Nat) : Bool := !(decide (q.iniExclude ≤ i) && decide (i < q.endExclude))

theorem Rm.keeps_of_endExclude_le {i : Nat} (behind : q.endExclude ≤ i) : q.keeps i = true := by
  unfold Rm.keeps
  simp [Nat.not_lt.mpr behind]

section
variable (wf : q.WellFormed bg ls)
include wf

theorem Rm.WellFormed.small (liftingSize : ls ≤ 384) : q.ncb ≤ 4294967296 := by
  have size : ls * baseN bg ≤ 384 * 66 := Nat.mul_le_mul liftingSize (by cases bg <;> decide)
  have buffer := wf.buffer
  omega

theorem Rm.WellFormed.positions (liftingSize : ls ≤ 384) :
    ∃ indices : List Nat, (∀ i ∈ indices, i < q.ncb) ∧ ∀ fuel, q.e * 4294967296 ≤ fuel →
      select q.keeps (icwd q.k0 q.ncb) fuel 0 q.e = some indices := by
  have zero : q.keeps 0 = true := by
    unfold Rm.keeps
    simp [Nat.not_le.mpr wf.first]
  obtain ⟨indices, -, inside, selected⟩ := @select_positions q.k0 q.ncb q.e q.keeps (wf.small liftingSize)
    ⟨0, Nat.lt_of_le_of_lt (Nat.zero_le _) wf.start, zero⟩
  exact ⟨indices, fun i mem => (inside i mem).1, selected⟩

theorem Rm.WellFormed.receives_below_iff (liftingSize : ls ≤ 384) (behind : q.endExclude ≤ len) :
    (∀ i, q.Receives i → i < len) ↔ q.e = 0 ∨ q.reach ≤ len := by
  have small := wf.small liftingSize
  have start := wf.start
  have ordered := wf.ordered
  obtain ⟨indices, inside, selected⟩ := wf.positions liftingSize
  unfold Rm.reach
  constructor
  · intro below
    by_contra far
    -- the first place at or behind `len`
    obtain ⟨m, target⟩ : ∃ m, max len q.k0 = q.k0 + m := ⟨max len q.k0 - q.k0, by omega⟩
    have here : icwd q.k0 q.ncb m = q.k0 + m := by
      unfold icwd
      rw [mod_eq_of_lt (show q.k0 + m < 4294967296 by omega), mod_eq_of_lt (by omega)]
    have count : (keptIn q.keeps (icwd q.k0 q.ncb) 0 m).length = m - (q.endExclude - max q.k0 q.iniExclude) := by
      rw [keptIn_icwd (by omega) small]
      exact length_filter_range' ordered (by omega)
    obtain ⟨left, more⟩ : ∃ left, q.e - (keptIn q.keeps (icwd q.k0 q.ncb) 0 m).length = left + 1 :=
      ⟨q.e - (keptIn q.keeps (icwd q.k0 q.ncb) 0 m).length - 1, by omega⟩
    have split := selected (m + (q.e * 4294967296 + 1)) (by omega)
    rw [select_beyond (by omega), more, Nat.zero_add, select, here,
      if_pos (Rm.keeps_of_endExclude_le (by omega)), Option.map_map] at split
    obtain ⟨later, -, rfl⟩ := Option.map_eq_some_iff.mp split
    have reached := below (q.k0 + m) ⟨_, _, selected _ (Nat.le_refl _), by simp⟩
    omega
  · rintro short i ⟨fuel, found, run, mem⟩
    have enough := select_add run (q.e * 4294967296)
    rw [show (fun i => !(decide (q.iniExclude ≤ i) && decide (i < q.endExclude))) = q.keeps from rfl,
      selected _ (Nat.le_add_left _ _)] at enough
    obtain rfl := Option.some.inj enough
    rcases short with none_ | short
    · have run := selected (q.e * 4294967296) (Nat.le_refl _)
      rw [none_] at run
      rw [← Option.some.inj run] at mem
      cases mem
    · by_cases whole : q.ncb ≤ len
      · exact Nat.lt_of_lt_of_le (inside i mem) whole
      · obtain ⟨m, target⟩ : ∃ m, len = q.k0 + m := ⟨len - q.k0, by omega⟩
        have count : (keptIn q.keeps (icwd q.k0 q.ncb) 0 m).length = m - (q.endExclude - max q.k0 q.iniExclude) := by
          rw [keptIn_icwd (by omega) small]
          exact length_filter_range' ordered (by omega)
        have run := selected (q.e * 4294967296 + m) (by omega)
        rw [select_within (show q.e ≤ (keptIn q.keeps (icwd q.k0 q.ncb) 0 m).length by omega) (by omega)] at run
        rw [← Option.some.inj run, keptIn_icwd (by omega) small] at mem
        have place := (List.mem_filter.mp (mem_of_mem_take mem)).1
        rw [target]
        exact (mem_range'_1.mp place).2

end

/-! ### A sequence of receptions -/

theorem Reception.e_le (r : Reception bg ls) : r.rm.e ≤ maxE := by
  obtain ⟨f, rv, mod, nref, init, -, -⟩ := r.set
  unfold initRm at init
  split at init
  · cases init
  · rename_i short
    exact Nat.le_of_not_lt short

theorem receiveAll_length (lifting : 0 < ls) (liftingSize : ls ≤ 384) (tmp : Nat → Int) {fuel : Nat}
    (enough : maxE * 4294967296 ≤ fuel) (earlier : List (Reception bg ls)) (last : Reception bg ls)
    (start : (Nat → Int) × Nat) : ∃ buf, receiveAll tmp fuel (earlier ++ [last]) start =
      some (buf, min (last.rm.k0 + last.rm.e) last.rm.ncb) := by
  have ends : ∀ (r : Reception bg ls) (prior : Nat → Int), ∃ buf, rmRxC r.rm r.soft prior tmp fuel =
      some (buf, min (r.rm.k0 + r.rm.e) r.rm.ncb) := by
    intro r prior
    obtain ⟨indices, -, selected⟩ := (r.wellFormed lifting liftingSize).positions liftingSize
    have run := selected fuel ((Nat.mul_le_mul_right _ r.e_le).trans enough)
    unfold rmRxC bitSelectionRmRxC
    rw [show (fun i => !(decide (r.rm.iniExclude ≤ i) && decide (i < r.rm.endExclude))) = r.rm.keeps from rfl, run]
    exact ⟨_, rfl⟩
  induction earlier generalizing start with
  | nil =>
    obtain ⟨buf, run⟩ := ends last start.1
    refine ⟨buf, ?_⟩
    rw [nil_append, receiveAll, run]
    rfl
  | cons r earlier ih =>
    obtain ⟨buf, run⟩ := ends r start.1
    obtain ⟨buf', later⟩ := ih (buf, min (r.rm.k0 + r.rm.e) r.rm.ncb)
    refine ⟨buf', ?_⟩
    rw [cons_append, receiveAll, run]
    exact later

theorem receiveAll_processed_iff (lifting : 0 < ls) (liftingSize : ls ≤ 384) (tmp : Nat → Int) {fuel : Nat}
    (enough : maxE * 4294967296 ≤ fuel) (earlier : List (Reception bg ls)) (last : Reception bg ls)
    (start : (Nat → Int) × Nat) : ∃ buf len, receiveAll tmp fuel (earlier ++ [last]) start = some (buf, len) ∧
      ((∀ r ∈ earlier ++ [last], ∀ i, r.rm.Receives i → processes bg ls len i = true) ↔
        ∀ r ∈ earlier ++ [last], r.rm.e = 0 ∨
          r.rm.reach ≤ cdwdRmLength bg ls (min (last.rm.k0 + last.rm.e) last.rm.ncb)) := by
  obtain ⟨buf, run⟩ := receiveAll_length lifting liftingSize tmp enough earlier last start
  refine ⟨buf, _, run, forall₂_congr fun r _ => ?_⟩
  have wf := r.wellFormed lifting liftingSize
  have long := (@cdwdRmLength_spec bg ls (min (last.rm.k0 + last.rm.e) last.rm.ncb) lifting).2.1
  have systematic := wf.systematic
  rw [Nat.add_mul, Nat.mul_comm (bgK bg) ls] at long
  rw [← wf.receives_below_iff liftingSize (by omega)]
  apply forall₂_congr
  intro i _
  exact processes_iff lifting

def fillerReception : Reception .bg2 2 where
  rm := ⟨100, 40, 20, 3, 2, 2, .bg2, 100, 0⟩
  soft := fun _ => 1
  set := ⟨3, 0, .qpsk, 100, rfl, by decide, by decide⟩

def longReception (e : Nat) (set : e = 60 ∨ e = 24) : Reception .bg2 2 where
  rm := ⟨100, e, 20, 0, 2, 2, .bg2, 100, 0⟩
  soft := fun _ => 1
  set := by
    refine ⟨0, 0, .qpsk, 100, ?_, by decide, by decide⟩
    rcases set with rfl | rfl <;> rfl

theorem receiveAll_processed_twice : ∃ buf len,
    receiveAll (fun _ => 0) (maxE * 4294967296) ([longReception 24 (.inr rfl)] ++ [longReception 60 (.inl rfl)])
        (fun _ => 0, 0) = some (buf, len) ∧
      ∀ i, (longReception 24 (.inr rfl)).rm.Receives i → processes .bg2 2 len i = true := by
  obtain ⟨buf, len, run, iff⟩ := receiveAll_processed_iff (by decide) (by decide) (fun _ => 0) (Nat.le_refl _)
    [longReception 24 (.inr rfl)] (longReception 60 (.inl rfl)) (fun _ => 0, 0)
  refine ⟨buf, len, run, iff.mpr ?_ _ (by simp)⟩
  intro r mem
  rcases List.mem_cons.mp mem with rfl | mem
  · exact .inr (by decide)
  · rw [List.mem_singleton.mp mem]
    exact .inr (by decide)

theorem fillerReception_beyond :
    ¬ ∀ (bg : Basegraph) (ls : Nat), 0 < ls → ls ≤ 384 → ∀ (earlier : List (Reception bg ls)) (last : Reception bg ls)
      (tmp : Nat → Int) (fuel : Nat) (start : (Nat → Int) × Nat) (buf : Nat → Int) (len : Nat),
      receiveAll tmp fuel (earlier ++ [last]) start = some (buf, len) →
        ∀ r ∈ earlier ++ [last], ∀ i, r.rm.Receives i → processes bg ls len i = true := by
  intro covers
  have inside := covers .bg2 2 (by decide) (by decide) [] fillerReception (fun _ => 0) 43 (fun _ => 0, 0) _ _ rfl
    fillerReception (by simp) 42 ⟨43, _, rfl, by decide⟩
  exact absurd inside (by decide)

end

end IsrRan.Phy.Ldpc
