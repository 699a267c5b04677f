import Mathlib.Algebra.BigOperators.Fin
import IsrRan.Lib.ModWindow
import IsrRan.Pdcp.EntityLte

namespace IsrRan.Pdcp
open Finset

def Config.checkValidConfig (cfg : Config) : Bool :=
  !(cfg.snLen = .len5 && cfg.isDrb) && !(cfg.snLen = .len7 && (cfg.isSrb || !cfg.rbIsUm))

structure AmDrb where
  cfg : Config
  drb : cfg.isDrb = true
  am : cfg.rbIsUm = false
  valid : cfg.checkValidConfig = true

theorem AmDrb.snLen_eq (bearer : AmDrb) : bearer.cfg.snLen = .len12 ∨ bearer.cfg.snLen = .len18 := by
  have valid := bearer.valid
  unfold Config.checkValidConfig at valid
  rw [drb, bearer.am] at valid
  cases len : bearer.cfg.snLen <;> simp_all

theorem AmDrb.snSpace_eq (bearer : AmDrb) : bearer.cfg.snSpace = 4096 ∨ bearer.cfg.snSpace = 262144 := by
  unfold Config.snSpace
  cases bearer.snLen_eq with
  | inl twelve => exact .inl (by rw [twelve]; rfl)
  | inr eighteen => exact .inr (by rw [eighteen]; rfl)

namespace UndeliveredSdus

/-- The queue as `configure` makes it: the modulus is the largest SN. -/
def configured (cfg : Config) : UndeliveredSdus := { snMod := cfg.maximumPdcpSn }

def total (weight : StoredSdu → Nat) (q : UndeliveredSdus) : Nat :=
  ∑ i ∈ range capacity, (q.sdus i).elim 0 weight

def nofStored (q : UndeliveredSdus) : Nat := q.total fun _ => 1

def storedBytes (q : UndeliveredSdus) : Nat := q.total fun sdu => sdu.msg.length

structure Slotted (cfg : Config) (q : UndeliveredSdus) : Prop where
  snMod : q.snMod = cfg.maximumPdcpSn
  fms : q.fms < cfg.snSpace
  held : ∀ i sdu, q.sdus i = some sdu → sdu.pdcpSn % capacity = i ∧ sdu.pdcpSn < cfg.snSpace

section
variable {cfg : Config} {q q' : UndeliveredSdus} {sn x : Nat} {sdu : StoredSdu} {weight : StoredSdu → Nat}

theorem find_eq_some_iff : q.find sn = some sdu ↔ q.sdus (sn % capacity) = some sdu ∧ sdu.pdcpSn = sn := by
  unfold find
  rw [Option.filter_eq_some_iff, decide_eq_true_iff]

theorem hasSdu_iff : q.hasSdu sn = true ↔ ∃ sdu, q.sdus (sn % capacity) = some sdu ∧ sdu.pdcpSn = sn := by
  unfold hasSdu
  rw [Option.isSome_iff_exists]
  simp only [find_eq_some_iff]

theorem Slotted.hasSdu_of_held (slotted : q.Slotted cfg) {i : Nat} (held : q.sdus i = some sdu) :
    q.hasSdu sdu.pdcpSn = true := by
  rw [hasSdu_iff, (slotted.held i sdu held).1]
  exact ⟨sdu, held, rfl⟩

theorem Slotted.lt_of_hasSdu (slotted : q.Slotted cfg) (has : q.hasSdu sn = true) : sn < cfg.snSpace := by
  obtain ⟨sdu, held, rfl⟩ := hasSdu_iff.mp has
  exact (slotted.held _ sdu held).2

theorem capacity_pos : 0 < capacity := by decide

theorem slot_lt : sn % capacity < capacity := Nat.mod_lt _ capacity_pos

theorem total_update {i : Nat} {slot : Option StoredSdu} (lt : i < capacity)
    (updated : q'.sdus = Function.update q.sdus i slot) :
    q'.total weight + (q.sdus i).elim 0 weight = q.total weight + slot.elim 0 weight := by
  have mem : i ∈ range capacity := Finset.mem_range.mpr lt
  have rest : ∑ j ∈ (range capacity).erase i, (q'.sdus j).elim 0 weight =
      ∑ j ∈ (range capacity).erase i, (q.sdus j).elim 0 weight := by
    apply sum_congr rfl
    intro j other
    rw [updated, Function.update_of_ne (ne_of_mem_erase other)]
  unfold total
  rw [← add_sum_erase _ _ mem, ← add_sum_erase _ (fun j => (q.sdus j).elim 0 weight) mem, rest, updated,
    Function.update_self]
  omega

theorem nofStored_eq_zero_iff : q.nofStored = 0 ↔ ∀ i < capacity, q.sdus i = none := by
  unfold nofStored total
  rw [sum_eq_zero_iff]
  simp only [mem_range]
  constructor
  · intro zero i lt
    cases slot : q.sdus i with
    | none => rfl
    | some sdu => exact absurd (zero i lt) (by rw [slot]; exact Nat.one_ne_zero)
  · intro clear i lt
    rw [clear i lt]
    rfl

theorem nofStored_eq_zero_iff_hasSdu (slotted : q.Slotted cfg) : q.nofStored = 0 ↔ ∀ x, q.hasSdu x ≠ true := by
  rw [nofStored_eq_zero_iff]
  constructor
  · intro clear x has
    obtain ⟨sdu, held, -⟩ := hasSdu_iff.mp has
    rw [clear _ slot_lt] at held
    cases held
  · intro none_ i lt
    cases slot : q.sdus i with
    | none => rfl
    | some sdu => exact absurd (slotted.hasSdu_of_held slot) (none_ _)

end

end UndeliveredSdus

end IsrRan.Pdcp

namespace IsrRan.Pdcp.UndeliveredSdus
open Lib

def Precedes (cfg : Config) (a b : Nat) : Prop :=
  0 < modOffset cfg.snSpace a b ∧ modOffset cfg.snSpace a b < cfg.snSpace / 2

structure IsNext (cfg : Config) (q : UndeliveredSdus) (x : Nat) : Prop where
  stored : q.hasSdu x = true
  other : x ≠ q.fms
  first : ∀ y, q.hasSdu y = true → y ≠ q.fms → modOffset cfg.snSpace q.fms x ≤ modOffset cfg.snSpace q.fms y

def searchLength (cfg : Config) (fms x : Nat) : Nat := if fms < x then x - fms else x + cfg.maximumPdcpSn - fms

def Searched (cfg : Config) (fms x : Nat) : Prop :=
  x ≠ cfg.maximumPdcpSn ∧ 0 < searchLength cfg fms x ∧ searchLength cfg fms x ≤ capacity / 2

instance (cfg : Config) (a b : Nat) : Decidable (Precedes cfg a b) := inferInstanceAs (Decidable (_ ∧ _))

instance (cfg : Config) (fms x : Nat) : Decidable (Searched cfg fms x) := inferInstanceAs (Decidable (_ ∧ _))

section Search
variable {q : UndeliveredSdus} {x : Nat}

theorem of_nextStored {fuel i : Nat} (found : q.nextStored fuel i = some x) :
    ∃ j, i ≤ j ∧ j < i + fuel ∧ q.incrementSn (q.fms + j) = x := by
  induction fuel generalizing i with
  | zero => cases found
  | succ fuel ih =>
    unfold nextStored at found
    split at found
    · exact ⟨i, Nat.le_refl i, by omega, Option.some.inj found⟩
    · obtain ⟨j, le, lt, same⟩ := ih found
      exact ⟨j, by omega, by omega, same⟩

theorem nextStored_first {fuel i j : Nat} (le : i ≤ j) (lt : j < i + fuel)
    (stored : q.hasSdu (q.incrementSn (q.fms + j)) = true)
    (first_ : ∀ k, i ≤ k → k < j → q.hasSdu (q.incrementSn (q.fms + k)) ≠ true) :
    q.nextStored fuel i = some (q.incrementSn (q.fms + j)) := by
  induction fuel generalizing i with
  | zero => omega
  | succ fuel ih =>
    unfold nextStored
    by_cases here : i = j
    · rw [here, if_pos stored]
    · rw [if_neg (first_ i (Nat.le_refl i) (by omega))]
      exact ih (by omega) (by omega) fun k le' lt' => first_ k (by omega) lt'

theorem nextStored_none {fuel i : Nat} (found : q.nextStored fuel i = none) {j : Nat} (le : i ≤ j)
    (lt : j < i + fuel) : q.hasSdu (q.incrementSn (q.fms + j)) ≠ true := by
  induction fuel generalizing i with
  | zero => omega
  | succ fuel ih =>
    unfold nextStored at found
    split at found
    · cases found
    · by_cases here : i = j
      · rwa [← here]
      · exact ih found (by omega) (by omega)

end Search

section Fms
variable {bearer : AmDrb} {q : UndeliveredSdus} {x : Nat}

theorem incrementSn_eq (slotted : q.Slotted bearer.cfg) {j : Nat} (lt : j < capacity / 2) :
    q.incrementSn (q.fms + j) =
      if q.fms + j + 1 < bearer.cfg.maximumPdcpSn then q.fms + j + 1
      else q.fms + j + 1 - bearer.cfg.maximumPdcpSn := by
  have bound := slotted.fms
  have half : capacity / 2 = 2048 := rfl
  unfold incrementSn
  rw [slotted.snMod]
  unfold Config.maximumPdcpSn at *
  split
  · exact Nat.mod_eq_of_lt ‹_›
  · rw [Nat.mod_eq_sub_mod (by omega), Nat.mod_eq_of_lt]
    cases bearer.snSpace_eq <;> omega

section
variable (slotted : q.Slotted bearer.cfg)
include slotted

theorem searchLength_incrementSn {j : Nat} (lt : j < capacity / 2) :
    q.incrementSn (q.fms + j) ≠ bearer.cfg.maximumPdcpSn ∧
      searchLength bearer.cfg q.fms (q.incrementSn (q.fms + j)) = j + 1 := by
  have bound := slotted.fms
  have half : capacity / 2 = 2048 := rfl
  rw [incrementSn_eq slotted lt]
  unfold searchLength
  unfold Config.maximumPdcpSn at *
  cases bearer.snSpace_eq <;> split <;> split <;> omega

theorem incrementSn_searchLength (bound : x < bearer.cfg.snSpace)
    (searched : Searched bearer.cfg q.fms x) :
    q.incrementSn (q.fms + (searchLength bearer.cfg q.fms x - 1)) = x := by
  obtain ⟨ne, positive, near⟩ := searched
  rw [incrementSn_eq slotted (by omega)]
  unfold searchLength at *
  unfold Config.maximumPdcpSn at *
  cases bearer.snSpace_eq <;> split at positive <;> split <;> split <;> omega

theorem modOffset_lt_of_earlier (bound : x < bearer.cfg.snSpace)
    (searched : Searched bearer.cfg q.fms x) {j : Nat} (early : j + 1 < searchLength bearer.cfg q.fms x) :
    modOffset bearer.cfg.snSpace q.fms (q.incrementSn (q.fms + j)) < modOffset bearer.cfg.snSpace q.fms x ∧
      q.incrementSn (q.fms + j) ≠ q.fms := by
  have fms := slotted.fms
  have half : capacity / 2 = 2048 := rfl
  obtain ⟨ne, positive, near⟩ := searched
  have candidate := @incrementSn_eq bearer q slotted j (by omega)
  generalize q.incrementSn (q.fms + j) = y at candidate ⊢
  generalize counted : searchLength bearer.cfg q.fms x = n at *
  unfold searchLength at counted
  unfold Config.maximumPdcpSn at *
  have small : y < bearer.cfg.snSpace := by
    cases bearer.snSpace_eq <;> split at candidate <;> omega
  rw [modOffset_eq fms small, modOffset_eq fms bound]
  cases bearer.snSpace_eq <;> split at counted <;> split at candidate <;> split <;> split <;> omega

theorem updateFms_fms_iff (some_ : q.empty = false)
    (next : IsNext bearer.cfg q x) :
    q.updateFms.fms = x ↔ Searched bearer.cfg q.fms x := by
  have fms : q.updateFms.fms = (q.nextStored (capacity / 2) 0).getD (q.incrementSn q.fms) := by
    unfold updateFms
    rw [if_neg (by rw [some_]; exact Bool.false_ne_true)]
  rw [fms]
  constructor
  · intro found
    cases search : q.nextStored (capacity / 2) 0 with
    | none =>
      rw [search] at found
      have first_ := nextStored_none search (Nat.le_refl 0) (by decide)
      have stored := next.stored
      rw [← show q.incrementSn q.fms = x from found] at stored
      exact absurd stored first_
    | some y =>
      rw [search] at found
      obtain rfl : y = x := found
      obtain ⟨j, -, lt, rfl⟩ := of_nextStored search
      have counted := searchLength_incrementSn slotted (j := j) (by omega)
      exact ⟨counted.1, by omega, by omega⟩
  · intro searched
    have place := incrementSn_searchLength slotted (slotted.lt_of_hasSdu next.stored) searched
    have found : q.nextStored (capacity / 2) 0 = some x := by
      rw [← place]
      apply nextStored_first (Nat.zero_le _)
      · have := searched.2
        omega
      · rw [place]
        exact next.stored
      · intro k _ lt stored
        have earlier := modOffset_lt_of_earlier slotted (slotted.lt_of_hasSdu next.stored) searched (j := k) (by omega)
        have least := next.first _ stored earlier.2
        omega
    rw [found]
    rfl

end

end Fms

/-- The counters tell what is stored, and the FMS is stored and precedes all that is. -/
structure Consistent (cfg : Config) (q : UndeliveredSdus) : Prop where
  count : q.count = q.nofStored
  bytes : q.bytes = q.storedBytes
  fmsStored : q.empty = false → q.hasSdu q.fms = true
  fmsFirst : q.empty = false → ∀ x, q.hasSdu x = true → ¬ Precedes cfg x q.fms

inductive Call (cfg : Config) where
  | addSdu (sn : Fin cfg.snSpace) (sdu : ByteBuffer)
  | clearSdu (sn : Fin cfg.snSpace)

section
variable (cfg : Config)

def store (q : UndeliveredSdus) (sn : Nat) (sdu : ByteBuffer) : Option UndeliveredSdus :=
  ({ cfg, undeliveredSdus := q } : EntityLte).storeSdu sn sdu

def call (q : UndeliveredSdus) : Call cfg → UndeliveredSdus
  | .addSdu sn sdu => (store cfg q sn sdu).getD q
  | .clearSdu sn => q.clearSdu sn

def Keeps (q : UndeliveredSdus) (c : Call cfg) : Prop :=
  ∀ x sdu, q.find x = some sdu → (∀ sn : Fin cfg.snSpace, c = .clearSdu sn → x ≠ sn) →
    (q.call cfg c).find x = some sdu

def RunConsistent : UndeliveredSdus → List (Call cfg) → Prop
  | q, [] => q.Consistent cfg
  | q, c :: calls => q.Consistent cfg ∧ q.Keeps cfg c ∧ RunConsistent (q.call cfg c) calls

/-- An SN that `store_sdu` and `add_sdu` let in: at most half the slots above the FMS, or below it as far as can be. -/
def Admits (q : UndeliveredSdus) (sn : Nat) : Prop :=
  q.hasSdu sn = false ∧ q.isFull = false ∧
    (q.empty = true ∨ q.fms < sn ∧ sn ≤ q.fms + capacity / 2 ∨ sn + cfg.maximumAllocatedSnsWindow ≤ q.fms)

def CallFits (q : UndeliveredSdus) : Call cfg → Prop
  | .addSdu sn _ => Admits cfg q sn → q.sdus (sn % capacity) = none
  | .clearSdu sn => q.fms = sn → q.hasSdu sn = true → ∀ x, IsNext cfg q x → Searched cfg q.fms x

def RunFits : UndeliveredSdus → List (Call cfg) → Prop
  | _, [] => True
  | q, c :: calls => q.CallFits cfg c ∧ RunFits (q.call cfg c) calls

end

section
variable {bearer : AmDrb} {q : UndeliveredSdus} {sn : Nat}

theorem i32_u32Sub {a b : Nat} (ha : a < bearer.cfg.snSpace) (hb : b < bearer.cfg.snSpace) :
    i32 (u32Sub a b) = (a : Int) - b := by
  unfold i32 u32Sub
  cases bearer.snSpace_eq <;> split <;> omega

def added (q : UndeliveredSdus) (sn : Nat) (sdu : ByteBuffer) : UndeliveredSdus :=
  let q := if q.empty then { q with fms := sn, lms := sn } else q.updateLms sn
  { q with
    count := q.count + 1
    bytes := q.bytes + sdu.msg.length
    sdus := Function.update q.sdus (sn % capacity) (some ⟨sn, sdu.msg⟩) }

theorem store_eq (slotted : q.Slotted bearer.cfg) (bound : sn < bearer.cfg.snSpace) (sdu : ByteBuffer) :
    (Admits bearer.cfg q sn → store bearer.cfg q sn sdu = some (q.added sn sdu)) ∧
      (¬ Admits bearer.cfg q sn → store bearer.cfg q sn sdu = none) := by
  have window : bearer.cfg.maximumAllocatedSnsWindow = bearer.cfg.snSpace / 2 := rfl
  have slots : capacity = 4096 := rfl
  unfold store EntityLte.storeSdu UndeliveredSdus.addSdu Admits added
  dsimp only
  rw [i32_u32Sub bound slotted.fms]
  cases has : q.hasSdu sn with
  | true => simp
  | false =>
    cases full : q.isFull with
    | true => simp
    | false =>
      cases empty : q.empty with
      | true => simp
      | false =>
        simp only [Bool.false_or, Bool.not_false, Bool.true_and, Bool.false_eq_true, if_false, true_and, false_or]
        constructor
        · intro admitted
          rw [if_neg, if_neg]
          · simp only [Bool.or_eq_true, Bool.and_eq_true, decide_eq_true_iff]
            cases bearer.snSpace_eq <;> omega
          · simp only [Bool.or_eq_true, Bool.and_eq_true, decide_eq_true_iff]
            cases bearer.snSpace_eq <;> omega
        · intro refused
          split
          · rfl
          · rename_i near
            rw [if_pos]
            simp only [Bool.or_eq_true, Bool.and_eq_true, decide_eq_true_iff] at near ⊢
            cases bearer.snSpace_eq <;> omega

theorem updateLms_same (q : UndeliveredSdus) (sn : Nat) :
    (q.updateLms sn).fms = q.fms ∧ (q.updateLms sn).sdus = q.sdus ∧ (q.updateLms sn).count = q.count ∧
      (q.updateLms sn).bytes = q.bytes ∧ (q.updateLms sn).snMod = q.snMod := by
  unfold updateLms
  split
  · exact ⟨rfl, rfl, rfl, rfl, rfl⟩
  · split
    · exact ⟨rfl, rfl, rfl, rfl, rfl⟩
    · split <;> exact ⟨rfl, rfl, rfl, rfl, rfl⟩

theorem added_same (q : UndeliveredSdus) (sn : Nat) (sdu : ByteBuffer) :
    (q.added sn sdu).fms = (if q.empty then sn else q.fms) ∧ (q.added sn sdu).count = q.count + 1 ∧
      (q.added sn sdu).bytes = q.bytes + sdu.msg.length ∧ (q.added sn sdu).snMod = q.snMod ∧
      (q.added sn sdu).sdus = Function.update q.sdus (sn % capacity) (some ⟨sn, sdu.msg⟩) := by
  obtain ⟨fms, sdus, count, bytes, snMod⟩ := updateLms_same q sn
  unfold added
  cases q.empty with
  | true => exact ⟨rfl, rfl, rfl, rfl, rfl⟩
  | false => exact ⟨fms, congrArg (· + 1) count, congrArg (· + sdu.msg.length) bytes, snMod, by rw [← sdus]; rfl⟩

theorem Slotted.added (slotted : q.Slotted bearer.cfg) (bound : sn < bearer.cfg.snSpace) (sdu : ByteBuffer) :
    (q.added sn sdu).Slotted bearer.cfg := by
  obtain ⟨fms, -, -, snMod, sdus⟩ := added_same q sn sdu
  refine ⟨snMod.trans slotted.snMod, ?_, fun i held slot => ?_⟩
  · rw [fms]
    split
    · exact bound
    · exact slotted.fms
  · rw [sdus] at slot
    by_cases here : i = sn % capacity
    · rw [here, Function.update_self] at slot
      cases slot
      exact ⟨here.symm, bound⟩
    · rw [Function.update_of_ne here] at slot
      exact slotted.held i held slot

theorem hasSdu_added (x : Nat) (sdu : ByteBuffer) (free : q.sdus (sn % capacity) = none) :
    (q.added sn sdu).hasSdu x = true ↔ q.hasSdu x = true ∨ x = sn := by
  obtain ⟨-, -, -, -, sdus⟩ := added_same q sn sdu
  rw [hasSdu_iff, hasSdu_iff, sdus]
  by_cases shared : x % capacity = sn % capacity
  · rw [shared, Function.update_self, free]
    constructor
    · rintro ⟨held, same, rfl⟩
      cases same
      exact .inr rfl
    · rintro (⟨held, slot, -⟩ | rfl)
      · cases slot
      · exact ⟨_, rfl, rfl⟩
  · rw [Function.update_of_ne shared]
    constructor
    · exact .inl
    · rintro (has | rfl)
      · exact has
      · exact absurd rfl shared

theorem Admits.not_precedes (admitted : Admits bearer.cfg q sn) (some_ : q.empty = false)
    (fms : q.fms < bearer.cfg.snSpace) (bound : sn < bearer.cfg.snSpace) : ¬ Precedes bearer.cfg sn q.fms := by
  have window : bearer.cfg.maximumAllocatedSnsWindow = bearer.cfg.snSpace / 2 := rfl
  have half : capacity / 2 = 2048 := rfl
  unfold Precedes
  rw [modOffset_eq bound fms]
  rcases admitted.2.2 with empty | above | below
  · rw [empty] at some_
    cases some_
  · cases bearer.snSpace_eq <;> split <;> omega
  · cases bearer.snSpace_eq <;> split <;> omega

theorem Consistent.slots_free (consistent : q.Consistent bearer.cfg) (empty : q.empty = true) (i : Nat)
    (lt : i < capacity) : q.sdus i = none := by
  have count : q.nofStored = 0 := consistent.count.symm.trans (of_decide_eq_true empty)
  exact nofStored_eq_zero_iff.mp count i lt

theorem Consistent.added (slotted : q.Slotted bearer.cfg) (consistent : q.Consistent bearer.cfg)
    (bound : sn < bearer.cfg.snSpace) (sdu : ByteBuffer) (admitted : Admits bearer.cfg q sn)
    (free : q.sdus (sn % capacity) = none) : (q.added sn sdu).Consistent bearer.cfg := by
  obtain ⟨fms, count, bytes, -, sdus⟩ := added_same q sn sdu
  refine ⟨?_, ?_, fun _ => ?_, fun _ x has => ?_⟩
  · have sum := @total_update q (q.added sn sdu) (fun _ => 1) _ _ slot_lt sdus
    rw [free, Option.elim_none, Option.elim_some] at sum
    rw [count, consistent.count]
    unfold nofStored
    omega
  · have sum := @total_update q (q.added sn sdu) (fun sdu => sdu.msg.length) _ _ slot_lt sdus
    rw [free, Option.elim_none, Option.elim_some] at sum
    rw [bytes, consistent.bytes]
    dsimp only at sum
    unfold storedBytes
    omega
  · rw [fms, hasSdu_added _ sdu free]
    cases empty : q.empty with
    | true => exact .inr rfl
    | false => exact .inl (consistent.fmsStored empty)
  · rw [fms]
    rw [hasSdu_added x sdu free] at has
    cases empty : q.empty with
    | true =>
      rcases has with has | rfl
      · obtain ⟨held, slot, -⟩ := hasSdu_iff.mp has
        rw [consistent.slots_free empty _ slot_lt] at slot
        cases slot
      · rintro ⟨positive, -⟩
        rw [if_pos rfl, modOffset_self bound] at positive
        exact Nat.lt_irrefl 0 positive
    | false =>
      rcases has with has | rfl
      · exact consistent.fmsFirst empty x has
      · exact admitted.not_precedes empty slotted.fms bound

theorem added_iff (slotted : q.Slotted bearer.cfg) (consistent : q.Consistent bearer.cfg)
    (bound : sn < bearer.cfg.snSpace) (sdu : ByteBuffer) (admitted : Admits bearer.cfg q sn) :
    ((q.added sn sdu).Consistent bearer.cfg ∧ ∀ x held, q.find x = some held → (q.added sn sdu).find x = some held) ↔
      q.sdus (sn % capacity) = none := by
  obtain ⟨-, -, -, -, sdus⟩ := added_same q sn sdu
  constructor
  · rintro ⟨-, keeps⟩
    cases slot : q.sdus (sn % capacity) with
    | none => rfl
    | some held =>
      obtain ⟨place, -⟩ := slotted.held _ held slot
      have kept := keeps held.pdcpSn held (find_eq_some_iff.mpr ⟨by rw [place]; exact slot, rfl⟩)
      obtain ⟨over_, -⟩ := find_eq_some_iff.mp kept
      rw [sdus, place, Function.update_self] at over_
      cases over_
      have absent := admitted.1
      rw [hasSdu_iff.mpr ⟨_, slot, rfl⟩] at absent
      cases absent
  · intro free
    refine ⟨consistent.added slotted bound sdu admitted free, fun x held found => ?_⟩
    obtain ⟨slot, same⟩ := find_eq_some_iff.mp found
    refine find_eq_some_iff.mpr ⟨?_, same⟩
    have apart : x % capacity ≠ sn % capacity := by
      intro shared
      rw [shared, free] at slot
      cases slot
    rw [sdus, Function.update_of_ne apart, slot]

end

end IsrRan.Pdcp.UndeliveredSdus
