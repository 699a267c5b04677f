import Mathlib.Data.List.Basic
import Mathlib.Data.Nat.Bitwise
import Mathlib.Tactic.Ring

namespace IsrRan.Lib
open List Nat Bool

def bitsOf : Nat → Nat → List Bool
  | 0, _ => []
  | n + 1, v => v.testBit n :: bitsOf n v

def ofBits : List Bool → Nat
  | [] => 0
  | b :: bits => b.toNat * 2 ^ bits.length + ofBits bits

@[simp] theorem bitsOf_length (n v : Nat) : (bitsOf n v).length = n := by
  induction n with
  | zero => rfl
  | succ n ih => rw [bitsOf, length_cons, ih]

theorem getD_bitsOf {n v i : Nat} (inside : i < n) : (bitsOf n v).getD i false = v.testBit (n - 1 - i) := by
  induction n generalizing i with
  | zero => exact absurd inside (Nat.not_lt_zero i)
  | succ n ih =>
    cases i with
    | zero => rfl
    | succ i =>
      rw [bitsOf, getD_cons_succ, ih (lt_of_succ_lt_succ inside)]
      congr 1
      omega

theorem ofBits_lt (bits : List Bool) : ofBits bits < 2 ^ bits.length := by
  induction bits with
  | nil => exact Nat.one_pos
  | cons b bits ih =>
    rw [ofBits, length_cons]
    cases b <;> simp only [toNat_false, toNat_true] <;> omega

theorem ofBits_bitsOf_mod (n v : Nat) : ofBits (bitsOf n v) = v % 2 ^ n := by
  induction n with
  | zero => simp [bitsOf, ofBits, mod_one]
  | succ n ih =>
    rw [bitsOf, ofBits, bitsOf_length, ih, toNat_testBit, Nat.pow_succ, mod_mul]
    ring

theorem ofBits_bitsOf {n v : Nat} (fits : v < 2 ^ n) : ofBits (bitsOf n v) = v := by
  rw [ofBits_bitsOf_mod, mod_eq_of_lt fits]

theorem ofBits_inj {bits bits' : List Bool} (length : bits.length = bits'.length) (same : ofBits bits = ofBits bits') :
    bits = bits' := by
  induction bits generalizing bits' with
  | nil => exact (List.length_eq_zero_iff.mp length.symm).symm
  | cons b bits ih =>
    cases bits' with
    | nil => cases length
    | cons b' bits' =>
      have length' : bits.length = bits'.length := Nat.succ.inj length
      have low := ofBits_lt bits
      have low' := ofBits_lt bits'
      rw [← length'] at low'
      rw [ofBits, ofBits, ← length'] at same
      cases b <;> cases b' <;>
        simp only [toNat_false, toNat_true, Nat.zero_mul, Nat.zero_add] at same
      · rw [ih length' same]
      · omega
      · omega
      · rw [ih length' (Nat.add_left_cancel same)]

theorem bitsOf_mod (n v : Nat) : bitsOf n (v % 2 ^ n) = bitsOf n v := by
  apply ofBits_inj (by simp)
  rw [ofBits_bitsOf_mod, ofBits_bitsOf_mod, mod_mod]

theorem bitsOf_ofBits {n : Nat} {bits : List Bool} (length : bits.length = n) : bitsOf n (ofBits bits) = bits := by
  apply ofBits_inj (by rw [bitsOf_length, length])
  apply ofBits_bitsOf
  rw [← length]
  exact ofBits_lt bits

theorem ofBits_replicate_false (n : Nat) : ofBits (replicate n false) = 0 := by
  induction n with
  | zero => rfl
  | succ n ih => simp [replicate_succ, ofBits, ih]

theorem ofBits_replicate_append (n : Nat) (bits : List Bool) :
    ofBits (replicate n false ++ bits) = ofBits bits := by
  induction n with
  | zero => rfl
  | succ n ih => rw [replicate_succ, cons_append, ofBits, ih, toNat_false, Nat.zero_mul, Nat.zero_add]

abbrev BitReader (α : Type) := StateT (List Bool) Option α

def takeBits (n : Nat) : BitReader Nat := fun bits =>
  if bits.length < n then none else some (ofBits (bits.take n), bits.drop n)

def takeBit : BitReader Bool
  | [] => none
  | b :: bits => some (b, bits)

def Reads {α : Type} (r : BitReader α) (bits : List Bool) (a : α) : Prop := ∀ rest, r (bits ++ rest) = some (a, rest)

namespace Reads
variable {α β : Type} {r : BitReader α} {f : α → BitReader β} {bits bits' : List Bool} {a : α} {b : β}

theorem pure (a : α) : Reads (Pure.pure a : BitReader α) [] a := fun _ => rfl

theorem bind (first : Reads r bits a) (second : Reads (f a) bits' b) : Reads (r >>= f) (bits ++ bits') b := by
  intro rest
  rw [append_assoc]
  show (r (bits ++ (bits' ++ rest))).bind _ = _
  rw [first]
  exact second rest

theorem bind_apply (first : Reads r bits a) (rest : List Bool) : (r >>= f) (bits ++ rest) = f a rest := by
  show (r (bits ++ rest)).bind _ = _
  rw [first]
  rfl

theorem takeBits {n v : Nat} (fits : v < 2 ^ n) : Reads (Lib.takeBits n) (bitsOf n v) v := by
  intro rest
  unfold Lib.takeBits
  rw [if_neg (by simp), take_left' (bitsOf_length n v), drop_left' (bitsOf_length n v), ofBits_bitsOf fits]

end Reads

theorem takeBits_eq_some {n v : Nat} {bits rest : List Bool} (read : takeBits n bits = some (v, rest)) :
    v < 2 ^ n ∧ bits = bitsOf n v ++ rest := by
  unfold takeBits at read
  split at read
  · cases read
  · next enough =>
      cases read
      have taken : (bits.take n).length = n := by rw [length_take]; omega
      have lt := ofBits_lt (bits.take n)
      rw [taken] at lt
      have same : bitsOf n (ofBits (bits.take n)) = bits.take n := by
        apply ofBits_inj (by rw [bitsOf_length, taken])
        exact ofBits_bitsOf lt
      exact ⟨lt, by rw [same, take_append_drop]⟩

def Exact {α : Type} (r : BitReader α) (ok : α → Prop) (enc : α → List Bool) : Prop :=
  ∀ bits a rest, r bits = some (a, rest) ↔ ok a ∧ bits = enc a ++ rest

namespace Exact
variable {α β : Type} {r : BitReader α} {f : α → BitReader β} {ok : α → Prop} {enc : α → List Bool}

theorem bind_iff (exact : Exact r ok enc) {bits rest : List Bool} {b : β} :
    (r >>= f) bits = some (b, rest) ↔ ∃ a bits', ok a ∧ bits = enc a ++ bits' ∧ f a bits' = some (b, rest) := by
  change (r bits).bind _ = _ ↔ _
  rw [Option.bind_eq_some_iff]
  constructor
  · rintro ⟨⟨a, bits'⟩, first, second⟩
    exact ⟨a, bits', ((exact bits a bits').mp first).1, ((exact bits a bits').mp first).2, second⟩
  · rintro ⟨a, bits', fits, same, second⟩
    exact ⟨(a, bits'), (exact bits a bits').mpr ⟨fits, same⟩, second⟩

theorem takeBits (n : Nat) : Exact (Lib.takeBits n) (· < 2 ^ n) (bitsOf n) := by
  intro bits v rest
  constructor
  · exact takeBits_eq_some
  · rintro ⟨fits, rfl⟩
    exact Reads.takeBits fits rest

theorem takeBit : Exact Lib.takeBit (fun _ => True) fun b => [b] := by
  intro bits b rest
  cases bits with
  | nil => simp [Lib.takeBit]
  | cons b' bits => simp [Lib.takeBit]

theorem pure_iff {a b : α} {bits rest : List Bool} :
    (Pure.pure a : BitReader α) bits = some (b, rest) ↔ a = b ∧ bits = rest := by
  change some (a, bits) = some (b, rest) ↔ _
  rw [Option.some.injEq, Prod.mk.injEq]

end Exact

variable {n k v : Nat}

theorem map_fst_eq_some {α : Type} {r : BitReader α} {bits : List Bool} {a : α} :
    (r bits).map Prod.fst = some a ↔ ∃ rest, r bits = some (a, rest) := by
  rw [Option.map_eq_some_iff]
  constructor
  · rintro ⟨⟨_, rest⟩, read, rfl⟩
    exact ⟨rest, read⟩
  · rintro ⟨rest, read⟩
    exact ⟨(a, rest), read, rfl⟩

theorem forall_stale_iff_prefix {layout packed : List Bool} (short : layout.length ≤ packed.length)
    (room : packed.length ≤ n) :
    (∀ stale : List Bool, packed.length + stale.length = n → ∃ rest, packed ++ stale = layout ++ rest) ↔
      layout <+: packed := by
  constructor
  · intro always
    obtain ⟨rest, same⟩ := always (replicate (n - packed.length) false) (by simp; omega)
    exact prefix_of_prefix_length_le ⟨rest, same.symm⟩ (prefix_append _ _) short
  · rintro ⟨tail, same⟩ stale -
    exact ⟨tail ++ stale, by rw [← same, append_assoc]⟩

theorem getElem?_of_forall_stale {packed : List Bool} {b : Bool} (room : packed.length ≤ n)
    (always : ∀ stale : List Bool, packed.length + stale.length = n → (packed ++ stale)[k]? = some b) :
    packed[k]? = some b := by
  by_cases inside : k < packed.length
  · have found := always (replicate (n - packed.length) false) (by simp; omega)
    rwa [List.getElem?_append_left inside] at found
  · have zero := always (replicate (n - packed.length) false) (by simp; omega)
    have one := always (replicate (n - packed.length) true) (by simp; omega)
    rw [List.getElem?_append_right (by omega), List.getElem?_replicate] at zero one
    split at zero
    · next within =>
        rw [if_pos within] at one
        cases zero.trans one.symm
    · cases zero

theorem bitsOf_zero (n : Nat) : bitsOf n 0 = replicate n false := by
  induction n with
  | zero => rfl
  | succ n ih => rw [bitsOf, ih, zero_testBit, replicate_succ]

theorem bitsOf_add {m : Nat} (fits : v < 2 ^ n) : bitsOf (m + n) v = bitsOf m 0 ++ bitsOf n v := by
  have fits' : v < 2 ^ (m + n) := Nat.lt_of_lt_of_le fits (Nat.pow_le_pow_right Nat.two_pos (Nat.le_add_left n m))
  apply ofBits_inj (by simp)
  rw [ofBits_bitsOf fits', bitsOf_zero, ofBits_replicate_append, ofBits_bitsOf fits]

theorem bitsOf_eq_replicate_false (fits : v < 2 ^ n) : bitsOf n v = replicate n false ↔ v = 0 := by
  constructor
  · intro zeros
    rw [← ofBits_bitsOf fits, zeros, ofBits_replicate_false]
  · rintro rfl
    apply ofBits_inj (by simp)
    rw [ofBits_replicate_false]
    exact ofBits_bitsOf fits

theorem bitsOf_prefix_zeros_iff (fits : v < 2 ^ n) (le : n ≤ k) :
    bitsOf n v <+: replicate k false ↔ v = 0 := by
  have split : replicate k false = replicate n false ++ replicate (k - n) false := by
    rw [replicate_append_replicate, Nat.add_sub_cancel' le]
  rw [← bitsOf_eq_replicate_false fits, split]
  constructor
  · intro found
    exact (prefix_of_prefix_length_le found (prefix_append _ _) (by simp)).eq_of_length (by simp)
  · intro zeros
    rw [zeros]
    exact prefix_append _ _

theorem ofBits_replicate_true (n : Nat) : ofBits (replicate n true) = 2 ^ n - 1 := by
  induction n with
  | zero => rfl
  | succ n ih =>
    rw [replicate_succ, ofBits, length_replicate, toNat_true]
    omega

theorem bitsOf_eq_replicate_true (fits : v < 2 ^ n) :
    bitsOf n v = replicate n true ↔ v = 2 ^ n - 1 := by
  constructor
  · intro ones
    rw [← ofBits_bitsOf fits, ones, ofBits_replicate_true]
  · rintro rfl
    apply ofBits_inj (by simp)
    rw [ofBits_replicate_true]
    exact ofBits_bitsOf fits

theorem all_range_iff_prefix {bits : List Bool} {b : Bool} :
    (range n).all (fun i => bits[k + i]? == some b) = true ↔ replicate n b <+: bits.drop k := by
  rw [all_eq_true, prefix_iff_getElem?]
  simp only [mem_range, beq_iff_eq, length_replicate, getElem_replicate, List.getElem?_drop]

theorem replicate_prefix_append_iff {front back : List Bool} {b : Bool} :
    replicate front.length b <+: front ++ back ↔ front = replicate front.length b := by
  constructor
  · rintro ⟨rest, same⟩
    exact (append_inj same (by simp)).1.symm
  · intro same
    rw [← same]
    exact prefix_append _ _

theorem zeros_prefix_iff {front back : List Bool} {n k : Nat} :
    replicate (k + (front.length + n)) false <+: front ++ (replicate n false ++ back) ↔
      front = replicate front.length false ∧ replicate k false <+: back := by
  have split : replicate (k + (front.length + n)) false =
      replicate front.length false ++ (replicate n false ++ replicate k false) := by
    rw [replicate_append_replicate, replicate_append_replicate]
    congr 1
    omega
  rw [split]
  constructor
  · intro found
    obtain ⟨rest, same⟩ := found
    rw [append_assoc] at same
    obtain ⟨zeros, same⟩ := append_inj same (by simp)
    rw [append_assoc] at same
    exact ⟨zeros.symm, rest, append_cancel_left same⟩
  · rintro ⟨zeros, found⟩
    rw [← zeros, prefix_append_right_inj, prefix_append_right_inj]
    exact found

theorem eq_zeros_of_shift {front body : List Bool} (shifts : front ≠ [])
    (same : front ++ body <+: body ++ replicate n false) :
    front = replicate front.length false ∧ body = replicate body.length false := by
  obtain ⟨rest, same⟩ := same
  have allZero : ∀ k i, body.length ≤ i + k → ∀ b, (front ++ body)[i]? = some b → b = false := by
    have positive : 0 < front.length := List.length_pos_iff.mpr shifts
    intro k
    -- by distance from the end, where the zeros are
    induction k with
    | zero =>
      intro i late b found
      have inside : i < (front ++ body).length := by
        by_contra outside
        rw [List.getElem?_eq_none (by omega)] at found
        cases found
      have here : (front ++ body ++ rest)[i]? = some b := by
        rw [List.getElem?_append_left inside, found]
      rw [same, List.getElem?_append_right (by omega), List.getElem?_replicate] at here
      split at here
      · exact (Option.some.inj here).symm
      · cases here
    | succ k ih =>
      intro i late b found
      by_cases last : body.length ≤ i + k
      · exact ih i last b found
      · have here : (front ++ body ++ rest)[i]? = some b := by
          rw [List.getElem?_append_left (by rw [length_append]; omega), found]
        rw [same, List.getElem?_append_left (by omega)] at here
        apply ih (front.length + i) (by omega)
        rw [List.getElem?_append_right (by omega), Nat.add_sub_cancel_left, here]
  have zeros : ∀ b ∈ front ++ body, b = false := by
    intro b mem
    obtain ⟨i, found⟩ := mem_iff_getElem?.mp mem
    exact allZero body.length i (by omega) b found
  constructor
  · exact List.eq_replicate_iff.mpr ⟨rfl, fun b mem => zeros b (mem_append_left _ mem)⟩
  · exact List.eq_replicate_iff.mpr ⟨rfl, fun b mem => zeros b (mem_append_right _ mem)⟩

def writeFields (fields : List (Nat × Nat)) : List Bool := fields.flatMap fun f => bitsOf f.1 f.2

structure BitField (σ : Type) where
  width : Nat
  set : Nat → σ → σ

variable {σ : Type}

def readFields : List (BitField σ) → σ → BitReader σ
  | [], s => pure s
  | f :: fields, s => do
    let v ← takeBits f.width
    readFields fields (f.set v s)

def setFields : List (BitField σ) → List Nat → σ → σ
  | [], _, s => s
  | f :: fields, values, s => setFields fields values.tail (f.set (values.headD 0) s)

def widths (fields : List (BitField σ)) : List Nat := fields.map BitField.width

variable {fields : List (BitField σ)} {s s' : σ} {bits rest : List Bool}

@[simp] theorem writeFields_nil : writeFields [] = [] := rfl

@[simp] theorem writeFields_cons (f : Nat × Nat) (fields : List (Nat × Nat)) :
    writeFields (f :: fields) = bitsOf f.1 f.2 ++ writeFields fields := rfl

theorem writeFields_append (fields fields' : List (Nat × Nat)) :
    writeFields (fields ++ fields') = writeFields fields ++ writeFields fields' := flatMap_append

theorem writeFields_length (fields : List (Nat × Nat)) :
    (writeFields fields).length = (fields.map Prod.fst).sum := by
  induction fields with
  | nil => rfl
  | cons f fields ih => rw [writeFields_cons, length_append, bitsOf_length, ih, map_cons, sum_cons]

/-- What a field of some width can hold of a value that fits: without bits there is only zero. -/
def held (width v : Nat) : Nat := if width = 0 then 0 else v

def FieldsFit (fields : List (Nat × Nat)) : Prop := ∀ f ∈ fields, f.1 ≠ 0 → f.2 < 2 ^ f.1

instance (fields : List (Nat × Nat)) : Decidable (FieldsFit fields) :=
  inferInstanceAs (Decidable (∀ f ∈ fields, f.1 ≠ 0 → f.2 < 2 ^ f.1))

theorem mod_eq_held {width v : Nat} (fits : width ≠ 0 → v < 2 ^ width) : v % 2 ^ width = held width v := by
  unfold held
  split
  · next empty => rw [empty, Nat.pow_zero, mod_one]
  · next some => exact mod_eq_of_lt (fits some)

theorem map_mod_eq {fields : List (Nat × Nat)} (fit : FieldsFit fields) :
    fields.map (fun f => f.2 % 2 ^ f.1) = fields.map fun f => held f.1 f.2 := by
  apply map_congr_left
  intro f mem
  exact mod_eq_held (fit f mem)

theorem readFields_reads {written : List (Nat × Nat)}
    (same : widths fields = written.map Prod.fst) (s : σ) :
    Reads (readFields fields s) (writeFields written) (setFields fields (written.map fun f => f.2 % 2 ^ f.1) s) := by
  induction fields generalizing written s with
  | nil =>
    cases written with
    | nil => exact Reads.pure s
    | cons _ _ => cases same
  | cons f fields ih =>
    cases written with
    | nil => cases same
    | cons w written =>
      obtain ⟨width, widths⟩ := List.cons.inj same
      rw [writeFields_cons, ← bitsOf_mod, ← width]
      apply Reads.bind (Reads.takeBits (mod_lt _ (Nat.two_pow_pos _)))
      rw [map_cons, ← width]
      exact ih widths _

theorem held_mod (width v : Nat) : held width (v % 2 ^ width) = v % 2 ^ width := by
  rw [← mod_eq_held fun _ => mod_lt _ (Nat.two_pow_pos width), mod_mod]

def fieldsOf : List Nat → List Nat → List (Nat × Nat)
  | [], _ => []
  | width :: widths, values => (width, values.headD 0) :: fieldsOf widths values.tail

theorem fieldsOf_map_fst (widths values : List Nat) : (fieldsOf widths values).map Prod.fst = widths := by
  induction widths generalizing values with
  | nil => rfl
  | cons width widths ih => rw [fieldsOf, map_cons, ih]

section
variable (read : readFields fields s bits = some (s', rest))
include read

theorem readFields_eq_some
    : ∃ values,
      bits = writeFields (fieldsOf (widths fields) values) ++ rest ∧
        s' = setFields fields ((fieldsOf (widths fields) values).map fun f => f.2 % 2 ^ f.1) s := by
  induction fields generalizing s bits with
  | nil =>
    cases read
    exact ⟨[], rfl, rfl⟩
  | cons f fields ih =>
    unfold readFields at read
    rw [(Exact.takeBits _).bind_iff] at read
    obtain ⟨v, bits', fits, rfl, read⟩ := read
    obtain ⟨values, rfl, set⟩ := ih read
    refine ⟨v :: values, (append_assoc _ _ _).symm, ?_⟩
    rw [set]
    show _ = setFields fields _ (f.set (v % 2 ^ f.width) s)
    rw [mod_eq_of_lt fits]
    rfl

theorem readFields_again
    : ∃ values,
      s' = setFields fields ((fieldsOf (widths fields) values).map fun f => f.2 % 2 ^ f.1) s ∧ ∀ t,
        readFields fields t bits =
          some (setFields fields ((fieldsOf (widths fields) values).map fun f => f.2 % 2 ^ f.1) t, rest) := by
  obtain ⟨values, rfl, set⟩ := readFields_eq_some read
  exact ⟨values, set, fun t => readFields_reads (fieldsOf_map_fst _ _).symm t rest⟩

end

theorem readFields_append (fields fields' : List (BitField σ)) (s : σ) :
    readFields (fields ++ fields') s = readFields fields s >>= readFields fields' := by
  induction fields generalizing s with
  | nil => rfl
  | cons f fields ih =>
    funext bits
    change (takeBits f.width bits).bind _ = ((takeBits f.width bits).bind _).bind _
    rw [Option.bind_assoc]
    congr 1
    funext ⟨v, rest⟩
    exact congrFun (ih (f.set v s)) rest

theorem readFields_length
    (read : readFields fields s bits = some (s', rest)) : bits.length = (widths fields).sum + rest.length := by
  obtain ⟨values, rfl, -⟩ := readFields_eq_some read
  rw [length_append, writeFields_length, fieldsOf_map_fst]

theorem readFields_of_le {fields : List (BitField σ)} {bits : List Bool} (enough : (widths fields).sum ≤ bits.length)
    (s : σ) : ∃ s' rest, readFields fields s bits = some (s', rest) := by
  induction fields generalizing s bits with
  | nil => exact ⟨s, bits, rfl⟩
  | cons f fields ih =>
    rw [widths, map_cons, sum_cons] at enough
    obtain ⟨s', rest, read⟩ := @ih (bits.drop f.width) (by rw [length_drop]; unfold widths; omega)
      (f.set (ofBits (bits.take f.width)) s)
    refine ⟨s', rest, ?_⟩
    change (takeBits f.width bits).bind _ = _
    unfold takeBits
    rw [if_neg (by omega)]
    exact read

end IsrRan.Lib
