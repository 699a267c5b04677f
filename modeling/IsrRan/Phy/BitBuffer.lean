import Mathlib.Tactic.IntervalCases

/-! Bits in buffers of bytes, the most significant one in front (utils/bit.c, without vector instructions). -/

namespace IsrRan.Phy.Bit
open BitVec List Nat
open Function (update update_of_ne update_self)

abbrev Buffer := Nat → BitVec 8

def bitAt (buffer : Buffer) (k : Nat) : Bool := (buffer (k / 8)).getMsbD (k % 8)

def mask (j : Nat) : BitVec 8 := [0x80, 0x40, 0x20, 0x10, 0x8, 0x4, 0x2, 0x1].getD j 0

def reverseMask (j : Nat) : BitVec 8 := [0x00, 0x80, 0xc0, 0xe0, 0xf0, 0xf8, 0xfc, 0xfe, 0xff].getD j 0

def reverseMaskXor (j : Nat) : BitVec 8 := [0xff, 0x7f, 0x3f, 0x1f, 0x0f, 0x07, 0x03, 0x01, 0x00].getD j 0

def isSet (input : Buffer) (i : Nat) : Bool := input (i / 8) &&& mask (i % 8) ≠ 0

def putBit (output : Buffer) (byte j : Nat) (bit : Bool) : Buffer :=
  update output byte (if bit then output byte ||| mask j else output byte &&& ~~~mask j)

def packByte (bit : Nat → Bool) : BitVec 8 :=
  (range 8).foldl (fun byte j => byte ||| if bit j then mask j else 0) 0

def bitInterleaverRun (interleaver : Nat → Nat) (nofBits : Nat) (input output : Buffer) (wOffset : Nat) : Buffer :=
  let aligns := 0 < wOffset ∧ wOffset < 8
  let st := if aligns then 1 else 0
  let wOffsetP := if aligns then 8 - wOffset else 0
  let first_ := (range wOffsetP).foldl
    (fun output j => putBit output 0 (j + wOffset) (isSet input (interleaver j))) output
  let whole := (range' st (nofBits / 8 - st)).foldl
    (fun output i => update output i
      (packByte fun j => isSet input (interleaver (i * 8 - wOffsetP + j)))) first_
  let last := fun output j =>
    putBit output (nofBits / 8) j (isSet input (interleaver (nofBits / 8 * 8 + j - wOffset)))
  (range wOffset).foldl last ((range (nofBits % 8)).foldl last whole)

def memcpy (dst : Buffer) (d : Nat) (src : Buffer) (s n : Nat) : Buffer := fun i =>
  if d ≤ i ∧ i < d + n then src (s + (i - d)) else dst i

def firstCopy (byte c : BitVec 8) (dstOffsetModulo srcLen : Nat) : BitVec 8 × Nat :=
  if 8 - dstOffsetModulo ≤ srcLen then
    (byte &&& reverseMask dstOffsetModulo ||| c, srcLen - (8 - dstOffsetModulo))
  else
    (byte &&& (reverseMask dstOffsetModulo ||| reverseMaskXor (dstOffsetModulo + srcLen)) |||
      c &&& reverseMask (dstOffsetModulo + srcLen), 0)

def shifted (src : Buffer) (s ls : Nat) : BitVec 8 := src s <<< ls ||| src (s + 1) >>> (8 - ls)

def copyAligned (src : Buffer) (srcOffset srcLen : Nat) (dst : Buffer) (dstOffset : Nat) : Buffer :=
  let modulo := dstOffset % 8
  let skip := if modulo = 0 then 0 else 1
  let copied := firstCopy (dst (dstOffset / 8)) (reverseMaskXor modulo &&& src (srcOffset / 8)) modulo srcLen
  let left := if modulo = 0 then srcLen else copied.2
  let dst := if modulo = 0 then dst else update dst (dstOffset / 8) copied.1
  let s := srcOffset / 8 + skip
  let d := dstOffset / 8 + skip
  let dst := memcpy dst d src s (left / 8)
  if left % 8 = 0 then dst
  else update dst (d + left / 8)
    (dst (d + left / 8) &&& reverseMaskXor (left % 8) ||| reverseMask (left % 8) &&& src (s + left / 8))

def copyShifted (src : Buffer) (srcOffset srcLen : Nat) (dst : Buffer) (dstOffset : Nat) : Buffer :=
  let srcModulo := srcOffset % 8
  let dstModulo := dstOffset % 8
  let ls := if dstModulo < srcModulo then srcModulo - dstModulo else 8 - (dstModulo - srcModulo)
  let c := if dstModulo < srcModulo then shifted src (srcOffset / 8) ls &&& reverseMaskXor dstModulo
    else src (srcOffset / 8) >>> (dstModulo - srcModulo) &&& reverseMaskXor dstModulo
  let copied := firstCopy (dst (dstOffset / 8)) c dstModulo srcLen
  let left := copied.2
  let dst := update dst (dstOffset / 8) copied.1
  let s := if dstModulo < srcModulo then srcOffset / 8 + 1 else srcOffset / 8
  let d := dstOffset / 8 + 1
  let dst := memcpy dst d (fun i => shifted src i ls) s (left / 8)
  if left % 8 = 0 then dst
  else update dst (d + left / 8)
    (dst (d + left / 8) &&& reverseMaskXor (left % 8) |||
      shifted src (s + left / 8) ls &&& reverseMask (left % 8))

def bitarrayCopy (src : Buffer) (srcOffset srcLen : Nat) (dst : Buffer) (dstOffset : Nat) : Buffer :=
  if srcLen = 0 then dst
  else if srcOffset % 8 = dstOffset % 8 then copyAligned src srcOffset srcLen dst dstOffset
  else copyShifted src srcOffset srcLen dst dstOffset

def bitCopy (dst : Buffer) (dstOffset : Nat) (src : Buffer) (srcOffset nofBits : Nat) : Buffer :=
  if dstOffset % 8 = 0 ∧ srcOffset % 8 = 0 then
    let dst := memcpy dst (dstOffset / 8) src (srcOffset / 8) (nofBits / 8)
    if nofBits % 8 = 0 then dst
    else update dst (dstOffset / 8 + nofBits / 8)
      (src (srcOffset / 8 + nofBits / 8) &&& reverseMask (nofBits % 8))
  else bitarrayCopy src srcOffset nofBits dst dstOffset

/-! ### Bytes -/

section
variable {j t : Nat}

theorem mask_getMsbD (small : j < 8) (t : Nat) : (mask j).getMsbD t = decide (t = j) := by
  by_cases inside : t < 8
  · interval_cases j <;> interval_cases t <;> rfl
  · rw [getMsbD_of_ge _ _ (by omega), decide_eq_false (by omega)]

theorem reverseMask_getMsbD (small : j ≤ 8) (inside : t < 8) : (reverseMask j).getMsbD t = decide (t < j) := by
  interval_cases j <;> interval_cases t <;> rfl

theorem reverseMaskXor_getMsbD (small : j ≤ 8) (inside : t < 8) : (reverseMaskXor j).getMsbD t = decide (j ≤ t) := by
  interval_cases j <;> interval_cases t <;> rfl

theorem and_mask_ne_zero (byte : BitVec 8) (small : j < 8) : byte &&& mask j ≠ 0 ↔ byte.getMsbD j = true := by
  constructor
  · intro some_
    by_contra clear
    apply some_
    apply eq_of_getMsbD_eq
    intro t _
    rw [getMsbD_and, mask_getMsbD small]
    by_cases same : t = j
    · subst same
      rw [Bool.not_eq_true] at clear
      rw [clear]
      exact BitVec.getMsbD_zero.symm
    · rw [decide_eq_false same, Bool.and_false]
      exact BitVec.getMsbD_zero.symm
  · intro set zero
    have bit := congrArg (fun byte => byte.getMsbD j) zero
    rw [getMsbD_and, set, mask_getMsbD small, decide_eq_true rfl] at bit
    rw [show (0 : BitVec 8).getMsbD j = false from getMsbD_zero] at bit
    cases bit

theorem bitAt_of_place {buffer : Buffer} {k d : Nat} (inside : t < 8) (place : k = 8 * d + t) :
    bitAt buffer k = (buffer d).getMsbD t := by
  unfold bitAt
  rw [show k / 8 = d by omega, show k % 8 = t by omega]

theorem isSet_eq (input : Buffer) (i : Nat) : isSet input i = bitAt input i := by
  unfold isSet bitAt
  rw [Bool.eq_iff_iff, decide_eq_true_iff]
  exact and_mask_ne_zero _ (mod_lt i (by decide))

theorem put_getMsbD (byte : BitVec 8) (bit : Bool) (small : j < 8) (inside : t < 8) :
    (if bit then byte ||| mask j else byte &&& ~~~mask j).getMsbD t = if t = j then bit else byte.getMsbD t := by
  cases bit
  · rw [if_neg Bool.false_ne_true, getMsbD_and, getMsbD_not, mask_getMsbD small]
    by_cases same : t = j <;> simp [same, inside]
  · rw [if_pos rfl, getMsbD_or, mask_getMsbD small]
    by_cases same : t = j <;> simp [same]

theorem packByte_getMsbD (bit : Nat → Bool) (inside : t < 8) : (packByte bit).getMsbD t = bit t := by
  have or_bits : ∀ n ≤ 8, ((range n).foldl (fun byte j => byte ||| if bit j then mask j else 0) 0).getMsbD t =
      (decide (t < n) && bit t) := by
    intro n
    induction n with
    | zero =>
      intro _
      exact getMsbD_zero
    | succ n ih =>
      intro bounded
      rw [range_succ, foldl_append, foldl_cons, foldl_nil, getMsbD_or, ih (by omega)]
      have last : (if bit n then mask n else 0).getMsbD t = (decide (t = n) && bit n) := by
        cases bit n
        · rw [Bool.and_false]
          exact getMsbD_zero
        · rw [if_pos rfl, mask_getMsbD (by omega), Bool.and_true]
      rw [last]
      by_cases same : t = n
      · subst same
        simp
      · have : t < n + 1 ↔ t < n := by omega
        simp [same, this]
  unfold packByte
  rw [or_bits 8 (Nat.le_refl 8), decide_eq_true inside, Bool.true_and]

theorem shifted_getMsbD (src : Buffer) {s ls : Nat} (small : ls ≤ 8) (inside : t < 8) :
    (shifted src s ls).getMsbD t = bitAt src (8 * s + ls + t) := by
  unfold shifted
  rw [getMsbD_or, getMsbD_shiftLeft, getMsbD_ushiftRight, decide_eq_true inside]
  by_cases first_ : t + ls < 8
  · rw [decide_eq_true (by omega : t < 8 - ls), bitAt_of_place (d := s) first_ (by omega)]
    simp
  · rw [decide_eq_false (by omega : ¬t < 8 - ls), getMsbD_of_ge _ _ (by omega),
      bitAt_of_place (d := s + 1) (t := t - (8 - ls)) (by omega) (by omega)]
    simp

end

/-! ### Bits that are written one after the other -/

def Puts (old new : Buffer) (a n : Nat) (f : Nat → Bool) : Prop :=
  ∀ k, bitAt new k = if a ≤ k ∧ k < a + n then f (k - a) else bitAt old k

section
variable {old new src : Buffer} {a n r d o s t : Nat} {f : Nat → Bool} {b : BitVec 8}

theorem Puts.refl : Puts old old a 0 f := by
  intro k
  rw [if_neg (by omega)]

theorem Puts.byte (puts : Puts old new a n f) (next : a + n = 8 * d + o) (inside : o + r ≤ 8)
    (bits : ∀ t < 8, b.getMsbD t = if o ≤ t ∧ t < o + r then f (n + (t - o)) else (new d).getMsbD t) :
    Puts old (update new d b) a (n + r) f := by
  intro k
  have before := puts k
  unfold bitAt at before ⊢
  by_cases here : k / 8 = d
  · rw [here] at before ⊢
    rw [update_self, bits _ (mod_lt k (by decide)), before]
    by_cases written : o ≤ k % 8 ∧ k % 8 < o + r
    · rw [if_pos written, if_pos (by omega), show n + (k % 8 - o) = k - a by omega]
    · rw [if_neg written]
      by_cases earlier : a ≤ k ∧ k < a + n
      · rw [if_pos earlier, if_pos (by omega)]
      · rw [if_neg earlier, if_neg (by omega)]
  · rw [update_of_ne here, before]
    by_cases earlier : a ≤ k ∧ k < a + n
    · rw [if_pos earlier, if_pos (by omega)]
    · rw [if_neg earlier, if_neg (by omega)]

theorem Puts.whole (puts : Puts old new a n f) (next : a + n = 8 * d) (bits : ∀ t < 8, b.getMsbD t = f (n + t)) :
    Puts old (update new d b) a (n + 8) f := by
  apply Puts.byte (o := 0) puts next (Nat.le_refl 8)
  intro t inside
  rw [bits t inside, if_pos (by omega), Nat.sub_zero]

theorem Puts.bit {v : Bool} (puts : Puts old new a n f) (next : a + n = 8 * d + o) (inside : o < 8) (value : v = f n) :
    Puts old (putBit new d o v) a (n + 1) f := by
  apply puts.byte next inside
  intro t small
  rw [put_getMsbD _ _ inside small, value]
  by_cases same : t = o
  · rw [if_pos same, if_pos (by omega), same, Nat.sub_self, Nat.add_zero]
  · rw [if_neg same, if_neg (by omega)]

theorem Puts.bits (puts : Puts old new a n f) (value : Nat → Bool) (start m : Nat) (next : a + n = 8 * d + start)
    (inside : start + m ≤ 8) (values : ∀ j < m, value j = f (n + j)) :
    Puts old ((range m).foldl (fun new j => putBit new d (j + start) (value j)) new) a (n + m) f := by
  induction m with
  | zero => exact puts
  | succ m ih =>
    rw [range_succ, foldl_append]
    have earlier := ih (by omega) fun j below => values j (by omega)
    exact earlier.bit (by omega) (by omega) (values m (lt_succ_self m))

theorem Puts.bytes (puts : Puts old new a n f) (value : Nat → BitVec 8) (start m : Nat) (next : a + n = 8 * start)
    (values : ∀ i < m, ∀ t < 8, (value (start + i)).getMsbD t = f (n + 8 * i + t)) :
    Puts old ((range' start m).foldl (fun new i => update new i (value i)) new) a (n + 8 * m) f := by
  induction m with
  | zero => exact puts
  | succ m ih =>
    rw [List.range'_concat, foldl_append, Nat.one_mul]
    have earlier := ih fun i below => values i (by omega)
    exact earlier.whole (by omega) (values m (lt_succ_self m))

theorem Puts.memcpy (puts : Puts old new a n f) (m : Nat) (next : a + n = 8 * d)
    (values : ∀ i < m, ∀ t < 8, (src (s + i)).getMsbD t = f (n + 8 * i + t)) :
    Puts old (memcpy new d src s m) a (n + 8 * m) f := by
  have loop := puts.bytes (fun i => src (s + (i - d))) d m next (by
    intro i below t inside
    rw [Nat.add_sub_cancel_left]
    exact values i below t inside)
  have same : Bit.memcpy new d src s m =
      (range' d m).foldl (fun new i => update new i (src (s + (i - d)))) new := by
    clear loop values
    induction m with
    | zero =>
      funext i
      exact if_neg (by omega)
    | succ m ih =>
      rw [List.range'_concat, foldl_append, ← ih]
      funext i
      rw [foldl_cons, foldl_nil, Nat.one_mul]
      unfold Bit.memcpy
      by_cases last : i = d + m
      · rw [last, update_self, if_pos (by omega)]
      · rw [update_of_ne last]
        by_cases earlier : d ≤ i ∧ i < d + m
        · rw [if_pos earlier, if_pos (by omega)]
        · rw [if_neg earlier, if_neg (by omega)]
  rw [same]
  exact loop

end

theorem bitInterleaverRun_puts (interleaver : Nat → Nat) (nofBits wOffset : Nat) (input output : Buffer)
    (offset : wOffset = 0 ∨ wOffset = 4 ∧ nofBits % 8 = 0 ∧ 8 ≤ nofBits) :
    Puts output (bitInterleaverRun interleaver nofBits input output wOffset) wOffset nofBits fun t =>
      bitAt input (interleaver t) := by
  have start : Puts output output wOffset 0 fun t => bitAt input (interleaver t) := Puts.refl
  unfold bitInterleaverRun
  rcases offset with rfl | ⟨rfl, aligned, enough⟩
  · have whole := start.bytes (fun i => packByte fun j => isSet input (interleaver (i * 8 - 0 + j))) 0
      (nofBits / 8) rfl (by
        intro i _ t inside
        rw [packByte_getMsbD _ inside, isSet_eq]
        congr 2
        omega)
    have last := @Puts.bits _ _ _ _ (nofBits / 8) _ whole
      (fun j => isSet input (interleaver (nofBits / 8 * 8 + j - 0))) 0 (nofBits % 8) (by omega) (by omega) (by
        intro j _
        rw [isSet_eq]
        congr 2
        omega)
    rw [show 0 + 8 * (nofBits / 8) + nofBits % 8 = nofBits by omega] at last
    exact last
  · have first_ := @Puts.bits _ _ _ _ 0 _ start (fun j => isSet input (interleaver j)) 4 4 rfl (by decide) (by
      intro j _
      rw [isSet_eq, Nat.zero_add])
    have whole := first_.bytes (fun i => packByte fun j => isSet input (interleaver (i * 8 - (8 - 4) + j))) 1
      (nofBits / 8 - 1) rfl (by
        intro i _ t inside
        rw [packByte_getMsbD _ inside, isSet_eq]
        congr 2
        omega)
    have last := @Puts.bits _ _ _ _ (nofBits / 8) _ whole
      (fun j => isSet input (interleaver (nofBits / 8 * 8 + j - 4))) 0 4 (by omega) (by decide) (by
        intro j _
        rw [isSet_eq]
        congr 2
        omega)
    rw [show 0 + 4 + 8 * (nofBits / 8 - 1) + 4 = nofBits by omega] at last
    rw [aligned]
    exact last

/-! ### Copies -/

section
variable {dst src : Buffer} {dstOffset srcOffset srcLen left d s ls m t : Nat}

theorem join_getMsbD (x y : BitVec 8) (small : m ≤ 8) (inside : t < 8) :
    (x &&& reverseMaskXor m ||| y &&& reverseMask m).getMsbD t = if t < m then y.getMsbD t else x.getMsbD t := by
  rw [getMsbD_or, getMsbD_and, getMsbD_and, reverseMask_getMsbD small inside,
    reverseMaskXor_getMsbD small inside]
  by_cases first_ : t < m
  · simp [first_]
  · simp [first_, Nat.le_of_not_lt first_]

theorem firstCopy_spec (byte c : BitVec 8) (inside : m < 8) (clear : ∀ t < m, c.getMsbD t = false) (srcLen : Nat) :
    ∃ r ≤ srcLen, m + r ≤ 8 ∧ (firstCopy byte c m srcLen).2 = srcLen - r ∧ (srcLen = r ∨ m + r = 8) ∧
      ∀ t < 8, (firstCopy byte c m srcLen).1.getMsbD t =
        if m ≤ t ∧ t < m + r then c.getMsbD t else byte.getMsbD t := by
  unfold firstCopy
  by_cases fills : 8 - m ≤ srcLen
  · rw [if_pos fills]
    refine ⟨8 - m, fills, by omega, rfl, .inr (by omega), ?_⟩
    intro t small
    rw [getMsbD_or, getMsbD_and, reverseMask_getMsbD (by omega) small]
    by_cases first_ : t < m
    · rw [decide_eq_true first_, Bool.and_true, clear t first_, Bool.or_false, if_neg (by omega)]
    · rw [decide_eq_false first_, Bool.and_false, Bool.false_or, if_pos (by omega)]
  · rw [if_neg fills]
    refine ⟨srcLen, Nat.le_refl _, by omega, (Nat.sub_self _).symm, .inl rfl, ?_⟩
    intro t small
    rw [getMsbD_or, getMsbD_and, getMsbD_and, getMsbD_or,
      reverseMask_getMsbD (by omega) small, reverseMask_getMsbD (by omega) small,
      reverseMaskXor_getMsbD (by omega) small]
    by_cases first_ : t < m
    · rw [decide_eq_true first_, clear t first_, if_neg (by omega)]
      simp
    · by_cases written : t < m + srcLen
      · rw [decide_eq_false first_, decide_eq_true written, decide_eq_false (by omega), if_pos (by omega)]
        simp
      · rw [decide_eq_false first_, decide_eq_false written, decide_eq_true (by omega), if_neg (by omega)]
        simp

theorem memcpy_zero (dst : Buffer) (d : Nat) (src : Buffer) (s : Nat) : memcpy dst d src s 0 = dst := by
  funext i
  exact if_neg (by omega)

def copyRest (dst : Buffer) (d : Nat) (src : Buffer) (s left : Nat) : Buffer :=
  if left % 8 = 0 then memcpy dst d src s (left / 8)
  else update (memcpy dst d src s (left / 8)) (d + left / 8)
    (memcpy dst d src s (left / 8) (d + left / 8) &&& reverseMaskXor (left % 8) |||
      src (s + left / 8) &&& reverseMask (left % 8))

theorem Puts.rest {old new : Buffer} {a n : Nat} {f : Nat → Bool} (puts : Puts old new a n f) (src : Buffer)
    (s d left : Nat) (next : left = 0 ∨
      a + n = 8 * d ∧ ∀ i t, t < 8 → (src (s + i)).getMsbD t = f (n + 8 * i + t)) :
    Puts old (copyRest new d src s left) a (n + left) f := by
  unfold copyRest
  rcases next with rfl | ⟨next, values⟩
  · rw [memcpy_zero]
    exact puts
  · have whole := puts.memcpy (left / 8) next fun i _ t inside => values i t inside
    split
    · rename_i none_
      rwa [show n + 8 * (left / 8) = n + left by omega] at whole
    · rw [show n + left = n + 8 * (left / 8) + left % 8 by omega]
      apply Puts.byte (o := 0) whole (by omega) (by omega)
      intro t inside
      rw [join_getMsbD _ _ (by omega) inside]
      by_cases first_ : t < left % 8
      · rw [if_pos first_, if_pos (by omega), values _ _ inside, Nat.sub_zero]
      · rw [if_neg first_, if_neg (by omega)]

theorem firstCopy_puts (c : BitVec 8) (source : Buffer) (s : Nat)
    (bits : ∀ t < 8, dstOffset % 8 ≤ t → c.getMsbD t = bitAt src (srcOffset + (t - dstOffset % 8)))
    (values : ∀ r i t, dstOffset % 8 + r = 8 → t < 8 →
      (source (s + i)).getMsbD t = bitAt src (srcOffset + (r + 8 * i + t))) :
    Puts dst (copyRest (update dst (dstOffset / 8)
        (firstCopy (dst (dstOffset / 8)) (c &&& reverseMaskXor (dstOffset % 8)) (dstOffset % 8) srcLen).1)
      (dstOffset / 8 + 1) source s
      (firstCopy (dst (dstOffset / 8)) (c &&& reverseMaskXor (dstOffset % 8)) (dstOffset % 8) srcLen).2)
      dstOffset srcLen fun t => bitAt src (srcOffset + t) := by
  have inside : dstOffset % 8 < 8 := mod_lt _ (by decide)
  obtain ⟨r, some_, fits, left, full, byte⟩ :=
    firstCopy_spec (dst (dstOffset / 8)) (c &&& reverseMaskXor (dstOffset % 8)) inside (by
      intro t first_
      rw [getMsbD_and, reverseMaskXor_getMsbD (by omega) (by omega), decide_eq_false (by omega),
        Bool.and_false]) srcLen
  have start : Puts dst dst dstOffset 0 fun t => bitAt src (srcOffset + t) := Puts.refl
  have first_ := @Puts.byte _ _ _ _ r (dstOffset / 8) (dstOffset % 8) _
    (firstCopy (dst (dstOffset / 8)) (c &&& reverseMaskXor (dstOffset % 8)) (dstOffset % 8) srcLen).1
    start (by omega) fits (by
      intro t inside
      rw [byte t inside]
      by_cases written : dstOffset % 8 ≤ t ∧ t < dstOffset % 8 + r
      · rw [if_pos written, if_pos written, getMsbD_and, reverseMaskXor_getMsbD (by omega) inside,
          decide_eq_true written.1, Bool.and_true, bits t inside written.1, Nat.zero_add]
      · rw [if_neg written, if_neg written])
  rw [Nat.zero_add] at first_
  have rest_ := first_.rest source s (dstOffset / 8 + 1) (srcLen - r) (by
    rcases full with rfl | full
    · exact .inl (Nat.sub_self _)
    · exact .inr ⟨by omega, fun i t inside => values r i t full inside⟩)
  rwa [Nat.add_sub_cancel' some_, ← left] at rest_

theorem copyAligned_puts (same : srcOffset % 8 = dstOffset % 8) :
    Puts dst (copyAligned src srcOffset srcLen dst dstOffset) dstOffset srcLen fun t => bitAt src (srcOffset + t) := by
  unfold copyAligned
  by_cases aligned : dstOffset % 8 = 0
  · simp only [aligned, and_comm (reverseMask _)]
    have start : Puts dst dst dstOffset 0 fun t => bitAt src (srcOffset + t) := Puts.refl
    have copied := start.rest src (srcOffset / 8) (dstOffset / 8) srcLen
      (.inr ⟨by omega, fun i t inside => (bitAt_of_place inside (by omega)).symm⟩)
    rwa [Nat.zero_add] at copied
  · simp only [aligned, and_comm (reverseMask _), and_comm (reverseMaskXor _) (src _)]
    exact firstCopy_puts (src (srcOffset / 8)) src (srcOffset / 8 + 1)
      (fun t inside later => (bitAt_of_place inside (by omega)).symm)
      fun r i t full inside => (bitAt_of_place inside (by omega)).symm

theorem copyShifted_puts :
    Puts dst (copyShifted src srcOffset srcLen dst dstOffset) dstOffset srcLen fun t => bitAt src (srcOffset + t) := by
  have shift : ∀ {s ls k t : Nat}, ls ≤ 8 → t < 8 → k = 8 * s + ls + t → (shifted src s ls).getMsbD t = bitAt src k := by
    rintro s ls _ t small inside rfl
    exact shifted_getMsbD src small inside
  unfold copyShifted
  by_cases ahead : dstOffset % 8 < srcOffset % 8
  · simp only [ahead, if_true]
    exact firstCopy_puts (shifted src (srcOffset / 8) (srcOffset % 8 - dstOffset % 8))
      (fun i => shifted src i (srcOffset % 8 - dstOffset % 8)) (srcOffset / 8 + 1)
      (fun t inside later => shift (by omega) inside (by omega))
      fun r i t full inside => shift (by omega) inside (by omega)
  · simp only [ahead, if_false]
    apply firstCopy_puts (src (srcOffset / 8) >>> (dstOffset % 8 - srcOffset % 8))
      (fun i => shifted src i (8 - (dstOffset % 8 - srcOffset % 8))) (srcOffset / 8)
    · intro t inside later
      rw [getMsbD_ushiftRight, decide_eq_true inside, Bool.true_and, decide_eq_false (by omega), Bool.not_false,
        Bool.true_and, bitAt_of_place (d := srcOffset / 8) (t := t - (dstOffset % 8 - srcOffset % 8)) (by omega) (by omega)]
    · exact fun r i t full inside => shift (by omega) inside (by omega)

theorem bitAt_update_of_ne {buffer : Buffer} {b : BitVec 8} {k : Nat} (other : k / 8 ≠ d) :
    bitAt (update buffer d b) k = bitAt buffer k := by
  unfold bitAt
  rw [update_of_ne other]

theorem Puts.copies {old new : Buffer} {a n : Nat} {f : Nat → Bool} (puts : Puts old new a n f) :
    (∀ k < a, bitAt new k = bitAt old k) ∧ ∀ i < n, bitAt new (a + i) = f i := by
  constructor
  · intro k before
    rw [puts k, if_neg (by omega)]
  · intro i inside
    rw [puts (a + i), if_pos (by omega), Nat.add_sub_cancel_left]

theorem bitCopy_bits (dst : Buffer) (dstOffset : Nat) (src : Buffer) (srcOffset nofBits : Nat) :
    (∀ k < dstOffset, bitAt (bitCopy dst dstOffset src srcOffset nofBits) k = bitAt dst k) ∧
      ∀ i < nofBits,
        bitAt (bitCopy dst dstOffset src srcOffset nofBits) (dstOffset + i) = bitAt src (srcOffset + i) := by
  unfold bitCopy
  by_cases aligned : dstOffset % 8 = 0 ∧ srcOffset % 8 = 0
  · rw [if_pos aligned]
    have start : Puts dst dst dstOffset 0 fun t => bitAt src (srcOffset + t) := Puts.refl
    have whole := @Puts.memcpy _ _ src _ _ (dstOffset / 8) (srcOffset / 8) _ start (nofBits / 8) (by omega)
      fun i _ t inside => (bitAt_of_place inside (by omega)).symm
    obtain ⟨before, copied⟩ := whole.copies
    split
    · exact ⟨before, fun i inside => copied i (by omega)⟩
    · constructor
      · intro k earlier
        rw [bitAt_update_of_ne (by omega), before k earlier]
      · intro i inside
        by_cases first_ : i < 0 + 8 * (nofBits / 8)
        · rw [bitAt_update_of_ne (by omega), copied i first_]
        · -- the last byte is assigned as a whole
          have last := mod_lt i (show 0 < 8 by decide)
          rw [bitAt_of_place (d := dstOffset / 8 + nofBits / 8) last (by omega), update_self, getMsbD_and,
            reverseMask_getMsbD (by omega) last, decide_eq_true (by omega), Bool.and_true,
            bitAt_of_place (d := srcOffset / 8 + nofBits / 8) last (by omega)]
  · rw [if_neg aligned]
    unfold bitarrayCopy
    by_cases none_ : nofBits = 0
    · rw [if_pos none_]
      exact ⟨fun _ _ => rfl, fun i inside => absurd inside (by omega)⟩
    · rw [if_neg none_]
      split
      · rename_i same
        exact (copyAligned_puts same).copies
      · exact copyShifted_puts.copies

end

end IsrRan.Phy.Bit
