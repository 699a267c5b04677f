import IsrRan.Rlc.AmNr.StatusReport

/-! What `push_nack` makes of NACKs that come in the order of the window. -/

namespace IsrRan.Rlc.AmNr
open List Nat

section
variable {snSize : SnSize} {prev nack : Nack} {sn byte : Nat}

theorem isContinuousSequence_spec (continues : isContinuousSequence snSize prev nack = true) :
    nack.nackSn = (prev.nackSn + prev.count) % snSize.modNr ∧ (prev.hasSo = true → prev.soEnd = soEndOfSdu) ∧
      (nack.hasSo = true → nack.soStart = 0) := by
  unfold isContinuousSequence at continues
  unfold Nack.count
  cases range : prev.hasNackRange <;> cases so : prev.hasSo <;> cases so' : nack.hasSo <;> simp_all

theorem expand_count (prev nack : Nack) : (prev.expand nack).count = (prev.count + nack.count) % 256 := by
  unfold Nack.expand Nack.count
  cases prev.hasNackRange <;> cases nack.hasNackRange <;> simp [Nat.add_comm]

theorem Nack.Valid.count_lt (valid : nack.Valid snSize) : nack.count < 256 := by
  have := valid.nackRange
  unfold Nack.count
  split <;> omega

theorem denotes_expand (continues : isContinuousSequence snSize prev nack = true)
    (small : prev.count + nack.count < 256) (some_ : 0 < prev.count) (more : 0 < nack.count) :
    (prev.expand nack).denotes snSize sn byte ↔ prev.denotes snSize sn byte ∨ nack.denotes snSize sn byte := by
  obtain ⟨next, ends, starts⟩ := isContinuousSequence_spec continues
  have count : (prev.expand nack).count = prev.count + nack.count := by
    rw [expand_count, mod_eq_of_lt small]
  constructor
  · rintro ⟨j, lt, rfl, so⟩
    rw [count] at lt so
    by_cases first : j < prev.count
    · refine .inl ⟨j, first, rfl, fun has => ?_⟩
      have here := so (by simp [Nack.expand, has])
      refine ⟨fun zero => ?_, fun _ => .inl (ends has)⟩
      have start := here.1 zero
      simpa [Nack.expand, has] using start
    · refine .inr ⟨j - prev.count, by omega, ?_, fun has => ⟨fun _ => ?_, fun last => ?_⟩⟩
      · rw [next, mod_add_mod, Nat.add_assoc, Nat.add_sub_cancel' (Nat.le_of_not_lt first)]
        rfl
      · rw [starts has]
        exact Nat.zero_le _
      · have here := (so (by simp [Nack.expand, has])).2 (by omega)
        simpa [Nack.expand, has] using here
  · rintro (⟨j, lt, rfl, so⟩ | ⟨j, lt, rfl, so⟩)
    · refine ⟨j, by omega, rfl, fun has => ⟨fun zero => ?_, fun last => by omega⟩⟩
      cases own : prev.hasSo with
      | true => simpa [Nack.expand, own] using (so own).1 zero
      | false =>
        have other : nack.hasSo = true := by simpa [Nack.expand, own] using has
        simp [Nack.expand, own, other]
    · refine ⟨prev.count + j, by omega, ?_, fun has => ⟨fun zero => by omega, fun last => ?_⟩⟩
      · rw [next, mod_add_mod, Nat.add_assoc]
        rfl
      · cases own : nack.hasSo with
        | true => simpa [Nack.expand, own] using (so own).2 (by omega)
        | false =>
          have other : prev.hasSo = true := by simpa [Nack.expand, own] using has
          simp [Nack.expand, own, other]

theorem denotes_wrapped (continues : isContinuousSequence snSize prev nack = true)
    (wraps : 256 ≤ prev.count + nack.count) (small : prev.count < 256) (small' : nack.count < 256) :
    ((prev.expand nack).denotes snSize sn byte → prev.denotes snSize sn byte) ∧
      ¬(prev.expand nack).denotes snSize nack.nackSn byte := by
  obtain ⟨next, ends, -⟩ := isContinuousSequence_spec continues
  have count : (prev.expand nack).count = prev.count + nack.count - 256 := by
    rw [expand_count]
    omega
  constructor
  · rintro ⟨j, lt, rfl, so⟩
    rw [count] at lt
    refine ⟨j, by omega, rfl, fun has => ⟨fun zero => ?_, fun _ => .inl (ends has)⟩⟩
    have start := (so (by simp [Nack.expand, has])).1 zero
    simpa [Nack.expand, has] using start
  · rintro ⟨j, lt, eq, -⟩
    rw [count] at lt
    have eq : nack.nackSn = (prev.nackSn + j) % snSize.modNr := eq
    rw [next] at eq
    cases snSize <;> simp only [SnSize.modNr] at eq <;> omega

def Nack.offset (snSize : SnSize) (rxNext : Nat) (nack : Nack) : Nat :=
  (nack.nackSn + snSize.modNr - rxNext) % snSize.modNr

/-- The second NACK starts behind the SDUs of the first one, or behind the segment that ends it. -/
def Nack.Before (snSize : SnSize) (rxNext : Nat) (first second : Nack) : Prop :=
  first.offset snSize rxNext + first.count ≤ second.offset snSize rxNext ∨
    first.offset snSize rxNext + first.count = second.offset snSize rxNext + 1 ∧ first.hasSo = true ∧
      second.hasSo = true ∧ first.soEnd ≠ soEndOfSdu ∧ first.soEnd < second.soStart

instance (snSize : SnSize) (rxNext : Nat) : DecidableRel (Nack.Before snSize rxNext) := fun _ _ =>
  inferInstanceAs (Decidable (_ ∨ _ ∧ _))

structure InWindowOrder (snSize : SnSize) (rxNext : Nat) (nacks : List Nack) : Prop where
  start : rxNext < snSize.modNr
  valid : ∀ nack ∈ nacks, nack.Valid snSize
  some_ : ∀ nack ∈ nacks, 0 < nack.count
  inside : ∀ nack ∈ nacks, nack.offset snSize rxNext + nack.count ≤ snSize.windowSize
  before : nacks.Pairwise (Nack.Before snSize rxNext)

theorem InWindowOrder.sublist {rxNext : Nat} {nacks part : List Nack} (ordered : InWindowOrder snSize rxNext nacks)
    (sub : part.Sublist nacks) : InWindowOrder snSize rxNext part where
  start := ordered.start
  valid nack mem := ordered.valid nack (sub.subset mem)
  some_ nack mem := ordered.some_ nack (sub.subset mem)
  inside nack mem := ordered.inside nack (sub.subset mem)
  before := ordered.before.sublist sub

theorem InWindowOrder.of_reverse_cons {rxNext : Nat} {nacks : List Nack}
    (ordered : InWindowOrder snSize rxNext (nack :: nacks).reverse) : InWindowOrder snSize rxNext nacks.reverse :=
  ordered.sublist (List.reverse_sublist.mpr (sublist_cons_self _ _))

theorem SnSize.windowSize_eq (snSize : SnSize) : snSize.modNr = 2 * snSize.windowSize ∧ 2048 ≤ snSize.windowSize := by
  cases snSize <;> exact ⟨rfl, by decide⟩

theorem offset_eq {rxNext j k : Nat} {first second : Nack} (bound : rxNext < snSize.modNr)
    (same : (first.nackSn + j) % snSize.modNr = (second.nackSn + k) % snSize.modNr)
    (within : first.offset snSize rxNext + j < snSize.modNr)
    (within' : second.offset snSize rxNext + k < snSize.modNr) :
    first.offset snSize rxNext + j = second.offset snSize rxNext + k := by
  unfold Nack.offset at *
  cases snSize <;> simp only [SnSize.modNr] at * <;> omega

theorem Nack.Before.apart {rxNext : Nat} {first second : Nack} (before : first.Before snSize rxNext second)
    (inside : first.offset snSize rxNext + first.count ≤ snSize.windowSize)
    (inside' : second.offset snSize rxNext + second.count ≤ snSize.windowSize) (bound : rxNext < snSize.modNr)
    (denotes : first.denotes snSize sn byte) : ¬second.denotes snSize sn byte := by
  rintro ⟨k, lt', eq, so'⟩
  obtain ⟨j, lt, rfl, so⟩ := denotes
  have half := snSize.windowSize_eq
  have place := offset_eq bound eq (by omega) (by omega)
  rcases before with apart | ⟨same, has, has', notEnd, above⟩
  · omega
  · have end_ := (so has).2 (by omega)
    have start := (so' has').1 (by omega)
    rcases end_ with all | below
    · exact notEnd all
    · omega

end

/-! The NACKs behind an entry of the report -/

inductive Merges (snSize : SnSize) : Nack → List Nack → Prop where
  | single (nack : Nack) : Merges snSize nack [nack]
  | expand {prev nack : Nack} {pushed : List Nack} (merges : Merges snSize prev pushed)
      (continues : isContinuousSequence snSize prev nack = true) : Merges snSize (prev.expand nack) (nack :: pushed)

structure MergedNack where
  nack : Nack
  pushed : List Nack

namespace MergedNack

def count (merged : MergedNack) : Nat := (merged.pushed.map Nack.count).sum

def push (snSize : SnSize) (stack : List MergedNack) (nack : Nack) : List MergedNack :=
  match stack with
  | [] => [⟨nack, [nack]⟩]
  | prev :: rest =>
    if isContinuousSequence snSize prev.nack nack then ⟨prev.nack.expand nack, nack :: prev.pushed⟩ :: rest
    else ⟨nack, [nack]⟩ :: prev :: rest

end MergedNack

section
variable {snSize : SnSize} {rxNext : Nat} {nack : Nack} {pushed nacks : List Nack} {sn byte : Nat}

section
variable (merges : Merges snSize nack pushed)
include merges

theorem Merges.count_eq (small : (pushed.map Nack.count).sum < 256) :
    nack.count = (pushed.map Nack.count).sum := by
  induction merges with
  | single nack => simp
  | expand merges continues ih =>
    rw [map_cons, sum_cons] at small ⊢
    rw [expand_count, ih (by omega)]
    omega

section
variable (ordered : InWindowOrder snSize rxNext pushed.reverse)
include ordered

theorem Merges.denotes_iff
    (small : (pushed.map Nack.count).sum < 256) :
    nack.denotes snSize sn byte ↔ ∃ nack ∈ pushed, nack.denotes snSize sn byte := by
  induction merges with
  | single nack => simp
  | @expand prev nack pushed merges continues ih =>
    rw [map_cons, sum_cons] at small
    have own := ordered.some_ nack (by simp)
    have count := merges.count_eq (by omega)
    have positive : 0 < (pushed.map Nack.count).sum := by
      cases merges with
      | single =>
        have first := ordered.some_ prev (by simp)
        simpa using first
      | @expand _ latest =>
        have first := ordered.some_ latest (by simp)
        rw [map_cons, sum_cons]
        omega
    rw [denotes_expand continues (by omega) (by omega) own, ih ordered.of_reverse_cons (by omega)]
    simp [or_comm]

theorem Merges.wraps_last (large : 256 ≤ (pushed.map Nack.count).sum) :
    ∃ prev last older, pushed = last :: older ∧ nack = prev.expand last ∧ Merges snSize prev older ∧
      isContinuousSequence snSize prev last = true ∧ (older.map Nack.count).sum < 256 := by
  induction merges with
  | single nack =>
    have small := (ordered.valid nack (by simp)).count_lt
    simp at large
    omega
  | @expand prev nack pushed merges continues ih =>
    by_cases small : (pushed.map Nack.count).sum < 256
    · exact ⟨prev, nack, pushed, rfl, rfl, merges, continues, small⟩
    obtain ⟨first, last, rest, rfl, rfl, merges', continues', small'⟩ := ih ordered.of_reverse_cons (Nat.le_of_not_lt small)
    exfalso
    -- the next NACK would start 255 SDUs or less before the last one
    have count := merges'.count_eq small'
    have lastSn := (isContinuousSequence_spec continues').1
    have nextSn := (isContinuousSequence_spec continues).1
    have order := (List.pairwise_cons.mp (List.pairwise_reverse.mp ordered.before)).1 last mem_cons_self
    have lastInside := ordered.inside last (by simp)
    have nextInside := ordered.inside nack (by simp)
    have lastCount := (ordered.valid last (by simp)).count_lt
    have half := snSize.windowSize_eq
    rw [map_cons, sum_cons] at small
    rw [expand_count] at nextSn
    have order : last.offset snSize rxNext + last.count ≤ nack.offset snSize rxNext + 1 := by
      rcases order with apart | ⟨same, -⟩ <;> omega
    have wrapped : (nack.nackSn + (256 - last.count)) % snSize.modNr = (last.nackSn + 0) % snSize.modNr := by
      have sum : (first.count + last.count) % 256 + (256 - last.count) = first.count := by omega
      rw [nextSn, lastSn, mod_add_mod, Nat.add_assoc, sum, Nat.add_zero, mod_mod]
      rfl
    have place := offset_eq ordered.start wrapped (by omega) (by omega)
    omega

theorem Merges.of_denotes (denotes : nack.denotes snSize sn byte) : ∃ nack ∈ pushed, nack.denotes snSize sn byte := by
  by_cases small : (pushed.map Nack.count).sum < 256
  · exact (merges.denotes_iff ordered small).mp denotes
  obtain ⟨prev, last, older, rfl, rfl, merges', continues, small'⟩ := merges.wraps_last ordered (Nat.le_of_not_lt small)
  have count := merges'.count_eq small'
  have lastSmall := (ordered.valid last (by simp)).count_lt
  rw [map_cons, sum_cons] at small
  have own := (denotes_wrapped continues (by omega) (by omega) lastSmall).1 denotes
  obtain ⟨other, mem, denotes⟩ := (merges'.denotes_iff ordered.of_reverse_cons small').mp own
  exact ⟨other, mem_cons_of_mem _ mem, denotes⟩

theorem Merges.misses_last (large : 256 ≤ (pushed.map Nack.count).sum) :
    ∃ last ∈ pushed, last.denotes snSize last.nackSn 0 ∧ ¬nack.denotes snSize last.nackSn 0 := by
  obtain ⟨prev, last, older, rfl, rfl, merges', continues, small⟩ := merges.wraps_last ordered large
  have count := merges'.count_eq small
  have lastValid := ordered.valid last (by simp)
  have starts := (isContinuousSequence_spec continues).2.2
  rw [map_cons, sum_cons] at large
  refine ⟨last, mem_cons_self, ⟨0, ordered.some_ last (by simp), ?_, fun has => ?_⟩, ?_⟩
  · exact (mod_eq_of_lt lastValid.nackSn).symm
  · exact ⟨fun _ => Nat.le_of_eq (starts has), fun _ => .inr (Nat.zero_le _)⟩
  · exact (@denotes_wrapped snSize prev last 0 0 continues (by omega) (by omega) lastValid.count_lt).2

end

end

end

/-! The entries of the report with what was pushed into them -/

namespace MergedNack
variable {snSize : SnSize}

def pushAll (snSize : SnSize) (nacks : List Nack) : List MergedNack := nacks.foldl (push snSize) []

def Apart (snSize : SnSize) (merged other : MergedNack) : Prop :=
  ∀ nack ∈ merged.pushed, ∀ nack' ∈ other.pushed, ∀ sn byte,
    nack.denotes snSize sn byte → ¬nack'.denotes snSize sn byte

instance : Std.Symm (Apart snSize) where
  symm _ _ apart nack own nack' own' sn byte denotes denotes' := apart nack' own' nack own sn byte denotes' denotes

theorem push_spec (stack : List MergedNack) (nack : Nack) (merges : ∀ merged ∈ stack, Merges snSize merged.nack merged.pushed) :
    (∀ merged ∈ push snSize stack nack, Merges snSize merged.nack merged.pushed) ∧
      (push snSize stack nack).flatMap pushed = nack :: stack.flatMap pushed ∧
      ∀ status : StatusPdu, status.stack = stack.map MergedNack.nack →
        (status.pushNack snSize nack).stack = (push snSize stack nack).map MergedNack.nack := by
  unfold push StatusPdu.pushNack
  cases stack with
  | nil =>
    refine ⟨fun merged mem => ?_, rfl, fun status eq => ?_⟩
    · rw [List.mem_singleton.mp mem]
      exact .single nack
    · rw [eq]
      rfl
  | cons prev rest =>
    have first := merges prev mem_cons_self
    have others : ∀ merged ∈ rest, Merges snSize merged.nack merged.pushed := fun merged mem =>
      merges merged (mem_cons_of_mem _ mem)
    dsimp only
    cases continues : isContinuousSequence snSize prev.nack nack with
    | true =>
      rw [if_pos rfl]
      refine ⟨fun merged mem => ?_, rfl, fun status eq => ?_⟩
      · rcases List.mem_cons.mp mem with rfl | mem
        · exact .expand first continues
        · exact others merged mem
      · simp only [eq, map_cons, continues]
        rfl
    | false =>
      rw [if_neg Bool.false_ne_true]
      refine ⟨fun merged mem => ?_, rfl, fun status eq => ?_⟩
      · rcases List.mem_cons.mp mem with rfl | mem
        · exact .single nack
        · exact merges merged mem
      · simp only [eq, map_cons, continues]
        rfl

theorem pushAll_spec (ackSn : Nat) (nacks : List Nack) :
    (∀ merged ∈ pushAll snSize nacks, Merges snSize merged.nack merged.pushed) ∧
      (pushAll snSize nacks).flatMap pushed = nacks.reverse ∧
      (nacks.foldl (StatusPdu.pushNack snSize) { ackSn }).stack = (pushAll snSize nacks).map MergedNack.nack := by
  induction nacks using reverseRecOn with
  | nil => exact ⟨fun merged mem => absurd mem not_mem_nil, rfl, rfl⟩
  | append_singleton nacks nack ih =>
    obtain ⟨merges, all, stack⟩ := ih
    obtain ⟨merges', all', stack'⟩ := push_spec (pushAll snSize nacks) nack merges
    have last : pushAll snSize (nacks ++ [nack]) = push snSize (pushAll snSize nacks) nack := by
      unfold pushAll
      rw [foldl_append]
      rfl
    rw [last, foldl_append, reverse_append]
    refine ⟨merges', ?_, stack' _ stack⟩
    rw [all', all]
    rfl

end MergedNack

theorem removeNacks_suffix {snSize : SnSize} (maxPackedSize ackSn packedSize : Nat) (stack : List Nack) :
    (StatusPdu.removeNacks snSize maxPackedSize ackSn packedSize stack).stack <:+ stack := by
  induction stack generalizing ackSn packedSize with
  | nil => exact suffix_refl _
  | cons nack rest ih =>
    unfold StatusPdu.removeNacks
    split
    · exact (ih _ _).trans (suffix_cons nack rest)
    · exact suffix_refl _

theorem trim_suffix {snSize : SnSize} (status : StatusPdu) (maxPackedSize : Nat) :
    (status.trim snSize maxPackedSize).stack <:+ status.stack := by
  unfold StatusPdu.trim
  split
  · exact suffix_refl _
  · split
    · exact suffix_refl _
    · exact removeNacks_suffix _ _ _ _

end IsrRan.Rlc.AmNr
