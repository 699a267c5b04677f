import IsrRan.Common.Memory
import IsrRan.Lib.Peek

namespace IsrRan.Rlc

def maxEntries : Nat := 512

/-- The loop over the length indicators of an LTE header from `ptr` on, with room for `room` more of them in the
array. Two of them share three bytes. -/
def lookLi : (room ptr : Nat) → (ext : Bool) → (li : List Nat) → Lib.Peek Nat Byte (Except Fault (List Nat × Nat))
  | _, ptr, false, li => pure (.ok (li, ptr))
  | 0, _, true, _ => pure (.error .undefinedBehaviour)
  | room + 1, ptr, true, li => do
    let first ← Lib.Peek.cell ptr
    let second ← Lib.Peek.cell (ptr + 1)
    if li.length % 2 = 0 then
      lookLi room (ptr + 1) (first.toNat / 128 = 1) (li ++ [first.toNat % 128 * 16 + second.toNat / 16])
    else lookLi room (ptr + 2) (first.toNat / 8 % 2 = 1) (li ++ [first.toNat % 8 * 256 + second.toNat])

section Chain
variable (mem : Memory) (start : Nat)

def entryPtr (start k : Nat) : Nat := start + 3 * (k / 2) + k % 2

def extBit (k : Nat) : Bool :=
  if k % 2 = 0 then mem.byte (entryPtr start k) / 128 = 1 else mem.byte (entryPtr start k) / 8 % 2 = 1

structure LiChain (ext : Bool) (k n : Nat) : Prop where
  le : k ≤ n
  begins : ext = decide (k < n)
  goes : ∀ j, k ≤ j → j < n → extBit mem start j = decide (j + 1 < n)

def LiEnds (ext : Bool) (nofBytes : Nat) : Prop :=
  ∃ n ≤ maxEntries, LiChain mem start ext 0 n ∧ start + (3 * n + 1) / 2 ≤ nofBytes

variable {mem start}

theorem entryPtr_succ (k : Nat) : entryPtr start (k + 1) = entryPtr start k + if k % 2 = 0 then 1 else 2 := by
  unfold entryPtr
  split <;> omega

theorem entryPtr_end (n : Nat) : entryPtr start n + n % 2 = start + (3 * n + 1) / 2 := by
  unfold entryPtr
  omega

theorem LiChain.nil (k : Nat) : LiChain mem start false k k := ⟨(Nat.le_refl _), by simp, fun j le lt => by omega⟩

theorem liChain_cons_iff {k n : Nat} :
    LiChain mem start true k n ↔ LiChain mem start (extBit mem start k) (k + 1) n := by
  constructor
  · intro chain
    have some_ : k < n := of_decide_eq_true chain.begins.symm
    exact ⟨some_, chain.goes k (Nat.le_refl _) some_, fun j le lt => chain.goes j (by omega) lt⟩
  · intro chain
    have some_ := chain.le
    refine ⟨by omega, (decide_eq_true some_).symm, fun j le lt => ?_⟩
    by_cases here : j = k
    · rw [here]
      exact chain.begins
    · exact chain.goes j (by omega) lt

theorem lookLi_step {room k : Nat} {li : List Nat} (length : li.length = k) :
    ∃ value, (lookLi (room + 1) (entryPtr start k) true li).reads mem =
        entryPtr start k :: (entryPtr start k + 1) ::
          (lookLi room (entryPtr start (k + 1)) (extBit mem start k) (li ++ [value])).reads mem ∧
      (lookLi (room + 1) (entryPtr start k) true li).run mem =
        (lookLi room (entryPtr start (k + 1)) (extBit mem start k) (li ++ [value])).run mem := by
  rw [lookLi, entryPtr_succ]
  simp only [length]
  unfold extBit Memory.byte
  by_cases even : k % 2 = 0
  · simp only [if_pos even]
    exact ⟨_, rfl, rfl⟩
  · simp only [if_neg even]
    exact ⟨_, rfl, rfl⟩

theorem lookLi_inside_iff {nofBytes : Nat} (room k : Nat) (ext : Bool) (li : List Nat) (length : li.length = k)
    (rest : k + room = maxEntries) :
    ((∀ i ∈ (lookLi room (entryPtr start k) ext li).reads mem, i < nofBytes) ∧
        ∃ r, (lookLi room (entryPtr start k) ext li).run mem = .ok r) ↔
      ∃ n ≤ maxEntries, LiChain mem start ext k n ∧ (k < n → start + (3 * n + 1) / 2 ≤ nofBytes) := by
  induction room generalizing k ext li with
  | zero =>
    cases ext with
    | false => exact iff_of_true ⟨by simp [lookLi], _, rfl⟩ ⟨k, by omega, .nil k, by omega⟩
    | true =>
      refine iff_of_false ?_ ?_
      · rintro ⟨-, r, overrun⟩
        cases overrun
      · rintro ⟨n, le, chain, -⟩
        have some_ : k < n := of_decide_eq_true chain.begins.symm
        omega
  | succ room ih =>
    cases ext with
    | false => exact iff_of_true ⟨by simp [lookLi], _, rfl⟩ ⟨k, by omega, .nil k, by omega⟩
    | true =>
      obtain ⟨value, reads, run⟩ := @lookLi_step mem start room k li length
      have behind := ih (k + 1) (extBit mem start k) (li ++ [value]) (by simp [length]) (by omega)
      rw [reads, run]
      simp only [List.forall_mem_cons]
      constructor
      · rintro ⟨⟨here, next, later⟩, ok⟩
        obtain ⟨n, le, chain, bound⟩ := behind.mp ⟨later, ok⟩
        refine ⟨n, le, liChain_cons_iff.mpr chain, fun some_ => ?_⟩
        by_cases last : n = k + 1
        · have reach := @entryPtr_end start n
          have succ := @entryPtr_succ start k
          rw [last] at reach ⊢
          split at succ <;> omega
        · exact bound (by omega)
      · rintro ⟨n, le, chain, bound⟩
        have some_ : k < n := of_decide_eq_true chain.begins.symm
        obtain ⟨later, ok⟩ := behind.mpr ⟨n, le, liChain_cons_iff.mp chain, fun _ => bound some_⟩
        have next : entryPtr start k + 1 < nofBytes := by
          unfold entryPtr
          omega
        exact ⟨⟨by omega, next, later⟩, ok⟩

theorem lookLi_result {room k ptr : Nat} {ext : Bool} {li li' : List Nat} (length : li.length = k)
    (rest : k + room = maxEntries) (ok : (lookLi room (entryPtr start k) ext li).run mem = .ok (li', ptr)) :
    LiChain mem start ext k li'.length ∧ li'.length ≤ maxEntries ∧ ptr = entryPtr start li'.length := by
  induction room generalizing k ext li with
  | zero =>
    cases ext with
    | false =>
      cases ok
      rw [length]
      exact ⟨.nil k, by omega, rfl⟩
    | true => cases ok
  | succ room ih =>
    cases ext with
    | false =>
      cases ok
      rw [length]
      exact ⟨.nil k, by omega, rfl⟩
    | true =>
      obtain ⟨value, -, run⟩ := @lookLi_step mem start room k li length
      rw [run] at ok
      obtain ⟨chain, le, place⟩ := ih (by simp [length]) (by omega) ok
      exact ⟨liChain_cons_iff.mpr chain, le, place⟩

theorem lookLi_all_inside_iff {ext : Bool} {nofBytes : Nat} :
    (start ≤ nofBytes ∧ (∀ i ∈ (lookLi maxEntries start ext []).reads mem, i < nofBytes) ∧
        ∃ r, (lookLi maxEntries start ext []).run mem = .ok r) ↔
      LiEnds mem start ext nofBytes := by
  rw [show start = entryPtr start 0 from rfl, lookLi_inside_iff maxEntries 0 ext [] rfl (Nat.zero_add _)]
  constructor
  · rintro ⟨fixed, n, le, chain, bound⟩
    refine ⟨n, le, chain, ?_⟩
    by_cases none_ : n = 0
    · rw [none_]
      exact fixed
    · exact bound (by omega)
  · rintro ⟨n, le, chain, bound⟩
    have fixed : entryPtr start 0 ≤ nofBytes := by omega
    exact ⟨fixed, n, le, chain, fun _ => bound⟩

end Chain

end IsrRan.Rlc
