import Mathlib.Data.List.Nodup

namespace IsrRan.Adt

open Function (update)

structure Links (ν : Type*) where
  next : ν → Option ν := fun _ => none
  prev : ν → Option ν := fun _ => none

namespace Links

variable {ν : Type*}

/-- From `head` on, whose predecessor is `prev`, the pointers run through exactly these nodes. -/
def Chain (links : Links ν) : (prev head : Option ν) → List ν → Prop
  | _, head, [] => head = none
  | prev, head, a :: l => head = some a ∧ links.prev a = prev ∧ Chain links (some a) (links.next a) l

namespace Chain
variable {links links' : Links ν} {prev head : Option ν} {l : List ν} {a t : ν}

theorem head_eq (chain : links.Chain prev head l) : head = l.head? := by
  cases l with
  | nil => exact chain
  | cons a l => exact chain.1

theorem congr (next : ∀ a ∈ l, links'.next a = links.next a) (prevs : ∀ a ∈ l, links'.prev a = links.prev a)
    (chain : links.Chain prev head l) : links'.Chain prev head l := by
  induction l generalizing prev head with
  | nil => exact chain
  | cons a l ih =>
    obtain ⟨first, back, rest⟩ := chain
    refine ⟨first, by rw [prevs a (by simp), back], ?_⟩
    rw [next a (by simp)]
    exact ih (fun b mem => next b (by simp [mem])) (fun b mem => prevs b (by simp [mem])) rest

section
variable (chain : links.Chain prev head l)
include chain

theorem next_mem (mem : t ∈ l) {n : ν} (succ : links.next t = some n) :
    n ∈ l := by
  induction l generalizing prev head with
  | nil => simp at mem
  | cons a l ih =>
    obtain ⟨_, _, rest⟩ := chain
    rcases List.mem_cons.mp mem with rfl | mem
    · have first := rest.head_eq
      rw [succ] at first
      exact List.mem_cons_of_mem _ (List.mem_of_mem_head? first.symm)
    · exact List.mem_cons_of_mem _ (ih rest mem)

theorem head_prev (first : head = some t) : links.prev t = prev := by
  cases l with
  | nil => simp [chain.head_eq] at first
  | cons a l =>
    obtain ⟨rfl, back, _⟩ := chain
    rw [← Option.some.inj first, back]

theorem prev_mem (mem : t ∈ l) :
    links.prev t = prev ∧ head = some t ∨ ∃ p ∈ l, links.prev t = some p := by
  induction l generalizing prev head with
  | nil => simp at mem
  | cons a l ih =>
    obtain ⟨first, back, rest⟩ := chain
    rcases List.mem_cons.mp mem with rfl | mem
    · exact .inl ⟨back, first⟩
    · rcases ih rest mem with ⟨before, _⟩ | ⟨p, inside, before⟩
      · exact .inr ⟨a, by simp, before⟩
      · exact .inr ⟨p, by simp [inside], before⟩

end

theorem next_append {before rest : List ν} (chain : links.Chain prev head (before ++ a :: rest)) :
    links.next a = rest.head? := by
  induction before generalizing prev head with
  | nil => exact chain.2.2.head_eq
  | cons b before ih => exact ih chain.2.2

end Chain

variable [DecidableEq ν]

def setNext (links : Links ν) (node value : Option ν) : Links ν :=
  match node with
  | none => links
  | some a => { links with next := update links.next a value }

def setPrev (links : Links ν) (node value : Option ν) : Links ν :=
  match node with
  | none => links
  | some a => { links with prev := update links.prev a value }

def pushFront (links : Links ν) (head : Option ν) (t : ν) : Links ν × Option ν :=
  (((links.setPrev (some t) none).setNext (some t) head).setPrev head (some t), some t)

def pop (links : Links ν) (head : Option ν) (t : ν) : Links ν × Option ν :=
  let next := links.next t
  let prev := links.prev t
  ((((links.setNext prev next).setPrev next prev).setNext (some t) none).setPrev (some t) none,
    if head = some t then next else head)

variable {links : Links ν} {prev head : Option ν} {l : List ν} {a t : ν}

section
variable (node value : Option ν)
include node value

@[simp] theorem setNext_prev : (links.setNext node value).prev = links.prev := by
  cases node <;> rfl

@[simp] theorem setPrev_next : (links.setPrev node value).next = links.next := by
  cases node <;> rfl

@[simp] theorem setNext_next (a : ν) :
    (links.setNext node value).next a = if node = some a then value else links.next a := by
  cases node with
  | none => simp [setNext]
  | some b => simp [setNext, Function.update_apply, eq_comm]

@[simp] theorem setPrev_prev (a : ν) :
    (links.setPrev node value).prev a = if node = some a then value else links.prev a := by
  cases node with
  | none => simp [setPrev]
  | some b => simp [setPrev, Function.update_apply, eq_comm]

end

theorem pushFront_next (head : Option ν) (t a : ν) :
    (links.pushFront head t).1.next a = if t = a then head else links.next a := by
  simp [pushFront]

theorem pushFront_prev (head : Option ν) (t a : ν) : (links.pushFront head t).1.prev a =
    if head = some a then some t else if t = a then none else links.prev a := by
  simp [pushFront]

theorem pop_next (head : Option ν) (t a : ν) : (links.pop head t).1.next a =
    if t = a then none else if links.prev t = some a then links.next t else links.next a := by
  simp [pop]

theorem pop_prev (head : Option ν) (t a : ν) : (links.pop head t).1.prev a =
    if t = a then none else if links.next t = some a then links.prev t else links.prev a := by
  simp [pop]

theorem pushFront_chain (chain : links.Chain none head l) (nodup : l.Nodup) (fresh : t ∉ l) :
    (links.pushFront head t).1.Chain none (links.pushFront head t).2 (t :: l) := by
  have first := chain.head_eq
  have other : head ≠ some t := by
    rintro rfl
    exact fresh (List.mem_of_mem_head? first.symm)
  refine ⟨rfl, by simp [pushFront_prev, other], ?_⟩
  rw [pushFront_next, if_pos rfl]
  cases l with
  | nil => exact chain
  | cons a l =>
    obtain ⟨rfl, _, rest⟩ := chain
    have apart : ∀ b ∈ l, t ≠ b := fun b mem eq => fresh (by simp [eq, mem])
    refine ⟨rfl, by simp [pushFront_prev], ?_⟩
    rw [pushFront_next, if_neg (by rintro rfl; simp at fresh)]
    refine rest.congr (fun b mem => ?_) (fun b mem => ?_)
    · rw [pushFront_next, if_neg (apart b mem)]
    · rw [pushFront_prev, if_neg (by rintro ⟨⟩; exact (List.nodup_cons.mp nodup).1 mem), if_neg (apart b mem)]

theorem pushFront_other {l' : List ν} {head' : Option ν} (chain : links.Chain none head l)
    (chain' : links.Chain none head' l') (apart : l.Disjoint l') (fresh : t ∉ l') :
    (links.pushFront head t).1.Chain none head' l' := by
  refine chain'.congr (fun a mem => ?_) (fun a mem => ?_)
  · rw [pushFront_next, if_neg (by rintro rfl; exact fresh mem)]
  · have notHead : head ≠ some a := by
      rw [chain.head_eq]
      exact fun first => apart (List.mem_of_mem_head? first) mem
    rw [pushFront_prev, if_neg notHead, if_neg (by rintro rfl; exact fresh mem)]

theorem pop_frame {l' : List ν} (chain : links.Chain prev head l')
    (apart : t ∉ l') (apartNext : ∀ a ∈ l', links.next t ≠ some a) (apartPrev : ∀ a ∈ l', links.prev t ≠ some a)
    (other : Option ν) : (links.pop other t).1.Chain prev head l' := by
  refine chain.congr (fun a mem => ?_) (fun a mem => ?_)
  · rw [pop_next, if_neg (by rintro rfl; exact apart mem), if_neg (apartPrev a mem)]
  · rw [pop_prev, if_neg (by rintro rfl; exact apart mem), if_neg (apartNext a mem)]

theorem pop_chain (chain : links.Chain prev head l) (nodup : l.Nodup) (outside : ∀ p ∈ l, prev ≠ some p)
    (mem : t ∈ l) : (links.pop head t).1.Chain prev (links.pop head t).2 (l.erase t) := by
  induction l generalizing prev head with
  | nil => simp at mem
  | cons a l ih =>
    obtain ⟨rfl, back, rest⟩ := chain
    obtain ⟨notMem, nodup⟩ := List.nodup_cons.mp nodup
    by_cases same : a = t
    · subst same
      rw [List.erase_cons_head]
      simp only [pop]
      cases l with
      | nil => exact rest
      | cons n l =>
        obtain ⟨first, _, rest⟩ := rest
        obtain ⟨apart, _⟩ := List.nodup_cons.mp nodup
        have other : a ≠ n := by rintro rfl; simp at notMem
        have before : ∀ b ∈ n :: l, links.prev a ≠ some b := by
          intro b inside
          rw [back]
          exact outside b (List.mem_cons_of_mem _ inside)
        change (links.pop none a).1.Chain prev (links.next a) (n :: l)
        refine ⟨first, ?_, ?_⟩
        · rw [pop_prev, if_neg other, if_pos first, back]
        · rw [pop_next, if_neg other, if_neg (before n (by simp))]
          refine pop_frame rest (fun inside => notMem (by simp [inside])) ?_ ?_ none
          · rintro b inside next
            rw [first] at next
            exact apart (Option.some.inj next ▸ inside)
          · exact fun b inside => before b (by simp [inside])
    · have inside : t ∈ l := (List.mem_cons.mp mem).resolve_left (Ne.symm same)
      have tail := ih rest nodup (by rintro p memP ⟨⟩; exact notMem memP) inside
      rw [List.erase_cons_tail (by simpa using same)]
      have notNext : links.next t ≠ some a := fun next => notMem (rest.next_mem inside next)
      refine ⟨by simp [pop, same], ?_, ?_⟩
      · rw [pop_prev, if_neg (Ne.symm same), if_neg notNext, back]
      · have link : (links.pop (some a) t).1.next a = (links.pop (links.next a) t).2 := by
          rw [pop_next, if_neg (Ne.symm same)]
          rcases rest.prev_mem inside with ⟨before, first⟩ | ⟨p, memP, before⟩
          · simp [pop, before, first]
          · have notFirst : links.next a ≠ some t := by
              intro first
              have := rest.head_prev first
              rw [before] at this
              exact notMem (Option.some.inj this ▸ memP)
            have otherP : p ≠ a := by rintro rfl; exact notMem memP
            simp [pop, before, notFirst, otherP]
        rw [link]
        exact tail

theorem pop_other {l' : List ν} {head' : Option ν} (chain : links.Chain none head l) (mem : t ∈ l)
    (chain' : links.Chain none head' l') (apart : l.Disjoint l') :
    (links.pop head t).1.Chain none head' l' := by
  refine pop_frame chain' (apart mem) (fun a inside next => apart (chain.next_mem mem next) inside) ?_ head
  intro a inside before
  rcases chain.prev_mem mem with ⟨none, _⟩ | ⟨p, memP, eq⟩
  · rw [before] at none
    contradiction
  · rw [before] at eq
    exact apart memP (Option.some.inj eq ▸ inside)

end Links

end IsrRan.Adt
