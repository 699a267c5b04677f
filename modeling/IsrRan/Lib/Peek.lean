import Mathlib.Data.List.Basic

namespace IsrRan.Lib

inductive Peek (ι β α : Type) where
  | ret (value : α)
  | look (cell : ι) (next : β → Peek ι β α)

namespace Peek
variable {ι β α γ : Type}

def bind : Peek ι β α → (α → Peek ι β γ) → Peek ι β γ
  | .ret value, f => f value
  | .look cell next, f => .look cell fun b => (next b).bind f

instance : Monad (Peek ι β) where
  pure := .ret
  bind := bind

def cell (i : ι) : Peek ι β β := .look i .ret

def run (mem : ι → β) : Peek ι β α → α
  | .ret value => value
  | .look cell next => (next (mem cell)).run mem

def reads (mem : ι → β) : Peek ι β α → List ι
  | .ret _ => []
  | .look cell next => cell :: (next (mem cell)).reads mem

section
variable (mem : ι → β) (x : Peek ι β α) (f : α → Peek ι β γ)

@[simp] theorem run_pure (value : α) : (pure value : Peek ι β α).run mem = value := rfl

@[simp] theorem reads_pure (value : α) : (pure value : Peek ι β α).reads mem = [] := rfl

@[simp] theorem run_cell (i : ι) : (cell i : Peek ι β β).run mem = mem i := rfl

@[simp] theorem reads_cell (i : ι) : (cell i : Peek ι β β).reads mem = [i] := rfl

@[simp] theorem run_bind : (x >>= f).run mem = (f (x.run mem)).run mem := by
  induction x with
  | ret value => rfl
  | look i next ih => exact ih (mem i)

@[simp] theorem reads_bind : (x >>= f).reads mem = x.reads mem ++ (f (x.run mem)).reads mem := by
  induction x with
  | ret value => rfl
  | look i next ih => exact congrArg (i :: ·) (ih (mem i))

@[simp] theorem run_cell_bind (i : ι) (f : β → Peek ι β γ) : (cell i >>= f).run mem = (f (mem i)).run mem := rfl

@[simp] theorem reads_cell_bind (i : ι) (f : β → Peek ι β γ) :
    (cell i >>= f).reads mem = i :: (f (mem i)).reads mem := rfl

@[simp] theorem run_map (g : α → γ) : (g <$> x).run mem = g (x.run mem) := run_bind mem x fun a => .ret (g a)

@[simp] theorem reads_map (g : α → γ) : (g <$> x).reads mem = x.reads mem :=
  (reads_bind mem x fun a => .ret (g a)).trans (List.append_nil _)

@[simp] theorem run_ite (c : Prop) [Decidable c] (y : Peek ι β α) :
    (if c then x else y).run mem = if c then x.run mem else y.run mem := by
  split <;> rfl

@[simp] theorem reads_ite (c : Prop) [Decidable c] (y : Peek ι β α) :
    (if c then x else y).reads mem = if c then x.reads mem else y.reads mem := by
  split <;> rfl

end

theorem run_foldlM {δ : Type} (mem : ι → β) (f : α → δ → Peek ι β α) (a : α) (xs : List δ) :
    (xs.foldlM f a).run mem = xs.foldl (fun a x => (f a x).run mem) a := by
  induction xs generalizing a with
  | nil => rfl
  | cons x xs ih =>
    rw [List.foldlM_cons, run_bind, ih]
    rfl

theorem reads_foldlM {δ : Type} (mem : ι → β) {f : α → δ → Peek ι β α} {c : δ → ι}
    (one : ∀ a x, (f a x).reads mem = [c x]) (a : α) (xs : List δ) :
    (xs.foldlM f a).reads mem = xs.map c := by
  induction xs generalizing a with
  | nil => rfl
  | cons x xs ih =>
    rw [List.foldlM_cons, reads_bind, one, ih]
    rfl

theorem of_mem_reads_ite {mem : ι → β} {c : Prop} [Decidable c] {x : Peek ι β α} {value : α} {i : ι}
    (read : i ∈ (if c then x else pure value).reads mem) : c ∧ i ∈ x.reads mem := by
  split at read
  · exact ⟨‹c›, read⟩
  · cases read

end Peek

end IsrRan.Lib
