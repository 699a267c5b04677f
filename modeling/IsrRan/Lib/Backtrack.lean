import Mathlib.Data.List.Infix
import Mathlib.Tactic.Ring
import Mathlib.Tactic.Linarith

namespace IsrRan.Lib
open List

/-- A depth-first search that keeps its stack, the top first, and can go on from where it stopped. -/
structure Backtrack (σ ν ρ ε : Type*) where
  tree : σ → List ν
  index : ν → Nat
  place : ρ → σ → Nat → Except ε (Option σ)
  pop : σ → σ
  ascend : σ → Bool × σ
  save : σ → σ

namespace Backtrack
variable {σ ν ρ ε : Type*} (S : Backtrack σ ν ρ ε)

def refill : List ρ → σ → Nat → Except ε σ
  | [], st, _ => .ok st
  | record :: records, st, start =>
    match S.place record st start with
    | .error e => .error e
    | .ok none => .ok st
    | .ok (some st') => refill records st' 0

/-- Where the search goes on: at the sibling after the top, or at the root of the next tree. -/
def restart (st : σ) : Bool × σ × Nat :=
  match S.tree st with
  | [] => ((S.ascend st).1, (S.ascend st).2, 0)
  | top :: _ => (true, S.pop st, S.index top + 1)

def next (records : List ρ) : Nat → σ → Except ε (Option (Bool × σ))
  | 0, _ => .ok none
  | rounds + 1, st =>
    match S.restart st with
    | (false, st', _) => .ok (some (false, st'))
    | (true, st', start) =>
      match S.refill (records.drop (S.tree st').length) st' start with
      | .error e => .error e
      | .ok st'' =>
        if (S.tree st'').length < records.length then next records rounds st'' else .ok (some (true, st''))

def find (records : List ρ) (record : ρ) (rounds : Nat) : Nat → σ → Except ε (Option (Bool × σ))
  | 0, _ => .ok none
  | fuel + 1, st =>
    match S.place record st 0 with
    | .error e => .error e
    | .ok (some st') => .ok (some (true, st'))
    | .ok none =>
      match S.next records rounds (S.save st) with
      | .error e => .error e
      | .ok none => .ok none
      | .ok (some (false, st')) => .ok (some (false, st'))
      | .ok (some (true, st')) => find records record rounds fuel st'

def After : List ν → List ν → Prop
  | [], _ => False
  | top :: rest, r => (∃ c, c :: rest <:+ r ∧ S.index top < S.index c) ∨ After rest r

def From (path : List ν) (start : Nat) (r : List ν) : Prop :=
  (path <:+ r ∧ ∀ c, c :: path <:+ r → start ≤ S.index c) ∨ S.After path r

variable {S}

theorem cons_suffix_unique {c c' : ν} {path r : List ν} (h : c :: path <:+ r) (h' : c' :: path <:+ r) : c = c' := by
  have same : c :: path = c' :: path :=
    List.IsSuffix.eq_of_length (suffix_of_suffix_length_le h h' (by simp)) (by simp)
  exact (List.cons.inj same).1

theorem exists_cons_suffix {path r : List ν} (h : path <:+ r) (longer : path.length < r.length) :
    ∃ c, c :: path <:+ r := by
  obtain ⟨above, rfl⟩ := h
  have ne : above ≠ [] := by
    rintro rfl
    simp at longer
  refine ⟨above.getLast ne, above.dropLast, ?_⟩
  conv_rhs => rw [← dropLast_append_getLast ne]
  simp

theorem from_zero {path r : List ν} (h : path <:+ r ∨ S.After path r) : S.From path 0 r :=
  h.imp (fun below => ⟨below, fun _ _ => Nat.zero_le _⟩) id

theorem from_of_after {top : ν} {rest r : List ν} (h : S.After (top :: rest) r) :
    S.From rest (S.index top + 1) r := by
  rcases h with ⟨c, below, lt⟩ | later
  · refine .inl ⟨(suffix_cons c rest).trans below, fun c' below' => ?_⟩
    rw [cons_suffix_unique below' below]
    exact lt
  · exact .inr later

theorem After.of_suffix {path r r' : List ν} (h : S.After path r) (suffix : r <:+ r') : S.After path r' := by
  induction path with
  | nil => exact h
  | cons top rest ih =>
    rcases h with ⟨c, below, lt⟩ | later
    · exact .inl ⟨c, below.trans suffix, lt⟩
    · exact .inr (ih later)

section Candidates
variable {α : Type*} (mk : Nat → α → Except ε (Option ν))

def firstNode : List α → Nat → Except ε (Option ν)
  | [], _ => .ok none
  | x :: rest, i =>
    match mk i x with
    | .error e => .error e
    | .ok (some node) => .ok (some node)
    | .ok none => firstNode rest (i + 1)

variable {mk}

theorem firstNode_none {table : List α} {first j : Nat} {x : α} (h : firstNode mk table first = .ok none)
    (located : table[j]? = some x) : mk (first + j) x = .ok none := by
  induction table generalizing first j with
  | nil => simp at located
  | cons y rest ih =>
    unfold firstNode at h
    split at h
    · contradiction
    · simp at h
    · rename_i skipped
      cases j with
      | zero =>
        obtain rfl : y = x := by simpa using located
        exact skipped
      | succ j =>
        rw [← ih h (by simpa using located)]
        congr 1
        omega

theorem firstNode_some {table : List α} {first : Nat} {node : ν} (h : firstNode mk table first = .ok (some node)) :
    ∃ j x, table[j]? = some x ∧ mk (first + j) x = .ok (some node) ∧
      ∀ j' x', table[j']? = some x' → j' < j → mk (first + j') x' = .ok none := by
  induction table generalizing first with
  | nil => simp [firstNode] at h
  | cons y rest ih =>
    unfold firstNode at h
    split at h
    · contradiction
    · rename_i made
      exact ⟨0, y, rfl, made.trans h, fun _ _ _ lt => absurd lt (Nat.not_lt_zero _)⟩
    · rename_i skipped
      obtain ⟨j, x, located, made, least⟩ := ih h
      refine ⟨j + 1, x, located, by rw [← made]; congr 1; omega, fun j' x' located' lt => ?_⟩
      cases j' with
      | zero =>
        obtain rfl : y = x' := by simpa using located'
        exact skipped
      | succ j' =>
        rw [← least j' x' (by simpa using located') (by omega)]
        congr 1
        omega

variable (mk) in
def firstFrom (table : List α) (start : Nat) : Except ε (Option ν) :=
  if start ≥ table.length then .ok none else firstNode mk (table.drop start) start

theorem lt_of_firstFrom_none {table : List α} {start i : Nat} {x : α} {node : ν}
    (h : firstFrom mk table start = .ok none) (located : table[i]? = some x)
    (made : mk i x = .ok (some node)) : i < start := by
  unfold firstFrom at h
  split at h
  · exact lt_of_lt_of_le (List.getElem?_eq_some_iff.mp located).1 ‹_›
  · by_contra from_start
    have skipped := firstNode_none (j := i - start) (x := x) h (by
      rw [List.getElem?_drop, Nat.add_sub_cancel' (Nat.le_of_not_lt from_start)]
      exact located)
    rw [Nat.add_sub_cancel' (Nat.le_of_not_lt from_start), made] at skipped
    simp at skipped

theorem skipped_of_firstFrom_none {table : List α} {i : Nat} {x : α} (h : firstFrom mk table 0 = .ok none)
    (located : table[i]? = some x) : mk i x = .ok none := by
  unfold firstFrom at h
  split at h
  · have := (List.getElem?_eq_some_iff.mp located).1
    omega
  · rw [← firstNode_none h (j := i) (x := x) (by simpa using located), Nat.zero_add]

theorem least_of_firstFrom_some {table : List α} {start : Nat} {node : ν}
    (h : firstFrom mk table start = .ok (some node)) :
    ∃ i x, table[i]? = some x ∧ mk i x = .ok (some node) ∧ start ≤ i ∧
      ∀ i' x' node', table[i']? = some x' → mk i' x' = .ok (some node') → start ≤ i' → i ≤ i' := by
  unfold firstFrom at h
  split at h
  · simp at h
  · obtain ⟨j, x, located, made, least⟩ := firstNode_some h
    rw [List.getElem?_drop] at located
    refine ⟨start + j, x, located, made, Nat.le_add_right _ _, fun i' x' node' located' made' from_start => ?_⟩
    by_contra before
    have skipped := least (i' - start) x' (by
      rw [List.getElem?_drop, Nat.add_sub_cancel' from_start]
      exact located') (by omega)
    rw [Nat.add_sub_cancel' from_start, made'] at skipped
    simp at skipped

end Candidates

structure Tables (S : Backtrack σ ν ρ ε) (κ α : Type*) where
  context : σ → κ
  table : κ → ρ → Except ε (List α)
  make : κ → ρ → List ν → Nat → α → Except ε (Option ν)
  push : σ → ν → σ
  bound : Nat
  table_le : ∀ {k record entries}, table k record = .ok entries → entries.length ≤ bound
  make_index : ∀ {k record path i x node}, make k record path i x = .ok (some node) → S.index node = i
  push_tree : ∀ st node, S.tree (push st node) = node :: S.tree st
  push_context : ∀ st node, context (push st node) = context st
  place : ∀ record st start, S.place record st start =
    (table (context st) record).bind fun entries =>
      (firstFrom (make (context st) record (S.tree st)) entries start).map (Option.map (push st))

namespace Tables
variable {κ α : Type*} (T : Tables S κ α)

def Child (k : κ) (record : ρ) (path : List ν) (node : ν) : Prop :=
  ∃ entries i x, T.table k record = .ok entries ∧ entries[i]? = some x ∧ T.make k record path i x = .ok (some node)

variable {T} {k : κ} {record : ρ} {path : List ν} {c c' : ν} {st st' : σ} {start : Nat}

theorem index_lt (h : T.Child k record path c) : S.index c < T.bound := by
  obtain ⟨entries, i, x, table, located, made⟩ := h
  rw [T.make_index made]
  exact lt_of_lt_of_le (List.getElem?_eq_some_iff.mp located).1 (T.table_le table)

theorem index_inj (h : T.Child k record path c) (h' : T.Child k record path c') (same : S.index c = S.index c') :
    c = c' := by
  obtain ⟨entries, i, x, table, located, made⟩ := h
  obtain ⟨entries', i', x', table', located', made'⟩ := h'
  rw [T.make_index made, T.make_index made'] at same
  subst same
  obtain rfl := Except.ok.inj (table.symm.trans table')
  obtain rfl := Option.some.inj (located.symm.trans located')
  exact Option.some.inj (Except.ok.inj (made.symm.trans made'))

theorem place_none (h : S.place record st start = .ok none) (child : T.Child (T.context st) record (S.tree st) c) :
    S.index c < start := by
  obtain ⟨entries, i, x, table, located, made⟩ := child
  rw [T.place, table] at h
  rw [T.make_index made]
  cases first : firstFrom (T.make (T.context st) record (S.tree st)) entries start with
  | error e => simp [Except.bind, Except.map, first] at h
  | ok node =>
    cases node with
    | none => exact lt_of_firstFrom_none first located made
    | some node => simp [Except.bind, Except.map, first] at h

theorem make_none {entries : List α} {i : Nat} {x : α} (h : S.place record st 0 = .ok none)
    (table : T.table (T.context st) record = .ok entries) (located : entries[i]? = some x) :
    T.make (T.context st) record (S.tree st) i x = .ok none := by
  rw [T.place, table] at h
  cases first : firstFrom (T.make (T.context st) record (S.tree st)) entries 0 with
  | error e => simp [Except.bind, Except.map, first] at h
  | ok node =>
    cases node with
    | none => exact skipped_of_firstFrom_none first located
    | some node => simp [Except.bind, Except.map, first] at h

theorem place_some (h : S.place record st start = .ok (some st')) :
    ∃ node, st' = T.push st node ∧ T.Child (T.context st) record (S.tree st) node ∧ start ≤ S.index node ∧
      ∀ c', T.Child (T.context st) record (S.tree st) c' → start ≤ S.index c' → S.index node ≤ S.index c' := by
  rw [T.place] at h
  cases table : T.table (T.context st) record with
  | error e => simp [table, Except.bind] at h
  | ok entries =>
    cases first : firstFrom (T.make (T.context st) record (S.tree st)) entries start with
    | error e => simp [table, Except.bind, Except.map, first] at h
    | ok node =>
      cases node with
      | none => simp [table, Except.bind, Except.map, first] at h
      | some node =>
        simp only [table, Except.bind, Except.map, first, Option.map_some, Except.ok.injEq,
          Option.some.injEq] at h
        obtain ⟨i, x, located, made, from_start, least⟩ := least_of_firstFrom_some first
        refine ⟨node, h.symm, ⟨entries, i, x, table, located, made⟩, ?_, ?_⟩
        · rw [T.make_index made]
          exact from_start
        · rintro c' ⟨entries', i', x', table', located', made'⟩ from_start'
          obtain rfl := Except.ok.inj (table.symm.trans table')
          rw [T.make_index made'] at from_start' ⊢
          rw [T.make_index made]
          exact least i' x' c' located' made' from_start'

theorem place_child (h : S.place record st start = .ok (some st')) :
    T.context st' = T.context st ∧ ∃ c, S.tree st' = c :: S.tree st ∧
      T.Child (T.context st) record (S.tree st) c ∧ start ≤ S.index c ∧
      ∀ c', T.Child (T.context st) record (S.tree st) c' → start ≤ S.index c' → S.index c ≤ S.index c' := by
  obtain ⟨node, rfl, rest⟩ := T.place_some h
  exact ⟨T.push_context st node, node, T.push_tree st node, rest⟩

end Tables

/-- From the end of a search backwards to the state that it starts in. -/
@[elab_as_elim]
theorem find_induction {motive : σ → Prop} {records : List ρ} {record : ρ} {rounds fuel : Nat} {found : Bool}
    {st st' : σ} (run : S.find records record rounds fuel st = .ok (some (found, st')))
    (placed : found = true → ∀ st, S.place record st 0 = .ok (some st') → motive st)
    (last : found = false → ∀ st, S.place record st 0 = .ok none →
      S.next records rounds (S.save st) = .ok (some (false, st')) → motive st)
    (moved : ∀ st st₁, S.place record st 0 = .ok none →
      S.next records rounds (S.save st) = .ok (some (true, st₁)) → motive st₁ → motive st) : motive st := by
  induction fuel generalizing st with
  | zero => simp [find] at run
  | succ fuel ih =>
    unfold find at run
    split at run
    · contradiction
    · obtain ⟨rfl, rfl⟩ := run
      exact placed rfl st ‹_›
    · split at run
      · contradiction
      · simp at run
      · obtain ⟨rfl, rfl⟩ := run
        exact last rfl st ‹_› ‹_›
      · exact moved st _ ‹_› ‹_› (ih run)

theorem place_of_find_false {records : List ρ} {record : ρ} {rounds fuel : Nat} {st st' : σ}
    (run : S.find records record rounds fuel st = .ok (some (false, st'))) : S.place record st 0 = .ok none :=
  find_induction (motive := fun st => S.place record st 0 = .ok none) run nofun (fun _ _ skipped _ => skipped)
    fun _ _ skipped _ _ => skipped

/-- The trees that a search goes through: one for each context, the later contexts after the earlier ones. -/
structure Space (S : Backtrack σ ν ρ ε) (κ : Type*) where
  context : σ → κ
  Child : κ → ρ → List ν → ν → Prop
  Later : κ → κ → Prop
  height : κ → Nat
  bound : Nat
  index_lt : ∀ {k record path c}, Child k record path c → S.index c < bound
  index_inj : ∀ {k record path c c'}, Child k record path c → Child k record path c' →
    S.index c = S.index c' → c = c'
  place_none : ∀ {record st start c}, S.place record st start = .ok none →
    Child (context st) record (S.tree st) c → S.index c < start
  place_some : ∀ {record st start st'}, S.place record st start = .ok (some st') →
    context st' = context st ∧ ∃ c, S.tree st' = c :: S.tree st ∧ Child (context st) record (S.tree st) c ∧
      start ≤ S.index c ∧
      ∀ c', Child (context st) record (S.tree st) c' → start ≤ S.index c' → S.index c ≤ S.index c'
  pop : ∀ st, S.tree (S.pop st) = (S.tree st).tail ∧ context (S.pop st) = context st
  save : ∀ st, S.tree (S.save st) = S.tree st ∧ context (S.save st) = context st
  ascend_true : ∀ {st}, S.tree st = [] → (S.ascend st).1 = true →
    S.tree (S.ascend st).2 = [] ∧ Later (context st) (context (S.ascend st).2) ∧
      height (context (S.ascend st).2) < height (context st) ∧
      ∀ k, Later (context st) k → k = context (S.ascend st).2 ∨ Later (context (S.ascend st).2) k
  ascend_false : ∀ {st k}, S.tree st = [] → (S.ascend st).1 = false → ¬ Later (context st) k
  later_trans : ∀ {k k' k''}, Later k k' → Later k' k'' → Later k k''

namespace Space
variable {κ : Type*} (T : Space S κ)

def Valid (k : κ) (records : List ρ) : List ν → Prop
  | [] => True
  | c :: rest => (∃ record, records[rest.length]? = some record ∧ T.Child k record rest c) ∧ Valid k records rest

def Beyond (st : σ) (k : κ) (r : List ν) : Prop :=
  (k = T.context st ∧ S.After (S.tree st) r) ∨ T.Later (T.context st) k

def AtOrBeyond (st : σ) (k : κ) (r : List ν) : Prop :=
  (k = T.context st ∧ S.tree st <:+ r) ∨ T.Beyond st k r

variable {T} {k : κ} {records all : List ρ} {st st' : σ}

namespace Valid

theorem length_le {path : List ν} (h : T.Valid k records path) : path.length ≤ records.length := by
  cases path with
  | nil => exact Nat.zero_le _
  | cons c rest =>
    obtain ⟨⟨record, located, _⟩, _⟩ := h
    exact (List.getElem?_eq_some_iff.mp located).1

theorem of_suffix {path r : List ν} (h : T.Valid k records r) (suffix : path <:+ r) :
    T.Valid k records path := by
  induction r with
  | nil =>
    rw [List.suffix_nil.mp suffix]
    trivial
  | cons c rest ih =>
    rcases List.suffix_cons_iff.mp suffix with rfl | inside
    · exact h
    · exact ih h.2 inside

theorem mono {path : List ν} (h : T.Valid k records path) (sub : records <+: all) : T.Valid k all path := by
  induction path with
  | nil => trivial
  | cons c rest ih =>
    obtain ⟨⟨record, located, child⟩, below⟩ := h
    refine ⟨⟨record, ?_, child⟩, ih below⟩
    obtain ⟨more, rfl⟩ := sub
    rw [List.getElem?_append_left (List.getElem?_eq_some_iff.mp located).1]
    exact located

theorem restrict {path : List ν} (h : T.Valid k all path) (sub : records <+: all)
    (short : path.length ≤ records.length) : T.Valid k records path := by
  induction path with
  | nil => trivial
  | cons c rest ih =>
    obtain ⟨⟨record, located, child⟩, below⟩ := h
    rw [length_cons] at short
    obtain ⟨more, rfl⟩ := sub
    rw [List.getElem?_append_left short] at located
    exact ⟨⟨record, located, child⟩, ih below (by omega)⟩

theorem child {path r : List ν} {c : ν} {record : ρ} (h : T.Valid k all r) (suffix : c :: path <:+ r)
    (sub : records <+: all) (located : records[path.length]? = some record) : T.Child k record path c := by
  obtain ⟨⟨record', located', child⟩, _⟩ := h.of_suffix suffix
  obtain ⟨more, rfl⟩ := sub
  rw [List.getElem?_append_left (List.getElem?_eq_some_iff.mp located).1, located] at located'
  rw [Option.some.inj located']
  exact child

end Valid

variable {record : ρ} {pending : List ρ} {start : Nat} {r : List ν}

theorem drop_eq_cons {n : Nat} (h : record :: pending = records.drop n) :
    records[n]? = some record ∧ pending = records.drop (n + 1) := by
  constructor
  · rw [← List.head?_drop, ← h]
    rfl
  · rw [← tail_drop, ← h]
    rfl

theorem refill_valid (run : S.refill pending st start = .ok st')
    (level : pending = records.drop (S.tree st).length) (valid : T.Valid (T.context st) records (S.tree st)) :
    T.context st' = T.context st ∧ T.Valid (T.context st) records (S.tree st') := by
  induction pending generalizing st start with
  | nil =>
    obtain rfl : st = st' := by simpa [refill] using run
    exact ⟨rfl, valid⟩
  | cons record pending ih =>
    obtain ⟨located, rest⟩ := drop_eq_cons level
    unfold refill at run
    split at run
    · contradiction
    · obtain rfl : st = st' := by simpa using run
      exact ⟨rfl, valid⟩
    · rename_i st1 placed
      obtain ⟨same, c, tree, child, _, _⟩ := T.place_some placed
      have valid1 : T.Valid (T.context st1) records (S.tree st1) := by
        rw [same, tree]
        exact ⟨⟨record, located, child⟩, valid⟩
      rw [← same]
      exact ih run (by rw [rest, tree]; rfl) valid1

theorem refill_covers (run : S.refill pending st start = .ok st')
    (level : pending = records.drop (S.tree st).length) (sub : records <+: all)
    (valid : T.Valid (T.context st) all r) (long : records.length ≤ r.length)
    (ahead : S.From (S.tree st) start r) :
    (records.length ≤ (S.tree st').length ∧ S.tree st' <:+ r) ∨ S.After (S.tree st') r := by
  induction pending generalizing st start with
  | nil =>
    obtain rfl : st = st' := by simpa [refill] using run
    exact ahead.imp (fun below => ⟨List.drop_eq_nil_iff.mp level.symm, below.1⟩) id
  | cons record pending ih =>
    obtain ⟨located, rest⟩ := drop_eq_cons level
    have shorter : (S.tree st).length < r.length := by
      have := (List.getElem?_eq_some_iff.mp located).1
      omega
    unfold refill at run
    split at run
    · contradiction
    · rename_i skipped
      obtain rfl : st = st' := by simpa using run
      rcases ahead with ⟨below, least⟩ | later
      · obtain ⟨c, inside⟩ := exists_cons_suffix below shorter
        have lt := T.place_none skipped (valid.child inside sub located)
        exact absurd (least c inside) (by omega)
      · exact .inr later
    · rename_i st1 placed
      obtain ⟨same, c, tree, child, _, first⟩ := T.place_some placed
      apply ih run (by rw [rest, tree]; rfl) (by rw [same]; exact valid)
      apply from_zero
      rw [tree]
      rcases ahead with ⟨below, least⟩ | later
      · obtain ⟨c', inside⟩ := exists_cons_suffix below shorter
        have child' := valid.child inside sub located
        rcases Nat.lt_or_eq_of_le (first c' child' (least c' inside)) with lt | same'
        · exact .inr (.inl ⟨c', inside, lt⟩)
        · rw [T.index_inj child child' same']
          exact .inl inside
      · exact .inr (.inr later)

theorem round_valid {st1 : σ} (again : S.restart st = (true, st1, start))
    (run : S.refill (records.drop (S.tree st1).length) st1 start = .ok st')
    (valid : T.Valid (T.context st) records (S.tree st)) :
    T.context st' = T.context st1 ∧ T.Valid (T.context st') records (S.tree st') := by
  have valid1 : T.Valid (T.context st1) records (S.tree st1) := by
    unfold restart at again
    split at again
    · rename_i empty
      simp only [Prod.mk.injEq] at again
      obtain ⟨more, rfl, _⟩ := again
      rw [(T.ascend_true empty more).1]
      trivial
    · rename_i top rest nonempty
      obtain ⟨rfl, _⟩ := again
      rw [(T.pop st).1, (T.pop st).2, nonempty]
      rw [nonempty] at valid
      exact valid.2
  obtain ⟨same, valid'⟩ := refill_valid run rfl valid1
  exact ⟨same, by rw [same]; exact valid'⟩

theorem round_covers {st1 : σ} (again : S.restart st = (true, st1, start))
    (run : S.refill (records.drop (S.tree st1).length) st1 start = .ok st') (sub : records <+: all)
    (valid : T.Valid (T.context st) records (S.tree st)) (target : T.Valid k all r)
    (long : records.length ≤ r.length) (beyond : T.Beyond st k r) :
    (records.length ≤ (S.tree st').length ∧ T.AtOrBeyond st' k r) ∨ T.Beyond st' k r := by
  have same := (round_valid again run valid).1
  have here : (k = T.context st1 ∧ S.From (S.tree st1) start r) ∨ T.Later (T.context st1) k := by
    unfold restart at again
    split at again
    · rename_i empty
      simp only [Prod.mk.injEq] at again
      obtain ⟨more, rfl, rfl⟩ := again
      obtain ⟨root, _, _, first⟩ := T.ascend_true empty more
      rcases beyond with ⟨_, later⟩ | later
      · rw [empty] at later
        exact later.elim
      · refine (first k later).imp (fun eq => ⟨eq, ?_⟩) id
        rw [root]
        exact from_zero (.inl (nil_suffix))
    · rename_i top rest nonempty
      obtain ⟨rfl, rfl⟩ := again
      rw [(T.pop st).1, (T.pop st).2, nonempty]
      refine beyond.imp (fun ⟨eq, later⟩ => ⟨eq, ?_⟩) id
      rw [nonempty] at later
      exact from_of_after later
  rcases here with ⟨eq, ahead⟩ | later
  · rcases refill_covers run rfl sub (by rw [← eq]; exact target) long ahead with ⟨full, below⟩ | after
    · exact .inl ⟨full, .inl ⟨eq.trans same.symm, below⟩⟩
    · exact .inr (.inl ⟨eq.trans same.symm, after⟩)
  · exact .inr (.inr (by rw [same]; exact later))

theorem next_spec {rounds : Nat} {found : Bool} (run : S.next records rounds st = .ok (some (found, st')))
    (sub : records <+: all) (valid : T.Valid (T.context st) records (S.tree st)) :
    (found = true → T.Valid (T.context st') records (S.tree st') ∧ (S.tree st').length = records.length) ∧
      ∀ k r, T.Valid k all r → records.length ≤ r.length → T.Beyond st k r →
        found = true ∧ T.AtOrBeyond st' k r := by
  induction rounds generalizing st with
  | zero => simp [next] at run
  | succ rounds ih =>
    unfold next at run
    split at run
    · rename_i stop
      obtain ⟨rfl, rfl⟩ := run
      refine ⟨by simp, fun k r _ _ beyond => ?_⟩
      unfold restart at stop
      split at stop
      · rename_i empty
        simp only [Prod.mk.injEq] at stop
        rcases beyond with ⟨_, later⟩ | later
        · rw [empty] at later
          exact later.elim
        · exact absurd later (T.ascend_false empty stop.1)
      · simp at stop
    · rename_i st1 start again
      split at run
      · contradiction
      · rename_i st2 refilled
        obtain ⟨same, valid2⟩ := round_valid again refilled valid
        split at run
        · rename_i short
          obtain ⟨sound, complete⟩ := ih run valid2
          refine ⟨sound, fun k r target long beyond => complete k r target long ?_⟩
          rcases round_covers again refilled sub valid target long beyond with ⟨full, _⟩ | beyond'
          · omega
          · exact beyond'
        · rename_i full
          obtain ⟨rfl, rfl⟩ := run
          refine ⟨fun _ => ⟨valid2, le_antisymm valid2.length_le (Nat.le_of_not_lt full)⟩,
            fun k r target long beyond => ⟨rfl, ?_⟩⟩
          rcases round_covers again refilled sub valid target long beyond with ⟨_, here⟩ | beyond'
          · exact here
          · exact .inr beyond'

theorem placed_covers (placed : S.place record st 0 = .ok (some st'))
    (located : all[(S.tree st).length]? = some record) (target : T.Valid k all r)
    (long : (S.tree st).length < r.length) (ahead : T.AtOrBeyond st k r) : T.AtOrBeyond st' k r := by
  obtain ⟨same, c, tree, child, _, first⟩ := T.place_some placed
  rcases ahead with ⟨rfl, below⟩ | ⟨rfl, after⟩ | later
  · obtain ⟨c', inside⟩ := exists_cons_suffix below long
    have child' := target.child inside (prefix_refl _) located
    rcases Nat.lt_or_eq_of_le (first c' child' (Nat.zero_le _)) with lt | same'
    · exact .inr (.inl ⟨same.symm, by rw [tree]; exact .inl ⟨c', inside, lt⟩⟩)
    · rw [← T.index_inj child child' same', ← tree] at inside
      exact .inl ⟨same.symm, inside⟩
  · exact .inr (.inl ⟨same.symm, by rw [tree]; exact .inr after⟩)
  · exact .inr (.inr (by rw [same]; exact later))

theorem beyond_of_skipped (skipped : S.place record st 0 = .ok none)
    (located : all[(S.tree st).length]? = some record) (target : T.Valid k all r)
    (long : (S.tree st).length < r.length) (ahead : T.AtOrBeyond st k r) : T.Beyond (S.save st) k r := by
  unfold Beyond
  rw [(T.save st).1, (T.save st).2]
  rcases ahead with ⟨rfl, below⟩ | beyond
  · obtain ⟨c, inside⟩ := exists_cons_suffix below long
    have child := target.child inside (prefix_refl _) located
    exact absurd (T.place_none skipped child) (Nat.not_lt_zero _)
  · exact beyond

variable (T) in
theorem valid_save (valid : T.Valid (T.context st) records (S.tree st)) :
    T.Valid (T.context (S.save st)) records (S.tree (S.save st)) := by
  rwa [(T.save st).1, (T.save st).2]

theorem find_spec {record : ρ} {rounds fuel : Nat} {found : Bool}
    (run : S.find records record rounds fuel st = .ok (some (found, st')))
    (valid : T.Valid (T.context st) records (S.tree st)) (full : (S.tree st).length = records.length) :
    (found = true → T.Valid (T.context st') (records ++ [record]) (S.tree st') ∧
        (S.tree st').length = records.length + 1) ∧
      ∀ k r, T.Valid k (records ++ [record]) r → records.length < r.length → T.AtOrBeyond st k r →
        found = true ∧ T.AtOrBeyond st' k r := by
  have sub : records <+: records ++ [record] := prefix_append _ _
  have located {st : σ} (full : (S.tree st).length = records.length) :
      (records ++ [record])[(S.tree st).length]? = some record := by
    rw [full]
    exact List.getElem?_concat_length
  revert valid full
  refine find_induction run ?placed ?last ?moved
  case placed =>
    rintro rfl st placed valid full
    obtain ⟨same, c, tree, child, _, _⟩ := T.place_some placed
    refine ⟨fun _ => ⟨?_, by rw [tree, length_cons, full]⟩, fun k r target long ahead =>
      ⟨rfl, placed_covers placed (located full) target (by rw [full]; exact long) ahead⟩⟩
    rw [same, tree]
    exact ⟨⟨record, located full, child⟩, valid.mono sub⟩
  case last =>
    rintro rfl st skipped last valid full
    refine ⟨nofun, fun k r target long ahead => ?_⟩
    have beyond := beyond_of_skipped skipped (located full) target (by rw [full]; exact long) ahead
    exact (next_spec last sub (T.valid_save valid)).2 k r target long.le beyond
  case moved =>
    intro st st1 skipped moved ih valid full
    obtain ⟨sound, covers⟩ := next_spec moved sub (T.valid_save valid)
    obtain ⟨valid1, full1⟩ := sound rfl
    obtain ⟨sound', complete⟩ := ih valid1 full1
    refine ⟨sound', fun k r target long ahead => complete k r target long ?_⟩
    have beyond := beyond_of_skipped skipped (located full) target (by rw [full]; exact long) ahead
    exact (covers k r target long.le beyond).2

section Context

variable (T) in
def FromContext (k k' : κ) : Prop := k' = k ∨ T.Later k k'

theorem FromContext.trans {k' k'' : κ} (h : T.FromContext k k') (h' : T.FromContext k' k'') : T.FromContext k k'' := by
  rcases h with rfl | later
  · exact h'
  · rcases h' with rfl | later'
    · exact .inr later
    · exact .inr (T.later_trans later later')

theorem next_context {rounds : Nat} (run : S.next records rounds st = .ok (some (true, st')))
    (valid : T.Valid (T.context st) records (S.tree st)) : T.FromContext (T.context st) (T.context st') := by
  induction rounds generalizing st with
  | zero => simp [next] at run
  | succ rounds ih =>
    unfold next at run
    split at run
    · simp at run
    · rename_i st1 start again
      split at run
      · contradiction
      · rename_i st2 refilled
        obtain ⟨same, valid2⟩ := round_valid again refilled valid
        have moved : T.FromContext (T.context st) (T.context st2) := by
          rw [same]
          unfold restart at again
          split at again
          · rename_i empty
            simp only [Prod.mk.injEq] at again
            obtain ⟨more, rfl, _⟩ := again
            exact .inr (T.ascend_true empty more).2.1
          · simp only [Prod.mk.injEq, true_and] at again
            obtain ⟨rfl, _⟩ := again
            exact .inl (T.pop st).2
        split at run
        · exact moved.trans (ih run valid2)
        · simp only [Except.ok.injEq, Option.some.injEq, Prod.mk.injEq, true_and] at run
          rw [← run]
          exact moved

theorem find_context {record : ρ} {rounds fuel : Nat}
    (run : S.find records record rounds fuel st = .ok (some (true, st')))
    (valid : T.Valid (T.context st) records (S.tree st)) : T.FromContext (T.context st) (T.context st') := by
  revert valid
  refine find_induction run ?placed nofun ?moved
  case placed => exact fun _ st placed _ => .inl (T.place_some placed).1
  case moved =>
    intro st st1 _ moved ih valid
    have validSaved := T.valid_save valid
    have first := next_context moved validSaved
    rw [(T.save st).2] at first
    exact first.trans (ih ((next_spec moved (prefix_refl _) validSaved).1 rfl).1)

end Context

section Termination
variable (T)

/-- An upper bound on the nodes that are still to come under and after a stack of at most `n` levels. -/
def weight (n : Nat) : List ν → Nat
  | [] => 0
  | top :: rest => (T.bound - S.index top) * (T.bound + 1) ^ (n - 1 - rest.length) + weight n rest

def measure (n : Nat) (st : σ) : Nat :=
  T.height (T.context st) * (T.bound + 1) ^ n + T.weight n (S.tree st)

variable {T}

variable {start rounds : Nat}

theorem place_weight {record : ρ} {n : Nat} (placed : S.place record st start = .ok (some st')) :
    T.weight n (S.tree st') + (T.bound + 1) ^ (n - 1 - (S.tree st).length) ≤
      T.weight n (S.tree st) + (T.bound + 1 - start) * (T.bound + 1) ^ (n - 1 - (S.tree st).length) := by
  obtain ⟨_, c, tree, child, least, _⟩ := T.place_some placed
  have lt := T.index_lt child
  rw [tree, weight]
  have : T.bound - S.index c + 1 ≤ T.bound + 1 - start := by omega
  calc
    _ = T.weight n (S.tree st) + (T.bound - S.index c + 1) * (T.bound + 1) ^ (n - 1 - (S.tree st).length) := by ring
    _ ≤ _ := Nat.add_le_add_left (Nat.mul_le_mul_right _ this) _

theorem pow_level {b n level : Nat} (h : level < n) : (b + 1) * (b + 1) ^ (n - 1 - level) = (b + 1) ^ (n - level) := by
  rw [← pow_succ']
  congr 1
  omega

theorem refill_weight_zero {pending : List ρ} (run : S.refill pending st 0 = .ok st')
    (level : pending = records.drop (S.tree st).length) :
    T.weight records.length (S.tree st') <
      T.weight records.length (S.tree st) + (T.bound + 1) ^ (records.length - (S.tree st).length) := by
  have positive : ∀ e, 0 < (T.bound + 1) ^ e := fun e => Nat.pow_pos (Nat.succ_pos _)
  induction pending generalizing st with
  | nil =>
    obtain rfl : st = st' := by simpa [refill] using run
    exact Nat.lt_add_of_pos_right (positive _)
  | cons record pending ih =>
    obtain ⟨located, rest⟩ := drop_eq_cons level
    unfold refill at run
    split at run
    · contradiction
    · obtain rfl : st = st' := by simpa using run
      exact Nat.lt_add_of_pos_right (positive _)
    · rename_i st1 placed
      obtain ⟨_, c, tree, _, _, _⟩ := T.place_some placed
      have after := ih run (by rw [rest, tree]; rfl)
      have step := place_weight (T := T) (n := records.length) placed
      have lower := (List.getElem?_eq_some_iff.mp located).1
      rw [Nat.sub_zero, pow_level lower] at step
      have len : records.length - (S.tree st1).length = records.length - 1 - (S.tree st).length := by
        rw [tree, length_cons]
        omega
      rw [len] at after
      omega

theorem refill_weight (run : S.refill (records.drop (S.tree st).length) st start = .ok st')
    (low : (S.tree st).length < records.length) (small : start ≤ T.bound) :
    T.weight records.length (S.tree st') < T.weight records.length (S.tree st) +
      (T.bound + 1 - start) * (T.bound + 1) ^ (records.length - 1 - (S.tree st).length) := by
  have positive : 0 < (T.bound + 1 - start) * (T.bound + 1) ^ (records.length - 1 - (S.tree st).length) :=
    Nat.mul_pos (by omega) (Nat.pow_pos (Nat.succ_pos _))
  obtain ⟨record, pending, level⟩ : ∃ record pending, records.drop (S.tree st).length = record :: pending :=
    exists_cons_of_ne_nil (by simpa using low)
  obtain ⟨located, rest⟩ := drop_eq_cons level.symm
  rw [level] at run
  unfold refill at run
  split at run
  · contradiction
  · obtain rfl : st = st' := by simpa using run
    exact Nat.lt_add_of_pos_right positive
  · rename_i st1 placed
    obtain ⟨_, c, tree, _, _, _⟩ := T.place_some placed
    have level1 : pending = records.drop (S.tree st1).length := by
      rw [rest, tree]
      rfl
    have after := refill_weight_zero (T := T) run level1
    have step := place_weight (T := T) (n := records.length) placed
    have len : records.length - (S.tree st1).length = records.length - 1 - (S.tree st).length := by
      rw [tree, length_cons]
      omega
    rw [len] at after
    omega

theorem round_measure {st1 : σ} (again : S.restart st = (true, st1, start))
    (run : S.refill (records.drop (S.tree st1).length) st1 start = .ok st')
    (valid : T.Valid (T.context st) records (S.tree st)) :
    T.measure records.length st' < T.measure records.length st := by
  have same := (round_valid again run valid).1
  unfold measure
  rw [same]
  unfold restart at again
  split at again
  · rename_i empty
    simp only [Prod.mk.injEq] at again
    obtain ⟨more, rfl, rfl⟩ := again
    obtain ⟨root, _, lower, _⟩ := T.ascend_true empty more
    have after := refill_weight_zero (T := T) run rfl
    rw [root] at after
    simp only [weight, length_nil, Nat.sub_zero] at after
    have height := Nat.mul_le_mul_right ((T.bound + 1) ^ records.length) lower
    rw [Nat.succ_mul] at height
    omega
  · rename_i top rest nonempty
    obtain ⟨rfl, rfl⟩ := again
    obtain ⟨tree, context⟩ := T.pop st
    rw [nonempty] at tree valid
    simp only [tail_cons] at tree
    obtain ⟨⟨record, located, child⟩, _⟩ := valid
    have low := (List.getElem?_eq_some_iff.mp located).1
    have small := T.index_lt child
    have after := refill_weight (T := T) run (by rw [tree]; exact low) small
    rw [tree, Nat.succ_sub_succ] at after
    rw [context, nonempty, weight]
    omega

theorem next_measure (run : S.next records rounds st = .ok (some (true, st')))
    (valid : T.Valid (T.context st) records (S.tree st)) :
    T.measure records.length st' < T.measure records.length st := by
  induction rounds generalizing st with
  | zero => simp [next] at run
  | succ rounds ih =>
    unfold next at run
    split at run
    · simp at run
    · rename_i again
      split at run
      · contradiction
      · rename_i refilled
        have less := round_measure again refilled valid
        split at run
        · exact (ih run (round_valid again refilled valid).2).trans less
        · simp only [Except.ok.injEq, Option.some.injEq, Prod.mk.injEq, true_and] at run
          rw [← run]
          exact less

section
variable (valid : T.Valid (T.context st) records (S.tree st))
include valid

theorem next_ends (enough : T.measure records.length st < rounds) : S.next records rounds st ≠ .ok none := by
  induction rounds generalizing st with
  | zero => exact absurd enough (Nat.not_lt_zero _)
  | succ rounds ih =>
    unfold next
    split
    · simp
    · rename_i again
      split
      · simp
      · rename_i refilled
        have less := round_measure again refilled valid
        split
        · exact ih (round_valid again refilled valid).2 (by omega)
        · simp

theorem find_ends {record : ρ} {fuel : Nat}
    (inner : T.measure records.length st < rounds) (enough : T.measure records.length st < fuel) :
    S.find records record rounds fuel st ≠ .ok none := by
  induction fuel generalizing st with
  | zero => exact absurd enough (Nat.not_lt_zero _)
  | succ fuel ih =>
    have validSaved := T.valid_save valid
    have same : T.measure records.length (S.save st) = T.measure records.length st := by
      unfold measure
      rw [(T.save st).1, (T.save st).2]
    unfold find
    split
    · simp
    · simp
    · split
      · simp
      · rename_i last
        exact absurd last (next_ends validSaved (by omega))
      · simp
      · rename_i moved
        have less := next_measure moved validSaved
        have valid1 := ((next_spec moved (prefix_refl _) validSaved).1 rfl).1
        exact ih valid1 (by omega) (by omega)

end

end Termination

section Invariant
variable {P : σ → Prop}
  (place : ∀ record st start st', (S.tree st).length ≤ records.length → P st →
    S.place record st start = .ok (some st') → P st')
  (pop : ∀ st, S.tree st ≠ [] → P st → P (S.pop st))
  (ascend : ∀ st, S.tree st = [] → P st → P (S.ascend st).2)

variable (T) in
include T place in
theorem refill_invariant {pending : List ρ} {start : Nat} (holds : P st)
    (run : S.refill pending st start = .ok st') (level : pending = records.drop (S.tree st).length) : P st' := by
  induction pending generalizing st start with
  | nil =>
    obtain rfl : st = st' := by simpa [refill] using run
    exact holds
  | cons record pending ih =>
    obtain ⟨located, rest⟩ := drop_eq_cons level
    have low := (List.getElem?_eq_some_iff.mp located).1
    unfold refill at run
    split at run
    · contradiction
    · obtain rfl : st = st' := by simpa using run
      exact holds
    · rename_i placed
      obtain ⟨_, c, tree, _⟩ := T.place_some placed
      exact ih (place _ _ _ _ low.le holds placed) run (by rw [rest, tree]; rfl)

include pop ascend in
theorem restart_invariant (holds : P st) : P (S.restart st).2.1 := by
  unfold restart
  split
  · rename_i empty
    exact ascend st empty holds
  · rename_i nonempty
    exact pop st (by simp [nonempty]) holds

variable (T) in
include T place pop ascend in
theorem next_invariant {rounds : Nat} {found : Bool} (holds : P st)
    (run : S.next records rounds st = .ok (some (found, st'))) : P st' := by
  induction rounds generalizing st with
  | zero => simp [next] at run
  | succ rounds ih =>
    have restarted := restart_invariant pop ascend holds
    unfold next at run
    split at run
    · rename_i stop
      simp only [Except.ok.injEq, Option.some.injEq, Prod.mk.injEq] at run
      rw [stop] at restarted
      rw [← run.2]
      exact restarted
    · rename_i again
      rw [again] at restarted
      split at run
      · contradiction
      · rename_i refilled
        have holds' := refill_invariant T place restarted refilled rfl
        split at run
        · exact ih holds' run
        · simp only [Except.ok.injEq, Option.some.injEq, Prod.mk.injEq] at run
          rw [← run.2]
          exact holds'

variable (T) in
include T place pop ascend in
theorem find_invariant {record : ρ} {rounds fuel : Nat} {found : Bool}
    (save : ∀ st, (S.tree st).length = records.length → P st → P (S.save st))
    (valid : T.Valid (T.context st) records (S.tree st)) (full : (S.tree st).length = records.length)
    (holds : P st) (run : S.find records record rounds fuel st = .ok (some (found, st'))) : P st' := by
  revert valid full holds
  refine find_induction run ?placed ?last ?moved
  case placed => exact fun _ st placed _ full holds => place _ _ _ _ full.le holds placed
  case last => exact fun _ st _ last _ full holds => next_invariant T place pop ascend (save st full holds) last
  case moved =>
    intro st st1 _ moved ih valid full holds
    obtain ⟨valid1, full1⟩ := (next_spec moved (prefix_refl _) (T.valid_save valid)).1 rfl
    exact ih valid1 full1 (next_invariant T place pop ascend (save st full holds) moved)

variable (T) in
include T place pop ascend in
theorem find_failed {record : ρ} {rounds fuel : Nat}
    (save : ∀ st, (S.tree st).length = records.length → P st → P (S.save st))
    (valid : T.Valid (T.context st) records (S.tree st))
    (saved : P (S.save st)) (run : S.find records record rounds fuel st = .ok (some (false, st'))) : P st' := by
  revert valid saved
  refine find_induction run nofun ?last ?moved
  case last => exact fun _ st _ last _ saved => next_invariant T place pop ascend saved last
  case moved =>
    intro st st1 _ moved ih valid saved
    obtain ⟨valid1, full1⟩ := (next_spec moved (prefix_refl _) (T.valid_save valid)).1 rfl
    exact ih valid1 (save st1 full1 (next_invariant T place pop ascend saved moved))

end Invariant

section Stuck
variable (T)

def Stuck (k : κ) (records : List ρ) (path : List ν) : Prop :=
  ∀ c rest record, c :: rest <:+ path → records[rest.length]? = some record →
    ∀ c', T.Child k record rest c' → S.index c' ≤ S.index c

variable {T}

section
variable (stuck : T.Stuck (T.context st) records (S.tree st))
include stuck

theorem next_stuck {P : σ → Prop} {rounds : Nat} {found : Bool}
    (last : ∀ k k', ¬ T.Later k k') (valid : T.Valid (T.context st) records (S.tree st))
    (pop : ∀ st, S.tree st ≠ [] → P st → P (S.pop st)) (ascend : ∀ st, S.tree st = [] → P st → P (S.ascend st).2)
    (holds : P st) (run : S.next records rounds st = .ok (some (found, st'))) : found = false ∧ P st' := by
  induction rounds generalizing st with
  | zero => simp [next] at run
  | succ rounds ih =>
    unfold next restart at run
    cases tree : S.tree st with
    | nil =>
      cases more : (S.ascend st).1 with
      | true => exact absurd (T.ascend_true tree more).2.1 (last _ _)
      | false =>
        simp only [tree, more, Except.ok.injEq, Option.some.injEq, Prod.mk.injEq] at run
        rw [← run.1, ← run.2]
        exact ⟨rfl, ascend st tree holds⟩
    | cons top rest =>
      obtain ⟨tail, context⟩ := T.pop st
      rw [tree] at tail valid stuck
      rw [tail_cons] at tail
      obtain ⟨⟨record, located, _⟩, below⟩ := valid
      have low := (List.getElem?_eq_some_iff.mp located).1
      have popped := pop st (by simp [tree]) holds
      simp only [tree] at run
      split at run
      · contradiction
      · rename_i st2 refilled
        have stays : S.pop st = st2 := by
          rw [tail, drop_eq_getElem_cons low] at refilled
          unfold refill at refilled
          split at refilled
          · contradiction
          · simpa using refilled
          · rename_i placed
            obtain ⟨_, c, _, child, least, _⟩ := T.place_some placed
            rw [context, tail] at child
            have same : records[rest.length] = record := (List.getElem?_eq_some_iff.mp located).2
            rw [same] at child
            have := stuck top rest record (suffix_refl _) located c child
            omega
        subst stays
        rw [tail, if_pos low] at run
        refine ih ?_ ?_ popped run
        · rw [context, tail]
          exact fun c rest' record' inside => stuck c rest' record' (inside.trans (suffix_cons _ _))
        · rw [context, tail]
          exact below

theorem find_stuck {P : σ → Prop} {record : ρ} {rounds fuel : Nat}
    (last : ∀ k k', ¬ T.Later k k')
    (valid : T.Valid (T.context st) records (S.tree st)) (pop : ∀ st, S.tree st ≠ [] → P st → P (S.pop st))
    (ascend : ∀ st, S.tree st = [] → P st → P (S.ascend st).2) (saved : P (S.save st))
    (run : S.find records record rounds fuel st = .ok (some (false, st'))) : P st' := by
  revert valid saved stuck
  refine find_induction run nofun (fun _ st _ gaveUp stuck valid saved => ?_)
    fun st st1 _ moved _ stuck valid saved => ?_
  all_goals obtain ⟨tree, context⟩ := T.save st
  · exact (next_stuck (by rw [context, tree]; exact stuck) last (by rw [context, tree]; exact valid)
      pop ascend saved gaveUp).2
  · have gaveUp := next_stuck (by rw [context, tree]; exact stuck) last (by rw [context, tree]; exact valid)
      pop ascend saved moved
    exact absurd gaveUp.1 (by simp)

end

end Stuck

end Space
end Backtrack
end IsrRan.Lib
