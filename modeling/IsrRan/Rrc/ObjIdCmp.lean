import Mathlib

/-! A UE follows the lists of its RRC configuration through the differences that are signalled to it. -/

namespace IsrRan.Rrc
open List

class Asn1Obj (α : Type) where
  objId : α → Nat

export Asn1Obj (objId)

section
variable {α β : Type} [Asn1Obj α]

def Sorted (l : List α) : Prop := l.Pairwise fun x y => objId x < objId y

/-- `std::set_union`: of two elements with one id the first list's is taken. -/
def setUnion : List α → List α → List α
  | [], l2 => l2
  | x :: l1, [] => x :: l1
  | x :: l1, y :: l2 =>
    if objId y < objId x then y :: setUnion (x :: l1) l2
    else if objId x < objId y then x :: setUnion l1 (y :: l2)
    else x :: setUnion l1 l2
termination_by l1 l2 => l1.length + l2.length

def setDifference : List α → List Nat → List α
  | [], _ => []
  | x :: l1, [] => x :: l1
  | x :: l1, i :: ids =>
    if objId x < i then x :: setDifference l1 (i :: ids)
    else if i < objId x then setDifference (x :: l1) ids
    else setDifference l1 ids
termination_by l1 ids => l1.length + ids.length

def applyRemlistDiff (srcList : List α) (rmDiffList : List Nat) : List α :=
  if rmDiffList.isEmpty then srcList else setDifference srcList rmDiffList

def applyAddmodlistDiff (srcList addDiffList : List α) : List α :=
  if addDiffList.isEmpty then srcList else setUnion addDiffList srcList

def applyAddmodremlistDiff (srcList addDiffList : List α) (rmDiffList : List Nat) : List α :=
  if addDiffList.isEmpty && rmDiffList.isEmpty then srcList
  else setUnion addDiffList (setDifference srcList rmDiffList)

def computeCfgDiff (addFunc : α → β) (modFunc : α → α → Option β) :
    List α → List α → List β × List Nat
  | [], target => (target.map addFunc, [])
  | s :: src, [] => ([], (s :: src).map objId)
  | s :: src, t :: target =>
    if objId s < objId t then
      let (add, rem) := computeCfgDiff addFunc modFunc src (t :: target)
      (add, objId s :: rem)
    else if objId t < objId s then
      let (add, rem) := computeCfgDiff addFunc modFunc (s :: src) target
      (addFunc t :: add, rem)
    else
      let (add, rem) := computeCfgDiff addFunc modFunc src target
      ((modFunc s t).toList ++ add, rem)
termination_by src target => src.length + target.length

def modified [DecidableEq α] (s t : α) : Option α := if s = t then none else some t

def addRrcObj (c : List α) (v : α) : List α :=
  match c.dropWhile fun x => objId x < objId v with
  | x :: rest =>
    if objId x = objId v then c.takeWhile (fun x => objId x < objId v) ++ v :: rest
    else (c ++ [v]).insertionSort fun x y => objId x ≤ objId y
  | [] => (c ++ [v]).insertionSort fun x y => objId x ≤ objId y

def remRrcObjId (c : List α) (i : Nat) : List α :=
  match c.dropWhile fun x => objId x < i with
  | x :: rest => if objId x = i then c.takeWhile (fun x => objId x < i) ++ rest else c
  | [] => c

def gapLoop (prev : α) : List α → α
  | [] => prev
  | x :: rest => if objId prev + 1 < objId x then prev else gapLoop x rest

def findRrcObjIdGap : List α → Nat
  | [] => 1
  | first :: rest => ((if objId first = 1 then objId (gapLoop first rest) else objId first) + 1) % 2 ^ 8

theorem setUnion_cons {t : α} {add l : List α} (least : ∀ y ∈ l, objId t < objId y) :
    setUnion (t :: add) l = t :: setUnion add l := by
  cases l with
  | nil => cases add <;> simp [setUnion]
  | cons y l =>
    have := least y (mem_cons_self ..)
    rw [setUnion, if_neg (by omega), if_pos this]

theorem setUnion_right {s : α} {add l : List α} (least : ∀ t ∈ add, objId s < objId t) :
    setUnion add (s :: l) = s :: setUnion add l := by
  cases add with
  | nil => simp [setUnion]
  | cons t add => rw [setUnion, if_pos (least t (mem_cons_self ..))]

theorem setDifference_cons {s : α} {l : List α} {rem : List Nat} (least : ∀ i ∈ rem, objId s < i) :
    setDifference (s :: l) rem = s :: setDifference l rem := by
  cases rem with
  | nil => cases l <;> simp [setDifference]
  | cons i rem => rw [setDifference, if_pos (least i (mem_cons_self ..))]

theorem mem_setDifference {l : List α} {rem : List Nat} {x : α} (mem : x ∈ setDifference l rem) : x ∈ l := by
  fun_induction setDifference l rem <;> grind

theorem applyRemlistDiff_eq (l : List α) (rem : List Nat) : applyRemlistDiff l rem = setDifference l rem := by
  cases rem <;> cases l <;> simp [applyRemlistDiff, setDifference]

theorem applyAddmodlistDiff_eq (l add : List α) : applyAddmodlistDiff l add = setUnion add l := by
  cases add <;> cases l <;> simp [applyAddmodlistDiff, setUnion]

variable {src target : List α}

theorem mem_removed {addFunc : α → β} {modFunc : α → α → Option β} (sortedSrc : Sorted src)
    (sortedTarget : Sorted target) (i : Nat) :
    i ∈ (computeCfgDiff addFunc modFunc src target).2 ↔ i ∈ src.map objId ∧ i ∉ target.map objId := by
  unfold Sorted at *
  fun_induction computeCfgDiff addFunc modFunc src target <;> grind [pairwise_cons]

section
variable [DecidableEq α]

theorem mem_added_modified {b : α} (mem : b ∈ (computeCfgDiff id modified src target).1) : b ∈ target := by
  fun_induction computeCfgDiff id modified src target <;> grind [modified]

theorem applied_diff (sortedSrc : Sorted src) (sortedTarget : Sorted target) :
    applyAddmodlistDiff (applyRemlistDiff src (computeCfgDiff id modified src target).2)
      (computeCfgDiff id modified src target).1 = target := by
  rw [applyAddmodlistDiff_eq, applyRemlistDiff_eq]
  unfold Sorted at *
  fun_induction computeCfgDiff id modified src target with
  | case1 target => cases target <;> simp [setDifference, setUnion]
  | case2 s src =>
    have emptied (l : List α) : setDifference l (l.map objId) = [] := by
      induction l with
      | nil => rw [map_nil, setDifference]
      | cons x l ih => simp [setDifference, ih]
    rw [emptied, setUnion]
  | case3 s src t target less add rem diff ih =>
    simp only [diff] at ih
    rw [setDifference, if_neg (by omega), if_neg (by omega)]
    exact ih sortedSrc.of_cons sortedTarget
  | case4 s src t target _ less add rem diff ih =>
    simp only [diff] at ih
    rw [id, setUnion_cons fun y mem => ?_, ih sortedSrc sortedTarget.of_cons]
    rcases List.mem_cons.mp (mem_setDifference mem) with rfl | mem
    · exact less
    · exact less.trans (rel_of_pairwise_cons sortedSrc mem)
  | case5 s src t target _ _ add rem diff ih =>
    have same : objId s = objId t := by omega
    have removed := @mem_removed α α _ src target id modified sortedSrc.of_cons sortedTarget.of_cons
    have added {b} := @mem_added_modified α _ src target _ b
    simp only [diff] at ih removed added
    rw [setDifference_cons (by grind [pairwise_cons]), modified]
    split
    · rename_i eq
      rw [Option.toList_none, nil_append, eq, setUnion_right (by grind [pairwise_cons]),
        ih sortedSrc.of_cons sortedTarget.of_cons]
    · rw [Option.toList_some, singleton_append, setUnion, if_neg (by omega), if_neg (by omega),
        ih sortedSrc.of_cons sortedTarget.of_cons]

end

theorem Sorted.insertion {c : List α} {v : α} (sorted : Sorted c) (fresh : ∀ y ∈ c, objId y ≠ objId v) :
    Sorted ((c ++ [v]).insertionSort fun x y => objId x ≤ objId y) := by
  have distinct : (c ++ [v]).Pairwise fun x y => objId x ≠ objId y :=
    List.pairwise_append.mpr ⟨sorted.imp fun lt => lt.ne, pairwise_singleton .., by simpa using fresh⟩
  have distinct := distinct.perm (perm_insertionSort (fun x y => objId x ≤ objId y) (c ++ [v])).symm Ne.symm
  have : Std.Total fun x y : α => objId x ≤ objId y := ⟨fun x y => Nat.le_total ..⟩
  have : IsTrans α fun x y => objId x ≤ objId y := ⟨fun _ _ _ => Nat.le_trans⟩
  exact ((pairwise_insertionSort (fun x y => objId x ≤ objId y) (c ++ [v])).and distinct).imp
    fun h => Nat.lt_of_le_of_ne h.1 h.2

theorem Sorted.addRrcObj {c : List α} (sorted : Sorted c) (v : α) : Sorted (addRrcObj c v) := by
  have parts := c.takeWhile_append_dropWhile (p := fun x => decide (objId x < objId v))
  have front : ∀ y ∈ c.takeWhile fun x => objId x < objId v, objId y < objId v :=
    fun y mem => by simpa using mem_takeWhile_imp mem
  unfold Rrc.addRrcObj Sorted at *
  split
  · rename_i x rest found
    have least : objId v ≤ objId x := by
      simpa [found] using List.head?_dropWhile_not (fun x => decide (objId x < objId v)) c
    rw [found] at parts
    rw [← parts] at sorted
    split
    · grind [pairwise_cons]
    · rw [← parts]
      exact Sorted.insertion sorted (by grind [pairwise_cons])
  · rename_i smaller
    rw [smaller, append_nil] at parts
    rw [parts] at front
    exact Sorted.insertion sorted fun y mem => (front y mem).ne

theorem Sorted.remRrcObjId {c : List α} (sorted : Sorted c) (i : Nat) : Sorted (remRrcObjId c i) := by
  have parts := c.takeWhile_append_dropWhile (p := fun x => decide (objId x < i))
  unfold Rrc.remRrcObjId
  split
  · rename_i x rest found
    split
    · rw [found] at parts
      rw [← parts] at sorted
      exact sorted.sublist (List.Sublist.append_left (sublist_cons_self x rest) _)
    · exact sorted
  · exact sorted

theorem gapLoop_spec {prev : α} {rest : List α} (sorted : Sorted (prev :: rest)) :
    objId (gapLoop prev rest) ∈ (prev :: rest).map objId ∧
      objId (gapLoop prev rest) + 1 ∉ (prev :: rest).map objId := by
  unfold Sorted at sorted
  fun_induction gapLoop prev rest <;> grind [pairwise_cons]

theorem findRrcObjIdGap_taken_iff {l : List α} (sorted : Sorted l) (room : ∀ x ∈ l, objId x < 255) :
    findRrcObjIdGap l ∈ l.map objId ↔
      ∃ first second rest, l = first :: second :: rest ∧ objId first ≠ 1 ∧ objId second = objId first + 1 := by
  cases l with
  | nil => simp
  | cons first rest =>
    obtain ⟨mem, free⟩ := gapLoop_spec sorted
    obtain ⟨g, hg, same⟩ := List.mem_map.mp mem
    have := room g hg
    have := room first (mem_cons_self ..)
    rw [findRrcObjIdGap]
    split
    · rw [Nat.mod_eq_of_lt (by omega)]
      grind
    · rw [Nat.mod_eq_of_lt (by omega)]
      unfold Sorted at sorted
      cases rest with
      | nil => simp
      | cons second rest =>
        refine ⟨fun taken => ⟨first, second, rest, rfl, ‹_›, ?_⟩, ?_⟩
        · clear mem free same
          grind [pairwise_cons]
        · rintro ⟨_, _, _, ⟨⟩, -, next⟩
          exact List.mem_map.mpr ⟨second, by simp, next⟩

theorem findRrcObjIdGap_taken_iff_second : @findRrcObjIdGap Nat ⟨id⟩ [3, 4, 9] ∈ [3, 4, 9].map id :=
  (@findRrcObjIdGap_taken_iff Nat ⟨id⟩ [3, 4, 9] (by unfold Sorted; decide) (by decide)).mpr
    ⟨3, 4, [9], by decide⟩

variable (α) in
/-- The eNB's record of what a UE has of a list, the list as it is to be, and what the UE has. -/
structure CfgLists where
  current : List α := []
  target : List α := []
  ue : List α := []

inductive CfgEvent (α : Type) where
  | add (obj : α)
  | remove (id : Nat)
  | reconfigure

variable [DecidableEq α]

/-- The UE applies the two lists of a reconfiguration one after the other, the eNB applies both at once to its record. -/
def CfgLists.step (s : CfgLists α) : CfgEvent α → CfgLists α
  | .add obj => { s with target := addRrcObj s.target obj }
  | .remove id => { s with target := remRrcObjId s.target id }
  | .reconfigure =>
    let (add, rem) := computeCfgDiff id modified s.current s.target
    { s with
      current := applyAddmodremlistDiff s.current add rem
      ue := applyAddmodlistDiff (applyRemlistDiff s.ue rem) add }

omit [DecidableEq α] in
theorem applyAddmodremlistDiff_eq (l add : List α) (rem : List Nat) :
    applyAddmodremlistDiff l add rem = applyAddmodlistDiff (applyRemlistDiff l rem) add := by
  rw [applyAddmodlistDiff_eq, applyRemlistDiff_eq, applyAddmodremlistDiff]
  cases add <;> cases rem <;> cases l <;> simp [setUnion, setDifference]

structure CfgLists.Synchronised (s : CfgLists α) : Prop where
  sortedCurrent : Sorted s.current
  sortedTarget : Sorted s.target
  ue : s.ue = s.current

theorem CfgLists.Synchronised.reconfigured {s : CfgLists α} (h : s.Synchronised) :
    (s.step .reconfigure).current = s.target ∧ (s.step .reconfigure).ue = s.target := by
  have applied := applied_diff h.sortedCurrent h.sortedTarget
  constructor
  · change applyAddmodremlistDiff s.current _ _ = s.target
    rwa [applyAddmodremlistDiff_eq]
  · change applyAddmodlistDiff (applyRemlistDiff s.ue _) _ = s.target
    rwa [h.ue]

theorem CfgLists.Synchronised.step {s : CfgLists α} (h : s.Synchronised) (event : CfgEvent α) :
    (s.step event).Synchronised := by
  cases event with
  | add obj => exact ⟨h.sortedCurrent, h.sortedTarget.addRrcObj obj, h.ue⟩
  | remove id => exact ⟨h.sortedCurrent, h.sortedTarget.remRrcObjId id, h.ue⟩
  | reconfigure =>
    obtain ⟨current, ue⟩ := h.reconfigured
    exact ⟨current ▸ h.sortedTarget, h.sortedTarget, ue.trans current.symm⟩

theorem reconfigurations_synchronise (run : List (CfgEvent α)) :
    let s := run.foldl CfgLists.step {}
    s.ue = s.current ∧ (s.step .reconfigure).current = s.target ∧ (s.step .reconfigure).ue = s.target := by
  have initially : CfgLists.Synchronised ({} : CfgLists α) := ⟨.nil, .nil, rfl⟩
  suffices synchronised : (run.foldl CfgLists.step {}).Synchronised from ⟨synchronised.ue, synchronised.reconfigured⟩
  generalize ({} : CfgLists α) = s at initially
  induction run generalizing s with
  | nil => exact initially
  | cons event run ih => exact ih _ (initially.step event)

end
end IsrRan.Rrc
