import Mathlib.Tactic.Common

/-! The two maps of a `ue_bearer_manager_impl` (bearer_manager.cc). -/

namespace IsrRan.Common

/-- `isrran_rat_t` without `nulltype`, which is `none` below -/
inductive RatType where
  | lte
  | nr

structure RadioBearer where
  rat : Option RatType
  lcid : Nat
  epsBearerId : Nat
  fiveQi : Nat := 0

def invalidRb : RadioBearer := ⟨none, 0, 0, 0⟩

structure UeBearerManager where
  bearers : Nat → Option RadioBearer := fun _ => none
  lcidToEpsBearerId : Nat → Option Nat := fun _ => none

inductive BearerEvent where
  | add (epsBearerId : Nat) (rat : RatType) (lcid : Nat)
  | remove (epsBearerId : Nat)
  | reset

namespace UeBearerManager
open Function

/-- `add_eps_bearer`; an `emplace` under a key that is there changes nothing. -/
def addEpsBearer (s : UeBearerManager) (epsBearerId : Nat) (rat : RatType) (lcid : Nat) : UeBearerManager × Bool :=
  match s.bearers epsBearerId with
  | some _ => (s, false)
  | none => ({
      bearers := update s.bearers epsBearerId (some ⟨some rat, lcid, epsBearerId, 0⟩)
      lcidToEpsBearerId := update s.lcidToEpsBearerId lcid
        (some ((s.lcidToEpsBearerId lcid).getD epsBearerId)) }, true)

def removeEpsBearer (s : UeBearerManager) (epsBearerId : Nat) : UeBearerManager × Bool :=
  match s.bearers epsBearerId with
  | none => (s, false)
  | some bearer => ({
      bearers := update s.bearers epsBearerId none
      lcidToEpsBearerId := update s.lcidToEpsBearerId bearer.lcid none }, true)

/-- `none` is the exception that `at` throws. -/
def getEpsBearerIdForLcid (s : UeBearerManager) (lcid : Nat) : Option RadioBearer :=
  match s.lcidToEpsBearerId lcid with
  | some epsBearerId => s.bearers epsBearerId
  | none => some invalidRb

def step (s : UeBearerManager) : BearerEvent → UeBearerManager
  | .add epsBearerId rat lcid => (s.addEpsBearer epsBearerId rat lcid).1
  | .remove epsBearerId => (s.removeEpsBearer epsBearerId).1
  | .reset => {}

structure Inverse (s : UeBearerManager) : Prop where
  used : ∀ e b, s.bearers e = some b →
    ∃ e' b', s.getEpsBearerIdForLcid b.lcid = some b' ∧ s.bearers e' = some b' ∧ b'.lcid = b.lcid
  unused : ∀ lcid, (∀ e b, s.bearers e = some b → b.lcid ≠ lcid) → s.getEpsBearerIdForLcid lcid = some invalidRb

def KeepsOthers (s : UeBearerManager) : BearerEvent → Prop
  | .remove e => ∀ e' b, e' ≠ e → s.bearers e' = some b →
      (s.step (.remove e)).getEpsBearerIdForLcid b.lcid = s.getEpsBearerIdForLcid b.lcid
  | _ => True

def Sole (s : UeBearerManager) : BearerEvent → Prop
  | .remove e => ∀ b, s.bearers e = some b → ∀ e' b', e' ≠ e → s.bearers e' = some b' → b'.lcid ≠ b.lcid
  | _ => True

def Holds : UeBearerManager → List BearerEvent → Prop
  | s, [] => s.Inverse
  | s, e :: es => s.Inverse ∧ s.KeepsOthers e ∧ Holds (s.step e) es

def AllSole : UeBearerManager → List BearerEvent → Prop
  | _, [] => True
  | s, e :: es => s.Sole e ∧ AllSole (s.step e) es

structure Indexed (s : UeBearerManager) : Prop where
  entry : ∀ lcid e, s.lcidToEpsBearerId lcid = some e → ∃ b, s.bearers e = some b ∧ b.lcid = lcid
  valid : ∀ e b, s.bearers e = some b → b.rat ≠ none

def Complete (s : UeBearerManager) : Prop :=
  ∀ e b, s.bearers e = some b → s.lcidToEpsBearerId b.lcid ≠ none

variable {s : UeBearerManager} {e : Nat} {rat : RatType} {lcid : Nat} {b : RadioBearer}

theorem step_add_known (known : s.bearers e = some b) : s.step (.add e rat lcid) = s := by
  simp only [step, addEpsBearer, known]

theorem step_add_new (new : s.bearers e = none) : s.step (.add e rat lcid) =
    ⟨update s.bearers e (some ⟨some rat, lcid, e, 0⟩),
      update s.lcidToEpsBearerId lcid (some ((s.lcidToEpsBearerId lcid).getD e))⟩ := by
  simp only [step, addEpsBearer, new]

theorem step_remove_unknown (unknown : s.bearers e = none) : s.step (.remove e) = s := by
  simp only [step, removeEpsBearer, unknown]

theorem step_remove_known (known : s.bearers e = some b) :
    s.step (.remove e) = ⟨update s.bearers e none, update s.lcidToEpsBearerId b.lcid none⟩ := by
  simp only [step, removeEpsBearer, known]

theorem update_eq_some {α : Type} {f : Nat → Option α} {k i : Nat} {new : Option α} {a : α}
    (found : update f k new i = some a) : i = k ∧ new = some a ∨ i ≠ k ∧ f i = some a := by
  by_cases here : i = k
  · rw [here, update_self] at found
    exact .inl ⟨here, found⟩
  · rw [update_of_ne here] at found
    exact .inr ⟨here, found⟩

theorem Indexed.initial : ({} : UeBearerManager).Indexed := ⟨nofun, nofun⟩

section
variable (inv : s.Indexed)
include inv

theorem Indexed.add (new : s.bearers e = none) : (s.step (.add e rat lcid)).Indexed := by
  have old : ∀ l e', s.lcidToEpsBearerId l = some e' →
      ∃ b, update s.bearers e (some ⟨some rat, lcid, e, 0⟩) e' = some b ∧ b.lcid = l := by
    intro l e' before
    obtain ⟨b, found, same⟩ := inv.entry l e' before
    refine ⟨b, ?_, same⟩
    rw [update_of_ne (by rintro rfl; rw [new] at found; cases found), found]
  rw [step_add_new new]
  constructor
  · intro l e' entry
    rcases update_eq_some entry with ⟨rfl, eq⟩ | ⟨-, before⟩
    · cases there : s.lcidToEpsBearerId l with
      | some e'' =>
        rw [there] at eq
        exact old l e' (there.trans eq)
      | none =>
        rw [there] at eq
        obtain rfl := Option.some.inj eq
        exact ⟨_, update_self .., rfl⟩
    · exact old l e' before
  · intro e' b' found
    rcases update_eq_some found with ⟨-, eq⟩ | ⟨-, before⟩
    · obtain rfl := Option.some.inj eq
      exact nofun
    · exact inv.valid e' b' before

theorem Indexed.remove (known : s.bearers e = some b) : (s.step (.remove e)).Indexed := by
  rw [step_remove_known known]
  constructor
  · intro l e' entry
    rcases update_eq_some entry with ⟨-, eq⟩ | ⟨other, before⟩
    · cases eq
    · obtain ⟨b', found, same⟩ := inv.entry l e' before
      refine ⟨b', ?_, same⟩
      dsimp only
      rw [update_of_ne (by rintro rfl; exact other (by rw [← same, Option.some.inj (known.symm.trans found)])), found]
  · intro e' b' found
    rcases update_eq_some found with ⟨-, eq⟩ | ⟨-, before⟩
    · cases eq
    · exact inv.valid e' b' before

theorem Indexed.step (event : BearerEvent) : (s.step event).Indexed := by
  cases event with
  | reset => exact Indexed.initial
  | add e rat lcid =>
    cases there : s.bearers e with
    | some b => exact (step_add_known there).symm ▸ inv
    | none => exact inv.add there
  | remove e =>
    cases there : s.bearers e with
    | some b => exact inv.remove there
    | none => exact (step_remove_unknown there).symm ▸ inv

theorem Indexed.inverse_iff : s.Inverse ↔ s.Complete := by
  constructor
  · intro inverse e b found none_
    obtain ⟨e', b', answer, there, -⟩ := inverse.used e b found
    simp only [getEpsBearerIdForLcid, none_, Option.some.injEq] at answer
    exact inv.valid e' b' there (answer ▸ rfl)
  · intro complete
    constructor
    · intro e b found
      obtain ⟨e', entry⟩ := Option.ne_none_iff_exists'.mp (complete e b found)
      obtain ⟨b', there, same⟩ := inv.entry _ e' entry
      refine ⟨e', b', ?_, there, same⟩
      simp only [getEpsBearerIdForLcid, entry, there]
    · intro lcid none_
      unfold getEpsBearerIdForLcid
      cases entry : s.lcidToEpsBearerId lcid with
      | none => rfl
      | some e =>
        obtain ⟨b, there, same⟩ := inv.entry lcid e entry
        exact absurd same (none_ e b there)

end

theorem Complete.add (complete : s.Complete) : (s.step (.add e rat lcid)).Complete := by
  cases there : s.bearers e with
  | some b => exact (step_add_known there).symm ▸ complete
  | none =>
    rw [step_add_new there]
    intro e' b' found
    dsimp only
    by_cases here : b'.lcid = lcid
    · rw [here, update_self]
      exact nofun
    · rw [update_of_ne here]
      rcases update_eq_some found with ⟨-, eq⟩ | ⟨-, before⟩
      · obtain rfl := Option.some.inj eq
        exact absurd rfl here
      · exact complete e' b' before

theorem Complete.remove_iff (complete : s.Complete) : (s.step (.remove e)).Complete ↔ s.Sole (.remove e) := by
  cases there : s.bearers e with
  | none =>
    rw [step_remove_unknown there]
    exact iff_of_true complete fun b found => absurd (there.symm.trans found) nofun
  | some b =>
    rw [step_remove_known there]
    constructor
    · rintro kept b₀ found e' b' other registered same
      obtain rfl := Option.some.inj (there.symm.trans found)
      refine kept e' b' ((update_of_ne other ..).trans registered) ?_
      dsimp only
      rw [same, update_self]
    · intro sole e' b' found
      rcases update_eq_some found with ⟨-, eq⟩ | ⟨other, before⟩
      · cases eq
      · dsimp only
        rw [update_of_ne (sole b there e' b' other before)]
        exact complete e' b' before

theorem Indexed.keepsOthers (inv : s.Indexed) (sole : s.Sole (.remove e)) : s.KeepsOthers (.remove e) := by
  intro e' b' other registered
  cases there : s.bearers e with
  | none => rw [step_remove_unknown there]
  | some b =>
    rw [step_remove_known there]
    have apart := sole b there e' b' other registered
    unfold getEpsBearerIdForLcid
    dsimp only
    rw [update_of_ne apart]
    cases entry : s.lcidToEpsBearerId b'.lcid with
    | none => rfl
    | some e'' =>
      obtain ⟨b'', found, same⟩ := inv.entry _ e'' entry
      exact update_of_ne (by rintro rfl; exact apart (by rw [← same, Option.some.inj (there.symm.trans found)])) ..

theorem step_iff (inv : s.Indexed) (complete : s.Complete) (event : BearerEvent) :
    s.KeepsOthers event ∧ (s.step event).Complete ↔ s.Sole event := by
  cases event with
  | add e rat lcid => exact iff_of_true ⟨trivial, complete.add⟩ trivial
  | reset => exact iff_of_true ⟨trivial, nofun⟩ trivial
  | remove e =>
    rw [complete.remove_iff]
    exact ⟨And.right, fun sole => ⟨inv.keepsOthers sole, sole⟩⟩

theorem Holds.initially {es : List BearerEvent} (run : s.Holds es) : s.Inverse := by
  cases es with
  | nil => exact run
  | cons event es => exact run.1

theorem holds_iff_allSole (inv : s.Indexed) (inverse : s.Inverse) (es : List BearerEvent) :
    s.Holds es ↔ s.AllSole es := by
  induction es generalizing s with
  | nil => exact iff_of_true inverse trivial
  | cons event es ih =>
    have exact_ := step_iff inv (inv.inverse_iff.mp inverse) event
    have after := (inv.step event).inverse_iff
    constructor
    · rintro ⟨-, keeps, later⟩
      have there := after.mp (Holds.initially later)
      exact ⟨exact_.mp ⟨keeps, there⟩, (ih (inv.step event) (after.mpr there)).mp later⟩
    · rintro ⟨sole, later⟩
      have there := after.mpr (exact_.mpr sole).2
      exact ⟨inverse, (exact_.mpr sole).1, (ih (inv.step event) there).mpr later⟩

theorem bearerMaps_inverse_iff (es : List BearerEvent) :
    ({} : UeBearerManager).Holds es ↔ ({} : UeBearerManager).AllSole es :=
  holds_iff_allSole .initial (Indexed.initial.inverse_iff.mpr nofun) es

theorem movedBearer_lost : ¬({} : UeBearerManager).Holds [.add 5 .lte 3, .add 6 .nr 3, .remove 5] := by
  rintro ⟨-, -, -, -, -, -, inverse⟩
  obtain ⟨e, b, answer, there, same⟩ := inverse.used 6 ⟨some .nr, 3, 6, 0⟩ rfl
  obtain rfl := Option.some.inj answer
  cases same

end UeBearerManager
end IsrRan.Common
