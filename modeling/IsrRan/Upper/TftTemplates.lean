import IsrRan.Lib.OrderedMap
import IsrRan.Upper.TftComponents

/-! The filters of all bearers in one map (`tft_pdu_matcher`). -/

namespace IsrRan.Upper.Tft
open Lib

structure PacketFilter where
  id : Nat
  evalPrecedence : Nat
  filterSize : Nat
  filter : Bytes

abbrev FilterMap := OrderedMap TftPacketFilter

def PacketFilter.build (p : PacketFilter) (epsBearerId : Nat) : Except Fault TftPacketFilter :=
  (TftPacketFilter.construct p.filter p.filterSize p.filterSize 0
    { epsBearerId, id := p.id, evalPrecedence := p.evalPrecedence }).map TftPacketFilter.Built.filter

def createLoop (epsBearerId : Nat) : List PacketFilter → FilterMap → Except Fault (FilterMap × Bool)
  | [], m => .ok (m, true)
  | p :: ps, m => p.build epsBearerId >>= fun filter =>
    if m.contains filter.evalPrecedence then .ok (m, false)
    else createLoop epsBearerId ps (m.emplace filter.evalPrecedence filter)

def replaceLoop (epsBearerId : Nat) : List PacketFilter → FilterMap → Except Fault (FilterMap × Bool)
  | [], m => .ok (m, true)
  | p :: ps, m =>
    match m.find? fun old => old.2.id = p.id with
    | none => .ok (m, false)
    | some old => p.build epsBearerId >>= fun filter =>
      if (m.erase old.1).contains filter.evalPrecedence then .ok (m.erase old.1, false)
      else replaceLoop epsBearerId ps ((m.erase old.1).emplace filter.evalPrecedence filter)

def deleteTftForEpsBearer (epsBearerId : Nat) (m : FilterMap) : FilterMap :=
  match m.find? fun old => old.2.epsBearerId = epsBearerId with
  | none => m
  | some old => m.erase old.1

inductive TftCall where
  | createNewTft (epsBearerId : Nat) (filters : List PacketFilter)
  | replacePacketFilters (epsBearerId : Nat) (filters : List PacketFilter)
  | unhandled (epsBearerId : Nat)
  | delete (epsBearerId : Nat)

namespace TftCall

def epsBearerId : TftCall → Nat
  | createNewTft e _ | replacePacketFilters e _ | unhandled e | delete e => e

def run (m : FilterMap) : TftCall → Except Fault (FilterMap × Bool)
  | createNewTft e filters => createLoop e filters m
  | replacePacketFilters e filters => replaceLoop e filters m
  | unhandled _ => .ok (m, false)
  | delete e => .ok (deleteTftForEpsBearer e m, true)

end TftCall

structure Proper (m : FilterMap) (call : TftCall) (m' : FilterMap) (success : Bool) : Prop where
  others : ∀ entry ∈ m, entry.2.epsBearerId ≠ call.epsBearerId → entry ∈ m'
  atomic : success = false → m' = m
  gone : ∀ e, call = .delete e → ∀ entry ∈ m', entry.2.epsBearerId ≠ e

def HoldsTft : FilterMap → List TftCall → Prop
  | _, [] => True
  | m, call :: calls => ∃ m' success, call.run m = .ok (m', success) ∧ Proper m call m' success ∧ HoldsTft m' calls

def Replaceable (epsBearerId : Nat) : List PacketFilter → FilterMap → Prop
  | [], _ => True
  | p :: ps, m => ∃ old filter, m.find? (fun old => old.2.id = p.id) = some old ∧ old.2.epsBearerId = epsBearerId ∧
      p.build epsBearerId = .ok filter ∧ (m.erase old.1).contains p.evalPrecedence = false ∧
      Replaceable epsBearerId ps ((m.erase old.1).emplace p.evalPrecedence filter)

/-- A list fails at its first filter or not at all, a replacement keeps to its bearer, and what is deleted is one
filter. -/
def Orderly (m : FilterMap) : TftCall → Prop
  | .createNewTft e filters =>
      (∃ p ps filter, filters = p :: ps ∧ p.build e = .ok filter ∧ m.contains p.evalPrecedence = true) ∨
        (filters.Pairwise fun p q => p.evalPrecedence ≠ q.evalPrecedence) ∧
          ∀ p ∈ filters, m.contains p.evalPrecedence = false ∧ ∃ filter, p.build e = .ok filter
  | .replacePacketFilters e filters =>
      (∃ p ps, filters = p :: ps ∧ m.find? (fun old => old.2.id = p.id) = none) ∨ Replaceable e filters m
  | .unhandled _ => True
  | .delete e => ∀ a ∈ m, ∀ b ∈ m, a.2.epsBearerId = e → b.2.epsBearerId = e → a.1 = b.1

def AllOrderly : FilterMap → List TftCall → Prop
  | _, [] => True
  | m, call :: calls => Orderly m call ∧ ∀ m' success, call.run m = .ok (m', success) → AllOrderly m' calls

section
variable {m m' : FilterMap} {e : Nat} {p : PacketFilter} {ps : List PacketFilter} {filter : TftPacketFilter}

theorem build_names (built : p.build e = .ok filter) :
    filter.epsBearerId = e ∧ filter.evalPrecedence = p.evalPrecedence := by
  obtain ⟨b, constructed, rfl⟩ := map_eq_ok.mp built
  rw [construct_eq] at constructed
  obtain ⟨f, stored, rfl⟩ := map_eq_ok.mp constructed
  exact storeAll_names stored

theorem createLoop_ok (distinct : ps.Pairwise fun p q => p.evalPrecedence ≠ q.evalPrecedence)
    (free : ∀ p ∈ ps, m.contains p.evalPrecedence = false ∧ ∃ filter, p.build e = .ok filter) :
    ∃ m', createLoop e ps m = .ok (m', true) ∧ (∀ entry ∈ m, entry ∈ m') ∧
      (OrderedMap.Sorted m → OrderedMap.Sorted m') := by
  induction ps generalizing m with
  | nil => exact ⟨m, rfl, fun _ mem => mem, id⟩
  | cons p ps ih =>
    obtain ⟨apart, later⟩ := List.pairwise_cons.mp distinct
    obtain ⟨new, filter, built⟩ := free p List.mem_cons_self
    have name := (build_names built).2
    have still : ∀ q ∈ ps, (m.emplace p.evalPrecedence filter).contains q.evalPrecedence = false ∧
        ∃ filter, q.build e = .ok filter := by
      intro q mem
      obtain ⟨new', built'⟩ := free q (List.mem_cons_of_mem p mem)
      exact ⟨(OrderedMap.contains_emplace filter (apart q mem).symm).trans new', built'⟩
    obtain ⟨m', run, keeps, sorted⟩ := ih later still
    refine ⟨m', ?_, fun entry mem => keeps entry (OrderedMap.mem_emplace_of_mem mem _ _),
      fun before => sorted (before.emplace _ _)⟩
    rw [createLoop, built]
    change (if m.contains filter.evalPrecedence = true then _ else _) = _
    rw [name, if_neg (by rw [new]; exact Bool.false_ne_true), run]

section
variable (sorted : OrderedMap.Sorted m)
include sorted

theorem replaceLoop_ok (replaceable : Replaceable e ps m) :
    ∃ m', replaceLoop e ps m = .ok (m', true) ∧ (∀ entry ∈ m, entry.2.epsBearerId ≠ e → entry ∈ m') ∧
      OrderedMap.Sorted m' := by
  induction ps generalizing m with
  | nil => exact ⟨m, rfl, fun _ mem _ => mem, sorted⟩
  | cons p ps ih =>
    obtain ⟨old, filter, found, own, built, new, later⟩ := replaceable
    have name := (build_names built).2
    have there := List.mem_of_find?_eq_some found
    have shrunk : OrderedMap.Sorted (m.erase old.1) := sorted.filter _
    obtain ⟨m', run, keeps, sorted'⟩ := ih (shrunk.emplace _ _) later
    refine ⟨m', ?_, fun entry mem other => keeps entry (OrderedMap.mem_emplace_of_mem ?_ _ _) other, sorted'⟩
    · rw [replaceLoop, found]
      rw [built]
      change (if (m.erase old.1).contains filter.evalPrecedence = true then _ else _) = _
      rw [name, if_neg (by rw [new]; exact Bool.false_ne_true), run]
    · refine OrderedMap.mem_erase.mpr ⟨mem, fun same => other ?_⟩
      rw [sorted.eq_of_key mem there same, own]

theorem delete_proper (one : ∀ a ∈ m, ∀ b ∈ m, a.2.epsBearerId = e → b.2.epsBearerId = e → a.1 = b.1) :
    (∀ entry ∈ m, entry.2.epsBearerId ≠ e → entry ∈ deleteTftForEpsBearer e m) ∧
      (∀ entry ∈ deleteTftForEpsBearer e m, entry.2.epsBearerId ≠ e) ∧
      OrderedMap.Sorted (deleteTftForEpsBearer e m) := by
  unfold deleteTftForEpsBearer
  cases found : m.find? fun old => old.2.epsBearerId = e with
  | none =>
    refine ⟨fun _ mem _ => mem, fun entry mem same => ?_, sorted⟩
    exact List.find?_eq_none.mp found entry mem (decide_eq_true same)
  | some old =>
    have there := List.mem_of_find?_eq_some found
    have own : old.2.epsBearerId = e := by simpa using List.find?_some found
    refine ⟨fun entry mem other => OrderedMap.mem_erase.mpr ⟨mem, fun same => other ?_⟩, fun entry mem same => ?_,
      sorted.filter _⟩
    · rw [sorted.eq_of_key mem there same, own]
    · obtain ⟨mem', apart⟩ := OrderedMap.mem_erase.mp mem
      exact apart (one entry mem' old there same own)

theorem run_proper {call : TftCall} (orderly : Orderly m call) :
    ∃ m' success, call.run m = .ok (m', success) ∧ Proper m call m' success ∧ OrderedMap.Sorted m' := by
  have refused : ∀ call : TftCall, (∀ e, call ≠ .delete e) → Proper m call m false := fun call notDelete =>
    ⟨fun _ mem _ => mem, fun _ => rfl, fun e same => absurd same (notDelete e)⟩
  cases call with
  | createNewTft e filters =>
    rcases orderly with ⟨p, ps, filter, rfl, built, taken⟩ | ⟨distinct, free⟩
    · refine ⟨m, false, ?_, refused _ nofun, sorted⟩
      rw [TftCall.run, createLoop, built]
      change (if m.contains filter.evalPrecedence = true then _ else _) = _
      rw [(build_names built).2, if_pos taken]
    · obtain ⟨m', run, keeps, sorted'⟩ := createLoop_ok distinct free
      exact ⟨m', true, run, ⟨fun entry mem _ => keeps entry mem, nofun, nofun⟩, sorted' sorted⟩
  | replacePacketFilters e filters =>
    rcases orderly with ⟨p, ps, rfl, unknown⟩ | replaceable
    · refine ⟨m, false, ?_, refused _ nofun, sorted⟩
      rw [TftCall.run, replaceLoop, unknown]
    · obtain ⟨m', run, keeps, sorted'⟩ := replaceLoop_ok sorted replaceable
      exact ⟨m', true, run, ⟨keeps, nofun, nofun⟩, sorted'⟩
  | unhandled e => exact ⟨m, false, rfl, refused _ nofun, sorted⟩
  | delete e =>
    obtain ⟨keeps, gone, sorted'⟩ := delete_proper sorted orderly
    exact ⟨_, true, rfl, ⟨keeps, nofun, fun e' same => TftCall.delete.inj same ▸ gone⟩, sorted'⟩

theorem holdsTft_of_allOrderly (calls : List TftCall) (orderly : AllOrderly m calls) :
    HoldsTft m calls := by
  induction calls generalizing m with
  | nil => trivial
  | cons call calls ih =>
    obtain ⟨m', success, run, proper, sorted'⟩ := run_proper sorted orderly.1
    exact ⟨m', success, run, proper, ih sorted' (orderly.2 m' success run)⟩

end

theorem templates_proper (calls : List TftCall) (orderly : AllOrderly [] calls) : HoldsTft [] calls :=
  holdsTft_of_allOrderly List.Pairwise.nil calls orderly

def anyPacket (id evalPrecedence : Nat) : PacketFilter := ⟨id, evalPrecedence, 0, fun _ => 0⟩

theorem templates_proper_replaced :
    HoldsTft [] [.createNewTft 5 [anyPacket 0 1], .createNewTft 6 [anyPacket 1 3], .createNewTft 6 [anyPacket 2 1],
      .replacePacketFilters 5 [anyPacket 0 2], .delete 5] := by
  apply templates_proper
  have free : ∀ {m : FilterMap} {e : Nat} (p : PacketFilter), m.contains p.evalPrecedence = false →
      (∃ filter, p.build e = .ok filter) → Orderly m (.createNewTft e [p]) := fun p new built =>
    .inr ⟨List.pairwise_singleton _ _, by simpa using ⟨new, built⟩⟩
  refine ⟨free _ rfl ⟨_, rfl⟩, fun m' success run => ?_⟩
  obtain ⟨rfl, -⟩ := Prod.mk.inj (Except.ok.inj run)
  refine ⟨free _ rfl ⟨_, rfl⟩, fun m' success run => ?_⟩
  obtain ⟨rfl, -⟩ := Prod.mk.inj (Except.ok.inj run)
  -- refused: precedence 1 is bearer 5's
  refine ⟨.inl ⟨_, _, _, rfl, rfl, rfl⟩, fun m' success run => ?_⟩
  obtain ⟨rfl, -⟩ := Prod.mk.inj (Except.ok.inj run)
  refine ⟨.inr ⟨_, _, rfl, rfl, rfl, rfl, trivial⟩, fun m' success run => ?_⟩
  obtain ⟨rfl, -⟩ := Prod.mk.inj (Except.ok.inj run)
  refine ⟨fun a memA b memB ownA ownB => ?_, fun _ _ _ => trivial⟩
  rcases List.mem_pair.mp memA with rfl | rfl
  · rcases List.mem_pair.mp memB with rfl | rfl
    · rfl
    · cases ownB
  · cases ownA

theorem twoFilters_oneDeleted :
    ¬HoldsTft [] [.createNewTft 5 [anyPacket 0 1, anyPacket 1 2], .delete 5] := by
  rintro ⟨m', _, created, -, m'', _, deleted, proper, -⟩
  obtain ⟨rfl, -⟩ := Prod.mk.inj (Except.ok.inj created)
  obtain ⟨rfl, -⟩ := Prod.mk.inj (Except.ok.inj deleted)
  exact proper.gone 5 rfl (2, { epsBearerId := 5, id := 1, evalPrecedence := 2 }) List.mem_cons_self rfl

end
end IsrRan.Upper.Tft
