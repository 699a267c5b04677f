import IsrRan.Asn1.OpenTypes

namespace IsrRan.Asn1
open BitRef Lib List

structure ExtGroupsUnpackerGuard where
  groups : List Bool
  nofSupportedGroups : Nat
  nofUnpackedGroups : Nat := 0
  deriving DecidableEq, Repr

namespace ExtGroupsUnpackerGuard

def enter (nofSupportedGroups : Nat) : ExtGroupsUnpackerGuard where
  groups := replicate nofSupportedGroups false
  nofSupportedGroups := nofSupportedGroups

def resize (g : ExtGroupsUnpackerGuard) (newSize : Nat) : ExtGroupsUnpackerGuard :=
  { g with groups := g.groups ++ replicate (max newSize g.nofSupportedGroups - g.groups.length) false }

def unpackFlags (rounds : Nat) (i : Nat) (g : ExtGroupsUnpackerGuard) (bref : BitRef) :
    Unpacked ExtGroupsUnpackerGuard :=
  match rounds with
  | 0 => ⟨.success, g, bref⟩
  | rounds + 1 =>
    let r := bref.unpack 8 0 1
    let g := { g with groups := g.groups.set i (r.val ≠ 0) }
    if r.code = .success then unpackFlags rounds (i + 1) g r.bref else ⟨r.code, g, r.bref⟩

def unpack (g : ExtGroupsUnpackerGuard) (bref : BitRef) : Unpacked ExtGroupsUnpackerGuard :=
  let r := unpackNormSmallNonNegWholeNumber g.nofUnpackedGroups bref
  if r.code = .success then
    let nof := (r.val + 1) % 2 ^ 32
    unpackFlags nof 0 ({ g with nofUnpackedGroups := nof }.resize nof) r.bref
  else ⟨r.code, { g with nofUnpackedGroups := r.val }, r.bref⟩

def leaveGroup (g : ExtGroupsUnpackerGuard) (bref : BitRef) (i : Nat) : Except Fault BitRef :=
  match g.groups[i]? with
  | none => .error .undefinedBehaviour
  | some false => .ok bref
  | some true =>
    let scope := VarlengthFieldUnpackGuard.enter bref false
    .ok (scope.leave scope.bref0)

def leave (g : ExtGroupsUnpackerGuard) (bref : BitRef) : Except Fault BitRef :=
  (range' g.nofSupportedGroups (g.nofUnpackedGroups - g.nofSupportedGroups)).foldlM g.leaveGroup bref

variable {g : ExtGroupsUnpackerGuard} {bref : BitRef}

def unknown (g : ExtGroupsUnpackerGuard) : List Bool :=
  (g.groups.drop g.nofSupportedGroups).take (g.nofUnpackedGroups - g.nofSupportedGroups)

def behindGroup (bref : BitRef) : BitRef :=
  let scope := VarlengthFieldUnpackGuard.enter bref false
  scope.bref0.moved (8 * scope.len)

def behind (flags : List Bool) (bref : BitRef) : BitRef :=
  flags.foldl (fun bref present => if present then behindGroup bref else bref) bref

def leaveUnknown (flags : List Bool) (bref : BitRef) : BitRef :=
  flags.foldl (fun bref present =>
    if present then
      let scope := VarlengthFieldUnpackGuard.enter bref false
      scope.leave scope.bref0
    else bref) bref

theorem foldlM_leaveGroup (first count : Nat) (inside : first + count ≤ g.groups.length) (bref : BitRef) :
    (range' first count).foldlM g.leaveGroup bref =
      .ok (leaveUnknown ((g.groups.drop first).take count) bref) := by
  induction count generalizing first bref with
  | zero => rfl
  | succ count ih =>
    have located : g.groups[first]? = some g.groups[first] := List.getElem?_eq_getElem (by omega)
    rw [List.range'_succ, foldlM_cons, drop_eq_getElem_cons (by omega)]
    unfold leaveGroup
    rw [located]
    cases g.groups[first] with
    | false => exact ih (first + 1) (by omega) _
    | true => exact ih (first + 1) (by omega) _

theorem leave_eq (inside : g.nofUnpackedGroups ≤ g.groups.length) (bref : BitRef) :
    g.leave bref = .ok (leaveUnknown g.unknown bref) := by
  unfold leave unknown
  by_cases none : g.nofUnpackedGroups ≤ g.nofSupportedGroups
  · rw [Nat.sub_eq_zero_of_le none]
    rfl
  · exact foldlM_leaveGroup _ _ (by omega) bref

theorem unpackFlags_size (rounds i : Nat) (g : ExtGroupsUnpackerGuard) (bref : BitRef) :
    (unpackFlags rounds i g bref).val.groups.length = g.groups.length ∧
      (unpackFlags rounds i g bref).val.nofUnpackedGroups = g.nofUnpackedGroups := by
  induction rounds generalizing i g bref with
  | zero => exact ⟨rfl, rfl⟩
  | succ rounds ih =>
    rw [unpackFlags]
    split
    · obtain ⟨length, nof⟩ := ih (i + 1) { g with groups := g.groups.set i ((bref.unpack 8 0 1).val ≠ 0) }
        (bref.unpack 8 0 1).bref
      exact ⟨length.trans length_set, nof⟩
    · exact ⟨length_set, rfl⟩

theorem unpack_inside (ok : (g.unpack bref).code = .success) :
    (g.unpack bref).val.nofUnpackedGroups ≤ (g.unpack bref).val.groups.length := by
  dsimp only [unpack] at ok ⊢
  split at ok
  · rename_i count
    rw [if_pos count]
    obtain ⟨length, nof⟩ := unpackFlags_size _ 0 _ _
    rw [length, nof]
    simp only [resize, length_append, length_replicate]
    omega
  · contradiction

def first (g : ExtGroupsUnpackerGuard) (n : Nat) : ExtGroupsUnpackerGuard := { g with nofUnpackedGroups := n }

def LeavesBehind (g : ExtGroupsUnpackerGuard) (bref : BitRef) : Prop :=
  ∀ n ≤ g.nofUnpackedGroups, (g.first n).leave bref = .ok (behind (g.first n).unknown bref)

def GroupsSkip (g : ExtGroupsUnpackerGuard) (bref : BitRef) : Prop :=
  ∀ k, g.unknown[k]? = some true →
    let scope := VarlengthFieldUnpackGuard.enter (behind (g.unknown.take k) bref) false
    scope.Skips scope.bref0

def Announced (g : ExtGroupsUnpackerGuard) (bref : BitRef) : Prop :=
  ∀ k, g.unknown[k]? = some true → (unpackLength 0 (behind (g.unknown.take k) bref) false).code = .success

theorem unknown_first {n : Nat} (le : n ≤ g.nofUnpackedGroups) :
    (g.first n).unknown = g.unknown.take (n - g.nofSupportedGroups) := by
  have shorter : min (n - g.nofSupportedGroups) (g.nofUnpackedGroups - g.nofSupportedGroups) =
      n - g.nofSupportedGroups := by omega
  rw [unknown, unknown, take_take, shorter]
  rfl

theorem leaveGroup_eq_iff (bref : BitRef) :
    let scope := VarlengthFieldUnpackGuard.enter bref false
    scope.leave scope.bref0 = behindGroup bref ↔ scope.Skips scope.bref0 := by
  intro scope
  have short : scope.len < 16384 := unpackLength_val_lt bref false
  have exit := VarlengthFieldUnpackGuard.leave_pos_iff short le_rfl (Nat.le_add_right scope.bref0.pos (8 * scope.len))
  rw [← exit]
  constructor
  · intro same
    rw [same]
    exact moved_pos scope.bref0 (8 * scope.len)
  · intro there
    obtain ⟨k, moved⟩ := unpack_moved 32 0 (scope.leftover scope.bref0) scope.bref0
    refine ext_pos ?_ (there.trans (moved_pos scope.bref0 (8 * scope.len)).symm)
    change (scope.bref0.unpack 32 0 (scope.leftover scope.bref0)).bref.buf = scope.bref0.buf
    rw [moved, moved_buf]

theorem leaveUnknown_eq_iff (flags : List Bool) (bref : BitRef) :
    (∀ k, leaveUnknown (flags.take k) bref = behind (flags.take k) bref) ↔
      ∀ k, flags[k]? = some true →
        let scope := VarlengthFieldUnpackGuard.enter (behind (flags.take k) bref) false
        scope.Skips scope.bref0 := by
  have grow (k : Nat) : leaveUnknown (flags.take k) bref = behind (flags.take k) bref →
      (leaveUnknown (flags.take (k + 1)) bref = behind (flags.take (k + 1)) bref ↔
        (flags[k]? = some true →
          let scope := VarlengthFieldUnpackGuard.enter (behind (flags.take k) bref) false
          scope.Skips scope.bref0)) := by
    intro before
    rw [take_add_one, leaveUnknown, behind, foldl_append, foldl_append]
    change foldl _ (leaveUnknown (flags.take k) bref) _ = foldl _ (behind (flags.take k) bref) _ ↔ _
    rw [before]
    cases flags[k]? with
    | none => simp
    | some present =>
      cases present with
      | false => simp
      | true => simpa using leaveGroup_eq_iff (behind (flags.take k) bref)
  constructor
  · intro agree k
    exact (grow k (agree k)).mp (agree (k + 1))
  · intro skips k
    induction k with
    | zero => rfl
    | succ k ih => exact (grow k ih).mpr (skips k)

theorem leavesBehind_iff (inside : g.nofUnpackedGroups ≤ g.groups.length) (bref : BitRef) :
    g.LeavesBehind bref ↔ g.GroupsSkip bref := by
  have first_eq {n : Nat} (le : n ≤ g.nofUnpackedGroups) : (g.first n).leave bref =
      .ok (leaveUnknown (g.unknown.take (n - g.nofSupportedGroups)) bref) := by
    rw [leave_eq (le.trans inside), unknown_first le]
  rw [GroupsSkip, ← leaveUnknown_eq_iff]
  constructor
  · intro leaves k
    have all : g.unknown.take k =
        g.unknown.take (min (g.nofSupportedGroups + k) g.nofUnpackedGroups - g.nofSupportedGroups) := by
      rw [unknown, take_take, take_take]
      congr 1
      omega
    have le := Nat.min_le_right (g.nofSupportedGroups + k) g.nofUnpackedGroups
    have agree := leaves _ le
    rw [first_eq le, unknown_first le, ← all] at agree
    exact Except.ok.inj agree
  · intro agree n le
    rw [first_eq le, unknown_first le, agree]

theorem behind_octets (announced : g.Announced bref) (k : Nat) :
    ∃ m, behind (g.unknown.take k) bref = bref.moved (8 * m) := by
  induction k with
  | zero => exact ⟨0, (moved_zero bref).symm⟩
  | succ k ih =>
    obtain ⟨m, before⟩ := ih
    rw [take_add_one, behind, foldl_append]
    change ∃ m, foldl _ (behind (g.unknown.take k) bref) _ = _
    cases flag : g.unknown[k]? with
    | none => exact ⟨m, before⟩
    | some present =>
      cases present with
      | false => exact ⟨m, before⟩
      | true =>
        obtain ⟨n, determinant⟩ := unpackLength_octets (announced k flag)
        refine ⟨m + (n + (unpackLength 0 (behind (g.unknown.take k) bref) false).val), ?_⟩
        change (unpackLength 0 (behind (g.unknown.take k) bref) false).bref.moved _ = _
        rw [determinant, before, moved_moved, moved_moved]
        congr 1
        change _ + (_ + 8 * (unpackLength 0 _ false).val) = _
        omega

/-- `other` stands where `bref` does, in the message without the groups there. -/
structure CutsOut (g : ExtGroupsUnpackerGuard) (bref other : BitRef) : Prop where
  pos : other.pos = bref.pos
  rest : other.rest = (behind g.unknown bref).rest
  bits : ∀ i < other.rest, bit other.buf (other.pos + i) =
    bit (behind g.unknown bref).buf ((behind g.unknown bref).pos + i)

theorem CutsOut.sameRest {other : BitRef} (h : g.CutsOut bref other) (announced : g.Announced bref) :
    SameRest (behind g.unknown bref) other := by
  obtain ⟨m, octets⟩ := behind_octets announced g.unknown.length
  rw [take_length] at octets
  have offset : bref.offset = other.offset := by
    have lt := bref.offset_lt
    have lt' := other.offset_lt
    have start := h.pos
    unfold BitRef.pos at start
    omega
  refine ⟨?_, h.rest.symm, fun i lt => (h.bits i (h.rest ▸ lt)).symm⟩
  rw [octets, ← offset]
  change (bref.offset + 8 * m) % 8 = bref.offset
  have lt := bref.offset_lt
  omega

end ExtGroupsUnpackerGuard

theorem openTypes_skipped_iff (bref : BitRef) :
    (∀ (align : Bool) (calls : List Call),
      let scope := VarlengthFieldUnpackGuard.enter bref align
      let left := Call.runs scope.bref0 calls
      left.pos ≤ scope.stop → ((scope.leave left).pos = scope.stop ↔ scope.Skips left)) ∧
    ∀ (nofSupported : Nat) (start : BitRef),
      let r := (ExtGroupsUnpackerGuard.enter nofSupported).unpack start
      r.code = .success →
        (r.val.LeavesBehind bref ↔ r.val.GroupsSkip bref) ∧
        (r.val.GroupsSkip bref → r.val.Announced bref → ∀ other, r.val.CutsOut bref other →
          ∃ out, r.val.leave bref = .ok out ∧ ∀ calls, Call.decoded calls out = Call.decoded calls other) := by
  constructor
  · intro align calls scope left inside
    have short : scope.len < 16384 := unpackLength_val_lt bref align
    obtain ⟨k, moved⟩ := Call.runs_moved calls scope.bref0
    have begun : scope.bref0.pos ≤ left.pos := by
      change _ ≤ (Call.runs scope.bref0 calls).pos
      rw [moved, moved_pos]
      exact Nat.le_add_right _ _
    exact VarlengthFieldUnpackGuard.leave_pos_iff short begun inside
  · intro nofSupported start r ok
    have inside := ExtGroupsUnpackerGuard.unpack_inside ok
    have iff := ExtGroupsUnpackerGuard.leavesBehind_iff inside bref
    refine ⟨iff, fun skips announced other without => ?_⟩
    exact ⟨_, iff.mpr skips _ le_rfl, fun calls => (without.sameRest announced).decoded calls⟩

def shortGroup : BitRef := { buf := [0x01, 0x02, 0xaa, 0xbb, 0xc3], offset_lt := octet_pos }

def noGroup : BitRef := { buf := [0x00, 0xc3], ptr := 1, offset_lt := octet_pos }

theorem openTypes_skipped_shortGroup :
    let r := (ExtGroupsUnpackerGuard.enter 0).unpack shortGroup
    let scope := VarlengthFieldUnpackGuard.enter r.bref false
    let left := Call.runs scope.bref0 [.unpack 8 0 8]
    (scope.leave left).pos = scope.stop ∧ r.val.LeavesBehind r.bref ∧
      ∃ out, r.val.leave r.bref = .ok out ∧ ∀ calls, Call.decoded calls out = Call.decoded calls noGroup := by
  intro r scope left
  have skips : r.val.GroupsSkip r.bref := by
    intro k present
    cases k with
    | zero => exact ⟨by decide, by decide⟩
    | succ k => simp [show r.val.unknown = [true] by decide] at present
  have announced : r.val.Announced r.bref := by
    intro k present
    cases k with
    | zero => decide
    | succ k => simp [show r.val.unknown = [true] by decide] at present
  have groups := (openTypes_skipped_iff r.bref).2 0 shortGroup (by decide)
  have leaves := ((openTypes_skipped_iff r.bref).1 false [.unpack 8 0 8] (by decide)).mpr
    ⟨by decide, by decide⟩
  exact ⟨leaves, groups.1.mpr skips, groups.2 skips announced noGroup ⟨by decide, by decide, by decide⟩⟩

theorem longGroup_not_skipped :
    let r := (ExtGroupsUnpackerGuard.enter 0).unpack { buf := [0x01, 0x05, 1, 2, 3, 4, 5, 0xc3] }
    let scope := VarlengthFieldUnpackGuard.enter r.bref false
    r.code = .success ∧ scope.len = 5 ∧ (scope.leave scope.bref0).pos ≠ scope.stop ∧
      r.val.leave r.bref ≠ .ok (ExtGroupsUnpackerGuard.behind r.val.unknown r.bref) ∧
      Call.decoded [.unpack 8 0 8] (scope.leave scope.bref0) = [(.success, [1])] ∧
      Call.decoded [.unpack 8 0 8] (ExtGroupsUnpackerGuard.behind r.val.unknown r.bref) = [(.success, [0xc3])] := by
  decide

end IsrRan.Asn1
