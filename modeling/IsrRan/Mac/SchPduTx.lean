import IsrRan.Mac.SchPduFormat

namespace IsrRan.Mac.Lte.Pdu
open List SchPdu

section
variable {α β γ : Type} {R : α → β → Prop}

variable {l : List α} {m : List β}

section
variable (related : List.Forall₂ R l m)
include related

theorem map_eq_of_forall₂ {f : α → γ} {g : β → γ}
    (same : ∀ a b, R a b → f a = g b) : l.map f = m.map g := by
  induction related with
  | nil => rfl
  | cons head _ ih => rw [map_cons, map_cons, same _ _ head, ih]

theorem forall₂_and {P : β → Prop} (all : ∀ b ∈ m, P b) :
    List.Forall₂ (fun a b => R a b ∧ P b) l m := by
  induction related with
  | nil => exact .nil
  | cons head _ ih => exact .cons ⟨head, all _ mem_cons_self⟩ (ih fun b mem => all b (mem_cons_of_mem _ mem))

theorem zipIdx_map_eq_of_forall₂ {f : α → Nat → γ}
    {g : β → Nat → γ} (same : ∀ a b i, R a b → f a i = g b i) (start : Nat) :
    (l.zipIdx start).map (fun (a, i) => f a i) = (m.zipIdx start).map (fun (b, i) => g b i) := by
  induction related generalizing start with
  | nil => rfl
  | cons head _ ih => simp only [zipIdx_cons, map_cons, same _ _ _ head, ih]

end

theorem zipIdx_map_flag (f : α → Bool → β) {flag : Nat → Bool} (l : List α) (start : Nat)
    (off : ∀ i, start ≤ i → i < start + l.length → flag i = false) :
    (l.zipIdx start).map (fun (a, i) => f a (flag i)) = l.map (f · false) := by
  induction l generalizing start with
  | nil => rfl
  | cons a rest ih =>
    have head := off start (by omega) (by simp)
    have tail := ih (start + 1) fun i low high => off i (by omega) (by simp only [length_cons]; omega)
    simp only [zipIdx_cons, map_cons, head, tail]

theorem zipIdx_map_one (f : α → Bool → β) {flag : Nat → Bool} (before after : List α) (a : α)
    (one : ∀ i, flag i = decide (i = before.length)) :
    ((before ++ a :: after).zipIdx).map (fun (a, i) => f a (flag i)) =
      before.map (f · false) ++ f a true :: after.map (f · false) := by
  have front := @zipIdx_map_flag _ _ f flag before 0 fun i _ below => by
    rw [one i]
    simp
    omega
  have back := @zipIdx_map_flag _ _ f flag after (before.length + 1) fun i above _ => by
    rw [one i]
    simp
    omega
  simp only [zipIdx_append, map_append, zipIdx_cons, map_cons, Nat.zero_add, front, back,
    one before.length, decide_true]

theorem sum_map_filter (keep : α → Bool) (f : α → Nat) (l : List α) :
    (l.map f).sum = ((l.filter fun a => !keep a).map f).sum + ((l.filter keep).map f).sum := by
  induction l with
  | nil => rfl
  | cons a rest ih =>
    cases kept : keep a with
    | false =>
      simp only [map_cons, sum_cons, kept, Bool.not_false, filter_cons_of_pos, Bool.false_eq_true,
        not_false_eq_true, filter_cons_of_neg]
      omega
    | true =>
      simp only [map_cons, sum_cons, kept, Bool.not_true, Bool.false_eq_true, not_false_eq_true,
        filter_cons_of_neg, filter_cons_of_pos]
      omega

theorem flatMap_unless (skip : α → Bool) (f : α → List β) (l : List α) :
    (l.flatMap fun a => if skip a then [] else f a) = (l.filter fun a => !skip a).flatMap f := by
  induction l with
  | nil => rfl
  | cons a rest ih =>
    cases skipped : skip a <;> simp [skipped, ih]

end

structure Describes (kind : Kind) (s : SchSubh) (e : Element) : Prop where
  lcid : s.lcid = e.lcid
  nofBytes : s.nofBytes = e.body.length
  payload : isSdu kind e.lcid = false → s.writePayload kind = e.body

def LastSdu (kind : Kind) (elements : List Element) : Option Nat → Prop
  | none => ∀ e ∈ elements, isSdu kind e.lcid = false
  | some i => ∃ before e after, elements = before ++ e :: after ∧ i = before.length ∧ isSdu kind e.lcid = true ∧
      ∀ e' ∈ after, isSdu kind e'.lcid = false

def controlElements (kind : Kind) (elements : List Element) : List Element :=
  elements.filter fun e => !isSdu kind e.lcid

def sdus (kind : Kind) (elements : List Element) : List Element := elements.filter fun e => isSdu kind e.lcid

theorem controlElements_append (kind : Kind) (a b : List Element) :
    controlElements kind (a ++ b) = controlElements kind a ++ controlElements kind b := filter_append ..

theorem sdus_append (kind : Kind) (a b : List Element) : sdus kind (a ++ b) = sdus kind a ++ sdus kind b :=
  filter_append ..

theorem onlySdus {kind : Kind} {l : List Element} (all : ∀ e ∈ l, isSdu kind e.lcid = true) :
    sdus kind l = l ∧ controlElements kind l = [] := by
  refine ⟨List.filter_eq_self.mpr all, List.filter_eq_nil_iff.mpr ?_⟩
  intro e mem
  simp [all e mem]

theorem onlyCes {kind : Kind} {l : List Element} (all : ∀ e ∈ l, isSdu kind e.lcid = false) :
    sdus kind l = [] ∧ controlElements kind l = l := by
  constructor
  · apply List.filter_eq_nil_iff.mpr
    intro e mem
    simp [all e mem]
  · apply List.filter_eq_self.mpr
    intro e mem
    simp [all e mem]

def Element.size (kind : Kind) (e : Element) : Nat := (e.header kind false).length + e.body.length

/-- The PDU under construction has the elements, in the order of their insertion, and what is left of it is
counted as if the SDU at `last_sdu_idx` were to stay the last. -/
structure Counted (p : SchPdu) (elements : List Element) : Prop where
  subheaders : List.Forall₂ (Describes p.kind) p.subheaders elements
  hasLength : ∀ e ∈ elements, e.HasLength p.kind
  sduAt : ∀ i, p.lastSduIdx = some i →
    ∃ before e after, elements = before ++ e :: after ∧ i = before.length ∧ isSdu p.kind e.lcid = true
  msg : p.buffer.msg = (sdus p.kind elements).flatMap (·.body)
  rem : p.remLen + (elements.map (·.size p.kind)).sum = p.pduLen + p.lastSduExtension

structure Holds (p : SchPdu) (elements : List Element) : Prop extends Counted p elements where
  lastSdu : LastSdu p.kind elements p.lastSduIdx

section
variable {kind : Kind} {s : SchSubh} {e : Element}

theorem Describes.writeSubheader (describes : Describes kind s e) (isLast : Bool) :
    s.writeSubheader kind isLast = e.header kind isLast := by
  simp only [Element.header, SchSubh.writeSubheader, describes.lcid, describes.nofBytes]

theorem Describes.getHeaderSize (describes : Describes kind s e) (has : e.HasLength kind) (isLast : Bool) :
    s.getHeaderSize kind isLast = (e.header kind isLast).length := by
  unfold SchSubh.getHeaderSize Element.header SchSubh.writeSubheader
  simp only [describes.lcid, describes.nofBytes]
  cases isLast with
  | true => simp
  | false =>
    cases field : hasLengthField kind e.lcid with
    | false => simp
    | true =>
      have := has.field field
      unfold sizeHeaderSdu
      by_cases long : 128 ≤ e.body.length
      · simp [long, show e.body.length ≠ 0 by omega]
      · simp [long, show e.body.length ≠ 0 by omega]

theorem header_length_sdu (has : e.HasLength kind) (isSdu_ : isSdu kind e.lcid = true) :
    (e.header kind false).length = 1 + (sizeHeaderSdu e.body.length - 1) ∧ 2 ≤ sizeHeaderSdu e.body.length := by
  have field : hasLengthField kind e.lcid = true := by simp [hasLengthField, isSdu_]
  have := has.field field
  unfold Element.header SchSubh.writeSubheader sizeHeaderSdu
  by_cases short : e.body.length < 128
  · simp [field, short, show e.body.length ≠ 0 by omega, show ¬ 128 ≤ e.body.length by omega]
  · simp [field, short, show e.body.length ≠ 0 by omega, show 128 ≤ e.body.length by omega]

end

/-! The operations keep the elements. -/

def ceSubh (lcid : Nat) (bytes : List Byte) : SchSubh :=
  { lcid, nofBytes := bytes.length, wPayloadCe := bytes ++ (List.replicate 64 0).drop bytes.length }

section
variable {p q : SchPdu} {elements : List Element}

variable {kind : Kind} {idx : Option Nat} {e : Element}

theorem newSubh_eq_some : p.newSubh = some q ↔
    (p.subheaders.length + 1 < p.maxSubheaders ∧ 2 ≤ p.remLen ∧ 1 < p.buffer.headroom) ∧
      { p with subheaders := p.subheaders ++ [{}] } = q := by
  unfold SchPdu.newSubh
  by_cases room : p.subheaders.length + 1 < p.maxSubheaders ∧ 2 ≤ p.remLen ∧ 1 < p.buffer.headroom
  · simp
  · simp

theorem delSubh_newSubh (opened : p.newSubh = some q) : q.delSubh = p := by
  obtain ⟨-, rfl⟩ := newSubh_eq_some.mp opened
  simp [delSubh]

theorem setCe_newSubh (opened : p.newSubh = some q) (lcid : Nat) (bytes : List Byte) :
    q.setCe lcid bytes =
      if bytes.length + 1 ≤ p.remLen then
        some { p with
          subheaders := p.subheaders ++ [ceSubh lcid bytes]
          remLen := p.remLen - (bytes.length + 1) }
      else none := by
  obtain ⟨-, rfl⟩ := newSubh_eq_some.mp opened
  unfold SchPdu.setCe hasSpaceCe
  by_cases fits : bytes.length + 1 ≤ p.remLen
  · simp [setCurrent, SchPdu.get, SchSubh.writeCe, ceSubh]
  · simp [fits]

theorem LastSdu.sduAt (last : LastSdu kind elements idx) : ∀ i, idx = some i →
    ∃ before e after, elements = before ++ e :: after ∧ i = before.length ∧ isSdu kind e.lcid = true := by
  rintro i rfl
  obtain ⟨before, e, after, split, at_, isSdu_, -⟩ := last
  exact ⟨before, e, after, split, at_, isSdu_⟩

theorem Counted.index_lt (holds : Counted p elements) {i : Nat} (idx : p.lastSduIdx = some i) :
    i < p.subheaders.length := by
  obtain ⟨before, e, after, split, rfl, -⟩ := holds.sduAt i idx
  rw [holds.subheaders.length_eq, split]
  simp

theorem Counted.lastSduExtension_eq (holds : Counted p elements) {before after : List Element}
    (split : elements = before ++ e :: after) (idx : p.lastSduIdx = some before.length) :
    p.lastSduExtension = sizeHeaderSdu e.body.length - 1 := by
  have sizes := map_eq_of_forall₂ holds.subheaders fun s e describes => describes.nofBytes
  have here : (p.subheaders.map (·.nofBytes))[before.length]? = some e.body.length := by
    rw [sizes, split]
    simp
  rw [List.getElem?_map, Option.map_eq_some_iff] at here
  obtain ⟨s, found, size⟩ := here
  simp [lastSduExtension, idx, found, size]

theorem Counted.lastSduExtension_append (holds : Counted p elements) {r : SchPdu} {more : List SchSubh}
    (idx : r.lastSduIdx = p.lastSduIdx) (subheaders : r.subheaders = p.subheaders ++ more) :
    r.lastSduExtension = p.lastSduExtension := by
  unfold lastSduExtension
  rw [idx, subheaders]
  cases found : p.lastSduIdx with
  | none => rfl
  | some i =>
    have := holds.index_lt found
    simp [List.getElem?_append_left this]

theorem addSdu_newSubh (opened : p.newSubh = some q) (holds : Counted p elements) (lcid : Nat) (bytes : List Byte) :
    q.addSdu lcid bytes = { p with
      subheaders := p.subheaders ++ [{ lcid, nofBytes := bytes.length }]
      remLen := p.remLen - (bytes.length + 1 + p.lastSduExtension)
      lastSduIdx := some p.subheaders.length
      buffer := { p.buffer with msg := p.buffer.msg ++ bytes } } := by
  obtain ⟨-, rfl⟩ := newSubh_eq_some.mp opened
  have extension := @Counted.lastSduExtension_append p elements holds { p with subheaders := p.subheaders ++ [{}] } [{}]
  simp only [SchPdu.addSdu, extension, setCurrent, SchPdu.get, getCurrentIdx]
  simp

theorem LastSdu.append_ce (last : LastSdu kind elements idx)
    (notSdu : isSdu kind e.lcid = false) : LastSdu kind (elements ++ [e]) idx := by
  cases idx with
  | none =>
    intro e' mem
    rcases List.mem_append.mp mem with old | new
    · exact last e' old
    · rw [List.mem_singleton.mp new]
      exact notSdu
  | some i =>
    obtain ⟨before, sdu, after, split, at_, isSdu_, noMore⟩ := last
    refine ⟨before, sdu, after ++ [e], by simp [split], at_, isSdu_, ?_⟩
    intro e' mem
    rcases List.mem_append.mp mem with old | new
    · exact noMore e' old
    · rw [List.mem_singleton.mp new]
      exact notSdu

theorem Counted.append {r : SchPdu} {s : SchSubh} (holds : Counted p elements) (same : r.kind = p.kind)
    (subheaders : r.subheaders = p.subheaders ++ [s]) (describes : Describes p.kind s e) (has : e.HasLength p.kind)
    (idx : r.lastSduIdx = p.lastSduIdx ∨ r.lastSduIdx = some p.subheaders.length ∧ isSdu p.kind e.lcid = true)
    (msg : r.buffer.msg = p.buffer.msg ++ if isSdu p.kind e.lcid then e.body else [])
    (rem : r.remLen + e.size p.kind + p.pduLen + p.lastSduExtension = p.remLen + r.pduLen + r.lastSduExtension) :
    Counted r (elements ++ [e]) := by
  obtain ⟨subheaders', hasLength, sduAt, msg', rem'⟩ := holds
  refine ⟨?_, ?_, ?_, ?_, ?_⟩
  · rw [same, subheaders]
    exact rel_append subheaders' (.cons describes .nil)
  · intro e' mem
    rw [same]
    rcases List.mem_append.mp mem with old | new
    · exact hasLength e' old
    · rw [List.mem_singleton.mp new]
      exact has
  · intro i at_
    rw [same]
    rcases idx with kept | ⟨newest, isSdu_⟩
    · obtain ⟨before, e', after, split, place, isSdu_⟩ := sduAt i (kept ▸ at_)
      exact ⟨before, e', after ++ [e], by simp [split], place, isSdu_⟩
    · exact ⟨elements, e, [], rfl, by rw [← Option.some.inj (newest.symm.trans at_), subheaders'.length_eq], isSdu_⟩
  · rw [msg, msg', same]
    cases isSdu_ : isSdu p.kind e.lcid <;> simp [sdus, isSdu_]
  · rw [same, map_append, map_singleton, sum_append, sum_singleton]
    omega

theorem Element.size_of_noLength (noLength : hasLengthField kind e.lcid = false) : e.size kind = e.body.length + 1 := by
  simp only [Element.size, Element.header, SchSubh.writeSubheader, noLength]
  simp
  omega

theorem Element.size_of_sdu (has : e.HasLength kind) (isSdu_ : isSdu kind e.lcid = true) :
    e.size kind = sizeHeaderSdu e.body.length + e.body.length ∧ 2 ≤ sizeHeaderSdu e.body.length := by
  obtain ⟨head, two⟩ := header_length_sdu has isSdu_
  unfold Element.size
  exact ⟨by omega, two⟩

theorem sdu_hasLength {lcid : Nat} {bytes : List Byte} (isSdu_ : isSdu kind lcid = true) (lcidBound : lcid < 32)
    (some_ : 0 < bytes.length) (short : bytes.length < 32768) : Element.HasLength kind ⟨lcid, bytes⟩ := by
  have field : hasLengthField kind lcid = true := by simp [hasLengthField, isSdu_]
  exact ⟨lcidBound, fun _ => ⟨some_, short⟩, fun noField => by simp [field] at noField⟩

theorem Counted.setCe (holds : Counted p elements) {lcid : Nat} {bytes : List Byte} (fits : bytes.length + 1 ≤ p.remLen)
    (lcidBound : lcid < 32) (noLength : hasLengthField p.kind lcid = false)
    (size : bytes.length = sizeofCe p.kind lcid 0) :
    Counted { p with
      subheaders := p.subheaders ++ [ceSubh lcid bytes]
      remLen := p.remLen - (bytes.length + 1) } (elements ++ [⟨lcid, bytes⟩]) := by
  have notSdu : isSdu p.kind lcid = false := (Bool.or_eq_false_iff.mp noLength).1
  refine holds.append rfl rfl ⟨rfl, rfl, fun _ => ?_⟩ ⟨lcidBound, fun field => by simp [noLength] at field, fun _ => size⟩
    (.inl rfl) (by simp [notSdu]) ?_
  · have taken : (ceSubh lcid bytes).writePayload p.kind =
        (bytes ++ (List.replicate 64 0).drop bytes.length).take (sizeofCe p.kind lcid 0) := rfl
    rw [taken, ← size, take_left]
  · rw [@Counted.lastSduExtension_append p elements holds { p with
      subheaders := p.subheaders ++ [ceSubh lcid bytes]
      remLen := p.remLen - (bytes.length + 1) } [ceSubh lcid bytes] rfl rfl, Element.size_of_noLength noLength]
    dsimp only
    omega

theorem Holds.setCe (holds : Holds p elements) {lcid : Nat} {bytes : List Byte} (fits : bytes.length + 1 ≤ p.remLen)
    (lcidBound : lcid < 32) (noLength : hasLengthField p.kind lcid = false)
    (size : bytes.length = sizeofCe p.kind lcid 0) :
    Holds { p with
      subheaders := p.subheaders ++ [ceSubh lcid bytes]
      remLen := p.remLen - (bytes.length + 1) } (elements ++ [⟨lcid, bytes⟩]) :=
  ⟨holds.toCounted.setCe fits lcidBound noLength size, holds.lastSdu.append_ce (Bool.or_eq_false_iff.mp noLength).1⟩

theorem Counted.addSdu (holds : Counted p elements) {lcid : Nat} {bytes : List Byte} (isSdu_ : isSdu p.kind lcid = true)
    (lcidBound : lcid < 32) (some_ : 0 < bytes.length) (short : bytes.length < 32768)
    (fits : bytes.length + 1 + p.lastSduExtension ≤ p.remLen) :
    Holds { p with
      subheaders := p.subheaders ++ [{ lcid, nofBytes := bytes.length }]
      remLen := p.remLen - (bytes.length + 1 + p.lastSduExtension)
      lastSduIdx := some p.subheaders.length
      buffer := { p.buffer with msg := p.buffer.msg ++ bytes } } (elements ++ [⟨lcid, bytes⟩]) := by
  have last : LastSdu p.kind (elements ++ [⟨lcid, bytes⟩]) (some p.subheaders.length) :=
    ⟨elements, ⟨lcid, bytes⟩, [], rfl, holds.subheaders.length_eq, isSdu_, by simp⟩
  have has := sdu_hasLength isSdu_ lcidBound some_ short
  obtain ⟨size, two⟩ := Element.size_of_sdu has isSdu_
  refine ⟨holds.append rfl rfl ⟨rfl, rfl, fun notSdu => by simp [isSdu_] at notSdu⟩ has (.inr ⟨rfl, isSdu_⟩)
    (by simp [isSdu_]) ?_, last⟩
  have own : lastSduExtension { p with
      subheaders := p.subheaders ++ [{ lcid, nofBytes := bytes.length }]
      remLen := p.remLen - (bytes.length + 1 + p.lastSduExtension)
      lastSduIdx := some p.subheaders.length
      buffer := { p.buffer with msg := p.buffer.msg ++ bytes } } = sizeHeaderSdu bytes.length - 1 := by
    simp [lastSduExtension]
  rw [own, size]
  dsimp only at two ⊢
  omega

theorem forall₂_modify {α β : Type} {R : α → β → Prop} {f : α → α} {b b' : β} (changed : ∀ a, R a b → R (f a) b')
    {l : List α} {front back : List β} (related : List.Forall₂ R l (front ++ b :: back)) :
    List.Forall₂ R (l.modify front.length f) (front ++ b' :: back) := by
  induction front generalizing l with
  | nil =>
    cases related with
    | cons head tail => exact .cons (changed _ head) tail
  | cons c front ih =>
    cases related with
    | cons head tail => exact .cons head (ih tail)

theorem LastSdu.of_lcids {elements' : List Element} (last : LastSdu kind elements idx)
    (same : elements'.map (·.lcid) = elements.map (·.lcid)) : LastSdu kind elements' idx := by
  have none_ : ∀ l l' : List Element, l'.map (·.lcid) = l.map (·.lcid) →
      (∀ e ∈ l, isSdu kind e.lcid = false) → ∀ e ∈ l', isSdu kind e.lcid = false := by
    intro l l' lcids noSdu e mem
    have : e.lcid ∈ l.map (·.lcid) := by
      rw [← lcids]
      exact mem_map_of_mem mem
    obtain ⟨e', mem', lcid⟩ := List.mem_map.mp this
    rw [← lcid]
    exact noSdu e' mem'
  cases idx with
  | none => exact none_ _ _ same last
  | some i =>
    obtain ⟨before, e, after, rfl, rfl, isSdu_, noMore⟩ := last
    rw [map_append] at same
    obtain ⟨before', tail, rfl, beforeLcids, tailLcids⟩ := List.map_eq_append_iff.mp same
    obtain ⟨e', after', rfl, lcid, afterLcids⟩ := List.map_eq_cons_iff.mp tailLcids
    have sameLength : before'.length = before.length := by
      simpa using congrArg List.length beforeLcids
    exact ⟨before', e', after', rfl, sameLength.symm, by rw [lcid]; exact isSdu_, none_ _ _ afterLcids noMore⟩

theorem sizeofCe_eq_zero {lcid : Nat} (noLength : hasLengthField kind lcid = false) (n : Nat) :
    sizeofCe kind lcid n = sizeofCe kind lcid 0 := by
  cases kind with
  | dlSch => rfl
  | ulSch => rfl
  | mch =>
    have : lcid ≠ Lcid.mchSchedInfo := by
      intro same
      simp [hasLengthField, isVarLenCe, same] at noLength
    simp [sizeofCe, this]

theorem Holds.updateCe {front back : List Element} (holds : Holds p (front ++ e :: back))
    (noLength : hasLengthField p.kind e.lcid = false) {bytes : List Byte} (size : bytes.length = e.body.length) :
    Holds { p with subheaders := p.subheaders.modify front.length fun s => s.writeCe bytes }
      (front ++ ⟨e.lcid, bytes⟩ :: back) := by
  obtain ⟨⟨subheaders, hasLength, -, msg, rem⟩, lastSdu⟩ := holds
  have same : LastSdu p.kind (front ++ ⟨e.lcid, bytes⟩ :: back) p.lastSduIdx := lastSdu.of_lcids (by simp)
  have notSdu : isSdu p.kind e.lcid = false := by
    exact (Bool.or_eq_false_iff.mp noLength).1
  have old := hasLength e (by simp)
  have head : Element.size p.kind ⟨e.lcid, bytes⟩ = e.size p.kind := by
    simp only [Element.size, Element.header, size]
  refine ⟨⟨?_, ?_, same.sduAt, ?_, ?_⟩, same⟩
  · apply forall₂_modify ?_ subheaders
    intro s describes
    refine ⟨describes.lcid, describes.nofBytes.trans size.symm, fun _ => ?_⟩
    have fixed : sizeofCe p.kind (s.writeCe bytes).lcid (s.writeCe bytes).nofMchSchedCe = bytes.length := by
      rw [size, old.fixed noLength, ← sizeofCe_eq_zero noLength (s.writeCe bytes).nofMchSchedCe]
      exact congrArg (sizeofCe p.kind · _) describes.lcid
    rw [SchSubh.writePayload, fixed]
    exact take_left
  · intro e' mem
    rcases List.mem_append.mp mem with before | later
    · exact hasLength e' (by simp [before])
    · rcases List.mem_cons.mp later with rfl | after
      · exact ⟨old.lcid, by dsimp only; rw [size]; exact old.field, by dsimp only; rw [size]; exact old.fixed⟩
      · exact hasLength e' (by simp [after])
  · simpa [sdus, notSdu] using msg
  · have extension : lastSduExtension { p with
        subheaders := p.subheaders.modify front.length fun s => s.writeCe bytes } = p.lastSduExtension := by
      unfold lastSduExtension
      cases p.lastSduIdx with
      | none => rfl
      | some i =>
        simp only [getD_eq_getElem?_getD, List.getElem?_modify]
        cases p.subheaders[i]? with
        | none => rfl
        | some s =>
          by_cases here : front.length = i
          · simp [here, SchSubh.writeCe]
          · simp [here]
    rw [extension]
    simp only [map_append, map_cons, head] at rem ⊢
    exact rem

end

end IsrRan.Mac.Lte.Pdu
