import IsrRan.Mac.SchPduPacket

/-! `new_subh` with what is put behind it, on any of the three channels. -/

namespace IsrRan.Mac.Lte.Pdu
open List UInt8 SchPdu

def maxCarriers : Nat := 5

def mtchStopEmpty : Nat := 0b11111111111

def scellActivationOctet (activeScellIdxs : Nat → Bool) : Nat :=
  ((range' 1 (maxCarriers - 1)).map fun i => if activeScellIdxs i then 2 ^ i else 0).sum

def conResIdBytes (conResId : Nat) : List Byte := [40, 32, 24, 16, 8, 0].map fun bit => UInt8.ofNat (conResId / 2 ^ bit)

def mchSchedBytes (lcid mtchStop : Nat) : List Byte :=
  let mtchStopCe := if mtchStop = 0 then mtchStopEmpty else mtchStop
  [UInt8.ofNat (lcid % 32 * 8 + mtchStopCe / 256 % 8), UInt8.ofNat mtchStopCe]

def schedBytes (entries : List (Nat × Nat)) : List Byte :=
  entries.flatMap fun (lcid, mtchStop) => mchSchedBytes lcid mtchStop

namespace SchPdu
variable (p : SchPdu)

def setConResId (conResId : Nat) : Option SchPdu := p.setCe Lcid.conResId (conResIdBytes conResId)

def setTaCmd (taCmd : Nat) : Option SchPdu := p.setCe Lcid.taCmd [UInt8.ofNat (taCmd % 64)]

def setScellActivationCmd (activeScellIdxs : Nat → Bool) : Option SchPdu :=
  p.setCe Lcid.scellActivation [UInt8.ofNat (scellActivationOctet activeScellIdxs)]

def hasSpaceVarLenCe (nbytes : Nat) : Bool := nbytes + sizeHeaderSdu nbytes ≤ p.remLen

def setNextMchSchedInfo (lcid mtchStop : Nat) : Except Fault (Option SchPdu) :=
  if p.hasSpaceVarLenCe 2 then
    if 64 < p.get.nofMchSchedCe * 2 + 2 then .error .undefinedBehaviour
    else .ok (some { p.setCurrent { p.get with
        wPayloadCe := p.get.wPayloadCe.take (p.get.nofMchSchedCe * 2) ++ mchSchedBytes lcid mtchStop ++
          p.get.wPayloadCe.drop (p.get.nofMchSchedCe * 2 + 2)
        nofMchSchedCe := p.get.nofMchSchedCe + 1
        lcid := Lcid.mchSchedInfo
        nofBytes := p.get.nofBytes + 2 } with
      remLen := p.remLen - (2 + sizeHeaderSdu 2) })
  else .ok none

def setMchSchedInfo (p : SchPdu) : List (Nat × Nat) → Except Fault (SchPdu × List (Nat × Nat))
  | [] => .ok (p, [])
  | (lcid, mtchStop) :: more => do
    match ← p.setNextMchSchedInfo lcid mtchStop with
    | none => return (p, [])
    | some q =>
      let (q, taken) ← q.setMchSchedInfo more
      return (q, (lcid, mtchStop) :: taken)

def updateSpaceSdu (nbytes : Nat) : SchPdu :=
  if p.hasSpaceSdu nbytes then { p with
    remLen := p.remLen - (nbytes + 1 + p.lastSduExtension)
    lastSduIdx := some p.getCurrentIdx }
  else p

/-- `set_sdu` of a payload in memory, which adds the SDU to the buffer before it takes its space. -/
def setSduPayload (lcid : Nat) (payload : List Byte) : Option SchPdu :=
  if p.hasSpaceSdu payload.length then
    let q := { p.setCurrent { p.get with lcid } with buffer := { p.buffer with msg := p.buffer.msg ++ payload } }
    let q := q.updateSpaceSdu payload.length
    some (q.setCurrent { q.get with nofBytes := payload.length })
  else none

end SchPdu

def readPduAnswer (bytes : List Byte) : RlcInterfaceMac Unit := ⟨fun _ _ => bytes.length, fun _ _ _ => (bytes, ())⟩

inductive ControlElement where
  | cRnti (crnti : Nat)
  | phr (phrValue : ℚ)
  | bsr (buffSize : BuffSize) (format : BsrFormat)
  | conResId (identity : Nat)
  | taCmd (command : Nat)
  | scellActivation (activeScellIdxs : Nat → Bool)

namespace ControlElement

def kind : ControlElement → Kind
  | .cRnti _ | .phr _ | .bsr _ _ => .ulSch
  | .conResId _ | .taCmd _ | .scellActivation _ => .dlSch

def element : ControlElement → Element
  | .cRnti crnti => ⟨Lcid.crnti, [UInt8.ofNat (crnti / 256), UInt8.ofNat crnti]⟩
  | .phr phrValue => ⟨Lcid.phrReport, [UInt8.ofNat (phrReportTable phrValue % 64)]⟩
  | .bsr buffSize format => ⟨format.lcid, bsrBytes buffSize format⟩
  | .conResId identity => ⟨Lcid.conResId, conResIdBytes identity⟩
  | .taCmd command => ⟨Lcid.taCmd, [UInt8.ofNat (command % 64)]⟩
  | .scellActivation activeScellIdxs =>
    ⟨Lcid.scellActivation, [UInt8.ofNat (scellActivationOctet activeScellIdxs)]⟩

def set (p : SchPdu) : ControlElement → Option SchPdu
  | .cRnti crnti => p.setCRnti crnti
  | .phr phrValue => p.setPhr phrValue
  | .bsr buffSize format => p.setBsr buffSize format
  | .conResId identity => p.setConResId identity
  | .taCmd command => p.setTaCmd command
  | .scellActivation activeScellIdxs => p.setScellActivationCmd activeScellIdxs

theorem set_eq (ce : ControlElement) (p : SchPdu) : ce.set p = p.setCe ce.element.lcid ce.element.body := by
  cases ce <;> rfl

theorem fixed (ce : ControlElement) : ce.element.lcid < Lcid.padding ∧
    hasLengthField ce.kind ce.element.lcid = false ∧
    ce.element.body.length = sizeofCe ce.kind ce.element.lcid 0 := by
  cases ce with
  | cRnti crnti => exact ⟨(by decide : Lcid.crnti < Lcid.padding), rfl, rfl⟩
  | phr phrValue => exact ⟨(by decide : Lcid.phrReport < Lcid.padding), rfl, rfl⟩
  | bsr buffSize format =>
    cases format with
    | longBsr => exact ⟨(by decide : Lcid.longBsr < Lcid.padding), rfl, rfl⟩
    | shortBsr => exact ⟨(by decide : Lcid.shortBsr < Lcid.padding), rfl, rfl⟩
    | truncBsr => exact ⟨(by decide : Lcid.truncBsr < Lcid.padding), rfl, rfl⟩
  | conResId identity => exact ⟨(by decide : Lcid.conResId < Lcid.padding), rfl, rfl⟩
  | taCmd command => exact ⟨(by decide : Lcid.taCmd < Lcid.padding), rfl, rfl⟩
  | scellActivation activeScellIdxs => exact ⟨(by decide : Lcid.scellActivation < Lcid.padding), rfl, rfl⟩

end ControlElement

inductive Insertion where
  | ce (control : ControlElement)
  | mchSchedInfo (entries : List (Nat × Nat))
  | sdu (lcid requestedBytes : Nat) (answer : List Byte)
  | sduPayload (lcid : Nat) (payload : List Byte)

namespace Insertion

def set (p : SchPdu) : Insertion → Except Fault (Option (SchPdu × Element))
  | .ce control => .ok ((control.set p).map fun q => (q, control.element))
  | .mchSchedInfo entries => do
    let (q, taken) ← p.setMchSchedInfo entries
    return if taken = [] then none
      else some (q, ⟨Lcid.mchSchedInfo, schedBytes taken⟩)
  | .sdu lcid requestedBytes answer =>
    .ok ((p.setSdu (readPduAnswer answer) () lcid requestedBytes).1.map fun (q, _) => (q, ⟨lcid, answer⟩))
  | .sduPayload lcid payload => .ok ((p.setSduPayload lcid payload).map fun q => (q, ⟨lcid, payload⟩))

def Legal (kind : Kind) : Insertion → Prop
  | .ce control => control.kind = kind
  | .mchSchedInfo _ => kind = .mch
  | .sdu lcid _ answer => isSdu kind lcid = true ∧ answer.length < 32768
  | .sduPayload lcid payload => isSdu kind lcid = true ∧ 0 < payload.length ∧ payload.length < 32768

/-- What `update_space_sdu` does not charge: it asks for the tailroom once more after `add_sdu`. -/
def uncharged (p : SchPdu) : Insertion → Nat
  | .sduPayload _ payload =>
    if p.buffer.getTailroom < 2 * payload.length then sizeHeaderSdu payload.length + payload.length else 0
  | _ => 0

end Insertion

structure Assembly where
  pdu : SchPdu
  elements : List Element := []
  uncharged : Nat := 0

def insertSubh (s : Assembly) (insertion : Insertion) : Except Fault Assembly :=
  match s.pdu.newSubh with
  | none => .ok s
  | some q => do
    match ← insertion.set q with
    | none => return { s with pdu := q.delSubh }
    | some (q, element) => return ⟨q, s.elements ++ [element], s.uncharged + insertion.uncharged s.pdu⟩

def insertSubhs (s : Assembly) (insertions : List Insertion) : Except Fault Assembly := insertions.foldlM insertSubh s

/-- The headers and control elements fit in front of the SDUs, and behind them what is left of `pdu_len`. -/
def EnoughRoom (p : SchPdu) (elements : List Element) : Prop :=
  p.headerSz + p.cePayloadSz ≤ p.buffer.headroom ∧
    p.pduLen ≤ (elements.map (·.size p.kind)).sum + 1 + p.buffer.getTailroom

/-! What an insertion leaves -/

def Element.waste (kind : Kind) (e : Element) : Nat := if isVarLenCe kind e.lcid then e.body.length - 2 else 0

def waste (kind : Kind) (elements : List Element) : Nat := (elements.map (·.waste kind)).sum

@[simp] theorem waste_append (kind : Kind) (a b : List Element) : waste kind (a ++ b) = waste kind a + waste kind b := by
  unfold waste
  rw [map_append, sum_append]

theorem waste_singleton (kind : Kind) (e : Element) : waste kind [e] = e.waste kind := by
  simp [waste]

theorem Element.waste_of_noLength {kind : Kind} {e : Element} (noLength : isVarLenCe kind e.lcid = false) :
    e.waste kind = 0 := by
  simp [Element.waste, noLength]

section
variable {p q : SchPdu} {elements : List Element}

theorem newSubh_withLen (opened : p.newSubh = some q) (len : Nat) :
    SchPdu.newSubh { p with pduLen := len } = some { q with pduLen := len } := by
  obtain ⟨room, rfl⟩ := newSubh_eq_some.mp opened
  exact newSubh_eq_some.mpr ⟨room, rfl⟩

theorem Counted.lastSduExtension_le_sizes (holds : Counted p elements) :
    p.lastSduExtension ≤ (elements.map (·.size p.kind)).sum := by
  cases idx : p.lastSduIdx with
  | none =>
    rw [show p.lastSduExtension = 0 by simp [lastSduExtension, idx]]
    exact Nat.zero_le _
  | some i =>
    obtain ⟨before, e, after, split, rfl, isSdu_⟩ := holds.sduAt i idx
    have extension := holds.lastSduExtension_eq split idx
    have header := (header_length_sdu (holds.hasLength e (by simp [split])) isSdu_).1
    have size : Element.size p.kind e = (e.header p.kind false).length + e.body.length := rfl
    rw [split, map_append, map_cons, sum_append, sum_cons]
    omega

/-! The scheduling information -/

theorem schedBytes_length (taken : List (Nat × Nat)) : (schedBytes taken).length = 2 * taken.length := by
  induction taken with
  | nil => rfl
  | cons entry taken ih =>
    obtain ⟨lcid, mtchStop⟩ := entry
    have two : (mchSchedBytes lcid mtchStop).length = 2 := rfl
    unfold schedBytes at ih ⊢
    rw [flatMap_cons, length_append, ih, length_cons]
    dsimp only
    omega

def schedSubh (taken : List (Nat × Nat)) : SchSubh where
  lcid := if taken = [] then 0 else Lcid.mchSchedInfo
  nofBytes := 2 * taken.length
  nofMchSchedCe := taken.length
  wPayloadCe := schedBytes taken ++ (replicate 64 0).drop (2 * taken.length)

def SchPdu.withSched (p : SchPdu) (taken : List (Nat × Nat)) : SchPdu := { p with
  subheaders := p.subheaders ++ [schedSubh taken]
  remLen := p.remLen - 4 * taken.length }

theorem withSched_nil (opened : p.newSubh = some q) : q = p.withSched [] := by
  obtain ⟨-, rfl⟩ := newSubh_eq_some.mp opened
  rfl

theorem setNext_withSched {taken : List (Nat × Nat)} {lcid mtchStop : Nat} {r : Option SchPdu}
    (set : (p.withSched taken).setNextMchSchedInfo lcid mtchStop = .ok r) :
    r = none ∨ 4 ≤ p.remLen - 4 * taken.length ∧ taken.length < 32 ∧ r = some (p.withSched (taken ++ [(lcid, mtchStop)])) := by
  have current : (p.withSched taken).get = schedSubh taken := by simp [SchPdu.get, SchPdu.withSched]
  have space : (p.withSched taken).hasSpaceVarLenCe 2 = decide (4 ≤ p.remLen - 4 * taken.length) := rfl
  have length := schedBytes_length taken
  unfold SchPdu.setNextMchSchedInfo at set
  rw [current, space] at set
  by_cases fits : 4 ≤ p.remLen - 4 * taken.length
  · rw [if_pos (by simpa using fits)] at set
    by_cases beyond : 64 < (schedSubh taken).nofMchSchedCe * 2 + 2
    · rw [if_pos beyond] at set
      contradiction
    · rw [if_neg beyond] at set
      have room : taken.length < 32 := by
        have count : (schedSubh taken).nofMchSchedCe = taken.length := rfl
        omega
      right
      refine ⟨fits, room, ?_⟩
      rw [← Except.ok.inj set]
      have bytes : schedBytes (taken ++ [(lcid, mtchStop)]) = schedBytes taken ++ mchSchedBytes lcid mtchStop := by
        simp [schedBytes]
      have payload : (schedSubh taken).wPayloadCe.take (taken.length * 2) ++ mchSchedBytes lcid mtchStop ++
          (schedSubh taken).wPayloadCe.drop (taken.length * 2 + 2) =
          (schedSubh (taken ++ [(lcid, mtchStop)])).wPayloadCe := by
        unfold schedSubh
        rw [bytes, take_append_of_le_length (by omega), take_of_length_le (by omega), drop_append,
          drop_of_length_le (by omega), nil_append, drop_drop, length_append, length_singleton]
        congr 2
        omega
      have subh : { schedSubh taken with
          wPayloadCe := (schedSubh taken).wPayloadCe.take (taken.length * 2) ++ mchSchedBytes lcid mtchStop ++
            (schedSubh taken).wPayloadCe.drop (taken.length * 2 + 2)
          nofMchSchedCe := taken.length + 1
          lcid := Lcid.mchSchedInfo
          nofBytes := 2 * taken.length + 2 } = schedSubh (taken ++ [(lcid, mtchStop)]) := by
        rw [payload]
        simp [schedSubh]
        omega
      have left : p.remLen - 4 * taken.length - 4 = p.remLen - 4 * (taken ++ [(lcid, mtchStop)]).length := by
        rw [length_append, length_singleton]
        omega
      have two : 2 + sizeHeaderSdu 2 = 4 := rfl
      unfold SchPdu.withSched setCurrent
      simp only [dropLast_concat, two, left]
      rw [← subh]
      rfl
  · rw [if_neg (by simpa using fits)] at set
    exact .inl (Except.ok.inj set).symm

theorem setMchSchedInfo_withSched {entries taken new : List (Nat × Nat)} {r : SchPdu} (fits : 4 * taken.length ≤ p.remLen)
    (small : taken.length ≤ 32) (set : (p.withSched taken).setMchSchedInfo entries = .ok (r, new)) :
    r = p.withSched (taken ++ new) ∧ 4 * (taken ++ new).length ≤ p.remLen ∧ (taken ++ new).length ≤ 32 := by
  induction entries generalizing taken new with
  | nil =>
    obtain ⟨rfl, rfl⟩ := Prod.mk.inj (Except.ok.inj set)
    rw [append_nil]
    exact ⟨rfl, fits, small⟩
  | cons entry entries ih =>
    obtain ⟨next, first_, more⟩ := bind_eq_ok.mp set
    rcases setNext_withSched first_ with rfl | ⟨space, room, rfl⟩
    · obtain ⟨rfl, rfl⟩ := Prod.mk.inj (Except.ok.inj more)
      rw [append_nil]
      exact ⟨rfl, fits, small⟩
    · obtain ⟨⟨last, later⟩, rest_, done⟩ := bind_eq_ok.mp more
      obtain ⟨rfl, rfl⟩ := Prod.mk.inj (Except.ok.inj done)
      have length : (taken ++ [(entry.1, entry.2)]).length = taken.length + 1 := by simp
      have all := ih (by omega) (by omega) rest_
      rw [append_assoc] at all
      exact all

theorem Counted.mchSchedInfo (holds : Counted p elements) (mch : p.kind = .mch) {taken : List (Nat × Nat)}
    (some_ : taken ≠ []) (fits : 4 * taken.length ≤ p.remLen) (small : taken.length ≤ 32) :
    2 * taken.length - 2 ≤ p.pduLen ∧ Counted { p.withSched taken with pduLen := p.pduLen - (2 * taken.length - 2) }
      (elements ++ [⟨Lcid.mchSchedInfo, schedBytes taken⟩]) := by
  have positive : 0 < taken.length := List.length_pos_iff.mpr some_
  have length := schedBytes_length taken
  have notSdu : isSdu p.kind Lcid.mchSchedInfo = false := by rw [mch]; rfl
  have field : hasLengthField p.kind Lcid.mchSchedInfo = true := by rw [mch]; rfl
  have has : Element.HasLength p.kind ⟨Lcid.mchSchedInfo, schedBytes taken⟩ :=
    ⟨(by decide : Lcid.mchSchedInfo < 32), fun _ => by dsimp only; omega, fun noField => by simp [field] at noField⟩
  have within := holds.lastSduExtension_le_sizes
  have rem := holds.rem
  refine ⟨by omega, holds.append (s := schedSubh taken) rfl rfl ⟨?_, length.symm, fun _ => ?_⟩ has (.inl rfl) ?_ ?_⟩
  · simp [schedSubh, some_]
  · have size : sizeofCe p.kind (schedSubh taken).lcid (schedSubh taken).nofMchSchedCe = (schedBytes taken).length := by
      rw [length, mch, Nat.mul_comm]
      simp [schedSubh, some_, sizeofCe]
    rw [SchSubh.writePayload, size]
    exact take_left
  · simp [SchPdu.withSched, notSdu]
  · have head : Element.size p.kind ⟨Lcid.mchSchedInfo, schedBytes taken⟩ = 2 + 2 * taken.length := by
      have short : ¬128 ≤ 2 * taken.length := by omega
      simp [Element.size, Element.header, SchSubh.writeSubheader, field, length, short]
    rw [head, @Counted.lastSduExtension_append p elements holds
      { p.withSched taken with pduLen := p.pduLen - (2 * taken.length - 2) } [schedSubh taken] rfl rfl]
    dsimp only [SchPdu.withSched]
    omega

end

/-! One insertion -/

section
variable {p q r : SchPdu} {elements : List Element} {lcid n len : Nat} {bytes : List Byte}

theorem space_of_hasSpaceSdu (opened : p.newSubh = some q) (holds : Counted { p with pduLen := len } elements)
    (space : q.hasSpaceSdu n = true) (some_ : 0 < n) : n + 1 + p.lastSduExtension ≤ p.remLen := by
  obtain ⟨-, rfl⟩ := newSubh_eq_some.mp opened
  have extension : lastSduExtension { p with subheaders := p.subheaders ++ [{}] } = p.lastSduExtension :=
    @Counted.lastSduExtension_append { p with pduLen := len } elements holds { p with subheaders := p.subheaders ++ [{}] }
      [{}] rfl rfl
  unfold hasSpaceSdu getSduSpace at space
  rw [decide_eq_true_eq] at space
  dsimp only at space
  omega

theorem setSdu_answer {requestedBytes : Nat} {answer : List Byte}
    (set : (q.setSdu (readPduAnswer answer) () lcid requestedBytes).1 = some (r, n)) :
    q.hasSpaceSdu requestedBytes = true ∧ 0 < answer.length ∧ answer.length ≤ requestedBytes ∧ r = q.addSdu lcid answer := by
  unfold SchPdu.setSdu readPduAnswer at set
  by_cases space : q.hasSpaceSdu requestedBytes = true
  · rw [if_pos space] at set
    dsimp only at set
    by_cases refused : answer.length = 0 ∨ requestedBytes < answer.length
    · rw [if_pos refused] at set
      contradiction
    · rw [if_neg refused] at set
      obtain ⟨rfl, -⟩ := Prod.mk.inj (Option.some.inj set)
      exact ⟨space, by omega, by omega, rfl⟩
  · rw [if_neg space] at set
    contradiction

def SchPdu.withSdu (p : SchPdu) (lcid : Nat) (bytes : List Byte) : SchPdu := { p with
  subheaders := p.subheaders ++ [{ lcid, nofBytes := bytes.length }]
  buffer := { p.buffer with msg := p.buffer.msg ++ bytes } }

theorem setSduPayload_eq (opened : p.newSubh = some q) (holds : Counted { p with pduLen := len } elements)
    (set : q.setSduPayload lcid bytes = some r) : q.hasSpaceSdu bytes.length = true ∧
      r = if p.buffer.getTailroom < 2 * bytes.length then p.withSdu lcid bytes else q.addSdu lcid bytes := by
  have extends_ := fun (more : List SchSubh) (t : SchPdu) => @Counted.lastSduExtension_append { p with pduLen := len }
    elements holds t more
  obtain ⟨-, rfl⟩ := newSubh_eq_some.mp opened
  unfold setSduPayload at set
  by_cases space : hasSpaceSdu { p with subheaders := p.subheaders ++ [{}] } bytes.length = true
  · rw [if_pos space] at set
    have extension := extends_ [{}] { p with subheaders := p.subheaders ++ [{}] } rfl rfl
    have later := extends_ [{ lcid }] { p with
      subheaders := p.subheaders ++ [{ lcid }]
      buffer := { p.buffer with msg := p.buffer.msg ++ bytes } } rfl rfl
    have again : hasSpaceSdu { p with
        subheaders := p.subheaders ++ [{ lcid }]
        buffer := { p.buffer with msg := p.buffer.msg ++ bytes } } bytes.length =
        decide (2 * bytes.length ≤ p.buffer.getTailroom) := by
      unfold hasSpaceSdu getSduSpace ByteBuffer.getTailroom ByteBuffer.nBytes at space ⊢
      rw [decide_eq_true_eq] at space
      rw [later]
      apply decide_eq_decide.mpr
      dsimp only at space ⊢
      rw [length_append]
      omega
    refine ⟨space, ?_⟩
    rw [← Option.some.inj set]
    unfold SchPdu.addSdu updateSpaceSdu
    by_cases half : p.buffer.getTailroom < 2 * bytes.length
    · rw [if_pos half]
      simp only [setCurrent, SchPdu.get, dropLast_concat, getLastD_concat, again,
        decide_eq_false (Nat.not_le_of_lt half)]
      simp [SchPdu.withSdu]
    · rw [if_neg half]
      simp only [setCurrent, SchPdu.get, dropLast_concat, getLastD_concat, again, extension, later,
        decide_eq_true (Nat.le_of_not_lt half)]
      simp [getCurrentIdx]
  · rw [if_neg space] at set
    contradiction

theorem Counted.addSdu_newSubh (opened : p.newSubh = some q) (holds : Counted { p with pduLen := len } elements)
    (isSdu_ : isSdu p.kind lcid = true) (lcidBound : lcid < 32) (some_ : 0 < bytes.length) (short : bytes.length < 32768)
    (fits : bytes.length + 1 + p.lastSduExtension ≤ p.remLen) :
    Holds { q.addSdu lcid bytes with pduLen := len } (elements ++ [⟨lcid, bytes⟩]) := by
  have added := Counted.addSdu holds isSdu_ lcidBound some_ short fits
  rw [← Pdu.addSdu_newSubh (newSubh_withLen opened len) holds lcid bytes] at added
  exact added

theorem Counted.withSdu (holds : Counted p elements) (isSdu_ : isSdu p.kind lcid = true) (lcidBound : lcid < 32)
    (some_ : 0 < bytes.length) (short : bytes.length < 32768) :
    Counted { p.withSdu lcid bytes with pduLen := p.pduLen + (sizeHeaderSdu bytes.length + bytes.length) }
      (elements ++ [⟨lcid, bytes⟩]) := by
  have has := sdu_hasLength isSdu_ lcidBound some_ short
  have size := (Element.size_of_sdu has isSdu_).1
  refine holds.append (s := { lcid, nofBytes := bytes.length }) rfl rfl
    ⟨rfl, rfl, fun notSdu => by simp [isSdu_] at notSdu⟩ has (.inl rfl) (by simp [SchPdu.withSdu, isSdu_]) ?_
  rw [size, @Counted.lastSduExtension_append p elements holds
    { p.withSdu lcid bytes with pduLen := p.pduLen + (sizeHeaderSdu bytes.length + bytes.length) }
    [{ lcid, nofBytes := bytes.length }] rfl rfl]
  dsimp only [SchPdu.withSdu]
  omega

end

theorem isSdu_bounds {kind : Kind} {lcid : Nat} (sdu : isSdu kind lcid = true) :
    lcid < Lcid.padding ∧ isVarLenCe kind lcid = false := by
  cases kind with
  | mch =>
    have below : lcid < Lcid.mchSchedInfo := by simpa [isSdu] using sdu
    have above : Lcid.mchSchedInfo < Lcid.padding := by decide
    refine ⟨below.trans above, ?_⟩
    simp [isVarLenCe, Nat.ne_of_lt below]
  | dlSch =>
    have below : lcid ≤ Lcid.reserved := by simpa [isSdu] using sdu
    exact ⟨below.trans_lt (by decide), rfl⟩
  | ulSch =>
    have below : lcid ≤ Lcid.reserved := by simpa [isSdu] using sdu
    exact ⟨below.trans_lt (by decide), rfl⟩

structure Inserted (kind : Kind) (maxSubheaders pduLen : Nat) (s : Assembly) : Prop where
  kind_eq : s.pdu.kind = kind
  maxSubheaders_eq : s.pdu.maxSubheaders = maxSubheaders
  pduLen_eq : s.pdu.pduLen = pduLen
  wasted : waste kind s.elements ≤ pduLen + s.uncharged
  counted : Counted { s.pdu with pduLen := pduLen + s.uncharged - waste kind s.elements } s.elements
  newest : s.uncharged = 0 → LastSdu kind s.elements s.pdu.lastSduIdx
  late : s.uncharged ≠ 0 → ∃ e ∈ s.elements, isSdu kind e.lcid = true
  last : ∀ e, s.elements.getLast? = some e → isSdu kind e.lcid = true →
    LastSdu kind s.elements s.pdu.lastSduIdx ∨ s.pdu.buffer.getTailroom + 1 + s.pdu.lastSduExtension < s.pdu.remLen
  room : s.elements ≠ [] → s.elements.length < maxSubheaders
  proper : ∀ e ∈ s.elements, e.lcid < Lcid.padding ∧ (isVarLenCe kind e.lcid = true → 2 ≤ e.body.length)

namespace Inserted
variable {kind : Kind} {maxSubheaders pduLen : Nat} {s t : Assembly} {q r : SchPdu}

theorem initTx (kind : Kind) (maxSubheaders pduLen headroom : Nat) :
    Inserted kind maxSubheaders pduLen { pdu := SchPdu.initTx kind maxSubheaders { headroom } pduLen } where
  kind_eq := rfl
  maxSubheaders_eq := rfl
  pduLen_eq := rfl
  wasted := Nat.zero_le _
  counted := ⟨.nil, by simp, by simp [SchPdu.initTx], rfl, rfl⟩
  newest := by simp [LastSdu, SchPdu.initTx]
  late := fun some_ => absurd rfl some_
  last := by simp
  room := fun some_ => absurd rfl some_
  proper := by simp

section
variable (inserted : Inserted kind maxSubheaders pduLen s)
include inserted

section
variable (opened : s.pdu.newSubh = some q)
include opened

theorem append
    (same : r.kind = s.pdu.kind ∧ r.maxSubheaders = s.pdu.maxSubheaders ∧ r.pduLen = s.pdu.pduLen) {e : Element}
    {u : Nat} (wasted : e.waste kind ≤ pduLen + s.uncharged - waste kind s.elements + u)
    (counted : Counted { r with pduLen := pduLen + s.uncharged - waste kind s.elements + u - e.waste kind }
      (s.elements ++ [e]))
    (newest : s.uncharged + u = 0 → LastSdu kind (s.elements ++ [e]) r.lastSduIdx)
    (late : u ≠ 0 → isSdu kind e.lcid = true)
    (last : isSdu kind e.lcid = true → LastSdu kind (s.elements ++ [e]) r.lastSduIdx ∨
      r.buffer.getTailroom + 1 + r.lastSduExtension < r.remLen)
    (lcid : e.lcid < Lcid.padding) (entry : isVarLenCe kind e.lcid = true → 2 ≤ e.body.length) :
    Inserted kind maxSubheaders pduLen ⟨r, s.elements ++ [e], s.uncharged + u⟩ := by
  obtain ⟨sameKind, sameMax, sameLen⟩ := same
  have before := inserted.wasted
  have total : waste kind (s.elements ++ [e]) = waste kind s.elements + e.waste kind := by
    rw [waste_append, waste_singleton]
  refine ⟨sameKind.trans inserted.kind_eq, sameMax.trans inserted.maxSubheaders_eq, sameLen.trans inserted.pduLen_eq, ?_,
    ?_, newest, ?_, ?_, ?_, ?_⟩
  · dsimp only
    omega
  · have left : pduLen + (s.uncharged + u) - waste kind (s.elements ++ [e]) =
        pduLen + s.uncharged - waste kind s.elements + u - e.waste kind := by omega
    dsimp only
    rw [left]
    exact counted
  · intro some_
    by_cases before : s.uncharged = 0
    · exact ⟨e, by simp, late (by dsimp only at some_; omega)⟩
    · obtain ⟨e', mem, isSdu_⟩ := inserted.late before
      exact ⟨e', mem_append_left _ mem, isSdu_⟩
  · intro e' ends
    obtain rfl : e = e' := by simpa using ends
    exact last
  · intro _
    have count : s.pdu.subheaders.length = s.elements.length := inserted.counted.subheaders.length_eq
    have more := (newSubh_eq_some.mp opened).1.1
    rw [inserted.maxSubheaders_eq] at more
    rw [length_append, ← count]
    exact more
  · intro e' mem
    rcases List.mem_append.mp mem with old | new
    · exact inserted.proper e' old
    · rw [List.mem_singleton.mp new]
      exact ⟨lcid, entry⟩

theorem append_ce (same : r.kind = s.pdu.kind ∧ r.maxSubheaders = s.pdu.maxSubheaders ∧ r.pduLen = s.pdu.pduLen ∧
      r.lastSduIdx = s.pdu.lastSduIdx) {e : Element} (notSdu : isSdu kind e.lcid = false)
    (wasted : e.waste kind ≤ pduLen + s.uncharged - waste kind s.elements)
    (counted : Counted { r with pduLen := pduLen + s.uncharged - waste kind s.elements - e.waste kind } (s.elements ++ [e]))
    (lcid : e.lcid < Lcid.padding) (entry : isVarLenCe kind e.lcid = true → 2 ≤ e.body.length) :
    Inserted kind maxSubheaders pduLen ⟨r, s.elements ++ [e], s.uncharged⟩ := by
  obtain ⟨sameKind, sameMax, sameLen, sameIdx⟩ := same
  refine inserted.append (u := 0) opened ⟨sameKind, sameMax, sameLen⟩ wasted counted ?_ (fun u => absurd rfl u) ?_ lcid
    entry
  · intro none_
    rw [sameIdx]
    exact (inserted.newest none_).append_ce notSdu
  · intro isSdu_
    simp [notSdu] at isSdu_

theorem append_sdu {lcid n : Nat}
    {bytes : List Byte} (isSdu_ : isSdu kind lcid = true) (some_ : 0 < bytes.length) (short : bytes.length < 32768)
    (space : q.hasSpaceSdu n = true) (within : bytes.length ≤ n) :
    Inserted kind maxSubheaders pduLen ⟨q.addSdu lcid bytes, s.elements ++ [⟨lcid, bytes⟩], s.uncharged⟩ := by
  obtain ⟨below, noLength⟩ := isSdu_bounds isSdu_
  have fits := space_of_hasSpaceSdu opened inserted.counted space (some_.trans_le within)
  have none_wasted : Element.waste kind ⟨lcid, bytes⟩ = 0 := Element.waste_of_noLength noLength
  have same := (newSubh_eq_some.mp opened).2
  have sameKind := inserted.kind_eq
  have holds := inserted.counted.addSdu_newSubh opened (sameKind ▸ isSdu_) (below.trans (by decide)) some_ short
    (show bytes.length + 1 + s.pdu.lastSduExtension ≤ s.pdu.remLen by omega)
  have last : LastSdu kind (s.elements ++ [⟨lcid, bytes⟩]) (q.addSdu lcid bytes).lastSduIdx := by
    have newest := holds.lastSdu
    have kinds : (q.addSdu lcid bytes).kind = kind := by
      rw [← same]
      exact sameKind
    dsimp only at newest
    rwa [kinds] at newest
  refine inserted.append (u := 0) opened ⟨?_, ?_, ?_⟩ (by omega) ?_ (fun _ => last)
    (fun _ => isSdu_) (fun _ => .inl last) below fun field => by simp [noLength] at field
  · rw [← same]
    rfl
  · rw [← same]
    rfl
  · rw [← same]
    rfl
  · rw [none_wasted]
    exact holds.toCounted

theorem append_uncharged {lcid : Nat}
    {bytes : List Byte} (isSdu_ : isSdu kind lcid = true) (some_ : 0 < bytes.length) (short : bytes.length < 32768)
    (space : q.hasSpaceSdu bytes.length = true) (half : s.pdu.buffer.getTailroom < 2 * bytes.length) :
    Inserted kind maxSubheaders pduLen ⟨s.pdu.withSdu lcid bytes, s.elements ++ [⟨lcid, bytes⟩],
      s.uncharged + (sizeHeaderSdu bytes.length + bytes.length)⟩ := by
  obtain ⟨below, noLength⟩ := isSdu_bounds isSdu_
  have fits := space_of_hasSpaceSdu opened inserted.counted space some_
  have none_wasted : Element.waste kind ⟨lcid, bytes⟩ = 0 := Element.waste_of_noLength noLength
  have extension := @Counted.lastSduExtension_append _ s.elements inserted.counted (s.pdu.withSdu lcid bytes)
    [{ lcid, nofBytes := bytes.length }] rfl rfl
  refine inserted.append (r := s.pdu.withSdu lcid bytes) (e := ⟨lcid, bytes⟩)
    (u := sizeHeaderSdu bytes.length + bytes.length) opened ⟨rfl, rfl, rfl⟩
    (by omega) ?_ (fun none_ => by omega) (fun _ => isSdu_) (fun _ => .inr ?_) below fun field => by simp [noLength] at field
  · rw [none_wasted]
    exact inserted.counted.withSdu (inserted.kind_eq ▸ isSdu_) (below.trans (by decide)) some_ short
  · -- the tailroom that is left is less than the SDU, which fits what is left of the PDU
    rw [extension]
    change _ + 1 + s.pdu.lastSduExtension < s.pdu.remLen
    unfold ByteBuffer.getTailroom ByteBuffer.nBytes SchPdu.withSdu at *
    dsimp only
    rw [length_append]
    omega

theorem set {insertion : Insertion}
    (legal : insertion.Legal kind) {e : Element} (set : insertion.set q = .ok (some (r, e))) :
    Inserted kind maxSubheaders pduLen ⟨r, s.elements ++ [e], s.uncharged + insertion.uncharged s.pdu⟩ := by
  cases insertion with
  | ce control =>
    obtain ⟨r', ok, same⟩ := Option.map_eq_some_iff.mp (Except.ok.inj set)
    obtain ⟨rfl, rfl⟩ := Prod.mk.inj same
    obtain ⟨below, noField, size⟩ := control.fixed
    have kinds : control.kind = kind := legal
    rw [kinds] at noField size
    obtain ⟨notSdu, noLength⟩ := Bool.or_eq_false_iff.mp noField
    have none_wasted : control.element.waste kind = 0 := Element.waste_of_noLength noLength
    rw [control.set_eq, setCe_newSubh opened] at ok
    obtain ⟨fits, ok⟩ := Option.ite_none_right_eq_some.mp ok
    have built := Option.some.inj ok
    apply inserted.append_ce (r := r') opened ⟨by rw [← built], by rw [← built], by rw [← built], by rw [← built]⟩ notSdu
      (by omega) ?_ below (fun field => by simp [noLength] at field)
    rw [none_wasted, ← built]
    apply Counted.setCe inserted.counted fits (below.trans (by decide))
    · rw [inserted.kind_eq]
      exact noField
    · rw [inserted.kind_eq]
      exact size
  | mchSchedInfo entries =>
    obtain ⟨⟨r', taken⟩, sets, ok⟩ := bind_eq_ok.mp set
    have ok := Except.ok.inj ok
    obtain ⟨some_, ok⟩ := Option.ite_none_left_eq_some.mp ok
    obtain ⟨rfl, rfl⟩ := Prod.mk.inj (Option.some.inj ok)
    have start := withSched_nil opened
    subst start
    obtain ⟨rfl, fits, small⟩ := setMchSchedInfo_withSched (Nat.zero_le _) (Nat.zero_le _) sets
    have mch : s.pdu.kind = .mch := inserted.kind_eq.trans legal
    obtain ⟨within, counted⟩ := Counted.mchSchedInfo inserted.counted mch some_ fits small
    have length := schedBytes_length taken
    have kinds : kind = .mch := legal
    have wasted : Element.waste kind ⟨Lcid.mchSchedInfo, schedBytes taken⟩ = 2 * taken.length - 2 := by
      have field : isVarLenCe kind Lcid.mchSchedInfo = true := by
        rw [kinds]
        rfl
      simp [Element.waste, field, length]
    apply inserted.append_ce (r := s.pdu.withSched taken) opened ⟨rfl, rfl, rfl, rfl⟩ (by rw [kinds]; rfl)
      (by rw [wasted]; exact within) ?_ (by decide : Lcid.mchSchedInfo < Lcid.padding) ?_
    · rw [wasted]
      exact counted
    · intro _
      have positive := List.length_pos_iff.mpr some_
      dsimp only
      omega
  | sdu lcid requestedBytes answer =>
    obtain ⟨⟨r', n⟩, ok, same⟩ := Option.map_eq_some_iff.mp (Except.ok.inj set)
    obtain ⟨rfl, rfl⟩ := Prod.mk.inj same
    obtain ⟨space, some_, within, rfl⟩ := setSdu_answer ok
    exact inserted.append_sdu opened legal.1 some_ legal.2 space within
  | sduPayload lcid payload =>
    obtain ⟨r', ok, same⟩ := Option.map_eq_some_iff.mp (Except.ok.inj set)
    obtain ⟨rfl, rfl⟩ := Prod.mk.inj same
    obtain ⟨space, eq⟩ := setSduPayload_eq opened inserted.counted ok
    have uncharged : Insertion.uncharged s.pdu (.sduPayload lcid payload) =
      if s.pdu.buffer.getTailroom < 2 * payload.length then sizeHeaderSdu payload.length + payload.length else 0 := rfl
    rw [uncharged]
    by_cases half : s.pdu.buffer.getTailroom < 2 * payload.length
    · rw [if_pos half] at eq ⊢
      rw [eq]
      exact inserted.append_uncharged opened legal.1 legal.2.1 legal.2.2 space half
    · rw [if_neg half] at eq ⊢
      rw [eq]
      exact inserted.append_sdu opened legal.1 legal.2.1 legal.2.2 space (Nat.le_refl _)

end

theorem insertSubh {insertion : Insertion}
    (legal : insertion.Legal kind) (step : Pdu.insertSubh s insertion = .ok t) :
    Inserted kind maxSubheaders pduLen t := by
  unfold Pdu.insertSubh at step
  cases opened : s.pdu.newSubh with
  | none =>
    rw [opened] at step
    rw [← Except.ok.inj step]
    exact inserted
  | some q =>
    rw [opened] at step
    obtain ⟨result, set, ok⟩ := bind_eq_ok.mp step
    cases result with
    | none =>
      rw [← Except.ok.inj ok, delSubh_newSubh opened]
      exact inserted
    | some inserts =>
      rw [← Except.ok.inj ok]
      exact inserted.set opened legal set

theorem insertSubhs {insertions : List Insertion} (legal : ∀ insertion ∈ insertions, insertion.Legal kind)
    (run : Pdu.insertSubhs s insertions = .ok t) : Inserted kind maxSubheaders pduLen t := by
  induction insertions generalizing s with
  | nil =>
    rw [← Except.ok.inj run]
    exact inserted
  | cons insertion more ih =>
    obtain ⟨next, step, later⟩ := bind_eq_ok.mp run
    exact ih (inserted.insertSubh (legal insertion mem_cons_self) step)
      (fun other mem => legal other (mem_cons_of_mem _ mem)) later

end

end Inserted

end IsrRan.Mac.Lte.Pdu
