import IsrRan.Mac.SchPduPacket
import Mathlib

namespace IsrRan.Mac.Lte.UlMux
open Pdu List

structure LogicalChannel where
  lcid : Nat
  lcg : Fin 4
  pbr : Int
  bj : Int := 0
  schedLen : Int := 0
  bufferLen : Int := 0

/-! The BSR procedure -/

inductive BsrTriggerType where
  | none
  | regular
  | periodic
  | padding
  deriving DecidableEq, Repr

structure BsrLcid where
  lcid : Nat
  priority : Int
  oldBuffer : Nat

structure BsrTimer where
  duration : Nat := 0
  running : Bool := false

structure BsrProc where
  triggeredBsrType : BsrTriggerType := .none
  lcgs : Fin 4 → List BsrLcid
  timerPeriodic : BsrTimer := {}
  timerRetx : BsrTimer := {}

structure Bsr where
  format : BsrFormat := .longBsr
  buffSize : BuffSize := fun _ => 0

def BsrTimer.restart (t : BsrTimer) : BsrTimer := { t with running := t.running || t.duration != 0 }

namespace BsrProc
variable (b : BsrProc)

def findMaxPriorityLcgWithData : Fin 4 :=
  ((List.finRange 4).foldl (fun best i =>
    (b.lcgs i).foldl (fun best c => if c.priority < best.1 ∧ 0 < c.oldBuffer then (c.priority, i) else best) best)
    ((99 : Int), (0 : Fin 4))).2

def nofLcg (bsr : Bsr) : Nat := ((List.finRange 4).filter fun i => 0 < bsr.buffSize.u32 i).length

def chooseFormat (bsr : Bsr) (pduSpace : Nat) : Option Bsr :=
  if 1 + ulCeSize Lcid.longBsr ≤ pduSpace then
    if b.triggeredBsrType ≠ .padding ∧ nofLcg bsr ≤ 1 then some { bsr with format := .shortBsr }
    else some { bsr with format := .longBsr }
  else if 1 + ulCeSize Lcid.shortBsr ≤ pduSpace then
    if 1 < nofLcg bsr then
      some { format := .truncBsr, buffSize := fun i => if b.findMaxPriorityLcgWithData ≠ i then 0 else bsr.buffSize i }
    else some { bsr with format := .shortBsr }
  else none

def generateBsr (bsr : Bsr) (pduSpace : Nat) : Bool × Bsr × BsrProc :=
  match b.chooseFormat bsr pduSpace with
  | some bsr =>
    (true, bsr, { b with
      triggeredBsrType := .none
      timerPeriodic := if bsr.format = .truncBsr then b.timerPeriodic else b.timerPeriodic.restart })
  | none => (false, bsr, b)

def needToSendBsrOnUlGrant (grantSize totalData : Nat) (bsr : Bsr) : Bool × Bsr × BsrProc :=
  let (sendBsr, bsr, b) :=
    if b.triggeredBsrType = .periodic ∨ b.triggeredBsrType = .regular then
      if totalData ≤ grantSize then (false, bsr, { b with triggeredBsrType := .none }) else b.generateBsr bsr grantSize
    else (false, bsr, b)
  (sendBsr, bsr, { b with timerRetx := b.timerRetx.restart })

def generatePaddingBsr (nofPaddingBytes : Nat) (bsr : Bsr) : Bool × Bsr × BsrProc :=
  if 1 + ulCeSize Lcid.shortBsr ≤ nofPaddingBytes then
    let (_, bsr, b) := generateBsr { b with triggeredBsrType := .padding } bsr nofPaddingBytes
    (true, bsr, { b with triggeredBsrType := .none })
  else (false, bsr, b)

def updateBsrTtiEnd (bsr : Bsr) : BsrProc :=
  if bsr.format = .truncBsr then b
  else { b with
    lcgs := fun i => if bsr.buffSize.u32 i = 0 then (b.lcgs i).map ({ · with oldBuffer := 0 }) else b.lcgs i }

end BsrProc

/-! The multiplexing -/

def schedSdu (ch : LogicalChannel) (sduSpace maxSduSz : Int) : Option (LogicalChannel × Int) :=
  if 0 < sduSpace then
    if 0 < ch.bufferLen then
      let schedLen := if maxSduSz < ch.bufferLen ∧ 0 ≤ maxSduSz then maxSduSz else ch.bufferLen
      let schedLen := if sduSpace < schedLen then sduSpace else schedLen
      some ({ ch with bufferLen := ch.bufferLen - schedLen, schedLen := ch.schedLen + schedLen }, sduSpace - schedLen)
    else none
  else none

def firstRound : List LogicalChannel → (sduSpace lastSduSubheaderLen : Int) → List LogicalChannel × Int × Int
  | [], sduSpace, lastSduSubheaderLen => ([], sduSpace, lastSduSubheaderLen)
  | ch :: rest, sduSpace, lastSduSubheaderLen =>
    let maxSduSz := if ch.pbr < 0 then -1 else ch.bj
    match if maxSduSz ≠ 0 then schedSdu ch sduSpace maxSduSz else none with
    | some (ch, sduSpace) =>
      let last := min sduSpace (sizeHeaderSdu ch.schedLen.toNat)
      let (rest, sduSpace, lastSduSubheaderLen) := firstRound rest (sduSpace - last) last
      ({ ch with bj := ch.bj - ch.schedLen } :: rest, sduSpace, lastSduSubheaderLen)
    | none =>
      let (rest, sduSpace, lastSduSubheaderLen) := firstRound rest sduSpace lastSduSubheaderLen
      (ch :: rest, sduSpace, lastSduSubheaderLen)

def secondRound (lastSduSubheaderLen : Int) : List LogicalChannel → (sduSpace : Int) → List LogicalChannel × Int
  | [], sduSpace => ([], sduSpace)
  | ch :: rest, sduSpace =>
    let (ch, sduSpace) :=
      if ch.lcid ≠ 0 then
        let sduSpace := if ch.schedLen = 0 ∧ 0 < ch.bufferLen then sduSpace - lastSduSubheaderLen else sduSpace
        (schedSdu ch sduSpace (-1)).getD (ch, sduSpace)
      else (ch, sduSpace)
    let (rest, sduSpace) := secondRound lastSduSubheaderLen rest sduSpace
    (ch :: rest, sduSpace)

section
variable {σ : Type} (rlc : RlcInterfaceMac σ)

/-- The loop of `allocate_sdu`. Every turn takes at least a byte of `sduSpace`, so as many turns are enough. -/
def allocateLoop (lcid : Nat) : (turns sduSpace : Nat) → SchPdu → σ → Nat × SchPdu × σ
  | 0, _, pdu, state => (0, pdu, state)
  | turns + 1, sduSpace, pdu, state =>
    if 0 < i32 (rlc.getBufferState state lcid) ∧ 0 < sduSpace then
      match pdu.newSubh with
      | none => (0, pdu, state)
      | some opened =>
        match opened.setSdu rlc state lcid (min (i32 (rlc.getBufferState state lcid)).toNat sduSpace) with
        | (none, state) => (0, opened.delSubh, state)
        | (some (pdu, sduLen), state) =>
          let (total, pdu, state) := allocateLoop lcid turns (sduSpace - sduLen) pdu state
          (sduLen + total, pdu, state)
    else (0, pdu, state)

def allocateSdu (lcid maxSduSz : Nat) (pdu : SchPdu) (state : σ) : Nat × SchPdu × σ :=
  allocateLoop rlc lcid maxSduSz maxSduSz pdu state

def allocateChannels : List LogicalChannel → SchPdu → σ → Bsr → SchPdu × σ × Bsr
  | [], pdu, state, bsr => (pdu, state, bsr)
  | ch :: rest, pdu, state, bsr =>
    if ch.schedLen ≠ 0 then
      let (sduLen, pdu, state) := allocateSdu rlc ch.lcid ch.schedLen.toNat pdu state
      allocateChannels rest pdu state
        { bsr with buffSize := fun i => if i = ch.lcg then bsr.buffSize i - sduLen else bsr.buffSize i }
    else allocateChannels rest pdu state bsr

end

structure Mux where
  logicalChannels : List LogicalChannel
  pendingCrntiCe : Nat := 0
  bsrProcedure : BsrProc

def maxNofSubheaders : Nat := 20

def insertCRnti (pdu : SchPdu) (crnti : Nat) : SchPdu :=
  if crnti ≠ 0 then
    match pdu.newSubh with
    | some opened => (opened.setCRnti crnti).getD opened
    | none => pdu
  else pdu

def insertCe (pdu : SchPdu) (set : SchPdu → Option SchPdu) : SchPdu :=
  match pdu.newSubh with
  | some opened => (set opened).getD opened.delSubh
  | none => pdu

def insertRegularBsr (pdu : SchPdu) (bsr : Bsr) : SchPdu × Option Nat :=
  match pdu.newSubh with
  | some opened =>
    match opened.setBsr bsr.buffSize bsr.format with
    | some pdu => (pdu, some pdu.getCurrentIdx)
    | none => (opened.delSubh, none)
  | none => (pdu, none)

def insertPhr (pdu : SchPdu) (phr : Option ℚ) : SchPdu :=
  match phr with
  | some phrValue => insertCe pdu (·.setPhr phrValue)
  | none => pdu

def headerSdu (bufferLen : Int) : Nat := sizeHeaderSdu (bufferLen % 4294967296).toNat

def totalPendingData (channels : List LogicalChannel) : Int :=
  let total := (channels.map fun ch => ch.bufferLen + (headerSdu ch.bufferLen : Int)).sum
  let lastSduLen := (channels.getLast?.map (·.bufferLen)).getD 0
  if 0 < total then total - headerSdu lastSduLen + 1 else total

def pendingPerLcg (channels : List LogicalChannel) : BuffSize :=
  fun lcg => ((channels.filter (·.lcg == lcg)).map (·.bufferLen)).sum

/-- The local variables of `pdu_get_nolock` after its last loop over the channels, with `sdu_space` as it was
before the first round and between the rounds. -/
structure Lcp (σ : Type) where
  pdu : SchPdu
  rlc : σ
  channels : List LogicalChannel
  sduSpace₀ : Int
  sduSpace₁ : Int
  sduSpace : Int
  bsr : Bsr
  bsrIdx : Option Nat
  bsrProcedure : BsrProc

namespace Mux
variable {σ : Type} (rlc : RlcInterfaceMac σ) (m : Mux)

def startPdu (pduSz : Nat) (state : σ) : SchPdu × σ :=
  let (sduLen, pdu, state) :=
    allocateSdu rlc 0 pduSz (SchPdu.initTx .ulSch maxNofSubheaders {} pduSz) state
  if sduLen = 0 then (insertCRnti pdu m.pendingCrntiCe, state) else (pdu, state)

def lcp (phr : Option ℚ) (pdu : SchPdu) (state : σ) : Lcp σ :=
  let channels := m.logicalChannels.map fun ch =>
    { ch with schedLen := 0, bufferLen := i32 (rlc.getBufferState state ch.lcid) }
  let (regularBsr, bsr, bsrProcedure) :=
    m.bsrProcedure.needToSendBsrOnUlGrant pdu.remLen (totalPendingData channels % 4294967296).toNat
      { buffSize := pendingPerLcg channels }
  let (pdu, bsrIdx) := if regularBsr then insertRegularBsr pdu bsr else (pdu, none)
  let pdu := insertPhr pdu phr
  let sduSpace₀ : Int := pdu.getSduSpace
  let (channels, sduSpace₁, lastSduSubheaderLen) := firstRound channels sduSpace₀ 0
  let (channels, sduSpace) := secondRound lastSduSubheaderLen channels (sduSpace₁ + lastSduSubheaderLen)
  let (pdu, state, bsr) := allocateChannels rlc channels pdu state bsr
  { pdu, rlc := state, channels, sduSpace₀, sduSpace₁, sduSpace, bsr, bsrIdx, bsrProcedure }

def finishBsr (l : Lcp σ) : SchPdu × Bsr × BsrProc :=
  match l.bsrIdx with
  | some idx => (l.pdu.updateBsr idx l.bsr.buffSize l.bsr.format, l.bsr, l.bsrProcedure)
  | none =>
    let (generated, bsr, bsrProcedure) := l.bsrProcedure.generatePaddingBsr l.pdu.remLen l.bsr
    (if generated then insertCe l.pdu (·.setBsr bsr.buffSize bsr.format) else l.pdu, bsr, bsrProcedure)

def pduGet (phr : Option ℚ) (pduSz : Nat) (state : σ) : Option (List Byte) × Mux × σ :=
  let (pdu, state) := m.startPdu rlc pduSz state
  let l := m.lcp rlc phr pdu state
  let (pdu, bsr, bsrProcedure) := finishBsr l
  (pdu.writePacket,
    { logicalChannels := l.channels, pendingCrntiCe := 0, bsrProcedure := bsrProcedure.updateBsrTtiEnd bsr }, l.rlc)

end Mux

structure Served (before after : LogicalChannel) : Prop where
  lcid : after.lcid = before.lcid
  lcg : after.lcg = before.lcg
  grows : before.schedLen ≤ after.schedLen
  bufferLen : 0 ≤ before.bufferLen → 0 ≤ after.bufferLen
  total : after.bufferLen + after.schedLen = before.bufferLen + before.schedLen

theorem Served.refl (ch : LogicalChannel) : Served ch ch := ⟨rfl, rfl, le_refl _, id, rfl⟩

theorem Served.trans {a b c : LogicalChannel} (first : Served a b) (second : Served b c) : Served a c :=
  ⟨second.lcid.trans first.lcid, second.lcg.trans first.lcg, first.grows.trans second.grows,
    fun pos => second.bufferLen (first.bufferLen pos), second.total.trans first.total⟩

section
variable {ch ch' : LogicalChannel} {sduSpace space maxSduSz : Int}

theorem schedSdu_spec (sched : schedSdu ch sduSpace maxSduSz = some (ch', space)) :
    Served ch ch' ∧ 0 ≤ space ∧ space = sduSpace - (ch'.schedLen - ch.schedLen) := by
  unfold schedSdu at sched
  split at sched
  case isFalse => simp at sched
  case isTrue pos =>
    split at sched
    case isFalse => simp at sched
    case isTrue pending =>
      obtain ⟨rfl, rfl⟩ := sched
      generalize wanted : (if maxSduSz < ch.bufferLen ∧ 0 ≤ maxSduSz then maxSduSz else ch.bufferLen) = want
      generalize taken : (if sduSpace < want then sduSpace else want) = len
      refine ⟨⟨rfl, rfl, ?_, fun _ => ?_, ?_⟩, ?_, ?_⟩
      · show ch.schedLen ≤ ch.schedLen + len
        omega
      · show 0 ≤ ch.bufferLen - len
        omega
      · show ch.bufferLen - len + (ch.schedLen + len) = ch.bufferLen + ch.schedLen
        omega
      · omega
      · show sduSpace - len = sduSpace - (ch.schedLen + len - ch.schedLen)
        omega

end

section
variable {channels : List LogicalChannel}

def scheduled (channels : List LogicalChannel) : Int := (channels.map (·.schedLen)).sum

theorem firstRound_spec {sduSpace last : Int} (space : 0 ≤ sduSpace) (lastPos : 0 ≤ last) :
    let out := firstRound channels sduSpace last
    List.Forall₂ Served channels out.1 ∧ 0 ≤ out.2.1 ∧ 0 ≤ out.2.2 ∧
      scheduled out.1 - scheduled channels + out.2.1 + out.2.2 ≤ sduSpace + last := by
  induction channels generalizing sduSpace last with
  | nil => exact ⟨.nil, space, lastPos, by simp [firstRound]⟩
  | cons ch rest ih =>
    unfold firstRound
    generalize (if ch.pbr < 0 then -1 else ch.bj) = maxSduSz
    dsimp only
    split
    case h_1 ch' space' sched =>
      have served : schedSdu ch sduSpace maxSduSz = some (ch', space') := by
        by_cases any : maxSduSz ≠ 0
        · simpa [any] using sched
        · simp [any] at sched
      obtain ⟨serves, left, used⟩ := schedSdu_spec served
      have lastLe : 0 ≤ min space' (sizeHeaderSdu ch'.schedLen.toNat) ∧
          min space' (sizeHeaderSdu ch'.schedLen.toNat : Int) ≤ space' := by omega
      generalize min space' (sizeHeaderSdu ch'.schedLen.toNat : Int) = newLast at lastLe
      obtain ⟨restServed, spaceLeft, lastLeft, account⟩ := @ih (space' - newLast) newLast (by omega) lastLe.1
      generalize firstRound rest (space' - newLast) newLast = out at restServed spaceLeft lastLeft account ⊢
      obtain ⟨rest', restSpace, restLast⟩ := out
      refine ⟨.cons ⟨serves.lcid, serves.lcg, serves.grows, serves.bufferLen, serves.total⟩ restServed, spaceLeft,
        lastLeft, ?_⟩
      simp only [scheduled, map_cons, sum_cons] at account ⊢
      omega
    case h_2 =>
      obtain ⟨restServed, spaceLeft, lastLeft, account⟩ := @ih sduSpace last space lastPos
      generalize firstRound rest sduSpace last = out at restServed spaceLeft lastLeft account ⊢
      obtain ⟨rest', restSpace, restLast⟩ := out
      refine ⟨.cons (Served.refl ch) restServed, spaceLeft, lastLeft, ?_⟩
      simp only [scheduled, map_cons, sum_cons] at account ⊢
      omega

theorem secondRound_spec {sduSpace last : Int} (lastPos : 0 ≤ last) :
    let out := secondRound last channels sduSpace
    List.Forall₂ Served channels out.1 ∧ scheduled out.1 - scheduled channels ≤ max sduSpace 0 := by
  induction channels generalizing sduSpace with
  | nil => exact ⟨.nil, by simp [secondRound]⟩
  | cons ch rest ih =>
    unfold secondRound
    have head : ∃ ch' space', (if ch.lcid ≠ 0 then
        (schedSdu ch (if ch.schedLen = 0 ∧ 0 < ch.bufferLen then sduSpace - last else sduSpace) (-1)).getD
          (ch, if ch.schedLen = 0 ∧ 0 < ch.bufferLen then sduSpace - last else sduSpace)
        else (ch, sduSpace)) = (ch', space') ∧ Served ch ch' ∧
        ch'.schedLen - ch.schedLen + max space' 0 ≤ max sduSpace 0 := by
      split
      · generalize charged : (if ch.schedLen = 0 ∧ 0 < ch.bufferLen then sduSpace - last else sduSpace) = space
        cases sched : schedSdu ch space (-1) with
        | none => exact ⟨ch, space, rfl, Served.refl ch, by omega⟩
        | some out =>
          obtain ⟨serves, left, used⟩ := @schedSdu_spec ch out.1 space out.2 (-1) sched
          exact ⟨out.1, out.2, rfl, serves, by omega⟩
      · exact ⟨ch, sduSpace, rfl, Served.refl ch, by omega⟩
    obtain ⟨ch', space', taken, serves, used⟩ := head
    rw [taken]
    obtain ⟨restServed, account⟩ := @ih space'
    refine ⟨.cons serves restServed, ?_⟩
    simp only [scheduled, map_cons, sum_cons] at account ⊢
    omega

end

def logged {σ : Type} (rlc : RlcInterfaceMac σ) : RlcInterfaceMac (σ × List Element) where
  getBufferState state lcid := rlc.getBufferState state.1 lcid
  readPdu state lcid nofBytes :=
    let (bytes, next) := rlc.readPdu state.1 lcid nofBytes
    (bytes, next, state.2 ++ if bytes.length = 0 then [] else [⟨lcid, bytes⟩])

theorem logged_readPdu {σ : Type} (rlc : RlcInterfaceMac σ) (state : σ × List Element) (lcid nofBytes : Nat) :
    (logged rlc).readPdu state lcid nofBytes = ((rlc.readPdu state.1 lcid nofBytes).1,
      (rlc.readPdu state.1 lcid nofBytes).2, state.2 ++ if (rlc.readPdu state.1 lcid nofBytes).1.length = 0 then []
        else [⟨lcid, (rlc.readPdu state.1 lcid nofBytes).1⟩]) := rfl

def ReadsAtMost {σ : Type} (rlc : RlcInterfaceMac σ) : Prop :=
  ∀ state lcid nofBytes, (rlc.readPdu state lcid nofBytes).1.length ≤ nofBytes

def totalBytes (elements : List Element) : Nat := (elements.map (·.body.length)).sum

def bytesOf (lcid : Nat) (elements : List Element) : Nat := totalBytes (elements.filter (·.lcid == lcid))

structure Filling (p : SchPdu) (pduSz : Nat) (elements : List Element) : Prop where
  holds : Holds p elements
  kind : p.kind = .ulSch
  pduLen : p.pduLen = pduSz
  maxSubheaders : p.maxSubheaders = maxNofSubheaders
  headroom : p.buffer.headroom = bufferHeaderOffset
  count : elements.length < maxNofSubheaders

section
variable {p q : SchPdu} {pduSz : Nat} {elements : List Element}

theorem filling_initTx (pduSz : Nat) :
    Filling (SchPdu.initTx .ulSch maxNofSubheaders {} pduSz) pduSz [] := by
  refine ⟨⟨⟨.nil, by simp, ?_, rfl, rfl⟩, ?_⟩, rfl, rfl, rfl, rfl, by decide⟩
  · intro i idx
    cases idx
  · intro e mem
    cases mem

theorem Filling.newSubh_isSome (filling : Filling p pduSz elements) :
    p.newSubh.isSome ↔ elements.length + 1 < maxNofSubheaders ∧ 2 ≤ p.remLen := by
  have count := filling.holds.subheaders.length_eq
  have room := filling.maxSubheaders
  have head : 1 < p.buffer.headroom := by
    rw [filling.headroom]
    decide
  unfold SchPdu.newSubh
  rw [count, room]
  by_cases fits : elements.length + 1 < maxNofSubheaders ∧ 2 ≤ p.remLen
  · simp [head]
  · rw [if_neg fun all => fits ⟨all.1, all.2.1⟩]
    simp [fits]

theorem Filling.setCe (filling : Filling p pduSz elements) (opened : p.newSubh = some q) {lcid : Nat}
    {bytes : List Byte} (fits : bytes.length + 1 ≤ p.remLen) (lcidBound : lcid < 32)
    (noLength : hasLengthField .ulSch lcid = false) (size : bytes.length = ulCeSize lcid) :
    ∃ p', q.setCe lcid bytes = some p' ∧ Filling p' pduSz (elements ++ [⟨lcid, bytes⟩]) ∧
      p'.remLen + (bytes.length + 1) = p.remLen ∧ p'.getCurrentIdx = elements.length := by
  have room := (filling.newSubh_isSome.mp (by rw [opened]; rfl)).1
  obtain ⟨holds, kind, pduLen, maxSubheaders, headroom, count⟩ := filling
  have set := setCe_newSubh opened lcid bytes
  rw [if_pos fits] at set
  refine ⟨_, set, ⟨holds.setCe fits lcidBound (by rw [kind]; exact noLength) (by rw [kind]; exact size), kind, pduLen,
    maxSubheaders, headroom, ?_⟩, ?_, ?_⟩
  · simpa using room
  · dsimp only
    omega
  · simp [SchPdu.getCurrentIdx, holds.subheaders.length_eq]

theorem Filling.addSdu (filling : Filling p pduSz elements) (opened : p.newSubh = some q) {lcid requested : Nat}
    {bytes : List Byte} (space : q.hasSpaceSdu requested = true) (atMost : bytes.length ≤ requested)
    (some_ : 0 < bytes.length) (isSdu_ : isSdu .ulSch lcid = true) :
    Filling (q.addSdu lcid bytes) pduSz (elements ++ [⟨lcid, bytes⟩]) := by
  have room := (filling.newSubh_isSome.mp (by rw [opened]; rfl)).1
  obtain ⟨holds, kind, pduLen, maxSubheaders, headroom, count⟩ := filling
  have added := addSdu_newSubh opened holds.toCounted lcid bytes
  obtain ⟨-, rfl⟩ := newSubh_eq_some.mp opened
  have extension := @Counted.lastSduExtension_append p elements holds.toCounted { p with subheaders := p.subheaders ++ [{}] } [{}]
  have lcidBound : lcid < 32 := by
    have : lcid ≤ Lcid.reserved := by simpa [isSdu] using isSdu_
    unfold Lcid.reserved at this
    omega
  have inSpace : requested ≤ min (p.remLen - p.lastSduExtension - 1) p.buffer.getTailroom := by
    have := space
    simp only [SchPdu.hasSpaceSdu, SchPdu.getSduSpace, extension, decide_eq_true_eq] at this
    exact this
  have tail : p.buffer.getTailroom ≤ 12237 := by
    unfold ByteBuffer.getTailroom maxBufferSizeBytes
    omega
  rw [added]
  refine ⟨holds.toCounted.addSdu (by rw [kind]; exact isSdu_) lcidBound some_ (by omega) (by omega), kind, pduLen, maxSubheaders,
    headroom, ?_⟩
  simpa using room

end

section
variable {σ : Type} {rlc : RlcInterfaceMac σ} {p : SchPdu} {pduSz : Nat} {elements : List Element}

variable {lcid : Nat} {l : List Element}

theorem setSdu_logged (reads : ReadsAtMost rlc) {q : SchPdu} (filling : Filling p pduSz elements)
    (opened : p.newSubh = some q) (isSdu_ : isSdu .ulSch lcid = true) (requested : Nat)
    (state : σ × List Element) :
    (∃ state', q.setSdu (logged rlc) state lcid requested = (none, state') ∧ state'.2 = state.2) ∨
    ∃ bytes p' state', q.setSdu (logged rlc) state lcid requested = (some (p', bytes.length), state') ∧
      0 < bytes.length ∧ bytes.length ≤ requested ∧ Filling p' pduSz (elements ++ [⟨lcid, bytes⟩]) ∧
      state'.2 = state.2 ++ [⟨lcid, bytes⟩] := by
  have atMost := reads state.1 lcid requested
  unfold SchPdu.setSdu
  rw [logged_readPdu]
  cases space : q.hasSpaceSdu requested with
  | false => exact .inl ⟨state, by simp, rfl⟩
  | true =>
    generalize rlc.readPdu state.1 lcid requested = out at atMost
    obtain ⟨bytes, next⟩ := out
    dsimp only at atMost ⊢
    rw [if_pos rfl]
    by_cases empty : bytes.length = 0
    · refine .inl ⟨_, if_pos (.inl empty), ?_⟩
      simp [empty]
    · refine .inr ⟨bytes, q.addSdu lcid bytes, _, if_neg (by omega), by omega, atMost,
        filling.addSdu opened space atMost (by omega) isSdu_, ?_⟩
      simp [empty]

theorem totalBytes_append (a b : List Element) : totalBytes (a ++ b) = totalBytes a + totalBytes b := by
  simp [totalBytes]

theorem allocateLoop_logged (reads : ReadsAtMost rlc) {lcid : Nat} (isSdu_ : isSdu .ulSch lcid = true)
    (filling : Filling p pduSz elements) (turns sduSpace : Nat) (state : σ × List Element) :
    ∃ new, Filling (allocateLoop (logged rlc) lcid turns sduSpace p state).2.1 pduSz (elements ++ new) ∧
      (allocateLoop (logged rlc) lcid turns sduSpace p state).2.2.2 = state.2 ++ new ∧
      (∀ e ∈ new, e.lcid = lcid ∧ 0 < e.body.length) ∧
      (allocateLoop (logged rlc) lcid turns sduSpace p state).1 = totalBytes new ∧ totalBytes new ≤ sduSpace := by
  induction turns generalizing sduSpace p elements state with
  | zero => exact ⟨[], by simpa [allocateLoop] using filling, by simp [allocateLoop], by simp, rfl, Nat.zero_le _⟩
  | succ turns ih =>
    have stopped : Filling p pduSz (elements ++ []) := by simpa using filling
    unfold allocateLoop
    split
    case isFalse => exact ⟨[], stopped, by simp, by simp, rfl, Nat.zero_le _⟩
    case isTrue pending =>
      cases opened : p.newSubh with
      | none => exact ⟨[], stopped, by simp, by simp, rfl, Nat.zero_le _⟩
      | some q =>
        dsimp only
        generalize requestedEq : min (i32 ((logged rlc).getBufferState state lcid)).toNat sduSpace = requested
        rcases setSdu_logged reads filling opened isSdu_ requested state with
          ⟨state', set, log⟩ | ⟨bytes, p', state', set, some_, atMost, filled, log⟩
        · rw [set]
          refine ⟨[], ?_, by simpa using log, by simp, rfl, Nat.zero_le _⟩
          rw [delSubh_newSubh opened]
          exact stopped
        · rw [set]
          dsimp only
          obtain ⟨new, filledAll, logAll, all, total, within⟩ := ih filled (sduSpace - bytes.length) state'
          refine ⟨⟨lcid, bytes⟩ :: new, by simpa using filledAll, ?_, ?_, ?_, ?_⟩
          · rw [logAll, log]
            simp
          · intro e mem
            rcases List.mem_cons.mp mem with rfl | later
            · exact ⟨rfl, some_⟩
            · exact all e later
          · rw [total]
            simp [totalBytes]
          · simp only [totalBytes, map_cons, sum_cons] at within ⊢
            omega

theorem bytesOf_append (lcid : Nat) (a b : List Element) : bytesOf lcid (a ++ b) = bytesOf lcid a + bytesOf lcid b := by
  simp [bytesOf, totalBytes_append]

theorem bytesOf_eq_zero (other : ∀ e ∈ l, e.lcid ≠ lcid) : bytesOf lcid l = 0 := by
  have none_ : l.filter (·.lcid == lcid) = [] := by
    apply List.filter_eq_nil_iff.mpr
    intro e mem
    simpa using other e mem
  simp [bytesOf, none_, totalBytes]

theorem bytesOf_eq_total (all : ∀ e ∈ l, e.lcid = lcid) :
    bytesOf lcid l = totalBytes l := by
  have all_ : l.filter (·.lcid == lcid) = l := by
    apply List.filter_eq_self.mpr
    intro e mem
    simpa using all e mem
  simp [bytesOf, all_]

def lcgBytes (channels : List LogicalChannel) (lcg : Fin 4) (elements : List Element) : Nat :=
  ((channels.filter (·.lcg == lcg)).map fun ch => bytesOf ch.lcid elements).sum

theorem lcgBytes_append (channels : List LogicalChannel) (lcg : Fin 4) (a b : List Element) :
    lcgBytes channels lcg (a ++ b) = lcgBytes channels lcg a + lcgBytes channels lcg b := by
  unfold lcgBytes
  induction channels.filter (·.lcg == lcg) with
  | nil => rfl
  | cons ch rest ih =>
    rw [map_cons, bytesOf_append]
    simp only [map_cons, sum_cons]
    omega

theorem lcgBytes_eq_zero {channels : List LogicalChannel} {lcg : Fin 4}
    (other : ∀ e ∈ l, e.lcid ∉ channels.map (·.lcid)) : lcgBytes channels lcg l = 0 := by
  apply sum_eq_zero
  intro n mem
  obtain ⟨ch, mem', rfl⟩ := List.mem_map.mp mem
  apply bytesOf_eq_zero
  intro e inList same
  apply other e inList
  rw [same]
  exact mem_map_of_mem (List.mem_filter.mp mem').1

theorem lcgBytes_cons (ch : LogicalChannel) (rest : List LogicalChannel) (lcg : Fin 4) (l : List Element) :
    lcgBytes (ch :: rest) lcg l = (if lcg = ch.lcg then bytesOf ch.lcid l else 0) + lcgBytes rest lcg l := by
  unfold lcgBytes
  by_cases own : lcg = ch.lcg
  · rw [filter_cons_of_pos (by simp [own])]
    simp [own]
  · rw [filter_cons_of_neg (by simpa using fun same => own same.symm)]
    simp [own]

theorem allocateChannels_logged (reads : ReadsAtMost rlc) {channels : List LogicalChannel}
    (nodup : (channels.map (·.lcid)).Nodup) (isSdu_ : ∀ ch ∈ channels, isSdu .ulSch ch.lcid = true)
    (nonneg : ∀ ch ∈ channels, 0 ≤ ch.schedLen) (filling : Filling p pduSz elements) (state : σ × List Element)
    (bsr : Bsr) :
    ∃ new, Filling (allocateChannels (logged rlc) channels p state bsr).1 pduSz (elements ++ new) ∧
      (allocateChannels (logged rlc) channels p state bsr).2.1.2 = state.2 ++ new ∧
      (∀ e ∈ new, e.lcid ∈ channels.map (·.lcid)) ∧
      (allocateChannels (logged rlc) channels p state bsr).2.2.format = bsr.format ∧
      (∀ lcg, (allocateChannels (logged rlc) channels p state bsr).2.2.buffSize lcg =
        bsr.buffSize lcg - lcgBytes channels lcg new) ∧
      ∀ ch ∈ channels, (bytesOf ch.lcid new : Int) ≤ ch.schedLen := by
  induction channels generalizing p elements state bsr with
  | nil =>
    refine ⟨[], by simpa [allocateChannels] using filling, by simp [allocateChannels], by simp, rfl, ?_, by simp⟩
    simp [allocateChannels, lcgBytes]
  | cons ch rest ih =>
    obtain ⟨fresh, nodupRest⟩ := List.nodup_cons.mp nodup
    have isSduRest : ∀ ch' ∈ rest, isSdu .ulSch ch'.lcid = true := fun ch' mem =>
      isSdu_ ch' (mem_cons_of_mem _ mem)
    have nonnegRest : ∀ ch' ∈ rest, 0 ≤ ch'.schedLen := fun ch' mem => nonneg ch' (mem_cons_of_mem _ mem)
    have pos := nonneg ch mem_cons_self
    unfold allocateChannels
    by_cases any : ch.schedLen ≠ 0
    · rw [if_pos any]
      obtain ⟨own, filled, log, all, total, within⟩ := allocateLoop_logged reads (isSdu_ ch mem_cons_self) filling
        ch.schedLen.toNat ch.schedLen.toNat state
      unfold allocateSdu
      generalize allocateLoop (logged rlc) ch.lcid ch.schedLen.toNat ch.schedLen.toNat p state = out at filled log total
      obtain ⟨sduLen, p', state'⟩ := out
      obtain ⟨new, filledAll, logAll, mem, format, sizes, served⟩ := ih nodupRest isSduRest nonnegRest filled state'
        { bsr with buffSize := fun i => if i = ch.lcg then bsr.buffSize i - sduLen else bsr.buffSize i }
      have ownOnly : ∀ e ∈ own, e.lcid ∉ rest.map (·.lcid) := by
        intro e inOwn
        rw [(all e inOwn).1]
        exact fresh
      have notOwn : ∀ e ∈ new, e.lcid ≠ ch.lcid := by
        intro e inNew same
        apply fresh
        show ch.lcid ∈ rest.map (·.lcid)
        rw [← same]
        exact mem e inNew
      have ownBytes : bytesOf ch.lcid own = totalBytes own := bytesOf_eq_total fun e inOwn => (all e inOwn).1
      refine ⟨own ++ new, by simpa using filledAll, ?_, ?_, format, ?_, ?_⟩
      · rw [logAll, log, append_assoc]
      · intro e inAll
        rcases List.mem_append.mp inAll with inOwn | inNew
        · rw [(all e inOwn).1]
          exact mem_cons_self
        · exact mem_cons_of_mem _ (mem e inNew)
      · intro lcg
        rw [sizes lcg, lcgBytes_cons, bytesOf_append, lcgBytes_append, bytesOf_eq_zero notOwn, lcgBytes_eq_zero ownOnly]
        split
        · push_cast
          omega
        · push_cast
          omega
      · intro ch' inChannels
        rcases List.mem_cons.mp inChannels with rfl | inRest
        · rw [bytesOf_append, bytesOf_eq_zero notOwn]
          omega
        · have none_ : bytesOf ch'.lcid own = 0 := by
            apply bytesOf_eq_zero
            intro e inOwn same
            apply ownOnly e inOwn
            rw [same]
            exact mem_map_of_mem inRest
          rw [bytesOf_append, none_, Nat.zero_add]
          exact served ch' inRest
    · rw [if_neg any]
      obtain ⟨new, filledAll, logAll, mem, format, sizes, served⟩ := ih nodupRest isSduRest nonnegRest filling state bsr
      have notOwn : ∀ e ∈ new, e.lcid ≠ ch.lcid := by
        intro e inNew same
        apply fresh
        show ch.lcid ∈ rest.map (·.lcid)
        rw [← same]
        exact mem e inNew
      refine ⟨new, filledAll, logAll, fun e inNew => mem_cons_of_mem _ (mem e inNew), format, ?_, ?_⟩
      · intro lcg
        rw [sizes lcg, lcgBytes_cons, bytesOf_eq_zero notOwn]
        simp
      · intro ch' inChannels
        rcases List.mem_cons.mp inChannels with rfl | inRest
        · rw [bytesOf_eq_zero notOwn]
          exact pos
        · exact served ch' inRest

theorem allocateChannels_blocked (blocked : p.newSubh = none) (channels : List LogicalChannel)
    (state : σ) (bsr : Bsr) : ∃ bsr', allocateChannels rlc channels p state bsr = (p, state, bsr') ∧ bsr'.format = bsr.format ∧
      bsr'.buffSize = bsr.buffSize := by
  have none_ : ∀ lcid turns space, allocateLoop rlc lcid turns space p state = (0, p, state) := by
    intro lcid turns space
    cases turns with
    | zero => rfl
    | succ turns => simp [allocateLoop, blocked]
  induction channels generalizing bsr with
  | nil => exact ⟨bsr, rfl, rfl, rfl⟩
  | cons ch rest ih =>
    unfold allocateChannels
    by_cases any : ch.schedLen ≠ 0
    · rw [if_pos any]
      simp only [allocateSdu, none_]
      obtain ⟨bsr', same, format, sizes⟩ := ih
        { bsr with buffSize := fun i => if i = ch.lcg then bsr.buffSize i - (0 : Nat) else bsr.buffSize i }
      refine ⟨bsr', same, format, ?_⟩
      rw [sizes]
      simp
    · rw [if_neg any]
      exact ih bsr

end

end IsrRan.Mac.Lte.UlMux
