import IsrRan.Common.Memory
import IsrRan.Lib.BitList

namespace IsrRan.Mac.Lte.Rar
open List Option UInt8

inductive SubhType where
  | backoff
  | rapid
  deriving DecidableEq, Repr

structure RarSubh where
  grant : List Bool := replicate 20 false
  ta : Nat := 0
  tempRnti : Nat := 0
  preamble : Nat := 0
  type : SubhType := .backoff
  deriving DecidableEq

namespace RarSubh
variable (s : RarSubh)

def init : RarSubh :=
  { s with
    grant := replicate 20 false
    ta := 0
    tempRnti := 0 }

def writeSubheader (isLast : Bool) : Byte := UInt8.ofNat ((if isLast then 0 else 128) + 64 + s.preamble % 64)

def writePayload : List Byte :=
  [UInt8.ofNat (s.ta / 16 % 128), UInt8.ofNat (s.ta % 16 * 16 + Lib.ofBits (s.grant.take 4)),
   UInt8.ofNat (Lib.ofBits ((s.grant.drop 4).take 8)), UInt8.ofNat (Lib.ofBits ((s.grant.drop 12).take 8)),
   UInt8.ofNat (s.tempRnti / 256 % 256), UInt8.ofNat (s.tempRnti % 256)]

def readPayload (mem : Memory) (ptr : Nat) : RarSubh × Nat :=
  match s.type with
  | .backoff => (s, ptr)
  | .rapid =>
    ({ s with
        ta := mem.byte ptr % 128 * 16 + mem.byte (ptr + 1) / 16
        grant := Lib.bitsOf 4 (mem.byte (ptr + 1)) ++ Lib.bitsOf 8 (mem.byte (ptr + 2)) ++
          Lib.bitsOf 8 (mem.byte (ptr + 3))
        tempRnti := mem.byte (ptr + 4) * 256 + mem.byte (ptr + 5) }, ptr + 6)

end RarSubh

/-- A `rar_pdu`. While a PDU is written the current subheader is the last of the `nofSubheaders`. -/
structure RarPdu where
  maxSubheaders : Nat
  subheaders : Nat → RarSubh := fun _ => {}
  nofSubheaders : Nat := 0
  pduLen : Nat := 0
  remLen : Nat := 0
  headroom : Nat := 0
  hasBackoffIndicator : Bool := false
  backoffIndicator : Nat := 0

namespace RarPdu
variable (p : RarPdu)

def init (pduLenBytes : Nat) : RarPdu :=
  { p with
    nofSubheaders := 0
    pduLen := pduLenBytes
    remLen := pduLenBytes
    subheaders := fun i => (p.subheaders i).init }

def initRx (pduLenBytes : Nat) : RarPdu := p.init pduLenBytes

def initTx (headroom pduLenBytes : Nat) : RarPdu := { p.init pduLenBytes with headroom }

def setBackoff (bi : Nat) : RarPdu :=
  { p with
    hasBackoffIndicator := true
    backoffIndicator := bi }

def setSubheader (i : Nat) (s : RarSubh) : RarPdu :=
  { p with subheaders := fun j => if j = i then s else p.subheaders j }

def newSubh : Option RarPdu :=
  if p.nofSubheaders + 1 < p.maxSubheaders ∧ 2 ≤ p.remLen ∧ 1 < p.headroom then
    some { p with nofSubheaders := p.nofSubheaders + 1 }
  else none

/-- The backoff subheader is not one of the array. `none` where it returns false. -/
def writePacket : Option (List Byte) :=
  let backoff := if p.hasBackoffIndicator then
      [UInt8.ofNat ((if 0 < p.nofSubheaders then 128 else 0) + p.backoffIndicator % 16)]
    else []
  let written := backoff ++
    ((range p.nofSubheaders).map fun i => (p.subheaders i).writeSubheader (i + 1 == p.nofSubheaders)) ++
    (range p.nofSubheaders).flatMap fun i => (p.subheaders i).writePayload
  if p.remLen < written.length then none else some (written ++ replicate (p.remLen - written.length) 0)

def readSubheader (mem : Memory) (ptr : Nat) : Bool × RarPdu :=
  let s := p.subheaders p.nofSubheaders
  let read := { p with nofSubheaders := p.nofSubheaders + 1 }
  (mem.byte ptr / 128 % 2 == 1,
    if mem.byte ptr / 64 % 2 = 1 then
      read.setSubheader p.nofSubheaders
        { s with
          type := .rapid
          preamble := mem.byte ptr % 64 }
    else (read.setSubheader p.nofSubheaders { s with type := .backoff }).setBackoff (mem.byte ptr % 16))

def readSubheaders (mem : Memory) : (room : Nat) → RarPdu → (ptr : Nat) → Bool × RarPdu × Nat
  | 0, p, ptr => (true, p, ptr)
  | room + 1, p, ptr =>
    let (more, p) := p.readSubheader mem ptr
    if more && p.pduLen ≤ ptr + 1 then (false, { p with nofSubheaders := 0 }, ptr + 1)
    else if more && 0 < room then readSubheaders mem room p (ptr + 1)
    else (true, p, ptr + 1)

def readPayloads (mem : Memory) : (count i : Nat) → RarPdu → (ptr : Nat) → Bool × RarPdu
  | 0, _, p, _ => (true, p)
  | count + 1, i, p, ptr =>
    let (s, ptr) := (p.subheaders i).readPayload mem ptr
    let p := p.setSubheader i s
    if p.pduLen < ptr then (false, { p with nofSubheaders := 0 }) else readPayloads mem count (i + 1) p ptr

def room (maxSubheaders : Nat) : Nat := min maxSubheaders (max 1 (maxSubheaders - 1))

def parsePacket (mem : Memory) : Bool × RarPdu :=
  match readSubheaders mem (room p.maxSubheaders) { p with nofSubheaders := 0 } 0 with
  | (false, p, _) => (false, p)
  | (true, p, ptr) => readPayloads mem p.nofSubheaders 0 p ptr

end RarPdu

structure Response where
  rapid : Nat
  ta : Nat
  tempCrnti : Nat
  grant : List Bool
  deriving DecidableEq, Repr

structure Response.Valid (r : Response) : Prop where
  rapid : r.rapid < 64
  ta : r.ta < 2 ^ 11
  tempCrnti : r.tempCrnti < 2 ^ 16
  grant : r.grant.length = 20

def RarSubh.response (s : RarSubh) : Option Response :=
  match s.type with
  | .backoff => none
  | .rapid => some ⟨s.preamble, s.ta, s.tempRnti, s.grant⟩

structure Content where
  backoff : Option Nat
  responses : List Response
  deriving DecidableEq, Repr

namespace RarPdu

def content (p : RarPdu) : Content where
  backoff := if p.hasBackoffIndicator then some p.backoffIndicator else none
  responses := (range p.nofSubheaders).filterMap fun i => (p.subheaders i).response

def addResponse (p : RarPdu) (r : Response) : Option RarPdu :=
  p.newSubh.map fun p =>
    p.setSubheader (p.nofSubheaders - 1)
      { p.subheaders (p.nofSubheaders - 1) with
        preamble := r.rapid
        ta := r.ta
        tempRnti := r.tempCrnti
        grant := r.grant }

def startTx (maxSubheaders headroom pduLen : Nat) (backoff : Option Nat) : RarPdu :=
  let p := (RarPdu.mk maxSubheaders (fun _ => {}) 0 0 0 0 false 0).initTx headroom pduLen
  match backoff with
  | none => p
  | some bi => p.setBackoff bi

def assemble (maxSubheaders headroom pduLen : Nat) (backoff : Option Nat) (responses : List Response) :
    Option (List Byte) := do
  let p ← responses.foldlM addResponse (startTx maxSubheaders headroom pduLen backoff)
  p.writePacket

def receive (p : RarPdu) (pdu : Memory × Nat) : Bool × RarPdu := (p.initRx pdu.2).parsePacket pdu.1

def receiver (maxSubheaders : Nat) (history : List (Memory × Nat)) : RarPdu :=
  history.foldl (fun p pdu => (p.receive pdu).2) (RarPdu.mk maxSubheaders (fun _ => {}) 0 0 0 0 false 0)

def readContent (p : RarPdu) (pdu : Memory × Nat) : Bool × Content := ((p.receive pdu).1, (p.receive pdu).2.content)

end RarPdu

/-! A PDU as its subheader bytes and the responses behind them, whatever object reads it. -/

def isRapid (header : Nat) : Bool := header / 64 % 2 == 1

def headers (mem : Memory) (pduLen : Nat) : (room : Nat) → (ptr : Nat) → Bool × List Nat
  | 0, _ => (true, [])
  | room + 1, ptr =>
    let more := mem.byte ptr / 128 % 2 == 1
    if more && pduLen ≤ ptr + 1 then (false, [mem.byte ptr])
    else if more && 0 < room then
      let (ok, rest) := headers mem pduLen room (ptr + 1)
      (ok, mem.byte ptr :: rest)
    else (true, [mem.byte ptr])

def responseAt (mem : Memory) (ptr header : Nat) : Response where
  rapid := header % 64
  ta := mem.byte ptr % 128 * 16 + mem.byte (ptr + 1) / 16
  tempCrnti := mem.byte (ptr + 4) * 256 + mem.byte (ptr + 5)
  grant := Lib.bitsOf 4 (mem.byte (ptr + 1)) ++ Lib.bitsOf 8 (mem.byte (ptr + 2)) ++ Lib.bitsOf 8 (mem.byte (ptr + 3))

def payloadEnd (header ptr : Nat) : Nat := if isRapid header then ptr + 6 else ptr

def responses (mem : Memory) (pduLen : Nat) : (headers : List Nat) → (ptr : Nat) → Option (List Response)
  | [], _ => some []
  | header :: rest, ptr =>
    if pduLen < payloadEnd header ptr then none
    else (responses mem pduLen rest (payloadEnd header ptr)).map
      ((if isRapid header then [responseAt mem ptr header] else []) ++ ·)

def backoffAfter (backoff : Option Nat) (headers : List Nat) : Option Nat :=
  headers.foldl (fun backoff header => if isRapid header then backoff else some (header % 16)) backoff

def headersOf (maxSubheaders : Nat) (pdu : Memory × Nat) : Bool × List Nat :=
  headers pdu.1 pdu.2 (RarPdu.room maxSubheaders) 0

def responsesOf (maxSubheaders : Nat) (pdu : Memory × Nat) : Option (List Response) :=
  match headersOf maxSubheaders pdu with
  | (false, _) => none
  | (true, read) => responses pdu.1 pdu.2 read read.length

namespace RarPdu
variable {p : RarPdu} {mem : Memory}

def takeHeader (p : RarPdu) (header : Nat) : RarPdu :=
  let s := p.subheaders p.nofSubheaders
  let read := { p with nofSubheaders := p.nofSubheaders + 1 }
  if isRapid header then
    read.setSubheader p.nofSubheaders
      { s with
        type := .rapid
        preamble := header % 64 }
  else (read.setSubheader p.nofSubheaders { s with type := .backoff }).setBackoff (header % 16)

theorem readSubheader_eq (ptr : Nat) :
    p.readSubheader mem ptr = (mem.byte ptr / 128 % 2 == 1, p.takeHeader (mem.byte ptr)) := by
  simp [readSubheader, takeHeader, isRapid]

section
variable (header : Nat)
include header

theorem takeHeader_nofSubheaders : (p.takeHeader header).nofSubheaders = p.nofSubheaders + 1 := by
  unfold takeHeader
  split <;> rfl

theorem takeHeader_pduLen : (p.takeHeader header).pduLen = p.pduLen := by
  unfold takeHeader
  split <;> rfl

theorem takeHeader_maxSubheaders : (p.takeHeader header).maxSubheaders = p.maxSubheaders := by
  unfold takeHeader
  split <;> rfl

theorem takeHeader_backoff :
    (p.takeHeader header).content.backoff = backoffAfter p.content.backoff [header] := by
  unfold takeHeader backoffAfter
  cases rapid : isRapid header <;> simp [rapid, content, setBackoff, setSubheader]

theorem takeHeader_other {i : Nat} (other : i ≠ p.nofSubheaders) :
    (p.takeHeader header).subheaders i = p.subheaders i := by
  unfold takeHeader
  split <;> simp [setSubheader, setBackoff, other]

end

def Took (s : RarSubh) (header : Nat) : Prop :=
  if isRapid header then s.type = .rapid ∧ s.preamble = header % 64 else s.type = .backoff

theorem takeHeader_took (header : Nat) : Took ((p.takeHeader header).subheaders p.nofSubheaders) header := by
  unfold Took takeHeader
  cases rapid : isRapid header <;> simp [setSubheader, setBackoff]

theorem readSubheaders_eq (room ptr : Nat) :
    readSubheaders mem room p ptr =
      ((headers mem p.pduLen room ptr).1,
        { (headers mem p.pduLen room ptr).2.foldl takeHeader p with
          nofSubheaders := if (headers mem p.pduLen room ptr).1 then
              ((headers mem p.pduLen room ptr).2.foldl takeHeader p).nofSubheaders
            else 0 },
        ptr + (headers mem p.pduLen room ptr).2.length) := by
  induction room generalizing p ptr with
  | zero => rfl
  | succ room ih =>
    have len := takeHeader_pduLen (p := p) (mem.byte ptr)
    unfold readSubheaders headers
    rw [readSubheader_eq]
    dsimp only
    rw [len]
    split
    · simp [len]
    · split
      · rw [ih, len]
        simp only [foldl_cons, length_cons, Nat.add_assoc, Nat.add_comm 1]
      · rfl

theorem foldl_takeHeader (read : List Nat) :
    (read.foldl takeHeader p).nofSubheaders = p.nofSubheaders + read.length ∧
    (read.foldl takeHeader p).pduLen = p.pduLen ∧
    (read.foldl takeHeader p).maxSubheaders = p.maxSubheaders ∧
    (read.foldl takeHeader p).content.backoff = backoffAfter p.content.backoff read ∧
    (∀ i, i < p.nofSubheaders → (read.foldl takeHeader p).subheaders i = p.subheaders i) ∧
    ∀ k (below : k < read.length), Took ((read.foldl takeHeader p).subheaders (p.nofSubheaders + k)) read[k] := by
  induction read generalizing p with
  | nil => exact ⟨rfl, rfl, rfl, rfl, fun _ _ => rfl, fun _ below => absurd below (Nat.not_lt_zero _)⟩
  | cons header rest ih =>
    obtain ⟨count, len, size, backoff, kept, took⟩ := @ih (p.takeHeader header)
    rw [takeHeader_nofSubheaders] at count kept took
    rw [takeHeader_pduLen] at len
    rw [takeHeader_maxSubheaders] at size
    rw [takeHeader_backoff] at backoff
    refine ⟨by rw [foldl_cons, length_cons]; omega, len, size, backoff, ?_, ?_⟩
    · intro i below
      rw [foldl_cons, kept i (by omega), takeHeader_other header (by omega)]
    · intro k below
      cases k with
      | zero =>
        rw [Nat.add_zero, foldl_cons, kept _ (Nat.lt_succ_self _)]
        exact takeHeader_took header
      | succ k =>
        have := took k (by simpa using below)
        rw [show p.nofSubheaders + (k + 1) = p.nofSubheaders + 1 + k by omega]
        exact this

theorem readPayload_response {s : RarSubh} {header : Nat} (took : Took s header) (ptr : Nat) :
    (s.readPayload mem ptr).2 = payloadEnd header ptr ∧
    (s.readPayload mem ptr).1.response = if isRapid header then some (responseAt mem ptr header) else none := by
  unfold Took at took
  cases rapid : isRapid header with
  | true =>
    simp only [rapid] at took
    obtain ⟨type, preamble⟩ := took
    simp [RarSubh.readPayload, RarSubh.response, type, preamble, responseAt, payloadEnd, rapid]
  | false =>
    simp only [rapid, Bool.false_eq_true, if_false] at took
    simp [RarSubh.readPayload, RarSubh.response, took, payloadEnd, rapid]

theorem readPayloads_eq (read : List Nat) (i ptr : Nat)
    (took : ∀ k (below : k < read.length), Took (p.subheaders (i + k)) read[k]) :
    ∃ p', readPayloads mem read.length i p ptr = ((responses mem p.pduLen read ptr).isSome, p') ∧
      p'.maxSubheaders = p.maxSubheaders ∧ p'.content.backoff = p.content.backoff ∧
      p'.nofSubheaders = (if (responses mem p.pduLen read ptr).isSome then p.nofSubheaders else 0) ∧
      (∀ j, j < i → p'.subheaders j = p.subheaders j) ∧
      ∀ found, responses mem p.pduLen read ptr = some found →
        ((range read.length).filterMap fun k => (p'.subheaders (i + k)).response) = found := by
  induction read generalizing p i ptr with
  | nil =>
    refine ⟨p, rfl, rfl, rfl, rfl, fun _ _ => rfl, ?_⟩
    intro found none_
    exact Option.some.inj none_
  | cons header rest ih =>
    obtain ⟨behind, response⟩ := @readPayload_response mem _ _ (took 0 (Nat.zero_lt_succ _)) ptr
    rw [getElem_cons_zero, Nat.add_zero] at behind response
    have later : ∀ k (below : k < rest.length),
        Took ((p.setSubheader i ((p.subheaders i).readPayload mem ptr).1).subheaders (i + 1 + k)) rest[k] := by
      intro k below
      have := took (k + 1) (Nat.succ_lt_succ below)
      rw [← Nat.add_assoc, Nat.add_right_comm] at this
      simpa [setSubheader, show i + 1 + k ≠ i by omega] using this
    have step : readPayloads mem (header :: rest).length i p ptr =
        if p.pduLen < ((p.subheaders i).readPayload mem ptr).2 then
          (false, { p.setSubheader i ((p.subheaders i).readPayload mem ptr).1 with nofSubheaders := 0 })
        else readPayloads mem rest.length (i + 1) (p.setSubheader i ((p.subheaders i).readPayload mem ptr).1)
          ((p.subheaders i).readPayload mem ptr).2 := rfl
    rw [step, behind, responses, length_cons]
    generalize payloadEnd header ptr = next
    have len : (p.setSubheader i ((p.subheaders i).readPayload mem ptr).1).pduLen = p.pduLen := rfl
    by_cases goesOver : p.pduLen < next
    · rw [if_pos goesOver, if_pos goesOver]
      refine ⟨_, rfl, rfl, rfl, rfl, ?_, fun _ none_ => nomatch none_⟩
      intro j below
      simp [setSubheader, Nat.ne_of_lt below]
    · rw [if_neg goesOver, if_neg goesOver]
      obtain ⟨p', eq, size, backoff, count, kept, found⟩ := ih (i + 1) next later
      rw [len] at eq count found
      refine ⟨p', by rw [eq, isSome_map], size, backoff, by rw [count, isSome_map]; rfl, ?_, ?_⟩
      · intro j below
        rw [kept j (by omega)]
        simp [setSubheader, Nat.ne_of_lt below]
      · intro all whole
        obtain ⟨tail, rest_, rfl⟩ := Option.map_eq_some_iff.mp whole
        have here : (p'.subheaders i).response = ((p.subheaders i).readPayload mem ptr).1.response := by
          rw [kept i (Nat.lt_succ_self i)]
          simp [setSubheader]
        rw [range_succ_eq_map, filterMap_cons, Nat.add_zero, here, response]
        have behind_ := found tail rest_
        simp only [Nat.add_right_comm i 1, Nat.add_assoc] at behind_
        cases isRapid header <;> simp [behind_]

theorem readSubheaders_readPayloads (q : RarPdu) (room : Nat) (empty : q.nofSubheaders = 0) :
    ∃ ok p', (match readSubheaders mem room q 0 with
        | (false, p, _) => (false, p)
        | (true, p, ptr) => readPayloads mem p.nofSubheaders 0 p ptr) = (ok, p') ∧
      p'.maxSubheaders = q.maxSubheaders ∧
      ok = (match headers mem q.pduLen room 0 with
        | (false, _) => none
        | (true, read) => responses mem q.pduLen read read.length).isSome ∧
      p'.content =
        { backoff := backoffAfter q.content.backoff (headers mem q.pduLen room 0).2
          responses := (match headers mem q.pduLen room 0 with
            | (false, _) => none
            | (true, read) => responses mem q.pduLen read read.length).getD [] } := by
  rw [readSubheaders_eq]
  generalize headers mem q.pduLen room 0 = read
  obtain ⟨ok, read⟩ := read
  obtain ⟨count, len', max', backoff', -, took⟩ := @foldl_takeHeader q read
  rw [empty, Nat.zero_add] at count
  cases ok with
  | false =>
    refine ⟨_, _, rfl, max', rfl, ?_⟩
    rw [← backoff']
    rfl
  | true =>
    simp only [Nat.zero_add]
    generalize q' : read.foldl takeHeader q = after at *
    obtain ⟨p', eq, max'', backoff'', count', -, found⟩ := @readPayloads_eq after mem read 0 read.length (by
      intro k below
      have := took k below
      rwa [empty] at this)
    rw [len'] at eq count' found
    have eq_ : readPayloads mem after.nofSubheaders 0 after read.length =
        ((responses mem q.pduLen read read.length).isSome, p') := by
      rw [count]
      exact eq
    refine ⟨_, p', eq_, max''.trans max', rfl, ?_⟩
    have backoff_ : p'.content.backoff = backoffAfter q.content.backoff read := backoff''.trans backoff'
    cases whole : responses mem q.pduLen read read.length with
    | none =>
      rw [whole] at count'
      have none_ : p'.content.responses = [] := by
        simp [content, count']
      rw [← backoff_, getD_none, ← none_]
    | some all =>
      rw [whole, isSome_some, if_pos rfl] at count'
      have all_ : p'.content.responses = all := by
        have := found all whole
        simp only [Nat.zero_add] at this
        rw [← this]
        simp only [content, count', count]
      rw [← backoff_, getD_some, ← all_]

theorem receive_eq (pdu : Memory × Nat) :
    (p.receive pdu).2.maxSubheaders = p.maxSubheaders ∧
    p.readContent pdu =
      ((responsesOf p.maxSubheaders pdu).isSome,
        { backoff := backoffAfter p.content.backoff (headersOf p.maxSubheaders pdu).2
          responses := (responsesOf p.maxSubheaders pdu).getD [] }) := by
  obtain ⟨ok, p', eq, size, accepted, content⟩ := @readSubheaders_readPayloads pdu.1
    { p.initRx pdu.2 with nofSubheaders := 0 } (room p.maxSubheaders) rfl
  have received : p.receive pdu = (ok, p') := eq
  rw [readContent, received]
  refine ⟨size, ?_⟩
  rw [accepted, content]
  rfl

end RarPdu

def SetsBackoff (maxSubheaders : Nat) (pdu : Memory × Nat) : Prop :=
  ∃ header ∈ (headersOf maxSubheaders pdu).2, isRapid header = false

section
variable {read : List Nat} {backoff : Option Nat}

theorem backoffAfter_none (rapid : ∀ header ∈ read, isRapid header = true) : backoffAfter backoff read = backoff := by
  induction read with
  | nil => rfl
  | cons header rest ih =>
    unfold backoffAfter
    rw [foldl_cons, rapid header mem_cons_self]
    exact ih fun other mem => rapid other (mem_cons_of_mem _ mem)

theorem backoffAfter_some (some_ : ∃ header ∈ read, isRapid header = false) (before before' : Option Nat) :
    backoffAfter before read = backoffAfter before' read ∧ backoffAfter before read ≠ none := by
  induction read generalizing before before' with
  | nil => simp at some_
  | cons header rest ih =>
    by_cases later : ∃ header ∈ rest, isRapid header = false
    · exact ih later _ _
    · have none_ : ∀ header ∈ rest, isRapid header = true := by
        intro other mem
        cases rapid : isRapid other with
        | true => rfl
        | false => exact absurd ⟨other, mem, rapid⟩ later
      obtain ⟨first, mem, notRapid⟩ := some_
      rcases List.mem_cons.mp mem with rfl | inRest
      · have one : ∀ backoff, backoffAfter backoff (first :: rest) = some (first % 16) := by
          intro backoff
          unfold backoffAfter
          rw [foldl_cons, notRapid]
          exact backoffAfter_none none_
        rw [one, one]
        exact ⟨rfl, some_ne_none _⟩
      · exact absurd ⟨first, inRest, notRapid⟩ later

end

namespace RarPdu
variable {maxSubheaders : Nat} {p : RarPdu}

theorem foldl_receive (history : List (Memory × Nat)) :
    (history.foldl (fun p pdu => (p.receive pdu).2) p).maxSubheaders = p.maxSubheaders ∧
    ((history.foldl (fun p pdu => (p.receive pdu).2) p).content.backoff = none ↔
      p.content.backoff = none ∧ ∀ earlier ∈ history, ¬ SetsBackoff p.maxSubheaders earlier) := by
  induction history generalizing p with
  | nil => simp
  | cons pdu rest ih =>
    obtain ⟨size, backoff⟩ := @ih (p.receive pdu).2
    obtain ⟨same, read⟩ := @receive_eq p pdu
    rw [same] at size backoff
    refine ⟨size, ?_⟩
    rw [foldl_cons, backoff]
    have now : (p.receive pdu).2.content.backoff = backoffAfter p.content.backoff (headersOf p.maxSubheaders pdu).2 :=
      congrArg (fun outcome => outcome.2.backoff) read
    rw [now]
    by_cases sets : SetsBackoff p.maxSubheaders pdu
    · have := (backoffAfter_some sets p.content.backoff p.content.backoff).2
      simp [this, sets]
    · have rapid : ∀ header ∈ (headersOf p.maxSubheaders pdu).2, isRapid header = true := by
        intro header mem
        cases isRapid_ : isRapid header with
        | true => rfl
        | false => exact absurd ⟨header, mem, isRapid_⟩ sets
      rw [backoffAfter_none rapid]
      simp [sets]

theorem readContent_receiver_iff (history : List (Memory × Nat)) (pdu : Memory × Nat) :
    (receiver maxSubheaders history).readContent pdu = (receiver maxSubheaders []).readContent pdu ↔
      SetsBackoff maxSubheaders pdu ∨ ∀ earlier ∈ history, ¬ SetsBackoff maxSubheaders earlier := by
  obtain ⟨size, backoff⟩ := @foldl_receive (RarPdu.mk maxSubheaders (fun _ => {}) 0 0 0 0 false 0) history
  have fresh : (receiver maxSubheaders []).content.backoff = none := rfl
  have size' : (receiver maxSubheaders []).maxSubheaders = maxSubheaders := rfl
  change (receiver maxSubheaders history).maxSubheaders = maxSubheaders at size
  change (receiver maxSubheaders history).content.backoff = none ↔
    (none : Option Nat) = none ∧ ∀ earlier ∈ history, ¬ SetsBackoff maxSubheaders earlier at backoff
  rw [(receive_eq pdu).2, (receive_eq pdu).2, size, size', fresh]
  by_cases sets : SetsBackoff maxSubheaders pdu
  · rw [(backoffAfter_some sets (receiver maxSubheaders history).content.backoff none).1]
    simp [sets]
  · have rapid : ∀ header ∈ (headersOf maxSubheaders pdu).2, isRapid header = true := by
      intro header mem
      cases isRapid_ : isRapid header with
      | true => rfl
      | false => exact absurd ⟨header, mem, isRapid_⟩ sets
    rw [backoffAfter_none rapid, backoffAfter_none rapid]
    simp only [Prod.mk.injEq, Content.mk.injEq, sets]
    rw [backoff]
    simp

end RarPdu

end IsrRan.Mac.Lte.Rar
