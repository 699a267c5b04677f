import Mathlib.Algebra.Group.Int.Defs
import Mathlib.Algebra.GroupWithZero.Nat
import Mathlib.Tactic.Common
import IsrRan.Lib.Transition

/-! A transport block process of the UE's downlink HARQ (dl_harq.cc) and the PHY worker that calls it (cc_worker.cc).
The soft buffer is left to the decoder, whose results are inputs. -/

namespace IsrRan.Mac.Ue
open Lib List

structure MacTb where
  tbs : Nat
  ndi : Bool
  ndiPresent : Bool
  rv : Int
  deriving DecidableEq

structure MacGrantDl where
  tb : MacTb
  pid : Nat
  rnti : Nat
  tti : Nat
  deriving DecidableEq

def noGrant : MacGrantDl := ⟨⟨0, false, false, 0⟩, 0, 0, 0⟩

inductive Buffer where
  | pool (n : Nat)
  | bcch
  deriving DecidableEq

inductive PushPdu where
  | dch (tti : Nat)
  | tempCrnti
  | bcch
  deriving DecidableEq

inductive HarqEvent where
  | newGrantDl (grant : MacGrantDl)
  | requestBuffer (len : Nat) (buffer : Option Nat)
  | requestBufferBcch (len : Nat) (buffer : Option Buffer)
  | deallocate (buffer : Buffer)
  | duplicate (nRetx : Nat)
  | pushPdu (queue : PushPdu) (buffer : Buffer) (tb : MacTb)
  deriving DecidableEq

structure DlTbProcess where
  isBcch : Bool
  isFirstTb : Bool
  isNewTransmission : Bool
  payloadBufferPtr : Option Buffer
  ack : Bool
  nRetx : Nat
  curGrant : MacGrantDl
  mutexLocked : Bool

structure TbActionDl where
  payload : Option Buffer
  enabled : Bool
  rv : Int
  generateAck : Bool

def resetDuplicateTimeout : Nat := 6

def maxBcchPduLen : Nat := 1024

def requestBufferBcch (len : Nat) : Option Buffer := if len < maxBcchPduLen then some .bcch else none

namespace DlTbProcess

def released (p : DlTbProcess) : List HarqEvent :=
  match p.payloadBufferPtr with
  | some buffer => if p.isBcch then [] else [.deallocate buffer]
  | none => []

def resetNolock (p : DlTbProcess) : DlTbProcess × List HarqEvent :=
  ({ p with
      curGrant := noGrant
      isFirstTb := true
      ack := false
      nRetx := 0
      payloadBufferPtr := none }, p.released)

/-- The redundancy version of a broadcast block whose DCI names none; `ceilf(1.5 * k)` is `(3 * k + 1) / 2`. -/
def bcchRv (siWindowStart : Int) (pid : Nat) : Int :=
  let k := if pid / 10 % 2 = 0 ∧ pid % 10 = 5 then pid / 20 % 4 else (((pid : Int) - siWindowStart) % 2 ^ 32).toNat % 4
  ((3 * k + 1) / 2 % 4 : Nat)

def calcIsNewTransmission (p : DlTbProcess) (grant : MacGrantDl) : DlTbProcess :=
  if (grant.tb.ndiPresent && grant.tb.ndi != p.curGrant.tb.ndi) || (p.isBcch && grant.tb.rv == 0) || p.isFirstTb then
    { p with
      isFirstTb := false
      isNewTransmission := true }
  else { p with isNewTransmission := false }

def classify (p : DlTbProcess) (grant : MacGrantDl) : DlTbProcess :=
  let p := p.calcIsNewTransmission grant
  let p :=
    if p.isNewTransmission || p.curGrant.tb.tbs != grant.tb.tbs then
      { p with
        ack := false
        nRetx := 0 }
    else p
  { p with nRetx := (p.nRetx + 1) % 2 ^ 32 }

def requestDecoding (p : DlTbProcess) (grant : MacGrantDl) (request : Option Nat) :
    DlTbProcess × TbActionDl × List HarqEvent :=
  let buffer := if p.isBcch then requestBufferBcch grant.tb.tbs else request.map .pool
  let requested : HarqEvent :=
    if p.isBcch then .requestBufferBcch grant.tb.tbs buffer else .requestBuffer grant.tb.tbs request
  -- without a buffer it is back without a word to the PHY, the mutex still held
  let action : TbActionDl :=
    if buffer = none then ⟨none, false, 0, false⟩ else ⟨buffer, true, grant.tb.rv, !p.isBcch⟩
  ({ p with
      curGrant := grant
      payloadBufferPtr := buffer }, action, p.released ++ [requested])

def discardDuplicate (p : DlTbProcess) : DlTbProcess × TbActionDl × List HarqEvent :=
  let (p', freed) := if resetDuplicateTimeout < p.nRetx then p.resetNolock else (p, [])
  (p', ⟨none, false, 0, !p.isBcch⟩, .duplicate p.nRetx :: freed)

/-- `new_grant_dl`; `none` waits for the mutex for ever. `request` is what the pool has to give. -/
def newGrantDl (p : DlTbProcess) (siWindowStart : Int) (grant : MacGrantDl) (request : Option Nat) :
    Option (DlTbProcess × TbActionDl × List HarqEvent) :=
  if p.mutexLocked then none
  else
    let rv := if p.isBcch && grant.tb.rv == -1 then bcchRv siWindowStart grant.pid else grant.tb.rv
    let grant' := { grant with tb := { grant.tb with rv := rv } }
    let p := { p with mutexLocked := true }.classify grant'
    let (p, action, events) := if !p.ack then p.requestDecoding grant' request else p.discardDuplicate
    some (p, action, .newGrantDl grant :: events)

def queue (p : DlTbProcess) (grant : MacGrantDl) (tempRnti : Nat) : PushPdu :=
  if p.isBcch then .bcch else if p.curGrant.rnti = tempRnti then .tempCrnti else .dch grant.tti

def tbDecoded (p : DlTbProcess) (grant : MacGrantDl) (ackIn : Bool) (tempRnti : Nat) (uecridSuccessful : Bool) :
    DlTbProcess × Bool × List HarqEvent :=
  let (p, ackOut, events) :=
    match p.payloadBufferPtr with
    | none => (p, ackIn, [])
    | some buffer =>
      let events : List HarqEvent :=
        if ackIn then [.pushPdu (p.queue grant tempRnti) buffer p.curGrant.tb]
        else if p.isBcch then [] else [.deallocate buffer]
      let ackOut := if ackIn && p.queue grant tempRnti == PushPdu.tempCrnti then uecridSuccessful else ackIn
      ({ p with
          ack := ackIn
          payloadBufferPtr := none }, ackOut, events)
  let (p, freed) := if p.ack && p.isBcch then p.resetNolock else (p, [])
  ({ p with mutexLocked := false }, ackOut, events ++ freed)

end DlTbProcess

/-! ### Runs -/

structure HarqRun where
  process : DlTbProcess
  log : List HarqEvent
  pending : Option MacGrantDl

inductive HarqInput where
  | newGrantDl (siWindowStart : Int) (grant : MacGrantDl) (request : Option Nat)
  | tbDecoded (ack : Bool) (tempRnti : Nat) (uecridSuccessful : Bool)

namespace HarqRun

def initial (isBcch isNewTransmission : Bool) : HarqRun :=
  { process :=
      { isBcch := isBcch
        isFirstTb := true
        isNewTransmission := isNewTransmission
        payloadBufferPtr := none
        ack := false
        nRetx := 0
        curGrant := noGrant
        mutexLocked := false }
    log := []
    pending := none }

/-- A call by a PHY that reports the grants for whose action `reports` holds. -/
def step (reports : TbActionDl → Bool) (s : HarqRun) : HarqInput → Option HarqRun
  | .newGrantDl siWindowStart grant request =>
    if s.pending.isSome then none
    else (s.process.newGrantDl siWindowStart grant request).map fun (p, action, events) =>
      { process := p
        log := s.log ++ events
        pending := if reports action then some grant else none }
  | .tbDecoded ack tempRnti uecridSuccessful =>
    s.pending.map fun grant =>
      let (p, _, events) := s.process.tbDecoded grant ack tempRnti uecridSuccessful
      { process := p
        log := s.log ++ events
        pending := none }

def afterEvery : TbActionDl → Bool := fun _ => true

def whereAsked (action : TbActionDl) : Bool := action.enabled || action.generateAck

end HarqRun

/-! ### What a run keeps -/

namespace HarqEvent

def Ends (tb : MacTb) : HarqEvent → Prop
  | newGrantDl grant => (grant.tb.ndiPresent = true ∧ grant.tb.ndi ≠ tb.ndi) ∨ grant.tb.tbs ≠ tb.tbs
  | duplicate nRetx => resetDuplicateTimeout < nRetx
  | _ => False

def obtains (n : Nat) : HarqEvent → Bool
  | requestBuffer _ buffer => buffer == some n
  | _ => false

def delivers (n : Nat) : HarqEvent → Bool
  | pushPdu _ buffer _ => buffer == .pool n
  | _ => false

def deallocates (n : Nat) : HarqEvent → Bool
  | deallocate buffer => buffer == .pool n
  | _ => false

end HarqEvent

def Since (log : List HarqEvent) (tb : MacTb) (rest : List HarqEvent) : Prop :=
  ∃ before queue buffer, log = before ++ .pushPdu queue buffer tb :: rest

def OnceOnly (log : List HarqEvent) : Prop :=
  ∀ tb rest, Since log tb rest → ∀ between queue buffer tb' later,
    rest = between ++ .pushPdu queue buffer tb' :: later → ∃ e ∈ between, e.Ends tb

def Balanced (p : DlTbProcess) (log : List HarqEvent) : Prop :=
  ∀ n, log.countP (HarqEvent.obtains n) = log.countP (HarqEvent.delivers n) + log.countP (HarqEvent.deallocates n) +
    if p.payloadBufferPtr = some (.pool n) then 1 else 0

theorem since_append {log events : List HarqEvent} {tb : MacTb} {rest : List HarqEvent}
    (since : Since (log ++ events) tb rest) :
    (∃ rest', rest = rest' ++ events ∧ Since log tb rest') ∨ Since events tb rest := by
  obtain ⟨before, queue, buffer, split⟩ := since
  rcases List.append_eq_append_iff.mp split with ⟨early, rfl, tail⟩ | ⟨early, head, tail⟩
  · exact .inr ⟨early, queue, buffer, tail⟩
  · cases early with
    | nil => exact .inr ⟨[], queue, buffer, tail.symm⟩
    | cons e early =>
      obtain ⟨rfl, rfl⟩ := List.cons.inj tail
      exact .inl ⟨early, rfl, before, queue, buffer, head⟩

namespace DlTbProcess
variable {p : DlTbProcess} {grant : MacGrantDl}

def heard (p : DlTbProcess) (grant : MacGrantDl) (rv : Int) : DlTbProcess :=
  { p with mutexLocked := true }.classify { grant with tb := { grant.tb with rv := rv } }

theorem heard_keeps (p : DlTbProcess) (grant : MacGrantDl) (rv : Int) :
    (p.heard grant rv).isBcch = p.isBcch ∧ (p.heard grant rv).payloadBufferPtr = p.payloadBufferPtr ∧
      (p.heard grant rv).mutexLocked = true ∧ (p.heard grant rv).curGrant = p.curGrant ∧
        (p.heard grant rv).isFirstTb = false := by
  unfold heard classify calcIsNewTransmission
  dsimp only
  split
  · split <;> exact ⟨rfl, rfl, rfl, rfl, rfl⟩
  · rename_i same
    rw [Bool.not_eq_true, Bool.or_eq_false_iff] at same
    split <;> exact ⟨rfl, rfl, rfl, rfl, same.2⟩

theorem heard_ack {rv : Int} (feedback : p.isBcch = false) (started : p.isFirstTb = false)
    (repeats : ¬(HarqEvent.newGrantDl grant).Ends p.curGrant.tb) : (p.heard grant rv).ack = p.ack := by
  have same : ¬(grant.tb.ndiPresent = true ∧ grant.tb.ndi ≠ p.curGrant.tb.ndi) := fun toggled => repeats (.inl toggled)
  have size : grant.tb.tbs = p.curGrant.tb.tbs := by
    by_contra differs
    exact repeats (.inr differs)
  have old : (grant.tb.ndiPresent && grant.tb.ndi != p.curGrant.tb.ndi) = false := by
    rw [← Bool.not_eq_true, Bool.and_eq_true, bne_iff_ne]
    exact same
  unfold heard classify calcIsNewTransmission
  simp [feedback, started, old, size]

theorem released_of_free (free : p.payloadBufferPtr = none) : p.released = [] := by
  unfold released
  rw [free]

theorem newGrantDl_cases {siWindowStart : Int} {request : Option Nat} {p' : DlTbProcess} {action : TbActionDl}
    {events : List HarqEvent} (free : p.payloadBufferPtr = none)
    (called : p.newGrantDl siWindowStart grant request = some (p', action, events)) :
    p'.mutexLocked = true ∧ p'.isBcch = p.isBcch ∧ ∃ rv,
      ((p.heard grant rv).ack = false ∧ p'.isFirstTb = false ∧
        ((p.isBcch = true ∧ p'.payloadBufferPtr = requestBufferBcch grant.tb.tbs ∧
            events = [.newGrantDl grant, .requestBufferBcch grant.tb.tbs (requestBufferBcch grant.tb.tbs)]) ∨
          (p.isBcch = false ∧ p'.payloadBufferPtr = request.map .pool ∧
            events = [.newGrantDl grant, .requestBuffer grant.tb.tbs request]))) ∨
      ((p.heard grant rv).ack = true ∧ p'.payloadBufferPtr = none ∧
        ∃ nRetx, events = [.newGrantDl grant, .duplicate nRetx] ∧
          (¬resetDuplicateTimeout < nRetx → p' = p.heard grant rv)) := by
  unfold newGrantDl at called
  split at called
  · cases called
  · generalize (if p.isBcch && grant.tb.rv == -1 then bcchRv siWindowStart grant.pid else grant.tb.rv) = rv at called
    obtain ⟨kind, pointer, locked, -, started⟩ := p.heard_keeps grant rv
    rw [free] at pointer
    obtain ⟨q, heardEq⟩ : ∃ q, p.heard grant rv = q := ⟨_, rfl⟩
    have classified := heardEq
    unfold heard at classified
    dsimp only at called classified
    rw [classified] at called
    rw [heardEq] at kind pointer locked started
    cases ack : q.ack with
    | false =>
      rw [ack, Bool.not_false, if_pos rfl] at called
      unfold requestDecoding at called
      dsimp only at called
      rw [released_of_free pointer, kind] at called
      obtain ⟨rfl, -, rfl⟩ := called
      by_cases bcch : p.isBcch = true
      · exact ⟨locked, rfl, rv, .inl ⟨heardEq ▸ ack, started,
          .inl ⟨bcch, if_pos bcch, by rw [if_pos bcch, if_pos bcch]; rfl⟩⟩⟩
      · exact ⟨locked, rfl, rv, .inl ⟨heardEq ▸ ack, started,
          .inr ⟨Bool.eq_false_iff.mpr bcch, if_neg bcch, by rw [if_neg bcch]; rfl⟩⟩⟩
    | true =>
      rw [ack] at called
      unfold discardDuplicate resetNolock at called
      rw [released_of_free pointer] at called
      by_cases exceeded : resetDuplicateTimeout < q.nRetx
      · rw [if_pos exceeded] at called
        obtain ⟨rfl, -, rfl⟩ := called
        exact ⟨locked, kind, rv, .inr ⟨heardEq ▸ ack, rfl, _, rfl, fun short => absurd exceeded short⟩⟩
      · rw [if_neg exceeded] at called
        obtain ⟨rfl, -, rfl⟩ := called
        exact ⟨locked, kind, rv, .inr ⟨heardEq ▸ ack, pointer, _, rfl, fun _ => heardEq.symm⟩⟩

theorem tbDecoded_cases {ackIn : Bool} {tempRnti : Nat} {uecridSuccessful : Bool} {p' : DlTbProcess} {ackOut : Bool}
    {events : List HarqEvent} (called : p.tbDecoded grant ackIn tempRnti uecridSuccessful = (p', ackOut, events)) :
    p'.mutexLocked = false ∧ p'.isBcch = p.isBcch ∧ p'.payloadBufferPtr = none ∧
      ((p.payloadBufferPtr = none ∧ events = [] ∧
          (p.isBcch = false → p'.ack = p.ack ∧ p'.curGrant = p.curGrant ∧ p'.isFirstTb = p.isFirstTb)) ∨
        ∃ buffer, p.payloadBufferPtr = some buffer ∧
          ((ackIn = true ∧ (∃ queue, events = [.pushPdu queue buffer p.curGrant.tb]) ∧
              (p.isBcch = false → p'.ack = true ∧ p'.curGrant = p.curGrant ∧ p'.isFirstTb = p.isFirstTb)) ∨
            (ackIn = false ∧ events = if p.isBcch then [] else [.deallocate buffer]))) := by
  unfold tbDecoded at called
  cases pointer : p.payloadBufferPtr with
  | none =>
    rw [pointer] at called
    dsimp only at called
    have nothing := p.released_of_free pointer
    unfold resetNolock at called
    rw [nothing] at called
    split at called
    · rename_i last
      obtain ⟨rfl, -, rfl⟩ := called
      refine ⟨rfl, rfl, rfl, .inl ⟨rfl, rfl, fun feedback => ?_⟩⟩
      rw [feedback, Bool.and_false] at last
      exact absurd last Bool.false_ne_true
    · obtain ⟨rfl, -, rfl⟩ := called
      exact ⟨rfl, rfl, pointer, .inl ⟨rfl, rfl, fun _ => ⟨rfl, rfl, rfl⟩⟩⟩
  | some buffer =>
    rw [pointer] at called
    cases ackIn with
    | true =>
      cases bcch : p.isBcch with
      | true =>
        rw [bcch] at called
        obtain ⟨rfl, -, rfl⟩ := called
        exact ⟨rfl, rfl, rfl, .inr ⟨buffer, rfl, .inl ⟨rfl, ⟨_, rfl⟩, fun feedback => absurd feedback nofun⟩⟩⟩
      | false =>
        rw [bcch] at called
        obtain ⟨rfl, -, rfl⟩ := called
        exact ⟨rfl, rfl, rfl, .inr ⟨buffer, rfl, .inl ⟨rfl, ⟨_, rfl⟩, fun _ => ⟨rfl, rfl, rfl⟩⟩⟩⟩
    | false =>
      obtain ⟨rfl, -, rfl⟩ := called
      simp

end DlTbProcess

theorem not_since {events : List HarqEvent} (quiet : ∀ e ∈ events, ∀ queue buffer tb, e ≠ .pushPdu queue buffer tb)
    (tb : MacTb) (rest : List HarqEvent) : ¬Since events tb rest := by
  rintro ⟨before, queue, buffer, rfl⟩
  exact quiet _ (mem_append_right _ (mem_cons_self ..)) queue buffer tb rfl

theorem OnceOnly.append {log events : List HarqEvent} (once : OnceOnly log) (own : OnceOnly events)
    (next : ∀ tb rest, Since log tb rest → ∀ between queue buffer tb' later,
      events = between ++ .pushPdu queue buffer tb' :: later → ∃ e ∈ rest ++ between, e.Ends tb) :
    OnceOnly (log ++ events) := by
  intro tb rest since between queue buffer tb' later split
  rcases since_append since with ⟨rest', whole, earlier⟩ | within
  · rw [whole] at split
    rcases List.append_eq_append_iff.mp split with ⟨early, rfl, tail⟩ | ⟨early, head, tail⟩
    · exact next tb rest' earlier early queue buffer tb' later tail
    · cases early with
      | nil =>
        rw [append_nil] at head
        subst head
        have same := next tb rest' earlier [] queue buffer tb' later tail.symm
        rwa [append_nil] at same
      | cons e early =>
        obtain ⟨rfl, rfl⟩ := List.cons.inj tail
        exact once tb rest' earlier between queue buffer tb' early head
  · exact own tb rest within between queue buffer tb' later split

theorem OnceOnly.append_quiet {log events : List HarqEvent} (once : OnceOnly log)
    (quiet : ∀ e ∈ events, ∀ queue buffer tb, e ≠ .pushPdu queue buffer tb) : OnceOnly (log ++ events) := by
  apply once.append
  · intro tb rest since
    exact absurd since (not_since quiet tb rest)
  · rintro tb rest - between queue buffer tb' later rfl
    exact absurd rfl (quiet _ (mem_append_right _ (mem_cons_self ..)) queue buffer tb')

namespace HarqRun
variable {isBcch : Bool} {s t : HarqRun}

structure Inv (isBcch : Bool) (s : HarqRun) : Prop where
  kind : s.process.isBcch = isBcch
  idle : s.pending = none → s.process.mutexLocked = false ∧ s.process.payloadBufferPtr = none
  owner : ∀ buffer, s.process.payloadBufferPtr = some buffer → (isBcch = true ↔ buffer = .bcch)
  started : s.process.payloadBufferPtr ≠ none → s.process.isFirstTb = false
  balanced : Balanced s.process s.log
  remembers : isBcch = false → ∀ tb rest, Since s.log tb rest → (∀ e ∈ rest, ¬e.Ends tb) →
    s.process.ack = true ∧ s.process.curGrant.tb = tb ∧ s.process.isFirstTb = false ∧ s.process.payloadBufferPtr = none
  once : isBcch = false → OnceOnly s.log

theorem inv_initial (isBcch isNewTransmission : Bool) : Inv isBcch (initial isBcch isNewTransmission) where
  kind := rfl
  idle _ := ⟨rfl, rfl⟩
  owner _ held := nomatch held
  started held := absurd rfl held
  balanced _ := rfl
  remembers _ tb rest since := absurd since (not_since (fun _ mem => absurd mem not_mem_nil) tb rest)
  once _ tb rest since := absurd since (not_since (fun _ mem => absurd mem not_mem_nil) tb rest)

theorem Inv.newGrantDl (inv : Inv isBcch s) {siWindowStart : Int} {grant : MacGrantDl} {request : Option Nat}
    {p : DlTbProcess} {action : TbActionDl} {events : List HarqEvent} (idle : s.pending = none)
    (called : s.process.newGrantDl siWindowStart grant request = some (p, action, events)) :
    Inv isBcch ⟨p, s.log ++ events, some grant⟩ := by
  have free := (inv.idle idle).2
  obtain ⟨-, kind, rv, branch⟩ := DlTbProcess.newGrantDl_cases free called
  obtain ⟨-, -, -, sameGrant, first_⟩ := s.process.heard_keeps grant rv
  have quiet : ∀ e ∈ events, ∀ queue buffer tb, e ≠ .pushPdu queue buffer tb := by
    rcases branch with ⟨-, -, ⟨-, -, rfl⟩ | ⟨-, -, rfl⟩⟩ | ⟨-, -, nRetx, rfl, -⟩ <;> simp
  have balanced := inv.balanced
  unfold Balanced at balanced
  rw [free] at balanced
  refine ⟨kind.trans inv.kind, nofun, ?_, ?_, ?_, ?_, fun feedback => (inv.once feedback).append_quiet quiet⟩
  · intro buffer held
    rcases branch with ⟨-, -, ⟨bcch, pointer, -⟩ | ⟨feedback, pointer, -⟩⟩ | ⟨-, none_, -⟩
    · rw [inv.kind] at bcch
      rw [pointer] at held
      unfold requestBufferBcch at held
      split at held
      · exact ⟨fun _ => (Option.some.inj held).symm, fun _ => bcch⟩
      · cases held
    · rw [inv.kind] at feedback
      rw [pointer] at held
      obtain ⟨n, -, rfl⟩ := Option.map_eq_some_iff.mp held
      rw [feedback]
      exact ⟨nofun, nofun⟩
    · rw [none_] at held
      cases held
  · intro held
    rcases branch with ⟨-, started, -⟩ | ⟨-, none_, -⟩
    · exact started
    · exact absurd none_ held
  · intro n
    have before := balanced n
    rw [if_neg nofun] at before
    rw [countP_append, countP_append, countP_append, before]
    rcases branch with ⟨-, -, ⟨-, pointer, rfl⟩ | ⟨-, pointer, rfl⟩⟩ | ⟨-, none_, nRetx, rfl, -⟩
    · rw [pointer]
      unfold requestBufferBcch
      split <;> rfl
    · rw [pointer]
      cases request with
      | none => rfl
      | some m =>
        by_cases same : m = n
        · subst same
          simp [HarqEvent.obtains, HarqEvent.delivers, HarqEvent.deallocates]
        · simp [HarqEvent.obtains, HarqEvent.delivers, HarqEvent.deallocates]
    · rw [none_]
      rfl
  · intro feedback tb rest since quietSince
    rcases since_append since with ⟨rest', rfl, earlier⟩ | within
    · obtain ⟨ack, block, begun, -⟩ := inv.remembers feedback tb rest' earlier fun e mem =>
        quietSince e (mem_append_left _ mem)
      have entered : HarqEvent.newGrantDl grant ∈ events := by
        rcases branch with ⟨-, -, ⟨-, -, rfl⟩ | ⟨-, -, rfl⟩⟩ | ⟨-, -, nRetx, rfl, -⟩ <;> exact mem_cons_self ..
      have repeats := quietSince _ (mem_append_right rest' entered)
      rw [← block] at repeats
      have heard := @DlTbProcess.heard_ack s.process grant rv (inv.kind.trans feedback) begun repeats
      rcases branch with ⟨differs, -⟩ | ⟨-, none_, nRetx, rfl, kept⟩
      · rw [heard, ack] at differs
        cases differs
      · obtain rfl := kept (quietSince (.duplicate nRetx) (by simp))
        exact ⟨heard.trans ack, sameGrant ▸ block, first_, none_⟩
    · exact absurd within (not_since quiet tb rest)

theorem Inv.tbDecoded (inv : Inv isBcch s) {grant : MacGrantDl} {ack : Bool} {tempRnti : Nat}
    {uecridSuccessful : Bool} {p : DlTbProcess} {ackOut : Bool} {events : List HarqEvent}
    (called : s.process.tbDecoded grant ack tempRnti uecridSuccessful = (p, ackOut, events)) :
    Inv isBcch ⟨p, s.log ++ events, none⟩ := by
  obtain ⟨unlocked, kind, empty, branch⟩ := DlTbProcess.tbDecoded_cases called
  have before := inv.balanced
  refine ⟨kind.trans inv.kind, fun _ => ⟨unlocked, empty⟩, ?_, fun held => absurd empty held, ?_, ?_, ?_⟩
  · intro buffer held
    rw [empty] at held
    cases held
  · intro n
    have balance := before n
    rw [countP_append, countP_append, countP_append, balance, empty]
    rcases branch with ⟨none_, rfl, -⟩ | ⟨buffer, held, ⟨-, ⟨queue, rfl⟩, -⟩ | ⟨-, rfl⟩⟩
    · rw [none_]
      rfl
    · rw [held]
      by_cases same : buffer = .pool n
      · subst same
        simp [HarqEvent.obtains, HarqEvent.delivers, HarqEvent.deallocates]
        omega
      · simp [HarqEvent.obtains, HarqEvent.delivers, HarqEvent.deallocates, same]
    · rw [held]
      cases bcch : s.process.isBcch with
      | true =>
        obtain rfl := (inv.owner buffer held).mp (inv.kind ▸ bcch)
        rfl
      | false =>
        by_cases same : buffer = .pool n
        · subst same
          simp [HarqEvent.obtains, HarqEvent.delivers, HarqEvent.deallocates]
          omega
        · simp [HarqEvent.obtains, HarqEvent.delivers, HarqEvent.deallocates, same]
  · intro feedback tb rest since quietSince
    rcases since_append since with ⟨rest', rfl, earlier⟩ | ⟨head, queue, buffer, split⟩
    · obtain ⟨acked, block, begun, none_⟩ := inv.remembers feedback tb rest' earlier fun e mem =>
        quietSince e (mem_append_left _ mem)
      rcases branch with ⟨-, -, same⟩ | ⟨buffer, held, -⟩
      · obtain ⟨sameAck, sameGrant, sameFirst⟩ := same (inv.kind.trans feedback)
        exact ⟨sameAck.trans acked, sameGrant ▸ block, sameFirst.trans begun, empty⟩
      · cases none_.symm.trans held
    · rcases branch with ⟨-, rfl, -⟩ | ⟨buffer', held, ⟨-, ⟨queue', rfl⟩, same⟩ | ⟨-, rfl⟩⟩
      · simp at split
      · obtain ⟨acked, sameGrant, sameFirst⟩ := same (inv.kind.trans feedback)
        obtain ⟨rfl, last⟩ : head = [] ∧ _ := by
          cases head with
          | nil => exact ⟨rfl, split⟩
          | cons _ head => simp at split
        obtain ⟨event, -⟩ := List.cons.inj last
        obtain ⟨-, -, rfl⟩ := HarqEvent.pushPdu.inj event
        exact ⟨acked, congrArg MacGrantDl.tb sameGrant, sameFirst.trans (inv.started (by rw [held]; nofun)), empty⟩
      · split at split <;> cases head <;> simp at split
  · intro feedback
    rcases branch with ⟨-, rfl, -⟩ | ⟨buffer, held, ⟨-, ⟨queue, rfl⟩, -⟩ | ⟨-, rfl⟩⟩
    · rw [append_nil]
      exact inv.once feedback
    · apply (inv.once feedback).append
      · rintro tb rest ⟨head, _, _, split⟩ between _ _ _ later rfl
        cases head with
        | nil => simp at split
        | cons _ head => simp at split
      · intro tb rest since between _ _ _ later split
        by_contra none_
        have quietRest : ∀ e ∈ rest, ¬e.Ends tb := fun e mem ends => none_ ⟨e, mem_append_left _ mem, ends⟩
        cases (inv.remembers feedback tb rest since quietRest).2.2.2.symm.trans held
    · apply (inv.once feedback).append_quiet
      intro e mem queue buffer' tb
      split at mem
      · cases mem
      · obtain rfl := List.mem_singleton.mp mem
        nofun

theorem inv_step {i : HarqInput} (inv : Inv isBcch s) (next : step afterEvery s i = some t) : Inv isBcch t := by
  cases i with
  | newGrantDl siWindowStart grant request =>
    unfold step at next
    dsimp only at next
    split at next
    · cases next
    · rename_i idle
      obtain ⟨⟨p, action, events⟩, called, rfl⟩ := Option.map_eq_some_iff.mp next
      exact inv.newGrantDl (Option.not_isSome_iff_eq_none.mp idle) called
  | tbDecoded ack tempRnti uecridSuccessful =>
    obtain ⟨grant, -, rfl⟩ := Option.map_eq_some_iff.mp next
    exact inv.tbDecoded rfl

theorem goes_on {isNewTransmission : Bool}
    (run : Reaches (step afterEvery) (fun _ _ => True) (initial isBcch isNewTransmission) s) :
    (s.pending = none → s.process.mutexLocked = false ∧ s.process.payloadBufferPtr = none) ∧
      Balanced s.process s.log ∧ (isBcch = false → OnceOnly s.log) := by
  have inv : Inv isBcch s := run.invariant (inv_initial isBcch isNewTransmission) fun _ _ _ inv _ next => inv_step inv next
  exact ⟨inv.idle, inv.balanced, inv.once⟩

def grantOf (tbs : Nat) (ndi : Bool) (rv : Int) : MacGrantDl := ⟨⟨tbs, ndi, true, rv⟩, 3, 70, 1000⟩

theorem reaches_runAllowed {reports : TbActionDl → Bool} {inputs : List HarqInput} {s t : HarqRun}
    (run : runAllowed (step reports) (fun _ _ => true) s inputs = some t) :
    Reaches (step reports) (fun _ _ => True) s t :=
  (reaches_of_runAllowed inputs run).mono fun _ _ _ => trivial

theorem goes_on_duplicate : ∃ s, Reaches (step afterEvery) (fun _ _ => True) (initial false false) s ∧
    s.log = [.newGrantDl (grantOf 10 true 0), .requestBuffer 10 (some 1), .deallocate (.pool 1),
      .newGrantDl (grantOf 10 true 2), .requestBuffer 10 (some 1), .pushPdu (.dch 1000) (.pool 1) (grantOf 10 true 2).tb,
      .newGrantDl (grantOf 10 true 3), .duplicate 3] ∧
    (s.pending = none → s.process.mutexLocked = false ∧ s.process.payloadBufferPtr = none) ∧
      Balanced s.process s.log ∧ (false = false → OnceOnly s.log) := by
  have run := @reaches_runAllowed afterEvery
    [.newGrantDl 0 (grantOf 10 true 0) (some 1), .tbDecoded false 60 false, .newGrantDl 0 (grantOf 10 true 2) (some 1),
      .tbDecoded true 60 false, .newGrantDl 0 (grantOf 10 true 3) none, .tbDecoded true 60 false]
    (initial false false) _ rfl
  exact ⟨_, run, rfl, goes_on run⟩

theorem goes_on_whereAsked :
    (∃ s, Reaches (step whereAsked) (fun _ _ => True) (initial false false) s ∧
      s.pending = none ∧ s.process.mutexLocked = true) ∧
    (∃ s, Reaches (step whereAsked) (fun _ _ => True) (initial false false) s ∧
      s.log = [.newGrantDl (grantOf 10 true 0), .requestBuffer 10 (some 1),
        .pushPdu (.dch 1000) (.pool 1) (grantOf 10 true 0).tb, .newGrantDl (grantOf 20 true 0),
        .requestBuffer 20 (some 2), .pushPdu (.dch 1000) (.pool 2) (grantOf 20 true 0).tb]) ∧
    ∃ s, Reaches (step whereAsked) (fun _ _ => True) (initial true false) s ∧
      s.log = [.newGrantDl (grantOf 10 false 2), .requestBufferBcch 10 (some .bcch),
        .pushPdu .bcch .bcch (grantOf 10 false 2).tb, .newGrantDl (grantOf 10 false 2),
        .requestBufferBcch 10 (some .bcch), .pushPdu .bcch .bcch (grantOf 10 false 2).tb] := by
  refine ⟨⟨_, @reaches_runAllowed whereAsked [.newGrantDl 0 (grantOf 10 true 0) none] (initial false false) _ rfl,
    rfl, rfl⟩, ⟨_, @reaches_runAllowed whereAsked [.newGrantDl 0 (grantOf 10 true 0) (some 1), .tbDecoded true 60 false,
      .newGrantDl 0 (grantOf 20 true 0) (some 2), .tbDecoded true 60 false] (initial false false) _ rfl, rfl⟩,
    _, @reaches_runAllowed whereAsked [.newGrantDl 0 (grantOf 10 false 2) none, .tbDecoded true 60 false,
      .newGrantDl 0 (grantOf 10 false 2) none, .tbDecoded true 60 false] (initial true false) _ rfl, rfl⟩

end HarqRun

end IsrRan.Mac.Ue
