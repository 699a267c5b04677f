import IsrRan.Lib.ModWindow
import IsrRan.Lib.Transition
import IsrRan.Nas.UeNas

namespace IsrRan.Nas

structure UeRun where
  ue : UeNas
  accepted : List Nat
  tampered : Bool
  deriving DecidableEq, Repr

namespace UeRun
open Lib UeNas

inductive Event where
  | sends (message : List Byte)
  | receives (x : DlContents) (pdu : Pdu)

def start (ue : UeNas) : UeRun := ⟨ue, [], false⟩

def verified (c : Crypto) (ue : UeNas) (pdu : Pdu) : Bool :=
  (parseMsgSecHeader pdu = hdrIntegrity || parseMsgSecHeader pdu = hdrIntegrityAndCiphered) &&
    (ue.integrityCheck c pdu).1

def isCommand (pdu : Pdu) : Bool :=
  parseMsgSecHeader pdu = hdrIntegrityWithNewEpsSecurityContext && parseMsgHeader pdu = msgSecurityModeCommand

def takesCommand (c : Crypto) (ue : UeNas) (x : DlContents) (pdu : Pdu) : Bool :=
  isCommand pdu && (ue.checkSecurityModeCommand c x.securityModeCommand pdu).1 = .accepted

def accept (c : Crypto) (s : UeRun) (x : DlContents) (pdu : Pdu) (after : UeNas) : List Nat :=
  if takesCommand c s.ue x pdu then
    let count := s.ue.startCounters.countEst pdu
    if s.ue.authRequest && after.kNasInt ≠ s.ue.kNasInt then [count] else s.accepted ++ [count]
  else if verified c s.ue pdu then s.accepted ++ [s.ue.countEst pdu]
  else s.accepted

def changesCounters (x : DlContents) (pdu : Pdu) (ue after : UeNas) : Bool :=
  after.rxCount ≠ ue.rxCount ||
    after.txCount ≠ ue.txCount && !(parseMsgHeader pdu = msgAuthenticationRequest && x.authResult = .authOk)

def step (c : Crypto) (s : UeRun) : Event → Option UeRun
  | .sends message => some { s with ue := (s.ue.send c message).1 }
  | .receives x pdu =>
    let after := (s.ue.writePdu c x pdu).1
    let unverified := !(takesCommand c s.ue x pdu || verified c s.ue pdu)
    some ⟨after, accept c s x pdu after, s.tampered || unverified && changesCounters x pdu s.ue after⟩

/-! ## When the counters are safe -/

def counts (x : DlContents) : DlHandler → Bool
  | .attachAccept => !x.epsOnly || x.bearerAccepted
  | .authenticationRequest => true
  | .identityRequest => true
  | .esmInformationRequest => true
  | .emmInformation => true
  | .emmStatus => true
  | .detachRequest => true
  | .activateDedicatedEpsBearerContextRequest => true
  | .deactivateEpsBearerContextRequest => true
  | .modifyEpsBearerContextRequest => true
  | .activateTestMode => true
  | .closeUeTestLoop => true
  | .attachReject => false
  | .authenticationReject => false
  | .securityModeCommand => false
  | .serviceReject => false
  | .testLoopInactive => false

def reachesCounters (ue : UeNas) (cmd : SecurityModeCommand) (pdu : Pdu) : Bool :=
  5 < pdu.nBytes && cmd.nativeContext && !(ue.haveCtxt && cmd.nasKsi ≠ ue.ksi) &&
    !(List.range 8).any fun i =>
      cmd.eea.getD i false ≠ ue.eeaCaps.getD i false || cmd.eia.getD i false ≠ ue.eiaCaps.getD i false

/-- A verified message is not behind the receive counter and is counted, and one that is not verified stays
away from the counters. -/
def keepsCounters (c : Crypto) (s : UeRun) : Event → Bool
  | .sends _ => true
  | .receives x pdu =>
    if takesCommand c s.ue x pdu then
      if s.ue.authRequest then
        (s.ue.startCounters.selectAlgorithms c x.securityModeCommand).kNasInt ≠ s.ue.kNasInt
      else s.ue.rxCount ≤ s.ue.countEst pdu
    else if isCommand pdu then
      !(reachesCounters s.ue x.securityModeCommand pdu && s.ue.authRequest) ||
        s.ue.rxCount = 0 && s.ue.txCount = 0
    else if verified c s.ue pdu then
      s.ue.rxCount ≤ s.ue.countEst pdu && (s.ue.route c pdu).2.2.any (counts x)
    else
      !(parseMsgSecHeader pdu = hdrPlainNas &&
        parseMsgHeader pdu ∈ [msgAuthenticationRequest, msgIdentityRequest])

/-! ## What the handlers do to the counters -/

variable {c : Crypto} {ue : UeNas} {x : DlContents} {pdu plain : Pdu} {message : List Byte}

variable {cmd : SecurityModeCommand}

theorem send_frame : (ue.send c message).1 = { ue with txCount := (ue.send c message).1.txCount } := by
  unfold send
  repeat' split
  all_goals rfl

theorem send_rxCount : (ue.send c message).1.rxCount = ue.rxCount := by
  rw [send_frame]

theorem countEst_lt : ue.countEst pdu < 16777216 := by
  have seq : byteAt pdu.buffer 5 < 256 := UInt8.toNat_lt _
  unfold countEst
  omega

theorem countSucc_countEst : countSucc (ue.countEst pdu) = ue.countEst pdu + 1 :=
  Nat.mod_eq_of_lt (by have small := @countEst_lt ue pdu; omega)

theorem handle_counts {handler : DlHandler} {secHdrType : Nat} (long : 5 < plain.nBytes)
    (counted : counts x handler = true) :
    (ue.handle c x secHdrType plain handler).1.rxCount = countSucc ue.rxCount := by
  have replied : (ue.countAndReply c x).1.rxCount = countSucc ue.rxCount := by
    unfold countAndReply
    split
    · exact send_rxCount
    · rfl
  cases handler with
  | attachAccept =>
    change (ue.parseAttachAccept c x plain).1.rxCount = _
    unfold parseAttachAccept
    rw [if_neg (by omega)]
    cases eps : x.epsOnly with
    | false => rfl
    | true =>
      have known : x.bearerAccepted = true := by simpa [counts, eps] using counted
      simp only [known, if_true]
      split
      · exact congrArg countSucc send_rxCount
      · rfl
  | authenticationRequest =>
    change (ue.parseAuthenticationRequest c x secHdrType).1.rxCount = _
    unfold parseAuthenticationRequest
    split
    · exact send_rxCount
    · rfl
    · rfl
  | identityRequest =>
    change (ue.parseIdentityRequest c x secHdrType).1.rxCount = _
    unfold parseIdentityRequest
    split
    · dsimp only
      split
      · exact send_rxCount
      · rfl
    · rfl
  | esmInformationRequest => exact send_rxCount
  | emmInformation => rfl
  | emmStatus => rfl
  | detachRequest =>
    change (ue.parseDetachRequest c x).1.rxCount = _
    unfold parseDetachRequest
    split <;> rfl
  | activateDedicatedEpsBearerContextRequest => exact replied
  | deactivateEpsBearerContextRequest => exact replied
  | modifyEpsBearerContextRequest => exact replied
  | activateTestMode => exact send_rxCount
  | closeUeTestLoop => exact send_rxCount
  | attachReject => cases counted
  | authenticationReject => cases counted
  | securityModeCommand => cases counted
  | serviceReject => cases counted
  | testLoopInactive => cases counted

theorem integrityCheck_of_valid (valid : (ue.integrityCheck c pdu).1 = true) :
    5 < pdu.nBytes ∧ (ue.integrityCheck c pdu).2 = { ue with rxCount := ue.countEst pdu } := by
  unfold integrityCheck at valid ⊢
  split at valid
  · rename_i long
    refine ⟨long, ?_⟩
    rw [if_pos long]
    dsimp only at valid ⊢
    split at valid
    · rename_i same
      rw [if_pos same]
    · cases valid
  · cases valid

theorem writePdu_verified (valid : verified c ue pdu = true)
    (counted : (ue.route c pdu).2.2.any (counts x) = true) :
    (ue.writePdu c x pdu).1.rxCount = ue.countEst pdu + 1 := by
  simp only [verified, Bool.and_eq_true, Bool.or_eq_true, decide_eq_true_eq] at valid
  obtain ⟨header, mac⟩ := valid
  obtain ⟨long, state⟩ := integrityCheck_of_valid mac
  obtain ⟨plain, length, routed⟩ : ∃ plain : Pdu, plain.nBytes = pdu.nBytes ∧ ue.route c pdu =
      ({ ue with rxCount := ue.countEst pdu }, plain, handlerOf (parseMsgHeader plain)) := by
    refine ⟨if parseMsgSecHeader pdu = hdrIntegrityAndCiphered then
      ({ ue with rxCount := ue.countEst pdu } : UeNas).cipherDecrypt c pdu else pdu, ?_, ?_⟩
    · split <;> rfl
    · unfold route
      rw [if_neg (by rcases header with h | h <;> rw [h] <;> decide),
        if_neg (by rcases header with h | h <;> rw [h] <;> decide),
        if_neg (by rcases header with h | h <;> rw [h] <;> decide), if_pos header, if_pos mac, state]
  unfold writePdu
  rw [routed] at counted ⊢
  obtain ⟨handler, called, counts⟩ := (Option.any_eq_true _ _).mp counted
  dsimp only at called
  rw [called]
  refine (handle_counts (by omega) counts).trans ?_
  exact countSucc_countEst

/-! ## The Security Mode Command -/

theorem writePdu_command (command : isCommand pdu = true) :
    ue.writePdu c x pdu = ue.parseSecurityModeCommand c x pdu := by
  simp only [isCommand, Bool.and_eq_true, decide_eq_true_eq] at command
  unfold writePdu route
  rw [command.1, command.2]
  rfl

theorem reachesCounters_of_accepted
    (accepted : (ue.checkSecurityModeCommand c cmd pdu).1 = .accepted) :
    (ue.checkSecurityModeCommand c cmd pdu).2.rxCount = ue.startCounters.countEst pdu + 1 ∧
      (ue.checkSecurityModeCommand c cmd pdu).2.kNasInt =
        (ue.startCounters.selectAlgorithms c cmd).kNasInt := by
  unfold checkSecurityModeCommand at accepted ⊢
  dsimp only at accepted ⊢
  repeat' split at accepted
  all_goals first | (cases accepted; done) | skip
  rename_i valid
  rw [if_neg ‹_›, if_neg ‹_›, if_neg ‹_›, if_neg ‹_›, if_neg ‹_›, if_pos valid]
  obtain ⟨-, state⟩ := integrityCheck_of_valid valid
  rw [state]
  exact ⟨countSucc_countEst, rfl⟩

theorem writePdu_takesCommand (takes : takesCommand c ue x pdu = true) :
    (ue.writePdu c x pdu).1.rxCount = ue.startCounters.countEst pdu + 1 ∧
      (ue.writePdu c x pdu).1.kNasInt =
        (ue.startCounters.selectAlgorithms c x.securityModeCommand).kNasInt := by
  simp only [takesCommand, Bool.and_eq_true, decide_eq_true_eq] at takes
  obtain ⟨command, accepted⟩ := takes
  have state := reachesCounters_of_accepted accepted
  rw [writePdu_command command]
  unfold parseSecurityModeCommand
  generalize ue.checkSecurityModeCommand c x.securityModeCommand pdu = checked at accepted state
  obtain ⟨outcome, after⟩ := checked
  subst accepted
  dsimp only
  rw [send_frame]
  exact state

theorem checkSecurityModeCommand_stopped
    (stopped : reachesCounters ue cmd pdu = false) : (ue.checkSecurityModeCommand c cmd pdu).2 = ue := by
  unfold checkSecurityModeCommand
  split
  · rfl
  · rename_i long
    split
    · rfl
    · rename_i native
      split
      · rfl
      · rename_i ksi
        split
        · rfl
        · rename_i caps
          have reaches : reachesCounters ue cmd pdu = true := by
            unfold reachesCounters
            rw [decide_eq_true (Nat.lt_of_not_le long), Bool.eq_false_iff.mpr ksi, Bool.eq_false_iff.mpr caps]
            simpa using native
          rw [stopped] at reaches
          cases reaches

theorem checkSecurityModeCommand_refused
    (reaches : reachesCounters ue cmd pdu = true)
    (refused : (ue.checkSecurityModeCommand c cmd pdu).1 ≠ .accepted) :
    (ue.checkSecurityModeCommand c cmd pdu).2.rxCount = ue.startCounters.rxCount ∧
      (ue.checkSecurityModeCommand c cmd pdu).2.txCount = ue.startCounters.txCount := by
  unfold reachesCounters at reaches
  rw [Bool.and_eq_true, Bool.and_eq_true, Bool.and_eq_true, Bool.not_eq_true', Bool.not_eq_true',
    decide_eq_true_eq] at reaches
  obtain ⟨⟨⟨long, native⟩, ksi⟩, caps⟩ := reaches
  unfold checkSecurityModeCommand at refused ⊢
  rw [if_neg (by omega), if_neg (by simp [native]), if_neg (by rw [ksi]; decide), if_neg (by rw [caps]; decide)]
    at refused ⊢
  dsimp only at refused ⊢
  split
  · exact ⟨rfl, rfl⟩
  · rename_i capable
    rw [if_neg capable] at refused
    split
    · rename_i valid
      rw [if_pos valid] at refused
      exact absurd rfl refused
    · exact ⟨rfl, rfl⟩

theorem writePdu_refusesCommand (command : isCommand pdu = true)
    (refused : (ue.checkSecurityModeCommand c x.securityModeCommand pdu).1 ≠ .accepted)
    (kept : reachesCounters ue x.securityModeCommand pdu = true → ue.authRequest = true →
      ue.rxCount = 0 ∧ ue.txCount = 0) :
    (ue.writePdu c x pdu).1.rxCount = ue.rxCount ∧ (ue.writePdu c x pdu).1.txCount = ue.txCount := by
  have started : reachesCounters ue x.securityModeCommand pdu = true →
      ue.startCounters.rxCount = ue.rxCount ∧ ue.startCounters.txCount = ue.txCount := by
    intro reaches
    unfold startCounters
    split
    · rename_i requested
      obtain ⟨rx, tx⟩ := kept reaches requested
      exact ⟨rx.symm, tx.symm⟩
    · exact ⟨rfl, rfl⟩
  have checked : (ue.checkSecurityModeCommand c x.securityModeCommand pdu).2.rxCount = ue.rxCount ∧
      (ue.checkSecurityModeCommand c x.securityModeCommand pdu).2.txCount = ue.txCount := by
    cases reaches : reachesCounters ue x.securityModeCommand pdu with
    | false =>
      rw [checkSecurityModeCommand_stopped reaches]
      exact ⟨rfl, rfl⟩
    | true =>
      obtain ⟨rx, tx⟩ := checkSecurityModeCommand_refused reaches refused
      rw [rx, tx]
      exact started reaches
  rw [writePdu_command command]
  unfold parseSecurityModeCommand
  generalize ue.checkSecurityModeCommand c x.securityModeCommand pdu = result at refused checked
  obtain ⟨outcome, after⟩ := result
  cases outcome with
  | dropped => exact checked
  | rejected => exact checked
  | accepted => exact absurd rfl refused

/-! ## The other messages that are not verified -/

theorem integrityCheck_of_wrong (wrong : (ue.integrityCheck c pdu).1 = false) :
    (ue.integrityCheck c pdu).2 = ue := by
  unfold integrityCheck at wrong ⊢
  dsimp only at wrong ⊢
  split
  · rename_i long
    rw [if_pos long] at wrong
    split
    · rename_i same
      rw [if_pos same] at wrong
      cases wrong
    · rfl
  · rfl

theorem handle_reject {handler : DlHandler} {secHdrType : Nat}
    (reject : handler = .attachReject ∨ handler = .authenticationReject ∨ handler = .serviceReject) :
    (ue.handle c x secHdrType plain handler).1.rxCount = ue.rxCount ∧
      (ue.handle c x secHdrType plain handler).1.txCount = ue.txCount := by
  rcases reject with rfl | rfl | rfl
  · change (ue.parseAttachReject x secHdrType).1.rxCount = _ ∧ (ue.parseAttachReject x secHdrType).1.txCount = _
    unfold parseAttachReject
    split
    · exact ⟨rfl, rfl⟩
    · split <;> exact ⟨rfl, rfl⟩
  · exact ⟨rfl, rfl⟩
  · change (ue.parseServiceReject x secHdrType).1.rxCount = _ ∧ (ue.parseServiceReject x secHdrType).1.txCount = _
    unfold parseServiceReject
    split
    · exact ⟨rfl, rfl⟩
    · split <;> exact ⟨rfl, rfl⟩

theorem handlerOf_reject {msgType : Nat} (exempt : msgType ∈ exemptTypes)
    (other : msgType ∉ [msgAuthenticationRequest, msgIdentityRequest]) :
    handlerOf msgType = none ∨ ∃ handler, handlerOf msgType = some handler ∧
      (handler = .attachReject ∨ handler = .authenticationReject ∨ handler = .serviceReject) := by
  simp only [exemptTypes, List.mem_cons, List.not_mem_nil, or_false, not_or] at exempt other
  rcases exempt with rfl | rfl | rfl | rfl | rfl | rfl | rfl
  · exact absurd rfl other.2
  · exact absurd rfl other.1
  · exact Or.inr ⟨_, rfl, Or.inr (Or.inl rfl)⟩
  · exact Or.inr ⟨_, rfl, Or.inl rfl⟩
  · exact Or.inl rfl
  · exact Or.inl rfl
  · exact Or.inr ⟨_, rfl, Or.inr (Or.inr rfl)⟩

theorem writePdu_plain (plain : parseMsgSecHeader pdu = hdrPlainNas)
    (other : parseMsgHeader pdu ∉ [msgAuthenticationRequest, msgIdentityRequest]) :
    (ue.writePdu c x pdu).1.rxCount = ue.rxCount ∧ (ue.writePdu c x pdu).1.txCount = ue.txCount := by
  unfold writePdu route
  rw [if_pos plain]
  by_cases exempt : parseMsgHeader pdu ∈ exemptTypes
  · rw [if_pos exempt]
    rcases handlerOf_reject exempt other with unhandled | ⟨handler, called, reject⟩
    · rw [unhandled]
      exact ⟨rfl, rfl⟩
    · rw [called]
      exact handle_reject reject
  · rw [if_neg exempt]
    exact ⟨rfl, rfl⟩

theorem writePdu_dropped (covered : parseMsgSecHeader pdu ≠ hdrPlainNas) (other : isCommand pdu = false)
    (wrong : verified c ue pdu = false) : (ue.writePdu c x pdu).1 = ue := by
  unfold writePdu route
  dsimp only
  rw [if_neg covered]
  by_cases fresh : parseMsgSecHeader pdu = hdrIntegrityWithNewEpsSecurityContext
  · have type : parseMsgHeader pdu ≠ msgSecurityModeCommand := by
      intro command
      simp [isCommand, fresh, command] at other
    rw [if_pos fresh, if_neg type]
  · rw [if_neg fresh]
    by_cases service : parseMsgSecHeader pdu = hdrServiceRequest
    · rw [if_pos service, parseMsgHeader_serviceRequest service]
      rfl
    · rw [if_neg service]
      by_cases header : parseMsgSecHeader pdu = hdrIntegrity ∨ parseMsgSecHeader pdu = hdrIntegrityAndCiphered
      · have mac : (ue.integrityCheck c pdu).1 = false := by simpa [verified, header] using wrong
        rw [if_pos header, mac, if_neg (by decide), integrityCheck_of_wrong mac]
      · rw [if_neg header]

/-! ## Runs -/

structure Safe (s : UeRun) : Prop where
  increasing : Increasing s.ue.rxCount s.accepted
  untampered : s.tampered = false

namespace Safe
variable {s t : UeRun} {e : Event}

theorem start (ue : UeNas) : Safe (start ue) := ⟨.nil _, rfl⟩

theorem takes (h : Safe s) (command : takesCommand c s.ue x pdu = true)
    (keeps : keepsCounters c s (.receives x pdu) = true) (next : s.step c (.receives x pdu) = some t) :
    Safe t := by
  obtain rfl := Option.some.inj next
  obtain ⟨counter, key⟩ := writePdu_takesCommand command
  have log : Increasing (s.ue.startCounters.countEst pdu + 1)
      (accept c s x pdu (s.ue.writePdu c x pdu).1) := by
    unfold keepsCounters at keeps
    dsimp only at keeps
    rw [if_pos command] at keeps
    unfold accept
    rw [if_pos command]
    rw [key]
    cases requested : s.ue.authRequest with
    | true =>
      rw [requested, if_pos rfl] at keeps
      rw [keeps]
      exact .singleton _
    | false =>
      rw [requested] at keeps
      have same : s.ue.startCounters = s.ue := by
        unfold startCounters
        rw [requested]
        rfl
      rw [same]
      exact h.increasing.accept (of_decide_eq_true keeps)
  constructor
  · dsimp only
    rw [counter]
    exact log
  · simp [h.untampered, command]

theorem accepts (h : Safe s) (other : isCommand pdu = false) (valid : verified c s.ue pdu = true)
    (keeps : keepsCounters c s (.receives x pdu) = true) (next : s.step c (.receives x pdu) = some t) :
    Safe t := by
  obtain rfl := Option.some.inj next
  have command : takesCommand c s.ue x pdu = false := by simp [takesCommand, other]
  unfold keepsCounters at keeps
  dsimp only at keeps
  rw [command, other, valid] at keeps
  simp only [Bool.false_eq_true, if_false, if_true, Bool.and_eq_true, decide_eq_true_eq] at keeps
  constructor
  · dsimp only
    unfold accept
    rw [writePdu_verified valid keeps.2, command, valid]
    exact h.increasing.accept keeps.1
  · simp [h.untampered, valid]

theorem unchanged (h : Safe s) (command : takesCommand c s.ue x pdu = false)
    (wrong : verified c s.ue pdu = false)
    (same : (s.ue.writePdu c x pdu).1.rxCount = s.ue.rxCount ∧ (s.ue.writePdu c x pdu).1.txCount = s.ue.txCount)
    (next : s.step c (.receives x pdu) = some t) : Safe t := by
  obtain rfl := Option.some.inj next
  constructor
  · dsimp only
    unfold accept
    rw [command, wrong, same.1]
    exact h.increasing
  · simp [h.untampered, changesCounters, same]

theorem verified_of_command (command : isCommand pdu = true) (ue : UeNas) : verified c ue pdu = false := by
  simp only [isCommand, Bool.and_eq_true, decide_eq_true_eq] at command
  unfold verified
  rw [command.1]
  rfl

theorem step (h : Safe s) (keeps : keepsCounters c s e = true) (next : s.step c e = some t) : Safe t := by
  cases e with
  | sends message =>
    obtain rfl := Option.some.inj next
    refine ⟨?_, h.untampered⟩
    rw [send_rxCount]
    exact h.increasing
  | receives x pdu =>
    cases takes : takesCommand c s.ue x pdu with
    | true => exact h.takes takes keeps next
    | false =>
      have keeps' := keeps
      unfold keepsCounters at keeps'
      dsimp only at keeps'
      rw [takes] at keeps'
      cases command : isCommand pdu with
      | true =>
        refine h.unchanged takes (verified_of_command command _) ?_ next
        apply writePdu_refusesCommand command
        · simpa [takesCommand, command] using takes
        · intro reaches requested
          simpa [command, reaches, requested] using keeps'
      | false =>
        cases valid : verified c s.ue pdu with
        | true => exact h.accepts command valid keeps next
        | false =>
          refine h.unchanged takes valid ?_ next
          by_cases plain : parseMsgSecHeader pdu = hdrPlainNas
          · apply writePdu_plain plain
            simpa [command, valid, plain] using keeps'
          · rw [writePdu_dropped plain command valid]
            exact ⟨rfl, rfl⟩

theorem run {ue : UeNas}
    (run : Reaches (UeRun.step c) (fun s e => keepsCounters c s e = true) (UeRun.start ue) s) : Safe s :=
  run.invariant (.start ue) fun _ _ _ h keeps next => h.step keeps next

end Safe

end UeRun

end IsrRan.Nas
