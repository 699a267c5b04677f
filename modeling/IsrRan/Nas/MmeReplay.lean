import IsrRan.Nas.MmeNas
import IsrRan.Nas.UeReplay

namespace IsrRan.Nas

namespace MmeNas

variable {c : Crypto} {mme : MmeNas} {x : UlContents} {pdu : Pdu}

def exemptTypes : List Nat :=
  [msgAttachRequest, msgIdentityResponse, msgAuthenticationResponse, msgAuthenticationFailure,
    msgSecurityModeReject, msgDetachRequest, msgDetachAccept, msgTrackingAreaUpdateRequest]

/-- A PDN Connectivity Request that gets to its case without a MAC, or with a wrong one. -/
def unverifiedPdnConnectivity (c : Crypto) (mme : MmeNas) (pdu : Pdu) : Bool :=
  let secHdrType := parseMsgSecHeader pdu
  (secHdrType = hdrPlainNas || secHdrType ∈ protectedHdrTypes && mme.imsi ≠ 0) &&
    !(mme.checkMac c pdu).1 && parseMsgHeader (mme.deciphered c pdu) = msgPdnConnectivityRequest

theorem integrityCheck_of_wrong (wrong : (mme.integrityCheck c pdu).1 = false) :
    (mme.integrityCheck c pdu).2 = mme := by
  unfold integrityCheck at wrong ⊢
  dsimp only at wrong ⊢
  split at wrong
  · cases wrong
  · rename_i mismatch
    rw [if_neg mismatch]

theorem checkMac_of_wrong (wrong : (mme.checkMac c pdu).1 = false) : (mme.checkMac c pdu).2 = mme := by
  unfold checkMac at wrong ⊢
  split at wrong
  · rename_i covered
    rw [if_pos covered]
    exact integrityCheck_of_wrong wrong
  · rename_i plain
    rw [if_neg plain]

theorem countUl_ne (mme : MmeNas) : mme.countUl ≠ mme := by
  intro same
  have counts : countSucc mme.ulNasCount = mme.ulNasCount := congrArg MmeNas.ulNasCount same
  unfold countSucc at counts
  omega

theorem dispatch_unverified {secHdrType msgType : Nat} (restricted : msgType ∉ exemptTypes)
    (other : msgType ≠ msgPdnConnectivityRequest) :
    (mme.dispatch c x secHdrType msgType false).1 = mme := by
  simp only [exemptTypes] at restricted
  unfold dispatch
  all_goals first | rfl | simp_all

theorem changes_authenticated_iff (c : Crypto) (mme : MmeNas) (x : UlContents) (pdu : Pdu) :
    ((mme.handleUplinkNasTransport c x pdu).1 ≠ mme →
        (mme.checkMac c pdu).1 = true ∨ parseMsgHeader (mme.deciphered c pdu) ∈ exemptTypes) ↔
      mme.unverifiedPdnConnectivity c pdu = false := by
  unfold handleUplinkNasTransport unverifiedPdnConnectivity
  dsimp only
  generalize parseMsgHeader (mme.deciphered c pdu) = msgType
  cases valid : (mme.checkMac c pdu).1 with
  | true => simp
  | false =>
    rw [checkMac_of_wrong valid]
    by_cases pdn : msgType = msgPdnConnectivityRequest
    · subst pdn
      have counted : ∀ hdr, (mme.dispatch c x hdr msgPdnConnectivityRequest false).1 = mme.countUl :=
        fun _ => rfl
      have restricted : msgPdnConnectivityRequest ∉ exemptTypes := by decide
      have known : mme.lacksContext (parseMsgSecHeader pdu) msgPdnConnectivityRequest =
          (decide (parseMsgSecHeader pdu ≠ hdrPlainNas) && decide (mme.imsi = 0)) := by
        unfold lacksContext
        rw [decide_eq_false (show msgPdnConnectivityRequest ≠ msgIdentityResponse by decide)]
        simp
      rw [known]
      by_cases plain : parseMsgSecHeader pdu = hdrPlainNas
      · simp [plain, counted, countUl_ne, restricted]
      · by_cases covered : parseMsgSecHeader pdu ∈ protectedHdrTypes
        · by_cases imsi : mme.imsi = 0 <;> simp [plain, covered, imsi, counted, countUl_ne, restricted]
        · simp [plain, covered]
    · simp only [pdn, decide_false, Bool.and_false, iff_true]
      intro changed
      refine Or.inr ?_
      by_contra restricted
      refine changed ?_
      split
      · split
        · rfl
        · exact dispatch_unverified restricted pdn
      · rfl

def plainPdnConnectivityRequest : Pdu := .ofBytes [0x02, 0x01, 0xD0, 0x31]

theorem plainPdnConnectivityRequest_counts :
    ¬ ∀ (c : Crypto) (mme : MmeNas) (x : UlContents) (pdu : Pdu), mme.imsi ≠ 0 →
      mme.emmState = .registered → (mme.handleUplinkNasTransport c x pdu).1 ≠ mme →
        (mme.checkMac c pdu).1 = true ∨ parseMsgHeader (mme.deciphered c pdu) ∈ exemptTypes := by
  intro authenticated
  let c : Crypto := ⟨fun _ _ _ _ _ => [1, 2, 3, 4], fun _ _ _ _ data => data, fun _ _ _ => ([], [])⟩
  let mme : MmeNas := ⟨1010123456789, .registered, 1, 1, false, [], 7, 3, 0, 2, [], [], [], [], 0⟩
  rcases authenticated c mme {} plainPdnConnectivityRequest (by decide) rfl (by decide) with valid | exempt
  · exact absurd valid (by decide)
  · exact absurd exempt (by decide)

end MmeNas

structure MmeRun where
  mme : MmeNas
  accepted : List Nat
  tampered : Bool
  deriving DecidableEq, Repr

namespace MmeRun
open Lib MmeNas

inductive Event where
  | sends (message : List Byte)
  | receives (x : UlContents) (pdu : Pdu)

def start (mme : MmeNas) : MmeRun := ⟨mme, [], false⟩

def typeOf (c : Crypto) (mme : MmeNas) (pdu : Pdu) : Nat := parseMsgHeader (mme.deciphered c pdu)

def authenticates (c : Crypto) (mme : MmeNas) (x : UlContents) (pdu : Pdu) : Bool :=
  typeOf c mme pdu = msgAuthenticationResponse && x.unpacked && mme.resMatches x.res

def accept (c : Crypto) (s : MmeRun) (pdu : Pdu) (after : MmeNas) : List Nat :=
  if after.kNasInt ≠ s.mme.kNasInt then []
  else if (s.mme.checkMac c pdu).1 then s.accepted ++ [s.mme.estimatedCount pdu]
  else s.accepted

def changesCounters (c : Crypto) (x : UlContents) (pdu : Pdu) (mme after : MmeNas) : Bool :=
  after.ulNasCount ≠ mme.ulNasCount ||
    after.dlNasCount ≠ mme.dlNasCount && !authenticates c mme x pdu

def step (c : Crypto) (s : MmeRun) : Event → Option MmeRun
  | .sends message => some { s with mme := (s.mme.packProtected c message).1 }
  | .receives x pdu =>
    let after := (s.mme.handleUplinkNasTransport c x pdu).1
    some ⟨after, accept c s pdu after,
      s.tampered || !(s.mme.checkMac c pdu).1 && changesCounters c x pdu s.mme after⟩

/-! ## When the counters are safe -/

def countedTypes : List Nat :=
  [msgAttachRequest, msgIdentityResponse, msgAuthenticationFailure, msgDetachRequest,
    msgTrackingAreaUpdateRequest, msgPdnConnectivityRequest]

def counts (secHdrType msgType : Nat) : Bool :=
  msgType ∈ countedTypes ||
    msgType = msgSecurityModeComplete && secHdrType = hdrIntegrityAndCipheredWithNewEpsSecurityContext ||
    (msgType = msgAttachComplete || msgType = msgEsmInformationResponse) && secHdrType = hdrIntegrityAndCiphered

def isDispatched (c : Crypto) (mme : MmeNas) (pdu : Pdu) : Bool :=
  (parseMsgSecHeader pdu = hdrPlainNas || parseMsgSecHeader pdu ∈ protectedHdrTypes) &&
    !mme.lacksContext (parseMsgSecHeader pdu) (typeOf c mme pdu)

def nextKey (c : Crypto) (mme : MmeNas) : Key := (c.generateNasKeys mme.kAsme mme.cipherAlgo mme.integAlgo).2

/-- A verified message is not behind the receive counter and is counted, or authenticates the UE anew, and
one that is not verified stays away from the counters. -/
def keepsCounters (c : Crypto) (s : MmeRun) : Event → Bool
  | .sends _ => true
  | .receives x pdu =>
    if (s.mme.checkMac c pdu).1 then
      s.mme.ulNasCount ≤ s.mme.estimatedCount pdu && s.mme.estimatedCount pdu < 4294967295 &&
        isDispatched c s.mme pdu &&
          (counts (parseMsgSecHeader pdu) (typeOf c s.mme pdu) ||
            authenticates c s.mme x pdu && nextKey c s.mme ≠ s.mme.kNasInt)
    else
      !isDispatched c s.mme pdu ||
        typeOf c s.mme pdu ∉ countedTypes &&
          (typeOf c s.mme pdu ≠ msgAuthenticationResponse ||
            s.mme.ulNasCount = 0 && (s.mme.dlNasCount = 0 || authenticates c s.mme x pdu))

/-! ## What the handlers do to the counters -/

variable {c : Crypto} {mme : MmeNas} {x : UlContents} {pdu : Pdu} {secHdrType msgType : Nat} {macValid : Bool}

theorem handleAttachRequest_known (known : mme.imsi ≠ 0) : mme.handleAttachRequest x = mme := by
  unfold handleAttachRequest
  simp [known]

theorem countUl_counters {after : MmeNas} (ul : after.ulNasCount = mme.ulNasCount)
    (key : after.kNasInt = mme.kNasInt) :
    after.countUl.ulNasCount = countSucc mme.ulNasCount ∧ after.countUl.kNasInt = mme.kNasInt :=
  ⟨congrArg countSucc ul, key⟩

theorem dispatch_counts (known : msgType = msgAttachRequest → mme.imsi ≠ 0)
    (counted : counts secHdrType msgType = true) :
    (mme.dispatch c x secHdrType msgType true).1.ulNasCount = countSucc mme.ulNasCount ∧
      (mme.dispatch c x secHdrType msgType true).1.kNasInt = mme.kNasInt := by
  simp only [counts, countedTypes, List.mem_cons, List.not_mem_nil, or_false, Bool.or_eq_true,
    Bool.and_eq_true, decide_eq_true_eq] at counted
  rcases counted with ((rfl | rfl | rfl | rfl | rfl | rfl) | ⟨rfl, rfl⟩) | ⟨rfl | rfl, rfl⟩
  · change (mme.handleAttachRequest x).countUl.ulNasCount = _ ∧ (mme.handleAttachRequest x).countUl.kNasInt = _
    rw [handleAttachRequest_known (known rfl)]
    exact ⟨rfl, rfl⟩
  · apply @countUl_counters mme (mme.handleIdentityResponse x)
    all_goals
      unfold handleIdentityResponse
      split
      · dsimp only
        split <;> rfl
      · rfl
  · apply @countUl_counters mme (mme.handleAuthenticationFailure x)
    all_goals
      unfold handleAuthenticationFailure
      split
      · split <;> rfl
      · rfl
  · apply @countUl_counters mme (mme.handleDetachRequest x)
    all_goals
      unfold handleDetachRequest
      split <;> rfl
  · exact ⟨rfl, rfl⟩
  · exact ⟨rfl, rfl⟩
  · apply @countUl_counters mme (mme.handleSecurityModeComplete c x).1
    all_goals
      unfold handleSecurityModeComplete
      split
      · split <;> rfl
      · rfl
  · apply @countUl_counters mme (mme.handleAttachComplete c x).1
    all_goals
      unfold handleAttachComplete
      split
      · split <;> rfl
      · rfl
  · apply @countUl_counters mme (mme.handleEsmInformationResponse x)
    all_goals
      unfold handleEsmInformationResponse
      split <;> rfl

theorem dispatch_authenticates (unpacked : x.unpacked = true) (right : mme.resMatches x.res = true) :
    (mme.dispatch c x secHdrType msgAuthenticationResponse macValid).1.ulNasCount = 0 ∧
      (mme.dispatch c x secHdrType msgAuthenticationResponse macValid).1.kNasInt = nextKey c mme := by
  refine ⟨rfl, ?_⟩
  change (mme.handleAuthenticationResponse c x).1.kNasInt = _
  unfold handleAuthenticationResponse
  rw [if_pos unpacked, if_pos right]
  rfl

theorem dispatch_uncounted (uncounted : msgType ∉ countedTypes) (other : msgType ≠ msgAuthenticationResponse) :
    (mme.dispatch c x secHdrType msgType false).1 = mme := by
  simp only [countedTypes] at uncounted
  unfold dispatch
  all_goals first | rfl | simp_all

theorem checkMac_of_valid (valid : (mme.checkMac c pdu).1 = true) :
    parseMsgSecHeader pdu ∈ protectedHdrTypes ∧
      (mme.checkMac c pdu).2 = { mme with ulNasCount := mme.estimatedCount pdu } := by
  unfold checkMac at valid ⊢
  split at valid
  · rename_i covered
    refine ⟨covered, ?_⟩
    rw [if_pos covered]
    unfold integrityCheck at valid ⊢
    dsimp only at valid ⊢
    split at valid
    · rename_i same
      rw [if_pos same]
    · cases valid
  · cases valid

theorem handleUplinkNasTransport_dispatched (dispatched : isDispatched c mme pdu = true) :
    mme.handleUplinkNasTransport c x pdu =
      (mme.checkMac c pdu).2.dispatch c x (parseMsgSecHeader pdu) (typeOf c mme pdu) (mme.checkMac c pdu).1 := by
  simp only [isDispatched, typeOf, Bool.and_eq_true, Bool.or_eq_true, decide_eq_true_eq, Bool.not_eq_true']
    at dispatched
  obtain ⟨header, known⟩ := dispatched
  unfold handleUplinkNasTransport
  dsimp only
  rw [if_pos header, known]
  rfl

theorem handleUplinkNasTransport_dropped (dropped : isDispatched c mme pdu = false)
    (wrong : (mme.checkMac c pdu).1 = false) : (mme.handleUplinkNasTransport c x pdu).1 = mme := by
  unfold handleUplinkNasTransport
  dsimp only
  split
  · rename_i header
    have context : mme.lacksContext (parseMsgSecHeader pdu) (parseMsgHeader (mme.deciphered c pdu)) = true := by
      simpa [isDispatched, typeOf, header] using dropped
    rw [if_pos context]
    exact checkMac_of_wrong wrong
  · rfl

/-! ## Runs -/

structure Safe (s : MmeRun) : Prop where
  increasing : Increasing s.mme.ulNasCount s.accepted
  untampered : s.tampered = false

namespace Safe
variable {s t : MmeRun} {e : Event}

theorem start (mme : MmeNas) : Safe (start mme) := ⟨.nil _, rfl⟩

theorem accepts (h : Safe s) (valid : (s.mme.checkMac c pdu).1 = true)
    (keeps : keepsCounters c s (.receives x pdu) = true) (next : s.step c (.receives x pdu) = some t) :
    Safe t := by
  obtain rfl := Option.some.inj next
  unfold keepsCounters at keeps
  dsimp only at keeps
  rw [if_pos valid] at keeps
  simp only [Bool.and_eq_true, Bool.or_eq_true, decide_eq_true_eq] at keeps
  obtain ⟨⟨⟨fresh, small⟩, dispatched⟩, effect⟩ := keeps
  obtain ⟨covered, state⟩ := checkMac_of_valid valid
  refine ⟨?_, by simp [h.untampered, valid]⟩
  unfold accept
  rw [handleUplinkNasTransport_dispatched dispatched, state, valid]
  rcases effect with counted | ⟨answered, newKey⟩
  · have known : typeOf c s.mme pdu = msgAttachRequest →
        ({ s.mme with ulNasCount := s.mme.estimatedCount pdu } : MmeNas).imsi ≠ 0 := by
      intro attach unknown
      have header : parseMsgSecHeader pdu ≠ hdrPlainNas := by
        intro plain
        rw [plain] at covered
        exact absurd covered (by decide)
      have unknown' : s.mme.imsi = 0 := unknown
      have lacks : s.mme.lacksContext (parseMsgSecHeader pdu) (typeOf c s.mme pdu) = true := by
        simp [lacksContext, header, attach, unknown', msgAttachRequest, msgIdentityResponse]
      simp [isDispatched, lacks] at dispatched
    obtain ⟨counter, key⟩ := @dispatch_counts c { s.mme with ulNasCount := s.mme.estimatedCount pdu } x
      (parseMsgSecHeader pdu) (typeOf c s.mme pdu) known counted
    rw [counter, key, if_neg (by simp)]
    have next : countSucc (s.mme.estimatedCount pdu) = s.mme.estimatedCount pdu + 1 :=
      Nat.mod_eq_of_lt (by omega)
    rw [next]
    exact h.increasing.accept fresh
  · simp only [authenticates, Bool.and_eq_true, decide_eq_true_eq] at answered
    obtain ⟨⟨response, unpacked⟩, right⟩ := answered
    rw [response]
    obtain ⟨-, key⟩ := @dispatch_authenticates c { s.mme with ulNasCount := s.mme.estimatedCount pdu } x
      (parseMsgSecHeader pdu) true unpacked right
    rw [key, if_pos]
    · exact .nil _
    · exact newKey

theorem ignores (h : Safe s) (wrong : (s.mme.checkMac c pdu).1 = false)
    (keeps : keepsCounters c s (.receives x pdu) = true) (next : s.step c (.receives x pdu) = some t) :
    Safe t := by
  obtain rfl := Option.some.inj next
  unfold keepsCounters at keeps
  dsimp only at keeps
  rw [wrong, if_neg (by decide)] at keeps
  have unchanged : (s.mme.handleUplinkNasTransport c x pdu).1 = s.mme →
      Safe ⟨(s.mme.handleUplinkNasTransport c x pdu).1,
        accept c s pdu (s.mme.handleUplinkNasTransport c x pdu).1, s.tampered ||
          !(s.mme.checkMac c pdu).1 &&
            changesCounters c x pdu s.mme (s.mme.handleUplinkNasTransport c x pdu).1⟩ := by
    intro same
    rw [same]
    refine ⟨?_, by simp [h.untampered, changesCounters]⟩
    unfold accept
    rw [if_neg (by simp), wrong]
    exact h.increasing
  cases dispatched : isDispatched c s.mme pdu with
  | false => exact unchanged (handleUplinkNasTransport_dropped dispatched wrong)
  | true =>
    rw [dispatched] at keeps
    simp only [Bool.not_true, Bool.false_or, Bool.and_eq_true, Bool.or_eq_true, decide_eq_true_eq] at keeps
    obtain ⟨uncounted, reset⟩ := keeps
    have handled := @handleUplinkNasTransport_dispatched c s.mme x pdu dispatched
    rw [checkMac_of_wrong wrong, wrong] at handled
    by_cases response : typeOf c s.mme pdu = msgAuthenticationResponse
    · obtain ⟨ul, dl⟩ := reset.resolve_left (fun other => other response)
      rw [response] at handled
      have counters : (s.mme.handleUplinkNasTransport c x pdu).1.ulNasCount = 0 ∧
          (s.mme.handleUplinkNasTransport c x pdu).1.dlNasCount = 0 := by
        rw [handled]
        exact ⟨rfl, rfl⟩
      constructor
      · dsimp only
        rw [counters.1]
        have log := h.increasing
        rw [ul] at log
        unfold accept
        rw [wrong]
        split
        · exact .nil _
        · exact log
      · rcases dl with zero | right
        · simp [h.untampered, changesCounters, counters, ul, zero]
        · simp [h.untampered, changesCounters, counters, ul, right]
    · apply unchanged
      rw [handled]
      exact dispatch_uncounted uncounted response

theorem step (h : Safe s) (keeps : keepsCounters c s e = true) (next : s.step c e = some t) : Safe t := by
  cases e with
  | sends message =>
    obtain rfl := Option.some.inj next
    exact ⟨h.increasing, h.untampered⟩
  | receives x pdu =>
    cases valid : (s.mme.checkMac c pdu).1 with
    | true => exact h.accepts valid keeps next
    | false => exact h.ignores valid keeps next

theorem run {mme : MmeNas}
    (run : Reaches (MmeRun.step c) (fun s e => keepsCounters c s e = true) (MmeRun.start mme) s) : Safe s :=
  run.invariant (.start mme) fun _ _ _ h keeps next => h.step keeps next

end Safe

end MmeRun

open Lib

variable {c : Crypto} {ue : UeNas} {mme : MmeNas} {s : UeRun} {t : MmeRun}

theorem accepted_increase (c : Crypto)
    (ueRun : Reaches (UeRun.step c) (fun s e => UeRun.keepsCounters c s e = true) (UeRun.start ue) s)
    (mmeRun : Reaches (MmeRun.step c) (fun t e => MmeRun.keepsCounters c t e = true) (MmeRun.start mme) t) :
    (s.accepted.Pairwise (· < ·) ∧ s.tampered = false) ∧ t.accepted.Pairwise (· < ·) ∧ t.tampered = false := by
  have ueSafe := UeRun.Safe.run ueRun
  have mmeSafe := MmeRun.Safe.run mmeRun
  exact ⟨⟨ueSafe.increasing.sorted, ueSafe.untampered⟩, mmeSafe.increasing.sorted, mmeSafe.untampered⟩

def countingCrypto : Crypto where
  eia _ _ count _ _ := [1, 2, 3, UInt8.ofNat count]
  eea _ _ _ _ data := data
  generateNasKeys _ _ _ := ([], [])

def securedUe : UeNas := ⟨[1], [2], 0, 1, 1, 5, 0, [], true, true, false, hdrIntegrityAndCiphered, [], []⟩

def securedMme : MmeNas := ⟨1, .registered, 0, 0, false, [], 7, 3, 0, 1, [1], [2], [], [], 0⟩

def protectedInformation : Pdu := .ofBytes [0x17, 1, 2, 3, 5, 5, 0x07, 0x61]

def plainAttachReject : Pdu := .ofBytes [0x07, 0x44, 0x03]

def protectedUpdate : Pdu := .ofBytes [0x17, 1, 2, 3, 9, 9, 0x07, 0x48]
def forgedComplete : Pdu := .ofBytes [0x27, 1, 2, 3, 0, 9, 0x07, 0x43]

theorem accepted_increase_secured : ∃ s t,
    runAllowed (UeRun.step countingCrypto) (UeRun.keepsCounters countingCrypto) (UeRun.start securedUe)
      [.receives {} protectedInformation, .receives {} plainAttachReject] = some s ∧
    runAllowed (MmeRun.step countingCrypto) (MmeRun.keepsCounters countingCrypto) (MmeRun.start securedMme)
      [.receives {} protectedUpdate, .receives {} forgedComplete] = some t ∧
    (s.accepted.Pairwise (· < ·) ∧ s.tampered = false) ∧ t.accepted.Pairwise (· < ·) ∧ t.tampered = false := by
  have ueRuns : (runAllowed (UeRun.step countingCrypto) (UeRun.keepsCounters countingCrypto)
      (UeRun.start securedUe) [.receives {} protectedInformation, .receives {} plainAttachReject]).isSome =
      true := by decide +kernel
  have mmeRuns : (runAllowed (MmeRun.step countingCrypto) (MmeRun.keepsCounters countingCrypto)
      (MmeRun.start securedMme) [.receives {} protectedUpdate, .receives {} forgedComplete]).isSome =
      true := by decide +kernel
  obtain ⟨s, ueRun⟩ := Option.isSome_iff_exists.mp ueRuns
  obtain ⟨t, mmeRun⟩ := Option.isSome_iff_exists.mp mmeRuns
  refine ⟨s, t, ueRun, mmeRun, ?_⟩
  exact accepted_increase countingCrypto (reaches_of_runAllowed _ ueRun) (reaches_of_runAllowed _ mmeRun)

/-- What is verified is a message that the MME has sent, with the COUNT that it was sent with. -/
def UeRun.unforgeable (c : Crypto) (sent : List (Pdu × Nat)) (s : UeRun) : UeRun.Event → Bool
  | .sends _ => true
  | .receives x pdu =>
    if UeRun.takesCommand c s.ue x pdu then (pdu, s.ue.startCounters.countEst pdu) ∈ sent
    else !UeRun.verified c s.ue pdu || (pdu, s.ue.countEst pdu) ∈ sent

def MmeRun.unforgeable (c : Crypto) (sent : List (Pdu × Nat)) (t : MmeRun) : MmeRun.Event → Bool
  | .sends _ => true
  | .receives _ pdu => !(t.mme.checkMac c pdu).1 || (pdu, t.mme.estimatedCount pdu) ∈ sent

theorem replay_accepted :
    ¬ ∀ (c : Crypto) (downlink uplink : List (Pdu × Nat)) (ue : UeNas) (mme : MmeNas) (s : UeRun) (t : MmeRun),
      Reaches (UeRun.step c) (fun s e => UeRun.unforgeable c downlink s e = true) (UeRun.start ue) s →
      Reaches (MmeRun.step c) (fun t e => MmeRun.unforgeable c uplink t e = true) (MmeRun.start mme) t →
      (s.accepted.Pairwise (· < ·) ∧ s.tampered = false) ∧
        t.accepted.Pairwise (· < ·) ∧ t.tampered = false := by
  intro increase
  have replayed : (runAllowed (UeRun.step countingCrypto)
      (UeRun.unforgeable countingCrypto [(protectedInformation, 5)]) (UeRun.start securedUe)
      [.receives {} protectedInformation, .receives {} protectedInformation]).any
        (fun s => s.accepted = [5, 5]) = true := by decide +kernel
  obtain ⟨s, run, accepted⟩ := (Option.any_eq_true _ _).mp replayed
  have sorted := (increase countingCrypto _ [] securedUe securedMme s (MmeRun.start securedMme)
    (reaches_of_runAllowed _ run) .refl).1.1
  rw [of_decide_eq_true accepted] at sorted
  exact absurd sorted (by decide)

end IsrRan.Nas
