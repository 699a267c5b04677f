import IsrRan.Lib.Transition
import IsrRan.Nas.MmeNas

namespace IsrRan.Nas
open List Pdu

structure Crypto.Stream (c : Crypto) : Prop where
  length : ∀ algo key count direction data, (c.eea algo key count direction data).length = data.length
  involutive : ∀ algo key count direction data,
    c.eea algo key count direction (c.eea algo key count direction data) = data

def plainType (message : List Byte) : Nat :=
  if byteAt message 0 % 16 = pdEpsSessionManagement then byteAt message 2 else byteAt message 1

structure SecurityContext where
  kNasEnc : Key
  kNasInt : Key
  cipherAlgo : Nat
  integAlgo : Nat
  deriving DecidableEq, Repr

def UeNas.securityContext (ue : UeNas) : SecurityContext :=
  ⟨ue.kNasEnc, ue.kNasInt, ue.cipherAlgo, ue.integAlgo⟩

def MmeNas.securityContext (mme : MmeNas) : SecurityContext :=
  ⟨mme.kNasEnc, mme.kNasInt, mme.cipherAlgo, mme.integAlgo⟩

structure InFlight where
  message : List Byte
  sent : SentMessage
  deriving DecidableEq, Repr

/-- The two ends after a security mode procedure, what is in flight between them, and with which key and
COUNT each has ciphered. -/
structure Exchange where
  ue : UeNas
  mme : MmeNas
  uplink : List InFlight
  downlink : List InFlight
  ueCiphered : List (Key × Nat)
  mmeCiphered : List (Key × Nat)
  deriving DecidableEq, Repr

namespace Exchange

inductive Event where
  | ueSends (message : List Byte)
  | mmeSends (message : List Byte)
  | deliverUplink (x : UlContents)
  | deliverDownlink (x : DlContents)
  | loseUplink
  | loseDownlink

def start (ue : UeNas) (mme : MmeNas) : Exchange := ⟨ue, mme, [], [], [], []⟩

def putUplink (s : Exchange) (message : List Byte) (out : UeNas × List SentMessage) : Exchange :=
  { s with
    ue := out.1
    uplink := s.uplink ++ out.2.map (⟨message, ·⟩)
    ueCiphered := s.ueCiphered ++ (out.2.filterMap (·.cipherCount)).map (s.ue.kNasEnc, ·) }

def putDownlink (s : Exchange) (message : List Byte) (out : MmeNas × List SentMessage) : Exchange :=
  { s with
    mme := out.1
    downlink := s.downlink ++ out.2.map (⟨message, ·⟩)
    mmeCiphered := s.mmeCiphered ++ (out.2.filterMap (·.cipherCount)).map (s.mme.kNasEnc, ·) }

def isProtected (m : SentMessage) : Bool := parseMsgSecHeader m.pdu ≠ hdrPlainNas

/-- The plain rejects with which the MME answers some requests are left out: the UE acts on none of them. -/
def step (c : Crypto) (s : Exchange) : Event → Option Exchange
  | .ueSends message => some (s.putUplink message (s.ue.send c message))
  | .mmeSends message =>
    let out := s.mme.packProtected c message
    some (s.putDownlink message (out.1, [out.2]))
  | .deliverUplink x =>
    match s.uplink with
    | [] => none
    | m :: rest =>
      let out := s.mme.handleUplinkNasTransport c x m.sent.pdu
      some ({ s with uplink := rest }.putDownlink x.reply (out.1, out.2.filter isProtected))
  | .deliverDownlink x =>
    match s.downlink with
    | [] => none
    | m :: rest => some ({ s with downlink := rest }.putUplink x.reply (s.ue.writePdu c x m.sent.pdu))
  | .loseUplink =>
    match s.uplink with
    | [] => none
    | _ :: rest => some { s with uplink := rest }
  | .loseDownlink =>
    match s.downlink with
    | [] => none
    | _ :: rest => some { s with downlink := rest }

/-! ## The exchanges in question -/

structure Secured (ue : UeNas) (mme : MmeNas) : Prop where
  securityContext : mme.securityContext = ue.securityContext
  haveCtxt : ue.haveCtxt = true
  currentSecHdr : ue.currentSecHdr = hdrIntegrityAndCiphered
  imsi : mme.imsi ≠ 0
  txCount : ue.txCount = 1
  rxCount : ue.rxCount = 1
  ulNasCount : mme.ulNasCount = 1
  dlNasCount : mme.dlNasCount = 0

def mmeTypes : List Nat :=
  [msgEsmInformationRequest, msgAttachAccept, msgEmmInformation, msgTrackingAreaUpdateReject,
    msgPdnConnectivityReject]

def fits (message : List Byte) : Bool := message.length + 6 ≤ maxBufferSizeBytes

def ueMessage (message : List Byte) : Bool :=
  fits message && plainType message ≠ msgAuthenticationResponse && plainType message ≠ msgIdentityResponse

def mmeMessage (message : List Byte) : Bool :=
  fits message && plainType message ∈ mmeTypes && byteAt message 0 / 16 = hdrPlainNas

/-- Each end sends the messages of its own implementation, and no authentication is started anew. -/
def exchanges (_ : Exchange) : Event → Bool
  | .ueSends message => ueMessage message
  | .mmeSends message => mmeMessage message
  | .deliverUplink x => mmeMessage x.reply
  | .deliverDownlink x => ueMessage x.reply
  | .loseUplink => true
  | .loseDownlink => true

/-! ## Agreement -/

def uplinkAgrees (mme : MmeNas) (m : SentMessage) : Prop :=
  mme.estimatedCount m.pdu = m.count ∧ ∀ n ∈ m.cipherCount, MmeNas.decryptCount m.pdu = n

def downlinkAgrees (c : Crypto) (ue : UeNas) (m : SentMessage) : Prop :=
  ue.countEst m.pdu = m.count ∧ ∀ n ∈ m.cipherCount, (ue.integrityCheck c m.pdu).2.countEst m.pdu = n

structure Agrees (c : Crypto) (s : Exchange) : Prop where
  uplink : ∀ m ∈ s.uplink.head?, uplinkAgrees s.mme m.sent
  downlink : ∀ m ∈ s.downlink.head?, downlinkAgrees c s.ue m.sent
  ueCiphered : s.ueCiphered.Nodup
  mmeCiphered : s.mmeCiphered.Nodup

/-! ## When the COUNTs agree -/

def mmeCounts (message : List Byte) : Bool :=
  plainType message ∈ [msgAttachRequest, msgAuthenticationFailure, msgDetachRequest, msgAttachComplete,
    msgEsmInformationResponse, msgTrackingAreaUpdateRequest, msgPdnConnectivityRequest]

def ueCounts (x : DlContents) (message : List Byte) : Bool :=
  plainType message = msgEsmInformationRequest || plainType message = msgEmmInformation ||
    plainType message = msgAttachAccept && (!x.epsOnly || x.bearerAccepted)

def mmeAnswers (mme : MmeNas) (x : UlContents) (message : List Byte) : Bool :=
  plainType message = msgAttachComplete && mme.emmState = .deregistered &&
    x.unpacked && 5 ≤ x.epsBearerId && x.epsBearerId ≤ 15

def ueAnswers (x : DlContents) (message : List Byte) : Bool :=
  plainType message = msgEsmInformationRequest ||
    plainType message = msgAttachAccept && x.epsOnly && x.bearerAccepted && x.bearerAdded

def usable (cipherAlgo count : Nat) : Bool := (cipherAlgo = 0 || count < 256) && count < 16777216

/-- The last COUNT of a block is neither lost nor left uncounted, and every COUNT used is `usable`. -/
def keepsCounts (s : Exchange) : Event → Bool
  | .ueSends _ => usable s.ue.cipherAlgo s.ue.txCount
  | .mmeSends _ => usable s.mme.cipherAlgo (s.mme.dlNasCount + 1)
  | .deliverUplink x =>
    s.uplink.head?.all fun m =>
      (m.sent.count % 256 ≠ 255 || mmeCounts m.message) &&
        (!mmeAnswers s.mme x m.message || usable s.mme.cipherAlgo (s.mme.dlNasCount + 1))
  | .deliverDownlink x =>
    s.downlink.head?.all fun m =>
      (m.sent.count % 256 ≠ 255 || ueCounts x m.message) &&
        (!ueAnswers x m.message || usable s.ue.cipherAlgo s.ue.txCount)
  | .loseUplink => s.uplink.head?.all fun m => m.sent.count % 256 ≠ 255
  | .loseDownlink => s.downlink.head?.all fun m => m.sent.count % 256 ≠ 255

end Exchange

variable {c : Crypto} {κ : SecurityContext} {ue : UeNas} {mme : MmeNas}
variable {direction : Direction} {count cipherCount : Nat} {message : List Byte}

/-! ## A protected message -/

def protectedPdu (c : Crypto) (κ : SecurityContext) (direction : Direction) (count cipherCount : Nat)
    (message : List Byte) : Pdu :=
  let seq := UInt8.ofNat (count % 256)
  let body := c.cipher κ.cipherAlgo κ.kNasEnc cipherCount direction message
  let mac := c.mac κ.integAlgo κ.kNasInt count direction (seq :: body)
  .ofBytes (0x27 :: mac.getD 0 0 :: mac.getD 1 0 :: mac.getD 2 0 :: mac.getD 3 0 :: seq :: body)

theorem UeNas.protect_eq : ue.protect c hdrIntegrityAndCiphered message =
    ⟨protectedPdu c ue.securityContext .uplink ue.txCount ue.txCount message, ue.txCount,
      if ue.cipherAlgo ≠ 0 then some ue.txCount else none⟩ := by
  simp [UeNas.protect]
  rfl

theorem MmeNas.protect_eq : mme.protect c hdrIntegrityAndCiphered message =
    ⟨protectedPdu c mme.securityContext .downlink mme.dlNasCount (mme.dlNasCount % 256) message,
      mme.dlNasCount, if mme.cipherAlgo ≠ 0 then some (mme.dlNasCount % 256) else none⟩ := by
  simp [MmeNas.protect]
  rfl

theorem cipher_length (stream : c.Stream) (algo : Nat) (key : Key) (data : List Byte) :
    (c.cipher algo key count direction data).length = data.length := by
  unfold Crypto.cipher
  split
  · exact stream.length ..
  · rfl

theorem cipher_cipher (stream : c.Stream) (algo : Nat) (key : Key) (data : List Byte) :
    c.cipher algo key count direction (c.cipher algo key count direction data) = data := by
  unfold Crypto.cipher
  split
  · exact stream.involutive ..
  · rfl

theorem cipher_none {algo : Nat} (none_ : algo = 0) (key : Key) (data : List Byte) :
    c.cipher algo key count direction data = data := by
  subst none_
  simp [Crypto.cipher]

theorem parseMsgSecHeader_protectedPdu :
    parseMsgSecHeader (protectedPdu c κ direction count cipherCount message) = hdrIntegrityAndCiphered := by
  simp [parseMsgSecHeader, protectedPdu, ofBytes]

theorem nBytes_protectedPdu (stream : c.Stream) :
    (protectedPdu c κ direction count cipherCount message).nBytes = message.length + 6 := by
  simp [protectedPdu, ofBytes, cipher_length stream]

theorem sequenceNumber_protectedPdu :
    byteAt (protectedPdu c κ direction count cipherCount message).buffer 5 = count % 256 := by
  simp [protectedPdu, ofBytes]

theorem covered_protectedPdu (stream : c.Stream) {len : Nat} (all : len = message.length + 1) :
    (protectedPdu c κ direction count cipherCount message).bytesFrom 5 len =
      UInt8.ofNat (count % 256) :: c.cipher κ.cipherAlgo κ.kNasEnc cipherCount direction message := by
  subst all
  simp [protectedPdu, ofBytes, bytesFrom, take_of_length_le, cipher_length stream]

theorem macMatches_protectedPdu (stream : c.Stream) {len : Nat} (all : len = message.length + 1) :
    macMatches (c.mac κ.integAlgo κ.kNasInt count direction
      ((protectedPdu c κ direction count cipherCount message).bytesFrom 5 len))
      (protectedPdu c κ direction count cipherCount message) = true := by
  rw [covered_protectedPdu stream all]
  simp [macMatches, protectedPdu, ofBytes, range_succ, byteAt]

theorem parseMsgHeader_deciphered (stream : c.Stream) {len : Nat} (all : message.length ≤ len) {pdu : Pdu}
    (eq : pdu.buffer = (protectedPdu c κ direction count cipherCount message).buffer.take 6 ++
      c.cipher κ.cipherAlgo κ.kNasEnc cipherCount direction
        ((protectedPdu c κ direction count cipherCount message).bytesFrom 6 len) ++
      (protectedPdu c κ direction count cipherCount message).buffer.drop (6 + len)) :
    parseMsgHeader pdu = plainType message := by
  have body : (protectedPdu c κ direction count cipherCount message).bytesFrom 6 len =
      c.cipher κ.cipherAlgo κ.kNasEnc cipherCount direction message := by
    simp [protectedPdu, ofBytes, bytesFrom, take_of_length_le, cipher_length stream, all]
  have rest : (protectedPdu c κ direction count cipherCount message).buffer.drop (6 + len) = [] := by
    apply drop_of_length_le
    simp only [protectedPdu, ofBytes, length_cons, cipher_length stream]
    omega
  rw [body, rest, cipher_cipher stream] at eq
  unfold parseMsgHeader protocolDiscriminator
  rw [eq]
  simp [protectedPdu, ofBytes, plainType, hdrServiceRequest, pdEpsSessionManagement]

/-! ## The receivers -/

namespace UeNas

theorem countEst_protectedPdu : ue.countEst (protectedPdu c κ direction count cipherCount message) =
    ue.rxCount / 256 % 65536 * 256 + count % 256 := by
  rw [countEst, sequenceNumber_protectedPdu]

theorem countEst_self (small : count < 16777216) : ({ ue with rxCount := count } : UeNas).countEst
    (protectedPdu c κ direction count cipherCount message) = count := by
  rw [countEst_protectedPdu]
  dsimp only
  omega

theorem integrityCheck_protected (stream : c.Stream)
    (est : ue.countEst (protectedPdu c ue.securityContext .downlink count cipherCount message) = count) :
    ue.integrityCheck c (protectedPdu c ue.securityContext .downlink count cipherCount message) =
      (true, { ue with rxCount := count }) := by
  have valid := @macMatches_protectedPdu c ue.securityContext .downlink count cipherCount message stream _ rfl
  unfold integrityCheck
  rw [nBytes_protectedPdu stream, if_pos (by omega), est]
  rw [if_pos]
  exact valid

theorem route_protected (stream : c.Stream) (small : count < 16777216)
    (agree : ue.cipherAlgo = 0 ∨ cipherCount = count)
    (est : ue.countEst (protectedPdu c ue.securityContext .downlink count cipherCount message) = count) :
    ∃ plain : Pdu, plain.nBytes = message.length + 6 ∧
      ue.route c (protectedPdu c ue.securityContext .downlink count cipherCount message) =
        ({ ue with rxCount := count }, plain, handlerOf (plainType message)) := by
  let pdu := protectedPdu c ue.securityContext .downlink count cipherCount message
  have header : parseMsgSecHeader pdu = hdrIntegrityAndCiphered := parseMsgSecHeader_protectedPdu
  have deciphers : ∀ data, c.cipher ue.cipherAlgo ue.kNasEnc count .downlink data =
      c.cipher ue.cipherAlgo ue.kNasEnc cipherCount .downlink data := by
    intro data
    rcases agree with none_ | same
    · rw [cipher_none none_, cipher_none none_]
    · rw [same]
  refine ⟨({ ue with rxCount := count } : UeNas).cipherDecrypt c pdu, nBytes_protectedPdu stream, ?_⟩
  have type : parseMsgHeader (({ ue with rxCount := count } : UeNas).cipherDecrypt c pdu) = plainType message := by
    apply @parseMsgHeader_deciphered c ue.securityContext .downlink count cipherCount message stream
      (pdu.nBytes - 5 + 1)
    · rw [nBytes_protectedPdu stream]
      omega
    · unfold cipherDecrypt
      dsimp only
      rw [countEst_self small, deciphers]
      rfl
  unfold route
  dsimp only
  rw [header, if_neg (by decide), if_neg (by decide), if_neg (by decide), if_pos (by decide),
    integrityCheck_protected stream est, if_pos rfl, if_pos rfl, type]

theorem send_protected (context : ue.haveCtxt = true) (header : ue.currentSecHdr = hdrIntegrityAndCiphered) :
    ue.send c message =
      ({ ue with txCount := countSucc ue.txCount }, [ue.protect c hdrIntegrityAndCiphered message]) := by
  unfold send
  rw [header, if_neg (by decide), if_pos context]

theorem countSucc_of_small (small : count < 16777216) : countSucc count = count + 1 :=
  Nat.mod_eq_of_lt (by omega)

theorem handle_mmeTypes {x : DlContents} {plain : Pdu} {handler : DlHandler} {secHdrType : Nat}
    (small : ue.rxCount < 16777216) (long : 5 < plain.nBytes) (context : ue.haveCtxt = true)
    (header : ue.currentSecHdr = hdrIntegrityAndCiphered) (type : plainType message ∈ Exchange.mmeTypes)
    (called : handlerOf (plainType message) = some handler) :
    ∃ guti, ue.handle c x secHdrType plain handler =
      ({ ue with
          rxCount := if Exchange.ueCounts x message then ue.rxCount + 1 else ue.rxCount
          txCount := if Exchange.ueAnswers x message then countSucc ue.txCount else ue.txCount
          haveGuti := guti },
        if Exchange.ueAnswers x message then [ue.protect c hdrIntegrityAndCiphered x.reply] else []) := by
  simp only [Exchange.mmeTypes, mem_cons, not_mem_nil, or_false] at type
  have types : msgAttachAccept ≠ msgEsmInformationRequest ∧ msgAttachAccept ≠ msgEmmInformation := by decide
  have information : msgEmmInformation ≠ msgEsmInformationRequest ∧ msgEmmInformation ≠ msgAttachAccept := by
    decide
  unfold Exchange.ueCounts Exchange.ueAnswers
  rcases type with type | type | type | type | type
  · rw [type] at called ⊢
    cases called
    refine ⟨ue.haveGuti, ?_⟩
    change ue.countRx.send c x.reply = _
    rw [@send_protected c ue.countRx x.reply context header]
    simp [countRx, countSucc_of_small small]
    rfl
  · rw [type] at called ⊢
    cases called
    change ∃ guti, ue.parseAttachAccept c x plain = _
    unfold parseAttachAccept
    rw [if_neg (by omega)]
    cases eps : x.epsOnly with
    | false => exact ⟨ue.haveGuti, by simp [countRx, countSucc_of_small small, types]⟩
    | true =>
      cases known : x.bearerAccepted with
      | false => simp [types]
      | true =>
        cases added : x.bearerAdded with
        | false => simp [countRx, countSucc_of_small small, types]
        | true =>
          dsimp only
          rw [@send_protected c { ue with haveGuti := ue.haveGuti || x.gutiPresent } x.reply context header]
          simp [countRx, countSucc_of_small small]
          rfl
  · rw [type] at called ⊢
    cases called
    refine ⟨ue.haveGuti, ?_⟩
    change (ue.countRx, []) = _
    simp [countRx, countSucc_of_small small, information]
  · rw [type] at called
    cases called
  · rw [type] at called
    cases called

theorem writePdu_protected (stream : c.Stream) {x : DlContents} (small : count < 16777216)
    (agree : ue.cipherAlgo = 0 ∨ cipherCount = count) (context : ue.haveCtxt = true)
    (header : ue.currentSecHdr = hdrIntegrityAndCiphered) (type : plainType message ∈ Exchange.mmeTypes)
    (est : ue.countEst (protectedPdu c ue.securityContext .downlink count cipherCount message) = count) :
    ∃ guti, ue.writePdu c x (protectedPdu c ue.securityContext .downlink count cipherCount message) =
      ({ ue with
          rxCount := if Exchange.ueCounts x message then count + 1 else count
          txCount := if Exchange.ueAnswers x message then countSucc ue.txCount else ue.txCount
          haveGuti := guti },
        if Exchange.ueAnswers x message then [ue.protect c hdrIntegrityAndCiphered x.reply] else []) := by
  obtain ⟨plain, length, routed⟩ := route_protected stream small agree est
  unfold writePdu
  rw [routed]
  cases called : handlerOf (plainType message) with
  | some handler =>
    have long : 5 < plain.nBytes := by omega
    exact @handle_mmeTypes c { ue with rxCount := count } message x plain handler _ small long context header
      type called
  | none =>
    have ignored : plainType message = msgTrackingAreaUpdateReject ∨
        plainType message = msgPdnConnectivityReject := by
      simp only [Exchange.mmeTypes, mem_cons, not_mem_nil, or_false] at type
      rcases type with type | type | type | type | type
      · rw [type] at called
        cases called
      · rw [type] at called
        cases called
      · rw [type] at called
        cases called
      · exact Or.inl type
      · exact Or.inr type
    refine ⟨ue.haveGuti, ?_⟩
    unfold Exchange.ueCounts Exchange.ueAnswers
    rcases ignored with type | type
    · rw [type]
      rfl
    · rw [type]
      rfl

end UeNas

namespace MmeNas

structure Dispatched (c : Crypto) (mme : MmeNas) (x : UlContents) (message : List Byte)
    (out : MmeNas × List SentMessage) : Prop where
  securityContext : out.1.securityContext = mme.securityContext
  imsi : out.1.imsi = mme.imsi
  ulNasCount : out.1.ulNasCount =
    if Exchange.mmeCounts message then countSucc mme.ulNasCount else mme.ulNasCount
  dlNasCount : out.1.dlNasCount =
    if Exchange.mmeAnswers mme x message then countSucc mme.dlNasCount else mme.dlNasCount
  answer : out.2.filter Exchange.isProtected =
    if Exchange.mmeAnswers mme x message then [(mme.packProtected c x.reply).2] else []

variable {x : UlContents}

theorem isProtected_protect {m : MmeNas} :
    Exchange.isProtected (m.protect c hdrIntegrityAndCiphered message) = true := by
  rw [protect_eq]
  unfold Exchange.isProtected
  rw [parseMsgSecHeader_protectedPdu]
  rfl

theorem handleAttachComplete_dispatched (type : plainType message = msgAttachComplete) :
    Dispatched c mme x message (((mme.handleAttachComplete c x).1.countUl), (mme.handleAttachComplete c x).2) := by
  have counts : Exchange.mmeCounts message = true := by
    unfold Exchange.mmeCounts
    rw [type]
    rfl
  have answers : Exchange.mmeAnswers mme x message =
      ((x.unpacked && 5 ≤ x.epsBearerId && x.epsBearerId ≤ 15) && mme.emmState = .deregistered) := by
    unfold Exchange.mmeAnswers
    grind
  unfold handleAttachComplete
  by_cases accepted : (x.unpacked && 5 ≤ x.epsBearerId && x.epsBearerId ≤ 15) = true
  · rw [if_pos accepted]
    by_cases fresh : mme.emmState = .deregistered
    · rw [if_pos fresh]
      rw [accepted] at answers
      have answered : Exchange.mmeAnswers mme x message = true := by simpa [fresh] using answers
      constructor
      case securityContext => rfl
      case imsi => rfl
      case ulNasCount => rw [counts]; rfl
      case dlNasCount => rw [answered]; rfl
      case answer =>
        rw [answered]
        exact filter_cons_of_pos isProtected_protect
    · rw [if_neg fresh]
      have unanswered : Exchange.mmeAnswers mme x message = false := by simp [answers, fresh]
      constructor
      case securityContext => rfl
      case imsi => rfl
      case ulNasCount => rw [counts]; rfl
      case dlNasCount => rw [unanswered]; rfl
      case answer => rw [unanswered]; rfl
  · rw [if_neg accepted]
    have unanswered : Exchange.mmeAnswers mme x message = false := by
      rw [answers, Bool.eq_false_iff.mpr accepted]
      rfl
    constructor
    case securityContext => rfl
    case imsi => rfl
    case ulNasCount => rw [counts]; rfl
    case dlNasCount => rw [unanswered]; rfl
    case answer => rw [unanswered]; rfl

theorem dispatched_counted {mme' : MmeNas} {out : List SentMessage}
    (counts : Exchange.mmeCounts message = true) (other : plainType message ≠ msgAttachComplete)
    (context : mme'.securityContext = mme.securityContext) (imsi : mme'.imsi = mme.imsi)
    (ul : mme'.ulNasCount = mme.ulNasCount) (dl : mme'.dlNasCount = mme.dlNasCount)
    (plain : ∀ m ∈ out, Exchange.isProtected m = false) :
    Dispatched c mme x message (mme'.countUl, out) := by
  have unanswered : Exchange.mmeAnswers mme x message = false := by simp [Exchange.mmeAnswers, other]
  constructor
  case securityContext => exact context
  case imsi => exact imsi
  case ulNasCount =>
    rw [counts]
    exact congrArg countSucc ul
  case dlNasCount =>
    rw [unanswered]
    exact dl
  case answer =>
    rw [unanswered]
    apply List.filter_eq_nil_iff.mpr
    intro m mem
    rw [plain m mem]
    decide

theorem dispatched_uncounted
    (other : plainType message ∉ [msgAttachRequest, msgAuthenticationFailure, msgDetachRequest,
      msgAttachComplete, msgEsmInformationResponse, msgTrackingAreaUpdateRequest, msgPdnConnectivityRequest]) :
    Dispatched c mme x message (mme, []) := by
  have uncounted : Exchange.mmeCounts message = false := decide_eq_false other
  have unanswered : Exchange.mmeAnswers mme x message = false := by
    have type : plainType message ≠ msgAttachComplete := by
      intro same
      rw [same] at other
      exact other (by decide)
    simp [Exchange.mmeAnswers, type]
  constructor
  case securityContext => rfl
  case imsi => rfl
  case ulNasCount => rw [uncounted]; rfl
  case dlNasCount => rw [unanswered]; rfl
  case answer => rw [unanswered]; rfl

theorem dispatch_protected (sent : Exchange.ueMessage message = true)
    (reply : Exchange.mmeMessage x.reply = true) (known : mme.imsi ≠ 0) :
    Dispatched c mme x message
      (mme.dispatch c x hdrIntegrityAndCiphered (plainType message) true) := by
  have plain : ∀ m ∈ [(⟨.ofBytes x.reply, mme.dlNasCount, none⟩ : SentMessage)], Exchange.isProtected m = false := by
    intro m mem
    simp only [Exchange.mmeMessage, Bool.and_eq_true] at reply
    rw [List.mem_singleton.mp mem]
    simpa [Exchange.isProtected, parseMsgSecHeader, ofBytes] using reply.2
  simp only [Exchange.ueMessage, Bool.and_eq_true, decide_eq_true_eq] at sent
  obtain ⟨⟨-, response⟩, identity⟩ := sent
  unfold dispatch
  rw [if_neg identity, if_neg response]
  by_cases attach : plainType message = msgAttachRequest
  · rw [if_pos attach]
    have kept : mme.handleAttachRequest x = mme := by
      unfold handleAttachRequest
      simp [known]
    rw [kept]
    exact dispatched_counted (by rw [Exchange.mmeCounts, attach]; rfl) (by rw [attach]; decide) rfl rfl rfl rfl
      (by simp)
  rw [if_neg attach]
  by_cases failure : plainType message = msgAuthenticationFailure
  · rw [if_pos failure]
    apply dispatched_counted (by rw [Exchange.mmeCounts, failure]; rfl) (by rw [failure]; decide)
    case plain => simp
    all_goals
      unfold handleAuthenticationFailure
      split
      · split <;> rfl
      · rfl
  rw [if_neg failure]
  by_cases detach : plainType message = msgDetachRequest
  · rw [if_pos detach]
    apply dispatched_counted (by rw [Exchange.mmeCounts, detach]; rfl) (by rw [detach]; decide)
    case plain => simp
    all_goals
      unfold handleDetachRequest
      split <;> rfl
  rw [if_neg detach]
  by_cases command : plainType message = msgSecurityModeComplete
  · rw [if_pos command]
    apply dispatched_uncounted
    rw [command]
    decide
  rw [if_neg command]
  by_cases complete : plainType message = msgAttachComplete
  · rw [if_pos complete]
    exact handleAttachComplete_dispatched complete
  rw [if_neg complete]
  by_cases information : plainType message = msgEsmInformationResponse
  · rw [if_pos information]
    apply dispatched_counted (by rw [Exchange.mmeCounts, information]; rfl) complete
    case plain => simp
    all_goals
      unfold handleEsmInformationResponse
      split <;> rfl
  rw [if_neg information]
  by_cases tau : plainType message = msgTrackingAreaUpdateRequest
  · rw [if_pos tau]
    exact dispatched_counted (by rw [Exchange.mmeCounts, tau]; rfl) complete rfl rfl rfl rfl plain
  rw [if_neg tau]
  by_cases pdn : plainType message = msgPdnConnectivityRequest
  · rw [if_pos pdn]
    exact dispatched_counted (by rw [Exchange.mmeCounts, pdn]; rfl) complete rfl rfl rfl rfl plain
  rw [if_neg pdn]
  apply dispatched_uncounted
  simp only [mem_cons, not_mem_nil, or_false, not_or]
  exact ⟨attach, failure, detach, complete, information, tau, pdn⟩

theorem integrityCheck_protected (stream : c.Stream) (short : Exchange.fits message = true)
    (est : mme.estimatedCount (protectedPdu c mme.securityContext .uplink count cipherCount message) = count) :
    mme.integrityCheck c (protectedPdu c mme.securityContext .uplink count cipherCount message) =
      (true, { mme with ulNasCount := count }) := by
  have bounded : message.length + 6 ≤ 13257 := of_decide_eq_true short
  have valid := @macMatches_protectedPdu c mme.securityContext .uplink count cipherCount message stream
    (u32Sub (message.length + 6) 5) (by unfold u32Sub; omega)
  unfold integrityCheck
  rw [nBytes_protectedPdu stream, est]
  rw [if_pos]
  exact valid

theorem handleUplinkNasTransport_protected (stream : c.Stream)
    (sent : Exchange.ueMessage message = true) (reply : Exchange.mmeMessage x.reply = true)
    (known : mme.imsi ≠ 0) (agree : mme.cipherAlgo = 0 ∨ cipherCount = count % 256)
    (est : mme.estimatedCount (protectedPdu c mme.securityContext .uplink count cipherCount message) = count) :
    Dispatched c { mme with ulNasCount := count } x message
      (mme.handleUplinkNasTransport c x
        (protectedPdu c mme.securityContext .uplink count cipherCount message)) := by
  let pdu := protectedPdu c mme.securityContext .uplink count cipherCount message
  have header : parseMsgSecHeader pdu = hdrIntegrityAndCiphered := parseMsgSecHeader_protectedPdu
  have short : Exchange.fits message = true := by
    simp only [Exchange.ueMessage, Bool.and_eq_true] at sent
    exact sent.1.1
  have bounded : message.length + 6 ≤ 13257 := of_decide_eq_true short
  have deciphers : ∀ data, c.cipher mme.cipherAlgo mme.kNasEnc (count % 256) .uplink data =
      c.cipher mme.cipherAlgo mme.kNasEnc cipherCount .uplink data := by
    intro data
    rcases agree with none_ | same
    · rw [cipher_none none_, cipher_none none_]
    · rw [same]
  have type : parseMsgHeader (mme.cipherDecrypt c pdu) = plainType message := by
    apply @parseMsgHeader_deciphered c mme.securityContext .uplink count cipherCount message stream
      (u32Sub pdu.nBytes 6)
    · rw [nBytes_protectedPdu stream]
      unfold u32Sub
      omega
    · unfold cipherDecrypt decryptCount
      dsimp only
      rw [sequenceNumber_protectedPdu, deciphers]
      rfl
  have deciphered_ : mme.deciphered c pdu = mme.cipherDecrypt c pdu := by
    unfold deciphered
    rw [header, if_pos (Or.inl rfl)]
  have checked : mme.checkMac c pdu = (true, { mme with ulNasCount := count }) := by
    unfold checkMac
    rw [header]
    exact integrityCheck_protected stream short est
  have context : mme.lacksContext hdrIntegrityAndCiphered (plainType message) = false := by
    simp [lacksContext, known]
  unfold handleUplinkNasTransport
  dsimp only
  rw [header, checked, deciphered_, type, context]
  exact dispatch_protected sent reply known

end MmeNas

end IsrRan.Nas
