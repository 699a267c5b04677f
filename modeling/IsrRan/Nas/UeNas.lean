import IsrRan.Common.Memory

namespace IsrRan.Nas
open List UInt8

/-- A NAS message as it lies in its `byte_buffer_t`: `buffer` starts at `msg` and goes on behind the
`nBytes` bytes of the message. -/
structure Pdu where
  buffer : List Byte
  nBytes : Nat
  deriving DecidableEq, Repr

namespace Pdu

def ofBytes (bytes : List Byte) : Pdu := ⟨bytes, bytes.length⟩

def bytesFrom (pdu : Pdu) (offset len : Nat) : List Byte := (pdu.buffer.drop offset).take len

end Pdu

abbrev pdEpsSessionManagement : Nat := 0x2
abbrev pdEpsMobilityManagement : Nat := 0x7

/-! ## `LIBLTE_MME_SECURITY_HDR_TYPE_*` -/

abbrev hdrPlainNas : Nat := 0x0
abbrev hdrIntegrity : Nat := 0x1
abbrev hdrIntegrityAndCiphered : Nat := 0x2
abbrev hdrIntegrityWithNewEpsSecurityContext : Nat := 0x3
abbrev hdrIntegrityAndCipheredWithNewEpsSecurityContext : Nat := 0x4
abbrev hdrServiceRequest : Nat := 0xC

/-! ## `LIBLTE_MME_MSG_TYPE_*` -/

abbrev msgAttachRequest : Nat := 0x41
abbrev msgAttachAccept : Nat := 0x42
abbrev msgAttachComplete : Nat := 0x43
abbrev msgAttachReject : Nat := 0x44
abbrev msgDetachRequest : Nat := 0x45
abbrev msgDetachAccept : Nat := 0x46
abbrev msgTrackingAreaUpdateRequest : Nat := 0x48
abbrev msgTrackingAreaUpdateReject : Nat := 0x4B
abbrev msgServiceReject : Nat := 0x4E
abbrev msgAuthenticationRequest : Nat := 0x52
abbrev msgAuthenticationResponse : Nat := 0x53
abbrev msgAuthenticationReject : Nat := 0x54
abbrev msgIdentityRequest : Nat := 0x55
abbrev msgIdentityResponse : Nat := 0x56
abbrev msgAuthenticationFailure : Nat := 0x5C
abbrev msgSecurityModeCommand : Nat := 0x5D
abbrev msgSecurityModeComplete : Nat := 0x5E
abbrev msgSecurityModeReject : Nat := 0x5F
abbrev msgEmmStatus : Nat := 0x60
abbrev msgEmmInformation : Nat := 0x61
abbrev msgCloseUeTestLoop : Nat := 0x80
abbrev msgOpenUeTestLoop : Nat := 0x82
abbrev msgActivateTestMode : Nat := 0x84
abbrev msgDeactivateTestMode : Nat := 0x86
abbrev msgActivateDedicatedEpsBearerContextRequest : Nat := 0xC5
abbrev msgModifyEpsBearerContextRequest : Nat := 0xC9
abbrev msgDeactivateEpsBearerContextRequest : Nat := 0xCD
abbrev msgPdnConnectivityRequest : Nat := 0xD0
abbrev msgPdnConnectivityReject : Nat := 0xD1
abbrev msgEsmInformationRequest : Nat := 0xD9
abbrev msgEsmInformationResponse : Nat := 0xDA

def parseMsgSecHeader (pdu : Pdu) : Nat := byteAt pdu.buffer 0 / 16

def protocolDiscriminator (pdu : Pdu) : Nat := byteAt pdu.buffer 0 % 16

def parseMsgHeader (pdu : Pdu) : Nat :=
  let secHdrType := byteAt pdu.buffer 0 / 16
  if secHdrType = hdrServiceRequest then hdrServiceRequest
  else if protocolDiscriminator pdu = pdEpsSessionManagement then byteAt pdu.buffer 2
  else if secHdrType = hdrPlainNas then byteAt pdu.buffer 1
  else if byteAt pdu.buffer 6 % 16 = pdEpsSessionManagement then byteAt pdu.buffer 8
  else byteAt pdu.buffer 7

/-! ## The security algorithms -/

abbrev Key := List Byte

inductive Direction where
  | uplink
  | downlink
  deriving DecidableEq, Repr

/-- The 128-bit algorithms: `eia` and `eea` take the number of the algorithm, the key, the COUNT, the
direction and the data. The NAS bearer is always 0. `generateNasKeys` gives `k_nas_enc`, `k_nas_int`. -/
structure Crypto where
  eia : Nat → Key → Nat → Direction → List Byte → List Byte
  eea : Nat → Key → Nat → Direction → List Byte → List Byte
  generateNasKeys : Key → Nat → Nat → Key × Key

/-- The MAC of `EIA0`, and of any number that is no algorithm, is what the buffer held before: zeros, which also stand
for the uninitialised array of the MME's senders. -/
def Crypto.mac (c : Crypto) (integAlgo : Nat) (key : Key) (count : Nat) (direction : Direction)
    (data : List Byte) : List Byte :=
  if integAlgo = 1 ∨ integAlgo = 2 ∨ integAlgo = 3 then c.eia integAlgo key count direction data
  else [0, 0, 0, 0]

/-- `EEA0` and numbers that are no algorithm leave the data alone. -/
def Crypto.cipher (c : Crypto) (cipherAlgo : Nat) (key : Key) (count : Nat) (direction : Direction)
    (data : List Byte) : List Byte :=
  if cipherAlgo = 1 ∨ cipherAlgo = 2 ∨ cipherAlgo = 3 then c.eea cipherAlgo key count direction data
  else data

def macMatches (expMac : List Byte) (pdu : Pdu) : Bool :=
  (range 4).all fun i => byteAt expMac i = byteAt pdu.buffer (1 + i)

def countSucc (count : Nat) : Nat := (count + 1) % 4294967296

inductive AuthResult where
  | authOk
  | authFailed
  | authSynchFailure
  deriving DecidableEq, Repr

structure SecurityModeCommand where
  nativeContext : Bool
  nasKsi : Nat
  eea : List Bool
  eia : List Bool
  typeOfEea : Nat
  typeOfEia : Nat
  deriving DecidableEq, Repr

structure DlContents where
  unpacked : Bool := true
  -- Attach Accept
  epsOnly : Bool := true
  gutiPresent : Bool := false
  -- no default bearer is there, the PDN type is known and fits the configured protocol
  bearerAccepted : Bool := true
  bearerAdded : Bool := true
  -- Attach Reject and Service Reject
  notAuthorizedForCsg : Bool := false
  illegalUe : Bool := false
  -- Authentication Request
  authResult : AuthResult := .authFailed
  kAsme : Key := []
  nasKsi : Option Nat := none
  -- Identity Request
  imsiRequested : Bool := true
  idTypeKnown : Bool := true
  -- Security Mode Command
  securityModeCommand : SecurityModeCommand := ⟨true, 0, [], [], 0, 0⟩
  -- whether the state of the UE and its bearers let the handler send its reply
  replies : Bool := true
  reply : List Byte := []

structure UeNas where
  kNasEnc : Key
  kNasInt : Key
  cipherAlgo : Nat
  integAlgo : Nat
  txCount : Nat
  rxCount : Nat
  ksi : Nat
  kAsme : Key
  haveGuti : Bool
  haveCtxt : Bool
  authRequest : Bool
  currentSecHdr : Nat
  eeaCaps : List Bool
  eiaCaps : List Bool
  deriving DecidableEq, Repr

structure SentMessage where
  pdu : Pdu
  count : Nat
  cipherCount : Option Nat
  deriving DecidableEq, Repr

inductive DlHandler where
  | attachAccept
  | attachReject
  | authenticationRequest
  | authenticationReject
  | identityRequest
  | securityModeCommand
  | serviceReject
  | esmInformationRequest
  | emmInformation
  | emmStatus
  | detachRequest
  | activateDedicatedEpsBearerContextRequest
  | deactivateEpsBearerContextRequest
  | modifyEpsBearerContextRequest
  | activateTestMode
  | closeUeTestLoop
  | testLoopInactive
  deriving DecidableEq, Repr

namespace UeNas

/-! ## `nas_base` -/

/-- The COUNT that `integrity_check` and `cipher_decrypt` estimate:
`(rx_count & 0x00FFFF00) | msg[5]`. -/
def countEst (ue : UeNas) (pdu : Pdu) : Nat := ue.rxCount / 256 % 65536 * 256 + byteAt pdu.buffer 5

def integrityCheck (c : Crypto) (ue : UeNas) (pdu : Pdu) : Bool × UeNas :=
  if 5 < pdu.nBytes then
    let expMac := c.mac ue.integAlgo ue.kNasInt (ue.countEst pdu) .downlink (pdu.bytesFrom 5 (pdu.nBytes - 5))
    if macMatches expMac pdu then (true, { ue with rxCount := ue.countEst pdu }) else (false, ue)
  else (false, ue)

def cipherDecrypt (c : Crypto) (ue : UeNas) (pdu : Pdu) : Pdu :=
  let len := pdu.nBytes - 5 + 1
  let plain := c.cipher ue.cipherAlgo ue.kNasEnc (ue.countEst pdu) .downlink (pdu.bytesFrom 6 len)
  { pdu with buffer := pdu.buffer.take 6 ++ plain ++ pdu.buffer.drop (6 + len) }

/-! ## Sending -/

def protect (c : Crypto) (ue : UeNas) (secHdrType : Nat) (message : List Byte) : SentMessage :=
  let seq := UInt8.ofNat (ue.txCount % 256)
  let ciphers := secHdrType = hdrIntegrityAndCiphered ∨
    secHdrType = hdrIntegrityAndCipheredWithNewEpsSecurityContext
  let body := if ciphers then c.cipher ue.cipherAlgo ue.kNasEnc ue.txCount .uplink message else message
  let mac := c.mac ue.integAlgo ue.kNasInt ue.txCount .uplink (seq :: body)
  ⟨.ofBytes (UInt8.ofNat (secHdrType * 16 + pdEpsMobilityManagement) ::
      ((range 4).map fun i => mac.getD i 0) ++ seq :: body), ue.txCount,
    if ciphers ∧ ue.cipherAlgo ≠ 0 then some ue.txCount else none⟩

/-- The senders but `send_detach_request`: without a context, or with a plain header, the message goes out as it is. They
count it unless `apply_security_config` finds it too short. -/
def send (c : Crypto) (ue : UeNas) (message : List Byte) : UeNas × List SentMessage :=
  if ue.currentSecHdr = hdrPlainNas then
    if ue.haveCtxt && message.length ≤ 5 then (ue, [])
    else ({ ue with txCount := countSucc ue.txCount }, [⟨.ofBytes message, ue.txCount, none⟩])
  else if ue.haveCtxt then
    ({ ue with txCount := countSucc ue.txCount }, [ue.protect c ue.currentSecHdr message])
  else
    ({ ue with txCount := countSucc ue.txCount },
      [⟨.ofBytes (UInt8.ofNat (ue.currentSecHdr * 16 + pdEpsMobilityManagement) :: 0 :: 0 :: 0 :: 0 ::
        UInt8.ofNat (ue.txCount % 256) :: message), ue.txCount, none⟩])

/-- `send_detach_accept` does not count its message. -/
def sendDetachAccept (c : Crypto) (ue : UeNas) (message : List Byte) : UeNas × List SentMessage :=
  (ue, (ue.send c message).2)

def sendPlain (ue : UeNas) (message : List Byte) : UeNas × List SentMessage :=
  (ue, [⟨.ofBytes message, ue.txCount, none⟩])

def resetSecurityContext (ue : UeNas) : UeNas :=
  { ue with
    haveGuti := false
    haveCtxt := false
    currentSecHdr := hdrPlainNas
    ksi := 7
    kAsme := replicate 32 0 }

/-! ## Handlers -/

def countRx (ue : UeNas) : UeNas := { ue with rxCount := countSucc ue.rxCount }

def countAndReply (c : Crypto) (ue : UeNas) (x : DlContents) : UeNas × List SentMessage :=
  if x.replies then ue.countRx.send c x.reply else (ue.countRx, [])

def parseAttachAccept (c : Crypto) (ue : UeNas) (x : DlContents) (pdu : Pdu) : UeNas × List SentMessage :=
  if pdu.nBytes ≤ 5 then (ue, [])
  else if x.epsOnly then
    let ue := { ue with haveGuti := ue.haveGuti || x.gutiPresent }
    if x.bearerAccepted then
      if x.bearerAdded then
        let out := ue.send c x.reply
        (out.1.countRx, out.2)
      else (ue.countRx, [])
    -- returns before the counter
    else (ue, [])
  else (ue.countRx, [])

def parseAttachReject (ue : UeNas) (x : DlContents) (secHdrType : Nat) : UeNas × List SentMessage :=
  if secHdrType = hdrPlainNas && x.notAuthorizedForCsg then (ue, [])
  else if x.illegalUe then (ue.resetSecurityContext, [])
  else (ue, [])

def parseAuthenticationRequest (c : Crypto) (ue : UeNas) (x : DlContents) (secHdrType : Nat) :
    UeNas × List SentMessage :=
  let ue := { ue.countRx with kAsme := x.kAsme, ksi := x.nasKsi.getD ue.ksi }
  match x.authResult with
  | .authOk =>
    let out := ({ ue with currentSecHdr := secHdrType } : UeNas).send c x.reply
    ({ out.1 with authRequest := true }, out.2)
  | .authSynchFailure => ue.sendPlain x.reply
  | .authFailed => ue.sendPlain x.reply

def parseIdentityRequest (c : Crypto) (ue : UeNas) (x : DlContents) (secHdrType : Nat) :
    UeNas × List SentMessage :=
  if hdrIntegrity ≤ secHdrType || secHdrType = hdrPlainNas && x.imsiRequested then
    let ue := { ue.countRx with currentSecHdr := secHdrType }
    if x.idTypeKnown then ue.send c x.reply else (ue, [])
  else (ue.countRx, [])

inductive SmcOutcome where
  | dropped
  | rejected
  | accepted
  deriving DecidableEq, Repr

def selectAlgorithms (c : Crypto) (ue : UeNas) (cmd : SecurityModeCommand) : UeNas :=
  let keys := c.generateNasKeys ue.kAsme cmd.typeOfEea cmd.typeOfEia
  { ue with cipherAlgo := cmd.typeOfEea, integAlgo := cmd.typeOfEia, kNasEnc := keys.1, kNasInt := keys.2 }

def startCounters (ue : UeNas) : UeNas :=
  if ue.authRequest then { ue with rxCount := 0, txCount := 0, authRequest := false } else ue

def checkSecurityModeCommand (c : Crypto) (ue : UeNas) (cmd : SecurityModeCommand) (pdu : Pdu) :
    SmcOutcome × UeNas :=
  if pdu.nBytes ≤ 5 then (.dropped, ue)
  else if !cmd.nativeContext then (.dropped, ue)
  else if ue.haveCtxt && cmd.nasKsi ≠ ue.ksi then (.rejected, ue)
  else if (range 8).any fun i =>
      cmd.eea.getD i false ≠ ue.eeaCaps.getD i false || cmd.eia.getD i false ≠ ue.eiaCaps.getD i false then
    (.rejected, ue)
  else
    let ue := ue.startCounters
    if !ue.eeaCaps.getD cmd.typeOfEea false || !ue.eiaCaps.getD cmd.typeOfEia false then
      (.rejected, { ue with cipherAlgo := cmd.typeOfEea, integAlgo := cmd.typeOfEia })
    else
      let ue := ue.selectAlgorithms c cmd
      let checked := ue.integrityCheck c pdu
      if checked.1 then
        (.accepted, { checked.2.countRx with
          haveCtxt := true, currentSecHdr := hdrIntegrityAndCipheredWithNewEpsSecurityContext })
      else (.rejected, ue)

def parseSecurityModeCommand (c : Crypto) (ue : UeNas) (x : DlContents) (pdu : Pdu) :
    UeNas × List SentMessage :=
  match ue.checkSecurityModeCommand c x.securityModeCommand pdu with
  | (.dropped, ue) => (ue, [])
  | (.rejected, ue) => ue.sendPlain x.reply
  | (.accepted, ue) =>
    let out := ue.send c x.reply
    ({ out.1 with currentSecHdr := hdrIntegrityAndCiphered }, out.2)

def parseServiceReject (ue : UeNas) (x : DlContents) (secHdrType : Nat) : UeNas × List SentMessage :=
  if !x.unpacked then (ue, [])
  else if secHdrType = hdrPlainNas && x.notAuthorizedForCsg then (ue, [])
  else ue.resetSecurityContext.sendPlain x.reply

def parseDetachRequest (c : Crypto) (ue : UeNas) (x : DlContents) : UeNas × List SentMessage :=
  if x.replies then ue.countRx.sendDetachAccept c x.reply else (ue.countRx, [])

def handle (c : Crypto) (ue : UeNas) (x : DlContents) (secHdrType : Nat) (pdu : Pdu) :
    DlHandler → UeNas × List SentMessage
  | .attachAccept => ue.parseAttachAccept c x pdu
  | .attachReject => ue.parseAttachReject x secHdrType
  | .authenticationRequest => ue.parseAuthenticationRequest c x secHdrType
  | .authenticationReject => (ue.resetSecurityContext, [])
  | .identityRequest => ue.parseIdentityRequest c x secHdrType
  | .securityModeCommand => ue.parseSecurityModeCommand c x pdu
  | .serviceReject => ue.parseServiceReject x secHdrType
  | .esmInformationRequest => ue.countRx.send c x.reply
  | .emmInformation => (ue.countRx, [])
  | .emmStatus => (ue.countRx, [])
  | .detachRequest => ue.parseDetachRequest c x
  | .activateDedicatedEpsBearerContextRequest => ue.countAndReply c x
  | .deactivateEpsBearerContextRequest => ue.countAndReply c x
  | .modifyEpsBearerContextRequest => ue.countAndReply c x
  | .activateTestMode => ue.countRx.send c x.reply
  | .closeUeTestLoop => ue.countRx.send c x.reply
  | .testLoopInactive => (ue, [])

/-! ## `write_pdu` -/

def exemptTypes : List Nat :=
  [msgIdentityRequest, msgAuthenticationRequest, msgAuthenticationReject, msgAttachReject, msgDetachAccept,
    msgTrackingAreaUpdateReject, msgServiceReject]

def handlerOf (msgType : Nat) : Option DlHandler :=
  if msgType = msgAttachAccept then some .attachAccept
  else if msgType = msgAttachReject then some .attachReject
  else if msgType = msgAuthenticationRequest then some .authenticationRequest
  else if msgType = msgAuthenticationReject then some .authenticationReject
  else if msgType = msgIdentityRequest then some .identityRequest
  else if msgType = msgSecurityModeCommand then some .securityModeCommand
  else if msgType = msgServiceReject then some .serviceReject
  else if msgType = msgEsmInformationRequest then some .esmInformationRequest
  else if msgType = msgEmmInformation then some .emmInformation
  else if msgType = msgEmmStatus then some .emmStatus
  else if msgType = msgDetachRequest then some .detachRequest
  else if msgType = msgActivateDedicatedEpsBearerContextRequest then
    some .activateDedicatedEpsBearerContextRequest
  else if msgType = msgDeactivateEpsBearerContextRequest then some .deactivateEpsBearerContextRequest
  else if msgType = msgModifyEpsBearerContextRequest then some .modifyEpsBearerContextRequest
  else if msgType = msgActivateTestMode then some .activateTestMode
  else if msgType = msgCloseUeTestLoop then some .closeUeTestLoop
  else if msgType = msgOpenUeTestLoop then some .testLoopInactive
  else if msgType = msgDeactivateTestMode then some .testLoopInactive
  else none

def route (c : Crypto) (ue : UeNas) (pdu : Pdu) : UeNas × Pdu × Option DlHandler :=
  let secHdrType := parseMsgSecHeader pdu
  if secHdrType = hdrPlainNas then
    if parseMsgHeader pdu ∈ exemptTypes then (ue, pdu, handlerOf (parseMsgHeader pdu)) else (ue, pdu, none)
  else if secHdrType = hdrIntegrityWithNewEpsSecurityContext then
    if parseMsgHeader pdu = msgSecurityModeCommand then (ue, pdu, handlerOf (parseMsgHeader pdu))
    else (ue, pdu, none)
  else if secHdrType = hdrServiceRequest then (ue, pdu, handlerOf (parseMsgHeader pdu))
  else if secHdrType = hdrIntegrity ∨ secHdrType = hdrIntegrityAndCiphered then
    let checked := ue.integrityCheck c pdu
    if checked.1 then
      let pdu := if secHdrType = hdrIntegrityAndCiphered then checked.2.cipherDecrypt c pdu else pdu
      (checked.2, pdu, handlerOf (parseMsgHeader pdu))
    else (checked.2, pdu, none)
  else (ue, pdu, none)

def writePdu (c : Crypto) (ue : UeNas) (x : DlContents) (pdu : Pdu) : UeNas × List SentMessage :=
  match ue.route c pdu with
  | (ue, _, none) => (ue, [])
  | (ue, plain, some handler) => ue.handle c x (parseMsgSecHeader pdu) plain handler

end UeNas

namespace Pdu

def PlainExempt (pdu : Pdu) : Prop :=
  parseMsgSecHeader pdu = hdrPlainNas ∧ protocolDiscriminator pdu = pdEpsMobilityManagement ∧
    byteAt pdu.buffer 1 ∈ UeNas.exemptTypes

/-- A plain message of another protocol with an octet, where the message type is looked for, that is the
type of an EMM message that needs no protection. -/
def foreignExempt (pdu : Pdu) : Bool :=
  parseMsgSecHeader pdu = hdrPlainNas && protocolDiscriminator pdu ≠ pdEpsMobilityManagement &&
    parseMsgHeader pdu ∈ [msgIdentityRequest, msgAuthenticationRequest, msgAuthenticationReject,
      msgAttachReject, msgServiceReject]

end Pdu

namespace UeNas

variable {c : Crypto} {ue : UeNas} {pdu : Pdu} {handler : DlHandler}

def Verified (c : Crypto) (ue : UeNas) (pdu : Pdu) : Prop :=
  (parseMsgSecHeader pdu = hdrIntegrity ∨ parseMsgSecHeader pdu = hdrIntegrityAndCiphered) ∧
    (ue.integrityCheck c pdu).1 = true

/-- What lets a handler be called: the MAC, or that the message is exempt, or that it is a Security Mode
Command, whose handler checks the MAC under the keys of the new context. -/
def Authenticated (c : Crypto) (ue : UeNas) (pdu : Pdu) (handler : DlHandler) : Prop :=
  ue.Verified c pdu ∨ pdu.PlainExempt ∨
    parseMsgSecHeader pdu = hdrIntegrityWithNewEpsSecurityContext ∧ handler = .securityModeCommand

theorem handlerOf_exempt {msgType : Nat} (exempt : msgType ∈ exemptTypes) :
    (handlerOf msgType).isSome = true ↔
      msgType ∈ [msgIdentityRequest, msgAuthenticationRequest, msgAuthenticationReject, msgAttachReject,
        msgServiceReject] := by
  simp only [exemptTypes, mem_cons, not_mem_nil, or_false] at exempt
  rcases exempt with rfl | rfl | rfl | rfl | rfl | rfl | rfl <;> decide

theorem parseMsgHeader_plain (plain : parseMsgSecHeader pdu = hdrPlainNas)
    (emm : protocolDiscriminator pdu = pdEpsMobilityManagement) :
    parseMsgHeader pdu = byteAt pdu.buffer 1 := by
  unfold parseMsgSecHeader at plain
  unfold parseMsgHeader
  rw [plain, emm]
  rfl

theorem route_plain (plain : parseMsgSecHeader pdu = hdrPlainNas) :
    (ue.route c pdu).2.2 =
      if parseMsgHeader pdu ∈ exemptTypes then handlerOf (parseMsgHeader pdu) else none := by
  unfold route
  rw [plain, if_pos rfl]
  split <;> rfl

theorem parseMsgHeader_serviceRequest (service : parseMsgSecHeader pdu = hdrServiceRequest) :
    parseMsgHeader pdu = hdrServiceRequest := by
  unfold parseMsgSecHeader at service
  simp [parseMsgHeader, service]

theorem authenticated_of_protected (covered : parseMsgSecHeader pdu ≠ hdrPlainNas)
    (called : (ue.route c pdu).2.2 = some handler) : ue.Authenticated c pdu handler := by
  unfold route at called
  dsimp only at called
  rw [if_neg covered] at called
  by_cases fresh : parseMsgSecHeader pdu = hdrIntegrityWithNewEpsSecurityContext
  · rw [if_pos fresh] at called
    split at called
    · rename_i command
      rw [command] at called
      cases called
      exact Or.inr (Or.inr ⟨fresh, rfl⟩)
    · cases called
  · rw [if_neg fresh] at called
    by_cases service : parseMsgSecHeader pdu = hdrServiceRequest
    · rw [if_pos service, parseMsgHeader_serviceRequest service] at called
      cases called
    · rw [if_neg service] at called
      split at called
      · rename_i integrity
        split at called
        · rename_i valid
          exact Or.inl ⟨integrity, valid⟩
        · cases called
      · cases called

theorem authenticated_iff (c : Crypto) (ue : UeNas) (pdu : Pdu) :
    (∀ handler, (ue.route c pdu).2.2 = some handler → ue.Authenticated c pdu handler) ↔
      pdu.foreignExempt = false := by
  by_cases plain : parseMsgSecHeader pdu = hdrPlainNas
  · have types : parseMsgHeader pdu ∈ [msgIdentityRequest, msgAuthenticationRequest, msgAuthenticationReject,
        msgAttachReject, msgServiceReject] → parseMsgHeader pdu ∈ exemptTypes := by
      intro mem
      simp only [exemptTypes, mem_cons, not_mem_nil, or_false] at mem ⊢
      tauto
    rw [route_plain plain]
    unfold Pdu.foreignExempt
    rw [plain]
    constructor
    · intro authenticated
      by_contra foreign
      simp only [decide_true, Bool.true_and, Bool.not_eq_false, Bool.and_eq_true, decide_eq_true_eq] at foreign
      obtain ⟨other, type⟩ := foreign
      obtain ⟨handler, found⟩ := Option.isSome_iff_exists.mp ((handlerOf_exempt (types type)).mpr type)
      rw [if_pos (types type)] at authenticated
      rcases authenticated handler found with verified | exempt | command
      · rw [Verified, plain] at verified
        rcases verified.1 with integrity | ciphered
        · cases integrity
        · cases ciphered
      · exact other exempt.2.1
      · rw [plain] at command
        cases command.1
    · intro native handler called
      split at called
      · rename_i exempt
        have type := (handlerOf_exempt exempt).mp (by rw [called]; rfl)
        have emm : protocolDiscriminator pdu = pdEpsMobilityManagement := by
          by_contra other
          simp only [decide_true, Bool.true_and, other, decide_not, decide_false, Bool.not_false,
            decide_eq_false_iff_not] at native
          exact native type
        exact Or.inr (Or.inl ⟨plain, emm, parseMsgHeader_plain plain emm ▸ exempt⟩)
      · cases called
  · have native : pdu.foreignExempt = false := by simp [Pdu.foreignExempt, plain]
    exact ⟨fun _ => native, fun _ handler called => authenticated_of_protected plain called⟩

def esmNamedReject : Pdu := .ofBytes [0x02, 0x00, 0x54]

theorem esmNamedReject_handled :
    ¬ ∀ (c : Crypto) (ue : UeNas), ue.haveCtxt = true → ∀ (pdu : Pdu) (handler : DlHandler),
      (ue.route c pdu).2.2 = some handler → ue.Authenticated c pdu handler := by
  intro authenticated
  let c : Crypto := ⟨fun _ _ _ _ _ => [1, 2, 3, 4], fun _ _ _ _ data => data, fun _ _ _ => ([], [])⟩
  let ue : UeNas := ⟨[], [], 0, 2, 1, 1, 0, [], true, true, false, hdrIntegrityAndCiphered, [], []⟩
  rcases authenticated c ue rfl esmNamedReject .authenticationReject rfl with verified | exempt | command
  · exact absurd verified.1 (by decide)
  · exact absurd exempt.2.1 (by decide)
  · exact absurd command.1 (by decide)

end UeNas

end IsrRan.Nas
