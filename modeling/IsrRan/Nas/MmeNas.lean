import IsrRan.Nas.UeNas

namespace IsrRan.Nas

inductive EmmState where
  | deregistered
  | commonProcedureInitiated
  | registered
  | deregisteredInitiated
  deriving DecidableEq, Repr

inductive EsmState where
  | erabDeactivated
  | erabCtxRequested
  | erabCtxSetup
  | erabActive
  deriving DecidableEq, Repr

structure EsmCtx where
  state : EsmState := .erabDeactivated
  qci : Nat := 0
  deriving DecidableEq, Repr

structure AuthVector where
  kAsme : Key
  xres : List Byte

structure UlContents where
  unpacked : Bool := true
  imsi : Nat := 0
  procTransactionId : Nat := 0
  attachType : Nat := 0
  esmInfoTransferFlagPresent : Bool := false
  authInfo : Option AuthVector := none
  qci : Nat := 0
  -- Authentication Response and Authentication Failure
  res : List Byte := []
  resynchronises : Bool := false
  -- Attach Complete
  epsBearerId : Nat := 5
  -- Detach Request
  switchOff : Bool := true
  reply : List Byte := []

structure MmeNas where
  imsi : Nat
  emmState : EmmState
  procedureTransactionId : Nat
  attachType : Nat
  eit : Bool
  esm : List EsmCtx
  ulNasCount : Nat
  dlNasCount : Nat
  cipherAlgo : Nat
  integAlgo : Nat
  kNasEnc : Key
  kNasInt : Key
  kAsme : Key
  xres : List Byte
  eksi : Nat
  deriving DecidableEq, Repr

namespace MmeNas

/-! ## Security functions -/

def estimatedCount (mme : MmeNas) (pdu : Pdu) : Nat := mme.ulNasCount / 256 * 256 + byteAt pdu.buffer 5

def integrityCheck (c : Crypto) (mme : MmeNas) (pdu : Pdu) : Bool × MmeNas :=
  let expMac := c.mac mme.integAlgo mme.kNasInt (mme.estimatedCount pdu) .uplink
    (pdu.bytesFrom 5 (u32Sub pdu.nBytes 5))
  if macMatches expMac pdu then (true, { mme with ulNasCount := mme.estimatedCount pdu }) else (false, mme)

def decryptCount (pdu : Pdu) : Nat := byteAt pdu.buffer 5

def cipherDecrypt (c : Crypto) (mme : MmeNas) (pdu : Pdu) : Pdu :=
  let len := u32Sub pdu.nBytes 6
  let plain := c.cipher mme.cipherAlgo mme.kNasEnc (decryptCount pdu) .uplink (pdu.bytesFrom 6 len)
  { pdu with buffer := pdu.buffer.take 6 ++ plain ++ pdu.buffer.drop (6 + len) }

/-! ## Packing -/

/-- A downlink message with the current `dl_nas_count`: `cipher_encrypt` takes the sequence number of
the packed message for the COUNT, `integrity_generate` the whole counter. -/
def protect (c : Crypto) (mme : MmeNas) (secHdrType : Nat) (message : List Byte) : SentMessage :=
  let seq := UInt8.ofNat (mme.dlNasCount % 256)
  let ciphers := secHdrType = hdrIntegrityAndCiphered
  let body :=
    if ciphers then c.cipher mme.cipherAlgo mme.kNasEnc seq.toNat .downlink message else message
  let mac := c.mac mme.integAlgo mme.kNasInt mme.dlNasCount .downlink (seq :: body)
  ⟨.ofBytes (UInt8.ofNat (secHdrType * 16 + pdEpsMobilityManagement) ::
      ((List.range 4).map fun i => mac.getD i 0) ++ seq :: body), mme.dlNasCount,
    if ciphers ∧ mme.cipherAlgo ≠ 0 then some seq.toNat else none⟩

def packProtected (c : Crypto) (mme : MmeNas) (message : List Byte) : MmeNas × SentMessage :=
  let mme := { mme with dlNasCount := countSucc mme.dlNasCount }
  (mme, mme.protect c hdrIntegrityAndCiphered message)

def packSecurityModeCommand (c : Crypto) (mme : MmeNas) (message : List Byte) : MmeNas × SentMessage :=
  let keys := c.generateNasKeys mme.kAsme mme.cipherAlgo mme.integAlgo
  let mme := { mme with kNasEnc := keys.1, kNasInt := keys.2 }
  (mme, mme.protect c hdrIntegrityWithNewEpsSecurityContext message)

/-! ## Handlers of `UPLINK NAS TRANSPORT` -/

def setAuthInfo (mme : MmeNas) : Option AuthVector → MmeNas
  | none => mme
  | some vector => { mme with kAsme := vector.kAsme, xres := vector.xres }

def deactivateErabs (mme : MmeNas) : MmeNas :=
  { mme with esm := mme.esm.map fun esm => { esm with state := .erabDeactivated } }

def setQci (mme : MmeNas) (qci : Nat) : MmeNas :=
  { mme with esm := mme.esm.modify 5 fun esm => { esm with qci } }

def handleAttachRequest (mme : MmeNas) (x : UlContents) : MmeNas :=
  if x.unpacked && mme.imsi = 0 then
    let mme := { mme with
      imsi := x.imsi
      emmState := .deregistered
      procedureTransactionId := x.procTransactionId
      ulNasCount := 0
      dlNasCount := 0
      eit := x.esmInfoTransferFlagPresent
      attachType := x.attachType }
    match x.authInfo with
    | none => mme.deactivateErabs
    | some vector => { mme.deactivateErabs.setAuthInfo (some vector) with eksi := 0 }
  else mme

def handleIdentityResponse (mme : MmeNas) (x : UlContents) : MmeNas :=
  if x.unpacked then
    let mme := { mme with imsi := x.imsi }
    match x.authInfo with
    | none => mme
    | some vector => { mme.setAuthInfo (some vector) with eksi := 0 }
  else mme

def resMatches (mme : MmeNas) (res : List Byte) : Bool :=
  (List.range 8).all fun i => byteAt res i = byteAt mme.xres i

def handleAuthenticationResponse (c : Crypto) (mme : MmeNas) (x : UlContents) : MmeNas × List SentMessage :=
  if x.unpacked then
    if mme.resMatches x.res then
      let out := ({ mme with ulNasCount := 0 } : MmeNas).packSecurityModeCommand c x.reply
      (out.1, [out.2])
    else (mme, [⟨.ofBytes x.reply, mme.dlNasCount, none⟩])
  else (mme, [])

def handleAuthenticationFailure (mme : MmeNas) (x : UlContents) : MmeNas :=
  if x.unpacked && x.resynchronises then
    match x.authInfo with
    | none => mme
    | some vector => { mme.setAuthInfo (some vector) with eksi := (mme.eksi + 1) % 6 }
  else mme

def handleDetachRequest (mme : MmeNas) (x : UlContents) : MmeNas :=
  if x.unpacked then { mme.deactivateErabs with emmState := .deregistered } else mme

def handleSecurityModeComplete (c : Crypto) (mme : MmeNas) (x : UlContents) : MmeNas × List SentMessage :=
  if x.unpacked then
    if mme.eit then
      let out := mme.packProtected c x.reply
      (out.1, [out.2])
    else (mme.setQci x.qci, [])
  else (mme, [])

def handleAttachComplete (c : Crypto) (mme : MmeNas) (x : UlContents) : MmeNas × List SentMessage :=
  if x.unpacked && 5 ≤ x.epsBearerId && x.epsBearerId ≤ 15 then
    if mme.emmState = .deregistered then
      let out := mme.packProtected c x.reply
      ({ out.1 with emmState := .registered }, [out.2])
    else ({ mme with emmState := .registered }, [])
  else (mme, [])

def handleEsmInformationResponse (mme : MmeNas) (x : UlContents) : MmeNas :=
  if x.unpacked then mme.setQci x.qci else mme

def countUl (mme : MmeNas) : MmeNas := { mme with ulNasCount := countSucc mme.ulNasCount }

/-- The switch over the message type and the counter behind it. `handle_tracking_area_update_request`
and `handle_pdn_connectivity_request` only send a plain reject. -/
def dispatch (c : Crypto) (mme : MmeNas) (x : UlContents) (secHdrType msgType : Nat) (macValid : Bool) :
    MmeNas × List SentMessage :=
  if msgType = msgAttachRequest then ((mme.handleAttachRequest x).countUl, [])
  else if msgType = msgIdentityResponse then ((mme.handleIdentityResponse x).countUl, [])
  else if msgType = msgAuthenticationResponse then
    let out := mme.handleAuthenticationResponse c x
    ({ out.1 with ulNasCount := 0, dlNasCount := 0 }, out.2)
  else if msgType = msgAuthenticationFailure then ((mme.handleAuthenticationFailure x).countUl, [])
  else if msgType = msgDetachRequest then ((mme.handleDetachRequest x).countUl, [])
  else if msgType = msgSecurityModeComplete then
    if secHdrType = hdrIntegrityAndCipheredWithNewEpsSecurityContext && macValid then
      let out := mme.handleSecurityModeComplete c x
      (out.1.countUl, out.2)
    else (mme, [])
  else if msgType = msgAttachComplete then
    if secHdrType = hdrIntegrityAndCiphered && macValid then
      let out := mme.handleAttachComplete c x
      (out.1.countUl, out.2)
    else (mme, [])
  else if msgType = msgEsmInformationResponse then
    if secHdrType = hdrIntegrityAndCiphered && macValid then
      ((mme.handleEsmInformationResponse x).countUl, [])
    else (mme, [])
  else if msgType = msgTrackingAreaUpdateRequest then
    (mme.countUl, [⟨.ofBytes x.reply, mme.dlNasCount, none⟩])
  else if msgType = msgPdnConnectivityRequest then (mme.countUl, [⟨.ofBytes x.reply, mme.dlNasCount, none⟩])
  else (mme, [])

def protectedHdrTypes : List Nat :=
  [hdrIntegrity, hdrIntegrityWithNewEpsSecurityContext, hdrIntegrityAndCiphered,
    hdrIntegrityAndCipheredWithNewEpsSecurityContext]

def checkMac (c : Crypto) (mme : MmeNas) (pdu : Pdu) : Bool × MmeNas :=
  if parseMsgSecHeader pdu ∈ protectedHdrTypes then mme.integrityCheck c pdu else (false, mme)

def deciphered (c : Crypto) (mme : MmeNas) (pdu : Pdu) : Pdu :=
  if parseMsgSecHeader pdu = hdrIntegrityAndCiphered ∨
      parseMsgSecHeader pdu = hdrIntegrityAndCipheredWithNewEpsSecurityContext then mme.cipherDecrypt c pdu
  else pdu

def lacksContext (mme : MmeNas) (secHdrType msgType : Nat) : Bool :=
  secHdrType ≠ hdrPlainNas && mme.imsi = 0 &&
    !(msgType = msgIdentityResponse && secHdrType = hdrIntegrity)

def handleUplinkNasTransport (c : Crypto) (mme : MmeNas) (x : UlContents) (pdu : Pdu) :
    MmeNas × List SentMessage :=
  let secHdrType := parseMsgSecHeader pdu
  if secHdrType = hdrPlainNas ∨ secHdrType ∈ protectedHdrTypes then
    let checked := mme.checkMac c pdu
    let msgType := parseMsgHeader (mme.deciphered c pdu)
    if mme.lacksContext secHdrType msgType then (checked.2, [])
    else checked.2.dispatch c x secHdrType msgType checked.1
  else (mme, [])

end MmeNas

end IsrRan.Nas
