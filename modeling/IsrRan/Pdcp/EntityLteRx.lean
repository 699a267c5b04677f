import IsrRan.Pdcp.StatusReport

namespace IsrRan.Pdcp

def Direction.isRx (direction : Direction) : Bool := direction = .rx || direction = .txrx

/-- The security functions of the receive direction under the keys in use. `integrity` computes the
expected MAC-I; it is `none` for EIA0, as `cipherDecrypt` is for EEA0. -/
structure RxSecurity where
  integrity : Option (Nat → List Byte → List Byte)
  cipherDecrypt : Cipher
  cipherDecrypt_length : ∀ decrypt ∈ cipherDecrypt, ∀ count msg, (decrypt count msg).length = msg.length

namespace RxSecurity

def integrityVerify (security : RxSecurity) (count : Nat) (msg mac : List Byte) : Bool :=
  match security.integrity with
  | none => true
  | some expected => mac = expected count msg

def decipher (security : RxSecurity) (count : Nat) (ct : List Byte) : List Byte :=
  security.cipherDecrypt.apply count ct

def fits (security : RxSecurity) (ctLen : Nat) : Bool := security.cipherDecrypt.fits ctLen

theorem decipher_length (security : RxSecurity) (count : Nat) (ct : List Byte) :
    (security.decipher count ct).length = ct.length := by
  unfold decipher
  cases algorithm : security.cipherDecrypt with
  | none => rfl
  | some decrypt => exact security.cipherDecrypt_length decrypt algorithm count ct

def decryptBody (security : RxSecurity) (cfg : Config) (count : Nat) (pdu : List Byte) : List Byte :=
  pdu.take cfg.hdrLenBytes ++ security.decipher count (pdu.drop cfg.hdrLenBytes)

theorem decryptBody_length (security : RxSecurity) (cfg : Config) (count : Nat) (pdu : List Byte) :
    (security.decryptBody cfg count pdu).length = pdu.length := by
  simp only [decryptBody, List.length_append, decipher_length, List.length_take,
    List.length_drop]
  omega

end RxSecurity

def isControlPdu (pdu : List Byte) : Bool := byteAt pdu 0 < 128

def readDataHeader (cfg : Config) (pdu : List Byte) : Nat :=
  if pdu.length ≤ cfg.hdrLenBytes then 0
  else
    match cfg.snLen with
    | .len5 => cfg.sn (byteAt pdu 0)
    | .len7 => cfg.sn (byteAt pdu 0)
    | .len12 => cfg.sn (byteAt pdu 0 * 256 + byteAt pdu 1)
    | .len18 => cfg.sn (byteAt pdu 0 * 65536 + byteAt pdu 1 * 256 + byteAt pdu 2)

structure Payload where
  msg : List Byte
  nBytes : Nat
  deriving DecidableEq, Repr

/-- Where the MAC-I was cut out of the header, `N_bytes` wraps around. -/
def discardDataHeader (cfg : Config) (pdu : List Byte) : Payload :=
  ⟨pdu.drop cfg.hdrLenBytes, u32Sub pdu.length cfg.hdrLenBytes⟩

/-- `extract_mac`: what is left of the PDU, and the MAC-I, which for a short PDU keeps the bytes that
`mac` had before. -/
def extractMac (pdu mac : List Byte) : List Byte × List Byte :=
  if pdu.length < 4 then (pdu, mac) else (pdu.take (pdu.length - 4), pdu.drop (pdu.length - 4))

structure RxSdu where
  count : Nat
  payload : Payload
  deriving DecidableEq, Repr

inductive RxCall where
  | notifyPdcpIntegrityError
  | writePdu (sdu : RxSdu)
  deriving DecidableEq, Repr

structure EntityLteRx where
  cfg : Config
  active : Bool := true
  integrityDirection : Direction := .none
  encryptionDirection : Direction := .none
  enableSecurityRxSn : Int := -1
  rxHfn : Nat := 0
  nextPdcpRxSn : Nat := 0
  lastSubmittedPdcpRxSn : Nat
  counts : Receiver

namespace EntityLteRx

def configure (cfg : Config) : EntityLteRx where
  cfg := cfg
  lastSubmittedPdcpRxSn := cfg.maximumPdcpSn
  counts := { cfg }

def enableSecurity (e : EntityLteRx) (sn : Nat) : EntityLteRx :=
  if e.enableSecurityRxSn ≠ -1 && e.enableSecurityRxSn = i32 sn then
    { e with
      integrityDirection := e.integrityDirection.enable .rx
      encryptionDirection := e.encryptionDirection.enable .rx
      enableSecurityRxSn := -1 }
  else e

theorem enableSecurity_eq (e : EntityLteRx) (sn : Nat) : ∃ integrity encryption timed,
    e.enableSecurity sn = { e with
      integrityDirection := integrity, encryptionDirection := encryption, enableSecurityRxSn := timed } := by
  unfold enableSecurity
  split
  · exact ⟨_, _, _, rfl⟩
  · exact ⟨e.integrityDirection, e.encryptionDirection, e.enableSecurityRxSn, rfl⟩

def setNextPdcpRxSn (e : EntityLteRx) (sn : Nat) : EntityLteRx :=
  if e.cfg.maximumPdcpSn < sn + 1 then { e with nextPdcpRxSn := 0, rxHfn := (e.rxHfn + 1) % 4294967296 }
  else { e with nextPdcpRxSn := sn + 1 }

def incrementRxHfn (e : EntityLteRx) : EntityLteRx := { e with rxHfn := (e.rxHfn + 1) % 4294967296 }

def srbCount (e : EntityLteRx) (sn : Nat) : Nat :=
  if sn < e.nextPdcpRxSn then e.cfg.count (e.rxHfn + 1) sn else e.cfg.count e.rxHfn sn

def deciphered (e : EntityLteRx) (security : RxSecurity) (pdu : List Byte) : List Byte :=
  if e.encryptionDirection.isRx then
    security.decryptBody e.cfg (e.srbCount (readDataHeader e.cfg pdu)) pdu
  else pdu

/-- The deciphered PDU without its MAC-I, and the MAC-I. `stale` is what the uninitialised `mac` holds. -/
def extracted (e : EntityLteRx) (security : RxSecurity) (stale pdu : List Byte) : List Byte × List Byte :=
  extractMac (e.deciphered security pdu) stale

def handleSrbPdu (e : EntityLteRx) (security : RxSecurity) (stale pdu : List Byte) :
    Except Fault (EntityLteRx × List RxCall) :=
  let sn := readDataHeader e.cfg pdu
  let count := e.srbCount sn
  let extracted := e.extracted security stale pdu
  if e.encryptionDirection.isRx && !security.fits (pdu.length - e.cfg.hdrLenBytes) then .error .undefinedBehaviour
  else if e.integrityDirection.isRx && !security.integrityVerify count extracted.1 extracted.2 then
    .ok (e, [.notifyPdcpIntegrityError])
  else
    let payload := discardDataHeader e.cfg extracted.1
    let e := if sn < e.nextPdcpRxSn then e.incrementRxHfn else e
    .ok (e.setNextPdcpRxSn sn, [.writePdu ⟨count, payload⟩])

def handleUmDrbPdu (e : EntityLteRx) (security : RxSecurity) (pdu : List Byte) :
    Except Fault (EntityLteRx × List RxCall) :=
  let sn := readDataHeader e.cfg pdu
  let payload := discardDataHeader e.cfg pdu
  let e := if sn < e.nextPdcpRxSn then e.incrementRxHfn else e
  let count := e.cfg.count e.rxHfn sn
  if e.encryptionDirection.isRx && !security.fits payload.nBytes then .error .undefinedBehaviour
  else
    let msg := if e.encryptionDirection.isRx then security.decipher count payload.msg else payload.msg
    .ok (e.setNextPdcpRxSn sn, [.writePdu ⟨count, { payload with msg }⟩])

def discards (e : EntityLteRx) (sn : Nat) : Bool :=
  let lastSubmitDiffSn := i32 (u32Sub e.lastSubmittedPdcpRxSn sn)
  let snDiffLastSubmit := i32 (u32Sub sn e.lastSubmittedPdcpRxSn)
  0 ≤ snDiffLastSubmit && (reorderingWindow : Int) < snDiffLastSubmit ||
    0 ≤ lastSubmitDiffSn && lastSubmitDiffSn < (reorderingWindow : Int)

def inferCount (e : EntityLteRx) (sn : Nat) : EntityLteRx × Nat :=
  if (reorderingWindow : Int) < i32 (u32Sub e.nextPdcpRxSn sn) then
    ({ e.incrementRxHfn with nextPdcpRxSn := sn + 1 }, e.cfg.count (e.rxHfn + 1) sn)
  else if (reorderingWindow : Int) ≤ i32 (u32Sub sn e.nextPdcpRxSn) then
    (e, e.cfg.count (u32Sub e.rxHfn 1) sn)
  else if e.nextPdcpRxSn ≤ sn then (e.setNextPdcpRxSn sn, e.cfg.count e.rxHfn sn)
  else (e, e.cfg.count e.rxHfn sn)

def handleAmDrbPdu (e : EntityLteRx) (security : RxSecurity) (pdu : List Byte) :
    Except Fault (EntityLteRx × List RxCall) :=
  let sn := readDataHeader e.cfg pdu
  let payload := discardDataHeader e.cfg pdu
  if e.discards sn then .ok (e, [])
  else if !security.fits payload.nBytes then .error .undefinedBehaviour
  else
    let inferred := e.inferCount sn
    let msg := security.decipher inferred.2 payload.msg
    let e := { inferred.1 with
      lastSubmittedPdcpRxSn := sn
      counts := inferred.1.counts.updateRxCountsQueue inferred.2 }
    .ok (e, [.writePdu ⟨inferred.2, { payload with msg }⟩])

def writePdu (e : EntityLteRx) (security : RxSecurity) (stale pdu : List Byte) :
    Except Fault (EntityLteRx × List RxCall) :=
  if !e.active then .ok (e, [])
  else if e.cfg.isDrb && isControlPdu pdu then .ok (e, [])
  else if pdu.length ≤ e.cfg.hdrLenBytes then .ok (e, [])
  else
    let e := e.enableSecurity (readDataHeader e.cfg pdu)
    if e.cfg.isSrb then e.handleSrbPdu security stale pdu
    else if e.cfg.rbIsUm then e.handleUmDrbPdu security pdu
    else e.handleAmDrbPdu security pdu

end EntityLteRx

end IsrRan.Pdcp
