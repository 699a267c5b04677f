import IsrRan.Common.Memory

namespace IsrRan.Pdcp
open Function UInt8

structure StoredSdu where
  pdcpSn : Nat
  msg : List Byte
  deriving DecidableEq, Repr

/-- `undelivered_sdus_queue`. `sdus` is a circular array of `capacity` slots. -/
structure UndeliveredSdus where
  snMod : Nat
  count : Nat := 0
  bytes : Nat := 0
  fms : Nat := 0
  lms : Nat := 0
  sdus : Nat → Option StoredSdu := fun _ => none

namespace UndeliveredSdus

def capacity : Nat := 4096

def empty (q : UndeliveredSdus) : Bool := q.count = 0

def isFull (q : UndeliveredSdus) : Bool := capacity ≤ q.count

def find (q : UndeliveredSdus) (sn : Nat) : Option StoredSdu :=
  (q.sdus (sn % capacity)).filter (fun sdu => sdu.pdcpSn = sn)

def hasSdu (q : UndeliveredSdus) (sn : Nat) : Bool := (q.find sn).isSome

def incrementSn (q : UndeliveredSdus) (sn : Nat) : Nat := (sn + 1) % q.snMod

def nextStored (q : UndeliveredSdus) : Nat → Nat → Option Nat
  | 0, _ => none
  | fuel + 1, i =>
    if q.hasSdu (q.incrementSn (q.fms + i)) then some (q.incrementSn (q.fms + i))
    else q.nextStored fuel (i + 1)

def updateFms (q : UndeliveredSdus) : UndeliveredSdus :=
  if q.empty then { q with fms := q.incrementSn q.fms }
  else { q with fms := (q.nextStored (capacity / 2) 0).getD (q.incrementSn q.fms) }

def updateLms (q : UndeliveredSdus) (sn : Nat) : UndeliveredSdus :=
  if q.empty then { q with lms := q.fms }
  else if 0 < i32 (u32Sub sn q.lms) && q.lms < sn then { q with lms := sn }
  else if i32 (u32Sub sn q.lms) < 0 && sn < q.lms then { q with lms := sn }
  else q

def addSdu (q : UndeliveredSdus) (sn : Nat) (msg : List Byte) : Option UndeliveredSdus :=
  let diff := i32 (u32Sub sn q.fms)
  if q.isFull then none
  else if !q.empty && (capacity / 2 < diff || diff ≤ 0 && -(capacity / 2 : Nat) < diff) then none
  else
    let q := if q.empty then { q with fms := sn, lms := sn } else q.updateLms sn
    some { q with
      count := q.count + 1
      bytes := q.bytes + msg.length
      sdus := update q.sdus (sn % capacity) (some ⟨sn, msg⟩) }

def clearSdu (q : UndeliveredSdus) (sn : Nat) : UndeliveredSdus :=
  match q.find sn with
  | none => q
  | some sdu =>
    let q := { q with
      count := q.count - 1
      bytes := q.bytes - sdu.msg.length
      sdus := update q.sdus (sn % capacity) none }
    if sn = q.fms then q.updateFms else q

theorem find_congr {q q' : UndeliveredSdus} (same : q'.sdus = q.sdus) (sn : Nat) : q'.find sn = q.find sn := by
  simp only [find, same]

theorem updateFms_sdus (q : UndeliveredSdus) : q.updateFms.sdus = q.sdus := by
  unfold updateFms
  split <;> rfl

theorem hasSdu_clearSdu (q : UndeliveredSdus) (sn x : Nat) :
    (q.clearSdu sn).hasSdu x = true ↔ q.hasSdu x = true ∧ x ≠ sn := by
  unfold clearSdu
  cases found : q.find sn with
  | none =>
    refine ⟨fun h => ⟨h, ?_⟩, And.left⟩
    rintro rfl
    simp [hasSdu, found] at h
  | some sdu =>
    dsimp only
    have cleared (q' : UndeliveredSdus) (slots : q'.sdus = update q.sdus (sn % capacity) none) :
        q'.hasSdu x = true ↔ q.hasSdu x = true ∧ x ≠ sn := by
      unfold hasSdu find
      rw [slots]
      obtain ⟨slot, same⟩ := Option.filter_eq_some_iff.mp found
      by_cases shared : x % capacity = sn % capacity
      · rw [shared, update_self, slot]
        have : sdu.pdcpSn = sn := by simpa using same
        simp only [Option.filter_none, Option.isSome_none, Bool.false_eq_true, false_iff]
        intro held
        have : sdu.pdcpSn = x := by
          by_contra other
          simp [other] at held
        omega
      · rw [update_of_ne shared]
        refine ⟨fun h => ⟨h, ?_⟩, And.left⟩
        rintro rfl
        exact shared rfl
    split
    · exact cleared _ (updateFms_sdus _)
    · exact cleared _ rfl

theorem hasSdu_clearAll (sns : List Nat) (q : UndeliveredSdus) (x : Nat) :
    (sns.foldl clearSdu q).hasSdu x = true ↔ q.hasSdu x = true ∧ x ∉ sns := by
  induction sns generalizing q with
  | nil => simp
  | cons sn sns ih =>
    rw [List.foldl_cons, ih, hasSdu_clearSdu, List.mem_cons, not_or, and_assoc]

end UndeliveredSdus

inductive SnLen where
  | len5
  | len7
  | len12
  | len18
  deriving DecidableEq, Repr

def SnLen.bits : SnLen → Nat
  | len5 => 5
  | len7 => 7
  | len12 => 12
  | len18 => 18

inductive Direction where
  | none
  | tx
  | rx
  | txrx
  deriving DecidableEq, Repr

/-- `enable_integrity` and `enable_encryption`: what is enabled already stays so. -/
def Direction.enable : Direction → Direction → Direction
  | .tx, .rx => .txrx
  | .rx, .tx => .txrx
  | _, direction => direction

def Direction.isTx (direction : Direction) : Bool := direction = .tx || direction = .txrx

structure Config where
  snLen : SnLen
  isSrb : Bool
  rbIsUm : Bool
  statusReportRequired : Bool := false
  deriving DecidableEq, Repr

namespace Config

def isDrb (cfg : Config) : Bool := !cfg.isSrb

def hdrLenBytes (cfg : Config) : Nat := (cfg.snLen.bits + 7) / 8

def snSpace (cfg : Config) : Nat := 2 ^ cfg.snLen.bits

def maximumPdcpSn (cfg : Config) : Nat := cfg.snSpace - 1

def maximumAllocatedSnsWindow (cfg : Config) : Nat := cfg.snSpace / 2

def sn (cfg : Config) (count : Nat) : Nat := count % cfg.snSpace

def count (cfg : Config) (hfn sn : Nat) : Nat := (hfn * cfg.snSpace % 4294967296) ||| sn

end Config

def pdcpMaxSduSize : Nat := 9000

abbrev Cipher := Option (Nat → List Byte → List Byte)

namespace Cipher

def apply (cipher : Cipher) (count : Nat) (msg : List Byte) : List Byte := cipher.elim msg fun algorithm => algorithm count msg

def fits (cipher : Cipher) (msgLen : Nat) : Bool := cipher.isNone || msgLen ≤ pdcpMaxSduSize

end Cipher

structure Security where
  integrityGenerate : Nat → List Byte → List Byte
  cipherEncrypt : Cipher

structure EntityLte where
  cfg : Config
  active : Bool := true
  integrityDirection : Direction := .none
  encryptionDirection : Direction := .none
  enableSecurityTxSn : Int := -1
  nextPdcpTxSn : Nat := 0
  txHfn : Nat := 0
  undeliveredSdus : UndeliveredSdus

structure RlcStatus where
  isSuspended : Bool := false
  sduQueueIsFull : Bool := false
  deriving DecidableEq, Repr

structure Pdu where
  txCount : Nat
  buf : ByteBuffer
  pdcpSn : Nat
  deriving DecidableEq, Repr

def dataHeader (cfg : Config) (count : Nat) : List Byte :=
  let dField := if cfg.isDrb then 128 else 0
  match cfg.snLen with
  | .len5 => [UInt8.ofNat (cfg.sn count)]
  | .len7 => [UInt8.ofNat (cfg.sn count + dField)]
  | .len12 => [UInt8.ofNat (cfg.sn count / 256 + dField), UInt8.ofNat (cfg.sn count % 256)]
  | .len18 => [UInt8.ofNat (cfg.sn count / 65536 + 128), UInt8.ofNat (cfg.sn count / 256 % 256),
      UInt8.ofNat (cfg.sn count % 256)]

def writeDataHeader (cfg : Config) (sdu : ByteBuffer) (count : Nat) : ByteBuffer :=
  if sdu.headroom < cfg.hdrLenBytes then sdu
  else { headroom := sdu.headroom - cfg.hdrLenBytes, msg := dataHeader cfg count ++ sdu.msg }

def appendMac (sdu : ByteBuffer) (mac : List Byte) : ByteBuffer :=
  if sdu.getTailroom < sdu.nBytes + 4 then sdu else { sdu with msg := sdu.msg ++ mac }

def frame (cfg : Config) (security : Security) (integrity : Bool) (sdu : ByteBuffer) (txCount : Nat) : ByteBuffer :=
  let sdu := writeDataHeader cfg sdu txCount
  let mac := if integrity && cfg.isSrb then security.integrityGenerate txCount sdu.msg else [0, 0, 0, 0]
  if cfg.isSrb then appendMac sdu mac else sdu

def protect (cfg : Config) (security : Security) (integrity encryption : Bool) (sdu : ByteBuffer)
    (txCount : Nat) : ByteBuffer :=
  let sdu := frame cfg security integrity sdu txCount
  if encryption then
    { sdu with msg := sdu.msg.take cfg.hdrLenBytes ++
        security.cipherEncrypt.apply txCount (sdu.msg.drop cfg.hdrLenBytes) }
  else sdu

namespace EntityLte

def storeSdu (e : EntityLte) (sn : Nat) (sdu : ByteBuffer) : Option UndeliveredSdus :=
  let q := e.undeliveredSdus
  let diff := i32 (u32Sub sn q.fms)
  if q.hasSdu sn || q.isFull then none
  else if !q.empty && ((e.cfg.maximumAllocatedSnsWindow : Int) < diff ||
      diff < 0 && -(e.cfg.maximumAllocatedSnsWindow : Int) < diff) then none
  else q.addSdu sn sdu.msg

def enableSecurity (e : EntityLte) (txCount : Nat) : EntityLte :=
  if e.enableSecurityTxSn ≠ -1 && e.enableSecurityTxSn = i32 txCount then
    { e with
      integrityDirection := e.integrityDirection.enable .tx
      encryptionDirection := e.encryptionDirection.enable .tx
      enableSecurityTxSn := -1 }
  else e

def incrementNextPdcpTxSn (e : EntityLte) : EntityLte :=
  if e.cfg.maximumPdcpSn < e.nextPdcpTxSn + 1 then
    { e with txHfn := (e.txHfn + 1) % 4294967296, nextPdcpTxSn := 0 }
  else { e with nextPdcpTxSn := e.nextPdcpTxSn + 1 }

def submit (e : EntityLte) (security : Security) (sdu : ByteBuffer) (upperSn : Option Nat)
    (usedSn : Nat) : Except Fault (EntityLte × Pdu) :=
  let txCount := e.cfg.count e.txHfn usedSn
  let e := e.enableSecurity txCount
  let msgLen := u32Sub (frame e.cfg security e.integrityDirection.isTx sdu txCount).nBytes e.cfg.hdrLenBytes
  if e.encryptionDirection.isTx && !security.cipherEncrypt.fits msgLen then .error .undefinedBehaviour
  else
    let pdu := protect e.cfg security e.integrityDirection.isTx e.encryptionDirection.isTx sdu txCount
    .ok (if upperSn.isNone then e.incrementNextPdcpTxSn else e, ⟨txCount, pdu, usedSn⟩)

/-- `upperSn` is `none` where the source passes -1. -/
def writeSdu (e : EntityLte) (security : Security) (rlc : RlcStatus) (sdu : ByteBuffer)
    (upperSn : Option Nat) : Except Fault (EntityLte × Option Pdu) :=
  if !e.active || rlc.isSuspended || rlc.sduQueueIsFull then .ok (e, none)
  else
    let usedSn := upperSn.getD e.nextPdcpTxSn
    if !e.cfg.rbIsUm && e.cfg.isDrb then
      match e.storeSdu usedSn sdu with
      | none => .ok (e, none)
      | some undeliveredSdus =>
        ({ e with undeliveredSdus }.submit security sdu upperSn usedSn).map (Prod.map id some)
    else (e.submit security sdu upperSn usedSn).map (Prod.map id some)

end EntityLte

end IsrRan.Pdcp
