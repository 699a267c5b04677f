import IsrRan.Pdcp.ReorderQueue
import Mathlib

namespace IsrRan.Pdcp
open Lib OrderedMap

/-- The deciphered PDU is too short for a MAC-I behind its header, or ends with another one than the
algorithm computes over the rest. -/
def MacMismatch (cfg : Config) (security : RxSecurity) (count : Nat) (deciphered : List Byte) : Prop :=
  deciphered.length < cfg.hdrLenBytes + 4 ∨
    security.integrityVerify count (deciphered.take (deciphered.length - 4))
      (deciphered.drop (deciphered.length - 4)) = false

def RxCall.isWritePdu : RxCall → Bool
  | .writePdu _ => true
  | .notifyPdcpIntegrityError => false

theorem extractMac_long {pdu : List Byte} (long : 4 ≤ pdu.length) (mac : List Byte) :
    extractMac pdu mac = (pdu.take (pdu.length - 4), pdu.drop (pdu.length - 4)) :=
  if_neg (Nat.not_lt_of_le long)

def RxSecurity.Decryptable (security : RxSecurity) (direction : Direction) (cfg : Config) (pdu : List Byte) : Prop :=
  direction.isRx = true → security.fits (pdu.length - cfg.hdrLenBytes) = true

theorem RxSecurity.decryptable_iff {security : RxSecurity} {direction : Direction} {cfg : Config} {pdu : List Byte} :
    security.Decryptable direction cfg pdu ↔
      (direction.isRx && !security.fits (pdu.length - cfg.hdrLenBytes)) = false := by
  unfold Decryptable
  cases direction.isRx <;> simp

namespace EntityLteRx

def Rejects (e : EntityLteRx) (result : Except Fault (EntityLteRx × List RxCall)) : Prop :=
  ∃ e' calls, result = .ok (e', calls) ∧ calls.any RxCall.isWritePdu = false ∧
    e'.rxHfn = e.rxHfn ∧ e'.nextPdcpRxSn = e.nextPdcpRxSn ∧
    e'.lastSubmittedPdcpRxSn = e.lastSubmittedPdcpRxSn ∧ e'.counts = e.counts

def enabledFor (e : EntityLteRx) (pdu : List Byte) : EntityLteRx := e.enableSecurity (readDataHeader e.cfg pdu)

def verifies (e : EntityLteRx) (security : RxSecurity) (stale pdu : List Byte) : Bool :=
  security.integrityVerify (e.srbCount (readDataHeader e.cfg pdu)) (e.extracted security stale pdu).1
    (e.extracted security stale pdu).2

theorem enable_isRx (direction : Direction) : (direction.enable .rx).isRx = true := by
  cases direction <;> rfl

theorem enabledFor_isRx {e : EntityLteRx} (enabled : e.integrityDirection.isRx = true) (pdu : List Byte) :
    (e.enabledFor pdu).integrityDirection.isRx = true := by
  unfold enabledFor enableSecurity
  split
  · exact enable_isRx e.integrityDirection
  · exact enabled

theorem handleSrbPdu_rejects {e : EntityLteRx} (enabled : e.integrityDirection.isRx = true)
    (security : RxSecurity) (stale pdu : List Byte) :
    e.Rejects (e.handleSrbPdu security stale pdu) ↔
      security.Decryptable e.encryptionDirection e.cfg pdu ∧ e.verifies security stale pdu = false := by
  rw [RxSecurity.decryptable_iff]
  unfold handleSrbPdu
  cases overflows : e.encryptionDirection.isRx && !security.fits (pdu.length - e.cfg.hdrLenBytes) with
  | true =>
    refine iff_of_false ?_ (by simp)
    rintro ⟨e', calls, done, -⟩
    contradiction
  | false =>
    simp only [true_and]
    change e.Rejects (if (e.integrityDirection.isRx && !e.verifies security stale pdu) = true then _ else _) ↔ _
    rw [enabled]
    cases verified : e.verifies security stale pdu with
    | false => exact ⟨fun _ => rfl, fun _ => ⟨e, _, rfl, rfl, rfl, rfl, rfl, rfl⟩⟩
    | true =>
      refine ⟨fun rejects => ?_, fun h => by contradiction⟩
      obtain ⟨e', calls, done, silent, -⟩ := rejects
      obtain ⟨-, rfl⟩ := Prod.mk.inj (Except.ok.inj done)
      simp [RxCall.isWritePdu] at silent

theorem deciphered_length (e : EntityLteRx) (security : RxSecurity) (pdu : List Byte) :
    (e.deciphered security pdu).length = pdu.length := by
  unfold deciphered
  split
  · exact security.decryptBody_length _ _ _
  · rfl

def Drops (e : EntityLteRx) (security : RxSecurity) (stale pdu : List Byte) : Prop :=
  e.active = false ∨ pdu.length ≤ e.cfg.hdrLenBytes ∨
    security.Decryptable (e.enabledFor pdu).encryptionDirection e.cfg pdu ∧
      (e.cfg.hdrLenBytes + 4 ≤ pdu.length ∨ (e.enabledFor pdu).verifies security stale pdu = false)

theorem writePdu_rejects {e : EntityLteRx} (srb : e.cfg.isSrb = true)
    (enabled : e.integrityDirection.isRx = true) (security : RxSecurity) (stale pdu : List Byte)
    (mismatch : MacMismatch e.cfg security ((e.enabledFor pdu).srbCount (readDataHeader e.cfg pdu))
      ((e.enabledFor pdu).deciphered security pdu)) :
    e.Rejects (e.writePdu security stale pdu) ↔ e.Drops security stale pdu := by
  have stay : e.Rejects (.ok (e, [])) := ⟨e, [], rfl, rfl, rfl, rfl, rfl, rfl⟩
  obtain ⟨integrity, encryption, timed, eq⟩ := enableSecurity_eq e (readDataHeader e.cfg pdu)
  have same : (e.enabledFor pdu).cfg = e.cfg := by
    unfold enabledFor
    rw [eq]
  have gate : e.Rejects ((e.enabledFor pdu).handleSrbPdu security stale pdu) ↔
      security.Decryptable (e.enabledFor pdu).encryptionDirection e.cfg pdu ∧
        (e.enabledFor pdu).verifies security stale pdu = false := by
    rw [← same, ← handleSrbPdu_rejects (enabledFor_isRx enabled pdu)]
    unfold Rejects enabledFor
    rw [eq]
  unfold EntityLteRx.writePdu Drops
  cases active : e.active with
  | false => simpa using stay
  | true =>
    have drb : e.cfg.isDrb = false := by simp [Config.isDrb, srb]
    simp only [drb, Bool.true_eq_false, false_or]
    by_cases short : pdu.length ≤ e.cfg.hdrLenBytes
    · rw [if_pos short]
      exact ⟨fun _ => .inl short, fun _ => stay⟩
    · rw [if_neg short]
      change e.Rejects (if (e.enabledFor pdu).cfg.isSrb = true then
        (e.enabledFor pdu).handleSrbPdu security stale pdu else _) ↔ _
      rw [same, if_pos srb, gate]
      refine ⟨fun failed => .inr ⟨failed.1, .inr failed.2⟩, fun drops => ?_⟩
      rcases drops with tooShort | ⟨decryptable, long | failed⟩
      · exact absurd tooShort short
      · have length := deciphered_length (e.enabledFor pdu) security pdu
        refine ⟨decryptable, ?_⟩
        rcases mismatch with tooShort | failed
        · omega
        · unfold verifies extracted
          rw [extractMac_long (by omega), same]
          exact failed
      · exact ⟨decryptable, failed⟩

end EntityLteRx

namespace EntityNr

def Rejects (e : EntityNr) (result : Except Fault (EntityNr × List RxCall)) : Prop :=
  ∃ e' calls, result = .ok (e', calls) ∧ calls.any RxCall.isWritePdu = false ∧
    e'.rxNext = e.rxNext ∧ e'.rxDeliv = e.rxDeliv ∧ e'.rxReord = e.rxReord ∧
    e'.reorderQueue = e.reorderQueue ∧ e'.reorderingTimerRunning = e.reorderingTimerRunning ∧
    e'.rxOverflow = e.rxOverflow

def verifies (e : EntityNr) (security : RxSecurity) (pdu : List Byte) : Bool :=
  security.integrityVerify (e.rcvdCount (readDataHeader e.cfg pdu)) (e.extracted security pdu).1
    (e.extracted security pdu).2

def received (e : EntityNr) (count : Nat) : Prop := count < e.rxDeliv ∨ e.reorderQueue.contains count = true

def Drops (e : EntityNr) (security : RxSecurity) (pdu : List Byte) : Prop :=
  e.rxOverflow = true ∨ pdu.length ≤ e.cfg.hdrLenBytes ∨
    security.Decryptable e.encryptionDirection e.cfg pdu ∧
      (e.integrityDirection.isTx = true ∧ e.verifies security pdu = false ∨
        e.received (e.rcvdCount (readDataHeader e.cfg pdu)))

theorem receive_visible {e : EntityNr} (flows : e.rxOverflow = false) {count : Nat}
    (fresh : ¬ e.received count) (payload : Payload) :
    (e.receive count payload).2 ≠ [] ∨ (e.receive count payload).1.reorderQueue ≠ e.reorderQueue := by
  obtain ⟨current, absent⟩ := not_or.mp fresh
  have missing : find e.reorderQueue count = none := by
    simpa [OrderedMap.contains] using absent
  have stored : find (e.storePdu count payload).reorderQueue count = some payload := by
    simp [EntityNr.storePdu, find_insertOrAssign]
  have timers : ∀ e' : EntityNr, e'.stopReorderingTimer.startReorderingTimer.reorderQueue = e'.reorderQueue := by
    intro e'
    obtain ⟨_, stopped, -⟩ := stopReorderingTimer_eq e'
    rw [stopped]
    obtain ⟨_, _, started, -⟩ := startReorderingTimer_eq { e' with reorderingTimerRunning := _ }
    rw [started]
  have changed : (e.storePdu count payload).reorderQueue ≠ e.reorderQueue := by
    intro same
    rw [same, missing] at stored
    contradiction
  unfold EntityNr.receive
  rw [if_neg current, if_neg absent]
  dsimp only
  split
  · unfold EntityNr.deliverConsecutive
    generalize stored_eq : e.storePdu count payload = s at *
    have flows' : s.rxOverflow = false := by rw [← stored_eq]; exact flows
    rw [timers]
    cases queue : s.reorderQueue with
    | nil =>
      rw [queue] at stored
      contradiction
    | cons p rest =>
      unfold deliverAllConsecutiveCounts
      rw [flows']
      split
      · exact .inl (by simp)
      · exact .inr (queue ▸ changed)
  · rw [timers]
    exact .inr changed

theorem receive_rejects {e : EntityNr} (flows : e.rxOverflow = false) (count : Nat) (payload : Payload) :
    e.Rejects (.ok ((e.receive count payload).1, (e.receive count payload).2.map .writePdu)) ↔ e.received count := by
  constructor
  · rintro ⟨e', calls, done, silent, -, -, -, queue, -⟩
    obtain ⟨rfl, rfl⟩ := Prod.mk.inj (Except.ok.inj done)
    by_contra fresh
    rcases receive_visible flows fresh payload with delivered | changed
    · cases sdus : (e.receive count payload).2 with
      | nil => exact delivered sdus
      | cons sdu rest => simp [sdus, RxCall.isWritePdu] at silent
    · exact changed queue
  · intro known
    have nothing : e.receive count payload = (e, []) := by
      unfold EntityNr.receive
      rcases known with old | waiting
      · rw [if_pos old]
      · rw [if_pos waiting, ite_self]
    rw [nothing]
    exact ⟨e, [], rfl, rfl, rfl, rfl, rfl, rfl, rfl, rfl⟩

theorem writePdu_rejects (e : EntityNr) (security : RxSecurity) (pdu : List Byte) :
    e.Rejects (e.writePdu security pdu) ↔ e.Drops security pdu := by
  have stay : ∀ calls : List RxCall, calls.any RxCall.isWritePdu = false → e.Rejects (.ok (e, calls)) :=
    fun calls silent => ⟨e, calls, rfl, silent, rfl, rfl, rfl, rfl, rfl, rfl⟩
  unfold EntityNr.writePdu Drops
  cases flows : e.rxOverflow with
  | true => simpa using stay [] rfl
  | false =>
    simp only [Bool.false_eq_true, false_or]
    by_cases short : pdu.length ≤ e.cfg.hdrLenBytes
    · rw [if_pos short]
      exact ⟨fun _ => .inl short, fun _ => stay [] rfl⟩
    · rw [if_neg short]
      cases overflows : e.encryptionDirection.isRx && !security.fits (pdu.length - e.cfg.hdrLenBytes) with
      | true =>
        refine iff_of_false ?_ (by simp [short, RxSecurity.decryptable_iff, overflows])
        rintro ⟨e', calls, done, -⟩
        contradiction
      | false =>
        have decryptable := RxSecurity.decryptable_iff.mpr overflows
        change e.Rejects (if (e.integrityDirection.isTx && !e.verifies security pdu) = true then _ else _) ↔ _
        by_cases failed : e.integrityDirection.isTx = true ∧ e.verifies security pdu = false
        · rw [if_pos (by simp [failed.1, failed.2])]
          exact ⟨fun _ => .inr ⟨decryptable, .inl failed⟩, fun _ => stay _ rfl⟩
        · rw [if_neg (by simpa using failed)]
          rw [receive_rejects flows]
          refine ⟨fun known => .inr ⟨decryptable, .inr known⟩, fun drops => ?_⟩
          rcases drops with h | ⟨-, h | h⟩
          · exact absurd h short
          · exact absurd h failed
          · exact h

end EntityNr

theorem mismatch_rejected_iff (security : RxSecurity) (stale pdu : List Byte) :
    (∀ e : EntityLteRx,
      e.cfg.isSrb = true → e.integrityDirection.isRx = true → security.integrity.isSome = true →
      MacMismatch e.cfg security ((e.enabledFor pdu).srbCount (readDataHeader e.cfg pdu))
        ((e.enabledFor pdu).deciphered security pdu) →
      (e.Rejects (e.writePdu security stale pdu) ↔ e.Drops security stale pdu)) ∧
    ∀ e : EntityNr,
      e.integrityDirection.isRx = true → security.integrity.isSome = true →
      MacMismatch e.cfg security (e.rcvdCount (readDataHeader e.cfg pdu)) (e.deciphered security pdu) →
      (e.Rejects (e.writePdu security pdu) ↔ e.Drops security pdu) :=
  ⟨fun _ srb enabled _ mismatch => EntityLteRx.writePdu_rejects srb enabled security stale pdu mismatch,
    fun e _ _ _ => EntityNr.writePdu_rejects e security pdu⟩

def lengthSecurity : RxSecurity where
  integrity := some fun _ msg => [0, 0, 0, UInt8.ofNat msg.length]
  cipherDecrypt := none
  cipherDecrypt_length := NrReceiver.plainSecurity.cipherDecrypt_length

def protectedSrb : EntityLteRx :=
  { EntityLteRx.configure { snLen := .len5, isSrb := true, rbIsUm := false } with integrityDirection := .rx }

def protectedNr (direction : Direction) : EntityNr := { cfg := NrReceiver.nrDrbConfig, integrityDirection := direction }

theorem mismatch_rejected_iff_txrx :
    protectedSrb.Rejects (protectedSrb.writePdu lengthSecurity [] [0, 7, 0, 0, 0, 9]) ∧
      (protectedNr .txrx).Rejects ((protectedNr .txrx).writePdu lengthSecurity [0x80, 0, 7, 0, 0, 0, 9]) :=
  ⟨((mismatch_rejected_iff lengthSecurity [] [0, 7, 0, 0, 0, 9]).1 protectedSrb rfl rfl rfl (.inr rfl)).mpr
      (.inr (.inr ⟨fun _ => rfl, .inl (by decide)⟩)),
    ((mismatch_rejected_iff lengthSecurity [] [0x80, 0, 7, 0, 0, 0, 9]).2 (protectedNr .txrx) rfl rfl
      (.inr rfl)).mpr (.inr (.inr ⟨fun _ => rfl, .inl ⟨rfl, rfl⟩⟩))⟩

theorem forged_delivered :
    ¬ ((∀ (e : EntityLteRx) (security : RxSecurity) (stale pdu : List Byte),
      e.cfg.isSrb = true → e.integrityDirection.isRx = true → security.integrity.isSome = true →
      MacMismatch e.cfg security ((e.enabledFor pdu).srbCount (readDataHeader e.cfg pdu))
        ((e.enabledFor pdu).deciphered security pdu) → e.Rejects (e.writePdu security stale pdu)) ∧
    ∀ (e : EntityNr) (security : RxSecurity) (pdu : List Byte),
      e.integrityDirection.isRx = true → security.integrity.isSome = true →
      MacMismatch e.cfg security (e.rcvdCount (readDataHeader e.cfg pdu)) (e.deciphered security pdu) →
      e.Rejects (e.writePdu security pdu)) := by
  rintro ⟨-, rejects⟩
  obtain ⟨e', calls, done, silent, -⟩ := rejects (protectedNr .rx) lengthSecurity
    [0x80, 0, 7, 0, 0, 0, 9] rfl rfl (.inr rfl)
  cases done
  contradiction

end IsrRan.Pdcp
