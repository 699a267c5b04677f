import IsrRan.Lib.ModWindow
import IsrRan.Nas.ProtectedPdu

namespace IsrRan.Nas.Exchange
open Lib List Bool Option UInt8

variable {c : Crypto} {s : Exchange} {message : List Byte} {m : InFlight} {rest : List InFlight}

structure Sent (c : Crypto) (κ : SecurityContext) (direction : Direction) (m : InFlight) : Prop where
  pdu : ∃ cipherCount, m.sent.pdu = protectedPdu c κ direction m.sent.count cipherCount m.message ∧
    (κ.cipherAlgo = 0 ∨ cipherCount = m.sent.count ∧ m.sent.count < 256)
  cipherCount : ∀ n ∈ m.sent.cipherCount, n = m.sent.count ∧ n < 256
  small : m.sent.count < 16777216

def counts (messages : List InFlight) : List Nat := messages.map (·.sent.count)

/-- The invariant: each receiver's counter is linked to the sender's through what is in flight. -/
structure Synchronised (c : Crypto) (s : Exchange) : Prop where
  securityContext : s.mme.securityContext = s.ue.securityContext
  haveCtxt : s.ue.haveCtxt = true
  currentSecHdr : s.ue.currentSecHdr = hdrIntegrityAndCiphered
  imsi : s.mme.imsi ≠ 0
  uplink : ∀ m ∈ s.uplink, Sent c s.ue.securityContext .uplink m ∧ ueMessage m.message = true
  downlink : ∀ m ∈ s.downlink, Sent c s.ue.securityContext .downlink m ∧ mmeMessage m.message = true
  ulLinked : Linked 256 s.mme.ulNasCount (counts s.uplink) s.ue.txCount
  dlLinked : Linked 256 s.ue.rxCount (counts s.downlink) (s.mme.dlNasCount + 1)
  txSmall : s.ue.txCount ≤ 16777216
  dlSmall : s.mme.dlNasCount < 16777216
  ueCiphered : s.ueCiphered.Nodup ∧ ∀ used ∈ s.ueCiphered, used.2 < s.ue.txCount
  mmeCiphered : s.mmeCiphered.Nodup ∧ ∀ used ∈ s.mmeCiphered, used.2 < s.mme.dlNasCount + 1

namespace Synchronised

variable {mme : MmeNas} {count : Nat} {counted : Bool}

theorem start {ue : UeNas} (h : Secured ue mme) : Synchronised c (start ue mme) := by
  constructor
  case securityContext => exact h.securityContext
  case haveCtxt => exact h.haveCtxt
  case currentSecHdr => exact h.currentSecHdr
  case imsi => exact h.imsi
  case uplink => simp [Exchange.start]
  case downlink => simp [Exchange.start]
  case ulLinked =>
    change mme.ulNasCount / 256 = ue.txCount / 256
    rw [h.ulNasCount, h.txCount]
  case dlLinked =>
    change ue.rxCount / 256 = (mme.dlNasCount + 1) / 256
    rw [h.rxCount, h.dlNasCount]
  case txSmall =>
    change ue.txCount ≤ 16777216
    rw [h.txCount]
    decide
  case dlSmall =>
    change mme.dlNasCount < 16777216
    rw [h.dlNasCount]
    decide
  case ueCiphered => simp [Exchange.start]
  case mmeCiphered => simp [Exchange.start]

/-! ## Losses -/

theorem loseUplink (h : Synchronised c s) (head : s.uplink = m :: rest) (inside : m.sent.count % 256 ≠ 255) :
    Synchronised c { s with uplink := rest } := by
  have linked := h.ulLinked
  rw [head] at linked
  exact { h with
    uplink := fun m mem => h.uplink m (head ▸ mem_cons_of_mem _ mem)
    ulLinked := linked.lose inside }

theorem loseDownlink (h : Synchronised c s) (head : s.downlink = m :: rest)
    (inside : m.sent.count % 256 ≠ 255) : Synchronised c { s with downlink := rest } := by
  have linked := h.dlLinked
  rw [head] at linked
  exact { h with
    downlink := fun m mem => h.downlink m (head ▸ mem_cons_of_mem _ mem)
    dlLinked := linked.lose inside }

/-! ## Sending -/

theorem usable_iff {algo : Nat} :
    usable algo count = true ↔ (algo = 0 ∨ count < 256) ∧ count < 16777216 := by
  simp [usable]

theorem log_append {log : List (Key × Nat)} {key : Key} {next : Nat} {new : SentMessage}
    (h : log.Nodup ∧ ∀ used ∈ log, used.2 < next) (fresh : ∀ n ∈ new.cipherCount, n = next) :
    (log ++ ([new].filterMap (·.cipherCount)).map (key, ·)).Nodup ∧
      ∀ used ∈ log ++ ([new].filterMap (·.cipherCount)).map (key, ·), used.2 < next + 1 := by
  cases ciphered : new.cipherCount with
  | none =>
    have unchanged : [new].filterMap (·.cipherCount) = [] := by simp [ciphered]
    rw [unchanged, map_nil, append_nil]
    exact ⟨h.1, fun used mem => Nat.lt_succ_of_lt (h.2 used mem)⟩
  | some n =>
    obtain rfl : n = next := fresh n ciphered
    have one : [new].filterMap (·.cipherCount) = [n] := by simp [ciphered]
    rw [one]
    constructor
    · apply List.nodup_append.mpr
      refine ⟨h.1, by simp, ?_⟩
      intro used mem other last
      rw [List.mem_singleton.mp last]
      intro same
      have below := h.2 used mem
      rw [same] at below
      exact absurd below (Nat.lt_irrefl _)
    · intro used mem
      rcases List.mem_append.mp mem with before | last
      · exact Nat.lt_succ_of_lt (h.2 used before)
      · rw [List.mem_singleton.mp last]
        exact Nat.lt_succ_self _

theorem cipherCount_eq {algo : Nat} {n : Nat}
    (used : n ∈ (if algo ≠ 0 then some count else none)) : algo ≠ 0 ∧ n = count := by
  split at used
  · rename_i ciphers
    exact ⟨ciphers, (Option.mem_some.mp used).symm⟩
  · cases used

theorem ueSends (h : Synchronised c s) (own : ueMessage message = true)
    (fresh : usable s.ue.cipherAlgo s.ue.txCount = true) :
    Synchronised c (s.putUplink message (s.ue.send c message)) := by
  obtain ⟨agree, small⟩ := usable_iff.mp fresh
  rw [UeNas.send_protected h.haveCtxt h.currentSecHdr]
  have next : countSucc s.ue.txCount = s.ue.txCount + 1 := UeNas.countSucc_of_small small
  constructor
  case securityContext => exact h.securityContext
  case haveCtxt => exact h.haveCtxt
  case currentSecHdr => exact h.currentSecHdr
  case imsi => exact h.imsi
  case downlink => exact h.downlink
  case dlLinked => exact h.dlLinked
  case dlSmall => exact h.dlSmall
  case mmeCiphered => exact h.mmeCiphered
  case uplink =>
    intro m mem
    rcases List.mem_append.mp mem with before | new
    · exact h.uplink m before
    · obtain rfl := List.mem_singleton.mp new
      refine ⟨?_, own⟩
      rw [UeNas.protect_eq]
      constructor
      case pdu => exact ⟨_, rfl, agree.imp_right fun low => ⟨rfl, low⟩⟩
      case small => exact small
      case cipherCount =>
        intro n used
        obtain ⟨ciphers, rfl⟩ := cipherCount_eq used
        exact ⟨rfl, agree.resolve_left ciphers⟩
  case ulLinked =>
    change Linked 256 s.mme.ulNasCount (counts (s.uplink ++ [_])) (countSucc s.ue.txCount)
    rw [next, counts, map_append]
    exact h.ulLinked.send
  case txSmall =>
    change countSucc s.ue.txCount ≤ 16777216
    omega
  case ueCiphered =>
    rw [next]
    apply log_append h.ueCiphered
    intro n used
    rw [UeNas.protect_eq] at used
    exact (cipherCount_eq used).2

theorem mmeSends (h : Synchronised c s) (own : mmeMessage message = true)
    (fresh : usable s.mme.cipherAlgo (s.mme.dlNasCount + 1) = true)
    (context : mme.securityContext = s.mme.securityContext) (imsi : mme.imsi = s.mme.imsi)
    (ul : mme.ulNasCount = s.mme.ulNasCount) (dl : mme.dlNasCount = countSucc s.mme.dlNasCount) :
    Synchronised c (s.putDownlink message (mme, [(s.mme.packProtected c message).2])) := by
  obtain ⟨agree, small⟩ := usable_iff.mp fresh
  have next : countSucc s.mme.dlNasCount = s.mme.dlNasCount + 1 := UeNas.countSucc_of_small h.dlSmall
  rw [next] at dl
  have packed : (s.mme.packProtected c message).2 =
      ⟨protectedPdu c s.mme.securityContext .downlink (s.mme.dlNasCount + 1)
          ((s.mme.dlNasCount + 1) % 256) message, s.mme.dlNasCount + 1,
        if s.mme.cipherAlgo ≠ 0 then some ((s.mme.dlNasCount + 1) % 256) else none⟩ := by
    unfold MmeNas.packProtected
    rw [next]
    dsimp only
    rw [MmeNas.protect_eq]
    rfl
  constructor
  case securityContext => exact context.trans h.securityContext
  case haveCtxt => exact h.haveCtxt
  case currentSecHdr => exact h.currentSecHdr
  case imsi =>
    change mme.imsi ≠ 0
    rw [imsi]
    exact h.imsi
  case uplink => exact h.uplink
  case ulLinked =>
    change Linked 256 mme.ulNasCount _ _
    rw [ul]
    exact h.ulLinked
  case txSmall => exact h.txSmall
  case ueCiphered => exact h.ueCiphered
  case downlink =>
    intro m mem
    rcases List.mem_append.mp mem with before | new
    · exact h.downlink m before
    · obtain rfl := List.mem_singleton.mp new
      refine ⟨?_, own⟩
      rw [packed]
      constructor
      case pdu =>
        refine ⟨(s.mme.dlNasCount + 1) % 256, ?_, agree.imp ?_ fun low => ⟨Nat.mod_eq_of_lt low, low⟩⟩
        · rw [h.securityContext]
          rfl
        · intro none_
          exact (congrArg SecurityContext.cipherAlgo h.securityContext).symm.trans none_
      case small => exact small
      case cipherCount =>
        intro n used
        obtain ⟨ciphers, rfl⟩ := cipherCount_eq used
        have low := agree.resolve_left ciphers
        rw [Nat.mod_eq_of_lt low]
        exact ⟨rfl, low⟩
  case dlLinked =>
    change Linked 256 s.ue.rxCount (counts (s.downlink ++ [_])) (mme.dlNasCount + 1)
    rw [dl, counts, map_append, packed]
    exact h.dlLinked.send
  case dlSmall =>
    change mme.dlNasCount < 16777216
    omega
  case mmeCiphered =>
    change (s.mmeCiphered ++ _).Nodup ∧ ∀ used ∈ s.mmeCiphered ++ _, used.2 < mme.dlNasCount + 1
    rw [dl]
    apply log_append h.mmeCiphered
    intro n used
    rw [packed] at used
    obtain ⟨ciphers, rfl⟩ := cipherCount_eq used
    exact Nat.mod_eq_of_lt (agree.resolve_left ciphers)

/-! ## Receiving -/

theorem linked_received {counter next : Nat} {later : List Nat}
    (linked : Linked 256 counter (count :: later) next) (kept : count % 256 ≠ 255 ∨ counted = true) :
    Linked 256 (if counted then count + 1 else count) later next := by
  cases counted with
  | true => exact linked.receive
  | false => exact linked.keep (kept.resolve_right (by decide))

theorem mmeReceives (h : Synchronised c s) (head : s.uplink = m :: rest)
    (kept : m.sent.count % 256 ≠ 255 ∨ counted = true)
    (context : mme.securityContext = s.mme.securityContext) (imsi : mme.imsi = s.mme.imsi)
    (ul : mme.ulNasCount = if counted then m.sent.count + 1 else m.sent.count)
    (dl : mme.dlNasCount = s.mme.dlNasCount) : Synchronised c { s with uplink := rest, mme := mme } := by
  have linked := h.ulLinked
  rw [head] at linked
  constructor
  case securityContext => exact context.trans h.securityContext
  case haveCtxt => exact h.haveCtxt
  case currentSecHdr => exact h.currentSecHdr
  case imsi =>
    rw [imsi]
    exact h.imsi
  case uplink => exact fun m mem => h.uplink m (head ▸ mem_cons_of_mem _ mem)
  case downlink => exact h.downlink
  case ulLinked =>
    rw [ul]
    exact linked_received linked kept
  case dlLinked =>
    rw [dl]
    exact h.dlLinked
  case txSmall => exact h.txSmall
  case dlSmall =>
    rw [dl]
    exact h.dlSmall
  case ueCiphered => exact h.ueCiphered
  case mmeCiphered =>
    rw [dl]
    exact h.mmeCiphered

theorem ueReceives (h : Synchronised c s) (guti : Bool) (head : s.downlink = m :: rest)
    (kept : m.sent.count % 256 ≠ 255 ∨ counted = true) :
    Synchronised c { s with
      downlink := rest
      ue := { s.ue with
        rxCount := if counted then m.sent.count + 1 else m.sent.count
        haveGuti := guti } } := by
  have linked := h.dlLinked
  rw [head] at linked
  exact { h with
    downlink := fun m mem => h.downlink m (head ▸ mem_cons_of_mem _ mem)
    dlLinked := linked_received linked kept }

/-! ## Agreement -/

section
variable (h : Synchronised c s)
include h

theorem uplinkAgrees (head : s.uplink = m :: rest) : uplinkAgrees s.mme m.sent := by
  obtain ⟨sent, -⟩ := h.uplink m (head ▸ mem_cons_self)
  obtain ⟨cipherCount, pdu, -⟩ := sent.pdu
  have linked := h.ulLinked
  rw [head] at linked
  constructor
  · unfold MmeNas.estimatedCount
    rw [pdu, sequenceNumber_protectedPdu]
    exact linked.estimate_eq (by decide)
  · intro n used
    obtain ⟨rfl, low⟩ := sent.cipherCount n used
    unfold MmeNas.decryptCount
    rw [pdu, sequenceNumber_protectedPdu]
    exact Nat.mod_eq_of_lt low

theorem countEst_eq (head : s.downlink = m :: rest) :
    s.ue.countEst m.sent.pdu = m.sent.count := by
  obtain ⟨sent, -⟩ := h.downlink m (head ▸ mem_cons_self)
  obtain ⟨cipherCount, pdu, -⟩ := sent.pdu
  have linked := h.dlLinked
  rw [head] at linked
  have block : s.ue.rxCount / 256 = m.sent.count / 256 := linked.1
  have small := sent.small
  rw [pdu, UeNas.countEst_protectedPdu]
  omega

theorem downlinkAgrees (stream : c.Stream) (head : s.downlink = m :: rest) :
    downlinkAgrees c s.ue m.sent := by
  obtain ⟨sent, -⟩ := h.downlink m (head ▸ mem_cons_self)
  obtain ⟨cipherCount, pdu, -⟩ := sent.pdu
  have est := h.countEst_eq head
  refine ⟨est, ?_⟩
  intro n used
  obtain ⟨rfl, -⟩ := sent.cipherCount n used
  rw [pdu] at est ⊢
  rw [UeNas.integrityCheck_protected stream est]
  exact UeNas.countEst_self sent.small

theorem agrees (stream : c.Stream) : Agrees c s := by
  constructor
  case uplink =>
    intro m mem
    obtain ⟨rest, head⟩ := head?_eq_some_iff.mp mem
    exact h.uplinkAgrees head
  case downlink =>
    intro m mem
    obtain ⟨rest, head⟩ := head?_eq_some_iff.mp mem
    exact h.downlinkAgrees stream head
  case ueCiphered => exact h.ueCiphered.1
  case mmeCiphered => exact h.mmeCiphered.1

end

/-! ## Runs -/

theorem putDownlink_nil : s.putDownlink message (mme, []) = { s with mme := mme } := by
  simp [putDownlink]

theorem putUplink_nil {ue : UeNas} : s.putUplink message (ue, []) = { s with ue := ue } := by
  simp [putUplink]

theorem deliverUplink (h : Synchronised c s) (stream : c.Stream) {x : UlContents}
    (reply : mmeMessage x.reply = true) (keeps : keepsCounts s (.deliverUplink x) = true)
    (head : s.uplink = m :: rest) :
    Synchronised c ({ s with uplink := rest }.putDownlink x.reply
      ((s.mme.handleUplinkNasTransport c x m.sent.pdu).1,
        (s.mme.handleUplinkNasTransport c x m.sent.pdu).2.filter isProtected)) := by
  obtain ⟨sent, own⟩ := h.uplink m (head ▸ mem_cons_self)
  obtain ⟨cipherCount, pdu, agree⟩ := sent.pdu
  rw [← h.securityContext] at pdu agree
  have est := (h.uplinkAgrees head).1
  rw [pdu] at est
  have agree' : s.mme.cipherAlgo = 0 ∨ cipherCount = m.sent.count % 256 := by
    apply agree.imp_right
    intro both
    rw [both.1, Nat.mod_eq_of_lt both.2]
  have out := MmeNas.handleUplinkNasTransport_protected stream own reply h.imsi agree' est
  rw [← pdu] at out
  unfold keepsCounts at keeps
  rw [head] at keeps
  simp only [head?_cons, all_some, and_eq_true, or_eq_true, decide_eq_true_eq] at keeps
  obtain ⟨kept, fresh⟩ := keeps
  have counted := out.ulNasCount
  rw [UeNas.countSucc_of_small (show ({ s.mme with ulNasCount := m.sent.count } : MmeNas).ulNasCount < 16777216
    from sent.small)] at counted
  have answer := out.answer
  have dl := out.dlNasCount
  change _ = if mmeAnswers s.mme x m.message then _ else _ at answer dl
  cases answers : mmeAnswers s.mme x m.message with
  | false =>
    rw [answers] at answer dl
    rw [answer, if_neg (by decide), putDownlink_nil]
    exact h.mmeReceives head kept out.securityContext out.imsi counted dl
  | true =>
    rw [answers] at answer dl fresh
    rw [answer]
    have received : Synchronised c { s with
        uplink := rest
        mme := { s.mme with
          ulNasCount := if mmeCounts m.message then m.sent.count + 1 else m.sent.count } } :=
      h.mmeReceives head kept rfl rfl rfl rfl
    exact received.mmeSends reply (fresh.resolve_left (by decide)) out.securityContext out.imsi counted dl

theorem deliverDownlink (h : Synchronised c s) (stream : c.Stream) {x : DlContents}
    (reply : ueMessage x.reply = true) (keeps : keepsCounts s (.deliverDownlink x) = true)
    (head : s.downlink = m :: rest) :
    Synchronised c ({ s with downlink := rest }.putUplink x.reply (s.ue.writePdu c x m.sent.pdu)) := by
  obtain ⟨sent, own⟩ := h.downlink m (head ▸ mem_cons_self)
  obtain ⟨cipherCount, pdu, agree⟩ := sent.pdu
  have est := h.countEst_eq head
  rw [pdu] at est
  have type : plainType m.message ∈ mmeTypes := by
    simp only [mmeMessage, and_eq_true, decide_eq_true_eq] at own
    exact own.1.2
  obtain ⟨guti, out⟩ := UeNas.writePdu_protected stream (x := x) sent.small (agree.imp_right And.left) h.haveCtxt
    h.currentSecHdr type est
  rw [pdu, out]
  unfold keepsCounts at keeps
  rw [head] at keeps
  simp only [head?_cons, all_some, and_eq_true, or_eq_true, decide_eq_true_eq] at keeps
  obtain ⟨kept, fresh⟩ := keeps
  have received := h.ueReceives guti head kept
  cases answers : ueAnswers x m.message with
  | false =>
    simp only [false_eq_true, reduceIte, putUplink_nil]
    exact received
  | true =>
    rw [answers] at fresh
    have sends := received.ueSends reply (fresh.resolve_left (by decide))
    rw [UeNas.send_protected received.haveCtxt received.currentSecHdr] at sends
    exact sends

theorem step {t : Exchange} {e : Event} (h : Synchronised c s) (stream : c.Stream)
    (own : exchanges s e = true) (keeps : keepsCounts s e = true) (next : s.step c e = some t) :
    Synchronised c t := by
  cases e with
  | ueSends message =>
    obtain rfl := Option.some.inj next
    exact h.ueSends own keeps
  | mmeSends message =>
    obtain rfl := Option.some.inj next
    exact h.mmeSends own keeps rfl rfl rfl rfl
  | deliverUplink x =>
    cases head : s.uplink with
    | nil => simp [Exchange.step, head] at next
    | cons m rest =>
      simp only [Exchange.step, head] at next
      obtain rfl := Option.some.inj next
      exact h.deliverUplink stream own keeps head
  | deliverDownlink x =>
    cases head : s.downlink with
    | nil => simp [Exchange.step, head] at next
    | cons m rest =>
      simp only [Exchange.step, head] at next
      obtain rfl := Option.some.inj next
      exact h.deliverDownlink stream own keeps head
  | loseUplink =>
    cases head : s.uplink with
    | nil => simp [Exchange.step, head] at next
    | cons m rest =>
      simp only [Exchange.step, head] at next
      obtain rfl := Option.some.inj next
      exact h.loseUplink head (by simpa [keepsCounts, head] using keeps)
  | loseDownlink =>
    cases head : s.downlink with
    | nil => simp [Exchange.step, head] at next
    | cons m rest =>
      simp only [Exchange.step, head] at next
      obtain rfl := Option.some.inj next
      exact h.loseDownlink head (by simpa [keepsCounts, head] using keeps)

end Synchronised

theorem agrees_of_keepsCounts (c : Crypto) (stream : c.Stream) {ue : UeNas} {mme : MmeNas}
    (secured : Secured ue mme) {s : Exchange}
    (run : Reaches (step c) (fun s e => exchanges s e = true ∧ keepsCounts s e = true) (start ue mme) s) :
    Agrees c s := by
  have synchronised : Synchronised c s := by
    apply run.invariant (P := Synchronised c) (.start secured)
    intro s e t h allowed next
    exact h.step stream allowed.1 allowed.2 next
  exact synchronised.agrees stream

def xorCrypto : Crypto where
  eia _ _ count _ data := [UInt8.ofNat (count / 65536), UInt8.ofNat (count / 256), UInt8.ofNat count, data.getD 1 0]
  eea _ _ count _ data := data.map (· ^^^ UInt8.ofNat count)
  generateNasKeys _ _ _ := ([], [])

theorem xorCrypto_stream : xorCrypto.Stream where
  length := by simp [xorCrypto]
  involutive := by simp [xorCrypto, Function.comp_def, UInt8.xor_assoc]

def registeredUe : UeNas :=
  ⟨[1], [2], 1, 1, 1, 1, 0, [], true, true, false, hdrIntegrityAndCiphered, [], []⟩

def registeredMme : MmeNas := ⟨1, .registered, 0, 0, false, [], 1, 0, 1, 1, [1], [2], [], [], 0⟩

theorem registered_secured : Secured registeredUe registeredMme := by
  constructor <;> first | rfl | decide

def emmInformation : List Byte := [0x07, 0x61]
def esmInformationRequest : List Byte := [0x02, 0x01, 0xD9]
def esmInformationResponse : List Byte := [0x02, 0x01, 0xDA]

def informationExchange : List Event :=
  [.mmeSends esmInformationRequest, .loseDownlink, .mmeSends esmInformationRequest,
    .deliverDownlink { reply := esmInformationResponse }, .deliverUplink { reply := emmInformation },
    .mmeSends emmInformation]

theorem agrees_of_keepsCounts_informationExchange :
    ∃ s, runAllowed (step xorCrypto) (fun s e => exchanges s e && keepsCounts s e)
      (start registeredUe registeredMme) informationExchange = some s ∧ Agrees xorCrypto s := by
  have runs : (runAllowed (step xorCrypto) (fun s e => exchanges s e && keepsCounts s e)
      (start registeredUe registeredMme) informationExchange).isSome = true := by decide +kernel
  obtain ⟨s, run⟩ := Option.isSome_iff_exists.mp runs
  refine ⟨s, run, ?_⟩
  have reached := (reaches_of_runAllowed informationExchange run).mono
    fun _ _ ok => (and_eq_true _ _).mp ok
  exact agrees_of_keepsCounts xorCrypto xorCrypto_stream registered_secured reached

def informations (n : Nat) : List Event :=
  (replicate n [.mmeSends emmInformation, .deliverDownlink {}]).flatten ++ [.mmeSends emmInformation]

set_option maxRecDepth 20000 in
theorem informations_disagree :
    ¬ ∀ c : Crypto, c.Stream → ∀ ue mme, Secured ue mme → ∀ s,
      Reaches (step c) (fun s e => exchanges s e = true) (start ue mme) s → Agrees c s := by
  intro agrees
  have wraps : (runAllowed (step xorCrypto) exchanges (start registeredUe registeredMme)
      (informations 255)).any (fun s => s.downlink.head?.any fun m =>
        m.sent.cipherCount = some 0 ∧ (s.ue.integrityCheck xorCrypto m.sent.pdu).2.countEst m.sent.pdu = 256) =
      true := by decide +kernel
  obtain ⟨s, run, head⟩ := (any_eq_true _ _).mp wraps
  obtain ⟨m, mem, counts⟩ := (any_eq_true _ _).mp head
  obtain ⟨ciphered, deciphered⟩ := of_decide_eq_true counts
  have agreed := agrees xorCrypto xorCrypto_stream registeredUe registeredMme registered_secured s
    (reaches_of_runAllowed (informations 255) run)
  have same := (agreed.downlink m mem).2 0 ciphered
  rw [deciphered] at same
  cases same

end IsrRan.Nas.Exchange
