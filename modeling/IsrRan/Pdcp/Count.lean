import IsrRan.Lib.Transition
import IsrRan.Pdcp.EntityLte

namespace IsrRan.Pdcp
open Lib Function Nat Option

structure SentPdu where
  pdu : Pdu
  first : Nat
  deriving DecidableEq, Repr

/-- An entity between two key changes. `assigned` gives the SDU each COUNT was first given to, here or
in the cell the bearer was handed over from. -/
structure Sender where
  entity : EntityLte
  security : Security
  assigned : Nat → Option ByteBuffer
  sent : List SentPdu := []

inductive SenderEvent where
  | writeSdu (rlc : RlcStatus) (sdu : ByteBuffer)
  | forwardSdu (rlc : RlcStatus) (sdu : ByteBuffer) (count : Nat)
  | clearSdu (sn : Nat)

namespace Sender

def nextCount (s : Sender) : Nat := s.entity.txHfn * s.entity.cfg.snSpace + s.entity.nextPdcpTxSn

/-- `none` is a fault, here and in `forwardSdu`. -/
def writeSdu (s : Sender) (rlc : RlcStatus) (sdu : ByteBuffer) : Option Sender :=
  match s.entity.writeSdu s.security rlc sdu none with
  | .error _ => none
  | .ok (entity, none) => some { s with entity }
  | .ok (entity, some pdu) =>
    some { s with
      entity
      assigned := update s.assigned s.nextCount (some sdu)
      sent := s.sent ++ [⟨pdu, s.nextCount⟩] }

def forwardSdu (s : Sender) (rlc : RlcStatus) (sdu : ByteBuffer) (count : Nat) : Option Sender :=
  match s.entity.writeSdu s.security rlc sdu (some (s.entity.cfg.sn count)) with
  | .error _ => none
  | .ok (entity, none) => some { s with entity }
  | .ok (entity, some pdu) => some { s with entity, sent := s.sent ++ [⟨pdu, count⟩] }

def next (s : Sender) : SenderEvent → Option Sender
  | .writeSdu rlc sdu => s.writeSdu rlc sdu
  | .forwardSdu rlc sdu count => s.forwardSdu rlc sdu count
  | .clearSdu sn =>
    some { s with entity := { s.entity with undeliveredSdus := s.entity.undeliveredSdus.clearSdu sn } }

def Conforming (s : Sender) : SenderEvent → Prop
  | .forwardSdu _ sdu count => s.assigned count = some sdu ∧ count < 4294967296 ∧ count < s.nextCount ∧
      s.nextCount ≤ count + s.entity.cfg.snSpace / 2
  | _ => True

def KeepsCount (s : Sender) : SenderEvent → Prop
  | .writeSdu _ _ => s.nextCount < 4294967296
  | .forwardSdu _ _ count => s.entity.cfg.sn count < s.entity.nextPdcpTxSn
  | .clearSdu _ => True

/-- Each PDU is protected with the COUNT its SDU was first given, and a COUNT serves one SDU. -/
structure CountsKept (s : Sender) : Prop where
  own : ∀ p ∈ s.sent, p.pdu.txCount = p.first
  protected_ : ∀ p ∈ s.sent, ∃ sdu integrity encryption, s.assigned p.first = some sdu ∧
    p.pdu.buf = protect s.entity.cfg s.security integrity encryption sdu p.first
  unique : ∀ p ∈ s.sent, ∀ q ∈ s.sent, p.pdu.txCount = q.pdu.txCount → p.first = q.first

structure Initial (s : Sender) : Prop where
  sent : s.sent = []
  nextPdcpTxSn : s.entity.nextPdcpTxSn < s.entity.cfg.snSpace
  fresh : ∀ count, s.nextCount ≤ count → s.assigned count = none

end Sender

namespace Config

theorem snSpace_pos (cfg : Config) : 0 < cfg.snSpace := Nat.two_pow_pos _

theorem count_eq (cfg : Config) {hfn sn : Nat} (hsn : sn < cfg.snSpace)
    (small : hfn * cfg.snSpace + sn < 4294967296) : cfg.count hfn sn = hfn * cfg.snSpace + sn := by
  unfold count snSpace at *
  rw [mod_eq_of_lt (by omega), ← shiftLeft_eq, ← shiftLeft_add_eq_or_of_lt hsn]

end Config

namespace EntityLte

theorem enableSecurity_eq (e : EntityLte) (txCount : Nat) : ∃ integrity encryption timed,
    e.enableSecurity txCount = { e with
      integrityDirection := integrity, encryptionDirection := encryption, enableSecurityTxSn := timed } := by
  unfold enableSecurity
  split
  · exact ⟨_, _, _, rfl⟩
  · exact ⟨e.integrityDirection, e.encryptionDirection, e.enableSecurityTxSn, rfl⟩

def following (cfg : Config) (hfn sn : Nat) : Nat × Nat :=
  if cfg.maximumPdcpSn < sn + 1 then ((hfn + 1) % 4294967296, 0) else (hfn, sn + 1)

theorem incrementNextPdcpTxSn_edges (e : EntityLte) :
    (e.incrementNextPdcpTxSn.txHfn, e.incrementNextPdcpTxSn.nextPdcpTxSn) =
      following e.cfg e.txHfn e.nextPdcpTxSn ∧ e.incrementNextPdcpTxSn.cfg = e.cfg := by
  unfold incrementNextPdcpTxSn following
  split <;> exact ⟨rfl, rfl⟩

structure Written (e : EntityLte) (security : Security) (sdu : ByteBuffer) (upperSn : Option Nat)
    (e' : EntityLte) (pdu : Pdu) : Prop where
  cfg : e'.cfg = e.cfg
  edges : (e'.txHfn, e'.nextPdcpTxSn) =
    if upperSn.isNone then following e.cfg e.txHfn e.nextPdcpTxSn else (e.txHfn, e.nextPdcpTxSn)
  txCount : pdu.txCount = e.cfg.count e.txHfn (upperSn.getD e.nextPdcpTxSn)
  protected_ : ∃ integrity encryption,
    pdu.buf = protect e.cfg security integrity encryption sdu pdu.txCount

theorem submit_written {e : EntityLte} {security : Security} {sdu : ByteBuffer} {upperSn : Option Nat}
    {submitted : EntityLte × Pdu}
    (done : e.submit security sdu upperSn (upperSn.getD e.nextPdcpTxSn) = .ok submitted) :
    Written e security sdu upperSn submitted.1 submitted.2 := by
  obtain ⟨integrity, encryption, timed, eq⟩ :=
    e.enableSecurity_eq (e.cfg.count e.txHfn (upperSn.getD e.nextPdcpTxSn))
  unfold submit at done
  dsimp only at done
  rw [eq] at done
  split at done
  · contradiction
  obtain rfl := Except.ok.inj done
  have edges := incrementNextPdcpTxSn_edges { e with
    integrityDirection := integrity, encryptionDirection := encryption, enableSecurityTxSn := timed }
  refine ⟨?_, ?_, rfl, ⟨_, _, rfl⟩⟩
  · split
    · exact edges.2
    · rfl
  · split
    · exact edges.1
    · rfl

theorem writeSdu_written {e : EntityLte} {security : Security} {rlc : RlcStatus} {sdu : ByteBuffer}
    {upperSn : Option Nat} {r : EntityLte × Option Pdu} (done : e.writeSdu security rlc sdu upperSn = .ok r) :
    r = (e, none) ∨ ∃ e' pdu, r = (e', some pdu) ∧ Written e security sdu upperSn e' pdu := by
  unfold writeSdu at done
  split at done
  · exact .inl (Except.ok.inj done).symm
  · dsimp only at done
    split at done
    · cases stored : e.storeSdu (upperSn.getD e.nextPdcpTxSn) sdu with
      | none =>
        rw [stored] at done
        exact .inl (Except.ok.inj done).symm
      | some undeliveredSdus =>
        rw [stored] at done
        obtain ⟨submitted, ok, rfl⟩ := map_eq_ok.mp done
        obtain ⟨cfg, edges, txCount, protect⟩ := @submit_written { e with undeliveredSdus } _ _ _ _ ok
        exact .inr ⟨_, _, rfl, cfg, edges, txCount, protect⟩
    · obtain ⟨submitted, ok, rfl⟩ := map_eq_ok.mp done
      exact .inr ⟨_, _, rfl, submit_written ok⟩

theorem following_count {cfg : Config} {hfn sn : Nat} (hsn : sn < cfg.snSpace)
    (small : hfn * cfg.snSpace + sn < 4294967296) :
    (following cfg hfn sn).1 * cfg.snSpace + (following cfg hfn sn).2 = hfn * cfg.snSpace + sn + 1 ∧
      (following cfg hfn sn).2 < cfg.snSpace := by
  unfold following Config.maximumPdcpSn
  split
  · have room : hfn < 4294967295 := by
      have large : 32 ≤ cfg.snSpace := by
        unfold Config.snSpace
        cases cfg.snLen <;> decide
      have := Nat.mul_le_mul_left hfn large
      omega
    rw [mod_eq_of_lt (by omega), Nat.add_mul]
    omega
  · dsimp only
    omega

end EntityLte

namespace Sender

variable {s : Sender}

structure Inv (s : Sender) : Prop extends CountsKept s where
  nextPdcpTxSn : s.entity.nextPdcpTxSn < s.entity.cfg.snSpace
  fresh : ∀ count, s.nextCount ≤ count → s.assigned count = none

theorem Initial.inv (h : s.Initial) : s.Inv where
  own := by simp [h.sent]
  protected_ := by simp [h.sent]
  unique := by simp [h.sent]
  nextPdcpTxSn := h.nextPdcpTxSn
  fresh := h.fresh

theorem CountsKept.append (h : s.CountsKept) {p : SentPdu} {s' : Sender}
    (sent : s'.sent = s.sent ++ [p]) (cfg : s'.entity.cfg = s.entity.cfg)
    (security : s'.security = s.security)
    (assigned : ∀ count sdu, s.assigned count = some sdu → s'.assigned count = some sdu)
    (own : p.pdu.txCount = p.first)
    (protected_ : ∃ sdu integrity encryption, s'.assigned p.first = some sdu ∧
      p.pdu.buf = protect s.entity.cfg s.security integrity encryption sdu p.first) : s'.CountsKept := by
  have ownAll : ∀ q ∈ s'.sent, q.pdu.txCount = q.first := by
    intro q mem
    rw [sent] at mem
    rcases List.mem_append.mp mem with mem | mem
    · exact h.own q mem
    · rw [List.mem_singleton.mp mem]
      exact own
  refine ⟨ownAll, fun q mem => ?_, fun q hq r hr same => ?_⟩
  · rw [sent] at mem
    rw [cfg, security]
    rcases List.mem_append.mp mem with mem | mem
    · obtain ⟨sdu, integrity, encryption, known, buf⟩ := h.protected_ q mem
      exact ⟨sdu, integrity, encryption, assigned _ _ known, buf⟩
    · rw [List.mem_singleton.mp mem]
      exact protected_
  · rw [← ownAll q hq, ← ownAll r hr, same]

theorem Inv.writeSdu (h : s.Inv) {rlc : RlcStatus} {sdu : ByteBuffer} {s' : Sender}
    (small : s.nextCount < 4294967296) (done : s.writeSdu rlc sdu = some s') : s'.Inv := by
  unfold Sender.writeSdu at done
  cases eq : s.entity.writeSdu s.security rlc sdu none with
  | error => simp [eq] at done
  | ok r =>
  rw [eq] at done
  rcases EntityLte.writeSdu_written eq with rfl | ⟨e', pdu, rfl, written⟩
  · obtain rfl := Option.some.inj done
    exact h
  · obtain rfl := Option.some.inj done
    have edges := written.edges
    rw [isNone_none, if_pos rfl] at edges
    have hfn := congrArg Prod.fst edges
    have sn := congrArg Prod.snd edges
    dsimp only at hfn sn
    have counts := EntityLte.following_count h.nextPdcpTxSn small
    rw [← hfn, ← sn, ← written.cfg] at counts
    have own : pdu.txCount = s.nextCount := by
      rw [written.txCount, getD_none, Config.count_eq _ h.nextPdcpTxSn small]
      rfl
    obtain ⟨integrity, encryption, buf⟩ := written.protected_
    refine ⟨h.toCountsKept.append rfl written.cfg rfl ?_ own ?_, counts.2, ?_⟩
    · intro count sdu' known
      have : count ≠ s.nextCount := by
        rintro rfl
        rw [h.fresh _ (Nat.le_refl _)] at known
        contradiction
      simp [update_of_ne this, known]
    · exact ⟨sdu, integrity, encryption, update_self .., own ▸ buf⟩
    · intro count above
      have above : s.nextCount + 1 ≤ count := by
        unfold nextCount at above ⊢
        dsimp only at above
        rw [written.cfg] at counts above
        omega
      dsimp only
      rw [update_of_ne (by omega)]
      exact h.fresh count (by omega)

theorem Inv.forwardSdu (h : s.Inv) {rlc : RlcStatus} {sdu : ByteBuffer} {count : Nat} {s' : Sender}
    (known : s.assigned count = some sdu) (small : count < 4294967296) (before : count < s.nextCount)
    (near : s.nextCount ≤ count + s.entity.cfg.snSpace / 2)
    (sameHfn : s.entity.cfg.sn count < s.entity.nextPdcpTxSn) (done : s.forwardSdu rlc sdu count = some s') :
    s'.Inv := by
  unfold Sender.forwardSdu at done
  cases eq : s.entity.writeSdu s.security rlc sdu (some (s.entity.cfg.sn count)) with
  | error => simp [eq] at done
  | ok r =>
  rw [eq] at done
  rcases EntityLte.writeSdu_written eq with rfl | ⟨e', pdu, rfl, written⟩
  · obtain rfl := Option.some.inj done
    exact h
  · obtain rfl := Option.some.inj done
    obtain ⟨hfn, sn⟩ : e'.txHfn = s.entity.txHfn ∧ e'.nextPdcpTxSn = s.entity.nextPdcpTxSn := by
      simpa using written.edges
    have positive := s.entity.cfg.snSpace_pos
    have hsn : s.entity.cfg.sn count < s.entity.cfg.snSpace := mod_lt _ positive
    have split := div_add_mod count s.entity.cfg.snSpace
    have edge := h.nextPdcpTxSn
    -- an SN below NEXT_PDCP_TX_SN has the present HFN
    have same : s.entity.txHfn * s.entity.cfg.snSpace + s.entity.cfg.sn count = count := by
      have hfn : count / s.entity.cfg.snSpace = s.entity.txHfn := by
        unfold nextCount at before near
        unfold Config.sn at sameHfn
        rcases Nat.lt_trichotomy (count / s.entity.cfg.snSpace) s.entity.txHfn with less | same | more
        · have := Nat.mul_le_mul_left s.entity.cfg.snSpace less
          rw [mul_succ, Nat.mul_comm _ s.entity.txHfn] at this
          omega
        · exact same
        · have := Nat.mul_le_mul_left s.entity.cfg.snSpace more
          rw [mul_succ, Nat.mul_comm _ s.entity.txHfn] at this
          omega
      rw [← hfn, Nat.mul_comm]
      exact split
    have own : pdu.txCount = count := by
      rw [written.txCount, getD_some, Config.count_eq _ hsn (by omega), same]
    obtain ⟨integrity, encryption, buf⟩ := written.protected_
    refine ⟨h.toCountsKept.append rfl written.cfg rfl (fun _ _ known => known) own ?_, ?_, ?_⟩
    · exact ⟨sdu, integrity, encryption, known, own ▸ buf⟩
    · rw [sn, written.cfg]
      exact h.nextPdcpTxSn
    · intro c above
      refine h.fresh c ?_
      unfold nextCount at above ⊢
      rwa [hfn, sn, written.cfg] at above

theorem inv_of_reaches {initial : Sender} (start : initial.Initial)
    (run : Reaches next (fun s e => s.Conforming e ∧ s.KeepsCount e) initial s) : s.Inv := by
  refine run.invariant start.inv fun s e s' h allowed eq => ?_
  cases e with
  | writeSdu rlc sdu => exact h.writeSdu allowed.2 eq
  | forwardSdu rlc sdu count =>
    obtain ⟨⟨known, small, before, near⟩, sameHfn⟩ := allowed
    exact h.forwardSdu known small before near sameHfn eq
  | clearSdu sn =>
    obtain rfl := Option.some.inj eq
    exact ⟨⟨h.own, h.protected_, h.unique⟩, h.nextPdcpTxSn, h.fresh⟩

theorem counts_kept {initial : Sender} (start : initial.Initial)
    (run : Reaches next (fun s e => s.Conforming e ∧ s.KeepsCount e) initial s) : s.CountsKept :=
  (inv_of_reaches start run).toCountsKept

def handedOver (hfn sn : Nat) : Sender where
  entity :=
    { cfg := ⟨.len12, false, false, false⟩
      encryptionDirection := .txrx
      nextPdcpTxSn := sn
      txHfn := hfn
      undeliveredSdus := { snMod := 4095 } }
  security := ⟨fun _ msg => msg.take 4, some fun count msg => msg.map (· + UInt8.ofNat count)⟩
  assigned count := if count < hfn * 4096 + sn then some { msg := [UInt8.ofNat count] } else none

theorem handedOver_initial (hfn : Nat) {sn : Nat} (h : sn < 4096) : (handedOver hfn sn).Initial := by
  refine ⟨rfl, h, fun count above => ?_⟩
  exact if_neg (Nat.not_lt.mpr above)

theorem counts_kept_handedOver : ∃ s₁ s₂ : Sender,
    (handedOver 1 3).forwardSdu {} { msg := [1] } 4097 = some s₁ ∧ s₁.writeSdu {} { msg := [7, 8] } = some s₂ ∧
      s₂.sent.map (fun p => (p.first, p.pdu.txCount)) = [(4097, 4097), (4099, 4099)] ∧ s₂.CountsKept := by
  have start : (handedOver 1 3).Initial := handedOver_initial 1 (by decide)
  have forwarded : Reaches next (fun s e => s.Conforming e ∧ s.KeepsCount e) (handedOver 1 3) _ :=
    .tail .refl (e := .forwardSdu {} { msg := [1] } 4097) ⟨⟨rfl, by decide⟩, Nat.lt_of_sub_eq_succ rfl⟩ rfl
  exact ⟨_, _, rfl, rfl, rfl, counts_kept start
    (.tail forwarded (e := .writeSdu {} { msg := [7, 8] }) ⟨trivial, Nat.lt_of_sub_eq_succ rfl⟩ rfl)⟩

theorem handedOver_changes_count :
    ¬ ∀ initial s : Sender, initial.Initial → Reaches next Conforming initial s → s.CountsKept := by
  intro kept
  have forwarded : ∃ s, (handedOver 1 3).forwardSdu {} { msg := [255] } 4095 = some s ∧
      ∃ p ∈ s.sent, p.pdu.txCount = 8191 ∧ p.first = 4095 := ⟨_, rfl, _, List.Mem.head _, rfl, rfl⟩
  obtain ⟨s, done, p, mem, used, first⟩ := forwarded
  have run : Reaches next Conforming (handedOver 1 3) s :=
    .tail .refl (e := .forwardSdu {} { msg := [255] } 4095) ⟨rfl, by decide⟩ done
  have own := (kept _ _ (handedOver_initial 1 (by decide)) run).own p mem
  omega

end Sender

end IsrRan.Pdcp
