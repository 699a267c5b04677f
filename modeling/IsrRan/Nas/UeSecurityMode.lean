import IsrRan.Nas.UeNas

namespace IsrRan.Nas

structure SecurityValues where
  cipherAlgo : Nat
  integAlgo : Nat
  kNasEnc : Key
  kNasInt : Key
  txCount : Nat
  rxCount : Nat
  deriving DecidableEq, Repr

namespace UeNas

variable {c : Crypto} {ue : UeNas} {cmd : SecurityModeCommand} {pdu : Pdu}

def securityValues (ue : UeNas) : SecurityValues :=
  ⟨ue.cipherAlgo, ue.integAlgo, ue.kNasEnc, ue.kNasInt, ue.txCount, ue.rxCount⟩

def capReplayMismatch (ue : UeNas) (cmd : SecurityModeCommand) : Bool :=
  (List.range 8).any fun i =>
    cmd.eea.getD i false ≠ ue.eeaCaps.getD i false || cmd.eia.getD i false ≠ ue.eiaCaps.getD i false

def selects (ue : UeNas) (cmd : SecurityModeCommand) (pdu : Pdu) : Bool :=
  5 < pdu.nBytes && cmd.nativeContext && !(ue.haveCtxt && cmd.nasKsi ≠ ue.ksi) && !ue.capReplayMismatch cmd

def supports (ue : UeNas) (cmd : SecurityModeCommand) : Bool :=
  ue.eeaCaps.getD cmd.typeOfEea false && ue.eiaCaps.getD cmd.typeOfEia false

def macVerifies (c : Crypto) (ue : UeNas) (cmd : SecurityModeCommand) (pdu : Pdu) : Bool :=
  ((ue.startCounters.selectAlgorithms c cmd).integrityCheck c pdu).1

theorem startCounters_caps :
    ue.startCounters.eeaCaps = ue.eeaCaps ∧ ue.startCounters.eiaCaps = ue.eiaCaps := by
  unfold startCounters
  split <;> exact ⟨rfl, rfl⟩

theorem check_of_not_selects (early : ue.selects cmd pdu = false) :
    (ue.checkSecurityModeCommand c cmd pdu).1 ≠ .accepted ∧ (ue.checkSecurityModeCommand c cmd pdu).2 = ue := by
  unfold selects at early
  unfold checkSecurityModeCommand
  split
  · exact ⟨SmcOutcome.noConfusion, rfl⟩
  · rename_i long
    split
    · exact ⟨SmcOutcome.noConfusion, rfl⟩
    · rename_i native
      split
      · exact ⟨SmcOutcome.noConfusion, rfl⟩
      · rename_i ksi
        split
        · exact ⟨SmcOutcome.noConfusion, rfl⟩
        · rename_i replayed
          have same : ue.capReplayMismatch cmd = false := Bool.eq_false_iff.mpr replayed
          rw [same, Bool.eq_false_iff.mpr ksi, decide_eq_true (Nat.lt_of_not_le long)] at early
          cases nativeContext : cmd.nativeContext with
          | true =>
            rw [nativeContext] at early
            cases early
          | false =>
            rw [nativeContext] at native
            exact absurd rfl native

theorem check_of_selects (late : ue.selects cmd pdu = true) : ue.checkSecurityModeCommand c cmd pdu =
    if ue.supports cmd then
      if ue.macVerifies c cmd pdu then
        (.accepted, { ((ue.startCounters.selectAlgorithms c cmd).integrityCheck c pdu).2.countRx with
          haveCtxt := true, currentSecHdr := hdrIntegrityAndCipheredWithNewEpsSecurityContext })
      else (.rejected, ue.startCounters.selectAlgorithms c cmd)
    else (.rejected, { ue.startCounters with cipherAlgo := cmd.typeOfEea, integAlgo := cmd.typeOfEia }) := by
  unfold selects at late
  simp only [Bool.and_eq_true, decide_eq_true_eq, Bool.not_eq_true'] at late
  obtain ⟨⟨⟨long, native⟩, ksi⟩, replayed⟩ := late
  unfold capReplayMismatch at replayed
  unfold checkSecurityModeCommand
  rw [if_neg (Nat.not_le.mpr long), if_neg (by simp [native]), if_neg (Bool.eq_false_iff.mp ksi),
    if_neg (Bool.eq_false_iff.mp replayed)]
  unfold supports macVerifies
  dsimp only
  rw [startCounters_caps.1, startCounters_caps.2]
  cases ue.eeaCaps.getD cmd.typeOfEea false <;> cases ue.eiaCaps.getD cmd.typeOfEia false <;> rfl

/-- What a command that is not accepted must meet to leave the security values alone: it is turned down by
an early check, or what it overwrites is what was there. -/
def KeepsContext (c : Crypto) (ue : UeNas) (cmd : SecurityModeCommand) (pdu : Pdu) : Prop :=
  ue.selects cmd pdu = true →
    ue.supports cmd = true ∧ ue.macVerifies c cmd pdu = true ∨
      (ue.authRequest = true → ue.rxCount = 0 ∧ ue.txCount = 0) ∧
        cmd.typeOfEea = ue.cipherAlgo ∧ cmd.typeOfEia = ue.integAlgo ∧
          (ue.supports cmd = true →
            c.generateNasKeys ue.kAsme cmd.typeOfEea cmd.typeOfEia = (ue.kNasEnc, ue.kNasInt))

theorem startCounters_securityValues : ue.startCounters.securityValues =
    if ue.authRequest then { ue.securityValues with txCount := 0, rxCount := 0 } else ue.securityValues := by
  unfold startCounters
  split <;> rfl

theorem overwritten_iff {keys : Key × Key} :
    ({ ue.startCounters.securityValues with
        cipherAlgo := cmd.typeOfEea
        integAlgo := cmd.typeOfEia
        kNasEnc := keys.1
        kNasInt := keys.2 } : SecurityValues) = ue.securityValues ↔
      (ue.authRequest = true → ue.rxCount = 0 ∧ ue.txCount = 0) ∧
        cmd.typeOfEea = ue.cipherAlgo ∧ cmd.typeOfEia = ue.integAlgo ∧ keys = (ue.kNasEnc, ue.kNasInt) := by
  rw [startCounters_securityValues, Prod.ext_iff]
  cases ue.authRequest with
  | true =>
    rw [SecurityValues.mk.injEq]
    constructor
    · rintro ⟨eea, eia, enc, int, tx, rx⟩
      exact ⟨fun _ => ⟨rx.symm, tx.symm⟩, eea, eia, enc, int⟩
    · rintro ⟨zero, eea, eia, enc, int⟩
      exact ⟨eea, eia, enc, int, (zero rfl).2.symm, (zero rfl).1.symm⟩
  | false =>
    rw [SecurityValues.mk.injEq]
    constructor
    · rintro ⟨eea, eia, enc, int, _, _⟩
      exact ⟨fun h => absurd h Bool.false_ne_true, eea, eia, enc, int⟩
    · rintro ⟨_, eea, eia, enc, int⟩
      exact ⟨eea, eia, enc, int, rfl, rfl⟩

theorem startCounters_keys : ue.startCounters.kNasEnc = ue.kNasEnc ∧ ue.startCounters.kNasInt = ue.kNasInt ∧
    ue.startCounters.kAsme = ue.kAsme := by
  unfold startCounters
  split <;> exact ⟨rfl, rfl, rfl⟩

theorem check_keeps_iff : ((ue.checkSecurityModeCommand c cmd pdu).1 ≠ .accepted →
    (ue.checkSecurityModeCommand c cmd pdu).2.securityValues = ue.securityValues) ↔ ue.KeepsContext c cmd pdu := by
  unfold KeepsContext
  cases selects : ue.selects cmd pdu with
  | false =>
    have same := (@check_of_not_selects c ue cmd pdu selects).2
    rw [same]
    exact ⟨fun _ late => absurd late Bool.false_ne_true, fun _ _ => rfl⟩
  | true =>
    obtain ⟨keyEnc, keyInt, kAsme⟩ := @startCounters_keys ue
    rw [check_of_selects selects]
    cases supported : ue.supports cmd with
    | false =>
      have iff := @overwritten_iff ue cmd (ue.kNasEnc, ue.kNasInt)
      constructor
      · intro kept _
        obtain ⟨zero, eea, eia, _⟩ := iff.mp (by rw [← kept SmcOutcome.noConfusion, ← keyEnc, ← keyInt]; rfl)
        exact .inr ⟨zero, eea, eia, fun h => absurd h Bool.false_ne_true⟩
      · intro keeps _
        rcases keeps rfl with accepted | ⟨zero, eea, eia, _⟩
        · exact absurd accepted.1 Bool.false_ne_true
        · rw [← iff.mpr ⟨zero, eea, eia, rfl⟩, ← keyEnc, ← keyInt]
          rfl
    | true =>
      have iff := @overwritten_iff ue cmd (c.generateNasKeys ue.kAsme cmd.typeOfEea cmd.typeOfEia)
      cases verified : ue.macVerifies c cmd pdu with
      | true =>
        exact ⟨fun _ _ => .inl ⟨rfl, rfl⟩, fun _ other => absurd rfl other⟩
      | false =>
        constructor
        · intro kept _
          obtain ⟨zero, eea, eia, keys⟩ := iff.mp (by
            rw [← kept SmcOutcome.noConfusion, ← kAsme]
            rfl)
          exact .inr ⟨zero, eea, eia, fun _ => keys⟩
        · intro keeps _
          rcases keeps rfl with accepted | ⟨zero, eea, eia, keys⟩
          · exact absurd accepted.2 Bool.false_ne_true
          · rw [← iff.mpr ⟨zero, eea, eia, keys rfl⟩, ← kAsme]
            rfl

theorem parseSecurityModeCommand_of_not_accepted {x : DlContents}
    (turned : (ue.checkSecurityModeCommand c x.securityModeCommand pdu).1 ≠ .accepted) :
    (ue.parseSecurityModeCommand c x pdu).1 = (ue.checkSecurityModeCommand c x.securityModeCommand pdu).2 := by
  unfold parseSecurityModeCommand
  generalize ue.checkSecurityModeCommand c x.securityModeCommand pdu = checked at turned
  obtain ⟨outcome, after⟩ := checked
  cases outcome with
  | dropped => rfl
  | rejected => rfl
  | accepted => exact absurd rfl turned

theorem turnedDown_keeps_iff (c : Crypto) (ue : UeNas) (x : DlContents) (pdu : Pdu) :
    ((ue.checkSecurityModeCommand c x.securityModeCommand pdu).1 ≠ .accepted →
        (ue.parseSecurityModeCommand c x pdu).1.securityValues = ue.securityValues) ↔
      ue.KeepsContext c x.securityModeCommand pdu := by
  rw [← check_keeps_iff]
  apply forall_congr'
  intro turned
  rw [parseSecurityModeCommand_of_not_accepted turned]

def forgedCommand : SecurityModeCommand :=
  ⟨true, 1, [true, true, true], [false, true, true], 0, 1⟩

theorem forgedCommand_downgrades :
    ¬ ∀ (c : Crypto) (ue : UeNas) (x : DlContents) (pdu : Pdu),
      (ue.checkSecurityModeCommand c x.securityModeCommand pdu).1 ≠ .accepted →
        (ue.parseSecurityModeCommand c x pdu).1.securityValues = ue.securityValues := by
  intro atomic
  let c : Crypto := ⟨fun _ _ _ _ _ => [1, 2, 3, 4], fun _ _ _ _ data => data, fun _ _ eia => ([7], [UInt8.ofNat eia])⟩
  let ue : UeNas := ⟨[7], [2], 2, 2, 5, 9, 1, [], true, true, false, hdrIntegrityAndCiphered,
    [true, true, true], [false, true, true]⟩
  let x : DlContents := { securityModeCommand := forgedCommand }
  have kept := atomic c ue x (.ofBytes [0x37, 0, 0, 0, 0, 3, 0x07, 0x5D, 1, 1]) (by decide)
  exact absurd kept (by decide)

end UeNas

end IsrRan.Nas
