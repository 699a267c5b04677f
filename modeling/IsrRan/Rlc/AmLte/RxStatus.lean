import IsrRan.Rlc.AmLte.RxStep

namespace IsrRan.Rlc.AmLte
open Lib Adt List Bool Nat

structure StatusBuilt where
  rx : Rx
  statusProhibitTimer : Option Nat
  txStatus : Option StatusPdu

namespace StatusBuilt

def payload (built : StatusBuilt) : List Byte := (built.txStatus.map writeStatusPdu).getD []

end StatusBuilt

namespace Rx

variable {rx : Rx} {maxPduSize : Nat}

/-- `build_status_pdu` of the sender. Without the receiver's lock the report is put off. -/
def buildStatusPdu (rx : Rx) (tStatusProhibit : Nat) (statusProhibitTimer : Option Nat) (ownsLock : Bool)
    (nofBytes : Nat) : StatusBuilt :=
  if !ownsLock then ⟨rx, statusProhibitTimer, none⟩
  else
    let (rx, txStatus, pduLen) := rx.getStatusPdu nofBytes
    if 0 < pduLen && pduLen ≤ nofBytes then
      ⟨rx, if 0 < tStatusProhibit then some 0 else statusProhibitTimer, some txStatus⟩
    else ⟨rx, statusProhibitTimer, none⟩

def snAt (rx : Rx) (k : Nat) : Nat := (rx.vrR + k) % mod

def missing (rx : Rx) (n : Nat) : List Nat := (range n).filter fun k => !rx.rxWindow.contains (rx.snAt k)

def lastReceived (rx : Rx) : Nat → Nat
  | 0 => 0
  | n + 1 => if rx.rxWindow.contains (rx.snAt n) then n else rx.lastReceived n

def report (rx : Rx) (n : Nat) : StatusPdu where
  ackSn := rx.snAt (rx.lastReceived n)
  nacks := (rx.missing n).map fun k => { nackSn := rx.snAt k }

theorem snAt_lt (rx : Rx) (k : Nat) : rx.snAt k < mod := mod_lt _ (by decide)

theorem snAt_succ (rx : Rx) (k : Nat) : (rx.snAt k + 1) % mod = rx.snAt (k + 1) := by
  unfold snAt mod
  omega

theorem missing_succ (rx : Rx) (n : Nat) :
    rx.missing (n + 1) = rx.missing n ++ if rx.rxWindow.contains (rx.snAt n) then [] else [n] := by
  unfold missing
  rw [range_succ]
  cases received : rx.rxWindow.contains (rx.snAt n) <;> simp [received]

theorem mem_missing {n k : Nat} : k ∈ rx.missing n ↔ k < n ∧ rx.rxWindow.contains (rx.snAt k) = false := by
  simp [missing]

theorem missing_length_le (rx : Rx) (n : Nat) : (rx.missing n).length ≤ n := by
  have := length_filter_le (fun k => !rx.rxWindow.contains (rx.snAt k)) (range n)
  simpa [missing] using this

theorem lastReceived_le (rx : Rx) (n : Nat) : rx.lastReceived n ≤ n - 1 := by
  induction n with
  | zero => exact Nat.le_refl _
  | succ n ih =>
    unfold lastReceived
    split <;> omega

theorem report_packedLength (rx : Rx) (n : Nat) :
    (rx.report n).packedLength = (22 + 12 * (rx.missing n).length) / 8 := by
  unfold StatusPdu.packedLength StatusPdu.lengthBits report
  simp only [map_map]
  have bits : (rx.missing n).map ((fun nack : Nack => if nack.hasSo = true then 42 else 12) ∘
      fun k => { nackSn := rx.snAt k }) = (rx.missing n).map fun _ => 12 := by
    rfl
  rw [bits, map_const', sum_replicate_nat]
  omega

def fullReport (rx : Rx) : StatusPdu := { rx.report (rx.offset rx.vrMs) with ackSn := rx.vrMs }

def repair (rx : Rx) (status : StatusPdu) : StatusPdu :=
  if status.isValid rx.vrR then status else { ackSn := rx.vrR }

inductive LoopEnd (rx : Rx) (maxPduSize : Nat) : Option StatusPdu → Prop where
  | full : (rx.missing (rx.offset rx.vrMs)).length < windowSize →
      rx.fullReport.packedLength ≤ maxPduSize → LoopEnd rx maxPduSize (some rx.fullReport)
  | capped : (rx.missing (rx.offset rx.vrMs)).length = windowSize →
      (rx.report (rx.offset rx.vrMs)).packedLength ≤ maxPduSize →
      LoopEnd rx maxPduSize (some (rx.report (rx.offset rx.vrMs)))
  | cut {n : Nat} : n < rx.offset rx.vrMs → (rx.report n).packedLength ≤ maxPduSize →
      maxPduSize < (rx.report (n + 1)).packedLength →
      LoopEnd rx maxPduSize (some (rx.repair (rx.report n)))
  | gaveUp {n : Nat} : n < rx.offset rx.vrMs → maxPduSize < (rx.report (n + 1)).packedLength →
      LoopEnd rx maxPduSize none

theorem report_succ (rx : Rx) (n : Nat) :
    (if rx.rxWindow.contains (rx.snAt n) = true then { rx.report n with ackSn := rx.snAt n }
      else { rx.report n with nacks := (rx.report n).nacks ++ [{ nackSn := rx.snAt n }] }) =
      rx.report (n + 1) := by
  unfold report
  rw [missing_succ]
  split
  · rename_i received
    simp [received, lastReceived]
  · rename_i absent
    simp [absent, lastReceived]

theorem report_dropLast {n : Nat} (absent : rx.rxWindow.contains (rx.snAt n) = false) :
    { rx.report (n + 1) with nacks := (rx.report (n + 1)).nacks.dropLast } = rx.report n := by
  unfold report
  rw [missing_succ]
  simp [lastReceived, absent]

theorem statusLoop_end {whole : Prop} {fresh : Nat → Prop} (h : rx.Inv whole fresh) {n fuel : Nat}
    (below : n ≤ rx.offset rx.vrMs) (enough : rx.offset rx.vrMs + 1 < n + fuel)
    (fits : (rx.report n).packedLength ≤ maxPduSize) :
    LoopEnd rx maxPduSize (rx.statusLoop maxPduSize fuel (rx.snAt n) (rx.report n)) := by
  have window : rx.offset rx.vrMs ≤ windowSize := Nat.le_trans h.order h.window
  have offset_snAt {k : Nat} (near : k ≤ rx.offset rx.vrMs + 1) : rx.rxModBase (rx.snAt k) = k := by
    rw [rxModBase_eq h.vrR _ (rx.snAt_lt k)]
    exact modOffset_add h.vrR (by unfold windowSize mod at *; omega)
  have length (k : Nat) : (rx.report k).nacks.length = (rx.missing k).length := by simp [report]
  have vrMs := rxModBase_eq h.vrR _ h.vrMs
  induction fuel generalizing n with
  | zero => omega
  | succ fuel ih =>
    unfold statusLoop
    rw [offset_snAt (by omega), length]
    have few := rx.missing_length_le n
    split
    · rename_i more
      simp only [and_eq_true, decide_eq_true_eq] at more
      rcases Nat.lt_or_eq_of_le below with lower | top
      · have different : rx.snAt n ≠ rx.vrMs := by
          intro same
          have := offset_snAt (le_succ_of_le below)
          rw [same] at this
          omega
        simp only [different, decide_false, Bool.or_false]
        rw [report_succ, snAt_succ]
        split
        · rename_i exceeds
          have absent : rx.rxWindow.contains (rx.snAt n) = false := by
            by_contra received
            rw [report_packedLength, missing_succ, if_pos (by simpa using received), append_nil,
              ← report_packedLength] at exceeds
            omega
          rw [report_dropLast absent]
          split
          · have cut : LoopEnd rx maxPduSize (some (rx.repair (rx.report n))) := .cut lower fits exceeds
            unfold repair at cut
            split <;> simp_all
          · exact .gaveUp lower exceeds
        · rename_i room
          exact ih lower (by omega) (Nat.not_lt.mp room)
      · have last : rx.snAt n = rx.vrMs := by
          rw [top]
          exact add_modOffset h.vrR h.vrMs
        have same : { rx.report n with ackSn := rx.snAt n } = rx.fullReport := by
          unfold fullReport
          rw [← top, last]
        have room : ¬ maxPduSize < rx.fullReport.packedLength := by
          rw [← same]
          exact Nat.not_lt.mpr fits
        simp only [last, decide_true, Bool.or_true, if_true]
        rw [← last, same, if_neg room, last, ← last, snAt_succ]
        obtain ⟨fuel, rfl⟩ : ∃ k, fuel = k + 1 := ⟨fuel - 1, by omega⟩
        unfold statusLoop
        rw [offset_snAt (by omega), vrMs, if_neg (by simp [top])]
        exact .full (top ▸ more.2) (Nat.not_lt.mp room)
    · rename_i stop
      simp only [and_eq_true, decide_eq_true_eq] at stop
      have top : n = rx.offset rx.vrMs := by
        omega
      have all : (rx.missing n).length = windowSize := by
        omega
      rw [top] at fits all ⊢
      exact .capped all fits

/-- What a status report has to say: the NACKs go up from `VR(R)`, stand for SNs below ACK_SN that are not
there, and all other SNs below ACK_SN are there with their data (only these have a header). -/
structure Sound (rx : Rx) (status : StatusPdu) : Prop where
  increasing : status.nacks.Pairwise fun nack nack' => rx.rxModBase nack.nackSn < rx.rxModBase nack'.nackSn
  nacked : ∀ nack ∈ status.nacks, rx.rxModBase nack.nackSn < rx.rxModBase status.ackSn ∧
    rx.rxWindow.contains nack.nackSn = false
  acked : ∀ sn < mod, rx.rxModBase sn < rx.rxModBase status.ackSn →
    (∀ nack ∈ status.nacks, nack.nackSn ≠ sn) →
    ∃ pdu, rx.rxWindow.find sn = some pdu ∧ pdu.header.dc = .dataPdu

section Sound

variable {fresh : Nat → Prop}

variable {whole : Prop} {n : Nat}

theorem Inv.rxModBase_snAt (h : rx.Inv whole fresh) {k : Nat} (hk : k < mod) :
    rx.rxModBase (rx.snAt k) = k := by
  rw [rxModBase_eq h.vrR _ (rx.snAt_lt k)]
  exact modOffset_add h.vrR hk

theorem Inv.sound (h : rx.Inv True fresh) {ack : Nat} (top : n < mod) (ackBelow : ack ≤ n)
    (below : ∀ k ∈ rx.missing n, k < ack) :
    rx.Sound { ackSn := rx.snAt ack, nacks := (rx.missing n).map fun k => { nackSn := rx.snAt k } } := by
  have base {k : Nat} (hk : k ≤ n) : rx.rxModBase (rx.snAt k) = k := h.rxModBase_snAt (by omega)
  refine ⟨?_, ?_, ?_⟩
  · rw [pairwise_map]
    have sorted : (rx.missing n).Pairwise (· < ·) := List.pairwise_lt_range.filter _
    refine sorted.imp_of_mem fun {a b} memA memB less => ?_
    rw [base (Nat.le_of_lt (mem_missing.mp memA).1), base (Nat.le_of_lt (mem_missing.mp memB).1)]
    exact less
  · intro nack mem
    obtain ⟨k, listed, rfl⟩ := List.mem_map.mp mem
    obtain ⟨hk, absent⟩ := mem_missing.mp listed
    rw [base (Nat.le_of_lt hk), base ackBelow]
    exact ⟨below k listed, absent⟩
  · intro sn hsn lower others
    rw [base ackBelow, rxModBase_eq h.vrR _ hsn] at lower
    have own : rx.snAt (rx.offset sn) = sn := add_modOffset h.vrR hsn
    have received : rx.rxWindow.contains sn = true := by
      by_contra absent
      have listed : rx.offset sn ∈ rx.missing n :=
        mem_missing.mpr ⟨Nat.lt_of_lt_of_le lower ackBelow, by rw [own]; simpa using absent⟩
      exact others { nackSn := rx.snAt (rx.offset sn) } (mem_map_of_mem listed) own
    obtain ⟨pdu, found⟩ := CircularMap.contains_eq_true.mp received
    exact ⟨pdu, found, h.complete trivial sn pdu found⟩

theorem Inv.fullReport_sound (h : rx.Inv True fresh) : rx.Sound rx.fullReport := by
  have top : rx.snAt (rx.offset rx.vrMs) = rx.vrMs := add_modOffset h.vrR h.vrMs
  have sound := h.sound (offset_lt rx rx.vrMs) (Nat.le_refl _) fun k mem => (mem_missing.mp mem).1
  rw [top] at sound
  exact sound

theorem Inv.repair_sound (h : rx.Inv True fresh) (below : n ≤ windowSize) :
    rx.Sound (rx.repair (rx.report n)) := by
  have near : n < mod := Nat.lt_of_le_of_lt below (by decide)
  unfold repair
  split
  · rename_i valid
    have last := rx.lastReceived_le n
    refine h.sound near (by omega) fun k mem => ?_
    obtain ⟨hk, absent⟩ := mem_missing.mp mem
    have nack := List.all_eq_true.mp (and_eq_true _ _ |>.mp valid).2 { nackSn := rx.snAt k }
      (mem_map_of_mem mem)
    simp only [and_eq_true, decide_eq_true_eq] at nack
    obtain ⟨within, different⟩ := nack
    change u32Sub (mod + rx.snAt (rx.lastReceived n)) (rx.snAt k) % mod ≤ windowSize at within
    change ¬ rx.snAt k = rx.snAt (rx.lastReceived n) at different
    unfold snAt u32Sub mod windowSize at *
    omega
  · have sound := h.sound (n := 0) (by decide) (Nat.le_refl 0) fun k mem => by simp [missing] at mem
    have low : rx.snAt 0 = rx.vrR := mod_eq_of_lt h.vrR
    rw [low] at sound
    exact sound

theorem Inv.capped_unsound (h : rx.Inv whole fresh)
    (all : (rx.missing (rx.offset rx.vrMs)).length = windowSize) :
    ¬ rx.Sound (rx.report (rx.offset rx.vrMs)) := by
  intro sound
  have window : rx.offset rx.vrMs ≤ windowSize := Nat.le_trans h.order h.window
  have most := rx.missing_length_le (rx.offset rx.vrMs)
  have last := rx.lastReceived_le (rx.offset rx.vrMs)
  have none : ∀ k ∈ range (rx.offset rx.vrMs), (!rx.rxWindow.contains (rx.snAt k)) = true := by
    refine List.length_filter_eq_length_iff.mp ?_
    rw [length_range]
    change (rx.missing _).length = _
    omega
  have positive : 0 < windowSize := by decide
  have listed : rx.lastReceived (rx.offset rx.vrMs) ∈ rx.missing (rx.offset rx.vrMs) :=
    List.mem_filter.mpr ⟨List.mem_range.mpr (by omega), none _ (List.mem_range.mpr (by omega))⟩
  exact Nat.lt_irrefl _ (sound.nacked _ (mem_map_of_mem listed)).1

def cappedLength : Nat := 770

def windowMissing (rx : Rx) : Bool :=
  rx.rxModBase rx.vrMs = windowSize && (rx.missing windowSize).length = windowSize

def flagsKept (rx : Rx) (nofBytes : Nat) : Bool :=
  2 ≤ nofBytes || rx.vrMs = rx.vrR || !rx.doStatus && !rx.pollReceived

def reports (rx : Rx) (ownsLock : Bool) (nofBytes : Nat) : Bool :=
  !ownsLock || rx.flagsKept nofBytes && !(rx.windowMissing && cappedLength ≤ nofBytes)

def BuiltOk (rx : Rx) (statusProhibitTimer : Option Nat) (nofBytes : Nat) (built : StatusBuilt) : Prop :=
  (∀ status, built.txStatus = some status → built.payload.length ≤ nofBytes ∧ rx.Sound status) ∧
    (built.txStatus = none → built.rx.doStatus = rx.doStatus ∧ built.rx.pollReceived = rx.pollReceived ∧
      built.statusProhibitTimer = statusProhibitTimer)

theorem Inv.windowMissing_iff (h : rx.Inv whole fresh) :
    rx.windowMissing = true ↔ (rx.missing (rx.offset rx.vrMs)).length = windowSize := by
  have window : rx.offset rx.vrMs ≤ windowSize := Nat.le_trans h.order h.window
  have most := rx.missing_length_le (rx.offset rx.vrMs)
  unfold windowMissing
  rw [rxModBase_eq h.vrR _ h.vrMs]
  simp only [and_eq_true, decide_eq_true_eq]
  constructor
  · rintro ⟨edge, all⟩
    rw [edge, all]
  · intro all
    have edge : rx.offset rx.vrMs = windowSize := by omega
    exact ⟨edge, edge ▸ all⟩

theorem packedLength_pos (status : StatusPdu) : 2 ≤ status.packedLength := by
  unfold StatusPdu.packedLength StatusPdu.lengthBits
  omega

theorem packedLength_ack (ackSn : Nat) : ({ ackSn } : StatusPdu).packedLength = 2 := by
  simp [StatusPdu.packedLength, StatusPdu.lengthBits]

theorem Inv.getStatusPdu_short (h : rx.Inv whole fresh) (short : maxPduSize < 2) :
    rx.getStatusPdu maxPduSize =
      if rx.vrMs = rx.vrR then (rx, {}, 0) else (rx.resetStatus, { ackSn := rx.vrR }, 2) := by
  have long (status : StatusPdu) : maxPduSize < status.packedLength :=
    Nat.lt_of_lt_of_le short (packedLength_pos status)
  have low : rx.rxModBase rx.vrR = 0 := by rw [rxModBase_eq h.vrR _ h.vrR, h.offset_vrR]
  have loop : rx.statusLoop maxPduSize (mod + 1) rx.vrR { ackSn := rx.vrR } =
      if rx.vrMs = rx.vrR then none else some { ackSn := rx.vrR } := by
    unfold statusLoop
    rw [low, if_pos (by simp; decide), h.lowMissing, if_pos (long _)]
    simp only [Bool.false_or, decide_eq_true_eq]
    by_cases same : rx.vrMs = rx.vrR
    · rw [if_pos same, if_pos same.symm, if_neg (by simp)]
    · rw [if_neg (Ne.symm same), if_pos (by simp; decide)]
      split <;> rfl
  unfold getStatusPdu
  rw [loop]
  by_cases same : rx.vrMs = rx.vrR
  · rw [if_pos same, if_pos same]
  · rw [if_neg same, if_neg same]
    dsimp only
    rw [packedLength_ack]

theorem repair_packedLength (fits : (rx.report n).packedLength ≤ maxPduSize)
    (long : 2 ≤ maxPduSize) : (rx.repair (rx.report n)).packedLength ≤ maxPduSize := by
  unfold repair
  split
  · exact fits
  · rw [packedLength_ack]
    exact long

theorem Inv.getStatusPdu_long (h : rx.Inv True fresh) (long : 2 ≤ maxPduSize) :
    (rx.getStatusPdu maxPduSize = (rx, {}, 0) ∧ maxPduSize < cappedLength) ∨
      ∃ status : StatusPdu, rx.getStatusPdu maxPduSize = (rx.resetStatus, status, status.packedLength) ∧
        status.packedLength ≤ maxPduSize ∧
        (rx.Sound status ↔ ¬ (rx.windowMissing = true ∧ cappedLength ≤ maxPduSize)) := by
  have window : rx.offset rx.vrMs ≤ windowSize := Nat.le_trans h.order h.window
  have bound : rx.offset rx.vrMs + 1 < 0 + (mod + 1) := by
    unfold windowSize mod at *
    omega
  have first : rx.report 0 = { ackSn := rx.vrR } := by
    change ({ ackSn := (rx.vrR + 0) % mod, nacks := [] } : StatusPdu) = _
    rw [Nat.add_zero, mod_eq_of_lt h.vrR]
  have low : rx.snAt 0 = rx.vrR := mod_eq_of_lt h.vrR
  have capped {n : Nat} (top : n < rx.offset rx.vrMs) (exceeds : maxPduSize < (rx.report (n + 1)).packedLength) :
      maxPduSize < cappedLength := by
    have most := rx.missing_length_le (n + 1)
    rw [report_packedLength] at exceeds
    unfold cappedLength
    unfold windowSize at window
    omega
  have ending := statusLoop_end h (Nat.zero_le _) bound (by rw [first, packedLength_ack]; exact long : _ ≤ maxPduSize)
  rw [low, first] at ending
  unfold getStatusPdu
  cases result : rx.statusLoop maxPduSize (mod + 1) rx.vrR { ackSn := rx.vrR } with
  | none =>
    rw [result] at ending
    cases ending with
    | gaveUp top exceeds => exact .inl ⟨rfl, capped top exceeds⟩
  | some status =>
    rw [result] at ending
    refine .inr ⟨status, rfl, ?_⟩
    cases ending with
    | full few fits =>
      have notAll : ¬ rx.windowMissing = true := fun all => by
        have := h.windowMissing_iff.mp all
        omega
      exact ⟨fits, fun _ both => notAll both.1, fun _ => h.fullReport_sound⟩
    | capped all fits =>
      have long : cappedLength ≤ maxPduSize := by
        rw [report_packedLength, all] at fits
        exact fits
      exact ⟨fits, fun sound => absurd sound (h.capped_unsound all),
        fun some => absurd ⟨h.windowMissing_iff.mpr all, long⟩ some⟩
    | cut top fits exceeds =>
      have short := capped top exceeds
      exact ⟨repair_packedLength fits long, fun _ both => Nat.not_lt.mpr both.2 short,
        fun _ => h.repair_sound (by omega)⟩

theorem Inv.buildStatusPdu_iff (h : rx.Inv True fresh) (tStatusProhibit : Nat)
    (statusProhibitTimer : Option Nat) (ownsLock : Bool) (nofBytes : Nat) :
    rx.BuiltOk statusProhibitTimer nofBytes
        (rx.buildStatusPdu tStatusProhibit statusProhibitTimer ownsLock nofBytes) ↔
      rx.reports ownsLock nofBytes = true := by
  unfold buildStatusPdu reports flagsKept
  cases ownsLock with
  | false => simp [BuiltOk]
  | true =>
    rcases Nat.lt_or_ge nofBytes 2 with short | long
    · rw [h.getStatusPdu_short short]
      have uncapped : ¬ cappedLength ≤ nofBytes := by
        unfold cappedLength
        omega
      by_cases low : rx.vrMs = rx.vrR
      · rw [if_pos low]
        simp [BuiltOk, low, uncapped]
      · rw [if_neg low]
        have none : ¬ 2 ≤ nofBytes := Nat.not_le.mpr short
        simp [BuiltOk, low, uncapped, none, resetStatus]
    · rcases h.getStatusPdu_long long with ⟨none, short⟩ | ⟨status, some, fits, sound⟩
      · have uncapped : ¬ cappedLength ≤ nofBytes := Nat.not_le.mpr short
        rw [none]
        simp [BuiltOk, long, uncapped]
      · have positive : 0 < status.packedLength := Nat.lt_of_lt_of_le (by decide) (packedLength_pos status)
        rw [some]
        simp only [positive]
        cases missing : rx.windowMissing <;>
          simp [BuiltOk, StatusBuilt.payload, writeStatusPdu_length, fits, sound, long, missing]

end Sound

theorem buildStatusPdu_sound_iff (run : Reaches next (fun rx e => onPdus Rx.fits rx e = true) {} rx)
    (tStatusProhibit : Nat) (statusProhibitTimer : Option Nat) (ownsLock : Bool) (nofBytes : Nat) :
    rx.BuiltOk statusProhibitTimer nofBytes
        (rx.buildStatusPdu tStatusProhibit statusProhibitTimer ownsLock nofBytes) ↔
      rx.reports ownsLock nofBytes = true := by
  have inv : rx.Inv True fun _ => False := by
    refine inv_of_reaches (fun rx e ok => ?_) (fun _ rx e ok => ok) (fun _ none => none.elim) run
    cases e with
    | writePdu payload nofBytes =>
      change accepts payload nofBytes rx.fits = true at ok
      change accepts payload nofBytes rx.fitsOrHidden = true
      unfold accepts at ok ⊢
      split
      · rfl
      · rename_i read
        rw [read] at ok
        simp only [or_eq_true] at ok ⊢
        exact ok.imp_right fitsOrHidden_of_fits
    | timerExpired | getStatusPdu _ | stop => rfl
  exact inv.buildStatusPdu_iff tStatusProhibit statusProhibitTimer ownsLock nofBytes

def polledRun : List RxEvent := [.writePdu (.ofList [0xA0, 1, 7]) 3, .timerExpired]

theorem buildStatusPdu_sound_iff_polledRun :
    ∃ rx : Rx, runAllowed next (onPdus Rx.fits) {} polledRun = some rx ∧
      (rx.buildStatusPdu 20 none true 4).txStatus = some { ackSn := 2, nacks := [{ nackSn := 0 }] } ∧
      rx.BuiltOk none 4 (rx.buildStatusPdu 20 none true 4) := by
  have run : ∃ rx : Rx, runAllowed next (onPdus Rx.fits) {} polledRun = some rx ∧
      (rx.buildStatusPdu 20 none true 4).txStatus = some { ackSn := 2, nacks := [{ nackSn := 0 }] } :=
    ⟨_, rfl, rfl⟩
  obtain ⟨rx, run, report⟩ := run
  have iff := buildStatusPdu_sound_iff (reaches_of_runAllowed polledRun run) 20 none true 4
  exact ⟨rx, run, report, iff.mpr (by simp [reports, flagsKept, cappedLength])⟩

theorem polledRun_forgets : ¬ ∀ rx : Rx, Reaches next (fun _ _ => True) {} rx →
    ∀ tStatusProhibit statusProhibitTimer ownsLock nofBytes, rx.BuiltOk statusProhibitTimer nofBytes
      (rx.buildStatusPdu tStatusProhibit statusProhibitTimer ownsLock nofBytes) := by
  intro sound
  have run : ∃ rx : Rx, runAllowed next (fun _ _ => true) {} polledRun = some rx ∧
      (rx.buildStatusPdu 20 none true 1).txStatus = none ∧
      (rx.doStatus, (rx.buildStatusPdu 20 none true 1).rx.doStatus) = (true, false) := ⟨_, rfl, rfl, rfl⟩
  obtain ⟨rx, run, report, flags⟩ := run
  obtain ⟨before, after⟩ := Prod.mk.inj flags
  have reached : Reaches next (fun _ _ => True) {} rx :=
    (reaches_of_runAllowed polledRun run).mono fun _ _ _ => trivial
  have kept := ((sound rx reached 20 none true 1).2 report).1
  rw [before, after] at kept
  contradiction

end Rx

end IsrRan.Rlc.AmLte
