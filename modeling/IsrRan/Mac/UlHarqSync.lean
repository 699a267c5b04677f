import IsrRan.Mac.UlHarqRuns

namespace IsrRan.Mac.Lte
open HarqProc

theorem getRvidx_cases (n : Nat) : getRvidx n = 0 ∧ n % 4 = 0 ∨ (1 ≤ getRvidx n ∧ getRvidx n ≤ 3) ∧ n % 4 ≠ 0 := by
  unfold getRvidx
  have bound := Nat.mod_lt n (show 0 < 4 by decide)
  generalize n % 4 = k at bound
  revert k
  decide

def Filled (tbsTable : TbsTable) : Prop := ∀ tbsIdx n, tbsIdx < 34 → n < 110 → 16 ≤ tbsTable tbsIdx n

section Format0
variable {tbsTable : TbsTable} {env : UlEnv} {h : UlHarqProc} {tti : TtiPoint} {alloc : PrbInterval} {needsPdcch : Bool}
  {explicitMcs : Int} {result : UlHarqProc × Option UlSchedData}

theorem getTbsBytes_pos (filled : Filled tbsTable) {mcs n : Nat} {tbs : Int}
    (size : getTbsBytes tbsTable mcs n = some tbs) : 0 < tbs := by
  obtain ⟨tbsIdx, _, entry⟩ := Option.bind_eq_some_iff.mp size
  obtain ⟨bits, found, rfl⟩ := Option.map_eq_some_iff.mp entry
  obtain ⟨⟨small, positive, inside⟩, rfl⟩ := Option.ite_some_none_eq_some.mp found
  have enough := filled tbsIdx (n - 1) small (by omega)
  omega

theorem newTbInfo_consistent {tb : TbsInfo} (found : newTbInfo tbsTable env alloc explicitMcs = some tb) :
    Consistent tbsTable alloc.length tb := by
  have given : ∀ mcs : Int, mcs ≥ 0 → ∀ tb, (getTbsBytes tbsTable mcs.toNat alloc.length).map
      (fun tbs => (⟨tbs, mcs⟩ : TbsInfo)) = some tb → Consistent tbsTable alloc.length tb := by
    intro mcs nonneg tb h
    obtain ⟨tbs, size, rfl⟩ := Option.map_eq_some_iff.mp h
    exact ⟨mcs.toNat, (Int.toNat_of_nonneg nonneg).symm, size⟩
  unfold newTbInfo at found
  dsimp only at found
  generalize (if explicitMcs ≥ 0 then explicitMcs else env.fixedMcsUl) = mcs at found
  split at found
  · rename_i nonneg
    exact given _ nonneg _ found
  · split at found
    · exact cqiToTbsUl_consistent found
    · exact cqiToTbsUl_consistent found

structure GrantOf (h' : UlHarqProc) (alloc : PrbInterval) (needsPdcch : Bool) (tbs : Int) (d : UlSchedData) : Prop where
  tbs : d.tbs = tbs
  ndi : d.ndi = h'.getNdi 0
  alloc : d.alloc = alloc
  needsPdcch : d.needsPdcch = needsPdcch
  kept : keptGrant (some d) = some d

theorem generateFormat0_new (filled : Filled tbsTable) (empty : h.isEmptyTb 0 = true)
    (generated : generateFormat0 tbsTable env h tti alloc needsPdcch explicitMcs = some result) :
    ∃ (mcs : Nat) (tbs : Int) (d : UlSchedData), getTbsBytes tbsTable mcs alloc.length = some tbs ∧
      result = (h.newTx tti mcs tbs alloc (if needsPdcch then env.maxharqTx else env.maxMsg3retx) (!needsPdcch), some d) ∧
      GrantOf result.1 alloc needsPdcch tbs d := by
  unfold generateFormat0 at generated
  simp only [empty] at generated
  obtain ⟨⟨h', tb⟩, made, rest⟩ := Option.bind_eq_some_iff.mp generated
  obtain ⟨tb', found, same⟩ := Option.map_eq_some_iff.mp made
  obtain ⟨rfl, rfl⟩ := Prod.mk.inj same
  obtain ⟨mcs, first, size⟩ := newTbInfo_consistent found
  have positive := getTbsBytes_pos filled size
  dsimp only at rest
  rw [if_neg (by omega), if_neg (fun both => by omega), if_pos (by omega)] at rest
  obtain rfl := Option.some.inj rest
  refine ⟨mcs, _, _, size, by rw [first], rfl, rfl, rfl, rfl, ?_⟩
  have nonzero : tb'.tbsBytes ≠ 0 := by omega
  simp [keptGrant, nonzero]

theorem generateFormat0_retx (filled : Filled tbsTable) (busy : h.isEmptyTb 0 = false)
    (generated : generateFormat0 tbsTable env h tti alloc needsPdcch explicitMcs = some result) :
    ∃ (tbs : Int) (d : UlSchedData), getTbsBytes tbsTable (h.tb 0).lastMcs.toNat alloc.length = some tbs ∧
      result = (h.newRetx tti alloc, some d) ∧ GrantOf result.1 alloc needsPdcch tbs d ∧
      (needsPdcch = true → d.mcsIdx = 28 + d.rv ∧ d.rv = getRvidx (h.nofRetx 0 + 1)) := by
  unfold generateFormat0 at generated
  simp only [busy] at generated
  obtain ⟨⟨h', tb⟩, made, rest⟩ := Option.bind_eq_some_iff.mp generated
  obtain ⟨tbs, size, same⟩ := Option.map_eq_some_iff.mp made
  obtain ⟨rfl, rfl⟩ := Prod.mk.inj same
  have positive := getTbsBytes_pos filled size
  dsimp only at rest
  rw [if_neg (by omega), if_neg (fun both => by omega), if_pos (by omega)] at rest
  obtain rfl := Option.some.inj rest
  refine ⟨tbs, _, size, rfl, ⟨rfl, rfl, rfl, rfl, ?_⟩, ?_⟩
  · have nonzero : tbs ≠ 0 := by omega
    simp [keptGrant, nonzero]
  · intro announced
    have rtx : (h.newRetx tti alloc).nofRetx 0 = h.nofRetx 0 + 1 := by
      simp [UlHarqProc.newRetx, newRetxCommon, nofRetx, HarqProc.setTb]
    simp [announced, rtx]

end Format0

namespace UlHarqProc
variable {h h' : UlHarqProc} {ack : Bool}

def Released (h h' : UlHarqProc) : Prop := (∀ tbIdx, (h'.tb tbIdx).active = false) ∧ h'.maxRetx = h.maxRetx

theorem resetPendingData_released : Released h h.resetPendingData := ⟨fun _ => rfl, rfl⟩

theorem setTb_released {t : HarqTb} (quiet : (h.tb 1).active = false) (inactive : t.active = false) :
    Released h { h with toHarqProc := h.setTb 0 t } := by
  refine ⟨?_, rfl⟩
  rw [Fin.forall_fin_two]
  exact ⟨by simpa [HarqProc.setTb] using inactive, by simpa [HarqProc.setTb] using quiet⟩

theorem setAck_cases (quiet : (h.tb 1).active = false)
    (tidy : (h.tb 0).active = true → (h.tb 0).ackState = false) :
    (h.setAck 0 ack).1 = h ∨ Released h (h.setAck 0 ack).1 := by
  unfold UlHarqProc.setAck
  by_cases empty : h.isEmpty = true
  · rw [if_pos empty]
    exact .inl rfl
  · rw [if_neg empty]
    have active : (h.tb 0).active = true := by
      by_contra inactive
      apply empty
      simp [HarqProc.isEmpty, isEmptyTb, quiet, Bool.eq_false_of_not_eq_true inactive]
    have notEmpty : ¬h.isEmptyTb 0 = true := by simp [isEmptyTb, active]
    unfold setAckCommon
    rw [if_neg notEmpty]
    cases ack with
    | true =>
      right
      have released := setTb_released (t := { h.tb 0 with ackState := true, active := !true }) quiet rfl
      dsimp only
      split
      · exact ⟨fun _ => rfl, rfl⟩
      · exact released
    | false =>
      left
      have same : ({ h.tb 0 with ackState := false, active := !false } : HarqTb) = h.tb 0 := by
        have unacked := tidy active
        generalize h.tb 0 = t at active unacked
        cases t
        simp only at active unacked
        rw [active, unacked]
        rfl
      have kept : h.setTb 0 { h.tb 0 with ackState := false, active := !false } = h.toHarqProc := by
        unfold HarqProc.setTb
        rw [same, Function.update_eq_self]
      dsimp only
      rw [kept, if_neg (by simp [notEmpty])]

theorem newTti_cases (quiet : (h.tb 1).active = false) :
    (h.newTti = h ∧ ¬(h.hasPendingRetx = true ∧ h.nofRetx 0 + 1 ≥ h.maxRetx)) ∨ Released h h.newTti := by
  unfold UlHarqProc.newTti
  split
  · right
    dsimp only
    split
    · exact setTb_released quiet rfl
    · exact ⟨fun _ => rfl, rfl⟩
  · rename_i kept
    exact .inl ⟨rfl, kept⟩

theorem popPendingPhich_cases (pop : h.popPendingPhich = some (h', ack)) :
    h' = { h with pendingPhich := false } ∧ (h.tb 0).active = true ∧ ack = (h.tb 0).ackState ∨ Released h h' := by
  obtain ⟨_, same⟩ := Option.ite_none_right_eq_some.mp pop
  obtain ⟨rfl, rfl⟩ := Prod.mk.inj (Option.some.inj same)
  split
  · right
    exact ⟨fun _ => rfl, rfl⟩
  · rename_i busy
    exact .inl ⟨rfl, by simpa [isEmptyTb] using busy, rfl⟩

theorem tryUlRetxAlloc_length {collides : Bool} {found alloc : PrbInterval}
    (result : h.tryUlRetxAlloc collides found = some alloc) : alloc.length = h.allocation.length := by
  unfold tryUlRetxAlloc at result
  split at result
  · rw [← Option.some.inj result]
  · split at result
    · contradiction
    · rename_i same
      rw [← Option.some.inj result]
      exact not_not.mp same

end UlHarqProc

namespace UlHarqRun
open UlHarqProc

structure Inv (tbsTable : TbsTable) (s : UlHarqRun) : Prop where
  quiet : (s.h.tb 1).active = false
  tidy : (s.h.tb 0).active = true → (s.h.tb 0).ackState = false
  resumed : (s.h.tb 0).active = true → s.toldAck = true → s.h.pdcchRequested = true
  nack : s.phase = .started ∨ s.phase = .phichDone → (s.h.tb 0).active = true → s.phich ≠ some true
  count : (s.h.tb 0).active = true → s.txs.length ≤ s.h.nofRetx 0 + 1 ∧ s.h.nofRetx 0 + 1 ≤ s.h.maxRetx
  fresh : s.phase = .started ∨ s.phase = .phichDone → (s.h.tb 0).active = true → s.h.nofRetx 0 + 1 < s.h.maxRetx
  block : (s.h.tb 0).active = true → ∃ (mcs : Nat) (tbs : Int), (s.h.tb 0).lastMcs = mcs ∧
    getTbsBytes tbsTable mcs s.h.allocation.length = some tbs ∧
    ∀ x ∈ s.txs, x = (s.h.getNdi 0, s.h.allocation.length, tbs)
  sync : Synchronised s

variable {tbsTable : TbsTable} {s t : UlHarqRun}

theorem Inv.of_inactive (quiet : (s.h.tb 1).active = false) (inactive : (s.h.tb 0).active = false)
    (sync : Synchronised s) : Inv tbsTable s where
  quiet := quiet
  tidy active := by rw [inactive] at active; contradiction
  resumed active := by rw [inactive] at active; contradiction
  nack _ active := by rw [inactive] at active; contradiction
  count active := by rw [inactive] at active; contradiction
  fresh _ active := by rw [inactive] at active; contradiction
  block active := by rw [inactive] at active; contradiction
  sync := sync

theorem Synchronised.withProc (sync : Synchronised s) (h : UlHarqProc) (maxRetx : h.maxRetx = s.h.maxRetx)
    (phase : UlPhase) (phich : Option Bool) (toldAck : Bool) : Synchronised { s with h, phase, phich, toldAck } where
  sameBlock := sync.sameBlock
  announced := sync.announced
  bounded := by
    have bounded := sync.bounded
    rw [← maxRetx] at bounded
    exact bounded
  ackFinal := sync.ackFinal
  noFault := sync.noFault

namespace Inv
variable (inv : Inv tbsTable s)
include inv

theorem isEmpty_iff : s.h.isEmpty = true ↔ (s.h.tb 0).active = false := by
  simp [HarqProc.isEmpty, isEmptyTb, inv.quiet]

theorem released {h : UlHarqProc} (gone : Released s.h h) (phase : UlPhase) (phich : Option Bool) (toldAck : Bool) :
    Inv tbsTable { s with h, phase, phich, toldAck } :=
  of_inactive (gone.1 1) (gone.1 0) (inv.sync.withProc _ gone.2 _ _ _)

theorem crc {ack : Bool} : Inv tbsTable { s with h := (s.h.setAck 0 ack).1 } := by
  rcases @setAck_cases s.h ack inv.quiet inv.tidy with same | gone
  · rw [same]
    exact inv
  · exact inv.released gone _ _ _

theorem newTti : Inv tbsTable { s with h := s.h.newTti, phase := .started, phich := none } := by
  rcases newTti_cases inv.quiet with ⟨same, kept⟩ | gone
  · rw [same]
    refine ⟨inv.quiet, inv.tidy, inv.resumed, fun _ _ => nofun, inv.count, ?_, inv.block, inv.sync.withProc _ rfl _ _ _⟩
    intro _ active
    have pending : s.h.hasPendingRetx = true := by
      simp [hasPendingRetx, hasPendingRetxCommon, inv.tidy active, show (s.h.tb 0).active = true from active]
    have few : ¬s.h.nofRetx 0 + 1 ≥ s.h.maxRetx := fun many => kept ⟨pending, many⟩
    exact Nat.lt_of_not_ge few
  · exact inv.released gone _ _ _

theorem noPhich (started : s.phase = .started) : Inv tbsTable { s with phase := .phichDone } :=
  ⟨inv.quiet, inv.tidy, inv.resumed, fun _ => inv.nack (.inl started), inv.count, fun _ => inv.fresh (.inl started),
    inv.block, inv.sync.withProc _ rfl _ _ _⟩

theorem allocPhich {listFull phichEnabled : Bool} (started : s.phase = .started) :
    Inv tbsTable { s.allocPhich listFull phichEnabled with phase := .phichDone } := by
  unfold UlHarqRun.allocPhich
  cases pending : s.h.pendingPhich with
  | false => exact inv.noPhich started
  | true =>
    rw [if_neg (by simp)]
    cases pop : s.h.popPendingPhich with
    | none =>
      rw [popPendingPhich, if_pos pending] at pop
      contradiction
    | some popped =>
      obtain ⟨h, ack⟩ := popped
      dsimp only
      rcases popPendingPhich_cases pop with ⟨rfl, active, rfl⟩ | gone
      · have unacked := inv.tidy active
        have busy : ¬isEmptyTb s.h.toHarqProc 0 = true := by simp [isEmptyTb, active]
        have fresh := inv.fresh (.inl started)
        have nack := inv.nack (.inl started)
        split
        · exact ⟨inv.quiet, inv.tidy, inv.resumed, fun _ => nack, inv.count, fun _ => fresh, inv.block,
            inv.sync.withProc { s.h with pendingPhich := false } rfl _ _ _⟩
        · split
          · exact ⟨inv.quiet, inv.tidy, fun _ _ => rfl, fun _ => nack, inv.count, fun _ => fresh, inv.block,
              inv.sync.withProc { s.h with pendingPhich := false, pdcchRequested := true } rfl _ _ _⟩
          · rw [unacked, Bool.or_false]
            exact ⟨inv.quiet, inv.tidy, inv.resumed, fun _ _ acked => (by cases acked), inv.count, fun _ => fresh,
              inv.block, inv.sync.withProc { s.h with pendingPhich := false } rfl _ _ _⟩
      · have empty : h.isEmptyTb 0 = true := by simp [isEmptyTb, gone.1 0]
        split
        · exact inv.released gone _ _ _
        · split
          · exact inv.released gone _ _ _
          · exact inv.released gone _ _ _

theorem notAllocated (done : s.phase = .phichDone) : Inv tbsTable { s.skipRetx with phase := .generated } := by
  unfold skipRetx
  cases active : (s.h.tb 0).active with
  | false =>
    rw [if_pos (inv.isEmpty_iff.mpr active)]
    exact inv.released ⟨Fin.forall_fin_two.mpr ⟨active, inv.quiet⟩, rfl⟩ _ _ _
  | true =>
    rw [if_neg (by simp [inv.isEmpty_iff, active])]
    obtain ⟨length, _⟩ := inv.count active
    have room := inv.fresh (.inr done) active
    obtain ⟨mcs, tbs, lastMcs, size, same⟩ := inv.block active
    have skipped : ∀ (phich : Option Bool) (toldAck : Bool),
        Inv tbsTable { s with h := s.h.retxSkipped, phase := .generated, phich, toldAck } := by
      intro phich toldAck
      have nRtx : (s.h.retxSkipped).nofRetx 0 = s.h.nofRetx 0 + 1 := by
        simp [retxSkipped, nofRetx, HarqProc.setTb]
      constructor
      · simpa [retxSkipped, HarqProc.setTb] using inv.quiet
      · intro _
        simpa [retxSkipped, HarqProc.setTb] using inv.tidy active
      · exact fun _ _ => rfl
      · rintro (impossible | impossible) <;> contradiction
      · intro _
        dsimp only
        change s.txs.length ≤ _ ∧ _ ≤ s.h.maxRetx
        omega
      · rintro (impossible | impossible) <;> contradiction
      · intro _
        refine ⟨mcs, tbs, ?_, size, ?_⟩
        · simpa [retxSkipped, HarqProc.setTb] using lastMcs
        · simpa [retxSkipped, HarqProc.setTb, getNdi] using same
      · exact inv.sync.withProc s.h.retxSkipped rfl _ _ _
    split
    · exact skipped s.phich s.toldAck
    · rename_i told
      exact absurd told (inv.nack (.inr done) active)
    · exact skipped (some true) true

theorem finish : Inv tbsTable { s with
    h := if !s.h.isEmpty ∧ s.h.maxRetx = 0 then s.h.resetPendingData else s.h
    phase := .idle } := by
  split
  · exact inv.released resetPendingData_released _ _ _
  · refine ⟨inv.quiet, inv.tidy, inv.resumed, ?_, inv.count, ?_, inv.block, inv.sync.withProc _ rfl _ _ _⟩
    · rintro (impossible | impossible) <;> contradiction
    · rintro (impossible | impossible) <;> contradiction

theorem reset : Inv tbsTable { s with
    h :=
      let once := { s.h with toHarqProc := s.h.reset 0 }.resetPendingData
      { once with toHarqProc := once.reset 1 }.resetPendingData } := by
  let once := { s.h with toHarqProc := s.h.reset 0 }.resetPendingData
  have gone : Released s.h { once with toHarqProc := once.reset 1 }.resetPendingData := ⟨fun _ => rfl, rfl⟩
  exact inv.released gone s.phase s.phich s.toldAck

section
variable (filled : Filled tbsTable)
include filled

theorem granted_new {env : UlEnv} {tti : TtiPoint} {alloc : PrbInterval} {needsPdcch : Bool}
    {explicitMcs : Int} {result : UlHarqProc × Option UlSchedData} (empty : s.h.isEmpty = true)
    (retx : 1 ≤ if needsPdcch then env.maxharqTx else env.maxMsg3retx)
    (generated : generateFormat0 tbsTable env s.h tti alloc needsPdcch explicitMcs = some result) :
    Inv tbsTable (s.granted true 0 result) := by
  have inactive := inv.isEmpty_iff.mp empty
  obtain ⟨mcs, tbs, d, size, rfl, grant⟩ := generateFormat0_new filled (by simp [isEmptyTb, inactive]) generated
  unfold granted
  rw [grant.kept]
  constructor
  · simpa [newTx, newTxCommon, HarqProc.reset, HarqProc.setTb] using inv.quiet
  · intro _
    simp [newTx, newTxCommon, HarqProc.reset, HarqProc.setTb]
  · intro _ told
    simp at told
  · rintro (impossible | impossible) <;> contradiction
  · intro _
    exact ⟨by simp, retx⟩
  · rintro (impossible | impossible) <;> contradiction
  · intro _
    refine ⟨mcs, tbs, ?_, size, ?_⟩
    · simp [newTx, newTxCommon, HarqProc.setTb]
    · intro x mem
      obtain rfl : x = (d.ndi, d.alloc.length, d.tbs) := by simpa using mem
      rw [grant.ndi, grant.alloc, grant.tbs]
      rfl
  · constructor
    · intro x memx y memy
      simp only [if_true, List.mem_singleton] at memx memy
      rw [memx, memy]
    · simpa using inv.sync.announced
    · exact retx
    · simpa using inv.sync.ackFinal
    · exact inv.sync.noFault

theorem granted_retx {env : UlEnv} {tti : TtiPoint} {alloc : PrbInterval} {explicitMcs : Int}
    {result : UlHarqProc × Option UlSchedData} (done : s.phase = .phichDone) (pending : s.h.hasPendingRetx = true)
    (same : alloc.length = s.h.allocation.length)
    (version : s.h.retxRequiresPdcch alloc = true → (s.h.nofRetx 0 + 1) % 4 ≠ 0 ∨ (s.h.tb 0).lastMcs = 28)
    (generated : generateFormat0 tbsTable env s.h tti alloc ((s.h.allocType alloc).needsPdcch s.h.isMsg3) explicitMcs =
      some result) : Inv tbsTable (s.granted false (s.h.tb 0).lastMcs result) := by
  have active : (s.h.tb 0).active = true := by
    simp only [hasPendingRetx, hasPendingRetxCommon, Bool.and_eq_true] at pending
    exact pending.1
  have announces : (s.h.allocType alloc).needsPdcch s.h.isMsg3 = s.h.retxRequiresPdcch alloc := by
    unfold allocType
    rw [pending]
    cases s.h.retxRequiresPdcch alloc <;> rfl
  rw [announces] at generated
  obtain ⟨tbs, d, size, rfl, grant, dci⟩ :=
    generateFormat0_retx filled (by simp [isEmptyTb, active]) generated
  obtain ⟨mcs, tbs', lastMcs, size', block⟩ := inv.block active
  obtain rfl : tbs' = tbs := by
    rw [lastMcs, Int.toNat_natCast, same, size'] at size
    exact Option.some.inj size
  obtain ⟨length, _⟩ := inv.count active
  have room := inv.fresh (.inr done) active
  have next : (s.h.newRetx tti alloc).nofRetx 0 = s.h.nofRetx 0 + 1 := by
    simp [newRetx, newRetxCommon, HarqProc.setTb, nofRetx]
  have ndi : (s.h.newRetx tti alloc).getNdi 0 = s.h.getNdi 0 := by
    simp [newRetx, newRetxCommon, HarqProc.setTb, getNdi]
  have block' : ∀ x ∈ (d.ndi, d.alloc.length, d.tbs) :: s.txs, x = (s.h.getNdi 0, s.h.allocation.length, tbs') := by
    intro x mem
    rcases List.mem_cons.mp mem with rfl | old
    · rw [grant.ndi, grant.alloc, grant.tbs, same]
      exact congrArg (·, _) ndi
    · exact block x old
  have notTold : d.needsPdcch = false → s.toldAck = false := by
    intro silent
    rw [grant.needsPdcch, retxRequiresPdcch, Bool.or_eq_false_iff] at silent
    have resumed := inv.resumed active
    rw [silent.2] at resumed
    simpa using resumed
  have understood : d.needsPdcch = true → RetxDci.Understood ⟨d.mcsIdx, d.rv, (s.h.tb 0).lastMcs⟩ := by
    intro announced
    rw [grant.needsPdcch] at announced
    obtain ⟨mcsIdx, rv⟩ := dci announced
    rcases getRvidx_cases (s.h.nofRetx 0 + 1) with ⟨zero, multiple⟩ | ⟨range, _⟩
    · right
      rcases version announced with not | original
      · contradiction
      · exact ⟨by simp only; omega, by simp only; omega⟩
    · left
      exact ⟨by simp only; omega, by simp only; omega, mcsIdx⟩
  unfold granted
  rw [grant.kept]
  simp only [Bool.false_eq_true, if_false]
  constructor
  · simpa [newRetx, newRetxCommon, HarqProc.setTb] using inv.quiet
  · intro _
    simp [newRetx, newRetxCommon, HarqProc.setTb]
  · intro _ told
    cases silent : d.needsPdcch with
    | true => simp [silent] at told
    | false => simp [notTold silent] at told
  · rintro (impossible | impossible) <;> contradiction
  · intro _
    rw [next, List.length_cons]
    change _ ∧ _ ≤ s.h.maxRetx
    omega
  · rintro (impossible | impossible) <;> contradiction
  · intro _
    refine ⟨mcs, tbs', ?_, same ▸ size', ?_⟩
    · simpa [newRetx, newRetxCommon, HarqProc.setTb] using lastMcs
    · intro x mem
      rw [block' x mem, ← same]
      rfl
  · constructor
    · intro x memx y memy
      rw [block' x memx, block' y memy]
    · intro e mem
      cases announced : d.needsPdcch with
      | true =>
        rcases List.mem_cons.mp (by simpa [announced] using mem) with rfl | old
        · exact understood announced
        · exact inv.sync.announced e old
      | false => exact inv.sync.announced e (by simpa [announced] using mem)
    · change (_ :: s.txs).length ≤ s.h.maxRetx
      rw [List.length_cons]
      omega
    · have before := inv.sync.ackFinal
      cases silent : d.needsPdcch with
      | true => simp [before]
      | false => simp [before, notTold silent]
    · exact inv.sync.noFault

theorem step {e : UlHarqEvent} (kept : s.Kept e) (next : s.step tbsTable e = some t) :
    Inv tbsTable t := by
  cases e with
  | crc ack =>
    obtain ⟨_, rfl⟩ := Option.ite_some_none_eq_some.mp next
    exact inv.crc
  | newTti =>
    obtain ⟨_, rfl⟩ := Option.ite_some_none_eq_some.mp next
    exact inv.newTti
  | phich listFull phichEnabled =>
    obtain ⟨started, rfl⟩ := Option.ite_some_none_eq_some.mp next
    exact inv.allocPhich started
  | noPhich =>
    obtain ⟨started, rfl⟩ := Option.ite_some_none_eq_some.mp next
    exact inv.noPhich started
  | newTx env tti alloc =>
    obtain ⟨⟨_, empty, _⟩, same⟩ := Option.ite_none_right_eq_some.mp next
    obtain ⟨result, generated, rfl⟩ := Option.map_eq_some_iff.mp same
    apply inv.granted_new filled empty _ generated
    split
    · exact kept.1
    · exact kept.2
  | msg3 env tti alloc mcs =>
    obtain ⟨⟨_, empty, _⟩, same⟩ := Option.ite_none_right_eq_some.mp next
    obtain ⟨result, generated, rfl⟩ := Option.map_eq_some_iff.mp same
    apply inv.granted_new filled empty _ generated
    exact kept
  | retx env tti collides found =>
    obtain ⟨⟨done, pending⟩, same⟩ := Option.ite_none_right_eq_some.mp next
    obtain ⟨alloc, prbs, same⟩ := Option.bind_eq_some_iff.mp same
    obtain ⟨result, generated, rfl⟩ := Option.map_eq_some_iff.mp same
    exact inv.granted_retx filled done pending (tryUlRetxAlloc_length prbs) (kept alloc prbs) generated
  | notAllocated =>
    obtain ⟨done, rfl⟩ := Option.ite_some_none_eq_some.mp next
    exact inv.notAllocated done
  | finish =>
    obtain ⟨_, rfl⟩ := Option.ite_some_none_eq_some.mp next
    exact inv.finish
  | reset =>
    obtain ⟨_, rfl⟩ := Option.ite_some_none_eq_some.mp next
    exact inv.reset

end

end Inv

def initial (pid : Nat) : UlHarqRun := { h := { id := pid } }

theorem inv_initial {pid : Nat} : Inv tbsTable (initial pid) :=
  .of_inactive rfl rfl ⟨nofun, nofun, Nat.zero_le 5, rfl, rfl⟩

theorem synchronised_of_kept (filled : Filled tbsTable) {pid : Nat}
    (run : Lib.Reaches (step tbsTable) Kept (initial pid) s) : Synchronised s :=
  (run.invariant inv_initial fun _ _ _ inv kept next => inv.step filled kept next : Inv tbsTable s).sync

def plain : UlEnv := { fixedMcsUl := 10 }

def oneSize : TbsTable := fun _ _ => 144

theorem filled_oneSize : Filled oneSize := fun _ _ _ _ => Nat.le_of_ble_eq_true rfl

def firstGrant : List UlHarqEvent := [.newTti, .noPhich, .newTx plain (.ofTti 8) ⟨2, 3⟩, .finish]

theorem synchronised_of_kept_firstGrant : ∃ s, Lib.Reaches (step oneSize) Kept (initial 0) s ∧
    s.txs = [(true, 1, 18)] ∧ Synchronised s := by
  have kept : ∀ e ∈ firstGrant, ∀ s : UlHarqRun, s.Kept e := by
    intro e mem s
    simp only [firstGrant, List.mem_cons, List.not_mem_nil, or_false] at mem
    rcases mem with rfl | rfl | rfl | rfl <;> simp [Kept, plain]
  have first : Lib.Reaches (step oneSize) Kept (initial 0) _ := .tail .refl (kept .newTti (by simp [firstGrant]) _) rfl
  have second : Lib.Reaches (step oneSize) Kept (initial 0) _ := .tail first (kept .noPhich (by simp [firstGrant]) _) rfl
  have third : Lib.Reaches (step oneSize) Kept (initial 0) _ :=
    .tail second (kept (.newTx plain (.ofTti 8) ⟨2, 3⟩) (by simp [firstGrant]) _) rfl
  exact ⟨_, third, rfl, synchronised_of_kept filled_oneSize third⟩

def fourthRetx : List UlHarqEvent :=
  firstGrant ++ [.newTti, .phich false true, .retx plain (.ofTti 16) false ⟨2, 3⟩, .finish] ++
    [.newTti, .phich false true, .retx plain (.ofTti 24) false ⟨2, 3⟩, .finish] ++
    [.newTti, .phich false true, .retx plain (.ofTti 32) false ⟨2, 3⟩, .finish] ++
    [.newTti, .phich false true, .retx plain (.ofTti 40) true ⟨5, 6⟩]

theorem fourthRetx_misread : ¬∀ (tbsTable : TbsTable), Filled tbsTable → ∀ pid s,
    Lib.Reaches (step tbsTable) (fun _ _ => True) (initial pid) s → Synchronised s := by
  have outcome : (Lib.runAllowed (step oneSize) (fun _ _ => true) (initial 0) fourthRetx).any (fun s =>
      decide (s.retxDcis = [⟨28, 0, 10⟩])) = true := by
    decide +kernel
  intro synchronised
  obtain ⟨s, run, found⟩ := (Option.any_eq_true _ _).mp outcome
  have dcis := of_decide_eq_true found
  have reach := (Lib.reaches_of_runAllowed fourthRetx run).mono fun _ _ _ => trivial
  have announced := (synchronised oneSize filled_oneSize 0 s reach).announced ⟨28, 0, 10⟩ (by simp [dcis])
  rcases announced with ⟨low, _⟩ | ⟨same, _⟩
  · simp at low
  · simp at same

end UlHarqRun

end IsrRan.Mac.Lte
