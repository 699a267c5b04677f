import IsrRan.Lib.Transition
import IsrRan.Mac.RaSchedPass

namespace IsrRan.Mac.Lte.RaSched
open Lib List

structure SentRars where
  tti : Nat
  rars : List RarAlloc
  ueDb : List Nat
  msg3 : List (Nat × PrbInterval)
  deriving DecidableEq, Repr

/-- A run of `ra_sched`: `now` is the TTI, counted without wrapping, for which `dl_sched` runs next. The rest
is a record of what was accepted, sent and discarded. -/
structure Run where
  now : Nat
  pending : List PendingRar
  lastPrach : Nat
  accepted : List (Nat × RarInfo)
  sent : List SentRars
  discarded : List (Nat × PendingRar)
  deriving DecidableEq, Repr

inductive Event (σ : Type) where
  | prach (tti : Nat) (info : RarInfo)
  /-- One TTI, with whatever its grid and its first PRB for Msg3 are, and the UEs known then. -/
  | tti (grid : σ) (lastMsg3Prb : Nat) (ueDb : List Nat)

variable {σ : Type} {grid : Grid σ} {cell : CellParams}

def Run.step (grid : Grid σ) (cell : CellParams) (s : Run) : Event σ → Option Run
  | .prach tti info =>
    let out := dlRachInfo s.pending info
    some { s with
      pending := out.2
      lastPrach := tti
      accepted := if out.1 then s.accepted ++ [(tti, info)] else s.accepted }
  | .tti free lastMsg3Prb ueDb =>
    let pass := dlSched grid cell ⟨.ofTti s.now, free, [], lastMsg3Prb⟩ s.pending
    some { s with
      now := s.now + 1
      pending := pass.pending
      sent := s.sent ++ [⟨s.now, pass.sf.rarAllocs, ueDb, ulSched cell ueDb pass.sf⟩]
      discarded := s.discarded ++ pass.discarded.map (s.now, ·) }

def Run.start (now : Nat) : Run := ⟨now, [], 0, [], [], []⟩

def Run.ordered (s : Run) : Event σ → Bool
  | .prach tti info => info.prachTti = tti % 10240 && s.lastPrach ≤ tti && tti ≤ s.now
  | .tti .. => true

def Run.prompt (s : Run) : Event σ → Bool
  | .prach tti info => s.ordered (.prach tti info : Event σ) && s.now < tti + 5120
  | .tti .. => true

/-! ## What was accepted, sent and discarded of the PRACHs of one TTI -/

def SentRars.infosOf (f : SentRars) (p : Nat) : List RarInfo :=
  ((f.rars.flatMap (·.msg3Grant)).map (·.data)).filter fun info => latest f.tti info.prachTti = p

namespace Run

def acceptedOf (s : Run) (p : Nat) : List RarInfo := (s.accepted.filter (·.1 = p)).map (·.2)

def sentOf (s : Run) (p : Nat) : List RarInfo := s.sent.flatMap (·.infosOf p)

def discardedOf (s : Run) (p : Nat) : List RarInfo := s.discarded.flatMap fun d => pendingOf d.1 [d.2] p

end Run

/-- What is accepted is sent, then discarded, then pending, in this order and each once; it is sent in time
and discarded only when it is too late. -/
structure OnceInTime (cell : CellParams) (s : Run) : Prop where
  once : ∀ p, s.acceptedOf p = s.sentOf p ++ s.discardedOf p ++ pendingOf s.now s.pending p
  inWindow : ∀ f ∈ s.sent, ∀ rar ∈ f.rars, InWindow cell f.tti rar
  tooLate : ∀ d ∈ s.discarded,
    latest d.1 d.2.prachTti.ttiVal + prachRarOffset + cell.prachRarWindow ≤ d.1
  sideBySide : ∀ f ∈ s.sent, ∀ rar ∈ f.rars, SideBySide cell rar

/-! ## A PRACH -/

structure Reported (now tti : Nat) (info : RarInfo) (accepted : Bool) (entries entries' : List Entry) : Prop where
  known : ∀ e ∈ entries', e.Known now
  infos : ∀ p, infosAt entries' p = infosAt entries p ++ if accepted = true ∧ tti = p then [info] else []

variable {now p : Nat} {entries : List Entry} {tti : Nat} {info : RarInfo}

theorem joinPending_entries (known : ∀ e ∈ entries, e.Known now) (last : ∀ e ∈ entries, e.tti ≤ tti)
    (sorted : entries.Pairwise fun e e' => e.tti < e'.tti) (reported : tti ≤ now)
    (number : info.prachTti = tti % 10240) :
    match joinPending info (1 + info.prachTti % 10) (entries.map Entry.rar) with
    | none => ∀ e ∈ entries, e.tti ≠ tti
    | some (accepted, rars) => ∃ entries', rars = entries'.map Entry.rar ∧
        entries'.map (·.tti) = entries.map (·.tti) ∧ Reported now tti info accepted entries entries' := by
  induction entries with
  | nil => simp [joinPending]
  | cons e later ih =>
    have own := known e mem_cons_self
    obtain ⟨behind, sorted⟩ := List.pairwise_cons.mp sorted
    have rest : ∀ e' ∈ later, e'.Known now := fun e' mem => known e' (mem_cons_of_mem _ mem)
    have below := last e mem_cons_self
    have recent := own.recent
    have same : e.rar.prachTti.ttiVal = info.prachTti ∧ 1 + info.prachTti % 10 = e.rar.raRnti ↔
        e.tti = tti := by
      change e.tti % 10240 = info.prachTti ∧ 1 + info.prachTti % 10 = 1 + e.tti % 10240 % 10 ↔ _
      omega
    rw [map_cons, joinPending]
    by_cases here : e.tti = tti
    · rw [if_pos (same.mpr here)]
      have alone : ∀ e' ∈ later, e'.tti ≠ tti := by
        intro e' mem
        have := behind e' mem
        omega
      by_cases full : e.rar.msg3Grant.length ≥ maxRarList
      · rw [if_pos full]
        refine ⟨e :: later, rfl, rfl, known, ?_⟩
        simp
      · rw [if_neg full]
        refine ⟨{ e with infos := e.infos ++ [info] } :: later, rfl, rfl, ?_, ?_⟩
        · intro e' mem
          rcases List.mem_cons.mp mem with rfl | mem
          · refine ⟨own.reported, own.recent, ?_⟩
            intro i mem
            rcases List.mem_append.mp mem with old | new
            · exact own.number i old
            · rw [List.mem_singleton.mp new, number, ← here]
          · exact rest e' mem
        · intro p
          rw [infosAt_cons, infosAt_cons]
          by_cases at_ : tti = p
          · subst at_
            simp [here, infosAt_eq_nil alone]
          · have away : e.tti ≠ p := by omega
            simp [away, at_]
    · rw [if_neg (mt same.mp here)]
      have later_ := ih rest (fun e' mem => last e' (mem_cons_of_mem _ mem)) sorted
      cases joined : joinPending info (1 + info.prachTti % 10) (later.map Entry.rar) with
      | none =>
        rw [joined] at later_
        intro e' mem
        rcases List.mem_cons.mp mem with rfl | mem
        · exact here
        · exact later_ e' mem
      | some out =>
        rw [joined] at later_
        obtain ⟨accepted, rars⟩ := out
        obtain ⟨later', rfl, ttis, report⟩ := later_
        refine ⟨e :: later', rfl, by simp [ttis], ?_, ?_⟩
        · intro e' mem
          rcases List.mem_cons.mp mem with rfl | mem
          · exact own
          · exact report.known e' mem
        · intro p
          rw [infosAt_cons, infosAt_cons, report.infos p, append_assoc]

theorem infosAt_append {front back : List Entry} :
    infosAt (front ++ back) p = infosAt front p ++ infosAt back p := by
  unfold infosAt
  rw [filter_append, flatMap_append]

theorem pairwise_tti : entries.Pairwise (fun e e' => e.tti < e'.tti) ↔ (entries.map (·.tti)).Pairwise (· < ·) :=
  List.pairwise_map.symm

theorem dlRachInfo_entries (known : ∀ e ∈ entries, e.Known now) (last : ∀ e ∈ entries, e.tti ≤ tti)
    (sorted : entries.Pairwise fun e e' => e.tti < e'.tti) (reported : tti ≤ now) (recent : now < tti + 5120)
    (number : info.prachTti = tti % 10240) :
    ∃ entries', (dlRachInfo (entries.map Entry.rar) info).2 = entries'.map Entry.rar ∧
      Reported now tti info (dlRachInfo (entries.map Entry.rar) info).1 entries entries' ∧
      (∀ e ∈ entries', e.tti ≤ tti) ∧ entries'.Pairwise fun e e' => e.tti < e'.tti := by
  have join := @joinPending_entries now entries tti info known last sorted reported number
  unfold dlRachInfo
  dsimp only
  cases joined : joinPending info (1 + info.prachTti % 10) (entries.map Entry.rar) with
  | some out =>
    rw [joined] at join
    obtain ⟨accepted, rars⟩ := out
    obtain ⟨entries', rfl, ttis, report⟩ := join
    refine ⟨entries', rfl, report, ?_, ?_⟩
    · intro e mem
      have old : e.tti ∈ entries.map (·.tti) := ttis ▸ mem_map_of_mem mem
      obtain ⟨e', mem', same⟩ := List.mem_map.mp old
      exact same ▸ last e' mem'
    · rw [pairwise_tti, ttis, ← pairwise_tti]
      exact sorted
  | none =>
    rw [joined] at join
    refine ⟨entries ++ [⟨tti, [info]⟩], ?_, ⟨?_, ?_⟩, ?_, ?_⟩
    · have small : info.prachTti < 10240 := by omega
      have point : TtiPoint.ofUint info.prachTti = .ofTti tti := by
        unfold TtiPoint.ofUint
        rw [if_neg (by omega), number, Nat.mod_mod]
        rfl
      rw [point, number, map_append]
      rfl
    · intro e mem
      rcases List.mem_append.mp mem with old | new
      · exact known e old
      · rw [List.mem_singleton.mp new]
        exact ⟨reported, recent, by simp [number]⟩
    · intro p
      rw [infosAt_append, infosAt_cons]
      simp [infosAt]
    · intro e mem
      rcases List.mem_append.mp mem with old | new
      · exact last e old
      · rw [List.mem_singleton.mp new]
    · apply List.pairwise_append.mpr
      refine ⟨sorted, by simp, ?_⟩
      intro e mem e' new
      rw [List.mem_singleton.mp new]
      exact lt_of_le_of_ne (last e mem) (join e mem)

/-! ## Runs -/

structure Inv (cell : CellParams) (s : Run) : Prop where
  pending : ∃ entries : List Entry, s.pending = entries.map Entry.rar ∧ (∀ e ∈ entries, e.Known s.now) ∧
    (∀ e ∈ entries, e.tti ≤ s.lastPrach) ∧ entries.Pairwise fun e e' => e.tti < e'.tti
  past : ∀ d ∈ s.discarded, d.1 < s.now
  onceInTime : OnceInTime cell s

namespace Inv
variable {s t : Run}

theorem start (now : Nat) : Inv cell (Run.start now) := by
  refine ⟨⟨[], rfl, by simp, by simp, by simp⟩, by simp [Run.start], ?_⟩
  constructor
  case once => exact fun p => rfl
  case inWindow => simp [Run.start]
  case tooLate => simp [Run.start]
  case sideBySide => simp [Run.start]

theorem reports (h : Inv cell s) {tti : Nat} {info : RarInfo}
    (prompt : s.prompt (.prach tti info : Event σ) = true)
    (next : s.step grid cell (.prach tti info) = some t) : Inv cell t := by
  simp only [Run.prompt, Run.ordered, Bool.and_eq_true, decide_eq_true_eq] at prompt
  obtain ⟨⟨⟨number, order⟩, reported⟩, recent⟩ := prompt
  obtain ⟨entries, pending, known, last, sorted⟩ := h.pending
  obtain ⟨entries', after, report, last', sorted'⟩ := @dlRachInfo_entries s.now entries tti info known
    (fun e mem => le_trans (last e mem) order) sorted reported recent number
  obtain rfl := Option.some.inj next
  rw [← pending] at after report
  refine ⟨⟨entries', after, report.known, last', sorted'⟩, h.past, ?_⟩
  constructor
  case inWindow => exact h.onceInTime.inWindow
  case tooLate => exact h.onceInTime.tooLate
  case sideBySide => exact h.onceInTime.sideBySide
  case once =>
    intro p
    have before := h.onceInTime.once p
    rw [pending, pendingOf_entries known] at before
    rw [after, pendingOf_entries report.known, report.infos p, ← append_assoc]
    change _ = s.sentOf p ++ s.discardedOf p ++ infosAt entries p ++ _
    rw [← before]
    unfold Run.acceptedOf
    cases (dlRachInfo s.pending info).1 with
    | false => simp
    | true =>
      by_cases here : tti = p
      · simp [here]
      · simp [here]

theorem discardedOf_append {discarded : List (Nat × PendingRar)} {gone : List Entry} {now p : Nat}
    (known : ∀ e ∈ gone, e.Known now) :
    ((discarded ++ gone.map fun e => (now, e.rar)).flatMap fun d => pendingOf d.1 [d.2] p) =
      (discarded.flatMap fun d => pendingOf d.1 [d.2] p) ++ infosAt gone p := by
  rw [flatMap_append, ← pendingOf_entries known]
  congr 1
  induction gone with
  | nil => rfl
  | cons e later ih =>
    have rest := ih fun e mem => known e (mem_cons_of_mem _ mem)
    rw [map_cons, flatMap_cons, rest]
    unfold pendingOf
    rw [map_cons, filter_cons, filter_cons]
    split <;> simp

theorem discardedOf_eq_nil (h : Inv cell s) (early : s.now < p + prachRarOffset + cell.prachRarWindow) :
    s.discardedOf p = [] := by
  unfold Run.discardedOf
  rw [flatMap_eq_nil_iff]
  intro d mem
  have late := h.onceInTime.tooLate d mem
  have past := h.past d mem
  have other : latest d.1 d.2.prachTti.ttiVal ≠ p := by
    omega
  simp [pendingOf, other]

theorem schedules (h : Inv cell s) {free : σ} {lastMsg3Prb : Nat} {ueDb : List Nat}
    (next : s.step grid cell (.tti free lastMsg3Prb ueDb) = some t) : Inv cell t := by
  obtain ⟨entries, pending, known, last, sorted⟩ := h.pending
  obtain ⟨new, gone, left, pass⟩ := @dlSched_pass σ grid cell s.now entries
    ⟨.ofTti s.now, free, [], lastMsg3Prb⟩ rfl known sorted
  obtain rfl := Option.some.inj next
  rw [← pending] at pass
  generalize dlSched grid cell ⟨.ofTti s.now, free, [], lastMsg3Prb⟩ s.pending = out at pass ⊢
  have rars : out.sf.rarAllocs = [] ++ new := pass.rars
  rw [nil_append] at rars
  have discarded : out.discarded.map (s.now, ·) =
      gone.map fun e => (s.now, e.rar) := by
    rw [pass.discarded, map_map]
    rfl
  have short := cell.window_le
  have offset : prachRarOffset = 3 := rfl
  have known' : ∀ e ∈ left, e.Known (s.now + 1) := by
    intro e mem
    obtain ⟨own, early⟩ := pass.early e mem
    exact ⟨Nat.le_succ_of_le own.reported, by omega, own.number⟩
  constructor
  case pending =>
    refine ⟨left, pass.pending, known', ?_, ?_⟩
    · intro e mem
      have old := pass.order.subset (mem_map_of_mem mem)
      obtain ⟨e', mem', same⟩ := List.mem_map.mp old
      exact same ▸ last e' mem'
    · exact pairwise_tti.mpr ((pairwise_tti.mp sorted).sublist pass.order)
  case past =>
    intro d mem
    rcases List.mem_append.mp mem with old | new
    · exact Nat.lt_succ_of_lt (h.past d old)
    · obtain ⟨e, -, rfl⟩ := List.mem_map.mp new
      exact Nat.lt_succ_self _
  case onceInTime =>
    constructor
    case inWindow =>
      intro f mem
      rcases List.mem_append.mp mem with old | new
      · exact h.onceInTime.inWindow f old
      · rw [List.mem_singleton.mp new]
        rw [rars]
        exact pass.inWindow
    case sideBySide =>
      intro f mem
      rcases List.mem_append.mp mem with old | new
      · exact h.onceInTime.sideBySide f old
      · rw [List.mem_singleton.mp new]
        rw [rars]
        exact pass.sideBySide
    case tooLate =>
      intro d mem
      rw [discarded] at mem
      rcases List.mem_append.mp mem with old | new
      · exact h.onceInTime.tooLate d old
      · obtain ⟨e, inGone, rfl⟩ := List.mem_map.mp new
        obtain ⟨own, late⟩ := pass.tooLate e inGone
        have recent := own.recent
        have exact_ : latest s.now e.rar.prachTti.ttiVal = e.tti :=
          latest_of_recent own.reported (by omega) (Nat.mod_mod ..)
        rw [exact_]
        exact late
    case once =>
      intro p
      have before := h.onceInTime.once p
      rw [pending, pendingOf_entries known, pass.once p] at before
      have sent : (s.sent ++ [SentRars.mk s.now out.sf.rarAllocs ueDb (ulSched cell ueDb out.sf)]).flatMap
          (fun f => f.infosOf p) = s.sentOf p ++
            ((out.sf.rarAllocs.flatMap (·.msg3Grant)).map (·.data)).filter fun info =>
              latest s.now info.prachTti = p := by
        rw [flatMap_append, flatMap_singleton]
        rfl
      change s.acceptedOf p = flatMap (fun f : SentRars => f.infosOf p) _ ++
        flatMap (fun d : Nat × PendingRar => pendingOf d.1 [d.2] p) _ ++ pendingOf _ out.pending p
      rw [sent, discarded, discardedOf_append fun e inGone => (pass.tooLate e inGone).1, pass.pending,
        pendingOf_entries known', before]
      change _ = s.sentOf p ++ _ ++ (s.discardedOf p ++ infosAt gone p) ++ infosAt left p
      rw [rars]
      rcases eq_nil_or_concat' ((((new.flatMap (·.msg3Grant)).map (·.data)).filter
        fun info => latest s.now info.prachTti = p)) with none_ | ⟨_, info, some_⟩
      · rw [none_]
        simp
      · have sentNow : info ∈ ((new.flatMap (·.msg3Grant)).map (·.data)).filter
            fun info => latest s.now info.prachTti = p := by
          rw [some_]
          simp
        obtain ⟨inData, here⟩ := List.mem_filter.mp sentNow
        obtain ⟨g, inGrants, rfl⟩ := List.mem_map.mp inData
        obtain ⟨rar, inNew, inRar⟩ := List.mem_flatMap.mp inGrants
        obtain ⟨p', -, early, -, own⟩ := pass.inWindow rar inNew
        obtain rfl : p' = p := (own g inRar).symm.trans (of_decide_eq_true here)
        rw [h.discardedOf_eq_nil early]
        simp only [append_assoc, nil_append]

theorem step (h : Inv cell s) {e : Event σ} (prompt : s.prompt e = true) (next : s.step grid cell e = some t) :
    Inv cell t := by
  cases e with
  | prach tti info => exact h.reports prompt next
  | tti free lastMsg3Prb ueDb => exact h.schedules next

end Inv

theorem msg3_of_reaches {allowed : Run → Event σ → Prop} {now : Nat} {s : Run}
    (run : Reaches (Run.step grid cell) allowed (Run.start now) s) : ∀ f ∈ s.sent,
      f.msg3 = msg3Of cell ((f.rars.flatMap (·.msg3Grant)).filter fun g => g.data.tempCrnti ∈ f.ueDb) := by
  apply run.invariant (P := fun s => ∀ f ∈ s.sent, f.msg3 = _)
  · simp [Run.start]
  · intro s e t h _ next
    cases e with
    | prach tti info =>
      obtain rfl := Option.some.inj next
      exact h
    | tti free lastMsg3Prb ueDb =>
      obtain rfl := Option.some.inj next
      intro f mem
      rcases List.mem_append.mp mem with old | new
      · exact h f old
      · rw [List.mem_singleton.mp new]
        exact ulSched_eq ueDb _

theorem onceInTime_of_reaches (grid : Grid σ) (cell : CellParams) {now : Nat} {s : Run}
    (run : Reaches (Run.step grid cell) (fun s e => s.prompt e = true) (Run.start now) s) :
    OnceInTime cell s ∧ ∀ f ∈ s.sent,
      f.msg3 = msg3Of cell ((f.rars.flatMap (·.msg3Grant)).filter fun g => g.data.tempCrnti ∈ f.ueDb) := by
  have inv : Inv cell s := run.invariant (.start now) fun _ _ _ h prompt next => h.step prompt next
  exact ⟨inv.onceInTime, msg3_of_reaches run⟩

def emptyGrid : Grid Unit := ⟨fun _ n => ⟨0, n⟩, fun _ _ _ => (.success, ()), fun _ _ => (), fun _ _ _ _ => true⟩

def fiveMhz : CellParams := ⟨25, 13, 2, 10, by decide, by decide, by decide⟩

def twoPrachs : List (Event Unit) :=
  [.prach 10 ⟨3, 0, 70, 7, 10⟩, .prach 10 ⟨9, 4, 71, 7, 10⟩, .tti () 2 [70, 71], .tti () 2 [70, 71]]

theorem onceInTime_of_reaches_twoPrachs :
    ∃ s, runAllowed (Run.step emptyGrid fiveMhz) (fun s e => s.prompt e) (Run.start 14) twoPrachs = some s ∧
      OnceInTime fiveMhz s ∧ ∀ f ∈ s.sent,
        f.msg3 = msg3Of fiveMhz ((f.rars.flatMap (·.msg3Grant)).filter fun g => g.data.tempCrnti ∈ f.ueDb) := by
  have runs : (runAllowed (Run.step emptyGrid fiveMhz) (fun s e => s.prompt e) (Run.start 14)
      twoPrachs).isSome = true := by decide +kernel
  obtain ⟨s, run⟩ := Option.isSome_iff_exists.mp runs
  exact ⟨s, run, onceInTime_of_reaches emptyGrid fiveMhz (reaches_of_runAllowed _ run)⟩

def unknownUe : List (Event Unit) := [.prach 10 ⟨3, 0, 70, 7, 10⟩, .tti () 2 []]

def lateReport : List (Event Unit) := [.prach 5 ⟨3, 0, 70, 7, 5⟩, .tti () 2 [70]]

theorem unknownUe_and_lateReport :
    (¬ ∀ (grid : Grid Unit) (cell : CellParams) (now : Nat) (s : Run),
      Reaches (Run.step grid cell) (fun s e => s.prompt e = true) (Run.start now) s →
        ∀ f ∈ s.sent, f.msg3 = msg3Of cell (f.rars.flatMap (·.msg3Grant))) ∧
    ¬ ∀ (grid : Grid Unit) (cell : CellParams) (now : Nat) (s : Run),
      Reaches (Run.step grid cell) (fun s e => s.ordered e = true) (Run.start now) s → OnceInTime cell s := by
  constructor
  · intro answered
    have unanswered : (runAllowed (Run.step emptyGrid fiveMhz) (fun s e => s.prompt e) (Run.start 14)
        unknownUe).any (fun s => s.sent.any fun f =>
          f.msg3 ≠ msg3Of fiveMhz (f.rars.flatMap (·.msg3Grant))) = true := by decide +kernel
    obtain ⟨s, run, missing⟩ := (Option.any_eq_true _ _).mp unanswered
    obtain ⟨f, mem, differs⟩ := List.any_eq_true.mp missing
    exact of_decide_eq_true differs (answered emptyGrid fiveMhz 14 s (reaches_of_runAllowed _ run) f mem)
  · intro inTime
    have early : (runAllowed (Run.step emptyGrid fiveMhz) (fun s e => s.ordered e) (Run.start 10253)
        lateReport).any (fun s => s.acceptedOf 5 ≠ s.sentOf 5 ++ s.discardedOf 5 ++
          pendingOf s.now s.pending 5) = true := by decide +kernel
    obtain ⟨s, run, lost⟩ := (Option.any_eq_true _ _).mp early
    exact of_decide_eq_true lost ((inTime emptyGrid fiveMhz 10253 s (reaches_of_runAllowed _ run)).once 5)

end IsrRan.Mac.Lte.RaSched
