import IsrRan.Mac.RaSched

namespace IsrRan.Mac.Lte.RaSched
open List TtiPoint SfSched

variable {σ : Type} {grid : Grid σ} {cell : CellParams}

def latest (now number : Nat) : Nat := now - (now + 10240 - number % 10240) % 10240

def pendingOf (now : Nat) (pending : List PendingRar) (p : Nat) : List RarInfo :=
  (pending.filter fun rar => latest now rar.prachTti.ttiVal = p).flatMap (·.msg3Grant)

def InWindow (cell : CellParams) (tti : Nat) (rar : RarAlloc) : Prop :=
  ∃ p, p + prachRarOffset ≤ tti ∧ tti < p + prachRarOffset + cell.prachRarWindow ∧ rar.rnti = 1 + p % 10 ∧
    ∀ g ∈ rar.msg3Grant, latest tti g.data.prachTti = p

def SideBySide (cell : CellParams) (rar : RarAlloc) : Prop :=
  ∃ start, start + 3 * rar.msg3Grant.length ≤ cell.nofPrb ∧
    rar.msg3Grant.map (fun g => rivToPrbs g.grant.rba cell.nofPrb) =
      (range rar.msg3Grant.length).map fun i => ⟨start + 3 * i, start + 3 * i + 3⟩

def msg3Of (cell : CellParams) (grants : List Msg3Grant) : List (Nat × PrbInterval) :=
  grants.map fun g => (g.data.tempCrnti, rivToPrbs g.grant.rba cell.nofPrb)

/-! ## Msg3 -/

theorem rivToPrbs_raType2ToRiv {lCrb rbStart nofPrb : Nat} (pos : 0 < lCrb) (inside : rbStart + lCrb ≤ nofPrb)
    (low : lCrb - 1 ≤ nofPrb / 2) : rivToPrbs (raType2ToRiv lCrb rbStart nofPrb) nofPrb =
      ⟨rbStart, rbStart + lCrb⟩ := by
  have small : rbStart < nofPrb := by omega
  have quotient : (nofPrb * (lCrb - 1) + rbStart) / nofPrb = lCrb - 1 := by
    rw [Nat.mul_add_div (by omega), Nat.div_eq_of_lt small, Nat.add_zero]
  have remainder : (nofPrb * (lCrb - 1) + rbStart) % nofPrb = rbStart := by
    rw [Nat.mul_add_mod, Nat.mod_eq_of_lt small]
  unfold raType2ToRiv
  rw [if_pos low]
  unfold rivToPrbs
  rw [quotient, remainder, if_neg (by omega), Nat.sub_add_cancel pos]

theorem ulSched_eq (ueDb : List Nat) (sf : SfSched σ) : ulSched cell ueDb sf =
    msg3Of cell ((sf.rarAllocs.flatMap (·.msg3Grant)).filter fun g => g.data.tempCrnti ∈ ueDb) := by
  unfold ulSched msg3Of
  induction sf.rarAllocs with
  | nil => rfl
  | cons rar later ih =>
    rw [flatMap_cons, flatMap_cons, ih]
    induction rar.msg3Grant with
    | nil => rfl
    | cons g grants ih' =>
      by_cases known : g.data.tempCrnti ∈ ueDb
      · simp [known, ih']
      · simp [known, ih']

theorem sideBySide_generateRarDci {rar : PendingRar} {rbgs : RbgInterval} {n start : Nat}
    (enough : n ≤ rar.msg3Grant.length) (inside : start + 3 * n ≤ cell.nofPrb) :
    SideBySide cell (generateRarDci cell rar rbgs n start) := by
  have wide := cell.prb_le
  have count : (generateRarDci cell rar rbgs n start).msg3Grant.length = n := by
    simp [generateRarDci, enough]
  refine ⟨start, by rw [count]; exact inside, ?_⟩
  apply ext_getElem
  · simp
  · intro i short _
    have below : i < n := by simpa [generateRarDci, enough] using short
    have prbs := @rivToPrbs_raType2ToRiv 3 (start + 3 * i) cell.nofPrb (by decide) (by omega) (by omega)
    simpa [generateRarDci] using prbs

/-! ## Allocating a RAR -/

structure Allocated (cell : CellParams) (sf : SfSched σ) (rar : PendingRar) (ret : AllocResult) (n : Nat)
    (sf' : SfSched σ) : Prop where
  tti : sf'.ttiTxDl = sf.ttiTxDl
  success : ret = .success → ∃ rbgs start, start + 3 * n ≤ cell.nofPrb ∧
    sf'.rarAllocs = sf.rarAllocs ++ [generateRarDci cell rar rbgs n start]
  failure : ret ≠ .success → sf'.rarAllocs = sf.rarAllocs

namespace Allocated
variable {sf sf' sf'' : SfSched σ} {rar : PendingRar} {ret : AllocResult} {n : Nat}

theorem failed {g : σ} {last : Nat} (failure : ret ≠ .success) :
    Allocated cell sf rar ret n { sf with grid := g, lastMsg3Prb := last } :=
  ⟨rfl, fun success => absurd success failure, fun _ => rfl⟩

theorem after {k : Nat} {before : AllocResult} (first : Allocated cell sf rar before k sf')
    (nothing : before ≠ .success) (h : Allocated cell sf' rar ret n sf'') : Allocated cell sf rar ret n sf'' := by
  have same := first.failure nothing
  constructor
  case tti => exact h.tti.trans first.tti
  case success =>
    intro success
    rw [← same]
    exact h.success success
  case failure => exact fun failure => (h.failure failure).trans same

theorem allocRar (sf : SfSched σ) (rar : PendingRar) (aggrLvl : Nat) (rbgs : RbgInterval) (n : Nat) :
    Allocated cell sf rar (sf.allocRar grid cell aggrLvl rar rbgs n).1 n
      (sf.allocRar grid cell aggrLvl rar rbgs n).2 := by
  unfold SfSched.allocRar
  split
  · exact failed (by simp)
  · dsimp only
    split
    · exact failed (by simp)
    · rename_i space
      split
      · rename_i g _
        split
        · refine ⟨rfl, fun _ => ⟨rbgs, sf.lastMsg3Prb, ?_, rfl⟩, fun failure => absurd rfl failure⟩
          have wide := cell.prb_le
          unfold maxMsg3Prb at space
          omega
        · exact failed (by simp)
      · rename_i ret g other _
        exact failed other

theorem tryRbgs (sf : SfSched σ) (rar : PendingRar) (n : Nat) (widths : List Nat) :
    Allocated cell sf rar (tryRbgs grid cell sf rar n widths).1 n (tryRbgs grid cell sf rar n widths).2 := by
  induction widths generalizing sf with
  | nil => exact failed (by simp [RaSched.tryRbgs])
  | cons nrbg later ih =>
    have one := @allocRar σ grid cell sf rar rarAggrLevel (grid.findEmptyRbgInterval sf.grid nrbg) n
    unfold RaSched.tryRbgs
    dsimp only
    split
    · generalize sf.allocRar grid cell rarAggrLevel rar (grid.findEmptyRbgInterval sf.grid nrbg) n = out at one
      obtain ⟨ret, sf'⟩ := out
      cases ret with
      | invalidCoderate => exact one.after (by simp) (ih sf')
      | _ => exact one
    · exact failed (by simp)

theorem allocateFrom (sf : SfSched σ) (rar : PendingRar) {last : AllocResult} (start : last ≠ .success) (n : Nat) :
    Allocated cell sf rar (allocateFrom grid cell sf rar last n).1 (allocateFrom grid cell sf rar last n).2.1
        (allocateFrom grid cell sf rar last n).2.2 ∧
      (allocateFrom grid cell sf rar last n).2.1 ≤ n := by
  induction n generalizing sf last with
  | zero => exact ⟨failed start, le_rfl⟩
  | succ n ih =>
    have attempt := @tryRbgs σ grid cell sf rar (n + 1) (range' 1 (cell.nofRbgs - 1))
    unfold RaSched.allocateFrom
    dsimp only
    split
    · exact ⟨attempt, le_rfl⟩
    · rename_i short
      have nothing : (RaSched.tryRbgs grid cell sf rar (n + 1) (range' 1 (cell.nofRbgs - 1))).1 ≠
          .success := by
        intro success
        rw [success] at short
        exact short ⟨by decide, by decide⟩
      obtain ⟨rest, bound⟩ := ih (RaSched.tryRbgs grid cell sf rar (n + 1) (range' 1 (cell.nofRbgs - 1))).2
        nothing
      exact ⟨attempt.after nothing rest, Nat.le_succ_of_le bound⟩

theorem allocatePendingRar (sf : SfSched σ) (rar : PendingRar) :
    Allocated cell sf rar (allocatePendingRar grid cell sf rar).1 (allocatePendingRar grid cell sf rar).2.1
        (allocatePendingRar grid cell sf rar).2.2 ∧
      (allocatePendingRar grid cell sf rar).2.1 ≤ rar.msg3Grant.length :=
  allocateFrom sf rar (by decide) _

end Allocated

/-! ## One pass over the pending RARs -/

structure Entry where
  tti : Nat
  infos : List RarInfo

namespace Entry

def rar (e : Entry) : PendingRar := ⟨1 + e.tti % 10240 % 10, .ofTti e.tti, e.infos⟩

structure Known (now : Nat) (e : Entry) : Prop where
  reported : e.tti ≤ now
  recent : now < e.tti + 5120
  number : ∀ info ∈ e.infos, info.prachTti = e.tti % 10240

end Entry

def infosAt (entries : List Entry) (p : Nat) : List RarInfo := (entries.filter (·.tti = p)).flatMap (·.infos)

variable {now p number : Nat} {e : Entry} {entries later : List Entry}

theorem latest_of_recent (reported : p ≤ now) (recent : now < p + 10240) (same : number % 10240 = p % 10240) :
    latest now number = p := by
  unfold latest
  omega

theorem infosAt_cons : infosAt (e :: entries) p = (if e.tti = p then e.infos else []) ++ infosAt entries p := by
  unfold infosAt
  by_cases here : e.tti = p
  · simp [here]
  · simp [here]

theorem infosAt_eq_nil (absent : ∀ e ∈ entries, e.tti ≠ p) : infosAt entries p = [] := by
  unfold infosAt
  rw [List.filter_eq_nil_iff.mpr (by simpa using absent)]
  rfl

theorem pendingOf_entries (known : ∀ e ∈ entries, e.Known now) :
    pendingOf now (entries.map Entry.rar) p = infosAt entries p := by
  induction entries with
  | nil => rfl
  | cons e later ih =>
    have rest := ih fun e mem => known e (mem_cons_of_mem _ mem)
    obtain ⟨reported, recent, -⟩ := known e mem_cons_self
    have own : latest now e.rar.prachTti.ttiVal = e.tti :=
      latest_of_recent reported (by omega) (Nat.mod_mod ..)
    rw [infosAt_cons, ← rest]
    unfold pendingOf
    rw [map_cons, filter_cons, own]
    by_cases here : e.tti = p
    · simp [here, Entry.rar]
    · simp [here]

theorem window_contains (known : e.Known now) :
    ((e.rar.prachTti.add prachRarOffset = .ofTti now ||
          (e.rar.prachTti.add prachRarOffset).lt (.ofTti now)) &&
        (ofTti now).lt (e.rar.prachTti.add (prachRarOffset + cell.prachRarWindow))) =
      decide (e.tti + prachRarOffset ≤ now ∧ now < e.tti + prachRarOffset + cell.prachRarWindow) := by
  obtain ⟨reported, recent, -⟩ := known
  have short := cell.window_le
  have offset : prachRarOffset = 3 := rfl
  change (((ofTti e.tti).add prachRarOffset = .ofTti now ||
    ((ofTti e.tti).add prachRarOffset).lt (.ofTti now)) && (ofTti now).lt
      ((ofTti e.tti).add (prachRarOffset + cell.prachRarWindow))) = _
  rw [ofTti_add (by omega), ofTti_add (by omega), lt_ofTti (by omega) (by omega),
    lt_ofTti (by omega) (by omega),
    decide_eq_decide.mpr (ofTti_eq_of_near (t := e.tti + prachRarOffset) (u := now) (by omega) (by omega)),
    ← Bool.decide_or, ← Bool.decide_and]
  apply decide_eq_decide.mpr
  omega

theorem window_passed (known : e.Known now) :
    (ofTti now).ge (e.rar.prachTti.add (prachRarOffset + cell.prachRarWindow)) =
      decide (e.tti + prachRarOffset + cell.prachRarWindow ≤ now) := by
  obtain ⟨reported, recent, -⟩ := known
  have short := cell.window_le
  have offset : prachRarOffset = 3 := rfl
  change (ofTti now).ge ((ofTti e.tti).add (prachRarOffset + cell.prachRarWindow)) = _
  rw [ofTti_add (by omega), ge_ofTti (by omega) (by omega), Nat.add_assoc]

theorem data_generateRarDci {rar : PendingRar} {rbgs : RbgInterval} {n start : Nat} :
    (generateRarDci cell rar rbgs n start).msg3Grant.map (·.data) = rar.msg3Grant.take n := by
  simp [generateRarDci, Function.comp_def]

structure PassOf (cell : CellParams) (now : Nat) (sf : SfSched σ) (entries : List Entry) (pass : Pass σ)
    (new : List RarAlloc) (gone left : List Entry) : Prop where
  rars : pass.sf.rarAllocs = sf.rarAllocs ++ new
  discarded : pass.discarded = gone.map Entry.rar
  pending : pass.pending = left.map Entry.rar
  once : ∀ p, infosAt entries p =
    ((new.flatMap (·.msg3Grant)).map (·.data)).filter (fun info => latest now info.prachTti = p) ++
      infosAt gone p ++ infosAt left p
  inWindow : ∀ rar ∈ new, InWindow cell now rar
  sideBySide : ∀ rar ∈ new, SideBySide cell rar
  tooLate : ∀ e ∈ gone, e.Known now ∧ e.tti + prachRarOffset + cell.prachRarWindow ≤ now
  early : ∀ e ∈ left, e.Known now ∧ now < e.tti + prachRarOffset + cell.prachRarWindow
  order : (left.map (·.tti)).Sublist (entries.map (·.tti))

namespace PassOf
variable {sf sf' : SfSched σ} {pass : Pass σ} {new : List RarAlloc} {gone left : List Entry}

theorem nothing (known : ∀ e ∈ entries, e.Known now)
    (early : ∀ e ∈ entries, now < e.tti + prachRarOffset + cell.prachRarWindow)
    (same : sf'.rarAllocs = sf.rarAllocs) :
    PassOf cell now sf entries ⟨sf', [], entries.map Entry.rar⟩ [] [] entries := by
  constructor
  case rars => rw [same, append_nil]
  case discarded => rfl
  case pending => rfl
  case once => exact fun p => rfl
  case inWindow => simp
  case sideBySide => simp
  case tooLate => simp
  case early => exact fun e mem => ⟨known e mem, early e mem⟩
  case order => exact List.Sublist.refl _

section
variable (h : PassOf cell now sf later pass new gone left)
include h

theorem nil_of_fresh (fresh : ∀ e ∈ later, e.tti ≠ p) :
    ((new.flatMap (·.msg3Grant)).map (·.data)).filter (fun info => latest now info.prachTti = p) = [] ∧
      infosAt gone p = [] ∧ infosAt left p = [] := by
  have nil := h.once p
  rw [infosAt_eq_nil fresh] at nil
  obtain ⟨front, last⟩ := List.append_eq_nil_iff.mp nil.symm
  obtain ⟨first, middle⟩ := List.append_eq_nil_iff.mp front
  exact ⟨first, middle, last⟩

theorem discard (known : e.Known now)
    (fresh : ∀ e' ∈ later, e'.tti ≠ e.tti)
    (late : e.tti + prachRarOffset + cell.prachRarWindow ≤ now) :
    PassOf cell now sf (e :: later) { pass with discarded := e.rar :: pass.discarded } new (e :: gone) left := by
  constructor
  case rars => exact h.rars
  case discarded => rw [map_cons, ← h.discarded]
  case pending => exact h.pending
  case inWindow => exact h.inWindow
  case sideBySide => exact h.sideBySide
  case early => exact h.early
  case order => exact h.order.cons _
  case tooLate =>
    intro e' mem
    rcases List.mem_cons.mp mem with rfl | rest
    · exact ⟨known, late⟩
    · exact h.tooLate e' rest
  case once =>
    intro p
    rw [infosAt_cons, infosAt_cons, h.once p]
    by_cases here : e.tti = p
    · obtain ⟨first, middle, last⟩ := h.nil_of_fresh (here ▸ fresh)
      rw [first]
      simp
    · simp [here]

end

theorem postpone (h : PassOf cell now sf' later pass new gone left) (known : e.Known now)
    (fresh : ∀ e' ∈ later, e'.tti ≠ e.tti)
    (early : now < e.tti + prachRarOffset + cell.prachRarWindow) (same : sf'.rarAllocs = sf.rarAllocs) :
    PassOf cell now sf (e :: later) { pass with pending := e.rar :: pass.pending } new gone (e :: left) := by
  constructor
  case rars => rw [← same, ← h.rars]
  case discarded => exact h.discarded
  case pending => rw [map_cons, ← h.pending]
  case inWindow => exact h.inWindow
  case sideBySide => exact h.sideBySide
  case tooLate => exact h.tooLate
  case order => exact h.order.cons_cons _
  case early =>
    intro e' mem
    rcases List.mem_cons.mp mem with rfl | rest
    · exact ⟨known, early⟩
    · exact h.early e' rest
  case once =>
    intro p
    rw [infosAt_cons, infosAt_cons, h.once p]
    by_cases here : e.tti = p
    · obtain ⟨first, middle, last⟩ := h.nil_of_fresh (here ▸ fresh)
      rw [first, middle]
      simp
    · simp [here]

structure SentOf (cell : CellParams) (now : Nat) (e : Entry) (n : Nat) (rar : RarAlloc) : Prop where
  inWindow : InWindow cell now rar
  sideBySide : SideBySide cell rar
  infos : ∀ p, (rar.msg3Grant.map (·.data)).filter (fun info => latest now info.prachTti = p) =
    if e.tti = p then e.infos.take n else []

theorem sentOf {rbgs : RbgInterval} {n start : Nat} (known : e.Known now) (enough : n ≤ e.infos.length)
    (inside : start + 3 * n ≤ cell.nofPrb)
    (window : e.tti + prachRarOffset ≤ now ∧ now < e.tti + prachRarOffset + cell.prachRarWindow) :
    SentOf cell now e n (generateRarDci cell e.rar rbgs n start) := by
  have data := @data_generateRarDci cell e.rar rbgs n start
  have own : ∀ info ∈ e.infos, latest now info.prachTti = e.tti := by
    intro info mem
    apply latest_of_recent known.reported (by have := known.recent; omega)
    rw [known.number info mem, Nat.mod_mod]
  constructor
  case inWindow =>
    refine ⟨e.tti, window.1, window.2, ?_, ?_⟩
    · change 1 + e.tti % 10240 % 10 = 1 + e.tti % 10
      omega
    · intro g mem
      apply own
      have sent : g.data ∈ e.infos.take n := by
        rw [show e.infos.take n = e.rar.msg3Grant.take n from rfl, ← data]
        exact mem_map_of_mem mem
      exact mem_of_mem_take sent
  case sideBySide => exact sideBySide_generateRarDci enough inside
  case infos =>
    intro p
    rw [data]
    change (e.infos.take n).filter _ = _
    by_cases here : e.tti = p
    · rw [if_pos here, filter_eq_self]
      intro info mem
      rw [own info (mem_of_mem_take mem)]
      exact decide_eq_true here
    · rw [if_neg here, filter_eq_nil_iff]
      intro info mem
      rw [own info (mem_of_mem_take mem)]
      simpa using here

theorem send {rar : RarAlloc} {n : Nat} (sent : SentOf cell now e n rar)
    (h : PassOf cell now sf' later pass new gone left)
    (added : sf'.rarAllocs = sf.rarAllocs ++ [rar]) (all : n = e.infos.length) :
    PassOf cell now sf (e :: later) pass (rar :: new) gone left := by
  constructor
  case rars => rw [h.rars, added, append_assoc, singleton_append]
  case discarded => exact h.discarded
  case pending => exact h.pending
  case tooLate => exact h.tooLate
  case early => exact h.early
  case order => exact h.order.cons _
  case inWindow =>
    intro r mem
    rcases List.mem_cons.mp mem with rfl | rest
    · exact sent.inWindow
    · exact h.inWindow r rest
  case sideBySide =>
    intro r mem
    rcases List.mem_cons.mp mem with rfl | rest
    · exact sent.sideBySide
    · exact h.sideBySide r rest
  case once =>
    intro p
    rw [infosAt_cons, flatMap_cons, map_append, filter_append, sent.infos p, all,
      take_length, h.once p]
    simp only [append_assoc]

theorem sendSome {rar : RarAlloc} {n : Nat} (sent : SentOf cell now e n rar)
    (known : ∀ e' ∈ e :: later, e'.Known now)
    (early : ∀ e' ∈ e :: later, now < e'.tti + prachRarOffset + cell.prachRarWindow)
    (added : sf'.rarAllocs = sf.rarAllocs ++ [rar]) :
    PassOf cell now sf (e :: later)
      ⟨sf', [], { e.rar with msg3Grant := e.rar.msg3Grant.drop n } :: later.map Entry.rar⟩ [rar] []
      ({ e with infos := e.infos.drop n } :: later) := by
  constructor
  case rars => exact added
  case discarded => rfl
  case pending => rfl
  case tooLate => simp
  case order => exact List.Sublist.refl _
  case inWindow =>
    intro r mem
    rw [List.mem_singleton.mp mem]
    exact sent.inWindow
  case sideBySide =>
    intro r mem
    rw [List.mem_singleton.mp mem]
    exact sent.sideBySide
  case early =>
    intro e' mem
    rcases List.mem_cons.mp mem with rfl | rest
    · have whole := known e mem_cons_self
      exact ⟨⟨whole.reported, whole.recent, fun info mem => whole.number info (mem_of_mem_drop mem)⟩,
        early e mem_cons_self⟩
    · exact ⟨known e' (mem_cons_of_mem _ rest), early e' (mem_cons_of_mem _ rest)⟩
  case once =>
    intro p
    rw [infosAt_cons, infosAt_cons, flatMap_singleton, sent.infos p]
    by_cases here : e.tti = p
    · simp only [here]
      change e.infos ++ infosAt later p = e.infos.take n ++ [] ++ (e.infos.drop n ++ infosAt later p)
      rw [append_nil, ← append_assoc, take_append_drop]
    · simp only [here]
      rfl

end PassOf

theorem dlSched_pass (sf : SfSched σ) (tti : sf.ttiTxDl = .ofTti now) (known : ∀ e ∈ entries, e.Known now)
    (sorted : entries.Pairwise fun e e' => e.tti < e'.tti) :
    ∃ new gone left, PassOf cell now sf entries (dlSched grid cell sf (entries.map Entry.rar)) new gone left := by
  induction entries generalizing sf with
  | nil => exact ⟨[], [], [], .nothing (by simp) (by simp) rfl⟩
  | cons e later ih =>
    have own := known e mem_cons_self
    have rest : ∀ e' ∈ later, e'.Known now := fun e' mem => known e' (mem_cons_of_mem _ mem)
    obtain ⟨behind, sorted⟩ := List.pairwise_cons.mp sorted
    have fresh : ∀ e' ∈ later, e'.tti ≠ e.tti := fun e' mem => (behind e' mem).ne'
    have earlier : now < e.tti + prachRarOffset + cell.prachRarWindow →
        ∀ e' ∈ e :: later, now < e'.tti + prachRarOffset + cell.prachRarWindow := by
      intro early e' mem
      rcases List.mem_cons.mp mem with rfl | rest
      · exact early
      · have := behind e' rest
        omega
    rw [map_cons, dlSched]
    rw [tti, window_contains own, window_passed own]
    by_cases window : e.tti + prachRarOffset ≤ now ∧ now < e.tti + prachRarOffset + cell.prachRarWindow
    · rw [decide_eq_true window, if_neg (by decide)]
      obtain ⟨allocated, enough⟩ := @Allocated.allocatePendingRar σ grid cell sf e.rar
      generalize allocatePendingRar grid cell sf e.rar = out at allocated enough
      obtain ⟨ret, n, sf'⟩ := out
      have tti' : sf'.ttiTxDl = .ofTti now := allocated.tti.trans tti
      cases ret with
      | success =>
        obtain ⟨rbgs, start, inside, added⟩ := allocated.success rfl
        have sent := @PassOf.sentOf cell now e rbgs n start own enough inside window
        dsimp only
        split
        · rename_i all
          obtain ⟨new, gone, left, pass⟩ := ih sf' tti' rest sorted
          exact ⟨_, gone, left, pass.send sent added all⟩
        · exact ⟨_, _, _, PassOf.sendSome sent known (earlier window.2) added⟩
      | noCchSpace =>
        obtain ⟨new, gone, left, pass⟩ := ih sf' tti' rest sorted
        exact ⟨new, gone, _, pass.postpone own fresh window.2 (allocated.failure (by simp))⟩
      | _ => exact ⟨[], [], _, PassOf.nothing known (earlier window.2) (allocated.failure (by simp))⟩
    · rw [decide_eq_false window]
      by_cases late : e.tti + prachRarOffset + cell.prachRarWindow ≤ now
      · rw [decide_eq_true late]
        obtain ⟨new, gone, left, pass⟩ := ih sf tti rest sorted
        exact ⟨new, _, left, pass.discard own fresh late⟩
      · rw [decide_eq_false late]
        exact ⟨[], [], _, PassOf.nothing known (earlier (by omega)) rfl⟩

end IsrRan.Mac.Lte.RaSched
