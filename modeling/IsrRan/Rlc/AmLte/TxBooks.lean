import IsrRan.Rlc.AmLte.TxWindow

namespace IsrRan.Rlc.AmLte
open Function List

/-- An SDU on its way: the SNs of the PDUs that carry bytes of it and are not acknowledged, and if its last
byte is in a PDU. -/
structure Flight where
  pending : List Nat
  finished : Bool
  deriving DecidableEq, Repr

abbrev Flights := Nat → Option Flight

namespace Tx
open Adt BufferedPdcpPduList

variable {tx tx' : Tx} {flights : Flights} {sn p id : Nat} {flight : Flight}

def segmentsAt (tx : Tx) (sn : Nat) : List Nat := ((tx.txWindow.find sn).map AmdTxPdu.segments).getD []

theorem segmentsAt_of_find {pdu : TxPdu} (found : tx.txWindow.find sn = some pdu) :
    tx.segmentsAt sn = pdu.segments := by
  rw [segmentsAt, found]
  rfl

theorem segmentsAt_of_absent (absent : tx.txWindow.find sn = none) : tx.segmentsAt sn = [] := by
  rw [segmentsAt, absent]
  rfl

structure Books (tx : Tx) (flights : Flights) : Prop where
  free : tx.segmentPool.FreeInv
  rlc : ∀ sn id, (tx.segmentPool.segments id).rlcSn = some sn ↔ id ∈ tx.segmentsAt sn
  once : ∀ sn, (tx.segmentsAt sn).Nodup
  pdcp : ∀ p id, (tx.segmentPool.segments id).pdcpSn = some p ↔
    (tx.undeliveredSdus.getPdu p).sn = some p ∧ id ∈ (tx.undeliveredSdus.getPdu p).list
  tracked : ∀ p, (tx.undeliveredSdus.getPdu p).sn = some p ↔ (flights p).isSome = true
  fully : ∀ p flight, flights p = some flight →
    (tx.undeliveredSdus.getPdu p).fullyTxed = flight.finished
  pending : ∀ p flight, flights p = some flight →
    (tx.undeliveredSdus.getPdu p).list.map (fun id => (tx.segmentPool.segments id).rlcSn) =
      flight.pending.map some ∧ flight.pending.Nodup
  tidy : tx.undeliveredSdus.Tidy

namespace Books

theorem init (cfg : TxConfig) : Books { cfg } fun _ => none where
  free := SegmentPool.freeInv_init
  rlc := fun sn id => by
    change (none : Option Nat) = some sn ↔ id ∈ []
    simp
  once := fun sn => .nil
  pdcp := fun p id => by
    change (none : Option Nat) = some p ↔ (none : Option Nat) = some p ∧ id ∈ []
    simp
  tracked := fun p => by
    change (none : Option Nat) = some p ↔ _
    simp
  fully := fun p flight flying => by contradiction
  pending := fun p flight flying => by contradiction
  tidy := tidy_init

section
variable (h : Books tx flights)
include h

theorem congr (pool : tx'.segmentPool = tx.segmentPool)
    (undelivered : tx'.undeliveredSdus = tx.undeliveredSdus)
    (window : ∀ sn, tx'.segmentsAt sn = tx.segmentsAt sn) : Books tx' flights where
  free := by rw [pool]; exact h.free
  rlc := by simp only [pool, window]; exact h.rlc
  once := by simp only [window]; exact h.once
  pdcp := by simp only [pool, undelivered]; exact h.pdcp
  tracked := by simp only [undelivered]; exact h.tracked
  fully := by simp only [undelivered]; exact h.fully
  pending := by simp only [pool, undelivered]; exact h.pending
  tidy := by rw [undelivered]; exact h.tidy

theorem keeps (keeps : Keeps tx tx') : Books tx' flights := by
  refine h.congr keeps.segmentPool keeps.undeliveredSdus fun sn => ?_
  have same := congrArg (Option.map AmdTxPdu.segments) (keeps.window sn)
  rw [Option.map_map, Option.map_map] at same
  exact congrArg (Option.getD · []) same

section
variable (flying : flights p = some flight)
include flying

theorem list_nodup :
    (tx.undeliveredSdus.getPdu p).list.Nodup := by
  obtain ⟨same, nodup⟩ := h.pending p flight flying
  have mapped := nodup.map (Option.some_injective Nat)
  rw [← same] at mapped
  exact mapped.of_map _

theorem info_sn :
    (tx.undeliveredSdus.getPdu p).sn = some p := (h.tracked p).mpr (by rw [flying]; rfl)

theorem slot_ne {q : Nat} (other : q ≠ p)
    (tracked : (flights q).isSome = true) : slot q ≠ slot p := by
  intro same
  have mine := h.info_sn flying
  have its := (h.tracked q).mpr tracked
  unfold getPdu at mine its
  rw [same, mine] at its
  exact other (Option.some.inj its).symm

theorem mem_pending :
    sn ∈ flight.pending ↔ ∃ id, (tx.segmentPool.segments id).rlcSn = some sn ∧
      (tx.segmentPool.segments id).pdcpSn = some p := by
  obtain ⟨same, _⟩ := h.pending p flight flying
  have mem : sn ∈ flight.pending ↔ some sn ∈ flight.pending.map some := by simp
  rw [mem, ← same, List.mem_map]
  constructor
  · rintro ⟨id, listed, rlc⟩
    exact ⟨id, rlc, (h.pdcp p id).mpr ⟨h.info_sn flying, listed⟩⟩
  · rintro ⟨id, rlc, pdcp⟩
    exact ⟨id, ((h.pdcp p id).mp pdcp).2, rlc⟩

theorem contains_of_mem (mem : sn ∈ flight.pending) :
    tx.txWindow.contains sn = true := by
  obtain ⟨id, rlc, _⟩ := (h.mem_pending flying).mp mem
  have listed := (h.rlc sn id).mp rlc
  cases found : tx.txWindow.find sn with
  | none =>
    rw [segmentsAt_of_absent found] at listed
    contradiction
  | some pdu => exact CircularMap.contains_eq_true.mpr ⟨pdu, found⟩

end

theorem update (alone : ∀ q ≠ p, slot q = slot p → flights q = none)
    {info : PdcpPduInfo} {count : Nat} {now : Option Flight}
    (free : tx'.segmentPool.FreeInv)
    (rlc : ∀ sn id, (tx'.segmentPool.segments id).rlcSn = some sn ↔ id ∈ tx'.segmentsAt sn)
    (once : ∀ sn, (tx'.segmentsAt sn).Nodup)
    (undelivered : tx'.undeliveredSdus = ⟨Function.update tx.undeliveredSdus.pdus (slot p) info, count⟩)
    (valid : info.sn = now.map fun _ => p) (blank : now = none → info = {})
    (own : ∀ id, (tx'.segmentPool.segments id).pdcpSn = some p ↔ info.sn = some p ∧ id ∈ info.list)
    (others : ∀ q ≠ p, ∀ id, (tx'.segmentPool.segments id).pdcpSn = some q ↔
      (tx.segmentPool.segments id).pdcpSn = some q)
    (fully : ∀ flight, now = some flight → info.fullyTxed = flight.finished)
    (pending : ∀ flight, now = some flight →
      info.list.map (fun id => (tx'.segmentPool.segments id).rlcSn) = flight.pending.map some ∧
        flight.pending.Nodup)
    (same : ∀ q ≠ p, ∀ id, (tx.segmentPool.segments id).pdcpSn = some q →
      (tx'.segmentPool.segments id).rlcSn = (tx.segmentPool.segments id).rlcSn) :
    Books tx' (Function.update flights p now) := by
  have get (q : Nat) : tx'.undeliveredSdus.getPdu q =
      if slot q = slot p then info else tx.undeliveredSdus.getPdu q := by
    rw [undelivered]
    exact getPdu_update _ _ _ _ _
  have elsewhere {q : Nat} {flight : Flight} (other : q ≠ p) (flying : flights q = some flight) :
      tx'.undeliveredSdus.getPdu q = tx.undeliveredSdus.getPdu q := by
    rw [get, if_neg fun place => by rw [alone q other place] at flying; contradiction]
  have trackedNow (q : Nat) (other : q ≠ p) : (tx'.undeliveredSdus.getPdu q).sn = some q ↔
      (tx.undeliveredSdus.getPdu q).sn = some q := by
    rw [get]
    split
    · rename_i place
      have old : (tx.undeliveredSdus.getPdu q).sn ≠ some q := by simp [h.tracked, alone q other place]
      have new : info.sn ≠ some q := by
        rw [valid]
        cases now <;> simp [Ne.symm other]
      simp [old, new]
    · rfl
  refine ⟨free, rlc, once, fun q id => ?_, fun q => ?_, fun q flight flying => ?_, fun q flight flying => ?_, ?_⟩
  · by_cases mine : q = p
    · rw [mine, get, if_pos rfl]
      exact own id
    · rw [others q mine, trackedNow q mine, h.pdcp]
      refine and_congr_right fun held => ?_
      have tracked := (h.tracked q).mp held
      obtain ⟨flight, flying⟩ := Option.isSome_iff_exists.mp tracked
      rw [elsewhere mine flying]
  · by_cases mine : q = p
    · rw [mine, get, if_pos rfl, valid]
      cases now <;> simp
    · rw [trackedNow q mine, update_of_ne mine]
      exact h.tracked q
  · by_cases mine : q = p
    · rw [mine, update_self] at flying
      rw [mine, get, if_pos rfl]
      exact fully flight flying
    · rw [update_of_ne mine] at flying
      rw [elsewhere mine flying]
      exact h.fully q flight flying
  · by_cases mine : q = p
    · rw [mine, update_self] at flying
      rw [mine, get, if_pos rfl]
      exact pending flight flying
    · rw [update_of_ne mine] at flying
      obtain ⟨mapped, nodup⟩ := h.pending q flight flying
      rw [elsewhere mine flying, ← mapped]
      refine ⟨map_congr_left fun id listed => ?_, nodup⟩
      exact same q mine id ((h.pdcp q id).mpr ⟨h.info_sn flying, listed⟩)
  · rw [undelivered]
    refine h.tidy.update ?_ count
    cases now with
    | none => exact .inr (blank rfl)
    | some flight => exact .inl (by rw [valid]; rfl)

theorem alone (flying : flights p = some flight) :
    ∀ q ≠ p, slot q = slot p → flights q = none := by
  intro q other place
  cases its : flights q with
  | none => rfl
  | some flight' => exact absurd place (h.slot_ne flying other (by rw [its]; rfl))

theorem place_free (apart : ∀ q, (flights q).isSome = true → q % bufferedPdusSize ≠ p % bufferedPdusSize) :
    (tx.undeliveredSdus.getPdu p).sn = none := by
  cases held : (tx.undeliveredSdus.getPdu p).sn with
  | none => rfl
  | some q =>
    have place : slot q = slot p := h.tidy.placed _ q held
    have tracked : (tx.undeliveredSdus.getPdu q).sn = some q := by
      unfold getPdu at held ⊢
      rw [place, held]
    exact absurd (mod_eq_of_slot_eq place) (apart q ((h.tracked q).mp tracked))

theorem storeSduInfo_eq (free : (tx.undeliveredSdus.getPdu p).sn = none) :
    tx.storeSduInfo p = { tx with
      undeliveredSdus :=
        ⟨Function.update tx.undeliveredSdus.pdus (slot p) { sn := some p }, tx.undeliveredSdus.count + 1⟩ } := by
  have blank : tx.undeliveredSdus.getPdu p = {} := h.tidy.blank _ free
  unfold Tx.storeSduInfo hasPdcpSn addPdcpSdu
  simp only [blank]
  rfl

theorem storeSduInfo (free : (tx.undeliveredSdus.getPdu p).sn = none) :
    Books (tx.storeSduInfo p) (Function.update flights p (some ⟨[], false⟩)) := by
  have nobody (q : Nat) (place : slot q = slot p) : (tx.undeliveredSdus.getPdu q).sn ≠ some q := by
    unfold getPdu at free ⊢
    rw [place, free]
    simp
  rw [h.storeSduInfo_eq free]
  refine h.update (fun q _ place => ?_) h.free h.rlc h.once rfl rfl (by simp) (fun id => ?_) (fun q _ id => Iff.rfl)
    (by simp) (by simp) (fun q _ id _ => rfl)
  · simpa [h.tracked] using nobody q place
  · rw [h.pdcp]
    simp [nobody p rfl]

theorem makeSegment (here : tx.txWindow.contains sn = true)
    (room : tx.segmentPool.hasSegments = true) (flying : flights p = some flight)
    (fresh : sn ∉ flight.pending) :
    Books (tx.makeSegment sn p) (Function.update flights p (some { flight with pending := sn :: flight.pending })) := by
  obtain ⟨pdu, found⟩ := CircularMap.contains_eq_true.mp here
  obtain ⟨id, pool, taken, free, unused, segments⟩ := @SegmentPool.FreeInv.take _ h.free sn p room
  have made : tx.makeSegment sn p = { tx with
      segmentPool := pool
      txWindow := tx.txWindow.assign sn { pdu with segments := id :: pdu.segments }
      undeliveredSdus := tx.undeliveredSdus.setPdu p
        { tx.undeliveredSdus.getPdu p with list := id :: (tx.undeliveredSdus.getPdu p).list } } := by
    unfold Tx.makeSegment
    rw [taken, found]
  have unlisted (sn' : Nat) : id ∉ tx.segmentsAt sn' := by
    intro mem
    have rlc := (h.rlc sn' id).mpr mem
    rw [unused] at rlc
    contradiction
  have unnamed (q : Nat) : (tx.segmentPool.segments id).pdcpSn ≠ some q := by
    rw [unused]
    simp
  have at_ (sn' : Nat) : (tx.makeSegment sn p).segmentsAt sn' =
      if sn' = sn then id :: tx.segmentsAt sn else tx.segmentsAt sn' := by
    rw [made]
    unfold segmentsAt
    rw [CircularMap.find_assign here]
    split
    · rw [found]
      rfl
    · rfl
  have at_id : (tx.makeSegment sn p).segmentPool.segments id = { rlcSn := some sn, pdcpSn := some p } := by
    rw [made]
    rw [segments, update_self]
  have elsewhere {id' : Nat} (other : id' ≠ id) :
      (tx.makeSegment sn p).segmentPool.segments id' = tx.segmentPool.segments id' := by
    rw [made]
    rw [segments, update_of_ne other]
  have sn_eq := h.info_sn flying
  obtain ⟨mapped, nodup⟩ := h.pending p flight flying
  have undelivered : (tx.makeSegment sn p).undeliveredSdus = ⟨Function.update tx.undeliveredSdus.pdus (slot p)
      { tx.undeliveredSdus.getPdu p with list := id :: (tx.undeliveredSdus.getPdu p).list },
      tx.undeliveredSdus.count⟩ := by
    rw [made]
    rfl
  refine h.update (h.alone flying) (by rw [made]; exact free) (fun sn' id' => ?_) (fun sn' => ?_) undelivered
    sn_eq (by simp) (fun id' => ?_) (fun q other id' => ?_) (fun flight' eq => ?_) (fun flight' eq => ?_)
    (fun q other id' named => ?_)
  · rw [at_]
    by_cases new : id' = id
    · rw [new, at_id]
      split
      · rename_i own
        simp [own]
      · rename_i other
        simp [unlisted sn', Ne.symm other]
    · rw [elsewhere new, h.rlc]
      split
      · rename_i own
        simp [own, new]
      · rfl
  · rw [at_]
    split
    · exact List.nodup_cons.mpr ⟨unlisted sn, h.once sn⟩
    · exact h.once sn'
  · by_cases new : id' = id
    · rw [new, at_id]
      simp [sn_eq]
    · rw [elsewhere new, h.pdcp]
      simp [new]
  · by_cases new : id' = id
    · rw [new, at_id]
      simp [Ne.symm other, unnamed q]
    · rw [elsewhere new]
  · cases eq
    exact h.fully p flight flying
  · cases eq
    refine ⟨?_, List.nodup_cons.mpr ⟨fresh, nodup⟩⟩
    rw [map_cons, map_cons, at_id, ← mapped]
    congr 1
    refine map_congr_left fun id' listed => ?_
    have other : id' ≠ id := by
      rintro rfl
      exact unnamed p ((h.pdcp p id').mpr ⟨sn_eq, listed⟩)
    rw [elsewhere other]
  · have new : id' ≠ id := by
      rintro rfl
      exact unnamed q named
    rw [elsewhere new]

theorem setFullyTxed (flying : flights p = some flight) :
    Books (tx.setFullyTxed p) (Function.update flights p (some { flight with finished := true })) := by
  refine h.update (h.alone flying) h.free h.rlc h.once rfl (h.info_sn flying) (by simp) (h.pdcp p)
    (fun q _ id => Iff.rfl) (fun flight' eq => ?_) (fun flight' eq => ?_) (fun q _ id _ => rfl)
  · cases eq
    rfl
  · cases eq
    exact h.pending p flight flying

theorem clearPdcpSdu (flying : flights p = some flight) :
    Books (tx.clearPdcpSdu p) (Function.update flights p none) := by
  have sn_eq := h.info_sn flying
  have cleared : tx.clearPdcpSdu p = { tx with
      segmentPool := tx.segmentPool.releasePdcpSns (tx.undeliveredSdus.getPdu p).list
      undeliveredSdus := ⟨Function.update tx.undeliveredSdus.pdus (slot p) {}, tx.undeliveredSdus.count - 1⟩ } := by
    have valid : (tx.undeliveredSdus.getPdu p).sn.isSome = true := by rw [sn_eq]; rfl
    unfold Tx.clearPdcpSdu BufferedPdcpPduList.clearPdcpSdu
    rw [if_pos valid]
    rfl
  have listed (id : Nat) : id ∈ (tx.undeliveredSdus.getPdu p).list ↔ (tx.segmentPool.segments id).pdcpSn = some p := by
    rw [h.pdcp, sn_eq]
    simp
  have segments (id : Nat) : (tx.clearPdcpSdu p).segmentPool.segments id =
      if (tx.segmentPool.segments id).pdcpSn = some p then { tx.segmentPool.segments id with pdcpSn := none }
      else tx.segmentPool.segments id := by
    rw [cleared]
    rw [SegmentPool.segments_releasePdcpSns]
    simp only [listed]
  have rlcSn (id : Nat) : ((tx.clearPdcpSdu p).segmentPool.segments id).rlcSn = (tx.segmentPool.segments id).rlcSn := by
    rw [segments]
    split <;> rfl
  refine h.update (h.alone flying) ?_ (fun sn id => ?_) ?_ (by rw [cleared]) rfl (fun _ => rfl) (fun id => ?_)
    (fun q other id => ?_) (fun flight' eq => by contradiction) (fun flight' eq => by contradiction)
    (fun q _ id _ => rlcSn id)
  · rw [cleared]
    exact h.free.releasePdcpSns (h.list_nodup flying) fun id mem => ⟨p, (listed id).mp mem⟩
  · rw [rlcSn]
    exact h.rlc sn id
  · rw [cleared]
    exact h.once
  · rw [segments]
    split
    · simp
    · rename_i other
      simp [other]
  · rw [segments]
    split
    · rename_i own
      simp [own, Ne.symm other]
    · rfl

theorem removePdu (done : ∀ id ∈ tx.segmentsAt sn, (tx.segmentPool.segments id).pdcpSn = none) :
    Books (tx.removePdu sn) flights := by
  cases found : tx.txWindow.find sn with
  | none =>
    have same : tx.removePdu sn = tx := by
      unfold Tx.removePdu
      rw [found]
    rw [same]
    exact h
  | some pdu =>
    have list := segmentsAt_of_find found
    have removed : tx.removePdu sn = { tx with
        txWindow := tx.txWindow.erase sn
        segmentPool := tx.segmentPool.releasePdu (tx.segmentsAt sn) } := by
      unfold Tx.removePdu
      rw [found, list]
    have segments (id : Nat) : (tx.removePdu sn).segmentPool.segments id =
        if id ∈ tx.segmentsAt sn then { tx.segmentPool.segments id with rlcSn := none }
        else tx.segmentPool.segments id := by
      rw [removed]
      exact SegmentPool.segments_releasePdu _ _ _
    have pdcpSn (id : Nat) : ((tx.removePdu sn).segmentPool.segments id).pdcpSn =
        (tx.segmentPool.segments id).pdcpSn := by
      rw [segments]
      split <;> rfl
    have at_ (sn' : Nat) : (tx.removePdu sn).segmentsAt sn' = if sn' = sn then [] else tx.segmentsAt sn' := by
      unfold segmentsAt
      rw [find_removePdu]
      split <;> rfl
    have undelivered : (tx.removePdu sn).undeliveredSdus = tx.undeliveredSdus := by rw [removed]
    refine ⟨?_, fun sn' id => ?_, fun sn' => ?_, fun q id => ?_, ?_, ?_, fun q flight flying => ?_, ?_⟩
    · rw [removed]
      exact h.free.releasePdu (h.once sn) fun id mem => ⟨sn, (h.rlc sn id).mpr mem⟩
    · rw [segments, at_]
      by_cases mem : id ∈ tx.segmentsAt sn
      · have rlc := (h.rlc sn id).mpr mem
        rw [if_pos mem]
        split
        · simp
        · rename_i other
          rw [← h.rlc, rlc]
          simp [Ne.symm other]
      · rw [if_neg mem, h.rlc]
        split
        · rename_i own
          simp [own, mem]
        · rfl
    · rw [at_]
      split
      · exact .nil
      · exact h.once sn'
    · rw [pdcpSn, undelivered]
      exact h.pdcp q id
    · rw [undelivered]
      exact h.tracked
    · rw [undelivered]
      exact h.fully
    · obtain ⟨mapped, nodup⟩ := h.pending q flight flying
      rw [undelivered, ← mapped]
      refine ⟨map_congr_left fun id listed => ?_, nodup⟩
      have named := (h.pdcp q id).mpr ⟨h.info_sn flying, listed⟩
      rw [segments, if_neg fun mem => by rw [done id mem] at named; contradiction]
    · rw [undelivered]
      exact h.tidy

theorem emptyQueue (current : ∀ sdu, tx.txSdu = some sdu → (flights sdu.pdcpSn).isSome = true) :
    Books tx.emptyQueue (match tx.txSdu with
      | none => flights
      | some sdu => Function.update flights sdu.pdcpSn none) := by
  unfold Tx.emptyQueue
  cases sending : tx.txSdu with
  | none => exact h.congr rfl rfl fun _ => rfl
  | some sdu =>
    obtain ⟨flight, flying⟩ := Option.isSome_iff_exists.mp (current sdu sending)
    have emptied : Books { tx with txSduQueue := [] } flights := h.congr rfl rfl fun _ => rfl
    exact (emptied.clearPdcpSdu flying).congr rfl rfl fun _ => rfl

theorem mem_listed (report : flights statusReportSn = none) :
    id ∈ tx.undeliveredSdus.listed ↔ ∃ p, (tx.segmentPool.segments id).pdcpSn = some p := by
  unfold listed
  rw [mem_flatMap]
  constructor
  · rintro ⟨k, _, listed⟩
    obtain ⟨p, held⟩ := h.tidy.sn_of_listed listed
    refine ⟨p, (h.pdcp p id).mpr ?_⟩
    unfold getPdu
    rw [h.tidy.placed _ p held]
    exact ⟨held, listed⟩
  · rintro ⟨p, named⟩
    obtain ⟨held, listed⟩ := (h.pdcp p id).mp named
    have other : p ≠ statusReportSn := by
      rintro rfl
      have tracked := (h.tracked _).mp held
      rw [report] at tracked
      contradiction
    refine ⟨p % bufferedPdusSize, List.mem_range.mpr (Nat.mod_lt _ (by decide)), ?_⟩
    unfold getPdu at listed
    rwa [slot_of_ne other] at listed

theorem listed_nodup : tx.undeliveredSdus.listed.Nodup := by
  have named {k id : Nat} (listed : id ∈ (tx.undeliveredSdus.pdus (some k)).list) :
      ∃ p, slot p = some k ∧ (tx.segmentPool.segments id).pdcpSn = some p := by
    obtain ⟨p, held⟩ := h.tidy.sn_of_listed listed
    have place := h.tidy.placed _ p held
    refine ⟨p, place, (h.pdcp p id).mpr ?_⟩
    unfold getPdu
    rw [place]
    exact ⟨held, listed⟩
  refine List.nodup_flatMap.mpr ⟨fun k _ => ?_, List.nodup_range.imp fun {k k'} other => ?_⟩
  · cases held : (tx.undeliveredSdus.pdus (some k)).sn with
    | none =>
      rw [h.tidy.blank _ held]
      exact .nil
    | some p =>
      have place := h.tidy.placed _ p held
      have its : tx.undeliveredSdus.getPdu p = tx.undeliveredSdus.pdus (some k) := by
        unfold getPdu
        rw [place]
      obtain ⟨flight, flying⟩ := Option.isSome_iff_exists.mp ((h.tracked p).mp (by rw [its]; exact held))
      rw [← its]
      exact h.list_nodup flying
  · refine fun id first second => other ?_
    obtain ⟨p, place, its⟩ := named first
    obtain ⟨p', place', its'⟩ := named second
    rw [its] at its'
    rw [Option.some.inj its'] at place
    exact Option.some.inj (place.symm.trans place')

end

def windowSegments (tx : Tx) : List Nat := tx.txWindow.entries.flatMap fun entry => entry.2.segments

theorem mem_windowSegments (h : Books tx flights) (wellFormed : tx.txWindow.WellFormed) :
    id ∈ windowSegments tx ↔ ∃ sn, (tx.segmentPool.segments id).rlcSn = some sn := by
  unfold windowSegments
  rw [mem_flatMap]
  constructor
  · rintro ⟨⟨sn, pdu⟩, there, listed⟩
    refine ⟨sn, (h.rlc sn id).mpr ?_⟩
    rw [segmentsAt_of_find ((wellFormed.mem_entries (by decide)).mp there)]
    exact listed
  · rintro ⟨sn, rlc⟩
    have listed := (h.rlc sn id).mp rlc
    cases found : tx.txWindow.find sn with
    | none =>
      rw [segmentsAt_of_absent found] at listed
      contradiction
    | some pdu =>
      rw [segmentsAt_of_find found] at listed
      exact ⟨(sn, pdu), (wellFormed.mem_entries (by decide)).mpr found, listed⟩

theorem windowSegments_nodup (h : Books tx flights) (wellFormed : tx.txWindow.WellFormed) :
    (windowSegments tx).Nodup := by
  have listed {entry : Nat × TxPdu} (there : entry ∈ tx.txWindow.entries) :
      tx.segmentsAt entry.1 = entry.2.segments :=
    segmentsAt_of_find ((wellFormed.mem_entries (by decide)).mp there)
  refine List.nodup_flatMap.mpr ⟨fun entry there => listed there ▸ h.once entry.1, ?_⟩
  refine wellFormed.entries_keys.imp_of_mem fun there there' other id first second => other ?_
  dsimp only at first second
  rw [← listed there] at first
  rw [← listed there'] at second
  exact Option.some.inj (((h.rlc _ id).mpr first).symm.trans ((h.rlc _ id).mpr second))

theorem cleared (h : Books tx flights) (wellFormed : tx.txWindow.WellFormed) (report : flights statusReportSn = none)
    (pool : tx'.segmentPool = (tx.segmentPool.releasePdu (windowSegments tx)).releasePdcpSns tx.undeliveredSdus.listed)
    (undelivered : tx'.undeliveredSdus = (tx.undeliveredSdus.clear tx.segmentPool).1) (window : tx'.txWindow = {}) :
    Books tx' fun _ => none := by
  have segments (id : Nat) : tx'.segmentPool.segments id = {} := by
    rw [pool, SegmentPool.segments_releasePdcpSns, SegmentPool.segments_releasePdu]
    have rlc : id ∉ windowSegments tx → (tx.segmentPool.segments id).rlcSn = none := fun absent =>
      Option.eq_none_iff_forall_ne_some.mpr fun sn held =>
        absent ((h.mem_windowSegments wellFormed).mpr ⟨sn, held⟩)
    have pdcp : id ∉ tx.undeliveredSdus.listed → (tx.segmentPool.segments id).pdcpSn = none := fun absent =>
      Option.eq_none_iff_forall_ne_some.mpr fun p held => absent ((h.mem_listed report).mpr ⟨p, held⟩)
    cases seg : tx.segmentPool.segments id with
    | mk rlcSn pdcpSn =>
      split <;> split <;> simp_all
  have reportInfo : tx.undeliveredSdus.pdus none = {} := by
    refine h.tidy.blank _ (Option.eq_none_iff_forall_ne_some.mpr fun p held => ?_)
    have place := h.tidy.placed _ p held
    have own : p = statusReportSn := by
      by_contra other
      rw [slot_of_ne other] at place
      contradiction
    have tracked := (h.tracked p).mp (by unfold getPdu; rw [place]; exact held)
    rw [own, report] at tracked
    contradiction
  have infos (place : Option Nat) : tx'.undeliveredSdus.pdus place = {} := by
    rw [undelivered]
    cases place with
    | none => exact reportInfo
    | some k => rfl
  have absent (sn : Nat) : tx'.segmentsAt sn = [] := by
    unfold segmentsAt
    rw [window]
    rfl
  refine ⟨?_, fun sn id => ?_, fun sn => ?_, fun p id => ?_, fun p => ?_, fun p flight flying => by contradiction,
    fun p flight flying => by contradiction, ⟨fun place _ => infos place, fun place p held => ?_⟩⟩
  · rw [pool]
    have released := h.free.releasePdu (h.windowSegments_nodup wellFormed) fun id mem =>
      (h.mem_windowSegments wellFormed).mp mem
    refine released.releasePdcpSns h.listed_nodup fun id mem => ?_
    obtain ⟨p, named⟩ := (h.mem_listed report).mp mem
    refine ⟨p, ?_⟩
    rw [SegmentPool.segments_releasePdu]
    split <;> exact named
  · rw [segments, absent]
    simp
  · rw [absent]
    exact .nil
  · unfold getPdu
    rw [segments, infos]
    simp
  · unfold getPdu
    rw [infos]
    simp
  · rw [infos] at held
    contradiction

theorem stop (h : Books tx.emptyQueue flights) (wellFormed : tx.txWindow.WellFormed)
    (report : flights statusReportSn = none) : Books tx.stop fun _ => none := by
  obtain ⟨pool, undelivered, eq⟩ := emptyQueue_eq tx
  have wellFormed : tx.emptyQueue.txWindow.WellFormed := by
    rw [eq]
    exact wellFormed
  exact h.cleared wellFormed report (clear_pool _ _) rfl rfl

end Books

end Tx

end IsrRan.Rlc.AmLte
