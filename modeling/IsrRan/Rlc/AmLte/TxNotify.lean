import IsrRan.Rlc.AmLte.TxBooks

namespace IsrRan.Rlc.AmLte
open List Function

namespace Flight

def ack (flight : Flight) (acked : Nat → Bool) : Flight :=
  { flight with pending := flight.pending.filter fun sn => !acked sn }

def delivered (flight : Flight) : Bool := flight.finished && flight.pending.isEmpty

theorem ack_ack (flight : Flight) (acked more : Nat → Bool) :
    (flight.ack acked).ack more = flight.ack fun sn => acked sn || more sn := by
  simp [ack, Bool.and_comm]

theorem ack_congr {flight : Flight} {acked acked' : Nat → Bool}
    (same : ∀ sn ∈ flight.pending, acked sn = acked' sn) : flight.ack acked = flight.ack acked' := by
  unfold ack
  rw [filter_congr fun sn mem => congrArg not (same sn mem)]

theorem ack_none {flight : Flight} {acked : Nat → Bool} (none : ∀ sn ∈ flight.pending, acked sn = false) :
    flight.ack acked = flight := by
  have all : flight.pending.filter (fun sn => !acked sn) = flight.pending :=
    List.filter_eq_self.mpr fun sn mem => by simp [none sn mem]
  unfold ack
  rw [all]

theorem delivered_ack {flight : Flight} {acked more : Nat → Bool} (done : (flight.ack acked).delivered = true) :
    (flight.ack fun sn => acked sn || more sn).delivered = true := by
  rw [← ack_ack]
  unfold delivered ack at *
  simp only [Bool.and_eq_true, List.isEmpty_iff] at done ⊢
  exact ⟨done.1, by rw [done.2]; rfl⟩

end Flight

namespace Flights

def acknowledge (flights : Flights) (acked : Nat → Bool) : Flights := fun p =>
  (flights p).bind fun flight => if (flight.ack acked).delivered then none else some (flight.ack acked)

def Live (flights : Flights) : Prop := ∀ p flight, flights p = some flight → flight.delivered = false

def Apart (flights : Flights) : Prop := ∀ p q, (flights p).isSome = true → (flights q).isSome = true →
  p % bufferedPdusSize = q % bufferedPdusSize → p = q

variable {flights : Flights} {acked acked' : Nat → Bool} {p : Nat} {flight : Flight}

theorem acknowledge_of_some (flying : flights p = some flight) (acked : Nat → Bool) :
    flights.acknowledge acked p = if (flight.ack acked).delivered then none else some (flight.ack acked) := by
  rw [acknowledge, flying]
  rfl

theorem acknowledge_of_none (absent : flights p = none) (acked : Nat → Bool) :
    flights.acknowledge acked p = none := by
  rw [acknowledge, absent]
  rfl

theorem acknowledge_live (flights : Flights) (acked : Nat → Bool) : Live (flights.acknowledge acked) := by
  intro p flight flying
  obtain ⟨before, _, rest⟩ := Option.bind_eq_some_iff.mp flying
  split at rest
  · contradiction
  · rename_i more
    cases rest
    simpa using more

theorem acknowledge_acknowledge (flights : Flights) (acked more : Nat → Bool) :
    acknowledge (flights.acknowledge acked) more = flights.acknowledge fun sn => acked sn || more sn := by
  funext p
  cases flying : flights p with
  | none => rw [acknowledge_of_none (acknowledge_of_none flying acked), acknowledge_of_none flying]
  | some flight =>
    have first := acknowledge_of_some flying acked
    rw [acknowledge_of_some flying]
    cases done : (flight.ack acked).delivered with
    | true =>
      rw [done] at first
      rw [acknowledge_of_none first, Flight.delivered_ack done]
      rfl
    | false =>
      rw [done] at first
      rw [acknowledge_of_some first, Flight.ack_ack]

theorem acknowledge_congr (same : ∀ p flight, flights p = some flight → ∀ sn ∈ flight.pending, acked sn = acked' sn) :
    flights.acknowledge acked = flights.acknowledge acked' := by
  funext p
  cases flying : flights p with
  | none => rw [acknowledge_of_none flying, acknowledge_of_none flying]
  | some flight =>
    rw [acknowledge_of_some flying, acknowledge_of_some flying, Flight.ack_congr (same p flight flying)]

theorem Live.acknowledge_eq (live : Live flights) (flying : flights p = some flight)
    (untouched : ∀ sn ∈ flight.pending, acked sn = false) : flights.acknowledge acked p = flights p := by
  rw [acknowledge_of_some flying, Flight.ack_none untouched, live p flight flying, flying]
  rfl

theorem Live.acknowledge_none (live : Live flights)
    (untouched : ∀ p flight, flights p = some flight → ∀ sn ∈ flight.pending, acked sn = false) :
    flights.acknowledge acked = flights := by
  funext p
  cases flying : flights p with
  | none => exact acknowledge_of_none flying _
  | some flight => rw [live.acknowledge_eq flying (untouched p flight flying), flying]

theorem acknowledge_apply_congr {flights' : Flights} (same : flights p = flights' p) :
    flights.acknowledge acked p = flights'.acknowledge acked p := by
  unfold acknowledge
  rw [same]

theorem isSome_of_acknowledge (still : (flights.acknowledge acked p).isSome = true) : (flights p).isSome = true := by
  cases flying : flights p with
  | none =>
    rw [acknowledge_of_none flying] at still
    contradiction
  | some flight => rfl

end Flights

structure Notified (start now : Flights) (vec : List Nat) : Prop where
  distinct : (vec.map (· % bufferedPdusSize)).Nodup
  exact : ∀ p, p ∈ vec ↔ (start p).isSome = true ∧ now p = none
  sub : ∀ p, (now p).isSome = true → (start p).isSome = true

namespace Notified
open Flights

variable {start now : Flights} {vec : List Nat} {p : Nat}

theorem nil (start : Flights) : Notified start start [] := by
  refine ⟨.nil, fun p => ?_, fun _ => id⟩
  cases start p <;> simp

section
variable (h : Notified start now vec)
include h

theorem length_le : vec.length ≤ maxSdusToNotify := by
  have small : vec.map (· % bufferedPdusSize) ⊆ range bufferedPdusSize := by
    intro k mem
    obtain ⟨p, _, rfl⟩ := List.mem_map.mp mem
    exact List.mem_range.mpr (Nat.mod_lt _ (by decide))
  have bound := (subperm_of_subset h.distinct small).length_le
  rwa [length_map, length_range] at bound

theorem keep (flying : (now p).isSome = true) (flight : Flight) :
    Notified start (Function.update now p (some flight)) vec := by
  refine ⟨h.distinct, fun q => ?_, fun q still => ?_⟩
  · rw [h.exact]
    by_cases own : q = p
    · have there : now p ≠ none := Option.isSome_iff_ne_none.mp flying
      rw [own]
      simp [there]
    · rw [update_of_ne own]
  · by_cases own : q = p
    · rw [own]
      exact h.sub p flying
    · rw [update_of_ne own] at still
      exact h.sub q still

theorem push (apart : Apart start) (flying : (now p).isSome = true) :
    Notified start (Function.update now p none) (vec ++ [p]) := by
  have tracked := h.sub p flying
  refine ⟨?_, fun q => ?_, fun q still => ?_⟩
  · rw [map_append]
    refine List.nodup_append.mpr ⟨h.distinct, nodup_singleton _, fun k mem k' last same => ?_⟩
    obtain ⟨q, listed, rfl⟩ := List.mem_map.mp mem
    obtain ⟨its, gone⟩ := (h.exact q).mp listed
    rw [List.mem_singleton.mp last] at same
    rw [apart q p its tracked same] at gone
    rw [gone] at flying
    contradiction
  · rw [mem_append, h.exact]
    by_cases own : q = p
    · simp [own, tracked]
    · rw [update_of_ne own]
      simp [own]
  · by_cases own : q = p
    · rw [own, Function.update_self] at still
      contradiction
    · rw [update_of_ne own] at still
      exact h.sub q still

end

end Notified

namespace Tx
open Lib Adt Flights BufferedPdcpPduList

variable {tx tx' tx₀ : Tx} {flights start : Flights} {sn p id : Nat} {flight : Flight}

def ackInfo (tx : Tx) (p id : Nat) : Tx :=
  { tx with
    undeliveredSdus :=
      tx.undeliveredSdus.setPdu p
        { tx.undeliveredSdus.getPdu p with list := (tx.undeliveredSdus.getPdu p).list.erase id }
    segmentPool := tx.segmentPool.releasePdcpSn id }

variable {calls : List TxCall}

theorem segments_ackInfo (tx : Tx) (p id id' : Nat) : (tx.ackInfo p id).segmentPool.segments id' =
    if id' = id then { tx.segmentPool.segments id with pdcpSn := none } else tx.segmentPool.segments id' := by
  change Function.update _ _ _ _ = _
  rw [update_apply]

theorem Books.ackInfo (h : Books tx flights) (flying : flights p = some flight)
    (rlc : (tx.segmentPool.segments id).rlcSn = some sn) (pdcp : (tx.segmentPool.segments id).pdcpSn = some p) :
    Books (tx.ackInfo p id) (Function.update flights p (some (flight.ack fun sn' => sn' = sn))) := by
  have sn_eq := h.info_sn flying
  have nodup := h.list_nodup flying
  obtain ⟨mapped, pendingNodup⟩ := h.pending p flight flying
  have listed : id ∈ (tx.undeliveredSdus.getPdu p).list := ((h.pdcp p id).mp pdcp).2
  have rlcSn (id' : Nat) : ((tx.ackInfo p id).segmentPool.segments id').rlcSn =
      (tx.segmentPool.segments id').rlcSn := by
    rw [segments_ackInfo]
    split
    · rename_i same
      rw [same]
    · rfl
  have undelivered : (tx.ackInfo p id).undeliveredSdus = ⟨Function.update tx.undeliveredSdus.pdus (slot p)
      { tx.undeliveredSdus.getPdu p with list := (tx.undeliveredSdus.getPdu p).list.erase id },
      tx.undeliveredSdus.count⟩ := rfl
  refine h.update (h.alone flying) ?_ (fun sn id' => ?_) h.once undelivered sn_eq (by simp) (fun id' => ?_)
    (fun q other id' => ?_) (fun flight' eq => ?_) (fun flight' eq => ?_) (fun q _ id' _ => rlcSn id')
  · refine h.free.release (fun blank => ?_) _
    rw [blank] at rlc
    contradiction
  · rw [rlcSn]
    exact h.rlc sn id'
  · rw [segments_ackInfo]
    by_cases own : id' = id
    · rw [own]
      simp [nodup.not_mem_erase]
    · rw [if_neg own, h.pdcp]
      simp [mem_erase_of_ne own]
  · rw [segments_ackInfo]
    split
    · rename_i own
      rw [own, pdcp]
      simp [Ne.symm other]
    · rfl
  · cases eq
    exact h.fully p flight flying
  · cases eq
    refine ⟨?_, pendingNodup.filter _⟩
    simp only [rlcSn]
    have injective := inj_on_of_nodup_map (mapped ▸ pendingNodup.map (Option.some_injective Nat))
    have others (id' : Nat) (mem : id' ∈ (tx.undeliveredSdus.getPdu p).list) :
        (id' != id) = !decide ((tx.segmentPool.segments id').rlcSn = some sn) := by
      by_cases own : id' = id
      · simp [own, rlc]
      · have differs : (tx.segmentPool.segments id').rlcSn ≠ some sn :=
          fun same => own (injective mem listed (same.trans rlc.symm))
        simp [own, differs]
    calc (((tx.undeliveredSdus.getPdu p).list.erase id).map fun id' => (tx.segmentPool.segments id').rlcSn)
      _ = ((tx.undeliveredSdus.getPdu p).list.filter
            fun id' => !decide ((tx.segmentPool.segments id').rlcSn = some sn)).map
            fun id' => (tx.segmentPool.segments id').rlcSn := by
          rw [nodup.erase_eq_filter, filter_congr others]
      _ = (flight.pending.map some).filter fun rlcSn => !decide (rlcSn = some sn) := by
          rw [← mapped, filter_map]
          rfl
      _ = (flight.pending.filter fun sn' => !decide (sn' = sn)).map some := by
          rw [filter_map]
          congr 1
          refine filter_congr fun sn' _ => ?_
          simp

theorem ackSegment_of_some (pdcp : (tx.segmentPool.segments id).pdcpSn = some p) : tx.ackSegment id =
    if ((tx.ackInfo p id).undeliveredSdus.getPdu p).fullyAcked then
      Tx.clearPdcpSdu { tx.ackInfo p id with
        notifyInfoVec :=
          if tx.notifyInfoVec.length < maxSdusToNotify then tx.notifyInfoVec ++ [p] else tx.notifyInfoVec } p
    else tx.ackInfo p id := by
  unfold Tx.ackSegment
  rw [pdcp]
  rfl

theorem Books.ackSegment (h : Books tx flights) (apart : Apart start)
    (notified : Notified start flights tx.notifyInfoVec)
    (rlc : (tx.segmentPool.segments id).rlcSn = some sn) (pdcp : (tx.segmentPool.segments id).pdcpSn = some p) :
    Books (tx.ackSegment id) (Function.update flights p (flights.acknowledge (fun sn' => sn' = sn) p)) ∧
      Notified start (Function.update flights p (flights.acknowledge (fun sn' => sn' = sn) p))
        (tx.ackSegment id).notifyInfoVec := by
  have named := (h.pdcp p id).mp pdcp
  obtain ⟨flight, flying⟩ := Option.isSome_iff_exists.mp ((h.tracked p).mp named.1)
  have acked := h.ackInfo flying rlc pdcp
  generalize left : flight.ack (fun sn' => sn' = sn) = rest at acked
  have now : Function.update flights p (some rest) p = some rest := Function.update_self _ _ _
  have complete : ((tx.ackInfo p id).undeliveredSdus.getPdu p).fullyAcked = rest.delivered := by
    have fully := acked.fully p rest now
    have mapped := (acked.pending p rest now).1
    have empty := congrArg List.isEmpty mapped
    rw [isEmpty_map, isEmpty_map] at empty
    unfold PdcpPduInfo.fullyAcked Flight.delivered
    rw [fully, empty]
  have room : tx.notifyInfoVec.length < maxSdusToNotify := by
    have pushed := (notified.push apart (by rw [flying]; rfl : (flights p).isSome = true)).length_le
    rw [length_append] at pushed
    exact pushed
  rw [ackSegment_of_some pdcp, complete, acknowledge_of_some flying, left]
  split
  · have noted : Books { tx.ackInfo p id with notifyInfoVec := tx.notifyInfoVec ++ [p] }
        (Function.update flights p (some rest)) := acked.congr rfl rfl fun _ => rfl
    have cleared := noted.clearPdcpSdu now
    rw [update_idem] at cleared
    exact ⟨cleared, notified.push apart (by rw [flying]; rfl)⟩
  · exact ⟨acked, notified.keep (by rw [flying]; rfl) rest⟩

theorem ackSegment_pdcpSn (tx : Tx) (id id' : Nat)
    (gone : id' = id ∨ (tx.segmentPool.segments id').pdcpSn = none) :
    ((tx.ackSegment id).segmentPool.segments id').pdcpSn = none := by
  cases pdcp : (tx.segmentPool.segments id).pdcpSn with
  | none =>
    have same : tx.ackSegment id = tx := by
      unfold Tx.ackSegment
      rw [pdcp]
    rw [same]
    rcases gone with rfl | gone
    · exact pdcp
    · exact gone
  | some p =>
    have info : ((tx.ackInfo p id).segmentPool.segments id').pdcpSn = none := by
      rw [segments_ackInfo]
      split
      · rfl
      · rename_i other
        exact gone.resolve_left other
    rw [ackSegment_of_some pdcp]
    split
    · unfold Tx.clearPdcpSdu BufferedPdcpPduList.clearPdcpSdu
      dsimp only
      split
      · change ((SegmentPool.releasePdcpSns _ _).segments id').pdcpSn = none
        rw [SegmentPool.segments_releasePdcpSns]
        split
        · rfl
        · exact info
      · exact info
    · exact info

theorem foldl_ackSegment_pdcpSn {ids : List Nat} (gone : id ∈ ids ∨ (tx.segmentPool.segments id).pdcpSn = none) :
    ((ids.foldl Tx.ackSegment tx).segmentPool.segments id).pdcpSn = none := by
  induction ids generalizing tx with
  | nil => exact gone.resolve_left (by simp)
  | cons first rest ih =>
    refine ih ?_
    rcases gone with mem | gone
    · rcases List.mem_cons.mp mem with rfl | mem
      · exact .inr (ackSegment_pdcpSn tx id id (.inl rfl))
      · exact .inl mem
    · exact .inr (ackSegment_pdcpSn tx first id (.inr gone))

theorem segmentsAt_ackSegment (tx : Tx) (id sn : Nat) : (tx.ackSegment id).segmentsAt sn = tx.segmentsAt sn := by
  obtain ⟨pool, undelivered, vec, eq⟩ := ackSegment_eq tx id
  rw [eq]
  rfl

theorem Books.foldl_ackSegment {ids : List Nat} {now : Flights} (h : Books tx now) (apart : Apart start)
    (notified : Notified start now tx.notifyInfoVec) (own : ids ⊆ tx.segmentsAt sn)
    (either : ∀ p, now p = flights p ∨ now p = flights.acknowledge (fun sn' => sn' = sn) p) :
    ∃ now', Books (ids.foldl Tx.ackSegment tx) now' ∧
      Notified start now' (ids.foldl Tx.ackSegment tx).notifyInfoVec ∧
      ∀ p, now' p = flights p ∨ now' p = flights.acknowledge (fun sn' => sn' = sn) p := by
  induction ids generalizing tx now with
  | nil => exact ⟨now, h, notified, either⟩
  | cons id rest ih =>
    rw [foldl_cons]
    have rest_own : rest ⊆ (tx.ackSegment id).segmentsAt sn := by
      rw [segmentsAt_ackSegment]
      exact fun id' mem => own (mem_cons_of_mem _ mem)
    have rlc := (h.rlc sn id).mpr (own mem_cons_self)
    cases pdcp : (tx.segmentPool.segments id).pdcpSn with
    | none =>
      have same : tx.ackSegment id = tx := by
        unfold Tx.ackSegment
        rw [pdcp]
      rw [same] at rest_own ⊢
      exact ih h notified rest_own either
    | some p =>
      obtain ⟨books, vec⟩ := h.ackSegment apart notified rlc pdcp
      refine ih books vec rest_own fun q => ?_
      by_cases mine : q = p
      · rw [mine, Function.update_self]
        right
        rcases either p with before | after
        · exact acknowledge_apply_congr before
        · -- its segment of this PDU would be acknowledged already
          obtain ⟨flight, flying⟩ := Option.isSome_iff_exists.mp
            ((h.tracked p).mp ((h.pdcp p id).mp pdcp).1)
          have waits := (h.mem_pending flying).mpr ⟨id, rlc, pdcp⟩
          rw [flying] at after
          obtain ⟨before, _, rest⟩ := Option.bind_eq_some_iff.mp after.symm
          split at rest
          · contradiction
          · cases rest
            simp [Flight.ack] at waits
      · rw [update_of_ne mine]
        exact either q

theorem Books.handleAck (h : Books tx flights) (live : Live flights) (apart : Apart start)
    (notified : Notified start flights tx.notifyInfoVec) (updateVtA : Bool) :
    Books (tx.handleAck sn updateVtA) (flights.acknowledge fun sn' => sn' = sn) ∧
      Notified start (flights.acknowledge fun sn' => sn' = sn) (tx.handleAck sn updateVtA).notifyInfoVec := by
  have moved (tx' : Tx) (done : Books tx' (flights.acknowledge fun sn' => sn' = sn) ∧
      Notified start (flights.acknowledge fun sn' => sn' = sn) tx'.notifyInfoVec) :
      Books (if updateVtA then { tx' with vtA := (tx'.vtA + 1) % mod, vtMs := (tx'.vtMs + 1) % mod } else tx')
        (flights.acknowledge fun sn' => sn' = sn) ∧
      Notified start (flights.acknowledge fun sn' => sn' = sn)
        (if updateVtA then { tx' with vtA := (tx'.vtA + 1) % mod, vtMs := (tx'.vtMs + 1) % mod }
          else tx').notifyInfoVec := by
    cases updateVtA with
    | false => exact done
    | true => exact ⟨done.1.congr rfl rfl fun _ => rfl, done.2⟩
  refine moved _ ?_
  cases found : tx.txWindow.find sn with
  | none =>
    have nothing : flights.acknowledge (fun sn' => sn' = sn) = flights := by
      funext p
      cases flying : flights p with
      | none => exact acknowledge_of_none flying _
      | some flight =>
        rw [live.acknowledge_eq flying, flying]
        intro sn' mem
        have present := h.contains_of_mem flying mem
        rw [decide_eq_false_iff_not]
        rintro rfl
        rw [CircularMap.contains_eq_false.mpr found] at present
        contradiction
    rw [nothing]
    exact ⟨h, notified⟩
  | some pdu =>
    have list := segmentsAt_of_find found
    obtain ⟨now, books, vec, either⟩ := h.foldl_ackSegment apart notified
      (list ▸ List.Subset.refl _ : pdu.segments ⊆ tx.segmentsAt sn) fun _ => .inl rfl
    have at_ : (tx.updateNotificationAckInfo pdu).segmentsAt sn = pdu.segments := by
      obtain ⟨pool, undelivered, vec', eq⟩ := updateNotificationAckInfo_eq tx pdu
      rw [eq, ← list]
      rfl
    have done (id : Nat) (mem : id ∈ (tx.updateNotificationAckInfo pdu).segmentsAt sn) :
        ((tx.updateNotificationAckInfo pdu).segmentPool.segments id).pdcpSn = none := by
      rw [at_] at mem
      exact foldl_ackSegment_pdcpSn (.inl mem)
    have same : now = flights.acknowledge fun sn' => sn' = sn := by
      funext p
      rcases either p with before | after
      · cases flying : flights p with
        | none => rw [before, flying, acknowledge_of_none flying]
        | some flight =>
          rw [before, live.acknowledge_eq flying]
          intro sn' mem
          rw [decide_eq_false_iff_not]
          rintro rfl
          obtain ⟨id, rlc, pdcp⟩ := (books.mem_pending (before.trans flying)).mp mem
          have gone := done id ((books.rlc sn' id).mp rlc)
          exact absurd (gone.symm.trans pdcp) (by simp)
      · exact after
    rw [same] at books vec
    have vec_eq : ((tx.updateNotificationAckInfo pdu).removePdu sn).notifyInfoVec =
        (tx.updateNotificationAckInfo pdu).notifyInfoVec := by
      unfold Tx.removePdu
      split <;> rfl
    exact ⟨books.removePdu done, vec_eq ▸ vec⟩

def delivered (calls : List TxCall) : List Nat :=
  calls.flatMap fun
    | .notifyDelivery pdcpSns => pdcpSns
    | _ => []

theorem delivered_append (calls more : List TxCall) : delivered (calls ++ more) = delivered calls ++ delivered more :=
  flatMap_append

theorem countRetx_delivered (tx : Tx) (sn : Nat) (pdu : TxPdu) : delivered (tx.countRetx sn pdu).2.2 = [] := by
  unfold countRetx checkSnReachedMaxRetx
  dsimp only
  split <;> rfl

theorem handleNack_delivered {nack : Nack} (handled : tx.handleNack sn nack = .ok (tx', calls)) :
    delivered calls = [] := by
  unfold handleNack at handled
  split at handled
  · cases handled
    rfl
  · split at handled
    · cases handled
      rfl
    · dsimp only at handled
      split at handled
      · contradiction
      · obtain ⟨tx₁, _, rest⟩ := bind_eq_ok.mp handled
        cases rest
        exact countRetx_delivered tx sn _

theorem retransmitPdu_delivered (sent : tx.retransmitPdu sn = .ok (tx', calls)) :
    delivered calls = [] := by
  unfold retransmitPdu at sent
  split at sent
  · cases sent
    rfl
  · split at sent
    · cases sent
      rfl
    · dsimp only at sent
      split at sent
      · contradiction
      · obtain ⟨tx₁, _, rest⟩ := bind_eq_ok.mp sent
        cases rest
        exact countRetx_delivered tx sn _

theorem buildRetxPdu_delivered {nofBytes : Nat} {pdu : List Byte}
    (built : tx.buildRetxPdu nofBytes = .ok (tx', pdu, calls)) : delivered calls = [] := by
  unfold buildRetxPdu at built
  dsimp only at built
  split at built
  · obtain ⟨built₁, _, rest⟩ := bind_eq_ok.mp built
    cases rest
    rfl
  · split at built
    · obtain ⟨⟨tx₁, calls₁⟩, sent, built⟩ := bind_eq_ok.mp built
      split at built
      · contradiction
      · obtain ⟨built₁, _, rest⟩ := bind_eq_ok.mp built
        cases rest
        exact retransmitPdu_delivered sent
    · cases built
      rfl

theorem readPdu_delivered {rx : Rx} {ownsLock : Bool} {nofBytes : Nat} {read : Read}
    (done : tx.readPdu rx ownsLock nofBytes = .ok read) : delivered read.calls = [] := by
  unfold readPdu at done
  split at done
  · cases done
    rfl
  · split at done
    · cases done
      rfl
    · obtain ⟨⟨tx₁, calls₁⟩, filled, done⟩ := bind_eq_ok.mp done
      obtain ⟨⟨tx₂, pdu₂, calls₂⟩, retx, done⟩ := bind_eq_ok.mp done
      have first : delivered calls₁ = [] := by
        unfold fillRetxQueue at filled
        split at filled
        · exact retransmitPdu_delivered filled
        · cases filled
          rfl
      have second : delivered calls₂ = [] := by
        unfold readRetx at retx
        split at retx
        · cases retx
          rfl
        · exact buildRetxPdu_delivered retx
      have both : delivered (calls₁ ++ calls₂) = [] := by rw [delivered_append, first, second, append_nil]
      dsimp only at done
      split at done
      · cases done
        exact both
      · obtain ⟨built₁, _, rest⟩ := bind_eq_ok.mp done
        cases rest
        exact both

theorem pollRetxTimerExpired_delivered (expired : tx.pollRetxTimerExpired = .ok (tx', calls)) :
    delivered calls = [] := by
  unfold pollRetxTimerExpired at expired
  dsimp only at expired
  split at expired
  · exact retransmitPdu_delivered expired
  · cases expired
    rfl

theorem handleNacks_delivered {nacks : List Nack} {calls' : List TxCall}
    (handled : tx.handleNacks sn calls nacks = .ok (tx', calls')) : delivered calls' = delivered calls := by
  induction nacks generalizing tx calls with
  | nil =>
    cases handled
    rfl
  | cons nack nacks ih =>
    unfold handleNacks at handled
    split at handled
    · obtain ⟨⟨tx₁, more⟩, one, handled⟩ := bind_eq_ok.mp handled
      rw [ih handled, delivered_append, handleNack_delivered one, append_nil]
    · exact ih handled

variable {status : StatusPdu}

def acknowledges (tx : Tx) (status : StatusPdu) (sn : Nat) : Bool :=
  tx.validAckSn status.ackSn && tx.txModBase sn < tx.txModBase status.ackSn && !nacked status sn

structure AckedFlights (status : StatusPdu) (tx₀ : Tx) (flights : Flights) (k : Nat) (s : Tx × Bool × List TxCall) :
    Prop where
  books : Books s.1 (flights.acknowledge fun sn => tx₀.offset sn < k && !nacked status sn)
  notified : Notified flights (flights.acknowledge fun sn => tx₀.offset sn < k && !nacked status sn) s.1.notifyInfoVec
  quiet : delivered s.2.2 = []
  sdus : s.1.txSdu = tx₀.txSdu ∧ s.1.txSduQueue = tx₀.txSduQueue

theorem AckedFlights.next {k : Nat} {s s' : Tx × Bool × List TxCall} (h₀ : tx₀.WindowInv) (start : Books tx₀ flights)
    (apart : Apart flights) (h : AckedFlights status tx₀ flights k s) (room : k + 1 < mod)
    (one : ackOne status s ((tx₀.vtA + k) % mod) = .ok s') : AckedFlights status tx₀ flights (k + 1) s' := by
  have pending_lt {p : Nat} {flight : Flight} (flying : flights p = some flight) {sn : Nat}
      (mem : sn ∈ flight.pending) : sn < mod := (h₀.keys sn (start.contains_of_mem flying mem)).1
  unfold ackOne at one
  split at one
  · rename_i nack
    obtain ⟨⟨tx₁, calls⟩, handled, rest⟩ := bind_eq_ok.mp one
    cases rest
    have same : (flights.acknowledge fun sn => tx₀.offset sn < k + 1 && !nacked status sn) =
        flights.acknowledge fun sn => tx₀.offset sn < k && !nacked status sn := by
      exact acknowledge_congr fun p flight flying sn mem =>
        passed_of_nacked h₀.vtA (by omega) (pending_lt flying mem) nack
    have keeps := keeps_handleNacks handled
    refine ⟨?_, ?_, ?_, keeps.txSdu.trans h.sdus.1, keeps.txSduQueue.trans h.sdus.2⟩
    · rw [same]
      exact h.books.keeps keeps
    · rw [same, keeps.notifyInfoVec]
      exact h.notified
    · exact (handleNacks_delivered handled).trans h.quiet
  · rename_i ack
    cases one
    have ack : nacked status ((tx₀.vtA + k) % mod) = false := by simpa using ack
    have more : acknowledge (flights.acknowledge fun sn => tx₀.offset sn < k && !nacked status sn)
          (fun sn => sn = (tx₀.vtA + k) % mod) =
        flights.acknowledge fun sn => tx₀.offset sn < k + 1 && !nacked status sn := by
      rw [acknowledge_acknowledge]
      exact acknowledge_congr fun p flight flying sn mem =>
        (passed_of_acked h₀.vtA (by omega) (pending_lt flying mem) ack).symm
    have acked := @Books.handleAck _ _ _ ((tx₀.vtA + k) % mod) h.books (acknowledge_live _ _) apart h.notified s.2.1
    rw [more] at acked
    obtain ⟨books, vec⟩ := acked
    obtain ⟨pool, undelivered, vec', eq⟩ := handleAck_eq s.1 ((tx₀.vtA + k) % mod) s.2.1
    refine ⟨books, vec, h.quiet, ?_, ?_⟩
    · dsimp only
      rw [eq]
      exact h.sdus.1
    · dsimp only
      rw [eq]
      exact h.sdus.2

theorem Books.handleStatus (h : Books tx flights) (window : tx.WindowInv) (live : Live flights)
    (apart : Apart flights) (empty : tx.notifyInfoVec = []) {calls : List TxCall}
    (handled : tx.handleStatus status = .ok (tx', calls)) :
    Books tx' (flights.acknowledge (tx.acknowledges status)) ∧
      (tx'.txSdu = tx.txSdu ∧ tx'.txSduQueue = tx.txSduQueue) ∧ tx'.notifyInfoVec = [] ∧ (delivered calls).Nodup ∧
      ∀ p, p ∈ delivered calls ↔ (flights p).isSome = true ∧ flights.acknowledge (tx.acknowledges status) p = none := by
  cases valid : tx.validAckSn status.ackSn with
  | false =>
    unfold Tx.handleStatus at handled
    rw [if_pos (by simp [valid])] at handled
    cases handled
    rw [live.acknowledge_none fun p flight _ sn _ => by simp [acknowledges, valid]]
    refine ⟨h, ⟨rfl, rfl⟩, empty, .nil, fun p => ?_⟩
    cases flights p <;> simp [delivered]
  | true =>
    obtain ⟨s, folded, rfl, rfl⟩ := handleStatus_eq window.vtA valid handled
    have few : tx.ackCount status < mod := Nat.lt_of_le_of_lt (Nat.min_le_right _ _) (tx.offset_lt _)
    have first : AckedFlights status tx flights 0 (tx.startAcks status, true, []) := by
      have none : (flights.acknowledge fun sn => tx.offset sn < 0 && !nacked status sn) = flights :=
        live.acknowledge_none fun p flight _ sn _ => by simp
      refine ⟨?_, ?_, rfl, rfl, rfl⟩
      · rw [none]
        exact h.congr rfl rfl fun _ => rfl
      · rw [none]
        change Notified flights flights tx.notifyInfoVec
        rw [empty]
        exact .nil flights
    have last := foldlM_range_invariant (P := AckedFlights status tx flights)
      (fun k s s' hk progress one => progress.next window h apart (by omega) one) first folded
    have all : (flights.acknowledge fun sn => tx.offset sn < tx.ackCount status && !nacked status sn) =
        flights.acknowledge (tx.acknowledges status) := by
      refine acknowledge_congr fun p flight flying sn mem => ?_
      have below := (window.keys sn (h.contains_of_mem flying mem)).2
      have bound : tx.offset sn < tx.ackCount status ↔ tx.offset sn < tx.offset status.ackSn := by
        unfold ackCount
        omega
      simp [acknowledges, valid, bound, txModBase_eq window.vtA]
    obtain ⟨books, notified, quiet, sdus⟩ := last
    rw [all] at books notified
    have calls : delivered (s.2.2 ++
        (if !s.1.txWindow.isEmpty && !s.1.txWindow.contains s.1.vtA then [.protocolFailure] else []) ++
        (if s.1.notifyInfoVec.isEmpty then [] else [.notifyDelivery s.1.notifyInfoVec])) =
        s.1.notifyInfoVec := by
      rw [delivered_append, delivered_append, quiet]
      have failure : delivered (if !s.1.txWindow.isEmpty && !s.1.txWindow.contains s.1.vtA then
          [.protocolFailure] else []) = [] := by split <;> rfl
      rw [failure]
      cases vec : s.1.notifyInfoVec <;> simp [delivered]
    rw [calls]
    exact ⟨books.congr rfl rfl fun _ => rfl, sdus, rfl, notified.distinct.of_map _, notified.exact⟩

end Tx

end IsrRan.Rlc.AmLte
