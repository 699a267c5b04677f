import Mathlib.Data.List.ReduceOption
import IsrRan.Rlc.AmLte.TxNotify

namespace IsrRan.Rlc.AmLte
open List Function

namespace Flights

def carry (flights : Flights) (sn : Nat) (sdu : TxSdu × Nat) : Flights :=
  update flights sdu.1.pdcpSn (some
    { pending := sn :: ((flights sdu.1.pdcpSn).map Flight.pending).getD []
      finished := sdu.2 = sdu.1.msg.length })

def carryAll (flights : Flights) (sn : Nat) (sdus : List (TxSdu × Nat)) : Flights :=
  sdus.foldl (fun flights sdu => flights.carry sn sdu) flights

theorem carryAll_concat (flights : Flights) (sn : Nat) (sdus : List (TxSdu × Nat)) (sdu : TxSdu × Nat) :
    flights.carryAll sn (sdus ++ [sdu]) = (flights.carryAll sn sdus).carry sn sdu := by
  simp [carryAll]

theorem carry_fresh {flights : Flights} {sdu : TxSdu × Nat} (fresh : flights sdu.1.pdcpSn = none) (sn : Nat) :
    carry (update flights sdu.1.pdcpSn (some ⟨[], false⟩)) sn sdu = flights.carry sn sdu := by
  unfold carry
  rw [update_self, update_idem, fresh]
  rfl

theorem carry_isSome (flights : Flights) (sn : Nat) (sdu : TxSdu × Nat) (p : Nat) :
    (flights.carry sn sdu p).isSome = true ↔ p = sdu.1.pdcpSn ∨ (flights p).isSome = true := by
  unfold carry
  by_cases own : p = sdu.1.pdcpSn
  · simp [own]
  · rw [update_of_ne own]
    simp [own]

theorem Live.carry {flights : Flights} (live : Live flights) (sn : Nat) (sdu : TxSdu × Nat) :
    Live (flights.carry sn sdu) := by
  intro p flight flying
  unfold Flights.carry at flying
  by_cases own : p = sdu.1.pdcpSn
  · rw [own, update_self] at flying
    cases flying
    simp [Flight.delivered]
  · rw [update_of_ne own] at flying
    exact live p flight flying

end Flights

namespace Tx
open Lib Adt Flights

variable {tx tx' tx₀ : Tx} {flights : Flights}

/-- The SDUs that wait and those that are on their way have PDCP SNs that differ modulo 4096, and the one
that is being sent is on its way. -/
structure Flying (tx : Tx) (flights : Flights) : Prop where
  filled : ∀ sdu, some sdu ∈ tx.txSduQueue → sdu.msg ≠ []
  queue : (tx.txSduQueue.reduceOption.map fun sdu => sdu.pdcpSn % bufferedPdusSize).Nodup
  waiting : ∀ sdu, some sdu ∈ tx.txSduQueue → ∀ p, (flights p).isSome = true →
    p % bufferedPdusSize ≠ sdu.pdcpSn % bufferedPdusSize
  apart : Apart flights
  live : Live flights
  current : ∀ sdu, tx.txSdu = some sdu →
    sdu.msg ≠ [] ∧ ∃ flight, flights sdu.pdcpSn = some flight ∧ flight.finished = false

theorem readSdu_some {queue rest : List (Option TxSdu)} {sdu : TxSdu} (read : readSdu queue = (some sdu, rest)) :
    ∃ gone, queue = gone ++ some sdu :: rest ∧ gone.reduceOption = [] := by
  induction queue with
  | nil => cases read
  | cons first queue ih =>
    cases first with
    | none =>
      obtain ⟨gone, rfl, none⟩ := ih read
      exact ⟨Option.none :: gone, rfl, by rw [reduceOption_cons_of_none, none]⟩
    | some first =>
      cases read
      exact ⟨[], rfl, rfl⟩

theorem readSdu_none {queue rest : List (Option TxSdu)} (read : readSdu queue = (none, rest)) :
    rest = [] ∧ queue.reduceOption = [] := by
  induction queue with
  | nil =>
    cases read
    exact ⟨rfl, rfl⟩
  | cons first queue ih =>
    cases first with
    | none =>
      obtain ⟨empty, none⟩ := ih read
      exact ⟨empty, by rw [reduceOption_cons_of_none, none]⟩
    | some first => cases read

theorem Flying.pull (h : Flying tx flights) {sdu : TxSdu} {len sn : Nat} {rest : List (Option TxSdu)}
    (read : readSdu tx.txSduQueue = (some sdu, rest)) (queue : tx'.txSduQueue = rest)
    (current : ∀ sdu', tx'.txSdu = some sdu' → sdu'.pdcpSn = sdu.pdcpSn ∧ sdu'.msg ≠ [] ∧ len ≠ sdu.msg.length) :
    Flying tx' (flights.carry sn (sdu, len)) := by
  obtain ⟨gone, whole, none⟩ := readSdu_some read
  have all : tx.txSduQueue.reduceOption = sdu :: rest.reduceOption := by
    rw [whole, reduceOption_append, none, nil_append, reduceOption_cons_of_some]
  have nodup := h.queue
  rw [all, map_cons, nodup_cons] at nodup
  have mem {sdu' : TxSdu} (there : some sdu' ∈ tx'.txSduQueue) : some sdu' ∈ tx.txSduQueue := by
    rw [queue] at there
    rw [whole]
    simp [there]
  have own : some sdu ∈ tx.txSduQueue := by simp [whole]
  refine ⟨fun sdu' there => h.filled sdu' (mem there), by rw [queue]; exact nodup.2,
    fun sdu' there p tracked same => ?_, fun p q tracked tracked' same => ?_, h.live.carry _ _, fun sdu' now => ?_⟩
  · rcases (carry_isSome _ _ _ _).mp tracked with rfl | before
    · refine nodup.1 (List.mem_map.mpr ⟨sdu', ?_, same.symm⟩)
      rw [queue] at there
      exact List.reduceOption_mem_iff.mpr there
    · exact h.waiting sdu' (mem there) p before same
  · rcases (carry_isSome _ _ _ _).mp tracked with rfl | before <;>
      rcases (carry_isSome _ _ _ _).mp tracked' with rfl | before'
    · rfl
    · exact absurd same.symm (h.waiting sdu own q before')
    · exact absurd same (h.waiting sdu own p before)
    · exact h.apart p q before before' same
  · obtain ⟨sn_eq, left, part⟩ := current sdu' now
    refine ⟨left, _, by rw [sn_eq]; exact update_self _ _ _, ?_⟩
    simp [part]

namespace DataBuild

variable {b b' : DataBuild}

structure SduAdded (flights : Flights) (b : DataBuild) (sdu : TxSdu) (b' : DataBuild) : Prop where
  books : Books b'.tx (flights.carry b.header.sn (sdu, b'.lastLi))
  lastLi : b'.lastLi = min sdu.msg.length (b.pduSpace - b.headLen)
  data : b'.pdu = b.pdu ++ sdu.msg.take b'.lastLi
  small : b'.pdu.length ≤ bufferTailroom
  header : b'.header = b.header
  queue : b'.tx.txSduQueue = b.tx.txSduQueue
  here : b'.tx.txWindow.contains b.header.sn = b.tx.txWindow.contains b.header.sn
  current : ∀ sdu', b'.tx.txSdu = some sdu' →
    sdu'.pdcpSn = sdu.pdcpSn ∧ sdu'.msg ≠ [] ∧ b'.lastLi ≠ sdu.msg.length

theorem makeSegment_queue (tx : Tx) (sn p : Nat) : (tx.makeSegment sn p).txSduQueue = tx.txSduQueue := by
  unfold Tx.makeSegment
  split <;> rfl

theorem addSdu_added {sdu : TxSdu} {flight : Flight} (h : Books b.tx flights)
    (here : b.tx.txWindow.contains b.header.sn = true) (room : b.tx.segmentPool.hasSegments = true)
    (flying : flights sdu.pdcpSn = some flight) (going : flight.finished = false)
    (fresh : b.header.sn ∉ flight.pending) (added : b.addSdu sdu = .ok b') : SduAdded flights b sdu b' := by
  have fills := (addSdu_fills added).1
  have small := (addSdu_fills added).2.2
  have has : b.tx.undeliveredSdus.hasPdcpSn sdu.pdcpSn = true := by
    unfold BufferedPdcpPduList.hasPdcpSn
    rw [h.info_sn flying]
    simp
  have made := h.makeSegment here room flying fresh
  have carried (len : Nat) : flights.carry b.header.sn (sdu, len) = update flights sdu.pdcpSn
      (some ⟨b.header.sn :: flight.pending, len = sdu.msg.length⟩) := by
    unfold Flights.carry
    rw [flying]
    rfl
  unfold addSdu at added
  dsimp only at added
  split at added
  · contradiction
  · have len_le := Nat.min_le_left sdu.msg.length (b.pduSpace - b.headLen)
    generalize moved : min sdu.msg.length (b.pduSpace - b.headLen) = len at *
    have left : (sdu.msg.drop len).isEmpty = true ↔ len = sdu.msg.length := by
      rw [List.isEmpty_iff, drop_eq_nil_iff]
      omega
    cases added
    refine ⟨?_, moved.symm, rfl, small, rfl, ?_, fills.own, fun sdu' now => ?_⟩
    · dsimp only
      rw [carried]
      by_cases whole : len = sdu.msg.length
      · rw [if_pos (left.mpr whole)]
        have now : update flights sdu.pdcpSn (some { flight with pending := b.header.sn :: flight.pending })
            sdu.pdcpSn = some { flight with pending := b.header.sn :: flight.pending } := update_self _ _ _
        have fully := made.setFullyTxed now
        rw [update_idem] at fully
        simp only [whole]
        exact fully.congr rfl rfl fun _ => rfl
      · rw [if_neg (mt left.mp whole)]
        simp only [whole]
        have same : ({ flight with pending := b.header.sn :: flight.pending } : Flight) =
            ⟨b.header.sn :: flight.pending, false⟩ := by rw [← going]
        rw [same] at made
        exact made.congr rfl rfl fun _ => rfl
    · dsimp only
      split
      · exact makeSegment_queue _ _ _
      · exact makeSegment_queue _ _ _
    · dsimp only at now
      split at now
      · contradiction
      · rename_i more
        cases now
        refine ⟨rfl, fun empty => more (by rw [List.isEmpty_iff]; exact empty), mt left.mpr more⟩

theorem SduAdded.bytes {sdu : TxSdu} (h : SduAdded flights b sdu b') :
    b'.pdu.length = b.pdu.length + b'.lastLi := by
  have len_le := Nat.min_le_left sdu.msg.length (b.pduSpace - b.headLen)
  rw [← h.lastLi] at len_le
  rw [h.data, length_append, length_take, Nat.min_eq_left len_le]

structure Carrying (tx₀ : Tx) (flights : Flights) (b : DataBuild) (sdus : List (TxSdu × Nat)) : Prop where
  sn : b.header.sn = tx₀.vtS
  here : b.tx.txWindow.contains tx₀.vtS = true
  books : Books b.tx (flights.carryAll tx₀.vtS sdus)
  flying : Flying b.tx (flights.carryAll tx₀.vtS sdus)
  taken : ∃ popped, tx₀.txSduQueue = popped ++ b.tx.txSduQueue ∧
    sdus.map Prod.fst = tx₀.txSdu.toList ++ popped.reduceOption
  lens : sdus.map Prod.snd = if 0 < b.lastLi then b.header.li ++ [b.lastLi] else b.header.li
  start : b.lastLi = 0 → sdus = []
  bytes : b.pdu.length = (sdus.map Prod.snd).sum
  data : b.pdu = sdus.flatMap fun sdu => sdu.1.msg.take sdu.2
  small : b.pdu.length ≤ bufferTailroom
  room : b.pdu = [] → b.tx.segmentPool.hasSegments = true

namespace Carrying

variable {sdus : List (TxSdu × Nat)}

section
variable (h : Carrying tx₀ flights b sdus)
include h

theorem pushLi_li : b.pushLi.header.li = sdus.map Prod.snd := by
  have lens := h.lens
  have bytes := h.bytes
  have small := h.small
  have tailroom : bufferTailroom < 65536 := by decide
  unfold pushLi
  split at lens
  · rename_i more
    rw [lens, sum_append, sum_singleton] at bytes
    rw [if_pos more, lens, u16_of_lt (by omega)]
  · rename_i none
    rw [if_neg none, lens]

theorem dropLi {rest : List (Option TxSdu)}
    (queue : rest = b.tx.txSduQueue ∨ rest = [] ∧ b.tx.txSduQueue.reduceOption = []) :
    Carrying tx₀ flights ({ b.pushLi with tx := { b.tx with txSduQueue := rest } } : DataBuild).dropLi sdus := by
  have li : ({ b.pushLi with tx := { b.tx with txSduQueue := rest } } : DataBuild).dropLi.header.li = b.header.li := by
    change b.pushLi.header.li.dropLast = b.header.li
    have lens := h.lens
    rw [h.pushLi_li, lens]
    split
    · exact dropLast_concat
    · rename_i none
      rw [if_neg none, h.start (by omega)] at lens
      rw [← lens]
      rfl
  have mem {sdu : TxSdu} (there : some sdu ∈ rest) : some sdu ∈ b.tx.txSduQueue := by
    rcases queue with same | ⟨empty, _⟩
    · exact same ▸ there
    · rw [empty] at there
      contradiction
  refine ⟨h.sn, h.here, h.books.congr rfl rfl fun _ => rfl, ?_, ?_, by rw [li]; exact h.lens, h.start, h.bytes, h.data,
    h.small, h.room⟩
  · refine ⟨fun sdu there => h.flying.filled sdu (mem there), ?_, fun sdu there => h.flying.waiting sdu (mem there),
      h.flying.apart, h.flying.live, h.flying.current⟩
    rcases queue with same | ⟨empty, _⟩
    · rw [same]
      exact h.flying.queue
    · rw [empty]
      exact .nil
  · obtain ⟨popped, whole, taken⟩ := h.taken
    rcases queue with same | ⟨empty, none⟩
    · exact ⟨popped, by rw [whole, ← same]; rfl, taken⟩
    · refine ⟨popped ++ b.tx.txSduQueue, ?_, ?_⟩
      · change tx₀.txSduQueue = popped ++ b.tx.txSduQueue ++ rest
        rw [whole, empty, append_nil]
      · rw [taken, reduceOption_append, none, append_nil]

theorem pull {sdu : TxSdu} {rest : List (Option TxSdu)}
    (read : readSdu b.tx.txSduQueue = (some sdu, rest)) (room : b.tx.segmentPool.hasSegments = true)
    (space : b.pushLi.headLen < b.pduSpace)
    (added : ({ b.pushLi with tx := { b.tx with txSduQueue := rest }.storeSduInfo sdu.pdcpSn } : DataBuild).addSdu sdu =
      .ok b') (pduSpace : Nat) :
    Carrying tx₀ flights { b' with pduSpace } (sdus ++ [(sdu, b'.lastLi)]) := by
  obtain ⟨gone, whole, none⟩ := readSdu_some read
  have own : some sdu ∈ b.tx.txSduQueue := by simp [whole]
  have books : Books { b.tx with txSduQueue := rest } (flights.carryAll tx₀.vtS sdus) :=
    h.books.congr rfl rfl fun _ => rfl
  have free := books.place_free (h.flying.waiting sdu own)
  have untracked : flights.carryAll tx₀.vtS sdus sdu.pdcpSn = Option.none := by
    cases flying : flights.carryAll tx₀.vtS sdus sdu.pdcpSn with
    | none => rfl
    | some flight => exact absurd rfl (h.flying.waiting sdu own sdu.pdcpSn (by rw [flying]; rfl))
  have eq := books.storeSduInfo_eq free
  have stored := books.storeSduInfo free
  have here : ({ b.tx with txSduQueue := rest }.storeSduInfo sdu.pdcpSn).txWindow.contains b.header.sn = true := by
    rw [eq, h.sn]
    exact h.here
  have done : SduAdded _ _ sdu b' :=
    addSdu_added stored here (by rw [eq]; exact room) (update_self _ _ _) rfl (by simp) added
  have positive : 0 < b'.lastLi := by
    have filled := List.length_pos_iff.mpr (h.flying.filled sdu own)
    have same : b.pushLi.pduSpace = b.pduSpace := rfl
    rw [done.lastLi]
    dsimp only
    omega
  have carried : b'.tx.Books (flights.carryAll tx₀.vtS (sdus ++ [(sdu, b'.lastLi)])) := by
    have sn : b.pushLi.header.sn = tx₀.vtS := h.sn
    have carried := done.books
    rw [sn] at carried
    rw [carryAll_concat, ← carry_fresh untracked]
    exact carried
  have li : b'.header.li = sdus.map Prod.snd := by
    rw [done.header]
    exact h.pushLi_li
  have queue : b'.tx.txSduQueue = rest := by
    rw [done.queue]
    rw [eq]
  refine ⟨?_, ?_, carried, ?_, ?_, ?_, fun zero => absurd zero positive.ne', ?_, ?_, done.small, fun empty => ?_⟩
  · dsimp only
    rw [done.header]
    exact h.sn
  · have there := done.here
    rw [← h.sn]
    exact there.trans here
  · rw [carryAll_concat]
    exact h.flying.pull read queue done.current
  · obtain ⟨popped, all, taken⟩ := h.taken
    refine ⟨popped ++ gone ++ [some sdu], ?_, ?_⟩
    · dsimp only
      rw [all, whole, queue]
      simp
    · rw [map_append, taken, reduceOption_append, reduceOption_append, none]
      simp
  · dsimp only
    rw [if_pos positive, li, map_append, map_singleton]
  · dsimp only
    rw [done.bytes, map_append, sum_append, ← h.bytes]
    rfl
  · dsimp only
    rw [done.data, flatMap_append, ← h.data, flatMap_singleton]
    rfl
  · have bytes := done.bytes
    rw [empty, length_nil] at bytes
    omega

end

end Carrying

theorem pullSdus_carrying {sdus : List (TxSdu × Nat)} {fuel : Nat} {result : Tx ⊕ DataBuild}
    (h : Carrying tx₀ flights b sdus) (pulled : b.pullSdus fuel = .ok result) :
    ∃ b' sdus', result = .inr b' ∧ Carrying tx₀ flights b' sdus' := by
  induction fuel generalizing b sdus with
  | zero =>
    cases pulled
    exact ⟨b, sdus, rfl, h⟩
  | succ fuel ih =>
    unfold pullSdus at pulled
    split at pulled
    · split at pulled
      · rename_i exhausted
        cases pulled
        have filled : b.pdu.isEmpty = false := by
          cases empty : b.pdu.isEmpty with
          | false => rfl
          | true => simp [h.room (List.isEmpty_iff.mp empty)] at exhausted
        rw [if_neg (by simp [filled])]
        exact ⟨b, sdus, rfl, h⟩
      · rename_i left
        dsimp only at pulled
        split at pulled
        · cases pulled
          exact ⟨_, sdus, rfl, h.dropLi (.inl rfl)⟩
        · rename_i space
          split at pulled
          · rename_i rest read
            cases pulled
            exact ⟨_, sdus, rfl, h.dropLi (.inr (readSdu_none read))⟩
          · rename_i sdu rest read
            obtain ⟨b₁, added, pulled⟩ := bind_eq_ok.mp pulled
            exact ih (h.pull read (by simpa using left) (Nat.not_le.mp space) added _) pulled
    · cases pulled
      exact ⟨b, sdus, rfl, h⟩

end DataBuild

theorem Books.addPdu (h : Books tx flights) (window : tx.WindowInv) (notFull : tx.windowFull = false) :
    Books (tx.addPdu tx.vtS) flights ∧ (tx.addPdu tx.vtS).segmentPool = tx.segmentPool := by
  have free := window.free_slot (window.room notFull)
  have pool : (tx.addPdu tx.vtS).segmentPool = tx.segmentPool := by
    unfold Tx.addPdu
    rw [free]
  refine ⟨h.congr pool rfl fun sn => ?_, pool⟩
  unfold segmentsAt
  rw [window.find_addPdu notFull]
  split
  · rename_i own
    have absent : tx.txWindow.find sn = none := by
      rw [own]
      unfold CircularMap.find
      rw [free]
    rw [absent]
    rfl
  · rfl

theorem Books.next_fresh (h : Books tx flights) (window : tx.WindowInv) {p : Nat} {flight : Flight}
    (flying : flights p = some flight) : tx.vtS ∉ flight.pending := fun mem =>
  Nat.lt_irrefl _ (window.keys _ (h.contains_of_mem flying mem)).2

theorem buildDataPdu_carrying (window : tx.WindowInv) (h : Books tx flights) (flying : Flying tx flights)
    {nofBytes : Nat} {out : List Byte} (done : tx.buildDataPdu nofBytes = .ok (tx', out)) :
    tx' = tx ∨ ∃ b sdus, tx' = (finishDataPdu b).1 ∧ Fills tx.vtS (tx.addPdu tx.vtS) b.tx ∧
      DataBuild.Carrying tx flights b sdus := by
  unfold buildDataPdu at done
  split at done
  · cases done
    exact .inl rfl
  · rename_i go
    simp only [Bool.or_eq_true, decide_eq_true_eq, Bool.not_eq_true', not_or, Bool.not_eq_true, Bool.not_eq_false]
      at go
    obtain ⟨⟨⟨_, notFull⟩, enough⟩, room⟩ := go
    obtain ⟨books, pool⟩ := h.addPdu window notFull
    have here : (tx.addPdu tx.vtS).txWindow.contains tx.vtS = true := by
      unfold CircularMap.contains
      rw [window.find_addPdu notFull, if_pos rfl]
      rfl
    obtain ⟨b, continued, done⟩ := bind_eq_ok.mp done
    have begun : ∃ sdus, DataBuild.Carrying tx flights b sdus := by
      unfold DataBuild.continueSdu at continued
      cases current : tx.txSdu with
      | none =>
        have none : (tx.addPdu tx.vtS).txSdu = none := current
        rw [none] at continued
        cases continued
        refine ⟨[], rfl, here, books, ⟨flying.filled, flying.queue, flying.waiting, flying.apart, flying.live,
          flying.current⟩, ⟨[], rfl, ?_⟩, rfl, fun _ => rfl, rfl, rfl, Nat.zero_le _,
          fun _ => by rw [pool]; exact room⟩
        rw [current]
        rfl
      | some sdu =>
        have some : (tx.addPdu tx.vtS).txSdu = some sdu := current
        rw [some] at continued
        obtain ⟨b₁, added, rest⟩ := bind_eq_ok.mp continued
        obtain ⟨filled, flight, sent, going⟩ := flying.current sdu current
        have first : DataBuild.SduAdded _ _ sdu b₁ := DataBuild.addSdu_added books here (by rw [pool]; exact room)
          sent going (h.next_fresh window sent) added
        have positive : 0 < b₁.lastLi := by
          have long := List.length_pos_iff.mpr filled
          have tailroom : minDataPduSize ≤ bufferTailroom := by decide
          have head : packedLength { dc := .dataPdu, sn := tx.vtS } = 2 := by simp [packedLength]
          have least : minDataPduSize = 3 := rfl
          rw [first.lastLi]
          dsimp only
          omega
        have queue : b₁.tx.txSduQueue = tx.txSduQueue := first.queue
        have tracked (p : Nat) : (flights.carry tx.vtS (sdu, b₁.lastLi) p).isSome = true ↔
            (flights p).isSome = true := by
          rw [carry_isSome]
          refine ⟨fun either => either.elim (fun own => ?_) id, .inr⟩
          rw [own, sent]
          rfl
        cases rest
        refine ⟨[(sdu, b₁.lastLi)], ?_, ?_, first.books, ?_, ⟨[], ?_, ?_⟩, ?_,
          fun zero => absurd zero positive.ne', ?_, ?_, first.small, fun empty => ?_⟩
        · dsimp only
          rw [first.header]
        · exact first.here.trans here
        · refine ⟨?_, ?_, ?_, fun p q its its' => flying.apart p q ((tracked p).mp its) ((tracked q).mp its'),
            flying.live.carry _ _, fun sdu' now => ?_⟩
          · dsimp only
            rw [queue]
            exact flying.filled
          · dsimp only
            rw [queue]
            exact flying.queue
          · dsimp only
            rw [queue]
            exact fun sdu' there p its => flying.waiting sdu' there p ((tracked p).mp its)
          · obtain ⟨sn, left, part⟩ := first.current sdu' now
            refine ⟨left, _, by rw [sn]; exact update_self _ _ _, ?_⟩
            simp [part]
        · exact queue.symm
        · rw [current]
          rfl
        · dsimp only
          rw [if_pos positive, first.header]
          rfl
        · have bytes := first.bytes
          rw [bytes]
          simp
        · dsimp only
          rw [first.data]
          simp
        · have bytes := first.bytes
          rw [empty, length_nil] at bytes
          omega
    obtain ⟨sdus, begun⟩ := begun
    obtain ⟨result, pulled, done⟩ := bind_eq_ok.mp done
    obtain ⟨b', sdus', rfl, carrying⟩ := DataBuild.pullSdus_carrying begun pulled
    have fills : Fills tx.vtS (tx.addPdu tx.vtS) b'.tx := by
      obtain ⟨first, sn, _⟩ := DataBuild.continueSdu_fills continued
      rcases DataBuild.pullSdus_fills pulled with ⟨_, _, gaveUp⟩ | ⟨b₂, second, _, _, same⟩
      · cases gaveUp
      · cases same
        rw [sn] at second
        exact first.trans second
    cases done
    exact .inr ⟨b', sdus', rfl, fills, carrying⟩

end Tx

end IsrRan.Rlc.AmLte
