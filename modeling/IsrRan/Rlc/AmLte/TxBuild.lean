import IsrRan.Rlc.AmLte.TxAcks

namespace IsrRan.Rlc.AmLte.Tx
open Lib Adt

variable {tx tx' tx'' : Tx} {sn : Nat}

structure Fills (sn : Nat) (tx tx' : Tx) : Prop where
  cfg : tx'.cfg = tx.cfg
  txEnabled : tx'.txEnabled = tx.txEnabled
  vtA : tx'.vtA = tx.vtA
  vtMs : tx'.vtMs = tx.vtMs
  vtS : tx'.vtS = tx.vtS
  retxQueue : tx'.retxQueue = tx.retxQueue
  notifyInfoVec : tx'.notifyInfoVec = tx.notifyInfoVec
  wellFormed : tx.txWindow.WellFormed → tx'.txWindow.WellFormed
  others : ∀ sn' ≠ sn, tx'.txWindow.find sn' = tx.txWindow.find sn'
  own : tx'.txWindow.contains sn = tx.txWindow.contains sn

namespace Fills

theorem refl (sn : Nat) (tx : Tx) : Fills sn tx tx :=
  ⟨rfl, rfl, rfl, rfl, rfl, rfl, rfl, id, fun _ _ => rfl, rfl⟩

theorem trans (first : Fills sn tx tx') (second : Fills sn tx' tx'') : Fills sn tx tx'' where
  cfg := second.cfg.trans first.cfg
  txEnabled := second.txEnabled.trans first.txEnabled
  vtA := second.vtA.trans first.vtA
  vtMs := second.vtMs.trans first.vtMs
  vtS := second.vtS.trans first.vtS
  retxQueue := second.retxQueue.trans first.retxQueue
  notifyInfoVec := second.notifyInfoVec.trans first.notifyInfoVec
  wellFormed := second.wellFormed ∘ first.wellFormed
  others := fun sn' other => (second.others sn' other).trans (first.others sn' other)
  own := second.own.trans first.own

end Fills

theorem fills_with (sn : Nat) (tx : Tx) (txSdu : Option TxSdu) (txSduQueue : List (Option TxSdu))
    (segmentPool : SegmentPool) (undeliveredSdus : BufferedPdcpPduList) :
    Fills sn tx { tx with txSdu, txSduQueue, segmentPool, undeliveredSdus } :=
  ⟨rfl, rfl, rfl, rfl, rfl, rfl, rfl, id, fun _ _ => rfl, rfl⟩

theorem fills_makeSegment (tx : Tx) (sn pdcpSn : Nat) : Fills sn tx (tx.makeSegment sn pdcpSn) := by
  unfold makeSegment
  split
  · rename_i id pool pdu _ found
    have present : tx.txWindow.contains sn = true := CircularMap.contains_eq_true.mpr ⟨pdu, found⟩
    refine ⟨rfl, rfl, rfl, rfl, rfl, rfl, rfl, fun h => h.assign (by decide) _ _, fun sn' other => ?_, ?_⟩
    · dsimp only
      rw [CircularMap.find_assign present, if_neg other]
    · dsimp only
      unfold CircularMap.contains
      rw [CircularMap.find_assign present, if_pos rfl, found]
      rfl
  · exact .refl sn tx

theorem fills_setFullyTxed (sn : Nat) (tx : Tx) (pdcpSn : Nat) : Fills sn tx (tx.setFullyTxed pdcpSn) :=
  fills_with sn tx _ _ _ _

theorem fills_storeSduInfo (sn : Nat) (tx : Tx) (pdcpSn : Nat) : Fills sn tx (tx.storeSduInfo pdcpSn) := by
  unfold storeSduInfo
  split
  · exact .refl sn tx
  · exact fills_with sn tx _ _ _ _

namespace DataBuild

variable {b b' : DataBuild}

def Small (b : DataBuild) : Prop := b.pdu.length ≤ bufferTailroom ∧ b.header.li.length ≤ maxSdusPerPdu

theorem addSdu_fills {sdu : TxSdu} (added : b.addSdu sdu = .ok b') :
    Fills b.header.sn b.tx b'.tx ∧ b'.header = b.header ∧ b'.pdu.length ≤ bufferTailroom := by
  unfold addSdu at added
  dsimp only at added
  split at added
  · contradiction
  · rename_i room
    cases added
    refine ⟨Fills.trans ?_ (fills_with _ _ _ _ _ _), rfl, ?_⟩
    rotate_left
    · rw [List.length_append, List.length_take]
      omega
    split
    · split
      · exact (fills_makeSegment b.tx _ _).trans (fills_setFullyTxed _ _ _)
      · exact fills_makeSegment b.tx _ _
    · exact .refl _ b.tx

theorem continueSdu_fills (continued : b.continueSdu = .ok b') :
    Fills b.header.sn b.tx b'.tx ∧ b'.header.sn = b.header.sn ∧ (b.Small → b'.Small) := by
  unfold continueSdu at continued
  split at continued
  · cases continued
    exact ⟨.refl _ _, rfl, id⟩
  · obtain ⟨b₁, added, rest⟩ := bind_eq_ok.mp continued
    cases rest
    obtain ⟨fills, header, fits⟩ := addSdu_fills added
    exact ⟨fills, by rw [← header], fun small => ⟨fits, by rw [header]; exact small.2⟩⟩

theorem pullSdus_fills {fuel : Nat} {result : Tx ⊕ DataBuild} (pulled : b.pullSdus fuel = .ok result) :
    (∃ b' : DataBuild, Fills b.header.sn b.tx b'.tx ∧ result = .inl (b'.tx.removePdu b.header.sn)) ∨
      ∃ b' : DataBuild, Fills b.header.sn b.tx b'.tx ∧ b'.header.sn = b.header.sn ∧ (b.Small → b'.Small) ∧
        result = .inr b' := by
  induction fuel generalizing b with
  | zero =>
    cases pulled
    exact .inr ⟨b, .refl _ _, rfl, id, rfl⟩
  | succ fuel ih =>
    unfold pullSdus at pulled
    split at pulled
    · rename_i more
      have few : b.header.li.length < maxSdusPerPdu := by
        simp only [Bool.and_eq_true, decide_eq_true_eq] at more
        exact more.2
      have pushed : b.pushLi.header.li.length ≤ maxSdusPerPdu := by
        unfold pushLi
        split
        · rw [List.length_append]
          exact few
        · exact few.le
      have dropped (tx : Tx) : b.Small → ({ b.pushLi with tx } : DataBuild).dropLi.Small := by
        refine fun small => ⟨small.1, ?_⟩
        change b.pushLi.header.li.dropLast.length ≤ maxSdusPerPdu
        rw [List.length_dropLast]
        omega
      split at pulled
      · cases pulled
        split
        · exact .inl ⟨b, .refl _ _, rfl⟩
        · exact .inr ⟨b, .refl _ _, rfl, id, rfl⟩
      · dsimp only at pulled
        split at pulled
        · cases pulled
          exact .inr ⟨b.pushLi.dropLi, .refl _ b.tx, rfl, dropped b.tx, rfl⟩
        · split at pulled
          · rename_i rest _
            cases pulled
            exact .inr ⟨{ b.pushLi with tx := { b.tx with txSduQueue := rest } }.dropLi,
              fills_with _ b.tx _ _ _ _, rfl, dropped _, rfl⟩
          · obtain ⟨b₁, added, pulled⟩ := bind_eq_ok.mp pulled
            obtain ⟨fills, header, fits⟩ := addSdu_fills added
            have before := ((fills_with b.header.sn b.tx _ _ _ _).trans
              (fills_storeSduInfo b.header.sn _ _)).trans fills
            have sn : b₁.header.sn = b.header.sn := by
              rw [header]
              rfl
            have small : b₁.Small := ⟨fits, by rw [header]; exact pushed⟩
            have rest := ih pulled
            rw [sn] at rest
            rcases rest with ⟨b', fills', eq⟩ | ⟨b', fills', sn', small', eq⟩
            · exact .inl ⟨b', before.trans fills', eq⟩
            · exact .inr ⟨b', before.trans fills', sn', fun _ => small' small, eq⟩
    · cases pulled
      exact .inr ⟨b, .refl _ _, rfl, id, rfl⟩

end DataBuild

theorem find_removePdu (tx : Tx) (sn sn' : Nat) :
    (tx.removePdu sn).txWindow.find sn' = if sn' = sn then none else tx.txWindow.find sn' := by
  unfold removePdu
  split
  · rename_i absent
    split
    · rename_i same
      rw [same, absent]
    · rfl
  · exact CircularMap.find_erase _ _ _

theorem contains_removePdu (tx : Tx) (sn sn' : Nat) :
    (tx.removePdu sn).txWindow.contains sn' = if sn' = sn then false else tx.txWindow.contains sn' := by
  unfold CircularMap.contains
  rw [find_removePdu]
  split <;> rfl

inductive Built (tx : Tx) : Tx → List Byte → Prop where
  | nothing : Built tx tx []
  | gaveUp {b : DataBuild} : tx.windowFull = false → Fills tx.vtS (tx.addPdu tx.vtS) b.tx →
      Built tx (b.tx.removePdu tx.vtS) []
  | done {b : DataBuild} : tx.windowFull = false → Fills tx.vtS (tx.addPdu tx.vtS) b.tx →
      b.header.sn = tx.vtS → b.Small → Built tx (finishDataPdu b).1 (finishDataPdu b).2

theorem buildDataPdu_built {nofBytes : Nat} {pdu : List Byte}
    (done : tx.buildDataPdu nofBytes = .ok (tx', pdu)) : Built tx tx' pdu := by
  unfold buildDataPdu at done
  split at done
  · cases done
    exact .nothing
  · rename_i go
    have room : tx.windowFull = false := by
      simp only [Bool.or_eq_true, not_or, Bool.not_eq_true] at go
      exact go.1.1.2
    obtain ⟨b, continued, done⟩ := bind_eq_ok.mp done
    obtain ⟨result, pulled, done⟩ := bind_eq_ok.mp done
    obtain ⟨first, sn, small⟩ := DataBuild.continueSdu_fills continued
    have rest := DataBuild.pullSdus_fills pulled
    rw [sn] at rest
    rcases rest with ⟨b', second, rfl⟩ | ⟨b', second, sn', small', rfl⟩
    · cases done
      exact .gaveUp room (first.trans second)
    · cases done
      exact .done room (first.trans second) sn' (small' (small ⟨Nat.zero_le _, Nat.zero_le _⟩))

structure Added (tx tx' : Tx) : Prop where
  vtA : tx'.vtA = tx.vtA
  vtMs : tx'.vtMs = tx.vtMs
  vtS : tx'.vtS = tx.vtS
  wellFormed : tx'.txWindow.WellFormed
  others : ∀ sn ≠ tx.vtS, tx'.txWindow.find sn = tx.txWindow.find sn
  own : tx'.txWindow.contains tx.vtS = true

section
variable (h : tx.WindowInv)
include h

theorem WindowInv.room (notFull : tx.windowFull = false) : tx.offset tx.vtS < windowSize := by
  unfold windowFull at notFull
  rw [txModBase_eq h.vtA] at notFull
  simpa using notFull

theorem WindowInv.free_slot (room : tx.offset tx.vtS < windowSize) :
    tx.txWindow.slots (tx.vtS % windowSize) = none := by
  cases taken : tx.txWindow.slots (tx.vtS % windowSize) with
  | none => rfl
  | some entry =>
    obtain ⟨sn, pdu⟩ := entry
    have found := h.wellFormed.find_eq taken
    have placed := h.wellFormed.placed _ _ _ taken
    obtain ⟨hsn, below⟩ := h.keys sn (CircularMap.contains_eq_true.mpr ⟨pdu, found⟩)
    obtain rfl := eq_of_slot_eq h.vtA hsn (by decide) h.vtS (Nat.lt_trans below room) room placed
    exact absurd below (Nat.lt_irrefl _)

theorem WindowInv.find_addPdu (notFull : tx.windowFull = false) (sn : Nat) :
    (tx.addPdu tx.vtS).txWindow.find sn = if sn = tx.vtS then some { header := {} } else tx.txWindow.find sn := by
  have free := h.free_slot (h.room notFull)
  refine CircularMap.find_overwrite_of_alone (fun old found slot => ?_) _
  rw [← slot, CircularMap.find_of_slot found] at free
  contradiction

theorem WindowInv.added (notFull : tx.windowFull = false)
    (fills : Fills tx.vtS (tx.addPdu tx.vtS) tx') : Added tx tx' := by
  refine ⟨fills.vtA, fills.vtMs, fills.vtS, fills.wellFormed (h.wellFormed.overwrite (by decide) _ _),
    fun sn other => ?_, ?_⟩
  · rw [fills.others sn other, h.find_addPdu notFull, if_neg other]
  · rw [fills.own]
    unfold CircularMap.contains
    rw [h.find_addPdu notFull, if_pos rfl]
    rfl

end

theorem Added.contains (h : Added tx tx') {sn : Nat} (present : tx'.txWindow.contains sn = true) :
    sn = tx.vtS ∨ tx.txWindow.contains sn = true := by
  by_cases own : sn = tx.vtS
  · exact .inl own
  · right
    unfold CircularMap.contains at present ⊢
    rwa [h.others sn own] at present

theorem finishDataPdu_eq (b : DataBuild) {pdu : TxPdu} (found : b.tx.txWindow.find b.header.sn = some pdu) :
    ∃ p fi pollSn pduWithoutPoll byteWithoutPoll pollRetxTimer, (finishDataPdu b).1 =
      { b.tx with
        pollSn, pduWithoutPoll, byteWithoutPoll, pollRetxTimer
        vtS := (b.tx.vtS + 1) % mod
        txWindow :=
          b.tx.txWindow.assign b.header.sn { pdu with header := { b.header with p, fi }, buf := some b.pdu } } := by
  unfold finishDataPdu
  dsimp only
  generalize pollRequired _ = p
  cases p with
  | false =>
    simp only [Bool.false_eq_true, if_false, found]
    exact ⟨_, _, _, _, _, _, rfl⟩
  | true =>
    simp only [if_true]
    unfold resetPoll
    simp only [found]
    exact ⟨_, _, _, _, _, _, rfl⟩

theorem WindowInv.built (h : tx.WindowInv) {pdu : List Byte} (built : Built tx tx' pdu) : tx'.WindowInv := by
  cases built with
  | nothing => exact h
  | @gaveUp b notFull fills =>
    have added := h.added notFull fills
    have same : (b.tx.removePdu tx.vtS).vtA = tx.vtA ∧ (b.tx.removePdu tx.vtS).vtS = tx.vtS ∧
        (b.tx.removePdu tx.vtS).vtMs = tx.vtMs ∧ (b.tx.removePdu tx.vtS).txWindow.WellFormed := by
      unfold removePdu
      split
      · exact ⟨added.vtA, added.vtS, added.vtMs, added.wellFormed⟩
      · exact ⟨added.vtA, added.vtS, added.vtMs, added.wellFormed.erase (by decide) _⟩
    obtain ⟨vtA, vtS, vtMs, wellFormed⟩ := same
    refine ⟨by rw [vtA]; exact h.vtA, by rw [vtS]; exact h.vtS, by rw [vtMs, vtA]; exact h.vtMs, ?_, wellFormed,
      fun sn present => ?_⟩
    · unfold offset
      rw [vtA, vtS]
      exact h.order
    · rw [contains_removePdu] at present
      split at present
      · contradiction
      · rename_i other
        unfold offset
        rw [vtA, vtS]
        exact h.keys sn ((added.contains present).resolve_left other)
  | @done b notFull fills own small =>
    have added := h.added notFull fills
    have room := h.room notFull
    have next : tx.offset ((tx.vtS + 1) % mod) = tx.offset tx.vtS + 1 :=
      modOffset_succ h.vtA h.vtS (by unfold offset windowSize mod at *; omega)
    obtain ⟨ownPdu, found⟩ := CircularMap.contains_eq_true.mp added.own
    rw [← own] at found
    obtain ⟨p, fi, _, _, _, _, eq⟩ := finishDataPdu_eq b found
    have present := added.own
    rw [← own] at present
    rw [eq]
    refine ⟨added.vtA ▸ h.vtA, Nat.mod_lt _ (by decide), ?_, ?_, added.wellFormed.assign (by decide) _ _,
      fun sn there => ?_⟩
    · change b.tx.vtMs = (b.tx.vtA + windowSize) % mod
      rw [added.vtMs, added.vtA]
      exact h.vtMs
    · change modOffset mod b.tx.vtA ((b.tx.vtS + 1) % mod) ≤ windowSize
      rw [added.vtA, added.vtS]
      change tx.offset ((tx.vtS + 1) % mod) ≤ windowSize
      rw [next]
      exact room
    · change sn < mod ∧ modOffset mod b.tx.vtA sn < modOffset mod b.tx.vtA ((b.tx.vtS + 1) % mod)
      rw [added.vtA, added.vtS]
      change sn < mod ∧ tx.offset sn < tx.offset ((tx.vtS + 1) % mod)
      have before : b.tx.txWindow.contains sn = true := by
        unfold CircularMap.contains at there ⊢
        rw [CircularMap.find_assign present] at there
        split at there
        · rename_i same
          rw [same, found]
          rfl
        · exact there
      rw [next]
      rcases added.contains before with rfl | old
      · exact ⟨h.vtS, Nat.lt_succ_self _⟩
      · obtain ⟨hsn, below⟩ := h.keys sn old
        exact ⟨hsn, by omega⟩

end IsrRan.Rlc.AmLte.Tx
