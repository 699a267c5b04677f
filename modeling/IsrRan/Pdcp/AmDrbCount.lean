import IsrRan.Pdcp.Count
import IsrRan.Pdcp.EntityLteRx

namespace IsrRan.Pdcp
open List

theorem i32_u32Sub {a b : Nat} (ha : a < 2147483648) (hb : b < 2147483648) :
    i32 (u32Sub a b) = (a : Int) - b := by
  unfold i32 u32Sub
  split <;> omega

structure CountedPdu where
  count : Nat
  pdu : List Byte
  deriving DecidableEq, Repr

structure CountedPdu.Carried (cfg : Config) (p : CountedPdu) : Prop where
  count : p.count < 4294967296
  nBytes : p.pdu.length < 4294967296
  data : isControlPdu p.pdu = false
  long : cfg.hdrLenBytes < p.pdu.length
  sn : readDataHeader cfg p.pdu = cfg.sn p.count

instance (cfg : Config) (p : CountedPdu) : Decidable (p.Carried cfg) :=
  decidable_of_iff (p.count < 4294967296 ∧ p.pdu.length < 4294967296 ∧ isControlPdu p.pdu = false ∧
      cfg.hdrLenBytes < p.pdu.length ∧ readDataHeader cfg p.pdu = cfg.sn p.count)
    ⟨fun h => ⟨h.1, h.2.1, h.2.2.1, h.2.2.2.1, h.2.2.2.2⟩, fun h => ⟨h.count, h.nBytes, h.data, h.long, h.sn⟩⟩

/-- The PDUs that are to go up of those received after the COUNT `last` was submitted. -/
def above (last : Int) : List CountedPdu → List CountedPdu
  | [] => []
  | p :: ps => if last < p.count then p :: above p.count ps else above last ps

def submitted (security : RxSecurity) (cfg : Config) (last : Int) (ps : List CountedPdu) : List RxSdu :=
  (above last ps).map fun p =>
    ⟨p.count, security.decipher p.count (p.pdu.drop cfg.hdrLenBytes), p.pdu.length - cfg.hdrLenBytes⟩

def Fits (security : RxSecurity) (cfg : Config) (last : Int) (ps : List CountedPdu) : Prop :=
  ∀ p ∈ above last ps, security.fits (p.pdu.length - cfg.hdrLenBytes) = true

instance (security : RxSecurity) (cfg : Config) (last : Int) (ps : List CountedPdu) :
    Decidable (Fits security cfg last ps) :=
  inferInstanceAs (Decidable (∀ p ∈ above last ps, security.fits (p.pdu.length - cfg.hdrLenBytes) = true))

def lastSubmitted (last : Int) : List CountedPdu → Int
  | [] => last
  | p :: ps => lastSubmitted (max last p.count) ps

/-- Each COUNT is less than a reordering window away from the one last submitted before it. -/
def InWindow (last : Int) : List CountedPdu → Prop
  | [] => True
  | p :: ps => last - reorderingWindow < p.count ∧ p.count < last + reorderingWindow ∧
      InWindow (max last p.count) ps

instance decidableInWindow : (last : Int) → (ps : List CountedPdu) → Decidable (InWindow last ps)
  | _, [] => .isTrue trivial
  | last, p :: ps =>
    @instDecidableAnd _ _ _ (@instDecidableAnd _ _ _ (decidableInWindow (max last p.count) ps))

theorem above_above {last : Int} {ps : List CountedPdu} : ∀ p ∈ above last ps, last < p.count := by
  induction ps generalizing last with
  | nil => simp [above]
  | cons p ps ih =>
    intro q mem
    unfold above at mem
    split at mem
    · rename_i newer
      rcases List.mem_cons.mp mem with rfl | mem
      · exact newer
      · exact Int.lt_trans newer (ih q mem)
    · exact ih q mem

theorem above_increasing (last : Int) (ps : List CountedPdu) : (above last ps).Pairwise fun a b => a.count < b.count := by
  induction ps generalizing last with
  | nil => exact .nil
  | cons p ps ih =>
    unfold above
    split
    · refine .cons (fun q mem => ?_) (ih _)
      have := above_above q mem
      omega
    · exact ih _

theorem above_cons (last : Int) (p : CountedPdu) (ps : List CountedPdu) :
    above last (p :: ps) = above last [p] ++ above (max last p.count) ps := by
  simp only [above]
  split
  · rw [max_eq_right (by omega)]
    rfl
  · rw [max_eq_left (by omega)]
    rfl

namespace EntityLteRx

variable {e : EntityLteRx} {last : Int}

structure IsAmDrb (e : EntityLteRx) : Prop where
  active : e.active = true
  snLen : e.cfg.snLen = .len12
  drb : e.cfg.isSrb = false
  am : e.cfg.rbIsUm = false

structure Synchronised (e : EntityLteRx) (last : Int) : Prop where
  lower : -1 ≤ last
  upper : last < 4294967296
  next : ((e.rxHfn * e.cfg.snSpace + e.nextPdcpRxSn : Nat) : Int) = last + 1
  nextSn : e.nextPdcpRxSn < e.cfg.snSpace
  lastSn : (e.lastSubmittedPdcpRxSn : Int) = last % e.cfg.snSpace

theorem IsAmDrb.snSpace (drb : e.IsAmDrb) : e.cfg.snSpace = 4096 := by
  simp [Config.snSpace, drb.snLen, SnLen.bits]

theorem configure_synchronised {cfg : Config} (snLen : cfg.snLen = .len12) :
    (configure cfg).Synchronised (-1) := by
  have space : cfg.snSpace = 4096 := by simp [Config.snSpace, snLen, SnLen.bits]
  refine ⟨Int.le_refl _, by decide, by simp [configure], ?_, ?_⟩
  · exact Config.snSpace_pos cfg
  · simp [configure, Config.maximumPdcpSn, space]

theorem Synchronised.discards (sync : e.Synchronised last) (space : e.cfg.snSpace = 4096) {count : Nat}
    (near : last - reorderingWindow < count ∧ count < last + reorderingWindow) :
    e.discards (e.cfg.sn count) = decide ((count : Int) ≤ last) := by
  have lastSn := sync.lastSn
  have window : reorderingWindow = 2048 := rfl
  simp only [Config.sn, space] at *
  have small : e.lastSubmittedPdcpRxSn < 2147483648 := by omega
  simp only [EntityLteRx.discards]
  rw [i32_u32Sub small (by omega), i32_u32Sub (by omega) small, Bool.eq_iff_iff]
  simp only [Bool.or_eq_true, Bool.and_eq_true, decide_eq_true_eq]
  omega

theorem Synchronised.inferCount (sync : e.Synchronised last) (drb : e.IsAmDrb) {count : Nat}
    (small : count < 4294967296) (above : last < count) (near : count < last + reorderingWindow) :
    (e.inferCount (e.cfg.sn count)).2 = count ∧
      ∃ hfn next, (e.inferCount (e.cfg.sn count)).1 = { e with rxHfn := hfn, nextPdcpRxSn := next } ∧
        hfn * 4096 + next = count + 1 ∧ next < 4096 := by
  have space := drb.snSpace
  obtain ⟨lower, upper, next, nextSn, -⟩ := sync
  have window : reorderingWindow = 2048 := rfl
  have infer : ∀ hfn, hfn * 4096 + count % 4096 = count → e.cfg.count hfn (count % 4096) = count := by
    intro hfn eq
    rw [Config.count_eq e.cfg (by rw [space]; omega) (by rw [space]; omega), space, eq]
  simp only [Config.sn, space] at *
  unfold EntityLteRx.inferCount
  rw [i32_u32Sub (by omega) (by omega), i32_u32Sub (by omega) (by omega)]
  by_cases wrapped : (reorderingWindow : Int) < (e.nextPdcpRxSn : Int) - ((count % 4096 : Nat) : Int)
  · rw [if_pos wrapped]
    refine ⟨infer (e.rxHfn + 1) (by omega), (e.rxHfn + 1) % 4294967296, count % 4096 + 1, rfl, ?_, by omega⟩
    omega
  · rw [if_neg wrapped, if_neg (by omega), if_pos (by omega)]
    refine ⟨infer e.rxHfn (by omega), ?_⟩
    have maximum : e.cfg.maximumPdcpSn = 4095 := by simp [Config.maximumPdcpSn, drb.snSpace]
    unfold setNextPdcpRxSn
    split
    · refine ⟨(e.rxHfn + 1) % 4294967296, 0, rfl, ?_, by decide⟩
      omega
    · exact ⟨e.rxHfn, count % 4096 + 1, rfl, by omega, by omega⟩

theorem handleAmDrbPdu_spec (drb : e.IsAmDrb) (sync : e.Synchronised last) (security : RxSecurity)
    {p : CountedPdu} (carried : p.Carried e.cfg)
    (near : last - reorderingWindow < p.count ∧ p.count < last + reorderingWindow) :
    (¬ Fits security e.cfg last [p] ∧ e.handleAmDrbPdu security p.pdu = .error .undefinedBehaviour) ∨
    (Fits security e.cfg last [p] ∧ ∃ e', e.handleAmDrbPdu security p.pdu =
        .ok (e', (submitted security e.cfg last [p]).map RxCall.writePdu) ∧
      e'.IsAmDrb ∧ e'.cfg = e.cfg ∧ e'.Synchronised (max last p.count)) := by
  have long := carried.long
  have space := drb.snSpace
  unfold EntityLteRx.handleAmDrbPdu discardDataHeader Fits
  rw [carried.sn, u32Sub_of_le long.le carried.nBytes]
  simp only [sync.discards space near, submitted, above, decide_eq_true_eq]
  by_cases old : (p.count : Int) ≤ last
  · rw [if_pos old, if_neg (by omega), max_eq_left old]
    exact .inr ⟨by simp, e, rfl, drb, rfl, sync⟩
  · rw [if_neg old, if_pos (by omega), max_eq_right (by omega), forall_mem_singleton]
    cases room : security.fits (p.pdu.length - e.cfg.hdrLenBytes) with
    | false => exact .inl ⟨by simp, rfl⟩
    | true =>
      refine .inr ⟨rfl, ?_⟩
      obtain ⟨infer, hfn, next, moved, eq, small⟩ :=
        sync.inferCount drb carried.count (by omega) near.2
      rw [infer, moved]
      refine ⟨_, rfl, ⟨drb.active, drb.snLen, drb.drb, drb.am⟩, rfl, ?_⟩
      have count := carried.count
      refine ⟨by omega, by omega, ?_, ?_, ?_⟩
      · dsimp only
        rw [space, eq]
        exact Int.natCast_succ _
      · exact space ▸ small
      · simp [Config.sn]

theorem writePdu_spec (drb : e.IsAmDrb) (sync : e.Synchronised last) (security : RxSecurity) (stale : List Byte)
    {p : CountedPdu} (carried : p.Carried e.cfg)
    (near : last - reorderingWindow < p.count ∧ p.count < last + reorderingWindow) :
    (¬ Fits security e.cfg last [p] ∧ e.writePdu security stale p.pdu = .error .undefinedBehaviour) ∨
    (Fits security e.cfg last [p] ∧ ∃ e', e.writePdu security stale p.pdu =
        .ok (e', (submitted security e.cfg last [p]).map RxCall.writePdu) ∧
      e'.IsAmDrb ∧ e'.cfg = e.cfg ∧ e'.Synchronised (max last p.count)) := by
  have long := carried.long
  unfold EntityLteRx.writePdu
  obtain ⟨integrity, encryption, timed, eq⟩ := enableSecurity_eq e (readDataHeader e.cfg p.pdu)
  generalize e.enableSecurity (readDataHeader e.cfg p.pdu) = enabled at eq
  have cfg : enabled.cfg = e.cfg := by rw [eq]
  have drb' : enabled.IsAmDrb := by
    rw [eq]
    exact ⟨drb.active, drb.snLen, drb.drb, drb.am⟩
  have sync' : enabled.Synchronised last := by
    rw [eq]
    exact ⟨sync.lower, sync.upper, sync.next, sync.nextSn, sync.lastSn⟩
  simp only [drb.active, carried.data, drb'.drb, drb'.am, Bool.and_false, if_neg (Nat.not_le_of_lt long)]
  have spec := handleAmDrbPdu_spec drb' sync' security (cfg.symm ▸ carried) near
  rwa [cfg] at spec

def writePdus (e : EntityLteRx) (security : RxSecurity) (stale : List Byte) :
    List (List Byte) → Except Fault (EntityLteRx × List RxCall)
  | [] => .ok (e, [])
  | pdu :: pdus => do
    let first ← e.writePdu security stale pdu
    let rest ← first.1.writePdus security stale pdus
    .ok (rest.1, first.2 ++ rest.2)

theorem fits_cons {security : RxSecurity} {cfg : Config} {p : CountedPdu} {ps : List CountedPdu} :
    Fits security cfg last (p :: ps) ↔ Fits security cfg last [p] ∧ Fits security cfg (max last p.count) ps := by
  unfold Fits
  rw [above_cons last p ps, forall_mem_append]

theorem submitted_cons (security : RxSecurity) (cfg : Config) (last : Int) (p : CountedPdu)
    (ps : List CountedPdu) : submitted security cfg last (p :: ps) =
      submitted security cfg last [p] ++ submitted security cfg (max last p.count) ps := by
  unfold submitted
  rw [above_cons last p ps, map_append]

theorem writePdus_spec (security : RxSecurity) (stale : List Byte) {ps : List CountedPdu}
    (drb : e.IsAmDrb) (sync : e.Synchronised last) (carried : ∀ p ∈ ps, p.Carried e.cfg)
    (window : InWindow last ps) :
    (¬ Fits security e.cfg last ps ∧
      e.writePdus security stale (ps.map CountedPdu.pdu) = .error .undefinedBehaviour) ∨
    (Fits security e.cfg last ps ∧ ∃ e', e.writePdus security stale (ps.map CountedPdu.pdu) =
        .ok (e', (submitted security e.cfg last ps).map RxCall.writePdu) ∧
      e'.Synchronised (lastSubmitted last ps)) := by
  induction ps generalizing e last with
  | nil => exact .inr ⟨by simp [Fits, above], e, rfl, sync⟩
  | cons p ps ih =>
    obtain ⟨lower, upper, window⟩ := window
    simp only [map_cons, writePdus]
    rcases writePdu_spec drb sync security stale (carried p mem_cons_self) ⟨lower, upper⟩ with
      ⟨overflows, failed⟩ | ⟨fits, e₁, first, drb₁, cfg₁, sync₁⟩
    · rw [failed]
      exact .inl ⟨fun all => overflows (fits_cons.mp all).1, rfl⟩
    · have carried' : ∀ q ∈ ps, q.Carried e₁.cfg := by
        intro q mem
        rw [cfg₁]
        exact carried q (mem_cons_of_mem _ mem)
      rw [first, fits_cons, submitted_cons security e.cfg last p ps]
      rcases ih drb₁ sync₁ carried' window with ⟨overflows, failed⟩ | ⟨fits', e', rest, sync'⟩
      · simp only [bind, Except.bind, failed]
        exact .inl ⟨fun all => overflows (cfg₁ ▸ all.2), trivial⟩
      · simp only [bind, Except.bind, rest, cfg₁, map_append]
        exact .inr ⟨⟨fits, cfg₁ ▸ fits'⟩, e', rfl, sync'⟩

theorem counts_synchronised (security : RxSecurity) (stale : List Byte) {ps : List CountedPdu}
    (drb : e.IsAmDrb) (sync : e.Synchronised last) (carried : ∀ p ∈ ps, p.Carried e.cfg)
    (window : InWindow last ps) :
    (∃ e', e.writePdus security stale (ps.map CountedPdu.pdu) =
        .ok (e', (submitted security e.cfg last ps).map RxCall.writePdu) ∧
      e'.Synchronised (lastSubmitted last ps) ∧
      (submitted security e.cfg last ps).Pairwise fun a b => a.count < b.count) ↔
    Fits security e.cfg last ps := by
  have increasing : (submitted security e.cfg last ps).Pairwise fun a b => a.count < b.count :=
    List.pairwise_map.mpr (above_increasing last ps)
  rcases writePdus_spec security stale drb sync carried window with
    ⟨overflows, failed⟩ | ⟨fits, e', done, sync'⟩
  · refine iff_of_false ?_ overflows
    rintro ⟨e', done, -⟩
    rw [failed] at done
    contradiction
  · exact iff_of_true ⟨e', done, sync', increasing⟩ fits

def amDrbConfig : Config := { snLen := .len12, isSrb := false, rbIsUm := false }

def addingSecurity : RxSecurity where
  integrity := none
  cipherDecrypt := some fun count msg => msg.map fun b => b - UInt8.ofNat count
  cipherDecrypt_length := by simp

def wrappingPdus : List CountedPdu :=
  [⟨2046, [0x87, 0xFE, 1]⟩, ⟨4080, [0x8F, 0xF0, 2]⟩, ⟨4097, [0x80, 1, 3]⟩, ⟨4090, [0x8F, 0xFA, 4]⟩,
    ⟨6144, [0xF8, 0, 5]⟩]

theorem counts_synchronised_wrappingPdus :
    ∃ e', (configure amDrbConfig).writePdus addingSecurity [] (wrappingPdus.map CountedPdu.pdu) =
        .ok (e', [.writePdu ⟨2046, [3], 1⟩, .writePdu ⟨4080, [18], 1⟩, .writePdu ⟨4097, [2], 1⟩,
          .writePdu ⟨6144, [5], 1⟩]) ∧
      e'.Synchronised 6144 := by
  obtain ⟨e', done, sync, -⟩ := (@counts_synchronised (configure amDrbConfig) (-1) addingSecurity [] wrappingPdus
    ⟨rfl, rfl, rfl, rfl⟩ (configure_synchronised rfl) (by decide) (by decide)).mpr (by decide)
  exact ⟨e', done, sync⟩

def zeroPdu (nBytes : Nat) : CountedPdu := ⟨0, 128 :: 0 :: replicate nBytes 0⟩

theorem zeroPdu_length (nBytes : Nat) : (zeroPdu nBytes).pdu.length = nBytes + 2 := by simp [zeroPdu]

theorem zeroPdu_carried {nBytes : Nat} (payload : 0 < nBytes) (small : nBytes < 4294967294) :
    (zeroPdu nBytes).Carried amDrbConfig := by
  have long : amDrbConfig.hdrLenBytes < (zeroPdu nBytes).pdu.length := by
    rw [zeroPdu_length]
    exact Nat.lt_add_of_pos_left payload
  refine ⟨by simp [zeroPdu], by rw [zeroPdu_length]; omega, rfl, long, ?_⟩
  rw [readDataHeader, if_neg (Nat.not_le_of_lt long)]
  simp [amDrbConfig, zeroPdu, byteAt, Config.sn, Config.snSpace, SnLen.bits]

theorem zeroPdu_fits {nBytes : Nat} (fits : Fits addingSecurity amDrbConfig (-1) [zeroPdu nBytes]) :
    nBytes ≤ pdcpMaxSduSize := by
  have room := fits (zeroPdu nBytes) mem_cons_self
  rw [zeroPdu_length] at room
  exact of_decide_eq_true room

theorem counts_synchronised_overflows :
    ¬ ∀ (security : RxSecurity) (stale : List Byte) (e : EntityLteRx) (last : Int) (ps : List CountedPdu),
      e.IsAmDrb → e.Synchronised last → (∀ p ∈ ps, p.Carried e.cfg) → InWindow last ps →
      ∃ e', e.writePdus security stale (ps.map CountedPdu.pdu) =
          .ok (e', (submitted security e.cfg last ps).map RxCall.writePdu) ∧
        e'.Synchronised (lastSubmitted last ps) ∧
        (submitted security e.cfg last ps).Pairwise fun a b => a.count < b.count := by
  intro claim
  have drb : (configure amDrbConfig).IsAmDrb := ⟨rfl, rfl, rfl, rfl⟩
  have sync : (configure amDrbConfig).Synchronised (-1) := configure_synchronised rfl
  have carried : ∀ p ∈ [zeroPdu 9001], p.Carried (configure amDrbConfig).cfg :=
    List.forall_mem_singleton.mpr (zeroPdu_carried (by decide) (by decide))
  have window : InWindow (-1) [zeroPdu 9001] := ⟨by decide, by decide, trivial⟩
  obtain ⟨e', done, -⟩ := claim addingSecurity [] (configure amDrbConfig) (-1) [zeroPdu 9001] drb sync carried window
  rcases writePdus_spec addingSecurity [] drb sync carried window with ⟨-, failed⟩ | ⟨fits, -⟩
  · rw [failed] at done
    simp only [reduceCtorEq] at done
  · exact absurd (zeroPdu_fits fits) (by decide)

end EntityLteRx

end IsrRan.Pdcp
