import IsrRan.Lib.Transition
import IsrRan.Mac.BwpRbBitmap

/-! That the PRBs and the RBGs of a `bwp_rb_bitmap` agree, over any sequence of its operations. -/

namespace IsrRan.Mac.Nr
open BoundedBitset BwpRbBitmap
open IsrRan.Phy (u32 sub32 u32_of_lt sub32_of_le)

inductive RbOp (bwp : Bwp) where
  | addInterval (grant : PrbInterval) (inside : grant.stop ≤ bwp.nofPrb)
  | addPrbs (grant : RbBitmap bwp.nofPrb)
  | addRbgs (grant : RbBitmap bwp.getNofRbgs)
  | set (prbIdx : Nat) (inside : prbIdx < bwp.nofPrb)

namespace RbOp
variable {bwp : Bwp}

def apply (b : BwpRbBitmap) : RbOp bwp → Except Fault BwpRbBitmap
  | addInterval grant _ => b.addInterval grant
  | addPrbs grant => b.addPrbs grant.mask
  | addRbgs grant => b.addRbgs grant.mask
  | set prbIdx _ => b.set prbIdx

def marks : RbOp bwp → Nat → Prop
  | addInterval grant _, prbIdx => grant.start ≤ prbIdx ∧ prbIdx < grant.stop
  | addPrbs grant, prbIdx => prbIdx ∈ grant.mask
  | addRbgs grant, prbIdx => prbIdx < bwp.nofPrb ∧ ∃ rbgIdx ∈ grant.mask, bwp.InRbg rbgIdx prbIdx
  | set idx _, prbIdx => prbIdx = idx

end RbOp

def EmptyTouches (bwp : Bwp) (s rbgIdx : Nat) : Prop :=
  if s = 0 then bwp.start % bwp.getP = 0 ∨ rbgIdx = 0 else bwp.rbgOf (s - 1) = rbgIdx ∧ bwp.rbgOf s = rbgIdx

def RbOp.touches {bwp : Bwp} (op : RbOp bwp) (rbgIdx : Nat) : Prop :=
  (∃ prbIdx, op.marks prbIdx ∧ bwp.rbgOf prbIdx = rbgIdx) ∨
    match op with
    | .addInterval grant _ => grant.empty = true ∧ EmptyTouches bwp grant.start rbgIdx
    | _ => False

namespace BwpRbBitmap
variable {bwp : Bwp} {b : BwpRbBitmap} {op : RbOp bwp}

def Adds (old new : BoundedBitset) (more : Nat → Prop) : Prop :=
  new.size = old.size ∧ ∀ i, i ∈ new ↔ i ∈ old ∨ more i

theorem interval_range (shape : Shape bwp b) (grant : PrbInterval) (inside : grant.stop ≤ bwp.nofPrb) :
    ∃ stop, min (u32 (b.prbToRbgIdx (sub32 grant.stop 1) + 1)) b.rbgs.size = stop ∧ stop ≤ bwp.getNofRbgs ∧
      bwp.rbgOf grant.start ≤ stop ∧ ∀ rbgIdx, bwp.rbgOf grant.start ≤ rbgIdx ∧ rbgIdx < stop ↔
        rbgIdx < bwp.getNofRbgs ∧ (RbOp.addInterval grant inside).touches rbgIdx := by
  have ordered := grant.ordered
  have wide := @Bwp.getP_le bwp
  have narrow := @Bwp.getP_ge bwp
  have few := @Bwp.nofRbgs_le bwp
  have small := bwp.nofPrb_le
  have some_ := (@Bwp.nofRbgs_bounds bwp).2.2
  rw [shape.rbgs_size]
  unfold RbOp.touches
  dsimp only [RbOp.marks]
  rcases Nat.eq_zero_or_pos grant.stop with stop | stop
  · -- [0, 0): the PRB before its end wraps around.
    have start : grant.start = 0 := by omega
    have empty : grant.empty = true := by rw [PrbInterval.empty, start, stop]; rfl
    have first : bwp.rbgOf 0 = 0 := by
      have rest_ := @Bwp.rest_lt bwp
      exact Bwp.rbgOf_eq_iff.mpr (by omega)
    have nothing : ∀ rbgIdx, ¬ ∃ prbIdx, (0 ≤ prbIdx ∧ prbIdx < 0) ∧ bwp.rbgOf prbIdx = rbgIdx :=
      fun _ ⟨_, h, _⟩ => by omega
    rw [stop, prbToRbgIdx_wrapped shape, start, first]
    simp only [empty, true_and, EmptyTouches, if_true]
    by_cases whole : bwp.start % bwp.getP = 0
    · have many : 275 < 4294967296 / bwp.getP := (Nat.lt_div_iff_mul_lt_of_dvd (by omega) Bwp.getP_dvd).mpr (by omega)
      have fewer : 4294967296 / bwp.getP < 4294967296 := Nat.div_lt_self (by omega) (by omega)
      rw [if_pos whole, u32_of_lt fewer, Nat.min_eq_right (by omega)]
      simp [whole]
    · rw [if_neg whole, u32_of_lt (by omega), Nat.min_eq_left (by omega)]
      refine ⟨1, rfl, some_, Nat.zero_le _, fun rbgIdx => ?_⟩
      omega
  · have last := Bwp.rbgOf_lt (show grant.stop - 1 < bwp.nofPrb by omega)
    have order : bwp.rbgOf grant.start ≤ bwp.rbgOf (grant.stop - 1) + 1 := by
      have step := @Bwp.rbgOf_mono bwp _ _ (show grant.start ≤ grant.stop - 1 + bwp.getP by omega)
      unfold Bwp.rbgOf at step ⊢
      rw [show grant.stop - 1 + bwp.getP + bwp.start % bwp.getP = grant.stop - 1 + bwp.start % bwp.getP + bwp.getP by
        omega, Nat.add_div_right _ Bwp.getP_pos] at step
      exact step
    rw [@sub32_of_le grant.stop 1 stop (by omega), prbToRbgIdx_eq shape (by omega), u32_of_lt (by omega),
      Nat.min_eq_left last]
    refine ⟨_, rfl, last, order, fun rbgIdx => ?_⟩
    by_cases some' : grant.start < grant.stop
    · have full : grant.empty = false := beq_false_of_ne (by omega)
      have interval := @Bwp.rbgOf_interval bwp grant.start (grant.stop - 1) rbgIdx (by omega)
      have same : (∃ prbIdx, (grant.start ≤ prbIdx ∧ prbIdx < grant.stop) ∧ bwp.rbgOf prbIdx = rbgIdx) ↔
          ∃ prbIdx, grant.start ≤ prbIdx ∧ prbIdx ≤ grant.stop - 1 ∧ bwp.rbgOf prbIdx = rbgIdx :=
        exists_congr fun prbIdx => by rw [and_assoc]; exact and_congr_right fun _ => and_congr_left fun _ => by omega
      simp only [full, Bool.false_eq_true, false_and, or_false]
      rw [same, interval]
      omega
    · have start : grant.start = grant.stop := by omega
      have empty : grant.empty = true := by rw [PrbInterval.empty, start]; exact beq_self_eq_true _
      have nothing : ¬ ∃ prbIdx, (grant.stop ≤ prbIdx ∧ prbIdx < grant.stop) ∧ bwp.rbgOf prbIdx = rbgIdx :=
        fun ⟨_, h, _⟩ => by omega
      have mono := @Bwp.rbgOf_mono bwp _ _ (Nat.sub_le grant.stop 1)
      simp only [start, empty, true_and, EmptyTouches, if_neg (Nat.ne_of_gt stop)]
      omega

theorem addIntervalToRbgs_ok (shape : Shape bwp b) (grant : PrbInterval) (inside : grant.stop ≤ bwp.nofPrb) :
    ∃ rbgs, b.addIntervalToRbgs grant = .ok { b with rbgs := rbgs } ∧
      Adds b.rbgs rbgs fun rbgIdx => rbgIdx < bwp.getNofRbgs ∧ (RbOp.addInterval grant inside).touches rbgIdx := by
  obtain ⟨stop, eq, upper, lower, touched⟩ := interval_range shape grant inside
  have start := prbToRbgIdx_eq shape (Nat.le_trans grant.ordered inside)
  obtain ⟨rbgs, fill⟩ : ∃ rbgs, b.rbgs.fill (bwp.rbgOf grant.start) stop = .ok rbgs :=
    ⟨_, if_pos ⟨lower, by rw [shape.rbgs_size]; exact upper⟩⟩
  obtain ⟨-, size, mem⟩ := fill_ok fill
  refine ⟨rbgs, ?_, size, fun rbgIdx => (mem rbgIdx).trans (or_congr Iff.rfl (touched rbgIdx))⟩
  unfold addIntervalToRbgs
  rw [start, eq]
  simp only [fill]
  rfl

theorem rbg_nonempty {rbgIdx : Nat} (valid : rbgIdx < bwp.getNofRbgs) :
    ∃ prbIdx, prbIdx < bwp.nofPrb ∧ bwp.rbgOf prbIdx = rbgIdx := by
  have rest_ := @Bwp.rest_lt bwp
  have some_ := bwp.nofPrb_pos
  obtain ⟨lower, -, -⟩ := @Bwp.nofRbgs_bounds bwp
  have before : rbgIdx * bwp.getP ≤ (bwp.getNofRbgs - 1) * bwp.getP := Nat.mul_le_mul_right _ (by omega)
  rcases Nat.eq_zero_or_pos rbgIdx with rfl | pos
  · exact ⟨0, some_, Bwp.rbgOf_eq_iff.mpr (by omega)⟩
  · have least := Nat.le_mul_of_pos_left bwp.getP pos
    exact ⟨rbgIdx * bwp.getP - bwp.start % bwp.getP, by omega, Bwp.rbgOf_eq_iff.mpr (by omega)⟩

theorem marks_inside {prbIdx : Nat} (marked : op.marks prbIdx) : prbIdx < bwp.nofPrb := by
  cases op with
  | addInterval grant inside => exact Nat.lt_of_lt_of_le marked.2 inside
  | addPrbs grant => exact grant.inside prbIdx marked
  | addRbgs grant => exact marked.1
  | set idx inside =>
    obtain rfl : prbIdx = idx := marked
    exact inside

def Aligned (op : RbOp bwp) : Prop :=
  match op with
  | .addRbgs grant => 0 ∈ grant.mask → bwp.start % bwp.getP = 0
  | _ => True

structure Applied (op : RbOp bwp) (b b' : BwpRbBitmap) : Prop where
  shape : Shape bwp b'
  prbs : ∀ prbIdx, prbIdx ∈ b'.prbs ↔ prbIdx ∈ b.prbs ∨ op.marks prbIdx
  rbgs : ∀ rbgIdx, rbgIdx ∈ b'.rbgs ↔ rbgIdx ∈ b.rbgs ∨ rbgIdx < bwp.getNofRbgs ∧ op.touches rbgIdx

theorem Shape.resized {prbs rbgs : BoundedBitset} (shape : Shape bwp b) (prbs_size : prbs.size = b.prbs.size)
    (rbgs_size : rbgs.size = b.rbgs.size) :
    Shape bwp { b with
      prbs := prbs
      rbgs := rbgs } :=
  ⟨prbs_size.trans shape.prbs_size, rbgs_size.trans shape.rbgs_size, shape.p_eq, shape.pnofbits_eq,
    shape.firstRbgSize_eq⟩

section
variable (shape : Shape bwp b)
include shape

theorem addInterval_ok (grant : PrbInterval) (inside : grant.stop ≤ bwp.nofPrb) :
    ∃ b', b.addInterval grant = .ok b' ∧ Applied (.addInterval grant inside) b b' := by
  obtain ⟨prbs, fill⟩ : ∃ prbs, b.prbs.fill grant.start grant.stop = .ok prbs :=
    ⟨_, if_pos ⟨grant.ordered, by rw [shape.prbs_size]; exact inside⟩⟩
  obtain ⟨-, size, mem⟩ := fill_ok fill
  obtain ⟨rbgs, run, size', mem'⟩ := addIntervalToRbgs_ok (shape.resized size rfl) grant inside
  refine ⟨_, ?_, shape.resized size size', mem, mem'⟩
  rw [addInterval, fill]
  exact run

theorem addPrbs_ok (grant : RbBitmap bwp.nofPrb) :
    ∃ b', b.addPrbs grant.mask = .ok b' ∧ Applied (.addPrbs grant) b b' := by
  obtain ⟨prbs, or_⟩ : ∃ prbs, b.prbs.or grant.mask = .ok prbs :=
    ⟨_, if_pos (by rw [shape.prbs_size]; exact grant.size)⟩
  obtain ⟨size, mem⟩ := or_ok or_
  obtain ⟨rbgs, run, size', mem'⟩ := addPrbsToRbgs_ok (shape.resized size rfl) grant.size (Nat.zero_le _)
  refine ⟨_, ?_, shape.resized size size', mem, fun rbgIdx => (mem' rbgIdx).trans (or_congr Iff.rfl ?_)⟩
  · rw [addPrbs, or_]
    exact run
  · constructor
    · rintro ⟨prbIdx, -, below, marked, rfl⟩
      exact ⟨Bwp.rbgOf_lt below, Or.inl ⟨prbIdx, marked, rfl⟩⟩
    · rintro ⟨-, ⟨prbIdx, marked, rfl⟩ | none_⟩
      · exact ⟨prbIdx, Nat.zero_le _, grant.inside prbIdx marked, marked, rfl⟩
      · exact none_.elim

theorem addRbgs_ok (grant : RbBitmap bwp.getNofRbgs) (aligned : Aligned (.addRbgs grant)) :
    ∃ b', b.addRbgs grant.mask = .ok b' ∧ Applied (.addRbgs grant) b b' := by
  obtain ⟨rbgs, or_⟩ : ∃ rbgs, b.rbgs.or grant.mask = .ok rbgs :=
    ⟨_, if_pos (by rw [shape.rbgs_size]; exact grant.size)⟩
  obtain ⟨size, mem⟩ := or_ok or_
  obtain ⟨prbs, run, size', mem'⟩ := addRbgsToPrbs_ok (@Shape.resized bwp b b.prbs rbgs shape rfl size) grant.size
    (Nat.zero_le _) fun _ => aligned
  refine ⟨_, ?_, shape.resized size' size, fun prbIdx => (mem' prbIdx).trans (or_congr Iff.rfl ?_),
    fun rbgIdx => (mem rbgIdx).trans (or_congr Iff.rfl ?_)⟩
  · rw [addRbgs, or_]
    exact run
  · refine and_congr_right fun below => ?_
    constructor
    · rintro ⟨-, marked⟩
      exact ⟨_, marked, (Bwp.inRbg_iff below (grant.inside _ marked)).mpr rfl⟩
    · rintro ⟨rbgIdx, marked, lies⟩
      rw [← (Bwp.inRbg_iff below (grant.inside _ marked)).mp lies]
      exact ⟨Nat.zero_le _, marked⟩
  · constructor
    · intro marked
      have valid := grant.inside rbgIdx marked
      obtain ⟨prbIdx, below, lies⟩ := rbg_nonempty valid
      exact ⟨valid, Or.inl ⟨prbIdx, ⟨below, rbgIdx, marked, (Bwp.inRbg_iff below valid).mpr lies.symm⟩, lies⟩⟩
    · rintro ⟨-, ⟨prbIdx, ⟨below, other, marked, lies⟩, rfl⟩ | none_⟩
      · rw [← (Bwp.inRbg_iff below (grant.inside _ marked)).mp lies]
        exact marked
      · exact none_.elim

theorem set_ok {idx : Nat} (inside : idx < bwp.nofPrb) :
    ∃ b', b.set idx = .ok b' ∧ Applied (.set idx inside) b b' := by
  obtain ⟨prbs, setPrb⟩ : ∃ prbs, b.prbs.set idx = .ok prbs := ⟨_, if_pos (by rw [shape.prbs_size]; exact inside)⟩
  obtain ⟨rbgs, setRbg⟩ : ∃ rbgs, b.rbgs.set (bwp.rbgOf idx) = .ok rbgs :=
    ⟨_, if_pos (by rw [shape.rbgs_size]; exact Bwp.rbgOf_lt inside)⟩
  obtain ⟨-, size, mem⟩ := BoundedBitset.set_ok setPrb
  obtain ⟨-, size', mem'⟩ := BoundedBitset.set_ok setRbg
  refine ⟨_, ?_, shape.resized size size', mem, fun rbgIdx => (mem' rbgIdx).trans (or_congr Iff.rfl ?_)⟩
  · rw [set, setPrb, prbToRbgIdx_eq shape (Nat.le_of_lt inside)]
    simp only [setRbg]
    rfl
  · constructor
    · rintro rfl
      exact ⟨Bwp.rbgOf_lt inside, Or.inl ⟨idx, rfl, rfl⟩⟩
    · rintro ⟨-, ⟨prbIdx, marked, lies⟩ | none_⟩
      · exact lies.symm.trans (congrArg bwp.rbgOf marked)
      · exact none_.elim

theorem apply_ok (aligned : Aligned op) : ∃ b', op.apply b = .ok b' ∧ Applied op b b' := by
  cases op with
  | addInterval grant inside => exact addInterval_ok shape grant inside
  | addPrbs grant => exact addPrbs_ok shape grant
  | addRbgs grant => exact addRbgs_ok shape grant aligned
  | set idx inside => exact set_ok shape inside

end

theorem apply_fails (shape : Shape bwp b) (shifted : ¬ Aligned op) : op.apply b = .error .assertionFailed := by
  cases op with
  | addRbgs grant =>
    obtain ⟨first, nonzero⟩ := Classical.not_imp.mp shifted
    obtain ⟨rbgs, or_⟩ : ∃ rbgs, b.rbgs.or grant.mask = .ok rbgs :=
      ⟨_, if_pos (by rw [shape.rbgs_size]; exact grant.size)⟩
    have shape' := @Shape.resized bwp b b.prbs rbgs shape rfl (or_ok or_).1
    show b.addRbgs grant.mask = _
    rw [addRbgs, or_]
    exact addRbgsToPrbs_fails shape' grant.size first nonzero
  | addInterval grant inside => exact absurd trivial shifted
  | addPrbs grant => exact absurd trivial shifted
  | set idx inside => exact absurd trivial shifted

end BwpRbBitmap

def Bwp.rbgPrbs (bwp : Bwp) (rbgIdx : Nat) : PrbInterval where
  start := min (bwp.rbgFirst rbgIdx) bwp.nofPrb
  stop := min (bwp.rbgFirst rbgIdx + bwp.getRbgSize rbgIdx) bwp.nofPrb
  ordered := by omega

structure RbRun (bwp : Bwp) where
  bitmap : BwpRbBitmap
  marked : Nat → Prop

namespace RbRun
variable {bwp : Bwp}

def start (bwp : Bwp) : RbRun bwp := ⟨.ofBwp bwp, fun _ => False⟩

def step (run : RbRun bwp) (op : RbOp bwp) : Except Fault (RbRun bwp) := do
  return ⟨← op.apply run.bitmap, fun prbIdx => run.marked prbIdx ∨ op.marks prbIdx⟩

/-- The PRBs that are set are those marked, the RBGs that are set are those with a marked PRB, and an RBG grant collides
where the PRBs of one of its RBGs do. -/
structure Agrees (run : RbRun bwp) : Prop where
  shape : run.bitmap.Shape bwp
  marked_inside : ∀ prbIdx, run.marked prbIdx → prbIdx < bwp.nofPrb
  rbgs_inside : ∀ rbgIdx, rbgIdx ∈ run.bitmap.rbgs → rbgIdx < bwp.getNofRbgs
  prbs : ∀ prbIdx, prbIdx ∈ run.bitmap.prbs ↔ run.marked prbIdx
  rbgs : ∀ rbgIdx, rbgIdx < bwp.getNofRbgs →
    (rbgIdx ∈ run.bitmap.rbgs ↔ ∃ prbIdx, run.marked prbIdx ∧ bwp.InRbg rbgIdx prbIdx)
  collides : ∀ grant : RbBitmap bwp.getNofRbgs, ∃ collision, run.bitmap.collidesRbgs grant.mask = .ok collision ∧
    (collision = true ↔ ∃ rbgIdx ∈ grant.mask, run.bitmap.collidesPrbs (bwp.rbgPrbs rbgIdx) = .ok true)

def Clear (run : RbRun bwp) : RbOp bwp → Prop
  | .addInterval grant _ => grant.empty = true → ∀ rbgIdx, rbgIdx < bwp.getNofRbgs →
      EmptyTouches bwp grant.start rbgIdx → rbgIdx ∈ run.bitmap.rbgs
  | .addRbgs grant => 0 ∈ grant.mask → bwp.start % bwp.getP = 0
  | _ => True

section
variable {run : RbRun bwp} {op : RbOp bwp}

theorem collides_of_rbgs (shape : run.bitmap.Shape bwp)
    (marked_inside : ∀ prbIdx, run.marked prbIdx → prbIdx < bwp.nofPrb)
    (prbs : ∀ prbIdx, prbIdx ∈ run.bitmap.prbs ↔ run.marked prbIdx)
    (rbgs : ∀ rbgIdx, rbgIdx < bwp.getNofRbgs →
      (rbgIdx ∈ run.bitmap.rbgs ↔ ∃ prbIdx, run.marked prbIdx ∧ bwp.InRbg rbgIdx prbIdx))
    (grant : RbBitmap bwp.getNofRbgs) : ∃ collision, run.bitmap.collidesRbgs grant.mask = .ok collision ∧
      (collision = true ↔ ∃ rbgIdx ∈ grant.mask, run.bitmap.collidesPrbs (bwp.rbgPrbs rbgIdx) = .ok true) := by
  obtain ⟨shared, and_⟩ : ∃ shared, run.bitmap.rbgs.and grant.mask = .ok shared :=
    ⟨_, if_pos (by rw [shape.rbgs_size]; exact grant.size)⟩
  have mem := (and_ok and_).2
  have one : ∀ rbgIdx, run.bitmap.collidesPrbs (bwp.rbgPrbs rbgIdx) = .ok true ↔
      ∃ prbIdx, run.marked prbIdx ∧ bwp.InRbg rbgIdx prbIdx := by
    intro rbgIdx
    obtain ⟨found, any, iff⟩ := @BoundedBitset.anyIn_of_le run.bitmap.prbs (bwp.rbgPrbs rbgIdx).start
      (bwp.rbgPrbs rbgIdx).stop (by rw [shape.prbs_size]; exact ⟨Nat.min_le_right _ _, Nat.min_le_right _ _⟩)
    rw [collidesPrbs, any, Except.ok.injEq, iff]
    apply exists_congr
    intro prbIdx
    rw [prbs, ← and_assoc, and_comm]
    refine and_congr_right fun marked => ?_
    have below := marked_inside prbIdx marked
    unfold Bwp.InRbg Bwp.rbgPrbs
    dsimp only
    omega
  refine ⟨shared.any, ?_, ?_⟩
  · simp only [collidesRbgs, and_]
    rfl
  · rw [any_iff]
    apply exists_congr
    intro rbgIdx
    rw [mem, and_comm]
    exact and_congr_right fun inGrant => (rbgs rbgIdx (grant.inside rbgIdx inGrant)).trans (one rbgIdx).symm

theorem clear_iff :
    run.Clear op ↔ BwpRbBitmap.Aligned op ∧ ∀ rbgIdx, rbgIdx < bwp.getNofRbgs → op.touches rbgIdx →
      rbgIdx ∈ run.bitmap.rbgs ∨ ∃ prbIdx, op.marks prbIdx ∧ bwp.rbgOf prbIdx = rbgIdx := by
  cases op with
  | addInterval grant inside =>
    constructor
    · refine fun clear => ⟨trivial, fun rbgIdx valid touched => ?_⟩
      rcases touched with marks | ⟨empty, touched⟩
      · exact Or.inr marks
      · exact Or.inl (clear empty rbgIdx valid touched)
    · rintro ⟨-, covered⟩ empty rbgIdx valid touched
      refine (covered rbgIdx valid (Or.inr ⟨empty, touched⟩)).resolve_right ?_
      rintro ⟨prbIdx, inside', -⟩
      have length : grant.stop = grant.start := eq_of_beq empty
      have := inside'.1
      have := inside'.2
      omega
  | addRbgs grant => exact ⟨fun clear => ⟨clear, fun _ _ touched => Or.inr (touched.resolve_right id)⟩, fun h => h.1⟩
  | addPrbs grant => exact ⟨fun _ => ⟨trivial, fun _ _ touched => Or.inr (touched.resolve_right id)⟩, fun _ => trivial⟩
  | set idx inside => exact ⟨fun _ => ⟨trivial, fun _ _ touched => Or.inr (touched.resolve_right id)⟩, fun _ => trivial⟩

theorem agrees_next {b' : BwpRbBitmap} (agrees : run.Agrees) (applied : BwpRbBitmap.Applied op run.bitmap b') :
    (⟨b', fun prbIdx => run.marked prbIdx ∨ op.marks prbIdx⟩ : RbRun bwp).Agrees ↔
      ∀ rbgIdx, rbgIdx < bwp.getNofRbgs → op.touches rbgIdx →
        rbgIdx ∈ run.bitmap.rbgs ∨ ∃ prbIdx, op.marks prbIdx ∧ bwp.rbgOf prbIdx = rbgIdx := by
  have inside : ∀ prbIdx, run.marked prbIdx ∨ op.marks prbIdx → prbIdx < bwp.nofPrb := fun prbIdx marked =>
    marked.elim (agrees.marked_inside prbIdx) marks_inside
  have prbs : ∀ prbIdx, prbIdx ∈ b'.prbs ↔ run.marked prbIdx ∨ op.marks prbIdx := fun prbIdx => by
    rw [applied.prbs, agrees.prbs]
  -- The RBGs of the PRBs marked, before and by the operation.
  have parts : ∀ rbgIdx, rbgIdx < bwp.getNofRbgs →
      ((∃ prbIdx, (run.marked prbIdx ∨ op.marks prbIdx) ∧ bwp.InRbg rbgIdx prbIdx) ↔
        rbgIdx ∈ run.bitmap.rbgs ∨ ∃ prbIdx, op.marks prbIdx ∧ bwp.rbgOf prbIdx = rbgIdx) := by
    intro rbgIdx valid
    rw [agrees.rbgs rbgIdx valid]
    constructor
    · rintro ⟨prbIdx, marked | marks, lies⟩
      · exact Or.inl ⟨prbIdx, marked, lies⟩
      · exact Or.inr ⟨prbIdx, marks, ((Bwp.inRbg_iff (inside prbIdx (Or.inr marks)) valid).mp lies).symm⟩
    · rintro (⟨prbIdx, marked, lies⟩ | ⟨prbIdx, marks, lies⟩)
      · exact ⟨prbIdx, Or.inl marked, lies⟩
      · exact ⟨prbIdx, Or.inr marks, (Bwp.inRbg_iff (inside prbIdx (Or.inr marks)) valid).mpr lies.symm⟩
  constructor
  · intro after rbgIdx valid touched
    exact (parts rbgIdx valid).mp ((after.rbgs rbgIdx valid).mp ((applied.rbgs rbgIdx).mpr (Or.inr ⟨valid, touched⟩)))
  · intro covered
    have rbgs : ∀ rbgIdx, rbgIdx < bwp.getNofRbgs →
        (rbgIdx ∈ b'.rbgs ↔ ∃ prbIdx, (run.marked prbIdx ∨ op.marks prbIdx) ∧ bwp.InRbg rbgIdx prbIdx) := by
      intro rbgIdx valid
      rw [applied.rbgs, parts rbgIdx valid]
      constructor
      · rintro (before | ⟨-, touched⟩)
        · exact Or.inl before
        · exact covered rbgIdx valid touched
      · rintro (before | marks)
        · exact Or.inl before
        · exact Or.inr ⟨valid, Or.inl marks⟩
    exact {
      shape := applied.shape
      marked_inside := inside
      rbgs_inside := fun rbgIdx mem => ((applied.rbgs rbgIdx).mp mem).elim (agrees.rbgs_inside rbgIdx) And.left
      prbs := prbs
      rbgs := rbgs
      collides := collides_of_rbgs applied.shape inside prbs rbgs }

theorem step_agrees_iff (agrees : run.Agrees) :
    (∃ next, run.step op = .ok next ∧ next.Agrees) ↔ run.Clear op := by
  rw [clear_iff]
  by_cases aligned : BwpRbBitmap.Aligned op
  · obtain ⟨b', run', applied⟩ := apply_ok agrees.shape aligned
    have stepped : run.step op = .ok ⟨b', fun prbIdx => run.marked prbIdx ∨ op.marks prbIdx⟩ := by
      simp only [step, run']
      rfl
    rw [stepped, and_iff_right aligned, ← agrees_next agrees applied]
    exact ⟨fun ⟨_, eq, after⟩ => Except.ok.inj eq ▸ after, fun after => ⟨_, rfl, after⟩⟩
  · have stepped : run.step op = .error .assertionFailed := by
      simp only [step, apply_fails agrees.shape aligned, bind, Except.bind]
    rw [stepped]
    exact ⟨(fun ⟨_, eq, _⟩ => nomatch eq), fun h => absurd h.1 aligned⟩

theorem start_agrees : (start bwp).Agrees := by
  have none_ : ∀ pos, pos ∉ (ofBwp bwp).prbs := fun pos => by
    simp [mem_def, ofBwp]
  have none' : ∀ pos, pos ∉ (ofBwp bwp).rbgs := fun pos => by
    simp [mem_def, ofBwp]
  have inside : ∀ prbIdx, (start bwp).marked prbIdx → prbIdx < bwp.nofPrb := fun _ => False.elim
  have prbs : ∀ prbIdx, prbIdx ∈ (start bwp).bitmap.prbs ↔ (start bwp).marked prbIdx := fun prbIdx =>
    iff_of_false (none_ prbIdx) id
  have rbgs : ∀ rbgIdx, rbgIdx < bwp.getNofRbgs →
      (rbgIdx ∈ (start bwp).bitmap.rbgs ↔ ∃ prbIdx, (start bwp).marked prbIdx ∧ bwp.InRbg rbgIdx prbIdx) :=
    fun rbgIdx _ => iff_of_false (none' rbgIdx) fun ⟨_, marked, _⟩ => marked
  exact {
    shape := ofBwp_shape
    marked_inside := inside
    rbgs_inside := fun rbgIdx mem => absurd mem (none' rbgIdx)
    prbs := prbs
    rbgs := rbgs
    collides := collides_of_rbgs ofBwp_shape inside prbs rbgs }

end
end RbRun

theorem rbBitmap_agrees_iff (bwp : Bwp) (ops : List (RbOp bwp)) :
    Lib.AllAlong RbRun.step RbRun.Agrees (RbRun.start bwp) ops ↔
      Lib.EachStep RbRun.step RbRun.Clear (RbRun.start bwp) ops :=
  Lib.allAlong_iff_eachStep (fun _ _ => RbRun.step_agrees_iff) RbRun.start_agrees

def shiftedBwp : Bwp where
  nofPrb := 52
  start := 2
  config1 := false
  nofPrb_pos := by decide
  nofPrb_le := by decide
  start_lt := by decide

def firstRbg : RbBitmap shiftedBwp.getNofRbgs where
  mask := ⟨7, 1⟩
  size := rfl
  inside := fun i mem => by
    have zero : i = 0 := by simpa [mem_def, Nat.testBit_one_eq_true_iff_self_eq_zero] using mem
    rw [zero]
    decide

theorem shiftedRbg_fails : ¬ ∀ (bwp : Bwp) (ops : List (RbOp bwp)),
    Lib.AllAlong RbRun.step RbRun.Agrees (RbRun.start bwp) ops := by
  intro all
  obtain ⟨-, next, eq, -⟩ := all shiftedBwp [.addRbgs firstRbg]
  have fails := @BwpRbBitmap.apply_fails shiftedBwp (.ofBwp shiftedBwp) (.addRbgs firstRbg) ofBwp_shape
    (fun aligned => absurd (aligned rfl) (by decide))
  rw [RbRun.step] at eq
  change ((RbOp.addRbgs firstRbg).apply (.ofBwp shiftedBwp) >>= _) = _ at eq
  rw [fails] at eq
  contradiction

end IsrRan.Mac.Nr
