import Mathlib

/-! Authentication vectors of the HSS, as the USIM takes them. -/

namespace IsrRan.Epc.Hss

inductive AuthAlgo where
  | xor
  | milenage

/-- Of the sixteen bytes that the HSS keeps of an XOR response the first eight, which the USIM sends. -/
structure AuthKeys where
  res : BitVec 64
  ck : BitVec 128
  ik : BitVec 128
  ak : BitVec 48

structure Milenage where
  f1 : BitVec 128 → BitVec 48 → BitVec 16 → BitVec 64
  f2345 : BitVec 128 → AuthKeys
  f5Star : BitVec 128 → BitVec 48

structure Subscriber where
  algo : AuthAlgo
  k : BitVec 128
  milenage : Milenage

/-! ### The USIM -/

def securityXorF2345 (k rand : BitVec 128) : AuthKeys :=
  let xdout := k ^^^ rand
  { res := xdout.extractLsb' 64 64
    ck := xdout.rotateLeft 8
    ik := xdout.rotateLeft 16
    ak := xdout.extractLsb' 56 48 }

def securityXorF1 (k rand : BitVec 128) (sqn : BitVec 48) (amf : BitVec 16) : BitVec 64 :=
  (k ^^^ rand).extractLsb' 64 64 ^^^ (sqn ++ amf)

def f2345 (u : Subscriber) (rand : BitVec 128) : AuthKeys :=
  match u.algo with
  | .milenage => u.milenage.f2345 rand
  | .xor => securityXorF2345 u.k rand

def f1 (u : Subscriber) (rand : BitVec 128) (sqn : BitVec 48) (amf : BitVec 16) : BitVec 64 :=
  match u.algo with
  | .milenage => u.milenage.f1 rand sqn amf
  | .xor => securityXorF1 u.k rand sqn amf

def genAuthRes (u : Subscriber) (rand autnEnb : BitVec 128) : Option (AuthKeys × BitVec 48) :=
  let keys := f2345 u rand
  let sqn := autnEnb.extractLsb' 80 48 ^^^ keys.ak
  let amf := autnEnb.extractLsb' 64 16
  if (sqn ^^^ keys.ak) ++ amf ++ f1 u rand sqn amf = autnEnb then some (keys, sqn ^^^ keys.ak) else none

/-! ### The HSS -/

/-- The keys and the MAC, which `gen_auth_info_answer_xor` computes itself. -/
def genAuthInfoAnswerXor (k rand : BitVec 128) (sqn : BitVec 48) (amf : BitVec 16) : AuthKeys × BitVec 64 :=
  let xdout := k ^^^ rand
  let cdout := sqn ++ amf
  ({ res := xdout.extractLsb' 64 64
     ck := xdout.rotateLeft 8
     ik := xdout.rotateLeft 16
     ak := xdout.extractLsb' 56 48 },
    xdout.extractLsb' 64 64 ^^^ cdout)

def authVector (u : Subscriber) (rand : BitVec 128) (sqn : BitVec 48) (amf : BitVec 16) : AuthKeys × BitVec 64 :=
  match u.algo with
  | .milenage => (u.milenage.f2345 rand, u.milenage.f1 rand sqn amf)
  | .xor => genAuthInfoAnswerXor u.k rand sqn amf

def makeAutn (u : Subscriber) (rand : BitVec 128) (sqn : BitVec 48) (amf : BitVec 16) : BitVec 128 :=
  let (keys, mac) := authVector u rand sqn amf
  (sqn ^^^ keys.ak) ++ amf ++ mac

structure HssUeCtx where
  subscriber : Subscriber
  amf : BitVec 16
  sqn : BitVec 48
  lastRand : BitVec 128

def seqOf (sqn : BitVec 48) : Nat := sqn.toNat >>> 5

def makeSqn (seq ind : Nat) : BitVec 48 := BitVec.ofNat 48 (seq <<< 5 ||| ind)

def seqHeMaxValue : Nat := 0x07FFFFFFFFFF

def incrementSqn (sqn : BitVec 48) : BitVec 48 :=
  makeSqn ((seqOf sqn + 1) % seqHeMaxValue) ((sqn.toNat % 32 + 1) % 31)

def incrementSeqAfterResync (sqn : BitVec 48) : BitVec 48 :=
  makeSqn ((seqOf sqn + 1) % seqHeMaxValue) (sqn.toNat % 32)

structure AuthInfo where
  rand : BitVec 128
  sqn : BitVec 48
  autn : BitVec 128
  keys : AuthKeys
  akXorSqn : BitVec 48

def genAuthInfoAnswer (c : HssUeCtx) (rand : BitVec 128) : AuthInfo × HssUeCtx :=
  let keys := (authVector c.subscriber rand c.sqn c.amf).1
  ({ rand, sqn := c.sqn, autn := makeAutn c.subscriber rand c.sqn c.amf, keys, akXorSqn := c.sqn ^^^ keys.ak },
    { c with lastRand := rand, sqn := incrementSqn c.sqn })

/-- The MAC-S of the AUTS is computed but not compared. -/
def resyncSqn (c : HssUeCtx) (auts : BitVec 112) : HssUeCtx :=
  let sqn := match c.subscriber.algo with
    | .xor => c.sqn
    | .milenage => auts.extractLsb' 64 48 ^^^ c.subscriber.milenage.f5Star c.lastRand
  { c with sqn := incrementSeqAfterResync sqn }

def answers (c : HssUeCtx) : List (BitVec 128) → List AuthInfo
  | [] => []
  | rand :: rands => (genAuthInfoAnswer c rand).1 :: answers (genAuthInfoAnswer c rand).2 rands

def milenageSet1 : Milenage where
  f1 _ _ _ := 0x4a9ffac354dfafb3
  f2345 _ := ⟨0xa54211d5e3ba50bf, 0xb40ba9a3c58b2a05bbf0d987b21bf8cb,
    0xf769bcd751044604127672711c6d3441, 0xaa689c648370⟩
  f5Star _ := 0x451e8beca43b

variable {u : Subscriber} {rand : BitVec 128}

theorem extract_autn (hi : BitVec 48) (amf : BitVec 16) (mac : BitVec 64) :
    (hi ++ amf ++ mac).extractLsb' 80 48 = hi ∧ (hi ++ amf ++ mac).extractLsb' 64 16 = amf := by
  constructor <;> ext i inside <;> simp <;> grind

theorem authVector_eq (u : Subscriber) (rand : BitVec 128) (sqn : BitVec 48) (amf : BitVec 16) :
    authVector u rand sqn amf = (f2345 u rand, f1 u rand sqn amf) := by
  unfold authVector f2345 f1
  cases u.algo <;> rfl

theorem genAuthRes_makeAutn (u : Subscriber) (rand : BitVec 128) (sqn : BitVec 48) (amf : BitVec 16) :
    genAuthRes u rand (makeAutn u rand sqn amf) = some (f2345 u rand, sqn ^^^ (f2345 u rand).ak) := by
  obtain ⟨hi, mid⟩ := extract_autn (sqn ^^^ (f2345 u rand).ak) amf (f1 u rand sqn amf)
  simp only [genAuthRes, makeAutn, authVector_eq, hi, mid, BitVec.xor_assoc, BitVec.xor_self, BitVec.xor_zero, if_pos]

theorem genAuthRes_eq_some_iff (autn : BitVec 128) (result : AuthKeys × BitVec 48) :
    genAuthRes u rand autn = some result ↔
      ∃ sqn amf, autn = makeAutn u rand sqn amf ∧ result = (f2345 u rand, sqn ^^^ (f2345 u rand).ak) := by
  constructor
  · intro accepted
    rw [genAuthRes] at accepted
    split at accepted
    · rename_i same
      refine ⟨_, autn.extractLsb' 64 16, ?_, (Option.some.inj accepted).symm⟩
      rw [makeAutn, authVector_eq]
      exact same.symm
    · cases accepted
  · rintro ⟨sqn, amf, rfl, rfl⟩
    exact genAuthRes_makeAutn u rand sqn amf

theorem seqOf_makeSqn {seq ind : Nat} (small : ind < 32) :
    seqOf (makeSqn (seq % seqHeMaxValue) ind) = seq % seqHeMaxValue := by
  have bound : seq % seqHeMaxValue < seqHeMaxValue := Nat.mod_lt _ (by decide)
  rw [seqOf, makeSqn, BitVec.toNat_ofNat, ← Nat.shiftLeft_add_eq_or_of_lt small, Nat.shiftLeft_eq,
    Nat.shiftRight_eq_div_pow]
  unfold seqHeMaxValue at *
  omega

theorem seqOf_incrementSqn (sqn : BitVec 48) : seqOf (incrementSqn sqn) = (seqOf sqn + 1) % seqHeMaxValue :=
  seqOf_makeSqn (by omega)

theorem seqOf_iterate (sqn : BitVec 48) (i : Nat) :
    seqOf (incrementSqn^[i + 1] sqn) = (seqOf sqn + i + 1) % seqHeMaxValue := by
  induction i with
  | zero => exact seqOf_incrementSqn sqn
  | succ i ih =>
    rw [Function.iterate_succ_apply', seqOf_incrementSqn, ih]
    unfold seqHeMaxValue
    omega

theorem answers_eq (c : HssUeCtx) (rands : List (BitVec 128)) :
    answers c rands = rands.mapIdx fun i rand =>
      (genAuthInfoAnswer { c with sqn := incrementSqn^[i] c.sqn } rand).1 := by
  induction rands generalizing c with
  | nil => rfl
  | cons rand rands ih => rw [answers, ih, List.mapIdx_cons]; rfl

theorem answers_fresh (c : HssUeCtx) (rands : List (BitVec 128)) (few : rands.length ≤ seqHeMaxValue) :
    (answers c rands).Pairwise (fun v w => seqOf v.sqn ≠ seqOf w.sqn) ∧
      ∀ v ∈ answers c rands, genAuthRes c.subscriber v.rand v.autn = some (v.keys, v.akXorSqn) := by
  rw [answers_eq]
  constructor
  · refine List.pairwise_iff_getElem.mpr fun i j hi hj before => ?_
    rw [List.length_mapIdx] at hj
    rw [List.getElem_mapIdx, List.getElem_mapIdx]
    dsimp only [genAuthInfoAnswer]
    have small : seqOf c.sqn ≤ seqHeMaxValue := by
      have := c.sqn.isLt
      rw [seqOf, Nat.shiftRight_eq_div_pow]
      unfold seqHeMaxValue
      omega
    obtain ⟨j, rfl⟩ := Nat.exists_eq_add_of_lt (Nat.zero_lt_of_lt before)
    rw [Nat.zero_add, seqOf_iterate]
    unfold seqHeMaxValue at *
    cases i with
    | zero => rw [Function.iterate_zero_apply]; omega
    | succ i => rw [seqOf_iterate]; unfold seqHeMaxValue; omega
  · intro v mem
    obtain ⟨i, _, rfl⟩ := List.mem_mapIdx.mp mem
    rw [genAuthInfoAnswer]
    dsimp only
    rw [authVector_eq]
    exact genAuthRes_makeAutn ..

theorem answers_fresh_xor : let c : HssUeCtx := ⟨⟨.xor, 0x112233, milenageSet1⟩, 0x9001, 0xffffffffffff, 0⟩
    (answers c [1, 2, 3]).Pairwise (fun v w => seqOf v.sqn ≠ seqOf w.sqn) ∧
      ∀ v ∈ answers c [1, 2, 3], genAuthRes c.subscriber v.rand v.autn = some (v.keys, v.akXorSqn) :=
  answers_fresh ⟨⟨.xor, 0x112233, milenageSet1⟩, 0x9001, 0xffffffffffff, 0⟩ [1, 2, 3] (by decide)

theorem resync_counts_on (c : HssUeCtx) (milenage : c.subscriber.algo = .milenage) (sqnMs : BitVec 48)
    (macS : BitVec 64) (rands : List (BitVec 128)) :
    (answers (resyncSqn c ((sqnMs ^^^ c.subscriber.milenage.f5Star c.lastRand) ++ macS)) rands).map (seqOf ·.sqn) =
      rands.mapIdx fun i _ => (seqOf sqnMs + i + 1) % seqHeMaxValue := by
  have taken : (resyncSqn c ((sqnMs ^^^ c.subscriber.milenage.f5Star c.lastRand) ++ macS)).sqn =
      incrementSeqAfterResync sqnMs := by
    have hi : ((sqnMs ^^^ c.subscriber.milenage.f5Star c.lastRand) ++ macS).extractLsb' 64 48 =
        sqnMs ^^^ c.subscriber.milenage.f5Star c.lastRand := by
      ext i inside
      simp
      grind
    simp only [resyncSqn, milenage, hi, BitVec.xor_assoc, BitVec.xor_self, BitVec.xor_zero]
  have first : seqOf (incrementSeqAfterResync sqnMs) = (seqOf sqnMs + 1) % seqHeMaxValue := seqOf_makeSqn (by omega)
  rw [answers_eq, taken]
  refine List.ext_getElem (by simp) fun i _ _ => ?_
  rw [List.getElem_map, List.getElem_mapIdx, List.getElem_mapIdx]
  dsimp only [genAuthInfoAnswer]
  cases i with
  | zero => exact first
  | succ i =>
    rw [seqOf_iterate, first]
    unfold seqHeMaxValue
    omega

theorem resync_counts_on_set1 :
    let c : HssUeCtx := ⟨⟨.milenage, 0x465b5ce8b199b49faa5f0a2ee238a6bc, milenageSet1⟩, 0xb9b9, 32,
      0x23553cbe9637a89d218ae64dae47bf35⟩
    (answers (resyncSqn c ((0xff9bb4d0b607 ^^^ milenageSet1.f5Star c.lastRand) ++ 0#64))
        [c.lastRand]).map (seqOf ·.sqn) =
      [c.lastRand].mapIdx fun i _ => (seqOf 0xff9bb4d0b607 + i + 1) % seqHeMaxValue :=
  resync_counts_on ⟨⟨.milenage, 0x465b5ce8b199b49faa5f0a2ee238a6bc, milenageSet1⟩, 0xb9b9, 32,
    0x23553cbe9637a89d218ae64dae47bf35⟩ rfl 0xff9bb4d0b607 0 [0x23553cbe9637a89d218ae64dae47bf35]

end IsrRan.Epc.Hss
