import IsrRan.Mac.SchPduNrRoundTrip
import Mathlib.Data.List.GetD

namespace IsrRan.Mac.Nr
open List Memory AddCall Lcid SubPdu

section
variable {ulsch success : Bool} {mem : Memory} {len rounds offset : Nat} {acc read : List SubPdu}

theorem prefix_of_unpackFrom (run : unpackFrom ulsch mem len rounds offset acc = some (success, read)) :
    acc <+: read := by
  induction rounds generalizing offset acc with
  | zero =>
    unfold unpackFrom at run
    split at run
    · contradiction
    · exact (Prod.mk.inj (Option.some.inj run)).2 ▸ prefix_refl acc
  | succ rounds ih =>
    unfold unpackFrom at run
    split at run
    · dsimp only at run
      split at run
      · exact (Prod.mk.inj (Option.some.inj run)).2 ▸ prefix_refl acc
      · split at run
        · exact (prefix_append acc _).trans (ih run)
        · exact (prefix_append acc _).trans (ih run)
    · exact (Prod.mk.inj (Option.some.inj run)).2 ▸ prefix_refl acc

theorem unpackFrom_reads {contents : List Content} {c : Content}
    (run : unpackFrom ulsch mem len rounds offset acc = some (true, read))
    (expected : read.map SubPdu.content = acc.map SubPdu.content ++ c :: contents) (more : offset < len)
    (notPadding : c.lcid ≠ Lcid.padding) : ∃ q rounds, SubPdu.readSubheader ulsch mem offset = some q ∧
      q.content = c ∧
      unpackFrom ulsch mem len rounds ((offset + q.getTotalLength) % 4294967296) (acc ++ [q]) = some (true, read) := by
  cases rounds with
  | zero =>
    unfold unpackFrom at run
    rw [if_pos more] at run
    contradiction
  | succ rounds =>
    cases header : SubPdu.readSubheader ulsch mem offset with
    | none =>
      unfold unpackFrom at run
      simp only [if_pos more, header] at run
      exact absurd (Prod.mk.inj (Option.some.inj run)).1 (by simp)
    | some q =>
      have next : ∀ q' : SubPdu, acc ++ [q'] <+: read → q'.content = c := by
        rintro q' ⟨others, rfl⟩
        rw [map_append, map_append, append_assoc] at expected
        exact (List.cons.inj (append_cancel_left expected)).1
      by_cases padding : q.lcid = Lcid.padding
      · rw [unpackFrom_padding more header padding] at run
        have last := next (q.setPadding (u32Sub len ((offset + q.getTotalLength) % 4294967296) + 1))
          ((Prod.mk.inj (Option.some.inj run)).2 ▸ prefix_refl _)
        exact absurd (congrArg Content.lcid last).symm notPadding
      · rw [unpackFrom_next more header padding] at run
        exact ⟨q, rounds, rfl, next q (prefix_of_unpackFrom run), run⟩

end

theorem readSubheader_field {ulsch : Bool} {mem : Memory} {start : Nat} {q : SubPdu}
    (read : SubPdu.readSubheader ulsch mem start = some q) (field : hasLengthField ulsch q.lcid = true) :
    q.lcid = mem.byte start % 64 ∧
      (mem.byte start / 64 % 2 = 1 ∧ q.headerLength = 3 ∧
          q.sduLength = (mem.byte (start + 1) * 256 + mem.byte (start + 2) : Nat) ∧
          q.sdu = some (fun i => mem (start + 3 + i)) ∨
        mem.byte start / 64 % 2 ≠ 1 ∧ q.headerLength = 2 ∧ q.sduLength = (mem.byte (start + 1) : Nat) ∧
          q.sdu = some (fun i => mem (start + 2 + i))) := by
  unfold SubPdu.readSubheader at read
  dsimp only at read
  split at read
  · split at read
    · split at read
      · rename_i flag
        obtain rfl := Option.some.inj read
        exact ⟨rfl, .inl ⟨by simpa using flag, rfl, rfl, rfl⟩⟩
      · rename_i flag
        obtain rfl := Option.some.inj read
        exact ⟨rfl, .inr ⟨by simpa using flag, rfl, rfl, rfl⟩⟩
    · rename_i noField
      obtain rfl := Option.some.inj read
      exact absurd field noField
  · contradiction

namespace AddCall

theorem long_of_fBit {ulsch : Bool} {c : AddCall} (flag : (c.subPdu ulsch).fBit = true) :
    (c.subPdu ulsch).headerLength = 3 ∧ 256 ≤ (c.subPdu ulsch).sduLength := by
  cases c with
  | sdu lcid payload len =>
    simp only [subPdu, SubPdu.setSdu] at flag ⊢
    split at flag
    · rename_i ccch
      have small := sizeofCe_lt ulsch (sduLcid lcid len)
      rw [setLength, macSubheaderLenThreshold, if_neg (by omega)] at flag
      contradiction
    · rename_i ccch
      rw [if_neg ccch]
      unfold setLength macSubheaderLenThreshold at flag ⊢
      split at flag
      · rename_i long
        rw [if_pos long]
        exact ⟨rfl, long⟩
      · contradiction
  | crntiCe | sePhrCe | sbsrCe | ueConResIdCe => contradiction

end AddCall

variable {start : Nat} {q : SubPdu} {memory : Memory}

theorem readSubheader_fixed {ulsch : Bool} {mem : Memory}
    (read : SubPdu.readSubheader ulsch mem start = some q) (noField : hasLengthField ulsch q.lcid = false) :
    q.lcid = mem.byte start % 64 ∧ q.headerLength = 1 ∧ q.sdu = some (fun i => mem (start + 1 + i)) := by
  unfold SubPdu.readSubheader at read
  dsimp only at read
  split at read
  · split at read
    · rename_i field
      split at read <;> obtain rfl := Option.some.inj read <;> exact absurd field (by simpa using noField)
    · obtain rfl := Option.some.inj read
      exact ⟨rfl, rfl, rfl⟩
  · contradiction

def Recurs (memory : Memory) (start : Nat) (q : SubPdu) (bytes : List Byte) : Prop :=
  ∀ i < bytes.length, ∃ k, i ≤ k ∧ k < q.headerLength + q.sduLength.toNat ∧
    memory.byte (start + k) % 64 = (bytes.getD i 0).toNat % 64

theorem payload_getD {data : List Byte}
    (sdu : q.sdu = some (fun i => memory (start + i))) (same : q.payload = data) {j : Nat} (inside : j < data.length) :
    memory (start + j) = data.getD j 0 := by
  rw [← same] at inside ⊢
  have bound : j < q.sduLength.toNat := by rwa [← SubPdu.payload_length]
  simp [SubPdu.payload, sdu, slice, bound]

theorem recurs_of_content {p : SubPdu} (reads : p.ReadsBack true)
    (long : p.fBit = true → p.headerLength = 3 ∧ 256 ≤ p.sduLength)
    (read : SubPdu.readSubheader true memory start = some q) (same : q.content = p.content) :
    p.headerLength ≤ q.headerLength ∧ q.headerLength ≤ 3 ∧ Recurs memory start q p.bytes := by
  have lcid : q.lcid = p.lcid := congrArg Content.lcid same
  have length : q.sduLength = p.sduLength := congrArg Content.sduLength same
  have payload : q.payload = p.payload := congrArg Content.payload same
  have size := p.payload_length
  have header := reads.header
  have bounds := reads.length
  have firstByte := reads.firstByte
  -- what is left to see for a header of `n` bytes, once its bytes behind the first one are known
  have fromHeader : ∀ n, q.headerLength = n → q.sdu = some (fun i => memory (start + n + i)) →
      q.lcid = memory.byte start % 64 → p.header.length ≤ n →
      (∀ i, 0 < i → i < p.header.length → ∃ k, i ≤ k ∧ k < n ∧
        memory.byte (start + k) % 64 = (p.header.getD i 0).toNat % 64) → Recurs memory start q p.bytes := by
    intro n headerLength sdu first shorter others i inside
    rw [SubPdu.bytes, length_append] at inside
    rw [SubPdu.bytes, headerLength, length]
    by_cases inHeader : i < p.header.length
    · rw [getD_append _ _ _ _ inHeader]
      cases i with
      | zero =>
        refine ⟨0, Nat.le_refl 0, by omega, ?_⟩
        rw [Nat.add_zero, ← first, lcid]
        have small := reads.lcid
        unfold Lcid.padding at small
        change _ = (UInt8.ofNat _).toNat % 64
        rw [firstByte]
        split <;> omega
      | succ i =>
        obtain ⟨k, later, bound, byte⟩ := others (i + 1) (Nat.succ_pos i) inHeader
        exact ⟨k, later, by omega, byte⟩
    · rw [getD_append_right _ _ _ _ (Nat.le_of_not_lt inHeader)]
      refine ⟨n + (i - p.header.length), by omega, by omega, ?_⟩
      rw [← Nat.add_assoc, Memory.byte, payload_getD sdu payload (by omega)]
  cases field : hasLengthField true p.lcid with
  | false =>
    rw [field, if_neg (by simp)] at header
    obtain ⟨first, headerLength, sdu⟩ := readSubheader_fixed read (lcid ▸ field)
    have one : p.header.length = 1 := by simp [SubPdu.header, header.1]
    refine ⟨by omega, by omega, fromHeader 1 headerLength sdu first (by omega) ?_⟩
    intro i pos inside
    omega
  | true =>
    rw [field, if_pos rfl] at header
    obtain ⟨first, byThree | byTwo⟩ := readSubheader_field read (lcid ▸ field)
    · obtain ⟨_, headerLength, sduLength, sdu⟩ := byThree
      have low := memory.byte_lt (start + 1)
      have high := memory.byte_lt (start + 2)
      cases flag : p.fBit with
      | true =>
        have three : p.headerLength = 3 := (long flag).1
        have bytes : p.header = [UInt8.ofNat (64 + p.lcid % 64), UInt8.ofNat (p.sduLength / 256 % 256).toNat,
            UInt8.ofNat (p.sduLength % 256).toNat] := by simp [SubPdu.header, three, flag]
        refine ⟨by omega, by omega, fromHeader 3 headerLength sdu first (by simp [bytes]) ?_⟩
        intro i pos inside
        refine ⟨i, Nat.le_refl i, by simpa [bytes] using inside, ?_⟩
        obtain rfl | rfl : i = 1 ∨ i = 2 := by
          rw [bytes] at inside
          simp only [length_cons, length_nil] at inside
          omega
        · rw [bytes, getD_cons_succ, getD_cons_zero, toNat_ofNat_byte (by omega)]
          omega
        · rw [bytes, getD_cons_succ, getD_cons_succ, getD_cons_zero, toNat_ofNat_byte (by omega)]
          omega
      | false =>
        have two : p.headerLength = 2 := by simpa [flag] using header.1
        have short := header.2 flag
        have bytes : p.header = [UInt8.ofNat (p.lcid % 64), UInt8.ofNat (p.sduLength % 256).toNat] := by
          simp [SubPdu.header, two, flag]
        refine ⟨by omega, by omega, fromHeader 3 headerLength sdu first (by simp [bytes]) ?_⟩
        intro i pos inside
        obtain rfl : i = 1 := by
          rw [bytes] at inside
          simp only [length_cons, length_nil] at inside
          omega
        refine ⟨2, by omega, by omega, ?_⟩
        rw [bytes, getD_cons_succ, getD_cons_zero, toNat_ofNat_byte (by omega)]
        omega
    · obtain ⟨_, headerLength, sduLength, sdu⟩ := byTwo
      have low := memory.byte_lt (start + 1)
      have flag : p.fBit = false := by
        by_contra isLong
        have := (long (by simpa using isLong)).2
        omega
      have two : p.headerLength = 2 := by simpa [flag] using header.1
      have bytes : p.header = [UInt8.ofNat (p.lcid % 64), UInt8.ofNat (p.sduLength % 256).toNat] := by
        simp [SubPdu.header, two, flag]
      refine ⟨by omega, by omega, fromHeader 2 headerLength sdu first (by simp [bytes]) ?_⟩
      intro i pos inside
      obtain rfl : i = 1 := by
        rw [bytes] at inside
        simp only [length_cons, length_nil] at inside
        omega
      refine ⟨1, by omega, by omega, ?_⟩
      rw [bytes, getD_cons_succ, getD_cons_zero, toNat_ofNat_byte (by omega)]
      omega

theorem conResId_bytes (id : Fin 6 → Byte) : (setUeConResIdCe true id).bytes = [62, id 0] := by
  simp [SubPdu.bytes, SubPdu.header, SubPdu.payload, setUeConResIdCe, SubPdu.setCe, slice, sizeofCe,
    Lcid.conResId, ccchSize48, ccchSize64, Lcid.crnti, sePhr, Lcid.longBsr, ofList]

theorem reads_conResId {id : Fin 6 → Byte}
    (read : SubPdu.readSubheader true memory start = some q)
    (same : q.content = (ueConResIdCe id).content true) :
    memory.byte start % 64 = 62 ∧ q.sduLength = 6 ∧ (q.headerLength = 2 ∨ q.headerLength = 3) ∧
      (memory.byte start = 62 → q.headerLength = 2 ∧ memory.byte (start + 1) = 6) ∧
      memory (start + q.headerLength) = id 0 := by
  have lcid : q.lcid = 62 := congrArg Content.lcid same
  have length : q.sduLength = 6 := congrArg Content.sduLength same
  have payload : q.payload = List.ofFn id := congrArg Content.payload same
  obtain ⟨first, byThree | byTwo⟩ := readSubheader_field read (by rw [lcid]; decide)
  · obtain ⟨flag, headerLength, sduLength, sdu⟩ := byThree
    have byte := payload_getD (j := 0) sdu payload (by simp)
    refine ⟨by omega, length, .inr headerLength, fun plain => ?_, by simpa [headerLength] using byte⟩
    rw [plain] at flag
    contradiction
  · obtain ⟨flag, headerLength, sduLength, sdu⟩ := byTwo
    have byte := payload_getD (j := 0) sdu payload (by simp)
    refine ⟨by omega, length, .inl headerLength, fun _ => ⟨headerLength, by omega⟩, by simpa [headerLength] using byte⟩

namespace AddCall

theorem recurs {c : AddCall} {memory : Memory} {start : Nat} {q : SubPdu} (domain : c.InDomain true)
    (sized : (c.subPdu true).Sized) (read : SubPdu.readSubheader true memory start = some q)
    (same : q.content = c.content true) :
    (c.subPdu true).bytes.length ≤ q.headerLength + q.sduLength.toNat ∧
      q.headerLength + q.sduLength.toNat < 65540 ∧ 0 ≤ q.sduLength ∧ Recurs memory start q (c.subPdu true).bytes := by
  by_cases faithful : c.Faithful true
  · have content := subPdu_content domain sized faithful
    have reads := readsBack domain faithful sized
    obtain ⟨shorter, most, recurs⟩ := recurs_of_content reads long_of_fBit read (same.trans content.symm)
    have length : q.sduLength = (c.subPdu true).sduLength :=
      congrArg Content.sduLength (same.trans content.symm)
    have bounds := reads.length
    have header := reads.sized.header
    have payload := (c.subPdu true).payload_length
    refine ⟨?_, by omega, by omega, recurs⟩
    rw [SubPdu.bytes, length_append]
    omega
  · cases c with
    | sdu lcid payload len => exact absurd (fun dl => by contradiction) faithful
    | crntiCe | sePhrCe => exact absurd rfl faithful
    | sbsrCe => exact absurd trivial faithful
    | ueConResIdCe id =>
      obtain ⟨first, length, header, -, byte⟩ := reads_conResId read same
      have bytes : ((ueConResIdCe id).subPdu true).bytes = [62, id 0] := conResId_bytes id
      rw [bytes]
      refine ⟨by simp; omega, by omega, by omega, fun i inside => ?_⟩
      obtain rfl | rfl : i = 0 ∨ i = 1 := by
        simp only [length_cons, length_nil] at inside
        omega
      · exact ⟨0, Nat.le_refl 0, by omega, first⟩
      · refine ⟨q.headerLength, by omega, by omega, ?_⟩
        rw [Memory.byte, byte]
        rfl

end AddCall

def tailBytes (subpdus : List SubPdu) (n : Nat) : List Byte := subpdus.flatMap SubPdu.bytes ++ paddingBytes n

theorem tailBytes_cons (p : SubPdu) (subpdus : List SubPdu) (n : Nat) :
    tailBytes (p :: subpdus) n = p.bytes ++ tailBytes subpdus n := by
  simp [tailBytes]

section
variable {front rest : List Byte} {n : Nat} {memory : Memory}

theorem le_of_unpackFrom {ulsch : Bool} {len rounds offset : Nat} {acc read : List SubPdu}
    (run : unpackFrom ulsch memory len rounds offset acc = some (true, read)) : offset ≤ len := by
  by_cases more : offset < len
  · exact Nat.le_of_lt more
  · rw [unpackFrom_end more] at run
    exact Nat.le_of_eq (by simpa using (Prod.mk.inj (Option.some.inj run)).1)

section
variable {calls : List AddCall} (domain : ∀ c ∈ calls, c.InDomain true)
  (sized : ∀ c ∈ calls, (c.subPdu true).Sized) {len rounds shift : Nat} {acc read : List SubPdu}
  {padding : List Content} (later : 0 < shift) (len_eq : len = front.length +
    (tailBytes (calls.map (subPdu true)) n).length) (small : len < 4294901000)
  (run : unpackFrom true memory len rounds (front.length + shift) acc = some (true, read))
  (expected : read.map SubPdu.content = acc.map SubPdu.content ++ (calls.map (AddCall.content true) ++ padding))
include domain sized later len_eq small run expected

theorem recurs_behind :
    ∀ i < ((calls.map (subPdu true)).flatMap SubPdu.bytes).length, ∃ j, i < j ∧
      j < (tailBytes (calls.map (subPdu true)) n).length ∧ memory.byte (front.length + j) % 64 =
        (((calls.map (subPdu true)).flatMap SubPdu.bytes).getD i 0).toNat % 64 := by
  induction calls generalizing front rounds acc shift with
  | nil => simp
  | cons c calls ih =>
    have more : front.length + shift < len := by
      by_contra done
      rw [unpackFrom_end done] at run
      obtain rfl := (Prod.mk.inj (Option.some.inj run)).2
      simp at expected
    have notPadding : (c.content true).lcid ≠ Lcid.padding := by
      have := domain c (by simp)
      cases c with
      | sdu lcid payload length =>
        have small := this.1
        simp only [AddCall.content]
        unfold Lcid.padding ccchSize48
        split <;> omega
      | crntiCe | sePhrCe | sbsrCe | ueConResIdCe => exact fun same => by cases same
    obtain ⟨q, rounds, header, content, run⟩ := unpackFrom_reads run expected more notPadding
    obtain ⟨shorter, most, positive, recurs⟩ := recurs (domain c (by simp)) (sized c (by simp)) header content
    have total : (front.length + shift + q.getTotalLength) % 4294967296 =
        (front ++ (c.subPdu true).bytes).length +
          (shift + (q.headerLength + q.sduLength.toNat) - (c.subPdu true).bytes.length) := by
      rw [SubPdu.getTotalLength, length_append]
      omega
    rw [total] at run
    have inside := le_of_unpackFrom run
    simp only [map_cons, flatMap_cons, tailBytes_cons, length_append] at len_eq inside ⊢
    intro i bound
    by_cases here : i < (c.subPdu true).bytes.length
    · obtain ⟨k, after, within, byte⟩ := recurs i here
      refine ⟨shift + k, by omega, by omega, ?_⟩
      rw [← Nat.add_assoc, byte, getD_append _ _ _ _ here]
    · obtain ⟨j, after, within, byte⟩ := ih (fun c mem => domain c (by simp [mem]))
        (fun c mem => sized c (by simp [mem])) (by omega) (by rw [length_append]; omega) run
        (by simp [expected, content]) (i - (c.subPdu true).bytes.length) (by omega)
      refine ⟨(c.subPdu true).bytes.length + j, by omega, by omega, ?_⟩
      rw [getD_append_right _ _ _ _ (Nat.le_of_not_lt here), ← byte, length_append, Nat.add_assoc]

theorem not_recurs (memory_eq : memory = ofList (front ++ (tailBytes (calls.map (subPdu true)) n ++ rest)))
    (first : memory.byte front.length = 6) : False := by
  have again := recurs_behind domain sized later len_eq small run expected
  have inside := le_of_unpackFrom run
  have byteAt : ∀ i < (tailBytes (calls.map (subPdu true)) n).length, memory.byte (front.length + i) =
      ((tailBytes (calls.map (subPdu true)) n).getD i 0).toNat := by
    intro i bound
    rw [memory_eq, Memory.byte, ofList_behind, getD_append _ _ _ _ bound]
  -- the last time that the byte comes, it would stand in the padding, which is 63 and zeros
  have never : ∀ left i, i + left = (tailBytes (calls.map (subPdu true)) n).length → 0 < left →
      memory.byte (front.length + i) % 64 ≠ 6 := by
    intro left
    induction left using Nat.strongRecOn with
    | ind left ih =>
      intro i position pos
      by_cases written : i < ((calls.map (subPdu true)).flatMap SubPdu.bytes).length
      · obtain ⟨j, after, within, byte⟩ := again i written
        rw [byteAt i (by omega), tailBytes, getD_append _ _ _ _ written, ← byte]
        exact ih (i + left - j) (by omega) j (by omega) (by omega)
      · rw [byteAt i (by omega), tailBytes, getD_append_right _ _ _ _ (Nat.le_of_not_lt written)]
        cases n with
        | zero =>
          simp only [tailBytes, paddingBytes, append_nil] at position
          omega
        | succ n =>
          cases i - ((calls.map (subPdu true)).flatMap SubPdu.bytes).length with
          | zero => simp [paddingBytes]
          | succ k => simp [paddingBytes]
  exact never _ 0 (Nat.zero_add _) (by omega) (by rw [Nat.add_zero, first])

end

end

theorem exists_first_not {α : Type*} {P : α → Prop} {l : List α} (notAll : ¬ ∀ a ∈ l, P a) :
    ∃ good bad later, l = good ++ bad :: later ∧ (∀ a ∈ good, P a) ∧ ¬ P bad := by
  induction l with
  | nil => exact absurd (by simp) notAll
  | cons a l ih =>
    by_cases holds : P a
    · have rest : ¬ ∀ b ∈ l, P b := fun all => notAll (by simp [holds]; exact all)
      obtain ⟨good, bad, later, rfl, all, isBad⟩ := ih rest
      exact ⟨a :: good, bad, later, rfl, by simp [holds]; exact all, isBad⟩
    · exact ⟨[], a, l, rfl, by simp, holds⟩

theorem not_reads_ccch48 {front rest : List Byte} {payload : Memory} {q : SubPdu}
    (read : SubPdu.readSubheader false (ofList
      (front ++ ((SubPdu.setSdu false ccchSize64 payload 6).bytes ++ rest))) front.length = some q) :
    q.lcid ≠ ccchSize64 := by
  have byte : (ofList (front ++ ((SubPdu.setSdu false ccchSize64 payload 6).bytes ++ rest))).byte
      front.length = 52 :=
    congrArg UInt8.toNat (ofList_behind front ((SubPdu.setSdu false ccchSize64 payload 6).bytes ++ rest) 0)
  unfold SubPdu.readSubheader at read
  simp only [byte] at read
  obtain rfl := Option.some.inj read
  exact show 52 ≠ ccchSize64 by decide

theorem not_reads_ulCe {lcid : Nat} (ofUe : lcid = Lcid.crnti ∨ lcid = sePhr) {storage front rest : List Byte}
    {q : SubPdu} (read : SubPdu.readSubheader false (ofList
      (front ++ ((SubPdu.setCe false lcid storage).bytes ++ rest))) front.length = some q) : q.sduLength = 0 := by
  have first := congrArg UInt8.toNat (ofList_behind front ((SubPdu.setCe false lcid storage).bytes ++ rest) 0)
  rcases ofUe with rfl | rfl
  · have byte : (ofList (front ++ ((SubPdu.setCe false Lcid.crnti storage).bytes ++ rest))).byte
        front.length = 58 := first
    unfold SubPdu.readSubheader at read
    simp only [byte] at read
    obtain rfl := Option.some.inj read
    rfl
  · have byte : (ofList (front ++ ((SubPdu.setCe false sePhr storage).bytes ++ rest))).byte
        front.length = 57 := first
    unfold SubPdu.readSubheader at read
    simp only [byte] at read
    obtain rfl := Option.some.inj read
    rfl

theorem not_reads_conResId {id : Fin 6 → Byte} {front rest : List Byte} {n : Nat} {calls : List AddCall}
    (domain : ∀ c ∈ calls, c.InDomain true) (sized : ∀ c ∈ calls, (c.subPdu true).Sized) {len rounds : Nat}
    {acc read : List SubPdu} {padding : List Content} {memory : Memory}
    (memory_eq : memory = ofList (front ++ ((setUeConResIdCe true id).bytes ++
      tailBytes (calls.map (subPdu true)) n ++ rest)))
    (len_eq : len = front.length + ((setUeConResIdCe true id).bytes ++
      tailBytes (calls.map (subPdu true)) n).length) (small : len < 4294901000)
    (run : unpackFrom true memory len rounds front.length acc = some (true, read))
    (expected : read.map SubPdu.content = acc.map SubPdu.content ++ (ueConResIdCe id).content true ::
      (calls.map (AddCall.content true) ++ padding)) : False := by
  rw [conResId_bytes] at memory_eq len_eq
  have inside : front.length + 2 ≤ len := by
    rw [len_eq]
    simp
  have byteAt : ∀ i, memory (front.length + i) =
      ([62, id 0] ++ tailBytes (calls.map (subPdu true)) n ++ rest).getD i 0 := by
    intro i
    rw [memory_eq, ofList_behind]
  obtain ⟨q, rounds, header, content, run⟩ := unpackFrom_reads run expected (by omega)
    (show 62 ≠ Lcid.padding by decide)
  obtain ⟨-, length, -, plain, payload⟩ := reads_conResId header content
  obtain ⟨two, six⟩ := plain (congrArg UInt8.toNat (byteAt 0))
  have byte1 : memory.byte (front.length + 1) = (id 0).toNat := congrArg UInt8.toNat (byteAt 1)
  have byte2 : memory.byte (front ++ [62, id 0]).length = 6 := by
    rw [two] at payload
    rw [length_append, Memory.byte]
    exact (congrArg UInt8.toNat payload).trans (byte1.symm.trans six)
  have total : (front.length + q.getTotalLength) % 4294967296 = (front ++ [62, id 0]).length + 6 := by
    rw [SubPdu.getTotalLength, length_append]
    simp only [length_cons, length_nil]
    omega
  rw [total] at run
  refine @not_recurs _ rest n _ calls domain sized _ _ 6 _ _ padding (by decide) ?_ small run ?_ ?_ byte2
  · rw [len_eq, length_append]
    simp [Nat.add_assoc]
  · simp [expected, content]
  · rw [memory_eq]
    simp

theorem faithful_of_readsAs {ulsch : Bool} {calls : List AddCall} {n : Nat} (domain : ∀ c ∈ calls, c.InDomain ulsch)
    (sized : ∀ c ∈ calls, (c.subPdu ulsch).Sized)
    (small : (tailBytes (calls.map (subPdu ulsch)) n).length < 4294901000)
    (reads : ReadsAs ulsch (tailBytes (calls.map (subPdu ulsch)) n) (calls.map (AddCall.content ulsch))) :
    ∀ c ∈ calls, c.Faithful ulsch := by
  by_contra notAll
  obtain ⟨good, bad, later, rfl, faithful, isBad⟩ := exists_first_not notAll
  obtain ⟨read, padding, run, expected, _⟩ := reads [] _ (Nat.le_refl _)
  generalize lengthEq : (tailBytes ((good ++ bad :: later).map (subPdu ulsch)) n).length = len at run small
  have readsBack : ∀ p ∈ good.map (subPdu ulsch), p.ReadsBack ulsch := by
    intro p mem
    obtain ⟨c, memC, rfl⟩ := List.mem_map.mp mem
    exact readsBack (domain c (by simp [memC])) (faithful c memC) (sized c (by simp [memC]))
  have goodContents : (good.map (subPdu ulsch)).map SubPdu.content = good.map (AddCall.content ulsch) := by
    rw [map_map]
    refine map_congr_left fun c mem => ?_
    exact subPdu_content (domain c (by simp [mem])) (sized c (by simp [mem])) (faithful c mem)
  have pos := (bad.subPdu ulsch).bytes_pos
  generalize goods : good.map (subPdu ulsch) = subpdus at readsBack goodContents
  have split : tailBytes ((good ++ bad :: later).map (subPdu ulsch)) n =
      subpdus.flatMap SubPdu.bytes ++ ((bad.subPdu ulsch).bytes ++ tailBytes (later.map (subPdu ulsch)) n) := by
    simp [tailBytes, goods]
  rw [split] at lengthEq
  have lengthEq' := lengthEq
  rw [length_append, length_append] at lengthEq'
  have count := length_le_flatMap_bytes subpdus
  obtain ⟨goodRead, contents, past⟩ := unpackFrom_subPdus readsBack []
    ((bad.subPdu ulsch).bytes ++ tailBytes (later.map (subPdu ulsch)) n) len len []
    (by rw [length_nil]; omega) (by omega) (by omega)
  simp only [nil_append, length_nil, Nat.zero_add] at past
  rw [split, append_nil, unpack, past] at run
  have expected' : read.map SubPdu.content = goodRead.map SubPdu.content ++ bad.content ulsch ::
      (later.map (AddCall.content ulsch) ++ padding) := by
    rw [expected, contents, goodContents]
    simp
  cases bad with
  | sbsrCe => exact isBad trivial
  | crntiCe | sePhrCe =>
    obtain rfl : ulsch = false := by simpa [AddCall.Faithful] using isBad
    obtain ⟨q, _, header, content, _⟩ := unpackFrom_reads run expected' (by omega) (fun same => by cases same)
    have empty := not_reads_ulCe (by decide) header
    rw [show q.sduLength = 2 from congrArg Content.sduLength content] at empty
    contradiction
  | ueConResIdCe id =>
    obtain rfl : ulsch = true := by simpa [AddCall.Faithful] using isBad
    exact @not_reads_conResId id (subpdus.flatMap SubPdu.bytes) [] n later (fun c mem => domain c (by simp [mem]))
      (fun c mem => sized c (by simp [mem])) _ _ _ _ padding _ (by simp [subPdu])
      (by rw [length_append]; exact lengthEq'.symm) small run expected'
  | sdu lcid payload length =>
    simp only [AddCall.Faithful, not_forall, not_not] at isBad
    obtain ⟨rfl, rfl, rfl⟩ := isBad
    obtain ⟨q, _, header, content, _⟩ := unpackFrom_reads run expected' (by omega)
      (show 0 ≠ Lcid.padding by decide)
    exact not_reads_ccch48 header (congrArg Content.lcid content)

namespace SchPduTx

theorem readsAs_iff_faithful {buffer : ByteBuffer} {pduLen : Nat} {ulsch : Bool} {calls accepted : List AddCall}
    {pdu : SchPduTx} (small : pduLen < 4294967296) (domain : ∀ c ∈ calls, c.InDomain ulsch)
    (run : (initTx buffer pduLen ulsch).addAll calls = .ok (pdu, accepted)) :
    (∀ c pdu', pdu.add c = .ok (pdu', false) → pdu' = pdu) ∧
      (pduLen ≤ buffer.getTailroom → (∀ c : AddCall, c.InDomain ulsch → ∃ result, pdu.add c = .ok result) ∧
        ∃ pdu', pdu.pack = .ok pdu') ∧
      ∀ pdu', pdu.pack = .ok pdu' → ∃ bytes, pdu'.buffer.msg = buffer.msg ++ bytes ∧ bytes.length = pduLen ∧
        (ReadsAs ulsch bytes (accepted.map (AddCall.content ulsch)) ↔ ∀ c ∈ accepted, c.Faithful ulsch) := by
  obtain ⟨wrote, subset⟩ := (initTx_wrote buffer pduLen ulsch).addAll run
  rw [nil_append] at wrote
  refine ⟨fun c pdu' failed => ?_, fun room => ⟨fun c => wrote.add_ok room, wrote.pack_ok room⟩, fun pdu' ok => ?_⟩
  · rcases add_spec failed with ⟨_, same⟩ | ⟨success, _⟩
    · exact same
    · contradiction
  · obtain ⟨room, written⟩ := wrote.pack small ok
    have remaining := wrote.remaining
    have bound : maxBufferSizeBytes = 13257 := rfl
    simp only [ByteBuffer.getTailroom, ByteBuffer.nBytes] at room
    have domain' : ∀ c ∈ accepted, c.InDomain ulsch := fun c mem => domain c (subset mem)
    have sized : ∀ c ∈ accepted, (c.subPdu ulsch).Sized :=
      fun c mem => wrote.sized _ (mem_map_of_mem mem)
    have length : (tailBytes (accepted.map (subPdu ulsch)) pdu.remainingLen).length = pduLen := by
      rw [tailBytes, length_append, paddingBytes_length]
      omega
    refine ⟨tailBytes (accepted.map (subPdu ulsch)) pdu.remainingLen, by rw [written]; rfl, length, ?_, ?_⟩
    · exact faithful_of_readsAs domain' sized (by omega)
    · intro faithful
      have contents : accepted.map (AddCall.content ulsch) =
          (accepted.map (subPdu ulsch)).map SubPdu.content := by
        rw [map_map]
        refine map_congr_left fun c mem => ?_
        exact (subPdu_content (domain' c mem) (sized c mem) (faithful c mem)).symm
      rw [contents]
      refine readsAs_of_readsBack (fun p mem => ?_) pdu.remainingLen (by omega)
      obtain ⟨c, memC, rfl⟩ := List.mem_map.mp mem
      exact readsBack (domain' c memC) (faithful c memC) (sized c memC)

def ulCalls : List AddCall :=
  [.crntiCe 0x4601, .sbsrCe 1 7, .sdu 0 (ofList [1, 2, 3, 4, 5, 6]) 6, .sdu 4 (ofList [7, 8]) 2]

theorem readsAs_iff_faithful_ulCalls : ∃ pdu pdu', (initTx {} 19 true).addAll ulCalls = .ok (pdu, ulCalls) ∧
    pdu.pack = .ok pdu' ∧ ∃ bytes, pdu'.buffer.msg = bytes ∧ bytes.length = 19 ∧
      ReadsAs true bytes (ulCalls.map (AddCall.content true)) := by
  have run : ∃ pdu, (initTx {} 19 true).addAll ulCalls = .ok (pdu, ulCalls) := ⟨_, rfl⟩
  obtain ⟨pdu, run⟩ := run
  have domain : ∀ c ∈ ulCalls, c.InDomain true := by
    simp [ulCalls, AddCall.InDomain, ccchSize64]
  have faithful : ∀ c ∈ ulCalls, c.Faithful true := by
    simp [ulCalls, AddCall.Faithful]
  obtain ⟨_, total, packed⟩ := readsAs_iff_faithful (by decide) domain run
  obtain ⟨_, pdu', ok⟩ := total (by decide)
  obtain ⟨bytes, msg, length, reads⟩ := packed pdu' ok
  exact ⟨pdu, pdu', run, ok, bytes, by simpa using msg, length, reads.mpr faithful⟩

theorem dlCcch_misread : ∃ pdu pdu', (initTx {} 8 false).addAll [.sdu 0 (ofList [1, 2, 3, 4, 5, 6]) 6] =
      .ok (pdu, [.sdu 0 (ofList [1, 2, 3, 4, 5, 6]) 6]) ∧ pdu.pack = .ok pdu' ∧
    pdu'.buffer.msg = [52, 6, 1, 2, 3, 4, 5, 6] ∧ ¬ ReadsAs false pdu'.buffer.msg
      ([.sdu 0 (ofList [1, 2, 3, 4, 5, 6]) 6].map (AddCall.content false)) := by
  refine ⟨_, _, rfl, rfl, rfl, fun reads => ?_⟩
  obtain ⟨read, _, run, _⟩ := reads [] 8 (by decide)
  have malformed : (unpack false (ofList [52, 6, 1, 2, 3, 4, 5, 6]) 8 8).map Prod.fst = some false := rfl
  have run' : unpack false (ofList [52, 6, 1, 2, 3, 4, 5, 6]) 8 8 = some (true, read) := run
  rw [run'] at malformed
  exact absurd malformed (by simp)

end SchPduTx

end IsrRan.Mac.Nr
