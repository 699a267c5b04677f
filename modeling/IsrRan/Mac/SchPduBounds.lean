import IsrRan.Lib.Peek
import IsrRan.Mac.SchPdu
import Mathlib

namespace IsrRan.Mac.Lte.Pdu
open List Lib.Peek Memory

/-! The parser once more, byte by byte. -/

def lookSubheader (kind : Kind) (ptr : Nat) : Lib.Peek Nat Byte (Bool × ReadSubh × Nat) := do
  let first ← Lib.Peek.cell ptr
  let eBit := decide (first.toNat / 32 % 2 = 1)
  let lcid := first.toNat % 32
  if hasLengthField kind lcid then
    if eBit then
      let second ← Lib.Peek.cell (ptr + 1)
      if 128 ≤ second.toNat then
        let third ← Lib.Peek.cell (ptr + 2)
        pure (true, ⟨lcid, second.toNat % 128 * 256 + third.toNat, 0⟩, 3)
      else pure (true, ⟨lcid, second.toNat, 0⟩, 2)
    else pure (false, ⟨lcid, 0, 0⟩, 1)
  else pure (eBit, ⟨lcid, sizeofCe kind lcid 0, 0⟩, 1)

def lookSubheaders (kind : Kind) (pduLen : Nat) : (room ptr : Nat) → Lib.Peek Nat Byte (Option (List ReadSubh × Nat))
  | 0, ptr => pure (some ([], ptr))
  | room + 1, ptr => do
    let (more, subh, len) ← lookSubheader kind ptr
    if more && pduLen ≤ ptr + len then pure none
    else if more && 0 < room then
      let rest ← lookSubheaders kind pduLen room (ptr + len)
      pure (rest.map fun (subhs, ptr) => (subh :: subhs, ptr))
    else pure (some ([subh], ptr + len))

def room (maxSubheaders : Nat) : Nat := min maxSubheaders (max 1 (maxSubheaders - 1))

structure Seen where
  ptr : Nat
  more : Bool
  subh : ReadSubh
  len : Nat
  deriving DecidableEq, Repr

def see (kind : Kind) (mem : Memory) (ptr : Nat) : Seen where
  ptr
  more := (readSubheader kind mem ptr).1
  subh := (readSubheader kind mem ptr).2.1
  len := (readSubheader kind mem ptr).2.2

def chain (kind : Kind) (mem : Memory) (pduLen : Nat) : (room ptr : Nat) → List Seen
  | 0, _ => []
  | room + 1, ptr =>
    let s := see kind mem ptr
    if s.more && s.ptr + s.len < pduLen && 0 < room then s :: chain kind mem pduLen room (ptr + s.len) else [s]

section
variable {kind : Kind} {mem : Memory} {pduLen : Nat}

theorem lookSubheader_run (ptr : Nat) : (lookSubheader kind ptr).run mem = readSubheader kind mem ptr := by
  unfold lookSubheader readSubheader
  simp only [run_cell_bind, run_ite, decide_eq_true_eq]
  rfl

theorem lookSubheader_reads (ptr : Nat) :
    (lookSubheader kind ptr).reads mem = range' ptr (see kind mem ptr).len := by
  unfold lookSubheader see readSubheader
  simp only [reads_cell_bind, Memory.byte]
  by_cases field : hasLengthField kind ((mem ptr).toNat % 32) = true
  · by_cases more : (mem ptr).toNat / 32 % 2 = 1
    · by_cases long : 128 ≤ (mem (ptr + 1)).toNat
      · simp [field, more, long, List.range'_succ]
      · simp [field, more, long, List.range'_succ]
    · simp [field, more]
  · simp [field]

theorem lookSubheaders_reads (room ptr : Nat) :
    (lookSubheaders kind pduLen room ptr).reads mem =
      (chain kind mem pduLen room ptr).flatMap fun s => range' s.ptr s.len := by
  induction room generalizing ptr with
  | zero => rfl
  | succ room ih =>
    obtain ⟨more, subh, len, read⟩ : ∃ more subh len, readSubheader kind mem ptr = (more, subh, len) := ⟨_, _, _, rfl⟩
    have seen : see kind mem ptr = ⟨ptr, more, subh, len⟩ := by simp [see, read]
    rw [lookSubheaders, reads_bind, lookSubheader_run, lookSubheader_reads, chain, seen, read]
    by_cases cutOff : pduLen ≤ ptr + len
    · cases more <;> simp [Nat.not_lt.mpr cutOff]
    · by_cases last : 0 < room
      · cases more <;> simp [Nat.not_le.mp cutOff, last, ih]
      · cases more <;> simp [last]

theorem lookSubheaders_run (room ptr : Nat) :
    (lookSubheaders kind pduLen room ptr).run mem = readSubheaders kind mem pduLen room ptr := by
  induction room generalizing ptr with
  | zero => rfl
  | succ room ih =>
    rw [lookSubheaders, readSubheaders, run_bind, lookSubheader_run]
    dsimp only
    simp only [run_ite, run_bind, run_pure, ih]

theorem chain_ne_nil {ptr room : Nat} (some_ : 0 < room) : chain kind mem pduLen room ptr ≠ [] := by
  obtain ⟨room, rfl⟩ := Nat.exists_eq_succ_of_ne_zero (Nat.ne_of_gt some_)
  unfold chain
  dsimp only
  split <;> simp

theorem readSubheaders_chain (room ptr : Nat) :
    readSubheaders kind mem pduLen room ptr =
      match (chain kind mem pduLen room ptr).getLast? with
      | none => some ([], ptr)
      | some last =>
        if last.more && pduLen ≤ last.ptr + last.len then none
        else some ((chain kind mem pduLen room ptr).map (·.subh), last.ptr + last.len) := by
  induction room generalizing ptr with
  | zero => rfl
  | succ room ih =>
    obtain ⟨more, subh, len, read⟩ : ∃ more subh len, readSubheader kind mem ptr = (more, subh, len) := ⟨_, _, _, rfl⟩
    have seen : see kind mem ptr = ⟨ptr, more, subh, len⟩ := by simp [see, read]
    rw [readSubheaders, chain, seen, read]
    by_cases cutOff : pduLen ≤ ptr + len
    · cases more <;> simp [cutOff, Nat.not_lt.mpr cutOff]
    · by_cases last : 0 < room
      · cases more with
        | false => simp
        | true =>
          obtain ⟨final, there⟩ := Option.ne_none_iff_exists'.mp
            (mt getLast?_eq_none_iff.mp (@chain_ne_nil kind mem pduLen (ptr + len) room last))
          simp only [ih, there, cutOff, last, getLast?_cons, Option.getD_some, Bool.true_and, decide_false,
            Bool.false_eq_true, if_false, decide_true, if_true, Nat.not_le.mp cutOff]
          split <;> simp
      · cases more <;> simp [last]

theorem chain_spec (room ptr : Nat) (inside : ptr < pduLen) :
    (∀ s ∈ chain kind mem pduLen room ptr, s = see kind mem s.ptr ∧ s.ptr < pduLen) ∧
    (∀ s ∈ (chain kind mem pduLen room ptr).dropLast, s.more = true) ∧
    ∀ last ∈ (chain kind mem pduLen room ptr).getLast?,
      last.ptr + last.len = ptr + ((chain kind mem pduLen room ptr).map (·.len)).sum := by
  induction room generalizing ptr with
  | zero => simp [chain]
  | succ room ih =>
    rw [chain]
    split
    · rename_i continues
      simp only [Bool.and_eq_true, decide_eq_true_eq] at continues
      obtain ⟨⟨more, within⟩, some_⟩ := continues
      obtain ⟨seen, announce, end_⟩ := ih (ptr + (see kind mem ptr).len) within
      have tail := @chain_ne_nil kind mem pduLen (ptr + (see kind mem ptr).len) room some_
      refine ⟨?_, ?_, ?_⟩
      · intro s mem_
        rcases List.mem_cons.mp mem_ with rfl | later
        · exact ⟨rfl, inside⟩
        · exact seen s later
      · intro s mem_
        rw [dropLast_cons_of_ne_nil tail] at mem_
        rcases List.mem_cons.mp mem_ with rfl | later
        · exact more
        · exact announce s later
      · intro last mem_
        rw [getLast?_cons_of_ne_nil tail] at mem_
        rw [end_ last mem_, map_cons, sum_cons]
        omega
    · refine ⟨?_, by simp, ?_⟩
      · intro s mem_
        obtain rfl := List.mem_singleton.mp mem_
        exact ⟨rfl, inside⟩
      · rintro last ⟨⟩
        simp [see]

def LengthCutOff (kind : Kind) (mem : Memory) (pduLen ptr : Nat) : Prop :=
  hasLengthField kind (mem.byte ptr % 32) = true ∧ mem.byte ptr / 32 % 2 = 1 ∧
    (ptr + 1 = pduLen ∨ ptr + 2 = pduLen ∧ 128 ≤ mem.byte (ptr + 1))

def OddLength (kind : Kind) (s : Seen) : Prop :=
  hasLengthField kind s.subh.lcid = true ∧ (s.subh.nofBytes = 0 ∨ s.len = 3 ∧ s.subh.nofBytes < 128)

instance (ptr : Nat) : Decidable (LengthCutOff kind mem pduLen ptr) := inferInstanceAs (Decidable (_ ∧ _))

instance (s : Seen) : Decidable (OddLength kind s) := inferInstanceAs (Decidable (_ ∧ _))

theorem lengthCutOff_iff {ptr : Nat} (inside : ptr < pduLen) :
    LengthCutOff kind mem pduLen ptr ↔ pduLen < ptr + (see kind mem ptr).len := by
  unfold LengthCutOff see readSubheader
  by_cases field : hasLengthField kind (mem.byte ptr % 32) = true
  · by_cases more : mem.byte ptr / 32 % 2 = 1
    · by_cases long : 128 ≤ mem.byte (ptr + 1)
      · simp only [field, more, long, if_true, and_true, true_and]
        omega
      · simp only [field, more, long, if_true, if_false, and_false, or_false, true_and]
        omega
    · simp only [field, more, if_true, if_false, false_and, and_false, false_iff]
      omega
  · simp only [field, Bool.false_eq_true, if_false, false_and, false_iff]
    omega

def countedHeader (kind : Kind) (s : ReadSubh) : Nat := if hasLengthField kind s.lcid then sizeHeaderSdu s.nofBytes else 1

theorem sizePlusHeader_eq (s : ReadSubh) : s.sizePlusHeader kind = countedHeader kind s + s.nofBytes := by
  unfold ReadSubh.sizePlusHeader countedHeader
  split <;> rfl

theorem sizeHeaderSdu_cases (nbytes : Nat) :
    nbytes = 0 ∧ sizeHeaderSdu nbytes = 0 ∨ (0 < nbytes ∧ nbytes < 128) ∧ sizeHeaderSdu nbytes = 2 ∨
      128 ≤ nbytes ∧ sizeHeaderSdu nbytes = 3 := by
  unfold sizeHeaderSdu
  split
  · omega
  · split <;> omega

theorem see_len (ptr : Nat) (more : (see kind mem ptr).more = true) :
    countedHeader kind (see kind mem ptr).subh ≤ (see kind mem ptr).len ∧
      ((see kind mem ptr).len = countedHeader kind (see kind mem ptr).subh ↔ ¬ OddLength kind (see kind mem ptr)) := by
  unfold OddLength countedHeader
  unfold see readSubheader at *
  by_cases field : hasLengthField kind (mem.byte ptr % 32) = true
  · simp only [field, if_true] at more ⊢
    by_cases eBit : mem.byte ptr / 32 % 2 = 1
    · have third := mem.byte_lt (ptr + 2)
      simp only [eBit]
      by_cases long : 128 ≤ mem.byte (ptr + 1)
      · simp only [long, if_true, field, true_and]
        have counted := sizeHeaderSdu_cases (mem.byte (ptr + 1) % 128 * 256 + mem.byte (ptr + 2))
        omega
      · simp only [long, if_false, field, if_true, true_and]
        have counted := sizeHeaderSdu_cases (mem.byte (ptr + 1))
        omega
    · simp only [eBit, if_false, Bool.false_eq_true] at more
  · simp [field]

theorem see_len_one (ptr : Nat) : 1 ≤ (see kind mem ptr).len ∧
    ((see kind mem ptr).len = 1 ↔
      ¬ ((see kind mem ptr).more = true ∧ hasLengthField kind (see kind mem ptr).subh.lcid = true)) := by
  unfold see readSubheader
  by_cases field : hasLengthField kind (mem.byte ptr % 32) = true
  · by_cases eBit : mem.byte ptr / 32 % 2 = 1
    · by_cases long : 128 ≤ mem.byte (ptr + 1) <;> simp [field, eBit, long]
    · simp [field, eBit]
  · simp [field]

def place : List ReadSubh → Nat → List ReadSubh
  | [], _ => []
  | s :: rest, ptr => { s with payload := ptr } :: place rest (ptr + s.nofBytes)

theorem readPayloads_place {subhs : List ReadSubh} {ptr : Nat} (inside : ptr ≤ pduLen) :
    readPayloads pduLen subhs ptr =
      if ptr + (subhs.map (·.nofBytes)).sum ≤ pduLen then some (place subhs ptr) else none := by
  induction subhs generalizing ptr with
  | nil => simp [readPayloads, place, inside]
  | cons s rest ih =>
    rw [readPayloads, map_cons, sum_cons]
    by_cases goesOver : pduLen < ptr + s.nofBytes
    · rw [if_pos goesOver, if_neg (by omega)]
    · rw [if_neg goesOver, ih (by omega), Nat.add_assoc]
      split <;> rfl

theorem place_append (front : List ReadSubh) (last : ReadSubh) (ptr : Nat) :
    place (front ++ [last]) ptr = place front ptr ++ [{ last with payload := ptr + (front.map (·.nofBytes)).sum }] := by
  induction front generalizing ptr with
  | nil => rfl
  | cons s rest ih => simp [place, ih, Nat.add_assoc]

theorem place_sizePlusHeader (subhs : List ReadSubh) (ptr : Nat) :
    ((place subhs ptr).map (·.sizePlusHeader kind)).sum =
      (subhs.map (countedHeader kind)).sum + (subhs.map (·.nofBytes)).sum := by
  induction subhs generalizing ptr with
  | nil => rfl
  | cons s rest ih =>
    have same : countedHeader kind { s with payload := ptr } = countedHeader kind s := rfl
    rw [place, map_cons, sum_cons, ih, sizePlusHeader_eq, map_cons, sum_cons, map_cons,
      sum_cons]
    dsimp only
    omega

def Apart (a b : ReadSubh) : Prop :=
  ∀ i, ¬ (a.payload ≤ i ∧ i < a.payload + a.nofBytes ∧ b.payload ≤ i ∧ i < b.payload + b.nofBytes)

theorem place_regions (subhs : List ReadSubh) (ptr : Nat) :
    (∀ s ∈ place subhs ptr, ptr ≤ s.payload ∧ s.payload + s.nofBytes ≤ ptr + (subhs.map (·.nofBytes)).sum) ∧
    (place subhs ptr).Pairwise Apart := by
  induction subhs generalizing ptr with
  | nil => simp [place]
  | cons s rest ih =>
    obtain ⟨bounds, apart⟩ := ih (ptr + s.nofBytes)
    simp only [place, map_cons, sum_cons, forall_mem_cons, pairwise_cons]
    refine ⟨⟨⟨Nat.le_refl _, by omega⟩, ?_⟩, ?_, apart⟩
    · intro other mem_
      have := bounds other mem_
      omega
    · intro other mem_ i both
      obtain ⟨-, before, behind, -⟩ := both
      have := bounds other mem_
      dsimp only at before
      omega

end

section
variable {kind : Kind} {mem : Memory}

theorem counted_headers {front : List Seen} (looked : ∀ s ∈ front, s = see kind mem s.ptr)
    (announce : ∀ s ∈ front, s.more = true) :
    (front.map fun s => countedHeader kind s.subh).sum ≤ (front.map (·.len)).sum ∧
    ((front.map (·.len)).sum ≤ (front.map fun s => countedHeader kind s.subh).sum ↔
      ∀ s ∈ front, ¬ OddLength kind s) := by
  induction front with
  | nil => simp
  | cons s rest ih =>
    obtain ⟨short, exact_⟩ := ih (fun t mem_ => looked t (mem_cons_of_mem _ mem_))
      fun t mem_ => announce t (mem_cons_of_mem _ mem_)
    have seen := looked s mem_cons_self
    have more := announce s mem_cons_self
    rw [seen] at more
    have here := see_len s.ptr more
    rw [← seen] at here
    simp only [map_cons, sum_cons, forall_mem_cons]
    rw [← exact_, ← here.2]
    omega

end

def chainOf (kind : Kind) (maxSubheaders : Nat) (mem : Memory) (pduLen : Nat) : List Seen :=
  chain kind mem pduLen (room maxSubheaders) 0

structure Fits (seen : List Seen) (pduLen : Nat) : Prop where
  ends : ∀ last ∈ seen.getLast?, last.more = true → last.ptr + last.len < pduLen
  size : (seen.map (·.len)).sum + (seen.map (·.subh.nofBytes)).sum ≤ pduLen

/-- Every byte looked at is one of the PDU; the payloads reported are behind the subheaders, inside and apart. -/
structure InBounds (kind : Kind) (maxSubheaders : Nat) (mem : Memory) (pduLen : Nat) : Prop where
  headers : ∀ i ∈ (lookSubheaders kind pduLen (room maxSubheaders) 0).reads mem, i < pduLen
  behind : ∀ subhs ptr, readSubheaders kind mem pduLen (room maxSubheaders) 0 = some (subhs, ptr) →
    ∀ s ∈ parsePacket kind maxSubheaders mem pduLen, ptr ≤ s.payload
  inside : ∀ s ∈ parsePacket kind maxSubheaders mem pduLen, s.payload + s.nofBytes ≤ pduLen
  apart : (parsePacket kind maxSubheaders mem pduLen).Pairwise Apart

section
variable {kind : Kind} {maxSubheaders pduLen : Nat} {mem : Memory}

theorem reads_inside_iff (inside : 0 < pduLen) :
    (∀ i ∈ (lookSubheaders kind pduLen (room maxSubheaders) 0).reads mem, i < pduLen) ↔
      ∀ s ∈ chainOf kind maxSubheaders mem pduLen, ¬ LengthCutOff kind mem pduLen s.ptr := by
  rw [lookSubheaders_reads]
  have seen := (@chain_spec kind mem pduLen (room maxSubheaders) 0 inside).1
  constructor
  · intro reads s mem_ cutOff
    obtain ⟨eq, below⟩ := seen s mem_
    have long := (lengthCutOff_iff below).mp cutOff
    rw [← eq] at long
    have last := reads (s.ptr + (s.len - 1)) (List.mem_flatMap.mpr ⟨s, mem_, mem_range'_1.mpr (by omega)⟩)
    omega
  · intro whole i mem_
    obtain ⟨s, inChain, within⟩ := List.mem_flatMap.mp mem_
    obtain ⟨eq, below⟩ := seen s inChain
    have short := mt (lengthCutOff_iff below).mpr (whole s inChain)
    rw [← eq] at short
    have := mem_range'_1.mp within
    omega

theorem parsePacket_fits (front : List Seen) (last : Seen)
    (seen : chainOf kind maxSubheaders mem pduLen = front ++ [last]) (fits : Fits (front ++ [last]) pduLen)
    (inside : 0 < pduLen) :
    let sizes := (front.map (·.subh.nofBytes)).sum
    let headers := (front.map (·.len)).sum + last.len
    let counted := (front.map fun s => countedHeader kind s.subh).sum
    readSubheaders kind mem pduLen (room maxSubheaders) 0 =
      some ((front ++ [last]).map (·.subh), headers) ∧
    counted ≤ (front.map (·.len)).sum ∧
    parsePacket kind maxSubheaders mem pduLen = place (front.map (·.subh)) headers ++
      [⟨last.subh.lcid, pduLen - (counted + sizes) - 1, headers + sizes⟩] := by
  intro sizes headers counted
  obtain ⟨looked, announce, end_⟩ := @chain_spec kind mem pduLen (room maxSubheaders) 0 inside
  change chain kind mem pduLen (room maxSubheaders) 0 = _ at seen
  rw [seen] at looked announce end_
  rw [dropLast_concat] at announce
  have atEnd : last.ptr + last.len = headers := by
    rw [end_ last (by simp), Nat.zero_add, map_append, sum_append]
    rfl
  have read : readSubheaders kind mem pduLen (room maxSubheaders) 0 =
      some ((front ++ [last]).map (·.subh), headers) := by
    rw [readSubheaders_chain, seen, getLast?_concat]
    dsimp only
    rw [if_neg, atEnd]
    simp only [Bool.and_eq_true, decide_eq_true_eq, not_and, Nat.not_le]
    exact fits.ends last (by simp)
  have short : counted ≤ (front.map (·.len)).sum :=
    (counted_headers (fun s mem_ => (looked s (mem_append_left _ mem_)).1) announce).1
  have size := fits.size
  have lastLen : 1 ≤ last.len := by
    rw [(looked last (by simp)).1]
    exact (see_len_one last.ptr).1
  simp only [map_append, sum_append, map_singleton, sum_singleton] at size
  refine ⟨read, short, ?_⟩
  have within : headers + (((front ++ [last]).map (·.subh)).map (·.nofBytes)).sum ≤ pduLen := by
    simp only [map_append, sum_append, map_map]
    exact size
  have payloads : readPayloads pduLen ((front ++ [last]).map (·.subh)) headers =
      some (place (front.map (·.subh)) headers ++ [{ last.subh with payload := headers + sizes }]) := by
    rw [readPayloads_place (by omega), if_pos within, map_append, map_singleton, place_append, map_map]
    rfl
  have total : ((place (front.map (·.subh)) headers).map (·.sizePlusHeader kind)).sum = counted + sizes := by
    rw [place_sizePlusHeader, map_map, map_map]
    rfl
  unfold parsePacket
  rw [← room, read]
  dsimp only
  rw [payloads]
  dsimp only
  rw [getLast?_concat]
  dsimp only
  rw [dropLast_concat, total, if_pos (by omega)]

theorem parsePacket_not_fits (misfit : ¬ Fits (chainOf kind maxSubheaders mem pduLen) pduLen) (inside : 0 < pduLen) :
    parsePacket kind maxSubheaders mem pduLen = [] := by
  obtain ⟨looked, -, end_⟩ := @chain_spec kind mem pduLen (room maxSubheaders) 0 inside
  have read := @readSubheaders_chain kind mem pduLen (room maxSubheaders) 0
  unfold parsePacket
  rw [← room]
  change ¬ Fits (chain kind mem pduLen (room maxSubheaders) 0) pduLen at misfit
  generalize chain kind mem pduLen (room maxSubheaders) 0 = seen at *
  rw [read]
  cases last : seen.getLast? with
  | none =>
    rfl
  | some final =>
    have atEnd := end_ final last
    obtain ⟨eq, below⟩ := looked final (mem_of_getLast? last)
    dsimp only
    by_cases announces : final.more = true
    · by_cases cutOff : pduLen ≤ final.ptr + final.len
      · rw [if_pos (by simp [announces, cutOff])]
      · rw [if_neg (by simp [cutOff])]
        dsimp only
        rw [readPayloads_place (by omega), if_neg]
        intro whole
        rw [map_map, atEnd, Nat.zero_add] at whole
        exact misfit ⟨fun _ there _ => by rw [last] at there; obtain rfl := Option.some.inj there; omega, whole⟩
    · have one : final.len = 1 := by
        rw [eq] at announces ⊢
        exact (see_len_one final.ptr).2.mpr fun both => announces both.1
      rw [if_neg (by simp [announces])]
      dsimp only
      rw [readPayloads_place (by omega), if_neg]
      intro whole
      rw [map_map, atEnd, Nat.zero_add] at whole
      refine misfit ⟨fun _ there more => ?_, whole⟩
      rw [last] at there
      obtain rfl := Option.some.inj there
      exact absurd more announces

theorem parsePacket_inBounds_iff (inside : 0 < pduLen) :
    InBounds kind maxSubheaders mem pduLen ↔
      (∀ s ∈ chainOf kind maxSubheaders mem pduLen, ¬ LengthCutOff kind mem pduLen s.ptr) ∧
      (Fits (chainOf kind maxSubheaders mem pduLen) pduLen →
        (∀ s ∈ (chainOf kind maxSubheaders mem pduLen).dropLast, ¬ OddLength kind s) ∧
        ∀ last ∈ (chainOf kind maxSubheaders mem pduLen).getLast?,
          ¬ (last.more = true ∧ hasLengthField kind last.subh.lcid = true)) := by
  rw [← reads_inside_iff inside]
  by_cases fits : Fits (chainOf kind maxSubheaders mem pduLen) pduLen
  · rcases eq_nil_or_concat (chainOf kind maxSubheaders mem pduLen) with none_ | ⟨front, last, seen⟩
    · have nothing : parsePacket kind maxSubheaders mem pduLen = [] := by
        have read := @readSubheaders_chain kind mem pduLen (room maxSubheaders) 0
        rw [show chain kind mem pduLen (room maxSubheaders) 0 = [] from none_] at read
        unfold parsePacket
        rw [← room, read]
        rfl
      rw [none_]
      constructor
      · exact fun both => ⟨both.headers, fun _ => by simp⟩
      · intro both
        refine ⟨both.1, ?_, ?_, ?_⟩ <;> simp [nothing]
    · rw [concat_eq_append] at seen
      rw [seen] at fits ⊢
      obtain ⟨read, short, result⟩ := parsePacket_fits front last seen fits inside
      obtain ⟨looked, announce, -⟩ := @chain_spec kind mem pduLen (room maxSubheaders) 0 inside
      change chain kind mem pduLen (room maxSubheaders) 0 = _ at seen
      rw [seen] at looked announce
      rw [dropLast_concat] at announce ⊢
      have odd := (counted_headers (fun s mem_ => (looked s (mem_append_left _ mem_)).1) announce).2
      have one := @see_len_one kind mem last.ptr
      rw [← (looked last (by simp)).1] at one
      have size := fits.size
      simp only [map_append, sum_append, map_singleton, sum_singleton] at size
      obtain ⟨bounds, apart⟩ := place_regions (front.map (·.subh)) ((front.map (·.len)).sum + last.len)
      have sizes : (map (·.nofBytes) (front.map (·.subh))).sum = (front.map (·.subh.nofBytes)).sum := by
        rw [map_map]
        rfl
      rw [sizes] at bounds
      simp only [getLast?_concat, Option.mem_def, Option.some.injEq, forall_eq', ← odd, ← one.2]
      constructor
      · intro both
        have end_ := both.inside _ (by rw [result]; exact mem_append_right _ (mem_singleton_self _))
        dsimp only at end_
        exact ⟨both.headers, fun _ => by omega⟩
      · rintro ⟨headers, canonical⟩
        obtain ⟨exact_, oneByte⟩ := canonical fits
        refine ⟨headers, ?_, ?_, ?_⟩
        · intro subhs ptr there s mem_
          rw [read] at there
          obtain ⟨rfl, rfl⟩ := Prod.mk.inj (Option.some.inj there)
          rw [result] at mem_
          rcases List.mem_append.mp mem_ with early | final
          · exact (bounds s early).1
          · obtain rfl := List.mem_singleton.mp final
            exact Nat.le_add_right _ _
        · intro s mem_
          rw [result] at mem_
          rcases List.mem_append.mp mem_ with early | final
          · exact (bounds s early).2.trans (by omega)
          · obtain rfl := List.mem_singleton.mp final
            dsimp only
            omega
        · rw [result, pairwise_append]
          refine ⟨apart, pairwise_singleton _ _, ?_⟩
          intro s early t final i both
          obtain rfl := List.mem_singleton.mp final
          obtain ⟨-, before, behind, -⟩ := both
          have := (bounds s early).2
          dsimp only at behind
          omega
  · have none_ := parsePacket_not_fits fits inside
    constructor
    · exact fun both => ⟨both.headers, fun fits_ => absurd fits_ fits⟩
    · intro both
      refine ⟨both.1, ?_, ?_, ?_⟩ <;> simp [none_]

end

theorem parsePacket_inBounds_iff_twoSdus :
    InBounds .dlSch 20 (ofList [0x21, 0x02, 0x02, 0xaa, 0xab, 0xac]) 6 := by
  have seen : chainOf .dlSch 20 (ofList [0x21, 0x02, 0x02, 0xaa, 0xab, 0xac]) 6 =
      [⟨0, true, ⟨1, 2, 0⟩, 2⟩, ⟨2, false, ⟨2, 0, 0⟩, 1⟩] := by decide
  apply (parsePacket_inBounds_iff (by decide)).mpr
  rw [seen]
  refine ⟨by decide, fun _ => ⟨by decide, ?_⟩⟩
  rintro last ⟨⟩
  decide

theorem zeroLengthSdu_goes_over :
    parsePacket .dlSch 20 (ofList [0x21, 0x00, 0x02, 0xaa]) 4 = [⟨1, 0, 3⟩, ⟨2, 3, 3⟩] ∧
    ¬ InBounds .dlSch 20 (ofList [0x21, 0x00, 0x02, 0xaa]) 4 := by
  have parsed : parsePacket .dlSch 20 (ofList [0x21, 0x00, 0x02, 0xaa]) 4 = [⟨1, 0, 3⟩, ⟨2, 3, 3⟩] := by decide
  refine ⟨parsed, fun bounds => ?_⟩
  have second := bounds.inside ⟨2, 3, 3⟩ (by rw [parsed]; simp)
  exact absurd second (by decide)

end IsrRan.Mac.Lte.Pdu
