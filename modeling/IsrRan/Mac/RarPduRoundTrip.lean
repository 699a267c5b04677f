import IsrRan.Mac.RarPdu
import Mathlib

namespace IsrRan.Mac.Lte.Rar
open List Option UInt8 Memory

/-! The bytes of a PDU, without the zeros behind them. -/

def Response.subheader (r : Response) : RarSubh := ⟨r.grant, r.ta, r.tempCrnti, r.rapid, .rapid⟩

def Response.payload (r : Response) : List Byte := r.subheader.writePayload

def rapidHeaders : List Response → List Byte
  | [] => []
  | r :: rest => r.subheader.writeSubheader rest.isEmpty :: rapidHeaders rest

def allHeaders (backoff : Option Nat) (responses : List Response) : List Byte :=
  (match backoff with
    | none => []
    | some bi => [UInt8.ofNat ((if responses = [] then 0 else 128) + bi % 16)]) ++ rapidHeaders responses

def encode (backoff : Option Nat) (responses : List Response) : List Byte :=
  allHeaders backoff responses ++ responses.flatMap (·.payload)

section
variable {responses : List Response} {backoff : Option Nat} {r : Response}

theorem rapidHeaders_length : (rapidHeaders responses).length = responses.length := by
  induction responses with
  | nil => rfl
  | cons r rest ih => rw [rapidHeaders, length_cons, ih, length_cons]

theorem rapidHeaders_getElem? (k : Nat) :
    (rapidHeaders responses)[k]? =
      responses[k]?.map fun r => r.subheader.writeSubheader (k + 1 == responses.length) := by
  induction responses generalizing k with
  | nil => rfl
  | cons r rest ih =>
    cases k with
    | zero => cases rest <;> simp [rapidHeaders]
    | succ k => simp [rapidHeaders, ih]

def Chain : List Byte → Prop
  | [] => False
  | [h] => h.toNat / 128 % 2 = 0
  | h :: rest => h.toNat / 128 % 2 = 1 ∧ Chain rest

theorem writeSubheader_toNat (s : RarSubh) (isLast : Bool) :
    (s.writeSubheader isLast).toNat = (if isLast then 0 else 128) + 64 + s.preamble % 64 := by
  apply toNat_ofNat_byte
  split <;> omega

theorem rapidHeaders_chain (some_ : responses ≠ []) : Chain (rapidHeaders responses) := by
  induction responses with
  | nil => exact some_ rfl
  | cons r rest ih =>
    cases rest with
    | nil =>
      show _ = 0
      rw [writeSubheader_toNat]
      simp only [isEmpty_nil, if_true]
      omega
    | cons next rest =>
      refine ⟨?_, ih (cons_ne_nil _ _)⟩
      rw [writeSubheader_toNat]
      simp only [isEmpty_cons, Bool.false_eq_true, if_false]
      omega

theorem allHeaders_chain (some_ : allHeaders backoff responses ≠ []) : Chain (allHeaders backoff responses) := by
  cases backoff with
  | none =>
    apply rapidHeaders_chain
    rintro rfl
    exact some_ rfl
  | some bi =>
    cases responses with
    | nil =>
      show _ = 0
      rw [toNat_ofNat_byte (by simp; omega)]
      simp only [if_true]
      omega
    | cons r rest =>
      refine ⟨?_, rapidHeaders_chain (cons_ne_nil _ _)⟩
      rw [toNat_ofNat_byte (by simp; omega)]
      simp only [cons_ne_nil, if_false]
      omega

theorem headers_chain {chain : List Byte} (chained : Chain chain) (front rest : List Byte) (pduLen : Nat)
    (inside : front.length + chain.length ≤ pduLen) (room : Nat) :
    headers (ofList (front ++ (chain ++ rest))) pduLen room front.length =
      (true, (chain.take room).map (·.toNat)) := by
  induction chain generalizing front room with
  | nil => exact chained.elim
  | cons h tail ih =>
    cases room with
    | zero => rfl
    | succ room =>
      have here : (ofList (front ++ (h :: tail ++ rest))).byte front.length = h.toNat := by
        have := ofList_behind front (h :: tail ++ rest) 0
        rw [Nat.add_zero] at this
        rw [Memory.byte, this]
        rfl
      unfold headers
      rw [here]
      cases tail with
      | nil =>
        have last : h.toNat / 128 % 2 = 0 := chained
        simp [last]
      | cons next tail =>
        obtain ⟨more, chained⟩ : _ ∧ _ := chained
        have := ih chained (front ++ [h]) (by simp at inside ⊢; omega) room
        simp only [length_append, length_singleton, append_assoc, cons_append, nil_append]
          at this
        simp only [length_cons] at inside
        simp only [more, beq_self_eq_true, Bool.true_and, decide_eq_true_eq, cons_append, this]
        rw [if_neg (by omega)]
        cases room with
        | zero => simp
        | succ room => simp

theorem responseAt_payload (valid : r.Valid) (front rest : List Byte) (isLast : Bool) :
    responseAt (ofList (front ++ (r.payload ++ rest))) front.length (r.subheader.writeSubheader isLast).toNat =
      r := by
  obtain ⟨rapid, ta, tempCrnti, grant⟩ := valid
  have byteAt : ∀ i, (ofList (front ++ (r.payload ++ rest))).byte (front.length + i) =
      ((r.payload ++ rest).getD i 0).toNat := by
    intro i
    rw [Memory.byte, ofList_behind]
  have first := byteAt 0
  rw [Nat.add_zero] at first
  unfold responseAt
  rw [first, byteAt 1, byteAt 2, byteAt 3, byteAt 4, byteAt 5, writeSubheader_toNat]
  have bits : ∀ (part : List Bool) (n : Nat), part.length = n → Lib.ofBits part < 2 ^ n := by
    rintro part n rfl
    exact Lib.ofBits_lt part
  have low := bits (r.grant.take 4) 4 (by simp [grant])
  have middle := bits ((r.grant.drop 4).take 8) 8 (by simp [grant])
  have high := bits ((r.grant.drop 12).take 8) 8 (by simp [grant])
  have grant0 : Lib.bitsOf 4 (r.ta % 16 * 16 + Lib.ofBits (r.grant.take 4)) = r.grant.take 4 := by
    have low4 : (r.ta % 16 * 16 + Lib.ofBits (r.grant.take 4)) % 2 ^ 4 = Lib.ofBits (r.grant.take 4) := by omega
    rw [← Lib.bitsOf_mod, low4]
    exact Lib.bitsOf_ofBits (by simp [grant])
  have grant1 : Lib.bitsOf 8 (Lib.ofBits ((r.grant.drop 4).take 8)) = (r.grant.drop 4).take 8 :=
    Lib.bitsOf_ofBits (by simp [grant])
  have grant2 : Lib.bitsOf 8 (Lib.ofBits ((r.grant.drop 12).take 8)) = (r.grant.drop 12).take 8 :=
    Lib.bitsOf_ofBits (by simp [grant])
  have whole : r.grant.take 4 ++ (r.grant.drop 4).take 8 ++ (r.grant.drop 12).take 8 = r.grant := by
    have last : (r.grant.drop 12).take 8 = r.grant.drop 12 := take_of_length_le (by simp [grant])
    rw [last, append_assoc, show r.grant.drop 12 = (r.grant.drop 4).drop 8 by rw [drop_drop],
      take_append_drop, take_append_drop]
  simp only [Response.payload, RarSubh.writePayload, Response.subheader, cons_append, getD_cons_succ,
    getD_cons_zero]
  rw [toNat_ofNat_byte (by omega), toNat_ofNat_byte (by omega), toNat_ofNat_byte (by omega),
    toNat_ofNat_byte (by omega), toNat_ofNat_byte (by omega), toNat_ofNat_byte (by omega), grant0, grant1, grant2, whole]
  have preamble : ((if isLast = true then 0 else 128) + 64 + r.rapid % 64) % 64 = r.rapid := by
    split <;> omega
  have taBack : r.ta / 16 % 128 % 128 * 16 + (r.ta % 16 * 16 + Lib.ofBits (r.grant.take 4)) / 16 = r.ta := by omega
  have rntiBack : r.tempCrnti / 256 % 256 * 256 + r.tempCrnti % 256 = r.tempCrnti := by omega
  rw [preamble, taBack, rntiBack]

theorem payload_length : r.payload.length = 6 := rfl

theorem responses_payloads (valid : ∀ r ∈ responses, r.Valid) (front rest : List Byte) (pduLen : Nat)
    (inside : front.length + (responses.flatMap (·.payload)).length ≤ pduLen) :
    Rar.responses (ofList (front ++ (responses.flatMap (·.payload) ++ rest))) pduLen
      ((rapidHeaders responses).map (·.toNat)) front.length = some responses := by
  induction responses generalizing front with
  | nil => rfl
  | cons r tail ih =>
    have behind := ih (fun other mem => valid other (mem_cons_of_mem _ mem)) (front ++ r.payload)
      (by simp only [flatMap_cons, length_append] at inside ⊢; omega)
    have here := responseAt_payload (valid r mem_cons_self) front (tail.flatMap (·.payload) ++ rest) tail.isEmpty
    have rapid : isRapid (r.subheader.writeSubheader tail.isEmpty).toNat = true := by
      rw [writeSubheader_toNat, isRapid, beq_iff_eq]
      split <;> omega
    simp only [flatMap_cons, length_append, payload_length] at inside
    simp only [append_assoc, length_append, payload_length] at behind
    simp only [rapidHeaders, map_cons, Rar.responses, payloadEnd, rapid, if_true, flatMap_cons,
      append_assoc, behind, here]
    rw [if_neg (by omega)]
    rfl

end

/-! What is written. -/

namespace RarPdu
variable {p p' : RarPdu}

theorem foldlM_addResponse {added : List Response} (fits : added.foldlM addResponse p = some p') :
    p'.nofSubheaders = p.nofSubheaders + added.length ∧ p'.remLen = p.remLen ∧
    p'.content.backoff = p.content.backoff ∧
    (added ≠ [] → p'.nofSubheaders < p.maxSubheaders) ∧
    (∀ i, i < p.nofSubheaders → p'.subheaders i = p.subheaders i) ∧
    ∀ k r, added[k]? = some r → ∃ type, p'.subheaders (p.nofSubheaders + k) = { r.subheader with type } := by
  induction added generalizing p with
  | nil =>
    obtain rfl := Option.some.inj fits
    exact ⟨rfl, rfl, rfl, fun none_ => absurd rfl none_, fun _ _ => rfl, fun _ _ none_ => nomatch none_⟩
  | cons r rest ih =>
    obtain ⟨q, first, fits⟩ := Option.bind_eq_some_iff.mp fits
    obtain ⟨q', new, rfl⟩ := Option.map_eq_some_iff.mp first
    unfold newSubh at new
    split at new
    · rename_i room
      obtain rfl := Option.some.inj new
      obtain ⟨count, rem, backoff, below, kept, filled⟩ := ih fits
      simp only [setSubheader, Nat.add_sub_cancel] at count rem kept filled below
      refine ⟨by rw [length_cons]; omega, rem, backoff, ?_, ?_, ?_⟩
      · intro _
        by_cases more : rest = []
        · rw [count, more]
          exact room.1
        · exact below more
      · intro i under
        rw [kept i (by omega), if_neg (by omega)]
      · intro k r' found
        cases k with
        | zero =>
          obtain rfl := Option.some.inj found
          refine ⟨(p.subheaders p.nofSubheaders).type, ?_⟩
          rw [Nat.add_zero, kept _ (Nat.lt_succ_self _), if_pos rfl]
          rfl
        | succ k =>
          rw [show p.nofSubheaders + (k + 1) = p.nofSubheaders + 1 + k by omega]
          exact filled k r' found
    · contradiction

end RarPdu

section
variable {responses : List Response} {backoff : Option Nat} {maxSubheaders headroom pduLen : Nat} {bytes : List Byte}

theorem startTx_spec (backoff : Option Nat) :
    (RarPdu.startTx maxSubheaders headroom pduLen backoff).nofSubheaders = 0 ∧
    (RarPdu.startTx maxSubheaders headroom pduLen backoff).content.backoff = backoff := by
  cases backoff <;> exact ⟨rfl, rfl⟩

theorem assemble_eq_encode (written : RarPdu.assemble maxSubheaders headroom pduLen backoff responses = some bytes) :
    ∃ zeros, bytes = encode backoff responses ++ replicate zeros 0 := by
  obtain ⟨p, added, written⟩ := Option.bind_eq_some_iff.mp written
  obtain ⟨empty, backoff₀⟩ := @startTx_spec maxSubheaders headroom pduLen backoff
  obtain ⟨count, -, indicator, -, -, filled⟩ := RarPdu.foldlM_addResponse added
  rw [empty, Nat.zero_add] at count
  rw [empty] at filled
  rw [backoff₀] at indicator
  have first : (if p.hasBackoffIndicator then
      [UInt8.ofNat ((if 0 < p.nofSubheaders then 128 else 0) + p.backoffIndicator % 16)] else []) ++
      (range p.nofSubheaders).map (fun i => (p.subheaders i).writeSubheader (i + 1 == p.nofSubheaders)) =
      allHeaders backoff responses := by
    have rapids : (range p.nofSubheaders).map
        (fun i => (p.subheaders i).writeSubheader (i + 1 == p.nofSubheaders)) = rapidHeaders responses := by
      apply ext_getElem?
      intro k
      rw [rapidHeaders_getElem?, List.getElem?_map, count]
      cases there : responses[k]? with
      | none => simpa using there
      | some r =>
        obtain ⟨type, entry⟩ := filled k r there
        rw [Nat.zero_add] at entry
        rw [List.getElem?_range (List.getElem?_eq_some_iff.mp there).1]
        simp [entry, RarSubh.writeSubheader]
    have empty_ : responses = [] ↔ ¬ 0 < p.nofSubheaders := by
      rw [← length_eq_zero_iff]
      omega
    rw [rapids]
    unfold allHeaders
    cases has : p.hasBackoffIndicator with
    | false =>
      obtain rfl : none = backoff := by simpa [RarPdu.content, has] using indicator
      rfl
    | true =>
      obtain rfl : some p.backoffIndicator = backoff := by simpa [RarPdu.content, has] using indicator
      by_cases none_ : 0 < p.nofSubheaders <;> simp [empty_, none_]
  have second : (range p.nofSubheaders).flatMap (fun i => (p.subheaders i).writePayload) =
      responses.flatMap (·.payload) := by
    rw [flatMap_def]
    congr 1
    apply ext_getElem?
    intro k
    rw [List.getElem?_map, List.getElem?_map, count]
    cases there : responses[k]? with
    | none => simpa using there
    | some r =>
      obtain ⟨type, entry⟩ := filled k r there
      rw [Nat.zero_add] at entry
      rw [List.getElem?_range (List.getElem?_eq_some_iff.mp there).1]
      simp [entry, Response.payload, RarSubh.writePayload]
  unfold RarPdu.writePacket at written
  dsimp only at written
  rw [first, second] at written
  split at written
  · contradiction
  · exact ⟨_, (Option.some.inj written).symm⟩

/-- A new object of the receiver gets back what was sent, whatever stands in memory behind the PDU. -/
def RoundTrips (maxSubheaders : Nat) (bytes : List Byte) (backoff : Option Nat) (responses : List Response) : Prop :=
  ∀ rest, (RarPdu.receiver maxSubheaders []).readContent (ofList (bytes ++ rest), bytes.length) =
    (true, ⟨backoff, responses⟩)

theorem allHeaders_length :
    (allHeaders backoff responses).length = backoff.toList.length + responses.length := by
  unfold allHeaders
  cases backoff <;> simp [rapidHeaders_length, Nat.add_comm]

theorem headersOf_encode (some_ : allHeaders backoff responses ≠ []) (rest : List Byte) {pduLen : Nat}
    (inside : (encode backoff responses).length ≤ pduLen) :
    headersOf maxSubheaders (ofList (encode backoff responses ++ rest), pduLen) =
      (true, ((allHeaders backoff responses).take (RarPdu.room maxSubheaders)).map (·.toNat)) := by
  rw [encode, length_append] at inside
  have read := headers_chain (allHeaders_chain some_) [] (responses.flatMap (·.payload) ++ rest)
    pduLen (by rw [length_nil]; omega) (RarPdu.room maxSubheaders)
  rw [encode, append_assoc]
  exact read

theorem isRapid_of_mem {h : Byte} (mem : h ∈ rapidHeaders responses) : isRapid h.toNat = true := by
  induction responses with
  | nil => cases mem
  | cons r rest ih =>
    rcases List.mem_cons.mp mem with rfl | later
    · rw [writeSubheader_toNat, isRapid, beq_iff_eq]
      split <;> omega
    · exact ih later

theorem backoff_byte (bi more : Nat) (flag : more = 0 ∨ more = 128) :
    isRapid (UInt8.ofNat (more + bi % 16)).toNat = false ∧ (UInt8.ofNat (more + bi % 16)).toNat % 16 = bi % 16 := by
  rw [toNat_ofNat_byte (by omega), isRapid, beq_eq_false_iff_ne]
  omega

theorem responses_length {mem : Memory} {read : List Nat} {ptr : Nat} {found : List Response}
    (whole : Rar.responses mem pduLen read ptr = some found) : found.length = read.countP isRapid := by
  induction read generalizing ptr found with
  | nil =>
    obtain rfl := Option.some.inj whole
    rfl
  | cons header rest ih =>
    unfold Rar.responses at whole
    split at whole
    · contradiction
    · obtain ⟨tail, behind, rfl⟩ := Option.map_eq_some_iff.mp whole
      rw [length_append, ih behind, countP_cons]
      cases isRapid header <;> simp [Nat.add_comm]

theorem roundTrips_of_room (valid : ∀ r ∈ responses, r.Valid) (indicator : ∀ bi ∈ backoff, bi < 16)
    (some_ : allHeaders backoff responses ≠ [])
    (enough : (allHeaders backoff responses).length ≤ RarPdu.room maxSubheaders) (zeros : Nat) :
    RoundTrips maxSubheaders (encode backoff responses ++ replicate zeros 0) backoff responses := by
  intro rest
  have read := @headersOf_encode responses backoff maxSubheaders some_ (replicate zeros 0 ++ rest)
    (encode backoff responses ++ replicate zeros 0).length (by simp)
  rw [take_of_length_le enough, ← append_assoc] at read
  rw [(RarPdu.receive_eq _).2]
  show ((responsesOf maxSubheaders _).isSome,
    Content.mk (backoffAfter none (headersOf maxSubheaders _).2) ((responsesOf maxSubheaders _).getD [])) = _
  have payloads := responses_payloads valid (allHeaders backoff responses) (replicate zeros 0 ++ rest)
    (encode backoff responses ++ replicate zeros 0).length (by simp [encode])
  rw [responsesOf, read]
  have memory : encode backoff responses ++ replicate zeros 0 ++ rest =
      allHeaders backoff responses ++ (responses.flatMap (·.payload) ++ (replicate zeros 0 ++ rest)) := by
    simp only [encode, append_assoc]
  have long : (allHeaders backoff responses).length ≤ (encode backoff responses ++ replicate zeros 0).length := by
    simp [encode]
  dsimp only
  rw [memory, length_map]
  generalize ofList _ = mem at payloads ⊢
  generalize (encode backoff responses ++ replicate zeros 0).length = pduLen at payloads long ⊢
  have rapid : ∀ header ∈ (rapidHeaders responses).map (·.toNat), isRapid header = true := by
    intro header mem
    obtain ⟨h, inside, rfl⟩ := List.mem_map.mp mem
    exact isRapid_of_mem inside
  generalize (allHeaders backoff responses).length = ptr at payloads long ⊢
  unfold allHeaders
  cases backoff with
  | none =>
    rw [nil_append, payloads, backoffAfter_none rapid]
    rfl
  | some bi =>
    obtain ⟨notRapid, value⟩ := backoff_byte bi (if responses = [] then 0 else 128)
      (by split <;> simp)
    have both : Rar.responses mem pduLen ((UInt8.ofNat ((if responses = [] then 0 else 128) + bi % 16)).toNat ::
        (rapidHeaders responses).map (·.toNat)) ptr = some responses := by
      rw [Rar.responses, payloadEnd, notRapid]
      simp only [Bool.false_eq_true, if_false, payloads]
      rw [if_neg (Nat.not_lt.mpr long)]
      rfl
    rw [cons_append, nil_append, map_cons, both]
    unfold backoffAfter
    rw [foldl_cons, notRapid, value, Nat.mod_eq_of_lt (indicator bi rfl)]
    exact congrArg (fun backoff => (true, Content.mk backoff responses)) (backoffAfter_none rapid)

theorem not_roundTrips_of_no_room (some_ : allHeaders backoff responses ≠ [])
    (few : RarPdu.room maxSubheaders < (allHeaders backoff responses).length) (zeros : Nat) :
    ¬ RoundTrips maxSubheaders (encode backoff responses ++ replicate zeros 0) backoff responses := by
  intro back
  have same := back []
  have read := @headersOf_encode responses backoff maxSubheaders some_ (replicate zeros 0 ++ [])
    (encode backoff responses ++ replicate zeros 0).length (by simp)
  rw [← append_assoc] at read
  rw [(RarPdu.receive_eq _).2] at same
  have accepted : (responsesOf maxSubheaders (ofList (encode backoff responses ++ replicate zeros 0 ++ []),
      (encode backoff responses ++ replicate zeros 0).length)).isSome = true := congrArg Prod.fst same
  have indicator : backoffAfter none (headersOf maxSubheaders
      (ofList (encode backoff responses ++ replicate zeros 0 ++ []),
      (encode backoff responses ++ replicate zeros 0).length)).2 = backoff :=
    congrArg (fun outcome => outcome.2.backoff) same
  have found : (responsesOf maxSubheaders (ofList (encode backoff responses ++ replicate zeros 0 ++ []),
      (encode backoff responses ++ replicate zeros 0).length)).getD [] = responses :=
    congrArg (fun outcome => outcome.2.responses) same
  obtain ⟨all, whole⟩ := Option.isSome_iff_exists.mp accepted
  rw [whole, getD_some] at found
  obtain rfl := found
  rw [read] at indicator
  rw [responsesOf, read] at whole
  have counted := responses_length whole
  rw [allHeaders_length] at few
  rw [countP_map] at counted
  cases all with
  | nil =>
    -- without responses there is a backoff indicator, and no room at all
    cases backoff with
    | none => exact some_ rfl
    | some bi =>
      simp only [toList_some, length_singleton, length_nil] at few
      rw [show RarPdu.room maxSubheaders = 0 by omega] at indicator
      exact nomatch indicator
  | cons r rest =>
    unfold allHeaders at counted
    rw [take_append, countP_append] at counted
    have behind := countP_le_length (p := isRapid ∘ fun h : Byte => h.toNat)
      (l := (rapidHeaders (r :: rest)).take (RarPdu.room maxSubheaders - backoff.toList.length))
    rw [length_take] at behind
    cases backoff with
    | none =>
      simp only [toList_none, length_nil, take_nil, countP_nil] at few counted behind
      omega
    | some bi =>
      have notRapid := (backoff_byte bi (if (r :: rest) = [] then 0 else 128) (by split <;> simp)).1
      have front : countP (isRapid ∘ fun h : Byte => h.toNat) (take (RarPdu.room maxSubheaders)
          [UInt8.ofNat ((if (r :: rest) = [] then 0 else 128) + bi % 16)]) = 0 := by
        apply List.countP_eq_zero.mpr
        intro h mem
        rw [List.mem_singleton.mp (mem_of_mem_take mem), Function.comp_apply, notRapid]
        exact Bool.false_ne_true
      simp only [toList_some, length_cons]
        at few counted behind
      omega

theorem roundTrips_empty_iff (zeros : Nat) :
    RoundTrips maxSubheaders (replicate zeros 0) none [] ↔ maxSubheaders = 0 := by
  constructor
  · intro back
    by_contra notNone
    obtain ⟨room, there⟩ := Nat.exists_eq_succ_of_ne_zero (show RarPdu.room maxSubheaders ≠ 0 by
      unfold RarPdu.room
      omega)
    have indicator := congrArg (fun outcome => outcome.2.backoff) (back [])
    rw [(RarPdu.receive_eq _).2] at indicator
    have zero : (ofList (replicate zeros 0 ++ [])).byte 0 = 0 := by
      cases zeros <;> rfl
    have read : (headersOf maxSubheaders
        (ofList (replicate zeros 0 ++ []), (replicate zeros (0 : Byte)).length)).2 = [0] := by
      rw [headersOf, there, headers]
      simp only [zero]
      rfl
    have set : backoffAfter none (headersOf maxSubheaders
        (ofList (replicate zeros 0 ++ []), (replicate zeros (0 : Byte)).length)).2 = none := indicator
    rw [read] at set
    exact nomatch set
  · rintro rfl rest
    rfl

theorem roundTrips_iff (valid : ∀ r ∈ responses, r.Valid) (indicator : ∀ bi ∈ backoff, bi < 16)
    {maxTx : Nat} (written : RarPdu.assemble maxTx headroom pduLen backoff responses = some bytes) :
    RoundTrips maxSubheaders bytes backoff responses ↔
      min 1 maxSubheaders ≤ backoff.toList.length + responses.length ∧
        backoff.toList.length + responses.length ≤ RarPdu.room maxSubheaders := by
  obtain ⟨zeros, rfl⟩ := assemble_eq_encode written
  by_cases none_ : allHeaders backoff responses = []
  · have count := congrArg length none_
    rw [allHeaders_length, length_nil] at count
    obtain rfl : responses = [] := eq_nil_of_length_eq_zero (by omega)
    obtain rfl : backoff = none := by
      cases backoff with
      | none => rfl
      | some bi => exact nomatch none_
    rw [encode, none_, flatMap_nil, nil_append, nil_append, roundTrips_empty_iff]
    omega
  · have some_ : 0 < backoff.toList.length + responses.length := by
      rw [← allHeaders_length]
      exact length_pos_of_ne_nil none_
    rw [← allHeaders_length] at some_ ⊢
    by_cases enough : (allHeaders backoff responses).length ≤ RarPdu.room maxSubheaders
    · exact iff_of_true (roundTrips_of_room valid indicator none_ enough zeros) ⟨by omega, enough⟩
    · exact iff_of_false (not_roundTrips_of_no_room none_ (by omega) zeros) fun both => enough both.2

end

theorem rarPdu_roundTrip_and_history {maxTx headroom pduLen : Nat} {backoff : Option Nat} {responses : List Response}
    {bytes : List Byte} (valid : ∀ r ∈ responses, r.Valid) (indicator : ∀ bi ∈ backoff, bi < 16)
    (written : RarPdu.assemble maxTx headroom pduLen backoff responses = some bytes) (maxSubheaders : Nat)
    (history : List (Memory × Nat)) (pdu : Memory × Nat) :
    (RoundTrips maxSubheaders bytes backoff responses ↔
      min 1 maxSubheaders ≤ backoff.toList.length + responses.length ∧
        backoff.toList.length + responses.length ≤ RarPdu.room maxSubheaders) ∧
    ((RarPdu.receiver maxSubheaders history).readContent pdu = (RarPdu.receiver maxSubheaders []).readContent pdu ↔
      SetsBackoff maxSubheaders pdu ∨ ∀ earlier ∈ history, ¬ SetsBackoff maxSubheaders earlier) :=
  ⟨roundTrips_iff valid indicator written, RarPdu.readContent_receiver_iff history pdu⟩

theorem rarPdu_roundTrip_and_history_vectors :
    RoundTrips 16 [0x82, 0x56, 0x00, 0x00, 0x00, 0x0c, 0x10, 0x01] (some 2)
      [⟨22, 0, 0x1001, replicate 16 false ++ [true, true, false, false]⟩] ∧
    ((RarPdu.receiver 16 [(ofList [0x6a, 0x00, 0x80, 0x00, 0x0c, 0x10, 0x01], 7)]).readContent
        (ofList [0x6b, 0x00, 0x80, 0x00, 0x0c, 0x10, 0x02], 7) =
      (RarPdu.receiver 16 []).readContent (ofList [0x6b, 0x00, 0x80, 0x00, 0x0c, 0x10, 0x02], 7)) := by
  have both := @rarPdu_roundTrip_and_history 16 1020 8 (some 2)
    [⟨22, 0, 0x1001, replicate 16 false ++ [true, true, false, false]⟩]
    [0x82, 0x56, 0x00, 0x00, 0x00, 0x0c, 0x10, 0x01]
    (by
      intro r mem
      obtain rfl := List.mem_singleton.mp mem
      exact ⟨by decide, by decide, by decide, by decide⟩)
    (by simp) (by decide) 16 [(ofList [0x6a, 0x00, 0x80, 0x00, 0x0c, 0x10, 0x01], 7)]
    (ofList [0x6b, 0x00, 0x80, 0x00, 0x0c, 0x10, 0x02], 7)
  refine ⟨both.1.mpr (by decide), both.2.mpr (.inr fun earlier mem => ?_)⟩
  rw [List.mem_singleton.mp mem, SetsBackoff]
  decide

theorem backoff_outlives_its_pdu :
    ((RarPdu.receiver 16 [(ofList [0x82, 0x56, 0x00, 0x00, 0x00, 0x0c, 0x10, 0x01], 8)]).readContent
      (ofList [0x6a, 0x00, 0x80, 0x00, 0x0c, 0x10, 0x01], 7)).2.backoff = some 2 ∧
    ((RarPdu.receiver 16 []).readContent
      (ofList [0x6a, 0x00, 0x80, 0x00, 0x0c, 0x10, 0x01], 7)).2.backoff = none := by
  decide

end IsrRan.Mac.Lte.Rar
