import Mathlib.Data.List.GetD
import IsrRan.Rlc.AmLte.DataPduLoop

namespace IsrRan.Rlc.AmLte.Tx.DataBuild
open List Nat

variable {b b' : DataBuild} {sdu : TxSdu} {fuel : Nat} {h : PduHeader} {space : Nat} {pieces : List (List Byte)}
  {queue : List TxSdu}

structure Ended (h : PduHeader) (space : Nat) (stream : List (List Byte)) (b : DataBuild) (whole : List (List Byte))
    (part rest : List Byte) (later : List (List Byte)) : Prop where
  header : b.header = { h with li := whole.map length }
  pdu : b.pdu = (whole ++ [part]).flatten
  fits : headerLength whole.length + b.pdu.length ≤ space
  short : ∀ piece ∈ whole, piece.length < 2048
  few : whole.length ≤ maxSdusPerPdu
  nonempty : part ≠ []
  stream : stream = whole ++ (part ++ rest) :: later
  unsent : b.tx.unsent = if rest = [] then later else rest :: later
  txSdu : b.tx.txSdu.isSome = !rest.isEmpty

theorem Filled.ended (filled : Filled h space pieces queue b) (headLen : Nat) (some_ : pieces ≠ [])
    (short : ∀ piece ∈ pieces.dropLast, piece.length < 2048) :
    ∃ whole part rest later,
      Ended h space (pieces ++ queue.map TxSdu.msg) { b with headLen } whole part rest later := by
  obtain ⟨front, last, rfl⟩ := eq_nil_or_concat pieces |>.resolve_left some_
  rw [concat_eq_append] at *
  have fits := filled.fits
  have few := filled.few
  have header := filled.header
  rw [length_append, length_singleton, Nat.add_sub_cancel] at fits
  rw [length_append] at few
  rw [dropLast_concat] at header short
  refine ⟨front, last, [], queue.map TxSdu.msg, header, filled.pdu, ?_, short, le_of_succ_le_succ few, ?_, ?_,
    ?_, ?_⟩
  · dsimp only
    rw [filled.pdu]
    omega
  · rintro rfl
    exact filled.nonempty (by simp)
  · simp
  · unfold Tx.unsent
    simp [filled.txSdu, filled.queue]
  · simp [filled.txSdu]

theorem Filled.pullSdus_ended (filled : Filled h space pieces queue b) (whole : h.rf = false)
    (room : space ≤ bufferTailroom) (nonempty : ∀ sdu ∈ queue, sdu.msg ≠ [])
    (short : ∀ piece ∈ pieces.dropLast, piece.length < 2048)
    (started : pieces = [] → queue ≠ [] ∧ b.tx.segmentPool.hasSegments = true ∧ headerLength 0 < space)
    (indicators : Tx.ShortBefore h.sn space b.tx pieces.flatten.length pieces.length (pieces.getLastD []).length queue)
    (enough : queue.length ≤ fuel) :
    ∃ b' whole part rest later, b.pullSdus fuel = .ok (.inr b') ∧
      Ended h space (pieces ++ queue.map TxSdu.msg) b' whole part rest later := by
  induction queue generalizing b pieces fuel with
  | nil =>
    have some_ : pieces ≠ [] := fun empty => (started empty).1 rfl
    obtain ⟨whole, part, rest, later, ended⟩ := filled.ended b.headLen some_ short
    exact ⟨b, whole, part, rest, later, pullSdus_nil filled.queue, ended⟩
  | cons sdu queue ih =>
    obtain ⟨some_, others⟩ := List.forall_mem_cons.mp nonempty
    obtain ⟨fuel, rfl⟩ : ∃ f, fuel = f + 1 := Nat.exists_eq_add_of_le' (Nat.lt_of_lt_of_le (succ_pos _) enough)
    by_cases goes : pieces.length ≤ maxSdusPerPdu ∧ b.tx.segmentPool.hasSegments = true ∧
        pieces.flatten.length + headerLength pieces.length < space
    · obtain ⟨last, indicators⟩ := indicators goes
      have goes_ := (filled.goes_iff whole room).mpr goes
      obtain ⟨few, segments, more⟩ := goes
      have short' : ∀ piece ∈ pieces, piece.length < 2048 := by
        rcases eq_nil_or_concat pieces with rfl | ⟨front, piece, rfl⟩
        · simp
        · rw [concat_eq_append] at *
          rw [dropLast_concat] at short
          rw [getLastD_concat] at last
          simpa [or_imp, forall_and] using ⟨short, last⟩
      by_cases fits : pieces.flatten.length + headerLength pieces.length + sdu.msg.length ≤ space
      · obtain ⟨b', pulled, filled', _, tx⟩ := filled.pull_whole fuel whole room goes_ some_ fits
        have length : (pieces ++ [sdu.msg]).flatten.length = pieces.flatten.length + sdu.msg.length := by simp
        have rest_ := ih filled' others (by rw [dropLast_concat]; exact short') (by simp) (by
          rw [tx, shortBefore_withSdus, length, length_append, getLastD_concat]
          exact indicators) (le_of_succ_le_succ enough)
        rw [append_assoc] at rest_
        rw [pulled]
        exact rest_
      · obtain ⟨len, full⟩ := Nat.exists_eq_add_of_lt more
        obtain ⟨b', pulled, header, pdu, rest_, left⟩ := filled.pull_part fuel whole room goes_
          (len + 1) (succ_pos _) full.symm (by omega)
        have cut : (sdu.msg.take (len + 1)).length = len + 1 := by
          rw [length_take]
          omega
        have behind : sdu.msg.drop (len + 1) ≠ [] := by
          intro empty
          have short_ := List.drop_eq_nil_iff.mp empty
          omega
        refine ⟨b', pieces, sdu.msg.take (len + 1), sdu.msg.drop (len + 1), queue.map TxSdu.msg, pulled, header, ?_, ?_,
          short', few, ?_, ?_, ?_, ?_⟩
        · rw [pdu, flatten_append, flatten_singleton]
        · rw [pdu, length_append]
          omega
        · rw [← length_pos_iff, cut]
          exact succ_pos _
        · rw [take_append_drop, map_cons]
        · rw [if_neg behind]
          unfold Tx.unsent
          rw [rest_, left]
          simp
        · rw [rest_, List.isEmpty_eq_false_iff.mpr behind]
          rfl
    · have some_ : pieces ≠ [] := by
        rintro rfl
        obtain ⟨-, segments, more⟩ := started rfl
        exact goes ⟨Nat.zero_le _, segments, by simpa using more⟩
      obtain ⟨last, bytes⟩ := filled.some_bytes some_
      obtain ⟨headLen, pulled⟩ := @pullSdus_stops b (fuel + 1) last bytes fun _ =>
        mt (filled.goes_iff whole room).mp goes
      obtain ⟨whole, part, rest, later, ended⟩ := filled.ended headLen some_ short
      exact ⟨_, whole, part, rest, later, pulled, ended⟩

theorem headLen_le_pushLi (headLen : b.headLen = packedLength b.header) : b.headLen ≤ b.pushLi.headLen := by
  have longer : b.header.li.length ≤ (if 0 < b.lastLi then b.header.li ++ [u16 b.lastLi] else b.header.li).length := by
    split
    · rw [length_append]
      exact Nat.le_add_right _ _
    · exact Nat.le_refl _
  rw [headLen]
  unfold pushLi packedLength
  dsimp only
  omega

theorem addSdu_keeps (added : b.addSdu sdu = .ok b') :
    b'.header = b.header ∧ b'.headLen = b.headLen ∧ b'.lastLi = b.toMove sdu ∧
      b'.pdu = b.pdu ++ sdu.msg.take (b.toMove sdu) ∧
      b'.tx.txSduQueue = b.tx.txSduQueue := by
  unfold addSdu at added
  dsimp only at added
  split at added
  · contradiction
  · have made := congrArg Tx.txSduQueue
      (@Tx.makeSegment_withSdus b.tx b.tx.txSdu b.tx.txSduQueue b.header.sn sdu.pdcpSn)
    cases added
    refine ⟨rfl, rfl, rfl, rfl, ?_⟩
    split
    · split
      · exact made
      · exact made
    · rfl

def Keeps (b : DataBuild) (li : List Nat) (result : Tx ⊕ DataBuild) : Prop :=
  ∃ b' : DataBuild, result = .inr b' ∧ b'.header = { b.header with li := b'.header.li } ∧ li <+: b'.header.li

theorem pullSdus_keeps {result : Tx ⊕ DataBuild} (nonempty : ∀ sdu ∈ b.tx.sdus, sdu.msg ≠ []) (last : 0 < b.lastLi)
    (bytes : b.pdu ≠ [])
    (headLen : b.headLen = packedLength b.header) (pulled : b.pullSdus fuel = .ok result) :
    b.Keeps b.header.li result ∧ (0 < fuel → b.tx.sdus ≠ [] → b.Goes → b.Keeps b.pushLi.header.li result) := by
  induction fuel generalizing b with
  | zero =>
    cases pulled
    exact ⟨⟨b, rfl, rfl, prefix_rfl⟩, fun some_ => absurd some_ (Nat.lt_irrefl 0)⟩
  | succ fuel ih =>
    by_cases goes : b.tx.sdus ≠ [] ∧ b.Goes
    · obtain ⟨some_, goes⟩ := goes
      cases queue : b.tx.sdus with
      | nil => exact absurd queue some_
      | cons sdu sdus =>
        rw [queue] at nonempty
        obtain ⟨sdu_, others⟩ := List.forall_mem_cons.mp nonempty
        obtain ⟨rest, front, left⟩ := Tx.readSdu_cons queue
        rw [goes.pull some_ front (headLen_le_pushLi headLen)] at pulled
        obtain ⟨b₁, added, pulled⟩ := bind_eq_ok.mp pulled
        obtain ⟨header, headLen₁, moved, pdu, queue₁⟩ := addSdu_keeps added
        have stored := congrArg Tx.txSduQueue (@Tx.storeSduInfo_withSdus b.tx b.tx.txSdu rest sdu.pdcpSn)
        have sdus₁ : b₁.tx.sdus = sdus := (congrArg (filterMap id) (queue₁.trans stored)).trans left
        have last₁ : 0 < b₁.lastLi := by
          have length := List.length_pos_iff.mpr sdu_
          have more := goes.more
          rw [moved]
          unfold toMove
          dsimp only [DataBuild.pushLi] at more ⊢
          omega
        have kept : b.Keeps b.pushLi.header.li result := by
          obtain ⟨b', eq, header', li⟩ := (@ih { b₁ with pduSpace := b₁.pduSpace - b₁.lastLi } (sdus₁.symm ▸ others)
            last₁ (by simp [pdu, DataBuild.pushLi, bytes]) (by dsimp only; rw [headLen₁, header]; rfl) pulled).1
          rw [header] at header' li
          exact ⟨b', eq, header', li⟩
        obtain ⟨b', eq, header', li⟩ := id kept
        refine ⟨⟨b', eq, header', List.IsPrefix.trans ?_ li⟩, fun _ _ _ => kept⟩
        unfold DataBuild.pushLi
        simp only [if_pos last]
        exact prefix_append _ _
    · obtain ⟨headLen, stopped⟩ := @pullSdus_stops b (fuel + 1) last bytes fun some_ now => goes ⟨some_, now⟩
      rw [stopped] at pulled
      cases pulled
      exact ⟨⟨_, rfl, rfl, prefix_rfl⟩, fun _ some_ now => absurd ⟨some_, now⟩ goes⟩

def Overflows (stream : List (List Byte)) (li : List Nat) : Prop :=
  ∃ i < li.length, 2048 ≤ li.getD i 0 ∧ li.getD i 0 ≤ (stream.getD i []).length

theorem Overflows.of_prefix {stream : List (List Byte)} {li li' : List Nat} (overflows : Overflows stream li)
    (front : li <+: li') : Overflows stream li' := by
  obtain ⟨i, inside, long, sdu_⟩ := overflows
  obtain ⟨more, rfl⟩ := front
  refine ⟨i, ?_, ?_⟩
  · rw [length_append]
    exact Nat.lt_of_lt_of_le inside (Nat.le_add_right _ _)
  · rw [getD_append _ _ _ _ inside]
    exact ⟨long, sdu_⟩

theorem Filled.pullSdus_overflows {result : Tx ⊕ DataBuild} (filled : Filled h space pieces queue b)
    (whole : h.rf = false) (room : space ≤ bufferTailroom) (nonempty : ∀ sdu ∈ queue, sdu.msg ≠ [])
    (long : ¬ Tx.ShortBefore h.sn space b.tx pieces.flatten.length pieces.length (pieces.getLastD []).length queue)
    (enough : queue.length ≤ fuel) (pulled : b.pullSdus fuel = .ok result) :
    ∃ b' : DataBuild, result = .inr b' ∧ b'.header = { h with li := b'.header.li } ∧
      Overflows (pieces ++ queue.map TxSdu.msg) b'.header.li := by
  induction queue generalizing b pieces fuel with
  | nil => exact absurd trivial long
  | cons sdu queue ih =>
    obtain ⟨some_, others⟩ := List.forall_mem_cons.mp nonempty
    obtain ⟨fuel, rfl⟩ : ∃ f, fuel = f + 1 := Nat.exists_eq_add_of_le' (Nat.lt_of_lt_of_le (succ_pos _) enough)
    obtain ⟨goes, long⟩ := Classical.not_imp.mp long
    have goes_ := (filled.goes_iff whole room).mpr goes
    by_cases last : (pieces.getLastD []).length < 2048
    · have long := fun short => long ⟨last, short⟩
      by_cases fits : pieces.flatten.length + headerLength pieces.length + sdu.msg.length ≤ space
      · obtain ⟨b', going, filled', _, tx⟩ := filled.pull_whole fuel whole room goes_ some_ fits
        have length : (pieces ++ [sdu.msg]).flatten.length = pieces.flatten.length + sdu.msg.length := by simp
        rw [going] at pulled
        have rest_ := ih filled' others (by
          rw [tx, shortBefore_withSdus, length, length_append, getLastD_concat]
          exact long) (le_of_succ_le_succ enough) pulled
        rwa [append_assoc] at rest_
      · refine absurd (Tx.shortBefore_full ?_) long
        have below := headerLength_lt pieces.length
        omega
    · have started : pieces ≠ [] := by
        rintro rfl
        exact last (by decide)
      obtain ⟨positive, bytes⟩ := filled.some_bytes started
      have headLen : b.headLen = packedLength b.header := by
        rw [filled.headLen, packedLength_eq (by rw [filled.header]; exact whole), filled.header]
        simp
      have others : ∀ sdu ∈ b.tx.sdus, sdu.msg ≠ [] := by rwa [filled.queue]
      obtain ⟨b', eq, header, li⟩ := (pullSdus_keeps others positive bytes headLen pulled).2
        (succ_pos _) (by simp [filled.queue]) goes_
      rw [filled.header] at header
      rw [filled.pushLi whole room] at li
      refine ⟨b', eq, header, Overflows.of_prefix ?_ li⟩
      obtain ⟨front, piece, rfl⟩ := eq_nil_or_concat pieces |>.resolve_left started
      refine ⟨front.length, by simp, ?_⟩
      simpa using Nat.not_lt.mp last

end IsrRan.Rlc.AmLte.Tx.DataBuild
