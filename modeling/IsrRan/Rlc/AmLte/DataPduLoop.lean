import IsrRan.Rlc.AmLte.TxBuild

namespace IsrRan.Rlc.AmLte
open List

def headerLength (n : Nat) : Nat := 2 + (3 * n + 1) / 2

theorem packedLength_eq {header : PduHeader} (whole : header.rf = false) :
    packedLength header = headerLength header.li.length := by
  unfold packedLength headerLength
  rw [whole]
  rfl

theorem bufferTailroom_eq : bufferTailroom = 12237 := by decide

theorem headerLength_lt (n : Nat) : headerLength n < headerLength (n + 1) := by
  unfold headerLength
  omega

theorem headerLength_pred_le (n : Nat) : headerLength (n - 1) ≤ headerLength n := by
  unfold headerLength
  omega

namespace Tx

variable {tx : Tx} {txSdu : Option TxSdu} {txSduQueue : List (Option TxSdu)} {sn space : Nat} {sdu : TxSdu}

def sdus (tx : Tx) : List TxSdu := tx.txSduQueue.filterMap id

def unsent (tx : Tx) : List (List Byte) := (tx.txSdu.map TxSdu.msg).toList ++ tx.sdus.map TxSdu.msg

theorem nSdus_eq (tx : Tx) : tx.nSdus = tx.sdus.length := by
  unfold nSdus sdus
  generalize tx.txSduQueue = queue
  induction queue with
  | nil => rfl
  | cons entry queue ih =>
    cases entry with
    | none => exact ih
    | some sdu => exact congrArg Nat.succ ih

theorem readSdu_cons {sdu : TxSdu} {sdus : List TxSdu} {queue : List (Option TxSdu)}
    (front : queue.filterMap id = sdu :: sdus) :
    ∃ rest, readSdu queue = (some sdu, rest) ∧ rest.filterMap id = sdus := by
  induction queue with
  | nil => contradiction
  | cons entry queue ih =>
    cases entry with
    | none => exact ih front
    | some sdu' =>
      obtain ⟨rfl, rest⟩ := List.cons.inj front
      exact ⟨queue, rfl, rest⟩

def bookSdu (tx : Tx) (sn : Nat) (sdu : TxSdu) : Tx :=
  ((tx.storeSduInfo sdu.pdcpSn).makeSegment sn sdu.pdcpSn).setFullyTxed sdu.pdcpSn

def bookRest (tx : Tx) (sn : Nat) (sdu : TxSdu) : Tx :=
  if tx.undeliveredSdus.hasPdcpSn sdu.pdcpSn then (tx.makeSegment sn sdu.pdcpSn).setFullyTxed sdu.pdcpSn else tx

/-- The SDUs of a PDU that another one follows are shorter than 2048 bytes. The PDU of `space` bytes has `n` SDUs of
`used` bytes altogether, `last` of them in the last one; another one follows while a segment is free and a byte fits
behind the header. -/
def ShortBefore (sn space : Nat) : (tx : Tx) → (used n last : Nat) → (queue : List TxSdu) → Prop
  | _, _, _, _, [] => True
  | tx, used, n, last, sdu :: rest =>
    n ≤ maxSdusPerPdu ∧ tx.segmentPool.hasSegments = true ∧ used + headerLength n < space →
      last < 2048 ∧ ShortBefore sn space (tx.bookSdu sn sdu) (used + sdu.msg.length) (n + 1) sdu.msg.length rest

def withSdus (tx : Tx) (txSdu : Option TxSdu) (txSduQueue : List (Option TxSdu)) : Tx := { tx with txSdu, txSduQueue }

theorem makeSegment_withSdus (p : Nat) :
    (tx.withSdus txSdu txSduQueue).makeSegment sn p = (tx.makeSegment sn p).withSdus txSdu txSduQueue := by
  cases taken : tx.segmentPool.take sn p with
  | none => simp only [makeSegment, withSdus, taken]
  | some segment =>
    cases found : tx.txWindow.find sn with
    | none => simp only [makeSegment, withSdus, taken, found]
    | some pdu => simp only [makeSegment, withSdus, taken, found]

theorem storeSduInfo_withSdus (p : Nat) :
    (tx.withSdus txSdu txSduQueue).storeSduInfo p = (tx.storeSduInfo p).withSdus txSdu txSduQueue := by
  cases has : tx.undeliveredSdus.hasPdcpSn p with
  | true => simp only [storeSduInfo, withSdus, has, if_true]
  | false => simp only [storeSduInfo, withSdus, has, Bool.false_eq_true, if_false]

theorem bookSdu_withSdus :
    (tx.withSdus txSdu txSduQueue).bookSdu sn sdu = (tx.bookSdu sn sdu).withSdus txSdu txSduQueue := by
  unfold bookSdu
  rw [storeSduInfo_withSdus, makeSegment_withSdus]
  rfl

theorem shortBefore_withSdus {used n last : Nat} {queue : List TxSdu} :
    ShortBefore sn space (tx.withSdus txSdu txSduQueue) used n last queue ↔
      ShortBefore sn space tx used n last queue := by
  induction queue generalizing tx used n last with
  | nil => exact Iff.rfl
  | cons sdu rest ih =>
    unfold ShortBefore
    rw [bookSdu_withSdus, ih]
    rfl

theorem shortBefore_full {used n last : Nat} {queue : List TxSdu} (full : space ≤ used + headerLength n) :
    ShortBefore sn space tx used n last queue := by
  cases queue with
  | nil => trivial
  | cons sdu rest => exact fun goes => absurd goes.2.2 (Nat.not_lt.mpr full)

theorem hasPdcpSn_storeSduInfo (tx : Tx) (p : Nat) : (tx.storeSduInfo p).undeliveredSdus.hasPdcpSn p = true := by
  unfold storeSduInfo
  split
  · assumption
  · unfold BufferedPdcpPduList.addPdcpSdu BufferedPdcpPduList.hasPdcpSn BufferedPdcpPduList.setPdu
      BufferedPdcpPduList.getPdu
    dsimp only
    split <;> simp

theorem bookRest_storeSduInfo (tx : Tx) (sn : Nat) (sdu : TxSdu) (queue : List (Option TxSdu)) :
    ({ tx with txSduQueue := queue }.storeSduInfo sdu.pdcpSn).bookRest sn sdu =
      (tx.bookSdu sn sdu).withSdus tx.txSdu queue := by
  unfold bookRest
  rw [if_pos (hasPdcpSn_storeSduInfo _ _)]
  exact @bookSdu_withSdus tx tx.txSdu queue sn sdu

end Tx

namespace Tx.DataBuild

variable {b b' : DataBuild} {sdu : TxSdu} {fuel : Nat}

def toMove (b : DataBuild) (sdu : TxSdu) : Nat := min sdu.msg.length (b.pduSpace - b.headLen)

theorem addSdu_whole (room : b.pdu.length + sdu.msg.length ≤ bufferTailroom)
    (fits : sdu.msg.length ≤ b.pduSpace - b.headLen) :
    b.addSdu sdu = .ok { b with
      tx := { b.tx.bookRest b.header.sn sdu with txSdu := none }
      lastLi := sdu.msg.length
      pdu := b.pdu ++ sdu.msg } := by
  have moved : min sdu.msg.length (b.pduSpace - b.headLen) = sdu.msg.length := Nat.min_eq_left fits
  unfold addSdu Tx.bookRest
  rw [moved, if_neg (Nat.not_lt.mpr room), drop_length, take_length]
  rfl

theorem addSdu_part (room : b.pdu.length + (b.pduSpace - b.headLen) ≤ bufferTailroom)
    (part : b.pduSpace - b.headLen < sdu.msg.length) :
    ∃ tx : Tx, b.addSdu sdu = .ok { b with
        tx := { tx with txSdu := some { sdu with msg := sdu.msg.drop (b.pduSpace - b.headLen) } }
        lastLi := b.pduSpace - b.headLen
        pdu := b.pdu ++ sdu.msg.take (b.pduSpace - b.headLen) } ∧ tx.txSduQueue = b.tx.txSduQueue ∧
      tx.segmentPool = (b.tx.bookRest b.header.sn sdu).segmentPool := by
  have moved : min sdu.msg.length (b.pduSpace - b.headLen) = b.pduSpace - b.headLen := Nat.min_eq_right part.le
  have more : (sdu.msg.drop (b.pduSpace - b.headLen)).isEmpty = false := by
    rw [isEmpty_eq_false_iff]
    intro empty
    exact absurd (List.drop_eq_nil_iff.mp empty) (Nat.not_le.mpr part)
  unfold addSdu
  dsimp only
  rw [moved, if_neg (Nat.not_lt.mpr room), more]
  have made := congrArg Tx.txSduQueue
    (@Tx.makeSegment_withSdus b.tx b.tx.txSdu b.tx.txSduQueue b.header.sn sdu.pdcpSn)
  refine ⟨_, rfl, ?_, ?_⟩
  · split
    · exact made
    · rfl
  · unfold Tx.bookRest
    split <;> rfl

theorem pullSdus_cons {rest : List (Option TxSdu)} (some_ : b.tx.sdus ≠ [])
    (front : readSdu b.tx.txSduQueue = (some sdu, rest)) :
    b.pullSdus (fuel + 1) =
      if b.headLen < b.pduSpace ∧ b.header.li.length < maxSdusPerPdu then
        if b.tx.segmentPool.hasSegments = false then
          .ok (if b.pdu.isEmpty then .inl (b.tx.removePdu b.header.sn) else .inr b)
        else if b.pduSpace ≤ b.pushLi.headLen then .ok (.inr b.pushLi.dropLi)
        else do
          let b₁ ← { b.pushLi with tx := { b.tx with txSduQueue := rest }.storeSduInfo sdu.pdcpSn }.addSdu sdu
          { b₁ with pduSpace := b₁.pduSpace - b₁.lastLi }.pullSdus fuel
      else .ok (.inr b) := by
  have some_ : 0 < b.tx.nSdus := by
    rw [b.tx.nSdus_eq]
    exact List.length_pos_iff.mpr some_
  change readSdu b.pushLi.tx.txSduQueue = _ at front
  rw [pullSdus]
  by_cases goes : b.headLen < b.pduSpace ∧ b.header.li.length < maxSdusPerPdu
  · rw [if_pos goes, if_pos (by simp [goes.1, goes.2, some_])]
    cases segments : b.tx.segmentPool.hasSegments with
    | false => rfl
    | true =>
      by_cases full : b.pduSpace ≤ b.pushLi.headLen
      · rw [if_pos full]
        exact if_pos full
      · rw [if_neg full]
        refine (if_neg full).trans ?_
        rw [front]
        rfl
  · rw [if_neg goes, if_neg]
    intro all
    simp only [Bool.and_eq_true, decide_eq_true_iff] at all
    exact goes ⟨all.1.1, all.2⟩

theorem pullSdus_nil (empty : b.tx.sdus = []) : b.pullSdus fuel = .ok (.inr b) := by
  cases fuel with
  | zero => rfl
  | succ fuel =>
    rw [pullSdus, if_neg]
    intro all
    have none_ : b.tx.nSdus = 0 := by
      rw [b.tx.nSdus_eq, empty]
      rfl
    simp [none_] at all

theorem pullSdus_full (full : b.pduSpace ≤ b.headLen) : b.pullSdus fuel = .ok (.inr b) := by
  cases fuel with
  | zero => rfl
  | succ fuel =>
    rw [pullSdus, if_neg]
    intro all
    simp only [Bool.and_eq_true, decide_eq_true_iff] at all
    omega

theorem pushLi_eq (b : DataBuild) (header : b.header.rf = false) :
    b.pushLi = { b with
      header := { b.header with li := if 0 < b.lastLi then b.header.li ++ [u16 b.lastLi] else b.header.li }
      headLen := headerLength (if 0 < b.lastLi then b.header.li ++ [u16 b.lastLi] else b.header.li).length } := by
  unfold pushLi
  dsimp only
  rw [packedLength_eq (by exact header)]

structure Goes (b : DataBuild) : Prop where
  few : b.header.li.length < maxSdusPerPdu
  segments : b.tx.segmentPool.hasSegments = true
  more : b.pushLi.headLen < b.pduSpace

theorem Goes.pull {rest : List (Option TxSdu)} (goes : b.Goes) (some_ : b.tx.sdus ≠ [])
    (front : readSdu b.tx.txSduQueue = (some sdu, rest)) (grows : b.headLen ≤ b.pushLi.headLen) :
    b.pullSdus (fuel + 1) = (do
      let b₁ ← { b.pushLi with tx := { b.tx with txSduQueue := rest }.storeSduInfo sdu.pdcpSn }.addSdu sdu
      { b₁ with pduSpace := b₁.pduSpace - b₁.lastLi }.pullSdus fuel) := by
  rw [pullSdus_cons some_ front, if_pos ⟨Nat.lt_of_le_of_lt grows goes.more, goes.few⟩,
    if_neg (by simp [goes.segments]), if_neg (Nat.not_le.mpr goes.more)]

theorem dropLi_pushLi (last : 0 < b.lastLi) : b.pushLi.dropLi = { b with headLen := b.pushLi.headLen } := by
  unfold dropLi pushLi
  simp only [if_pos last, dropLast_concat]

theorem pullSdus_stops (last : 0 < b.lastLi) (bytes : b.pdu ≠ []) (stops : b.tx.sdus ≠ [] → ¬ b.Goes) :
    ∃ headLen, b.pullSdus fuel = .ok (.inr { b with headLen }) := by
  cases fuel with
  | zero => exact ⟨b.headLen, rfl⟩
  | succ fuel =>
    cases queue : b.tx.sdus with
    | nil => exact ⟨b.headLen, pullSdus_nil queue⟩
    | cons sdu sdus =>
      have some_ : b.tx.sdus ≠ [] := by simp [queue]
      obtain ⟨rest, front, -⟩ := Tx.readSdu_cons queue
      rw [pullSdus_cons some_ front]
      split
      · rename_i goes
        split
        · rw [List.isEmpty_eq_false_iff.mpr bytes]
          exact ⟨b.headLen, rfl⟩
        · rename_i segments
          have full : b.pduSpace ≤ b.pushLi.headLen :=
            Nat.not_lt.mp fun more => stops some_ ⟨goes.2, by simpa using segments, more⟩
          rw [if_pos full, dropLi_pushLi last]
          exact ⟨_, rfl⟩
      · exact ⟨b.headLen, rfl⟩

structure Filled (h : PduHeader) (space : Nat) (pieces : List (List Byte)) (queue : List TxSdu)
    (b : DataBuild) : Prop where
  header : b.header = { h with li := pieces.dropLast.map length }
  headLen : b.headLen = headerLength (pieces.length - 1)
  lastLi : b.lastLi = (pieces.getLastD []).length
  pdu : b.pdu = pieces.flatten
  pduSpace : b.pduSpace + pieces.flatten.length = space
  queue : b.tx.sdus = queue
  txSdu : b.tx.txSdu = none
  nonempty : [] ∉ pieces
  fits : pieces.flatten.length + headerLength (pieces.length - 1) ≤ space
  few : pieces.length ≤ maxSdusPerPdu + 1

namespace Filled

variable {h : PduHeader} {space : Nat} {pieces : List (List Byte)} {queue : List TxSdu}

section
variable (filled : Filled h space pieces queue b)
include filled

theorem pushLi (whole : h.rf = false) (room : space ≤ bufferTailroom) :
    b.pushLi = { b with
      header := { h with li := pieces.map length }
      headLen := headerLength pieces.length } := by
  have li : (if 0 < b.lastLi then b.header.li ++ [u16 b.lastLi] else b.header.li) = pieces.map length := by
    rw [filled.header, filled.lastLi]
    rcases eq_nil_or_concat pieces with rfl | ⟨front, last, rfl⟩
    · rfl
    · have some_ : 0 < last.length := by
        rw [length_pos_iff]
        rintro rfl
        exact filled.nonempty (by simp)
      have small : last.length < 65536 := by
        have fits := filled.fits
        rw [concat_eq_append, flatten_append, length_append, flatten_singleton] at fits
        rw [bufferTailroom_eq] at room
        omega
      simp [some_, u16, Nat.mod_eq_of_lt small]
  rw [pushLi_eq b (by rw [filled.header]; exact whole), li, filled.header, length_map]

theorem goes_iff (whole : h.rf = false) (room : space ≤ bufferTailroom) :
    b.Goes ↔ pieces.length ≤ maxSdusPerPdu ∧ b.tx.segmentPool.hasSegments = true ∧
      pieces.flatten.length + headerLength pieces.length < space := by
  have space_ := filled.pduSpace
  have some_ : 0 < maxSdusPerPdu := by decide
  have li : b.header.li.length = pieces.length - 1 := by
    rw [filled.header]
    simp
  have headLen : b.pushLi.headLen = headerLength pieces.length := by rw [filled.pushLi whole room]
  constructor
  · intro goes
    have few := goes.few
    have more := goes.more
    exact ⟨by omega, goes.segments, by omega⟩
  · rintro ⟨few, segments, more⟩
    exact ⟨by omega, segments, by omega⟩

theorem some_bytes (some_ : pieces ≠ []) : 0 < b.lastLi ∧ b.pdu ≠ [] := by
  obtain ⟨front, last, rfl⟩ := eq_nil_or_concat pieces |>.resolve_left some_
  rw [concat_eq_append] at *
  have nonempty : last ≠ [] := by
    rintro rfl
    exact filled.nonempty (by simp)
  rw [filled.lastLi, filled.pdu, getLastD_concat]
  exact ⟨List.length_pos_iff.mpr nonempty, fun empty => nonempty (List.flatten_eq_nil_iff.mp empty last (by simp))⟩

end

section
variable (filled : Filled h space pieces (sdu :: queue) b)
include filled

theorem pull (fuel : Nat) (whole : h.rf = false)
    (room : space ≤ bufferTailroom) (goes : b.Goes) :
    ∃ rest, rest.filterMap id = queue ∧ b.pullSdus (fuel + 1) = (do
      let b₁ ← { b with
        tx := { b.tx with txSduQueue := rest }.storeSduInfo sdu.pdcpSn
        header := { h with li := pieces.map length }
        headLen := headerLength pieces.length }.addSdu sdu
      { b₁ with pduSpace := b₁.pduSpace - b₁.lastLi }.pullSdus fuel) := by
  have pushed := filled.pushLi whole room
  obtain ⟨rest, front, left⟩ := Tx.readSdu_cons filled.queue
  refine ⟨rest, left, ?_⟩
  rw [goes.pull (by simp [filled.queue]) front, pushed]
  rw [pushed, filled.headLen]
  exact headerLength_pred_le _

theorem pull_whole (fuel : Nat) (whole : h.rf = false)
    (room : space ≤ bufferTailroom) (goes : b.Goes) (some_ : sdu.msg ≠ [])
    (fits : pieces.flatten.length + headerLength pieces.length + sdu.msg.length ≤ space) :
    ∃ b' : DataBuild, b.pullSdus (fuel + 1) = b'.pullSdus fuel ∧ Filled h space (pieces ++ [sdu.msg]) queue b' ∧
      ∃ rest, b'.tx = (b.tx.bookSdu h.sn sdu).withSdus none rest := by
  have space_ := filled.pduSpace
  obtain ⟨rest, left, pulled⟩ := filled.pull fuel whole room goes
  rw [pulled, addSdu_whole (by dsimp only; rw [filled.pdu]; omega)
    (by dsimp only; omega)]
  rw [Tx.bookRest_storeSduInfo]
  refine ⟨_, rfl, ⟨?_, ?_, ?_, ?_, ?_, left, rfl, ?_, ?_, ?_⟩, rest, rfl⟩
  · rw [dropLast_concat]
  · rw [length_append, length_singleton, Nat.add_sub_cancel]
  · rw [getLastD_concat]
  · rw [filled.pdu, flatten_append, flatten_singleton]
  · rw [flatten_append, length_append, flatten_singleton]
    dsimp only
    omega
  · rw [mem_append, mem_singleton, not_or]
    exact ⟨filled.nonempty, fun same => some_ same.symm⟩
  · rw [flatten_append, length_append, flatten_singleton, length_append, length_singleton,
      Nat.add_sub_cancel]
    omega
  · rw [length_append]
    exact Nat.succ_le_succ ((filled.goes_iff whole room).mp goes).1

theorem pull_part (fuel : Nat) (whole : h.rf = false)
    (room : space ≤ bufferTailroom) (goes : b.Goes) (len : Nat) (some_ : 0 < len)
    (fits : pieces.flatten.length + headerLength pieces.length + len = space) (part : len < sdu.msg.length) :
    ∃ b' : DataBuild, b.pullSdus (fuel + 1) = .ok (.inr b') ∧
      b'.header = { h with li := pieces.map length } ∧ b'.pdu = pieces.flatten ++ sdu.msg.take len ∧
      b'.tx.txSdu = some { sdu with msg := sdu.msg.drop len } ∧ b'.tx.sdus = queue := by
  have space_ := filled.pduSpace
  have moved : b.pduSpace - headerLength pieces.length = len := by omega
  obtain ⟨rest, left, pulled⟩ := filled.pull fuel whole room goes
  obtain ⟨tx, added, queue_, -⟩ := @addSdu_part { b with
    tx := { b.tx with txSduQueue := rest }.storeSduInfo sdu.pdcpSn
    header := { h with li := pieces.map length }
    headLen := headerLength pieces.length } sdu (by dsimp only; rw [filled.pdu]; omega) (by dsimp only; omega)
  rw [moved] at added
  have stored := congrArg Tx.txSduQueue (@Tx.storeSduInfo_withSdus b.tx b.tx.txSdu rest sdu.pdcpSn)
  have left_ := congrArg (filterMap id) (queue_.trans stored)
  rw [pulled, added]
  refine ⟨_, pullSdus_full ?_, rfl, ?_, rfl, left_.trans left⟩
  · dsimp only
    omega
  · dsimp only
    rw [filled.pdu]

end

end Filled

end Tx.DataBuild

end IsrRan.Rlc.AmLte
