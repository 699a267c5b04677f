import IsrRan.Mac.SchedLch
import IsrRan.Lib.Transition

namespace IsrRan.Mac.Lte.SchedLch
open LchUeManager List Function

def LchUeManager.serviceOrder (m : LchUeManager) : List (LchId × Nat) :=
  match _next : m.getMaxPrioLcid with
  | none => []
  | some lcid => (lcid, rlcOverhead lcid + m.nextBytes lcid) :: (m.drawNext lcid).serviceOrder
termination_by m.getDlTxTotal
decreasing_by exact getDlTxTotal_drawNext (nextBytes_pos _next)

variable {m : LchUeManager}

theorem serviceOrder_some {m : LchUeManager} {lcid : LchId} (next : m.getMaxPrioLcid = some lcid) :
    m.serviceOrder = (lcid, rlcOverhead lcid + m.nextBytes lcid) :: (m.drawNext lcid).serviceOrder := by
  rw [serviceOrder]
  split
  · rename_i absent
    rw [absent] at next
    contradiction
  · rename_i found
    rw [found] at next
    obtain rfl := Option.some.inj next
    rfl

theorem serviceOrder_none (next : m.getMaxPrioLcid = none) : m.serviceOrder = [] := by
  rw [serviceOrder]
  split
  · rfl
  · rename_i found
    rw [found] at next
    contradiction

theorem serviceOrder_eq_nil : m.serviceOrder = [] ↔ m.getDlTxTotal = 0 := by
  rw [← getMaxPrioLcid_none]
  cases next : m.getMaxPrioLcid with
  | none => simp [serviceOrder_none next]
  | some lcid => simp [serviceOrder_some next]

theorem drawNext_pendingCes {lcid : LchId} {ces : List CeCmd} :
    ({ m with pendingCes := ces } : LchUeManager).drawNext lcid = { m.drawNext lcid with pendingCes := ces } := by
  unfold drawNext
  by_cases prio : 0 < m.getDlPrioTx lcid
  · have same : 0 < ({ m with pendingCes := ces } : LchUeManager).getDlPrioTx lcid := prio
    rw [if_pos prio, if_pos same]
    rfl
  · have same : ¬0 < ({ m with pendingCes := ces } : LchUeManager).getDlPrioTx lcid := prio
    rw [if_neg prio, if_neg same]
    rfl

theorem serviceOrder_pendingCes {ces : List CeCmd} :
    ({ m with pendingCes := ces } : LchUeManager).serviceOrder = m.serviceOrder := by
  fun_induction serviceOrder m with
  | case1 m next => exact serviceOrder_none next
  | case2 m lcid next ih =>
    rw [@serviceOrder_some { m with pendingCes := ces } lcid next, drawNext_pendingCes, ih]
    rfl

abbrev Pieces := List (LchId × List Nat)

def gather : Pieces → LchId → Nat → Pieces
  | [], lcid, bytes => [(lcid, [bytes])]
  | (c, sizes) :: placed, lcid, bytes =>
    if c = lcid then (c, sizes ++ [bytes]) :: placed else (c, sizes) :: gather placed lcid bytes

def Pieces.sdus (placed : Pieces) : List DlSchedPdu := placed.map fun p => ⟨p.1, p.2.sum⟩

theorem sdus_gather {placed : Pieces} {lcid : LchId} {bytes : Nat} :
    (gather placed lcid bytes).sdus = mergeSdu placed.sdus ⟨lcid, bytes⟩ := by
  induction placed with
  | nil => simp [gather, Pieces.sdus, mergeSdu]
  | cons p placed ih =>
    obtain ⟨c, sizes⟩ := p
    unfold gather
    by_cases same : c = lcid
    · subst same
      simp [Pieces.sdus, mergeSdu]
    · have other : (c : Nat) ≠ lcid := fun equal => same (Fin.ext equal)
      rw [if_neg same]
      unfold Pieces.sdus at ih ⊢
      simp [mergeSdu, other, ih]

/-- What a transport block with `rem` bytes left is cut into: each buffer whole while there are more than
`MAC_MIN_ALLOC_SIZE` bytes and another buffer behind it, and all that is left to the last one. -/
def cut (first : Nat) : List (LchId × Nat) → Pieces → Nat → Pieces × Nat
  | [], placed, rem => (placed, rem)
  | (lcid, bytes) :: order, placed, rem =>
    if rem > macMaxHeaderSize ∧ first + placed.length < maxRlcPduList then
      let room := rem - getMacSubheaderSize (rem - macMinHeaderSize)
      if room ≤ bytes + macMinAllocSize ∨ order = [] then
        (gather placed lcid room, rem - getMacSduAndSubheaderSize room)
      else cut first order (gather placed lcid bytes) (rem - getMacSduAndSubheaderSize bytes)
    else (placed, rem)

section
variable {first rem bytes : Nat} {placed : Pieces} {lcid : LchId} {order : List (LchId × Nat)}
  (goes_on : rem > macMaxHeaderSize ∧ first + placed.length < maxRlcPduList)
include goes_on

theorem cut_last (last : rem - getMacSubheaderSize (rem - macMinHeaderSize) ≤ bytes + macMinAllocSize ∨ order = []) :
    cut first ((lcid, bytes) :: order) placed rem =
      (gather placed lcid (rem - getMacSubheaderSize (rem - macMinHeaderSize)),
        rem - getMacSduAndSubheaderSize (rem - getMacSubheaderSize (rem - macMinHeaderSize))) := by
  rw [cut, if_pos goes_on]
  exact if_pos last

theorem cut_whole (room : bytes + macMinAllocSize < rem - getMacSubheaderSize (rem - macMinHeaderSize))
    (more : order ≠ []) : cut first ((lcid, bytes) :: order) placed rem =
      cut first order (gather placed lcid bytes) (rem - getMacSduAndSubheaderSize bytes) := by
  rw [cut, if_pos goes_on]
  exact if_neg (not_or.mpr ⟨Nat.not_le.mpr room, more⟩)

end

namespace SduRound
variable {first : Nat} {s : SduRound} {lcid : LchId}

def room (s : SduRound) : Nat := s.remTbs - getMacSubheaderSize (s.remTbs - macMinHeaderSize)

theorem room_bounds (some_left : 3 < s.remTbs) : 2 ≤ s.room ∧ s.room + 2 ≤ s.remTbs ∧
    getMacSduAndSubheaderSize s.room ≤ s.remTbs ∧ s.remTbs ≤ getMacSduAndSubheaderSize s.room + 1 := by
  unfold room macMinHeaderSize getMacSduAndSubheaderSize getMacSubheaderSize
  split_ifs <;> omega

theorem toInt_maxSduBytes (small : s.remTbs < 2147483648) (some_left : 3 < s.remTbs) :
    toInt s.maxSduBytes = s.room := by
  rw [maxSduBytes_of_lt (by omega) some_left]
  unfold room macMinHeaderSize at *
  unfold toInt
  rw [if_pos (by omega)]

theorem next_none (empty : s.m.getMaxPrioLcid = none) : s.next first = none := by
  unfold next allocRlcPdu
  simp [empty]

variable (small : s.remTbs < 2147483648) (some_left : 3 < s.remTbs)
  (listed : first + s.sdus.length < maxRlcPduList) (chosen : s.m.getMaxPrioLcid = some lcid)
include small some_left listed chosen

theorem next_last (last : s.room ≤ rlcOverhead lcid + s.m.nextBytes lcid + macMinAllocSize ∨
      (s.m.drawNext lcid).getDlTxTotal = 0) :
    s.next first = some { m := (s.m.allocBytes lcid s.room).1, sdus := mergeSdu s.sdus ⟨lcid, s.room⟩,
                          remTbs := s.remTbs - getMacSduAndSubheaderSize s.room } := by
  have bounds := room_bounds some_left
  unfold next
  rw [if_pos ⟨some_left, listed⟩, toInt_maxSduBytes small some_left, allocRlcPdu_last chosen (by omega) last]
  dsimp only
  rw [sub32_of_le (by omega) bounds.2.2.1]

theorem next_whole (room : rlcOverhead lcid + s.m.nextBytes lcid + macMinAllocSize < s.room)
    (more : (s.m.drawNext lcid).getDlTxTotal ≠ 0) :
    s.next first = some { m := s.m.drawNext lcid,
                          sdus := mergeSdu s.sdus ⟨lcid, rlcOverhead lcid + s.m.nextBytes lcid⟩,
                          remTbs := s.remTbs - getMacSduAndSubheaderSize (rlcOverhead lcid + s.m.nextBytes lcid) } := by
  have bounds := room_bounds some_left
  have header := @getMacSubheaderSize_mono (rlcOverhead lcid + s.m.nextBytes lcid) s.room (by omega)
  have inside : getMacSduAndSubheaderSize (rlcOverhead lcid + s.m.nextBytes lcid) ≤ s.remTbs := by
    unfold getMacSduAndSubheaderSize at bounds ⊢
    omega
  unfold next
  rw [if_pos ⟨some_left, listed⟩, toInt_maxSduBytes small some_left, allocRlcPdu_whole chosen room more]
  dsimp only
  rw [sub32_of_le (by omega) inside]

end SduRound

namespace SduRound
variable {first : Nat} {s : SduRound}

theorem run_eq_cut (placed : Pieces) (same : s.sdus = placed.sdus) (small : s.remTbs < 2147483648) :
    (s.run first).sdus = (cut first s.m.serviceOrder placed s.remTbs).1.sdus ∧
      (s.run first).remTbs = (cut first s.m.serviceOrder placed s.remTbs).2 := by
  have count : s.sdus.length = placed.length := by simp [same, Pieces.sdus]
  fun_induction run first s generalizing placed with
  | case1 s done =>
    suffices stays : cut first s.m.serviceOrder placed s.remTbs = (placed, s.remTbs) by
      rw [stays]
      exact ⟨same, rfl⟩
    cases chosen : s.m.getMaxPrioLcid with
    | none => rw [serviceOrder_none chosen, cut]
    | some lcid =>
      rw [serviceOrder_some chosen]
      apply if_neg
      rintro ⟨some_left, listed⟩
      rw [← count] at listed
      by_cases last : s.room ≤ rlcOverhead lcid + s.m.nextBytes lcid + macMinAllocSize ∨
          (s.m.drawNext lcid).getDlTxTotal = 0
      · rw [next_last small some_left listed chosen last] at done
        contradiction
      · obtain ⟨fits, more⟩ := not_or.mp last
        rw [next_whole small some_left listed chosen (by omega) more] at done
        contradiction
  | case2 s s' round ih =>
    obtain ⟨some_left, listed, _⟩ := next_eq_some round
    have bounds := room_bounds some_left
    cases chosen : s.m.getMaxPrioLcid with
    | none =>
      rw [next_none chosen] at round
      contradiction
    | some lcid =>
      have goes_on : s.remTbs > macMaxHeaderSize ∧ first + placed.length < maxRlcPduList := by
        rw [← count]
        exact ⟨some_left, listed⟩
      rw [serviceOrder_some chosen]
      by_cases last : s.room ≤ rlcOverhead lcid + s.m.nextBytes lcid + macMinAllocSize ∨
          (s.m.drawNext lcid).getDlTxTotal = 0
      · rw [next_last small some_left listed chosen last] at round
        obtain rfl := Option.some.inj round
        rw [cut_last goes_on (last.imp_right serviceOrder_eq_nil.mpr), run]
        split
        · rw [sdus_gather, ← same]
          exact ⟨rfl, rfl⟩
        · rename_i again
          have ended := (next_eq_some again).1
          dsimp only at ended
          omega
      · obtain ⟨fits, more⟩ := not_or.mp last
        rw [next_whole small some_left listed chosen (by omega) more] at round
        obtain rfl := Option.some.inj round
        rw [cut_whole goes_on (Nat.lt_of_not_le fits) (mt serviceOrder_eq_nil.mp more)]
        apply ih
        · rw [sdus_gather, ← same]
        · dsimp only
          omega
        · dsimp only
          rw [same, ← sdus_gather]
          simp [Pieces.sdus]

end SduRound

open LchUeManager Lib

/-! What the cut takes from a block -/

def headers (sizes : List Nat) : Nat := (sizes.map getMacSubheaderSize).sum

def Pieces.charged (placed : Pieces) : Nat := (placed.map fun p => p.2.sum + headers p.2).sum

def Pieces.Proper (placed : Pieces) : Prop := ∀ p ∈ placed, p.2 ≠ [] ∧ ∀ n ∈ p.2, 0 < n

theorem headers_append {sizes : List Nat} {n : Nat} : headers (sizes ++ [n]) = headers sizes + getMacSubheaderSize n := by
  simp [headers]

theorem headers_bounds {sizes : List Nat} (positive : ∀ n ∈ sizes, 0 < n) : 2 * sizes.length ≤ headers sizes := by
  induction sizes with
  | nil => simp
  | cons n sizes ih =>
    have one := SduRound.getMacSubheaderSize_pos (positive n mem_cons_self)
    have others := ih fun k mem => positive k (mem_cons_of_mem _ mem)
    unfold headers at others ⊢
    rw [map_cons, sum_cons, length_cons]
    omega

theorem charged_gather {placed : Pieces} {lcid : LchId} {bytes : Nat} :
    (gather placed lcid bytes).charged = placed.charged + getMacSduAndSubheaderSize bytes := by
  unfold Pieces.charged getMacSduAndSubheaderSize
  induction placed with
  | nil => simp [gather, headers]
  | cons p placed ih =>
    unfold gather
    split
    · simp only [map_cons, headers_append]
      simp
      omega
    · simp only [map_cons, sum_cons]
      omega

theorem Pieces.Proper.gather {placed : Pieces} {lcid : LchId} {bytes : Nat} (proper : placed.Proper)
    (positive : 0 < bytes) : (gather placed lcid bytes).Proper := by
  induction placed with
  | nil =>
    intro p mem
    obtain rfl := List.mem_singleton.mp mem
    simpa using positive
  | cons q placed ih =>
    obtain ⟨own, others⟩ := List.forall_mem_cons.mp proper
    unfold SchedLch.gather
    split
    · refine List.forall_mem_cons.mpr (And.intro (And.intro (by simp) ?_) others)
      intro n mem
      rcases List.mem_append.mp mem with old | new
      · exact own.2 n old
      · obtain rfl := List.mem_singleton.mp new
        exact positive
    · exact List.forall_mem_cons.mpr ⟨own, ih others⟩

theorem serviceOrder_pos (m : LchUeManager) : ∀ p ∈ m.serviceOrder, 0 < p.2 := by
  fun_induction serviceOrder m with
  | case1 m next => simp
  | case2 m lcid next ih =>
    have pending := nextBytes_pos next
    intro p mem
    rcases List.mem_cons.mp mem with rfl | later
    · dsimp only
      omega
    · exact ih p later

theorem cut_accounts {first : Nat} (order : List (LchId × Nat)) (sizes : ∀ p ∈ order, 0 < p.2) (placed : Pieces) (rem : Nat)
    (proper : placed.Proper) : (cut first order placed rem).1.Proper ∧
      (cut first order placed rem).1.charged + (cut first order placed rem).2 = placed.charged + rem := by
  induction order generalizing placed rem with
  | nil => exact ⟨proper, rfl⟩
  | cons p order ih =>
    obtain ⟨lcid, bytes⟩ := p
    obtain ⟨positive, later⟩ := List.forall_mem_cons.mp sizes
    by_cases goes_on : rem > macMaxHeaderSize ∧ first + placed.length < maxRlcPduList
    · have bounds := @SduRound.room_bounds ⟨⟨fun _ => {}, 0, []⟩, [], rem⟩ goes_on.1
      unfold SduRound.room at bounds
      dsimp only at bounds
      by_cases last : rem - getMacSubheaderSize (rem - macMinHeaderSize) ≤ bytes + macMinAllocSize ∨ order = []
      · rw [cut_last goes_on last]
        refine ⟨proper.gather (by omega), ?_⟩
        rw [charged_gather]
        omega
      · obtain ⟨fits, more⟩ := not_or.mp last
        have header := @SduRound.getMacSubheaderSize_mono bytes
          (rem - getMacSubheaderSize (rem - macMinHeaderSize)) (by omega)
        rw [cut_whole goes_on (Nat.lt_of_not_le fits) more]
        obtain ⟨proper', total⟩ := ih later (gather placed lcid bytes) (rem - getMacSduAndSubheaderSize bytes)
          (proper.gather positive)
        refine ⟨proper', total.trans ?_⟩
        rw [charged_gather]
        unfold getMacSduAndSubheaderSize at *
        omega
    · rw [cut, if_neg goes_on]
      exact ⟨proper, rfl⟩

/-! What the entries take when they are written -/

namespace DlSchedPdu

def headerSize (e : DlSchedPdu) (isLast : Bool) : Nat :=
  Pdu.SchSubh.getHeaderSize .dlSch { lcid := e.lcid, nofBytes := e.nbytes } isLast

def payloadSize (e : DlSchedPdu) : Nat := if Pdu.isSdu .dlSch e.lcid then e.nbytes else Pdu.dlCeSize e.lcid

end DlSchedPdu

def writtenSize : List DlSchedPdu → Nat
  | [] => 0
  | [e] => e.headerSize true + e.payloadSize
  | e :: e' :: entries => e.headerSize false + e.payloadSize + writtenSize (e' :: entries)

theorem writtenSize_ce {ce : CeCmd} {entries : List DlSchedPdu} :
    writtenSize ({ lcid := ce.lcid } :: entries) = ceTotalSize ce + writtenSize entries := by
  have sizes : ∀ isLast, (⟨ce.lcid, 0⟩ : DlSchedPdu).headerSize isLast + (⟨ce.lcid, 0⟩ : DlSchedPdu).payloadSize =
      ceTotalSize ce := by
    cases ce <;> decide
  cases entries with
  | nil => exact sizes true
  | cons e entries => exact congrArg (· + writtenSize (e :: entries)) (sizes false)

theorem writtenSize_ces {ces : List CeCmd} {entries : List DlSchedPdu} :
    writtenSize (ces.map (fun ce => { lcid := ce.lcid }) ++ entries) =
      (ces.map ceTotalSize).sum + writtenSize entries := by
  induction ces with
  | nil => simp
  | cons ce ces ih =>
    rw [map_cons, cons_append, writtenSize_ce, map_cons, sum_cons]
    omega

/-- Channels whose only piece is of 128 bytes, except the one listed last: `sch_pdu` writes them with a byte more than
the scheduler counts. -/
def shortHeaders (placed : Pieces) : Nat := placed.dropLast.countP fun p => decide (p.2 = [128])

def spareHeaders (placed : Pieces) : Nat :=
  (placed.dropLast.map fun p => if p.2.length = 1 then 0 else headers p.2 - Pdu.sizeHeaderSdu p.2.sum).sum +
    (placed.getLast?.elim 0 fun p => headers p.2 - 1)

theorem sdu_sizes {lcid : LchId} {bytes : Nat} : (⟨lcid, bytes⟩ : DlSchedPdu).payloadSize = bytes ∧
    (⟨lcid, bytes⟩ : DlSchedPdu).headerSize true = 1 ∧
    (⟨lcid, bytes⟩ : DlSchedPdu).headerSize false = Pdu.sizeHeaderSdu bytes := by
  have sdu : Pdu.isSdu .dlSch lcid = true := by
    exact decide_eq_true (show lcid.val ≤ 17 by omega)
  simp [DlSchedPdu.payloadSize, DlSchedPdu.headerSize, Pdu.SchSubh.getHeaderSize, Pdu.hasLengthField, sdu]

theorem sizeHeaderSdu_eq {n : Nat} : Pdu.sizeHeaderSdu n = getMacSubheaderSize n + if n = 128 then 1 else 0 := by
  unfold Pdu.sizeHeaderSdu getMacSubheaderSize
  split_ifs <;> omega

theorem header_difference {sizes : List Nat} (some_piece : sizes ≠ []) (positive : ∀ n ∈ sizes, 0 < n) :
    Pdu.sizeHeaderSdu sizes.sum + (if sizes.length = 1 then 0 else headers sizes - Pdu.sizeHeaderSdu sizes.sum) =
      headers sizes + if sizes = [128] then 1 else 0 := by
  have counted := headers_bounds positive
  cases sizes with
  | nil => contradiction
  | cons n sizes =>
    cases sizes with
    | nil =>
      simp [headers, sizeHeaderSdu_eq]
    | cons k sizes =>
      have written : Pdu.sizeHeaderSdu (n :: k :: sizes).sum ≤ 3 := by
        unfold Pdu.sizeHeaderSdu
        split_ifs <;> omega
      rw [length_cons, length_cons] at counted ⊢
      rw [if_neg (by omega), if_neg (by simp)]
      omega

theorem writtenSize_sdus {placed : Pieces} (proper : placed.Proper) (some_piece : placed ≠ []) :
    writtenSize placed.sdus + spareHeaders placed = placed.charged + shortHeaders placed := by
  induction placed with
  | nil => contradiction
  | cons p placed ih =>
    obtain ⟨⟨own, positive⟩, others⟩ := List.forall_mem_cons.mp proper
    cases placed with
    | nil =>
      have counted := headers_bounds positive
      have piece := List.length_pos_iff.mpr own
      simp only [Pieces.sdus, map_cons, map_nil, writtenSize, sdu_sizes, spareHeaders, Pieces.charged,
        shortHeaders, dropLast_singleton, getLast?_singleton, sum_cons, countP_nil,
        Option.elim_some]
      omega
    | cons q placed =>
      have later := ih others (by simp)
      have header := header_difference own positive
      simp only [Pieces.sdus, map_cons, writtenSize, sdu_sizes, spareHeaders, Pieces.charged, shortHeaders,
        dropLast_cons_cons, getLast?_cons_cons, sum_cons, countP_cons,
        decide_eq_true_eq] at later ⊢
      omega

theorem placeCes_spec (ces : List CeCmd) (pdu : List DlSchedPdu) (remTbs : Int) (held : 0 ≤ remTbs) :
    ∃ taken : List CeCmd, (placeCes ces pdu remTbs).2.1 = pdu ++ taken.map (fun ce => { lcid := ce.lcid }) ∧
      (placeCes ces pdu remTbs).2.2 + (taken.map ceTotalSize).sum = remTbs ∧ 0 ≤ (placeCes ces pdu remTbs).2.2 := by
  induction ces generalizing pdu remTbs with
  | nil => exact ⟨[], by simp [placeCes], by simp [placeCes], held⟩
  | cons ce ces ih =>
    unfold placeCes
    split
    · split
      · exact ⟨[], by simp, by simp, held⟩
      · rename_i room
        obtain ⟨taken, entries, total, left⟩ := ih (pdu ++ [{ lcid := ce.lcid }]) (remTbs - ceTotalSize ce) (by omega)
        refine ⟨ce :: taken, ?_, ?_, left⟩
        · rw [entries, append_assoc]
          rfl
        · rw [map_cons, sum_cons]
          omega
    · exact ⟨[], by simp, by simp, held⟩

section Fill
variable (dci : Phy.DciDl) (m : LchUeManager) (tbs : Nat) (tbidx : TbIdx)

def ceFill : DlSchedData × LchUeManager × Int := allocateMacCes { dci } m tbs

def sduFill : DlSchedData × LchUeManager × Nat :=
  allocateMacSdus (ceFill dci m tbs).1 (ceFill dci m tbs).2.1 (tbs - (ceFill dci m tbs).2.2).toNat tbidx

def produced : List DlSchedPdu :=
  if tbidx = 0 then (sduFill dci m tbs tbidx).1.pdu 0
  else (sduFill dci m tbs tbidx).1.pdu 0 ++ (sduFill dci m tbs tbidx).1.pdu tbidx

def sduStart : SduRound :=
  { m := (ceFill dci m tbs).2.1, remTbs := (tbs - (ceFill dci m tbs).2.2).toNat }

def sduFirst : Nat := ((ceFill dci m tbs).1.pdu tbidx).length

def Visited : SduRound → Prop :=
  Reaches (fun (s : SduRound) (_ : Unit) => s.next (sduFirst dci m tbs tbidx)) (fun _ _ => True) (sduStart dci m tbs)

def SduRound.NoUnderflow (s : SduRound) : Prop :=
  s.remTbs > macMaxHeaderSize → macMinHeaderSize ≤ s.remTbs ∧
    getMacSubheaderSize (s.remTbs - macMinHeaderSize) ≤ s.remTbs ∧
    ∀ m pdu, s.m.allocRlcPdu (toInt s.maxSduBytes) = (m, some pdu) → getMacSduAndSubheaderSize pdu.nbytes ≤ s.remTbs

/-- The list fits the block, and the loops end without an underflow and without drawing more than a buffer holds. -/
structure MacPduFits : Prop where
  size : writtenSize (produced dci m tbs tbidx) ≤ tbs
  ends : ∃ s, Visited dci m tbs tbidx s ∧ s.next (sduFirst dci m tbs tbidx) = none ∧
    s.m = (sduFill dci m tbs tbidx).2.1
  ces : 0 ≤ (tbs : Int) - (ceFill dci m tbs).2.2
  noUnderflow : ∀ s, Visited dci m tbs tbidx s → s.NoUnderflow
  drawn : DrawnFrom m (sduFill dci m tbs tbidx).2.1

def HeadersCovered : Prop :=
  let ces := placeCes m.pendingCes [] tbs
  let filled := cut (if tbidx = 0 then ces.2.1.length else 0) m.serviceOrder [] ces.2.2.toNat
  shortHeaders filled.1 ≤ spareHeaders filled.1 + filled.2

end Fill

namespace SduRound
variable {first : Nat} {s t : SduRound}

theorem next_run : (s.run first).next first = none := by
  fun_induction run first s with
  | case1 s done => exact done
  | case2 s s' round ih => exact ih

theorem reaches_run : Reaches (fun (s : SduRound) (_ : Unit) => s.next first) (fun _ _ => True) s (s.run first) := by
  fun_induction run first s with
  | case1 s done => exact .refl
  | case2 s s' round ih =>
    have one : Reaches (fun (s : SduRound) (_ : Unit) => s.next first) (fun _ _ => True) s s' :=
      .tail (e := ()) .refl trivial round
    exact one.trans ih

theorem drawnFrom_run : DrawnFrom s.m (s.run first).m := by
  fun_induction run first s with
  | case1 s done => exact .refl
  | case2 s s' round ih =>
    obtain ⟨_, _, pdu, placed, _, _⟩ := next_eq_some round
    have one := @drawnFrom_allocRlcPdu s.m (toInt s.maxSduBytes)
    rw [placed] at one
    exact one.trans ih

theorem noUnderflow_of_reaches (small : s.remTbs < 4294967296)
    (run : Reaches (fun (s : SduRound) (_ : Unit) => s.next first) (fun _ _ => True) s t) : t.NoUnderflow := by
  have below : t.remTbs < 4294967296 := by
    apply run.invariant (P := fun t => t.remTbs < 4294967296) small
    intro t _ u before _ round
    exact (next_remTbs round).trans before
  intro some_left
  have header := @getMacSubheaderSize_pos (t.remTbs - 2) (by unfold macMaxHeaderSize at some_left; omega)
  unfold macMaxHeaderSize macMinHeaderSize at *
  exact ⟨by omega, by omega, fun m pdu placed => (charged_le below some_left placed).2⟩

end SduRound

section Fill
variable {dci : Phy.DciDl} {m : LchUeManager} {tbs : Nat} {tbidx : TbIdx}

theorem ceFill_rem : (tbs : Int) - (ceFill dci m tbs).2.2 = (placeCes m.pendingCes [] tbs).2.2 := by
  have taken : (ceFill dci m tbs).2.2 = tbs - (placeCes m.pendingCes [] tbs).2.2 := rfl
  omega

theorem sduStart_eq : sduStart dci m tbs =
    { m := { m with pendingCes := (placeCes m.pendingCes [] tbs).1 }
      remTbs := (placeCes m.pendingCes [] tbs).2.2.toNat } := by
  unfold sduStart
  rw [ceFill_rem]
  rfl

theorem ceFill_pdu : (ceFill dci m tbs).1.pdu tbidx =
    if tbidx = 0 then (placeCes m.pendingCes [] tbs).2.1 else [] := by
  unfold ceFill allocateMacCes
  dsimp only
  split
  · rename_i block
    subst block
    exact update_self 0 _ _
  · rename_i block
    exact update_of_ne block _ _

theorem sduFirst_eq : sduFirst dci m tbs tbidx =
    if tbidx = 0 then (placeCes m.pendingCes [] tbs).2.1.length else 0 := by
  unfold sduFirst
  rw [ceFill_pdu]
  split <;> rfl

theorem produced_eq : produced dci m tbs tbidx =
    (placeCes m.pendingCes [] tbs).2.1 ++ ((sduStart dci m tbs).run (sduFirst dci m tbs tbidx)).sdus := by
  have own : (sduFill dci m tbs tbidx).1.pdu tbidx =
      (ceFill dci m tbs).1.pdu tbidx ++ ((sduStart dci m tbs).run (sduFirst dci m tbs tbidx)).sdus := by
    exact update_self tbidx _ _
  unfold produced
  by_cases block : tbidx = 0
  · rw [if_pos block]
    subst block
    rw [own, ceFill_pdu, if_pos rfl]
  · rw [if_neg block, own, ceFill_pdu, if_neg block, nil_append]
    have other : (sduFill dci m tbs tbidx).1.pdu 0 = (ceFill dci m tbs).1.pdu 0 := by
      exact update_of_ne (Ne.symm block) _ _
    rw [other, ceFill_pdu, if_pos rfl]

theorem size_iff (int : tbs < 2147483648) : writtenSize (produced dci m tbs tbidx) ≤ tbs ↔ HeadersCovered m tbs tbidx := by
  obtain ⟨taken, entries, total, left⟩ := placeCes_spec m.pendingCes [] tbs (by omega)
  have start := @sduStart_eq dci m tbs
  have first_eq := @sduFirst_eq dci m tbs tbidx
  unfold HeadersCovered
  dsimp only
  generalize (if tbidx = 0 then (placeCes m.pendingCes [] tbs).2.1.length else 0) = first at *
  have cut_up := @SduRound.run_eq_cut first (sduStart dci m tbs) [] (by rw [start]; rfl)
    (by rw [start]; dsimp only; omega)
  rw [produced_eq, entries, nil_append, writtenSize_ces, first_eq, cut_up.1, start]
  rw [serviceOrder_pendingCes]
  obtain ⟨proper, account⟩ := @cut_accounts first m.serviceOrder (serviceOrder_pos m) []
    (placeCes m.pendingCes [] tbs).2.2.toNat (by intro p mem; contradiction)
  generalize cut first m.serviceOrder [] (placeCes m.pendingCes [] tbs).2.2.toNat = filled at *
  have nothing : Pieces.charged [] = 0 := rfl
  by_cases some_piece : filled.1 = []
  · rw [some_piece]
    have empty : writtenSize (Pieces.sdus []) = 0 := rfl
    have no_short : shortHeaders [] = 0 := rfl
    constructor
    · intro _
      omega
    · intro _
      omega
  · have written := writtenSize_sdus proper some_piece
    omega

theorem macPduFits_iff (dci : Phy.DciDl) (m : LchUeManager) (tbs : Nat) (tbidx : TbIdx) (int : tbs < 2147483648) :
    MacPduFits dci m tbs tbidx ↔ HeadersCovered m tbs tbidx := by
  refine ⟨fun fits => (size_iff int).mp fits.size, fun covered => ?_⟩
  obtain ⟨taken, entries, total, left⟩ := placeCes_spec m.pendingCes [] tbs (by omega)
  refine ⟨(size_iff int).mpr covered, ?_, ?_, ?_, ?_⟩
  · exact ⟨(sduStart dci m tbs).run (sduFirst dci m tbs tbidx), SduRound.reaches_run, SduRound.next_run, rfl⟩
  · rw [ceFill_rem]
    exact left
  · intro s visited
    refine SduRound.noUnderflow_of_reaches ?_ visited
    rw [sduStart_eq]
    dsimp only
    omega
  · exact @SduRound.drawnFrom_run (sduFirst dci m tbs tbidx) (sduStart dci m tbs)

end Fill

def SduRound.rounds (first : Nat) : Nat → SduRound → Option SduRound
  | 0, s => some s
  | n + 1, s => (s.next first).bind (SduRound.rounds first n)

theorem SduRound.run_of_rounds {first n : Nat} {s t : SduRound} (through : s.rounds first n = some t)
    (done : t.next first = none) : s.run first = t := by
  induction n generalizing s with
  | zero =>
    obtain rfl := Option.some.inj through
    rw [run]
    split
    · rfl
    · rename_i round
      rw [done] at round
      contradiction
  | succ n ih =>
    obtain ⟨s', round, later⟩ := Option.bind_eq_some_iff.mp through
    rw [run]
    split
    · rename_i absent
      rw [absent] at round
      contradiction
    · rename_i found
      obtain rfl := Option.some.inj (round.symm.trans found)
      exact ih later

def threeBearers : LchUeManager :=
  { channels := fun lcid =>
      if 3 ≤ lcid ∧ lcid ≤ 5 then { direction := .both, priority := 4, bufTx := 125, bj := intMax } else {} }

theorem threeBearers_overflow : ¬MacPduFits { rnti := 70, format := .format1 } threeBearers 277 0 := by
  intro fits
  have size := fits.size
  have rounds : ((sduStart { rnti := 70, format := .format1 } threeBearers 277).rounds 0 3).map
      (fun t => (t.sdus, (t.next 0).isNone)) = some ([⟨3, 128⟩, ⟨4, 128⟩, ⟨5, 15⟩], true) := by decide +kernel
  obtain ⟨t, through, last⟩ := Option.map_eq_some_iff.mp rounds
  obtain ⟨sdus, done⟩ := Prod.mk.inj last
  rw [produced_eq, sduFirst_eq] at size
  have run := SduRound.run_of_rounds through (Option.isNone_iff_eq_none.mp done)
  have first_eq : (if (0 : TbIdx) = 0 then (placeCes threeBearers.pendingCes [] (277 : Nat)).2.1.length else 0) = 0 := rfl
  rw [first_eq, run, sdus] at size
  exact absurd size (by decide)

def oneBearer : LchUeManager :=
  { channels := fun lcid => if lcid = 3 then { direction := .both, priority := 4, bufTx := 125, bj := intMax } else {} }

theorem oneBearer_covered : HeadersCovered oneBearer 277 0 := by
  have chosen : oneBearer.getMaxPrioLcid = some 3 := by decide
  have alone : (oneBearer.drawNext 3).serviceOrder = [] := serviceOrder_none (by decide)
  unfold HeadersCovered
  dsimp only
  rw [serviceOrder_some chosen, alone]
  decide

theorem oneBearer_fits : MacPduFits { rnti := 70, format := .format1 } oneBearer 277 0 :=
  (macPduFits_iff _ oneBearer 277 0 (by decide)).mpr oneBearer_covered

end IsrRan.Mac.Lte.SchedLch
