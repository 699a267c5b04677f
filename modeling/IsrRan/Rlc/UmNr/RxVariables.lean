import IsrRan.Lib.ModWindow
import IsrRan.Rlc.UmNr.Safety

namespace IsrRan.Rlc.UmNr
open Lib List Nat OrderedMap

theorem SnSize.mod_eq (snSize : SnSize) : snSize.mod = 2 * snSize.umWindowSize := by
  cases snSize <;> rfl

theorem SnSize.umWindowSize_pos (snSize : SnSize) : 0 < snSize.umWindowSize := by
  cases snSize <;> decide

namespace Rx

variable {rx rx' : Rx}

abbrev raised (rx : Rx) (sn : Nat) : Rx := { rx with rxNextHighest := (sn + 1) % rx.mod }

def offset (rx : Rx) (sn : Nat) : Nat :=
  modOffset rx.snSize.mod ((rx.rxNextHighest + rx.snSize.umWindowSize) % rx.snSize.mod) sn

variable {sn k : Nat} {sns : List Nat} {rxPdu : UmdPdu}

theorem modBase_eq (rx : Rx) (hh : rx.rxNextHighest < rx.snSize.mod)
    (hsn : sn ≤ rx.snSize.mod) : rx.modBase sn = rx.offset sn := by
  unfold modBase offset modOffset u32Sub Rx.mod Rx.umWindowSize
  cases size : rx.snSize <;> simp only [size, SnSize.mod, SnSize.umWindowSize] at * <;> omega

theorem modBase_lowerEdge (rx : Rx) (hh : rx.rxNextHighest < rx.snSize.mod) :
    rx.modBase (u32Sub rx.rxNextHighest rx.umWindowSize) = 0 := by
  unfold modBase u32Sub Rx.mod Rx.umWindowSize
  cases size : rx.snSize <;> simp only [size, SnSize.mod, SnSize.umWindowSize] at * <;> omega

theorem offset_rxNextHighest (rx : Rx) :
    rx.offset rx.rxNextHighest = rx.snSize.umWindowSize := by
  unfold offset modOffset
  cases size : rx.snSize <;> simp only [SnSize.mod, SnSize.umWindowSize] at * <;> omega

theorem offset_lt (rx : Rx) (sn : Nat) : rx.offset sn < rx.snSize.mod :=
  modOffset_lt (by have := rx.snSize.mod_eq; have := rx.snSize.umWindowSize_pos; omega)

theorem offset_injective {sn' : Nat} (hsn : sn < rx.snSize.mod) (hsn' : sn' < rx.snSize.mod)
    (same : rx.offset sn = rx.offset sn') : sn = sn' :=
  modOffset_injective (mod_lt _ (by omega)) hsn hsn' same

theorem snInReassemblyWindow_eq (hh : rx.rxNextHighest < rx.snSize.mod) {sn : Nat}
    (hsn : sn < rx.snSize.mod) :
    rx.snInReassemblyWindow sn = decide (rx.offset sn < rx.snSize.umWindowSize) := by
  unfold snInReassemblyWindow
  rw [modBase_lowerEdge rx hh, modBase_eq rx hh (Nat.le_of_lt hsn), modBase_eq rx hh (Nat.le_of_lt hh),
    offset_rxNextHighest]
  simp

theorem snInvalidForRxBuffer_eq (hh : rx.rxNextHighest < rx.snSize.mod)
    (hr : rx.rxNextReassembly < rx.snSize.mod) (hsn : sn < rx.snSize.mod) :
    rx.snInvalidForRxBuffer sn = decide (rx.offset sn < rx.offset rx.rxNextReassembly) := by
  unfold snInvalidForRxBuffer
  rw [modBase_lowerEdge rx hh, modBase_eq rx hh (Nat.le_of_lt hsn), modBase_eq rx hh (Nat.le_of_lt hr)]
  simp

theorem offset_move (beyond : rx.snSize.umWindowSize ≤ rx.offset sn) (x : Nat) :
    (rx.raised sn).offset x =
      (rx.offset x + rx.snSize.mod - (rx.offset sn + 1 - rx.snSize.umWindowSize)) % rx.snSize.mod := by
  unfold offset modOffset raised Rx.mod at *
  cases size : rx.snSize <;> simp only [size, SnSize.mod, SnSize.umWindowSize] at * <;> omega

def InRange (rx : Rx) (sn : Nat) : Prop :=
  sn < rx.snSize.mod ∧ rx.offset rx.rxNextReassembly ≤ rx.offset sn ∧
    rx.offset sn < rx.snSize.umWindowSize

structure VariablesOrdered (rx : Rx) : Prop where
  nextHighest : rx.rxNextHighest < rx.snSize.mod
  nextReassembly : rx.rxNextReassembly < rx.snSize.mod ∧
    rx.offset rx.rxNextReassembly ≤ rx.snSize.umWindowSize
  window : ∀ sn ∈ rx.rxWindow.keys, rx.InRange sn

/-- `RX_Next_Reassembly` is the lowest SN held in modular order, or `RX_Next_Highest` if none is. -/
def ReassemblyLowest (rx : Rx) : Prop :=
  rx.rxWindow = [] ∧ rx.rxNextReassembly = rx.rxNextHighest ∨
    rx.rxNextReassembly ∈ rx.rxWindow.keys ∧
      ∀ sn ∈ rx.rxWindow.keys, rx.offset rx.rxNextReassembly ≤ rx.offset sn

def straddles (rx : Rx) (sns : List Nat) : Bool :=
  sns.any fun a => sns.any fun b => a < b && rx.modBase b < rx.modBase a

def completes (rx : Rx) (rxPdu : UmdPdu) : Bool :=
  match (rx.place rxPdu).rxWindow.find rxPdu.header.sn with
  | none => false
  | some pdu => ((assemble { pdu with segments := [] } pdu.segments).map Prod.fst).getD false

/-- The SNs among which `RX_Next_Reassembly` is chosen anew do not lie on both sides of the SN wrap. -/
def keepsOrder (rx : Rx) (payload : List Byte) (behind : List Byte := []) : Bool :=
  let header := (readDataPduHeader (payload ++ behind) rx.snSize).2
  if header.si = .fullSdu || rx.snInvalidForRxBuffer header.sn then true
  else if rx.completes ⟨header, stripPduHeader header payload⟩ then
    header.sn ≠ rx.rxNextReassembly || !rx.straddles (rx.rxWindow.keys.filter (· ≠ header.sn))
  else
    let moved := { rx with rxNextHighest := (header.sn + 1) % rx.mod }
    rx.snInReassemblyWindow header.sn || moved.snInReassemblyWindow rx.rxNextReassembly ||
      !moved.straddles ((header.sn :: rx.rxWindow.keys).filter moved.snInReassemblyWindow)

structure EdgesInv (rx : Rx) : Prop where
  nextHighest : rx.rxNextHighest < rx.snSize.mod
  nextReassembly : rx.rxNextReassembly < rx.snSize.mod
  bound : rx.offset rx.rxNextReassembly ≤ rx.snSize.umWindowSize
  sorted : rx.rxWindow.Sorted
  timerTrigger : rx.rxTimerTrigger < rx.snSize.mod

structure InvBut (free : Nat) (rx : Rx) : Prop extends EdgesInv rx where
  window : ∀ entry ∈ rx.rxWindow, entry.1 ≠ free → rx.InRange entry.1

structure WindowInv (rx : Rx) : Prop extends EdgesInv rx where
  window : ∀ entry ∈ rx.rxWindow, rx.InRange entry.1

structure Inv (rx : Rx) : Prop extends WindowInv rx where
  trigger : rx.reassemblyTimerRunning = true → rx.offset rx.rxTimerTrigger ≤ rx.snSize.umWindowSize

theorem WindowInv.ordered (h : rx.WindowInv) : rx.VariablesOrdered where
  nextHighest := h.nextHighest
  nextReassembly := ⟨h.nextReassembly, h.bound⟩
  window sn mem := by
    obtain ⟨entry, held, rfl⟩ := List.mem_map.mp mem
    exact h.window entry held

theorem straddles_eq_false :
    rx.straddles sns = false ↔ ∀ a ∈ sns, ∀ b ∈ sns, a < b → rx.modBase a ≤ rx.modBase b := by
  simp [straddles]

theorem head_lowest (hh : rx.rxNextHighest < rx.snSize.mod) {first : Nat × UmdPduSegments}
    {rest : OrderedMap UmdPduSegments} (sorted : OrderedMap.Sorted (first :: rest))
    (bound : ∀ entry ∈ first :: rest, entry.1 < rx.snSize.mod)
    (held : ∀ entry ∈ first :: rest, entry.1 ∈ sns) (aligned : rx.straddles sns = false) :
    ∀ entry ∈ first :: rest, rx.offset first.1 ≤ rx.offset entry.1 := by
  intro entry mem
  rcases List.mem_cons.mp mem with rfl | later
  · exact Nat.le_refl _
  · have lower := (List.pairwise_cons.mp sorted).1 entry later
    have ordered := straddles_eq_false.mp aligned first.1 (held first mem_cons_self) entry.1
      (held entry mem) lower
    rwa [modBase_eq rx hh (Nat.le_of_lt (bound first mem_cons_self)),
      modBase_eq rx hh (Nat.le_of_lt (bound entry mem))] at ordered

theorem advanceNextReassembly_other (other : sn ≠ rx.rxNextReassembly) :
    rx.advanceNextReassembly sn = rx := by
  rw [Rx.advanceNextReassembly, if_neg other]

theorem InvBut.advanceNextReassembly (h : rx.InvBut sn) (gone : sn ∉ rx.rxWindow.keys)
    (aligned : sn = rx.rxNextReassembly → rx.straddles rx.rxWindow.keys = false) :
    (rx.advanceNextReassembly sn).WindowInv ∧
      (sn = rx.rxNextReassembly → (rx.advanceNextReassembly sn).ReassemblyLowest) := by
  have window : ∀ entry ∈ rx.rxWindow, rx.InRange entry.1 := by
    intro entry mem
    refine h.window entry mem ?_
    rintro rfl
    exact gone (mem_map_of_mem mem)
  by_cases next : sn = rx.rxNextReassembly
  · subst next
    cases held : rx.rxWindow with
    | nil =>
      have moved : rx.advanceNextReassembly rx.rxNextReassembly =
          { rx with rxNextReassembly := rx.rxNextHighest } := by
        simp [Rx.advanceNextReassembly, held]
      rw [moved]
      refine ⟨⟨⟨h.nextHighest, h.nextHighest, ?_, h.sorted, h.timerTrigger⟩, ?_⟩,
        fun _ => .inl ⟨held, rfl⟩⟩
      · exact Nat.le_of_eq (offset_rxNextHighest rx)
      · simp [held]
    | cons first rest =>
      have inRange := window first (by simp [held])
      have above : rx.modBase rx.rxNextReassembly < rx.modBase first.1 := by
        rw [modBase_eq rx h.nextHighest (Nat.le_of_lt h.nextReassembly),
          modBase_eq rx h.nextHighest (Nat.le_of_lt inRange.1)]
        refine Nat.lt_of_le_of_ne inRange.2.1 fun same => gone ?_
        rw [offset_injective h.nextReassembly inRange.1 same, held]
        exact mem_cons_self
      have lowest : ∀ entry ∈ rx.rxWindow, rx.offset first.1 ≤ rx.offset entry.1 := by
        rw [held]
        exact head_lowest h.nextHighest (held ▸ h.sorted)
          (fun entry mem => (window entry (held ▸ mem)).1)
          (fun entry mem => mem_map_of_mem (held ▸ mem)) (aligned rfl)
      have moved : rx.advanceNextReassembly rx.rxNextReassembly =
          { rx with rxNextReassembly := first.1 } := by
        simp [Rx.advanceNextReassembly, held, above]
      rw [moved]
      refine ⟨⟨⟨h.nextHighest, inRange.1, Nat.le_of_lt inRange.2.2, h.sorted, h.timerTrigger⟩, ?_⟩,
        fun _ => .inr ⟨?_, ?_⟩⟩
      · intro entry mem
        exact ⟨(window entry mem).1, lowest entry mem, (window entry mem).2.2⟩
      · refine mem_map_of_mem ?_
        simp [held]
      · intro sn mem
        obtain ⟨entry, there, rfl⟩ := List.mem_map.mp mem
        exact lowest entry there
  · rw [advanceNextReassembly_other next]
    exact ⟨⟨h.toEdgesInv, window⟩, fun same => absurd same next⟩

theorem offset_moved (beyond : rx.snSize.umWindowSize ≤ rx.offset sn) :
    ∃ shift, 0 < shift ∧ shift ≤ rx.snSize.umWindowSize ∧ shift = rx.offset sn + 1 - rx.snSize.umWindowSize ∧
      ∀ x, (rx.raised sn).offset x =
        if shift ≤ rx.offset x then rx.offset x - shift else rx.offset x + rx.snSize.mod - shift := by
  have sn_lt := rx.offset_lt sn
  have size := rx.snSize.mod_eq
  refine ⟨rx.offset sn + 1 - rx.snSize.umWindowSize, by omega, by omega, rfl, fun x => ?_⟩
  have x_lt := rx.offset_lt x
  rw [offset_move beyond x]
  split
  · rw [show rx.offset x + rx.snSize.mod - (rx.offset sn + 1 - rx.snSize.umWindowSize) =
      rx.offset x - (rx.offset sn + 1 - rx.snSize.umWindowSize) + rx.snSize.mod by omega,
      add_mod_right, mod_eq_of_lt (by omega)]
  · exact mod_eq_of_lt (by omega)

theorem moveNextReassembly_windowInv (hh : rx.rxNextHighest < rx.snSize.mod)
    (hr : rx.rxNextReassembly < rx.snSize.mod) (ht : rx.rxTimerTrigger < rx.snSize.mod)
    (sorted : rx.rxWindow.Sorted) (nonempty : rx.rxWindow ≠ [])
    (window : ∀ entry ∈ rx.rxWindow, entry.1 < rx.snSize.mod ∧ rx.offset entry.1 < rx.snSize.umWindowSize)
    (above : rx.offset rx.rxNextReassembly < rx.snSize.umWindowSize →
      ∀ entry ∈ rx.rxWindow, rx.offset rx.rxNextReassembly ≤ rx.offset entry.1)
    (aligned : rx.snInReassemblyWindow rx.rxNextReassembly = false →
      rx.straddles rx.rxWindow.keys = false) : rx.moveNextReassembly.WindowInv := by
  by_cases stays : rx.snInReassemblyWindow rx.rxNextReassembly = true
  · rw [Rx.moveNextReassembly, if_pos stays]
    rw [snInReassemblyWindow_eq hh hr, decide_eq_true_eq] at stays
    exact ⟨⟨hh, hr, Nat.le_of_lt stays, sorted, ht⟩,
      fun entry mem => ⟨(window entry mem).1, above stays entry mem, (window entry mem).2⟩⟩
  · have aligned := aligned (Bool.not_eq_true _ ▸ stays)
    obtain ⟨first, rest, held⟩ := exists_cons_of_ne_nil nonempty
    have moved : rx.moveNextReassembly = { rx with rxNextReassembly := first.1 } := by
      rw [Rx.moveNextReassembly, if_neg stays, modBase_lowerEdge rx hh]
      simp [held]
    have inside := window first (by simp [held])
    have lowest : ∀ entry ∈ rx.rxWindow, rx.offset first.1 ≤ rx.offset entry.1 := by
      rw [held]
      exact head_lowest hh (held ▸ sorted) (fun entry mem => (window entry (held ▸ mem)).1)
        (fun entry mem => mem_map_of_mem (held ▸ mem)) aligned
    rw [moved]
    exact ⟨⟨hh, inside.1, Nat.le_of_lt inside.2, sorted, ht⟩,
      fun entry mem => ⟨(window entry mem).1, lowest entry mem, (window entry mem).2⟩⟩

theorem InvBut.moveWindow (h : rx.InvBut sn) (hsn : sn < rx.snSize.mod)
    (there : sn ∈ rx.rxWindow.keys) (accepted : rx.offset rx.rxNextReassembly ≤ rx.offset sn)
    (aligned : rx.snInReassemblyWindow sn = false →
      (rx.raised sn).snInReassemblyWindow rx.rxNextReassembly = false →
      (rx.raised sn).straddles (rx.rxWindow.keys.filter (rx.raised sn).snInReassemblyWindow) = false) :
    (rx.moveWindow sn).WindowInv := by
  have above : ∀ entry ∈ rx.rxWindow, entry.1 < rx.snSize.mod ∧
      rx.offset rx.rxNextReassembly ≤ rx.offset entry.1 := by
    intro entry mem
    by_cases same : entry.1 = sn
    · exact same ▸ ⟨hsn, accepted⟩
    · exact ⟨(h.window entry mem same).1, (h.window entry mem same).2.1⟩
  unfold Rx.moveWindow
  rw [snInReassemblyWindow_eq h.nextHighest hsn] at aligned ⊢
  split
  · rename_i inside
    refine ⟨h.toEdgesInv, fun entry mem => ⟨(above entry mem).1, (above entry mem).2, ?_⟩⟩
    by_cases same : entry.1 = sn
    · exact same ▸ of_decide_eq_true inside
    · exact (h.window entry mem same).2.2
  · rename_i outside
    rw [decide_eq_true_eq, Nat.not_lt] at outside
    have aligned := aligned (decide_eq_false (Nat.not_lt.mpr outside))
    have size := rx.snSize.mod_eq
    have hh : (sn + 1) % rx.mod < rx.snSize.mod := mod_lt _ (by unfold Rx.mod; omega)
    obtain ⟨shift, positive, small, shift_eq, offsets⟩ := offset_moved outside
    have inWindow : ∀ x < rx.snSize.mod,
        (rx.raised sn).snInReassemblyWindow x = decide ((rx.raised sn).offset x < rx.snSize.umWindowSize) :=
      fun x hx => @snInReassemblyWindow_eq (rx.raised sn) hh x hx
    have kept : ∀ entry ∈ (rx.raised sn).dropOutsideWindow.rxWindow,
        entry ∈ rx.rxWindow ∧
          (rx.raised sn).offset entry.1 < rx.snSize.umWindowSize := by
      intro entry mem
      obtain ⟨mem, inside⟩ := List.mem_filter.mp mem
      exact ⟨mem, by rwa [inWindow _ (above entry mem).1, decide_eq_true_eq] at inside⟩
    refine moveNextReassembly_windowInv hh h.nextReassembly h.timerTrigger (h.sorted.filter _) ?_ ?_ ?_ ?_
    · obtain ⟨entry, mem, rfl⟩ := List.mem_map.mp there
      refine ne_nil_of_mem (List.mem_filter.mpr ⟨mem, ?_⟩ :
        entry ∈ (rx.raised entry.1).dropOutsideWindow.rxWindow)
      rw [inWindow _ hsn, offsets, if_pos (by omega), decide_eq_true_eq]
      omega
    · exact fun entry mem => ⟨(above entry (kept entry mem).1).1, (kept entry mem).2⟩
    · intro stays entry mem
      have order := (above entry (kept entry mem).1).2
      change (rx.raised sn).offset rx.rxNextReassembly < rx.snSize.umWindowSize at stays
      change (rx.raised sn).offset rx.rxNextReassembly ≤ (rx.raised sn).offset entry.1
      rw [offsets] at stays
      rw [offsets, offsets]
      split at stays
      · rename_i remains
        rw [if_pos remains, if_pos (Nat.le_trans remains order)]
        omega
      · omega
    · intro leaves
      have := aligned leaves
      rw [straddles_eq_false] at this ⊢
      have keys : ∀ a ∈ (rx.raised sn).dropOutsideWindow.rxWindow.keys,
          a ∈ rx.rxWindow.keys.filter (rx.raised sn).snInReassemblyWindow := by
        intro a mem
        obtain ⟨entry, held, rfl⟩ := List.mem_map.mp mem
        obtain ⟨held, inside⟩ := List.mem_filter.mp held
        exact List.mem_filter.mpr ⟨mem_map_of_mem held, inside⟩
      exact fun a ha b hb lower => this a (keys a ha) b (keys b hb) lower

theorem WindowInv.withTimer (h : rx.WindowInv) {trigger : Nat} (running : Bool)
    (ht : trigger < rx.snSize.mod) :
    ({ rx with reassemblyTimerRunning := running, rxTimerTrigger := trigger } : Rx).WindowInv :=
  ⟨⟨h.nextHighest, h.nextReassembly, h.bound, h.sorted, ht⟩, h.window⟩

theorem WindowInv.stopReassemblyTimer (h : rx.WindowInv) : rx.stopReassemblyTimer.Inv := by
  unfold Rx.stopReassemblyTimer
  split
  · exact ⟨h.withTimer false h.timerTrigger, by simp⟩
  · rename_i runs
    refine ⟨h, fun running => ?_⟩
    simp only [running, Bool.true_and, Bool.or_eq_true, not_or, Bool.and_eq_true, not_and,
      Bool.not_eq_true', decide_eq_true_eq, Decidable.not_not] at runs
    cases inside : rx.snInReassemblyWindow rx.rxTimerTrigger with
    | true =>
      rw [snInReassemblyWindow_eq h.nextHighest h.timerTrigger, decide_eq_true_eq] at inside
      exact Nat.le_of_lt inside
    | false => 
        rw [runs.1.2 inside]
        exact Nat.le_of_eq (offset_rxNextHighest rx)

theorem Inv.startReassemblyTimer (h : rx.Inv) : rx.startReassemblyTimer.Inv := by
  unfold Rx.startReassemblyTimer
  split
  · exact ⟨h.withTimer true h.nextHighest, fun _ => Nat.le_of_eq (offset_rxNextHighest rx)⟩
  · exact h

theorem timers_eq (rx : Rx) : ∃ running trigger, rx.stopReassemblyTimer.startReassemblyTimer =
    { rx with reassemblyTimerRunning := running, rxTimerTrigger := trigger } := by
  unfold Rx.startReassemblyTimer
  split <;> unfold Rx.stopReassemblyTimer <;> split
  · exact ⟨_, _, rfl⟩
  · exact ⟨_, _, rfl⟩
  · exact ⟨_, _, rfl⟩
  · exact ⟨rx.reassemblyTimerRunning, rx.rxTimerTrigger, rfl⟩

theorem straddles_mono {sns' : List Nat} (sub : ∀ sn ∈ sns, sn ∈ sns')
    (aligned : rx.straddles sns' = false) : rx.straddles sns = false := by
  rw [straddles_eq_false] at aligned ⊢
  exact fun a ha b hb lower => aligned a (sub a ha) b (sub b hb) lower

theorem InvBut.insertOrAssign (h : rx.InvBut sn) (entry : UmdPduSegments) :
    ({ rx with rxWindow := rx.rxWindow.insertOrAssign sn entry } : Rx).InvBut sn := by
  refine ⟨⟨h.nextHighest, h.nextReassembly, h.bound, h.sorted.insertOrAssign sn entry, h.timerTrigger⟩, ?_⟩
  intro e mem different
  rcases mem_insertOrAssign mem with rfl | ⟨mem, _⟩
  · exact absurd rfl different
  · exact h.window e mem different

theorem mem_keys_insertOrAssign {entry : UmdPduSegments} {m : OrderedMap UmdPduSegments}
    (mem : k ∈ (m.insertOrAssign sn entry).keys) : k ∈ sn :: m.keys := by
  obtain ⟨e, held, rfl⟩ := List.mem_map.mp mem
  rcases mem_insertOrAssign held with rfl | ⟨old, _⟩
  · exact mem_cons_self
  · exact mem_cons_of_mem _ (mem_map_of_mem old)

theorem Inv.place (h : rx.Inv) (rxPdu : UmdPdu) : (rx.place rxPdu).InvBut rxPdu.header.sn :=
  InvBut.insertOrAssign ⟨h.toEdgesInv, fun entry mem _ => h.window entry mem⟩ _

theorem mem_keys_place (mem : k ∈ (rx.place rxPdu).rxWindow.keys) :
    k ∈ rxPdu.header.sn :: rx.rxWindow.keys := mem_keys_insertOrAssign mem

theorem ReassemblyLowest.timers (h : rx.ReassemblyLowest) :
    rx.stopReassemblyTimer.startReassemblyTimer.ReassemblyLowest := by
  obtain ⟨running, trigger, eq⟩ := timers_eq rx
  rw [eq]
  exact h

theorem timers_rxNextReassembly (rx : Rx) :
    rx.stopReassemblyTimer.startReassemblyTimer.rxNextReassembly = rx.rxNextReassembly := by
  obtain ⟨running, trigger, eq⟩ := timers_eq rx
  rw [eq]

theorem InvBut.erase (h : rx.InvBut sn) :
    ({ rx with rxWindow := rx.rxWindow.erase sn } : Rx).InvBut sn :=
  ⟨⟨h.nextHighest, h.nextReassembly, h.bound, h.sorted.filter _, h.timerTrigger⟩,
    fun e mem => h.window e (OrderedMap.mem_erase.mp mem).1⟩

theorem mem_keys_erase {m : OrderedMap UmdPduSegments} (mem : k ∈ (m.erase sn).keys) :
    k ∈ m.keys ∧ k ≠ sn := by
  obtain ⟨e, held, rfl⟩ := List.mem_map.mp mem
  obtain ⟨held, different⟩ := OrderedMap.mem_erase.mp held
  exact ⟨mem_map_of_mem held, different⟩

theorem Inv.completed (h : rx.Inv)
    (aligned : rxPdu.header.sn = rx.rxNextReassembly →
      rx.straddles (rx.rxWindow.keys.filter (· ≠ rxPdu.header.sn)) = false) :
    (({ rx.place rxPdu with rxWindow := (rx.place rxPdu).rxWindow.erase rxPdu.header.sn } : Rx)
        |>.advanceNextReassembly rxPdu.header.sn).WindowInv ∧
      (rxPdu.header.sn = rx.rxNextReassembly →
        (({ rx.place rxPdu with rxWindow := (rx.place rxPdu).rxWindow.erase rxPdu.header.sn } : Rx)
          |>.advanceNextReassembly rxPdu.header.sn).ReassemblyLowest) := by
  refine (h.place rxPdu).erase.advanceNextReassembly ?_ ?_
  · exact fun mem => (mem_keys_erase mem).2 rfl
  · intro next
    refine straddles_mono (fun k mem => ?_) (aligned next)
    obtain ⟨held, different⟩ := mem_keys_erase mem
    rcases List.mem_cons.mp (mem_keys_place held) with same | old
    · exact absurd same different
    · exact List.mem_filter.mpr ⟨old, by simpa using different⟩

theorem Inv.incomplete (h : rx.Inv) (hsn : rxPdu.header.sn < rx.snSize.mod)
    (accepted : rx.offset rx.rxNextReassembly ≤ rx.offset rxPdu.header.sn)
    (aligned : rx.snInReassemblyWindow rxPdu.header.sn = false →
      (rx.raised rxPdu.header.sn).snInReassemblyWindow rx.rxNextReassembly = false →
      (rx.raised rxPdu.header.sn).straddles ((rxPdu.header.sn :: rx.rxWindow.keys).filter
          (rx.raised rxPdu.header.sn).snInReassemblyWindow) = false)
    (entry : UmdPduSegments) :
    (({ rx.place rxPdu with
        rxWindow := (rx.place rxPdu).rxWindow.insertOrAssign rxPdu.header.sn entry } : Rx)
      |>.moveWindow rxPdu.header.sn).WindowInv := by
  refine ((h.place rxPdu).insertOrAssign entry).moveWindow hsn ?_ accepted ?_
  · exact mem_map_of_mem (mem_place_self _ _ _)
  · intro outside leaves
    refine straddles_mono (fun k mem => ?_) (aligned outside leaves)
    obtain ⟨held, inside⟩ := List.mem_filter.mp mem
    refine List.mem_filter.mpr ⟨?_, inside⟩
    rcases List.mem_cons.mp (mem_keys_insertOrAssign held) with rfl | old
    · exact mem_cons_self
    · exact mem_keys_place old

theorem Inv.handleSegment (h : rx.Inv) {sdus : List Sdu}
    (hsn : rxPdu.header.sn < rx.snSize.mod)
    (accepted : rx.offset rx.rxNextReassembly ≤ rx.offset rxPdu.header.sn)
    (whole : rx.completes rxPdu = true → rxPdu.header.sn = rx.rxNextReassembly →
      rx.straddles (rx.rxWindow.keys.filter (· ≠ rxPdu.header.sn)) = false)
    (part : rx.completes rxPdu = false → rx.snInReassemblyWindow rxPdu.header.sn = false →
      (rx.raised rxPdu.header.sn).snInReassemblyWindow rx.rxNextReassembly = false →
      (rx.raised rxPdu.header.sn).straddles ((rxPdu.header.sn :: rx.rxWindow.keys).filter
          (rx.raised rxPdu.header.sn).snInReassemblyWindow) = false)
    (update : (rx.place rxPdu).handleRxBufferUpdate rxPdu.header.sn = some (rx', sdus)) :
    rx'.Inv ∧
      (rx'.rxNextReassembly ≠ rx.rxNextReassembly → sdus ≠ [] → rx'.ReassemblyLowest) := by
  unfold completes at whole part
  unfold Rx.handleRxBufferUpdate at update
  cases found : (rx.place rxPdu).rxWindow.find rxPdu.header.sn with
  | none =>
    have := find_insertOrAssign rx.rxWindow rxPdu.header.sn
    simp [Rx.place, this] at found
  | some pdu =>
    rw [found] at update whole part
    dsimp only at update whole part
    cases done : assemble { pdu with segments := [] } pdu.segments with
    | none => simp [done] at update
    | some out =>
      obtain ⟨complete, pdu'⟩ := out
      rw [done] at update whole part
      cases complete with
      | true =>
        obtain ⟨rfl, -⟩ := update
        obtain ⟨window, lowest⟩ := h.completed (whole rfl)
        refine ⟨window.stopReassemblyTimer.startReassemblyTimer, fun moved _ => ?_⟩
        by_cases next : rxPdu.header.sn = rx.rxNextReassembly
        · exact (lowest next).timers
        · refine absurd ?_ moved
          rw [timers_rxNextReassembly]
          refine (congrArg Rx.rxNextReassembly (advanceNextReassembly_other ?_)).trans rfl
          exact next
      | false =>
        obtain ⟨rfl, rfl⟩ := update
        have window := h.incomplete hsn accepted (part rfl) pdu'
        exact ⟨window.stopReassemblyTimer.startReassemblyTimer, by simp⟩

theorem eq_withReassembly (same : rx.rxNextReassembly = sn) :
    rx = { rx with rxNextReassembly := sn } := by
  subst same
  rfl

theorem catchUpReassembly_eq (hh : rx.rxNextHighest < rx.snSize.mod)
    (hr : rx.rxNextReassembly < rx.snSize.mod)
    (bound : rx.offset rx.rxNextReassembly ≤ rx.snSize.umWindowSize) {fuel : Nat}
    (enough : rx.snSize.umWindowSize ≤ rx.offset rx.rxNextReassembly + fuel) :
    rx.catchUpReassembly fuel = { rx with rxNextReassembly := rx.rxNextHighest } := by
  have size := rx.snSize.mod_eq
  have positive := rx.snSize.umWindowSize_pos
  have top := offset_rxNextHighest rx
  have reached : rx.snSize.umWindowSize ≤ rx.offset rx.rxNextReassembly →
      rx = { rx with rxNextReassembly := rx.rxNextHighest } := by
    intro reached
    exact eq_withReassembly (offset_injective hr hh (by omega))
  induction fuel generalizing rx with
  | zero => exact reached enough
  | succ fuel ih =>
    unfold catchUpReassembly
    rw [modBase_eq rx hh (Nat.le_of_lt hr), modBase_eq rx hh (Nat.le_of_lt hh)]
    split
    · rename_i below
      have next : rx.offset ((rx.rxNextReassembly + 1) % rx.mod) = rx.offset rx.rxNextReassembly + 1 :=
        modOffset_succ (mod_lt _ (by omega)) hr
          (by change rx.offset rx.rxNextReassembly + 1 < rx.snSize.mod; omega)
      have hr' : (rx.rxNextReassembly + 1) % rx.mod < rx.snSize.mod := mod_lt _ (by unfold Rx.mod; omega)
      refine ih hh hr' ?_ ?_ size positive top ?_
      · change rx.offset ((rx.rxNextReassembly + 1) % rx.mod) ≤ rx.snSize.umWindowSize
        omega
      · change rx.snSize.umWindowSize ≤ rx.offset ((rx.rxNextReassembly + 1) % rx.mod) + fuel
        omega
      · intro reached
        change rx.snSize.umWindowSize ≤ rx.offset ((rx.rxNextReassembly + 1) % rx.mod) at reached
        have same := offset_injective hr' hh (by omega)
        rw [same]
    · exact reached (by omega)

theorem Inv.timerExpired (h : rx.Inv) (expired : rx.timerExpired = some rx') : rx'.Inv := by
  unfold Rx.timerExpired at expired
  split at expired
  · rename_i running
    obtain rfl := Option.some.inj expired
    refine Inv.startReassemblyTimer ?_
    have triggered := h.trigger running
    have caughtUp : ({ rx with
        reassemblyTimerRunning := false, rxNextReassembly := rx.rxTimerTrigger } : Rx).catchUpReassembly
          rx.mod = { rx with reassemblyTimerRunning := false, rxNextReassembly := rx.rxNextHighest } := by
      refine @catchUpReassembly_eq { rx with
        reassemblyTimerRunning := false, rxNextReassembly := rx.rxTimerTrigger } h.nextHighest
        h.timerTrigger triggered rx.mod ?_
      have := rx.snSize.mod_eq
      change rx.snSize.umWindowSize ≤ _ + rx.snSize.mod
      omega
    change (Rx.discardBeforeReassembly (Rx.catchUpReassembly _ rx.mod)).Inv
    rw [caughtUp]
    have gone : ({ rx with reassemblyTimerRunning := false, rxNextReassembly := rx.rxNextHighest } :
        Rx).discardBeforeReassembly.rxWindow = [] := by
      refine List.filter_eq_nil_iff.mpr fun entry mem => ?_
      have inRange := h.window entry mem
      change ¬ (!decide (rx.modBase entry.1 < rx.modBase rx.rxNextHighest)) = true
      rw [modBase_eq rx h.nextHighest (Nat.le_of_lt inRange.1),
        modBase_eq rx h.nextHighest (Nat.le_of_lt h.nextHighest), offset_rxNextHighest]
      simpa using inRange.2.2
    refine ⟨⟨⟨h.nextHighest, h.nextHighest, ?_, ?_, h.timerTrigger⟩, ?_⟩, by
      simp [Rx.discardBeforeReassembly]⟩
    · exact Nat.le_of_eq (offset_rxNextHighest rx)
    · exact gone ▸ List.Pairwise.nil
    · rw [gone]
      simp
  · contradiction

theorem readDataPduHeader_sn_lt (payload : List Byte) (snSize : SnSize) :
    (readDataPduHeader payload snSize).2.sn < snSize.mod := by
  have small : byteAt payload 1 < 256 := by
    exact UInt8.toNat_lt _
  have readSo_sn : ∀ pos header, (readSo payload pos header).2.sn = header.sn := by
    intro pos header
    unfold readSo
    split <;> rfl
  unfold readDataPduHeader
  cases snSize <;> dsimp only [SnSize.mod]
  · split
    · exact mod_lt _ (by decide)
    · rw [readSo_sn]
      exact mod_lt _ (by decide)
  · repeat' split
    · dsimp only
      omega
    · dsimp only
      omega
    · dsimp only
      omega
    · rw [readSo_sn]
      dsimp only
      omega

theorem Inv.handleDataPdu (h : rx.Inv) {payload behind : List Byte} {sdus : List Sdu}
    (ok : rx.keepsOrder payload behind = true) (done : rx.handleDataPdu payload behind = some (rx', sdus)) :
    rx'.Inv ∧
      (rx'.rxNextReassembly ≠ rx.rxNextReassembly → sdus ≠ [] → rx'.ReassemblyLowest) := by
  have hsn := readDataPduHeader_sn_lt (payload ++ behind) rx.snSize
  unfold Rx.handleDataPdu at done
  unfold keepsOrder at ok
  generalize (readDataPduHeader (payload ++ behind) rx.snSize).2 = header at *
  dsimp only at done ok
  by_cases full : header.si = .fullSdu
  · rw [if_pos full] at done
    obtain ⟨rfl, rfl⟩ := Prod.mk.inj (Option.some.inj done)
    exact ⟨h, by simp⟩
  · rw [if_neg full] at done
    cases old : rx.snInvalidForRxBuffer header.sn with
    | true =>
      rw [old] at done
      obtain ⟨rfl, rfl⟩ := Prod.mk.inj (Option.some.inj done)
      exact ⟨h, by simp⟩
    | false =>
      rw [old] at done ok
      simp only [full, decide_false, Bool.or_self, Bool.false_eq_true, if_false] at ok
      rw [snInvalidForRxBuffer_eq h.nextHighest h.nextReassembly hsn, decide_eq_false_iff_not,
        Nat.not_lt] at old
      refine h.handleSegment hsn old ?_ ?_ (by simpa using done)
      · intro whole next
        have next : header.sn = rx.rxNextReassembly := next
        rw [if_pos whole] at ok
        simpa [next] using ok
      · intro part outside leaves
        rw [if_neg (Bool.not_eq_true _ ▸ part)] at ok
        simpa [outside, leaves] using ok

end Rx

inductive RxEvent where
  | receive (payload : List Byte) (behind : List Byte := [])
  | timerExpired

namespace Rx

def next (rx : Rx) : RxEvent → Option Rx
  | .receive payload behind => (rx.handleDataPdu payload behind).map Prod.fst
  | .timerExpired => rx.timerExpired

def keepsOrderOn (rx : Rx) : RxEvent → Bool
  | .receive payload behind => rx.keepsOrder payload behind
  | .timerExpired => true

theorem inv_new (snSize : SnSize) : ({ snSize } : Rx).Inv := by
  have := snSize.mod_eq
  have positive : 0 < snSize.mod := by
    have := snSize.umWindowSize_pos
    omega
  exact ⟨⟨⟨positive, positive, Nat.le_of_eq (offset_rxNextHighest { snSize }), List.Pairwise.nil,
    positive⟩, by simp⟩, by simp⟩

theorem inv_of_reaches {snSize : SnSize} {rx : Rx}
    (run : Reaches next (fun rx e => rx.keepsOrderOn e = true) { snSize } rx) : rx.Inv := by
  refine run.invariant (inv_new snSize) fun rx e rx' h ok eq => ?_
  cases e with
  | receive payload behind =>
    obtain ⟨out, done, rfl⟩ := Option.map_eq_some_iff.mp eq
    exact (h.handleDataPdu ok done).1
  | timerExpired => exact h.timerExpired eq

theorem nextReassembly_ordered {snSize : SnSize} {rx : Rx}
    (run : Reaches next (fun rx e => rx.keepsOrderOn e = true) { snSize } rx) :
    rx.VariablesOrdered ∧
      ∀ payload behind rx' sdus, rx.keepsOrder payload behind = true →
        rx.handleDataPdu payload behind = some (rx', sdus) →
        rx'.rxNextReassembly ≠ rx.rxNextReassembly → sdus ≠ [] → rx'.ReassemblyLowest :=
  ⟨(inv_of_reaches run).ordered,
    fun _ _ _ _ ok done => ((inv_of_reaches run).handleDataPdu ok done).2⟩

def steadyRun : List RxEvent :=
  [.receive [0x54, 1], .receive [0x68, 1, 2], .receive [0x7E, 1], .receive [0xA8, 0, 2, 3]]

theorem nextReassembly_ordered_steadyRun :
    ∃ rx : Rx, runAllowed next keepsOrderOn { snSize := .size6bits } steadyRun = some rx ∧
      rx.rxNextReassembly = 62 ∧ rx.rxWindow.keys = [62] ∧ rx.VariablesOrdered := by
  have run : ∃ rx : Rx, runAllowed next keepsOrderOn { snSize := .size6bits } steadyRun = some rx ∧
      rx.rxNextReassembly = 62 ∧ rx.rxWindow.keys = [62] := ⟨_, rfl, rfl, rfl⟩
  obtain ⟨rx, run, found⟩ := run
  exact ⟨rx, run, found.1, found.2, (nextReassembly_ordered (reaches_of_runAllowed steadyRun run)).1⟩

def wrappingRun : List RxEvent := [.receive [0x5F, 1], .receive [0x7E, 1], .receive [0x41, 1]]

theorem wrappingRun_skips :
    ¬ ∀ (snSize : SnSize) (rx : Rx), Reaches next (fun _ _ => True) { snSize } rx →
      rx.VariablesOrdered := by
  intro ordered
  have run : ∃ rx : Rx, runAllowed next (fun _ _ => true) { snSize := .size6bits } wrappingRun = some rx ∧
      rx.rxWindow.keys = [1, 62] ∧ rx.offset rx.rxNextReassembly = 31 ∧ rx.offset 62 = 28 :=
    ⟨_, rfl, rfl, rfl, rfl⟩
  obtain ⟨rx, run, keys, next, skipped⟩ := run
  have reached := (reaches_of_runAllowed wrappingRun run).mono fun _ _ _ => trivial
  have := ((ordered .size6bits rx reached).window 62 (by simp [keys])).2.1
  omega

end Rx

end IsrRan.Rlc.UmNr
