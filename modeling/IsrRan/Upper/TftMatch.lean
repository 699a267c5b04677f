import IsrRan.Upper.TftComponents

/-! What the matcher finds out about the components that the constructor has kept. -/

namespace IsrRan.Upper.Tft
open List TftPacketFilter Pdu

/-! ### The tests -/

def WholeKinds (mask : Nat) : Prop :=
  ∀ c d : Component, c.slot = d.slot → c.flag &&& mask ≠ 0 → d.flag &&& mask ≠ 0

section
variable {f₀ f : TftPacketFilter} {cs : List Component} {pdu : Bytes} {mask : Nat}

theorem filterContains_iff (empty : f₀.activeFilters = 0) (stored : storeAll cs f₀ = .ok f)
    (kinds : WholeKinds mask) : f.filterContains mask = true ↔ ∃ c ∈ effective cs, c.flag &&& mask ≠ 0 := by
  unfold filterContains
  rw [decide_eq_true_iff, storeAll_flags stored, empty]
  constructor
  · rintro (none_ | ⟨c, mem, set⟩)
    · exact absurd (Nat.zero_and mask) none_
    · obtain ⟨d, memD, same⟩ := exists_effective mem
      exact ⟨d, memD, kinds c d same.symm set⟩
  · rintro ⟨c, mem, set⟩
    exact .inr ⟨c, mem_of_mem_effective mem, set⟩

theorem guarded_iff {test : Prop} (empty : f₀.activeFilters = 0) (stored : storeAll cs f₀ = .ok f)
    (kinds : WholeKinds mask)
    (same : ∀ c ∈ effective cs, c.flag &&& mask ≠ 0 → Agrees f c → (test ↔ c.tested pdu = true)) :
    (f.filterContains mask = true → test) ↔ ∀ c ∈ effective cs, c.flag &&& mask ≠ 0 → c.tested pdu = true := by
  have agrees := storeAll_agrees stored
  rw [filterContains_iff empty stored kinds]
  constructor
  · intro made c mem set
    exact (same c mem set (agrees c mem)).mp (made ⟨c, mem, set⟩)
  · rintro all ⟨c, mem, set⟩
    exact (same c mem set (agrees c mem)).mpr (all c mem set)

theorem not_guarded_iff (a b : Bool) : (!(a && !b)) = true ↔ (a = true → b = true) := by
  cases a <;> cases b <;> decide

theorem not_guarded_ne_iff {p : Prop} [Decidable p] (a : Bool) : (!(a && decide ¬p)) = true ↔ (a = true → p) := by
  rw [decide_not, not_guarded_iff, decide_eq_true_iff]

theorem flag_of_slot {c d : Component} (same : c.slot = d.slot) :
    c.flag = d.flag ∨ (c.flag = 4 ∧ d.flag = 8) ∨ (c.flag = 8 ∧ d.flag = 4) := by
  cases c <;> cases d <;>
    first | exact .inl rfl | exact .inr (.inl ⟨rfl, rfl⟩) | exact .inr (.inr ⟨rfl, rfl⟩) | cases same

theorem wholeKinds_of (remote : 4 &&& mask ≠ 0 ↔ 8 &&& mask ≠ 0) : WholeKinds mask := by
  intro c d same set
  rcases flag_of_slot same with eq | ⟨first_, second⟩ | ⟨first_, second⟩
  · rwa [← eq]
  · rw [first_] at set
    rw [second]
    exact remote.mp set
  · rw [first_] at set
    rw [second]
    exact remote.mpr set

end

/-! ### The loop over an IPv6 address -/

section
variable {f : TftPacketFilter} {pdu : Bytes} {length left : Nat} {c : Component}

abbrev ByteMatches (f : TftPacketFilter) (pdu : Bytes) (i : Nat) : Prop :=
  (f.ipv6RemoteAddr i ^^^ daddr6 pdu i) &&& f.ipv6RemoteAddrMask i = 0

theorem loop_true (short : length ≤ 16) (within : left ≤ length) (same : ∀ i < length, ByteMatches f pdu i) :
    f.matchIpv6Remote pdu length left = .ok true := by
  induction left with
  | zero => rfl
  | succ left ih =>
    rw [matchIpv6Remote]
    rw [if_neg (by omega), if_neg (not_not.mpr (same _ (by omega)))]
    exact ih (by omega)

theorem loop_false {i : Nat} (within : left ≤ length) (later : length - left ≤ i) (inside : i < length)
    (small : i < 16) (differs : ¬ByteMatches f pdu i) : f.matchIpv6Remote pdu length left = .ok false := by
  induction left with
  | zero => omega
  | succ left ih =>
    rw [matchIpv6Remote]
    rw [if_neg (by omega)]
    by_cases here : ByteMatches f pdu (length - (left + 1))
    · rw [if_neg (not_not.mpr here)]
      apply ih (by omega)
      have other : i ≠ length - (left + 1) := by
        rintro rfl
        exact differs here
      omega
    · exact if_pos here

theorem loop_error (long : 16 < length) (within : left ≤ length) (before : length - left ≤ 16)
    (same : ∀ i < 16, ByteMatches f pdu i) : f.matchIpv6Remote pdu length left = .error .undefinedBehaviour := by
  induction left with
  | zero => omega
  | succ left ih =>
    rw [matchIpv6Remote]
    by_cases outside : 16 ≤ length - (left + 1)
    · exact if_pos outside
    · rw [if_neg outside, if_neg (not_not.mpr (same _ (by omega)))]
      exact ih (by omega) (by omega)

theorem satisfied_prefix_iff {addr : Bytes} (six : version pdu = 6)
    (agrees : Agrees f (.ipv6RemoteAddrLength addr length)) :
    (Component.ipv6RemoteAddrLength addr length).satisfied pdu = true ↔ ∀ i < 16, ByteMatches f pdu i := by
  obtain ⟨rfl, mask, -, bounded⟩ := agrees
  show (decide (version pdu = 6) && samePrefix length f.ipv6RemoteAddr (daddr6 pdu)) = true ↔ _
  rw [decide_eq_true six, Bool.true_and, samePrefix_iff bounded, ← mask]

theorem matchIpv6Remote_eq (six : version pdu = 6) (agrees : Agrees f c) (kind : c.slot = .ipv6Remote)
    (fits : c.overruns pdu = false) :
    f.matchIpv6Remote pdu f.ipv6RemoteAddrLength f.ipv6RemoteAddrLength = .ok (c.tested pdu) := by
  cases c
  case ipv6RemoteAddr addr mask =>
    obtain ⟨rfl, rfl, length⟩ := agrees
    have test : (Component.ipv6RemoteAddr f.ipv6RemoteAddr f.ipv6RemoteAddrMask).tested pdu =
        (List.range 16).all fun i => (f.ipv6RemoteAddr i ^^^ daddr6 pdu i) &&& f.ipv6RemoteAddrMask i = 0 := by
      simp [Component.tested, Component.passedOver, Component.satisfied, Component.slot, six]
    rw [length, test]
    cases all : (List.range 16).all fun i =>
        decide ((f.ipv6RemoteAddr i ^^^ daddr6 pdu i) &&& f.ipv6RemoteAddrMask i = 0) with
    | true =>
      rw [all_eq_true] at all
      exact loop_true (Nat.le_refl 16) (Nat.le_refl 16) fun i inside =>
        of_decide_eq_true (all i (List.mem_range.mpr inside))
    | false =>
      obtain ⟨i, mem, differs⟩ := List.all_eq_false.mp all
      have inside := List.mem_range.mp mem
      exact @loop_false f pdu 16 16 i (Nat.le_refl 16) (Nat.zero_le i) inside inside
        fun same => differs (decide_eq_true same)
  case ipv6RemoteAddrLength addr length =>
    have satisfied := satisfied_prefix_iff six agrees
    have test : (Component.ipv6RemoteAddrLength addr length).tested pdu =
        (Component.ipv6RemoteAddrLength addr length).satisfied pdu := by
      simp [Component.tested, Component.passedOver, Component.slot, six]
    obtain ⟨-, mask, eq, -⟩ := agrees
    rw [eq, test]
    have masked : ∀ i, length ≤ i → ByteMatches f pdu i := by
      intro i beyond
      unfold ByteMatches
      rw [mask, prefixMask_beyond beyond, UInt8.and_zero]
    cases meets : (Component.ipv6RemoteAddrLength addr length).satisfied pdu with
    | true =>
      have short : length ≤ 16 := by
        by_contra long
        have over_ : (Component.ipv6RemoteAddrLength addr length).overruns pdu = true := by
          show (decide (16 < length) && (Component.ipv6RemoteAddrLength addr length).satisfied pdu) = true
          rw [meets, decide_eq_true (by omega), Bool.true_and]
        exact absurd (over_.symm.trans fits) nofun
      exact loop_true short (Nat.le_refl _) fun i inside => satisfied.mp meets i (by omega)
    | false =>
      obtain ⟨i, small, differs⟩ : ∃ i < 16, ¬ByteMatches f pdu i := by
        by_contra none_
        have all : ∀ i < 16, ByteMatches f pdu i := by
          intro i small
          by_contra differs
          exact none_ ⟨i, small, differs⟩
        exact absurd ((satisfied.mpr all).symm.trans meets) nofun
      have inside : i < length := by
        by_contra beyond
        exact differs (masked i (by omega))
      exact @loop_false f pdu length length i (Nat.le_refl _) (by omega) inside small differs
  all_goals cases kind

theorem matchIpv6Remote_overruns (agrees : Agrees f c) (over_ : c.overruns pdu = true) :
    f.matchIpv6Remote pdu f.ipv6RemoteAddrLength f.ipv6RemoteAddrLength = .error .undefinedBehaviour := by
  cases c
  case ipv6RemoteAddrLength addr length =>
    obtain ⟨long, meets⟩ := Bool.and_eq_true_iff.mp over_
    have six : version pdu = 6 := of_decide_eq_true (Bool.and_eq_true_iff.mp meets).1
    have same := (satisfied_prefix_iff six agrees).mp meets
    obtain ⟨-, -, eq, -⟩ := agrees
    rw [eq]
    exact loop_error (of_decide_eq_true long) (Nat.le_refl _) (by omega) same
  all_goals cases over_

end

/-! ### What the matcher finds -/

def Passed (cs : List Component) (pdu : Bytes) (mask : Nat) : Prop :=
  ∀ c ∈ effective cs, c.flag &&& mask ≠ 0 → c.tested pdu = true

section
variable {f₀ f : TftPacketFilter} {cs : List Component} {pdu : Bytes}

theorem flag_mono {flags part mask : Nat} (within : part &&& mask = part) (set : flags &&& part ≠ 0) :
    flags &&& mask ≠ 0 := by
  intro zero
  apply set
  rw [← within, Nat.and_comm part mask, ← Nat.and_assoc, zero, Nat.zero_and]

theorem passed_split {mask a b : Nat} (kinds : ∀ c : Component, c.flag &&& mask ≠ 0 →
      c.tested pdu = true ∨ c.flag &&& a ≠ 0 ∨ c.flag &&& b ≠ 0) (inA : a &&& mask = a) (inB : b &&& mask = b) :
    Passed cs pdu mask ↔ Passed cs pdu a ∧ Passed cs pdu b := by
  constructor
  · intro passed
    exact ⟨fun c mem set => passed c mem (flag_mono inA set), fun c mem set => passed c mem (flag_mono inB set)⟩
  · rintro ⟨first_, second⟩ c mem set
    rcases kinds c set with passed | set | set
    · exact passed
    · exact first_ c mem set
    · exact second c mem set

variable (empty : f₀.activeFilters = 0) (stored : storeAll cs f₀ = .ok f)
include empty stored

theorem matchIp_four (four : version pdu = 4) :
    ∃ b, f.matchIp pdu = .ok b ∧ (b = true ↔ Passed cs pdu ipFlags) := by
  have kinds : ∀ c : Component, c.flag &&& ipFlags ≠ 0 →
      c.tested pdu = true ∨ c.flag &&& 1 <<< 1 ≠ 0 ∨ c.flag &&& 1 ≠ 0 := by
    intro c set
    cases c <;> simp_all [Component.flag, Component.tested, Component.passedOver, ipFlags]
  have local_ := @guarded_iff f₀ f cs pdu (1 <<< 1) (saddr pdu &&& f.ipv4LocalAddrMask =
    f.ipv4LocalAddr &&& f.ipv4LocalAddrMask) empty stored (wholeKinds_of (by decide)) (by
      intro c _ set agrees
      cases c <;> simp_all [Component.flag, Component.tested, Component.passedOver, Component.satisfied, Agrees])
  have remote := @guarded_iff f₀ f cs pdu 1 (daddr pdu &&& f.ipv4RemoteAddrMask =
    f.ipv4RemoteAddr &&& f.ipv4RemoteAddrMask) empty stored (wholeKinds_of (by decide)) (by
      intro c _ set agrees
      cases c <;> simp_all [Component.flag, Component.tested, Component.passedOver, Component.satisfied, Agrees])
  refine ⟨_, if_pos four, ?_⟩
  rw [Bool.and_eq_true_iff, not_guarded_ne_iff, not_guarded_ne_iff, local_, remote]
  exact (passed_split kinds (by decide) (by decide)).symm

theorem matchIp_six (six : version pdu = 6)
    (fits : ∀ c ∈ effective cs, c.overruns pdu = false) :
    ∃ b, f.matchIp pdu = .ok b ∧ (b = true ↔ Passed cs pdu ipFlags) := by
  have agrees := storeAll_agrees stored
  have four : ¬version pdu = 4 := by omega
  have kinds : ∀ c : Component, c.flag &&& ipFlags ≠ 0 →
      c.tested pdu = true ∨ c.slot = .ipv6Remote := by
    intro c set
    cases c <;> simp_all [Component.flag, Component.tested, Component.passedOver, Component.slot,
      ipFlags]
  have remote : ∀ c : Component, c.flag &&& (1 <<< 2 ||| 1 <<< 3) ≠ 0 ↔ c.slot = .ipv6Remote := by
    intro c
    cases c <;> simp [Component.flag, Component.slot]
  have flags := @filterContains_iff f₀ f cs (1 <<< 2 ||| 1 <<< 3) empty stored (wholeKinds_of (by decide))
  unfold matchIp
  rw [if_neg four, if_pos six]
  by_cases contains : f.filterContains (1 <<< 2 ||| 1 <<< 3) = true
  · rw [if_pos contains]
    obtain ⟨c, mem, set⟩ := flags.mp contains
    have loop := matchIpv6Remote_eq six (agrees c mem) ((remote c).mp set) (fits c mem)
    refine ⟨_, loop, ?_⟩
    constructor
    · intro passed d memD setD
      rcases kinds d setD with ok | kind
      · exact ok
      · have same := matchIpv6Remote_eq six (agrees d memD) kind (fits d memD)
        rw [← Except.ok.inj (loop.symm.trans same)]
        exact passed
    · intro passed
      apply passed c mem
      cases c <;> simp_all [Component.flag, ipFlags]
  · rw [if_neg contains]
    refine ⟨true, rfl, ?_⟩
    apply iff_of_true rfl
    intro c mem set
    rcases kinds c set with ok | kind
    · exact ok
    · exact absurd (flags.mpr ⟨c, mem, (remote c).mpr kind⟩) contains

theorem matchProtocol_iff (version : version pdu = 4 ∨ version pdu = 6) :
    (!(f.filterContains (1 <<< 5) && !f.matchProtocol pdu)) = true ↔ Passed cs pdu (1 <<< 5) := by
  rw [not_guarded_iff]
  apply guarded_iff empty stored (wholeKinds_of (by decide))
  intro c _ set agrees
  unfold matchProtocol
  cases c <;> simp_all [Component.flag, Component.tested, Component.passedOver, Component.satisfied, Component.slot,
    Agrees]

theorem matchTypeOfService_iff (version : version pdu = 4 ∨ version pdu = 6) :
    (!(f.filterContains (1 <<< 11) && !f.matchTypeOfService pdu)) = true ↔ Passed cs pdu (1 <<< 11) := by
  rw [not_guarded_iff]
  apply guarded_iff empty stored (wholeKinds_of (by decide))
  intro c _ set agrees
  unfold matchTypeOfService
  rcases version with four | six
  · cases c <;> simp_all [Component.flag, Component.tested, Component.passedOver, Component.satisfied, Agrees,
    trafficClass]
  · cases c <;> simp_all [Component.flag, Component.tested, Component.passedOver, Component.slot]

theorem matchPort_local (ports : hasPorts pdu = true) :
    (f.filterContains (1 <<< 6) = true → source pdu = f.singleLocalPort) ↔ Passed cs pdu (1 <<< 6) := by
  apply guarded_iff empty stored (wholeKinds_of (by decide))
  intro c _ set agrees
  cases c <;> simp_all [Component.flag, Component.tested, Component.passedOver, Component.satisfied,
    Component.slot, Agrees]

theorem matchPort_remote (ports : hasPorts pdu = true) :
    (f.filterContains (1 <<< 8) = true → dest pdu = f.singleRemotePort) ↔ Passed cs pdu (1 <<< 8) := by
  apply guarded_iff empty stored (wholeKinds_of (by decide))
  intro c _ set agrees
  cases c <;> simp_all [Component.flag, Component.tested, Component.passedOver, Component.satisfied,
    Component.slot, Agrees]

theorem matchPort_iff (version : version pdu = 4 ∨ version pdu = 6) :
    (!(f.filterContains portFlags && !f.matchPort pdu)) = true ↔
      Passed cs pdu portFlags := by
  have flags := @filterContains_iff f₀ f cs portFlags empty stored (wholeKinds_of (by decide))
  rw [not_guarded_iff]
  unfold matchPort
  rw [if_pos version]
  cases ports : hasPorts pdu with
  | false =>
    constructor
    · intro made c mem set
      exact absurd (made (flags.mpr ⟨c, mem, set⟩)) Bool.false_ne_true
    · intro passed contains
      obtain ⟨c, mem, set⟩ := flags.mp contains
      have tested := passed c mem set
      cases c <;> simp_all [Component.flag, Component.tested, Component.passedOver, Component.satisfied,
        portFlags]
  | true =>
    have kinds : ∀ c : Component, c.flag &&& portFlags ≠ 0 →
        c.tested pdu = true ∨ c.flag &&& 1 <<< 6 ≠ 0 ∨ c.flag &&& 1 <<< 8 ≠ 0 := by
      intro c set
      cases c <;> simp_all [Component.flag, Component.tested, Component.passedOver, portFlags]
    have split : Passed cs pdu portFlags ↔ _ := passed_split kinds (by decide) (by decide)
    rw [Bool.true_and, Bool.and_eq_true_iff, not_guarded_ne_iff, not_guarded_ne_iff,
      matchPort_local empty stored ports, matchPort_remote empty stored ports]
    constructor
    · intro made c mem set
      exact split.mpr (made (flags.mpr ⟨c, mem, set⟩)) c mem set
    · intro passed _
      exact split.mp passed

theorem activeFilters_eq_zero_iff :
    f.activeFilters = 0 ↔ cs = [] := by
  constructor
  · intro zero
    cases cs with
    | nil => rfl
    | cons c cs =>
      have set : c.flag &&& 8191 ≠ 0 := by cases c <;> simp [Component.flag]
      have flags := (storeAll_flags stored 8191).mpr (.inr ⟨c, mem_cons_self, set⟩)
      exact absurd (zero ▸ Nat.zero_and 8191) flags
  · rintro rfl
    obtain rfl := Except.ok.inj stored
    exact empty

omit empty stored in
theorem all_tested_iff : (∀ c ∈ effective cs, c.tested pdu = true) ↔
    Passed cs pdu ipFlags ∧ Passed cs pdu (1 <<< 5) ∧ Passed cs pdu portFlags ∧
      Passed cs pdu (1 <<< 11) := by
  constructor
  · intro all
    exact ⟨fun c mem _ => all c mem, fun c mem _ => all c mem, fun c mem _ => all c mem, fun c mem _ => all c mem⟩
  · rintro ⟨ip, protocol, ports, service⟩ c mem
    have ip := ip c mem
    have protocol := protocol c mem
    have ports := ports c mem
    have service := service c mem
    cases c <;> simp_all [Component.flag, Component.tested, Component.satisfied, Component.slot,
      ipFlags, portFlags]

theorem matches_eq (version : version pdu = 4 ∨ version pdu = 6) (fits : ∀ c ∈ effective cs, c.overruns pdu = false) :
    ∃ b, f.matches_ pdu = .ok b ∧ (b = true ↔ cs ≠ [] ∧ ∀ c ∈ effective cs, c.tested pdu = true) := by
  have none_ := activeFilters_eq_zero_iff empty stored
  unfold matches_
  by_cases zero : f.activeFilters = 0
  · rw [if_pos zero]
    exact ⟨false, rfl, iff_of_false Bool.false_ne_true fun both => both.1 (none_.mp zero)⟩
  · have some_ : cs ≠ [] := fun nil => zero (none_.mpr nil)
    obtain ⟨ip, matched, ipPassed⟩ :
        ∃ b, f.matchIp pdu = .ok b ∧ (b = true ↔ Passed cs pdu ipFlags) := by
      rcases version with four | six
      · exact matchIp_four empty stored four
      · exact matchIp_six empty stored six fits
    have address : ∃ b, (if f.filterContains ipFlags then f.matchIp pdu else .ok true) = .ok b ∧
        (b = true ↔ Passed cs pdu ipFlags) := by
      have flags := @filterContains_iff f₀ f cs ipFlags empty stored (wholeKinds_of (by decide))
      by_cases contains : f.filterContains ipFlags = true
      · exact ⟨ip, by rw [if_pos contains, matched], ipPassed⟩
      · refine ⟨true, if_neg contains, iff_of_true rfl ?_⟩
        intro c mem set
        exact absurd (flags.mpr ⟨c, mem, set⟩) contains
    obtain ⟨b, eq, passed⟩ := address
    rw [if_neg zero, eq]
    cases b with
    | false =>
      refine ⟨false, rfl, iff_of_false Bool.false_ne_true ?_⟩
      rintro ⟨-, all⟩
      exact absurd (passed.mpr (all_tested_iff.mp all).1) Bool.false_ne_true
    | true =>
      refine ⟨_, rfl, ?_⟩
      rw [Bool.and_eq_true_iff, Bool.and_eq_true_iff, matchProtocol_iff empty stored version,
        matchPort_iff empty stored version, matchTypeOfService_iff empty stored version, all_tested_iff]
      tauto

theorem matches_overruns {c : Component}
    (mem : c ∈ effective cs) (over_ : c.overruns pdu = true) : f.matches_ pdu = .error .undefinedBehaviour := by
  have flags : ∀ mask, WholeKinds mask → c.flag &&& mask ≠ 0 → f.filterContains mask = true := by
    intro mask kinds set
    exact (filterContains_iff empty stored kinds).mpr ⟨c, mem, set⟩
  have loop := matchIpv6Remote_overruns (storeAll_agrees stored c mem) over_
  cases c
  case ipv6RemoteAddrLength addr length =>
    obtain ⟨long, meets⟩ := Bool.and_eq_true_iff.mp over_
    have six : version pdu = 6 := of_decide_eq_true (Bool.and_eq_true_iff.mp meets).1
    have some_ : f.activeFilters ≠ 0 := by
      intro zero
      have nil := (activeFilters_eq_zero_iff empty stored).mp zero
      rw [nil] at mem
      exact not_mem_nil mem
    have remote := flags (1 <<< 2 ||| 1 <<< 3) (wholeKinds_of (by decide)) (show 8 &&& 12 ≠ 0 by decide)
    have ip := flags ipFlags (wholeKinds_of (by decide)) (show 8 &&& 31 ≠ 0 by decide)
    have error : f.matchIp pdu = .error .undefinedBehaviour := by
      unfold matchIp
      rw [if_neg (by omega), if_pos six, if_pos remote, loop]
    unfold matches_
    rw [if_neg some_, if_pos ip, error]
  all_goals cases over_

end

/-! When the filters of the map match just the packets that satisfy them, and which of them is chosen. -/

/-! ### The filters of the map -/

structure Accepted where
  epsBearerId : Nat
  id : Nat
  evalPrecedence : Nat
  contents : Bytes
  filterSize : Nat
  built : TftPacketFilter.Built
  constructed :
    construct contents filterSize filterSize 0 { epsBearerId, id, evalPrecedence } = .ok built
  known : built.rejected = false

namespace Accepted
variable (a : Accepted) (pdu : Bytes)

def fresh : TftPacketFilter where
  epsBearerId := a.epsBearerId
  id := a.id
  evalPrecedence := a.evalPrecedence

theorem empty : a.fresh.activeFilters = 0 := rfl

def components : List Component := (Tft.contents a.contents a.filterSize a.filterSize 0).1

def satisfied : Bool := a.components.all fun c => c.satisfied pdu

/-- The reads stay inside, and the filter matches just the packets that satisfy all of it. -/
structure Meets : Prop where
  inside : a.built.idx ≤ a.filterSize
  exact : a.built.filter.matches_ pdu = .ok (a.satisfied pdu)

def Ignored (c : Component) : Prop := c ∈ a.components ∧ (c ∉ effective a.components ∨ c.passedOver pdu = true)

def Refuted : Prop := ∃ c ∈ effective a.components, c.passedOver pdu = false ∧ c.satisfied pdu = false

def AsksTrafficClass : Prop := version pdu = 6 ∧ ∃ c ∈ a.components, c.slot = .service

structure HoldsWhen : Prop where
  whole : a.built.idx ≤ a.filterSize
  some_ : a.components ≠ []
  short : ∀ c ∈ effective a.components, c.overruns pdu = false
  balanced : ¬a.Refuted pdu → (a.AsksTrafficClass pdu ↔ ∃ c, a.Ignored pdu c ∧ c.satisfied pdu = false)

theorem stored : storeAll a.components a.fresh = .ok a.built.filter := by
  have constructed : construct a.contents a.filterSize a.filterSize 0 a.fresh = .ok a.built :=
    a.constructed
  rw [construct_eq] at constructed
  unfold components
  cases all : storeAll (Tft.contents a.contents a.filterSize a.filterSize 0).1 a.fresh with
  | error e =>
    rw [all] at constructed
    cases constructed
  | ok f =>
    rw [all] at constructed
    rw [← Except.ok.inj constructed]

variable {a pdu}

theorem satisfied_iff : a.satisfied pdu = true ↔ ∀ c ∈ a.components, c.satisfied pdu = true := all_eq_true

theorem satisfied_iff_of_not_refuted (passed : ¬a.Refuted pdu) :
    a.satisfied pdu = true ↔ ¬∃ c, a.Ignored pdu c ∧ c.satisfied pdu = false := by
  rw [satisfied_iff]
  constructor
  · rintro all ⟨c, ignored, fails⟩
    rw [all c ignored.1] at fails
    cases fails
  · intro none_ c mem
    by_contra fails
    rw [Bool.not_eq_true] at fails
    by_cases kept : c ∈ effective a.components
    · cases test : c.passedOver pdu with
      | false => exact passed ⟨c, kept, test, fails⟩
      | true => exact none_ ⟨c, ⟨mem, .inr test⟩, fails⟩
    · exact none_ ⟨c, ⟨mem, .inl kept⟩, fails⟩

theorem tested_iff_of_not_refuted (passed : ¬a.Refuted pdu) :
    (∀ c ∈ effective a.components, c.tested pdu = true) ↔ ¬a.AsksTrafficClass pdu := by
  constructor
  · rintro all ⟨six, c, mem, service⟩
    obtain ⟨d, memD, same⟩ := exists_effective mem
    have tested := all d memD
    cases d <;> simp_all [Component.tested, Component.passedOver, Component.slot]
  · intro none_ c mem
    unfold Component.tested
    cases over_ : c.passedOver pdu with
    | true => rfl
    | false =>
      cases meets : c.satisfied pdu with
      | false => exact absurd ⟨c, mem, over_, meets⟩ passed
      | true =>
        rw [Bool.false_or, Bool.true_and, Bool.not_eq_true', Bool.and_eq_false_iff]
        by_contra both
        rw [not_or, Bool.not_eq_false, Bool.not_eq_false] at both
        exact none_ ⟨of_decide_eq_true both.2, c, mem_of_mem_effective mem, of_decide_eq_true both.1⟩

theorem Refuted.fails (refuted : a.Refuted pdu) :
    a.satisfied pdu = false ∧ ¬∀ c ∈ effective a.components, c.tested pdu = true := by
  obtain ⟨c, mem, over_, fails⟩ := refuted
  constructor
  · rw [← Bool.not_eq_true, satisfied_iff]
    intro all
    rw [all c (mem_of_mem_effective mem)] at fails
    cases fails
  · intro all
    have tested := all c mem
    unfold Component.tested at tested
    rw [over_, fails] at tested
    cases tested

theorem not_meets_nil (nil : a.components = []) : ¬a.Meets pdu := by
  intro meets
  have exact_ := meets.exact
  unfold matches_ satisfied at exact_
  rw [if_pos ((activeFilters_eq_zero_iff a.empty a.stored).mpr nil), nil] at exact_
  cases exact_

theorem meets_iff (version : version pdu = 4 ∨ version pdu = 6) : a.Meets pdu ↔ a.HoldsWhen pdu := by
  by_cases fits : ∀ c ∈ effective a.components, c.overruns pdu = false
  · obtain ⟨b, matched, passed⟩ := matches_eq a.empty a.stored version fits
    by_cases nil : a.components = []
    · exact iff_of_false (not_meets_nil nil) fun holds => holds.some_ nil
    · have result : a.Meets pdu ↔ a.built.idx ≤ a.filterSize ∧ b = a.satisfied pdu := by
        constructor
        · intro meets
          exact ⟨meets.inside, Except.ok.inj (matched.symm.trans meets.exact)⟩
        · rintro ⟨inside, rfl⟩
          exact ⟨inside, matched⟩
      rw [result]
      by_cases refuted : a.Refuted pdu
      · obtain ⟨fails, untested⟩ := refuted.fails
        have unmatched : b = false := by
          rw [← Bool.not_eq_true, passed]
          exact fun both => untested both.2
        constructor
        · rintro ⟨inside, -⟩
          exact ⟨inside, nil, fits, fun not_ => absurd refuted not_⟩
        · intro holds
          exact ⟨holds.whole, unmatched.trans fails.symm⟩
      · have asked := tested_iff_of_not_refuted refuted
        have ignored := satisfied_iff_of_not_refuted refuted
        have agree : b = a.satisfied pdu ↔
            (a.AsksTrafficClass pdu ↔ ∃ c, a.Ignored pdu c ∧ c.satisfied pdu = false) := by
          rw [Bool.eq_iff_iff, passed, ignored, asked, and_iff_right nil, not_iff_not]
        rw [agree]
        constructor
        · rintro ⟨inside, balanced⟩
          exact ⟨inside, nil, fits, fun _ => balanced⟩
        · intro holds
          exact ⟨holds.whole, holds.balanced refuted⟩
  · apply iff_of_false
    · intro meets
      apply fits
      intro c mem
      by_contra over_
      rw [Bool.not_eq_false] at over_
      have error := matches_overruns a.empty a.stored mem over_
      exact nomatch error.symm.trans meets.exact
    · exact fun holds => fits holds.short

end Accepted

/-! ### The filter that is chosen -/

def Ordered (map : List Accepted) : Prop := map.Pairwise fun a b => a.evalPrecedence < b.evalPrecedence

def filters (map : List Accepted) : List TftPacketFilter := map.map fun a => a.built.filter

def Selects (map : List Accepted) (pdu : Bytes) (bearer : Nat) : Prop :=
  (∃ a ∈ map, a.satisfied pdu = true ∧
    (∀ b ∈ map, b.satisfied pdu = true → a.evalPrecedence ≤ b.evalPrecedence) ∧
    checkTftFilterMatch pdu bearer (filters map) = .ok (0, a.epsBearerId)) ∨
  ((∀ a ∈ map, a.satisfied pdu = false) ∧ checkTftFilterMatch pdu bearer (filters map) = .ok (-1, bearer))

theorem selects_of_meets {map : List Accepted} {pdu : Bytes} (bearer : Nat) (ordered : Ordered map)
    (meets : ∀ a ∈ map, a.Meets pdu) : Selects map pdu bearer := by
  induction map with
  | nil => exact .inr ⟨fun a mem => absurd mem not_mem_nil, rfl⟩
  | cons a map ih =>
    obtain ⟨first_, later⟩ := List.pairwise_cons.mp ordered
    have exact_ := (meets a mem_cons_self).exact
    unfold Selects filters
    rw [map_cons, checkTftFilterMatch, exact_]
    cases sat : a.satisfied pdu with
    | true =>
      refine .inl ⟨a, mem_cons_self, sat, ?_, ?_⟩
      · intro b mem _
        rcases List.mem_cons.mp mem with rfl | mem
        · exact Nat.le_refl _
        · exact Nat.le_of_lt (first_ b mem)
      · show Except.ok (0, a.built.filter.epsBearerId) = _
        rw [(storeAll_names a.stored).1]
        rfl
    | false =>
      have rest_ := ih later fun b mem => meets b (mem_cons_of_mem a mem)
      rcases rest_ with ⟨c, memC, satC, least, eq⟩ | ⟨none_, eq⟩
      · refine .inl ⟨c, mem_cons_of_mem a memC, satC, ?_, eq⟩
        intro b mem satB
        rcases List.mem_cons.mp mem with rfl | mem
        · exact absurd (sat.symm.trans satB) Bool.false_ne_true
        · exact least b mem satB
      · refine .inr ⟨?_, eq⟩
        intro b mem
        rcases List.mem_cons.mp mem with rfl | mem
        · exact sat
        · exact none_ b mem

theorem filters_match_iff (map : List Accepted) (pdu : Bytes) (bearer : Nat) (ordered : Ordered map)
    (version : version pdu = 4 ∨ version pdu = 6) :
    ((∀ a ∈ map, a.Meets pdu) ∧ Selects map pdu bearer) ↔ ∀ a ∈ map, a.HoldsWhen pdu := by
  constructor
  · rintro ⟨meets, -⟩ a mem
    exact (Accepted.meets_iff version).mp (meets a mem)
  · intro holds
    have meets : ∀ a ∈ map, a.Meets pdu := fun a mem => (Accepted.meets_iff version).mpr (holds a mem)
    exact ⟨meets, selects_of_meets bearer ordered meets⟩

/-! ### Two filters -/

def bytesOf (bytes : List UInt8) (i : Nat) : UInt8 := bytes.getD i 0

def query : Bytes :=
  bytesOf [0x45, 0, 0, 28, 0, 0, 0, 0, 64, 17, 0, 0, 10, 0, 0, 1, 10, 0, 0, 2, 0x30, 0x39, 0, 53, 0, 8, 0, 0]

def dns : Accepted where
  epsBearerId := 6
  id := 1
  evalPrecedence := 0
  contents := bytesOf [0b00110000, 17, 0b01010000, 0, 53]
  filterSize := 5
  built := ⟨{
    epsBearerId := 6
    id := 1
    evalPrecedence := 0
    activeFilters := 288
    protocolId := 17
    singleRemotePort := 13568 }, 5, false⟩
  constructed := by rfl
  known := rfl

def range : Accepted where
  epsBearerId := 7
  id := 2
  evalPrecedence := 1
  contents := bytesOf [0b01010001, 0x03, 0xe8, 0x07, 0xd0]
  filterSize := 5
  built := ⟨{
    epsBearerId := 7
    id := 2
    evalPrecedence := 1
    activeFilters := 512
    remotePortRange := (53255, 59395) }, 5, false⟩
  constructed := by rfl
  known := rfl

theorem dns_holds : dns.HoldsWhen query where
  whole := Nat.le_refl 5
  some_ := nofun
  short := by
    intro c mem
    have mem : c ∈ [Component.protocolId 17, .singleRemotePort 13568] := mem
    rcases List.mem_pair.mp mem with rfl | rfl <;> rfl
  balanced := by
    intro _
    apply iff_of_false
    · rintro ⟨six, -⟩
      exact absurd six (by decide)
    · rintro ⟨c, ⟨mem, -⟩, fails⟩
      have mem : c ∈ [Component.protocolId 17, .singleRemotePort 13568] := mem
      rcases List.mem_pair.mp mem with rfl | rfl <;> cases fails

theorem filters_match_dns : (∀ a ∈ [dns], a.Meets query) ∧ Selects [dns] query 5 := by
  apply (filters_match_iff [dns] query 5 (pairwise_singleton _ dns) (.inl rfl)).mpr
  intro a mem
  obtain rfl := List.mem_singleton.mp mem
  exact dns_holds

theorem filters_match_range : Ordered [range] ∧ version query = 4 ∧ range.satisfied query = false ∧
    checkTftFilterMatch query 5 (filters [range]) = .ok (0, 7) ∧
      ¬((∀ a ∈ [range], a.Meets query) ∧ Selects [range] query 5) := by
  refine ⟨pairwise_singleton _ range, rfl, rfl, rfl, ?_⟩
  rintro ⟨meets, -⟩
  have exact_ : range.built.filter.matches_ query = .ok false := (meets range mem_cons_self).exact
  exact absurd (Except.ok.inj exact_) Bool.false_ne_true.symm

end IsrRan.Upper.Tft
