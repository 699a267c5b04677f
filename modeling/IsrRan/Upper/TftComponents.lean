import IsrRan.Common.Memory
import Mathlib.Tactic.IntervalCases

/-! The packet filters of a traffic flow template (tft_packet_filter.cc). Words are as memory holds them: ports and
IPv4 addresses in network order, read by a little-endian machine. -/

namespace IsrRan.Upper.Tft
open List Nat UInt8

abbrev Bytes := Nat → UInt8

def load16 (bytes : Bytes) (i : Nat) : Nat := (bytes i).toNat + 256 * (bytes (i + 1)).toNat

def load32 (bytes : Bytes) (i : Nat) : Nat := load16 bytes i + 65536 * load16 bytes (i + 2)

def ipv6AddrSize : Nat := 16

def udpProtocol : UInt8 := 0x11

def tcpProtocol : UInt8 := 0x06

inductive Component where
  | ipv4LocalAddr (addr mask : Nat)
  | ipv4RemoteAddr (addr mask : Nat)
  | ipv6RemoteAddr (addr mask : Bytes)
  | ipv6RemoteAddrLength (addr : Bytes) (length : Nat)
  | ipv6LocalAddrLength (addr : Bytes) (length : Nat)
  | singleLocalPort (port : Nat)
  | singleRemotePort (port : Nat)
  | localPortRange (first last : Nat)
  | remotePortRange (first last : Nat)
  | protocolId (protocol : UInt8)
  | typeOfService (service mask : UInt8)
  | flowLabel (label : Bytes)
  | securityParameterIndex (index : Nat)

def Component.flag : Component → Nat
  | ipv4RemoteAddr .. => 1
  | ipv4LocalAddr .. => 1 <<< 1
  | ipv6RemoteAddr .. => 1 <<< 2
  | ipv6RemoteAddrLength .. => 1 <<< 3
  | ipv6LocalAddrLength .. => 1 <<< 4
  | protocolId .. => 1 <<< 5
  | singleLocalPort .. => 1 <<< 6
  | localPortRange .. => 1 <<< 7
  | singleRemotePort .. => 1 <<< 8
  | remotePortRange .. => 1 <<< 9
  | securityParameterIndex .. => 1 <<< 10
  | typeOfService .. => 1 <<< 11
  | flowLabel .. => 1 <<< 12

def readComponent (filter : Bytes) (idx : Nat) : Option (Component × Nat) :=
  let at_ := idx + 1
  match (filter idx).toNat with
  | 0b00010001 => some (.ipv4LocalAddr (load32 filter at_) (load32 filter (at_ + 4)), at_ + 8)
  | 0b00010000 => some (.ipv4RemoteAddr (load32 filter at_) (load32 filter (at_ + 4)), at_ + 8)
  | 0b00100000 => some (.ipv6RemoteAddr (fun i => filter (at_ + i)) fun i => filter (at_ + 16 + i), at_ + 32)
  | 0b00100001 => some (.ipv6RemoteAddrLength (fun i => filter (at_ + i)) (filter (at_ + 16)).toNat, at_ + 17)
  | 0b00100011 => some (.ipv6LocalAddrLength (fun i => filter (at_ + i)) (filter (at_ + 16)).toNat, at_ + 17)
  | 0b01000000 => some (.singleLocalPort (load16 filter at_), at_ + 2)
  | 0b01010000 => some (.singleRemotePort (load16 filter at_), at_ + 2)
  | 0b01000001 => some (.localPortRange (load16 filter at_) (load16 filter (at_ + 2)), at_ + 4)
  | 0b01010001 => some (.remotePortRange (load16 filter at_) (load16 filter (at_ + 2)), at_ + 4)
  | 0b00110000 => some (.protocolId (filter at_), at_ + 1)
  | 0b01110000 => some (.typeOfService (filter at_) (filter (at_ + 1)), at_ + 2)
  | 0b10000000 => some (.flowLabel fun i => filter (at_ + i), at_ + 3)
  | 0b01100000 => some (.securityParameterIndex (load32 filter at_), at_ + 4)
  | _ => none

structure TftPacketFilter where
  epsBearerId : Nat
  id : Nat
  evalPrecedence : Nat
  activeFilters : Nat := 0
  ipv4RemoteAddr : Nat := 0
  ipv4RemoteAddrMask : Nat := 0
  ipv4LocalAddr : Nat := 0
  ipv4LocalAddrMask : Nat := 0
  ipv6RemoteAddr : Bytes := fun _ => 0
  ipv6RemoteAddrMask : Bytes := fun _ => 0
  ipv6RemoteAddrLength : Nat := 0
  ipv6LocalAddr : Bytes := fun _ => 0
  ipv6LocalAddrMask : Bytes := fun _ => 0
  ipv6LocalAddrLength : Nat := 0
  protocolId : UInt8 := 0
  singleLocalPort : Nat := 0
  localPortRange : Nat × Nat := (0, 0)
  singleRemotePort : Nat := 0
  remotePortRange : Nat × Nat := (0, 0)
  securityParameterIndex : Nat := 0
  typeOfService : UInt8 := 0
  typeOfServiceMask : UInt8 := 0
  flowLabel : Bytes := fun _ => 0

def prefixMask (length i : Nat) : UInt8 :=
  if i < length / 8 then 0xff
  else if i = length / 8 ∧ 0 < length % 8 then 0xff - (((1 : UInt8) <<< (8 - UInt8.ofNat (length % 8))) - 1)
  else 0

def inOrder (first last : Nat) : Nat × Nat := if last < first then (last, first) else (first, last)

namespace TftPacketFilter

def store (f : TftPacketFilter) (c : Component) : Except Fault TftPacketFilter :=
  let f := { f with activeFilters := f.activeFilters ||| c.flag }
  match c with
  | .ipv4LocalAddr addr mask =>
    .ok { f with
      ipv4LocalAddr := addr
      ipv4LocalAddrMask := mask }
  | .ipv4RemoteAddr addr mask =>
    .ok { f with
      ipv4RemoteAddr := addr
      ipv4RemoteAddrMask := mask }
  | .ipv6RemoteAddr addr mask =>
    .ok { f with
      ipv6RemoteAddr := addr
      ipv6RemoteAddrMask := mask
      ipv6RemoteAddrLength := ipv6AddrSize }
  | .ipv6RemoteAddrLength addr length =>
    if 128 < length then .error .undefinedBehaviour
    else .ok { f with
      ipv6RemoteAddr := addr
      ipv6RemoteAddrMask := prefixMask length
      ipv6RemoteAddrLength := length }
  | .ipv6LocalAddrLength addr length =>
    if 128 < length then .error .undefinedBehaviour
    else .ok { f with
      ipv6LocalAddr := addr
      ipv6LocalAddrMask := prefixMask length
      ipv6LocalAddrLength := length }
  | .singleLocalPort port => .ok { f with singleLocalPort := port }
  | .singleRemotePort port => .ok { f with singleRemotePort := port }
  | .localPortRange first last => .ok { f with localPortRange := inOrder first last }
  | .remotePortRange first last => .ok { f with remotePortRange := inOrder first last }
  | .protocolId protocol => .ok { f with protocolId := protocol }
  | .typeOfService service mask =>
    .ok { f with
      typeOfService := service
      typeOfServiceMask := mask }
  | .flowLabel label => .ok { f with flowLabel := label }
  | .securityParameterIndex index => .ok { f with securityParameterIndex := index }

/-- What a call of the constructor leaves: the filter, the place behind the last byte it has read, and whether it gave
up at a type it does not know. -/
structure Built where
  filter : TftPacketFilter
  idx : Nat
  rejected : Bool

def construct (filter : Bytes) (filterSize : Nat) : Nat → Nat → TftPacketFilter → Except Fault Built
  | 0, idx, f => .ok ⟨f, idx, false⟩
  | fuel + 1, idx, f =>
    if idx < filterSize then
      match readComponent filter idx with
      | none => .ok ⟨f, idx + 1, true⟩
      | some (c, next) =>
        match f.store c with
        | .error e => .error e
        | .ok f => construct filter filterSize fuel next f
    else .ok ⟨f, idx, false⟩

def filterContains (f : TftPacketFilter) (filtertype : Nat) : Bool := f.activeFilters &&& filtertype ≠ 0

end TftPacketFilter

/-! ### Packets -/

namespace Pdu
variable (pdu : Bytes)

def version : Nat := (pdu 0).toNat / 16

def ihl : Nat := (pdu 0).toNat % 16

def saddr : Nat := load32 pdu 12

def daddr : Nat := load32 pdu 16

def saddr6 (i : Nat) : UInt8 := pdu (8 + i)

def daddr6 (i : Nat) : UInt8 := pdu (24 + i)

def protocol : UInt8 := if version pdu = 4 then pdu 9 else pdu 6

def transport : Nat := if version pdu = 4 then ihl pdu * 4 else 40

def source : Nat := load16 pdu (transport pdu)

def dest : Nat := load16 pdu (transport pdu + 2)

def hasPorts : Bool := protocol pdu = udpProtocol || protocol pdu = tcpProtocol

end Pdu

namespace TftPacketFilter
variable (f : TftPacketFilter) (pdu : Bytes)

/-- The loop over the bytes of an IPv6 address, `i` of them behind it; it may run past the arrays. -/
def matchIpv6Remote (length : Nat) : Nat → Except Fault Bool
  | 0 => .ok true
  | left + 1 =>
    let i := length - (left + 1)
    if 16 ≤ i then .error .undefinedBehaviour
    else if (f.ipv6RemoteAddr i ^^^ Pdu.daddr6 pdu i) &&& f.ipv6RemoteAddrMask i ≠ 0 then .ok false
    else matchIpv6Remote length left

def matchIp : Except Fault Bool :=
  if Pdu.version pdu = 4 then
    .ok (!(f.filterContains (1 <<< 1) &&
        decide (Pdu.saddr pdu &&& f.ipv4LocalAddrMask ≠ f.ipv4LocalAddr &&& f.ipv4LocalAddrMask)) &&
      !(f.filterContains 1 &&
        decide (Pdu.daddr pdu &&& f.ipv4RemoteAddrMask ≠ f.ipv4RemoteAddr &&& f.ipv4RemoteAddrMask)))
  else if Pdu.version pdu = 6 then
    if f.filterContains (1 <<< 2 ||| 1 <<< 3) then f.matchIpv6Remote pdu f.ipv6RemoteAddrLength f.ipv6RemoteAddrLength
    else .ok true
  else .ok false

def matchProtocol : Bool :=
  if Pdu.version pdu = 4 ∨ Pdu.version pdu = 6 then Pdu.protocol pdu = f.protocolId else false

def matchTypeOfService : Bool :=
  if Pdu.version pdu = 4 then (pdu 1 ^^^ f.typeOfService) &&& f.typeOfServiceMask = 0
  else Pdu.version pdu ≠ 6

def matchPort : Bool :=
  if Pdu.version pdu = 4 ∨ Pdu.version pdu = 6 then
    Pdu.hasPorts pdu && !(f.filterContains (1 <<< 6) && decide (Pdu.source pdu ≠ f.singleLocalPort)) &&
      !(f.filterContains (1 <<< 8) && decide (Pdu.dest pdu ≠ f.singleRemotePort))
  else true

def ipFlags : Nat := 1 ||| 1 <<< 1 ||| 1 <<< 2 ||| 1 <<< 3 ||| 1 <<< 4

def portFlags : Nat := 1 <<< 6 ||| 1 <<< 7 ||| 1 <<< 8 ||| 1 <<< 9

def matches_ : Except Fault Bool :=
  if f.activeFilters = 0 then .ok false
  else
    match if f.filterContains ipFlags then f.matchIp pdu else .ok true with
    | .error e => .error e
    | .ok false => .ok false
    | .ok true => .ok (!(f.filterContains (1 <<< 5) && !f.matchProtocol pdu) &&
        !(f.filterContains portFlags && !f.matchPort pdu) &&
        !(f.filterContains (1 <<< 11) && !f.matchTypeOfService pdu))

end TftPacketFilter

def checkTftFilterMatch (pdu : Bytes) (epsBearerId : Nat) : List TftPacketFilter → Except Fault (Int × Nat)
  | [] => .ok (-1, epsBearerId)
  | f :: later =>
    match f.matches_ pdu with
    | .error e => .error e
    | .ok true => .ok (0, f.epsBearerId)
    | .ok false => checkTftFilterMatch pdu epsBearerId later

/-! The components of a packet filter, what they ask of a packet, and what the constructor keeps of them. -/

/-! ### What a component asks for -/

def ntohs (port : Nat) : Nat := port % 256 * 256 + port / 256

def trafficClass (pdu : Bytes) : UInt8 :=
  if Pdu.version pdu = 4 then pdu 1 else UInt8.ofNat ((pdu 0).toNat % 16 * 16 + (pdu 1).toNat / 16)

def addressBit (addr : Bytes) (k : Nat) : Bool := (addr (k / 8)).toNat.testBit (7 - k % 8)

def samePrefix (length : Nat) (a b : Bytes) : Bool :=
  (range length).all fun k => addressBit a k = addressBit b k

def inRange (first last port : Nat) : Bool :=
  min (ntohs first) (ntohs last) ≤ ntohs port && decide (ntohs port ≤ max (ntohs first) (ntohs last))

namespace Component

/-- The packet satisfies the component. Labels and security indices are not what the matching is about. -/
def satisfied (pdu : Bytes) : Component → Bool
  | ipv4LocalAddr addr mask => Pdu.version pdu = 4 && decide (Pdu.saddr pdu &&& mask = addr &&& mask)
  | ipv4RemoteAddr addr mask => Pdu.version pdu = 4 && decide (Pdu.daddr pdu &&& mask = addr &&& mask)
  | ipv6RemoteAddr addr mask =>
    Pdu.version pdu = 6 && (range 16).all fun i => (addr i ^^^ Pdu.daddr6 pdu i) &&& mask i = 0
  | ipv6RemoteAddrLength addr length => Pdu.version pdu = 6 && samePrefix length addr (Pdu.daddr6 pdu)
  | ipv6LocalAddrLength addr length => Pdu.version pdu = 6 && samePrefix length addr (Pdu.saddr6 pdu)
  | singleLocalPort port => Pdu.hasPorts pdu && decide (Pdu.source pdu = port)
  | singleRemotePort port => Pdu.hasPorts pdu && decide (Pdu.dest pdu = port)
  | localPortRange first last => Pdu.hasPorts pdu && inRange first last (Pdu.source pdu)
  | remotePortRange first last => Pdu.hasPorts pdu && inRange first last (Pdu.dest pdu)
  | protocolId protocol => Pdu.protocol pdu = protocol
  | typeOfService service mask => (trafficClass pdu ^^^ service) &&& mask = 0
  | flowLabel _ => true
  | securityParameterIndex _ => true

inductive Slot where
  | ipv4Local
  | ipv4Remote
  | ipv6Remote
  | ipv6Local
  | localPort
  | remotePort
  | localRange
  | remoteRange
  | protocol
  | service
  | label
  | index
  deriving DecidableEq

def slot : Component → Slot
  | ipv4LocalAddr .. => .ipv4Local
  | ipv4RemoteAddr .. => .ipv4Remote
  | ipv6RemoteAddr .. => .ipv6Remote
  | ipv6RemoteAddrLength .. => .ipv6Remote
  | ipv6LocalAddrLength .. => .ipv6Local
  | singleLocalPort .. => .localPort
  | singleRemotePort .. => .remotePort
  | localPortRange .. => .localRange
  | remotePortRange .. => .remoteRange
  | protocolId .. => .protocol
  | typeOfService .. => .service
  | flowLabel .. => .label
  | securityParameterIndex .. => .index

def passedOver (pdu : Bytes) : Component → Bool
  | ipv4LocalAddr .. => Pdu.version pdu = 6
  | ipv4RemoteAddr .. => Pdu.version pdu = 6
  | ipv6RemoteAddr .. => Pdu.version pdu = 4
  | ipv6RemoteAddrLength .. => Pdu.version pdu = 4
  | ipv6LocalAddrLength .. => true
  | localPortRange .. => Pdu.hasPorts pdu
  | remotePortRange .. => Pdu.hasPorts pdu
  | _ => false

def tested (pdu : Bytes) (c : Component) : Bool :=
  c.passedOver pdu || (c.satisfied pdu && !(c.slot = .service && Pdu.version pdu = 6))

def overruns (pdu : Bytes) : Component → Bool
  | ipv6RemoteAddrLength addr length => 16 < length && satisfied pdu (.ipv6RemoteAddrLength addr length)
  | _ => false

end Component

def effective : List Component → List Component
  | [] => []
  | c :: cs => if cs.any fun d => d.slot = c.slot then effective cs else c :: effective cs

def contents (filter : Bytes) (filterSize : Nat) : Nat → Nat → List Component × Nat × Bool
  | 0, idx => ([], idx, false)
  | fuel + 1, idx =>
    if idx < filterSize then
      match readComponent filter idx with
      | none => ([], idx + 1, true)
      | some (c, next) =>
        let (cs, rest) := contents filter filterSize fuel next
        (c :: cs, rest)
    else ([], idx, false)

/-! ### Prefixes -/

theorem partial_mask (r : Fin 8) (j : Fin 8) (some_ : 0 < r.val) :
    ((0xff : UInt8) - (((1 : UInt8) <<< (8 - UInt8.ofNat r.val)) - 1)).toNat.testBit j.val =
      decide (7 - j.val < r.val) := by
  revert r j
  decide

theorem prefixMask_testBit {length i j : Nat} (byte : j < 8) :
    (prefixMask length i).toNat.testBit j = decide (8 * i + (7 - j) < length) := by
  unfold prefixMask
  split
  · rename_i whole
    rw [decide_eq_true (by omega)]
    interval_cases j <;> rfl
  · split
    · rename_i last
      have remainder := mod_lt length (by decide : 0 < 8)
      rw [partial_mask ⟨length % 8, remainder⟩ ⟨j, byte⟩ last.2]
      apply decide_eq_decide.mpr
      show 7 - j < length % 8 ↔ _
      omega
    · rename_i outside beyond
      rw [decide_eq_false (by omega)]
      exact zero_testBit j

theorem and_eq_zero_iff (x y mask : UInt8) : (x ^^^ y) &&& mask = 0 ↔
    ∀ j < 8, mask.toNat.testBit j = true → x.toNat.testBit j = y.toNat.testBit j := by
  rw [← UInt8.toNat_inj, UInt8.toNat_and, UInt8.toNat_xor]
  constructor
  · intro zero j _ set
    have bit := congrArg (testBit · j) zero
    simp only [testBit_and, set] at bit
    simpa using bit
  · intro same
    apply eq_of_testBit_eq
    intro j
    rw [testBit_and, testBit_xor]
    change _ = testBit 0 j
    rw [zero_testBit]
    by_cases byte : j < 8
    · cases set : mask.toNat.testBit j with
      | false => rw [Bool.and_false]
      | true => rw [same j byte set, Bool.xor_self, Bool.false_and]
    · have small : mask.toNat < 2 ^ j :=
        Nat.lt_of_lt_of_le mask.toNat_lt (Nat.pow_le_pow_right (by decide : 0 < 2) (Nat.le_of_not_lt byte))
      rw [testBit_lt_two_pow small, Bool.and_false]

theorem samePrefix_iff {length : Nat} (bounded : length ≤ 128) (a b : Bytes) :
    samePrefix length a b = true ↔ ∀ i < 16, (a i ^^^ b i) &&& prefixMask length i = 0 := by
  unfold samePrefix
  rw [all_eq_true]
  constructor
  · intro same i _
    rw [and_eq_zero_iff]
    intro j byte set
    rw [prefixMask_testBit byte] at set
    have bit := of_decide_eq_true (same (8 * i + (7 - j)) (List.mem_range.mpr (of_decide_eq_true set)))
    unfold addressBit at bit
    rwa [show (8 * i + (7 - j)) / 8 = i by omega, show 7 - (8 * i + (7 - j)) % 8 = j by omega] at bit
  · intro same k mem
    have inside := List.mem_range.mp mem
    apply decide_eq_true
    have bits := (and_eq_zero_iff _ _ _).mp (same (k / 8) (by omega)) (7 - k % 8) (by omega)
    apply bits
    rw [prefixMask_testBit (by omega)]
    exact decide_eq_true (by omega)

theorem prefixMask_beyond {length i : Nat} (beyond : length ≤ i) : prefixMask length i = 0 := by
  unfold prefixMask
  rw [if_neg (by omega), if_neg (by omega)]

/-! ### What the constructor keeps -/

def Agrees (f : TftPacketFilter) : Component → Prop
  | .ipv4LocalAddr addr mask => f.ipv4LocalAddr = addr ∧ f.ipv4LocalAddrMask = mask
  | .ipv4RemoteAddr addr mask => f.ipv4RemoteAddr = addr ∧ f.ipv4RemoteAddrMask = mask
  | .ipv6RemoteAddr addr mask =>
    f.ipv6RemoteAddr = addr ∧ f.ipv6RemoteAddrMask = mask ∧ f.ipv6RemoteAddrLength = ipv6AddrSize
  | .ipv6RemoteAddrLength addr length =>
    f.ipv6RemoteAddr = addr ∧ f.ipv6RemoteAddrMask = prefixMask length ∧ f.ipv6RemoteAddrLength = length ∧
      length ≤ 128
  | .singleLocalPort port => f.singleLocalPort = port
  | .singleRemotePort port => f.singleRemotePort = port
  | .protocolId protocol => f.protocolId = protocol
  | .typeOfService service mask => f.typeOfService = service ∧ f.typeOfServiceMask = mask
  | _ => True

def storeAll : List Component → TftPacketFilter → Except Fault TftPacketFilter
  | [], f => .ok f
  | c :: cs, f =>
    match f.store c with
    | .error e => .error e
    | .ok f => storeAll cs f

section
variable {f f' : TftPacketFilter} {c d : Component} {cs : List Component}

theorem construct_eq (filter : Bytes) (filterSize fuel idx : Nat) (f : TftPacketFilter) :
    TftPacketFilter.construct filter filterSize fuel idx f =
      (storeAll (contents filter filterSize fuel idx).1 f).map fun f =>
        ⟨f, (contents filter filterSize fuel idx).2.1, (contents filter filterSize fuel idx).2.2⟩ := by
  induction fuel generalizing idx f with
  | zero => rfl
  | succ fuel ih =>
    unfold TftPacketFilter.construct contents
    split
    · cases readComponent filter idx with
      | none => rfl
      | some found =>
        obtain ⟨c, next⟩ := found
        dsimp only
        rw [storeAll]
        cases f.store c with
        | error e => rfl
        | ok f => exact ih next f
    · rfl

theorem store_eq (stored : f.store c = .ok f') :
    f'.activeFilters = f.activeFilters ||| c.flag ∧ f'.epsBearerId = f.epsBearerId ∧
      f'.evalPrecedence = f.evalPrecedence ∧ Agrees f' c := by
  unfold TftPacketFilter.store at stored
  cases c
  case ipv6RemoteAddrLength addr length =>
    dsimp only at stored
    split at stored
    · cases stored
    · obtain rfl := Except.ok.inj stored
      exact ⟨rfl, rfl, rfl, rfl, rfl, rfl, by omega⟩
  case ipv6LocalAddrLength addr length =>
    dsimp only at stored
    split at stored
    · cases stored
    · obtain rfl := Except.ok.inj stored
      exact ⟨rfl, rfl, rfl, trivial⟩
  all_goals
    obtain rfl := Except.ok.inj stored
    simp only [Agrees, and_self]

theorem store_keeps (stored : f.store d = .ok f') (differ : d.slot ≠ c.slot) (agrees : Agrees f c) : Agrees f' c := by
  unfold TftPacketFilter.store at stored
  cases d
  case ipv6RemoteAddrLength addr length =>
    dsimp only at stored
    split at stored
    · cases stored
    · obtain rfl := Except.ok.inj stored
      cases c <;> first | exact agrees | exact absurd rfl differ
  case ipv6LocalAddrLength addr length =>
    dsimp only at stored
    split at stored
    · cases stored
    · obtain rfl := Except.ok.inj stored
      cases c <;> exact agrees
  all_goals
    obtain rfl := Except.ok.inj stored
    cases c <;> first | exact agrees | exact absurd rfl differ

theorem storeAll_cons (stored : storeAll (c :: cs) f = .ok f') :
    ∃ g, f.store c = .ok g ∧ storeAll cs g = .ok f' := by
  rw [storeAll] at stored
  cases first_ : f.store c with
  | error e =>
    rw [first_] at stored
    cases stored
  | ok g =>
    rw [first_] at stored
    exact ⟨g, rfl, stored⟩

section
variable (stored : storeAll cs f = .ok f')
include stored

theorem storeAll_keeps (differ : ∀ d ∈ cs, d.slot ≠ c.slot)
    (agrees : Agrees f c) : Agrees f' c := by
  induction cs generalizing f with
  | nil =>
    obtain rfl := Except.ok.inj stored
    exact agrees
  | cons d cs ih =>
    obtain ⟨g, first_, later⟩ := storeAll_cons stored
    exact ih later (fun e mem => differ e (mem_cons_of_mem d mem))
      (store_keeps first_ (differ d mem_cons_self) agrees)

theorem storeAll_names :
    f'.epsBearerId = f.epsBearerId ∧ f'.evalPrecedence = f.evalPrecedence := by
  induction cs generalizing f with
  | nil =>
    obtain rfl := Except.ok.inj stored
    exact ⟨rfl, rfl⟩
  | cons d cs ih =>
    obtain ⟨g, first_, later⟩ := storeAll_cons stored
    obtain ⟨-, bearer, precedence, -⟩ := store_eq first_
    exact ⟨(ih later).1.trans bearer, (ih later).2.trans precedence⟩

theorem storeAll_agrees : ∀ c ∈ effective cs, Agrees f' c := by
  induction cs generalizing f with
  | nil => exact fun c mem => absurd mem not_mem_nil
  | cons d cs ih =>
    obtain ⟨g, first_, later⟩ := storeAll_cons stored
    intro c mem
    rw [effective] at mem
    split at mem
    · exact ih later c mem
    · rename_i last
      rcases List.mem_cons.mp mem with rfl | mem
      · apply storeAll_keeps later _ (store_eq first_).2.2.2
        intro e memE same
        exact last (List.any_eq_true.mpr ⟨e, memE, decide_eq_true same⟩)
      · exact ih later c mem

end

theorem mem_of_mem_effective (mem : c ∈ effective cs) : c ∈ cs := by
  induction cs with
  | nil => exact mem
  | cons d cs ih =>
    rw [effective] at mem
    split at mem
    · exact mem_cons_of_mem d (ih mem)
    · rcases List.mem_cons.mp mem with rfl | mem
      · exact mem_cons_self
      · exact mem_cons_of_mem d (ih mem)

theorem exists_effective (mem : c ∈ cs) : ∃ d ∈ effective cs, d.slot = c.slot := by
  induction cs generalizing c with
  | nil => exact absurd mem not_mem_nil
  | cons e cs ih =>
    rw [effective]
    split
    · rename_i later
      rcases List.mem_cons.mp mem with rfl | mem
      · obtain ⟨d, memD, same⟩ := List.any_eq_true.mp later
        obtain ⟨d', memD', same'⟩ := ih memD
        exact ⟨d', memD', same'.trans (of_decide_eq_true same)⟩
      · exact ih mem
    · rcases List.mem_cons.mp mem with rfl | mem
      · exact ⟨c, mem_cons_self, rfl⟩
      · obtain ⟨d, memD, same⟩ := ih mem
        exact ⟨d, mem_cons_of_mem e memD, same⟩

theorem storeAll_flags (stored : storeAll cs f = .ok f') (mask : Nat) :
    f'.activeFilters &&& mask ≠ 0 ↔ f.activeFilters &&& mask ≠ 0 ∨ ∃ c ∈ cs, c.flag &&& mask ≠ 0 := by
  induction cs generalizing f with
  | nil =>
    obtain rfl := Except.ok.inj stored
    simp
  | cons d cs ih =>
    obtain ⟨g, first_, later⟩ := storeAll_cons stored
    rw [ih later, (store_eq first_).1, Nat.and_or_distrib_right, Ne, Nat.or_eq_zero_iff]
    simp only [mem_cons, exists_eq_or_imp]
    tauto

end

end IsrRan.Upper.Tft
