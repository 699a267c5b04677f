import Mathlib.Algebra.GroupWithZero.Nat
import Mathlib.Data.List.Basic

namespace IsrRan

abbrev Byte := UInt8

def u32Sub (a b : Nat) : Nat := (4294967296 + a - b) % 4294967296

def u16 (a : Nat) : Nat := a % 65536

def i32 (a : Nat) : Int := if a < 2147483648 then a else (a : Int) - 4294967296

theorem u32Sub_of_le {a b : Nat} (le : b ≤ a) (bound : a < 4294967296) : u32Sub a b = a - b := by
  unfold u32Sub
  omega

theorem u16_of_lt {a : Nat} (bound : a < 65536) : u16 a = a := by
  unfold u16
  omega

/-- Byte `i` behind a payload pointer. What lies behind the PDU in the MAC buffer reads as 0. -/
def byteAt (payload : List Byte) (i : Nat) : Nat := (payload.getD i 0).toNat

@[simp] theorem byteAt_zero (b : Byte) (payload : List Byte) : byteAt (b :: payload) 0 = b.toNat := rfl

@[simp] theorem byteAt_succ (b : Byte) (payload : List Byte) (i : Nat) :
    byteAt (b :: payload) (i + 1) = byteAt payload i := rfl

def bufferHeaderOffset : Nat := 1020

def maxBufferSizeBytes : Nat := 97896 / 8 + bufferHeaderOffset

/-- `byte_buffer_t`: the bytes at `msg`, and how far `msg` stands behind the start of `buffer`. -/
structure ByteBuffer where
  headroom : Nat := bufferHeaderOffset
  msg : List Byte := []
  deriving DecidableEq, Repr

namespace ByteBuffer

def nBytes (b : ByteBuffer) : Nat := b.msg.length

def getTailroom (b : ByteBuffer) : Nat := maxBufferSizeBytes - b.headroom - b.nBytes

end ByteBuffer

abbrev Memory := Nat → Byte

inductive Fault where
  | assertionFailed
  | undefinedBehaviour
  deriving DecidableEq, Repr

theorem bind_eq_ok {ε : Type*} {α β : Type} {x : Except ε α} {f : α → Except ε β} {b : β} :
    x >>= f = .ok b ↔ ∃ a, x = .ok a ∧ f a = .ok b := by
  cases x with
  | error e => simp [bind, Except.bind]
  | ok a => simp [bind, Except.bind]

theorem map_eq_ok {ε : Type*} {α β : Type} {x : Except ε α} {f : α → β} {b : β} :
    x.map f = .ok b ↔ ∃ a, x = .ok a ∧ f a = b := by
  cases x with
  | error e => simp [Except.map]
  | ok a => simp [Except.map]

def NoAssert {α : Type} (P : α → Prop) : Except Fault α → Prop
  | .ok a => P a
  | .error fault => fault = .undefinedBehaviour

namespace NoAssert
variable {α β : Type} {P : α → Prop} {Q : β → Prop}

theorem bind {x : Except Fault α} {f : α → Except Fault β} (first : NoAssert P x)
    (rest : ∀ a, P a → NoAssert Q (f a)) : NoAssert Q (x >>= f) := by
  cases x with
  | error fault => exact first
  | ok a => exact rest a first

theorem map {x : Except Fault α} {f : α → β} (h : NoAssert P x) (imp : ∀ a, P a → Q (f a)) :
    NoAssert Q (x.map f) := by
  cases x with
  | error fault => exact h
  | ok a => exact imp a h

theorem and {x : Except Fault α} {R : α → Prop} (h : NoAssert P x) (ok : ∀ a, x = .ok a → R a) : NoAssert R x := by
  cases x with
  | error fault => exact h
  | ok a => exact ok a rfl

end NoAssert

namespace Memory

def ofList (bytes : List Byte) : Memory := fun i => bytes.getD i 0

def byte (mem : Memory) (i : Nat) : Nat := (mem i).toNat

def slice (mem : Memory) (start len : Nat) : List Byte := (List.range len).map fun i => mem (start + i)

def store (mem : Memory) (start : Nat) (data : List Byte) : Memory := fun i =>
  if start ≤ i ∧ i < start + data.length then data.getD (i - start) 0 else mem i

theorem store_inside (mem : Memory) {start i : Nat} {data : List Byte} (inside : i < data.length) :
    mem.store start data (start + i) = data.getD i 0 := by
  unfold store
  rw [if_pos (by omega), Nat.add_sub_cancel_left]

theorem store_behind (mem : Memory) {start i : Nat} {data : List Byte} (behind : start + data.length ≤ i) :
    mem.store start data i = mem i := if_neg (by omega)

@[simp] theorem slice_length (mem : Memory) (start len : Nat) : (mem.slice start len).length = len := by
  simp [slice]

theorem byte_lt (mem : Memory) (i : Nat) : mem.byte i < 256 := (mem i).toNat_lt

end Memory

theorem toNat_ofNat_byte {n : Nat} (small : n < 256) : (UInt8.ofNat n).toNat = n := by
  simp [Nat.mod_eq_of_lt small]

theorem ofList_behind (front data : List Byte) (i : Nat) :
    Memory.ofList (front ++ data) (front.length + i) = data.getD i 0 := by
  simp [Memory.ofList, List.getElem?_append_right]

theorem byte_behind (front data : List Byte) (i : Nat) :
    (Memory.ofList (front ++ data)).byte (front.length + i) = (data.getD i 0).toNat := by
  unfold Memory.byte
  rw [ofList_behind]

theorem byte_here (front data : List Byte) :
    (Memory.ofList (front ++ data)).byte front.length = (data.getD 0 0).toNat := byte_behind front data 0

theorem slice_ofList_middle (front data rest : List Byte) :
    (Memory.ofList (front ++ (data ++ rest))).slice front.length data.length = data := by
  apply List.ext_getElem
  · simp
  · intro i h _
    have bound : i < data.length := by simpa using h
    simp [Memory.slice, ofList_behind, List.getElem?_append_left bound, List.getElem?_eq_getElem bound]

end IsrRan
