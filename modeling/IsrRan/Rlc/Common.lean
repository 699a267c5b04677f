import IsrRan.Common.Memory

namespace IsrRan.Rlc

abbrev Sdu := List Byte

inductive SiField where
  | fullSdu
  | firstSegment
  | lastSegment
  | neitherFirstNorLastSegment
  deriving DecidableEq, Repr

namespace SiField

def bits : SiField → Nat
  | fullSdu => 0
  | firstSegment => 1
  | lastSegment => 2
  | neitherFirstNorLastSegment => 3

def ofBits : Nat → SiField
  | 0 => fullSdu
  | 1 => firstSegment
  | 2 => lastSegment
  | _ => neitherFirstNorLastSegment

@[simp] theorem ofBits_bits (si : SiField) : ofBits si.bits = si := by
  cases si <;> rfl

theorem bits_lt (si : SiField) : si.bits < 4 := by
  cases si <;> decide

end SiField

def segment (sdu : Sdu) (so len : Nat) : List Byte := (sdu.drop so).take len

theorem segment_length {sdu : Sdu} {so len : Nat} (h : so + len ≤ sdu.length) :
    (segment sdu so len).length = len := by
  simp only [segment, List.length_take, List.length_drop]
  omega

theorem take_append_segment (sdu : Sdu) (so len : Nat) :
    sdu.take so ++ segment sdu so len = sdu.take (so + len) := List.take_add.symm

end IsrRan.Rlc
