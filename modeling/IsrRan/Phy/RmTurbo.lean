import IsrRan.Lib.CyclicSelect
import IsrRan.Phy.BitBuffer
import IsrRan.Phy.CbsegmTurbo

/-! Rate matching of the turbo code (rm_turbo.c): the tables of a code block size, and the functions that use them.
Lengths and offsets are those of `int` variables. -/

namespace IsrRan.Phy.RmTurbo
open Lib Bit List

def nCols : Nat := 32

def rmPermTc : List Nat :=
  [0, 16, 8, 24, 4, 20, 12, 28, 2, 18, 10, 26, 6, 22, 14, 30,
   1, 17, 9, 25, 5, 21, 13, 29, 3, 19, 11, 27, 7, 23, 15, 31]

/-! ### Dimensions -/

def nrows (inLen : Nat) : Nat := (inLen / 3 - 1) / nCols + 1

def kP (inLen : Nat) : Nat := nrows inLen * nCols

def ndummy (inLen : Nat) : Nat := kP inLen - inLen / 3

def nCb (inLen : Nat) : Nat := 3 * kP inLen

/-- `k0`; the quotient that `ceilf` is applied to is exact. -/
def k0 (inLen rvIdx : Nat) : Nat :=
  nrows inLen * (2 * ((nCb inLen + (8 * nrows inLen - 1)) / (8 * nrows inLen)) * rvIdx + 2)

def cell (j i : Nat) : Nat := i * nCols + rmPermTc.getD j 0

def cell2 (inLen q : Nat) : Nat :=
  (rmPermTc.getD (q / nrows inLen) 0 + nCols * (q % nrows inLen) + 1) % kP inLen

/-! ### The tables of the transmitter -/

/-- What the loops build: the table (its length is `k_b`), and `k0_vec_[·][1]`, none for `-1`. -/
structure Gen where
  table : List Nat
  start : Nat → Option Nat

def Gen.visit (inLen offset : Nat) (g : Gen) (place : Nat) (entry : Option Nat) : Gen :=
  let table := g.table ++ entry.toList
  { table
    start := fun rvIdx =>
      if g.start rvIdx = none ∧ k0 inLen rvIdx % nCb inLen ≤ place ∧ entry.isSome then
        some (offset + table.length - 1)
      else g.start rvIdx }

def gentableSystematic (inLen : Nat) (start : Nat → Option Nat) : Gen :=
  (grid nCols (nrows inLen) fun j i => (j, i)).foldl (fun g (j, i) =>
    g.visit inLen 0 (j * nrows inLen + i)
      (if ndummy inLen ≤ cell j i then some (cell j i - ndummy inLen) else none)) ⟨[], start⟩

def gentableParity (inLen offset : Nat) (start : Nat → Option Nat) : Gen :=
  (grid nCols (nrows inLen) fun j i => (j, i)).foldl (fun g (j, i) =>
    let buffIdx := j * nrows inLen + i
    let kidx := cell2 inLen buffIdx
    (g.visit inLen offset (2 * buffIdx + kP inLen)
      (if ndummy inLen ≤ cell j i then some (cell j i - ndummy inLen) else none)).visit inLen offset
        (2 * buffIdx + 1 + kP inLen) (if ndummy inLen ≤ kidx then some (kidx - ndummy inLen + offset) else none))
    ⟨[], start⟩

/-! ### The table of the receiver -/

def isDummy (inLen jp : Nat) : Bool :=
  if jp < kP inLen ∨ jp % 2 = 0 then
    let q := if kP inLen ≤ jp then (jp - kP inLen) / 2 else jp
    cell (q / nrows inLen) (q % nrows inLen) < ndummy inLen
  else cell2 inLen ((jp - kP inLen - 1) / 2) < ndummy inLen

def sourcePlace (inLen i j : Nat) : Nat :=
  if j ≠ 2 then
    let dI := (i + ndummy inLen) / nCols
    let dJ := (i + ndummy inLen) % nCols
    kP inLen * j + (j + 1) * (rmPermTc.getD dJ 0 * nrows inLen + dI)
  else
    let k := if i + ndummy inLen = 0 then kP inLen - 1 else (i + ndummy inLen - 1) % kP inLen
    2 * ((k / nCols + nrows inLen * rmPermTc.getD (k % nCols) 0) % kP inLen) + kP inLen + 1

def tempTable2 (inLen : Nat) (temp : Nat → Nat) : Nat → Nat :=
  (grid (inLen / 3) 3 fun i j => (i, j)).foldl
    (fun temp (i, j) => Function.update temp (sourcePlace inLen i j) (3 * i + j)) temp

def gentableReceive (inLen rvIdx : Nat) (temp : Nat → Nat) (fuel : Nat) : Option (List Nat) :=
  (select (fun jp => !isDummy inLen jp) (fun j => (k0 inLen rvIdx + j) % nCb inLen) fuel 0 inLen).map
    (map (tempTable2 inLen temp))

def sbPlace (longCb nofSb c : Nat) : Nat :=
  if c < 3 * longCb then
    c % 3 * (longCb + 32) + (c / 3 % (longCb / nofSb) * nofSb + c / 3 / (longCb / nofSb))
  else c - 3 * longCb + 3 * (longCb + 32)

structure Tables where
  systematicBits : List Nat
  parityBits : List Nat
  k0Vec : Nat → Option Nat
  deinterleaver : List (List Nat)

def gentables (cbLen : Nat) (temp : Nat → Nat → Nat) (fuel : Nat) : Option Tables :=
  let inLen := 3 * cbLen + 12
  let systematic := gentableSystematic inLen fun _ => none
  let parity := gentableParity inLen (inLen / 3) systematic.start
  ((range 4).mapM fun i => gentableReceive inLen i (temp i) fuel).map fun deinterleaver =>
    { systematicBits := systematic.table, parityBits := parity.table, k0Vec := parity.start, deinterleaver }

namespace Tables

def row (tables : Tables) (rvIdx : Nat) : List Nat := tables.deinterleaver.getD rvIdx []

end Tables

/-! ### Transmission -/

def behind (byte : Nat) (f : Buffer → Buffer) (buffer : Buffer) : Buffer := fun i =>
  if byte ≤ i then f (fun i => buffer (byte + i)) (i - byte) else buffer i

def selectBits (wBuff : Buffer) (inLen outLen wOffset : Nat) : Nat → Nat → Nat → Buffer → Option Buffer
  | 0, wLen, _, output => if wLen < outLen then none else some output
  | fuel + 1, wLen, rPtr, output =>
    if wLen < outLen then
      let cpLen := if inLen ≤ outLen - wLen + rPtr then inLen - rPtr else outLen - wLen
      selectBits wBuff inLen outLen wOffset fuel (wLen + cpLen)
        (if inLen ≤ rPtr + cpLen then rPtr + cpLen - inLen else rPtr + cpLen)
        (bitCopy output (wLen + wOffset) wBuff rPtr cpLen)
    else some output

def fill (tables : Tables) (cbLen : Nat) (systematic parity wBuff : Buffer) : Buffer :=
  behind ((3 * cbLen + 12) / 24)
    (fun w => bitInterleaverRun (tables.parityBits.getD · 0) ((cbLen + 4) * 2) parity w 4)
    (bitInterleaverRun (tables.systematicBits.getD · 0) (cbLen + 4) systematic wBuff 0)

/-- `isrran_rm_turbo_tx_lut`: the return value, `w_buff` and the output; no start of `-1` is followed. -/
def rmTurboTxLut (tables : Tables) (wBuff systematic parity output : Buffer) (cbIdx outLen wOffset rvIdx fuel : Nat) :
    Option (Int × Buffer × Buffer) :=
  match isrranCbsegmCbsize cbIdx with
  | none => some (-2, wBuff, output)
  | some cbLen =>
    if rvIdx < 4 then
      let inLen := 3 * cbLen + 12
      let wBuff := if rvIdx = 0 then fill tables cbLen systematic parity wBuff else wBuff
      match tables.k0Vec rvIdx with
      | none => none
      | some rPtr => (selectBits wBuff inLen outLen wOffset fuel 0 rPtr output).map fun output => (0, wBuff, output)
    else some (-2, wBuff, output)

/-! ### Reception -/

inductive Target where
  | portable
  | sse
  | avx
  | avx2
  deriving DecidableEq

def getSubblocks (target : Target) (longCb : Nat) : Nat :=
  if target = .avx2 ∧ longCb % 16 = 0 ∧ 800 < longCb then 16
  else if longCb % 8 = 0 ∧ 400 < longCb then 8
  else 0

def deinterPlace (target : Target) (enableInputTdec : Bool) (cbLen c : Nat) : Nat :=
  if getSubblocks target cbLen = 0 ∨ !enableInputTdec then c else sbPlace cbLen (getSubblocks target cbLen) c

section
variable {α : Type} [Add α] (input : Nat → α) (deinter : Nat → Nat) (inLen outLen : Nat)

def addAt (place i : Nat) (output : Nat → α) : Nat → α := Function.update output place (output place + input i)

def addRest (i : Nat) (output : Nat → α) : Nat → α :=
  (range' i (inLen - i)).foldl (fun output i => addAt input (deinter (i % outLen)) i output) output

def addBlock (lanes xPtr lutPtr : Nat) (output : Nat → α) : Nat → α :=
  (range lanes).foldl (fun output j => addAt input (deinter (lutPtr + j)) (xPtr + j) output) output

structure VectorState (α : Type) where
  intCnt : Nat
  inputCnt : Nat
  nwrapps : Nat
  xPtr : Nat
  lutPtr : Nat
  output : Nat → α

/-- The loop over vectors that wraps around; the last `tail` entries of the table are added one by one. -/
def addVectors (lanes tail : Nat) : Nat → VectorState α → Option (VectorState α)
  | 0, s => if s.inputCnt < inLen - lanes then none else some s
  | fuel + 1, s =>
    if s.inputCnt < inLen - lanes then
      let output := addBlock input deinter lanes s.xPtr s.lutPtr s.output
      let intCnt := s.intCnt + lanes
      let inputCnt := s.inputCnt + lanes
      addVectors lanes tail fuel (
        if outLen ≤ intCnt ∧ inputCnt < inLen - lanes then
          { intCnt := lanes
            inputCnt := inputCnt + tail
            nwrapps := s.nwrapps + 1
            xPtr := (s.nwrapps + 1) * outLen
            lutPtr := 0
            output := (range' ((s.nwrapps + 1) * outLen - tail) tail).foldl
              (fun output j => addAt input (deinter (j % outLen)) j output) output }
        else { s with
          intCnt
          inputCnt
          xPtr := s.xPtr + lanes
          lutPtr := s.lutPtr + lanes
          output })
    else some s

def rxLutVector (lanes tail : Nat) (output : Nat → α) (fuel : Nat) : Option (Nat → α) :=
  if inLen ≤ outLen then
    some (addRest input deinter inLen outLen (lanes * (inLen / lanes))
      ((range (inLen / lanes)).foldl
        (fun output i => addBlock input deinter lanes (lanes * i) (lanes * i) output) output))
  else
    (addVectors input deinter inLen outLen lanes tail fuel ⟨lanes, 0, 0, 0, 0, output⟩).map fun s =>
      addRest input deinter inLen outLen s.inputCnt s.output

end

def rmTurboRxLut_ {α : Type} [Add α] (target : Target) (tables : Tables) (input output : Nat → α)
    (inLen cbIdx rvIdx : Nat) (enableInputTdec : Bool) (fuel : Nat) : Option (Int × (Nat → α)) :=
  match isrranCbsegmCbsize cbIdx with
  | none => some (-2, output)
  | some cbLen =>
    if rvIdx < 4 then
      let deinter := fun i => deinterPlace target enableInputTdec cbLen ((tables.row rvIdx).getD i 0)
      let outLen := 3 * cbLen + 12
      (match target with
        | .portable => some (addRest input deinter inLen outLen 0 output)
        | .sse => rxLutVector input deinter inLen outLen 8 4 output fuel
        | .avx => rxLutVector input deinter inLen outLen 16 (if outLen % 16 = 12 then 12 else 4) output fuel
        | .avx2 => rxLutVector input deinter inLen outLen 16 (if outLen % 16 = 12 then 12 else 4) output fuel).map
          fun output => (0, output)
    else some (-2, output)

def rmTurboRxLut {α : Type} [Add α] (target : Target) (tables : Tables) (input output : Nat → α)
    (inLen cbIdx rvIdx fuel : Nat) : Option (Int × (Nat → α)) :=
  rmTurboRxLut_ target tables input output inLen cbIdx rvIdx true fuel

end IsrRan.Phy.RmTurbo
