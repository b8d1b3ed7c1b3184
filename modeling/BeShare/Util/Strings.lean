import BeShare.Lib.Substring
import Mathlib.Algebra.Group.Nat.Defs
import Mathlib.Algebra.Ring.Int.Defs

/-!
`String::GetNumInstancesOf` and `String::Replace`, with the buffers that they read and write. A read or a write
outside of a buffer is an error. The two arguments of `Replace` may be the receiver.
-/

namespace BeShare.Muscle.Strings

open BeShare.Lib

/-- The characters of a `String`, and what stands behind the NUL in its buffer. No block of memory of the 32-bit systems
that it is written for has more than `2 ^ 31 - 1` bytes. -/
structure MuscleString where
  chars : List UInt8
  slack : List UInt8
  noNul : 0 ∉ chars
  short : chars.length < 2 ^ 31

def MuscleString.buffer (s : MuscleString) : List UInt8 :=
  s.chars ++ 0 :: s.slack

/-- What memory there is, and what stands in it before it is written. -/
structure Memory where
  /-- `muscleAlloc` -/
  alloc : Nat → Option (List UInt8)
  alloc_length : ∀ n b, alloc n = some b → b.length = n
  /-- `_smallBuffer` of a new string -/
  smallBuffer : List UInt8
  smallBuffer_length : smallBuffer.length = 8

/-- An argument of `Replace`. -/
inductive Arg where
  | receiver
  | other (s : MuscleString)

/-- The string at `p`. -/
def readCstr (buffer : List UInt8) (p : Nat) : Option (List UInt8) :=
  if 0 ∈ buffer.drop p then some ((buffer.drop p).takeWhile (· != 0)) else none

def readBytes (buffer : List UInt8) (p n : Nat) : Option (List UInt8) :=
  if p + n ≤ buffer.length then some ((buffer.drop p).take n) else none

def store (buffer : List UInt8) (p : Nat) (bytes : List UInt8) : Option (List UInt8) :=
  if p + bytes.length ≤ buffer.length then
    some (buffer.take p ++ bytes ++ buffer.drop (p + bytes.length))
  else none

namespace Arg

/-- The characters of the argument before the call. -/
def chars (s : MuscleString) : Arg → List UInt8
  | receiver => s.chars
  | other t => t.chars

/-- The string that `operator()` points to, when the buffer of the receiver holds `buffer`. -/
def cstr (buffer : List UInt8) : Arg → Option (List UInt8)
  | receiver => readCstr buffer 0
  | other t => some t.chars

/-- The first `n` bytes that `operator()` points to. -/
def bytes (buffer : List UInt8) (n : Nat) : Arg → Option (List UInt8)
  | receiver => readBytes buffer 0 n
  | other t => readBytes t.buffer 0 n

end Arg

/-- `IndexOf` -/
def indexOf (s str : List UInt8) (fromIndex : Nat) : Int :=
  if fromIndex < s.length then
    match firstIndex str (s.drop fromIndex) with
    | some i => fromIndex + i
    | none => -1
  else -1

/-- The loop of `GetNumInstancesOf`. -/
def numInstancesLoop (s substring : List UInt8) : Nat → Nat → Nat → Option Nat
  | 0, _, _ => none
  | fuel + 1, lastIdx, ret =>
    let idx := indexOf s substring lastIdx
    if 0 ≤ idx then
      numInstancesLoop s substring fuel ((idx.toNat + substring.length) % 2 ^ 32) ((ret + 1) % 2 ^ 32)
    else some ret

def getNumInstancesOf (s substring : List UInt8) : Option Nat :=
  if 0 < substring.length then numInstancesLoop s substring (s.length + 1) 0 0 else some 0

/-- `Prealloc` of a string that has no buffer yet. It gets none when the number of bytes wraps to zero. -/
def prealloc (memory : Memory) (numChars : Nat) : Option (Option (List UInt8)) :=
  let requestedBufLen := (numChars + 1) % 2 ^ 32
  if requestedBufLen = 0 then some none
  else if requestedBufLen ≤ 8 then some (some memory.smallBuffer)
  else (memory.alloc requestedBufLen).map some

/-- The variables of the loop of `Replace`. `writePtr` points into the buffer of `temp` if there is one, and into the
receiver's otherwise. -/
structure Loop where
  buffer : List UInt8
  temp : Option (List UInt8)
  readPtr : Nat
  writePtr : Option Nat
  ret : Int

/-- The receiver behind the call. -/
structure Replaced where
  buffer : List UInt8
  length : Nat
  ret : Int

namespace Loop

def write (l : Loop) (p : Nat) (bytes : List UInt8) : Option Loop :=
  match l.temp with
  | some temp => (store temp p bytes).map fun t => { l with temp := some t }
  | none => (store l.buffer p bytes).map fun b => { l with buffer := b }

/-- `memmove` from the receiver -/
def move (l : Loop) (p numBytes : Nat) : Option Loop := do
  l.write p (← readBytes l.buffer l.readPtr numBytes)

/-- The text before the next occurrence, which is `i` characters long, goes to `writePtr`. -/
def advance (l : Loop) (perInstanceDelta : Int) (i : Nat) : Option (Loop × Nat) :=
  match l.writePtr with
  | some p => do
    let l ← (if perInstanceDelta ≠ 0 then l.move p i else some l)
    return (l, p + i)
  | none => some (l, l.readPtr + i)

/-- The rest of the text goes to `writePtr`, and the receiver gets the result. -/
def finish (l : Loop) (length : Nat) (perInstanceDelta : Int) : Option Replaced :=
  match l.writePtr with
  | some p => do
    let numBytes := (length + 2 ^ 32 - l.readPtr) % 2 ^ 32
    let l ← (if perInstanceDelta ≠ 0 then l.move p numBytes else some l)
    let l ← l.write (p + numBytes) [0]
    if 0 < perInstanceDelta then
      -- without a buffer in `temp` the difference `writePtr - temp()` is undefined
      let temp ← l.temp
      return ⟨temp, p + numBytes, l.ret⟩
    else return ⟨l.buffer, p + numBytes, l.ret⟩
  | none => some ⟨l.buffer, length, l.ret⟩

end Loop

/-- The loop of `Replace`. -/
def replaceLoop (s : MuscleString) (replaceMe withMe : Arg) (perInstanceDelta : Int) : Nat → Loop → Option Replaced
  | 0, _ => none
  | fuel + 1, l => do
    let text ← readCstr l.buffer l.readPtr
    match firstIndex (← replaceMe.cstr l.buffer) text with
    | some i =>
      let (l', writePtr) ← l.advance perInstanceDelta i
      let l' ← l'.write writePtr (← withMe.bytes l'.buffer (withMe.chars s).length)
      replaceLoop s replaceMe withMe perInstanceDelta fuel
        { l' with
          readPtr := l.readPtr + i + (replaceMe.chars s).length
          writePtr := some (writePtr + (withMe.chars s).length)
          ret := l.ret + 1 }
    | none => l.finish s.chars.length perInstanceDelta

def replace (memory : Memory) (s : MuscleString) (replaceMe withMe : Arg) : Option Replaced :=
  let unchanged (ret : Int) : Replaced := ⟨s.buffer, s.chars.length, ret⟩
  if (replaceMe.chars s).length = 0 then some (unchanged (-1))
  else if replaceMe.chars s = withMe.chars s then do
    return unchanged (← getNumInstancesOf s.chars (replaceMe.chars s))
  else
    let perInstanceDelta : Int := (withMe.chars s).length - (replaceMe.chars s).length
    if 0 < perInstanceDelta then do
      let numInstances ← getNumInstancesOf s.chars (replaceMe.chars s)
      if numInstances = 0 then return unchanged 0
      match prealloc memory ((s.chars.length + perInstanceDelta.toNat * numInstances) % 2 ^ 32) with
      | some temp =>
        replaceLoop s replaceMe withMe perInstanceDelta (s.chars.length + 1)
          ⟨s.buffer, temp, 0, temp.map fun _ => 0, 0⟩
      | none => return unchanged (-1)
    else
      replaceLoop s replaceMe withMe perInstanceDelta (s.chars.length + 1) ⟨s.buffer, none, 0, none, 0⟩

end BeShare.Muscle.Strings
