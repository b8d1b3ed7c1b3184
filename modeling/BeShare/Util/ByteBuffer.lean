import Mathlib.Algebra.Group.Nat.Defs
import Mathlib.Algebra.Ring.Int.Defs
import Mathlib.Data.List.Basic
import Mathlib.Tactic.Common

/-!
`ByteBuffer`: its bytes, and the memory that it holds.
-/

namespace BeShare.Muscle

/-- A `ByteBuffer`: the valid bytes, and how many more are allocated. -/
structure ByteBuffer where
  bytes : List UInt8
  spare : Nat
  short : bytes.length < 2 ^ 32

namespace ByteBuffer

def numAllocatedBytes (b : ByteBuffer) : Nat :=
  b.bytes.length + b.spare

def getNumBytes (b : ByteBuffer) : UInt32 :=
  UInt32.ofNat b.bytes.length

/-- `GetBuffer`, with nothing for `NULL` -/
def getBuffer (b : ByteBuffer) : Option (List UInt8) :=
  if b.numAllocatedBytes = 0 then none else some b.bytes

/-- `SetNumBytes(newNumBytes, false)`: how many bytes are allocated then, with nothing for a failure of `muscleAlloc` -/
def setNumBytes (muscleAlloc : Nat → Bool) (numAllocatedBytes newNumBytes : Nat) : Option Nat :=
  if numAllocatedBytes < newNumBytes then if muscleAlloc newNumBytes then some newNumBytes else none
  else some numAllocatedBytes

variable {b : ByteBuffer}

theorem toNat_getNumBytes (b : ByteBuffer) : b.getNumBytes.toNat = b.bytes.length := by
  rw [getNumBytes, UInt32.toNat_ofNat']
  exact Nat.mod_eq_of_lt b.short

theorem bytes_eq_of_getBuffer {bytes : List UInt8} (h : b.getBuffer = some bytes) : b.bytes = bytes := by
  unfold getBuffer at h
  split at h
  · cases h
  · exact Option.some.inj h

theorem bytes_eq_nil_of_getBuffer (h : b.getBuffer = none) : b.bytes = [] := by
  unfold getBuffer at h
  split at h
  · rename_i hNone
    exact List.eq_nil_of_length_eq_zero (Nat.eq_zero_of_add_eq_zero_right hNone)
  · cases h

variable {muscleAlloc : Nat → Bool} {before allocated n : Nat}

theorem le_of_setNumBytes (h : setNumBytes muscleAlloc before n = some allocated) : n ≤ allocated := by
  unfold setNumBytes at h
  split at h
  · split at h
    · exact Nat.le_of_eq (Option.some.inj h)
    · cases h
  · rename_i hEnough
    rw [← Option.some.inj h]
    exact Nat.le_of_not_lt hEnough

theorem setNumBytes_of_not_lt (hEnough : ¬before < n) : setNumBytes muscleAlloc before n = some before :=
  if_neg hEnough

theorem setNumBytes_of_lt (hShort : before < n) (h : setNumBytes muscleAlloc before n = some allocated) :
    allocated = n := by
  rw [setNumBytes, if_pos hShort] at h
  split at h
  · exact (Option.some.inj h).symm
  · cases h

end ByteBuffer

end BeShare.Muscle
