import BeShare.Lib.Linked
import Mathlib.Algebra.Group.Nat.Defs

/-!
The state of `Hashtable` and of its iterators. A pointer to a `HashtableEntry` is the index of the
entry in `_table`, and the fields of the entries are functions of that index. `Table` is the source's
`Hashtable` object.
-/

namespace BeShare.Muscle.Hashtable

open BeShare.Lib

abbrev MUSCLE_HASHTABLE_INVALID_HASH_CODE : UInt32 := 0xFFFFFFFF

/-- The auto-sort modes. -/
inductive AutoSortMode where
  | disabled | byKey | byValue
deriving DecidableEq

/-- `HashtableIterator`. `owned` says whether `_owner` is the table or `NULL`. -/
structure HashtableIterator where
  scratchKey : Option Nat := none
  scratchValue : Option Nat := none
  nextKeyCookie : Option Nat := none
  nextValueCookie : Option Nat := none
  backwards : Bool := false
  noRegister : Bool := false
  owned : Bool := false

/-- `Hashtable`, with the `HashtableEntry` array `_table` and the iterators that were made for the
table. `hasTable` says whether `_table` is allocated. -/
structure Table (K V : Type) where
  initialCapacity : Nat
  count : Nat
  tableSize : Nat
  hasTable : Bool
  /-- The fields of the entries. -/
  hash : Nat → UInt32
  key : Nat → K
  value : Nat → V
  bucketPrev : Nat → Option Nat
  bucketNext : Nat → Option Nat
  iterPrev : Nat → Option Nat
  iterNext : Nat → Option Nat
  mapTo : Nat → Nat
  mappedFrom : Nat → Nat
  iterHead : Option Nat
  iterTail : Option Nat
  freeHead : Option Nat
  userKeyCompareFunc : Option (K → K → Int)
  userValueCompareFunc : Option (V → V → Int)
  autoSortMode : AutoSortMode
  /-- The registered iterators, the newest first. -/
  iterList : List Nat
  iterators : Nat → HashtableIterator

/-- Why an operation stops without returning. -/
inductive Stop where
  /-- The run is longer than the given fuel. -/
  | outOfFuel
  /-- A null pointer is followed. -/
  | nullPointer
deriving DecidableEq

abbrev Run (α : Type) := Except Stop α

/-- What the machine has to offer: `newnothrow_array(HashtableEntry, size)` succeeds or not. An entry
takes at least 30 bytes, so that an array of 2^30 entries cannot be had. -/
structure Memory where
  allocates : Nat → Bool
  bounded : ∀ size, allocates size = true → size < 2 ^ 30

variable {K V : Type} [Inhabited K] [Inhabited V]

/-- The constructor. -/
def Table.new (initialCapacity : Nat) : Table K V where
  initialCapacity := initialCapacity
  count := 0
  tableSize := initialCapacity
  hasTable := false
  hash := fun _ => MUSCLE_HASHTABLE_INVALID_HASH_CODE
  key := fun _ => default
  value := fun _ => default
  bucketPrev := fun _ => none
  bucketNext := fun _ => none
  iterPrev := fun _ => none
  iterNext := fun _ => none
  mapTo := id
  mappedFrom := id
  iterHead := none
  iterTail := none
  freeHead := none
  userKeyCompareFunc := none
  userValueCompareFunc := none
  autoSortMode := .disabled
  iterList := []
  iterators := fun _ => {}

end BeShare.Muscle.Hashtable
