import BeShare.Hashtable.Types
import BeShare.Lib.Checked

/-! The operations of `Hashtable`. Sizes and counters are 32-bit words. -/

namespace BeShare.Muscle.Hashtable

open BeShare.Lib

variable {K V : Type}

/-- `ComputeHash`: the guard value is not used as a hash code. -/
def computeHash (functor : K → UInt32) (key : K) : UInt32 :=
  if functor key = MUSCLE_HASHTABLE_INVALID_HASH_CODE then functor key + 1 else functor key

namespace Table

/-! ### Entries, chains and the free list -/

/-- The index of the home slot of a hash code. -/
def home (t : Table K V) (hash : UInt32) : Nat := hash.toNat % t.tableSize

/-- `IsBucketHead`. -/
def isBucketHead (t : Table K V) (e : Nat) : Prop :=
  t.hash e ≠ MUSCLE_HASHTABLE_INVALID_HASH_CODE ∧ t.mapTo (t.home (t.hash e)) = e

instance (t : Table K V) (e : Nat) : Decidable (t.isBucketHead e) := by
  unfold isBucketHead
  infer_instance

/-- `HashtableEntry::CreateEntriesArray`, and `_freeHead = _table`. -/
def createEntriesArray [Inhabited K] [Inhabited V] (t : Table K V) : Table K V :=
  { t with
    hasTable := true
    hash := fun _ => MUSCLE_HASHTABLE_INVALID_HASH_CODE
    key := fun _ => default
    value := fun _ => default
    bucketPrev := fun i => if i = 0 then none else some (i - 1)
    bucketNext := fun i => if i + 1 < t.tableSize then some (i + 1) else none
    iterPrev := fun _ => none
    iterNext := fun _ => none
    mapTo := id
    mappedFrom := id
    freeHead := some 0 }

/-- `HashtableEntry::RemoveFromFreeList`, and the assignment of its result to `_freeHead`. -/
def removeFromFreeList (t : Table K V) (e : Nat) : Table K V :=
  let bucketPrev := storeAt t.bucketPrev (t.bucketNext e) (t.bucketPrev e)
  let bucketNext := storeAt t.bucketNext (bucketPrev e) (t.bucketNext e)
  { t with
    freeHead := if t.freeHead = some e then bucketNext e else t.freeHead
    bucketPrev := Function.update bucketPrev e none
    bucketNext := Function.update bucketNext e none }

/-- `HashtableEntry::ReturnToFreeList`. -/
def returnToFreeList [Inhabited K] [Inhabited V] (t : Table K V) (e : Nat) : Table K V :=
  { t with
    hash := Function.update t.hash e MUSCLE_HASHTABLE_INVALID_HASH_CODE
    key := Function.update t.key e default
    value := Function.update t.value e default
    iterPrev := Function.update t.iterPrev e none
    iterNext := Function.update t.iterNext e none
    bucketPrev := storeAt (Function.update t.bucketPrev e none) t.freeHead (some e)
    bucketNext := Function.update t.bucketNext e t.freeHead
    freeHead := some e }

/-- `this->SwapMaps(e)` of two slots. -/
def swapMaps (t : Table K V) (this e : Nat) : Table K V :=
  let mapTo := Function.update (Function.update t.mapTo e (t.mapTo this)) this (t.mapTo e)
  { t with
    mapTo := mapTo
    mappedFrom := Function.update (Function.update t.mappedFrom (mapTo this) this) (mapTo e) e }

/-! ### Iterators -/

/-- `IterateCookie`. -/
def iterateCookie (t : Table K V) (cookie : Option Nat) (backwards : Bool) : Option Nat :=
  cookie.bind fun e => if backwards then t.iterPrev e else t.iterNext e

/-- `HashtableIterator::GetNextKey`: the entry whose key is returned, and the iterator behind it. -/
def getNextKey (t : Table K V) (iter : HashtableIterator) : Option Nat × HashtableIterator :=
  match iter.owned, iter.nextKeyCookie with
  | true, some e =>
    (some e, { iter with nextKeyCookie := t.iterateCookie iter.nextKeyCookie iter.backwards })
  | _, _ => (none, iter)

/-- `HashtableIterator::GetNextValue`: the entry whose value is returned. -/
def getNextValue (t : Table K V) (iter : HashtableIterator) : Option Nat × HashtableIterator :=
  match iter.owned, iter.nextValueCookie with
  | true, some e =>
    (some e, { iter with nextValueCookie := t.iterateCookie iter.nextValueCookie iter.backwards })
  | _, _ => (none, iter)

/-- `InitializeIterator`, without the registration. -/
def initializeIterator (t : Table K V) (backwards : Bool) : HashtableIterator where
  nextKeyCookie := if backwards then t.iterTail else t.iterHead
  nextValueCookie := if backwards then t.iterTail else t.iterHead
  backwards := backwards
  owned := true

/-- Calls `GetNextKey` and `GetNextValue` until they return `NULL`, at most `steps` times. -/
def iterate (t : Table K V) : Nat → HashtableIterator → List (K × V)
  | 0, _ => []
  | steps + 1, iter =>
    match t.getNextKey iter with
    | (some e, iter) =>
      match t.getNextValue iter with
      | (some f, iter) => (t.key e, t.value f) :: iterate t steps iter
      | (none, _) => []
    | (none, _) => []

/-- The loops over `_iterList`. -/
def onIterList (t : Table K V) (f : HashtableIterator → HashtableIterator) :
    Nat → HashtableIterator :=
  fun i => if i ∈ t.iterList then f (t.iterators i) else t.iterators i

/-! ### The iteration list -/

/-- `optBehindThis ? optBehindThis->_iterNext : _iterHead`. -/
def iterBehind (t : Table K V) (optBehindThis : Option Nat) : Option Nat :=
  match optBehindThis with
  | some b => t.iterNext b
  | none => t.iterHead

/-- `InsertIterationEntry`. -/
def insertIterationEntry (t : Table K V) (e : Nat) (optBehindThis : Option Nat) : Table K V :=
  let next := t.iterBehind optBehindThis
  { t with
    iterPrev := storeAt (Function.update t.iterPrev e optBehindThis) next (some e)
    iterNext := storeAt (Function.update t.iterNext e next) optBehindThis (some e)
    iterHead := if optBehindThis.isSome then t.iterHead else some e
    iterTail := if next.isSome then t.iterTail else some e }

/-- What `RemoveIterationEntry` does with an iterator that stands on `e`: it goes on to the next
entry. -/
def leaveEntry (t : Table K V) (e : Nat) (iter : HashtableIterator) : HashtableIterator :=
  let iter := if iter.nextKeyCookie = some e then (t.getNextKey iter).2 else iter
  if iter.nextValueCookie = some e then (t.getNextValue iter).2 else iter

/-- `RemoveIterationEntry`. -/
def removeIterationEntry (t : Table K V) (e : Nat) : Table K V :=
  let iterNext := storeAt t.iterNext (t.iterPrev e) (t.iterNext e)
  let iterPrev := storeAt t.iterPrev (iterNext e) (t.iterPrev e)
  { t with
    iterators := t.onIterList (t.leaveEntry e)
    iterHead := if t.iterHead = some e then t.iterNext e else t.iterHead
    iterTail := if t.iterTail = some e then t.iterPrev e else t.iterTail
    iterNext := Function.update iterNext e none
    iterPrev := Function.update iterPrev e none }

/-- `CompareEntries`. -/
def compareEntries (t : Table K V) (optKeyFunc : Option (K → K → Int))
    (optValueFunc : Option (V → V → Int)) (left right : Nat) : Int :=
  match optValueFunc, optKeyFunc with
  | some f, _ => f (t.value left) (t.value right)
  | none, some f => f (t.key left) (t.key right)
  | none, none => 0

/-- The loop of `InsertSortedIterationEntry` that looks for the place of `e` in the middle. -/
def sortedPlace (t : Table K V) (compare : Nat → Nat → Int) (e : Nat) :
    Nat → Nat → Option Nat → Option Nat
  | 0, _, _ => t.iterTail
  | _ + 1, _, none => t.iterTail
  | fuel + 1, prev, some next =>
    if compare e next < 0 then some prev else sortedPlace t compare e fuel next (t.iterNext next)

/-- `InsertSortedIterationEntry`. -/
def insertSortedIterationEntry (t : Table K V) (e : Nat) (optKeyFunc : Option (K → K → Int))
    (optValueFunc : Option (V → V → Int)) : Table K V :=
  let compare := t.compareEntries optKeyFunc optValueFunc
  match t.iterHead, t.iterTail with
  | some head, some tail =>
    if optKeyFunc.isSome ∨ optValueFunc.isSome then
      if compare e head < 0 then t.insertIterationEntry e none
      else if compare e tail < 0 then
        t.insertIterationEntry e (t.sortedPlace compare e t.count head (t.iterNext head))
      else t.insertIterationEntry e t.iterTail
    else t.insertIterationEntry e t.iterTail
  | _, _ => t.insertIterationEntry e t.iterTail

/-- The place in the iteration list of an entry that was put: at the end, or in the sort order. -/
def insertByMode (t : Table K V) (e : Nat) : Table K V :=
  t.insertSortedIterationEntry e
    (if t.autoSortMode = .byKey then t.userKeyCompareFunc else none)
    (if t.autoSortMode = .byValue then t.userValueCompareFunc else none)

/-! ### Lookups -/

variable [BEq K]

/-- The comparison of keys: `_userKeyCompareFunc` if there is one, and `==` otherwise. -/
def keysEqual (t : Table K V) (held key : K) : Bool :=
  match t.userKeyCompareFunc with
  | some f => f held key = 0
  | none => held == key

/-- The loop of `GetEntry` along a chain. -/
def findInChain (t : Table K V) (hash : UInt32) (key : K) : Nat → Option Nat → Option Nat
  | 0, _ => none
  | _ + 1, none => none
  | fuel + 1, some e =>
    if t.hash e = hash ∧ t.keysEqual (t.key e) key then some e
    else findInChain t hash key fuel (t.bucketNext e)

/-- `GetEntry`. -/
def getEntry (t : Table K V) (hash : UInt32) (key : K) : Option Nat :=
  let e := t.mapTo (t.home hash)
  if t.isBucketHead e then t.findInChain hash key t.tableSize (some e) else none

variable (functor : K → UInt32)

/-- `(_count>0) ? GetEntry(ComputeHash(key), key) : NULL`. -/
def lookup (t : Table K V) (key : K) : Option Nat :=
  if t.count > 0 then t.getEntry (computeHash functor key) key else none

/-- `GetValue`. -/
def getValue (t : Table K V) (key : K) : Option V := (t.lookup functor key).map t.value

/-! ### Moves -/

/-- `MoveToFront`; the status is true for `B_NO_ERROR`. -/
def moveToFront (t : Table K V) (moveMe : K) : Table K V × Bool :=
  match t.lookup functor moveMe with
  | none => (t, false)
  | some e =>
    if (t.iterPrev e).isSome then ((t.removeIterationEntry e).insertIterationEntry e none, true)
    else (t, true)

/-- `MoveToBack`. -/
def moveToBack (t : Table K V) (moveMe : K) : Table K V × Bool :=
  match t.lookup functor moveMe with
  | none => (t, false)
  | some e =>
    if (t.iterNext e).isSome then
      let t := t.removeIterationEntry e
      (t.insertIterationEntry e t.iterTail, true)
    else (t, true)

/-- `MoveToBefore`. -/
def moveToBefore (t : Table K V) (moveMe toBeforeMe : K) : Table K V × Bool :=
  match t.lookup functor moveMe, t.lookup functor toBeforeMe with
  | some e, some f =>
    if e = f then (t, false)
    else if t.iterNext e ≠ some f then
      let t := t.removeIterationEntry e
      (t.insertIterationEntry e (t.iterPrev f), true)
    else (t, true)
  | _, _ => (t, false)

/-- `MoveToBehind`. -/
def moveToBehind (t : Table K V) (moveMe toBehindMe : K) : Table K V × Bool :=
  match t.lookup functor toBehindMe, t.lookup functor moveMe with
  | some d, some e =>
    if d = e then (t, false)
    else if t.iterPrev e ≠ some d then
      ((t.removeIterationEntry e).insertIterationEntry e (some d), true)
    else (t, true)
  | _, _ => (t, false)

end Table

end BeShare.Muscle.Hashtable
