import BeShare.Hashtable.Table

/-! The operations of `Hashtable` that change its content or its size, and `SortByAux`. -/

namespace BeShare.Muscle.Hashtable

open BeShare.Lib

/-! ### Sizes -/

/-- The inner loop of `NextPrime`: the value of `i` at its end. -/
def divisorLoop (start : Nat) : Nat → Nat → Run Nat
  | 0, _ => .error .outOfFuel
  | fuel + 1, i =>
    if i * i % 2 ^ 32 ≤ start then
      if start % i = 0 then .ok i else divisorLoop start fuel ((i + 2) % 2 ^ 32)
    else .ok i

/-- The outer loop of `NextPrime`. -/
def primeLoop : Nat → Nat → Run Nat
  | 0, _ => .error .outOfFuel
  | fuel + 1, start => do
    let i ← divisorLoop start fuel 3
    if i * i % 2 ^ 32 > start then .ok start else primeLoop fuel ((start + 2) % 2 ^ 32)

/-- `NextPrime`. -/
def nextPrime (fuel start : Nat) : Run Nat :=
  primeLoop fuel (if start % 2 = 0 then start + 1 else start)

namespace Table

variable {K V : Type}

/-- What `PutAux` returns: the table, the entry or `NULL`, and the value that was replaced. -/
abbrev PutResult (K V : Type) := Table K V × Option Nat × Option V

/-! ### `EnsureSize` -/

/-- The redirection of an iterator that stands on `next`. -/
def redirect (next hisClone : Nat) (iter : HashtableIterator) : HashtableIterator :=
  { iter with
    scratchKey := if iter.nextKeyCookie = some next then some hisClone else iter.scratchKey
    scratchValue := if iter.nextValueCookie = some next then some hisClone else iter.scratchValue }

/-- The loop of `EnsureSize` that copies all entries to the bigger table. The flag is false if there
was no memory. -/
def rehash (putAux : Table K V → UInt32 → K → V → Run (PutResult K V)) :
    Nat → Table K V → Option Nat → Table K V → Run (Table K V × Table K V × Bool)
  | _, t, none, biggerTable => .ok (t, biggerTable, true)
  | 0, _, some _, _ => .error .outOfFuel
  | fuel + 1, t, some next, biggerTable => do
    let (biggerTable, hisClone, _) ← putAux biggerTable (t.hash next) (t.key next) (t.value next)
    match hisClone with
    | none => return (t, biggerTable, false)
    | some hisClone =>
      rehash putAux fuel { t with iterators := t.onIterList (redirect next hisClone) }
        (t.iterNext next) biggerTable

/-- The first loop of `EnsureSize` over the iterators, and the last one. -/
def clearScratch (iter : HashtableIterator) : HashtableIterator :=
  { iter with scratchKey := none, scratchValue := none }

def useScratch (iter : HashtableIterator) : HashtableIterator :=
  { iter with nextKeyCookie := iter.scratchKey, nextValueCookie := iter.scratchValue }

/-- The table that `EnsureSize` fills: its constructor, and the functions and the mode of `t`. -/
def biggerTable [Inhabited K] [Inhabited V] (t : Table K V) (size : Nat) : Table K V :=
  { Table.new size with
    userKeyCompareFunc := t.userKeyCompareFunc
    userValueCompareFunc := t.userValueCompareFunc
    autoSortMode := t.autoSortMode }

/-- `SwapContents(biggerTable)`, between the lines that keep the iterator list of `t`. -/
def takeContents (t bigger : Table K V) : Table K V :=
  { bigger with
    initialCapacity := t.initialCapacity
    iterList := t.iterList
    iterators := t.iterators }

/-- `EnsureSize`; the entries are copied with `putAux`. -/
def ensureSizeWith [Inhabited K] [Inhabited V]
    (putAux : Table K V → UInt32 → K → V → Run (PutResult K V)) (fuel : Nat) (t : Table K V)
    (requestedSize : Nat) : Run (Table K V × Bool) :=
  if t.tableSize ≥ requestedSize then .ok (t, true)
  else do
    let t := { t with iterators := t.onIterList clearScratch }
    let size ← nextPrime fuel (max t.count requestedSize)
    let (t, bigger, done) ← rehash putAux fuel t t.iterHead (t.biggerTable size)
    if done then
      let t := t.takeContents bigger
      return ({ t with iterators := t.onIterList useScratch }, true)
    else return (t, false)

/-! ### `PutAux` -/

/-- The loop of `PutAux` that goes back (or on) while the value belongs before (or behind) the next
entry. -/
def sortedFrom (step : Nat → Option Nat) (goesOn : Nat → Bool) : Nat → Nat → Nat
  | 0, place => place
  | fuel + 1, place =>
    match step place with
    | some next => if goesOn next then sortedFrom step goesOn fuel next else place
    | none => place

/-- The entry that a new key goes to, in the chain behind `slot` or as the first of its chain. -/
def placeEntry (t : Table K V) (hash : UInt32) : Run (Table K V × Nat) :=
  let slot := t.mapTo (t.home hash)
  if t.isBucketHead slot then
    match t.freeHead with
    | none => .error .nullPointer
    | some e =>
      let t := t.removeFromFreeList e
      let next := t.bucketNext slot
      .ok ({ t with
        bucketPrev := storeAt (Function.update t.bucketPrev e (some slot)) next (some e)
        bucketNext := Function.update (Function.update t.bucketNext e next) slot (some e) }, e)
  else if t.hash slot ≠ MUSCLE_HASHTABLE_INVALID_HASH_CODE then
    -- some other bucket is using the starter slot, which is swapped for a free one
    match t.freeHead with
    | none => .error .nullPointer
    | some free =>
      let t := t.swapMaps (t.mappedFrom slot) (t.mappedFrom free)
      .ok (t.removeFromFreeList free, free)
  else .ok (t.removeFromFreeList slot, slot)

/-- The part of `PutAux` that puts a new key into a free slot. -/
def putNew (t : Table K V) (hash : UInt32) (key : K) (value : V) : Run (PutResult K V) := do
  let (t, e) ← t.placeEntry hash
  let t := { t with
    hash := Function.update t.hash e hash
    key := Function.update t.key e key
    value := Function.update t.value e value }
  let t := t.insertByMode e
  return ({ t with count := t.count + 1 }, some e, none)

/-- The part of `RemoveAux` that takes an entry out of its chain. -/
def unchain (t : Table K V) (e : Nat) : Table K V :=
  match t.bucketPrev e, t.bucketNext e with
  | some prev, next => { t with
      bucketNext := Function.update t.bucketNext prev next
      bucketPrev := storeAt t.bucketPrev next (some prev) }
  | none, some next =>
    let t := { t with bucketPrev := Function.update t.bucketPrev next none }
    t.swapMaps (t.mappedFrom e) (t.mappedFrom next)
  | none, none => t

variable [BEq K] (functor : K → UInt32)

/-- The part of `PutAux` that moves an entry whose value was replaced to its place in the order. -/
def repositionByValue (t : Table K V) (e : Nat) : Table K V :=
  match t.autoSortMode, t.userValueCompareFunc with
  | .byValue, some f =>
    let before := fun other => decide (f (t.value e) (t.value other) < 0)
    let behind := fun other => decide (f (t.value e) (t.value other) > 0)
    match (t.iterPrev e).filter before, (t.iterNext e).filter behind with
    | some prev, _ =>
      (t.moveToBefore functor (t.key e) (t.key (sortedFrom t.iterPrev before t.count prev))).1
    | none, some next =>
      (t.moveToBehind functor (t.key e) (t.key (sortedFrom t.iterNext behind t.count next))).1
    | none, none => t
  | _, _ => t

variable [Inhabited K] [Inhabited V] (memory : Memory)

/-- `PutAux`, for at most `depth` calls of itself inside each other. -/
def putAux (fuel : Nat) : Nat → Table K V → UInt32 → K → V → Run (PutResult K V)
  | 0, _, _, _, _ => .error .outOfFuel
  | depth + 1, t, hash, key, value =>
    if t.hasTable = false ∧ memory.allocates t.tableSize = false then .ok (t, none, none)
    else
      let t := if t.hasTable then t else t.createEntriesArray
      match t.getEntry hash key with
      | some e =>
        let previous := t.value e
        let t := { t with value := Function.update t.value e value }
        .ok (t.repositionByValue functor e, some e, some previous)
      | none =>
        if t.count = t.tableSize then do
          let (t, done) ← t.ensureSizeWith (putAux fuel depth) fuel (t.tableSize * 2 % 2 ^ 32)
          if done then putAux fuel depth t hash key value else return (t, none, none)
        else t.putNew hash key value

/-- `Put`: the status, and the value that was replaced. -/
def put (fuel : Nat) (t : Table K V) (key : K) (value : V) : Run (Table K V × Bool × Option V) := do
  let (t, e, previous) ← putAux functor memory fuel fuel t (computeHash functor key) key value
  return (t, e.isSome, previous)

/-- `EnsureSize`. -/
def ensureSize (fuel : Nat) (t : Table K V) (requestedSize : UInt32) : Run (Table K V × Bool) :=
  t.ensureSizeWith (putAux functor memory fuel fuel) fuel requestedSize.toNat

/-! ### Removals -/

/-- `RemoveAux`; the status is `B_NO_ERROR` if there is a removed value. -/
def removeAux (t : Table K V) (key : K) : Table K V × Option V :=
  match t.lookup functor key with
  | none => (t, none)
  | some e =>
    let t := t.removeIterationEntry e
    let removed := t.value e
    let t := (t.unchain e).returnToFreeList e
    ({ t with count := t.count - 1 }, some removed)

/-- An iterator of a table that is cleared. -/
def orphan (iter : HashtableIterator) : HashtableIterator :=
  { iter with owned := false, nextKeyCookie := none, nextValueCookie := none }

section

omit [BEq K]

/-- The loop of `Clear` that resets the entries from `_iterHead` on. -/
def resetEntries : Nat → Table K V → Table K V
  | 0, t => t
  | fuel + 1, t =>
    match t.iterHead with
    | none => t
    | some e =>
      let next := t.iterNext e
      resetEntries fuel { t.returnToFreeList e with iterHead := next }

/-- The parts of `Clear`: the iterators, the entries and the buffers. -/
def clearIterators (t : Table K V) : Table K V :=
  { t with iterators := t.onIterList orphan, iterList := [] }

def clearEntries (t : Table K V) (releaseCachedBuffers : Bool) : Table K V :=
  if t.count > 0 then
    let t := if releaseCachedBuffers then t else resetEntries t.count t
    { t with iterHead := none, iterTail := none, count := 0 }
  else t

def releaseBuffers (t : Table K V) : Table K V :=
  { t with hasTable := false, freeHead := none, tableSize := t.initialCapacity }

/-- `Clear`. -/
def clear (t : Table K V) (releaseCachedBuffers : Bool) : Table K V :=
  let t := t.clearIterators.clearEntries releaseCachedBuffers
  if releaseCachedBuffers then t.releaseBuffers else t

/-! ### `SortByAux` -/

/-- The loop that steps `mergeSize` places along from `q`: `psize`, and `q` at its end. -/
def stepAlong (t : Table K V) : Nat → Nat → Nat × Option Nat
  | 0, q => (0, some q)
  | mergeSize + 1, q =>
    match t.iterNext q with
    | none => (1, none)
    | some next => ((t.stepAlong mergeSize next).1 + 1, (t.stepAlong mergeSize next).2)

/-- Appends `e` to the more-sorted list. -/
def appendSorted (t : Table K V) (e : Nat) : Table K V :=
  { t with
    iterHead := if t.iterTail.isSome then t.iterHead else some e
    iterNext := storeAt t.iterNext t.iterTail (some e)
    iterPrev := Function.update t.iterPrev e t.iterTail
    iterTail := some e }

/-- The loop that merges two lists: the table, and `q` at its end. -/
def mergeLoop (compare : Nat → Nat → Int) :
    Nat → Table K V → Option Nat → Nat → Option Nat → Nat → Run (Table K V × Option Nat)
  | 0, _, _, _, _, _ => .error .outOfFuel
  | fuel + 1, t, p, psize, q, qsize =>
    if psize > 0 ∨ qsize > 0 ∧ q.isSome then
      match p, q with
      | some x, some y =>
        if psize = 0 then
          mergeLoop compare fuel (t.appendSorted y) p psize (t.iterNext y) (qsize - 1)
        else if qsize = 0 ∨ compare x y ≤ 0 then
          mergeLoop compare fuel (t.appendSorted x) (t.iterNext x) (psize - 1) q qsize
        else mergeLoop compare fuel (t.appendSorted y) p psize (t.iterNext y) (qsize - 1)
      | none, some y =>
        if psize = 0 then
          mergeLoop compare fuel (t.appendSorted y) p psize (t.iterNext y) (qsize - 1)
        else .error .nullPointer
      | some x, none =>
        if psize = 0 then .error .nullPointer
        else mergeLoop compare fuel (t.appendSorted x) (t.iterNext x) (psize - 1) q qsize
      | none, none => .error .nullPointer
    else .ok (t, q)

/-- One pass over the list: the table, and `numMerges`. -/
def mergePass (compare : Nat → Nat → Int) (mergeSize fuel : Nat) :
    Nat → Table K V → Option Nat → Nat → Run (Table K V × Nat)
  | _, t, none, numMerges => .ok (t, numMerges)
  | 0, _, some _, _ => .error .outOfFuel
  | steps + 1, t, some p, numMerges => do
    let (psize, q) := t.stepAlong mergeSize p
    let (t, q) ← mergeLoop compare fuel t (some p) psize q mergeSize
    mergePass compare mergeSize fuel steps t q (numMerges + 1)

/-- The passes, with lists of `mergeSize` entries, and of twice the size in the next pass. -/
def sortLoop (compare : Nat → Nat → Int) (fuel : Nat) : Nat → Table K V → Nat → Run (Table K V)
  | 0, _, _ => .error .outOfFuel
  | steps + 1, t, mergeSize => do
    let (t, numMerges) ←
      mergePass compare mergeSize fuel fuel { t with iterHead := none, iterTail := none } t.iterHead 0
    match t.iterTail with
    | none => .error .nullPointer
    | some tail =>
      let t := { t with iterNext := Function.update t.iterNext tail none }
      if numMerges ≤ 1 then .ok t else sortLoop compare fuel steps t (mergeSize * 2 % 2 ^ 32)

/-- `SortByAux`. -/
def sortByAux (fuel : Nat) (t : Table K V) (optKeyFunc : Option (K → K → Int))
    (optValueFunc : Option (V → V → Int)) : Run (Table K V × Bool) :=
  if optKeyFunc.isSome ∨ optValueFunc.isSome then
    if t.iterHead.isSome then do
      let t ← sortLoop (t.compareEntries optKeyFunc optValueFunc) fuel fuel t 1
      return (t, true)
    else .ok (t, true)
  else .ok (t, false)

/-- `SortByKey` and `SortByValue`. -/
def sortByKey (fuel : Nat) (t : Table K V) (func : Option (K → K → Int)) : Run (Table K V × Bool) :=
  t.sortByAux fuel func none

def sortByValue (fuel : Nat) (t : Table K V) (func : Option (V → V → Int)) :
    Run (Table K V × Bool) :=
  t.sortByAux fuel none func

end

end Table

end BeShare.Muscle.Hashtable
