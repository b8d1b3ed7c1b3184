import BeShare.Lib.Hereditary
import BeShare.Reflect.PathMatcher
import Mathlib.Data.List.InsertIdx

/-!
A `DataNode` with all that is below it: its data, its children by their names, and the ordered index with the names of
the children that were inserted in an order. Here are the functions of `DataNode.cpp` that change children or index.
-/

namespace BeShare.Muscle.Reflect

open BeShare.Lib

inductive DataTree (Msg : Type) where
  | mk (data : Option Msg) (children : List (Str × DataTree Msg)) (orderedIndex : List Str) (orderedCounter : UInt32)

/-- A slot in a list by the last of its items that is this one. -/
def lastIndexOf (key : Str) : List Str → Option Nat
  | [] => none
  | entry :: rest =>
    match lastIndexOf key rest with
    | some i => some (i + 1)
    | none => if entry = key then some 0 else none

namespace DataTree

variable {Msg : Type}

def data : DataTree Msg → Option Msg
  | mk data _ _ _ => data

def children : DataTree Msg → List (Str × DataTree Msg)
  | mk _ children _ _ => children

def orderedIndex : DataTree Msg → List Str
  | mk _ _ orderedIndex _ => orderedIndex

def orderedCounter : DataTree Msg → UInt32
  | mk _ _ _ orderedCounter => orderedCounter

def setIndex (index : List Str) : DataTree Msg → DataTree Msg
  | mk data children _ counter => mk data children index counter

def setChildren (children : List (Str × DataTree Msg)) : DataTree Msg → DataTree Msg
  | mk data _ index counter => mk data children index counter

def setCounter (counter : UInt32) : DataTree Msg → DataTree Msg
  | mk data children index _ => mk data children index counter

/-- `SetData`, as far as the node itself is concerned -/
def setData (data : Option Msg) : DataTree Msg → DataTree Msg
  | mk _ children index counter => mk data children index counter

/-- `GetNewDataNode`. A node from the pool goes on with the counter of its last use. -/
def new (data : Option Msg) (pooled : UInt32) : DataTree Msg :=
  mk data [] [] pooled

variable (t : DataTree Msg)

def names : List Str :=
  t.children.map Prod.fst

def hasChild (key : Str) : Bool :=
  decide (key ∈ t.names)

/-- `GetChild` -/
def child? (key : Str) : Option (DataTree Msg) :=
  (t.children.find? fun child => child.1 == key).map Prod.snd

/-- The table of the children when another one is put: an old one with the name is replaced. -/
def putChild (name : Str) (child : DataTree Msg) : DataTree Msg :=
  t.setChildren (if t.hasChild name then
    t.children.map fun old => if old.1 = name then (name, child) else old
  else t.children ++ [(name, child)])

/-! ### The index -/

/-- `RemoveIndexEntry`, or nothing for its `B_ERROR`: what does not start with `I` is taken not to be there. -/
def removeIndexEntry (key : Str) : Option (DataTree Msg) :=
  if key.head? = some 'I' then (lastIndexOf key t.orderedIndex).map fun i => t.setIndex (t.orderedIndex.eraseIdx i)
  else none

/-- `RemoveIndexEntryAt` -/
def removeIndexEntryAt (removeIndex : Nat) : DataTree Msg :=
  t.setIndex (t.orderedIndex.eraseIdx removeIndex)

/-- `InsertIndexEntryAt` -/
def insertIndexEntryAt (insertIndex : Nat) (key : Str) : DataTree Msg :=
  if t.hasChild key ∧ insertIndex ≤ t.orderedIndex.length then
    t.setIndex (t.orderedIndex.insertIdx insertIndex key)
  else t

/-- `sprintf(temp, "I%lu", counter)` -/
def indexName (counter : UInt32) : Str :=
  'I' :: (Nat.repr counter.toNat).toList

/-- The loop that looks for a name that no child has, with the counter after it. -/
def findName : Nat → UInt32 → Option (Str × UInt32)
  | 0, _ => none
  | tries + 1, counter =>
    if t.hasChild (indexName counter) then findName tries (counter + 1)
    else some (indexName counter, counter + 1)

/-- Where a new entry goes. -/
def insertPosition (optInsertBefore : Option Str) : Nat :=
  match optInsertBefore with
  | some before =>
    if before.head? = some 'I' then (lastIndexOf before t.orderedIndex).getD t.orderedIndex.length
    else t.orderedIndex.length
  | none => t.orderedIndex.length

/-- `InsertOrderedChild`. A name is found within one try more than there are children. -/
def insertOrderedChild (data : Option Msg) (optInsertBefore optNodeName : Option Str) (pooled : UInt32) :
    DataTree Msg :=
  let named :=
    match optNodeName with
    | some name => some (name, t.orderedCounter)
    | none => t.findName (t.children.length + 1) t.orderedCounter
  match named with
  | some (name, counter) =>
    let insertIndex := t.insertPosition optInsertBefore
    let t := (t.setCounter counter).putChild name (new data pooled)
    t.setIndex (t.orderedIndex.insertIdx insertIndex name)
  | none => t

/-- `ReorderChild` -/
def reorderChild (name : Str) (moveToBeforeThis : Option Str) : DataTree Msg :=
  if moveToBeforeThis = some name then t
  else
    match t.removeIndexEntry name with
    | some t =>
      let targetIndex :=
        match moveToBeforeThis with
        | some before =>
          if t.hasChild before then (lastIndexOf before t.orderedIndex).getD t.orderedIndex.length
          else t.orderedIndex.length
        | none => t.orderedIndex.length
      t.setIndex (t.orderedIndex.insertIdx targetIndex name)
    | none => t

/-! ### Removing -/

/-- The index when these children were removed one after the other. -/
def removeIndexEntries (names : List Str) : DataTree Msg :=
  names.foldl (fun t name => (t.removeIndexEntry name).getD t) t

mutual

/-- The nodes that a recursive removal takes out of the tree, as they are after it. -/
def detached : DataTree Msg → List (DataTree Msg)
  | mk data children index counter =>
    detachedChildren children ++
      [((mk data [] index counter).removeIndexEntries (children.map Prod.fst)).setChildren []]

def detachedChildren : List (Str × DataTree Msg) → List (DataTree Msg)
  | [] => []
  | (_, child) :: rest => detached child ++ detachedChildren rest

end

/-- `RemoveChild`, with the nodes that are no longer in the tree -/
def removeChild (key : Str) (recurse : Bool) : DataTree Msg × List (DataTree Msg) :=
  match t.child? key with
  | some child =>
    let t := (t.removeIndexEntry key).getD t
    (t.setChildren (t.children.filter fun old => !(old.1 == key)), if recurse then child.detached else [child])
  | none => (t, [])

/-! ### What setting one field leaves alone -/

section Fields

variable {t : DataTree Msg} {index : List Str} {cs : List (Str × DataTree Msg)} {counter : UInt32}

@[simp] theorem orderedIndex_setIndex : (t.setIndex index).orderedIndex = index := by
  cases t
  rfl

@[simp] theorem children_setIndex : (t.setIndex index).children = t.children := by
  cases t
  rfl

@[simp] theorem names_setIndex : (t.setIndex index).names = t.names := by
  cases t
  rfl

@[simp] theorem orderedIndex_setChildren : (t.setChildren cs).orderedIndex = t.orderedIndex := by
  cases t
  rfl

@[simp] theorem children_setChildren : (t.setChildren cs).children = cs := by
  cases t
  rfl

@[simp] theorem orderedIndex_setCounter : (t.setCounter counter).orderedIndex = t.orderedIndex := by
  cases t
  rfl

@[simp] theorem children_setCounter : (t.setCounter counter).children = t.children := by
  cases t
  rfl

@[simp] theorem names_setCounter : (t.setCounter counter).names = t.names := by
  cases t
  rfl

@[simp] theorem orderedIndex_putChild {name : Str} {child : DataTree Msg} :
    (t.putChild name child).orderedIndex = t.orderedIndex :=
  orderedIndex_setChildren

end Fields

end DataTree

end BeShare.Muscle.Reflect
