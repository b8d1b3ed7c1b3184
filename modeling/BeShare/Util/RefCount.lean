import BeShare.Lib.Runs
import Mathlib.Data.Fintype.Card
import Mathlib.Data.Finset.Card

/-!
`Ref` and `RefCountable`: references that count themselves in the items they point to, and release an item with its last
count. References are variables, or members of items, which are destroyed with the item. What the language leaves
undefined (a reference that is gone, an object that is released again) has no result.
-/

namespace BeShare.Muscle.RefCounts

/-! ### Memory -/

/-- What has become of the memory of an item. An item is `inUse` from the first reference that counts on, until it is
released. -/
inductive Status where
  | blank
  | fresh
  | inUse
  | leaving
  | pooled
  | deleted
deriving DecidableEq

/-- `Ref` -/
structure Ref (I : Type) where
  item : Option I
  doRefCount : Bool
deriving DecidableEq

/-- The places of items and references, and what is fixed by their types. -/
structure Layout (I R : Type) where
  /-- The references that are members of an item. -/
  members : I → List R
  home : R → Option I
  mem_members : ∀ i r, r ∈ members i ↔ home r = some i
  /-- Whether an item has a manager, a pool. -/
  hasManager : I → Bool
  /-- Whether the recycle callback of the pool resets the item's references. -/
  callbackResets : I → Bool
  /-- Whether the pool takes another item, by what is in it. -/
  hasRoom : (I → Status) → I → Bool
  /-- Whether an item has the type of a reference's items. -/
  isA : R → I → Bool

structure Heap (I R : Type) where
  refs : R → Option (Ref I)
  count : I → Int
  status : I → Status
  /-- How often an item was recycled or deleted. -/
  releases : I → Nat

variable {I R : Type}

namespace Heap

/-- A program that has not begun. -/
def new (I R : Type) : Heap I R := ⟨fun _ => none, fun _ => 0, fun _ => .blank, fun _ => 0⟩

section References

variable [DecidableEq R]

def put (h : Heap I R) (r : R) (ref : Option (Ref I)) : Heap I R :=
  { h with refs := Function.update h.refs r ref }

/-- `_item = NULL`. A reference that is gone cannot be written. -/
def clear (h : Heap I R) (r : R) : Option (Heap I R) :=
  (h.refs r).map fun ref => h.put r (some { ref with item := none })

@[simp] theorem put_refs_self (h : Heap I R) (r : R) (ref : Option (Ref I)) : (h.put r ref).refs r = ref :=
  Function.update_self ..

theorem put_refs_ne (h : Heap I R) {r q : R} (hNe : q ≠ r) (ref : Option (Ref I)) :
    (h.put r ref).refs q = h.refs q :=
  Function.update_of_ne hNe ..

@[simp] theorem put_status (h : Heap I R) (r : R) (ref : Option (Ref I)) : (h.put r ref).status = h.status := rfl

@[simp] theorem put_count (h : Heap I R) (r : R) (ref : Option (Ref I)) : (h.put r ref).count = h.count := rfl

end References

section Items

variable [DecidableEq I]

def setStatus (h : Heap I R) (i : I) (status : Status) : Heap I R :=
  { h with status := Function.update h.status i status }

/-- The release of an item begins. -/
def leave (h : Heap I R) (i : I) : Heap I R :=
  { h with
    status := Function.update h.status i .leaving
    releases := Function.update h.releases i (h.releases i + 1) }

/-- `DecrementRefCount`, without its result. -/
def decrement (h : Heap I R) (i : I) : Heap I R :=
  { h with count := Function.update h.count i (h.count i - 1) }

/-- `IncrementRefCount` -/
def increment (h : Heap I R) (i : I) : Heap I R :=
  { h with
    count := Function.update h.count i (h.count i + 1)
    status := if h.status i = .fresh then Function.update h.status i .inUse else h.status }

@[simp] theorem setStatus_self (h : Heap I R) (i : I) (status : Status) : (h.setStatus i status).status i = status :=
  Function.update_self ..

theorem setStatus_ne (h : Heap I R) {i j : I} (hNe : j ≠ i) (status : Status) :
    (h.setStatus i status).status j = h.status j :=
  Function.update_of_ne hNe ..

@[simp] theorem leave_self (h : Heap I R) (i : I) : (h.leave i).status i = .leaving :=
  Function.update_self ..

theorem leave_ne (h : Heap I R) {i j : I} (hNe : j ≠ i) : (h.leave i).status j = h.status j :=
  Function.update_of_ne hNe ..

@[simp] theorem decrement_refs (h : Heap I R) (i : I) : (h.decrement i).refs = h.refs := rfl

theorem increment_status (h : Heap I R) (i j : I) :
    (h.increment i).status j = if j = i ∧ h.status i = .fresh then .inUse else h.status j := by
  unfold increment
  by_cases hFresh : h.status i = .fresh
  · simp only [hFresh, if_true, Function.update_apply, and_true]
  · simp only [hFresh, if_false, and_false]

end Items

/-- The fields of a reference are set, then `RefItem` is called. -/
def point [DecidableEq I] [DecidableEq R] (h : Heap I R) (r : R) (item : Option I) (doRefCount : Bool) : Heap I R :=
  match item, doRefCount with
  | some i, true => (h.put r (some ⟨item, doRefCount⟩)).increment i
  | _, _ => h.put r (some ⟨item, doRefCount⟩)

end Heap

variable [DecidableEq I] [DecidableEq R]

/-! ### Releasing -/

/-- The references of an item, one after the other: they are reset, and if the item is deleted they are gone then. -/
def dropMembers (unrefItem : Heap I R → R → Option (Heap I R)) (areGone : Bool) :
    Heap I R → List R → Option (Heap I R)
  | h, [] => some h
  | h, r :: rest =>
    match h.refs r with
    | none => dropMembers unrefItem areGone h rest
    | some _ => (unrefItem h r).bind fun h => dropMembers unrefItem areGone (if areGone then h.put r none else h) rest

/-- `delete` -/
def deleteItem (L : Layout I R) (unrefItem : Heap I R → R → Option (Heap I R)) (h : Heap I R) (i : I) :
    Option (Heap I R) :=
  (dropMembers unrefItem true h (L.members i)).map fun h => h.setStatus i .deleted

/-- `RecycleObject`, or `delete` if there is no manager. -/
def release (L : Layout I R) (unrefItem : Heap I R → R → Option (Heap I R)) (h : Heap I R) (i : I) :
    Option (Heap I R) :=
  if h.status i ≠ .inUse then none
  else
    let h := h.leave i
    if L.hasManager i then
      (dropMembers unrefItem false h (if L.callbackResets i then L.members i else [])).bind fun h =>
        if L.hasRoom h.status i then some (h.setStatus i .pooled) else deleteItem L unrefItem h i
    else deleteItem L unrefItem h i

/-- `UnrefItem`. What it releases may release more, so many items deep. -/
def unrefItem (L : Layout I R) : (depth : Nat) → Heap I R → R → Option (Heap I R)
  | 0, _, _ => none
  | depth + 1, h, r =>
    (h.refs r).bind fun ref =>
      match ref.item with
      | none => some h
      | some i =>
        if ref.doRefCount then
          let h := h.decrement i
          if h.count i = 0 then (release L (unrefItem L depth) h i).bind fun h => h.clear r else h.clear r
        else h.clear r

/-! ### What can be done with references -/

/-- One operation on references. -/
inductive Step (I R : Type) where
  | construct (r : R) (item : Option I) (doRefCount : Bool)
  | copyConstruct (r b : R)
  | constructFromGeneric (r g : R)
  | assign (a b : R)
  | setRef (a : R) (item : Option I) (doRefCount : Bool)
  | setFromGeneric (a g : R)
  | reset (a : R)
  | swapContents (a b : R)
  | destroy (a : R)
  | obtainObject (i : I)

namespace Heap

variable [Fintype I] (L : Layout I R) (h : Heap I R)

/-- An item is released once, so what is released is no deeper than there are items. -/
def unref (r : R) : Option (Heap I R) :=
  unrefItem L (Fintype.card I + 1) h r

def setRef (a : R) (item : Option I) (doRefCount : Bool) : Option (Heap I R) :=
  (h.refs a).bind fun ref =>
    if item = ref.item then
      if doRefCount = ref.doRefCount then some h
      else if doRefCount then some (h.point a item true)
      else (h.unref L a).bind fun h => (h.refs a).map fun ref => h.put a (some { ref with doRefCount := false })
    else (h.unref L a).map fun h => h.point a item doRefCount

/-- `operator =` -/
def assign (a b : R) : Option (Heap I R) :=
  if a = b then some h else (h.refs b).bind fun ref => h.setRef L a ref.item ref.doRefCount

/-- Whether `SetFromGeneric` succeeds: the item has the right type, if there is one. -/
def converts (a : R) (item : Option I) : Bool :=
  (item.map fun i => L.isA a i).getD true

def setFromGeneric (a g : R) : Option (Heap I R) :=
  (h.refs g).bind fun ref =>
    match ref.item with
    | some i => if L.isA a i then h.setRef L a (some i) ref.doRefCount else some h
    | none => some h

/-- `IsRefPrivate` -/
def isRefPrivate (ref : Ref I) : Bool :=
  match ref.item with
  | none => true
  | some i => ref.doRefCount && h.count i == 1

/-- One operation. A place is constructed once. -/
def step : Step I R → Option (Heap I R)
  | .construct r item doRefCount => some (h.point r item doRefCount)
  | .copyConstruct r b => (h.put r (some ⟨none, true⟩)).assign L r b
  | .constructFromGeneric r g => (h.put r (some ⟨none, true⟩)).setFromGeneric L r g
  | .assign a b => h.assign L a b
  | .setRef a item doRefCount => h.setRef L a item doRefCount
  | .setFromGeneric a g => h.setFromGeneric L a g
  | .reset a => h.unref L a
  | .swapContents a b => some ((h.put a (h.refs b)).put b (h.refs a))
  | .destroy a => (h.unref L a).map fun h => h.put a none
  | .obtainObject i => some (h.setStatus i .fresh)

end Heap

/-- Operations, and `EnsureRefIsPrivate`, with the item that it is given by the pool or by `new`. -/
inductive Op (I R : Type) where
  | step (s : Step I R)
  | ensureRefIsPrivate (a : R) (newItem : I)

/-- `*newItem = *_item` copies member by member. -/
def copySteps (L : Layout I R) (h : Heap I R) (newItem item : I) : List (Step I R) :=
  ((L.members newItem).zip (L.members item)).flatMap fun (r, b) =>
    match h.refs r, h.refs b with
    | some _, some _ => [.assign r b]
    | none, some _ => [.copyConstruct r b]
    | some _, none => [.destroy r]
    | none, none => []

/-- What an operation does, one after the other. -/
def Op.steps (L : Layout I R) (h : Heap I R) : Op I R → List (Step I R)
  | .step s => [s]
  | .ensureRefIsPrivate a newItem =>
    match h.refs a with
    | none => []
    | some ref =>
      match ref.item with
      | none => []
      | some item =>
        if h.isRefPrivate ref then []
        else .obtainObject newItem :: copySteps L h newItem item ++ [.setRef a (some newItem) true]

namespace Heap

variable [Fintype I]

def perform (L : Layout I R) (h : Heap I R) (op : Op I R) : Option (Heap I R) :=
  (op.steps L h).foldlM (step L) h

def run (L : Layout I R) (ops : List (Op I R)) (h : Heap I R) : Option (Heap I R) :=
  ops.foldlM (perform L) h

end Heap

end BeShare.Muscle.RefCounts
