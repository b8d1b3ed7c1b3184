import BeShare.Hashtable.Put
import Mathlib.Data.List.Perm.Basic

/-!
The representation invariant of `Hashtable`: the used entries in iteration order, the free entries
and the chains of the buckets, and the index structures that hold them.
-/

namespace BeShare.Muscle.Hashtable

open BeShare.Lib

/-- `mapTo` and `mappedFrom` are permutations of the slots, and inverse to each other. -/
structure MapsInverse (size : Nat) (mapTo mappedFrom : Nat → Nat) : Prop where
  mapTo_lt : ∀ i < size, mapTo i < size
  mappedFrom_lt : ∀ i < size, mappedFrom i < size
  mappedFrom_mapTo : ∀ i < size, mappedFrom (mapTo i) = i
  mapTo_mappedFrom : ∀ i < size, mapTo (mappedFrom i) = i

/-- Each chain holds exactly the used entries of its bucket, from the entry on that the bucket's slot
is mapped to. -/
structure Buckets (size : Nat) (next prev : Nat → Option Nat) (mapTo home : Nat → Nat)
    (used : List Nat) (chain : Nat → List Nat) : Prop where
  linked : ∀ b < size, Linked next prev (chain b)
  nodup : ∀ b < size, (chain b).Nodup
  head : ∀ b < size, ∀ e, (chain b).head? = some e → mapTo b = e
  mem : ∀ b < size, ∀ e, e ∈ chain b ↔ e ∈ used ∧ home e = b

namespace Table

variable {K V : Type}

/-- The iteration list. -/
structure IterationList (t : Table K V) (order : List Nat) : Prop where
  linked : Linked t.iterNext t.iterPrev order
  head : t.iterHead = order.head?
  tail : t.iterTail = order.getLast?

/-- The free list. -/
structure FreeList (t : Table K V) (free : List Nat) : Prop where
  linked : Linked t.bucketNext t.bucketPrev free
  head : t.freeHead = free.head?

variable [BEq K] (functor : K → UInt32)

/-- The index structures of an allocated table hold the entries of `order`. -/
structure Slots (t : Table K V) (order free : List Nat) (chain : Nat → List Nat) : Prop where
  perm : (order ++ free).Perm (List.range t.tableSize)
  count : t.count = order.length
  iteration : t.IterationList order
  freeList : t.FreeList free
  unused : ∀ e ∈ free, t.hash e = MUSCLE_HASHTABLE_INVALID_HASH_CODE
  used : ∀ e ∈ order, t.hash e = computeHash functor (t.key e)
  buckets : Buckets t.tableSize t.bucketNext t.bucketPrev t.mapTo (fun e => t.home (t.hash e)) order
    chain
  maps : MapsInverse t.tableSize t.mapTo t.mappedFrom
  distinct : ∀ e ∈ order, ∀ f ∈ order, t.keysEqual (t.key e) (t.key f) = true → e = f

/-- The table holds the entries of `order`. -/
structure Valid (t : Table K V) (order : List Nat) : Prop where
  capacity : 0 < t.initialCapacity ∧ t.initialCapacity < 2 ^ 32
  size : 0 < t.tableSize ∧ t.tableSize < 2 ^ 32
  unallocated : t.hasTable = false → order = [] ∧ t.count = 0 ∧ t.iterHead = none ∧ t.iterTail = none
  allocated : t.hasTable = true →
    t.tableSize < 2 ^ 30 ∧ ∃ free chain, t.Slots functor order free chain

/-- What no operation on the items changes. -/
structure Keeps (t t' : Table K V) : Prop where
  initialCapacity : t'.initialCapacity = t.initialCapacity
  userKeyCompareFunc : t'.userKeyCompareFunc = t.userKeyCompareFunc
  userValueCompareFunc : t'.userValueCompareFunc = t.userValueCompareFunc
  autoSortMode : t'.autoSortMode = t.autoSortMode

/-- What is only changed together with the entry array. -/
structure KeepsArray (t t' : Table K V) : Prop extends Keeps t t' where
  tableSize : t'.tableSize = t.tableSize
  hasTable : t'.hasTable = t.hasTable

/-- The items in iteration order. -/
def items (t : Table K V) (order : List Nat) : List (K × V) :=
  order.map fun e => (t.key e, t.value e)

end Table

/-- What the comparison of keys needs so that equal keys are found: it is an equivalence, and equal
keys have one hash code. -/
structure KeyEquality {K : Type} (functor : K → UInt32) (equal : K → K → Bool) : Prop where
  refl : ∀ a, equal a a = true
  symm : ∀ a b, equal a b = true → equal b a = true
  trans : ∀ a b c, equal a b = true → equal b c = true → equal a c = true
  hash : ∀ a b, equal a b = true → functor a = functor b

theorem Table.Keeps.keysEqual {K V : Type} [BEq K] {t t' : Table K V} (h : t.Keeps t') :
    t'.keysEqual = t.keysEqual := by
  funext a b
  simp only [Table.keysEqual, h.userKeyCompareFunc]

theorem Table.Keeps.trans {K V : Type} {t t' t'' : Table K V} (h : t.Keeps t') (h' : t'.Keeps t'') :
    t.Keeps t'' :=
  ⟨h'.1.trans h.1, h'.2.trans h.2, h'.3.trans h.3, h'.4.trans h.4⟩

theorem computeHash_valid {K : Type} (functor : K → UInt32) (key : K) :
    computeHash functor key ≠ MUSCLE_HASHTABLE_INVALID_HASH_CODE := by
  rw [computeHash]
  split
  · rename_i hInvalid
    rw [hInvalid]
    decide
  · assumption

theorem KeyEquality.computeHash {K : Type} {functor : K → UInt32} {equal : K → K → Bool}
    (h : KeyEquality functor equal) {a b : K} (hEqual : equal a b = true) :
    computeHash functor a = computeHash functor b := by
  rw [Hashtable.computeHash, Hashtable.computeHash, h.hash a b hEqual]

/-! ### The maps -/

theorem MapsInverse.inj {size : Nat} {mapTo mappedFrom : Nat → Nat}
    (h : MapsInverse size mapTo mappedFrom) {i j : Nat} (hi : i < size) (hj : j < size)
    (hEq : mapTo i = mapTo j) : i = j := by
  rw [← h.mappedFrom_mapTo i hi, hEq, h.mappedFrom_mapTo j hj]

theorem MapsInverse.id (size : Nat) : MapsInverse size id id :=
  ⟨fun _ hi => hi, fun _ hi => hi, fun _ _ => rfl, fun _ _ => rfl⟩

section swapMaps

variable {K V : Type} {t : Table K V} {x y : Nat}

theorem swapMaps_mapTo (t : Table K V) (x y : Nat) :
    (t.swapMaps x y).mapTo =
      Function.update (Function.update t.mapTo y (t.mapTo x)) x (t.mapTo y) := rfl

theorem swapMaps_left (t : Table K V) (x y : Nat) : (t.swapMaps x y).mapTo x = t.mapTo y := by
  rw [swapMaps_mapTo, Function.update_self]

theorem swapMaps_right (t : Table K V) (x y : Nat) : (t.swapMaps x y).mapTo y = t.mapTo x := by
  rw [swapMaps_mapTo]
  by_cases hxy : y = x
  · subst hxy
    rw [Function.update_self]
  · rw [Function.update_of_ne hxy, Function.update_self]

theorem swapMaps_other {z : Nat} (hx : z ≠ x) (hy : z ≠ y) :
    (t.swapMaps x y).mapTo z = t.mapTo z := by
  rw [swapMaps_mapTo, Function.update_of_ne hx, Function.update_of_ne hy]

theorem MapsInverse.swap (h : MapsInverse t.tableSize t.mapTo t.mappedFrom) (hx : x < t.tableSize)
    (hy : y < t.tableSize) :
    MapsInverse t.tableSize (t.swapMaps x y).mapTo (t.swapMaps x y).mappedFrom := by
  have hFrom : (t.swapMaps x y).mappedFrom =
      Function.update (Function.update t.mappedFrom (t.mapTo y) x) (t.mapTo x) y := by
    rw [← swapMaps_left t x y, ← swapMaps_right t x y]
    rfl
  -- where a slot is mapped to, and from
  have hTo : ∀ i, (t.swapMaps x y).mapTo i =
      if i = x then t.mapTo y else if i = y then t.mapTo x else t.mapTo i := by
    intro i
    split
    · subst i
      exact swapMaps_left t x y
    · split
      · subst i
        exact swapMaps_right t x y
      · exact swapMaps_other ‹_› ‹_›
  have hFromAt : ∀ i, (t.swapMaps x y).mappedFrom i =
      if i = t.mapTo x then y else if i = t.mapTo y then x else t.mappedFrom i := by
    intro i
    rw [hFrom, Function.update_apply, Function.update_apply]
  constructor
  · intro i hi
    rw [hTo]
    split
    · exact h.mapTo_lt y hy
    · split
      · exact h.mapTo_lt x hx
      · exact h.mapTo_lt i hi
  · intro i hi
    rw [hFromAt]
    split
    · exact hy
    · split
      · exact hx
      · exact h.mappedFrom_lt i hi
  · intro i hi
    rw [hTo, hFromAt]
    by_cases hix : i = x
    · subst i
      rw [if_pos rfl]
      split
      · exact h.inj hy hx ‹_›
      · rw [if_pos rfl]
    · rw [if_neg hix]
      by_cases hiy : i = y
      · subst i
        rw [if_pos rfl, if_pos rfl]
      · rw [if_neg hiy, if_neg fun hEq => hix (h.inj hi hx hEq), if_neg fun hEq => hiy (h.inj hi hy hEq)]
        exact h.mappedFrom_mapTo i hi
  · intro i hi
    rw [hFromAt]
    by_cases hix : i = t.mapTo x
    · subst i
      rw [if_pos rfl, swapMaps_right]
    · rw [if_neg hix]
      by_cases hiy : i = t.mapTo y
      · subst i
        rw [if_pos rfl, swapMaps_left]
      · rw [if_neg hiy, swapMaps_other, h.mapTo_mappedFrom i hi]
        · exact fun hEq => hix (by rw [← hEq, h.mapTo_mappedFrom i hi])
        · exact fun hEq => hiy (by rw [← hEq, h.mapTo_mappedFrom i hi])

end swapMaps

end BeShare.Muscle.Hashtable
