import BeShare.Hashtable.Invariant
import Mathlib.Logic.Equiv.Basic

/-!
`SwapContents`, and the iterators that are registered in the tables' iterator lists: the links of the lists, and the
tables that the iterators take for their owners.
-/

namespace BeShare.Muscle.Hashtable

open BeShare.Lib

/-- The tables of a program and their iterators, both by their addresses. What `Table` says of iterators is not used
here. -/
structure Tables (T I K V : Type) where
  table : T → Table K V
  iterList : T → Option I
  prevIter : I → Option I
  nextIter : I → Option I
  owner : I → Option T
  /-- `HTIT_FLAG_NOREGISTER` -/
  noRegister : I → Bool

namespace Tables

variable {T I K V : Type} [DecidableEq T] [DecidableEq I]

/-! ### Iterators -/

/-- `RegisterIterator` -/
def registerIterator (s : Tables T I K V) (t : T) (i : I) : Tables T I K V :=
  if s.noRegister i then
    { s with prevIter := Function.update s.prevIter i none, nextIter := Function.update s.nextIter i none }
  else
    { s with
      prevIter := storeAt (Function.update s.prevIter i none) (s.iterList t) (some i)
      nextIter := Function.update s.nextIter i (s.iterList t)
      iterList := Function.update s.iterList t (some i) }

/-- `UnregisterIterator` -/
def unregisterIterator (s : Tables T I K V) (t : T) (i : I) : Tables T I K V :=
  if s.noRegister i then
    { s with prevIter := Function.update s.prevIter i none, nextIter := Function.update s.nextIter i none }
  else
    let nextIter := storeAt s.nextIter (s.prevIter i) (s.nextIter i)
    let prevIter := storeAt s.prevIter (nextIter i) (s.prevIter i)
    { s with
      iterList := if s.iterList t = some i then Function.update s.iterList t (nextIter i) else s.iterList
      prevIter := Function.update prevIter i none
      nextIter := Function.update nextIter i none }

/-- The constructor of an iterator over a table. -/
def startIterator (s : Tables T I K V) (t : T) (i : I) (noRegister : Bool) : Tables T I K V :=
  registerIterator
    { s with owner := Function.update s.owner i (some t), noRegister := Function.update s.noRegister i noRegister } t i

/-- The destructor of an iterator: it unregisters itself from its owner. -/
def destroyIterator (s : Tables T I K V) (i : I) : Tables T I K V :=
  match s.owner i with
  | some t => s.unregisterIterator t i
  | none => s

/-! ### Exchange -/

end Tables

/-- A table that has the contents of another one. The initial capacity stays. -/
def Table.withContents {K V : Type} (t other : Table K V) : Table K V :=
  { other with initialCapacity := t.initialCapacity, iterList := t.iterList, iterators := t.iterators }

namespace Tables

variable {T I K V : Type} [DecidableEq T] [DecidableEq I]

/-- The loop over an iterator list that sets the owners. -/
def setOwners (fuel : Nat) (s : Tables T I K V) (head : Option I) (t : T) : Tables T I K V :=
  (walk s.nextIter fuel head).foldl (fun s i => { s with owner := Function.update s.owner i (some t) }) s

/-- `this->SwapContents(swapMe)` -/
def swapContents (fuel : Nat) (s : Tables T I K V) (this swapMe : T) : Tables T I K V :=
  let s := { s with
    table := Function.update (Function.update s.table swapMe ((s.table swapMe).withContents (s.table this))) this
      ((s.table this).withContents (s.table swapMe))
    iterList := Function.update (Function.update s.iterList swapMe (s.iterList this)) this (s.iterList swapMe) }
  let s := setOwners fuel s (s.iterList this) swapMe
  setOwners fuel s (s.iterList swapMe) this

/-! ### Registered iterators -/

variable {s : Tables T I K V} {lists : T → List I} {a b t u : T} {i j : I} {fuel : Nat}

/-- The iterators that are registered in each table's list, in the order of the list. -/
structure InLists (s : Tables T I K V) (lists : T → List I) : Prop where
  linked : ∀ t, Linked s.nextIter s.prevIter (lists t)
  head : ∀ t, s.iterList t = (lists t).head?
  nodup : ∀ t, (lists t).Nodup
  apart : ∀ t u i, i ∈ lists t → i ∈ lists u → t = u
  registered : ∀ t, ∀ i ∈ lists t, s.noRegister i = false

/-- Each of them has the table for its owner. -/
structure Attached (s : Tables T I K V) (lists : T → List I) : Prop extends InLists s lists where
  owner : ∀ t, ∀ i ∈ lists t, s.owner i = some t

/-- The iterator that was registered goes. -/
theorem Attached.destroyIterator (h : Attached s lists) (hi : i ∈ lists t) :
    Attached (s.destroyIterator i) fun u => (lists u).erase i := by
  obtain ⟨before, behind, hSplit⟩ := List.append_of_mem hi
  have hNodup := h.nodup t
  have hLinked := h.linked t
  rw [hSplit] at hNodup hLinked
  obtain ⟨hNotBefore, hNotBehind⟩ : i ∉ before ∧ i ∉ behind := by
    rw [List.nodup_append, List.nodup_cons] at hNodup
    exact ⟨fun hIn => hNodup.2.2 i hIn i (List.mem_cons_self ..) rfl, hNodup.2.1.1⟩
  have hErase : (lists t).erase i = before ++ behind := by
    rw [hSplit, List.erase_append_right _ hNotBefore, List.erase_cons_head]
  have hOthers : ∀ u, u ≠ t → (lists u).erase i = lists u := fun u hu =>
    List.erase_of_not_mem fun hIn => hu (h.apart u t i hIn hi)
  have hElsewhere : ∀ u, u ≠ t → ∀ x ∈ lists u, x ≠ i := by
    rintro u hu x hx rfl
    exact hu (h.apart u t x hx hi)
  have hNext := hLinked.next_eq
  have hPrev := hLinked.prev_eq
  -- the neighbours are in the same list
  have hNextIn : ∀ j, s.nextIter i = some j → j ∈ behind := fun j hj => List.mem_of_mem_head? (hNext ▸ hj)
  have hPrevIn : ∀ j, s.prevIter i = some j → j ∈ before := fun j hj => List.mem_of_getLast? (hPrev ▸ hj)
  have hSame : storeAt s.nextIter (s.prevIter i) (s.nextIter i) i = s.nextIter i :=
    storeAt_ne fun hEq => hNotBefore (hPrevIn i hEq)
  have hDestroyed : s.destroyIterator i = { s with
      iterList := if s.iterList t = some i then Function.update s.iterList t (s.nextIter i) else s.iterList
      prevIter := Function.update (storeAt s.prevIter (s.nextIter i) (s.prevIter i)) i none
      nextIter := Function.update (storeAt s.nextIter (s.prevIter i) (s.nextIter i)) i none } := by
    unfold Tables.destroyIterator
    rw [h.owner t i hi]
    unfold unregisterIterator
    rw [h.registered t i hi]
    simp only [Bool.false_eq_true, if_false, hSame]
  rw [hDestroyed]
  refine ⟨⟨fun u => ?_, fun u => ?_, fun u => (h.nodup u).erase i, fun u v j hu hv => ?_, fun u j hj => ?_⟩,
    fun u j hj => ?_⟩
  · by_cases hu : u = t
    · subst hu
      rw [hErase]
      refine (hLinked.unlink hNodup).congr (fun x hx => ?_) fun x hx => ?_
      all_goals
        refine Function.update_of_ne ?_ _ _
        rintro rfl
        exact (List.mem_append.mp hx).elim hNotBefore hNotBehind
    · rw [hOthers u hu]
      refine (h.linked u).congr (fun x hx => ?_) fun x hx => ?_
      · refine (Function.update_of_ne (hElsewhere u hu x hx) _ _).trans ?_
        refine storeAt_ne fun hEq => hu (h.apart u t x hx ?_)
        rw [hSplit]
        exact List.mem_append_left _ (hPrevIn x hEq)
      · refine (Function.update_of_ne (hElsewhere u hu x hx) _ _).trans ?_
        refine storeAt_ne fun hEq => hu (h.apart u t x hx ?_)
        rw [hSplit]
        exact List.mem_append_right _ (List.mem_cons_of_mem _ (hNextIn x hEq))
  · show (if s.iterList t = some i then Function.update s.iterList t (s.nextIter i) else s.iterList) u = _
    by_cases hu : u = t
    · subst hu
      rw [hErase]
      have hHead := h.head u
      rw [hSplit] at hHead
      cases before with
      | nil =>
        have hHere : s.iterList u = some i := hHead
        rw [if_pos hHere, Function.update_self, hNext]
        rfl
      | cons first before =>
        rw [if_neg, hHead]
        · rfl
        · rw [hHead]
          rintro hEq
          cases hEq
          exact hNotBefore (List.mem_cons_self ..)
    · rw [hOthers u hu, ← h.head u]
      split
      · exact Function.update_of_ne hu _ _
      · rfl
  · exact h.apart u v j (List.mem_of_mem_erase hu) (List.mem_of_mem_erase hv)
  · exact h.registered u j (List.mem_of_mem_erase hj)
  · exact h.owner u j (List.mem_of_mem_erase hj)

/-- A new iterator is registered at the head of the list, unless it is not to be registered. -/
theorem Attached.startIterator (h : Attached s lists) (t : T) (hNew : ∀ u, i ∉ lists u) :
    Attached (s.startIterator t i false) (Function.update lists t (i :: lists t)) := by
  have hStarted : s.startIterator t i false = { s with
      owner := Function.update s.owner i (some t)
      noRegister := Function.update s.noRegister i false
      prevIter := storeAt (Function.update s.prevIter i none) (lists t).head? (some i)
      nextIter := Function.update s.nextIter i (lists t).head?
      iterList := Function.update s.iterList t (some i) } := by
    unfold Tables.startIterator registerIterator
    simp only [Function.update_self, Bool.false_eq_true, if_false, h.head]
  have hNot : ∀ {u x}, x ∈ lists u → x ≠ i := by
    rintro u x hx rfl
    exact hNew u hx
  rw [hStarted]
  refine ⟨⟨fun u => ?_, fun u => ?_, fun u => ?_, fun u v j hu hv => ?_, fun u j hj => ?_⟩, fun u j hj => ?_⟩
  · rw [Function.update_apply]
    split
    next hu =>
      exact Linked.insert (a := []) (h.linked t) (h.nodup t) (hNew t)
    next hu =>
      refine (h.linked u).congr (fun x hx => Function.update_of_ne (hNot hx) _ _) fun x hx => ?_
      refine (storeAt_ne fun hEq => hu (h.apart u t x hx (List.mem_of_mem_head? hEq))).trans ?_
      exact Function.update_of_ne (hNot hx) _ _
  · show Function.update s.iterList t (some i) u = _
    rw [Function.update_apply, Function.update_apply]
    split
    · rfl
    · exact h.head u
  · rw [Function.update_apply]
    split
    · exact List.nodup_cons.mpr ⟨hNew t, h.nodup t⟩
    · exact h.nodup u
  · rw [Function.update_apply] at hu hv
    split at hu <;> split at hv
    next hu' hv' => rw [hu', hv']
    next hu' _ =>
      rcases List.mem_cons.mp hu with rfl | hu
      · exact absurd hv (hNew v)
      · exact hu'.trans (h.apart t v j hu hv)
    next _ hv' =>
      rcases List.mem_cons.mp hv with rfl | hv
      · exact absurd hu (hNew u)
      · exact (h.apart u t j hu hv).trans hv'.symm
    next => exact h.apart u v j hu hv
  · show Function.update s.noRegister i false j = false
    rw [Function.update_apply] at hj ⊢
    split
    · rfl
    next hOther =>
      split at hj
      · exact h.registered t j ((List.mem_cons.mp hj).resolve_left hOther)
      · exact h.registered u j hj
  · show Function.update s.owner i (some t) j = some u
    rw [Function.update_apply] at hj ⊢
    split at hj
    next hu =>
      rcases List.mem_cons.mp hj with rfl | hj
      · rw [if_pos rfl, hu]
      · rw [if_neg (hNot hj), hu]
        exact h.owner t j hj
    next => rw [if_neg (hNot hj), h.owner u j hj]

/-! ### Two tables that are exchanged -/

def exchange (lists : T → List I) (a b : T) : T → List I :=
  Function.update (Function.update lists b (lists a)) a (lists b)

omit [DecidableEq T] in
theorem setOwners_eq (s : Tables T I K V) (head : Option I) (t : T) :
    setOwners fuel s head t = { s with
      owner := fun i => if i ∈ walk s.nextIter fuel head then some t else s.owner i } := by
  unfold setOwners
  generalize walk s.nextIter fuel head = l
  induction l generalizing s with
  | nil => simp
  | cons i l ih =>
    rw [List.foldl_cons, ih]
    congr 1
    funext j
    by_cases hj : j = i
    · subst hj
      simp
    · simp [hj]

/-- Only the owners of the two tables' iterators change, besides what is exchanged. -/
theorem swapContents_eq (h : InLists s lists) (hFuel : ∀ t, (lists t).length ≤ fuel) (a b : T) :
    swapContents fuel s a b = { s with
      table := Function.update (Function.update s.table b ((s.table b).withContents (s.table a))) a
        ((s.table a).withContents (s.table b))
      iterList := Function.update (Function.update s.iterList b (s.iterList a)) a (s.iterList b)
      owner := fun i => if i ∈ exchange lists a b b then some a
        else if i ∈ exchange lists a b a then some b else s.owner i } := by
  have hWalk : ∀ t, walk s.nextIter fuel (Function.update (Function.update s.iterList b (s.iterList a)) a
      (s.iterList b) t) = exchange lists a b t := by
    intro t
    have hHead : Function.update (Function.update s.iterList b (s.iterList a)) a (s.iterList b) t =
        (exchange lists a b t).head? := by
      unfold exchange
      simp only [Function.update_apply, h.head]
      split
      · rfl
      · split <;> rfl
    have hLinked : Linked s.nextIter s.prevIter (exchange lists a b t) ∧ (exchange lists a b t).length ≤ fuel := by
      unfold exchange
      simp only [Function.update_apply]
      split
      · exact ⟨h.linked b, hFuel b⟩
      · split
        · exact ⟨h.linked a, hFuel a⟩
        · exact ⟨h.linked t, hFuel t⟩
    rw [hHead]
    exact Segment.walk hLinked.1 hLinked.2
  unfold swapContents
  simp only [setOwners_eq, hWalk]

omit [DecidableEq I] in
theorem exchange_self (lists : T → List I) (a : T) : exchange lists a a = lists := by
  unfold exchange
  simp

omit [DecidableEq I] in
theorem exchange_left (lists : T → List I) (a b : T) : exchange lists a b a = lists b :=
  Function.update_self ..

omit [DecidableEq I] in
theorem exchange_right (lists : T → List I) (a b : T) : exchange lists a b b = lists a := by
  unfold exchange
  by_cases hEq : b = a
  · subst hEq
    exact Function.update_self ..
  · rw [Function.update_of_ne hEq, Function.update_self]

omit [DecidableEq I] in
theorem exchange_of_ne (lists : T → List I) (hLeft : t ≠ a) (hRight : t ≠ b) : exchange lists a b t = lists t := by
  unfold exchange
  rw [Function.update_of_ne hLeft, Function.update_of_ne hRight]

variable [BEq K]

/-- What the exchange of two tables is for: their contents and their iteration orders are exchanged, every iterator
that is registered in a list has the list's table for its owner, and when it goes, the list loses it and no other
one. -/
structure SwapsAttached (functor : K → UInt32) (lists : T → List I) (a b : T) (s s' : Tables T I K V) : Prop where
  contents : ∀ order order', (s.table a).Valid functor order → (s.table b).Valid functor order' →
    ((s'.table a).Valid functor order' ∧ (s'.table a).items order' = (s.table b).items order') ∧
      (s'.table b).Valid functor order ∧ (s'.table b).items order = (s.table a).items order
  attached : Attached s' (exchange lists a b)
  destroy : ∀ t, ∀ i ∈ exchange lists a b t,
    Attached (s'.destroyIterator i) fun u => (exchange lists a b u).erase i

theorem withContents_valid {functor : K → UInt32} {x y : Table K V} {order order' : List Nat}
    (hx : x.Valid functor order) (hy : y.Valid functor order') :
    (x.withContents y).Valid functor order' ∧ (x.withContents y).items order' = y.items order' := by
  refine ⟨⟨hx.capacity, hy.size, hy.unallocated, fun hTable => ?_⟩, rfl⟩
  obtain ⟨hBounded, free, chain, hSlots⟩ := hy.allocated hTable
  exact ⟨hBounded, free, chain, hSlots.perm, hSlots.count,
    ⟨hSlots.iteration.linked, hSlots.iteration.head, hSlots.iteration.tail⟩,
    ⟨hSlots.freeList.linked, hSlots.freeList.head⟩, hSlots.unused, hSlots.used, hSlots.buckets,
    hSlots.maps, hSlots.distinct⟩

theorem swapContents_contents {functor : K → UInt32} (h : InLists s lists) (hFuel : ∀ t, (lists t).length ≤ fuel)
    {order order' : List Nat} (ha : (s.table a).Valid functor order) (hb : (s.table b).Valid functor order') :
    (((swapContents fuel s a b).table a).Valid functor order' ∧
        ((swapContents fuel s a b).table a).items order' = (s.table b).items order') ∧
      ((swapContents fuel s a b).table b).Valid functor order ∧
        ((swapContents fuel s a b).table b).items order = (s.table a).items order := by
  rw [swapContents_eq h hFuel]
  dsimp only
  rw [Function.update_self]
  refine ⟨withContents_valid ha hb, ?_⟩
  by_cases hEq : b = a
  · subst hEq
    rw [Function.update_self]
    exact withContents_valid hb ha
  · rw [Function.update_of_ne hEq, Function.update_self]
    exact withContents_valid hb ha

omit [BEq K] in
/-- The lists themselves are exchanged, whoever their iterators take for their owners. -/
theorem swapContents_inLists (h : InLists s lists) (hFuel : ∀ t, (lists t).length ≤ fuel) (a b : T) :
    InLists (swapContents fuel s a b) (exchange lists a b) := by
  -- each of the new lists is one of the old ones, and no two are the same
  have hIsOld : ∀ t, exchange lists a b t = lists (Equiv.swap a b t) := by
    intro t
    rcases eq_or_ne t a with rfl | hLeft
    · rw [exchange_left, Equiv.swap_apply_left]
    · rcases eq_or_ne t b with rfl | hRight
      · rw [exchange_right, Equiv.swap_apply_right]
      · rw [exchange_of_ne lists hLeft hRight, Equiv.swap_apply_of_ne_of_ne hLeft hRight]
  rw [swapContents_eq h hFuel]
  refine ⟨fun t => ?_, fun t => ?_, fun t => ?_, fun t u i ht hu => ?_, fun t i hi => ?_⟩
  · show Linked s.nextIter s.prevIter (exchange lists a b t)
    rw [hIsOld]
    exact h.linked _
  · show Function.update (Function.update s.iterList b (s.iterList a)) a (s.iterList b) t = _
    unfold exchange
    simp only [Function.update_apply, h.head]
    split
    · rfl
    · split <;> rfl
  · rw [hIsOld]
    exact h.nodup _
  · rw [hIsOld] at ht hu
    exact (Equiv.swap a b).injective (h.apart _ _ i ht hu)
  · rw [hIsOld] at hi
    exact h.registered _ i hi

/-- The exchange of two tables leaves iterators with the wrong table if there are any. -/
theorem swapContents_attached_iff (functor : K → UInt32) (h : Attached s lists)
    (hFuel : ∀ t, (lists t).length ≤ fuel) (a b : T) :
    SwapsAttached functor lists a b s (swapContents fuel s a b) ↔ a = b ∨ lists a = [] ∧ lists b = [] := by
  have hOwner := fun i => congrFun (congrArg Tables.owner (swapContents_eq h.toInLists hFuel a b)) i
  constructor
  · intro hSwaps
    by_contra hNot
    rw [not_or] at hNot
    obtain ⟨hNe, hSome⟩ := hNot
    have hRight := hSwaps.attached.owner b
    have hLeft := hSwaps.attached.owner a
    rw [exchange_right] at hRight
    rw [exchange_left] at hLeft
    simp only [hOwner, exchange_left, exchange_right] at hRight hLeft
    refine hSome ⟨List.eq_nil_iff_forall_not_mem.mpr fun i hi => ?_, List.eq_nil_iff_forall_not_mem.mpr fun i hi => ?_⟩
    · have hIs := hRight i hi
      rw [if_pos hi] at hIs
      exact hNe (Option.some.inj hIs)
    · have hIs := hLeft i hi
      rw [if_neg (fun hIn => hNe (h.apart a b i hIn hi)), if_pos hi] at hIs
      exact hNe (Option.some.inj hIs).symm
  · intro hCases
    have hAttached : Attached (swapContents fuel s a b) (exchange lists a b) := by
      refine ⟨swapContents_inLists h.toInLists hFuel a b, fun t i hi => ?_⟩
      refine (hOwner i).trans ?_
      dsimp only
      rcases hCases with rfl | ⟨hLeft, hRight⟩
      · rw [exchange_self] at hi ⊢
        split
        next hIn => rw [h.apart t a i hi hIn]
        next => exact h.owner t i hi
      · rw [exchange_left, exchange_right, hLeft, hRight, if_neg (List.not_mem_nil), if_neg (List.not_mem_nil)]
        have hOther : t ≠ a ∧ t ≠ b := by
          constructor
          · rintro rfl
            rw [exchange_left, hRight] at hi
            exact List.not_mem_nil hi
          · rintro rfl
            rw [exchange_right, hLeft] at hi
            exact List.not_mem_nil hi
        rw [exchange_of_ne lists hOther.1 hOther.2] at hi
        exact h.owner t i hi
    exact ⟨fun _ _ => swapContents_contents h.toInLists hFuel, hAttached, fun t i => hAttached.destroyIterator⟩

/-! ### Two tables, and an iterator over the first one -/

/-- Two tables without iterators. -/
def twoTables : Tables Bool Nat Nat Nat :=
  ⟨fun _ => Table.new 8, fun _ => none, fun _ => none, fun _ => none, fun _ => none, fun _ => false⟩

theorem twoTables_attached : Attached twoTables fun _ => [] :=
  ⟨⟨fun _ => trivial, fun _ => rfl, fun _ => List.nodup_nil, fun _ _ _ hNo => absurd hNo List.not_mem_nil,
    fun _ _ hNo => absurd hNo List.not_mem_nil⟩, fun _ _ hNo => absurd hNo List.not_mem_nil⟩

theorem swapContents_attached_iff_twoTables :
    SwapsAttached UInt32.ofNat (fun _ => []) false true twoTables (swapContents 0 twoTables false true) ↔
      false = true ∨ ([] : List Nat) = [] ∧ ([] : List Nat) = [] :=
  swapContents_attached_iff UInt32.ofNat twoTables_attached (fun _ => Nat.le_refl 0) false true

/-- The iterator is left with the first table for its owner, in the list of the second one. When it goes, that list is
left with it. -/
theorem oneIterator_not_swapsAttached :
    Attached (twoTables.startIterator false 0 false) (Function.update (fun _ => []) false [0]) ∧
      ¬SwapsAttached UInt32.ofNat (Function.update (fun _ => []) false [0]) false true
        (twoTables.startIterator false 0 false)
        (swapContents 1 (twoTables.startIterator false 0 false) false true) ∧
      ((swapContents 1 (twoTables.startIterator false 0 false) false true).destroyIterator 0).iterList true =
        some 0 := by
  refine ⟨twoTables_attached.startIterator false fun _ => List.not_mem_nil, fun hSwaps => ?_, by decide⟩
  have hOwner := hSwaps.attached.owner true 0 (by decide)
  exact absurd hOwner (by decide)

end Tables

end BeShare.Muscle.Hashtable
