import BeShare.Hashtable.Sorted

/-! Auto-sorting: where `Put` puts a new item, and where it moves an item whose value it replaced. -/

namespace BeShare.Muscle.Hashtable

open BeShare.Lib

variable {K V : Type}

/-- A comparison whose sign says which side is larger. -/
structure Comparison {α : Type} (func : α → α → Int) : Prop where
  trans : ∀ a b c, func a b ≤ 0 → func b c ≤ 0 → func a c ≤ 0
  sign : ∀ a b, func a b < 0 ↔ 0 < func b a

section

variable {α : Type} {func : α → α → Int} (h : Comparison func)
include h

theorem Comparison.strcmp : Strcmp func := by
  refine ⟨h.trans, fun a b => ?_⟩
  have hSign := h.sign b a
  omega

theorem Comparison.not_lt_iff {a b : α} : ¬func a b < 0 ↔ func b a ≤ 0 := by
  rw [h.sign a b]
  omega

/-- What is between two sorted lists is sorted with them if it fits to its neighbours. -/
theorem Comparison.pairwise_insert {l r : List α} {x : α} (hl : ∀ y, l.getLast? = some y → func y x ≤ 0)
    (hr : ∀ y, r.head? = some y → func x y ≤ 0) (hSorted : (l ++ r).Pairwise fun a b => func a b ≤ 0) :
    (l ++ x :: r).Pairwise fun a b => func a b ≤ 0 := by
  obtain ⟨hSortedL, hSortedR, hAcross⟩ := List.pairwise_append.mp hSorted
  have hBefore : ∀ a ∈ l, func a x ≤ 0 := by
    intro a ha
    rcases List.eq_nil_or_concat l with rfl | ⟨l', y, rfl⟩
    · cases ha
    · rw [List.concat_eq_append] at ha hl hSortedL
      have hLast : func y x ≤ 0 := hl y (by simp)
      rcases List.mem_append.mp ha with hInit | hEnd
      · exact h.trans _ _ _ ((List.pairwise_append.mp hSortedL).2.2 a hInit y (by simp)) hLast
      · rwa [List.mem_singleton.mp hEnd]
  have hBehind : ∀ b ∈ r, func x b ≤ 0 := by
    intro b hb
    cases r with
    | nil => cases hb
    | cons y r =>
      have hFirst : func x y ≤ 0 := hr y rfl
      rcases List.mem_cons.mp hb with rfl | hRest
      · exact hFirst
      · exact h.trans _ _ _ hFirst ((List.pairwise_cons.mp hSortedR).1 b hRest)
  refine List.pairwise_append.mpr ⟨hSortedL, List.pairwise_cons.mpr ⟨hBehind, hSortedR⟩, ?_⟩
  intro a ha b hb
  rcases List.mem_cons.mp hb with rfl | hRest
  · exact hBefore a ha
  · exact hAcross a ha b hRest

end

namespace Table

variable {t t' : Table K V} {order a b : List Nat} {e : Nat} {func : K × V → K × V → Int}

/-- The item of an entry. -/
def item (t : Table K V) (e : Nat) : K × V := (t.key e, t.value e)

/-- The comparison of items that the auto-sort mode asks for. -/
def sortsBy (t : Table K V) : Option (K × V → K × V → Int) :=
  match t.autoSortMode with
  | .disabled => none
  | .byKey => t.userKeyCompareFunc.map fun f a b => f a.1 b.1
  | .byValue => t.userValueCompareFunc.map fun f a b => f a.2 b.2

/-- The items are in the order of the comparison. -/
def InOrder (func : K × V → K × V → Int) (items : List (K × V)) : Prop :=
  items.Pairwise fun a b => func a b ≤ 0

theorem items_eq_map (t : Table K V) (order : List Nat) : t.items order = order.map t.item := rfl

/-- The functions that `PutAux` gives to `InsertSortedIterationEntry`. -/
theorem compareEntries_sortsBy (h : t.sortsBy = some func) :
    (t.compareEntries (if t.autoSortMode = .byKey then t.userKeyCompareFunc else none)
        (if t.autoSortMode = .byValue then t.userValueCompareFunc else none) = fun e f =>
      func (t.item e) (t.item f)) ∧
    ((if t.autoSortMode = .byKey then t.userKeyCompareFunc else none).isSome ∨
      (if t.autoSortMode = .byValue then t.userValueCompareFunc else none).isSome) := by
  rw [sortsBy] at h
  split at h
  · cases h
  · rename_i hMode
    obtain ⟨f, hf, rfl⟩ := Option.map_eq_some_iff.mp h
    rw [hMode, hf]
    exact ⟨rfl, .inl rfl⟩
  · rename_i hMode
    obtain ⟨f, hf, rfl⟩ := Option.map_eq_some_iff.mp h
    rw [hMode, hf]
    exact ⟨rfl, .inr rfl⟩

/-! ### The place of a new entry -/

/-- The loop finds the last entry of `prev :: l` that is not behind the place. -/
theorem sortedPlace_spec (compare : Nat → Nat → Int) (e fuel : Nat) {prev : Nat} {l : List Nat}
    (hIteration : t.IterationList (a ++ prev :: l)) (hFuel : l.length < fuel)
    (hPrev : ¬compare e prev < 0) :
    ∃ c d, a ++ prev :: l = c ++ d ∧ t.sortedPlace compare e fuel prev l.head? = c.getLast? ∧
      (∀ x, c.getLast? = some x → ¬compare e x < 0) ∧ ∀ x, d.head? = some x → compare e x < 0 := by
  induction l generalizing a prev fuel with
  | nil =>
    refine ⟨a ++ [prev], [], (List.append_nil _).symm, ?_, ?_, fun _ hx => absurd hx.symm (Option.some_ne_none _)⟩
    · rw [← hIteration.tail]
      cases fuel <;> rfl
    · intro x hx
      rw [List.getLast?_append_cons, List.getLast?_singleton] at hx
      cases hx
      exact hPrev
  | cons next l ih =>
    obtain ⟨fuel, rfl⟩ : ∃ n, fuel = n + 1 := ⟨fuel - 1, by omega⟩
    rw [List.head?_cons, sortedPlace]
    by_cases hNext : compare e next < 0
    · rw [if_pos hNext]
      refine ⟨a ++ [prev], next :: l, by simp, by simp, fun x hx => ?_, fun x hx => ?_⟩
      · rw [List.getLast?_append_cons, List.getLast?_singleton] at hx
        cases hx
        exact hPrev
      · cases hx
        exact hNext
    · rw [if_neg hNext]
      have hSplit : a ++ prev :: next :: l = (a ++ [prev]) ++ next :: l := by simp
      rw [hSplit] at hIteration ⊢
      rw [hIteration.linked.next_eq]
      exact ih fuel hIteration (by simpa using hFuel) hNext

/-- A new entry goes behind the last one that is not larger. -/
theorem insertByMode_spec (hSorts : t.sortsBy = some func) (hIteration : t.IterationList order)
    (hCount : t.count = order.length) (e : Nat) :
    ∃ a b, order = a ++ b ∧ t.insertByMode e = t.insertIterationEntry e a.getLast? ∧
      (∀ x, a.getLast? = some x → ¬func (t.item e) (t.item x) < 0) ∧
      ∀ x, b.head? = some x → func (t.item e) (t.item x) < 0 := by
  obtain ⟨hCompare, hSome⟩ := compareEntries_sortsBy hSorts
  rw [insertByMode, insertSortedIterationEntry, hCompare]
  cases order with
  | nil =>
    have hHead : t.iterHead = none := hIteration.head
    have hTail : t.iterTail = none := hIteration.tail
    simp only [hHead, hTail]
    exact ⟨[], [], rfl, rfl, fun _ hx => absurd hx.symm (Option.some_ne_none _),
      fun _ hx => absurd hx.symm (Option.some_ne_none _)⟩
  | cons head l =>
    have hHead : t.iterHead = some head := hIteration.head
    obtain ⟨tail, hLast⟩ : ∃ tail, (head :: l).getLast? = some tail := ⟨_, List.getLast?_cons ..⟩
    have hTail : t.iterTail = some tail := hIteration.tail.trans hLast
    simp only [hHead, hTail, if_pos hSome]
    by_cases hFirst : func (t.item e) (t.item head) < 0
    · rw [if_pos hFirst]
      refine ⟨[], head :: l, rfl, rfl, fun _ hx => absurd hx.symm (Option.some_ne_none _), fun x hx => ?_⟩
      cases hx
      exact hFirst
    · rw [if_neg hFirst]
      by_cases hBeforeTail : func (t.item e) (t.item tail) < 0
      · rw [if_pos hBeforeTail]
        have hNext : t.iterNext head = l.head? := by
          have hLinked : Linked t.iterNext t.iterPrev ([] ++ head :: l) := hIteration.linked
          exact hLinked.next_eq
        have hAll : t.IterationList ([] ++ head :: l) := hIteration
        obtain ⟨c, d, hSplit, hPlace, hc, hd⟩ := sortedPlace_spec
          (fun e f => func (t.item e) (t.item f)) e t.count hAll (by rw [hCount]; simp) hFirst
        rw [hNext, hPlace]
        exact ⟨c, d, hSplit, rfl, hc, hd⟩
      · rw [if_neg hBeforeTail, ← hLast]
        refine ⟨head :: l, [], (List.append_nil _).symm, rfl, fun x hx => ?_,
          fun _ hx => absurd hx.symm (Option.some_ne_none _)⟩
        rw [hLast] at hx
        cases hx
        exact hBeforeTail

/-- A new entry that is not smaller than any other goes to the end. -/
theorem insertByMode_last (hSorts : t.sortsBy = some func) (hIteration : t.IterationList order)
    (hCount : t.count = order.length) (hLargest : ∀ x ∈ order, ¬func (t.item e) (t.item x) < 0) :
    t.insertByMode e = t.insertIterationEntry e t.iterTail := by
  obtain ⟨a, b, rfl, hInsert, -, hb⟩ := insertByMode_spec hSorts hIteration hCount e
  cases b with
  | nil => rw [hInsert, hIteration.tail, List.append_nil]
  | cons x b => exact absurd (hb x rfl) (hLargest x (by simp))

/-! ### The modes -/

/-- The table with another auto-sort mode. -/
def withMode (t : Table K V) (mode : AutoSortMode) : Table K V := { t with autoSortMode := mode }

/-- The result with another auto-sort mode. -/
def inMode {α : Type} (mode : AutoSortMode) (r : Run (Table K V × α)) : Run (Table K V × α) :=
  r.map fun p => (p.1.withMode mode, p.2)

variable {mode : AutoSortMode} {free : List Nat} {chain : Nat → List Nat} {key : K} {value : V}

theorem placeEntry_withMode (t : Table K V) (hash : UInt32) :
    (t.withMode mode).placeEntry hash = inMode mode (t.placeEntry hash) := by
  have hHead : ∀ e, (t.withMode mode).isBucketHead e ↔ t.isBucketHead e := fun _ => Iff.rfl
  have hHome : (t.withMode mode).mapTo ((t.withMode mode).home hash) = t.mapTo (t.home hash) := rfl
  have hHash : (t.withMode mode).hash = t.hash := rfl
  have hFree : (t.withMode mode).freeHead = t.freeHead := rfl
  simp only [placeEntry, hHead, hHome, hHash, hFree]
  by_cases hBucket : t.isBucketHead (t.mapTo (t.home hash))
  · simp only [if_pos hBucket]
    cases t.freeHead <;> rfl
  · simp only [if_neg hBucket]
    by_cases hUsed : t.hash (t.mapTo (t.home hash)) ≠ MUSCLE_HASHTABLE_INVALID_HASH_CODE
    · simp only [if_pos hUsed]
      cases t.freeHead <;> rfl
    · simp only [if_neg hUsed]
      rfl

/-- The table with the new item in the entry `e`, which is not in the iteration list yet. -/
structure Filled (t t₁ : Table K V) (order : List Nat) (e : Nat) (key : K) (value : V) : Prop
    extends KeepsArray t t₁ where
  fresh : e ∉ order
  key : t₁.key = Function.update t.key e key
  value : t₁.value = Function.update t.value e value
  count : t₁.count = t.count
  iteration : t₁.IterationList order
  iterList : t₁.iterList = t.iterList
  iterators : t₁.iterators = t.iterators

theorem Filled.sortsBy (h : t.Filled t' order e key value) : t'.sortsBy = t.sortsBy := by
  rw [Table.sortsBy, Table.sortsBy, h.autoSortMode, h.userKeyCompareFunc, h.userValueCompareFunc]

theorem Filled.item_same (h : t.Filled t' order e key value) : t'.item e = (key, value) := by
  rw [item, h.key, h.value, Function.update_self, Function.update_self]

theorem Filled.item_other (h : t.Filled t' order e key value) {x : Nat} (hx : x ∈ order) :
    t'.item x = t.item x := by
  have hxe : x ≠ e := fun hEq => h.fresh (hEq ▸ hx)
  rw [item, item, h.key, h.value, Function.update_of_ne hxe, Function.update_of_ne hxe]

variable [BEq K] {functor : K → UInt32}

/-- The mode plays no part in the index structures. -/
theorem Valid.withMode (h : t.Valid functor order) (mode : AutoSortMode) : (t.withMode mode).Valid functor order := by
  refine ⟨h.capacity, h.size, h.unallocated, fun hTable => ?_⟩
  obtain ⟨hBounded, free, chain, hSlots⟩ := h.allocated hTable
  exact ⟨hBounded, free, chain, hSlots.perm, hSlots.count,
    ⟨hSlots.iteration.linked, hSlots.iteration.head, hSlots.iteration.tail⟩,
    ⟨hSlots.freeList.linked, hSlots.freeList.head⟩, hSlots.unused, hSlots.used, hSlots.buckets,
    hSlots.maps, hSlots.distinct⟩

/-- The table in a different order. -/
theorem Valid.reorder {order' : List Nat} (h : t.Valid functor order) (hTable : t.hasTable = true)
    (hPerm : order'.Perm order) (hIteration : t'.IterationList order')
    (hSame : t' = { t with
      iterHead := t'.iterHead, iterTail := t'.iterTail, iterNext := t'.iterNext
      iterPrev := t'.iterPrev, iterators := t'.iterators }) :
    t'.Valid functor order' := by
  obtain ⟨hBounded, free, chain, hSlots⟩ := h.allocated hTable
  have hSlots' := hSlots.reorder hPerm hIteration hSame
  rw [hSame]
  rw [hSame] at hSlots'
  exact ⟨h.capacity, h.size, fun hNone => absurd (hTable.symm.trans hNone) (by simp),
    fun _ => ⟨hBounded, free, chain, hSlots'⟩⟩

/-- `putNew` fills an entry, and puts it into the iteration list. -/
theorem Valid.putNew_fills (h : t.Valid functor order) (hTable : t.hasTable = true)
    (hRoom : order.length < t.tableSize) (hEqual : KeyEquality functor t.keysEqual)
    (hNew : ∀ e ∈ order, t.keysEqual (t.key e) key = false) (value : V) :
    ∃ t₁ e, t.Filled t₁ order e key value ∧
      (∀ mode p, (t₁.withMode mode).insertByMode e = (t₁.withMode mode).insertIterationEntry e p →
        (t.withMode mode).putNew (computeHash functor key) key value =
          .ok ({ (t₁.withMode mode).insertIterationEntry e p with count := t.count + 1 }, some e,
            none)) ∧
      ∀ a b, order = a ++ b →
        { t₁.insertIterationEntry e a.getLast? with count := t.count + 1 }.Valid functor
          (a ++ e :: b) := by
  obtain ⟨hBounded, free, chain, hSlots⟩ := h.allocated hTable
  have hCount : t.count < t.tableSize := by rwa [hSlots.count]
  obtain ⟨e, bucketPrev, bucketNext, mapTo, mappedFrom, freeHead, free', chain', hPlace, hPlaced⟩ :=
    hSlots.placeEntry_spec (computeHash functor key) h.size.1 hCount
  have hFree : e ∈ free := hPlaced.perm.mem_iff.mpr (List.mem_cons_self ..)
  have hNotUsed : e ∉ order := fun he => hSlots.not_mem_free he hFree
  let t₁ : Table K V := { t with
    bucketPrev, bucketNext, mapTo, mappedFrom, freeHead
    hash := Function.update t.hash e (computeHash functor key)
    key := Function.update t.key e key
    value := Function.update t.value e value }
  have hIteration : t₁.IterationList order :=
    ⟨hSlots.iteration.linked, hSlots.iteration.head, hSlots.iteration.tail⟩
  have hPut : ∀ mode p, (t₁.withMode mode).insertByMode e = (t₁.withMode mode).insertIterationEntry e p →
      (t.withMode mode).putNew (computeHash functor key) key value =
        .ok ({ (t₁.withMode mode).insertIterationEntry e p with count := t.count + 1 }, some e,
          none) := by
    intro mode p hInsert
    rw [putNew, placeEntry_withMode, hPlace]
    show (Except.ok ({ (t₁.withMode mode).insertByMode e with
      count := ((t₁.withMode mode).insertByMode e).count + 1 }, some e, none) : Run (PutResult K V)) = _
    rw [hInsert]
    rfl
  refine ⟨t₁, e, ⟨⟨⟨rfl, rfl, rfl, rfl⟩, rfl, rfl⟩, hNotUsed, rfl, rfl, rfl, hIteration, rfl, rfl⟩, hPut, ?_⟩
  intro a b hSplit
  -- without auto-sorting the entry goes to the end, and only its place is another one
  have hLast : (t₁.withMode .disabled).insertByMode e =
      (t₁.withMode .disabled).insertIterationEntry e t₁.iterTail := insertByMode_disabled rfl e
  obtain ⟨t₂, e₂, hRun, hTable₂, hAppended⟩ := (h.withMode .disabled).putNew_spec key
    hTable hRoom hEqual rfl hNew value
  rw [hPut _ _ hLast] at hRun
  cases hRun
  have hNodup : (a ++ b).Nodup := hSplit ▸ hSlots.order_nodup
  have hInserted := IterationList.insert (hSplit ▸ hIteration) hNodup (hSplit ▸ hNotUsed)
  refine (hAppended.valid.withMode t.autoSortMode).reorder hTable ?_
    ⟨hInserted.linked, hInserted.head, hInserted.tail⟩ rfl
  calc (a ++ e :: b).Perm (e :: (a ++ b)) := List.perm_middle
    _ = e :: order := by rw [hSplit]
    (e :: order).Perm (order ++ [e]) := (List.perm_append_singleton e order).symm

/-- A new item gets its place in the order. -/
theorem Valid.putNew_sorted (h : t.Valid functor order) (hTable : t.hasTable = true)
    (hRoom : order.length < t.tableSize) (hEqual : KeyEquality functor t.keysEqual)
    (hNew : ∀ e ∈ order, t.keysEqual (t.key e) key = false) (hSorts : t.sortsBy = some func)
    (hFunc : Comparison func) (hOrder : InOrder func (t.items order)) (value : V) :
    ∃ t' e order', t.putNew (computeHash functor key) key value = .ok (t', some e, none) ∧
      t.Keeps t' ∧ t'.Valid functor order' ∧ InOrder func (t'.items order') ∧
      (t'.items order').Perm (t.items order ++ [(key, value)]) := by
  obtain ⟨t₁, e, hFilled, hPut, hValid⟩ := h.putNew_fills hTable hRoom hEqual hNew value
  obtain ⟨a, b, hSplit, hInsert, ha, hb⟩ := insertByMode_spec (hFilled.sortsBy.trans hSorts)
    hFilled.iteration (hFilled.count.trans h.count_eq) e
  have hMode : t₁.withMode t.autoSortMode = t₁ := by rw [Table.withMode, ← hFilled.autoSortMode]
  have hRun := hPut t.autoSortMode a.getLast?
  rw [hMode] at hRun
  have hItem : ∀ x ∈ a ++ b, t₁.item x = t.item x := fun x hx => hFilled.item_other (hSplit ▸ hx)
  have hItems : t₁.items (a ++ e :: b) = t.items a ++ (key, value) :: t.items b := by
    rw [items_append, items_eq_map, items_eq_map, items_eq_map, List.map_cons, hFilled.item_same,
      List.map_congr_left fun x hx => hItem x (List.mem_append_left _ hx),
      List.map_congr_left fun x hx => hItem x (List.mem_append_right _ hx)]
    rfl
  refine ⟨{ t₁.insertIterationEntry e a.getLast? with count := t.count + 1 }, e, a ++ e :: b,
    hRun hInsert, ⟨hFilled.initialCapacity, hFilled.userKeyCompareFunc, hFilled.userValueCompareFunc,
      hFilled.autoSortMode⟩, hValid a b hSplit, ?_, ?_⟩
  · show InOrder func (t₁.items (a ++ e :: b))
    rw [hItems]
    rw [hSplit, items_append] at hOrder
    refine hFunc.pairwise_insert (fun y hy => ?_) (fun y hy => ?_) hOrder
    · rw [items_eq_map, List.getLast?_map, Option.map_eq_some_iff] at hy
      obtain ⟨x, hx, rfl⟩ := hy
      have hNot := ha x hx
      rwa [hFilled.item_same, hItem x (List.mem_append_left _ (List.mem_of_getLast? hx)),
        hFunc.not_lt_iff] at hNot
    · rw [items_eq_map, List.head?_map, Option.map_eq_some_iff] at hy
      obtain ⟨x, hx, rfl⟩ := hy
      have hLess := hb x hx
      rw [hFilled.item_same, hItem x (List.mem_append_right _ (List.mem_of_mem_head? hx))] at hLess
      exact Int.le_of_lt hLess
  · show (t₁.items (a ++ e :: b)).Perm _
    rw [hItems, hSplit, items_append]
    calc (t.items a ++ (key, value) :: t.items b).Perm ((key, value) :: (t.items a ++ t.items b)) :=
          List.perm_middle
      ((key, value) :: (t.items a ++ t.items b)).Perm _ := (List.perm_append_singleton _ _).symm

/-! ### Tables whose new items are the largest -/

/-- A new item that is not smaller than any other is put as it is without auto-sorting. -/
theorem Valid.putNew_largest (h : t.Valid functor order) (hTable : t.hasTable = true)
    (hRoom : order.length < t.tableSize) (hEqual : KeyEquality functor t.keysEqual)
    (hNew : ∀ e ∈ order, t.keysEqual (t.key e) key = false) (hMode : t.autoSortMode = .disabled)
    (hSorts : (t.withMode mode).sortsBy = some func)
    (hLargest : ∀ e ∈ order, ¬func (key, value) (t.item e) < 0) :
    (t.withMode mode).putNew (computeHash functor key) key value =
      inMode mode (t.putNew (computeHash functor key) key value) := by
  obtain ⟨t₁, e, hFilled, hPut, -⟩ := h.putNew_fills hTable hRoom hEqual hNew value
  have hSame : t.withMode .disabled = t := by rw [Table.withMode, ← hMode]
  have hCount : t₁.count = order.length := hFilled.count.trans h.count_eq
  have hSorts₁ : (t₁.withMode mode).sortsBy = some func := by
    rw [← hSorts, sortsBy, sortsBy]
    simp only [Table.withMode, hFilled.userKeyCompareFunc, hFilled.userValueCompareFunc]
  have hIteration : (t₁.withMode mode).IterationList order :=
    ⟨hFilled.iteration.linked, hFilled.iteration.head, hFilled.iteration.tail⟩
  have hLast : (t₁.withMode mode).insertByMode e =
      (t₁.withMode mode).insertIterationEntry e t₁.iterTail := by
    refine insertByMode_last hSorts₁ hIteration hCount fun x hx => ?_
    have hItem := hFilled.item_other hx
    have hHere := hFilled.item_same
    show ¬func (t₁.item e) (t₁.item x) < 0
    rw [hItem, hHere]
    exact hLargest x hx
  have hDisabled := hPut .disabled _ (insertByMode_disabled rfl e)
  rw [hSame] at hDisabled
  rw [hPut mode _ hLast, hDisabled]
  rfl

end Table

end BeShare.Muscle.Hashtable
