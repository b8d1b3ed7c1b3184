import BeShare.Hashtable.Remove
import BeShare.Hashtable.Spec

/-! The operations that move an item, or remove it, do the same to the list of items. -/

namespace BeShare.Muscle.Hashtable

open BeShare.Lib

variable {K V : Type} [BEq K] {functor : K → UInt32} {t t' : Table K V} {order order' free a b : List Nat}
  {chain : Nat → List Nat} {e : Nat} {key other : K}

/-- A list without duplicates is split in one way at an element. -/
theorem eq_of_split {c d : List Nat} (hNodup : (a ++ e :: b).Nodup) (hSplit : a ++ e :: b = c ++ e :: d) :
    a = c ∧ b = d := by
  have hNotMem := (List.nodup_cons.mp (List.nodup_middle.mp hNodup)).1
  rw [List.mem_append, not_or] at hNotMem
  have hParts := (List.append_cons_inj_of_notMem hNotMem.1 hNotMem.2).mp hSplit
  exact ⟨hParts.1, hParts.2.2⟩

namespace Table

/-- The table in a different order. -/
theorem Slots.reorder (h : t.Slots functor order free chain) (hPerm : order'.Perm order)
    (hIteration : t'.IterationList order')
    (hSame : t' = { t with
      iterHead := t'.iterHead, iterTail := t'.iterTail, iterNext := t'.iterNext
      iterPrev := t'.iterPrev, iterators := t'.iterators }) :
    t'.Slots functor order' free chain := by
  rw [hSame]
  constructor
  · exact (hPerm.append_right free).trans h.perm
  · show t.count = _
    rw [h.count, hPerm.length_eq]
  · exact ⟨hIteration.linked, hIteration.head, hIteration.tail⟩
  · exact ⟨h.freeList.linked, h.freeList.head⟩
  · exact h.unused
  · exact fun x hx => h.used x (hPerm.mem_iff.mp hx)
  · exact h.buckets.congr (fun _ _ => rfl) (fun _ _ => rfl) (fun _ _ => rfl) fun _ => hPerm.mem_iff
  · exact h.maps
  · exact fun x hx y hy => h.distinct x (hPerm.mem_iff.mp hx) y (hPerm.mem_iff.mp hy)

theorem Valid.slots_of_mem (h : t.Valid functor order) (he : e ∈ order) :
    t.hasTable = true ∧ t.tableSize < 2 ^ 30 ∧ ∃ free chain, t.Slots functor order free chain := by
  have hTable : t.hasTable = true := by
    refine Bool.of_not_eq_false fun hNone => ?_
    rw [(h.unallocated hNone).1] at he
    cases he
  exact ⟨hTable, h.allocated hTable⟩

/-- An entry is taken out of the iteration list and put between `c` and `d`. -/
theorem Valid.relocate (h : t.Valid functor (a ++ e :: b)) {c d : List Nat} (hRest : a ++ b = c ++ d) :
    ((t.removeIterationEntry e).insertIterationEntry e c.getLast?).Valid functor (c ++ e :: d) := by
  obtain ⟨hTable, hBounded, free, chain, hSlots⟩ := h.slots_of_mem (e := e) (by simp)
  have hNodup := hSlots.order_nodup
  have hNodupRest := (List.nodup_middle.mp hNodup)
  have hRemoved := hSlots.iteration.remove hNodup
  rw [hRest] at hNodupRest hRemoved
  rw [List.nodup_cons] at hNodupRest
  have hMoved := hRemoved.insert hNodupRest.2 hNodupRest.1
  refine ⟨h.capacity, h.size, fun hNone => ?_, fun _ => ⟨hBounded, free, chain, ?_⟩⟩
  · exact absurd (hTable.symm.trans hNone) (by simp)
  · refine hSlots.reorder ?_ hMoved rfl
    calc (c ++ e :: d).Perm (e :: (c ++ d)) := List.perm_middle
      _ = e :: (a ++ b) := by rw [hRest]
      (e :: (a ++ b)).Perm (a ++ e :: b) := List.perm_middle.symm

/-- A lookup finds the entry `e`, which holds the only item with the key. -/
structure Found (functor : K → UInt32) (t : Table K V) (order : List Nat) (key : K) (a : List Nat)
    (e : Nat) (b : List Nat) : Prop where
  lookup : t.lookup functor key = some e
  order_eq : order = a ++ e :: b
  only : Assoc.Only t.keysEqual key (t.items a) (t.key e, t.value e) (t.items b)

omit [BEq K] in
theorem items_append (t : Table K V) (a b : List Nat) : t.items (a ++ b) = t.items a ++ t.items b :=
  List.map_append ..

omit [BEq K] in
theorem items_cons (t : Table K V) (e : Nat) (b : List Nat) :
    t.items (e :: b) = (t.key e, t.value e) :: t.items b := rfl

theorem Found.find_eq (h : Found functor t order key a e b) :
    Assoc.find t.keysEqual key (t.items order) = some (t.key e, t.value e) := by
  rw [h.order_eq, items_append, items_cons, h.only.find_eq]

theorem Found.without_eq (h : Found functor t order key a e b) :
    Assoc.without t.keysEqual key (t.items order) = t.items (a ++ b) := by
  rw [h.order_eq, items_append, items_cons, items_append, h.only.without_eq]

theorem Found.mem (h : Found functor t order key a e b) : e ∈ order := by
  rw [h.order_eq]
  exact List.mem_append_right _ (List.mem_cons_self ..)

theorem Valid.lookup_cases (h : t.Valid functor order) (hEqual : KeyEquality functor t.keysEqual)
    (key : K) :
    t.lookup functor key = none ∧ Assoc.find t.keysEqual key (t.items order) = none ∨
      ∃ a e b, Found functor t order key a e b := by
  rw [h.lookup_eq hEqual]
  have hFind : Assoc.find t.keysEqual key (t.items order) =
      (order.find? fun e => t.keysEqual (t.key e) key).map fun e => (t.key e, t.value e) := by
    rw [Assoc.find, items, List.find?_map]
    rfl
  cases hFound : order.find? fun e => t.keysEqual (t.key e) key with
  | none =>
    rw [hFound] at hFind
    exact .inl ⟨rfl, hFind⟩
  | some e =>
    have hKey : t.keysEqual (t.key e) key = true := by simpa using List.find?_some hFound
    have hMem := List.mem_of_find?_eq_some hFound
    obtain ⟨a, b, rfl⟩ := List.append_of_mem hMem
    obtain ⟨-, -, free, chain, hSlots⟩ := h.slots_of_mem hMem
    have hOther : ∀ f, f ∈ a ∨ f ∈ b → t.keysEqual (t.key f) key = false := by
      intro f hf
      rw [Bool.eq_false_iff]
      intro hMatch
      have hfe := hSlots.unique hEqual (e := f) (f := e)
        (by simp only [List.mem_append, List.mem_cons]; tauto) hMem hMatch hKey
      have hNodup := (List.nodup_cons.mp (List.nodup_middle.mp hSlots.order_nodup)).1
      exact hNodup (List.mem_append.mpr (hfe ▸ hf))
    refine .inr ⟨a, e, b, (h.lookup_eq hEqual key).trans hFound, rfl, hKey, fun i hi => ?_, fun i hi => ?_⟩
    · obtain ⟨f, hf, rfl⟩ := List.mem_map.mp hi
      exact hOther f (.inl hf)
    · obtain ⟨f, hf, rfl⟩ := List.mem_map.mp hi
      exact hOther f (.inr hf)

/-- The table holds the items of `l`, in this order. -/
def Holds (functor : K → UInt32) (t : Table K V) (l : List (K × V)) : Prop :=
  ∃ order, t.Valid functor order ∧ t.items order = l

section

variable (h : t.Valid functor order) (hEqual : KeyEquality functor t.keysEqual)
include h hEqual

theorem Valid.moveToFront_spec (key : K) :
    (t.moveToFront functor key).1.Holds functor (Assoc.moveToFront t.keysEqual key (t.items order)).1 ∧
      (t.moveToFront functor key).2 = (Assoc.moveToFront t.keysEqual key (t.items order)).2 ∧
      t.KeepsArray (t.moveToFront functor key).1 := by
  rcases h.lookup_cases hEqual key with ⟨hLookup, hFind⟩ | ⟨a, e, b, hFound⟩
  · simp only [moveToFront, hLookup, Assoc.moveToFront, hFind]
    exact ⟨⟨order, h, rfl⟩, trivial, ⟨⟨rfl, rfl, rfl, rfl⟩, rfl, rfl⟩⟩
  · obtain ⟨-, -, free, chain, hSlots⟩ := h.slots_of_mem hFound.mem
    simp only [moveToFront, hFound.lookup, Assoc.moveToFront, hFound.find_eq, hFound.without_eq]
    obtain rfl := hFound.order_eq
    split
    · have hMoved : ((t.removeIterationEntry e).insertIterationEntry e none).Valid functor
          (e :: (a ++ b)) := h.relocate (c := []) (d := a ++ b) rfl
      refine ⟨⟨e :: (a ++ b), hMoved, ?_⟩, rfl, ⟨⟨rfl, rfl, rfl, rfl⟩, rfl, rfl⟩⟩
      rfl
    · rename_i hFirst
      rw [hSlots.iteration.linked.prev_eq, Bool.not_eq_true, Option.isSome_eq_false_iff,
        Option.isNone_iff_eq_none, List.getLast?_eq_none_iff] at hFirst
      subst hFirst
      exact ⟨⟨_, h, rfl⟩, rfl, ⟨⟨rfl, rfl, rfl, rfl⟩, rfl, rfl⟩⟩

theorem Valid.moveToBack_spec (key : K) :
    (t.moveToBack functor key).1.Holds functor (Assoc.moveToBack t.keysEqual key (t.items order)).1 ∧
      (t.moveToBack functor key).2 = (Assoc.moveToBack t.keysEqual key (t.items order)).2 ∧
      t.KeepsArray (t.moveToBack functor key).1 := by
  rcases h.lookup_cases hEqual key with ⟨hLookup, hFind⟩ | ⟨a, e, b, hFound⟩
  · simp only [moveToBack, hLookup, Assoc.moveToBack, hFind]
    exact ⟨⟨order, h, rfl⟩, trivial, ⟨⟨rfl, rfl, rfl, rfl⟩, rfl, rfl⟩⟩
  · obtain ⟨-, -, free, chain, hSlots⟩ := h.slots_of_mem hFound.mem
    simp only [moveToBack, hFound.lookup, Assoc.moveToBack, hFound.find_eq, hFound.without_eq]
    obtain rfl := hFound.order_eq
    split
    · rw [(hSlots.iteration.remove hSlots.order_nodup).tail]
      have hMoved := h.relocate (List.append_nil (a ++ b)).symm
      refine ⟨⟨a ++ b ++ [e], hMoved, ?_⟩, rfl, ⟨⟨rfl, rfl, rfl, rfl⟩, rfl, rfl⟩⟩
      exact items_append t (a ++ b) [e]
    · rename_i hLast
      rw [hSlots.iteration.linked.next_eq, Bool.not_eq_true, Option.isSome_eq_false_iff,
        Option.isNone_iff_eq_none, List.head?_eq_none_iff] at hLast
      subst hLast
      refine ⟨⟨_, h, ?_⟩, rfl, ⟨⟨rfl, rfl, rfl, rfl⟩, rfl, rfl⟩⟩
      rw [List.append_nil]
      exact items_append t a [e]

/-- The entries of two keys, and where the other key's entry is among the rest. -/
theorem Valid.found_two {key other : K} {a b c d : List Nat} {e f : Nat}
    (hFound : Found functor t order key a e b) (hOther : Found functor t order other c f d) :
    (t.keysEqual key other = true ↔ e = f) ∧
      (e ≠ f → ∃ c' d', a ++ b = c' ++ f :: d' ∧
        Assoc.Only t.keysEqual other (t.items c') (t.key f, t.value f) (t.items d')) := by
  obtain ⟨-, -, free, chain, hSlots⟩ := h.slots_of_mem hFound.mem
  refine ⟨⟨fun hSame => ?_, ?_⟩, fun hNe => ?_⟩
  · exact hSlots.unique hEqual hFound.mem hOther.mem (hEqual.trans _ _ _ hFound.only.here hSame)
      hOther.only.here
  · rintro rfl
    exact hEqual.trans _ _ _ (hEqual.symm _ _ hFound.only.here) hOther.only.here
  · have hPerm : order.Perm (e :: (a ++ b)) := by
      rw [hFound.order_eq]
      exact List.perm_middle
    have hRest : f ∈ a ++ b :=
      (List.mem_cons.mp (hPerm.mem_iff.mp hOther.mem)).resolve_left (Ne.symm hNe)
    obtain ⟨c', d', hSplit⟩ := List.append_of_mem hRest
    have hNodup : (a ++ b).Nodup := (List.nodup_cons.mp (hPerm.nodup_iff.mp hSlots.order_nodup)).2
    rw [hSplit] at hNodup
    have hElse : ∀ x ∈ c' ++ d', t.keysEqual (t.key x) other = false := by
      intro x hx
      have hxOrder : x ∈ order := by
        rw [hPerm.mem_iff, hSplit, List.perm_middle.cons e |>.mem_iff]
        exact List.mem_cons_of_mem _ (List.mem_cons_of_mem _ hx)
      rw [Bool.eq_false_iff]
      intro hMatch
      obtain rfl := hSlots.unique hEqual hxOrder hOther.mem hMatch hOther.only.here
      exact (List.nodup_cons.mp (List.nodup_middle.mp hNodup)).1 hx
    refine ⟨c', d', hSplit, hOther.only.here, fun i hi => ?_, fun i hi => ?_⟩
    · obtain ⟨x, hx, rfl⟩ := List.mem_map.mp hi
      exact hElse x (List.mem_append_left _ hx)
    · obtain ⟨x, hx, rfl⟩ := List.mem_map.mp hi
      exact hElse x (List.mem_append_right _ hx)

theorem Valid.moveToBefore_spec (key other : K) :
    (t.moveToBefore functor key other).1.Holds functor
        (Assoc.moveToBefore t.keysEqual key other (t.items order)).1 ∧
      (t.moveToBefore functor key other).2 =
        (Assoc.moveToBefore t.keysEqual key other (t.items order)).2 ∧
      t.KeepsArray (t.moveToBefore functor key other).1 := by
  rcases h.lookup_cases hEqual key with ⟨hLookup, hFind⟩ | ⟨a, e, b, hFound⟩
  · simp only [moveToBefore, hLookup, Assoc.moveToBefore, hFind]
    exact ⟨⟨order, h, rfl⟩, trivial, ⟨⟨rfl, rfl, rfl, rfl⟩, rfl, rfl⟩⟩
  rcases h.lookup_cases hEqual other with ⟨hLookup', hFind'⟩ | ⟨c, f, d, hOther⟩
  · simp only [moveToBefore, hFound.lookup, hLookup', Assoc.moveToBefore, hFound.find_eq, hFind']
    exact ⟨⟨order, h, rfl⟩, trivial, ⟨⟨rfl, rfl, rfl, rfl⟩, rfl, rfl⟩⟩
  obtain ⟨hSame, hApart⟩ := h.found_two hEqual hFound hOther
  obtain ⟨-, -, free, chain, hSlots⟩ := h.slots_of_mem hFound.mem
  simp only [moveToBefore, hFound.lookup, hOther.lookup, Assoc.moveToBefore, hFound.find_eq, hOther.find_eq,
    hFound.without_eq, hSame]
  by_cases hef : e = f
  · rw [if_pos hef, if_pos hef]
    exact ⟨⟨order, h, rfl⟩, rfl, ⟨⟨rfl, rfl, rfl, rfl⟩, rfl, rfl⟩⟩
  · obtain ⟨c', d', hSplit, hOnly'⟩ := hApart hef
    rw [if_neg hef, if_neg hef, hSplit, items_append, items_cons, hOnly'.takeWhile_eq, hOnly'.dropWhile_eq]
    obtain rfl := hFound.order_eq
    split
    · have hPrev : (t.removeIterationEntry e).iterPrev f = c'.getLast? := by
        have hRemoved := hSlots.iteration.remove hSlots.order_nodup
        rw [hSplit] at hRemoved
        exact hRemoved.linked.prev_eq
      rw [hPrev]
      refine ⟨⟨c' ++ e :: f :: d', h.relocate hSplit, ?_⟩, rfl, ⟨⟨rfl, rfl, rfl, rfl⟩, rfl, rfl⟩⟩
      show t.items (c' ++ e :: f :: d') = _
      simp [items]
    · rename_i hNext
      rw [not_not, hSlots.iteration.linked.next_eq] at hNext
      obtain ⟨b', rfl⟩ := List.head?_eq_some_iff.mp hNext
      -- the entry is already in front of the other one
      have hNodup := (List.nodup_cons.mp (List.nodup_middle.mp hSlots.order_nodup)).2
      obtain ⟨rfl, rfl⟩ := eq_of_split hNodup hSplit
      exact ⟨⟨_, h, by simp [items]⟩, rfl, ⟨⟨rfl, rfl, rfl, rfl⟩, rfl, rfl⟩⟩

theorem Valid.moveToBehind_spec (key other : K) :
    (t.moveToBehind functor key other).1.Holds functor
        (Assoc.moveToBehind t.keysEqual key other (t.items order)).1 ∧
      (t.moveToBehind functor key other).2 =
        (Assoc.moveToBehind t.keysEqual key other (t.items order)).2 ∧
      t.KeepsArray (t.moveToBehind functor key other).1 := by
  rcases h.lookup_cases hEqual key with ⟨hLookup, hFind⟩ | ⟨a, e, b, hFound⟩
  · simp only [moveToBehind, hLookup, Assoc.moveToBehind, hFind]
    cases t.lookup functor other <;>
      exact ⟨⟨order, h, rfl⟩, rfl, ⟨⟨rfl, rfl, rfl, rfl⟩, rfl, rfl⟩⟩
  rcases h.lookup_cases hEqual other with ⟨hLookup', hFind'⟩ | ⟨c, f, d, hOther⟩
  · simp only [moveToBehind, hLookup', Assoc.moveToBehind, hFound.find_eq, hFind']
    exact ⟨⟨order, h, rfl⟩, trivial, ⟨⟨rfl, rfl, rfl, rfl⟩, rfl, rfl⟩⟩
  obtain ⟨hSame, hApart⟩ := h.found_two hEqual hFound hOther
  obtain ⟨-, -, free, chain, hSlots⟩ := h.slots_of_mem hFound.mem
  simp only [moveToBehind, hFound.lookup, hOther.lookup, Assoc.moveToBehind, hFound.find_eq, hOther.find_eq,
    hFound.without_eq, hSame]
  by_cases hef : e = f
  · rw [if_pos hef, if_pos hef.symm]
    exact ⟨⟨order, h, rfl⟩, rfl, ⟨⟨rfl, rfl, rfl, rfl⟩, rfl, rfl⟩⟩
  · obtain ⟨c', d', hSplit, hOnly'⟩ := hApart hef
    rw [if_neg hef, if_neg (Ne.symm hef), hSplit, items_append, items_cons, hOnly'.takeWhile_eq, hOnly'.dropWhile_eq]
    obtain rfl := hFound.order_eq
    split
    · have hMoved := h.relocate (c := c' ++ [f]) (d := d') (by simpa using hSplit)
      rw [List.getLast?_append_cons, List.getLast?_singleton] at hMoved
      refine ⟨⟨_, hMoved, ?_⟩, rfl, ⟨⟨rfl, rfl, rfl, rfl⟩, rfl, rfl⟩⟩
      show t.items (c' ++ [f] ++ e :: d') = _
      simp [items]
    · rename_i hPrev
      rw [not_not, hSlots.iteration.linked.prev_eq] at hPrev
      obtain ⟨a', rfl⟩ := List.getLast?_eq_some_iff.mp hPrev
      -- the entry is already behind the other one
      have hNodup := (List.nodup_cons.mp (List.nodup_middle.mp hSlots.order_nodup)).2
      rw [List.append_assoc, List.singleton_append] at hNodup hSplit
      obtain ⟨rfl, rfl⟩ := eq_of_split hNodup hSplit
      exact ⟨⟨_, h, by simp [items]⟩, rfl, ⟨⟨rfl, rfl, rfl, rfl⟩, rfl, rfl⟩⟩

end

/-! ### Removals -/

section

variable [Inhabited K] [Inhabited V]

theorem removeAux_missing (h : t.lookup functor key = none) : t.removeAux functor key = (t, none) := by
  rw [removeAux, h]

theorem removeAux_found (h : t.lookup functor key = some e) :
    t.removeAux functor key = (t.dropEntry e, some (t.value e)) := by
  have hCount : ((t.removeIterationEntry e).unchain e).count = t.count := by
    rw [unchain]
    split <;> rfl
  simp only [removeAux, h, dropEntry, ← hCount]
  rfl

theorem Found.dropEntry_valid (hFound : Found functor t order key a e b) (h : t.Valid functor order) :
    (t.dropEntry e).Valid functor (a ++ b) ∧ (t.dropEntry e).items (a ++ b) = t.items (a ++ b) := by
  obtain ⟨hTable, hBounded, free, chain, hSlots⟩ := h.slots_of_mem hFound.mem
  obtain rfl := hFound.order_eq
  obtain ⟨hKey, hValue, hKeeps, -, -, free', chain', hSlots'⟩ := hSlots.dropEntry_spec h.size.1
  have hNotMem := (List.nodup_cons.mp (List.nodup_middle.mp hSlots.order_nodup)).1
  refine ⟨⟨?_, ?_, fun hNone => ?_, fun _ => ⟨?_, free', chain', hSlots'⟩⟩, ?_⟩
  · rw [hKeeps.initialCapacity]
    exact h.capacity
  · rw [hKeeps.tableSize]
    exact h.size
  · rw [hKeeps.hasTable, hTable] at hNone
    cases hNone
  · rwa [hKeeps.tableSize]
  · refine List.map_congr_left fun x hx => ?_
    have hxe : x ≠ e := fun hEq => hNotMem (hEq ▸ hx)
    rw [hKey, hValue, Function.update_of_ne hxe, Function.update_of_ne hxe]

theorem Valid.removeAux_spec (h : t.Valid functor order) (hEqual : KeyEquality functor t.keysEqual)
    (key : K) :
    (t.removeAux functor key).1.Holds functor (Assoc.remove t.keysEqual key (t.items order)).1 ∧
      (t.removeAux functor key).2 = (Assoc.remove t.keysEqual key (t.items order)).2 ∧
      t.KeepsArray (t.removeAux functor key).1 := by
  rcases h.lookup_cases hEqual key with ⟨hLookup, hFind⟩ | ⟨a, e, b, hFound⟩
  · rw [removeAux_missing hLookup, Assoc.remove, Assoc.get, hFind, Assoc.without_missing hFind]
    exact ⟨⟨order, h, rfl⟩, rfl, ⟨⟨rfl, rfl, rfl, rfl⟩, rfl, rfl⟩⟩
  · obtain ⟨-, -, free, chain, hSlots⟩ := h.slots_of_mem hFound.mem
    obtain ⟨hValid, hItems⟩ := hFound.dropEntry_valid h
    rw [hFound.order_eq] at hSlots
    rw [removeAux_found hFound.lookup, Assoc.remove, Assoc.get, hFound.find_eq, hFound.without_eq]
    exact ⟨⟨a ++ b, hValid, hItems⟩, rfl, (hSlots.dropEntry_spec h.size.1).2.2.1⟩

end

end Table

end BeShare.Muscle.Hashtable
