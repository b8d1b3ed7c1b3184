import BeShare.Hashtable.Refine

/-! What `SortByKey` and `SortByValue` do to the iteration list, and what they leave alone. -/

namespace BeShare.Muscle.Hashtable.Table

open BeShare.Lib

variable {K V : Type} {t t' : Table K V} {order order' : List Nat} {compare : Nat → Nat → Int}

/-- `t'` is `t` with its iteration list sorted by `compare`. -/
structure Sorted (compare : Nat → Nat → Int) (t t' : Table K V) (order order' : List Nat) : Prop
    extends Keeps t t' where
  linked : Linked t'.iterNext t'.iterPrev order'
  head : t'.iterHead = order'.head?
  tail : t'.iterTail = order'.getLast?
  perm : order'.Perm order
  key : t'.key = t.key
  value : t'.value = t.value
  sorted : order'.Pairwise fun a b => compare a b ≤ 0
  /-- Of two entries that are equal in the order, the one that came first still does. -/
  stable : ∀ a b, compare a b ≤ 0 → compare b a ≤ 0 → [a, b].Sublist order → [a, b].Sublist order'

theorem Sorted.items_perm (h : Sorted compare t t' order order') :
    (t'.items order').Perm (t.items order) := by
  rw [items, items, h.key, h.value]
  exact h.perm.map _

theorem sorted_mergeSort (hTrans : ∀ a b c, entryLE compare a b → entryLE compare b c → entryLE compare a c)
    (hTotal : ∀ a b, entryLE compare a b || entryLE compare b a) (hSame : t.SameEntries t')
    (hIteration : t'.IterationList (order.mergeSort (entryLE compare))) :
    Sorted compare t t' order (order.mergeSort (entryLE compare)) := by
  refine ⟨?_, hIteration.linked, hIteration.head, hIteration.tail, List.mergeSort_perm _ _, ?_, ?_, ?_, ?_⟩
  · rw [hSame]
    exact ⟨rfl, rfl, rfl, rfl⟩
  · rw [hSame]
  · rw [hSame]
  · exact (List.pairwise_mergeSort hTrans hTotal order).imp of_decide_eq_true
  · intro a b hab _ hSub
    have hLE : entryLE compare a b = true := decide_eq_true hab
    exact List.pair_sublist_mergeSort hTrans hTotal hLE hSub

variable [BEq K] {functor : K → UInt32}

/-- A lookup does not go along the iteration list. -/
theorem SameEntries.lookup_eq (h : t.SameEntries t') (key : K) :
    t'.lookup functor key = t.lookup functor key := by
  have hChain : ∀ hash fuel e, t'.findInChain hash key fuel e = t.findInChain hash key fuel e := by
    intro hash fuel
    induction fuel with
    | zero => intro e; rfl
    | succ fuel ih =>
      intro e
      cases e with
      | none => rfl
      | some e =>
        rw [findInChain, findInChain, ih, h]
        rfl
  rw [lookup, lookup, getEntry, getEntry, hChain, h]
  rfl

theorem Valid.sortByAux_sorted (h : t.Valid functor order) {optKeyFunc : Option (K → K → Int)}
    {optValueFunc : Option (V → V → Int)} {fuel : Nat} (hFuel : 2 ^ 33 ≤ fuel)
    (hSome : optKeyFunc.isSome ∨ optValueFunc.isSome)
    (hTrans : ∀ a b c, entryLE (t.compareEntries optKeyFunc optValueFunc) a b →
      entryLE (t.compareEntries optKeyFunc optValueFunc) b c →
      entryLE (t.compareEntries optKeyFunc optValueFunc) a c)
    (hTotal : ∀ a b, entryLE (t.compareEntries optKeyFunc optValueFunc) a b ||
      entryLE (t.compareEntries optKeyFunc optValueFunc) b a) :
    ∃ t' order', t.sortByAux fuel optKeyFunc optValueFunc = .ok (t', true) ∧
      t'.Valid functor order' ∧ Sorted (t.compareEntries optKeyFunc optValueFunc) t t' order order' ∧
      ∀ key, t'.lookup functor key = t.lookup functor key := by
  have hHead : t.iterHead.isSome = true ↔ order ≠ [] := by
    rw [h.iterationList.head, List.isSome_head?]
  rw [sortByAux, if_pos hSome]
  by_cases hNil : order = []
  · subst hNil
    rw [if_neg (by rw [hHead]; simp)]
    refine ⟨t, _, rfl, ?_, sorted_mergeSort hTrans hTotal (SameEntries.refl t) ?_, fun _ => rfl⟩
    · rw [List.mergeSort_nil]
      exact h
    · rw [List.mergeSort_nil]
      exact h.iterationList
  · obtain ⟨t', hRun, hSame, hValid⟩ := h.sortLoop_spec hTrans hTotal hFuel hNil
    rw [if_pos (hHead.mpr hNil), hRun, ok_bind]
    exact ⟨t', _, rfl, hValid, sorted_mergeSort hTrans hTotal hSame hValid.iterationList,
      hSame.lookup_eq⟩

/-- Both sorts leave the items in an order that is sorted by the comparison and stable, with the links
of the iteration list in place, and the lookups as they were. -/
theorem Valid.sorts (h : t.Valid functor order) {fuel : Nat} (hFuel : 2 ^ 33 ≤ fuel) :
    (∀ func : K → K → Int, Strcmp func →
      ∃ t' order', t.sortByKey fuel (some func) = .ok (t', true) ∧ t'.Valid functor order' ∧
        Sorted (fun a b => func (t.key a) (t.key b)) t t' order order' ∧
        ∀ key, t'.lookup functor key = t.lookup functor key) ∧
    ∀ func : V → V → Int, Strcmp func →
      ∃ t' order', t.sortByValue fuel (some func) = .ok (t', true) ∧ t'.Valid functor order' ∧
        Sorted (fun a b => func (t.value a) (t.value b)) t t' order order' ∧
        ∀ key, t'.lookup functor key = t.lookup functor key :=
  ⟨fun _ hFunc => h.sortByAux_sorted hFuel (.inl rfl) (hFunc.entryLE_trans t.key)
      (hFunc.entryLE_total t.key),
    fun _ hFunc => h.sortByAux_sorted hFuel (.inr rfl) (hFunc.entryLE_trans t.value)
      (hFunc.entryLE_total t.value)⟩

/-- Two keys that were put in the other order are sorted. -/
theorem Valid.sorts_two : ∃ (t : Table Nat Nat) (order : List Nat),
    t.Valid (fun _ => 0) order ∧ t.items order = [(2, 1), (1, 2)] ∧
      ∃ t' order', t.sortByKey (2 ^ 33) (some fun a b => a - b) = .ok (t', true) ∧
        Sorted (fun a b => t.key a - t.key b) t t' order order' := by
  have hEqual : KeyEquality (fun _ : Nat => 0) (· == ·) := KeyEquality.const
  have hStart : (Table.new 7 : Table Nat Nat).createEntriesArray.Valid (fun _ => 0) [] :=
    (Valid.new (by decide) (by decide)).createEntriesArray rfl (by decide)
  obtain ⟨t₁, e₁, -, hTable₁, hAppended₁⟩ := hStart.putNew_spec 2 rfl (by decide) hEqual rfl
    (by simp) 1
  have hKeys₁ : t₁.keysEqual = (· == ·) := hAppended₁.toKeeps.keysEqual
  have hSize₁ : t₁.tableSize = 7 := hAppended₁.tableSize
  have hNew : ∀ e ∈ [] ++ [e₁], t₁.keysEqual (t₁.key e) 1 = false := by
    intro e he
    rw [List.nil_append, List.mem_singleton] at he
    rw [hKeys₁, he, hAppended₁.key, Function.update_self]
    rfl
  obtain ⟨t₂, e₂, -, -, hAppended₂⟩ := hAppended₁.valid.putNew_spec 1 hTable₁ (by rw [hSize₁]; simp)
    (by rwa [hKeys₁]) hAppended₁.autoSortMode hNew 2
  have hItems := hAppended₂.items_eq
  rw [hAppended₁.items_eq] at hItems
  obtain ⟨t', order', hRun, -, hSorted, -⟩ := (Valid.sorts hAppended₂.valid (Nat.le_refl _)).1
    (fun a b => a - b) ⟨fun a b c => by omega, fun a b => by omega⟩
  exact ⟨t₂, _, hAppended₂.valid, hItems, t', order', hRun, hSorted⟩

end BeShare.Muscle.Hashtable.Table
