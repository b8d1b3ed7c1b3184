import BeShare.Hashtable.Grow

/-! `Put`, `EnsureSize` and `Clear` do the same to the list of items. -/

namespace BeShare.Muscle.Hashtable

open BeShare.Lib

variable {K V : Type} [BEq K] [Inhabited K] [Inhabited V] {functor : K → UInt32} {t t' : Table K V}
  {order a b : List Nat} {e : Nat} {memory : Memory} {fuel depth : Nat} {key : K} {value : V}

namespace Table

omit [Inhabited K] [Inhabited V] in
/-- A new key is put into a table that has a free entry. -/
theorem Valid.putNew_spec (h : t.Valid functor order) (key : K) (hTable : t.hasTable = true)
    (hRoom : order.length < t.tableSize) (hEqual : KeyEquality functor t.keysEqual)
    (hMode : t.autoSortMode = .disabled) (hNew : ∀ e ∈ order, t.keysEqual (t.key e) key = false)
    (value : V) :
    ∃ t' e, t.putNew (computeHash functor key) key value = .ok (t', some e, none) ∧
      t'.hasTable = true ∧ t.Appended functor t' order e key value := by
  obtain ⟨hBounded, free, chain, hSlots⟩ := h.allocated hTable
  obtain ⟨e, t', hRun, hFresh, hKey, hValue, hKeeps, hIterList, hIterators, free', chain', hSlots'⟩ :=
    hSlots.putNew_spec value h.size.1 (by rwa [hSlots.count]) hMode hEqual hNew
  refine ⟨t', e, hRun, hKeeps.hasTable.trans hTable, hKeeps, ⟨?_, ?_, fun hNone => ?_, fun _ => ⟨?_, _, _,
    hSlots'⟩⟩, hFresh, hKey, hValue, hIterList, hIterators⟩
  · rw [hKeeps.initialCapacity]
    exact h.capacity
  · rw [hKeeps.tableSize]
    exact h.size
  · rw [hKeeps.hasTable, hTable] at hNone
    cases hNone
  · rwa [hKeeps.tableSize]

omit [Inhabited K] [Inhabited V] in
theorem Valid.getEntry_eq (h : t.Valid functor order) (hTable : t.hasTable = true)
    (hEqual : KeyEquality functor t.keysEqual) (key : K) :
    t.getEntry (computeHash functor key) key = order.find? fun e => t.keysEqual (t.key e) key := by
  obtain ⟨-, free, chain, hSlots⟩ := h.allocated hTable
  exact hSlots.getEntry_eq hEqual h.size.1 key

/-- `PutAux` with a new key, when the entry array is there and has room. -/
theorem putAux_room (h : t.Valid functor order) (hTable : t.hasTable = true)
    (hRoom : order.length < t.tableSize) (hEqual : KeyEquality functor t.keysEqual)
    (hNew : ∀ e ∈ order, t.keysEqual (t.key e) key = false) :
    putAux functor memory fuel (depth + 1) t (computeHash functor key) key value =
      t.putNew (computeHash functor key) key value := by
  have hMissing : (order.find? fun e => t.keysEqual (t.key e) key) = none := by
    rw [List.find?_eq_none]
    intro e he
    rw [hNew e he]
    exact Bool.false_ne_true
  have hNotFull : t.count ≠ t.tableSize := by
    rw [h.count_eq]
    exact Nat.ne_of_lt hRoom
  rw [putAux, if_neg (by simp [hTable])]
  simp only [hTable, if_true, h.getEntry_eq hTable hEqual, hMissing, if_neg hNotFull]

/-- The entry array is there, with room for the key. -/
theorem putsNew_room (h : t.Valid functor order) (hTable : t.hasTable = true)
    (hRoom : order.length < t.tableSize) (hEqual : KeyEquality functor t.keysEqual)
    (hMode : t.autoSortMode = .disabled) (hNew : ∀ e ∈ order, t.keysEqual (t.key e) key = false) :
    ∃ t' e, putAux functor memory fuel (depth + 1) t (computeHash functor key) key value =
        .ok (t', some e, none) ∧ t'.hasTable = true ∧ t.Appended functor t' order e key value := by
  rw [putAux_room h hTable hRoom hEqual hNew]
  exact h.putNew_spec key hTable hRoom hEqual hMode hNew value

/-- There is no entry array yet. -/
theorem putAux_unallocated (hTable : t.hasTable = false)
    (hMemory : memory.allocates t.tableSize = true) (hash : UInt32) :
    putAux functor memory fuel (depth + 1) t hash key value =
      putAux functor memory fuel (depth + 1) t.createEntriesArray hash key value := by
  have hCreated : t.createEntriesArray.hasTable = true := rfl
  rw [putAux, putAux]
  simp only [hTable, hMemory, hCreated, Bool.true_eq_false, Bool.false_eq_true, and_false, false_and,
    if_true, if_false]

/-- What `PutAux` does with a new key, if it is known for a full table. -/
theorem putsNew_step (h : t.Valid functor order) (hEqual : KeyEquality functor t.keysEqual)
    (hMode : t.autoSortMode = .disabled) (hNew : ∀ e ∈ order, t.keysEqual (t.key e) key = false)
    (hFull : t.hasTable = true → order.length = t.tableSize →
      ∃ t₁ clone, t.Resized functor t₁ order clone ∧ t.Redirected t₁ order clone ∧
        (putAux functor memory fuel (depth + 1) t (computeHash functor key) key value =
              .ok (t₁, none, none) ∧ Refused memory fuel t order ∨
          ∃ t₂ e, putAux functor memory fuel (depth + 1) t (computeHash functor key) key value =
              .ok (t₂, some e, none) ∧
            t₂.hasTable = true ∧ t₁.Appended functor t₂ (order.map clone) e key value)) :
    ∃ t₁ clone, t.Resized functor t₁ order clone ∧ t.Redirected t₁ order clone ∧
      (order.length < t.tableSize → t₁.tableSize = t.tableSize ∧ ∀ e ∈ order, clone e = e) ∧
      (putAux functor memory fuel (depth + 1) t (computeHash functor key) key value =
            .ok (t₁, none, none) ∧ Refused memory fuel t order ∨
        ∃ t₂ e, putAux functor memory fuel (depth + 1) t (computeHash functor key) key value =
            .ok (t₂, some e, none) ∧
          t₂.hasTable = true ∧ t₁.Appended functor t₂ (order.map clone) e key value) := by
  by_cases hTable : t.hasTable = true
  · by_cases hRoom : order.length < t.tableSize
    · obtain ⟨t', e, hRun, hAllocated, hAppended⟩ :=
        putsNew_room h hTable hRoom
          hEqual hMode hNew
      refine ⟨t, id, Resized.refl h, Redirected.refl t order rfl, fun _ => ⟨rfl, fun _ _ => rfl⟩,
        .inr ⟨t', e, hRun, hAllocated, ?_⟩⟩
      rwa [List.map_id]
    · obtain ⟨-, free, chain, hSlots⟩ := h.allocated hTable
      have hLength := hSlots.length_eq
      obtain ⟨t₁, clone, hResized, hRedirected, hResult⟩ := hFull hTable (by omega)
      exact ⟨t₁, clone, hResized, hRedirected, fun hr => absurd hr hRoom, hResult⟩
  · rw [Bool.not_eq_true] at hTable
    cases hMemory : memory.allocates t.tableSize with
    | false =>
      refine ⟨t, id, Resized.refl h, Redirected.refl t order rfl, fun _ => ⟨rfl, fun _ _ => rfl⟩,
        .inl ⟨?_, .inl ⟨hTable, hMemory⟩⟩⟩
      rw [putAux, if_pos ⟨hTable, hMemory⟩]
    | true =>
      obtain ⟨rfl, -⟩ := h.unallocated hTable
      have hCreated := h.createEntriesArray hTable (memory.bounded _ hMemory)
      have hResized : t.Resized functor t.createEntriesArray [] id :=
        ⟨⟨rfl, rfl, rfl, rfl⟩, hCreated, nofun, nofun, rfl⟩
      rw [putAux_unallocated hTable hMemory]
      exact ⟨t.createEntriesArray, id, hResized, Redirected.refl t [] rfl, fun _ => ⟨rfl, nofun⟩,
        .inr (putsNew_room hCreated rfl h.size.1 hEqual hMode nofun)⟩

theorem putsNew (memory : Memory) (depth : Nat) (hFuel : 2 ^ 33 ≤ fuel) :
    PutsNew functor memory fuel (1 ≤ depth) (putAux (V := V) functor memory fuel (depth + 1)) := by
  induction depth with
  | zero =>
    intro t order key value h hEqual hMode hNew hReady
    exact putsNew_step h hEqual hMode hNew fun hFull => by omega
  | succ depth ih =>
    intro t order key value h hEqual hMode hNew _
    refine putsNew_step h hEqual hMode hNew fun hTable hFull => ?_
    have hBounded := (h.allocated hTable).1
    have hDouble : t.tableSize * 2 % 2 ^ 32 = t.tableSize * 2 := Nat.mod_eq_of_lt (by omega)
    obtain ⟨t₁, done, clone, hRun, hResized, hWithin⟩ := h.ensureSizeWith_spec hEqual hMode ih hFuel
      (by omega : t.tableSize * 2 < 2 ^ 32) (.inr (by omega))
    obtain ⟨hRedirected, hBigger, hRefused⟩ := hWithin (by omega)
    refine ⟨t₁, clone, hResized, hRedirected, ?_⟩
    have hMissing : (order.find? fun e => t.keysEqual (t.key e) key) = none := by
      rw [List.find?_eq_none]
      intro e he
      rw [hNew e he]
      exact Bool.false_ne_true
    have hCount : t.count = t.tableSize := h.count_eq.trans hFull
    rw [putAux, if_neg (by simp [hTable])]
    simp only [hTable, if_true, h.getEntry_eq hTable hEqual, hMissing, hCount, hDouble, hRun, ok_bind]
    cases done with
    | false =>
      obtain ⟨size, hPrime, hMemory⟩ := hRefused rfl
      rw [hCount, Nat.max_eq_right (by omega)] at hPrime
      exact .inl ⟨rfl, .inr ⟨hFull, size, hPrime, hMemory⟩⟩
    | true =>
      have hSize := hBigger rfl
      have hPos := h.size.1
      have hRoom : (order.map clone).length < t₁.tableSize := by
        rw [List.length_map]
        omega
      obtain ⟨x, hx⟩ := List.exists_mem_of_length_pos (l := order.map clone) (by
        rw [List.length_map]
        omega)
      have hKeys := hResized.toKeeps.keysEqual
      have hNew₁ : ∀ e ∈ order.map clone, t₁.keysEqual (t₁.key e) key = false := by
        intro e he
        obtain ⟨y, hy, rfl⟩ := List.mem_map.mp he
        rw [hKeys, hResized.key y hy]
        exact hNew y hy
      exact .inr (putsNew_room hResized.valid (hResized.valid.slots_of_mem hx).1 hRoom
        (hKeys ▸ hEqual) (hResized.autoSortMode.trans hMode) hNew₁)

/-! ### A key that is there -/

omit [Inhabited K] [Inhabited V] in
theorem repositionByValue_disabled (h : t.autoSortMode = .disabled) (e : Nat) :
    t.repositionByValue functor e = t := by
  simp only [repositionByValue, h]

/-- The value of a key that is there is replaced, and its entry goes where the auto-sort mode wants it. -/
theorem putAux_replaces (h : t.Valid functor order) (hEqual : KeyEquality functor t.keysEqual)
    (hFound : Found functor t order key a e b) :
    putAux functor memory fuel (depth + 1) t (computeHash functor key) key value =
      .ok ({ t with value := Function.update t.value e value }.repositionByValue functor e, some e,
        some (t.value e)) := by
  obtain ⟨hTable, -⟩ := h.slots_of_mem hFound.mem
  have hEntry : t.getEntry (computeHash functor key) key = some e := by
    rw [h.getEntry_eq hTable hEqual, ← h.lookup_eq hEqual, hFound.lookup]
  rw [putAux, if_neg (by simp [hTable])]
  simp only [hTable, if_true, hEntry]

theorem putAux_found (h : t.Valid functor order) (hEqual : KeyEquality functor t.keysEqual)
    (hMode : t.autoSortMode = .disabled) (hFound : Found functor t order key a e b) :
    putAux functor memory fuel (depth + 1) t (computeHash functor key) key value =
      .ok ({ t with value := Function.update t.value e value }, some e, some (t.value e)) := by
  rw [putAux_replaces h hEqual hFound, repositionByValue_disabled (by exact hMode)]

omit [Inhabited K] [Inhabited V] in
theorem Found.items_withValue (hFound : Found functor t order key a e b) (h : t.Valid functor order)
    (value : V) :
    { t with value := Function.update t.value e value }.items order =
      t.items a ++ (t.key e, value) :: t.items b := by
  obtain ⟨-, -, free, chain, hSlots⟩ := h.slots_of_mem hFound.mem
  obtain rfl := hFound.order_eq
  have hNotMem := (List.nodup_cons.mp (List.nodup_middle.mp hSlots.order_nodup)).1
  have hOther : ∀ x ∈ a ++ b, Function.update t.value e value x = t.value x := by
    intro x hx
    refine Function.update_of_ne ?_ ..
    rintro rfl
    exact hNotMem hx
  have hA : { t with value := Function.update t.value e value }.items a = t.items a :=
    List.map_congr_left fun x hx =>
      congrArg (Prod.mk (t.key x)) (hOther x (List.mem_append_left _ hx))
  have hB : { t with value := Function.update t.value e value }.items b = t.items b :=
    List.map_congr_left fun x hx =>
      congrArg (Prod.mk (t.key x)) (hOther x (List.mem_append_right _ hx))
  have hHere : Function.update t.value e value e = value := Function.update_self ..
  rw [items_append, items_cons, hA, hB]
  exact congrArg (fun v => t.items a ++ (t.key e, v) :: t.items b) hHere

/-! ### The operations on the items -/

/-- `Put` does what it does to the list, or has no memory for a new key and leaves all as it was. -/
theorem Valid.put_spec (h : t.Valid functor order) (hEqual : KeyEquality functor t.keysEqual)
    (hMode : t.autoSortMode = .disabled) (hFuel : 2 ^ 33 ≤ fuel) (memory : Memory) (key : K) (value : V) :
    ∃ t' status previous, t.put functor memory fuel key value = .ok (t', status, previous) ∧
      t.Keeps t' ∧
      (status = true ∧ t'.Holds functor (Assoc.put t.keysEqual key value (t.items order)).1 ∧
          previous = (Assoc.put t.keysEqual key value (t.items order)).2 ∨
        status = false ∧ t'.Holds functor (t.items order) ∧ previous = none ∧
          Refused memory fuel t order) := by
  obtain ⟨depth, rfl⟩ : ∃ n, fuel = n + 2 := ⟨fuel - 2, by omega⟩
  rw [put]
  rcases h.lookup_cases hEqual key with ⟨hLookup, hFind⟩ | ⟨a, e, b, hFound⟩
  · have hNew : ∀ e ∈ order, t.keysEqual (t.key e) key = false := by
      rw [h.lookup_eq hEqual, List.find?_eq_none] at hLookup
      exact fun e he => Bool.eq_false_iff.mpr (hLookup e he)
    obtain ⟨t₁, clone, hResized, -, -, hResult⟩ := putsNew memory (depth + 1) hFuel t order
      key value h hEqual hMode hNew (.inl (by omega))
    rcases hResult with ⟨hFail, hRefused⟩ | ⟨t₂, e, hDone, -, hAppended⟩
    · rw [hFail, ok_bind]
      exact ⟨t₁, false, none, rfl, hResized.toKeeps,
        .inr ⟨rfl, ⟨_, hResized.valid, hResized.items_eq⟩, rfl, hRefused⟩⟩
    · rw [hDone, ok_bind, Assoc.put, hFind]
      refine ⟨t₂, true, none, rfl, hResized.toKeeps.trans hAppended.toKeeps,
        .inl ⟨rfl, ⟨_, hAppended.valid, ?_⟩, rfl⟩⟩
      rw [hAppended.items_eq, hResized.items_eq]
  · rw [putAux_found h hEqual hMode hFound, ok_bind]
    refine ⟨_, true, some (t.value e), rfl, ⟨rfl, rfl, rfl, rfl⟩, .inl ⟨rfl, ⟨order, h.congr rfl, ?_⟩, ?_⟩⟩
    · rw [hFound.items_withValue h, hFound.order_eq, items_append, items_cons, hFound.only.put_eq]
    · rw [hFound.order_eq, items_append, items_cons, hFound.only.put_eq]

theorem Valid.ensureSize_spec (h : t.Valid functor order) (hEqual : KeyEquality functor t.keysEqual)
    (hMode : t.autoSortMode = .disabled) (hFuel : 2 ^ 33 ≤ fuel) (memory : Memory)
    (requestedSize : UInt32) :
    ∃ t' status, t.ensureSize functor memory fuel requestedSize = .ok (t', status) ∧ t.Keeps t' ∧
      t'.Holds functor (t.items order) := by
  obtain ⟨depth, rfl⟩ : ∃ n, fuel = n + 2 := ⟨fuel - 2, by omega⟩
  obtain ⟨t', status, clone, hRun, hResized, -⟩ := h.ensureSizeWith_spec hEqual hMode
    (putsNew memory (depth + 1) hFuel) hFuel requestedSize.toNat_lt (.inl (by omega))
  exact ⟨t', status, hRun, hResized.toKeeps, _, hResized.valid, hResized.items_eq⟩

/-! ### `Clear` -/

omit [BEq K] in
/-- The entries from the head on are returned to the free list. -/
theorem resetEntries_spec {l free : List Nat} {p : Option Nat}
    (hPerm : (l ++ free).Perm (List.range t.tableSize)) (hLinked : Segment t.iterNext t.iterPrev p l none)
    (hHead : t.iterHead = l.head?) (hFree : t.FreeList free)
    (hUnused : ∀ e ∈ free, t.hash e = MUSCLE_HASHTABLE_INVALID_HASH_CODE) :
    t.KeepsArray (resetEntries l.length t) ∧ (resetEntries l.length t).mapTo = t.mapTo ∧
      (resetEntries l.length t).mappedFrom = t.mappedFrom ∧
      (resetEntries l.length t).iterList = t.iterList ∧
      (resetEntries l.length t).iterators = t.iterators ∧
      ∃ free' : List Nat, free'.Perm (List.range t.tableSize) ∧
        (resetEntries l.length t).FreeList free' ∧
        ∀ e ∈ free', (resetEntries l.length t).hash e = MUSCLE_HASHTABLE_INVALID_HASH_CODE := by
  induction l generalizing t free p with
  | nil => exact ⟨⟨⟨rfl, rfl, rfl, rfl⟩, rfl, rfl⟩, rfl, rfl, rfl, rfl, free, hPerm, hFree, hUnused⟩
  | cons e l ih =>
    have hNodup : (e :: l ++ free).Nodup := hPerm.nodup_iff.mpr List.nodup_range
    obtain ⟨hNodupL, hNodupFree, hApart⟩ := List.nodup_append.mp hNodup
    have hNotL := (List.nodup_cons.mp hNodupL).1
    have hNotFree : e ∉ free := fun hMem => hApart e (List.mem_cons_self ..) e hMem rfl
    obtain ⟨-, hNext, hRest⟩ := hLinked
    rw [Option.or_none] at hNext
    have hOther : ∀ {f : Nat → Option Nat} {v : Option Nat}, ∀ x ∈ l, Function.update f e v x = f x := by
      rintro f v x hx
      refine Function.update_of_ne ?_ ..
      rintro rfl
      exact hNotL hx
    have hReturned := (hFree.add hNodupFree hNotFree).1
    have hReset := ih (t := { t.returnToFreeList e with iterHead := t.iterNext e })
      (p := some e) (List.perm_middle.trans hPerm)
      (hRest.congr (fun x hx => hOther x hx) fun x hx => hOther x hx) hNext
      ⟨hReturned.linked, hReturned.head⟩ ?_
    · rw [List.length_cons, resetEntries]
      simp only [hHead, List.head?_cons]
      obtain ⟨⟨⟨hCapacity, hKey, hValue, hMode⟩, hSize, hTable⟩, hReset⟩ := hReset
      exact ⟨⟨⟨hCapacity, hKey, hValue, hMode⟩, hSize, hTable⟩, hReset⟩
    · intro x hx
      show Function.update t.hash e _ x = _
      rcases List.mem_cons.mp hx with rfl | hOld
      · exact Function.update_self ..
      · have hxe : x ≠ e := fun hEq => hNotFree (hEq ▸ hOld)
        rw [Function.update_of_ne hxe, hUnused x hOld]

omit [Inhabited K] [Inhabited V] in
theorem Valid.eq_nil (h : t.Valid functor order) (hNone : ¬t.count > 0) : order = [] := by
  rw [← List.length_eq_zero_iff, ← h.count_eq]
  omega

theorem Valid.clearEntries (h : t.Valid functor order) :
    (t.clearEntries false).Valid functor [] ∧ t.KeepsArray (t.clearEntries false) ∧
      (t.clearEntries false).iterList = t.iterList ∧ (t.clearEntries false).iterators = t.iterators := by
  rw [Table.clearEntries]
  split
  · have hSome : order ≠ [] := by
      rintro rfl
      have hCount := h.count_eq
      rw [List.length_nil] at hCount
      omega
    obtain ⟨x, hx⟩ := List.exists_mem_of_ne_nil _ hSome
    obtain ⟨hTable, hBounded, free, chain, hSlots⟩ := h.slots_of_mem hx
    rw [h.count_eq]
    obtain ⟨hKeeps, hMapTo, hMappedFrom, hIterList, hIterators, free', hPerm, hFree, hUnused⟩ :=
      resetEntries_spec hSlots.perm hSlots.iteration.linked hSlots.iteration.head hSlots.freeList
        hSlots.unused
    simp only [Bool.false_eq_true, if_false]
    refine ⟨⟨?_, ?_, fun hNone => ?_, fun _ => ⟨?_, free', fun _ => [], ?_, rfl, ⟨trivial, rfl, rfl⟩,
      ⟨hFree.linked, hFree.head⟩, hUnused, nofun, ?_, ?_, nofun⟩⟩,
      ⟨⟨hKeeps.1.1, hKeeps.1.2, hKeeps.1.3, hKeeps.1.4⟩, hKeeps.tableSize, hKeeps.hasTable⟩, hIterList,
      hIterators⟩
    · exact hKeeps.initialCapacity ▸ h.capacity
    · exact hKeeps.tableSize ▸ h.size
    · exact absurd (hTable.symm.trans (hKeeps.hasTable.symm.trans hNone)) (by simp)
    · exact hKeeps.tableSize ▸ hBounded
    · exact hKeeps.tableSize ▸ hPerm
    · exact ⟨fun _ _ => trivial, fun _ _ => List.nodup_nil, fun _ _ _ => nofun, fun _ _ _ => by simp⟩
    · show MapsInverse (resetEntries order.length t).tableSize _ _
      rw [hKeeps.tableSize, hMapTo, hMappedFrom]
      exact hSlots.maps
  · rename_i hNone
    obtain rfl := h.eq_nil hNone
    exact ⟨h, ⟨⟨rfl, rfl, rfl, rfl⟩, rfl, rfl⟩, rfl, rfl⟩

theorem Valid.clear_spec (h : t.Valid functor order) (releaseCachedBuffers : Bool) :
    (t.clear releaseCachedBuffers).Valid functor [] ∧ t.Keeps (t.clear releaseCachedBuffers) ∧
      (t.clear releaseCachedBuffers).iterList = [] ∧
      (t.clear releaseCachedBuffers).iterators = t.onIterList orphan := by
  have hForgot : t.clearIterators.Valid functor order := h.congr rfl
  cases releaseCachedBuffers with
  | false =>
    obtain ⟨hValid, hKeeps, hIterList, hIterators⟩ := hForgot.clearEntries
    exact ⟨hValid, ⟨hKeeps.1.1, hKeeps.1.2, hKeeps.1.3, hKeeps.1.4⟩, hIterList, hIterators⟩
  | true =>
    have hCleared : (t.clearIterators.clearEntries true).count = 0 ∧
        (t.clearIterators.clearEntries true).iterHead = none ∧
        (t.clearIterators.clearEntries true).iterTail = none ∧
        t.Keeps (t.clearIterators.clearEntries true) ∧
        (t.clearIterators.clearEntries true).iterList = [] ∧
        (t.clearIterators.clearEntries true).iterators = t.onIterList orphan := by
      rw [Table.clearEntries]
      split
      · exact ⟨rfl, rfl, rfl, ⟨rfl, rfl, rfl, rfl⟩, rfl, rfl⟩
      · rename_i hNone
        have hIteration := hForgot.iterationList
        rw [hForgot.eq_nil hNone] at hIteration
        exact ⟨by omega, hIteration.head, hIteration.tail, ⟨rfl, rfl, rfl, rfl⟩, rfl, rfl⟩
    obtain ⟨hCount, hHead, hTail, hKeeps, hIterList, hIterators⟩ := hCleared
    have hCapacity := hKeeps.initialCapacity ▸ h.capacity
    exact ⟨⟨hCapacity, hCapacity, fun _ => ⟨rfl, hCount, hHead, hTail⟩, nofun⟩,
      ⟨hKeeps.1, hKeeps.2, hKeeps.3, hKeeps.4⟩, hIterList, hIterators⟩

end Table

end BeShare.Muscle.Hashtable
