import BeShare.Hashtable.Moves
import BeShare.Hashtable.NextPrime

/-! `EnsureSize` and `PutAux`: the items keep their order when they are copied to a bigger table. -/

namespace BeShare.Muscle.Hashtable

open BeShare.Lib

variable {K V : Type} {t t' b : Table K V} {order : List Nat} {clone : Nat → Nat}

/-! ### Iterators of a table whose entries get other places -/

/-- The iterator stands on entries of `order`. -/
structure HashtableIterator.StandsIn (order : List Nat) (iter : HashtableIterator) : Prop where
  key : ∀ e, iter.nextKeyCookie = some e → e ∈ order
  value : ∀ e, iter.nextValueCookie = some e → e ∈ order

/-- `iter'` is the iterator `iter` on the clones of the entries. -/
structure HashtableIterator.Follows (clone : Nat → Nat) (iter iter' : HashtableIterator) : Prop where
  owned : iter'.owned = iter.owned
  backwards : iter'.backwards = iter.backwards
  key : iter'.nextKeyCookie = iter.nextKeyCookie.map clone
  value : iter'.nextValueCookie = iter.nextValueCookie.map clone

theorem HashtableIterator.Follows.standsIn {iter iter' : HashtableIterator}
    (h : iter.Follows clone iter') (hStands : iter.StandsIn order) :
    iter'.StandsIn (order.map clone) := by
  constructor
  · intro e he
    rw [h.key, Option.map_eq_some_iff] at he
    obtain ⟨x, hx, rfl⟩ := he
    exact List.mem_map_of_mem (hStands.key x hx)
  · intro e he
    rw [h.value, Option.map_eq_some_iff] at he
    obtain ⟨x, hx, rfl⟩ := he
    exact List.mem_map_of_mem (hStands.value x hx)

namespace Table

/-- The iterators of `t'` stand on the clones. -/
structure Redirected (t t' : Table K V) (order : List Nat) (clone : Nat → Nat) : Prop where
  registered : ∀ i ∈ t.iterList, (t.iterators i).StandsIn order →
    (t.iterators i).Follows clone (t'.iterators i)
  others : ∀ i ∉ t.iterList, t'.iterators i = t.iterators i

theorem Redirected.refl (t : Table K V) (order : List Nat) (h : t'.iterators = t.iterators) :
    t.Redirected t' order id := by
  refine ⟨fun i _ _ => ?_, fun i _ => congrFun h i⟩
  rw [congrFun h i]
  exact ⟨rfl, rfl, (congrFun Option.map_id _).symm, (congrFun Option.map_id _).symm⟩

variable [BEq K] (functor : K → UInt32)

/-- `t'` holds a clone of each entry of `t`. -/
structure Resized (t t' : Table K V) (order : List Nat) (clone : Nat → Nat) : Prop
    extends Keeps t t' where
  valid : t'.Valid functor (order.map clone)
  key : ∀ e ∈ order, t'.key (clone e) = t.key e
  value : ∀ e ∈ order, t'.value (clone e) = t.value e
  iterList : t'.iterList = t.iterList

/-- `t'` is `t` with a new entry at the end. -/
structure Appended (t t' : Table K V) (order : List Nat) (e : Nat) (key : K) (value : V) : Prop
    extends KeepsArray t t' where
  valid : t'.Valid functor (order ++ [e])
  fresh : e ∉ order
  key : t'.key = Function.update t.key e key
  value : t'.value = Function.update t.value e value
  iterList : t'.iterList = t.iterList
  iterators : t'.iterators = t.iterators

variable {functor}

theorem Resized.refl (h : t.Valid functor order) : t.Resized functor t order id := by
  refine ⟨⟨rfl, rfl, rfl, rfl⟩, ?_, fun _ _ => rfl, fun _ _ => rfl, rfl⟩
  rwa [List.map_id]

theorem Resized.items_eq (h : t.Resized functor t' order clone) :
    t'.items (order.map clone) = t.items order := by
  rw [items, items, List.map_map]
  exact List.map_congr_left fun e he => by rw [Function.comp_apply, h.key e he, h.value e he]

theorem Appended.items_eq {e : Nat} {key : K} {value : V}
    (h : t.Appended functor t' order e key value) :
    t'.items (order ++ [e]) = t.items order ++ [(key, value)] := by
  have hOld : t'.items order = t.items order := by
    refine List.map_congr_left fun x hx => ?_
    have hxe : x ≠ e := fun hEq => h.fresh (hEq ▸ hx)
    rw [h.key, h.value, Function.update_of_ne hxe, Function.update_of_ne hxe]
  rw [items, List.map_append]
  congr 1
  rw [List.map_singleton, h.key, h.value, Function.update_self, Function.update_self]

section

variable {t₁ t₂ : Table K V} {clone' : Nat → Nat}

theorem Resized.trans (h : t.Resized functor t₁ order clone)
    (h' : t₁.Resized functor t₂ (order.map clone) clone') :
    t.Resized functor t₂ order (clone' ∘ clone) := by
  refine ⟨h.toKeeps.trans h'.toKeeps, ?_, fun e he => ?_, fun e he => ?_, h'.iterList.trans h.iterList⟩
  · rw [← List.map_map]
    exact h'.valid
  · rw [Function.comp_apply, h'.key _ (List.mem_map_of_mem he), h.key e he]
  · rw [Function.comp_apply, h'.value _ (List.mem_map_of_mem he), h.value e he]

omit [BEq K] in
theorem Redirected.trans (h : t.Redirected t₁ order clone)
    (h' : t₁.Redirected t₂ (order.map clone) clone') (hList : t₁.iterList = t.iterList) :
    t.Redirected t₂ order (clone' ∘ clone) := by
  constructor
  · intro i hi hStands
    have hFirst := h.registered i hi hStands
    have hSecond := h'.registered i (hList ▸ hi) (hFirst.standsIn hStands)
    refine ⟨hSecond.owned.trans hFirst.owned, hSecond.backwards.trans hFirst.backwards, ?_, ?_⟩
    · rw [hSecond.key, hFirst.key, Option.map_map]
    · rw [hSecond.value, hFirst.value, Option.map_map]
  · intro i hi
    rw [h'.others i (hList ▸ hi), h.others i hi]

end

/-! ### The entry array -/

theorem range_linked {size : Nat} {next prev : Nat → Option Nat}
    (hNext : ∀ i, next i = if i + 1 < size then some (i + 1) else none)
    (hPrev : ∀ i, prev i = if i = 0 then none else some (i - 1)) :
    ∀ n i, i + n = size → Segment next prev (prev i) (List.range' i n) none := by
  intro n
  induction n with
  | zero => exact fun _ _ => trivial
  | succ n ih =>
    intro i hi
    refine ⟨rfl, ?_, ?_⟩
    · rw [hNext, Option.or_none]
      cases n with
      | zero => rw [if_neg (by omega)]; rfl
      | succ n => rw [if_pos (by omega)]; rfl
    · have hRest := ih (i + 1) (by omega)
      rwa [hPrev, if_neg (by omega), Nat.add_sub_cancel] at hRest

theorem createEntriesArray_slots [Inhabited K] [Inhabited V] (hSize : 0 < t.tableSize)
    (hCount : t.count = 0) (hHead : t.iterHead = none) (hTail : t.iterTail = none) :
    t.createEntriesArray.Slots functor [] (List.range t.tableSize) fun _ => [] := by
  refine ⟨List.Perm.refl _, hCount, ⟨trivial, hHead, hTail⟩, ⟨?_, ?_⟩, fun _ _ => rfl, ?_, ?_,
    MapsInverse.id _, ?_⟩
  · rw [List.range_eq_range']
    exact range_linked (fun _ => rfl) (fun _ => rfl) t.tableSize 0 (Nat.zero_add _)
  · rw [List.head?_range, if_neg (by omega)]
    rfl
  · intro e he
    cases he
  · exact ⟨fun _ _ => trivial, fun _ _ => List.nodup_nil, fun _ _ _ => nofun, fun _ _ _ => by simp⟩
  · intro e he
    cases he

theorem Valid.createEntriesArray [Inhabited K] [Inhabited V] (h : t.Valid functor order)
    (hTable : t.hasTable = false) (hBounded : t.tableSize < 2 ^ 30) :
    t.createEntriesArray.Valid functor order := by
  obtain ⟨rfl, hCount, hHead, hTail⟩ := h.unallocated hTable
  exact ⟨h.capacity, h.size, nofun, fun _ =>
    ⟨hBounded, _, _, createEntriesArray_slots h.size.1 hCount hHead hTail⟩⟩

/-! ### The copy -/

/-- Why an item cannot be put into `t`: there is no memory for the array that the call asks for. -/
def Refused (memory : Memory) (fuel : Nat) (t : Table K V) (order : List Nat) : Prop :=
  t.hasTable = false ∧ memory.allocates t.tableSize = false ∨
    order.length = t.tableSize ∧
      ∃ size, nextPrime fuel (t.tableSize * 2) = .ok size ∧ memory.allocates size = false

/-- What `PutAux` does with a new key. It may need a bigger table only if `deep` holds. -/
def PutsNew (functor : K → UInt32) (memory : Memory) (fuel : Nat) (deep : Prop)
    (putAux : Table K V → UInt32 → K → V → Run (PutResult K V)) : Prop :=
  ∀ t order key value, t.Valid functor order → KeyEquality functor t.keysEqual →
    t.autoSortMode = .disabled → (∀ e ∈ order, t.keysEqual (t.key e) key = false) →
    (deep ∨ order.length < t.tableSize) →
    ∃ t₁ clone, t.Resized functor t₁ order clone ∧ t.Redirected t₁ order clone ∧
      (order.length < t.tableSize → t₁.tableSize = t.tableSize ∧ ∀ e ∈ order, clone e = e) ∧
      (putAux t (computeHash functor key) key value = .ok (t₁, none, none) ∧
          Refused memory fuel t order ∨
        ∃ t₂ e, putAux t (computeHash functor key) key value = .ok (t₂, some e, none) ∧
          t₂.hasTable = true ∧ t₁.Appended functor t₂ (order.map clone) e key value)

/-- The scratch pointer of an iterator that stands on `cookie`, when the entries of `done` are
copied. -/
def scratchOf (clone : Nat → Nat) (done : List Nat) (cookie : Option Nat) : Option Nat :=
  (cookie.filter (· ∈ done)).map clone

/-- The copy of the entries of `t` to the table `b` has come past the entries of `done`. If there is
room for all of them in `b`, no clone gets another place. -/
structure Copying (functor : K → UInt32) (t : Table K V) (room : Prop) (size : Nat) (done : List Nat)
    (t' b : Table K V) (clone : Nat → Nat) : Prop where
  same : t' = { t with iterators := t'.iterators }
  functions : b.userKeyCompareFunc = t.userKeyCompareFunc ∧
    b.userValueCompareFunc = t.userValueCompareFunc ∧ b.autoSortMode = t.autoSortMode
  valid : b.Valid functor (done.map clone)
  key : ∀ e ∈ done, b.key (clone e) = t.key e
  value : ∀ e ∈ done, b.value (clone e) = t.value e
  tableSize : room → b.tableSize = size
  table : done ≠ [] → b.hasTable = true
  registered : ∀ i ∈ t.iterList, ∃ scratchKey scratchValue,
    t'.iterators i = { t.iterators i with scratchKey, scratchValue } ∧
      (room → scratchKey = scratchOf clone done (t.iterators i).nextKeyCookie ∧
        scratchValue = scratchOf clone done (t.iterators i).nextValueCookie)
  others : ∀ i ∉ t.iterList, t'.iterators i = t.iterators i

theorem scratchOf_snoc {done : List Nat} {x e : Nat} {cookie : Option Nat} (hx : x ∉ done) :
    scratchOf (Function.update clone x e) (done ++ [x]) cookie =
      if cookie = some x then some e else scratchOf clone done cookie := by
  cases cookie with
  | none => rfl
  | some c =>
    by_cases hc : c = x
    · subst hc
      simp [scratchOf]
    · simp [scratchOf, hc, Option.filter_some]

section

variable {memory : Memory} {fuel : Nat} {deep room : Prop} {size : Nat} {done rem : List Nat} {x : Nat}
  {putAux : Table K V → UInt32 → K → V → Run (PutResult K V)}

/-- The entry that is copied next has a new key. -/
theorem Copying.next (hCopy : Copying functor t room size done t' b clone) (h : t.Valid functor order)
    (hRoom : room → order.length ≤ size) (hOrder : order = done ++ x :: rem) :
    x ∉ done ∧ b.keysEqual = t.keysEqual ∧
      (∀ e ∈ done.map clone, b.keysEqual (b.key e) (t.key x) = false) ∧
      (room → (done.map clone).length < b.tableSize) ∧ t'.hash x = computeHash functor (t.key x) := by
  obtain ⟨-, -, free, chain, hSlots⟩ := h.slots_of_mem (e := x) (by rw [hOrder]; simp)
  have hNodup := hSlots.order_nodup
  rw [hOrder] at hNodup
  have hx : x ∉ done := fun hMem =>
    (List.nodup_cons.mp (List.nodup_middle.mp hNodup)).1 (List.mem_append_left _ hMem)
  have hKeys : b.keysEqual = t.keysEqual := by
    funext k l
    simp only [keysEqual, hCopy.functions.1]
  have hNew : ∀ e ∈ done.map clone, b.keysEqual (b.key e) (t.key x) = false := by
    intro e he
    obtain ⟨y, hy, rfl⟩ := List.mem_map.mp he
    rw [hKeys, hCopy.key y hy, Bool.eq_false_iff]
    intro hMatch
    have hyx := hSlots.distinct y (by rw [hOrder]; simp [hy]) x (by rw [hOrder]; simp) hMatch
    exact hx (hyx ▸ hy)
  have hLength : room → (done.map clone).length < b.tableSize := by
    intro hr
    have hTotal := hRoom hr
    rw [hOrder, List.length_append, List.length_cons] at hTotal
    rw [List.length_map, hCopy.tableSize hr]
    omega
  have hHash : t.hash x = computeHash functor (t.key x) := hSlots.used x (by rw [hOrder]; simp)
  exact ⟨hx, hKeys, hNew, hLength, by rw [hCopy.same, ← hHash]⟩

/-- An entry is copied. -/
theorem Copying.step (hCopy : Copying functor t room size done t' b clone)
    (hPut : PutsNew functor memory fuel deep putAux) (h : t.Valid functor order)
    (hEqual : KeyEquality functor t.keysEqual) (hMode : t.autoSortMode = .disabled)
    (hReady : deep ∨ room) (hRoom : room → order.length ≤ size) (hOrder : order = done ++ x :: rem) :
    (∃ b', putAux b (t'.hash x) (t'.key x) (t'.value x) = .ok (b', none, none) ∧
        (room → memory.allocates size = false)) ∨
      ∃ b' e clone', putAux b (t'.hash x) (t'.key x) (t'.value x) = .ok (b', some e, none) ∧
        Copying functor t room size (done ++ [x])
          { t' with iterators := t'.onIterList (redirect x e) } b' clone' := by
  obtain ⟨hx, hKeys, hNew, hLength, hHash'⟩ := hCopy.next h hRoom hOrder
  obtain ⟨b₁, clone₁, hResized, -, hStays, hResult⟩ := hPut b _ (t.key x) (t.value x) hCopy.valid
    (hKeys ▸ hEqual) (hCopy.functions.2.2.trans hMode) hNew (hReady.imp id hLength)
  have hKey' : t'.key x = t.key x := by rw [hCopy.same]
  have hValue' : t'.value x = t.value x := by rw [hCopy.same]
  rw [hHash', hKey', hValue']
  rcases hResult with ⟨hFail, hRefused⟩ | ⟨b₂, e, hDone, hTable, hAppended⟩
  · refine .inl ⟨b₁, hFail, fun hr => ?_⟩
    rw [← hCopy.tableSize hr]
    exact (hRefused.resolve_right fun hFull => Nat.ne_of_lt (hLength hr) hFull.1).2
  · refine .inr ⟨b₂, e, Function.update (clone₁ ∘ clone) x e, hDone, ?_⟩
    have hOld : ∀ y ∈ done, Function.update (clone₁ ∘ clone) x e y = clone₁ (clone y) := by
      intro y hy
      refine Function.update_of_ne ?_ ..
      rintro rfl
      exact hx hy
    have hFresh : ∀ y ∈ done, clone₁ (clone y) ≠ e := by
      intro y hy hEq
      exact hAppended.fresh (hEq ▸ List.mem_map_of_mem (List.mem_map_of_mem hy))
    have hOrder' : (done ++ [x]).map (Function.update (clone₁ ∘ clone) x e) =
        (done.map clone).map clone₁ ++ [e] := by
      rw [List.map_append, List.map_map, List.map_singleton, Function.update_self,
        List.map_congr_left hOld]
      rfl
    constructor
    · rw [hCopy.same]
    · refine ⟨?_, ?_, ?_⟩
      · rw [hAppended.userKeyCompareFunc, hResized.userKeyCompareFunc, hCopy.functions.1]
      · rw [hAppended.userValueCompareFunc, hResized.userValueCompareFunc, hCopy.functions.2.1]
      · rw [hAppended.autoSortMode, hResized.autoSortMode, hCopy.functions.2.2]
    · rw [hOrder']
      exact hAppended.valid
    · intro y hy
      rw [hAppended.key]
      rcases List.mem_append.mp hy with hDoneY | hLast
      · rw [hOld y hDoneY, Function.update_of_ne (hFresh y hDoneY),
          hResized.key _ (List.mem_map_of_mem hDoneY), hCopy.key y hDoneY]
      · rw [List.mem_singleton.mp hLast, Function.update_self, Function.update_self]
    · intro y hy
      rw [hAppended.value]
      rcases List.mem_append.mp hy with hDoneY | hLast
      · rw [hOld y hDoneY, Function.update_of_ne (hFresh y hDoneY),
          hResized.value _ (List.mem_map_of_mem hDoneY), hCopy.value y hDoneY]
      · rw [List.mem_singleton.mp hLast, Function.update_self, Function.update_self]
    · intro hr
      rw [hAppended.tableSize, (hStays (hLength hr)).1, hCopy.tableSize hr]
    · exact fun _ => hTable
    · intro i hi
      obtain ⟨scratchKey, scratchValue, hIter, hScratch⟩ := hCopy.registered i hi
      have hiNow : i ∈ t'.iterList := by
        rw [hCopy.same]
        exact hi
      refine ⟨if (t.iterators i).nextKeyCookie = some x then some e else scratchKey,
        if (t.iterators i).nextValueCookie = some x then some e else scratchValue, ?_, fun hr => ?_⟩
      · show t'.onIterList (redirect x e) i = _
        rw [onIterList, if_pos hiNow, hIter]
        rfl
      · obtain ⟨hKey, hValue⟩ := hScratch hr
        -- no clone has got another place
        have hSame : ∀ cookie, scratchOf (clone₁ ∘ clone) done cookie = scratchOf clone done cookie := by
          rintro (_ | c)
          · rfl
          · by_cases hc : c ∈ done
            · have hClone := (hStays (hLength hr)).2 _ (List.mem_map_of_mem hc)
              simp [scratchOf, Option.filter_some, hc, hClone]
            · simp [scratchOf, Option.filter_some, hc]
        rw [scratchOf_snoc hx, scratchOf_snoc hx, hSame, hSame, ← hKey, ← hValue]
        exact ⟨rfl, rfl⟩
    · intro i hi
      have hiNow : i ∉ t'.iterList := by
        rw [hCopy.same]
        exact hi
      show t'.onIterList (redirect x e) i = _
      rw [onIterList, if_neg hiNow, hCopy.others i hi]

/-- The loop copies all entries that are left, or there is no memory for the copy. -/
theorem Copying.rehash_spec (hPut : PutsNew functor memory fuel deep putAux) (h : t.Valid functor order)
    (hEqual : KeyEquality functor t.keysEqual) (hMode : t.autoSortMode = .disabled)
    (hReady : deep ∨ room) (hRoom : room → order.length ≤ size) (steps : Nat)
    (hCopy : Copying functor t room size done t' b clone) (hOrder : order = done ++ rem)
    (hFuel : rem.length ≤ steps) :
    (∃ t₂ b₂ clone', rehash putAux steps t' rem.head? b = .ok (t₂, b₂, true) ∧
        Copying functor t room size order t₂ b₂ clone') ∨
      ∃ t₂ b₁ b₂ done' clone', rehash putAux steps t' rem.head? b = .ok (t₂, b₂, false) ∧
        Copying functor t room size done' t₂ b₁ clone' ∧ (room → memory.allocates size = false) := by
  induction rem generalizing done t' b clone steps with
  | nil =>
    rw [List.append_nil] at hOrder
    subst hOrder
    refine .inl ⟨t', b, clone, ?_, hCopy⟩
    cases steps <;> rfl
  | cons x rem ih =>
    obtain ⟨steps, rfl⟩ : ∃ n, steps = n + 1 := ⟨steps - 1, by simp at hFuel; omega⟩
    rw [List.head?_cons, rehash]
    rcases hCopy.step hPut h hEqual hMode hReady hRoom hOrder with ⟨b', hFail, hMemory⟩ |
      ⟨b', e, clone', hDone, hCopied⟩
    · rw [hFail, ok_bind]
      exact .inr ⟨t', b, b', done, clone, rfl, hCopy, hMemory⟩
    · obtain ⟨-, -, free, chain, hSlots⟩ := h.slots_of_mem (e := x) (by rw [hOrder]; simp)
      have hLinked := hSlots.iteration.linked
      rw [hOrder] at hLinked
      have hNext : t'.iterNext x = rem.head? := by
        rw [hCopy.same]
        exact hLinked.next_eq
      rw [hDone, ok_bind, hNext]
      exact ih steps hCopied (by rw [hOrder]; simp) (by simpa using hFuel)

end

/-! ### `EnsureSize` -/

theorem Copying.start [Inhabited K] [Inhabited V] {room : Prop} {size : Nat} (hPos : 0 < size)
    (hWord : size < 2 ^ 32) :
    Copying functor t room size [] { t with iterators := t.onIterList clearScratch } (t.biggerTable size)
      id := by
  refine ⟨rfl, ⟨rfl, rfl, rfl⟩, ⟨⟨hPos, hWord⟩, ⟨hPos, hWord⟩, fun _ => ⟨rfl, rfl, rfl, rfl⟩, nofun⟩, nofun,
    nofun, fun _ => rfl, nofun, fun i hi => ⟨none, none, ?_, fun _ => ⟨?_, ?_⟩⟩, fun i hi => ?_⟩
  · show t.onIterList clearScratch i = _
    rw [onIterList, if_pos hi]
    rfl
  · cases (t.iterators i).nextKeyCookie <;> simp [scratchOf]
  · cases (t.iterators i).nextValueCookie <;> simp [scratchOf]
  · show t.onIterList clearScratch i = _
    rw [onIterList, if_neg hi]

/-- An iterator follows its entries, whatever is left in its scratch space. -/
theorem Copying.redirected {room : Prop} {size : Nat} {done : List Nat}
    (hCopy : Copying functor t room size done t' b clone) : t.Redirected t' order id := by
  refine ⟨fun i hi _ => ?_, hCopy.others⟩
  obtain ⟨scratchKey, scratchValue, hIter, -⟩ := hCopy.registered i hi
  rw [hIter]
  exact ⟨rfl, rfl, (congrFun Option.map_id _).symm, (congrFun Option.map_id _).symm⟩

theorem Valid.count_eq (h : t.Valid functor order) : t.count = order.length := by
  by_cases hTable : t.hasTable = true
  · obtain ⟨-, free, chain, hSlots⟩ := h.allocated hTable
    exact hSlots.count
  · obtain ⟨rfl, hCount, -⟩ := h.unallocated (by simpa using hTable)
    exact hCount

theorem Valid.count_lt (h : t.Valid functor order) : t.count < 2 ^ 30 := by
  by_cases hTable : t.hasTable = true
  · obtain ⟨hBounded, free, chain, hSlots⟩ := h.allocated hTable
    have hLength := hSlots.length_eq
    rw [hSlots.count]
    omega
  · obtain ⟨-, hCount, -⟩ := h.unallocated (by simpa using hTable)
    omega

theorem Valid.iterationList (h : t.Valid functor order) : t.IterationList order := by
  by_cases hTable : t.hasTable = true
  · obtain ⟨-, free, chain, hSlots⟩ := h.allocated hTable
    exact hSlots.iteration
  · obtain ⟨rfl, -, hHead, hTail⟩ := h.unallocated (by simpa using hTable)
    exact ⟨trivial, hHead, hTail⟩

/-- The values and the iterators play no part in the index structures. -/
theorem Valid.congr (h : t.Valid functor order)
    (hSame : t' = { t with value := t'.value, iterList := t'.iterList, iterators := t'.iterators }) :
    t'.Valid functor order := by
  rw [hSame]
  refine ⟨h.capacity, h.size, h.unallocated, fun hTable => ?_⟩
  obtain ⟨hBounded, free, chain, hSlots⟩ := h.allocated hTable
  exact ⟨hBounded, free, chain, hSlots.perm, hSlots.count,
    ⟨hSlots.iteration.linked, hSlots.iteration.head, hSlots.iteration.tail⟩,
    ⟨hSlots.freeList.linked, hSlots.freeList.head⟩, hSlots.unused, hSlots.used, hSlots.buckets,
    hSlots.maps, hSlots.distinct⟩

theorem Valid.takeContents (h : t.Valid functor order) (hb : b.Valid functor (order.map clone)) :
    (t.takeContents b).Valid functor (order.map clone) := by
  refine ⟨h.capacity, hb.size, hb.unallocated, fun hTable => ?_⟩
  obtain ⟨hBounded, free, chain, hSlots⟩ := hb.allocated hTable
  exact ⟨hBounded, free, chain, hSlots.perm, hSlots.count,
    ⟨hSlots.iteration.linked, hSlots.iteration.head, hSlots.iteration.tail⟩,
    ⟨hSlots.freeList.linked, hSlots.freeList.head⟩, hSlots.unused, hSlots.used, hSlots.buckets,
    hSlots.maps, hSlots.distinct⟩

theorem scratchOf_all {cookie : Option Nat} (h : ∀ e, cookie = some e → e ∈ order) :
    scratchOf clone order cookie = cookie.map clone := by
  cases cookie with
  | none => rfl
  | some c => simp [scratchOf, Option.filter_some, h c rfl]

section

variable [Inhabited K] [Inhabited V] {memory : Memory} {fuel : Nat} {deep : Prop}
  {putAux : Table K V → UInt32 → K → V → Run (PutResult K V)}

theorem Valid.ensureSizeWith_spec (h : t.Valid functor order) (hEqual : KeyEquality functor t.keysEqual)
    (hMode : t.autoSortMode = .disabled) (hPut : PutsNew functor memory fuel deep putAux)
    (hFuel : 2 ^ 33 ≤ fuel) {requestedSize : Nat} (hWord : requestedSize < 2 ^ 32)
    (hReady : deep ∨ requestedSize < 2 ^ 31) :
    ∃ t' done clone, t.ensureSizeWith putAux fuel requestedSize = .ok (t', done) ∧
      t.Resized functor t' order clone ∧
      (requestedSize < 2 ^ 31 → t.Redirected t' order clone ∧
        (done = true → requestedSize ≤ t'.tableSize) ∧
        (done = false → ∃ size, nextPrime fuel (max t.count requestedSize) = .ok size ∧
          memory.allocates size = false)) := by
  rw [ensureSizeWith]
  split
  · rename_i hEnough
    exact ⟨t, true, id, rfl, Resized.refl h, fun _ => ⟨Redirected.refl t order rfl, fun _ => hEnough, nofun⟩⟩
  · rename_i hSmall
    have hCount := h.count_eq
    have hBounded := h.count_lt
    obtain ⟨size, hPrime, hPos, hSize, hGe⟩ := nextPrime_ok
      (max t.count requestedSize) (by omega) hFuel
    have hRoom : requestedSize < 2 ^ 31 → order.length ≤ size := by
      intro hr
      have hMax := hGe (by omega)
      omega
    have hStart : Copying functor t (requestedSize < 2 ^ 31) size []
        { t with iterators := t.onIterList clearScratch } (t.biggerTable size) id :=
      Copying.start hPos hSize
    have hRun := hStart.rehash_spec hPut h hEqual hMode hReady hRoom fuel rfl
      (by omega)
    rw [← h.iterationList.head] at hRun
    simp only [hPrime, ok_bind]
    rcases hRun with ⟨t₂, b₂, clone, hLoop, hCopy⟩ | ⟨t₂, b₁, b₂, done, clone, hLoop, hCopy, hMemory⟩
    · refine ⟨{ t₂.takeContents b₂ with iterators := t₂.onIterList useScratch }, true, clone, ?_, ?_,
        fun hr => ⟨⟨fun i hi hStands => ?_, fun i hi => ?_⟩, fun _ => ?_, nofun⟩⟩
      · show (rehash putAux fuel _ t.iterHead (t.biggerTable size) >>= _) = _
        rw [hLoop]
        rfl
      · refine ⟨⟨by rw [hCopy.same]; rfl, hCopy.functions.1, hCopy.functions.2.1, hCopy.functions.2.2⟩, ?_,
          hCopy.key, hCopy.value, by rw [hCopy.same]; rfl⟩
        have hValid₂ : t₂.Valid functor order := by
          rw [hCopy.same]
          exact h.congr rfl
        exact (hValid₂.takeContents hCopy.valid).congr rfl
      · have hi₂ : i ∈ t₂.iterList := by
          rw [hCopy.same]
          exact hi
        obtain ⟨scratchKey, scratchValue, hIter, hScratch⟩ := hCopy.registered i hi
        obtain ⟨hKey, hValue⟩ := hScratch hr
        show (t.iterators i).Follows clone (t₂.onIterList useScratch i)
        rw [onIterList, if_pos hi₂, hIter, hKey, hValue, scratchOf_all hStands.key,
          scratchOf_all hStands.value]
        exact ⟨rfl, rfl, rfl, rfl⟩
      · have hi₂ : i ∉ t₂.iterList := by
          rw [hCopy.same]
          exact hi
        show t₂.onIterList useScratch i = _
        rw [onIterList, if_neg hi₂, hCopy.others i hi]
      · show requestedSize ≤ b₂.tableSize
        rw [hCopy.tableSize hr]
        have hMax := hGe (by omega)
        omega
    · refine ⟨t₂, false, id, ?_, ?_, fun hr => ⟨hCopy.redirected, nofun, fun _ => ⟨size, rfl, hMemory hr⟩⟩⟩
      · show (rehash putAux fuel _ t.iterHead (t.biggerTable size) >>= _) = _
        rw [hLoop]
        rfl
      · rw [hCopy.same]
        exact ⟨⟨rfl, rfl, rfl, rfl⟩, by rw [List.map_id]; exact h.congr rfl, fun _ _ => rfl,
          fun _ _ => rfl, rfl⟩

end

end Table

end BeShare.Muscle.Hashtable
