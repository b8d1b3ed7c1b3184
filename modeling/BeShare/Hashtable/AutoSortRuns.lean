import BeShare.Hashtable.AutoSort

/-! A table that auto-sorts stays sorted when it grows, when values are replaced and when items are
removed. -/

namespace BeShare.Muscle.Hashtable.Table

open BeShare.Lib

variable {K V : Type} [BEq K] {functor : K → UInt32} {t t' b : Table K V} {order done rem : List Nat}
  {clone : Nat → Nat} {func : K × V → K × V → Int} {mode : AutoSortMode} {key : K} {value : V}

/-! ### Growth -/

/-- `putAux` does the same with auto-sorting as without it when the new item is the largest. It may need
a bigger table only if `deep` holds. -/
def PutsLargest (functor : K → UInt32) (func : K × V → K × V → Int) (mode : AutoSortMode) (deep : Prop)
    (putAux : Table K V → UInt32 → K → V → Run (PutResult K V)) : Prop :=
  ∀ t order key value, t.Valid functor order → KeyEquality functor t.keysEqual →
    t.autoSortMode = .disabled → (∀ e ∈ order, t.keysEqual (t.key e) key = false) →
    (t.withMode mode).sortsBy = some func → InOrder func (t.items order) →
    (∀ e ∈ order, ¬func (key, value) (t.item e) < 0) → (deep ∨ order.length < t.tableSize) →
    putAux (t.withMode mode) (computeHash functor key) key value =
      inMode mode (putAux t (computeHash functor key) key value)

section

variable {memory : Memory} {fuel size : Nat} {deep room : Prop}
  {putAux : Table K V → UInt32 → K → V → Run (PutResult K V)}

omit [BEq K] in
/-- The items that are copied already. -/
theorem items_done (hKey : ∀ e ∈ done, b.key (clone e) = t.key e)
    (hValue : ∀ e ∈ done, b.value (clone e) = t.value e) :
    b.items (done.map clone) = t.items done := by
  rw [items, items, List.map_map]
  exact List.map_congr_left fun e he => by rw [Function.comp_apply, hKey e he, hValue e he]

/-- The copy of a sorted table does not depend on the mode. -/
theorem Copying.rehash_inMode (hLargest : PutsLargest functor func mode deep putAux)
    (hPut : PutsNew functor memory fuel deep putAux) (h : t.Valid functor order)
    (hEqual : KeyEquality functor t.keysEqual) (hMode : t.autoSortMode = .disabled)
    (hReady : deep ∨ room) (hRoom : room → order.length ≤ size) (steps : Nat)
    (hSorts : (t.withMode mode).sortsBy = some func) (hFunc : Comparison func)
    (hSorted : InOrder func (t.items order)) (hCopy : Copying functor t room size done t' b clone)
    (hOrder : order = done ++ rem) (hFuel : rem.length ≤ steps) :
    rehash putAux steps (t'.withMode mode) rem.head? (b.withMode mode) =
      (rehash putAux steps t' rem.head? b).map fun r =>
        (r.1.withMode mode, r.2.1.withMode mode, r.2.2) := by
  induction rem generalizing done t' b clone steps with
  | nil => cases steps <;> rfl
  | cons x rem ih =>
    obtain ⟨steps, rfl⟩ : ∃ n, steps = n + 1 := ⟨steps - 1, by simp at hFuel; omega⟩
    obtain ⟨-, hKeys, hNew, hLength, hHash⟩ := hCopy.next h hRoom hOrder
    have hItems := items_done hCopy.key hCopy.value
    have hParts := hSorted
    rw [hOrder, items_append, items_cons, InOrder, List.pairwise_append] at hParts
    have hKey : t'.key x = t.key x := by rw [hCopy.same]
    have hValue : t'.value x = t.value x := by rw [hCopy.same]
    have hSortsB : (b.withMode mode).sortsBy = some func := by
      rw [← hSorts, sortsBy, sortsBy]
      simp only [withMode, hCopy.functions.1, hCopy.functions.2.1]
    have hAll : ∀ e ∈ done.map clone, ¬func (t.key x, t.value x) (b.item e) < 0 := by
      intro e he
      obtain ⟨y, hy, rfl⟩ := List.mem_map.mp he
      rw [hFunc.not_lt_iff, item, hCopy.key y hy, hCopy.value y hy]
      exact hParts.2.2 _ (List.mem_map_of_mem hy) _ (List.mem_cons_self ..)
    have hSame := hLargest b _ (t.key x) (t.value x) hCopy.valid (hKeys ▸ hEqual)
      (hCopy.functions.2.2.trans hMode) hNew hSortsB (hItems ▸ hParts.1) hAll (hReady.imp id hLength)
    rw [List.head?_cons, rehash, rehash]
    show (putAux (b.withMode mode) (t'.hash x) (t'.key x) (t'.value x) >>= _) = _
    rw [hHash, hKey, hValue, hSame]
    rcases hCopy.step hPut h hEqual hMode hReady hRoom hOrder with ⟨b', hFail, -⟩ |
      ⟨b', e, clone', hDone, hCopied⟩
    · rw [hHash, hKey, hValue] at hFail
      rw [hFail]
      rfl
    · obtain ⟨-, -, free, chain, hSlots⟩ := h.slots_of_mem (e := x) (by rw [hOrder]; simp)
      have hLinked := hSlots.iteration.linked
      rw [hOrder] at hLinked
      have hNext : t'.iterNext x = rem.head? := by
        rw [hCopy.same]
        exact hLinked.next_eq
      rw [hHash, hKey, hValue] at hDone
      rw [hDone, ok_bind]
      have hRest := ih steps hCopied (by rw [hOrder]; simp) (by simpa using hFuel)
      rw [← hNext] at hRest
      exact hRest

/-- A sorted table grows as it does without auto-sorting. -/
theorem Valid.ensureSizeWith_inMode [Inhabited K] [Inhabited V]
    (hLargest : PutsLargest functor func mode deep putAux)
    (hPut : PutsNew functor memory fuel deep putAux) (h : t.Valid functor order)
    (hEqual : KeyEquality functor t.keysEqual) (hMode : t.autoSortMode = .disabled)
    (hSorts : (t.withMode mode).sortsBy = some func) (hFunc : Comparison func)
    (hSorted : InOrder func (t.items order)) (hFuel : 2 ^ 33 ≤ fuel) {requestedSize : Nat}
    (hWord : requestedSize < 2 ^ 32) (hReady : deep ∨ requestedSize < 2 ^ 31) :
    (t.withMode mode).ensureSizeWith putAux fuel requestedSize =
      inMode mode (t.ensureSizeWith putAux fuel requestedSize) := by
  rw [ensureSizeWith, ensureSizeWith]
  by_cases hEnough : t.tableSize ≥ requestedSize
  · rw [if_pos hEnough, if_pos (by exact hEnough)]
    rfl
  · rw [if_neg hEnough, if_neg (by exact hEnough)]
    have hCount := h.count_eq
    have hBounded := h.count_lt
    obtain ⟨size, hPrime, hPos, hSize, hGe⟩ := nextPrime_ok
      (max t.count requestedSize) (by omega) hFuel
    have hRoom : requestedSize < 2 ^ 31 → order.length ≤ size := by
      intro hr
      have hMax := hGe (by omega)
      omega
    have hStart : Copying functor t (requestedSize < 2 ^ 31) size []
        { t with iterators := t.onIterList clearScratch } (t.biggerTable size) id :=
      Copying.start hPos hSize
    have hRun := hStart.rehash_inMode hLargest hPut h hEqual hMode hReady hRoom fuel hSorts hFunc hSorted
      rfl (by omega)
    rw [← h.iterationList.head] at hRun
    have hPrimeMode : nextPrime fuel (max (t.withMode mode).count requestedSize) = .ok size := hPrime
    simp only [hPrime, hPrimeMode, ok_bind]
    show (rehash putAux fuel (Table.withMode { t with iterators := t.onIterList clearScratch } mode)
      t.iterHead ((t.biggerTable size).withMode mode) >>= _) =
        inMode mode (rehash putAux fuel { t with iterators := t.onIterList clearScratch } t.iterHead
          (t.biggerTable size) >>= _)
    rw [hRun]
    cases rehash putAux fuel { t with iterators := t.onIterList clearScratch } t.iterHead
        (t.biggerTable size) with
    | error stop => rfl
    | ok r =>
      obtain ⟨t₂, b₂, done⟩ := r
      cases done <;> rfl

end

section

variable [Inhabited K] [Inhabited V] {memory : Memory} {fuel depth : Nat}

/-- `PutAux` with a new key, when the entry array is full. -/
theorem putAux_full (h : t.Valid functor order) (hTable : t.hasTable = true)
    (hFull : order.length = t.tableSize) (hEqual : KeyEquality functor t.keysEqual)
    (hNew : ∀ e ∈ order, t.keysEqual (t.key e) key = false) :
    putAux functor memory fuel (depth + 1) t (computeHash functor key) key value = do
      let (t, done) ← t.ensureSizeWith (putAux functor memory fuel depth) fuel (t.tableSize * 2)
      if done then putAux functor memory fuel depth t (computeHash functor key) key value
      else return (t, none, none) := by
  have hMissing : (order.find? fun e => t.keysEqual (t.key e) key) = none := by
    rw [List.find?_eq_none]
    intro e he
    rw [hNew e he]
    exact Bool.false_ne_true
  have hBounded := (h.allocated hTable).1
  have hDouble : t.tableSize * 2 % 2 ^ 32 = t.tableSize * 2 := Nat.mod_eq_of_lt (by omega)
  rw [putAux, if_neg (by simp [hTable])]
  simp only [hTable, if_true, h.getEntry_eq hTable hEqual, hMissing, h.count_eq.trans hFull, hDouble]

omit [Inhabited K] [Inhabited V] in
theorem Valid.full (h : t.Valid functor order) (hRoom : ¬order.length < t.tableSize) :
    t.hasTable = true ∧ order.length = t.tableSize := by
  have hTable : t.hasTable = true := by
    by_contra hNone
    have hPos := h.size.1
    obtain ⟨rfl, -⟩ := h.unallocated (by simpa using hNone)
    exact hRoom hPos
  obtain ⟨-, free, chain, hSlots⟩ := h.allocated hTable
  have hLength := hSlots.length_eq
  exact ⟨hTable, by omega⟩

/-- The table has room for the new item after it has grown. -/
theorem Valid.grows (h : t.Valid functor order) (memory : Memory) (depth : Nat) (hTable : t.hasTable = true)
    (hFull : order.length = t.tableSize) (hEqual : KeyEquality functor t.keysEqual)
    (hMode : t.autoSortMode = .disabled) (hFuel : 2 ^ 33 ≤ fuel)
    (hNew : ∀ e ∈ order, t.keysEqual (t.key e) key = false) :
    ∃ t₁ done clone, t.ensureSizeWith (putAux functor memory fuel (depth + 1)) fuel (t.tableSize * 2) =
        .ok (t₁, done) ∧ t.Resized functor t₁ order clone ∧
      (done = true → t₁.hasTable = true ∧ (order.map clone).length < t₁.tableSize) ∧
      (done = false → Refused memory fuel t order) ∧ ∀ e ∈ order.map clone, t₁.keysEqual (t₁.key e) key = false := by
  have hBounded := (h.allocated hTable).1
  obtain ⟨t₁, done, clone, hRun, hResized, hWithin⟩ := h.ensureSizeWith_spec hEqual hMode
    (putsNew memory depth hFuel) hFuel (by omega : t.tableSize * 2 < 2 ^ 32) (.inr (by omega))
  obtain ⟨-, hBigger, hRefused⟩ := hWithin (by omega)
  have hPos := h.size.1
  have hKeys := hResized.toKeeps.keysEqual
  refine ⟨t₁, done, clone, hRun, hResized, fun hDone => ⟨?_, ?_⟩, fun hDone => ?_, fun e he => ?_⟩
  · obtain ⟨x, hx⟩ := List.exists_mem_of_length_pos (l := order.map clone) (by
      rw [List.length_map]
      omega)
    exact (hResized.valid.slots_of_mem hx).1
  · have hSize := hBigger hDone
    rw [List.length_map]
    omega
  · obtain ⟨size, hPrime, hMemory⟩ := hRefused hDone
    rw [h.count_eq, hFull, Nat.max_eq_right (by omega)] at hPrime
    exact .inr ⟨hFull, size, hPrime, hMemory⟩
  · obtain ⟨y, hy, rfl⟩ := List.mem_map.mp he
    rw [hKeys, hResized.key y hy]
    exact hNew y hy

/-- There is room for the largest item. -/
theorem putAux_inMode_room (h : t.Valid functor order) (hRoom : order.length < t.tableSize)
    (hEqual : KeyEquality functor t.keysEqual) (hMode : t.autoSortMode = .disabled)
    (hNew : ∀ e ∈ order, t.keysEqual (t.key e) key = false)
    (hSorts : (t.withMode mode).sortsBy = some func)
    (hLargest : ∀ e ∈ order, ¬func (key, value) (t.item e) < 0) :
    putAux functor memory fuel (depth + 1) (t.withMode mode) (computeHash functor key) key value =
      inMode mode (putAux functor memory fuel (depth + 1) t (computeHash functor key) key value) := by
  by_cases hTable : t.hasTable = true
  · rw [putAux_room h hTable hRoom hEqual hNew,
      putAux_room (h.withMode mode) hTable hRoom hEqual hNew]
    exact h.putNew_largest hTable hRoom hEqual hNew hMode hSorts hLargest
  · rw [Bool.not_eq_true] at hTable
    cases hMemory : memory.allocates t.tableSize with
    | false =>
      rw [putAux, putAux, if_pos ⟨hTable, hMemory⟩, if_pos ⟨hTable, hMemory⟩]
      rfl
    | true =>
      obtain ⟨rfl, -⟩ := h.unallocated hTable
      have hCreated := h.createEntriesArray hTable (memory.bounded _ hMemory)
      rw [putAux_unallocated hTable hMemory, putAux_unallocated (t := t.withMode mode) hTable hMemory,
        putAux_room hCreated rfl hRoom hEqual (List.forall_mem_nil _)]
      have hRun : putAux functor memory fuel (depth + 1) (t.createEntriesArray.withMode mode)
          (computeHash functor key) key value = _ :=
        putAux_room (hCreated.withMode mode) rfl hRoom hEqual (List.forall_mem_nil _)
      rw [hCreated.putNew_largest rfl hRoom hEqual (List.forall_mem_nil _) hMode hSorts
        (List.forall_mem_nil _)] at hRun
      exact hRun

theorem putsLargest (memory : Memory) (depth : Nat) (hFuel : 2 ^ 33 ≤ fuel) (hFunc : Comparison func)
    (mode : AutoSortMode) :
    PutsLargest functor func mode (1 ≤ depth) (putAux (V := V) functor memory fuel (depth + 1)) := by
  induction depth with
  | zero =>
    intro t order key value h hEqual hMode hNew hSorts _ hLargest hReady
    have hRoom : order.length < t.tableSize := by omega
    exact putAux_inMode_room h hRoom hEqual hMode hNew hSorts hLargest
  | succ depth ih =>
    intro t order key value h hEqual hMode hNew hSorts hSorted hLargest _
    by_cases hRoom : order.length < t.tableSize
    · exact putAux_inMode_room h hRoom hEqual hMode hNew hSorts hLargest
    obtain ⟨hTable, hFull⟩ := h.full hRoom
    have hBounded := (h.allocated hTable).1
    obtain ⟨t₁, done, clone, hRun, hResized, hGrown, -, hNew₁⟩ := h.grows memory depth
      hTable hFull hEqual hMode hFuel hNew
    have hGrow := h.ensureSizeWith_inMode ih (putsNew memory depth hFuel) hEqual hMode hSorts hFunc hSorted
      hFuel (by omega : t.tableSize * 2 < 2 ^ 32) (.inr (by omega))
    rw [putAux_full h hTable hFull hEqual hNew,
      putAux_full (h.withMode mode) hTable hFull hEqual hNew]
    show ((t.withMode mode).ensureSizeWith (putAux functor memory fuel (depth + 1)) fuel (t.tableSize * 2)
      >>= _) = _
    rw [hGrow, hRun]
    cases done with
    | false => rfl
    | true =>
      have hItems : ∀ e ∈ order.map clone, ¬func (key, value) (t₁.item e) < 0 := by
        intro e he
        obtain ⟨y, hy, rfl⟩ := List.mem_map.mp he
        rw [item, hResized.key y hy, hResized.value y hy]
        exact hLargest y hy
      have hSorts₁ : (t₁.withMode mode).sortsBy = some func := by
        rw [← hSorts, sortsBy, sortsBy]
        simp only [withMode, hResized.userKeyCompareFunc, hResized.userValueCompareFunc]
      exact ih t₁ _ key value hResized.valid (hResized.toKeeps.keysEqual ▸ hEqual)
        (hResized.autoSortMode.trans hMode) hNew₁ hSorts₁ (hResized.items_eq ▸ hSorted) hItems
        (.inr (hGrown rfl).2)

end

/-! ### A value that is replaced -/

/-- The loop goes on along `l` as far as `goesOn` says. -/
theorem sortedFrom_spec (step : Nat → Option Nat) (goesOn : Nat → Bool) (fuel : Nat) {place : Nat}
    {l : List Nat} (hForward : Forward step (place :: l) none) (hFuel : l.length ≤ fuel) :
    ∃ c d, l = c ++ d ∧ (place :: c).getLast? = some (sortedFrom step goesOn fuel place) ∧
      (∀ x ∈ c, goesOn x = true) ∧ ∀ x, d.head? = some x → goesOn x = false := by
  induction l generalizing place fuel with
  | nil =>
    have hStep : step place = none := hForward.1
    refine ⟨[], [], rfl, ?_, List.forall_mem_nil _,
      fun _ hx => absurd hx.symm (Option.some_ne_none _)⟩
    cases fuel with
    | zero => rfl
    | succ fuel => rw [sortedFrom, hStep]; rfl
  | cons next l ih =>
    obtain ⟨fuel, rfl⟩ : ∃ n, fuel = n + 1 := ⟨fuel - 1, by simp at hFuel; omega⟩
    have hStep : step place = some next := hForward.1
    simp only [sortedFrom, hStep]
    cases hNext : goesOn next with
    | false =>
      refine ⟨[], next :: l, rfl, rfl, List.forall_mem_nil _, fun x hx => ?_⟩
      cases hx
      exact hNext
    | true =>
      obtain ⟨c, d, rfl, hLast, hc, hd⟩ := ih fuel hForward.2 (by simpa using hFuel)
      refine ⟨next :: c, d, rfl, ?_, fun x hx => ?_, hd⟩
      · rw [if_pos rfl, List.getLast?_cons_cons]
        exact hLast
      · rcases List.mem_cons.mp hx with rfl | hc'
        · exact hNext
        · exact hc x hc'

section

variable {a b l m r : List Nat} {e f : Nat}

/-- A lookup of the key of an entry finds the entry. -/
theorem Valid.lookup_key (h : t.Valid functor order) (hEqual : KeyEquality functor t.keysEqual)
    (he : e ∈ order) : t.lookup functor (t.key e) = some e := by
  obtain ⟨-, -, free, chain, hSlots⟩ := h.slots_of_mem he
  rw [h.lookup_eq hEqual]
  exact find?_unique he (hEqual.refl _) fun x hx hMatch => hSlots.distinct x hx e he hMatch

/-- `MoveToBefore` with the key of an entry further in front. -/
theorem Valid.moveToBefore_entry (h : t.Valid functor (l ++ f :: m ++ e :: r))
    (hEqual : KeyEquality functor t.keysEqual) :
    (t.moveToBefore functor (t.key e) (t.key f)).1 =
        (t.removeIterationEntry e).insertIterationEntry e l.getLast? ∧
      ((t.removeIterationEntry e).insertIterationEntry e l.getLast?).Valid functor
        (l ++ e :: (f :: m ++ r)) := by
  obtain ⟨-, -, free, chain, hSlots⟩ := h.slots_of_mem (e := e) (by simp)
  have hNodup := hSlots.order_nodup
  have hNotMem := (List.nodup_cons.mp (List.nodup_middle.mp hNodup)).1
  have hfe : e ≠ f := by
    rintro rfl
    exact hNotMem (by simp)
  have hNext : t.iterNext e ≠ some f := by
    rw [hSlots.iteration.linked.next_eq]
    intro hHead
    have hMem := List.mem_of_mem_head? hHead
    rw [List.nodup_append] at hNodup
    exact hNodup.2.2 f (by simp) f (List.mem_cons_of_mem _ hMem) rfl
  have hRemoved := hSlots.iteration.remove hNodup
  have hRest : l ++ f :: m ++ r = l ++ (f :: m ++ r) := by simp
  rw [hRest] at hRemoved
  have hPrev : (t.removeIterationEntry e).iterPrev f = l.getLast? := hRemoved.linked.prev_eq
  refine ⟨?_, h.relocate hRest⟩
  simp only [moveToBefore, h.lookup_key hEqual (e := e) (by simp),
    h.lookup_key hEqual (e := f) (by simp), if_neg hfe, if_pos hNext, hPrev]

/-- `MoveToBehind` with the key of an entry further back. -/
theorem Valid.moveToBehind_entry (h : t.Valid functor (a ++ e :: (l ++ f :: m)))
    (hEqual : KeyEquality functor t.keysEqual) :
    (t.moveToBehind functor (t.key e) (t.key f)).1 =
        (t.removeIterationEntry e).insertIterationEntry e (some f) ∧
      ((t.removeIterationEntry e).insertIterationEntry e (some f)).Valid functor
        (a ++ l ++ [f] ++ e :: m) := by
  obtain ⟨-, -, free, chain, hSlots⟩ := h.slots_of_mem (e := e) (by simp)
  have hNodup := hSlots.order_nodup
  have hNotMem := (List.nodup_cons.mp (List.nodup_middle.mp hNodup)).1
  have hfe : f ≠ e := by
    rintro rfl
    exact hNotMem (by simp)
  have hPrev : t.iterPrev e ≠ some f := by
    rw [hSlots.iteration.linked.prev_eq]
    intro hLast
    have hMem := List.mem_of_getLast? hLast
    rw [List.nodup_append] at hNodup
    exact hNodup.2.2 f hMem f (by simp) rfl
  have hMoved := h.relocate (c := a ++ l ++ [f]) (d := m) (by simp)
  rw [List.getLast?_append_cons, List.getLast?_singleton] at hMoved
  refine ⟨?_, hMoved⟩
  simp only [moveToBehind, h.lookup_key hEqual (e := e) (by simp),
    h.lookup_key hEqual (e := f) (by simp), if_neg hfe, if_pos hPrev]

omit [BEq K] in
/-- An entry fits to its neighbours, which are entries of `l` and of `r`. -/
theorem inOrder_insert (hFunc : Comparison func) (hSorted : InOrder func (t.items (l ++ r)))
    (hl : ∀ x, l.getLast? = some x → ¬func (t.item e) (t.item x) < 0)
    (hr : ∀ x, r.head? = some x → func (t.item e) (t.item x) ≤ 0) :
    InOrder func (t.items (l ++ e :: r)) := by
  rw [items_append] at hSorted ⊢
  refine hFunc.pairwise_insert (fun y hy => ?_) (fun y hy => ?_) hSorted
  · rw [items_eq_map, List.getLast?_map, Option.map_eq_some_iff] at hy
    obtain ⟨x, hx, rfl⟩ := hy
    exact hFunc.not_lt_iff.mp (hl x hx)
  · rw [List.head?_map, Option.map_eq_some_iff] at hy
    obtain ⟨x, hx, rfl⟩ := hy
    exact hr x hx

/-- What a move of an entry with a new value leaves behind. -/
structure Repositioned (functor : K → UInt32) (func : K × V → K × V → Int) (t t' : Table K V)
    (order order' : List Nat) : Prop extends Keeps t t' where
  valid : t'.Valid functor order'
  perm : order'.Perm order
  key : t'.key = t.key
  value : t'.value = t.value
  sorted : InOrder func (t.items order')

variable {cmp : V → V → Int}

/-- The value belongs further in front. -/
theorem Valid.reposition_before (h : t.Valid functor (a ++ e :: b)) (hEqual : KeyEquality functor t.keysEqual)
    (hFunc : Comparison fun i j : K × V => cmp i.2 j.2)
    (hSorted : InOrder (fun i j => cmp i.2 j.2) (t.items (a ++ b))) {prev : Nat}
    (hPrev : a.getLast? = some prev) (hBefore : cmp (t.value e) (t.value prev) < 0) :
    ∃ order', Repositioned functor (fun i j => cmp i.2 j.2) t
      (t.moveToBefore functor (t.key e) (t.key (sortedFrom t.iterPrev
        (fun other => decide (cmp (t.value e) (t.value other) < 0)) t.count prev))).1
      (a ++ e :: b) order' := by
  obtain ⟨a, rfl⟩ := List.getLast?_eq_some_iff.mp hPrev
  have hBack : Forward t.iterPrev (prev :: a.reverse) none := by
    have hReverse := Forward.of_segment_reverse (Segment.append.mp h.iterationList.linked).1
    rwa [List.reverse_append, List.reverse_singleton, List.singleton_append] at hReverse
  have hCount := h.count_eq
  obtain ⟨c, d, hSplit, hLast, hc, hd⟩ := sortedFrom_spec t.iterPrev
    (fun other => decide (cmp (t.value e) (t.value other) < 0)) t.count hBack (by simp at hCount ⊢; omega)
  generalize sortedFrom t.iterPrev _ t.count prev = f at hLast ⊢
  obtain ⟨m, hm⟩ := List.getLast?_eq_some_iff.mp hLast
  -- the entries from `f` on are larger than `e`
  have hA : a ++ [prev] = d.reverse ++ f :: m.reverse := by
    have hReversed : (a ++ [prev]).reverse = (d.reverse ++ f :: m.reverse).reverse := by
      calc (a ++ [prev]).reverse = prev :: a.reverse := by simp
        _ = (prev :: c) ++ d := by rw [hSplit, List.cons_append]
        _ = (d.reverse ++ f :: m.reverse).reverse := by rw [hm]; simp
    exact List.reverse_injective hReversed
  have hHere : cmp (t.value e) (t.value f) < 0 := by
    have hMem : f ∈ prev :: c := by rw [hm]; simp
    rcases List.mem_cons.mp hMem with rfl | hMem
    · exact hBefore
    · exact of_decide_eq_true (hc f hMem)
  rw [hA] at h hSorted ⊢
  obtain ⟨hMove, hValid⟩ := h.moveToBefore_entry hEqual
  rw [hMove]
  refine ⟨_, ⟨rfl, rfl, rfl, rfl⟩, hValid, ?_, rfl, rfl, ?_⟩
  · calc (d.reverse ++ e :: (f :: m.reverse ++ b)).Perm (e :: (d.reverse ++ (f :: m.reverse ++ b))) :=
          List.perm_middle
      _ = e :: (d.reverse ++ f :: m.reverse ++ b) := by simp
      (e :: (d.reverse ++ f :: m.reverse ++ b)).Perm (d.reverse ++ f :: m.reverse ++ e :: b) :=
          List.perm_middle.symm
  · rw [List.append_assoc] at hSorted
    refine inOrder_insert hFunc hSorted (fun x hx => ?_) fun x hx => ?_
    · rw [List.getLast?_reverse] at hx
      exact of_decide_eq_false (hd x hx)
    · cases hx
      exact Int.le_of_lt hHere

/-- The value belongs further back. -/
theorem Valid.reposition_behind (h : t.Valid functor (a ++ e :: b)) (hEqual : KeyEquality functor t.keysEqual)
    (hFunc : Comparison fun i j : K × V => cmp i.2 j.2)
    (hSorted : InOrder (fun i j => cmp i.2 j.2) (t.items (a ++ b))) {next : Nat}
    (hNext : b.head? = some next) (hBehind : cmp (t.value e) (t.value next) > 0) :
    ∃ order', Repositioned functor (fun i j => cmp i.2 j.2) t
      (t.moveToBehind functor (t.key e) (t.key (sortedFrom t.iterNext
        (fun other => decide (cmp (t.value e) (t.value other) > 0)) t.count next))).1
      (a ++ e :: b) order' := by
  obtain ⟨b, rfl⟩ := List.head?_eq_some_iff.mp hNext
  have hForward : Forward t.iterNext (next :: b) none :=
    Forward.of_segment (Segment.append.mp h.iterationList.linked).2.2.2
  have hCount := h.count_eq
  obtain ⟨c, d, rfl, hLast, hc, hd⟩ := sortedFrom_spec t.iterNext
    (fun other => decide (cmp (t.value e) (t.value other) > 0)) t.count hForward (by simp at hCount; omega)
  generalize sortedFrom t.iterNext _ t.count next = f at hLast ⊢
  obtain ⟨m, hm⟩ := List.getLast?_eq_some_iff.mp hLast
  have hB : next :: (c ++ d) = m ++ f :: d := by
    rw [← List.cons_append, hm]
    simp
  have hHere : cmp (t.value e) (t.value f) > 0 := by
    have hMem : f ∈ next :: c := by rw [hm]; simp
    rcases List.mem_cons.mp hMem with rfl | hMem
    · exact hBehind
    · exact of_decide_eq_true (hc f hMem)
  rw [hB] at h hSorted ⊢
  obtain ⟨hMove, hValid⟩ := h.moveToBehind_entry hEqual
  rw [hMove]
  refine ⟨_, ⟨rfl, rfl, rfl, rfl⟩, hValid, ?_, rfl, rfl, ?_⟩
  · calc (a ++ m ++ [f] ++ e :: d).Perm (e :: (a ++ m ++ [f] ++ d)) := List.perm_middle
      _ = e :: (a ++ (m ++ f :: d)) := by simp
      (e :: (a ++ (m ++ f :: d))).Perm (a ++ e :: (m ++ f :: d)) := List.perm_middle.symm
  · have hRest : a ++ (m ++ f :: d) = a ++ m ++ [f] ++ d := by simp
    rw [hRest] at hSorted
    refine inOrder_insert hFunc hSorted (fun x hx => ?_) fun x hx => ?_
    · rw [List.getLast?_append_cons, List.getLast?_singleton] at hx
      cases hx
      exact Int.not_lt.mpr (Int.le_of_lt hHere)
    · exact Int.not_lt.mp (of_decide_eq_false (hd x hx))

/-- The entry `e` has a new value, and the others are sorted. -/
theorem Valid.repositionByValue_sorted (h : t.Valid functor (a ++ e :: b))
    (hEqual : KeyEquality functor t.keysEqual) (hSorts : t.sortsBy = some func) (hFunc : Comparison func)
    (hSorted : InOrder func (t.items (a ++ b)))
    (hKeys : t.autoSortMode = .byKey → InOrder func (t.items (a ++ e :: b))) :
    ∃ order', Repositioned functor func t (t.repositionByValue functor e) (a ++ e :: b) order' := by
  rw [sortsBy] at hSorts
  split at hSorts
  · cases hSorts
  · rename_i hMode
    simp only [repositionByValue, hMode]
    exact ⟨_, ⟨rfl, rfl, rfl, rfl⟩, h, List.Perm.refl _, rfl, rfl, hKeys hMode⟩
  · rename_i hMode
    obtain ⟨cmp, hCmp, rfl⟩ := Option.map_eq_some_iff.mp hSorts
    have hPrev : t.iterPrev e = a.getLast? := h.iterationList.linked.prev_eq
    have hNext : t.iterNext e = b.head? := h.iterationList.linked.next_eq
    simp only [repositionByValue, hMode, hCmp]
    cases hBefore : (t.iterPrev e).filter fun other => decide (cmp (t.value e) (t.value other) < 0) with
    | some prev =>
      rw [Option.filter_eq_some_iff, hPrev, decide_eq_true_eq] at hBefore
      exact h.reposition_before hEqual hFunc hSorted hBefore.1 hBefore.2
    | none =>
      cases hBehind : (t.iterNext e).filter fun other => decide (cmp (t.value e) (t.value other) > 0) with
      | some next =>
        rw [Option.filter_eq_some_iff, hNext, decide_eq_true_eq] at hBehind
        exact h.reposition_behind hEqual hFunc hSorted hBehind.1 hBehind.2
      | none =>
        rw [Option.filter_eq_none_iff, hPrev] at hBefore
        rw [Option.filter_eq_none_iff, hNext] at hBehind
        refine ⟨_, ⟨rfl, rfl, rfl, rfl⟩, h, List.Perm.refl _, rfl, rfl, ?_⟩
        refine inOrder_insert hFunc hSorted (fun x hx => ?_) fun x hx => ?_
        · exact fun hLess => hBefore x hx (decide_eq_true hLess)
        · exact Int.not_lt.mp fun hMore => hBehind x hx (decide_eq_true hMore)

end

/-! ### `Put` and `Remove` -/

section

variable [Inhabited K] [Inhabited V] {memory : Memory} {fuel depth : Nat}

/-- What an operation on a sorted table leaves behind: the items of `l`, sorted. -/
structure LeavesSorted (functor : K → UInt32) (func : K × V → K × V → Int) (t t' : Table K V)
    (l : List (K × V)) : Prop extends Keeps t t' where
  holds : ∃ order, t'.Valid functor order ∧ InOrder func (t'.items order) ∧ (t'.items order).Perm l

omit [BEq K] [Inhabited K] [Inhabited V] in
theorem withMode_self (t : Table K V) : (t.withMode .disabled).withMode t.autoSortMode = t := rfl

/-- A new key is put into a sorted table. -/
theorem Valid.putAux_new (h : t.Valid functor order) (memory : Memory) (depth : Nat) (value : V)
    (hEqual : KeyEquality functor t.keysEqual) (hNew : ∀ e ∈ order, t.keysEqual (t.key e) key = false)
    (hSorts : t.sortsBy = some func)
    (hFunc : Comparison func) (hSorted : InOrder func (t.items order)) (hFuel : 2 ^ 33 ≤ fuel) :
    (∃ t' e, putAux functor memory fuel (depth + 2) t (computeHash functor key) key value =
        .ok (t', some e, none) ∧ LeavesSorted functor func t t' (t.items order ++ [(key, value)])) ∨
      ∃ t', putAux functor memory fuel (depth + 2) t (computeHash functor key) key value =
          .ok (t', none, none) ∧ Refused memory fuel t order ∧
        LeavesSorted functor func t t' (t.items order) := by
  by_cases hRoom : order.length < t.tableSize
  · by_cases hTable : t.hasTable = true
    · rw [putAux_room h hTable hRoom hEqual hNew]
      obtain ⟨t', e, order', hRun, hKeeps, hValid, hOrder', hPerm⟩ :=
        h.putNew_sorted hTable hRoom hEqual hNew hSorts hFunc hSorted value
      exact .inl ⟨t', e, hRun, hKeeps, order', hValid, hOrder', hPerm⟩
    · rw [Bool.not_eq_true] at hTable
      cases hMemory : memory.allocates t.tableSize with
      | false =>
        refine .inr ⟨t, ?_, .inl ⟨hTable, hMemory⟩, ⟨rfl, rfl, rfl, rfl⟩, order, h, hSorted, List.Perm.refl _⟩
        rw [putAux, if_pos ⟨hTable, hMemory⟩]
      | true =>
        obtain ⟨rfl, -⟩ := h.unallocated hTable
        have hCreated := h.createEntriesArray hTable (memory.bounded _ hMemory)
        have hNone : ∀ e ∈ [], t.createEntriesArray.keysEqual (t.createEntriesArray.key e) key = false :=
          List.forall_mem_nil _
        rw [putAux_unallocated hTable hMemory, putAux_room hCreated rfl hRoom hEqual hNone]
        obtain ⟨t', e, order', hRun, hKeeps, hValid, hOrder', hPerm⟩ :=
          hCreated.putNew_sorted rfl hRoom hEqual hNone hSorts hFunc hSorted value
        exact .inl ⟨t', e, hRun, ⟨hKeeps.1, hKeeps.2, hKeeps.3, hKeeps.4⟩, order', hValid, hOrder',
          hPerm⟩
  · -- the table grows as it does without auto-sorting, and has room then
    obtain ⟨hTable, hFull⟩ := h.full hRoom
    have hBounded := (h.allocated hTable).1
    have hPlain : (t.withMode .disabled).Valid functor order := h.withMode .disabled
    obtain ⟨t₁, done, clone, hRun, hResized, hGrown, hRefused, hNew₁⟩ :=
      hPlain.grows memory depth hTable hFull hEqual rfl hFuel hNew
    have hGrow := hPlain.ensureSizeWith_inMode (putsLargest memory depth hFuel hFunc t.autoSortMode)
      (putsNew memory depth hFuel) hEqual rfl hSorts hFunc hSorted hFuel
      (by omega : t.tableSize * 2 < 2 ^ 32) (.inr (by omega))
    have hGrow : t.ensureSizeWith (putAux functor memory fuel (depth + 1)) fuel (t.tableSize * 2) =
        inMode t.autoSortMode ((t.withMode .disabled).ensureSizeWith
          (putAux functor memory fuel (depth + 1)) fuel (t.tableSize * 2)) := hGrow
    have hRun : (t.withMode .disabled).ensureSizeWith (putAux functor memory fuel (depth + 1)) fuel
        (t.tableSize * 2) = .ok (t₁, done) := hRun
    have hValid₁ := hResized.valid.withMode t.autoSortMode
    have hKeeps₁ : t.Keeps (t₁.withMode t.autoSortMode) :=
      ⟨hResized.initialCapacity, hResized.userKeyCompareFunc, hResized.userValueCompareFunc, rfl⟩
    have hItems₁ : (t₁.withMode t.autoSortMode).items (order.map clone) = t.items order :=
      hResized.items_eq
    rw [putAux_full h hTable hFull hEqual hNew, hGrow, hRun]
    cases done with
    | false =>
      exact .inr ⟨_, rfl, hRefused rfl, hKeeps₁, _, hValid₁, hItems₁ ▸ hSorted,
        hItems₁ ▸ List.Perm.refl _⟩
    | true =>
      obtain ⟨hTable₁, hRoom₁⟩ := hGrown rfl
      have hSorts₁ : (t₁.withMode t.autoSortMode).sortsBy = some func := by
        rw [← hSorts, sortsBy, sortsBy, hKeeps₁.autoSortMode, hKeeps₁.userKeyCompareFunc,
          hKeeps₁.userValueCompareFunc]
      have hEqual₁ : KeyEquality functor (t₁.withMode t.autoSortMode).keysEqual :=
        hKeeps₁.keysEqual ▸ hEqual
      obtain ⟨t', e, order', hPut, hKeeps, hValid, hOrder', hPerm⟩ :=
        hValid₁.putNew_sorted hTable₁ hRoom₁ hEqual₁ hNew₁ hSorts₁ hFunc (hItems₁ ▸ hSorted) value
      rw [hItems₁] at hPerm
      refine .inl ⟨t', e, ?_, hKeeps₁.trans hKeeps, order', hValid, hOrder', hPerm⟩
      rw [← hPut, ← putAux_room hValid₁ hTable₁ hRoom₁ hEqual₁ hNew₁]
      rfl

/-- The value of a key that is there is replaced in a sorted table. -/
theorem Valid.putAux_old {a b : List Nat} {e : Nat} (h : t.Valid functor order) (memory : Memory)
    (fuel depth : Nat) (value : V) (hEqual : KeyEquality functor t.keysEqual) (hFound : Found functor t order key a e b)
    (hSorts : t.sortsBy = some func) (hFunc : Comparison func) (hSorted : InOrder func (t.items order)) :
    ∃ t', putAux functor memory fuel (depth + 1) t (computeHash functor key) key value =
        .ok (t', some e, some (t.value e)) ∧
      LeavesSorted functor func t t' (t.items a ++ (t.key e, value) :: t.items b) := by
  have hItems := hFound.items_withValue h value
  rw [putAux_replaces h hEqual hFound]
  obtain rfl := hFound.order_eq
  generalize hNow : { t with value := Function.update t.value e value } = t₁ at hItems
  have hKeeps : t.Keeps t₁ := by
    rw [← hNow]
    exact ⟨rfl, rfl, rfl, rfl⟩
  have hKey : t₁.key = t.key := by rw [← hNow]
  have hValid : t₁.Valid functor (a ++ e :: b) := by
    rw [← hNow]
    exact h.congr rfl
  have hSorts₁ : t₁.sortsBy = some func := by
    rw [← hSorts, sortsBy, sortsBy, hKeeps.autoSortMode, hKeeps.userKeyCompareFunc,
      hKeeps.userValueCompareFunc]
  have hRest : InOrder func (t₁.items (a ++ b)) := by
    rw [items_append, items_cons] at hItems
    obtain ⟨hA, hB⟩ := List.append_inj hItems (by simp [items])
    rw [items_append, hA, List.tail_eq_of_cons_eq hB]
    rw [items_append, items_cons] at hSorted
    exact hSorted.sublist ((List.Sublist.refl _).append (List.sublist_cons_self ..))
  have hKeys : t₁.autoSortMode = .byKey → InOrder func (t₁.items (a ++ e :: b)) := by
    intro hMode
    simp only [sortsBy, hMode] at hSorts₁
    obtain ⟨cmp, -, rfl⟩ := Option.map_eq_some_iff.mp hSorts₁
    rw [InOrder, items, List.pairwise_map, hKey]
    rwa [InOrder, items, List.pairwise_map] at hSorted
  obtain ⟨order', hMoved⟩ := hValid.repositionByValue_sorted (hKeeps.keysEqual ▸ hEqual) hSorts₁ hFunc
    hRest hKeys
  have hItems' : (t₁.repositionByValue functor e).items order' = t₁.items order' := by
    rw [items, items, hMoved.key, hMoved.value]
  refine ⟨_, rfl, hKeeps.trans hMoved.toKeeps, order', hMoved.valid, ?_, ?_⟩
  · rw [hItems']
    exact hMoved.sorted
  · rw [hItems', ← hItems]
    exact hMoved.perm.map _

/-- `Put` leaves a sorted table sorted. -/
theorem Valid.put_sorted (h : t.Valid functor order) (hEqual : KeyEquality functor t.keysEqual)
    (hSorts : t.sortsBy = some func) (hFunc : Comparison func) (hSorted : InOrder func (t.items order))
    (hFuel : 2 ^ 33 ≤ fuel) (memory : Memory) (key : K) (value : V) :
    ∃ t' status previous, t.put functor memory fuel key value = .ok (t', status, previous) ∧
      (status = true ∧
          LeavesSorted functor func t t' (Assoc.put t.keysEqual key value (t.items order)).1 ∧
          previous = (Assoc.put t.keysEqual key value (t.items order)).2 ∨
        status = false ∧ LeavesSorted functor func t t' (t.items order) ∧ previous = none ∧
          Refused memory fuel t order) := by
  obtain ⟨depth, rfl⟩ : ∃ n, fuel = n + 2 := ⟨fuel - 2, by omega⟩
  rw [put]
  rcases h.lookup_cases hEqual key with ⟨hLookup, hFind⟩ | ⟨a, e, b, hFound⟩
  · have hNew : ∀ e ∈ order, t.keysEqual (t.key e) key = false := by
      rw [h.lookup_eq hEqual, List.find?_eq_none] at hLookup
      exact fun e he => Bool.eq_false_iff.mpr (hLookup e he)
    rcases h.putAux_new memory depth value hEqual hNew hSorts hFunc
      hSorted hFuel with ⟨t', e, hRun, hLeaves⟩ | ⟨t', hRun, hRefused, hLeaves⟩
    · rw [hRun, ok_bind, Assoc.put, hFind]
      exact ⟨t', true, none, rfl, .inl ⟨rfl, hLeaves, rfl⟩⟩
    · rw [hRun, ok_bind]
      exact ⟨t', false, none, rfl, .inr ⟨rfl, hLeaves, rfl, hRefused⟩⟩
  · obtain ⟨t', hRun, hLeaves⟩ := h.putAux_old memory (depth + 2) (depth + 1) value
      hEqual hFound hSorts hFunc hSorted
    have hSplit : t.items order = t.items a ++ (t.key e, t.value e) :: t.items b := by
      rw [hFound.order_eq, items_append, items_cons]
    rw [hRun, ok_bind, hSplit, hFound.only.put_eq]
    exact ⟨t', true, some (t.value e), rfl, .inl ⟨rfl, hLeaves, rfl⟩⟩

/-- `Remove` leaves a sorted table sorted. -/
theorem Valid.remove_sorted (h : t.Valid functor order) (hEqual : KeyEquality functor t.keysEqual)
    (hSorted : InOrder func (t.items order)) (key : K) :
    LeavesSorted functor func t (t.removeAux functor key).1
      (Assoc.remove t.keysEqual key (t.items order)).1 := by
  obtain ⟨⟨order', hValid, hItems⟩, -, hKeeps⟩ := h.removeAux_spec hEqual key
  refine ⟨hKeeps.toKeeps, order', hValid, ?_, hItems ▸ List.Perm.refl _⟩
  rw [hItems]
  exact hSorted.sublist List.filter_sublist

/-! ### Runs -/

/-- `Sort`. -/
def sort (fuel : Nat) (t : Table K V) : Run (Table K V × Bool) :=
  t.sortByAux fuel (if t.autoSortMode ≠ .byValue then t.userKeyCompareFunc else none)
    (if t.autoSortMode ≠ .byKey then t.userValueCompareFunc else none)

/-- `SetAutoSortMode`. -/
def setAutoSortMode (fuel : Nat) (t : Table K V) (mode : AutoSortMode) (sortNow : Bool) :
    Run (Table K V) :=
  if sortNow then do
    let (t, _) ← (t.withMode mode).sort fuel
    return t
  else .ok (t.withMode mode)

/-- An iteration over the table shows the items of `l`, which are sorted. -/
structure ShowsSorted (functor : K → UInt32) (func : K × V → K × V → Int) (t : Table K V)
    (l : List (K × V)) : Prop where
  holds : t.Holds functor l
  iterate : ∀ steps, l.length ≤ steps → t.iterate steps (t.initializeIterator false) = l
  sorted : InOrder func l

/-- Before and behind each operation of the run an iteration shows sorted items. Each operation does to
the items what it does to a list of them, but for the order, or is a `Put` that has no memory and changes
nothing. -/
def StaysSorted (functor : K → UInt32) (fuel : Nat) (func : K × V → K × V → Int) (t : Table K V)
    (l : List (K × V)) : List (Memory × Op K V) → Prop
  | [] => t.ShowsSorted functor func l
  | (memory, op) :: ops => t.ShowsSorted functor func l ∧
      ∃ t' outcome l', t.exec functor memory fuel op = .ok (t', outcome) ∧
        (l'.Perm (Assoc.exec t.keysEqual l op).1 ∧ outcome = (Assoc.exec t.keysEqual l op).2 ∨
          l'.Perm l ∧ outcome = ⟨false, none⟩ ∧ NoMemory memory fuel t op) ∧
        t'.StaysSorted functor fuel func l' ops

/-- The operations that auto-sorting is for. -/
def PutsOrRemoves : Op K V → Prop
  | .put _ _ | .remove _ => True
  | _ => False

omit [Inhabited K] [Inhabited V] in
theorem Valid.showsSorted (h : t.Valid functor order) (hSorted : InOrder func (t.items order)) :
    t.ShowsSorted functor func (t.items order) := by
  have hIteration := h.iterationList
  refine ⟨⟨order, h, rfl⟩, fun steps hSteps => ?_, hSorted⟩
  rw [items, List.length_map] at hSteps
  exact iterate_eq rfl hIteration.head hIteration.head (Forward.of_segment hIteration.linked) hSteps

/-- One operation. -/
theorem Valid.exec_sorted (h : t.Valid functor order) (hEqual : KeyEquality functor t.keysEqual)
    (hSorts : t.sortsBy = some func) (hFunc : Comparison func) (hSorted : InOrder func (t.items order))
    (hFuel : 2 ^ 33 ≤ fuel) (memory : Memory) (op : Op K V) (hOp : PutsOrRemoves op) :
    ∃ t' outcome order', t.exec functor memory fuel op = .ok (t', outcome) ∧ t.Keeps t' ∧
      t'.Valid functor order' ∧ InOrder func (t'.items order') ∧
      ((t'.items order').Perm (Assoc.exec t.keysEqual (t.items order) op).1 ∧
          outcome = (Assoc.exec t.keysEqual (t.items order) op).2 ∨
        (t'.items order').Perm (t.items order) ∧ outcome = ⟨false, none⟩ ∧
          NoMemory memory fuel t op) := by
  cases op with
  | put key value =>
    obtain ⟨t', status, previous, hRun, hResult⟩ :=
      h.put_sorted hEqual hSorts hFunc hSorted hFuel memory key value
    have hExec : t.exec functor memory fuel (.put key value) = .ok (t', ⟨status, previous⟩) := by
      rw [exec, hRun]
      rfl
    rcases hResult with ⟨rfl, hLeaves, rfl⟩ | ⟨rfl, hLeaves, rfl, hRefused⟩
    · obtain ⟨hKeeps, order', hValid, hOrder', hPerm⟩ := hLeaves
      exact ⟨t', _, order', hExec, hKeeps, hValid, hOrder', .inl ⟨hPerm, rfl⟩⟩
    · obtain ⟨hKeeps, order', hValid, hOrder', hPerm⟩ := hLeaves
      rw [Refused, ← h.count_eq] at hRefused
      exact ⟨t', _, order', hExec, hKeeps, hValid, hOrder', .inr ⟨hPerm, rfl, hRefused⟩⟩
  | remove key =>
    obtain ⟨hKeeps, order', hValid, hOrder', hPerm⟩ := h.remove_sorted hEqual hSorted key
    refine ⟨_, _, order', rfl, hKeeps, hValid, hOrder', .inl ⟨hPerm, ?_⟩⟩
    rw [(h.removeAux_spec hEqual key).2.1]
    rfl
  | _ => exact hOp.elim

/-- A run of operations on a sorted table. -/
theorem Valid.staysSorted (h : t.Valid functor order) (hEqual : KeyEquality functor t.keysEqual)
    (hSorts : t.sortsBy = some func) (hFunc : Comparison func) (hSorted : InOrder func (t.items order))
    (hFuel : 2 ^ 33 ≤ fuel) (ops : List (Memory × Op K V)) (hOps : ∀ op ∈ ops, PutsOrRemoves op.2) :
    t.StaysSorted functor fuel func (t.items order) ops := by
  induction ops generalizing t order with
  | nil => exact h.showsSorted hSorted
  | cons first ops ih =>
    obtain ⟨memory, op⟩ := first
    obtain ⟨t', outcome, order', hRun, hKeeps, hValid, hOrder', hResult⟩ :=
      h.exec_sorted hEqual hSorts hFunc hSorted hFuel memory op (hOps _ (List.mem_cons_self ..))
    have hSorts' : t'.sortsBy = some func := by
      rw [← hSorts, sortsBy, sortsBy, hKeeps.autoSortMode, hKeeps.userKeyCompareFunc,
        hKeeps.userValueCompareFunc]
    exact ⟨h.showsSorted hSorted, t', outcome, _, hRun, hResult,
      ih hValid (hKeeps.keysEqual ▸ hEqual) hSorts' hOrder' fun op hMem =>
        hOps op (List.mem_cons_of_mem _ hMem)⟩

omit [Inhabited K] [Inhabited V] in
/-- `SetAutoSortMode` sorts the table by the function of the mode. -/
theorem Valid.setAutoSortMode_sorted (h : t.Valid functor order) {mode : AutoSortMode}
    (hSorts : (t.withMode mode).sortsBy = some func) (hFunc : Comparison func) (hFuel : 2 ^ 33 ≤ fuel) :
    ∃ t' order', t.setAutoSortMode fuel mode true = .ok t' ∧ (t.withMode mode).Keeps t' ∧
      t'.Valid functor order' ∧ InOrder func (t'.items order') ∧
      (t'.items order').Perm (t.items order) := by
  have hSort : ∃ optKeyFunc optValueFunc,
      (t.withMode mode).sort fuel = (t.withMode mode).sortByAux fuel optKeyFunc optValueFunc ∧
        (optKeyFunc.isSome ∨ optValueFunc.isSome) ∧
        (t.withMode mode).compareEntries optKeyFunc optValueFunc =
          fun e f => func (t.item e) (t.item f) := by
    rw [sortsBy] at hSorts
    split at hSorts
    · cases hSorts
    · rename_i hMode
      obtain ⟨cmp, hCmp, rfl⟩ := Option.map_eq_some_iff.mp hSorts
      refine ⟨some cmp, none, ?_, .inl rfl, rfl⟩
      rw [sort, hMode, hCmp]
      rfl
    · rename_i hMode
      obtain ⟨cmp, hCmp, rfl⟩ := Option.map_eq_some_iff.mp hSorts
      refine ⟨none, some cmp, ?_, .inr rfl, rfl⟩
      rw [sort, hMode, hCmp]
      rfl
  obtain ⟨optKeyFunc, optValueFunc, hRun, hSome, hCompare⟩ := hSort
  have hTrans := hFunc.strcmp.entryLE_trans t.item
  have hTotal := hFunc.strcmp.entryLE_total t.item
  rw [← hCompare] at hTrans hTotal
  obtain ⟨t', order', hSorted, hValid, hOrder, -⟩ :=
    (h.withMode mode).sortByAux_sorted hFuel hSome hTrans hTotal
  have hInOrder : InOrder func (t'.items order') := by
    have hPairwise := hOrder.sorted
    rw [hCompare] at hPairwise
    rw [InOrder, items, List.pairwise_map, hOrder.key, hOrder.value]
    exact hPairwise
  refine ⟨t', order', ?_, hOrder.toKeeps, hValid, hInOrder, hOrder.items_perm⟩
  rw [setAutoSortMode, if_pos rfl, hRun, hSorted]
  rfl

/-- A table that is set to auto-sort shows its items sorted, before and behind each `Put` and each
`Remove` of a run. -/
theorem Valid.autoSorts (h : t.Valid functor order) (hEqual : KeyEquality functor t.keysEqual)
    {mode : AutoSortMode} (hSorts : (t.withMode mode).sortsBy = some func) (hFunc : Comparison func)
    (hFuel : 2 ^ 33 ≤ fuel) (ops : List (Memory × Op K V)) (hOps : ∀ op ∈ ops, PutsOrRemoves op.2) :
    ∃ t' l, t.setAutoSortMode fuel mode true = .ok t' ∧ l.Perm (t.items order) ∧
      t'.StaysSorted functor fuel func l ops := by
  obtain ⟨t', order', hRun, hKeeps, hValid, hOrder', hPerm⟩ := h.setAutoSortMode_sorted hSorts hFunc hFuel
  have hKeys : t'.keysEqual = t.keysEqual := hKeeps.keysEqual
  have hSorts' : t'.sortsBy = some func := by
    rw [← hSorts, sortsBy, sortsBy, hKeeps.autoSortMode, hKeeps.userKeyCompareFunc,
      hKeeps.userValueCompareFunc]
  exact ⟨t', _, hRun, hPerm,
    hValid.staysSorted (hKeys ▸ hEqual) hSorts' hFunc hOrder' hFuel ops hOps⟩

/-- A value that gets smaller moves its item to the front, and a larger one to the back. -/
theorem Valid.autoSorts_byValue :
    ∃ (t' : Table Nat Nat) (l : List (Nat × Nat)),
      { (Table.new 7 : Table Nat Nat) with userValueCompareFunc := some fun a b => a - b }.setAutoSortMode
          (2 ^ 33) .byValue true = .ok t' ∧ l.Perm [] ∧
        t'.StaysSorted (fun _ => 0) (2 ^ 33) (fun (a b : Nat × Nat) => (a.2 : Int) - b.2) l
          [(Memory.plenty, .put 1 5), (Memory.plenty, .put 2 3), (Memory.plenty, .put 1 1),
            (Memory.plenty, .put 1 9), (Memory.plenty, .remove 2)] :=
  Valid.autoSorts
    (⟨⟨by decide, by decide⟩, ⟨by decide, by decide⟩, fun _ => ⟨rfl, rfl, rfl, rfl⟩,
      fun hTable => absurd hTable Bool.false_ne_true⟩ : Valid (fun _ => 0) _ [])
    KeyEquality.const rfl ⟨fun a b c => by omega, fun a b => by omega⟩ (Nat.le_refl _) _ (by
      simp only [List.mem_cons, List.not_mem_nil, or_false, forall_eq_or_imp, forall_eq]
      exact ⟨trivial, trivial, trivial, trivial, trivial⟩)

end

end BeShare.Muscle.Hashtable.Table
