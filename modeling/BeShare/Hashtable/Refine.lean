import BeShare.Hashtable.Sort

/-! Every run of operations on a `Hashtable` does what it does on the list of items. -/

namespace BeShare.Muscle.Hashtable

open BeShare.Lib

variable {K V : Type}

/-- The operations. -/
inductive Op (K V : Type) where
  | put (key : K) (value : V)
  | remove (key : K)
  | get (key : K)
  | clear (releaseCachedBuffers : Bool)
  | ensureSize (requestedSize : UInt32)
  | moveToFront (key : K)
  | moveToBack (key : K)
  | moveToBefore (key other : K)
  | moveToBehind (key other : K)
  | sortByKey (func : Option (K → K → Int))
  | sortByValue (func : Option (V → V → Int))

/-- What an operation returns: its status, and the value that was found, replaced or removed. -/
structure Outcome (V : Type) where
  status : Bool
  value : Option V

namespace Assoc

/-- The operation on the list. -/
def exec (equal : K → K → Bool) (l : List (K × V)) : Op K V → List (K × V) × Outcome V
  | .put key value => ((put equal key value l).1, ⟨true, (put equal key value l).2⟩)
  | .remove key => ((remove equal key l).1, ⟨(get equal key l).isSome, get equal key l⟩)
  | .get key => (l, ⟨(get equal key l).isSome, get equal key l⟩)
  | .clear _ => ([], ⟨true, none⟩)
  | .ensureSize _ => (l, ⟨true, none⟩)
  | .moveToFront key => ((moveToFront equal key l).1, ⟨(moveToFront equal key l).2, none⟩)
  | .moveToBack key => ((moveToBack equal key l).1, ⟨(moveToBack equal key l).2, none⟩)
  | .moveToBefore key other =>
    ((moveToBefore equal key other l).1, ⟨(moveToBefore equal key other l).2, none⟩)
  | .moveToBehind key other =>
    ((moveToBehind equal key other l).1, ⟨(moveToBehind equal key other l).2, none⟩)
  | .sortByKey (some func) => (sortByKey func l, ⟨true, none⟩)
  | .sortByValue (some func) => (sortByValue func l, ⟨true, none⟩)
  | .sortByKey none | .sortByValue none => (l, ⟨false, none⟩)

end Assoc

namespace Table

variable [BEq K] [Inhabited K] [Inhabited V] (functor : K → UInt32)

/-- The operation on the table. -/
def exec (memory : Memory) (fuel : Nat) (t : Table K V) : Op K V → Run (Table K V × Outcome V)
  | .put key value => do
    let (t, status, previous) ← t.put functor memory fuel key value
    return (t, ⟨status, previous⟩)
  | .remove key =>
    .ok ((t.removeAux functor key).1,
      ⟨(t.removeAux functor key).2.isSome, (t.removeAux functor key).2⟩)
  | .get key => .ok (t, ⟨(t.getValue functor key).isSome, t.getValue functor key⟩)
  | .clear releaseCachedBuffers => .ok (t.clear releaseCachedBuffers, ⟨true, none⟩)
  | .ensureSize requestedSize => do
    let (t, status) ← t.ensureSize functor memory fuel requestedSize
    return (t, ⟨status, none⟩)
  | .moveToFront key => .ok ((t.moveToFront functor key).1, ⟨(t.moveToFront functor key).2, none⟩)
  | .moveToBack key => .ok ((t.moveToBack functor key).1, ⟨(t.moveToBack functor key).2, none⟩)
  | .moveToBefore key other =>
    .ok ((t.moveToBefore functor key other).1, ⟨(t.moveToBefore functor key other).2, none⟩)
  | .moveToBehind key other =>
    .ok ((t.moveToBehind functor key other).1, ⟨(t.moveToBehind functor key other).2, none⟩)
  | .sortByKey func => do
    let (t, status) ← t.sortByKey fuel func
    return (t, ⟨status, none⟩)
  | .sortByValue func => do
    let (t, status) ← t.sortByValue fuel func
    return (t, ⟨status, none⟩)

/-- The operations that need memory, and what is known if there is none. -/
def NoMemory (memory : Memory) (fuel : Nat) (t : Table K V) : Op K V → Prop
  | .put _ _ => t.hasTable = false ∧ memory.allocates t.tableSize = false ∨
      t.count = t.tableSize ∧
        ∃ size, nextPrime fuel (t.tableSize * 2) = .ok size ∧ memory.allocates size = false
  | .ensureSize _ => True
  | _ => False

/-- The table shows the items of `l`: its lookups, its count and its iterations are those of the list,
and its index structures are in order. -/
structure Shows (t : Table K V) (l : List (K × V)) : Prop where
  holds : t.Holds functor l
  get : ∀ key, t.getValue functor key = Assoc.get (· == ·) key l
  count : t.count = l.length
  forward : ∀ steps, l.length ≤ steps → t.iterate steps (t.initializeIterator false) = l
  backward : ∀ steps, l.length ≤ steps → t.iterate steps (t.initializeIterator true) = l.reverse

/-- Each operation of the run does what it does to the list `l`, or is a `Put` or an `EnsureSize` that
has no memory and changes nothing; and the table shows the items of the list before and behind it. Each
operation finds some memory. -/
def Refines (fuel : Nat) (t : Table K V) (l : List (K × V)) : List (Memory × Op K V) → Prop
  | [] => t.Shows functor l
  | (memory, op) :: ops => t.Shows functor l ∧
      ∃ t' outcome, t.exec functor memory fuel op = .ok (t', outcome) ∧
        (outcome = (Assoc.exec (· == ·) l op).2 ∧
            t'.Refines fuel (Assoc.exec (· == ·) l op).1 ops ∨
          outcome = ⟨false, none⟩ ∧ NoMemory memory fuel t op ∧ t'.Refines fuel l ops)

variable {functor} {t : Table K V} {order : List Nat} {l : List (K × V)} {memory : Memory} {fuel : Nat}

omit [BEq K] [Inhabited K] [Inhabited V] in
/-- An iteration goes along the entries that its cookies are linked to. -/
theorem iterate_eq {iter : HashtableIterator} {l : List Nat} {steps : Nat} (hOwned : iter.owned = true)
    (hKey : iter.nextKeyCookie = l.head?) (hValue : iter.nextValueCookie = l.head?)
    (hForward : Forward (fun e => t.iterateCookie (some e) iter.backwards) l none)
    (hSteps : l.length ≤ steps) : t.iterate steps iter = t.items l := by
  induction l generalizing iter steps with
  | nil =>
    cases steps with
    | zero => rfl
    | succ steps =>
      rw [List.head?_nil] at hKey
      simp [iterate, getNextKey, hKey, items]
  | cons x l ih =>
    obtain ⟨steps, rfl⟩ : ∃ n, steps = n + 1 := ⟨steps - 1, by simp at hSteps; omega⟩
    rw [List.head?_cons] at hKey hValue
    have hNext : t.iterateCookie (some x) iter.backwards = l.head? :=
      hForward.1.trans (Option.or_none ..)
    have hRest : t.iterate steps { iter with nextKeyCookie := l.head?, nextValueCookie := l.head? } =
        t.items l := ih hOwned rfl rfl hForward.2 (by simpa using hSteps)
    rw [hOwned] at hRest
    simp [iterate, getNextKey, getNextValue, hOwned, hKey, hValue, hNext, items_cons]
    simpa using hRest

omit [Inhabited K] [Inhabited V] in
theorem keysEqual_eq (h : t.userKeyCompareFunc = none) : t.keysEqual = (· == ·) := by
  funext a b
  simp only [keysEqual, h]

omit [Inhabited K] [Inhabited V] in
theorem Valid.shows (h : t.Valid functor order) (hFunc : t.userKeyCompareFunc = none)
    (hEqual : KeyEquality functor (· == · : K → K → Bool)) : t.Shows functor (t.items order) := by
  have hKeys := keysEqual_eq hFunc
  have hIteration := h.iterationList
  refine ⟨⟨order, h, rfl⟩, fun key => ?_, ?_, fun steps hSteps => ?_, fun steps hSteps => ?_⟩
  · rw [getValue, ← hKeys, Assoc.get]
    rcases h.lookup_cases (hKeys ▸ hEqual) key with ⟨hLookup, hFind⟩ | ⟨a, e, b, hFound⟩
    · rw [hLookup, hFind]
      rfl
    · rw [hFound.lookup, hFound.find_eq]
      rfl
  · rw [h.count_eq, items, List.length_map]
  · rw [items, List.length_map] at hSteps
    exact iterate_eq rfl hIteration.head hIteration.head (Forward.of_segment hIteration.linked) hSteps
  · rw [items, List.length_map] at hSteps
    rw [items, ← List.map_reverse]
    refine iterate_eq rfl ?_ ?_ (Forward.of_segment_reverse hIteration.linked) (by simpa using hSteps)
    · exact hIteration.tail.trans (List.head?_reverse ..).symm
    · exact hIteration.tail.trans (List.head?_reverse ..).symm

end Table

/-- The comparisons that are sorted by work like `strcmp`. -/
def Op.Comparable : Op K V → Prop
  | .sortByKey (some func) => Strcmp func
  | .sortByValue (some func) => Strcmp func
  | _ => True

/-- Memory for every array that can be had. -/
def Memory.plenty : Memory := ⟨fun size => decide (size < 2 ^ 30), fun _ h => of_decide_eq_true h⟩

/-- Keys that all have one hash code. -/
theorem KeyEquality.const [BEq K] [LawfulBEq K] : KeyEquality (fun _ : K => 0) (· == ·) :=
  ⟨fun _ => beq_self_eq_true _, fun _ _ h => by rw [eq_of_beq h]; exact beq_self_eq_true _,
    fun _ _ _ h h' => by rw [eq_of_beq h]; exact h', fun _ _ _ => rfl⟩

namespace Table

variable [BEq K] [Inhabited K] [Inhabited V] {functor : K → UInt32} {t : Table K V} {order : List Nat}
  {l : List (K × V)} {memory : Memory} {fuel : Nat}

/-- One operation. -/
theorem Valid.exec_spec (h : t.Valid functor order) (hFunc : t.userKeyCompareFunc = none)
    (hMode : t.autoSortMode = .disabled) (hEqual : KeyEquality functor (· == · : K → K → Bool))
    (hFuel : 2 ^ 33 ≤ fuel) (op : Op K V) (hOp : op.Comparable) :
    ∃ t' outcome, t.exec functor memory fuel op = .ok (t', outcome) ∧ t.Keeps t' ∧
      (outcome = (Assoc.exec (· == ·) (t.items order) op).2 ∧
          t'.Holds functor (Assoc.exec (· == ·) (t.items order) op).1 ∨
        outcome = ⟨false, none⟩ ∧ NoMemory memory fuel t op ∧ t'.Holds functor (t.items order)) := by
  have hKeys := keysEqual_eq hFunc
  have hEq : KeyEquality functor t.keysEqual := hKeys ▸ hEqual
  cases op with
  | put key value =>
    obtain ⟨t', status, previous, hRun, hKeeps, hResult⟩ := h.put_spec hEq hMode hFuel memory key value
    rw [hKeys] at hResult
    refine ⟨t', ⟨status, previous⟩, ?_, hKeeps, ?_⟩
    · rw [exec, hRun]
      rfl
    · rcases hResult with ⟨rfl, hHolds, rfl⟩ | ⟨rfl, hHolds, rfl, hRefused⟩
      · exact .inl ⟨rfl, hHolds⟩
      · rw [Refused, ← h.count_eq] at hRefused
        exact .inr ⟨rfl, hRefused, hHolds⟩
  | remove key =>
    obtain ⟨hHolds, hValue, hKeeps⟩ := h.removeAux_spec hEq key
    rw [hKeys] at hHolds hValue
    refine ⟨_, _, rfl, hKeeps.toKeeps, .inl ⟨?_, hHolds⟩⟩
    rw [hValue]
    rfl
  | get key =>
    refine ⟨_, _, rfl, ⟨rfl, rfl, rfl, rfl⟩, .inl ⟨?_, order, h, rfl⟩⟩
    rw [(h.shows hFunc hEqual).get key]
    rfl
  | clear releaseCachedBuffers =>
    obtain ⟨hValid, hKeeps, -⟩ := h.clear_spec releaseCachedBuffers
    exact ⟨_, _, rfl, hKeeps, .inl ⟨rfl, [], hValid, rfl⟩⟩
  | ensureSize requestedSize =>
    obtain ⟨t', status, hRun, hKeeps, hHolds⟩ := h.ensureSize_spec hEq hMode hFuel memory requestedSize
    refine ⟨t', ⟨status, none⟩, ?_, hKeeps, ?_⟩
    · rw [exec, hRun]
      rfl
    · cases status with
      | true => exact .inl ⟨rfl, hHolds⟩
      | false => exact .inr ⟨rfl, trivial, hHolds⟩
  | moveToFront key =>
    obtain ⟨hHolds, hStatus, hKeeps⟩ := h.moveToFront_spec hEq key
    rw [hKeys] at hHolds hStatus
    exact ⟨_, _, rfl, hKeeps.toKeeps, .inl ⟨by rw [hStatus]; rfl, hHolds⟩⟩
  | moveToBack key =>
    obtain ⟨hHolds, hStatus, hKeeps⟩ := h.moveToBack_spec hEq key
    rw [hKeys] at hHolds hStatus
    exact ⟨_, _, rfl, hKeeps.toKeeps, .inl ⟨by rw [hStatus]; rfl, hHolds⟩⟩
  | moveToBefore key other =>
    obtain ⟨hHolds, hStatus, hKeeps⟩ := h.moveToBefore_spec hEq key other
    rw [hKeys] at hHolds hStatus
    exact ⟨_, _, rfl, hKeeps.toKeeps, .inl ⟨by rw [hStatus]; rfl, hHolds⟩⟩
  | moveToBehind key other =>
    obtain ⟨hHolds, hStatus, hKeeps⟩ := h.moveToBehind_spec hEq key other
    rw [hKeys] at hHolds hStatus
    exact ⟨_, _, rfl, hKeeps.toKeeps, .inl ⟨by rw [hStatus]; rfl, hHolds⟩⟩
  | sortByKey func =>
    cases func with
    | none => exact ⟨t, ⟨false, none⟩, rfl, ⟨rfl, rfl, rfl, rfl⟩, .inl ⟨rfl, order, h, rfl⟩⟩
    | some func =>
      obtain ⟨t', hRun, hKeeps, hHolds⟩ := h.sortByKey_spec hOp hFuel
      refine ⟨t', ⟨true, none⟩, ?_, hKeeps, .inl ⟨rfl, hHolds⟩⟩
      rw [exec, hRun]
      rfl
  | sortByValue func =>
    cases func with
    | none => exact ⟨t, ⟨false, none⟩, rfl, ⟨rfl, rfl, rfl, rfl⟩, .inl ⟨rfl, order, h, rfl⟩⟩
    | some func =>
      obtain ⟨t', hRun, hKeeps, hHolds⟩ := h.sortByValue_spec hOp hFuel
      refine ⟨t', ⟨true, none⟩, ?_, hKeeps, .inl ⟨rfl, hHolds⟩⟩
      rw [exec, hRun]
      rfl

/-- A run of operations. -/
theorem Holds.refines (h : t.Holds functor l) (hFunc : t.userKeyCompareFunc = none)
    (hMode : t.autoSortMode = .disabled) (hEqual : KeyEquality functor (· == · : K → K → Bool))
    (hFuel : 2 ^ 33 ≤ fuel) (ops : List (Memory × Op K V)) (hOps : ∀ op ∈ ops, op.2.Comparable) :
    t.Refines functor fuel l ops := by
  induction ops generalizing t l with
  | nil =>
    obtain ⟨order, hValid, rfl⟩ := h
    exact hValid.shows hFunc hEqual
  | cons first ops ih =>
    obtain ⟨memory, op⟩ := first
    obtain ⟨order, hValid, rfl⟩ := h
    obtain ⟨t', outcome, hRun, hKeeps, hResult⟩ := hValid.exec_spec hFunc hMode hEqual hFuel
      op (hOps (memory, op) (List.mem_cons_self ..))
    have hNext : ∀ {l'}, t'.Holds functor l' → t'.Refines functor fuel l' ops := fun hHolds =>
      ih hHolds (hKeeps.userKeyCompareFunc.trans hFunc) (hKeeps.autoSortMode.trans hMode)
        fun op hMem => hOps op (List.mem_cons_of_mem _ hMem)
    refine ⟨hValid.shows hFunc hEqual, t', outcome, hRun, ?_⟩
    rcases hResult with ⟨hOutcome, hHolds⟩ | ⟨hOutcome, hMemory, hHolds⟩
    · exact .inl ⟨hOutcome, hNext hHolds⟩
    · exact .inr ⟨hOutcome, hMemory, hNext hHolds⟩

theorem Valid.new {initialCapacity : Nat} (hPos : 0 < initialCapacity)
    (hWord : initialCapacity < 2 ^ 32) : (Table.new initialCapacity : Table K V).Valid functor [] :=
  ⟨⟨hPos, hWord⟩, ⟨hPos, hWord⟩, fun _ => ⟨rfl, rfl, rfl, rfl⟩, nofun⟩

/-- Every run of operations on a new table does what it does on an empty list. -/
theorem new_refines (initialCapacity : UInt32) (hCapacity : 0 < initialCapacity.toNat)
    (hEqual : KeyEquality functor (· == · : K → K → Bool)) (hFuel : 2 ^ 33 ≤ fuel)
    (ops : List (Memory × Op K V)) (hOps : ∀ op ∈ ops, op.2.Comparable) :
    (Table.new initialCapacity.toNat : Table K V).Refines functor fuel [] ops :=
  Holds.refines ⟨[], Valid.new hCapacity initialCapacity.toNat_lt, rfl⟩ rfl rfl hEqual hFuel ops hOps

/-- Items whose keys all have one hash code are put, looked up and sorted. -/
theorem new_refines_collisions :
    (Table.new (7 : UInt32).toNat : Table Nat Nat).Refines (fun _ => 0) (2 ^ 33) []
      [(Memory.plenty, .put 2 1), (Memory.plenty, .put 1 2), (Memory.plenty, .get 2),
        (Memory.plenty, .sortByKey (some fun a b => a - b))] :=
  new_refines 7 (by decide) KeyEquality.const (Nat.le_refl _) _ (by
    simp only [List.mem_cons, List.not_mem_nil, or_false, forall_eq_or_imp, forall_eq]
    refine ⟨trivial, trivial, trivial, ⟨fun a b c => ?_, fun a b => ?_⟩⟩ <;> omega)

end Table

end BeShare.Muscle.Hashtable
