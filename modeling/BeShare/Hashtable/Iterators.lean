import BeShare.Hashtable.Refine
import BeShare.Lib.Cursor

/-! Registered iterators while the table changes under them. -/

namespace BeShare.Muscle.Hashtable

open BeShare.Lib

variable {K V : Type}

/-- The two traversals of an iterator. -/
inductive Traversal where
  | keys | values
deriving DecidableEq

def HashtableIterator.cookie (iter : HashtableIterator) : Traversal → Option Nat
  | .keys => iter.nextKeyCookie
  | .values => iter.nextValueCookie

/-- The steps of iterators, named by their numbers, and the changes of the table. -/
inductive IterOp (K V : Type) where
  | start (i : Nat) (backwards : Bool)
  | next (i : Nat) (traversal : Traversal)
  | destroy (i : Nat)
  | put (key : K) (value : V)
  | remove (key : K)
  | clear (releaseCachedBuffers : Bool)

/-- The operation neither starts nor destroys the iterator `i`. -/
def IterOp.Spares (i : Nat) : IterOp K V → Prop
  | .start j _ => j ≠ i
  | .destroy j => j ≠ i
  | _ => True

namespace Table

/-- The constructor of a `HashtableIterator`, with `InitializeIterator`. -/
def start (t : Table K V) (i : Nat) (backwards : Bool) : Table K V :=
  { t with
    iterList := i :: t.iterList
    iterators := Function.update t.iterators i (t.initializeIterator backwards) }

/-- The destructor. -/
def destroy (t : Table K V) (i : Nat) : Table K V :=
  if (t.iterators i).owned then { t with iterList := t.iterList.filter (· ≠ i) } else t

/-- `GetNextKey` or `GetNextValue`: the entry that is returned. -/
def getNext (t : Table K V) (traversal : Traversal) (iter : HashtableIterator) :
    Option Nat × HashtableIterator :=
  match traversal with
  | .keys => t.getNextKey iter
  | .values => t.getNextValue iter

/-- Stores an iterator. -/
def setIterator (t : Table K V) (i : Nat) (iter : HashtableIterator) : Table K V :=
  { t with iterators := Function.update t.iterators i iter }

variable [BEq K] [Inhabited K] [Inhabited V] (functor : K → UInt32)

/-- The stored key that equals `key`. -/
def getKey (t : Table K V) (key : K) : Option K := (t.lookup functor key).map t.key

/-- One operation, and what it is for the traversal of the iterator `i`: an entry is named by its
stored key. -/
def iterStep (memory : Memory) (fuel : Nat) (i : Nat) (traversal : Traversal) (t : Table K V) :
    IterOp K V → Run (Table K V × List (Cursor.Event K))
  | .start j backwards => .ok (t.start j backwards, [])
  | .destroy j => .ok (t.destroy j, [])
  | .next j which =>
    let (e, iter) := t.getNext which (t.iterators j)
    .ok (t.setIterator j iter,
      if j = i ∧ which = traversal then
        [match e with
          | some e => .returned (t.key e)
          | none => .finished]
      else [])
  | .put key value => do
    let (t', status, _) ← t.put functor memory fuel key value
    return (t', if (t.getKey functor key).isNone ∧ status then [.added key] else [])
  | .remove key =>
    .ok ((t.removeAux functor key).1, (t.getKey functor key).toList.map .removed)
  | .clear releaseCachedBuffers => .ok (t.clear releaseCachedBuffers, [.cleared])

/-- A run of operations, each with the memory it finds, and the log of the traversal. -/
def iterRun (fuel : Nat) (i : Nat) (traversal : Traversal) :
    Table K V → List (Memory × IterOp K V) → Run (Table K V × List (Cursor.Event K))
  | t, [] => .ok (t, [])
  | t, (memory, op) :: ops => do
    let (t, events) ← t.iterStep functor memory fuel i traversal op
    let (t, log) ← iterRun fuel i traversal t ops
    return (t, events ++ log)

omit [BEq K] [Inhabited K] [Inhabited V] in
/-- The entries in the direction of the traversal. -/
def direction (backwards : Bool) (order : List Nat) : List Nat :=
  if backwards then order.reverse else order

/-- The iterator has still to return the entries of `left`. It is registered, or was orphaned by
`Clear`. -/
def Stands (t : Table K V) (order : List Nat) (i : Nat) (left : Traversal → List Nat) : Prop :=
  i ∈ t.iterList ∧ (t.iterators i).owned = true ∧
      (∀ traversal, (t.iterators i).cookie traversal = (left traversal).head? ∧
        left traversal <:+ direction (t.iterators i).backwards order) ∨
    i ∉ t.iterList ∧ (t.iterators i).owned = false ∧ ∀ traversal, left traversal = []

/-- The table and the traversal of the iterator `i` are in the state `s`. -/
def Follows (functor : K → UInt32) (t : Table K V) (i : Nat) (traversal : Traversal)
    (s : Cursor.State K) : Prop :=
  ∃ order left, t.Valid functor order ∧ t.Stands order i left ∧ s.present = order.map t.key ∧
    s.left = (left traversal).map t.key

variable {functor} {t t' : Table K V} {order a b : List Nat} {left : Traversal → List Nat} {i e : Nat}
  {traversal : Traversal} {clone : Nat → Nat}

section

omit [BEq K] [Inhabited K] [Inhabited V]

theorem direction_map (backwards : Bool) :
    direction backwards (order.map clone) = (direction backwards order).map clone := by
  cases backwards with
  | false => rfl
  | true => exact (List.map_reverse ..).symm

theorem direction_filter (backwards : Bool) (p : Nat → Bool) :
    direction backwards (order.filter p) = (direction backwards order).filter p := by
  cases backwards with
  | false => rfl
  | true => exact (List.filter_reverse ..).symm

theorem mem_direction {backwards : Bool} {x : Nat} : x ∈ direction backwards order ↔ x ∈ order := by
  cases backwards with
  | false => rfl
  | true => exact List.mem_reverse

theorem direction_nodup {backwards : Bool} (h : order.Nodup) : (direction backwards order).Nodup := by
  cases backwards with
  | false => exact h
  | true => exact List.nodup_reverse.mpr h

/-- The links in the direction of a traversal. -/
theorem IterationList.iterateCookie (h : t.IterationList order) {backwards : Bool} {x : Nat} {l : List Nat}
    (hSuffix : x :: l <:+ direction backwards order) :
    t.iterateCookie (some x) backwards = l.head? := by
  have hForward : Forward (fun e => t.iterateCookie (some e) backwards) (direction backwards order) none := by
    cases backwards with
    | false => exact Forward.of_segment h.linked
    | true => exact Forward.of_segment_reverse h.linked
  obtain ⟨passed, hPassed⟩ := hSuffix
  rw [← hPassed] at hForward
  exact (Forward.append.mp hForward).2.1.trans (Option.or_none ..)

end

omit [BEq K] [Inhabited K] [Inhabited V] in
theorem Stands.standsIn (h : t.Stands order i left) (hi : i ∈ t.iterList) :
    (t.iterators i).StandsIn order := by
  rcases h with ⟨-, -, hPlace⟩ | ⟨hNot, -⟩
  · have hMem : ∀ traversal e, (t.iterators i).cookie traversal = some e → e ∈ order := by
      intro traversal e he
      obtain ⟨hCookie, hSuffix⟩ := hPlace traversal
      rw [hCookie] at he
      exact mem_direction.mp (hSuffix.subset (List.mem_of_mem_head? he))
    exact ⟨hMem .keys, hMem .values⟩
  · exact absurd hi hNot

/-! ### What one operation does to an iterator -/

section

omit [BEq K] [Inhabited K] [Inhabited V]

/-- A step of the iterator. -/
theorem Stands.getNext (h : t.Stands order i left) (hIteration : t.IterationList order)
    (which : Traversal) :
    ∃ iter, t.getNext which (t.iterators i) = ((left which).head?, iter) ∧
      (t.setIterator i iter).Stands order i (Function.update left which (left which).tail) := by
  rcases h with ⟨hi, hOwned, hPlace⟩ | ⟨hi, hOwned, hNone⟩
  · obtain ⟨hCookie, hSuffix⟩ := hPlace which
    cases hLeft : left which with
    | nil =>
      rw [hLeft, List.head?_nil] at hCookie
      refine ⟨t.iterators i, ?_, .inl ⟨hi, ?_, ?_⟩⟩
      · cases which <;> simp only [HashtableIterator.cookie] at hCookie <;>
          simp [Table.getNext, getNextKey, getNextValue, hCookie]
      · show (Function.update t.iterators i (t.iterators i) i).owned = true
        rwa [Function.update_self]
      · intro traversal
        show (Function.update t.iterators i (t.iterators i) i).cookie traversal = _ ∧
          _ <:+ direction (Function.update t.iterators i (t.iterators i) i).backwards order
        rw [Function.update_self]
        have hSame : Function.update left which ([] : List Nat).tail = left := by
          rw [List.tail_nil, ← hLeft, Function.update_eq_self]
        rw [hSame]
        exact hPlace traversal
    | cons x l =>
      rw [hLeft] at hCookie hSuffix
      have hNext := hIteration.iterateCookie hSuffix
      have hRest : l <:+ direction (t.iterators i).backwards order :=
        (List.suffix_cons x l).trans hSuffix
      cases which with
      | keys =>
        have hKey : (t.iterators i).nextKeyCookie = some x := hCookie
        refine ⟨{ t.iterators i with nextKeyCookie := l.head? }, ?_, .inl ⟨hi, ?_, ?_⟩⟩
        · simp [Table.getNext, getNextKey, hOwned, hKey, hNext]
        · show (Function.update t.iterators i _ i).owned = true
          rwa [Function.update_self]
        · intro traversal
          show (Function.update t.iterators i _ i).cookie traversal = _ ∧
            _ <:+ direction (Function.update t.iterators i _ i).backwards order
          rw [Function.update_self]
          cases traversal with
          | keys => exact ⟨rfl, hRest⟩
          | values => exact hPlace .values
      | values =>
        have hValue : (t.iterators i).nextValueCookie = some x := hCookie
        refine ⟨{ t.iterators i with nextValueCookie := l.head? }, ?_, .inl ⟨hi, ?_, ?_⟩⟩
        · simp [Table.getNext, getNextValue, hOwned, hValue, hNext]
        · show (Function.update t.iterators i _ i).owned = true
          rwa [Function.update_self]
        · intro traversal
          show (Function.update t.iterators i _ i).cookie traversal = _ ∧
            _ <:+ direction (Function.update t.iterators i _ i).backwards order
          rw [Function.update_self]
          cases traversal with
          | keys => exact hPlace .keys
          | values => exact ⟨rfl, hRest⟩
  · refine ⟨t.iterators i, ?_, .inr ⟨hi, ?_, fun traversal => ?_⟩⟩
    · rw [hNone which]
      cases which <;> simp [Table.getNext, getNextKey, getNextValue, hOwned]
    · show (Function.update t.iterators i (t.iterators i) i).owned = false
      rwa [Function.update_self]
    · have hSame : Function.update left which (left which).tail = left := by
        rw [hNone which, List.tail_nil, ← hNone which, Function.update_eq_self]
      rw [hSame, hNone traversal]

/-- What happens to other iterators does not matter. -/
theorem Stands.congr (h : t.Stands order i left) (hList : i ∈ t'.iterList ↔ i ∈ t.iterList)
    (hIter : t'.iterators i = t.iterators i) : t'.Stands order i left := by
  rw [Stands, hList, hIter]
  exact h

/-- The iterator goes with the entries to the bigger table. -/
theorem Stands.redirected (h : t.Stands order i left) (hList : t'.iterList = t.iterList)
    (hRedirected : t.Redirected t' order clone) :
    t'.Stands (order.map clone) i fun traversal => (left traversal).map clone := by
  by_cases hi : i ∈ t.iterList
  · have hFollows := hRedirected.registered i hi (h.standsIn hi)
    rcases h with ⟨-, hOwned, hPlace⟩ | ⟨hNot, -⟩
    · refine .inl ⟨hList ▸ hi, hFollows.owned.trans hOwned, fun traversal => ⟨?_, ?_⟩⟩
      · have hCookie : (t'.iterators i).cookie traversal =
            ((t.iterators i).cookie traversal).map clone := by
          cases traversal with
          | keys => exact hFollows.key
          | values => exact hFollows.value
        rw [hCookie, (hPlace traversal).1, List.head?_map]
      · rw [hFollows.backwards, direction_map]
        exact (hPlace traversal).2.map clone
    · exact absurd hi hNot
  · rcases h with ⟨hIn, -⟩ | ⟨-, hOwned, hNone⟩
    · exact absurd hIn hi
    · refine .inr ⟨hList ▸ hi, ?_, fun traversal => ?_⟩
      · rw [hRedirected.others i hi]
        exact hOwned
      · exact (congrArg (List.map clone) (hNone traversal)).trans rfl

/-- A new entry is left to return for an iterator that goes forward and is not at the end. -/
theorem Stands.appended (h : t.Stands order i left) (hList : t'.iterList = t.iterList)
    (hIter : t'.iterators = t.iterators) (e : Nat) :
    t'.Stands (order ++ [e]) i fun traversal =>
      if left traversal = [] ∨ (t.iterators i).backwards = true then left traversal
      else left traversal ++ [e] := by
  rcases h with ⟨hi, hOwned, hPlace⟩ | ⟨hi, hOwned, hNone⟩
  · refine .inl ⟨hList ▸ hi, by rw [hIter]; exact hOwned, fun traversal => ?_⟩
    rw [hIter]
    beta_reduce
    obtain ⟨hCookie, passed, hPassed⟩ := hPlace traversal
    cases hBackwards : (t.iterators i).backwards with
    | false =>
      rw [hBackwards] at hPassed
      by_cases hEnd : left traversal = []
      · rw [if_pos (.inl hEnd), hEnd]
        exact ⟨by rw [hCookie, hEnd], List.nil_suffix⟩
      · rw [if_neg (by simp [hEnd])]
        refine ⟨?_, passed, ?_⟩
        · rw [hCookie]
          cases hLeft : left traversal with
          | nil => exact absurd hLeft hEnd
          | cons x l => rfl
        · rw [← List.append_assoc, hPassed]
          rfl
    | true =>
      rw [if_pos (.inr rfl)]
      refine ⟨hCookie, e :: passed, ?_⟩
      rw [hBackwards] at hPassed
      rw [List.cons_append, hPassed]
      simp [direction]
  · refine .inr ⟨hList ▸ hi, by rw [hIter]; exact hOwned, fun traversal => ?_⟩
    beta_reduce
    rw [hNone traversal, if_pos (.inl rfl)]

/-- `RemoveIterationEntry` moves the iterator on if it stands on the entry. -/
theorem leaveEntry_cookie (hIteration : t.IterationList order) (hNodup : order.Nodup)
    {iter : HashtableIterator} (hOwned : iter.owned = true)
    (hPlace : ∀ traversal, iter.cookie traversal = (left traversal).head? ∧
      left traversal <:+ direction iter.backwards order) (traversal : Traversal) :
    (t.leaveEntry e iter).cookie traversal = ((left traversal).filter (· ≠ e)).head? := by
  have hNext : ∀ traversal, (if iter.cookie traversal = some e then t.iterateCookie (some e) iter.backwards
      else iter.cookie traversal) = ((left traversal).filter (· ≠ e)).head? := by
    intro traversal
    obtain ⟨hCookie, hSuffix⟩ := hPlace traversal
    cases hLeft : left traversal with
    | nil =>
      rw [hLeft] at hCookie
      rw [hCookie]
      rfl
    | cons x l =>
      rw [hLeft] at hCookie hSuffix
      have hNodupLeft := hSuffix.sublist.nodup (direction_nodup hNodup)
      rw [hCookie, List.head?_cons]
      by_cases hxe : x = e
      · subst hxe
        have hRest : l.filter (· ≠ x) = l := List.filter_eq_self.mpr fun y hy => by
          have hyx : y ≠ x := fun hEq => (List.nodup_cons.mp hNodupLeft).1 (hEq ▸ hy)
          simpa using hyx
        rw [if_pos rfl, hIteration.iterateCookie hSuffix, List.filter_cons_of_neg (by simp), hRest]
      · rw [if_neg fun hEq => hxe (Option.some.inj hEq), List.filter_cons_of_pos (by simpa using hxe)]
        rfl
  have hKey := hNext .keys
  have hValue := hNext .values
  simp only [HashtableIterator.cookie] at hKey hValue
  rw [leaveEntry]
  cases traversal with
  | keys =>
    rw [← hKey]
    split <;> split <;> simp_all [HashtableIterator.cookie, getNextKey, getNextValue]
  | values =>
    rw [← hValue]
    split <;> split <;> simp_all [HashtableIterator.cookie, getNextKey, getNextValue]

theorem getNext_same (t : Table K V) (traversal : Traversal) (iter : HashtableIterator) :
    (t.getNext traversal iter).2.owned = iter.owned ∧
      (t.getNext traversal iter).2.backwards = iter.backwards := by
  cases traversal with
  | keys =>
    simp only [Table.getNext, getNextKey]
    split <;> exact ⟨rfl, rfl⟩
  | values =>
    simp only [Table.getNext, getNextValue]
    split <;> exact ⟨rfl, rfl⟩

theorem leaveEntry_same (t : Table K V) (e : Nat) (iter : HashtableIterator) :
    (t.leaveEntry e iter).owned = iter.owned ∧ (t.leaveEntry e iter).backwards = iter.backwards := by
  have hKey := t.getNext_same .keys iter
  have hValue := t.getNext_same .values (t.getNextKey iter).2
  have hOnly := t.getNext_same .values iter
  rw [leaveEntry]
  split <;> split
  · exact ⟨hValue.1.trans hKey.1, hValue.2.trans hKey.2⟩
  · exact hKey
  · exact hOnly
  · exact ⟨rfl, rfl⟩

/-- The entry `e` is removed from the table, and from what is left to return. -/
theorem Stands.removed (h : t.Stands order i left) (hIteration : t.IterationList order)
    (hNodup : order.Nodup) (hList : t'.iterList = t.iterList)
    (hIter : t'.iterators = t.onIterList (t.leaveEntry e)) :
    t'.Stands (order.filter (· ≠ e)) i fun traversal => (left traversal).filter (· ≠ e) := by
  rcases h with ⟨hi, hOwned, hPlace⟩ | ⟨hi, hOwned, hNone⟩
  · have hHere : t'.iterators i = t.leaveEntry e (t.iterators i) := by
      rw [hIter, onIterList, if_pos hi]
    obtain ⟨hSameOwned, hSameBackwards⟩ := t.leaveEntry_same e (t.iterators i)
    refine .inl ⟨hList ▸ hi, ?_, fun traversal => ⟨?_, ?_⟩⟩
    · rw [hHere, hSameOwned, hOwned]
    · rw [hHere]
      exact leaveEntry_cookie hIteration hNodup hOwned hPlace traversal
    · rw [hHere, hSameBackwards, direction_filter]
      exact (hPlace traversal).2.filter _
  · refine .inr ⟨hList ▸ hi, ?_, fun traversal => ?_⟩
    · rw [hIter, onIterList, if_neg hi, hOwned]
    · exact (congrArg (List.filter (· ≠ e)) (hNone traversal)).trans rfl

/-- `Clear` leaves nothing to return. -/
theorem Stands.cleared (h : t.Stands order i left) (hList : t'.iterList = [])
    (hIter : t'.iterators = t.onIterList orphan) : t'.Stands [] i fun _ => [] := by
  refine .inr ⟨by rw [hList]; exact List.not_mem_nil, ?_, fun _ => rfl⟩
  rw [hIter, onIterList]
  split
  · rfl
  · rename_i hi
    exact (h.resolve_left fun hIn => hi hIn.1).2.1

end

/-! ### Runs -/

section

variable (hEqual : KeyEquality functor t.keysEqual)
include hEqual

omit [Inhabited K] [Inhabited V] in
theorem Valid.key_inj (h : t.Valid functor order) {x y : Nat} (hx : x ∈ order) (hy : y ∈ order)
    (hKey : t.key x = t.key y) : x = y := by
  obtain ⟨-, -, free, chain, hSlots⟩ := h.slots_of_mem hx
  exact hSlots.distinct x hx y hy (hKey ▸ hEqual.refl _)

theorem Follows.remove {s : Cursor.State K} (h : t.Follows functor i traversal s) (key : K) :
    ∃ s', Cursor.Run s ((t.getKey functor key).toList.map .removed) s' ∧
      (t.removeAux functor key).1.Follows functor i traversal s' ∧ t.Keeps (t.removeAux functor key).1 := by
  obtain ⟨order, left, hValid, hStands, hPresent, hLeft⟩ := h
  rcases hValid.lookup_cases hEqual key with ⟨hLookup, -⟩ | ⟨a, e, b, hFound⟩
  · rw [removeAux_missing hLookup, getKey, hLookup]
    exact ⟨s, .nil, ⟨order, left, hValid, hStands, hPresent, hLeft⟩, ⟨rfl, rfl, rfl, rfl⟩⟩
  · obtain ⟨-, -, free, chain, hSlots⟩ := hValid.slots_of_mem hFound.mem
    have hNodup := hSlots.order_nodup
    have hIteration := hSlots.iteration
    obtain ⟨hValid', -⟩ := hFound.dropEntry_valid hValid
    rw [hFound.order_eq] at hSlots
    obtain ⟨hKey, -, hKeeps, hList, hIter, -⟩ := hSlots.dropEntry_spec hValid.size.1
    have hStands' := hStands.removed hIteration hNodup hList hIter
    have hFilter : order.filter (· ≠ e) = a ++ b := by
      rw [hFound.order_eq] at hNodup ⊢
      exact filter_ne_append hNodup
    rw [hFilter] at hStands'
    -- the other entries keep their keys
    have hMap : ∀ l : List Nat, (l.filter (· ≠ e)).map (t.dropEntry e).key =
        (l.filter (· ≠ e)).map t.key := by
      refine fun l => List.map_congr_left fun x hx => ?_
      rw [hKey, Function.update_of_ne (by simpa using (List.mem_filter.mp hx).2)]
    have hPresent' : (a ++ b).map (t.dropEntry e).key = a.map t.key ++ b.map t.key := by
      rw [← hFilter, hMap, hFilter, List.map_append]
    have hHere : s.present = a.map t.key ++ t.key e :: b.map t.key := by
      rw [hPresent, hFound.order_eq, List.map_append, List.map_cons]
    obtain ⟨present, stillLeft⟩ := s
    simp only at hHere hLeft
    subst hHere hLeft
    rw [removeAux_found hFound.lookup, getKey, hFound.lookup]
    refine ⟨⟨(a ++ b).map (t.dropEntry e).key, ((left traversal).filter (· ≠ e)).map (t.dropEntry e).key⟩,
      .cons ?_ .nil, ⟨a ++ b, _, hValid', hStands', rfl, rfl⟩, hKeeps.toKeeps⟩
    rw [hPresent', hMap]
    by_cases hIn : e ∈ left traversal
    · obtain ⟨u, v, hSplit⟩ := List.append_of_mem hIn
      have hNodupLeft : (left traversal).Nodup := by
        rcases hStands with ⟨-, -, hPlace⟩ | ⟨-, -, hNone⟩
        · exact (hPlace traversal).2.sublist.nodup (direction_nodup hNodup)
        · rw [hNone traversal]
          exact List.nodup_nil
      rw [hSplit] at hNodupLeft ⊢
      rw [filter_ne_append hNodupLeft, List.map_append, List.map_cons, List.map_append]
      exact .removed_left
    · have hAll : (left traversal).filter (· ≠ e) = left traversal :=
        List.filter_eq_self.mpr fun x hx => by
          have hxe : x ≠ e := fun hEq => hIn (hEq ▸ hx)
          simpa using hxe
      rw [hAll]
      refine .removed_passed fun hMem => ?_
      obtain ⟨x, hx, hSameKey⟩ := List.mem_map.mp hMem
      have hxOrder : x ∈ order := by
        rcases hStands with ⟨-, -, hPlace⟩ | ⟨-, -, hNone⟩
        · exact mem_direction.mp ((hPlace traversal).2.subset hx)
        · rw [hNone traversal] at hx
          cases hx
      exact hIn (hValid.key_inj hEqual hxOrder hFound.mem hSameKey ▸ hx)

theorem Follows.put {s : Cursor.State K} {fuel : Nat} (h : t.Follows functor i traversal s)
    (hMode : t.autoSortMode = .disabled) (hFuel : 2 ^ 33 ≤ fuel) (memory : Memory) (key : K) (value : V) :
    ∃ t' status previous s', t.put functor memory fuel key value = .ok (t', status, previous) ∧
      Cursor.Run s (if (t.getKey functor key).isNone ∧ status then [.added key] else []) s' ∧
      t'.Follows functor i traversal s' ∧ t.Keeps t' := by
  obtain ⟨depth, rfl⟩ : ∃ n, fuel = n + 2 := ⟨fuel - 2, by omega⟩
  obtain ⟨order, left, hValid, hStands, hPresent, hLeft⟩ := h
  rw [Table.put]
  rcases hValid.lookup_cases hEqual key with ⟨hLookup, -⟩ | ⟨a, e, b, hFound⟩
  · have hNew : ∀ e ∈ order, t.keysEqual (t.key e) key = false := by
      have hNone := hLookup
      rw [hValid.lookup_eq hEqual, List.find?_eq_none] at hNone
      exact fun e he => Bool.eq_false_iff.mpr (hNone e he)
    obtain ⟨t₁, clone, hResized, hRedirected, -, hResult⟩ := putsNew
      memory (depth + 1) hFuel t order key value hValid hEqual hMode hNew (.inl (by omega))
    have hStands₁ := hStands.redirected hResized.iterList hRedirected
    have hKeys : ∀ l : List Nat, (∀ x ∈ l, x ∈ order) → (l.map clone).map t₁.key = l.map t.key := by
      intro l hl
      rw [List.map_map]
      exact List.map_congr_left fun x hx => hResized.key x (hl x hx)
    have hSubset : ∀ x ∈ left traversal, x ∈ order := by
      intro x hx
      rcases hStands with ⟨-, -, hPlace⟩ | ⟨-, -, hNone⟩
      · exact mem_direction.mp ((hPlace traversal).2.subset hx)
      · rw [hNone traversal] at hx
        cases hx
    rw [getKey, hLookup]
    rcases hResult with ⟨hFail, -⟩ | ⟨t₂, e, hDone, -, hAppended⟩
    · rw [hFail, ok_bind]
      refine ⟨t₁, false, none, s, rfl, .nil, ⟨_, _, hResized.valid, hStands₁, ?_, ?_⟩, hResized.toKeeps⟩
      · rw [hPresent, hKeys order fun _ hx => hx]
      · rw [hLeft, hKeys _ hSubset]
    · rw [hDone, ok_bind]
      have hStands₂ := hStands₁.appended hAppended.iterList hAppended.iterators e
      have hOld : ∀ l : List Nat, (∀ x ∈ l, x ∈ order) →
          (l.map clone).map t₂.key = l.map t.key := by
        intro l hl
        rw [← hKeys l hl]
        refine List.map_congr_left fun x hx => ?_
        have hxe : x ≠ e := by
          rintro rfl
          obtain ⟨y, hy, hClone⟩ := List.mem_map.mp hx
          exact hAppended.fresh (hClone ▸ List.mem_map_of_mem (hl y hy))
        rw [hAppended.key, Function.update_of_ne hxe]
      have hHere : t₂.key e = key := by rw [hAppended.key, Function.update_self]
      obtain ⟨present, stillLeft⟩ := s
      simp only at hPresent hLeft
      subst hPresent hLeft
      have hFresh : key ∉ order.map t.key := by
        intro hMem
        obtain ⟨x, hx, rfl⟩ := List.mem_map.mp hMem
        have hSame := hNew x hx
        rw [hEqual.refl] at hSame
        cases hSame
      by_cases hEnd : (left traversal).map clone = [] ∨ (t₁.iterators i).backwards = true
      · refine ⟨t₂, true, none, ⟨order.map t.key ++ [key], (left traversal).map t.key⟩, rfl,
          .cons (.added_passed hFresh) .nil, ⟨_, _, hAppended.valid, hStands₂, ?_, ?_⟩,
          hResized.toKeeps.trans hAppended.toKeeps⟩
        · rw [List.map_append, hOld order fun _ hx => hx, List.map_singleton, hHere]
        · rw [if_pos hEnd, hOld _ hSubset]
      · refine ⟨t₂, true, none, ⟨order.map t.key ++ [key], (left traversal).map t.key ++ [key]⟩, rfl,
          .cons (.added_left hFresh ?_) .nil, ⟨_, _, hAppended.valid, hStands₂, ?_, ?_⟩,
          hResized.toKeeps.trans hAppended.toKeeps⟩
        · rw [not_or, List.map_eq_nil_iff] at hEnd
          exact fun hNil => hEnd.1 (List.map_eq_nil_iff.mp hNil)
        · rw [List.map_append, hOld order fun _ hx => hx, List.map_singleton, hHere]
        · rw [if_neg hEnd, List.map_append, hOld _ hSubset, List.map_singleton, hHere]
  · rw [putAux_found hValid hEqual hMode hFound, ok_bind, getKey, hFound.lookup]
    exact ⟨_, true, some (t.value e), s, rfl, .nil,
      ⟨order, left, hValid.congr rfl, hStands.congr Iff.rfl rfl, hPresent, hLeft⟩, ⟨rfl, rfl, rfl, rfl⟩⟩

/-- One operation, unless it starts or destroys the iterator. -/
theorem Follows.iterStep {s : Cursor.State K} {fuel : Nat}
    (h : t.Follows functor i traversal s) (hMode : t.autoSortMode = .disabled) (hFuel : 2 ^ 33 ≤ fuel)
    (memory : Memory) (op : IterOp K V) (hAlive : op.Spares i) :
    ∃ t' events s', t.iterStep functor memory fuel i traversal op = .ok (t', events) ∧
      Cursor.Run s events s' ∧ t'.Follows functor i traversal s' ∧ t.Keeps t' := by
  cases op with
  | start j backwards =>
    obtain ⟨order, left, hValid, hStands, hRest⟩ := h
    refine ⟨_, _, s, rfl, .nil, ⟨order, left, hValid.congr rfl, ?_, hRest⟩, ⟨rfl, rfl, rfl, rfl⟩⟩
    refine hStands.congr ?_ (Function.update_of_ne hAlive.symm ..)
    show i ∈ j :: t.iterList ↔ _
    rw [List.mem_cons, or_iff_right hAlive.symm]
  | destroy j =>
    obtain ⟨order, left, hValid, hStands, hRest⟩ := h
    rw [Table.iterStep, Table.destroy]
    split
    · refine ⟨_, _, s, rfl, .nil, ⟨order, left, hValid.congr rfl, hStands.congr ?_ rfl, hRest⟩,
        ⟨rfl, rfl, rfl, rfl⟩⟩
      show i ∈ t.iterList.filter (· ≠ j) ↔ _
      rw [List.mem_filter, and_iff_left (by simpa using hAlive.symm)]
    · exact ⟨t, [], s, rfl, .nil, ⟨order, left, hValid, hStands, hRest⟩, ⟨rfl, rfl, rfl, rfl⟩⟩
  | next j which =>
    obtain ⟨order, left, hValid, hStands, hPresent, hLeft⟩ := h
    by_cases hj : j = i
    · subst hj
      obtain ⟨iter, hNext, hStands'⟩ := hStands.getNext hValid.iterationList which
      have hValid' : (t.setIterator j iter).Valid functor order := hValid.congr rfl
      simp only [Table.iterStep, hNext, true_and]
      by_cases hWhich : which = traversal
      · subst hWhich
        rw [if_pos rfl]
        obtain ⟨present, stillLeft⟩ := s
        simp only at hPresent hLeft
        subst hPresent hLeft
        refine ⟨_, _, ⟨order.map t.key, (left which).tail.map t.key⟩, rfl, ?_,
          ⟨order, _, hValid', hStands', rfl, by rw [Function.update_self]; rfl⟩, ⟨rfl, rfl, rfl, rfl⟩⟩
        cases left which with
        | nil => exact .cons .finished .nil
        | cons x l => exact .cons .returned .nil
      · rw [if_neg hWhich]
        refine ⟨_, [], s, rfl, .nil, ⟨order, _, hValid', hStands', hPresent, ?_⟩, ⟨rfl, rfl, rfl, rfl⟩⟩
        rw [Function.update_of_ne (Ne.symm hWhich)]
        exact hLeft
    · simp only [Table.iterStep, hj, false_and, if_false]
      exact ⟨_, [], s, rfl, .nil, ⟨order, left, hValid.congr rfl,
        hStands.congr Iff.rfl (Function.update_of_ne (Ne.symm hj) ..), hPresent, hLeft⟩,
        ⟨rfl, rfl, rfl, rfl⟩⟩
  | put key value =>
    obtain ⟨t', status, previous, s', hRun, hCursor, hFollows, hKeeps⟩ := h.put hEqual hMode
      hFuel memory key value
    refine ⟨t', _, s', ?_, hCursor, hFollows, hKeeps⟩
    rw [Table.iterStep, hRun]
    rfl
  | remove key =>
    obtain ⟨s', hCursor, hFollows, hKeeps⟩ := h.remove hEqual key
    exact ⟨_, _, s', rfl, hCursor, hFollows, hKeeps⟩
  | clear releaseCachedBuffers =>
    obtain ⟨order, left, hValid, hStands, -⟩ := h
    obtain ⟨hCleared, hKeeps, hList, hIter⟩ := hValid.clear_spec releaseCachedBuffers
    exact ⟨_, _, _, rfl, .cons .cleared .nil, ⟨[], _, hCleared, hStands.cleared hList hIter, rfl, rfl⟩, hKeeps⟩

end

/-- A run of operations. -/
theorem Follows.iterRun {s : Cursor.State K} {fuel : Nat} (h : t.Follows functor i traversal s)
    (hEqual : KeyEquality functor t.keysEqual) (hMode : t.autoSortMode = .disabled)
    (hFuel : 2 ^ 33 ≤ fuel) (ops : List (Memory × IterOp K V)) (hAlive : ∀ op ∈ ops, op.2.Spares i) :
    ∃ t' log s', t.iterRun functor fuel i traversal ops = .ok (t', log) ∧ Cursor.Run s log s' := by
  induction ops generalizing t s with
  | nil => exact ⟨t, [], s, rfl, .nil⟩
  | cons first ops ih =>
    obtain ⟨memory, op⟩ := first
    obtain ⟨t₁, events, s₁, hRun, hCursor, hFollows, hKeeps⟩ := h.iterStep hEqual hMode hFuel
      memory op (hAlive (memory, op) (List.mem_cons_self ..))
    obtain ⟨t₂, log, s₂, hRest, hCursor'⟩ := ih hFollows (hKeeps.keysEqual ▸ hEqual)
      (hKeeps.autoSortMode.trans hMode) fun op hMem => hAlive op (List.mem_cons_of_mem _ hMem)
    refine ⟨t₂, events ++ log, s₂, ?_, hCursor.append hCursor'⟩
    rw [Table.iterRun, hRun, ok_bind]
    simp only
    rw [hRest]
    rfl

omit [Inhabited K] [Inhabited V] in
theorem Valid.keys_nodup (h : t.Valid functor order) (hEqual : KeyEquality functor t.keysEqual) :
    (order.map t.key).Nodup := by
  refine List.Nodup.map_on (fun x hx y hy hKey => h.key_inj hEqual hx hy hKey) ?_
  by_cases hTable : t.hasTable = true
  · obtain ⟨-, free, chain, hSlots⟩ := h.allocated hTable
    exact hSlots.order_nodup
  · rw [(h.unallocated (by simpa using hTable)).1]
    exact List.nodup_nil

omit [Inhabited K] [Inhabited V] in
/-- A new iterator has still to return all. -/
theorem Valid.stands_start (h : t.Valid functor order) (i : Nat) (backwards : Bool) :
    (t.start i backwards).Stands order i fun _ => direction backwards order := by
  have hIteration := h.iterationList
  refine .inl ⟨List.mem_cons_self .., ?_, ?_⟩
  · show (Function.update t.iterators i _ i).owned = true
    rw [Function.update_self]
    rfl
  · intro which
    show (Function.update t.iterators i _ i).cookie which = _ ∧
      _ <:+ direction (Function.update t.iterators i _ i).backwards order
    rw [Function.update_self]
    refine ⟨?_, List.suffix_refl _⟩
    have hFirst : (if backwards then t.iterTail else t.iterHead) = (direction backwards order).head? := by
      cases backwards with
      | false => exact hIteration.head
      | true => exact hIteration.tail.trans (List.head?_reverse ..).symm
    cases which <;> exact hFirst

omit [Inhabited K] [Inhabited V] in
theorem Valid.start (h : t.Valid functor order) (i : Nat) (backwards : Bool) :
    (t.start i backwards).Follows functor i traversal
      ⟨order.map t.key, (direction backwards order).map t.key⟩ :=
  ⟨order, fun _ => direction backwards order, h.congr rfl, h.stands_start i backwards, rfl, rfl⟩

theorem Valid.safe (h : t.Valid functor order) (hEqual : KeyEquality functor t.keysEqual)
    (hMode : t.autoSortMode = .disabled) {fuel : Nat} (hFuel : 2 ^ 33 ≤ fuel) (i : Nat) (backwards : Bool)
    (traversal : Traversal) (ops : List (Memory × IterOp K V)) (hAlive : ∀ op ∈ ops, op.2.Spares i) :
    ∃ t' log, (t.start i backwards).iterRun functor fuel i traversal ops = .ok (t', log) ∧
      Cursor.Safe (order.map t.key) log := by
  obtain ⟨t', log, s', hRun, hCursor⟩ := (h.start i backwards).iterRun hEqual hMode
    hFuel ops hAlive
  have hNodup := h.keys_nodup hEqual
  have hMem : ∀ a, a ∈ (direction backwards order).map t.key ↔ a ∈ order.map t.key := by
    intro a
    simp only [List.mem_map, mem_direction]
  refine ⟨t', log, hRun, hCursor.safe ⟨hNodup, ?_, fun a ha => (hMem a).mp ha⟩ fun a ha => (hMem a).mpr ha⟩
  cases backwards with
  | false => exact hNodup
  | true =>
    show (order.reverse.map t.key).Nodup
    rw [List.map_reverse]
    exact List.nodup_reverse.mpr hNodup

/-- The tables that operations and iterators lead to. -/
inductive Reachable (functor : K → UInt32) (fuel : Nat) : Table K V → Prop where
  | new (initialCapacity : UInt32) (hCapacity : 0 < initialCapacity.toNat) :
    Reachable functor fuel (Table.new initialCapacity.toNat)
  | exec {t t' : Table K V} {memory : Memory} {op : Op K V} {outcome : Outcome V}
    (h : Reachable functor fuel t) (hOp : op.Comparable)
    (hRun : t.exec functor memory fuel op = .ok (t', outcome)) : Reachable functor fuel t'
  | iterStep {t t' : Table K V} {memory : Memory} {i : Nat} {traversal : Traversal} {op : IterOp K V}
    {events : List (Cursor.Event K)} (h : Reachable functor fuel t)
    (hRun : t.iterStep functor memory fuel i traversal op = .ok (t', events)) :
    Reachable functor fuel t'

theorem Valid.iterStep {memory : Memory} {fuel : Nat} (h : t.Valid functor order)
    (hFunc : t.userKeyCompareFunc = none) (hMode : t.autoSortMode = .disabled)
    (hEqual : KeyEquality functor (· == · : K → K → Bool)) (hFuel : 2 ^ 33 ≤ fuel) {op : IterOp K V}
    {events : List (Cursor.Event K)}
    (hRun : t.iterStep functor memory fuel i traversal op = .ok (t', events)) :
    (∃ order', t'.Valid functor order') ∧ t.Keeps t' := by
  have hEq : KeyEquality functor t.keysEqual := keysEqual_eq hFunc ▸ hEqual
  cases op with
  | start j backwards =>
    cases hRun
    exact ⟨⟨order, h.congr rfl⟩, ⟨rfl, rfl, rfl, rfl⟩⟩
  | destroy j =>
    cases hRun
    rw [Table.destroy]
    split
    · exact ⟨⟨order, h.congr rfl⟩, ⟨rfl, rfl, rfl, rfl⟩⟩
    · exact ⟨⟨order, h⟩, ⟨rfl, rfl, rfl, rfl⟩⟩
  | next j which =>
    cases hRun
    exact ⟨⟨order, h.congr rfl⟩, ⟨rfl, rfl, rfl, rfl⟩⟩
  | put key value =>
    obtain ⟨t₁, status, previous, hPut, hKeeps, hResult⟩ := h.put_spec hEq hMode hFuel memory key value
    rw [Table.iterStep, hPut] at hRun
    cases hRun
    rcases hResult with ⟨-, ⟨order', hValid, -⟩, -⟩ | ⟨-, ⟨order', hValid, -⟩, -⟩
    · exact ⟨⟨order', hValid⟩, hKeeps⟩
    · exact ⟨⟨order', hValid⟩, hKeeps⟩
  | remove key =>
    obtain ⟨⟨order', hValid, -⟩, -, hKeeps⟩ := h.removeAux_spec hEq key
    cases hRun
    exact ⟨⟨order', hValid⟩, hKeeps.toKeeps⟩
  | clear releaseCachedBuffers =>
    obtain ⟨hValid, hKeeps, -⟩ := h.clear_spec releaseCachedBuffers
    cases hRun
    exact ⟨⟨[], hValid⟩, hKeeps⟩

theorem Reachable.valid {fuel : Nat} (h : Reachable functor fuel t)
    (hEqual : KeyEquality functor (· == · : K → K → Bool)) (hFuel : 2 ^ 33 ≤ fuel) :
    (∃ order, t.Valid functor order) ∧ t.userKeyCompareFunc = none ∧ t.autoSortMode = .disabled := by
  induction h with
  | new initialCapacity hCapacity =>
    exact ⟨⟨[], Valid.new hCapacity initialCapacity.toNat_lt⟩, rfl, rfl⟩
  | @exec t t' memory op outcome _ hOp hRun ih =>
    obtain ⟨⟨order, hValid⟩, hFunc, hMode⟩ := ih
    obtain ⟨t₁, outcome₁, hRun₁, hKeeps, hResult⟩ := hValid.exec_spec hFunc hMode hEqual hFuel
      op hOp
    rw [hRun] at hRun₁
    cases hRun₁
    refine ⟨?_, hKeeps.userKeyCompareFunc.trans hFunc, hKeeps.autoSortMode.trans hMode⟩
    rcases hResult with ⟨-, order', hValid', -⟩ | ⟨-, -, order', hValid', -⟩
    · exact ⟨order', hValid'⟩
    · exact ⟨order', hValid'⟩
  | iterStep _ hRun ih =>
    obtain ⟨⟨order, hValid⟩, hFunc, hMode⟩ := ih
    obtain ⟨hValid', hKeeps⟩ := hValid.iterStep hFunc hMode hEqual hFuel hRun
    exact ⟨hValid', hKeeps.userKeyCompareFunc.trans hFunc, hKeeps.autoSortMode.trans hMode⟩

end Table

end BeShare.Muscle.Hashtable
