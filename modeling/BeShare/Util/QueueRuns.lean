import BeShare.Util.QueueParts

/-!
Runs of operations on queues. As long as no step is one of those that the queue gets wrong, every queue holds what the
same operations make of a list.
-/

namespace BeShare.Muscle.Queues

open Queue

variable {ι α : Type} [DecidableEq ι] [Inhabited α]

/-- The operations, by the queues that they are on. -/
inductive Op (ι α : Type) where
  | addHead (i : ι) (item : α)
  | addTail (i : ι) (item : α)
  | removeHead (i : ι)
  | removeTail (i : ι)
  | insertItemAt (i : ι) (index : UInt32) (item : α)
  | removeItemAt (i : ι) (index : UInt32)
  | replaceItemAt (i : ι) (index : UInt32) (item : α)
  | addHeadOf (i j : ι) (startIndex count : UInt32)
  | addTailOf (i j : ι) (startIndex count : UInt32)
  | ensureSize (i : ι) (size : UInt32) (setNumItems : Bool) (extraPreallocs : UInt32)
  | clear (i : ι) (releaseCachedBuffers : Bool)
  | swapContents (i j : ι)
  | reverseItemOrdering (i : ι) (first toIndex : UInt32)

/-- How queue `i` reads an item of queue `j`: its own as they are by then. -/
def readFrom (t : ι → Queue α) (i j : ι) (q : Queue α) : Nat → α :=
  if j = i then q.getItemAt else (t j).getItemAt

/-- An operation. A queue that is swapped with itself stays what it is. -/
def step (t : ι → Queue α) : Op ι α → Option (ι → Queue α)
  | .addHead i item => some (Function.update t i ((t i).addHead item))
  | .addTail i item => some (Function.update t i ((t i).addTail item))
  | .removeHead i => some (Function.update t i (t i).removeHead)
  | .removeTail i => some (Function.update t i (t i).removeTail)
  | .insertItemAt i index item => some (Function.update t i ((t i).insertItemAt index.toNat item))
  | .removeItemAt i index => some (Function.update t i ((t i).removeItemAt index.toNat))
  | .replaceItemAt i index item => some (Function.update t i ((t i).replaceItemAt index.toNat item))
  | .addHeadOf i j startIndex count =>
    ((t i).addHeadOf (t j).itemCount (readFrom t i j) startIndex.toNat count.toNat).map (Function.update t i)
  | .addTailOf i j startIndex count =>
    some (Function.update t i ((t i).addTailOf (t j).itemCount (readFrom t i j) startIndex.toNat count.toNat))
  | .ensureSize i size setNumItems extraPreallocs =>
    some (Function.update t i ((t i).ensureSize size.toNat setNumItems extraPreallocs.toNat))
  | .clear i releaseCachedBuffers => some (Function.update t i ((t i).clear releaseCachedBuffers))
  | .swapContents i j =>
    if i = j then some t
    else some (Function.update (Function.update t i ((t i).swapContents (t j)).1) j ((t i).swapContents (t j)).2)
  | .reverseItemOrdering i first toIndex =>
    some (Function.update t i ((t i).reverseItemOrdering first.toNat toIndex.toNat))

/-- The list cut off at the size, or filled up to it with defaults. -/
def resize (l : List α) (size : Nat) : List α :=
  l.take size ++ List.replicate (size - l.length) default

/-- What the operation is for lists. -/
def listStep (lists : ι → List α) : Op ι α → (ι → List α)
  | .addHead i item => Function.update lists i (item :: lists i)
  | .addTail i item => Function.update lists i (lists i ++ [item])
  | .removeHead i => Function.update lists i (lists i).tail
  | .removeTail i => Function.update lists i (lists i).dropLast
  | .insertItemAt i index item => Function.update lists i ((lists i).insertIdx index.toNat item)
  | .removeItemAt i index => Function.update lists i ((lists i).eraseIdx index.toNat)
  | .replaceItemAt i index item => Function.update lists i ((lists i).set index.toNat item)
  | .addHeadOf i j startIndex count =>
    Function.update lists i (((lists j).drop startIndex.toNat).take count.toNat ++ lists i)
  | .addTailOf i j startIndex count =>
    Function.update lists i (lists i ++ ((lists j).drop startIndex.toNat).take count.toNat)
  | .ensureSize i size setNumItems _ =>
    Function.update lists i (if setNumItems then resize (lists i) size.toNat else lists i)
  | .clear i _ => Function.update lists i []
  | .swapContents i j => fun k => if k = i then lists j else if k = j then lists i else lists k
  | .reverseItemOrdering i first toIndex =>
    Function.update lists i (reverseRange (lists i) first.toNat (min toIndex.toNat (lists i).length))

/-- The step is none of those that go wrong: a queue that puts more than one of its own items before itself, items that
are to be defaults in slots of the inline array that are not, an end of 0 for a range that is reversed, and what does
not fit the numbers. -/
def Right (t : ι → Queue α) : Op ι α → Prop
  | .addHead i _ => (t i).Room ((t i).itemCount + 1) ((t i).itemCount + 1)
  | .addTail i _ => (t i).Room ((t i).itemCount + 1) ((t i).itemCount + 1)
  | .insertItemAt i index _ =>
    index.toNat ≤ (t i).itemCount → (t i).Room ((t i).itemCount + 1) ((t i).itemCount + 1)
  | .addHeadOf i j startIndex count =>
    startIndex.toNat ≠ 2 ^ 31 ∧ (j = i → numNewItems (t j).itemCount startIndex.toNat count.toNat ≤ 1) ∧
      (t i).Room ((t i).itemCount + numNewItems (t j).itemCount startIndex.toNat count.toNat) 0
  | .addTailOf i j startIndex count =>
    (t i).Room ((t i).itemCount + numNewItems (t j).itemCount startIndex.toNat count.toNat) 0
  | .ensureSize i size setNumItems extraPreallocs =>
    (t i).Room size.toNat extraPreallocs.toNat ∧
      (setNumItems = true → (t i).itemCount < size.toNat → (t i).CleanFor size.toNat extraPreallocs.toNat)
  | .reverseItemOrdering i first toIndex => toIndex.toNat ≠ 0 ∨ (t i).itemCount ≤ first.toNat + 1
  | _ => True

section Decidable

variable [DecidableEq α]

instance Room.instDecidable (q : Queue α) (size extraPreallocs : Nat) : Decidable (q.Room size extraPreallocs) :=
  inferInstanceAs (Decidable (q.isNull = false ∧ size ≤ q.queueSize ∨
    max q.initialSize (max smallQueueSize (size + extraPreallocs)) ≤ 2 ^ 31))

instance CleanFor.instDecidable (q : Queue α) (size extraPreallocs : Nat) :
    Decidable (q.CleanFor size extraPreallocs) :=
  inferInstanceAs (Decidable ((q.isNull = true → q.initialSize ≤ smallQueueSize →
      size + extraPreallocs ≤ smallQueueSize → ∀ i < size, q.smallQueue i = default) ∧
    (q.isSmall = true → size ≤ smallQueueSize → ∀ i, q.itemCount ≤ i → i < size →
      q.smallQueue ((q.headIndex + i) % smallQueueSize) = default)))

instance Right.instDecidable (t : ι → Queue α) : (op : Op ι α) → Decidable (Right t op)
  | .addHead i _ => inferInstanceAs (Decidable ((t i).Room _ _))
  | .addTail i _ => inferInstanceAs (Decidable ((t i).Room _ _))
  | .insertItemAt _ _ _ => inferInstanceAs (Decidable (_ → Queue.Room _ _ _))
  | .addHeadOf _ _ _ _ => inferInstanceAs (Decidable (_ ∧ (_ → _) ∧ Queue.Room _ _ _))
  | .addTailOf _ _ _ _ => inferInstanceAs (Decidable (Queue.Room _ _ _))
  | .ensureSize _ _ _ _ => inferInstanceAs (Decidable (Queue.Room _ _ _ ∧ (_ → _ → Queue.CleanFor _ _ _)))
  | .reverseItemOrdering _ _ _ => inferInstanceAs (Decidable (_ ∨ _))
  | .removeHead _ => instDecidableTrue
  | .removeTail _ => instDecidableTrue
  | .removeItemAt _ _ => instDecidableTrue
  | .replaceItemAt _ _ _ => instDecidableTrue
  | .clear _ _ => instDecidableTrue
  | .swapContents _ _ => instDecidableTrue

end Decidable

/-- All queues hold the items of their lists. -/
def Same (t : ι → Queue α) (lists : ι → List α) : Prop :=
  ∀ i, (t i).Holds (lists i)

theorem Same.update {t : ι → Queue α} {lists : ι → List α} (h : Same t lists) (i : ι) {q : Queue α} {l : List α}
    (hHolds : q.Holds l) : Same (Function.update t i q) (Function.update lists i l) := by
  intro k
  by_cases hk : k = i
  · rw [hk, Function.update_self, Function.update_self]
    exact hHolds
  · rw [Function.update_of_ne hk, Function.update_of_ne hk]
    exact h k

omit [DecidableEq ι] in
theorem Same.ensureSize {t : ι → Queue α} {lists : ι → List α} (h : Same t lists) {i : ι} {size extra : Nat}
    {setNumItems : Bool} (hRoom : (t i).Room size extra)
    (hClean : setNumItems = true → (t i).itemCount < size → (t i).CleanFor size extra) :
    ((t i).ensureSize size setNumItems extra).Holds (if setNumItems then resize (lists i) size else lists i) := by
  have hCount := (h i).itemCount
  cases setNumItems with
  | false => exact ((h i).ensureSize hRoom).1
  | true =>
    rw [if_pos rfl]
    rcases Nat.lt_or_ge (lists i).length size with hMore | hLess
    · obtain ⟨pad, hPad, hHolds, hDefaults⟩ := (h i).ensureSize_pad hRoom (Nat.le_of_lt hMore)
      rw [hDefaults (hClean rfl (by omega)), hPad] at hHolds
      unfold resize
      rwa [List.take_of_length_le (Nat.le_of_lt hMore)]
    · unfold resize
      rw [Nat.sub_eq_zero_of_le hLess, List.replicate_zero, List.append_nil]
      exact (h i).ensureSize_cut hRoom hLess

/-- A step that does not go wrong does to the queues what it does to the lists. -/
theorem Same.step {t : ι → Queue α} {lists : ι → List α} (h : Same t lists) {op : Op ι α} (hRight : Right t op) :
    ∃ t', step t op = some t' ∧ Same t' (listStep lists op) := by
  cases op with
  | addHead i item => exact ⟨_, rfl, h.update i ((h i).addHead hRight item)⟩
  | addTail i item => exact ⟨_, rfl, h.update i ((h i).addTail hRight item)⟩
  | removeHead i => exact ⟨_, rfl, h.update i (h i).removeHead⟩
  | removeTail i => exact ⟨_, rfl, h.update i (h i).removeTail⟩
  | insertItemAt i index item => exact ⟨_, rfl, h.update i ((h i).insertItemAt hRight item)⟩
  | removeItemAt i index => exact ⟨_, rfl, h.update i ((h i).removeItemAt index.toNat)⟩
  | replaceItemAt i index item => exact ⟨_, rfl, h.update i ((h i).replaceItemAt index.toNat item)⟩
  | addHeadOf i j startIndex count =>
    obtain ⟨hStart, hOwn, hRoom⟩ := hRight
    have hCount := (h j).itemCount
    rw [hCount] at hOwn hRoom
    have hRead : ∀ p rest, Queue.Holds p (rest ++ lists i) →
        rest.length < numNewItems (lists j).length startIndex.toNat count.toNat →
        ∀ k (hk : k < (lists j).length), readFrom t i j p k = (lists j)[k] := by
      intro p rest hp hRest k hk
      unfold readFrom
      split
      next hSelf =>
        have hOne := hOwn hSelf
        have hNone : rest = [] := List.length_eq_zero_iff.mp (by omega)
        subst hSelf
        rw [hNone] at hp
        exact hp.getItemAt hk
      next => exact (h j).getItemAt hk
    obtain ⟨q, hAdd, hHolds⟩ := (h i).addHeadOf hStart hRead hRoom
    refine ⟨Function.update t i q, ?_, h.update i hHolds⟩
    unfold Queues.step
    dsimp only
    rw [hCount, hAdd]
    rfl
  | addTailOf i j startIndex count =>
    have hCount := (h j).itemCount
    unfold Right at hRight
    dsimp only at hRight
    rw [hCount] at hRight
    have hHolds := (h i).addTailOf (lists j) (readFrom t i j) startIndex.toNat count.toNat
      (fun p rest hp k hk => ?_) hRight
    · refine ⟨_, rfl, ?_⟩
      rw [hCount]
      exact h.update i hHolds
    · unfold readFrom
      split
      next hSelf =>
        subst hSelf
        exact hp.getItemAt_eq (by rw [List.getElem?_append_left hk, List.getElem?_eq_getElem hk])
      next => exact (h j).getItemAt hk
  | ensureSize i size setNumItems extra => exact ⟨_, rfl, h.update i (h.ensureSize hRight.1 hRight.2)⟩
  | clear i release => exact ⟨_, rfl, h.update i ((h i).clear release)⟩
  | swapContents i j =>
    unfold Queues.step
    dsimp only
    split
    next hSelf =>
      refine ⟨t, rfl, fun k => ?_⟩
      change (t k).Holds (if k = i then lists j else if k = j then lists i else lists k)
      split
      next hk =>
        rw [hk, hSelf]
        exact h j
      next hk =>
        rw [if_neg (by rwa [← hSelf])]
        exact h k
    next hOther =>
      obtain ⟨hFirst, hSecond⟩ := (h i).swapContents (h j)
      refine ⟨_, rfl, fun k => ?_⟩
      change Queue.Holds _ (if k = i then lists j else if k = j then lists i else lists k)
      by_cases hj : k = j
      · have hi : ¬j = i := fun hNo => hOther hNo.symm
        rw [hj, Function.update_self, if_neg hi, if_pos rfl]
        exact hSecond
      · rw [Function.update_of_ne hj]
        by_cases hi : k = i
        · rw [hi, Function.update_self, if_pos rfl]
          exact hFirst
        · rw [Function.update_of_ne hi, if_neg hi, if_neg hj]
          exact h k
  | reverseItemOrdering i first toIndex =>
    refine ⟨_, rfl, h.update i ((h i).reverseItemOrdering toIndex.toNat_lt ?_)⟩
    rw [← (h i).itemCount]
    exact hRight

/-- Every step of the run is right, in the state it is made in. -/
def RightRun : (ι → Queue α) → List (Op ι α) → Prop
  | _, [] => True
  | t, op :: ops => Right t op ∧ (step t op).elim True fun t' => RightRun t' ops

instance RightRun.instDecidable [DecidableEq α] (t : ι → Queue α) (ops : List (Op ι α)) :
    Decidable (RightRun t ops) :=
  match ops with
  | [] => instDecidableTrue
  | op :: ops =>
    have : Decidable ((step t op).elim True fun t' => RightRun t' ops) :=
      match step t op with
      | none => instDecidableTrue
      | some t' => RightRun.instDecidable t' ops
    inferInstanceAs (Decidable (Right t op ∧ (step t op).elim True fun t' => RightRun t' ops))

theorem Same.run {t : ι → Queue α} {lists : ι → List α} (h : Same t lists) (ops : List (Op ι α))
    (hRight : RightRun t ops) : ∃ t', ops.foldlM Queues.step t = some t' ∧ Same t' (ops.foldl listStep lists) := by
  induction ops generalizing t lists with
  | nil => exact ⟨t, rfl, h⟩
  | cons op ops ih =>
    obtain ⟨t', hStep, hSame⟩ := h.step hRight.1
    have hRest := hRight.2
    rw [hStep] at hRest
    obtain ⟨t'', hRun, hAll⟩ := ih hSame hRest
    refine ⟨t'', ?_, hAll⟩
    rw [List.foldlM_cons, hStep]
    exact hRun

/-- The items of a queue. -/
def contents (q : Queue α) : List α := (List.range q.itemCount).map q.getItemAt

theorem contents_eq {q : Queue α} {l : List α} (h : q.Holds l) : contents q = l := by
  unfold contents
  rw [h.itemCount]
  refine List.ext_getElem (by rw [List.length_map, List.length_range]) fun i hi hi' => ?_
  rw [List.getElem_map, List.getElem_range, h.getItemAt hi']

/-- New queues, each with its initial size, and with indices that are not set yet. -/
def newQueues (initialSize headIndex tailIndex : ι → UInt32) : ι → Queue α :=
  fun i => Queue.new (initialSize i).toNat (headIndex i).toNat (tailIndex i).toNat

omit [DecidableEq ι] in
theorem same_newQueues (initialSize headIndex tailIndex : ι → UInt32) :
    Same (newQueues initialSize headIndex tailIndex) fun _ => ([] : List α) :=
  fun _ => ⟨rfl, Nat.zero_le _, Nat.zero_le _, fun _ => rfl, nofun, nofun, nofun, nofun, nofun⟩

end BeShare.Muscle.Queues
