import BeShare.Util.Queue

/-!
What the operations of a queue do to the list of its items. The slots that hold no item are defaults in an array of the
heap, and may be anything in the inline one, which keeps what it held when its queue took over another's array.
-/

namespace BeShare.Muscle.Queues

namespace Queue

open BeShare.Lib

variable {α : Type} [Inhabited α] {q : Queue α} {l : List α} {i j : Nat} {x : α}

/-- The queue holds the items of the list. -/
structure Holds (q : Queue α) (l : List α) : Prop where
  itemCount : q.itemCount = l.length
  count_le : l.length ≤ q.queueSize
  size_le : q.queueSize ≤ 2 ^ 31
  null : q.queueSize = 0 → q.isNull = true
  item : ∀ i (h : i < l.length), q.slots ((q.headIndex + i) % q.queueSize) = l[i]
  head : 0 < q.queueSize → q.headIndex < q.queueSize
  tail : 0 < q.queueSize → q.tailIndex < q.queueSize ∧
    (q.tailIndex + 1) % q.queueSize = (q.headIndex + l.length) % q.queueSize ∨
    l.length = 0 ∧ q.headIndex = 0 ∧ q.tailIndex = 2 ^ 32 - 1
  big : q.isSmall = false → 0 < q.queueSize → smallQueueSize < q.queueSize
  unused : q.isSmall = false → ∀ i, l.length ≤ i → i < q.queueSize →
    q.slots ((q.headIndex + i) % q.queueSize) = default

theorem word_of_lt {n : Nat} (h : n < 2 ^ 32) : word n = n := Nat.mod_eq_of_lt h

/-! ### Slots -/

omit [Inhabited α] in
@[simp] theorem setSlot_itemCount : (q.setSlot i x).itemCount = q.itemCount := by
  unfold setSlot
  split <;> rfl

omit [Inhabited α] in
@[simp] theorem setSlot_headIndex : (q.setSlot i x).headIndex = q.headIndex := by
  unfold setSlot
  split <;> rfl

omit [Inhabited α] in
@[simp] theorem setSlot_tailIndex : (q.setSlot i x).tailIndex = q.tailIndex := by
  unfold setSlot
  split <;> rfl

omit [Inhabited α] in
@[simp] theorem setSlot_initialSize : (q.setSlot i x).initialSize = q.initialSize := by
  unfold setSlot
  split <;> rfl

omit [Inhabited α] in
@[simp] theorem setSlot_queueSize : (q.setSlot i x).queueSize = q.queueSize := by
  unfold setSlot queueSize
  cases q.queue <;> rfl

omit [Inhabited α] in
@[simp] theorem setSlot_slots : (q.setSlot i x).slots = Function.update q.slots i x := by
  unfold setSlot slots
  cases q.queue <;> rfl

omit [Inhabited α] in
@[simp] theorem setSlot_isNull : (q.setSlot i x).isNull = q.isNull := by
  unfold setSlot isNull
  cases q.queue <;> simp

omit [Inhabited α] in
@[simp] theorem setSlot_isSmall : (q.setSlot i x).isSmall = q.isSmall := by
  unfold setSlot isSmall
  cases q.queue <;> simp

section Indices

variable (count head tail : Nat)

omit [Inhabited α] in
@[simp] theorem mk_queueSize :
    (Queue.mk q.smallQueue q.queue count head tail q.initialSize).queueSize = q.queueSize := rfl

omit [Inhabited α] in
@[simp] theorem mk_slots : (Queue.mk q.smallQueue q.queue count head tail q.initialSize).slots = q.slots := rfl

omit [Inhabited α] in
@[simp] theorem mk_isSmall : (Queue.mk q.smallQueue q.queue count head tail q.initialSize).isSmall = q.isSmall := rfl

omit [Inhabited α] in
@[simp] theorem mk_isNull : (Queue.mk q.smallQueue q.queue count head tail q.initialSize).isNull = q.isNull := rfl

end Indices

omit [Inhabited α] in
theorem nextIndex_eq (hi : i < q.queueSize) : q.nextIndex i = (i + 1) % q.queueSize := by
  unfold nextIndex
  split
  · rw [show i + 1 = q.queueSize by omega, Nat.mod_self]
  · rw [Nat.mod_eq_of_lt (by omega)]

omit [Inhabited α] in
theorem prevIndex_eq (hi : i < q.queueSize) : q.prevIndex i = (i + (q.queueSize - 1)) % q.queueSize := by
  unfold prevIndex
  split
  · rw [Nat.mod_eq_of_lt (by omega)]
    omega
  · rw [show i + (q.queueSize - 1) = i - 1 + q.queueSize by omega, Nat.add_mod_right, Nat.mod_eq_of_lt (by omega)]

omit [Inhabited α] in
theorem prevIndex_succ (hi : i < q.queueSize) : (q.prevIndex i + 1) % q.queueSize = i := by
  rw [prevIndex_eq hi]
  have hPrev : ((i + (q.queueSize - 1)) % q.queueSize + (0 + 1)) % q.queueSize = (i + 0) % q.queueSize :=
    ring_prev (by omega) 0
  rwa [ring_zero hi] at hPrev

/-- Where an item is. -/
theorem Holds.internalizeIndex (h : q.Holds l) (hi : i < q.queueSize) :
    q.internalizeIndex i = (q.headIndex + i) % q.queueSize := by
  have hSize := h.size_le
  have hHead := h.head (by omega)
  unfold Queue.internalizeIndex
  rw [word_of_lt (by omega)]

theorem Holds.getItemAt (h : q.Holds l) (hi : i < l.length) : q.getItemAt i = l[i] := by
  have hSize := h.count_le
  unfold Queue.getItemAt
  rw [h.internalizeIndex (by omega), h.item i hi]

theorem Holds.getItemAt_eq (h : q.Holds l) (hItem : l[i]? = some x) : q.getItemAt i = x := by
  obtain ⟨hi, hIs⟩ := List.getElem?_eq_some_iff.mp hItem
  rw [h.getItemAt hi, hIs]

/-- The last item's slot. -/
theorem Holds.tailIndex (h : q.Holds l) (hPos : 0 < l.length) :
    q.tailIndex = (q.headIndex + (l.length - 1)) % q.queueSize := by
  have hSize := h.count_le
  rcases h.tail (by omega) with ⟨hLt, hTail⟩ | hNone
  · have hMod : q.tailIndex + 1 ≡ q.headIndex + (l.length - 1) + 1 [MOD q.queueSize] := by
      rw [show q.headIndex + (l.length - 1) + 1 = q.headIndex + l.length by omega]
      exact hTail
    have hSame := Nat.ModEq.add_right_cancel' 1 hMod
    rwa [Nat.ModEq, Nat.mod_eq_of_lt hLt] at hSame
  · omega

/-- A write to a slot, with other indices: what must hold of the items and of the slots without one. -/
theorem Holds.write (h : q.Holds l) (l' : List α) (count head tail k : Nat) (x : α) (hk : k < q.queueSize)
    (hCount : count = l'.length) (hLe : l'.length ≤ q.queueSize) (hHead : head < q.queueSize)
    (hTail : tail < q.queueSize ∧ (tail + 1) % q.queueSize = (head + l'.length) % q.queueSize)
    (hItem : ∀ i (hi : i < l'.length), (if i = k then x else q.slots ((head + i) % q.queueSize)) = l'[i])
    (hUnused : q.isSmall = false → ∀ i, l'.length ≤ i → i < q.queueSize →
      (if i = k then x else q.slots ((head + i) % q.queueSize)) = default) :
    ({ q with itemCount := count, headIndex := head, tailIndex := tail }.setSlot ((head + k) % q.queueSize) x).Holds
      l' where
  itemCount := by simpa using hCount
  count_le := by simpa using hLe
  size_le := by simpa using h.size_le
  null := by simpa using h.null
  item i hi := by
    simp only [setSlot_slots, setSlot_headIndex, setSlot_queueSize, mk_slots, mk_queueSize]
    rw [ring_update hk (by omega)]
    exact hItem i hi
  head _ := by simpa using hHead
  tail _ := by simpa using Or.inl hTail
  big := by simpa using h.big
  unused hSmall i hLe hi := by
    simp only [setSlot_isSmall, setSlot_slots, setSlot_headIndex, setSlot_queueSize, mk_slots, mk_queueSize,
      mk_isSmall] at hSmall hi ⊢
    rw [ring_update hk hi]
    exact hUnused hSmall i hLe hi

/-! ### Single items -/

theorem Holds.removeTail (h : q.Holds l) : q.removeTail.Holds l.dropLast := by
  unfold Queue.removeTail
  have hCount := h.itemCount
  have hLe := h.count_le
  split
  next hNone =>
    have hNil : l = [] := List.length_eq_zero_iff.mp (by omega)
    rw [hNil] at h ⊢
    exact h
  next hSome =>
    have hTail := h.tailIndex (by omega)
    have hLt : q.tailIndex < q.queueSize := by
      rw [hTail]
      exact Nat.mod_lt _ (by omega)
    have hPrev := prevIndex_succ hLt
    have hWrite := h.write l.dropLast (q.itemCount - 1) q.headIndex
      (q.prevIndex q.tailIndex) (l.length - 1) default (by omega) (by simp [hCount])
      (by simp; omega) (h.head (by omega)) ⟨by rw [prevIndex_eq hLt]; exact Nat.mod_lt _ (by omega), ?_⟩
      (fun i hi => ?_) fun hSmall i hi hSize => ?_
    · rwa [← hTail] at hWrite
    · rw [hPrev, List.length_dropLast, ← hTail]
    · rw [List.length_dropLast] at hi
      rw [if_neg (by omega), h.item i (by omega), List.getElem_dropLast]
    · rw [List.length_dropLast] at hi
      split
      · rfl
      · exact h.unused hSmall i (by omega) hSize

theorem Holds.removeHead (h : q.Holds l) : q.removeHead.Holds l.tail := by
  unfold Queue.removeHead
  have hCount := h.itemCount
  have hLe := h.count_le
  split
  next hNone =>
    have hNil : l = [] := List.length_eq_zero_iff.mp (by omega)
    rw [hNil] at h ⊢
    exact h
  next hSome =>
    have hHead := h.head (by omega)
    have hTail := h.tailIndex (by omega)
    have hNext : q.nextIndex q.headIndex = (q.headIndex + 1) % q.queueSize := nextIndex_eq hHead
    have hBack : ((q.headIndex + 1) % q.queueSize + (q.queueSize - 1)) % q.queueSize = q.headIndex := by
      rw [ring_next, show q.headIndex + (q.queueSize - 1 + 1) = q.headIndex + q.queueSize by omega, Nat.add_mod_right,
        Nat.mod_eq_of_lt hHead]
    have hWrite := h.write l.tail (q.itemCount - 1) ((q.headIndex + 1) % q.queueSize)
      q.tailIndex (q.queueSize - 1) default (by omega) (by simp [hCount])
      (by simp; omega) (Nat.mod_lt _ (by omega)) ⟨by rw [hTail]; exact Nat.mod_lt _ (by omega), ?_⟩
      (fun i hi => ?_) fun hSmall i hi hSize => ?_
    · rwa [hBack, ← hNext] at hWrite
    · rw [hTail, ring_next, List.length_tail, Nat.mod_add_mod]
      congr 1
    · rw [List.length_tail] at hi
      rw [if_neg (by omega), ring_next, h.item (i + 1) (by omega), List.getElem_tail]
    · rw [List.length_tail] at hi
      split
      · rfl
      · rw [ring_next]
        exact h.unused hSmall (i + 1) (by omega) (by omega)

theorem Holds.setItem (h : q.Holds l) (hi : i < l.length) (x : α) :
    (q.setSlot ((q.headIndex + i) % q.queueSize) x).Holds (l.set i x) := by
  have hCount := h.itemCount
  have hLe := h.count_le
  refine h.write (l.set i x) q.itemCount q.headIndex q.tailIndex i x
    (by omega) (by simp [hCount]) (by simpa using hLe) (h.head (by omega)) ?_ (fun k hk => ?_)
    fun hSmall k hk hSize => ?_
  · rw [List.length_set]
    exact (h.tail (by omega)).resolve_right (by omega)
  · rw [List.length_set] at hk
    rw [List.getElem_set, h.item k hk]
    exact if_congr eq_comm rfl rfl
  · rw [List.length_set] at hk
    rw [if_neg (by omega)]
    exact h.unused hSmall k hk hSize

theorem Holds.replaceItemAt (h : q.Holds l) (i : Nat) (x : α) : (q.replaceItemAt i x).Holds (l.set i x) := by
  unfold Queue.replaceItemAt
  have hCount := h.itemCount
  have hLe := h.count_le
  split
  next hOut =>
    rw [List.set_eq_of_length_le (by omega)]
    exact h
  next hIn =>
    rw [h.internalizeIndex (by omega)]
    exact h.setItem (by omega) x

/-- Without items, every slot is one without an item. -/
theorem Holds.empty_slots (h : q.Holds []) (hSmall : q.isSmall = false) (hi : i < q.queueSize) :
    q.slots i = default := by
  have hHead := h.head (by omega)
  have hFree := h.unused hSmall ((i + (q.queueSize - q.headIndex)) % q.queueSize) (Nat.zero_le _)
    (Nat.mod_lt _ (by omega))
  rwa [Nat.add_mod_mod, show q.headIndex + (i + (q.queueSize - q.headIndex)) = i + q.queueSize by omega,
    Nat.add_mod_right, Nat.mod_eq_of_lt hi] at hFree

/-- The first item goes into the first slot. -/
theorem Holds.putFirst (h : q.Holds []) (hRoom : 0 < q.queueSize) (x : α) :
    ({ q with itemCount := 1, headIndex := 0, tailIndex := 0 }.setSlot 0 x).Holds [x] := by
  have hWrite := h.write [x] 1 0 0 0 x hRoom rfl hRoom hRoom
    ⟨hRoom, rfl⟩ (fun i hi => ?_) fun hSmall i hi hSize => ?_
  · rwa [ring_zero hRoom] at hWrite
  · rw [List.length_singleton] at hi
    rw [if_pos (by omega)]
    simp
  · rw [List.length_singleton] at hi
    rw [if_neg (by omega), Nat.zero_add, Nat.mod_eq_of_lt hSize]
    exact h.empty_slots hSmall hSize

theorem Holds.putTail (h : q.Holds l) (hSome : l ≠ []) (hRoom : l.length < q.queueSize) (x : α) :
    ({ q with itemCount := q.itemCount + 1, tailIndex := q.nextIndex q.tailIndex }.setSlot (q.nextIndex q.tailIndex)
      x).Holds (l ++ [x]) := by
  have hPos := List.length_pos_iff.mpr hSome
  have hTail := h.tailIndex hPos
  have hLt : q.tailIndex < q.queueSize := by
    rw [hTail]
    exact Nat.mod_lt _ (by omega)
  have hNext : q.nextIndex q.tailIndex = (q.headIndex + l.length) % q.queueSize := by
    rw [nextIndex_eq hLt]
    exact ((h.tail (by omega)).resolve_right (by omega)).2
  rw [hNext]
  refine h.write (l ++ [x]) (q.itemCount + 1) q.headIndex ((q.headIndex + l.length) % q.queueSize) l.length x hRoom
    (by simp [h.itemCount]) (by simp; omega) (h.head (by omega))
    ⟨Nat.mod_lt _ (by omega), ?_⟩ (fun i hi => ?_) fun hSmall i hi hSize => ?_
  · rw [List.length_append, List.length_singleton, Nat.mod_add_mod]
    rfl
  · split
    next hLast => simp [hLast]
    next hOld =>
      rw [List.length_append, List.length_singleton] at hi
      rw [h.item i (by omega), List.getElem_append_left]
  · rw [List.length_append, List.length_singleton] at hi
    rw [if_neg (by omega)]
    exact h.unused hSmall i (by omega) hSize

theorem Holds.putHead (h : q.Holds l) (hSome : l ≠ []) (hRoom : l.length < q.queueSize) (x : α) :
    ({ q with itemCount := q.itemCount + 1, headIndex := q.prevIndex q.headIndex }.setSlot (q.prevIndex q.headIndex)
      x).Holds (x :: l) := by
  have hPos := List.length_pos_iff.mpr hSome
  have hTail := h.tailIndex hPos
  have hHead := h.head (by omega)
  have hPrev : q.prevIndex q.headIndex < q.queueSize := by
    rw [prevIndex_eq hHead]
    exact Nat.mod_lt _ (by omega)
  have hBack : ∀ i, (q.prevIndex q.headIndex + (i + 1)) % q.queueSize = (q.headIndex + i) % q.queueSize := by
    intro i
    rw [prevIndex_eq hHead]
    exact ring_prev (by omega) i
  have hWrite := h.write (x :: l) (q.itemCount + 1) (q.prevIndex q.headIndex)
    q.tailIndex 0 x (by omega) (by simp [h.itemCount]) hRoom hPrev
    ⟨by rw [hTail]; exact Nat.mod_lt _ (by omega), ?_⟩ (fun i hi => ?_) fun hSmall i hi hSize => ?_
  · rwa [ring_zero hPrev] at hWrite
  · rw [List.length_cons, hBack]
    exact ((h.tail (by omega)).resolve_right (by omega)).2
  · cases i with
    | zero => rfl
    | succ i =>
      rw [if_neg (Nat.succ_ne_zero i), hBack, List.getElem_cons_succ]
      exact h.item i (Nat.lt_of_succ_lt_succ hi)
  · cases i with
    | zero => exact absurd hi (Nat.not_succ_le_zero _)
    | succ i =>
      rw [if_neg (Nat.succ_ne_zero i), hBack]
      exact h.unused hSmall i (Nat.le_of_succ_le_succ hi) (by omega)

/-! ### `EnsureSize` -/

omit [Inhabited α] in
theorem queueSize_of_isNull (h : q.isNull = true) : q.queueSize = 0 := by
  unfold isNull at h
  unfold queueSize
  cases hQueue : q.queue <;> simp [hQueue] at h ⊢

omit [Inhabited α] in
theorem queueSize_of_isSmall (h : q.isSmall = true) : q.queueSize = smallQueueSize := by
  unfold isSmall at h
  unfold queueSize
  cases hQueue : q.queue <;> simp [hQueue] at h ⊢

omit [Inhabited α] in
theorem slots_of_isSmall (h : q.isSmall = true) : q.slots = q.smallQueue := by
  unfold isSmall at h
  unfold slots
  cases hQueue : q.queue <;> simp [hQueue] at h ⊢

/-- The new array has no more than `2 ^ 31` slots. Indices of larger ones do not fit. -/
def Fits (q : Queue α) (size extraPreallocs : Nat) : Prop :=
  max q.initialSize (max smallQueueSize (size + extraPreallocs)) ≤ 2 ^ 31

/-- There is room, or a new array that fits. -/
def Room (q : Queue α) (size extraPreallocs : Nat) : Prop :=
  q.isNull = false ∧ size ≤ q.queueSize ∨ q.Fits size extraPreallocs

/-- The slots of the inline array that are to become items are defaults: all of them, if the queue had no array, or
those after the last item. -/
def CleanFor (q : Queue α) (size extraPreallocs : Nat) : Prop :=
  (q.isNull = true → q.initialSize ≤ smallQueueSize → size + extraPreallocs ≤ smallQueueSize →
      ∀ i < size, q.smallQueue i = default) ∧
    (q.isSmall = true → size ≤ smallQueueSize → ∀ i, q.itemCount ≤ i → i < size →
      q.smallQueue ((q.headIndex + i) % smallQueueSize) = default)

omit [Inhabited α] in
theorem newQLen_eq {size extra : Nat} {setNumItems : Bool} (h : q.Fits size extra) :
    q.newQLen size setNumItems extra = max q.initialSize (max smallQueueSize (size + extra)) := by
  unfold Fits at h
  unfold newQLen
  rw [word_of_lt (by omega)]
  dsimp only
  split
  · rfl
  · next hLarge =>
    rw [not_or, Nat.not_le] at hLarge
    rw [Nat.max_eq_right (Nat.le_of_lt hLarge.2)]

/-- The items from the first slot on. -/
theorem holds_flat (hCount : q.itemCount = l.length) (hHead : q.headIndex = 0)
    (hTail : q.tailIndex = word (l.length + (2 ^ 32 - 1))) (hLe : l.length ≤ q.queueSize)
    (hSize : q.queueSize ≤ 2 ^ 31) (hNull : q.queueSize = 0 → q.isNull = true)
    (hItem : ∀ i (hi : i < l.length), q.slots i = l[i])
    (hBig : q.isSmall = false → 0 < q.queueSize → smallQueueSize < q.queueSize)
    (hUnused : q.isSmall = false → ∀ i, l.length ≤ i → i < q.queueSize → q.slots i = default) : q.Holds l where
  itemCount := hCount
  count_le := hLe
  size_le := hSize
  null := hNull
  item i hi := by
    rw [hHead, Nat.zero_add, Nat.mod_eq_of_lt (by omega)]
    exact hItem i hi
  head hPos := by
    rw [hHead]
    exact hPos
  tail hPos := by
    rw [hTail, hHead]
    rcases Nat.eq_zero_or_pos l.length with hNone | hSome
    · rw [hNone]
      exact .inr ⟨rfl, rfl, rfl⟩
    · rw [show word (l.length + (2 ^ 32 - 1)) = l.length - 1 by unfold word; omega, Nat.zero_add,
        Nat.sub_add_cancel hSome]
      exact .inl ⟨by omega, rfl⟩
  big := hBig
  unused hSmall i hi hLt := by
    rw [hHead, Nat.zero_add, Nat.mod_eq_of_lt hLt]
    exact hUnused hSmall i hi hLt

theorem Holds.grow (h : q.Holds l) {size extra : Nat} (setNumItems : Bool)
    (hNeed : q.isNull = true ∨ q.queueSize < size) (hFits : q.Fits size extra) :
    ∃ pad : List α, pad.length = (if setNumItems then size - l.length else 0) ∧
      (q.grow size setNumItems extra).Holds (l ++ pad) ∧ size ≤ (q.grow size setNumItems extra).queueSize ∧
      (q.CleanFor size extra → pad = List.replicate pad.length default) := by
  have hLe := h.count_le
  have hFit : l.length ≤ size := by
    rcases hNeed with hNull | hSmaller
    · have hNone := queueSize_of_isNull hNull
      omega
    · omega
  have hLen : q.newQLen size setNumItems extra = max q.initialSize (max smallQueueSize (size + extra)) :=
    newQLen_eq hFits
  have hBound := hFits
  unfold Fits at hBound
  rw [← hLen] at hBound
  have hCount : (if setNumItems = true then size else q.itemCount) =
      l.length + (if setNumItems = true then size - l.length else 0) := by
    rw [h.itemCount]
    split <;> omega
  have hMore : l.length + (if setNumItems = true then size - l.length else 0) ≤ size := by
    split <;> omega
  by_cases hHeap : q.isSmall = true ∨ q.newQLen size setNumItems extra > smallQueueSize
  · have hGrow : q.grow size setNumItems extra =
        ⟨if q.isSmall then fun _ => default else q.smallQueue, .heap (fun i => if i < q.itemCount then q.getItemAt i
          else default) (q.newQLen size setNumItems extra), if setNumItems then size else q.itemCount, 0,
          word ((if setNumItems then size else q.itemCount) + (2 ^ 32 - 1)), q.initialSize⟩ := by
      unfold Queue.grow
      dsimp only
      rw [if_pos hHeap]
    refine ⟨List.replicate (if setNumItems then size - l.length else 0) default, List.length_replicate, ?_, ?_,
      fun _ => by rw [List.length_replicate]⟩
    · rw [hGrow]
      refine holds_flat ?_ rfl ?_ ?_ ?_ ?_ (fun i hi => ?_) (fun _ _ => ?_) fun _ i hi _ => ?_
      · rw [List.length_append, List.length_replicate]
        exact hCount
      · rw [List.length_append, List.length_replicate, ← hCount]
      · rw [List.length_append, List.length_replicate]
        change _ ≤ q.newQLen size setNumItems extra
        omega
      · exact hBound
      · intro hNone
        change q.newQLen size setNumItems extra = 0 at hNone
        unfold smallQueueSize at hLen
        omega
      · change (if i < q.itemCount then q.getItemAt i else default) = _
        rw [h.itemCount]
        split
        next hOld => rw [h.getItemAt hOld, List.getElem_append_left hOld]
        next hNew => rw [List.getElem_append_right (by omega), List.getElem_replicate]
      · change smallQueueSize < q.newQLen size setNumItems extra
        rcases hHeap with hSmall | hLarge
        · have hThree := queueSize_of_isSmall hSmall
          have hLt : q.queueSize < size := by
            refine hNeed.resolve_left fun hNull => ?_
            rw [queueSize_of_isNull hNull] at hThree
            exact absurd hThree nofun
          omega
        · exact hLarge
      · rw [List.length_append] at hi
        change (if i < q.itemCount then q.getItemAt i else default) = _
        rw [if_neg (by rw [h.itemCount]; omega)]
    · rw [hGrow]
      change size ≤ q.newQLen size setNumItems extra
      omega
  · have hGrow : q.grow size setNumItems extra =
        ⟨fun i => if i < q.itemCount then q.getItemAt i else q.smallQueue i, .small,
          if setNumItems then size else q.itemCount, 0,
          word ((if setNumItems then size else q.itemCount) + (2 ^ 32 - 1)), q.initialSize⟩ := by
      unfold Queue.grow
      dsimp only
      rw [if_neg hHeap]
    rw [not_or, Nat.not_lt] at hHeap
    have hNull : q.isNull = true := by
      rcases Nat.eq_zero_or_pos q.queueSize with hNone | hSome
      · exact h.null hNone
      · refine hNeed.resolve_right fun hSmaller => ?_
        have hLarge := h.big (by simpa using hHeap.1) hSome
        omega
    have hNone := queueSize_of_isNull hNull
    have hNil : l = [] := List.length_eq_zero_iff.mp (by omega)
    subst hNil
    refine ⟨(List.range (if setNumItems then size else 0)).map q.smallQueue, ?_, ?_, ?_, fun hClean => ?_⟩
    · rw [List.length_map, List.length_range]
      rfl
    · rw [hGrow]
      refine holds_flat ?_ rfl ?_ ?_ ?_ nofun (fun i hi => ?_) nofun nofun
      · rw [List.nil_append, List.length_map, List.length_range, h.itemCount]
        rfl
      · rw [List.nil_append, List.length_map, List.length_range, h.itemCount]
        rfl
      · rw [List.nil_append, List.length_map, List.length_range]
        change _ ≤ smallQueueSize
        split <;> omega
      · change smallQueueSize ≤ 2 ^ 31
        decide
      · change (if i < q.itemCount then q.getItemAt i else q.smallQueue i) = _
        have hNo : ¬i < q.itemCount := by
          rw [h.itemCount]
          exact Nat.not_lt_zero i
        rw [if_neg hNo]
        simp
    · rw [hGrow]
      change size ≤ smallQueueSize
      omega
    · rw [List.eq_replicate_iff]
      refine ⟨rfl, fun x hx => ?_⟩
      obtain ⟨i, hi, rfl⟩ := List.mem_map.mp hx
      rw [List.mem_range] at hi
      refine hClean.1 hNull (by omega) (by omega) i ?_
      split at hi <;> omega

theorem Holds.removeTails (h : q.Holds l) (n : Nat) : (Queue.removeTail^[n] q).Holds (l.take (l.length - n)) := by
  induction n with
  | zero =>
    rw [Nat.sub_zero, List.take_length]
    exact h
  | succ n ih =>
    rw [Function.iterate_succ_apply']
    have hNext := ih.removeTail
    rw [List.dropLast_eq_take, List.take_take, List.length_take] at hNext
    rwa [show l.length - (n + 1) = min (min (l.length - n) l.length - 1) (l.length - n) by omega]

omit [Inhabited α] in
theorem not_needed {size : Nat} (hNot : ¬(q.isNull = true ∨ q.queueSize < size)) :
    q.isNull = false ∧ size ≤ q.queueSize := by
  rw [not_or, Nat.not_lt, Bool.not_eq_true] at hNot
  exact hNot

omit [Inhabited α] in
theorem fits_of_room {size extra : Nat} (h : q.Room size extra) (hNeed : q.isNull = true ∨ q.queueSize < size) :
    q.Fits size extra := by
  refine h.resolve_left fun ⟨hNull, hSize⟩ => ?_
  rcases hNeed with hNo | hSmaller
  · rw [hNull] at hNo
    cases hNo
  · omega

/-- `EnsureSize` that keeps the number of items. -/
theorem Holds.ensureSize (h : q.Holds l) {size extra : Nat} (hRoom : q.Room size extra) :
    (q.ensureSize size false extra).Holds l ∧ size ≤ (q.ensureSize size false extra).queueSize := by
  unfold Queue.ensureSize
  dsimp only
  rw [if_neg Bool.false_ne_true]
  split
  next hNeed =>
    obtain ⟨pad, hPad, hGrown, hSize, -⟩ := h.grow false hNeed (fits_of_room hRoom hNeed)
    rw [if_neg Bool.false_ne_true, List.length_eq_zero_iff] at hPad
    rw [hPad, List.append_nil] at hGrown
    exact ⟨hGrown, hSize⟩
  next hNot => exact ⟨h, (not_needed hNot).2⟩

/-- `EnsureSize` that adds items: they are what the slots hold. -/
theorem Holds.ensureSize_pad (h : q.Holds l) {size extra : Nat} (hRoom : q.Room size extra) (hMore : l.length ≤ size) :
    ∃ pad : List α, pad.length = size - l.length ∧ (q.ensureSize size true extra).Holds (l ++ pad) ∧
      (q.CleanFor size extra → pad = List.replicate pad.length default) := by
  unfold Queue.ensureSize
  dsimp only
  rw [if_pos rfl]
  split
  next hNeed =>
    obtain ⟨pad, hPad, hGrown, -, hClean⟩ := h.grow true hNeed (fits_of_room hRoom hNeed)
    rw [if_pos rfl] at hPad
    have hCount : (q.grow size true extra).itemCount = size := by
      rw [hGrown.itemCount, List.length_append]
      omega
    refine ⟨pad, hPad, ?_, hClean⟩
    rw [if_neg (by omega), show (q.grow size true extra).itemCount - size = 0 by omega]
    exact hGrown
  next hNot =>
    obtain ⟨hNull, hSize⟩ := not_needed hNot
    have hCount := h.itemCount
    split
    next hAdd =>
      refine ⟨(List.range (size - l.length)).map fun i => q.slots ((q.headIndex + (l.length + i)) % q.queueSize), ?_,
        ?_, fun hClean => ?_⟩
      · rw [List.length_map, List.length_range]
      · have hLength : (l ++ (List.range (size - l.length)).map fun i =>
            q.slots ((q.headIndex + (l.length + i)) % q.queueSize)).length = size := by
          rw [List.length_append, List.length_map, List.length_range]
          omega
        refine ⟨hLength.symm, ?_, h.size_le, h.null, fun i hi => ?_, h.head, fun hPos => .inl ?_, h.big,
          fun hSmall i hi hLt => ?_⟩
        · rw [hLength]
          exact hSize
        · change q.slots ((q.headIndex + i) % q.queueSize) = _
          by_cases hOld : i < l.length
          · rw [List.getElem_append_left hOld]
            exact h.item i hOld
          · rw [List.getElem_append_right (by omega), List.getElem_map, List.getElem_range,
              show l.length + (i - l.length) = i by omega]
        · rw [hLength]
          change word (q.tailIndex + (size - q.itemCount)) % q.queueSize < q.queueSize ∧
            (word (q.tailIndex + (size - q.itemCount)) % q.queueSize + 1) % q.queueSize =
              (q.headIndex + size) % q.queueSize
          refine ⟨Nat.mod_lt _ hPos, ?_⟩
          have hLe := h.size_le
          rw [Nat.mod_add_mod]
          rcases h.tail hPos with ⟨hLt, hTail⟩ | ⟨hNone, hHead, hTail⟩
          · rw [word_of_lt (by omega)]
            have hMod : q.tailIndex + 1 + (size - q.itemCount) ≡ q.headIndex + l.length + (size - q.itemCount)
                [MOD q.queueSize] := Nat.ModEq.add_right _ hTail
            rw [show q.tailIndex + 1 + (size - q.itemCount) = q.tailIndex + (size - q.itemCount) + 1 by omega,
              show q.headIndex + l.length + (size - q.itemCount) = q.headIndex + size by omega] at hMod
            exact hMod
          · rw [hHead, hTail]
            congr 1
            unfold word
            omega
        · rw [hLength] at hi
          exact h.unused hSmall i (by omega) hLt
      · rw [List.eq_replicate_iff]
        refine ⟨rfl, fun x hx => ?_⟩
        obtain ⟨i, hi, rfl⟩ := List.mem_map.mp hx
        rw [List.mem_range] at hi
        cases hSmall : q.isSmall with
        | false => exact h.unused hSmall _ (by omega) (by omega)
        | true =>
          have hThree := queueSize_of_isSmall hSmall
          rw [hThree, slots_of_isSmall hSmall]
          exact hClean.2 hSmall (by omega) (l.length + i) (by omega) (by omega)
    next hSame =>
      refine ⟨[], ?_, ?_, fun _ => rfl⟩
      · rw [List.length_nil]
        omega
      · rw [show q.itemCount - size = 0 by omega, List.append_nil]
        exact h

/-- `EnsureSize` that removes items. -/
theorem Holds.ensureSize_cut (h : q.Holds l) {size extra : Nat} (hRoom : q.Room size extra) (hLess : size ≤ l.length) :
    (q.ensureSize size true extra).Holds (l.take size) := by
  rcases Nat.eq_or_lt_of_le hLess with hSame | hFewer
  · obtain ⟨pad, hPad, hHolds, -⟩ := h.ensureSize_pad hRoom (by omega)
    rw [hSame, Nat.sub_self, List.length_eq_zero_iff] at hPad
    rw [hPad, List.append_nil] at hHolds
    rwa [List.take_of_length_le (Nat.le_of_eq hSame.symm)]
  · have hLe := h.count_le
    have hCount := h.itemCount
    have hNot : ¬(q.isNull = true ∨ q.queueSize < size) := by
      rintro (hNull | hSmaller)
      · have hNone := queueSize_of_isNull hNull
        omega
      · omega
    unfold Queue.ensureSize
    dsimp only
    rw [if_pos rfl, if_neg hNot, if_neg (by omega)]
    have hCut := h.removeTails (q.itemCount - size)
    rwa [show l.length - (q.itemCount - size) = size by omega] at hCut

/-! ### Adding items -/

theorem Holds.addTail (h : q.Holds l) (hRoom : q.Room (q.itemCount + 1) (q.itemCount + 1)) (x : α) :
    (q.addTail x).Holds (l ++ [x]) := by
  unfold Queue.addTail
  have hLe := h.count_le
  have hSize := h.size_le
  have hCount := h.itemCount
  rw [word_of_lt (by omega)]
  obtain ⟨hHolds, hEnough⟩ := h.ensureSize hRoom
  generalize q.ensureSize (q.itemCount + 1) false (q.itemCount + 1) = p at hHolds hEnough
  have hSame := hHolds.itemCount
  dsimp only
  split
  next hNone =>
    have hNil : l = [] := List.length_eq_zero_iff.mp (by omega)
    subst hNil
    dsimp only
    rw [hNone]
    exact hHolds.putFirst (by omega) x
  next hSome => exact hHolds.putTail (fun hNil => hSome (by rw [hSame, hNil, List.length_nil])) (by omega) x

theorem Holds.addHead (h : q.Holds l) (hRoom : q.Room (q.itemCount + 1) (q.itemCount + 1)) (x : α) :
    (q.addHead x).Holds (x :: l) := by
  unfold Queue.addHead
  have hLe := h.count_le
  have hSize := h.size_le
  have hCount := h.itemCount
  rw [word_of_lt (by omega)]
  obtain ⟨hHolds, hEnough⟩ := h.ensureSize hRoom
  generalize q.ensureSize (q.itemCount + 1) false (q.itemCount + 1) = p at hHolds hEnough
  have hSame := hHolds.itemCount
  dsimp only
  split
  next hNone =>
    have hNil : l = [] := List.length_eq_zero_iff.mp (by omega)
    subst hNil
    dsimp only
    rw [hNone]
    exact hHolds.putFirst (by omega) x
  next hSome => exact hHolds.putHead (fun hNil => hSome (by rw [hSame, hNil, List.length_nil])) (by omega) x

end Queue

end BeShare.Muscle.Queues
