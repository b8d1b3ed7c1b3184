import BeShare.Util.QueueLists
import Mathlib.Data.List.Sort

/-!
The operations on many items at once, and those inside the queue.
-/

namespace BeShare.Muscle.Queues

namespace Queue

variable {α : Type} [Inhabited α] {q p : Queue α} {l : List α} {i : Nat} {x : α}

/-! ### Parts of queues -/

omit [Inhabited α] in
theorem numNewItems_eq (his : List α) (startIndex count : Nat) :
    numNewItems his.length startIndex count = ((his.drop startIndex).take count).length := by
  unfold numNewItems
  rw [List.length_take, List.length_drop]
  split <;> omega

omit [Inhabited α] in
theorem room_lt {size extra : Nat} (h : q.Room size extra) (hSize : q.queueSize ≤ 2 ^ 31) : size < 2 ^ 32 := by
  rcases h with ⟨-, hLe⟩ | hFits
  · omega
  · unfold Fits at hFits
    omega

/-- The items after the queue's own are overwritten one by one. -/
theorem Holds.overwrite {piece pad : List α} {item : Queue α → Nat → α} (h : q.Holds (l ++ pad))
    (hPad : pad.length = piece.length)
    (hItem : ∀ p rest, Holds p (l ++ rest) → ∀ i (hi : i < piece.length), item p i = piece[i]) :
    ((List.range piece.length).foldl (fun q i => q.replaceItemAt (l.length + i) (item q i)) q).Holds (l ++ piece) := by
  have hSteps : ∀ n ≤ piece.length,
      ((List.range n).foldl (fun q i => q.replaceItemAt (l.length + i) (item q i)) q).Holds
        (l ++ (piece.take n ++ pad.drop n)) := by
    intro n hn
    induction n with
    | zero => exact h
    | succ n ih =>
      have hBefore := ih (by omega)
      rw [List.range_succ, List.foldl_append, List.foldl_cons, List.foldl_nil]
      rw [hItem _ _ hBefore n (by omega)]
      have hAfter := hBefore.replaceItemAt (l.length + n) piece[n]
      have hDrop : pad.drop n = pad[n] :: pad.drop (n + 1) := List.drop_eq_getElem_cons (by omega)
      rw [hDrop] at hAfter
      rw [List.take_succ_eq_append_getElem (by omega)]
      have hTake : (piece.take n).length = n := List.length_take_of_le (by omega)
      rw [List.set_append_right _ _ (Nat.le_add_right _ _), Nat.add_sub_cancel_left,
        List.set_append_right _ _ (by omega), hTake, Nat.sub_self, List.set_cons_zero] at hAfter
      rwa [List.append_assoc]
  have hAll := hSteps piece.length (Nat.le_refl _)
  rwa [List.take_length, List.drop_of_length_le (Nat.le_of_eq hPad), List.append_nil] at hAll

theorem Holds.addTailOf (h : q.Holds l) (his : List α) (read : Queue α → Nat → α) (startIndex count : Nat)
    (hRead : ∀ p rest, Holds p (l ++ rest) → ∀ i (hi : i < his.length), read p i = his[i])
    (hRoom : q.Room (q.itemCount + numNewItems his.length startIndex count) 0) :
    (q.addTailOf his.length read startIndex count).Holds (l ++ (his.drop startIndex).take count) := by
  unfold Queue.addTailOf
  dsimp only
  rw [word_of_lt (room_lt hRoom h.size_le)]
  rw [numNewItems_eq] at hRoom ⊢
  obtain ⟨pad, hPad, hHolds, -⟩ := h.ensureSize_pad hRoom (by rw [h.itemCount]; omega)
  have hCount := h.itemCount
  rw [hCount] at hPad ⊢
  rw [hCount] at hHolds
  refine hHolds.overwrite (by omega) fun p rest hp i hi => ?_
  rw [List.length_take, List.length_drop] at hi
  rw [hRead p rest hp (startIndex + i) (by omega), List.getElem_take, List.getElem_drop]

omit [Inhabited α] in
theorem isNull_of_room (h : i < q.queueSize) : q.isNull = false := by
  rw [← Bool.not_eq_true]
  intro hNull
  rw [queueSize_of_isNull hNull] at h
  exact absurd h (Nat.not_lt_zero i)

theorem addHead_queueSize (h : q.Holds l) (hRoom : l.length < q.queueSize) (x : α) :
    (q.addHead x).queueSize = q.queueSize := by
  have hNull := isNull_of_room hRoom
  have hSize := h.size_le
  have hCount := h.itemCount
  have hNot : ¬(q.isNull = true ∨ q.queueSize < q.itemCount + 1) := by
    rw [hNull]
    rintro (hNo | hNo)
    · cases hNo
    · omega
  unfold Queue.addHead Queue.ensureSize
  dsimp only
  rw [word_of_lt (by omega), if_neg Bool.false_ne_true, if_neg hNot]
  rw [setSlot_queueSize]
  split <;> rfl

/-- Items in front of the list, from the last one on. -/
theorem Holds.addHeads (h : q.Holds l) (items : List α) (item : Queue α → Nat → α) (indices : List Nat)
    (hRoom : indices.length + l.length ≤ q.queueSize)
    (hItem : ∀ p rest, Holds p (rest ++ l) → rest.length < indices.length →
      ∀ i ∈ indices, ∃ hi : i < items.length, item p i = items[i]) :
    ∃ added : List α, (indices.reverse.foldl (fun q i => q.addHead (item q i)) q).Holds (added ++ l) ∧
      added.length = indices.length ∧ ∀ k (hk : k < indices.length), added[k]? = items[indices[k]]? := by
  suffices hAll : ∃ added : List α, (indices.reverse.foldl (fun q i => q.addHead (item q i)) q).Holds (added ++ l) ∧
      (indices.reverse.foldl (fun q i => q.addHead (item q i)) q).queueSize = q.queueSize ∧
      added.length = indices.length ∧ ∀ k (hk : k < indices.length), added[k]? = items[indices[k]]? by
    obtain ⟨added, hHolds, -, hRest⟩ := hAll
    exact ⟨added, hHolds, hRest⟩
  induction indices with
  | nil => exact ⟨[], h, rfl, rfl, nofun⟩
  | cons i indices ih =>
    rw [List.length_cons] at hRoom
    obtain ⟨added, hHolds, hSize, hLength, hAdded⟩ := ih (by omega) fun p rest hp hLt k hk =>
      hItem p rest hp (Nat.lt_succ_of_lt hLt) k (List.mem_cons_of_mem i hk)
    obtain ⟨hi, hIs⟩ := hItem _ added hHolds (by rw [hLength]; exact Nat.lt_succ_self _) i List.mem_cons_self
    rw [List.reverse_cons, List.foldl_append, List.foldl_cons, List.foldl_nil]
    have hCount := hHolds.itemCount
    have hFree : (added ++ l).length < (indices.reverse.foldl (fun q i => q.addHead (item q i)) q).queueSize := by
      rw [hSize, List.length_append]
      omega
    refine ⟨items[i] :: added, ?_, ?_, by rw [List.length_cons, List.length_cons, hLength], fun k hk => ?_⟩
    · rw [hIs]
      exact hHolds.addHead (.inl ⟨isNull_of_room hFree, by omega⟩) items[i]
    · rw [addHead_queueSize hHolds hFree, hSize]
    · cases k with
      | zero => exact (List.getElem?_eq_getElem hi).symm
      | succ k => exact hAdded k (Nat.lt_of_succ_lt_succ hk)

theorem Holds.addHeadOf {his : List α} {read : Queue α → Nat → α} {startIndex count : Nat} (h : q.Holds l)
    (hStart : startIndex ≠ 2 ^ 31)
    (hRead : ∀ p rest, Holds p (rest ++ l) → rest.length < numNewItems his.length startIndex count →
      ∀ i (hi : i < his.length), read p i = his[i])
    (hRoom : q.Room (q.itemCount + numNewItems his.length startIndex count) 0) :
    ∃ q', q.addHeadOf his.length read startIndex count = some q' ∧
      q'.Holds ((his.drop startIndex).take count ++ l) := by
  unfold Queue.addHeadOf
  rw [if_neg hStart]
  dsimp only
  have hCount := h.itemCount
  rw [Nat.add_comm (numNewItems _ _ _), word_of_lt (room_lt hRoom h.size_le)]
  rw [numNewItems_eq] at hRead hRoom ⊢
  obtain ⟨hHolds, hEnough⟩ := h.ensureSize hRoom
  refine ⟨_, rfl, ?_⟩
  obtain ⟨added, hAll, hLength, hAdded⟩ := hHolds.addHeads ((his.drop startIndex).take count)
    (fun p i => read p (startIndex + i)) (List.range ((his.drop startIndex).take count).length)
    (by rw [List.length_range]; omega) fun p rest hp hLt i hi => by
      rw [List.mem_range] at hi
      rw [List.length_range] at hLt
      refine ⟨hi, ?_⟩
      rw [List.length_take, List.length_drop] at hi
      rw [hRead p rest hp hLt (startIndex + i) (by omega), List.getElem_take, List.getElem_drop]
  have hSame : added = (his.drop startIndex).take count := by
    rw [List.length_range] at hLength
    refine List.ext_getElem hLength fun k hk hk' => ?_
    have hEq := hAdded k (by rwa [List.length_range])
    rw [List.getElem_range, List.getElem?_eq_getElem hk, List.getElem?_eq_getElem hk'] at hEq
    exact Option.some.inj hEq
  rwa [hSame] at hAll

/-! ### Inside the queue -/

omit [Inhabited α] in
theorem setSlot_prevIndex {k : Nat} : (q.setSlot k x).prevIndex i = q.prevIndex i := by
  unfold prevIndex
  rw [setSlot_queueSize]

omit [Inhabited α] in
theorem setSlot_nextIndex {k : Nat} : (q.setSlot k x).nextIndex i = q.nextIndex i := by
  unfold nextIndex
  rw [setSlot_queueSize]

/-- The items before `i` have moved on, and the first one is still there. -/
theorem Holds.shiftFromHead (h : q.Holds l) (hi : i < l.length) {fuel : Nat} (hFuel : i < fuel) :
    (shiftFromHead fuel ((q.headIndex + i) % q.queueSize) q).Holds (l.take 1 ++ l.eraseIdx i) := by
  have hLe := h.count_le
  have hHead := h.head (by omega)
  induction fuel generalizing q l i with
  | zero => exact absurd hFuel (Nat.not_lt_zero i)
  | succ fuel ih =>
    unfold Queue.shiftFromHead
    cases i with
    | zero =>
      rw [Lib.ring_zero hHead, if_pos rfl]
      cases l with
      | nil => exact h
      | cons first l => exact h
    | succ i =>
      have hNot : (q.headIndex + (i + 1)) % q.queueSize ≠ q.headIndex := by
        intro hNo
        have hSlots : (q.headIndex + (i + 1)) % q.queueSize = (q.headIndex + 0) % q.queueSize := by
          rw [hNo, Lib.ring_zero hHead]
        have hZero : i + 1 = 0 := (Lib.ring_inj (by omega) (by omega)).mp hSlots
        exact absurd hZero (Nat.succ_ne_zero i)
      have hPrev : q.prevIndex ((q.headIndex + (i + 1)) % q.queueSize) = (q.headIndex + i) % q.queueSize := by
        rw [prevIndex_eq (Nat.mod_lt _ (by omega)), Nat.mod_add_mod,
          show q.headIndex + (i + 1) + (q.queueSize - 1) = q.headIndex + i + q.queueSize by omega, Nat.add_mod_right]
      rw [if_neg hNot, hPrev, h.item i (by omega)]
      have hMoved := h.setItem hi l[i]
      have hRest := ih hMoved (i := i) (by rw [List.length_set]; omega) (by omega)
        (by rw [List.length_set, setSlot_queueSize]; exact hLe)
        (by rw [setSlot_headIndex, setSlot_queueSize]; exact hHead)
      rw [setSlot_headIndex, setSlot_queueSize] at hRest
      have hSame : (l.set (i + 1) l[i]).take 1 ++ (l.set (i + 1) l[i]).eraseIdx i = l.take 1 ++ l.eraseIdx (i + 1) := by
        rw [List.take_set_of_le (by omega)]
        congr 1
        refine List.ext_getElem? fun k => ?_
        rw [List.getElem?_eraseIdx, List.getElem?_eraseIdx]
        grind
      rwa [hSame] at hRest

/-- The items after `i` have moved back, and the last one is still there. -/
theorem Holds.shiftFromTail (h : q.Holds l) (hi : i < l.length) {fuel : Nat} (hFuel : l.length - i ≤ fuel) :
    (shiftFromTail fuel ((q.headIndex + i) % q.queueSize) q).Holds (l.eraseIdx i ++ l.drop (l.length - 1)) := by
  have hLe := h.count_le
  have hTail := h.tailIndex (by omega)
  induction fuel generalizing q l i with
  | zero => omega
  | succ fuel ih =>
    unfold Queue.shiftFromTail
    rcases Nat.eq_or_lt_of_le (Nat.le_sub_one_of_lt hi) with hLast | hBefore
    · rw [if_pos (by rw [hTail, hLast])]
      have hSame : l.eraseIdx i ++ l.drop (l.length - 1) = l := by
        rw [List.eraseIdx_eq_take_drop_succ, List.drop_of_length_le (by omega), List.append_nil, hLast,
          List.take_append_drop]
      rwa [hSame]
    · have hNot : (q.headIndex + i) % q.queueSize ≠ q.tailIndex := by
        rw [hTail]
        intro hNo
        have hEq := (Lib.ring_inj (show i < q.queueSize by omega) (show l.length - 1 < q.queueSize by omega)).mp hNo
        omega
      have hNext : q.nextIndex ((q.headIndex + i) % q.queueSize) = (q.headIndex + (i + 1)) % q.queueSize := by
        rw [nextIndex_eq (Nat.mod_lt _ (by omega)), Nat.mod_add_mod]
        rfl
      rw [if_neg hNot, hNext, h.item (i + 1) (by omega)]
      have hMoved := h.setItem hi l[i + 1]
      have hRest := ih hMoved (i := i + 1) (by rw [List.length_set]; omega) (by rw [List.length_set]; omega)
        (by rw [List.length_set, setSlot_queueSize]; exact hLe)
        (by rw [setSlot_tailIndex, setSlot_headIndex, setSlot_queueSize, List.length_set]; exact hTail)
      rw [setSlot_headIndex, setSlot_queueSize] at hRest
      have hSame : (l.set i l[i + 1]).eraseIdx (i + 1) ++ (l.set i l[i + 1]).drop ((l.set i l[i + 1]).length - 1) =
          l.eraseIdx i ++ l.drop (l.length - 1) := by
        rw [List.length_set, List.drop_set_of_lt (by omega)]
        congr 1
        refine List.ext_getElem? fun k => ?_
        rw [List.getElem?_eraseIdx, List.getElem?_eraseIdx]
        grind
      rwa [hSame] at hRest

theorem Holds.removeItemAt (h : q.Holds l) (i : Nat) : (q.removeItemAt i).Holds (l.eraseIdx i) := by
  unfold Queue.removeItemAt
  have hCount := h.itemCount
  have hLe := h.count_le
  split
  next hOut =>
    rw [List.eraseIdx_of_length_le (by omega)]
    exact h
  next hIn =>
    rw [h.internalizeIndex (by omega)]
    split
    next hNear =>
      have hShift := (h.shiftFromHead (show i < l.length by omega) (show i < q.queueSize by omega))
      generalize Queue.shiftFromHead q.queueSize ((q.headIndex + i) % q.queueSize) q = p at hShift ⊢
      have hRemoved := hShift.removeHead
      have hSome : p.itemCount ≠ 0 := by
        rw [hShift.itemCount, List.length_append, List.length_take]
        omega
      unfold Queue.removeHead at hRemoved
      rw [if_neg hSome] at hRemoved
      cases l with
      | nil => exact absurd hIn (by rw [hCount]; exact not_not.mpr (Nat.zero_le i))
      | cons first l => exact hRemoved
    next hFar =>
      have hShift := (h.shiftFromTail (show i < l.length by omega) (show l.length - i ≤ q.queueSize by omega))
      generalize Queue.shiftFromTail q.queueSize ((q.headIndex + i) % q.queueSize) q = p at hShift ⊢
      have hRemoved := hShift.removeTail
      have hSome : p.itemCount ≠ 0 := by
        rw [hShift.itemCount, List.length_append, List.length_drop]
        omega
      unfold Queue.removeTail at hRemoved
      rw [if_neg hSome] at hRemoved
      have hSame : (l.eraseIdx i ++ l.drop (l.length - 1)).dropLast = l.eraseIdx i := by
        have hOne : l.drop (l.length - 1) = [l[l.length - 1]] := by
          rw [List.drop_eq_getElem_cons (by omega), List.drop_of_length_le (by omega)]
        rw [hOne, List.dropLast_concat]
      rwa [hSame] at hRemoved

section Gaps

variable {n m : Nat} (d : α)

omit [Inhabited α] in
theorem insertIdx_eq (x : α) (hi : i ≤ l.length) : l.insertIdx i x = l.take i ++ x :: l.drop i := by
  induction l generalizing i with
  | nil =>
    rw [Nat.le_zero.mp hi]
    rfl
  | cons first l ih =>
    cases i with
    | zero => rfl
    | succ i => rw [List.insertIdx_succ_cons, ih (Nat.le_of_succ_le_succ hi), List.take_succ_cons, List.cons_append,
        List.drop_succ_cons]

omit [Inhabited α] in
theorem headGap_set (hn : n < l.length) (x : α) :
    (l.take n ++ (d :: l).drop n).set n x = l.take n ++ x :: (d :: l).drop (n + 1) := by
  have hLt : n < (d :: l).length := Nat.lt_succ_of_lt hn
  have hDrop : (d :: l).drop n = (d :: l)[n] :: (d :: l).drop (n + 1) := List.drop_eq_getElem_cons hLt
  rw [hDrop, List.set_append_right _ _ (by rw [List.length_take]; omega), List.length_take_of_le (Nat.le_of_lt hn),
    Nat.sub_self, List.set_cons_zero]

omit [Inhabited α] in
theorem headGap_next (hn : n < l.length) : (l.take n ++ (d :: l).drop n)[n + 1]? = some l[n] := by
  rw [List.getElem?_append_right (by rw [List.length_take]; omega), List.length_take_of_le (Nat.le_of_lt hn),
    Nat.add_sub_cancel_left, List.getElem?_drop, List.getElem?_cons_succ, List.getElem?_eq_getElem hn]

omit [Inhabited α] in
theorem tailGap_set (hm : m ≤ l.length) (x : α) :
    ((l ++ [d]).take (m + 1) ++ l.drop m).set m x = l.take m ++ x :: l.drop m := by
  have hLt : m < (l ++ [d]).length := by
    rw [List.length_append, List.length_singleton]
    omega
  have hTake : (l ++ [d]).take (m + 1) = l.take m ++ [(l ++ [d])[m]] := by
    rw [List.take_succ_eq_append_getElem hLt, List.take_append_of_le_length hm]
  rw [hTake, List.append_assoc, List.set_append_right _ _ (by rw [List.length_take]; omega),
    List.length_take_of_le hm, Nat.sub_self]
  rfl

omit [Inhabited α] in
theorem tailGap_before (hm : m < l.length) : ((l ++ [d]).take (m + 2) ++ l.drop (m + 1))[m]? = some l[m] := by
  rw [List.getElem?_append_left (by simp; omega), List.getElem?_take, if_pos (by omega),
    List.getElem?_append_left hm, List.getElem?_eq_getElem hm]

end Gaps

theorem Holds.insertItemAt (h : q.Holds l) {i : Nat}
    (hRoom : i ≤ q.itemCount → q.Room (q.itemCount + 1) (q.itemCount + 1)) (x : α) :
    (q.insertItemAt i x).Holds (l.insertIdx i x) := by
  unfold Queue.insertItemAt
  have hCount := h.itemCount
  split
  next hOut =>
    rw [List.insertIdx_of_length_lt (by omega)]
    exact h
  next hIn =>
    have hAdd := hRoom (Nat.le_of_not_lt hIn)
    split
    next hLast =>
      rw [hLast, hCount, List.insertIdx_length_self]
      exact h.addTail hAdd x
    next hBefore =>
      split
      next hFirst =>
        rw [hFirst, List.insertIdx_zero]
        exact h.addHead hAdd x
      next hInside =>
        split
        next hNear =>
          -- After `n` steps the first `n` items are where they were before the gap was made.
          have hSteps : ∀ n ≤ i,
              ((List.range n).foldl (fun q i => q.replaceItemAt i (q.getItemAt (i + 1))) (q.addHead default)).Holds
                (l.take n ++ (default :: l).drop n) := by
            intro n hn
            induction n with
            | zero => exact h.addHead hAdd default
            | succ n ih =>
              have hMoved := ih (by omega)
              have hShort : n < l.length := by omega
              rw [List.range_succ, List.foldl_append, List.foldl_cons, List.foldl_nil]
              rw [hMoved.getItemAt_eq (headGap_next default hShort)]
              have hNext := hMoved.replaceItemAt n l[n]
              rw [headGap_set default hShort] at hNext
              rwa [List.take_succ_eq_append_getElem hShort, List.append_assoc]
          have hPlaced := (hSteps i (Nat.le_refl i)).replaceItemAt i x
          rw [headGap_set default (by omega), List.drop_succ_cons] at hPlaced
          rwa [insertIdx_eq x (by omega)]
        next hFar =>
          have hAdded := h.addTail hAdd default
          have hMore := hAdded.itemCount
          rw [List.length_append, List.length_singleton] at hMore
          -- After `n` steps the last `n` items are one place further.
          have hSteps : ∀ n m, n + m = l.length →
              ((List.range n).foldl (fun q i => q.replaceItemAt (q.itemCount - 1 - i)
                (q.getItemAt (q.itemCount - 1 - i - 1))) (q.addTail default)).Holds
                  ((l ++ [default]).take (m + 1) ++ l.drop m) := by
            intro n
            induction n with
            | zero =>
              intro m hm
              rw [Nat.zero_add] at hm
              rw [hm, List.drop_length, List.append_nil, List.take_of_length_le (by simp)]
              exact hAdded
            | succ n ih =>
              intro m hm
              have hMoved := ih (m + 1) (by omega)
              have hShort : m < l.length := by omega
              rw [List.range_succ, List.foldl_append, List.foldl_cons, List.foldl_nil]
              have hSize := hMoved.itemCount
              rw [List.length_append, List.length_take, List.length_drop, List.length_append, List.length_singleton]
                at hSize
              generalize (List.range n).foldl (fun q i => q.replaceItemAt (q.itemCount - 1 - i)
                (q.getItemAt (q.itemCount - 1 - i - 1))) (q.addTail default) = p at hMoved hSize ⊢
              rw [show p.itemCount - 1 - n = m + 1 by omega, Nat.add_sub_cancel,
                hMoved.getItemAt_eq (tailGap_before default hShort)]
              have hNext := hMoved.replaceItemAt (m + 1) l[m]
              rw [tailGap_set default hShort] at hNext
              rwa [List.take_append_of_le_length hShort, List.drop_eq_getElem_cons hShort]
          have hLoop := (hSteps (l.length - i) i (by omega)).replaceItemAt i x
          rw [tailGap_set default (by omega)] at hLoop
          dsimp only
          rwa [insertIdx_eq x (by omega), hMore, Nat.add_sub_cancel]

theorem Holds.clear (h : q.Holds l) (release : Bool) : (q.clear release).Holds [] := by
  unfold Queue.clear
  split
  next => exact ⟨rfl, Nat.zero_le _, Nat.zero_le _, fun _ => rfl, nofun, nofun, nofun, nofun, nofun⟩
  next =>
    have hAll := h.removeTails q.itemCount
    rwa [h.itemCount, Nat.sub_self, List.take_zero, ← h.itemCount] at hAll

/-! ### Reversing -/

/-- The list with the part from `first` to before `last` reversed. -/
def reverseRange (l : List α) (first last : Nat) : List α :=
  l.take first ++ ((l.take last).drop first).reverse ++ l.drop (max first last)

omit [Inhabited α] in
theorem getElem?_reverseRange (l : List α) {first last : Nat} (hLast : last ≤ l.length) (k : Nat) :
    (reverseRange l first last)[k]? = if first ≤ k ∧ k < last then l[first + last - 1 - k]? else l[k]? := by
  unfold reverseRange
  rw [List.getElem?_append, List.getElem?_append]
  simp only [List.length_append, List.length_reverse, List.length_drop, List.length_take]
  split
  next hBefore =>
    split
    next hFirst => rw [List.getElem?_take_of_lt (by omega), if_neg (by omega)]
    next hMiddle =>
      rw [List.getElem?_reverse (by rw [List.length_drop, List.length_take]; omega), List.length_drop,
        List.length_take, List.getElem?_drop, List.getElem?_take_of_lt (by omega), if_pos (by omega)]
      congr 1
      omega
  next hAfter =>
    rw [List.getElem?_drop]
    split
    next hk => omega
    next => grind

theorem Holds.swap (h : q.Holds l) {i j : Nat} (hi : i < l.length) (hj : j < l.length) :
    (q.swap i j).Holds ((l.set i l[j]).set j l[i]) := by
  unfold Queue.swap
  dsimp only
  rw [h.getItemAt hi, h.getItemAt hj]
  exact (h.replaceItemAt i l[j]).replaceItemAt j l[i]

theorem Holds.reverseLoop (h : q.Holds l) (fuel first last : Nat) (hLast : last < l.length)
    (hFuel : last - first ≤ fuel) : (reverseLoop fuel first last q).Holds (reverseRange l first (last + 1)) := by
  have hSame : ¬first < last → reverseRange l first (last + 1) = l := by
    intro hNot
    refine List.ext_getElem? fun k => ?_
    rw [getElem?_reverseRange l hLast k]
    split
    next hk => rw [show first + (last + 1) - 1 - k = k by omega]
    next => rfl
  induction fuel generalizing q l first last with
  | zero =>
    rw [hSame (by omega)]
    exact h
  | succ fuel ih =>
    unfold Queue.reverseLoop
    split
    next hLt =>
      have hSwap := h.swap (show first < l.length by omega) hLast
      have hStep : reverseRange l first (last + 1) =
          reverseRange ((l.set first l[last]).set last l[first]) (first + 1) (last - 1 + 1) := by
        refine List.ext_getElem? fun k => ?_
        rw [getElem?_reverseRange l hLast k, getElem?_reverseRange _ (by simp; omega) k]
        grind
      rw [hStep]
      refine ih hSwap (first + 1) (last - 1) (by simp; omega) (by omega) fun hNot => ?_
      refine List.ext_getElem? fun k => ?_
      rw [getElem?_reverseRange _ (by simp; omega) k]
      split
      next hk => rw [show first + 1 + (last - 1 + 1) - 1 - k = k by omega]
      next => rfl
    next hNot =>
      rw [hSame hNot]
      exact h

/-- `ReverseItemOrdering` takes an end of 0 for the end of the queue. -/
theorem Holds.reverseItemOrdering (h : q.Holds l) {first toIndex : Nat} (hTo : toIndex < 2 ^ 32)
    (hNotZero : toIndex ≠ 0 ∨ l.length ≤ first + 1) :
    (q.reverseItemOrdering first toIndex).Holds (reverseRange l first (min toIndex l.length)) := by
  unfold Queue.reverseItemOrdering
  have hCount := h.itemCount
  have hLe := h.count_le
  have hSize := h.size_le
  split
  next hNone =>
    have hNil : l = [] := List.length_eq_zero_iff.mp (by omega)
    rw [hNil] at h ⊢
    unfold reverseRange
    simpa using h
  next hSome =>
    dsimp only
    have hLoop := h.reverseLoop q.itemCount first
      (if word (toIndex + (2 ^ 32 - 1)) ≥ q.itemCount then q.itemCount - 1 else word (toIndex + (2 ^ 32 - 1)))
      (by split <;> omega) (by split <;> omega)
    rcases Nat.eq_zero_or_pos toIndex with hZero | hPos
    · have hSame : reverseRange l first (min toIndex l.length) = reverseRange l first
          ((if word (toIndex + (2 ^ 32 - 1)) ≥ q.itemCount then q.itemCount - 1
            else word (toIndex + (2 ^ 32 - 1))) + 1) := by
        have hShort := hNotZero.resolve_left (not_not.mpr hZero)
        rw [hZero, if_pos (by unfold word; omega)]
        refine List.ext_getElem? fun k => ?_
        rw [getElem?_reverseRange l (by omega) k, getElem?_reverseRange l (by omega) k, if_neg (by omega)]
        split
        next hk => rw [show first + (q.itemCount - 1 + 1) - 1 - k = k by omega]
        next => rfl
      rw [hSame]
      exact hLoop
    · have hWord : word (toIndex + (2 ^ 32 - 1)) = toIndex - 1 := by
        unfold word
        omega
      rw [hWord] at hLoop ⊢
      have hEnd : (if toIndex - 1 ≥ q.itemCount then q.itemCount - 1 else toIndex - 1) + 1 = min toIndex l.length := by
        split <;> omega
      rwa [hEnd] at hLoop

/-! ### Swapping -/

omit [Inhabited α] in
theorem isNull_of_isSmall (h : q.isSmall = true) : q.isNull = false := by
  unfold isSmall at h
  unfold isNull
  cases hQueue : q.queue <;> simp [hQueue] at h ⊢

/-- Where the inline array is not in use, its slots do not matter. -/
theorem Holds.otherSmall (h : q.Holds l) (hSmall : q.isSmall = false) (smallQueue : Nat → α) (initialSize : Nat) :
    ({ q with smallQueue := smallQueue, initialSize := initialSize } : Queue α).Holds l := by
  obtain ⟨small, queue, itemCount, headIndex, tailIndex, initial⟩ := q
  cases queue with
  | null =>
    have hLe : l.length ≤ 0 := h.count_le
    exact ⟨h.itemCount, h.count_le, h.size_le, h.null, fun i hi => absurd hi (by omega), h.head, h.tail, h.big,
      fun _ i _ hi => absurd hi (Nat.not_lt_zero i)⟩
  | small => cases hSmall
  | heap slots size => exact ⟨h.itemCount, h.count_le, h.size_le, h.null, h.item, h.head, h.tail, h.big, h.unused⟩

theorem Holds.swapContentsAux {l' : List α} (h : q.Holds l) (h' : p.Holds l') (hSmall : q.isSmall = true)
    (hLarge : p.isSmall = false) :
    (q.swapContentsAux p).1.Holds l' ∧ (q.swapContentsAux p).2.Holds l := by
  have hCount := h.itemCount
  have hLe := h.count_le
  rw [queueSize_of_isSmall hSmall] at hLe
  refine ⟨h'.otherSmall hLarge q.smallQueue q.initialSize, ?_⟩
  unfold Queue.swapContentsAux
  dsimp only
  split
  next hSome =>
    refine holds_flat hCount rfl ?_ hLe ?_ nofun (fun i hi => ?_) nofun nofun
    · change q.itemCount - 1 = _
      unfold word smallQueueSize at *
      omega
    · change smallQueueSize ≤ 2 ^ 31
      decide
    · change (if i < q.itemCount then q.getItemAt i else p.smallQueue i) = l[i]
      rw [if_pos (by omega), h.getItemAt hi]
  next hNone =>
    have hNil : l = [] := List.length_eq_zero_iff.mp (by omega)
    rw [hNil]
    exact ⟨by rw [hCount, hNil], Nat.zero_le _, Nat.zero_le _, fun _ => rfl, nofun, nofun, nofun, nofun, nofun⟩

/-- The first items change places. -/
theorem Holds.swapFirst (xs ys s t : List α) (h : q.Holds (xs ++ s)) (h' : p.Holds (ys ++ t))
    (hLength : xs.length = ys.length) :
    ((List.range xs.length).foldl (fun both i => (both.1.replaceItemAt i (both.2.getItemAt i),
      both.2.replaceItemAt i (both.1.getItemAt i))) (q, p)).1.Holds (ys ++ s) ∧
    ((List.range xs.length).foldl (fun both i => (both.1.replaceItemAt i (both.2.getItemAt i),
      both.2.replaceItemAt i (both.1.getItemAt i))) (q, p)).2.Holds (xs ++ t) := by
  have hSet : ∀ (zs ws u : List α) (n : Nat) (hn : n < ws.length) (_ : zs.length = ws.length),
      (ws.take n ++ (zs.drop n ++ u)).set n ws[n] = ws.take (n + 1) ++ (zs.drop (n + 1) ++ u) := by
    intro zs ws u n hn hSame
    have hDrop : zs.drop n = zs[n] :: zs.drop (n + 1) := List.drop_eq_getElem_cons (by omega)
    rw [hDrop, List.set_append_right _ _ (by rw [List.length_take]; omega), List.length_take_of_le (Nat.le_of_lt hn),
      Nat.sub_self, List.cons_append, List.set_cons_zero, List.take_succ_eq_append_getElem hn, List.append_assoc]
    rfl
  have hGet : ∀ (zs ws u : List α) (n : Nat) (hn : n < zs.length) (_ : zs.length = ws.length),
      (ws.take n ++ (zs.drop n ++ u))[n]? = some zs[n] := by
    intro zs ws u n hn hSame
    rw [List.getElem?_append_right (by rw [List.length_take]; omega), List.length_take_of_le (by omega), Nat.sub_self,
      List.getElem?_append_left (by rw [List.length_drop]; omega), List.getElem?_drop, Nat.add_zero,
      List.getElem?_eq_getElem hn]
  have hSteps : ∀ n ≤ xs.length,
      ((List.range n).foldl (fun both i => (both.1.replaceItemAt i (both.2.getItemAt i),
        both.2.replaceItemAt i (both.1.getItemAt i))) (q, p)).1.Holds (ys.take n ++ (xs.drop n ++ s)) ∧
      ((List.range n).foldl (fun both i => (both.1.replaceItemAt i (both.2.getItemAt i),
        both.2.replaceItemAt i (both.1.getItemAt i))) (q, p)).2.Holds (xs.take n ++ (ys.drop n ++ t)) := by
    intro n hn
    induction n with
    | zero => exact ⟨h, h'⟩
    | succ n ih =>
      obtain ⟨hFirst, hSecond⟩ := ih (by omega)
      rw [List.range_succ, List.foldl_append, List.foldl_cons, List.foldl_nil]
      dsimp only
      rw [hFirst.getItemAt_eq (hGet xs ys s n (by omega) hLength),
        hSecond.getItemAt_eq (hGet ys xs t n (by omega) hLength.symm)]
      have hNext := hFirst.replaceItemAt n ys[n]
      have hNext' := hSecond.replaceItemAt n xs[n]
      rw [hSet xs ys s n (by omega) hLength] at hNext
      rw [hSet ys xs t n (by omega) hLength.symm] at hNext'
      exact ⟨hNext, hNext'⟩
  have hAll := hSteps xs.length (Nat.le_refl _)
  rw [List.take_length, List.drop_length, List.nil_append, List.take_of_length_le (Nat.le_of_eq hLength.symm),
    List.drop_of_length_le (Nat.le_of_eq hLength.symm), List.nil_append] at hAll
  exact hAll

/-- The items of the longer one that the other one has no counterparts of. -/
theorem Holds.moveRest {l' : List α} (h : q.Holds l) (h' : p.Holds l') (hSmall : q.isSmall = true)
    (hSmall' : p.isSmall = true) (hLe : l'.length ≤ l.length) :
    (q.ensureSize l'.length true 0).Holds (l.take l'.length) ∧
      (p.addTailOf q.itemCount (fun _ => q.getItemAt) l'.length (2 ^ 32 - 1)).Holds (l' ++ l.drop l'.length) := by
  have hFit := h.count_le
  have hCount := h.itemCount
  have hCount' := h'.itemCount
  have hSize := queueSize_of_isSmall hSmall
  have hSize' := queueSize_of_isSmall hSmall'
  refine ⟨h.ensureSize_cut (.inl ⟨isNull_of_isSmall hSmall, by omega⟩) hLe, ?_⟩
  have hBound : (l.drop l'.length).length ≤ 2 ^ 32 - 1 := by
    rw [List.length_drop]
    unfold smallQueueSize at hSize
    omega
  have hNew : numNewItems l.length l'.length (2 ^ 32 - 1) = l.length - l'.length := by
    rw [numNewItems_eq, List.take_of_length_le hBound, List.length_drop]
  have hMoved := h'.addTailOf l (fun _ => q.getItemAt) l'.length (2 ^ 32 - 1) (fun _ _ _ i hi => h.getItemAt hi)
    (.inl ⟨isNull_of_isSmall hSmall', by rw [hNew]; omega⟩)
  rwa [List.take_of_length_le hBound, ← hCount] at hMoved

theorem Holds.swapContents {l' : List α} (h : q.Holds l) (h' : p.Holds l') :
    (q.swapContents p).1.Holds l' ∧ (q.swapContents p).2.Holds l := by
  have hCount := h.itemCount
  have hCount' := h'.itemCount
  unfold Queue.swapContents
  split
  next hBoth =>
    dsimp only
    rw [hCount, hCount']
    split
    next hMore =>
      obtain ⟨hCut, hMoved⟩ := h.moveRest h' hBoth.1 hBoth.2 (Nat.le_of_lt hMore)
      rw [hCount] at hMoved
      have hTake : (l.take l'.length).length = l'.length := List.length_take_of_le (Nat.le_of_lt hMore)
      have hSwapped := Holds.swapFirst (l.take l'.length) l' [] (l.drop l'.length)
        (by rw [List.append_nil]; exact hCut) hMoved hTake
      rw [hTake, List.append_nil, List.take_append_drop] at hSwapped
      rw [Nat.min_eq_right (Nat.le_of_lt hMore)]
      exact hSwapped
    next hLess =>
      rw [Nat.not_lt] at hLess
      obtain ⟨hCut, hMoved⟩ := h'.moveRest h hBoth.2 hBoth.1 hLess
      rw [hCount'] at hMoved
      have hTake : l.length = (l'.take l.length).length := (List.length_take_of_le hLess).symm
      have hSwapped := Holds.swapFirst l (l'.take l.length) (l'.drop l.length) []
        hMoved (by rw [List.append_nil]; exact hCut) hTake
      rw [List.append_nil, List.take_append_drop] at hSwapped
      rw [Nat.min_eq_left hLess]
      exact hSwapped
  next hNot =>
    split
    next hSmall =>
      exact h.swapContentsAux h' hSmall (by simpa [hSmall] using hNot)
    next hLarge =>
      rw [Bool.not_eq_true] at hLarge
      split
      next hSmall' => exact (h'.swapContentsAux h hSmall' hLarge).symm
      next hLarge' =>
        rw [Bool.not_eq_true] at hLarge'
        exact ⟨h'.otherSmall hLarge' _ _, h.otherSmall hLarge _ _⟩

end Queue

end BeShare.Muscle.Queues
