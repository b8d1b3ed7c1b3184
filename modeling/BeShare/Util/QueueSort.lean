import BeShare.Lib.Rearranging
import BeShare.Lib.Rotation
import BeShare.Util.QueueParts
import Mathlib.Data.List.Induction

/-!
`Queue::Sort`: insertion of each item into the ones before it where there are few, else two sorted halves that are
merged in place. A merge cuts both halves at one of their items, rotates what is between the cuts, and goes on with the
two parts that this leaves.
-/

namespace BeShare.Muscle.Queues.Queue

open BeShare.Lib

variable {α : Type} [Inhabited α] (compareFunc : α → α → Int)

/-! ### The code -/

/-- The loop over `j`, with so many places left down to `first`. -/
def sinkLoop (first : Nat) : Nat → Queue α → Queue α
  | 0, q => q
  | places + 1, q =>
    let j := first + (places + 1)
    if compareFunc (q.getItemAt j) (q.getItemAt (j - 1)) < 0 then sinkLoop first places (q.swap j (j - 1)) else q

/-- The two loops for few items. -/
def bubbleSort (first toIndex : Nat) (q : Queue α) : Queue α :=
  (List.range' (first + 1) (toIndex - (first + 1))).foldl (fun q i => q.sinkLoop compareFunc first (i - first)) q

/-- `Lower` -/
def lower (q : Queue α) (first toIndex : Nat) (val : α) : Nat :=
  if toIndex > first then
    partitionPoint (fun mid => decide (compareFunc (q.getItemAt mid) val < 0)) (toIndex - first) first (toIndex - first)
  else first

/-- `Upper` -/
def upper (q : Queue α) (first toIndex : Nat) (val : α) : Nat :=
  if toIndex > first then
    partitionPoint (fun mid => !decide (compareFunc val (q.getItemAt mid) < 0)) (toIndex - first) first
      (toIndex - first)
  else first

/-- The loop that finds the greatest common denominator. -/
def gcdLoop (m n : Nat) : Nat :=
  if _h : n = 0 then m else gcdLoop n (m % n)
termination_by n
decreasing_by exact Nat.mod_lt _ (Nat.pos_of_ne_zero _h)

/-- The inner loop of the rotation: each item goes to the place `p1` before its own, until the place `stop` comes. -/
def cycleLoop (firstCut secondCut shift stop : Nat) : Nat → Nat → Nat → Queue α → Option (Queue α × Nat)
  | 0, _, _, _ => none
  | fuel + 1, p1, p2, q =>
    if p2 = stop then some (q, p1)
    else
      cycleLoop firstCut secondCut shift stop fuel p2
        (if secondCut - p2 > shift then p2 + shift else firstCut + (shift - (secondCut - p2)))
        (q.replaceItemAt p1 (q.getItemAt p2))

/-- The loop over the cycles, from the last one on. -/
def rotateLoop (fuel firstCut pivot secondCut : Nat) : Nat → Queue α → Option (Queue α)
  | 0, q => some q
  | n + 1, q =>
    let val := q.getItemAt (firstCut + n)
    let shift := pivot - firstCut
    let p1 := firstCut + n
    (cycleLoop firstCut secondCut shift (firstCut + n) fuel p1 (p1 + shift) q).bind fun stopped =>
      rotateLoop fuel firstCut pivot secondCut n (stopped.1.replaceItemAt stopped.2 val)

def rotate (fuel firstCut pivot secondCut : Nat) (q : Queue α) : Option (Queue α) :=
  if pivot ≠ firstCut ∧ pivot ≠ secondCut then
    rotateLoop fuel firstCut pivot secondCut (gcdLoop (secondCut - firstCut) (pivot - firstCut)) q
  else some q

structure Cuts where
  firstCut : Nat
  secondCut : Nat
  len11 : Nat
  len22 : Nat

/-- Where `Merge` cuts its two parts: the longer one in the middle. -/
def cuts (q : Queue α) (first pivot toIndex len1 len2 : Nat) : Cuts :=
  if len1 > len2 then
    let len11 := len1 / 2
    let firstCut := first + len11
    let secondCut := q.lower compareFunc pivot toIndex (q.getItemAt firstCut)
    ⟨firstCut, secondCut, len11, secondCut - pivot⟩
  else
    let len22 := len2 / 2
    let secondCut := pivot + len22
    let firstCut := q.upper compareFunc first pivot (q.getItemAt secondCut)
    ⟨firstCut, secondCut, firstCut - first, len22⟩

/-- `Merge`. It makes no more than `fuel` calls of itself inside each other, and none of its loops more turns. -/
def merge : Nat → Nat → Nat → Nat → Nat → Nat → Queue α → Option (Queue α)
  | 0, _, _, _, _, _, _ => none
  | fuel + 1, first, pivot, toIndex, len1, len2, q =>
    if len1 ≠ 0 ∧ len2 ≠ 0 then
      if len1 + len2 = 2 then
        some (if compareFunc (q.getItemAt pivot) (q.getItemAt first) < 0 then q.swap pivot first else q)
      else
        let c := q.cuts compareFunc first pivot toIndex len1 len2
        (q.rotate fuel c.firstCut pivot c.secondCut).bind fun q =>
          let newMid := c.firstCut + c.len22
          (merge fuel first c.firstCut newMid c.len11 c.len22 q).bind
            (merge fuel newMid c.secondCut toIndex (len1 - c.len11) (len2 - c.len22))
    else some q

/-- `Sort` -/
def sort : Nat → Nat → Nat → Queue α → Option (Queue α)
  | 0, _, _, _ => none
  | fuel + 1, first, toIndex, q =>
    let toIndex := if toIndex > q.itemCount then q.itemCount else toIndex
    if toIndex > first then
      if toIndex < word (first + 12) then some (q.bubbleSort compareFunc first toIndex)
      else
        let middle := word (first + toIndex) / 2
        (sort fuel first middle q).bind fun q => (sort fuel middle toIndex q).bind
          (merge compareFunc fuel first middle toIndex (middle - first) (toIndex - middle))
    else some q

variable {compareFunc} {q : Queue α} {l pre post u v : List α} {x y : α}

/-! ### Items -/

theorem Holds.at_length (h : q.Holds (pre ++ x :: post)) : q.getItemAt pre.length = x :=
  h.getItemAt_eq (by rw [List.getElem?_append_right (Nat.le_refl _), Nat.sub_self]; rfl)

theorem Holds.getItemAt_inside (h : q.Holds (pre ++ (u ++ post))) {i : Nat} (hi : i < u.length) :
    q.getItemAt (pre.length + i) = u[i] :=
  h.getItemAt_eq (by
    rw [List.getElem?_append_right (Nat.le_add_right ..), Nat.add_sub_cancel_left, List.getElem?_append_left hi,
      List.getElem?_eq_getElem hi])

/-- Neighbours change places. -/
theorem Holds.swap_neighbours (h : q.Holds (pre ++ x :: y :: post)) :
    (q.swap (pre.length + 1) pre.length).Holds (pre ++ y :: x :: post) := by
  have hx : q.getItemAt pre.length = x := h.at_length
  have hy : q.getItemAt (pre.length + 1) = y := by
    refine h.getItemAt_eq ?_
    rw [List.getElem?_append_right (Nat.le_add_right ..), Nat.add_sub_cancel_left]
    rfl
  unfold Queue.swap
  dsimp only
  rw [hx, hy]
  have hBoth := (h.replaceItemAt (pre.length + 1) x).replaceItemAt pre.length y
  rw [List.set_append_right _ _ (Nat.le_add_right ..), Nat.add_sub_cancel_left,
    List.set_append_right _ _ (Nat.le_refl _), Nat.sub_self] at hBoth
  exact hBoth

/-- The part of the queue has been sorted: what was before it and behind it is there as it was. -/
def Arranges (compareFunc : α → α → Int) (pre u post : List α) (q : Queue α) : Prop :=
  ∃ s, q.Holds (pre ++ (s ++ post)) ∧ Rearranges compareFunc u s ∧ SortedBy compareFunc s

/-! ### Few items -/

/-- Induction on the sorted items from the last one on: the new item passes those that come behind it. -/
theorem sinkLoop_spec (hOrders : Orders compareFunc Set.univ) (h : q.Holds (pre ++ (u ++ x :: post)))
    (hSorted : SortedBy compareFunc u) :
    Arranges compareFunc pre (u ++ [x]) post (q.sinkLoop compareFunc pre.length u.length) := by
  induction u using List.reverseRec generalizing q post with
  | nil => exact ⟨[x], h, .refl _ _, List.pairwise_singleton _ _⟩
  | append_singleton u y ih =>
    obtain ⟨hFront, -, hLast⟩ := List.pairwise_append.mp hSorted
    have hAt : q.Holds ((pre ++ u) ++ y :: x :: post) := by simpa using h
    have hy : q.getItemAt (pre.length + u.length) = y := by
      rw [← List.length_append]
      exact hAt.at_length
    have hx : q.getItemAt (pre.length + (u.length + 1)) = x := by
      refine hAt.getItemAt_eq ?_
      rw [List.getElem?_append_right (by rw [List.length_append]; omega), List.length_append,
        show pre.length + (u.length + 1) - (pre.length + u.length) = 1 by omega]
      rfl
    rw [List.length_append, List.length_singleton, sinkLoop, hx, show pre.length + (u.length + 1) - 1 =
      pre.length + u.length by omega, hy]
    by_cases hLess : compareFunc x y < 0
    · rw [if_pos hLess]
      have hSwapped : (q.swap (pre.length + (u.length + 1)) (pre.length + u.length)).Holds
          (pre ++ (u ++ x :: y :: post)) := by
        have hDone := hAt.swap_neighbours
        rw [List.length_append, Nat.add_assoc] at hDone
        simpa using hDone
      obtain ⟨s, hs, hStable, hInOrder⟩ := ih hSwapped hFront
      refine ⟨s ++ [y], by simpa using hs, ?_, hInOrder.append hOrders (List.pairwise_singleton _ _) (x := y) ?_ ?_⟩
      · have hTurn : Rearranges compareFunc ([y] ++ [x]) ([x] ++ [y]) := by
          refine .exchange hOrders fun a ha b hb => ?_
          rw [List.mem_singleton.mp ha, List.mem_singleton.mp hb]
          exact hLess
        have hBoth := ((Rearranges.refl compareFunc u).append hTurn).trans
          (List.append_assoc u [x] [y] ▸ hStable.append (.refl compareFunc [y]))
        rwa [← List.append_assoc] at hBoth
      · intro a ha
        rcases List.mem_append.mp (hStable.mem ha) with hOld | hNew
        · exact hLast a hOld y (List.mem_singleton.mpr rfl)
        · rw [List.mem_singleton.mp hNew]
          exact Int.le_of_lt hLess
      · intro b hb
        rw [List.mem_singleton.mp hb]
        exact hOrders.le_self y
    · rw [if_neg hLess]
      refine ⟨u ++ [y] ++ [x], by simpa using h, .refl _ _, ?_⟩
      refine hSorted.append hOrders (List.pairwise_singleton _ _) (x := y) (fun a ha => ?_) fun b hb => ?_
      · rcases List.mem_append.mp ha with hOld | hHere
        · exact hLast a hOld y (List.mem_singleton.mpr rfl)
        · rw [List.mem_singleton.mp hHere]
          exact hOrders.le_self y
      · rw [List.mem_singleton.mp hb]
        exact hOrders.le_of_not_neg hLess

theorem bubbleSort_rest (hOrders : Orders compareFunc Set.univ) (h : q.Holds (pre ++ (u ++ (v ++ post))))
    (hSorted : SortedBy compareFunc u) :
    Arranges compareFunc pre (u ++ v) post ((List.range' (pre.length + u.length) v.length).foldl
      (fun q i => q.sinkLoop compareFunc pre.length (i - pre.length)) q) := by
  induction v generalizing q u with
  | nil =>
    rw [List.append_nil]
    exact ⟨u, h, .refl _ _, hSorted⟩
  | cons x v ih =>
    obtain ⟨s, hs, hStable, hInOrder⟩ := sinkLoop_spec hOrders h hSorted
    have hLength : s.length = u.length + 1 := by rw [hStable.length, List.length_append, List.length_singleton]
    obtain ⟨s', hs', hStable', hInOrder'⟩ := ih hs hInOrder
    rw [List.length_cons, List.range'_succ, List.foldl_cons, Nat.add_sub_cancel_left]
    rw [hLength, ← Nat.add_assoc] at hs'
    refine ⟨s', hs', ?_, hInOrder'⟩
    have hBoth := (hStable.append (.refl compareFunc v)).trans hStable'
    rwa [List.append_assoc] at hBoth

theorem bubbleSort_spec (hOrders : Orders compareFunc Set.univ) (h : q.Holds (pre ++ (u ++ post))) :
    Arranges compareFunc pre u post (q.bubbleSort compareFunc pre.length (pre.length + u.length)) := by
  cases u with
  | nil =>
    rw [bubbleSort, show pre.length + ([] : List α).length - (pre.length + 1) = 0 by simp]
    exact ⟨[], h, .refl _ _, List.Pairwise.nil⟩
  | cons x u =>
    rw [bubbleSort, List.length_cons, show pre.length + (u.length + 1) - (pre.length + 1) = u.length by omega]
    exact bubbleSort_rest (u := [x]) hOrders h (List.pairwise_singleton _ _)

/-! ### The cuts -/

/-- A search that goes by a property of the items cuts a part in two where the property ends. -/
theorem cut_spec {p : α → Bool} (h : q.Holds (pre ++ (u ++ post)))
    (hOnce : u.Pairwise fun a b => p b = true → p a = true) :
    ∃ u₁ u₂, u = u₁ ++ u₂ ∧ (∀ a ∈ u₁, p a = true) ∧ (∀ b ∈ u₂, p b = false) ∧
      (if pre.length + u.length > pre.length then
        partitionPoint (fun mid => p (q.getItemAt mid)) (pre.length + u.length - pre.length) pre.length
          (pre.length + u.length - pre.length)
      else pre.length) = pre.length + u₁.length := by
  cases u with
  | nil => exact ⟨[], [], rfl, nofun, nofun, if_neg (Nat.lt_irrefl _)⟩
  | cons x u =>
    have hItem : ∀ i (hi : i < (x :: u).length), q.getItemAt (pre.length + i) = (x :: u)[i] :=
      fun i hi => h.getItemAt_inside hi
    generalize x :: u = u at *
    rw [Nat.add_sub_cancel_left]
    obtain ⟨hFirst, hEnd, hBefore, hBehind⟩ := @partitionPoint_spec (fun mid => p (q.getItemAt mid)) u.length pre.length
      u.length (Nat.le_refl _) fun i j hi hij hj hp => by
        obtain ⟨a, rfl⟩ := Nat.exists_eq_add_of_le hi
        obtain ⟨b, rfl⟩ := Nat.exists_eq_add_of_le (Nat.le_trans hi hij)
        have hb : b < u.length := by omega
        have ha : a < u.length := by omega
        rw [hItem b hb] at hp
        rw [hItem a ha]
        rcases Nat.lt_or_eq_of_le (show a ≤ b by omega) with hLess | rfl
        · exact List.pairwise_iff_getElem.mp hOnce a b ha hb hLess hp
        · exact hp
    generalize hCut : partitionPoint (fun mid => p (q.getItemAt mid)) u.length pre.length u.length = cut at *
    obtain ⟨k, rfl⟩ := Nat.exists_eq_add_of_le hFirst
    refine ⟨u.take k, u.drop k, (List.take_append_drop k u).symm, fun a ha => ?_, fun b hb => ?_, ?_⟩
    · obtain ⟨i, hi, rfl⟩ := List.mem_take_iff_getElem.mp ha
      have hp := hBefore (pre.length + i) (Nat.le_add_right ..) (by omega)
      rwa [hItem i (by omega)] at hp
    · obtain ⟨i, hi, rfl⟩ := List.mem_drop_iff_getElem.mp hb
      have hp := hBehind (pre.length + (k + i)) (by omega) (by omega)
      rwa [hItem (k + i) (by omega)] at hp
    · rw [List.length_take, Nat.min_eq_left (by omega)]
      split
      · rfl
      · omega

theorem lower_spec (hOrders : Orders compareFunc Set.univ) (h : q.Holds (pre ++ (u ++ post)))
    (hSorted : SortedBy compareFunc u) (val : α) :
    ∃ u₁ u₂, u = u₁ ++ u₂ ∧ (∀ a ∈ u₁, compareFunc a val < 0) ∧ (∀ b ∈ u₂, compareFunc val b ≤ 0) ∧
      q.lower compareFunc pre.length (pre.length + u.length) val = pre.length + u₁.length := by
  obtain ⟨u₁, u₂, hu, hBefore, hBehind, hCut⟩ := cut_spec (p := fun item => decide (compareFunc item val < 0)) h
    (hSorted.imp fun {a b} hab hb => decide_eq_true (by
      rw [decide_eq_true_iff] at hb
      by_contra hNot
      have hBack := hOrders.le_trans (hOrders.le_of_not_neg hNot) hab
      rw [hOrders.neg_iff] at hb
      omega))
  exact ⟨u₁, u₂, hu, fun a ha => of_decide_eq_true (hBefore a ha),
    fun b hb => hOrders.le_of_not_neg (of_decide_eq_false (hBehind b hb)), hCut⟩

theorem upper_spec (hOrders : Orders compareFunc Set.univ) (h : q.Holds (pre ++ (u ++ post)))
    (hSorted : SortedBy compareFunc u) (val : α) :
    ∃ u₁ u₂, u = u₁ ++ u₂ ∧ (∀ a ∈ u₁, compareFunc a val ≤ 0) ∧ (∀ b ∈ u₂, compareFunc val b < 0) ∧
      q.upper compareFunc pre.length (pre.length + u.length) val = pre.length + u₁.length := by
  obtain ⟨u₁, u₂, hu, hBefore, hBehind, hCut⟩ := cut_spec (p := fun item => !decide (compareFunc val item < 0)) h
    (hSorted.imp fun {a b} hab hb => by
      rw [Bool.not_eq_true', decide_eq_false_iff_not] at hb ⊢
      intro ha
      have hBack := hOrders.le_trans hab (hOrders.le_of_not_neg hb)
      rw [hOrders.neg_iff] at ha
      omega)
  refine ⟨u₁, u₂, hu, fun a ha => hOrders.le_of_not_neg ?_, fun b hb => ?_, hCut⟩
  · simpa using hBefore a ha
  · simpa using hBehind b hb

/-! ### The rotation -/

theorem gcdLoop_eq (m n : Nat) : gcdLoop m n = m.gcd n := by
  induction m, n using gcdLoop.induct with
  | case1 m => rw [gcdLoop, dif_pos rfl, Nat.gcd_zero_right]
  | case2 m n h ih => rw [gcdLoop, dif_neg h, ih, Nat.gcd_comm n (m % n), ← Nat.gcd_rec, Nat.gcd_comm]

section

variable {firstCut n shift start k : Nat} {m m' : List α}

/-- The places of a cycle in the queue. -/
def place (firstCut n shift start k : Nat) : Nat :=
  firstCut + around n shift start k

/-- From the step `k` on the loop goes through the rest of the cycle. -/
theorem cycleLoop_spec (hShift : 0 < shift) (hn : shift < n) (hStart : start < n) (hIn : firstCut + n ≤ m.length)
    (h : q.Holds m') (hMoved : Moved (place firstCut n shift start) k m m') {fuel : Nat}
    (hk : k < n / n.gcd shift) (hFuel : n / n.gcd shift - k ≤ fuel) :
    ∃ q' m'', cycleLoop firstCut (firstCut + n) shift (firstCut + start) fuel (place firstCut n shift start k)
        (place firstCut n shift start (k + 1)) q =
          some (q', place firstCut n shift start (n / n.gcd shift - 1)) ∧ q'.Holds m'' ∧
      Moved (place firstCut n shift start) (n / n.gcd shift - 1) m m'' := by
  have hPos : 0 < n := Nat.lt_trans hShift hn
  induction fuel generalizing q m' k with
  | zero => omega
  | succ fuel ih =>
    have hStop : place firstCut n shift start (k + 1) = firstCut + start ↔ k + 1 = n / n.gcd shift := by
      have hZero : firstCut + start = place firstCut n shift start 0 := by rw [place, around_zero hStart]
      rw [hZero, place, place, Nat.add_left_cancel_iff, around_eq_iff hPos, Nat.modEq_zero_iff_dvd]
      exact ⟨fun hDvd => Nat.le_antisymm hk (Nat.le_of_dvd (Nat.succ_pos k) hDvd), fun hSame => hSame ▸ Nat.dvd_refl _⟩
    rw [cycleLoop]
    by_cases hLast : k + 1 = n / n.gcd shift
    · rw [if_pos (hStop.mpr hLast), show n / n.gcd shift - 1 = k by omega]
      exact ⟨q, m', rfl, h, hMoved⟩
    · rw [if_neg (mt hStop.mp hLast)]
      have hLt : ∀ j, around n shift start j < n := fun j => around_lt hPos
      have hNext : (if firstCut + n - place firstCut n shift start (k + 1) > shift then
          place firstCut n shift start (k + 1) + shift
          else firstCut + (shift - (firstCut + n - place firstCut n shift start (k + 1)))) =
            place firstCut n shift start (k + 1 + 1) := by
        have hStep := step_around (hLt (k + 1)) hn
        rw [place, place, around_succ (k := k + 1), ← hStep, Nat.add_sub_add_left]
        split <;> omega
      have hNew : ∀ j < k + 1, place firstCut n shift start (k + 1) ≠ place firstCut n shift start j := by
        intro j hj hSame
        have hBoth := around_inj hPos (by omega) (by omega) (Nat.add_left_cancel hSame)
        omega
      have hOld : ∀ j < k, place firstCut n shift start k ≠ place firstCut n shift start j := by
        intro j hj hSame
        have hBoth := around_inj hPos (by omega) (by omega) (Nat.add_left_cancel hSame)
        omega
      have hThere : ∀ j, place firstCut n shift start j < m.length := by
        intro j
        have hj := hLt j
        rw [place]
        omega
      have hItem := List.getElem?_eq_getElem (hThere (k + 1))
      rw [hNext, h.getItemAt_eq ((hMoved.others _ fun j hj => hNew j (by omega)).trans hItem)]
      exact ih (h.replaceItemAt _ _) (hMoved.set hOld (hThere k) hItem) (by omega) (by omega)

/-- Induction on the cycles that are left: the places of the others have what belongs there. -/
theorem rotateLoop_spec (hShift : 0 < shift) (hn : shift < n) (hIn : firstCut + n ≤ m.length) {fuel cycles : Nat}
    (hFuel : n ≤ fuel) (hCycles : cycles ≤ n.gcd shift) (h : q.Holds m') (hLength : m'.length = m.length)
    (hInside : ∀ i < n, m'[firstCut + i]? =
      if cycles ≤ i % n.gcd shift then m[firstCut + (i + shift) % n]? else m[firstCut + i]?)
    (hOutside : ∀ i, i < firstCut ∨ firstCut + n ≤ i → m'[i]? = m[i]?) :
    ∃ q' m'', rotateLoop fuel firstCut (firstCut + shift) (firstCut + n) cycles q = some q' ∧ q'.Holds m'' ∧
      (∀ i < n, m''[firstCut + i]? = m[firstCut + (i + shift) % n]?) ∧
      ∀ i, i < firstCut ∨ firstCut + n ≤ i → m''[i]? = m[i]? := by
  have hPos : 0 < n := Nat.lt_trans hShift hn
  have hGcd : n.gcd shift < n := Nat.lt_of_le_of_lt (Nat.gcd_le_right n hShift) hn
  have hCycle : 0 < n / n.gcd shift := Nat.div_pos hGcd.le (Nat.gcd_pos_of_pos_right n hShift)
  induction cycles generalizing q m' with
  | zero => exact ⟨q, m', rfl, h, fun i hi => (hInside i hi).trans (if_pos (Nat.zero_le _)), hOutside⟩
  | succ start ih =>
    have hStart : start < n := by omega
    have hRest : start % n.gcd shift = start := Nat.mod_eq_of_lt hCycles
    have hFirst : place firstCut n shift start 0 = firstCut + start := by rw [place, around_zero hStart]
    have hSecond : place firstCut n shift start 1 = firstCut + start + shift := by
      rw [place, around_succ, around_zero hStart, Nat.mod_eq_of_lt, Nat.add_assoc]
      obtain ⟨a, ha⟩ := Nat.gcd_dvd_left n shift
      obtain ⟨b, hb⟩ := Nat.gcd_dvd_right n shift
      have hLess : b < a := Nat.lt_of_mul_lt_mul_left (hb ▸ ha ▸ hn : n.gcd shift * b < n.gcd shift * a)
      have hRoom : n.gcd shift * (b + 1) ≤ n.gcd shift * a := Nat.mul_le_mul_left _ hLess
      rw [Nat.mul_add, Nat.mul_one, ← ha, ← hb] at hRoom
      omega
    obtain ⟨q', m'', hRun, hHolds, hMoved⟩ := cycleLoop_spec hShift hn hStart
      (hLength ▸ hIn : firstCut + n ≤ m'.length) h (Moved.zero : Moved (place firstCut n shift start) 0 m' m') hCycle
      (Nat.le_trans (Nat.sub_le ..) (Nat.le_trans (Nat.div_le_self ..) hFuel))
    rw [hFirst, hSecond] at hRun
    have hItem : m'[firstCut + start]? = some (q.getItemAt (firstCut + start)) := by
      have hHere := List.getElem?_eq_getElem (show firstCut + start < m'.length by omega)
      rw [h.getItemAt_eq hHere, hHere]
    have hBack : place firstCut n shift start (n / n.gcd shift - 1 + 1) = firstCut + start := by
      rw [Nat.sub_add_cancel hCycle, ← hFirst, place, place, Nat.add_left_cancel_iff, around_eq_iff hPos]
      exact Nat.modEq_zero_iff_dvd.mpr (Nat.dvd_refl _)
    have hAll := hMoved.set (x := q.getItemAt (firstCut + start))
      (fun j hj hSame => by
        have hBoth := around_inj hPos (by omega) (by omega) (Nat.add_left_cancel hSame)
        omega)
      (by
        have hLt := @around_lt n shift start (n / n.gcd shift - 1) hPos
        rw [place]
        omega)
      (hBack ▸ hItem)
    rw [Nat.sub_add_cancel hCycle] at hAll
    rw [rotateLoop]
    rw [Nat.add_sub_cancel_left, hRun]
    refine ih (by omega) (hHolds.replaceItemAt _ _) (hAll.length.trans hLength) (fun i hi => ?_) fun i hi => ?_
    · by_cases hHere : i % n.gcd shift = start
      · obtain ⟨k, hk, hi'⟩ := around_surj hShift hn hi hHere.symm
        have hNotYet : ¬start + 1 ≤ (i + shift) % n % n.gcd shift := by
          rw [mod_gcd_step, hHere]
          omega
        have hTo : place firstCut n shift start k = firstCut + i := by rw [place, hi']
        have hOrigin : place firstCut n shift start (k + 1) = firstCut + (i + shift) % n := by
          rw [place, around_succ, hi']
        have hMovedHere := hAll.moved k hk
        rw [hTo, hOrigin, hInside _ (Nat.mod_lt _ hPos), if_neg hNotYet] at hMovedHere
        rw [hMovedHere, if_pos (Nat.le_of_eq hHere.symm)]
      · rw [hAll.others, hInside i hi]
        · exact if_congr (by omega) rfl rfl
        · intro j _ hSame
          have hRestHere := @around_mod_gcd n shift start j hStart
          rw [← Nat.add_left_cancel hSame, hRest] at hRestHere
          exact hHere hRestHere
    · rw [hAll.others, hOutside i hi]
      intro j _ hSame
      have hLt := @around_lt n shift start j hPos
      rw [place] at hSame
      omega

/-- The rotation exchanges the parts before and behind the pivot. -/
theorem rotate_spec {fuel : Nat} (h : q.Holds (pre ++ (u ++ (v ++ post)))) (hFuel : u.length + v.length ≤ fuel) :
    ∃ q', q.rotate fuel pre.length (pre.length + u.length) (pre.length + u.length + v.length) = some q' ∧
      q'.Holds (pre ++ (v ++ (u ++ post))) := by
  rw [rotate]
  by_cases hu : u = []
  · subst hu
    rw [if_neg (by simp)]
    exact ⟨q, rfl, h⟩
  by_cases hv : v = []
  · subst hv
    rw [if_neg (by simp)]
    exact ⟨q, rfl, h⟩
  have huPos := List.length_pos_iff.mpr hu
  have hvPos := List.length_pos_iff.mpr hv
  rw [if_pos (by omega), gcdLoop_eq, Nat.add_assoc, Nat.add_sub_cancel_left, Nat.add_sub_cancel_left]
  rw [← List.append_assoc u] at h
  obtain ⟨q', m'', hRun, hHolds, hInside, hOutside⟩ := rotateLoop_spec huPos
    (show u.length < u.length + v.length by omega)
    (show pre.length + (u.length + v.length) ≤ (pre ++ (u ++ v ++ post)).length by
      simp only [List.length_append]
      omega)
    hFuel (Nat.le_refl ((u.length + v.length).gcd u.length)) h rfl
    (fun i _ => (if_neg (Nat.not_le.mpr (Nat.mod_lt _ (Nat.gcd_pos_of_pos_right _ huPos)))).symm) fun _ _ => rfl
  refine ⟨q', hRun, ?_⟩
  rw [← List.append_assoc v, ← exchanged hInside hOutside]
  exact hHolds

end

/-! ### The merge -/

/-- What the cuts of two sorted parts are: all that comes to stand before the new middle belongs before an item, and all
behind it belongs behind that, and what the rotation moves past each other belongs there. -/
structure Cut (compareFunc : α → α → Int) (u₁ u₂ v₁ v₂ : List α) (mid : α) : Prop where
  before : ∀ a ∈ u₁ ++ v₁, compareFunc a mid ≤ 0
  behind : ∀ b ∈ u₂ ++ v₂, compareFunc mid b ≤ 0
  across : ∀ a ∈ u₂, ∀ b ∈ v₁, compareFunc b a < 0
  shorter : u₁.length + v₁.length < u₁.length + u₂.length + (v₁.length + v₂.length) ∧
    u₂.length + v₂.length < u₁.length + u₂.length + (v₁.length + v₂.length)

theorem cuts_spec (hOrders : Orders compareFunc Set.univ) (h : q.Holds (pre ++ (u ++ (v ++ post))))
    (hu : SortedBy compareFunc u) (hv : SortedBy compareFunc v) (huSome : u ≠ []) (hvSome : v ≠ [])
    (hLong : u.length + v.length ≠ 2) :
    ∃ u₁ u₂ v₁ v₂ mid, u = u₁ ++ u₂ ∧ v = v₁ ++ v₂ ∧ Cut compareFunc u₁ u₂ v₁ v₂ mid ∧
      q.cuts compareFunc pre.length (pre.length + u.length) (pre.length + u.length + v.length) u.length v.length =
        ⟨pre.length + u₁.length, pre.length + u.length + v₁.length, u₁.length, v₁.length⟩ := by
  have huPos := List.length_pos_iff.mpr huSome
  have hvPos := List.length_pos_iff.mpr hvSome
  have hv' : q.Holds ((pre ++ u) ++ (v ++ post)) := by rwa [List.append_assoc]
  rw [cuts]
  by_cases hLonger : u.length > v.length
  · rw [if_pos hLonger]
    have hHalf : u.length / 2 < u.length := Nat.div_lt_self huPos (by decide)
    obtain ⟨v₁, v₂, rfl, hBefore, hBehind, hCut⟩ := lower_spec hOrders hv' hv (u[u.length / 2])
    rw [List.length_append] at hCut
    have hSplit := (List.take_append_drop (u.length / 2) u).symm
    have hFirstLength : (u.take (u.length / 2)).length = u.length / 2 := by rw [List.length_take]; omega
    have hSecondLength : (u.drop (u.length / 2)).length = u.length - u.length / 2 := List.length_drop
    obtain ⟨hFront, hMid⟩ := hu.at_element hOrders hHalf
    refine ⟨u.take (u.length / 2), u.drop (u.length / 2), v₁, v₂, u[u.length / 2], hSplit, rfl, ⟨?_, ?_, ?_, ?_⟩, ?_⟩
    · exact fun a ha => (List.mem_append.mp ha).elim (hFront a) fun ha => Int.le_of_lt (hBefore a ha)
    · exact fun b hb => (List.mem_append.mp hb).elim (hMid b) (hBehind b)
    · exact fun a ha b hb => hOrders.lt_of_lt_of_le (hBefore b hb) (hMid a ha)
    · rw [List.length_append] at hvPos hLonger
      omega
    · dsimp only
      rw [h.getItemAt_inside hHalf, hFirstLength, hCut, Nat.add_sub_cancel_left]
  · rw [if_neg hLonger]
    have hHalf : v.length / 2 < v.length := Nat.div_lt_self hvPos (by decide)
    obtain ⟨u₁, u₂, rfl, hBefore, hBehind, hCut⟩ := upper_spec hOrders h hu (v[v.length / 2])
    have hSplit := (List.take_append_drop (v.length / 2) v).symm
    have hFirstLength : (v.take (v.length / 2)).length = v.length / 2 := by rw [List.length_take]; omega
    have hSecondLength : (v.drop (v.length / 2)).length = v.length - v.length / 2 := List.length_drop
    obtain ⟨hFront, hMid⟩ := hv.at_element hOrders hHalf
    refine ⟨u₁, u₂, v.take (v.length / 2), v.drop (v.length / 2), v[v.length / 2], rfl, hSplit, ⟨?_, ?_, ?_, ?_⟩, ?_⟩
    · exact fun a ha => (List.mem_append.mp ha).elim (hBefore a) (hFront a)
    · exact fun b hb => (List.mem_append.mp hb).elim (fun hb => Int.le_of_lt (hBehind b hb)) (hMid b)
    · exact fun a ha b hb => hOrders.lt_of_le_of_lt (hFront b hb) (hBehind a ha)
    · rw [List.length_append] at huPos hLonger hLong
      omega
    · dsimp only
      have hMidItem := hv'.getItemAt_inside hHalf
      rw [List.length_append] at hMidItem
      rw [hMidItem, hCut, hFirstLength, Nat.add_sub_cancel_left]

/-- Two sorted neighbours are merged. Induction on the calls inside each other: after the rotation there are two merges
of fewer items. -/
theorem merge_spec (hOrders : Orders compareFunc Set.univ) {fuel : Nat} (h : q.Holds (pre ++ (u ++ (v ++ post))))
    (hu : SortedBy compareFunc u) (hv : SortedBy compareFunc v) (hFuel : u.length + v.length < fuel) :
    ∃ q', q.merge compareFunc fuel pre.length (pre.length + u.length) (pre.length + u.length + v.length) u.length
      v.length = some q' ∧ Arranges compareFunc pre (u ++ v) post q' := by
  induction fuel generalizing q pre u v post with
  | zero => omega
  | succ fuel ih =>
    rw [merge]
    by_cases hSome : u.length ≠ 0 ∧ v.length ≠ 0
    · rw [if_pos hSome]
      by_cases hTwo : u.length + v.length = 2
      · rw [if_pos hTwo]
        obtain ⟨x, rfl⟩ := List.length_eq_one_iff.mp (show u.length = 1 by omega)
        obtain ⟨y, rfl⟩ := List.length_eq_one_iff.mp (show v.length = 1 by omega)
        have hSunk := sinkLoop_spec hOrders h hu
        exact ⟨_, rfl, hSunk⟩
      · rw [if_neg hTwo]
        obtain ⟨u₁, u₂, v₁, v₂, mid, rfl, rfl, hCut, hCuts⟩ := cuts_spec hOrders h hu hv
          (fun hNil => hSome.1 (List.length_eq_zero_iff.mpr hNil))
          (fun hNil => hSome.2 (List.length_eq_zero_iff.mpr hNil)) hTwo
        obtain ⟨hu₁, hu₂, -⟩ := List.pairwise_append.mp hu
        obtain ⟨hv₁, hv₂, -⟩ := List.pairwise_append.mp hv
        have hShort := hCut.shorter
        simp only [List.length_append] at hFuel
        have hParts : q.Holds ((pre ++ u₁) ++ (u₂ ++ (v₁ ++ (v₂ ++ post)))) := by simpa using h
        obtain ⟨q₁, hRotate, hRotated⟩ := rotate_spec hParts (show u₂.length + v₁.length ≤ fuel by omega)
        have hLeft : q₁.Holds (pre ++ (u₁ ++ (v₁ ++ (u₂ ++ (v₂ ++ post))))) := by simpa using hRotated
        obtain ⟨q₂, hMergeLeft, s₁, hs₁, hStable₁, hSorted₁⟩ := ih hLeft hu₁ hv₁ (by omega)
        have hLength₁ : s₁.length = u₁.length + v₁.length := by rw [hStable₁.length, List.length_append]
        have hRight : q₂.Holds ((pre ++ s₁) ++ (u₂ ++ (v₂ ++ post))) := by simpa using hs₁
        obtain ⟨q₃, hMergeRight, s₂, hs₂, hStable₂, hSorted₂⟩ := ih hRight hu₂ hv₂ (by omega)
        refine ⟨q₃, ?_, s₁ ++ s₂, by simpa using hs₂, ?_, ?_⟩
        · rw [hCuts]
          dsimp only
          simp only [List.length_append] at hRotate hMergeRight ⊢
          rw [show pre.length + (u₁.length + u₂.length) = pre.length + u₁.length + u₂.length by omega, hRotate,
            Option.bind_some, hMergeLeft, Option.bind_some, Nat.add_sub_cancel_left, Nat.add_sub_cancel_left,
            ← hMergeRight, hLength₁]
          congr 1 <;> omega
        · have hExchange := (Rearranges.refl compareFunc u₁).append
            ((Rearranges.exchange hOrders hCut.across).append (.refl compareFunc v₂))
          have hBoth := hStable₁.append hStable₂
          refine Rearranges.trans ?_ hBoth
          simpa using hExchange
        · exact hSorted₁.append hOrders hSorted₂ (fun a ha => hCut.before a (hStable₁.mem ha))
            fun b hb => hCut.behind b (hStable₂.mem hb)
    · rw [if_neg hSome]
      refine ⟨q, rfl, u ++ v, by simpa using h, .refl _ _, ?_⟩
      rcases Decidable.not_and_iff_or_not.mp hSome with hNone | hNone
      · rw [List.length_eq_zero_iff.mp (not_not.mp hNone), List.nil_append]
        exact hv
      · rw [List.length_eq_zero_iff.mp (not_not.mp hNone), List.append_nil]
        exact hu

/-! ### The whole -/

/-- Induction on the calls inside each other: the halves are sorted, and then merged. -/
theorem sort_part (hOrders : Orders compareFunc Set.univ) {fuel : Nat} (h : q.Holds (pre ++ (u ++ post)))
    (hFuel : u.length + 1 < fuel) :
    ∃ q', q.sort compareFunc fuel pre.length (pre.length + u.length) = some q' ∧
      Arranges compareFunc pre u post q' := by
  induction fuel generalizing q pre u post with
  | zero => omega
  | succ fuel ih =>
    have hCount := h.itemCount
    have hSize := h.size_le
    have hLe := h.count_le
    simp only [List.length_append] at hCount hLe
    rw [sort]
    dsimp only
    rw [if_neg (show ¬pre.length + u.length > q.itemCount by omega)]
    by_cases hSome : pre.length + u.length > pre.length
    · rw [if_pos hSome]
      by_cases hFew : pre.length + u.length < word (pre.length + 12)
      · rw [if_pos hFew]
        exact ⟨_, rfl, bubbleSort_spec hOrders h⟩
      · rw [if_neg hFew]
        have hWord : word (pre.length + 12) = pre.length + 12 := word_of_lt (by omega)
        have hMiddle : word (pre.length + (pre.length + u.length)) / 2 = pre.length + u.length / 2 := by
          rw [word_of_lt (by omega)]
          omega
        rw [hWord] at hFew
        rw [hMiddle]
        obtain ⟨u₁, u₂, rfl, hHalf⟩ : ∃ u₁ u₂, u = u₁ ++ u₂ ∧ u₁.length = u.length / 2 :=
          ⟨u.take (u.length / 2), u.drop (u.length / 2), (List.take_append_drop _ _).symm, by
            rw [List.length_take]
            omega⟩
        rw [← hHalf]
        rw [List.length_append] at hFew hFuel hHalf
        obtain ⟨q₁, hSortLeft, s₁, hs₁, hStable₁, hSorted₁⟩ := ih
          (show q.Holds (pre ++ (u₁ ++ (u₂ ++ post))) by simpa using h) (by omega)
        have hLength₁ := hStable₁.length
        obtain ⟨q₂, hSortRight, s₂, hs₂, hStable₂, hSorted₂⟩ := ih
          (show q₁.Holds ((pre ++ s₁) ++ (u₂ ++ post)) by simpa using hs₁) (by omega)
        have hLength₂ := hStable₂.length
        obtain ⟨q₃, hMerge, s, hs, hStable, hSorted⟩ := merge_spec hOrders
          (show q₂.Holds (pre ++ (s₁ ++ (s₂ ++ post))) by simpa using hs₂) hSorted₁ hSorted₂
          (show s₁.length + s₂.length < fuel by omega)
        refine ⟨q₃, ?_, s, hs, (hStable₁.append hStable₂).trans hStable, hSorted⟩
        rw [List.length_append, hLength₁] at hSortRight
        rw [hSortLeft, Option.bind_some, List.length_append, ← Nat.add_assoc, hSortRight, Option.bind_some, ← hMerge,
          hLength₁, hLength₂]
        congr 1 <;> omega
    · rw [if_neg hSome]
      obtain rfl : u = [] := List.length_eq_zero_iff.mp (by omega)
      exact ⟨q, rfl, [], h, .refl _ _, List.Pairwise.nil⟩

omit [Inhabited α] in
theorem sort_clamped (fuel first toIndex : Nat) :
    q.sort compareFunc fuel first toIndex = q.sort compareFunc fuel first (min toIndex q.itemCount) := by
  have hSame : (if toIndex > q.itemCount then q.itemCount else toIndex) = min toIndex q.itemCount := by
    split <;> omega
  cases fuel with
  | zero => rfl
  | succ fuel => rw [sort, sort, hSame, if_neg (show ¬min toIndex q.itemCount > q.itemCount by omega)]

/-- `Sort` comes to an end, and leaves the items from `first` up to `toIndex` sorted, those that compare equal in their
old order, and the others where they were. -/
theorem sort_spec (hOrders : Orders compareFunc Set.univ) (h : q.Holds l) (first toIndex : Nat) :
    l = l.take first ++ ((l.take toIndex).drop first ++ l.drop (max first toIndex)) ∧
      ∃ enough, ∀ fuel, enough ≤ fuel → ∃ q', q.sort compareFunc fuel first toIndex = some q' ∧
        Arranges compareFunc (l.take first) ((l.take toIndex).drop first) (l.drop (max first toIndex)) q' := by
  have hParts : l = l.take first ++ ((l.take toIndex).drop first ++ l.drop (max first toIndex)) := by
    rcases Nat.le_total first toIndex with hLe | hLe
    · rw [Nat.max_eq_right hLe]
      conv_lhs => rw [← List.take_append_drop toIndex l, ← List.take_append_drop first (l.take toIndex)]
      rw [List.take_take, Nat.min_eq_left hLe, List.append_assoc]
    · have hNone : (l.take toIndex).drop first = [] := List.drop_eq_nil_of_le (by rw [List.length_take]; omega)
      rw [Nat.max_eq_left hLe, hNone, List.nil_append, List.take_append_drop]
  refine ⟨hParts, l.length + 2, fun fuel hFuel => ?_⟩
  have hCount := h.itemCount
  rw [sort_clamped, hCount]
  by_cases hSome : first < min toIndex l.length
  · have hFirst : (l.take first).length = first := by rw [List.length_take]; omega
    have hPart : ((l.take toIndex).drop first).length = min toIndex l.length - first := by
      rw [List.length_drop, List.length_take]
    obtain ⟨q', hSort, hArranged⟩ := sort_part hOrders (show q.Holds _ from hParts ▸ h)
      (show ((l.take toIndex).drop first).length + 1 < fuel by omega)
    rw [hFirst, hPart, Nat.add_sub_cancel' (Nat.le_of_lt hSome)] at hSort
    exact ⟨q', hSort, hArranged⟩
  · obtain ⟨fuel, rfl⟩ := Nat.exists_eq_succ_of_ne_zero (show fuel ≠ 0 by omega)
    have hNone : (l.take toIndex).drop first = [] := List.drop_eq_nil_of_le (by rw [List.length_take]; omega)
    rw [sort]
    dsimp only
    rw [hCount, if_neg (show ¬min toIndex l.length > l.length by omega), if_neg hSome]
    exact ⟨q, rfl, _, hParts ▸ h, .refl _ _, hNone ▸ List.Pairwise.nil⟩

/-- Three items around the end of an array of four. -/
def aroundTheEnd : Queue Nat where
  smallQueue := fun _ => 0
  queue := .heap (fun i => if i = 2 then 5 else if i = 3 then 3 else if i = 0 then 4 else 0) 4
  itemCount := 3
  headIndex := 2
  tailIndex := 0
  initialSize := 0

theorem aroundTheEnd_holds : aroundTheEnd.Holds [5, 3, 4] where
  itemCount := rfl
  count_le := by decide
  size_le := by decide
  null := by decide
  item := by decide
  head := by decide
  tail := by decide
  big := by decide
  unused := by decide

def compareNats (a b : Nat) : Int := (a : Int) - b

theorem sort_spec_aroundTheEnd :
    [5, 3, 4] = [5, 3, 4].take 1 ++ (([5, 3, 4].take 9).drop 1 ++ [5, 3, 4].drop (max 1 9)) ∧
      ∃ enough, ∀ fuel, enough ≤ fuel → ∃ q', aroundTheEnd.sort compareNats fuel 1 9 = some q' ∧
        Arranges compareNats ([5, 3, 4].take 1) (([5, 3, 4].take 9).drop 1) ([5, 3, 4].drop (max 1 9)) q' :=
  sort_spec (.of_key id (by simp [compareNats]) (by simp [compareNats])) aroundTheEnd_holds 1 9

end BeShare.Muscle.Queues.Queue
