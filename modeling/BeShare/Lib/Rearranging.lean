import BeShare.Lib.Comparators

/-!
Rearrangements of a list that keep elements which compare equal in their order, and the cut of a sorted list that a
binary search finds.
-/

namespace BeShare.Lib

variable {α : Type} {cmp : α → α → Int} {l l' l'' u v : List α}

/-- The same elements, of which those that compare equal to one are in their old order. -/
structure Rearranges (cmp : α → α → Int) (l l' : List α) : Prop where
  perm : l'.Perm l
  stable : ∀ x, (l'.filter fun y => decide (cmp x y = 0)) = l.filter fun y => decide (cmp x y = 0)

def SortedBy (cmp : α → α → Int) (l : List α) : Prop :=
  l.Pairwise fun a b => cmp a b ≤ 0

namespace Rearranges

theorem refl (cmp : α → α → Int) (l : List α) : Rearranges cmp l l :=
  ⟨.refl l, fun _ => rfl⟩

theorem trans (h : Rearranges cmp l l') (h' : Rearranges cmp l' l'') : Rearranges cmp l l'' :=
  ⟨h'.perm.trans h.perm, fun x => (h'.stable x).trans (h.stable x)⟩

theorem append (h : Rearranges cmp l l') (hMore : Rearranges cmp u v) : Rearranges cmp (l ++ u) (l' ++ v) where
  perm := h.perm.append hMore.perm
  stable := fun x => by rw [List.filter_append, List.filter_append, h.stable, hMore.stable]

theorem mem (h : Rearranges cmp l l') {a : α} (ha : a ∈ l') : a ∈ l :=
  h.perm.mem_iff.mp ha

theorem length (h : Rearranges cmp l l') : l'.length = l.length :=
  h.perm.length_eq

end Rearranges

section

variable (hOrders : Orders cmp Set.univ)
include hOrders

theorem Orders.neg_iff (a b : α) : cmp a b < 0 ↔ 0 < cmp b a := by
  have hSign := hOrders.antisymm a (Set.mem_univ a) b (Set.mem_univ b)
  rw [← Int.sign_eq_neg_one_iff_neg, hSign, ← Int.sign_eq_one_iff_pos]
  omega

theorem Orders.le_of_not_neg {a b : α} (h : ¬cmp a b < 0) : cmp b a ≤ 0 := by
  rw [hOrders.neg_iff] at h
  omega

theorem Orders.le_self (a : α) : cmp a a ≤ 0 := by
  have hTurned := hOrders.neg_iff a a
  omega

theorem Orders.le_trans {a b c : α} (hab : cmp a b ≤ 0) (hbc : cmp b c ≤ 0) : cmp a c ≤ 0 :=
  hOrders.trans a (Set.mem_univ a) b (Set.mem_univ b) c (Set.mem_univ c) hab hbc

theorem Orders.lt_of_lt_of_le {a b c : α} (hab : cmp a b < 0) (hbc : cmp b c ≤ 0) : cmp a c < 0 := by
  by_contra hNot
  have hBack := hOrders.le_trans hbc (hOrders.le_of_not_neg hNot)
  rw [hOrders.neg_iff] at hab
  omega

theorem Orders.lt_of_le_of_lt {a b c : α} (hab : cmp a b ≤ 0) (hbc : cmp b c < 0) : cmp a c < 0 := by
  by_contra hNot
  have hBack := hOrders.le_trans (hOrders.le_of_not_neg hNot) hab
  rw [hOrders.neg_iff] at hbc
  omega

/-- An element of a sorted list, with what is before it and what is from it on. -/
theorem SortedBy.at_element (h : SortedBy cmp l) {k : Nat} (hk : k < l.length) :
    (∀ a ∈ l.take k, cmp a l[k] ≤ 0) ∧ ∀ b ∈ l.drop k, cmp l[k] b ≤ 0 := by
  refine ⟨fun a ha => ?_, fun b hb => ?_⟩
  · obtain ⟨i, hi, rfl⟩ := List.mem_take_iff_getElem.mp ha
    exact List.pairwise_iff_getElem.mp h _ _ (by omega) hk (by omega)
  · obtain ⟨i, hi, rfl⟩ := List.mem_drop_iff_getElem.mp hb
    rcases Nat.eq_zero_or_pos i with rfl | hi'
    · exact hOrders.le_self _
    · exact List.pairwise_iff_getElem.mp h _ _ hk (by omega) (by omega)

/-- Two parts may change places if all of the second one comes before all of the first one. -/
theorem Rearranges.exchange (hLess : ∀ a ∈ u, ∀ b ∈ v, cmp b a < 0) : Rearranges cmp (u ++ v) (v ++ u) where
  perm := List.perm_append_comm
  stable := by
    intro x
    rw [List.filter_append, List.filter_append]
    -- no element of each part compares equal to the same one
    have hOne : (u.filter fun y => decide (cmp x y = 0)) = [] ∨ (v.filter fun y => decide (cmp x y = 0)) = [] := by
      by_contra hBoth
      rw [not_or] at hBoth
      obtain ⟨a, ha⟩ := List.exists_mem_of_ne_nil _ hBoth.1
      obtain ⟨b, hb⟩ := List.exists_mem_of_ne_nil _ hBoth.2
      rw [List.mem_filter, decide_eq_true_iff] at ha hb
      have hBefore := hLess a ha.1 b hb.1
      have hTurned := (hOrders.neg_iff b a).mp hBefore
      have hax : cmp a x ≤ 0 := hOrders.le_of_not_neg (by rw [ha.2]; exact Int.lt_irrefl 0)
      have hab := hOrders.le_trans hax (Int.le_of_eq hb.2)
      omega
    rcases hOne with hNone | hNone
    · rw [hNone, List.append_nil, List.nil_append]
    · rw [hNone, List.append_nil, List.nil_append]

/-- Sorted parts that were made of the first and of the second parts of two sorted lists, where all that went to the
first part comes before all that went to the second one. -/
theorem SortedBy.append {l₁ l₂ : List α} (h₁ : SortedBy cmp l₁) (h₂ : SortedBy cmp l₂) {x : α}
    (hFirst : ∀ a ∈ l₁, cmp a x ≤ 0) (hSecond : ∀ b ∈ l₂, cmp x b ≤ 0) : SortedBy cmp (l₁ ++ l₂) :=
  List.pairwise_append.mpr ⟨h₁, h₂, fun a ha b hb => hOrders.le_trans (hFirst a ha) (hSecond b hb)⟩

end

/-! ### Binary search -/

/-- The first of `len` places from `first` on where `p` does not hold, if it holds of the places before one. Each turn
halves what is left. -/
def partitionPoint (p : Nat → Bool) : Nat → Nat → Nat → Nat
  | 0, first, _ => first
  | turns + 1, first, len =>
    if 0 < len then
      let half := len / 2
      let mid := first + half
      if p mid then partitionPoint p turns (mid + 1) (len - half - 1) else partitionPoint p turns first half
    else first

/-- The place that is found, if `p` goes from true to false only once. -/
theorem partitionPoint_spec {p : Nat → Bool} {turns first len : Nat} (hTurns : len ≤ turns)
    (hOnce : ∀ i j, first ≤ i → i ≤ j → j < first + len → p j = true → p i = true) :
    first ≤ partitionPoint p turns first len ∧ partitionPoint p turns first len ≤ first + len ∧
      (∀ i, first ≤ i → i < partitionPoint p turns first len → p i = true) ∧
      ∀ i, partitionPoint p turns first len ≤ i → i < first + len → p i = false := by
  induction turns generalizing first len with
  | zero =>
    rw [partitionPoint]
    exact ⟨Nat.le_refl _, Nat.le_add_right .., fun i _ _ => by omega, fun i _ _ => by omega⟩
  | succ turns ih =>
    rw [partitionPoint]
    split
    next hSome =>
      dsimp only
      split
      next hMid =>
        obtain ⟨hFirst, hEnd, hBefore, hBehind⟩ := @ih (first + len / 2 + 1) (len - len / 2 - 1)
          (by omega) fun i j hi hij hj => hOnce i j (by omega) hij (by omega)
        refine ⟨by omega, by omega, fun i hi hCut => ?_, fun i hCut hi => hBehind i hCut (by omega)⟩
        by_cases hLeft : i ≤ first + len / 2
        · exact hOnce i _ hi hLeft (by omega) hMid
        · exact hBefore i (by omega) hCut
      next hMid =>
        obtain ⟨hFirst, hEnd, hBefore, hBehind⟩ := @ih first (len / 2) (by omega)
          fun i j hi hij hj => hOnce i j hi hij (by omega)
        refine ⟨hFirst, by omega, hBefore, fun i hCut hi => ?_⟩
        by_cases hLeft : i < first + len / 2
        · exact hBehind i hCut hLeft
        · refine Bool.eq_false_iff.mpr fun hi' => hMid (hOnce _ i (by omega) (by omega) hi hi')
    next hNone =>
      exact ⟨Nat.le_refl _, Nat.le_add_right .., fun i _ _ => by omega, fun i _ _ => by omega⟩

end BeShare.Lib
