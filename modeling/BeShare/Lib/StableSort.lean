import Mathlib.Data.List.Sort

/-! Sorting from the bottom up: sorted runs of one length are merged two at a time. The list that is
sorted is decorated with the positions of its elements, so that the sort order is antisymmetric. -/

namespace BeShare.Lib

open List

variable {α : Type} {le : α → α → Bool}

/-- The runs of `m` elements are merged, the first with the second, the third with the fourth. -/
def mergeRuns (le : α → α → Bool) (m : Nat) (l : List α) : List α :=
  if _h : m = 0 ∨ l = [] then l
  else (l.take m).merge ((l.drop m).take m) le ++ mergeRuns le m ((l.drop m).drop m)
termination_by l.length
decreasing_by
  rw [not_or] at _h
  have hLength := List.length_pos_iff.mpr _h.2
  simp only [List.length_drop]
  omega

/-- The list is made of sorted runs of `m` elements, of which the last may be shorter, and the elements
of a run come from before those of the next. -/
inductive Runs (le : α → α → Bool) (m : Nat) : List (α × Nat) → Prop where
  | nil : Runs le m []
  | cons {run rest : List (α × Nat)} (hLength : run.length = m ∨ rest = [] ∧ run.length ≤ m)
      (hSorted : run.Pairwise fun a b => zipIdxLE le a b)
      (hBefore : ∀ a ∈ run, ∀ b ∈ rest, a.2 < b.2) (hRest : Runs le m rest) : Runs le m (run ++ rest)

namespace Runs

variable {m : Nat} {l : List (α × Nat)}

/-- The first run, and the others. -/
theorem split (h : Runs le m l) :
    ((l.take m).Pairwise fun a b => zipIdxLE le a b) ∧ (∀ a ∈ l.take m, ∀ b ∈ l.drop m, a.2 < b.2) ∧
      Runs le m (l.drop m) := by
  cases h with
  | nil =>
    rw [List.take_nil, List.drop_nil]
    exact ⟨.nil, nofun, .nil⟩
  | @cons run rest hLength hSorted hBefore hRest =>
    rcases hLength with hFull | ⟨rfl, hShort⟩
    · rw [List.take_left' hFull, List.drop_left' hFull]
      exact ⟨hSorted, hBefore, hRest⟩
    · rw [List.append_nil, List.take_of_length_le hShort, List.drop_of_length_le hShort]
      exact ⟨hSorted, hBefore, hRest⟩

theorem sorted (h : Runs le m l) (hLength : l.length ≤ m) :
    l.Pairwise fun a b => zipIdxLE le a b := by
  have hFirst := h.split.1
  rwa [List.take_of_length_le hLength] at hFirst

/-- Every element is a run. -/
theorem one {l : List (α × Nat)} (hPositions : l.Pairwise fun a b => a.2 < b.2) : Runs le 1 l := by
  induction l with
  | nil => exact .nil
  | cons a l ih =>
    rw [List.pairwise_cons] at hPositions
    refine .cons (.inl rfl) (List.pairwise_singleton ..) (fun x hx b hb => ?_) (ih hPositions.2)
    rw [List.mem_singleton.mp hx]
    exact hPositions.1 b hb

end Runs

section

variable {m : Nat}

@[simp] theorem mergeRuns_nil : mergeRuns le m [] = [] := by
  rw [mergeRuns, dif_pos (.inr rfl)]

theorem mergeRuns_of_ne_nil {l : List α} (hm : 0 < m) (hl : l ≠ []) :
    mergeRuns le m l =
      (l.take m).merge ((l.drop m).take m) le ++ mergeRuns le m ((l.drop m).drop m) := by
  rw [mergeRuns, dif_neg]
  rintro (h | h)
  · omega
  · exact hl h

theorem mergeRuns_perm (le : α → α → Bool) (m : Nat) (l : List α) : (mergeRuns le m l).Perm l := by
  induction l using mergeRuns.induct m with
  | case1 l h => rw [mergeRuns, dif_pos h]
  | case2 l h ih =>
    rw [mergeRuns, dif_neg h]
    calc ((l.take m).merge ((l.drop m).take m) le ++ mergeRuns le m ((l.drop m).drop m)).Perm
          (l.take m ++ (l.drop m).take m ++ (l.drop m).drop m) := (List.merge_perm_append le).append ih
      _ = l := by rw [List.append_assoc, List.take_append_drop, List.take_append_drop]

variable (hTrans : ∀ a b c, le a b → le b c → le a c) (hTotal : ∀ a b, le a b || le b a)
include hTrans hTotal

/-- Merging makes runs of twice the length, and the positions do not matter for it. -/
theorem Runs.merge {l : List (α × Nat)} (hm : 0 < m) (h : Runs le m l) :
    Runs le (m + m) (mergeRuns (zipIdxLE le) m l) ∧
      (mergeRuns (zipIdxLE le) m l).map Prod.fst = mergeRuns le m (l.map Prod.fst) := by
  induction l using mergeRuns.induct m with
  | case1 l hEnd =>
    obtain rfl := hEnd.resolve_left (by omega)
    rw [List.map_nil, mergeRuns_nil, mergeRuns_nil]
    exact ⟨.nil, rfl⟩
  | case2 l hMore ih =>
    rw [not_or] at hMore
    obtain ⟨hFirst, hBefore, hRest⟩ := h.split
    obtain ⟨hSecond, hBefore', hRest'⟩ := hRest.split
    obtain ⟨hRuns, hMap⟩ := ih hRest'
    rw [mergeRuns_of_ne_nil hm hMore.2, mergeRuns_of_ne_nil hm (List.map_eq_nil_iff.not.mpr hMore.2)]
    constructor
    · refine .cons ?_ ?_ (fun a ha b hb => ?_) hRuns
      · rw [List.length_merge, List.length_take, List.length_take, List.length_drop]
        by_cases hShort : l.length < m + m
        · have hEnd : (l.drop m).drop m = [] := List.drop_eq_nil_of_le (by rw [List.length_drop]; omega)
          rw [hEnd, mergeRuns_nil]
          exact .inr ⟨rfl, by omega⟩
        · exact .inl (by omega)
      · exact List.pairwise_merge (zipIdxLE_trans hTrans) (zipIdxLE_total hTotal) _ _ hFirst hSecond
      · have hb' := (mergeRuns_perm (zipIdxLE le) m _).mem_iff.mp hb
        rcases List.mem_merge.mp ha with hA | hA
        · exact hBefore a hA b (List.mem_of_mem_drop hb')
        · exact hBefore' a hA b hb'
    · rw [List.map_append, hMap, List.merge_stable]
      · simp only [List.map_take, List.map_drop]
      · intro x y hx hy
        exact Nat.le_of_lt (hBefore x hx y (List.mem_of_mem_take hy))

/-- A sorted rearrangement of a decorated list is its stable sort. -/
theorem eq_mergeSort {l : List α} {d : List (α × Nat)} (hPerm : d.Perm l.zipIdx)
    (hSorted : d.Pairwise fun a b => zipIdxLE le a b) : d.map Prod.fst = l.mergeSort le := by
  have hUnique : d = l.zipIdx.mergeSort (zipIdxLE le) := by
    refine List.Perm.eq_of_pairwise (fun a b ha hb hab hba => ?_) hSorted
      (List.pairwise_mergeSort (zipIdxLE_trans hTrans) (zipIdxLE_total hTotal) _)
      (hPerm.trans (List.mergeSort_perm _ _).symm)
    -- two elements that are equal in the order have one position
    have hSame : a.2 = b.2 := by
      simp only [zipIdxLE] at hab hba
      split at hab <;> split at hba <;> simp_all
      omega
    have haAt := List.mem_zipIdx_iff_getElem?.mp (hPerm.mem_iff.mp ha)
    have hbAt := List.mem_zipIdx_iff_getElem?.mp
      (List.mem_mergeSort.mp hb)
    rw [hSame, hbAt] at haAt
    exact Prod.ext (Option.some.inj haAt).symm hSame
  rw [hUnique, List.mergeSort_zipIdx]

end

end BeShare.Lib
