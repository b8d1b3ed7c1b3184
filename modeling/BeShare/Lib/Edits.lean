import Mathlib.Data.List.Induction

/-!
Histories of edits to a set that is kept as a list: an edit adds one element, or removes all that a predicate picks.
What is in the list after a history is what was added and not picked by a later removal.
-/

namespace BeShare.Lib

inductive Edit (α : Type) where
  | add (a : α)
  | remove (picks : α → Bool)

variable {α : Type} [DecidableEq α] {edits : List (Edit α)} {edit : Edit α} {l : List α} {a b : α}

def Edit.apply (l : List α) : Edit α → List α
  | .add a => if a ∈ l then l else l ++ [a]
  | .remove picks => l.filter fun a => !picks a

/-- It was added, and no later removal picks it. -/
def Remains (edits : List (Edit α)) (a : α) : Prop :=
  ∃ before after, edits = before ++ .add a :: after ∧ ∀ picks, .remove picks ∈ after → picks a = false

/-- The edit leaves the element alone. -/
def Edit.Spares (edit : Edit α) (a : α) : Prop :=
  ∀ picks, edit = .remove picks → picks a = false

omit [DecidableEq α] in
/-- The last edit of a history. -/
theorem remains_concat : Remains (edits ++ [edit]) a ↔ edit = .add a ∨ Remains edits a ∧ edit.Spares a := by
  constructor
  · rintro ⟨before, after, hSplit, hAfter⟩
    rcases List.eq_nil_or_concat after with rfl | ⟨init, last, rfl⟩
    · exact .inl (List.singleton_inj.mp (List.append_inj' hSplit rfl).2)
    · rw [List.concat_eq_append, ← List.cons_append, ← List.append_assoc] at hSplit
      obtain ⟨hBefore, hLast⟩ := List.append_inj' hSplit rfl
      obtain rfl := List.singleton_inj.mp hLast
      rw [List.concat_eq_append] at hAfter
      refine .inr ⟨⟨before, init, hBefore, fun picks hPicks => ?_⟩, fun picks hPicks => ?_⟩
      · exact hAfter picks (List.mem_append_left _ hPicks)
      · exact hAfter picks (List.mem_append_right _ (hPicks ▸ List.mem_singleton_self _))
  · rintro (rfl | ⟨⟨before, after, rfl, hAfter⟩, hSpares⟩)
    · exact ⟨edits, [], rfl, fun _ hPicks => nomatch hPicks⟩
    · refine ⟨before, after ++ [edit], by rw [List.append_assoc, List.cons_append], fun picks hPicks => ?_⟩
      rcases List.mem_append.mp hPicks with hOld | hLast
      · exact hAfter picks hOld
      · exact hSpares picks (List.mem_singleton.mp hLast).symm

theorem mem_apply : b ∈ edit.apply l ↔ edit = .add b ∨ b ∈ l ∧ edit.Spares b := by
  cases edit with
  | add a =>
    have hSpares : (Edit.add a).Spares b := fun _ hPicks => nomatch hPicks
    rw [Edit.apply, Edit.add.injEq]
    by_cases hOld : a ∈ l
    · rw [if_pos hOld]
      exact ⟨fun h => .inr ⟨h, hSpares⟩, fun h => h.elim (fun hSame => hSame ▸ hOld) And.left⟩
    · rw [if_neg hOld, List.mem_append, List.mem_singleton, or_comm, eq_comm]
      exact or_congr_right (and_iff_left hSpares).symm
  | remove picks =>
    unfold Edit.apply Edit.Spares
    rw [List.mem_filter, Bool.not_eq_true']
    constructor
    · rintro ⟨hMem, hPicks⟩
      refine .inr ⟨hMem, fun _ hSame => ?_⟩
      obtain rfl := Edit.remove.inj hSame
      exact hPicks
    · rintro (hAdd | ⟨hMem, hSpares⟩)
      · cases hAdd
      · exact ⟨hMem, hSpares picks rfl⟩

/-- What is in the list after a history. -/
theorem mem_foldl_apply (edits : List (Edit α)) (a : α) : a ∈ edits.foldl Edit.apply [] ↔ Remains edits a := by
  induction edits using List.reverseRecOn with
  | nil =>
    constructor
    · intro hMem
      cases hMem
    · rintro ⟨before, after, hSplit, _⟩
      exact absurd hSplit.symm (List.append_ne_nil_of_right_ne_nil _ (List.cons_ne_nil _ _))
  | append_singleton edits edit ih =>
    rw [List.foldl_append, List.foldl_cons, List.foldl_nil, mem_apply, remains_concat, ih]

end BeShare.Lib
