import Mathlib.Data.List.Nodup
import Mathlib.Data.List.Perm.Subperm

/-! A cursor that goes over a list while elements are removed from the list and added to it. -/

namespace BeShare.Lib.Cursor

variable {α : Type}

/-- What happens to the cursor and to the list. -/
inductive Event (α : Type) where
  | returned (a : α)
  | finished
  | removed (a : α)
  | cleared
  | added (a : α)

/-- The elements of the list, and those that the cursor has still to return. -/
structure State (α : Type) where
  present : List α
  left : List α

/-- An element that is added may or may not be returned later, but not by a cursor at the end. -/
inductive Step : State α → Event α → State α → Prop where
  | returned {p l : List α} {a : α} : Step ⟨p, a :: l⟩ (.returned a) ⟨p, l⟩
  | finished {p : List α} : Step ⟨p, []⟩ .finished ⟨p, []⟩
  | removed_passed {p p' l : List α} {a : α} (h : a ∉ l) : Step ⟨p ++ a :: p', l⟩ (.removed a) ⟨p ++ p', l⟩
  | removed_left {p p' l l' : List α} {a : α} :
    Step ⟨p ++ a :: p', l ++ a :: l'⟩ (.removed a) ⟨p ++ p', l ++ l'⟩
  | cleared {s : State α} : Step s .cleared ⟨[], []⟩
  | added_passed {p l : List α} {a : α} (h : a ∉ p) : Step ⟨p, l⟩ (.added a) ⟨p ++ [a], l⟩
  | added_left {p l : List α} {a : α} (h : a ∉ p) (hl : l ≠ []) :
    Step ⟨p, l⟩ (.added a) ⟨p ++ [a], l ++ [a]⟩

inductive Run : State α → List (Event α) → State α → Prop where
  | nil {s : State α} : Run s [] s
  | cons {s s' s'' : State α} {event : Event α} {log : List (Event α)} (hStep : Step s event s')
    (hRun : Run s' log s'') : Run s (event :: log) s''

/-- No element is there twice, and only elements that are there are left. -/
structure Ok (s : State α) : Prop where
  present : s.present.Nodup
  left : s.left.Nodup
  subset : ∀ a ∈ s.left, a ∈ s.present

/-- The element is taken out of the list. -/
def Gone (a : α) (log : List (Event α)) : Prop := .removed a ∈ log ∨ .cleared ∈ log

variable {s s' : State α} {event : Event α} {log : List (Event α)} {a : α}

theorem nodup_snoc {l : List α} (hl : l.Nodup) (ha : a ∉ l) : (l ++ [a]).Nodup := by
  refine List.nodup_append.mpr ⟨hl, List.nodup_singleton a, fun b hb c hc => ?_⟩
  rintro rfl
  exact ha (List.mem_singleton.mp hc ▸ hb)

theorem gone_cons : Gone a (event :: log) ↔
    (event = .removed a ∨ event = .cleared) ∨ Gone a log := by
  simp only [Gone, List.mem_cons, eq_comm (b := event)]
  tauto

theorem Step.ok (h : Step s event s') (hOk : Ok s) : Ok s' := by
  obtain ⟨hPresent, hLeft, hSubset⟩ := hOk
  cases h with
  | returned =>
    exact ⟨hPresent, (List.nodup_cons.mp hLeft).2, fun b hb => hSubset b (List.mem_cons_of_mem _ hb)⟩
  | finished => exact ⟨hPresent, hLeft, hSubset⟩
  | removed_passed hNot =>
    refine ⟨(List.nodup_cons.mp (List.nodup_middle.mp hPresent)).2, hLeft, fun b hb => ?_⟩
    have hMem := List.perm_middle.mem_iff.mp (hSubset b hb)
    exact (List.mem_cons.mp hMem).resolve_left fun hEq => hNot (hEq ▸ hb)
  | removed_left =>
    have hCons := List.nodup_cons.mp (List.nodup_middle.mp hLeft)
    refine ⟨(List.nodup_cons.mp (List.nodup_middle.mp hPresent)).2, hCons.2, fun b hb => ?_⟩
    have hMem := List.perm_middle.mem_iff.mp (hSubset b (List.perm_middle.mem_iff.mpr (.tail _ hb)))
    exact (List.mem_cons.mp hMem).resolve_left fun hEq => hCons.1 (hEq ▸ hb)
  | cleared => exact ⟨List.nodup_nil, List.nodup_nil, nofun⟩
  | added_passed hNew =>
    exact ⟨nodup_snoc hPresent hNew, hLeft, fun b hb => List.mem_append_left _ (hSubset b hb)⟩
  | added_left hNew hSome =>
    refine ⟨nodup_snoc hPresent hNew, nodup_snoc hLeft fun hb => hNew (hSubset _ hb), fun b hb => ?_⟩
    · rcases List.mem_append.mp hb with hOld | hLast
      · exact List.mem_append_left _ (hSubset b hOld)
      · exact List.mem_append_right _ hLast

/-- An element that is left stays so until it is returned or gone. -/
theorem Run.left_or (h : Run s log s') (hLeft : a ∈ s.left) :
    a ∈ s'.left ∨ .returned a ∈ log ∨ Gone a log := by
  induction h with
  | nil => exact .inl hLeft
  | cons hStep hRun ih =>
    rename_i s s₁ s₂ event log
    have hNow : a ∈ s₁.left ∨ event = .returned a ∨ event = .removed a ∨ event = .cleared := by
      cases hStep with
      | returned =>
        rcases List.mem_cons.mp hLeft with rfl | hRest
        · exact .inr (.inl rfl)
        · exact .inl hRest
      | finished => cases hLeft
      | removed_passed => exact .inl hLeft
      | removed_left =>
        rcases List.mem_cons.mp (List.perm_middle.mem_iff.mp hLeft) with rfl | hRest
        · exact .inr (.inr (.inl rfl))
        · exact .inl hRest
      | cleared => exact .inr (.inr (.inr rfl))
      | added_passed => exact .inl hLeft
      | added_left => exact .inl (List.mem_append_left _ hLeft)
    rw [gone_cons]
    rcases hNow with hStill | rfl | hGone
    · rcases ih hStill with hEnd | hReturned | hGone
      · exact .inl hEnd
      · exact .inr (.inl (List.mem_cons_of_mem _ hReturned))
      · exact .inr (.inr (.inr hGone))
    · exact .inr (.inl (List.mem_cons_self ..))
    · exact .inr (.inr (.inl hGone))

/-- An element that is there, but is not left, is not left again until it is gone. -/
theorem Run.not_left (h : Run s log s') (hPresent : a ∈ s.present) (hNot : a ∉ s.left)
    (hStays : ¬Gone a log) : a ∉ s'.left := by
  induction h with
  | nil => exact hNot
  | cons hStep hRun ih =>
    rename_i s s₁ s₂ event log
    rw [gone_cons, not_or, not_or] at hStays
    obtain ⟨⟨hNotRemoved, hNotCleared⟩, hLater⟩ := hStays
    have hNow : a ∈ s₁.present ∧ a ∉ s₁.left := by
      cases hStep with
      | returned =>
        exact ⟨hPresent, fun hMem => hNot (List.mem_cons_of_mem _ hMem)⟩
      | finished => exact ⟨hPresent, hNot⟩
      | removed_passed =>
        refine ⟨(List.mem_cons.mp (List.perm_middle.mem_iff.mp hPresent)).resolve_left ?_, hNot⟩
        rintro rfl
        exact hNotRemoved rfl
      | removed_left =>
        refine ⟨(List.mem_cons.mp (List.perm_middle.mem_iff.mp hPresent)).resolve_left ?_, fun hMem => ?_⟩
        · rintro rfl
          exact hNotRemoved rfl
        · exact hNot (List.perm_middle.mem_iff.mpr (List.mem_cons_of_mem _ hMem))
      | cleared => exact absurd rfl hNotCleared
      | added_passed => exact ⟨List.mem_append_left _ hPresent, hNot⟩
      | added_left hNew =>
        refine ⟨List.mem_append_left _ hPresent, fun hMem => ?_⟩
        rcases List.mem_append.mp hMem with hOld | hLast
        · exact hNot hOld
        · exact hNew (List.mem_singleton.mp hLast ▸ hPresent)
    exact ih hNow.1 hNow.2 hLater

/-- An element that is present was so from the start, or was added, and has not gone since. -/
theorem Run.present_since (h : Run s log s') (hOk : Ok s) (hPresent : a ∈ s'.present) :
    a ∈ s.present ∧ ¬Gone a log ∨ ∃ before since, log = before ++ .added a :: since ∧ ¬Gone a since := by
  induction h with
  | nil => exact .inl ⟨hPresent, by simp [Gone]⟩
  | cons hStep hRun ih =>
    rename_i s s₁ s₂ event log
    rcases ih (hStep.ok hOk) hPresent with ⟨hHere, hStays⟩ | ⟨before, since, rfl, hStays⟩
    · have hKept : a ∈ s.present ∧ event ≠ .removed a ∧ event ≠ .cleared ∨ event = .added a := by
        cases hStep with
        | returned => exact .inl ⟨hHere, nofun, nofun⟩
        | finished => exact .inl ⟨hHere, nofun, nofun⟩
        | removed_passed =>
          refine .inl ⟨List.perm_middle.mem_iff.mpr (List.mem_cons_of_mem _ hHere), ?_, nofun⟩
          rintro hEq
          cases hEq
          exact (List.nodup_cons.mp (List.nodup_middle.mp hOk.present)).1 hHere
        | removed_left =>
          refine .inl ⟨List.perm_middle.mem_iff.mpr (List.mem_cons_of_mem _ hHere), ?_, nofun⟩
          rintro hEq
          cases hEq
          exact (List.nodup_cons.mp (List.nodup_middle.mp hOk.present)).1 hHere
        | cleared => cases hHere
        | added_passed =>
          rcases List.mem_append.mp hHere with hOld | hLast
          · exact .inl ⟨hOld, nofun, nofun⟩
          · exact .inr (by rw [List.mem_singleton.mp hLast])
        | added_left =>
          rcases List.mem_append.mp hHere with hOld | hLast
          · exact .inl ⟨hOld, nofun, nofun⟩
          · exact .inr (by rw [List.mem_singleton.mp hLast])
      rcases hKept with ⟨hOld, hNotRemoved, hNotCleared⟩ | rfl
      · exact .inl ⟨hOld, by rw [gone_cons]; tauto⟩
      · exact .inr ⟨[], log, rfl, hStays⟩
    · exact .inr ⟨event :: before, since, rfl, hStays⟩

theorem Run.append {log' : List (Event α)} {s'' : State α} (h : Run s log s') (h' : Run s' log' s'') :
    Run s (log ++ log') s'' := by
  induction h with
  | nil => exact h'
  | cons hStep _ ih => exact .cons hStep (ih h')

theorem Run.split {before since : List (Event α)} (h : Run s (before ++ since) s') :
    ∃ m, Run s before m ∧ Run m since s' := by
  induction before generalizing s with
  | nil => exact ⟨s, .nil, h⟩
  | cons event before ih =>
    cases h with
    | cons hStep hRun =>
      obtain ⟨m, hBefore, hSince⟩ := ih hRun
      exact ⟨m, .cons hStep hBefore, hSince⟩

theorem Run.ok (h : Run s log s') (hOk : Ok s) : Ok s' := by
  induction h with
  | nil => exact hOk
  | cons hStep _ ih => exact ih (hStep.ok hOk)

/-- A cursor at the end stays there. -/
theorem Run.at_end (h : Run s log s') (hEnd : s.left = []) : .returned a ∉ log := by
  induction h with
  | nil => exact List.not_mem_nil
  | cons hStep _ ih =>
    cases hStep with
    | returned => cases hEnd
    | finished => simpa using ih rfl
    | removed_passed => simpa using ih hEnd
    | removed_left => simp at hEnd
    | cleared => simpa using ih rfl
    | added_passed => simpa using ih hEnd
    | added_left _ hSome => exact absurd hEnd hSome

/-- The returned elements. -/
def returns (log : List (Event α)) : List α :=
  log.filterMap fun event => match event with
    | .returned a => some a
    | _ => none

def additions (log : List (Event α)) : List α :=
  log.filterMap fun event => match event with
    | .added a => some a
    | _ => none

theorem Run.left_le (h : Run s log s') :
    s'.left.length ≤ s.left.length + (additions log).length := by
  induction h with
  | nil => exact Nat.le_refl _
  | cons hStep _ ih =>
    cases hStep <;>
      simp only [additions, List.filterMap_cons, List.length_append, List.length_cons,
        List.length_nil] at ih ⊢ <;>
      omega

/-- Without additions no more elements are returned than were left. -/
theorem Run.returns_le (h : Run s log s') (hNone : ∀ a, .added a ∉ log) :
    (returns log).length ≤ s.left.length := by
  induction h with
  | nil => exact Nat.zero_le _
  | cons hStep _ ih =>
    have hLater := ih fun a hMem => hNone a (List.mem_cons_of_mem _ hMem)
    cases hStep with
    | returned => simpa [returns] using hLater
    | finished => simpa [returns] using hLater
    | removed_passed => simpa [returns] using hLater
    | removed_left =>
      simp only [returns, List.filterMap_cons, List.length_append, List.length_cons] at hLater ⊢
      omega
    | cleared =>
      have hZero : (returns _).length = 0 := Nat.le_zero.mp hLater
      simp only [returns, List.filterMap_cons] at hZero ⊢
      omega
    | added_passed => exact absurd (List.mem_cons_self ..) (hNone _)
    | added_left => exact absurd (List.mem_cons_self ..) (hNone _)

/-- What a cursor that starts before the elements of `present` promises about its log. -/
structure Safe (present : List α) (log : List (Event α)) : Prop where
  /-- At the end every element was returned, or taken out before. -/
  complete : ∀ before since, log = before ++ .finished :: since → ∀ a ∈ present,
    .returned a ∈ before ∨ Gone a before
  /-- An element that is returned twice was taken out in between. -/
  once : ∀ before between since a, log = before ++ .returned a :: (between ++ .returned a :: since) →
    Gone a between
  /-- An element that is returned has not been taken out since it was there. -/
  there : ∀ before since a, log = before ++ .returned a :: since →
    a ∈ present ∧ ¬Gone a before ∨
      ∃ before' since', before = before' ++ .added a :: since' ∧ ¬Gone a since'
  /-- Nothing is returned behind the end. -/
  ends : ∀ before since a, log = before ++ .finished :: since → .returned a ∉ since
  /-- When no more elements are added, so many are returned at most until the end is reached. -/
  terminates : ∀ before since, log = before ++ since → (∀ a, .added a ∉ since) →
    (returns since).length ≤ present.length + (additions before).length

/-- A cursor that starts with all elements left is safe. -/
theorem Run.safe (h : Run s log s') (hOk : Ok s) (hAll : ∀ a ∈ s.present, a ∈ s.left) :
    Safe s.present log := by
  constructor
  · rintro before since rfl a ha
    obtain ⟨m, hBefore, hSince⟩ := h.split
    rcases hBefore.left_or (hAll a ha) with hLeft | hDone
    · cases hSince with
      | cons hStep => cases hStep; cases hLeft
    · exact hDone
  · rintro before between since a rfl
    obtain ⟨m, hBefore, hReturned⟩ := h.split
    have hOkM := hBefore.ok hOk
    cases hReturned with
    | cons hStep hAfter =>
      cases hStep
      by_contra hStays
      obtain ⟨m', hBetween, hAgain⟩ := hAfter.split
      have hNot := (List.nodup_cons.mp hOkM.left).1
      have hHere := hOkM.subset a (List.mem_cons_self ..)
      have hStill := hBetween.not_left hHere hNot hStays
      cases hAgain with
      | cons hStep =>
        cases hStep
        exact hStill (List.mem_cons_self ..)
  · rintro before since a rfl
    obtain ⟨m, hBefore, hReturned⟩ := h.split
    refine hBefore.present_since hOk ((hBefore.ok hOk).subset a ?_)
    cases hReturned with
    | cons hStep =>
      cases hStep
      exact List.mem_cons_self ..
  · rintro before since a rfl
    obtain ⟨m, -, hFinished⟩ := h.split
    cases hFinished with
    | cons hStep hSince =>
      cases hStep
      exact hSince.at_end rfl
  · rintro before since rfl hNone
    obtain ⟨m, hBefore, hSince⟩ := h.split
    have hReturns := hSince.returns_le hNone
    have hLeft := hBefore.left_le
    have hSubset := (List.subperm_of_subset hOk.left hOk.subset).length_le
    omega

end BeShare.Lib.Cursor
