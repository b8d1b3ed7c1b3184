import Mathlib.Init

/-! Runs of steps that may fail, over a list. -/

namespace BeShare.Lib

variable {σ α : Type} {f : σ → α → Option σ} {l : List α} {s s' : σ}

theorem foldlM_cons_eq_some {a : α} : (a :: l).foldlM f s = some s' ↔ ∃ t, f s a = some t ∧ l.foldlM f t = some s' := by
  rw [List.foldlM_cons]
  exact Option.bind_eq_some_iff

/-- A run over pieces is the pieces' runs one after another. -/
theorem foldlM_flatMap {β : Type} (g : β → List α) (pieces : List β) (s : σ) :
    (pieces.flatMap g).foldlM f s = pieces.foldlM (fun s piece => (g piece).foldlM f s) s := by
  induction pieces generalizing s with
  | nil => rfl
  | cons piece pieces ih =>
    rw [List.flatMap_cons, List.foldlM_append, List.foldlM_cons]
    congr 1
    funext t
    exact ih t

/-- What holds before the run, with the whole list still to come, holds after it with nothing left, if each step
keeps it. -/
theorem foldlM_rest {P : List α → σ → Prop} (h : l.foldlM f s = some s')
    (hStep : ∀ a rest t t', P (a :: rest) t → f t a = some t' → P rest t') (hStart : P l s) : P [] s' := by
  induction l generalizing s with
  | nil =>
    cases h
    exact hStart
  | cons a l ih =>
    obtain ⟨t, hFirst, hRest⟩ := foldlM_cons_eq_some.mp h
    exact ih hRest (hStep a l s t hStart hFirst)

/-- What every step keeps, the run keeps. -/
theorem foldlM_keeps {P : σ → Prop} (h : l.foldlM f s = some s')
    (hStep : ∀ a ∈ l, ∀ t t', P t → f t a = some t' → P t') (hStart : P s) : P s' := by
  induction l generalizing s with
  | nil =>
    cases h
    exact hStart
  | cons a l ih =>
    obtain ⟨t, hFirst, hRest⟩ := foldlM_cons_eq_some.mp h
    exact ih hRest (fun b hb => hStep b (List.mem_cons_of_mem _ hb)) (hStep a (List.mem_cons_self ..) s t hStart hFirst)

/-- A run whose steps all succeed from the states that they lead to succeeds. -/
theorem foldlM_goesOn {P : List α → σ → Prop}
    (hStep : ∀ a rest t, P (a :: rest) t → ∃ t', f t a = some t' ∧ P rest t') (hStart : P l s) :
    ∃ s', l.foldlM f s = some s' ∧ P [] s' := by
  induction l generalizing s with
  | nil => exact ⟨s, rfl, hStart⟩
  | cons a l ih =>
    obtain ⟨t, hFirst, ht⟩ := hStep a l s hStart
    obtain ⟨s', hRest, hs'⟩ := ih ht
    exact ⟨s', foldlM_cons_eq_some.mpr ⟨t, hFirst, hRest⟩, hs'⟩

/-! ### Runs of steps that do not fail -/

variable {g : σ → α → σ}

/-- Each step of the run meets a condition on the state that it is taken in. -/
def AllSteps (ok : σ → α → Prop) (g : σ → α → σ) : List α → σ → Prop
  | [], _ => True
  | a :: l, s => ok s a ∧ AllSteps ok g l (g s a)

instance AllSteps.instDecidable (ok : σ → α → Prop) (g : σ → α → σ) [∀ s a, Decidable (ok s a)] :
    (l : List α) → (s : σ) → Decidable (AllSteps ok g l s)
  | [], _ => isTrue trivial
  | a :: l, s =>
    have := AllSteps.instDecidable ok g l (g s a)
    inferInstanceAs (Decidable (ok s a ∧ AllSteps ok g l (g s a)))

theorem allSteps_append {ok : σ → α → Prop} {l' : List α} :
    AllSteps ok g (l ++ l') s ↔ AllSteps ok g l s ∧ AllSteps ok g l' (l.foldl g s) := by
  induction l generalizing s with
  | nil => exact (and_iff_right trivial).symm
  | cons a l ih => exact (and_congr_right' ih).trans and_assoc.symm

/-- What the steps keep that meet the condition, a run of them keeps. -/
theorem foldl_keeps {P : σ → Prop} {ok : σ → α → Prop} (hStep : ∀ s a, P s → ok s a → P (g s a))
    (hAll : AllSteps ok g l s) (hStart : P s) : P (l.foldl g s) := by
  induction l generalizing s with
  | nil => exact hStart
  | cons a l ih => exact ih hAll.2 (hStep s a hStart hAll.1)

/-- If a step keeps `P` exactly if it meets the condition, then `P` holds in all states of a run exactly if all its
steps do. -/
theorem foldl_states_iff {Inv P : σ → Prop} {ok : σ → α → Prop} (hInv : ∀ s a, Inv s → Inv (g s a))
    (hStep : ∀ s a, Inv s → P s → (P (g s a) ↔ ok s a)) (hStart : Inv s) (hHere : P s) :
    (∀ done rest, done ++ rest = l → P (done.foldl g s)) ↔ AllSteps ok g l s := by
  induction l generalizing s with
  | nil =>
    refine iff_of_true (fun done rest hSplit => ?_) trivial
    rw [(List.append_eq_nil_iff.mp hSplit).1]
    exact hHere
  | cons a l ih =>
    unfold AllSteps
    constructor
    · intro hAll
      have hNext : P (g s a) := hAll [a] l rfl
      refine ⟨(hStep s a hStart hHere).mp hNext, (ih (hInv s a hStart) hNext).mp fun done rest hSplit => ?_⟩
      exact hAll (a :: done) rest (congrArg (a :: ·) hSplit)
    · rintro ⟨hOk, hRest⟩ done rest hSplit
      have hNext : P (g s a) := (hStep s a hStart hHere).mpr hOk
      cases done with
      | nil => exact hHere
      | cons first done =>
        obtain ⟨rfl, hRestSplit⟩ := List.cons.inj hSplit
        exact (ih (hInv s first hStart) hNext).mpr hRest done rest hRestSplit

end BeShare.Lib
