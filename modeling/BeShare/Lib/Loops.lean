import Mathlib.Logic.Function.Iterate

/-!
Loops whose turns either end them with a result or go on from a new state, and when they end: if a measure decreases
in all turns but those of the states that the loop hangs in, then a loop ends exactly if it ends from each of these
that it comes to.
-/

namespace BeShare.Lib

variable {σ ρ : Type}

/-- The first turns of a loop. -/
def turns (turn : σ → ρ ⊕ σ) : Nat → σ → ρ ⊕ σ
  | 0, s => .inr s
  | n + 1, s => (turn s).elim .inl (turns turn n)

/-- The loop ends with the result. -/
def EndsWith (turn : σ → ρ ⊕ σ) (s : σ) (r : ρ) : Prop :=
  ∃ n, turns turn n s = .inl r

/-- The loop comes to a state. -/
def ComesTo (turn : σ → ρ ⊕ σ) (s s' : σ) : Prop :=
  ∃ n, turns turn n s = .inr s'

variable {turn : σ → ρ ⊕ σ} {s s' s'' : σ} {r r' : ρ}

theorem turns_succ (n : Nat) (s : σ) : turns turn (n + 1) s = (turn s).elim .inl (turns turn n) := rfl

theorem turns_succ_of_next (h : turn s = .inr s') (n : Nat) : turns turn (n + 1) s = turns turn n s' := by
  rw [turns_succ, h]
  rfl

theorem EndsWith.of_turn (h : turn s = .inl r) : EndsWith turn s r := by
  refine ⟨1, ?_⟩
  rw [turns_succ, h]
  rfl

theorem ComesTo.refl (turn : σ → ρ ⊕ σ) (s : σ) : ComesTo turn s s :=
  ⟨0, rfl⟩

theorem ComesTo.cons (h : turn s = .inr s') : ComesTo turn s' s'' → ComesTo turn s s''
  | ⟨n, hn⟩ => ⟨n + 1, (turns_succ_of_next h n).trans hn⟩

theorem EndsWith.cons (h : turn s = .inr s') : EndsWith turn s' r → EndsWith turn s r
  | ⟨n, hn⟩ => ⟨n + 1, (turns_succ_of_next h n).trans hn⟩

theorem EndsWith.of_next (h : turn s = .inr s') : EndsWith turn s r → EndsWith turn s' r
  | ⟨0, hn⟩ => nomatch hn
  | ⟨n + 1, hn⟩ => ⟨n, (turns_succ_of_next h n).symm.trans hn⟩

/-- Induction over the turns up to a state. -/
theorem ComesTo.keeps {P : σ → Prop} (h : ComesTo turn s s') (hTurn : ∀ t t', P t → turn t = .inr t' → P t')
    (hStart : P s) : P s' := by
  obtain ⟨n, hn⟩ := h
  induction n generalizing s with
  | zero =>
    cases hn
    exact hStart
  | succ n ih =>
    cases hFirst : turn s with
    | inl r =>
      rw [turns_succ, hFirst] at hn
      cases hn
    | inr t => exact ih (hTurn s t hStart hFirst) ((turns_succ_of_next hFirst n).symm.trans hn)

/-- What a loop ends with, it ends with from each state that it comes to. -/
theorem EndsWith.of_comesTo (h : EndsWith turn s r) (hTo : ComesTo turn s s') : EndsWith turn s' r :=
  hTo.keeps (P := fun t => EndsWith turn t r) (fun _ _ hEnds hTurn => hEnds.of_next hTurn) h

/-- What holds in all states that the loop comes to, and says something of the result of a turn, says it of the
result of the loop. -/
theorem EndsWith.keeps {P : σ → Prop} {Q : ρ → Prop} (h : EndsWith turn s r)
    (hTurn : ∀ t t', P t → turn t = .inr t' → P t') (hEnd : ∀ t r, P t → turn t = .inl r → Q r) (hStart : P s) :
    Q r := by
  obtain ⟨n, hn⟩ := h
  induction n generalizing s with
  | zero => cases hn
  | succ n ih =>
    cases hFirst : turn s with
    | inl first =>
      rw [turns_succ, hFirst] at hn
      cases hn
      exact hEnd s r hStart hFirst
    | inr t => exact ih (hTurn s t hStart hFirst) ((turns_succ_of_next hFirst n).symm.trans hn)

/-- A loop ends if it ends from each state that it hangs in. -/
theorem ends_of_measure {Hangs : σ → Prop} (measure : σ → Nat)
    (hTurn : ∀ t t', turn t = .inr t' → ¬Hangs t → measure t' < measure t)
    (hEnds : ∀ t, ComesTo turn s t → Hangs t → ∃ r, EndsWith turn t r) : ∃ r, EndsWith turn s r := by
  induction hSize : measure s using Nat.strongRecOn generalizing s with
  | _ size ih =>
    by_cases hHangs : Hangs s
    · exact hEnds s (.refl turn s) hHangs
    · cases hFirst : turn s with
      | inl r => exact ⟨r, .of_turn hFirst⟩
      | inr t =>
        obtain ⟨r, hr⟩ := ih (measure t) (hSize ▸ hTurn s t hFirst hHangs) (fun u hu => hEnds u (hu.cons hFirst)) rfl
        exact ⟨r, hr.cons hFirst⟩

/-- A loop ends exactly if it ends from each state that it hangs in. -/
theorem ends_iff_of_measure {Hangs : σ → Prop} (measure : σ → Nat)
    (hTurn : ∀ t t', turn t = .inr t' → ¬Hangs t → measure t' < measure t) :
    (∃ r, EndsWith turn s r) ↔ ∀ t, ComesTo turn s t → Hangs t → ∃ r, EndsWith turn t r :=
  ⟨fun ⟨r, hr⟩ _ hTo _ => ⟨r, hr.of_comesTo hTo⟩, ends_of_measure measure hTurn⟩

/-- A loop that always goes on does not end. -/
theorem not_ends_of_forever {P : σ → Prop} (hTurn : ∀ t, P t → ∃ t', turn t = .inr t' ∧ P t') (hStart : P s) :
    ¬∃ r, EndsWith turn s r := by
  rintro ⟨r, n, hn⟩
  induction n generalizing s with
  | zero => cases hn
  | succ n ih =>
    obtain ⟨t, hFirst, ht⟩ := hTurn s hStart
    exact ih ht ((turns_succ_of_next hFirst n).symm.trans hn)

section Asking

variable {τ : Type} {arg : σ → τ} {next : τ → τ} {fails : τ → Prop} {Hangs : σ → Prop}

/-- A loop that hangs because it asks for nothing again and again ends exactly if it is told at some time that this
failed. -/
theorem hangs_ends_iff
    (hTurn : ∀ t, Hangs t → (fails (arg t) ∧ ∃ r, turn t = .inl r) ∨
      ∃ t', ¬fails (arg t) ∧ turn t = .inr t' ∧ Hangs t' ∧ arg t' = next (arg t))
    (hHangs : Hangs s) : (∃ r, EndsWith turn s r) ↔ ∃ k, fails (next^[k] (arg s)) := by
  constructor
  · intro hEnds
    by_contra hNever
    refine not_ends_of_forever (P := fun t => Hangs t ∧ ¬∃ k, fails (next^[k] (arg t))) (fun t ht => ?_)
      ⟨hHangs, hNever⟩ hEnds
    rcases hTurn t ht.1 with ⟨hFails, _⟩ | ⟨t', _, hNext, hStill, hArg⟩
    · exact absurd ⟨0, hFails⟩ ht.2
    · refine ⟨t', hNext, hStill, fun ⟨k, hk⟩ => ht.2 ⟨k + 1, ?_⟩⟩
      rw [Function.iterate_succ_apply, ← hArg]
      exact hk
  · rintro ⟨k, hk⟩
    induction k generalizing s with
    | zero =>
      rcases hTurn s hHangs with ⟨_, r, hr⟩ | ⟨_, hGoesOn, _⟩
      · exact ⟨r, .of_turn hr⟩
      · exact absurd hk hGoesOn
    | succ k ih =>
      rcases hTurn s hHangs with ⟨_, r, hr⟩ | ⟨t, _, hNext, hStill, hArg⟩
      · exact ⟨r, .of_turn hr⟩
      · rw [Function.iterate_succ_apply, ← hArg] at hk
        obtain ⟨r, hr⟩ := ih hStill hk
        exact ⟨r, hr.cons hNext⟩

end Asking

end BeShare.Lib
