import Mathlib.Data.List.Basic
import Mathlib.Tactic.Common

/-! Infinite runs of a step that may fail, with a weakly fair scheduler. -/

namespace BeShare.Lib

variable {σ α : Type} {step : σ → α → Option σ}

/-- An infinite run: the states, and the actions between them. -/
structure Run (step : σ → α → Option σ) where
  state : Nat → σ
  action : Nat → α
  next : ∀ n, step (state n) (action n) = some (state (n + 1))

namespace Run

variable (run : Run step)

/-- Weak fairness: if from some time on the actions could go on, one of them does. -/
def Fair (enabled : σ → Prop) (actions : α → Prop) : Prop :=
  ∀ n, (∀ m ≥ n, enabled (run.state m)) → ∃ m ≥ n, actions (run.action m)

def LeadsTo (P Q : σ → Prop) : Prop :=
  ∀ n, P (run.state n) → ∃ m ≥ n, Q (run.state m)

variable {run} {P Q R : σ → Prop}

theorem LeadsTo.trans (h : run.LeadsTo P Q) (h' : run.LeadsTo Q R) : run.LeadsTo P R := by
  intro n hn
  obtain ⟨m, hm, hQ⟩ := h n hn
  obtain ⟨k, hk, hR⟩ := h' m hQ
  exact ⟨k, Nat.le_trans hm hk, hR⟩

theorem leadsTo_of_imp (h : ∀ s, P s → Q s) : run.LeadsTo P Q :=
  fun n hn => ⟨n, Nat.le_refl n, h _ hn⟩

theorem LeadsTo.or {P' : σ → Prop} (h : run.LeadsTo P Q) (h' : run.LeadsTo P' Q) :
    run.LeadsTo (fun s => P s ∨ P' s) Q :=
  fun n hn => hn.elim (h n) (h' n)

/-- What every step keeps from some time on. -/
theorem keeps (hStep : ∀ s a s', P s → step s a = some s' → P s') {n : Nat} (hStart : P (run.state n)) :
    ∀ m ≥ n, P (run.state m) := by
  intro m hm
  induction hm with
  | refl => exact hStart
  | step hm ih => exact hStep _ _ _ ih (run.next _)

/-- While `P` holds, every step keeps it or gets to `Q`, and the actions that a fair scheduler takes get to `Q`. -/
theorem leadsTo_of_fair {enabled : σ → Prop} {actions : α → Prop} (hFair : run.Fair enabled actions)
    (hEnabled : ∀ s, P s → enabled s) (hKeep : ∀ s a s', P s → step s a = some s' → P s' ∨ Q s')
    (hHelp : ∀ s a s', P s → actions a → step s a = some s' → Q s') : run.LeadsTo P Q := by
  intro n hn
  by_contra hNever
  have hNot : ∀ m ≥ n, ¬Q (run.state m) := fun m hm hQ => hNever ⟨m, hm, hQ⟩
  have hAlways : ∀ m ≥ n, P (run.state m) := by
    intro m hm
    induction hm with
    | refl => exact hn
    | step hm ih => exact (hKeep _ _ _ ih (run.next _)).resolve_right (hNot _ (Nat.le_succ_of_le hm))
  obtain ⟨m, hm, hAction⟩ := hFair n fun m hm => hEnabled _ (hAlways m hm)
  exact hNot _ (Nat.le_succ_of_le hm) (hHelp _ _ _ (hAlways m hm) hAction (run.next m))

/-- A number that is led to something greater while it is below a bound gets to the bound. -/
theorem leadsTo_of_rank {rank : σ → Nat} {bound : Nat}
    (h : ∀ k < bound, run.LeadsTo (fun s => P s ∧ rank s = k) fun s => P s ∧ k < rank s) :
    run.LeadsTo P fun s => P s ∧ bound ≤ rank s := by
  intro n hn
  induction hLeft : bound - rank (run.state n) using Nat.strongRecOn generalizing n with
  | ind left ih =>
    by_cases hBelow : rank (run.state n) < bound
    · obtain ⟨m, hm, hP, hRank⟩ := h _ hBelow n ⟨hn, rfl⟩
      obtain ⟨k, hk, hDone⟩ := ih _ (by omega) m hP rfl
      exact ⟨k, Nat.le_trans hm hk, hDone⟩
    · exact ⟨n, Nat.le_refl n, hn, Nat.le_of_not_lt hBelow⟩

end Run

end BeShare.Lib
