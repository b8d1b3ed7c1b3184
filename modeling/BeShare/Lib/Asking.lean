import Mathlib.Init

/-!
Programs that ask something outside them and go on with the answer, for processes that run side by side: what others do
is seen at the questions only. A ghost state changes with the answers by a relation, and a program meets a condition if
it does so for all answers.
-/

namespace BeShare.Lib

inductive Asking (ρ β α : Type) where
  | ret (a : α)
  | ask (question : ρ) (next : β → Asking ρ β α)

namespace Asking

variable {ρ β α α' ε : Type}

def bind : Asking ρ β α → (α → Asking ρ β α') → Asking ρ β α'
  | .ret a, f => f a
  | .ask question next, f => .ask question fun answer => (next answer).bind f

/-- Each question is asked in a state in which it may be, and the result is as wanted, if the answers change the state
as `changes` says. -/
def Meets (may : ε → ρ → Prop) (changes : ε → ρ → β → ε → Prop) (wanted : ε → α → Prop) : ε → Asking ρ β α → Prop
  | e, .ret a => wanted e a
  | e, .ask question next =>
    may e question ∧ ∀ answer e', changes e question answer e' → Meets may changes wanted e' (next answer)

variable {may : ε → ρ → Prop} {changes : ε → ρ → β → ε → Prop} {wanted wanted' : ε → α → Prop} {e : ε}

theorem Meets.mono {p : Asking ρ β α} (h : p.Meets may changes wanted e) (hLess : ∀ e a, wanted e a → wanted' e a) :
    p.Meets may changes wanted' e := by
  induction p generalizing e with
  | ret a => exact hLess e a h
  | ask question next ih => exact ⟨h.1, fun answer e' hChange => ih answer (h.2 answer e' hChange)⟩

/-- The rule for one program after another. -/
theorem Meets.bind {wanted' : ε → α' → Prop} {p : Asking ρ β α} {f : α → Asking ρ β α'}
    (h : p.Meets may changes wanted e) (hNext : ∀ e a, wanted e a → (f a).Meets may changes wanted' e) :
    (p.bind f).Meets may changes wanted' e := by
  induction p generalizing e with
  | ret a => exact hNext e a h
  | ask question next ih => exact ⟨h.1, fun answer e' hChange => ih answer (h.2 answer e' hChange)⟩

end Asking

end BeShare.Lib
