import Mathlib.Init

/-! Properties that hold of an object and of everything inside it. -/

namespace BeShare.Lib

variable {α : Type}

/-- `p` holds of `a` and of what `a` holds inside, to any depth; `inside b a` says that `b` is held
by `a` directly. -/
inductive Throughout (inside : α → α → Prop) (p : α → Prop) : α → Prop where
  | intro (a : α) : p a → (∀ b, inside b a → Throughout inside p b) → Throughout inside p a

namespace Throughout

variable {inside : α → α → Prop} {p q : α → Prop} {a b : α}

theorem here (h : Throughout inside p a) : p a := by
  cases h
  assumption

theorem item (h : Throughout inside p a) (hb : inside b a) : Throughout inside p b := by
  cases h with
  | intro _ _ hInside => exact hInside b hb

theorem and (hp : Throughout inside p a) (hq : Throughout inside q a) :
    Throughout inside (fun a => p a ∧ q a) a := by
  induction hp with
  | intro a hpa _ ih => exact .intro a ⟨hpa, hq.here⟩ fun b hb => ih b hb (hq.item hb)

theorem mono (hp : Throughout inside p a) (hpq : ∀ a, p a → q a) : Throughout inside q a := by
  induction hp with
  | intro a hpa _ ih => exact .intro a (hpq a hpa) ih

end Throughout

end BeShare.Lib
