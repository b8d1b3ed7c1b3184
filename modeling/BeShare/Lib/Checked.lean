import Mathlib.Init

/-! Computations that may stop with an error: postconditions, and agreement of a computation that
traps where another one goes on. -/

namespace BeShare.Lib

universe u

variable {ε α β : Type u}

@[simp] theorem ok_bind (a : α) (f : α → Except ε β) : (Except.ok a >>= f) = f a := rfl

@[simp] theorem error_bind (e : ε) (f : α → Except ε β) :
    ((Except.error e : Except ε α) >>= f) = .error e := rfl

/-- What a successful bind ran through. -/
theorem bind_eq_ok {x : Except ε α} {f : α → Except ε β} {b : β} (h : x >>= f = .ok b) :
    ∃ a, x = .ok a ∧ f a = .ok b := by
  cases x with
  | ok a => exact ⟨a, rfl, h⟩
  | error e => cases h

/-- `x` returns a value in `Q` or stops with an error in `E`. -/
def Post (x : Except ε α) (Q : α → Prop) (E : ε → Prop) : Prop :=
  match x with
  | .ok a => Q a
  | .error e => E e

namespace Post

variable {x : Except ε α} {Q Q' : α → Prop} {E E' : ε → Prop}

@[simp] theorem ok {a : α} : Post (.ok a : Except ε α) Q E ↔ Q a := Iff.rfl

@[simp] theorem pure {a : α} : Post (Pure.pure a : Except ε α) Q E ↔ Q a := Iff.rfl

@[simp] theorem error {e : ε} : Post (.error e : Except ε α) Q E ↔ E e := Iff.rfl

@[simp] theorem throw {e : ε} : Post (MonadExcept.throw e : Except ε α) Q E ↔ E e := Iff.rfl

theorem bind {f : α → Except ε β} {R : β → Prop} (hx : Post x Q E)
    (hf : ∀ a, Q a → Post (f a) R E) : Post (x >>= f) R E := by
  cases x with
  | ok a => exact hf a hx
  | error e => exact hx

/-- A step of which nothing needs to be known. -/
theorem bind_any {f : α → Except ε β} {R : β → Prop} (hE : ∀ e, E e)
    (hf : ∀ a, Post (f a) R E) : Post (x >>= f) R E := by
  cases x with
  | ok a => exact hf a
  | error e => exact hE e

theorem mono (hx : Post x Q E) (hQ : ∀ a, Q a → Q' a) (hE : ∀ e, E e → E' e) : Post x Q' E' := by
  cases x with
  | ok a => exact hQ a hx
  | error e => exact hE e hx

theorem ite {c : Prop} [Decidable c] {y : Except ε α} (hx : c → Post x Q E)
    (hy : ¬c → Post y Q E) : Post (if c then x else y) Q E := by
  split
  · exact hx ‹_›
  · exact hy ‹_›

theorem of_ok {a : α} (hx : Post x Q E) (h : x = .ok a) : Q a := by
  subst h
  exact hx

theorem of_error {e : ε} (hx : Post x Q E) (h : x = .error e) : E e := by
  subst h
  exact hx

end Post

/-- `y` does what `x` does, unless `x` stops with `trap`. -/
def Agrees (trap : ε) (x y : Except ε α) : Prop := x = .error trap ∨ y = x

namespace Agrees

variable {trap : ε} {x y : Except ε α}

theorem refl (x : Except ε α) : Agrees trap x x := .inr rfl

theorem bind {f g : α → Except ε β} (hx : Agrees trap x y) (hf : ∀ a, Agrees trap (f a) (g a)) :
    Agrees trap (x >>= f) (y >>= g) := by
  rcases hx with rfl | rfl
  · exact .inl rfl
  · cases y with
    | ok a => exact hf a
    | error e => exact .inr rfl

theorem ite {c : Prop} [Decidable c] {x' y' : Except ε α} (hx : Agrees trap x y)
    (hy : Agrees trap x' y') : Agrees trap (if c then x else x') (if c then y else y') := by
  split
  · exact hx
  · exact hy

theorem eq_of_ne (h : Agrees trap x y) (hne : x ≠ .error trap) : y = x :=
  h.resolve_left hne

end Agrees

/-- `x` stops with `flag` where `y` goes wrong, and otherwise both do the same, without going wrong,
and return a value in `Q`. -/
def Flags (flag : ε) (wrong : ε → Prop) (x y : Except ε α) (Q : α → Prop) : Prop :=
  x = .error flag ∧ Post y (fun _ => False) wrong ∨ y = x ∧ Post x Q fun e => e ≠ flag ∧ ¬wrong e

namespace Flags

variable {flag : ε} {wrong : ε → Prop} {x y : Except ε α} {Q : α → Prop}

theorem both (h : Post x Q fun e => e ≠ flag ∧ ¬wrong e) : Flags flag wrong x x Q := .inr ⟨rfl, h⟩

theorem error {e : ε} (h : e ≠ flag) (hw : ¬wrong e) :
    Flags flag wrong (.error e : Except ε α) (.error e) Q :=
  both ⟨h, hw⟩

theorem bind {f g : α → Except ε β} {R : β → Prop} (hx : Flags flag wrong x y Q)
    (hf : ∀ a, Q a → Flags flag wrong (f a) (g a) R) : Flags flag wrong (x >>= f) (y >>= g) R := by
  rcases hx with ⟨rfl, hy⟩ | ⟨rfl, hx⟩
  · exact .inl ⟨rfl, hy.bind fun _ h => h.elim⟩
  · cases y with
    | ok a => exact hf a hx
    | error e => exact both hx

theorem ite {c : Prop} [Decidable c] {x' y' : Except ε α} (hx : c → Flags flag wrong x y Q)
    (hy : ¬c → Flags flag wrong x' y' Q) :
    Flags flag wrong (if c then x else x') (if c then y else y') Q := by
  split
  · exact hx ‹_›
  · exact hy ‹_›

theorem mono {Q' : α → Prop} (h : Flags flag wrong x y Q) (hQ : ∀ a, Q a → Q' a) :
    Flags flag wrong x y Q' := by
  rcases h with h | ⟨rfl, h⟩
  · exact .inl h
  · exact both (h.mono hQ fun _ he => he)

/-- `x` raises the flag exactly if `y` goes wrong. -/
theorem flag_iff (h : Flags flag wrong x y Q) : x = .error flag ↔ ∃ e, y = .error e ∧ wrong e := by
  constructor
  · rintro rfl
    rcases h with ⟨-, hy⟩ | ⟨-, hx⟩
    · cases y with
      | ok a => exact hy.elim
      | error e => exact ⟨e, rfl, hy⟩
    · exact absurd rfl hx.1
  · rintro ⟨e, rfl, hw⟩
    rcases h with ⟨hx, -⟩ | ⟨rfl, hx⟩
    · exact hx
    · exact absurd hw hx.2

end Flags

end BeShare.Lib
