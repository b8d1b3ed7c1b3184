import Mathlib.Tactic.Ring

/-!
Buckets that amounts go into and that leak with time: no more goes in during an interval than the bucket holds and
what leaks meanwhile. A log has the amounts that went in with their times. `rate / unit` leaks in one unit of time.
-/

namespace BeShare.Lib

/-- What went in from one time to another. -/
def filledIn (log : List (Nat × Nat)) (t₁ t₂ : Nat) : Nat :=
  (log.map fun entry => if t₁ ≤ entry.1 ∧ entry.1 ≤ t₂ then entry.2 else 0).sum

@[simp] theorem filledIn_nil (t₁ t₂ : Nat) : filledIn [] t₁ t₂ = 0 := rfl

theorem filledIn_cons (t n : Nat) (log : List (Nat × Nat)) (t₁ t₂ : Nat) :
    filledIn ((t, n) :: log) t₁ t₂ = (if t₁ ≤ t ∧ t ≤ t₂ then n else 0) + filledIn log t₁ t₂ := rfl

theorem filledIn_congr {log : List (Nat × Nat)} {t₁ t₂ t₁' t₂' : Nat}
    (h : ∀ entry ∈ log, (t₁ ≤ entry.1 ∧ entry.1 ≤ t₂) ↔ t₁' ≤ entry.1 ∧ entry.1 ≤ t₂') :
    filledIn log t₁ t₂ = filledIn log t₁' t₂' := by
  unfold filledIn
  exact congrArg List.sum (List.map_congr_left fun entry hEntry => if_congr (h entry hEntry) rfl rfl)

theorem filledIn_eq_zero {log : List (Nat × Nat)} {t₁ t₂ : Nat}
    (h : ∀ entry ∈ log, ¬(t₁ ≤ entry.1 ∧ entry.1 ≤ t₂)) : filledIn log t₁ t₂ = 0 := by
  induction log with
  | nil => rfl
  | cons entry log ih =>
    rw [filledIn_cons, if_neg (h entry (List.mem_cons_self ..)), Nat.zero_add]
    exact ih fun old hOld => h old (List.mem_cons_of_mem _ hOld)

/-- A bucket with its level at the last time that anything leaked. -/
structure Leaking (unit rate limit level last : Nat) (log : List (Nat × Nat)) : Prop where
  level_le : level ≤ limit
  upTo : ∀ entry ∈ log, entry.1 ≤ last
  since : ∀ t, unit * filledIn log t last ≤ unit * level + rate * (last - t)
  within : ∀ t₁ t₂, unit * filledIn log t₁ t₂ ≤ unit * limit + rate * (t₂ - t₁)

namespace Leaking

variable {unit rate limit level last now n : Nat} {log : List (Nat × Nat)}

theorem start (unit rate limit : Nat) : Leaking unit rate limit 0 0 [] where
  level_le := Nat.zero_le limit
  upTo := fun _ hEntry => nomatch hEntry
  since := fun _ => Nat.zero_le _
  within := fun _ _ => Nat.zero_le _

/-- Time passes, and no more leaks than should. -/
theorem leak (h : Leaking unit rate limit level last log) (hNow : last ≤ now)
    (hLeak : unit * n ≤ rate * (now - last)) : Leaking unit rate limit (level - n) now log where
  level_le := (Nat.sub_le level n).trans h.level_le
  upTo := fun entry hEntry => (h.upTo entry hEntry).trans hNow
  since := by
    intro t
    have hSame : filledIn log t now = filledIn log t last :=
      filledIn_congr fun entry hEntry => by
        have hLast := h.upTo entry hEntry
        omega
    have hLevel : unit * level ≤ unit * (level - n) + unit * n := by
      rw [← Nat.mul_add]
      exact Nat.mul_le_mul_left unit (by omega)
    rw [hSame]
    by_cases ht : t ≤ last
    · have hSplit : rate * (now - t) = rate * (now - last) + rate * (last - t) := by
        rw [← Nat.mul_add]
        exact congrArg (rate * ·) (by omega)
      have hBefore := h.since t
      omega
    · rw [filledIn_eq_zero fun entry _ => by omega, Nat.mul_zero]
      exact Nat.zero_le _
  within := h.within

/-- An empty bucket does not leak. -/
theorem wait (h : Leaking unit rate limit 0 last log) (hNow : last ≤ now) : Leaking unit rate limit 0 now log :=
  h.leak (n := 0) hNow (Nat.zero_le _)

/-- What still fits goes in. -/
theorem fill (h : Leaking unit rate limit level last log) (hFits : level + n ≤ limit) :
    Leaking unit rate limit (level + n) last ((last, n) :: log) where
  level_le := hFits
  upTo := by
    intro entry hEntry
    rcases List.mem_cons.mp hEntry with rfl | hOld
    · exact Nat.le_refl last
    · exact h.upTo entry hOld
  since := by
    intro t
    have hBefore := h.since t
    rw [filledIn_cons, Nat.mul_add, Nat.mul_add]
    split <;> omega
  within := by
    intro t₁ t₂
    rw [filledIn_cons]
    by_cases hHere : t₁ ≤ last ∧ last ≤ t₂
    · have hSame : filledIn log t₁ t₂ = filledIn log t₁ last :=
        filledIn_congr fun entry hEntry => by
          have hLast := h.upTo entry hEntry
          omega
      have hTime : rate * (last - t₁) ≤ rate * (t₂ - t₁) := Nat.mul_le_mul_left rate (by omega)
      have hLevel : unit * (level + n) ≤ unit * limit := Nat.mul_le_mul_left unit hFits
      have hBefore := h.since t₁
      rw [if_pos hHere, hSame, Nat.mul_add]
      rw [Nat.mul_add] at hLevel
      omega
    · rw [if_neg hHere, Nat.zero_add]
      exact h.within t₁ t₂

/-- The bound for the amounts themselves, rounded down. -/
theorem filledIn_le (h : Leaking unit rate limit level last log) (hUnit : 0 < unit) (t₁ t₂ : Nat) :
    filledIn log t₁ t₂ ≤ limit + rate * (t₂ - t₁) / unit := by
  rw [Nat.add_comm, ← Nat.sub_le_iff_le_add, Nat.le_div_iff_mul_le hUnit, Nat.mul_comm, Nat.mul_sub]
  exact Nat.sub_le_iff_le_add'.mpr (h.within t₁ t₂)

end Leaking

end BeShare.Lib
