import Mathlib.Data.Nat.GCD.Basic
import Mathlib.Data.Nat.ModEq

/-!
Rotation in place: around a circle of `n` places in steps of `shift`, each of as many cycles as the greatest common
divisor of the two goes through its places once.
-/

namespace BeShare.Lib

/-! ### The places of a cycle -/

section

variable {n shift start i j k p : Nat}

/-- The place after `k` steps. -/
def around (n shift start k : Nat) : Nat :=
  (start + k * shift) % n

theorem around_zero (h : start < n) : around n shift start 0 = start := by
  rw [around, Nat.zero_mul, Nat.add_zero, Nat.mod_eq_of_lt h]

theorem around_lt (h : 0 < n) : around n shift start k < n :=
  Nat.mod_lt _ h

theorem around_succ : around n shift start (k + 1) = (around n shift start k + shift) % n := by
  rw [around, around, Nat.mod_add_mod, Nat.add_mul, Nat.one_mul, Nat.add_assoc]

/-- A step does not need the division. -/
theorem step_around (hp : p < n) (hShift : shift < n) :
    (if n - p > shift then p + shift else shift - (n - p)) = (p + shift) % n := by
  split
  · rw [Nat.mod_eq_of_lt (by omega)]
  · rw [show p + shift = shift - (n - p) + n by omega, Nat.add_mod_right, Nat.mod_eq_of_lt (by omega)]

/-- After as many steps as the cycle has places it is at the start again. -/
theorem around_eq_iff (hn : 0 < n) : around n shift start j = around n shift start k ↔ j ≡ k [MOD n / n.gcd shift] := by
  show start + j * shift ≡ start + k * shift [MOD n] ↔ _
  constructor
  · exact fun h => Nat.ModEq.cancel_right_div_gcd hn (Nat.ModEq.add_left_cancel' start h)
  · intro h
    have hMul := h.mul_right' shift
    obtain ⟨s, hs⟩ := Nat.gcd_dvd_right n shift
    have hSteps : n / n.gcd shift * shift = n * s := calc
      n / n.gcd shift * shift = n / n.gcd shift * (n.gcd shift * s) := congrArg _ hs
      _ = n * s := by rw [← Nat.mul_assoc, Nat.div_mul_cancel (Nat.gcd_dvd_left n shift)]
    rw [hSteps] at hMul
    exact (hMul.of_mul_right s).add_left start

theorem around_inj (hn : 0 < n) (hj : j < n / n.gcd shift) (hk : k < n / n.gcd shift)
    (h : around n shift start j = around n shift start k) : j = k :=
  Nat.ModEq.eq_of_lt_of_lt ((around_eq_iff hn).mp h) hj hk

theorem mod_gcd_step : (p + shift) % n % n.gcd shift = p % n.gcd shift := by
  rw [Nat.mod_mod_of_dvd _ (Nat.gcd_dvd_left n shift), Nat.add_mod, Nat.mod_eq_zero_of_dvd (Nat.gcd_dvd_right n shift),
    Nat.add_zero, Nat.mod_mod]

/-- All places of a cycle leave the same rest. -/
theorem around_mod_gcd (hStart : start < n) : around n shift start k % n.gcd shift = start % n.gcd shift := by
  induction k with
  | zero => rw [around_zero hStart]
  | succ k ih => rw [around_succ, mod_gcd_step, ih]

/-- All places that leave the same rest are on the way. -/
theorem around_surj (hShift : 0 < shift) (hn : shift < n) (hi : i < n) (hStart : start = i % n.gcd shift) :
    ∃ k < n / n.gcd shift, around n shift start k = i := by
  have hGcd : n.gcd shift < n := Nat.lt_of_le_of_lt (Nat.gcd_le_right n hShift) hn
  obtain ⟨t, -, ht⟩ := Nat.exists_mul_mod_eq_gcd (n := shift) (k := n) (by rwa [Nat.gcd_comm])
  have hCycle : 0 < n / n.gcd shift := Nat.div_pos hGcd.le (Nat.gcd_pos_of_pos_right n hShift)
  refine ⟨t * (i / n.gcd shift) % (n / n.gcd shift), Nat.mod_lt _ hCycle, ?_⟩
  have hSame := (@around_eq_iff n shift start _ _ (Nat.lt_trans hShift hn)).mpr
    (Nat.mod_modEq (t * (i / n.gcd shift)) (n / n.gcd shift))
  rw [hSame]
  have hWay : t * (i / n.gcd shift) * shift ≡ n.gcd shift * (i / n.gcd shift) [MOD n] := by
    have hOne : shift * t ≡ n.gcd shift [MOD n] := by
      rw [Nat.ModEq, ht, Nat.gcd_comm, Nat.mod_eq_of_lt hGcd]
    have hAll := hOne.mul_right (i / n.gcd shift)
    rwa [show shift * t * (i / n.gcd shift) = t * (i / n.gcd shift) * shift by
      rw [Nat.mul_comm shift t, Nat.mul_right_comm]] at hAll
  have hEnd := hWay.add_left start
  rw [show start + n.gcd shift * (i / n.gcd shift) = i by rw [hStart, Nat.mod_add_div]] at hEnd
  exact Nat.mod_eq_of_modEq hEnd hi

end

/-! ### Moving along -/

variable {α : Type} {pos : Nat → Nat} {k : Nat} {l l' : List α} {x : α}

/-- Each of the first `k` places has got what was at the next one. -/
structure Moved (pos : Nat → Nat) (k : Nat) (l l' : List α) : Prop where
  length : l'.length = l.length
  moved : ∀ j < k, l'[pos j]? = l[pos (j + 1)]?
  others : ∀ i, (∀ j < k, i ≠ pos j) → l'[i]? = l[i]?

theorem Moved.zero : Moved pos 0 l l :=
  ⟨rfl, nofun, fun _ _ => rfl⟩

theorem Moved.set (h : Moved pos k l l') (hNew : ∀ j < k, pos k ≠ pos j) (hIn : pos k < l.length)
    (hx : l[pos (k + 1)]? = some x) : Moved pos (k + 1) l (l'.set (pos k) x) where
  length := by rw [List.length_set, h.length]
  moved := by
    intro j hj
    rcases Nat.lt_succ_iff_lt_or_eq.mp hj with hj | rfl
    · rw [List.getElem?_set_ne (hNew j hj), h.moved j hj]
    · rw [List.getElem?_set_self (h.length ▸ hIn), hx]
  others := by
    intro i hi
    rw [List.getElem?_set_ne (hi k (Nat.lt_succ_self k)).symm, h.others i fun j hj => hi j (Nat.lt_succ_of_lt hj)]

/-- Two neighbouring parts have changed places if each place between their ends has got what was as many places further
on as the first part has, around the circle. -/
theorem exchanged {pre u v post : List α}
    (hInside : ∀ i < u.length + v.length,
      l'[pre.length + i]? = (pre ++ (u ++ v ++ post))[pre.length + (i + u.length) % (u.length + v.length)]?)
    (hOutside : ∀ i, i < pre.length ∨ pre.length + (u.length + v.length) ≤ i →
      l'[i]? = (pre ++ (u ++ v ++ post))[i]?) : l' = pre ++ (v ++ u ++ post) := by
  refine List.ext_getElem? fun i => ?_
  by_cases hBefore : i < pre.length
  · rw [hOutside i (.inl hBefore), List.getElem?_append_left hBefore, List.getElem?_append_left hBefore]
  by_cases hBehind : pre.length + (u.length + v.length) ≤ i
  · have hPart : ∀ s t : List α, s.length + t.length = u.length + v.length →
        (pre ++ (s ++ t ++ post))[i]? = post[i - pre.length - (u.length + v.length)]? := by
      intro s t hBoth
      rw [List.getElem?_append_right (by omega), List.getElem?_append_right (by rw [List.length_append]; omega),
        List.length_append, hBoth]
    rw [hOutside i (.inr hBehind), hPart u v rfl, hPart v u (Nat.add_comm ..)]
  · obtain ⟨d, rfl⟩ : ∃ d, i = pre.length + d := ⟨i - pre.length, by omega⟩
    have hd : d < u.length + v.length := by omega
    have hAt : ∀ (s t : List α) (e : Nat), e < s.length + t.length →
        (pre ++ (s ++ t ++ post))[pre.length + e]? = (s ++ t)[e]? := by
      intro s t e he
      rw [List.getElem?_append_right (Nat.le_add_right ..), Nat.add_sub_cancel_left,
        List.getElem?_append_left (by rw [List.length_append]; exact he)]
    rw [hInside d hd, hAt u v _ (Nat.mod_lt _ (by omega)), hAt v u d (by omega)]
    by_cases hFirst : d < v.length
    · rw [Nat.mod_eq_of_lt (by omega), List.getElem?_append_right (Nat.le_add_left ..), Nat.add_sub_cancel,
        List.getElem?_append_left hFirst]
    · rw [show d + u.length = d - v.length + (u.length + v.length) by omega, Nat.add_mod_right,
        Nat.mod_eq_of_lt (by omega), List.getElem?_append_left (by omega), List.getElem?_append_right (by omega)]

end BeShare.Lib
