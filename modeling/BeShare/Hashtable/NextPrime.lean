import BeShare.Hashtable.Put
import Mathlib.NumberTheory.LucasLehmer

/-! `NextPrime` returns for every size, and a size that is not smaller up to 2^31 - 1. -/

namespace BeShare.Muscle.Hashtable

open BeShare.Lib

/-- The inner loop comes to an end at `start` at the latest. -/
theorem divisorLoop_ok {start : Nat} (hOdd : start % 2 = 1) (hWord : start < 2 ^ 32) {fuel i : Nat}
    (hi : i % 2 = 1) (hFrom : i ≤ start ∨ start < i * i % 2 ^ 32) (hFuel : start < i + 2 * fuel) :
    ∃ j, divisorLoop start (fuel + 1) i = .ok j := by
  induction fuel generalizing i with
  | zero =>
    rcases hFrom with hLe | hBig
    · omega
    · exact ⟨i, by rw [divisorLoop, if_neg (by omega)]⟩
  | succ fuel ih =>
    rw [divisorLoop]
    split
    · split
      · exact ⟨i, rfl⟩
      · rename_i hSquare hDivides
        have hLe : i ≤ start := hFrom.resolve_right (by omega)
        have hne : i ≠ start := by
          rintro rfl
          exact hDivides (Nat.mod_self i)
        rw [Nat.mod_eq_of_lt (by omega : i + 2 < 2 ^ 32)]
        exact ih (by omega) (.inl (by omega)) (by omega)
    · exact ⟨i, rfl⟩

/-- `NextPrime` stops at the Mersenne prime 2^31 - 1. -/
theorem divisorLoop_mersenne {fuel i j : Nat} (hi : i % 2 = 1) (hThree : 3 ≤ i) (hLe : i ≤ 46341)
    (hLoop : divisorLoop (2 ^ 31 - 1) fuel i = .ok j) : 2 ^ 31 - 1 < j * j % 2 ^ 32 := by
  have hPrime : Nat.Prime (2 ^ 31 - 1) := lucas_lehmer_sufficiency 31 (by norm_num) (by norm_num)
  induction fuel generalizing i with
  | zero => cases hLoop
  | succ fuel ih =>
    have hWord : i * i < 2 ^ 32 := by nlinarith
    rw [divisorLoop] at hLoop
    split at hLoop
    · rename_i hSquare
      rw [Nat.mod_eq_of_lt hWord] at hSquare
      have hSmall : i < 46341 := by
        refine Nat.lt_of_le_of_ne hLe ?_
        rintro rfl
        omega
      split at hLoop
      · rename_i hDivides
        rcases (Nat.dvd_prime hPrime).mp (Nat.dvd_of_mod_eq_zero hDivides) with hOne | hAll <;> omega
      · rw [Nat.mod_eq_of_lt (by omega : i + 2 < 2 ^ 32)] at hLoop
        exact ih (by omega) (by omega) (by omega) hLoop
    · rename_i hSquare
      cases hLoop
      omega

theorem primeLoop_one (fuel : Nat) : primeLoop (fuel + 2) 1 = .ok 1 := by
  simp [primeLoop, divisorLoop]

theorem divisorLoop_three {start : Nat} (fuel : Nat) (hOdd : start % 2 = 1) (hWord : start < 2 ^ 32)
    (hFuel : 2 ^ 31 < fuel) : ∃ j, divisorLoop start fuel 3 = .ok j := by
  obtain ⟨fuel, rfl⟩ : ∃ n, fuel = n + 1 := ⟨fuel - 1, by omega⟩
  exact divisorLoop_ok hOdd hWord rfl (by omega) (by omega)

/-- The outer loop goes on to 2^32 - 1 and starts again with 1, if there is no prime on its way. -/
theorem primeLoop_ok {k start fuel : Nat} (hOdd : start % 2 = 1) (hWord : start < 2 ^ 32)
    (hk : 2 ^ 32 - start ≤ 2 * k + 1) (hFuel : k + 2 ^ 31 + 2 < fuel) :
    ∃ n, primeLoop fuel start = .ok n ∧ 0 < n ∧ n < 2 ^ 32 := by
  induction k generalizing start fuel with
  | zero =>
    obtain ⟨fuel, rfl⟩ : ∃ n, fuel = n + 3 := ⟨fuel - 3, by omega⟩
    obtain ⟨j, hLoop⟩ := divisorLoop_three (fuel + 2) hOdd hWord (by omega)
    rw [primeLoop, hLoop, ok_bind]
    split
    · exact ⟨start, rfl, by omega, hWord⟩
    · have hWrap : (start + 2) % 2 ^ 32 = 1 := by omega
      rw [hWrap, primeLoop_one]
      exact ⟨1, rfl, by omega, by omega⟩
  | succ k ih =>
    obtain ⟨fuel, rfl⟩ : ∃ n, fuel = n + 3 := ⟨fuel - 3, by omega⟩
    obtain ⟨j, hLoop⟩ := divisorLoop_three (fuel + 2) hOdd hWord (by omega)
    rw [primeLoop, hLoop, ok_bind]
    split
    · exact ⟨start, rfl, by omega, hWord⟩
    · by_cases hLast : start + 2 < 2 ^ 32
      · rw [Nat.mod_eq_of_lt hLast]
        exact ih (by omega) hLast (by omega) (by omega)
      · have hWrap : (start + 2) % 2 ^ 32 = 1 := by omega
        rw [hWrap, primeLoop_one]
        exact ⟨1, rfl, by omega, by omega⟩

theorem primeLoop_ge {k start fuel n : Nat} (hOdd : start % 2 = 1) (hk : start + 2 * k = 2 ^ 31 - 1)
    (hLoop : primeLoop fuel start = .ok n) : start ≤ n := by
  induction k generalizing start fuel with
  | zero =>
    obtain rfl : start = 2 ^ 31 - 1 := by omega
    cases fuel with
    | zero => cases hLoop
    | succ fuel =>
      obtain ⟨j, hDivisor, hRest⟩ := bind_eq_ok hLoop
      have hSquare := divisorLoop_mersenne rfl (Nat.le_refl 3) (by omega) hDivisor
      rw [if_pos hSquare] at hRest
      cases hRest
      exact Nat.le_refl _
  | succ k ih =>
    cases fuel with
    | zero => cases hLoop
    | succ fuel =>
      obtain ⟨j, hDivisor, hRest⟩ := bind_eq_ok hLoop
      split at hRest
      · cases hRest
        exact Nat.le_refl _
      · rw [Nat.mod_eq_of_lt (by omega : start + 2 < 2 ^ 32)] at hRest
        have hNext := ih (by omega) (by omega) hRest
        omega

theorem nextPrime_ok {fuel : Nat} (start : Nat) (hWord : start < 2 ^ 32) (hFuel : 2 ^ 33 ≤ fuel) :
    ∃ n, nextPrime fuel start = .ok n ∧ 0 < n ∧ n < 2 ^ 32 ∧ (start < 2 ^ 31 → start ≤ n) := by
  have hOdd : (if start % 2 = 0 then start + 1 else start) % 2 = 1 := by split <;> omega
  obtain ⟨n, hLoop, hPos, hn⟩ := primeLoop_ok (k := 2 ^ 31) hOdd (by split <;> omega)
    (by omega) (show 2 ^ 31 + 2 ^ 31 + 2 < fuel by omega)
  refine ⟨n, hLoop, hPos, hn, fun hSmall => ?_⟩
  have hGe := primeLoop_ge (k := (2 ^ 31 - 1 - (if start % 2 = 0 then start + 1 else start)) / 2) hOdd
    (by split <;> omega) hLoop
  split at hGe <;> omega

end BeShare.Muscle.Hashtable
