import Mathlib.Logic.Function.Basic
import Mathlib.Data.Nat.ModEq
import Mathlib.Tactic.Common

/-! Circular arrays: items in the slots of an array, from a slot on and around the end. -/

namespace BeShare.Lib

variable {α : Type} {size head i j : Nat} {slots : Nat → α} {x : α}

theorem ring_inj (hi : i < size) (hj : j < size) : (head + i) % size = (head + j) % size ↔ i = j := by
  refine ⟨fun h => ?_, fun h => by rw [h]⟩
  have hMod : i ≡ j [MOD size] := Nat.ModEq.add_left_cancel' head h
  rwa [Nat.ModEq, Nat.mod_eq_of_lt hi, Nat.mod_eq_of_lt hj] at hMod

/-- What a slot holds after a write. -/
theorem ring_update (hi : i < size) (hj : j < size) :
    Function.update slots ((head + i) % size) x ((head + j) % size) =
      if j = i then x else slots ((head + j) % size) := by
  rw [Function.update_apply]
  exact if_congr (ring_inj hj hi) rfl rfl

/-- The slot after the first one is the first one of the rest. -/
theorem ring_next (head i : Nat) : ((head + 1) % size + i) % size = (head + (i + 1)) % size := by
  rw [Nat.mod_add_mod]
  congr 1
  omega

theorem ring_zero (h : head < size) : (head + 0) % size = head :=
  Nat.mod_eq_of_lt h

/-- The slot before the first one is the last one. -/
theorem ring_prev (h : 0 < size) (i : Nat) : ((head + (size - 1)) % size + (i + 1)) % size = (head + i) % size := by
  rw [Nat.mod_add_mod, show head + (size - 1) + (i + 1) = head + i + size by omega, Nat.add_mod_right]

end BeShare.Lib
