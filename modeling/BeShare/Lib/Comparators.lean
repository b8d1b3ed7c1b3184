import BeShare.Lib.Words
import Mathlib.Data.List.Lex
import Mathlib.Data.Set.Basic
import Mathlib.Order.WithBot
import Mathlib.Algebra.Group.Nat.Defs
import Mathlib.Algebra.Ring.Int.Defs

/-! Comparisons that answer like `strcmp`, with a negative number, zero, or a positive number. -/

namespace BeShare.Lib

variable {α β : Type} {cmp : α → α → Int} {s t : Set α}

/-- The comparison puts the elements of `s` in order: the answer turns with the question, and what is not behind is
not behind along a chain. -/
structure Orders (cmp : α → α → Int) (s : Set α) : Prop where
  antisymm : ∀ a ∈ s, ∀ b ∈ s, (cmp a b).sign = -(cmp b a).sign
  trans : ∀ a ∈ s, ∀ b ∈ s, ∀ c ∈ s, cmp a b ≤ 0 → cmp b c ≤ 0 → cmp a c ≤ 0

namespace Orders

theorem mono (h : Orders cmp t) (hSub : s ⊆ t) : Orders cmp s :=
  ⟨fun a ha b hb => h.antisymm a (hSub ha) b (hSub hb),
    fun a ha b hb c hc => h.trans a (hSub ha) b (hSub hb) c (hSub hc)⟩

theorem congr {cmp' : α → α → Int} (h : Orders cmp s) (hSame : ∀ a ∈ s, ∀ b ∈ s, cmp' a b = cmp a b) :
    Orders cmp' s := by
  refine ⟨fun a ha b hb => ?_, fun a ha b hb c hc => ?_⟩
  · rw [hSame a ha b hb, hSame b hb a ha]
    exact h.antisymm a ha b hb
  · rw [hSame a ha b hb, hSame b hb c hc, hSame a ha c hc]
    exact h.trans a ha b hb c hc

/-- What is not behind in both directions is equal. -/
theorem eq_zero (h : Orders cmp s) {a b : α} (ha : a ∈ s) (hb : b ∈ s) (hab : cmp a b ≤ 0) (hba : cmp b a ≤ 0) :
    cmp a b = 0 := by
  have hSign := h.antisymm a ha b hb
  rcases Int.lt_or_eq_of_le hab with hLess | hZero
  · rw [Int.sign_eq_neg_one_of_neg hLess] at hSign
    have hOther := Int.sign_nonpos_iff.mpr hba
    omega
  · exact hZero

theorem total (h : Orders cmp s) {a b : α} (ha : a ∈ s) (hb : b ∈ s) : cmp a b ≤ 0 ∨ cmp b a ≤ 0 := by
  by_contra hNot
  rw [not_or, Int.not_le, Int.not_le] at hNot
  have hSign := h.antisymm a ha b hb
  rw [Int.sign_eq_one_of_pos hNot.1, Int.sign_eq_one_of_pos hNot.2] at hSign
  cases hSign

/-- The order of a key. -/
theorem of_key [LinearOrder β] (key : α → β)
    (hLess : ∀ a ∈ s, ∀ b ∈ s, cmp a b < 0 ↔ key a < key b) (hMore : ∀ a ∈ s, ∀ b ∈ s, 0 < cmp a b ↔ key b < key a) :
    Orders cmp s := by
  have hLe : ∀ a ∈ s, ∀ b ∈ s, cmp a b ≤ 0 ↔ key a ≤ key b := fun a ha b hb => by
    rw [← Int.not_lt, hMore a ha b hb, not_lt]
  refine ⟨fun a ha b hb => ?_, fun a ha b hb c hc hab hbc => ?_⟩
  · rcases lt_trichotomy (key a) (key b) with hKey | hKey | hKey
    · rw [Int.sign_eq_neg_one_of_neg ((hLess a ha b hb).mpr hKey), Int.sign_eq_one_of_pos ((hMore b hb a ha).mpr hKey)]
    · have hab := (hLe a ha b hb).mpr hKey.le
      have hba := (hLe b hb a ha).mpr hKey.ge
      have hNotLess := mt (hLess a ha b hb).mp hKey.not_lt
      have hNotMore := mt (hLess b hb a ha).mp hKey.symm.not_lt
      rw [show cmp a b = 0 by omega, show cmp b a = 0 by omega]
      rfl
    · rw [Int.sign_eq_one_of_pos ((hMore a ha b hb).mpr hKey), Int.sign_eq_neg_one_of_neg ((hLess b hb a ha).mpr hKey)]
      rfl
  · exact (hLe a ha c hc).mpr (((hLe a ha b hb).mp hab).trans ((hLe b hb c hc).mp hbc))

/-- In a list there is an element that no other is before. -/
theorem exists_least {l : List α} (h : Orders cmp {a | a ∈ l}) (hSome : l ≠ []) : ∃ m ∈ l, ∀ a ∈ l, cmp m a ≤ 0 := by
  induction l with
  | nil => exact absurd rfl hSome
  | cons x l ih =>
    have hx : x ∈ x :: l := List.mem_cons_self ..
    have hSelf : cmp x x ≤ 0 := (h.total hx hx).elim id id
    by_cases hl : l = []
    · exact ⟨x, hx, fun a ha => by rw [hl, List.mem_singleton] at ha; rwa [ha]⟩
    · obtain ⟨m, hm, hLeast⟩ := ih (h.mono fun a ha => List.mem_cons_of_mem _ ha) hl
      have hm' : m ∈ x :: l := List.mem_cons_of_mem _ hm
      rcases h.total hx hm' with hxm | hmx
      · refine ⟨x, hx, List.forall_mem_cons.mpr ⟨hSelf, fun a ha => ?_⟩⟩
        exact h.trans x hx m hm' a (List.mem_cons_of_mem _ ha) hxm (hLeast a ha)
      · exact ⟨m, hm', List.forall_mem_cons.mpr ⟨hmx, hLeast⟩⟩

end Orders

/-- The comparison looks at `f` only. -/
theorem orders_image {f : α → β} {c : β → β → Int} : Orders (fun a b => c (f a) (f b)) s ↔ Orders c (f '' s) := by
  constructor
  · intro h
    refine ⟨?_, ?_⟩
    · rintro _ ⟨a, ha, rfl⟩ _ ⟨b, hb, rfl⟩
      exact h.antisymm a ha b hb
    · rintro _ ⟨a, ha, rfl⟩ _ ⟨b, hb, rfl⟩ _ ⟨c, hc, rfl⟩
      exact h.trans a ha b hb c hc
  · exact fun h => ⟨fun a ha b hb => h.antisymm _ ⟨a, ha, rfl⟩ _ ⟨b, hb, rfl⟩,
      fun a ha b hb c hc => h.trans _ ⟨a, ha, rfl⟩ _ ⟨b, hb, rfl⟩ _ ⟨c, hc, rfl⟩⟩

/-- The elements that miss what is compared come last. -/
def lastMissing (c : β → β → Int) : Option β → Option β → Int
  | some x, some y => c x y
  | some _, none => -1
  | none, some _ => 1
  | none, none => 0

theorem orders_lastMissing {c : β → β → Int} {s : Set (Option β)} :
    Orders (lastMissing c) s ↔ Orders c {x | some x ∈ s} := by
  constructor
  · exact fun h => ⟨fun x hx y hy => h.antisymm (some x) hx (some y) hy,
      fun x hx y hy z hz => h.trans (some x) hx (some y) hy (some z) hz⟩
  · intro h
    refine ⟨fun a ha b hb => ?_, fun a ha b hb z hz hab hbz => ?_⟩
    · cases a with
      | none => cases b <;> rfl
      | some x =>
        cases b with
        | none => rfl
        | some y => exact h.antisymm x ha y hb
    · cases a with
      | none =>
        cases b with
        | none => exact hbz
        | some y => exact absurd hab (Int.not_le.mpr Int.one_pos)
      | some x =>
        cases z with
        | none => exact (by decide : (-1 : Int) ≤ 0)
        | some z =>
          cases b with
          | none => exact absurd hbz (Int.not_le.mpr Int.one_pos)
          | some y => exact h.trans x ha y hb z hz hab hbz

/-- Elements of two kinds are each before the other. -/
def unlessKinds {κ : Type} [DecidableEq κ] (kind : α → κ) (c : α → α → Int) (a b : α) : Int :=
  if kind a = kind b then c a b else -1

theorem orders_unlessKinds {κ : Type} [DecidableEq κ] {kind : α → κ} {c : α → α → Int} :
    Orders (unlessKinds kind c) s ↔ (∀ a ∈ s, ∀ b ∈ s, kind a = kind b) ∧ Orders c s := by
  constructor
  · intro h
    have hKind : ∀ a ∈ s, ∀ b ∈ s, kind a = kind b := by
      intro a ha b hb
      by_contra hNot
      have hSign := h.antisymm a ha b hb
      rw [unlessKinds, unlessKinds, if_neg hNot, if_neg (Ne.symm hNot)] at hSign
      cases hSign
    exact ⟨hKind, h.congr fun a ha b hb => (if_pos (hKind a ha b hb)).symm⟩
  · rintro ⟨hKind, h⟩
    exact h.congr fun a ha b hb => if_pos (hKind a ha b hb)

/-- What cannot be read is equal to all. -/
def elseEqual (c : β → β → Int) : Option β → Option β → Int
  | some x, some y => c x y
  | _, _ => 0

theorem orders_elseEqual {c : β → β → Int} {s : Set (Option β)} :
    Orders (elseEqual c) s ↔
      Orders c {x | some x ∈ s} ∧ (none ∈ s → ∀ x y, some x ∈ s → some y ∈ s → c x y = 0) := by
  constructor
  · intro h
    have hSome : Orders c {x | some x ∈ s} := ⟨fun x hx y hy => h.antisymm (some x) hx (some y) hy,
      fun x hx y hy z hz => h.trans (some x) hx (some y) hy (some z) hz⟩
    refine ⟨hSome, fun hNone x y hx hy => hSome.eq_zero hx hy ?_ ?_⟩
    · exact h.trans (some x) hx none hNone (some y) hy (Int.le_refl 0) (Int.le_refl 0)
    · exact h.trans (some y) hy none hNone (some x) hx (Int.le_refl 0) (Int.le_refl 0)
  · rintro ⟨h, hEqual⟩
    refine ⟨fun a ha b hb => ?_, fun a ha b hb z hz hab hbz => ?_⟩
    · cases a with
      | none => cases b <;> rfl
      | some x =>
        cases b with
        | none => rfl
        | some y => exact h.antisymm x ha y hb
    · cases a with
      | none => exact Int.le_refl 0
      | some x =>
        cases z with
        | none => exact Int.le_refl 0
        | some z =>
          cases b with
          | none => exact (hEqual hb x z ha hz).le
          | some y => exact h.trans x ha y hb z hz hab hbz

/-- Differences that may run over. Numbers are in order if half of all numbers of 32 bits, counted in a circle from
some number on, holds them all. -/
theorem orders_difference {l : List Int} : Orders (fun a b => toInt32 (a - b)) {a | a ∈ l} ↔
    ∃ first : Int, ∀ a ∈ l, (a - first) % 4294967296 < 2147483648 := by
  constructor
  · intro h
    by_cases hl : l = []
    · exact ⟨0, fun a ha => absurd (hl ▸ ha) List.not_mem_nil⟩
    obtain ⟨m, hm, hLeast⟩ := h.exists_least hl
    refine ⟨m, fun a ha => ?_⟩
    by_contra hFar
    -- the two are opposite to each other
    have hNear := hLeast a ha
    have hSign := h.antisymm m hm a ha
    rw [toInt32] at hNear
    have hBoth : toInt32 (m - a) = -2147483648 ∧ toInt32 (a - m) = -2147483648 := by
      rw [toInt32, toInt32]
      omega
    rw [hBoth.1, hBoth.2] at hSign
    exact absurd hSign (by decide)
  · rintro ⟨first, hHalf⟩
    refine Orders.of_key (fun a => (a - first) % 4294967296) (fun a ha b hb => ?_) fun a ha b hb => ?_
    · have hA := hHalf a ha
      have hB := hHalf b hb
      rw [toInt32]
      omega
    · have hA := hHalf a ha
      have hB := hHalf b hb
      rw [toInt32]
      omega

end BeShare.Lib
