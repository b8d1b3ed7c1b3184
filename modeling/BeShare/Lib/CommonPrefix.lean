import Mathlib.Data.List.Infix

/-! The longest common prefix of some lists, which does not depend on their order. -/

namespace BeShare.Lib

variable {α : Type}

/-- A common prefix that all others are prefixes of. -/
structure IsLongestCommonPrefix (p : List α) (l : List (List α)) : Prop where
  common : ∀ s ∈ l, p <+: s
  longest : ∀ q, (∀ s ∈ l, q <+: s) → q <+: p

variable {p q s : List α} {l l' : List (List α)}

theorem IsLongestCommonPrefix.unique (hp : IsLongestCommonPrefix p l) (hq : IsLongestCommonPrefix q l) : p = q :=
  (hq.longest p hp.common).eq_of_length_le (hp.longest q hq.common).length_le

theorem IsLongestCommonPrefix.congr (hp : IsLongestCommonPrefix p l) (h : ∀ s, s ∈ l ↔ s ∈ l') :
    IsLongestCommonPrefix p l' :=
  ⟨fun s hs => hp.common s ((h s).mpr hs), fun q hq => hp.longest q fun s hs => hq s ((h s).mp hs)⟩

theorem isLongestCommonPrefix_singleton (s : List α) : IsLongestCommonPrefix s [s] :=
  ⟨fun t ht => by rw [List.mem_singleton.mp ht], fun _ hq => hq s List.mem_cons_self⟩

/-- `s` up to the given place. -/
def cut (s : List α) : Option Nat → List α
  | some i => s.take i
  | none => s

theorem cut_prefix (s : List α) (i : Option Nat) : cut s i <+: s := by
  cases i with
  | some i => exact List.take_prefix i s
  | none => exact List.prefix_rfl

theorem map_cut {β : Type} (f : α → β) (s : List α) (i : Option Nat) : (cut s i).map f = cut (s.map f) i := by
  cases i with
  | some i => exact List.map_take
  | none => rfl

variable [DecidableEq α]

/-- The place of the first element of `s` that the other list does not have there. -/
def firstDifference : List α → List α → Option Nat
  | [], _ => none
  | _ :: _, [] => some 0
  | c :: s, d :: t => if c = d then (firstDifference s t).map (· + 1) else some 0

/-- Cut off where the lists differ, `s` is their longest common prefix. -/
theorem prefix_cut_iff (s t : List α) : q <+: cut s (firstDifference s t) ↔ q <+: s ∧ q <+: t := by
  induction s generalizing t q with
  | nil =>
    rw [firstDifference]
    exact ⟨fun h => ⟨h, h.trans List.nil_prefix⟩, And.left⟩
  | cons c s ih =>
    cases t with
    | nil =>
      rw [firstDifference]
      exact ⟨fun h => ⟨h.trans (List.take_prefix _ _), h⟩, And.right⟩
    | cons d t =>
      rw [firstDifference]
      by_cases hcd : c = d
      · subst hcd
        rw [if_pos rfl]
        cases q with
        | nil => exact ⟨fun _ => ⟨List.nil_prefix, List.nil_prefix⟩, fun _ => List.nil_prefix⟩
        | cons x q =>
          have hRest := ih (q := q) t
          cases hDifference : firstDifference s t with
          | none =>
            rw [hDifference] at hRest
            simp only [cut, Option.map_none, List.cons_prefix_cons] at hRest ⊢
            tauto
          | some i =>
            rw [hDifference] at hRest
            simp only [cut, Option.map_some, List.take_succ_cons, List.cons_prefix_cons] at hRest ⊢
            tauto
      · rw [if_neg hcd]
        cases q with
        | nil => exact ⟨fun _ => ⟨List.nil_prefix, List.nil_prefix⟩, fun _ => List.nil_prefix⟩
        | cons x q =>
          simp only [cut, List.take_zero, List.cons_prefix_cons]
          refine ⟨fun h => absurd h (by simp), fun ⟨⟨hc, _⟩, hd, _⟩ => absurd (hc.symm.trans hd) hcd⟩

/-- One list more. -/
theorem IsLongestCommonPrefix.snoc (hp : IsLongestCommonPrefix p l) (s : List α) :
    IsLongestCommonPrefix (cut p (firstDifference p s)) (l ++ [s]) := by
  obtain ⟨hLeft, hRight⟩ := (prefix_cut_iff p s).mp List.prefix_rfl
  refine ⟨fun t ht => ?_, fun q hq => ?_⟩
  · rcases List.mem_append.mp ht with ht | ht
    · exact hLeft.trans (hp.common t ht)
    · rw [List.mem_singleton.mp ht]
      exact hRight
  · exact (prefix_cut_iff p s).mpr ⟨hp.longest q fun t ht => hq t (List.mem_append_left _ ht),
      hq s (List.mem_append_right _ List.mem_cons_self)⟩

end BeShare.Lib
