import BeShare.Lib.Ere
import Mathlib.Data.List.Forall2

/-!
Expressions up to variants of characters, such as the two cases of a letter: where the sets of an expression take in the
characters that have a member among their variants, it matches the strings that have a variant which it matched.
-/

namespace BeShare.Lib.Ere

/-! ### Parsing with other sets -/

section

variable (f : (Char → Bool) → Char → Bool)

/-- The expression with other sets. -/
def map : Ere → Ere
  | empty => empty
  | one p => one (f p)
  | start => start
  | finish => finish
  | seq r s => seq r.map s.map
  | alt r s => alt r.map s.map
  | rep r min max => rep r.map min max

def Token.map : Token → Token
  | .one p => .one (f p)
  | t => t

def Pending.map (e : Pending) : Pending :=
  ⟨e.earlier.map (Ere.map f), e.pieces.map (Ere.map f), e.repeatable⟩

theorem branches_map (e : Pending) : (e.map f).branches = e.branches.map (Ere.map f) := by
  obtain ⟨earlier, pieces, repeatable⟩ := e
  have hFold : ∀ (pieces : List Ere) (r : Ere), (pieces.map (Ere.map f)).foldl (fun r piece => .seq piece r) (r.map f) =
      (pieces.foldl (fun r piece => .seq piece r) r).map f := by
    intro pieces
    induction pieces with
    | nil => exact fun _ => rfl
    | cons piece pieces ih => exact fun r => ih (.seq piece r)
  cases pieces with
  | nil => rfl
  | cons piece pieces =>
    have hBranch := hFold (piece :: pieces) .empty
    cases earlier with
    | none => exact congrArg some hBranch
    | some r => exact congrArg (fun branch => some (Ere.alt (r.map f) branch)) hBranch

theorem group_map (e : Pending) : (e.map f).group = e.group.map (Ere.map f) := by
  have hEmpty : (e.map f).earlier.isNone = e.earlier.isNone ∧ (e.map f).pieces.isEmpty = e.pieces.isEmpty :=
    ⟨Option.isNone_map, List.isEmpty_map⟩
  rw [Pending.group, Pending.group, hEmpty.1, hEmpty.2, branches_map]
  split <;> rfl

/-- The sets are not looked at. -/
theorem step_map (e : Pending) (outer : List Pending) (t : Token) :
    step (e.map f, outer.map (Pending.map f)) (t.map f) =
      (step (e, outer) t).map fun state => (state.1.map f, state.2.map (Pending.map f)) := by
  cases t with
  | one p => rfl
  | start => rfl
  | finish => rfl
  | opening => rfl
  | rep min max =>
    obtain ⟨earlier, pieces, repeatable⟩ := e
    cases pieces with
    | nil => rfl
    | cons r pieces => cases repeatable <;> rfl
  | bar =>
    change (e.map f).branches.map _ = (e.branches.map _).map _
    rw [branches_map, Option.map_map, Option.map_map]
    rfl
  | closing =>
    cases outer with
    | nil => rfl
    | cons e' outer =>
      change (e.map f).group.map _ = (e.group.map _).map _
      rw [group_map, Option.map_map, Option.map_map]
      rfl

theorem foldlM_step_map (tokens : List Token) (e : Pending) (outer : List Pending) :
    (tokens.map (Token.map f)).foldlM step (e.map f, outer.map (Pending.map f)) =
      (tokens.foldlM step (e, outer)).map fun state => (state.1.map f, state.2.map (Pending.map f)) := by
  induction tokens generalizing e outer with
  | nil => rfl
  | cons t tokens ih =>
    rw [List.map_cons, List.foldlM_cons, List.foldlM_cons, step_map]
    cases step (e, outer) t with
    | none => rfl
    | some state => exact ih state.1 state.2

theorem parseTokens_map (tokens : List Token) :
    parseTokens (tokens.map (Token.map f)) = (parseTokens tokens).map (Ere.map f) := by
  have hFold : (tokens.map (Token.map f)).foldlM step (.new, []) =
      (tokens.foldlM step (.new, [])).map fun state => (state.1.map f, state.2.map (Pending.map f)) :=
    foldlM_step_map f tokens .new []
  rw [parseTokens, parseTokens, hFold]
  cases tokens.foldlM step (Pending.new, []) with
  | none => rfl
  | some state =>
    obtain ⟨e, outer⟩ := state
    cases outer with
    | nil => exact branches_map f e
    | cons _ _ => rfl

end

/-! ### Matching up to variants -/

section

variable {variants : Char → List Char} {p p' q q' : Matcher} {s t x y : List Char}

/-- The characters with a variant in the set. -/
def closure (variants : Char → List Char) (p : Char → Bool) : Char → Bool :=
  fun c => (variants c).any p

/-- Character by character, the first string has a variant of what the second has. -/
abbrev Variant (variants : Char → List Char) : List Char → List Char → Prop :=
  List.Forall₂ fun d c => d ∈ variants c

theorem Variant.isEmpty_eq (h : Variant variants s t) : s.isEmpty = t.isEmpty := by
  cases h <;> rfl

theorem variant_of_append (h : Variant variants (x ++ y) s) :
    ∃ x' y', x' ++ y' = s ∧ Variant variants x x' ∧ Variant variants y y' := by
  induction x generalizing s with
  | nil => exact ⟨[], s, rfl, .nil, h⟩
  | cons c x ih =>
    cases h with
    | cons hc hRest =>
      obtain ⟨x', y', rfl, hx, hy⟩ := ih hRest
      exact ⟨_ :: x', y', rfl, .cons hc hx, hy⟩

/-- The first matcher takes the strings with a variant that the second takes. -/
def MatchesVariants (variants : Char → List Char) (p' p : Matcher) : Prop :=
  ∀ first last t, p' first last t = true ↔ ∃ s, Variant variants s t ∧ p first last s = true

theorem MatchesVariants.chain (hp : MatchesVariants variants p' p) (hq : MatchesVariants variants q' q) :
    MatchesVariants variants (chain p' q') (chain p q) := by
  intro first last t
  rw [chain_iff]
  constructor
  · rintro ⟨x, y, rfl, hx, hy⟩
    obtain ⟨x', hVariantX, hx'⟩ := (hp _ _ x).mp hx
    obtain ⟨y', hVariantY, hy'⟩ := (hq _ _ y).mp hy
    rw [← hVariantY.isEmpty_eq] at hx'
    rw [← hVariantX.isEmpty_eq] at hy'
    exact ⟨x' ++ y', List.rel_append hVariantX hVariantY, chain_iff.mpr ⟨x', y', rfl, hx', hy'⟩⟩
  · rintro ⟨s, hVariant, hs⟩
    obtain ⟨x', y', rfl, hx', hy'⟩ := chain_iff.mp hs
    obtain ⟨x, y, rfl, hVariantX, hVariantY⟩ := variant_of_append hVariant
    rw [hVariantY.isEmpty_eq] at hx'
    rw [hVariantX.isEmpty_eq] at hy'
    exact ⟨x, y, rfl, (hp _ _ x).mpr ⟨x', hVariantX, hx'⟩, (hq _ _ y).mpr ⟨y', hVariantY, hy'⟩⟩

/-- A matcher of the empty string alone, at some places. -/
theorem matchesVariants_of_empty (h : ∀ first last s, p first last s = true → s = []) :
    MatchesVariants variants p p := by
  intro first last t
  constructor
  · intro ht
    obtain rfl := h first last t ht
    exact ⟨[], .nil, ht⟩
  · rintro ⟨s, hVariant, hs⟩
    obtain rfl := h first last s hs
    cases hVariant
    exact hs

theorem MatchesVariants.times (hp : MatchesVariants variants p' p) (k : Nat) :
    MatchesVariants variants (times p' k) (times p k) := by
  induction k with
  | zero => exact matchesVariants_of_empty fun _ _ _ h => List.isEmpty_iff.mp h
  | succ k ih => exact hp.chain ih

theorem accepts_closure (r : Ere) : MatchesVariants variants (r.map (closure variants)).accepts r.accepts := by
  induction r with
  | empty => exact matchesVariants_of_empty fun _ _ _ h => List.isEmpty_iff.mp h
  | one p =>
    intro first last t
    rw [map, accepts_one]
    constructor
    · rintro ⟨c, rfl, hc⟩
      obtain ⟨d, hVariant, hd⟩ := List.any_eq_true.mp hc
      exact ⟨[d], .cons hVariant .nil, accepts_one.mpr ⟨d, rfl, hd⟩⟩
    · rintro ⟨s, hVariant, hs⟩
      obtain ⟨d, rfl, hd⟩ := accepts_one.mp hs
      cases hVariant with
      | cons hc hNil =>
        cases hNil
        exact ⟨_, rfl, List.any_eq_true.mpr ⟨d, hc, hd⟩⟩
  | start => exact matchesVariants_of_empty fun _ _ _ h => (accepts_start.mp h).2
  | finish => exact matchesVariants_of_empty fun _ _ _ h => (accepts_finish.mp h).2
  | seq r s ihr ihs => exact ihr.chain ihs
  | alt r s ihr ihs =>
    intro first last t
    simp only [map, accepts, Bool.or_eq_true, ihr first last t, ihs first last t, and_or_left, exists_or]
  | rep r min max ih =>
    intro first last t
    simp only [map, accepts, List.any_eq_true, List.mem_range, Bool.and_eq_true, ih.times _ first last t]
    constructor
    · rintro ⟨k, hMax, hMin, s, hVariant, hs⟩
      exact ⟨s, hVariant, k, hVariant.length_eq ▸ hMax, hMin, hs⟩
    · rintro ⟨s, hVariant, k, hMax, hMin, hs⟩
      exact ⟨k, hVariant.length_eq ▸ hMax, hMin, s, hVariant, hs⟩

theorem search_closure (hSelf : ∀ c, c ∈ variants c) (r : Ere) :
    (r.map (closure variants)).search t = true ↔ ∃ s, Variant variants s t ∧ r.search s = true := by
  simp only [search_iff]
  constructor
  · rintro ⟨before, x, after, rfl, hx⟩
    obtain ⟨x', hVariant, hx'⟩ := (accepts_closure r _ _ x).mp hx
    have hSame : ∀ s, Variant variants s s := fun s => List.forall₂_same.mpr fun c _ => hSelf c
    exact ⟨before ++ (x' ++ after), List.rel_append (hSame before) (List.rel_append hVariant (hSame after)), before, x',
      after, rfl, hx'⟩
  · rintro ⟨s, hVariant, before, x, after, rfl, hx⟩
    obtain ⟨before', _, rfl, hBefore, hRest⟩ := variant_of_append hVariant
    obtain ⟨x', after', rfl, hx', hAfter⟩ := variant_of_append hRest
    rw [hBefore.isEmpty_eq, hAfter.isEmpty_eq] at hx
    exact ⟨before', x', after', rfl, (accepts_closure r _ _ x').mpr ⟨x, hx', hx⟩⟩

end

end BeShare.Lib.Ere
