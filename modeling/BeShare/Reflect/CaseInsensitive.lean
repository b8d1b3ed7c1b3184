import BeShare.Lib.EreBrackets
import BeShare.Lib.EreVariants
import BeShare.Reflect.Escaping
import Mathlib

/-!
`MakeRegexCaseInsensitive`: each letter of a pattern becomes a bracket expression of its two cases, whatever it stands
for there.
-/

namespace BeShare.Muscle.Reflect

open Lib (Ere)

/-- The loop of `MakeRegexCaseInsensitive`: what it writes, and whether there is a letter. -/
def caseInsensitive : Str → Str × Bool
  | [] => ([], false)
  | next :: str =>
    let (ret, changed) := caseInsensitive str
    if next.isUpper then ('[' :: next :: Char.ofNat (next.toNat + 32) :: ']' :: ret, true)
    else if next.isLower then ('[' :: next :: Char.ofNat (next.toNat - 32) :: ']' :: ret, true)
    else (next :: ret, changed)

def makeRegexCaseInsensitive (str : Str) : Str × Bool :=
  let (ret, changed) := caseInsensitive str
  (if changed then ret else str, changed)

/-! ### Letters -/

def swapCase (c : Char) : Char :=
  if c.isUpper then Char.ofNat (c.toNat + 32) else if c.isLower then Char.ofNat (c.toNat - 32) else c

/-- A letter has its other case for a variant. -/
def bothCases (c : Char) : List Char :=
  [c, swapCase c]

variable {c d : Char} {s str rest : Str} {p : Char → Bool} {k skip : Nat}

theorem swapCase_of_isUpper (h : c.isUpper = true) : swapCase c = c.toLower := by
  rw [swapCase, if_pos h, Char.toLower_eq_of_isUpper h]

theorem swapCase_of_isLower (h : c.isLower = true) : swapCase c = c.toUpper := by
  rw [swapCase, if_neg (Char.not_isUpper_of_isLower h), if_pos h, Char.toUpper_eq_of_isLower h]

theorem swapCase_of_not_isAlpha (h : c.isAlpha = false) : swapCase c = c := by
  obtain ⟨hUpper, hLower⟩ := Bool.or_eq_false_iff.mp h
  rw [swapCase, if_neg (by rw [hUpper]; exact Bool.false_ne_true), if_neg (by rw [hLower]; exact Bool.false_ne_true)]

theorem caseInsensitive_cons : (caseInsensitive (c :: str)).1 =
    if c.isAlpha then '[' :: c :: swapCase c :: ']' :: (caseInsensitive str).1 else c :: (caseInsensitive str).1 := by
  rw [caseInsensitive, swapCase, Char.isAlpha]
  by_cases hUpper : c.isUpper = true
  · simp only [hUpper, if_true, Bool.true_or]
  · by_cases hLower : c.isLower = true
    · simp only [hUpper, hLower, if_true, Bool.or_true, Bool.false_eq_true, if_false]
    · simp only [hUpper, hLower, Bool.or_self, Bool.false_eq_true, if_false]

/-- Without a letter nothing is written anew. -/
theorem caseInsensitive_unchanged (h : (caseInsensitive str).2 = false) :
    str.all (fun c => !c.isAlpha) = true ∧ (caseInsensitive str).1 = str := by
  induction str with
  | nil => exact ⟨rfl, rfl⟩
  | cons c str ih =>
    rw [caseInsensitive] at h
    by_cases hUpper : c.isUpper = true
    · simp only [hUpper, if_true] at h
      cases h
    · by_cases hLower : c.isLower = true
      · simp only [hUpper, hLower, if_true, Bool.false_eq_true, if_false] at h
        cases h
      · have hAlpha : c.isAlpha = false := by simp [Char.isAlpha, hUpper, hLower]
        simp only [hUpper, hLower, Bool.false_eq_true, if_false] at h
        obtain ⟨hRest, hSame⟩ := ih h
        rw [List.all_cons, hRest, hAlpha, caseInsensitive_cons, hAlpha, hSame]
        exact ⟨rfl, rfl⟩

theorem makeRegexCaseInsensitive_eq (str : Str) : (makeRegexCaseInsensitive str).1 = (caseInsensitive str).1 := by
  rw [makeRegexCaseInsensitive]
  dsimp only
  split
  · rfl
  · rename_i h
    exact (caseInsensitive_unchanged (Bool.not_eq_true _ ▸ h)).2.symm

theorem mem_bothCases_iff : d ∈ bothCases c ↔ d.toLower = c.toLower := by
  rw [bothCases, List.mem_cons, List.mem_singleton]
  have hUpper : ∀ {c : Char}, c.isUpper = true → c.toUpper = c := fun h =>
    Char.toUpper_eq_of_not_isLower fun hLower => Char.not_isUpper_of_isLower hLower h
  constructor
  · rintro (rfl | rfl)
    · rfl
    · by_cases hc : c.isUpper = true
      · rw [swapCase_of_isUpper hc, Char.toLower_toLower_eq_toLower]
      · by_cases hLower : c.isLower = true
        · rw [swapCase_of_isLower hLower, Char.toLower_toUpper_eq_toLower]
        · rw [swapCase_of_not_isAlpha (by simp [Char.isAlpha, hc, hLower])]
  · intro h
    by_cases hc : c.isUpper = true
    · by_cases hd : d.isUpper = true
      · left
        rw [← hUpper hd, ← Char.toUpper_toLower_eq_toUpper, h, Char.toUpper_toLower_eq_toUpper, hUpper hc]
      · rw [Char.toLower_eq_of_not_isUpper hd] at h
        exact .inr (h.trans (swapCase_of_isUpper hc).symm)
    · rw [Char.toLower_eq_of_not_isUpper hc] at h
      by_cases hd : d.isUpper = true
      · right
        have hLower : c.isLower = true := by
          rw [← h, Char.isLower_toLower_eq_isAlpha, Char.isAlpha, hd]
          rfl
        rw [swapCase_of_isLower hLower, ← h, Char.toUpper_toLower_eq_toUpper, hUpper hd]
      · rw [Char.toLower_eq_of_not_isUpper hd] at h
        exact .inl h

/-! ### The expression of the pattern that is written -/

/-- Has the set both cases of every letter that it has? -/
def isCaseless (p : Char → Bool) : Bool :=
  (List.range 26).all fun i => p (Char.ofNat (65 + i)) == p (Char.ofNat (97 + i))

/-- In an expression, no letter is behind a backslash or in a bracket expression, and every bracket expression has both
cases of each letter. The first `skip` characters belong to the token before. -/
def caseFree : Nat → Str → Bool
  | _, [] => true
  | skip + 1, _ :: str => caseFree skip str
  | 0, c :: str =>
    if c = '\\' then str.head?.all (fun c => !c.isAlpha) && caseFree 1 str
    else if c = '[' then
      match Ere.bracket str with
      | none => true
      | some (p, k) => (str.take k).all (fun c => !c.isAlpha) && isCaseless p && caseFree k str
    else caseFree 0 str

theorem isCaseless_swapCase (h : isCaseless p = true) (c : Char) : p (swapCase c) = p c := by
  rw [isCaseless, List.all_eq_true] at h
  by_cases hUpper : c.isUpper = true
  · have hBounds : 65 ≤ c.toNat ∧ c.toNat ≤ 90 := by
      simpa [Char.isUpper, UInt32.le_iff_toNat_le] using hUpper
    have hc := h (c.toNat - 65) (List.mem_range.mpr (by omega))
    rw [show 65 + (c.toNat - 65) = c.toNat by omega, show 97 + (c.toNat - 65) = c.toNat + 32 by omega,
      Char.ofNat_toNat, beq_iff_eq] at hc
    rw [swapCase, if_pos hUpper, hc]
  · by_cases hLower : c.isLower = true
    · have hBounds : 97 ≤ c.toNat ∧ c.toNat ≤ 122 := by
        simpa [Char.isLower, UInt32.le_iff_toNat_le] using hLower
      have hc := h (c.toNat - 97) (List.mem_range.mpr (by omega))
      rw [show 65 + (c.toNat - 97) = c.toNat - 32 by omega, show 97 + (c.toNat - 97) = c.toNat by omega,
        Char.ofNat_toNat, beq_iff_eq] at hc
      rw [swapCase, if_neg hUpper, if_pos hLower, hc]
    · rw [swapCase, if_neg hUpper, if_neg hLower]

theorem closure_of_isCaseless (h : isCaseless p = true) : Ere.closure bothCases p = p := by
  funext c
  rw [Ere.closure, bothCases, List.any_cons, List.any_cons, List.any_nil, isCaseless_swapCase h, Bool.or_false,
    Bool.or_self]

theorem closure_exactly_iff : Ere.closure bothCases (Ere.exactly c) d = true ↔ d ∈ bothCases c := by
  rw [Ere.closure, List.any_eq_true, mem_bothCases_iff]
  constructor
  · rintro ⟨e, he, hSame⟩
    obtain rfl := beq_iff_eq.mp hSame
    exact (mem_bothCases_iff.mp he).symm
  · exact fun h => ⟨c, mem_bothCases_iff.mpr h.symm, beq_self_eq_true c⟩

theorem closure_exactly (h : c.isAlpha = false) : Ere.closure bothCases (Ere.exactly c) = Ere.exactly c := by
  funext d
  rw [Bool.eq_iff_iff, closure_exactly_iff, bothCases, swapCase_of_not_isAlpha h]
  simp [Ere.exactly]

theorem isAlpha_swapCase (h : c.isAlpha = true) : (swapCase c).isAlpha = true := by
  by_cases hUpper : c.isUpper = true
  · rw [swapCase_of_isUpper hUpper, Char.isAlpha_toLower_eq_isAlpha, h]
  · have hLower : c.isLower = true := by simpa [Char.isAlpha, hUpper] using h
    rw [swapCase_of_isLower hLower, Char.isAlpha_toUpper_eq_isAlpha, h]

theorem ne_of_isAlpha (h : c.isAlpha = true) (hd : d.isAlpha = false) : c ≠ d := by
  rintro rfl
  rw [h] at hd
  cases hd

theorem term_letter (h : c.isAlpha = true) (hd : d ≠ '-') (rest : Str) :
    Ere.term (c :: d :: rest) = some (Ere.exactly c, 1) := by
  have hBracket : c ≠ '[' := ne_of_isAlpha h (by decide)
  rw [Ere.term_eq_rangeTerm fun hc => hBracket hc.1, Ere.rangeTerm, Ere.symbol_cons fun hc => hBracket hc.1]
  exact Ere.rangeEnd_of_ne hd

/-- The bracket expression that is written for a letter. -/
theorem bracket_letter (h : c.isAlpha = true) (rest : Str) :
    Ere.bracket (c :: swapCase c :: ']' :: rest) = some (Ere.closure bothCases (Ere.exactly c), 3) := by
  have hPlain : ∀ {c : Char}, c.isAlpha = true → c ≠ ']' ∧ c ≠ '-' ∧ c ≠ '^' := fun h =>
    ⟨ne_of_isAlpha h (by decide), ne_of_isAlpha h (by decide), ne_of_isAlpha h (by decide)⟩
  have hSwap := isAlpha_swapCase h
  have hSecond : Ere.members 0 (swapCase c :: ']' :: rest) =
      some (fun d => Ere.exactly (swapCase c) d || false, 2) := by
    rw [Ere.members, if_neg (hPlain hSwap).1, if_neg (hPlain hSwap).2.1, term_letter hSwap (by decide)]
    rfl
  have hFirst : Ere.members 0 (c :: swapCase c :: ']' :: rest) =
      some (fun d => Ere.exactly c d || (Ere.exactly (swapCase c) d || false), 3) := by
    rw [Ere.members, if_neg (hPlain h).1, if_neg (hPlain h).2.1, term_letter h (hPlain hSwap).2.1]
    dsimp only
    rw [hSecond]
    rfl
  have hSet : (fun d => Ere.exactly c d || (Ere.exactly (swapCase c) d || false)) =
      Ere.closure bothCases (Ere.exactly c) := by
    funext d
    rw [Bool.eq_iff_iff, closure_exactly_iff, bothCases]
    simp [Ere.exactly]
  rw [← hSet, ← hFirst]
  unfold Ere.bracket
  split
  · exact absurd (List.cons.inj ‹_›).1 (hPlain h).2.2
  · rw [Ere.bracketList, if_neg]
    exact not_or.mpr ⟨(hPlain h).1, (hPlain h).2.1⟩

theorem caseInsensitive_of_not_isAlpha (h : c.isAlpha = false) :
    (caseInsensitive (c :: s)).1 = c :: (caseInsensitive s).1 := by
  rw [caseInsensitive_cons, h, if_neg Bool.false_ne_true]

theorem caseInsensitive_append (s rest : Str) :
    (caseInsensitive (s ++ rest)).1 = (caseInsensitive s).1 ++ (caseInsensitive rest).1 := by
  induction s with
  | nil => rfl
  | cons c s ih =>
    rw [List.cons_append, caseInsensitive_cons, caseInsensitive_cons, ih]
    split <;> rfl

theorem caseInsensitive_self (h : s.all (fun c => !c.isAlpha) = true) : (caseInsensitive s).1 = s := by
  induction s with
  | nil => rfl
  | cons c s ih =>
    obtain ⟨hc, hs⟩ := Bool.and_eq_true_iff.mp (List.all_cons ▸ h)
    rw [caseInsensitive_of_not_isAlpha (by simpa using hc), ih hs]

/-- A bracket expression without letters is not changed. -/
theorem bracket_caseInsensitive (h : Ere.bracket s = some (p, k))
    (hLetters : (s.take k).all (fun c => !c.isAlpha) = true) :
    Ere.bracket (caseInsensitive s).1 = some (p, k) := by
  rw [← List.take_append_drop k s] at h
  rw [← List.take_append_drop k s, caseInsensitive_append, caseInsensitive_self hLetters]
  refine Ere.bracket_append h ?_ _
  rw [List.length_take, Nat.le_min]
  exact ⟨Nat.le_refl _, List.take_append_drop k s ▸ Ere.bracket_le h⟩

theorem isAlpha_of_isDigit (h : c.isDigit = true) : c.isAlpha = false := by
  have hBounds : 48 ≤ c.toNat ∧ c.toNat ≤ 57 := by
    simpa [Char.isDigit, UInt32.le_iff_toNat_le] using h
  simp [Char.isAlpha, Char.isUpper, Char.isLower, UInt32.le_iff_toNat_le]
  omega

/-- A condition that is the same for letters and brackets. -/
theorem dropWhile_caseInsensitive {q : Char → Bool} (hLetter : ∀ c, c.isAlpha = true → q c = q '[')
    (hClosing : q ']' = q '[') (s : Str) : (caseInsensitive s).1.dropWhile q = (caseInsensitive (s.dropWhile q)).1 := by
  induction s with
  | nil => rfl
  | cons c s ih =>
    by_cases hc : c.isAlpha = true
    · rw [caseInsensitive_cons, if_pos hc]
      by_cases hq : q '[' = true
      · have hAll : q c = true ∧ q (swapCase c) = true ∧ q ']' = true := by
          rw [hLetter c hc, hLetter _ (isAlpha_swapCase hc), hClosing]
          exact ⟨hq, hq, hq⟩
        rw [List.dropWhile_cons_of_pos hq, List.dropWhile_cons_of_pos hAll.1, List.dropWhile_cons_of_pos hAll.2.1,
          List.dropWhile_cons_of_pos hAll.2.2, List.dropWhile_cons_of_pos hAll.1, ih]
      · rw [List.dropWhile_cons_of_neg hq, List.dropWhile_cons_of_neg (by rwa [hLetter c hc]), caseInsensitive_cons,
          if_pos hc]
    · rw [Bool.not_eq_true] at hc
      rw [caseInsensitive_of_not_isAlpha hc]
      by_cases hq : q c = true
      · rw [List.dropWhile_cons_of_pos hq, List.dropWhile_cons_of_pos hq, ih]
      · rw [List.dropWhile_cons_of_neg hq, List.dropWhile_cons_of_neg hq, caseInsensitive_of_not_isAlpha hc]

theorem isDigit_of_isAlpha (h : c.isAlpha = true) : c.isDigit = false := by
  by_contra hDigit
  rw [isAlpha_of_isDigit (Bool.not_eq_false _ ▸ hDigit)] at h
  cases h

/-- Digits are not changed, and behind them there is no new one. -/
theorem digits_caseInsensitive (s : Str) :
    (caseInsensitive s).1.takeWhile Char.isDigit = s.takeWhile Char.isDigit ∧
      (caseInsensitive s).1.dropWhile Char.isDigit = (caseInsensitive (s.dropWhile Char.isDigit)).1 := by
  refine ⟨?_, dropWhile_caseInsensitive (fun _ => isDigit_of_isAlpha) (by decide) s⟩
  induction s with
  | nil => rfl
  | cons c s ih =>
    by_cases hc : c.isAlpha = true
    · rw [caseInsensitive_cons, if_pos hc, List.takeWhile_cons_of_neg (by decide),
        List.takeWhile_cons_of_neg (by rw [isDigit_of_isAlpha hc]; exact Bool.false_ne_true)]
    · rw [caseInsensitive_of_not_isAlpha (Bool.not_eq_true _ ▸ hc), List.takeWhile_cons, List.takeWhile_cons, ih]

/-- The characters of a bound. -/
def isBound (c : Char) : Bool :=
  c.isDigit || c == ',' || c == '}'

theorem not_isAlpha_of_isBound (h : isBound c = true) : c.isAlpha = false ∧ c ≠ '\\' ∧ c ≠ '[' := by
  rcases Bool.or_eq_true_iff.mp h with hDigit | hBrace
  · rcases Bool.or_eq_true_iff.mp hDigit with hDigit | hComma
    · refine ⟨isAlpha_of_isDigit hDigit, ?_, ?_⟩ <;>
      · rintro rfl
        cases hDigit
    · obtain rfl := beq_iff_eq.mp hComma
      decide
  · obtain rfl := beq_iff_eq.mp hBrace
    decide

theorem takeWhile_isDigit_all (s : Str) : (s.takeWhile Char.isDigit).all isBound = true := by
  refine List.all_eq_true.mpr fun c hc => ?_
  rw [isBound, List.mem_takeWhile_imp hc]
  rfl

theorem take_takeWhile_isDigit (s : Str) (n : Nat) : s.take ((s.takeWhile Char.isDigit).length + n) =
    s.takeWhile Char.isDigit ++ (s.dropWhile Char.isDigit).take n := by
  calc s.take ((s.takeWhile Char.isDigit).length + n)
      = (s.takeWhile Char.isDigit ++ s.dropWhile Char.isDigit).take ((s.takeWhile Char.isDigit).length + n) := by
        rw [List.takeWhile_append_dropWhile]
    _ = s.takeWhile Char.isDigit ++ (s.dropWhile Char.isDigit).take n := List.take_length_add_append n

theorem head?_caseInsensitive (h : d.isAlpha = false) (hd : d ≠ '[') :
    (caseInsensitive s).1.head? = some d ↔ s.head? = some d := by
  cases s with
  | nil => rfl
  | cons c s =>
    by_cases hc : c.isAlpha = true
    · rw [caseInsensitive_cons, if_pos hc]
      simp only [List.head?_cons, Option.some.injEq]
      exact iff_of_false (Ne.symm hd) (ne_of_isAlpha hc h)
    · rw [caseInsensitive_of_not_isAlpha (Bool.not_eq_true _ ▸ hc)]
      rfl

theorem upperBound_caseInsensitive {min n : Nat} {t : Ere.Token} (h : Ere.upperBound min n s = some (t, k)) :
    Ere.upperBound min n (caseInsensitive s).1 = some (t, k) ∧ t.map (Ere.closure bothCases) = t ∧
      ∃ m, k = n + (m + 1) ∧ (s.take m).all isBound = true := by
  unfold Ere.upperBound at h ⊢
  rw [(digits_caseInsensitive s).1, (digits_caseInsensitive s).2]
  dsimp only at h ⊢
  rw [if_congr (head?_caseInsensitive (by decide) (by decide)) rfl rfl]
  split at h
  · rename_i hBrace
    rw [if_pos hBrace]
    refine ⟨h, ?_⟩
    cases h
    obtain ⟨rest, rfl⟩ := List.head?_eq_some_iff.mp hBrace
    exact ⟨rfl, 1, rfl, rfl⟩
  · rename_i hBrace
    rw [if_neg hBrace]
    split at h
    · cases h
    · rename_i hMax
      rw [if_neg hMax]
      split at h
      · rename_i rest hEnd
        rw [hEnd, caseInsensitive_of_not_isAlpha (by decide)]
        refine ⟨h, ?_⟩
        cases h
        refine ⟨rfl, _, rfl, ?_⟩
        rw [take_takeWhile_isDigit, hEnd, List.all_append, takeWhile_isDigit_all]
        rfl
      · cases h

theorem bound_caseInsensitive {t : Ere.Token} (h : Ere.bound s = some (t, k)) :
    Ere.bound (caseInsensitive s).1 = some (t, k) ∧ t.map (Ere.closure bothCases) = t ∧
      (s.take k).all isBound = true := by
  unfold Ere.bound at h ⊢
  rw [(digits_caseInsensitive s).1, (digits_caseInsensitive s).2]
  dsimp only at h ⊢
  split at h
  · cases h
  · rename_i hMin
    rw [if_neg hMin]
    split at h
    · rename_i rest hRest
      rw [hRest, caseInsensitive_of_not_isAlpha (by decide)]
      refine ⟨h, ?_⟩
      cases h
      refine ⟨rfl, ?_⟩
      rw [take_takeWhile_isDigit, hRest, List.all_append, takeWhile_isDigit_all]
      rfl
    · rename_i upper hRest
      rw [hRest, caseInsensitive_of_not_isAlpha (by decide)]
      obtain ⟨hUpper, hMap, m, rfl, hText⟩ := upperBound_caseInsensitive h
      refine ⟨hUpper, hMap, ?_⟩
      rw [take_takeWhile_isDigit, hRest, List.take_succ_cons, List.all_append, List.all_cons, takeWhile_isDigit_all,
        hText]
      rfl
    · cases h

theorem caseFree_of_isBound (h : caseFree 0 s = true) (hText : (s.take k).all isBound = true) :
    caseFree k s = true := by
  induction s generalizing k with
  | nil => cases k <;> rfl
  | cons c s ih =>
    cases k with
    | zero => exact h
    | succ k =>
      rw [List.take_succ_cons, List.all_cons, Bool.and_eq_true] at hText
      obtain ⟨-, hBackslash, hBracket⟩ := not_isAlpha_of_isBound hText.1
      rw [caseFree, if_neg hBackslash, if_neg hBracket] at h
      exact ih h hText.2

theorem ofChar_map (h : c.isAlpha = false) : (Ere.Token.ofChar c).map (Ere.closure bothCases) = Ere.Token.ofChar c := by
  unfold Ere.Token.ofChar
  split
  any_goals rfl
  exact congrArg Ere.Token.one (closure_exactly h)

/-- A token that is no letter stays the same. -/
theorem tokenAt_caseInsensitive {escapes : Char → Bool} {t : Ere.Token} (hc : c.isAlpha = false)
    (hFree : caseFree 0 (c :: s) = true) (h : Ere.tokenAt escapes c s = some (t, k)) :
    Ere.tokenAt escapes c (caseInsensitive s).1 = some (t.map (Ere.closure bothCases), k) ∧
      (s.take k).all (fun c => !c.isAlpha) = true ∧ caseFree k s = true := by
  unfold Ere.tokenAt at h ⊢
  rw [caseFree] at hFree
  by_cases hBackslash : c = '\\'
  · rw [if_pos hBackslash] at h hFree ⊢
    cases s with
    | nil => cases h
    | cons d s =>
      rw [Bool.and_eq_true] at hFree
      have hd : d.isAlpha = false := by simpa using hFree.1
      rw [caseInsensitive_of_not_isAlpha hd]
      dsimp only at h ⊢
      split at h
      · rename_i hEscapes
        cases h
        rw [if_pos hEscapes, Ere.Token.map, closure_exactly hd]
        exact ⟨rfl, by simpa using hd, hFree.2⟩
      · cases h
  · rw [if_neg hBackslash] at h hFree ⊢
    by_cases hBracket : c = '['
    · rw [if_pos hBracket] at h hFree ⊢
      obtain ⟨⟨p, n⟩, hText, hResult⟩ := Option.map_eq_some_iff.mp h
      cases hResult
      rw [hText] at hFree
      dsimp only at hFree
      rw [Bool.and_eq_true, Bool.and_eq_true] at hFree
      obtain ⟨⟨hLetters, hCaseless⟩, hRest⟩ := hFree
      rw [bracket_caseInsensitive hText hLetters, Option.map_some, Ere.Token.map, closure_of_isCaseless hCaseless]
      exact ⟨rfl, hLetters, hRest⟩
    · rw [if_neg hBracket] at h hFree ⊢
      have hDigit : (caseInsensitive s).1.head?.any Char.isDigit = s.head?.any Char.isDigit := by
        cases s with
        | nil => rfl
        | cons d s =>
          by_cases hd : d.isAlpha = true
          · rw [caseInsensitive_cons, if_pos hd, List.head?_cons, List.head?_cons, Option.any_some, Option.any_some,
              isDigit_of_isAlpha hd]
            rfl
          · rw [caseInsensitive_of_not_isAlpha (Bool.not_eq_true _ ▸ hd)]
            rfl
      rw [hDigit]
      split at h
      · rename_i hBrace
        rw [if_pos hBrace]
        obtain ⟨hBound, hMap, hText⟩ := bound_caseInsensitive h
        rw [hBound, hMap]
        refine ⟨rfl, ?_, caseFree_of_isBound hFree hText⟩
        refine List.all_eq_true.mpr fun d hd => ?_
        rw [(not_isAlpha_of_isBound (List.all_eq_true.mp hText d hd)).1]
        rfl
      · rename_i hBrace
        rw [if_neg hBrace]
        cases h
        rw [ofChar_map hc]
        exact ⟨rfl, rfl, hFree⟩

theorem lex_caseInsensitive {escapes : Char → Bool} {tokens : List Ere.Token}
    (hSkip : (s.take skip).all (fun c => !c.isAlpha) = true) (hFree : caseFree skip s = true)
    (h : Ere.lex escapes skip s = some tokens) :
    Ere.lex escapes skip (caseInsensitive s).1 = some (tokens.map (Ere.Token.map (Ere.closure bothCases))) := by
  induction s generalizing skip tokens with
  | nil =>
    cases skip <;> cases h <;> rfl
  | cons c s ih =>
    cases skip with
    | succ skip =>
      rw [List.take_succ_cons, List.all_cons, Bool.and_eq_true] at hSkip
      rw [caseInsensitive_of_not_isAlpha (by simpa using hSkip.1)]
      exact ih hSkip.2 hFree h
    | zero =>
      rw [Ere.lex_cons, Option.bind_eq_some_iff] at h
      obtain ⟨⟨t, k⟩, hToken, hRest⟩ := h
      obtain ⟨tokens, hTokens, rfl⟩ := Option.map_eq_some_iff.mp hRest
      by_cases hc : c.isAlpha = true
      · -- a letter stands for itself wherever it may stand at all
        have hOrdinary : Ere.ordinary c = true := by
          refine decide_eq_true fun hMem => ?_
          simp only [List.mem_cons, List.not_mem_nil, or_false] at hMem
          rcases hMem with rfl | rfl | rfl | rfl | rfl | rfl | rfl | rfl | rfl | rfl | rfl | rfl <;> cases hc
        rw [Ere.tokenAt_ordinary hOrdinary] at hToken
        cases hToken
        have hFree' : caseFree 0 s = true := by
          rwa [caseFree, if_neg (ne_of_isAlpha hc (by decide)), if_neg (ne_of_isAlpha hc (by decide))] at hFree
        have hBracket : Ere.tokenAt escapes '[' (c :: swapCase c :: ']' :: (caseInsensitive s).1) =
            some (.one (Ere.closure bothCases (Ere.exactly c)), 3) := by
          unfold Ere.tokenAt
          rw [if_neg (by decide), if_pos rfl, bracket_letter hc]
          rfl
        rw [caseInsensitive_cons, if_pos hc, Ere.lex_cons, hBracket, Option.bind_some]
        exact congrArg (Option.map _) (@ih 0 _ rfl hFree' hTokens)
      · rw [Bool.not_eq_true] at hc
        obtain ⟨hToken', hLetters, hFree'⟩ := tokenAt_caseInsensitive hc hFree hToken
        rw [caseInsensitive_of_not_isAlpha hc, Ere.lex_cons, hToken', Option.bind_some, ih hLetters hFree' hTokens]
        rfl

/-- In an expression that is free of case, the letters are what becomes case-insensitive. -/
theorem parse_caseInsensitive {escapes : Char → Bool} {r : Ere} (hFree : caseFree 0 s = true)
    (h : Ere.parse escapes s = some r) :
    Ere.parse escapes (caseInsensitive s).1 = some (r.map (Ere.closure bothCases)) := by
  obtain ⟨tokens, hTokens, hParse⟩ := Option.bind_eq_some_iff.mp h
  rw [Ere.parse, lex_caseInsensitive rfl hFree hTokens, Option.bind_some, Ere.parseTokens_map, hParse, Option.map_some]

/-! ### Simple patterns -/

theorem translate_caseInsensitive (escapeMode : Bool) (s : Str) :
    translate escapeMode (caseInsensitive s).1 = (caseInsensitive (translate escapeMode s)).1 := by
  have hLetter : ∀ {c : Char} (s : Str), c.isAlpha = true → translate false (c :: s) = c :: translate false s :=
    fun _ hc => by apply translate_other <;> exact ne_of_isAlpha hc (by decide)
  induction s generalizing escapeMode with
  | nil => cases escapeMode <;> rfl
  | cons c s ih =>
    by_cases hc : c.isAlpha = true
    · have hRest : translate false (c :: swapCase c :: ']' :: (caseInsensitive s).1) =
          c :: swapCase c :: ']' :: (caseInsensitive (translate false s)).1 := by
        rw [hLetter _ hc, hLetter _ (isAlpha_swapCase hc), ← ih false]
        rfl
      have hText : translate escapeMode (c :: s) = c :: translate false s := by
        cases escapeMode with
        | true => rfl
        | false => exact hLetter s hc
      rw [hText, caseInsensitive_cons, if_pos hc, caseInsensitive_cons, if_pos hc, ← hRest]
      cases escapeMode <;> rfl
    · rw [Bool.not_eq_true] at hc
      rw [caseInsensitive_of_not_isAlpha hc]
      cases escapeMode with
      | true =>
        rw [translate, translate, caseInsensitive_of_not_isAlpha hc, ih false]
      | false =>
        by_cases hSpecial : c = ',' ∨ c = '.' ∨ c = '*' ∨ c = '?' ∨ c = '\\'
        · rcases hSpecial with rfl | rfl | rfl | rfl | rfl
          · exact congrArg ('|' :: ·) (ih false)
          · exact congrArg ('\\' :: '.' :: ·) (ih false)
          · exact congrArg ('.' :: '*' :: ·) (ih false)
          · exact congrArg ('.' :: ·) (ih false)
          · exact congrArg ('\\' :: ·) (ih true)
        · obtain ⟨hComma, hDot, hStar, hQuestion, hBackslash⟩ := by simpa only [not_or] using hSpecial
          rw [translate_other hComma hDot hStar hQuestion hBackslash,
            translate_other hComma hDot hStar hQuestion hBackslash, caseInsensitive_of_not_isAlpha hc, ih false]

theorem anchored_caseInsensitive (s : Str) : anchored (caseInsensitive s).1 = (caseInsensitive (anchored s)).1 := by
  rw [anchored, anchored, caseInsensitive_append, caseInsensitive_append, translate_caseInsensitive]
  rfl

theorem getLast?_caseInsensitive (h : d.isAlpha = false) (hd : d ≠ ']') :
    (caseInsensitive s).1.getLast? = some d ↔ s.getLast? = some d := by
  rcases List.eq_nil_or_concat s with rfl | ⟨x, c, rfl⟩
  · rfl
  · rw [List.concat_eq_append, caseInsensitive_append, List.getLast?_concat]
    by_cases hc : c.isAlpha = true
    · rw [caseInsensitive_cons, if_pos hc, List.getLast?_append_of_ne_nil _ (List.cons_ne_nil _ _)]
      simp only [caseInsensitive, List.getLast?_cons_cons, List.getLast?_singleton, Option.some.injEq]
      exact iff_of_false (Ne.symm hd) (ne_of_isAlpha hc h)
    · rw [caseInsensitive_of_not_isAlpha (Bool.not_eq_true _ ▸ hc)]
      exact Iff.of_eq (congrArg (· = some d) List.getLast?_concat)

theorem atoiDigits_caseInsensitive (n : UInt32) (s : Str) : atoiDigits n (caseInsensitive s).1 = atoiDigits n s := by
  induction s generalizing n with
  | nil => rfl
  | cons c s ih =>
    by_cases hc : c.isAlpha = true
    · rw [caseInsensitive_cons, if_pos hc, atoiDigits, if_neg (by decide), atoiDigits,
        if_neg (by rw [isDigit_of_isAlpha hc]; exact Bool.false_ne_true)]
    · rw [caseInsensitive_of_not_isAlpha (Bool.not_eq_true _ ▸ hc), atoiDigits, atoiDigits, ih]

theorem atoi_of_unsigned {digits : Str} (h : s.dropWhile Char.isWhitespace = c :: digits) (hMinus : c ≠ '-')
    (hPlus : c ≠ '+') : atoi s = atoiDigits 0 (c :: digits) := by
  unfold atoi
  rw [h]
  split
  · exact absurd (List.cons.inj ‹_›).1 hMinus
  · exact absurd (List.cons.inj ‹_›).1 hPlus
  · rfl

theorem atoi_caseInsensitive (s : Str) : atoi (caseInsensitive s).1 = atoi s := by
  have hSpace : ∀ c : Char, c.isAlpha = true → c.isWhitespace = Char.isWhitespace '[' := by
    intro c hc
    simp only [Char.isWhitespace, Char.reduceEq, decide_false, Bool.or_false, Bool.or_eq_false_iff,
      decide_eq_false_iff_not]
    exact ⟨⟨⟨ne_of_isAlpha hc (by decide), ne_of_isAlpha hc (by decide)⟩, ne_of_isAlpha hc (by decide)⟩,
      ne_of_isAlpha hc (by decide)⟩
  have hDrop := dropWhile_caseInsensitive hSpace (by decide) s
  cases hDigits : s.dropWhile Char.isWhitespace with
  | nil =>
    rw [hDigits] at hDrop
    rw [atoi, atoi, hDrop, hDigits]
    rfl
  | cons c digits =>
    rw [hDigits] at hDrop
    by_cases hSign : c = '-' ∨ c = '+'
    · rw [atoi, atoi, hDrop, hDigits]
      rcases hSign with rfl | rfl
      · exact congrArg (0 - ·) (atoiDigits_caseInsensitive 0 digits)
      · exact atoiDigits_caseInsensitive 0 digits
    · obtain ⟨hMinus, hPlus⟩ := not_or.mp hSign
      rw [atoi_of_unsigned hDigits hMinus hPlus, ← atoiDigits_caseInsensitive, ← hDrop]
      cases hText : (caseInsensitive s).1.dropWhile Char.isWhitespace with
      | nil =>
        rw [atoi, hText]
      | cons d rest =>
        have hHead : (caseInsensitive (c :: digits)).1.head? = some d := by rw [← hDrop, hText, List.head?_cons]
        refine atoi_of_unsigned hText ?_ ?_
        · rintro rfl
          exact hMinus (by simpa using (head?_caseInsensitive (by decide) (by decide)).mp hHead)
        · rintro rfl
          exact hPlus (by simpa using (head?_caseInsensitive (by decide) (by decide)).mp hHead)

theorem parseRange_of_head (h : s.head? ≠ some '<') : parseRange s = (MUSCLE_NO_LIMIT, MUSCLE_NO_LIMIT) := by
  unfold parseRange
  split
  · exact absurd rfl h
  · rfl

theorem parseRange_of_dropWhile_nil {inner : Str} (h : inner.dropWhile (· != '-') = []) :
    parseRange ('<' :: inner) = (MUSCLE_NO_LIMIT, MUSCLE_NO_LIMIT) := by
  simp only [parseRange, h]

theorem parseRange_of_dropWhile_cons {inner upper : Str} (h : inner.dropWhile (· != '-') = '-' :: upper) :
    parseRange ('<' :: inner) =
      if ('-' :: upper).getLast? = some '>' then
        (if inner.head? = some '-' then 0 else atoi inner,
          if upper.head? = some '>' then MUSCLE_NO_LIMIT else if upper.head? = some '-' then 0 else atoi upper)
      else (MUSCLE_NO_LIMIT, MUSCLE_NO_LIMIT) := by
  simp only [parseRange, h]

theorem parseRange_caseInsensitive (s : Str) : parseRange (caseInsensitive s).1 = parseRange s := by
  by_cases hHead : s.head? = some '<'
  · obtain ⟨inner, rfl⟩ := List.head?_eq_some_iff.mp hHead
    have hDrop : (caseInsensitive inner).1.dropWhile (· != '-') = (caseInsensitive (inner.dropWhile (· != '-'))).1 :=
      dropWhile_caseInsensitive (fun c hc => bne_iff_ne.mpr (ne_of_isAlpha hc (by decide))) (by decide) inner
    rw [caseInsensitive_of_not_isAlpha (by decide)]
    cases hDash : inner.dropWhile (· != '-') with
    | nil =>
      rw [hDash] at hDrop
      rw [parseRange_of_dropWhile_nil hDash, parseRange_of_dropWhile_nil hDrop]
    | cons dash upper =>
      obtain rfl : dash = '-' := by
        have hFirst := List.head?_dropWhile_not (· != '-') inner
        rw [hDash] at hFirst
        simpa using hFirst
      rw [hDash, caseInsensitive_of_not_isAlpha (by decide)] at hDrop
      have hLast : ('-' :: (caseInsensitive upper).1).getLast? = some '>' ↔ ('-' :: upper).getLast? = some '>' := by
        have hText := getLast?_caseInsensitive (s := '-' :: upper) (d := '>') (by decide) (by decide)
        rwa [caseInsensitive_of_not_isAlpha (by decide)] at hText
      rw [parseRange_of_dropWhile_cons hDash, parseRange_of_dropWhile_cons hDrop]
      simp only [hLast, head?_caseInsensitive (show '-'.isAlpha = false by decide) (by decide),
        head?_caseInsensitive (show '>'.isAlpha = false by decide) (by decide), atoi_caseInsensitive]
  · rw [parseRange_of_head hHead, parseRange_of_head fun h =>
      hHead ((head?_caseInsensitive (by decide) (by decide)).mp h)]

theorem untilde_caseInsensitive (s : Str) : StringMatcher.untilde (caseInsensitive s).1 =
    ((StringMatcher.untilde s).1, (caseInsensitive (StringMatcher.untilde s).2).1) := by
  rw [StringMatcher.untilde, StringMatcher.untilde, if_congr (head?_caseInsensitive (by decide) (by decide)) rfl rfl]
  split
  · obtain ⟨rest, rfl⟩ := List.head?_eq_some_iff.mp ‹_›
    rfl
  · rfl

theorem regexPattern_caseInsensitive (isSimple : Bool) (s : Str) :
    StringMatcher.regexPattern isSimple (caseInsensitive s).1 =
      (caseInsensitive (StringMatcher.regexPattern isSimple s)).1 := by
  cases isSimple with
  | false => rfl
  | true =>
    simp only [StringMatcher.regexPattern, if_true, untilde_caseInsensitive]
    generalize (StringMatcher.untilde s).2 = str
    have hTake : ∀ l : Str, l.take 2 = ['\\', '<'] ↔ l.head? = some '\\' ∧ l.tail.head? = some '<' := by
      rintro (_ | ⟨_, _ | ⟨_, _⟩⟩) <;> simp
    have hEscape : (caseInsensitive str).1.take 2 = ['\\', '<'] ↔ str.take 2 = ['\\', '<'] := by
      rw [hTake, hTake, head?_caseInsensitive (by decide) (by decide)]
      refine and_congr_right fun hHead => ?_
      obtain ⟨rest, rfl⟩ := List.head?_eq_some_iff.mp hHead
      exact head?_caseInsensitive (by decide) (by decide)
    rw [if_congr hEscape rfl rfl]
    split
    · obtain ⟨rest, rfl⟩ : ∃ rest, str = '\\' :: '<' :: rest := ⟨str.drop 2, by
        rw [← List.take_append_drop 2 str, ‹str.take 2 = _›]
        rfl⟩
      exact anchored_caseInsensitive ('<' :: rest)
    · exact anchored_caseInsensitive str

/-! ### Strings that differ in case -/

theorem map_toLower_iff : s.map Char.toLower = str.map Char.toLower ↔ Ere.Variant bothCases s str := by
  rw [← List.forall₂_eq_eq_eq, List.forall₂_map_left_iff, List.forall₂_map_right_iff]
  exact ⟨fun h => h.imp fun _ _ => mem_bothCases_iff.mpr, fun h => h.imp fun _ _ => mem_bothCases_iff.mp⟩

/-- A digit has no other case. -/
theorem eq_of_isDigit (hc : c.isDigit = true) (h : d.toLower = c.toLower) : d = c := by
  have hMem := mem_bothCases_iff.mpr h
  rw [bothCases, swapCase_of_not_isAlpha (isAlpha_of_isDigit hc)] at hMem
  simpa using hMem

theorem isDigit_toLower (h : d.toLower = c.toLower) : d.isDigit = c.isDigit := by
  by_cases hc : c.isDigit = true
  · rw [eq_of_isDigit hc h]
  · by_cases hd : d.isDigit = true
    · rw [eq_of_isDigit hd h.symm]
    · rw [Bool.not_eq_true] at hc hd
      rw [hc, hd]

theorem atoiDigits_toLower (n : UInt32) (h : s.map Char.toLower = str.map Char.toLower) :
    atoiDigits n s = atoiDigits n str := by
  rw [map_toLower_iff] at h
  induction h generalizing n with
  | nil => rfl
  | cons hc _ ih =>
    have hc := mem_bothCases_iff.mp hc
    rw [atoiDigits, atoiDigits, isDigit_toLower hc]
    split
    · rw [eq_of_isDigit ‹_› hc, ih]
    · rfl

namespace StringMatcher

/-- The pattern is a range of numbers. -/
def IsRange (isSimple : Bool) (p : Str) : Prop :=
  isSimple = true ∧ (parseRange (untilde p).2).1 ≠ MUSCLE_NO_LIMIT

/-- The pattern is a range, or POSIX defines its expression. -/
def IsValid (isSimple : Bool) (p : Str) : Prop :=
  IsRange isSimple p ∨ (Ere.parse (fun _ => true) (regexPattern isSimple p)).isSome = true

/-- In the pattern, a bracket expression and what a backslash is before have no case; neither has a pattern with a tilde
at all. -/
def IsCaseFree (isSimple : Bool) (p : Str) : Prop :=
  IsRange isSimple p ∨ caseFree 0 (regexPattern isSimple p) = true ∧
    (isSimple = true → (untilde p).1 = true → p.all (fun c => !c.isAlpha) = true)

theorem isMatch_of_range {m : StringMatcher} (hRange : m.rangeMin ≠ MUSCLE_NO_LIMIT)
    (h : s.map Char.toLower = str.map Char.toLower) : m.isMatch s = m.isMatch str := by
  unfold isMatch
  simp only [if_neg hRange]
  cases s with
  | nil =>
    cases str with
    | nil => rfl
    | cons => cases h
  | cons d s =>
    cases str with
    | nil => cases h
    | cons c str =>
      have hHead : d.toLower = c.toLower := (List.cons.inj h).1
      dsimp only
      rw [isDigit_toLower hHead]
      by_cases hc : c.isDigit = true
      · have hAtoi : ∀ {c : Char} (str : Str), c.isDigit = true → atoi (c :: str) = atoiDigits 0 (c :: str) := by
          intro c str hc
          refine atoi_of_unsigned (List.dropWhile_cons_of_neg fun hSpace => ?_) ?_ ?_
          · simp only [Char.isWhitespace, Bool.or_eq_true, decide_eq_true_eq] at hSpace
            rcases hSpace with ((rfl | rfl) | rfl) | rfl <;> cases hc
          · rintro rfl
            cases hc
          · rintro rfl
            cases hc
        rw [hAtoi s (isDigit_toLower hHead ▸ hc), hAtoi str hc, atoiDigits_toLower 0 h]
      · rw [Bool.not_eq_true] at hc
        rw [hc, Bool.false_and, Bool.false_and, Bool.false_and, Bool.false_and]

variable {regex : Regex} {isSimple : Bool} {regExp : Str → Bool}

theorem setPatternAs_range {p : Str} (h : IsRange isSimple p) : (unset.setPatternAs regex p isSimple).1 =
    ⟨p, (untilde p).1, Reflect.hasRegexTokens p, (parseRange (untilde p).2).1, (parseRange (untilde p).2).2, none⟩ := by
  obtain ⟨rfl, hRange⟩ := h
  rw [setPatternAs]
  simp only [if_true, if_neg hRange]

theorem isMatch_regex {p : Str} (h : ¬IsRange isSimple p) (hComp : regex.comp (regexPattern isSimple p) = some regExp)
    (str : Str) :
    (unset.setPatternAs regex p isSimple).1.isMatch str = ((isSimple && (untilde p).1) != regExp str) := by
  cases isSimple with
  | false =>
    rw [setPatternAs]
    simp only [Bool.false_eq_true, if_false, if_true, hComp, isMatch, Bool.false_and, Bool.false_bne]
    rfl
  | true =>
    have hLimit : (parseRange (untilde p).2).1 = MUSCLE_NO_LIMIT := by
      by_contra hLimit
      exact h ⟨rfl, hLimit⟩
    rw [setPatternAs]
    simp only [if_true, if_pos hLimit, hComp, isMatch, Bool.true_and]
    cases (untilde p).1 <;> cases regExp str <;> rfl

/-- The rewritten pattern matches what differs in case from what the pattern matches, if it is free of case. -/
theorem isMatch_makeRegexCaseInsensitive {regex : Regex} (hPosix : regex.Posix fun _ => true) {isSimple : Bool}
    {p : Str} (hValid : IsValid isSimple p) (hFree : IsCaseFree isSimple p) (str : Str) :
    (unset.setPatternAs regex (makeRegexCaseInsensitive p).1 isSimple).1.isMatch str = true ↔
      ∃ s, s.map Char.toLower = str.map Char.toLower ∧ (unset.setPatternAs regex p isSimple).1.isMatch s = true := by
  rw [makeRegexCaseInsensitive_eq]
  have hSameRange : IsRange isSimple (caseInsensitive p).1 ↔ IsRange isSimple p := by
    rw [IsRange, IsRange, untilde_caseInsensitive, parseRange_caseInsensitive]
  by_cases hRange : IsRange isSimple p
  · have hSame : (unset.setPatternAs regex (caseInsensitive p).1 isSimple).1.isMatch str =
        (unset.setPatternAs regex p isSimple).1.isMatch str := by
      rw [setPatternAs_range hRange, setPatternAs_range (hSameRange.mpr hRange), untilde_caseInsensitive,
        parseRange_caseInsensitive]
      rfl
    rw [hSame]
    constructor
    · exact fun h => ⟨str, rfl, h⟩
    · rintro ⟨s, hs, h⟩
      rwa [← isMatch_of_range (by rw [setPatternAs_range hRange]; exact hRange.2) hs]
  · obtain ⟨r, hParse⟩ := Option.isSome_iff_exists.mp (hValid.resolve_left hRange)
    obtain ⟨hBlind, hTilde⟩ := hFree.resolve_left hRange
    have hParse' := parse_caseInsensitive hBlind hParse
    obtain ⟨regExp, hComp, hSearch⟩ := hPosix _ r hParse
    obtain ⟨regExp', hComp', hSearch'⟩ := hPosix _ _ hParse'
    rw [← regexPattern_caseInsensitive] at hComp' hParse'
    rw [isMatch_regex (hSameRange.not.mpr hRange) hComp', hSearch', untilde_caseInsensitive]
    simp only [isMatch_regex hRange hComp, hSearch]
    have hClosure : ∀ str, (r.map (Ere.closure bothCases)).search str = true ↔
        ∃ s, Ere.Variant bothCases s str ∧ r.search s = true := fun _ => Ere.search_closure (fun _ => .head _) r
    cases hNegate : isSimple && (untilde p).1 with
    | false => simpa only [Bool.false_bne, map_toLower_iff] using hClosure str
    | true =>
      -- a pattern without letters is its own, so what it matches has all variants already
      rw [Bool.and_eq_true] at hNegate
      have hLetters := caseInsensitive_self (hTilde hNegate.1 hNegate.2)
      rw [hLetters, hParse, Option.some.injEq] at hParse'
      rw [← hParse'] at hClosure ⊢
      simp only [Bool.true_bne, Bool.not_eq_true']
      constructor
      · exact fun h => ⟨str, rfl, h⟩
      · rintro ⟨s, hs, h⟩
        by_contra hStr
        have hSelf := hClosure s
        rw [h] at hSelf
        exact Bool.false_ne_true (hSelf.mpr ⟨str, map_toLower_iff.mp hs.symm, Bool.not_eq_false _ ▸ hStr⟩)

/-- `[1-9]b*`, where the one letter is outside the brackets. -/
theorem isMatch_makeRegexCaseInsensitive_glob :
    (unset.setPatternAs (posixRegex fun _ => true) (makeRegexCaseInsensitive ['[', '1', '-', '9', ']', 'b', '*']).1
        true).1.isMatch ['7', 'B', 'x'] = true ↔
      ∃ s, s.map Char.toLower = ['7', 'B', 'x'].map Char.toLower ∧
        (unset.setPatternAs (posixRegex fun _ => true) ['[', '1', '-', '9', ']', 'b', '*'] true).1.isMatch s = true :=
  isMatch_makeRegexCaseInsensitive (posixRegex_posix _) (.inr (by decide)) (.inr ⟨by decide, by decide⟩) _

/-- A letter of a bracket expression becomes a bracket expression of its own there, which ends the one it is in. -/
theorem bracket_letters_lost :
    IsValid true ['[', 'a', 'b', ']'] ∧
    ¬((unset.setPatternAs (posixRegex fun _ => true) (makeRegexCaseInsensitive ['[', 'a', 'b', ']']).1
          true).1.isMatch ['a'] = true ↔
        ∃ s, s.map Char.toLower = ['a'].map Char.toLower ∧
          (unset.setPatternAs (posixRegex fun _ => true) ['[', 'a', 'b', ']'] true).1.isMatch s = true) := by
  refine ⟨.inr (by decide), fun h => ?_⟩
  have hMatch := h.mpr ⟨['a'], rfl, by decide⟩
  revert hMatch
  decide

end StringMatcher

end BeShare.Muscle.Reflect
