import BeShare.Lib.Ere
import BeShare.Reflect.MatcherRuns

/-!
`EscapeRegexTokens`, and what simple patterns match when the library reads expressions as POSIX writes them: an escaped
string only itself, and so does a pattern that `IsPatternUnique` says is unique.
-/

namespace BeShare.Muscle.Reflect

open Lib (Ere)

/-- The library reads its expressions as POSIX says, with a backslash before the characters that `escapes` names. -/
def Regex.Posix (regex : Regex) (escapes : Char → Bool) : Prop :=
  ∀ p r, Ere.parse escapes p = some r → ∃ regExp, regex.comp p = some regExp ∧ ∀ str, regExp str = r.search str

/-- A library that does, and refuses what POSIX leaves undefined. -/
def posixRegex (escapes : Char → Bool) : Regex :=
  ⟨fun p => (Ere.parse escapes p).map Ere.search⟩

theorem posixRegex_posix (escapes : Char → Bool) : (posixRegex escapes).Posix escapes :=
  fun _ r h => ⟨r.search, congrArg (Option.map Ere.search) h, fun _ => rfl⟩

def isPunctuation (c : Char) : Bool :=
  decide (33 ≤ c.toNat) && decide (c.toNat ≤ 126) && !c.isAlphanum

def escapeRegexTokensAux (optTokens : Option Str) : Bool → Str → Str
  | _, [] => []
  | isFirst, c :: str =>
    if optTokens.elim (isRegexToken c isFirst) (fun tokens => decide (c ∈ tokens)) then
      '\\' :: c :: escapeRegexTokensAux optTokens false str
    else c :: escapeRegexTokensAux optTokens false str

def escapeRegexTokens (s : Str) (optTokens : Option Str) : Str :=
  escapeRegexTokensAux optTokens true s

variable {regex : Regex} {c : Char} {s p str : Str} {isFirst : Bool}

theorem isRegexToken_of_false (h : isRegexToken c false = true) (isFirst : Bool) : isRegexToken c isFirst = true := by
  unfold isRegexToken at h ⊢
  split at h
  · rename_i hc
    exact if_pos hc
  · simp at h

theorem isPunctuation_of_token (h : isRegexToken c isFirst = true) : isPunctuation c = true := by
  have hc : c ∈ ['[', ']', '*', '?', '\\', ',', '|', '(', ')', '=', '^', '+', '$', '{', '}', ':', '-'] ∨
      c ∈ ['<', '~'] := by
    unfold isRegexToken at h
    split at h
    · exact .inl ‹_›
    · split at h
      · exact .inr ‹_›
      · cases h
  simp only [List.mem_cons, List.not_mem_nil, or_false] at hc
  rcases hc with (rfl | rfl | rfl | rfl | rfl | rfl | rfl | rfl | rfl | rfl | rfl | rfl | rfl | rfl | rfl | rfl | rfl) |
    rfl | rfl <;> decide

theorem ordinary_of_not_token (h : isRegexToken c isFirst = false) (hDot : c ≠ '.') : Ere.ordinary c = true := by
  refine decide_eq_true fun hc => ?_
  simp only [List.mem_cons, List.not_mem_nil, or_false] at hc
  rcases hc with rfl | rfl | rfl | rfl | rfl | rfl | rfl | rfl | rfl | rfl | rfl | rfl <;>
    first | exact hDot rfl | cases h

theorem translate_other (hComma : c ≠ ',') (hDot : c ≠ '.') (hStar : c ≠ '*') (hQuestion : c ≠ '?')
    (hBackslash : c ≠ '\\') : translate false (c :: s) = c :: translate false s := by
  rw [translate]
  all_goals assumption

theorem translate_plain (hComma : c ≠ ',') (h : Ere.ordinary c = true) :
    translate false (c :: s) = c :: translate false s := by
  have hc := of_decide_eq_true h
  simp only [List.mem_cons, not_or] at hc
  apply translate_other hComma <;> simp only [hc, ne_eq, not_false_eq_true]

/-- Behind the first character, the expression spells the string. -/
theorem spells_escaped (s : Str) :
    Ere.Spells isPunctuation (translate false (escapeRegexTokensAux none false s)) s := by
  induction s with
  | nil => exact .nil
  | cons c s ih =>
    rw [escapeRegexTokensAux, Option.elim]
    split
    · rename_i hToken
      exact .escaped (isPunctuation_of_token hToken) ih
    · rename_i hToken
      rw [Bool.not_eq_true] at hToken
      by_cases hDot : c = '.'
      · subst hDot
        exact .escaped (by decide) ih
      · have hComma : c ≠ ',' := fun h => by simp [h, isRegexToken] at hToken
        have hOrdinary := ordinary_of_not_token hToken hDot
        rw [translate_plain hComma hOrdinary]
        exact .plain hOrdinary ih

namespace StringMatcher

/-- An escaped string is neither negated nor a range, and its expression spells the string. An escaped angle bracket at
the front has lost its backslash again. -/
theorem regexPattern_escaped (s : Str) :
    untilde (escapeRegexTokens s none) = (false, escapeRegexTokens s none) ∧
      parseRange (escapeRegexTokens s none) = (MUSCLE_NO_LIMIT, MUSCLE_NO_LIMIT) ∧
      ∃ p, regexPattern true (escapeRegexTokens s none) = ['^', '('] ++ p ++ [')', '$'] ∧
        Ere.Spells isPunctuation p s := by
  cases s with
  | nil => exact ⟨rfl, rfl, [], rfl, .nil⟩
  | cons c s =>
    have hRest := spells_escaped s
    rw [escapeRegexTokens, escapeRegexTokensAux, Option.elim]
    split
    · rename_i hToken
      refine ⟨rfl, rfl, ?_⟩
      by_cases hAngle : c = '<'
      · subst hAngle
        exact ⟨_, rfl, .plain (by decide) hRest⟩
      · refine ⟨'\\' :: c :: translate false (escapeRegexTokensAux none false s), ?_,
          .escaped (isPunctuation_of_token hToken) hRest⟩
        have hTake : ('\\' :: c :: escapeRegexTokensAux none false s).take 2 ≠ ['\\', '<'] :=
          fun h => hAngle (by simpa using h)
        simp only [regexPattern, if_true, untilde, List.head?_cons, Option.some.injEq, Char.reduceEq, if_false, hTake]
        rfl
    · rename_i hToken
      rw [Bool.not_eq_true] at hToken
      have hTilde : c ≠ '~' := fun h => by simp [h, isRegexToken] at hToken
      have hAngle : c ≠ '<' := fun h => by simp [h, isRegexToken] at hToken
      have hBackslash : c ≠ '\\' := fun h => by simp [h, isRegexToken] at hToken
      have hComma : c ≠ ',' := fun h => by simp [h, isRegexToken] at hToken
      have hUntilde : untilde (c :: escapeRegexTokensAux none false s) =
          (false, c :: escapeRegexTokensAux none false s) :=
        if_neg (by simpa using hTilde)
      refine ⟨hUntilde, ?_, translate false (c :: escapeRegexTokensAux none false s), ?_, ?_⟩
      · unfold parseRange
        split
        · rename_i h
          exact absurd (List.cons.inj h).1 hAngle
        · rfl
      · have hTake : (c :: escapeRegexTokensAux none false s).take 2 ≠ ['\\', '<'] := fun h => by
          rw [List.take_succ_cons] at h
          exact hBackslash (List.cons.inj h).1
        simp only [regexPattern, if_true, hUntilde, hTake, if_false]
        rfl
      · by_cases hDot : c = '.'
        · subst hDot
          exact .escaped (by decide) hRest
        · have hOrdinary := ordinary_of_not_token hToken hDot
          rw [translate_plain hComma hOrdinary]
          exact .plain hOrdinary hRest

/-- Nothing is escaped in a pattern without tokens. -/
theorem escapeRegexTokensAux_eq_self (h : hasRegexTokensAux isFirst s = false) :
    escapeRegexTokensAux none isFirst s = s := by
  induction s generalizing isFirst with
  | nil => rfl
  | cons c s ih =>
    obtain ⟨hToken, hRest⟩ := Bool.or_eq_false_iff.mp h
    rw [escapeRegexTokensAux, Option.elim, if_neg (by rw [hToken]; exact Bool.false_ne_true), ih hRest]

theorem hasRegexTokens_setPatternAs (m : StringMatcher) (isSimple : Bool) :
    (m.setPatternAs regex p isSimple).1.hasRegexTokens = Reflect.hasRegexTokens p := by
  unfold setPatternAs
  dsimp only
  rw [apply_ite Prod.fst, apply_ite hasRegexTokens]
  exact ite_self _

/-- A matcher of an escaped string matches that string, and so does one of a unique pattern: nothing else. -/
theorem escaped_exact (hPosix : regex.Posix isPunctuation) (m : StringMatcher) :
    (∀ s, (m.setPatternAs regex (escapeRegexTokens s none) true).2 = true ∧
      ∀ str, (m.setPatternAs regex (escapeRegexTokens s none) true).1.isMatch str = true ↔ str = s) ∧
    ∀ p, (m.setPatternAs regex p true).1.isPatternUnique = true →
      ∀ str, (m.setPatternAs regex p true).1.isMatch str = true ↔ str = p := by
  have hEscaped : ∀ s, (m.setPatternAs regex (escapeRegexTokens s none) true).2 = true ∧
      ∀ str, (m.setPatternAs regex (escapeRegexTokens s none) true).1.isMatch str = true ↔ str = s := by
    intro s
    obtain ⟨hUntilde, hRange, p, hPattern, hSpells⟩ := regexPattern_escaped s
    obtain ⟨r, hParse, hSearch⟩ := Ere.search_spelled hSpells
    obtain ⟨regExp, hComp, hMatch⟩ := hPosix _ r (hPattern ▸ hParse)
    rw [setPatternAs]
    simp only [if_true, hUntilde, hRange, hComp, Option.isSome_some, isMatch, Bool.false_eq_true, if_false, true_and]
    intro str
    rw [hMatch, hSearch, decide_eq_true_iff]
  refine ⟨hEscaped, fun p hUnique => ?_⟩
  have hTokens : Reflect.hasRegexTokens p = false := by
    simp only [isPatternUnique, hasRegexTokens_setPatternAs, Bool.and_eq_true, Bool.not_eq_true'] at hUnique
    exact hUnique.1.1
  have hSelf : escapeRegexTokens p none = p := escapeRegexTokensAux_eq_self hTokens
  have hp := (hEscaped p).2
  rwa [hSelf] at hp

theorem escaped_exact_range :
    (unset.setPatternAs (posixRegex isPunctuation)
      (escapeRegexTokens ['<', '1', '-', '*', '>'] none) true).1.isMatch ['<', '1', '-', '*', '>'] = true ∧
    (unset.setPatternAs (posixRegex isPunctuation) ['a', '.', 'b'] true).1.isMatch ['a', '.', 'b'] = true :=
  ⟨(((escaped_exact (posixRegex_posix isPunctuation) unset).1 _).2 _).mpr rfl,
    ((escaped_exact (posixRegex_posix isPunctuation) unset).2 ['a', '.', 'b'] (by decide) _).mpr rfl⟩

end StringMatcher

end BeShare.Muscle.Reflect
