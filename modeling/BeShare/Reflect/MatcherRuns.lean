import BeShare.Reflect.StringMatcher
import Mathlib.Data.List.Induction
import Mathlib.Tactic.Common

/-!
A `StringMatcher` that is given one pattern after the other, in the simple format or as a regular expression: what the
last pattern leaves of the ones before.
-/

namespace BeShare.Muscle.Reflect

namespace StringMatcher

variable {regex : Regex} {m m' : StringMatcher} {s : Str} {isSimple : Bool}

/-- The default constructor. -/
def unset : StringMatcher :=
  ⟨[], false, false, MUSCLE_NO_LIMIT, MUSCLE_NO_LIMIT, none⟩

/-- The pattern behind the tilde, and whether there is one. -/
def untilde (s : Str) : Bool × Str :=
  if s.head? = some '~' then (true, s.tail) else (false, s)

/-- What is compiled, if the pattern is no range. -/
def regexPattern (isSimple : Bool) (s : Str) : Str :=
  if isSimple then
    let str := (untilde s).2
    anchored (if str.take 2 = ['\\', '<'] then str.tail else str)
  else s

/-- `SetPattern` in either format, and whether it succeeds. Only the simple format sets the flag of the tilde. -/
def setPatternAs (regex : Regex) (m : StringMatcher) (s : Str) (isSimple : Bool) : StringMatcher × Bool :=
  let negate := if isSimple then (untilde s).1 else m.negate
  let (rangeMin, rangeMax) :=
    if isSimple then parseRange (untilde s).2 else (MUSCLE_NO_LIMIT, MUSCLE_NO_LIMIT)
  if rangeMin = MUSCLE_NO_LIMIT then
    let regExp := regex.comp (regexPattern isSimple s)
    (⟨s, negate, Reflect.hasRegexTokens s, rangeMin, rangeMax, regExp⟩, regExp.isSome)
  else (⟨s, negate, Reflect.hasRegexTokens s, rangeMin, rangeMax, none⟩, true)

/-- A new matcher is set to the patterns of the history, one after the other. -/
def run (regex : Regex) (history : List (Str × Bool)) : StringMatcher :=
  history.foldl (fun m set => (m.setPatternAs regex set.1 set.2).1) unset

/-- In the simple format, nothing of the matcher counts. -/
theorem setPatternAs_simple (regex : Regex) (m m' : StringMatcher) (s : Str) :
    m.setPatternAs regex s true = m'.setPatternAs regex s true := by
  rfl

/-- A new matcher with a simple pattern. -/
theorem setPattern_eq (regex : Regex) (m : StringMatcher) (s : Str) :
    setPattern regex s =
      if (m.setPatternAs regex s true).2 then some (m.setPatternAs regex s true).1 else none := by
  unfold setPattern setPatternAs regexPattern untilde
  by_cases hTilde : s.head? = some '~'
  · simp only [hTilde, decide_true, if_true]
    generalize parseRange s.tail = range
    split
    · generalize regex.comp _ = regExp
      cases regExp <;> rfl
    · rfl
  · simp only [hTilde, decide_false, Bool.false_eq_true, if_false, if_true]
    generalize parseRange s = range
    split
    · generalize regex.comp _ = regExp
      cases regExp <;> rfl
    · rfl

/-- A regular expression takes over the flag from the pattern before. -/
theorem setPatternAs_regex (regex : Regex) (m m' : StringMatcher) (s : Str) :
    (m'.setPatternAs regex s false).1 = { (m.setPatternAs regex s false).1 with negate := m'.negate } := by
  rfl

theorem negate_setPatternAs :
    (m.setPatternAs regex s isSimple).1.negate = if isSimple then (untilde s).1 else m.negate := by
  unfold setPatternAs
  dsimp only
  rw [apply_ite Prod.fst, apply_ite negate]
  exact ite_self _

theorem isMatch_negated (m : StringMatcher) (negate : Bool) (str : Str) :
    ({ m with negate := negate } : StringMatcher).isMatch str =
      (m.isMatch str != (m.negate != negate)) := by
  unfold isMatch
  dsimp only
  generalize (if m.rangeMin = MUSCLE_NO_LIMIT then _ else _ : Bool) = ret
  cases m.negate <;> cases negate <;> cases ret <;> rfl

/-- Whether the last simple pattern of the history starts with a tilde. -/
def negates : List (Str × Bool) → Bool
  | [] => false
  | (s, isSimple) :: earlier => if isSimple then (untilde s).1 else negates earlier

theorem negate_run (regex : Regex) (history : List (Str × Bool)) :
    (run regex history).negate = negates history.reverse := by
  induction history using List.reverseRecOn with
  | nil => rfl
  | append_singleton history set ih =>
    rw [run, List.foldl_append, List.foldl_cons, List.foldl_nil, negate_setPatternAs, List.reverse_append,
      List.reverse_singleton, List.singleton_append, negates, ← ih]
    rfl

/-- After two histories, a pattern means the same exactly if it is a simple one, or the last simple patterns before both
have a tilde or both have none. -/
theorem isMatch_run_iff (regex : Regex) (history history' : List (Str × Bool)) (s : Str) (isSimple : Bool) :
    (∀ str, (run regex (history ++ [(s, isSimple)])).isMatch str =
        (run regex (history' ++ [(s, isSimple)])).isMatch str) ↔
      isSimple = true ∨ negates history.reverse = negates history'.reverse := by
  have hLast : ∀ history : List (Str × Bool),
      run regex (history ++ [(s, isSimple)]) = ((run regex history).setPatternAs regex s isSimple).1 :=
    fun history => by
      rw [run, List.foldl_append]
      rfl
  rw [hLast, hLast, ← negate_run regex, ← negate_run regex]
  generalize run regex history = m
  generalize run regex history' = m'
  cases isSimple with
  | true =>
    rw [setPatternAs_simple regex m m']
    exact iff_of_true (fun _ => rfl) (.inl rfl)
  | false =>
    have hNegate : (m.setPatternAs regex s false).1.negate = m.negate := negate_setPatternAs
    rw [setPatternAs_regex regex m m']
    simp only [isMatch_negated, hNegate, Bool.false_eq_true, false_or]
    constructor
    · intro h
      have hAny := h []
      cases hm : m.negate <;> cases hm' : m'.negate <;> simp_all
    · intro h str
      rw [h]
      simp

/-- A pattern without special characters, compiled. -/
def plainRegex : Regex :=
  ⟨fun s => some (· == s)⟩

/-- After a pattern with a tilde, a regular expression matches what it does not match. -/
theorem run_remembers :
    (run plainRegex [(['a'], false)]).isMatch ['a'] = true ∧
      (run plainRegex [(['~', 'b'], true), (['a'], false)]).isMatch ['a'] = false := by
  decide

end StringMatcher

end BeShare.Muscle.Reflect
