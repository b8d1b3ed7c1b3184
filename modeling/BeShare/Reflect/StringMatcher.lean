import Mathlib.Data.List.Basic
import Mathlib.Algebra.Group.Nat.Defs

/-!
Wildcard patterns for the clauses of node paths, as `StringMatcher::SetPattern` turns them into regular
expressions. The regular expressions themselves (`regcomp` and `regexec` of the C library) are a parameter.
-/

namespace BeShare.Muscle.Reflect

abbrev Str := List Char

instance (name : Str) (names : List Str) : Decidable (name ∈ names) :=
  inferInstance

instance (path : List Str) (paths : List (List Str)) : Decidable (path ∈ paths) :=
  inferInstance

/-- `regcomp` with `REG_EXTENDED`, which may refuse a pattern, and `regexec`. -/
structure Regex where
  comp : Str → Option (Str → Bool)

def MUSCLE_NO_LIMIT : UInt32 := 4294967295

def isRegexToken (c : Char) (isFirstCharInString : Bool) : Bool :=
  if c ∈ ['[', ']', '*', '?', '\\', ',', '|', '(', ')', '=', '^', '+', '$', '{', '}', ':', '-'] then true
  else if c ∈ ['<', '~'] then isFirstCharInString
  else false

def hasRegexTokensAux : Bool → Str → Bool
  | _, [] => false
  | isFirst, c :: str => isRegexToken c isFirst || hasRegexTokensAux false str

def hasRegexTokens (str : Str) : Bool :=
  hasRegexTokensAux true str

def atoiDigits : UInt32 → Str → UInt32
  | n, [] => n
  | n, c :: str => if c.isDigit then atoiDigits (n * 10 + UInt32.ofNat (c.toNat - 48)) str else n

/-- `(uint32) atoi(str)` -/
def atoi (str : Str) : UInt32 :=
  match str.dropWhile Char.isWhitespace with
  | '-' :: digits => 0 - atoiDigits 0 digits
  | '+' :: digits => atoiDigits 0 digits
  | digits => atoiDigits 0 digits

/-- The loop that makes the regular expression of a simple pattern. -/
def translate : Bool → Str → Str
  | escapeMode, [] => if escapeMode then ['\\'] else []
  | true, c :: str => c :: translate false str
  | false, ',' :: str => '|' :: translate false str
  | false, '.' :: str => '\\' :: '.' :: translate false str
  | false, '*' :: str => '.' :: '*' :: translate false str
  | false, '?' :: str => '.' :: translate false str
  | false, '\\' :: str => '\\' :: translate true str
  | false, c :: str => c :: translate false str

def anchored (str : Str) : Str :=
  ['^', '('] ++ translate false str ++ [')', '$']

/-- The limits of a pattern such as `<15-23>`. -/
def parseRange (str : Str) : UInt32 × UInt32 :=
  match str with
  | '<' :: inner =>
    match inner.dropWhile (· != '-') with
    | [] => (MUSCLE_NO_LIMIT, MUSCLE_NO_LIMIT)
    | dash :: upper =>
      if (dash :: upper).getLast? = some '>' then
        (if inner.head? = some '-' then 0 else atoi inner,
          if upper.head? = some '>' then MUSCLE_NO_LIMIT
          else if upper.head? = some '-' then 0
          else atoi upper)
      else (MUSCLE_NO_LIMIT, MUSCLE_NO_LIMIT)
  | _ => (MUSCLE_NO_LIMIT, MUSCLE_NO_LIMIT)

structure StringMatcher where
  pattern : Str
  negate : Bool
  hasRegexTokens : Bool
  rangeMin : UInt32
  rangeMax : UInt32
  /-- The compiled expression; `none` for a range. -/
  regExp : Option (Str → Bool)

namespace StringMatcher

/-- `SetPattern` in the simple format. -/
def setPattern (regex : Regex) (s : Str) : Option StringMatcher :=
  let negate := decide (s.head? = some '~')
  let str := if negate then s.tail else s
  let (rangeMin, rangeMax) := parseRange str
  if rangeMin = MUSCLE_NO_LIMIT then
    let str := if str.take 2 = ['\\', '<'] then str.tail else str
    match regex.comp (anchored str) with
    | some regExp => some ⟨s, negate, Reflect.hasRegexTokens s, rangeMin, rangeMax, some regExp⟩
    | none => none
  else some ⟨s, negate, Reflect.hasRegexTokens s, rangeMin, rangeMax, none⟩

variable (m : StringMatcher)

def isPatternUnique : Bool :=
  !m.hasRegexTokens && !m.negate && decide (m.rangeMin = MUSCLE_NO_LIMIT)

def isMatch (str : Str) : Bool :=
  let ret :=
    if m.rangeMin = MUSCLE_NO_LIMIT then
      match m.regExp with
      | some regExp => regExp str
      | none => false
    else
      match str with
      | c :: _ => c.isDigit && decide (m.rangeMin ≤ atoi str) && decide (atoi str ≤ m.rangeMax)
      | [] => false
  if m.negate then !ret else ret

end StringMatcher

/-- What POSIX says of an expression in which only escaped dots are special: it matches its own text. -/
def Regex.Literal (regex : Regex) : Prop :=
  ∀ s regExp, hasRegexTokens s = false → regex.comp (anchored s) = some regExp →
    ∀ str, regExp str = decide (str = s)

theorem hasRegexTokens_cons {c : Char} {s : Str} (h : hasRegexTokens (c :: s) = false) :
    isRegexToken c true = false := by
  unfold hasRegexTokens hasRegexTokensAux at h
  exact (Bool.or_eq_false_iff.mp h).1

theorem setPattern_fields {regex : Regex} {s : Str} {m : StringMatcher}
    (h : StringMatcher.setPattern regex s = some m) :
    m.hasRegexTokens = hasRegexTokens s ∧ m.pattern = s := by
  simp only [StringMatcher.setPattern] at h
  generalize parseRange _ = range at h
  split at h
  · split at h
    · cases h
      exact ⟨rfl, rfl⟩
    · cases h
  · cases h
    exact ⟨rfl, rfl⟩

theorem head_not_token {s : Str} (h : hasRegexTokens s = false) {c : Char} (hToken : isRegexToken c true = true)
    (rest : Str) : s ≠ c :: rest := by
  rintro rfl
  rw [hasRegexTokens_cons h] at hToken
  cases hToken

/-- A pattern without tokens matches the one name that it spells. -/
theorem isMatch_of_unique {regex : Regex} (hLiteral : regex.Literal) {s : Str} {m : StringMatcher}
    (hSet : StringMatcher.setPattern regex s = some m) (hUnique : m.isPatternUnique = true) (str : Str) :
    m.isMatch str = decide (str = m.pattern) := by
  obtain ⟨hField, hPattern⟩ := setPattern_fields hSet
  have hTokens : hasRegexTokens s = false := by
    simp only [StringMatcher.isPatternUnique, Bool.and_eq_true, Bool.not_eq_true'] at hUnique
    rw [← hField]
    exact hUnique.1.1
  have hNegate : s.head? ≠ some '~' := by
    intro hHead
    obtain ⟨rest, hRest⟩ := List.head?_eq_some_iff.mp hHead
    exact head_not_token hTokens (by decide) rest hRest
  have hRange : parseRange s = (MUSCLE_NO_LIMIT, MUSCLE_NO_LIMIT) := by
    unfold parseRange
    split
    · rename_i inner
      exact absurd rfl (head_not_token hTokens (by decide) inner)
    · rfl
  have hEscape : s.take 2 ≠ ['\\', '<'] := by
    intro hTake
    cases s with
    | nil => cases hTake
    | cons c s =>
      rw [List.take_succ_cons] at hTake
      obtain rfl := (List.cons.inj hTake).1
      exact head_not_token hTokens (by decide) s rfl
  simp only [StringMatcher.setPattern, hNegate, decide_false, Bool.false_eq_true, if_false, hRange, if_true,
    if_neg hEscape] at hSet
  split at hSet
  · rename_i regExp hComp
    cases hSet
    simp only [StringMatcher.isMatch, if_true, Bool.false_eq_true, if_false]
    exact hLiteral s regExp hTokens hComp str
  · cases hSet

end BeShare.Muscle.Reflect
