import Mathlib.Data.List.Basic
import Mathlib.Data.Option.Basic

/-!
Extended regular expressions of POSIX 1003.2: how they are written, and what they match. Where the standard leaves a
text undefined there is no expression, but for `()`, which matches the empty string.
-/

namespace BeShare.Lib

inductive Ere where
  | empty
  /-- One character. -/
  | one (accepts : Char → Bool)
  /-- `^` -/
  | start
  /-- `$` -/
  | finish
  | seq (r s : Ere)
  | alt (r s : Ere)
  /-- At least `min` times, at most `max` times if that is given. -/
  | rep (r : Ere) (min : Nat) (max : Option Nat)

namespace Ere

/-! ### Matching -/

/-- Of a part of a string, with the string beginning where it begins, and ending where it ends: is it a match? -/
abbrev Matcher := Bool → Bool → List Char → Bool

/-- The ways to cut a list in two. -/
def cuts {α : Type} : List α → List (List α × List α)
  | [] => [([], [])]
  | c :: s => ([], c :: s) :: (cuts s).map fun cut => (c :: cut.1, cut.2)

/-- One match and behind it another. -/
def chain (p q : Matcher) : Matcher := fun first last s =>
  (cuts s).any fun cut => p first (last && cut.2.isEmpty) cut.1 && q (first && cut.1.isEmpty) last cut.2

def times (p : Matcher) : Nat → Matcher
  | 0 => fun _ _ s => s.isEmpty
  | k + 1 => chain p (times p k)

def accepts : Ere → Matcher
  | empty => fun _ _ s => s.isEmpty
  | one p => fun _ _ s =>
    match s with
    | [c] => p c
    | _ => false
  | start => fun first _ s => first && s.isEmpty
  | finish => fun _ last s => last && s.isEmpty
  | seq r s => chain r.accepts s.accepts
  | alt r s => fun first last str => r.accepts first last str || s.accepts first last str
  | rep r min max => fun first last s =>
    -- of more repetitions some would be empty
    (List.range (max.getD (min + s.length) + 1)).any fun k => decide (min ≤ k) && times r.accepts k first last s

/-- Some part of the string is a match. -/
def search (r : Ere) (str : List Char) : Bool :=
  (cuts str).any fun cut => (cuts cut.2).any fun inner => r.accepts cut.1.isEmpty inner.2.isEmpty inner.1

/-- A character that stands for itself. -/
def exactly (c : Char) : Char → Bool :=
  (· == c)

/-! ### Bracket expressions -/

/-- The classes of the characters of the portable set. -/
def charClass (name : List Char) : Option (Char → Bool) :=
  let graph (c : Char) : Bool := decide (33 ≤ c.toNat) && decide (c.toNat ≤ 126)
  match String.ofList name with
  | "alnum" => some Char.isAlphanum
  | "alpha" => some Char.isAlpha
  | "blank" => some fun c => c == ' ' || c == '\t'
  | "cntrl" => some fun c => decide (c.toNat < 32) || c.toNat == 127
  | "digit" => some Char.isDigit
  | "graph" => some graph
  | "lower" => some Char.isLower
  | "print" => some fun c => graph c || c == ' '
  | "punct" => some fun c => graph c && !c.isAlphanum
  | "space" => some fun c => c == ' ' || decide (9 ≤ c.toNat) && decide (c.toNat ≤ 13)
  | "upper" => some Char.isUpper
  | "xdigit" => some fun c => c.isDigit || c.toUpper.isAlpha && decide (c.toUpper ≤ 'F')
  | _ => none

/-- What follows `[.`: a collating element of one character. With it, how long the text is. -/
def collatingElement : List Char → Option (Char × Nat)
  | c :: '.' :: ']' :: _ => some (c, 5)
  | _ => none

/-- A character or a collating element, and how long its text is. -/
def symbol : List Char → Option (Char × Nat)
  | '[' :: '.' :: str => collatingElement str
  | c :: _ => some (c, 1)
  | [] => none

/-- What follows `[:`, and how long the text is with it. -/
def classTerm (str : List Char) : Option ((Char → Bool) × Nat) :=
  match str.dropWhile Char.isAlpha with
  | ':' :: ']' :: _ =>
    (charClass (str.takeWhile Char.isAlpha)).map fun p => (p, (str.takeWhile Char.isAlpha).length + 4)
  | _ => none

/-- What follows `[=`, and how long the text is with it. -/
def equivalenceTerm : List Char → Option ((Char → Bool) × Nat)
  | c :: '=' :: ']' :: _ => if c = '-' ∨ c = ']' then none else some (exactly c, 5)
  | _ => none

/-- What follows a symbol that may begin a range. -/
def rangeEnd (low : Char) (k : Nat) : List Char → Option ((Char → Bool) × Nat)
  | '-' :: c :: rest =>
    if c = ']' then some (exactly low, k)
    else
      match if c = '-' then some ('-', 1) else symbol (c :: rest) with
      | none => none
      | some (high, n) =>
        if low ≤ high then some (fun c => decide (low ≤ c) && decide (c ≤ high), k + 1 + n) else none
  | _ => some (exactly low, k)

/-- A range or a character. -/
def rangeTerm (str : List Char) : Option ((Char → Bool) × Nat) :=
  match symbol str with
  | none => none
  | some (low, k) => rangeEnd low k (str.drop k)

/-- A term of the list, and how long its text is. -/
def term : List Char → Option ((Char → Bool) × Nat)
  | '[' :: ':' :: str => classTerm str
  | '[' :: '=' :: str => equivalenceTerm str
  | str => rangeTerm str

/-- The list up to the closing bracket, with what of a term is still to be skipped. -/
def members : Nat → List Char → Option ((Char → Bool) × Nat)
  | _, [] => none
  | skip + 1, _ :: str => (members skip str).map fun list => (list.1, list.2 + 1)
  | 0, c :: str =>
    if c = ']' then some (fun _ => false, 1)
    else if c = '-' then if str.head? = some ']' then some (exactly '-', 2) else none
    else
      match term (c :: str) with
      | none => none
      | some (p, k) => (members (k - 1) str).map fun list => (fun c => p c || list.1 c, list.2 + 1)

/-- A bracket or a hyphen at the front of the list stands for itself. -/
def bracketList (str : List Char) : Option ((Char → Bool) × Nat) :=
  match str with
  | [] => none
  | c :: rest =>
    if c = ']' ∨ c = '-' then (members 0 rest).map fun list => (fun d => d == c || list.1 d, list.2 + 1)
    else members 0 str

/-- What follows an opening bracket. -/
def bracket (str : List Char) : Option ((Char → Bool) × Nat) :=
  match str with
  | '^' :: rest => (bracketList rest).map fun list => (fun c => !list.1 c, list.2 + 1)
  | _ => bracketList str

/-! ### Tokens -/

inductive Token where
  | one (accepts : Char → Bool)
  | rep (min : Nat) (max : Option Nat)
  | bar
  | opening
  | closing
  | start
  | finish

def RE_DUP_MAX : Nat := 255

def number (digits : List Char) : Nat :=
  digits.foldl (fun n c => 10 * n + (c.toNat - 48)) 0

/-- What follows the comma of a bound that is `k` digits long so far. -/
def upperBound (min k : Nat) (str : List Char) : Option (Token × Nat) :=
  let upper := str.takeWhile Char.isDigit
  if str.head? = some '}' then some (.rep min none, k + 2)
  else if RE_DUP_MAX < number upper ∨ number upper < min then none
  else
    match str.dropWhile Char.isDigit with
    | '}' :: _ => some (.rep min (some (number upper)), k + (upper.length + 2))
    | _ => none

/-- What follows an opening brace. -/
def bound (str : List Char) : Option (Token × Nat) :=
  let lower := str.takeWhile Char.isDigit
  if RE_DUP_MAX < number lower then none
  else
    match str.dropWhile Char.isDigit with
    | '}' :: _ => some (.rep (number lower) (some (number lower)), lower.length + 1)
    | ',' :: str => upperBound (number lower) lower.length str
    | _ => none

/-- The token that a character stands for that needs nothing behind it. -/
def Token.ofChar : Char → Token
  | '|' => .bar
  | '(' => .opening
  | ')' => .closing
  | '^' => .start
  | '$' => .finish
  | '*' => .rep 0 none
  | '+' => .rep 1 none
  | '?' => .rep 0 (some 1)
  | '.' => .one fun _ => true
  | c => .one (exactly c)

section

variable (escapes : Char → Bool)

/-- The token that begins with a character, and how much of what follows belongs to it. A brace without a digit behind
it is a character. -/
def tokenAt (c : Char) (str : List Char) : Option (Token × Nat) :=
  if c = '\\' then
    match str with
    | [] => none
    | d :: _ => if escapes d then some (.one (exactly d), 1) else none
  else if c = '[' then (bracket str).map fun list => (.one list.1, list.2)
  else if c = '{' ∧ str.head?.any Char.isDigit then bound str
  else some (.ofChar c, 0)

/-- The tokens of a text, with what of the last one is still to be skipped. A backslash may stand before the characters
that `escapes` names. -/
def lex : Nat → List Char → Option (List Token)
  | _, [] => some []
  | skip + 1, _ :: str => lex skip str
  | 0, c :: str =>
    match tokenAt escapes c str with
    | none => none
    | some (t, k) => (lex k str).map (t :: ·)

end

/-! ### Parsing -/

/-- What has been read of an expression: its branches before the last bar, the pieces of its last branch from right to
left, and whether the last piece may be repeated. -/
structure Pending where
  earlier : Option Ere
  pieces : List Ere
  repeatable : Bool

namespace Pending

def new : Pending :=
  ⟨none, [], false⟩

def push (e : Pending) (r : Ere) (repeatable : Bool) : Pending :=
  ⟨e.earlier, r :: e.pieces, repeatable⟩

/-- Branches must not be empty. -/
def branches (e : Pending) : Option Ere :=
  match e.pieces with
  | [] => none
  | pieces =>
    let branch := pieces.foldl (fun r piece => .seq piece r) .empty
    some (e.earlier.elim branch (.alt · branch))

/-- Between parentheses there may be nothing. -/
def group (e : Pending) : Option Ere :=
  if e.earlier.isNone && e.pieces.isEmpty then some .empty else e.branches

end Pending

/-- A token is read in the innermost parentheses; the others are open around them. -/
def step : Pending × List Pending → Token → Option (Pending × List Pending)
  | (e, outer), .one p => some (e.push (.one p) true, outer)
  | (e, outer), .start => some (e.push .start false, outer)
  | (e, outer), .finish => some (e.push .finish true, outer)
  | (e, outer), .rep min max =>
    match e.pieces with
    | [] => none
    | r :: pieces => if e.repeatable then some (⟨e.earlier, .rep r min max :: pieces, false⟩, outer) else none
  | (e, outer), .bar => e.branches.map fun r => (⟨some r, [], false⟩, outer)
  | (e, outer), .opening => some (.new, e :: outer)
  | (_, []), .closing => none
  | (e, e' :: outer), .closing => e.group.map fun r => (e'.push r true, outer)

def parseTokens (tokens : List Token) : Option Ere :=
  (tokens.foldlM step (.new, [])).bind fun state =>
    match state.2 with
    | [] => state.1.branches
    | _ :: _ => none

/-- The expression of a text. -/
def parse (escapes : Char → Bool) (str : List Char) : Option Ere :=
  (lex escapes 0 str).bind parseTokens

/-! ### Rules -/

section

variable {α : Type} {p q : Matcher} {first last : Bool} {c : Char} {s str : List Char} {r t : Ere}

theorem mem_cuts {l : List α} {cut : List α × List α} : cut ∈ cuts l ↔ cut.1 ++ cut.2 = l := by
  induction l generalizing cut with
  | nil =>
    rw [cuts, List.mem_singleton, List.append_eq_nil_iff]
    exact Prod.ext_iff
  | cons a l ih =>
    obtain ⟨x, y⟩ := cut
    rw [cuts, List.mem_cons, List.mem_map]
    cases x with
    | nil => simp
    | cons b x => simp [ih, and_comm, and_left_comm, eq_comm]

theorem chain_iff : chain p q first last s = true ↔
    ∃ x y, x ++ y = s ∧ p first (last && y.isEmpty) x = true ∧ q (first && x.isEmpty) last y = true := by
  simp only [chain, List.any_eq_true, mem_cuts, Bool.and_eq_true, Prod.exists]

theorem accepts_one {p : Char → Bool} :
    (one p).accepts first last s = true ↔ ∃ c, s = [c] ∧ p c = true := by
  unfold accepts
  split
  · simp
  · rename_i h
    exact iff_of_false Bool.false_ne_true fun ⟨c, hs, _⟩ => h c hs

theorem accepts_start : start.accepts first last s = true ↔ first = true ∧ s = [] := by
  simp [accepts]

theorem accepts_finish : finish.accepts first last s = true ↔ last = true ∧ s = [] := by
  simp [accepts]

theorem search_iff : r.search str = true ↔ ∃ before s after, before ++ (s ++ after) = str ∧
    r.accepts before.isEmpty after.isEmpty s = true := by
  simp only [search, List.any_eq_true, mem_cuts, Prod.exists]
  constructor
  · rintro ⟨before, _, hCut, s, after, rfl, h⟩
    exact ⟨before, s, after, hCut, h⟩
  · rintro ⟨before, s, after, hCut, h⟩
    exact ⟨before, _, hCut, s, after, rfl, h⟩

/-- Between the anchors is the whole string. -/
theorem search_anchored : (seq start (seq r (seq finish empty))).search str = r.accepts true true str := by
  rw [Bool.eq_iff_iff, search_iff]
  simp only [accepts, chain_iff, Bool.and_eq_true, List.isEmpty_iff]
  constructor
  · rintro ⟨_, _, after, hStr, _, _, rfl, ⟨hBefore, rfl⟩, s, _, rfl, hr, _, _, rfl, ⟨hAfter, rfl⟩, rfl⟩
    simp_all
  · intro h
    exact ⟨[], str, [], by simp, [], str, rfl, by simp, str, [], by simp, by simpa using h, [], [], rfl, by simp, rfl⟩

end

/-! ### Texts that spell a string -/

/-- A character that stands for itself whatever follows. -/
def ordinary (c : Char) : Bool :=
  decide (c ∉ ['\\', '[', '{', '|', '(', ')', '^', '$', '*', '+', '?', '.'])

/-- The string has each character of the text that is ordinary, or behind a backslash. -/
inductive Spells (escapes : Char → Bool) : List Char → List Char → Prop
  | nil : Spells escapes [] []
  | plain {c : Char} {p s : List Char} : ordinary c = true → Spells escapes p s → Spells escapes (c :: p) (c :: s)
  | escaped {c : Char} {p s : List Char} :
      escapes c = true → Spells escapes p s → Spells escapes ('\\' :: c :: p) (c :: s)

section

variable {escapes : Char → Bool} {p s rest str : List Char} {c : Char}

theorem ofChar_ordinary (h : ordinary c = true) : Token.ofChar c = .one (exactly c) := by
  unfold Token.ofChar
  split <;> first | rfl | exact absurd h (by decide)

theorem lex_cons : lex escapes 0 (c :: s) =
    (tokenAt escapes c s).bind fun t => (lex escapes t.2 s).map (t.1 :: ·) := by
  rw [lex]
  cases tokenAt escapes c s <;> rfl

theorem tokenAt_ordinary (h : ordinary c = true) : tokenAt escapes c s = some (.one (exactly c), 0) := by
  have hc := of_decide_eq_true h
  simp only [List.mem_cons, not_or] at hc
  unfold tokenAt
  rw [if_neg hc.1, if_neg hc.2.1, if_neg fun hBrace => hc.2.2.1 hBrace.1, ofChar_ordinary h]

theorem tokenAt_escaped (h : escapes c = true) : tokenAt escapes '\\' (c :: s) = some (.one (exactly c), 1) := by
  unfold tokenAt
  rw [if_pos rfl]
  exact if_pos h

theorem lex_spelled (h : Spells escapes p s) :
    lex escapes 0 (p ++ rest) = (lex escapes 0 rest).map (s.map (fun c => .one (exactly c)) ++ ·) := by
  induction h with
  | nil => exact Option.map_id'.symm ▸ rfl
  | plain hc _ ih =>
    rw [List.cons_append, lex_cons, tokenAt_ordinary hc, Option.bind_some, ih, Option.map_map]
    rfl
  | escaped hc _ ih =>
    rw [List.cons_append, List.cons_append, lex_cons, tokenAt_escaped hc, Option.bind_some, lex, ih, Option.map_map]
    rfl

/-- Characters go to the branch one by one. -/
theorem foldlM_ones (s : List Char) (e : Pending) (outer : List Pending) :
    ∃ repeatable, (s.map fun c => Token.one (exactly c)).foldlM step (e, outer) =
      some (⟨e.earlier, (s.map fun c => one (exactly c)).reverse ++ e.pieces, repeatable⟩, outer) := by
  induction s generalizing e with
  | nil => exact ⟨e.repeatable, rfl⟩
  | cons c s ih =>
    obtain ⟨repeatable, h⟩ := ih (e.push (.one (exactly c)) true)
    refine ⟨repeatable, ?_⟩
    rw [List.map_cons, List.foldlM_cons, step, Option.bind_eq_bind, Option.bind_some, h, List.map_cons,
      List.reverse_cons, List.append_assoc]
    rfl

/-- The branch of the characters of a string. -/
def spelling (s : List Char) : Ere :=
  s.foldr (fun c => seq (one (exactly c))) empty

theorem accepts_spelling {first last : Bool} : (spelling s).accepts first last str = decide (str = s) := by
  rw [Bool.eq_iff_iff, decide_eq_true_iff]
  induction s generalizing first str with
  | nil => simp [spelling, accepts]
  | cons c s ih =>
    rw [spelling, List.foldr_cons, accepts, chain_iff]
    simp only [accepts_one, exactly, beq_iff_eq]
    constructor
    · rintro ⟨_, y, rfl, ⟨_, rfl, rfl⟩, hRest⟩
      rw [ih.mp hRest, List.singleton_append]
    · rintro rfl
      exact ⟨[c], s, rfl, ⟨c, rfl, rfl⟩, ih.mpr rfl⟩

theorem group_ones (repeatable : Bool) :
    (Pending.mk none ((s.map fun c => one (exactly c)).reverse ++ []) repeatable).group = some (spelling s) := by
  cases s with
  | nil => rfl
  | cons c s =>
    have hNe : (((c :: s).map fun c => one (exactly c)).reverse ++ []) ≠ [] := by simp
    obtain ⟨r, pieces, hPieces⟩ := List.exists_cons_of_ne_nil hNe
    rw [Pending.group, hPieces]
    simp only [List.isEmpty_cons, Bool.and_false, Bool.false_eq_true, if_false, Pending.branches]
    rw [← hPieces, List.append_nil, List.foldl_reverse, List.foldr_map]
    rfl

/-- Between anchors a text matches the string that it spells, and no other. -/
theorem search_spelled (h : Spells escapes p s) :
    ∃ r, parse escapes (['^', '('] ++ p ++ [')', '$']) = some r ∧ ∀ str, r.search str = decide (str = s) := by
  obtain ⟨repeatable, hOnes⟩ := foldlM_ones s .new [Pending.new.push .start false]
  have hLex : lex escapes 0 (['^', '('] ++ p ++ [')', '$']) =
      some (.start :: .opening :: (s.map (fun c => .one (exactly c)) ++ [.closing, .finish])) := by
    rw [List.append_assoc, List.cons_append, lex_cons]
    change (lex escapes 0 ('(' :: (p ++ [')', '$']))).map _ = _
    rw [lex_cons]
    change ((lex escapes 0 (p ++ [')', '$'])).map _).map _ = _
    rw [lex_spelled h]
    rfl
  refine ⟨seq start (seq (spelling s) (seq finish empty)), ?_, fun str => search_anchored.trans accepts_spelling⟩
  rw [parse, hLex, Option.bind_some, parseTokens]
  simp only [List.foldlM_cons, List.foldlM_append, step, Option.bind_eq_bind, Option.bind_some]
  rw [hOnes]
  simp only [Option.bind_some, Pending.new, group_ones, Option.map_some, List.foldlM_nil]
  rfl

end

end Ere

end BeShare.Lib
