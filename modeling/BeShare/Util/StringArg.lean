import BeShare.Util.StringReplace
import Mathlib.Data.List.TakeWhile

/-! `String::Arg`: the placeholders of a template, the search for the lowest number among them, and the replacement of
its text. -/

namespace BeShare.Muscle.Strings

open BeShare.Lib

def isDigit (c : UInt8) : Bool :=
  decide (48 ≤ c) && decide (c ≤ 57)

/-- The number that the digits spell. -/
def number (digits : List UInt8) : Nat :=
  digits.foldl (fun val c => 10 * val + (c.toNat - 48)) 0

/-- `atol` of a text that starts with a digit. It says nothing about a number that is too large. -/
def atol (s : List UInt8) : Option Nat :=
  let val := number (s.takeWhile isDigit)
  if val < 2 ^ 31 then some val else none

/-- The loop of `ArgAux` that finds the lowest number, which is -1 at first. -/
def scanLoop : Nat → List UInt8 → Int → Option Int
  | 0, _, _ => none
  | _ + 1, [], lowestArg => some lowestArg
  | fuel + 1, c :: s, lowestArg =>
    if c = 37 then
      if s.head?.any isDigit then do
        let val ← atol s
        scanLoop fuel (s.dropWhile isDigit) (if lowestArg < 0 then val else min (val : Int) lowestArg)
      else scanLoop fuel s lowestArg
    else scanLoop fuel s lowestArg

/-- The characters of `"%li"`. -/
def decimal (n : Nat) : List UInt8 :=
  (Nat.toDigits 10 n).map Char.toUInt8

theorem isDigit_toUInt8 {c : Char} (h : c.isDigit = true) : isDigit c.toUInt8 = true := by
  rw [Char.isDigit, Bool.and_eq_true, decide_eq_true_eq, decide_eq_true_eq] at h
  have hVal : c.toUInt8.toNat = c.val.toNat := by
    have hSmall : c.val.toNat ≤ 57 := h.2
    rw [Char.toUInt8, UInt32.toNat_toUInt8, Nat.mod_eq_of_lt (by omega)]
  have hLow : (48 : UInt8) ≤ c.toUInt8 := by
    rw [UInt8.le_iff_toNat_le, hVal]
    exact h.1
  have hHigh : c.toUInt8 ≤ (57 : UInt8) := by
    rw [UInt8.le_iff_toNat_le, hVal]
    exact h.2
  rw [isDigit, decide_eq_true hLow, decide_eq_true hHigh]
  rfl

theorem decimal_digits (n : Nat) : ∀ c ∈ decimal n, isDigit c = true := by
  intro c hc
  obtain ⟨d, hd, rfl⟩ := List.mem_map.mp hc
  exact isDigit_toUInt8 (Nat.isDigit_of_mem_toDigits (by decide) (by decide) hd)

theorem decimal_ne_nil (n : Nat) : decimal n ≠ [] := fun h => Nat.toDigits_ne_nil (List.map_eq_nil_iff.mp h)

theorem isDigit_ne {c d : UInt8} (h : isDigit c = true) (hd : isDigit d = false) : c ≠ d := by
  rintro rfl
  rw [h] at hd
  cases hd

/-- The text that `ArgAux` replaces. -/
def placeholder (n : Nat) : List UInt8 :=
  37 :: decimal n

theorem placeholder_ne_nil (n : Nat) : placeholder n ≠ [] :=
  List.cons_ne_nil _ _

theorem length_placeholder {n : Nat} (h : n < 2 ^ 31) : (placeholder n).length ≤ 11 := by
  rw [placeholder, List.length_cons, decimal, List.length_map, Nat.succ_le_succ_iff,
    Nat.length_toDigits_le_iff (by decide) (by decide)]
  omega

/-- `token` as a string. -/
def placeholderString (n : Nat) (h : n < 2 ^ 31) : MuscleString where
  chars := placeholder n
  slack := []
  noNul hMem := by
    rcases List.mem_cons.mp hMem with hZero | hMem
    · cases hZero
    · exact isDigit_ne (decimal_digits n _ hMem) (by decide) rfl
  short := by
    have hLength := length_placeholder h
    omega

/-- `ArgAux`. The template is copied, and there is memory for the copies. An `int32` is always less than `2 ^ 31`. -/
def argAux (memory : Memory) (s buf : MuscleString) : Option Replaced := do
  let lowestArg ← scanLoop (s.chars.length + 1) s.chars (-1)
  if h : 0 ≤ lowestArg ∧ lowestArg < 2 ^ 31 then
    replace memory s (.other (placeholderString lowestArg.toNat (by omega))) (.other buf)
  else return ⟨s.buffer, s.chars.length, 0⟩

/-! ### The placeholders of a template -/

/-- A character that belongs to no placeholder, or a placeholder with its digits. -/
inductive Piece where
  | text (c : UInt8)
  | token (digits : List UInt8)

def Piece.chars : Piece → List UInt8
  | text c => [c]
  | token digits => 37 :: digits

def Piece.digits? : Piece → Option (List UInt8)
  | text _ => none
  | token digits => some digits

/-- The first `n` pieces. The digits of a placeholder are all that stand behind its `%`. -/
def takePieces : Nat → List UInt8 → List Piece
  | 0, _ => []
  | _ + 1, [] => []
  | n + 1, c :: s =>
    if c = 37 ∧ s.head?.any isDigit then .token (s.takeWhile isDigit) :: takePieces n (s.dropWhile isDigit)
    else .text c :: takePieces n s

def pieces (s : List UInt8) : List Piece :=
  takePieces s.length s

/-- The digits of the placeholders. -/
def tokensOf (s : List UInt8) : List (List UInt8) :=
  (pieces s).filterMap Piece.digits?

/-- The smallest number of a placeholder. -/
def lowest (s : List UInt8) : Option Nat :=
  ((tokensOf s).map number).min?

/-- The template with the argument in the place of the placeholders with the number `n`. -/
def fillNumber (n : Nat) (arg : List UInt8) (s : List UInt8) : List UInt8 :=
  (pieces s).flatMap fun piece =>
    match piece with
    | .text c => [c]
    | .token digits => if number digits = n then arg else 37 :: digits

/-- The template with the argument in the place of the placeholders with the smallest number. -/
def fillLowest (arg s : List UInt8) : List UInt8 :=
  match lowest s with
  | some n => fillNumber n arg s
  | none => s

/-- No digit comes next. -/
def Ended (s : List UInt8) : Prop :=
  ∀ c ∈ s.head?, isDigit c = false

variable {d s : List UInt8} {c : UInt8}

theorem takeWhile_digits (hd : ∀ c ∈ d, isDigit c = true) (hs : Ended s) :
    (d ++ s).takeWhile isDigit = d ∧ (d ++ s).dropWhile isDigit = s := by
  have hRest : s.takeWhile isDigit = [] ∧ s.dropWhile isDigit = s := by
    cases s with
    | nil => exact ⟨rfl, rfl⟩
    | cons c s =>
      have hc : ¬isDigit c = true := by rw [hs c rfl]; exact Bool.false_ne_true
      exact ⟨List.takeWhile_cons_of_neg hc, List.dropWhile_cons_of_neg hc⟩
  rw [List.takeWhile_append_of_pos hd, List.dropWhile_append_of_pos hd, hRest.1, hRest.2, List.append_nil]
  exact ⟨rfl, rfl⟩

theorem head?_digits (h : d ≠ []) (hd : ∀ c ∈ d, isDigit c = true) (s : List UInt8) :
    (d ++ s).head?.any isDigit = true := by
  obtain ⟨c, d, rfl⟩ := List.exists_cons_of_ne_nil h
  exact hd c List.mem_cons_self

/-- A text is empty, or starts with a placeholder, or with a character that belongs to none. -/
theorem piece_cases {motive : List UInt8 → Prop} (nil : motive [])
    (token : ∀ d s, d ≠ [] → (∀ c ∈ d, isDigit c = true) → Ended s → motive s → motive (37 :: (d ++ s)))
    (text : ∀ c s, ¬(c = 37 ∧ s.head?.any isDigit) → motive s → motive (c :: s)) (s : List UInt8) : motive s := by
  induction hLength : s.length using Nat.strongRecOn generalizing s with
  | ind n ih =>
    cases s with
    | nil => exact nil
    | cons c s =>
      rw [List.length_cons] at hLength
      by_cases hToken : c = 37 ∧ s.head?.any isDigit
      · obtain ⟨rfl, hHead⟩ := hToken
        have hSplit := List.takeWhile_append_dropWhile (p := isDigit) (l := s)
        have hDigits : s.takeWhile isDigit ≠ [] := by
          cases s with
          | nil => cases hHead
          | cons c s =>
            have hc : isDigit c = true := hHead
            rw [List.takeWhile_cons_of_pos hc]
            exact List.cons_ne_nil _ _
        have hEnded : Ended (s.dropWhile isDigit) := by
          intro c hc
          have hNot := List.head?_dropWhile_not isDigit s
          rw [Option.mem_def] at hc
          rw [hc] at hNot
          exact hNot
        have hShorter := congrArg List.length hSplit
        rw [List.length_append] at hShorter
        have hPos := List.length_pos_iff.mpr hDigits
        rw [← hSplit]
        exact token _ _ hDigits (fun c hc => List.mem_takeWhile_imp hc) hEnded (ih _ (by omega) _ rfl)
      · exact text c s hToken (ih _ (by omega) s rfl)

theorem takePieces_of_le {n m : Nat} (hn : s.length ≤ n) (hm : s.length ≤ m) : takePieces n s = takePieces m s := by
  induction s using piece_cases generalizing n m with
  | nil => cases n <;> cases m <;> rfl
  | token d s hNonempty hd hs ih =>
    simp only [List.length_cons, List.length_append] at hn hm
    obtain ⟨n, rfl⟩ : ∃ k, n = k + 1 := ⟨n - 1, by omega⟩
    obtain ⟨m, rfl⟩ : ∃ k, m = k + 1 := ⟨m - 1, by omega⟩
    obtain ⟨hTake, hDrop⟩ := takeWhile_digits hd hs
    have hHead := head?_digits hNonempty hd s
    rw [takePieces, takePieces, if_pos ⟨rfl, hHead⟩, if_pos ⟨rfl, hHead⟩, hDrop,
      ih (by omega : s.length ≤ n) (by omega : s.length ≤ m)]
  | text c s hText ih =>
    simp only [List.length_cons] at hn hm
    obtain ⟨n, rfl⟩ : ∃ k, n = k + 1 := ⟨n - 1, by omega⟩
    obtain ⟨m, rfl⟩ : ∃ k, m = k + 1 := ⟨m - 1, by omega⟩
    rw [takePieces, takePieces, if_neg hText, if_neg hText, ih (by omega : s.length ≤ n) (by omega : s.length ≤ m)]

theorem pieces_token (h : d ≠ []) (hd : ∀ c ∈ d, isDigit c = true) (hs : Ended s) :
    pieces (37 :: (d ++ s)) = .token d :: pieces s := by
  obtain ⟨hTake, hDrop⟩ := takeWhile_digits hd hs
  have hLe : s.length ≤ (d ++ s).length := by
    rw [List.length_append]
    omega
  rw [pieces, List.length_cons, takePieces, if_pos ⟨rfl, head?_digits h hd s⟩, hTake, hDrop,
    takePieces_of_le hLe (Nat.le_refl _), pieces]

theorem pieces_text (h : ¬(c = 37 ∧ s.head?.any isDigit)) : pieces (c :: s) = .text c :: pieces s := by
  rw [pieces, List.length_cons, takePieces, if_neg h, pieces]

/-- The pieces make up the template. -/
theorem flatMap_pieces (s : List UInt8) : (pieces s).flatMap Piece.chars = s := by
  induction s using piece_cases with
  | nil => rfl
  | token d s hNonempty hd hs ih =>
    rw [pieces_token hNonempty hd hs, List.flatMap_cons, ih, Piece.chars, List.cons_append]
  | text c s hText ih => rw [pieces_text hText, List.flatMap_cons, ih, Piece.chars, List.singleton_append]

theorem tokensOf_token (h : d ≠ []) (hd : ∀ c ∈ d, isDigit c = true) (hs : Ended s) :
    tokensOf (37 :: (d ++ s)) = d :: tokensOf s := by
  rw [tokensOf, pieces_token h hd hs]
  rfl

theorem tokensOf_text (h : ¬(c = 37 ∧ s.head?.any isDigit)) : tokensOf (c :: s) = tokensOf s := by
  rw [tokensOf, pieces_text h]
  rfl

/-! ### The search for the lowest number -/

/-- The number that is the lowest so far, after one more. -/
def lower (lowestArg : Int) (val : Nat) : Int :=
  if lowestArg < 0 then val else min (val : Int) lowestArg

theorem scanLoop_token (h : d ≠ []) (hd : ∀ c ∈ d, isDigit c = true) (hs : Ended s) (fuel : Nat) (lowestArg : Int) :
    scanLoop (fuel + 1) (37 :: (d ++ s)) lowestArg =
      if number d < 2 ^ 31 then scanLoop fuel s (lower lowestArg (number d)) else none := by
  obtain ⟨hTake, hDrop⟩ := takeWhile_digits hd hs
  rw [scanLoop, if_pos rfl, if_pos (head?_digits h hd s), atol, hTake, hDrop]
  split
  · rfl
  · rfl

/-- The scan goes over the numbers of the placeholders. -/
theorem scanLoop_eq {fuel : Nat} (hFuel : s.length < fuel) (lowestArg : Int) :
    scanLoop fuel s lowestArg =
      if ∀ d ∈ tokensOf s, number d < 2 ^ 31 then some (((tokensOf s).map number).foldl lower lowestArg) else none := by
  induction s using piece_cases generalizing fuel lowestArg with
  | nil =>
    obtain ⟨fuel, rfl⟩ : ∃ n, fuel = n + 1 := ⟨fuel - 1, by omega⟩
    rfl
  | token d s hNonempty hd hs ih =>
    simp only [List.length_cons, List.length_append] at hFuel
    obtain ⟨fuel, rfl⟩ : ∃ n, fuel = n + 1 := ⟨fuel - 1, by omega⟩
    rw [scanLoop_token hNonempty hd hs, tokensOf_token hNonempty hd hs, ih (by omega : s.length < fuel)]
    by_cases hSmall : number d < 2 ^ 31
    · simp only [List.forall_mem_cons, hSmall, if_true, true_and, List.map_cons, List.foldl_cons]
    · simp only [List.forall_mem_cons, hSmall, false_and, if_false]
  | text c s hText ih =>
    simp only [List.length_cons] at hFuel
    obtain ⟨fuel, rfl⟩ : ∃ n, fuel = n + 1 := ⟨fuel - 1, by omega⟩
    have hStep : scanLoop (fuel + 1) (c :: s) lowestArg = scanLoop fuel s lowestArg := by
      rw [scanLoop]
      split
      · rename_i hPercent
        rw [if_neg fun hHead => hText ⟨hPercent, hHead⟩]
      · rfl
    rw [hStep, tokensOf_text hText, ih (by omega : s.length < fuel)]

theorem foldl_lower_nonneg (l : List Nat) {n : Nat} : l.foldl lower n = ((l.foldl min n : Nat) : Int) := by
  induction l generalizing n with
  | nil => rfl
  | cons m l ih =>
    have hMin : lower n m = ((min n m : Nat) : Int) := by
      rw [lower, if_neg (by omega)]
      omega
    rw [List.foldl_cons, List.foldl_cons, hMin, ih]

theorem foldl_lower (l : List Nat) : l.foldl lower (-1) = match l.min? with | some n => (n : Int) | none => -1 := by
  cases l with
  | nil => rfl
  | cons n l =>
    rw [List.foldl_cons, List.min?_cons', lower, if_pos (by decide)]
    exact foldl_lower_nonneg l

/-! ### The replacement -/

/-- A text without `%` stays as it is. -/
theorem replaceAll_plain {n : Nat} {e : List UInt8} (he : 37 ∉ e) (arg s : List UInt8) :
    replaceAll (placeholder n) arg (e ++ s) = e ++ replaceAll (placeholder n) arg s := by
  induction e with
  | nil => rfl
  | cons c e ih =>
    rw [List.mem_cons, not_or] at he
    have hNot : ¬placeholder n <+: c :: (e ++ s) := fun hPrefix => he.1 (List.cons_prefix_cons.mp hPrefix).1
    rw [List.cons_append, replaceAll_cons hNot, ih he.2, List.cons_append]

theorem percent_not_digit (hd : ∀ c ∈ d, isDigit c = true) : 37 ∉ d := fun hMem =>
  isDigit_ne (hd 37 hMem) (by decide) rfl

/-- A word of digits that a placeholder's digits do not start with does not stand there. -/
theorem prefix_digits {e : List UInt8} (he : ∀ c ∈ e, isDigit c = true) (hs : Ended s) (h : e <+: d ++ s) :
    e <+: d := by
  induction e generalizing d with
  | nil => exact List.nil_prefix
  | cons c e ih =>
    cases d with
    | nil =>
      obtain ⟨t, rfl⟩ := h
      exact absurd (he c List.mem_cons_self) (by rw [hs c rfl]; exact Bool.false_ne_true)
    | cons x d =>
      obtain ⟨rfl, hRest⟩ := List.cons_prefix_cons.mp h
      exact List.cons_prefix_cons.mpr ⟨rfl, ih (fun c hc => he c (List.mem_cons_of_mem _ hc)) hRest⟩

/-- The replacement of a placeholder's text replaces the start of each placeholder that begins with its digits. -/
theorem replaceAll_token {n : Nat} (hd : ∀ c ∈ d, isDigit c = true) (hs : Ended s) (arg : List UInt8) :
    replaceAll (placeholder n) arg (37 :: (d ++ s)) =
      (if decimal n <+: d then arg ++ d.drop (decimal n).length else 37 :: d) ++
        replaceAll (placeholder n) arg s := by
  by_cases hPrefix : decimal n <+: d
  · obtain ⟨e, rfl⟩ := hPrefix
    have hPlain : 37 ∉ e := percent_not_digit fun c hc => hd c (List.mem_append_right _ hc)
    have hSplit : 37 :: (decimal n ++ e ++ s) = placeholder n ++ (e ++ s) := by
      rw [placeholder, List.cons_append, List.append_assoc]
    rw [if_pos (List.prefix_append _ _), List.drop_left, hSplit, replaceAll_word (placeholder_ne_nil n),
      replaceAll_plain hPlain, List.append_assoc]
  · have hNot : ¬placeholder n <+: 37 :: (d ++ s) := fun h =>
      hPrefix (prefix_digits (decimal_digits n) hs (List.cons_prefix_cons.mp h).2)
    rw [if_neg hPrefix, replaceAll_cons hNot, replaceAll_plain (percent_not_digit hd), List.cons_append]

theorem replaceAll_text {n : Nat} (h : ¬(c = 37 ∧ s.head?.any isDigit)) (arg : List UInt8) :
    replaceAll (placeholder n) arg (c :: s) = c :: replaceAll (placeholder n) arg s := by
  refine replaceAll_cons fun hPrefix => ?_
  obtain ⟨rfl, t, hRest⟩ := List.cons_prefix_cons.mp hPrefix
  refine h ⟨rfl, ?_⟩
  rw [← hRest]
  exact head?_digits (decimal_ne_nil n) (decimal_digits n) t

theorem fillNumber_token {n : Nat} (h : d ≠ []) (hd : ∀ c ∈ d, isDigit c = true) (hs : Ended s) (arg : List UInt8) :
    fillNumber n arg (37 :: (d ++ s)) = (if number d = n then arg else 37 :: d) ++ fillNumber n arg s := by
  rw [fillNumber, pieces_token h hd hs]
  rfl

theorem fillNumber_text {n : Nat} (h : ¬(c = 37 ∧ s.head?.any isDigit)) (arg : List UInt8) :
    fillNumber n arg (c :: s) = c :: fillNumber n arg s := by
  rw [fillNumber, pieces_text h]
  rfl

/-- The digits `d` are those of the number `n`, or spell another number and do not start with the digits of `n`. -/
def Distinct (n : Nat) (d : List UInt8) : Prop :=
  if number d = n then d = decimal n else ¬decimal n <+: d

theorem replaceAll_eq_fillNumber {n : Nat} (h : ∀ d ∈ tokensOf s, Distinct n d) (arg : List UInt8) :
    replaceAll (placeholder n) arg s = fillNumber n arg s := by
  induction s using piece_cases with
  | nil => rfl
  | token d s hNonempty hd hs ih =>
    rw [tokensOf_token hNonempty hd hs, List.forall_mem_cons] at h
    obtain ⟨hHere, hRest⟩ := h
    rw [replaceAll_token hd hs, fillNumber_token hNonempty hd hs, ih hRest]
    unfold Distinct at hHere
    by_cases hNumber : number d = n
    · rw [if_pos hNumber] at hHere
      rw [if_pos hNumber, hHere, if_pos List.prefix_rfl, List.drop_length, List.append_nil]
    · rw [if_neg hNumber] at hHere
      rw [if_neg hNumber, if_neg hHere]
  | text c s hText ih =>
    rw [tokensOf_text hText] at h
    rw [replaceAll_text hText, fillNumber_text hText, ih h]

/-- What is filled in for a placeholder does not start with a digit. -/
theorem ended_fillNumber {n : Nat} (hs : Ended s) : Ended (fillNumber n [120] s) := by
  induction s using piece_cases with
  | nil => exact hs
  | token d s hNonempty hd hEnded ih =>
    rw [fillNumber_token hNonempty hd hEnded]
    intro c hc
    split at hc
    · cases hc
      decide
    · cases hc
      decide
  | text c s hText ih =>
    rw [fillNumber_text hText]
    exact hs

/-- With `x` for the argument each placeholder can be seen in the result. -/
theorem distinct_of_eq {n : Nat} (h : replaceAll (placeholder n) [120] s = fillNumber n [120] s) :
    ∀ d ∈ tokensOf s, Distinct n d := by
  induction s using piece_cases with
  | nil => exact List.forall_mem_nil _
  | token d s hNonempty hd hs ih =>
    rw [replaceAll_token hd hs, fillNumber_token hNonempty hd hs] at h
    rw [tokensOf_token hNonempty hd hs, List.forall_mem_cons, Distinct]
    by_cases hNumber : number d = n
    · rw [if_pos hNumber] at h ⊢
      by_cases hPrefix : decimal n <+: d
      · rw [if_pos hPrefix, List.append_assoc] at h
        have hTail := List.append_cancel_left h
        obtain ⟨e, rfl⟩ := hPrefix
        rw [List.drop_left] at hTail
        -- a digit more would stand behind the argument
        cases e with
        | nil => exact ⟨List.append_nil _, ih hTail⟩
        | cons c e =>
          have hEnded := ended_fillNumber (n := n) hs
          rw [← hTail] at hEnded
          have hDigit := hd c (List.mem_append_right _ List.mem_cons_self)
          rw [hEnded c rfl] at hDigit
          cases hDigit
      · rw [if_neg hPrefix] at h
        cases (List.cons.inj h).1
    · rw [if_neg hNumber] at h ⊢
      by_cases hPrefix : decimal n <+: d
      · rw [if_pos hPrefix] at h
        cases (List.cons.inj h).1
      · rw [if_neg hPrefix] at h
        exact ⟨hPrefix, ih (List.append_cancel_left h)⟩
  | text c s hText ih =>
    rw [replaceAll_text hText, fillNumber_text hText] at h
    rw [tokensOf_text hText]
    exact ih (List.cons.inj h).2

/-! ### The result -/

/-- There is a buffer for the replacement of the lowest placeholder. -/
def Memory.RoomForArg (memory : Memory) (s arg : List UInt8) : Prop :=
  ∀ n, lowest s = some n → arg.length ≤ (placeholder n).length ∨ occurrences (placeholder n) s = 0 ∨
    memory.HasRoom (s.length + occurrences (placeholder n) s * (arg.length - (placeholder n).length))

/-- No number is too large, and the digits of the lowest one stand only for it and are its only digits. -/
def Unambiguous (s : List UInt8) : Prop :=
  (∀ d ∈ tokensOf s, number d < 2 ^ 31) ∧ ∀ n, lowest s = some n → ∀ d ∈ tokensOf s, Distinct n d

theorem lowest_lt {n : Nat} (h : ∀ d ∈ tokensOf s, number d < 2 ^ 31) (hLowest : lowest s = some n) : n < 2 ^ 31 := by
  obtain ⟨d, hd, rfl⟩ := List.mem_map.mp (List.min?_mem hLowest)
  exact h d hd

theorem argAux_none (memory : Memory) (s buf : MuscleString) (h : ¬∀ d ∈ tokensOf s.chars, number d < 2 ^ 31) :
    argAux memory s buf = none := by
  rw [argAux, scanLoop_eq (Nat.lt_succ_self _), if_neg h]
  rfl

theorem argAux_some (memory : Memory) (s buf : MuscleString) {n : Nat} (h : ∀ d ∈ tokensOf s.chars, number d < 2 ^ 31)
    (hLowest : lowest s.chars = some n) :
    argAux memory s buf = replace memory s (.other (placeholderString n (lowest_lt h hLowest))) (.other buf) := by
  have hSmall := lowest_lt h hLowest
  have hFold : ((tokensOf s.chars).map number).foldl lower (-1) = n := by
    rw [foldl_lower, ← lowest, hLowest]
  rw [argAux, scanLoop_eq (Nat.lt_succ_self _), if_pos h, Option.bind_eq_bind, Option.bind_some, hFold,
    dif_pos ⟨by omega, by omega⟩]
  rfl

/-- A template without placeholders. -/
theorem argAux_plain (memory : Memory) (s buf : MuscleString) (hLowest : lowest s.chars = none) :
    argAux memory s buf = some ⟨s.buffer, s.chars.length, 0⟩ := by
  have hNone : tokensOf s.chars = [] := List.map_eq_nil_iff.mp (List.min?_eq_none_iff.mp hLowest)
  have hAll : ∀ d ∈ tokensOf s.chars, number d < 2 ^ 31 := by
    rw [hNone]
    exact List.forall_mem_nil _
  rw [argAux, scanLoop_eq (Nat.lt_succ_self _), if_pos hAll, hNone]
  rfl

theorem Replaced.Holds.unique {r : Replaced} {a b : List UInt8} (ha : r.Holds a) (hb : r.Holds b) : a = b := by
  obtain ⟨x, hx, hLength⟩ := ha
  obtain ⟨y, hy, hLength'⟩ := hb
  exact (List.append_inj (hx.symm.trans hy) (hLength.symm.trans hLength')).1

/-- The argument `x`. -/
def letterX : MuscleString :=
  ⟨[120], [], by decide, by decide⟩

theorem roomForArg_letterX (memory : Memory) (s : List UInt8) : memory.RoomForArg s letterX.chars := fun _ _ =>
  .inl (Nat.succ_le_succ (Nat.zero_le _))

theorem unambiguous_of_letterX {r : Replaced} (s : MuscleString) (hRun : argAux .plenty s letterX = some r)
    (hHolds : r.Holds (fillLowest letterX.chars s.chars)) : Unambiguous s.chars := by
  have hSmall : ∀ d ∈ tokensOf s.chars, number d < 2 ^ 31 := by
    by_contra hLarge
    rw [argAux_none _ _ _ hLarge] at hRun
    cases hRun
  refine ⟨hSmall, fun n hLowest => distinct_of_eq ?_⟩
  rw [argAux_some _ _ _ hSmall hLowest] at hRun
  obtain ⟨r', hRun', hReplaced, -⟩ := @ReplacesAll.of_room s
    (.other (placeholderString n (lowest_lt hSmall hLowest))) (.other letterX) .plenty (placeholder_ne_nil n)
    (.inl (Nat.succ_le_succ (Nat.zero_le _)))
  cases hRun.symm.trans hRun'
  rw [fillLowest, hLowest] at hHolds
  exact hReplaced.unique hHolds

/-- `Arg` fills in the argument, whatever it is, exactly when the template is unambiguous. -/
theorem argAux_iff (s : MuscleString) :
    (∀ memory buf, memory.RoomForArg s.chars buf.chars →
      ∃ r, argAux memory s buf = some r ∧ r.Holds (fillLowest buf.chars s.chars)) ↔ Unambiguous s.chars := by
  constructor
  · intro h
    obtain ⟨r, hRun, hHolds⟩ := h .plenty letterX (roomForArg_letterX _ _)
    exact unambiguous_of_letterX s hRun hHolds
  · rintro ⟨hSmall, hDistinct⟩ memory buf hRoom
    cases hLowest : lowest s.chars with
    | none =>
      refine ⟨_, argAux_plain memory s buf hLowest, ?_⟩
      rw [fillLowest, hLowest]
      exact s.holds_self 0
    | some n =>
      obtain ⟨r, hRun, hHolds, -⟩ := @ReplacesAll.of_room s
        (.other (placeholderString n (lowest_lt hSmall hLowest))) (.other buf) memory (placeholder_ne_nil n)
        (hRoom n hLowest)
      refine ⟨r, (argAux_some memory s buf hSmall hLowest).trans hRun, ?_⟩
      rw [fillLowest, hLowest]
      simp only
      rw [← replaceAll_eq_fillNumber (hDistinct n hLowest)]
      exact hHolds

/-- The template `%1 of %10`. -/
def onePlaceholderOfTen : MuscleString :=
  ⟨[37, 49, 32, 111, 102, 32, 37, 49, 48], [], by decide, by decide⟩

/-- The `%1` that `%10` starts with is taken for a placeholder of its own. -/
theorem argAux_ambiguous :
    ¬∀ (s : MuscleString) memory (buf : MuscleString), memory.RoomForArg s.chars buf.chars →
      ∃ r, argAux memory s buf = some r ∧ r.Holds (fillLowest buf.chars s.chars) := by
  intro h
  obtain ⟨r, hRun, hHolds⟩ := h onePlaceholderOfTen .plenty letterX (roomForArg_letterX _ _)
  have hDistinct := (unambiguous_of_letterX _ hRun hHolds).2 1 rfl [49, 48] (by decide)
  unfold Distinct at hDistinct
  revert hDistinct
  decide

end BeShare.Muscle.Strings
