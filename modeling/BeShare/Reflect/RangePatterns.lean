import BeShare.Reflect.StringMatcher
import Mathlib.Data.List.TakeWhile
import Mathlib.Tactic.Common

/-!
Patterns such as `<15-23>`: which strings they match, and which numbers are meant.
-/

namespace BeShare.Muscle.Reflect.RangePatterns

variable {s t : Str} {c : Char}

/-! ### Numbers -/

/-- What the digits at the start of a string say. -/
def leading (s : Str) : Nat :=
  Nat.ofDigitChars 10 (s.takeWhile Char.isDigit) 0

def numeral : Int → Str
  | .ofNat n => Nat.toDigits 10 n
  | .negSucc n => '-' :: Nat.toDigits 10 (n + 1)

def startsWithDigit (s : Str) : Bool :=
  (s.head?.map Char.isDigit).getD false

theorem toNat_atoiDigits {n : UInt32} {k : Nat} (h : n.toNat = k % 2 ^ 32) :
    (atoiDigits n s).toNat = Nat.ofDigitChars 10 (s.takeWhile Char.isDigit) k % 2 ^ 32 := by
  induction s generalizing n k with
  | nil => exact h
  | cons c s ih =>
    rw [atoiDigits]
    split
    · rename_i hDigit
      rw [List.takeWhile_cons_of_pos hDigit, Nat.ofDigitChars_cons]
      refine ih ?_
      have hc : (UInt32.ofNat (c.toNat - 48)).toNat = (c.toNat - 48) % 2 ^ 32 := UInt32.toNat_ofNat'
      rw [UInt32.toNat_add, UInt32.toNat_mul, h, hc]
      show (k % 2 ^ 32 * 10 % 2 ^ 32 + (c.toNat - 48) % 2 ^ 32) % 2 ^ 32 = (10 * k + (c.toNat - 48)) % 2 ^ 32
      generalize c.toNat - 48 = digit
      omega
    · rename_i hDigit
      rw [List.takeWhile_cons_of_neg hDigit, Nat.ofDigitChars_nil]
      exact h

/-- A digit is no white space and no sign. -/
theorem digit_ne (hDigit : c.isDigit = true) {d : Char} (hd : d.isDigit = false) : c ≠ d := by
  rintro rfl
  rw [hDigit] at hd
  cases hd

theorem atoi_digit (hDigit : c.isDigit = true) : atoi (c :: s) = atoiDigits 0 (c :: s) := by
  have hSpace : c.isWhitespace = false := by
    simp only [Char.isWhitespace, Bool.or_eq_false_iff, decide_eq_false_iff_not]
    exact ⟨⟨⟨digit_ne hDigit rfl, digit_ne hDigit rfl⟩, digit_ne hDigit rfl⟩, digit_ne hDigit rfl⟩
  rw [atoi, List.dropWhile_cons_of_neg (by rw [hSpace]; decide)]
  split
  · rename_i hMinus
    cases hMinus
    cases hDigit
  · rename_i hPlus
    cases hPlus
    cases hDigit
  · rfl

theorem toNat_atoi (hDigit : c.isDigit = true) : (atoi (c :: s)).toNat = leading (c :: s) % 2 ^ 32 := by
  rw [atoi_digit hDigit]
  exact toNat_atoiDigits rfl

theorem leading_of_digits (h : ∀ c ∈ s, c.isDigit = true) (hc : c.isDigit = false) :
    leading (s ++ c :: t) = Nat.ofDigitChars 10 s 0 := by
  rw [leading, List.takeWhile_append_of_pos h, List.takeWhile_cons_of_neg (by rw [hc]; decide), List.append_nil]

/-! ### Numerals -/

theorem toDigits_digits (n : Nat) : ∀ c ∈ Nat.toDigits 10 n, c.isDigit = true :=
  fun _ hc => Nat.isDigit_of_mem_toDigits (by decide) (by decide) hc

theorem exists_toDigits (n : Nat) : ∃ c s, Nat.toDigits 10 n = c :: s ∧ c.isDigit = true := by
  cases h : Nat.toDigits 10 n with
  | nil => exact absurd h Nat.toDigits_ne_nil
  | cons c s => exact ⟨c, s, rfl, toDigits_digits n c (h ▸ List.mem_cons_self)⟩

theorem toDigits_injective {n m : Nat} (h : Nat.toDigits 10 n = Nat.toDigits 10 m) : n = m := by
  have hValue := congrArg (fun digits => Nat.ofDigitChars 10 digits 0) h
  simpa only [Nat.ofDigitChars_ten_toDigits] using hValue

theorem numeral_natCast (n : Nat) : numeral (n : Int) = Nat.toDigits 10 n :=
  rfl

theorem numeral_injective {n m : Int} (h : numeral n = numeral m) : n = m := by
  cases n with
  | ofNat n =>
    cases m with
    | ofNat m => rw [toDigits_injective h]
    | negSucc m =>
      obtain ⟨c, s, hDigits, hc⟩ := exists_toDigits n
      rw [numeral, numeral, hDigits] at h
      cases h
      cases hc
  | negSucc n =>
    cases m with
    | ofNat m =>
      obtain ⟨c, s, hDigits, hc⟩ := exists_toDigits m
      rw [numeral, numeral, hDigits] at h
      cases h
      cases hc
    | negSucc m =>
      have hSucc := toDigits_injective (List.cons.inj h).2
      rw [Nat.succ.inj hSucc]

theorem leading_toDigits (n : Nat) : leading (Nat.toDigits 10 n) = n := by
  rw [leading, List.takeWhile_eq_self_iff.mpr (toDigits_digits n), Nat.ofDigitChars_ten_toDigits]

theorem startsWithDigit_toDigits (n : Nat) : startsWithDigit (Nat.toDigits 10 n) = true := by
  obtain ⟨c, s, hDigits, hc⟩ := exists_toDigits n
  rw [hDigits]
  exact hc

/-! ### The pattern -/

/-- A limit of a range. -/
structure Bound where
  digits : Str
  nonempty : digits ≠ []
  isDigit : ∀ c ∈ digits, c.isDigit = true
  small : Nat.ofDigitChars 10 digits 0 ≤ 4294967294

namespace Bound

def value (b : Bound) : Nat :=
  Nat.ofDigitChars 10 b.digits 0

end Bound

variable (x y : Option Bound)

def rangePattern (negated : Bool) : Str :=
  (if negated then ['~'] else []) ++
    '<' :: ((x.map Bound.digits).getD [] ++ '-' :: ((y.map Bound.digits).getD [] ++ ['>']))

/-- The number is between the limits, as far as there are any. -/
def Within (n : Nat) : Prop :=
  (∀ a ∈ x, a.value ≤ n) ∧ ∀ b ∈ y, n ≤ b.value

/-- What the pattern is meant to match: the numerals of the integers between the limits, or everything. -/
def InRange (t : Str) : Prop :=
  (x = none ∧ y = none) ∨ ∃ n : Int, t = numeral n ∧ (∀ a ∈ x, (a.value : Int) ≤ n) ∧ ∀ b ∈ y, n ≤ b.value

/-- What it matches: the strings that start with digits whose number, as far as it fits, is between the limits. -/
def Matches (t : Str) : Prop :=
  startsWithDigit t = true ∧ Within x y (leading t % 2 ^ 32)

theorem exists_digit (b : Bound) : ∃ c s, b.digits = c :: s ∧ c.isDigit = true := by
  obtain ⟨c, s, h⟩ := List.exists_cons_of_ne_nil b.nonempty
  exact ⟨c, s, h, b.isDigit c (h ▸ List.mem_cons_self)⟩

/-- A limit in front of another character. -/
theorem toNat_atoi_bound (b : Bound) (hc : c.isDigit = false) :
    (atoi (b.digits ++ c :: s)).toNat = b.value := by
  have hLeading := leading_of_digits (t := s) b.isDigit hc
  obtain ⟨d, ds, hDigits, hd⟩ := exists_digit b
  have hSmall : b.value < 2 ^ 32 := Nat.lt_of_le_of_lt b.small (by decide)
  rw [hDigits, List.cons_append, toNat_atoi hd, ← List.cons_append, ← hDigits, hLeading]
  exact Nat.mod_eq_of_lt hSmall

theorem parseRange_rangePattern :
    (parseRange (rangePattern x y false)).1.toNat = (x.map Bound.value).getD 0 ∧
      (parseRange (rangePattern x y false)).2.toNat = (y.map Bound.value).getD 4294967295 := by
  have hDash : ((x.map Bound.digits).getD [] ++ '-' :: ((y.map Bound.digits).getD [] ++ ['>'])).dropWhile (· != '-') =
      '-' :: ((y.map Bound.digits).getD [] ++ ['>']) := by
    rw [List.dropWhile_append_of_pos, List.dropWhile_cons_of_neg (by decide)]
    intro c hc
    cases x with
    | none => cases hc
    | some a => exact bne_iff_ne.mpr (digit_ne (a.isDigit c hc) rfl)
  have hLast : ('-' :: ((y.map Bound.digits).getD [] ++ ['>'])).getLast? = some '>' := by
    rw [← List.cons_append, List.getLast?_concat]
  rw [rangePattern, if_neg Bool.false_ne_true, List.nil_append, parseRange]
  simp only [hDash, hLast, if_true]
  constructor
  · cases x with
    | none => rfl
    | some a =>
      obtain ⟨d, ds, hDigits, hd⟩ := exists_digit a
      have hHead : ((Option.map Bound.digits (some a)).getD [] ++
          '-' :: ((y.map Bound.digits).getD [] ++ ['>'])).head? ≠ some '-' := by
        rw [Option.map_some, Option.getD_some, hDigits]
        exact fun h => digit_ne hd rfl (Option.some.inj h)
      rw [if_neg hHead]
      exact toNat_atoi_bound a rfl
  · cases y with
    | none => rfl
    | some b =>
      obtain ⟨d, ds, hDigits, hd⟩ := exists_digit b
      have hHead : ∀ e : Char, e.isDigit = false →
          ((Option.map Bound.digits (some b)).getD [] ++ ['>']).head? ≠ some e := fun e he => by
        rw [Option.map_some, Option.getD_some, hDigits]
        exact fun h => digit_ne hd he (Option.some.inj h)
      rw [if_neg (hHead '>' rfl), if_neg (hHead '-' rfl)]
      exact toNat_atoi_bound b rfl

theorem within_iff {n : Nat} (hn : n < 2 ^ 32) :
    Within x y n ↔ (x.map Bound.value).getD 0 ≤ n ∧ n ≤ (y.map Bound.value).getD 4294967295 := by
  refine and_congr ?_ ?_
  · cases x <;> simp
  · cases y with
    | none => exact iff_of_true nofun (Nat.le_of_lt_succ hn)
    | some b => simp

/-- What `SetPattern` makes of the pattern. -/
def rangeMatcher (negated : Bool) : StringMatcher :=
  ⟨rangePattern x y negated, decide ((rangePattern x y negated).head? = some '~'),
    hasRegexTokens (rangePattern x y negated), (parseRange (rangePattern x y false)).1,
    (parseRange (rangePattern x y false)).2, none⟩

/-- A range is always a valid pattern. -/
theorem exists_setPattern (regex : Regex) (negated : Bool) :
    ∃ m, StringMatcher.setPattern regex (rangePattern x y negated) = some m ∧
      ∀ t, m.isMatch t = true ↔ if negated then ¬Matches x y t else Matches x y t := by
  obtain ⟨hMin, hMax⟩ := parseRange_rangePattern x y
  have hTilde : (rangePattern x y negated).head? = some '~' ↔ negated = true := by
    cases negated <;> simp [rangePattern]
  have hInner : (if decide ((rangePattern x y negated).head? = some '~') then (rangePattern x y negated).tail
      else rangePattern x y negated) = rangePattern x y false := by
    cases negated <;> rfl
  have hMode : (parseRange (rangePattern x y false)).1 ≠ MUSCLE_NO_LIMIT := by
    intro h
    rw [h] at hMin
    cases x with
    | none => cases hMin
    | some a =>
      have hSmall : a.value ≤ 4294967294 := a.small
      change 4294967295 = a.value at hMin
      omega
  refine ⟨rangeMatcher x y negated, ?_, fun t => ?_⟩
  · rw [StringMatcher.setPattern]
    simp only [hInner]
    rw [if_neg hMode, rangeMatcher]
  · have hRet : ∀ m : StringMatcher, m.rangeMin = (parseRange (rangePattern x y false)).1 →
        m.rangeMax = (parseRange (rangePattern x y false)).2 →
        ∃ ret, m.isMatch t = (if m.negate then !ret else ret) ∧ (ret = true ↔ Matches x y t) := by
      intro m hLower hUpper
      have hRange : m.rangeMin ≠ MUSCLE_NO_LIMIT := by rwa [hLower]
      cases t with
      | nil =>
        refine ⟨false, ?_, iff_of_false Bool.false_ne_true fun h => Bool.false_ne_true h.1⟩
        unfold StringMatcher.isMatch
        rw [if_neg hRange]
      | cons c t =>
        refine ⟨c.isDigit && decide (m.rangeMin ≤ atoi (c :: t)) && decide (atoi (c :: t) ≤ m.rangeMax), ?_, ?_⟩
        · unfold StringMatcher.isMatch
          rw [if_neg hRange]
        · rw [Matches, Bool.and_eq_true, Bool.and_eq_true, decide_eq_true_iff, decide_eq_true_iff, and_assoc]
          refine and_congr_right fun hDigit => ?_
          rw [UInt32.le_iff_toNat_le, UInt32.le_iff_toNat_le, toNat_atoi hDigit, hLower, hUpper, hMin, hMax]
          exact (within_iff x y (Nat.mod_lt _ (by decide))).symm
    obtain ⟨ret, hMatch, hMatches⟩ := hRet (rangeMatcher x y negated) rfl rfl
    rw [hMatch, ← hMatches]
    simp only [rangeMatcher, hTilde]
    cases negated <;> cases ret <;> decide

/-! ### What is matched and what is meant -/

/-- For which strings the pattern says what is meant. -/
structure Agrees (t : Str) : Prop where
  /-- Without limits, only strings that start with a digit are matched. -/
  unbounded : x = none → y = none → startsWithDigit t = true
  /-- A number that does not fit is taken modulo `2 ^ 32`. -/
  large : ¬(x = none ∧ y = none) → ∀ n : Nat, 2 ^ 32 ≤ n → t = numeral n → (Within x y (n % 2 ^ 32) ↔ y = none)
  /-- No negative number is matched. -/
  negative : ∀ n : Int, n < 0 → t = numeral n → y ≠ none → x ≠ none
  /-- Of other strings, the digits at the start count. -/
  others : ¬(x = none ∧ y = none) → (∀ n : Int, t ≠ numeral n) → startsWithDigit t = true →
    ¬Within x y (leading t % 2 ^ 32)

theorem inRange_numeral (h : ¬(x = none ∧ y = none)) (n : Int) :
    InRange x y (numeral n) ↔ (∀ a ∈ x, (a.value : Int) ≤ n) ∧ ∀ b ∈ y, n ≤ b.value := by
  rw [InRange, or_iff_right h]
  constructor
  · rintro ⟨m, hm, hWithin⟩
    rwa [numeral_injective hm]
  · exact fun hWithin => ⟨n, rfl, hWithin⟩

theorem matches_iff_inRange : (Matches x y t ↔ InRange x y t) ↔ Agrees x y t := by
  by_cases hUnbounded : x = none ∧ y = none
  · have hIn : InRange x y t := .inl hUnbounded
    have hMatches : Matches x y t ↔ startsWithDigit t = true := by
      obtain ⟨rfl, rfl⟩ := hUnbounded
      exact and_iff_left ⟨nofun, nofun⟩
    rw [iff_true_right hIn, hMatches]
    refine ⟨fun h => ⟨fun _ _ => h, fun hNot => absurd hUnbounded hNot, fun _ _ _ hy => absurd hUnbounded.2 hy,
      fun hNot => absurd hUnbounded hNot⟩, fun h => h.unbounded hUnbounded.1 hUnbounded.2⟩
  · by_cases hNumeral : ∃ n, t = numeral n
    · obtain ⟨n, rfl⟩ := hNumeral
      have hOthers : ∀ {P : Prop}, (∀ m : Int, numeral n ≠ numeral m) → P := fun h => absurd rfl (h n)
      rw [inRange_numeral x y hUnbounded]
      cases n with
      | negSucc n =>
        have hNot : ¬Matches x y (numeral (.negSucc n)) := fun h => by cases h.1
        rw [iff_false_left hNot]
        have hMeant : ((∀ a ∈ x, (a.value : Int) ≤ .negSucc n) ∧ ∀ b ∈ y, Int.negSucc n ≤ b.value) ↔ x = none := by
          constructor
          · rintro ⟨hLower, -⟩
            refine Option.eq_none_iff_forall_not_mem.mpr fun a ha => ?_
            have hLe := hLower a ha
            omega
          · rintro rfl
            exact ⟨nofun, fun b _ => by omega⟩
        rw [hMeant]
        constructor
        · exact fun h => ⟨fun hx => absurd hx h, fun _ m _ hm => (nomatch numeral_injective hm), fun _ _ _ _ => h,
            fun _ => hOthers⟩
        · intro h hx
          exact h.negative (.negSucc n) (Int.negSucc_lt_zero n) rfl (fun hy => hUnbounded ⟨hx, hy⟩) hx
      | ofNat n =>
        have hLeading : leading (numeral (.ofNat n)) = n := leading_toDigits n
        have hDigit : startsWithDigit (numeral (.ofNat n)) = true := startsWithDigit_toDigits n
        have hMatches : Matches x y (numeral (.ofNat n)) ↔ Within x y (n % 2 ^ 32) := by
          rw [Matches, hLeading]
          exact and_iff_right hDigit
        have hMeant : ((∀ a ∈ x, (a.value : Int) ≤ .ofNat n) ∧ ∀ b ∈ y, Int.ofNat n ≤ b.value) ↔ Within x y n := by
          simp only [Within, Int.ofNat_eq_natCast, Int.ofNat_le]
        rw [hMatches, hMeant]
        have hAgrees : Agrees x y (numeral (.ofNat n)) ↔ (2 ^ 32 ≤ n → (Within x y (n % 2 ^ 32) ↔ y = none)) := by
          constructor
          · exact fun h hLarge => h.large hUnbounded n hLarge rfl
          · refine fun h => ⟨fun _ _ => hDigit, fun _ m hLarge hm => ?_, fun m hNegative hm => ?_, fun _ => hOthers⟩
            · obtain rfl : n = m := Int.ofNat.inj (numeral_injective hm)
              exact h hLarge
            · obtain rfl := numeral_injective hm
              exact absurd hNegative (by simp)
        rw [hAgrees]
        rcases Nat.lt_or_ge n (2 ^ 32) with hSmall | hLarge
        · rw [Nat.mod_eq_of_lt hSmall]
          exact iff_of_true Iff.rfl fun hLarge => absurd hSmall (Nat.not_lt.mpr hLarge)
        · have hAbove : Within x y n ↔ y = none := by
            constructor
            · refine fun h => Option.eq_none_iff_forall_not_mem.mpr fun b hb => ?_
              have hLe := h.2 b hb
              have hBound : b.value ≤ 4294967294 := b.small
              omega
            · rintro rfl
              refine ⟨fun a _ => ?_, nofun⟩
              have hBound : a.value ≤ 4294967294 := a.small
              omega
          rw [hAbove]
          exact ⟨fun h _ => h, fun h => h hLarge⟩
    · have hNot : ¬InRange x y t := by
        rw [InRange, or_iff_right hUnbounded]
        exact fun ⟨n, hn, _⟩ => hNumeral ⟨n, hn⟩
      have hNone : ∀ n : Int, t ≠ numeral n := fun n hn => hNumeral ⟨n, hn⟩
      rw [iff_false_right hNot, Matches, not_and]
      exact ⟨fun h => ⟨fun hx hy => absurd ⟨hx, hy⟩ hUnbounded, fun _ n _ hn => absurd hn (hNone n),
        fun n _ hn => absurd hn (hNone n), fun _ _ => h⟩, fun h => h.others hUnbounded hNone⟩

/-- `19`, as a limit. -/
def nineteen : Bound where
  digits := ['1', '9']
  nonempty := List.cons_ne_nil _ _
  isDigit := by simp
  small := by decide

end BeShare.Muscle.Reflect.RangePatterns
