import Mathlib.Data.List.TakeWhile

/-! The tokens of a list: its maximal runs without a separator. -/

namespace BeShare.Lib

variable {α : Type} {sep : α → Bool} {s t rest : List α}

/-- The first token, and what comes behind the separator that ends it. -/
def nextToken (sep : α → Bool) (s : List α) : Option (List α × List α) :=
  match s.dropWhile sep with
  | [] => none
  | c :: l => some ((c :: l).takeWhile (!sep ·), ((c :: l).dropWhile (!sep ·)).tail)

/-- The first `n` tokens. -/
def takeTokens (sep : α → Bool) : Nat → List α → List (List α)
  | 0, _ => []
  | n + 1, s =>
    match nextToken sep s with
    | none => []
    | some (t, rest) => t :: takeTokens sep n rest

/-- Each token takes an element at least, so these are all. -/
def tokens (sep : α → Bool) (s : List α) : List (List α) :=
  takeTokens sep s.length s

/-- `t` is a run of `s` that has no separator and is not part of a longer one. -/
structure IsToken (sep : α → Bool) (s t : List α) : Prop where
  nonempty : t ≠ []
  plain : ∀ c ∈ t, sep c = false
  maximal : ∃ a b, s = a ++ t ++ b ∧ (∀ c ∈ a.getLast?, sep c = true) ∧ ∀ c ∈ b.head?, sep c = true

theorem nextToken_spec (h : nextToken sep s = some (t, rest)) :
    t ≠ [] ∧ (∀ c ∈ t, sep c = false) ∧ ∃ a b, s = a ++ t ++ b ∧ (∀ c ∈ a, sep c = true) ∧
      (∀ c ∈ b.head?, sep c = true) ∧ rest = b.tail := by
  unfold nextToken at h
  have hSplit := List.takeWhile_append_dropWhile (p := sep) (l := s)
  have hHead := List.head?_dropWhile_not sep s
  split at h
  · cases h
  · rename_i c l hDrop
    rw [hDrop, List.head?_cons] at hHead
    cases h
    have hc : (!sep c) = true := by rw [hHead]; rfl
    refine ⟨?_, fun x hx => ?_, s.takeWhile sep, (c :: l).dropWhile (!sep ·), ?_, fun x hx => ?_,
      fun x hx => ?_, rfl⟩
    · rw [List.takeWhile_cons_of_pos (p := fun x => !sep x) hc]
      exact List.cons_ne_nil _ _
    · have hNot := List.mem_takeWhile_imp hx
      rwa [Bool.not_eq_true'] at hNot
    · rw [List.append_assoc, List.takeWhile_append_dropWhile, ← hDrop, hSplit]
    · exact List.mem_takeWhile_imp hx
    · have hNot := List.head?_dropWhile_not (!sep ·) (c :: l)
      rw [Option.mem_def] at hx
      rw [hx] at hNot
      simpa using hNot

theorem takeTokens_of_le {n m : Nat} (hn : s.length ≤ n) (hm : s.length ≤ m) :
    takeTokens sep n s = takeTokens sep m s := by
  induction n generalizing s m with
  | zero =>
    obtain rfl := List.length_eq_zero_iff.mp (Nat.le_zero.mp hn)
    cases m <;> rfl
  | succ n ih =>
    cases hNext : nextToken sep s with
    | none =>
      cases m with
      | zero => rw [takeTokens, takeTokens, hNext]
      | succ m => rw [takeTokens, takeTokens, hNext]
    | some p =>
      obtain ⟨t, rest⟩ := p
      obtain ⟨hNonempty, -, a, b, rfl, -, -, rfl⟩ := nextToken_spec hNext
      have hPos := List.length_pos_iff.mpr hNonempty
      have hTail : b.tail.length ≤ b.length := by rw [List.length_tail]; omega
      simp only [List.length_append] at hn hm
      obtain ⟨m, rfl⟩ : ∃ k, m = k + 1 := ⟨m - 1, by omega⟩
      rw [takeTokens, takeTokens, hNext]
      exact congrArg _ (ih (by omega) (by omega))

/-- `GetNextToken` gives the tokens one after the other. -/
theorem tokens_eq : tokens sep s =
    match nextToken sep s with
    | none => []
    | some (t, rest) => t :: tokens sep rest := by
  rw [tokens, takeTokens_of_le (Nat.le_refl _) (Nat.le_succ _), takeTokens]
  split
  · rfl
  · rename_i t rest hNext
    obtain ⟨-, -, a, b, rfl, -, -, rfl⟩ := nextToken_spec hNext
    refine congrArg _ (takeTokens_of_le ?_ (Nat.le_refl _))
    simp only [List.length_append, List.length_tail]
    omega

theorem mem_takeTokens {n : Nat} (h : t ∈ takeTokens sep n s) : IsToken sep s t := by
  induction n generalizing s with
  | zero => cases h
  | succ n ih =>
    rw [takeTokens] at h
    split at h
    · cases h
    · rename_i t' rest hNext
      obtain ⟨hNonempty, hPlain, a, b, rfl, ha, hb, rfl⟩ := nextToken_spec hNext
      rcases List.mem_cons.mp h with rfl | h
      · exact ⟨hNonempty, hPlain, a, b, rfl, fun c hc => ha c (List.mem_of_getLast? hc), hb⟩
      · obtain ⟨hNonempty', hPlain', a', b', hRest, ha', hb'⟩ := ih h
        -- the separator behind the first token is not part of the rest
        cases b with
        | nil =>
          have hNil := List.append_eq_nil_iff.mp hRest.symm
          exact absurd (List.append_eq_nil_iff.mp hNil.1).2 hNonempty'
        | cons c b =>
          rw [List.tail_cons] at hRest
          refine ⟨hNonempty', hPlain', a ++ t' ++ c :: a', b', ?_, fun x hx => ?_, hb'⟩
          · rw [hRest]
            simp only [List.append_assoc, List.cons_append]
          · rcases List.eq_nil_or_concat a' with rfl | ⟨a', y, rfl⟩
            · rw [List.getLast?_concat] at hx
              cases hx
              exact hb c rfl
            · rw [List.concat_eq_append] at ha' hx
              rw [← List.cons_append, ← List.append_assoc, List.getLast?_concat] at hx
              exact ha' x (by rwa [List.getLast?_concat])

theorem mem_tokens (h : t ∈ tokens sep s) : IsToken sep s t :=
  mem_takeTokens h

/-- A list without a separator is one token. -/
theorem tokens_of_plain (h : t ≠ []) (hPlain : ∀ c ∈ t, sep c = false) : tokens sep t = [t] := by
  cases t with
  | nil => exact absurd rfl h
  | cons c t =>
    have hDrop : (c :: t).dropWhile sep = c :: t := by
      rw [List.dropWhile_cons_of_neg]
      rw [hPlain c List.mem_cons_self]
      exact Bool.false_ne_true
    have hTake : (c :: t).takeWhile (fun x => !sep x) = c :: t :=
      List.takeWhile_eq_self_iff.mpr fun x hx => by rw [hPlain x hx]; rfl
    have hRest : (c :: t).dropWhile (fun x => !sep x) = [] :=
      List.dropWhile_eq_nil_iff.mpr fun x hx => by rw [hPlain x hx]; rfl
    have hNext : nextToken sep (c :: t) = some (c :: t, []) := by
      rw [nextToken, hDrop]
      simp only [hTake, hRest, List.tail_nil]
    rw [tokens_eq, hNext]
    rfl

/-- A separator in front makes no difference. -/
theorem tokens_cons_sep {c : α} (hc : sep c = true) (s : List α) : tokens sep (c :: s) = tokens sep s := by
  have hDrop : (c :: s).dropWhile sep = s.dropWhile sep := List.dropWhile_cons_of_pos hc
  have hNext : nextToken sep (c :: s) = nextToken sep s := by
    rw [nextToken, nextToken, hDrop]
  rw [tokens_eq, hNext, ← tokens_eq]

theorem nextToken_append_sep {c : α} (h : t ≠ []) (hPlain : ∀ x ∈ t, sep x = false) (hc : sep c = true) (s : List α) :
    nextToken sep (t ++ c :: s) = some (t, s) := by
  obtain ⟨x, t, rfl⟩ := List.exists_cons_of_ne_nil h
  have hDrop : (x :: t ++ c :: s).dropWhile sep = x :: t ++ c :: s := by
    rw [List.cons_append, List.dropWhile_cons_of_neg]
    rw [hPlain x List.mem_cons_self]
    exact Bool.false_ne_true
  have hNot : ∀ y ∈ x :: t, (!sep y) = true := fun y hy => by rw [hPlain y hy]; rfl
  have hStop : ¬(!sep c) = true := by rw [hc]; exact Bool.false_ne_true
  have hTake : (x :: t ++ c :: s).takeWhile (!sep ·) = x :: t := by
    rw [List.takeWhile_append_of_pos hNot, List.takeWhile_cons_of_neg (p := fun x => !sep x) hStop, List.append_nil]
  have hRest : (x :: t ++ c :: s).dropWhile (!sep ·) = c :: s := by
    rw [List.dropWhile_append_of_pos hNot, List.dropWhile_cons_of_neg (p := fun x => !sep x) hStop]
  rw [nextToken, hDrop]
  simp only [List.cons_append] at hTake hRest ⊢
  simp only [hTake, hRest, List.tail_cons]

/-- A token up to its separator comes first. -/
theorem tokens_append_sep {c : α} (h : t ≠ []) (hPlain : ∀ x ∈ t, sep x = false) (hc : sep c = true) (s : List α) :
    tokens sep (t ++ c :: s) = t :: tokens sep s := by
  rw [tokens_eq, nextToken_append_sep h hPlain hc]

/-- A list of separators has no token. -/
theorem tokens_of_separators (h : ∀ c ∈ s, sep c = true) : tokens sep s = [] := by
  have hDrop : s.dropWhile sep = [] := List.dropWhile_eq_nil_iff.mpr h
  rw [tokens_eq, nextToken, hDrop]

/-- The last token, with the separators behind it. -/
theorem exists_last_token (sep : α → Bool) (s : List α) :
    (∀ c ∈ s, sep c = true) ∨ ∃ a t b, s = a ++ t ++ b ∧ t ≠ [] ∧ (∀ c ∈ t, sep c = false) ∧
      (∀ c ∈ b, sep c = true) ∧ (∀ c ∈ a.getLast?, sep c = true) ∧ (tokens sep s).getLast? = some t := by
  induction hn : s.length using Nat.strongRecOn generalizing s with
  | ind n ih =>
    rw [tokens_eq]
    cases hNext : nextToken sep s with
    | none =>
      refine .inl (List.dropWhile_eq_nil_iff.mp ?_)
      rw [nextToken] at hNext
      split at hNext
      · assumption
      · cases hNext
    | some token =>
      obtain ⟨t, rest⟩ := token
      obtain ⟨hNonempty, hPlain, a, b, rfl, ha, hb, rfl⟩ := nextToken_spec hNext
      refine .inr ?_
      have hShorter : b.tail.length < n := by
        have hPos := List.length_pos_iff.mpr hNonempty
        simp only [List.length_append] at hn
        rw [List.length_tail]
        omega
      rcases ih b.tail.length hShorter b.tail rfl with hAll | ⟨a', t', b', hRest, hNonempty', hPlain', hb', ha', hLast⟩
      · refine ⟨a, t, b, rfl, hNonempty, hPlain, fun c hc => ?_, fun c hc => ha c (List.mem_of_getLast? hc), ?_⟩
        · cases b with
          | nil => cases hc
          | cons d b => exact (List.mem_cons.mp hc).elim (fun h => h ▸ hb d rfl) (hAll c)
        · show (t :: tokens sep b.tail).getLast? = some t
          rw [tokens_of_separators hAll]
          rfl
      · cases b with
        | nil =>
          have hNil := List.append_eq_nil_iff.mp hRest.symm
          exact absurd (List.append_eq_nil_iff.mp hNil.1).2 hNonempty'
        | cons d b =>
          rw [List.tail_cons] at hRest hLast
          refine ⟨a ++ t ++ d :: a', t', b', ?_, hNonempty', hPlain', hb', fun c hc => ?_, ?_⟩
          · rw [hRest]
            simp only [List.append_assoc, List.cons_append]
          · rw [List.getLast?_append, List.getLast?_cons] at hc
            cases hLastA : a'.getLast? with
            | none =>
              rw [hLastA] at hc
              cases hc
              exact hb d rfl
            | some e =>
              rw [hLastA] at hc
              cases hc
              exact ha' e hLastA
          · show (t :: tokens sep b).getLast? = some t'
            rw [List.getLast?_cons, hLast]
            rfl

/-- There is one way to split off the last token. -/
theorem last_token_unique {a a' t' : List α} (hPlain : ∀ c ∈ t, sep c = false) (hPlain' : ∀ c ∈ t', sep c = false)
    (ha : ∀ c ∈ a.getLast?, sep c = true) (ha' : ∀ c ∈ a'.getLast?, sep c = true) (h : a ++ t = a' ++ t') :
    a = a' ∧ t = t' := by
  have hNone {x y : List α} {d : List α} (hEnd : ∀ c ∈ (x ++ d).getLast?, sep c = true)
      (hIn : ∀ c ∈ d ++ y, sep c = false) : d = [] := by
    by_contra hd
    have hMem := List.getLast_mem hd
    have hSep := hEnd (d.getLast hd) (by rw [List.getLast?_append, List.getLast?_eq_some_getLast hd]; rfl)
    rw [hIn _ (List.mem_append_left _ hMem)] at hSep
    cases hSep
  rcases List.append_eq_append_iff.mp h with ⟨d, rfl, rfl⟩ | ⟨d, rfl, rfl⟩
  · obtain rfl := hNone ha' hPlain
    exact ⟨(List.append_nil a).symm, rfl⟩
  · obtain rfl := hNone ha hPlain'
    exact ⟨List.append_nil a', rfl⟩

end BeShare.Lib
