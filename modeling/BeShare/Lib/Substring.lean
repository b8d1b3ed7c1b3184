import Mathlib.Data.List.Infix

/-! Occurrences of a word in a list, and their replacement from the left to the right. -/

namespace BeShare.Lib

variable {α : Type} [DecidableEq α]

/-- Where the word stands first. -/
def firstIndex (word : List α) : List α → Option Nat
  | [] => if word = [] then some 0 else none
  | c :: s => if word <+: c :: s then some 0 else (firstIndex word s).map (· + 1)

/-- The first `skip` elements belong to an occurrence that is replaced already. -/
def replaceFrom (word new : List α) : Nat → List α → List α
  | _, [] => []
  | skip + 1, _ :: s => replaceFrom word new skip s
  | 0, c :: s =>
    if word <+: c :: s then new ++ replaceFrom word new (word.length - 1) s
    else c :: replaceFrom word new 0 s

/-- Each occurrence that does not overlap one further left is replaced. -/
def replaceAll (word new s : List α) : List α :=
  replaceFrom word new 0 s

/-- The number of occurrences that `replaceFrom` replaces. -/
def countFrom (word : List α) : Nat → List α → Nat
  | _, [] => 0
  | skip + 1, _ :: s => countFrom word skip s
  | 0, c :: s =>
    if word <+: c :: s then countFrom word (word.length - 1) s + 1
    else countFrom word 0 s

def occurrences (word s : List α) : Nat :=
  countFrom word 0 s

variable {word new s : List α}

theorem replaceFrom_skip (k : Nat) : replaceFrom word new k s = replaceAll word new (s.drop k) := by
  induction s generalizing k with
  | nil => cases k <;> rfl
  | cons c s ih =>
    cases k with
    | zero => rfl
    | succ k => exact ih k

theorem countFrom_skip (k : Nat) : countFrom word k s = occurrences word (s.drop k) := by
  induction s generalizing k with
  | nil => cases k <;> rfl
  | cons c s ih =>
    cases k with
    | zero => rfl
    | succ k => exact ih k

omit [DecidableEq α] in
theorem drop_behind {c : α} {s b : List α} (h : word ≠ []) (hSplit : c :: s = word ++ b) :
    s.drop (word.length - 1) = b := by
  cases word with
  | nil => exact absurd rfl h
  | cons d word =>
    obtain ⟨-, rfl⟩ := List.cons.inj hSplit
    exact List.drop_left

theorem replaceAll_word (h : word ≠ []) (s : List α) :
    replaceAll word new (word ++ s) = new ++ replaceAll word new s := by
  obtain ⟨c, l, hWord⟩ := List.exists_cons_of_ne_nil h
  have hCons : word ++ s = c :: (l ++ s) := by rw [hWord, List.cons_append]
  rw [hCons, replaceAll, replaceFrom, if_pos (hCons ▸ List.prefix_append word s), replaceFrom_skip,
    drop_behind h hCons.symm]

theorem occurrences_word (h : word ≠ []) (s : List α) : occurrences word (word ++ s) = occurrences word s + 1 := by
  obtain ⟨c, l, hWord⟩ := List.exists_cons_of_ne_nil h
  have hCons : word ++ s = c :: (l ++ s) := by rw [hWord, List.cons_append]
  rw [hCons, occurrences, countFrom, if_pos (hCons ▸ List.prefix_append word s), countFrom_skip,
    drop_behind h hCons.symm]

theorem replaceAll_cons {c : α} (h : ¬word <+: c :: s) :
    replaceAll word new (c :: s) = c :: replaceAll word new s := by
  rw [replaceAll, replaceFrom, if_neg h, replaceAll]

theorem occurrences_cons {c : α} (h : ¬word <+: c :: s) : occurrences word (c :: s) = occurrences word s := by
  rw [occurrences, countFrom, if_neg h, occurrences]

/-- A list without the word stays as it is. -/
theorem firstIndex_none (h : firstIndex word s = none) :
    occurrences word s = 0 ∧ ∀ new, replaceAll word new s = s := by
  induction s with
  | nil => exact ⟨rfl, fun _ => rfl⟩
  | cons c s ih =>
    rw [firstIndex] at h
    split at h
    · cases h
    · rename_i hPrefix
      obtain ⟨hCount, hReplace⟩ := ih (Option.map_eq_none_iff.mp h)
      exact ⟨(occurrences_cons hPrefix).trans hCount,
        fun new => (replaceAll_cons hPrefix).trans (congrArg _ (hReplace new))⟩

/-- The first occurrence is replaced, and then those in what comes behind it. -/
theorem firstIndex_some {i : Nat} (hWord : word ≠ []) (h : firstIndex word s = some i) :
    ∃ a b, s = a ++ word ++ b ∧ a.length = i ∧ occurrences word s = occurrences word b + 1 ∧
      ∀ new, replaceAll word new s = a ++ new ++ replaceAll word new b := by
  induction s generalizing i with
  | nil =>
    rw [firstIndex, if_neg hWord] at h
    cases h
  | cons c s ih =>
    rw [firstIndex] at h
    split at h
    · rename_i hPrefix
      cases h
      obtain ⟨b, hb⟩ := hPrefix
      refine ⟨[], b, hb.symm, rfl, ?_, fun new => ?_⟩
      · rw [← hb, occurrences_word hWord]
      · rw [← hb, replaceAll_word hWord]
        rfl
    · rename_i hPrefix
      obtain ⟨j, hj, rfl⟩ := Option.map_eq_some_iff.mp h
      obtain ⟨a, b, rfl, rfl, hCount, hReplace⟩ := ih hj
      refine ⟨c :: a, b, rfl, rfl, ?_, fun new => ?_⟩
      · rw [occurrences_cons hPrefix, hCount]
      · rw [replaceAll_cons hPrefix, hReplace]
        rfl

theorem exists_firstIndex (hWord : word ≠ []) (a b : List α) :
    ∃ i, i ≤ a.length ∧ firstIndex word (a ++ word ++ b) = some i := by
  induction a with
  | nil =>
    obtain ⟨c, word, rfl⟩ := List.exists_cons_of_ne_nil hWord
    refine ⟨0, Nat.le_refl _, ?_⟩
    rw [List.nil_append, List.cons_append, firstIndex]
    exact if_pos (List.prefix_append (c :: word) b)
  | cons c a ih =>
    obtain ⟨i, hi, hFirst⟩ := ih
    rw [List.cons_append, List.cons_append, firstIndex, hFirst]
    split
    · exact ⟨0, Nat.zero_le _, rfl⟩
    · exact ⟨i + 1, Nat.succ_le_succ hi, rfl⟩

/-- What comes behind makes no difference. -/
theorem firstIndex_append {i : Nat} (hWord : word ≠ []) (h : firstIndex word s = some i) (t : List α) :
    firstIndex word (s ++ t) = some i := by
  induction s generalizing i with
  | nil =>
    rw [firstIndex, if_neg hWord] at h
    cases h
  | cons c s ih =>
    rw [firstIndex] at h
    rw [List.cons_append, firstIndex]
    split at h
    · rename_i hPrefix
      rw [← h]
      exact if_pos (hPrefix.trans (List.prefix_append (c :: s) t))
    · rename_i hPrefix
      obtain ⟨j, hj, rfl⟩ := Option.map_eq_some_iff.mp h
      obtain ⟨a, b, rfl, -⟩ := firstIndex_some hWord hj
      rw [if_neg, ih hj]
      · rfl
      · intro hLonger
        refine hPrefix (List.prefix_of_prefix_length_le hLonger (List.prefix_append (c :: (a ++ word ++ b)) t) ?_)
        simp only [List.length_append, List.length_cons]
        omega

/-- What holds of lists without the word, and of a list when it holds of what comes behind the first occurrence, holds
of all lists. -/
theorem occurrence_induction {motive : List α → Prop} (hWord : word ≠ [])
    (absent : ∀ s, firstIndex word s = none → occurrences word s = 0 → (∀ new, replaceAll word new s = s) → motive s)
    (found : ∀ a b, firstIndex word (a ++ word ++ b) = some a.length →
      occurrences word (a ++ word ++ b) = occurrences word b + 1 →
      (∀ new, replaceAll word new (a ++ word ++ b) = a ++ new ++ replaceAll word new b) →
      motive b → motive (a ++ word ++ b))
    (s : List α) : motive s := by
  induction hLength : s.length using Nat.strongRecOn generalizing s with
  | ind n ih =>
    cases hFirst : firstIndex word s with
    | none =>
      obtain ⟨hCount, hReplace⟩ := firstIndex_none hFirst
      exact absent s hFirst hCount hReplace
    | some i =>
      obtain ⟨a, b, rfl, rfl, hCount, hReplace⟩ := firstIndex_some hWord hFirst
      have hPos := List.length_pos_iff.mpr hWord
      simp only [List.length_append] at hLength
      exact found a b hFirst hCount hReplace (ih b.length (by omega) b rfl)

theorem firstIndex_of_zero (hWord : word ≠ []) (h : occurrences word s = 0) : firstIndex word s = none := by
  cases hFirst : firstIndex word s with
  | none => rfl
  | some i =>
    obtain ⟨a, b, -, -, hCount, -⟩ := firstIndex_some hWord hFirst
    omega

theorem length_replaceAll (hWord : word ≠ []) (new s : List α) :
    (replaceAll word new s).length + occurrences word s * word.length =
      s.length + occurrences word s * new.length := by
  induction s using occurrence_induction hWord with
  | absent s hFirst hCount hReplace => rw [hCount, hReplace, Nat.zero_mul, Nat.zero_mul]
  | found a b hFirst hCount hReplace ih =>
    rw [hCount, hReplace]
    simp only [List.length_append, Nat.add_mul, Nat.one_mul]
    omega

theorem replaceAll_self (hWord : word ≠ []) (s : List α) : replaceAll word word s = s := by
  induction s using occurrence_induction hWord with
  | absent s hFirst hCount hReplace => exact hReplace word
  | found a b hFirst hCount hReplace ih => rw [hReplace, ih]

end BeShare.Lib
