import BeShare.Lib.Ere
import Mathlib.Data.List.TakeWhile
import Mathlib.Tactic.Common

/-! The text of a bracket expression, as the parser of expressions reads it: to the closing bracket, and no further. -/

namespace BeShare.Lib.Ere

variable {x y rest : List Char} {a b c : Char} {p : Char → Bool} {k n skip : Nat}

theorem symbol_cons (h : ¬(a = '[' ∧ b = '.')) : symbol (a :: b :: y) = some (a, 1) := by
  unfold symbol
  split
  · rename_i hText
    obtain ⟨rfl, rfl, -⟩ : _ ∧ _ ∧ _ := by simpa using hText
    exact absurd ⟨rfl, rfl⟩ h
  · rename_i hText
    rw [(List.cons.inj hText).1]
  · rename_i hText
    cases hText

theorem collatingElement_append (h : collatingElement (y ++ rest) = some (c, n)) (hLong : 3 ≤ y.length)
    (rest' : List Char) : collatingElement (y ++ rest') = some (c, n) := by
  rcases y with _ | ⟨a, _ | ⟨b, _ | ⟨d, y⟩⟩⟩ <;> simp only [List.length_cons, List.length_nil] at hLong <;> try omega
  unfold collatingElement at h ⊢
  split at h
  · rename_i hText
    obtain ⟨rfl, rfl, rfl, -⟩ : _ ∧ _ ∧ _ ∧ _ := by simpa using hText
    exact h
  · cases h

theorem equivalenceTerm_append (h : equivalenceTerm (y ++ rest) = some (p, n)) (hLong : 3 ≤ y.length)
    (rest' : List Char) : equivalenceTerm (y ++ rest') = some (p, n) := by
  rcases y with _ | ⟨a, _ | ⟨b, _ | ⟨d, y⟩⟩⟩ <;> simp only [List.length_cons, List.length_nil] at hLong <;> try omega
  unfold equivalenceTerm at h ⊢
  split at h
  · rename_i hText
    obtain ⟨rfl, rfl, rfl, -⟩ : _ ∧ _ ∧ _ ∧ _ := by simpa using hText
    exact h
  · cases h

theorem collatingElement_length (h : collatingElement y = some (c, n)) : n = 5 := by
  unfold collatingElement at h
  split at h
  · exact (Prod.mk.inj (Option.some.inj h)).2.symm
  · cases h

theorem equivalenceTerm_length (h : equivalenceTerm y = some (p, n)) : n = 5 := by
  unfold equivalenceTerm at h
  split at h
  · split at h
    · cases h
    · exact (Prod.mk.inj (Option.some.inj h)).2.symm
  · cases h

theorem symbol_append (h : symbol (y ++ rest) = some (c, n)) (hLong : n < y.length) (rest' : List Char) :
    symbol (y ++ rest') = some (c, n) := by
  rcases y with _ | ⟨a, _ | ⟨b, y⟩⟩
  · cases hLong
  · obtain rfl : n = 0 := by simpa using hLong
    unfold symbol at h
    split at h
    · cases collatingElement_length h
    · simp at h
    · cases h
  · by_cases hDot : a = '[' ∧ b = '.'
    · obtain ⟨rfl, rfl⟩ := hDot
      obtain rfl := collatingElement_length (y := y ++ rest) h
      exact collatingElement_append (y := y) h (by simp only [List.length_cons] at hLong; omega) rest'
    · rw [List.cons_append, List.cons_append, symbol_cons hDot] at h ⊢
      exact h

theorem symbol_pos (h : symbol y = some (c, n)) : 0 < n := by
  unfold symbol at h
  split at h
  · rw [collatingElement_length h]
    exact Nat.succ_pos 4
  · cases h
    exact Nat.one_pos
  · cases h

theorem classTerm_append (h : classTerm (y ++ rest) = some (p, n)) (hLong : n < y.length + 2) (rest' : List Char) :
    classTerm (y ++ rest') = some (p, n) := by
  unfold classTerm at h
  split at h
  · rename_i tail hText
    obtain ⟨q, hClass, hResult⟩ := Option.map_eq_some_iff.mp h
    obtain ⟨rfl, rfl⟩ := Prod.mk.inj hResult
    obtain ⟨name, hName⟩ : ∃ name, (y ++ rest).takeWhile Char.isAlpha = name := ⟨_, rfl⟩
    have hSplit : name ++ ':' :: ']' :: tail = y ++ rest := by
      rw [← hName, ← hText, List.takeWhile_append_dropWhile]
    rw [hName] at hLong hClass ⊢
    -- the text of the class lies in front
    have hFront : ∃ z, y = name ++ ':' :: ']' :: z := by
      have hPrefix : name ++ [':', ']'] <+: y := by
        have hWhole : name ++ [':', ']'] <+: y ++ rest := by
          refine ⟨tail, ?_⟩
          rw [← hSplit, List.append_assoc]
          rfl
        refine List.prefix_of_prefix_length_le hWhole (List.prefix_append _ _) ?_
        simp only [List.length_append, List.length_cons, List.length_nil]
        omega
      obtain ⟨z, hz⟩ := hPrefix
      exact ⟨z, by rw [← hz, List.append_assoc]; rfl⟩
    obtain ⟨z, rfl⟩ := hFront
    have hAlpha : ∀ c ∈ name, c.isAlpha = true := fun c hc => by
      rw [← hName] at hc
      exact List.mem_takeWhile_imp hc
    have hTake : ∀ rest, (name ++ ':' :: ']' :: z ++ rest).takeWhile Char.isAlpha = name := fun rest => by
      rw [List.append_assoc, List.takeWhile_append_of_pos hAlpha]
      exact List.append_nil name
    have hDrop : (name ++ ':' :: ']' :: z ++ rest').dropWhile Char.isAlpha = ':' :: ']' :: (z ++ rest') := by
      rw [List.append_assoc, List.dropWhile_append_of_pos hAlpha]
      rfl
    unfold classTerm
    rw [hTake rest', hDrop]
    simp only [hClass, Option.map_some]
  · cases h

theorem rangeEnd_length {low : Char} (h : rangeEnd low n y = some (p, k)) : n ≤ k := by
  unfold rangeEnd at h
  split at h
  · split at h
    · cases h
      exact Nat.le_refl _
    · split at h
      · cases h
      · split at h
        · cases h
          omega
        · cases h
  · cases h
    exact Nat.le_refl _

theorem rangeEnd_of_ne {low : Char} (h : a ≠ '-') : rangeEnd low n (a :: y) = some (exactly low, n) := by
  unfold rangeEnd
  split
  · rename_i hText
    exact absurd (List.cons.inj hText).1 h
  · rfl

/-- The character behind the text is looked at, and the one after it if that is a hyphen. -/
theorem rangeEnd_append {low : Char} (h : rangeEnd low n (y ++ rest) = some (p, k)) (hLong : k < n + y.length)
    (hDash : y[k - n]? = some '-' → k + 1 < n + y.length) (rest' : List Char) :
    rangeEnd low n (y ++ rest') = some (p, k) := by
  rcases y with _ | ⟨a, y⟩
  · have := rangeEnd_length h
    simp only [List.length_nil] at hLong
    omega
  · by_cases ha : a = '-'
    · subst ha
      rcases y with _ | ⟨c, y⟩
      · -- a single character, and then the hyphen is the one behind the text
        obtain rfl : k = n := by
          have := rangeEnd_length h
          simp only [List.length_cons, List.length_nil] at hLong
          omega
        simp at hDash
      · simp only [List.cons_append, rangeEnd] at h ⊢
        by_cases hBracket : c = ']'
        · rw [if_pos hBracket] at h ⊢
          exact h
        · rw [if_neg hBracket] at h ⊢
          by_cases hHyphen : c = '-'
          · rw [if_pos hHyphen] at h ⊢
            exact h
          · rw [if_neg hHyphen] at h ⊢
            split at h
            · cases h
            · rename_i high m hHigh
              have hHigh' : symbol (c :: (y ++ rest')) = some (high, m) := by
                refine symbol_append (y := c :: y) hHigh ?_ rest'
                split at h
                · cases h
                  simp only [List.length_cons] at hLong ⊢
                  omega
                · cases h
              rw [hHigh']
              exact h
    · rw [List.cons_append, rangeEnd_of_ne ha] at h ⊢
      exact h

theorem rangeTerm_append (h : rangeTerm (y ++ rest) = some (p, k)) (hLong : k < y.length)
    (hDash : y[k]? = some '-' → k + 1 < y.length) (rest' : List Char) : rangeTerm (y ++ rest') = some (p, k) := by
  unfold rangeTerm at h ⊢
  split at h
  · cases h
  · rename_i low n hLow
    have hFirst : n < y.length := Nat.lt_of_le_of_lt (rangeEnd_length h) hLong
    have hDrop : ∀ rest, (y ++ rest).drop n = y.drop n ++ rest := fun rest =>
      List.drop_append_of_le_length (Nat.le_of_lt hFirst)
    have hLength := rangeEnd_length h
    rw [hDrop] at h
    rw [symbol_append hLow hFirst rest']
    dsimp only
    rw [hDrop]
    refine rangeEnd_append h ?_ (fun hHyphen => ?_) rest'
    · rw [List.length_drop]
      omega
    · rw [List.getElem?_drop, Nat.add_sub_cancel' hLength] at hHyphen
      have := hDash hHyphen
      rw [List.length_drop]
      omega

theorem term_eq_rangeTerm (h : ¬(a = '[' ∧ (b = ':' ∨ b = '='))) : term (a :: b :: y) = rangeTerm (a :: b :: y) := by
  unfold term
  split
  · rename_i hText
    obtain ⟨rfl, rfl, -⟩ : _ ∧ _ ∧ _ := by simpa using hText
    exact absurd ⟨rfl, .inl rfl⟩ h
  · rename_i hText
    obtain ⟨rfl, rfl, -⟩ : _ ∧ _ ∧ _ := by simpa using hText
    exact absurd ⟨rfl, .inr rfl⟩ h
  · rfl

theorem term_pos (h : term y = some (p, k)) : 0 < k := by
  unfold term at h
  split at h
  · unfold classTerm at h
    split at h
    · obtain ⟨q, -, hResult⟩ := Option.map_eq_some_iff.mp h
      cases hResult
      omega
    · cases h
  · rw [equivalenceTerm_length h]
    exact Nat.succ_pos 4
  · unfold rangeTerm at h
    split at h
    · cases h
    · exact Nat.lt_of_lt_of_le (symbol_pos ‹_›) (rangeEnd_length h)

theorem term_append (h : term (y ++ rest) = some (p, k)) (hLong : k < y.length)
    (hDash : y[k]? = some '-' → k + 1 < y.length) (rest' : List Char) : term (y ++ rest') = some (p, k) := by
  have hPos := term_pos h
  rcases y with _ | ⟨a, _ | ⟨b, y⟩⟩
  · cases hLong
  · simp only [List.length_cons, List.length_nil] at hLong
    omega
  · by_cases hRange : a = '[' ∧ (b = ':' ∨ b = '=')
    · obtain ⟨rfl, rfl | rfl⟩ := hRange
      · exact classTerm_append (y := y) h hLong rest'
      · have hLength := equivalenceTerm_length (y := y ++ rest) h
        simp only [List.length_cons] at hLong
        exact equivalenceTerm_append (y := y) h (by omega) rest'
    · rw [List.cons_append, List.cons_append, term_eq_rangeTerm hRange] at h ⊢
      exact rangeTerm_append h hLong hDash rest'

/-- What a bracket, a hyphen or a term at the front of a list makes of it. -/
theorem members_cases (h : members 0 (c :: y) = some (p, k)) :
    c = ']' ∧ k = 1 ∧ p = (fun _ => false) ∨ c = '-' ∧ k = 2 ∧ p = exactly '-' ∧ y.head? = some ']' ∨
      c ≠ ']' ∧ c ≠ '-' ∧ ∃ q n list, term (c :: y) = some (q, n) ∧ members (n - 1) y = some list ∧
        p = (fun c => q c || list.1 c) ∧ k = list.2 + 1 := by
  unfold members at h
  split at h
  · rename_i hBracket
    cases h
    exact .inl ⟨hBracket, rfl, rfl⟩
  · rename_i hBracket
    split at h
    · rename_i hHyphen
      split at h
      · cases h
        exact .inr (.inl ⟨hHyphen, rfl, rfl, ‹_›⟩)
      · cases h
    · rename_i hHyphen
      split at h
      · cases h
      · obtain ⟨list, hList, hResult⟩ := Option.map_eq_some_iff.mp h
        obtain ⟨rfl, rfl⟩ := Prod.mk.inj hResult
        exact .inr (.inr ⟨hBracket, hHyphen, _, _, list, ‹_›, hList, rfl, rfl⟩)

theorem members_length (h : members skip y = some (p, k)) : skip < k := by
  induction y generalizing skip p k with
  | nil => cases skip <;> cases h
  | cons c y ih =>
    cases skip with
    | succ skip =>
      obtain ⟨list, hList, hResult⟩ := Option.map_eq_some_iff.mp h
      cases hResult
      exact Nat.succ_lt_succ (ih hList)
    | zero =>
      obtain ⟨-, rfl, -⟩ | ⟨-, rfl, -⟩ | ⟨-, -, _, _, _, -, -, -, rfl⟩ := members_cases h <;> omega

theorem members_le (h : members skip y = some (p, k)) : k ≤ y.length := by
  induction y generalizing skip p k with
  | nil => cases skip <;> cases h
  | cons c y ih =>
    rw [List.length_cons]
    cases skip with
    | succ skip =>
      obtain ⟨list, hList, hResult⟩ := Option.map_eq_some_iff.mp h
      cases hResult
      exact Nat.succ_le_succ (ih hList)
    | zero =>
      obtain ⟨-, rfl, -⟩ | ⟨-, rfl, -, hHead⟩ | ⟨-, -, _, _, _, -, hList, -, rfl⟩ := members_cases h
      · exact Nat.le_add_left 1 _
      · cases y with
        | nil => cases hHead
        | cons d y => exact Nat.le_add_left 2 _
      · exact Nat.succ_le_succ (ih hList)

/-- A hyphen behind a term ends the list. -/
theorem members_hyphen (h : members skip y = some (p, k)) (hHyphen : y[skip]? = some '-') : k = skip + 2 := by
  induction y generalizing skip p k with
  | nil => cases hHyphen
  | cons c y ih =>
    cases skip with
    | succ skip =>
      obtain ⟨list, hList, hResult⟩ := Option.map_eq_some_iff.mp h
      cases hResult
      rw [ih hList (by simpa using hHyphen)]
    | zero =>
      obtain rfl : c = '-' := by simpa using hHyphen
      obtain ⟨hc, -⟩ | ⟨-, rfl, -⟩ | ⟨-, hc, -⟩ := members_cases h
      · cases hc
      · rfl
      · exact absurd rfl hc

theorem members_append (h : members skip (y ++ rest) = some (p, k)) (hLong : k ≤ y.length) (rest' : List Char) :
    members skip (y ++ rest') = some (p, k) := by
  induction y generalizing skip p k with
  | nil => exact absurd (members_length h) (by simp only [List.length_nil] at hLong; omega)
  | cons c y ih =>
    rw [List.cons_append] at h ⊢
    rw [List.length_cons] at hLong
    cases skip with
    | succ skip =>
      obtain ⟨list, hList, hResult⟩ := Option.map_eq_some_iff.mp h
      cases hResult
      rw [members, ih hList (Nat.le_of_succ_le_succ hLong)]
      rfl
    | zero =>
      obtain ⟨rfl, rfl, rfl⟩ | ⟨rfl, rfl, rfl, hHead⟩ | ⟨hBracket, hHyphen, q, n, list, hTerm, hList, rfl, rfl⟩ :=
        members_cases h
      · rfl
      · rcases y with _ | ⟨d, y⟩
        · simp at hLong
        · obtain rfl : d = ']' := by simpa using hHead
          rfl
      · have hSkip := members_length hList
        have hPos := term_pos hTerm
        have hTerm' : term (c :: (y ++ rest')) = some (q, n) := by
          refine term_append (y := c :: y) hTerm (by rw [List.length_cons]; omega) (fun hNext => ?_) rest'
          obtain ⟨n, rfl⟩ := Nat.exists_eq_succ_of_ne_zero (Nat.ne_of_gt hPos)
          have hNext' : (y ++ rest)[n]? = some '-' := by
            rw [List.getElem?_append_left (by omega)]
            simpa using hNext
          have := members_hyphen hList (by simpa using hNext')
          rw [List.length_cons]
          omega
        unfold members
        rw [if_neg hBracket, if_neg hHyphen, hTerm']
        dsimp only
        rw [ih hList (Nat.le_of_succ_le_succ hLong)]
        rfl

theorem bracketList_length (h : bracketList y = some (p, k)) : 0 < k := by
  unfold bracketList at h
  split at h
  · cases h
  · split at h
    · obtain ⟨list, -, hResult⟩ := Option.map_eq_some_iff.mp h
      cases hResult
      exact Nat.succ_pos _
    · exact members_length h

theorem bracketList_append (h : bracketList (y ++ rest) = some (p, k)) (hLong : k ≤ y.length) (rest' : List Char) :
    bracketList (y ++ rest') = some (p, k) := by
  rcases y with _ | ⟨c, y⟩
  · exact absurd (bracketList_length h) (Nat.not_lt.mpr hLong)
  · rw [List.cons_append, bracketList] at h ⊢
    split at h
    · rename_i hFirst
      obtain ⟨list, hList, hResult⟩ := Option.map_eq_some_iff.mp h
      cases hResult
      rw [if_pos hFirst, members_append hList (Nat.le_of_succ_le_succ hLong)]
      rfl
    · rename_i hFirst
      rw [if_neg hFirst]
      exact members_append (y := c :: y) h hLong rest'

theorem bracket_length (h : bracket y = some (p, k)) : 0 < k := by
  unfold bracket at h
  split at h
  · obtain ⟨list, -, hResult⟩ := Option.map_eq_some_iff.mp h
    cases hResult
    exact Nat.succ_pos _
  · exact bracketList_length h

theorem bracketList_le (h : bracketList y = some (p, k)) : k ≤ y.length := by
  unfold bracketList at h
  split at h
  · cases h
  · split at h
    · obtain ⟨list, hList, hResult⟩ := Option.map_eq_some_iff.mp h
      cases hResult
      exact Nat.succ_le_succ (members_le hList)
    · exact members_le h

theorem bracket_le (h : bracket y = some (p, k)) : k ≤ y.length := by
  unfold bracket at h
  split at h
  · obtain ⟨list, hList, hResult⟩ := Option.map_eq_some_iff.mp h
    cases hResult
    exact Nat.succ_le_succ (bracketList_le hList)
  · exact bracketList_le h

/-- What follows the closing bracket does not count. -/
theorem bracket_append (h : bracket (y ++ rest) = some (p, k)) (hLong : k ≤ y.length) (rest' : List Char) :
    bracket (y ++ rest') = some (p, k) := by
  rcases y with _ | ⟨c, y⟩
  · exact absurd (bracket_length h) (Nat.not_lt.mpr hLong)
  · by_cases hInvert : c = '^'
    · subst hInvert
      obtain ⟨list, hList, hResult⟩ := Option.map_eq_some_iff.mp h
      cases hResult
      rw [List.cons_append, bracket, bracketList_append hList (Nat.le_of_succ_le_succ hLong)]
      rfl
    · have hPlain : ∀ rest, bracket (c :: (y ++ rest)) = bracketList (c :: (y ++ rest)) := fun rest => by
        unfold bracket
        split
        · exact absurd (List.cons.inj ‹_›).1 hInvert
        · rfl
      rw [List.cons_append, hPlain] at h ⊢
      exact bracketList_append (y := c :: y) h hLong rest'

end BeShare.Lib.Ere
