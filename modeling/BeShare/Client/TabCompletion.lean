import BeShare.Lib.CommonPrefix
import Mathlib.Data.List.TakeWhile

/-! The completion of user names in `ShareWindow`. The beep is left out. -/

namespace BeShare.Client.TabCompletion

open BeShare.Lib

/-- `tolower`, which changes the letters of ASCII only. -/
def toLower (c : UInt8) : UInt8 :=
  if 65 ≤ c ∧ c ≤ 90 then c + 32 else c

def toLowerCase (s : List UInt8) : List UInt8 :=
  s.map toLower

/-- `IsSpaceChar` -/
def isSpaceChar (c : UInt8) : Bool :=
  c == 32 || c == 9 || c == 13 || c == 10

def trim (s : List UInt8) : List UInt8 :=
  ((s.dropWhile isSpaceChar).reverse.dropWhile isSpaceChar).reverse

/-- A user with the handle that is displayed. `PutUser` trims it. -/
structure RemoteUserItem where
  sessionID : List UInt8
  displayHandle : List UInt8
  trimmed : trim displayHandle = displayHandle

/-- The user passes the filter, and its name starts with `un`. -/
def matchesName (un : List UInt8) (optMatchFilter : Option (RemoteUserItem → Bool)) (next : RemoteUserItem) : Bool :=
  optMatchFilter.all (· next) && un.isPrefixOf (trim (toLowerCase next.displayHandle))

/-- One step of `MatchUserName`: `result` is the name of the first match, cut off where another one differs. -/
def matchStep (un : List UInt8) (optMatchFilter : Option (RemoteUserItem → Bool)) (found : Nat × List UInt8)
    (next : RemoteUserItem) : Nat × List UInt8 :=
  if matchesName un optMatchFilter next then
    if found.1 + 1 = 1 then (1, next.displayHandle)
    else
      (found.1 + 1, cut found.2 (firstDifference (toLowerCase found.2) (trim (toLowerCase next.displayHandle))))
  else found

/-- The number of matches, and what they have in common. -/
def matchUserName (users : List RemoteUserItem) (un : List UInt8)
    (optMatchFilter : Option (RemoteUserItem → Bool)) : Nat × List UInt8 :=
  users.foldl (matchStep un optMatchFilter) (0, [])

/-- The places where the words start. -/
def wordStarts : Bool → Nat → List UInt8 → List Nat
  | _, _, [] => []
  | true, i, c :: s => if c ≠ 32 ∧ c ≠ 9 then i :: wordStarts false (i + 1) s else wordStarts true (i + 1) s
  | false, i, c :: s => if c = 32 ∨ c = 9 then wordStarts true (i + 1) s else wordStarts false (i + 1) s

/-- The words are tried from the last to the first, until one has a unique match. Otherwise the last one that was tried
with several matches counts. -/
def tryWords (users : List RemoteUserItem) (optMatchFilter : Option (RemoteUserItem → Bool)) (text : List UInt8) :
    List Nat → Option (Nat × List UInt8) → Option (Nat × List UInt8)
  | [], backup => backup
  | i :: words, backup =>
    let found := matchUserName users (text.drop i) optMatchFilter
    if found.1 = 1 then some (i, found.2)
    else tryWords users optMatchFilter text words (if 1 < found.1 then some (i, found.2) else backup)

/-- `DoTabCompletion`: the status, and the completed text. -/
def doTabCompletion (users : List RemoteUserItem) (optMatchFilter : Option (RemoteUserItem → Bool))
    (origText returnCompletedText : List UInt8) : Bool × List UInt8 :=
  let text := toLowerCase origText
  match tryWords users optMatchFilter text (wordStarts true 0 text).reverse none with
  | some (startAt, matchString) => (true, origText.take startAt ++ matchString)
  | none => (false, returnCompletedText)

variable {users users' : List RemoteUserItem} {un : List UInt8} {optMatchFilter : Option (RemoteUserItem → Bool)}

/-! ### The matches -/

/-- The names of the users that match. -/
def matchSet (users : List RemoteUserItem) (un : List UInt8) (optMatchFilter : Option (RemoteUserItem → Bool)) :
    List (List UInt8) :=
  (users.filter (matchesName un optMatchFilter)).map RemoteUserItem.displayHandle

theorem isSpaceChar_of_le {c : UInt8} (h : 33 ≤ c.toNat) : isSpaceChar c = false := by
  have hNe : ∀ d : UInt8, d.toNat < 33 → (c == d) = false := by
    intro d hd
    rw [beq_eq_false_iff_ne]
    rintro rfl
    omega
  rw [isSpaceChar, hNe 32 (by decide), hNe 9 (by decide), hNe 13 (by decide), hNe 10 (by decide)]
  rfl

theorem isSpaceChar_toLower (c : UInt8) : isSpaceChar (toLower c) = isSpaceChar c := by
  unfold toLower
  split
  · rename_i h
    obtain ⟨hLow, hHigh⟩ := h
    have hLow : 65 ≤ c.toNat := UInt8.le_iff_toNat_le.mp hLow
    have hHigh : c.toNat ≤ 90 := UInt8.le_iff_toNat_le.mp hHigh
    have hSum : (c + 32).toNat = c.toNat + 32 := by
      rw [UInt8.toNat_add, show (32 : UInt8).toNat = 32 from rfl]
      exact Nat.mod_eq_of_lt (by omega)
    rw [isSpaceChar_of_le (by omega), isSpaceChar_of_le (by omega)]
  · rfl

theorem trim_toLowerCase (s : List UInt8) : trim (toLowerCase s) = toLowerCase (trim s) := by
  have hSame : isSpaceChar ∘ toLower = isSpaceChar := funext isSpaceChar_toLower
  simp only [trim, toLowerCase, List.dropWhile_map, hSame, ← List.map_reverse]

theorem RemoteUserItem.trim_displayHandle (user : RemoteUserItem) :
    trim (toLowerCase user.displayHandle) = toLowerCase user.displayHandle := by
  rw [trim_toLowerCase, user.trimmed]

/-- What `MatchUserName` has found, when these are the names that match. -/
structure Found (found : Nat × List UInt8) (names : List (List UInt8)) : Prop where
  count : found.1 = names.length
  common : names ≠ [] → IsLongestCommonPrefix (toLowerCase found.2) (names.map toLowerCase)
  whole : ∀ name, names = [name] → found.2 = name
  none : names = [] → found.2 = []

theorem Found.step {found : Nat × List UInt8} {names : List (List UInt8)} (h : Found found names)
    {next : RemoteUserItem} (hNext : matchesName un optMatchFilter next = true) :
    Found (matchStep un optMatchFilter found next) (names ++ [next.displayHandle]) := by
  have hCount := h.count
  rw [matchStep, if_pos hNext]
  cases names with
  | nil =>
    rw [List.length_nil] at hCount
    rw [hCount, if_pos rfl]
    refine ⟨rfl, fun _ => isLongestCommonPrefix_singleton _, fun name hName => ?_, fun h => ?_⟩
    · exact List.head_eq_of_cons_eq hName
    · exact absurd h (List.cons_ne_nil _ _)
  | cons name names =>
    rw [List.length_cons] at hCount
    rw [if_neg (by omega), next.trim_displayHandle]
    refine ⟨?_, fun _ => ?_, fun other hOther => ?_, fun h => absurd h (List.cons_ne_nil _ _)⟩
    · rw [List.length_append, hCount]
      rfl
    · rw [toLowerCase, map_cut, List.map_append]
      exact (h.common (List.cons_ne_nil _ _)).snoc _
    · have hLength := congrArg List.length hOther
      simp at hLength

theorem matchUserName_found (users : List RemoteUserItem) (un : List UInt8)
    (optMatchFilter : Option (RemoteUserItem → Bool)) :
    Found (matchUserName users un optMatchFilter) (matchSet users un optMatchFilter) := by
  suffices h : ∀ found names, Found found names →
      Found (users.foldl (matchStep un optMatchFilter) found) (names ++ matchSet users un optMatchFilter) by
    exact h (0, []) [] ⟨rfl, fun h => absurd rfl h, fun _ h => absurd h.symm (List.cons_ne_nil _ _), fun _ => rfl⟩
  induction users with
  | nil =>
    intro found names h
    rwa [matchSet, List.filter_nil, List.map_nil, List.append_nil]
  | cons next users ih =>
    intro found names h
    rw [List.foldl_cons]
    by_cases hNext : matchesName un optMatchFilter next = true
    · have hStep := ih _ _ (h.step hNext)
      rw [List.append_assoc, List.singleton_append] at hStep
      rw [matchSet, List.filter_cons_of_pos hNext, List.map_cons]
      exact hStep
    · have hSame : matchStep un optMatchFilter found next = found := if_neg hNext
      rw [hSame, matchSet, List.filter_cons_of_neg hNext]
      exact ih found names h

/-- The text that is looked for starts each name that matches. -/
theorem prefix_of_mem_matchSet {name : List UInt8} (h : name ∈ matchSet users un optMatchFilter) :
    un <+: toLowerCase name := by
  obtain ⟨user, hUser, rfl⟩ := List.mem_map.mp h
  have hMatches := (List.mem_filter.mp hUser).2
  rw [matchesName, Bool.and_eq_true, user.trim_displayHandle] at hMatches
  exact List.isPrefixOf_iff_prefix.mp hMatches.2

/-! ### The words -/

/-- A word with one match only is taken. Without any, it is a word with several matches, or the backup. -/
theorem tryWords_cases (users : List RemoteUserItem) (optMatchFilter : Option (RemoteUserItem → Bool))
    (text : List UInt8) (words : List Nat) (backup : Option (Nat × List UInt8)) :
    (∃ i ∈ words, (matchSet users (text.drop i) optMatchFilter).length = 1 ∧
        tryWords users optMatchFilter text words backup =
          some (i, (matchUserName users (text.drop i) optMatchFilter).2)) ∨
      (∀ j ∈ words, (matchSet users (text.drop j) optMatchFilter).length ≠ 1) ∧
        ((∃ i ∈ words, matchSet users (text.drop i) optMatchFilter ≠ [] ∧
            tryWords users optMatchFilter text words backup =
              some (i, (matchUserName users (text.drop i) optMatchFilter).2)) ∨
          (∀ j ∈ words, matchSet users (text.drop j) optMatchFilter = []) ∧
            tryWords users optMatchFilter text words backup = backup) := by
  induction words generalizing backup with
  | nil => exact .inr ⟨List.forall_mem_nil _, .inr ⟨List.forall_mem_nil _, rfl⟩⟩
  | cons i words ih =>
    have hCount := (matchUserName_found users (text.drop i) optMatchFilter).count
    by_cases hOne : (matchSet users (text.drop i) optMatchFilter).length = 1
    · left
      refine ⟨i, List.mem_cons_self, hOne, ?_⟩
      exact if_pos (hCount.trans hOne)
    · have hNext : tryWords users optMatchFilter text (i :: words) backup = tryWords users optMatchFilter text words
          (if 1 < (matchUserName users (text.drop i) optMatchFilter).1
            then some (i, (matchUserName users (text.drop i) optMatchFilter).2) else backup) :=
        if_neg fun h => hOne (hCount.symm.trans h)
      rw [hNext]
      rcases ih (if 1 < (matchUserName users (text.drop i) optMatchFilter).1
          then some (i, (matchUserName users (text.drop i) optMatchFilter).2) else backup) with
        ⟨j, hj, hUnique, hTry⟩ | ⟨hNone, ⟨j, hj, hSome, hTry⟩ | ⟨hEmpty, hTry⟩⟩
      · exact .inl ⟨j, List.mem_cons_of_mem _ hj, hUnique, hTry⟩
      · refine .inr ⟨List.forall_mem_cons.mpr ⟨hOne, hNone⟩, .inl ?_⟩
        exact ⟨j, List.mem_cons_of_mem _ hj, hSome, hTry⟩
      · refine .inr ⟨List.forall_mem_cons.mpr ⟨hOne, hNone⟩, ?_⟩
        rw [hTry]
        by_cases hMany : 1 < (matchUserName users (text.drop i) optMatchFilter).1
        · left
          refine ⟨i, List.mem_cons_self, ?_, if_pos hMany⟩
          rw [← List.length_pos_iff_ne_nil, ← hCount]
          omega
        · right
          refine ⟨List.forall_mem_cons.mpr ⟨?_, hEmpty⟩, if_neg hMany⟩
          rw [← List.length_eq_zero_iff]
          omega

/-! ### The completion -/

theorem toLowerCase_append (s t : List UInt8) : toLowerCase (s ++ t) = toLowerCase s ++ toLowerCase t :=
  List.map_append

theorem toLowerCase_drop (s : List UInt8) (i : Nat) : (toLowerCase s).drop i = toLowerCase (s.drop i) :=
  List.map_drop.symm

/-- The places where the words of a text start, from the last to the first. -/
def words (origText : List UInt8) : List Nat :=
  (wordStarts true 0 (toLowerCase origText)).reverse

/-- The names that complete the text from the place on. -/
def completions (users : List RemoteUserItem) (optMatchFilter : Option (RemoteUserItem → Bool))
    (origText : List UInt8) (i : Nat) : List (List UInt8) :=
  matchSet users (toLowerCase (origText.drop i)) optMatchFilter

/-- The text ends, from the place on, with what is common to the names. The place is that of a word with one name only,
if there is one. -/
structure Completed (users : List RemoteUserItem) (optMatchFilter : Option (RemoteUserItem → Bool))
    (origText completedText : List UInt8) (i : Nat) (names : List (List UInt8)) (common : List UInt8) : Prop where
  word : i ∈ words origText
  found : names = completions users optMatchFilter origText i
  some : names ≠ []
  best : names.length = 1 ∨ ∀ j ∈ words origText, (completions users optMatchFilter origText j).length ≠ 1
  text : completedText = origText.take i ++ common
  typed : toLowerCase origText <+: toLowerCase completedText
  longest : IsLongestCommonPrefix (toLowerCase common) (names.map toLowerCase)
  whole : ∀ name, names = [name] → common = name

/-- What was found for the word at the place completes the text. -/
theorem completed_of_chosen {origText : List UInt8} {i : Nat} (hWord : i ∈ words origText)
    (hSome : completions users optMatchFilter origText i ≠ [])
    (hBest : (completions users optMatchFilter origText i).length = 1 ∨
      ∀ j ∈ words origText, (completions users optMatchFilter origText j).length ≠ 1) :
    Completed users optMatchFilter origText
      (origText.take i ++ (matchUserName users (toLowerCase (origText.drop i)) optMatchFilter).2) i
      (completions users optMatchFilter origText i)
      (matchUserName users (toLowerCase (origText.drop i)) optMatchFilter).2 := by
  have hFound := matchUserName_found users (toLowerCase (origText.drop i)) optMatchFilter
  have hLongest := hFound.common hSome
  refine ⟨hWord, rfl, hSome, hBest, rfl, ?_, hLongest, hFound.whole⟩
  have hTyped : toLowerCase (origText.drop i) <+:
      toLowerCase (matchUserName users (toLowerCase (origText.drop i)) optMatchFilter).2 := by
    apply hLongest.longest
    intro s hs
    obtain ⟨name, hName, rfl⟩ := List.mem_map.mp hs
    exact prefix_of_mem_matchSet hName
  have hSplit : toLowerCase origText = toLowerCase (origText.take i) ++ toLowerCase (origText.drop i) := by
    rw [← toLowerCase_append, List.take_append_drop]
  rw [hSplit, toLowerCase_append]
  exact (List.prefix_append_right_inj _).mpr hTyped

/-- A completion that succeeds extends the typed text by what the names have in common. One that fails has no match for
any word, and leaves the text alone. -/
theorem doTabCompletion_completes (users : List RemoteUserItem) (optMatchFilter : Option (RemoteUserItem → Bool))
    (origText returnCompletedText : List UInt8) :
    ((doTabCompletion users optMatchFilter origText returnCompletedText).1 = true ∧ ∃ i names common,
        Completed users optMatchFilter origText (doTabCompletion users optMatchFilter origText returnCompletedText).2
          i names common) ∨
      doTabCompletion users optMatchFilter origText returnCompletedText = (false, returnCompletedText) ∧
        ∀ i ∈ words origText, completions users optMatchFilter origText i = [] := by
  have hText : ∀ i, (toLowerCase origText).drop i = toLowerCase (origText.drop i) := toLowerCase_drop origText
  have hCases := tryWords_cases users optMatchFilter (toLowerCase origText)
    (words origText) none
  simp only [hText] at hCases
  rcases hCases with ⟨i, hWord, hOne, hTry⟩ | ⟨hNone, ⟨i, hWord, hSome, hTry⟩ | ⟨hEmpty, hTry⟩⟩
  · left
    have hSome : completions users optMatchFilter origText i ≠ [] := by
      rw [← List.length_pos_iff_ne_nil, completions, hOne]
      exact Nat.one_pos
    rw [words] at hTry
    simp only [doTabCompletion, hTry]
    exact ⟨trivial, i, _, _, completed_of_chosen hWord hSome (.inl hOne)⟩
  · left
    rw [words] at hTry
    simp only [doTabCompletion, hTry]
    exact ⟨trivial, i, _, _, completed_of_chosen hWord hSome (.inr hNone)⟩
  · right
    rw [words] at hTry
    simp only [doTabCompletion, hTry]
    exact ⟨trivial, hEmpty⟩

/-! ### The order of the users -/

theorem matchSet_perm (hPerm : users.Perm users') (un : List UInt8)
    (optMatchFilter : Option (RemoteUserItem → Bool)) :
    (matchSet users un optMatchFilter).Perm (matchSet users' un optMatchFilter) :=
  (hPerm.filter _).map _

theorem matchUserName_perm (hPerm : users.Perm users') (un : List UInt8)
    (optMatchFilter : Option (RemoteUserItem → Bool)) :
    (matchUserName users un optMatchFilter).1 = (matchUserName users' un optMatchFilter).1 ∧
      toLowerCase (matchUserName users un optMatchFilter).2 =
        toLowerCase (matchUserName users' un optMatchFilter).2 := by
  have hFound := matchUserName_found users un optMatchFilter
  have hFound' := matchUserName_found users' un optMatchFilter
  have hSame := matchSet_perm hPerm un optMatchFilter
  have hCount := (hFound.count.trans hSame.length_eq).trans hFound'.count.symm
  refine ⟨hCount, ?_⟩
  by_cases hNone : matchSet users un optMatchFilter = []
  · have hNone' : matchSet users' un optMatchFilter = [] := (hNone ▸ hSame).nil_eq.symm
    rw [hFound.none hNone, hFound'.none hNone']
  · have hNone' : matchSet users' un optMatchFilter ≠ [] := fun h => hNone (h ▸ hSame).eq_nil
    apply (hFound.common hNone).unique
    exact (hFound'.common hNone').congr fun s => ((hSame.map _).mem_iff).symm

/-- Up to case, the order of the users does not matter. -/
theorem tryWords_perm (hPerm : users.Perm users') (optMatchFilter : Option (RemoteUserItem → Bool))
    (text : List UInt8) (words : List Nat) (backup backup' : Option (Nat × List UInt8))
    (hBackup : backup.map (Prod.map id toLowerCase) = backup'.map (Prod.map id toLowerCase)) :
    (tryWords users optMatchFilter text words backup).map (Prod.map id toLowerCase) =
      (tryWords users' optMatchFilter text words backup').map (Prod.map id toLowerCase) := by
  induction words generalizing backup backup' with
  | nil => exact hBackup
  | cons i words ih =>
    obtain ⟨hCount, hLower⟩ := matchUserName_perm hPerm (text.drop i) optMatchFilter
    have hFound : (some (i, (matchUserName users (text.drop i) optMatchFilter).2)).map (Prod.map id toLowerCase) =
        (some (i, (matchUserName users' (text.drop i) optMatchFilter).2)).map (Prod.map id toLowerCase) := by
      simp only [Option.map_some, Prod.map, hLower]
    rw [tryWords, tryWords]
    simp only [hCount]
    split
    · exact hFound
    · apply ih
      split
      · exact hFound
      · exact hBackup

theorem doTabCompletion_perm (hPerm : users.Perm users') (origText returnCompletedText : List UInt8) :
    Prod.map id toLowerCase (doTabCompletion users optMatchFilter origText returnCompletedText) =
      Prod.map id toLowerCase (doTabCompletion users' optMatchFilter origText returnCompletedText) := by
  have hSame := tryWords_perm hPerm optMatchFilter (toLowerCase origText) (words origText) none none rfl
  rw [words] at hSame
  simp only [doTabCompletion]
  split
  · rename_i startAt matchString hTry
    rw [hTry, Option.map_some] at hSame
    obtain ⟨⟨startAt', matchString'⟩, hTry', hEq⟩ := Option.map_eq_some_iff.mp hSame.symm
    obtain ⟨rfl, hLower⟩ := Prod.mk.inj hEq
    rw [hTry']
    simp only [Prod.map, id_eq, toLowerCase_append, hLower]
  · rename_i hTry
    rw [hTry, Option.map_none] at hSame
    rw [Option.map_eq_none_iff.mp hSame.symm]

end BeShare.Client.TabCompletion
