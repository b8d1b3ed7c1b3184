import BeShare.Client.LabelledURLs
import BeShare.Client.UserTargets
import BeShare.Lib.Substring
import Mathlib.Data.List.DropRight
import Mathlib.Data.List.ModifyLast
import Mathlib.Tactic.Common

/-!
The text that the chat window puts out for a chat text: `InsertChatText` looks for the URLs and their labels word by
word, and then for each URL in the text that is left.
-/

namespace BeShare.Client.ChatText

open BeShare.Lib
open BeShare.Client.LabelledURLs (isLink)
open BeShare.Client.UserTargets (trim)
open BeShare.Muscle.Reflect (Str)

def isBreak (c : Char) : Bool :=
  c == '\r' || c == '\n'

def isBlank (c : Char) : Bool :=
  c == ' ' || isBreak c

/-! ### The code -/

/-- A URL may end with this. -/
def isURLEnd (c : Char) : Bool :=
  (decide ('0' ≤ c) && decide (c ≤ '9')) || (decide ('a' ≤ c) && decide (c ≤ 'z')) ||
    (decide ('A' ≤ c) && decide (c ≤ 'Z')) || c == '/' || c == '&'

def startsWithIgnoreCase (s start : Str) : Bool :=
  (start.map Char.toLower).isPrefixOf (s.map Char.toLower)

def processURL (url : Str) : Str :=
  if startsWithIgnoreCase url "beshare:".toList || startsWithIgnoreCase url "share:".toList ||
      startsWithIgnoreCase url "priv:".toList then
    url
  else
    match url with
    | [] => []
    -- One character stays.
    | c :: rest => c :: (rest.reverse.dropWhile (!isURLEnd ·)).reverse

/-- The index of the bracket that brings the count to zero, and the count behind it. The count is one that wraps. -/
def findMatchingBracket : (count : UInt32) → Str → Option Nat × UInt32
  | count, [] => (none, count)
  | count, c :: s =>
    if c = '[' then (findMatchingBracket (count + 1) s).map (·.map (· + 1)) id
    else if c = ']' then
      if count - 1 = 0 then (some 0, 0) else (findMatchingBracket (count - 1) s).map (·.map (· + 1)) id
    else (findMatchingBracket count s).map (·.map (· + 1)) id

/-- What the loop over the words keeps: `urls` and `labels`, pair by pair, and its two flags. -/
structure Scan where
  links : List (Str × Str)
  lastWasURL : Bool
  inLabelCount : UInt32

/-- `labels.Tail()` is changed. -/
def setLabel (f : Str → Str) (links : List (Str × Str)) : List (Str × Str) :=
  links.modifyLast fun link => (link.1, f link.2)

def Scan.word (s : Scan) (next : Str) : Scan :=
  if 0 < s.inLabelCount then
    match findMatchingBracket s.inLabelCount next with
    | (some rbIndex, count) => ⟨setLabel (· ++ next.take rbIndex) s.links, s.lastWasURL, count⟩
    | (none, count) => ⟨setLabel (· ++ next ++ [' ']) s.links, s.lastWasURL, count⟩
  else if isLink next then ⟨s.links ++ [(processURL next, [])], true, s.inLabelCount⟩
  else if s.lastWasURL && next.head? == some '[' then
    match findMatchingBracket (s.inLabelCount + 1) (next.drop 1) with
    | (some rbIndex, count) => ⟨setLabel (fun _ => (next.drop 1).take rbIndex) s.links, false, count⟩
    | (none, count) => ⟨setLabel (· ++ next.drop 1 ++ [' ']) s.links, false, count⟩
  else s

def Scan.words (s : Scan) (line : Str) : Scan :=
  (tokens (· == ' ') line).foldl Scan.word s

/-- A line is over. If the user forgot to close his bracket, the text gets one. -/
def Scan.finish (s : Scan) (text : Str) : List (Str × Str) × Str :=
  (s.links, if 0 < s.inLabelCount then text ++ [']'] else text)

def readLine (read : List (Str × Str) × Str) (line : Str) : List (Str × Str) × Str :=
  (Scan.words ⟨read.1, false, 0⟩ line).finish read.2

/-- The URLs with their labels, and the text with the brackets that it got. -/
def readLines (text : Str) : List (Str × Str) × Str :=
  (tokens isBreak text).foldl readLine ([], text)

/-- The texts that go to `InsertChatTextAux`. -/
def insertURLs : Str → List (Str × Str) → List Str
  | text, [] => if text = [] then [] else [text]
  | text, (url, label) :: links =>
    let label := trim label
    let urlIndex := (firstIndex url text).getD 0
    let before := if 0 < urlIndex then [text.take urlIndex] else []
    let text := (text.drop urlIndex).drop url.length
    if label = [] then before ++ url :: insertURLs text links
    else
      match (findMatchingBracket 0 text).1 with
      | some rbIndex => before ++ label :: insertURLs (text.drop (rbIndex + 1)) links
      | none => before ++ label :: insertURLs [] links

def insertChatText (t : Str) (textLen : Nat) : List Str :=
  if textLen = 0 then []
  else
    let (links, text) := readLines (t.take textLen)
    if links.isEmpty then [t.take textLen] else insertURLs text links

/-! ### The text that is meant -/

/-- The depth of the brackets behind a character, unless it closes the outermost. -/
def turn (depth : Nat) (c : Char) : Option Nat :=
  if c = '[' then some (depth + 1)
  else if c = ']' then (if depth = 0 then none else some (depth - 1))
  else some depth

def level (depth : Nat) (s : Str) : Option Nat :=
  s.foldlM turn depth

/-- The label up to its bracket, which is on the same line, and what comes behind. -/
def closing : (depth : Nat) → Str → Option (Str × Str)
  | _, [] => none
  | depth, c :: s =>
    if isBreak c then none
    else
      match turn depth c with
      | none => some ([], s)
      | some depth' => (closing depth' s).map fun parts => (c :: parts.1, parts.2)

/-- Spaces, and then a label in brackets. -/
def label? (s : Str) : Option (Str × Str × Str) :=
  match s.dropWhile (· == ' ') with
  | '[' :: text => (closing 0 text).map fun parts => (s.takeWhile (· == ' '), parts.1, parts.2)
  | _ => none

/-- A text is made of these. A labelled URL has the rest of the word that its label ends in. -/
inductive Seg where
  | blank (c : Char)
  | word (w : Str)
  | url (w : Str)
  | labelled (w gap label rest : Str)

namespace Seg

def source : Seg → Str
  | blank c => [c]
  | word w => w
  | url w => w
  | labelled w gap label rest => w ++ gap ++ '[' :: label ++ ']' :: rest

/-- The label stands for a labelled URL, and all else is kept. -/
def shown : Seg → Str
  | blank c => [c]
  | word w => w
  | url w => w
  | labelled _ _ label rest => label ++ rest

end Seg

/-- The first `n` parts of a text. -/
def parse : Nat → Str → List Seg
  | 0, _ => []
  | _ + 1, [] => []
  | n + 1, c :: s =>
    if isBlank c then .blank c :: parse n s
    else
      let w := (c :: s).takeWhile (!isBlank ·)
      let after := (c :: s).dropWhile (!isBlank ·)
      if isLink w then
        match label? after with
        | some (gap, label, rest) =>
          .labelled w gap label (rest.takeWhile (!isBlank ·)) :: parse n (rest.dropWhile (!isBlank ·))
        | none => .url w :: parse n after
      else .word w :: parse n after

/-- Each part takes a character at least, so these are all. -/
def segs (text : Str) : List Seg :=
  parse text.length text

def shown (text : Str) : Str :=
  (segs text).flatMap Seg.shown

/-! ### What goes wrong -/

/-- What is left of the text up to the end of a URL's word, when the URL is found in it. -/
def left (pending w : Str) : Str :=
  (pending ++ w).drop ((firstIndex (processURL w) (pending ++ w)).getD 0 + (processURL w).length)

/-- A label that is put out as it stands. -/
structure Tidy (label : Str) : Prop where
  nonempty : label ≠ []
  trimmed : trim label = label
  single : [' '].intercalate (tokens (· == ' ') label) = label

instance (label : Str) : Decidable (Tidy label) :=
  decidable_of_iff (label ≠ [] ∧ trim label = label ∧ [' '].intercalate (tokens (· == ' ') label) = label)
    ⟨fun h => ⟨h.1, h.2.1, h.2.2⟩, fun h => ⟨h.nonempty, h.trimmed, h.single⟩⟩

/-- Nothing misleads the search for the labels and URLs. `looking` is set behind a URL without a label, and `pending` is
text that was not put out yet. -/
def Clear : (looking : Bool) → (pending : Str) → List Seg → Prop
  | _, _, [] => True
  | looking, pending, .blank c :: segs => Clear (looking && !isBreak c) (pending ++ [c]) segs
  | looking, pending, .word w :: segs => ¬(looking = true ∧ w.head? = some '[') ∧ Clear looking (pending ++ w) segs
  | _, pending, .url w :: segs => Clear true (left pending w) segs
  | _, pending, .labelled w _ label rest :: segs =>
    firstIndex (processURL w) (pending ++ w) = some pending.length ∧
      (∀ c ∈ w.drop (processURL w).length, c ≠ '[' ∧ c ≠ ']') ∧ Tidy label ∧ Clear false rest segs

instance Clear.decidable :
    (looking : Bool) → (pending : Str) → (parts : List Seg) → Decidable (Clear looking pending parts)
  | _, _, [] => inferInstanceAs (Decidable True)
  | looking, pending, .blank c :: segs => Clear.decidable (looking && !isBreak c) (pending ++ [c]) segs
  | looking, pending, .word w :: segs =>
    have := Clear.decidable looking (pending ++ w) segs
    inferInstanceAs (Decidable (¬(looking = true ∧ w.head? = some '[') ∧ Clear looking (pending ++ w) segs))
  | _, pending, .url w :: segs => Clear.decidable true (left pending w) segs
  | _, pending, .labelled w _ label rest :: segs =>
    have := Clear.decidable false rest segs
    have : Decidable (∀ c ∈ w.drop (processURL w).length, c ≠ '[' ∧ c ≠ ']') := List.decidableBAll _ _
    inferInstanceAs (Decidable (firstIndex (processURL w) (pending ++ w) = some pending.length ∧
      (∀ c ∈ w.drop (processURL w).length, c ≠ '[' ∧ c ≠ ']') ∧ Tidy label ∧ Clear false rest segs))

variable {a s w label rest gap pending text u l v : Str} {c : Char} {d d' : Nat} {looking : Bool}
  {links : List (Str × Str)} {parts : List Seg}

/-! ### Brackets -/

theorem level_append : level d (a ++ s) = (level d a).bind (level · s) :=
  List.foldlM_append ..

theorem turn_le (h : turn d c = some d') : d' ≤ d + 1 := by
  unfold turn at h
  split_ifs at h <;> cases h <;> omega

theorem level_le (h : level d a = some d') : d' ≤ d + a.length := by
  induction a generalizing d with
  | nil =>
    exact Nat.le_of_eq (Option.some.inj h).symm
  | cons c a ih =>
    obtain ⟨d₁, hTurn, hRest⟩ := Option.bind_eq_some_iff.mp h
    have hStep := turn_le hTurn
    have hLater := ih hRest
    rw [List.length_cons]
    omega

/-- The count is one more than the depth. -/
theorem findMatchingBracket_turn (h : turn d c = some d') (hSmall : d + 1 < 2 ^ 32) (s : Str) :
    findMatchingBracket (.ofNat (d + 1)) (c :: s) =
      (findMatchingBracket (.ofNat (d' + 1)) s).map (·.map (· + 1)) id := by
  unfold turn at h
  rw [findMatchingBracket]
  split at h
  · rename_i hOpen
    cases h
    rw [if_pos hOpen, UInt32.ofNat_add (d + 1) 1]
    rfl
  rename_i hOpen
  rw [if_neg hOpen]
  split at h
  · rename_i hClose
    rw [if_pos hClose]
    split at h
    · cases h
    rename_i hDeep
    cases h
    obtain ⟨d, rfl⟩ := Nat.exists_eq_succ_of_ne_zero hDeep
    have hLess : UInt32.ofNat (d + 1 + 1) - 1 = UInt32.ofNat (d + 1) := by
      rw [UInt32.ofNat_add (d + 1) 1]
      exact UInt32.add_sub_cancel _ _
    have hPos : UInt32.ofNat (d + 1) ≠ 0 := by
      intro hZero
      have hNat : (UInt32.ofNat (d + 1)).toNat = 0 := congrArg UInt32.toNat hZero
      rw [UInt32.toNat_ofNat_of_lt' (Nat.lt_of_succ_lt hSmall)] at hNat
      exact Nat.succ_ne_zero d hNat
    rw [Nat.succ_eq_add_one, hLess, if_neg hPos, Nat.add_sub_cancel]
  · rename_i hClose
    cases h
    rw [if_neg hClose]

/-- Text that leaves the brackets open is passed over. -/
theorem findMatchingBracket_level (h : level d a = some d') (hSmall : d + a.length + 1 < 2 ^ 32) (s : Str) :
    findMatchingBracket (.ofNat (d + 1)) (a ++ s) =
      (findMatchingBracket (.ofNat (d' + 1)) s).map (·.map (· + a.length)) id := by
  induction a generalizing d with
  | nil =>
    cases h
    simp [Prod.map]
  | cons c a ih =>
    obtain ⟨d₁, hTurn, hRest⟩ := Option.bind_eq_some_iff.mp h
    have hStep := turn_le hTurn
    rw [List.length_cons] at hSmall
    rw [List.cons_append, findMatchingBracket_turn hTurn (by omega), ih hRest (by omega)]
    simp [Prod.map, Function.comp_def, Nat.add_assoc]

theorem findMatchingBracket_open (h : level d a = some d') (hSmall : d + a.length + 1 < 2 ^ 32) :
    findMatchingBracket (.ofNat (d + 1)) a = (none, .ofNat (d' + 1)) := by
  have hPass := findMatchingBracket_level h hSmall []
  rw [List.append_nil] at hPass
  rw [hPass]
  rfl

theorem findMatchingBracket_closed (h : level d a = some 0) (hSmall : d + a.length + 1 < 2 ^ 32) (s : Str) :
    findMatchingBracket (.ofNat (d + 1)) (a ++ ']' :: s) = (some a.length, 0) := by
  rw [findMatchingBracket_level h hSmall]
  simp [findMatchingBracket, Prod.map]

theorem findMatchingBracket_plain {count : UInt32} (h : ∀ c ∈ a, c ≠ '[' ∧ c ≠ ']') (s : Str) :
    findMatchingBracket count (a ++ s) = (findMatchingBracket count s).map (·.map (· + a.length)) id := by
  induction a with
  | nil => simp [Prod.map]
  | cons c a ih =>
    obtain ⟨⟨hOpen, hClose⟩, hRest⟩ := List.forall_mem_cons.mp h
    rw [List.cons_append, findMatchingBracket, if_neg hOpen, if_neg hClose, ih hRest]
    simp [Prod.map, Function.comp_def, Nat.add_assoc]

theorem closing_spec (h : closing d s = some (label, rest)) :
    s = label ++ ']' :: rest ∧ level d label = some 0 ∧ ∀ c ∈ label, isBreak c = false := by
  induction s generalizing d label with
  | nil => cases h
  | cons c s ih =>
    unfold closing at h
    split at h
    · cases h
    rename_i hBreak
    split at h
    · rename_i hTurn
      cases h
      unfold turn at hTurn
      split_ifs at hTurn with hOpen hClose hZero
      subst hClose hZero
      exact ⟨rfl, rfl, fun _ hIn => (List.not_mem_nil hIn).elim⟩
    · rename_i d' hTurn
      obtain ⟨⟨l, r⟩, hClosing, hSame⟩ := Option.map_eq_some_iff.mp h
      cases hSame
      obtain ⟨rfl, hLevel, hLine⟩ := ih hClosing
      refine ⟨rfl, ?_, List.forall_mem_cons.mpr ⟨Bool.not_eq_true _ ▸ hBreak, hLine⟩⟩
      show (turn d c).bind (level · l) = some 0
      rw [hTurn]
      exact hLevel

/-! ### The loop over the words -/

theorem setLabel_concat (f : Str → Str) (links : List (Str × Str)) (u l : Str) :
    setLabel f (links ++ [(u, l)]) = links ++ [(u, f l)] :=
  List.modifyLast_concat ..

theorem pos_count (h : d + 1 < 2 ^ 32) : 0 < UInt32.ofNat (d + 1) := by
  rw [UInt32.lt_iff_toNat_lt, UInt32.toNat_ofNat_of_lt' h]
  exact Nat.succ_pos d

/-- A word inside of a label. -/
theorem word_open (h : level d v = some d') (hSmall : d + v.length + 1 < 2 ^ 32) :
    Scan.word ⟨links ++ [(u, l)], looking, .ofNat (d + 1)⟩ v =
      ⟨links ++ [(u, l ++ v ++ [' '])], looking, .ofNat (d' + 1)⟩ := by
  unfold Scan.word
  rw [if_pos (pos_count (by omega))]
  dsimp only
  rw [findMatchingBracket_open h hSmall]
  dsimp only
  rw [setLabel_concat]

/-- The word that a label ends in. -/
theorem word_closed (h : level d v = some 0) (hSmall : d + v.length + 1 < 2 ^ 32) :
    Scan.word ⟨links ++ [(u, l)], looking, .ofNat (d + 1)⟩ (v ++ ']' :: rest) =
      ⟨links ++ [(u, l ++ v)], looking, 0⟩ := by
  unfold Scan.word
  rw [if_pos (pos_count (by omega))]
  dsimp only
  rw [findMatchingBracket_closed h hSmall]
  dsimp only
  rw [setLabel_concat, List.take_left]

theorem isLink_bracket (s : Str) : isLink ('[' :: s) = false :=
  rfl

/-- The word that a label starts with. -/
theorem word_first_open (h : level 0 v = some d') (hSmall : v.length + 1 < 2 ^ 32) :
    Scan.word ⟨links ++ [(u, [])], true, 0⟩ ('[' :: v) = ⟨links ++ [(u, v ++ [' '])], false, .ofNat (d' + 1)⟩ := by
  unfold Scan.word
  rw [if_neg (show ¬(0 : UInt32) < 0 by decide), isLink_bracket, if_neg Bool.false_ne_true,
    if_pos (show (true && ('[' :: v).head? == some '[') = true from rfl)]
  have hOpen : findMatchingBracket (0 + 1) (('[' :: v).drop 1) = (none, .ofNat (d' + 1)) :=
    findMatchingBracket_open (d := 0) (a := v) h (by omega)
  dsimp only
  rw [hOpen]
  dsimp only
  rw [setLabel_concat]
  rfl

theorem word_first_closed (h : level 0 v = some 0) (hSmall : v.length + 1 < 2 ^ 32) :
    Scan.word ⟨links ++ [(u, [])], true, 0⟩ ('[' :: (v ++ ']' :: rest)) = ⟨links ++ [(u, v)], false, 0⟩ := by
  unfold Scan.word
  rw [if_neg (show ¬(0 : UInt32) < 0 by decide), isLink_bracket, if_neg Bool.false_ne_true,
    if_pos (show (true && ('[' :: (v ++ ']' :: rest)).head? == some '[') = true from rfl)]
  have hClosed : findMatchingBracket (0 + 1) (('[' :: (v ++ ']' :: rest)).drop 1) = (some v.length, 0) :=
    findMatchingBracket_closed (d := 0) (a := v) h (by omega) rest
  dsimp only
  rw [hClosed]
  dsimp only
  rw [setLabel_concat, List.drop_succ_cons, List.drop_zero, List.take_left]

theorem word_link (h : isLink w = true) :
    Scan.word ⟨links, looking, 0⟩ w = ⟨links ++ [(processURL w, [])], true, 0⟩ := by
  unfold Scan.word
  rw [if_neg (show ¬(0 : UInt32) < 0 by decide), if_pos h]

theorem word_plain (h : isLink w = false) (hQuiet : ¬(looking = true ∧ w.head? = some '[')) :
    Scan.word ⟨links, looking, 0⟩ w = ⟨links, looking, 0⟩ := by
  unfold Scan.word
  rw [if_neg (show ¬(0 : UInt32) < 0 by decide), if_neg (by rw [h]; exact Bool.false_ne_true), if_neg]
  rwa [Bool.and_eq_true, beq_iff_eq]

/-! ### The rest of the text -/

/-- The reading goes on inside of a line, and then with the lines behind it. -/
def continued (s : Scan) (text rest : Str) : List (Str × Str) × Str :=
  (tokens isBreak (rest.dropWhile (!isBreak ·))).foldl readLine
    ((s.words (rest.takeWhile (!isBreak ·))).finish text)

theorem finish_fresh : Scan.finish ⟨links, looking, 0⟩ text = (links, text) :=
  rfl

/-- A line starts here. -/
theorem continued_fresh :
    (tokens isBreak rest).foldl readLine (links, text) = continued ⟨links, false, 0⟩ text rest := by
  have hSplit := List.takeWhile_append_dropWhile (p := (!isBreak ·)) (l := rest)
  have hStop := List.head?_dropWhile_not (!isBreak ·) rest
  have hPlain : ∀ c ∈ rest.takeWhile (!isBreak ·), isBreak c = false := fun c hc => by
    simpa using List.mem_takeWhile_imp hc
  unfold continued
  generalize rest.takeWhile (!isBreak ·) = line at *
  generalize rest.dropWhile (!isBreak ·) = later at *
  subst hSplit
  by_cases hLine : line = []
  · subst hLine
    rfl
  · cases later with
    | nil =>
      rw [List.append_nil, tokens_of_plain hLine hPlain]
      rfl
    | cons c later =>
      have hc : isBreak c = true := by simpa using hStop
      rw [tokens_append_sep hLine hPlain hc, tokens_cons_sep hc]
      rfl

theorem readLines_eq (text : Str) : readLines text = continued ⟨[], false, 0⟩ text text :=
  continued_fresh

theorem continued_break (h : isBreak c = true) :
    continued ⟨links, looking, 0⟩ text (c :: rest) = continued ⟨links, false, 0⟩ text rest := by
  rw [← continued_fresh, ← tokens_cons_sep h]
  unfold continued
  rw [List.takeWhile_cons_of_neg (by rw [h]; exact Bool.false_ne_true),
    List.dropWhile_cons_of_neg (by rw [h]; exact Bool.false_ne_true)]
  rfl

theorem continued_space (s : Scan) : continued s text (' ' :: rest) = continued s text rest := by
  unfold continued Scan.words
  rw [List.takeWhile_cons_of_pos rfl, List.dropWhile_cons_of_pos rfl, tokens_cons_sep rfl]

theorem continued_spaces (s : Scan) (h : ∀ c ∈ gap, c = ' ') :
    continued s text (gap ++ rest) = continued s text rest := by
  induction gap with
  | nil => rfl
  | cons c gap ih =>
    obtain ⟨rfl, hRest⟩ := List.forall_mem_cons.mp h
    rw [List.cons_append, continued_space, ih hRest]

/-- A word is read, which a blank ends. -/
theorem continued_word (s : Scan) (hWord : w ≠ []) (hPlain : ∀ c ∈ w, isBlank c = false)
    (hEnd : ∀ c ∈ rest.head?, isBlank c = true) : continued s text (w ++ rest) = continued (s.word w) text rest := by
  have hNoBreak : ∀ c ∈ w, (!isBreak c) = true := fun c hc => by
    have hBlank := hPlain c hc
    rw [isBlank, Bool.or_eq_false_iff] at hBlank
    rw [hBlank.2]
    rfl
  have hNoSpace : ∀ c ∈ w, (c == ' ') = false := fun c hc => by
    have hBlank := hPlain c hc
    rw [isBlank, Bool.or_eq_false_iff] at hBlank
    exact hBlank.1
  unfold continued Scan.words
  rw [List.takeWhile_append_of_pos hNoBreak, List.dropWhile_append_of_pos hNoBreak]
  congr 2
  cases rest with
  | nil =>
    rw [List.takeWhile_nil, List.append_nil, tokens_of_plain hWord hNoSpace]
    rfl
  | cons c rest =>
    have hc := hEnd c rfl
    rw [isBlank, Bool.or_eq_true] at hc
    rcases hc with hSpace | hBreak
    · obtain rfl := beq_iff_eq.mp hSpace
      rw [List.takeWhile_cons_of_pos rfl, tokens_append_sep hWord hNoSpace rfl, tokens_cons_sep rfl]
      rfl
    · rw [List.takeWhile_cons_of_neg (by rw [hBreak]; exact Bool.false_ne_true), List.append_nil,
        tokens_of_plain hWord hNoSpace]
      rfl

variable {ws : List Str} {after : Str}

/-- The words of a label up to its bracket, and then the rest of the word that it ends in. -/
theorem continued_label (hWords : ws ≠ []) (hPlain : ∀ v ∈ ws, v ≠ [] ∧ ∀ c ∈ v, isBlank c = false)
    (h : level d ([' '].intercalate ws) = some 0) (hSmall : d + ([' '].intercalate ws).length + 1 < 2 ^ 32)
    (hRest : ∀ c ∈ rest, isBlank c = false) (hEnd : ∀ c ∈ after.head?, isBlank c = true) :
    continued ⟨links ++ [(u, l)], looking, .ofNat (d + 1)⟩ text ([' '].intercalate ws ++ ']' :: (rest ++ after)) =
      continued ⟨links ++ [(u, l ++ [' '].intercalate ws)], looking, 0⟩ text after := by
  induction ws generalizing d l with
  | nil => exact absurd rfl hWords
  | cons v ws ih =>
    obtain ⟨⟨hv, hvPlain⟩, hOthers⟩ := List.forall_mem_cons.mp hPlain
    cases ws with
    | nil =>
      rw [List.intercalate_singleton] at h hSmall ⊢
      have hWord : ∀ c ∈ v ++ ']' :: rest, isBlank c = false := by
        intro c hc
        rcases List.mem_append.mp hc with hIn | hIn
        · exact hvPlain c hIn
        · rcases List.mem_cons.mp hIn with rfl | hIn
          · rfl
          · exact hRest c hIn
      rw [← List.cons_append, ← List.append_assoc,
        continued_word _ (List.append_ne_nil_of_left_ne_nil hv _) hWord hEnd, word_closed h hSmall]
    | cons v' ws =>
      rw [List.intercalate_cons_cons] at h hSmall ⊢
      rw [level_append, level_append] at h
      obtain ⟨d₂, hFirst, hLater⟩ := Option.bind_eq_some_iff.mp h
      obtain ⟨d₁, hv₁, hSpace⟩ := Option.bind_eq_some_iff.mp hFirst
      obtain rfl : d₁ = d₂ := Option.some.inj hSpace
      have hDeep := level_le hv₁
      simp only [List.length_append, List.length_singleton] at hSmall
      rw [List.append_assoc, List.append_assoc, List.singleton_append,
        continued_word _ hv hvPlain (by rintro c ⟨⟩; rfl), word_open hv₁ (by omega), continued_space,
        ih (List.cons_ne_nil _ _) hOthers hLater (by omega)]
      simp only [List.append_assoc]

/-- A label is read from its bracket on. -/
theorem continued_bracket (hWords : ws ≠ []) (hPlain : ∀ v ∈ ws, v ≠ [] ∧ ∀ c ∈ v, isBlank c = false)
    (h : level 0 ([' '].intercalate ws) = some 0) (hSmall : ([' '].intercalate ws).length + 1 < 2 ^ 32)
    (hRest : ∀ c ∈ rest, isBlank c = false) (hEnd : ∀ c ∈ after.head?, isBlank c = true) :
    continued ⟨links ++ [(u, [])], true, 0⟩ text ('[' :: ([' '].intercalate ws ++ ']' :: (rest ++ after))) =
      continued ⟨links ++ [(u, [' '].intercalate ws)], false, 0⟩ text after := by
  obtain ⟨v, ws, rfl⟩ := List.exists_cons_of_ne_nil hWords
  obtain ⟨⟨hv, hvPlain⟩, hOthers⟩ := List.forall_mem_cons.mp hPlain
  cases ws with
  | nil =>
    rw [List.intercalate_singleton] at h hSmall ⊢
    have hWord : ∀ c ∈ '[' :: (v ++ ']' :: rest), isBlank c = false := by
      intro c hc
      rcases List.mem_cons.mp hc with rfl | hc
      · rfl
      rcases List.mem_append.mp hc with hIn | hIn
      · exact hvPlain c hIn
      · rcases List.mem_cons.mp hIn with rfl | hIn
        · rfl
        · exact hRest c hIn
    rw [show '[' :: (v ++ ']' :: (rest ++ after)) = '[' :: (v ++ ']' :: rest) ++ after by simp,
      continued_word _ (List.cons_ne_nil _ _) hWord hEnd, word_first_closed h hSmall]
  | cons v' ws =>
    rw [List.intercalate_cons_cons] at h hSmall ⊢
    rw [level_append, level_append] at h
    obtain ⟨d₂, hFirst, hLater⟩ := Option.bind_eq_some_iff.mp h
    obtain ⟨d₁, hv₁, hSpace⟩ := Option.bind_eq_some_iff.mp hFirst
    obtain rfl : d₁ = d₂ := Option.some.inj hSpace
    have hDeep := level_le hv₁
    simp only [List.length_append, List.length_singleton] at hSmall
    have hWord : ∀ c ∈ '[' :: v, isBlank c = false := List.forall_mem_cons.mpr ⟨rfl, hvPlain⟩
    rw [List.append_assoc, List.append_assoc, List.singleton_append, ← List.cons_append,
      continued_word _ (List.cons_ne_nil _ _) hWord (by rintro c ⟨⟩; rfl), word_first_open hv₁ (by omega),
      continued_space, continued_label (List.cons_ne_nil _ _) hOthers hLater (by omega) hRest hEnd]

/-! ### The parts of a text -/

def source (parts : List Seg) : Str :=
  parts.flatMap Seg.source

/-- The parts of a text, where a blank or the end of the text comes behind each word. -/
inductive Parsed : List Seg → Prop where
  | nil : Parsed []
  | blank {c : Char} {parts : List Seg} : isBlank c = true → Parsed parts → Parsed (.blank c :: parts)
  | word {w : Str} {parts : List Seg} : w ≠ [] → (∀ c ∈ w, isBlank c = false) → isLink w = false →
      (∀ c ∈ (source parts).head?, isBlank c = true) → Parsed parts → Parsed (.word w :: parts)
  | url {w : Str} {parts : List Seg} : w ≠ [] → (∀ c ∈ w, isBlank c = false) → isLink w = true →
      (∀ c ∈ (source parts).head?, isBlank c = true) → Parsed parts → Parsed (.url w :: parts)
  | labelled {w gap label rest : Str} {parts : List Seg} : w ≠ [] → (∀ c ∈ w, isBlank c = false) → isLink w = true →
      gap ≠ [] → (∀ c ∈ gap, c = ' ') → level 0 label = some 0 → (∀ c ∈ label, isBreak c = false) →
      (∀ c ∈ rest, isBlank c = false) → (∀ c ∈ (source parts).head?, isBlank c = true) → Parsed parts →
      Parsed (.labelled w gap label rest :: parts)

theorem takeWhile_plain (s : Str) : ∀ c ∈ s.takeWhile (!isBlank ·), isBlank c = false := fun c hc => by
  simpa using List.mem_takeWhile_imp hc

theorem head?_dropWhile_blank (s : Str) : ∀ c ∈ (s.dropWhile (!isBlank ·)).head?, isBlank c = true := by
  intro c hc
  have hStop := List.head?_dropWhile_not (!isBlank ·) s
  rw [Option.mem_def.mp hc] at hStop
  simpa using hStop

theorem label?_spec (h : label? s = some (gap, label, rest)) :
    s = gap ++ '[' :: (label ++ ']' :: rest) ∧ (∀ c ∈ gap, c = ' ') ∧ level 0 label = some 0 ∧
      ∀ c ∈ label, isBreak c = false := by
  unfold label? at h
  split at h
  · rename_i inside hDrop
    obtain ⟨⟨l, r⟩, hClosing, hSame⟩ := Option.map_eq_some_iff.mp h
    cases hSame
    obtain ⟨rfl, hLevel, hLine⟩ := closing_spec hClosing
    refine ⟨?_, fun c hc => beq_iff_eq.mp (List.mem_takeWhile_imp (p := (· == ' ')) hc), hLevel, hLine⟩
    rw [← hDrop, List.takeWhile_append_dropWhile]
  · cases h

/-- The parts make up the text. -/
theorem parse_spec {n : Nat} (h : s.length ≤ n) : Parsed (parse n s) ∧ source (parse n s) = s := by
  induction n generalizing s with
  | zero =>
    obtain rfl := List.eq_nil_of_length_eq_zero (Nat.le_zero.mp h)
    exact ⟨.nil, rfl⟩
  | succ n ih =>
    cases s with
    | nil => exact ⟨.nil, rfl⟩
    | cons c s =>
      rw [parse]
      split
      · rename_i hBlank
        obtain ⟨hParsed, hSource⟩ := ih (Nat.le_of_succ_le_succ h)
        exact ⟨.blank hBlank hParsed, congrArg (c :: ·) hSource⟩
      rename_i hBlank
      have hPass : (!isBlank c) = true := by simpa using hBlank
      have hWord : (c :: s).takeWhile (!isBlank ·) ≠ [] := by
        rw [List.takeWhile_cons_of_pos (p := (!isBlank ·)) hPass]
        exact List.cons_ne_nil _ _
      have hPlain := takeWhile_plain (c :: s)
      have hEnd := head?_dropWhile_blank (c :: s)
      have hSplit := List.takeWhile_append_dropWhile (p := (!isBlank ·)) (l := c :: s)
      have hShorter : ((c :: s).dropWhile (!isBlank ·)).length ≤ n := by
        rw [List.dropWhile_cons_of_pos (p := (!isBlank ·)) hPass]
        exact Nat.le_trans (List.length_dropWhile_le _ s) (Nat.le_of_succ_le_succ h)
      generalize (c :: s).takeWhile (!isBlank ·) = w at *
      generalize (c :: s).dropWhile (!isBlank ·) = after at *
      dsimp only
      split
      · rename_i hLink
        split
        · rename_i gap label rest hLabel
          obtain ⟨rfl, hGap, hLevel, hLine⟩ := label?_spec hLabel
          have hRest := List.takeWhile_append_dropWhile (p := (!isBlank ·)) (l := rest)
          have hLess : (rest.dropWhile (!isBlank ·)).length ≤ n := by
            have hDrop := List.length_dropWhile_le (!isBlank ·) rest
            simp only [List.length_append, List.length_cons] at hShorter
            omega
          obtain ⟨hParsed, hSource⟩ := ih hLess
          refine ⟨.labelled hWord hPlain hLink ?_ hGap hLevel hLine (takeWhile_plain rest) ?_ hParsed, ?_⟩
          · rintro rfl
            exact absurd (hEnd '[' rfl) (by decide)
          · rw [hSource]
            exact head?_dropWhile_blank rest
          · rw [← hSplit]
            simp only [source, List.flatMap_cons, Seg.source] at hSource ⊢
            rw [hSource, List.append_assoc, List.append_assoc, List.cons_append, List.append_assoc, List.cons_append,
              hRest]
        · obtain ⟨hParsed, hSource⟩ := ih hShorter
          refine ⟨.url hWord hPlain hLink (by rwa [hSource]) hParsed, ?_⟩
          rw [source, List.flatMap_cons, Seg.source, ← source, hSource, hSplit]
      · rename_i hLink
        obtain ⟨hParsed, hSource⟩ := ih hShorter
        refine ⟨.word hWord hPlain (Bool.eq_false_of_not_eq_true hLink) (by rwa [hSource]) hParsed, ?_⟩
        rw [source, List.flatMap_cons, Seg.source, ← source, hSource, hSplit]

/-! ### What is put out -/

theorem processURL_prefix (w : Str) : processURL w <+: w := by
  unfold processURL
  split
  · exact List.prefix_refl w
  · split
    · exact List.prefix_refl []
    · rename_i c rest hNot
      exact List.cons_prefix_cons.mpr ⟨rfl, List.rdropWhile_prefix (!isURLEnd ·) rest⟩

theorem processURL_ne_nil (h : w ≠ []) : processURL w ≠ [] := by
  unfold processURL
  split
  · exact h
  · split
    · exact absurd rfl h
    · exact List.cons_ne_nil _ _

/-- The URL is found in the text that is left, at its word or before. -/
theorem exists_found (hWord : w ≠ []) (pending : Str) :
    ∃ before, pending ++ w = before ++ processURL w ++ left pending w ∧
      firstIndex (processURL w) (pending ++ w) = some before.length := by
  obtain ⟨tail, hTail⟩ := processURL_prefix w
  have hURL := processURL_ne_nil hWord
  obtain ⟨i, -, hFirst⟩ := exists_firstIndex hURL pending tail
  rw [List.append_assoc, hTail] at hFirst
  obtain ⟨before, after, hSplit, rfl, -⟩ := firstIndex_some hURL hFirst
  refine ⟨before, ?_, hFirst⟩
  rw [left, hFirst, Option.getD_some, hSplit, ← List.length_append, List.drop_left]

theorem flatten_insertURLs_nil (text : Str) : (insertURLs text []).flatten = text := by
  unfold insertURLs
  split
  · rename_i hText
    rw [hText]
    rfl
  · exact List.flatten_singleton

/-- The text before a URL goes out. -/
theorem flatten_before (before after : Str) :
    (if 0 < before.length then [(before ++ after).take before.length] else []).flatten = before := by
  rw [List.take_left]
  split
  · exact List.flatten_singleton
  · rename_i hEmpty
    exact (List.eq_nil_of_length_eq_zero (Nat.eq_zero_of_not_pos hEmpty)).symm

variable {before : Str}

/-- A URL without a label goes out. -/
theorem insertURLs_url (hFirst : firstIndex u (before ++ u ++ after) = some before.length) :
    (insertURLs (before ++ u ++ after) ((u, []) :: links)).flatten =
      before ++ u ++ (insertURLs after links).flatten := by
  rw [insertURLs, hFirst]
  dsimp only [Option.getD_some]
  rw [if_pos (show trim [] = [] from rfl), List.flatten_append, List.append_assoc before u after, flatten_before,
    List.drop_left, List.drop_left, List.flatten_cons, List.append_assoc]

/-- A label goes out for its URL, and the text goes on behind the bracket. -/
theorem insertURLs_labelled {skipped : Str} {rbIndex : Nat}
    (hFirst : firstIndex u (before ++ u ++ (skipped ++ after)) = some before.length) (hTidy : Tidy l)
    (hBracket : (findMatchingBracket 0 (skipped ++ after)).1 = some rbIndex) (hLength : skipped.length = rbIndex + 1) :
    (insertURLs (before ++ u ++ (skipped ++ after)) ((u, l) :: links)).flatten =
      before ++ l ++ (insertURLs after links).flatten := by
  rw [insertURLs, hFirst]
  dsimp only [Option.getD_some]
  rw [hTidy.trimmed, if_neg hTidy.nonempty, List.append_assoc before u, List.drop_left, List.drop_left, hBracket]
  dsimp only
  rw [List.flatten_append, flatten_before, ← hLength, List.drop_left, List.flatten_cons, List.append_assoc]

/-- The words of a tidy label. -/
theorem Tidy.words (h : Tidy label) (hLine : ∀ c ∈ label, isBreak c = false) :
    tokens (· == ' ') label ≠ [] ∧ ∀ v ∈ tokens (· == ' ') label, v ≠ [] ∧ ∀ c ∈ v, isBlank c = false := by
  constructor
  · intro hNone
    have hJoined := h.single
    rw [hNone] at hJoined
    exact h.nonempty hJoined.symm
  · intro v hv
    obtain ⟨hNonempty, hPlain, x, y, rfl, -, -⟩ := mem_tokens hv
    refine ⟨hNonempty, fun c hc => ?_⟩
    rw [isBlank, hPlain c hc, hLine c (List.mem_append_left _ (List.mem_append_right _ hc))]
    rfl

theorem Tidy.continued_bracket (h : Tidy label) (hLine : ∀ c ∈ label, isBreak c = false)
    (hLevel : level 0 label = some 0) (hSmall : label.length + 1 < 2 ^ 32) (hRest : ∀ c ∈ rest, isBlank c = false)
    (hEnd : ∀ c ∈ after.head?, isBlank c = true) :
    continued ⟨links ++ [(u, [])], true, 0⟩ text ('[' :: (label ++ ']' :: (rest ++ after))) =
      continued ⟨links ++ [(u, label)], false, 0⟩ text after := by
  obtain ⟨hWords, hPlain⟩ := h.words hLine
  have hJoined := h.single
  generalize tokens (· == ' ') label = ws at *
  subst hJoined
  exact ChatText.continued_bracket hWords hPlain hLevel hSmall hRest hEnd

/-- The text of a labelled URL behind the URL, up to the bracket. -/
theorem bracket_labelled {tail : Str} (hTail : ∀ c ∈ tail, c ≠ '[' ∧ c ≠ ']') (hGap : ∀ c ∈ gap, c = ' ')
    (hLevel : level 0 label = some 0) (hSmall : label.length + 1 < 2 ^ 32) (s : Str) :
    (findMatchingBracket 0 (tail ++ gap ++ '[' :: (label ++ ']' :: s))).1 =
      some (label.length + 1 + (tail ++ gap).length) := by
  have hPlain : ∀ c ∈ tail ++ gap, c ≠ '[' ∧ c ≠ ']' := by
    intro c hc
    rcases List.mem_append.mp hc with hIn | hIn
    · exact hTail c hIn
    · rw [hGap c hIn]
      decide
  have hClosed := findMatchingBracket_closed hLevel (by omega) s
  rw [findMatchingBracket_plain hPlain, findMatchingBracket, if_pos rfl,
    show (0 : UInt32) + 1 = .ofNat (0 + 1) from rfl, hClosed]
  rfl

/-- The URLs are read with their labels, and the text goes out as it is meant. -/
theorem insertURLs_source (hParsed : Parsed parts) (hClear : Clear looking pending parts)
    (hSmall : (source parts).length < 2 ^ 31) : ∃ found : List (Str × Str),
      (∀ links text, continued ⟨links, looking, 0⟩ text (source parts) = (links ++ found, text)) ∧
      (insertURLs (pending ++ source parts) found).flatten = pending ++ parts.flatMap Seg.shown := by
  induction hParsed generalizing looking pending with
  | nil =>
    refine ⟨[], fun links text => ?_, ?_⟩
    · rw [List.append_nil]
      rfl
    · exact flatten_insertURLs_nil _
  | @blank c parts hBlank hParsed ih =>
    rw [source, List.flatMap_cons, ← source, Seg.source, List.length_append] at hSmall
    obtain ⟨found, hFound, hOut⟩ := ih hClear (by omega)
    refine ⟨found, fun links text => ?_, ?_⟩
    · rw [source, List.flatMap_cons, ← source, Seg.source, List.singleton_append]
      rw [isBlank, Bool.or_eq_true] at hBlank
      by_cases hBreak : isBreak c = true
      · rw [hBreak, Bool.not_true, Bool.and_false] at hFound
        rw [continued_break hBreak, hFound]
      · obtain rfl := beq_iff_eq.mp (hBlank.resolve_right hBreak)
        rw [show isBreak ' ' = false from rfl, Bool.not_false, Bool.and_true] at hFound
        rw [continued_space, hFound]
    · rw [source, List.flatMap_cons, ← source, List.flatMap_cons, ← List.append_assoc, ← List.append_assoc]
      exact hOut
  | @word w parts hWord hPlain hLink hEnd hParsed ih =>
    obtain ⟨hQuiet, hClear⟩ := hClear
    rw [source, List.flatMap_cons, ← source, Seg.source, List.length_append] at hSmall
    obtain ⟨found, hFound, hOut⟩ := ih hClear (by omega)
    refine ⟨found, fun links text => ?_, ?_⟩
    · rw [source, List.flatMap_cons, ← source, Seg.source, continued_word _ hWord hPlain hEnd, word_plain hLink hQuiet,
        hFound]
    · rw [source, List.flatMap_cons, ← source, List.flatMap_cons, ← List.append_assoc, ← List.append_assoc]
      exact hOut
  | @url w parts hWord hPlain hLink hEnd hParsed ih =>
    rw [source, List.flatMap_cons, ← source, Seg.source, List.length_append] at hSmall
    obtain ⟨found, hFound, hOut⟩ := ih (show Clear true (left pending w) parts from hClear) (by omega)
    obtain ⟨before, hSplit, hFirst⟩ := exists_found hWord pending
    refine ⟨(processURL w, []) :: found, fun links text => ?_, ?_⟩
    · rw [source, List.flatMap_cons, ← source, Seg.source, continued_word _ hWord hPlain hEnd, word_link hLink, hFound,
        List.append_assoc, List.singleton_append]
    · have hFound' := firstIndex_append (processURL_ne_nil hWord) hFirst (source parts)
      rw [source, List.flatMap_cons, ← source, List.flatMap_cons, Seg.source, Seg.shown, ← List.append_assoc,
        ← List.append_assoc, hSplit, List.append_assoc (before ++ processURL w)] at *
      rw [insertURLs_url hFound', hOut]
      simp only [List.append_assoc]
  | @labelled w gap label rest parts hWord hPlain hLink hGap hSpaces hLevel hLine hRest hEnd hParsed ih =>
    obtain ⟨hFirst, hTail, hTidy, hClear⟩ := hClear
    have hSource : source (.labelled w gap label rest :: parts) =
        w ++ (gap ++ '[' :: (label ++ ']' :: (rest ++ source parts))) := by
      simp [source, Seg.source]
    rw [hSource] at hSmall
    simp only [List.length_append, List.length_cons] at hSmall
    obtain ⟨found, hFound, hOut⟩ := ih hClear (by omega)
    refine ⟨(processURL w, label) :: found, fun links text => ?_, ?_⟩
    · obtain ⟨space, gap, rfl⟩ := List.exists_cons_of_ne_nil hGap
      have hSpace : ∀ c ∈ (space :: gap ++ '[' :: (label ++ ']' :: (rest ++ source parts))).head?,
          isBlank c = true := by
        rintro c ⟨⟩
        rw [hSpaces space List.mem_cons_self]
        rfl
      rw [hSource, continued_word _ hWord hPlain hSpace, word_link hLink, continued_spaces _ hSpaces,
        hTidy.continued_bracket hLine hLevel (by omega) hRest hEnd, hFound, List.append_assoc, List.singleton_append]
    · obtain ⟨tail, hURL⟩ := processURL_prefix w
      have hDrop : (processURL w ++ tail).drop (processURL w).length = tail := List.drop_left
      rw [hURL] at hDrop
      rw [hDrop] at hTail
      have hText : pending ++ source (.labelled w gap label rest :: parts) =
          pending ++ processURL w ++ (tail ++ gap ++ '[' :: (label ++ [']']) ++ (rest ++ source parts)) := by
        rw [hSource, List.append_assoc pending, List.append_cancel_left_eq]
        calc w ++ (gap ++ '[' :: (label ++ ']' :: (rest ++ source parts)))
          _ = processURL w ++ tail ++ (gap ++ '[' :: (label ++ ']' :: (rest ++ source parts))) := by rw [hURL]
          _ = _ := by simp only [List.append_assoc, List.cons_append, List.nil_append]
      have hFound := firstIndex_append (processURL_ne_nil hWord) hFirst
        (gap ++ '[' :: (label ++ ']' :: (rest ++ source parts)))
      rw [List.append_assoc, ← hSource, hText] at hFound
      have hBracket : (findMatchingBracket 0 (tail ++ gap ++ '[' :: (label ++ [']']) ++ (rest ++ source parts))).1 =
          some (label.length + 1 + (tail ++ gap).length) := by
        simpa only [List.append_assoc, List.cons_append, List.nil_append] using
          bracket_labelled hTail hSpaces hLevel (by omega) (rest ++ source parts)
      have hSkipped : (tail ++ gap ++ '[' :: (label ++ [']'])).length =
          label.length + 1 + (tail ++ gap).length + 1 := by
        simp only [List.length_append, List.length_cons, List.length_nil]
        omega
      rw [hText, insertURLs_labelled hFound hTidy hBracket hSkipped, hOut]
      simp only [List.flatMap_cons, Seg.shown, List.append_assoc]

/-- Text that the search is not misled in is put out as it is meant: the labels for the labelled URLs, and all else as
it is. -/
theorem flatten_insertChatText (t : Str) (textLen : Nat) (hLength : t.length < 2 ^ 31)
    (hClear : Clear false [] (segs (t.take textLen))) :
    (insertChatText t textLen).flatten = shown (t.take textLen) := by
  unfold insertChatText
  split
  · rename_i hZero
    rw [hZero]
    rfl
  obtain ⟨hParsed, hSource⟩ := parse_spec (Nat.le_refl (t.take textLen).length)
  have hShort : (source (segs (t.take textLen))).length < 2 ^ 31 := by
    rw [segs, hSource]
    exact Nat.lt_of_le_of_lt (List.length_take_le' _ _) hLength
  obtain ⟨found, hFound, hOut⟩ := insertURLs_source hParsed hClear hShort
  have hRead : readLines (t.take textLen) = (found, t.take textLen) := by
    have hAll := hFound [] (t.take textLen)
    rwa [hSource, ← readLines_eq] at hAll
  rw [hRead]
  rw [hSource] at hOut
  dsimp only
  split
  · rename_i hNone
    rw [List.isEmpty_iff.mp hNone, flatten_insertURLs_nil] at hOut
    rw [List.flatten_singleton]
    exact hOut
  · exact hOut

def seeTheLabel : Str :=
  "see http://a, [the [b] c]. http://a [d]".toList

theorem flatten_insertChatText_seeTheLabel :
    (insertChatText seeTheLabel 39).flatten = shown (seeTheLabel.take 39) :=
  flatten_insertChatText _ _ (by decide +kernel) (by decide +kernel)

/-- A word stands between the URL and the brackets. Both words are lost. -/
theorem insertChatText_loses :
    (insertChatText "http://a see [x]".toList 16).flatten = "x".toList ∧
      shown ("http://a see [x]".toList.take 16) = "http://a see [x]".toList := by
  decide +kernel

end BeShare.Client.ChatText
