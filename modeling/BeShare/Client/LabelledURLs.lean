import Mathlib.Data.List.TakeWhile
import Mathlib.Tactic.Common

/-!
The labelled URLs of a text: a URL at the start of a word that a label in brackets follows. `SubstituteLabelledURLs`
puts the label in the place of both.
-/

namespace BeShare.Client.LabelledURLs

def LINKS : List (List Char) :=
  [['f', 'i', 'l', 'e', ':', '/', '/'], ['h', 't', 't', 'p', ':', '/', '/'], ['h', 't', 't', 'p', 's', ':', '/', '/'],
    ['m', 'a', 'i', 'l', 't', 'o', ':'], ['f', 't', 'p', ':', '/', '/'], ['a', 'u', 'd', 'i', 'o', ':', '/', '/'],
    ['b', 'e', 's', 'h', 'a', 'r', 'e', ':'], ['p', 'r', 'i', 'v', ':'], ['s', 'h', 'a', 'r', 'e', ':']]

def isLink (str : List Char) : Bool :=
  LINKS.any (·.isPrefixOf str)

def isSpace (c : Char) : Bool :=
  c == ' ' || c == '\t'

/-! ### The code -/

/-- What the loop keeps. A pointer into the text is the text from there on. -/
structure Scan where
  ret : List Char
  url : Option (List Char)
  space : Option (List Char)
  left : Option (List Char)
  lastWasSpace : Bool

/-- One turn of the loop, where `sn` points to the character `c`. -/
def Scan.read (s : Scan) (sn : List Char) (c : Char) : Scan :=
  match s.url, s.space, s.left with
  | some _, some _, some left =>
    if c = ']' then
      -- The label is what is between the bracket and `sn`.
      ⟨s.ret ++ (left.drop 1).take (left.length - 1 - sn.length), none, none, none, isSpace c⟩
    else { s with lastWasSpace := isSpace c }
  | some url, some _, none =>
    if isSpace c then { s with lastWasSpace := isSpace c }
    else if c = '[' then { s with left := some sn, lastWasSpace := isSpace c }
    -- There is no label, and the character is dumped with the URL.
    else ⟨s.ret ++ url.take (1 + (url.length - sn.length)), none, none, none, isSpace c⟩
  | some _, none, _ =>
    if isSpace c then { s with space := some sn, lastWasSpace := isSpace c }
    else { s with lastWasSpace := isSpace c }
  | none, _, _ =>
    if s.lastWasSpace && isLink sn then { s with url := some sn, lastWasSpace := isSpace c }
    else { s with ret := s.ret ++ [c], lastWasSpace := isSpace c }

def scan : Scan → List Char → Scan
  | s, [] => s
  | s, c :: sn => scan (s.read (c :: sn) c) sn

/-- The leftovers are dumped. -/
def Scan.finish (s : Scan) : List Char :=
  s.ret ++ s.url.getD []

/-- The state in which the characters are copied. -/
def copying (ret : List Char) (lastWasSpace : Bool) : Scan :=
  ⟨ret, none, none, none, lastWasSpace⟩

def substituteLabelledURLs (shortName : List Char) : List Char :=
  (scan (copying [] true) shortName).finish

/-- The URL whose label the turn dumps. -/
def Scan.dumps (s : Scan) (c : Char) : List (List Char) :=
  if s.left.isSome ∧ c = ']' then s.url.toList else []

/-- The URLs that the loop recognises as labelled ones. -/
def recognised : Scan → List Char → List (List Char)
  | _, [] => []
  | s, c :: sn => s.dumps c ++ recognised (s.read (c :: sn) c) sn

/-! ### The rewriting -/

/-- The label of the URL at the start of the text, and what follows the label. -/
def labelled? (s : List Char) : Option (List Char × List Char) :=
  if isLink s then
    match (s.dropWhile (!isSpace ·)).dropWhile isSpace with
    | '[' :: label =>
      if ']' ∈ label then some (label.takeWhile (· != ']'), (label.dropWhile (· != ']')).drop 1) else none
    | _ => none
  else none

/-- What happens to the text: a character is copied, or a labelled URL gives way to its label. `start` is the text from
the URL on, and directly before it are `behind` unlabelled URLs, with white space between them only. -/
inductive Rewriting where
  | copied (c : Char)
  | labelled (start label : List Char) (behind : Nat)

/-- The text from left to right, where the characters that `skip` counts belong to a labelled URL. -/
def rewriting : (behind : Nat) → (wordStart : Bool) → (skip : Nat) → List Char → List Rewriting
  | _, _, _, [] => []
  | behind, _, skip + 1, _ :: s => rewriting behind false skip s
  | behind, false, 0, c :: s => .copied c :: rewriting behind (isSpace c) 0 s
  | behind, true, 0, c :: s =>
    match labelled? (c :: s) with
    | some (label, rest) => .labelled (c :: s) label behind :: rewriting 0 false (s.length - rest.length) s
    | none =>
      .copied c ::
        rewriting (if isSpace c then behind else if isLink (c :: s) then behind + 1 else 0) (isSpace c) 0 s

def Rewriting.text : Rewriting → List Char
  | copied c => [c]
  | labelled _ label _ => label

/-- The place of the labelled URL. -/
def Rewriting.url? : Rewriting → Option (List Char)
  | copied _ => none
  | labelled start _ _ => some start

/-- The number of unlabelled URLs directly before the labelled one. -/
def Rewriting.behind : Rewriting → Nat
  | copied _ => 0
  | labelled _ _ behind => behind

/-- Each labelled URL gives way to its label, and all else is copied. -/
def rewrite (s : List Char) : List Char :=
  (rewriting 0 true 0 s).flatMap Rewriting.text

def labelledURLs (s : List Char) : List (List Char) :=
  (rewriting 0 true 0 s).filterMap Rewriting.url?

variable {s sn rest url ws label xs ret : List Char} {c : Char} {b : Bool} {behind : Nat}

/-! ### The turns of the loop -/

/-- The loop comes from the one state to the other, and recognises `urls` on the way. -/
structure Reads (a : Scan) (sn : List Char) (a' : Scan) (sn' : List Char) (urls : List (List Char)) : Prop where
  scan_eq : scan a sn = scan a' sn'
  recognised_eq : recognised a sn = urls ++ recognised a' sn'

namespace Reads

variable {a a' a'' : Scan} {sn sn' sn'' : List Char} {urls urls' : List (List Char)}

theorem refl (a : Scan) (sn : List Char) : Reads a sn a sn [] :=
  ⟨rfl, rfl⟩

theorem trans (h : Reads a sn a' sn' urls) (h' : Reads a' sn' a'' sn'' urls') :
    Reads a sn a'' sn'' (urls ++ urls') :=
  ⟨h.scan_eq.trans h'.scan_eq, by rw [h.recognised_eq, h'.recognised_eq, List.append_assoc]⟩

/-- A turn that dumps no label. -/
theorem step (hRead : a.read (c :: sn) c = a') (hQuiet : a.left = none ∨ c ≠ ']') : Reads a (c :: sn) a' sn [] := by
  refine ⟨by rw [scan, hRead], ?_⟩
  rw [recognised, hRead, Scan.dumps, if_neg]
  · rintro ⟨hLeft, hc⟩
    rcases hQuiet with hNone | hNot
    · rw [hNone] at hLeft
      cases hLeft
    · exact hNot hc

end Reads

theorem reads_copy (h : (b && isLink (c :: rest)) = false) :
    Reads (copying ret b) (c :: rest) (copying (ret ++ [c]) (isSpace c)) rest [] := by
  refine .step ?_ (.inl rfl)
  simp [Scan.read, copying, h]

/-- The rest of a URL, and the white space behind it. -/
theorem reads_url (ret u rest : List Char) (b : Bool) (hURL : ∀ x ∈ xs, isSpace x = false) :
    ∃ b', Reads ⟨ret, some u, none, none, b⟩ (xs ++ rest) ⟨ret, some u, none, none, b'⟩ rest [] := by
  induction xs generalizing b with
  | nil => exact ⟨b, .refl ..⟩
  | cons x xs ih =>
    rw [List.forall_mem_cons] at hURL
    obtain ⟨b', h⟩ := ih (isSpace x) hURL.2
    refine ⟨b', .trans (.step ?_ (.inl rfl)) h⟩
    simp [Scan.read, hURL.1]

theorem reads_spaces (ret u sp rest : List Char) (b : Bool) (hSpaces : ∀ x ∈ xs, isSpace x = true) :
    ∃ b', Reads ⟨ret, some u, some sp, none, b⟩ (xs ++ rest) ⟨ret, some u, some sp, none, b'⟩ rest [] := by
  induction xs generalizing b with
  | nil => exact ⟨b, .refl ..⟩
  | cons x xs ih =>
    rw [List.forall_mem_cons] at hSpaces
    obtain ⟨b', h⟩ := ih (isSpace x) hSpaces.2
    refine ⟨b', .trans (.step ?_ (.inl rfl)) h⟩
    simp [Scan.read, hSpaces.1]

theorem reads_label (ret u sp left rest : List Char) (b : Bool) (hLabel : ']' ∉ xs) :
    ∃ b', Reads ⟨ret, some u, some sp, some left, b⟩ (xs ++ rest) ⟨ret, some u, some sp, some left, b'⟩ rest [] := by
  induction xs generalizing b with
  | nil => exact ⟨b, .refl ..⟩
  | cons x xs ih =>
    rw [List.mem_cons, not_or] at hLabel
    obtain ⟨b', h⟩ := ih (isSpace x) hLabel.2
    have hx : x ≠ ']' := fun hx => hLabel.1 hx.symm
    refine ⟨b', .trans (.step ?_ (.inr hx)) h⟩
    simp [Scan.read, hx]

theorem isLink_space (h : isSpace c = true) : isLink (c :: rest) = false := by
  rw [isSpace, Bool.or_eq_true, beq_iff_eq, beq_iff_eq] at h
  rcases h with rfl | rfl <;> rfl

/-- The URL starts, and the white space behind it comes to its end. -/
theorem reads_link (ret : List Char) {w : Char} (hLink : isLink (c :: (url ++ w :: (ws ++ rest))) = true)
    (hURL : ∀ x ∈ url, isSpace x = false) (hSpaces : ∀ x ∈ w :: ws, isSpace x = true) :
    ∃ b' sp, Reads (copying ret true) (c :: (url ++ w :: (ws ++ rest)))
      ⟨ret, some (c :: (url ++ w :: (ws ++ rest))), some sp, none, b'⟩ rest [] := by
  rw [List.forall_mem_cons] at hSpaces
  obtain ⟨b₁, h₁⟩ := reads_url ret (c :: (url ++ w :: (ws ++ rest))) (w :: (ws ++ rest)) (isSpace c) hURL
  obtain ⟨b₂, h₂⟩ := reads_spaces ret (c :: (url ++ w :: (ws ++ rest))) (w :: (ws ++ rest)) rest (isSpace w) hSpaces.2
  refine ⟨b₂, w :: (ws ++ rest), .trans (.step ?_ (.inl rfl)) (.trans h₁ (.trans (.step ?_ (.inl rfl)) h₂))⟩
  · simp [Scan.read, copying, hLink]
  · simp [Scan.read, hSpaces.1]

/-- The label comes into the result, and the URL is recognised. -/
theorem reads_labelled {u sp : List Char} (hLabel : ']' ∉ label) :
    Reads ⟨ret, some u, some sp, none, b⟩ ('[' :: (label ++ ']' :: rest)) (copying (ret ++ label) false) rest [u] := by
  obtain ⟨b', h⟩ :=
    reads_label ret u sp ('[' :: (label ++ ']' :: rest)) (']' :: rest) (isSpace '[') hLabel
  have hLeft : Reads ⟨ret, some u, some sp, none, b⟩ ('[' :: (label ++ ']' :: rest))
      ⟨ret, some u, some sp, some ('[' :: (label ++ ']' :: rest)), isSpace '['⟩ (label ++ ']' :: rest) [] :=
    .step (by simp [Scan.read, show isSpace '[' = false from rfl]) (.inl rfl)
  have hRead : Scan.read ⟨ret, some u, some sp, some ('[' :: (label ++ ']' :: rest)), b'⟩ (']' :: rest) ']' =
      copying (ret ++ label) false := by
    simp [Scan.read, copying, show isSpace ']' = false from rfl]
  refine hLeft.trans (h.trans ⟨by rw [scan, hRead], ?_⟩)
  rw [recognised, hRead]
  rfl

/-- Without a label the character is copied with all from the URL on. -/
theorem reads_unlabelled (ret pre sp rest : List Char) (b : Bool) (hc : isSpace c = false) (hNot : c ≠ '[') :
    Reads ⟨ret, some (pre ++ c :: rest), some sp, none, b⟩ (c :: rest) (copying (ret ++ (pre ++ [c])) false) rest
      [] := by
  refine .step ?_ (.inl rfl)
  have hTake : (pre ++ c :: rest).take (1 + ((pre ++ c :: rest).length - (c :: rest).length)) = pre ++ [c] := by
    rw [List.length_append, Nat.add_sub_cancel, Nat.add_comm, List.take_length_add_append]
    rfl
  simp only [Scan.read, hc, hNot, hTake, copying, if_false, Bool.false_eq_true]

/-- The URLs that are recognised start where the loop is or behind, but for the one that it holds. -/
theorem length_recognised {a : Scan} {m : Nat} (hURL : ∀ u, a.url = some u → u.length ≤ m) (hRest : sn.length ≤ m) :
    ∀ u ∈ recognised a sn, u.length ≤ m := by
  induction sn generalizing a with
  | nil => exact fun u hu => nomatch hu
  | cons c sn ih =>
    intro u hu
    rw [recognised, List.mem_append] at hu
    rcases hu with hDumped | hLater
    · rw [Scan.dumps] at hDumped
      split at hDumped
      · exact hURL u (Option.mem_toList.mp hDumped)
      · cases hDumped
    · refine ih (fun v hv => ?_) (Nat.le_of_succ_le hRest) u hLater
      have hKeeps : (a.read (c :: sn) c).url = none ∨ (a.read (c :: sn) c).url = a.url ∨
          (a.read (c :: sn) c).url = some (c :: sn) := by
        unfold Scan.read
        grind
      rcases hKeeps with hNone | hSame | hNew
      · rw [hNone] at hv
        cases hv
      · exact hURL v (hSame ▸ hv)
      · rw [hNew] at hv
        cases hv
        exact hRest

/-! ### The rewriting, piece by piece -/

theorem dropWhile_bracket (h : ']' ∈ s) : s.dropWhile (· != ']') = ']' :: (s.dropWhile (· != ']')).drop 1 := by
  have hHead := List.head?_dropWhile_not (· != ']') s
  cases hDrop : s.dropWhile (· != ']') with
  | nil =>
    have hAll := List.dropWhile_eq_nil_iff.mp hDrop ']' h
    simp at hAll
  | cons c rest =>
    rw [hDrop] at hHead
    have hc : c = ']' := by simpa using hHead
    rw [hc]
    rfl

theorem exists_of_labelled? (h : labelled? s = some (label, rest)) :
    ∃ url w ws, s = url ++ w :: (ws ++ '[' :: (label ++ ']' :: rest)) ∧ isLink s = true ∧
      (∀ x ∈ url, isSpace x = false) ∧ (∀ x ∈ w :: ws, isSpace x = true) ∧ ']' ∉ label := by
  unfold labelled? at h
  split at h
  · rename_i hLink
    split at h
    · rename_i text hText
      split at h
      · rename_i hClosed
        cases h
        have hURL := List.takeWhile_append_dropWhile (p := (!isSpace ·)) (l := s)
        have hSpaces := List.takeWhile_append_dropWhile (p := isSpace) (l := s.dropWhile (!isSpace ·))
        have hLabel := List.takeWhile_append_dropWhile (p := (· != ']')) (l := text)
        have hBracket := dropWhile_bracket hClosed
        have hw : (s.dropWhile (!isSpace ·)).takeWhile isSpace ≠ [] := by
          have hHead := List.head?_dropWhile_not (!isSpace ·) s
          cases hRest : s.dropWhile (!isSpace ·) with
          | nil =>
            rw [hRest] at hText
            cases hText
          | cons w rest =>
            rw [hRest] at hHead
            have hw : isSpace w = true := by simpa using hHead
            rw [List.takeWhile_cons_of_pos hw]
            exact List.cons_ne_nil _ _
        obtain ⟨w, ws, hws⟩ := List.exists_cons_of_ne_nil hw
        refine ⟨s.takeWhile (!isSpace ·), w, ws, ?_, hLink, fun x hx => ?_, fun x hx => ?_, fun hIn => ?_⟩
        · rw [← hBracket, hLabel, ← hText, ← List.cons_append, ← hws, hSpaces, hURL]
        · simpa using List.mem_takeWhile_imp hx
        · exact List.mem_takeWhile_imp (hws ▸ hx)
        · simpa using List.mem_takeWhile_imp hIn
      · cases h
    · cases h
  · cases h

theorem bracket_not_mem {w : Char} (h : labelled? (url ++ w :: (ws ++ '[' :: rest)) = none)
    (hLink : isLink (url ++ w :: (ws ++ '[' :: rest)) = true) (hURL : ∀ x ∈ url, isSpace x = false)
    (hSpaces : ∀ x ∈ w :: ws, isSpace x = true) : ']' ∉ rest := by
  intro hIn
  have hDrop : ((url ++ w :: (ws ++ '[' :: rest)).dropWhile (!isSpace ·)).dropWhile isSpace = '[' :: rest := by
    have hStop : (!isSpace w) = false := by simp [hSpaces w List.mem_cons_self]
    rw [List.dropWhile_append_of_pos fun x hx => by simp [hURL x hx], List.dropWhile_cons_of_neg (by simp [hStop]),
      ← List.cons_append, List.dropWhile_append_of_pos hSpaces]
    rfl
  rw [labelled?, if_pos hLink, hDrop] at h
  simp [hIn] at h

theorem labelled?_eq_none (h : isLink s = false) : labelled? s = none := by
  rw [labelled?, if_neg (by rw [h]; decide)]

theorem rewriting_skip : rewriting behind false xs.length (xs ++ rest) = rewriting behind false 0 rest := by
  induction xs with
  | nil => rfl
  | cons x xs ih => exact ih

theorem rewriting_space (h : isSpace c = true) :
    rewriting behind b 0 (c :: rest) = .copied c :: rewriting behind true 0 rest := by
  cases b with
  | false => rw [rewriting, h]
  | true => rw [rewriting, labelled?_eq_none (isLink_space h)]; simp [h]

/-- The first character of a word that is not a labelled URL. -/
theorem rewriting_start (h : isSpace c = false) (hNone : labelled? (c :: rest) = none) :
    rewriting behind true 0 (c :: rest) =
      .copied c :: rewriting (if isLink (c :: rest) then behind + 1 else 0) false 0 rest := by
  rw [rewriting, hNone]
  simp [h]

theorem rewriting_word (behind : Nat) (rest : List Char) (h : ∀ x ∈ xs, isSpace x = false) :
    rewriting behind false 0 (xs ++ rest) = xs.map .copied ++ rewriting behind false 0 rest := by
  induction xs with
  | nil => rfl
  | cons x xs ih =>
    rw [List.forall_mem_cons] at h
    rw [List.cons_append, rewriting, h.1, ih h.2]
    rfl

theorem rewriting_spaces {w : Char} (h : ∀ x ∈ w :: ws, isSpace x = true) :
    rewriting behind b 0 (w :: (ws ++ rest)) = (w :: ws).map .copied ++ rewriting behind true 0 rest := by
  induction ws generalizing w b with
  | nil => exact rewriting_space (h w (List.mem_singleton_self w))
  | cons x ws ih =>
    rw [List.forall_mem_cons] at h
    rw [rewriting_space h.1, List.cons_append, ih h.2]
    rfl

theorem rewriting_labelled (h : labelled? (c :: s) = some (label, rest)) :
    rewriting behind true 0 (c :: s) = .labelled (c :: s) label behind :: rewriting 0 false 0 rest := by
  obtain ⟨url, w, ws, hs, hLink, hURL, hSpaces, hLabel⟩ := exists_of_labelled? h
  have hSplit : ∃ pre, s = pre ++ rest := by
    have hAll : c :: s = (url ++ w :: (ws ++ '[' :: (label ++ [']']))) ++ rest := by simp [hs]
    exact ⟨_, (congrArg List.tail hAll).trans (List.tail_append_of_ne_nil (by simp))⟩
  obtain ⟨pre, rfl⟩ := hSplit
  rw [rewriting, h]
  simp only [List.length_append, Nat.add_sub_cancel, rewriting_skip]

/-- A text without a closing bracket is copied. -/
theorem rewriting_open (h : ']' ∉ s) : rewriting behind b 0 s = s.map .copied := by
  induction s generalizing behind b with
  | nil => cases b <;> rfl
  | cons c s ih =>
    have hNone : labelled? (c :: s) = none := by
      by_contra hSome
      obtain ⟨⟨label, rest⟩, hSome⟩ := Option.ne_none_iff_exists'.mp hSome
      obtain ⟨url, w, ws, hs, -⟩ := exists_of_labelled? hSome
      rw [hs] at h
      simp at h
    have hRest : ']' ∉ s := fun hIn => h (List.mem_cons_of_mem c hIn)
    cases b with
    | false => rw [rewriting, ih hRest, List.map_cons]
    | true =>
      rw [rewriting, hNone]
      simp only [ih hRest, List.map_cons]

/-! ### The loop and the rewriting -/

/-- Directly before each labelled URL is an even number of unlabelled ones. -/
def EvenBehind (l : List Rewriting) : Prop :=
  ∀ r ∈ l, r.behind % 2 = 0

/-- The rest of the loop does what `l` says exactly if the number of unlabelled URLs before each labelled one is
even. -/
structure Agrees (a : Scan) (sn ret : List Char) (l : List Rewriting) : Prop where
  text : EvenBehind l → (scan a sn).finish = ret ++ l.flatMap Rewriting.text
  urls : recognised a sn = l.filterMap Rewriting.url? ↔ EvenBehind l

theorem evenBehind_append {l l' : List Rewriting} : EvenBehind (l ++ l') ↔ EvenBehind l ∧ EvenBehind l' :=
  List.forall_mem_append

theorem evenBehind_copied : EvenBehind (xs.map .copied) := by
  intro r hr
  obtain ⟨c, -, rfl⟩ := List.mem_map.mp hr
  rfl

@[simp] theorem flatMap_copied : (xs.map Rewriting.copied).flatMap Rewriting.text = xs := by
  induction xs with
  | nil => rfl
  | cons x xs ih => rw [List.map_cons, List.flatMap_cons, ih]; rfl

@[simp] theorem filterMap_copied : (xs.map Rewriting.copied).filterMap Rewriting.url? = [] := by
  induction xs with
  | nil => rfl
  | cons x xs ih => rw [List.map_cons, List.filterMap_cons_none rfl, ih]

namespace Agrees

variable {a a' : Scan} {sn sn' : List Char} {front l : List Rewriting}

theorem of_reads (h : Reads a sn a' sn' (front.filterMap Rewriting.url?)) (hFront : EvenBehind front)
    (h' : Agrees a' sn' (ret ++ front.flatMap Rewriting.text) l) : Agrees a sn ret (front ++ l) := by
  refine ⟨fun hl => ?_, ?_⟩
  · rw [h.scan_eq, h'.text (evenBehind_append.mp hl).2, List.flatMap_append, List.append_assoc]
  · rw [h.recognised_eq, List.filterMap_append, List.append_cancel_left_eq, h'.urls, evenBehind_append]
    exact (and_iff_right hFront).symm

theorem of_copied (h : Reads a sn a' sn' []) (h' : Agrees a' sn' (ret ++ s) l) :
    Agrees a sn ret (s.map .copied ++ l) := by
  refine of_reads (by rwa [filterMap_copied]) evenBehind_copied ?_
  rwa [flatMap_copied]

theorem of_quiet (h : Reads a sn a' sn' []) (h' : Agrees a' sn' ret l) : Agrees a sn ret l :=
  .of_copied (s := []) h (by rwa [List.append_nil])

/-- What is left of the text is dumped. -/
theorem of_leftovers {a' : Scan} (h : Reads a sn a' [] []) (hDumped : a'.finish = ret ++ s) :
    Agrees a sn ret (s.map .copied) := by
  refine ⟨fun _ => ?_, ?_⟩
  · rw [h.scan_eq, flatMap_copied]
    exact hDumped
  · rw [h.recognised_eq, filterMap_copied]
    exact iff_of_true rfl evenBehind_copied

/-- A labelled URL right behind an unlabelled one: its first character is dumped with that one, so that the loop comes
to the rest of it in the middle of a word. -/
theorem of_missed (h : Reads a sn a' rest []) (hURL : a'.url = none) (hOdd : behind % 2 = 1) :
    Agrees a sn ret (front ++ .labelled (c :: rest) label behind :: l) := by
  have hIn : Rewriting.labelled (c :: rest) label behind ∈ front ++ .labelled (c :: rest) label behind :: l :=
    List.mem_append_right _ List.mem_cons_self
  have hNot : ¬EvenBehind (front ++ .labelled (c :: rest) label behind :: l) := fun hAll => by
    have hEven : behind % 2 = 0 := hAll _ hIn
    omega
  refine ⟨fun hEven => absurd hEven hNot, iff_of_false (fun hAll => ?_) hNot⟩
  have hFound : c :: rest ∈ recognised a' rest := by
    have hURLs : c :: rest ∈ (front ++ .labelled (c :: rest) label behind :: l).filterMap Rewriting.url? :=
      List.mem_filterMap.mpr ⟨_, hIn, rfl⟩
    rwa [← hAll, h.recognised_eq] at hURLs
  have hShort := length_recognised (m := rest.length) (fun u hu => by rw [hURL] at hu; cases hu) le_rfl _ hFound
  rw [List.length_cons] at hShort
  omega

end Agrees

/-- The first character of a word behind an unlabelled URL. -/
theorem agrees_behind {pre sp : List Char} {u : List Char} (hu : u = pre ++ c :: rest) (hc : isSpace c = false)
    (hEven : behind % 2 = 0) (hOpen : c = '[' → ']' ∉ rest)
    (ih : ∀ ret behind, behind % 2 = 0 →
      Agrees (copying ret false) rest ret (rewriting behind false 0 rest)) :
    Agrees ⟨ret, some u, some sp, none, b⟩ (c :: rest) ret
      (pre.map .copied ++ rewriting (behind + 1) true 0 (c :: rest)) := by
  subst hu
  by_cases hBracket : c = '['
  · subst hBracket
    have hNone : ']' ∉ '[' :: rest := by simpa using hOpen rfl
    obtain ⟨b', hReads⟩ :=
      reads_label ret (pre ++ '[' :: rest) sp ('[' :: rest) [] (isSpace '[') (hOpen rfl)
    rw [List.append_nil] at hReads
    rw [rewriting_open hNone, ← List.map_append]
    exact .of_leftovers (.trans (.step (by simp [Scan.read, hc]) (.inl rfl)) hReads) rfl
  · have hReads := reads_unlabelled ret pre sp rest b hc hBracket
    cases hLabelled : labelled? (c :: rest) with
    | some found =>
      rw [rewriting_labelled hLabelled]
      exact .of_missed hReads rfl (by omega)
    | none =>
      have hSplit : pre.map Rewriting.copied ++ rewriting (behind + 1) true 0 (c :: rest) =
          (pre ++ [c]).map .copied ++
            rewriting (if isLink (c :: rest) then behind + 1 + 1 else 0) false 0 rest := by
        rw [rewriting_start hc hLabelled, List.map_append, List.append_assoc]
        rfl
      rw [hSplit]
      refine .of_copied hReads (ih _ _ ?_)
      split <;> omega

theorem agrees_labelled (h : labelled? s = some (label, rest)) (hEven : behind % 2 = 0)
    (hRest : rest.length < s.length → ∀ ret, Agrees (copying ret false) rest ret (rewriting 0 false 0 rest)) :
    Agrees (copying ret true) s ret (.labelled s label behind :: rewriting 0 false 0 rest) := by
  obtain ⟨url, w, ws, hs, hLink, hURL, hSpaces, hLabel⟩ := exists_of_labelled? h
  cases url with
  | nil =>
    rw [hs, List.nil_append, isLink_space (hSpaces w List.mem_cons_self)] at hLink
    cases hLink
  | cons c url =>
    rw [List.forall_mem_cons] at hURL
    have hLess : rest.length < s.length := by
      rw [hs]
      simp only [List.length_append, List.length_cons]
      omega
    rw [hs, List.cons_append] at hLink
    obtain ⟨b', sp, hReads⟩ := reads_link ret hLink hURL.2 hSpaces
    rw [← List.cons_append, ← hs] at hReads
    have hFront : EvenBehind [.labelled s label behind] := fun r hr => by
      rw [List.mem_singleton.mp hr]
      exact hEven
    have hAgrees := hRest hLess (ret ++ label)
    have hAll := hReads.trans (reads_labelled hLabel)
    exact .of_reads (l := rewriting 0 false 0 rest) hAll hFront (by rwa [List.flatMap_singleton])

/-- An unlabelled URL, and the first character of the word behind it. -/
theorem agrees_unlabelled (hc : isSpace c = false) (hLink : isLink (c :: s) = true)
    (hNone : labelled? (c :: s) = none) (hEven : behind % 2 = 0)
    (hRest : ∀ rest : List Char, rest.length < (c :: s).length → ∀ ret behind, behind % 2 = 0 →
      Agrees (copying ret false) rest ret (rewriting behind false 0 rest)) :
    Agrees (copying ret true) (c :: s) ret (rewriting behind true 0 (c :: s)) := by
  have hURL : ∀ x ∈ s.takeWhile (!isSpace ·), isSpace x = false := fun x hx => by
    simpa using List.mem_takeWhile_imp hx
  have hSplit := List.takeWhile_append_dropWhile (p := (!isSpace ·)) (l := s)
  have hHead := List.head?_dropWhile_not (!isSpace ·) s
  generalize s.takeWhile (!isSpace ·) = url at hURL hSplit
  rw [rewriting_start hc hNone, hLink, if_pos rfl]
  cases hTail : s.dropWhile (!isSpace ·) with
  | nil =>
    -- The text ends with the URL.
    rw [hTail, List.append_nil] at hSplit
    subst hSplit
    have hStart : Reads (copying ret true) (c :: url) ⟨ret, some (c :: url), none, none, isSpace c⟩ url [] :=
      .step (by simp [Scan.read, copying, hLink]) (.inl rfl)
    obtain ⟨b', hReads⟩ := reads_url ret (c :: url) [] (isSpace c) hURL
    have hWord := rewriting_word (behind + 1) [] hURL
    rw [List.append_nil] at hReads hWord
    rw [hWord, rewriting, List.append_nil]
    exact .of_leftovers (s := c :: url) (hStart.trans hReads) rfl
  | cons w tail =>
    rw [hTail] at hSplit hHead
    have hw : isSpace w = true := by simpa using hHead
    have hTailSplit := List.takeWhile_append_dropWhile (p := isSpace) (l := tail)
    have hSpaces : ∀ x ∈ w :: tail.takeWhile isSpace, isSpace x = true :=
      List.forall_mem_cons.mpr ⟨hw, fun x hx => List.mem_takeWhile_imp hx⟩
    have hNext := List.head?_dropWhile_not isSpace tail
    generalize tail.takeWhile isSpace = ws at hTailSplit hSpaces
    generalize tail.dropWhile isSpace = rest at hTailSplit hNext
    subst hTailSplit hSplit
    obtain ⟨b', sp, hReads⟩ := reads_link ret hLink hURL hSpaces
    have hCopied : Rewriting.copied c :: rewriting (behind + 1) false 0 (url ++ w :: (ws ++ rest)) =
        (c :: (url ++ w :: ws)).map .copied ++ rewriting (behind + 1) true 0 rest := by
      rw [rewriting_word _ _ hURL, rewriting_spaces hSpaces, ← List.append_assoc, ← List.map_append]
      rfl
    rw [hCopied]
    cases rest with
    | nil =>
      simp only [rewriting, List.append_nil] at hReads ⊢
      exact .of_leftovers hReads rfl
    | cons x rest =>
      have hx : isSpace x = false := by simpa using hNext
      have hLess : rest.length < (c :: (url ++ w :: (ws ++ x :: rest))).length := by
        simp only [List.length_append, List.length_cons]
        omega
      have hOpen : x = '[' → ']' ∉ rest := by
        rintro rfl
        exact bracket_not_mem hNone hLink (List.forall_mem_cons.mpr ⟨hc, hURL⟩) hSpaces
      exact .of_quiet hReads (agrees_behind (by simp) hx hEven hOpen (hRest rest hLess))

theorem agrees_copying (h : behind % 2 = 0) :
    Agrees (copying ret b) s ret (rewriting behind b 0 s) := by
  induction hn : s.length using Nat.strong_induction_on generalizing s ret b behind with
  | _ n ih =>
  subst hn
  cases s with
  | nil =>
    have hNone : rewriting behind b 0 [] = [].map .copied := by cases b <;> rfl
    rw [hNone]
    exact .of_leftovers (.refl ..) rfl
  | cons c s =>
    have hNext : ∀ {ret b behind}, behind % 2 = 0 → Agrees (copying ret b) s ret (rewriting behind b 0 s) :=
      fun h => ih s.length (Nat.lt_succ_self _) h rfl
    have hCopied : ∀ {behind'}, (b && isLink (c :: s)) = false → behind' % 2 = 0 →
        Agrees (copying ret b) (c :: s) ret (.copied c :: rewriting behind' (isSpace c) 0 s) :=
      fun hCopy hEven => .of_copied (s := [c]) (reads_copy hCopy) (hNext hEven)
    cases hc : isSpace c with
    | true =>
      have hCopy : (b && isLink (c :: s)) = false := by rw [isLink_space hc, Bool.and_false]
      rw [rewriting_space hc]
      exact hc ▸ hCopied hCopy h
    | false =>
      cases b with
      | false =>
        rw [rewriting]
        exact hCopied rfl h
      | true =>
        cases hLink : isLink (c :: s) with
        | false =>
          have hCopy : (true && isLink (c :: s)) = false := by rw [hLink]; rfl
          have hAgrees := hCopied hCopy (show 0 % 2 = 0 from rfl)
          rw [hc] at hAgrees
          rw [rewriting_start hc (labelled?_eq_none hLink), hLink]
          exact hAgrees
        | true =>
          cases hLabelled : labelled? (c :: s) with
          | some found =>
            obtain ⟨label, rest⟩ := found
            rw [rewriting_labelled hLabelled]
            exact agrees_labelled hLabelled h fun hLess ret => ih rest.length hLess rfl rfl
          | none =>
            exact agrees_unlabelled hc hLink hLabelled h fun rest hLess ret behind hEven => ih _ hLess hEven rfl

/-- Without labelled URLs the rewriting changes nothing. -/
theorem rewriting_of_none (h : (rewriting behind b 0 s).filterMap Rewriting.url? = []) :
    rewriting behind b 0 s = s.map .copied := by
  induction s generalizing behind b with
  | nil => cases b <;> rfl
  | cons c s ih =>
    cases b with
    | false =>
      rw [rewriting, List.filterMap_cons_none rfl] at h
      rw [rewriting, ih h, List.map_cons]
    | true =>
      rw [rewriting] at h ⊢
      split at h
      · cases h
      · rename_i hNone
        rw [List.filterMap_cons_none rfl] at h
        simp only [ih h, List.map_cons]

/-- Each labelled URL is recognised, and the result is the rewritten text, exactly if no labelled URL is right behind an
odd number of unlabelled ones. -/
theorem substituteLabelledURLs_iff (shortName : List Char) :
    substituteLabelledURLs shortName = rewrite shortName ∧
        recognised (copying [] true) shortName = labelledURLs shortName ↔
      EvenBehind (rewriting 0 true 0 shortName) := by
  have hAgrees : Agrees (copying [] true) shortName [] (rewriting 0 true 0 shortName) := agrees_copying rfl
  exact ⟨fun h => hAgrees.urls.mp h.2, fun h => ⟨hAgrees.text h, hAgrees.urls.mpr h⟩⟩

/-- The second URL is skipped. -/
theorem substituteLabelledURLs_skips :
    substituteLabelledURLs "http://a http://b [x]".toList = "http://a http://b [x]".toList ∧
      rewrite "http://a http://b [x]".toList = "http://a x".toList := by
  decide

/-- A text without labelled URLs stays as it is. -/
theorem substituteLabelledURLs_self (h : labelledURLs s = []) : substituteLabelledURLs s = s := by
  have hAll : rewriting 0 true 0 s = s.map .copied := rewriting_of_none h
  have hAgrees : Agrees (copying [] true) s [] (rewriting 0 true 0 s) := agrees_copying rfl
  have hText := hAgrees.text (hAll ▸ evenBehind_copied)
  rwa [hAll, flatMap_copied] at hText

end BeShare.Client.LabelledURLs
