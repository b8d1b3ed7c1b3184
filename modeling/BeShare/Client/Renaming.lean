import BeShare.Client.Downloads
import Mathlib.Data.Set.Finite.Basic
import Mathlib.Logic.Function.Iterate

/-! The names that `GenerateNewFilename` tries one after the other. -/

namespace BeShare.Client.Downloads

open BeShare.Lib

/-- The separators of a `StringTokenizer`. -/
def isSeparator (c : Char) : Bool := c == ',' || c == ' ' || c == '\t'

def isDigit (c : Char) : Bool := decide ('0' ≤ c) && decide (c ≤ '9')

/-- The part of a name that stays: all of it, unless its last word is a number. -/
def kept (buf : Name) : Name :=
  let lastWord := (tokens isSeparator buf).getLastD []
  if lastWord.all isDigit then (lastIndexOf buf lastWord).elim buf buf.take else buf

/-- `atoi` reads the numbers that fit into an `int`. -/
def FileSystem.ReadsNumbers (fs : FileSystem) : Prop :=
  ∀ word : List Char, word.all isDigit → Nat.ofDigitChars 10 word 0 < 2147483648 →
    fs.atoi word = Nat.ofDigitChars 10 word 0

variable {fs : FileSystem} {buf front word : Name} {k : Int}

/-- A word may follow here: at the front, and behind a separator. -/
def Ends (front : Name) : Prop := ∀ c ∈ front.getLast?, isSeparator c = true

theorem nextName_eq (fs : FileSystem) (buf : Name) : nextName fs buf =
    if ((tokens isSeparator buf).getLastD []).all isDigit then
      kept buf ++ decimal (toInt32 (fs.atoi ((tokens isSeparator buf).getLastD []) + 1))
    else kept buf ++ [' ', '2'] := by
  by_cases hDigits : ((tokens isSeparator buf).getLastD []).all isDigit = true
  · rw [if_pos hDigits, kept, if_pos hDigits]
    refine (if_pos hDigits).trans ?_
    split
    · rename_i idx hIdx
      exact congrArg (· ++ _) (congrArg (Option.elim · buf buf.take) hIdx).symm
    · rename_i hIdx
      exact congrArg (· ++ _) (congrArg (Option.elim · buf buf.take) hIdx).symm
  · rw [if_neg hDigits, kept, if_neg hDigits]
    exact if_neg hDigits

/-! ### The last word -/

theorem digit_plain {c : Char} (h : isDigit c = true) : isSeparator c = false := by
  rw [isSeparator, Bool.eq_false_iff]
  intro hSeparator
  simp only [Bool.or_eq_true, beq_iff_eq, or_assoc] at hSeparator
  rcases hSeparator with rfl | rfl | rfl <;> exact absurd h (by decide)

theorem isDigit_toDigits {n : Nat} {c : Char} (h : c ∈ Nat.toDigits 10 n) : isDigit c = true := by
  have hDigit := Nat.isDigit_of_mem_toDigits (by decide) (by decide) h
  rw [Char.isDigit, Bool.and_eq_true, decide_eq_true_iff, decide_eq_true_iff] at hDigit
  rw [isDigit, Bool.and_eq_true, decide_eq_true_iff, decide_eq_true_iff]
  exact hDigit

theorem minus_not_mem_toDigits (n : Nat) : '-' ∉ Nat.toDigits 10 n := fun h =>
  absurd (isDigit_toDigits h) (by decide)

theorem decimal_injective {k k' : Int} (h : decimal k = decimal k') : k = k' := by
  have hNat {m n : Nat} (h : Nat.toDigits 10 m = Nat.toDigits 10 n) : m = n := by
    have hNumber := congrArg (fun digits => Nat.ofDigitChars 10 digits 0) h
    simpa using hNumber
  cases k with
  | ofNat m =>
    cases k' with
    | ofNat n =>
      rw [decimal_ofNat, decimal_ofNat] at h
      rw [hNat h]
    | negSucc n =>
      rw [decimal_ofNat, decimal_negSucc] at h
      exact absurd (h ▸ List.mem_cons_self ..) (minus_not_mem_toDigits m)
  | negSucc m =>
    cases k' with
    | ofNat n =>
      rw [decimal_ofNat, decimal_negSucc] at h
      exact absurd (h ▸ List.mem_cons_self ..) (minus_not_mem_toDigits n)
    | negSucc n =>
      rw [decimal_negSucc, decimal_negSucc] at h
      have hSucc := hNat (List.cons.inj h).2
      rw [Nat.succ.inj hSucc]

theorem decimal_no_separator (k : Int) : ∀ c ∈ decimal k, isSeparator c = false := by
  intro c hc
  cases k with
  | ofNat n => exact digit_plain (isDigit_toDigits (decimal_ofNat n ▸ hc))
  | negSucc n =>
    rw [decimal_negSucc] at hc
    rcases List.mem_cons.mp hc with rfl | hc
    · rfl
    · exact digit_plain (isDigit_toDigits hc)

/-- A number is all digits if it is not negative. -/
theorem decimal_all_isDigit (k : Int) : (decimal k).all isDigit = true ↔ 0 ≤ k := by
  cases k with
  | ofNat n =>
    rw [decimal_ofNat]
    exact iff_of_true (List.all_eq_true.mpr fun c hc => isDigit_toDigits hc) (Int.natCast_nonneg n)
  | negSucc n =>
    rw [decimal_negSucc]
    exact iff_of_false (by simp [isDigit]) (by omega)

theorem atoi_decimal (hAtoi : fs.ReadsNumbers) (hLow : 0 ≤ k) (hHigh : k < 2147483648) : fs.atoi (decimal k) = k := by
  obtain ⟨n, rfl⟩ := Int.eq_ofNat_of_zero_le hLow
  have hNumber : Nat.ofDigitChars 10 (decimal n) 0 = n := by
    rw [show decimal (n : Int) = Nat.toDigits 10 n from decimal_ofNat n]
    simp
  have hRead := hAtoi (decimal n) ((decimal_all_isDigit n).mpr hLow) (by omega)
  rw [hRead, hNumber]

/-- The last of the places below `n`. -/
theorem find_last {p : Nat → Bool} {n i : Nat} (hi : i < n) (hHere : p i = true)
    (hBehind : ∀ j, i < j → j < n → p j = false) : (List.range n).reverse.find? p = some i := by
  induction n with
  | zero => exact absurd hi (Nat.not_lt_zero i)
  | succ n ih =>
    rw [List.range_succ, List.reverse_append, List.reverse_singleton, List.singleton_append]
    rcases Nat.lt_succ_iff_lt_or_eq.mp hi with hLess | rfl
    · rw [List.find?_cons_of_neg (by rw [hBehind n hLess (Nat.lt_succ_self n)]; exact Bool.false_ne_true)]
      exact ih hLess fun j hj hn => hBehind j hj (Nat.lt_succ_of_lt hn)
    · exact List.find?_cons_of_pos hHere

/-- The last word stands nowhere behind its place. -/
theorem lastIndexOf_last {a t b : List Char} (hSome : t ≠ []) (hPlain : ∀ c ∈ t, isSeparator c = false)
    (hBehind : ∀ c ∈ b, isSeparator c = true) : lastIndexOf (a ++ t ++ b) t = some a.length := by
  have hPos := List.length_pos_iff.mpr hSome
  rw [lastIndexOf, if_neg hSome]
  refine find_last ?_ ?_ fun j hj hn => ?_
  · simp only [List.length_append]
    omega
  · rw [List.append_assoc, List.drop_left, List.isPrefixOf_iff_prefix]
    exact List.prefix_append t b
  · rw [Bool.eq_false_iff]
    intro hPrefix
    obtain ⟨rest, hRest⟩ := List.isPrefixOf_iff_prefix.mp hPrefix
    simp only [List.length_append] at hn
    -- the last character of the word would be one of the separators
    have hLast : (t ++ rest)[t.length - 1]? = t.getLast? := by
      rw [List.getElem?_append_left (by omega), List.getLast?_eq_getElem?]
    have hSeparator : (a ++ t ++ b)[j + (t.length - 1)]? = b[j - a.length - 1]? := by
      rw [List.getElem?_append_right (by simp only [List.length_append]; omega)]
      congr 1
      simp only [List.length_append]
      omega
    rw [hRest, List.getElem?_drop, hSeparator, List.getLast?_eq_some_getLast hSome] at hLast
    have hIn := hBehind _ (List.mem_of_getElem? hLast)
    rw [hPlain _ (List.getLast_mem hSome)] at hIn
    cases hIn

theorem lastWord_append (hEnds : Ends front) (hSome : word ≠ []) (hPlain : ∀ c ∈ word, isSeparator c = false) :
    (tokens isSeparator (front ++ word)).getLastD [] = word := by
  rcases exists_last_token isSeparator (front ++ word) with hAll | ⟨a, t, b, hSplit, -, hPlain', hB, hA, hLast⟩
  · obtain ⟨c, hc⟩ := List.exists_mem_of_ne_nil word hSome
    have hSeparator := hAll c (List.mem_append_right _ hc)
    rw [hPlain c hc] at hSeparator
    cases hSeparator
  · have hNone : b = [] := by
      by_contra hb
      have hEnd := congrArg List.getLast? hSplit
      rw [List.getLast?_append, @List.getLast?_append _ _ b, List.getLast?_eq_some_getLast hSome,
        List.getLast?_eq_some_getLast hb] at hEnd
      have hSeparator := hB _ (List.getLast_mem hb)
      rw [← Option.some.inj hEnd, hPlain _ (List.getLast_mem hSome)] at hSeparator
      cases hSeparator
    rw [hNone, List.append_nil] at hSplit
    rw [List.getLastD_eq_getLast?, hLast, (last_token_unique hPlain hPlain' hEnds hA hSplit).2]
    rfl

theorem toInt32_range (x : Int) : -2147483648 ≤ toInt32 x ∧ toInt32 x < 2147483648 := by
  rw [toInt32]
  omega

/-! ### The names -/

/-- A name that ends with a number. -/
structure Numbered (name front : Name) (k : Int) : Prop where
  name_eq : name = front ++ decimal k
  ends : Ends front
  low : -2147483648 ≤ k
  high : k < 2147483648

/-- A name ends with one number. -/
theorem Numbered.unique {name front' : Name} {k' : Int} (h : Numbered name front k) (h' : Numbered name front' k') :
    front = front' ∧ k = k' := by
  obtain ⟨hFront, hNumber⟩ := last_token_unique (decimal_no_separator k) (decimal_no_separator k') h.ends h'.ends
    (h.name_eq.symm.trans h'.name_eq)
  exact ⟨hFront, decimal_injective hNumber⟩

/-- How far the names have come: the numbers that are not negative, then the negative one, and then a longer front. -/
def rank (front : Name) (k : Int) : Nat :=
  front.length * 2147483649 + if k < 0 then 2147483648 else k.toNat

theorem kept_cases (buf : Name) : kept buf <+: buf ∧
    (Ends (kept buf) ∧ ((tokens isSeparator buf).getLastD []).all isDigit = true ∨
      kept buf = buf ∧ ¬((tokens isSeparator buf).getLastD []).all isDigit = true) := by
  by_cases hDigits : ((tokens isSeparator buf).getLastD []).all isDigit = true
  · rw [kept, if_pos hDigits]
    rcases exists_last_token isSeparator buf with hAll | ⟨a, t, b, rfl, hSome, hPlain, hB, hA, hLast⟩
    · have hPrefix : (lastIndexOf buf ((tokens isSeparator buf).getLastD [])).elim buf buf.take <+: buf := by
        cases lastIndexOf buf ((tokens isSeparator buf).getLastD []) with
        | none => exact List.prefix_refl _
        | some idx => exact List.take_prefix _ _
      exact ⟨hPrefix, .inl ⟨fun c hc => hAll c (hPrefix.subset (List.mem_of_getLast? hc)), hDigits⟩⟩
    · have hWord : (tokens isSeparator (a ++ t ++ b)).getLastD [] = t := by
        rw [List.getLastD_eq_getLast?, hLast]
        rfl
      rw [hWord] at hDigits ⊢
      rw [lastIndexOf_last hSome hPlain hB]
      simp only [Option.elim_some, List.append_assoc, List.take_left]
      exact ⟨List.prefix_append .., .inl ⟨hA, hDigits⟩⟩
  · rw [kept, if_neg hDigits]
    exact ⟨List.prefix_refl _, .inr ⟨rfl, hDigits⟩⟩

/-- A new name ends with a number, behind what is kept of the old one. -/
theorem nextName_numbered (fs : FileSystem) (buf : Name) :
    ∃ front k, Numbered (nextName fs buf) front k ∧ kept buf <+: front := by
  rw [nextName_eq]
  rcases (kept_cases buf).2 with ⟨hEnds, hDigits⟩ | ⟨-, hDigits⟩
  · rw [if_pos hDigits]
    exact ⟨kept buf, _, ⟨rfl, hEnds, (toInt32_range _).1, (toInt32_range _).2⟩, List.prefix_refl _⟩
  · rw [if_neg hDigits]
    refine ⟨kept buf ++ [' '], 2, ⟨?_, fun c hc => ?_, by decide, by decide⟩, List.prefix_append ..⟩
    · rw [List.append_assoc]
      rfl
    · rw [List.getLast?_concat] at hc
      cases hc
      rfl

/-- One step. -/
theorem Numbered.next (hAtoi : fs.ReadsNumbers) (h : Numbered buf front k) :
    ∃ front' k', Numbered (nextName fs buf) front' k' ∧ front <+: front' ∧ rank front k < rank front' k' := by
  have hWord : (tokens isSeparator buf).getLastD [] = decimal k := by
    rw [h.name_eq]
    exact lastWord_append h.ends (decimal_plain k).1 (decimal_no_separator k)
  by_cases hSign : 0 ≤ k
  · have hKept : kept buf = front := by
      rw [kept, hWord, if_pos ((decimal_all_isDigit k).mpr hSign), h.name_eq]
      have hPlace := lastIndexOf_last (a := front) (b := []) (decimal_plain k).1 (decimal_no_separator k) nofun
      rw [List.append_nil] at hPlace
      rw [hPlace]
      exact List.take_left
    rw [nextName_eq, hWord, if_pos ((decimal_all_isDigit k).mpr hSign), hKept, atoi_decimal hAtoi hSign h.high]
    refine ⟨front, _, ⟨rfl, h.ends, (toInt32_range _).1, (toInt32_range _).2⟩, List.prefix_refl _, ?_⟩
    have hHigh := h.high
    rw [rank, rank, toInt32]
    split <;> split <;> omega
  · rw [nextName_eq, hWord, if_neg (mt (decimal_all_isDigit k).mp hSign)]
    have hKept : kept buf = buf := by rw [kept, hWord, if_neg (mt (decimal_all_isDigit k).mp hSign)]
    refine ⟨buf ++ [' '], 2, ⟨?_, fun c hc => ?_, by decide, by decide⟩, ?_, ?_⟩
    · rw [hKept, List.append_assoc]
      rfl
    · rw [List.getLast?_concat] at hc
      cases hc
      rfl
    · rw [h.name_eq, List.append_assoc]
      exact List.prefix_append ..
    · have hPos := List.length_pos_iff.mpr (decimal_plain k).1
      rw [rank, rank, h.name_eq]
      simp only [List.length_append, List.length_singleton]
      split <;> split <;> omega

/-- Any number of steps. -/
theorem Numbered.iterate (hAtoi : fs.ReadsNumbers) (h : Numbered buf front k) (n : Nat) :
    ∃ front' k', Numbered ((nextName fs)^[n] buf) front' k' ∧ front <+: front' ∧
      rank front k + n ≤ rank front' k' := by
  induction n with
  | zero => exact ⟨front, k, h, List.prefix_refl _, (Nat.add_zero _).le⟩
  | succ n ih =>
    obtain ⟨front₁, k₁, h₁, hPrefix₁, hRank₁⟩ := ih
    obtain ⟨front₂, k₂, h₂, hPrefix₂, hRank₂⟩ := h₁.next hAtoi
    rw [Function.iterate_succ_apply']
    exact ⟨front₂, k₂, h₂, hPrefix₁.trans hPrefix₂, by omega⟩

/-- No name comes again. -/
theorem iterate_nextName_ne (hAtoi : fs.ReadsNumbers) (buf : Name) {n : Nat} (hn : 0 < n) :
    (nextName fs)^[n] buf ≠ buf := by
  intro hSame
  obtain ⟨n, rfl⟩ := Nat.exists_eq_succ_of_ne_zero hn.ne'
  obtain ⟨front, k, hNext, -⟩ := nextName_numbered fs buf
  obtain ⟨front₁, k₁, hNumbered, -⟩ := hNext.iterate hAtoi n
  rw [← Function.iterate_succ_apply, hSame] at hNumbered
  obtain ⟨front₂, k₂, hAgain, -, hRank⟩ := hNumbered.iterate hAtoi (n + 1)
  rw [hSame] at hAgain
  obtain ⟨rfl, rfl⟩ := hNumbered.unique hAgain
  omega

theorem iterate_nextName_injective (hAtoi : fs.ReadsNumbers) (buf : Name) :
    Function.Injective fun n => (nextName fs)^[n] buf := by
  have hLess {i j : Nat} (hij : i < j) : (nextName fs)^[i] buf ≠ (nextName fs)^[j] buf := by
    intro hSame
    have hSplit : (nextName fs)^[j] buf = (nextName fs)^[j - i] ((nextName fs)^[i] buf) := by
      rw [← Function.iterate_add_apply, Nat.sub_add_cancel hij.le]
    exact iterate_nextName_ne hAtoi _ (Nat.sub_pos_of_lt hij) (hSplit.symm.trans hSame.symm)
  intro i j hSame
  rcases Nat.lt_trichotomy i j with hij | hij | hij
  · exact absurd hSame (hLess hij)
  · exact hij
  · exact absurd hSame.symm (hLess hij)

theorem kept_prefix_iterate (hAtoi : fs.ReadsNumbers) (buf : Name) (n : Nat) :
    kept buf <+: (nextName fs)^[n] buf := by
  cases n with
  | zero => exact (kept_cases buf).1
  | succ n =>
    obtain ⟨front, k, hNext, hKept⟩ := nextName_numbered fs buf
    obtain ⟨front', k', hNumbered, hFront, -⟩ := hNext.iterate hAtoi n
    rw [Function.iterate_succ_apply, hNumbered.name_eq]
    exact (hKept.trans hFront).trans (List.prefix_append ..)

/-! ### The search -/

theorem nextName_ne_dot (fs : FileSystem) (buf : Name) : nextName fs buf ≠ ['.'] := by
  obtain ⟨front, k, h, -⟩ := nextName_numbered fs buf
  intro hDot
  obtain ⟨c, hc⟩ := List.exists_mem_of_ne_nil _ (decimal_plain k).1
  have hMem : c ∈ nextName fs buf := h.name_eq ▸ List.mem_append_right _ hc
  rw [hDot, List.mem_singleton] at hMem
  exact (decimal_plain k).2.2 (hMem ▸ hc)

/-- The search goes through the names until one is free, unless that takes too many of them. -/
theorem generateNewFilename_eq {dir : Place} {n : Nat} {name : Name} (hName : '/' ∉ name)
    (hFree : fs.opensReadWrite (dir ++ [(nextName fs)^[n] name]) = false)
    (hTaken : ∀ i < n, fs.opensReadWrite (dir ++ [(nextName fs)^[i] name]) = true) (count : Nat) :
    generateNewFilename fs dir count (dir ++ [name]) =
      if n < count then some (dir ++ [(nextName fs)^[n] name]) else none := by
  induction count generalizing n name with
  | zero => rfl
  | succ count ih =>
    rw [generateNewFilename]
    cases n with
    | zero =>
      have hHere : ¬fs.opensReadWrite (dir ++ [name]) = true := by
        rw [Bool.not_eq_true]
        exact hFree
      rw [if_neg hHere, if_pos (Nat.succ_pos count)]
      rfl
    | succ n =>
      have hHere : fs.opensReadWrite (dir ++ [name]) = true := hTaken 0 (Nat.succ_pos n)
      have hPlain := nextName_plain fs hName
      rw [if_pos hHere, List.getLast?_concat]
      simp only
      rw [resolve_plain hPlain, if_neg (nextName_ne_dot fs name)]
      refine (ih hPlain.2.2 hFree fun i hi => hTaken (i + 1) (Nat.succ_lt_succ hi)).trans ?_
      simp only [Nat.succ_lt_succ_iff, Function.iterate_succ_apply]

/-- A file with any name comes into a folder. -/
theorem generateNewFilename_spec (hAtoi : fs.ReadsNumbers) (dir : Place)
    (hFinite : {other | fs.opensReadWrite (dir ++ [other]) = true}.Finite) {name : Name} (hName : '/' ∉ name) :
    (Function.Injective fun n => (nextName fs)^[n] name) ∧ (∀ n, kept name <+: (nextName fs)^[n] name) ∧
      ∃ n, fs.opensReadWrite (dir ++ [(nextName fs)^[n] name]) = false ∧
        ∀ count, generateNewFilename fs dir count (dir ++ [name]) =
          if n < count then some (dir ++ [(nextName fs)^[n] name]) else none := by
  have hInjective := iterate_nextName_injective hAtoi name
  have hSome : ∃ n, fs.opensReadWrite (dir ++ [(nextName fs)^[n] name]) = false := by
    obtain ⟨_, ⟨n, rfl⟩, hFree⟩ := (Set.infinite_range_of_injective hInjective).exists_notMem_finite hFinite
    exact ⟨n, Bool.not_eq_true _ ▸ hFree⟩
  refine ⟨hInjective, kept_prefix_iterate hAtoi name, Nat.find hSome, Nat.find_spec hSome, ?_⟩
  refine generateNewFilename_eq hName (Nat.find_spec hSome) fun i hi => ?_
  simpa using Nat.find_min hSome hi

/-- One file in the folder, and a C library that reads all numbers. -/
def oneFile (name : Name) : FileSystem where
  isDirectory _ := true
  createDirectory _ := false
  opensReadWrite place := place == [name]
  size _ := none
  creates _ := true
  atoi word := Nat.ofDigitChars 10 word 0

/-- `foo.txt` comes again. -/
theorem generateNewFilename_spec_again :
    (Function.Injective fun n => (nextName (oneFile "foo.txt".toList))^[n] "foo.txt".toList) ∧
      (∀ n, kept "foo.txt".toList <+: (nextName (oneFile "foo.txt".toList))^[n] "foo.txt".toList) ∧
      ∃ n, (oneFile "foo.txt".toList).opensReadWrite
          ([] ++ [(nextName (oneFile "foo.txt".toList))^[n] "foo.txt".toList]) = false ∧
        ∀ count, generateNewFilename (oneFile "foo.txt".toList) [] count ([] ++ ["foo.txt".toList]) =
          if n < count then some ([] ++ [(nextName (oneFile "foo.txt".toList))^[n] "foo.txt".toList]) else none := by
  refine generateNewFilename_spec (fun word _ _ => rfl) [] ((Set.finite_singleton "foo.txt".toList).subset ?_)
    (by decide)
  intro other hOther
  simpa [oneFile] using hOther

/-- What stands behind the last dot of a name. -/
def extension (name : Name) : List Char := (name.reverse.takeWhile (· != '.')).reverse

/-- The number comes behind the extension. -/
theorem nextName_extension : nextName (oneFile "foo.txt".toList) "foo.txt".toList = "foo.txt 2".toList ∧
    extension "foo.txt 2".toList ≠ extension "foo.txt".toList := by
  decide

end BeShare.Client.Downloads
