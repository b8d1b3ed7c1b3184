import BeShare.Lib.Tokens
import BeShare.Lib.Words
import BeShare.Reflect.StringMatcher
import Mathlib.Data.List.Infix
import Mathlib.Data.List.Dedup

/-!
Where a download puts its files: what `ShareFileTransfer` does with the path and the file name of a
`TRANSFER_COMMAND_FILE_HEADER` message before it opens the file. The attributes and the display are left out. A
place of the file system is the list of the names that lead to it. Symbolic links, which the user may put into the
download folder, are not followed here.
-/

namespace BeShare.Client.Downloads

open BeShare.Lib

/-- The name of a file or of a directory. -/
abbrev Name := List Char

/-- The names that lead to a file or to a directory. -/
abbrev Place := List Name

def up : Name := ['.', '.']

/-- The place that a path leads to, seen from `dir`. -/
def resolve (dir : Place) (path : List Char) : Place :=
  (tokens (· == '/') path).foldl
    (fun place name => if name = up then place.dropLast else if name = ['.'] then place else place ++ [name])
    (if path.head? = some '/' then [] else dir)

/-- What the file system answers at a place. -/
structure FileSystem where
  /-- `BDirectory::InitCheck` -/
  isDirectory : Place → Bool
  /-- `BDirectory::CreateDirectory` -/
  createDirectory : Place → Bool
  /-- `BFile::SetTo` with `B_READ_WRITE` -/
  opensReadWrite : Place → Bool
  /-- `BFile::GetSize` -/
  size : Place → Option Int
  /-- `BFile::SetTo` with `B_WRITE_ONLY` and `B_CREATE_FILE` -/
  creates : Place → Bool
  /-- The number that a word of digits spells. The C library says nothing about one that is too large. -/
  atoi : List Char → Int

/-- The fields of a `TRANSFER_COMMAND_FILE_HEADER` message that say where the file goes. -/
structure FileHeader where
  /-- `beshare:File Name` -/
  fileName : Option Name
  /-- `beshare:File Size` -/
  fileSize : Option Int
  /-- `beshare:FromSession` -/
  fromSession : Option (List Char)
  /-- `beshare:Path` -/
  path : Option (List Char)
  /-- `beshare:StartOffset` -/
  startOffset : Option Int

/-- The fields of a `ShareFileTransfer` that say what it accepts and where it puts it. -/
structure ShareFileTransfer where
  uploadSession : Bool
  /-- The names that were requested and have not come yet. -/
  fileSet : List Name
  /-- The download folder. -/
  dir : Place
  dirNames : ∀ name ∈ dir, '/' ∉ name
  /-- `GetRetainFilePaths()` of the window -/
  retainFilePaths : Bool

/-- Make sure `path` does not try to go up any levels. -/
def checkPath (path : List Char) : List Char :=
  if path.head? = some '/' || "../".toList.isPrefixOf path || "/..".toList.isSuffixOf path ||
      path.tails.any ("/../".toList.isPrefixOf ·) || path == up then []
  else path

/-- The directory that `nextPart` leads to is opened or made. Where both fail the directory stays the same. -/
def enter (fs : FileSystem) (dlDir : Place) (nextPart : Name) : Place :=
  let subDir := resolve dlDir nextPart
  if fs.isDirectory subDir then subDir
  else if fs.createDirectory subDir then subDir
  else dlDir

/-- The names of the directories that the receiver goes through. -/
def parts (s : ShareFileTransfer) (msg : FileHeader) : List Name :=
  match s.retainFilePaths, msg.path with
  | true, some path => tokens (· == '/') (checkPath path)
  | _, _ => []

/-- `LastIndexOf`. An empty word is found at the last character. -/
def lastIndexOf (s word : List Char) : Option Nat :=
  if word = [] then if s = [] then none else some (s.length - 1)
  else (List.range (s.length + 1 - word.length)).reverse.find? fun i => word.isPrefixOf (s.drop i)

/-- `"%i"` -/
def decimal (n : Int) : List Char :=
  (Int.repr n).toList

/-- The next name to try: the number at the end of `buf` plus one, or a new number. -/
def nextName (fs : FileSystem) (buf : Name) : Name :=
  let lastWord := (tokens (fun c => c == ',' || c == ' ' || c == '\t') buf).getLastD []
  if lastWord.all fun c => decide ('0' ≤ c) && decide (c ≤ '9') then
    (match lastIndexOf buf lastWord with
      | some idx => buf.take idx
      | none => buf) ++ decimal (toInt32 (fs.atoi lastWord + 1))
  else buf ++ [' ', '2']

/-- Another name is tried while the file exists. -/
def generateNewFilename (fs : FileSystem) (dir : Place) : Nat → Place → Option Place
  | 0, _ => none
  | count + 1, entry =>
    if fs.opensReadWrite entry then
      match entry.getLast? with
      | some buf => generateNewFilename fs dir count (resolve dir (nextName fs buf))
      | none => none
    else some entry

/-- What a file header does: the directories that the receiver goes through, the name that it looks up in the last
of them, and the place of the file, if it can be opened. -/
structure Placed where
  parts : List Name
  fileName : Name
  file : Option Place

/-- The name in the header of a file that was requested. -/
def accepted (s : ShareFileTransfer) (msg : FileHeader) : Option Name :=
  if s.uploadSession then none
  else
    match msg.fileName, msg.fileSize, msg.fromSession with
    | some currentFileName, some _, some _ => if currentFileName ∈ s.fileSet then some currentFileName else none
    | _, _, _ => none

/-- The file already has the `StartOffset` bytes that are not sent. -/
def appends (fs : FileSystem) (msg : FileHeader) (existingFileEntry : Place) : Bool :=
  match msg.startOffset with
  | some startByte =>
    decide (0 < startByte) && fs.opensReadWrite existingFileEntry && fs.size existingFileEntry == some startByte
  | none => false

/-- The directories are opened, and the file in the last of them. -/
def place (fs : FileSystem) (s : ShareFileTransfer) (msg : FileHeader) (currentFileName : Name) : Placed :=
  let dlDir := (parts s msg).foldl (enter fs) s.dir
  let existingFileEntry := resolve dlDir currentFileName
  let entry :=
    if appends fs msg existingFileEntry then some existingFileEntry
    else generateNewFilename fs dlDir 15 existingFileEntry
  ⟨parts s msg, currentFileName, entry.filter fs.creates⟩

/-- The `TRANSFER_COMMAND_FILE_HEADER` case of `MessageReceived`, until the file is open. -/
def fileHeader (fs : FileSystem) (s : ShareFileTransfer) (msg : FileHeader) : Option Placed :=
  (accepted s msg).map (place fs s msg)

/-- A name that leads one level down. -/
def Plain (name : Name) : Prop :=
  name ≠ [] ∧ name ≠ up ∧ '/' ∉ name

instance (name : Name) : Decidable (Plain name) :=
  inferInstanceAs (Decidable (_ ∧ _ ∧ _))

/-- At `root` or further down. -/
structure Below (root place : Place) : Prop where
  inside : root <+: place
  names : ∀ name ∈ place, '/' ∉ name

/-- The directories and the file name are plain, and so the file is in the download folder. -/
structure Placed.Inside (placed : Placed) (dir : Place) : Prop where
  parts : ∀ name ∈ placed.parts, Plain name
  fileName : Plain placed.fileName
  file : ∀ place ∈ placed.file, Below dir place


theorem resolve_plain {name : Name} (h : Plain name) (dir : Place) :
    resolve dir name = if name = ['.'] then dir else dir ++ [name] := by
  obtain ⟨hNonempty, hUp, hSlash⟩ := h
  have hPlain : ∀ c ∈ name, (c == '/') = false := by
    intro c hc
    rw [beq_eq_false_iff_ne]
    rintro rfl
    exact hSlash hc
  have hHead : name.head? ≠ some '/' := fun hHead => hSlash (List.mem_of_head? hHead)
  rw [resolve, tokens_of_plain hNonempty hPlain, if_neg hHead]
  simp only [List.foldl_cons, List.foldl_nil, if_neg hUp]

section
variable {root dir : Place} {name : Name} (hDir : Below root dir)
include hDir

theorem Below.resolve (h : Plain name) : Below root (resolve dir name) := by
  rw [resolve_plain h]
  split
  · exact hDir
  · refine ⟨hDir.inside.trans (List.prefix_append ..), fun n hn => ?_⟩
    rcases List.mem_append.mp hn with hn | hn
    · exact hDir.names n hn
    · rw [List.mem_singleton.mp hn]
      exact h.2.2

theorem Below.enter (fs : FileSystem) (h : Plain name) : Below root (enter fs dir name) := by
  have hResolve := hDir.resolve h
  simp only [Downloads.enter]
  split
  · exact hResolve
  · split
    · exact hResolve
    · exact hDir

theorem Below.foldl_enter (fs : FileSystem) {names : List Name} (h : ∀ name ∈ names, Plain name) :
    Below root (names.foldl (Downloads.enter fs) dir) := by
  induction names generalizing dir with
  | nil => exact hDir
  | cons name names ih =>
    exact ih (hDir.enter fs (h name List.mem_cons_self)) fun n hn => h n (List.mem_cons_of_mem _ hn)

end

/-! ### The path -/

/-- `CheckPath` leaves no way up: a token `..` stands at the start, at the end or between two separators. -/
theorem tokens_checkPath {path : List Char} {name : Name} (h : name ∈ tokens (· == '/') (checkPath path)) :
    Plain name := by
  obtain ⟨hNonempty, hPlain, a, b, hSplit, ha, hb⟩ := mem_tokens h
  refine ⟨hNonempty, ?_, fun hSlash => absurd (hPlain '/' hSlash) (by simp)⟩
  rintro rfl
  unfold checkPath at hSplit
  split at hSplit
  · simp [up] at hSplit
  · rename_i hOk
    subst hSplit
    simp only [Bool.or_eq_true, decide_eq_true_eq, not_or] at hOk
    obtain ⟨⟨⟨⟨-, hStart⟩, hEnd⟩, hInside⟩, hWhole⟩ := hOk
    rcases List.eq_nil_or_concat a with rfl | ⟨a, c, rfl⟩
    · cases b with
      | nil => simp at hWhole
      | cons d b =>
        have hd := hb d rfl
        rw [beq_iff_eq] at hd
        subst hd
        exact hStart rfl
    · rw [List.concat_eq_append] at *
      have hc := ha c (List.getLast?_concat ..)
      rw [beq_iff_eq] at hc
      subst hc
      cases b with
      | nil =>
        refine hEnd (List.isSuffixOf_iff_suffix.mpr ⟨a, ?_⟩)
        simp [up]
      | cons d b =>
        have hd := hb d rfl
        rw [beq_iff_eq] at hd
        subst hd
        refine hInside (List.any_eq_true.mpr ⟨"/../".toList ++ b, ?_, ?_⟩)
        · rw [List.mem_tails]
          exact ⟨a, by simp [up]⟩
        · exact List.isPrefixOf_iff_prefix.mpr (List.prefix_append ..)

theorem parts_plain (s : ShareFileTransfer) (msg : FileHeader) : ∀ name ∈ parts s msg, Plain name := by
  intro name h
  unfold parts at h
  split at h
  · exact tokens_checkPath h
  · cases h

/-! ### The file name -/

theorem repr_toList (n : Nat) : (Nat.repr n).toList = Nat.toDigits 10 n := by
  rw [Nat.repr_eq_ofList_toDigits, String.toList_ofList]

theorem decimal_ofNat (n : Nat) : decimal (.ofNat n) = Nat.toDigits 10 n := repr_toList n

theorem decimal_negSucc (n : Nat) : decimal (.negSucc n) = '-' :: Nat.toDigits 10 (n + 1) := by
  rw [← repr_toList]
  exact String.toList_append

theorem decimal_plain (n : Int) : decimal n ≠ [] ∧ '/' ∉ decimal n ∧ '.' ∉ decimal n := by
  have hDigits : ∀ (m : Nat) (c : Char), c.isDigit = false → c ∉ Nat.toDigits 10 m := by
    intro m c hc hMem
    rw [Nat.isDigit_of_mem_toDigits (by decide) (by decide) hMem] at hc
    cases hc
  cases n with
  | ofNat m =>
    rw [decimal_ofNat]
    exact ⟨Nat.toDigits_ne_nil, hDigits m '/' rfl, hDigits m '.' rfl⟩
  | negSucc m =>
    rw [decimal_negSucc]
    refine ⟨List.cons_ne_nil _ _, fun hMem => ?_, fun hMem => ?_⟩
    · exact hDigits _ '/' rfl ((List.mem_cons.mp hMem).resolve_left (by decide))
    · exact hDigits _ '.' rfl ((List.mem_cons.mp hMem).resolve_left (by decide))

theorem plain_append {a d : List Char} (ha : '/' ∉ a) (hd : d ≠ [] ∧ '/' ∉ d ∧ '.' ∉ d) : Plain (a ++ d) := by
  obtain ⟨hNonempty, hSlash, hDot⟩ := hd
  refine ⟨List.append_ne_nil_of_right_ne_nil _ hNonempty, fun hUp => ?_, fun hMem => ?_⟩
  · have hAll : ∀ c ∈ a ++ d, c = '.' := by
      rw [hUp]
      simp [up]
    obtain ⟨c, hc⟩ := List.exists_mem_of_ne_nil d hNonempty
    exact hDot (hAll c (List.mem_append_right _ hc) ▸ hc)
  · rcases List.mem_append.mp hMem with h | h
    · exact ha h
    · exact hSlash h

/-- A generated name ends with a number. -/
theorem nextName_plain (fs : FileSystem) {buf : Name} (h : '/' ∉ buf) : Plain (nextName fs buf) := by
  simp only [nextName]
  split
  · refine plain_append ?_ (decimal_plain _)
    split
    · exact fun hMem => h (List.mem_of_mem_take hMem)
    · exact h
  · exact plain_append h (by decide)

theorem Below.generateNewFilename (fs : FileSystem) {root dir entry place : Place} {count : Nat}
    (hDir : Below root dir) (hEntry : Below root entry)
    (h : generateNewFilename fs dir count entry = some place) : Below root place := by
  induction count generalizing entry with
  | zero => cases h
  | succ count ih =>
    rw [Downloads.generateNewFilename] at h
    split at h
    · split at h
      · rename_i buf hLast
        have hNext := nextName_plain fs (hEntry.names buf (List.mem_of_getLast? hLast))
        exact ih (hDir.resolve hNext) h
      · cases h
    · cases h
      exact hEntry

/-! ### The header -/

/-- The receiver stays in the download folder exactly when the name that it accepts is a plain one. -/
theorem fileHeader_inside (fs : FileSystem) (s : ShareFileTransfer) (msg : FileHeader) :
    (∀ placed, fileHeader fs s msg = some placed → placed.Inside s.dir) ↔
      ∀ name, accepted s msg = some name → Plain name := by
  constructor
  · intro h name hAccepted
    exact (h (place fs s msg name) (congrArg (Option.map _) hAccepted)).fileName
  · intro h placed hPlaced
    obtain ⟨name, hAccepted, rfl⟩ := Option.map_eq_some_iff.mp hPlaced
    have hName := h name hAccepted
    have hStart : Below s.dir s.dir := ⟨List.prefix_rfl, s.dirNames⟩
    have hDir := hStart.foldl_enter fs (parts_plain s msg)
    refine ⟨parts_plain s msg, hName, fun file hFile => ?_⟩
    obtain ⟨hEntry, -⟩ := Option.filter_eq_some_iff.mp hFile
    split at hEntry
    · cases hEntry
      exact hDir.resolve hName
    · exact hDir.generateNewFilename fs (hDir.resolve hName) hEntry

/-- A peer that shares a file under the name `..` has the receiver look it up in the download folder. -/
theorem fileHeader_not_inside : ¬∀ fs s msg placed, fileHeader fs s msg = some placed → placed.Inside s.dir := by
  intro h
  have hInside := h ⟨fun _ => true, fun _ => false, fun _ => false, fun _ => none, fun _ => false, fun _ => 0⟩
    ⟨false, [up], ["downloads".toList], by decide, false⟩ ⟨some up, some 100, some ['1'], none, none⟩ _ rfl
  exact hInside.fileName.2.1 rfl

end BeShare.Client.Downloads
