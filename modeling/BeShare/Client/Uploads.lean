import BeShare.Lib.Runs
import Mathlib.Algebra.Group.Nat.Defs
import Mathlib.Algebra.Ring.Int.Defs
import Mathlib.Data.UInt

/-!
An upload session and the loop of `DoUpload`, with the events that call it. Left out are the GUI, the log, the kind and
the attributes in a header, whether an error is shown, and failures of memory.
-/

namespace BeShare.Client.Uploads

structure OffsetAndPath where
  offset : Int
  path : List UInt8
  deriving DecidableEq

/-- What the file system answers while a file is the current one. -/
structure Answers where
  /-- `FindSharedFile` finds it, and `SetTo` opens it. -/
  opens : Bool
  size : Option Int
  seek : Int
  /-- What `Read` puts into the buffer, unless it fails. -/
  read : Option (List UInt8)

inductive Outgoing
  | header (fileName : List UInt8) (fileSize : Int) (fromSession path : List UInt8) (startOffset : Option Int)
  | data (data : List UInt8) (mm : Option Int) (chk : UInt32)
  deriving DecidableEq

structure UploadSession where
  localSessionID : List UInt8
  isConnected : Bool
  isWaitingOnLocal : Bool
  isFinished : Bool
  beginTransferEnabled : Bool
  /-- `_mtt` is not `NULL`. -/
  hasThread : Bool
  fileSet : List (List UInt8 × OffsetAndPath)
  fileSetIter : List (List UInt8 × OffsetAndPath)
  currentFileName : List UInt8
  /-- `_currentFile` is open. -/
  currentFile : Bool
  currentFileSize : Int
  currentFileBytesDone : Int
  uploadWaitingForSendToFinish : Bool
  mungeMode : Int
  sent : List Outgoing
  /-- The notifications that the thread still owes: one for each request. -/
  drains : Nat

/-- `_mungeMode` is `MUNGE_MODE_XOR`. -/
def munge (mungeMode : Int) (data : List UInt8) : List UInt8 :=
  if mungeMode = 1 then data.map (· ^^^ 0xFF) else data

def calculateChecksum (data : List UInt8) : UInt32 :=
  (data.zipIdx.map fun b => UInt32.ofNat (b.1.toNat <<< (b.2 % 24))).sum

namespace UploadSession

variable (file : Nat → Answers) (s : UploadSession)

/-- An upload is not restarted. -/
def abortSession : UploadSession :=
  { s with
    isConnected := false
    isWaitingOnLocal := false
    currentFileBytesDone := -1
    currentFileSize := -1
    isFinished := true
    hasThread := false
    drains := 0 }

def sendData (data : List UInt8) : UploadSession :=
  let data := munge s.mungeMode data
  { s with
    sent := s.sent ++ [.data data (if s.mungeMode = 1 then some s.mungeMode else none) (calculateChecksum data)]
    drains := s.drains + 1
    currentFileBytesDone := s.currentFileBytesDone + data.length }

/-- The file is the current one, and it is open. The header is left out when the file has no size, or cannot be read
from the offset on. -/
def sendHeader (value : OffsetAndPath) (file : Answers) : UploadSession :=
  match file.size with
  | none => s
  | some size =>
    let s := { s with currentFileSize := size }
    if file.seek = s.currentFileBytesDone then
      { s with
        sent := s.sent ++ [.header s.currentFileName size s.localSessionID value.path
          (if 0 < s.currentFileBytesDone then some s.currentFileBytesDone else none)] }
    else s

/-- `DoUploadAux`: whether it must be called again. The answers are those while so many files are left. -/
def doUploadAux : Bool × UploadSession :=
  if s.isWaitingOnLocal then (false, s)
  else if s.hasThread then
    if 0 ≤ s.currentFileBytesDone then
      match if s.currentFile then (file s.fileSetIter.length).read else none with
      | none => (false, s.abortSession)
      | some [] => (true, { s with currentFileBytesDone := -1, currentFileSize := -1 })
      | some (b :: data) => (false, s.sendData (b :: data))
    else
      match s.fileSetIter with
      | (name, value) :: rest =>
        let s := { s with fileSetIter := rest, currentFileName := name, currentFileBytesDone := value.offset }
        if (file rest.length).opens then
          (true, { s with currentFile := true }.sendHeader value (file rest.length))
        else (false, { s with currentFile := false })
      | [] => (false, { s with uploadWaitingForSendToFinish := true, drains := s.drains + 1 })
  else (false, s.abortSession)

/-- How often `DoUploadAux` can ask to be called again: twice for each file that is left. -/
def rounds : Nat :=
  2 * s.fileSetIter.length + if 0 ≤ s.currentFileBytesDone then 1 else 0

/-- `while(DoUploadAux())`, for at most so many rounds. -/
def doUploadLoop : Nat → UploadSession → UploadSession
  | 0, s => s
  | n + 1, s =>
    if (s.doUploadAux file).1 then doUploadLoop n (s.doUploadAux file).2 else (s.doUploadAux file).2

def doUpload : UploadSession :=
  doUploadLoop file (s.rounds + 1) s

/-! ### The loop -/

variable {file} {s}

/-- A header changes nothing that the loop looks at. -/
theorem sendHeader_eq (s : UploadSession) (value : OffsetAndPath) (f : Answers) : ∃ size sent,
    s.sendHeader value f = { s with currentFileSize := size, sent := sent } := by
  unfold sendHeader
  split
  · exact ⟨s.currentFileSize, s.sent, rfl⟩
  · rename_i size _
    dsimp only
    split
    · exact ⟨size, _, rfl⟩
    · exact ⟨size, s.sent, rfl⟩

/-- What `DoUploadAux` can do. -/
inductive Does (file : Nat → Answers) (s : UploadSession) : Bool × UploadSession → Prop
  | waits : s.isWaitingOnLocal = true → Does file s (false, s)
  | aborts : s.isWaitingOnLocal = false →
      (s.hasThread = true → 0 ≤ s.currentFileBytesDone ∧
        (s.currentFile = true → (file s.fileSetIter.length).read = none)) →
      Does file s (false, s.abortSession)
  | ends : s.isWaitingOnLocal = false → s.hasThread = true → 0 ≤ s.currentFileBytesDone → s.currentFile = true →
      (file s.fileSetIter.length).read = some [] →
      Does file s (true, { s with currentFileBytesDone := -1, currentFileSize := -1 })
  | sends (b : UInt8) (data : List UInt8) : s.isWaitingOnLocal = false → s.hasThread = true →
      0 ≤ s.currentFileBytesDone → s.currentFile = true →
      (file s.fileSetIter.length).read = some (b :: data) → Does file s (false, s.sendData (b :: data))
  | opens (name : List UInt8) (value : OffsetAndPath) (rest : List (List UInt8 × OffsetAndPath)) :
      s.isWaitingOnLocal = false → s.hasThread = true → s.currentFileBytesDone < 0 →
      s.fileSetIter = (name, value) :: rest → (file rest.length).opens = true →
      Does file s (true, { s with
        fileSetIter := rest, currentFileName := name, currentFileBytesDone := value.offset,
        currentFile := true }.sendHeader value (file rest.length))
  | stalls (name : List UInt8) (value : OffsetAndPath) (rest : List (List UInt8 × OffsetAndPath)) :
      s.isWaitingOnLocal = false → s.hasThread = true → s.currentFileBytesDone < 0 →
      s.fileSetIter = (name, value) :: rest → (file rest.length).opens = false →
      Does file s (false, { s with
        fileSetIter := rest, currentFileName := name, currentFileBytesDone := value.offset, currentFile := false })
  | finishes : s.isWaitingOnLocal = false → s.hasThread = true → s.currentFileBytesDone < 0 → s.fileSetIter = [] →
      Does file s (false, { s with uploadWaitingForSendToFinish := true, drains := s.drains + 1 })

theorem doUploadAux_does (file : Nat → Answers) (s : UploadSession) : Does file s (s.doUploadAux file) := by
  unfold doUploadAux
  split
  · exact .waits ‹_›
  · rename_i hWaits
    have hWaits : s.isWaitingOnLocal = false := Bool.eq_false_iff.mpr hWaits
    split
    · rename_i hThread
      split
      · rename_i hDone
        by_cases hFile : s.currentFile = true
        · rw [if_pos hFile]
          split
          · rename_i hRead
            exact .aborts hWaits fun _ => ⟨hDone, fun _ => hRead⟩
          · rename_i hRead
            exact .ends hWaits hThread hDone hFile hRead
          · rename_i b data hRead
            exact .sends b data hWaits hThread hDone hFile hRead
        · rw [if_neg hFile]
          exact .aborts hWaits fun _ => ⟨hDone, fun hOpen => absurd hOpen hFile⟩
      · rename_i hDone
        have hDone : s.currentFileBytesDone < 0 := Int.not_le.mp hDone
        split
        · rename_i name value rest hIter
          dsimp only
          split
          · rename_i hOpens
            exact .opens name value rest hWaits hThread hDone hIter hOpens
          · rename_i hOpens
            exact .stalls name value rest hWaits hThread hDone hIter (Bool.eq_false_iff.mpr hOpens)
        · rename_i hIter
          exact .finishes hWaits hThread hDone hIter
    · rename_i hThread
      exact .aborts hWaits fun hHas => absurd hHas hThread

theorem doUploadAux_rounds (h : (s.doUploadAux file).1 = true) : (s.doUploadAux file).2.rounds < s.rounds := by
  have hDoes := doUploadAux_does file s
  generalize s.doUploadAux file = after at h hDoes
  cases hDoes with
  | ends _ _ hDone => simp [rounds, hDone]
  | opens name value rest _ _ hDone hIter =>
    obtain ⟨_, _, hHeader⟩ := sendHeader_eq { s with
      fileSetIter := rest, currentFileName := name, currentFileBytesDone := value.offset,
      currentFile := true } value (file rest.length)
    rw [hHeader]
    simp only [rounds, hIter, List.length_cons]
    split <;> omega
  | _ => cases h

/-- The loop needs no more rounds. -/
theorem doUploadLoop_eq {n m : Nat} (hn : s.rounds < n) (hm : s.rounds < m) :
    doUploadLoop file n s = doUploadLoop file m s := by
  induction n generalizing s m with
  | zero => omega
  | succ n ih =>
    cases m with
    | zero => omega
    | succ m =>
      rw [doUploadLoop, doUploadLoop]
      split
      · rename_i hAgain
        have hFewer := doUploadAux_rounds hAgain
        exact ih (by omega) (by omega)
      · rfl

/-- `DoUpload` returns, and is what the source says. -/
theorem doUpload_eq (file : Nat → Answers) (s : UploadSession) : s.doUpload file =
    if (s.doUploadAux file).1 then (s.doUploadAux file).2.doUpload file else (s.doUploadAux file).2 := by
  rw [doUpload, doUploadLoop]
  split
  · rename_i hAgain
    exact doUploadLoop_eq (doUploadAux_rounds hAgain) (Nat.lt_succ_self _)
  · rfl

/-! ### What a call leaves behind -/

/-- A connected session that may send. -/
structure Active (s : UploadSession) : Prop where
  thread : s.hasThread = true
  unfinished : s.isFinished = false
  begun : s.isWaitingOnLocal = false

/-- A further notification is requested, or the end is announced, or the session is aborted. -/
def GoesOn (s s' : UploadSession) : Prop :=
  s.drains < s'.drains ∨ s'.uploadWaitingForSendToFinish = true ∨ s'.isFinished = true

/-- The files that are come to can be opened. The next one is come to when there is nothing to read of a file. -/
def filesOpen (file : Nat → Answers) : List (List UInt8 × OffsetAndPath) → Prop
  | [] => True
  | (_, value) :: rest => (file rest.length).opens = true ∧
      (value.offset < 0 ∨ (file rest.length).read = some [] → filesOpen file rest)

/-- There is no current file, or it is at its end. -/
def NeedsNext (file : Nat → Answers) (s : UploadSession) : Prop :=
  s.currentFileBytesDone < 0 ∨ s.currentFile = true ∧ (file s.fileSetIter.length).read = some []

theorem doUpload_goesOn_iff (hActive : s.Active) : GoesOn s (s.doUpload file) ↔
    s.uploadWaitingForSendToFinish = true ∨ (s.NeedsNext file → filesOpen file s.fileSetIter) := by
  induction hRounds : s.rounds using Nat.strong_induction_on generalizing s with
  | _ n ih =>
    have hFewer := @doUploadAux_rounds file s
    have hDoes := doUploadAux_does file s
    rw [doUpload_eq]
    generalize s.doUploadAux file = after at hFewer hDoes
    cases hDoes with
    | waits hWaits => exact absurd (hWaits.symm.trans hActive.begun) Bool.noConfusion
    | aborts _ hReads =>
      obtain ⟨hDone, hNone⟩ := hReads hActive.thread
      refine ⟨fun _ => .inr fun hNeeds => ?_, fun _ => .inr (.inr rfl)⟩
      rcases hNeeds with hNot | ⟨hFile, hEnd⟩
      · omega
      · exact absurd ((hNone hFile).symm.trans hEnd) (Option.some_ne_none _).symm
    | ends _ _ hDone hFile hEnd =>
      have hRest := ih _ (hRounds ▸ hFewer rfl) (s := { s with currentFileBytesDone := -1, currentFileSize := -1 })
        ⟨hActive.thread, hActive.unfinished, hActive.begun⟩ rfl
      have hNow : s.NeedsNext file := .inr ⟨hFile, hEnd⟩
      have hThen : NeedsNext file { s with currentFileBytesDone := -1, currentFileSize := -1 } :=
        .inl (by decide : (-1 : Int) < 0)
      rw [forall_prop_of_true hNow]
      rw [forall_prop_of_true hThen] at hRest
      exact hRest
    | sends b data _ _ hDone hFile hRead =>
      refine ⟨fun _ => .inr fun hNeeds => ?_, fun _ => .inl (Nat.lt_succ_self _)⟩
      rcases hNeeds with hNot | ⟨_, hEnd⟩
      · omega
      · exact absurd (Option.some.inj (hRead.symm.trans hEnd)) (List.cons_ne_nil _ _)
    | opens name value rest _ _ hDone hIter hOpens =>
      obtain ⟨size, sent, hHeader⟩ := sendHeader_eq { s with
        fileSetIter := rest, currentFileName := name, currentFileBytesDone := value.offset,
        currentFile := true } value (file rest.length)
      rw [hHeader] at hFewer ⊢
      have hRest := ih _ (hRounds ▸ hFewer rfl) (s := { s with
        fileSetIter := rest, currentFileName := name, currentFileBytesDone := value.offset, currentFile := true,
        currentFileSize := size, sent := sent })
        ⟨hActive.thread, hActive.unfinished, hActive.begun⟩ rfl
      have hNow : s.NeedsNext file := .inl hDone
      have hFirst : filesOpen file s.fileSetIter ↔
          (value.offset < 0 ∨ (file rest.length).read = some [] → filesOpen file rest) := by
        rw [hIter, filesOpen]
        exact and_iff_right hOpens
      rw [forall_prop_of_true hNow, hFirst]
      refine hRest.trans (or_congr_right ?_)
      simp only [NeedsNext, true_and]
    | stalls name value rest _ _ hDone hIter hOpens =>
      have hNow : s.NeedsNext file := .inl hDone
      have hShut : ¬filesOpen file s.fileSetIter := by
        rw [hIter, filesOpen, hOpens]
        exact fun h => Bool.false_ne_true h.1
      rw [forall_prop_of_true hNow]
      refine ⟨?_, fun h => .inr (.inl (h.resolve_right hShut))⟩
      rintro (hMore | hEnd | hFinished)
      · exact absurd hMore (Nat.lt_irrefl _)
      · exact .inl hEnd
      · exact absurd (hActive.unfinished.symm.trans hFinished) Bool.false_ne_true
    | finishes _ _ hDone hIter =>
      refine ⟨fun _ => .inr fun _ => ?_, fun _ => .inl (Nat.lt_succ_self _)⟩
      rw [hIter]
      trivial

end UploadSession

end BeShare.Client.Uploads
