import BeShare.Client.Downloads
import BeShare.Client.Uploads

/-!
A download session: what a `ShareFileTransfer` does with the headers and the data of the files that it requested, and
how it ends and starts again. Left out are the GUI, the log, the attributes of a file and its position on the screen,
the times and the ports.
-/

namespace BeShare.Client.Downloads

open BeShare.Lib

/-- A file that is open for writing, and where the next bytes go. -/
structure OpenFile where
  place : Place
  contents : List UInt8
  position : Nat

namespace OpenFile

variable (file : OpenFile)

/-- `BFile::Write` -/
def write (data : List UInt8) : OpenFile :=
  { file with
    contents := file.contents.take file.position ++ data ++ file.contents.drop (file.position + data.length)
    position := file.position + data.length }

/-- The next bytes go to where there are bytes, or behind the last one. -/
def Sound : Prop :=
  file.position ≤ file.contents.length

variable {file}

theorem write_nil (file : OpenFile) : file.write [] = file := by
  unfold write
  rw [List.append_nil, List.length_nil, Nat.add_zero, List.take_append_drop]

theorem Sound.write (h : file.Sound) (data : List UInt8) : (file.write data).Sound := by
  unfold Sound OpenFile.write
  rw [List.length_append, List.length_append, List.length_take, Nat.min_eq_left h]
  exact Nat.le_add_right ..

theorem write_write (h : file.Sound) (data data' : List UInt8) :
    (file.write data).write data' = file.write (data ++ data') := by
  have hFront : (file.contents.take file.position ++ data).length = file.position + data.length := by
    rw [List.length_append, List.length_take, Nat.min_eq_left h]
  unfold write
  dsimp only
  rw [List.length_append, ← Nat.add_assoc, ← hFront, List.take_left, ← List.append_assoc, List.length_append,
    List.length_take, Nat.min_eq_left h, List.drop_append, List.drop_of_length_le (by omega), List.drop_drop]
  simp only [List.nil_append, List.length_append, List.length_take, Nat.min_eq_left h]
  congr 3
  omega

end OpenFile

/-- The fields of a `TRANSFER_COMMAND_FILE_DATA` message. -/
structure FileData where
  data : Option (List UInt8)
  chk : Option UInt32
  mm : Option Int

structure DownloadSession extends ShareFileTransfer where
  /-- The names that are requested when the session starts again. -/
  origFileSet : List Name
  origFileSetSize : Nat
  currentFileName : Name
  currentFile : Option OpenFile
  currentFileSize : Int
  currentFileBytesDone : Int
  currentFileIndex : Nat
  remoteHostName : List Char
  remoteSessionID : List Char
  autoRestart : Bool
  isConnecting : Bool
  isAccepting : Bool
  isAcceptSession : Bool
  isConnected : Bool
  isWaitingOnLocal : Bool
  isWaitingOnRemote : Bool
  errorOccurred : Bool
  isFinished : Bool
  /-- `_mtt` is not `NULL`. -/
  hasThread : Bool

/-- `Hashtable::Remove` -/
def without (fileSet : List Name) (name : Name) : List Name :=
  fileSet.filter fun other => decide (other ≠ name)

theorem mem_without {fileSet : List Name} {name other : Name} :
    other ∈ without fileSet name ↔ other ∈ fileSet ∧ other ≠ name :=
  List.mem_filter.trans (and_congr_right fun _ => decide_eq_true_iff)

namespace DownloadSession

variable (s : DownloadSession)

/-- What `InitConnectSession` and `InitAcceptSession` do alike: all files are requested. -/
def initSession : DownloadSession :=
  { s with
    fileSet := s.origFileSet
    origFileSetSize := s.origFileSet.length
    currentFileSize := -1
    currentFileBytesDone := -1
    uploadSession := s.origFileSet.isEmpty
    hasThread := true }

def initConnectSession : DownloadSession :=
  { s.initSession with isAcceptSession := false }

def initAcceptSession : DownloadSession :=
  { s.initSession with isAccepting := true, isAcceptSession := true }

/-- What `AbortSession` does before it may start the session again. -/
def finish (error : Bool) : DownloadSession :=
  { s with
    isConnecting := false
    isAccepting := false
    isConnected := false
    isWaitingOnLocal := false
    isWaitingOnRemote := false
    currentFileSize := -1
    currentFileBytesDone := -1
    errorOccurred := error
    isFinished := true
    hasThread := false }

/-- `RestartSession`. `AbortSession(false, true, false)` does not start the session again. -/
def restartSession : DownloadSession :=
  let s := { s.finish false with
    autoRestart := false
    isFinished := false
    isWaitingOnLocal := true
    currentFileIndex := 0
    currentFileName := []
    fileSet := s.origFileSet
    origFileSetSize := s.origFileSet.length }
  if s.remoteHostName = [] then s.initAcceptSession else s.initConnectSession

def startAgain : DownloadSession :=
  if s.autoRestart then { s with autoRestart := false }.restartSession else s

def abortSession (error forceNoRestart : Bool) : DownloadSession :=
  startAgain { s.finish error with autoRestart := s.autoRestart && error && !forceNoRestart }

/-- `MTT_EVENT_SESSION_DISCONNECTED` -/
def disconnected : DownloadSession :=
  let unfinished := decide (s.currentFileBytesDone < s.currentFileSize) || decide
    (s.currentFileIndex < s.origFileSetSize)
  startAgain { s with
    currentFile := none
    isFinished := true
    isConnecting := false
    isConnected := false
    isAccepting := false
    isWaitingOnLocal := false
    isWaitingOnRemote := false
    errorOccurred := unfinished || s.errorOccurred
    autoRestart := unfinished && s.autoRestart
    hasThread := false }

/-- The connection is there, and no file is open. -/
def listening : DownloadSession :=
  { s with
    uploadSession := false
    currentFile := none
    hasThread := true }

/-! ### Headers -/

/-- The fields of the header that are found until one is missing. -/
def found (msg : FileHeader) : DownloadSession :=
  if s.uploadSession then s
  else
    match msg.fileName, msg.fileSize, msg.fromSession with
    | none, _, _ => s
    | some fileName, none, _ => { s with currentFileName := fileName }
    | some fileName, some fileSize, none => { s with currentFileName := fileName, currentFileSize := fileSize }
    | some fileName, some fileSize, some fromSession =>
      { s with currentFileName := fileName, currentFileSize := fileSize, remoteSessionID := fromSession }

variable (fs : FileSystem) (contents : Place → List UInt8) (msg : FileHeader)

/-- The double check opens the file that is there, if there is an offset. -/
def checkedFile (existingFileEntry : Place) : Option OpenFile :=
  match msg.startOffset with
  | some startByte =>
    if 0 < startByte then
      if fs.opensReadWrite existingFileEntry then some ⟨existingFileEntry, contents existingFileEntry, 0⟩ else none
    else s.currentFile
  | none => s.currentFile

/-- The file that is opened for a header that is accepted, and the entry that it is opened at. -/
def openFile (currentFileName : Name) : Option (Option OpenFile) :=
  let dlDir := (parts s.toShareFileTransfer msg).foldl (enter fs) s.dir
  let existingFileEntry := resolve dlDir currentFileName
  let append := appends fs msg existingFileEntry
  (if append then some existingFileEntry else generateNewFilename fs dlDir 15 existingFileEntry).map fun entry =>
    if fs.creates entry then
      some ⟨entry, contents entry, if append then (contents entry).length else 0⟩
    else none

/-- The `TRANSFER_COMMAND_FILE_HEADER` case of `MessageReceived`. The contents are those of the files that are there. -/
def fileHeader : DownloadSession :=
  match accepted s.toShareFileTransfer msg with
  | none => (s.found msg).abortSession true false
  | some fileName =>
    let prevFile := s.currentFileName
    let t := { s.found msg with
      fileSet := without s.fileSet fileName
      origFileSet := without s.origFileSet prevFile }
    match s.openFile fs contents msg fileName with
    | some (some file) =>
      { t with
        currentFileName := file.place.getLastD []
        currentFile := some file
        isWaitingOnRemote := false
        currentFileIndex := s.currentFileIndex + 1
        currentFileBytesDone := msg.startOffset.getD 0 }
    | some none => { t with currentFile := none }.abortSession true false
    | none =>
      let dlDir := (parts s.toShareFileTransfer msg).foldl (enter fs) s.dir
      { t with currentFile := s.checkedFile fs contents msg (resolve dlDir fileName) }.abortSession true false

/-! ### Data -/

/-- `MUNGE_MODE_NONE` and `MUNGE_MODE_XOR` are known. -/
def unmunge (mm : Option Int) (data : List UInt8) : Option (List UInt8) :=
  match mm with
  | none => some data
  | some mungeMode => if mungeMode = 0 then some data else if mungeMode = 1 then some (data.map (· ^^^ 0xFF)) else none

/-- The data to be written, if the checksum and the mode are right. -/
def plainData (chk : Option UInt32) (mm : Option Int) (data : List UInt8) : Option (List UInt8) :=
  match chk with
  | none => unmunge mm data
  | some checksum => if Uploads.calculateChecksum data = checksum then unmunge mm data else none

/-- What `Write` returns for a file that is open -/
def written (result : Int) (file : OpenFile) (data : List UInt8) : DownloadSession :=
  if result = data.length then
    let currentFileBytesDone := s.currentFileBytesDone + data.length
    { s with
      currentFile := some (file.write data)
      autoRestart := true
      currentFileBytesDone := currentFileBytesDone
      origFileSet :=
        if s.currentFileSize ≤ currentFileBytesDone then without s.origFileSet s.currentFileName else s.origFileSet }
  else { s with currentFile := some (file.write (data.take result.toNat)) }.abortSession true false

/-- The `TRANSFER_COMMAND_FILE_DATA` case of `MessageReceived`, with the result of `Write`. -/
def fileData (msg : FileData) (result : Int) : DownloadSession :=
  if s.uploadSession then s
  else
    match msg.data with
    | none => s
    | some data =>
      let s := { s with isWaitingOnRemote := false }
      match plainData msg.chk msg.mm data, s.currentFile with
      | some data, some file => s.written result file data
      | _, _ => s.abortSession true false

/-- What a header can do. -/
inductive HeaderDoes (s : DownloadSession) (fs : FileSystem) (contents : Place → List UInt8) (msg : FileHeader) :
    DownloadSession → Prop
  | rejects : accepted s.toShareFileTransfer msg = none →
      HeaderDoes s fs contents msg ((s.found msg).abortSession true false)
  | opens (fileName : Name) (file : OpenFile) : accepted s.toShareFileTransfer msg = some fileName →
      s.openFile fs contents msg fileName = some (some file) →
      HeaderDoes s fs contents msg { s.found msg with
        fileSet := without s.fileSet fileName
        origFileSet := without s.origFileSet s.currentFileName
        currentFileName := file.place.getLastD []
        currentFile := some file
        isWaitingOnRemote := false
        currentFileIndex := s.currentFileIndex + 1
        currentFileBytesDone := msg.startOffset.getD 0 }
  | fails (fileName : Name) (currentFile : Option OpenFile) : accepted s.toShareFileTransfer msg = some fileName →
      (s.openFile fs contents msg fileName).join = none →
      HeaderDoes s fs contents msg ({ s.found msg with
        fileSet := without s.fileSet fileName
        origFileSet := without s.origFileSet s.currentFileName
        currentFile := currentFile }.abortSession true false)

theorem fileHeader_does : HeaderDoes s fs contents msg (s.fileHeader fs contents msg) := by
  unfold fileHeader
  split
  next hRejected => exact .rejects hRejected
  next fileName hAccepted =>
    dsimp only
    split
    next file hOpen => exact .opens fileName file hAccepted hOpen
    next hShut => exact .fails fileName none hAccepted (congrArg Option.join hShut)
    next hNone => exact .fails fileName _ hAccepted (congrArg Option.join hNone)

/-- The data that the session takes from a message, if it can make sense of them and `Write` writes them all. -/
def writes (msg : FileData) (result : Int) : Option (List UInt8) :=
  if s.uploadSession then none
  else
    match msg.data, s.currentFile with
    | some data, some _ => (plainData msg.chk msg.mm data).filter fun data => decide (result = data.length)
    | _, _ => none

/-- What data can do. -/
inductive DataDoes (s : DownloadSession) (msg : FileData) (result : Int) : DownloadSession → Prop
  | ignores : s.writes msg result = none → s.uploadSession = true ∨ msg.data = none → DataDoes s msg result s
  | takes (data : List UInt8) (file : OpenFile) : s.writes msg result = some data → s.currentFile = some file →
      DataDoes s msg result { s with
        isWaitingOnRemote := false
        currentFile := some (file.write data)
        autoRestart := true
        currentFileBytesDone := s.currentFileBytesDone + data.length
        origFileSet :=
          if s.currentFileSize ≤ s.currentFileBytesDone + data.length then without s.origFileSet s.currentFileName
          else s.origFileSet }
  | fails (currentFile : Option OpenFile) : s.writes msg result = none →
      s.uploadSession = false → msg.data.isSome = true →
      DataDoes s msg result ({ s with isWaitingOnRemote := false, currentFile := currentFile }.abortSession true false)

theorem fileData_does (msg : FileData) (result : Int) : DataDoes s msg result (s.fileData msg result) := by
  have hWrites : s.writes msg result = s.writes msg result := rfl
  conv at hWrites => rhs; unfold writes
  unfold fileData
  split
  next hUpload =>
    rw [if_pos hUpload] at hWrites
    exact .ignores hWrites (.inl hUpload)
  next hDownload =>
    rw [if_neg hDownload] at hWrites
    split
    next hNone =>
      rw [hNone] at hWrites
      exact .ignores hWrites (.inr hNone)
    next data hData =>
      rw [hData] at hWrites
      have hSome : msg.data.isSome = true := by rw [hData, Option.isSome_some]
      dsimp only
      split
      next plain file hPlain hFile =>
        rw [hFile] at hWrites
        dsimp only at hWrites
        rw [hPlain, Option.filter_some] at hWrites
        unfold written
        split
        next hAll =>
          rw [if_pos (decide_eq_true hAll)] at hWrites
          exact .takes plain file hWrites hFile
        next hPart =>
          rw [if_neg (by simpa using hPart)] at hWrites
          exact .fails _ hWrites (Bool.eq_false_iff.mpr hDownload) hSome
      next hBad =>
        refine .fails _ (hWrites.trans ?_) (Bool.eq_false_iff.mpr hDownload) hSome
        cases hFile : s.currentFile with
        | none => rfl
        | some file =>
          show Option.filter _ (plainData msg.chk msg.mm data) = none
          cases hPlain : plainData msg.chk msg.mm data with
          | none => rfl
          | some plain => exact absurd hFile (hBad plain file hPlain)

/-! ### Runs -/

/-- The events that change what is requested. -/
inductive Event
  | connected
  | header (fs : FileSystem) (contents : Place → List UInt8) (msg : FileHeader)
  | data (msg : FileData) (result : Int)
  | disconnected
  | abort (error forceNoRestart : Bool)
  | restart

/-- What comes from a thread that is gone is not seen. -/
def step : Event → DownloadSession
  | .connected => if s.hasThread then { s with isConnecting := false, isConnected := true } else s
  | .header fs contents msg => if s.hasThread then s.fileHeader fs contents msg else s
  | .data msg result => if s.hasThread then s.fileData msg result else s
  | .disconnected => if s.hasThread then s.disconnected else s
  | .abort error forceNoRestart => s.abortSession error forceNoRestart
  | .restart => s.restartSession

end DownloadSession

end BeShare.Client.Downloads
