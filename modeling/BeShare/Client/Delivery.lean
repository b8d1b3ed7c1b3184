import BeShare.Client.Receiving
import BeShare.Client.UploadRuns

/-!
A transfer between two peers: the rounds of `DoUpload` on the one side, the messages in the order they were sent, and
what the other side does with them. The contents of the files that are sent do not change meanwhile, and no connection
is made anew.
-/

namespace BeShare.Client.Delivery

open BeShare.Lib
open Uploads (Outgoing Answers OffsetAndPath UploadSession munge)
open Downloads (Name Place FileHeader OpenFile DownloadSession)

/-- The contents of the files that are sent, by their names -/
abbrev Contents := List UInt8 → List UInt8

/-- A string in a message is read as characters. -/
def chars (bytes : List UInt8) : Name :=
  bytes.map fun b => Char.ofNat b.toNat

/-- The last file that the receiver has opened, as it was then, with the header's name and offset. -/
structure Opened where
  fileName : List UInt8
  startByte : Int
  file : OpenFile

structure Transfer where
  sender : UploadSession
  /-- Where the sender's file is read. -/
  position : Nat
  /-- How many of the messages have come. -/
  delivered : Nat
  receiver : DownloadSession
  opened : Option Opened

inductive Step
  /-- A call of `DoUploadAux`, by the loop in `DoUpload` -/
  | upload (file : Answers)
  /-- The requested files are known. -/
  | request (files : List (List UInt8 × OffsetAndPath))
  | munge (mm : Int)
  /-- The window lets the sender begin, or has it wait. -/
  | waits (isWaitingOnLocal : Bool)
  /-- A message comes, with what the file system of the receiver says then. -/
  | deliver (fs : Downloads.FileSystem) (contents : Place → List UInt8) (result : Int)

/-- Where the sender's file is read after a round: where `Seek` says, or behind what was read. -/
def positionAfter (s : UploadSession) (position : Nat) (file : Answers) : Nat :=
  if s.isWaitingOnLocal then position
  else if s.currentFileBytesDone < 0 then if file.size.isSome then file.seek.toNat else 0
  else position + (file.read.getD []).length

def header (fileName : List UInt8) (fileSize : Int) (fromSession path : List UInt8) (startOffset : Option Int) :
    FileHeader :=
  ⟨some (chars fileName), some fileSize, some (chars fromSession), some (chars path), startOffset⟩

namespace Transfer

def deliver (t : Transfer) (fs : Downloads.FileSystem) (contents : Place → List UInt8) (result : Int) :
    Outgoing → Transfer
  | .header fileName fileSize fromSession path startOffset =>
    let msg := header fileName fileSize fromSession path startOffset
    { t with
      delivered := t.delivered + 1
      receiver := t.receiver.step (.header fs contents msg)
      opened := (t.receiver.openFile fs contents msg (chars fileName)).join.map (⟨fileName, startOffset.getD 0, ·⟩) }
  | .data data mm chk =>
    { t with
      delivered := t.delivered + 1
      receiver := t.receiver.step (.data ⟨some data, some chk, mm⟩ result) }

def step (t : Transfer) : Step → Transfer
  | .upload file =>
    { t with
      sender := (t.sender.doUploadAux fun _ => file).2
      position := positionAfter t.sender t.position file }
  | .request files => { t with sender := t.sender.request files }
  | .munge mm => { t with sender := { t.sender with mungeMode := mm } }
  | .waits isWaitingOnLocal => { t with sender := { t.sender with isWaitingOnLocal } }
  | .deliver fs contents result =>
    match t.sender.sent[t.delivered]? with
    | some message => t.deliver fs contents result message
    | none => t

end Transfer

/-! ### What is on its way -/

/-- What the messages say about the file whose data come last. -/
structure Stream where
  fileName : List UInt8
  fileSize : Int
  startByte : Int
  bytes : List UInt8

def Stream.next : Option Stream → Outgoing → Option Stream
  | _, .header fileName fileSize _ _ startOffset => some ⟨fileName, fileSize, startOffset.getD 0, []⟩
  | stream, .data data mm _ =>
    stream.map fun s => { s with bytes := s.bytes ++ (DownloadSession.unmunge mm data).getD data }

def stream (messages : List Outgoing) : Option Stream :=
  messages.foldl Stream.next none

theorem stream_append (messages : List Outgoing) (message : Outgoing) :
    stream (messages ++ [message]) = Stream.next (stream messages) message := by
  unfold stream
  rw [List.foldl_append]
  rfl

theorem next_data (st : Option Stream) (data : List UInt8) (mm : Option Int) (chk : UInt32) :
    Stream.next st (.data data mm chk) =
      st.map fun s => { s with bytes := s.bytes ++ (DownloadSession.unmunge mm data).getD data } := rfl

theorem xor_xor (data : List UInt8) : (data.map (· ^^^ 0xFF)).map (· ^^^ 0xFF) = data := by
  rw [List.map_map, List.map_congr_left (g := id) fun b _ => ?_, List.map_id]
  show (b ^^^ 0xFF) ^^^ 0xFF = b
  rw [UInt8.xor_assoc, UInt8.xor_self, UInt8.xor_zero]

/-- The receiver undoes what the sender does to the data. -/
theorem unmunge_munge (mungeMode : Int) (data : List UInt8) :
    DownloadSession.unmunge (if mungeMode = 1 then some mungeMode else none) (munge mungeMode data) = some data := by
  unfold munge
  split
  next hXor =>
    subst hXor
    exact congrArg some (xor_xor data)
  next => rfl

variable (content : Contents) (asked : List UInt8 → Int → Prop)

/-- What is sent of the file, or would be -/
def Stream.rest (s : Stream) : List UInt8 :=
  (content s.fileName).drop s.startByte.toNat

/-- The data are a part of the file from an offset on that was asked for, or all of it and what does not belong to
it. -/
structure Stream.Fits (s : Stream) : Prop where
  fileSize : s.fileSize = (content s.fileName).length
  startByte : 0 ≤ s.startByte
  asked : asked s.fileName s.startByte
  bytes : s.bytes <+: s.rest content ∨ s.rest content <+: s.bytes

/-- With as many bytes as the header says all of the file has come, and nothing else. -/
theorem Stream.Fits.all {s : Stream} (h : s.Fits content asked) (hAll : s.startByte + s.bytes.length = s.fileSize) :
    s.bytes = s.rest content := by
  have hLength : s.bytes.length = (s.rest content).length := by
    have hSize := h.fileSize
    have hStart := h.startByte
    unfold Stream.rest
    rw [List.length_drop]
    omega
  rcases h.bytes with hPart | hWhole
  · exact hPart.eq_of_length hLength
  · exact (hWhole.eq_of_length hLength.symm).symm

/-! ### The sender -/

variable {content : Contents} {asked : List UInt8 → Int → Prop}

/-- While a file is read, it is read behind what was sent of it. Otherwise all of the last one was sent. -/
inductive Sending (content : Contents) (s : UploadSession) (position : Nat) (st : Stream) : Prop
  | over : s.hasThread = false → Sending content s position st
  | whole : st.rest content <+: st.bytes → Sending content s position st
  | reads : 0 ≤ s.currentFileBytesDone → st.fileName = s.currentFileName → st.bytes <+: st.rest content →
      position = st.startByte.toNat + st.bytes.length → Sending content s position st

structure SenderInv (content : Contents) (asked : List UInt8 → Int → Prop) (s : UploadSession) (position : Nat) :
    Prop where
  fits : ∀ n, ∀ st ∈ stream (s.sent.take n), st.Fits content asked
  sending : ∀ st ∈ stream s.sent, Sending content s position st
  offsets : ∀ file ∈ s.fileSet ++ s.fileSetIter, asked file.1 file.2.offset

/-- The answers are those of files with the contents: the size, and what is read. -/
def Answered (content : Contents) (s : UploadSession) (position : Nat) (file : Answers) : Prop :=
  if s.currentFileBytesDone < 0 then
    ∀ next ∈ s.fileSetIter.head?, ∀ size, file.size = some size → size = (content next.1).length
  else
    ∀ data, file.read = some data → data <+: (content s.currentFileName).drop position ∧
      (data = [] → (content s.currentFileName).drop position = [])

theorem fits_append {sent : List Outgoing} {message : Outgoing}
    (h : ∀ n, ∀ st ∈ stream (sent.take n), st.Fits content asked)
    (hNew : ∀ st ∈ stream (sent ++ [message]), st.Fits content asked) :
    ∀ n, ∀ st ∈ stream ((sent ++ [message]).take n), st.Fits content asked := by
  intro n st hst
  by_cases hn : n ≤ sent.length
  · rw [List.take_append_of_le_length hn] at hst
    exact h n st hst
  · rw [List.take_of_length_le (by rw [List.length_append, List.length_singleton]; omega)] at hst
    exact hNew st hst

/-- What is read goes on where the stream ends. -/
theorem Stream.append_prefix {st : Stream} {data : List UInt8} {position : Nat} (hBytes : st.bytes <+: st.rest content)
    (hPosition : position = st.startByte.toNat + st.bytes.length)
    (hData : data <+: (content st.fileName).drop position) : st.bytes ++ data <+: st.rest content := by
  obtain ⟨tail, hTail⟩ := hBytes
  rw [hPosition, ← List.drop_drop] at hData
  have hDrop : ((content st.fileName).drop st.startByte.toNat).drop st.bytes.length = tail := by
    rw [← show st.bytes ++ tail = (content st.fileName).drop st.startByte.toNat from hTail, List.drop_left]
  rw [hDrop] at hData
  rw [← hTail]
  exact (List.prefix_append_right_inj _).mpr hData

theorem senderInv_sends {s : UploadSession} {position : Nat} {data : List UInt8}
    (h : SenderInv content asked s position)
    (hThread : s.hasThread = true) (hDone : 0 ≤ s.currentFileBytesDone)
    (hData : data <+: (content s.currentFileName).drop position) :
    SenderInv content asked (s.sendData data) (position + data.length) := by
  have hStream : stream (s.sendData data).sent =
      (stream s.sent).map fun st : Stream => { st with bytes := st.bytes ++ data } := by
    refine (stream_append ..).trans ?_
    rw [next_data, unmunge_munge]
    rfl
  have hSending : ∀ st ∈ stream (s.sendData data).sent,
      st.Fits content asked ∧ Sending content (s.sendData data) (position + data.length) st := by
    intro st hst
    rw [hStream] at hst
    obtain ⟨old, hOld, rfl⟩ := Option.map_eq_some_iff.mp hst
    have hFits := h.fits s.sent.length old (by rw [List.take_length]; exact hOld)
    rcases h.sending old hOld with hOver | hWhole | ⟨_, hName, hBytes, hPosition⟩
    · exact absurd (hThread.symm.trans hOver) Bool.noConfusion
    · have hMore : old.rest content <+: old.bytes ++ data := hWhole.trans (List.prefix_append ..)
      exact ⟨⟨hFits.fileSize, hFits.startByte, hFits.asked, .inr hMore⟩, .whole hMore⟩
    · rw [← hName] at hData
      have hMore := Stream.append_prefix hBytes hPosition hData
      refine ⟨⟨hFits.fileSize, hFits.startByte, hFits.asked, .inl hMore⟩, .reads ?_ hName hMore ?_⟩
      · show 0 ≤ s.currentFileBytesDone + _
        omega
      · rw [hPosition, List.length_append, Nat.add_assoc]
  exact ⟨fits_append h.fits fun st hst => (hSending st hst).1, fun st hst => (hSending st hst).2, h.offsets⟩

/-- Before the next file all of the last one is sent. -/
theorem SenderInv.whole {s : UploadSession} {position : Nat} (h : SenderInv content asked s position)
    (hThread : s.hasThread = true) (hDone : s.currentFileBytesDone < 0) :
    ∀ st ∈ stream s.sent, st.rest content <+: st.bytes := by
  intro st hst
  rcases h.sending st hst with hOver | hWhole | ⟨hReads, _, _, _⟩
  · exact absurd (hThread.symm.trans hOver) Bool.noConfusion
  · exact hWhole
  · omega

/-- A session that has sent nothing more keeps the invariant, if all that it sent last is whole. -/
theorem SenderInv.same {s s' : UploadSession} {position position' : Nat} (h : SenderInv content asked s position)
    (hSent : s'.sent = s.sent) (hOffsets : ∀ file ∈ s'.fileSet ++ s'.fileSetIter, asked file.1 file.2.offset)
    (hSending : ∀ st ∈ stream s.sent, Sending content s' position' st) : SenderInv content asked s' position' := by
  refine ⟨?_, ?_, hOffsets⟩
  · rw [hSent]
    exact h.fits
  · rw [hSent]
    exact hSending

theorem senderInv_opens {s : UploadSession} {position : Nat} {file : Answers} {name : List UInt8}
    {value : OffsetAndPath} {rest : List (List UInt8 × OffsetAndPath)} (h : SenderInv content asked s position)
    (hNonneg : ∀ name offset, asked name offset → 0 ≤ offset) (hThread : s.hasThread = true)
    (hDone : s.currentFileBytesDone < 0) (hIter : s.fileSetIter = (name, value) :: rest)
    (hSize : ∀ size, file.size = some size → size = (content name).length) :
    SenderInv content asked ({ s with
      fileSetIter := rest, currentFileName := name, currentFileBytesDone := value.offset,
      currentFile := true }.sendHeader value file) (if file.size.isSome then file.seek.toNat else 0) := by
  have hWhole := h.whole hThread hDone
  have hAsked : asked name value.offset :=
    h.offsets (name, value) (List.mem_append_right _ (hIter ▸ List.mem_cons_self ..))
  have hOffset := hNonneg name value.offset hAsked
  have hOffsets : ∀ file ∈ s.fileSet ++ rest, asked file.1 file.2.offset := by
    intro file hFile
    refine h.offsets file ?_
    rw [hIter]
    rcases List.mem_append.mp hFile with hIn | hIn
    · exact List.mem_append_left _ hIn
    · exact List.mem_append_right _ (List.mem_cons_of_mem _ hIn)
  unfold UploadSession.sendHeader
  split
  next => exact h.same rfl hOffsets fun st hst => .whole (hWhole st hst)
  next size hSome =>
    rw [hSome, Option.isSome_some, if_pos rfl]
    dsimp only
    split
    next hSeek =>
      have hStart : (if 0 < value.offset then some value.offset else none).getD 0 = value.offset := by
        split
        · rfl
        · exact (Int.le_antisymm (Int.not_lt.mp ‹_›) hOffset).symm
      have hNew : ∀ st ∈ stream (s.sent ++ [.header name size s.localSessionID value.path
          (if 0 < value.offset then some value.offset else none)]), st = ⟨name, size, value.offset, []⟩ := by
        intro st hst
        rw [stream_append] at hst
        have hst : some (⟨name, size, (if 0 < value.offset then some value.offset else none).getD 0, []⟩ : Stream) =
          some st := hst
        rw [hStart] at hst
        exact (Option.some.inj hst).symm
      refine ⟨fits_append h.fits fun st hst => ?_, fun st hst => ?_, hOffsets⟩
      · rw [hNew st hst]
        exact ⟨hSize size hSome, hOffset, hAsked, .inl List.nil_prefix⟩
      · rw [hNew st hst, hSeek]
        exact .reads hOffset rfl List.nil_prefix rfl
    next => exact h.same rfl hOffsets fun st hst => .whole (hWhole st hst)

/-- A round of `DoUpload` -/
theorem senderInv_upload {s : UploadSession} {position : Nat} {file : Answers} (h : SenderInv content asked s position)
    (hNonneg : ∀ name offset, asked name offset → 0 ≤ offset) (hAnswered : Answered content s position file) :
    SenderInv content asked (s.doUploadAux fun _ => file).2 (positionAfter s position file) := by
  have hDoes := UploadSession.doUploadAux_does (fun _ => file) s
  generalize s.doUploadAux (fun _ => file) = after at hDoes
  unfold Answered at hAnswered
  unfold positionAfter
  cases hDoes with
  | waits hWaits =>
    rw [if_pos hWaits]
    exact h
  | aborts _ _ => exact h.same rfl h.offsets fun st _ => .over rfl
  | ends hBegun hThread hDone hFile hRead =>
    rw [if_neg (Int.not_lt.mpr hDone)] at hAnswered
    refine h.same rfl h.offsets fun st hst => ?_
    rcases h.sending st hst with hOver | hWhole | ⟨_, hName, hBytes, hPosition⟩
    · exact .over hOver
    · exact .whole hWhole
    · have hEnd := (hAnswered [] hRead).2 rfl
      rw [← hName, hPosition, ← List.drop_drop] at hEnd
      have hAll : st.bytes = st.rest content := hBytes.eq_of_length_le (List.drop_eq_nil_iff.mp hEnd)
      exact .whole (hAll ▸ List.prefix_rfl)
  | sends b data hBegun hThread hDone hFile hRead =>
    rw [if_neg (Int.not_lt.mpr hDone)] at hAnswered
    rw [if_neg (Bool.eq_false_iff.mp hBegun), if_neg (Int.not_lt.mpr hDone), hRead]
    exact senderInv_sends h hThread hDone (hAnswered _ hRead).1
  | opens name value rest hBegun hThread hDone hIter hOpens =>
    rw [if_pos hDone, hIter] at hAnswered
    rw [if_neg (Bool.eq_false_iff.mp hBegun), if_pos hDone]
    exact senderInv_opens h hNonneg hThread hDone hIter (hAnswered (name, value) rfl)
  | stalls name value rest _ hThread hDone hIter _ =>
    refine h.same rfl (fun file hFile => h.offsets file ?_) fun st hst => .whole (h.whole hThread hDone st hst)
    rw [hIter]
    rcases List.mem_append.mp hFile with hIn | hIn
    · exact List.mem_append_left _ hIn
    · exact List.mem_append_right _ (List.mem_cons_of_mem _ hIn)
  | finishes _ hThread hDone _ => exact h.same rfl h.offsets fun st hst => .whole (h.whole hThread hDone st hst)

theorem sent_upload (s : UploadSession) (file : Nat → Answers) : s.sent <+: (s.doUploadAux file).2.sent := by
  have hDoes := UploadSession.doUploadAux_does file s
  generalize s.doUploadAux file = after at hDoes
  cases hDoes with
  | sends b data _ _ _ _ _ => exact List.prefix_append ..
  | opens name value rest _ _ _ _ _ =>
    unfold UploadSession.sendHeader
    split
    · exact List.prefix_rfl
    · dsimp only
      split
      · exact List.prefix_append ..
      · exact List.prefix_rfl
  | _ => exact List.prefix_rfl

theorem offsets_putFile {fileSet : List (List UInt8 × OffsetAndPath)} {file : List UInt8 × OffsetAndPath}
    (h : ∀ f ∈ fileSet, asked f.1 f.2.offset) (hFile : asked file.1 file.2.offset) :
    ∀ f ∈ Uploads.putFile fileSet file, asked f.1 f.2.offset := by
  intro f hf
  unfold Uploads.putFile at hf
  split at hf
  · obtain ⟨old, hOld, rfl⟩ := List.mem_map.mp hf
    split
    · exact hFile
    · exact h old hOld
  · rcases List.mem_append.mp hf with hOld | hNew
    · exact h f hOld
    · rw [List.mem_singleton.mp hNew]
      exact hFile

theorem senderInv_request {s : UploadSession} {position : Nat} (h : SenderInv content asked s position)
    {files : List (List UInt8 × OffsetAndPath)} (hFiles : ∀ f ∈ files, asked f.1 f.2.offset) :
    SenderInv content asked (s.request files) position := by
  have hOld : ∀ f ∈ s.fileSet, asked f.1 f.2.offset := fun f hf => h.offsets f (List.mem_append_left _ hf)
  have hAll : ∀ f ∈ files.foldl Uploads.putFile s.fileSet, asked f.1 f.2.offset := by
    generalize s.fileSet = fileSet at hOld
    clear h
    induction files generalizing fileSet with
    | nil => exact hOld
    | cons file files ih =>
      exact ih (fun f hf => hFiles f (List.mem_cons_of_mem _ hf)) _
        (offsets_putFile hOld (hFiles file (List.mem_cons_self ..)))
  refine h.same rfl (fun f hf => (List.mem_append.mp hf).elim (hAll f) (hAll f)) fun st hst => ?_
  rcases h.sending st hst with hOver | hWhole | ⟨hDone, hName, hBytes, hPosition⟩
  · exact .over hOver
  · exact .whole hWhole
  · exact .reads hDone hName hBytes hPosition

/-! ### The receiver -/

/-- The file that is open has got the data of the stream, or the connection is lost. -/
inductive ReceiverInv (r : DownloadSession) : Option Stream → Option Opened → Prop
  | lost (st : Option Stream) (o : Option Opened) : r.isConnected = false → ReceiverInv r st o
  | nothing (o : Option Opened) : r.hasThread = true → r.uploadSession = false → r.currentFile = none →
      ReceiverInv r none o
  | file (st : Stream) (o : Opened) : r.hasThread = true → r.uploadSession = false → o.fileName = st.fileName →
      o.startByte = st.startByte → o.file.Sound → r.currentFile = some (o.file.write st.bytes) →
      r.currentFileSize = st.fileSize → r.currentFileBytesDone = st.startByte + st.bytes.length →
      ReceiverInv r (some st) (some o)

section

variable {r : DownloadSession} {fs : Downloads.FileSystem} {contents : Place → List UInt8} {msg : FileHeader}
  {result : Int}

theorem abortSession_isConnected (r : DownloadSession) (error forceNoRestart : Bool) :
    (r.abortSession error forceNoRestart).isConnected = false := by
  unfold DownloadSession.abortSession DownloadSession.startAgain
  split
  · unfold DownloadSession.restartSession
    dsimp only
    split <;> rfl
  · rfl

theorem found_fields (r : DownloadSession) (msg : FileHeader) : (r.found msg).isConnected = r.isConnected ∧
    (r.found msg).hasThread = r.hasThread ∧ (r.found msg).uploadSession = r.uploadSession := by
  unfold DownloadSession.found
  split
  · exact ⟨rfl, rfl, rfl⟩
  · split <;> exact ⟨rfl, rfl, rfl⟩

/-- A lost connection stays lost. -/
theorem header_isConnected (h : r.isConnected = false) : (r.step (.header fs contents msg)).isConnected = false := by
  show (if r.hasThread then r.fileHeader fs contents msg else r).isConnected = false
  split
  · have hDoes := r.fileHeader_does fs contents msg
    generalize r.fileHeader fs contents msg = t at hDoes
    cases hDoes with
    | rejects _ => exact abortSession_isConnected ..
    | opens fileName file _ _ => exact (found_fields r msg).1.trans h
    | fails fileName currentFile _ _ => exact abortSession_isConnected ..
  · exact h

theorem data_isConnected (h : r.isConnected = false) (msg : Downloads.FileData) :
    (r.step (.data msg result)).isConnected = false := by
  show (if r.hasThread then r.fileData msg result else r).isConnected = false
  split
  · have hDoes := r.fileData_does msg result
    generalize r.fileData msg result = t at hDoes
    cases hDoes with
    | ignores _ _ => exact h
    | takes data file _ _ => exact h
    | fails currentFile _ _ _ => exact abortSession_isConnected ..
  · exact h

theorem openFile_sound {fileName : Name} {file : OpenFile}
    (h : r.openFile fs contents msg fileName = some (some file)) :
    file.Sound := by
  unfold DownloadSession.openFile at h
  obtain ⟨entry, -, hFile⟩ := Option.map_eq_some_iff.mp h
  split at hFile
  · cases hFile
    unfold OpenFile.Sound
    dsimp only
    split
    · exact Nat.le_refl _
    · exact Nat.zero_le _
  · cases hFile

theorem accepted_header {fileName fromSession path : List UInt8} {fileSize : Int} {startOffset : Option Int}
    {name : Name}
    (h : Downloads.accepted r.toShareFileTransfer (header fileName fileSize fromSession path startOffset) = some name) :
    name = chars fileName ∧
      (r.found (header fileName fileSize fromSession path startOffset)).currentFileSize = fileSize := by
  unfold Downloads.accepted at h
  unfold DownloadSession.found
  split at h
  · cases h
  · rename_i hDownload
    rw [if_neg hDownload]
    dsimp only [header] at h ⊢
    split at h
    · exact ⟨(Option.some.inj h).symm, rfl⟩
    · cases h

theorem receiver_header {st : Option Stream} {o : Option Opened} (h : ReceiverInv r st o)
    (fileName fromSession path : List UInt8) (fileSize : Int) (startOffset : Option Int) (fs : Downloads.FileSystem)
    (contents : Place → List UInt8) :
    ReceiverInv (r.step (.header fs contents (header fileName fileSize fromSession path startOffset)))
      (some ⟨fileName, fileSize, startOffset.getD 0, []⟩)
      ((r.openFile fs contents (header fileName fileSize fromSession path startOffset) (chars fileName)).join.map
        (⟨fileName, startOffset.getD 0, ·⟩)) := by
  have hHere : r.hasThread = true → r.uploadSession = false →
      ReceiverInv (r.step (.header fs contents (header fileName fileSize fromSession path startOffset)))
        (some ⟨fileName, fileSize, startOffset.getD 0, []⟩)
        ((r.openFile fs contents (header fileName fileSize fromSession path startOffset) (chars fileName)).join.map
          (⟨fileName, startOffset.getD 0, ·⟩)) := by
    intro hThread hDownload
    have hDoes := r.fileHeader_does fs contents (header fileName fileSize fromSession path startOffset)
    have hFields := found_fields r (header fileName fileSize fromSession path startOffset)
    show ReceiverInv (if r.hasThread then r.fileHeader fs contents _ else r) _ _
    rw [if_pos hThread]
    generalize r.fileHeader fs contents (header fileName fileSize fromSession path startOffset) = t at hDoes
    cases hDoes with
    | rejects _ => exact .lost _ _ (abortSession_isConnected ..)
    | opens name file hAccepted hOpen =>
      obtain ⟨rfl, hSize⟩ := accepted_header hAccepted
      rw [hOpen]
      refine .file _ ⟨fileName, startOffset.getD 0, file⟩ (hFields.2.1.trans hThread) (hFields.2.2.trans hDownload) rfl
        rfl (openFile_sound hOpen) ?_ hSize (Int.add_zero _).symm
      rw [OpenFile.write_nil]
    | fails name currentFile _ _ => exact .lost _ _ (abortSession_isConnected ..)
  cases h with
  | lost _ _ hLost => exact .lost _ _ (header_isConnected hLost)
  | nothing _ hThread hDownload _ => exact hHere hThread hDownload
  | file _ _ hThread hDownload _ _ _ _ _ _ => exact hHere hThread hDownload

theorem writes_unmunge {raw data : List UInt8} {chk : UInt32} {mm : Option Int}
    (h : r.writes ⟨some raw, some chk, mm⟩ result = some data) : DownloadSession.unmunge mm raw = some data := by
  unfold DownloadSession.writes at h
  split at h
  · cases h
  · dsimp only at h
    split at h
    next raw' file hRaw _ =>
      cases hRaw
      obtain ⟨hPlain, -⟩ := Option.filter_eq_some_iff.mp h
      unfold DownloadSession.plainData at hPlain
      dsimp only at hPlain
      split at hPlain
      · exact hPlain
      · cases hPlain
    next => cases h

theorem receiver_data {st : Option Stream} {o : Option Opened} (h : ReceiverInv r st o) (data : List UInt8)
    (mm : Option Int) (chk : UInt32) (result : Int) :
    ReceiverInv (r.step (.data ⟨some data, some chk, mm⟩ result)) (Stream.next st (.data data mm chk)) o := by
  have hStep : r.hasThread = true →
      r.step (.data ⟨some data, some chk, mm⟩ result) = r.fileData ⟨some data, some chk, mm⟩ result := fun hThread =>
    if_pos hThread
  have hDoes := r.fileData_does ⟨some data, some chk, mm⟩ result
  cases h with
  | lost _ _ hLost => exact .lost _ _ (data_isConnected hLost _)
  | nothing _ hThread hDownload hNone =>
    rw [hStep hThread]
    generalize r.fileData ⟨some data, some chk, mm⟩ result = t at hDoes
    cases hDoes with
    | ignores _ hIgnores => exact absurd hIgnores (by simp [hDownload])
    | takes plain file _ hFile => exact absurd (hNone.symm.trans hFile) (Option.some_ne_none _).symm
    | fails currentFile _ _ _ => exact .lost _ _ (abortSession_isConnected ..)
  | file st o hThread hDownload hName hStart hSound hFile hSize hDone =>
    rw [hStep hThread]
    generalize r.fileData ⟨some data, some chk, mm⟩ result = t at hDoes
    cases hDoes with
    | ignores _ hIgnores => exact absurd hIgnores (by simp [hDownload])
    | takes plain file hWrites hOpen =>
      have hPlain := writes_unmunge hWrites
      have hSame : o.file.write st.bytes = file := Option.some.inj (hFile.symm.trans hOpen)
      rw [next_data, Option.map_some, hPlain, Option.getD_some]
      refine .file _ o hThread hDownload hName hStart hSound ?_ hSize ?_
      · rw [← hSame, OpenFile.write_write hSound]
      · show r.currentFileBytesDone + _ = st.startByte + _
        rw [hDone, List.length_append, Int.natCast_add, Int.add_assoc]
    | fails currentFile _ _ _ => exact .lost _ _ (abortSession_isConnected ..)

end

/-! ### Both -/

structure Inv (content : Contents) (asked : List UInt8 → Int → Prop) (t : Transfer) : Prop where
  sender : SenderInv content asked t.sender t.position
  delivered : t.delivered ≤ t.sender.sent.length
  receiver : ReceiverInv t.receiver (stream (t.sender.sent.take t.delivered)) t.opened

/-- The sender's files have the contents, and the offsets are ones that may be asked for. -/
def StepOk (content : Contents) (asked : List UInt8 → Int → Prop) (t : Transfer) : Step → Prop
  | .upload file => Answered content t.sender t.position file
  | .request files => ∀ file ∈ files, asked file.1 file.2.offset
  | _ => True

theorem Inv.step {t : Transfer} {action : Step} (h : Inv content asked t)
    (hNonneg : ∀ name offset, asked name offset → 0 ≤ offset) (hOk : StepOk content asked t action) :
    Inv content asked (t.step action) := by
  cases action with
  | upload file =>
    have hSent := sent_upload t.sender fun _ => file
    refine ⟨senderInv_upload h.sender hNonneg hOk, Nat.le_trans h.delivered hSent.length_le, ?_⟩
    have hSame : (t.step (.upload file)).sender.sent.take t.delivered = t.sender.sent.take t.delivered := by
      obtain ⟨more, hMore⟩ := hSent
      show (t.sender.doUploadAux fun _ => file).2.sent.take t.delivered = _
      rw [← hMore, List.take_append_of_le_length h.delivered]
    show ReceiverInv t.receiver (stream ((t.step (.upload file)).sender.sent.take t.delivered)) t.opened
    rw [hSame]
    exact h.receiver
  | request files => exact ⟨senderInv_request h.sender hOk, h.delivered, h.receiver⟩
  | munge mm =>
    refine ⟨h.sender.same rfl h.sender.offsets fun st hst => ?_, h.delivered, h.receiver⟩
    rcases h.sender.sending st hst with hOver | hWhole | ⟨hDone, hName, hBytes, hPosition⟩
    · exact .over hOver
    · exact .whole hWhole
    · exact .reads hDone hName hBytes hPosition
  | waits isWaitingOnLocal =>
    refine ⟨h.sender.same rfl h.sender.offsets fun st hst => ?_, h.delivered, h.receiver⟩
    rcases h.sender.sending st hst with hOver | hWhole | ⟨hDone, hName, hBytes, hPosition⟩
    · exact .over hOver
    · exact .whole hWhole
    · exact .reads hDone hName hBytes hPosition
  | deliver fs contents result =>
    show Inv content asked (match t.sender.sent[t.delivered]? with
      | some message => t.deliver fs contents result message
      | none => t)
    cases hMessage : t.sender.sent[t.delivered]? with
    | none => exact h
    | some message =>
      obtain ⟨hLess, hHere⟩ := List.getElem?_eq_some_iff.mp hMessage
      have hTake : stream (t.sender.sent.take (t.delivered + 1)) =
          Stream.next (stream (t.sender.sent.take t.delivered)) message := by
        rw [← List.take_concat_get' _ _ hLess, hHere, stream_append]
      cases message with
      | header fileName fileSize fromSession path startOffset =>
        refine ⟨h.sender, hLess, ?_⟩
        show ReceiverInv _ (stream (t.sender.sent.take (t.delivered + 1))) _
        rw [hTake]
        exact receiver_header h.receiver fileName fromSession path fileSize startOffset fs contents
      | data data mm chk =>
        refine ⟨h.sender, hLess, ?_⟩
        show ReceiverInv _ (stream (t.sender.sent.take (t.delivered + 1))) _
        rw [hTake]
        exact receiver_data h.receiver data mm chk result

/-- Nothing is sent yet, and the receiver has no file open. -/
def start (localSessionID : List UInt8) (r : DownloadSession) : Transfer where
  sender := UploadSession.start localSessionID true
  position := 0
  delivered := 0
  receiver := r.listening
  opened := none

theorem inv_start (content : Contents) (localSessionID : List UInt8) (r : DownloadSession) :
    Inv content asked (start localSessionID r) := by
  have hNone (n : Nat) : stream ((start localSessionID r).sender.sent.take n) = none := by
    show stream (([] : List Outgoing).take n) = none
    rw [List.take_nil]
    rfl
  refine ⟨⟨fun n st hst => ?_, fun st hst => ?_, fun file hFile => absurd hFile List.not_mem_nil⟩, Nat.le_refl _, ?_⟩
  · rw [hNone] at hst
    cases hst
  · cases hst
  · rw [hNone]
    exact .nothing _ rfl rfl rfl

/-- What is written behind the first bytes of a file makes up the file if and only if these are its own. -/
theorem append_drop_eq_iff (first all : List UInt8) (n : Nat) : first ++ all.drop n = all ↔ first = all.take n := by
  constructor
  · intro h
    exact List.append_cancel_right (h.trans (List.take_append_drop n all).symm)
  · rintro rfl
    exact List.take_append_drop n all

/-- What has come when all bytes of a file have, and the offset was asked for. -/
theorem delivered {content : Contents} {asked : List UInt8 → Int → Prop}
    (hNonneg : ∀ name offset, asked name offset → 0 ≤ offset) (localSessionID : List UInt8) (r : DownloadSession)
    {steps : List Step} (hOk : AllSteps (StepOk content asked) Transfer.step steps (start localSessionID r))
    {file : OpenFile} (hConnected : (steps.foldl Transfer.step (start localSessionID r)).receiver.isConnected = true)
    (hFile : (steps.foldl Transfer.step (start localSessionID r)).receiver.currentFile = some file)
    (hDone : (steps.foldl Transfer.step (start localSessionID r)).receiver.currentFileBytesDone =
      (steps.foldl Transfer.step (start localSessionID r)).receiver.currentFileSize) :
    ∃ o, (steps.foldl Transfer.step (start localSessionID r)).opened = some o ∧ asked o.fileName o.startByte ∧
      file = o.file.write ((content o.fileName).drop o.startByte.toNat) := by
  have hInv : Inv content asked (steps.foldl Transfer.step (start localSessionID r)) :=
    foldl_keeps (fun _ _ h hStep => Inv.step h hNonneg hStep) hOk (inv_start content localSessionID r)
  generalize steps.foldl Transfer.step (start localSessionID r) = t at hInv hConnected hFile hDone
  have hFits := hInv.sender.fits t.delivered
  have hReceiver := hInv.receiver
  generalize hStream : stream (t.sender.sent.take t.delivered) = st at hFits hReceiver
  generalize hOpened : t.opened = opened at hReceiver
  cases hReceiver with
  | lost _ _ hLost => exact absurd (hConnected.symm.trans hLost) Bool.noConfusion
  | nothing _ _ _ hNone => exact absurd (hNone.symm.trans hFile) (Option.some_ne_none _).symm
  | file st o hThread hDownload hName hStart hSound hOpen hSize hBytes =>
    have hAll : st.bytes = (content st.fileName).drop st.startByte.toNat :=
      (hFits st rfl).all content asked (hBytes.symm.trans (hDone.trans hSize))
    refine ⟨o, rfl, ?_, ?_⟩
    · rw [hName, hStart]
      exact (hFits st rfl).asked
    · rw [hName, hStart, ← hAll]
      exact Option.some.inj (hFile.symm.trans hOpen)

/-- Bytes that are written behind the end of a file. -/
theorem write_contents {file : OpenFile} (hEnd : file.position = file.contents.length) (data : List UInt8) :
    (file.write data).contents = file.contents ++ data := by
  unfold OpenFile.write
  dsimp only
  rw [hEnd, List.take_length, List.drop_of_length_le (Nat.le_add_right ..), List.append_nil]

/-- While the connection lasts, a file that has as many bytes as the header said is the one that was opened for the
header, with all of the sender's file written into it that comes after the offset. Where these were written behind the
bytes that were there, it is the sender's file if and only if those were the bytes before the offset. -/
theorem delivers (content : Contents) (localSessionID : List UInt8) (r : DownloadSession) (steps : List Step)
    (hOk : AllSteps (StepOk content fun _ offset => 0 ≤ offset) Transfer.step steps (start localSessionID r))
    (file : OpenFile)
    (hConnected : (steps.foldl Transfer.step (start localSessionID r)).receiver.isConnected = true)
    (hFile : (steps.foldl Transfer.step (start localSessionID r)).receiver.currentFile = some file)
    (hDone : (steps.foldl Transfer.step (start localSessionID r)).receiver.currentFileBytesDone =
      (steps.foldl Transfer.step (start localSessionID r)).receiver.currentFileSize) :
    ∃ o, (steps.foldl Transfer.step (start localSessionID r)).opened = some o ∧
      file = o.file.write ((content o.fileName).drop o.startByte.toNat) ∧
      (o.file.position = o.file.contents.length →
        (file.contents = content o.fileName ↔ o.file.contents = (content o.fileName).take o.startByte.toNat)) := by
  obtain ⟨o, hOpened, -, hWritten⟩ := delivered (fun _ _ => id) localSessionID r hOk hConnected hFile hDone
  refine ⟨o, hOpened, hWritten, fun hEnd => ?_⟩
  rw [hWritten, write_contents hEnd]
  exact append_drop_eq_iff ..

/-- "f" is to be downloaded to "d". -/
def downloader : DownloadSession where
  uploadSession := false
  fileSet := [['f']]
  dir := [['d']]
  dirNames := by decide
  retainFilePaths := false
  origFileSet := [['f']]
  origFileSetSize := 1
  currentFileName := []
  currentFile := none
  currentFileSize := -1
  currentFileBytesDone := -1
  currentFileIndex := 0
  remoteHostName := ['h']
  remoteSessionID := ['2']
  autoRestart := false
  isConnecting := false
  isAccepting := false
  isAcceptSession := false
  isConnected := true
  isWaitingOnLocal := false
  isWaitingOnRemote := false
  errorOccurred := false
  isFinished := false
  hasThread := true

/-- All files have one byte, and can be opened. -/
def oneByte : Downloads.FileSystem :=
  ⟨fun _ => false, fun _ => false, fun _ => true, fun _ => some 1, fun _ => true, fun _ => 0⟩

/-- The first byte of "f" is there, and the other two come munged. -/
def resumed : List Step :=
  [.munge 1, .request [([102], ⟨1, []⟩)], .waits false, .upload ⟨true, some 3, 1, none⟩,
    .upload ⟨true, none, 0, some [8, 9]⟩,
    .deliver oneByte (fun _ => [7]) 0, .deliver oneByte (fun _ => []) 2]

def wholeFile : OpenFile :=
  ⟨[['d'], ['f']], [7, 8, 9], 3⟩

theorem delivers_resumed : ∃ o, (resumed.foldl Transfer.step (start [49] downloader)).opened = some o ∧
    wholeFile = o.file.write ([7, 8, 9].drop o.startByte.toNat) ∧
    (o.file.position = o.file.contents.length →
      (wholeFile.contents = [7, 8, 9] ↔ o.file.contents = [7, 8, 9].take o.startByte.toNat)) := by
  refine delivers (fun _ => [7, 8, 9]) [49] downloader resumed ?_ wholeFile rfl rfl rfl
  refine ⟨trivial, ?_, trivial, ?_, ?_, trivial, trivial, trivial⟩
  · intro file hFile
    rw [List.mem_singleton.mp hFile]
    exact Int.zero_le_ofNat 1
  · intro next _ size hSize
    exact (Option.some.inj hSize).symm
  · intro data hData
    obtain rfl := Option.some.inj hData
    exact ⟨List.prefix_rfl, fun hNil => absurd hNil (List.cons_ne_nil _ _)⟩

end BeShare.Client.Delivery
