import BeShare.Client.Receiving
import BeShare.Lib.Runs

/-!
What a download session requests when it starts again. The set of names that are left is changed by each header and by
the data that end a file, under the names that the files got on the disk.
-/

namespace BeShare.Client.Downloads

open BeShare.Lib

namespace DownloadSession

variable (s : DownloadSession)

/-- How many bytes from its beginning on the file has that is opened for the header. -/
def bytesThere (fs : FileSystem) (msg : FileHeader) (fileName : Name) : Int :=
  let dlDir := (parts s.toShareFileTransfer msg).foldl (enter fs) s.dir
  if appends fs msg (resolve dlDir fileName) then msg.startOffset.getD 0 else 0

/-- The name in a header that is accepted. -/
def accepts (msg : FileHeader) : Option Name :=
  if s.hasThread then accepted s.toShareFileTransfer msg else none

/-- The name in a header that a file is opened for. -/
def opens (fs : FileSystem) (contents : Place → List UInt8) (msg : FileHeader) : Option Name :=
  (s.accepts msg).filter fun fileName => (s.openFile fs contents msg fileName).join.isSome

/-- The data that are written. -/
def takes (msg : FileData) (result : Int) : Option (List UInt8) :=
  if s.hasThread then s.writes msg result else none

end DownloadSession

/-- What has come of the files. -/
structure Receipts where
  /-- The name that the file that data come for was requested under. -/
  requested : Option Name
  fileSize : Int
  /-- How many bytes of it there are, from its beginning on. -/
  bytes : Int
  /-- The names of the files that have come to their ends. -/
  complete : List Name

namespace Receipts

variable (r : Receipts)

/-- The file is complete with so many bytes more. -/
def Completes (more : Int) (name : Name) : Prop :=
  r.requested = some name ∧ r.fileSize ≤ r.bytes + more

instance (more : Int) (name : Name) : Decidable (r.Completes more name) :=
  inferInstanceAs (Decidable (_ ∧ _))

/-- So many bytes more have come. -/
def add (more : Int) : Receipts :=
  { r with
    bytes := r.bytes + more
    complete := (r.requested.toList.filter fun name => decide (r.Completes more name)) ++ r.complete }

/-- A file has been opened. -/
def opened (s : DownloadSession) (fs : FileSystem) (msg : FileHeader) (fileName : Name) : Receipts :=
  { r with requested := some fileName, fileSize := msg.fileSize.getD 0, bytes := s.bytesThere fs msg fileName }

/-- No data are expected. -/
def none : Receipts :=
  { r with requested := .none }

def step (s : DownloadSession) : DownloadSession.Event → Receipts
  | .connected => r
  | .header fs contents msg =>
    match s.opens fs contents msg with
    | some fileName => (r.opened s fs msg fileName).add 0
    | .none => if s.hasThread then r.none else r
  | .data msg result =>
    match s.takes msg result with
    | some data => r.add data.length
    | .none => if s.hasThread && !s.uploadSession && msg.data.isSome then r.none else r
  | .disconnected => if s.hasThread then r.none else r
  | .abort _ _ => r.none
  | .restart => r.none

theorem mem_add {more : Int} {name : Name} :
    name ∈ (r.add more).complete ↔ name ∈ r.complete ∨ r.Completes more name := by
  unfold add
  rw [List.mem_append, List.mem_filter, decide_eq_true_iff, Option.mem_toList, or_comm]
  exact or_congr_right (and_iff_right_of_imp And.left)

end Receipts

/-- A session, and what has come of the files that it requested. -/
abbrev Received := DownloadSession × Receipts

namespace Received

def step (x : Received) (e : DownloadSession.Event) : Received :=
  (x.1.step e, x.2.step x.1 e)

/-- What is requested when the session starts again is what has not come to its end. -/
def Exact (requested : List Name) (x : Received) : Prop :=
  ∀ name, name ∈ x.1.restartSession.fileSet ↔ name ∈ requested ∧ name ∉ x.2.complete

/-- The name is taken out of the set: that of the file before, on the disk, or that of the file that is at its end. -/
def Drops (x : Received) (name : Name) : DownloadSession.Event → Prop
  | .header _ _ msg => (x.1.accepts msg).isSome = true ∧ name = x.1.currentFileName
  | .data msg result =>
    ∃ data, x.1.takes msg result = some data ∧ x.1.currentFileSize ≤ x.1.currentFileBytesDone + data.length ∧
      name = x.1.currentFileName
  | _ => False

/-- The file that was requested under the name comes to its end. -/
def Finishes (x : Received) (name : Name) : DownloadSession.Event → Prop
  | .header fs contents msg =>
    ∃ fileName, x.1.opens fs contents msg = some fileName ∧ (x.2.opened x.1 fs msg fileName).Completes 0 name
  | .data msg result => ∃ data, x.1.takes msg result = some data ∧ x.2.Completes data.length name
  | _ => False

/-- Of the names that are left, that of the file that comes to its end is taken out, and no other. -/
def StepOk (x : Received) (e : DownloadSession.Event) : Prop :=
  ∀ name ∈ x.1.origFileSet, x.Drops name e ↔ x.Finishes name e

variable {x : Received} {name : Name}

/-! ### What stays in the set -/

theorem restartSession_fileSet (s : DownloadSession) : s.restartSession.fileSet = s.origFileSet := by
  unfold DownloadSession.restartSession
  dsimp only
  split <;> rfl

theorem restartSession_origFileSet (s : DownloadSession) : s.restartSession.origFileSet = s.origFileSet := by
  unfold DownloadSession.restartSession
  dsimp only
  split <;> rfl

theorem startAgain_origFileSet (s : DownloadSession) : s.startAgain.origFileSet = s.origFileSet := by
  unfold DownloadSession.startAgain
  split
  · exact restartSession_origFileSet _
  · rfl

theorem abortSession_origFileSet (s : DownloadSession) (error forceNoRestart : Bool) :
    (s.abortSession error forceNoRestart).origFileSet = s.origFileSet :=
  startAgain_origFileSet _

theorem found_origFileSet (s : DownloadSession) (msg : FileHeader) : (s.found msg).origFileSet = s.origFileSet := by
  unfold DownloadSession.found
  split
  · rfl
  · split <;> rfl

theorem fileHeader_origFileSet (s : DownloadSession) (fs : FileSystem) (contents : Place → List UInt8)
    (msg : FileHeader) : (s.fileHeader fs contents msg).origFileSet =
      if (accepted s.toShareFileTransfer msg).isSome then without s.origFileSet s.currentFileName
      else s.origFileSet := by
  have hDoes := s.fileHeader_does fs contents msg
  generalize s.fileHeader fs contents msg = t at hDoes
  cases hDoes with
  | rejects hRejected =>
    rw [abortSession_origFileSet, found_origFileSet, hRejected]
    rfl
  | opens fileName file hAccepted hOpen =>
    rw [hAccepted]
    rfl
  | fails fileName currentFile hAccepted hShut =>
    rw [abortSession_origFileSet, hAccepted]
    rfl

/-- Data that are not written change nothing, or end the session. -/
theorem fileData_origFileSet (s : DownloadSession) (msg : FileData) (result : Int) :
    (s.fileData msg result).origFileSet =
      match s.writes msg result with
      | some data => if s.currentFileSize ≤ s.currentFileBytesDone + data.length then
          without s.origFileSet s.currentFileName else s.origFileSet
      | none => s.origFileSet := by
  have hDoes := s.fileData_does msg result
  generalize s.fileData msg result = t at hDoes
  cases hDoes with
  | ignores hNone _ => rw [hNone]
  | takes data file hData _ => rw [hData]
  | fails currentFile hNone _ _ => rw [abortSession_origFileSet, hNone]

theorem mem_step_origFileSet (x : Received) (e : DownloadSession.Event) :
    name ∈ (x.step e).1.origFileSet ↔ name ∈ x.1.origFileSet ∧ ¬x.Drops name e := by
  cases e with
  | connected =>
    refine Iff.trans ?_ (and_iff_left not_false).symm
    show name ∈ (if x.1.hasThread then _ else x.1).origFileSet ↔ _
    split <;> rfl
  | header fs contents msg =>
    show name ∈ (if x.1.hasThread then x.1.fileHeader fs contents msg else x.1).origFileSet ↔
      name ∈ x.1.origFileSet ∧ ¬((x.1.accepts msg).isSome = true ∧ name = x.1.currentFileName)
    unfold DownloadSession.accepts
    cases x.1.hasThread with
    | false => exact (and_iff_left (fun h => Bool.false_ne_true h.1)).symm
    | true =>
      rw [if_pos rfl, if_pos rfl, fileHeader_origFileSet]
      split
      next hAccepted => rw [mem_without, and_iff_right hAccepted]
      next hRejected => exact (and_iff_left (fun h => hRejected h.1)).symm
  | data msg result =>
    show name ∈ (if x.1.hasThread then x.1.fileData msg result else x.1).origFileSet ↔
      name ∈ x.1.origFileSet ∧ ¬∃ data, x.1.takes msg result = some data ∧
        x.1.currentFileSize ≤ x.1.currentFileBytesDone + data.length ∧ name = x.1.currentFileName
    by_cases hThread : x.1.hasThread = true
    · rw [if_pos hThread, fileData_origFileSet]
      unfold DownloadSession.takes
      rw [if_pos hThread]
      cases x.1.writes msg result with
      | none => exact (and_iff_left (by rintro ⟨_, hNone, _⟩; cases hNone)).symm
      | some data =>
        dsimp only
        split
        next hEnd =>
          refine mem_without.trans (and_congr_right fun _ => not_congr ?_)
          exact ⟨fun hName => ⟨data, rfl, hEnd, hName⟩, fun ⟨_, _, _, hName⟩ => hName⟩
        next hMore =>
          refine (and_iff_left ?_).symm
          rintro ⟨_, hData, hEnd, _⟩
          cases hData
          exact hMore hEnd
    · rw [if_neg hThread]
      refine (and_iff_left ?_).symm
      rintro ⟨data, hData, _, _⟩
      unfold DownloadSession.takes at hData
      rw [if_neg hThread] at hData
      cases hData
  | disconnected =>
    refine Iff.trans ?_ (and_iff_left not_false).symm
    show name ∈ (if x.1.hasThread then x.1.disconnected else x.1).origFileSet ↔ _
    split
    · unfold DownloadSession.disconnected
      rw [startAgain_origFileSet]
    · rfl
  | abort error forceNoRestart =>
    show name ∈ (x.1.abortSession error forceNoRestart).origFileSet ↔ _
    rw [abortSession_origFileSet]
    exact (and_iff_left not_false).symm
  | restart =>
    show name ∈ x.1.restartSession.origFileSet ↔ _
    rw [restartSession_origFileSet]
    exact (and_iff_left not_false).symm

/-! ### What comes to its end -/

theorem mem_none_or_same {r : Receipts} {b : Bool} {P : Prop} (hNot : ¬P) :
    name ∈ (if b then r.none else r).complete ↔ name ∈ r.complete ∨ P := by
  rw [or_iff_left hNot]
  cases b <;> rfl

theorem mem_step_complete (x : Received) (e : DownloadSession.Event) :
    name ∈ (x.step e).2.complete ↔ name ∈ x.2.complete ∨ x.Finishes name e := by
  show name ∈ (x.2.step x.1 e).complete ↔ _
  unfold Receipts.step Finishes
  cases e with
  | connected => exact (or_iff_left not_false).symm
  | header fs contents msg =>
    dsimp only
    cases x.1.opens fs contents msg with
    | none => exact mem_none_or_same (by rintro ⟨_, hNone, _⟩; cases hNone)
    | some fileName =>
      dsimp only
      rw [Receipts.mem_add]
      refine or_congr_right ⟨fun hCompletes => ⟨fileName, rfl, hCompletes⟩, ?_⟩
      rintro ⟨_, hName, hCompletes⟩
      cases hName
      exact hCompletes
  | data msg result =>
    dsimp only
    cases x.1.takes msg result with
    | none => exact mem_none_or_same (by rintro ⟨_, hNone, _⟩; cases hNone)
    | some data =>
      dsimp only
      rw [Receipts.mem_add]
      refine or_congr_right ⟨fun hCompletes => ⟨data, rfl, hCompletes⟩, ?_⟩
      rintro ⟨_, hData, hCompletes⟩
      cases hData
      exact hCompletes
  | disconnected => exact mem_none_or_same not_false
  | abort _ _ => exact (or_iff_left not_false).symm
  | restart => exact (or_iff_left not_false).symm

/-! ### Runs -/

theorem exact_iff (requested : List Name) (x : Received) :
    x.Exact requested ↔ ∀ name, name ∈ x.1.origFileSet ↔ name ∈ requested ∧ name ∉ x.2.complete := by
  unfold Exact
  rw [restartSession_fileSet]

/-- A step keeps what is requested exact if and only if it takes out the file that comes to its end. -/
theorem exact_step_iff {requested : List Name} (h : x.Exact requested) (e : DownloadSession.Event) :
    (x.step e).Exact requested ↔ x.StepOk e := by
  rw [exact_iff] at h ⊢
  constructor
  · intro hNext name hIn
    have hHere := hNext name
    rw [mem_step_origFileSet, mem_step_complete, not_or, ← and_assoc, ← h name] at hHere
    have hDrops := and_congr_right_iff.mp hHere hIn
    exact not_iff_not.mp hDrops
  · intro hOk name
    rw [mem_step_origFileSet, mem_step_complete, not_or, ← and_assoc, ← h name]
    exact and_congr_right fun hIn => not_congr (hOk name hIn)

/-- A session of whose files nothing has come yet -/
def start (s : DownloadSession) : Received :=
  (s, ⟨none, 0, 0, []⟩)

end Received

end BeShare.Client.Downloads
