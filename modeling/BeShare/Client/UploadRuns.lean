import BeShare.Client.Uploads

/-!
The runs of an upload session. What goes on in the window between the calls of its handler is a list of `WindowAction`s.
-/

namespace BeShare.Client.Uploads

open Lib

/-- What the window does with the session. -/
inductive WindowAction
  | beginTransfer (file : Nat → Answers)
  | requeueTransfer
  | setBeginTransferEnabled (e : Bool)

inductive Event
  | window (action : WindowAction)
  /-- `MTT_EVENT_SESSION_ACCEPTED` or `MTT_EVENT_SESSION_CONNECTED` -/
  | connected
  /-- The munge mode of a file list. -/
  | munge (mm : Int)
  /-- `TRANSFER_COMMAND_MD5_RECV_READ_DONE`: the requested files are known. The window acts before the upload. -/
  | fileList (files : List (List UInt8 × OffsetAndPath)) (actions : List WindowAction) (file : Nat → Answers)
  /-- `MTT_EVENT_OUTPUT_QUEUES_DRAINED` -/
  | drained (file : Nat → Answers)
  | disconnected
  | abort

/-- `Hashtable::Put`: a key that is there keeps its place. -/
def putFile (fileSet : List (List UInt8 × OffsetAndPath)) (file : List UInt8 × OffsetAndPath) :
    List (List UInt8 × OffsetAndPath) :=
  if fileSet.any (·.1 == file.1) then fileSet.map fun old => if old.1 = file.1 then file else old
  else fileSet ++ [file]

namespace UploadSession

variable (s : UploadSession)

/-- A session that waits for the remote peer. -/
def start (localSessionID : List UInt8) (isConnected : Bool) : UploadSession where
  localSessionID := localSessionID
  isConnected := isConnected
  isWaitingOnLocal := true
  isFinished := false
  beginTransferEnabled := true
  hasThread := true
  fileSet := []
  fileSetIter := []
  currentFileName := []
  currentFile := false
  currentFileSize := -1
  currentFileBytesDone := -1
  uploadWaitingForSendToFinish := false
  mungeMode := 0
  sent := []
  drains := 0

/-- `BeginTransfer`. A session without a connection starts to connect. -/
def beginTransfer (file : Nat → Answers) : UploadSession :=
  if s.beginTransferEnabled && s.isWaitingOnLocal then
    let s := { s with isWaitingOnLocal := false }
    if s.isConnected && !s.fileSet.isEmpty then s.doUpload file else s
  else s

def act : UploadSession → WindowAction → UploadSession
  | s, .beginTransfer file => s.beginTransfer file
  | s, .requeueTransfer => { s with isWaitingOnLocal := true }
  | s, .setBeginTransferEnabled e => { s with beginTransferEnabled := e }

/-- The session with its requested files, to be sent from the first one on. -/
def request (files : List (List UInt8 × OffsetAndPath)) : UploadSession :=
  let fileSet := files.foldl putFile s.fileSet
  { s with fileSet := fileSet, fileSetIter := fileSet }

def fileList (files : List (List UInt8 × OffsetAndPath)) (actions : List WindowAction) (file : Nat → Answers) :
    UploadSession :=
  if (s.request files).fileSet.isEmpty then (s.request files).abortSession
  else (actions.foldl act (s.request files)).doUpload file

def drained (file : Nat → Answers) : UploadSession :=
  let s := { s with drains := s.drains - 1 }
  if s.uploadWaitingForSendToFinish then s.abortSession else s.doUpload file

def disconnected : UploadSession :=
  { s with
    currentFile := false
    isFinished := true
    isConnected := false
    isWaitingOnLocal := false
    hasThread := false
    drains := 0 }

/-- The events of a thread that is gone are not seen, and a file list needs a connection to come over. -/
def step : UploadSession → Event → UploadSession
  | s, .window action => s.act action
  | s, .connected => if s.hasThread then { s with isConnected := true } else s
  | s, .munge mm => { s with mungeMode := mm }
  | s, .fileList files actions file =>
    if s.isConnected || s.isFinished then s.fileList files actions file else s
  | s, .drained file => if s.hasThread && decide (0 < s.drains) then s.drained file else s
  | s, .disconnected => if s.hasThread then s.disconnected else s
  | s, .abort => s.abortSession

/-! ### What keeps a session going -/

variable {s}

/-- A call of `DoUpload` comes to no file that cannot be opened. -/
def CallOk (file : Nat → Answers) (s : UploadSession) : Prop :=
  s.Active → s.NeedsNext file → filesOpen file s.fileSetIter

def ActOk : UploadSession → WindowAction → Prop
  | s, .beginTransfer file => s.beginTransferEnabled = true → s.isWaitingOnLocal = true → s.isConnected = true →
      CallOk file { s with isWaitingOnLocal := false }
  | _, _ => True

def StepOk : UploadSession → Event → Prop
  | s, .window action => ActOk s action
  | s, .fileList files actions file => AllSteps ActOk act actions (s.request files) ∧
      CallOk file (actions.foldl act (s.request files))
  | s, .drained file => s.uploadWaitingForSendToFinish = false → CallOk file { s with drains := s.drains - 1 }
  | _, _ => True

/-- What holds of a session between two calls of `DoUpload`. -/
structure Base (s : UploadSession) : Prop where
  thread : s.hasThread = !s.isFinished
  connected : s.isConnected = true → s.isFinished = false
  early : s.isConnected = false → s.isFinished = false → s.fileSet = []
  ending : s.hasThread = true → s.uploadWaitingForSendToFinish = true → 0 < s.drains

/-- A session that is neither waiting nor at its end will hear of a drained queue. -/
structure Inv (s : UploadSession) : Prop extends Base s where
  pending : s.isConnected = true → s.isWaitingOnLocal = false → s.fileSet ≠ [] → 0 < s.drains

/-- The fields that a call leaves alone, unless it aborts. -/
structure Continues (s s' : UploadSession) : Prop where
  isConnected : s'.isConnected = s.isConnected
  isWaitingOnLocal : s'.isWaitingOnLocal = s.isWaitingOnLocal
  isFinished : s'.isFinished = s.isFinished
  hasThread : s'.hasThread = s.hasThread
  fileSet : s'.fileSet = s.fileSet
  drains : s.drains ≤ s'.drains
  ending : s'.uploadWaitingForSendToFinish = true → s.uploadWaitingForSendToFinish = true ∨ s.drains < s'.drains

structure Aborted (s : UploadSession) : Prop where
  isConnected : s.isConnected = false
  isFinished : s.isFinished = true
  hasThread : s.hasThread = false

theorem Aborted.inv (h : s.Aborted) : s.Inv := by
  have hNot : ¬s.isConnected = true := by
    rw [h.isConnected]
    exact Bool.false_ne_true
  have hGone : ¬s.hasThread = true := by
    rw [h.hasThread]
    exact Bool.false_ne_true
  refine ⟨⟨?_, fun hConnected => absurd hConnected hNot, fun _ hUnfinished => ?_,
    fun hThread => absurd hThread hGone⟩, fun hConnected => absurd hConnected hNot⟩
  · rw [h.hasThread, h.isFinished]
    rfl
  · exact absurd (hUnfinished.symm.trans h.isFinished) Bool.false_ne_true

theorem Continues.of_continues {s s' s'' : UploadSession} (h : Continues s s') (h' : Continues s' s'') :
    Continues s s'' := by
  refine ⟨h'.isConnected.trans h.isConnected, h'.isWaitingOnLocal.trans h.isWaitingOnLocal,
    h'.isFinished.trans h.isFinished, h'.hasThread.trans h.hasThread, h'.fileSet.trans h.fileSet,
    Nat.le_trans h.drains h'.drains, fun hEnd => ?_⟩
  rcases h'.ending hEnd with hEnd | hMore
  · exact (h.ending hEnd).imp_right fun hMore => Nat.lt_of_lt_of_le hMore h'.drains
  · exact .inr (Nat.lt_of_le_of_lt h.drains hMore)

theorem doUpload_cases (file : Nat → Answers) (s : UploadSession) :
    Continues s (s.doUpload file) ∨ (s.doUpload file).Aborted := by
  induction hRounds : s.rounds using Nat.strong_induction_on generalizing s with
  | _ n ih =>
    have hFewer := @doUploadAux_rounds file s
    have hDoes := doUploadAux_does file s
    rw [doUpload_eq]
    generalize s.doUploadAux file = after at hFewer hDoes
    cases hDoes with
    | waits _ => exact .inl ⟨rfl, rfl, rfl, rfl, rfl, Nat.le_refl _, .inl⟩
    | aborts _ _ => exact .inr ⟨rfl, rfl, rfl⟩
    | ends _ _ _ _ _ =>
      have hFirst : Continues s { s with currentFileBytesDone := -1, currentFileSize := -1 } :=
        ⟨rfl, rfl, rfl, rfl, rfl, Nat.le_refl _, .inl⟩
      exact (ih _ (hRounds ▸ hFewer rfl) _ rfl).imp_left hFirst.of_continues
    | sends b data _ _ _ _ _ => exact .inl ⟨rfl, rfl, rfl, rfl, rfl, Nat.le_succ _, .inl⟩
    | opens name value rest _ _ _ _ _ =>
      have hFirst : Continues s ({ s with
          fileSetIter := rest, currentFileName := name, currentFileBytesDone := value.offset,
          currentFile := true }.sendHeader value (file rest.length)) := by
        obtain ⟨size, sent, hHeader⟩ := sendHeader_eq { s with
          fileSetIter := rest, currentFileName := name, currentFileBytesDone := value.offset,
          currentFile := true } value (file rest.length)
        rw [hHeader]
        exact ⟨rfl, rfl, rfl, rfl, rfl, Nat.le_refl _, .inl⟩
      exact (ih _ (hRounds ▸ hFewer rfl) _ rfl).imp_left hFirst.of_continues
    | stalls _ _ _ _ _ _ _ _ => exact .inl ⟨rfl, rfl, rfl, rfl, rfl, Nat.le_refl _, .inl⟩
    | finishes _ _ _ _ => exact .inl ⟨rfl, rfl, rfl, rfl, rfl, Nat.le_succ _, fun _ => .inr (Nat.lt_succ_self _)⟩

/-- A call that meets the condition leaves no session without a notification to come. -/
theorem Base.doUpload {file : Nat → Answers} (h : s.Base) (hOk : s.CallOk file) : (s.doUpload file).Inv := by
  rcases doUpload_cases file s with hSame | hAborted
  · have hEnding : (s.doUpload file).hasThread = true →
        (s.doUpload file).uploadWaitingForSendToFinish = true → 0 < (s.doUpload file).drains := by
      intro hThread hEnd
      rw [hSame.hasThread] at hThread
      rcases hSame.ending hEnd with hEnd | hMore
      · exact Nat.lt_of_lt_of_le (h.ending hThread hEnd) hSame.drains
      · exact Nat.lt_of_le_of_lt (Nat.zero_le _) hMore
    refine ⟨⟨?_, fun hConnected => ?_, fun hConnected hUnfinished => ?_, hEnding⟩, fun hConnected hBegun _ => ?_⟩
    · rw [hSame.hasThread, hSame.isFinished, h.thread]
    · rw [hSame.isFinished]
      exact h.connected (hSame.isConnected ▸ hConnected)
    · rw [hSame.fileSet]
      exact h.early (hSame.isConnected ▸ hConnected) (hSame.isFinished ▸ hUnfinished)
    · have hUnfinished : s.isFinished = false := h.connected (hSame.isConnected ▸ hConnected)
      have hThread : s.hasThread = true := by
        rw [h.thread, hUnfinished]
        rfl
      have hActive : s.Active := ⟨hThread, hUnfinished, hSame.isWaitingOnLocal ▸ hBegun⟩
      rcases (doUpload_goesOn_iff hActive).mpr (.inr (hOk hActive)) with hMore | hEnd | hFinished
      · exact Nat.lt_of_le_of_lt (Nat.zero_le _) hMore
      · exact hEnding (hSame.hasThread.trans hThread) hEnd
      · rw [hSame.isFinished, hUnfinished] at hFinished
        cases hFinished
  · exact hAborted.inv

theorem Base.beginTransfer {file : Nat → Answers} (h : s.Base) (hOk : s.ActOk (.beginTransfer file)) :
    s.beginTransfer file = s ∨ (s.beginTransfer file).Inv := by
  have hBegun : Base { s with isWaitingOnLocal := false } := ⟨h.thread, h.connected, h.early, h.ending⟩
  unfold UploadSession.beginTransfer
  split
  · rename_i hBegins
    obtain ⟨hEnabled, hWaits⟩ := Bool.and_eq_true_iff.mp hBegins
    right
    dsimp only
    split
    · rename_i hCalls
      exact hBegun.doUpload (hOk hEnabled hWaits (Bool.and_eq_true_iff.mp hCalls).1)
    · rename_i hCalls
      refine ⟨hBegun, fun hConnected _ hFiles => absurd ?_ hCalls⟩
      rw [Bool.and_eq_true_iff, Bool.not_eq_true', List.isEmpty_eq_false_iff]
      exact ⟨hConnected, hFiles⟩
  · exact .inl rfl

theorem Base.act {action : WindowAction} (h : s.Base) (hOk : s.ActOk action) :
    (s.act action).Base ∧ (s.Inv → (s.act action).Inv) := by
  cases action with
  | beginTransfer file =>
    rcases h.beginTransfer hOk with hSame | hInv
    · rw [UploadSession.act, hSame]
      exact ⟨h, id⟩
    · exact ⟨hInv.toBase, fun _ => hInv⟩
  | requeueTransfer =>
    have hBase : Base { s with isWaitingOnLocal := true } := ⟨h.thread, h.connected, h.early, h.ending⟩
    exact ⟨hBase, fun _ => ⟨hBase, fun _ hBegun => absurd hBegun.symm Bool.false_ne_true⟩⟩
  | setBeginTransferEnabled e =>
    have hBase : Base { s with beginTransferEnabled := e } := ⟨h.thread, h.connected, h.early, h.ending⟩
    exact ⟨hBase, fun hInv => ⟨hBase, hInv.pending⟩⟩

/-- What one event keeps. -/
theorem Inv.step {event : Event} (h : s.Inv) (hOk : s.StepOk event) : (s.step event).Inv := by
  cases event with
  | window action => exact (h.toBase.act hOk).2 h
  | connected =>
    rw [UploadSession.step]
    split
    · rename_i hThread
      have hUnfinished : s.isFinished = false := by
        rw [h.thread] at hThread
        simpa using hThread
      refine ⟨⟨h.thread, fun _ => hUnfinished, fun hNot => absurd hNot.symm Bool.false_ne_true, h.ending⟩,
        fun _ hBegun hFiles => ?_⟩
      cases hConnected : s.isConnected
      · exact absurd (h.early hConnected hUnfinished) hFiles
      · exact h.pending hConnected hBegun hFiles
    · exact h
  | munge mm => exact ⟨⟨h.thread, h.connected, h.early, h.ending⟩, h.pending⟩
  | fileList files actions file =>
    rw [UploadSession.step]
    split
    · rename_i hOver
      have hRequest : (s.request files).Base := by
        refine ⟨h.thread, h.connected, fun hConnected hUnfinished => ?_, h.ending⟩
        rcases (Bool.or_eq_true _ _).mp hOver with hNow | hFinished
        · exact absurd (hConnected.symm.trans hNow) Bool.false_ne_true
        · exact absurd (hUnfinished.symm.trans hFinished) Bool.false_ne_true
      unfold UploadSession.fileList
      split
      · exact Aborted.inv ⟨rfl, rfl, rfl⟩
      · have hActed := foldl_keeps (fun t action hBase hOk => (Base.act hBase hOk).1) hOk.1 hRequest
        exact hActed.doUpload hOk.2
    · exact h
  | drained file =>
    rw [UploadSession.step]
    split
    · unfold UploadSession.drained
      dsimp only
      split
      · exact Aborted.inv ⟨rfl, rfl, rfl⟩
      · rename_i hEnd
        have hLess : Base { s with drains := s.drains - 1 } :=
          ⟨h.thread, h.connected, h.early, fun _ hNow => absurd hNow hEnd⟩
        exact hLess.doUpload (hOk (Bool.eq_false_iff.mpr hEnd))
    · exact h
  | disconnected =>
    rw [UploadSession.step]
    split
    · exact Aborted.inv ⟨rfl, rfl, rfl⟩
    · exact h
  | abort => exact Aborted.inv ⟨rfl, rfl, rfl⟩

theorem start_inv (localSessionID : List UInt8) (isConnected : Bool) : (start localSessionID isConnected).Inv :=
  ⟨⟨rfl, fun _ => rfl, fun _ _ => rfl, fun _ hEnd => absurd hEnd Bool.false_ne_true⟩,
    fun _ hBegun => absurd hBegun.symm Bool.false_ne_true⟩

/-- A call goes on exactly if it comes to no file that cannot be opened, or the end has been announced before. A session
whose calls all do so never stalls: while it is connected, and neither waiting nor without a request, a notification is
to come. -/
theorem doUpload_neverStalls (file : Nat → Answers) (s : UploadSession) (localSessionID : List UInt8)
    (isConnected : Bool) (events : List Event) :
    (s.Active → (GoesOn s (s.doUpload file) ↔
      s.uploadWaitingForSendToFinish = true ∨ (s.NeedsNext file → filesOpen file s.fileSetIter))) ∧
      (AllSteps StepOk step events (start localSessionID isConnected) →
        Inv (events.foldl step (start localSessionID isConnected))) := by
  refine ⟨fun hActive => doUpload_goesOn_iff hActive, fun hAll => ?_⟩
  exact foldl_keeps (fun _ _ hInv hOk => Inv.step hInv hOk) hAll (start_inv localSessionID isConnected)

/-- A file that cannot be opened anymore is requested, and then one that can. -/
def goneAndHere : List (List UInt8 × OffsetAndPath) :=
  [([103], ⟨0, []⟩), ([104], ⟨0, []⟩)]

/-- While one more file is left, the current one cannot be opened. -/
def goneFirst (left : Nat) : Answers :=
  if left = 1 then ⟨false, none, -1, none⟩ else ⟨true, some 1, 0, some [7]⟩

/-- The session has begun, and knows what is requested. -/
def goneRequested : UploadSession :=
  ((start [] true).step (.window (.beginTransfer goneFirst))).request goneAndHere

/-- Nothing is sent, and nothing is to come. -/
theorem goneRequested_stalls : goneRequested.Active ∧ ¬GoesOn goneRequested (goneRequested.doUpload goneFirst) ∧
    ¬Inv ([.window (.beginTransfer goneFirst), .fileList goneAndHere [] goneFirst].foldl step (start [] true)) := by
  refine ⟨⟨rfl, rfl, rfl⟩, ?_, fun hInv => ?_⟩
  · rintro (hMore | hEnd | hFinished)
    · revert hMore
      decide
    · revert hEnd
      decide
    · revert hFinished
      decide
  · have hPending := hInv.pending (by decide) (by decide) (by decide)
    revert hPending
    decide

/-- Both files are there. -/
theorem doUpload_neverStalls_here :
    GoesOn goneRequested (goneRequested.doUpload fun _ => ⟨true, some 1, 0, some [7]⟩) ∧
      Inv ([.window (.beginTransfer goneFirst), .fileList goneAndHere [] fun _ => ⟨true, some 1, 0, some [7]⟩].foldl
        step (start [] true)) := by
  have hOpen : filesOpen (fun _ => ⟨true, some 1, 0, some [7]⟩) goneAndHere := by
    refine ⟨rfl, fun hNext => ?_⟩
    rcases hNext with hBefore | hEnd
    · exact absurd hBefore (by decide)
    · exact absurd (Option.some.inj hEnd) (List.cons_ne_nil _ _)
  obtain ⟨hCall, hRun⟩ := doUpload_neverStalls (fun _ => ⟨true, some 1, 0, some [7]⟩) goneRequested [] true
    [.window (.beginTransfer goneFirst), .fileList goneAndHere [] fun _ => ⟨true, some 1, 0, some [7]⟩]
  refine ⟨(hCall ⟨rfl, rfl, rfl⟩).mpr (.inr fun _ => hOpen), hRun ?_⟩
  exact ⟨fun _ _ _ _ _ => trivial, ⟨trivial, fun _ _ => hOpen⟩, trivial⟩

end UploadSession

end BeShare.Client.Uploads
