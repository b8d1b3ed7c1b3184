import BeShare.Lib.Admission
import Mathlib.Algebra.Group.Nat.Defs
import Mathlib.Algebra.Ring.Int.Defs
import Mathlib.Logic.Function.Basic

/-!
The list of file transfers and how `ShareWindow::DequeueTransferSessions` starts the ones that wait. A transfer
is a pointer into the sessions of the window. The GUI calls and the log are left out.
-/

namespace BeShare.Client

/-- The fields of a `ShareFileTransfer` that say whether it may begin. -/
structure ShareFileTransfer where
  uploadSession : Bool
  isConnected : Bool
  isConnecting : Bool
  isAccepting : Bool
  isWaitingOnLocal : Bool
  isFinished : Bool
  beginTransferEnabled : Bool
  errorOccurred : Bool
  remoteSessionID : List Char
  /-- `_fileSet.GetNumItems()` -/
  numFiles : Nat
  /-- `GetNumBytesLeftToUpload()` -/
  numBytesLeft : UInt64
  /-- `_mtt` is not `NULL`. -/
  hasThread : Bool

/-- What becomes of a transfer outside of the window: whether its upload meets an error (in reading the file)
and whether its thread can start to connect. -/
structure Network where
  uploadFails : Nat → Bool
  connects : Nat → Bool

namespace ShareFileTransfer

variable (s : ShareFileTransfer)

def isActive : Bool :=
  !s.isWaitingOnLocal && !s.isFinished

/-- An upload is not restarted: only a received file sets `_autoRestart`. -/
def abortSession (error : Bool) : ShareFileTransfer :=
  { s with
    isConnecting := false
    isAccepting := false
    isConnected := false
    isWaitingOnLocal := false
    errorOccurred := error
    isFinished := true
    hasThread := false }

def doUpload (fails : Bool) : ShareFileTransfer :=
  if s.isWaitingOnLocal then s
  else if s.hasThread && !fails then s
  else s.abortSession true

def startConnect (connects : Bool) : ShareFileTransfer :=
  if s.hasThread && connects then { s with isConnecting := true } else s

def beginTransfer (fails connects : Bool) : ShareFileTransfer :=
  if s.beginTransferEnabled && s.isWaitingOnLocal then
    let s := { s with isWaitingOnLocal := false }
    if s.uploadSession then
      if s.isConnected then
        if 0 < s.numFiles then s.doUpload fails else s
      else s.startConnect connects
    else if s.isAccepting then s
    else s.startConnect connects
  else s

def requeueTransfer : ShareFileTransfer :=
  { s with isWaitingOnLocal := true }

end ShareFileTransfer

structure ShareWindow where
  transferList : List Nat
  session : Nat → ShareFileTransfer
  dequeueCount : Nat
  shortestUploadsFirst : Bool
  maxSimultaneousUploadSessions : UInt32
  maxSimultaneousUploadSessionsPerUser : UInt32
  maxSimultaneousDownloadSessions : UInt32
  maxSimultaneousDownloadSessionsPerUser : UInt32

/-- A transfer is in the list once, and the list counts its items in an `int32`. -/
structure ShareWindow.WellFormed (w : ShareWindow) : Prop where
  nodup : w.transferList.Nodup
  length_lt : w.transferList.length < 2 ^ 31

namespace ShareWindow

variable (net : Network) (w : ShareWindow)

def setSession (p : Nat) (s : ShareFileTransfer) : ShareWindow :=
  { w with session := Function.update w.session p s }

def maxSessions (upload : Bool) : UInt32 :=
  if upload then w.maxSimultaneousUploadSessions else w.maxSimultaneousDownloadSessions

def maxSessionsPerUser (upload : Bool) : UInt32 :=
  if upload then w.maxSimultaneousUploadSessionsPerUser else w.maxSimultaneousDownloadSessionsPerUser

/-- The active transfers of one direction. -/
def active (upload : Bool) : List Nat :=
  w.transferList.filter fun p => (w.session p).uploadSession == upload && (w.session p).isActive

def userOf (p : Nat) : List Char :=
  (w.session p).remoteSessionID

def countActiveSessions (upload : Bool) (optForSessionID : Option (List Char)) : UInt32 :=
  UInt32.ofNat (((w.active upload).map w.userOf).countP fun id =>
    match optForSessionID with
    | none => true
    | some user => user == id)

/-- `nextSession[0] ? nextSession : NULL` -/
def userKey (id : List Char) : Option (List Char) :=
  if id = [] then none else some id

def beginTransfer (p : Nat) : ShareWindow :=
  w.setSession p ((w.session p).beginTransfer (net.uploadFails p) (net.connects p))

/-- The loop of `DequeueTransferSessions(upload)`. -/
def dequeueLoop (upload : Bool) : List Nat → Int → ShareWindow → ShareWindow
  | [], _, w => w
  | p :: rest, numToStart, w =>
    if (w.session p).uploadSession = upload ∧ (w.session p).isWaitingOnLocal ∧
        w.countActiveSessions upload (userKey (w.userOf p)) < w.maxSessionsPerUser upload then
      if numToStart - 1 = 0 then w.beginTransfer net p
      else dequeueLoop upload rest (numToStart - 1) (w.beginTransfer net p)
    else dequeueLoop upload rest numToStart w

/-- A `uint32` that is stored in an `int`. -/
def toInt (x : UInt32) : Int :=
  if x.toNat < 2 ^ 31 then x.toNat else x.toNat - 2 ^ 32

/-- `DequeueTransferSessions(bool)` -/
def dequeueDirection (upload : Bool) : ShareWindow :=
  let numToStart := toInt (w.maxSessions upload - w.countActiveSessions upload none)
  if numToStart > 0 then dequeueLoop net upload w.transferList numToStart w else w

/-- The end of `DequeueTransferSessions()`. -/
def dequeueBoth : ShareWindow :=
  (w.dequeueDirection net true).dequeueDirection net false

def changeSessions (f : Nat → ShareFileTransfer → ShareFileTransfer) : ShareWindow :=
  { w with session := fun p => if p ∈ w.transferList then f p (w.session p) else w.session p }

def pauseUpload (xfr : ShareFileTransfer) : ShareFileTransfer :=
  if xfr.uploadSession then
    let xfr := if xfr.isWaitingOnLocal then xfr else xfr.requeueTransfer
    { xfr with beginTransferEnabled := false }
  else xfr

def resumeUpload (fails connects : Bool) (xfr : ShareFileTransfer) : ShareFileTransfer :=
  if xfr.uploadSession && xfr.isWaitingOnLocal then
    if xfr.beginTransferEnabled then xfr.beginTransfer fails connects
    else { xfr with beginTransferEnabled := true }
  else xfr

/-- The call of `DequeueTransferSessions` within is made while `_dequeueCount` is not 0. -/
def pauseAllUploads : ShareWindow :=
  (w.changeSessions fun _ xfr => pauseUpload xfr).dequeueBoth net

def resumeAllUploads : ShareWindow :=
  (w.changeSessions fun p xfr => resumeUpload (net.uploadFails p) (net.connects p) xfr).dequeueBoth net

/-- `SortShareFileTransfersBySize`: an empty transfer comes last. -/
def sortKey (p : Nat) : UInt64 :=
  if (w.session p).numBytesLeft > 0 then (w.session p).numBytesLeft else UInt64.ofNat (2 ^ 64 - 1)

/-- The places of the sorted transfers take them in their new order. -/
def replaceItems (sortList : List Nat) : List Nat → List Nat → List Nat
  | _, [] => []
  | sorted, next :: rest =>
    if next ∈ sortList then
      match sorted with
      | replaceWith :: sorted => replaceWith :: replaceItems sortList sorted rest
      | [] => next :: rest
    else next :: replaceItems sortList sorted rest

theorem replaceItems_perm {sortList sorted l : List Nat}
    (h : sorted.Perm (l.filter fun p => p ∈ sortList)) : (replaceItems sortList sorted l).Perm l := by
  have hPlaces : ∀ sorted : List Nat, sorted.length = (l.filter fun p => p ∈ sortList).length →
      (replaceItems sortList sorted l).Perm (sorted ++ l.filter fun p => !decide (p ∈ sortList)) := by
    clear h
    induction l with
    | nil =>
      intro sorted hLength
      rw [List.filter_nil, List.length_nil, List.length_eq_zero_iff] at hLength
      subst hLength
      unfold replaceItems
      exact List.Perm.refl _
    | cons p l ih =>
      intro sorted hLength
      by_cases hp : p ∈ sortList
      · rw [List.filter_cons_of_pos (by simpa using hp)] at hLength
        cases sorted with
        | nil => simp at hLength
        | cons q sorted =>
          rw [replaceItems, if_pos hp, List.filter_cons_of_neg (by simpa using hp), List.cons_append]
          exact (ih sorted (by simpa using hLength)).cons q
      · rw [List.filter_cons_of_neg (by simpa using hp)] at hLength
        unfold replaceItems
        rw [if_neg hp, List.filter_cons_of_pos (by simpa using hp)]
        exact ((ih sorted hLength).cons p).trans List.perm_middle.symm
  refine (hPlaces sorted h.length_eq).trans ((h.append_right _).trans ?_)
  exact List.filter_append_perm _ l

/-- The uploads that the sort is about. -/
def origList : List Nat :=
  w.transferList.filter fun p =>
    (w.session p).uploadSession && !(w.session p).isFinished && !(w.session p).errorOccurred

def sortList : List Nat :=
  w.origList.mergeSort fun p q => decide (w.sortKey p ≤ w.sortKey q)

/-- The transfers in the order that the sort gives them. -/
def sortedTransfers : List Nat :=
  replaceItems w.sortList w.sortList w.transferList

theorem sortedTransfers_perm : w.sortedTransfers.Perm w.transferList := by
  refine replaceItems_perm ?_
  have hMem : ∀ p, p ∈ w.sortList ↔ p ∈ w.origList := fun p => (List.mergeSort_perm _ _).mem_iff
  have hFilter : (w.transferList.filter fun p => p ∈ w.sortList) = w.origList := by
    refine List.filter_congr fun p hp => ?_
    rw [Bool.eq_iff_iff, decide_eq_true_iff, hMem, origList, List.mem_filter]
    exact ⟨fun h => h.2, fun h => ⟨hp, h⟩⟩
  rw [hFilter]
  exact List.mergeSort_perm _ _

/-- The first half of `DequeueTransferSessions()`, while shortest uploads go first. The order is made before
the uploads are paused. -/
def sortUploads : ShareWindow :=
  if w.sortList = w.origList then w
  else
    let paused := { w with dequeueCount := w.dequeueCount + 1 }.pauseAllUploads net
    let resumed := { paused with transferList := w.sortedTransfers }.resumeAllUploads net
    { resumed with dequeueCount := resumed.dequeueCount - 1 }

/-- The window as the two scans find it. -/
def beforeScans : ShareWindow :=
  if w.dequeueCount = 0 ∧ w.shortestUploadsFirst then w.sortUploads net else w

def dequeueTransferSessions : ShareWindow :=
  (w.beforeScans net).dequeueBoth net

end ShareWindow

end BeShare.Client
