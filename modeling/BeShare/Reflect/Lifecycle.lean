import BeShare.Lib.Runs
import Mathlib.Data.List.Basic
import Mathlib.Data.List.Nodup
import Mathlib.Logic.Function.Basic
import Mathlib.Tactic.Common

/-!
The sessions of a `ReflectServer` from `AddNewSession` to `AboutToDetachFromServer`. The callbacks of the sessions may
call the server again, so the calls that are under way stand on a stack.
-/

namespace BeShare.Muscle.Reflect.Lifecycle

open BeShare.Lib

/-- What a session is told, what is asked for it, and that `ClearLameDucks` is done. -/
inductive Event (Sid : Type) where
  | attachedToServer (id : Sid)
  | aboutToDetachFromServer (id : Sid)
  | endSession (id : Sid)
  | clearedLameDucks
  deriving DecidableEq

/-- A call of the server that waits for a callback of a session. -/
inductive Frame (Sid : Type) where
  /-- `AddNewSession` in `AttachedToServer`; if it is called by `ReplaceSession`, with the session that is replaced -/
  | attachedToServer (id : Sid) (oldSession : Option Sid)
  /-- `AddNewSession` in `AboutToDetachFromServer` and `DoOutput`, after a failed `AttachedToServer` -/
  | abortedStartup (id : Sid)
  /-- `ClearLameDucks` in `AboutToDetachFromServer` and `DoOutput` -/
  | lameDuck (id : Sid)
  /-- `Cleanup` in `AboutToDetachFromServer` and `DoOutput`. `before` are the sessions at its start, and `next` is where
  its iterator stands. -/
  | cleanup (before : List Sid) (id : Sid) (next : Option Sid)
  /-- `Cleanup` in the `AboutToDetachFromServer` of the factories -/
  | factories (before : List Sid)
  /-- `DisconnectSession` in `ClientConnectionClosed` -/
  | clientConnectionClosed (id : Sid)
  deriving DecidableEq

/-- `ReflectServer`. The ids of the sessions stand for the sessions. -/
structure Server (Sid : Type) where
  sessions : List Sid
  lameDuckSessions : List Sid
  /-- `_owner` is not `NULL` -/
  owner : Sid → Bool
  stack : List (Frame Sid)
  log : List (Event Sid)

/-- What can happen. `ClearLameDucks` and `Cleanup` are called by the loop of the server and by who runs it, the others
also by callbacks. -/
inductive Action (Sid : Type) where
  /-- `AddNewSession`, or `ReplaceSession` with the session that is replaced -/
  | addNewSession (id : Sid) (oldSession : Option Sid)
  /-- `EndSession`, also of a session that is kicked -/
  | endSession (id : Sid)
  | disconnectSession (id : Sid)
  | clearLameDucks
  | cleanup
  /-- The callback that runs last returns: `B_NO_ERROR` for `AttachedToServer`, or true for `ClientConnectionClosed`. -/
  | returns (ret : Bool)

variable {Sid : Type} [DecidableEq Sid]

def Event.notifies (id : Sid) : Event Sid → Bool
  | .attachedToServer i => i = id
  | .aboutToDetachFromServer i => i = id
  | _ => false

/-- What the session has been told. -/
def history (log : List (Event Sid)) (id : Sid) : List (Event Sid) :=
  log.filter (Event.notifies id)

def start : Server Sid :=
  ⟨[], [], fun _ => false, [], []⟩

namespace Server

/-- `AddLameDuckSession`: the session is looked up, and queued if it is not. -/
def endSession (s : Server Sid) (id : Sid) : Server Sid :=
  { s with
    lameDuckSessions :=
      if id ∈ s.sessions ∧ id ∉ s.lameDuckSessions then s.lameDuckSessions ++ [id] else s.lameDuckSessions
    log := s.log ++ [.endSession id] }

/-- `_owner = NULL`, and `_sessions.Remove` -/
def leave (s : Server Sid) (id : Sid) : Server Sid :=
  { s with sessions := s.sessions.erase id, owner := Function.update s.owner id false }

/-- `AboutToDetachFromServer` is called. -/
def detach (s : Server Sid) (frame : Frame Sid) (id : Sid) : Server Sid :=
  { s with stack := frame :: s.stack, log := s.log ++ [.aboutToDetachFromServer id] }

/-- The loop of `ClearLameDucks` with these in the queue. -/
def nextLameDuck (s : Server Sid) : List Sid → Server Sid
  | [] => { s with lameDuckSessions := [], log := s.log ++ [.clearedLameDucks] }
  | id :: ids =>
    if id ∈ s.sessions then { s with lameDuckSessions := ids }.detach (.lameDuck id) id
    else s.nextLameDuck ids

/-- The session behind this one. -/
def following (s : Server Sid) (id : Sid) : Option Sid :=
  (s.sessions.dropWhile (· ≠ id)).tail.head?

/-- The loop of `Cleanup` with its iterator at this session. -/
def nextCleanup (s : Server Sid) (before : List Sid) : Option Sid → Server Sid
  | none => { s with stack := .factories before :: s.stack }
  | some id => s.detach (.cleanup before id (s.following id)) id

/-- One step. What cannot happen leaves the server as it is: a session is added only once, and `ClearLameDucks` and
`Cleanup` are not called by callbacks. -/
def step (s : Server Sid) : Action Sid → Server Sid
  | .addNewSession id oldSession =>
    if history s.log id = [] then
      { s with
        sessions := s.sessions ++ [id]
        owner := Function.update s.owner id true
        stack := .attachedToServer id oldSession :: s.stack
        log := s.log ++ [.attachedToServer id] }
    else s
  | .endSession id => s.endSession id
  | .disconnectSession id => { s with stack := .clientConnectionClosed id :: s.stack }
  | .clearLameDucks => if s.stack = [] then s.nextLameDuck s.lameDuckSessions else s
  | .cleanup => if s.stack = [] then s.nextCleanup s.sessions s.sessions.head? else s
  | .returns ret =>
    match s.stack with
    | [] => s
    | .attachedToServer id oldSession :: stack =>
      if ret then
        match oldSession with
        | some old => { s with stack := stack }.endSession old
        | none => { s with stack := stack }
      else { s with stack := stack }.detach (.abortedStartup id) id
    | .abortedStartup id :: stack => { s with stack := stack }.leave id
    | .lameDuck id :: stack => ({ s with stack := stack }.leave id).nextLameDuck s.lameDuckSessions
    | .cleanup before id next :: stack =>
      { { s with stack := stack }.leave id with lameDuckSessions := s.lameDuckSessions ++ [id] }.nextCleanup before next
    | .factories _ :: stack => { s with stack := stack, lameDuckSessions := [] }
    | .clientConnectionClosed id :: stack =>
      if ret then { s with stack := stack }.endSession id else { s with stack := stack }

end Server

/-- The session that `AttachedToServer` or `AboutToDetachFromServer` runs of. -/
def Frame.called : Frame Sid → Option Sid
  | .attachedToServer id _ | .abortedStartup id | .lameDuck id | .cleanup _ id _ => some id
  | .factories _ | .clientConnectionClosed _ => none

/-- The session that `AboutToDetachFromServer` runs of. -/
def Frame.detached : Frame Sid → Option Sid
  | .abortedStartup id | .lameDuck id | .cleanup _ id _ => some id
  | .attachedToServer _ _ | .factories _ | .clientConnectionClosed _ => none

/-- The two loops, which no callback calls. -/
def Frame.loops : Frame Sid → Bool
  | .lameDuck _ | .cleanup _ _ _ | .factories _ => true
  | _ => false

def calls (stack : List (Frame Sid)) : List Sid :=
  stack.filterMap Frame.called

def detaching (stack : List (Frame Sid)) : List Sid :=
  stack.filterMap Frame.detached

/-- The loops stand at the bottom of the stack. -/
def Grounded : List (Frame Sid) → Prop
  | [] => True
  | frame :: stack => (frame.loops = true → stack = []) ∧ Grounded stack

/-! ### What the sessions are told -/

/-- A session that is in the table has been attached, and is told to detach while that callback runs. Any other session
has been told nothing, or both. -/
structure Inv (s : Server Sid) : Prop where
  nodup : s.sessions.Nodup
  distinct : (calls s.stack).Nodup
  called : ∀ id ∈ calls s.stack, id ∈ s.sessions
  grounded : Grounded s.stack
  inside : ∀ id ∈ s.sessions, s.owner id = true ∧
    history s.log id = .attachedToServer id :: if id ∈ detaching s.stack then [.aboutToDetachFromServer id] else []
  outside : ∀ id ∉ s.sessions, s.owner id = false ∧
    (history s.log id = [] ∨ history s.log id = [.attachedToServer id, .aboutToDetachFromServer id])

theorem history_append (log : List (Event Sid)) (event : Event Sid) (id : Sid) :
    history (log ++ [event]) id = history log id ++ if event.notifies id then [event] else [] := by
  unfold history
  rw [List.filter_append, List.filter_singleton]
  cases event.notifies id <;> rfl

omit [DecidableEq Sid] in
theorem mem_calls_of_mem_detaching {stack : List (Frame Sid)} {id : Sid} (h : id ∈ detaching stack) :
    id ∈ calls stack := by
  obtain ⟨frame, hFrame, hDetached⟩ := List.mem_filterMap.mp h
  refine List.mem_filterMap.mpr ⟨frame, hFrame, ?_⟩
  cases frame with
  | attachedToServer i old => cases hDetached
  | factories before => cases hDetached
  | clientConnectionClosed i => cases hDetached
  | abortedStartup i => exact hDetached
  | lameDuck i => exact hDetached
  | cleanup before i next => exact hDetached

variable {s : Server Sid} {id : Sid} {frame : Frame Sid} {stack : List (Frame Sid)}

theorem inv_start : Inv (start : Server Sid) where
  nodup := List.nodup_nil
  distinct := List.nodup_nil
  called _ h := nomatch h
  grounded := trivial
  inside _ h := nomatch h
  outside _ _ := ⟨rfl, .inl rfl⟩

/-- The queue is nothing that a session is told, and neither is a request. -/
theorem Inv.congr {s' : Server Sid} (h : Inv s) (hSessions : s'.sessions = s.sessions) (hOwner : s'.owner = s.owner)
    (hStack : s'.stack = s.stack) (hLog : ∀ id, history s'.log id = history s.log id) : Inv s' where
  nodup := hSessions ▸ h.nodup
  distinct := hStack ▸ h.distinct
  called := by
    rw [hSessions, hStack]
    exact h.called
  grounded := hStack ▸ h.grounded
  inside id hid := by
    rw [hOwner, hLog, hStack]
    exact h.inside id (hSessions ▸ hid)
  outside id hid := by
    rw [hOwner, hLog]
    exact h.outside id (hSessions ▸ hid)

theorem history_endSession (s : Server Sid) (old id : Sid) : history (s.endSession old).log id = history s.log id := by
  unfold Server.endSession
  rw [history_append]
  exact List.append_nil _

theorem Inv.endSession (h : Inv s) (id : Sid) : Inv (s.endSession id) :=
  h.congr rfl rfl rfl (history_endSession s id)

/-- A call that is not in `AboutToDetachFromServer` comes back. -/
theorem Inv.pop (h : Inv s) (hStack : s.stack = frame :: stack) (hFrame : frame.detached = none) :
    Inv { s with stack := stack } := by
  have hDetaching : detaching s.stack = detaching stack := by
    rw [hStack]
    exact List.filterMap_cons_none hFrame
  have hSub : (calls stack).Sublist (calls s.stack) := by
    rw [hStack]
    exact (List.sublist_cons_self _ _).filterMap _
  refine ⟨h.nodup, h.distinct.sublist hSub, fun i hi => h.called i (hSub.subset hi), ?_, fun i hi => ?_, h.outside⟩
  · have hGrounded := h.grounded
    rw [hStack] at hGrounded
    exact hGrounded.2
  · rw [← hDetaching]
    exact h.inside i hi

/-- A call that is of no session begins. -/
theorem Inv.push (h : Inv s) (hCalled : frame.called = none) (hDetached : frame.detached = none)
    (hLoops : frame.loops = true → s.stack = []) : Inv { s with stack := frame :: s.stack } := by
  have hCalls : calls (frame :: s.stack) = calls s.stack := List.filterMap_cons_none hCalled
  have hDetaching : detaching (frame :: s.stack) = detaching s.stack := List.filterMap_cons_none hDetached
  refine ⟨h.nodup, hCalls ▸ h.distinct, hCalls ▸ h.called, ⟨hLoops, h.grounded⟩, fun i hi => ?_, h.outside⟩
  rw [hDetaching]
  exact h.inside i hi

theorem Inv.not_mem_of_history (h : Inv s) (hNew : history s.log id = []) : id ∉ s.sessions := by
  intro hIn
  rw [(h.inside id hIn).2] at hNew
  cases hNew

omit [DecidableEq Sid] in
theorem calls_cons (hCalled : frame.called = some id) : calls (frame :: stack) = id :: calls stack :=
  List.filterMap_cons_some hCalled

omit [DecidableEq Sid] in
theorem detaching_cons (hDetached : frame.detached = some id) : detaching (frame :: stack) = id :: detaching stack :=
  List.filterMap_cons_some hDetached

/-- `AddNewSession` comes to `AttachedToServer`. -/
theorem Inv.addNewSession (h : Inv s) (hNew : history s.log id = []) (oldSession : Option Sid) :
    Inv { s with
      sessions := s.sessions ++ [id]
      owner := Function.update s.owner id true
      stack := .attachedToServer id oldSession :: s.stack
      log := s.log ++ [.attachedToServer id] } := by
  have hOut := h.not_mem_of_history hNew
  have hNotCalled : id ∉ calls s.stack := fun hCalled => hOut (h.called id hCalled)
  have hOther (i : Sid) (hi : i ≠ id) : history (s.log ++ [.attachedToServer id]) i = history s.log i := by
    rw [history_append, if_neg, List.append_nil]
    exact fun hSame => hi (of_decide_eq_true hSame).symm
  refine ⟨?_, List.nodup_cons.mpr ⟨hNotCalled, h.distinct⟩, fun i hi => ?_,
    ⟨fun hLoops => (nomatch hLoops), h.grounded⟩, fun i hi => ?_, fun i hi => ?_⟩
  · exact List.nodup_append.mpr ⟨h.nodup, List.nodup_singleton id, fun a ha b hb hSame =>
      hOut (List.mem_singleton.mp hb ▸ hSame ▸ ha)⟩
  · rcases List.mem_cons.mp hi with rfl | hi
    · exact List.mem_append_right _ (List.mem_singleton_self i)
    · exact List.mem_append_left _ (h.called i hi)
  · dsimp only
    rcases List.mem_append.mp hi with hi | hi
    · have hNe : i ≠ id := fun hSame => hOut (hSame ▸ hi)
      rw [Function.update_of_ne hNe, hOther i hNe]
      exact h.inside i hi
    · obtain rfl := List.mem_singleton.mp hi
      have hNotDetaching : i ∉ detaching s.stack := fun hMem => hNotCalled (mem_calls_of_mem_detaching hMem)
      rw [Function.update_self, history_append, hNew]
      refine ⟨rfl, ?_⟩
      change [] ++ (if decide (i = i) = true then _ else _) = _ :: if i ∈ detaching s.stack then _ else _
      rw [if_pos (decide_eq_true rfl), if_neg hNotDetaching]
      rfl
  · have hParts := not_or.mp (mt List.mem_append.mpr hi)
    have hNe : i ≠ id := fun hSame => hParts.2 (List.mem_singleton.mpr hSame)
    dsimp only
    rw [Function.update_of_ne hNe, hOther i hNe]
    exact h.outside i hParts.1

/-- A session in the table is told to detach. -/
theorem Inv.detach (h : Inv s) (hIn : id ∈ s.sessions) (hFree : id ∉ calls s.stack) (hCalled : frame.called = some id)
    (hDetached : frame.detached = some id) (hLoops : frame.loops = true → s.stack = []) : Inv (s.detach frame id) := by
  unfold Server.detach
  refine ⟨h.nodup, ?_, fun i hi => ?_, ⟨hLoops, h.grounded⟩, fun i hi => ⟨(h.inside i hi).1, ?_⟩, fun i hi => ?_⟩
  · rw [calls_cons hCalled]
    exact List.nodup_cons.mpr ⟨hFree, h.distinct⟩
  · rw [calls_cons hCalled] at hi
    rcases List.mem_cons.mp hi with rfl | hi
    · exact hIn
    · exact h.called i hi
  · dsimp only
    rw [history_append, (h.inside i hi).2, detaching_cons hDetached]
    by_cases hSame : i = id
    · subst hSame
      have hNotDetaching : i ∉ detaching s.stack := fun hMem => hFree (mem_calls_of_mem_detaching hMem)
      rw [if_neg hNotDetaching, if_pos List.mem_cons_self]
      exact congrArg _ (if_pos (decide_eq_true rfl))
    · have hNot : (Event.aboutToDetachFromServer id).notifies i = false := decide_eq_false (Ne.symm hSame)
      rw [hNot, if_neg Bool.false_ne_true, List.append_nil]
      simp only [List.mem_cons, hSame, false_or]
  · have hNot : (Event.aboutToDetachFromServer id).notifies i = false :=
      decide_eq_false fun hSame => hi (hSame ▸ hIn)
    dsimp only
    rw [history_append, hNot, if_neg Bool.false_ne_true, List.append_nil]
    exact h.outside i hi

/-- The session that has been told to detach leaves. -/
theorem Inv.leave (h : Inv s) (hStack : s.stack = frame :: stack) (hCalled : frame.called = some id)
    (hDetached : frame.detached = some id) : Inv ({ s with stack := stack }.leave id) := by
  have hDistinct := h.distinct
  have hGrounded := h.grounded
  rw [hStack] at hGrounded
  rw [hStack, calls_cons hCalled, List.nodup_cons] at hDistinct
  have hCalls : ∀ i ∈ calls stack, i ∈ s.sessions := fun i hi =>
    h.called i (by rw [hStack, calls_cons hCalled]; exact List.mem_cons_of_mem _ hi)
  have hIn : id ∈ s.sessions := h.called id (by rw [hStack, calls_cons hCalled]; exact List.mem_cons_self)
  have hDetaching : detaching s.stack = id :: detaching stack := by rw [hStack, detaching_cons hDetached]
  unfold Server.leave
  refine ⟨h.nodup.erase id, hDistinct.2, fun i hi => ?_, hGrounded.2, fun i hi => ?_, fun i hi => ?_⟩
  · exact (List.mem_erase_of_ne fun hSame : i = id => hDistinct.1 (hSame ▸ hi)).mpr (hCalls i hi)
  · obtain ⟨hNe, hi⟩ := h.nodup.mem_erase_iff.mp hi
    dsimp only
    rw [Function.update_of_ne hNe]
    obtain ⟨hOwner, hHistory⟩ := h.inside i hi
    rw [hDetaching] at hHistory
    refine ⟨hOwner, hHistory.trans ?_⟩
    simp only [List.mem_cons, hNe, false_or]
  · dsimp only
    by_cases hSame : i = id
    · subst hSame
      rw [Function.update_self, (h.inside i hIn).2, hDetaching, if_pos List.mem_cons_self]
      exact ⟨rfl, .inr rfl⟩
    · rw [Function.update_of_ne hSame]
      exact h.outside i fun hi => ‹i ∉ _› ((List.mem_erase_of_ne hSame).mpr hi)

/-! ### The sessions that `Cleanup` comes to -/

/-- Where `Cleanup` stands. What its iterator does not come to any more is new. -/
def Frame.Stands (s : Server Sid) : Frame Sid → Prop
  | .cleanup before id next =>
    (∃ rest, s.sessions = id :: rest ∧ (∀ n ∈ next, rest.head? = some n ∧ n ∉ calls s.stack) ∧
      (next = none → ∀ i ∈ rest, i ∉ before)) ∧ ∀ i ∈ before, history s.log i ≠ []
  | .factories before => (∀ i ∈ s.sessions, i ∉ before) ∧ ∀ i ∈ before, history s.log i ≠ []
  | _ => True

structure Whole (s : Server Sid) : Prop where
  inv : Inv s
  stands : ∀ frame ∈ s.stack, frame.Stands s

/-- What only ends calls and adds to the log leaves `Cleanup` where it stands. -/
theorem Frame.Stands.mono {s' : Server Sid} (h : frame.Stands s) (hSessions : s'.sessions = s.sessions)
    (hCalls : ∀ i ∈ calls s'.stack, i ∈ calls s.stack) (hHistory : ∀ i, history s.log i ≠ [] → history s'.log i ≠ []) :
    frame.Stands s' := by
  cases frame with
  | cleanup before id next =>
    obtain ⟨⟨rest, hList, hNext, hMissed⟩, hKnown⟩ := h
    exact ⟨⟨rest, hSessions.trans hList, fun n hn => ⟨(hNext n hn).1, fun hCalled => (hNext n hn).2 (hCalls n hCalled)⟩,
      hMissed⟩, fun i hi => hHistory i (hKnown i hi)⟩
  | factories before =>
    refine ⟨?_, fun i hi => hHistory i (h.2 i hi)⟩
    rw [hSessions]
    exact h.1
  | _ => trivial

theorem history_append_ne_nil {log : List (Event Sid)} {i : Sid} (event : Event Sid) (h : history log i ≠ []) :
    history (log ++ [event]) i ≠ [] := by
  rw [history_append]
  exact fun hNone => h (List.append_eq_nil_iff.mp hNone).1

theorem Frame.Stands.addNewSession (h : frame.Stands s) (hOut : id ∉ s.sessions) (hNew : history s.log id = [])
    (oldSession : Option Sid) :
    frame.Stands { s with
      sessions := s.sessions ++ [id]
      owner := Function.update s.owner id true
      stack := .attachedToServer id oldSession :: s.stack
      log := s.log ++ [.attachedToServer id] } := by
  cases frame with
  | cleanup before i next =>
    obtain ⟨⟨rest, hList, hNext, hMissed⟩, hKnown⟩ := h
    refine ⟨⟨rest ++ [id], ?_, fun n hn => ?_, fun hNone j hj => ?_⟩, fun j hj => history_append_ne_nil _ (hKnown j hj)⟩
    · rw [hList]
      rfl
    · obtain ⟨hHead, hFree⟩ := hNext n hn
      refine ⟨by rw [List.head?_append, hHead]; rfl, fun hCalled => ?_⟩
      rcases List.mem_cons.mp hCalled with rfl | hCalled
      · exact hOut (hList ▸ List.mem_cons_of_mem _ (List.mem_of_mem_head? hHead))
      · exact hFree hCalled
    · rcases List.mem_append.mp hj with hj | hj
      · exact hMissed hNone j hj
      · exact fun hBefore => hKnown j hBefore (List.mem_singleton.mp hj ▸ hNew)
  | factories before =>
    refine ⟨fun j hj => ?_, fun j hj => history_append_ne_nil _ (h.2 j hj)⟩
    rcases List.mem_append.mp hj with hj | hj
    · exact h.1 j hj
    · exact fun hBefore => h.2 j hBefore (List.mem_singleton.mp hj ▸ hNew)
  | _ => trivial

/-- A session leaves that `Cleanup` is not at. -/
theorem Frame.Stands.leave (h : frame.Stands s) (hCalls : calls s.stack = id :: calls stack)
    (hAt : frame.called ≠ some id) :
    frame.Stands ({ s with stack := stack }.leave id) := by
  cases frame with
  | cleanup before i next =>
    obtain ⟨⟨rest, hList, hNext, hMissed⟩, hKnown⟩ := h
    have hNe : i ≠ id := fun hSame => hAt (congrArg some hSame)
    refine ⟨⟨rest.erase id, ?_, fun n hn => ?_, fun hNone j hj => hMissed hNone j (List.mem_of_mem_erase hj)⟩, hKnown⟩
    · change s.sessions.erase id = _
      rw [hList, List.erase_cons_tail (by simpa using hNe)]
    · obtain ⟨hHead, hFree⟩ := hNext n hn
      rw [hCalls, List.mem_cons, not_or] at hFree
      obtain ⟨tail, rfl⟩ : ∃ tail, rest = n :: tail := List.head?_eq_some_iff.mp hHead
      refine ⟨?_, hFree.2⟩
      rw [List.erase_cons_tail (by simpa using hFree.1)]
      rfl
  | factories before => exact ⟨fun j hj => h.1 j (List.mem_of_mem_erase hj), h.2⟩
  | _ => trivial

theorem Whole.endSession (h : Whole s) (id : Sid) : Whole (s.endSession id) where
  inv := h.inv.endSession id
  stands frame hFrame := (h.stands frame hFrame).mono rfl (fun _ hi => hi) fun j hj => by
    rw [history_endSession]
    exact hj

theorem Whole.pop (h : Whole s) (hStack : s.stack = frame :: stack) (hFrame : frame.detached = none) :
    Whole { s with stack := stack } where
  inv := h.inv.pop hStack hFrame
  stands frame' hMem := by
    refine (h.stands frame' (hStack ▸ List.mem_cons_of_mem _ hMem)).mono rfl (fun j hj => ?_) fun _ hj => hj
    rw [hStack]
    exact ((List.sublist_cons_self _ _).filterMap _).subset hj

theorem Whole.push (h : Whole s) (id : Sid) : Whole { s with stack := .clientConnectionClosed id :: s.stack } where
  inv := h.inv.push rfl rfl fun hLoops => nomatch hLoops
  stands frame hMem := by
    rcases List.mem_cons.mp hMem with rfl | hMem
    · trivial
    · exact (h.stands frame hMem).mono rfl (fun _ hj => hj) fun _ hj => hj

theorem Whole.addNewSession (h : Whole s) (hNew : history s.log id = []) (oldSession : Option Sid) :
    Whole { s with
      sessions := s.sessions ++ [id]
      owner := Function.update s.owner id true
      stack := .attachedToServer id oldSession :: s.stack
      log := s.log ++ [.attachedToServer id] } where
  inv := h.inv.addNewSession hNew oldSession
  stands frame hFrame := by
    rcases List.mem_cons.mp hFrame with rfl | hFrame
    · trivial
    · exact (h.stands frame hFrame).addNewSession (h.inv.not_mem_of_history hNew) hNew oldSession

/-- `AttachedToServer` fails. -/
theorem Whole.aborts {oldSession : Option Sid} (h : Whole s)
    (hStack : s.stack = .attachedToServer id oldSession :: stack) :
    Whole ({ s with stack := stack }.detach (.abortedStartup id) id) where
  inv := by
    have hDistinct := h.inv.distinct
    rw [hStack, calls_cons rfl, List.nodup_cons] at hDistinct
    refine (h.inv.pop hStack rfl).detach (h.inv.called id ?_) hDistinct.1 rfl rfl fun hLoops => nomatch hLoops
    rw [hStack, calls_cons rfl]
    exact List.mem_cons_self
  stands frame hFrame := by
    rcases List.mem_cons.mp hFrame with rfl | hFrame
    · trivial
    · refine (h.stands frame (hStack ▸ List.mem_cons_of_mem _ hFrame)).mono rfl (fun j hj => ?_)
        fun _ hj => history_append_ne_nil _ hj
      rw [hStack]
      exact hj

/-- A session whose startup is aborted leaves. -/
theorem Whole.leave (h : Whole s) (hStack : s.stack = .abortedStartup id :: stack) :
    Whole ({ s with stack := stack }.leave id) where
  inv := h.inv.leave hStack rfl rfl
  stands frame hFrame := by
    have hDistinct := h.inv.distinct
    rw [hStack, calls_cons rfl, List.nodup_cons] at hDistinct
    refine (h.stands frame (hStack ▸ List.mem_cons_of_mem _ hFrame)).leave ?_ fun hCalled => ?_
    · rw [hStack, calls_cons rfl]
    · exact hDistinct.1 (List.mem_filterMap.mpr ⟨frame, hFrame, hCalled⟩)

/-! ### A step of the server -/

theorem whole_nextLameDuck (h : Inv s) (hStack : s.stack = []) (ids : List Sid) : Whole (s.nextLameDuck ids) := by
  have hNone {frame : Frame Sid} : frame ∉ s.stack := by
    rw [hStack]
    exact List.not_mem_nil
  induction ids with
  | nil =>
    refine ⟨h.congr rfl rfl rfl fun i => ?_, fun frame hFrame => absurd hFrame hNone⟩
    exact (history_append _ _ _).trans (List.append_nil _)
  | cons id ids ih =>
    unfold Server.nextLameDuck
    by_cases hIn : id ∈ s.sessions
    · rw [if_pos hIn]
      have hFree : id ∉ calls s.stack := by
        rw [hStack]
        exact List.not_mem_nil
      refine ⟨Inv.detach (h.congr rfl rfl rfl fun _ => rfl) hIn hFree rfl rfl fun _ => hStack, fun frame hFrame => ?_⟩
      rcases List.mem_cons.mp hFrame with rfl | hFrame
      · trivial
      · exact absurd hFrame hNone
    · rw [if_neg hIn]
      exact ih

theorem following_head (rest : List Sid) (hSessions : s.sessions = id :: rest) : s.following id = rest.head? := by
  unfold Server.following
  rw [hSessions, List.dropWhile_cons_of_neg (by simp), List.tail_cons]

theorem whole_nextCleanup (h : Inv s) (hStack : s.stack = []) {before : List Sid}
    (hKnown : ∀ i ∈ before, history s.log i ≠ []) {next : Option Sid} (hNext : ∀ n ∈ next, s.sessions.head? = some n)
    (hMissed : next = none → ∀ i ∈ s.sessions, i ∉ before) : Whole (s.nextCleanup before next) := by
  have hNone {frame : Frame Sid} : frame ∉ s.stack := by
    rw [hStack]
    exact List.not_mem_nil
  cases next with
  | none =>
    refine ⟨h.push rfl rfl fun _ => hStack, fun frame hFrame => ?_⟩
    rcases List.mem_cons.mp hFrame with rfl | hFrame
    · exact ⟨hMissed rfl, hKnown⟩
    · exact absurd hFrame hNone
  | some n =>
    obtain ⟨rest, hSessions⟩ := List.head?_eq_some_iff.mp (hNext n rfl)
    have hIn : n ∈ s.sessions := hSessions ▸ List.mem_cons_self
    have hFree : n ∉ calls s.stack := by
      rw [hStack]
      exact List.not_mem_nil
    have hNodup := h.nodup
    rw [hSessions, List.nodup_cons] at hNodup
    refine ⟨h.detach hIn hFree rfl rfl fun _ => hStack, fun frame hFrame => ?_⟩
    rcases List.mem_cons.mp hFrame with rfl | hFrame
    · refine ⟨⟨rest, hSessions, fun m hm => ?_, fun hEnd => ?_⟩, fun i hi => history_append_ne_nil _ (hKnown i hi)⟩
      · rw [following_head rest hSessions] at hm
        refine ⟨hm, fun hCalled => ?_⟩
        change m ∈ n :: calls s.stack at hCalled
        rw [hStack] at hCalled
        obtain rfl := List.mem_singleton.mp hCalled
        exact hNodup.1 (List.mem_of_mem_head? hm)
      · rw [following_head rest hSessions, List.head?_eq_none_iff] at hEnd
        rw [hEnd]
        exact fun i hi => absurd hi List.not_mem_nil
    · exact absurd hFrame hNone

theorem Inv.stack_eq_nil (h : Inv s) (hStack : s.stack = frame :: stack) (hLoops : frame.loops = true) :
    stack = [] := by
  have hGrounded := h.grounded
  rw [hStack] at hGrounded
  exact hGrounded.1 hLoops

theorem Inv.known (h : Inv s) (hIn : id ∈ s.sessions) : history s.log id ≠ [] :=
  fun hNew => h.not_mem_of_history hNew hIn

/-- The callback of a session that `Cleanup` is at returns. -/
theorem Whole.nextCleanup {before : List Sid} {next : Option Sid} (h : Whole s)
    (hStack : s.stack = .cleanup before id next :: stack) :
    Whole ({ { s with stack := stack }.leave id with
      lameDuckSessions := s.lameDuckSessions ++ [id] }.nextCleanup before next) := by
  have hStands := h.stands (.cleanup before id next) (hStack ▸ List.mem_cons_self)
  obtain ⟨⟨rest, hList, hNext, hMissed⟩, hKnown⟩ := hStands
  have hInv : Inv { { s with stack := stack }.leave id with lameDuckSessions := s.lameDuckSessions ++ [id] } :=
    (h.inv.leave hStack rfl rfl).congr rfl rfl rfl fun _ => rfl
  have hLeft : s.sessions.erase id = rest := by
    rw [hList, List.erase_cons_head]
  refine whole_nextCleanup hInv (h.inv.stack_eq_nil hStack rfl) hKnown (fun n hn => ?_) fun hEnd i hi => ?_
  · change (s.sessions.erase id).head? = some n
    rw [hLeft]
    exact (hNext n hn).1
  · change i ∈ s.sessions.erase id at hi
    rw [hLeft] at hi
    exact hMissed hEnd i hi

theorem Whole.returns (h : Whole s) (ret : Bool) : Whole (s.step (.returns ret)) := by
  unfold Server.step
  rcases hStack : s.stack with _ | ⟨frame, stack⟩
  · exact h
  cases frame with
  | attachedToServer id oldSession =>
    cases ret with
    | false => exact h.aborts hStack
    | true =>
      cases oldSession with
      | none => exact h.pop hStack rfl
      | some old => exact (h.pop hStack rfl).endSession old
  | abortedStartup id => exact h.leave hStack
  | lameDuck id => exact whole_nextLameDuck (h.inv.leave hStack rfl rfl) (h.inv.stack_eq_nil hStack rfl) _
  | cleanup before id next => exact h.nextCleanup hStack
  | factories before =>
    refine ⟨(h.inv.pop hStack rfl).congr rfl rfl rfl fun _ => rfl, fun frame hFrame => ?_⟩
    change frame ∈ stack at hFrame
    rw [h.inv.stack_eq_nil hStack rfl] at hFrame
    cases hFrame
  | clientConnectionClosed id =>
    cases ret with
    | false => exact h.pop hStack rfl
    | true => exact (h.pop hStack rfl).endSession id

theorem Whole.step (h : Whole s) (action : Action Sid) : Whole (s.step action) := by
  cases action with
  | addNewSession id oldSession =>
    dsimp only [Server.step]
    by_cases hNew : history s.log id = []
    · rw [if_pos hNew]
      exact h.addNewSession hNew oldSession
    · rw [if_neg hNew]
      exact h
  | endSession id => exact h.endSession id
  | disconnectSession id => exact h.push id
  | clearLameDucks =>
    dsimp only [Server.step]
    by_cases hStack : s.stack = []
    · rw [if_pos hStack]
      exact whole_nextLameDuck h.inv hStack _
    · rw [if_neg hStack]
      exact h
  | cleanup =>
    dsimp only [Server.step]
    by_cases hStack : s.stack = []
    · rw [if_pos hStack]
      refine whole_nextCleanup h.inv hStack (fun i hi => h.inv.known hi) (fun n hn => hn) fun hNone i hi => ?_
      rw [List.head?_eq_none_iff.mp hNone] at hi
      cases hi
    · rw [if_neg hStack]
      exact h
  | returns ret => exact h.returns ret

theorem whole_start : Whole (start : Server Sid) :=
  ⟨inv_start, fun _ hFrame => (nomatch hFrame)⟩

theorem whole_foldl (actions : List (Action Sid)) (h : Whole s) : Whole (actions.foldl Server.step s) := by
  induction actions generalizing s with
  | nil => exact h
  | cons action actions ih => exact ih (h.step action)

/-! ### A session that has left -/

/-- What a step does with a session that it does not add. -/
structure Follows (s s' : Server Sid) : Prop where
  log : s.log <+: s'.log
  sessions : ∀ i ∈ s'.sessions, i ∈ s.sessions ∨ history s.log i = []

theorem follows_of_subset {s' : Server Sid} (hLog : s.log <+: s'.log) (hSessions : s'.sessions ⊆ s.sessions) :
    Follows s s' :=
  ⟨hLog, fun _ hi => .inl (hSessions hi)⟩

theorem follows_nextLameDuck (s : Server Sid) (ids : List Sid) : Follows s (s.nextLameDuck ids) := by
  induction ids with
  | nil => exact follows_of_subset (List.prefix_append _ _) (List.Subset.refl _)
  | cons id ids ih =>
    unfold Server.nextLameDuck
    by_cases hIn : id ∈ s.sessions
    · rw [if_pos hIn]
      exact follows_of_subset (List.prefix_append _ _) (List.Subset.refl _)
    · rw [if_neg hIn]
      exact ih

theorem follows_nextCleanup (s : Server Sid) (before : List Sid) (next : Option Sid) :
    Follows s (s.nextCleanup before next) := by
  cases next with
  | none => exact follows_of_subset (List.prefix_refl _) (List.Subset.refl _)
  | some id => exact follows_of_subset (List.prefix_append _ _) (List.Subset.refl _)

/-- A session leaves before the step goes on. -/
theorem Follows.of_leave {s' t : Server Sid} (h : Follows t s') (hLog : t.log = s.log)
    (hSessions : t.sessions = s.sessions.erase id) : Follows s s' := by
  refine ⟨hLog ▸ h.log, fun i hi => ?_⟩
  rcases h.sessions i hi with hIn | hNew
  · exact .inl (List.mem_of_mem_erase (hSessions ▸ hIn))
  · exact .inr (hLog ▸ hNew)

theorem follows_step (s : Server Sid) (action : Action Sid) : Follows s (s.step action) := by
  have hSame : Follows s s := follows_of_subset (List.prefix_refl _) (List.Subset.refl _)
  cases action with
  | addNewSession id oldSession =>
    dsimp only [Server.step]
    by_cases hNew : history s.log id = []
    · rw [if_pos hNew]
      refine ⟨List.prefix_append _ _, fun i hi => ?_⟩
      rcases List.mem_append.mp hi with hi | hi
      · exact .inl hi
      · exact .inr (List.mem_singleton.mp hi ▸ hNew)
    · rw [if_neg hNew]
      exact hSame
  | endSession id => exact follows_of_subset (List.prefix_append _ _) (List.Subset.refl _)
  | disconnectSession id => exact follows_of_subset (List.prefix_refl _) (List.Subset.refl _)
  | clearLameDucks =>
    dsimp only [Server.step]
    by_cases hStack : s.stack = []
    · rw [if_pos hStack]
      exact follows_nextLameDuck s _
    · rw [if_neg hStack]
      exact hSame
  | cleanup =>
    dsimp only [Server.step]
    by_cases hStack : s.stack = []
    · rw [if_pos hStack]
      exact follows_nextCleanup s _ _
    · rw [if_neg hStack]
      exact hSame
  | returns ret =>
    unfold Server.step
    rcases hStack : s.stack with _ | ⟨frame, stack⟩
    · exact hSame
    cases frame with
    | attachedToServer id oldSession =>
      cases ret with
      | false => exact follows_of_subset (List.prefix_append _ _) (List.Subset.refl _)
      | true =>
        cases oldSession with
        | none => exact follows_of_subset (List.prefix_refl _) (List.Subset.refl _)
        | some old => exact follows_of_subset (List.prefix_append _ _) (List.Subset.refl _)
    | abortedStartup id => exact follows_of_subset (List.prefix_refl _) List.erase_subset
    | lameDuck id => exact (follows_nextLameDuck _ _).of_leave rfl rfl
    | cleanup before id next => exact (follows_nextCleanup _ _ _).of_leave rfl rfl
    | factories before => exact follows_of_subset (List.prefix_refl _) (List.Subset.refl _)
    | clientConnectionClosed id =>
      cases ret with
      | false => exact follows_of_subset (List.prefix_refl _) (List.Subset.refl _)
      | true => exact follows_of_subset (List.prefix_append _ _) (List.Subset.refl _)

theorem history_ne_nil_mono {log log' : List (Event Sid)} (h : log <+: log') (hKnown : history log id ≠ []) :
    history log' id ≠ [] := by
  obtain ⟨more, rfl⟩ := h
  unfold history at hKnown ⊢
  rw [List.filter_append]
  exact fun hNone => hKnown (List.append_eq_nil_iff.mp hNone).1

/-- A session that was added and is not in the table does not come back. -/
theorem stays_out (actions : List (Action Sid)) (hKnown : history s.log id ≠ []) (hOut : id ∉ s.sessions) :
    id ∉ (actions.foldl Server.step s).sessions := by
  induction actions generalizing s with
  | nil => exact hOut
  | cons action actions ih =>
    have hFollows := follows_step s action
    refine ih (history_ne_nil_mono hFollows.log hKnown) fun hIn => ?_
    rcases hFollows.sessions id hIn with hBefore | hNew
    · exact hOut hBefore
    · exact hKnown hNew

/-! ### Sessions that are asked to end -/

/-- `EndSession` has been called for a session that was added. -/
def Ends (log : List (Event Sid)) (id : Sid) : Prop :=
  ∃ earlier more, log = earlier ++ .endSession id :: more ∧ .attachedToServer id ∈ earlier

/-- The sessions that `Cleanup` found when it began -/
def Frame.found : Frame Sid → Option (List Sid)
  | .cleanup before _ _ | .factories before => some before
  | _ => none

/-- The session was added while `Cleanup` runs. -/
def Late (s : Server Sid) (id : Sid) : Prop :=
  id ∈ s.sessions ∧ ∃ before ∈ s.stack.filterMap Frame.found, id ∉ before

/-- The session that the step asks `AddLameDuckSession` for. -/
def Server.requests (s : Server Sid) : Action Sid → Option Sid
  | .endSession id => some id
  | .returns true =>
    match s.stack with
    | .attachedToServer _ oldSession :: _ => oldSession
    | .clientConnectionClosed id :: _ => some id
    | _ => none
  | _ => none

/-- No session that was added while `Cleanup` runs is asked to end. -/
def Allowed (s : Server Sid) (action : Action Sid) : Prop :=
  ∀ id ∈ s.requests action, ¬Late s id

instance (s : Server Sid) (action : Action Sid) : Decidable (Allowed s action) :=
  inferInstanceAs (Decidable (∀ id ∈ s.requests action,
    ¬(id ∈ s.sessions ∧ ∃ before ∈ s.stack.filterMap Frame.found, id ∉ before)))

/-- A session that is asked to end is in the queue until it is told to detach. `Cleanup` clears the queue, so nothing
that it does not come to may stand there. -/
structure Queued (s : Server Sid) : Prop where
  waits : ∀ id ∈ s.sessions, Ends s.log id → id ∈ s.lameDuckSessions ∨ id ∈ detaching s.stack
  late : ∀ id, Late s id → ¬Ends s.log id
  cleared : s.log.getLast? = some .clearedLameDucks → s.lameDuckSessions = [] ∧ detaching s.stack = []

omit [DecidableEq Sid] in
theorem ends_append {log : List (Event Sid)} {event : Event Sid} (h : Ends (log ++ [event]) id) :
    Ends log id ∨ event = .endSession id ∧ .attachedToServer id ∈ log := by
  obtain ⟨earlier, more, hLog, hAttached⟩ := h
  rcases List.eq_nil_or_concat more with rfl | ⟨more, last, rfl⟩
  · obtain ⟨rfl, hEvent⟩ := List.append_inj' hLog rfl
    exact .inr ⟨(List.cons.inj hEvent).1, hAttached⟩
  · rw [List.concat_eq_append, ← List.cons_append, ← List.append_assoc] at hLog
    exact .inl ⟨earlier, more, (List.append_inj' hLog rfl).1, hAttached⟩

omit [DecidableEq Sid] in
theorem ends_append_of_ne {log : List (Event Sid)} {event : Event Sid} (h : Ends (log ++ [event]) id)
    (hEvent : event ≠ .endSession id) : Ends log id :=
  (ends_append h).resolve_right fun hHere => hEvent hHere.1

theorem Ends.known {log : List (Event Sid)} (h : Ends log id) : history log id ≠ [] := by
  obtain ⟨earlier, more, rfl, hAttached⟩ := h
  exact List.ne_nil_of_mem (List.mem_filter.mpr ⟨List.mem_append_left _ hAttached, decide_eq_true rfl⟩)

omit [DecidableEq Sid] in
theorem queued_start : Queued (start : Server Sid) where
  waits _ h := nomatch h
  late _ h := nomatch h.1
  cleared h := nomatch h

theorem Queued.endSession (h : Queued s) (hAllowed : ¬Late s id) : Queued (s.endSession id) where
  waits i hi hEnds := by
    unfold Server.endSession
    dsimp only
    rcases ends_append hEnds with hEnds | ⟨hEvent, -⟩
    · refine (h.waits i hi hEnds).imp_left fun hQueued => ?_
      split
      · exact List.mem_append_left _ hQueued
      · exact hQueued
    · obtain rfl := Event.endSession.inj hEvent
      by_cases hQueued : id ∈ s.lameDuckSessions
      · rw [if_neg fun hBoth => hBoth.2 hQueued]
        exact .inl hQueued
      · rw [if_pos ⟨hi, hQueued⟩]
        exact .inl (List.mem_append_right _ (List.mem_singleton_self id))
  late i hLate hEnds := by
    rcases ends_append hEnds with hEnds | ⟨hEvent, -⟩
    · exact h.late i hLate hEnds
    · exact hAllowed (Event.endSession.inj hEvent ▸ hLate)
  cleared hLast := by
    rw [Server.endSession, List.getLast?_concat] at hLast
    cases hLast

omit [DecidableEq Sid] in
theorem Late.of_pop (hStack : s.stack = frame :: stack) (h : Late { s with stack := stack } id) : Late s id := by
  obtain ⟨hIn, before, hBefore, hNot⟩ := h
  refine ⟨hIn, before, ?_, hNot⟩
  rw [hStack]
  exact ((List.sublist_cons_self _ _).filterMap _).subset hBefore

omit [DecidableEq Sid] in
theorem Queued.pop (h : Queued s) (hStack : s.stack = frame :: stack) (hFrame : frame.detached = none) :
    Queued { s with stack := stack } := by
  have hDetaching : detaching s.stack = detaching stack := by
    rw [hStack]
    exact List.filterMap_cons_none hFrame
  refine ⟨fun i hi hEnds => ?_, fun i hLate => h.late i (hLate.of_pop hStack), fun hLast => ?_⟩
  · rw [← hDetaching]
    exact h.waits i hi hEnds
  · rw [← hDetaching]
    exact h.cleared hLast

omit [DecidableEq Sid] in
theorem Queued.push (h : Queued s) (id : Sid) : Queued { s with stack := .clientConnectionClosed id :: s.stack } :=
  ⟨h.waits, h.late, h.cleared⟩

theorem Queued.addNewSession (h : Queued s) (hNew : history s.log id = []) (oldSession : Option Sid) :
    Queued { s with
      sessions := s.sessions ++ [id]
      owner := Function.update s.owner id true
      stack := .attachedToServer id oldSession :: s.stack
      log := s.log ++ [.attachedToServer id] } := by
  have hOld {i : Sid} (hi : i ∈ s.sessions ++ [id]) (hEnds : Ends (s.log ++ [.attachedToServer id]) i) :
      i ∈ s.sessions ∧ Ends s.log i := by
    have hEnds := ends_append_of_ne hEnds nofun
    refine ⟨(List.mem_append.mp hi).resolve_right fun hHere => ?_, hEnds⟩
    exact hEnds.known (List.mem_singleton.mp hHere ▸ hNew)
  refine ⟨fun i hi hEnds => ?_, fun i hLate hEnds => ?_, fun hLast => ?_⟩
  · obtain ⟨hi, hEnds⟩ := hOld hi hEnds
    exact h.waits i hi hEnds
  · obtain ⟨hi, hEnds⟩ := hOld hLate.1 hEnds
    exact h.late i ⟨hi, hLate.2⟩ hEnds
  · rw [List.getLast?_concat] at hLast
    cases hLast

omit [DecidableEq Sid] in
theorem not_late_of_nil (hStack : s.stack = []) : ¬Late s id := by
  rintro ⟨-, before, hBefore, -⟩
  rw [hStack] at hBefore
  cases hBefore

omit [DecidableEq Sid] in
/-- `AttachedToServer` fails. -/
theorem Queued.aborts (h : Queued s) (id : Sid) : Queued (s.detach (.abortedStartup id) id) where
  waits i hi hEnds := (h.waits i hi (ends_append_of_ne hEnds nofun)).imp_right (List.mem_cons_of_mem _)
  late i hLate hEnds := h.late i hLate (ends_append_of_ne hEnds nofun)
  cleared hLast := by
    rw [Server.detach, List.getLast?_concat] at hLast
    cases hLast

/-- The session that has been told to detach leaves. -/
theorem Queued.leave (h : Queued s) (hNodup : s.sessions.Nodup) (hStack : s.stack = frame :: stack)
    (hDetached : frame.detached = some id) : Queued ({ s with stack := stack }.leave id) := by
  have hDetaching : detaching s.stack = id :: detaching stack := by rw [hStack, detaching_cons hDetached]
  refine ⟨fun i hi hEnds => ?_, fun i hLate => ?_, fun hLast => ?_⟩
  · obtain ⟨hNe, hi⟩ := hNodup.mem_erase_iff.mp hi
    refine (h.waits i hi hEnds).imp_right fun hIn => ?_
    rw [hDetaching] at hIn
    exact (List.mem_cons.mp hIn).resolve_left hNe
  · exact h.late i (Late.of_pop hStack ⟨List.mem_of_mem_erase hLate.1, hLate.2⟩)
  · have hNone := (h.cleared hLast).2
    rw [hDetaching] at hNone
    cases hNone

theorem queued_nextLameDuck (hStack : s.stack = []) {ids : List Sid}
    (hWaits : ∀ i ∈ s.sessions, Ends s.log i → i ∈ ids) :
    Queued (s.nextLameDuck ids) := by
  induction ids with
  | nil =>
    refine ⟨fun i hi hEnds => ?_, fun i hLate => absurd hLate (not_late_of_nil hStack), fun _ => ⟨rfl, ?_⟩⟩
    · cases hWaits i hi (ends_append_of_ne hEnds nofun)
    · change detaching s.stack = []
      rw [hStack]
      rfl
  | cons id ids ih =>
    unfold Server.nextLameDuck
    by_cases hIn : id ∈ s.sessions
    · rw [if_pos hIn]
      refine ⟨fun i hi hEnds => ?_, fun i hLate => absurd hLate.2 ?_, fun hLast => ?_⟩
      · rcases List.mem_cons.mp (hWaits i hi (ends_append_of_ne hEnds nofun)) with rfl | hQueued
        · exact .inr List.mem_cons_self
        · exact .inl hQueued
      · change ¬∃ before ∈ s.stack.filterMap Frame.found, i ∉ before
        rw [hStack]
        rintro ⟨before, hBefore, -⟩
        cases hBefore
      · rw [Server.detach, List.getLast?_concat] at hLast
        cases hLast
    · rw [if_neg hIn]
      refine ih fun i hi hEnds => (List.mem_cons.mp (hWaits i hi hEnds)).resolve_left ?_
      rintro rfl
      exact hIn hi

theorem queued_nextCleanup (hStack : s.stack = []) {before : List Sid}
    (hWaits : ∀ i ∈ s.sessions, Ends s.log i → i ∈ s.lameDuckSessions)
    (hLate : ∀ i ∈ s.sessions, i ∉ before → ¬Ends s.log i)
    (hCleared : s.log.getLast? = some .clearedLameDucks → s.lameDuckSessions = []) (next : Option Sid) :
    Queued (s.nextCleanup before next) := by
  have hFound (before' : List Sid) (h : before' ∈ before :: s.stack.filterMap Frame.found) : before' = before := by
    rw [hStack] at h
    exact List.mem_singleton.mp h
  cases next with
  | none =>
    refine ⟨fun i hi hEnds => .inl (hWaits i hi hEnds), fun i hi => ?_, fun hLast => ⟨hCleared hLast, ?_⟩⟩
    · obtain ⟨hIn, before', hBefore, hNot⟩ := hi
      exact hLate i hIn (hFound before' hBefore ▸ hNot)
    · change detaching s.stack = []
      rw [hStack]
      rfl
  | some n =>
    refine ⟨fun i hi hEnds => .inl (hWaits i hi (ends_append_of_ne hEnds nofun)), fun i hi hEnds => ?_, fun hLast => ?_⟩
    · obtain ⟨hIn, before', hBefore, hNot⟩ := hi
      exact hLate i hIn (hFound before' hBefore ▸ hNot) (ends_append_of_ne hEnds nofun)
    · rw [Server.nextCleanup, Server.detach, List.getLast?_concat] at hLast
      cases hLast

omit [DecidableEq Sid] in
/-- Nothing waits but in the queue while no call is under way. -/
theorem Queued.waits_of_nil (h : Queued s) (hStack : s.stack = []) :
    ∀ i ∈ s.sessions, Ends s.log i → i ∈ s.lameDuckSessions := by
  intro i hi hEnds
  refine (h.waits i hi hEnds).resolve_right fun hIn => ?_
  rw [hStack] at hIn
  cases hIn

/-- The callback of a session that `Cleanup` is at returns. -/
theorem Queued.nextCleanup {before : List Sid} {next : Option Sid} (h : Queued s) (hWhole : Whole s)
    (hStack : s.stack = .cleanup before id next :: stack) :
    Queued ({ { s with stack := stack }.leave id with
      lameDuckSessions := s.lameDuckSessions ++ [id] }.nextCleanup before next) := by
  have hNil : stack = [] := hWhole.inv.stack_eq_nil hStack rfl
  have hLeft := h.leave hWhole.inv.nodup hStack rfl
  refine queued_nextCleanup hNil (fun i hi hEnds => ?_) (fun i hi hNot hEnds => ?_) (fun hLast => ?_) next
  · exact List.mem_append_left _ (hLeft.waits_of_nil hNil i hi hEnds)
  · refine h.late i ⟨List.mem_of_mem_erase hi, before, ?_, hNot⟩ hEnds
    rw [hStack]
    exact List.mem_cons_self
  · have hNone := (h.cleared hLast).2
    rw [hStack] at hNone
    cases hNone

theorem Queued.factories {before : List Sid} (h : Queued s) (hWhole : Whole s)
    (hStack : s.stack = .factories before :: stack) :
    Queued { s with stack := stack, lameDuckSessions := [] } := by
  have hNil : stack = [] := hWhole.inv.stack_eq_nil hStack rfl
  have hStands : Frame.Stands s (.factories before) := hWhole.stands _ (hStack ▸ List.mem_cons_self)
  refine ⟨fun i hi hEnds => absurd hEnds (h.late i ⟨hi, before, ?_, hStands.1 i hi⟩),
    fun i hLate => absurd hLate (not_late_of_nil hNil), fun _ => ⟨rfl, ?_⟩⟩
  · rw [hStack]
    exact List.mem_cons_self
  · rw [hNil]
    rfl

theorem Queued.returns {ret : Bool} (h : Queued s) (hWhole : Whole s) (hAllowed : Allowed s (.returns ret)) :
    Queued (s.step (.returns ret)) := by
  unfold Allowed Server.requests at hAllowed
  unfold Server.step
  rcases hStack : s.stack with _ | ⟨frame, stack⟩
  · exact h
  rw [hStack] at hAllowed
  cases frame with
  | attachedToServer id oldSession =>
    cases ret with
    | false => exact (h.pop hStack rfl).aborts id
    | true =>
      cases oldSession with
      | none => exact h.pop hStack rfl
      | some old => exact (h.pop hStack rfl).endSession fun hLate => hAllowed old rfl (hLate.of_pop hStack)
  | abortedStartup id => exact h.leave hWhole.inv.nodup hStack rfl
  | lameDuck id =>
    have hNil := hWhole.inv.stack_eq_nil hStack rfl
    exact queued_nextLameDuck hNil ((h.leave hWhole.inv.nodup hStack rfl).waits_of_nil hNil)
  | cleanup before id next => exact h.nextCleanup hWhole hStack
  | factories before => exact h.factories hWhole hStack
  | clientConnectionClosed id =>
    cases ret with
    | false => exact h.pop hStack rfl
    | true => exact (h.pop hStack rfl).endSession fun hLate => hAllowed id rfl (hLate.of_pop hStack)

theorem Queued.step {action : Action Sid} (h : Queued s) (hWhole : Whole s) (hAllowed : Allowed s action) :
    Queued (s.step action) := by
  cases action with
  | addNewSession id oldSession =>
    dsimp only [Server.step]
    by_cases hNew : history s.log id = []
    · rw [if_pos hNew]
      exact h.addNewSession hNew oldSession
    · rw [if_neg hNew]
      exact h
  | endSession id => exact h.endSession (hAllowed id rfl)
  | disconnectSession id => exact h.push id
  | clearLameDucks =>
    dsimp only [Server.step]
    by_cases hStack : s.stack = []
    · rw [if_pos hStack]
      exact queued_nextLameDuck hStack (h.waits_of_nil hStack)
    · rw [if_neg hStack]
      exact h
  | cleanup =>
    dsimp only [Server.step]
    by_cases hStack : s.stack = []
    · rw [if_pos hStack]
      exact queued_nextCleanup hStack (h.waits_of_nil hStack) (fun i hi hNot => absurd hi hNot)
        (fun hLast => (h.cleared hLast).1) _
    · rw [if_neg hStack]
      exact h
  | returns ret => exact h.returns hWhole hAllowed

/-! ### Every run -/

/-- The session is told in order, while it is in the table; and when it has left it has been told to detach, belongs to
no server and is not there later. -/
structure Lives (s later : Server Sid) (id : Sid) : Prop where
  told : history s.log id = [] ∨ history s.log id = [.attachedToServer id] ∨
    history s.log id = [.attachedToServer id, .aboutToDetachFromServer id]
  during : id ∈ calls s.stack → id ∈ s.sessions
  left : .attachedToServer id ∈ s.log → id ∉ s.sessions →
    history s.log id = [.attachedToServer id, .aboutToDetachFromServer id] ∧ s.owner id = false ∧ id ∉ later.sessions

/-- When `ClearLameDucks` is done, a session that was asked to end is out. -/
def Cleared (s : Server Sid) (id : Sid) : Prop :=
  s.log.getLast? = some .clearedLameDucks → Ends s.log id → id ∉ s.sessions

theorem Inv.lives (h : Inv s) (actions : List (Action Sid)) : Lives s (actions.foldl Server.step s) id where
  told := by
    by_cases hIn : id ∈ s.sessions
    · rw [(h.inside id hIn).2]
      refine .inr ?_
      split
      · exact .inr rfl
      · exact .inl rfl
    · exact (h.outside id hIn).2.imp_right .inr
  during := h.called id
  left hAttached hOut := by
    obtain ⟨hOwner, hHistory⟩ := h.outside id hOut
    have hKnown : history s.log id ≠ [] :=
      List.ne_nil_of_mem (List.mem_filter.mpr ⟨hAttached, decide_eq_true rfl⟩)
    exact ⟨hHistory.resolve_left hKnown, hOwner, stays_out actions hKnown hOut⟩

omit [DecidableEq Sid] in
theorem Queued.cleared_of (h : Queued s) : Cleared s id := by
  intro hLast hEnds hIn
  obtain ⟨hQueue, hDetaching⟩ := h.cleared hLast
  have hWaits := h.waits id hIn hEnds
  rw [hQueue, hDetaching] at hWaits
  rcases hWaits with hWaits | hWaits <;> cases hWaits

theorem queued_foldl {actions : List (Action Sid)} (hAllowed : AllSteps Allowed Server.step actions start) :
    Queued (actions.foldl Server.step start) :=
  (foldl_keeps (P := fun s => Whole s ∧ Queued s)
    (fun _ action h hStep => ⟨h.1.step action, h.2.step h.1 hStep⟩) hAllowed ⟨whole_start, queued_start⟩).2

/-- The sessions live in order in every run, and if no session that is added while `Cleanup` runs is asked to end
meanwhile, `ClearLameDucks` removes those that were asked to end. -/
theorem lives_and_cleared (actions more : List (Action Sid)) (id : Sid) :
    Lives (actions.foldl Server.step start) ((actions ++ more).foldl Server.step start) id ∧
      (AllSteps Allowed Server.step actions start → Cleared (actions.foldl Server.step start) id) := by
  refine ⟨?_, fun hAllowed => (queued_foldl hAllowed).cleared_of⟩
  rw [List.foldl_append]
  exact (whole_foldl actions whole_start).inv.lives more

/-- Session 2 is kicked by session 1 when that is told to detach. -/
def kicked : List (Action Nat) :=
  [.addNewSession 1 none, .returns true, .addNewSession 2 none, .returns true, .endSession 1, .clearLameDucks,
    .endSession 2, .returns true, .returns true]

theorem lives_and_cleared_kicked :
    Lives (kicked.foldl Server.step start) (kicked.foldl Server.step start) 2 ∧
      2 ∉ (kicked.foldl Server.step start).sessions := by
  obtain ⟨hLives, hCleared⟩ := lives_and_cleared kicked [] 2
  refine ⟨hLives, hCleared (by decide) rfl ⟨[.attachedToServer 1, .attachedToServer 2, .endSession 1,
    .aboutToDetachFromServer 1], [.aboutToDetachFromServer 2, .clearedLameDucks], rfl, by decide⟩⟩

/-- `Cleanup` is past session 1 when that adds session 2 and asks it to end. -/
def missed : List (Action Nat) :=
  [.addNewSession 1 none, .returns true, .cleanup, .addNewSession 2 none, .returns true, .endSession 2, .returns true,
    .returns true, .clearLameDucks]

/-- The request is forgotten, and the session is still there after `ClearLameDucks`. -/
theorem not_cleared_missed :
    ¬∀ (actions more : List (Action Nat)) (id : Nat),
      Lives (actions.foldl Server.step start) ((actions ++ more).foldl Server.step start) id ∧
        Cleared (actions.foldl Server.step start) id := by
  intro hAll
  have hOut := (hAll missed [] 2).2 rfl
    ⟨[.attachedToServer 1, .aboutToDetachFromServer 1, .attachedToServer 2], [.clearedLameDucks], rfl, by decide⟩
  exact hOut (by decide)

end BeShare.Muscle.Reflect.Lifecycle
