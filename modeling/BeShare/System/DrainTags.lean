import BeShare.Lib.Runs
import Mathlib.Data.Fintype.Basic
import Mathlib.Tactic.Common

/-!
The notification that output queues have drained. Each request has a tag that its command message holds. The worker
sessions that have output keep the message, and with the last reference to it the tag goes, and tells the supervisor.
-/

namespace BeShare.Muscle.System

/-- A request, by the tag that is made for it, and what is to come back with the reply. -/
structure DrainTag (MessageRef : Type) where
  /-- `_notify` is the supervisor. -/
  notify : Bool
  /-- The reference in the reply. -/
  reply : Option MessageRef
deriving DecidableEq

/-- The commands for the supervisor. -/
inductive Command (Req : Type) where
  | notifyOnOutputDrain (r : Req)
  | sendUserMessage
  | other
deriving DecidableEq

/-- `ThreadWorkerSession` -/
structure WorkerSession (Req : Type) where
  attached : Bool
  /-- `HasBytesToOutput` of the gateway, if there is one. -/
  gateway : Option Bool
  /-- `_drainedNotifiers`, by their tags. -/
  drainedNotifiers : List Req

/-- The internal thread, and what its owner has sent to it and got from it. -/
structure Transceiver (S Req MessageRef : Type) where
  sessions : S → WorkerSession Req
  /-- The tags that there are. -/
  tags : Req → Option (DrainTag MessageRef)
  /-- `_drainTags` -/
  drainTags : Req → Bool
  /-- The calls that have sent their command, and have not returned. They have references of their own. -/
  calling : Req → Bool
  /-- The commands that are on their way to the internal thread. -/
  queue : List (Command Req)
  /-- `msgFromOwner` -/
  msgFromOwner : Option (Command Req)
  /-- The `MTT_EVENT_OUTPUT_QUEUES_DRAINED` messages. -/
  toOwner : List (Req × Option MessageRef)
  /-- What was asked for, and which requests the supervisor has processed. -/
  asked : Req → Option (Option MessageRef)
  processed : Req → Bool
  /-- The matching sessions that had output when the request was processed, and since then neither had none, nor were
  disconnected or detached. -/
  owed : Req → S → Bool

/-- What happens, in the order it does. The sessions that a command goes to are those that match its path then. -/
inductive Event (S Req MessageRef : Type) where
  | request (r : Req) (notifyRef : Option MessageRef)
  | returns (r : Req)
  | command (c : Command Req)
  | nextFromOwner (matching : List S)
  | noneFromOwner
  | attached (s : S) (gateway : Option Bool)
  | outputChanges (s : S) (gateway : Option Bool)
  | doOutput (s : S) (hasBytesToOutput : Bool)
  | clientConnectionClosed (s : S) (gateway : Option Bool)
  | aboutToDetach (s : S)

namespace Transceiver

variable {S Req MessageRef : Type} [DecidableEq S] [DecidableEq Req] [Fintype S]

/-- An internal thread that was just started. -/
def start (S Req MessageRef : Type) : Transceiver S Req MessageRef where
  sessions _ := ⟨false, none, []⟩
  tags _ := none
  drainTags _ := false
  calling _ := false
  queue := []
  msgFromOwner := none
  toOwner := []
  asked _ := none
  processed _ := false
  owed _ _ := false

/-- There is a reference to the tag or to the command message that it is in. -/
def Held (t : Transceiver S Req MessageRef) (r : Req) : Prop :=
  t.calling r = true ∨ .notifyOnOutputDrain r ∈ t.queue ∨ t.msgFromOwner = some (.notifyOnOutputDrain r) ∨
    ∃ s, r ∈ (t.sessions s).drainedNotifiers

instance Held.instDecidable (t : Transceiver S Req MessageRef) (r : Req) : Decidable (t.Held r) :=
  inferInstanceAs (Decidable (t.calling r = true ∨ .notifyOnOutputDrain r ∈ t.queue ∨
    t.msgFromOwner = some (.notifyOnOutputDrain r) ∨ ∃ s, r ∈ (t.sessions s).drainedNotifiers))

/-- `~DrainTag` and `DrainTagIsBeingDeleted`. -/
def deleteTag (t : Transceiver S Req MessageRef) (r : Req) : Transceiver S Req MessageRef :=
  match t.tags r with
  | none => t
  | some tag =>
    let gone := { t with tags := Function.update t.tags r none }
    if tag.notify ∧ t.drainTags r then
      { gone with drainTags := Function.update t.drainTags r false, toOwner := t.toOwner ++ [(r, tag.reply)] }
    else gone

/-- A reference is gone. The last one takes the tag with it. -/
def release (t : Transceiver S Req MessageRef) (r : Req) : Transceiver S Req MessageRef :=
  if t.Held r then t else t.deleteTag r

def setSession (t : Transceiver S Req MessageRef) (s : S) (session : WorkerSession Req) :
    Transceiver S Req MessageRef :=
  { t with sessions := Function.update t.sessions s session }

/-- The session has no output any more, or is disconnected or detached. -/
def forgive (t : Transceiver S Req MessageRef) (s : S) : Transceiver S Req MessageRef :=
  { t with owed := fun r s' => if s' = s then false else t.owed r s' }

/-- `_drainedNotifiers.Clear()`, from the tail. -/
def clearNotifiers (t : Transceiver S Req MessageRef) (s : S) : Transceiver S Req MessageRef :=
  let session := t.sessions s
  session.drainedNotifiers.reverse.foldl release (t.setSession s { session with drainedNotifiers := [] })

/-- What a worker session does with the commands: `MessageReceivedFromSession`. -/
def messageReceivedFromSession (t : Transceiver S Req MessageRef) (c : Command Req) (s : S) :
    Transceiver S Req MessageRef :=
  let session := t.sessions s
  if session.attached = false then t
  else
    match c with
    | .notifyOnOutputDrain r =>
      if session.gateway = some true then
        t.setSession s { session with drainedNotifiers := session.drainedNotifiers ++ [r] }
      else t
    | .sendUserMessage => t.setSession s { session with gateway := session.gateway.map fun _ => true }
    | .other => t

/-- The tag goes into `_drainTags`, and is told whom to notify. -/
def notify (t : Transceiver S Req MessageRef) (r : Req) (tag : DrainTag MessageRef) : Transceiver S Req MessageRef :=
  { t with
    tags := Function.update t.tags r (some { tag with notify := true })
    drainTags := Function.update t.drainTags r true
    processed := Function.update t.processed r true }

/-- The session is a worker session now, and has output pending. -/
def HasOutput (t : Transceiver S Req MessageRef) (s : S) : Prop :=
  (t.sessions s).attached = true ∧ (t.sessions s).gateway = some true

instance HasOutput.instDecidable (t : Transceiver S Req MessageRef) (s : S) : Decidable (t.HasOutput s) :=
  inferInstanceAs (Decidable ((t.sessions s).attached = true ∧ (t.sessions s).gateway = some true))

/-- `MessageReceivedFromOwner` -/
def messageReceivedFromOwner (t : Transceiver S Req MessageRef) (matching : List S) (c : Command Req) :
    Transceiver S Req MessageRef :=
  match c with
  | .notifyOnOutputDrain r =>
    match t.tags r with
    | some tag =>
      let sent := matching.foldl (messageReceivedFromSession · c ·) (t.notify r tag)
      -- Who owes it is said by the state before the command is sent around.
      { sent with owed := fun r' s => if r' = r then decide (s ∈ matching ∧ t.HasOutput s) else t.owed r' s }
    | none => t
  | _ => matching.foldl (messageReceivedFromSession · c ·) t

/-- `msgFromOwner` gets another value, or none. -/
def dropFromOwner (t : Transceiver S Req MessageRef) : Transceiver S Req MessageRef :=
  match t.msgFromOwner with
  | some (.notifyOnOutputDrain r) => { t with msgFromOwner := none }.release r
  | _ => { t with msgFromOwner := none }

def step (t : Transceiver S Req MessageRef) : Event S Req MessageRef → Transceiver S Req MessageRef
  | .request r notifyRef =>
    -- Every request has a tag of its own.
    if t.asked r ≠ none then t
    else
      { t with
        tags := Function.update t.tags r (some ⟨false, notifyRef⟩)
        calling := Function.update t.calling r true
        queue := t.queue ++ [.notifyOnOutputDrain r]
        asked := Function.update t.asked r (some notifyRef) }
  | .returns r => { t with calling := Function.update t.calling r false }.release r
  | .command c =>
    match c with
    | .notifyOnOutputDrain _ => t
    | _ => { t with queue := t.queue ++ [c] }
  | .nextFromOwner matching =>
    match t.queue with
    | [] => t
    | c :: queue =>
      messageReceivedFromOwner { t.dropFromOwner with queue := queue, msgFromOwner := some c } matching c
  | .noneFromOwner => t.dropFromOwner
  | .attached s gateway =>
    if (t.sessions s).attached then t else t.setSession s ⟨true, gateway, (t.sessions s).drainedNotifiers⟩
  | .outputChanges s gateway =>
    let changed := t.setSession s { t.sessions s with gateway }
    if gateway = some true then changed else changed.forgive s
  | .doOutput s hasBytesToOutput =>
    let session := t.sessions s
    let gateway := session.gateway.map fun _ => hasBytesToOutput
    let done := t.setSession s { session with gateway }
    if gateway = some true then done else (done.forgive s).clearNotifiers s
  | .clientConnectionClosed s gateway =>
    let cleared := (t.forgive s).clearNotifiers s
    cleared.setSession s { cleared.sessions s with gateway }
  | .aboutToDetach s =>
    let cleared := (t.forgive s).clearNotifiers s
    cleared.setSession s { cleared.sessions s with attached := false }

end Transceiver

end BeShare.Muscle.System
