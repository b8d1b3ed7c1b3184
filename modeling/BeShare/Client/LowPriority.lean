import BeShare.Lib.Runs
import Mathlib.Algebra.Group.Nat.Defs
import Mathlib.Algebra.Ring.Int.Defs
import Mathlib.Data.List.Induction

/-!
The low-priority messages of `ShareNetClient`, whatever they say: they wait in a queue, and go to the network thread in
chunks. The next chunk is sent when the thread has notified the client that its output queues are drained. Memory is
always there.
-/

namespace BeShare.Client.LowPriority

open BeShare.Lib

/-- A `MessageRef`, with what the client reads of its `Message`. A flattened `Message` has a header of 12 bytes, and an
address space of 32 bits has no room for one of 2 GB. -/
structure MessageRef where
  number : Nat
  flattenedSize : Nat
  header : 12 ≤ flattenedSize
  fits : flattenedSize < 2 ^ 31
deriving DecidableEq

/-- The `BMessageTransceiverThread` of a connection: the messages that were given to it, each with the priority that the
client was asked to send it with, and the number of notifications that it owes. -/
structure MessageTransceiverThread where
  given : List (MessageRef × Bool) := []
  owed : Nat := 0
deriving DecidableEq

namespace MessageTransceiverThread

def sendMessageToSessions (mtt : MessageTransceiverThread) (msg : MessageRef) (highPriority : Bool) :
    MessageTransceiverThread :=
  { mtt with given := mtt.given ++ [(msg, highPriority)] }

/-- `RequestOutputQueuesDrainedNotification`; it only fails without memory. -/
def requestOutputQueuesDrainedNotification (mtt : MessageTransceiverThread) : MessageTransceiverThread × Bool :=
  ({ mtt with owed := mtt.owed + 1 }, true)

/-- The low-priority messages that were given to the thread. -/
def lowPriority (mtt : MessageTransceiverThread) : List MessageRef :=
  (mtt.given.filter fun entry => !entry.2).map Prod.fst

end MessageTransceiverThread

/-- `ShareNetClient`, as far as its low-priority messages go. -/
structure ShareNetClient where
  mtt : Option MessageTransceiverThread := none
  lowPriorityMessages : List MessageRef := []
  sendingLowPriorityMessages : Bool := false
deriving DecidableEq

namespace ShareNetClient

abbrev LOW_PRIORITY_CHUNK_SIZE : Nat := 4 * 1024

/-- The loop of `CheckSendMoreLowPriorityMessages`: what is left in the queue, `numBytesSent` and the thread. -/
def sendChunk (mtt : MessageTransceiverThread) (numBytesSent : Nat) :
    List MessageRef → List MessageRef × Nat × MessageTransceiverThread
  | [] => ([], numBytesSent, mtt)
  | temp :: rest =>
    if numBytesSent < LOW_PRIORITY_CHUNK_SIZE then
      sendChunk (mtt.sendMessageToSessions temp false) ((numBytesSent + temp.flattenedSize) % 2 ^ 32) rest
    else (temp :: rest, numBytesSent, mtt)

/-- `CheckSendMoreLowPriorityMessages`. -/
def checkSendMoreLowPriorityMessages (c : ShareNetClient) : ShareNetClient :=
  match c.mtt, c.sendingLowPriorityMessages with
  | some mtt, false =>
    let (rest, numBytesSent, mtt) := sendChunk mtt 0 c.lowPriorityMessages
    if numBytesSent > 0 then
      let (mtt, status) := mtt.requestOutputQueuesDrainedNotification
      { mtt := some mtt, lowPriorityMessages := rest, sendingLowPriorityMessages := status }
    else { mtt := some mtt, lowPriorityMessages := rest, sendingLowPriorityMessages := false }
  | _, _ => c

/-- `SendMessageToSessions`. -/
def sendMessageToSessions (c : ShareNetClient) (msg : MessageRef) (highPriority : Bool) : ShareNetClient :=
  match c.mtt with
  | some mtt =>
    if highPriority then { c with mtt := some (mtt.sendMessageToSessions msg true) }
    else checkSendMoreLowPriorityMessages { c with lowPriorityMessages := c.lowPriorityMessages ++ [msg] }
  | none => c

/-- `DisconnectFromServer`. -/
def disconnectFromServer (_c : ShareNetClient) : ShareNetClient :=
  { mtt := none, lowPriorityMessages := [], sendingLowPriorityMessages := false }

/-- `ConnectToServer`; the thread may not start. -/
def connectToServer (c : ShareNetClient) (starts : Bool) : ShareNetClient :=
  let c := c.disconnectFromServer
  if starts then { c with mtt := some {} } else c

/-- `MTT_EVENT_OUTPUT_QUEUES_DRAINED`, which comes from a thread that owes it. -/
def outputQueuesDrained (c : ShareNetClient) : Option ShareNetClient :=
  match c.mtt with
  | some { given, owed := owed + 1 } =>
    some (checkSendMoreLowPriorityMessages
      { c with mtt := some { given, owed }, sendingLowPriorityMessages := false })
  | _ => none

/-- `RemoveFileSharing`, which asks the server to remove the files. -/
def removeFileSharing (c : ShareNetClient) (removeNodes : MessageRef) : ShareNetClient :=
  if c.mtt.isSome then { c with lowPriorityMessages := [] }.sendMessageToSessions removeNodes true
  else c

/-- What happens to the client. -/
inductive Event where
  | connect (starts : Bool)
  | send (msg : MessageRef) (highPriority : Bool)
  | outputQueuesDrained
  | disconnect
  | removeFileSharing (removeNodes : MessageRef)

def step (c : ShareNetClient) : Event → Option ShareNetClient
  | .connect starts => some (c.connectToServer starts)
  | .send msg highPriority => some (c.sendMessageToSessions msg highPriority)
  | .outputQueuesDrained => c.outputQueuesDrained
  | .disconnect => some c.disconnectFromServer
  | .removeFileSharing removeNodes => some (c.removeFileSharing removeNodes)

/-- A run from the start of the client. -/
def run (events : List Event) : Option ShareNetClient := events.foldlM step {}

/-- The low-priority messages of a connection after one more event. -/
def askedNext (calls : List MessageRef) : Event → List MessageRef
  | .connect _ | .disconnect => []
  | .send msg false => calls ++ [msg]
  | _ => calls

/-- The low-priority messages that the client was asked to send since the last connect or disconnect. -/
def asked (events : List Event) : List MessageRef := events.foldl askedNext []

/-! ### One chunk -/

/-- The thread after the messages were given to it. -/
def giveAll (mtt : MessageTransceiverThread) (handed : List MessageRef) : MessageTransceiverThread :=
  { mtt with given := mtt.given ++ handed.map fun msg => (msg, false) }

theorem giveAll_lowPriority (mtt : MessageTransceiverThread) (handed : List MessageRef) :
    (giveAll mtt handed).lowPriority = mtt.lowPriority ++ handed := by
  have hAll : (handed.map fun msg => (msg, false)).filter (fun entry => !entry.2) =
      handed.map fun msg => (msg, false) := by
    rw [List.filter_eq_self]
    intro entry hEntry
    obtain ⟨msg, -, rfl⟩ := List.mem_map.mp hEntry
    rfl
  simp only [MessageTransceiverThread.lowPriority, giveAll, List.filter_append, hAll, List.map_append, List.map_map]
  exact congrArg _ (List.map_id _)

/-- A chunk is the first part of the queue. A message stays only behind 4 KB. -/
theorem sendChunk_spec (mtt : MessageTransceiverThread) (queue : List MessageRef) (sent : Nat) (hSent : sent < 2 ^ 32) :
    ∃ handed rest sent', sendChunk mtt sent queue = (rest, sent', giveAll mtt handed) ∧ queue = handed ++ rest ∧
      sent ≤ sent' ∧ (handed = [] → sent' = sent) ∧ (handed ≠ [] → 0 < sent') ∧
      (rest ≠ [] → LOW_PRIORITY_CHUNK_SIZE ≤ sent') := by
  induction queue generalizing mtt sent with
  | nil =>
    refine ⟨[], [], sent, ?_, rfl, Nat.le_refl _, fun _ => rfl, absurd rfl, absurd rfl⟩
    rw [sendChunk, giveAll, List.map_nil, List.append_nil]
  | cons temp rest ih =>
    rw [sendChunk]
    by_cases hRoom : sent < LOW_PRIORITY_CHUNK_SIZE
    · have hSmall : sent < 4096 := hRoom
      have hHeader := temp.header
      have hFits := temp.fits
      have hSum : (sent + temp.flattenedSize) % 2 ^ 32 = sent + temp.flattenedSize := Nat.mod_eq_of_lt (by omega)
      obtain ⟨handed, left, sent', hRun, rfl, hMore, -, -, hLeft⟩ := ih (mtt.sendMessageToSessions temp false)
        (sent + temp.flattenedSize) (by omega)
      rw [if_pos hRoom, hSum, hRun]
      refine ⟨temp :: handed, left, sent', ?_, rfl, by omega, nofun, fun _ => by omega, hLeft⟩
      simp [giveAll, MessageTransceiverThread.sendMessageToSessions]
    · rw [if_neg hRoom]
      refine ⟨[], temp :: rest, sent, ?_, rfl, Nat.le_refl _, fun _ => rfl, absurd rfl, fun _ => by omega⟩
      rw [giveAll, List.map_nil, List.append_nil]

/-- A client that does not wait for a notification gives the thread a chunk, and waits for a notification then if it had
any messages. -/
theorem checkSendMore_spec (mtt : MessageTransceiverThread) (queue : List MessageRef) :
    ∃ handed rest, queue = handed ++ rest ∧ (queue ≠ [] → handed ≠ []) ∧
      checkSendMoreLowPriorityMessages ⟨some mtt, queue, false⟩ =
        if queue = [] then ⟨some mtt, [], false⟩
        else ⟨some { giveAll mtt handed with owed := mtt.owed + 1 }, rest, true⟩ := by
  obtain ⟨handed, rest, sent', hRun, rfl, -, hNone, hSome, hLeft⟩ := sendChunk_spec mtt queue 0 (by decide)
  refine ⟨handed, rest, rfl, fun hQueue hHanded => ?_, ?_⟩
  · have hZero := hNone hHanded
    have hMany := hLeft fun hRest => hQueue (by rw [hHanded, hRest]; rfl)
    simp only [LOW_PRIORITY_CHUNK_SIZE] at hMany
    omega
  · simp only [checkSendMoreLowPriorityMessages, hRun]
    by_cases hHanded : handed = []
    · have hZero := hNone hHanded
      have hRest : rest = [] := by
        by_contra hRest
        have hMany := hLeft hRest
        simp only [LOW_PRIORITY_CHUNK_SIZE] at hMany
        omega
      subst hHanded hRest hZero
      simp [giveAll]
    · have hQueue : ¬handed ++ rest = [] := fun hNil => hHanded (List.append_eq_nil_iff.mp hNil).1
      rw [if_pos (hSome hHanded), if_neg hQueue]
      rfl

/-! ### Runs -/

/-- The messages of the connection `calls` are in the thread and in the queue, in this order. If the files were removed,
some may be gone. -/
structure Accounted (c : ShareNetClient) (calls : List MessageRef) (removed : Bool) : Prop where
  apart : c.mtt = none → c.lowPriorityMessages = [] ∧ c.sendingLowPriorityMessages = false
  owed : ∀ mtt, c.mtt = some mtt → mtt.owed = if c.sendingLowPriorityMessages then 1 else 0
  waits : c.lowPriorityMessages ≠ [] → c.sendingLowPriorityMessages = true
  inOrder : ∀ mtt, c.mtt = some mtt → (mtt.lowPriority ++ c.lowPriorityMessages).Sublist calls
  all : removed = false → ∀ mtt, c.mtt = some mtt → mtt.lowPriority ++ c.lowPriorityMessages = calls

variable {c c' : ShareNetClient} {calls : List MessageRef} {removed : Bool}

theorem accounted_disconnected (calls : List MessageRef) (removed : Bool) :
    Accounted ⟨none, [], false⟩ calls removed :=
  ⟨fun _ => ⟨rfl, rfl⟩, nofun, absurd rfl, nofun, fun _ => nofun⟩

/-- The next chunk. -/
theorem accounted_checkSendMore {mtt : MessageTransceiverThread} {queue : List MessageRef} (hOwed : mtt.owed = 0)
    (hInOrder : (mtt.lowPriority ++ queue).Sublist calls)
    (hAll : removed = false → mtt.lowPriority ++ queue = calls) :
    Accounted (checkSendMoreLowPriorityMessages ⟨some mtt, queue, false⟩) calls removed := by
  obtain ⟨handed, rest, rfl, -, hCheck⟩ := checkSendMore_spec mtt queue
  rw [hCheck]
  by_cases hQueue : handed ++ rest = []
  · rw [if_pos hQueue]
    rw [hQueue] at hInOrder hAll
    refine ⟨nofun, fun _ h => ?_, absurd rfl, fun _ h => ?_, fun hRemoved _ h => ?_⟩
    · cases h
      exact hOwed
    · cases h
      exact hInOrder
    · cases h
      exact hAll hRemoved
  · rw [if_neg hQueue]
    have hGiven : MessageTransceiverThread.lowPriority { giveAll mtt handed with owed := mtt.owed + 1 } ++ rest =
        mtt.lowPriority ++ (handed ++ rest) := by
      rw [← List.append_assoc]
      exact congrArg (· ++ rest) (giveAll_lowPriority mtt handed)
    refine ⟨nofun, fun _ h => ?_, fun _ => rfl, fun _ h => ?_, fun hRemoved _ h => ?_⟩
    · cases h
      exact congrArg (· + 1) hOwed
    · cases h
      rw [hGiven]
      exact hInOrder
    · cases h
      rw [hGiven]
      exact hAll hRemoved

theorem lowPriority_sendHigh (mtt : MessageTransceiverThread) (msg : MessageRef) :
    (mtt.sendMessageToSessions msg true).lowPriority = mtt.lowPriority := by
  simp [MessageTransceiverThread.sendMessageToSessions, MessageTransceiverThread.lowPriority]

theorem Accounted.sendHigh (h : Accounted c calls removed) (msg : MessageRef) :
    Accounted (c.sendMessageToSessions msg true) calls removed := by
  obtain ⟨mtt, queue, sending⟩ := c
  cases mtt with
  | none => exact h
  | some mtt =>
    refine ⟨nofun, fun _ hSome => ?_, h.waits, fun _ hSome => ?_, fun hRemoved _ hSome => ?_⟩
    · cases hSome
      exact h.owed mtt rfl
    · cases hSome
      rw [lowPriority_sendHigh]
      exact h.inOrder mtt rfl
    · cases hSome
      rw [lowPriority_sendHigh]
      exact h.all hRemoved mtt rfl

theorem Accounted.sendLow (h : Accounted c calls removed) (msg : MessageRef) :
    Accounted (c.sendMessageToSessions msg false) (calls ++ [msg]) removed := by
  obtain ⟨mtt, queue, sending⟩ := c
  cases mtt with
  | none => exact ⟨h.apart, nofun, h.waits, nofun, fun _ => nofun⟩
  | some mtt =>
    have hInOrder : (mtt.lowPriority ++ (queue ++ [msg])).Sublist (calls ++ [msg]) := by
      rw [← List.append_assoc]
      exact (h.inOrder mtt rfl).append (List.Sublist.refl _)
    have hAll : removed = false → mtt.lowPriority ++ (queue ++ [msg]) = calls ++ [msg] := by
      intro hRemoved
      rw [← List.append_assoc, h.all hRemoved mtt rfl]
    cases sending with
    | false => exact accounted_checkSendMore (h.owed mtt rfl) hInOrder hAll
    | true =>
      refine ⟨nofun, h.owed, fun _ => rfl, fun _ hSome => ?_, fun hRemoved _ hSome => ?_⟩
      · cases hSome
        exact hInOrder
      · cases hSome
        exact hAll hRemoved

/-- Whether the event is the removal of the files. -/
def Event.isRemoval : Event → Bool
  | .removeFileSharing _ => true
  | _ => false

theorem Accounted.step (h : Accounted c calls removed) {event : Event} (hStep : c.step event = some c') :
    Accounted c' (askedNext calls event) (removed || event.isRemoval) := by
  cases event with
  | connect starts =>
    cases hStep
    cases starts with
    | false => exact accounted_disconnected [] _
    | true =>
      refine ⟨nofun, fun _ hSome => ?_, absurd rfl, fun _ hSome => ?_, fun _ _ hSome => ?_⟩ <;> cases hSome
      · rfl
      · exact List.Sublist.refl _
      · rfl
  | send msg highPriority =>
    cases hStep
    show Accounted _ _ (removed || false)
    rw [Bool.or_false]
    cases highPriority with
    | true => exact h.sendHigh msg
    | false => exact h.sendLow msg
  | outputQueuesDrained =>
    obtain ⟨mtt, queue, sending⟩ := c
    show Accounted _ _ (removed || false)
    rw [Bool.or_false]
    rcases mtt with _ | ⟨given, _ | owed⟩
    · cases hStep
    · cases hStep
    · cases hStep
      have hOwed : owed + 1 = if sending then 1 else 0 := h.owed _ rfl
      have hNow : owed = 0 := by
        split at hOwed <;> omega
      exact accounted_checkSendMore hNow (h.inOrder ⟨given, owed + 1⟩ rfl) fun hRemoved =>
        h.all hRemoved ⟨given, owed + 1⟩ rfl
  | disconnect =>
    cases hStep
    exact accounted_disconnected [] _
  | removeFileSharing removeNodes =>
    cases hStep
    show Accounted _ _ (removed || true)
    rw [Bool.or_true]
    obtain ⟨mtt, queue, sending⟩ := c
    cases mtt with
    | none => exact ⟨h.apart, nofun, h.waits, nofun, nofun⟩
    | some mtt =>
      have hCleared : Accounted ⟨some mtt, [], sending⟩ calls true := by
        refine ⟨nofun, h.owed, absurd rfl, fun _ hSome => ?_, nofun⟩
        cases hSome
        rw [List.append_nil]
        exact (List.sublist_append_left ..).trans (h.inOrder mtt rfl)
      exact hCleared.sendHigh removeNodes

theorem asked_append (events : List Event) (event : Event) :
    asked (events ++ [event]) = askedNext (asked events) event := by
  rw [asked, asked, List.foldl_append]
  rfl

theorem run_accounted {events : List Event} (h : run events = some c) :
    Accounted c (asked events) (events.any Event.isRemoval) := by
  induction events using List.reverseRecOn generalizing c with
  | nil =>
    cases h
    exact accounted_disconnected [] _
  | append_singleton events event ih =>
    rw [run, List.foldlM_append] at h
    obtain ⟨c₁, hRun, hStep⟩ := Option.bind_eq_some_iff.mp h
    obtain ⟨c₂, hStep, hEnd⟩ := foldlM_cons_eq_some.mp hStep
    cases hEnd
    rw [asked_append, List.any_append, List.any_cons, List.any_nil, Bool.or_false]
    exact (ih hRun).step hStep

/-- In every run: the low-priority messages that the thread of a connection was given come from the calls on this
connection, in their order and at most once each. Unless the files were removed, all other messages wait in the queue,
behind them. While messages wait, the flag is set, which it is if and only if the thread owes a notification. -/
theorem run_lowPriority {events : List Event} {mtt : MessageTransceiverThread} (h : run events = some c)
    (hConnected : c.mtt = some mtt) :
    (mtt.lowPriority ++ c.lowPriorityMessages).Sublist (asked events) ∧
      ((∀ event ∈ events, event.isRemoval = false) → mtt.lowPriority ++ c.lowPriorityMessages = asked events) ∧
      (c.lowPriorityMessages ≠ [] → c.sendingLowPriorityMessages = true) ∧
      mtt.owed = if c.sendingLowPriorityMessages then 1 else 0 := by
  have hAccounted := run_accounted h
  refine ⟨hAccounted.inOrder mtt hConnected, fun hKept => ?_, hAccounted.waits, hAccounted.owed mtt hConnected⟩
  refine hAccounted.all ?_ mtt hConnected
  rw [List.any_eq_false]
  exact fun event hEvent => by rw [hKept event hEvent]; exact Bool.false_ne_true

/-- A message with the given number of bytes behind its header. -/
def messageOf (number size : Nat) : MessageRef :=
  ⟨number, size % (2 ^ 31 - 12) + 12, Nat.le_add_left .., by omega⟩

/-- The second chunk waits for the notification, and goes behind the high-priority message. -/
theorem run_lowPriority_chunks :
    ∃ c mtt, run [.connect true, .send (messageOf 1 5000) false, .send (messageOf 2 10) false,
        .send (messageOf 3 10) false, .send (messageOf 4 10) true, .outputQueuesDrained] = some c ∧ c.mtt = some mtt ∧
      mtt.given = [(messageOf 1 5000, false), (messageOf 4 10, true), (messageOf 2 10, false),
        (messageOf 3 10, false)] ∧
      ((mtt.lowPriority ++ c.lowPriorityMessages).Sublist [messageOf 1 5000, messageOf 2 10, messageOf 3 10] ∧
        (c.lowPriorityMessages ≠ [] → c.sendingLowPriorityMessages = true)) :=
  ⟨_, _, rfl, rfl, rfl, (@run_lowPriority _ [.connect true, .send (messageOf 1 5000) false,
    .send (messageOf 2 10) false, .send (messageOf 3 10) false, .send (messageOf 4 10) true, .outputQueuesDrained]
    _ rfl rfl).1, (@run_lowPriority _ [.connect true, .send (messageOf 1 5000) false,
    .send (messageOf 2 10) false, .send (messageOf 3 10) false, .send (messageOf 4 10) true, .outputQueuesDrained]
    _ rfl rfl).2.2.1⟩

/-- Each notification lets the first of the waiting messages go, so all have gone after as many notifications as there
are messages at most. -/
theorem Accounted.drains (h : Accounted c calls removed) (hConnected : c.mtt.isSome) :
    ∃ n ≤ c.lowPriorityMessages.length, ∃ c',
      (List.replicate n Event.outputQueuesDrained).foldlM ShareNetClient.step c = some c' ∧ c'.mtt.isSome ∧
        c'.lowPriorityMessages = [] := by
  obtain ⟨mtt, queue, sending⟩ := c
  obtain ⟨⟨given, owed⟩, rfl⟩ := Option.isSome_iff_exists.mp hConnected
  generalize hLength : queue.length = n
  induction n using Nat.strongRecOn generalizing given owed queue sending with
  | ind n ih =>
    by_cases hQueue : queue = []
    · exact ⟨0, Nat.zero_le _, _, rfl, rfl, hQueue⟩
    · have hSending : sending = true := h.waits hQueue
      have hOwed : owed = if sending then 1 else 0 := h.owed _ rfl
      rw [if_pos hSending] at hOwed
      subst hOwed
      obtain ⟨handed, rest, rfl, hHanded, hCheck⟩ := checkSendMore_spec ⟨given, 0⟩ queue
      rw [if_neg hQueue] at hCheck
      have hStep : ShareNetClient.step ⟨some ⟨given, 1⟩, handed ++ rest, sending⟩ .outputQueuesDrained =
          some ⟨some { giveAll ⟨given, 0⟩ handed with owed := 1 }, rest, true⟩ := congrArg some hCheck
      have hShorter : rest.length < n := by
        have hPos := List.length_pos_iff.mpr (hHanded hQueue)
        rw [List.length_append] at hLength
        omega
      have hNext : Accounted _ calls (removed || false) := h.step hStep
      rw [Bool.or_false] at hNext
      obtain ⟨m, hm, c', hRun, hSome, hEmpty⟩ := ih rest.length hShorter _ _ _ _ hNext rfl rfl
      refine ⟨m + 1, by omega, c', ?_, hSome, hEmpty⟩
      rw [List.replicate_succ]
      exact foldlM_cons_eq_some.mpr ⟨_, hStep, hRun⟩

end ShareNetClient

end BeShare.Client.LowPriority
