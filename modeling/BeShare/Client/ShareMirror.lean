import BeShare.Client.ShareIndex

/-!
The nodes of the shared files on the server. When the queue of low priority is empty they are those of the names in the
index, as long as no file is forgotten whose name another one has, and none is uploaded ahead of a removal of its node.
-/

namespace BeShare.Client

open BeShare.Lib

/-- The nodes of the files on the server after the message -/
def FileMessage.apply (nodes : List (List Char)) : FileMessage → List (List Char)
  | .setData paths => nodes ++ paths
  | .removeData paths => nodes.filter fun path => !paths.contains path
  | .removeAll => []

/-- The nodes of the files on a server that has got the messages -/
def serverNodes (messages : List FileMessage) : List (List Char) := messages.foldl FileMessage.apply []

section

variable {path : List Char} {messages : List FileMessage} {paths : List (List Char)}

theorem serverNodes_append (messages messages' : List FileMessage) :
    serverNodes (messages ++ messages') = messages'.foldl FileMessage.apply (serverNodes messages) :=
  List.foldl_append ..

theorem mem_apply_removeData (nodes : List (List Char)) :
    path ∈ (FileMessage.removeData paths).apply nodes ↔ path ∈ nodes ∧ path ∉ paths := by
  simp [FileMessage.apply]

theorem mem_serverNodes_setData :
    path ∈ serverNodes (messages ++ [.setData paths]) ↔ path ∈ serverNodes messages ∨ path ∈ paths := by
  rw [serverNodes_append]
  exact List.mem_append

theorem mem_serverNodes_removeData :
    path ∈ serverNodes (messages ++ [.removeData paths]) ↔ path ∈ serverNodes messages ∧ path ∉ paths := by
  rw [serverNodes_append]
  exact mem_apply_removeData _

/-- Messages keep a node that was there before them, or make it. -/
theorem mem_foldl_apply (nodes : List (List Char)) :
    path ∈ messages.foldl FileMessage.apply nodes ↔
      path ∈ nodes ∧ path ∈ messages.foldl FileMessage.apply [path] ∨ path ∈ messages.foldl FileMessage.apply [] := by
  induction messages generalizing nodes with
  | nil => simp
  | cons message messages ih =>
    rw [List.foldl_cons, List.foldl_cons, List.foldl_cons, ih, ih (message.apply [path]), ih (message.apply [])]
    cases message with
    | setData paths =>
      simp only [FileMessage.apply, List.mem_append, List.mem_singleton, List.not_mem_nil]
      tauto
    | removeData paths =>
      simp only [mem_apply_removeData, List.mem_singleton, List.not_mem_nil]
      tauto
    | removeAll =>
      simp only [FileMessage.apply, List.not_mem_nil]
      tauto

end

namespace ShareNetClient

variable {net : Transceiver} {files : FileSystem} {c c' c'' : ShareNetClient} {node : NodeRef} {ref : EntryRef}
  {pending : List (List Char)}

/-- The server has the nodes of the names in `_nameToEntry` and no others. -/
def Mirrored (c : ShareNetClient) : Prop :=
  ∀ path, path ∈ serverNodes c.sent ↔ ∃ name ∈ c.nameToEntry, path = c.nodePath name

/-! ### What is on its way -/

/-- What was handed to the thread, and what waits behind it -/
def messages (c : ShareNetClient) : List FileMessage := c.sent ++ c.lowPriorityMessages

/-- The server will have the nodes, with the messages that are on their way, without the removals that are gathered and
with the uploads that are `pending`. -/
structure Ahead (c : ShareNetClient) (pending : List (List Char)) : Prop where
  connected : c.connected = true
  nodes : ∀ path, path ∈ serverNodes c.messages ∧ path ∉ c.nodeRemoveMessage.getD [] ∨ path ∈ pending ↔
    ∃ name ∈ c.nameToEntry, path = c.nodePath name

/-- Nothing but messages changed. -/
structure SameShares (c c' : ShareNetClient) : Prop where
  connected : c'.connected = c.connected
  path : c'.filesNodePath = c.filesNodePath
  names : c'.nameToEntry = c.nameToEntry
  removing : c'.nodeRemoveMessage = c.nodeRemoveMessage
  batches : c'.nodeRemoveBatchCount = c.nodeRemoveBatchCount

theorem sendChunk_messages (numBytesSent : UInt32) (queue sent : List FileMessage) :
    (sendChunk net numBytesSent queue sent).2.2 ++ (sendChunk net numBytesSent queue sent).2.1 = sent ++ queue := by
  induction queue generalizing numBytesSent sent with
  | nil => rfl
  | cons message queue ih =>
    unfold sendChunk
    split
    · rw [ih, List.append_assoc]
      rfl
    · rfl

theorem messages_checkSend (c : ShareNetClient) :
    (c.checkSendMoreLowPriorityMessages net).messages = c.messages ∧
      SameShares c (c.checkSendMoreLowPriorityMessages net) := by
  unfold checkSendMoreLowPriorityMessages
  split
  · exact ⟨sendChunk_messages .., ⟨rfl, rfl, rfl, rfl, rfl⟩⟩
  · exact ⟨rfl, ⟨rfl, rfl, rfl, rfl, rfl⟩⟩

theorem messages_sendLow (hConnected : c.connected = true) (message : FileMessage) :
    (c.sendMessageToSessions net message false).messages = c.messages ++ [message] ∧
      SameShares c (c.sendMessageToSessions net message false) := by
  unfold sendMessageToSessions
  rw [if_pos hConnected, if_neg Bool.false_ne_true]
  obtain ⟨hMessages, hSame⟩ :=
    @messages_checkSend net { c with lowPriorityMessages := c.lowPriorityMessages ++ [message] }
  exact ⟨hMessages.trans (List.append_assoc ..).symm, ⟨hSame.1, hSame.2, hSame.3, hSame.4, hSame.5⟩⟩

theorem nodePath_inj {name name' : List Char} : c.nodePath name = c.nodePath name' ↔ name = name' :=
  List.append_right_inj _

/-! ### Removals -/

/-- If the node is recorded, no other one was counted for its name. -/
def Lonely (c : ShareNetClient) (node : NodeRef) : Prop :=
  ∀ ref, c.nodeToEntry.lookup node = some ref → ∀ r, c.nameToEntry.lookup ref.name = some r → r.count ≤ 1

theorem mem_names_unref {fileName : List Char} (h : ∀ r, c.nameToEntry.lookup fileName = some r → r.count ≤ 1)
    (name : List Char) : name ∈ (c.unrefFilename fileName).nameToEntry ↔ name ≠ fileName ∧ name ∈ c.nameToEntry := by
  unfold unrefFilename
  split
  next r hEntry =>
    have hCount := h r hEntry
    rw [if_pos (by omega)]
    exact AList.mem_erase ..
  next hNone =>
    refine ⟨fun hIn => ⟨?_, hIn⟩, And.right⟩
    rintro rfl
    exact AList.lookup_eq_none.mp hNone hIn

theorem sameShares_unref (c : ShareNetClient) (fileName : List Char) :
    (c.unrefFilename fileName).messages = c.messages ∧ (c.unrefFilename fileName).connected = c.connected ∧
      (c.unrefFilename fileName).filesNodePath = c.filesNodePath ∧
      (c.unrefFilename fileName).nodeRemoveMessage = c.nodeRemoveMessage ∧
      (c.unrefFilename fileName).nodeRemoveBatchCount = c.nodeRemoveBatchCount := by
  unfold unrefFilename
  split
  · split <;> exact ⟨rfl, rfl, rfl, rfl, rfl⟩
  · exact ⟨rfl, rfl, rfl, rfl, rfl⟩

/-- In so many batches, the removals are gathered, outside of them there are none. -/
structure Removing (batches : Nat) (c : ShareNetClient) : Prop where
  ahead : c.Ahead []
  count : c.nodeRemoveBatchCount = batches
  gathered : batches = 0 → c.nodeRemoveMessage = none

variable {batches : Nat}

theorem Ahead.nodes_nil (h : c.Ahead []) (path : List Char) :
    path ∈ serverNodes c.messages ∧ path ∉ c.nodeRemoveMessage.getD [] ↔
      ∃ name ∈ c.nameToEntry, path = c.nodePath name := by
  rw [← h.nodes path, or_iff_left List.not_mem_nil]

theorem ahead_nil_of_nodes (hConnected : c.connected = true)
    (hNodes : ∀ path, path ∈ serverNodes c.messages ∧ path ∉ c.nodeRemoveMessage.getD [] ↔
      ∃ name ∈ c.nameToEntry, path = c.nodePath name) : c.Ahead [] :=
  ⟨hConnected, fun path => (or_iff_left List.not_mem_nil).trans (hNodes path)⟩

/-- The gathered removals are sent. -/
theorem removing_send {keys : List (List Char)} (hConnected : c.connected = true)
    (hNodes : ∀ path, path ∈ serverNodes c.messages ∧ path ∉ keys ↔ ∃ name ∈ c.nameToEntry, path = c.nodePath name)
    (hBatches : c.nodeRemoveBatchCount = batches) :
    Removing batches { sendMessageToSessions net c (.removeData keys) false with nodeRemoveMessage := none } := by
  obtain ⟨hMessages, hSame⟩ := @messages_sendLow net c hConnected (.removeData keys)
  refine ⟨ahead_nil_of_nodes (hSame.connected.trans hConnected) fun path => ?_, hSame.batches.trans hBatches,
    fun _ => rfl⟩
  have hServer : path ∈ serverNodes (c.sendMessageToSessions net (.removeData keys) false).messages ↔
      path ∈ serverNodes c.messages ∧ path ∉ keys := by
    rw [hMessages, mem_serverNodes_removeData]
  refine ((and_iff_left List.not_mem_nil).trans hServer).trans ((hNodes path).trans ?_)
  show _ ↔ ∃ name ∈ (c.sendMessageToSessions net (.removeData keys) false).nameToEntry,
    path = (c.sendMessageToSessions net (.removeData keys) false).filesNodePath ++ name
  rw [hSame.names, hSame.path]
  rfl

theorem removing_forgetFile (h : Removing batches c) (hLonely : c.Lonely node) :
    Removing batches (c.forgetFile net node) := by
  unfold forgetFile
  split
  next ref hThere =>
    dsimp only
    rw [if_pos h.ahead.connected]
    have hNames := mem_names_unref (c := { c with nodeToEntry := c.nodeToEntry.erase node }) (hLonely ref hThere)
    obtain ⟨hMessages, hConnected, hPath, hRemoving, hBatches⟩ :=
      sameShares_unref { c with nodeToEntry := c.nodeToEntry.erase node } ref.name
    generalize ({ c with nodeToEntry := c.nodeToEntry.erase node } : ShareNetClient).unrefFilename ref.name = c₁
      at hNames hMessages hConnected hPath hRemoving hBatches ⊢
    have hNode (name : List Char) : c₁.nodePath name = c.nodePath name := congrArg (· ++ name) hPath
    -- all nodes but the one of the name
    have hNodes (path : List Char) :
        path ∈ serverNodes c₁.messages ∧ path ∉ c₁.nodeRemoveMessage.getD [] ++ [c₁.nodePath ref.name] ↔
          ∃ name ∈ c₁.nameToEntry, path = c₁.nodePath name := by
      rw [hMessages, hRemoving, List.mem_append, not_or, List.mem_singleton, ← and_assoc]
      refine (and_congr_left fun _ => h.ahead.nodes_nil path).trans ?_
      constructor
      · rintro ⟨⟨name, hIn, rfl⟩, hOther⟩
        refine ⟨name, (hNames name).mpr ⟨?_, hIn⟩, (hNode name).symm⟩
        rintro rfl
        exact hOther (hNode ref.name).symm
      · rintro ⟨name, hIn, rfl⟩
        obtain ⟨hOther, hBefore⟩ := (hNames name).mp hIn
        exact ⟨⟨name, hBefore, hNode name⟩, fun hSame => hOther (nodePath_inj.mp hSame)⟩
    split
    next hSends => exact removing_send (hConnected.trans h.ahead.connected) hNodes (hBatches.trans h.count)
    next hGathers =>
      refine ⟨ahead_nil_of_nodes (hConnected.trans h.ahead.connected) hNodes, hBatches.trans h.count, fun hNone => ?_⟩
      exact absurd (.inl ((hBatches.trans h.count).trans hNone)) hGathers
  next => exact h

theorem removing_begin (h : Removing batches c) : Removing (batches + 1) c.beginRemoveBatch :=
  ⟨⟨h.ahead.connected, h.ahead.nodes⟩, congrArg (· + 1) h.count, fun hNone => absurd hNone (Nat.succ_ne_zero _)⟩

theorem removing_end (h : Removing (batches + 1) c) : Removing batches (c.endRemoveBatch net) := by
  have hBatches : c.nodeRemoveBatchCount - 1 = batches := by
    rw [h.count]
    exact Nat.add_sub_cancel ..
  have hNodes := h.ahead.nodes_nil
  unfold endRemoveBatch
  dsimp only
  split
  next keys hGathered =>
    rw [hGathered] at hNodes
    split
    next =>
      exact removing_send (c := { c with nodeRemoveBatchCount := c.nodeRemoveBatchCount - 1 }) h.ahead.connected hNodes
        hBatches
    next hMore =>
      exact ⟨⟨h.ahead.connected, h.ahead.nodes⟩, hBatches, fun hNone => absurd (hBatches.trans hNone) hMore⟩
  next hGathered => exact ⟨⟨h.ahead.connected, h.ahead.nodes⟩, hBatches, fun _ => hGathered⟩

theorem removing_unwatch (h : Removing batches c) (files : FileSystem) (node : NodeRef) (ref : EntryRef) :
    Removing batches (c.unwatch files node ref).1 := by
  have hWatched (watchedDirs : AList fun _ : NodeRef => EntryRef) : Removing batches { c with watchedDirs } :=
    ⟨⟨h.ahead.connected, h.ahead.nodes⟩, h.count, h.gathered⟩
  unfold unwatch
  dsimp only
  split <;> exact hWatched _

variable (net files)

/-- No other node is counted for the name of one that a removal forgets when its turn comes. -/
def RemovalKeeps : Nat → ShareNetClient → NodeRef → Prop
  | levels, c, node =>
    match c.watchedDirs.lookup node with
    | some ref =>
      match levels, c.unwatch files node ref with
      | levels + 1, (c, some entries) =>
        AllSteps (RemovalKeeps levels) (nodeRemovedAt net files levels) entries c.beginRemoveBatch
      | _, _ => True
    | none => c.Lonely node

variable {net files}

theorem removing_nodeRemovedAt {levels : Nat} (h : Removing batches c) (hKeeps : RemovalKeeps net files levels c node) :
    Removing batches (nodeRemovedAt net files levels c node) := by
  induction levels generalizing batches c node with
  | zero =>
    unfold nodeRemovedAt
    unfold RemovalKeeps at hKeeps
    split
    next ref hWatched =>
      have hUnwatched := removing_unwatch h files node ref
      split
      next hLevels _ => cases hLevels
      next hOpen _ =>
        rw [hOpen] at hUnwatched
        exact hUnwatched
    next hNone =>
      rw [hNone] at hKeeps
      exact removing_forgetFile h hKeeps
  | succ levels ih =>
    unfold nodeRemovedAt
    unfold RemovalKeeps at hKeeps
    split
    next ref hWatched =>
      rw [hWatched] at hKeeps
      have hUnwatched := removing_unwatch h files node ref
      split
      next opened entries hLevels hOpen =>
        cases hLevels
        dsimp only at hKeeps
        rw [hOpen] at hKeeps hUnwatched
        exact removing_end (foldl_keeps (fun _ _ => ih) hKeeps (removing_begin hUnwatched))
      next hOpen _ =>
        rw [hOpen] at hUnwatched
        exact hUnwatched
    next hNone =>
      rw [hNone] at hKeeps
      exact removing_forgetFile h hKeeps

/-! ### Scans -/

/-- No removals are gathered, and the uploads are still to be sent. -/
structure Scanning (c : ShareNetClient) (pending : List (List Char)) : Prop where
  ahead : c.Ahead pending
  count : c.nodeRemoveBatchCount = 0
  gathered : c.nodeRemoveMessage = none

theorem Removing.scanning (h : Removing 0 c) : c.Scanning [] := ⟨h.ahead, h.count, h.gathered rfl⟩

theorem Scanning.removing (h : c.Scanning []) : Removing 0 c := ⟨h.ahead, h.count, fun _ => h.gathered⟩

theorem Scanning.nodes (h : c.Scanning pending) (path : List Char) :
    path ∈ serverNodes c.messages ∨ path ∈ pending ↔ ∃ name ∈ c.nameToEntry, path = c.nodePath name := by
  have hNodes := h.ahead.nodes path
  rw [h.gathered] at hNodes
  rw [← hNodes]
  exact or_congr_left (and_iff_left List.not_mem_nil).symm

theorem scanning_of_nodes (hConnected : c.connected = true) (hBatches : c.nodeRemoveBatchCount = 0)
    (hGathered : c.nodeRemoveMessage = none)
    (hNodes : ∀ path, path ∈ serverNodes c.messages ∨ path ∈ pending ↔
      ∃ name ∈ c.nameToEntry, path = c.nodePath name) : c.Scanning pending := by
  refine ⟨⟨hConnected, fun path => ?_⟩, hBatches, hGathered⟩
  rw [hGathered, ← hNodes]
  exact or_congr_left (and_iff_left List.not_mem_nil)

theorem Scanning.send {uploadMsg : List (List Char)} (h : c.Scanning (pending ++ uploadMsg)) :
    (c.sendMessageToSessions net (.setData uploadMsg) false).Scanning pending := by
  obtain ⟨hMessages, hSame⟩ := @messages_sendLow net c h.ahead.connected (.setData uploadMsg)
  refine scanning_of_nodes (hSame.connected.trans h.ahead.connected) (hSame.batches.trans h.count)
    (hSame.removing.trans h.gathered) fun path => ?_
  have hNodes := h.nodes path
  rw [List.mem_append, or_comm (a := path ∈ pending), ← or_assoc] at hNodes
  rw [hMessages, mem_serverNodes_setData, hNodes, hSame.names]
  unfold nodePath
  rw [hSame.path]

theorem scanning_recordFile (h : c.Scanning pending) (node : NodeRef) (ref : EntryRef) (fileSize : Int) :
    (c.recordFile node ref fileSize).Scanning (pending ++ [c.nodePath ref.name]) := by
  have hNames (names : AList fun _ : List Char => CountedEntryRef)
      (hIn : ∀ name, name ∈ names ↔ name = ref.name ∨ name ∈ c.nameToEntry) :
      Scanning { c with nameToEntry := names, nodeToEntry := c.nodeToEntry.insert node ref }
        (pending ++ [c.nodePath ref.name]) := by
    refine scanning_of_nodes h.ahead.connected h.count h.gathered fun path => ?_
    rw [List.mem_append, List.mem_singleton, ← or_assoc]
    refine (or_congr_left (h.nodes path)).trans ?_
    constructor
    · rintro (⟨name, hName, rfl⟩ | rfl)
      · exact ⟨name, (hIn name).mpr (.inr hName), rfl⟩
      · exact ⟨ref.name, (hIn ref.name).mpr (.inl rfl), rfl⟩
    · rintro ⟨name, hName, rfl⟩
      rcases (hIn name).mp hName with rfl | hOld
      · exact .inr rfl
      · exact .inl ⟨name, hOld, rfl⟩
  unfold recordFile refFilename
  split
  next r hThere => exact hNames _ fun name => AList.mem_insert _
  next => exact hNames _ fun name => AList.mem_insert _

theorem scanning_scanFile {uploadMsg : List (List Char)} (h : c.Scanning (pending ++ uploadMsg)) (diffsOnly : Bool)
    (ref : EntryRef) (info : Option (NodeRef × Int)) :
    (c.scanFile net diffsOnly ref info uploadMsg).2.Scanning
      (pending ++ (c.scanFile net diffsOnly ref info uploadMsg).1) := by
  unfold scanFile
  cases info with
  | none => exact h
  | some found =>
    obtain ⟨node, fileSize⟩ := found
    dsimp only
    split
    next => exact h
    next =>
      have hRecorded := scanning_recordFile h node ref fileSize
      rw [List.append_assoc] at hRecorded
      have hPath : (c.recordFile node ref fileSize).nodePath ref.name = c.nodePath ref.name := by
        unfold recordFile refFilename nodePath
        split <;> rfl
      rw [hPath]
      split
      · rw [List.append_nil]
        exact hRecorded.send
      · exact hRecorded

theorem Scanning.watch (h : c.Scanning pending) (ref : EntryRef) (dirNode realDirNode : NodeRef) :
    (c.watch ref dirNode realDirNode).Scanning pending :=
  ⟨⟨h.ahead.connected, h.ahead.nodes⟩, h.count, h.gathered⟩

mutual

theorem scanning_addWatchedDirectory (diffsOnly : Bool) : (found : Found) → (c : ShareNetClient) →
    (pending : List (List Char)) → c.Scanning pending → (addWatchedDirectory net diffsOnly found c).Scanning pending
  | .directory ref dirNode realDirNode watchable entries, c, pending, h => by
    unfold addWatchedDirectory
    split
    next =>
      refine scanning_scanEntries diffsOnly entries [] _ pending ?_
      rw [List.append_nil]
      exact h.watch ref dirNode realDirNode
    next => exact h
  | .file .., c, _, h => by
    unfold addWatchedDirectory
    exact h
  | .unreadable, c, _, h => by
    unfold addWatchedDirectory
    exact h

theorem scanning_scanEntries (diffsOnly : Bool) : (entries : List Found) → (uploadMsg : List (List Char)) →
    (c : ShareNetClient) → (pending : List (List Char)) → c.Scanning (pending ++ uploadMsg) →
      (scanEntries net diffsOnly entries uploadMsg c).Scanning pending
  | [], uploadMsg, c, pending, h => by
    unfold scanEntries
    split
    next hNone =>
      rw [List.isEmpty_iff.mp hNone, List.append_nil] at h
      exact h
    next => exact h.send
  | .file ref info :: rest, uploadMsg, c, pending, h => by
    unfold scanEntries
    exact scanning_scanEntries diffsOnly rest _ _ pending (scanning_scanFile h diffsOnly ref info)
  | .directory ref dirNode realDirNode watchable entries :: rest, uploadMsg, c, pending, h => by
    unfold scanEntries
    exact scanning_scanEntries diffsOnly rest _ _ pending (scanning_addWatchedDirectory diffsOnly _ c _ h)
  | .unreadable :: rest, uploadMsg, c, pending, h => by
    unfold scanEntries
    exact scanning_scanEntries diffsOnly rest _ _ pending (scanning_addWatchedDirectory diffsOnly _ c _ h)

end

/-! ### Events -/

/-- What waits in the queue does not remove the node that is uploaded ahead of it. -/
def CreationKeeps (c : ShareNetClient) (ref : EntryRef) (parent : NodeRef) (found : Found) : Prop :=
  (c.watchedDirs.lookup parent).isSome = true →
    match found with
    | .file _ (some _) => c.nodePath ref.name ∈ c.lowPriorityMessages.foldl FileMessage.apply [c.nodePath ref.name]
    | _ => True

theorem removing_nodeCreated (h : Removing 0 c) {parent : NodeRef} {found : Found}
    (hKeeps : c.CreationKeeps ref parent found) : Removing 0 (c.nodeCreated net node ref parent found) := by
  unfold nodeCreated
  split
  next hParent =>
    have hFound := hKeeps hParent
    split
    next => exact (scanning_addWatchedDirectory false _ c [] h.scanning).removing
    next fileRef fileNode fileSize =>
      have hRecorded := scanning_recordFile h.scanning node ref fileSize
      have hSame : (c.recordFile node ref fileSize).nodePath ref.name = c.nodePath ref.name ∧
          (c.recordFile node ref fileSize).lowPriorityMessages = c.lowPriorityMessages := by
        unfold recordFile refFilename nodePath
        split <;> exact ⟨rfl, rfl⟩
      dsimp only
      rw [hSame.1]
      dsimp only at hFound
      rw [← hSame.2] at hFound
      generalize c.recordFile node ref fileSize = c₁ at hRecorded hFound
      unfold sendMessageToSessions
      rw [if_pos hRecorded.ahead.connected, if_pos rfl]
      refine Scanning.removing (scanning_of_nodes hRecorded.ahead.connected hRecorded.count hRecorded.gathered
        fun path => Iff.trans ?_ (hRecorded.nodes path))
      show path ∈ serverNodes ((c₁.sent ++ [.setData [c.nodePath ref.name]]) ++ c₁.lowPriorityMessages) ∨ _ ↔
        path ∈ serverNodes (c₁.sent ++ c₁.lowPriorityMessages) ∨ _
      rw [serverNodes_append, mem_foldl_apply, mem_serverNodes_setData, serverNodes_append c₁.sent,
        mem_foldl_apply (serverNodes c₁.sent), List.nil_append, List.mem_singleton, or_iff_left List.not_mem_nil]
      constructor
      · rintro (⟨hOld | hNew, hStays⟩ | hMade)
        · exact .inl (.inl ⟨hOld, hStays⟩)
        · exact .inr hNew
        · exact .inl (.inr hMade)
      · rintro ((⟨hOld, hStays⟩ | hMade) | rfl)
        · exact .inl ⟨.inl hOld, hStays⟩
        · exact .inr hMade
        · exact .inl ⟨.inr rfl, hFound⟩
    next => exact h
  next => exact h

variable (net)

/-- A node that is looked up keeps the others if it is to be removed. -/
def CheckKeeps (files : FileSystem) (c : ShareNetClient) (node : NodeRef) : Prop :=
  ∀ ref, c.nodeToEntry.lookup node = some ref → files.fileExists ref = false →
    RemovalKeeps net files c.watchedDirs.entries.length c node

/-- No other node is counted for the name of one that the event forgets, and no node that it uploads is to be removed
by what waits in the queue. -/
def EventKeeps (c : ShareNetClient) : ShareEvent → Prop
  | .scanned files checkRemoves _ nodes _ =>
    checkRemoves = true → AllSteps (CheckKeeps net files) (checkRemoved net files) nodes c.beginRemoveBatch
  | .created _ ref parent found => c.CreationKeeps ref parent found
  | .removed files node => RemovalKeeps net files c.watchedDirs.entries.length c node
  | .moved files node ref toDir parent found =>
    RemovalKeeps net files c.watchedDirs.entries.length c node ∧
      ((c.watchedDirs.lookup toDir).isSome = true → (c.nodeRemoved net files node).CreationKeeps ref parent found)
  | .drained => True
  | .sharingRemoved => True

variable {net}

theorem removing_checkRemoved (h : Removing batches c) (hKeeps : c.CheckKeeps net files node) :
    Removing batches (c.checkRemoved net files node) := by
  unfold checkRemoved
  split
  next ref hThere =>
    split
    next => exact h
    next hGone => exact removing_nodeRemovedAt h (hKeeps ref hThere (Bool.eq_false_iff.mpr hGone))
  next => exact h

theorem removing_drained (h : Removing 0 c) : Removing 0 (c.outputQueuesDrained net) := by
  obtain ⟨hMessages, hSame⟩ := @messages_checkSend net { c with sendingLowPriorityMessages := false }
  refine (scanning_of_nodes (hSame.connected.trans h.ahead.connected) (hSame.batches.trans h.count)
    (hSame.removing.trans (h.gathered rfl)) fun path => ?_).removing
  have hNodes := h.scanning.nodes path
  rw [hMessages, hSame.names]
  unfold nodePath
  rw [hSame.path]
  exact hNodes

theorem removing_step (h : Removing 0 c) {event : ShareEvent} (hKeeps : c.EventKeeps net event) :
    Removing 0 (c.step net event) := by
  cases event with
  | scanned files checkRemoves checkAdds nodes share =>
    have hChecked : Removing 0 (if checkRemoves = true then
        endRemoveBatch net (nodes.foldl (checkRemoved net files) c.beginRemoveBatch) else c) := by
      split
      next hRemove =>
        exact removing_end (foldl_keeps (fun _ _ => removing_checkRemoved) (hKeeps hRemove) (removing_begin h))
      next => exact h
    show Removing 0 (scanSharesThread ..)
    unfold scanSharesThread
    dsimp only
    split
    next => exact (scanning_addWatchedDirectory checkAdds share _ [] hChecked.scanning).removing
    next => exact hChecked
  | created node ref parent found => exact removing_nodeCreated h hKeeps
  | removed files node => exact removing_nodeRemovedAt h hKeeps
  | moved files node ref toDir parent found =>
    have hRemoved := removing_nodeRemovedAt h hKeeps.1
    show Removing 0 (nodeMoved ..)
    unfold nodeMoved
    dsimp only
    split
    next hWatched => exact removing_nodeCreated hRemoved (hKeeps.2 hWatched)
    next => exact hRemoved
  | drained => exact removing_drained h
  | sharingRemoved =>
    show Removing 0 (removeFileSharing c)
    unfold removeFileSharing
    rw [if_pos h.ahead.connected]
    refine Scanning.removing (scanning_of_nodes h.ahead.connected h.count (h.gathered rfl) fun path => ?_)
    have hNone : serverNodes (c.sent ++ [.removeAll] ++ []) = [] := by
      rw [List.append_nil, serverNodes_append]
      rfl
    refine iff_of_false (fun hIn => ?_) ?_
    · rcases hIn with hServer | hPending
      · have hServer : path ∈ serverNodes (c.sent ++ [.removeAll] ++ []) := hServer
        rw [hNone] at hServer
        exact List.not_mem_nil hServer
      · exact List.not_mem_nil hPending
    · rintro ⟨name, hIn, -⟩
      exact AList.notMem_empty name hIn

/-! ### The queue runs empty -/

theorem sendChunk_length (numBytesSent : UInt32) (queue sent : List FileMessage) :
    (sendChunk net numBytesSent queue sent).2.1.length ≤ queue.length := by
  induction queue generalizing numBytesSent sent with
  | nil => exact Nat.le_refl _
  | cons message queue ih =>
    unfold sendChunk
    split
    · exact Nat.le_succ_of_le (ih _ _)
    · exact Nat.le_refl _

/-- The first message always goes. -/
theorem drained_length (hConnected : c.connected = true) :
    (c.outputQueuesDrained net).lowPriorityMessages.length ≤ c.lowPriorityMessages.length - 1 := by
  unfold outputQueuesDrained checkSendMoreLowPriorityMessages
  rw [hConnected, Bool.not_false, Bool.and_self, if_pos rfl]
  show (sendChunk net 0 c.lowPriorityMessages c.sent).2.1.length ≤ _
  cases c.lowPriorityMessages with
  | nil => exact Nat.le_refl _
  | cons message queue =>
    unfold sendChunk
    rw [if_pos (by decide)]
    exact sendChunk_length ..

theorem drains (h : Removing 0 c) {n : Nat} (hn : c.lowPriorityMessages.length ≤ n) :
    Removing 0 (c.run net (List.replicate n .drained)) ∧
      (c.run net (List.replicate n .drained)).lowPriorityMessages = [] := by
  induction n generalizing c with
  | zero => exact ⟨h, List.length_eq_zero_iff.mp (Nat.le_zero.mp hn)⟩
  | succ n ih =>
    have hLess : (c.step net .drained).lowPriorityMessages.length ≤ c.lowPriorityMessages.length - 1 :=
      drained_length h.ahead.connected
    exact ih (removing_drained h) (by omega)

theorem removing_start (filesNodePath : List Char) (settingsDir : EntryRef) :
    Removing 0 (start filesNodePath settingsDir) := by
  refine ⟨ahead_nil_of_nodes rfl fun path => iff_of_false (fun hIn => List.not_mem_nil hIn.1) ?_, rfl, fun _ => rfl⟩
  rintro ⟨name, hIn, -⟩
  exact AList.notMem_empty name hIn

theorem Removing.mirrored (h : Removing 0 c) (hEmpty : c.lowPriorityMessages = []) : c.Mirrored := by
  intro path
  have hNodes := h.scanning.nodes path
  rw [or_iff_left List.not_mem_nil, messages, hEmpty, List.append_nil] at hNodes
  exact hNodes

/-- A file is found and deleted. -/
def deleted : List ShareEvent :=
  [.scanned noFiles false false []
      (.directory ⟨1, 1, ['d']⟩ sharedDir sharedDir true [.file songRef (some (⟨1, 20⟩, 5))]),
    .removed noFiles ⟨1, 20⟩]

theorem not_mirrored_of_missing (name : List Char) (hEntry : (c.nameToEntry.lookup name).isSome = true)
    (hServer : c.nodePath name ∉ serverNodes c.sent) : ¬c.Mirrored := fun hMirrored =>
  hServer ((hMirrored _).mpr ⟨name, AList.lookup_isSome.mp hEntry, rfl⟩)

end ShareNetClient

end BeShare.Client
