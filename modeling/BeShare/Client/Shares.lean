import Mathlib.Data.List.AList

/-!
The index of the shared files in `ShareNetClient`: the tables that directory scans and the notices of the node monitor
keep, and the messages to the server that go with them, some of them in a queue of low priority. The values of the
nodes, the memory and the locks are left out. A scan that is aborted is too: the tables are cleared after it.
-/

namespace BeShare.Client

structure NodeRef where
  device : Int
  node : Int
deriving DecidableEq

structure EntryRef where
  device : Int
  directory : Int
  name : List Char
deriving DecidableEq

/-- A name's entry in `_nameToEntry`. There are fewer files than an `int32` counts. -/
structure CountedEntryRef where
  ref : EntryRef
  count : Int
  fileSize : Int
deriving DecidableEq

/-- The messages about the nodes of the files, by the paths of the nodes. The paths of `removeData` are escaped on the
way, so that each is the key of one node. `removeAll` is the `PR_COMMAND_REMOVEDATA` for `beshare/fi*es`. -/
inductive FileMessage where
  | setData (paths : List (List Char))
  | removeData (paths : List (List Char))
  | removeAll
deriving DecidableEq

/-- The thread that sends the messages: how long they are, and whether it can tell when its queue is empty. -/
structure Transceiver where
  flattenedSize : FileMessage → UInt32
  notifiesWhenDrained : Bool

structure ShareNetClient where
  /-- `_mtt` is not `NULL`. -/
  connected : Bool
  filesNodePath : List Char
  settingsDir : EntryRef
  /-- Each with its `_entryRef`. -/
  watchedDirs : AList fun _ : NodeRef => EntryRef
  nodeToEntry : AList fun _ : NodeRef => EntryRef
  nameToEntry : AList fun _ : List Char => CountedEntryRef
  nodeRemoveMessage : Option (List (List Char))
  nodeRemoveBatchCount : Nat
  lowPriorityMessages : List FileMessage
  sendingLowPriorityMessages : Bool
  /-- What was handed to the thread. -/
  sent : List FileMessage

/-- What a scan finds at an entry, symbolic links followed: a file with its node and size, if they can be had, or a
directory that can be opened, with its entries. The directory's own entry may be another than the link's. -/
inductive Found where
  | file (ref : EntryRef) (info : Option (NodeRef × Int))
  | directory (ref : EntryRef) (dirNode realDirNode : NodeRef) (watchable : Bool) (entries : List Found)
  | unreadable

/-- What the file system answers while files are removed from the index. -/
structure FileSystem where
  fileExists : EntryRef → Bool
  /-- `GetDirectory` for a watched directory, its own node and the nodes of its entries. -/
  openDirectory : NodeRef → EntryRef → Option (Option NodeRef × List NodeRef)

namespace ShareNetClient

variable (net : Transceiver) (files : FileSystem) (c : ShareNetClient)

/-! ### Messages -/

/-- The loop of `CheckSendMoreLowPriorityMessages`. -/
def sendChunk : UInt32 → List FileMessage → List FileMessage → UInt32 × List FileMessage × List FileMessage
  | numBytesSent, [], sent => (numBytesSent, [], sent)
  | numBytesSent, message :: rest, sent =>
    if numBytesSent < 4 * 1024 then sendChunk (numBytesSent + net.flattenedSize message) rest (sent ++ [message])
    else (numBytesSent, message :: rest, sent)

def checkSendMoreLowPriorityMessages : ShareNetClient :=
  if !c.sendingLowPriorityMessages && c.connected then
    let (numBytesSent, rest, sent) := sendChunk net 0 c.lowPriorityMessages c.sent
    { c with
      lowPriorityMessages := rest
      sent := sent
      sendingLowPriorityMessages :=
        if 0 < numBytesSent then net.notifiesWhenDrained else c.sendingLowPriorityMessages }
  else c

def sendMessageToSessions (message : FileMessage) (highPriority : Bool) : ShareNetClient :=
  if c.connected then
    if highPriority then { c with sent := c.sent ++ [message] }
    else checkSendMoreLowPriorityMessages net { c with lowPriorityMessages := c.lowPriorityMessages ++ [message] }
  else c

/-! ### The index -/

def refFilename (fileName : List Char) (ref : EntryRef) (fileSize : Int) : ShareNetClient :=
  match c.nameToEntry.lookup fileName with
  | some r => { c with nameToEntry := c.nameToEntry.insert fileName { r with count := r.count + 1 } }
  | none => { c with nameToEntry := c.nameToEntry.insert fileName ⟨ref, 1, fileSize⟩ }

def unrefFilename (fileName : List Char) : ShareNetClient :=
  match c.nameToEntry.lookup fileName with
  | some r =>
    if r.count - 1 ≤ 0 then { c with nameToEntry := c.nameToEntry.erase fileName }
    else { c with nameToEntry := c.nameToEntry.insert fileName { r with count := r.count - 1 } }
  | none => c

/-- `RefFilename` and the entry in `_nodeToEntry` after it. -/
def recordFile (node : NodeRef) (ref : EntryRef) (fileSize : Int) : ShareNetClient :=
  let c := c.refFilename ref.name ref fileSize
  { c with nodeToEntry := c.nodeToEntry.insert node ref }

def nodePath (name : List Char) : List Char :=
  c.filesNodePath ++ name

/-- `NodeRemoved` for a node that is not a watched directory. -/
def forgetFile (node : NodeRef) : ShareNetClient :=
  match c.nodeToEntry.lookup node with
  | some ref =>
    let c := { c with nodeToEntry := c.nodeToEntry.erase node }
    if c.connected then
      let c := c.unrefFilename ref.name
      let keys := c.nodeRemoveMessage.getD [] ++ [c.nodePath ref.name]
      if c.nodeRemoveBatchCount = 0 ∨ 50 < keys.length then
        { sendMessageToSessions net c (.removeData keys) false with nodeRemoveMessage := none }
      else { c with nodeRemoveMessage := some keys }
    else c
  | none => c

/-- `NodeRemoveBatch(true)` -/
def beginRemoveBatch : ShareNetClient :=
  { c with nodeRemoveBatchCount := c.nodeRemoveBatchCount + 1 }

/-- `NodeRemoveBatch(false)` -/
def endRemoveBatch : ShareNetClient :=
  let c := { c with nodeRemoveBatchCount := c.nodeRemoveBatchCount - 1 }
  match c.nodeRemoveMessage with
  | some keys =>
    if c.nodeRemoveBatchCount = 0 then
      { sendMessageToSessions net c (.removeData keys) false with nodeRemoveMessage := none }
    else c
  | none => c

/-! ### Removal -/

/-- The start of `RemoveWatchedDirectory`: the directory is watched no more. With the nodes that are to be removed. -/
def unwatch (dirNode : NodeRef) (ref : EntryRef) : ShareNetClient × Option (List NodeRef) :=
  let watchedDirs := c.watchedDirs.erase dirNode
  match files.openDirectory dirNode ref with
  | some (some realDirNode, entries) => ({ c with watchedDirs := watchedDirs.erase realDirNode }, some entries)
  | some (none, entries) => ({ c with watchedDirs }, some entries)
  | none => ({ c with watchedDirs }, none)

/-- `NodeRemoved`, with `RemoveWatchedDirectory`. Each level has one watched directory less. -/
def nodeRemovedAt : Nat → ShareNetClient → NodeRef → ShareNetClient
  | levels, c, node =>
    match c.watchedDirs.lookup node with
    | some ref =>
      match levels, c.unwatch files node ref with
      | levels + 1, (c, some entries) => endRemoveBatch net (entries.foldl (nodeRemovedAt levels) c.beginRemoveBatch)
      | _, (c, _) => c
    | none => c.forgetFile net node

def nodeRemoved (node : NodeRef) : ShareNetClient :=
  nodeRemovedAt net files c.watchedDirs.entries.length c node

/-! ### Scans -/

/-- One file that a scan finds. The messages are sent when they have twenty files. -/
def scanFile (diffsOnly : Bool) (ref : EntryRef) (info : Option (NodeRef × Int)) (uploadMsg : List (List Char)) :
    List (List Char) × ShareNetClient :=
  match info with
  | some (node, fileSize) =>
    if diffsOnly && (c.nameToEntry.lookup ref.name).isSome then (uploadMsg, c)
    else
      let c := c.recordFile node ref fileSize
      let uploadMsg := uploadMsg ++ [c.nodePath ref.name]
      if 20 ≤ uploadMsg.length then ([], sendMessageToSessions net c (.setData uploadMsg) false)
      else (uploadMsg, c)
  | none => (uploadMsg, c)

/-- The directory is to be scanned: it was not yet, or is looked through for what is new. -/
def watches (diffsOnly : Bool) (ref : EntryRef) (dirNode : NodeRef) (watchable : Bool) : Bool :=
  let watched := (c.watchedDirs.lookup dirNode).isSome
  (diffsOnly || !watched) && !(ref == c.settingsDir) && ((diffsOnly && watched) || watchable)

def watch (ref : EntryRef) (dirNode realDirNode : NodeRef) : ShareNetClient :=
  { c with watchedDirs := (c.watchedDirs.insert dirNode ref).insert realDirNode ref }

mutual

def addWatchedDirectory (diffsOnly : Bool) : Found → ShareNetClient → ShareNetClient
  | .directory ref dirNode realDirNode watchable entries, c =>
    if c.watches diffsOnly ref dirNode watchable then
      scanEntries diffsOnly entries [] (c.watch ref dirNode realDirNode)
    else c
  | _, c => c

/-- The loop of `AddWatchedDirectory` over the entries of the directory. -/
def scanEntries (diffsOnly : Bool) : List Found → List (List Char) → ShareNetClient → ShareNetClient
  | [], uploadMsg, c => if uploadMsg.isEmpty then c else sendMessageToSessions net c (.setData uploadMsg) false
  | found :: rest, uploadMsg, c =>
    match found with
    | .file ref info =>
      let (uploadMsg, c) := scanFile net c diffsOnly ref info uploadMsg
      scanEntries diffsOnly rest uploadMsg c
    | _ => scanEntries diffsOnly rest uploadMsg (addWatchedDirectory diffsOnly found c)

end

/-! ### Events -/

/-- `NodeCreated`: the parent directory is watched. -/
def nodeCreated (node : NodeRef) (ref : EntryRef) (parent : NodeRef) (found : Found) : ShareNetClient :=
  if (c.watchedDirs.lookup parent).isSome then
    match found with
    | .directory dirRef _ realDirNode watchable entries =>
      addWatchedDirectory net false (.directory dirRef node realDirNode watchable entries) c
    | .file _ (some (_, fileSize)) =>
      let c := c.recordFile node ref fileSize
      sendMessageToSessions net c (.setData [c.nodePath ref.name]) true
    | _ => c
  else c

/-- `B_ENTRY_MOVED`. Whether the directory that it was moved to is watched was asked before. -/
def nodeMoved (node : NodeRef) (ref : EntryRef) (toDir parent : NodeRef) (found : Found) : ShareNetClient :=
  let toWatched := (c.watchedDirs.lookup toDir).isSome
  let c := c.nodeRemoved net files node
  if toWatched then c.nodeCreated net node ref parent found else c

/-- A step of the loop of `ScanSharesThread` over the nodes that are recorded. -/
def checkRemoved (c : ShareNetClient) (node : NodeRef) : ShareNetClient :=
  match c.nodeToEntry.lookup node with
  | some ref => if files.fileExists ref then c else c.nodeRemoved net files node
  | none => c

/-- `ScanSharesThread`. The nodes that are recorded are given in the order of their table. -/
def scanSharesThread (checkRemoves checkAdds : Bool) (nodes : List NodeRef) (share : Found) : ShareNetClient :=
  let c := if checkRemoves then endRemoveBatch net (nodes.foldl (checkRemoved net files) c.beginRemoveBatch) else c
  if !checkRemoves || checkAdds then addWatchedDirectory net checkAdds share c else c

def removeFileSharing : ShareNetClient :=
  let c := if c.connected then { c with lowPriorityMessages := [], sent := c.sent ++ [.removeAll] } else c
  { c with watchedDirs := ∅, nodeToEntry := ∅, nameToEntry := ∅ }

/-- The end of the thread's own queue, `MTT_EVENT_OUTPUT_QUEUES_DRAINED`. -/
def outputQueuesDrained : ShareNetClient :=
  checkSendMoreLowPriorityMessages net { c with sendingLowPriorityMessages := false }

end ShareNetClient

/-- What happens to the client: scans, with what they find, notices of the node monitor, with what the file system
answers then, and the network. -/
inductive ShareEvent where
  | scanned (files : FileSystem) (checkRemoves checkAdds : Bool) (nodes : List NodeRef) (share : Found)
  | created (node : NodeRef) (ref : EntryRef) (parent : NodeRef) (found : Found)
  | removed (files : FileSystem) (node : NodeRef)
  | moved (files : FileSystem) (node : NodeRef) (ref : EntryRef) (toDir parent : NodeRef) (found : Found)
  | drained
  | sharingRemoved

namespace ShareNetClient

variable (net : Transceiver) (c : ShareNetClient)

def step : ShareEvent → ShareNetClient
  | .scanned files checkRemoves checkAdds nodes share =>
    c.scanSharesThread net files checkRemoves checkAdds nodes share
  | .created node ref parent found => c.nodeCreated net node ref parent found
  | .removed files node => c.nodeRemoved net files node
  | .moved files node ref toDir parent found => c.nodeMoved net files node ref toDir parent found
  | .drained => c.outputQueuesDrained net
  | .sharingRemoved => c.removeFileSharing

def run (events : List ShareEvent) : ShareNetClient :=
  events.foldl (step net) c

/-- A client that was just connected. -/
def start (filesNodePath : List Char) (settingsDir : EntryRef) : ShareNetClient where
  connected := true
  filesNodePath := filesNodePath
  settingsDir := settingsDir
  watchedDirs := ∅
  nodeToEntry := ∅
  nameToEntry := ∅
  nodeRemoveMessage := none
  nodeRemoveBatchCount := 0
  lowPriorityMessages := []
  sendingLowPriorityMessages := false
  sent := []

end ShareNetClient

end BeShare.Client
