import BeShare.Reflect.DataTree
import BeShare.Reflect.Server
import BeShare.Reflect.Spots
import BeShare.Reflect.Visit

/-!
All commands of a client, over a server whose nodes have their ordered indices too: what `MessageReceivedFromGateway`
does with each, and what the sessions are told of the indices.
-/

namespace BeShare.Muscle.Reflect

variable {regex : Regex} {Msg : Type}

def PR_PRIVILEGE_KICK : Nat := 0
def PR_PRIVILEGE_ADDBANS : Nat := 1
def PR_PRIVILEGE_REMOVEBANS : Nat := 2

/-- A string of a `PR_RESULT_INDEXUPDATED`: `c`, `i<index>:<key>` or `r<index>:<key>`. -/
inductive IndexUpdate where
  | cleared
  | inserted (index : Nat) (key : Str)
  | removed (index : Nat) (key : Str)

/-- A server with what the indices and the privileges add to it. -/
structure IndexedServer (regex : Regex) (Msg : Type) where
  server : Server regex Msg
  /-- `_orderedIndex` of the nodes -/
  orderedIndex : Path → Option (List Str)
  /-- The parameter `PR_NAME_PRIVILEGE_BITS` of the sessions -/
  privilegeBits : Str → Option Nat
  /-- The `_nextIndexSubscriptionMessage`s of the sessions -/
  nextIndexUpdates : List (Str × Path × IndexUpdate)
  /-- What the sessions' clients were sent of the indices -/
  indexUpdates : List (Str × Path × IndexUpdate)
  /-- The sessions that `EndSession` was called for -/
  ended : List Str
  /-- The sessions that have passed a message to their factory -/
  factoryMessages : List Str

/-- The keys of a message, each with the filter of its own if it has one. -/
abbrev Keys (Msg : Type) :=
  List (Str × Option (Option (QueryFilter Msg)))

/-- The slot of an entry in an index. What does not start with `I` is taken not to be there. -/
def entryIndex (key : Str) (index : List Str) : Option Nat :=
  if key.head? = some 'I' then lastIndexOf key index else none

namespace IndexedServer

variable (st : IndexedServer regex Msg)

/-! ### The indices -/

def setIndex (p : Path) (index : Option (List Str)) : IndexedServer regex Msg :=
  { st with orderedIndex := fun q => if q = p then index else st.orderedIndex q }

/-- `NodeIndexChanged` of one session -/
def nodeIndexChanged (id : Str) (p : Path) (update : IndexUpdate) : IndexedServer regex Msg :=
  match st.server.member? id with
  | some m =>
    if m.session.subscriptionsEnabled then { st with nextIndexUpdates := st.nextIndexUpdates ++ [(id, p, update)] }
    else st
  | none => st

def notifySubscribersThatNodeIndexChanged (p : Path) (update : IndexUpdate) : IndexedServer regex Msg :=
  (((st.server.db.node? p).map DataNode.subscribers).getD []).foldl (fun st next => st.nodeIndexChanged next.1 p update)
    st

/-- `RemoveIndexEntry`, with its status -/
def removeIndexEntry (p : Path) (key : Str) (notify : Bool) : IndexedServer regex Msg × Bool :=
  match st.orderedIndex p with
  | some index =>
    match entryIndex key index with
    | some i =>
      let st := st.setIndex p (some (index.eraseIdx i))
      (if notify then st.notifySubscribersThatNodeIndexChanged p (.removed i key) else st, true)
    | none => (st, false)
  | none => (st, false)

/-- An entry is put into an index, and the subscribers are told. -/
def insertIndexEntry (p : Path) (i : Nat) (key : Str) : IndexedServer regex Msg :=
  (st.setIndex p (some (((st.orderedIndex p).getD []).insertIdx i key))).notifySubscribersThatNodeIndexChanged p
    (.inserted i key)

/-- `PushSubscriptionMessages` -/
def pushSubscriptionMessages : IndexedServer regex Msg :=
  { st with
    server := st.server.pushSubscriptionMessages
    nextIndexUpdates := []
    indexUpdates := st.indexUpdates ++ st.nextIndexUpdates }

/-! ### Commands -/

/-- The body of the loop of `InsertOrderedDataCallback` over the values. The field's name is that of the entry to insert
before; the node's counter makes names of its own. -/
def insertOrderedChild (self : Str) (p : Path) (made : Str) (optInsertBefore : Str) (data : Msg) :
    Option (IndexedServer regex Msg) :=
  if p ∈ st.server.db.paths ∧ st.server.hasRoom self = true ∧ st.server.db.hasChild p made = false then
    let index := (st.orderedIndex p).getD []
    let insertIndex := (entryIndex optInsertBefore index).getD index.length
    (st.server.putChild self p made data true).map fun server =>
      let server := server.updateMember self fun m =>
        { m with indexingPresent := true, currentNodeCount := m.currentNodeCount + 1 }
      { st with server }.insertIndexEntry p insertIndex made
  else some st

def insertOrderedDataCallback (self : Str) (fields : List (Str × Msg)) (made : Path → Nat → UInt32) (p : Path)
    (st : IndexedServer regex Msg) : Option (IndexedServer regex Msg × Int) :=
  (fields.zipIdx.foldlM (fun (st : IndexedServer regex Msg) field =>
    st.insertOrderedChild self p (DataTree.indexName (made p field.2)) field.1.1 field.1.2) st).map fun st =>
      (st, (p.length : Int))

def insertOrderedData (self : Str) (keys : Keys Msg) (fields : List (Str × Msg)) (made : Path → Nat → UInt32) :
    Option (IndexedServer regex Msg) :=
  match st.server.member? self with
  | some m =>
    (PathMatcher.putPaths none none keys (.empty : PathMatcher regex Msg)).visit
    (fun st : IndexedServer regex Msg => st.server.db)
      (insertOrderedDataCallback self fields made) m.sessionDir true st
  | none => some st

/-- `ReorderChild` of the node's parent -/
def reorderDataCallback (moveToBeforeThis : Str) (st : IndexedServer regex Msg) (p : Path) : IndexedServer regex Msg :=
  let name := p.getLast?.getD []
  if moveToBeforeThis = name then st
  else
    let removed := st.removeIndexEntry p.dropLast name true
    if removed.2 then
      let index := (removed.1.orderedIndex p.dropLast).getD []
      let targetIndex :=
        if st.server.db.hasChild p.dropLast moveToBeforeThis then
          (lastIndexOf moveToBeforeThis index).getD index.length
        else index.length
      removed.1.insertIndexEntry p.dropLast targetIndex name
    else st

/-- Each field is an operation of its own: its name is the key, its first value what to move before. -/
def reorderData (self : Str) (fields : List (Str × Str)) : IndexedServer regex Msg :=
  match st.server.member? self with
  | some m =>
    fields.foldl (fun st field =>
      ((PathMatcher.putPaths none none [(field.1, none)] (.empty : PathMatcher regex Msg)).doTraversal st.server.db
        PathMatcher.callWithDepth m.sessionDir true).foldl (reorderDataCallback field.2) st) st
  | none => st

/-- The end of `RemoveChild`, when the children are gone. -/
def removeNode (self : Str) (notify : Bool) (st : IndexedServer regex Msg) (p : Path) :
    Option (IndexedServer regex Msg) :=
  let st := (st.removeIndexEntry p.dropLast (p.getLast?.getD []) notify).1
  (st.server.removeNode self notify p).map fun server => { st with server }.setIndex p none

/-- `RemoveChild` of the parent, with all that is below. -/
def removeChild (self : Str) (p : Path) (notify : Bool) : Option (IndexedServer regex Msg) :=
  if p ∈ st.server.db.paths then (Server.subtree st.server.db p).foldlM (removeNode self notify) st else some st

/-- One step of the loop of `DoRemoveData` -/
def removeDataStep (self : Str) (quiet : Bool) (st : IndexedServer regex Msg) (p : Path) :
    Option (IndexedServer regex Msg) :=
  if p ∈ st.server.db.paths ∧ 2 < p.length then
    (st.removeChild self p (!quiet)).map fun st' =>
      { st' with server := st'.server.countNodes self (· - (Server.subtree st.server.db p).length) }
  else some st

def doRemoveData (self : Str) (matcher : PathMatcher regex Msg) (quiet : Bool) : Option (IndexedServer regex Msg) :=
  match st.server.member? self with
  | some m =>
    (matcher.doTraversal st.server.db Server.removeDataCallback m.sessionDir true).reverse.foldlM
      (removeDataStep self quiet) st
  | none => some st

/-- The snapshots of `GetDataCallback`: an index that has entries, from the first one on. -/
def snapshot (id : Str) (p : Path) (index : List Str) : List (Str × Path × IndexUpdate) :=
  if index.isEmpty then []
  else (id, p, .cleared) :: index.zipIdx.map fun entry => (id, p, .inserted entry.2 entry.1)

def doGetData (self : Str) (matcher : PathMatcher regex Msg) : IndexedServer regex Msg :=
  match st.server.member? self with
  | some m =>
    let skipsOwn := !m.session.reflectToSelf && !m.indexingPresent
    let calls := matcher.doTraversal st.server.db (Server.getDataDepth self skipsOwn) [] true
    let told := calls.filter fun p => !(skipsOwn && Server.inSubtreeOf self p)
    { st with
      server := st.server.doGetData self matcher
      indexUpdates := st.indexUpdates ++ told.flatMap fun p => snapshot self p ((st.orderedIndex p).getD []) }
  | none => st

def setParameters (self : Str) (fields : List (Field Msg)) : Option (IndexedServer regex Msg) :=
  (fields.foldlM (fun (srv : Server regex Msg) f => srv.parameterStep self fun s => s.setParameter f) st.server).map
    fun server =>
      let st := { st with server }
      if (fields.any fun f => f.name == PR_NAME_SUBSCRIBE_QUIETLY) || (Server.getKeys fields).isEmpty then st
      else st.doGetData self (.putPaths (some DEFAULT_PATH_PREFIX) none (Server.getKeys fields) .empty)

/-- The keys that match a name. -/
def matchesName (regex : Regex) (keys : List Str) (name : Str) : Bool :=
  keys.any fun key => (StringMatcher.setPattern regex key).any fun matcher => matcher.isMatch name

def removeParameters (self : Str) (keys : List Str) : Option (IndexedServer regex Msg) :=
  (st.server.removeParameters self keys).map fun server =>
    { st with
      server := server
      privilegeBits := fun id =>
        if id = self ∧ matchesName regex keys PR_NAME_PRIVILEGE_BITS = true then none else st.privilegeBits id }

def hasPrivilege (id : Str) (priv : Nat) : Bool :=
  (st.privilegeBits id).any fun bits => bits.testBit priv

/-- `KickClientCallback`: the sessions of the nodes that match, but for the session itself, are to end. -/
def kick (self : Str) (keys : Keys Msg) : IndexedServer regex Msg :=
  let calls := (PathMatcher.putPaths (some DEFAULT_PATH_PREFIX) none keys (.empty : PathMatcher regex Msg)).doTraversal
    st.server.db PathMatcher.skipToNextSession [] true
  { st with ended := st.ended ++ (calls.filterMap fun p => (p.take 2).getLast?).filter fun id =>
      (st.server.member? id).isSome && !(id == self) }

end IndexedServer

/-- The messages of a client. -/
inductive GatewayMessage (Msg : Type) where
  /-- Messages that are answered, passed on to other clients or not known: they change nothing here. -/
  | answered
  | setData (fields : List (Str × Msg)) (quiet : Bool)
  | removeData (keys : Keys Msg) (quiet : Bool)
  | insertOrderedData (keys : Keys Msg) (fields : List (Str × Msg)) (made : Path → Nat → UInt32)
  | reorderData (fields : List (Str × Str))
  | setParameters (fields : List (Field Msg))
  | removeParameters (keys : List Str)
  | getData (keys : Keys Msg)
  | kick (keys : Keys Msg)
  /-- `PR_COMMAND_ADDBANS` and `PR_COMMAND_ADDREQUIRES` -/
  | addBans
  /-- `PR_COMMAND_REMOVEBANS` and `PR_COMMAND_REMOVEREQUIRES` -/
  | removeBans
  | batch (messages : List (GatewayMessage Msg))

namespace IndexedServer

/-- A message for the factory, if the session may send it. -/
def toFactory (self : Str) (priv : Nat) (st : IndexedServer regex Msg) : IndexedServer regex Msg :=
  if st.hasPrivilege self priv then { st with factoryMessages := st.factoryMessages ++ [self] } else st

mutual

/-- `MessageReceivedFromGateway` -/
def messageReceivedFromGateway (self : Str) :
    GatewayMessage Msg → IndexedServer regex Msg → Option (IndexedServer regex Msg)
  | .answered, st => some st
  | .setData fields quiet, st =>
    (fields.foldlM (fun (srv : Server regex Msg) field => srv.setDataNode self field.1 field.2 true true quiet)
      st.server).map fun server => { st with server }
  | .removeData keys quiet, st => st.doRemoveData self (.putPaths none none keys .empty) quiet
  | .insertOrderedData keys fields made, st => st.insertOrderedData self keys fields made
  | .reorderData fields, st => some (st.reorderData self fields)
  | .setParameters fields, st => st.setParameters self fields
  | .removeParameters keys, st => st.removeParameters self keys
  | .getData keys, st => some (st.doGetData self (.putPaths (some DEFAULT_PATH_PREFIX) none keys .empty))
  | .kick keys, st => some (if st.hasPrivilege self PR_PRIVILEGE_KICK then st.kick self keys else st)
  | .addBans, st => some (st.toFactory self PR_PRIVILEGE_ADDBANS)
  | .removeBans, st => some (st.toFactory self PR_PRIVILEGE_REMOVEBANS)
  | .batch messages, st => callMessagesReceived self messages st

/-- `CallMessageReceivedFromGateway` for one message after the other. -/
def callMessagesReceived (self : Str) :
    List (GatewayMessage Msg) → IndexedServer regex Msg → Option (IndexedServer regex Msg)
  | [], st => some st
  | message :: rest, st =>
    match messageReceivedFromGateway self message st with
    | some st => callMessagesReceived self rest st.pushSubscriptionMessages
    | none => none

end

variable (st : IndexedServer regex Msg)

/-- `AttachedToServer`, with the privileges that the server has for the host. -/
def attach (host id : Str) (maxNodeCount privBits : Nat) : Option (IndexedServer regex Msg) :=
  if (st.server.member? id).isSome then some st
  else
    (st.server.attach host id maxNodeCount).map fun server =>
      { st with
        server := server
        privilegeBits := fun i =>
          if i = id then (if privBits = 0 then none else some privBits) else st.privilegeBits i }

/-- The part of `Cleanup` for the node of the session, and that of its host if it was the last one there. -/
def cleanupNodes (m : Member regex Msg) : Option (IndexedServer regex Msg) :=
  if st.server.db.hasChild [] m.host then
    ((st.removeChild m.session.id m.sessionDir true).bind fun st =>
      if st.server.db.children [m.host] = [] then st.removeChild m.session.id [m.host] true else some st).map
        pushSubscriptionMessages
  else some st

def detach (id : Str) : Option (IndexedServer regex Msg) :=
  match st.server.member? id with
  | some m => (st.cleanupNodes m).map fun st =>
      let server := st.server.cleanupMarks m
      { st with
        server := { server with members := server.members.filter fun m => !(m.session.id == id) }
        privilegeBits := fun i => if i = id then none else st.privilegeBits i }
  | none => some st

end IndexedServer

/-- What happens to a server from outside. -/
inductive GatewayEvent (Msg : Type) where
  | attach (host id : Str) (maxNodeCount privBits : Nat)
  | detach (id : Str)
  | received (id : Str) (message : GatewayMessage Msg)

namespace IndexedServer

def step (st : IndexedServer regex Msg) : GatewayEvent Msg → Option (IndexedServer regex Msg)
  | .attach host id maxNodeCount privBits => st.attach host id maxNodeCount privBits
  | .detach id => st.detach id
  | .received id message =>
    if (st.server.member? id).isSome then callMessagesReceived id [message] st else some st

def run (st : IndexedServer regex Msg) (events : List (GatewayEvent Msg)) : Option (IndexedServer regex Msg) :=
  events.foldlM step st

/-- The server before its first session. -/
def start (regex : Regex) (blankMessage : Msg) : IndexedServer regex Msg :=
  ⟨Server.start regex blankMessage, fun _ => none, fun _ => none, [], [], [], []⟩

end IndexedServer

end BeShare.Muscle.Reflect
