import BeShare.Reflect.Nodes
import BeShare.Reflect.Notify

/-!
The server: its `StorageReflectSession`s and their tree of nodes, and what the sessions do to it when they attach,
detach and receive messages from their clients. `none` is a crash.
-/

namespace BeShare.Muscle.Reflect

structure Member (regex : Regex) (Msg : Type) where
  host : Str
  session : Session regex Msg
  indexingPresent : Bool
  currentNodeCount : Nat
  maxNodeCount : Nat

structure Server (regex : Regex) (Msg : Type) where
  members : List (Member regex Msg)
  db : Database Msg
  blankMessage : Msg

variable {regex : Regex} {Msg : Type}

namespace Member

variable (m : Member regex Msg)

/-- The path of the session's own node, `_sessionDir`. -/
def sessionDir : Path := [m.host, m.session.id]

/-- A session that was just made. -/
def new (regex : Regex) (Msg : Type) (host id : Str) (maxNodeCount : Nat) : Member regex Msg where
  host := host
  session :=
    { id := id
      subscriptions := .empty
      parameters := []
      reflectToSelf := false
      subscriptionsEnabled := true
      maxSubscriptionMessageItems := DEFAULT_MAX_SUBSCRIPTION_MESSAGE_SIZE
      nextSubscriptionMessage := none
      sent := [] }
  indexingPresent := false
  currentNodeCount := 0
  maxNodeCount := maxNodeCount

end Member

/-- The tree with nothing but its root. -/
def Database.root (data : Msg) : Database Msg where
  nodes := [([], ⟨some data, []⟩)]
  nodup := List.nodup_singleton _
  parent := by simp

namespace PathMatcher

variable (m : PathMatcher regex Msg)

/-- `PutPathFromString`; what does not make a pattern leaves the table as it was. -/
def putPathFromString (str : Str) (filter : Option (QueryFilter Msg)) (prependIfNoLeadingSlash : Option Str) :
    PathMatcher regex Msg :=
  let path :=
    match prependIfNoLeadingSlash, str with
    | some prepend, _ => adjustStringPrefix str prepend
    | none, '/' :: rest => rest
    | none, _ => str
  (m.putPathString path filter).getD m

/-- The loop of `PutPathsFromMessage` over the keys, each with the filter of its own if the message has one. The
filter before it is used for a key that has none. -/
def putPaths (prependIfNoLeadingSlash : Option Str) :
    Option (QueryFilter Msg) → List (Str × Option (Option (QueryFilter Msg))) → PathMatcher regex Msg →
      PathMatcher regex Msg
  | _, [], m => m
  | filter, (str, own) :: keys, m =>
    putPaths prependIfNoLeadingSlash (own.getD filter) keys
      (m.putPathFromString str (own.getD filter) prependIfNoLeadingSlash)

end PathMatcher

namespace Server

variable (srv : Server regex Msg)

/-- `GetSession(id)` -/
def member? (id : Str) : Option (Member regex Msg) :=
  srv.members.find? fun m => m.session.id == id

def updateMember (id : Str) (f : Member regex Msg → Member regex Msg) : Server regex Msg :=
  { srv with members := srv.members.map fun m => if m.session.id = id then f m else m }

def pushSubscriptionMessages : Server regex Msg :=
  { srv with members := srv.members.map fun m => { m with session := m.session.push } }

/-! ### Notices -/

/-- A change of a session that may push the messages of all sessions. -/
def deliver (id : Str) (change : Session regex Msg → Option (Session regex Msg × Bool)) :
    Option (Server regex Msg) :=
  match srv.member? id with
  | some m =>
    match change m.session with
    | some (s, pushed) =>
      let srv := srv.updateMember id fun m => { m with session := s }
      some (if pushed then srv.pushSubscriptionMessages else srv)
    | none => none
  | none => some srv

def reflectsToSelf (id : Str) : Bool :=
  (srv.member? id).any fun m => m.session.reflectToSelf

def notifySubscribersThatNodeChanged (self : Str) (p : Path) (oldData : Option Msg) (isBeingRemoved : Bool) :
    Option (Server regex Msg) :=
  (((srv.db.node? p).map DataNode.subscribers).getD []).foldlM (fun srv next =>
    if next.1 ≠ self ∨ srv.reflectsToSelf self = true then
      srv.deliver next.1 fun s => s.nodeChanged p oldData (srv.db.data p) isBeingRemoved
    else some srv) srv

/-! ### Nodes -/

/-- A new node as `NotifySubscribersOfNewNode` marks it: all sessions count their patterns. -/
def newNode (p : Path) (data : Msg) : DataNode Msg :=
  srv.members.foldl (fun n m =>
    n.incrementSubscriptionRefCount m.session.id (m.session.subscriptions.getMatchCount p none 0)) ⟨some data, []⟩

def putChild (self : Str) (node : Path) (name : Str) (data : Msg) (notify : Bool) : Option (Server regex Msg) :=
  let oldData := srv.db.data (node ++ [name])
  let srv := { srv with db := srv.db.putChild node name (srv.newNode (node ++ [name]) data) }
  if notify then srv.notifySubscribersThatNodeChanged self (node ++ [name]) oldData false else some srv

/-- `SetData` of a node -/
def setData (self : Str) (p : Path) (data : Msg) (notify isBeingCreated : Bool) : Option (Server regex Msg) :=
  let oldData := if isBeingCreated then none else srv.db.data p
  let srv := { srv with db := srv.db.modify p fun n => { n with data := some data } }
  if notify then srv.notifySubscribersThatNodeChanged self p oldData false else some srv

/-- The nodes of a subtree in the order in which `RemoveChild` removes them. -/
def removalOrder (db : Database Msg) : Nat → Path → List Path
  | 0, p => [p]
  | levels + 1, p => ((db.children p).flatMap fun name => removalOrder db levels (p ++ [name])) ++ [p]

def subtree (db : Database Msg) (p : Path) : List Path :=
  removalOrder db ((db.paths.map List.length).foldr max 0) p

/-- The end of `RemoveChild`, when the children are gone. -/
def removeNode (self : Str) (notify : Bool) (srv : Server regex Msg) (p : Path) : Option (Server regex Msg) :=
  (if notify then srv.notifySubscribersThatNodeChanged self p (srv.db.data p) true else some srv).map fun srv =>
    { srv with db := srv.db.dropNode p }

/-- `RemoveChild` of the parent, with all that is below. -/
def removeChild (self : Str) (p : Path) (notify : Bool) : Option (Server regex Msg) :=
  if p ∈ srv.db.paths then (subtree srv.db p).foldlM (removeNode self notify) srv else some srv

/-! ### Commands -/

def countNodes (self : Str) (count : Nat → Nat) : Server regex Msg :=
  srv.updateMember self fun m => { m with currentNodeCount := count m.currentNodeCount }

/-- `_currentNodeCount < _maxNodeCount` -/
def hasRoom (self : Str) : Bool :=
  (srv.member? self).any fun m => decide (m.currentNodeCount < m.maxNodeCount)

/-- The loop of `SetDataNode` over the clauses of the path. Where the code returns `B_ERROR` the tree stays as it
is then. -/
def setDataLoop (self : Str) (data : Msg) (overwrite create quiet : Bool) :
    Path → List Str → Server regex Msg → Option (Server regex Msg)
  | _, [], srv => some srv
  | node, clause :: rest, srv =>
    if srv.db.hasChild node clause then
      if rest.isEmpty then
        if overwrite then srv.setData self (node ++ [clause]) data (!quiet) false else some srv
      else setDataLoop self data overwrite create quiet (node ++ [clause]) rest srv
    else if create && srv.hasRoom self then
      (srv.putChild self node clause (if rest.isEmpty then data else srv.blankMessage)
        (!(quiet || rest.isEmpty))).bind fun srv =>
          let srv := srv.countNodes self (· + 1)
          if rest.isEmpty then srv.setData self (node ++ [clause]) data (!quiet) true
          else setDataLoop self data overwrite create quiet (node ++ [clause]) rest srv
    else some srv

def setDataNode (self : Str) (nodePath : Str) (data : Msg) (overwrite create quiet : Bool) :
    Option (Server regex Msg) :=
  match srv.member? self with
  | some m =>
    match nodePath with
    | [] => some srv
    | c :: _ =>
      if c = '/' then some srv
      else setDataLoop self data overwrite create quiet m.sessionDir (splitClauses nodePath) srv
  | none => some srv

/-- `RemoveDataCallback` returns the depth of the parent: no sense in recursing. -/
def removeDataCallback (p : Path) : Int :=
  if 2 < p.length then (p.length : Int) - 1 else p.length

/-- One step of the loop of `DoRemoveData` -/
def removeDataStep (self : Str) (quiet : Bool) (srv : Server regex Msg) (p : Path) : Option (Server regex Msg) :=
  if p ∈ srv.db.paths ∧ 2 < p.length then
    (srv.removeChild self p (!quiet)).map fun srv' => srv'.countNodes self (· - (subtree srv.db p).length)
  else some srv

def doRemoveData (self : Str) (matcher : PathMatcher regex Msg) (quiet : Bool) : Option (Server regex Msg) :=
  match srv.member? self with
  | some m =>
    (matcher.doTraversal srv.db removeDataCallback m.sessionDir true).reverse.foldlM (removeDataStep self quiet) srv
  | none => some srv

/-- One new child of `InsertOrderedDataCallback`, with the name that the node's counter makes. -/
def insertOrderedStep (self : Str) (srv : Server regex Msg) (insertion : Path × Str × Msg) :
    Option (Server regex Msg) :=
  if insertion.1 ∈ srv.db.paths ∧ srv.db.hasChild insertion.1 insertion.2.1 = false ∧ srv.hasRoom self = true then
    (srv.putChild self insertion.1 insertion.2.1 insertion.2.2 true).map fun srv =>
      srv.updateMember self fun m =>
        { m with indexingPresent := true, currentNodeCount := m.currentNodeCount + 1 }
  else some srv

/-- The insertions of a message are at nodes of the session's own. -/
def insertOrderedData (self : Str) (insertions : List (Path × Str × Msg)) : Option (Server regex Msg) :=
  match srv.member? self with
  | some m => (insertions.filter fun i => decide (m.sessionDir <+: i.1)).foldlM (insertOrderedStep self) srv
  | none => some srv

/-- The node is in the tree of the session with this ID. -/
def inSubtreeOf (id : Str) (p : Path) : Bool :=
  p[1]? == some id

/-- `GetDataCallback`: the depth it returns, which is that of a session for nodes that are not told. -/
def getDataDepth (self : Str) (skipsOwn : Bool) (p : Path) : Int :=
  if skipsOwn && inSubtreeOf self p then 2 else p.length

/-- The messages of a `DoGetData`: items are added until a message is full. -/
def getDataResults (db : Database Msg) (maxItems : Nat) : DataItems Msg → List Path → List (DataItems Msg)
  | m, [] => if m.items.isEmpty then [] else [m]
  | m, p :: rest =>
    let m := { m with items := DataItems.addItem p (db.data p) m.items }
    if maxItems ≤ m.countNames then m :: getDataResults db maxItems ⟨[], []⟩ rest
    else getDataResults db maxItems m rest

def doGetData (self : Str) (matcher : PathMatcher regex Msg) : Server regex Msg :=
  srv.updateMember self fun m =>
    let skipsOwn := !m.session.reflectToSelf && !m.indexingPresent
    let calls := matcher.doTraversal srv.db (getDataDepth self skipsOwn) [] true
    let told := calls.filter fun p => !(skipsOwn && inSubtreeOf self p)
    let results := getDataResults srv.db m.session.maxSubscriptionMessageItems.toNat ⟨[], []⟩ told
    { m with session := { m.session with sent := m.session.sent ++ results } }

/-- Carries out what a change of a subscription means for the nodes. -/
def applyEffect (self : Str) : Effect Msg → Option (Server regex Msg)
  | .subscribeRef path delta =>
    match (PathMatcher.empty : PathMatcher regex Msg).putPathString path none with
    | some temp =>
      some { srv with
        db := (temp.doTraversal srv.db PathMatcher.callWithDepth [] false).foldl
          (fun db p => db.modify p fun n => n.incrementSubscriptionRefCount self delta) srv.db }
    | none => some srv
  | .changeQueryFilter path oldFilter newFilter =>
    (Session.filterChanges regex srv.db path oldFilter newFilter).foldlM (fun srv change =>
      srv.deliver self fun s => s.nodeChangedAux change.1 (srv.db.data change.1) change.2) srv

/-- A step of the loops over parameters: the session changes, then the nodes. -/
def parameterStep (self : Str) (change : Session regex Msg → Session regex Msg × Option (Effect Msg)) :
    Option (Server regex Msg) :=
  match srv.member? self with
  | some m =>
    let (s, effect) := change m.session
    let srv := srv.updateMember self fun m => { m with session := s }
    match effect with
    | some effect => srv.applyEffect self effect
    | none => some srv
  | none => some srv

/-- The keys of the `getMsg` that a message with subscriptions leads to. -/
def getKeys (fields : List (Field Msg)) : List (Str × Option (Option (QueryFilter Msg))) :=
  (fields.filter fun f => (subscriptionPath f.name).isSome).map fun f => (f.name.drop 10, some f.filter)

def setParameters (self : Str) (fields : List (Field Msg)) : Option (Server regex Msg) :=
  (fields.foldlM (fun (srv : Server regex Msg) f => srv.parameterStep self fun s => s.setParameter f) srv).map
    fun srv =>
    if (fields.any fun f => f.name == PR_NAME_SUBSCRIBE_QUIETLY) || (getKeys fields).isEmpty then srv
    else srv.doGetData self (.putPaths (some DEFAULT_PATH_PREFIX) none (getKeys fields) .empty)

def removeParameters (self : Str) (keys : List Str) : Option (Server regex Msg) :=
  match srv.member? self with
  | some m =>
    (m.session.toRemove keys).reverse.foldlM
      (fun (srv : Server regex Msg) name => srv.parameterStep self fun s => s.removeParameter name) srv
  | none => some srv

end Server

/-- The messages of a client that concern its nodes and subscriptions. -/
inductive ClientMessage (Msg : Type) where
  | setData (fields : List (Str × Msg)) (quiet : Bool)
  | removeData (keys : List (Str × Option (Option (QueryFilter Msg)))) (quiet : Bool)
  | insertOrderedData (insertions : List (Path × Str × Msg))
  | setParameters (fields : List (Field Msg))
  | removeParameters (keys : List Str)
  | getData (keys : List (Str × Option (Option (QueryFilter Msg))))
  | batch (messages : List (ClientMessage Msg))

namespace Server

mutual

/-- `MessageReceivedFromGateway` -/
def messageReceivedFromGateway (self : Str) : ClientMessage Msg → Server regex Msg → Option (Server regex Msg)
  | .setData fields quiet, srv =>
    fields.foldlM (fun srv field => srv.setDataNode self field.1 field.2 true true quiet) srv
  | .removeData keys quiet, srv => srv.doRemoveData self (.putPaths none none keys .empty) quiet
  | .insertOrderedData insertions, srv => srv.insertOrderedData self insertions
  | .setParameters fields, srv => srv.setParameters self fields
  | .removeParameters keys, srv => srv.removeParameters self keys
  | .getData keys, srv => some (srv.doGetData self (.putPaths (some DEFAULT_PATH_PREFIX) none keys .empty))
  | .batch messages, srv => callMessagesReceived self messages srv

/-- `CallMessageReceivedFromGateway` for one message after the other: after each the notices are pushed. -/
def callMessagesReceived (self : Str) : List (ClientMessage Msg) → Server regex Msg → Option (Server regex Msg)
  | [], srv => some srv
  | message :: rest, srv =>
    match messageReceivedFromGateway self message srv with
    | some srv => callMessagesReceived self rest srv.pushSubscriptionMessages
    | none => none

end

variable (srv : Server regex Msg)

/-- `AttachedToServer`. The server gives each session an ID of its own. -/
def attach (host id : Str) (maxNodeCount : Nat) : Option (Server regex Msg) :=
  if (srv.member? id).isSome then some srv
  else
    let srv := { srv with members := srv.members ++ [Member.new regex Msg host id maxNodeCount] }
    (if srv.db.hasChild [] host then some srv else srv.putChild id [] host srv.blankMessage true).bind fun srv =>
      (srv.putChild id [host] id srv.blankMessage true).map pushSubscriptionMessages

/-- The part of `Cleanup` for the node of the session, and that of its host if it was the last one there. -/
def cleanupNodes (m : Member regex Msg) : Option (Server regex Msg) :=
  if srv.db.hasChild [] m.host then
    ((srv.removeChild m.session.id m.sessionDir true).bind fun srv =>
      if srv.db.children [m.host] = [] then srv.removeChild m.session.id [m.host] true else some srv).map
        pushSubscriptionMessages
  else some srv

/-- The part of `Cleanup` for the marks. Without a session left the tree goes, and is made anew for the next. -/
def cleanupMarks (m : Member regex Msg) : Server regex Msg :=
  if srv.db.children [] = [] then { srv with db := .root srv.blankMessage }
  else
    let marked := m.session.subscriptions.doTraversal srv.db PathMatcher.callWithDepth [] false
    { srv with db := marked.foldl (fun db p => db.modify p fun n => n.removeMark m.session.id) srv.db }

def detach (id : Str) : Option (Server regex Msg) :=
  match srv.member? id with
  | some m => (srv.cleanupNodes m).map fun srv =>
      let srv := srv.cleanupMarks m
      { srv with members := srv.members.filter fun m => !(m.session.id == id) }
  | none => some srv

end Server

/-- What happens to a server from outside. -/
inductive ServerEvent (Msg : Type) where
  | attach (host id : Str) (maxNodeCount : Nat)
  | detach (id : Str)
  | received (id : Str) (message : ClientMessage Msg)

namespace Server

def step (srv : Server regex Msg) : ServerEvent Msg → Option (Server regex Msg)
  | .attach host id maxNodeCount => srv.attach host id maxNodeCount
  | .detach id => srv.detach id
  | .received id message => if (srv.member? id).isSome then callMessagesReceived id [message] srv else some srv

def run (srv : Server regex Msg) (events : List (ServerEvent Msg)) : Option (Server regex Msg) :=
  events.foldlM step srv

/-- The server before its first session. -/
def start (regex : Regex) (blankMessage : Msg) : Server regex Msg :=
  ⟨[], .root blankMessage, blankMessage⟩

end Server

end BeShare.Muscle.Reflect
