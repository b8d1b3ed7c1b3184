import BeShare.Reflect.Session

/-!
How a session learns of changed nodes: `NodeChanged` asks the filters, `NodeChangedAux` writes the change into
the next message to the client.
-/

namespace BeShare.Muscle.Reflect

variable {regex : Regex} {Msg : Type}

namespace DataItems

/-- `CountNames()`: all removed paths are in one field. -/
def countNames (m : DataItems Msg) : Nat :=
  (if m.removed.isEmpty then 0 else 1) + m.items.length

/-- `AddMessage(np, data)`: one more value for the field, or a new field at the end. -/
def addItem (np : Path) (data : Option Msg) : List (Path × List (Option Msg)) → List (Path × List (Option Msg))
  | [] => [(np, [data])]
  | (path, values) :: rest =>
    if path = np then (path, values ++ [data]) :: rest else (path, values) :: addItem np data rest

end DataItems

namespace Session

variable (s : Session regex Msg)

/-- `PushSubscriptionMessage` for this session. -/
def push : Session regex Msg :=
  match s.nextSubscriptionMessage with
  | some m => { s with nextSubscriptionMessage := none, sent := s.sent ++ [m] }
  | none => s

/-- The end of `NodeChangedAux`, with whether it pushed the messages (of all sessions). Reading the names of
a message that is not there is `none`. -/
def pushIfFull : Option (Session regex Msg × Bool) :=
  match s.nextSubscriptionMessage with
  | some m =>
    if s.maxSubscriptionMessageItems.toNat ≤ m.countNames then some (s.push, true) else some (s, false)
  | none => none

def nodeChangedAux (np : Path) (data : Option Msg) (isBeingRemoved : Bool) : Option (Session regex Msg × Bool) :=
  let m := s.nextSubscriptionMessage.getD ⟨[], []⟩
  if isBeingRemoved then
    if m.items.any fun item => item.1 == np then
      -- an addition of the node is pending: send it now, and start again
      match { s.push with nextSubscriptionMessage := some ⟨[np], []⟩ }.pushIfFull with
      | some (s, _) => s.pushIfFull.map fun (s, _) => (s, true)
      | none => none
    else { s with nextSubscriptionMessage := some { m with removed := m.removed ++ [np] } }.pushIfFull
  else { s with nextSubscriptionMessage := some { m with items := DataItems.addItem np data m.items } }.pushIfFull

end Session

/-- What `NodeChanged` makes of a change: nothing, or a notice of an addition or of a removal. -/
def notice (subscriptions : PathMatcher regex Msg) (np : Path) (oldData data : Option Msg)
    (isBeingRemoved : Bool) : Option Bool :=
  if 0 < subscriptions.numFilters then
    if isBeingRemoved then
      if subscriptions.matchesNode np oldData 0 = false then none else some true
    else
      match oldData with
      | some old =>
        if subscriptions.matchesNode np data 0 = false then
          if subscriptions.matchesNode np (some old) 0 then some true else none
        else some false
      | none => if subscriptions.matchesNode np data 0 = false then none else some false
  else some isBeingRemoved

namespace Session

variable (s : Session regex Msg)

def nodeChanged (np : Path) (oldData data : Option Msg) (isBeingRemoved : Bool) :
    Option (Session regex Msg × Bool) :=
  if s.subscriptionsEnabled then
    match notice s.subscriptions np oldData data isBeingRemoved with
    | some removed => s.nodeChangedAux np data removed
    | none => some (s, false)
  else some (s, false)

/-- `filter == NULL || filter->Matches(*msg, &node)`, where the node has data. -/
def filterAccepts (filter : Option (QueryFilter Msg)) (data : Option Msg) (np : Path) : Bool :=
  match data, filter with
  | some msg, some filter => filter.isMatch msg np
  | _, _ => true

/-- The callback `ChangeQueryFilterCallback` on one node: whether it is added or removed. -/
def filterChange (db : Database Msg) (oldFilter newFilter : Option (QueryFilter Msg)) (np : Path) :
    Option (Path × Bool) :=
  let oldMatches := filterAccepts oldFilter (db.data np) np
  let newMatches := filterAccepts newFilter (db.data np) np
  if oldMatches ≠ newMatches then some (np, oldMatches) else none

/-- The calls of `NodeChangedAux` that a changed filter leads to, in the order of the traversal. -/
def filterChanges (regex : Regex) (db : Database Msg) (path : Str) (oldFilter newFilter : Option (QueryFilter Msg)) :
    List (Path × Bool) :=
  match (PathMatcher.empty : PathMatcher regex Msg).putPathString path none with
  | some temp =>
    (temp.doTraversal db PathMatcher.callWithDepth [] false).filterMap (filterChange db oldFilter newFilter)
  | none => []

def applyChanges (db : Database Msg) : List (Path × Bool) → Session regex Msg → Option (Session regex Msg)
  | [], s => some s
  | (np, isBeingRemoved) :: rest, s =>
    match s.nodeChangedAux np (db.data np) isBeingRemoved with
    | some (s, _) => applyChanges db rest s
    | none => none

end Session

end BeShare.Muscle.Reflect
