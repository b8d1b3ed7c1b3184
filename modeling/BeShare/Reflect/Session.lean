import BeShare.Reflect.Traversal

/-!
The parameters of a `StorageReflectSession` and its subscriptions, as the two commands that change them do.
What a change means for the nodes is an effect that the server carries out.
-/

namespace BeShare.Muscle.Reflect

variable {regex : Regex} {Msg : Type}

def PR_NAME_KEYS : Str := ['!', 'S', 'n', 'K', 'y']
def PR_NAME_FILTERS : Str := ['!', 'S', 'n', 'F', 'l']
def PR_NAME_SUBSCRIBE_QUIETLY : Str := ['!', 'S', 'n', 'Q', 's']
def PR_NAME_REFLECT_TO_SELF : Str := ['!', 'S', 'e', 'l', 'f']
def PR_NAME_DISABLE_SUBSCRIPTIONS : Str := ['!', 'D', 's', 'u', 'b']
def PR_NAME_MAX_UPDATE_MESSAGE_ITEMS : Str := ['!', 'M', 'x', 'U', 'p']
def PR_NAME_PRIVILEGE_BITS : Str := ['!', 'P', 'r', 'i', 'v']
def PR_NAME_SUBSCRIBE_PREFIX : Str := ['S', 'U', 'B', 'S', 'C', 'R', 'I', 'B', 'E', ':']
def DEFAULT_MAX_SUBSCRIPTION_MESSAGE_SIZE : UInt32 := 50

/-- A `PR_RESULT_DATAITEMS` message: the removed paths, and the data of the other paths in their order. -/
structure DataItems (Msg : Type) where
  removed : List Path
  items : List (Path × List (Option Msg))

structure Session (regex : Regex) (Msg : Type) where
  id : Str
  subscriptions : PathMatcher regex Msg
  /-- The names of the fields of `_parameters`. -/
  parameters : List Str
  reflectToSelf : Bool
  subscriptionsEnabled : Bool
  maxSubscriptionMessageItems : UInt32
  /-- `_nextSubscriptionMessage` -/
  nextSubscriptionMessage : Option (DataItems Msg)
  /-- The messages with data items that were sent to the client. -/
  sent : List (DataItems Msg)

/-- A field of a `PR_COMMAND_SETPARAMETERS` message: its name, and what is read of its value. -/
structure Field (Msg : Type) where
  name : Str
  filter : Option (QueryFilter Msg)
  int32 : Option UInt32

/-- What a change of a subscription does to the nodes that its path matches. -/
inductive Effect (Msg : Type) where
  | subscribeRef (path : Str) (delta : Int)
  | changeQueryFilter (path : Str) (oldFilter newFilter : Option (QueryFilter Msg))

/-- `CopyName` into `_parameters` -/
def copyName (name : Str) (parameters : List Str) : List Str :=
  if name ∈ parameters then parameters else parameters ++ [name]

/-- The path of a parameter with the prefix of subscriptions. -/
def subscriptionPath (name : Str) : Option Str :=
  if name.take 10 = PR_NAME_SUBSCRIBE_PREFIX then some (adjustStringPrefix (name.drop 10) DEFAULT_PATH_PREFIX)
  else none

namespace Session

variable (s : Session regex Msg)

/-- The body of the loop for one subscription. -/
def subscribeTo (fixPath : Str) (filter : Option (QueryFilter Msg)) : Session regex Msg × Option (Effect Msg) :=
  match s.subscriptions.get fixPath with
  | some e =>
    if s.subscriptionsEnabled && (filter.isSome || e.filter.isSome) then
      (s, some (.changeQueryFilter fixPath e.filter filter))
    else (s, none)
  | none =>
    match s.subscriptions.putPathString fixPath filter with
    | some subscriptions => ({ s with subscriptions }, some (.subscribeRef fixPath 1))
    | none => (s, none)

/-- The body of the loop of `PR_COMMAND_SETPARAMETERS`. The keys and filters go to the default message route,
not to the parameters. -/
def setParameter (f : Field Msg) : Session regex Msg × Option (Effect Msg) :=
  match subscriptionPath f.name with
  | some fixPath =>
    let (s, effect) := s.subscribeTo fixPath f.filter
    ({ s with parameters := copyName f.name s.parameters }, effect)
  | none =>
    if f.name = PR_NAME_REFLECT_TO_SELF then
      ({ s with reflectToSelf := true, parameters := copyName f.name s.parameters }, none)
    else if f.name = PR_NAME_DISABLE_SUBSCRIPTIONS then
      ({ s with subscriptionsEnabled := false, parameters := copyName f.name s.parameters }, none)
    else if f.name = PR_NAME_MAX_UPDATE_MESSAGE_ITEMS then
      ({ s with
          maxSubscriptionMessageItems := f.int32.getD s.maxSubscriptionMessageItems
          parameters := copyName f.name s.parameters }, none)
    else if f.name ∈ [PR_NAME_KEYS, PR_NAME_FILTERS, PR_NAME_SUBSCRIBE_QUIETLY, PR_NAME_PRIVILEGE_BITS] then
      (s, none)
    else ({ s with parameters := copyName f.name s.parameters }, none)

/-- The parameters whose names match a key of `PR_COMMAND_REMOVEPARAMETERS`. -/
def toRemove (keys : List Str) : List Str :=
  keys.flatMap fun key =>
    match StringMatcher.setPattern regex key with
    | some matcher => s.parameters.filter matcher.isMatch
    | none => []

/-- The body of the loop of `PR_COMMAND_REMOVEPARAMETERS`. -/
def removeParameter (paramName : Str) : Session regex Msg × Option (Effect Msg) :=
  if paramName ∈ s.parameters then
    let s := { s with parameters := s.parameters.filter (· ≠ paramName) }
    match subscriptionPath paramName with
    | some str =>
      match s.subscriptions.removePathString str with
      | some subscriptions => ({ s with subscriptions }, some (.subscribeRef str (-1)))
      | none => (s, none)
    | none =>
      if paramName = PR_NAME_REFLECT_TO_SELF then ({ s with reflectToSelf := false }, none)
      else if paramName = PR_NAME_DISABLE_SUBSCRIPTIONS then ({ s with subscriptionsEnabled := true }, none)
      else if paramName = PR_NAME_MAX_UPDATE_MESSAGE_ITEMS then
        ({ s with maxSubscriptionMessageItems := DEFAULT_MAX_SUBSCRIPTION_MESSAGE_SIZE }, none)
      else (s, none)
  else (s, none)

end Session

/-- The two commands that change the parameters. -/
inductive ParameterCommand (Msg : Type) where
  | setParameters (fields : List (Field Msg))
  | removeParameters (keys : List Str)

namespace Session

/-- What a command does to the session itself. The parameters to remove are taken from the last one on. -/
def exec (s : Session regex Msg) : ParameterCommand Msg → Session regex Msg
  | .setParameters fields => fields.foldl (fun s f => (s.setParameter f).1) s
  | .removeParameters keys => (s.toRemove keys).reverse.foldl (fun s name => (s.removeParameter name).1) s

def run (s : Session regex Msg) (commands : List (ParameterCommand Msg)) : Session regex Msg :=
  commands.foldl exec s

end Session

end BeShare.Muscle.Reflect
