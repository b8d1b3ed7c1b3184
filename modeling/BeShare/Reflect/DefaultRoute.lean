import BeShare.Reflect.Routing
import BeShare.Reflect.Parameters

/-!
The default message route through every run of the commands that set and remove parameters. Its keys are moved out of
the message before they could be copied to the parameters, so that the parameters never have keys.
-/

namespace BeShare.Muscle.Reflect

open PathMatcher

variable {regex : Regex} {Msg : Type}

/-- A field of a `PR_COMMAND_SETPARAMETERS` message, with its value if it is one of the route's. -/
structure RouteField (Msg : Type) where
  field : Field Msg
  value : RouteValue Msg

inductive RouteCommand (Msg : Type) where
  | setParameters (fields : List (RouteField Msg))
  | removeParameters (keys : List Str)

def RouteCommand.parameterCommand : RouteCommand Msg → ParameterCommand Msg
  | .setParameters fields => .setParameters (fields.map RouteField.field)
  | .removeParameters keys => .removeParameters keys

/-- `MoveName` into the route's message -/
def RouteMessage.moveName (route : RouteMessage Msg) (name : Str) (value : RouteValue Msg) : RouteMessage Msg :=
  if name = PR_NAME_KEYS then { route with keys := some value }
  else if name = PR_NAME_FILTERS then { route with filters := some value }
  else route

/-- `RemoveName` from the route's message -/
def RouteMessage.removeName (route : RouteMessage Msg) (name : Str) : RouteMessage Msg :=
  if name = PR_NAME_KEYS then { route with keys := none }
  else if name = PR_NAME_FILTERS then { route with filters := none }
  else route

/-- The field is one of the route's. -/
def isRouteName (name : Str) : Bool :=
  decide (name = PR_NAME_KEYS ∨ name = PR_NAME_FILTERS)

namespace DefaultRoute

/-- A session that was just made has no route. -/
def empty (regex : Regex) (Msg : Type) : DefaultRoute regex Msg :=
  ⟨⟨none, none⟩, .empty⟩

variable (route : DefaultRoute regex Msg)

/-- `UpdateDefaultMessageRoute`, if it was asked for -/
def update (asked : Bool) : DefaultRoute regex Msg :=
  if asked then { route with matcher := route.message.matcher regex } else route

/-- What a command does to the route. Only a parameter that is there is removed from it. -/
def exec (s : Session regex Msg) : RouteCommand Msg → DefaultRoute regex Msg
  | .setParameters fields =>
    DefaultRoute.update
      { route with message := fields.foldl (fun route f => route.moveName f.field.name f.value) route.message }
      (fields.any fun f => isRouteName f.field.name)
  | .removeParameters keys =>
    let removed := (s.toRemove keys).reverse.filter fun name => decide (name ∈ s.parameters)
    DefaultRoute.update { route with message := removed.foldl RouteMessage.removeName route.message }
      (removed.any isRouteName)

end DefaultRoute

/-- The session and its route after the commands. -/
def runRoute : List (RouteCommand Msg) → Session regex Msg × DefaultRoute regex Msg →
    Session regex Msg × DefaultRoute regex Msg
  | [], state => state
  | command :: rest, (s, route) => runRoute rest (s.exec command.parameterCommand, route.exec s command)

/-! ### What should be set -/

/-- A key of `PR_COMMAND_REMOVEPARAMETERS` matches the name. -/
def removesName (regex : Regex) (keys : List Str) (name : Str) : Bool :=
  keys.any fun key => (StringMatcher.setPattern regex key).any fun matcher => matcher.isMatch name

/-- The keys and filters that were most recently set as parameters and not since removed. -/
def RouteMessage.afterCommand (regex : Regex) (route : RouteMessage Msg) : RouteCommand Msg → RouteMessage Msg
  | .setParameters fields => fields.foldl (fun route f => route.moveName f.field.name f.value) route
  | .removeParameters keys =>
    { keys := if removesName regex keys PR_NAME_KEYS then none else route.keys
      filters := if removesName regex keys PR_NAME_FILTERS then none else route.filters }

def mostRecentlySet (regex : Regex) (commands : List (RouteCommand Msg)) : RouteMessage Msg :=
  commands.foldl (RouteMessage.afterCommand regex) ⟨none, none⟩

/-- There are keys that are strings. -/
def RouteMessage.HasKeys (route : RouteMessage Msg) : Prop :=
  ∃ keys, route.keys = some (.strings keys)

/-! ### The parameters never have keys -/

variable {s : Session regex Msg}

theorem keys_not_subscription : subscriptionPath PR_NAME_KEYS = none := by
  decide

theorem keys_not_mem_setParameter (h : PR_NAME_KEYS ∉ s.parameters) (f : Field Msg) :
    PR_NAME_KEYS ∉ (s.setParameter f).1.parameters := by
  have hCopy : ∀ {parameters : List Str}, PR_NAME_KEYS ∉ parameters → f.name ≠ PR_NAME_KEYS →
      PR_NAME_KEYS ∉ copyName f.name parameters := by
    intro parameters hNot hName hIn
    rcases Session.mem_copyName.mp hIn with hSame | hIn
    · exact hName hSame.symm
    · exact hNot hIn
  unfold Session.setParameter
  split
  next fixPath hPath =>
    have hName : f.name ≠ PR_NAME_KEYS := by
      intro hSame
      rw [hSame, keys_not_subscription] at hPath
      cases hPath
    refine hCopy ?_ hName
    unfold Session.subscribeTo
    split
    · split <;> exact h
    · split <;> exact h
  next =>
    by_cases hName : f.name = PR_NAME_KEYS
    · have hKept : f.name ∈ [PR_NAME_KEYS, PR_NAME_FILTERS, PR_NAME_SUBSCRIBE_QUIETLY, PR_NAME_PRIVILEGE_BITS] := by
        simp [hName]
      rw [if_neg (by rw [hName]; decide), if_neg (by rw [hName]; decide), if_neg (by rw [hName]; decide),
        if_pos hKept]
      exact h
    · split
      · exact hCopy h hName
      · split
        · exact hCopy h hName
        · split
          · exact hCopy h hName
          · split
            · exact h
            · exact hCopy h hName

theorem keys_not_mem_removeParameter (h : PR_NAME_KEYS ∉ s.parameters) (name : Str) :
    PR_NAME_KEYS ∉ (s.removeParameter name).1.parameters := by
  rw [(s.removeParameter_spec name).1]
  exact fun hIn => h (List.mem_of_mem_filter hIn)

theorem keys_not_mem_exec (h : PR_NAME_KEYS ∉ s.parameters) (command : ParameterCommand Msg) :
    PR_NAME_KEYS ∉ (s.exec command).parameters := by
  cases command with
  | setParameters fields =>
    unfold Session.exec
    induction fields generalizing s with
    | nil => exact h
    | cons f rest ih => exact ih (keys_not_mem_setParameter h f)
  | removeParameters keys =>
    show PR_NAME_KEYS ∉ ((s.toRemove keys).reverse.foldl (fun s name => (s.removeParameter name).1) s).parameters
    generalize (s.toRemove keys).reverse = names
    induction names generalizing s with
    | nil => exact h
    | cons name rest ih => exact ih (keys_not_mem_removeParameter h name)

theorem keys_not_mem_runRoute (commands : List (RouteCommand Msg)) {route : DefaultRoute regex Msg}
    (h : PR_NAME_KEYS ∉ s.parameters) : PR_NAME_KEYS ∉ (runRoute commands (s, route)).1.parameters := by
  induction commands generalizing s route with
  | nil => exact h
  | cons command rest ih => exact ih (keys_not_mem_exec h command.parameterCommand)

theorem keys_not_mem_attached (sessionID : Str) (privileged : Bool) :
    PR_NAME_KEYS ∉ (Session.attached regex Msg sessionID privileged).parameters := by
  cases privileged <;> simp [Session.attached, PR_NAME_KEYS, PR_NAME_PRIVILEGE_BITS]

/-! ### Where messages without keys go -/

namespace Server

variable {srv : Server regex Msg} {self : Str}

/-- The message went to the sessions with nodes that match the keys which are set, or to all if none are. -/
def FollowsRoute (srv : Server regex Msg) (self : Str) (set : RouteMessage Msg)
    (deliveries : List (Str × Option Path)) : Prop :=
  ∀ id, id ∈ deliveries.map Prod.fst ↔ srv.MayReceive self id ∧
    (set.HasKeys → ∃ q, srv.MatchingNode (set.matcher regex) q ∧ (q.take 2).getLast? = some id)

/-- Without keys among the parameters a message without keys goes to all. -/
theorem mem_forwarded_of_keys_not_mem (hLiteral : regex.Literal) {m : Member regex Msg}
    (hm : srv.member? self = some m) (hKeys : PR_NAME_KEYS ∉ m.session.parameters)
    {route : DefaultRoute regex Msg} {what : UInt32} {filters : Option (RouteValue Msg)} {id : Str}
    (hWhat : muscleInRange what BEGIN_PR_COMMANDS END_PR_COMMANDS = false) :
    id ∈ (srv.forwarded self route ⟨what, none, filters⟩).map Prod.fst ↔ srv.MayReceive self id := by
  have hNone : srv.parametersHaveKeys self = false := by
    simp [parametersHaveKeys, hm, hKeys]
  rw [mem_forwarded hLiteral hWhat]
  refine and_iff_left fun hHave => ?_
  rw [hNone] at hHave
  cases hHave

/-- After any commands a message without keys goes where the keys that are set say exactly if no keys are set, or if
they match a node of every session. -/
theorem forwarded_followsRoute_iff (hLiteral : regex.Literal) (sessionID : Str) (privileged : Bool)
    (commands : List (RouteCommand Msg)) (srv : Server regex Msg) (self : Str) (m : Member regex Msg)
    (hm : srv.member? self = some m)
    (hParameters : m.session.parameters =
      (runRoute commands (Session.attached regex Msg sessionID privileged, .empty regex Msg)).1.parameters)
    (what : UInt32) (filters : Option (RouteValue Msg))
    (hWhat : muscleInRange what BEGIN_PR_COMMANDS END_PR_COMMANDS = false) :
    srv.FollowsRoute self (mostRecentlySet regex commands)
        (srv.forwarded self
          (runRoute commands (Session.attached regex Msg sessionID privileged, .empty regex Msg)).2
          ⟨what, none, filters⟩) ↔
      ((mostRecentlySet regex commands).HasKeys → ∀ id, srv.MayReceive self id →
        ∃ q, srv.MatchingNode ((mostRecentlySet regex commands).matcher regex) q ∧
          (q.take 2).getLast? = some id) := by
  have hKeys : PR_NAME_KEYS ∉ m.session.parameters := by
    rw [hParameters]
    exact keys_not_mem_runRoute commands (keys_not_mem_attached sessionID privileged)
  unfold FollowsRoute
  simp only [mem_forwarded_of_keys_not_mem hLiteral hm hKeys hWhat]
  constructor
  · exact fun h hSet id hMay => ((h id).mp hMay).2 hSet
  · exact fun h id => ⟨fun hMay => ⟨hMay, fun hSet => h hSet id hMay⟩, And.left⟩

/-- A route to the sessions with a node `c`. -/
def routeToC : List (RouteCommand Nat) :=
  [.setParameters [⟨⟨PR_NAME_KEYS, none, none⟩, .strings [['c']]⟩]]

theorem forwarded_followsRoute_iff_routeToC : ∃ m, afterTwoNodes.member? ['s'] = some m ∧
    (afterTwoNodes.FollowsRoute ['s'] (mostRecentlySet oneCharacter routeToC)
        (afterTwoNodes.forwarded ['s']
          (runRoute routeToC (Session.attached oneCharacter Nat ['s'] false, .empty oneCharacter Nat)).2
          ⟨1, none, none⟩) ↔
      ((mostRecentlySet oneCharacter routeToC).HasKeys → ∀ id, afterTwoNodes.MayReceive ['s'] id →
        ∃ q, afterTwoNodes.MatchingNode ((mostRecentlySet oneCharacter routeToC).matcher oneCharacter) q ∧
          (q.take 2).getLast? = some id)) :=
  ⟨_, rfl, forwarded_followsRoute_iff oneCharacter_literal ['s'] false routeToC afterTwoNodes ['s'] _ rfl rfl 1 none
    (by decide)⟩

/-- No session has a node `c`, and still the message goes to the other session. -/
theorem routeToC_broadcast :
    ¬ ∀ (commands : List (RouteCommand Nat)) (events : List (ServerEvent Nat)) (srv : Server oneCharacter Nat),
      (start oneCharacter 0).run events = some srv → ∀ self m, srv.member? self = some m →
        m.session.parameters =
          (runRoute commands (Session.attached oneCharacter Nat self false, .empty oneCharacter Nat)).1.parameters →
        ∀ what filters, muscleInRange what BEGIN_PR_COMMANDS END_PR_COMMANDS = false →
          srv.FollowsRoute self (mostRecentlySet oneCharacter commands)
            (srv.forwarded self
              (runRoute commands (Session.attached oneCharacter Nat self false, .empty oneCharacter Nat)).2
              ⟨what, none, filters⟩) := by
  intro h
  have hFollows := h routeToC twoNodes afterTwoNodes rfl ['s'] _ rfl rfl 1 none (by decide) ['t']
  obtain ⟨-, hMatching⟩ := hFollows.mp (by decide)
  obtain ⟨q, ⟨hq, hMatches⟩, -⟩ := hMatching ⟨_, rfl⟩
  revert q
  decide

end Server

end BeShare.Muscle.Reflect
