import BeShare.Reflect.Server
import BeShare.Reflect.Spots

/-!
Messages from client to client: `MessageReceivedFromGateway` outside of the commands, the callback that passes a
message to the session of a node, and the default message route.
-/

namespace BeShare.Muscle.Reflect

open BeShare.Lib PathMatcher

variable {regex : Regex} {Msg : Type}

def BEGIN_PR_COMMANDS : UInt32 := 558916400
def END_PR_COMMANDS : UInt32 := BEGIN_PR_COMMANDS + 33
def BEGIN_PR_RESULTS : UInt32 := 558920240
def PR_RESULT_PARAMETERS : UInt32 := BEGIN_PR_RESULTS + 1
def PR_RESULT_DATAITEMS : UInt32 := BEGIN_PR_RESULTS + 2
def END_PR_RESULTS : UInt32 := BEGIN_PR_RESULTS + 29

def muscleInRange (v lo hi : UInt32) : Bool :=
  decide (v ≥ lo) && decide (v ≤ hi)

/-- The value of a field of keys or of filters. -/
inductive RouteValue (Msg : Type) where
  | strings (values : List Str)
  | messages (filters : List (Option (QueryFilter Msg)))
  | other

/-- The keys of a `PR_NAME_KEYS` field with the filter that each has in the `PR_NAME_FILTERS` field. -/
def RouteValue.pairs (keys : List Str) (filters : Option (RouteValue Msg)) :
    List (Str × Option (Option (QueryFilter Msg))) :=
  match filters with
  | some (.messages values) => keys.mapIdx fun i key => (key, values[i]?)
  | _ => keys.map fun key => (key, none)

/-- The two fields that `_defaultMessageRouteMessage` can have. -/
structure RouteMessage (Msg : Type) where
  keys : Option (RouteValue Msg)
  filters : Option (RouteValue Msg)

/-- `PutPathsFromMessage` of the two fields. -/
def RouteMessage.matcher (regex : Regex) (route : RouteMessage Msg) : PathMatcher regex Msg :=
  match route.keys with
  | some (.strings keys) => .putPaths (some DEFAULT_PATH_PREFIX) none (RouteValue.pairs keys route.filters) .empty
  | _ => .empty

/-- `_defaultMessageRouteMessage` and `_defaultMessageRoute` of a session. -/
structure DefaultRoute (regex : Regex) (Msg : Type) where
  message : RouteMessage Msg
  matcher : PathMatcher regex Msg

/-- What is read of a message from client to client. -/
structure RoutedMessage (Msg : Type) where
  what : UInt32
  keys : Option (List Str)
  filters : Option (RouteValue Msg)

/-- `PutPathsFromMessage` of the keys of a message. -/
def keysMatcher (regex : Regex) (keys : List Str) (filters : Option (RouteValue Msg)) : PathMatcher regex Msg :=
  .putPaths (some DEFAULT_PATH_PREFIX) none (RouteValue.pairs keys filters) .empty

namespace Server

variable (srv : Server regex Msg) (self : Str)

/-- `PassMessageCallback`: the session that is given the message, with the node. -/
def passMessageCallback (node : Path) : Option (Str × Option Path) :=
  match (node.take 2).getLast? with
  | some name =>
    if (srv.member? name).isSome ∧ (name ≠ self ∨ srv.reflectsToSelf self) then some (name, some node) else none
  | none => none

def passAlong (matcher : PathMatcher regex Msg) : List (Str × Option Path) :=
  (matcher.doTraversal srv.db skipToNextSession [] true).filterMap (srv.passMessageCallback self)

def broadcastToAllSessions (toSelf : Bool) : List (Str × Option Path) :=
  (srv.members.filter fun m => toSelf || !(m.session.id == self)).map fun m => (m.session.id, none)

/-- Whether `_parameters` has keys. Of the parameters there are only the names. -/
def parametersHaveKeys : Bool :=
  (srv.member? self).any fun m => decide (PR_NAME_KEYS ∈ m.session.parameters)

/-- The sessions that `MessageReceivedFromGateway` hands a message of the client to. A command it keeps. -/
def forwarded (route : DefaultRoute regex Msg) (msg : RoutedMessage Msg) : List (Str × Option Path) :=
  if muscleInRange msg.what BEGIN_PR_COMMANDS END_PR_COMMANDS then []
  else
    match msg.keys with
    | some keys => srv.passAlong self (keysMatcher regex keys msg.filters)
    | none =>
      if srv.parametersHaveKeys self then srv.passAlong self route.matcher
      else srv.broadcastToAllSessions self (srv.reflectsToSelf self)

/-! ### What it should do -/

/-- The session can be given a message of this client. -/
def MayReceive (id : Str) : Prop :=
  (srv.member? id).isSome ∧ (id ≠ self ∨ srv.reflectsToSelf self)

/-- The node matches the patterns. -/
def MatchingNode (matcher : PathMatcher regex Msg) (q : Path) : Prop :=
  q ∈ srv.db.paths ∧ matcher.matchesNode q (srv.db.data q) 0 = true

/-- The node is a session's own or below it. -/
def Owns (id : Str) (q : Path) : Prop :=
  q[1]? = some id

/-- Each session with a matching node is handed the message once, and no other session is. -/
def DeliversOnce (matcher : PathMatcher regex Msg) (deliveries : List (Str × Option Path)) : Prop :=
  ∀ id, ((srv.MayReceive self id ∧ ∃ q, srv.MatchingNode matcher q ∧ Owns id q) →
      (deliveries.map Prod.fst).count id = 1) ∧
    (¬ (srv.MayReceive self id ∧ ∃ q, srv.MatchingNode matcher q ∧ Owns id q) →
      (deliveries.map Prod.fst).count id = 0)

variable {srv : Server regex Msg} {self id : Str} {matcher : PathMatcher regex Msg} {q q' : Path}

/-! ### Along matching nodes -/

/-- `passMessageCallback` gives the message to this session. -/
def passesTo (srv : Server regex Msg) (self id : Str) (q : Path) : Bool :=
  decide ((srv.passMessageCallback self q).map Prod.fst = some id)

theorem passesTo_iff : srv.passesTo self id q = true ↔ (q.take 2).getLast? = some id ∧ srv.MayReceive self id := by
  unfold passesTo passMessageCallback MayReceive
  rw [decide_eq_true_iff]
  cases (q.take 2).getLast? with
  | none => simp
  | some name =>
    by_cases hMay : (srv.member? name).isSome ∧ (name ≠ self ∨ srv.reflectsToSelf self)
    · simp only [if_pos hMay, Option.map_some, Option.some.injEq]
      exact ⟨fun h => ⟨h, h ▸ hMay⟩, And.left⟩
    · simp only [if_neg hMay, Option.map_none, reduceCtorEq, Option.some.injEq, false_iff]
      rintro ⟨rfl, h⟩
      exact hMay h

/-- Whom a node's message goes to only depends on the node's spot. -/
theorem passesTo_spot (h : spot q = spot q') : srv.passesTo self id q = srv.passesTo self id q' := by
  have hTake : q.take 2 = q'.take 2 := by
    have h := congrArg (fun s => s.1.take 2) h
    simpa [spot, List.take_take] using h
  rw [Bool.eq_iff_iff, passesTo_iff, passesTo_iff, hTake]

theorem count_passAlong : ((srv.passAlong self matcher).map Prod.fst).count id =
    ((matcher.doTraversal srv.db skipToNextSession [] true).filter (srv.passesTo self id)).length := by
  unfold passAlong passesTo
  induction matcher.doTraversal srv.db skipToNextSession [] true with
  | nil => rfl
  | cons q rest ih =>
    rw [List.filterMap_cons, List.filter_cons]
    cases srv.passMessageCallback self q with
    | none => simpa using ih
    | some delivery =>
      rw [List.map_cons, List.count_cons, ih]
      by_cases hSame : delivery.1 = id <;> simp [hSame]

theorem mem_calls (hLiteral : regex.Literal) :
    q ∈ matcher.doTraversal srv.db callWithDepth [] true ↔ srv.MatchingNode matcher q :=
  mem_doTraversal_root hLiteral

/-- A session is handed the message at all exactly if the message may go to it and it has a matching node. -/
theorem mem_passAlong (hLiteral : regex.Literal) : id ∈ (srv.passAlong self matcher).map Prod.fst ↔
    srv.MayReceive self id ∧ ∃ q, srv.MatchingNode matcher q ∧ (q.take 2).getLast? = some id := by
  have hNone := (doTraversal_onePerSpot matcher srv.db true).filter_eq_nil_iff
    (fun x y => @passesTo_spot regex Msg srv self id x y)
  rw [← List.count_pos_iff, count_passAlong, List.length_pos_iff, Ne, hNone]
  simp only [mem_calls hLiteral, not_forall, Bool.not_eq_false, passesTo_iff]
  constructor
  · rintro ⟨q, hq, hOwner, hMay⟩
    exact ⟨hMay, q, hq, hOwner⟩
  · rintro ⟨hMay, q, hq, hOwner⟩
    exact ⟨q, hq, hOwner, hMay⟩

theorem getLast_take_two (h : 2 ≤ q.length) : (q.take 2).getLast? = some id ↔ Owns id q := by
  unfold Owns
  rcases q with _ | ⟨host, _ | ⟨session, rest⟩⟩
  · cases h
  · simp at h
  · simp

theorem two_le_of_matchingNode (hDepth : ∀ entry ∈ matcher.entries, 2 ≤ entry.parser.length)
    (h : srv.MatchingNode matcher q) : 2 ≤ q.length := by
  have hMatches : matcher.matchesNode q (if true then srv.db.data q else none) 0 = true := h.2
  obtain ⟨entry, hEntry, hFrom, -⟩ := matchesNode_root_iff.mp hMatches
  exact hFrom.1 ▸ hDepth entry hEntry

/-- The nodes of each session that may receive the message which match are of one spot: there is only one, or all
are below one child of the session's node. -/
def OneSpotEach (srv : Server regex Msg) (self : Str) (matcher : PathMatcher regex Msg) : Prop :=
  ∀ id, srv.MayReceive self id → ∀ q q', srv.MatchingNode matcher q → srv.MatchingNode matcher q' →
    Owns id q → Owns id q' → spot q = spot q'

theorem passAlong_deliversOnce_iff (hLiteral : regex.Literal)
    (hDepth : ∀ entry ∈ matcher.entries, 2 ≤ entry.parser.length) :
    srv.DeliversOnce self matcher (srv.passAlong self matcher) ↔ srv.OneSpotEach self matcher := by
  have hOwner : ∀ {id q}, srv.MatchingNode matcher q → ((q.take 2).getLast? = some id ↔ Owns id q) :=
    fun hq => getLast_take_two (two_le_of_matchingNode hDepth hq)
  have hOne : ∀ id, ((srv.passAlong self matcher).map Prod.fst).count id ≤ 1 ↔
      (srv.MayReceive self id → ∀ q q', srv.MatchingNode matcher q → srv.MatchingNode matcher q' →
        Owns id q → Owns id q' → spot q = spot q') := by
    intro id
    rw [count_passAlong, (doTraversal_onePerSpot matcher srv.db true).length_filter_le_one_iff
      (fun x y => @passesTo_spot regex Msg srv self id x y)]
    simp only [mem_calls hLiteral, passesTo_iff]
    constructor
    · intro h hMay q q' hq hq' hOwns hOwns'
      exact h q hq q' hq' ⟨(hOwner hq).mpr hOwns, hMay⟩ ⟨(hOwner hq').mpr hOwns', hMay⟩
    · rintro h q hq q' hq' ⟨hOwns, hMay⟩ ⟨hOwns', -⟩
      exact h hMay q q' hq hq' ((hOwner hq).mp hOwns) ((hOwner hq').mp hOwns')
  have hAny : ∀ id, 0 < ((srv.passAlong self matcher).map Prod.fst).count id ↔
      srv.MayReceive self id ∧ ∃ q, srv.MatchingNode matcher q ∧ Owns id q := by
    intro id
    rw [List.count_pos_iff, mem_passAlong hLiteral]
    refine and_congr_right fun _ => exists_congr fun q => and_congr_right fun hq => hOwner hq
  constructor
  · intro h id
    refine (hOne id).mp ?_
    by_cases hAddressed : srv.MayReceive self id ∧ ∃ q, srv.MatchingNode matcher q ∧ Owns id q
    · exact Nat.le_of_eq ((h id).1 hAddressed)
    · exact Nat.le_trans (Nat.le_of_eq ((h id).2 hAddressed)) (Nat.zero_le 1)
  · intro h id
    refine ⟨fun hAddressed => ?_, fun hNot => ?_⟩
    · exact Nat.le_antisymm ((hOne id).mpr (h id)) ((hAny id).mpr hAddressed)
    · exact Nat.eq_zero_of_not_pos fun hPos => hNot ((hAny id).mp hPos)

/-- A message with keys is handed once to each session with a matching node, and to no other, exactly if no session
has matching nodes of two spots. -/
theorem keys_deliverOnce_iff (hLiteral : regex.Literal) (srv : Server regex Msg) (self : Str)
    (route : DefaultRoute regex Msg) (what : UInt32) (keys : List Str) (filters : Option (RouteValue Msg))
    (hWhat : muscleInRange what BEGIN_PR_COMMANDS END_PR_COMMANDS = false)
    (hDepth : ∀ entry ∈ (keysMatcher regex keys filters).entries, 2 ≤ entry.parser.length) :
    srv.DeliversOnce self (keysMatcher regex keys filters) (srv.forwarded self route ⟨what, some keys, filters⟩) ↔
      srv.OneSpotEach self (keysMatcher regex keys filters) := by
  have hForwarded : srv.forwarded self route ⟨what, some keys, filters⟩ =
      srv.passAlong self (keysMatcher regex keys filters) := by
    unfold forwarded
    rw [hWhat]
    rfl
  rw [hForwarded]
  exact passAlong_deliversOnce_iff hLiteral hDepth

/-! ### Any message -/

/-- The message is meant for this session, by its keys or else by the default route. -/
def Addressed (srv : Server regex Msg) (self : Str) (route : DefaultRoute regex Msg) (msg : RoutedMessage Msg)
    (id : Str) : Prop :=
  match msg.keys with
  | some keys => ∃ q, srv.MatchingNode (keysMatcher regex keys msg.filters) q ∧ (q.take 2).getLast? = some id
  | none => srv.parametersHaveKeys self = true →
      ∃ q, srv.MatchingNode route.matcher q ∧ (q.take 2).getLast? = some id

theorem mem_broadcastToAllSessions : id ∈ (srv.broadcastToAllSessions self (srv.reflectsToSelf self)).map Prod.fst ↔
    srv.MayReceive self id := by
  unfold broadcastToAllSessions MayReceive member?
  rw [List.map_map, List.mem_map, List.find?_isSome]
  constructor
  · rintro ⟨m, hm, rfl⟩
    obtain ⟨hIn, hSelf⟩ := List.mem_filter.mp hm
    refine ⟨⟨m, hIn, beq_self_eq_true _⟩, ?_⟩
    rw [Bool.or_eq_true] at hSelf
    exact hSelf.elim .inr fun h => .inl (by simpa using h)
  · rintro ⟨⟨m, hIn, hm⟩, hMay⟩
    obtain rfl := beq_iff_eq.mp hm
    refine ⟨m, List.mem_filter.mpr ⟨hIn, ?_⟩, rfl⟩
    rw [Bool.or_eq_true]
    exact hMay.elim (fun h => .inr (by simpa using h)) .inl

theorem mem_forwarded (hLiteral : regex.Literal) {route : DefaultRoute regex Msg} {msg : RoutedMessage Msg}
    (hWhat : muscleInRange msg.what BEGIN_PR_COMMANDS END_PR_COMMANDS = false) :
    id ∈ (srv.forwarded self route msg).map Prod.fst ↔
      srv.MayReceive self id ∧ srv.Addressed self route msg id := by
  unfold forwarded Addressed
  rw [hWhat]
  cases msg.keys with
  | some keys => exact mem_passAlong hLiteral
  | none =>
    cases hKeys : srv.parametersHaveKeys self with
    | true => simpa using mem_passAlong hLiteral
    | false => simpa using mem_broadcastToAllSessions

/-- The two ranges of codes are apart. -/
theorem result_not_command {what : UInt32} (h : muscleInRange what BEGIN_PR_RESULTS END_PR_RESULTS = true) :
    muscleInRange what BEGIN_PR_COMMANDS END_PR_COMMANDS = false := by
  simp only [muscleInRange, Bool.and_eq_true, decide_eq_true_iff, ge_iff_le, UInt32.le_iff_toNat_le] at h
  simp only [muscleInRange, Bool.and_eq_false_iff, decide_eq_false_iff_not, ge_iff_le, UInt32.le_iff_toNat_le]
  have hEnd : END_PR_COMMANDS.toNat < BEGIN_PR_RESULTS.toNat := by decide
  omega

/-- A message with a code of the server's own results goes to no other session exactly if it would not if it had any
other code: if no other session is addressed. -/
theorem result_notForwarded_iff (hLiteral : regex.Literal) (srv : Server regex Msg) (self : Str)
    (route : DefaultRoute regex Msg) (msg : RoutedMessage Msg)
    (hWhat : muscleInRange msg.what BEGIN_PR_RESULTS END_PR_RESULTS = true) :
    (∀ delivery ∈ srv.forwarded self route msg, delivery.1 = self) ↔
      ∀ id, id ≠ self → (srv.member? id).isSome → ¬ srv.Addressed self route msg id := by
  have hMem := fun id => @mem_forwarded regex Msg srv self id hLiteral route msg (result_not_command hWhat)
  constructor
  · intro h id hOther hSession hAddressed
    obtain ⟨delivery, hDelivery, hId⟩ := List.mem_map.mp ((hMem id).mpr ⟨⟨hSession, .inl hOther⟩, hAddressed⟩)
    exact hOther (hId.symm.trans (h delivery hDelivery))
  · intro h delivery hDelivery
    by_contra hOther
    obtain ⟨⟨hSession, -⟩, hAddressed⟩ := (hMem delivery.1).mp (List.mem_map_of_mem hDelivery)
    exact h delivery.1 hOther hSession hAddressed

/-! ### Two sessions, the second of them with two nodes -/

def twoNodes : List (ServerEvent Nat) :=
  [.attach ['h'] ['s'] 100, .attach ['h'] ['t'] 100,
    .received ['t'] (.setData [(['a'], 1), (['b'], 2)] false)]

def afterTwoNodes : Server oneCharacter Nat :=
  ((start oneCharacter 0).run twoNodes).getD (start oneCharacter 0)

/-- No keys and no default route. -/
def noRoute : DefaultRoute oneCharacter Nat :=
  ⟨⟨none, none⟩, .empty⟩

theorem keys_deliverOnce_iff_twoNodes :
    afterTwoNodes.DeliversOnce ['s'] (keysMatcher oneCharacter [['a']] none)
        (afterTwoNodes.forwarded ['s'] noRoute ⟨1, some [['a']], none⟩) ↔
      afterTwoNodes.OneSpotEach ['s'] (keysMatcher oneCharacter [['a']] none) :=
  keys_deliverOnce_iff oneCharacter_literal afterTwoNodes ['s'] noRoute 1 [['a']] none (by decide) (by decide)

/-- The key `*` matches both nodes of the session, and it is handed the message twice. -/
theorem twoNodes_deliveredTwice :
    ¬ ∀ (events : List (ServerEvent Nat)) (srv : Server oneCharacter Nat),
      (start oneCharacter 0).run events = some srv → ∀ self route what keys filters,
        muscleInRange what BEGIN_PR_COMMANDS END_PR_COMMANDS = false →
        (∀ entry ∈ (keysMatcher oneCharacter keys filters).entries, 2 ≤ entry.parser.length) →
        srv.DeliversOnce self (keysMatcher oneCharacter keys filters)
          (srv.forwarded self route ⟨what, some keys, filters⟩) := by
  intro h
  have hOnce := h twoNodes afterTwoNodes rfl ['s'] noRoute 1 [['*']] none (by decide) (by decide)
  have hCount := (hOnce ['t']).1 ⟨⟨by decide, .inl (by decide)⟩, [['h'], ['t'], ['a']], ⟨by decide, by decide⟩, rfl⟩
  revert hCount
  decide

theorem result_notForwarded_iff_twoNodes :
    (∀ delivery ∈ afterTwoNodes.forwarded ['s'] noRoute ⟨PR_RESULT_PARAMETERS, some [['c']], none⟩,
        delivery.1 = ['s']) ↔
      ∀ id, id ≠ ['s'] → (afterTwoNodes.member? id).isSome →
        ¬ afterTwoNodes.Addressed ['s'] noRoute ⟨PR_RESULT_PARAMETERS, some [['c']], none⟩ id :=
  result_notForwarded_iff oneCharacter_literal afterTwoNodes ['s'] noRoute _ (by decide)

/-- A client makes up data items: without keys they go to all others. -/
theorem dataItems_forged :
    ¬ ∀ (events : List (ServerEvent Nat)) (srv : Server oneCharacter Nat),
      (start oneCharacter 0).run events = some srv → ∀ self route msg,
        muscleInRange msg.what BEGIN_PR_RESULTS END_PR_RESULTS = true →
        ∀ delivery ∈ srv.forwarded self route msg, delivery.1 = self := by
  intro h
  have hNone := h twoNodes afterTwoNodes rfl ['s'] noRoute ⟨PR_RESULT_DATAITEMS, none, none⟩ (by decide)
    (['t'], none) (by decide)
  revert hNone
  decide

end Server

end BeShare.Muscle.Reflect
