import BeShare.Reflect.Marks
import Mathlib.Algebra.GroupWithZero.Nat

/-!
A subscription that is set again with another filter: what the client is told at once, and what it is told from
then on, against a session that had the other filter.
-/

namespace BeShare.Muscle.Reflect

variable {regex : Regex} {Msg : Type}

namespace PathMatcher

variable {m : PathMatcher regex Msg} {path : Str} {filter : Option (QueryFilter Msg)} {q : Path}

/-- `_numFilters` is the number of entries with a filter. -/
def FiltersCounted (m : PathMatcher regex Msg) : Prop :=
  m.numFilters = m.entries.countP fun e => e.filter.isSome

theorem filtersCounted_empty : (empty : PathMatcher regex Msg).FiltersCounted :=
  rfl

theorem entries_putPathString {m' : PathMatcher regex Msg} (hNew : m.get path = none)
    (h : m.putPathString path filter = some m') :
    ∃ parser, ∃ hParsed : parsePath regex path = some parser,
      m'.entries = m.entries ++ [⟨path, parser, filter, hParsed⟩] ∧
        m'.numFilters = if filter.isSome then m.numFilters + 1 else m.numFilters := by
  unfold putPathString at h
  split at h
  · rename_i parser hParsed
    cases h
    refine ⟨parser, hParsed, ?_, rfl⟩
    have hNone : (m.entries.any fun e => e.path == path) = false := by
      rw [List.any_eq_false]
      exact fun e he => List.find?_eq_none.mp hNew e he
    unfold putEntry
    dsimp only
    rw [if_neg (by simp [hNone])]
  · cases h

theorem filtersCounted_putPathString {m' : PathMatcher regex Msg} (hCounted : m.FiltersCounted)
    (hNew : m.get path = none) (h : m.putPathString path filter = some m') : m'.FiltersCounted := by
  obtain ⟨parser, hParsed, hEntries, hNum⟩ := entries_putPathString hNew h
  unfold FiltersCounted at *
  rw [hEntries, hNum, List.countP_append, List.countP_singleton, hCounted]
  dsimp only
  split <;> rfl

/-- What a filter leaves out is left out by the path or by the data. -/
theorem matchesNode_none_of_matchesNode {data : Option Msg} (h : m.matchesNode q data 0 = true) :
    m.matchesNode q none 0 = true := by
  obtain ⟨entry, hEntry, hMatches⟩ := List.any_eq_true.mp h
  refine List.any_eq_true.mpr ⟨entry, hEntry, ?_⟩
  rw [pathMatches_root_iff] at hMatches ⊢
  exact ⟨hMatches.1, filterMatches_none entry _⟩

/-- Without filters the data does not matter. -/
theorem matchesNode_of_unfiltered (hCounted : m.FiltersCounted) (hZero : ¬0 < m.numFilters)
    (h : m.matchesNode q none 0 = true) (data : Option Msg) : m.matchesNode q data 0 = true := by
  obtain ⟨entry, hEntry, hMatches⟩ := List.any_eq_true.mp h
  refine List.any_eq_true.mpr ⟨entry, hEntry, ?_⟩
  have hNone : entry.filter = none := by
    unfold FiltersCounted at hCounted
    have hAll := List.countP_eq_zero.mp (show (m.entries.countP fun e => e.filter.isSome) = 0 by omega)
    simpa using hAll entry hEntry
  rw [pathMatches_root_iff] at hMatches ⊢
  refine ⟨hMatches.1, ?_⟩
  unfold PathMatcherEntry.filterMatches
  rw [hNone]

/-- The table with another filter for a path, as if the path had been put with it. -/
def setFilter (m : PathMatcher regex Msg) (path : Str) (filter : Option (QueryFilter Msg)) :
    PathMatcher regex Msg where
  entries := m.entries.map fun e => if e.path = path then { e with filter := filter } else e
  nodup := by
    rw [List.map_map]
    convert m.nodup using 1
    refine List.map_congr_left fun e _ => ?_
    show (if e.path = path then { e with filter := filter } else e).path = e.path
    split <;> rfl
  numFilters := (m.entries.map fun e => if e.path = path then { e with filter := filter } else e).countP
    fun e => e.filter.isSome

theorem filtersCounted_setFilter : (m.setFilter path filter).FiltersCounted :=
  rfl

theorem matchesNode_setFilter_none : (m.setFilter path filter).matchesNode q none 0 = m.matchesNode q none 0 := by
  unfold matchesNode setFilter
  dsimp only
  rw [List.any_map]
  congr 1
  funext e
  show pathMatches q none (if e.path = path then { e with filter := filter } else e) 0 = _
  split
  · exact pathMatches_congr e { e with filter := filter } rfl q
  · rfl

end PathMatcher

/-! ### Notices -/

/-- What there is to tell: the node matched before the change or not, and matches after it or not. -/
def noticeFor (before after hadData isBeingRemoved : Bool) : Option Bool :=
  if isBeingRemoved then if before then some true else none
  else if after then some false
  else if hadData && before then some true
  else none

/-- A marked node is told of by its matches alone. -/
theorem notice_eq {m : PathMatcher regex Msg} {np : Path} (hCounted : m.FiltersCounted)
    (hMarked : m.matchesNode np none 0 = true) (oldData data : Option Msg) (isBeingRemoved : Bool) :
    notice m np oldData data isBeingRemoved =
      noticeFor (m.matchesNode np oldData 0) (m.matchesNode np data 0) oldData.isSome isBeingRemoved := by
  unfold notice noticeFor
  by_cases hFilters : 0 < m.numFilters
  · rw [if_pos hFilters]
    cases isBeingRemoved
    · cases oldData with
      | none => cases m.matchesNode np data 0 <;> rfl
      | some old => cases m.matchesNode np data 0 <;> simp
    · cases m.matchesNode np oldData 0 <;> simp
  · rw [if_neg hFilters, PathMatcher.matchesNode_of_unfiltered hCounted hFilters hMarked,
      PathMatcher.matchesNode_of_unfiltered hCounted hFilters hMarked]
    cases isBeingRemoved <;> rfl

namespace Session

variable {s s' : Session regex Msg}

/-- The same session with other subscriptions. -/
def withSubscriptions (s : Session regex Msg) (subscriptions : PathMatcher regex Msg) : Session regex Msg :=
  { s with subscriptions }

/-- The result of a notice with other subscriptions in the session. -/
def resultWith (subscriptions : PathMatcher regex Msg) (result : Session regex Msg × Bool) :
    Session regex Msg × Bool :=
  (result.1.withSubscriptions subscriptions, result.2)

theorem push_withSubscriptions (s : Session regex Msg) (m : PathMatcher regex Msg) :
    (s.withSubscriptions m).push = s.push.withSubscriptions m := by
  unfold push withSubscriptions
  dsimp only
  split <;> rfl

theorem pushIfFull_withSubscriptions (s : Session regex Msg) (m : PathMatcher regex Msg) :
    (s.withSubscriptions m).pushIfFull = s.pushIfFull.map (resultWith m) := by
  unfold pushIfFull
  rw [push_withSubscriptions]
  unfold withSubscriptions
  dsimp only
  split
  · split <;> rfl
  · rfl

/-- The subscriptions have no part in how a notice is written. -/
theorem nodeChangedAux_withSubscriptions (s : Session regex Msg) (m : PathMatcher regex Msg) (np : Path)
    (data : Option Msg) (isBeingRemoved : Bool) :
    (s.withSubscriptions m).nodeChangedAux np data isBeingRemoved =
      (s.nodeChangedAux np data isBeingRemoved).map (resultWith m) := by
  unfold nodeChangedAux
  dsimp only
  split
  · rename_i hRemoved
    rw [push_withSubscriptions]
    by_cases hPending : ((s.nextSubscriptionMessage.getD ⟨[], []⟩).items.any fun item => item.1 == np) = true
    · rw [if_pos hPending]
      have hPending' : (((s.withSubscriptions m).nextSubscriptionMessage.getD ⟨[], []⟩).items.any
          fun item => item.1 == np) = true := hPending
      rw [if_pos hPending']
      have hFirst := pushIfFull_withSubscriptions
        ({ s.push with nextSubscriptionMessage := some ⟨[np], []⟩ } : Session regex Msg) m
      unfold withSubscriptions at hFirst ⊢
      dsimp only at hFirst ⊢
      rw [hFirst]
      cases pushIfFull ({ s.push with nextSubscriptionMessage := some ⟨[np], []⟩ } : Session regex Msg) with
      | none => rfl
      | some result =>
        obtain ⟨t, pushed⟩ := result
        have hLast := pushIfFull_withSubscriptions t m
        show ((t.withSubscriptions m).pushIfFull.map _) = _
        rw [hLast, Option.map_map, Option.map_map]
        rfl
    · rw [if_neg hPending]
      have hPending' : ¬(((s.withSubscriptions m).nextSubscriptionMessage.getD ⟨[], []⟩).items.any
          fun item => item.1 == np) = true := hPending
      rw [if_neg hPending']
      exact pushIfFull_withSubscriptions ({ s with
        nextSubscriptionMessage := some { s.nextSubscriptionMessage.getD ⟨[], []⟩ with
          removed := (s.nextSubscriptionMessage.getD ⟨[], []⟩).removed ++ [np] } } : Session regex Msg) m
  · exact pushIfFull_withSubscriptions ({ s with
      nextSubscriptionMessage := some { s.nextSubscriptionMessage.getD ⟨[], []⟩ with
        items := DataItems.addItem np data (s.nextSubscriptionMessage.getD ⟨[], []⟩).items } } :
          Session regex Msg) m

theorem nodeChanged_withSubscriptions (s : Session regex Msg) {m : PathMatcher regex Msg} {np : Path}
    {oldData data : Option Msg} {isBeingRemoved : Bool}
    (hNotice : notice s.subscriptions np oldData data isBeingRemoved = notice m np oldData data isBeingRemoved) :
    (s.withSubscriptions m).nodeChanged np oldData data isBeingRemoved =
      (s.nodeChanged np oldData data isBeingRemoved).map (resultWith m) := by
  have hTable : (s.withSubscriptions m).subscriptions = m := rfl
  unfold nodeChanged
  rw [hTable, hNotice]
  show (if s.subscriptionsEnabled = true then _ else _) = _
  split
  · cases notice m np oldData data isBeingRemoved with
    | some removed => exact nodeChangedAux_withSubscriptions s m np data removed
    | none => rfl
  · rfl

/-! ### Node changes after one another -/

/-- A change of a node by another session, or the end of the message with the changes. -/
inductive NodeEvent (Msg : Type) where
  | put (q : Path) (data : Msg)
  | remove (q : Path)
  | push

/-- What `NotifySubscribersThatNodeChanged` does for the session: it hears of the nodes that have its mark. -/
def hear (s : Session regex Msg) (q : Path) (oldData data : Option Msg) (isBeingRemoved : Bool) :
    Option (Session regex Msg) :=
  if s.subscriptions.markCount q = 0 then some s
  else (s.nodeChanged q oldData data isBeingRemoved).map Prod.fst

/-- The tree when a node gets data. It is made if only its parent is there. -/
def putData (db : Database Msg) (q : Path) (data : Msg) : Database Msg :=
  if q ∈ db.paths then db.modify q fun n => { n with data := some data }
  else
    match q.getLast? with
    | some name => db.putChild q.dropLast name ⟨some data, []⟩
    | none => db

/-- The tree and the session after one event. -/
def watchStep (state : Database Msg × Session regex Msg) : NodeEvent Msg → Option (Database Msg × Session regex Msg)
  | .put q data =>
    if q ∈ (putData state.1 q data).paths then
      (state.2.hear q (state.1.data q) (some data) false).map fun s => (putData state.1 q data, s)
    else some state
  | .remove q =>
    if q ∈ state.1.paths ∧ state.1.children q = [] then
      (state.2.hear q (state.1.data q) (state.1.data q) true).map fun s => (state.1.dropNode q, s)
    else some state
  | .push => some (state.1, state.2.push)

/-- The messages sent to the client by the end of a run of node changes. -/
def watch (s : Session regex Msg) (db : Database Msg) (events : List (NodeEvent Msg)) : Option (List (DataItems Msg)) :=
  (events.foldlM watchStep (db, s)).map fun state => state.2.sent

theorem hear_withSubscriptions (s : Session regex Msg) {m : PathMatcher regex Msg}
    (hCounted : s.subscriptions.FiltersCounted) (hCounted' : m.FiltersCounted)
    (hAgree : ∀ q data, s.subscriptions.matchesNode q data 0 = m.matchesNode q data 0)
    (hMarks : ∀ q, m.markCount q = s.subscriptions.markCount q) (q : Path) (oldData data : Option Msg)
    (isBeingRemoved : Bool) :
    (s.withSubscriptions m).hear q oldData data isBeingRemoved =
      (s.hear q oldData data isBeingRemoved).map fun t => t.withSubscriptions m := by
  unfold hear
  rw [show (s.withSubscriptions m).subscriptions = m from rfl, hMarks]
  split
  · rfl
  · rename_i hMark
    have hNode : s.subscriptions.matchesNode q none 0 = true := by
      by_contra hNot
      exact hMark (List.countP_eq_zero.mpr fun entry hEntry hMatches =>
        hNot (List.any_eq_true.mpr ⟨entry, hEntry, hMatches⟩))
    have hNotice : notice s.subscriptions q oldData data isBeingRemoved = notice m q oldData data isBeingRemoved := by
      rw [notice_eq hCounted hNode, notice_eq hCounted' ((hAgree q none).symm.trans hNode), hAgree, hAgree]
    rw [nodeChanged_withSubscriptions s hNotice, Option.map_map, Option.map_map]
    rfl

theorem settings_hear {q : Path} {oldData data : Option Msg} {isBeingRemoved : Bool}
    (h : s.hear q oldData data isBeingRemoved = some s') : s'.settings = s.settings := by
  unfold hear at h
  split at h
  · cases h
    rfl
  · obtain ⟨result, hResult, rfl⟩ := Option.map_eq_some_iff.mp h
    exact settings_nodeChanged hResult

/-- With other subscriptions the session hears the same. -/
def HearsAlike (s : Session regex Msg) (m : PathMatcher regex Msg) : Prop :=
  ∀ q oldData data isBeingRemoved, (s.withSubscriptions m).hear q oldData data isBeingRemoved =
    (s.hear q oldData data isBeingRemoved).map fun t => t.withSubscriptions m

theorem watchStep_withSubscriptions (db : Database Msg) (s : Session regex Msg) {m : PathMatcher regex Msg}
    (hHear : s.HearsAlike m) (event : NodeEvent Msg) :
    watchStep (db, s.withSubscriptions m) event =
      (watchStep (db, s) event).map fun state => (state.1, state.2.withSubscriptions m) := by
  cases event with
  | put q data =>
    unfold watchStep
    dsimp only
    rw [hHear]
    split
    · rw [Option.map_map, Option.map_map]
      rfl
    · rfl
  | remove q =>
    unfold watchStep
    dsimp only
    rw [hHear]
    split
    · rw [Option.map_map, Option.map_map]
      rfl
    · rfl
  | push =>
    unfold watchStep
    rw [push_withSubscriptions]
    rfl

theorem settings_watchStep {db db' : Database Msg} {event : NodeEvent Msg}
    (h : watchStep (db, s) event = some (db', s')) : s'.settings = s.settings := by
  cases event with
  | put q data =>
    unfold watchStep at h
    dsimp only at h
    split at h
    · obtain ⟨t, hHear, hState⟩ := Option.map_eq_some_iff.mp h
      cases hState
      exact settings_hear hHear
    · cases h
      rfl
  | remove q =>
    unfold watchStep at h
    dsimp only at h
    split at h
    · obtain ⟨t, hHear, hState⟩ := Option.map_eq_some_iff.mp h
      cases hState
      exact settings_hear hHear
    · cases h
      rfl
  | push =>
    cases h
    exact settings_push

theorem subscriptions_of_settings (h : s'.settings = s.settings) : s'.subscriptions = s.subscriptions :=
  congrArg (fun k => k.2.1) h

theorem enabled_of_settings (h : s'.settings = s.settings) : s'.subscriptionsEnabled = s.subscriptionsEnabled :=
  congrArg (fun k => k.2.2.2.2.1) h

theorem watch_withSubscriptions (db : Database Msg) (s : Session regex Msg) {m : PathMatcher regex Msg}
    (hHear : ∀ t : Session regex Msg, t.settings = s.settings → t.HearsAlike m) (events : List (NodeEvent Msg)) :
    (s.withSubscriptions m).watch db events = s.watch db events := by
  unfold watch
  induction events generalizing db s with
  | nil => rfl
  | cons event events ih =>
    rw [List.foldlM_cons, List.foldlM_cons, watchStep_withSubscriptions db s (hHear s rfl)]
    cases hStep : watchStep (db, s) event with
    | none => rfl
    | some state =>
      obtain ⟨db', t⟩ := state
      exact ih db' t fun u hu => hHear u (hu.trans (settings_watchStep hStep))

/-- Tables that match the same nodes with the same data are told the same. -/
theorem watch_of_agree (db : Database Msg) (s : Session regex Msg) {m : PathMatcher regex Msg}
    (hCounted : s.subscriptions.FiltersCounted) (hCounted' : m.FiltersCounted)
    (hAgree : ∀ q data, s.subscriptions.matchesNode q data 0 = m.matchesNode q data 0)
    (hMarks : ∀ q, m.markCount q = s.subscriptions.markCount q) (events : List (NodeEvent Msg)) :
    (s.withSubscriptions m).watch db events = s.watch db events := by
  refine watch_withSubscriptions db s (fun t ht q oldData data isBeingRemoved => ?_) events
  have hSame := subscriptions_of_settings ht
  exact hear_withSubscriptions t (hSame ▸ hCounted) hCounted' (hSame ▸ hAgree) (hSame ▸ hMarks) q oldData data
    isBeingRemoved

/-- Without subscriptions enabled a session hears of nothing. -/
theorem watch_of_disabled (db : Database Msg) (s : Session regex Msg) (m : PathMatcher regex Msg)
    (hDisabled : s.subscriptionsEnabled = false) (events : List (NodeEvent Msg)) :
    (s.withSubscriptions m).watch db events = s.watch db events := by
  have hSilent : ∀ t : Session regex Msg, t.subscriptionsEnabled = false → ∀ q oldData data removed,
      t.hear q oldData data removed = some t := by
    intro t ht q oldData data removed
    unfold hear nodeChanged
    rw [if_neg (show ¬t.subscriptionsEnabled = true by simp [ht])]
    split <;> rfl
  refine watch_withSubscriptions db s (fun t ht q oldData data isBeingRemoved => ?_) events
  have hOff := (enabled_of_settings ht).trans hDisabled
  rw [hSilent t hOff, hSilent (t.withSubscriptions m) hOff]
  rfl

/-! ### Additions -/

end Session

namespace DataItems

/-- How many values a message has for a node. -/
def valuesAt (q : Path) (items : List (Path × List (Option Msg))) : Nat :=
  (items.map fun item => if item.1 = q then item.2.length else 0).sum

theorem valuesAt_addItem (q np : Path) (data : Option Msg) (items : List (Path × List (Option Msg))) :
    valuesAt q (addItem np data items) = valuesAt q items + if np = q then 1 else 0 := by
  unfold valuesAt
  induction items with
  | nil =>
    show (if np = q then 1 else 0) + 0 = 0 + if np = q then 1 else 0
    rw [Nat.add_comm]
  | cons item items ih =>
    obtain ⟨path, values⟩ := item
    unfold addItem
    by_cases hHere : path = np
    · rw [if_pos hHere, List.map_cons, List.map_cons, List.sum_cons, List.sum_cons]
      dsimp only
      subst hHere
      split
      · rw [List.length_append, List.length_singleton]
        omega
      · omega
    · rw [if_neg hHere, List.map_cons, List.map_cons, List.sum_cons, List.sum_cons, ih]
      omega

end DataItems

namespace Session

variable {s s' : Session regex Msg} {pushed : Bool}

/-- How often the messages sent to the client have data of a node. -/
def additionsIn (q : Path) (messages : List (DataItems Msg)) : Nat :=
  (messages.map fun m => DataItems.valuesAt q m.items).sum

/-- The additions of a node that were told or are about to be. -/
def additions (q : Path) (s : Session regex Msg) : Nat :=
  additionsIn q (s.sent ++ s.nextSubscriptionMessage.toList)

theorem additionsIn_append (q : Path) (l l' : List (DataItems Msg)) :
    additionsIn q (l ++ l') = additionsIn q l + additionsIn q l' := by
  unfold additionsIn
  rw [List.map_append, List.sum_append]

theorem additions_push (q : Path) (s : Session regex Msg) : s.push.additions q = s.additions q := by
  unfold additions push
  split
  · rename_i m hPending
    rw [hPending]
    dsimp only
    rw [Option.toList_none, List.append_nil]
    rfl
  · rfl

theorem sent_push (s : Session regex Msg) : additions q s = additionsIn q s.push.sent := by
  rw [← additions_push]
  have hNone : s.push.nextSubscriptionMessage = none := by
    unfold push
    split
    · rfl
    · assumption
  unfold additions
  rw [hNone, Option.toList_none, List.append_nil]

theorem additions_pushIfFull {q : Path} (h : s.pushIfFull = some (s', pushed)) : s'.additions q = s.additions q := by
  unfold pushIfFull at h
  split at h
  · split at h <;> cases h
    · exact additions_push q s
    · rfl
  · cases h

/-- What a session with another next message has told. -/
theorem additions_pending (q : Path) (s : Session regex Msg) (m : DataItems Msg) :
    ({ s with nextSubscriptionMessage := some m } : Session regex Msg).additions q =
      additionsIn q s.sent + DataItems.valuesAt q m.items := by
  unfold additions
  rw [additionsIn_append]
  rfl

theorem additions_eq (q : Path) (s : Session regex Msg) :
    s.additions q = additionsIn q s.sent + DataItems.valuesAt q (s.nextSubscriptionMessage.getD ⟨[], []⟩).items := by
  unfold additions
  rw [additionsIn_append]
  cases s.nextSubscriptionMessage <;> rfl

theorem additions_nodeChangedAux {q np : Path} {data : Option Msg} {isBeingRemoved : Bool}
    (h : s.nodeChangedAux np data isBeingRemoved = some (s', pushed)) :
    s'.additions q = s.additions q + if isBeingRemoved = false ∧ np = q then 1 else 0 := by
  unfold nodeChangedAux at h
  dsimp only at h
  split at h
  · rename_i hRemoved
    rw [if_neg fun hBoth => by simp [hRemoved] at hBoth, Nat.add_zero]
    split at h
    · split at h
      · rename_i between pushedBefore hFirst
        obtain ⟨last, hLast, hResult⟩ := Option.map_eq_some_iff.mp h
        cases hResult
        have hBetween := (additions_pushIfFull (q := q) hFirst).trans (additions_pending q s.push ⟨[np], []⟩)
        rw [additions_pushIfFull hLast, hBetween, ← sent_push]
        rfl
      · cases h
    · rw [additions_pushIfFull h, additions_pending, additions_eq]
  · rename_i hAdded
    rw [additions_pushIfFull h, additions_pending, additions_eq, DataItems.valuesAt_addItem]
    simp only [Bool.eq_false_iff.mpr hAdded, true_and]
    omega

/-- An addition can always be written. -/
theorem nodeChangedAux_isSome (s : Session regex Msg) (np : Path) (data : Option Msg) :
    (s.nodeChangedAux np data false).isSome = true := by
  unfold nodeChangedAux pushIfFull
  rw [if_neg Bool.false_ne_true]
  dsimp only
  split <;> rfl

end Session

end BeShare.Muscle.Reflect
