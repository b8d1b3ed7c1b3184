import BeShare.Reflect.Filters

/-!
Setting a subscription again with another filter: exactly when the client is then told what it would be told with
that filter.
-/

namespace BeShare.Muscle.Reflect

variable {regex : Regex} {Msg : Type}

namespace Session

variable {s s' : Session regex Msg} {db db' : Database Msg} {q : Path}

/-! ### Reaching a difference -/

theorem mem_putData {data : Msg} {name : Str} (hParent : q ∈ db.paths) :
    q ++ [name] ∈ (putData db (q ++ [name]) data).paths := by
  unfold putData
  split
  · rename_i hOld
    obtain ⟨n, hn⟩ := Option.isSome_iff_exists.mp (Database.mem_paths.mp hOld)
    rw [Database.mem_paths, Database.node?_modify, if_pos rfl, hn]
    rfl
  · rw [List.getLast?_concat, List.dropLast_concat, Database.mem_paths, Database.node?_putChild _ hParent, if_pos rfl]
    rfl

/-- A session hears of a new node without trouble, and only of that node. -/
theorem exists_hear_new (s : Session regex Msg) (q : Path) (data : Msg) :
    ∃ s', s.hear q none (some data) false = some s' ∧ s'.settings = s.settings ∧
      ∀ p, p ≠ q → s'.additions p = s.additions p := by
  unfold hear
  split
  · exact ⟨s, rfl, rfl, fun _ _ => rfl⟩
  · unfold nodeChanged
    split
    · have hNotice : notice s.subscriptions q none (some data) false = none ∨
          notice s.subscriptions q none (some data) false = some false := by
        unfold notice
        split
        · rw [if_neg Bool.false_ne_true]
          dsimp only
          split
          · exact .inl rfl
          · exact .inr rfl
        · exact .inr rfl
      rcases hNotice with hNotice | hNotice
      · rw [hNotice]
        exact ⟨s, rfl, rfl, fun _ _ => rfl⟩
      · rw [hNotice]
        obtain ⟨result, hResult⟩ := Option.isSome_iff_exists.mp (s.nodeChangedAux_isSome q (some data))
        obtain ⟨s', pushed⟩ := result
        refine ⟨s', ?_, settings_nodeChangedAux hResult, fun p hp => ?_⟩
        · dsimp only
          rw [hResult]
          rfl
        · rw [additions_nodeChangedAux hResult, if_neg fun hBoth => hp hBoth.2.symm, Nat.add_zero]
    · exact ⟨s, rfl, rfl, fun _ _ => rfl⟩

/-- All nodes up to a path can be made, and a session hears only of these. -/
theorem exists_reach (regex : Regex) (hRoot : [] ∈ db.paths) (data : Msg) (q : Path) :
    ∃ (events : List (NodeEvent Msg)) (db' : Database Msg), q ∈ db'.paths ∧
      ∀ s : Session regex Msg, ∃ s' : Session regex Msg, events.foldlM watchStep (db, s) = some (db', s') ∧
        s'.settings = s.settings ∧
        ∀ p, q.length < p.length → s'.additions p = s.additions p := by
  induction q using List.reverseRec with
  | nil => exact ⟨[], db, hRoot, fun s => ⟨s, rfl, rfl, fun _ _ => rfl⟩⟩
  | append_singleton q name ih =>
    obtain ⟨events, db', hIn, hRun⟩ := ih
    by_cases hOld : q ++ [name] ∈ db'.paths
    · refine ⟨events, db', hOld, fun s => ?_⟩
      obtain ⟨s', hEvents, hSettings, hOthers⟩ := hRun s
      refine ⟨s', hEvents, hSettings, fun p hp => hOthers p ?_⟩
      rw [List.length_append] at hp
      omega
    · refine ⟨events ++ [.put (q ++ [name]) data], putData db' (q ++ [name]) data, mem_putData hIn, fun s => ?_⟩
      obtain ⟨s', hEvents, hSettings, hOthers⟩ := hRun s
      obtain ⟨t, hHear, hSame, hOnly⟩ := exists_hear_new s' (q ++ [name]) data
      have hNoData : db'.data (q ++ [name]) = none := by
        unfold Database.data
        rw [show db'.node? (q ++ [name]) = none by simpa using mt Database.mem_paths.mpr hOld]
        rfl
      refine ⟨t, ?_, hSame.trans hSettings, fun p hp => ?_⟩
      · rw [List.foldlM_append, hEvents]
        show (watchStep (db', s') (.put (q ++ [name]) data)).bind _ = _
        unfold watchStep
        dsimp only
        rw [if_pos (mem_putData hIn), hNoData, hHear]
        rfl
      · have hOther : p ≠ q ++ [name] := by
          rintro rfl
          exact Nat.lt_irrefl _ hp
        rw [hOnly p hOther]
        refine hOthers p ?_
        rw [List.length_append] at hp
        omega

/-- What a session hears of new data counts one more addition exactly if the data matches. -/
theorem additions_hear {oldData : Option Msg} {data : Msg} (hEnabled : s.subscriptionsEnabled = true)
    (hCounted : s.subscriptions.FiltersCounted) (hMarked : s.subscriptions.matchesNode q none 0 = true)
    (h : s.hear q oldData (some data) false = some s') :
    s'.additions q = s.additions q + if s.subscriptions.matchesNode q (some data) 0 then 1 else 0 := by
  unfold hear at h
  split at h
  · rename_i hZero
    obtain ⟨entry, hEntry, hMatches⟩ := List.any_eq_true.mp hMarked
    exact absurd hMatches (List.countP_eq_zero.mp hZero entry hEntry)
  · obtain ⟨result, hResult, rfl⟩ := Option.map_eq_some_iff.mp h
    obtain ⟨t, pushed⟩ := result
    unfold nodeChanged at hResult
    rw [if_pos hEnabled, notice_eq hCounted hMarked] at hResult
    unfold noticeFor at hResult
    rw [if_neg Bool.false_ne_true] at hResult
    by_cases hMatches : s.subscriptions.matchesNode q (some data) 0 = true
    · rw [if_pos hMatches] at hResult ⊢
      have hOne := additions_nodeChangedAux (q := q) hResult
      simpa using hOne
    · rw [if_neg hMatches] at hResult ⊢
      split at hResult
      · rename_i removed hRemoved
        split at hRemoved
        · cases hRemoved
          have hNone := additions_nodeChangedAux (q := q) hResult
          simpa using hNone
        · cases hRemoved
      · cases hResult
        rfl

/-- The data is new and matches, so the session hears of it without trouble. -/
theorem hear_isSome {oldData : Option Msg} {data : Msg} (hEnabled : s.subscriptionsEnabled = true)
    (hCounted : s.subscriptions.FiltersCounted) (hMatches : s.subscriptions.matchesNode q (some data) 0 = true) :
    (s.hear q oldData (some data) false).isSome = true := by
  unfold hear
  split
  · rfl
  · rw [Option.isSome_map]
    unfold nodeChanged
    rw [if_pos hEnabled, notice_eq hCounted (PathMatcher.matchesNode_none_of_matchesNode hMatches)]
    unfold noticeFor
    rw [if_neg Bool.false_ne_true, if_pos hMatches]
    exact s.nodeChangedAux_isSome q (some data)

/-- Two tables that disagree on some data of some node are told apart by a run. -/
theorem exists_watch_ne (hRoot : [] ∈ db.paths) {m m' : PathMatcher regex Msg}
    (hEnabled : s.subscriptionsEnabled = true) (hCounted : m.FiltersCounted) (hCounted' : m'.FiltersCounted)
    (hMarks : m'.matchesNode q none 0 = m.matchesNode q none 0) {data : Msg}
    (hMatches : m.matchesNode q (some data) 0 = true) (hNot : m'.matchesNode q (some data) 0 = false) :
    ∃ events, (s.withSubscriptions m).watch db events ≠ (s.withSubscriptions m').watch db events := by
  have hMarked := PathMatcher.matchesNode_none_of_matchesNode hMatches
  rcases List.eq_nil_or_concat q with rfl | ⟨parent, name, rfl⟩
  · obtain ⟨entry, -, hRoot'⟩ := List.any_eq_true.mp hMatches
    exact (PathMatcher.ne_nil_of_matchesFrom ((PathMatcher.pathMatches_root_iff entry [] _).mp hRoot').1).elim
  · rw [List.concat_eq_append] at *
    obtain ⟨events, db', hIn, hRun⟩ := exists_reach regex hRoot data parent
    refine ⟨events ++ [.put (parent ++ [name]) data, .push], fun hSame => ?_⟩
    have hLonger : parent.length < (parent ++ [name]).length := by simp
    -- the number of additions of the node in what is sent by the end
    have hWatch : ∀ m : PathMatcher regex Msg, m.FiltersCounted → m.matchesNode (parent ++ [name]) none 0 = true →
        ∀ sent, (s.withSubscriptions m).watch db (events ++ [.put (parent ++ [name]) data, .push]) = some sent →
          additionsIn (parent ++ [name]) sent = s.additions (parent ++ [name]) +
            if m.matchesNode (parent ++ [name]) (some data) 0 then 1 else 0 := by
      intro m hCounted hMarked sent hSent
      obtain ⟨t, hEvents, hSettings, hOthers⟩ := hRun (s.withSubscriptions m)
      unfold watch at hSent
      rw [List.foldlM_append, hEvents] at hSent
      obtain ⟨state, hPut, rfl⟩ := Option.map_eq_some_iff.mp hSent
      obtain ⟨between, hPut, hPush⟩ := Lib.foldlM_cons_eq_some.mp hPut
      obtain ⟨last, hPush, hEnd⟩ := Lib.foldlM_cons_eq_some.mp hPush
      cases hEnd
      unfold watchStep at hPut
      dsimp only at hPut
      rw [if_pos (mem_putData hIn)] at hPut
      obtain ⟨u, hHear, rfl⟩ := Option.map_eq_some_iff.mp hPut
      cases hPush
      have hTable : t.subscriptions = m := subscriptions_of_settings hSettings
      have hOn : t.subscriptionsEnabled = true := (enabled_of_settings hSettings).trans hEnabled
      have hCount := additions_hear hOn (hTable ▸ hCounted) (hTable ▸ hMarked) hHear
      rw [hTable, hOthers _ hLonger] at hCount
      rw [← sent_push, hCount]
      rfl
    have hSome : ((s.withSubscriptions m).watch db (events ++ [.put (parent ++ [name]) data, .push])).isSome =
        true := by
      obtain ⟨t, hEvents, hSettings, -⟩ := hRun (s.withSubscriptions m)
      have hTable : t.subscriptions = m := subscriptions_of_settings hSettings
      have hOn : t.subscriptionsEnabled = true := (enabled_of_settings hSettings).trans hEnabled
      have hHear : (t.hear (parent ++ [name]) (db'.data (parent ++ [name])) (some data) false).isSome = true :=
        hear_isSome hOn (hTable ▸ hCounted) (hTable ▸ hMatches)
      obtain ⟨u, hu⟩ := Option.isSome_iff_exists.mp hHear
      unfold watch
      rw [List.foldlM_append, hEvents]
      show (Option.map _ ((watchStep (db', t) (.put (parent ++ [name]) data)).bind _)).isSome = true
      unfold watchStep
      dsimp only
      rw [if_pos (mem_putData hIn), hu]
      rfl
    obtain ⟨sent, hSent⟩ := Option.isSome_iff_exists.mp hSome
    have hWith := hWatch m hCounted hMarked sent hSent
    have hWithout := hWatch m' hCounted' (hMarks.trans hMarked) sent (hSame ▸ hSent)
    rw [if_pos hMatches] at hWith
    rw [hNot, if_neg Bool.false_ne_true] at hWithout
    omega

/-! ### The command -/

/-- The notices that setting a subscription leads to for the session itself. -/
def noticesOf (s : Session regex Msg) (db : Database Msg) (path : Str) (filter : Option (QueryFilter Msg)) :
    List (Path × Bool) :=
  match (s.subscribeTo path filter).2 with
  | some (.changeQueryFilter path oldFilter newFilter) => filterChanges regex db path oldFilter newFilter
  | _ => []

/-- The session after a path that it has subscribed to was set again with a filter. -/
def resubscribe (s : Session regex Msg) (db : Database Msg) (path : Str) (filter : Option (QueryFilter Msg)) :
    Option (Session regex Msg) :=
  applyChanges db (s.noticesOf db path filter) (s.subscribeTo path filter).1

/-- Told are the additions of the nodes that the new filter accepts and the old one did not, and the removals of
those that the old one accepted and the new one does not, each once. -/
def TellsDifference (changes : List (Path × Bool)) (db : Database Msg) (e : PathMatcherEntry regex Msg)
    (filter : Option (QueryFilter Msg)) : Prop :=
  changes.Nodup ∧ ∀ q removed, (q, removed) ∈ changes ↔
    q ∈ db.paths ∧ PathMatcher.clausesMatch e q = true ∧
      filterAccepts e.filter (db.data q) q ≠ filterAccepts filter (db.data q) q ∧
      removed = filterAccepts e.filter (db.data q) q

theorem tellsDifference_filterChanges (hLiteral : regex.Literal) (db : Database Msg)
    (e : PathMatcherEntry regex Msg) (filter : Option (QueryFilter Msg)) :
    TellsDifference (filterChanges regex db e.path e.filter filter) db e filter := by
  unfold filterChanges
  rw [PathMatcher.putPathString_empty e.parsed]
  dsimp only
  constructor
  · refine List.Nodup.filterMap ?_ (PathMatcher.doTraversal_nodup ..)
    intro q q' change hq hq'
    unfold filterChange at hq hq'
    rw [Option.mem_def] at hq hq'
    dsimp only at hq hq'
    split at hq
    · cases hq
      split at hq'
      · cases hq'
        rfl
      · cases hq'
    · cases hq
  · intro q removed
    have hMatch : ∀ q, PathMatcher.matchesNode (⟨[⟨e.path, e.parser, none, e.parsed⟩], List.nodup_singleton _,
        if (none : Option (QueryFilter Msg)).isSome then 1 else 0⟩ : PathMatcher regex Msg) q none 0 =
          PathMatcher.clausesMatch e q := by
      intro q
      rw [PathMatcher.matchesNode_single rfl, PathMatcher.pathMatches_eq_clausesMatch]
      rfl
    rw [List.mem_filterMap]
    constructor
    · rintro ⟨q', hCalled, hChange⟩
      obtain ⟨hIn, hMatches⟩ := (PathMatcher.mem_doTraversal_root hLiteral).mp hCalled
      unfold filterChange at hChange
      dsimp only at hChange
      split at hChange
      · rename_i hDiffer
        cases hChange
        exact ⟨hIn, (hMatch q).symm.trans hMatches, hDiffer, rfl⟩
      · cases hChange
    · rintro ⟨hIn, hMatches, hDiffer, rfl⟩
      refine ⟨q, (PathMatcher.mem_doTraversal_root hLiteral).mpr ⟨hIn, (hMatch q).trans hMatches⟩, ?_⟩
      unfold filterChange
      dsimp only
      rw [if_pos hDiffer]

theorem settings_applyChanges {changes : List (Path × Bool)} (h : applyChanges db changes s = some s') :
    s'.settings = s.settings := by
  induction changes generalizing s with
  | nil =>
    cases h
    rfl
  | cons change changes ih =>
    obtain ⟨np, removed⟩ := change
    unfold applyChanges at h
    split at h
    · rename_i t pushed hFirst
      exact (ih h).trans (settings_nodeChangedAux hFirst)
    · cases h

/-- A subscription that is there is not put again: the old filter stays. -/
theorem subscribeTo_of_get (db : Database Msg) {path : Str} {e : PathMatcherEntry regex Msg}
    (hGet : s.subscriptions.get path = some e) (filter : Option (QueryFilter Msg)) :
    (s.subscribeTo path filter).1 = s ∧
      s.noticesOf db path filter =
        if s.subscriptionsEnabled && (filter.isSome || e.filter.isSome) then
          filterChanges regex db path e.filter filter
        else [] := by
  unfold noticesOf subscribeTo
  rw [hGet]
  dsimp only
  split
  · exact ⟨rfl, rfl⟩
  · exact ⟨rfl, rfl⟩

theorem markCount_setFilter (m : PathMatcher regex Msg) (path : Str) (filter : Option (QueryFilter Msg)) (q : Path) :
    (m.setFilter path filter).markCount q = m.markCount q := by
  unfold PathMatcher.markCount PathMatcher.getMatchCount PathMatcher.setFilter
  dsimp only
  rw [List.countP_map]
  refine List.countP_congr fun e _ => ?_
  show pathMatches q none (if e.path = path then { e with filter := filter } else e) 0 = true ↔ _
  split
  · rw [PathMatcher.pathMatches_congr e { e with filter := filter } rfl q]
  · rfl

/-- Setting a subscription again with a filter tells the client the difference, and from then on what it would
hear with that filter, exactly if the old filter, which stays, makes no difference: the subscriptions match the same
data with either, or they are disabled and the nodes that are there match alike. -/
theorem changed_filter_iff (hLiteral : regex.Literal) {path : Str} {e : PathMatcherEntry regex Msg}
    {filter : Option (QueryFilter Msg)} (hRoot : [] ∈ db.paths) (hCounted : s.subscriptions.FiltersCounted)
    (hGet : s.subscriptions.get path = some e) (hDone : s.resubscribe db path filter = some s') :
    (TellsDifference (s.noticesOf db path filter) db e filter ∧
      ∀ events, s'.watch db events =
        (s'.withSubscriptions (s.subscriptions.setFilter path filter)).watch db events) ↔
      if s.subscriptionsEnabled then
        ∀ q data, s.subscriptions.matchesNode q (some data) 0 =
          (s.subscriptions.setFilter path filter).matchesNode q (some data) 0
      else
        ∀ q ∈ db.paths, PathMatcher.clausesMatch e q = true →
          filterAccepts e.filter (db.data q) q = filterAccepts filter (db.data q) q := by
  obtain ⟨hStays, hNotices⟩ := subscribeTo_of_get db hGet filter
  obtain rfl : e.path = path := by simpa using List.find?_some hGet
  unfold resubscribe at hDone
  rw [hStays] at hDone
  have hSettings := settings_applyChanges hDone
  have hTable := subscriptions_of_settings hSettings
  have hOn := enabled_of_settings hSettings
  have hDifference := tellsDifference_filterChanges hLiteral db e filter
  rw [hNotices]
  by_cases hEnabled : s.subscriptionsEnabled = true
  · rw [if_pos hEnabled, hEnabled, Bool.true_and]
    have hAtOnce : TellsDifference (if (filter.isSome || e.filter.isSome) = true then
        filterChanges regex db e.path e.filter filter else []) db e filter := by
      split
      · exact hDifference
      · rename_i hNone
        refine ⟨List.nodup_nil, fun q removed => iff_of_false List.not_mem_nil fun h => h.2.2.1 ?_⟩
        have hBoth : filter = none ∧ e.filter = none := by simpa using hNone
        rw [hBoth.1, hBoth.2]
    refine ⟨fun h q data => ?_, fun hAgree => ⟨hAtOnce, fun events => ?_⟩⟩
    · have hSame : s' = s'.withSubscriptions s.subscriptions := by
        rw [← hTable]
        rfl
      by_contra hDiffer
      cases hOld : s.subscriptions.matchesNode q (some data) 0 with
      | true =>
        have hNew : (s.subscriptions.setFilter e.path filter).matchesNode q (some data) 0 = false := by
          rw [hOld] at hDiffer
          simpa using Ne.symm hDiffer
        obtain ⟨events, hNe⟩ := exists_watch_ne (s := s') hRoot (hOn.trans hEnabled) hCounted
          PathMatcher.filtersCounted_setFilter PathMatcher.matchesNode_setFilter_none hOld hNew
        exact hNe (hSame ▸ h.2 events)
      | false =>
        have hNew : (s.subscriptions.setFilter e.path filter).matchesNode q (some data) 0 = true := by
          rw [hOld] at hDiffer
          simpa using Ne.symm hDiffer
        obtain ⟨events, hNe⟩ := exists_watch_ne (s := s') hRoot (hOn.trans hEnabled)
          PathMatcher.filtersCounted_setFilter hCounted PathMatcher.matchesNode_setFilter_none.symm hNew hOld
        exact hNe (hSame ▸ h.2 events).symm
    · refine (watch_of_agree db s' (hTable ▸ hCounted) PathMatcher.filtersCounted_setFilter ?_ ?_ events).symm
      · intro q data
        rw [hTable]
        cases data with
        | none => exact PathMatcher.matchesNode_setFilter_none.symm
        | some data => exact hAgree q data
      · intro q
        rw [hTable]
        exact markCount_setFilter ..
  · rw [if_neg hEnabled]
    have hDisabled : s.subscriptionsEnabled = false := by simpa using hEnabled
    rw [hDisabled, Bool.false_and, if_neg Bool.false_ne_true]
    refine ⟨fun h q hIn hMatches => ?_, fun hAlike => ⟨⟨List.nodup_nil, fun q removed => ?_⟩, fun events => ?_⟩⟩
    · by_contra hDiffer
      exact List.not_mem_nil ((h.1.2 q _).mpr ⟨hIn, hMatches, hDiffer, rfl⟩)
    · exact iff_of_false List.not_mem_nil fun h => h.2.2.1 (hAlike q h.1 h.2.1)
    · exact (watch_of_disabled db s' _ (hOn.trans hDisabled) events).symm

/-- The path of the nodes `a` of all sessions. -/
def allA : Str := ['*', '/', '*', '/', 'a']

/-- A session that has subscribed to the nodes `a` without a filter. -/
def subscribedToA : Session PathMatcher.oneCharacter Nat where
  id := ['t']
  subscriptions := (PathMatcher.empty.putPathString allA none).getD .empty
  parameters := [PR_NAME_SUBSCRIBE_PREFIX ++ ['a']]
  reflectToSelf := false
  subscriptionsEnabled := true
  maxSubscriptionMessageItems := DEFAULT_MAX_SUBSCRIPTION_MESSAGE_SIZE
  nextSubscriptionMessage := none
  sent := []

/-- Accepts only the number seven. -/
def onlySeven : QueryFilter Nat := ⟨fun data _ => data == 7⟩

theorem subscribedToA_resubscribe :
    (subscribedToA.resubscribe PathMatcher.sessionWithAA allA (some onlySeven)).isSome = true := by
  decide +kernel

/-- The new filter does not accept five, and the client is told of a node with five all the same. -/
theorem onlySeven_stillToldFive : ∃ s',
    subscribedToA.resubscribe PathMatcher.sessionWithAA allA (some onlySeven) = some s' ∧
      ¬∀ events, s'.watch PathMatcher.sessionWithAA events =
        (s'.withSubscriptions (subscribedToA.subscriptions.setFilter allA (some onlySeven))).watch
          PathMatcher.sessionWithAA events := by
  obtain ⟨s', hs'⟩ := Option.isSome_iff_exists.mp subscribedToA_resubscribe
  refine ⟨s', hs', fun h => ?_⟩
  have hCount := congrArg (Option.map List.length) (h [.put [['h'], ['s'], ['a']] 5, .push])
  have hCounts : ((subscribedToA.resubscribe PathMatcher.sessionWithAA allA (some onlySeven)).map fun s' =>
      ((s'.watch PathMatcher.sessionWithAA [.put [['h'], ['s'], ['a']] 5, .push]).map List.length,
        ((s'.withSubscriptions (subscribedToA.subscriptions.setFilter allA (some onlySeven))).watch
          PathMatcher.sessionWithAA [.put [['h'], ['s'], ['a']] 5, .push]).map List.length)) =
      some (some 1, some 0) := by decide +kernel
  rw [hs'] at hCounts
  have hPair := Option.some.inj hCounts
  rw [(Prod.mk.inj hPair).1, (Prod.mk.inj hPair).2] at hCount
  cases hCount

theorem changed_filter_iff_onlySeven : ∃ s' e, subscribedToA.subscriptions.get allA = some e ∧
    subscribedToA.resubscribe PathMatcher.sessionWithAA allA (some onlySeven) = some s' ∧
    ((TellsDifference (subscribedToA.noticesOf PathMatcher.sessionWithAA allA (some onlySeven))
        PathMatcher.sessionWithAA e (some onlySeven) ∧
      ∀ events, s'.watch PathMatcher.sessionWithAA events =
        (s'.withSubscriptions (subscribedToA.subscriptions.setFilter allA (some onlySeven))).watch
          PathMatcher.sessionWithAA events) ↔
      if subscribedToA.subscriptionsEnabled then
        ∀ q data, subscribedToA.subscriptions.matchesNode q (some data) 0 =
          (subscribedToA.subscriptions.setFilter allA (some onlySeven)).matchesNode q (some data) 0
      else
        ∀ q ∈ PathMatcher.sessionWithAA.paths, PathMatcher.clausesMatch e q = true →
          filterAccepts e.filter (PathMatcher.sessionWithAA.data q) q =
            filterAccepts (some onlySeven) (PathMatcher.sessionWithAA.data q) q) := by
  obtain ⟨s', hs'⟩ := Option.isSome_iff_exists.mp subscribedToA_resubscribe
  obtain ⟨e, he⟩ := Option.isSome_iff_exists.mp
    (show (subscribedToA.subscriptions.get allA).isSome = true by decide +kernel)
  have hRoot : [] ∈ PathMatcher.sessionWithAA.paths := by decide
  have hCounted : subscribedToA.subscriptions.FiltersCounted :=
    show subscribedToA.subscriptions.numFilters = _ by decide +kernel
  exact ⟨s', e, he, hs', changed_filter_iff PathMatcher.oneCharacter_literal hRoot hCounted he hs'⟩

end Session

end BeShare.Muscle.Reflect
