import BeShare.Reflect.IndexRuns
import BeShare.Reflect.MirrorSubscribe

/-!
The mirrors of the indices: a subscription starts with a snapshot of what is there, and from then on a client that does
what it is told has the index.
-/

namespace BeShare.Muscle.Reflect

variable {regex : Regex} {Msg : Type}

namespace PathMatcher

variable {m : PathMatcher regex Msg} {path : Str} {p : Path}

/-- The matcher has the path, without a filter. -/
def HasPlain (m : PathMatcher regex Msg) (path : Str) : Prop :=
  ∃ e, m.get path = some e ∧ e.filter = none

theorem hasPlain_putField {f : Field Msg} (hParsed : (parsePath regex path).isSome = true)
    (hPlain : subscriptionPath f.name = some path → f.filter = none)
    (h : m.HasPlain path ∨ subscriptionPath f.name = some path) : (m.putField f).HasPlain path := by
  unfold putField
  cases hPath : subscriptionPath f.name with
  | none => exact h.resolve_right fun hHere => by cases hPath.symm.trans hHere
  | some other =>
    rw [hPath] at h hPlain
    dsimp only
    by_cases hSame : other = path
    · subst hSame
      have hSome : (m.putPathString other f.filter).isSome = true := putPathString_isSome.trans hParsed
      obtain ⟨m', hPut⟩ := Option.isSome_iff_exists.mp hSome
      obtain ⟨parser, hOwn, hGet⟩ := (get_putPathString hPut).1
      rw [hPut]
      exact ⟨_, hGet, hPlain rfl⟩
    · have hOld : m.HasPlain path := h.resolve_right fun hHere => hSame (Option.some.inj hHere)
      cases hPut : m.putPathString other f.filter with
      | none => exact hOld
      | some m' =>
        obtain ⟨e, hGet, hFilter⟩ := hOld
        exact ⟨e, ((get_putPathString hPut).2 path (Ne.symm hSame)).trans hGet, hFilter⟩

theorem hasPlain_foldl_putField {fields : List (Field Msg)} (hParsed : (parsePath regex path).isSome = true)
    (hPlain : ∀ f ∈ fields, subscriptionPath f.name = some path → f.filter = none)
    (h : m.HasPlain path ∨ path ∈ newPaths fields) : (fields.foldl putField m).HasPlain path := by
  induction fields generalizing m with
  | nil => exact h.resolve_right List.not_mem_nil
  | cons f fields ih =>
    have hRest := fun g hg => hPlain g (List.mem_cons_of_mem _ hg)
    have hOne := @hasPlain_putField regex Msg m path f hParsed (hPlain f (List.mem_cons_self ..))
    refine ih hRest ?_
    rcases h with hOld | hIn
    · exact .inl (hOne (.inl hOld))
    · obtain ⟨g, hg, hPath⟩ := List.mem_filterMap.mp hIn
      rcases List.mem_cons.mp hg with rfl | hLater
      · exact .inl (hOne (.inr hPath))
      · exact .inr (List.mem_filterMap.mpr ⟨g, hLater, hPath⟩)

theorem mem_of_get {e : PathMatcherEntry regex Msg} (h : m.get path = some e) : e ∈ m.entries ∧ e.path = path :=
  ⟨List.mem_of_find?_eq_some h, by simpa using List.find?_some h⟩

/-- What matches a path depends on the path. -/
theorem pathMatches_of_path {entry e : PathMatcherEntry regex Msg} (hPath : e.path = entry.path)
    (hCovers : clausesMatch entry p = true) : pathMatches p none e 0 = true := by
  have hParser : e.parser = entry.parser := by
    have hParsed := e.parsed
    rw [hPath, entry.parsed] at hParsed
    exact (Option.some.inj hParsed).symm
  rw [pathMatches_congr entry e hParser, pathMatches_eq_clausesMatch]
  exact hCovers

theorem matchesNode_of_hasPlain {entry : PathMatcherEntry regex Msg} (h : m.HasPlain entry.path)
    (hCovers : clausesMatch entry p = true) (data : Option Msg) : m.matchesNode p data 0 = true := by
  obtain ⟨e, hGet, hFilter⟩ := h
  obtain ⟨hIn, hPath⟩ := mem_of_get hGet
  refine List.any_eq_true.mpr ⟨e, hIn, (pathMatches_root_iff e p data).mpr ⟨?_, ?_⟩⟩
  · exact ((pathMatches_root_iff e p none).mp (pathMatches_of_path hPath hCovers)).1
  · unfold PathMatcherEntry.filterMatches
    rw [hFilter]

theorem markCount_pos {entry : PathMatcherEntry regex Msg} (h : m.get entry.path ≠ none)
    (hCovers : clausesMatch entry p = true) : 0 < m.markCount p := by
  obtain ⟨e, hGet⟩ := Option.ne_none_iff_exists'.mp h
  obtain ⟨hIn, hPath⟩ := mem_of_get hGet
  exact List.countP_pos_iff.mpr ⟨e, hIn, pathMatches_of_path hPath hCovers⟩

end PathMatcher

/-! ### Subscribing -/

theorem Session.get_setParameter (s : Session regex Msg) (f : Field Msg) {path : Str}
    (hParsed : (parsePath regex path).isSome = true)
    (h : s.subscriptions.get path ≠ none ∨ subscriptionPath f.name = some path) :
    (s.setParameter f).1.subscriptions.get path ≠ none := by
  unfold setParameter
  cases hPath : subscriptionPath f.name with
  | none =>
    have hOld := h.resolve_right fun hHere => by cases hPath.symm.trans hHere
    dsimp only
    split_ifs <;> exact hOld
  | some other =>
    rw [hPath] at h
    dsimp only
    unfold subscribeTo
    split
    next e hGet =>
      have hThere : s.subscriptions.get path ≠ none := by
        rcases h with hOld | hHere
        · exact hOld
        · rw [← Option.some.inj hHere, hGet]
          exact Option.some_ne_none e
      split <;> exact hThere
    next hNew =>
      cases hPut : s.subscriptions.putPathString other f.filter with
      | none =>
        rcases h with hOld | hHere
        · exact hOld
        · have hSome : (s.subscriptions.putPathString other f.filter).isSome = _ := PathMatcher.putPathString_isSome
          rw [hPut, Option.some.inj hHere, hParsed] at hSome
          cases hSome
      | some subscriptions =>
        obtain ⟨⟨parser, hOwn, hGet⟩, hOthers⟩ := PathMatcher.get_putPathString hPut
        show subscriptions.get path ≠ none
        by_cases hSame : path = other
        · rw [hSame, hGet]
          exact Option.some_ne_none _
        · rw [hOthers path hSame]
          exact h.resolve_right fun hHere => hSame (Option.some.inj hHere).symm

namespace Server

variable {srv srv' : Server regex Msg} {self path : Str}

/-- The session has a subscription with this path. -/
def Subscribes (srv : Server regex Msg) (self path : Str) : Prop :=
  ∃ k ∈ srv.members.map Member.settings, k.2.1 = self ∧ k.2.2.1.get path ≠ none

theorem subscribes_parameterStep (hIds : srv.IdsNodup) {m : Member regex Msg} (hm : srv.member? self = some m)
    {f : Field Msg} (hParsed : (parsePath regex path).isSome = true)
    (h : srv.Subscribes self path ∨ subscriptionPath f.name = some path)
    (hStep : srv.parameterStep self (fun s => s.setParameter f) = some srv') : srv'.Subscribes self path := by
  obtain ⟨hIn, hSelf⟩ := member?_mem hm
  have hId := (m.session.accounts_setParameter f).1
  have hOld : m.session.subscriptions.get path ≠ none ∨ subscriptionPath f.name = some path := by
    refine h.imp_left ?_
    rintro ⟨k, hk, hOwn, hGet⟩
    obtain ⟨m', hm', rfl⟩ := List.mem_map.mp hk
    have hFound := member?_of_mem hIds hm'
    rw [show m'.session.id = self from hOwn, hm] at hFound
    cases hFound
    exact hGet
  unfold Subscribes
  rw [settings_of_footing (footing_parameterStep hIds hm hId hStep)]
  refine ⟨_, List.mem_map_of_mem (List.mem_map.mpr ⟨m, hIn, if_pos hSelf⟩), hId.trans hSelf, ?_⟩
  exact m.session.get_setParameter f hParsed hOld

theorem subscribes_setFields (hLiteral : regex.Literal) (hMarked : srv.Marked)
    (hThere : (srv.member? self).isSome = true)
    {fields : List (Field Msg)} (hParsed : (parsePath regex path).isSome = true)
    (h : srv.Subscribes self path ∨ path ∈ PathMatcher.newPaths fields)
    (hFields : fields.foldlM (fun (srv : Server regex Msg) f => srv.parameterStep self fun s => s.setParameter f) srv =
      some srv') : srv'.Subscribes self path := by
  induction fields generalizing srv with
  | nil =>
    cases hFields
    exact h.resolve_right List.not_mem_nil
  | cons f fields ih =>
    obtain ⟨t, hFirst, hRest⟩ := Lib.foldlM_cons_eq_some.mp hFields
    obtain ⟨m, hm⟩ := Option.isSome_iff_exists.mp hThere
    have ht := adjusted_parameterStep hLiteral hMarked (fun s => s.accounts_setParameter f) hFirst
    have hStays : (t.member? self).isSome = true := by
      obtain ⟨hIn, hSelf⟩ := member?_mem hm
      have hMem : m.standing ∈ t.members.map Member.standing := ht.standing ▸ List.mem_map_of_mem hIn
      obtain ⟨m', hm', hSame⟩ := List.mem_map.mp hMem
      have hId : m'.session.id = self := (congrArg (fun k => k.2.1) hSame).trans hSelf
      exact List.find?_isSome.mpr ⟨m', hm', beq_iff_eq.mpr hId⟩
    refine ih ht.marked hStays ?_ hRest
    have hOne := fun hEither => subscribes_parameterStep hMarked.ids hm hParsed hEither hFirst
    rcases h with hOld | hIn
    · exact .inl (hOne (.inl hOld))
    · obtain ⟨g, hg, hPath⟩ := List.mem_filterMap.mp hIn
      rcases List.mem_cons.mp hg with rfl | hLater
      · exact .inl (hOne (.inr hPath))
      · exact .inr (List.mem_filterMap.mpr ⟨g, hLater, hPath⟩)

end Server

namespace IndexUpdate

theorem applyAll_inserted (index done : List Str) :
    applyAll ((index.zipIdx done.length).map fun entry => .inserted entry.2 entry.1) done = some (done ++ index) := by
  induction index generalizing done with
  | nil => exact congrArg some (List.append_nil done).symm
  | cons key index ih =>
    have hFirst : (inserted done.length key).apply done = some (done ++ [key]) :=
      (if_pos (Nat.le_refl _)).trans (congrArg some List.insertIdx_length_self)
    have hRest := ih (done ++ [key])
    rw [List.length_append, List.length_singleton, List.append_assoc] at hRest
    rw [List.zipIdx_cons, List.map_cons]
    unfold applyAll at hRest ⊢
    rw [List.foldlM_cons, hFirst]
    exact hRest

end IndexUpdate

namespace IndexedServer

variable {st st₁ st₂ : IndexedServer regex Msg} {self id : Str} {p q : Path}

/-! ### Snapshots -/

theorem applyAll_snapshot (index start : List Str) :
    IndexUpdate.applyAll (updatesFor id p (snapshot id q index)) start =
    some (if q = p ∧ index ≠ [] then index else start) := by
  unfold snapshot
  cases index with
  | nil => exact (congrArg some (if_neg fun hBoth => hBoth.2 rfl)).symm
  | cons key index =>
    rw [if_neg (by simp)]
    by_cases hHere : q = p
    · have hAll : updatesFor id p ((id, q, .cleared) :: (key :: index).zipIdx.map fun entry =>
          (id, q, .inserted entry.2 entry.1)) =
            .cleared :: (key :: index).zipIdx.map fun entry => .inserted entry.2 entry.1 := by
        simp [updatesFor, hHere]
      rw [hAll, if_pos ⟨hHere, List.cons_ne_nil key index⟩]
      exact IndexUpdate.applyAll_inserted (key :: index) []
    · have hNone : updatesFor id p ((id, q, .cleared) :: (key :: index).zipIdx.map fun entry =>
          (id, q, .inserted entry.2 entry.1)) = [] := by
        simp [updatesFor, hHere]
      rw [hNone, if_neg fun hBoth => hHere hBoth.1]
      rfl

/-- Snapshots of many nodes leave a client with the index of its own node, if that is one of them. -/
theorem applyAll_snapshots (st : IndexedServer regex Msg) (nodes : List Path) (start : List Str) :
    IndexUpdate.applyAll (updatesFor id p (nodes.flatMap fun q => snapshot id q (st.indexAt q))) start =
      some (if p ∈ nodes ∧ st.indexAt p ≠ [] then st.indexAt p else start) := by
  induction nodes generalizing start with
  | nil => exact (congrArg some (if_neg fun hBoth => List.not_mem_nil hBoth.1)).symm
  | cons q nodes ih =>
    rw [List.flatMap_cons, updatesFor_append, IndexUpdate.applyAll_append (applyAll_snapshot ..), ih]
    by_cases hHere : q = p
    · subst hHere
      by_cases hSome : st.indexAt q = []
      · simp [hSome]
      · simp [hSome]
    · simp [hHere, Ne.symm hHere]

/-- A node with entries is one of those that a session is told of: its own subtree is not skipped then. -/
theorem mem_told_of_index (hLiteral : regex.Literal) (h : st.Kept) {m : Member regex Msg}
    (hm : st.server.member? self = some m) {matcher : PathMatcher regex Msg}
    (hMatches : ∀ data, matcher.matchesNode p data 0 = true) (hSome : st.indexAt p ≠ []) :
    p ∈ (matcher.doTraversal st.server.db (Server.getDataDepth self (!m.session.reflectToSelf && !m.indexingPresent)) []
      true).filter fun p => !((!m.session.reflectToSelf && !m.indexingPresent) && Server.inSubtreeOf self p) := by
  obtain ⟨key, hKey⟩ := List.exists_mem_of_ne_nil _ hSome
  have hIn := mem_of_index h hKey
  rw [List.mem_filter]
  cases hOwn : Server.inSubtreeOf self p with
  | false =>
    rw [Bool.and_false]
    exact ⟨(PathMatcher.mem_getData hLiteral _ hOwn).mpr ⟨hIn, hMatches _⟩, rfl⟩
  | true =>
    have hPresent : m.indexingPresent = true := by
      obtain ⟨k, hk, ⟨rest, hBelow⟩, hTrue⟩ := h.present p hSome
      obtain ⟨m', hm', rfl⟩ := List.mem_map.mp hk
      have hName : p[1]? = some self := beq_iff_eq.mp hOwn
      rw [← hBelow] at hName
      have hFound := Server.member?_of_mem h.marked.ids hm'
      rw [show m'.session.id = self from Option.some.inj hName, hm] at hFound
      cases hFound
      exact hTrue
    have hSkips : (!m.session.reflectToSelf && !m.indexingPresent) = false := by
      rw [hPresent, Bool.not_true, Bool.and_false]
    have hDepth : Server.getDataDepth self false = PathMatcher.callWithDepth := by
      funext p
      rfl
    rw [hSkips, hDepth]
    exact ⟨(PathMatcher.mem_doTraversal_root hLiteral).mpr ⟨hIn, hMatches _⟩, rfl⟩

/-! ### The result -/

theorem pending_step {message : GatewayMessage Msg} (hPending : st.nextIndexUpdates = [])
    (h : st.step (.received self message) = some st₁) : st₁.nextIndexUpdates = [] := by
  unfold step at h
  dsimp only at h
  split at h
  · exact pending_callMessagesReceived hPending h
  · cases h
    exact hPending

theorem goes_commands (hLiteral : regex.Literal) (h : st.Kept) (hPending : st.nextIndexUpdates = [])
    {commands : List (Str × GatewayMessage Msg)} (hEdits : ∀ c ∈ commands, c.2.editsIndices = true)
    (hRun : st.run (commands.map fun c => .received c.1 c.2) = some st₁) :
    Goes True st st₁ ∧ st₁.nextIndexUpdates = [] := by
  refine Lib.foldlM_keeps (P := fun t => Goes True st t ∧ t.nextIndexUpdates = []) hRun ?_ ⟨.refl h, hPending⟩
  rintro event hEvent t t' ⟨ht, hSent⟩ hStep
  obtain ⟨c, hc, rfl⟩ := List.mem_map.mp hEvent
  refine ⟨ht.trans ?_, pending_step hSent hStep⟩
  unfold step at hStep
  dsimp only at hStep
  split at hStep
  · exact (kept_callMessagesReceived hLiteral [c.2] ht.kept hStep).2 ((Bool.and_eq_true ..).mpr ⟨hEdits c hc, rfl⟩)
  · cases hStep
    exact .refl ht.kept

/-- A message that subscribes is answered with what a client without an index needs to have it. -/
theorem index_of_subscription (hLiteral : regex.Literal) (h : st.Kept) (hPending : st.nextIndexUpdates = [])
    (hThere : (st.server.member? self).isSome = true) {fields : List (Field Msg)}
    (hLoud : (fields.any fun f => f.name == PR_NAME_SUBSCRIBE_QUIETLY) = false) {entry : PathMatcherEntry regex Msg}
    (hCovers : PathMatcher.clausesMatch entry p = true) (hField : entry.path ∈ PathMatcher.newPaths fields)
    (hPlain : ∀ f ∈ fields, subscriptionPath f.name = some entry.path → f.filter = none)
    (hSubscribe : st.setParameters self fields = some st₁) :
    st₁.server.Subscribes self entry.path ∧ st₁.nextIndexUpdates = [] ∧
      ∃ received, updatesFor self p st₁.indexUpdates = updatesFor self p st.indexUpdates ++ received ∧
        IndexUpdate.applyAll received [] = some (st₁.indexAt p) := by
  have hParsed : (parsePath regex entry.path).isSome = true := by
    rw [entry.parsed]
    rfl
  unfold setParameters at hSubscribe
  obtain ⟨server, hFields, rfl⟩ := Option.map_eq_some_iff.mp hSubscribe
  have hAdjusted := Server.adjusted_setFields hLiteral h.marked hFields
  have hSubscribes := Server.subscribes_setFields hLiteral h.marked hThere hParsed (.inr hField) hFields
  have hKept := kept_adjusted h hAdjusted
  have hSome : (Server.getKeys fields).isEmpty = false := by
    obtain ⟨f, hf, hPath⟩ := List.mem_filterMap.mp hField
    rw [List.isEmpty_eq_false_iff]
    refine List.ne_nil_of_mem (List.mem_map_of_mem (List.mem_filter.mpr ⟨hf, ?_⟩))
    rw [hPath]
    rfl
  obtain ⟨m, hm⟩ : ∃ m, server.member? self = some m := by
    obtain ⟨k, hk, hId, -⟩ := hSubscribes
    obtain ⟨m, hIn, rfl⟩ := List.mem_map.mp hk
    exact Option.isSome_iff_exists.mp (List.find?_isSome.mpr ⟨m, hIn, beq_iff_eq.mpr hId⟩)
  have hMatcher : ∀ data, PathMatcher.matchesNode
      (.putPaths (some DEFAULT_PATH_PREFIX) none (Server.getKeys fields) .empty : PathMatcher regex Msg) p data 0 =
        true := by
    intro data
    rw [PathMatcher.putPaths_getKeys]
    exact PathMatcher.matchesNode_of_hasPlain (PathMatcher.hasPlain_foldl_putField hParsed hPlain (.inr hField))
      hCovers data
  dsimp only
  rw [hLoud, hSome, Bool.or_false, if_neg Bool.false_ne_true]
  unfold doGetData
  dsimp only
  rw [hm]
  refine ⟨?_, hPending, _, updatesFor_append .., (applyAll_snapshots { st with server := server } _ []).trans ?_⟩
  · obtain ⟨k, hk, hOwn⟩ := hSubscribes
    have hTold : server.Tended (server.doGetData self
        (.putPaths (some DEFAULT_PATH_PREFIX) none (Server.getKeys fields) .empty)) :=
      Server.tended_updateMember hAdjusted.marked fun _ => rfl
    rw [← settings_of_footing hTold.members] at hk
    exact ⟨k, hk, hOwn⟩
  · refine congrArg some ?_
    split
    · rfl
    next hNot =>
      by_contra hOther
      have hIndex : st.indexAt p ≠ [] := fun hEmpty => hOther hEmpty.symm
      exact hNot ⟨mem_told_of_index hLiteral hKept hm hMatcher hIndex, hIndex⟩

/-- Since it subscribed to a path without a filter, and not quietly, a session has been told of the index of a node that
matches just what a client needs to have it, command by command. -/
theorem index_mirror (hLiteral : regex.Literal) (blankMessage : Msg) (events : List (GatewayEvent Msg))
    {before : IndexedServer regex Msg} (hBefore : (start regex blankMessage).run events = some before)
    (hThere : (before.server.member? self).isSome = true)
    (early late : List (GatewayMessage Msg)) {fields : List (Field Msg)}
    (hLoud : (fields.any fun f => f.name == PR_NAME_SUBSCRIBE_QUIETLY) = false) (entry : PathMatcherEntry regex Msg)
    (hCovers : PathMatcher.clausesMatch entry p = true) (hField : entry.path ∈ PathMatcher.newPaths fields)
    (hPlain : ∀ f ∈ fields, subscriptionPath f.name = some entry.path → f.filter = none)
    (hEarly : callMessagesReceived self early before = some st)
    (hSubscribe : callMessagesReceived self (.setParameters fields :: late) st = some st₁)
    (hLate : GatewayMessage.allEditIndices late = true) (hEnabled : st₁.hears self = true)
    {commands : List (Str × GatewayMessage Msg)} (hEdits : ∀ c ∈ commands, c.2.editsIndices = true)
    (hRun : st₁.run (commands.map fun c => .received c.1 c.2) = some st₂) :
    ∃ received, updatesFor self p st₂.indexUpdates = updatesFor self p st.indexUpdates ++ received ∧
      IndexUpdate.applyAll received [] = some (st₂.indexAt p) := by
  have hSettled := settled_run hLiteral (settled_start blankMessage) hBefore
  have hKept := (kept_callMessagesReceived hLiteral early hSettled.kept hEarly).1
  have hPending := pending_callMessagesReceived hSettled.pending hEarly
  have hStays : (st.server.member? self).isSome = true := by
    obtain ⟨m, hm⟩ := Option.isSome_iff_exists.mp hThere
    have hIsolates := isolates_callMessagesReceived early (home_of_member hSettled.sound hm) hEarly
    rw [← mem_ids]
    unfold ids
    rw [hIsolates.server.ids]
    exact mem_ids.mpr hThere
  unfold callMessagesReceived at hSubscribe
  split at hSubscribe
  next t hFirst =>
    have hSet : st.setParameters self fields = some t := by
      unfold messageReceivedFromGateway at hFirst
      exact hFirst
    have ht := kept_setParameters hLiteral hKept hSet
    obtain ⟨hSubscribes, hSent, received, hReceived, hApply⟩ :=
      index_of_subscription hLiteral hKept hPending hStays hLoud hCovers hField hPlain hSet
    have hPush : Goes True t t.pushSubscriptionMessages := goes_push ht
    have hGoesLate := (kept_callMessagesReceived hLiteral late hPush.kept hSubscribe).2 hLate
    have hPendingLate : st₁.nextIndexUpdates = [] := pending_callMessagesReceived (by rfl) hSubscribe
    obtain ⟨hGoesRun, hPendingRun⟩ := goes_commands hLiteral hGoesLate.kept hPendingLate hEdits hRun
    have hGoes : Goes True t st₁ := hPush.trans hGoesLate
    have hWatching : t.Watching self p := by
      obtain ⟨k, hk, hId, hGet⟩ := hSubscribes
      refine ⟨k, hk, hId, ?_, PathMatcher.markCount_pos hGet hCovers⟩
      rw [← hGoes.members] at hk
      obtain ⟨m, hm, rfl⟩ := List.mem_map.mp hk
      have hFound := Server.member?_of_mem hGoesLate.kept.marked.ids hm
      unfold hears at hEnabled
      rw [← show m.session.id = self from hId, hFound] at hEnabled
      exact hEnabled
    obtain ⟨updates, hTold, hUpdates⟩ := (hGoes.trans hGoesRun).tells trivial self p hWatching
    unfold told at hTold
    rw [hPendingRun, hSent, List.append_nil, List.append_nil, hReceived, List.append_assoc] at hTold
    exact ⟨received ++ updates, hTold, (IndexUpdate.applyAll_append hApply).trans hUpdates⟩
  next => cases hSubscribe

/-- Two sessions of a host, one with a node that has two ordered children. -/
def twoEntries : List (GatewayEvent Nat) :=
  [.attach ['h'] ['1'] 9 0, .attach ['h'] ['2'] 9 0,
    .received ['2'] (.batch [.setData [(['x'], 1)] false,
      .insertOrderedData [(['x'], none)] [([], 2), ([], 3)] fun _ i => i.toUInt32])]

def nodeX : Path := [['h'], ['2'], ['x']]

/-- What the other session sends to subscribe to nodes of this name. -/
def toX : Field Nat :=
  ⟨PR_NAME_SUBSCRIBE_PREFIX ++ ['x'], none, none⟩

def entryX : PathMatcherEntry PathMatcher.oneCharacter Nat :=
  ⟨['*', '/', '*', '/', 'x'], (parsePath PathMatcher.oneCharacter ['*', '/', '*', '/', 'x']).getD [], none, rfl⟩

/-- The children of the node change places, and the node goes with all of them and is made again. -/
def editsOfX : List (Str × GatewayMessage Nat) :=
  [(['2'], .reorderData [(['x', '/', '*'], ['I', '0'])]),
    (['2'], .batch [.removeData [(['x'], none)] false, .setData [(['x'], 4)] false]),
    (['2'], .insertOrderedData [(['x'], none)] [([], 5)] fun _ _ => 7)]

theorem index_mirror_twoEntries : ∃ before st₁ st₂, (start PathMatcher.oneCharacter 0).run twoEntries = some before ∧
    callMessagesReceived ['1'] [.setParameters [toX]] before = some st₁ ∧
    st₁.run (editsOfX.map fun c => .received c.1 c.2) = some st₂ ∧
    ∃ received, updatesFor ['1'] nodeX st₂.indexUpdates = updatesFor ['1'] nodeX before.indexUpdates ++ received ∧
      IndexUpdate.applyAll received [] = some (st₂.indexAt nodeX) := by
  have hRuns : (((start PathMatcher.oneCharacter 0).run twoEntries).bind fun before =>
      (callMessagesReceived ['1'] [.setParameters [toX]] before).bind fun st₁ =>
        (st₁.run (editsOfX.map fun c => .received c.1 c.2)).map fun _ =>
          ((before.server.member? ['1']).isSome, st₁.hears ['1'])) = some (true, true) := by decide +kernel
  obtain ⟨before, hBefore, hRest⟩ := Option.bind_eq_some_iff.mp hRuns
  obtain ⟨st₁, hSubscribe, hLast⟩ := Option.bind_eq_some_iff.mp hRest
  obtain ⟨st₂, hRun, hSame⟩ := Option.map_eq_some_iff.mp hLast
  refine ⟨before, st₁, st₂, hBefore, hSubscribe, hRun, ?_⟩
  exact index_mirror PathMatcher.oneCharacter_literal 0 twoEntries hBefore (congrArg Prod.fst hSame) [] []
    (by decide) entryX (by decide) (by decide) (fun f hf _ => by cases List.mem_singleton.mp hf; rfl) rfl hSubscribe rfl
    (congrArg Prod.snd hSame) (by decide) hRun

/-- Subscribing quietly a session is not told what is there: what its client has is not the index. -/
theorem index_mirror_quietly : ∃ before st₁, (start PathMatcher.oneCharacter 0).run twoEntries = some before ∧
    before.step (.received ['1'] (.setParameters [toX, ⟨PR_NAME_SUBSCRIBE_QUIETLY, none, none⟩])) = some st₁ ∧
    PathMatcher.clausesMatch entryX nodeX = true ∧ st₁.server.Subscribes ['1'] entryX.path ∧ st₁.hears ['1'] = true ∧
    ¬∃ received, updatesFor ['1'] nodeX st₁.indexUpdates = updatesFor ['1'] nodeX before.indexUpdates ++ received ∧
      IndexUpdate.applyAll received [] = some (st₁.indexAt nodeX) := by
  have hRuns : (((start PathMatcher.oneCharacter 0).run twoEntries).bind fun before =>
      (before.step (.received ['1'] (.setParameters [toX, ⟨PR_NAME_SUBSCRIBE_QUIETLY, none, none⟩]))).map fun st₁ =>
        ((st₁.server.members.map Member.settings).any fun k => k.2.1 == ['1'] && (k.2.2.1.get entryX.path).isSome,
          st₁.hears ['1'], (updatesFor ['1'] nodeX st₁.indexUpdates).length, st₁.indexAt nodeX)) =
      some (true, true, 0, [['I', '0'], ['I', '1']]) := by decide +kernel
  obtain ⟨before, hBefore, hRest⟩ := Option.bind_eq_some_iff.mp hRuns
  obtain ⟨st₁, hSubscribe, hSame⟩ := Option.map_eq_some_iff.mp hRest
  refine ⟨before, st₁, hBefore, hSubscribe, by decide, ?_, congrArg (fun k => k.2.1) hSame, ?_⟩
  · obtain ⟨k, hk, hBoth⟩ := List.any_eq_true.mp (congrArg Prod.fst hSame)
    rw [Bool.and_eq_true, beq_iff_eq, Option.isSome_iff_ne_none] at hBoth
    exact ⟨k, hk, hBoth⟩
  · rintro ⟨received, hReceived, hApply⟩
    have hNone := List.length_eq_zero_iff.mp (congrArg (fun k => k.2.2.1) hSame)
    have hIndex : st₁.indexAt nodeX = [['I', '0'], ['I', '1']] := congrArg (fun k => k.2.2.2) hSame
    rw [hNone] at hReceived
    rw [(List.append_eq_nil_iff.mp hReceived.symm).2, hIndex] at hApply
    cases hApply

end IndexedServer

end BeShare.Muscle.Reflect
