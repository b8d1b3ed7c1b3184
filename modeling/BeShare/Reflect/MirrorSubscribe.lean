import BeShare.Reflect.MirrorCommands

/-!
New subscriptions: their nodes are marked one path after another, and the answer at the end tells the client all
that they add.
-/

namespace BeShare.Muscle.Reflect

variable {regex : Regex} {Msg : Type}

namespace PathMatcher

variable {m : PathMatcher regex Msg} {q : Path}

/-- One field of the message, for the matcher of the answer. -/
def putField (m : PathMatcher regex Msg) (f : Field Msg) : PathMatcher regex Msg :=
  match subscriptionPath f.name with
  | some path => (m.putPathString path f.filter).getD m
  | none => m

theorem putPaths_getKeys (fields : List (Field Msg)) (filter : Option (QueryFilter Msg)) (m : PathMatcher regex Msg) :
    putPaths (some DEFAULT_PATH_PREFIX) filter (Server.getKeys fields) m = fields.foldl putField m := by
  induction fields generalizing filter m with
  | nil => rfl
  | cons f fields ih =>
    rw [List.foldl_cons]
    cases hPath : subscriptionPath f.name with
    | some path =>
      have hField : m.putField f = (m.putPathString path f.filter).getD m := by
        unfold putField
        rw [hPath]
      have hKeys : Server.getKeys (f :: fields) = (f.name.drop 10, some f.filter) :: Server.getKeys fields := by
        unfold Server.getKeys
        rw [List.filter_cons, if_pos (by rw [hPath]; rfl), List.map_cons]
      have hAdjusted : adjustStringPrefix (f.name.drop 10) DEFAULT_PATH_PREFIX = path := by
        unfold subscriptionPath at hPath
        split at hPath
        · exact Option.some.inj hPath
        · cases hPath
      rw [hField, hKeys, ← hAdjusted]
      unfold putPaths
      rw [Option.getD_some, ih]
      rfl
    | none =>
      have hField : m.putField f = m := by
        unfold putField
        rw [hPath]
      have hKeys : Server.getKeys (f :: fields) = Server.getKeys fields := by
        unfold Server.getKeys
        rw [List.filter_cons, if_neg (by rw [hPath]; exact Bool.false_ne_true)]
      rw [hField, hKeys, ih]

theorem get_eq_none_iff (path : Str) : m.get path = none ↔ ∀ e ∈ m.entries, e.path ≠ path := by
  unfold get
  rw [List.find?_eq_none]
  refine forall_congr' fun e => imp_congr_right fun _ => ?_
  rw [beq_iff_eq]

/-- The paths that the fields of a message subscribe to. -/
def newPaths (fields : List (Field Msg)) : List Str :=
  fields.filterMap fun f => subscriptionPath f.name

theorem get_putField {f : Field Msg} {path : Str} (hNone : m.get path = none)
    (hOther : subscriptionPath f.name ≠ some path) : (m.putField f).get path = none := by
  unfold putField
  split
  · rename_i other hPath
    have hNot : path ≠ other := by
      rintro rfl
      exact hOther hPath
    cases hPut : m.putPathString other f.filter with
    | some m' => exact ((get_putPathString hPut).2 path hNot).trans hNone
    | none => exact hNone
  · exact hNone

theorem get_foldl_putField {fields : List (Field Msg)} {path : Str} (hNone : m.get path = none)
    (hOther : path ∉ newPaths fields) : (fields.foldl putField m).get path = none := by
  induction fields generalizing m with
  | nil => exact hNone
  | cons f fields ih =>
    refine ih (get_putField hNone fun hHere => hOther ?_) fun hIn => hOther ?_
    · exact List.mem_filterMap.mpr ⟨f, List.mem_cons_self .., hHere⟩
    · obtain ⟨g, hg, hPath⟩ := List.mem_filterMap.mp hIn
      exact List.mem_filterMap.mpr ⟨g, List.mem_cons_of_mem _ hg, hPath⟩

theorem matchesNode_append {m m' : PathMatcher regex Msg} {more : List (PathMatcherEntry regex Msg)}
    (h : m'.entries = m.entries ++ more) (q : Path) (data : Option Msg) :
    m'.matchesNode q data 0 = (m.matchesNode q data 0 || more.any fun e => pathMatches q data e 0) := by
  unfold matchesNode
  rw [h, List.any_append]

end PathMatcher

namespace Session

variable {s s' : Session regex Msg}

/-- The parameters that a client may set without being told less: all but those that turn its updates off. -/
def Harmless (f : Field Msg) : Prop :=
  f.name ≠ PR_NAME_DISABLE_SUBSCRIPTIONS ∧ f.name ≠ PR_NAME_SUBSCRIBE_QUIETLY

/-- What setting parameters has done to a session since it had given subscriptions: new entries at the end of its
table. -/
structure Extends (s s' : Session regex Msg) (more : List (PathMatcherEntry regex Msg)) : Prop where
  id : s'.id = s.id
  sent : s'.sent = s.sent
  next : s'.nextSubscriptionMessage = s.nextSubscriptionMessage
  enabled : s'.subscriptionsEnabled = s.subscriptionsEnabled
  counted : s'.subscriptions.FiltersCounted
  entries : s'.subscriptions.entries = s.subscriptions.entries ++ more

theorem Extends.refl (hCounted : s.subscriptions.FiltersCounted) : s.Extends s [] :=
  ⟨rfl, rfl, rfl, rfl, hCounted, (List.append_nil _).symm⟩

theorem Extends.view {more : List (PathMatcherEntry regex Msg)} (h : s.Extends s' more) : s'.view = s.view := by
  unfold Session.view
  rw [h.sent, h.next]

/-- One field of the message extends the session's table as it extends the matcher of the answer, and the nodes of a
new path get their marks. -/
theorem extends_setParameter {s₀ : Session regex Msg} {m : PathMatcher regex Msg} {f : Field Msg}
    (hHarmless : Harmless f) (h : s₀.Extends s m.entries)
    (hNew : ∀ path, subscriptionPath f.name = some path →
      s₀.subscriptions.get path = none ∧ m.get path = none) :
    s₀.Extends (s.setParameter f).1 (m.putField f).entries ∧
      ((s.setParameter f).2 = none ∨ ∃ path delta, (s.setParameter f).2 = some (.subscribeRef path delta)) := by
  unfold setParameter PathMatcher.putField
  cases hPath : subscriptionPath f.name with
  | some path =>
    obtain ⟨hNotOld, hNotNew⟩ := hNew path hPath
    have hNot : s.subscriptions.get path = none := by
      rw [PathMatcher.get_eq_none_iff] at hNotOld hNotNew ⊢
      intro e he
      rw [h.entries] at he
      exact (List.mem_append.mp he).elim (hNotOld e) (hNotNew e)
    dsimp only
    unfold subscribeTo
    rw [hNot]
    dsimp only
    cases hPut : s.subscriptions.putPathString path f.filter with
    | some table =>
      obtain ⟨parser, hParsed, hEntries, -⟩ := PathMatcher.entries_putPathString hNot hPut
      have hOther := @PathMatcher.putPathString_isSome _ _ m path f.filter
      rw [hParsed] at hOther
      obtain ⟨m', hm'⟩ := Option.isSome_iff_exists.mp hOther
      obtain ⟨parser', hParsed', hEntries', -⟩ := PathMatcher.entries_putPathString hNotNew hm'
      obtain rfl := Option.some.inj (hParsed.symm.trans hParsed')
      rw [hm', Option.getD_some, hEntries']
      refine ⟨⟨h.id, h.sent, h.next, h.enabled, PathMatcher.filtersCounted_putPathString h.counted hNot hPut, ?_⟩,
        .inr ⟨path, 1, rfl⟩⟩
      show table.entries = _
      rw [hEntries, h.entries, List.append_assoc]
    | none =>
      have hFails := @PathMatcher.putPathString_isSome _ _ s.subscriptions path f.filter
      rw [hPut] at hFails
      have hOther := @PathMatcher.putPathString_isSome _ _ m path f.filter
      rw [← hFails] at hOther
      rw [Option.isSome_eq_false_iff.mp hOther |> Option.isNone_iff_eq_none.mp]
      exact ⟨⟨h.id, h.sent, h.next, h.enabled, h.counted, h.entries⟩, .inl rfl⟩
  | none =>
    dsimp only
    rw [if_neg hHarmless.1]
    refine ⟨?_, .inl ?_⟩
    · split
      · exact ⟨h.id, h.sent, h.next, h.enabled, h.counted, h.entries⟩
      · split
        · exact ⟨h.id, h.sent, h.next, h.enabled, h.counted, h.entries⟩
        · split
          · exact h
          · exact ⟨h.id, h.sent, h.next, h.enabled, h.counted, h.entries⟩
    · split
      · rfl
      · split
        · rfl
        · split <;> rfl

end Session

namespace Server

variable {srv srv' : Server regex Msg} {self id : Str} {p q : Path}

theorem paths_foldl_modify (f : DataNode Msg → DataNode Msg) (l : List Path) (db : Database Msg) (q : Path) :
    q ∈ (l.foldl (fun db p => db.modify p f) db).paths ↔ q ∈ db.paths := by
  induction l generalizing db with
  | nil => rfl
  | cons p l ih =>
    rw [List.foldl_cons, ih, Database.mem_paths_modify]

theorem data_foldl_modify {f : DataNode Msg → DataNode Msg} (hf : ∀ n, (f n).data = n.data) (l : List Path)
    (db : Database Msg) (q : Path) : (l.foldl (fun db p => db.modify p f) db).data q = db.data q := by
  induction l generalizing db with
  | nil => rfl
  | cons p l ih =>
    rw [List.foldl_cons, ih, Database.data_modify]
    split
    · rename_i hHere
      subst hHere
      unfold Database.data
      cases db.node? q with
      | some n => exact hf n
      | none => rfl
    · rfl

/-- The same nodes with the same data, whatever their marks. -/
structure SameNodes (db db' : Database Msg) : Prop where
  paths : ∀ q, q ∈ db'.paths ↔ q ∈ db.paths
  data : ∀ q, db'.data q = db.data q

/-- The hosts and the IDs of the sessions. -/
def owners (srv : Server regex Msg) : List (Str × Str) :=
  srv.members.map fun m => (m.host, m.session.id)

/-- A step over a parameter that does not change a filter. -/
theorem parameterStep_spec {change : Session regex Msg → Session regex Msg × Option (Effect Msg)}
    (hId : ∀ s, (change s).1.id = s.id)
    (hEffect : ∀ s ∈ srv.sessions, s.id = self →
      (change s).2 = none ∨ ∃ path delta, (change s).2 = some (.subscribeRef path delta))
    (hIds : srv.IdsNodup) (h : srv.parameterStep self change = some srv') :
    SameNodes srv.db srv'.db ∧ srv'.owners = srv.owners ∧ srv'.blankMessage = srv.blankMessage ∧
      ∀ s' ∈ srv'.sessions, ∃ s ∈ srv.sessions, s' = if s.id = self then (change s).1 else s := by
  unfold parameterStep at h
  split at h
  · rename_i m hm
    obtain ⟨hIn, hSelf⟩ := member?_mem hm
    have hUpdated : srv'.members =
        (srv.updateMember self fun m' => { m' with session := (change m.session).1 }).members ∧
        SameNodes srv.db srv'.db ∧ srv'.blankMessage = srv.blankMessage := by
      dsimp only at h
      rcases hEffect m.session (mem_sessions.mpr ⟨m, hIn, rfl⟩) hSelf with hNone | ⟨path, delta, hSome⟩
      · rw [hNone] at h
        cases h
        exact ⟨rfl, ⟨fun _ => Iff.rfl, fun _ => rfl⟩, rfl⟩
      · rw [hSome] at h
        unfold applyEffect at h
        dsimp only at h
        split at h
        · cases h
          exact ⟨rfl, ⟨fun q => paths_foldl_modify _ _ _ q,
            fun q => data_foldl_modify (fun n => DataNode.data_increment ..) _ _ q⟩, rfl⟩
        · cases h
          exact ⟨rfl, ⟨fun _ => Iff.rfl, fun _ => rfl⟩, rfl⟩
    obtain ⟨hMembers, hNodes, hBlank⟩ := hUpdated
    refine ⟨hNodes, ?_, hBlank, fun s' hs' => ?_⟩
    · unfold owners
      rw [hMembers]
      unfold updateMember
      dsimp only
      rw [List.map_map]
      refine List.map_congr_left fun m' hm' => ?_
      show ((if m'.session.id = self then _ else m').host, (if m'.session.id = self then _ else m').session.id) = _
      split
      · rename_i hHere
        show (m'.host, (change m.session).1.id) = _
        rw [hId, hSelf, hHere]
      · rfl
    · obtain ⟨m', hm', rfl⟩ := mem_sessions.mp hs'
      rw [hMembers] at hm'
      obtain ⟨m₀, hm₀, rfl⟩ := List.mem_map.mp hm'
      refine ⟨m₀.session, mem_sessions.mpr ⟨m₀, hm₀, rfl⟩, ?_⟩
      by_cases hHere : m₀.session.id = self
      · have hFound := member?_of_mem hIds hm₀
        rw [hHere, hm] at hFound
        cases hFound
        rw [if_pos hHere, if_pos hHere]
      · rw [if_neg hHere, if_neg hHere]
  · rename_i hNone
    cases h
    refine ⟨⟨fun _ => Iff.rfl, fun _ => rfl⟩, rfl, rfl, fun s hs => ⟨s, hs, ?_⟩⟩
    obtain ⟨m, hm, rfl⟩ := mem_sessions.mp hs
    refine (if_neg fun hHere => ?_).symm
    have hFound := member?_of_mem hIds hm
    rw [hHere, hNone] at hFound
    cases hFound

theorem parameterStep_goesOn {change : Session regex Msg → Session regex Msg × Option (Effect Msg)}
    (hEffect : ∀ s ∈ srv.sessions, s.id = self →
      (change s).2 = none ∨ ∃ path delta, (change s).2 = some (.subscribeRef path delta)) :
    ∃ srv', srv.parameterStep self change = some srv' := by
  unfold parameterStep
  split
  · rename_i m hm
    obtain ⟨hIn, hSelf⟩ := member?_mem hm
    dsimp only
    rcases hEffect m.session (mem_sessions.mpr ⟨m, hIn, rfl⟩) hSelf with hNone | ⟨path, delta, hSome⟩
    · rw [hNone]
      exact ⟨_, rfl⟩
    · rw [hSome]
      unfold applyEffect
      dsimp only
      split
      · exact ⟨_, rfl⟩
      · exact ⟨_, rfl⟩
  · exact ⟨srv, rfl⟩

/-! ### The answer -/

/-- The messages of the answer leave for each node that is told its data. -/
theorem applyAll_getDataResults (db : Database Msg) (maxItems : Nat) (told : List Path) (m : DataItems Msg)
    (hRemoved : m.removed = []) (hNodup : (m.items.map Prod.fst).Nodup) (t : Table Msg) (q : Path) :
    t.applyAll (getDataResults db maxItems m told) q = if q ∈ told then some (db.data q) else t.apply m q := by
  induction told generalizing m t with
  | nil =>
    unfold getDataResults
    rw [if_neg List.not_mem_nil]
    split
    · rename_i hEmpty
      obtain ⟨removed, items⟩ := m
      obtain rfl : items = [] := List.isEmpty_iff.mp hEmpty
      obtain rfl : removed = [] := hRemoved
      rfl
    · rfl
  | cons p rest ih =>
    have hMore := (@DataItems.nodup_addItem _ p (db.data p) _ hNodup).1
    have hApply : t.apply { m with items := DataItems.addItem p (db.data p) m.items } q =
        if q = p then some (db.data q) else t.apply m q := by
      rw [Table.apply_eq, Table.apply_eq]
      dsimp only
      rw [DataItems.valueAt_addItem hNodup]
      split
      · rename_i hHere
        rw [hHere]
        rfl
      · rfl
    have hBoth : ∀ t' : Table Msg, t' q = (if q = p then some (db.data q) else t.apply m q) →
        (if q ∈ rest then some (db.data q) else t' q) =
          if q ∈ p :: rest then some (db.data q) else t.apply m q := by
      intro t' ht'
      by_cases hRest : q ∈ rest
      · rw [if_pos hRest, if_pos (List.mem_cons_of_mem _ hRest)]
      · rw [if_neg hRest, ht']
        by_cases hHere : q = p
        · rw [if_pos hHere, if_pos (hHere ▸ List.mem_cons_self ..)]
        · rw [if_neg hHere, if_neg fun hIn => (List.mem_cons.mp hIn).elim hHere hRest]
    unfold getDataResults
    dsimp only
    split
    · refine Eq.trans ?_ (hBoth _ hApply)
      exact ih ⟨[], []⟩ rfl List.nodup_nil _
    · refine Eq.trans ?_ (hBoth _ hApply)
      exact ih { m with items := DataItems.addItem p (db.data p) m.items } hRemoved hMore t

/-! ### The message -/

/-- What the fields of a message have done: the session has their subscriptions, and the other sessions and the nodes
are what they were. -/
structure Subscribed (id : Str) (srv srv' : Server regex Msg) (more : List (PathMatcherEntry regex Msg)) : Prop where
  marked : srv'.Marked
  nodes : SameNodes srv.db srv'.db
  owners : srv'.owners = srv.owners
  blankMessage : srv'.blankMessage = srv.blankMessage
  sessions : ∀ s' ∈ srv'.sessions, ∃ s ∈ srv.sessions, s'.id = s.id ∧ if s.id = id then s.Extends s' more else s' = s

theorem Subscribed.setParameter (hLiteral : regex.Literal) {t : Server regex Msg} {m : PathMatcher regex Msg}
    {f : Field Msg} (hHarmless : Session.Harmless f)
    (hNew : ∀ s ∈ srv.sessions, s.id = self → ∀ path, subscriptionPath f.name = some path →
      s.subscriptions.get path = none ∧ m.get path = none)
    (h : Subscribed self srv t m.entries) :
    ∃ t', t.parameterStep self (fun s => s.setParameter f) = some t' ∧
      Subscribed self srv t' (m.putField f).entries := by
  have hOne : ∀ s' ∈ t.sessions, s'.id = self → ∃ s ∈ srv.sessions, s'.id = s.id ∧
      s.Extends (s'.setParameter f).1 (m.putField f).entries ∧
        ((s'.setParameter f).2 = none ∨ ∃ path delta, (s'.setParameter f).2 = some (.subscribeRef path delta)) := by
    intro s' hs' hSelf
    obtain ⟨s, hs, hId, hSame⟩ := h.sessions s' hs'
    rw [if_pos (hId ▸ hSelf)] at hSame
    exact ⟨s, hs, hId, Session.extends_setParameter hHarmless hSame (hNew s hs (hId ▸ hSelf))⟩
  have hEffect := fun s' hs' hSelf => (hOne s' hs' hSelf).choose_spec.2.2.2
  obtain ⟨t', hStep⟩ := parameterStep_goesOn hEffect
  obtain ⟨hNodes, hOwners, hBlank, hSessions⟩ := parameterStep_spec (fun s => (s.accounts_setParameter f).1)
    hEffect h.marked.ids hStep
  refine ⟨t', hStep, marked_parameterStep hLiteral h.marked (fun s => s.accounts_setParameter f) hStep,
    ⟨fun q => (hNodes.paths q).trans (h.nodes.paths q), fun q => (hNodes.data q).trans (h.nodes.data q)⟩,
    hOwners.trans h.owners, hBlank.trans h.blankMessage, fun s'' hs'' => ?_⟩
  obtain ⟨s', hs', rfl⟩ := hSessions s'' hs''
  by_cases hSelf : s'.id = self
  · obtain ⟨s, hs, hId, hExtends, -⟩ := hOne s' hs' hSelf
    rw [if_pos hSelf]
    refine ⟨s, hs, hExtends.id, ?_⟩
    rw [if_pos (hId ▸ hSelf)]
    exact hExtends
  · obtain ⟨s, hs, hId, hSame⟩ := h.sessions s' hs'
    have hOther : s.id ≠ self := hId ▸ hSelf
    rw [if_neg hOther] at hSame
    rw [if_neg hSelf]
    exact ⟨s, hs, hId, (if_neg hOther).mpr hSame⟩

theorem subscribed_fields (hLiteral : regex.Literal) (hMirrored : srv.Mirrored) {fields : List (Field Msg)}
    (hHarmless : ∀ f ∈ fields, Session.Harmless f) (hOnce : (PathMatcher.newPaths fields).Nodup)
    (hNew : ∀ s ∈ srv.sessions, s.id = self → ∀ path ∈ PathMatcher.newPaths fields, s.subscriptions.get path = none) :
    ∃ srv', fields.foldlM (fun (srv : Server regex Msg) f => srv.parameterStep self fun s => s.setParameter f) srv =
      some srv' ∧
        Subscribed self srv srv'
          (fields.foldl PathMatcher.putField (PathMatcher.empty : PathMatcher regex Msg)).entries := by
  have hRun := Lib.foldlM_goesOn
    (f := fun (srv : Server regex Msg) f => srv.parameterStep self fun s => s.setParameter f) (s := srv) (l := fields)
    (P := fun rest t => ∃ done, fields = done ++ rest ∧
      Subscribed self srv t (done.foldl PathMatcher.putField (PathMatcher.empty : PathMatcher regex Msg)).entries) ?_ ?_
  · obtain ⟨srv', hRun, done, hDone, hSubscribed⟩ := hRun
    rw [List.append_nil] at hDone
    exact ⟨srv', hRun, hDone ▸ hSubscribed⟩
  · rintro f rest t ⟨done, hDone, hSubscribed⟩
    have hIn : f ∈ fields := by
      rw [hDone]
      exact List.mem_append_right _ (List.mem_cons_self ..)
    have hNotYet : ∀ path, subscriptionPath f.name = some path →
        (done.foldl PathMatcher.putField (PathMatcher.empty : PathMatcher regex Msg)).get path = none := by
      intro path hPath
      refine PathMatcher.get_foldl_putField rfl fun hBefore => ?_
      unfold PathMatcher.newPaths at hOnce hBefore
      rw [hDone, List.filterMap_append, List.filterMap_cons, hPath] at hOnce
      exact (List.nodup_append.mp hOnce).2.2 path hBefore path (List.mem_cons_self ..) rfl
    obtain ⟨t', hStep, hNext⟩ := hSubscribed.setParameter hLiteral (hHarmless f hIn) fun s hs hSelf path hPath =>
      ⟨hNew s hs hSelf path (List.mem_filterMap.mpr ⟨f, hIn, hPath⟩), hNotYet path hPath⟩
    refine ⟨t', hStep, done ++ [f], by rw [hDone, List.append_assoc]; rfl, ?_⟩
    rw [List.foldl_append]
    exact hNext
  · refine ⟨[], rfl, hMirrored.marked, ⟨fun _ => Iff.rfl, fun _ => rfl⟩, rfl, rfl, fun s hs => ⟨s, hs, rfl, ?_⟩⟩
    split
    · exact .refl (hMirrored.good s hs).counted
    · rfl

/-- A session is shown what its table matched before and what the new entries match. -/
theorem shownData_append {m m' : PathMatcher regex Msg} {more : PathMatcher regex Msg}
    (h : m'.entries = m.entries ++ more.entries) (data : Option Msg) :
    Session.shownData m' q data =
      if data.isSome = true ∧ more.matchesNode q data 0 = true then some data else Session.shownData m q data := by
  cases data with
  | none => rfl
  | some data =>
    unfold Session.shownData
    dsimp only
    rw [PathMatcher.matchesNode_append h]
    show _ = if true = true ∧ _ then _ else _
    by_cases hMore : more.matchesNode q (some data) 0 = true
    · have hAny : (more.entries.any fun e => pathMatches q (some data) e 0) = true := hMore
      rw [hAny, Bool.or_true, if_pos rfl, if_pos ⟨rfl, hMore⟩]
    · have hAny : (more.entries.any fun e => pathMatches q (some data) e 0) = false := Bool.eq_false_iff.mpr hMore
      rw [hAny, Bool.or_false]
      exact (if_neg fun hBoth => hMore hBoth.2).symm

theorem mem_owners {h i : Str} :
    (h, i) ∈ srv.owners ↔ ∃ k ∈ srv.members.map Member.settings, k.1 = h ∧ k.2.1 = i := by
  unfold owners
  rw [List.mem_map]
  constructor
  · rintro ⟨m, hm, hSame⟩
    cases hSame
    exact ⟨m.settings, List.mem_map_of_mem hm, rfl, rfl⟩
  · rintro ⟨k, hk, rfl, rfl⟩
    obtain ⟨m, hm, rfl⟩ := List.mem_map.mp hk
    exact ⟨m, hm, rfl⟩

theorem not_inSubtreeOf (h : Others id q) : inSubtreeOf id q = false := by
  obtain ⟨i, hi, hOther⟩ := h
  unfold inSubtreeOf
  rw [hi]
  exact beq_eq_false_iff_ne.mpr fun hSame => hOther (Option.some.inj hSame)

/-- The answer of a `DoGetData` puts the nodes that are told into the table, with their data. -/
theorem view_answer {s : Session regex Msg} (hPending : s.nextSubscriptionMessage = none) (db : Database Msg)
    (maxItems : Nat) (told : List Path) (q : Path) :
    ({ s with sent := s.sent ++ getDataResults db maxItems ⟨[], []⟩ told } : Session regex Msg).view q =
      if q ∈ told then some (db.data q) else s.view q := by
  unfold Session.view
  dsimp only
  rw [hPending, Option.toList_none, List.append_nil, List.append_nil]
  unfold Table.applyAll
  rw [List.foldl_append]
  exact applyAll_getDataResults db maxItems told ⟨[], []⟩ rfl List.nodup_nil _ q

theorem mem_told (hLiteral : regex.Literal) {db : Database Msg} (hData : ∀ p ∈ db.paths, (db.data p).isSome = true)
    (matcher : PathMatcher regex Msg) (skipsOwn : Bool) (hq : Others self q) :
    q ∈ (matcher.doTraversal db (getDataDepth self skipsOwn) [] true).filter (fun p =>
      !(skipsOwn && inSubtreeOf self p)) ↔
        (db.data q).isSome = true ∧ matcher.matchesNode q (db.data q) 0 = true := by
  have hOut := not_inSubtreeOf hq
  rw [List.mem_filter, hOut, Bool.and_false, PathMatcher.mem_getData hLiteral skipsOwn hOut]
  simp only [Bool.not_false, and_true]
  exact and_congr_left fun _ => ⟨hData q, Database.data_isSome_mem⟩

/-- What a message of new subscriptions leaves of the sessions. -/
structure Accepted (id : Str) (paths : List Str) (srv srv' : Server regex Msg) : Prop where
  mirrored : srv'.Mirrored
  known : ∀ s' ∈ srv'.sessions, ∃ s ∈ srv.sessions, s'.id = s.id ∧ ∀ path, s'.subscriptions.get path ≠ none →
    s.subscriptions.get path ≠ none ∨ s.id = id ∧ path ∈ paths

theorem accepted_setParameters (hLiteral : regex.Literal) (hMirrored : srv.Mirrored)
    (hQuiet : ∀ s ∈ srv.sessions, s.nextSubscriptionMessage = none) {fields : List (Field Msg)}
    (hHarmless : ∀ f ∈ fields, Session.Harmless f) (hOnce : (PathMatcher.newPaths fields).Nodup)
    (hNew : ∀ s ∈ srv.sessions, s.id = self → ∀ path ∈ PathMatcher.newPaths fields, s.subscriptions.get path = none) :
    ∃ srv', srv.setParameters self fields = some srv' ∧ Accepted self (PathMatcher.newPaths fields) srv srv' := by
  obtain ⟨t, hFields, hSubscribed⟩ := subscribed_fields hLiteral hMirrored hHarmless hOnce hNew
  unfold setParameters
  rw [hFields]
  refine ⟨_, rfl, ?_⟩
  have hTold := PathMatcher.putPaths_getKeys fields none (PathMatcher.empty : PathMatcher regex Msg)
  generalize hMore : fields.foldl PathMatcher.putField (PathMatcher.empty : PathMatcher regex Msg) = more
    at hSubscribed hTold
  have hLoud : (fields.any fun f => f.name == PR_NAME_SUBSCRIBE_QUIETLY) = false :=
    List.any_eq_false.mpr fun f hf => by simpa using (hHarmless f hf).2
  rw [hLoud, Bool.false_or, hTold]
  show Accepted self _ srv (if (getKeys fields).isEmpty then t else t.doGetData self more)
  have hData : ∀ p ∈ t.db.paths, (t.db.data p).isSome = true := by
    intro p hp
    rw [hSubscribed.nodes.data]
    exact hMirrored.hasData p ((hSubscribed.nodes.paths p).mp hp)
  -- the answer tells the session what its new entries match
  have hAnswer : ∀ s' ∈ (if (getKeys fields).isEmpty then t else t.doGetData self more).sessions,
      ∃ u ∈ t.sessions, s'.settings = u.settings ∧ (u.id ≠ self → s' = u) ∧
        (u.id = self → u.nextSubscriptionMessage = none → s'.PendingNodup ∧ ∀ q, Others self q → s'.view q =
          if (t.db.data q).isSome = true ∧ more.matchesNode q (t.db.data q) 0 = true then some (t.db.data q)
          else u.view q) := by
    intro s' hs'
    split at hs'
    · rename_i hNone
      refine ⟨s', hs', rfl, fun _ => rfl, fun _ hPending => ⟨?_, fun q _ => ?_⟩⟩
      · unfold Session.PendingNodup
        rw [hPending]
        exact List.nodup_nil
      · rw [List.isEmpty_iff.mp hNone] at hTold
        rw [← hTold]
        exact (if_neg fun hBoth => Bool.false_ne_true hBoth.2).symm
    · obtain ⟨m', hm', rfl⟩ := mem_sessions.mp hs'
      obtain ⟨m, hm, rfl⟩ := List.mem_map.mp hm'
      refine ⟨m.session, mem_sessions.mpr ⟨m, hm, rfl⟩, ?_⟩
      by_cases hSelf : m.session.id = self
      · rw [if_pos hSelf]
        refine ⟨rfl, fun hOther => absurd hSelf hOther, fun _ hPending => ⟨?_, fun q hq => ?_⟩⟩
        · unfold Session.PendingNodup
          rw [show ({ m.session with sent := _ } : Session regex Msg).nextSubscriptionMessage =
            m.session.nextSubscriptionMessage from rfl, hPending]
          exact List.nodup_nil
        · refine (view_answer hPending ..).trans ?_
          simp only [mem_told hLiteral hData more _ hq]
      · rw [if_neg hSelf]
        exact ⟨rfl, fun _ => rfl, fun hSame => absurd hSame hSelf⟩
  have hSimilar : Similar t (if (getKeys fields).isEmpty then t else t.doGetData self more) := by
    split
    · exact .refl t
    · exact similar_doGetData more
  generalize (if (getKeys fields).isEmpty then t else t.doGetData self more) = srv' at hAnswer hSimilar
  have hEach : ∀ s' ∈ srv'.sessions, ∃ s ∈ srv.sessions, s'.id = s.id ∧ s'.Good ∧ s'.Mirrors srv'.db ∧
      (s'.subscriptions.entries = s.subscriptions.entries ∨
        s.id = self ∧ s'.subscriptions.entries = s.subscriptions.entries ++ more.entries) := by
    intro s' hs'
    obtain ⟨u, hu, hSettings, hOthers, hHere⟩ := hAnswer s' hs'
    obtain ⟨s, hs, hId, hSame⟩ := hSubscribed.sessions u hu
    have hGood := hMirrored.good s hs
    have hId' : s'.id = s.id := (Session.id_of_settings hSettings).trans hId
    have hTable := Session.subscriptions_of_settings hSettings
    refine ⟨s, hs, hId', ?_⟩
    by_cases hSelf : s.id = self
    · rw [if_pos hSelf] at hSame
      have hPending : u.nextSubscriptionMessage = none := hSame.next.trans (hQuiet s hs)
      obtain ⟨hNodup, hView⟩ := hHere (hId.trans hSelf) hPending
      refine ⟨⟨(Session.enabled_of_settings hSettings).trans (hSame.enabled.trans hGood.enabled), ?_, hNodup⟩,
        fun q hq => ?_, .inr ⟨hSelf, ?_⟩⟩
      · rw [hTable]
        exact hSame.counted
      · rw [hId'] at hq
        rw [hView q (hSelf ▸ hq), hTable, shownData_append hSame.entries, hSimilar.db, hSame.view,
          hMirrored.mirrors s hs q hq, hSubscribed.nodes.data]
      · rw [hTable]
        exact hSame.entries
    · rw [if_neg hSelf] at hSame
      obtain rfl := hOthers (hId ▸ hSelf)
      subst hSame
      refine ⟨hGood, fun q hq => ?_, .inl rfl⟩
      rw [hSimilar.db, hSubscribed.nodes.data]
      exact hMirrored.mirrors s' hs q hq
  refine ⟨⟨hSimilar.marked hSubscribed.marked, fun s' hs' => ?_, fun s' hs' => ?_, fun p hp => ?_, ?_⟩,
    fun s' hs' => ?_⟩
  · obtain ⟨s, hs, -, hGood, -⟩ := hEach s' hs'
    exact hGood
  · obtain ⟨s, hs, -, -, hMirrors, -⟩ := hEach s' hs'
    exact hMirrors
  · rw [hSimilar.db] at hp ⊢
    exact hData p hp
  · intro q hq h i hHost hi
    rw [hSimilar.db, hSubscribed.nodes.paths] at hq
    rw [hSimilar.members]
    refine mem_owners.mp ?_
    rw [hSubscribed.owners]
    exact mem_owners.mpr (hMirrored.owners q hq h i hHost hi)
  · obtain ⟨s, hs, hId, -, -, hEntries⟩ := hEach s' hs'
    refine ⟨s, hs, hId, fun path hPath => ?_⟩
    rw [ne_eq, PathMatcher.get_eq_none_iff] at hPath
    simp only [not_forall, not_not] at hPath
    obtain ⟨e, he, rfl⟩ := hPath
    have hOld : e ∈ s.subscriptions.entries → s.subscriptions.get e.path ≠ none := fun hIn hNone =>
      PathMatcher.get_eq_none_iff e.path |>.mp hNone e hIn rfl
    rcases hEntries with hEntries | ⟨hSelf, hEntries⟩
    · exact .inl (hOld (hEntries ▸ he))
    · rw [hEntries, List.mem_append] at he
      refine he.imp hOld fun hIn => ⟨hSelf, ?_⟩
      by_contra hNot
      have hNone := PathMatcher.get_foldl_putField (rfl : (PathMatcher.empty : PathMatcher regex Msg).get e.path = none)
        hNot
      rw [hMore] at hNone
      exact PathMatcher.get_eq_none_iff e.path |>.mp hNone e hIn rfl

end Server

end BeShare.Muscle.Reflect
