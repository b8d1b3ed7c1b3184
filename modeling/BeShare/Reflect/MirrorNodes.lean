import BeShare.Reflect.Mirror

/-!
Nodes are made, changed and removed, and the clients' tables follow.
-/

namespace BeShare.Muscle.Reflect

variable {regex : Regex} {Msg : Type}

namespace Database

variable {db : Database Msg} {p q : Path}

theorem data_isSome_mem (h : (db.data p).isSome = true) : p ∈ db.paths := by
  unfold data at h
  rw [mem_paths]
  cases hn : db.node? p with
  | some n => rfl
  | none =>
    rw [hn] at h
    cases h

theorem data_of_not_mem (h : p ∉ db.paths) : db.data p = none := by
  cases hData : db.data p with
  | none => rfl
  | some data => exact absurd (data_isSome_mem (hData ▸ rfl)) h

theorem data_putChild {node : Path} {name : Str} {child : DataNode Msg} (hParent : node ∈ db.paths)
    (hNew : node ++ [name] ∉ db.paths) (q : Path) :
    (db.putChild node name child).data q = if q = node ++ [name] then child.data else db.data q := by
  unfold data
  rw [node?_putChild _ hParent]
  split
  · rfl
  · split
    · rename_i hBelow
      rw [show db.node? q = none by
        simpa using mt mem_paths.mpr fun hIn => hNew (prefix_mem hBelow hIn)]
    · rfl

theorem modify_of_not_mem {f : DataNode Msg → DataNode Msg} (h : p ∉ db.paths) : db.modify p f = db := by
  have hNodes : (db.nodes.map fun entry => if entry.1 = p then (entry.1, f entry.2) else entry) = db.nodes := by
    refine (List.map_congr_left fun entry hEntry => ?_).trans (List.map_id _)
    exact if_neg fun hHere => h (List.mem_map.mpr ⟨entry, hEntry, hHere⟩)
  unfold modify
  obtain ⟨nodes, nodup, parent⟩ := db
  simp only at hNodes
  simp only [hNodes]

theorem mem_paths_putChild {node : Path} {name : Str} {child : DataNode Msg} (hParent : node ∈ db.paths)
    (hNew : node ++ [name] ∉ db.paths) (q : Path) :
    q ∈ (db.putChild node name child).paths ↔ q = node ++ [name] ∨ q ∈ db.paths := by
  rw [mem_paths, mem_paths, node?_putChild _ hParent]
  by_cases hHere : q = node ++ [name]
  · simp [hHere]
  · rw [if_neg hHere]
    split
    · rename_i hBelow
      simp only [Option.isSome_none, Bool.false_eq_true, hHere, false_or, false_iff]
      exact fun hIn => hNew (prefix_mem hBelow (mem_paths.mpr hIn))
    · simp only [hHere, false_or]

theorem data_modify {f : DataNode Msg → DataNode Msg} (p q : Path) :
    (db.modify p f).data q = if q = p then ((db.node? p).map f).bind DataNode.data else db.data q := by
  unfold data
  rw [node?_modify]
  split <;> rfl

theorem mem_paths_modify {f : DataNode Msg → DataNode Msg} (p q : Path) :
    q ∈ (db.modify p f).paths ↔ q ∈ db.paths := by
  rw [mem_paths, mem_paths, node?_modify]
  split
  · rename_i hHere
    rw [Option.isSome_map, hHere]
  · rfl

theorem data_dropNode (hLeaf : db.children p = []) (q : Path) :
    (db.dropNode p).data q = if q = p then none else db.data q := by
  unfold data
  rw [node?_dropNode hLeaf]
  split <;> rfl

theorem mem_paths_dropNode (hLeaf : db.children p = []) (q : Path) :
    q ∈ (db.dropNode p).paths ↔ q ∈ db.paths ∧ q ≠ p := by
  rw [mem_paths, mem_paths, node?_dropNode hLeaf]
  by_cases hHere : q = p
  · simp [hHere]
  · simp [hHere]

theorem le_maxLength (h : q ∈ db.paths) : q.length ≤ (db.paths.map List.length).foldr max 0 := by
  generalize db.paths = paths at h
  induction paths with
  | nil => cases h
  | cons p paths ih =>
    rw [List.map_cons, List.foldr_cons]
    rcases List.mem_cons.mp h with rfl | h
    · exact Nat.le_max_left ..
    · exact Nat.le_trans (ih h) (Nat.le_max_right ..)

end Database

namespace Server

variable {srv srv' : Server regex Msg} {self id : Str} {p q : Path}

/-- All clients' tables follow the nodes of the other sessions, and each node belongs to a session that is there. -/
structure Mirrored (srv : Server regex Msg) : Prop where
  marked : srv.Marked
  good : ∀ s ∈ srv.sessions, s.Good
  mirrors : ∀ s ∈ srv.sessions, s.Mirrors srv.db
  hasData : ∀ p ∈ srv.db.paths, (srv.db.data p).isSome = true
  owners : ∀ q ∈ srv.db.paths, ∀ h i, q[0]? = some h → q[1]? = some i →
    ∃ k ∈ srv.members.map Member.settings, k.1 = h ∧ k.2.1 = i

/-- The same sessions may count their nodes differently. -/
structure SameSessions (srv srv' : Server regex Msg) : Prop where
  db : srv'.db = srv.db
  sessions : srv'.sessions = srv.sessions
  settings : srv'.members.map Member.settings = srv.members.map Member.settings
  blankMessage : srv'.blankMessage = srv.blankMessage

theorem sameSessions_updateMember {f : Member regex Msg → Member regex Msg}
    (hHost : ∀ m, (f m).host = m.host) (hSession : ∀ m, (f m).session = m.session) :
    SameSessions srv (srv.updateMember self f) := by
  have hUpdated : ∀ m : Member regex Msg, (if m.session.id = self then f m else m).host = m.host ∧
      (if m.session.id = self then f m else m).session = m.session := by
    intro m
    split
    · exact ⟨hHost m, hSession m⟩
    · exact ⟨rfl, rfl⟩
  refine ⟨rfl, ?_, ?_, rfl⟩
  · unfold sessions updateMember
    dsimp only
    rw [List.map_map]
    exact List.map_congr_left fun m _ => (hUpdated m).2
  · unfold updateMember
    dsimp only
    rw [List.map_map]
    refine List.map_congr_left fun m _ => ?_
    show Member.settings (if m.session.id = self then f m else m) = m.settings
    unfold Member.settings
    rw [(hUpdated m).1, (hUpdated m).2]

theorem SameSessions.mirrored (h : SameSessions srv srv') (hMirrored : srv.Mirrored) : srv'.Mirrored where
  marked := Similar.marked ⟨h.db, h.settings, h.blankMessage⟩ hMirrored.marked
  good := by
    rw [h.sessions]
    exact hMirrored.good
  mirrors := by
    rw [h.sessions, h.db]
    exact hMirrored.mirrors
  hasData := by
    rw [h.db]
    exact hMirrored.hasData
  owners := by
    rw [h.db, h.settings]
    exact hMirrored.owners

theorem mirrored_push (hMirrored : srv.Mirrored) : srv.pushSubscriptionMessages.Mirrored := by
  have hSessions : ∀ s ∈ srv.pushSubscriptionMessages.sessions, ∃ t ∈ srv.sessions, s = t.push := by
    intro s hs
    obtain ⟨m', hm', rfl⟩ := mem_sessions.mp hs
    obtain ⟨m, hm, rfl⟩ := List.mem_map.mp hm'
    exact ⟨m.session, mem_sessions.mpr ⟨m, hm, rfl⟩, rfl⟩
  refine ⟨(similar_push srv).marked hMirrored.marked, fun s hs => ?_, fun s hs q hq => ?_, hMirrored.hasData, ?_⟩
  · obtain ⟨t, ht, rfl⟩ := hSessions s hs
    exact Session.good_push (hMirrored.good t ht)
  · obtain ⟨t, ht, rfl⟩ := hSessions s hs
    rw [Session.id_of_settings Session.settings_push] at hq
    rw [Session.view_push, Session.subscriptions_of_settings Session.settings_push]
    exact hMirrored.mirrors t ht q hq
  · rw [(similar_push srv).members]
    exact hMirrored.owners

/-! ### One node -/

/-- What an operation of a session on one of its own nodes leaves: the tables follow, and the sessions are the same. -/
structure Follows (srv srv' : Server regex Msg) : Prop where
  mirrored : srv'.Mirrored
  settings : srv'.members.map Member.settings = srv.members.map Member.settings
  blankMessage : srv'.blankMessage = srv.blankMessage

theorem Follows.refl (hMirrored : srv.Mirrored) : Follows srv srv :=
  ⟨hMirrored, rfl, rfl⟩

theorem Follows.trans {srv'' : Server regex Msg} (h : Follows srv srv') (h' : Follows srv' srv'') :
    Follows srv srv'' :=
  ⟨h'.mirrored, h'.settings.trans h.settings, h'.blankMessage.trans h.blankMessage⟩

theorem follows_updateMember (hMirrored : srv.Mirrored) {f : Member regex Msg → Member regex Msg}
    (hHost : ∀ m, (f m).host = m.host) (hSession : ∀ m, (f m).session = m.session) :
    Follows srv (srv.updateMember self f) :=
  have hSame := sameSessions_updateMember hHost hSession
  ⟨hSame.mirrored hMirrored, hSame.settings, hSame.blankMessage⟩

/-- The session of the ID is there, at the host that the path names. -/
def OwnerThere (srv : Server regex Msg) (p : Path) : Prop :=
  ∀ h i, p[0]? = some h → p[1]? = some i → ∃ k ∈ srv.members.map Member.settings, k.1 = h ∧ k.2.1 = i

theorem putChild_of_no_parent {name : Str} {data : Msg} {notify : Bool} (hParent : p ∉ srv.db.paths) :
    srv.putChild self p name data notify = some srv := by
  have hSame : srv.db.putChild p name (srv.newNode (p ++ [name]) data) = srv.db := by
    unfold Database.putChild
    rw [dif_neg hParent]
  have hNone : srv.db.node? (p ++ [name]) = none := by
    simpa using mt Database.mem_paths.mpr fun hIn => hParent (srv.db.parent p name hIn)
  unfold putChild notifySubscribersThatNodeChanged
  rw [hSame]
  dsimp only
  rw [hNone]
  split <;> rfl

theorem data_newNode (srv : Server regex Msg) (p : Path) (data : Msg) : (srv.newNode p data).data = some data := by
  unfold newNode
  generalize srv.members = members
  generalize hn : (⟨some data, []⟩ : DataNode Msg) = n
  have hData : n.data = some data := by rw [← hn]
  clear hn
  induction members generalizing n with
  | nil => exact hData
  | cons m members ih => exact ih _ ((DataNode.data_increment ..).trans hData)

theorem follows_putChild (hMirrored : srv.Mirrored) {name : Str} {data : Msg}
    (hOwned : OwnedBy self (p ++ [name])) (hOwner : srv.OwnerThere (p ++ [name])) (hNew : p ++ [name] ∉ srv.db.paths)
    (h : srv.putChild self p name data true = some srv') :
    Follows srv srv' ∧ ∀ q, q ∈ srv'.db.paths → q = p ++ [name] ∨ q ∈ srv.db.paths := by
  by_cases hParent : p ∈ srv.db.paths
  · have hMarked := marked_putChild hMirrored.marked h
    have hMade := marked_putChild hMirrored.marked (show srv.putChild self p name data false = some _ from rfl)
    unfold putChild at h
    dsimp only at h
    rw [if_pos rfl] at h
    have hSimilar := similar_notify hMade.ids h
    have hDb : srv'.db = srv.db.putChild p name (srv.newNode (p ++ [name]) data) := hSimilar.db
    have hData : (srv.db.putChild p name (srv.newNode (p ++ [name]) data)).data (p ++ [name]) = some data := by
      rw [Database.data_putChild hParent hNew, if_pos rfl, data_newNode]
    have hSessions := mirrors_notify_put hMade hMirrored.good hOwned hMirrored.mirrors hData
      ((Database.mem_paths_putChild hParent hNew _).mpr (.inl rfl))
      (fun q hq => (Database.data_putChild hParent hNew q).trans (if_neg hq)) h
    refine ⟨⟨⟨hMarked, fun s hs => (hSessions s hs).1, fun s hs => (hSessions s hs).2, fun q hq => ?_, ?_⟩,
      hSimilar.members, hSimilar.blankMessage⟩, fun q hq => ?_⟩
    · rw [hDb] at hq ⊢
      rw [Database.data_putChild hParent hNew]
      split
      · rw [data_newNode]
        rfl
      · rename_i hOther
        exact hMirrored.hasData q (((Database.mem_paths_putChild hParent hNew q).mp hq).resolve_left hOther)
    · rw [hSimilar.members]
      intro q hq
      rw [hDb] at hq
      rcases (Database.mem_paths_putChild hParent hNew q).mp hq with rfl | hq
      · exact hOwner
      · exact hMirrored.owners q hq
    · rw [hDb] at hq
      exact (Database.mem_paths_putChild hParent hNew q).mp hq
  · rw [putChild_of_no_parent hParent] at h
    cases h
    exact ⟨.refl hMirrored, fun _ hq => .inr hq⟩

/-- Other data for a node that is there. -/
theorem follows_setData (hMirrored : srv.Mirrored) {data : Msg} (hOwned : OwnedBy self p) (hIn : p ∈ srv.db.paths)
    (h : srv.setData self p data true false = some srv') : Follows srv srv' := by
  have hMarked := marked_setData hMirrored.marked h
  have hMade := marked_setData hMirrored.marked (show srv.setData self p data false false = some _ from rfl)
  obtain ⟨n, hn⟩ := Option.isSome_iff_exists.mp (Database.mem_paths.mp hIn)
  unfold setData at h
  dsimp only at h
  rw [if_pos rfl, if_neg Bool.false_ne_true] at h
  have hSimilar := similar_notify hMade.ids h
  have hDb : srv'.db = srv.db.modify p fun n => { n with data := some data } := hSimilar.db
  have hHere : (srv.db.modify p fun n => { n with data := some data }).data p = some data := by
    rw [Database.data_modify, if_pos rfl, hn]
    rfl
  have hSessions := mirrors_notify_put hMade hMirrored.good hOwned hMirrored.mirrors hHere
    ((Database.mem_paths_modify p p).mpr hIn) (fun q hq => (Database.data_modify p q).trans (if_neg hq)) h
  refine ⟨⟨hMarked, fun s hs => (hSessions s hs).1, fun s hs => (hSessions s hs).2, fun q hq => ?_, ?_⟩,
    hSimilar.members, hSimilar.blankMessage⟩
  · rw [hDb] at hq ⊢
    by_cases hSame : q = p
    · rw [hSame, hHere]
      rfl
    · rw [Database.data_modify, if_neg hSame]
      exact hMirrored.hasData q ((Database.mem_paths_modify p q).mp hq)
  · rw [hSimilar.members]
    intro q hq
    rw [hDb] at hq
    exact hMirrored.owners q ((Database.mem_paths_modify p q).mp hq)

/-- A new node is made without a notice, and told of with its data. -/
theorem follows_putChild_setData (hMirrored : srv.Mirrored) {name : Str} {data : Msg} (count : Nat → Nat)
    (hOwned : OwnedBy self (p ++ [name])) (hOwner : srv.OwnerThere (p ++ [name])) (hNew : p ++ [name] ∉ srv.db.paths)
    {srv₁ : Server regex Msg} (hPut : srv.putChild self p name data false = some srv₁)
    (h : (srv₁.countNodes self count).setData self (p ++ [name]) data true true = some srv') : Follows srv srv' := by
  have hMade := marked_putChild hMirrored.marked hPut
  have hCounted : (srv₁.countNodes self count).Marked := (similar_countNodes count).marked hMade
  have hMarked := marked_setData hCounted h
  have hSet := marked_setData hCounted
    (show (srv₁.countNodes self count).setData self (p ++ [name]) data false true = some _ from rfl)
  have hSame : SameSessions srv₁ (srv₁.countNodes self count) :=
    sameSessions_updateMember (fun _ => rfl) fun _ => rfl
  unfold setData at h
  dsimp only at h
  rw [if_pos rfl, if_pos rfl] at h
  have hSimilar := similar_notify hSet.ids h
  by_cases hParent : p ∈ srv.db.paths
  · cases hPut
    have hNode := @Database.mem_paths_putChild _ _ _ _ (srv.newNode (p ++ [name]) data) hParent hNew
    have hDb : srv'.db = (srv.db.putChild p name (srv.newNode (p ++ [name]) data)).modify (p ++ [name])
        fun n => { n with data := some data } := hSimilar.db
    have hData : ∀ q, srv'.db.data q = if q = p ++ [name] then some data else srv.db.data q := by
      intro q
      rw [hDb, Database.data_modify]
      split
      · rw [Database.node?_putChild _ hParent, if_pos rfl]
        rfl
      · rename_i hOther
        rw [Database.data_putChild hParent hNew, if_neg hOther]
    have hNoData : srv.db.data (p ++ [name]) = none := Database.data_of_not_mem hNew
    rw [← hNoData] at h
    have hSessions := mirrors_notify_put hSet (fun s hs => hMirrored.good s (hSame.sessions ▸ hs)) hOwned
      (fun s hs => hMirrored.mirrors s (hSame.sessions ▸ hs))
      ((congrArg (fun db => db.data (p ++ [name])) hDb).symm.trans ((hData _).trans (if_pos rfl)))
      ((Database.mem_paths_modify _ _).mpr ((hNode _).mpr (.inl rfl)))
      (fun q hq => (congrArg (fun db => db.data q) hDb).symm.trans ((hData q).trans (if_neg hq))) h
    refine ⟨⟨hMarked, fun s hs => (hSessions s hs).1, fun s hs => (hSessions s hs).2, fun q hq => ?_, ?_⟩,
      hSimilar.members.trans hSame.settings, hSimilar.blankMessage.trans hSame.blankMessage⟩
    · rw [hData]
      split
      · rfl
      · rename_i hOther
        rw [hDb] at hq
        exact hMirrored.hasData q (((hNode q).mp ((Database.mem_paths_modify _ q).mp hq)).resolve_left hOther)
    · rw [hSimilar.members]
      intro q hq
      rw [hDb] at hq
      show ∀ h i, _ → _ → ∃ k ∈ (Server.countNodes _ self count).members.map Member.settings, _
      rw [hSame.settings]
      rcases (hNode q).mp ((Database.mem_paths_modify _ q).mp hq) with rfl | hq
      · exact hOwner
      · exact hMirrored.owners q hq
  · rw [putChild_of_no_parent hParent] at hPut
    cases hPut
    have hStays : (srv.db.modify (p ++ [name]) fun n => { n with data := some data }) = srv.db :=
      Database.modify_of_not_mem hNew
    have hNone : srv.db.node? (p ++ [name]) = none := by
      simpa using mt Database.mem_paths.mpr hNew
    unfold notifySubscribersThatNodeChanged at h
    rw [show (srv.countNodes self count).db = srv.db from rfl, hStays] at h
    dsimp only at h
    rw [hNone] at h
    cases h
    exact follows_updateMember hMirrored (fun _ => rfl) fun _ => rfl

/-! ### Removal -/

theorem follows_removeNode (hMirrored : srv.Mirrored) (hOwned : OwnedBy self p) (hIn : p ∈ srv.db.paths)
    (hLeaf : srv.db.children p = []) (h : removeNode self true srv p = some srv') :
    Follows srv srv' ∧ ∀ q, q ∈ srv'.db.paths ↔ q ∈ srv.db.paths ∧ q ≠ p := by
  have hMarked := marked_removeNode hMirrored.marked h
  unfold removeNode at h
  rw [if_pos rfl] at h
  obtain ⟨t, hNotify, rfl⟩ := Option.map_eq_some_iff.mp h
  have hSimilar := similar_notify hMirrored.marked.ids hNotify
  have hLeaf' : t.db.children p = [] := by rw [hSimilar.db, hLeaf]
  have hSessions : ∀ s ∈ t.sessions, s.Good ∧ s.Mirrors (t.db.dropNode p) := by
    refine mirrors_notify hMirrored.marked hMirrored.good hOwned (t.db.dropNode p) hMirrored.mirrors hIn ?_ ?_ ?_ ?_
      hNotify
    · exact fun _ => hMirrored.hasData p hIn
    · intro hNot
      cases hNot
    · intro q hq
      rw [Database.data_dropNode hLeaf', if_neg hq, hSimilar.db]
    · rw [Database.data_dropNode hLeaf', if_pos rfl, if_pos rfl]
  have hPaths : ∀ q, q ∈ (t.db.dropNode p).paths ↔ q ∈ srv.db.paths ∧ q ≠ p := by
    intro q
    rw [Database.mem_paths_dropNode hLeaf', hSimilar.db]
  refine ⟨⟨⟨hMarked, fun s hs => (hSessions s hs).1, fun s hs => (hSessions s hs).2, fun q hq => ?_, ?_⟩,
    hSimilar.members, hSimilar.blankMessage⟩, hPaths⟩
  · obtain ⟨hOld, hOther⟩ := (hPaths q).mp hq
    show ((t.db.dropNode p).data q).isSome = true
    rw [Database.data_dropNode hLeaf', if_neg hOther, hSimilar.db]
    exact hMirrored.hasData q hOld
  · intro q hq
    show ∀ h i, _ → _ → ∃ k ∈ t.members.map Member.settings, _
    rw [hSimilar.members]
    exact hMirrored.owners q ((hPaths q).mp hq).1

/-- All nodes of a subtree go, children first. The induction is on the levels that the subtree can have. -/
theorem follows_removalOrder (db : Database Msg) (levels : Nat) (p : Path) (hMirrored : srv.Mirrored)
    (hSame : ∀ q, p <+: q → (q ∈ srv.db.paths ↔ q ∈ db.paths)) (hIn : p ∈ db.paths)
    (hDeep : ∀ q ∈ db.paths, p <+: q → q.length ≤ p.length + levels)
    (hOwned : ∀ q ∈ db.paths, p <+: q → OwnedBy self q)
    (h : (removalOrder db levels p).foldlM (removeNode self true) srv = some srv') :
    Follows srv srv' ∧ ∀ q, q ∈ srv'.db.paths ↔ q ∈ srv.db.paths ∧ ¬p <+: q := by
  induction levels generalizing p srv srv' with
  | zero =>
    have hLeaf : srv.db.children p = [] := by
      refine List.eq_nil_iff_forall_not_mem.mpr fun name hName => ?_
      have hChild := (hSame _ (List.prefix_append p [name])).mp (Database.mem_children.mp hName)
      have hLength := hDeep _ hChild (List.prefix_append ..)
      rw [List.length_append, List.length_singleton] at hLength
      omega
    obtain ⟨t, hRemove, hEnd⟩ := Lib.foldlM_cons_eq_some.mp h
    cases hEnd
    obtain ⟨hFollows, hPaths⟩ := follows_removeNode hMirrored (hOwned p hIn (List.prefix_refl p))
      ((hSame p (List.prefix_refl p)).mpr hIn) hLeaf hRemove
    refine ⟨hFollows, fun q =>
      (hPaths q).trans (and_congr_right fun hq => not_congr ⟨fun hHere => ?_, fun hBelow => ?_⟩)⟩
    · exact hHere ▸ List.prefix_refl p
    · have hLength := hDeep q ((hSame q hBelow).mp hq) hBelow
      exact (hBelow.eq_of_length (Nat.le_antisymm hBelow.length_le hLength)).symm
  | succ levels ih =>
    unfold removalOrder at h
    rw [List.foldlM_append] at h
    obtain ⟨t, hChildren, hLast⟩ := Option.bind_eq_some_iff.mp h
    obtain ⟨u, hRemove, hEnd⟩ := Lib.foldlM_cons_eq_some.mp hLast
    cases hEnd
    rw [Lib.foldlM_flatMap] at hChildren
    have hRun := Lib.foldlM_rest (P := fun rest t => Follows srv t ∧ ∃ gone, db.children p = gone ++ rest ∧
      ∀ q, q ∈ t.db.paths ↔ q ∈ srv.db.paths ∧ ∀ name ∈ gone, ¬p ++ [name] <+: q) hChildren ?_ ?_
    · obtain ⟨hFollows, gone, hGone, hPaths⟩ := hRun
      rw [List.append_nil] at hGone
      have hBelow : ∀ q, q ∈ srv.db.paths → p <+: q → q ≠ p → ∃ name ∈ gone, p ++ [name] <+: q := by
        intro q hq hPrefix hOther
        obtain ⟨rest, rfl⟩ := hPrefix
        cases rest with
        | nil => exact absurd (List.append_nil p) hOther
        | cons name rest =>
          have hChild : p ++ [name] <+: p ++ name :: rest := ⟨rest, by rw [List.append_assoc]; rfl⟩
          refine ⟨name, ?_, hChild⟩
          rw [← hGone]
          exact Database.mem_children.mpr (Database.prefix_mem hChild ((hSame _ (List.prefix_append ..)).mp hq))
      have hHere : p ∈ t.db.paths := by
        refine (hPaths p).mpr ⟨(hSame p (List.prefix_refl p)).mpr hIn, fun name _ hLonger => ?_⟩
        have hLength := hLonger.length_le
        rw [List.length_append, List.length_singleton] at hLength
        omega
      have hLeaf : t.db.children p = [] := by
        refine List.eq_nil_iff_forall_not_mem.mpr fun name hName => ?_
        obtain ⟨hChild, hNot⟩ := (hPaths _).mp (Database.mem_children.mp hName)
        obtain ⟨name', hName', hPrefix⟩ := hBelow _ hChild (List.prefix_append ..) (by simp)
        exact hNot name' hName' hPrefix
      obtain ⟨hRemoved, hLeft⟩ := follows_removeNode hFollows.mirrored (hOwned p hIn (List.prefix_refl p)) hHere hLeaf
        hRemove
      refine ⟨hFollows.trans hRemoved, fun q => ?_⟩
      rw [hLeft, hPaths]
      constructor
      · rintro ⟨⟨hq, hNot⟩, hOther⟩
        refine ⟨hq, fun hPrefix => ?_⟩
        obtain ⟨name, hName, hChild⟩ := hBelow q hq hPrefix hOther
        exact hNot name hName hChild
      · rintro ⟨hq, hNot⟩
        refine ⟨⟨hq, fun name _ hChild => hNot ((List.prefix_append p [name]).trans hChild)⟩, ?_⟩
        rintro rfl
        exact hNot (List.prefix_refl _)
    · rintro name rest t t' ⟨hFollows, gone, hGone, hPaths⟩ hStep
      have hName : name ∈ db.children p := by
        rw [hGone]
        exact List.mem_append_right _ (List.mem_cons_self ..)
      have hNodup := @Database.children_nodup Msg db p
      rw [hGone] at hNodup
      have hOthers : ∀ name' ∈ gone, name' ≠ name := fun name' hGone' =>
        (List.nodup_append.mp hNodup).2.2 name' hGone' name (List.mem_cons_self ..)
      have hChildSame : ∀ q, p ++ [name] <+: q → (q ∈ t.db.paths ↔ q ∈ db.paths) := by
        intro q hPrefix
        rw [hPaths, hSame q ((List.prefix_append p [name]).trans hPrefix)]
        refine and_iff_left fun name' hGone' hPrefix' => hOthers name' hGone' ?_
        have hEqual := (List.prefix_of_prefix_length_le hPrefix' hPrefix (by simp)).eq_of_length (by simp)
        exact List.singleton_inj.mp (List.append_cancel_left hEqual)
      obtain ⟨hMore, hLeft⟩ := ih (p ++ [name]) hFollows.mirrored hChildSame (Database.mem_children.mp hName)
        (fun q hq hPrefix => by
          have hLength := hDeep q hq ((List.prefix_append p [name]).trans hPrefix)
          rw [List.length_append, List.length_singleton]
          omega)
        (fun q hq hPrefix => hOwned q hq ((List.prefix_append p [name]).trans hPrefix)) hStep
      refine ⟨hFollows.trans hMore, gone ++ [name], by rw [hGone, List.append_assoc]; rfl, fun q => ?_⟩
      rw [hLeft, hPaths]
      simp only [List.mem_append, List.mem_singleton, or_imp, forall_and, forall_eq, and_assoc]
    · exact ⟨.refl hMirrored, [], rfl, fun q => by simp⟩

/-- A subtree of the session's own is removed. -/
theorem follows_removeChild (hMirrored : srv.Mirrored) (hOwned : ∀ q ∈ srv.db.paths, p <+: q → OwnedBy self q)
    (h : srv.removeChild self p true = some srv') :
    Follows srv srv' ∧ ∀ q, q ∈ srv'.db.paths ↔ q ∈ srv.db.paths ∧ ¬p <+: q := by
  unfold removeChild at h
  split at h
  · rename_i hIn
    refine follows_removalOrder srv.db _ p hMirrored (fun _ _ => Iff.rfl) hIn (fun q hq _ => ?_) hOwned h
    have hLength := Database.le_maxLength hq
    omega
  · rename_i hOut
    cases h
    refine ⟨.refl hMirrored, fun q => (and_iff_left_of_imp fun hq hPrefix => ?_).symm⟩
    exact hOut (Database.prefix_mem hPrefix hq)

end Server

end BeShare.Muscle.Reflect
