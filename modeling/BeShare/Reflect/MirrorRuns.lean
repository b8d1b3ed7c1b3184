import BeShare.Reflect.MirrorSubscribe
import BeShare.Reflect.Progress

/-!
The clients' tables over whole runs: messages of clients, and sessions that attach and detach.
-/

namespace BeShare.Muscle.Reflect

variable {regex : Regex} {Msg : Type}

namespace ClientMessage

mutual

/-- The message changes nodes, and not quietly, or asks for more subscriptions. -/
def Plain : ClientMessage Msg → Prop
  | .setData _ quiet => quiet = false
  | .removeData _ quiet => quiet = false
  | .insertOrderedData _ => True
  | .setParameters fields => ∀ f ∈ fields, Session.Harmless f
  | .removeParameters _ => False
  | .getData _ => False
  | .batch messages => AllPlain messages

def AllPlain : List (ClientMessage Msg) → Prop
  | [] => True
  | message :: rest => message.Plain ∧ AllPlain rest

end

mutual

/-- The paths that the message subscribes to. -/
def newPaths : ClientMessage Msg → List Str
  | .setParameters fields => PathMatcher.newPaths fields
  | .batch messages => allNewPaths messages
  | _ => []

def allNewPaths : List (ClientMessage Msg) → List Str
  | [] => []
  | message :: rest => message.newPaths ++ allNewPaths rest

end

end ClientMessage

namespace Server

variable {srv srv' t u : Server regex Msg} {self id : Str} {p q : Path} {paths paths' : List Str}

/-- Nothing waits to be sent. -/
def Pushed (srv : Server regex Msg) : Prop :=
  ∀ s ∈ srv.sessions, s.nextSubscriptionMessage = none

theorem pushed_push (srv : Server regex Msg) : srv.pushSubscriptionMessages.Pushed := by
  intro s hs
  obtain ⟨m', hm', rfl⟩ := mem_sessions.mp hs
  obtain ⟨m, -, rfl⟩ := List.mem_map.mp hm'
  exact Session.next_push m.session

theorem sessions_of_settings (h : srv'.members.map Member.settings = srv.members.map Member.settings)
    {s' : Session regex Msg} (hs' : s' ∈ srv'.sessions) :
    ∃ s ∈ srv.sessions, s'.id = s.id ∧ s'.subscriptions = s.subscriptions := by
  obtain ⟨m', hm', rfl⟩ := mem_sessions.mp hs'
  have hIn : m'.settings ∈ srv.members.map Member.settings := h ▸ List.mem_map_of_mem hm'
  obtain ⟨m, hm, hSame⟩ := List.mem_map.mp hIn
  have hSettings : m'.session.settings = m.session.settings := (congrArg Prod.snd hSame).symm
  exact ⟨m.session, mem_sessions.mpr ⟨m, hm, rfl⟩, Session.id_of_settings hSettings,
    Session.subscriptions_of_settings hSettings⟩

theorem Follows.accepted (h : Follows srv srv') : Accepted self [] srv srv' where
  mirrored := h.mirrored
  known s' hs' := by
    obtain ⟨s, hs, hId, hTable⟩ := sessions_of_settings h.settings hs'
    refine ⟨s, hs, hId, fun path hPath => .inl ?_⟩
    rw [← hTable]
    exact hPath

theorem Accepted.refl (hMirrored : srv.Mirrored) : Accepted self [] srv srv :=
  (Follows.refl hMirrored).accepted

theorem Accepted.trans (h : Accepted self paths srv t) (h' : Accepted self paths' t u) :
    Accepted self (paths ++ paths') srv u where
  mirrored := h'.mirrored
  known s'' hs'' := by
    obtain ⟨s', hs', hId', hPaths'⟩ := h'.known s'' hs''
    obtain ⟨s, hs, hId, hPaths⟩ := h.known s' hs'
    refine ⟨s, hs, hId'.trans hId, fun path hPath => ?_⟩
    rcases hPaths' path hPath with hBefore | ⟨hSelf, hIn⟩
    · exact (hPaths path hBefore).imp id fun hFirst => ⟨hFirst.1, List.mem_append_left _ hFirst.2⟩
    · exact .inr ⟨hId ▸ hSelf, List.mem_append_right _ hIn⟩

theorem follows_push (hMirrored : srv.Mirrored) : Follows srv srv.pushSubscriptionMessages :=
  ⟨mirrored_push hMirrored, (similar_push srv).members, rfl⟩

theorem Pushed.fits (h : srv.Pushed) : srv.Fits :=
  fun s hs => Session.fits_of_none (h s hs)

mutual

theorem accepted_messageReceived (hLiteral : regex.Literal) (message : ClientMessage Msg) {srv : Server regex Msg}
    (hMirrored : srv.Mirrored) (hPushed : srv.Pushed) (hPlain : message.Plain) (hOnce : message.newPaths.Nodup)
    (hNew : ∀ s ∈ srv.sessions, s.id = self → ∀ path ∈ message.newPaths, s.subscriptions.get path = none) :
    ∃ srv', messageReceivedFromGateway self message srv = some srv' ∧ Accepted self message.newPaths srv srv' := by
  cases message with
  | setData fields quiet =>
    unfold ClientMessage.Plain at hPlain
    subst hPlain
    obtain ⟨srv', h, -⟩ := setDataFields_goesOn hPushed.fits self fields false
    refine ⟨srv', ?_, (follows_setDataFields hMirrored h).accepted⟩
    unfold messageReceivedFromGateway
    exact h
  | removeData keys quiet =>
    unfold ClientMessage.Plain at hPlain
    subst hPlain
    obtain ⟨srv', h, -⟩ := doRemoveData_goesOn hPushed.fits self (.putPaths none none keys .empty) false
    refine ⟨srv', ?_, (follows_doRemoveData hMirrored h).accepted⟩
    unfold messageReceivedFromGateway
    exact h
  | insertOrderedData insertions =>
    obtain ⟨srv', h, -⟩ := insertOrderedData_goesOn hPushed.fits self insertions
    refine ⟨srv', ?_, (follows_insertOrderedData hMirrored h).accepted⟩
    unfold messageReceivedFromGateway
    exact h
  | setParameters fields =>
    unfold ClientMessage.Plain at hPlain
    unfold ClientMessage.newPaths at hOnce hNew ⊢
    unfold messageReceivedFromGateway
    exact accepted_setParameters hLiteral hMirrored hPushed hPlain hOnce hNew
  | removeParameters keys => exact hPlain.elim
  | getData keys => exact hPlain.elim
  | batch messages =>
    unfold ClientMessage.Plain at hPlain
    unfold ClientMessage.newPaths at hOnce hNew ⊢
    unfold messageReceivedFromGateway
    obtain ⟨srv', h, hAccepted, -⟩ :=
      accepted_callMessagesReceived hLiteral messages hMirrored hPushed hPlain hOnce hNew
    exact ⟨srv', h, hAccepted⟩

theorem accepted_callMessagesReceived (hLiteral : regex.Literal) (messages : List (ClientMessage Msg))
    {srv : Server regex Msg} (hMirrored : srv.Mirrored) (hPushed : srv.Pushed)
    (hPlain : ClientMessage.AllPlain messages) (hOnce : (ClientMessage.allNewPaths messages).Nodup)
    (hNew : ∀ s ∈ srv.sessions, s.id = self → ∀ path ∈ ClientMessage.allNewPaths messages,
      s.subscriptions.get path = none) :
    ∃ srv', callMessagesReceived self messages srv = some srv' ∧
      Accepted self (ClientMessage.allNewPaths messages) srv srv' ∧ srv'.Pushed := by
  cases messages with
  | nil => exact ⟨srv, rfl, .refl hMirrored, hPushed⟩
  | cons message rest =>
    unfold ClientMessage.AllPlain at hPlain
    unfold ClientMessage.allNewPaths at hOnce hNew ⊢
    obtain ⟨hOnceFirst, hOnceRest, hApart⟩ := List.nodup_append.mp hOnce
    obtain ⟨t, ht, hFirst⟩ := accepted_messageReceived hLiteral message hMirrored hPushed hPlain.1 hOnceFirst
      fun s hs hSelf path hPath => hNew s hs hSelf path (List.mem_append_left _ hPath)
    have hSent : Accepted self message.newPaths srv t.pushSubscriptionMessages := by
      have hBoth := hFirst.trans (follows_push hFirst.mirrored).accepted
      rwa [List.append_nil] at hBoth
    obtain ⟨srv', h, hRest, hEnd⟩ := accepted_callMessagesReceived hLiteral rest hSent.mirrored (pushed_push t) hPlain.2
      hOnceRest fun s' hs' hSelf path hPath => by
        by_contra hOld
        obtain ⟨s, hs, hId, hPaths⟩ := hSent.known s' hs'
        rcases hPaths path hOld with hBefore | ⟨-, hIn⟩
        · exact hBefore (hNew s hs (hId ▸ hSelf) path (List.mem_append_right _ hPath))
        · exact hApart path hIn path hPath rfl
    refine ⟨srv', ?_, hSent.trans hRest, hEnd⟩
    unfold callMessagesReceived
    rw [ht]
    exact h

end

/-! ### Attaching and detaching -/

/-- What attaching or detaching leaves of the sessions: the tables follow, and only a new session without
subscriptions is there that was not. -/
structure Moved (srv srv' : Server regex Msg) : Prop where
  mirrored : srv'.Mirrored
  pushed : srv'.Pushed
  known : ∀ s' ∈ srv'.sessions, s'.subscriptions = .empty ∨
    ∃ s ∈ srv.sessions, s'.id = s.id ∧ s'.subscriptions = s.subscriptions

theorem Moved.refl (hMirrored : srv.Mirrored) (hPushed : srv.Pushed) : Moved srv srv :=
  ⟨hMirrored, hPushed, fun s hs => .inr ⟨s, hs, rfl, rfl⟩⟩

theorem eq_of_second {i : Str} (h : q[1]? = some i) : ∃ host rest, q = host :: i :: rest := by
  rcases q with _ | ⟨host, _ | ⟨j, rest⟩⟩
  · cases h
  · cases h
  · exact ⟨host, rest, by rw [← Option.some.inj h]⟩

theorem not_mem_of_member?_eq_none (hMirrored : srv.Mirrored) (h : srv.member? id = none) (hId : q[1]? = some id) :
    q ∉ srv.db.paths := by
  intro hq
  obtain ⟨host, rest, rfl⟩ := eq_of_second hId
  obtain ⟨k, hk, -, hSame⟩ := hMirrored.owners _ hq host id rfl rfl
  obtain ⟨m, hm, rfl⟩ := List.mem_map.mp hk
  have hFound := member?_of_mem hMirrored.marked.ids hm
  rw [show m.session.id = id from hSame, h] at hFound
  cases hFound

theorem mirrored_join (hMirrored : srv.Mirrored) (host : Str) (maxNodeCount : Nat) (hNew : srv.member? id = none) :
    ({ srv with members := srv.members ++ [Member.new regex Msg host id maxNodeCount] } :
      Server regex Msg).Mirrored := by
  have hSessions : ∀ s ∈ ({ srv with members := srv.members ++ [Member.new regex Msg host id maxNodeCount] } :
      Server regex Msg).sessions, s ∈ srv.sessions ∨ s = (Member.new regex Msg host id maxNodeCount).session := by
    intro s hs
    obtain ⟨m, hm, rfl⟩ := mem_sessions.mp hs
    refine (List.mem_append.mp hm).imp (fun hOld => mem_sessions.mpr ⟨m, hOld, rfl⟩) fun hLast => ?_
    rw [List.mem_singleton.mp hLast]
  refine ⟨marked_join hMirrored.marked host maxNodeCount hNew, fun s hs => ?_, fun s hs => ?_, hMirrored.hasData, ?_⟩
  · rcases hSessions s hs with hOld | rfl
    · exact hMirrored.good s hOld
    · exact ⟨rfl, PathMatcher.filtersCounted_empty, List.nodup_nil⟩
  · rcases hSessions s hs with hOld | rfl
    · exact hMirrored.mirrors s hOld
    · intro q _
      show none = Session.shownData (PathMatcher.empty : PathMatcher regex Msg) q (srv.db.data q)
      cases srv.db.data q <;> rfl
  · intro q hq h i hHost hi
    obtain ⟨k, hk, hOwner⟩ := hMirrored.owners q hq h i hHost hi
    refine ⟨k, ?_, hOwner⟩
    rw [List.map_append]
    exact List.mem_append_left _ hk

theorem moved_attach (hMirrored : srv.Mirrored) (hPushed : srv.Pushed) {host : Str} {maxNodeCount : Nat}
    (h : srv.attach host id maxNodeCount = some srv') : Moved srv srv' := by
  unfold attach at h
  split at h
  · cases h
    exact .refl hMirrored hPushed
  · rename_i hThere
    have hNew : srv.member? id = none := by simpa using hThere
    obtain ⟨t, hHost, hSession⟩ := Option.bind_eq_some_iff.mp h
    obtain ⟨u, hPut, rfl⟩ := Option.map_eq_some_iff.mp hSession
    have hJoined := mirrored_join hMirrored host maxNodeCount hNew
    have hNoNode : ∀ q, q[1]? = some id → q ∉ srv.db.paths := fun q hq => not_mem_of_member?_eq_none hMirrored hNew hq
    generalize hJoin : ({ srv with members := srv.members ++ [Member.new regex Msg host id maxNodeCount] } :
      Server regex Msg) = joined at hHost hJoined
    have hDb : joined.db = srv.db := by rw [← hJoin]
    have hFirst : Follows joined t ∧ [host, id] ∉ t.db.paths := by
      split at hHost
      · cases hHost
        exact ⟨.refl hJoined, hDb ▸ hNoNode [host, id] rfl⟩
      · rename_i hNoHost
        have hNotIn : [] ++ [host] ∉ joined.db.paths := fun hIn => hNoHost (decide_eq_true hIn)
        obtain ⟨hFollows, hPaths⟩ := follows_putChild hJoined (fun i hi => by cases hi) (fun h i _ hi => by cases hi)
          hNotIn hHost
        refine ⟨hFollows, fun hIn => ?_⟩
        rcases hPaths _ hIn with hSame | hIn
        · cases hSame
        · exact hNoNode [host, id] rfl (hDb ▸ hIn)
    have hSecond : Follows t u := by
      refine (follows_putChild hFirst.1.mirrored (fun i hi => ?_) (fun h i hHost hi => ?_)
        hFirst.2 hPut).1
      · exact (Option.some.inj hi).symm
      · refine ⟨(Member.new regex Msg host id maxNodeCount).settings, ?_, Option.some.inj hHost, Option.some.inj hi⟩
        rw [hFirst.1.settings, ← hJoin]
        exact List.mem_map_of_mem (List.mem_append_right _ (List.mem_singleton.mpr rfl))
    have hAll := (hFirst.1.trans hSecond).trans (follows_push hSecond.mirrored)
    refine ⟨hAll.mirrored, pushed_push u, fun s' hs' => ?_⟩
    obtain ⟨s, hs, hId, hTable⟩ := sessions_of_settings hAll.settings hs'
    rw [hTable, hId]
    obtain ⟨m, hm, rfl⟩ := mem_sessions.mp hs
    rw [← hJoin] at hm
    rcases List.mem_append.mp hm with hOld | hLast
    · exact .inr ⟨m.session, mem_sessions.mpr ⟨m, hOld, rfl⟩, rfl, rfl⟩
    · rw [List.mem_singleton.mp hLast]
      exact .inl rfl

theorem follows_cleanupNodes (hMirrored : srv.Mirrored) (hPushed : srv.Pushed) {m : Member regex Msg}
    (h : srv.cleanupNodes m = some srv') :
    Follows srv srv' ∧ srv'.Pushed ∧ ∀ q ∈ srv'.db.paths, ¬m.sessionDir <+: q := by
  unfold cleanupNodes at h
  split at h
  · obtain ⟨t, hBoth, rfl⟩ := Option.map_eq_some_iff.mp h
    obtain ⟨u, hSession, hHost⟩ := Option.bind_eq_some_iff.mp hBoth
    obtain ⟨hFirst, hFirstPaths⟩ := follows_removeChild hMirrored (fun q _ hPrefix i hi => by
      obtain ⟨rest, rfl⟩ := hPrefix
      exact (Option.some.inj hi).symm) hSession
    have hSecond : Follows u t ∧ ∀ q ∈ t.db.paths, q ∈ u.db.paths := by
      split at hHost
      · rename_i hAlone
        obtain ⟨hFollows, hPaths⟩ := follows_removeChild hFirst.mirrored (fun q hq hPrefix i hi => by
          obtain ⟨host, rest, rfl⟩ := eq_of_second hi
          obtain rfl : m.host = host := by
            obtain ⟨more, hMore⟩ := hPrefix
            exact (List.cons.inj hMore).1
          have hChild : [m.host] ++ [i] ∈ u.db.paths :=
            Database.prefix_mem (show [m.host] ++ [i] <+: m.host :: i :: rest from ⟨rest, rfl⟩) hq
          have hIn := Database.mem_children.mpr hChild
          rw [hAlone] at hIn
          cases hIn) hHost
        exact ⟨hFollows, fun q hq => ((hPaths q).mp hq).1⟩
      · cases hHost
        exact ⟨.refl hFirst.mirrored, fun _ hq => hq⟩
    have hAll := hFirst.trans hSecond.1
    exact ⟨hAll.trans (follows_push hAll.mirrored), pushed_push t,
      fun q hq => ((hFirstPaths q).mp (hSecond.2 q hq)).2⟩
  · rename_i hNoHost
    cases h
    refine ⟨.refl hMirrored, hPushed, fun q hq hPrefix => hNoHost (decide_eq_true ?_)⟩
    have hHost : [] ++ [m.host] <+: m.sessionDir := ⟨[m.session.id], rfl⟩
    exact Database.prefix_mem (hHost.trans hPrefix) hq

/-- Of the nodes of sessions the tree without the marks keeps all. -/
theorem nodes_cleanupMarks (srv : Server regex Msg) (m : Member regex Msg) :
    (∀ q, q[1]?.isSome = true → (srv.cleanupMarks m).db.data q = srv.db.data q) ∧
      ((∀ p ∈ srv.db.paths, (srv.db.data p).isSome = true) →
        ∀ p ∈ (srv.cleanupMarks m).db.paths, ((srv.cleanupMarks m).db.data p).isSome = true) ∧
      ∀ q ∈ (srv.cleanupMarks m).db.paths, q[1]?.isSome = true → q ∈ srv.db.paths := by
  unfold cleanupMarks
  split
  · rename_i hEmpty
    have hRoot : ∀ q ∈ (Database.root srv.blankMessage).paths, q = [] := by
      intro q hq
      simpa [Database.paths, Database.root] using hq
    refine ⟨fun q hq => ?_, fun _ p hp => ?_, fun q hq hLong => ?_⟩
    · have hNot : q ∉ srv.db.paths := by
        intro hIn
        obtain ⟨i, hi⟩ := Option.isSome_iff_exists.mp hq
        obtain ⟨host, rest, rfl⟩ := eq_of_second hi
        have hHost : [] ++ [host] ∈ srv.db.paths :=
          Database.prefix_mem (show [] ++ [host] <+: host :: i :: rest from ⟨i :: rest, rfl⟩) hIn
        have hChild := Database.mem_children.mpr hHost
        rw [hEmpty] at hChild
        cases hChild
      rw [Database.data_of_not_mem hNot]
      refine Database.data_of_not_mem fun hIn => ?_
      rw [hRoot q hIn] at hq
      cases hq
    · rw [hRoot p hp]
      rfl
    · rw [hRoot q hq] at hLong
      cases hLong
  · have hSame : ∀ l : List Path, ∀ q,
        (l.foldl (fun db p => db.modify p fun n => n.removeMark m.session.id) srv.db).data q = srv.db.data q :=
      fun l q => data_foldl_modify (f := fun n : DataNode Msg => n.removeMark m.session.id) (fun _ => rfl) l srv.db q
    refine ⟨fun q _ => hSame _ q, fun hData p hp => ?_, fun q hq _ => ?_⟩
    · exact (congrArg Option.isSome (hSame _ p)).trans (hData p ((paths_foldl_modify _ _ _ p).mp hp))
    · exact (paths_foldl_modify _ _ _ q).mp hq

theorem mirrored_leave (hLiteral : regex.Literal) (hMirrored : srv.Mirrored) {m : Member regex Msg}
    (hm : (srv.member? id).map Member.settings = some m.settings) (hGone : ∀ q ∈ srv.db.paths, ¬m.sessionDir <+: q) :
    ({ srv.cleanupMarks m with members := (srv.cleanupMarks m).members.filter fun m => !(m.session.id == id) } :
      Server regex Msg).Mirrored := by
  obtain ⟨hData, hHasData, hPaths⟩ := nodes_cleanupMarks srv m
  have hMembers : (srv.cleanupMarks m).members = srv.members := by
    unfold cleanupMarks
    split <;> rfl
  have hSessions : ∀ s ∈ ({ srv.cleanupMarks m with
      members := (srv.cleanupMarks m).members.filter fun m => !(m.session.id == id) } : Server regex Msg).sessions,
      s ∈ srv.sessions := by
    intro s hs
    obtain ⟨m', hm', rfl⟩ := mem_sessions.mp hs
    have hIn := (List.mem_filter.mp hm').1
    rw [hMembers] at hIn
    exact mem_sessions.mpr ⟨m', hIn, rfl⟩
  refine ⟨marked_leave hLiteral hMirrored.marked hm, fun s hs => hMirrored.good s (hSessions s hs), fun s hs q hq => ?_,
    hHasData hMirrored.hasData, fun q hq h i hHost hi => ?_⟩
  · refine (hMirrored.mirrors s (hSessions s hs) q hq).trans ?_
    obtain ⟨i, hi, -⟩ := hq
    rw [← hData q (by rw [hi]; rfl)]
  · have hIn := hPaths q hq (by rw [hi]; rfl)
    obtain ⟨k, hk, hOwner⟩ := hMirrored.owners q hIn h i hHost hi
    obtain ⟨m', hm', rfl⟩ := List.mem_map.mp hk
    refine ⟨m'.settings, List.mem_map_of_mem (List.mem_filter.mpr ⟨hMembers ▸ hm', ?_⟩), hOwner⟩
    rw [Bool.not_eq_true', beq_eq_false_iff_ne]
    intro hSame
    have hFound := member?_of_mem hMirrored.marked.ids hm'
    rw [hSame] at hFound
    rw [hFound] at hm
    have hSettings : m'.settings = m.settings := Option.some.inj hm
    refine hGone q hIn ?_
    obtain ⟨host, rest, rfl⟩ := eq_of_second hi
    have hHere : m.host = host := (congrArg Prod.fst hSettings).symm.trans (hOwner.1.trans (Option.some.inj hHost).symm)
    have hId : m.session.id = i := (congrArg (fun k => k.2.1) hSettings).symm.trans hOwner.2
    unfold Member.sessionDir
    rw [hHere, hId]
    exact ⟨rest, rfl⟩

theorem moved_detach (hLiteral : regex.Literal) (hMirrored : srv.Mirrored) (hPushed : srv.Pushed)
    (h : srv.detach id = some srv') : Moved srv srv' ∧ ∀ s ∈ srv'.sessions, s.id ≠ id := by
  unfold detach at h
  split at h
  · rename_i m hm
    obtain ⟨t, hNodes, rfl⟩ := Option.map_eq_some_iff.mp h
    obtain ⟨hFollows, hSent, hGone⟩ := follows_cleanupNodes hMirrored hPushed hNodes
    have hSame : (t.member? id).map Member.settings = some m.settings := by
      rw [member?_settings, hFollows.settings, ← member?_settings, hm]
      rfl
    have hMembers : (t.cleanupMarks m).members = t.members := by
      unfold cleanupMarks
      split <;> rfl
    have hStays : ∀ m' ∈ (t.cleanupMarks m).members.filter (fun m => !(m.session.id == id)),
        m'.session ∈ t.sessions ∧ m'.session.id ≠ id := by
      intro m' hm'
      obtain ⟨hIn, hOther⟩ := List.mem_filter.mp hm'
      rw [hMembers] at hIn
      exact ⟨mem_sessions.mpr ⟨m', hIn, rfl⟩, by simpa using hOther⟩
    refine ⟨⟨mirrored_leave hLiteral hFollows.mirrored hSame hGone, fun s hs => ?_, fun s hs => ?_⟩, fun s hs => ?_⟩
    · obtain ⟨m', hm', rfl⟩ := mem_sessions.mp hs
      exact hSent _ (hStays m' hm').1
    · obtain ⟨m', hm', rfl⟩ := mem_sessions.mp hs
      exact .inr (sessions_of_settings hFollows.settings (hStays m' hm').1)
    · obtain ⟨m', hm', rfl⟩ := mem_sessions.mp hs
      exact (hStays m' hm').2
  · rename_i hNone
    cases h
    refine ⟨.refl hMirrored hPushed, fun s hs hSame => ?_⟩
    obtain ⟨m, hm, rfl⟩ := mem_sessions.mp hs
    have hFound := member?_of_mem hMirrored.marked.ids hm
    rw [hSame, hNone] at hFound
    cases hFound

/-! ### Runs -/

/-- The paths that the session with this ID has subscribed to, in the order of the events. A session that detaches
and one that attaches later are not the same. -/
def subscribedPaths (id : Str) (events : List (ServerEvent Msg)) : List Str :=
  events.foldl (fun paths event =>
    match event with
    | .attach .. => paths
    | .detach other => if other = id then [] else paths
    | .received other message => if other = id then paths ++ message.newPaths else paths) []

theorem subscribedPaths_attach (id : Str) (done : List (ServerEvent Msg)) (host other : Str) (maxNodeCount : Nat) :
    subscribedPaths id (done ++ [.attach host other maxNodeCount]) = subscribedPaths id done := by
  unfold subscribedPaths
  rw [List.foldl_append]
  rfl

theorem subscribedPaths_detach {id other : Str} (h : id ≠ other) (done : List (ServerEvent Msg)) :
    subscribedPaths id (done ++ [.detach other]) = subscribedPaths id done := by
  unfold subscribedPaths
  rw [List.foldl_append]
  exact if_neg (Ne.symm h)

theorem subscribedPaths_received (id other : Str) (done : List (ServerEvent Msg)) (message : ClientMessage Msg) :
    subscribedPaths id (done ++ [.received other message]) =
      subscribedPaths id done ++ if other = id then message.newPaths else [] := by
  unfold subscribedPaths
  rw [List.foldl_append]
  show (if other = id then _ else _) = _
  split
  · rfl
  · exact (List.append_nil _).symm

/-- What is true of the server after each event, with these behind it. -/
structure Mirroring (done : List (ServerEvent Msg)) (srv : Server regex Msg) : Prop where
  mirrored : srv.Mirrored
  pushed : srv.Pushed
  known : ∀ s ∈ srv.sessions, ∀ path, s.subscriptions.get path ≠ none → path ∈ subscribedPaths s.id done

theorem mirroring_start (blankMessage : Msg) : Mirroring [] (start regex blankMessage) := by
  have hRoot : ∀ q ∈ (start regex blankMessage).db.paths, q = [] := by
    intro q hq
    simpa [Database.paths, Database.root, start] using hq
  refine ⟨⟨marked_start blankMessage, fun s hs => ?_, fun s hs => ?_, fun p hp => ?_, fun q hq h i hHost _ => ?_⟩,
    fun s hs => ?_, fun s hs => ?_⟩
  · cases hs
  · cases hs
  · rw [hRoot p hp]
    rfl
  · rw [hRoot q hq] at hHost
    cases hHost
  · cases hs
  · cases hs

theorem Mirroring.goesOn (hLiteral : regex.Literal) {done : List (ServerEvent Msg)} (h : Mirroring done srv)
    {event : ServerEvent Msg} (hPlain : ∀ id message, event = .received id message → message.Plain)
    (hOnce : ∀ id, (subscribedPaths id (done ++ [event])).Nodup) :
    ∃ srv', srv.step event = some srv' ∧ Mirroring (done ++ [event]) srv' := by
  have hGet : ∀ {s : Session regex Msg} {path : Str}, s.subscriptions = .empty → s.subscriptions.get path ≠ none →
      False := by
    intro s path hEmpty hPath
    rw [hEmpty] at hPath
    exact hPath rfl
  cases event with
  | attach host id maxNodeCount =>
    obtain ⟨srv', hStep⟩ := attach_goesOn h.pushed.fits host id maxNodeCount
    have hMoved := moved_attach h.mirrored h.pushed hStep
    refine ⟨srv', hStep, hMoved.mirrored, hMoved.pushed, fun s' hs' path hPath => ?_⟩
    rw [subscribedPaths_attach]
    rcases hMoved.known s' hs' with hEmpty | ⟨s, hs, hId, hTable⟩
    · exact (hGet hEmpty hPath).elim
    · rw [hId]
      exact h.known s hs path (hTable ▸ hPath)
  | detach id =>
    obtain ⟨srv', hStep⟩ := detach_goesOn h.pushed.fits id
    obtain ⟨hMoved, hLeft⟩ := moved_detach hLiteral h.mirrored h.pushed hStep
    refine ⟨srv', hStep, hMoved.mirrored, hMoved.pushed, fun s' hs' path hPath => ?_⟩
    rw [subscribedPaths_detach (hLeft s' hs')]
    rcases hMoved.known s' hs' with hEmpty | ⟨s, hs, hId, hTable⟩
    · exact (hGet hEmpty hPath).elim
    · rw [hId]
      exact h.known s hs path (hTable ▸ hPath)
  | received id message =>
    unfold step
    dsimp only
    split
    · have hPaths : ClientMessage.allNewPaths [message] = message.newPaths := List.append_nil _
      have hBoth := hOnce id
      rw [subscribedPaths_received, if_pos rfl] at hBoth
      obtain ⟨-, hFresh, hApart⟩ := List.nodup_append.mp hBoth
      have hNew : ∀ s ∈ srv.sessions, s.id = id → ∀ path ∈ ClientMessage.allNewPaths [message],
          s.subscriptions.get path = none := by
        intro s hs hSelf path hPath
        rw [hPaths] at hPath
        by_contra hOld
        exact hApart path (hSelf ▸ h.known s hs path hOld) path hPath rfl
      obtain ⟨srv', hStep, hAccepted, hPushed⟩ := accepted_callMessagesReceived hLiteral [message] h.mirrored h.pushed
        ⟨hPlain id message rfl, trivial⟩ (hPaths ▸ hFresh) hNew
      refine ⟨srv', hStep, hAccepted.mirrored, hPushed, fun s' hs' path hPath => ?_⟩
      obtain ⟨s, hs, hId, hKnown⟩ := hAccepted.known s' hs'
      rw [hId, subscribedPaths_received]
      rcases hKnown path hPath with hBefore | ⟨hSelf, hIn⟩
      · exact List.mem_append_left _ (h.known s hs path hBefore)
      · rw [if_pos hSelf.symm]
        exact List.mem_append_right _ (hPaths ▸ hIn)
    · refine ⟨srv, rfl, h.mirrored, h.pushed, fun s hs path hPath => ?_⟩
      rw [subscribedPaths_received]
      exact List.mem_append_left _ (h.known s hs path hPath)

theorem mirroring_run (hLiteral : regex.Literal) (blankMessage : Msg) {events : List (ServerEvent Msg)}
    (hPlain : ∀ id message, .received id message ∈ events → message.Plain)
    (hOnce : ∀ id before, before <+: events → (subscribedPaths id before).Nodup) :
    ∃ srv, (start regex blankMessage).run events = some srv ∧ Mirroring events srv := by
  have hRun := Lib.foldlM_goesOn (f := step) (s := start regex blankMessage) (l := events)
    (P := fun rest t => ∃ done, events = done ++ rest ∧ Mirroring done t) ?_ ⟨[], rfl, mirroring_start blankMessage⟩
  · obtain ⟨srv, hRun, done, hDone, hMirroring⟩ := hRun
    rw [List.append_nil] at hDone
    exact ⟨srv, hRun, hDone ▸ hMirroring⟩
  · rintro event rest t ⟨done, hDone, ht⟩
    have hSplit : events = done ++ [event] ++ rest := by rw [hDone, List.append_assoc]; rfl
    have hIn : event ∈ events := by
      rw [hDone]
      exact List.mem_append_right _ (List.mem_cons_self ..)
    obtain ⟨t', hStep, ht'⟩ := ht.goesOn hLiteral (fun id message hEvent => hPlain id message (hEvent ▸ hIn))
      fun id => hOnce id _ ⟨rest, hSplit.symm⟩
    exact ⟨t', hStep, done ++ [event], hSplit, ht'⟩

/-- The node is there, and a subscription of the session matches it: its path and, if it has one, its filter. -/
def Shows (db : Database Msg) (s : Session regex Msg) (q : Path) : Prop :=
  q ∈ db.paths ∧ ∃ entry ∈ s.subscriptions.entries,
    PathMatcher.clausesMatch entry q = true ∧ entry.filterMatches (db.data q) q = true

theorem matchesNode_eq_any (m : PathMatcher regex Msg) (q : Path) (data : Option Msg) :
    m.matchesNode q data 0 = true ↔
      ∃ entry ∈ m.entries, PathMatcher.clausesMatch entry q = true ∧ entry.filterMatches data q = true := by
  unfold PathMatcher.matchesNode
  rw [List.any_eq_true]
  refine exists_congr fun entry => and_congr_right fun _ => ?_
  have hClauses := PathMatcher.pathMatches_root_iff entry q none
  rw [PathMatcher.pathMatches_eq_clausesMatch, PathMatcher.filterMatches_none] at hClauses
  rw [PathMatcher.pathMatches_root_iff, hClauses]
  simp only [and_true]

/-- In every run the table that a client makes of the messages sent to it has, of the nodes of other sessions, after
each message exactly those that match a subscription, with their data. -/
theorem subscription_mirror (hLiteral : regex.Literal) (blankMessage : Msg) (events : List (ServerEvent Msg))
    (hPlain : ∀ id message, .received id message ∈ events → message.Plain)
    (hOnce : ∀ id before, before <+: events → (subscribedPaths id before).Nodup) :
    ∃ srv, (start regex blankMessage).run events = some srv ∧ ∀ m ∈ srv.members, ∀ q, Others m.session.id q →
      (Shows srv.db m.session q →
        Table.applyAll (fun _ => none) m.session.sent q = some (srv.db.data q)) ∧
      (¬Shows srv.db m.session q → Table.applyAll (fun _ => none) m.session.sent q = none) := by
  obtain ⟨srv, hRun, hMirrored, hPushed, -⟩ := mirroring_run hLiteral blankMessage hPlain hOnce
  refine ⟨srv, hRun, fun m hm q hq => ?_⟩
  have hIn : m.session ∈ srv.sessions := mem_sessions.mpr ⟨m, hm, rfl⟩
  have hView := hMirrored.mirrors m.session hIn q hq
  unfold Session.view at hView
  rw [hPushed m.session hIn, Option.toList_none, List.append_nil] at hView
  rw [hView]
  unfold Session.shownData Shows
  rw [← matchesNode_eq_any]
  constructor
  · rintro ⟨hHere, hMatches⟩
    obtain ⟨data, hData⟩ := Option.isSome_iff_exists.mp (hMirrored.hasData q hHere)
    rw [hData] at hMatches ⊢
    exact if_pos hMatches
  · intro hNot
    cases hData : srv.db.data q with
    | none => rfl
    | some data =>
      refine if_neg fun hMatches => hNot ⟨Database.data_isSome_mem (by rw [hData]; rfl), ?_⟩
      rw [hData]
      exact hMatches

theorem subscription_mirror_twoSessions : ∃ srv,
    (start PathMatcher.oneCharacter 0).run subscribeThenSet = some srv ∧
      ∀ m ∈ srv.members, ∀ q, Others m.session.id q →
        (Shows srv.db m.session q →
          Table.applyAll (fun _ => none) m.session.sent q = some (srv.db.data q)) ∧
        (¬Shows srv.db m.session q → Table.applyAll (fun _ => none) m.session.sent q = none) := by
  refine subscription_mirror PathMatcher.oneCharacter_literal 0 subscribeThenSet ?_ ?_
  · intro id message hIn
    simp only [subscribeThenSet, List.mem_cons, List.not_mem_nil, or_false, reduceCtorEq, false_or,
      ServerEvent.received.injEq] at hIn
    rcases hIn with ⟨-, rfl⟩ | ⟨-, rfl⟩
    · intro f hf
      rw [List.mem_singleton.mp hf]
      exact ⟨by decide, by decide⟩
    · rfl
  · intro id before hBefore
    have hLength : (subscribedPaths id before).length ≤ 1 := by
      simp only [subscribeThenSet, List.prefix_cons_iff, List.prefix_nil] at hBefore
      rcases hBefore with rfl | ⟨_, rfl, rfl | ⟨_, rfl, rfl | ⟨_, rfl, rfl | ⟨_, rfl, rfl⟩⟩⟩⟩
      · exact Nat.zero_le 1
      · exact Nat.zero_le 1
      · exact Nat.zero_le 1
      all_goals
        simp only [subscribedPaths, ClientMessage.newPaths, PathMatcher.newPaths, List.foldl_cons, List.foldl_nil,
          List.nil_append, List.append_nil, ite_self]
        split
        · exact List.length_filterMap_le ..
        · exact Nat.zero_le 1
    revert hLength
    rcases subscribedPaths id before with _ | ⟨path, _ | ⟨_, _⟩⟩
    · exact fun _ => List.nodup_nil
    · exact fun _ => List.nodup_singleton path
    · exact fun hLength => absurd hLength (by simp)

end Server

end BeShare.Muscle.Reflect
