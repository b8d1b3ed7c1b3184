import BeShare.Reflect.Commands
import BeShare.Reflect.Isolation
import BeShare.Reflect.Quota

/-!
Write isolation: a session without privileges changes nothing outside of its own subtree, and no session gets
privileges that it did not have when it attached.
-/

namespace BeShare.Muscle.Reflect

variable {regex : Regex} {Msg : Type}

namespace IndexedServer

variable {st st' st'' : IndexedServer regex Msg} {self id : Str} {dir p q : Path}

/-! ### What is left alone -/

/-- The session has no privileges. -/
def Plain (st : IndexedServer regex Msg) (id : Str) : Prop :=
  ∀ priv, st.hasPrivilege id priv = false

/-- What the commands of a session leave alone. -/
structure Isolates (id : Str) (dir : Path) (st st' : IndexedServer regex Msg) : Prop where
  server : st.server.Isolated id dir st'.server
  orderedIndex : ∀ q, Outside dir q → st'.orderedIndex q = st.orderedIndex q
  privilegeBits : ∀ i bits, st'.privilegeBits i = some bits → st.privilegeBits i = some bits
  ended : st.Plain id → st'.ended = st.ended

theorem plain_of_bits (h : ∀ bits, st'.privilegeBits id = some bits → st.privilegeBits id = some bits)
    (hPlain : st.Plain id) : st'.Plain id := by
  intro priv
  unfold hasPrivilege
  cases hBits : st'.privilegeBits id with
  | none => rfl
  | some bits =>
    have hOld := hPlain priv
    unfold hasPrivilege at hOld
    rwa [h bits hBits] at hOld

theorem Isolates.refl (st : IndexedServer regex Msg) : Isolates self dir st st :=
  ⟨.refl _, fun _ _ => rfl, fun _ _ h => h, fun _ => rfl⟩

theorem Isolates.trans (h : Isolates self dir st st') (h' : Isolates self dir st' st'') : Isolates self dir st st'' :=
  ⟨h.server.trans h'.server, fun q hq => (h'.orderedIndex q hq).trans (h.orderedIndex q hq),
    fun i bits hBits => h.privilegeBits i bits (h'.privilegeBits i bits hBits),
    fun hPlain => (h'.ended (plain_of_bits (h.privilegeBits self) hPlain)).trans (h.ended hPlain)⟩

/-- The server alone changes. -/
theorem isolates_server {server : Server regex Msg} (h : st.server.Isolated self dir server) :
    Isolates self dir st { st with server := server } :=
  ⟨h, fun _ _ => rfl, fun _ _ h => h, fun _ => rfl⟩

/-- What holds of the sessions in every state: the IDs are apart, and no index is at a session's node or above. -/
structure Sound (st : IndexedServer regex Msg) : Prop where
  ids : st.server.IdsNodup
  shallow : ∀ q : Path, q.length ≤ 2 → st.orderedIndex q = none

/-- A state in which a session has this node. -/
structure Home (id : Str) (dir : Path) (st : IndexedServer regex Msg) : Prop where
  sound : st.Sound
  level : dir.length = 2
  own : ∀ m, st.server.member? id = some m → m.sessionDir = dir

theorem outside_of_shallow (hLevel : dir.length = 2) (hShort : q.length ≤ 2) : Outside dir q := by
  rintro ⟨hPrefix, hOther⟩
  exact hOther (hPrefix.eq_of_length (Nat.le_antisymm hPrefix.length_le (hLevel ▸ hShort)))

theorem Isolates.sound (h : Isolates self dir st st') (hLevel : dir.length = 2) (hSound : st.Sound) : st'.Sound :=
  ⟨h.server.idsNodup hSound.ids,
    fun q hq => (h.orderedIndex q (outside_of_shallow hLevel hq)).trans (hSound.shallow q hq)⟩

theorem Isolates.home (h : Isolates self dir st st') (hHome : Home self dir st) : Home self dir st' := by
  refine ⟨h.sound hHome.level hHome.sound, hHome.level, fun m hm => ?_⟩
  obtain ⟨hIn, hId⟩ := Server.member?_mem hm
  have hGuise : Member.guise self m ∈ st.server.members.map (Member.guise self) :=
    h.server.members ▸ List.mem_map_of_mem hIn
  obtain ⟨m₀, hm₀, hSame⟩ := List.mem_map.mp hGuise
  have hHost : m₀.host = m.host := congrArg Prod.fst hSame
  have hId₀ : m₀.session.id = m.session.id := congrArg (fun k => k.2.1) hSame
  have hFound := Server.member?_of_mem hHome.sound.ids hm₀
  rw [hId₀, hId] at hFound
  rw [← hHome.own m₀ hFound]
  unfold Member.sessionDir
  rw [hHost, hId₀]

/-- Steps that each leave alone what is outside, one after another. -/
theorem isolates_foldlM {α : Type} {f : IndexedServer regex Msg → α → Option (IndexedServer regex Msg)} {l : List α}
    (hHome : Home self dir st) (h : l.foldlM f st = some st')
    (hStep : ∀ a ∈ l, ∀ t t', Home self dir t → f t a = some t' → Isolates self dir t t') : Isolates self dir st st' :=
  Lib.foldlM_keeps (P := Isolates self dir st) h
    (fun a ha t t' ht hf => ht.trans (hStep a ha t t' (ht.home hHome) hf)) (.refl st)

/-! ### Indices -/

/-- Notices of an index are only noted. -/
theorem notify_eq (st : IndexedServer regex Msg) (p : Path) (update : IndexUpdate) :
    ∃ updates, st.notifySubscribersThatNodeIndexChanged p update = { st with nextIndexUpdates := updates } := by
  unfold notifySubscribersThatNodeIndexChanged
  generalize ((st.server.db.node? p).map DataNode.subscribers).getD [] = subscribers
  induction subscribers generalizing st with
  | nil => exact ⟨st.nextIndexUpdates, rfl⟩
  | cons next rest ih =>
    rw [List.foldl_cons]
    have hFirst : ∃ updates, st.nodeIndexChanged next.1 p update = { st with nextIndexUpdates := updates } := by
      unfold nodeIndexChanged
      split
      · split
        · exact ⟨_, rfl⟩
        · exact ⟨st.nextIndexUpdates, rfl⟩
      · exact ⟨st.nextIndexUpdates, rfl⟩
    obtain ⟨updates, hUpdates⟩ := hFirst
    obtain ⟨updates', hUpdates'⟩ := ih (st.nodeIndexChanged next.1 p update)
    refine ⟨updates', hUpdates'.trans ?_⟩
    rw [hUpdates]

theorem isolates_notify (update : IndexUpdate) :
    Isolates self dir st (st.notifySubscribersThatNodeIndexChanged p update) := by
  obtain ⟨updates, hUpdates⟩ := notify_eq st p update
  rw [hUpdates]
  exact ⟨.refl _, fun _ _ => rfl, fun _ _ h => h, fun _ => rfl⟩

theorem isolates_setIndex {index : Option (List Str)} (h : ¬Outside dir p) :
    Isolates self dir st (st.setIndex p index) := by
  refine ⟨.refl _, fun q hq => if_neg ?_, fun _ _ h => h, fun _ => rfl⟩
  rintro rfl
  exact h hq

/-- An index that is removed from is below the session's node: outside there is none that the session can reach. -/
theorem isolates_removeIndexEntry {key : Str} {notify : Bool} (h : Outside dir p → st.orderedIndex p = none) :
    Isolates self dir st (st.removeIndexEntry p key notify).1 := by
  unfold removeIndexEntry
  split
  next index hIndex =>
    have hInside : ¬Outside dir p := by
      intro hOut
      rw [h hOut] at hIndex
      cases hIndex
    split
    next i _ =>
      have hSet := @isolates_setIndex regex Msg st self dir p (some (index.eraseIdx i)) hInside
      dsimp only
      split
      · exact hSet.trans (isolates_notify _)
      · exact hSet
    next => exact .refl st
  next => exact .refl st

theorem isolates_insertIndexEntry {i : Nat} {key : Str} (h : ¬Outside dir p) :
    Isolates self dir st (st.insertIndexEntry p i key) :=
  (isolates_setIndex h).trans (isolates_notify _)

theorem dropLast_shallow (hHome : Home self dir st) (hBelow : dir <+: p) (hOther : dir ≠ p)
    (hOut : Outside dir p.dropLast) : st.orderedIndex p.dropLast = none := by
  refine hHome.sound.shallow _ ?_
  obtain ⟨rest, rfl⟩ := hBelow
  cases rest using List.reverseRec with
  | nil => exact absurd (List.append_nil dir).symm hOther
  | append_singleton rest name =>
    rw [← List.append_assoc, List.dropLast_concat] at hOut ⊢
    have hSame : dir = dir ++ rest := by
      by_contra hNot
      exact hOut ⟨List.prefix_append .., hNot⟩
    rw [← hSame]
    exact Nat.le_of_eq hHome.level

/-! ### Commands -/

theorem isolates_insertOrderedChild (hHome : Home self dir st) (hBelow : dir <+: p)
    (hOther : dir ≠ p) {made before : Str}
    {data : Msg} (h : st.insertOrderedChild self p made before data = some st') : Isolates self dir st st' := by
  unfold insertOrderedChild at h
  split at h
  next hGuard =>
    obtain ⟨server, hPut, rfl⟩ := Option.map_eq_some_iff.mp h
    have hMade := Server.isolated_putChild hHome.sound.ids hBelow (of_decide_eq_false hGuard.2.2) hPut
    have hCounted : st.server.Isolated self dir (server.updateMember self fun m =>
        { m with indexingPresent := true, currentNodeCount := m.currentNodeCount + 1 }) :=
      hMade.trans (Server.isolated_updateMember fun _ hId => ⟨rfl, hId⟩)
    exact (isolates_server hCounted).trans (isolates_insertIndexEntry fun hOut => hOut ⟨hBelow, hOther⟩)
  next =>
    cases h
    exact .refl _

theorem isolates_insertOrderedData (hHome : Home self dir st) {keys : Keys Msg} {fields : List (Str × Msg)}
    {made : Path → Nat → UInt32} (h : st.insertOrderedData self keys fields made = some st') :
    Isolates self dir st st' := by
  unfold insertOrderedData at h
  split at h
  next m hm =>
    refine PathMatcher.visit_keeps (P := Isolates self dir st) (fun q t t' d hBelow hOther ht hCalled => ?_)
      (.refl st) h
    unfold insertOrderedDataCallback at hCalled
    obtain ⟨u, hFields, hSame⟩ := Option.map_eq_some_iff.mp hCalled
    cases hSame
    rw [hHome.own m hm] at hBelow hOther
    refine ht.trans (isolates_foldlM (ht.home hHome) hFields fun field _ v v' hv hStep => ?_)
    exact isolates_insertOrderedChild hv hBelow hOther hStep
  next =>
    cases h
    exact .refl _

theorem isolates_reorderDataCallback (hHome : Home self dir st) (hBelow : dir <+: p) (hOther : dir ≠ p)
    (moveToBeforeThis : Str) : Isolates self dir st (reorderDataCallback moveToBeforeThis st p) := by
  unfold reorderDataCallback
  dsimp only
  split
  · exact .refl st
  · have hRemoved := @isolates_removeIndexEntry regex Msg st self dir p.dropLast (p.getLast?.getD []) true
      (dropLast_shallow hHome hBelow hOther)
    split
    next hStatus =>
      refine hRemoved.trans (isolates_insertIndexEntry fun hOut => ?_)
      -- without an index nothing was removed
      have hNone := dropLast_shallow hHome hBelow hOther hOut
      unfold removeIndexEntry at hStatus
      rw [hNone] at hStatus
      cases hStatus
    next => exact .refl st

theorem strictly_below_of_mem_doTraversal {m : PathMatcher regex Msg} {db : Database Msg} {cb : Path → Int}
    {node : Path} {useFilters : Bool} (h : q ∈ m.doTraversal db cb node useFilters) : node <+: q ∧ node ≠ q := by
  refine ⟨PathMatcher.below_of_mem_doTraversal h, ?_⟩
  unfold PathMatcher.doTraversal at h
  cases hLevels : m.maxClauses with
  | zero =>
    rw [hLevels] at h
    cases h
  | succ levels =>
    rw [hLevels] at h
    obtain ⟨name, rfl | hDeeper⟩ := PathMatcher.mem_checkChildren h
    · exact ne_append_singleton (List.prefix_refl node)
    · rintro rfl
      exact ne_append_singleton (List.prefix_refl node)
        ((List.prefix_append node [name]).eq_of_length (Nat.le_antisymm (List.prefix_append ..).length_le
          (PathMatcher.below_of_mem_aux hDeeper).length_le))

theorem isolates_foldl {α : Type} {f : IndexedServer regex Msg → α → IndexedServer regex Msg} {l : List α}
    (hHome : Home self dir st) (hStep : ∀ a ∈ l, ∀ t, Home self dir t → Isolates self dir t (f t a)) :
    Isolates self dir st (l.foldl f st) := by
  induction l generalizing st with
  | nil => exact .refl st
  | cons a l ih =>
    have hFirst := hStep a (List.mem_cons_self ..) st hHome
    exact hFirst.trans (ih (hFirst.home hHome) fun b hb => hStep b (List.mem_cons_of_mem _ hb))

theorem isolates_reorderData (hHome : Home self dir st) (fields : List (Str × Str)) :
    Isolates self dir st (st.reorderData self fields) := by
  unfold reorderData
  split
  next m hm =>
    refine isolates_foldl hHome fun field _ t ht => isolates_foldl ht fun p hp u hu => ?_
    obtain ⟨hBelow, hOther⟩ := strictly_below_of_mem_doTraversal hp
    rw [hHome.own m hm] at hBelow hOther
    exact isolates_reorderDataCallback hu hBelow hOther field.2
  next => exact .refl st

theorem isolates_removeNode (hHome : Home self dir st) (hBelow : dir <+: p) (hOther : dir ≠ p) {notify : Bool}
    (h : removeNode self notify st p = some st') : Isolates self dir st st' := by
  unfold removeNode at h
  dsimp only at h
  obtain ⟨server, hRemove, rfl⟩ := Option.map_eq_some_iff.mp h
  have hEntry := @isolates_removeIndexEntry regex Msg st self dir p.dropLast (p.getLast?.getD []) notify
    (dropLast_shallow hHome hBelow hOther)
  have hGone : Server.Isolated self dir _ server :=
    Server.isolated_removeNode (hEntry.home hHome).sound.ids hBelow hOther hRemove
  exact (hEntry.trans (isolates_server hGone)).trans (isolates_setIndex fun hOut => hOut ⟨hBelow, hOther⟩)

theorem isolates_doRemoveData (hHome : Home self dir st) {matcher : PathMatcher regex Msg} {quiet : Bool}
    (h : st.doRemoveData self matcher quiet = some st') : Isolates self dir st st' := by
  unfold doRemoveData at h
  split at h
  next m hm =>
    refine isolates_foldlM hHome h fun p hp t t' ht hStep => ?_
    obtain ⟨hBelow, hOther⟩ := strictly_below_of_mem_doTraversal (List.mem_reverse.mp hp)
    rw [hHome.own m hm] at hBelow hOther
    unfold removeDataStep at hStep
    split at hStep
    · obtain ⟨u, hRemove, rfl⟩ := Option.map_eq_some_iff.mp hStep
      have hRemoved : Isolates self dir t u := by
        unfold removeChild at hRemove
        split at hRemove
        · refine isolates_foldlM ht hRemove fun q hq v v' hv hNode => ?_
          have hPrefix := Server.prefix_of_mem_removalOrder hq
          refine isolates_removeNode hv (hBelow.trans hPrefix) (fun hSame => hOther ?_) hNode
          exact hBelow.eq_of_length (Nat.le_antisymm hBelow.length_le (hSame ▸ hPrefix.length_le))
        · cases hRemove
          exact .refl t
      exact hRemoved.trans (isolates_server (Server.isolated_countNodes _))
    · cases hStep
      exact .refl t
  next =>
    cases h
    exact .refl _

theorem isolates_doGetData (matcher : PathMatcher regex Msg) : Isolates self dir st (st.doGetData self matcher) := by
  unfold doGetData
  split
  · exact ⟨Server.isolated_doGetData matcher, fun _ _ => rfl, fun _ _ h => h, fun _ => rfl⟩
  · exact .refl st

theorem isolates_setParameters (hHome : Home self dir st) {fields : List (Field Msg)}
    (h : st.setParameters self fields = some st') : Isolates self dir st st' := by
  unfold setParameters at h
  obtain ⟨server, hFields, rfl⟩ := Option.map_eq_some_iff.mp h
  have hServer : Isolates self dir st { st with server := server } :=
    isolates_server (Server.isolated_setFields hHome.sound.ids hFields)
  dsimp only
  split
  · exact hServer
  · exact hServer.trans (isolates_doGetData _)

theorem isolates_removeParameters (hHome : Home self dir st) {keys : List Str}
    (h : st.removeParameters self keys = some st') : Isolates self dir st st' := by
  unfold removeParameters at h
  obtain ⟨server, hRemove, rfl⟩ := Option.map_eq_some_iff.mp h
  refine ⟨Server.isolated_removeParameters hHome.sound.ids hRemove, fun _ _ => rfl, fun i bits hBits =>
    ?_, fun _ => rfl⟩
  dsimp only at hBits
  split at hBits
  · cases hBits
  · exact hBits

theorem isolates_kick (keys : Keys Msg) :
    Isolates self dir st (if st.hasPrivilege self PR_PRIVILEGE_KICK then st.kick self keys else st) := by
  split
  next hPrivilege =>
    refine ⟨.refl _, fun _ _ => rfl, fun _ _ h => h, fun hPlain => ?_⟩
    rw [hPlain PR_PRIVILEGE_KICK] at hPrivilege
    cases hPrivilege
  next => exact .refl st

theorem isolates_toFactory (priv : Nat) : Isolates self dir st (st.toFactory self priv) := by
  unfold toFactory
  split
  · exact ⟨.refl _, fun _ _ => rfl, fun _ _ h => h, fun _ => rfl⟩
  · exact .refl st

theorem isolates_push : Isolates self dir st st.pushSubscriptionMessages :=
  ⟨(Server.similar_push st.server).isolated, fun _ _ => rfl, fun _ _ h => h, fun _ => rfl⟩

mutual

theorem isolates_messageReceived (message : GatewayMessage Msg) {st st' : IndexedServer regex Msg}
    (hHome : Home self dir st) (h : messageReceivedFromGateway self message st = some st') :
    Isolates self dir st st' := by
  unfold messageReceivedFromGateway at h
  cases message with
  | answered =>
    cases h
    exact .refl _
  | setData fields quiet =>
    obtain ⟨server, hFields, rfl⟩ := Option.map_eq_some_iff.mp h
    refine Lib.foldlM_keeps (P := fun srv : Server regex Msg => Isolates self dir st { st with server := srv }) hFields
      (fun field _ t t' ht hStep => ?_) (.refl st)
    have hThere := ht.home hHome
    exact isolates_server (ht.server.trans (Server.isolated_setDataNode hThere.sound.ids hThere.own hStep))
  | removeData keys quiet => exact isolates_doRemoveData hHome h
  | insertOrderedData keys fields made => exact isolates_insertOrderedData hHome h
  | reorderData fields =>
    cases h
    exact isolates_reorderData hHome fields
  | setParameters fields => exact isolates_setParameters hHome h
  | removeParameters keys => exact isolates_removeParameters hHome h
  | getData keys =>
    cases h
    exact isolates_doGetData _
  | kick keys =>
    cases h
    exact isolates_kick keys
  | addBans =>
    cases h
    exact isolates_toFactory _
  | removeBans =>
    cases h
    exact isolates_toFactory _
  | batch messages => exact isolates_callMessagesReceived messages hHome h

theorem isolates_callMessagesReceived (messages : List (GatewayMessage Msg)) {st st' : IndexedServer regex Msg}
    (hHome : Home self dir st) (h : callMessagesReceived self messages st = some st') : Isolates self dir st st' := by
  cases messages with
  | nil =>
    cases h
    exact .refl _
  | cons message rest =>
    unfold callMessagesReceived at h
    split at h
    next t hFirst =>
      have ht := (isolates_messageReceived message hHome hFirst).trans isolates_push
      exact ht.trans (isolates_callMessagesReceived rest (ht.home hHome) h)
    next => cases h

end

/-! ### Attaching and detaching -/

/-- The IDs of the sessions that are there. -/
def ids (st : IndexedServer regex Msg) : List Str :=
  st.server.members.map fun m => m.session.id

theorem mem_ids : id ∈ st.ids ↔ (st.server.member? id).isSome = true := by
  unfold ids Server.member?
  rw [List.find?_isSome, List.mem_map]
  simp only [beq_iff_eq]

theorem settings_putChild {srv srv' : Server regex Msg} (hIds : srv.IdsNodup) {name : Str} {data : Msg} {notify : Bool}
    (h : srv.putChild self p name data notify = some srv') :
    srv'.members.map Member.settings = srv.members.map Member.settings := by
  unfold Server.putChild at h
  dsimp only at h
  split at h
  · refine (Server.similar_notify ?_ h).members
    exact hIds
  · cases h
    rfl

theorem ids_attach {srv srv' : Server regex Msg} (hIds : srv.IdsNodup) {host : Str} {maxNodeCount : Nat}
    (hNew : id ∉ srv.members.map fun m => m.session.id) (h : srv.attach host id maxNodeCount = some srv') :
    srv'.members.map (fun m => m.session.id) = (srv.members.map fun m => m.session.id) ++ [id] := by
  unfold Server.attach at h
  split at h
  next hThere =>
    obtain ⟨m, hm⟩ := Option.isSome_iff_exists.mp hThere
    obtain ⟨hIn, hId⟩ := Server.member?_mem hm
    exact absurd (List.mem_map.mpr ⟨m, hIn, hId⟩) hNew
  next =>
    obtain ⟨t, hHost, hSession⟩ := Option.bind_eq_some_iff.mp h
    obtain ⟨u, hPut, rfl⟩ := Option.map_eq_some_iff.mp hSession
    generalize hJoin : ({ srv with members := srv.members ++ [Member.new regex Msg host id maxNodeCount] } :
      Server regex Msg) = joined at hHost
    have hJoined : (joined.members.map fun m => m.session.id) = (srv.members.map fun m => m.session.id) ++ [id] := by
      rw [← hJoin]
      exact List.map_append
    have hNodup : joined.IdsNodup := by
      unfold Server.IdsNodup
      rw [hJoined]
      refine List.nodup_append.mpr ⟨hIds, List.nodup_singleton id, fun i hi j hj hSame => hNew ?_⟩
      rwa [hSame, List.mem_singleton.mp hj] at hi
    have ht : t.members.map Member.settings = joined.members.map Member.settings := by
      split at hHost
      · cases hHost
        rfl
      · exact settings_putChild hNodup hHost
    have htNodup : t.IdsNodup := by
      unfold Server.IdsNodup
      rw [Server.ids_of_settings ht]
      exact hNodup
    have hu := (Server.similar_push u).members.trans ((settings_putChild htNodup hPut).trans ht)
    exact (Server.ids_of_settings hu).trans hJoined

theorem sound_removeIndexEntry (hSound : st.Sound) (p : Path) (key : Str) (notify : Bool) :
    (st.removeIndexEntry p key notify).1.Sound ∧ (st.removeIndexEntry p key notify).1.server = st.server ∧
      (st.removeIndexEntry p key notify).1.privilegeBits = st.privilegeBits := by
  unfold removeIndexEntry
  split
  next index hIndex =>
    split
    next i _ =>
      have hSet : (st.setIndex p (some (index.eraseIdx i))).Sound := by
        refine ⟨hSound.ids, fun q hq => (if_neg ?_).trans (hSound.shallow q hq)⟩
        rintro rfl
        rw [hSound.shallow q hq] at hIndex
        cases hIndex
      dsimp only
      split
      · obtain ⟨updates, hUpdates⟩ := notify_eq (st.setIndex p (some (index.eraseIdx i))) p (.removed i key)
        rw [hUpdates]
        exact ⟨⟨hSet.ids, hSet.shallow⟩, rfl, rfl⟩
      · exact ⟨hSet, rfl, rfl⟩
    next => exact ⟨hSound, rfl, rfl⟩
  next => exact ⟨hSound, rfl, rfl⟩

/-- The same sessions, with the same privileges. -/
structure SameSessions (st st' : IndexedServer regex Msg) : Prop where
  sound : st'.Sound
  ids : st'.ids = st.ids
  privilegeBits : st'.privilegeBits = st.privilegeBits

theorem SameSessions.trans (h : SameSessions st st') (h' : SameSessions st' st'') : SameSessions st st'' :=
  ⟨h'.sound, h'.ids.trans h.ids, h'.privilegeBits.trans h.privilegeBits⟩

theorem sameSessions_removeNode (hSound : st.Sound) {notify : Bool} (h : removeNode self notify st p = some st') :
    SameSessions st st' := by
  unfold removeNode at h
  dsimp only at h
  obtain ⟨server, hRemove, rfl⟩ := Option.map_eq_some_iff.mp h
  obtain ⟨hEntry, hServer, hBits⟩ := sound_removeIndexEntry hSound p.dropLast (p.getLast?.getD []) notify
  rw [hServer] at hRemove
  unfold Server.removeNode at hRemove
  obtain ⟨t, hNotify, rfl⟩ := Option.map_eq_some_iff.mp hRemove
  have hMembers : t.members.map Member.settings = st.server.members.map Member.settings := by
    split at hNotify
    · exact (Server.similar_notify hSound.ids hNotify).members
    · cases hNotify
      rfl
  have hIds := Server.ids_of_settings hMembers
  refine ⟨⟨?_, fun q hq => ?_⟩, hIds, hBits⟩
  · show (t.members.map fun m => m.session.id).Nodup
    rw [hIds]
    exact hSound.ids
  · show (if q = p then none else (st.removeIndexEntry p.dropLast (p.getLast?.getD []) notify).1.orderedIndex q) = none
    split
    · rfl
    · exact hEntry.shallow q hq

theorem sameSessions_removeChild (hSound : st.Sound) {notify : Bool} (h : st.removeChild self p notify = some st') :
    SameSessions st st' := by
  unfold removeChild at h
  split at h
  · exact Lib.foldlM_keeps (P := SameSessions st) h
      (fun q _ t t' ht hStep => ht.trans (sameSessions_removeNode ht.sound hStep)) ⟨hSound, rfl, rfl⟩
  · cases h
    exact ⟨hSound, rfl, rfl⟩

theorem sameSessions_push (hSound : st.Sound) : SameSessions st st.pushSubscriptionMessages := by
  have hIds := Server.ids_of_settings (Server.similar_push st.server).members
  refine ⟨⟨?_, hSound.shallow⟩, hIds, rfl⟩
  show (st.server.pushSubscriptionMessages.members.map fun m => m.session.id).Nodup
  rw [hIds]
  exact hSound.ids

theorem sameSessions_cleanupNodes (hSound : st.Sound) {m : Member regex Msg} (h : st.cleanupNodes m = some st') :
    SameSessions st st' := by
  unfold cleanupNodes at h
  split at h
  · obtain ⟨t, hBoth, rfl⟩ := Option.map_eq_some_iff.mp h
    obtain ⟨u, hSession, hHost⟩ := Option.bind_eq_some_iff.mp hBoth
    have hu := sameSessions_removeChild hSound hSession
    have ht : SameSessions st t := by
      split at hHost
      · exact hu.trans (sameSessions_removeChild hu.sound hHost)
      · cases hHost
        exact hu
    exact ht.trans (sameSessions_push ht.sound)
  · cases h
    exact ⟨hSound, rfl, rfl⟩

/-- What one event leaves: a session that is there stays until it detaches, and gets no privileges. -/
structure Keeps (event : GatewayEvent Msg) (st st' : IndexedServer regex Msg) : Prop where
  sound : st'.Sound
  stays : ∀ id ∈ st.ids, event ≠ .detach id →
    id ∈ st'.ids ∧ ∀ bits, st'.privilegeBits id = some bits → st.privilegeBits id = some bits

theorem keeps_attach (hSound : st.Sound) {host : Str} {maxNodeCount privBits : Nat}
    (h : st.attach host id maxNodeCount privBits = some st') :
    Keeps (.attach host id maxNodeCount privBits) st st' := by
  unfold attach at h
  split at h
  · cases h
    exact ⟨hSound, fun _ hIn _ => ⟨hIn, fun _ h => h⟩⟩
  next hThere =>
    obtain ⟨server, hAttach, rfl⟩ := Option.map_eq_some_iff.mp h
    have hNew : id ∉ st.ids := fun hIn => hThere (mem_ids.mp hIn)
    have hIds := ids_attach hSound.ids hNew hAttach
    refine ⟨⟨?_, hSound.shallow⟩, fun i hIn _ => ⟨?_, fun bits hBits => ?_⟩⟩
    · show (server.members.map fun m => m.session.id).Nodup
      rw [hIds]
      refine List.nodup_append.mpr ⟨hSound.ids, List.nodup_singleton id, fun i hi j hj hSame => hNew ?_⟩
      rw [hSame, List.mem_singleton.mp hj] at hi
      exact hi
    · show i ∈ server.members.map fun m => m.session.id
      rw [hIds]
      exact List.mem_append_left _ hIn
    · dsimp only at hBits
      have hOther : i ≠ id := fun hSame => hNew (hSame ▸ hIn)
      rwa [if_neg hOther] at hBits

theorem keeps_detach (hSound : st.Sound) (h : st.detach id = some st') : Keeps (.detach id) st st' := by
  unfold detach at h
  split at h
  next m hm =>
    obtain ⟨t, hNodes, rfl⟩ := Option.map_eq_some_iff.mp h
    have ht := sameSessions_cleanupNodes hSound hNodes
    have hMembers : (t.server.cleanupMarks m).members = t.server.members := by
      unfold Server.cleanupMarks
      split <;> rfl
    refine ⟨⟨?_, ht.sound.shallow⟩, fun i hIn hOther => ⟨?_, fun bits hBits => ?_⟩⟩
    · show (((t.server.cleanupMarks m).members.filter fun m => !(m.session.id == id)).map fun m => m.session.id).Nodup
      rw [hMembers]
      exact ht.sound.ids.sublist (List.filter_sublist.map _)
    · rw [← ht.ids] at hIn
      obtain ⟨m', hm', rfl⟩ := List.mem_map.mp hIn
      refine List.mem_map.mpr ⟨m', List.mem_filter.mpr ⟨hMembers ▸ hm', ?_⟩, rfl⟩
      rw [Bool.not_eq_true', beq_eq_false_iff_ne]
      exact fun hSame => hOther (congrArg GatewayEvent.detach hSame.symm)
    · dsimp only at hBits
      split at hBits
      · cases hBits
      · rwa [ht.privilegeBits] at hBits
  next =>
    cases h
    exact ⟨hSound, fun _ hIn _ => ⟨hIn, fun _ h => h⟩⟩

theorem home_of_member (hSound : st.Sound) {m : Member regex Msg} (hm : st.server.member? self = some m) :
    Home self m.sessionDir st :=
  ⟨hSound, rfl, fun m' hm' => by rw [Option.some.inj (hm'.symm.trans hm)]⟩

theorem keeps_step (hSound : st.Sound) {event : GatewayEvent Msg} (h : st.step event = some st') :
    Keeps event st st' := by
  cases event with
  | attach host id maxNodeCount privBits => exact keeps_attach hSound h
  | detach id => exact keeps_detach hSound h
  | received id message =>
    unfold step at h
    dsimp only at h
    split at h
    next hThere =>
      obtain ⟨m, hm⟩ := Option.isSome_iff_exists.mp hThere
      have hIsolates := isolates_callMessagesReceived [message] (home_of_member hSound hm) h
      refine ⟨hIsolates.sound rfl hSound, fun i hIn _ => ⟨?_, hIsolates.privilegeBits i⟩⟩
      unfold ids
      rw [hIsolates.server.ids]
      exact hIn
    next =>
      cases h
      exact ⟨hSound, fun _ hIn _ => ⟨hIn, fun _ h => h⟩⟩

theorem sound_start (regex : Regex) (blankMessage : Msg) : (start regex blankMessage).Sound :=
  ⟨List.nodup_nil, fun _ _ => rfl⟩

theorem sound_run (hSound : st.Sound) {events : List (GatewayEvent Msg)} (h : st.run events = some st') : st'.Sound :=
  Lib.foldlM_keeps (P := Sound) h (fun _ _ _ _ ht hStep => (keeps_step ht hStep).sound) hSound

/-- Since a session attached, it has had no other privileges than then. -/
theorem bits_of_run (hSound : st.Sound) {host : Str} {maxNodeCount privBits : Nat} {late : List (GatewayEvent Msg)}
    (hNew : st.server.member? id = none) (hStays : .detach id ∉ late)
    (h : st.run (.attach host id maxNodeCount privBits :: late) = some st') :
    ∀ bits, st'.privilegeBits id = some bits → bits = privBits := by
  obtain ⟨t, hFirst, hRest⟩ := Lib.foldlM_cons_eq_some.mp h
  have hAttached : id ∈ t.ids ∧ ∀ bits, t.privilegeBits id = some bits → bits = privBits := by
    have hHere : st.attach host id maxNodeCount privBits = some t := hFirst
    unfold attach at hHere
    rw [hNew] at hHere
    obtain ⟨server, hAttach, rfl⟩ := Option.map_eq_some_iff.mp hHere
    have hNot : id ∉ st.ids := by
      rw [mem_ids, hNew]
      exact Bool.false_ne_true
    refine ⟨?_, fun bits hBits => ?_⟩
    · show id ∈ server.members.map fun m => m.session.id
      rw [ids_attach hSound.ids hNot hAttach]
      exact List.mem_append_right _ (List.mem_singleton.mpr rfl)
    · dsimp only at hBits
      rw [if_pos rfl] at hBits
      split at hBits
      · cases hBits
      · exact (Option.some.inj hBits).symm
  have hRun := Lib.foldlM_keeps (P := fun u : IndexedServer regex Msg => u.Sound ∧ id ∈ u.ids ∧
    ∀ bits, u.privilegeBits id = some bits → bits = privBits) hRest (fun event hEvent u u' hu hStep => ?_)
    ⟨(keeps_step hSound hFirst).sound, hAttached⟩
  · exact hRun.2.2
  · have hKeeps := keeps_step hu.1 hStep
    obtain ⟨hIn, hBits⟩ := hKeeps.stays id hu.2.1 fun hSame => hStays (hSame ▸ hEvent)
    exact ⟨hKeeps.sound, hIn, fun bits hNow => hu.2.2 bits (hBits bits hNow)⟩

/-! ### The result -/

/-- Nodes, data and indices outside of a session's subtree, and the other sessions with their parameters and
subscriptions, are as they were. -/
structure Untouched (id : Str) (dir : Path) (st st' : IndexedServer regex Msg) : Prop where
  nodes : ∀ q, Outside dir q → (q ∈ st'.server.db.paths ↔ q ∈ st.server.db.paths) ∧
    st'.server.db.data q = st.server.db.data q ∧ st'.orderedIndex q = st.orderedIndex q
  sessions : st'.ids = st.ids ∧ st'.ended = st.ended
  others : ∀ i ≠ id, (st'.server.member? i).map Member.settings = (st.server.member? i).map Member.settings

theorem Isolates.untouched (h : Isolates self dir st st') (hPlain : st.Plain self) : Untouched self dir st st' := by
  refine ⟨fun q hq => ⟨h.server.paths q hq, h.server.data q hq, h.orderedIndex q hq⟩, ⟨h.server.ids, h.ended hPlain⟩,
    fun i hOther => ?_⟩
  have hGuise : ∀ srv : Server regex Msg, (srv.member? i).map (Member.guise self) =
      (srv.members.map (Member.guise self)).find? fun k => k.2.1 == i := by
    intro srv
    unfold Server.member?
    rw [List.find?_map]
    rfl
  have hSame : (st'.server.member? i).map (Member.guise self) = (st.server.member? i).map (Member.guise self) := by
    rw [hGuise, hGuise, h.server.members]
  have hKnown : ∀ srv : Server regex Msg, (srv.member? i).map Member.settings =
      ((srv.member? i).map (Member.guise self)).bind fun k => k.2.2.map fun settings => (k.1, settings) := by
    intro srv
    cases hm : srv.member? i with
    | none => rfl
    | some m =>
      have hId : m.session.id ≠ self := fun hSelf => hOther ((Server.member?_mem hm).2.symm.trans hSelf)
      show some m.settings = ((if m.session.id = self then none else some m.session.settings).map fun settings =>
        (m.host, settings))
      rw [if_neg hId]
      rfl
  rw [hKnown, hKnown, hSame]

/-- Whatever a session's client sends, without privileges the session changes nothing outside of its own subtree; and no
session has privileges that it did not attach with. -/
theorem write_isolation (blankMessage : Msg) (events : List (GatewayEvent Msg)) {st st' : IndexedServer regex Msg}
    (h : (start regex blankMessage).run events = some st) {m : Member regex Msg}
    (hm : st.server.member? self = some m) (messages : List (GatewayMessage Msg))
    (hMessages : callMessagesReceived self messages st = some st') :
    (st.Plain self → Untouched self m.sessionDir st st') ∧
      ∀ host maxNodeCount privBits early late, events = early ++ .attach host self maxNodeCount privBits :: late →
        (∀ before, (start regex blankMessage).run early = some before → before.server.member? self = none) →
        .detach self ∉ late → ∀ bits, st'.privilegeBits self = some bits → bits = privBits := by
  have hSound := sound_run (sound_start regex blankMessage) h
  have hIsolates := isolates_callMessagesReceived messages (home_of_member hSound hm) hMessages
  refine ⟨hIsolates.untouched, fun host maxNodeCount privBits early late hEvents hNew hStays bits hBits => ?_⟩
  unfold run at h
  rw [hEvents, List.foldlM_append] at h
  obtain ⟨before, hEarly, hLate⟩ := Option.bind_eq_some_iff.mp h
  exact bits_of_run (sound_run (sound_start regex blankMessage) hEarly) (hNew before hEarly) hStays hLate bits
    (hIsolates.privilegeBits self bits hBits)

/-- Two sessions of a host, one with a node that has an ordered child. -/
def twoSessions : List (GatewayEvent Nat) :=
  [.attach ['h'] ['1'] 9 0, .attach ['h'] ['2'] 9 0,
    .received ['2'] (.batch [.setData [(['x'], 1)] false,
      .insertOrderedData [(['x'], none)] [([], 2)] fun _ _ => 0])]

/-- The other session writes where it can, and tries to remove and to kick. -/
def intruding : List (GatewayMessage Nat) :=
  [.setData [(['x'], 3), (['/', 'h', '/', '2', '/', 'x'], 4)] false,
    .insertOrderedData [(['*'], none)] [([], 5)] fun _ _ => 0,
    .batch [.removeData [(['/', 'h', '/', '2', '/', 'x'], none), (['x', '/', '*'], none)] false, .kick [(['*'], none)]]]

theorem write_isolation_twoSessions : ∃ st st', (start PathMatcher.oneCharacter 0).run twoSessions = some st ∧
    callMessagesReceived ['1'] intruding st = some st' ∧ Untouched ['1'] [['h'], ['1']] st st' := by
  have hRuns : (((start PathMatcher.oneCharacter 0).run twoSessions).bind fun st =>
      (callMessagesReceived ['1'] intruding st).bind fun _ =>
        (st.server.member? ['1']).map fun m => (m.sessionDir, st.privilegeBits ['1'])) =
      some ([['h'], ['1']], none) := by decide +kernel
  obtain ⟨st, h, hRest⟩ := Option.bind_eq_some_iff.mp hRuns
  obtain ⟨st', hMessages, hMember⟩ := Option.bind_eq_some_iff.mp hRest
  obtain ⟨m, hm, hSame⟩ := Option.map_eq_some_iff.mp hMember
  refine ⟨st, st', h, hMessages, ?_⟩
  rw [← show m.sessionDir = [['h'], ['1']] from congrArg Prod.fst hSame]
  refine (write_isolation 0 twoSessions h hm intruding hMessages).1 fun priv => ?_
  unfold hasPrivilege
  rw [show st.privilegeBits ['1'] = none from congrArg Prod.snd hSame]
  rfl

end IndexedServer

end BeShare.Muscle.Reflect
