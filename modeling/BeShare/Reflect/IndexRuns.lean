import BeShare.Reflect.IndexKept
import BeShare.Reflect.QuotaRuns

/-!
Over all events of a server the indices stay right, and each command that is not quiet about it tells the sessions
that watch a node how its index changes.
-/

namespace BeShare.Muscle.Reflect

variable {regex : Regex} {Msg : Type}

namespace Server

variable {srv srv' srv'' : Server regex Msg} {self id path : Str} {p q : Path}

/-! ### Parameters -/

/-- What parameters change leaves the nodes, the marks right, and the sessions where they are. -/
structure Adjusted (srv srv' : Server regex Msg) : Prop where
  marked : srv'.Marked
  paths : srv'.db.paths = srv.db.paths
  standing : srv'.members.map Member.standing = srv.members.map Member.standing

theorem Adjusted.refl (hMarked : srv.Marked) : Adjusted srv srv :=
  ⟨hMarked, rfl, rfl⟩

theorem Adjusted.trans (h : Adjusted srv srv') (h' : Adjusted srv' srv'') : Adjusted srv srv'' :=
  ⟨h'.marked, h'.paths.trans h.paths, h'.standing.trans h.standing⟩

theorem footing_applyEffect (hIds : srv.IdsNodup) {effect : Effect Msg} (h : srv.applyEffect self effect = some srv') :
    srv'.members.map Member.footing = srv.members.map Member.footing := by
  unfold applyEffect at h
  split at h
  · split at h
    · cases h
      rfl
    · cases h
      rfl
  · refine (Lib.foldlM_keeps (P := fun t : Server regex Msg =>
      t.members.map Member.footing = srv.members.map Member.footing ∧ t.IdsNodup) h ?_ ⟨rfl, hIds⟩).1
    intro change _ t t' ht hStep
    have hFooting := footing_deliver ht.2 (fun s s' pushed => Session.settings_nodeChangedAux) hStep
    have hSimilar := similar_deliver ht.2 (fun s s' pushed => Session.settings_nodeChangedAux) hStep
    exact ⟨hFooting.trans ht.1, hSimilar.idsNodup ht.2⟩

/-- The session of the parameters is the only one that changes. -/
theorem footing_parameterStep (hIds : srv.IdsNodup) {m : Member regex Msg} (hm : srv.member? self = some m)
    {change : Session regex Msg → Session regex Msg × Option (Effect Msg)}
    (hId : (change m.session).1.id = m.session.id)
    (h : srv.parameterStep self change = some srv') : srv'.members.map Member.footing =
      (srv.updateMember self fun m' => { m' with session := (change m.session).1 }).members.map Member.footing := by
  unfold parameterStep at h
  rw [hm] at h
  dsimp only at h
  split at h
  · refine footing_applyEffect (idsNodup_updateMember hIds _ fun _ _ _ => ?_) h
    exact hId.trans (member?_mem hm).2
  · cases h
    rfl

theorem adjusted_parameterStep (hLiteral : regex.Literal) (hMarked : srv.Marked)
    {change : Session regex Msg → Session regex Msg × Option (Effect Msg)}
    (hChange : ∀ s : Session regex Msg, s.Accounts (change s).1 (change s).2)
    (h : srv.parameterStep self change = some srv') : Adjusted srv srv' := by
  refine ⟨marked_parameterStep hLiteral hMarked hChange h,
    (sameTally_parameterStep (fun s => (hChange s).1) h).paths, ?_⟩
  cases hm : srv.member? self with
  | none =>
    unfold parameterStep at h
    rw [hm] at h
    cases h
    rfl
  | some m =>
    rw [standing_of_footing (footing_parameterStep hMarked.ids hm (hChange m.session).1 h)]
    unfold updateMember
    rw [List.map_map]
    refine List.map_congr_left fun m' _ => ?_
    show (if m'.session.id = self then { m' with session := (change m.session).1 } else m').standing = m'.standing
    split
    next hSelf =>
      show (m'.host, (change m.session).1.id, m'.indexingPresent) = m'.standing
      rw [(hChange m.session).1, (member?_mem hm).2, ← hSelf]
      rfl
    next => rfl

theorem adjusted_setFields (hLiteral : regex.Literal) (hMarked : srv.Marked) {fields : List (Field Msg)}
    (h : fields.foldlM (fun (srv : Server regex Msg) f => srv.parameterStep self fun s => s.setParameter f) srv =
      some srv') : Adjusted srv srv' :=
  Lib.foldlM_keeps (P := Adjusted srv) h
    (fun f _ _ _ ht hStep =>
      ht.trans (adjusted_parameterStep hLiteral ht.marked (fun s => s.accounts_setParameter f) hStep))
    (.refl hMarked)

theorem adjusted_removeParameters (hLiteral : regex.Literal) (hMarked : srv.Marked) {keys : List Str}
    (h : srv.removeParameters self keys = some srv') : Adjusted srv srv' := by
  unfold removeParameters at h
  split at h
  · exact Lib.foldlM_keeps (P := Adjusted srv) h
      (fun name _ _ _ ht hStep =>
        ht.trans (adjusted_parameterStep hLiteral ht.marked (fun s => s.accounts_removeParameter name) hStep))
      (.refl hMarked)
  · cases h
    exact .refl hMarked

/-! ### Attaching -/

/-- The nodes of sessions are those of the sessions that are there. -/
def Homes (srv : Server regex Msg) : Prop :=
  ∀ host id, [host, id] ∈ srv.db.paths → ∃ m ∈ srv.members, m.host = host ∧ m.session.id = id

theorem homes_of_standing (hStanding : srv'.members.map Member.standing = srv.members.map Member.standing)
    (hPaths : ∀ host id, [host, id] ∈ srv'.db.paths → [host, id] ∈ srv.db.paths) (h : srv.Homes) : srv'.Homes := by
  intro host id hIn
  obtain ⟨m, hm, hHost, hId⟩ := h host id (hPaths host id hIn)
  have hMem : m.standing ∈ srv'.members.map Member.standing := hStanding ▸ List.mem_map_of_mem hm
  obtain ⟨m', hm', hSame⟩ := List.mem_map.mp hMem
  exact ⟨m', hm', (congrArg Prod.fst hSame).trans hHost, (congrArg (fun k => k.2.1) hSame).trans hId⟩

/-- With the new session there are at most the nodes of its host and its own. -/
theorem tended_attach (hMarked : srv.Marked) (hHomes : srv.Homes) {host : Str} {maxNodeCount : Nat}
    (hNone : srv.member? id = none) (h : srv.attach host id maxNodeCount = some srv') :
    Tended { srv with members := srv.members ++ [Member.new regex Msg host id maxNodeCount] } srv' ∧
      ∀ q ∈ srv'.db.paths, q ∈ srv.db.paths ∨ q = [host] ∨ q = [host, id] := by
  unfold attach at h
  rw [hNone] at h
  obtain ⟨t, hHost, hSession⟩ := Option.bind_eq_some_iff.mp h
  obtain ⟨u, hPut, rfl⟩ := Option.map_eq_some_iff.mp hSession
  have hJoin := marked_join hMarked host maxNodeCount hNone
  have hFirst : Tended { srv with members := srv.members ++ [Member.new regex Msg host id maxNodeCount] } t ∧
      ∀ q ∈ t.db.paths, q ∈ srv.db.paths ∨ q = [host] := by
    split at hHost
    next =>
      cases hHost
      exact ⟨.refl hJoin, fun q hq => .inl hq⟩
    next hNot =>
      have hNew : ([] : Path) ++ [host] ∉ srv.db.paths := fun hOld => hNot (decide_eq_true hOld)
      exact ⟨(tended_putChild hJoin hNew hHost).1, fun q hq => mem_paths_putChild hHost hq⟩
  have hNew : [host] ++ [id] ∉ t.db.paths := by
    intro hOld
    rcases hFirst.2 _ hOld with hOld | hSame
    · obtain ⟨m, hm, -, hId⟩ := hHomes host id hOld
      exact absurd (beq_iff_eq.mpr hId) (List.find?_eq_none.mp hNone m hm)
    · cases hSame
  have hSecond := (tended_putChild hFirst.1.marked hNew hPut).1
  refine ⟨(hFirst.1.trans hSecond).trans (tended_push hSecond.marked), fun q hq => ?_⟩
  rcases mem_paths_putChild hPut hq with hOld | hSame
  · exact (hFirst.2 q hOld).imp_right .inl
  · exact .inr (.inr hSame)

end Server

namespace GatewayMessage

mutual

/-- The commands that change nodes and their indices, but for removals without notices. -/
def editsIndices : GatewayMessage Msg → Bool
  | .answered | .setData .. | .insertOrderedData .. | .reorderData .. => true
  | .removeData _ quiet => !quiet
  | .batch messages => allEditIndices messages
  | _ => false

def allEditIndices : List (GatewayMessage Msg) → Bool
  | [] => true
  | message :: rest => editsIndices message && allEditIndices rest

end

end GatewayMessage

namespace IndexedServer

variable {st st' st'' : IndexedServer regex Msg} {self id key path : Str} {p q : Path}

/-! ### Commands -/

theorem kept_doGetData (h : st.Kept) (matcher : PathMatcher regex Msg) : (st.doGetData self matcher).Kept := by
  unfold doGetData
  split
  · have hTended : st.server.Tended (st.server.doGetData self matcher) :=
      Server.tended_updateMember h.marked fun _ => rfl
    have hGoes : Goes False st { st with server := st.server.doGetData self matcher } := goes_server h hTended
    exact hGoes.kept.of_same rfl rfl
  · exact h

theorem kept_adjusted (h : st.Kept) {server : Server regex Msg} (hAdjusted : st.server.Adjusted server) :
    ({ st with server := server } : IndexedServer regex Msg).Kept := by
  refine kept_server h hAdjusted.marked (fun q hq => hAdjusted.paths ▸ hq) fun k hk _ => ?_
  rw [hAdjusted.standing]
  exact hk

theorem kept_setParameters (hLiteral : regex.Literal) (h : st.Kept) {fields : List (Field Msg)}
    (hSet : st.setParameters self fields = some st') : st'.Kept := by
  unfold setParameters at hSet
  obtain ⟨server, hFields, rfl⟩ := Option.map_eq_some_iff.mp hSet
  have hServer := kept_adjusted h (Server.adjusted_setFields hLiteral h.marked hFields)
  dsimp only
  split
  · exact hServer
  · exact kept_doGetData hServer _

theorem kept_toFactory (h : st.Kept) (priv : Nat) : (st.toFactory self priv).Kept := by
  unfold toFactory
  split
  · exact h.of_same rfl rfl
  · exact h

mutual

theorem kept_messageReceived (hLiteral : regex.Literal) (message : GatewayMessage Msg)
    {st st' : IndexedServer regex Msg}
    (h : st.Kept) (hMessage : messageReceivedFromGateway self message st = some st') :
    st'.Kept ∧ (message.editsIndices = true → Goes True st st') := by
  unfold messageReceivedFromGateway at hMessage
  cases message with
  | answered =>
    cases hMessage
    exact ⟨h, fun _ => .refl h⟩
  | setData fields quiet =>
    obtain ⟨server, hFields, rfl⟩ := Option.map_eq_some_iff.mp hMessage
    have hGoes : Goes True st { st with server := server } :=
      goes_server h (Server.tended_setDataFields h.marked hFields)
    exact ⟨hGoes.kept, fun _ => hGoes⟩
  | removeData keys quiet =>
    have hGoes := goes_doRemoveData h hMessage
    exact ⟨hGoes.kept, fun hLoud => hGoes.of_imp fun _ => (Bool.not_eq_true' quiet).mp hLoud⟩
  | insertOrderedData keys fields made =>
    have hGoes : Goes True st st' := goes_insertOrderedData h hMessage
    exact ⟨hGoes.kept, fun _ => hGoes⟩
  | reorderData fields =>
    cases hMessage
    have hGoes : Goes True st (st.reorderData self fields) := goes_reorderData h fields
    exact ⟨hGoes.kept, fun _ => hGoes⟩
  | setParameters fields => exact ⟨kept_setParameters hLiteral h hMessage, fun hEdits => by cases hEdits⟩
  | removeParameters keys =>
    unfold removeParameters at hMessage
    obtain ⟨server, hRemove, rfl⟩ := Option.map_eq_some_iff.mp hMessage
    have hServer := kept_adjusted h (Server.adjusted_removeParameters hLiteral h.marked hRemove)
    exact ⟨hServer.of_same rfl rfl, fun hEdits => by cases hEdits⟩
  | getData keys =>
    cases hMessage
    exact ⟨kept_doGetData h _, fun hEdits => by cases hEdits⟩
  | kick keys =>
    cases hMessage
    refine ⟨?_, fun hEdits => by cases hEdits⟩
    split
    · exact h.of_same rfl rfl
    · exact h
  | addBans =>
    cases hMessage
    exact ⟨kept_toFactory h _, fun hEdits => by cases hEdits⟩
  | removeBans =>
    cases hMessage
    exact ⟨kept_toFactory h _, fun hEdits => by cases hEdits⟩
  | batch messages => exact kept_callMessagesReceived hLiteral messages h hMessage

theorem kept_callMessagesReceived (hLiteral : regex.Literal) (messages : List (GatewayMessage Msg))
    {st st' : IndexedServer regex Msg} (h : st.Kept) (hMessages : callMessagesReceived self messages st = some st') :
    st'.Kept ∧ (GatewayMessage.allEditIndices messages = true → Goes True st st') := by
  cases messages with
  | nil =>
    cases hMessages
    exact ⟨h, fun _ => .refl h⟩
  | cons message rest =>
    unfold callMessagesReceived at hMessages
    split at hMessages
    next t hFirst =>
      obtain ⟨ht, hGoes⟩ := kept_messageReceived hLiteral message h hFirst
      have hPush : Goes True t t.pushSubscriptionMessages := goes_push ht
      obtain ⟨hKept, hRest⟩ := kept_callMessagesReceived hLiteral rest hPush.kept hMessages
      refine ⟨hKept, fun hEdits => ?_⟩
      obtain ⟨hHere, hThere⟩ := (Bool.and_eq_true ..).mp hEdits
      exact ((hGoes hHere).trans hPush).trans (hRest hThere)
    next => cases hMessages

end

/-! ### Attaching and detaching -/

theorem kept_attach (h : st.Kept) (hHomes : st.server.Homes) {host : Str} {maxNodeCount privBits : Nat}
    (hAttach : st.attach host id maxNodeCount privBits = some st') : st'.Kept ∧ st'.server.Homes := by
  unfold attach at hAttach
  split at hAttach
  next =>
    cases hAttach
    exact ⟨h, hHomes⟩
  next hThere =>
    obtain ⟨server, hJoin, rfl⟩ := Option.map_eq_some_iff.mp hAttach
    have hNone : st.server.member? id = none := by simpa using hThere
    obtain ⟨hTended, hPaths⟩ := Server.tended_attach h.marked hHomes hNone hJoin
    have hStanding := standing_of_footing hTended.members
    rw [List.map_append] at hStanding
    refine ⟨(kept_server h hTended.marked hTended.paths fun k hk _ => ?_).of_same rfl rfl, fun host' id' hIn => ?_⟩
    · rw [hStanding]
      exact List.mem_append_left _ hk
    · have hMem : ∃ m : Member regex Msg, m.standing ∈ server.members.map Member.standing ∧ m.host = host' ∧
          m.session.id = id' := by
        rw [hStanding]
        rcases hPaths _ hIn with hOld | hSame | hSame
        · obtain ⟨m, hm, hOwn⟩ := hHomes host' id' hOld
          exact ⟨m, List.mem_append_left _ (List.mem_map_of_mem hm), hOwn⟩
        · cases hSame
        · cases hSame
          exact ⟨_, List.mem_append_right _ (List.mem_singleton.mpr rfl), rfl, rfl⟩
      obtain ⟨m, hm, rfl, rfl⟩ := hMem
      obtain ⟨m', hm', hSame⟩ := List.mem_map.mp hm
      exact ⟨m', hm', congrArg Prod.fst hSame, congrArg (fun k => k.2.1) hSame⟩

/-- The nodes of the session go. -/
theorem goes_cleanupNodes (h : st.Kept) {m : Member regex Msg} (hCleanup : st.cleanupNodes m = some st') :
    Goes True st st' ∧ (∀ q ∈ st'.server.db.paths, q ∈ st.server.db.paths ∧ ¬m.sessionDir <+: q) ∧
      st'.nextIndexUpdates = if st.server.db.hasChild [] m.host then [] else st.nextIndexUpdates := by
  unfold cleanupNodes at hCleanup
  split at hCleanup
  next hHost =>
    obtain ⟨t, hBoth, rfl⟩ := Option.map_eq_some_iff.mp hCleanup
    obtain ⟨u, hSession, hLast⟩ := Option.bind_eq_some_iff.mp hBoth
    obtain ⟨hGone, hPaths⟩ := goes_removeChild h hSession
    have hBelow : ∀ q ∈ u.server.db.paths, q ∈ st.server.db.paths ∧ ¬m.sessionDir <+: q := by
      intro q hq
      rw [hPaths, List.mem_filter] at hq
      exact hq.imp_right of_decide_eq_true
    have ht : Goes True st t ∧ ∀ q ∈ t.server.db.paths, q ∈ u.server.db.paths := by
      split at hLast
      · obtain ⟨hHostGone, hHostPaths⟩ := goes_removeChild hGone.kept hLast
        refine ⟨(hGone.of_imp fun _ => rfl).trans (hHostGone.of_imp fun _ => rfl), fun q hq => ?_⟩
        rw [hHostPaths, List.mem_filter] at hq
        exact hq.1
      · cases hLast
        exact ⟨hGone.of_imp fun _ => rfl, fun _ hq => hq⟩
    rw [if_pos hHost]
    exact ⟨ht.1.trans (goes_push ht.1.kept), fun q hq => hBelow q (ht.2 q hq), rfl⟩
  next hHost =>
    cases hCleanup
    rw [if_neg hHost]
    refine ⟨.refl h, fun q hq => ⟨hq, fun hBelow => hHost ?_⟩, rfl⟩
    exact decide_eq_true (Database.prefix_mem ((List.prefix_append [m.host] [m.session.id]).trans hBelow) hq)

theorem kept_detach (hLiteral : regex.Literal) (h : st.Kept) (hHomes : st.server.Homes)
    (hDetach : st.detach id = some st') : st'.Kept ∧ st'.server.Homes ∧
      (st.nextIndexUpdates = [] → st'.nextIndexUpdates = []) := by
  unfold detach at hDetach
  split at hDetach
  next m hm =>
    obtain ⟨t, hNodes, rfl⟩ := Option.map_eq_some_iff.mp hDetach
    obtain ⟨hGoes, hPaths, hPending⟩ := goes_cleanupNodes h hNodes
    have hKept := hGoes.kept
    have hSettings : (t.server.member? id).map Member.settings = some m.settings := by
      rw [Server.member?_settings, hGoes.members, ← Server.member?_settings, hm]
      rfl
    have hMembers : (t.server.cleanupMarks m).members = t.server.members := by
      unfold Server.cleanupMarks
      split <;> rfl
    have hLeft : ∀ q, t.server.db.children [] ≠ [] →
        (q ∈ (t.server.cleanupMarks m).db.paths ↔ q ∈ t.server.db.paths) := by
      intro q hSome
      unfold Server.cleanupMarks
      rw [if_neg hSome]
      exact Server.paths_foldl_modify _ _ _ q
    -- what is left of the session's host and ID is nothing
    have hOther : ∀ k ∈ t.server.members, ∀ q ∈ t.server.db.paths, [k.host, k.session.id] <+: q →
        k ∈ (t.server.cleanupMarks m).members.filter fun m => !(m.session.id == id) := by
      intro k hk q hq hBelow
      rw [hMembers]
      refine List.mem_filter.mpr ⟨hk, (Bool.not_eq_true' _).mpr (beq_eq_false_iff_ne.mpr fun hSame => ?_)⟩
      have hFound := Server.member?_of_mem hKept.marked.ids hk
      rw [hSame] at hFound
      rw [hFound] at hSettings
      have hDir : [k.host, k.session.id] = m.sessionDir :=
        congrArg (fun k : Str × Str × _ => [k.1, k.2.1]) (Option.some.inj hSettings)
      exact (hPaths q hq).2 (hDir ▸ hBelow)
    refine ⟨⟨Server.marked_leave hLiteral hKept.marked hSettings, hKept.nodup, fun q key hKey => ?_, fun q hSome => ?_⟩,
      fun host id' hIn => ?_, fun hNone => ?_⟩
    · obtain ⟨hName, hChild⟩ := hKept.children q key hKey
      refine ⟨hName, (hLeft _ fun hEmpty => ?_).mpr hChild⟩
      cases hPath : q ++ [key] with
      | nil => simp at hPath
      | cons first rest =>
        rw [hPath] at hChild
        have hFirst := Database.mem_children.mpr
          (Database.prefix_mem (List.prefix_append [first] rest) hChild : [] ++ [first] ∈ t.server.db.paths)
        rw [hEmpty] at hFirst
        cases hFirst
    · obtain ⟨k, hk, hBelow, hPresent⟩ := hKept.present q hSome
      obtain ⟨m', hm', rfl⟩ := List.mem_map.mp hk
      obtain ⟨key, hKey⟩ := List.exists_mem_of_ne_nil _ hSome
      exact ⟨_, List.mem_map_of_mem (hOther m' hm' q (mem_of_index hKept hKey) hBelow), hBelow, hPresent⟩
    · have hThere : [host, id'] ∈ t.server.db.paths := by
        by_cases hEmpty : t.server.db.children [] = []
        · have hRoot : (t.server.cleanupMarks m).db = .root t.server.blankMessage := by
            unfold Server.cleanupMarks
            rw [if_pos hEmpty]
          have hIn' : [host, id'] ∈ (t.server.cleanupMarks m).db.paths := hIn
          rw [hRoot] at hIn'
          cases List.mem_singleton.mp hIn'
        · exact (hLeft _ hEmpty).mp hIn
      obtain ⟨k, hk, rfl, rfl⟩ := hHomes host id' (hPaths _ hThere).1
      have hMem : k.settings ∈ t.server.members.map Member.settings := hGoes.members ▸ List.mem_map_of_mem hk
      obtain ⟨k', hk', hSame⟩ := List.mem_map.mp hMem
      have hHost : k'.host = k.host := congrArg Prod.fst hSame
      have hId : k'.session.id = k.session.id := congrArg (fun k => k.2.1) hSame
      have hDir : [k'.host, k'.session.id] = [k.host, k.session.id] := by rw [hHost, hId]
      exact ⟨k', hOther k' hk' _ hThere (hDir ▸ List.prefix_refl _), hHost, hId⟩
    · show t.nextIndexUpdates = []
      rw [hPending, hNone]
      exact ite_self _
  next =>
    cases hDetach
    exact ⟨h, hHomes, fun hNone => hNone⟩

/-! ### Runs -/

/-- What holds between the events: the indices are right, and nothing waits to be sent. -/
structure Settled (st : IndexedServer regex Msg) : Prop where
  kept : st.Kept
  sound : st.Sound
  homes : st.server.Homes
  pending : st.nextIndexUpdates = []

theorem pending_callMessagesReceived {messages : List (GatewayMessage Msg)} (hPending : st.nextIndexUpdates = [])
    (h : callMessagesReceived self messages st = some st') : st'.nextIndexUpdates = [] := by
  induction messages generalizing st with
  | nil =>
    cases h
    exact hPending
  | cons message rest ih =>
    unfold callMessagesReceived at h
    split at h
    · exact ih rfl h
    · cases h

theorem settled_received (hLiteral : regex.Literal) (h : st.Settled) {message : GatewayMessage Msg}
    (hStep : st.step (.received self message) = some st') :
    st'.Settled ∧ (message.editsIndices = true → Goes True st st') := by
  have hSound := (keeps_step h.sound hStep).sound
  unfold step at hStep
  dsimp only at hStep
  split at hStep
  next hThere =>
    obtain ⟨m, hm⟩ := Option.isSome_iff_exists.mp hThere
    obtain ⟨hKept, hGoes⟩ := kept_callMessagesReceived hLiteral [message] h.kept hStep
    have hIsolates := isolates_callMessagesReceived [message] (home_of_member h.sound hm) hStep
    refine ⟨⟨hKept, hSound, fun host id hIn => ?_, pending_callMessagesReceived h.pending hStep⟩, fun hEdits =>
      hGoes ?_⟩
    · have hOld := (hIsolates.server.paths _ (outside_of_shallow rfl (Nat.le_refl [host, id].length))).mp hIn
      obtain ⟨m₀, hm₀, hHost, hId⟩ := h.homes host id hOld
      have hGuise : Member.guise self m₀ ∈ st'.server.members.map (Member.guise self) :=
        hIsolates.server.members ▸ List.mem_map_of_mem hm₀
      obtain ⟨m₁, hm₁, hSame⟩ := List.mem_map.mp hGuise
      exact ⟨m₁, hm₁, (congrArg Prod.fst hSame).trans hHost, (congrArg (fun k => k.2.1) hSame).trans hId⟩
    · exact (Bool.and_eq_true ..).mpr ⟨hEdits, rfl⟩
  next =>
    cases hStep
    exact ⟨h, fun _ => .refl h.kept⟩

theorem settled_step (hLiteral : regex.Literal) (h : st.Settled) {event : GatewayEvent Msg}
    (hStep : st.step event = some st') : st'.Settled := by
  have hSound := (keeps_step h.sound hStep).sound
  cases event with
  | attach host id maxNodeCount privBits =>
    obtain ⟨hKept, hHomes⟩ := kept_attach h.kept h.homes hStep
    refine ⟨hKept, hSound, hHomes, ?_⟩
    have hAttach : st.attach host id maxNodeCount privBits = some st' := hStep
    unfold attach at hAttach
    split at hAttach
    · cases hAttach
      exact h.pending
    · obtain ⟨server, -, rfl⟩ := Option.map_eq_some_iff.mp hAttach
      exact h.pending
  | detach id =>
    obtain ⟨hKept, hHomes, hPending⟩ := kept_detach hLiteral h.kept h.homes hStep
    exact ⟨hKept, hSound, hHomes, hPending h.pending⟩
  | received id message => exact (settled_received hLiteral h hStep).1

theorem settled_start (blankMessage : Msg) : (start regex blankMessage).Settled where
  kept := ⟨Server.marked_start blankMessage, fun _ => List.nodup_nil, fun _ _ hKey => absurd hKey List.not_mem_nil,
    fun _ hSome => absurd rfl hSome⟩
  sound := sound_start regex blankMessage
  homes := fun host id hIn => by cases List.mem_singleton.mp hIn
  pending := rfl

theorem settled_run (hLiteral : regex.Literal) (h : st.Settled) {events : List (GatewayEvent Msg)}
    (hRun : st.run events = some st') : st'.Settled :=
  Lib.foldlM_keeps (P := Settled) hRun (fun _ _ _ _ ht hStep => settled_step hLiteral ht hStep) h

end IndexedServer

end BeShare.Muscle.Reflect
