import BeShare.Reflect.MirrorNodes

/-!
Every node has data: no operation makes a node without a Message, or takes one away from it.
-/

namespace BeShare.Muscle.Reflect

variable {regex : Regex} {Msg : Type}

namespace Database

variable {db : Database Msg} {p : Path}

def Filled (db : Database Msg) : Prop :=
  ∀ entry ∈ db.nodes, entry.2.data.isSome = true

theorem Filled.data (h : db.Filled) (hIn : p ∈ db.paths) : (db.data p).isSome = true := by
  obtain ⟨entry, hEntry, rfl⟩ := List.mem_map.mp hIn
  cases hFound : db.nodes.find? fun other => other.1 == entry.1 with
  | none => exact absurd (beq_self_eq_true entry.1) (List.find?_eq_none.mp hFound entry hEntry)
  | some other =>
    rw [Database.data, node?, hFound]
    exact h other (List.mem_of_find?_eq_some hFound)

theorem Filled.modify (h : db.Filled) {f : DataNode Msg → DataNode Msg}
    (hf : ∀ n, n.data.isSome = true → (f n).data.isSome = true) : (db.modify p f).Filled := by
  intro entry hEntry
  obtain ⟨old, hOld, rfl⟩ := List.mem_map.mp hEntry
  split
  · exact hf old.2 (h old hOld)
  · exact h old hOld

theorem Filled.foldl_modify (h : db.Filled) {f : DataNode Msg → DataNode Msg}
    (hf : ∀ n, n.data.isSome = true → (f n).data.isSome = true) (l : List Path) :
    (l.foldl (fun db p => db.modify p f) db).Filled := by
  induction l generalizing db with
  | nil => exact h
  | cons p l ih => exact ih (h.modify hf)

theorem Filled.dropBelow (h : db.Filled) : (db.dropBelow p).Filled :=
  fun entry hEntry => h entry (List.mem_filter.mp hEntry).1

theorem Filled.putChild (h : db.Filled) {name : Str} {child : DataNode Msg} (hChild : child.data.isSome = true) :
    (db.putChild p name child).Filled := by
  unfold Database.putChild
  split
  · split
    · intro entry hEntry
      rcases List.mem_append.mp hEntry with hOld | hNew
      · exact h entry hOld
      · rw [List.mem_singleton.mp hNew]
        exact hChild
    · exact h.dropBelow.modify fun _ _ => hChild
  · exact h

theorem Filled.dropNode (h : db.Filled) : (db.dropNode p).Filled := by
  unfold Database.dropNode
  split
  · exact fun entry hEntry => h entry (List.mem_filter.mp hEntry).1
  · exact h

theorem filled_root (data : Msg) : (Database.root data).Filled := by
  intro entry hEntry
  rw [List.mem_singleton.mp hEntry]
  rfl

end Database

namespace Server

variable {srv srv' : Server regex Msg} {self id : Str} {p : Path}

theorem db_deliver {change : Session regex Msg → Option (Session regex Msg × Bool)}
    (h : srv.deliver id change = some srv') : srv'.db = srv.db := by
  unfold deliver at h
  split at h
  · split at h
    · cases h
      split <;> rfl
    · cases h
  · cases h
    rfl

theorem db_notify {oldData : Option Msg} {isBeingRemoved : Bool}
    (h : srv.notifySubscribersThatNodeChanged self p oldData isBeingRemoved = some srv') : srv'.db = srv.db := by
  unfold notifySubscribersThatNodeChanged at h
  refine Lib.foldlM_keeps (P := fun t : Server regex Msg => t.db = srv.db) h (fun next _ t t' ht hStep => ?_) rfl
  split at hStep
  · exact (db_deliver hStep).trans ht
  · cases hStep
    exact ht

/-! ### The commands -/

theorem filled_putChild (h : srv.db.Filled) {name : Str} {data : Msg} {notify : Bool}
    (hPut : srv.putChild self p name data notify = some srv') : srv'.db.Filled := by
  have hMade : (srv.db.putChild p name (srv.newNode (p ++ [name]) data)).Filled :=
    h.putChild (by rw [data_newNode]; rfl)
  unfold putChild at hPut
  dsimp only at hPut
  split at hPut
  · rw [db_notify hPut]
    exact hMade
  · cases hPut
    exact hMade

theorem filled_setData (h : srv.db.Filled) {data : Msg} {notify isBeingCreated : Bool}
    (hSet : srv.setData self p data notify isBeingCreated = some srv') : srv'.db.Filled := by
  have hMade : (srv.db.modify p fun n => { n with data := some data }).Filled := h.modify fun _ _ => rfl
  unfold setData at hSet
  dsimp only at hSet
  split at hSet
  · rw [db_notify hSet]
    exact hMade
  · cases hSet
    exact hMade

theorem filled_removeChild (h : srv.db.Filled) {notify : Bool} (hRemove : srv.removeChild self p notify = some srv') :
    srv'.db.Filled := by
  unfold removeChild at hRemove
  split at hRemove
  · refine Lib.foldlM_keeps (P := fun t : Server regex Msg => t.db.Filled) hRemove (fun q _ t t' ht hStep => ?_) h
    obtain ⟨u, hNotified, rfl⟩ := Option.map_eq_some_iff.mp hStep
    refine Database.Filled.dropNode ?_
    split at hNotified
    · rw [db_notify hNotified]
      exact ht
    · cases hNotified
      exact ht
  · cases hRemove
    exact h

theorem filled_setDataLoop (h : srv.db.Filled) {data : Msg} {overwrite create quiet : Bool} {clauses : List Str}
    (hSet : setDataLoop self data overwrite create quiet p clauses srv = some srv') : srv'.db.Filled := by
  induction clauses generalizing p srv with
  | nil =>
    cases hSet
    exact h
  | cons clause rest ih =>
    unfold setDataLoop at hSet
    split at hSet
    · split at hSet
      · split at hSet
        · exact filled_setData h hSet
        · cases hSet
          exact h
      · exact ih h hSet
    · split at hSet
      · obtain ⟨t, hPut, hRest⟩ := Option.bind_eq_some_iff.mp hSet
        have hMade := filled_putChild h hPut
        have ht : (t.countNodes self (· + 1)).db.Filled := hMade
        dsimp only at hRest
        split at hRest
        · exact filled_setData ht hRest
        · exact ih ht hRest
      · cases hSet
        exact h

theorem filled_setDataNode (h : srv.db.Filled) {nodePath : Str} {data : Msg} {overwrite create quiet : Bool}
    (hSet : srv.setDataNode self nodePath data overwrite create quiet = some srv') : srv'.db.Filled := by
  unfold setDataNode at hSet
  split at hSet
  · split at hSet
    · cases hSet
      exact h
    · split at hSet
      · cases hSet
        exact h
      · exact filled_setDataLoop h hSet
  · cases hSet
    exact h

theorem filled_doRemoveData (h : srv.db.Filled) {matcher : PathMatcher regex Msg} {quiet : Bool}
    (hRemove : srv.doRemoveData self matcher quiet = some srv') : srv'.db.Filled := by
  unfold doRemoveData at hRemove
  split at hRemove
  · refine Lib.foldlM_keeps (P := fun t : Server regex Msg => t.db.Filled) hRemove (fun q _ t t' ht hStep => ?_) h
    unfold removeDataStep at hStep
    split at hStep
    · obtain ⟨u, hChild, rfl⟩ := Option.map_eq_some_iff.mp hStep
      have hu := filled_removeChild ht hChild
      exact hu
    · cases hStep
      exact ht
  · cases hRemove
    exact h

theorem filled_insertOrderedData (h : srv.db.Filled) {insertions : List (Path × Str × Msg)}
    (hInsert : srv.insertOrderedData self insertions = some srv') : srv'.db.Filled := by
  unfold insertOrderedData at hInsert
  split at hInsert
  · refine Lib.foldlM_keeps (P := fun t : Server regex Msg => t.db.Filled) hInsert (fun q _ t t' ht hStep => ?_) h
    unfold insertOrderedStep at hStep
    split at hStep
    · obtain ⟨u, hPut, rfl⟩ := Option.map_eq_some_iff.mp hStep
      have hu := filled_putChild ht hPut
      exact hu
    · cases hStep
      exact ht
  · cases hInsert
    exact h

theorem filled_parameterStep (h : srv.db.Filled) {change : Session regex Msg → Session regex Msg × Option (Effect Msg)}
    (hStep : srv.parameterStep self change = some srv') : srv'.db.Filled := by
  unfold parameterStep at hStep
  split at hStep
  · dsimp only at hStep
    split at hStep
    · unfold applyEffect at hStep
      split at hStep
      · split at hStep
        · cases hStep
          refine Database.Filled.foldl_modify h (fun n hn => ?_) _
          rwa [DataNode.data_increment]
        · cases hStep
          exact h
      · exact Lib.foldlM_keeps (P := fun t : Server regex Msg => t.db.Filled) hStep
          (fun _ _ t t' ht hOne => by rw [db_deliver hOne]; exact ht) h
    · cases hStep
      exact h
  · cases hStep
    exact h

theorem filled_setParameters (h : srv.db.Filled) {fields : List (Field Msg)}
    (hSet : srv.setParameters self fields = some srv') : srv'.db.Filled := by
  unfold setParameters at hSet
  obtain ⟨t, hFields, rfl⟩ := Option.map_eq_some_iff.mp hSet
  have ht : t.db.Filled := Lib.foldlM_keeps (P := fun t : Server regex Msg => t.db.Filled) hFields
    (fun _ _ _ _ ht hStep => filled_parameterStep ht hStep) h
  split <;> exact ht

theorem filled_removeParameters (h : srv.db.Filled) {keys : List Str}
    (hRemove : srv.removeParameters self keys = some srv') : srv'.db.Filled := by
  unfold removeParameters at hRemove
  split at hRemove
  · exact Lib.foldlM_keeps (P := fun t : Server regex Msg => t.db.Filled) hRemove
      (fun _ _ _ _ ht hStep => filled_parameterStep ht hStep) h
  · cases hRemove
    exact h

mutual

theorem filled_messageReceived (message : ClientMessage Msg) {srv srv' : Server regex Msg} (h : srv.db.Filled)
    (hMessage : messageReceivedFromGateway self message srv = some srv') : srv'.db.Filled := by
  unfold messageReceivedFromGateway at hMessage
  cases message with
  | setData fields quiet =>
    exact Lib.foldlM_keeps (P := fun t : Server regex Msg => t.db.Filled) hMessage
      (fun _ _ _ _ ht hStep => filled_setDataNode ht hStep) h
  | removeData keys quiet => exact filled_doRemoveData h hMessage
  | insertOrderedData insertions => exact filled_insertOrderedData h hMessage
  | setParameters fields => exact filled_setParameters h hMessage
  | removeParameters keys => exact filled_removeParameters h hMessage
  | getData keys =>
    cases hMessage
    exact h
  | batch messages => exact filled_callMessagesReceived messages h hMessage

theorem filled_callMessagesReceived (messages : List (ClientMessage Msg)) {srv srv' : Server regex Msg}
    (h : srv.db.Filled) (hMessages : callMessagesReceived self messages srv = some srv') : srv'.db.Filled := by
  cases messages with
  | nil =>
    cases hMessages
    exact h
  | cons message rest =>
    unfold callMessagesReceived at hMessages
    split at hMessages
    next t hFirst =>
      have hPushed : t.pushSubscriptionMessages.db.Filled := by
        have ht := filled_messageReceived message h hFirst
        exact ht
      exact filled_callMessagesReceived rest hPushed hMessages
    next => cases hMessages

end

/-! ### Runs -/

theorem filled_attach (h : srv.db.Filled) {host : Str} {maxNodeCount : Nat}
    (hAttach : srv.attach host id maxNodeCount = some srv') : srv'.db.Filled := by
  unfold attach at hAttach
  split at hAttach
  · cases hAttach
    exact h
  · obtain ⟨t, hHost, hDir⟩ := Option.bind_eq_some_iff.mp hAttach
    obtain ⟨u, hPut, rfl⟩ := Option.map_eq_some_iff.mp hDir
    have ht : t.db.Filled := by
      split at hHost
      · cases hHost
        exact h
      · have hJoined := @filled_putChild regex Msg ⟨srv.members ++ [Member.new regex Msg host id maxNodeCount], srv.db,
          srv.blankMessage⟩
        exact hJoined h hHost
    have hu := filled_putChild ht hPut
    exact hu

theorem filled_detach (h : srv.db.Filled) (hDetach : srv.detach id = some srv') : srv'.db.Filled := by
  unfold detach at hDetach
  split at hDetach
  next m hm =>
    obtain ⟨t, hNodes, rfl⟩ := Option.map_eq_some_iff.mp hDetach
    have ht : t.db.Filled := by
      unfold cleanupNodes at hNodes
      split at hNodes
      · obtain ⟨u, hGone, rfl⟩ := Option.map_eq_some_iff.mp hNodes
        obtain ⟨v, hSession, hHost⟩ := Option.bind_eq_some_iff.mp hGone
        have hv := filled_removeChild h hSession
        have hu : u.db.Filled := by
          split at hHost
          · exact filled_removeChild hv hHost
          · cases hHost
            exact hv
        exact hu
      · cases hNodes
        exact h
    show (t.cleanupMarks m).db.Filled
    unfold cleanupMarks
    split
    · exact Database.filled_root _
    · refine Database.Filled.foldl_modify ht (fun n hn => ?_) _
      exact hn
  next =>
    cases hDetach
    exact h

theorem filled_run (blankMessage : Msg) {events : List (ServerEvent Msg)}
    (h : (start regex blankMessage).run events = some srv) : srv.db.Filled := by
  refine Lib.foldlM_keeps (P := fun t : Server regex Msg => t.db.Filled) h (fun event _ t t' ht hStep => ?_)
    (Database.filled_root blankMessage)
  cases event with
  | attach host id maxNodeCount => exact filled_attach ht hStep
  | detach id => exact filled_detach ht hStep
  | received id message =>
    unfold step at hStep
    dsimp only at hStep
    split at hStep
    · exact filled_callMessagesReceived [message] ht hStep
    · cases hStep
      exact ht

end Server

end BeShare.Muscle.Reflect
