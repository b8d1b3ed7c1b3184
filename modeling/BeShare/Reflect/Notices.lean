import BeShare.Reflect.Server
import BeShare.Lib.Runs

/-!
What notices leave as it was: the tree, and of the sessions all but the messages that are under way to the clients.
-/

namespace BeShare.Muscle.Reflect

variable {regex : Regex} {Msg : Type}

namespace Session

variable {s s' : Session regex Msg} {pushed : Bool}

/-- All of a session but the messages to its client. -/
def settings (s : Session regex Msg) : Str × PathMatcher regex Msg × List Str × Bool × Bool × UInt32 :=
  (s.id, s.subscriptions, s.parameters, s.reflectToSelf, s.subscriptionsEnabled, s.maxSubscriptionMessageItems)

@[simp] theorem settings_push : s.push.settings = s.settings := by
  unfold push
  split <;> rfl

theorem settings_pushIfFull (h : s.pushIfFull = some (s', pushed)) : s'.settings = s.settings := by
  unfold pushIfFull at h
  split at h
  · split at h <;> cases h
    · exact settings_push
    · rfl
  · cases h

theorem settings_nodeChangedAux {np : Path} {data : Option Msg} {isBeingRemoved : Bool}
    (h : s.nodeChangedAux np data isBeingRemoved = some (s', pushed)) : s'.settings = s.settings := by
  unfold nodeChangedAux at h
  dsimp only at h
  split at h
  · split at h
    · split at h
      · rename_i between pushedBefore hFirst
        obtain ⟨last, hLast, hResult⟩ := Option.map_eq_some_iff.mp h
        cases hResult
        have hBetween : between.settings = s.push.settings := (settings_pushIfFull hFirst).trans rfl
        exact (settings_pushIfFull hLast).trans (hBetween.trans settings_push)
      · cases h
    · exact (settings_pushIfFull h).trans rfl
  · exact (settings_pushIfFull h).trans rfl

theorem settings_nodeChanged {np : Path} {oldData data : Option Msg} {isBeingRemoved : Bool}
    (h : s.nodeChanged np oldData data isBeingRemoved = some (s', pushed)) : s'.settings = s.settings := by
  unfold nodeChanged at h
  split at h
  · split at h
    · exact settings_nodeChangedAux h
    · cases h
      rfl
  · cases h
    rfl

end Session

/-- What a member is apart from its messages and its count of nodes. -/
def Member.settings (m : Member regex Msg) : Str × Str × PathMatcher regex Msg × List Str × Bool × Bool × UInt32 :=
  (m.host, m.session.settings)

namespace Server

variable {srv srv' srv'' : Server regex Msg} {self id : Str} {p : Path}

/-- Two servers with the same tree and the same sessions, but for the messages that are under way. -/
structure Similar (srv srv' : Server regex Msg) : Prop where
  db : srv'.db = srv.db
  members : srv'.members.map Member.settings = srv.members.map Member.settings
  blankMessage : srv'.blankMessage = srv.blankMessage

theorem Similar.refl (srv : Server regex Msg) : Similar srv srv :=
  ⟨rfl, rfl, rfl⟩

theorem Similar.trans (h : Similar srv srv') (h' : Similar srv' srv'') : Similar srv srv'' :=
  ⟨h'.db.trans h.db, h'.members.trans h.members, h'.blankMessage.trans h.blankMessage⟩

theorem similar_push (srv : Server regex Msg) : Similar srv srv.pushSubscriptionMessages := by
  refine ⟨rfl, ?_, rfl⟩
  unfold pushSubscriptionMessages
  dsimp only
  rw [List.map_map]
  refine List.map_congr_left fun m _ => ?_
  show (m.host, m.session.push.settings) = _
  rw [Session.settings_push]
  rfl

theorem similar_updateMember {f : Member regex Msg → Member regex Msg}
    (hf : ∀ m ∈ srv.members, m.session.id = id → (f m).settings = m.settings) :
    Similar srv (srv.updateMember id f) := by
  refine ⟨rfl, ?_, rfl⟩
  unfold updateMember
  dsimp only
  rw [List.map_map]
  refine List.map_congr_left fun m hm => ?_
  show (if m.session.id = id then f m else m).settings = m.settings
  split
  · exact hf m hm ‹_›
  · rfl

/-- No two sessions have one ID. -/
def IdsNodup (srv : Server regex Msg) : Prop :=
  (srv.members.map fun m => m.session.id).Nodup

theorem member?_mem {m : Member regex Msg} (h : srv.member? id = some m) : m ∈ srv.members ∧ m.session.id = id := by
  unfold member? at h
  refine ⟨List.mem_of_find?_eq_some h, ?_⟩
  simpa using List.find?_some h

theorem member?_of_mem (hIds : srv.IdsNodup) {m : Member regex Msg} (h : m ∈ srv.members) :
    srv.member? m.session.id = some m := by
  obtain ⟨found, hFound⟩ := Option.isSome_iff_exists.mp (List.find?_isSome (p := fun m' : Member regex Msg =>
    m'.session.id == m.session.id).mpr ⟨m, h, beq_self_eq_true _⟩)
  have hSame := @member?_mem regex Msg srv m.session.id found hFound
  obtain rfl := List.inj_on_of_nodup_map hIds hSame.1 h hSame.2
  exact hFound

theorem similar_deliver (hIds : srv.IdsNodup) {change : Session regex Msg → Option (Session regex Msg × Bool)}
    (hChange : ∀ s s' pushed, change s = some (s', pushed) → s'.settings = s.settings)
    (h : srv.deliver id change = some srv') : Similar srv srv' := by
  unfold deliver at h
  split at h
  · rename_i m hm
    split at h
    · rename_i s pushed hs
      have hUpdate : Similar srv (srv.updateMember id fun m => { m with session := s }) := by
        refine similar_updateMember fun m' hm' hId => ?_
        have hFound := member?_of_mem hIds hm'
        rw [hId, hm] at hFound
        cases hFound
        show (m.host, s.settings) = _
        rw [hChange _ _ _ hs]
        rfl
      cases h
      split
      · exact hUpdate.trans (similar_push _)
      · exact hUpdate
    · cases h
  · cases h
    exact .refl srv

theorem ids_of_settings {members members' : List (Member regex Msg)}
    (h : members'.map Member.settings = members.map Member.settings) :
    members'.map (fun m => m.session.id) = members.map fun m => m.session.id := by
  have hIds := congrArg (List.map fun k => k.2.1) h
  rw [List.map_map, List.map_map] at hIds
  exact hIds

theorem Similar.idsNodup (h : Similar srv srv') (hIds : srv.IdsNodup) : srv'.IdsNodup := by
  unfold IdsNodup
  rw [ids_of_settings h.members]
  exact hIds

theorem similar_notify (hIds : srv.IdsNodup) {oldData : Option Msg} {isBeingRemoved : Bool}
    (h : srv.notifySubscribersThatNodeChanged self p oldData isBeingRemoved = some srv') : Similar srv srv' := by
  unfold notifySubscribersThatNodeChanged at h
  refine (Lib.foldlM_keeps (P := fun t => Similar srv t ∧ t.IdsNodup) h ?_ ⟨.refl srv, hIds⟩).1
  intro next _ t t' ht hStep
  split at hStep
  · have hDeliver := similar_deliver ht.2 (fun s s' pushed => Session.settings_nodeChanged) hStep
    exact ⟨ht.1.trans hDeliver, hDeliver.idsNodup ht.2⟩
  · cases hStep
    exact ht

end Server

end BeShare.Muscle.Reflect
