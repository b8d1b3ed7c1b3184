import BeShare.Reflect.MarkRuns
import BeShare.Reflect.Quota

/-!
What the commands on nodes leave of the sessions, and that nodes stay where they are not removed.
-/

namespace BeShare.Muscle.Reflect

variable {regex : Regex} {Msg : Type}

/-- What a member is apart from its messages and its count of nodes, with whether it has indices. -/
def Member.footing (m : Member regex Msg) :
    (Str × Str × PathMatcher regex Msg × List Str × Bool × Bool × UInt32) × Bool :=
  (m.settings, m.indexingPresent)

namespace Server

variable {srv srv' srv'' : Server regex Msg} {self id : Str} {p q : Path}

theorem footing_push (srv : Server regex Msg) :
    srv.pushSubscriptionMessages.members.map Member.footing = srv.members.map Member.footing := by
  unfold pushSubscriptionMessages
  rw [List.map_map]
  refine List.map_congr_left fun m _ => ?_
  show ((m.host, m.session.push.settings), m.indexingPresent) = m.footing
  rw [Session.settings_push]
  rfl

theorem footing_updateMember {f : Member regex Msg → Member regex Msg}
    (hf : ∀ m ∈ srv.members, m.session.id = id → (f m).footing = m.footing) :
    (srv.updateMember id f).members.map Member.footing = srv.members.map Member.footing := by
  unfold updateMember
  rw [List.map_map]
  refine List.map_congr_left fun m hm => ?_
  show (if m.session.id = id then f m else m).footing = m.footing
  split
  next h => exact hf m hm h
  next => rfl

theorem footing_deliver (hIds : srv.IdsNodup) {change : Session regex Msg → Option (Session regex Msg × Bool)}
    (hChange : ∀ s s' pushed, change s = some (s', pushed) → s'.settings = s.settings)
    (h : srv.deliver id change = some srv') : srv'.members.map Member.footing = srv.members.map Member.footing := by
  unfold deliver at h
  split at h
  next m hm =>
    split at h
    next s pushed hs =>
      have hUpdate : (srv.updateMember id fun m => { m with session := s }).members.map Member.footing =
          srv.members.map Member.footing := by
        refine footing_updateMember fun m' hm' hId => ?_
        have hFound := member?_of_mem hIds hm'
        rw [hId, hm] at hFound
        cases hFound
        show ((m.host, s.settings), m.indexingPresent) = m.footing
        rw [hChange _ _ _ hs]
        rfl
      cases h
      split
      · exact (footing_push _).trans hUpdate
      · exact hUpdate
    next => cases h
  next =>
    cases h
    rfl

theorem footing_notify (hIds : srv.IdsNodup) {oldData : Option Msg} {isBeingRemoved : Bool}
    (h : srv.notifySubscribersThatNodeChanged self p oldData isBeingRemoved = some srv') :
    srv'.members.map Member.footing = srv.members.map Member.footing := by
  unfold notifySubscribersThatNodeChanged at h
  refine (Lib.foldlM_keeps (P := fun t : Server regex Msg =>
    t.members.map Member.footing = srv.members.map Member.footing ∧ t.IdsNodup) h ?_ ⟨rfl, hIds⟩).1
  intro next _ t t' ht hStep
  split at hStep
  · have hFooting := footing_deliver ht.2 (fun s s' pushed => Session.settings_nodeChanged) hStep
    have hSimilar := similar_deliver ht.2 (fun s s' pushed => Session.settings_nodeChanged) hStep
    exact ⟨hFooting.trans ht.1, hSimilar.idsNodup ht.2⟩
  · cases hStep
    exact ht

/-! ### Nodes that are made and changed -/

/-- The marks are right, the sessions are the same, and no node has gone. -/
structure Tended (srv srv' : Server regex Msg) : Prop where
  marked : srv'.Marked
  members : srv'.members.map Member.footing = srv.members.map Member.footing
  paths : ∀ q ∈ srv.db.paths, q ∈ srv'.db.paths

theorem Tended.refl (hMarked : srv.Marked) : Tended srv srv :=
  ⟨hMarked, rfl, fun _ hq => hq⟩

theorem Tended.trans (h : Tended srv srv') (h' : Tended srv' srv'') : Tended srv srv'' :=
  ⟨h'.marked, h'.members.trans h.members, fun q hq => h'.paths q (h.paths q hq)⟩

theorem tended_updateMember (hMarked : srv.Marked) {f : Member regex Msg → Member regex Msg}
    (hf : ∀ m, (f m).footing = m.footing) : Tended srv (srv.updateMember self f) :=
  ⟨(similar_updateMember fun m _ _ => congrArg Prod.fst (hf m)).marked hMarked,
    footing_updateMember fun m _ _ => hf m, fun _ hq => hq⟩

theorem tended_push (hMarked : srv.Marked) : Tended srv srv.pushSubscriptionMessages :=
  ⟨(similar_push srv).marked hMarked, footing_push srv, fun _ hq => hq⟩

theorem tended_putChild (hMarked : srv.Marked) {name : Str} {data : Msg} {notify : Bool}
    (hNew : p ++ [name] ∉ srv.db.paths) (h : srv.putChild self p name data notify = some srv') :
    Tended srv srv' ∧ (p ∈ srv.db.paths → p ++ [name] ∈ srv'.db.paths) := by
  have hMade := marked_putChild hMarked h
  by_cases hParent : p ∈ srv.db.paths
  · have hStart := marked_putChild hMarked (show srv.putChild self p name data false = some _ from rfl)
    have hPaths := (tallies_putChild hParent hNew h).1
    refine ⟨⟨hMade, ?_, fun q hq => hPaths ▸ List.mem_append_left _ hq⟩, fun _ => ?_⟩
    · unfold putChild at h
      dsimp only at h
      split at h
      · have hNotified := footing_notify hStart.ids h
        exact hNotified
      · cases h
        rfl
    · rw [hPaths]
      exact List.mem_append_right _ (List.mem_singleton.mpr rfl)
  · rw [putChild_of_no_parent hParent] at h
    cases h
    exact ⟨.refl hMarked, fun hIn => absurd hIn hParent⟩

theorem tended_setData (hMarked : srv.Marked) {data : Msg} {notify isBeingCreated : Bool}
    (h : srv.setData self p data notify isBeingCreated = some srv') : Tended srv srv' := by
  have hStart := marked_setData hMarked (show srv.setData self p data false isBeingCreated = some _ from rfl)
  refine ⟨marked_setData hMarked h, ?_, fun q hq => ?_⟩
  · unfold setData at h
    dsimp only at h
    split at h
    · have hNotified := footing_notify hStart.ids h
      exact hNotified
    · cases h
      rfl
  · rw [(tallies_setData h).paths]
    exact hq

theorem tended_setDataLoop (hMarked : srv.Marked) {data : Msg} {overwrite create quiet : Bool} {clauses : List Str}
    (h : setDataLoop self data overwrite create quiet p clauses srv = some srv') : Tended srv srv' := by
  induction clauses generalizing p srv with
  | nil =>
    cases h
    exact .refl hMarked
  | cons clause rest ih =>
    unfold setDataLoop at h
    split at h
    · split at h
      · split at h
        · exact tended_setData hMarked h
        · cases h
          exact .refl hMarked
      · exact ih hMarked h
    next hNot =>
      split at h
      · obtain ⟨t, hPut, hRest⟩ := Option.bind_eq_some_iff.mp h
        have hMade := (tended_putChild hMarked (fun hOld => hNot (decide_eq_true hOld)) hPut).1
        have hCounted : Tended srv (t.countNodes self (· + 1)) :=
          hMade.trans (tended_updateMember hMade.marked fun _ => rfl)
        dsimp only at hRest
        split at hRest
        · exact hCounted.trans (tended_setData hCounted.marked hRest)
        · exact hCounted.trans (ih hCounted.marked hRest)
      · cases h
        exact .refl hMarked

theorem tended_setDataNode (hMarked : srv.Marked) {nodePath : Str} {data : Msg} {overwrite create quiet : Bool}
    (h : srv.setDataNode self nodePath data overwrite create quiet = some srv') : Tended srv srv' := by
  unfold setDataNode at h
  split at h
  · split at h
    · cases h
      exact .refl hMarked
    · split at h
      · cases h
        exact .refl hMarked
      · exact tended_setDataLoop hMarked h
  · cases h
    exact .refl hMarked

theorem tended_setDataFields (hMarked : srv.Marked) {fields : List (Str × Msg)} {quiet : Bool}
    (h : fields.foldlM (fun (srv : Server regex Msg) field =>
      srv.setDataNode self field.1 field.2 true true quiet) srv =
      some srv') : Tended srv srv' :=
  Lib.foldlM_keeps (P := Tended srv) h (fun _ _ _ _ ht hStep => ht.trans (tended_setDataNode ht.marked hStep))
    (.refl hMarked)

/-! ### Nodes that are removed -/

/-- The marks are right, the sessions are the same, and one node has gone. -/
structure Lost (p : Path) (srv srv' : Server regex Msg) : Prop where
  marked : srv'.Marked
  members : srv'.members.map Member.footing = srv.members.map Member.footing
  paths : srv'.db.paths = srv.db.paths.filter fun q => decide (q ≠ p)

theorem lost_removeNode (hMarked : srv.Marked) {notify : Bool} (hLeaf : srv.db.children p = [])
    (h : removeNode self notify srv p = some srv') : Lost p srv srv' := by
  refine ⟨marked_removeNode hMarked h, ?_, (tallies_removeNode hLeaf h).1⟩
  unfold removeNode at h
  obtain ⟨t, hNotify, rfl⟩ := Option.map_eq_some_iff.mp h
  split at hNotify
  · have hNotified := footing_notify hMarked.ids hNotify
    exact hNotified
  · cases hNotify
    rfl

end Server

end BeShare.Muscle.Reflect
