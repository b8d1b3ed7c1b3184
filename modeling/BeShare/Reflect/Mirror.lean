import BeShare.Reflect.View
import BeShare.Reflect.MarkRuns

/-!
The clients' tables against the nodes of the other sessions: what one change of a node does to both.
-/

namespace BeShare.Muscle.Reflect

variable {regex : Regex} {Msg : Type}

/-- The node belongs to another session than the one with this ID. -/
def Others (id : Str) (q : Path) : Prop :=
  ∃ i, q[1]? = some i ∧ i ≠ id

/-- The node belongs to no other session: it is the session's own, or above the sessions. -/
def OwnedBy (self : Str) (p : Path) : Prop :=
  ∀ i, p[1]? = some i → i = self

namespace Session

variable {s s' : Session regex Msg}

/-- What the subscriptions of a session have to be like for its client to be told right. -/
structure Good (s : Session regex Msg) : Prop where
  enabled : s.subscriptionsEnabled = true
  counted : s.subscriptions.FiltersCounted
  pending : s.PendingNodup

/-- The client knows of the other sessions' nodes what it is to know. -/
def Mirrors (db : Database Msg) (s : Session regex Msg) : Prop :=
  ∀ q, Others s.id q → s.view q = shownData s.subscriptions q (db.data q)

theorem id_of_settings (h : s'.settings = s.settings) : s'.id = s.id :=
  congrArg Prod.fst h

theorem Good.of_settings (hGood : s.Good) (h : s'.settings = s.settings) (hPending : s'.PendingNodup) : s'.Good where
  enabled := (enabled_of_settings h).trans hGood.enabled
  counted := by
    rw [subscriptions_of_settings h]
    exact hGood.counted
  pending := hPending

theorem good_push (hGood : s.Good) : s.push.Good :=
  hGood.of_settings settings_push (pendingNodup_push s)

/-- A node that the subscriptions do not mark is not shown. -/
theorem shownData_unmarked {m : PathMatcher regex Msg} {p : Path} (h : m.markCount p = 0) (data : Option Msg) :
    shownData m p data = none := by
  cases data with
  | none => rfl
  | some data =>
    refine if_neg fun hMatches => ?_
    obtain ⟨entry, hEntry, hEntryMatches⟩ :=
      List.any_eq_true.mp (PathMatcher.matchesNode_none_of_matchesNode hMatches)
    exact List.countP_eq_zero.mp h entry hEntry hEntryMatches

end Session

namespace Server

variable {srv srv' : Server regex Msg} {self id : Str} {p q : Path} {oldData : Option Msg} {isBeingRemoved : Bool}

def sessions (srv : Server regex Msg) : List (Session regex Msg) :=
  srv.members.map fun m => m.session

theorem mem_sessions {s : Session regex Msg} : s ∈ srv.sessions ↔ ∃ m ∈ srv.members, m.session = s :=
  List.mem_map

/-! ### Notices -/

/-- A delivery changes one session, and may push all messages. -/
theorem sessions_deliver (hIds : srv.IdsNodup) {change : Session regex Msg → Option (Session regex Msg × Bool)}
    (h : srv.deliver id change = some srv') {s' : Session regex Msg} (hs' : s' ∈ srv'.sessions) :
    ∃ s ∈ srv.sessions, ∃ t, (s.id ≠ id ∧ t = s ∨ s.id = id ∧ ∃ pushed, change s = some (t, pushed)) ∧
      (s' = t ∨ s' = t.push) := by
  unfold deliver at h
  split at h
  · rename_i m hm
    split at h
    · rename_i t pushed ht
      have hUpdate : ∀ s ∈ (srv.updateMember id fun m => { m with session := t }).sessions, ∃ s₀ ∈ srv.sessions,
          s₀.id ≠ id ∧ s = s₀ ∨ s₀.id = id ∧ ∃ pushed, change s₀ = some (s, pushed) := by
        intro s hs
        obtain ⟨m', hm', rfl⟩ := mem_sessions.mp hs
        obtain ⟨m₀, hm₀, rfl⟩ := List.mem_map.mp hm'
        refine ⟨m₀.session, mem_sessions.mpr ⟨m₀, hm₀, rfl⟩, ?_⟩
        by_cases hId : m₀.session.id = id
        · have hFound := member?_of_mem hIds hm₀
          rw [hId, hm] at hFound
          cases hFound
          rw [if_pos hId]
          exact .inr ⟨hId, pushed, ht⟩
        · rw [if_neg hId]
          exact .inl ⟨hId, rfl⟩
      cases h
      split at hs'
      · obtain ⟨m', hm', rfl⟩ := mem_sessions.mp hs'
        obtain ⟨m₁, hm₁, rfl⟩ := List.mem_map.mp hm'
        obtain ⟨s, hs, hChange⟩ := hUpdate m₁.session (mem_sessions.mpr ⟨m₁, hm₁, rfl⟩)
        exact ⟨s, hs, m₁.session, hChange, .inr rfl⟩
      · obtain ⟨s, hs, hChange⟩ := hUpdate s' hs'
        exact ⟨s, hs, s', hChange, .inl rfl⟩
    · cases h
  · rename_i hNone
    cases h
    refine ⟨s', hs', s', .inl ⟨?_, rfl⟩, .inl rfl⟩
    obtain ⟨m, hm, rfl⟩ := mem_sessions.mp hs'
    rintro rfl
    rw [member?_of_mem hIds hm] at hNone
    cases hNone

/-- What one session has heard when the sessions with these IDs have been told of the node. -/
def Heard (self : Str) (p : Path) (oldData data : Option Msg) (isBeingRemoved : Bool) (told : List Str)
    (s s' : Session regex Msg) : Prop :=
  s'.Good ∧ s'.settings = s.settings ∧ (∀ q, q ≠ p → s'.view q = s.view q) ∧
    (s.id ≠ self → s.view p = Session.shownData s.subscriptions p oldData →
      s'.view p = if s.id ∈ told then
        if isBeingRemoved then none else Session.shownData s.subscriptions p data
      else s.view p)

theorem Heard.push {data : Option Msg} {told : List Str} {s s' : Session regex Msg}
    (h : Heard self p oldData data isBeingRemoved told s s') :
    Heard self p oldData data isBeingRemoved told s s'.push := by
  obtain ⟨hGood, hSettings, hOthers, hHere⟩ := h
  refine ⟨Session.good_push hGood, Session.settings_push.trans hSettings, ?_, ?_⟩
  · rw [Session.view_push]
    exact hOthers
  · rw [Session.view_push]
    exact hHere

/-- All sessions with a mark hear of the change of a node, the acting one only if it wants to. -/
theorem heard_notify (hMarked : srv.Marked) (hGood : ∀ s ∈ srv.sessions, s.Good) {n : DataNode Msg}
    (hn : srv.db.node? p = some n) (hOld : isBeingRemoved = true → oldData.isSome = true)
    (hNew : isBeingRemoved = false → (srv.db.data p).isSome = true)
    (h : srv.notifySubscribersThatNodeChanged self p oldData isBeingRemoved = some srv')
    {s' : Session regex Msg} (hs' : s' ∈ srv'.sessions) :
    ∃ s ∈ srv.sessions, Heard self p oldData (srv.db.data p) isBeingRemoved (n.subscribers.map Prod.fst) s s' := by
  unfold notifySubscribersThatNodeChanged at h
  rw [hn] at h
  have hRun := Lib.foldlM_rest (P := fun rest t => Similar srv t ∧ ∃ told, n.subscribers = told ++ rest ∧
    ∀ s' ∈ t.sessions, ∃ s ∈ srv.sessions,
      Heard self p oldData (srv.db.data p) isBeingRemoved (told.map Prod.fst) s s') h ?_ ?_
  · obtain ⟨-, told, hTold, hAll⟩ := hRun
    rw [List.append_nil] at hTold
    rw [hTold]
    exact hAll s' hs'
  · rintro next rest t t' ⟨hSimilar, told, hTold, hAll⟩ hStep
    have hIds := hSimilar.idsNodup hMarked.ids
    have hNotTold : next.1 ∉ told.map Prod.fst := by
      have hNodup := hMarked.nodup p n hn
      unfold DataNode.MarksNodup at hNodup
      rw [hTold, List.map_append, List.map_cons] at hNodup
      exact fun hIn => (List.nodup_append.mp hNodup).2.2 _ hIn _ (List.mem_cons_self ..) rfl
    have hMore : ∀ {s : Session regex Msg}, s.id ≠ next.1 →
        (s.id ∈ (told ++ [next]).map Prod.fst ↔ s.id ∈ told.map Prod.fst) := by
      intro s hOther
      rw [List.map_append, List.mem_append]
      exact ⟨fun hIn => hIn.resolve_right fun h => hOther (List.mem_singleton.mp h), .inl⟩
    split at hStep
    · refine ⟨hSimilar.trans (similar_deliver hIds (fun s s' pushed => Session.settings_nodeChanged) hStep),
        told ++ [next], by rw [hTold, List.append_assoc]; rfl, fun s' hs' => ?_⟩
      obtain ⟨t₀, ht₀, u, hChange, hPush⟩ := sessions_deliver hIds hStep hs'
      obtain ⟨s, hs, hHeard⟩ := hAll t₀ ht₀
      have hId := Session.id_of_settings hHeard.2.1
      have hu : Heard self p oldData (srv.db.data p) isBeingRemoved ((told ++ [next]).map Prod.fst) s u := by
        rcases hChange with ⟨hOther, rfl⟩ | ⟨hSame, pushed, hChanged⟩
        · obtain ⟨hGood', hSettings, hElse, hHere⟩ := hHeard
          refine ⟨hGood', hSettings, hElse, fun hSelf hView => (hHere hSelf hView).trans ?_⟩
          simp only [hMore (hId ▸ hOther)]
        · obtain ⟨hGood', hSettings, hElse, hHere⟩ := hHeard
          have hSubscriptions := Session.subscriptions_of_settings hSettings
          have hMark : t₀.subscriptions.markCount p ≠ 0 := by
            intro hZero
            have hSome : (n.mark next.1).isSome = true := by
              unfold DataNode.mark
              rw [Option.isSome_map, List.find?_isSome]
              refine ⟨next, ?_, beq_self_eq_true _⟩
              rw [hTold]
              exact List.mem_append_right _ (List.mem_cons_self ..)
            obtain ⟨m, hm, rfl⟩ := mem_sessions.mp hs
            rw [hMarked.marks p n hn, ← hSame, hId, matchCount, member?_of_mem hMarked.ids hm] at hSome
            rw [hSubscriptions] at hZero
            dsimp only at hSome
            rw [hZero] at hSome
            cases hSome
          have hMatches : t₀.subscriptions.matchesNode p none 0 = true := by
            by_contra hNot
            exact hMark (markCount_eq_zero hNot)
          rw [hSimilar.db] at hChanged
          obtain ⟨hNodup, hStays, hNow⟩ := Session.view_nodeChanged hGood'.enabled hGood'.counted hMatches
            hGood'.pending hOld hNew hChanged
          have hAfter := Session.settings_nodeChanged hChanged
          refine ⟨hGood'.of_settings hAfter hNodup, hAfter.trans hSettings,
            fun q hq => (hStays q hq).trans (hElse q hq), fun hSelf hView => ?_⟩
          have hNext : s.id = next.1 := hId.symm.trans hSame
          have hBefore := hHere hSelf hView
          rw [if_neg (hNext ▸ hNotTold)] at hBefore
          have hIn : s.id ∈ (told ++ [next]).map Prod.fst := by
            rw [hNext, List.map_append]
            exact List.mem_append_right _ (List.mem_singleton.mpr rfl)
          rw [if_pos hIn, ← hSubscriptions]
          refine hNow ?_
          rw [hBefore, hView, hSubscriptions]
      rcases hPush with rfl | rfl
      · exact ⟨s, hs, hu⟩
      · exact ⟨s, hs, hu.push⟩
    · rename_i hSilent
      cases hStep
      refine ⟨hSimilar, told ++ [next], by rw [hTold, List.append_assoc]; rfl, fun s' hs' => ?_⟩
      obtain ⟨s, hs, hGood', hSettings, hElse, hHere⟩ := hAll s' hs'
      refine ⟨s, hs, hGood', hSettings, hElse, fun hSelf hView => (hHere hSelf hView).trans ?_⟩
      have hOther : s.id ≠ next.1 := by
        intro hSame
        exact hSilent (.inl (hSame ▸ hSelf))
      simp only [hMore hOther]
  · refine ⟨.refl srv, [], rfl, fun s hs => ⟨s, hs, hGood s hs, rfl, fun _ _ => rfl, fun _ _ => ?_⟩⟩
    exact (if_neg List.not_mem_nil).symm

/-- A change of a node of the acting session is mirrored by all sessions that mirrored the tree before it. -/
theorem mirrors_notify (hMarked : srv.Marked) (hGood : ∀ s ∈ srv.sessions, s.Good) (hOwned : OwnedBy self p)
    {oldDb : Database Msg} (newDb : Database Msg) (hMirrors : ∀ s ∈ srv.sessions, s.Mirrors oldDb)
    (hIn : p ∈ srv.db.paths) (hOld : isBeingRemoved = true → (oldDb.data p).isSome = true)
    (hNew : isBeingRemoved = false → (srv.db.data p).isSome = true)
    (hElse : ∀ q, q ≠ p → newDb.data q = oldDb.data q)
    (hHere : newDb.data p = if isBeingRemoved then none else srv.db.data p)
    (h : srv.notifySubscribersThatNodeChanged self p (oldDb.data p) isBeingRemoved = some srv') :
    ∀ s ∈ srv'.sessions, s.Good ∧ s.Mirrors newDb := by
  intro s' hs'
  obtain ⟨n, hn⟩ := Option.isSome_iff_exists.mp (Database.mem_paths.mp hIn)
  obtain ⟨s, hs, hGood', hSettings, hOthers, hTold⟩ := heard_notify hMarked hGood hn hOld hNew h hs'
  refine ⟨hGood', fun q hq => ?_⟩
  rw [Session.id_of_settings hSettings] at hq
  rw [Session.subscriptions_of_settings hSettings]
  by_cases hSame : q = p
  · subst hSame
    have hSelf : s.id ≠ self := by
      obtain ⟨i, hi, hNot⟩ := hq
      rintro rfl
      exact hNot (hOwned i hi)
    have hBefore := hMirrors s hs q hq
    rw [hTold hSelf hBefore, hHere]
    by_cases hIsTold : s.id ∈ n.subscribers.map Prod.fst
    · rw [if_pos hIsTold]
      cases isBeingRemoved <;> rfl
    · have hZero : s.subscriptions.markCount q = 0 := by
        obtain ⟨m, hm, rfl⟩ := mem_sessions.mp hs
        have hMark := hMarked.marks q n hn m.session.id
        unfold matchCount at hMark
        rw [member?_of_mem hMarked.ids hm] at hMark
        dsimp only at hMark
        unfold DataNode.countMark at hMark
        split at hMark
        · assumption
        · obtain ⟨entry, hEntry, -⟩ := Option.map_eq_some_iff.mp hMark
          refine absurd ?_ hIsTold
          rw [← show entry.1 = m.session.id by simpa using List.find?_some hEntry]
          exact List.mem_map_of_mem (List.mem_of_find?_eq_some hEntry)
      rw [if_neg hIsTold, hBefore, Session.shownData_unmarked hZero, Session.shownData_unmarked hZero]
  · rw [hOthers q hSame, hElse q hSame]
    exact hMirrors s hs q hq

/-- The notice of a node that was made or has other data. -/
theorem mirrors_notify_put (hMarked : srv.Marked) (hGood : ∀ s ∈ srv.sessions, s.Good) (hOwned : OwnedBy self p)
    {oldDb : Database Msg} (hMirrors : ∀ s ∈ srv.sessions, s.Mirrors oldDb) {data : Msg}
    (hNew : srv.db.data p = some data) (hIn : p ∈ srv.db.paths)
    (hElse : ∀ q, q ≠ p → srv.db.data q = oldDb.data q)
    (h : srv.notifySubscribersThatNodeChanged self p (oldDb.data p) false = some srv') :
    ∀ s ∈ srv'.sessions, s.Good ∧ s.Mirrors srv'.db := by
  have hDb := (similar_notify hMarked.ids h).db
  refine mirrors_notify hMarked hGood hOwned srv'.db hMirrors hIn ?_ ?_ ?_ ?_ h
  · intro hNot
    cases hNot
  · intro _
    rw [hNew]
    rfl
  · rw [hDb]
    exact hElse
  · rw [hDb]
    rfl

end Server

end BeShare.Muscle.Reflect
