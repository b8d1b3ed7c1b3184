import BeShare.Reflect.Marks

/-!
The commands of the clients, the attaching and the detaching of sessions keep the marks.
-/

namespace BeShare.Muscle.Reflect

variable {regex : Regex} {Msg : Type}

open DataNode (countMark)

namespace Server

variable {srv srv' : Server regex Msg} {self id : Str} {p q : Path} {n : DataNode Msg}

/-! ### Parameters -/

theorem member?_updateMember (f : Member regex Msg → Member regex Msg)
    (hf : ∀ m, m ∈ srv.members → m.session.id = self → (f m).session.id = self) (id : Str) :
    (srv.updateMember self f).member? id = if id = self then (srv.member? id).map f else srv.member? id := by
  unfold updateMember member?
  dsimp only
  revert hf
  generalize srv.members = members
  intro hf
  induction members with
  | nil => simp
  | cons m members ih =>
    have hRest := ih fun m' hm' => hf m' (List.mem_cons_of_mem _ hm')
    rw [List.map_cons, List.find?_cons, List.find?_cons, hRest]
    by_cases hHere : m.session.id = self
    · rw [if_pos hHere, hf m (List.mem_cons_self ..) hHere, hHere]
      by_cases hId : id = self
      · simp [hId]
      · rw [if_neg hId, if_neg hId, beq_eq_false_iff_ne.mpr (Ne.symm hId)]
    · rw [if_neg hHere]
      by_cases hFound : m.session.id = id
      · have hId : id ≠ self := fun h => hHere (hFound.trans h)
        rw [if_neg hId, if_neg hId, hFound, beq_self_eq_true]
      · rw [beq_eq_false_iff_ne.mpr hFound]

theorem idsNodup_updateMember (hIds : srv.IdsNodup) (f : Member regex Msg → Member regex Msg)
    (hf : ∀ m, m ∈ srv.members → m.session.id = self → (f m).session.id = self) :
    (srv.updateMember self f).IdsNodup := by
  unfold IdsNodup at hIds ⊢
  unfold updateMember
  dsimp only
  rw [List.map_map]
  convert hIds using 1
  refine List.map_congr_left fun m hm => ?_
  show (if m.session.id = self then f m else m).session.id = m.session.id
  split
  · rename_i hHere
    rw [hf m hm hHere, hHere]
  · rfl

/-- The session has changed, and its node marks follow. -/
theorem marked_applyEffect (hLiteral : regex.Literal) (hMarked : srv.Marked) {m : Member regex Msg}
    (hm : srv.member? self = some m) {s : Session regex Msg} {effect : Option (Effect Msg)}
    (h : (match effect with
      | some effect => (srv.updateMember self fun m => { m with session := s }).applyEffect self effect
      | none => some (srv.updateMember self fun m => { m with session := s })) = some srv')
    (hAccounts : m.session.Accounts s effect) : srv'.Marked := by
  have hId : s.id = self := hAccounts.1.trans (member?_mem hm).2
  have hIds := idsNodup_updateMember hMarked.ids (fun m => { m with session := s }) fun _ _ _ => hId
  have hCount : ∀ id p, (srv.updateMember self fun m => { m with session := s }).matchCount id p =
      if id = self then s.subscriptions.markCount p else srv.matchCount id p := by
    intro id p
    unfold matchCount
    rw [member?_updateMember _ fun _ _ _ => hId]
    by_cases hHere : id = self
    · rw [if_pos hHere, if_pos hHere, hHere, hm]
      rfl
    · rw [if_neg hHere, if_neg hHere]
  have hOld : ∀ p, srv.matchCount self p = m.session.subscriptions.markCount p := by
    intro p
    unfold matchCount
    rw [hm]
  have hSame : (∀ p, s.subscriptions.markCount p = m.session.subscriptions.markCount p) →
      (srv.updateMember self fun m => { m with session := s }).Marked := by
    intro hCounts
    refine ⟨hIds, fun p n hn id => ?_, hMarked.nodup⟩
    rw [hCount]
    split
    · rename_i hHere
      rw [hCounts, ← hOld, ← hHere]
      exact hMarked.marks p n hn id
    · exact hMarked.marks p n hn id
  match effect, hAccounts, h with
  | none, hAccounts, h =>
    cases h
    exact hSame hAccounts.2
  | some (.changeQueryFilter path oldFilter newFilter), hAccounts, h =>
    have hStart := hSame hAccounts.2
    refine (Lib.foldlM_keeps (P := fun t => t.Marked) h ?_ hStart)
    intro change _ t t' ht hStep
    exact (similar_deliver ht.ids (fun s s' pushed => Session.settings_nodeChangedAux) hStep).marked ht
  | some (.subscribeRef path delta), hAccounts, h =>
    obtain ⟨-, temp, hTemp, hCounts⟩ := hAccounts
    unfold applyEffect at h
    dsimp only at h
    rw [hTemp] at h
    cases h
    have hNode : ∀ q, ((temp.doTraversal srv.db PathMatcher.callWithDepth [] false).foldl
        (fun db p => db.modify p fun n => n.incrementSubscriptionRefCount self delta) srv.db).node? q =
          if temp.matchesNode q none 0 then
            (srv.db.node? q).map fun n => n.incrementSubscriptionRefCount self delta
          else srv.db.node? q := by
      intro q
      rw [Database.node?_foldl_modify _ (PathMatcher.doTraversal_nodup ..)]
      have hMem := @PathMatcher.mem_doTraversal_root regex Msg temp srv.db hLiteral false q
      simp only [Bool.false_eq_true, if_false] at hMem
      by_cases hMatches : temp.matchesNode q none 0 = true
      · rw [if_pos hMatches]
        by_cases hIn : q ∈ srv.db.paths
        · rw [if_pos (hMem.mpr ⟨hIn, hMatches⟩)]
        · have hNone : srv.db.node? q = none := by
            simpa using mt Database.mem_paths.mpr hIn
          rw [if_neg fun h => hIn (hMem.mp h).1, hNone]
          rfl
      · rw [if_neg hMatches, if_neg fun h => hMatches (hMem.mp h).2]
    refine ⟨hIds, fun p n hn id => ?_, fun p n hn => ?_⟩
    · refine Eq.trans ?_ (congrArg countMark (hCount id p)).symm
      have hn := (hNode p).symm.trans hn
      by_cases hMatches : temp.matchesNode p none 0 = true
      · rw [if_pos hMatches] at hn
        obtain ⟨old, hFound, rfl⟩ := Option.map_eq_some_iff.mp hn
        have hDelta := hCounts p
        rw [if_pos hMatches] at hDelta
        rw [DataNode.mark_increment ((hMarked.marks p old hFound self).trans (congrArg countMark (hOld p))) hDelta]
        by_cases hHere : id = self
        · rw [if_pos hHere, if_pos hHere]
        · rw [if_neg hHere, if_neg hHere]
          exact hMarked.marks p old hFound id
      · rw [if_neg hMatches] at hn
        have hDelta := hCounts p
        rw [if_neg hMatches, Int.add_zero] at hDelta
        by_cases hHere : id = self
        · rw [if_pos hHere, Int.ofNat_inj.mp hDelta, ← hOld, hHere]
          exact hMarked.marks p n hn self
        · rw [if_neg hHere]
          exact hMarked.marks p n hn id
    · have hn := (hNode p).symm.trans hn
      split at hn
      · obtain ⟨old, hFound, rfl⟩ := Option.map_eq_some_iff.mp hn
        exact DataNode.marksNodup_increment (hMarked.nodup p old hFound) ..
      · exact hMarked.nodup p n hn

theorem marked_parameterStep (hLiteral : regex.Literal) (hMarked : srv.Marked)
    {change : Session regex Msg → Session regex Msg × Option (Effect Msg)}
    (hChange : ∀ s : Session regex Msg, s.Accounts (change s).1 (change s).2)
    (h : srv.parameterStep self change = some srv') :
    srv'.Marked := by
  unfold parameterStep at h
  split at h
  · rename_i m hm
    exact marked_applyEffect hLiteral hMarked hm h (hChange m.session)
  · cases h
    exact hMarked

theorem similar_doGetData (matcher : PathMatcher regex Msg) :
    Similar srv (srv.doGetData self matcher) :=
  similar_updateMember fun _ _ _ => rfl

theorem marked_setParameters (hLiteral : regex.Literal) (hMarked : srv.Marked) {fields : List (Field Msg)}
    (h : srv.setParameters self fields = some srv') : srv'.Marked := by
  unfold setParameters at h
  obtain ⟨t, hFields, rfl⟩ := Option.map_eq_some_iff.mp h
  have ht : t.Marked := by
    refine Lib.foldlM_keeps (P := fun t => t.Marked) hFields ?_ hMarked
    intro f _ t t' ht hStep
    exact marked_parameterStep hLiteral ht (fun s => s.accounts_setParameter f) hStep
  split
  · exact ht
  · exact (similar_doGetData _).marked ht

theorem marked_removeParameters (hLiteral : regex.Literal) (hMarked : srv.Marked) {keys : List Str}
    (h : srv.removeParameters self keys = some srv') : srv'.Marked := by
  unfold removeParameters at h
  split at h
  · refine Lib.foldlM_keeps (P := fun t => t.Marked) h ?_ hMarked
    intro name _ t t' ht hStep
    exact marked_parameterStep hLiteral ht (fun s => s.accounts_removeParameter name) hStep
  · cases h
    exact hMarked

/-! ### Data -/

theorem similar_countNodes (count : Nat → Nat) : Similar srv (srv.countNodes self count) :=
  similar_updateMember fun _ _ _ => rfl

theorem marked_setDataLoop (hMarked : srv.Marked) {data : Msg} {overwrite create quiet : Bool} {clauses : List Str}
    (h : setDataLoop self data overwrite create quiet p clauses srv = some srv') : srv'.Marked := by
  induction clauses generalizing p srv with
  | nil =>
    cases h
    exact hMarked
  | cons clause rest ih =>
    unfold setDataLoop at h
    split at h
    · split at h
      · split at h
        · exact marked_setData hMarked h
        · cases h
          exact hMarked
      · exact ih hMarked h
    · split at h
      · obtain ⟨t, hPut, hRest⟩ := Option.bind_eq_some_iff.mp h
        have ht : (t.countNodes self (· + 1)).Marked := (similar_countNodes _).marked (marked_putChild hMarked hPut)
        dsimp only at hRest
        split at hRest
        · exact marked_setData ht hRest
        · exact ih ht hRest
      · cases h
        exact hMarked

theorem marked_setDataNode (hMarked : srv.Marked) {nodePath : Str} {data : Msg} {overwrite create quiet : Bool}
    (h : srv.setDataNode self nodePath data overwrite create quiet = some srv') : srv'.Marked := by
  unfold setDataNode at h
  split at h
  · split at h
    · cases h
      exact hMarked
    · split at h
      · cases h
        exact hMarked
      · exact marked_setDataLoop hMarked h
  · cases h
    exact hMarked

theorem marked_doRemoveData (hMarked : srv.Marked) {matcher : PathMatcher regex Msg} {quiet : Bool}
    (h : srv.doRemoveData self matcher quiet = some srv') : srv'.Marked := by
  unfold doRemoveData at h
  split at h
  · refine Lib.foldlM_keeps (P := fun t => t.Marked) h ?_ hMarked
    intro p _ t t' ht hStep
    unfold removeDataStep at hStep
    split at hStep
    · obtain ⟨u, hRemove, rfl⟩ := Option.map_eq_some_iff.mp hStep
      exact (similar_countNodes _).marked (marked_removeChild ht hRemove)
    · cases hStep
      exact ht
  · cases h
    exact hMarked

theorem marked_insertOrderedData (hMarked : srv.Marked) {insertions : List (Path × Str × Msg)}
    (h : srv.insertOrderedData self insertions = some srv') : srv'.Marked := by
  unfold insertOrderedData at h
  split at h
  · refine Lib.foldlM_keeps (P := fun t => t.Marked) h ?_ hMarked
    intro insertion _ t t' ht hStep
    unfold insertOrderedStep at hStep
    split at hStep
    · obtain ⟨u, hPut, rfl⟩ := Option.map_eq_some_iff.mp hStep
      refine Similar.marked ?_ (marked_putChild ht hPut)
      exact similar_updateMember fun _ _ _ => rfl
    · cases hStep
      exact ht
  · cases h
    exact hMarked

mutual

theorem marked_messageReceived (hLiteral : regex.Literal) (message : ClientMessage Msg) {srv srv' : Server regex Msg}
    (hMarked : srv.Marked) (h : messageReceivedFromGateway self message srv = some srv') : srv'.Marked := by
  cases message with
  | setData fields quiet =>
    unfold messageReceivedFromGateway at h
    exact Lib.foldlM_keeps h (fun field _ t t' ht hStep => marked_setDataNode ht hStep) hMarked
  | removeData keys quiet =>
    unfold messageReceivedFromGateway at h
    exact marked_doRemoveData hMarked h
  | insertOrderedData insertions =>
    unfold messageReceivedFromGateway at h
    exact marked_insertOrderedData hMarked h
  | setParameters fields =>
    unfold messageReceivedFromGateway at h
    exact marked_setParameters hLiteral hMarked h
  | removeParameters keys =>
    unfold messageReceivedFromGateway at h
    exact marked_removeParameters hLiteral hMarked h
  | getData keys =>
    unfold messageReceivedFromGateway at h
    cases h
    exact (similar_doGetData _).marked hMarked
  | batch messages =>
    unfold messageReceivedFromGateway at h
    exact marked_callMessagesReceived hLiteral messages hMarked h

theorem marked_callMessagesReceived (hLiteral : regex.Literal) (messages : List (ClientMessage Msg))
    {srv srv' : Server regex Msg} (hMarked : srv.Marked) (h : callMessagesReceived self messages srv = some srv') :
    srv'.Marked := by
  cases messages with
  | nil =>
    cases h
    exact hMarked
  | cons message rest =>
    unfold callMessagesReceived at h
    split at h
    · rename_i t ht
      have hFirst := marked_messageReceived hLiteral message hMarked ht
      exact marked_callMessagesReceived hLiteral rest ((similar_push t).marked hFirst) h
    · cases h

end

/-! ### Attaching and detaching -/

theorem matchCount_of_member?_eq_none (h : srv.member? id = none) (p : Path) : srv.matchCount id p = 0 := by
  unfold matchCount
  rw [h]

/-- A session without subscriptions is no reason for a mark. -/
theorem marked_join (hMarked : srv.Marked) (host : Str) (maxNodeCount : Nat) (hNew : srv.member? id = none) :
    ({ srv with members := srv.members ++ [Member.new regex Msg host id maxNodeCount] } : Server regex Msg).Marked := by
  have hNot : ∀ m ∈ srv.members, m.session.id ≠ id := by
    intro m hm hId
    exact absurd (beq_iff_eq.mpr hId) (List.find?_eq_none.mp hNew m hm)
  refine ⟨?_, fun p n hn id' => ?_, hMarked.nodup⟩
  · unfold IdsNodup
    rw [List.map_append, List.nodup_append]
    refine ⟨hMarked.ids, List.nodup_singleton _, fun a ha b hb => ?_⟩
    obtain ⟨m, hm, rfl⟩ := List.mem_map.mp ha
    obtain rfl := List.mem_singleton.mp hb
    exact hNot m hm
  · rw [hMarked.marks p n hn id']
    congr 1
    unfold matchCount member?
    dsimp only
    rw [List.find?_append]
    cases srv.members.find? fun m => m.session.id == id' with
    | some m => rfl
    | none =>
      rw [Option.none_or, List.find?_singleton]
      by_cases hSame : ((Member.new regex Msg host id maxNodeCount).session.id == id') = true
      · rw [if_pos hSame]
        rfl
      · rw [if_neg hSame]

theorem marked_attach (hMarked : srv.Marked) {host : Str} {maxNodeCount : Nat}
    (h : srv.attach host id maxNodeCount = some srv') : srv'.Marked := by
  unfold attach at h
  split at h
  · cases h
    exact hMarked
  · rename_i hNew
    obtain ⟨t, hHost, hSession⟩ := Option.bind_eq_some_iff.mp h
    obtain ⟨u, hPut, rfl⟩ := Option.map_eq_some_iff.mp hSession
    have hJoin := marked_join hMarked host maxNodeCount (by simpa using hNew)
    have ht : t.Marked := by
      split at hHost
      · cases hHost
        exact hJoin
      · exact marked_putChild hJoin hHost
    exact (similar_push u).marked (marked_putChild ht hPut)

theorem marked_cleanupNodes (hMarked : srv.Marked) {m : Member regex Msg} (h : srv.cleanupNodes m = some srv') :
    srv'.Marked := by
  unfold cleanupNodes at h
  split at h
  · obtain ⟨t, hBoth, rfl⟩ := Option.map_eq_some_iff.mp h
    obtain ⟨u, hSession, hHost⟩ := Option.bind_eq_some_iff.mp hBoth
    have hu := marked_removeChild hMarked hSession
    refine (similar_push t).marked ?_
    split at hHost
    · exact marked_removeChild hu hHost
    · cases hHost
      exact hu
  · cases h
    exact hMarked

/-- What the removal of nodes leaves of the sessions. -/
theorem settings_removeChild (hIds : srv.IdsNodup) {notify : Bool} (h : srv.removeChild self p notify = some srv') :
    srv'.members.map Member.settings = srv.members.map Member.settings := by
  unfold removeChild at h
  split at h
  · refine (Lib.foldlM_keeps (P := fun t : Server regex Msg =>
      t.members.map Member.settings = srv.members.map Member.settings ∧ t.IdsNodup) h ?_ ⟨rfl, hIds⟩).1
    intro q _ t t' ht hStep
    unfold removeNode at hStep
    obtain ⟨u, hNotify, rfl⟩ := Option.map_eq_some_iff.mp hStep
    have hu : Similar t u := by
      split at hNotify
      · exact similar_notify ht.2 hNotify
      · cases hNotify
        exact .refl t
    exact ⟨hu.members.trans ht.1, hu.idsNodup ht.2⟩
  · cases h
    rfl

theorem settings_cleanupNodes (hMarked : srv.Marked) {m : Member regex Msg} (h : srv.cleanupNodes m = some srv') :
    srv'.members.map Member.settings = srv.members.map Member.settings := by
  unfold cleanupNodes at h
  split at h
  · obtain ⟨t, hBoth, rfl⟩ := Option.map_eq_some_iff.mp h
    obtain ⟨u, hSession, hHost⟩ := Option.bind_eq_some_iff.mp hBoth
    have hFirst := settings_removeChild hMarked.ids hSession
    refine (similar_push t).members.trans ?_
    split at hHost
    · exact (settings_removeChild (marked_removeChild hMarked hSession).ids hHost).trans hFirst
    · cases hHost
      exact hFirst
  · cases h
    rfl

theorem markCount_root (m : PathMatcher regex Msg) : m.markCount [] = 0 := by
  refine List.countP_eq_zero.mpr fun entry _ hMatches => ?_
  exact PathMatcher.ne_nil_of_matchesFrom (@PathMatcher.pathMatches_iff regex Msg entry [] [] none |>.mp hMatches).1

theorem markCount_eq_zero {m : PathMatcher regex Msg} (h : ¬m.matchesNode p none 0 = true) : m.markCount p = 0 := by
  refine List.countP_eq_zero.mpr fun entry hEntry hMatches => h ?_
  exact List.any_eq_true.mpr ⟨entry, hEntry, hMatches⟩

theorem member?_leave (srv : Server regex Msg) (id other : Str) :
    ({ srv with members := srv.members.filter fun m => !(m.session.id == id) } : Server regex Msg).member? other =
      if other = id then none else srv.member? other := by
  unfold member?
  dsimp only
  rw [List.find?_filter]
  split
  · rename_i hSame
    subst hSame
    simp
  · rename_i hOther
    congr 1
    funext m
    by_cases hSame : m.session.id = other
    · simp [hSame, hOther]
    · simp [hSame]

/-- Without the session's marks the session may go. -/
theorem marked_leave (hLiteral : regex.Literal) (hMarked : srv.Marked) {m : Member regex Msg}
    (hm : (srv.member? id).map Member.settings = some m.settings) :
    ({ srv.cleanupMarks m with members := (srv.cleanupMarks m).members.filter fun m => !(m.session.id == id) } :
      Server regex Msg).Marked := by
  have hId : m.session.id = id := by
    obtain ⟨found, hFound, hSame⟩ := Option.map_eq_some_iff.mp hm
    rw [← (member?_mem hFound).2]
    exact (congrArg (fun k => k.2.1) hSame).symm
  have hOld : ∀ p, srv.matchCount id p = m.session.subscriptions.markCount p := by
    intro p
    rw [matchCount_settings, hm]
    rfl
  have hMembers : (srv.cleanupMarks m).members = srv.members := by
    unfold cleanupMarks
    split <;> rfl
  have hCount : ∀ other p, ({ srv.cleanupMarks m with
      members := (srv.cleanupMarks m).members.filter fun m => !(m.session.id == id) } :
        Server regex Msg).matchCount other p = if other = id then 0 else srv.matchCount other p := by
    intro other p
    unfold matchCount
    rw [member?_leave]
    unfold member?
    rw [hMembers]
    by_cases hSame : other = id
    · rw [if_pos hSame, if_pos hSame]
    · rw [if_neg hSame, if_neg hSame]
  have hNode : ∀ p n, (srv.cleanupMarks m).db.node? p = some n →
      (p = [] ∧ n.subscribers = []) ∨ ∃ old, srv.db.node? p = some old ∧
        (n = old.removeMark id ∨ n = old ∧ srv.matchCount id p = 0) := by
    intro p n hn
    unfold cleanupMarks at hn
    split at hn
    · refine .inl ?_
      have hRoot := Database.mem_paths.mpr (Option.isSome_iff_exists.mpr ⟨n, hn⟩)
      obtain rfl : p = [] := by simpa [Database.paths, Database.root] using hRoot
      cases hn
      exact ⟨rfl, rfl⟩
    · refine .inr ?_
      have hn := (Database.node?_foldl_modify (fun n => n.removeMark m.session.id)
        (PathMatcher.doTraversal_nodup ..) p).symm.trans hn
      have hMem := @PathMatcher.mem_doTraversal_root regex Msg m.session.subscriptions srv.db hLiteral false p
      simp only [Bool.false_eq_true, if_false] at hMem
      split at hn
      · obtain ⟨old, hFound, rfl⟩ := Option.map_eq_some_iff.mp hn
        exact ⟨old, hFound, .inl (congrArg old.removeMark hId)⟩
      · rename_i hNot
        refine ⟨n, hn, .inr ⟨rfl, ?_⟩⟩
        rw [hOld]
        refine markCount_eq_zero fun hMatches => hNot (hMem.mpr ⟨?_, hMatches⟩)
        exact Database.mem_paths.mpr (Option.isSome_iff_exists.mpr ⟨n, hn⟩)
  refine ⟨?_, fun p n hn other => ?_, fun p n hn => ?_⟩
  · unfold IdsNodup
    dsimp only
    rw [hMembers]
    exact hMarked.ids.sublist (List.filter_sublist.map _)
  · rw [hCount]
    rcases hNode p n hn with ⟨rfl, hNone⟩ | ⟨old, hFound, hBoth⟩
    · have hZero : (if other = id then 0 else srv.matchCount other []) = 0 := by
        split
        · rfl
        · unfold matchCount
          split
          · exact markCount_root _
          · rfl
      rw [hZero, DataNode.mark, hNone]
      rfl
    · have hMark := hMarked.marks p old hFound other
      rcases hBoth with rfl | ⟨rfl, hZero⟩
      · rw [DataNode.mark_removeMark]
        split
        · rfl
        · exact hMark
      · split
        · rename_i hSame
          rw [hMark, hSame, hZero]
        · exact hMark
  · rcases hNode p n hn with ⟨rfl, hNone⟩ | ⟨old, hFound, hBoth⟩
    · rw [DataNode.MarksNodup, hNone]
      exact List.nodup_nil
    · rcases hBoth with rfl | ⟨rfl, -⟩
      · exact DataNode.marksNodup_removeMark (hMarked.nodup p old hFound) _
      · exact hMarked.nodup p n hFound

theorem marked_detach (hLiteral : regex.Literal) (hMarked : srv.Marked) (h : srv.detach id = some srv') :
    srv'.Marked := by
  unfold detach at h
  split at h
  · rename_i m hm
    obtain ⟨t, hNodes, rfl⟩ := Option.map_eq_some_iff.mp h
    refine marked_leave hLiteral (marked_cleanupNodes hMarked hNodes) ?_
    rw [member?_settings, settings_cleanupNodes hMarked hNodes, ← member?_settings, hm]
    rfl
  · cases h
    exact hMarked

/-! ### Runs -/

theorem marked_start (blankMessage : Msg) : (start regex blankMessage).Marked where
  ids := List.nodup_nil
  marks p n hn id := by
    have hRoot := Database.mem_paths.mpr (Option.isSome_iff_exists.mpr ⟨n, hn⟩)
    obtain rfl : p = [] := by simpa [Database.paths, Database.root, start] using hRoot
    cases hn
    rfl
  nodup p n hn := by
    have hRoot := Database.mem_paths.mpr (Option.isSome_iff_exists.mpr ⟨n, hn⟩)
    obtain rfl : p = [] := by simpa [Database.paths, Database.root, start] using hRoot
    cases hn
    exact List.nodup_nil

theorem marked_step (hLiteral : regex.Literal) (hMarked : srv.Marked) {event : ServerEvent Msg}
    (h : srv.step event = some srv') : srv'.Marked := by
  cases event with
  | attach host id maxNodeCount => exact marked_attach hMarked h
  | detach id => exact marked_detach hLiteral hMarked h
  | received id message =>
    unfold step at h
    dsimp only at h
    split at h
    · exact marked_callMessagesReceived hLiteral [message] hMarked h
    · cases h
      exact hMarked

theorem marked_run (hLiteral : regex.Literal) (hMarked : srv.Marked) {events : List (ServerEvent Msg)}
    (h : srv.run events = some srv') : srv'.Marked :=
  Lib.foldlM_keeps h (fun _ _ _ _ ht hStep => marked_step hLiteral ht hStep) hMarked

/-- In every reachable state the count of a node for an attached session is the number of the session's
subscriptions whose path matches the node, without an entry if there are none, and no other session has a mark. -/
theorem subscription_marks (hLiteral : regex.Literal) (blankMessage : Msg) (events : List (ServerEvent Msg))
    (h : (start regex blankMessage).run events = some srv) (hn : (p, n) ∈ srv.db.nodes) :
    (∀ m ∈ srv.members, n.mark m.session.id =
      if m.session.subscriptions.entries.countP (PathMatcher.clausesMatch · p) = 0 then none
      else some (m.session.subscriptions.entries.countP (PathMatcher.clausesMatch · p))) ∧
    ∀ entry ∈ n.subscribers, ∃ m ∈ srv.members, m.session.id = entry.1 := by
  have hMarked := marked_run hLiteral (marked_start blankMessage) h
  have hFound := Database.node?_of_mem hn
  refine ⟨fun m hm => ?_, fun entry hEntry => ?_⟩
  · rw [hMarked.marks p n hFound]
    unfold matchCount
    rw [member?_of_mem hMarked.ids hm]
    have hCount : m.session.subscriptions.markCount p =
        m.session.subscriptions.entries.countP (PathMatcher.clausesMatch · p) :=
      List.countP_congr fun entry _ => by rw [PathMatcher.pathMatches_eq_clausesMatch]
    dsimp only
    rw [hCount]
    rfl
  · have hSome : (n.mark entry.1).isSome = true := by
      unfold DataNode.mark
      rw [Option.isSome_map, List.find?_isSome]
      exact ⟨entry, hEntry, beq_self_eq_true _⟩
    rw [hMarked.marks p n hFound] at hSome
    cases hMember : srv.member? entry.1 with
    | some m => exact ⟨m, member?_mem hMember⟩
    | none =>
      rw [matchCount_of_member?_eq_none hMember] at hSome
      cases hSome

/-- One session subscribes to the nodes `a`, and another makes such a node. -/
def subscribeThenSet : List (ServerEvent Nat) :=
  [.attach ['h'] ['s'] 10, .attach ['h'] ['t'] 10,
    .received ['s'] (.setParameters [⟨PR_NAME_SUBSCRIBE_PREFIX ++ ['a'], none, none⟩]),
    .received ['t'] (.setData [(['a'], 5)] false)]

theorem subscription_marks_twoSessions : ∃ srv n,
    (start PathMatcher.oneCharacter 0).run subscribeThenSet = some srv ∧
      ([['h'], ['t'], ['a']], n) ∈ srv.db.nodes ∧
      (∀ m ∈ srv.members, n.mark m.session.id =
        if m.session.subscriptions.entries.countP (PathMatcher.clausesMatch · [['h'], ['t'], ['a']]) = 0 then none
        else some (m.session.subscriptions.entries.countP (PathMatcher.clausesMatch · [['h'], ['t'], ['a']]))) ∧
      ∀ entry ∈ n.subscribers, ∃ m ∈ srv.members, m.session.id = entry.1 := by
  have hMade : ((start PathMatcher.oneCharacter 0).run subscribeThenSet).map
      (fun srv => decide ([['h'], ['t'], ['a']] ∈ srv.db.paths)) = some true := by decide +kernel
  obtain ⟨srv, hRun, hIn⟩ := Option.map_eq_some_iff.mp hMade
  obtain ⟨node, hNode, hPath⟩ := List.mem_map.mp (decide_eq_true_iff.mp hIn)
  obtain ⟨p, n⟩ := node
  obtain rfl : p = [['h'], ['t'], ['a']] := hPath
  exact ⟨srv, n, hRun, hNode,
    subscription_marks PathMatcher.oneCharacter_literal 0 subscribeThenSet hRun hNode⟩

end Server

end BeShare.Muscle.Reflect
