import BeShare.Reflect.Mirror

/-!
The server does not crash while no message that waits to be sent is too large for its session: writing a notice
into it is then always possible, and leaves no message that is too large.
-/

namespace BeShare.Muscle.Reflect

variable {regex : Regex} {Msg : Type}

namespace Session

variable {s : Session regex Msg}

/-- The message that waits has fewer names than make it be sent. -/
def Fits (s : Session regex Msg) : Prop :=
  ∀ m, s.nextSubscriptionMessage = some m → m.countNames < s.maxSubscriptionMessageItems.toNat

theorem fits_of_none (h : s.nextSubscriptionMessage = none) : s.Fits := by
  intro m hm
  rw [h] at hm
  cases hm

theorem fits_push (s : Session regex Msg) : s.push.Fits :=
  fits_of_none (next_push s)

theorem pushIfFull_goesOn {m : DataItems Msg} (h : s.nextSubscriptionMessage = some m) :
    ∃ s' pushed, s.pushIfFull = some (s', pushed) ∧ s'.Fits := by
  unfold pushIfFull
  rw [h]
  dsimp only
  split
  · exact ⟨s.push, true, rfl, fits_push s⟩
  · rename_i hSmall
    refine ⟨s, false, rfl, fun m' hm' => ?_⟩
    rw [h] at hm'
    cases hm'
    exact Nat.lt_of_not_le hSmall

/-- A removal after an addition that still waits is written, because a message with the addition would have been sent
if one name were enough for that. -/
theorem nodeChangedAux_goesOn (hFits : s.Fits) (np : Path) (data : Option Msg) (isBeingRemoved : Bool) :
    ∃ s' pushed, s.nodeChangedAux np data isBeingRemoved = some (s', pushed) ∧ s'.Fits := by
  unfold nodeChangedAux
  dsimp only
  split
  · split
    · rename_i hWaits
      have hRoom : 1 < s.maxSubscriptionMessageItems.toNat := by
        cases hNext : s.nextSubscriptionMessage with
        | none =>
          rw [hNext] at hWaits
          cases hWaits
        | some m =>
          rw [hNext] at hWaits
          have hSome : 0 < m.items.length := by
            obtain ⟨item, hItem, -⟩ := List.any_eq_true.mp hWaits
            exact List.length_pos_of_mem hItem
          have hCount := hFits m hNext
          unfold DataItems.countNames at hCount
          omega
      have hMax : ({ s.push with nextSubscriptionMessage := some ⟨[np], []⟩ } :
          Session regex Msg).maxSubscriptionMessageItems
          = s.maxSubscriptionMessageItems := congrArg (fun k => k.2.2.2.2.2) (@settings_push _ _ s)
      have hFirst : ({ s.push with nextSubscriptionMessage := some ⟨[np], []⟩ } : Session regex Msg).pushIfFull =
          some ({ s.push with nextSubscriptionMessage := some ⟨[np], []⟩ }, false) := by
        unfold pushIfFull
        dsimp only
        rw [hMax, if_neg]
        exact Nat.not_le_of_lt hRoom
      rw [hFirst]
      obtain ⟨s', pushed, hLast, hFits'⟩ := pushIfFull_goesOn
        (show ({ s.push with nextSubscriptionMessage := some ⟨[np], []⟩ } : Session regex Msg).nextSubscriptionMessage =
          some ⟨[np], []⟩ from rfl)
      exact ⟨s', true, congrArg (Option.map fun result => (result.1, true)) hLast, hFits'⟩
    · exact pushIfFull_goesOn rfl
  · exact pushIfFull_goesOn rfl

theorem nodeChanged_goesOn (hFits : s.Fits) (np : Path) (oldData data : Option Msg) (isBeingRemoved : Bool) :
    ∃ s' pushed, s.nodeChanged np oldData data isBeingRemoved = some (s', pushed) ∧ s'.Fits := by
  unfold nodeChanged
  split
  · split
    · exact nodeChangedAux_goesOn hFits ..
    · exact ⟨s, false, rfl, hFits⟩
  · exact ⟨s, false, rfl, hFits⟩

end Session

namespace Server

variable {srv : Server regex Msg} {self id : Str} {p : Path}

def Fits (srv : Server regex Msg) : Prop :=
  ∀ s ∈ srv.sessions, s.Fits

/-- Changes of a session that leave its waiting message alone. -/
theorem fits_updateMember (hFits : srv.Fits) {f : Member regex Msg → Member regex Msg}
    (hf : ∀ m ∈ srv.members, (f m).session.Fits) : (srv.updateMember self f).Fits := by
  intro s hs
  obtain ⟨m', hm', rfl⟩ := mem_sessions.mp hs
  obtain ⟨m, hm, rfl⟩ := List.mem_map.mp hm'
  split
  · exact hf m hm
  · exact hFits _ (mem_sessions.mpr ⟨m, hm, rfl⟩)

theorem fits_push (srv : Server regex Msg) : srv.pushSubscriptionMessages.Fits := by
  intro s hs
  obtain ⟨m', hm', rfl⟩ := mem_sessions.mp hs
  obtain ⟨m, -, rfl⟩ := List.mem_map.mp hm'
  exact m.session.fits_push

theorem fits_countNodes (hFits : srv.Fits) (count : Nat → Nat) : (srv.countNodes self count).Fits :=
  fits_updateMember hFits fun m hm => hFits m.session (mem_sessions.mpr ⟨m, hm, rfl⟩)

theorem deliver_goesOn (hFits : srv.Fits) {change : Session regex Msg → Option (Session regex Msg × Bool)}
    (hChange : ∀ s : Session regex Msg, s.Fits → ∃ s' pushed, change s = some (s', pushed) ∧ s'.Fits) :
    ∃ srv', srv.deliver id change = some srv' ∧ srv'.Fits := by
  unfold deliver
  split
  · rename_i m hm
    obtain ⟨s', pushed, hs', hFits'⟩ := hChange m.session (hFits _ (mem_sessions.mpr ⟨m, (member?_mem hm).1, rfl⟩))
    rw [hs']
    refine ⟨_, rfl, ?_⟩
    split
    · exact fits_push _
    · exact fits_updateMember hFits fun _ _ => hFits'
  · exact ⟨srv, rfl, hFits⟩

theorem notify_goesOn (hFits : srv.Fits) (self : Str) (p : Path) (oldData : Option Msg) (isBeingRemoved : Bool) :
    ∃ srv', srv.notifySubscribersThatNodeChanged self p oldData isBeingRemoved = some srv' ∧ srv'.Fits := by
  unfold notifySubscribersThatNodeChanged
  refine Lib.foldlM_goesOn (P := fun _ (t : Server regex Msg) => t.Fits) (fun next rest t ht => ?_) hFits
  split
  · exact deliver_goesOn ht fun s hs => Session.nodeChanged_goesOn hs ..
  · exact ⟨t, rfl, ht⟩

/-! ### Nodes -/

theorem putChild_goesOn (hFits : srv.Fits) (self : Str) (node : Path) (name : Str) (data : Msg) (notify : Bool) :
    ∃ srv', srv.putChild self node name data notify = some srv' ∧ srv'.Fits := by
  unfold putChild
  dsimp only
  split
  · refine notify_goesOn ?_ ..
    exact hFits
  · exact ⟨_, rfl, hFits⟩

theorem setData_goesOn (hFits : srv.Fits) (self : Str) (p : Path) (data : Msg) (notify isBeingCreated : Bool) :
    ∃ srv', srv.setData self p data notify isBeingCreated = some srv' ∧ srv'.Fits := by
  unfold setData
  dsimp only
  split
  · refine notify_goesOn ?_ ..
    exact hFits
  · exact ⟨_, rfl, hFits⟩

theorem removeNode_goesOn (hFits : srv.Fits) (self : Str) (notify : Bool) (p : Path) :
    ∃ srv', removeNode self notify srv p = some srv' ∧ srv'.Fits := by
  unfold removeNode
  split
  · obtain ⟨t, ht, hFits'⟩ := notify_goesOn hFits self p (srv.db.data p) true
    rw [ht]
    exact ⟨_, rfl, hFits'⟩
  · exact ⟨_, rfl, hFits⟩

theorem removeChild_goesOn (hFits : srv.Fits) (self : Str) (p : Path) (notify : Bool) :
    ∃ srv', srv.removeChild self p notify = some srv' ∧ srv'.Fits := by
  unfold removeChild
  split
  · exact Lib.foldlM_goesOn (P := fun _ (t : Server regex Msg) => t.Fits)
      (fun q _ t ht => removeNode_goesOn ht self notify q) hFits
  · exact ⟨srv, rfl, hFits⟩

theorem setDataLoop_goesOn (hFits : srv.Fits) (self : Str) (data : Msg) (overwrite create quiet : Bool) (p : Path)
    (clauses : List Str) : ∃ srv', setDataLoop self data overwrite create quiet p clauses srv = some srv' ∧
      srv'.Fits := by
  induction clauses generalizing p srv with
  | nil => exact ⟨srv, rfl, hFits⟩
  | cons clause rest ih =>
    unfold setDataLoop
    split
    · split
      · split
        · exact setData_goesOn hFits ..
        · exact ⟨srv, rfl, hFits⟩
      · exact ih hFits _
    · split
      · obtain ⟨t, ht, hFits'⟩ := putChild_goesOn hFits self p clause (if rest.isEmpty then data else srv.blankMessage)
          (!(quiet || rest.isEmpty))
        rw [ht, Option.bind_some]
        dsimp only
        have hCounted : (t.countNodes self (· + 1)).Fits := fits_countNodes hFits' _
        split
        · exact setData_goesOn hCounted ..
        · exact ih hCounted _
      · exact ⟨srv, rfl, hFits⟩

theorem setDataNode_goesOn (hFits : srv.Fits) (self nodePath : Str) (data : Msg) (overwrite create quiet : Bool) :
    ∃ srv', srv.setDataNode self nodePath data overwrite create quiet = some srv' ∧ srv'.Fits := by
  unfold setDataNode
  split
  · split
    · exact ⟨srv, rfl, hFits⟩
    · split
      · exact ⟨srv, rfl, hFits⟩
      · exact setDataLoop_goesOn hFits ..
  · exact ⟨srv, rfl, hFits⟩

theorem setDataFields_goesOn (hFits : srv.Fits) (self : Str) (fields : List (Str × Msg)) (quiet : Bool) :
    ∃ srv', fields.foldlM (fun srv field => srv.setDataNode self field.1 field.2 true true quiet) srv = some srv' ∧
      srv'.Fits :=
  Lib.foldlM_goesOn (P := fun _ (t : Server regex Msg) => t.Fits)
    (fun field _ _ ht => setDataNode_goesOn ht self field.1 field.2 true true quiet) hFits

theorem doRemoveData_goesOn (hFits : srv.Fits) (self : Str) (matcher : PathMatcher regex Msg) (quiet : Bool) :
    ∃ srv', srv.doRemoveData self matcher quiet = some srv' ∧ srv'.Fits := by
  unfold doRemoveData
  split
  · refine Lib.foldlM_goesOn (P := fun _ (t : Server regex Msg) => t.Fits) (fun p _ t ht => ?_) hFits
    unfold removeDataStep
    split
    · obtain ⟨u, hRemove, hFits'⟩ := removeChild_goesOn ht self p (!quiet)
      rw [hRemove]
      exact ⟨_, rfl, fits_countNodes hFits' _⟩
    · exact ⟨t, rfl, ht⟩
  · exact ⟨srv, rfl, hFits⟩

theorem insertOrderedData_goesOn (hFits : srv.Fits) (self : Str) (insertions : List (Path × Str × Msg)) :
    ∃ srv', srv.insertOrderedData self insertions = some srv' ∧ srv'.Fits := by
  unfold insertOrderedData
  split
  · refine Lib.foldlM_goesOn (P := fun _ (t : Server regex Msg) => t.Fits) (fun insertion _ t ht => ?_) hFits
    unfold insertOrderedStep
    split
    · obtain ⟨u, hPut, hFits'⟩ := putChild_goesOn ht self insertion.1 insertion.2.1 insertion.2.2 true
      rw [hPut]
      exact ⟨_, rfl, fits_updateMember hFits' fun m hm => hFits' m.session (mem_sessions.mpr ⟨m, hm, rfl⟩)⟩
    · exact ⟨t, rfl, ht⟩
  · exact ⟨srv, rfl, hFits⟩

/-! ### Sessions -/

theorem attach_goesOn (hFits : srv.Fits) (host id : Str) (maxNodeCount : Nat) :
    ∃ srv', srv.attach host id maxNodeCount = some srv' := by
  unfold attach
  split
  · exact ⟨srv, rfl⟩
  · have hJoined : ({ srv with members := srv.members ++ [Member.new regex Msg host id maxNodeCount] } :
        Server regex Msg).Fits := by
      intro s hs
      obtain ⟨m, hm, rfl⟩ := mem_sessions.mp hs
      rcases List.mem_append.mp hm with hOld | hNew
      · exact hFits _ (mem_sessions.mpr ⟨m, hOld, rfl⟩)
      · rw [List.mem_singleton.mp hNew]
        exact Session.fits_of_none rfl
    dsimp only
    split
    · rw [Option.bind_some]
      obtain ⟨u, hu, -⟩ := putChild_goesOn hJoined id [host] id srv.blankMessage true
      exact ⟨_, congrArg (Option.map pushSubscriptionMessages) hu⟩
    · obtain ⟨t, ht, hFits'⟩ := putChild_goesOn hJoined id [] host srv.blankMessage true
      obtain ⟨u, hu, -⟩ := putChild_goesOn hFits' id [host] id t.blankMessage true
      refine ⟨u.pushSubscriptionMessages, Option.bind_eq_some_iff.mpr ⟨t, ht, ?_⟩⟩
      exact congrArg (Option.map pushSubscriptionMessages) hu

theorem detach_goesOn (hFits : srv.Fits) (id : Str) : ∃ srv', srv.detach id = some srv' := by
  unfold detach
  split
  · rename_i m hm
    have hNodes : ∃ t, srv.cleanupNodes m = some t := by
      unfold cleanupNodes
      split
      · obtain ⟨t, ht, hFits'⟩ := removeChild_goesOn hFits m.session.id m.sessionDir true
        rw [ht, Option.bind_some]
        split
        · obtain ⟨u, hu, -⟩ := removeChild_goesOn hFits' m.session.id [m.host] true
          rw [hu]
          exact ⟨_, rfl⟩
        · exact ⟨_, rfl⟩
      · exact ⟨srv, rfl⟩
    obtain ⟨t, ht⟩ := hNodes
    rw [ht]
    exact ⟨_, rfl⟩
  · exact ⟨srv, rfl⟩

end Server

end BeShare.Muscle.Reflect
