import BeShare.Reflect.GetData

/-!
The commands that change the nodes of a session keep the clients' tables right.
-/

namespace BeShare.Muscle.Reflect

variable {regex : Regex} {Msg : Type}

namespace Server

variable {srv srv' : Server regex Msg} {self id : Str} {p q : Path}

/-- A node at or below the node of a session that is there. -/
def BelowSession (srv : Server regex Msg) (self : Str) (p : Path) : Prop :=
  ∃ k ∈ srv.members.map Member.settings, k.2.1 = self ∧ [k.1, self] <+: p

theorem BelowSession.ownedBy (h : srv.BelowSession self p) : OwnedBy self p := by
  obtain ⟨k, -, -, rest, rfl⟩ := h
  intro i hi
  exact (Option.some.inj hi).symm

theorem BelowSession.ownerThere (h : srv.BelowSession self p) : srv.OwnerThere p := by
  obtain ⟨k, hk, hId, rest, rfl⟩ := h
  intro host i hHost hi
  exact ⟨k, hk, Option.some.inj hHost, hId.trans (Option.some.inj hi)⟩

theorem BelowSession.child (h : srv.BelowSession self p) (rest : Path) : srv.BelowSession self (p ++ rest) := by
  obtain ⟨k, hk, hId, hPrefix⟩ := h
  exact ⟨k, hk, hId, hPrefix.trans (List.prefix_append ..)⟩

theorem BelowSession.of_settings (h : srv.BelowSession self p)
    (hSame : srv'.members.map Member.settings = srv.members.map Member.settings) : srv'.BelowSession self p := by
  unfold BelowSession
  rw [hSame]
  exact h

theorem belowSession_sessionDir {m : Member regex Msg} (h : srv.member? self = some m) :
    srv.BelowSession self m.sessionDir := by
  obtain ⟨hm, hId⟩ := member?_mem h
  refine ⟨m.settings, List.mem_map_of_mem hm, hId, ?_⟩
  unfold Member.sessionDir
  rw [hId]
  exact List.prefix_refl _

theorem follows_setDataLoop (hMirrored : srv.Mirrored) {data : Msg} {overwrite create : Bool} {clauses : List Str}
    (hBelow : srv.BelowSession self p)
    (h : setDataLoop self data overwrite create false p clauses srv = some srv') : Follows srv srv' := by
  induction clauses generalizing p srv with
  | nil =>
    cases h
    exact .refl hMirrored
  | cons clause rest ih =>
    have hChild := hBelow.child [clause]
    unfold setDataLoop at h
    split at h
    · rename_i hOld
      have hIn : p ++ [clause] ∈ srv.db.paths := of_decide_eq_true hOld
      split at h
      · split at h
        · exact follows_setData hMirrored hChild.ownedBy hIn h
        · cases h
          exact .refl hMirrored
      · exact ih hMirrored hChild h
    · rename_i hNot
      have hNew : p ++ [clause] ∉ srv.db.paths := fun hIn => hNot (decide_eq_true hIn)
      split at h
      · obtain ⟨t, hPut, hRest⟩ := Option.bind_eq_some_iff.mp h
        dsimp only at hRest
        cases hLast : rest.isEmpty with
        | true =>
          rw [hLast] at hPut hRest
          exact follows_putChild_setData hMirrored (· + 1) hChild.ownedBy hChild.ownerThere hNew hPut hRest
        | false =>
          rw [hLast] at hPut hRest
          obtain ⟨hMade, -⟩ := follows_putChild hMirrored hChild.ownedBy hChild.ownerThere hNew hPut
          have hCounted : Follows t (t.countNodes self (· + 1)) :=
            follows_updateMember hMade.mirrored (fun _ => rfl) fun _ => rfl
          have hBoth := hMade.trans hCounted
          exact hBoth.trans (ih hBoth.mirrored (hChild.of_settings hBoth.settings) hRest)
      · cases h
        exact .refl hMirrored

theorem follows_setDataNode (hMirrored : srv.Mirrored) {nodePath : Str} {data : Msg} {overwrite create : Bool}
    (h : srv.setDataNode self nodePath data overwrite create false = some srv') : Follows srv srv' := by
  unfold setDataNode at h
  split at h
  · rename_i m hm
    split at h
    · cases h
      exact .refl hMirrored
    · split at h
      · cases h
        exact .refl hMirrored
      · exact follows_setDataLoop hMirrored (belowSession_sessionDir hm) h
  · cases h
    exact .refl hMirrored

/-- Steps that each keep the tables right, one after another. -/
theorem follows_foldlM {α : Type} {f : Server regex Msg → α → Option (Server regex Msg)} {l : List α}
    (hMirrored : srv.Mirrored) (h : l.foldlM f srv = some srv')
    (hStep : ∀ a ∈ l, ∀ t t', Follows srv t → f t a = some t' → Follows t t') : Follows srv srv' :=
  Lib.foldlM_keeps h (fun a ha t t' ht hf => ht.trans (hStep a ha t t' ht hf)) (.refl hMirrored)

theorem follows_setDataFields (hMirrored : srv.Mirrored) {fields : List (Str × Msg)}
    (h : fields.foldlM (fun srv field => srv.setDataNode self field.1 field.2 true true false) srv = some srv') :
    Follows srv srv' :=
  follows_foldlM hMirrored h fun _ _ _ _ ht hStep => follows_setDataNode ht.mirrored hStep

theorem follows_doRemoveData (hMirrored : srv.Mirrored) {matcher : PathMatcher regex Msg}
    (h : srv.doRemoveData self matcher false = some srv') : Follows srv srv' := by
  unfold doRemoveData at h
  split at h
  · rename_i m hm
    refine follows_foldlM hMirrored h fun p hp t t' ht hStep => ?_
    have hBelow : t.BelowSession self p := by
      obtain ⟨rest, rfl⟩ := PathMatcher.below_of_mem_doTraversal (List.mem_reverse.mp hp)
      exact ((belowSession_sessionDir hm).child rest).of_settings ht.settings
    unfold removeDataStep at hStep
    split at hStep
    · obtain ⟨u, hRemove, rfl⟩ := Option.map_eq_some_iff.mp hStep
      obtain ⟨hRemoved, -⟩ := follows_removeChild ht.mirrored (fun q _ hPrefix => by
        obtain ⟨rest, rfl⟩ := hPrefix
        exact (hBelow.child rest).ownedBy) hRemove
      exact hRemoved.trans (follows_updateMember hRemoved.mirrored (fun _ => rfl) fun _ => rfl)
    · cases hStep
      exact .refl ht.mirrored
  · cases h
    exact .refl hMirrored

theorem follows_insertOrderedData (hMirrored : srv.Mirrored) {insertions : List (Path × Str × Msg)}
    (h : srv.insertOrderedData self insertions = some srv') : Follows srv srv' := by
  unfold insertOrderedData at h
  split at h
  · rename_i m hm
    refine follows_foldlM hMirrored h fun insertion hIn t t' ht hStep => ?_
    unfold insertOrderedStep at hStep
    split at hStep
    · rename_i hGuard
      obtain ⟨u, hPut, rfl⟩ := Option.map_eq_some_iff.mp hStep
      obtain ⟨rest, hRest⟩ := of_decide_eq_true (List.mem_filter.mp hIn).2
      have hBelow : t.BelowSession self (insertion.1 ++ [insertion.2.1]) := by
        rw [← hRest]
        exact (((belowSession_sessionDir hm).child rest).child _).of_settings ht.settings
      obtain ⟨hMade, -⟩ := follows_putChild ht.mirrored hBelow.ownedBy hBelow.ownerThere
        (of_decide_eq_false hGuard.2.1) hPut
      exact hMade.trans (follows_updateMember hMade.mirrored (fun _ => rfl) fun _ => rfl)
    · cases hStep
      exact .refl ht.mirrored
  · cases h
    exact .refl hMirrored

end Server

end BeShare.Muscle.Reflect
