import BeShare.Reflect.MirrorSubscribe

/-!
What a session's commands leave alone: all nodes that are not below its own node, and all that other sessions are apart
from their messages.
-/

namespace BeShare.Muscle.Reflect

variable {regex : Regex} {Msg : Type}

/-- Not strictly below a node. -/
def Outside (dir q : Path) : Prop :=
  ¬(dir <+: q ∧ dir ≠ q)

theorem ne_of_outside {dir p q : Path} (hOut : Outside dir q) (hBelow : dir <+: p) (hOther : dir ≠ p) : q ≠ p := by
  rintro rfl
  exact hOut ⟨hBelow, hOther⟩

theorem ne_append_singleton {dir p : Path} {name : Str} (hBelow : dir <+: p) : dir ≠ p ++ [name] := by
  intro hSame
  have hLength := hBelow.length_le
  rw [hSame, List.length_append, List.length_singleton] at hLength
  omega

/-- A member as another session may see it change: of the session itself only that it is there. -/
def Member.guise (self : Str) (m : Member regex Msg) :
    Str × Str × Option (Str × PathMatcher regex Msg × List Str × Bool × Bool × UInt32) :=
  (m.host, m.session.id, if m.session.id = self then none else some m.session.settings)

namespace Server

variable {srv srv' srv'' : Server regex Msg} {self id : Str} {dir p q : Path}

/-- What the commands of a session with this ID and this node of its own leave alone. -/
structure Isolated (id : Str) (dir : Path) (srv srv' : Server regex Msg) : Prop where
  paths : ∀ q, Outside dir q → (q ∈ srv'.db.paths ↔ q ∈ srv.db.paths)
  data : ∀ q, Outside dir q → srv'.db.data q = srv.db.data q
  members : srv'.members.map (Member.guise id) = srv.members.map (Member.guise id)

theorem Isolated.refl (srv : Server regex Msg) : Isolated self dir srv srv :=
  ⟨fun _ _ => Iff.rfl, fun _ _ => rfl, rfl⟩

theorem Isolated.trans (h : Isolated self dir srv srv') (h' : Isolated self dir srv' srv'') :
    Isolated self dir srv srv'' :=
  ⟨fun q hq => (h'.paths q hq).trans (h.paths q hq), fun q hq => (h'.data q hq).trans (h.data q hq),
    h'.members.trans h.members⟩

theorem Isolated.ids (h : Isolated self dir srv srv') :
    srv'.members.map (fun m => m.session.id) = srv.members.map fun m => m.session.id := by
  have hIds := congrArg (List.map fun k => k.2.1) h.members
  rw [List.map_map, List.map_map] at hIds
  exact hIds

theorem Isolated.idsNodup (h : Isolated self dir srv srv') (hIds : srv.IdsNodup) : srv'.IdsNodup := by
  unfold IdsNodup
  rw [h.ids]
  exact hIds

theorem Similar.isolated (h : Similar srv srv') : Isolated self dir srv srv' := by
  refine ⟨fun q _ => by rw [h.db], fun q _ => by rw [h.db], ?_⟩
  have hGuise := congrArg (List.map fun k : Str × Str × PathMatcher regex Msg × List Str × Bool × Bool × UInt32 =>
    (k.1, k.2.1, if k.2.1 = self then none else some k.2)) h.members
  rw [List.map_map, List.map_map] at hGuise
  exact hGuise

/-- The session itself changes. -/
theorem isolated_updateMember {f : Member regex Msg → Member regex Msg}
    (hf : ∀ m, m.session.id = self → (f m).host = m.host ∧ (f m).session.id = self) :
    Isolated self dir srv (srv.updateMember self f) := by
  refine ⟨fun _ _ => Iff.rfl, fun _ _ => rfl, ?_⟩
  unfold updateMember
  rw [List.map_map]
  refine List.map_congr_left fun m _ => ?_
  show Member.guise self (if m.session.id = self then f m else m) = Member.guise self m
  split
  next hSelf =>
    obtain ⟨hHost, hId⟩ := hf m hSelf
    unfold Member.guise
    rw [hHost, hId, hSelf, if_pos rfl, if_pos rfl]
  next => rfl

/-- The tree changes, but not outside. -/
theorem isolated_db {db : Database Msg} (hPaths : ∀ q, Outside dir q → (q ∈ db.paths ↔ q ∈ srv.db.paths))
    (hData : ∀ q, Outside dir q → db.data q = srv.db.data q) : Isolated self dir srv { srv with db := db } :=
  ⟨hPaths, hData, rfl⟩

theorem isolated_notify (hIds : srv.IdsNodup) {oldData : Option Msg} {isBeingRemoved : Bool}
    (h : srv.notifySubscribersThatNodeChanged id p oldData isBeingRemoved = some srv') :
    Isolated self dir srv srv' :=
  (similar_notify hIds h).isolated

/-! ### Nodes -/

theorem isolated_putChild (hIds : srv.IdsNodup) {name : Str} {data : Msg} {notify : Bool} (hBelow : dir <+: p)
    (hNew : p ++ [name] ∉ srv.db.paths) (h : srv.putChild self p name data notify = some srv') :
    Isolated self dir srv srv' := by
  by_cases hParent : p ∈ srv.db.paths
  · have hOther : ∀ q, Outside dir q → q ≠ p ++ [name] := fun q hOut =>
      ne_of_outside hOut (hBelow.trans (List.prefix_append ..)) (ne_append_singleton hBelow)
    have hMade : Isolated self dir srv
        { srv with db := srv.db.putChild p name (srv.newNode (p ++ [name]) data) } := by
      refine isolated_db (fun q hOut => ?_) fun q hOut => ?_
      · rw [Database.mem_paths_putChild hParent hNew]
        exact or_iff_right (hOther q hOut)
      · rw [Database.data_putChild hParent hNew, if_neg (hOther q hOut)]
    unfold putChild at h
    dsimp only at h
    split at h
    · exact hMade.trans (isolated_notify (hMade.idsNodup hIds) h)
    · cases h
      exact hMade
  · rw [putChild_of_no_parent hParent] at h
    cases h
    exact .refl srv

theorem isolated_setData (hIds : srv.IdsNodup) {data : Msg} {notify isBeingCreated : Bool} (hBelow : dir <+: p)
    (hOther : dir ≠ p) (h : srv.setData self p data notify isBeingCreated = some srv') :
    Isolated self dir srv srv' := by
  have hSet : Isolated self dir srv { srv with db := srv.db.modify p fun n => { n with data := some data } } := by
    refine isolated_db (fun q _ => Database.mem_paths_modify p q) fun q hOut => ?_
    rw [Database.data_modify, if_neg (ne_of_outside hOut hBelow hOther)]
  unfold setData at h
  dsimp only at h
  split at h
  · exact hSet.trans (isolated_notify (hSet.idsNodup hIds) h)
  · cases h
    exact hSet

theorem isolated_removeNode (hIds : srv.IdsNodup) {notify : Bool} (hBelow : dir <+: p) (hOther : dir ≠ p)
    (h : removeNode id notify srv p = some srv') : Isolated self dir srv srv' := by
  unfold removeNode at h
  obtain ⟨t, hNotify, rfl⟩ := Option.map_eq_some_iff.mp h
  have ht : Isolated self dir srv t := by
    split at hNotify
    · exact isolated_notify hIds hNotify
    · cases hNotify
      exact .refl srv
  refine ht.trans ?_
  by_cases hLeaf : t.db.children p = []
  · refine isolated_db (fun q hOut => ?_) fun q hOut => ?_
    · rw [Database.mem_paths_dropNode hLeaf]
      exact and_iff_left (ne_of_outside hOut hBelow hOther)
    · rw [Database.data_dropNode hLeaf, if_neg (ne_of_outside hOut hBelow hOther)]
  · unfold Database.dropNode
    rw [dif_neg hLeaf]
    exact .refl t

/-- Steps that each leave alone what is outside, one after another. -/
theorem isolated_foldlM {α : Type} {f : Server regex Msg → α → Option (Server regex Msg)} {l : List α}
    (hIds : srv.IdsNodup) (h : l.foldlM f srv = some srv')
    (hStep : ∀ a ∈ l, ∀ t t', t.IdsNodup → f t a = some t' → Isolated self dir t t') : Isolated self dir srv srv' :=
  Lib.foldlM_keeps (P := Isolated self dir srv) h
    (fun a ha t t' ht hf => ht.trans (hStep a ha t t' (ht.idsNodup hIds) hf)) (.refl srv)

/-! ### Commands -/

theorem isolated_countNodes (count : Nat → Nat) : Isolated self dir srv (srv.countNodes self count) :=
  isolated_updateMember fun _ hId => ⟨rfl, hId⟩

theorem isolated_setDataLoop (hIds : srv.IdsNodup) {data : Msg} {overwrite create quiet : Bool} {clauses : List Str}
    (hBelow : dir <+: p) (h : setDataLoop self data overwrite create quiet p clauses srv = some srv') :
    Isolated self dir srv srv' := by
  induction clauses generalizing p srv with
  | nil =>
    cases h
    exact .refl _
  | cons clause rest ih =>
    have hChild : dir <+: p ++ [clause] := hBelow.trans (List.prefix_append ..)
    unfold setDataLoop at h
    split at h
    · split at h
      · split at h
        · exact isolated_setData hIds hChild (ne_append_singleton hBelow) h
        · cases h
          exact .refl _
      · exact ih hIds hChild h
    next hNot =>
      split at h
      · obtain ⟨t, hPut, hRest⟩ := Option.bind_eq_some_iff.mp h
        have hMade := isolated_putChild hIds hBelow (fun hOld => hNot (decide_eq_true hOld)) hPut
        have hCounted := hMade.trans (isolated_countNodes (· + 1))
        have hIds' := hCounted.idsNodup hIds
        dsimp only at hRest
        split at hRest
        · exact hCounted.trans (isolated_setData hIds' hChild (ne_append_singleton hBelow) hRest)
        · exact hCounted.trans (ih hIds' hChild hRest)
      · cases h
        exact .refl _

theorem isolated_setDataNode (hIds : srv.IdsNodup) (hOwn : ∀ m, srv.member? self = some m → m.sessionDir = dir)
    {nodePath : Str} {data : Msg} {overwrite create quiet : Bool}
    (h : srv.setDataNode self nodePath data overwrite create quiet = some srv') : Isolated self dir srv srv' := by
  unfold setDataNode at h
  split at h
  next m hm =>
    split at h
    · cases h
      exact .refl _
    · split at h
      · cases h
        exact .refl _
      · exact isolated_setDataLoop hIds (hOwn m hm ▸ List.prefix_refl _) h
  next =>
    cases h
    exact .refl _

theorem isolated_applyEffect (hIds : srv.IdsNodup) {effect : Effect Msg}
    (h : srv.applyEffect id effect = some srv') : Isolated self dir srv srv' := by
  unfold applyEffect at h
  split at h
  · split at h
    · cases h
      exact isolated_db (fun q _ => paths_foldl_modify _ _ _ q)
        fun q _ => data_foldl_modify (fun n => DataNode.data_increment ..) _ _ q
    · cases h
      exact .refl _
  · exact isolated_foldlM hIds h fun change _ t t' ht hStep =>
      (similar_deliver ht (fun _ _ _ => Session.settings_nodeChangedAux) hStep).isolated

theorem isolated_parameterStep (hIds : srv.IdsNodup)
    {change : Session regex Msg → Session regex Msg × Option (Effect Msg)} (hId : ∀ s, (change s).1.id = s.id)
    (h : srv.parameterStep self change = some srv') : Isolated self dir srv srv' := by
  unfold parameterStep at h
  split at h
  next m hm =>
    have hUpdate : Isolated self dir srv
        (srv.updateMember self fun m' => { m' with session := (change m.session).1 }) :=
      isolated_updateMember fun _ _ => ⟨rfl, (hId _).trans (member?_mem hm).2⟩
    dsimp only at h
    split at h
    · exact hUpdate.trans (isolated_applyEffect (hUpdate.idsNodup hIds) h)
    · cases h
      exact hUpdate
  next =>
    cases h
    exact .refl _

theorem isolated_setFields (hIds : srv.IdsNodup) {fields : List (Field Msg)}
    (h : fields.foldlM (fun (srv : Server regex Msg) f => srv.parameterStep self fun s => s.setParameter f) srv =
      some srv') : Isolated self dir srv srv' :=
  isolated_foldlM hIds h fun f _ _ _ ht hStep =>
    isolated_parameterStep ht (fun s => (s.accounts_setParameter f).1) hStep

theorem isolated_removeParameters (hIds : srv.IdsNodup) {keys : List Str}
    (h : srv.removeParameters self keys = some srv') : Isolated self dir srv srv' := by
  unfold removeParameters at h
  split at h
  · exact isolated_foldlM hIds h fun name _ _ _ ht hStep =>
      isolated_parameterStep ht (fun s => (s.accounts_removeParameter name).1) hStep
  · cases h
    exact .refl _

theorem isolated_doGetData (matcher : PathMatcher regex Msg) : Isolated self dir srv (srv.doGetData self matcher) :=
  isolated_updateMember fun _ hId => ⟨rfl, hId⟩

end Server

end BeShare.Muscle.Reflect
