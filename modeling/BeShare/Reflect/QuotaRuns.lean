import BeShare.Reflect.Copies
import BeShare.Reflect.Quota

/-!
The quota of nodes over runs: each session counts the nodes below its own, and has no more than it may have.
-/

namespace BeShare.Muscle.Reflect

variable {regex : Regex} {Msg : Type}

theorem below_append (paths : List Path) (q dir : Path) :
    below (paths ++ [q]) dir = below paths dir + if dir <+: q ∧ dir ≠ q then 1 else 0 := by
  unfold below
  rw [List.countP_append, List.countP_singleton]
  simp only [decide_eq_true_eq]

/-- What is not below a node need not be there. -/
theorem below_filter_of_apart {paths : List Path} {keep : Path → Bool} {dir : Path}
    (h : ∀ q ∈ paths, dir <+: q → dir ≠ q → keep q = true) : below (paths.filter keep) dir = below paths dir := by
  unfold below
  rw [List.countP_filter]
  refine List.countP_congr fun q hq => ?_
  rw [Bool.and_eq_true, decide_eq_true_iff]
  exact and_iff_left_of_imp fun hBelow => h q hq hBelow.1 hBelow.2

/-- What is removed from below a node was counted there. -/
theorem below_filter_add {paths : List Path} {dir p : Path} (hBelow : dir <+: p) (hOther : dir ≠ p) :
    below (paths.filter fun q => decide (¬p <+: q)) dir + paths.countP (fun q => decide (p <+: q)) =
      below paths dir := by
  unfold below
  induction paths with
  | nil => rfl
  | cons q paths ih =>
    by_cases hq : p <+: q
    · have hHere : dir <+: q ∧ dir ≠ q := by
        refine ⟨hBelow.trans hq, fun hSame => hOther ?_⟩
        exact hBelow.eq_of_length (Nat.le_antisymm hBelow.length_le (hSame ▸ hq.length_le))
      rw [List.filter_cons_of_neg (by simpa using hq), List.countP_cons, List.countP_cons, if_pos (decide_eq_true hq),
        if_pos (decide_eq_true hHere), ← ih]
      rfl
    · rw [List.filter_cons_of_pos (by simpa using hq), List.countP_cons, List.countP_cons, List.countP_cons, ← ih,
        if_neg (mt of_decide_eq_true hq)]
      omega

/-- The count of one session changes. -/
def recount (self : Str) (count : Nat → Nat) (tallies : List Tally) : List Tally :=
  tallies.map fun k => if k.id = self then { k with count := count k.count } else k

namespace Server

variable {srv srv' srv'' : Server regex Msg} {self id : Str} {p q : Path}

/-- The own nodes of the sessions. -/
def dirs (srv : Server regex Msg) : List Path :=
  srv.tallies.map Tally.dir

/-- Each session has a node of its own, and counts what is below it. -/
structure Counted (srv : Server regex Msg) : Prop where
  ids : (srv.tallies.map Tally.id).Nodup
  root : [] ∈ srv.db.paths
  dirs : ∀ dir ∈ srv.dirs, dir ∈ srv.db.paths
  owners : ∀ host id, [host, id] ∈ srv.db.paths → [host, id] ∈ srv.dirs
  counts : ∀ k ∈ srv.tallies, k.count = below srv.db.paths k.dir
  room : ∀ k ∈ srv.tallies, k.count ≤ k.max

/-- What an operation of a session leaves: the counts are right, and the sessions are the same. -/
structure Counts (srv srv' : Server regex Msg) : Prop where
  counted : srv'.Counted
  dirs : srv'.dirs = srv.dirs

theorem Counts.refl (h : srv.Counted) : Counts srv srv :=
  ⟨h, rfl⟩

theorem Counts.trans (h : Counts srv srv') (h' : Counts srv' srv'') : Counts srv srv'' :=
  ⟨h'.counted, h'.dirs.trans h.dirs⟩

theorem SameTally.counts (hSame : SameTally srv srv') (h : srv.Counted) : Counts srv srv' := by
  have hDirs : srv'.dirs = srv.dirs := congrArg (List.map Tally.dir) hSame.tallies
  refine ⟨⟨?_, ?_, ?_, ?_, ?_, ?_⟩, hDirs⟩
  · rw [hSame.tallies]
    exact h.ids
  · rw [hSame.paths]
    exact h.root
  · rw [hSame.paths, hDirs]
    exact h.dirs
  · rw [hSame.paths, hDirs]
    exact h.owners
  · rw [hSame.paths, hSame.tallies]
    exact h.counts
  · rw [hSame.tallies]
    exact h.room

theorem tally_eq (h : srv.Counted) {k k' : Tally} (hk : k ∈ srv.tallies) (hk' : k' ∈ srv.tallies)
    (hId : k.id = k'.id) : k = k' :=
  List.inj_on_of_nodup_map h.ids hk hk' hId

/-- The node is the session's own, or below it. -/
def Holds (srv : Server regex Msg) (self : Str) (p : Path) : Prop :=
  ∃ host, [host, self] ∈ srv.dirs ∧ [host, self] <+: p

theorem Holds.child (h : srv.Holds self p) (rest : Path) : srv.Holds self (p ++ rest) := by
  obtain ⟨host, hDir, hPrefix⟩ := h
  exact ⟨host, hDir, hPrefix.trans (List.prefix_append ..)⟩

theorem Holds.of_counts (h : srv.Holds self p) (hCounts : Counts srv srv') : srv'.Holds self p := by
  unfold Holds
  rw [hCounts.dirs]
  exact h

theorem holds_sessionDir {m : Member regex Msg} (h : srv.member? self = some m) : srv.Holds self m.sessionDir := by
  obtain ⟨hm, hId⟩ := member?_mem h
  refine ⟨m.host, List.mem_map.mpr ⟨m.tally, tally_mem hm, ?_⟩, ?_⟩
  · rw [← hId]
    rfl
  · rw [← hId]
    exact List.prefix_refl _

/-- Only the session with the ID has the nodes. -/
theorem Holds.onlyHolder (h : srv.Holds self p) (hCounted : srv.Counted) {k : Tally} (hk : k ∈ srv.tallies) :
    (k.id = self → k.dir <+: p) ∧ (k.id ≠ self → ∀ q, p <+: q → ¬k.dir <+: q) := by
  obtain ⟨host, hDir, hPrefix⟩ := h
  obtain ⟨own, hOwn, hOwnDir⟩ := List.mem_map.mp hDir
  have hOwnId : own.id = self := (List.cons.inj (List.cons.inj hOwnDir).2).1
  constructor
  · intro hId
    rw [tally_eq hCounted hk hOwn (hId.trans hOwnId.symm), hOwnDir]
    exact hPrefix
  · intro hOther q hq hBelow
    have hSame := (List.prefix_of_prefix_length_le hBelow (hPrefix.trans hq) (Nat.le_refl 2)).eq_of_length rfl
    exact hOther (List.cons.inj (List.cons.inj hSame).2).1

/-! ### Counts that change -/

theorem tallies_updateMember {f : Member regex Msg → Member regex Msg} {count : Nat → Nat}
    (hf : ∀ m, (f m).tally = { m.tally with count := count m.currentNodeCount }) :
    (srv.updateMember self f).tallies = recount self count srv.tallies := by
  unfold tallies updateMember recount
  rw [List.map_map, List.map_map]
  refine List.map_congr_left fun m _ => ?_
  show (if m.session.id = self then f m else m).tally = if m.session.id = self then _ else m.tally
  split
  · exact hf m
  · rfl

theorem mem_recount {count : Nat → Nat} {k' : Tally} {tallies : List Tally} (h : k' ∈ recount self count tallies) :
    ∃ k ∈ tallies, k' = if k.id = self then { k with count := count k.count } else k := by
  obtain ⟨k, hk, rfl⟩ := List.mem_map.mp h
  exact ⟨k, hk, rfl⟩

theorem ids_recount (count : Nat → Nat) (tallies : List Tally) :
    (recount self count tallies).map Tally.id = tallies.map Tally.id := by
  unfold recount
  rw [List.map_map]
  refine List.map_congr_left fun k _ => ?_
  show (if k.id = self then { k with count := count k.count } else k).id = k.id
  split <;> rfl

theorem dirs_recount (count : Nat → Nat) (tallies : List Tally) :
    (recount self count tallies).map Tally.dir = tallies.map Tally.dir := by
  unfold recount
  rw [List.map_map]
  refine List.map_congr_left fun k _ => ?_
  show (if k.id = self then { k with count := count k.count } else k).dir = k.dir
  split <;> rfl

/-- A node is made below the session's own. -/
theorem Counted.create {name : Str} (h : srv.Counted) (hHolds : srv.Holds self p) (hRoom : srv.hasRoom self = true)
    (hPaths : srv'.db.paths = srv.db.paths ++ [p ++ [name]])
    (hTallies : srv'.tallies = recount self (· + 1) srv.tallies) : Counts srv srv' := by
  have hDirs : srv'.dirs = srv.dirs := (congrArg (List.map Tally.dir) hTallies).trans (dirs_recount ..)
  have hMore : ∀ q ∈ srv.db.paths, q ∈ srv'.db.paths := fun q hq => hPaths ▸ List.mem_append_left _ hq
  refine ⟨⟨?_, hMore _ h.root, fun dir hDir => hMore _ (h.dirs dir (hDirs ▸ hDir)), fun host id hIn => ?_,
    fun k' hk' => ?_, fun k' hk' => ?_⟩, hDirs⟩
  · rw [hTallies, ids_recount]
    exact h.ids
  · rw [hPaths] at hIn
    rw [hDirs]
    refine h.owners host id ((List.mem_append.mp hIn).resolve_right fun hNew => ?_)
    -- the new node is deeper than the nodes of sessions
    obtain ⟨owner, -, hPrefix⟩ := hHolds
    have hDeep := hPrefix.length_le
    have hLength := congrArg List.length (List.mem_singleton.mp hNew)
    simp only [List.length_append, List.length_cons, List.length_nil] at hDeep hLength
    omega
  · rw [hTallies] at hk'
    obtain ⟨k, hk, rfl⟩ := mem_recount hk'
    obtain ⟨hOwn, hOther⟩ := hHolds.onlyHolder h hk
    rw [hPaths, below_append]
    split
    next hId =>
      have hPrefix := hOwn hId
      have hNot : k.dir ≠ p ++ [name] := by
        intro hSame
        have hLength := hPrefix.length_le
        rw [hSame, List.length_append, List.length_singleton] at hLength
        omega
      show k.count + 1 = below srv.db.paths k.dir + _
      rw [h.counts k hk]
      exact congrArg _ (if_pos ⟨hPrefix.trans (List.prefix_append ..), hNot⟩).symm
    next hId =>
      rw [h.counts k hk, if_neg fun hBelow => hOther hId _ (List.prefix_append ..) hBelow.1]
      rfl
  · rw [hTallies] at hk'
    obtain ⟨k, hk, rfl⟩ := mem_recount hk'
    split
    next hId =>
      obtain ⟨m, hm, hLess⟩ := (Option.any_eq_true _ _).mp hRoom
      obtain ⟨hIn, hSelf⟩ := member?_mem hm
      rw [tally_eq h hk (tally_mem hIn) (hId.trans hSelf.symm)]
      exact of_decide_eq_true hLess
    next => exact h.room k hk

/-- A node below the session's own goes, with all that is below it. -/
theorem Counted.remove (h : srv.Counted) (hHolds : srv.Holds self p) (hDeep : 2 < p.length)
    (hPaths : srv'.db.paths = srv.db.paths.filter fun q => decide (¬p <+: q))
    (hTallies : srv'.tallies = recount self (· - srv.db.paths.countP fun q => decide (p <+: q)) srv.tallies) :
    Counts srv srv' := by
  have hDirs : srv'.dirs = srv.dirs := (congrArg (List.map Tally.dir) hTallies).trans (dirs_recount ..)
  have hStays : ∀ q ∈ srv.db.paths, q.length ≤ 2 → q ∈ srv'.db.paths := by
    intro q hq hShort
    rw [hPaths]
    refine List.mem_filter.mpr ⟨hq, decide_eq_true fun hBelow => ?_⟩
    have hLength := hBelow.length_le
    omega
  refine ⟨⟨?_, hStays _ h.root (Nat.zero_le 2), fun dir hDir => ?_, fun host id hIn => ?_, fun k' hk' => ?_,
    fun k' hk' => ?_⟩, hDirs⟩
  · rw [hTallies, ids_recount]
    exact h.ids
  · rw [hDirs] at hDir
    refine hStays dir (h.dirs dir hDir) ?_
    obtain ⟨k, -, rfl⟩ := List.mem_map.mp hDir
    exact Nat.le_refl 2
  · rw [hPaths] at hIn
    rw [hDirs]
    exact h.owners host id (List.mem_filter.mp hIn).1
  · rw [hTallies] at hk'
    obtain ⟨k, hk, rfl⟩ := mem_recount hk'
    obtain ⟨hOwn, hOther⟩ := hHolds.onlyHolder h hk
    rw [hPaths]
    split
    next hId =>
      have hNot : k.dir ≠ p := by
        intro hSame
        rw [← hSame] at hDeep
        exact Nat.lt_irrefl 2 hDeep
      have hSum := @below_filter_add srv.db.paths k.dir p (hOwn hId) hNot
      show k.count - _ = below _ k.dir
      rw [h.counts k hk, ← hSum, Nat.add_sub_cancel]
    next hId =>
      rw [h.counts k hk]
      refine (below_filter_of_apart fun q _ hBelow _ => ?_).symm
      exact decide_eq_true_iff.mpr fun hq => hOther hId q hq hBelow
  · rw [hTallies] at hk'
    obtain ⟨k, hk, rfl⟩ := mem_recount hk'
    have hRoom := h.room k hk
    split
    next => exact Nat.le_trans (Nat.sub_le ..) hRoom
    next => exact hRoom

/-! ### Commands -/

/-- A node is made, and the session counts it. -/
theorem counts_putChild (h : srv.Counted) (hHolds : srv.Holds self p) (hIn : p ∈ srv.db.paths) {name : Str} {data : Msg}
    {notify : Bool} (hNew : p ++ [name] ∉ srv.db.paths) (hRoom : srv.hasRoom self = true)
    {f : Member regex Msg → Member regex Msg}
    (hf : ∀ m, (f m).tally = { m.tally with count := m.currentNodeCount + 1 }) {t : Server regex Msg}
    (hPut : srv.putChild self p name data notify = some t) :
    Counts srv (t.updateMember self f) ∧ p ++ [name] ∈ (t.updateMember self f).db.paths := by
  obtain ⟨hPaths, hTallies⟩ := tallies_putChild hIn hNew hPut
  refine ⟨h.create hHolds hRoom hPaths ?_, ?_⟩
  · rw [tallies_updateMember hf, hTallies]
  · show p ++ [name] ∈ t.db.paths
    rw [hPaths]
    exact List.mem_append_right _ (List.mem_singleton.mpr rfl)

theorem counts_insertOrderedChild (h : srv.Counted) (hHolds : srv.Holds self p) (hIn : p ∈ srv.db.paths) {name : Str}
    {data : Msg} {quiet : Bool} (hRoom : srv.hasRoom self = true)
    (hInsert : srv.insertOrderedChild self p name data quiet = some srv') : Counts srv srv' := by
  unfold insertOrderedChild at hInsert
  split at hInsert
  next =>
    cases hInsert
    exact .refl h
  next hNot =>
    obtain ⟨t, hPut, rfl⟩ := Option.map_eq_some_iff.mp hInsert
    exact (counts_putChild h hHolds hIn (fun hOld => hNot (decide_eq_true hOld)) hRoom (fun _ => rfl) hPut).1

/-- Induction on the clauses: the node reached so far is there, and the session's own or below it. -/
theorem counts_setNodeLoop (h : srv.Counted) (hHolds : srv.Holds self p) (hIn : p ∈ srv.db.paths) {data : Msg}
    {flags : SetFlags} {made : Str} {clauses : List Str} {status : Bool}
    (hLoop : setNodeLoop self data flags made p clauses srv = some (srv', status)) : Counts srv srv' := by
  induction clauses generalizing p srv with
  | nil =>
    cases hLoop
    exact .refl h
  | cons clause rest ih =>
    unfold setNodeLoop at hLoop
    split at hLoop
    next hOld =>
      split at hLoop
      · split at hLoop
        · cases hLoop
          exact .refl h
        · split at hLoop
          · obtain ⟨t, hSet, hSame⟩ := Option.map_eq_some_iff.mp hLoop
            cases hSame
            exact (tallies_setData hSet).counts h
          · cases hLoop
            exact .refl h
      · exact ih h (hHolds.child [clause]) (of_decide_eq_true hOld) hLoop
    next hNot =>
      have hNew : p ++ [clause] ∉ srv.db.paths := fun hOld => hNot (decide_eq_true hOld)
      split at hLoop
      next hGuard =>
        have hRoom := ((Bool.and_eq_true _ _).mp hGuard).2
        split at hLoop
        · obtain ⟨t, hInsert, hSame⟩ := Option.map_eq_some_iff.mp hLoop
          cases hSame
          exact counts_insertOrderedChild h hHolds hIn hRoom hInsert
        · obtain ⟨t, hPut, hRest⟩ := Option.bind_eq_some_iff.mp hLoop
          obtain ⟨hMade, hThere⟩ := counts_putChild h hHolds hIn hNew hRoom
            (f := fun m => { m with currentNodeCount := m.currentNodeCount + 1 }) (fun _ => rfl) hPut
          dsimp only at hRest
          split at hRest
          · obtain ⟨u, hSet, hSame⟩ := Option.map_eq_some_iff.mp hRest
            cases hSame
            exact hMade.trans ((tallies_setData hSet).counts hMade.counted)
          · exact hMade.trans (ih hMade.counted ((hHolds.child [clause]).of_counts hMade) hThere hRest)
      next =>
        cases hLoop
        exact .refl h

theorem sessionDir_mem (h : srv.Counted) {m : Member regex Msg} (hm : srv.member? self = some m) :
    m.sessionDir ∈ srv.db.paths :=
  h.dirs _ (List.mem_map.mpr ⟨m.tally, tally_mem (member?_mem hm).1, rfl⟩)

theorem counts_setNode (h : srv.Counted) {nodePath : Str} {data : Msg} {flags : SetFlags} {made : Str} {status : Bool}
    (hSet : srv.setNode self nodePath data flags made = some (srv', status)) : Counts srv srv' := by
  unfold setNode at hSet
  split at hSet
  next m hm =>
    split at hSet
    · cases hSet
      exact .refl h
    · exact counts_setNodeLoop h (holds_sessionDir hm) (sessionDir_mem h hm) hSet
  next =>
    cases hSet
    exact .refl h

theorem counts_setDataNode (h : srv.Counted) {nodePath : Str} {data : Msg} {overwrite create quiet : Bool}
    (hSet : srv.setDataNode self nodePath data overwrite create quiet = some srv') : Counts srv srv' := by
  unfold setDataNode at hSet
  split at hSet
  next m hm =>
    split at hSet
    · cases hSet
      exact .refl h
    · split at hSet
      · cases hSet
        exact .refl h
      · rw [← setNodeLoop_fst self data overwrite create quiet []] at hSet
        obtain ⟨⟨t, status⟩, hLoop, rfl⟩ := Option.map_eq_some_iff.mp hSet
        exact counts_setNodeLoop h (holds_sessionDir hm) (sessionDir_mem h hm) hLoop
  next =>
    cases hSet
    exact .refl h

/-- Steps that each keep the counts right, one after another. -/
theorem counts_foldlM {α : Type} {f : Server regex Msg → α → Option (Server regex Msg)} {l : List α}
    (h : srv.Counted) (hRun : l.foldlM f srv = some srv')
    (hStep : ∀ a ∈ l, ∀ t t', Counts srv t → f t a = some t' → Counts t t') : Counts srv srv' :=
  Lib.foldlM_keeps (P := Counts srv) hRun (fun a ha t t' ht hf => ht.trans (hStep a ha t t' ht hf)) (.refl h)

/-- The set of what is to be removed may have a node and others below it: what is gone already is not counted again. -/
theorem counts_removeDataStep (h : srv.Counted) (hHolds : srv.Holds self p) {quiet : Bool}
    (hStep : removeDataStep self quiet srv p = some srv') : Counts srv srv' := by
  unfold removeDataStep at hStep
  split at hStep
  next hGuard =>
    obtain ⟨t, hRemove, rfl⟩ := Option.map_eq_some_iff.mp hStep
    obtain ⟨hPaths, hTallies⟩ := tallies_removeChild hRemove
    have hCounted : (t.countNodes self (· - (subtree srv.db p).length)).tallies =
        recount self (· - (subtree srv.db p).length) t.tallies := tallies_updateMember fun _ => rfl
    refine h.remove hHolds hGuard.2 hPaths ?_
    rw [hCounted, hTallies, length_subtree hGuard.1]
  next =>
    cases hStep
    exact .refl h

theorem counts_doRemoveData (h : srv.Counted) {matcher : PathMatcher regex Msg} {quiet : Bool}
    (hRemove : srv.doRemoveData self matcher quiet = some srv') : Counts srv srv' := by
  unfold doRemoveData at hRemove
  split at hRemove
  next m hm =>
    refine counts_foldlM h hRemove fun p hp t t' ht hStep => counts_removeDataStep ht.counted ?_ hStep
    obtain ⟨rest, rfl⟩ := PathMatcher.below_of_mem_doTraversal (List.mem_reverse.mp hp)
    exact ((holds_sessionDir hm).child rest).of_counts ht
  next =>
    cases hRemove
    exact .refl h

theorem counts_insertOrderedData (h : srv.Counted) {insertions : List (Path × Str × Msg)}
    (hInsert : srv.insertOrderedData self insertions = some srv') : Counts srv srv' := by
  unfold insertOrderedData at hInsert
  split at hInsert
  next m hm =>
    refine counts_foldlM h hInsert fun insertion hIn t t' ht hStep => ?_
    unfold insertOrderedStep at hStep
    split at hStep
    next hGuard =>
      obtain ⟨u, hPut, rfl⟩ := Option.map_eq_some_iff.mp hStep
      obtain ⟨rest, hRest⟩ := of_decide_eq_true (List.mem_filter.mp hIn).2
      have hHolds : t.Holds self insertion.1 := hRest ▸ ((holds_sessionDir hm).child rest).of_counts ht
      exact (counts_putChild ht.counted hHolds hGuard.1 (of_decide_eq_false hGuard.2.1) hGuard.2.2
        (fun _ => rfl) hPut).1
    next =>
      cases hStep
      exact .refl ht.counted
  next =>
    cases hInsert
    exact .refl h

theorem paths_foldl_modify_eq (f : DataNode Msg → DataNode Msg) (l : List Path) (db : Database Msg) :
    (l.foldl (fun db p => db.modify p f) db).paths = db.paths := by
  induction l generalizing db with
  | nil => rfl
  | cons p l ih => exact (ih _).trans (paths_modify f)

theorem sameTally_applyEffect {effect : Effect Msg} (h : srv.applyEffect self effect = some srv') :
    SameTally srv srv' := by
  unfold applyEffect at h
  split at h
  · split at h
    · cases h
      exact ⟨paths_foldl_modify_eq _ _ _, rfl⟩
    · cases h
      exact .refl srv
  · exact Lib.foldlM_keeps (P := SameTally srv) h
      (fun change _ t t' ht hStep => ht.trans (sameTally_deliver (fun _ _ _ => Session.settings_nodeChangedAux) hStep))
      (.refl srv)

theorem sameTally_parameterStep {change : Session regex Msg → Session regex Msg × Option (Effect Msg)}
    (hId : ∀ s, (change s).1.id = s.id) (h : srv.parameterStep self change = some srv') : SameTally srv srv' := by
  unfold parameterStep at h
  split at h
  next m hm =>
    have hUpdate := @sameTally_session regex Msg srv self (change m.session).1 ((hId _).trans (member?_mem hm).2)
    dsimp only at h
    split at h
    · exact hUpdate.trans (sameTally_applyEffect h)
    · cases h
      exact hUpdate
  next =>
    cases h
    exact .refl srv

theorem sameTally_doGetData (srv : Server regex Msg) (matcher : PathMatcher regex Msg) :
    SameTally srv (srv.doGetData self matcher) :=
  sameTally_updateMember fun _ _ _ => rfl

theorem sameTally_setParameters {fields : List (Field Msg)} (h : srv.setParameters self fields = some srv') :
    SameTally srv srv' := by
  unfold setParameters at h
  obtain ⟨t, hFields, rfl⟩ := Option.map_eq_some_iff.mp h
  have ht : SameTally srv t := Lib.foldlM_keeps (P := SameTally srv) hFields
    (fun f _ t t' ht hStep => ht.trans (sameTally_parameterStep (fun s => (s.accounts_setParameter f).1) hStep))
    (.refl srv)
  split
  · exact ht
  · exact ht.trans (sameTally_doGetData t _)

theorem sameTally_removeParameters {keys : List Str} (h : srv.removeParameters self keys = some srv') :
    SameTally srv srv' := by
  unfold removeParameters at h
  split at h
  · exact Lib.foldlM_keeps (P := SameTally srv) h
      (fun name _ t t' ht hStep =>
        ht.trans (sameTally_parameterStep (fun s => (s.accounts_removeParameter name).1) hStep)) (.refl srv)
  · cases h
    exact .refl srv

mutual

theorem counts_messageReceived (message : ClientMessage Msg) {srv srv' : Server regex Msg} (h : srv.Counted)
    (hMessage : messageReceivedFromGateway self message srv = some srv') : Counts srv srv' := by
  unfold messageReceivedFromGateway at hMessage
  cases message with
  | setData fields quiet =>
    exact counts_foldlM h hMessage fun _ _ _ _ ht hStep => counts_setDataNode ht.counted hStep
  | removeData keys quiet => exact counts_doRemoveData h hMessage
  | insertOrderedData insertions => exact counts_insertOrderedData h hMessage
  | setParameters fields => exact (sameTally_setParameters hMessage).counts h
  | removeParameters keys => exact (sameTally_removeParameters hMessage).counts h
  | getData keys =>
    cases hMessage
    exact (sameTally_doGetData srv _).counts h
  | batch messages => exact counts_callMessagesReceived messages h hMessage

theorem counts_callMessagesReceived (messages : List (ClientMessage Msg)) {srv srv' : Server regex Msg}
    (h : srv.Counted) (hMessages : callMessagesReceived self messages srv = some srv') : Counts srv srv' := by
  cases messages with
  | nil =>
    cases hMessages
    exact .refl h
  | cons message rest =>
    unfold callMessagesReceived at hMessages
    split at hMessages
    next t hFirst =>
      have ht := counts_messageReceived message h hFirst
      have hPushed := ht.trans ((sameTally_push t).counts ht.counted)
      exact hPushed.trans (counts_callMessagesReceived rest hPushed.counted hMessages)
    next => cases hMessages

end

/-! ### Attaching and detaching -/

theorem counted_start (blankMessage : Msg) : (start regex blankMessage).Counted where
  ids := List.nodup_nil
  root := List.mem_singleton.mpr rfl
  dirs := fun dir hDir => by cases hDir
  owners := fun host id hIn => by cases List.mem_singleton.mp hIn
  counts := fun k hk => by cases hk
  room := fun k hk => by cases hk

/-- A session is there with its node, and with that of its host. -/
theorem Counted.join (h : srv.Counted) {host : Str} {maxNodeCount : Nat} {more : List Path}
    (hNew : id ∉ srv.tallies.map Tally.id) (hPaths : srv'.db.paths = srv.db.paths ++ more)
    (hMore : ∀ q ∈ more, q <+: [host, id]) (hOwn : [host, id] ∈ srv'.db.paths)
    (hTallies : srv'.tallies = srv.tallies ++ [⟨host, id, 0, maxNodeCount⟩]) : srv'.Counted := by
  have hDirs : srv'.dirs = srv.dirs ++ [[host, id]] := by
    unfold Server.dirs
    rw [hTallies, List.map_append]
    rfl
  have hStays : ∀ q ∈ srv.db.paths, q ∈ srv'.db.paths := fun q hq => hPaths ▸ List.mem_append_left _ hq
  -- what comes is at the level of sessions or above: it is below no session's node
  have hBelow : ∀ k : Tally, below srv'.db.paths k.dir = below srv.db.paths k.dir := by
    intro k
    unfold below
    rw [hPaths, List.countP_append]
    refine Nat.add_eq_left.mpr (List.countP_eq_zero.mpr fun q hq hCounted => ?_)
    obtain ⟨hPrefix, hOther⟩ := of_decide_eq_true hCounted
    have hShort := (hMore q hq).length_le
    exact hOther (hPrefix.eq_of_length (Nat.le_antisymm hPrefix.length_le hShort))
  refine ⟨?_, hStays _ h.root, fun dir hDir => ?_, fun host' id' hIn => ?_, fun k hk => ?_, fun k hk => ?_⟩
  · rw [hTallies, List.map_append]
    refine List.nodup_append.mpr ⟨h.ids, List.nodup_singleton _, fun i hi j hj hSame => hNew ?_⟩
    rwa [hSame, List.mem_singleton.mp hj] at hi
  · rw [hDirs] at hDir
    rcases List.mem_append.mp hDir with hOld | hLast
    · exact hStays dir (h.dirs dir hOld)
    · exact List.mem_singleton.mp hLast ▸ hOwn
  · rw [hPaths] at hIn
    rw [hDirs]
    refine List.mem_append.mpr ((List.mem_append.mp hIn).imp (h.owners host' id') fun hLate => ?_)
    exact List.mem_singleton.mpr ((hMore _ hLate).eq_of_length rfl)
  · rw [hBelow]
    rw [hTallies] at hk
    rcases List.mem_append.mp hk with hOld | hLast
    · exact h.counts k hOld
    · rw [List.mem_singleton.mp hLast]
      refine (List.countP_eq_zero.mpr fun q hq hCounted => hNew ?_).symm
      have hDir := h.owners host id (Database.prefix_mem (of_decide_eq_true hCounted).1 hq)
      obtain ⟨k', hk', hSame⟩ := List.mem_map.mp hDir
      exact List.mem_map.mpr ⟨k', hk', (List.cons.inj (List.cons.inj hSame).2).1⟩
  · rw [hTallies] at hk
    rcases List.mem_append.mp hk with hOld | hLast
    · exact h.room k hOld
    · rw [List.mem_singleton.mp hLast]
      exact Nat.zero_le _

theorem counted_attach (h : srv.Counted) {host : Str} {maxNodeCount : Nat}
    (hAttach : srv.attach host id maxNodeCount = some srv') : srv'.Counted := by
  unfold attach at hAttach
  split at hAttach
  next =>
    cases hAttach
    exact h
  next hThere =>
    obtain ⟨t, hHost, hSession⟩ := Option.bind_eq_some_iff.mp hAttach
    obtain ⟨u, hPut, rfl⟩ := Option.map_eq_some_iff.mp hSession
    have hNew : id ∉ srv.tallies.map Tally.id := by
      intro hIn
      obtain ⟨k, hk, hId⟩ := List.mem_map.mp hIn
      obtain ⟨m, hm, rfl⟩ := List.mem_map.mp hk
      have hNone : srv.member? id = none := by simpa using hThere
      exact List.find?_eq_none.mp hNone m hm (beq_iff_eq.mpr hId)
    have hNoNode : [host, id] ∉ srv.db.paths := by
      intro hIn
      obtain ⟨k, hk, hSame⟩ := List.mem_map.mp (h.owners host id hIn)
      exact hNew (List.mem_map.mpr ⟨k, hk, (List.cons.inj (List.cons.inj hSame).2).1⟩)
    generalize hJoin : ({ srv with members := srv.members ++ [Member.new regex Msg host id maxNodeCount] } :
      Server regex Msg) = joined at hHost
    have hDb : joined.db = srv.db := by rw [← hJoin]
    have hJoined : joined.tallies = srv.tallies ++ [⟨host, id, 0, maxNodeCount⟩] := by
      rw [← hJoin]
      exact List.map_append
    have hFirst : ∃ more, t.db.paths = srv.db.paths ++ more ∧ (∀ q ∈ more, q = [host]) ∧ [host] ∈ t.db.paths ∧
        t.tallies = srv.tallies ++ [⟨host, id, 0, maxNodeCount⟩] := by
      split at hHost
      next hOld =>
        cases hHost
        refine ⟨[], ?_, fun q hq => absurd hq List.not_mem_nil, of_decide_eq_true hOld, hJoined⟩
        rw [hDb, List.append_nil]
      next hNot =>
        obtain ⟨hPaths, hTallies⟩ := tallies_putChild (hDb ▸ h.root) (fun hIn => hNot (decide_eq_true hIn)) hHost
        rw [hDb] at hPaths
        refine ⟨[[host]], hPaths, fun q hq => List.mem_singleton.mp hq, ?_, hTallies.trans hJoined⟩
        rw [hPaths]
        exact List.mem_append_right _ (List.mem_singleton.mpr rfl)
    obtain ⟨more, hPaths, hMore, hHostThere, hTallies⟩ := hFirst
    have hNoNode' : [host] ++ [id] ∉ t.db.paths := by
      rw [hPaths]
      intro hIn
      rcases List.mem_append.mp hIn with hOld | hLate
      · exact hNoNode hOld
      · cases hMore _ hLate
    obtain ⟨hPaths', hTallies'⟩ := tallies_putChild hHostThere hNoNode' hPut
    have hAll : u.db.paths = srv.db.paths ++ (more ++ [[host] ++ [id]]) := by
      rw [hPaths', hPaths, List.append_assoc]
    have hu : u.Counted := by
      refine h.join hNew hAll (fun q hq => ?_) ?_ (hTallies'.trans hTallies)
      · rcases List.mem_append.mp hq with hq | hq
        · exact hMore q hq ▸ ⟨[id], rfl⟩
        · exact List.mem_singleton.mp hq ▸ List.prefix_refl _
      · rw [hPaths']
        exact List.mem_append_right _ (List.mem_singleton.mpr rfl)
    exact ((sameTally_push u).counts hu).counted

/-- What is left when a session has gone: all that is not below its node, or nothing if no host has a node. -/
theorem Counted.leave (h : srv.Counted) {m : Member regex Msg} (hm : srv.member? id = some m)
    (hTallies : srv'.tallies = srv.tallies.filter fun k => !(k.id == id))
    (hPaths : ∃ keep : Path → Bool, srv'.db.paths = srv.db.paths.filter keep ∧ keep [] = true ∧
      (∀ q, m.sessionDir <+: q → keep q = false) ∧
      ∀ k ∈ srv'.tallies, ∀ q ∈ srv.db.paths, k.dir <+: q → keep q = true) : srv'.Counted := by
  obtain ⟨keep, hKept, hRoot, hGone, hStays⟩ := hPaths
  obtain ⟨hIn, hId⟩ := member?_mem hm
  have hOld : ∀ k ∈ srv'.tallies, k ∈ srv.tallies ∧ k.id ≠ id := by
    intro k hk
    rw [hTallies, List.mem_filter] at hk
    exact ⟨hk.1, by simpa using hk.2⟩
  refine ⟨?_, ?_, fun dir hDir => ?_, fun host id' hPath => ?_, fun k hk => ?_, fun k hk => h.room k (hOld k hk).1⟩
  · rw [hTallies]
    exact h.ids.sublist (List.filter_sublist.map _)
  · rw [hKept]
    exact List.mem_filter.mpr ⟨h.root, hRoot⟩
  · obtain ⟨k, hk, rfl⟩ := List.mem_map.mp hDir
    have hThere := h.dirs k.dir (List.mem_map_of_mem (hOld k hk).1)
    rw [hKept]
    exact List.mem_filter.mpr ⟨hThere, hStays k hk _ hThere (List.prefix_refl _)⟩
  · rw [hKept, List.mem_filter] at hPath
    obtain ⟨k, hk, hSame⟩ := List.mem_map.mp (h.owners host id' hPath.1)
    refine List.mem_map.mpr ⟨k, ?_, hSame⟩
    rw [hTallies, List.mem_filter, Bool.not_eq_true', beq_eq_false_iff_ne]
    refine ⟨hk, fun hSelf => ?_⟩
    have hOwn : k = m.tally := tally_eq h hk (tally_mem hIn) (hSelf.trans hId.symm)
    have hDropped := hGone [host, id'] (by rw [← hSame, hOwn]; exact List.prefix_refl _)
    rw [hPath.2] at hDropped
    cases hDropped
  · rw [hKept, h.counts k (hOld k hk).1]
    exact (below_filter_of_apart fun q hq hBelow _ => hStays k hk q hq hBelow).symm

/-- The marks change no paths; where no host is left, the new tree has the nodes of the old one. -/
theorem sameTally_cleanupMarks (hRoot : [] ∈ srv.db.paths) (m : Member regex Msg) :
    SameTally srv (srv.cleanupMarks m) := by
  unfold cleanupMarks
  split
  next hEmpty =>
    refine ⟨?_, rfl⟩
    have hOnly : ∀ q, q ∈ srv.db.paths ↔ q ∈ [([] : Path)] := by
      refine fun q => ⟨fun hq => ?_, fun hq => List.mem_singleton.mp hq ▸ hRoot⟩
      cases q with
      | nil => exact List.mem_singleton.mpr rfl
      | cons host rest =>
        have hHost : [] ++ [host] ∈ srv.db.paths := Database.prefix_mem ⟨rest, rfl⟩ hq
        have hChild := Database.mem_children.mpr hHost
        rw [hEmpty] at hChild
        cases hChild
    have hPerm := (List.perm_ext_iff_of_nodup srv.db.nodup (List.nodup_singleton ([] : Path))).mpr hOnly
    exact (List.perm_singleton.mp hPerm).symm
  next => exact ⟨paths_foldl_modify_eq _ _ _, rfl⟩

/-- Which nodes are left when those of a session, and of its host if it was the last there, are removed. -/
theorem paths_cleanupNodes (h : srv.Counted) {m : Member regex Msg} (hm : srv.member? id = some m)
    (hCleanup : srv.cleanupNodes m = some srv') : srv'.tallies = srv.tallies ∧
      ∃ keep : Path → Bool, srv'.db.paths = srv.db.paths.filter keep ∧ keep [] = true ∧
        (∀ q, m.sessionDir <+: q → keep q = false) ∧
        ∀ k ∈ srv.tallies, k.id ≠ id → ∀ q ∈ srv.db.paths, k.dir <+: q → keep q = true := by
  have hApart : ∀ k ∈ srv.tallies, k.id ≠ id → ∀ q, k.dir <+: q → ¬m.sessionDir <+: q := by
    intro k hk hOther q hBelow hOwn
    exact ((holds_sessionDir hm).onlyHolder h hk).2 hOther q hOwn hBelow
  unfold cleanupNodes at hCleanup
  split at hCleanup
  next =>
    obtain ⟨t, hBoth, rfl⟩ := Option.map_eq_some_iff.mp hCleanup
    obtain ⟨u, hSession, hHost⟩ := Option.bind_eq_some_iff.mp hBoth
    obtain ⟨hPaths, hTallies⟩ := tallies_removeChild hSession
    have hPushed := sameTally_push t
    split at hHost
    next hAlone =>
      obtain ⟨hPaths', hTallies'⟩ := tallies_removeChild hHost
      refine ⟨(hPushed.tallies.trans hTallies').trans hTallies,
        fun q => decide (¬[m.host] <+: q) && decide (¬m.sessionDir <+: q), ?_, ?_, fun q hOwn => ?_,
        fun k hk hOther q hq hBelow => ?_⟩
      · rw [hPushed.paths, hPaths', hPaths, List.filter_filter]
      · simp [Member.sessionDir]
      · exact (Bool.and_eq_false_iff ..).mpr (.inr (decide_eq_false (not_not.mpr hOwn)))
      · rw [Bool.and_eq_true]
        refine ⟨decide_eq_true_iff.mpr fun hBelowHost => ?_, decide_eq_true_iff.mpr (hApart k hk hOther q hBelow)⟩
        -- the other session would have its node at the host, which has none
        have hShared := List.prefix_of_prefix_length_le hBelowHost hBelow (by show 1 ≤ 2; omega)
        have hSameHost : m.host = k.host := (List.cons_prefix_cons.mp hShared).1
        have hThere : k.dir ∈ u.db.paths := by
          rw [hPaths]
          refine List.mem_filter.mpr ⟨h.dirs _ (List.mem_map_of_mem hk), decide_eq_true_iff.mpr ?_⟩
          exact hApart k hk hOther _ (List.prefix_refl _)
        have hChild : k.id ∈ u.db.children [m.host] := by
          rw [hSameHost]
          exact Database.mem_children.mpr hThere
        rw [hAlone] at hChild
        cases hChild
    next =>
      cases hHost
      refine ⟨hPushed.tallies.trans hTallies, fun q => decide (¬m.sessionDir <+: q), hPushed.paths.trans hPaths, ?_,
        fun q hOwn => decide_eq_false (not_not.mpr hOwn), fun k hk hOther q _ hBelow => ?_⟩
      · simp [Member.sessionDir]
      · exact decide_eq_true_iff.mpr (hApart k hk hOther q hBelow)
  next hNoHost =>
    have hDir : m.sessionDir ∈ srv.db.paths := sessionDir_mem h hm
    have hHost : [] ++ [m.host] ∈ srv.db.paths := Database.prefix_mem ⟨[m.session.id], rfl⟩ hDir
    exact absurd (decide_eq_true hHost) hNoHost

theorem counted_detach (h : srv.Counted) (hDetach : srv.detach id = some srv') : srv'.Counted := by
  unfold detach at hDetach
  split at hDetach
  next m hm =>
    obtain ⟨t, hNodes, rfl⟩ := Option.map_eq_some_iff.mp hDetach
    obtain ⟨hTallies, keep, hKept, hRoot, hGone, hStays⟩ := paths_cleanupNodes h hm hNodes
    have hRootThere : [] ∈ t.db.paths := hKept ▸ List.mem_filter.mpr ⟨h.root, hRoot⟩
    have hMarks := sameTally_cleanupMarks hRootThere m
    have hLeft : (Server.mk ((t.cleanupMarks m).members.filter fun m => !(m.session.id == id)) (t.cleanupMarks m).db
        (t.cleanupMarks m).blankMessage).tallies = srv.tallies.filter fun k => !(k.id == id) := by
      rw [← hTallies, ← hMarks.tallies]
      unfold tallies
      rw [List.filter_map]
      rfl
    refine h.leave hm hLeft ⟨keep, hMarks.paths.trans hKept, hRoot, hGone, fun k hk q hq hBelow => ?_⟩
    rw [hLeft, List.mem_filter, Bool.not_eq_true', beq_eq_false_iff_ne] at hk
    exact hStays k hk.1 hk.2 q hq hBelow
  next =>
    cases hDetach
    exact h

/-! ### Clones and archives -/

theorem counts_andThen {srv : Server regex Msg} {first : Option (Server regex Msg × Bool)}
    {next : Server regex Msg → Option (Server regex Msg × Bool)} {status : Bool}
    (hRun : andThen first next = some (srv', status))
    (hFirst : ∀ u status, first = some (u, status) → Counts srv u)
    (hNext : ∀ u u' status, Counts srv u → next u = some (u', status) → Counts u u') : Counts srv srv' := by
  unfold andThen at hRun
  obtain ⟨⟨u, status'⟩, hu, hRest⟩ := Option.bind_eq_some_iff.mp hRun
  dsimp only at hRest
  split at hRest
  next => exact (hFirst u _ hu).trans (hNext u srv' status (hFirst u _ hu) hRest)
  next =>
    cases hRest
    exact hFirst _ _ hu

/-- Parts of which each keeps the counts right, one after another as long as none fails. -/
theorem counts_andThen_foldl {α : Type} {f : α → Server regex Msg → Option (Server regex Msg × Bool)} {l : List α}
    {status : Bool} (h : srv.Counted)
    (hRun : l.foldl (fun sofar a => andThen sofar (f a)) (some (srv, true)) = some (srv', status))
    (hStep : ∀ a ∈ l, ∀ t t' status, Counts srv t → f a t = some (t', status) → Counts t t') : Counts srv srv' := by
  have hAll : ∀ (first : Option (Server regex Msg × Bool)), (∀ u status, first = some (u, status) → Counts srv u) →
      ∀ u status, l.foldl (fun sofar a => andThen sofar (f a)) first = some (u, status) → Counts srv u := by
    clear hRun
    induction l with
    | nil => exact fun first hFirst => hFirst
    | cons a l ih =>
      intro first hFirst
      refine ih (fun b hb => hStep b (List.mem_cons_of_mem _ hb)) _ fun u status hu => ?_
      exact @counts_andThen regex Msg u srv first (f a) status hu hFirst
        fun t t' status' ht => hStep a (List.mem_cons_self ..) t t' status' ht
  refine hAll _ (fun u status' hu => ?_) srv' status hRun
  cases hu
  exact .refl h

theorem counts_clone (h : srv.Counted) {optFunc : Option Msg → Option Msg} {made : Str} {indexed : Str → Bool}
    {levels : Nat} {flags : SetFlags} {destPath : Str} {status : Bool}
    (hClone : cloneDataNodeSubtree self optFunc made indexed levels flags p destPath srv = some (srv', status)) :
    Counts srv srv' := by
  induction levels generalizing srv srv' p flags destPath status with
  | zero =>
    cases hClone
    exact .refl h
  | succ levels ih =>
    unfold cloneDataNodeSubtree at hClone
    split at hClone
    next payload _ =>
      refine @counts_andThen regex Msg srv' srv _ _ status hClone (fun t _ ht => counts_setNode h ht)
        fun t t' status' ht hRest => ?_
      refine @counts_andThen regex Msg t' t _ _ status' hRest (fun u _ hu => ?_) fun u u' _ hu hEnd => ?_
      · unfold cloneChildren at hu
        exact counts_andThen_foldl ht.counted hu fun name _ v v' _ hv hStep => ih hv.counted hStep
      · cases hEnd
        exact .refl hu.counted
    next =>
      cases hClone
      exact .refl h

theorem counts_restore (h : srv.Counted) {archive : NodeArchive Msg} {path : Str} {loadData appendToIndex : Bool}
    {made : Str} {status : Bool}
    (hRestore : srv.restoreNodeTreeFromMessage self archive path loadData appendToIndex made = some (srv', status)) :
    Counts srv srv' := by
  unfold restoreNodeTreeFromMessage at hRestore
  exact counts_andThen_foldl h hRestore fun call _ t t' _ ht hStep => counts_setNode ht.counted hStep

/-! ### Runs -/

theorem counted_step (h : srv.Counted) {event : ServerEvent Msg} (hStep : srv.step event = some srv') :
    srv'.Counted := by
  cases event with
  | attach host id maxNodeCount => exact counted_attach h hStep
  | detach id => exact counted_detach h hStep
  | received id message =>
    unfold step at hStep
    dsimp only at hStep
    split at hStep
    · exact (counts_callMessagesReceived [message] h hStep).counted
    · cases hStep
      exact h

theorem counted_nodeStep (h : srv.Counted) {event : NodeEvent Msg} (hStep : srv.nodeStep event = some srv') :
    srv'.Counted := by
  unfold nodeStep at hStep
  cases event with
  | event event => exact counted_step h hStep
  | clone id node destPath flags optFunc made indexed levels =>
    obtain ⟨⟨t, status⟩, hClone, rfl⟩ := Option.map_eq_some_iff.mp hStep
    exact (counts_clone h hClone).counted
  | restore id archive path loadData appendToIndex made =>
    obtain ⟨⟨t, status⟩, hRestore, rfl⟩ := Option.map_eq_some_iff.mp hStep
    exact (counts_restore h hRestore).counted

theorem counted_runNodes (blankMessage : Msg) {events : List (NodeEvent Msg)}
    (h : (start regex blankMessage).runNodes events = some srv) : srv.Counted :=
  Lib.foldlM_keeps (P := Counted) h (fun _ _ _ _ ht hStep => counted_nodeStep ht hStep) (counted_start blankMessage)

/-- A session has as many nodes below its own as it counts, and no more than it may have. -/
theorem node_quota (blankMessage : Msg) (events : List (NodeEvent Msg)) {srv : Server regex Msg}
    (h : (start regex blankMessage).runNodes events = some srv) :
    ∀ m ∈ srv.members,
      m.currentNodeCount = below srv.db.paths m.sessionDir ∧ m.currentNodeCount ≤ m.maxNodeCount := by
  intro m hm
  have hCounted := counted_runNodes blankMessage h
  exact ⟨hCounted.counts _ (tally_mem hm), hCounted.room _ (tally_mem hm)⟩

/-- A session that may have three nodes asks for four, removes two by overlapping patterns, and restores two. -/
def fourNodes : List (NodeEvent Nat) :=
  [.event (.attach ['h'] ['1'] 3),
    .event (.received ['1'] (.setData [("a/b".toList, 1), ("c".toList, 2), ("d".toList, 3)] false)),
    .event (.received ['1'] (.removeData [("a".toList, none), ("a/b".toList, none)] true)),
    .restore ['1'] (.mk (some 4) [] [("f".toList, .mk (some 5) [] [])]) "e".toList true false "I0".toList]

theorem node_quota_fourNodes : ∃ srv, (start PathMatcher.oneCharacter 0).runNodes fourNodes = some srv ∧
    ∀ m ∈ srv.members,
      m.currentNodeCount = below srv.db.paths m.sessionDir ∧ m.currentNodeCount ≤ m.maxNodeCount := by
  have hRuns : ((start PathMatcher.oneCharacter 0).runNodes fourNodes).isSome = true := by decide +kernel
  obtain ⟨srv, h⟩ := Option.isSome_iff_exists.mp hRuns
  exact ⟨srv, h, node_quota 0 fourNodes h⟩

end Server

end BeShare.Muscle.Reflect
