import BeShare.Reflect.Archive
import BeShare.Reflect.MirrorRuns
import BeShare.Reflect.NodeData
import BeShare.Reflect.QuotaRuns

/-!
What `PR_COMMAND_GETDATA` and `PR_COMMAND_GETDATATREES` return to a session that does not reflect to itself, and when
nodes of its own are among it.
-/

namespace BeShare.Muscle.Reflect

variable {regex : Regex} {Msg : Type}

/-! ### The nodes of an archive -/

namespace NodeArchive

mutual

/-- The nodes that are saved in the archive of a node with this path. -/
def paths : NodeArchive Msg → Path → List Path
  | mk _ _ nodeChildren, p => p :: childPaths nodeChildren p

def childPaths : List (Str × NodeArchive Msg) → Path → List Path
  | [], _ => []
  | (name, child) :: rest, p => paths child (p ++ [name]) ++ childPaths rest p

end

theorem mem_childPaths {children : List (Str × NodeArchive Msg)} {p q : Path} :
    q ∈ childPaths children p ↔ ∃ child ∈ children, q ∈ child.2.paths (p ++ [child.1]) := by
  induction children with
  | nil => simp [childPaths]
  | cons child rest ih =>
    obtain ⟨name, child⟩ := child
    rw [childPaths, List.mem_append, ih, List.exists_mem_cons_iff]

end NodeArchive

namespace Database

variable (db : Database Msg) (orderedIndex : Path → List Str)

/-- `SaveNodeTreeToMessage` of a node with so many levels below it. Without data it stops there. -/
def saveNodeTree : Nat → Path → NodeArchive Msg
  | 0, p => .mk (db.data p) [] []
  | levels + 1, p =>
    if db.data p = none then .mk none [] []
    else
      .mk (db.data p) (if db.children p = [] then [] else orderedIndex p)
        ((db.children p).map fun name => (name, saveNodeTree levels (p ++ [name])))

def saveNodeTreeToMessage (p : Path) : NodeArchive Msg :=
  db.saveNodeTree orderedIndex ((db.paths.map List.length).foldr max 0) p

variable {db} {p q : Path}

theorem mem_paths_saveNodeTree (hFilled : db.Filled) {levels : Nat} (hIn : p ∈ db.paths) :
    q ∈ (db.saveNodeTree orderedIndex levels p).paths p ↔ q ∈ Server.removalOrder db levels p := by
  induction levels generalizing p with
  | zero => exact Iff.rfl
  | succ levels ih =>
    have hData : db.data p ≠ none := Option.isSome_iff_ne_none.mp (hFilled.data hIn)
    rw [saveNodeTree, if_neg hData, NodeArchive.paths, List.mem_cons, NodeArchive.mem_childPaths, Server.removalOrder,
      List.mem_append, List.mem_flatMap, List.mem_singleton, or_comm]
    refine or_congr ?_ Iff.rfl
    constructor
    · rintro ⟨child, hChild, hq⟩
      obtain ⟨name, hName, rfl⟩ := List.mem_map.mp hChild
      exact ⟨name, hName, (ih (mem_children.mp hName)).mp hq⟩
    · rintro ⟨name, hName, hq⟩
      exact ⟨_, List.mem_map.mpr ⟨name, hName, rfl⟩, (ih (mem_children.mp hName)).mpr hq⟩

/-- A subtree is saved as a whole. -/
theorem mem_saveNodeTreeToMessage (hFilled : db.Filled) (hIn : p ∈ db.paths) :
    q ∈ (db.saveNodeTreeToMessage orderedIndex p).paths p ↔ q ∈ db.paths ∧ p <+: q :=
  (mem_paths_saveNodeTree orderedIndex hFilled hIn).trans (Server.mem_subtree hIn)

end Database

namespace Server

variable (srv : Server regex Msg) (m : Member regex Msg)

/-! ### The answers -/

/-- `PutPathsFromMessage` of a request -/
def requested (regex : Regex) (keys : List (Str × Option (Option (QueryFilter Msg)))) : PathMatcher regex Msg :=
  .putPaths (some DEFAULT_PATH_PREFIX) none keys .empty

/-- The test that `GetDataCallback` and `GetSubtreesCallback` make for a session that does not reflect to itself. -/
def skipsOwn : Bool :=
  !m.session.reflectToSelf && !m.indexingPresent

/-- The nodes that one of the two callbacks puts into its message. -/
def told (matcher : PathMatcher regex Msg) : List Path :=
  (matcher.doTraversal srv.db (getDataDepth m.session.id (skipsOwn m)) [] true).filter fun p =>
    !(skipsOwn m && inSubtreeOf m.session.id p)

/-- The `PR_RESULT_DATAITEMS` messages of `DoGetData`. -/
def getDataAnswer (matcher : PathMatcher regex Msg) : List (DataItems Msg) :=
  getDataResults srv.db m.session.maxSubscriptionMessageItems.toNat ⟨[], []⟩ (srv.told m matcher)

/-- The `PR_RESULT_DATATREES` message: a saved subtree for each node. -/
def getDataTreesAnswer (orderedIndex : Path → List Str) (matcher : PathMatcher regex Msg) :
    List (Path × NodeArchive Msg) :=
  (srv.told m matcher).map fun p => (p, srv.db.saveNodeTreeToMessage orderedIndex p)

theorem doGetData_eq (self : Str) (matcher : PathMatcher regex Msg) : srv.doGetData self matcher =
    srv.updateMember self fun m => { m with session := { m.session with
      sent := m.session.sent ++ getDataResults srv.db m.session.maxSubscriptionMessageItems.toNat ⟨[], []⟩
        ((matcher.doTraversal srv.db (getDataDepth self (skipsOwn m)) [] true).filter fun p =>
          !(skipsOwn m && inSubtreeOf self p)) } } :=
  rfl

/-- A node that matches and is not in the session's own subtree. -/
def Wanted (matcher : PathMatcher regex Msg) (q : Path) : Prop :=
  q ∈ srv.db.paths ∧ matcher.matchesNode q (srv.db.data q) 0 = true ∧ ¬m.sessionDir <+: q

/-- Each wanted node is returned with its data, and no other node is. -/
def DataApart (matcher : PathMatcher regex Msg) : Prop :=
  ∀ q data, Table.applyAll (fun _ => none) (srv.getDataAnswer m matcher) q = some data ↔
    srv.Wanted m matcher q ∧ data = srv.db.data q

/-- There is a subtree for each wanted node, and no node of the session's own is in any of them. -/
structure TreesApart (orderedIndex : Path → List Str) (matcher : PathMatcher regex Msg) : Prop where
  roots : ∀ q, q ∈ (srv.getDataTreesAnswer m orderedIndex matcher).map Prod.fst ↔ srv.Wanted m matcher q
  apart : ∀ tree ∈ srv.getDataTreesAnswer m orderedIndex matcher, ∀ q ∈ tree.2.paths tree.1, ¬m.sessionDir <+: q

inductive Retrieval where
  /-- `PR_COMMAND_GETDATA` -/
  | getData
  /-- `PR_COMMAND_GETDATATREES`, with the indices that the nodes have -/
  | getDataTrees (orderedIndex : Path → List Str)

def Apart (matcher : PathMatcher regex Msg) : Retrieval → Prop
  | .getData => srv.DataApart m matcher
  | .getDataTrees orderedIndex => srv.TreesApart m orderedIndex matcher

/-- The session has no ordered index, or none of its own nodes matches. -/
def OwnSkipped (matcher : PathMatcher regex Msg) : Prop :=
  m.indexingPresent = false ∨
    ∀ q ∈ srv.db.paths, m.sessionDir <+: q → matcher.matchesNode q (srv.db.data q) 0 = false

/-- For subtrees the session's host must not match either. -/
def Unmixed (matcher : PathMatcher regex Msg) : Retrieval → Prop
  | .getData => srv.OwnSkipped m matcher
  | .getDataTrees _ => srv.OwnSkipped m matcher ∧ matcher.matchesNode [m.host] (srv.db.data [m.host]) 0 = false

variable {srv m} {q : Path} {matcher : PathMatcher regex Msg}

/-- The session's node is there, and no other node has its ID. -/
structure Housed (srv : Server regex Msg) (m : Member regex Msg) : Prop where
  dir : m.sessionDir ∈ srv.db.paths
  own : ∀ q ∈ srv.db.paths, (inSubtreeOf m.session.id q = true ↔ m.sessionDir <+: q)

theorem Counted.housed (h : srv.Counted) (hm : m ∈ srv.members) : Housed srv m where
  dir := h.dirs _ (List.mem_map.mpr ⟨m.tally, tally_mem hm, rfl⟩)
  own := by
    intro q hq
    unfold inSubtreeOf
    rw [beq_iff_eq]
    constructor
    · intro hId
      obtain ⟨host, rest, rfl⟩ := eq_of_second hId
      have hAbove : [host, m.session.id] ∈ srv.db.paths := Database.prefix_mem ⟨rest, rfl⟩ hq
      obtain ⟨k, hk, hDir⟩ := List.mem_map.mp (h.owners _ _ hAbove)
      have hSame : k.id = m.tally.id := (List.cons.inj (List.cons.inj hDir).2).1
      rw [tally_eq h hk (tally_mem hm) hSame] at hDir
      exact ⟨rest, by rw [show m.sessionDir = [host, m.session.id] from hDir]; rfl⟩
    · rintro ⟨rest, rfl⟩
      rfl

theorem mem_told_iff (hLiteral : regex.Literal) : q ∈ srv.told m matcher ↔
    q ∈ srv.db.paths ∧ matcher.matchesNode q (srv.db.data q) 0 = true ∧
      ¬(skipsOwn m = true ∧ inSubtreeOf m.session.id q = true) := by
  rw [told, List.mem_filter, Bool.not_eq_true', ← Bool.not_eq_true, Bool.and_eq_true]
  cases hOwn : inSubtreeOf m.session.id q with
  | false =>
    rw [PathMatcher.mem_getData hLiteral _ hOwn, and_assoc]
  | true =>
    cases hSkips : skipsOwn m with
    | true => simp
    | false =>
      have hDepth : getDataDepth m.session.id false = PathMatcher.callWithDepth := by
        funext p
        rfl
      rw [hDepth, PathMatcher.mem_doTraversal_root hLiteral, and_assoc]
      rfl

/-- What is told is what is wanted unless an index makes a node of the session's own pass. -/
theorem told_iff_wanted (hLiteral : regex.Literal) (hHoused : Housed srv m) (hSelf : m.session.reflectToSelf = false) :
    (∀ q, q ∈ srv.told m matcher ↔ srv.Wanted m matcher q) ↔ srv.OwnSkipped m matcher := by
  have hSkips : skipsOwn m = true ↔ m.indexingPresent = false := by
    rw [skipsOwn, hSelf, Bool.not_false, Bool.true_and, Bool.not_eq_true']
  constructor
  · intro h
    by_cases hIndex : m.indexingPresent = false
    · exact .inl hIndex
    · refine .inr fun q hq hOwn => Bool.eq_false_iff.mpr fun hMatch => ?_
      have hTold := (mem_told_iff hLiteral).mpr ⟨hq, hMatch, fun hBoth => hIndex (hSkips.mp hBoth.1)⟩
      exact ((h q).mp hTold).2.2 hOwn
  · rintro h q
    rw [mem_told_iff hLiteral]
    refine and_congr_right fun hq => and_congr_right fun hMatch => not_congr ?_
    rw [hHoused.own q hq, hSkips]
    refine and_iff_right_of_imp fun hOwn => ?_
    rcases h with hIndex | hNone
    · exact hIndex
    · rw [hNone q hq hOwn] at hMatch
      cases hMatch

theorem dataApart_iff : srv.DataApart m matcher ↔ ∀ q, q ∈ srv.told m matcher ↔ srv.Wanted m matcher q := by
  have hAnswer : ∀ q, Table.applyAll (fun _ => none) (srv.getDataAnswer m matcher) q =
      if q ∈ srv.told m matcher then some (srv.db.data q) else none := fun q =>
    applyAll_getDataResults srv.db _ (srv.told m matcher) ⟨[], []⟩ rfl List.nodup_nil _ q
  refine forall_congr' fun q => ?_
  rw [hAnswer]
  by_cases hTold : q ∈ srv.told m matcher
  · simp only [if_pos hTold, iff_true_left hTold]
    constructor
    · exact fun h => ((h _).mp rfl).1
    · intro h data
      exact ⟨fun hData => ⟨h, (Option.some.inj hData).symm⟩, fun hData => congrArg some hData.2.symm⟩
  · simp only [if_neg hTold, iff_false_left hTold]
    constructor
    · intro h hWanted
      cases (h _).mpr ⟨hWanted, rfl⟩
    · intro h data
      exact ⟨nofun, fun hData => absurd hData.1 h⟩

theorem treesApart_iff (hFilled : srv.db.Filled) (hHoused : Housed srv m) (orderedIndex : Path → List Str) :
    srv.TreesApart m orderedIndex matcher ↔ (∀ q, q ∈ srv.told m matcher ↔ srv.Wanted m matcher q) ∧
      matcher.matchesNode [m.host] (srv.db.data [m.host]) 0 = false := by
  have hRoots : (srv.getDataTreesAnswer m orderedIndex matcher).map Prod.fst = srv.told m matcher := by
    rw [getDataTreesAnswer, List.map_map]
    exact List.map_id _
  have hHost : [m.host] ∈ srv.db.paths := Database.prefix_mem ⟨[m.session.id], rfl⟩ hHoused.dir
  have hOutside : ¬m.sessionDir <+: [m.host] := fun h => by simpa [Member.sessionDir] using h.length_le
  constructor
  · rintro ⟨h, hApart⟩
    rw [hRoots] at h
    refine ⟨h, Bool.eq_false_iff.mpr fun hMatch => ?_⟩
    have hTold := (h [m.host]).mpr ⟨hHost, hMatch, hOutside⟩
    refine hApart _ (List.mem_map.mpr ⟨_, hTold, rfl⟩) m.sessionDir ?_ (List.prefix_refl _)
    exact (Database.mem_saveNodeTreeToMessage orderedIndex hFilled hHost).mpr ⟨hHoused.dir, [m.session.id], rfl⟩
  · rintro ⟨h, hMatch⟩
    refine ⟨by rwa [hRoots], fun tree hTree q hq hOwn => ?_⟩
    obtain ⟨p, hp, rfl⟩ := List.mem_map.mp hTree
    obtain ⟨hIn, hMatches, hNotOwn⟩ := (h p).mp hp
    obtain ⟨-, hBelow⟩ := (Database.mem_saveNodeTreeToMessage orderedIndex hFilled hIn).mp hq
    -- above the session's node there are only its host and the root
    rcases List.prefix_or_prefix_of_prefix hOwn hBelow with hInside | hAbove
    · exact hNotOwn hInside
    · have hShort : p.length < 2 := by
        refine Nat.lt_of_le_of_ne hAbove.length_le fun hSame => hNotOwn ?_
        exact (hAbove.eq_of_length hSame).symm ▸ List.prefix_refl p
      rcases p with _ | ⟨host, _ | ⟨name, rest⟩⟩
      · obtain ⟨entry, -, hEntry⟩ := List.any_eq_true.mp hMatches
        exact PathMatcher.ne_nil_of_matchesFrom ((PathMatcher.pathMatches_root_iff entry [] _).mp hEntry).1
      · obtain rfl : host = m.host := (List.cons_prefix_cons.mp hAbove).1
        rw [hMatch] at hMatches
        cases hMatches
      · simp only [List.length_cons] at hShort
        omega

/-- In every run the answers keep the session's own subtree out exactly if no node of it matches, or it never had an
index; and for subtrees if its host does not match. -/
theorem ownData_iff (hLiteral : regex.Literal) (blankMessage : Msg) {events : List (ServerEvent Msg)}
    (hRun : (start regex blankMessage).run events = some srv) (hm : m ∈ srv.members)
    (hSelf : m.session.reflectToSelf = false) (keys : List (Str × Option (Option (QueryFilter Msg))))
    (retrieval : Retrieval) :
    srv.Apart m (requested regex keys) retrieval ↔ srv.Unmixed m (requested regex keys) retrieval := by
  have hCounted : srv.Counted :=
    Lib.foldlM_keeps (P := Counted) hRun (fun _ _ _ _ ht hStep => counted_step ht hStep) (counted_start blankMessage)
  have hHoused := hCounted.housed hm
  have hTold : (∀ q, q ∈ srv.told m (requested regex keys) ↔ srv.Wanted m (requested regex keys) q) ↔
      srv.OwnSkipped m (requested regex keys) := told_iff_wanted hLiteral hHoused hSelf
  cases retrieval with
  | getData => exact dataApart_iff.trans hTold
  | getDataTrees orderedIndex =>
    exact (treesApart_iff (filled_run blankMessage hRun) hHoused orderedIndex).trans (and_congr_left fun _ => hTold)

/-- A session with a node that it inserted in an order. -/
def oneEntry : List (ServerEvent Nat) :=
  [.attach ['h'] ['1'] 9, .received ['1'] (.insertOrderedData [([['h'], ['1']], ['I', '0'], 5)])]

theorem ownData_iff_oneEntry : ∃ srv m, (start PathMatcher.oneCharacter 0).run oneEntry = some srv ∧ m ∈ srv.members ∧
    (srv.Apart m (requested PathMatcher.oneCharacter [(['*'], none)]) .getData ↔
      srv.Unmixed m (requested PathMatcher.oneCharacter [(['*'], none)]) .getData) := by
  have hRuns : ((start PathMatcher.oneCharacter 0).run oneEntry).bind (fun srv =>
      srv.members.head?.map fun m => m.session.reflectToSelf) = some false := by decide +kernel
  obtain ⟨srv, hRun, hFirst⟩ := Option.bind_eq_some_iff.mp hRuns
  obtain ⟨m, hm, hSelf⟩ := Option.map_eq_some_iff.mp hFirst
  exact ⟨srv, m, hRun, List.mem_of_mem_head? hm,
    ownData_iff PathMatcher.oneCharacter_literal 0 hRun (List.mem_of_mem_head? hm) hSelf _ _⟩

/-- With the index there `*` returns the session its own node, and `/*` the subtree of its host with it. -/
theorem oneEntry_reflected : ∃ srv m, (start PathMatcher.oneCharacter 0).run oneEntry = some srv ∧ m ∈ srv.members ∧
    m.session.reflectToSelf = false ∧ ¬srv.Apart m (requested PathMatcher.oneCharacter [(['*'], none)]) .getData ∧
    ¬srv.Apart m (requested PathMatcher.oneCharacter [(['/', '*'], none)]) (.getDataTrees fun _ => []) := by
  have hRuns : ((start PathMatcher.oneCharacter 0).run oneEntry).bind (fun srv =>
      srv.members.head?.map fun m => (m.session.reflectToSelf, m.sessionDir,
        srv.told m (requested PathMatcher.oneCharacter [(['*'], none)]))) =
      some (false, [['h'], ['1']], [[['h'], ['1'], ['I', '0']]]) := by decide +kernel
  have hTrees : ((start PathMatcher.oneCharacter 0).run oneEntry).bind (fun srv =>
      srv.members.head?.map fun m =>
        (srv.getDataTreesAnswer m (fun _ => []) (requested PathMatcher.oneCharacter [(['/', '*'], none)])).map
          fun tree => tree.2.paths tree.1) =
      some [[[['h']], [['h'], ['1']], [['h'], ['1'], ['I', '0']]]] := by decide +kernel
  obtain ⟨srv, hRun, hFirst⟩ := Option.bind_eq_some_iff.mp hRuns
  obtain ⟨m, hm, hSame⟩ := Option.map_eq_some_iff.mp hFirst
  have hDir : m.sessionDir = [['h'], ['1']] := congrArg (fun k => k.2.1) hSame
  rw [hRun, Option.bind_some, hm, Option.map_some] at hTrees
  refine ⟨srv, m, hRun, List.mem_of_mem_head? hm, congrArg Prod.fst hSame, fun hApart => ?_, fun hApart => ?_⟩
  · have hTold : [['h'], ['1'], ['I', '0']] ∈ srv.told m (requested PathMatcher.oneCharacter [(['*'], none)]) := by
      rw [show srv.told m _ = _ from congrArg (fun k => k.2.2) hSame]
      exact List.mem_singleton.mpr rfl
    refine ((dataApart_iff.mp hApart _).mp hTold).2.2 ?_
    rw [hDir]
    decide
  · obtain ⟨tree, hTree, hPaths⟩ := List.map_eq_singleton_iff.mp (Option.some.inj hTrees)
    have hIn : tree ∈ srv.getDataTreesAnswer m (fun _ => [])
        (requested PathMatcher.oneCharacter [(['/', '*'], none)]) := by
      rw [hTree]
      exact List.mem_singleton.mpr rfl
    refine hApart.apart tree hIn [['h'], ['1']] ?_ ?_
    · rw [hPaths]
      decide
    · exact hDir ▸ List.prefix_refl _

end Server

end BeShare.Muscle.Reflect
