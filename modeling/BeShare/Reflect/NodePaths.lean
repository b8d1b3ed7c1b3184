import BeShare.Reflect.ArchiveRoundTrip
import BeShare.Reflect.QuotaRuns

/-!
The paths of nodes as strings: `GetNodePath` writes one from its end, and `GetDataNode` finds the node again.
-/

namespace BeShare.Muscle.Reflect

variable {regex : Regex} {Msg : Type}

/-- The first loop of `GetNodePath`, over the names from the node up: how long the path is going to be. -/
def nodePathLength (startDepth : Nat) : List Str → Nat
  | [] => 0
  | name :: up => if startDepth ≤ up.length + 1 then 1 + name.length + nodePathLength startDepth up else 0

/-- What the second loop writes of a node. -/
def nodePathPart (startDepth depth : Nat) (name : Str) : Str :=
  if startDepth = 0 ∨ startDepth < depth then '/' :: name else name

/-- The second loop, with what stands from `writeAt` on. There is nothing if a name starts before the buffer. -/
def writeNodePath (startDepth : Nat) : List Str → Nat → Str → Option (Nat × Str)
  | [], writeAt, written => some (writeAt, written)
  | name :: up, writeAt, written =>
    if startDepth ≤ up.length + 1 then
      let part := nodePathPart startDepth (up.length + 1) name
      if part.length ≤ writeAt then writeNodePath startDepth up (writeAt - part.length) (part ++ written) else none
    else some (writeAt, written)

/-- `GetNodePath`. What is written has to start where the buffer does. -/
def getNodePath (n : Path) (startDepth : Nat) : Option Str :=
  if n = [] then some (if startDepth = 0 then ['/'] else [])
  else
    let pathLen := nodePathLength startDepth n.reverse
    let pathLen := if 0 < pathLen ∧ 0 < startDepth then pathLen - 1 else pathLen
    (writeNodePath startDepth n.reverse pathLen []).bind fun result => if result.1 = 0 then some result.2 else none

/-- `IndexOf(ch, fromIndex)` -/
def indexOfFrom (s : Str) (ch : Char) (fromIndex : Nat) : Option Nat :=
  ((s.drop fromIndex).idxOf? ch).map (fromIndex + ·)

/-- `Substring(beginIndex, endIndex)` -/
def substring (s : Str) (beginIndex endIndex : Nat) : Str :=
  (s.drop beginIndex).take (endIndex - beginIndex)

/-- The loop of `GetDataNode`, for so many turns, from behind the last slash. -/
def getDataNodeLoop (hasChild : Path → Str → Bool) (nodePath : Str) : Nat → Nat → Path → Option Path
  | 0, _, _ => none
  | turns + 1, beginIndex, node =>
    let slashPos := indexOfFrom nodePath '/' beginIndex
    let clause := substring nodePath beginIndex (slashPos.getD nodePath.length)
    if hasChild node clause then
      slashPos.elim (some (node ++ [clause])) fun slashPos =>
        getDataNodeLoop hasChild nodePath turns (slashPos + 1) (node ++ [clause])
    else none

/-- `GetDataNode`, in a tree with these children -/
def getDataNode (hasChild : Path → Str → Bool) (sessionDir : Option Path) (nodePath : Str) : Option Path :=
  if nodePath = [] then sessionDir
  else if nodePath.head? = some '/' then getDataNodeLoop hasChild nodePath (nodePath.length + 1) 1 []
  else sessionDir.bind fun node => getDataNodeLoop hasChild nodePath (nodePath.length + 1) 0 node

/-! ### What is written -/

/-- The names from a depth on, with a slash before each. -/
def slashed (n : Path) : Str :=
  n.flatMap ('/' :: ·)

theorem slashed_concat (n : Path) (name : Str) : slashed (n ++ [name]) = slashed n ++ '/' :: name := by
  rw [slashed, slashed, List.flatMap_append, List.flatMap_singleton]

theorem slashed_ne_nil {n : Path} (h : n ≠ []) : slashed n ≠ [] := by
  cases n with
  | nil => exact absurd rfl h
  | cons name rest => exact List.cons_ne_nil _ _

theorem writeNodePath_cons {startDepth : Nat} {name : Str} {up : List Str} {part : Str}
    (hDepth : startDepth ≤ up.length + 1) (hPart : nodePathPart startDepth (up.length + 1) name = part) (rest : Nat)
    (written : Str) :
    writeNodePath startDepth (name :: up) (part.length + rest) written =
      writeNodePath startDepth up rest (part ++ written) := by
  rw [writeNodePath, if_pos hDepth]
  dsimp only
  rw [hPart, if_pos (Nat.le_add_right ..), Nat.add_sub_cancel_left]

theorem nodePath_stop {startDepth : Nat} {names : List Str} (hShort : names.length < startDepth) (rest : Nat)
    (written : Str) :
    nodePathLength startDepth names = 0 ∧ writeNodePath startDepth names rest written = some (rest, written) := by
  cases names with
  | nil => exact ⟨rfl, rfl⟩
  | cons name up =>
    have hNot : ¬startDepth ≤ up.length + 1 := Nat.not_le.mpr hShort
    rw [nodePathLength, if_neg hNot, writeNodePath, if_neg hNot]
    exact ⟨rfl, rfl⟩

/-- Induction on the names from the node up: all fits, and nothing is left over. -/
theorem writeNodePath_zero (names : List Str) (rest : Nat) (written : Str) :
    writeNodePath 0 names (nodePathLength 0 names + rest) written = some (rest, slashed names.reverse ++ written) := by
  induction names generalizing written with
  | nil =>
    rw [nodePathLength, writeNodePath, Nat.zero_add]
    rfl
  | cons name up ih =>
    have hLength : nodePathLength 0 (name :: up) + rest = ('/' :: name).length + (nodePathLength 0 up + rest) := by
      rw [nodePathLength, if_pos (Nat.zero_le _), List.length_cons]
      omega
    rw [hLength, writeNodePath_cons (Nat.zero_le _) (if_pos (.inl rfl)), ih, List.reverse_cons, slashed_concat,
      List.append_assoc]

/-- With a depth to start from, the first name has no slash. -/
theorem writeNodePath_succ {depth : Nat} {names : List Str} (hDeep : depth < names.length) (rest : Nat)
    (written : Str) :
    0 < nodePathLength (depth + 1) names ∧
      writeNodePath (depth + 1) names (nodePathLength (depth + 1) names - 1 + rest) written =
        some (rest, (slashed (names.reverse.drop depth)).tail ++ written) := by
  induction names generalizing written with
  | nil => cases hDeep
  | cons name up ih =>
    have hHere : depth + 1 ≤ up.length + 1 := hDeep
    have hPositive : 0 < nodePathLength (depth + 1) (name :: up) := by
      rw [nodePathLength, if_pos hHere]
      omega
    refine ⟨hPositive, ?_⟩
    by_cases hMore : depth < up.length
    · obtain ⟨hUp, hRest⟩ := ih hMore ('/' :: name ++ written)
      have hLength : nodePathLength (depth + 1) (name :: up) - 1 + rest =
          ('/' :: name).length + (nodePathLength (depth + 1) up - 1 + rest) := by
        rw [nodePathLength, if_pos hHere, List.length_cons]
        omega
      have hSome : up.reverse.drop depth ≠ [] := by
        rw [ne_eq, List.drop_eq_nil_iff, List.length_reverse]
        omega
      have hFits : depth ≤ up.reverse.length := by
        rw [List.length_reverse]
        omega
      rw [hLength, writeNodePath_cons hHere (if_pos (.inr (Nat.succ_lt_succ hMore))), hRest, List.reverse_cons,
        List.drop_append_of_le_length hFits, slashed_concat, List.tail_append_of_ne_nil (slashed_ne_nil hSome),
        List.append_assoc]
    · -- the name at the depth to start from
      have hLast : depth = up.length := by omega
      have hStop := @nodePath_stop (depth + 1) up (by omega) rest (name ++ written)
      have hLength : nodePathLength (depth + 1) (name :: up) - 1 + rest = name.length + rest := by
        rw [nodePathLength, if_pos hHere, hStop.1]
        omega
      have hPart : nodePathPart (depth + 1) (up.length + 1) name = name := if_neg (by omega)
      rw [hLength, writeNodePath_cons hHere hPart, hStop.2, hLast, List.reverse_cons, ← List.length_reverse,
        List.drop_left]
      simp only [slashed, List.flatMap_singleton, List.tail_cons]

/-- The path has a slash before each name, but none at the start if it is not that of the whole way. -/
theorem getNodePath_eq (n : Path) (startDepth : Nat) : getNodePath n startDepth =
    some (if startDepth = 0 then (if n = [] then ['/'] else slashed n)
      else (slashed (n.drop (startDepth - 1))).tail) := by
  rw [getNodePath]
  by_cases hRoot : n = []
  · rw [if_pos hRoot, if_pos hRoot, hRoot, List.drop_nil]
    rfl
  rw [if_neg hRoot, if_neg hRoot]
  dsimp only
  by_cases hStart : startDepth = 0
  · rw [if_pos hStart, if_neg (by omega), hStart, ← Nat.add_zero (nodePathLength 0 n.reverse), writeNodePath_zero,
      List.reverse_reverse, List.append_nil]
    rfl
  · obtain ⟨depth, rfl⟩ := Nat.exists_eq_succ_of_ne_zero hStart
    rw [if_neg hStart, Nat.succ_sub_one]
    by_cases hDeep : depth < n.reverse.length
    · obtain ⟨hPositive, hWritten⟩ := writeNodePath_succ hDeep 0 []
      rw [if_pos ⟨hPositive, Nat.succ_pos _⟩, ← Nat.add_zero (_ - 1), hWritten, List.reverse_reverse, List.append_nil]
      rfl
    · have hShort : n.reverse.length < depth + 1 := by omega
      have hNone : n.drop depth = [] := by
        rw [List.drop_eq_nil_iff, ← List.length_reverse]
        omega
      rw [(nodePath_stop hShort 0 []).1, if_neg (by omega), (nodePath_stop hShort 0 []).2, hNone]
      rfl

/-! ### What is found -/

theorem splitClauses_idxOf (s : Str) : splitClauses s =
    (s.idxOf? '/').elim [s] fun i => s.take i :: splitClauses (s.drop (i + 1)) := by
  induction s with
  | nil => rfl
  | cons c rest ih =>
    rw [splitClauses, List.idxOf?_cons]
    by_cases hSlash : c = '/'
    · rw [if_pos hSlash, if_pos (beq_iff_eq.mpr hSlash)]
      rfl
    · rw [if_neg hSlash, if_neg (mt beq_iff_eq.mp hSlash), ih]
      cases rest.idxOf? '/' <;> rfl

/-- Down the clauses, from child to child. -/
def walk (hasChild : Path → Str → Bool) : Path → List Str → Option Path
  | node, [] => some node
  | node, clause :: rest => if hasChild node clause then walk hasChild (node ++ [clause]) rest else none

/-- Induction on the turns: from behind a slash, the loop goes down the clauses that are left. -/
theorem getDataNodeLoop_eq (hasChild : Path → Str → Bool) (nodePath : Str) {turns beginIndex : Nat}
    (hBegin : beginIndex ≤ nodePath.length) (hTurns : nodePath.length < beginIndex + turns) (node : Path) :
    getDataNodeLoop hasChild nodePath turns beginIndex node =
      walk hasChild node (splitClauses (nodePath.drop beginIndex)) := by
  induction turns generalizing beginIndex node with
  | zero => omega
  | succ turns ih =>
    rw [getDataNodeLoop, splitClauses_idxOf, indexOfFrom]
    cases hSlash : (nodePath.drop beginIndex).idxOf? '/' with
    | none =>
      have hClause : substring nodePath beginIndex nodePath.length = nodePath.drop beginIndex := by
        rw [substring, List.take_of_length_le (Nat.le_of_eq List.length_drop)]
      show (if hasChild node (substring nodePath beginIndex nodePath.length) then
        some (node ++ [substring nodePath beginIndex nodePath.length]) else none) = _
      rw [hClause]
      rfl
    | some i =>
      have hInside : i < (nodePath.drop beginIndex).length := by
        obtain ⟨hi, -⟩ := List.idxOf?_eq_some_iff.mp hSlash
        exact hi
      rw [List.length_drop] at hInside
      have hClause : substring nodePath beginIndex (beginIndex + i) = (nodePath.drop beginIndex).take i := by
        rw [substring, Nat.add_sub_cancel_left]
      show (if hasChild node (substring nodePath beginIndex (beginIndex + i)) then
        getDataNodeLoop hasChild nodePath turns (beginIndex + i + 1)
          (node ++ [substring nodePath beginIndex (beginIndex + i)]) else none) = walk hasChild node
            ((nodePath.drop beginIndex).take i :: splitClauses ((nodePath.drop beginIndex).drop (i + 1)))
      rw [hClause, walk, ih (by omega) (by omega), List.drop_drop, Nat.add_assoc]

theorem getDataNode_slash (hasChild : Path → Str → Bool) (sessionDir : Option Path) (rest : Str) :
    getDataNode hasChild sessionDir ('/' :: rest) = walk hasChild [] (splitClauses rest) := by
  rw [getDataNode, if_neg (List.cons_ne_nil _ _), if_pos List.head?_cons,
    getDataNodeLoop_eq hasChild ('/' :: rest) (by rw [List.length_cons]; omega) (by omega)]
  rfl

theorem getDataNode_relative (hasChild : Path → Str → Bool) (sessionDir : Path) {nodePath : Str} (hSome : nodePath ≠ [])
    (hRelative : nodePath.head? ≠ some '/') :
    getDataNode hasChild (some sessionDir) nodePath = walk hasChild sessionDir (splitClauses nodePath) := by
  rw [getDataNode, if_neg hSome, if_neg hRelative, Option.bind_some,
    getDataNodeLoop_eq hasChild nodePath (Nat.zero_le _) (by omega), List.drop_zero]

/-- In a tree that has the parents of all its nodes, a walk ends at the node if there is one. -/
theorem walk_eq {hasChild : Path → Str → Bool} {there : Path → Prop} [DecidablePred there]
    (hChild : ∀ p name, hasChild p name = true ↔ there (p ++ [name]))
    (hParent : ∀ p name, there (p ++ [name]) → there p) {clauses : List Str} (hSome : clauses ≠ []) (node : Path) :
    walk hasChild node clauses = if there (node ++ clauses) then some (node ++ clauses) else none := by
  induction clauses generalizing node with
  | nil => exact absurd rfl hSome
  | cons clause rest ih =>
    rw [walk]
    by_cases hRest : rest = []
    · subst hRest
      exact ite_congr (propext (hChild node clause)) (fun _ => rfl) fun _ => rfl
    · rw [ih hRest, List.append_assoc]
      by_cases hHere : hasChild node clause = true
      · rw [if_pos hHere]
        rfl
      · rw [if_neg hHere, if_neg fun hThere => hHere ((hChild node clause).mpr ?_)]
        have hAbove : ∀ more : List Str, there (node ++ [clause] ++ more) → there (node ++ [clause]) := by
          intro more
          induction more using List.reverseRec with
          | nil => rw [List.append_nil]; exact id
          | append_singleton more name ihMore =>
            rw [← List.append_assoc]
            exact fun hMore => ihMore (hParent _ name hMore)
        exact hAbove rest (by rwa [List.append_assoc])

theorem Database.walk_eq (db : Database Msg) {clauses : List Str} (hSome : clauses ≠ []) (node : Path) :
    walk db.hasChild node clauses = if node ++ clauses ∈ db.paths then some (node ++ clauses) else none :=
  Reflect.walk_eq (fun _ _ => decide_eq_true_iff) db.parent hSome node

/-! ### There and back -/

/-- The names have no slash, and that of a host is one. -/
structure Plain (p : Path) : Prop where
  noSlash : ∀ name ∈ p, '/' ∉ name
  notEmpty : p ≠ [[]]

theorem splitClauses_slashed {n : Path} (h : n ≠ []) (hNames : ∀ name ∈ n, '/' ∉ name) :
    splitClauses (slashed n).tail = n := by
  induction n using List.reverseRec with
  | nil => exact absurd rfl h
  | append_singleton front name ih =>
    have hName := hNames name (List.mem_append_right _ (List.mem_singleton.mpr rfl))
    rw [slashed_concat]
    by_cases hFront : front = []
    · subst hFront
      exact splitClauses_of_not_mem hName
    · rw [List.tail_append_of_ne_nil (slashed_ne_nil hFront), splitClauses_append hName,
        ih hFront fun other hOther => hNames other (List.mem_append_left _ hOther)]

theorem slashed_eq_cons {n : Path} (h : n ≠ []) : slashed n = '/' :: (slashed n).tail := by
  cases n with
  | nil => exact absurd rfl h
  | cons name rest => rfl

theorem getNodePath_zero {n : Path} (h : n ≠ []) : getNodePath n 0 = some (slashed n) := by
  rw [getNodePath_eq, if_pos rfl, if_neg h]

/-- Only the root is not found by its path, which is that of a child of it without a name. -/
theorem getDataNode_getNodePath_iff {db : Database Msg} {n : Path} (hIn : n ∈ db.paths) (hPlain : Plain n)
    (sessionDir : Option Path) : (getNodePath n 0).bind (getDataNode db.hasChild sessionDir) = some n ↔ n ≠ [] := by
  by_cases hRoot : n = []
  · subst hRoot
    show getDataNode db.hasChild sessionDir ['/'] = some [] ↔ [] ≠ []
    rw [getDataNode_slash, db.walk_eq (splitClauses_ne_nil _)]
    refine iff_of_false (fun h => ?_) (fun h => h rfl)
    split at h <;> cases h
  · refine iff_of_true ?_ hRoot
    rw [getNodePath_zero hRoot, Option.bind_some, slashed_eq_cons hRoot, getDataNode_slash,
      splitClauses_slashed hRoot hPlain.noSlash, db.walk_eq hRoot, List.nil_append, if_pos hIn]

/-- The root has the path of no other node, as no host is without a name. -/
theorem getNodePath_inj {n n' : Path} (hPlain : Plain n) (hPlain' : Plain n')
    (hSame : getNodePath n 0 = getNodePath n' 0) : n = n' := by
  have hAlone : ∀ {m : Path}, Plain m → getNodePath [] 0 = getNodePath m 0 → [] = m := by
    intro m hm hRoot
    by_contra hNot
    rw [getNodePath_zero (Ne.symm hNot)] at hRoot
    have hTail : (slashed m).tail = [] := congrArg List.tail (Option.some.inj hRoot).symm
    have hSplit := splitClauses_slashed (Ne.symm hNot) hm.noSlash
    rw [hTail] at hSplit
    exact hm.notEmpty hSplit.symm
  by_cases hRoot : n = []
  · subst hRoot
    exact hAlone hPlain' hSame
  by_cases hRoot' : n' = []
  · subst hRoot'
    exact (hAlone hPlain hSame.symm).symm
  rw [getNodePath_zero hRoot, getNodePath_zero hRoot'] at hSame
  rw [← splitClauses_slashed hRoot hPlain.noSlash, Option.some.inj hSame, splitClauses_slashed hRoot' hPlain'.noSlash]

theorem Plain.child {p : Path} {name : Str} (h : Plain p) (hSome : p ≠ []) (hName : '/' ∉ name) :
    Plain (p ++ [name]) where
  noSlash := List.forall_mem_append.mpr ⟨h.noSlash, List.forall_mem_singleton.mpr hName⟩
  notEmpty := by
    intro hOne
    have hLength := congrArg List.length hOne
    rw [List.length_append, List.length_singleton, List.length_singleton] at hLength
    exact hSome (List.eq_nil_of_length_eq_zero (by omega))

theorem splitClauses_noSlash (s : Str) : ∀ clause ∈ splitClauses s, '/' ∉ clause := by
  induction s with
  | nil => exact List.forall_mem_singleton.mpr List.not_mem_nil
  | cons c rest ih =>
    rw [splitClauses]
    split
    next => exact List.forall_mem_cons.mpr ⟨List.not_mem_nil, ih⟩
    next hc =>
      cases hRest : splitClauses rest with
      | nil => exact absurd hRest (splitClauses_ne_nil rest)
      | cons clause clauses =>
        rw [hRest, List.forall_mem_cons] at ih
        refine List.forall_mem_cons.mpr ⟨fun hIn => ?_, ih.2⟩
        rcases List.mem_cons.mp hIn with hHere | hLater
        · exact hc hHere.symm
        · exact ih.1 hLater

theorem indexName_noSlash (counter : UInt32) : '/' ∉ DataTree.indexName counter := by
  intro hIn
  rcases List.mem_cons.mp hIn with hHere | hDigit
  · cases hHere
  · rw [Nat.repr, String.toList_ofList] at hDigit
    exact absurd (Nat.isDigit_of_mem_toDigits (by decide) (by decide) hDigit) (by decide)

mutual

/-- The names that a message inserts with. -/
def ClientMessage.inserted : ClientMessage Msg → List Str
  | .insertOrderedData insertions => insertions.map fun insertion => insertion.2.1
  | .batch messages => insertedAll messages
  | _ => []

def ClientMessage.insertedAll : List (ClientMessage Msg) → List Str
  | [] => []
  | message :: rest => message.inserted ++ insertedAll rest

end

/-- The text of an address or what the server has in its place, and that of a number; all other names that are not from
paths are made by the counters of the nodes. -/
def NodeEvent.Named : NodeEvent Msg → Prop
  | .event (.attach host id _) => host ≠ [] ∧ '/' ∉ host ∧ '/' ∉ id
  | .event (.detach _) => True
  | .event (.received _ message) => ∀ name ∈ message.inserted, ∃ counter, name = DataTree.indexName counter
  | .clone _ _ _ _ _ made _ _ => ∃ counter, made = DataTree.indexName counter
  | .restore _ _ _ _ _ made => ∃ counter, made = DataTree.indexName counter

namespace Server

variable {srv srv' : Server regex Msg} {self id : Str} {p : Path}

/-- The paths of all nodes are plain. -/
def Named (srv : Server regex Msg) : Prop :=
  ∀ p ∈ srv.db.paths, Plain p

theorem Named.of_subset (h : srv.Named) (hSub : ∀ q ∈ srv'.db.paths, q ∈ srv.db.paths) : srv'.Named :=
  fun q hq => h q (hSub q hq)

theorem Named.same (h : srv.Named) (hSame : SameTally srv srv') : srv'.Named :=
  h.of_subset fun _ hq => hSame.paths ▸ hq

theorem named_putChild (h : srv.Named) {name : Str} (hPlain : Plain (p ++ [name])) {data : Msg} {notify : Bool}
    (hPut : srv.putChild self p name data notify = some srv') : srv'.Named := by
  intro q hq
  rcases mem_paths_putChild hPut hq with hOld | rfl
  · exact h q hOld
  · exact hPlain

theorem named_updateMember (h : srv.Named) (f : Member regex Msg → Member regex Msg) :
    (srv.updateMember id f).Named :=
  h

theorem named_insertOrderedChild (h : srv.Named) {name : Str} (hPlain : Plain (p ++ [name])) {data : Msg}
    {quiet : Bool} (hInsert : srv.insertOrderedChild self p name data quiet = some srv') : srv'.Named := by
  rw [insertOrderedChild] at hInsert
  split at hInsert
  next =>
    cases hInsert
    exact h
  next =>
    obtain ⟨t, hPut, rfl⟩ := Option.map_eq_some_iff.mp hInsert
    exact named_updateMember (named_putChild h hPlain hPut) _

/-- Induction on the clauses: the node reached so far is plain, and not the root. -/
theorem named_setNodeLoop (h : srv.Named) (hPlain : Plain p) (hSome : p ≠ []) {data : Msg} {flags : SetFlags}
    {made : Str} (hMade : '/' ∉ made) {clauses : List Str} (hClauses : ∀ clause ∈ clauses, '/' ∉ clause)
    {status : Bool} (hLoop : setNodeLoop self data flags made p clauses srv = some (srv', status)) : srv'.Named := by
  induction clauses generalizing p srv with
  | nil =>
    cases hLoop
    exact h
  | cons clause rest ih =>
    obtain ⟨hClause, hRest⟩ := List.forall_mem_cons.mp hClauses
    have hChild := hPlain.child hSome hClause
    have hChildSome : p ++ [clause] ≠ [] := List.append_ne_nil_of_right_ne_nil _ (List.cons_ne_nil _ _)
    rw [setNodeLoop] at hLoop
    split at hLoop
    next =>
      split at hLoop
      · split at hLoop
        · cases hLoop
          exact h
        · split at hLoop
          · obtain ⟨t, hSet, hSame⟩ := Option.map_eq_some_iff.mp hLoop
            cases hSame
            exact h.same (tallies_setData hSet)
          · cases hLoop
            exact h
      · exact ih h hChild hChildSome hRest hLoop
    next =>
      split at hLoop
      next =>
        split at hLoop
        · obtain ⟨t, hInsert, hSame⟩ := Option.map_eq_some_iff.mp hLoop
          cases hSame
          refine named_insertOrderedChild h (hPlain.child hSome ?_) hInsert
          split
          · exact hMade
          · exact hClause
        · obtain ⟨t, hPut, hMore⟩ := Option.bind_eq_some_iff.mp hLoop
          have ht : (t.countNodes self (· + 1)).Named :=
            named_updateMember (named_putChild h hChild hPut) _
          dsimp only at hMore
          split at hMore
          · obtain ⟨u, hSet, hSame⟩ := Option.map_eq_some_iff.mp hMore
            cases hSame
            exact ht.same (tallies_setData hSet)
          · exact ih ht hChild hChildSome hRest hMore
      next =>
        cases hLoop
        exact h

/-- The node of a session is plain, and not the root. -/
theorem plain_sessionDir (hCounted : srv.Counted) (h : srv.Named) {m : Member regex Msg}
    (hm : srv.member? self = some m) : Plain m.sessionDir ∧ m.sessionDir ≠ [] :=
  ⟨h _ (sessionDir_mem hCounted hm), List.cons_ne_nil _ _⟩

theorem named_setNode (hCounted : srv.Counted) (h : srv.Named) {nodePath : Str} {data : Msg} {flags : SetFlags}
    {made : Str} (hMade : '/' ∉ made) {status : Bool}
    (hSet : srv.setNode self nodePath data flags made = some (srv', status)) : srv'.Named := by
  rw [setNode] at hSet
  split at hSet
  next m hm =>
    obtain ⟨hPlain, hSome⟩ := plain_sessionDir hCounted h hm
    split at hSet
    · cases hSet
      exact h
    · exact named_setNodeLoop h hPlain hSome hMade (splitClauses_noSlash nodePath) hSet
  next =>
    cases hSet
    exact h

theorem named_setDataNode (hCounted : srv.Counted) (h : srv.Named) {nodePath : Str} {data : Msg}
    {overwrite create quiet : Bool}
    (hSet : srv.setDataNode self nodePath data overwrite create quiet = some srv') : srv'.Named := by
  rw [setDataNode] at hSet
  split at hSet
  next m hm =>
    obtain ⟨hPlain, hSome⟩ := plain_sessionDir hCounted h hm
    split at hSet
    · cases hSet
      exact h
    · split at hSet
      · cases hSet
        exact h
      · rw [← setNodeLoop_fst self data overwrite create quiet []] at hSet
        obtain ⟨⟨t, status⟩, hLoop, rfl⟩ := Option.map_eq_some_iff.mp hSet
        exact named_setNodeLoop h hPlain hSome List.not_mem_nil (splitClauses_noSlash _) hLoop
  next =>
    cases hSet
    exact h

theorem named_removeChild (h : srv.Named) {notify : Bool} (hRemove : srv.removeChild self p notify = some srv') :
    srv'.Named :=
  h.of_subset fun _ hq => List.mem_of_mem_filter ((tallies_removeChild hRemove).1 ▸ hq)

theorem named_doRemoveData (h : srv.Named) {matcher : PathMatcher regex Msg} {quiet : Bool}
    (hRemove : srv.doRemoveData self matcher quiet = some srv') : srv'.Named := by
  rw [doRemoveData] at hRemove
  split at hRemove
  next =>
    refine Lib.foldlM_keeps (P := Named) hRemove (fun _ _ t t' ht hStep => ?_) h
    rw [removeDataStep] at hStep
    split at hStep
    next =>
      obtain ⟨u, hChild, rfl⟩ := Option.map_eq_some_iff.mp hStep
      exact named_updateMember (named_removeChild ht hChild) _
    next =>
      cases hStep
      exact ht
  next =>
    cases hRemove
    exact h

theorem named_insertOrderedData (h : srv.Named) {insertions : List (Path × Str × Msg)}
    (hNames : ∀ insertion ∈ insertions, '/' ∉ insertion.2.1)
    (hInsert : srv.insertOrderedData self insertions = some srv') : srv'.Named := by
  rw [insertOrderedData] at hInsert
  split at hInsert
  next m hm =>
    refine Lib.foldlM_keeps (P := Named) hInsert (fun insertion hIn t t' ht hStep => ?_) h
    obtain ⟨hInsertion, hBelow⟩ := List.mem_filter.mp hIn
    rw [insertOrderedStep] at hStep
    split at hStep
    next hGuard =>
      obtain ⟨u, hPut, rfl⟩ := Option.map_eq_some_iff.mp hStep
      have hSome : insertion.1 ≠ [] := by
        intro hNone
        have hPrefix := of_decide_eq_true hBelow
        rw [hNone] at hPrefix
        exact List.cons_ne_nil _ _ (List.prefix_nil.mp hPrefix)
      exact named_updateMember
        (named_putChild ht ((ht _ hGuard.1).child hSome (hNames insertion hInsertion)) hPut) _
    next =>
      cases hStep
      exact ht
  next =>
    cases hInsert
    exact h

mutual

theorem named_messageReceived (message : ClientMessage Msg) {srv srv' : Server regex Msg} (hCounted : srv.Counted)
    (h : srv.Named) (hNames : ∀ name ∈ message.inserted, '/' ∉ name)
    (hMessage : messageReceivedFromGateway self message srv = some srv') : srv'.Named := by
  unfold messageReceivedFromGateway at hMessage
  cases message with
  | setData fields quiet =>
    refine (Lib.foldlM_keeps (P := fun t => t.Counted ∧ t.Named) hMessage (fun _ _ t t' ht hStep => ?_)
      ⟨hCounted, h⟩).2
    exact ⟨(counts_setDataNode ht.1 hStep).counted, named_setDataNode ht.1 ht.2 hStep⟩
  | removeData keys quiet => exact named_doRemoveData h hMessage
  | insertOrderedData insertions =>
    refine named_insertOrderedData h (fun insertion hIn => hNames _ ?_) hMessage
    rw [ClientMessage.inserted]
    exact List.mem_map_of_mem hIn
  | setParameters fields => exact h.same (sameTally_setParameters hMessage)
  | removeParameters keys => exact h.same (sameTally_removeParameters hMessage)
  | getData keys =>
    cases hMessage
    exact h.same (sameTally_doGetData srv _)
  | batch messages =>
    rw [ClientMessage.inserted] at hNames
    exact named_callMessagesReceived messages hCounted h hNames hMessage

theorem named_callMessagesReceived (messages : List (ClientMessage Msg)) {srv srv' : Server regex Msg}
    (hCounted : srv.Counted) (h : srv.Named) (hNames : ∀ name ∈ ClientMessage.insertedAll messages, '/' ∉ name)
    (hMessages : callMessagesReceived self messages srv = some srv') : srv'.Named := by
  cases messages with
  | nil =>
    cases hMessages
    exact h
  | cons message rest =>
    rw [ClientMessage.insertedAll, List.forall_mem_append] at hNames
    unfold callMessagesReceived at hMessages
    split at hMessages
    next t hFirst =>
      have hPushed := sameTally_push t
      have ht := (counts_messageReceived message hCounted hFirst).counted
      exact named_callMessagesReceived rest (hPushed.counts ht).counted
        ((named_messageReceived message hCounted h hNames.1 hFirst).same hPushed) hNames.2 hMessages
    next => cases hMessages

end

/-! ### Runs -/

theorem named_attach (h : srv.Named) {host : Str} {maxNodeCount : Nat} (hHost : host ≠ [] ∧ '/' ∉ host ∧ '/' ∉ id)
    (hAttach : srv.attach host id maxNodeCount = some srv') : srv'.Named := by
  have hHostNode : Plain [host] :=
    ⟨List.forall_mem_singleton.mpr hHost.2.1, fun hOne => hHost.1 (List.singleton_inj.mp hOne)⟩
  rw [attach] at hAttach
  split at hAttach
  next =>
    cases hAttach
    exact h
  next =>
    obtain ⟨t, hFirst, hSession⟩ := Option.bind_eq_some_iff.mp hAttach
    obtain ⟨u, hPut, rfl⟩ := Option.map_eq_some_iff.mp hSession
    have ht : t.Named := by
      split at hFirst
      · cases hFirst
        exact h
      · intro q hq
        rcases mem_paths_putChild hFirst hq with hOld | rfl
        · exact h q hOld
        · exact hHostNode
    exact (named_putChild ht (hHostNode.child (List.cons_ne_nil _ _) hHost.2.2) hPut).same (sameTally_push u)

theorem named_detach (hCounted : srv.Counted) (h : srv.Named) (hDetach : srv.detach id = some srv') : srv'.Named := by
  rw [detach] at hDetach
  split at hDetach
  next m hm =>
    obtain ⟨t, hNodes, rfl⟩ := Option.map_eq_some_iff.mp hDetach
    obtain ⟨-, keep, hKept, hRoot, -⟩ := paths_cleanupNodes hCounted hm hNodes
    have ht : t.Named := h.of_subset fun q hq => List.mem_of_mem_filter (hKept ▸ hq)
    have hRootThere : [] ∈ t.db.paths := hKept ▸ List.mem_filter.mpr ⟨hCounted.root, hRoot⟩
    have hMarks : (t.cleanupMarks m).Named := ht.same (sameTally_cleanupMarks hRootThere m)
    exact hMarks
  next =>
    cases hDetach
    exact h

/-- Parts of which each keeps the names plain, one after another as long as none fails. -/
theorem named_andThen_foldl {α : Type} {f : α → Server regex Msg → Option (Server regex Msg × Bool)} {l : List α}
    {first : Option (Server regex Msg × Bool)} {status : Bool}
    (hFirst : ∀ t status, first = some (t, status) → t.Counted ∧ t.Named)
    (hStep : ∀ a ∈ l, ∀ t t' status, t.Counted ∧ t.Named → f a t = some (t', status) → t'.Counted ∧ t'.Named)
    (hRun : l.foldl (fun sofar a => andThen sofar (f a)) first = some (srv', status)) : srv'.Counted ∧ srv'.Named := by
  induction l generalizing first with
  | nil => exact hFirst srv' status hRun
  | cons a l ih =>
    refine ih (fun t status ht => ?_) (fun b hb => hStep b (List.mem_cons_of_mem _ hb)) hRun
    unfold andThen at ht
    obtain ⟨⟨u, ok⟩, hu, hNext⟩ := Option.bind_eq_some_iff.mp ht
    dsimp only at hNext
    split at hNext
    · exact hStep a (List.mem_cons_self ..) u t status (hFirst u ok hu) hNext
    · cases hNext
      exact hFirst _ _ hu

theorem named_clone (hCounted : srv.Counted) (h : srv.Named) {optFunc : Option Msg → Option Msg} {made : Str}
    (hMade : '/' ∉ made) {indexed : Str → Bool} {levels : Nat} {flags : SetFlags} {destPath : Str} {status : Bool}
    (hClone : cloneDataNodeSubtree self optFunc made indexed levels flags p destPath srv = some (srv', status)) :
    srv'.Counted ∧ srv'.Named := by
  induction levels generalizing srv srv' p flags destPath status with
  | zero =>
    cases hClone
    exact ⟨hCounted, h⟩
  | succ levels ih =>
    unfold cloneDataNodeSubtree at hClone
    split at hClone
    next payload _ =>
      unfold andThen at hClone
      obtain ⟨⟨t, ok⟩, hSet, hRest⟩ := Option.bind_eq_some_iff.mp hClone
      have ht : t.Counted ∧ t.Named := ⟨(counts_setNode hCounted hSet).counted, named_setNode hCounted h hMade hSet⟩
      dsimp only at hRest
      split at hRest
      next =>
        obtain ⟨⟨u, ok'⟩, hChildren, hEnd⟩ := Option.bind_eq_some_iff.mp hRest
        rw [cloneChildren] at hChildren
        have hu := named_andThen_foldl (fun v status hv => by cases hv; exact ht)
          (fun name _ v v' status hv hStep => ih hv.1 hv.2 hStep) hChildren
        dsimp only at hEnd
        split at hEnd
        · cases hEnd
          exact hu
        · cases hEnd
          exact hu
      next =>
        cases hRest
        exact ht
    next =>
      cases hClone
      exact ⟨hCounted, h⟩

theorem named_restore (hCounted : srv.Counted) (h : srv.Named) {archive : NodeArchive Msg} {path : Str}
    {loadData appendToIndex : Bool} {made : Str} (hMade : '/' ∉ made) {status : Bool}
    (hRestore : srv.restoreNodeTreeFromMessage self archive path loadData appendToIndex made = some (srv', status)) :
    srv'.Named := by
  rw [restoreNodeTreeFromMessage] at hRestore
  refine (named_andThen_foldl (fun t status ht => ?_) (fun call _ t t' status ht hStep => ?_) hRestore).2
  · cases ht
    exact ⟨hCounted, h⟩
  · exact ⟨(counts_setNode ht.1 hStep).counted, named_setNode ht.1 ht.2 hMade hStep⟩

theorem named_nodeStep (hCounted : srv.Counted) (h : srv.Named) {event : NodeEvent Msg} (hNamed : event.Named)
    (hStep : srv.nodeStep event = some srv') : srv'.Named := by
  have hMade : ∀ {made : Str}, (∃ counter, made = DataTree.indexName counter) → '/' ∉ made := by
    rintro _ ⟨counter, rfl⟩
    exact indexName_noSlash counter
  unfold nodeStep at hStep
  cases event with
  | event event =>
    cases event with
    | attach host id maxNodeCount => exact named_attach h hNamed hStep
    | detach id => exact named_detach hCounted h hStep
    | received id message =>
      unfold step at hStep
      dsimp only at hStep
      split at hStep
      · refine named_callMessagesReceived [message] hCounted h (fun name hName => hMade (hNamed name ?_)) hStep
        rwa [ClientMessage.insertedAll, ClientMessage.insertedAll, List.append_nil] at hName
      · cases hStep
        exact h
  | clone id node destPath flags optFunc made indexed levels =>
    obtain ⟨⟨t, status⟩, hClone, rfl⟩ := Option.map_eq_some_iff.mp hStep
    exact (named_clone hCounted h (hMade hNamed) hClone).2
  | restore id archive path loadData appendToIndex made =>
    obtain ⟨⟨t, status⟩, hRestore, rfl⟩ := Option.map_eq_some_iff.mp hStep
    exact named_restore hCounted h (hMade hNamed) hRestore

theorem named_runNodes (blankMessage : Msg) {events : List (NodeEvent Msg)} (hNamed : ∀ event ∈ events, event.Named)
    (h : (start regex blankMessage).runNodes events = some srv) : srv.Named := by
  refine (Lib.foldlM_keeps (P := fun t => t.Counted ∧ t.Named) h (fun event hEvent t t' ht hStep => ?_)
    ⟨counted_start blankMessage, fun p hp => ?_⟩).2
  · exact ⟨counted_nodeStep ht.1 hStep, named_nodeStep ht.1 ht.2 (hNamed event hEvent) hStep⟩
  · rw [List.mem_singleton.mp hp]
    exact ⟨fun name hName => absurd hName List.not_mem_nil, List.ne_cons_self⟩

/-- A node but the root is found again by its path, and has it alone. The root is not: its path leads to a child
without a name. -/
theorem nodePath_identifies_iff (blankMessage : Msg) {events : List (NodeEvent Msg)}
    (hNamed : ∀ event ∈ events, event.Named) (h : (start regex blankMessage).runNodes events = some srv) {n : Path}
    (hn : n ∈ srv.db.paths) (sessionDir : Option Path) :
    ((getNodePath n 0).bind (getDataNode srv.db.hasChild sessionDir) = some n ∧
      ∀ n' ∈ srv.db.paths, getNodePath n' 0 = getNodePath n 0 → n' = n) ↔ n ≠ [] := by
  have hPlain := named_runNodes blankMessage hNamed h
  have hFound := getDataNode_getNodePath_iff hn (hPlain n hn) sessionDir
  exact ⟨fun hBoth => hFound.mp hBoth.1, fun hSome =>
    ⟨hFound.mpr hSome, fun n' hn' hSame => getNodePath_inj (hPlain n' hn') (hPlain n hn) hSame⟩⟩

/-- A session sets a node by a path with a doubled slash and one at the end. -/
def doubledSlash : List (NodeEvent Nat) :=
  [.event (.attach ['h'] ['1'] 9), .event (.received ['1'] (.setData [("a//b/".toList, 1)] false))]

theorem named_doubledSlash : ∀ event ∈ doubledSlash, event.Named :=
  List.forall_mem_cons.mpr ⟨⟨by decide, by decide, by decide⟩,
    List.forall_mem_singleton.mpr fun _ hName => absurd hName List.not_mem_nil⟩

theorem nodePath_identifies_iff_doubledSlash :
    ∃ srv, (start PathMatcher.oneCharacter 0).runNodes doubledSlash = some srv ∧
      ((getNodePath [['h'], ['1'], ['a'], [], ['b'], []] 0).bind (getDataNode srv.db.hasChild none) =
          some [['h'], ['1'], ['a'], [], ['b'], []] ∧
        ∀ n' ∈ srv.db.paths, getNodePath n' 0 = getNodePath [['h'], ['1'], ['a'], [], ['b'], []] 0 →
          n' = [['h'], ['1'], ['a'], [], ['b'], []]) := by
  have hRun : ((start PathMatcher.oneCharacter 0).runNodes doubledSlash).map (fun srv =>
      decide ([['h'], ['1'], ['a'], [], ['b'], []] ∈ srv.db.paths)) = some true := by decide +kernel
  obtain ⟨srv, h, hIn⟩ := Option.map_eq_some_iff.mp hRun
  exact ⟨srv, h, (nodePath_identifies_iff 0 named_doubledSlash h (of_decide_eq_true hIn) none).mpr
    (List.cons_ne_nil _ _)⟩

/-- The root has the path `/`, and there is nothing at it. -/
theorem getDataNode_root : ∃ srv, (start PathMatcher.oneCharacter 0).runNodes doubledSlash = some srv ∧
    [] ∈ srv.db.paths ∧ getNodePath [] 0 = some ['/'] ∧ getDataNode srv.db.hasChild none ['/'] = none := by
  have hRun : ((start PathMatcher.oneCharacter 0).runNodes doubledSlash).map (fun srv =>
      decide ([] ∈ srv.db.paths ∧ getNodePath [] 0 = some ['/'] ∧ getDataNode srv.db.hasChild none ['/'] = none)) =
        some true := by decide +kernel
  obtain ⟨srv, h, hAll⟩ := Option.map_eq_some_iff.mp hRun
  exact ⟨srv, h, of_decide_eq_true hAll⟩

end Server

end BeShare.Muscle.Reflect
