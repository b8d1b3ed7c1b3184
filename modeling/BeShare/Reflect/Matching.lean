import BeShare.Reflect.Traversal

/-!
The nodes that a traversal calls its callback on, when the callback always returns the depth of its node.
-/

namespace BeShare.Muscle.Reflect

variable {regex : Regex} {Msg : Type}

theorem mem_of_mapM {α β : Type} {f : α → Option β} {l : List α} {l' : List β} (h : l.mapM f = some l') {b : β}
    (hb : b ∈ l') : ∃ a, f a = some b := by
  induction l generalizing l' with
  | nil =>
    cases h
    cases hb
  | cons a l ih =>
    rw [List.mapM_cons] at h
    obtain ⟨c, hc, h⟩ := Option.bind_eq_some_iff.mp h
    obtain ⟨cs, hcs, h⟩ := Option.bind_eq_some_iff.mp h
    cases h
    rcases List.mem_cons.mp hb with rfl | hb
    · exact ⟨a, hc⟩
    · exact ih hcs hb

/-- The matchers of an entry were made by `SetPattern`. -/
theorem PathMatcherEntry.setPattern {entry : PathMatcherEntry regex Msg} {m : StringMatcher}
    (h : some m ∈ entry.parser) : ∃ s, StringMatcher.setPattern regex s = some m := by
  have hParsed := entry.parsed
  unfold parsePath at hParsed
  split at hParsed
  · cases hParsed
  · obtain ⟨clause, hClause⟩ := mem_of_mapM hParsed h
    unfold parseClause at hClause
    split at hClause
    · cases hClause
    · obtain ⟨m', hSet, hm⟩ := Option.map_eq_some_iff.mp hClause
      cases hm
      exact ⟨clause, hSet⟩

theorem PathMatcherEntry.matchesAt_lt {entry : PathMatcherEntry regex Msg} {j : Nat} {name : Str}
    (h : entry.matchesAt j name = true) : j < entry.parser.length := by
  unfold PathMatcherEntry.matchesAt at h
  split at h
  · rename_i hClause
    exact (List.getElem?_eq_some_iff.mp hClause).1
  · cases h

namespace PathMatcher

variable {m : PathMatcher regex Msg} {db : Database Msg} {data : TraversalContext} {node : Path}
  {name : Str} {depth : Nat} {recurse : Path → List Path × Int}

/-- The entry ends at the child, and its callback is called there. -/
def callsAt (m : PathMatcher regex Msg) (db : Database Msg) (data : TraversalContext) (node : Path) (name : Str)
    (entry : PathMatcherEntry regex Msg) : Bool :=
  entry.matchesAt (node.length - data.rootDepth) name &&
    decide (node.length + 1 = data.rootDepth + entry.parser.length) && m.mayCall db data entry (node ++ [name])

/-- The entry goes on below the child. -/
def descendsAt (data : TraversalContext) (depth : Nat) (name : Str) (entry : PathMatcherEntry regex Msg) : Bool :=
  entry.matchesAt (depth - data.rootDepth) name && !decide (depth + 1 = data.rootDepth + entry.parser.length)

/-- A child that neither the callback nor the descent leaves. -/
def Stays (data : TraversalContext) (recurse : Path → List Path × Int) (child : Path) : Prop :=
  (child.length : Int) - 1 ≤ data.cb child ∧ (child.length : Int) - 1 ≤ (recurse child).2

theorem checkChildLoop_spec (m : PathMatcher regex Msg) (db : Database Msg)
    (hStays : Stays data recurse (node ++ [name])) (entries : List (PathMatcherEntry regex Msg))
    (matched recursed : Bool) :
    (m.checkChildLoop db data recurse node.length (node ++ [name]) name entries matched recursed).2 = none ∧
      (m.checkChildLoop db data recurse node.length (node ++ [name]) name entries matched recursed).1.Perm
        ((if !matched && entries.any (m.callsAt db data node name) then [node ++ [name]] else []) ++
          if !recursed && entries.any (descendsAt data node.length name) then (recurse (node ++ [name])).1
          else []) := by
  induction entries generalizing matched recursed with
  | nil => simp [checkChildLoop]
  | cons entry rest ih =>
    unfold checkChildLoop
    by_cases hHere : entry.matchesAt (node.length - data.rootDepth) name = true
    · have hLong := entry.matchesAt_lt hHere
      rw [if_pos (by simp [hHere, hLong])]
      by_cases hLast : node.length + 1 = data.rootDepth + entry.parser.length
      · rw [if_pos hLast]
        have hDown : descendsAt data node.length name entry = false := by simp [descendsAt, hLast]
        cases matched
        · rw [if_pos rfl]
          by_cases hMay : m.mayCall db data entry (node ++ [name]) = true
          · have hCall : m.callsAt db data node name entry = true := by simp [callsAt, hHere, hLast, hMay]
            rw [if_pos hMay]
            dsimp only
            rw [if_neg (Int.not_lt.mpr hStays.1)]
            obtain ⟨hNone, hPerm⟩ := ih true recursed
            cases recursed
            · simp only [Bool.false_eq_true, if_false, List.any_cons, hCall, hDown]
              refine ⟨hNone, ?_⟩
              simpa using hPerm
            · simp [hCall]
          · have hCall : m.callsAt db data node name entry = false := by simp [callsAt, hMay]
            rw [if_neg hMay]
            simpa [hCall, hDown] using ih false recursed
        · rw [if_neg (by simp)]
          simpa [hDown] using ih true recursed
      · rw [if_neg hLast]
        have hCall : m.callsAt db data node name entry = false := by simp [callsAt, hLast]
        have hDown : descendsAt data node.length name entry = true := by simp [descendsAt, hHere, hLast]
        cases recursed
        · rw [if_pos rfl]
          dsimp only
          rw [if_neg (Int.not_lt.mpr hStays.2)]
          obtain ⟨hNone, hPerm⟩ := ih matched true
          cases matched
          · simp only [Bool.false_eq_true, if_false, List.any_cons, hCall, hDown]
            refine ⟨hNone, ?_⟩
            simp only [Bool.not_true, Bool.false_and, Bool.false_eq_true, if_false, List.append_nil] at hPerm
            refine (hPerm.append_left _).trans List.perm_append_comm |>.trans ?_
            simp
          · simp [hDown]
        · rw [if_neg (by simp)]
          simpa [hCall] using ih matched true
    · have hCall : m.callsAt db data node name entry = false := by simp [callsAt, hHere]
      have hDown : descendsAt data node.length name entry = false := by simp [descendsAt, hHere]
      rw [if_neg (by simp [hHere])]
      simpa [hCall, hDown] using ih matched recursed

/-- What is called at a child and below it. -/
def childCalls (m : PathMatcher regex Msg) (db : Database Msg) (data : TraversalContext)
    (recurse : Path → List Path × Int) (node : Path) (name : Str) : List Path :=
  (if m.entries.any (m.callsAt db data node name) then [node ++ [name]] else []) ++
    if m.entries.any (descendsAt data node.length name) then (recurse (node ++ [name])).1 else []

theorem checkChildren_stays (m : PathMatcher regex Msg) (db : Database Msg) (node : Path)
    (recurse : Path → List Path × Int) (hStays : ∀ name, Stays data recurse (node ++ [name])) (names : List Str) :
    (m.checkChildren db data recurse node names).2 = (node.length : Int) ∧
      (m.checkChildren db data recurse node names).1.Perm
        (names.flatMap (m.childCalls db data recurse node)) := by
  induction names with
  | nil => exact ⟨rfl, List.Perm.refl _⟩
  | cons name rest ih =>
    obtain ⟨hNone, hPerm⟩ := checkChildLoop_spec m db (hStays name) m.entries false false
    unfold checkChildren checkChildForTraversal
    revert hNone hPerm
    generalize m.checkChildLoop db data recurse node.length (node ++ [name]) name m.entries false false = found
    obtain ⟨calls, left⟩ := found
    rintro rfl hPerm
    refine ⟨ih.1, ?_⟩
    rw [List.flatMap_cons]
    refine List.Perm.append (hPerm.trans (List.Perm.of_eq ?_)) ih.2
    simp [childCalls]

theorem checkChildren_spec (m : PathMatcher regex Msg) (db : Database Msg) (hCb : data.cb = callWithDepth)
    (node : Path) (recurse : Path → List Path × Int)
    (hRecurse : ∀ name, (recurse (node ++ [name])).2 = ((node ++ [name]).length : Int)) (names : List Str) :
    (m.checkChildren db data recurse node names).2 = (node.length : Int) ∧
      (m.checkChildren db data recurse node names).1.Perm
        (names.flatMap (m.childCalls db data recurse node)) := by
  refine checkChildren_stays m db node recurse (fun name => ⟨?_, ?_⟩) names
  · rw [hCb]
    exact Int.sub_le_self _ (by decide)
  · rw [hRecurse]
    exact Int.sub_le_self _ (by decide)

/-! ### The literal children -/

theorem mem_literalChildren {entries : List (PathMatcherEntry regex Msg)} {alreadyDid : List Str} :
    name ∈ literalChildren db data node entries alreadyDid ↔
      name ∉ alreadyDid ∧ db.hasChild node name = true ∧
        ∃ entry ∈ entries, ∃ matcher, entry.parser[node.length - data.rootDepth]? = some (some matcher) ∧
          matcher.pattern = name := by
  induction entries generalizing alreadyDid with
  | nil => simp [literalChildren]
  | cons entry rest ih =>
    unfold literalChildren
    split
    · rename_i matcher hMatcher
      by_cases hNew : db.hasChild node matcher.pattern = true ∧ matcher.pattern ∉ alreadyDid
      · rw [if_pos (by simpa using hNew), List.mem_cons, ih]
        by_cases hName : name = matcher.pattern
        · subst hName
          exact iff_of_true (.inl rfl) ⟨hNew.2, hNew.1, entry, List.mem_cons_self .., matcher, hMatcher, rfl⟩
        · constructor
          · rintro (hSame | ⟨hDid, hChild, entry', hEntry', hRest⟩)
            · exact absurd hSame hName
            · exact ⟨fun h => hDid (List.mem_cons_of_mem _ h), hChild, entry', List.mem_cons_of_mem _ hEntry', hRest⟩
          · rintro ⟨hDid, hChild, entry', hEntry', matcher', hMatcher', hPattern⟩
            refine .inr ⟨fun h => (List.mem_cons.mp h).elim hName hDid, hChild, entry', ?_, matcher', hMatcher',
              hPattern⟩
            refine (List.mem_cons.mp hEntry').resolve_left ?_
            rintro rfl
            rw [hMatcher] at hMatcher'
            cases hMatcher'
            exact hName hPattern.symm
      · rw [if_neg (by simpa using hNew), ih]
        refine and_congr_right fun hDid => and_congr_right fun hChild => ?_
        rw [List.exists_mem_cons_iff]
        refine ⟨.inr, fun h => h.resolve_left ?_⟩
        rintro ⟨matcher', hSame, rfl⟩
        rw [hMatcher] at hSame
        cases hSame
        exact hNew ⟨hChild, hDid⟩
    · rename_i hOther
      rw [ih]
      refine and_congr_right fun _ => and_congr_right fun _ => ?_
      rw [List.exists_mem_cons_iff]
      refine ⟨.inr, fun h => h.resolve_left ?_⟩
      rintro ⟨matcher, hSame, -⟩
      exact hOther matcher hSame

theorem literalChildren_nodup (entries : List (PathMatcherEntry regex Msg)) (alreadyDid : List Str) :
    (literalChildren db data node entries alreadyDid).Nodup := by
  induction entries generalizing alreadyDid with
  | nil => exact List.nodup_nil
  | cons entry rest ih =>
    unfold literalChildren
    split
    · split
      · refine List.nodup_cons.mpr ⟨fun hMem => ?_, ih _⟩
        exact (mem_literalChildren.mp hMem).1 (List.mem_cons_self ..)
      · exact ih _
    · exact ih _

/-- A child that an entry matches, where no clause has wildcards, is one of the literal children. -/
theorem mem_literalChildren_of_matches (hLiteral : regex.Literal)
    (hNoWild : m.parsersHaveWildcards data node.length = false) (hChild : name ∈ db.children node)
    {entry : PathMatcherEntry regex Msg} (hEntry : entry ∈ m.entries)
    (hMatch : entry.matchesAt (node.length - data.rootDepth) name = true) :
    name ∈ literalChildren db data node m.entries [] := by
  have hClause := List.any_eq_false.mp hNoWild entry hEntry
  have hGet := hMatch
  unfold PathMatcherEntry.matchesAt at hGet
  cases hParser : entry.parser[node.length - data.rootDepth]? with
  | none =>
    rw [hParser] at hGet
    cases hGet
  | some clause =>
    rw [hParser] at hClause hGet
    cases clause with
    | none => simp at hClause
    | some matcher =>
      have hUnique : matcher.isPatternUnique = true := by simpa using hClause
      obtain ⟨s, hSet⟩ := entry.setPattern (List.mem_of_getElem? hParser)
      have hName : name = matcher.pattern := by
        have hIs : matcher.isMatch name = true := hGet
        rw [isMatch_of_unique hLiteral hSet hUnique] at hIs
        exact of_decide_eq_true hIs
      refine mem_literalChildren.mpr ⟨List.not_mem_nil, ?_, entry, hEntry, matcher, hParser, hName.symm⟩
      exact decide_eq_true (Database.mem_children.mp hChild)

/-! ### The traversal -/

/-- From a node on, the names below it lead to a call. -/
def Reaches (m : PathMatcher regex Msg) (db : Database Msg) (data : TraversalContext) (node : Path) :
    List Str → Prop
  | [] => False
  | [name] => m.entries.any (m.callsAt db data node name) = true
  | name :: rest =>
    m.entries.any (descendsAt data node.length name) = true ∧ Reaches m db data (node ++ [name]) rest

theorem parser_length_le {entry : PathMatcherEntry regex Msg} (h : entry ∈ m.entries) :
    entry.parser.length ≤ m.maxClauses := by
  unfold maxClauses
  generalize m.entries = entries at h
  induction entries with
  | nil => cases h
  | cons first rest ih =>
    rw [List.map_cons, List.foldr_cons]
    rcases List.mem_cons.mp h with rfl | h
    · exact Nat.le_max_left ..
    · exact Nat.le_trans (ih h) (Nat.le_max_right ..)

theorem doTraversalAux_depth (hCb : data.cb = callWithDepth) (levels : Nat) (node : Path) :
    (m.doTraversalAux db data levels node).2 = (node.length : Int) := by
  induction levels generalizing node with
  | zero => rfl
  | succ levels ih => exact (checkChildren_spec m db hCb node _ (fun name => ih _) _).1

theorem mem_childCalls {q : Path} : q ∈ m.childCalls db data recurse node name ↔
    (m.entries.any (m.callsAt db data node name) = true ∧ q = node ++ [name]) ∨
      (m.entries.any (descendsAt data node.length name) = true ∧ q ∈ (recurse (node ++ [name])).1) := by
  unfold childCalls
  rw [List.mem_append]
  refine or_congr ?_ ?_
  · split <;> simp_all
  · split <;> simp_all

theorem any_matches {names : PathMatcherEntry regex Msg → Bool} (h : m.entries.any names = true)
    (hMatch : ∀ entry, names entry = true → entry.matchesAt (node.length - data.rootDepth) name = true) :
    ∃ entry ∈ m.entries, entry.matchesAt (node.length - data.rootDepth) name = true := by
  obtain ⟨entry, hEntry, hNames⟩ := List.any_eq_true.mp h
  exact ⟨entry, hEntry, hMatch entry hNames⟩

theorem callsAt_matches {entry : PathMatcherEntry regex Msg} (h : m.callsAt db data node name entry = true) :
    entry.matchesAt (node.length - data.rootDepth) name = true := by
  simp only [callsAt, Bool.and_eq_true] at h
  exact h.1.1

theorem descendsAt_matches {entry : PathMatcherEntry regex Msg}
    (h : descendsAt data node.length name entry = true) :
    entry.matchesAt (node.length - data.rootDepth) name = true := by
  simp only [descendsAt, Bool.and_eq_true] at h
  exact h.1

/-- The names that the traversal looks at below a node. -/
def lookedAt (m : PathMatcher regex Msg) (db : Database Msg) (data : TraversalContext) (node : Path) : List Str :=
  if m.parsersHaveWildcards data node.length then db.children node
  else literalChildren db data node m.entries []

theorem lookedAt_nodup (m : PathMatcher regex Msg) (db : Database Msg) (data : TraversalContext) (node : Path) :
    (m.lookedAt db data node).Nodup := by
  unfold lookedAt
  split
  · exact Database.children_nodup node
  · exact literalChildren_nodup ..

/-- Both ways to go over the children come to those that an entry matches. -/
theorem mem_lookedAt (hLiteral : regex.Literal)
    (hMatch : ∃ entry ∈ m.entries, entry.matchesAt (node.length - data.rootDepth) name = true) :
    name ∈ m.lookedAt db data node ↔ node ++ [name] ∈ db.paths := by
  unfold lookedAt
  obtain ⟨entry, hEntry, hMatch⟩ := hMatch
  split
  · exact Database.mem_children
  · rename_i hNoWild
    constructor
    · intro h
      exact of_decide_eq_true (mem_literalChildren.mp h).2.1
    · intro h
      exact mem_literalChildren_of_matches hLiteral (by simpa using hNoWild) (Database.mem_children.mpr h)
        hEntry hMatch

theorem mem_doTraversalAux (hLiteral : regex.Literal) (hCb : data.cb = callWithDepth) {levels : Nat}
    (hLevels : m.maxClauses + data.rootDepth ≤ levels + node.length) (hDepth : data.rootDepth ≤ node.length)
    {q : Path} : q ∈ (m.doTraversalAux db data levels node).1 ↔
      ∃ names, q = node ++ names ∧ q ∈ db.paths ∧ m.Reaches db data node names := by
  induction levels generalizing node with
  | zero =>
    refine iff_of_false List.not_mem_nil ?_
    rintro ⟨names, -, -, hReaches⟩
    have hNone : ∀ entry ∈ m.entries, ∀ name,
        entry.matchesAt (node.length - data.rootDepth) name = false := by
      intro entry hEntry name
      rw [Bool.eq_false_iff]
      intro hMatch
      have hLong := entry.matchesAt_lt hMatch
      have hMax := m.parser_length_le hEntry
      omega
    match names, hReaches with
    | [name], hReaches =>
      obtain ⟨entry, hEntry, hMatch⟩ := any_matches hReaches fun e he => callsAt_matches he
      exact absurd hMatch (by simp [hNone entry hEntry])
    | name :: _ :: _, hReaches =>
      obtain ⟨entry, hEntry, hMatch⟩ := any_matches hReaches.1 fun e he => descendsAt_matches he
      exact absurd hMatch (by simp [hNone entry hEntry])
  | succ levels ih =>
    have hChild := checkChildren_spec m db hCb node
      (m.doTraversalAux db data levels) (fun name => doTraversalAux_depth hCb _ _)
      (m.lookedAt db data node)
    show q ∈ (m.checkChildren db data (m.doTraversalAux db data levels) node (m.lookedAt db data node)).1 ↔ _
    rw [hChild.2.mem_iff, List.mem_flatMap]
    have hBelow : ∀ name, q ∈ (m.doTraversalAux db data levels (node ++ [name])).1 ↔
        ∃ names, q = (node ++ [name]) ++ names ∧ q ∈ db.paths ∧ m.Reaches db data (node ++ [name]) names :=
      fun name => ih (by simp only [List.length_append, List.length_singleton]; omega)
        (by simp only [List.length_append, List.length_singleton]; omega)
    constructor
    · rintro ⟨name, hName, hCalls⟩
      rcases mem_childCalls.mp hCalls with ⟨hCall, rfl⟩ | ⟨hDown, hRest⟩
      · have hMatch := any_matches hCall fun e he => callsAt_matches he
        exact ⟨[name], rfl, (mem_lookedAt hLiteral hMatch).mp hName, hCall⟩
      · obtain ⟨names, rfl, hIn, hReaches⟩ := (hBelow name).mp hRest
        refine ⟨name :: names, by rw [List.append_assoc, List.singleton_append], hIn, ?_⟩
        cases names with
        | nil => exact hReaches.elim
        | cons => exact ⟨hDown, hReaches⟩
    · rintro ⟨names, rfl, hIn, hReaches⟩
      match names, hReaches with
      | [name], hReaches =>
        have hMatch := any_matches hReaches fun e he => callsAt_matches he
        exact ⟨name, (mem_lookedAt hLiteral hMatch).mpr hIn, mem_childCalls.mpr (.inl ⟨hReaches, rfl⟩)⟩
      | name :: next :: rest, hReaches =>
        have hMatch := any_matches hReaches.1 fun e he => descendsAt_matches he
        have hSplit : node ++ name :: next :: rest = (node ++ [name]) ++ (next :: rest) := by
          rw [List.append_assoc, List.singleton_append]
        have hChildIn : node ++ [name] ∈ db.paths := by
          refine Database.prefix_mem ?_ hIn
          rw [hSplit]
          exact List.prefix_append ..
        refine ⟨name, (mem_lookedAt hLiteral hMatch).mpr hChildIn, mem_childCalls.mpr (.inr ⟨hReaches.1, ?_⟩)⟩
        exact (hBelow name).mpr ⟨next :: rest, hSplit, hIn, hReaches.2⟩

theorem below_of_mem_doTraversalAux (hCb : data.cb = callWithDepth) {levels : Nat} {q : Path}
    (h : q ∈ (m.doTraversalAux db data levels node).1) : node <+: q ∧ node.length < q.length := by
  induction levels generalizing node with
  | zero => cases h
  | succ levels ih =>
    have hChild := checkChildren_spec m db hCb node
      (m.doTraversalAux db data levels) (fun name => doTraversalAux_depth hCb _ _)
      (m.lookedAt db data node)
    obtain ⟨name, -, hCalls⟩ := List.mem_flatMap.mp (hChild.2.mem_iff.mp h)
    rcases mem_childCalls.mp hCalls with ⟨-, rfl⟩ | ⟨-, hRest⟩
    · exact ⟨List.prefix_append .., by simp⟩
    · obtain ⟨hPrefix, hLength⟩ := ih hRest
      refine ⟨(List.prefix_append ..).trans hPrefix, ?_⟩
      simp only [List.length_append, List.length_singleton] at hLength
      omega

/-- No callback is called twice on one node. -/
theorem doTraversalAux_nodup (hCb : data.cb = callWithDepth) (levels : Nat) (node : Path) :
    (m.doTraversalAux db data levels node).1.Nodup := by
  induction levels generalizing node with
  | zero => exact List.nodup_nil
  | succ levels ih =>
    have hChild := checkChildren_spec m db hCb node
      (m.doTraversalAux db data levels) (fun name => doTraversalAux_depth hCb _ _)
      (m.lookedAt db data node)
    have hBelow : ∀ name q, q ∈ m.childCalls db data (m.doTraversalAux db data levels) node name →
        node ++ [name] <+: q := by
      intro name q hq
      rcases mem_childCalls.mp hq with ⟨-, rfl⟩ | ⟨-, hRest⟩
      · exact List.prefix_refl _
      · exact (below_of_mem_doTraversalAux hCb hRest).1
    refine hChild.2.nodup_iff.mpr (List.nodup_flatMap.mpr ⟨fun name _ => ?_, ?_⟩)
    · unfold childCalls
      refine List.Nodup.append ?_ ?_ ?_
      · split
        · exact List.nodup_singleton _
        · exact List.nodup_nil
      · split
        · exact ih _
        · exact List.nodup_nil
      · intro q hq hq'
        split at hq'
        · have hDeeper := (below_of_mem_doTraversalAux hCb hq').2
          split at hq
          · rw [List.mem_singleton.mp hq] at hDeeper
            exact Nat.lt_irrefl _ hDeeper
          · cases hq
        · cases hq'
    · refine (m.lookedAt_nodup db data node).imp fun {name name'} hNe q hq hq' => ?_
      have hSame := (List.prefix_of_prefix_length_le (hBelow name q hq) (hBelow name' q hq') (by simp)).eq_of_length
        (by simp)
      exact hNe (List.singleton_inj.mp (List.append_cancel_left hSame))

theorem doTraversal_nodup (m : PathMatcher regex Msg) (db : Database Msg) (root : Path) (useFilters : Bool) :
    (m.doTraversal db callWithDepth root useFilters).Nodup :=
  doTraversalAux_nodup rfl _ _

/-! ### Against the entries one by one -/

theorem reaches_iff {names : List Str} : m.Reaches db data node names ↔
    ∃ init last, names = init ++ [last] ∧
      (∀ j name, init[j]? = some name → m.entries.any (descendsAt data (node.length + j) name) = true) ∧
      m.entries.any (m.callsAt db data (node ++ init) last) = true := by
  induction names generalizing node with
  | nil => simp [Reaches]
  | cons name rest ih =>
    cases rest with
    | nil =>
      constructor
      · intro h
        exact ⟨[], name, rfl, by simp, by rwa [List.append_nil]⟩
      · rintro ⟨init, last, hNames, -, hCall⟩
        obtain rfl : init = [] := by
          cases init with
          | nil => rfl
          | cons => simp at hNames
        obtain rfl := List.singleton_inj.mp hNames
        rwa [List.append_nil] at hCall
    | cons next rest =>
      show _ ∧ _ ↔ _
      rw [ih]
      constructor
      · rintro ⟨hDown, init, last, hNames, hRest, hCall⟩
        refine ⟨name :: init, last, by rw [hNames]; rfl, ?_, ?_⟩
        · intro j name' hName
          cases j with
          | zero =>
            cases hName
            exact hDown
          | succ j =>
            have hLater := hRest j name' hName
            rwa [List.length_append, List.length_singleton, Nat.add_assoc, Nat.add_comm 1 j] at hLater
        · rwa [List.append_assoc, List.singleton_append] at hCall
      · rintro ⟨init, last, hNames, hDown, hCall⟩
        cases init with
        | nil => simp at hNames
        | cons first init =>
          obtain ⟨rfl, hRest⟩ := List.cons.inj hNames
          refine ⟨hDown 0 name rfl, init, last, hRest, fun j name' hName => ?_, ?_⟩
          · have hLater := hDown (j + 1) name' hName
            rwa [List.length_append, List.length_singleton, Nat.add_assoc, Nat.add_comm 1 j]
          · rwa [List.append_assoc, List.singleton_append]

theorem pathMatchesLoop_iff (entry : PathMatcherEntry regex Msg) (root : Path) {names : List Str} (rootDepth : Nat)
    {k : Nat} (hk : k ≤ names.length) : pathMatchesLoop entry rootDepth k (root ++ names.take k).reverse = true ↔
      ∀ j name, rootDepth ≤ j → j < k → names[j]? = some name → entry.matchesAt j name = true := by
  induction k with
  | zero => simp [pathMatchesLoop]
  | succ k ih =>
    obtain ⟨last, hLast⟩ : ∃ last, names[k]? = some last := ⟨names[k], List.getElem?_eq_getElem (by omega)⟩
    have hTake : names.take (k + 1) = names.take k ++ [last] := by
      rw [List.take_add_one, hLast]
      rfl
    unfold pathMatchesLoop
    by_cases hRoot : rootDepth ≤ k
    · rw [if_pos hRoot, hTake, ← List.append_assoc, List.reverse_append, List.reverse_singleton,
        List.singleton_append]
      dsimp only
      by_cases hMatch : entry.matchesAt k last = true
      · rw [if_pos hMatch, ih (by omega)]
        constructor
        · intro h j name hj hjk hName
          by_cases hEq : j = k
          · subst hEq
            rw [hLast] at hName
            cases hName
            exact hMatch
          · exact h j name hj (by omega) hName
        · exact fun h j name hj hjk => h j name hj (by omega)
      · rw [if_neg hMatch]
        refine iff_of_false (by simp) fun h => hMatch (h k last hRoot (by omega) hLast)
    · rw [if_neg hRoot]
      exact iff_of_true rfl fun j name hj hjk => by omega

/-- An entry matches the names below the root clause by clause, from one clause on. -/
def matchesFrom (start : Nat) (entry : PathMatcherEntry regex Msg) (names : List Str) : Prop :=
  entry.parser.length = names.length ∧
    ∀ j name, start ≤ j → names[j]? = some name → entry.matchesAt j name = true

theorem pathMatches_iff {entry : PathMatcherEntry regex Msg} {root : Path} {names : List Str}
    {optData : Option Msg} : pathMatches (root ++ names) optData entry root.length = true ↔
      matchesFrom root.length entry names ∧ entry.filterMatches optData (root ++ names) = true := by
  unfold pathMatches matchesFrom
  have hLength : (entry.parser.length : Int) = ((root ++ names).length : Int) - root.length ↔
      entry.parser.length = names.length := by
    rw [List.length_append]
    omega
  by_cases hSame : entry.parser.length = names.length
  · rw [if_pos (hLength.mpr hSame), hSame]
    have hLoop := pathMatchesLoop_iff entry root root.length
      (Nat.le_refl names.length)
    rw [List.take_length] at hLoop
    have hAll : (∀ j name, root.length ≤ j → j < names.length → names[j]? = some name →
        entry.matchesAt j name = true) ↔
        ∀ j name, root.length ≤ j → names[j]? = some name → entry.matchesAt j name = true := by
      refine forall_congr' fun j => forall_congr' fun name => imp_congr_right fun _ => ?_
      exact ⟨fun h hName => h (List.getElem?_eq_some_iff.mp hName).1 hName, fun h _ => h⟩
    rw [hAll] at hLoop
    by_cases hMatches : pathMatchesLoop entry root.length names.length (root ++ names).reverse = true
    · rw [if_pos hMatches]
      exact ⟨fun h => ⟨⟨rfl, hLoop.mp hMatches⟩, h⟩, fun h => h.2⟩
    · rw [if_neg hMatches]
      exact iff_of_false (by simp) fun h => hMatches (hLoop.mpr h.1.2)
  · rw [if_neg (mt hLength.mp hSame)]
    exact iff_of_false (by simp) fun h => hSame h.1.1

/-- Some single entry matches the node below the root, and its filter the node's data. -/
def EntryMatches (m : PathMatcher regex Msg) (db : Database Msg) (root : Path) (useFilters : Bool)
    (names : List Str) : Prop :=
  ∃ entry ∈ m.entries, matchesFrom 0 entry names ∧
    (useFilters = true → entry.filterMatches (db.data (root ++ names)) (root ++ names) = true)

/-- No node below the root that the entries match only together, level by level, has an entry that matches the
last clauses (from the depth of the root on) and its data: only single entries match nodes. -/
def NoConspiracy (m : PathMatcher regex Msg) (db : Database Msg) (root : Path) (useFilters : Bool) : Prop :=
  ∀ init last, root ++ (init ++ [last]) ∈ db.paths →
    (∀ j name, init[j]? = some name → ∃ entry ∈ m.entries,
      entry.matchesAt j name = true ∧ j + 1 < entry.parser.length) →
    (∃ entry ∈ m.entries, entry.parser.length = init.length + 1 ∧ entry.matchesAt init.length last = true) →
    (∃ entry ∈ m.entries, matchesFrom root.length entry (init ++ [last]) ∧
      (useFilters = true →
        entry.filterMatches (db.data (root ++ (init ++ [last]))) (root ++ (init ++ [last])) = true)) →
    m.EntryMatches db root useFilters (init ++ [last])

theorem mem_doTraversal (hLiteral : regex.Literal) {root : Path} {useFilters : Bool} {q : Path} :
    q ∈ m.doTraversal db callWithDepth root useFilters ↔
      ∃ init last, q = root ++ (init ++ [last]) ∧ q ∈ db.paths ∧
        (∀ j name, init[j]? = some name → ∃ entry ∈ m.entries,
          entry.matchesAt j name = true ∧ j + 1 < entry.parser.length) ∧
        ∃ entry ∈ m.entries, entry.parser.length = init.length + 1 ∧
          entry.matchesAt init.length last = true ∧
          m.mayCall db ⟨callWithDepth, useFilters, root.length⟩ entry q = true := by
  have hDown : ∀ (j : Nat) (name : Str) (entry : PathMatcherEntry regex Msg),
      descendsAt ⟨callWithDepth, useFilters, root.length⟩ (root.length + j) name entry = true ↔
        entry.matchesAt j name = true ∧ j + 1 < entry.parser.length := by
    intro j name entry
    simp only [descendsAt, Bool.and_eq_true, Bool.not_eq_true', decide_eq_false_iff_not,
      Nat.add_sub_cancel_left]
    refine and_congr_right fun hMatch => ?_
    have hLong := entry.matchesAt_lt hMatch
    omega
  unfold doTraversal
  rw [mem_doTraversalAux hLiteral rfl (Nat.le_refl _) (Nat.le_refl _)]
  constructor
  · rintro ⟨names, rfl, hIn, hReaches⟩
    obtain ⟨init, last, rfl, hInit, hLast⟩ := reaches_iff.mp hReaches
    refine ⟨init, last, rfl, hIn, fun j name hName => ?_, ?_⟩
    · obtain ⟨entry, hEntry, hDescends⟩ := List.any_eq_true.mp (hInit j name hName)
      exact ⟨entry, hEntry, (hDown j name entry).mp hDescends⟩
    · obtain ⟨entry, hEntry, hCalls⟩ := List.any_eq_true.mp hLast
      simp only [callsAt, Bool.and_eq_true, decide_eq_true_eq, List.length_append, Nat.add_sub_cancel_left,
        List.append_assoc] at hCalls
      exact ⟨entry, hEntry, by omega, hCalls.1.1, hCalls.2⟩
  · rintro ⟨init, last, rfl, hIn, hInit, entry, hEntry, hLength, hMatch, hMay⟩
    refine ⟨init ++ [last], rfl, hIn, reaches_iff.mpr ⟨init, last, rfl, fun j name hName => ?_, ?_⟩⟩
    · obtain ⟨entry', hEntry', hBoth⟩ := hInit j name hName
      exact List.any_eq_true.mpr ⟨entry', hEntry', (hDown j name entry').mpr hBoth⟩
    · refine List.any_eq_true.mpr ⟨entry, hEntry, ?_⟩
      simp only [callsAt, Bool.and_eq_true, decide_eq_true_eq, List.length_append, Nat.add_sub_cancel_left,
        List.append_assoc]
      exact ⟨⟨hMatch, by omega⟩, hMay⟩

theorem filterMatches_none (entry : PathMatcherEntry regex Msg) (node : Path) :
    entry.filterMatches none node = true := by
  unfold PathMatcherEntry.filterMatches
  split
  · simp_all
  · rfl

/-- The filter is looked at only if filters are in use. -/
theorem filterMatches_used (entry : PathMatcherEntry regex Msg) (db : Database Msg) (useFilters : Bool)
    (q : Path) : entry.filterMatches (if useFilters then db.data q else none) q = true ↔
      (useFilters = true → entry.filterMatches (db.data q) q = true) := by
  cases useFilters
  · simp [filterMatches_none]
  · simp

theorem matchesNode_iff {root : Path} {names : List Str} {useFilters : Bool} :
    m.matchesNode (root ++ names) (if useFilters then db.data (root ++ names) else none) root.length = true ↔
      ∃ entry ∈ m.entries, matchesFrom root.length entry names ∧
        (useFilters = true → entry.filterMatches (db.data (root ++ names)) (root ++ names) = true) := by
  unfold matchesNode
  rw [List.any_eq_true]
  refine exists_congr fun entry => and_congr_right fun _ => ?_
  rw [pathMatches_iff, filterMatches_used]

theorem matchesFrom_mono {entry : PathMatcherEntry regex Msg} {names : List Str} (start : Nat)
    (h : matchesFrom 0 entry names) : matchesFrom start entry names :=
  ⟨h.1, fun j name _ => h.2 j name (Nat.zero_le j)⟩

theorem ne_nil_of_matchesFrom {entry : PathMatcherEntry regex Msg} (h : matchesFrom 0 entry ([] : List Str)) :
    False := by
  have hParsed := entry.parsed
  have hNil : entry.parser = [] := List.length_eq_zero_iff.mp h.1
  rw [hNil] at hParsed
  unfold parsePath at hParsed
  split at hParsed
  · cases hParsed
  · have hSome : ∀ clauses : List Str, clauses.mapM (parseClause regex) = some [] → clauses = [] := by
      intro clauses hMap
      cases clauses with
      | nil => rfl
      | cons clause clauses =>
        rw [List.mapM_cons] at hMap
        obtain ⟨c, -, hMap⟩ := Option.bind_eq_some_iff.mp hMap
        obtain ⟨cs, -, hMap⟩ := Option.bind_eq_some_iff.mp hMap
        cases hMap
    have hSplit : ∀ path, splitClauses path ≠ [] := by
      intro path
      cases path with
      | nil => exact List.cons_ne_nil _ _
      | cons c path =>
        unfold splitClauses
        split
        · exact List.cons_ne_nil _ _
        · split
          · exact List.cons_ne_nil _ _
          · exact List.cons_ne_nil _ _
    exact hSplit _ (hSome _ hParsed)

/-- The only entry of a matcher without a filter in use needs no second look. -/
theorem entryMatches_of_single {root : Path} {init : List Str} {last : Str} {useFilters : Bool}
    (hSingle : m.entries.length = 1) {entry : PathMatcherEntry regex Msg} (hEntry : entry ∈ m.entries)
    (hFilter : (!useFilters || entry.filter.isNone) = true) (hLength : entry.parser.length = init.length + 1)
    (hLast : entry.matchesAt init.length last = true)
    (hInit : ∀ j name, init[j]? = some name → ∃ entry ∈ m.entries,
      entry.matchesAt j name = true ∧ j + 1 < entry.parser.length) :
    m.EntryMatches db root useFilters (init ++ [last]) := by
  obtain ⟨only, hOnly⟩ := List.length_eq_one_iff.mp hSingle
  have hSame : ∀ e ∈ m.entries, e = entry := by
    intro e he
    rw [hOnly, List.mem_singleton] at he hEntry
    rw [he, hEntry]
  refine ⟨entry, hEntry, ⟨by simp [hLength], fun j name _ hName => ?_⟩, fun hUse => ?_⟩
  · rw [List.getElem?_append] at hName
    split at hName
    · obtain ⟨e, he, hMatch, -⟩ := hInit j name hName
      rwa [hSame e he] at hMatch
    · rename_i hEnd
      obtain ⟨hIndex, rfl⟩ := List.getElem?_eq_some_iff.mp hName
      rw [List.length_singleton] at hIndex
      obtain rfl : j = init.length := by omega
      simpa using hLast
  · unfold PathMatcherEntry.filterMatches
    have hNone : entry.filter = none := by simpa [hUse] using hFilter
    rw [hNone]

/-- A node that one entry matches is called. -/
theorem mem_doTraversal_of_entryMatches (hLiteral : regex.Literal) {root : Path} {useFilters : Bool}
    {names : List Str} (hIn : root ++ names ∈ db.paths) (h : m.EntryMatches db root useFilters names) :
    root ++ names ∈ m.doTraversal db callWithDepth root useFilters := by
  obtain ⟨entry, hEntry, hMatches, hFilter⟩ := h
  rcases List.eq_nil_or_concat names with rfl | ⟨init, last, rfl⟩
  · exact (ne_nil_of_matchesFrom hMatches).elim
  · have hLength : entry.parser.length = init.length + 1 := by simpa using hMatches.1
    refine (mem_doTraversal hLiteral).mpr ⟨init, last, by simp, by simpa using hIn, fun j name hName => ?_,
      entry, hEntry, hLength, ?_, ?_⟩
    · have hj := (List.getElem?_eq_some_iff.mp hName).1
      refine ⟨entry, hEntry, hMatches.2 j name (Nat.zero_le j) ?_, by omega⟩
      rw [List.concat_eq_append, List.getElem?_append_left hj, hName]
    · refine hMatches.2 init.length last (Nat.zero_le _) ?_
      simp
    · unfold mayCall
      rw [Bool.or_eq_true]
      exact .inr (matchesNode_iff.mpr ⟨entry, hEntry, matchesFrom_mono _ hMatches, hFilter⟩)

/-- Without a conspiracy a single entry matches each node that is called. -/
theorem entryMatches_of_mem_doTraversal (hLiteral : regex.Literal) {root : Path} {useFilters : Bool}
    (h : m.NoConspiracy db root useFilters) {q : Path} (hq : q ∈ m.doTraversal db callWithDepth root useFilters) :
    ∃ names, q = root ++ names ∧ q ∈ db.paths ∧ m.EntryMatches db root useFilters names := by
  obtain ⟨init, last, rfl, hIn, hInit, entry, hEntry, hLength, hMatch, hMay⟩ := (mem_doTraversal hLiteral).mp hq
  refine ⟨init ++ [last], rfl, hIn, ?_⟩
  unfold mayCall at hMay
  rw [Bool.or_eq_true, Bool.and_eq_true, decide_eq_true_eq] at hMay
  rcases hMay with ⟨hSingle, hFilter⟩ | hNode
  · exact entryMatches_of_single hSingle hEntry hFilter hLength hMatch hInit
  · exact h init last hIn hInit ⟨entry, hEntry, hLength, hMatch⟩ (matchesNode_iff.mp hNode)

/-- A traversal calls its callback once on each node below its start that a single entry matches, and on no
other, exactly if no node is matched by several entries together. -/
theorem doTraversal_iff_noConspiracy (hLiteral : regex.Literal) (m : PathMatcher regex Msg) (db : Database Msg)
    (root : Path) (useFilters : Bool) :
    (m.doTraversal db callWithDepth root useFilters).Nodup ∧
      ((∀ q, q ∈ m.doTraversal db callWithDepth root useFilters ↔
          ∃ names, q = root ++ names ∧ q ∈ db.paths ∧ m.EntryMatches db root useFilters names) ↔
        m.NoConspiracy db root useFilters) := by
  refine ⟨doTraversal_nodup m db root useFilters, fun h init last hIn hInit hLast hPartly => ?_,
    fun h q => ⟨entryMatches_of_mem_doTraversal hLiteral h, ?_⟩⟩
  · obtain ⟨entry, hEntry, hLength, hMatch⟩ := hLast
    have hCalled : root ++ (init ++ [last]) ∈ m.doTraversal db callWithDepth root useFilters := by
      refine (mem_doTraversal hLiteral).mpr ⟨init, last, rfl, hIn, hInit, entry, hEntry, hLength, hMatch, ?_⟩
      unfold mayCall
      rw [Bool.or_eq_true]
      exact .inr (matchesNode_iff.mpr hPartly)
    obtain ⟨names, hNames, -, hEntryMatches⟩ := (h _).mp hCalled
    rwa [← List.append_cancel_left hNames] at hEntryMatches
  · rintro ⟨names, rfl, hIn, hMatches⟩
    exact mem_doTraversal_of_entryMatches hLiteral hIn hMatches

/-! ### Two entries together -/

theorem translate_eq_nil {s : Str} (hNil : translate false s = []) : s = [] := by
  cases s with
  | nil => rfl
  | cons c s =>
    unfold translate at hNil
    split at hNil <;> simp_all

theorem translate_eq_singleton {s : Str} {c : Char} (h : hasRegexTokens s = false)
    (hOne : translate false s = [c]) : s = [c] := by
  cases s with
  | nil => cases hOne
  | cons d s =>
    have hNot := hasRegexTokens_cons h
    have hPlain : d ≠ ',' ∧ d ≠ '?' ∧ d ≠ '\\' := by
      refine ⟨?_, ?_, ?_⟩ <;> rintro rfl <;> simp [isRegexToken] at hNot
    unfold translate at hOne
    split at hOne
    all_goals simp_all
    exact translate_eq_nil hOne.2

/-- Expressions for a single character, all others are refused. -/
def oneCharacter : Regex where
  comp
    | ['^', '(', c, ')', '$'] => some fun str => decide (str = [c])
    | _ => none

theorem oneCharacter_literal : oneCharacter.Literal := by
  intro s regExp hTokens hComp str
  dsimp only [oneCharacter] at hComp
  split at hComp
  · rename_i c hAnchored
    cases hComp
    have hOne : translate false s = [c] := by
      have hFront : (['^', '('] ++ translate false s) ++ [')', '$'] = (['^', '('] ++ [c]) ++ [')', '$'] :=
        hAnchored
      exact List.append_cancel_left (List.append_cancel_right hFront)
    rw [translate_eq_singleton hTokens hOne]
  · cases hComp

def aThenB : PathMatcherEntry oneCharacter Nat :=
  ⟨['a', '/', 'b'], (parsePath oneCharacter ['a', '/', 'b']).getD [], none, rfl⟩

def bThenA : PathMatcherEntry oneCharacter Nat :=
  ⟨['b', '/', 'a'], (parsePath oneCharacter ['b', '/', 'a']).getD [], none, rfl⟩

/-- The patterns `a/b` and `b/a`. -/
def crossed : PathMatcher oneCharacter Nat :=
  ⟨[aThenB, bThenA], by decide, 0⟩

/-- A session node with the node `a/a` below it. -/
def sessionWithAA : Database Nat where
  nodes := [([], ⟨none, []⟩), ([['h']], ⟨none, []⟩), ([['h'], ['s']], ⟨none, []⟩),
    ([['h'], ['s'], ['a']], ⟨none, []⟩), ([['h'], ['s'], ['a'], ['a']], ⟨none, []⟩)]
  nodup := by decide
  parent := by
    intro p name h
    obtain ⟨q, hq, hSame⟩ : ∃ q ∈ [[], [['h']], [['h'], ['s']], [['h'], ['s'], ['a']],
        [['h'], ['s'], ['a'], ['a']]], q.dropLast = p :=
      ⟨p ++ [name], h, List.dropLast_concat⟩
    subst hSame
    clear h
    revert q
    decide

/-- From the session node the two patterns conspire: `a/a` is called, which neither of them matches. -/
theorem crossed_calls_aa :
    ¬∀ q, q ∈ crossed.doTraversal sessionWithAA callWithDepth [['h'], ['s']] false ↔
      ∃ names, q = [['h'], ['s']] ++ names ∧ q ∈ sessionWithAA.paths ∧
        crossed.EntryMatches sessionWithAA [['h'], ['s']] false names := by
  intro h
  obtain ⟨names, hNames, -, entry, hEntry, hMatches, -⟩ :=
    (h [['h'], ['s'], ['a'], ['a']]).mp (by decide)
  obtain rfl : [['a'], ['a']] = names :=
    List.append_cancel_left (show [['h'], ['s']] ++ [['a'], ['a']] = [['h'], ['s']] ++ names from hNames)
  rcases List.mem_cons.mp hEntry with rfl | hEntry
  · have hLast := hMatches.2 1 ['a'] (Nat.zero_le _) rfl
    revert hLast
    decide
  · obtain rfl := List.mem_singleton.mp hEntry
    have hFirst := hMatches.2 0 ['a'] (Nat.zero_le _) rfl
    revert hFirst
    decide

theorem doTraversal_iff_noConspiracy_crossed :
    (crossed.doTraversal sessionWithAA callWithDepth [['h'], ['s']] false).Nodup ∧
      ((∀ q, q ∈ crossed.doTraversal sessionWithAA callWithDepth [['h'], ['s']] false ↔
          ∃ names, q = [['h'], ['s']] ++ names ∧ q ∈ sessionWithAA.paths ∧
            crossed.EntryMatches sessionWithAA [['h'], ['s']] false names) ↔
        crossed.NoConspiracy sessionWithAA [['h'], ['s']] false) :=
  doTraversal_iff_noConspiracy oneCharacter_literal crossed sessionWithAA [['h'], ['s']] false

/-- From the root of the tree there is no conspiracy: all clauses are looked at. -/
theorem noConspiracy_root (m : PathMatcher regex Msg) (db : Database Msg) (useFilters : Bool) :
    m.NoConspiracy db [] useFilters :=
  fun _ _ _ _ _ h => h

theorem matchesNode_root_iff {q : Path} {useFilters : Bool} :
    m.matchesNode q (if useFilters then db.data q else none) 0 = true ↔ m.EntryMatches db [] useFilters q :=
  @matchesNode_iff regex Msg m db [] q useFilters

/-- From the root of the tree a traversal and the look at a single node agree. -/
theorem mem_doTraversal_root (hLiteral : regex.Literal) {useFilters : Bool} {q : Path} :
    q ∈ m.doTraversal db callWithDepth [] useFilters ↔
      q ∈ db.paths ∧ m.matchesNode q (if useFilters then db.data q else none) 0 = true := by
  rw [matchesNode_root_iff]
  constructor
  · intro hq
    obtain ⟨names, rfl, hIn, hMatches⟩ := entryMatches_of_mem_doTraversal hLiteral (noConspiracy_root m db _) hq
    exact ⟨hIn, hMatches⟩
  · rintro ⟨hIn, hMatches⟩
    exact @mem_doTraversal_of_entryMatches regex Msg m db hLiteral [] useFilters q hIn hMatches

end PathMatcher

end BeShare.Muscle.Reflect
