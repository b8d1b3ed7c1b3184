import BeShare.Reflect.NodePaths
import BeShare.Reflect.Jettison

/-!
`PathMatcher::MatchesPath` on the path of a node, and `NodePathMatcher::MatchesNode` on the node itself.
-/

namespace BeShare.Muscle.Reflect

open BeShare.Lib

variable {regex : Regex} {Msg : Type} {node : Path} {path : Str} {optData : Option Msg}

/-! ### The clauses of a path -/

theorem slashed_cons (name : Str) (rest : Path) : slashed (name :: rest) = '/' :: (name ++ slashed rest) := rfl

/-- `StringTokenizer` passes over the empty names. -/
theorem tokens_slashed {n : Path} (hSlash : ∀ name ∈ n, '/' ∉ name) :
    tokens (· == '/') (slashed n) = n.filter (· ≠ []) := by
  induction n with
  | nil => rfl
  | cons name rest ih =>
    have hRest := ih fun other hOther => hSlash other (List.mem_cons_of_mem _ hOther)
    rw [slashed_cons, tokens_cons_sep rfl]
    by_cases hEmpty : name = []
    · subst hEmpty
      rw [List.nil_append, hRest, List.filter_cons_of_neg (by simp)]
    · have hPlain : ∀ c ∈ name, (c == '/') = false := fun c hc =>
        beq_eq_false_iff_ne.mpr fun h => hSlash name List.mem_cons_self (h ▸ hc)
      rw [List.filter_cons_of_pos (by simpa using hEmpty)]
      cases rest with
      | nil => exact (congrArg _ (List.append_nil name)).trans (tokens_of_plain hEmpty hPlain)
      | cons other rest =>
        rw [slashed_cons, tokens_append_sep hEmpty hPlain rfl, ← hRest, slashed_cons, tokens_cons_sep rfl]

theorem depthBehindSlashes_append {name : Str} (hSlash : '/' ∉ name) (path : Str) :
    depthBehindSlashes (name ++ path) = depthBehindSlashes path := by
  induction name with
  | nil => rfl
  | cons c name ih =>
    have hc : c ≠ '/' := fun h => hSlash (h ▸ List.mem_cons_self)
    rw [List.cons_append, depthBehindSlashes, if_neg fun h => hc h.1, Nat.zero_add,
      ih fun h => hSlash (List.mem_cons_of_mem _ h)]

/-- Each name counts that is not an empty one at the end. -/
theorem getPathDepth_slashed {n : Path} (hSlash : ∀ name ∈ n, '/' ∉ name) (hEmpty : [] ∉ n) :
    getPathDepth (slashed n) = n.length := by
  induction n with
  | nil => rfl
  | cons name rest ih =>
    have hName : name ++ slashed rest ≠ [] := fun h => hEmpty (by
      rw [(List.append_eq_nil_iff.mp h).1]
      exact List.mem_cons_self)
    have hRest := ih (fun other hOther => hSlash other (List.mem_cons_of_mem _ hOther))
      fun h => hEmpty (List.mem_cons_of_mem _ h)
    rw [slashed_cons, getPathDepth]
    show (if name ++ slashed rest = [] then 0 else 1) + depthBehindSlashes (name ++ slashed rest) = _
    rw [if_neg hName, depthBehindSlashes_append (hSlash name List.mem_cons_self), List.length_cons, ← hRest]
    cases rest with
    | nil => rfl
    | cons other rest =>
      have hSome : other ++ slashed rest ≠ [] := fun h => hEmpty (by
        rw [(List.append_eq_nil_iff.mp h).1]
        exact List.mem_cons_of_mem _ List.mem_cons_self)
      rw [slashed_cons, depthBehindSlashes, if_pos ⟨rfl, hSome⟩, getPathDepth]
      show _ = (if other ++ slashed rest = [] then 0 else 1) + depthBehindSlashes (other ++ slashed rest) + 1
      rw [if_neg hSome, Nat.add_comm 1]

/-- `MatchesPath` sees these names in the path: as many as it counts clauses, and as many as there are tokens. -/
structure ReadsAs (path : Str) (names : Path) : Prop where
  depth : getPathDepth path = names.length
  clauses : tokens (· == '/') (withoutSlash path) = names

theorem readsAs_slashed (hSlash : ∀ name ∈ node, '/' ∉ name) (hEmpty : [] ∉ node) :
    ReadsAs (slashed node) node where
  depth := getPathDepth_slashed hSlash hEmpty
  clauses := by
    have hTokens : tokens (· == '/') (withoutSlash (slashed node)) = tokens (· == '/') (slashed node) := by
      cases node with
      | nil => rfl
      | cons name rest => exact (tokens_cons_sep rfl _).symm
    rw [hTokens, tokens_slashed hSlash, List.filter_eq_self]
    intro name hName
    exact decide_eq_true fun h => hEmpty (h ▸ hName)

namespace PathMatcher

variable {m : PathMatcher regex Msg}

/-- `filter->Matches(*optMessage, optNode)` -/
def withNode (node : Path) : WithoutNode Msg := fun filter msg => filter.isMatch msg node

theorem matchesPath_of_readsAs (hReads : ReadsAs path node) :
    m.matchesPath (withNode node) path optData = m.matchesNode node optData 0 := by
  rw [matchesPath, matchesNode, hReads.depth, hReads.clauses]
  refine congrArg m.entries.any (funext fun entry => ?_)
  rw [Bool.eq_iff_iff, pathMatches_root_iff]
  rw [Bool.and_eq_true, Bool.and_eq_true, beq_iff_eq, List.all_eq_true]
  refine and_congr (and_congr_right fun _ => ?_) Iff.rfl
  constructor
  · intro h j name _ hName
    have hj := h j (List.mem_range.mpr (List.getElem?_eq_some_iff.mp hName).1)
    rw [hName] at hj
    exact hj
  · intro h j hj
    have hName := List.getElem?_eq_getElem (List.mem_range.mp hj)
    rw [hName]
    exact h j _ (Nat.zero_le j) hName

/-! ### A node with an empty name -/

def starNames (depth : Nat) : Path := List.replicate depth ['*']

theorem parseClauses_star (regex : Regex) (depth : Nat) :
    (starNames depth).mapM (parseClause regex) = some (List.replicate depth none) := by
  induction depth with
  | zero => rfl
  | succ depth ih =>
    rw [starNames, List.replicate_succ, List.mapM_cons, ← starNames, ih]
    rfl

theorem parsePath_star (regex : Regex) {depth : Nat} (h : depth ≠ 0) :
    parsePath regex (slashed (starNames depth)).tail = some (List.replicate depth none) := by
  have hNames : starNames depth ≠ [] := by simpa [starNames] using h
  have hStar : ∀ name ∈ starNames depth, name = ['*'] := fun _ => List.eq_of_mem_replicate
  have hSplit : splitClauses (slashed (starNames depth)).tail = starNames depth :=
    splitClauses_slashed hNames fun name hName => by
      rw [hStar name hName]
      decide
  have hPath : (slashed (starNames depth)).tail ≠ [] := by
    intro hNil
    rw [hNil] at hSplit
    cases hStar [] (hSplit ▸ List.mem_cons_self)
  rw [parsePath, if_neg hPath, hSplit]
  exact parseClauses_star regex depth

/-- The pattern with a `*` for each level down to the depth. -/
def starEntry (regex : Regex) (Msg : Type) {depth : Nat} (h : depth ≠ 0) : PathMatcherEntry regex Msg where
  path := (slashed (starNames depth)).tail
  parser := List.replicate depth none
  filter := none
  parsed := parsePath_star regex h

def starMatcher (regex : Regex) (Msg : Type) {depth : Nat} (h : depth ≠ 0) : PathMatcher regex Msg where
  entries := [starEntry regex Msg h]
  nodup := List.nodup_singleton _
  numFilters := 0

theorem starMatcher_matchesNode (h : node.length ≠ 0) :
    (starMatcher regex Msg h).matchesNode node optData 0 = true := by
  refine List.any_eq_true.mpr ⟨starEntry regex Msg h, List.mem_singleton.mpr rfl, ?_⟩
  refine (pathMatches_root_iff ..).mpr ⟨⟨List.length_replicate, fun j name _ hName => ?_⟩, rfl⟩
  have hj := (List.getElem?_eq_some_iff.mp hName).1
  rw [PathMatcherEntry.matchesAt, starEntry]
  simp only [List.getElem?_replicate, if_pos hj]
  rfl

/-- The tokens run out before the clauses do. -/
theorem starMatcher_matchesPath (asks : WithoutNode Msg) {depth : Nat} (h : depth ≠ 0)
    (hFew : (tokens (· == '/') (withoutSlash path)).length < depth) :
    (starMatcher regex Msg h).matchesPath asks path optData = false := by
  rw [matchesPath, starMatcher]
  refine List.any_eq_false.mpr fun entry hEntry hMatch => ?_
  obtain rfl := List.mem_singleton.mp hEntry
  rw [Bool.and_eq_true, Bool.and_eq_true, beq_iff_eq, List.all_eq_true] at hMatch
  have hDepth : depth = getPathDepth path := List.length_replicate.symm.trans hMatch.1.1
  have hLast := hMatch.1.2 _ (List.mem_range.mpr (hDepth ▸ hFew))
  rw [List.getElem?_eq_none (Nat.le_refl _)] at hLast
  cases hLast

/-- The two agree, for every matcher, on exactly the nodes that have a name at every level. -/
theorem matchesPath_iff (regex : Regex) (Msg : Type) (hSlash : ∀ name ∈ node, '/' ∉ name) :
    (∀ (m : PathMatcher regex Msg) (optData : Option Msg),
      (getNodePath node 0).map (fun path => m.matchesPath (withNode node) path optData) =
        some (m.matchesNode node optData 0)) ↔ [] ∉ node := by
  by_cases hRoot : node = []
  · subst hRoot
    refine iff_of_true (fun m optData => congrArg some ?_) List.not_mem_nil
    exact matchesPath_of_readsAs ⟨rfl, rfl⟩
  rw [getNodePath_zero hRoot]
  constructor
  · intro h hEmpty
    have hDepth : node.length ≠ 0 := fun hZero => hRoot (List.length_eq_zero_iff.mp hZero)
    have hSame : (starMatcher regex Msg hDepth).matchesPath (withNode node) (slashed node) none =
        (starMatcher regex Msg hDepth).matchesNode node none 0 := Option.some.inj (h _ none)
    have hTokens : tokens (· == '/') (withoutSlash (slashed node)) = node.filter (· ≠ []) := by
      rw [← tokens_slashed hSlash, slashed_eq_cons hRoot, tokens_cons_sep rfl]
      rfl
    rw [starMatcher_matchesNode, starMatcher_matchesPath] at hSame
    · cases hSame
    · rw [hTokens]
      exact List.length_filter_lt_length_iff_exists.mpr ⟨[], hEmpty, by simp⟩
  · exact fun hEmpty m optData => congrArg some (matchesPath_of_readsAs (readsAs_slashed hSlash hEmpty))

theorem matchesPath_ab : (∀ (m : PathMatcher oneCharacter Nat) (optData : Option Nat),
    (getNodePath [['a'], ['b']] 0).map (fun path => m.matchesPath (withNode [['a'], ['b']]) path optData) =
      some (m.matchesNode [['a'], ['b']] optData 0)) ↔ [] ∉ [['a'], ['b']] :=
  matchesPath_iff oneCharacter Nat (by decide)

/-- The node `/a//b` is one for the pattern, its path is not. -/
theorem star_mismatches :
    (getNodePath [['a'], [], ['b']] 0).map (fun path =>
        (starMatcher oneCharacter Nat (Nat.succ_ne_zero 2)).matchesPath (withNode [['a'], [], ['b']]) path none) =
      some false ∧
    (starMatcher oneCharacter Nat (Nat.succ_ne_zero 2)).matchesNode [['a'], [], ['b']] none 0 = true := by
  decide

end PathMatcher

end BeShare.Muscle.Reflect
