import BeShare.Lib.Representatives
import BeShare.Reflect.Matching

/-!
The traversal of a callback that returns 2, "to immediately skip to the next session". A return of 2 only leaves what
is below the children of the session's node: the traversal goes on with the next child.
-/

namespace BeShare.Muscle.Reflect.PathMatcher

open BeShare.Lib

variable {regex : Regex} {Msg : Type} {m : PathMatcher regex Msg} {db : Database Msg} {useFilters : Bool}
  {rootDepth : Nat} {node q q' : Path} {name : Str} {recurse recurse' : Path → List Path × Int}

/-- What the callbacks return that pass messages to sessions. -/
def skipToNextSession : Path → Int := fun _ => 2

/-- Of the nodes with one spot at most one is called: a session's node and its children are spots of their own, and
all that is below a child is one spot. -/
def spot (q : Path) : Path × Bool :=
  (q.take 3, decide (3 < q.length))

theorem spot_ne_of_prefixes {p p' : Path} (hLength : p.length = p'.length) (hShort : p.length ≤ 3) (hNe : p ≠ p')
    (hq : p <+: q) (hq' : p' <+: q') : spot q ≠ spot q' := by
  intro hSame
  have hTake : q.take p.length = q'.take p.length := by
    have h := congrArg (fun s => s.1.take p.length) hSame
    simpa [spot, List.take_take, Nat.min_eq_left hShort] using h
  rw [← List.prefix_iff_eq_take.mp hq, hLength, ← List.prefix_iff_eq_take.mp hq'] at hTake
  exact hNe hTake

theorem spot_ne_of_below {p : Path} (hShort : p.length ≤ 3) (hLength : p.length < q.length) : spot p ≠ spot q := by
  intro hSame
  have hTake : p.take 3 = q.take 3 := congrArg Prod.fst hSame
  have hDeep : (3 < p.length) = (3 < q.length) := by simpa [spot] using congrArg Prod.snd hSame
  have hLengths := congrArg List.length hTake
  rw [List.length_take, List.length_take] at hLengths
  have hNotDeep : ¬ 3 < q.length := hDeep ▸ Nat.not_lt.mpr hShort
  omega

/-- What is called below a deep node: nothing, or one node that another traversal calls too, and then all is left. -/
def LeavesWith (result : List Path × Int) (node : Path) (all : List Path) : Prop :=
  (result = ([], (node.length : Int)) ∧ all = []) ∨ ∃ q ∈ all, result = ([q], 2)

theorem doTraversalAux_succ (data : TraversalContext) (levels : Nat) (node : Path) :
    m.doTraversalAux db data (levels + 1) node =
      m.checkChildren db data (m.doTraversalAux db data levels) node (m.lookedAt db data node) :=
  rfl

/-- What is looked at does not depend on the callback. -/
theorem lookedAt_skipToNextSession :
    m.lookedAt db ⟨skipToNextSession, useFilters, rootDepth⟩ node =
      m.lookedAt db ⟨callWithDepth, useFilters, rootDepth⟩ node := by
  unfold lookedAt
  have hLiteral : ∀ entries alreadyDid,
      literalChildren db ⟨skipToNextSession, useFilters, rootDepth⟩ node entries alreadyDid =
        literalChildren db ⟨callWithDepth, useFilters, rootDepth⟩ node (entries : List (PathMatcherEntry regex Msg))
          alreadyDid := by
    intro entries
    induction entries with
    | nil => exact fun _ => rfl
    | cons entry rest ih =>
      intro alreadyDid
      unfold literalChildren
      simp only [ih]
  rw [hLiteral]
  rfl

theorem callWithDepth_cb (useFilters : Bool) (rootDepth : Nat) :
    TraversalContext.cb ⟨callWithDepth, useFilters, rootDepth⟩ = callWithDepth :=
  rfl

/-! ### Below the children of a session's node -/

theorem checkChildLoop_leaves (hDeep : 3 ≤ node.length)
    (hRecurse : LeavesWith (recurse (node ++ [name])) (node ++ [name]) (recurse' (node ++ [name])).1)
    (entries : List (PathMatcherEntry regex Msg)) (recursed : Bool)
    (hRecursed : recursed = true → (recurse (node ++ [name])).1 = []) :
    let all := (if entries.any (m.callsAt db ⟨callWithDepth, useFilters, rootDepth⟩ node name) then [node ++ [name]]
      else []) ++ if entries.any (descendsAt ⟨callWithDepth, useFilters, rootDepth⟩ node.length name) then
        (recurse' (node ++ [name])).1 else []
    let result := m.checkChildLoop db ⟨skipToNextSession, useFilters, rootDepth⟩ recurse node.length (node ++ [name])
      name entries false recursed
    (result = ([], none) ∧ all = []) ∨ ∃ q ∈ all, result = ([q], some 2) := by
  have hLeaves : (2 : Int) < ((node ++ [name]).length : Int) - 1 := by
    simp only [List.length_append, List.length_singleton]
    omega
  induction entries generalizing recursed with
  | nil => exact .inl ⟨rfl, by simp⟩
  | cons entry rest ih =>
    dsimp only at ih ⊢
    unfold checkChildLoop
    by_cases hHere : entry.matchesAt (node.length - rootDepth) name = true
    · have hLong := entry.matchesAt_lt hHere
      rw [if_pos (by simp [hHere, hLong])]
      by_cases hLast : node.length + 1 = rootDepth + entry.parser.length
      · rw [if_pos hLast, if_pos rfl]
        have hDown : descendsAt ⟨callWithDepth, useFilters, rootDepth⟩ node.length name entry = false := by
          simp [descendsAt, hLast]
        by_cases hMay : m.mayCall db ⟨callWithDepth, useFilters, rootDepth⟩ entry (node ++ [name]) = true
        · have hCall : m.callsAt db ⟨callWithDepth, useFilters, rootDepth⟩ node name entry = true := by
            simp [callsAt, hHere, hLast, hMay]
          refine .inr ⟨node ++ [name], by simp [hCall], ?_⟩
          rw [if_pos (show m.mayCall db ⟨skipToNextSession, useFilters, rootDepth⟩ entry (node ++ [name]) = true from
            hMay)]
          exact if_pos hLeaves
        · have hCall : m.callsAt db ⟨callWithDepth, useFilters, rootDepth⟩ node name entry = false := by
            simp [callsAt, hMay]
          rw [if_neg (show ¬ m.mayCall db ⟨skipToNextSession, useFilters, rootDepth⟩ entry (node ++ [name]) = true
            from hMay)]
          simpa [hCall, hDown] using ih recursed hRecursed
      · rw [if_neg hLast]
        have hCall : m.callsAt db ⟨callWithDepth, useFilters, rootDepth⟩ node name entry = false := by
          simp [callsAt, hLast]
        have hDown : descendsAt ⟨callWithDepth, useFilters, rootDepth⟩ node.length name entry = true := by
          simp [descendsAt, hHere, hLast]
        cases recursed
        · rw [if_pos rfl]
          rcases hRecurse with ⟨hNone, hAll⟩ | ⟨q, hq, hOne⟩
          · rw [hNone]
            dsimp only
            rw [if_neg (by omega), if_neg (by simp)]
            rcases ih true fun _ => by rw [hNone] with ⟨hLoop, hRest⟩ | ⟨q, hq, hLoop⟩
            · rw [hLoop]
              exact .inl ⟨rfl, by simpa [hCall, hDown, hAll] using hRest⟩
            · rw [hLoop]
              exact .inr ⟨q, by simpa [hCall, hDown, hAll] using hq, rfl⟩
          · rw [hOne]
            refine .inr ⟨q, ?_, if_pos hLeaves⟩
            rw [List.any_cons, List.any_cons, hDown]
            exact List.mem_append_right _ (by simpa using hq)
        · rw [if_neg (by simp)]
          rcases hRecurse with ⟨hNone, hAll⟩ | ⟨q, hq, hOne⟩
          · simpa [hCall, hDown, hAll] using ih true hRecursed
          · rw [hOne] at hRecursed
            cases hRecursed rfl
    · have hCall : m.callsAt db ⟨callWithDepth, useFilters, rootDepth⟩ node name entry = false := by
        simp [callsAt, hHere]
      have hDown : descendsAt ⟨callWithDepth, useFilters, rootDepth⟩ node.length name entry = false := by
        simp [descendsAt, hHere]
      rw [if_neg (by simp [hHere])]
      simpa [hCall, hDown] using ih recursed hRecursed

theorem checkChildren_leaves (hDeep : 3 ≤ node.length)
    (hRecurse : ∀ name, LeavesWith (recurse (node ++ [name])) (node ++ [name]) (recurse' (node ++ [name])).1)
    (names : List Str) :
    LeavesWith (m.checkChildren db ⟨skipToNextSession, useFilters, rootDepth⟩ recurse node names) node
      (names.flatMap (m.childCalls db ⟨callWithDepth, useFilters, rootDepth⟩ recurse' node)) := by
  induction names with
  | nil => exact .inl ⟨rfl, rfl⟩
  | cons name rest ih =>
    have hChild := @checkChildLoop_leaves regex Msg m db useFilters rootDepth node name recurse recurse' hDeep
      (hRecurse name) m.entries false (fun h => by cases h)
    unfold checkChildren checkChildForTraversal
    rw [List.flatMap_cons]
    rcases hChild with ⟨hNone, hAll⟩ | ⟨q, hq, hOne⟩
    · have hChildCalls : m.childCalls db ⟨callWithDepth, useFilters, rootDepth⟩ recurse' node name = [] := hAll
      rw [hNone, hChildCalls, List.nil_append]
      exact ih
    · rw [hOne]
      exact .inr ⟨q, List.mem_append_left _ hq, rfl⟩

theorem doTraversalAux_leaves (levels : Nat) (hDeep : 3 ≤ node.length) :
    LeavesWith (m.doTraversalAux db ⟨skipToNextSession, useFilters, rootDepth⟩ levels node) node
      (m.doTraversalAux db ⟨callWithDepth, useFilters, rootDepth⟩ levels node).1 := by
  induction levels generalizing node with
  | zero => exact .inl ⟨rfl, rfl⟩
  | succ levels ih =>
    have hFound := @checkChildren_leaves regex Msg m db useFilters rootDepth node
      (m.doTraversalAux db ⟨skipToNextSession, useFilters, rootDepth⟩ levels)
      (m.doTraversalAux db ⟨callWithDepth, useFilters, rootDepth⟩ levels) hDeep
      (fun name => ih (by simp; omega)) (m.lookedAt db ⟨callWithDepth, useFilters, rootDepth⟩ node)
    have hAll := (checkChildren_spec m db (callWithDepth_cb useFilters rootDepth) node
      (m.doTraversalAux db ⟨callWithDepth, useFilters, rootDepth⟩ levels)
      (fun name => doTraversalAux_depth rfl _ _) (m.lookedAt db ⟨callWithDepth, useFilters, rootDepth⟩ node)).2
    rw [doTraversalAux_succ, doTraversalAux_succ, lookedAt_skipToNextSession]
    rcases hFound with ⟨hNone, hNil⟩ | ⟨q, hq, hOne⟩
    · exact .inl ⟨hNone, List.perm_nil.mp (hNil ▸ hAll)⟩
    · exact .inr ⟨q, hAll.mem_iff.mpr hq, hOne⟩

/-! ### Above them -/

theorem doTraversalAux_onePerSpot (levels : Nat) (hHigh : node.length ≤ 2) :
    (m.doTraversalAux db ⟨skipToNextSession, useFilters, rootDepth⟩ levels node).2 = (node.length : Int) ∧
      OnePer spot (m.doTraversalAux db ⟨skipToNextSession, useFilters, rootDepth⟩ levels node).1
        (m.doTraversalAux db ⟨callWithDepth, useFilters, rootDepth⟩ levels node).1 := by
  induction levels generalizing node with
  | zero => exact ⟨rfl, .nil⟩
  | succ levels ih =>
    -- the child's own part: what is found below it
    have hBelow : ∀ name, OnePer spot
        (m.doTraversalAux db ⟨skipToNextSession, useFilters, rootDepth⟩ levels (node ++ [name])).1
        (m.doTraversalAux db ⟨callWithDepth, useFilters, rootDepth⟩ levels (node ++ [name])).1 ∧
        ((node ++ [name]).length : Int) - 1 ≤
          (m.doTraversalAux db ⟨skipToNextSession, useFilters, rootDepth⟩ levels (node ++ [name])).2 := by
      intro name
      by_cases hChild : (node ++ [name]).length ≤ 2
      · obtain ⟨hDepth, hOne⟩ := ih hChild
        exact ⟨hOne, by rw [hDepth]; omega⟩
      · have hLength : (node ++ [name]).length = 3 := by
          simp only [List.length_append, List.length_singleton] at hChild ⊢
          omega
        rcases @doTraversalAux_leaves regex Msg m db useFilters rootDepth (node ++ [name]) levels (by omega) with
          ⟨hNone, hNil⟩ | ⟨q, hq, hOne⟩
        · rw [hNone, hNil]
          exact ⟨.nil, Int.sub_le_self _ (by decide)⟩
        · rw [hOne, hLength]
          refine ⟨.of_constant (b := (node ++ [name], true)) hq fun q' hq' => ?_, ?_⟩
          swap
          · show (3 : Int) - 1 ≤ 2
            decide
          obtain ⟨hPrefix, hDeeper⟩ := below_of_mem_doTraversalAux rfl hq'
          have hTake : q'.take 3 = node ++ [name] := by
            rw [List.prefix_iff_eq_take.mp hPrefix, hLength]
          exact Prod.ext hTake (decide_eq_true (by omega))
    have hStays : ∀ name, Stays ⟨skipToNextSession, useFilters, rootDepth⟩
        (m.doTraversalAux db ⟨skipToNextSession, useFilters, rootDepth⟩ levels) (node ++ [name]) := by
      intro name
      refine ⟨?_, (hBelow name).2⟩
      show ((node ++ [name]).length : Int) - 1 ≤ 2
      simp only [List.length_append, List.length_singleton]
      omega
    have hFound := checkChildren_stays m db node
      (m.doTraversalAux db ⟨skipToNextSession, useFilters, rootDepth⟩ levels) hStays
      (m.lookedAt db ⟨skipToNextSession, useFilters, rootDepth⟩ node)
    have hAll := checkChildren_spec m db (callWithDepth_cb useFilters rootDepth) node
      (m.doTraversalAux db ⟨callWithDepth, useFilters, rootDepth⟩ levels)
      (fun name => doTraversalAux_depth rfl _ _) (m.lookedAt db ⟨callWithDepth, useFilters, rootDepth⟩ node)
    rw [lookedAt_skipToNextSession] at hFound
    rw [doTraversalAux_succ, doTraversalAux_succ, lookedAt_skipToNextSession]
    refine ⟨hFound.1, OnePer.of_perm ?_ hFound.2 hAll.2⟩
    have hPrefix : ∀ name, ∀ q ∈ m.childCalls db ⟨callWithDepth, useFilters, rootDepth⟩
        (m.doTraversalAux db ⟨callWithDepth, useFilters, rootDepth⟩ levels) node name, node ++ [name] <+: q := by
      intro name q hq
      rcases mem_childCalls.mp hq with ⟨-, rfl⟩ | ⟨-, hRest⟩
      · exact List.prefix_refl _
      · exact (below_of_mem_doTraversalAux rfl hRest).1
    refine OnePer.flatMap (m.lookedAt_nodup db _ node) (fun name _ => ?_) ?_
    · unfold childCalls
      refine OnePer.append ?_ ?_ ?_
      · show OnePer spot (if m.entries.any (m.callsAt db ⟨callWithDepth, useFilters, rootDepth⟩ node name) then
          _ else _)
          (if m.entries.any (m.callsAt db ⟨callWithDepth, useFilters, rootDepth⟩ node name) then _ else _)
        split
        · exact .singleton _
        · exact .nil
      · show OnePer spot (if m.entries.any (descendsAt ⟨callWithDepth, useFilters, rootDepth⟩ node.length name) then _
          else _) (if m.entries.any (descendsAt ⟨callWithDepth, useFilters, rootDepth⟩ node.length name) then _ else _)
        split
        · exact (hBelow name).1
        · exact .nil
      · intro q hq q' hq'
        split at hq'
        · split at hq
          · rw [List.mem_singleton.mp hq]
            exact spot_ne_of_below (by simp; omega) (below_of_mem_doTraversalAux rfl hq').2
          · cases hq
        · cases hq'
    · intro name _ name' _ hNe q hq q' hq'
      refine spot_ne_of_prefixes (by simp) (by simp; omega) ?_ (hPrefix name q hq) (hPrefix name' q' hq')
      exact fun hSame => hNe (List.singleton_inj.mp (List.append_cancel_left hSame))

/-- From the root, one node for each spot of the matching nodes. -/
theorem doTraversal_onePerSpot (m : PathMatcher regex Msg) (db : Database Msg) (useFilters : Bool) :
    OnePer spot (m.doTraversal db skipToNextSession [] useFilters) (m.doTraversal db callWithDepth [] useFilters) :=
  (@doTraversalAux_onePerSpot regex Msg m db useFilters 0 [] m.maxClauses (Nat.zero_le 2)).2

end BeShare.Muscle.Reflect.PathMatcher
