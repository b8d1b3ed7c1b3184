import BeShare.Reflect.MirrorNodes

/-!
What a `DoGetData` sends of the nodes of other sessions: its callback jumps out of the session's own subtree, and no
other node is missed by that.
-/

namespace BeShare.Muscle.Reflect

variable {regex : Regex} {Msg : Type}

namespace PathMatcher

variable {m : PathMatcher regex Msg} {db : Database Msg} {data : TraversalContext} {node q : Path}
  {recurse : Path → List Path × Int}

/-! ### Any callback -/

theorem mem_checkChildLoop {depth : Nat} {child : Path} {name : Str} (entries : List (PathMatcherEntry regex Msg))
    (matched recursed : Bool)
    (h : q ∈ (m.checkChildLoop db data recurse depth child name entries matched recursed).1) :
    q = child ∨ q ∈ (recurse child).1 := by
  induction entries generalizing matched recursed with
  | nil => cases h
  | cons entry rest ih =>
    unfold checkChildLoop at h
    split at h
    · split at h
      · split at h
        · split at h
          · dsimp only at h
            split at h
            · exact .inl (List.mem_singleton.mp h)
            · split at h
              · exact .inl (List.mem_singleton.mp h)
              · rcases List.mem_cons.mp h with h | h
                · exact .inl h
                · exact ih _ _ h
          · exact ih _ _ h
        · exact ih _ _ h
      · split at h
        · dsimp only at h
          split at h
          · exact .inr h
          · split at h
            · exact .inr h
            · rcases List.mem_append.mp h with h | h
              · exact .inr h
              · exact ih _ _ h
        · exact ih _ _ h
    · exact ih _ _ h

theorem mem_checkChildren {names : List Str} (h : q ∈ (m.checkChildren db data recurse node names).1) :
    ∃ name, q = node ++ [name] ∨ q ∈ (recurse (node ++ [name])).1 := by
  induction names with
  | nil => cases h
  | cons name rest ih =>
    unfold checkChildren checkChildForTraversal at h
    split at h
    · rename_i calls depth hChild
      have hCalled : q ∈ (m.checkChildLoop db data recurse node.length (node ++ [name]) name m.entries false
          false).1 := by
        rw [hChild]
        exact h
      exact ⟨name, mem_checkChildLoop m.entries false false hCalled⟩
    · rename_i calls hChild
      rcases List.mem_append.mp h with h | h
      · have hCalled : q ∈ (m.checkChildLoop db data recurse node.length (node ++ [name]) name m.entries false
            false).1 := by
          rw [hChild]
          exact h
        exact ⟨name, mem_checkChildLoop m.entries false false hCalled⟩
      · exact ih h

/-- A traversal calls its callback on nothing that is not below its start. -/
theorem below_of_mem_aux {levels : Nat} (h : q ∈ (m.doTraversalAux db data levels node).1) : node <+: q := by
  induction levels generalizing node with
  | zero => cases h
  | succ levels ih =>
    obtain ⟨name, rfl | hBelow⟩ := mem_checkChildren h
    · exact List.prefix_append ..
    · exact (List.prefix_append ..).trans (ih hBelow)

theorem below_of_mem_doTraversal {cb : Path → Int} {useFilters : Bool}
    (h : q ∈ m.doTraversal db cb node useFilters) : node <+: q :=
  below_of_mem_aux h

/-- Where a traversal is left to is what the callback says of some node. -/
theorem depth_checkChildLoop {depth : Nat} {child : Path} {name : Str} {left : Int}
    (entries : List (PathMatcherEntry regex Msg)) (matched recursed : Bool)
    (h : (m.checkChildLoop db data recurse depth child name entries matched recursed).2 = some left) :
    left = data.cb child ∨ left = (recurse child).2 := by
  induction entries generalizing matched recursed with
  | nil => cases h
  | cons entry rest ih =>
    unfold checkChildLoop at h
    split at h
    · split at h
      · split at h
        · split at h
          · dsimp only at h
            split at h
            · exact .inl (Option.some.inj h).symm
            · split at h
              · cases h
              · exact ih _ _ h
          · exact ih _ _ h
        · exact ih _ _ h
      · split at h
        · dsimp only at h
          split at h
          · exact .inr (Option.some.inj h).symm
          · split at h
            · cases h
            · exact ih _ _ h
        · exact ih _ _ h
    · exact ih _ _ h

theorem le_depth_checkChildren {bound : Int} {names : List Str} (hNode : bound ≤ node.length)
    (hCb : ∀ name, bound ≤ data.cb (node ++ [name])) (hRecurse : ∀ name, bound ≤ (recurse (node ++ [name])).2) :
    bound ≤ (m.checkChildren db data recurse node names).2 := by
  induction names with
  | nil => exact hNode
  | cons name rest ih =>
    unfold checkChildren checkChildForTraversal
    split
    · rename_i calls depth hChild
      rcases depth_checkChildLoop m.entries false false (congrArg Prod.snd hChild) with h | h
      · exact h ▸ hCb name
      · exact h ▸ hRecurse name
    · exact ih

/-! ### The callback of `DoGetData` -/

open Server (inSubtreeOf getDataDepth)

variable {self : Str}

theorem inSubtreeOf_append {node rest : Path} (h : inSubtreeOf self node = true) :
    inSubtreeOf self (node ++ rest) = true := by
  unfold inSubtreeOf at h ⊢
  have hName := beq_iff_eq.mp h
  have hLong := (List.getElem?_eq_some_iff.mp hName).1
  rw [List.getElem?_append_left hLong]
  exact h

/-- Inside the session's own subtree the traversal is never left further than to the session's node. -/
theorem two_le_depth (hCb : data.cb = getDataDepth self true) {levels : Nat} (hOwn : inSubtreeOf self node = true) :
    2 ≤ (m.doTraversalAux db data levels node).2 := by
  have hLong : (2 : Int) ≤ node.length := by
    unfold inSubtreeOf at hOwn
    have hLong := (List.getElem?_eq_some_iff.mp (beq_iff_eq.mp hOwn)).1
    omega
  induction levels generalizing node with
  | zero => exact hLong
  | succ levels ih =>
    have hChild : ∀ name, inSubtreeOf self (node ++ [name]) = true := fun name => inSubtreeOf_append hOwn
    refine le_depth_checkChildren hLong (fun name => ?_) fun name => ?_
    · rw [hCb]
      unfold getDataDepth
      rw [hChild]
      exact Int.le_refl _
    · refine ih (hChild name) ?_
      rw [List.length_append, List.length_singleton]
      omega

/-- The literal children are the same for all callbacks. -/
theorem literalChildren_withDepth (db : Database Msg) (data : TraversalContext) (node : Path)
    (entries : List (PathMatcherEntry regex Msg)) (alreadyDid : List Str) :
    literalChildren db { data with cb := callWithDepth } node entries alreadyDid =
      literalChildren db data node entries alreadyDid := by
  induction entries generalizing alreadyDid with
  | nil => rfl
  | cons entry rest ih =>
    unfold literalChildren
    simp only [ih]

/-- Outside the own subtree the traversal of `DoGetData` goes as any traversal does. -/
theorem mem_getData_aux (hCb : data.cb = getDataDepth self true) {plain : TraversalContext}
    (hPlain : plain = { data with cb := callWithDepth }) (levels : Nat) (hNode : inSubtreeOf self node = false) :
    (m.doTraversalAux db data levels node).2 = node.length ∧
      ∀ q, inSubtreeOf self q = false →
        (q ∈ (m.doTraversalAux db data levels node).1 ↔ q ∈ (m.doTraversalAux db plain levels node).1) := by
  have hPlainCb : plain.cb = callWithDepth := by rw [hPlain]
  induction levels generalizing node with
  | zero => exact ⟨rfl, fun _ _ => Iff.rfl⟩
  | succ levels ih =>
    have hStays : ∀ name, Stays data (m.doTraversalAux db data levels) (node ++ [name]) := by
      intro name
      cases hOwn : inSubtreeOf self (node ++ [name]) with
      | true =>
        -- the session's node itself, below its host
        have hLength : (node ++ [name]).length = 2 := by
          unfold inSubtreeOf at hOwn hNode
          have hName := beq_iff_eq.mp hOwn
          have hLong := (List.getElem?_eq_some_iff.mp hName).1
          rw [List.length_append, List.length_singleton] at hLong ⊢
          by_contra hDeeper
          rw [List.getElem?_append_left (by omega)] at hName
          rw [hName, beq_self_eq_true] at hNode
          cases hNode
        refine ⟨?_, ?_⟩
        · rw [hCb, hLength]
          unfold getDataDepth
          simp [hOwn]
        · rw [hLength]
          exact Int.le_trans (by decide) (two_le_depth hCb hOwn)
      | false =>
        refine ⟨?_, ?_⟩
        · rw [hCb]
          unfold getDataDepth
          rw [hOwn]
          exact Int.sub_le_self _ (by decide)
        · rw [(ih hOwn).1]
          exact Int.sub_le_self _ (by decide)
    obtain ⟨hDepth, hCalls⟩ := checkChildren_stays m db node (m.doTraversalAux db data levels) hStays
      (m.lookedAt db data node)
    obtain ⟨-, hPlainCalls⟩ := checkChildren_spec m db hPlainCb node (m.doTraversalAux db plain levels)
      (fun name => doTraversalAux_depth hPlainCb _ _) (m.lookedAt db plain node)
    refine ⟨hDepth, fun q hq => (hCalls.mem_iff.trans ?_).trans hPlainCalls.mem_iff.symm⟩
    have hLooked : m.lookedAt db plain node = m.lookedAt db data node := by
      rw [hPlain]
      unfold lookedAt
      rw [literalChildren_withDepth]
      rfl
    have hCallsAt : m.callsAt db plain node = m.callsAt db data node := by
      rw [hPlain]
      rfl
    have hDescends : ∀ name, @descendsAt regex Msg plain node.length name = descendsAt data node.length name := by
      intro name
      rw [hPlain]
      rfl
    rw [List.mem_flatMap, List.mem_flatMap, hLooked]
    refine exists_congr fun name => and_congr_right fun _ => ?_
    rw [mem_childCalls, mem_childCalls, hCallsAt, hDescends]
    refine or_congr Iff.rfl (and_congr_right fun _ => ?_)
    cases hOwn : inSubtreeOf self (node ++ [name]) with
    | true =>
      have hNot : ∀ {context : TraversalContext}, q ∉ (m.doTraversalAux db context levels (node ++ [name])).1 := by
        intro context hBelow
        obtain ⟨rest, rfl⟩ := below_of_mem_aux hBelow
        rw [inSubtreeOf_append hOwn] at hq
        cases hq
      exact iff_of_false hNot hNot
    | false => exact (ih hOwn).2 q hq

/-- Of the nodes that are not its own a session gets those that match, with its own subtree skipped or not. -/
theorem mem_getData (hLiteral : regex.Literal) (skipsOwn : Bool) (hq : inSubtreeOf self q = false) :
    q ∈ m.doTraversal db (getDataDepth self skipsOwn) [] true ↔
      q ∈ db.paths ∧ m.matchesNode q (db.data q) 0 = true := by
  have hPlain : q ∈ m.doTraversal db callWithDepth [] true ↔ q ∈ db.paths ∧ m.matchesNode q (db.data q) 0 = true :=
    mem_doTraversal_root hLiteral
  cases skipsOwn with
  | true =>
    rw [← hPlain]
    exact (mem_getData_aux rfl rfl _ rfl).2 q hq
  | false =>
    have hSame : getDataDepth self false = callWithDepth := by
      funext p
      rfl
    rw [hSame, hPlain]

end PathMatcher

end BeShare.Muscle.Reflect
