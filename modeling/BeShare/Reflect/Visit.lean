import BeShare.Reflect.Traversal

/-!
The traversal of a `NodePathMatcher` with a callback that changes what is traversed.
-/

namespace BeShare.Muscle.Reflect.PathMatcher

variable {regex : Regex} {Msg σ : Type}

section

variable (m : PathMatcher regex Msg) (view : σ → Database Msg) (data : TraversalContext)
  (cb : Path → σ → Option (σ × Int))

/-- The loop of `CheckChildForTraversal` over the entries, with the depth if the traversal leaves the child's
parent. -/
def visitChildLoop (recurse : Path → σ → Option (σ × Int)) (depth : Nat) (nextChild : Path) (name : Str) :
    List (PathMatcherEntry regex Msg) → Bool → Bool → σ → Option (σ × Option Int)
  | [], _, _, s => some (s, none)
  | entry :: rest, matched, recursed, s =>
    if decide (entry.parser.length > depth - data.rootDepth) &&
        entry.matchesAt (depth - data.rootDepth) name then
      if depth + 1 = data.rootDepth + entry.parser.length then
        if matched = false then
          if m.mayCall (view s) data entry nextChild then
            (cb nextChild s).bind fun after =>
              if after.2 < (nextChild.length : Int) - 1 then some (after.1, some after.2)
              else if recursed then some (after.1, none)
              else visitChildLoop recurse depth nextChild name rest true recursed after.1
          else visitChildLoop recurse depth nextChild name rest matched recursed s
        else visitChildLoop recurse depth nextChild name rest matched recursed s
      else if recursed = false then
        (recurse nextChild s).bind fun after =>
          if after.2 < (nextChild.length : Int) - 1 then some (after.1, some after.2)
          else if matched then some (after.1, none)
          else visitChildLoop recurse depth nextChild name rest matched true after.1
      else visitChildLoop recurse depth nextChild name rest matched recursed s
    else visitChildLoop recurse depth nextChild name rest matched recursed s

/-- Goes over children until one of them leaves the node. -/
def visitChildren (recurse : Path → σ → Option (σ × Int)) (node : Path) : List Str → σ → Option (σ × Int)
  | [], s => some (s, node.length)
  | name :: rest, s =>
    (m.visitChildLoop view data cb recurse node.length (node ++ [name]) name m.entries false false s).bind fun after =>
      match after.2 with
      | some depth => some (after.1, depth)
      | none => visitChildren recurse node rest after.1

/-- `DoTraversalAux`. A callback changes what is below its node, never the children that are gone over here. -/
def visitAux : Nat → Path → σ → Option (σ × Int)
  | 0, node, s => some (s, node.length)
  | levels + 1, node, s =>
    m.visitChildren view data cb (visitAux levels) node
      (if m.parsersHaveWildcards data node.length then (view s).children node
       else literalChildren (view s) data node m.entries []) s

/-- `DoTraversal` -/
def visit (node : Path) (useFilters : Bool) (s : σ) : Option σ :=
  (m.visitAux view ⟨callWithDepth, useFilters, node.length⟩ cb m.maxClauses node s).map Prod.fst

end

variable {m : PathMatcher regex Msg} {view : σ → Database Msg} {data : TraversalContext}
  {cb : Path → σ → Option (σ × Int)} {recurse : Path → σ → Option (σ × Int)} {P : σ → Prop} {s s' : σ}

/-- What the callback keeps at a child, and the traversal below it, the loop keeps. -/
theorem visitChildLoop_keeps {depth : Nat} {child : Path} {name : Str} {left : Option Int}
    (hCb : ∀ s s' d, P s → cb child s = some (s', d) → P s')
    (hRecurse : ∀ s s' d, P s → recurse child s = some (s', d) → P s') (entries : List (PathMatcherEntry regex Msg))
    (matched recursed : Bool) (hs : P s)
    (h : m.visitChildLoop view data cb recurse depth child name entries matched recursed s = some (s', left)) :
    P s' := by
  induction entries generalizing matched recursed s with
  | nil =>
    cases h
    exact hs
  | cons entry rest ih =>
    unfold visitChildLoop at h
    split at h
    · split at h
      · split at h
        · split at h
          · obtain ⟨⟨t, d⟩, hCalled, hRest⟩ := Option.bind_eq_some_iff.mp h
            have ht := hCb s t d hs hCalled
            dsimp only at hRest
            split at hRest
            · cases hRest
              exact ht
            · split at hRest
              · cases hRest
                exact ht
              · exact ih _ _ ht hRest
          · exact ih _ _ hs h
        · exact ih _ _ hs h
      · split at h
        · obtain ⟨⟨t, d⟩, hBelow, hRest⟩ := Option.bind_eq_some_iff.mp h
          have ht := hRecurse s t d hs hBelow
          dsimp only at hRest
          split at hRest
          · cases hRest
            exact ht
          · split at hRest
            · cases hRest
              exact ht
            · exact ih _ _ ht hRest
        · exact ih _ _ hs h
    · exact ih _ _ hs h

theorem visitChildren_keeps {node : Path} {depth : Int}
    (hCb : ∀ name s s' d, P s → cb (node ++ [name]) s = some (s', d) → P s')
    (hRecurse : ∀ name s s' d, P s → recurse (node ++ [name]) s = some (s', d) → P s') {names : List Str} (hs : P s)
    (h : m.visitChildren view data cb recurse node names s = some (s', depth)) : P s' := by
  induction names generalizing s with
  | nil =>
    cases h
    exact hs
  | cons name rest ih =>
    unfold visitChildren at h
    obtain ⟨⟨t, left⟩, hFirst, hRest⟩ := Option.bind_eq_some_iff.mp h
    have ht := visitChildLoop_keeps (hCb name) (hRecurse name) m.entries false false hs hFirst
    cases left with
    | some left =>
      cases hRest
      exact ht
    | none => exact ih ht hRest

/-- The callback is called on nothing that is not strictly below the start: what it keeps there, the traversal
keeps. -/
theorem visit_keeps {node : Path} {useFilters : Bool}
    (hCb : ∀ q s s' d, node <+: q → node ≠ q → P s → cb q s = some (s', d) → P s') (hs : P s)
    (h : m.visit view cb node useFilters s = some s') : P s' := by
  have hAll : ∀ (levels : Nat) (start : Path) (t t' : σ) (d : Int), node <+: start → P t →
      m.visitAux view ⟨callWithDepth, useFilters, node.length⟩ cb levels start t = some (t', d) → P t' := by
    intro levels
    induction levels with
    | zero =>
      intro start t t' d _ ht hRun
      cases hRun
      exact ht
    | succ levels ih =>
      intro start t t' d hStart ht hRun
      have hBelow : ∀ name, node <+: start ++ [name] := fun name => hStart.trans (List.prefix_append ..)
      refine visitChildren_keeps (fun name u u' d' hu hCalled => ?_) (fun name u u' d' => ih _ u u' d' (hBelow name)) ht
        hRun
      refine hCb _ u u' d' (hBelow name) (fun hSame => ?_) hu hCalled
      have hLength := hStart.length_le
      rw [hSame, List.length_append, List.length_singleton] at hLength
      omega
  obtain ⟨⟨t, d⟩, hRun, rfl⟩ := Option.map_eq_some_iff.mp h
  exact hAll m.maxClauses node s t d (List.prefix_refl _) hs hRun

end BeShare.Muscle.Reflect.PathMatcher
