import BeShare.Reflect.Archive
import BeShare.Reflect.Index

/-!
A subtree that was saved to a Message and restored at a fresh path is the same again: data, names of children and
indices at every level.
-/

namespace BeShare.Muscle.Reflect

open BeShare.Lib

variable {Msg : Type}

/-! ### Paths -/

theorem splitClauses_of_not_mem {name : Str} (h : '/' ∉ name) : splitClauses name = [name] := by
  induction name with
  | nil => rfl
  | cons c rest ih =>
    rw [List.mem_cons, not_or] at h
    obtain ⟨hc, hRest⟩ := h
    unfold splitClauses
    rw [if_neg (Ne.symm hc), ih hRest]

theorem splitClauses_ne_nil (path : Str) : splitClauses path ≠ [] := by
  cases path with
  | nil => simp [splitClauses]
  | cons c rest =>
    unfold splitClauses
    split
    · simp
    · split <;> simp

theorem splitClauses_append {path name : Str} (h : '/' ∉ name) :
    splitClauses (path ++ '/' :: name) = splitClauses path ++ [name] := by
  induction path with
  | nil =>
    show splitClauses ('/' :: name) = _
    unfold splitClauses
    rw [if_pos rfl, splitClauses_of_not_mem h]
    rfl
  | cons c rest ih =>
    rw [List.cons_append, splitClauses, splitClauses, ih]
    split
    · rfl
    · cases hRest : splitClauses rest with
      | nil => exact absurd hRest (splitClauses_ne_nil rest)
      | cons clause clauses => rfl

namespace DataTree

variable {t x y child child' : DataTree Msg} {key name : Str} {p : Path}

/-! ### One child -/

theorem child?_eq_none : t.child? key = none ↔ key ∉ t.names := by
  unfold child? names
  rw [Option.map_eq_none_iff, List.find?_eq_none, List.mem_map]
  simp only [beq_iff_eq, not_exists, not_and]

theorem child?_putChild_self : (t.putChild name child).child? name = some child := by
  unfold putChild child?
  rw [children_setChildren]
  split
  next hHas =>
    obtain ⟨old, hOld, rfl⟩ := List.mem_map.mp (of_decide_eq_true hHas)
    have hFound : (t.children.map fun other => if other.1 = old.1 then (old.1, child) else other).find?
        (fun c => c.1 == old.1) = some (old.1, child) := by
      generalize t.children = cs at hOld
      induction cs with
      | nil => cases hOld
      | cons first rest ih =>
        rw [List.map_cons, List.find?_cons]
        by_cases hSame : first.1 = old.1
        · simp [hSame]
        · rw [if_neg hSame]
          rw [show (first.1 == old.1) = false from beq_eq_false_iff_ne.mpr hSame]
          rcases List.mem_cons.mp hOld with rfl | hOld
          · exact absurd rfl hSame
          · exact ih hOld
    rw [hFound]
    rfl
  next hNew =>
    have hNone : t.children.find? (fun c => c.1 == name) = none := by
      have hNot : t.child? name = none := child?_eq_none.mpr fun hIn => hNew (decide_eq_true hIn)
      exact Option.map_eq_none_iff.mp hNot
    rw [List.find?_append, hNone]
    simp

theorem child?_putChild_ne (h : key ≠ name) : (t.putChild name child).child? key = t.child? key := by
  unfold putChild child?
  rw [children_setChildren]
  congr 1
  split
  · induction t.children with
    | nil => rfl
    | cons first rest ih =>
      rw [List.map_cons, List.find?_cons, List.find?_cons, ih]
      by_cases hSame : first.1 = name
      · have hNot : (first.1 == key) = false := beq_eq_false_iff_ne.mpr fun hKey => h (hKey.symm.trans hSame)
        rw [if_pos hSame, show (name == key) = false from beq_eq_false_iff_ne.mpr (Ne.symm h), hNot]
      · rw [if_neg hSame]
  · rw [List.find?_append]
    have hNone : [(name, child)].find? (fun c => c.1 == key) = none := by simp [Ne.symm h]
    rw [hNone, Option.or_none]

theorem putChild_putChild : (t.putChild name child).putChild name child' = t.putChild name child' := by
  have hHas : (t.putChild name child).hasChild name = true := decide_eq_true (mem_names_putChild.mpr (.inl rfl))
  rw [putChild.eq_def (t.putChild name child)]
  rw [if_pos hHas]
  unfold putChild
  rw [children_setChildren]
  have hTwice : ∀ cs cs' : List (Str × DataTree Msg), (t.setChildren cs).setChildren cs' = t.setChildren cs' := by
    cases t
    exact fun _ _ => rfl
  rw [hTwice]
  congr 1
  split
  · rw [List.map_map]
    refine List.map_congr_left fun old _ => ?_
    show (if (if old.1 = name then (name, child) else old).1 = name then (name, child') else
      if old.1 = name then (name, child) else old) = if old.1 = name then (name, child') else old
    by_cases hSame : old.1 = name
    · rw [if_pos hSame, if_pos rfl, if_pos hSame]
    · simp only [if_neg hSame]
  next hNew =>
    rw [List.map_append, List.map_cons, List.map_nil, if_pos rfl]
    congr 1
    refine (List.map_congr_left fun old hOld => ?_).trans (List.map_id _)
    refine if_neg fun hSame => hNew (decide_eq_true ?_)
    exact hSame ▸ List.mem_map_of_mem hOld

/-! ### A node at a path -/

/-- The tree with this node in the place of the one at the path. -/
def putAt : Path → DataTree Msg → DataTree Msg → DataTree Msg
  | [], x, _ => x
  | name :: rest, x, t =>
    match t.child? name with
    | some child => t.putChild name (putAt rest x child)
    | none => t

theorem putAt_cons {child x t : DataTree Msg} {rest : Path} (h : t.child? name = some child) :
    putAt (name :: rest) x t = t.putChild name (putAt rest x child) := by
  rw [putAt, h]

theorem node?_cons {rest : Path} : node? (name :: rest) t = (t.child? name).bind (node? rest) :=
  rfl

theorem node?_putAt (h : node? p t = some x) : node? p (putAt p y t) = some y := by
  induction p generalizing t with
  | nil => rfl
  | cons name rest ih =>
    obtain ⟨child, hChild, hRest⟩ := Option.bind_eq_some_iff.mp h
    rw [putAt_cons hChild, node?_cons, child?_putChild_self]
    exact ih hRest

theorem putAt_putAt {z : DataTree Msg} (h : node? p t = some x) : putAt p z (putAt p y t) = putAt p z t := by
  induction p generalizing t with
  | nil => rfl
  | cons name rest ih =>
    obtain ⟨child, hChild, hRest⟩ := Option.bind_eq_some_iff.mp h
    rw [putAt_cons hChild, putAt_cons hChild, putAt_cons child?_putChild_self, putChild_putChild, ih hRest]

theorem node?_concat (h : node? p t = some x) : node? (p ++ [name]) t = x.child? name := by
  induction p generalizing t with
  | nil =>
    cases h
    show (x.child? name).bind (node? []) = _
    cases x.child? name <;> rfl
  | cons first rest ih =>
    obtain ⟨child, hChild, hRest⟩ := Option.bind_eq_some_iff.mp h
    rw [List.cons_append, node?_cons, hChild]
    exact ih hRest

theorem putAt_concat (h : node? p t = some x) (hChild : x.child? name = some child) :
    putAt (p ++ [name]) y t = putAt p (x.putChild name y) t := by
  induction p generalizing t with
  | nil =>
    cases h
    exact putAt_cons hChild
  | cons first rest ih =>
    obtain ⟨next, hNext, hRest⟩ := Option.bind_eq_some_iff.mp h
    rw [List.cons_append, putAt_cons hNext, putAt_cons hNext, ih hRest]

/-- The node at the path was replaced, or nothing changed at all. -/
def Replaced (p : Path) (y y' t t' : DataTree Msg) : Prop :=
  (t' = t ∧ y' = y) ∨ t' = putAt p y' t

theorem Replaced.node {y' t' : DataTree Msg} (h : Replaced p y y' t t') (hNode : node? p t = some y) :
    node? p t' = some y' := by
  rcases h with ⟨rfl, rfl⟩ | rfl
  · exact hNode
  · exact node?_putAt hNode

theorem Replaced.trans {y' y'' t' t'' : DataTree Msg} (h : Replaced p y y' t t') (h' : Replaced p y' y'' t' t'')
    (hNode : node? p t = some y) : Replaced p y y'' t t'' := by
  rcases h with ⟨rfl, rfl⟩ | rfl
  · exact h'
  · rcases h' with ⟨rfl, rfl⟩ | rfl
    · exact .inr rfl
    · exact .inr (putAt_putAt hNode)

/-! ### A node with one more child -/

/-- With one more child, which is perhaps appended to the index. -/
def grow (x : DataTree Msg) (name : Str) (child : DataTree Msg) (appendToIndex : Bool) : DataTree Msg :=
  (x.putChild name child).setIndex (if appendToIndex then x.orderedIndex ++ [name] else x.orderedIndex)

@[simp] theorem data_grow {append : Bool} : (x.grow name child append).data = x.data := by
  cases x
  rfl

@[simp] theorem orderedIndex_grow {append : Bool} :
    (x.grow name child append).orderedIndex = if append then x.orderedIndex ++ [name] else x.orderedIndex :=
  orderedIndex_setIndex

theorem child?_setIndex {index : List Str} : (t.setIndex index).child? key = t.child? key := by
  cases t
  rfl

theorem child?_grow_self {append : Bool} : (x.grow name child append).child? name = some child := by
  unfold grow
  rw [child?_setIndex]
  exact child?_putChild_self

theorem child?_grow_ne {append : Bool} (h : key ≠ name) : (x.grow name child append).child? key = x.child? key := by
  unfold grow
  rw [child?_setIndex]
  exact child?_putChild_ne h

theorem mem_names_grow {append : Bool} : key ∈ (x.grow name child append).names ↔ key = name ∨ key ∈ x.names := by
  unfold grow
  rw [names_setIndex]
  exact mem_names_putChild

theorem putChild_grow {append : Bool} : (x.grow name child append).putChild name y = x.grow name y append := by
  have hComm : ∀ (t : DataTree Msg) index, (t.setIndex index).putChild name y = (t.putChild name y).setIndex index := by
    intro t index
    cases t
    rfl
  unfold grow
  rw [hComm, putChild_putChild]

theorem insertOrderedChild_named (data : Option Msg) (pooled : UInt32) :
    x.insertOrderedChild data none (some name) pooled = x.grow name (new data pooled) true := by
  unfold insertOrderedChild grow insertPosition
  have hCounter : x.setCounter x.orderedCounter = x := by
    cases x
    rfl
  simp only [hCounter, orderedIndex_putChild, List.insertIdx_length_self, if_true]

/-! ### Same trees -/

/-- The same data, the same names of children and the same index, at every level. -/
inductive SameTree : DataTree Msg → DataTree Msg → Prop where
  | intro (t r : DataTree Msg) : r.data = t.data → r.orderedIndex = t.orderedIndex →
      (∀ name, name ∈ r.names ↔ name ∈ t.names) →
      (∀ name child child', t.child? name = some child → r.child? name = some child' → SameTree child child') →
      SameTree t r

theorem SameTree.index_eq {r : DataTree Msg} (h : SameTree t r) : r.orderedIndex = t.orderedIndex := by
  cases h
  assumption

theorem SameTree.mem_names {r : DataTree Msg} (h : SameTree t r) : key ∈ r.names ↔ key ∈ t.names := by
  cases h with
  | intro _ _ _ _ hNames _ => exact hNames key

/-- A node that can be saved and restored. -/
structure WellFormedNode (t : DataTree Msg) : Prop where
  hasData : t.data ≠ none
  table : t.names.Nodup
  noSlash : ∀ name ∈ t.names, '/' ∉ name
  ordered : t.Ordered
  named : [] ∉ t.orderedIndex

def WellFormed (t : DataTree Msg) : Prop :=
  Throughout Inside WellFormedNode t

mutual

/-- The number of nodes. -/
def size : DataTree Msg → Nat
  | mk _ children _ _ => 1 + sizes children

def sizes : List (Str × DataTree Msg) → Nat
  | [] => 0
  | (_, child) :: rest => size child + sizes rest

end

theorem size_eq : t.size = 1 + sizes t.children := by
  cases t
  rw [size]
  rfl

theorem sizes_append (cs cs' : List (Str × DataTree Msg)) : sizes (cs ++ cs') = sizes cs + sizes cs' := by
  induction cs with
  | nil => rw [List.nil_append, sizes, Nat.zero_add]
  | cons first rest ih =>
    rw [List.cons_append, sizes, sizes, ih, Nat.add_assoc]

theorem sizes_perm {cs cs' : List (Str × DataTree Msg)} (h : cs.Perm cs') : sizes cs = sizes cs' := by
  induction h with
  | nil => rfl
  | cons first _ ih => rw [sizes, sizes, ih]
  | swap first second rest =>
    rw [sizes, sizes, sizes, sizes]
    omega
  | trans _ _ ih ih' => exact ih.trans ih'

end DataTree

/-! ### Setting one node -/

namespace SessionTree

open DataTree

variable {ctx : RestoreContext Msg} {t x : DataTree Msg} {p rest : Path} {name : Str} {data : Msg} {count : Nat}
  {append : Bool}

/-- The part of a path that is there is only walked. -/
theorem setDataLoop_append {overwrite create : Bool} {before : Option Str} (h : node? p t = some x)
    (hRest : rest ≠ []) :
    setDataLoop ctx data overwrite create append before (p ++ rest) t count =
      (setDataLoop ctx data overwrite create append before rest x count).map
        fun after => (putAt p after.1 t, after.2) := by
  induction p generalizing t with
  | nil =>
    cases h
    show setDataLoop ctx data overwrite create append before rest x count = _
    cases setDataLoop ctx data overwrite create append before rest x count <;> rfl
  | cons first path ih =>
    obtain ⟨child, hChild, hBelow⟩ := Option.bind_eq_some_iff.mp h
    have hMore : path ++ rest ≠ [] := fun hNil => hRest (List.append_eq_nil_iff.mp hNil).2
    rw [List.cons_append, setDataLoop, hChild]
    dsimp only
    rw [if_neg hMore, ih hBelow, Option.map_map]
    congr 1
    funext after
    exact Prod.ext (putAt_cons hChild).symm rfl

/-- A node that is new where it stands. -/
theorem setDataLoop_new (hNew : x.child? name = none) (hName : append = true → name ≠ [])
    (hCount : count < ctx.maxNodeCount) :
    setDataLoop ctx data true true append none [name] x count =
      some (x.grow name (new (some data) ctx.pooled) append, count + 1) := by
  rw [setDataLoop, hNew]
  dsimp only
  rw [if_pos ⟨rfl, hCount⟩, if_pos rfl]
  cases append with
  | true => rw [if_pos rfl, if_neg (hName rfl), insertOrderedChild_named]
  | false =>
    rw [if_neg Bool.false_ne_true]
    have hSame : x.grow name (new (some data) ctx.pooled) false = x.putChild name (new (some data) ctx.pooled) := by
      cases x
      rfl
    rw [hSame]

/-- The number of nodes that are made on the way to a node that is not there. -/
def missing : Path → DataTree Msg → Nat
  | [], _ => 0
  | name :: rest, t =>
    match t.child? name with
    | some child => missing rest child
    | none => 1 + rest.length

theorem setDataLoop_fresh (hPath : p ≠ []) (hFresh : node? p t = none)
    (hCount : count + missing p t ≤ ctx.maxNodeCount) :
    ∃ after, setDataLoop ctx data true true false none p t count = some (after, count + missing p t) ∧
      node? p after = some (new (some data) ctx.pooled) := by
  induction p generalizing t count with
  | nil => exact absurd rfl hPath
  | cons first rest ih =>
    rw [setDataLoop, missing] at *
    rw [node?_cons] at hFresh
    cases hChild : t.child? first with
    | some child =>
      rw [hChild] at hFresh hCount
      have hRest : rest ≠ [] := by
        rintro rfl
        cases hFresh
      obtain ⟨after, hLoop, hNode⟩ := ih hRest hFresh hCount
      refine ⟨t.putChild first after, ?_, ?_⟩
      · dsimp only
        rw [if_neg hRest, hLoop]
        rfl
      · rw [node?_cons, child?_putChild_self]
        exact hNode
    | none =>
      rw [hChild] at hCount
      dsimp only at hCount ⊢
      rw [if_pos ⟨rfl, by omega⟩]
      by_cases hRest : rest = []
      · subst hRest
        refine ⟨t.putChild first (new (some data) ctx.pooled), ?_, ?_⟩
        · rw [if_pos rfl, if_neg Bool.false_ne_true]
          rfl
        · rw [node?_cons, child?_putChild_self]
          rfl
      · have hNone : ∀ path, (new (some ctx.blankMessage) ctx.pooled).child? path = none := fun path => rfl
        have hMissing : missing rest (new (some ctx.blankMessage) ctx.pooled) = rest.length := by
          cases rest with
          | nil => rfl
          | cons second rest =>
            rw [missing, hNone]
            exact Nat.add_comm ..
        obtain ⟨second, rest', rfl⟩ := List.exists_cons_of_ne_nil hRest
        obtain ⟨after, hLoop, hNode⟩ := @ih (new (some ctx.blankMessage) ctx.pooled) (count + 1) hRest
          (by rw [node?_cons, hNone]; rfl) (by rw [hMissing]; omega)
        refine ⟨t.putChild first after, ?_, ?_⟩
        · rw [if_neg hRest, hLoop, hMissing]
          simp only [Option.map_some]
          congr 2
          omega
        · rw [node?_cons, child?_putChild_self]
          exact hNode

/-! ### Restoring -/

/-- A path of the session's tree, with its clauses. -/
structure IsPath (path : Str) (p : Path) : Prop where
  clauses : splitClauses path = p
  notEmpty : path ≠ []
  relative : path.head? ≠ some '/'

theorem IsPath.child {path : Str} (h : IsPath path p) (hName : '/' ∉ name) :
    IsPath (childPath path name) (p ++ [name]) := by
  unfold childPath
  rw [if_neg h.notEmpty]
  refine ⟨?_, by simp, ?_⟩
  · rw [splitClauses_append hName, h.clauses]
  · obtain ⟨c, rest, rfl⟩ := List.exists_cons_of_ne_nil h.notEmpty
    exact h.relative

theorem setDataNode_eq {path : Str} (h : IsPath path p) (st : SessionTree Msg) :
    setDataNode ctx path data true true append none st =
      (setDataLoop ctx data true true append none p st.sessionDir st.currentNodeCount).map fun after =>
        ⟨after.1, after.2⟩ := by
  unfold setDataNode
  rw [if_neg (not_or.mpr ⟨h.notEmpty, h.relative⟩), h.clauses]

/-- How a child that was saved is restored. -/
def restoreChild (ctx : RestoreContext Msg) (path : Str) (append : Bool) (st : SessionTree Msg)
    (c : Str × DataTree Msg) : Option (SessionTree Msg) :=
  restoreNodeTreeFromMessage ctx (saveNodeTreeToMessage true c.2) (childPath path c.1) true append st

theorem childRestorers_save (cs : List (Str × DataTree Msg)) : childRestorers ctx (saveChildrenToMessage cs) =
    cs.map fun c => (c.1, fun path append st =>
      restoreNodeTreeFromMessage ctx (saveNodeTreeToMessage true c.2) path true append st) := by
  induction cs with
  | nil => rfl
  | cons c rest ih =>
    rw [saveChildrenToMessage, childRestorers, ih]
    rfl

/-- The children with an entry, in the order of the index. -/
def indexedChildren (t : DataTree Msg) : List (Str × DataTree Msg) :=
  t.orderedIndex.filterMap fun name => t.children.find? fun c => c.1 == name

/-- The children without an entry. -/
def otherChildren (t : DataTree Msg) : List (Str × DataTree Msg) :=
  t.children.filter fun c => !decide (c.1 ∈ t.orderedIndex)

theorem foldlM_restoreNamed (cs : List (Str × DataTree Msg)) (path : Str) (names : List Str) (st : SessionTree Msg) :
    names.foldlM (restoreNamed (cs.map fun c => (c.1, fun path append st =>
        restoreNodeTreeFromMessage ctx (saveNodeTreeToMessage true c.2) path true append st)) path) st =
      (names.filterMap fun name => cs.find? fun c => c.1 == name).foldlM (restoreChild ctx path true) st := by
  induction names generalizing st with
  | nil => rfl
  | cons name rest ih =>
    rw [List.foldlM_cons, List.filterMap_cons]
    unfold restoreNamed
    rw [List.find?_map]
    cases hFound : cs.find? fun c => c.1 == name with
    | none =>
      have hSame : cs.find? ((fun r : Str × Restorer Msg => r.1 == name) ∘ fun c => (c.1,
          fun path append st => restoreNodeTreeFromMessage ctx (saveNodeTreeToMessage true c.2) path true append
            st)) = none := hFound
      rw [hSame]
      exact ih st
    | some c =>
      have hSame : cs.find? ((fun r : Str × Restorer Msg => r.1 == name) ∘ fun c => (c.1,
          fun path append st => restoreNodeTreeFromMessage ctx (saveNodeTreeToMessage true c.2) path true append
            st)) = some c := hFound
      obtain rfl : c.1 = name := by simpa using List.find?_some hFound
      rw [hSame]
      simp only [Option.map_some, List.foldlM_cons]
      show (restoreChild ctx path true st c).bind _ = (restoreChild ctx path true st c).bind _
      congr 1
      funext st
      exact ih st

/-- A node that was saved is restored before its children, those with an entry before the others. -/
theorem restore_save (hData : t.data = some data) (hIndex : t.children = [] → t.orderedIndex = []) (path : Str)
    (st : SessionTree Msg) :
    restoreNodeTreeFromMessage ctx (saveNodeTreeToMessage true t) path true append st =
      (setDataNode ctx path data true true append none st).bind fun st =>
        ((indexedChildren t).foldlM (restoreChild ctx path true) st).bind fun st =>
          (otherChildren t).foldlM (restoreChild ctx path false) st := by
  cases t with
  | mk d children index counter =>
    obtain rfl : d = some data := hData
    have hSavedIndex : (if children = [] then [] else index) = index := by
      split
      next hNil => exact (hIndex hNil).symm
      next => rfl
    rw [saveNodeTreeToMessage, if_neg (by simp), if_pos rfl, hSavedIndex, restoreNodeTreeFromMessage]
    rw [childRestorers_save]
    congr 1
    funext st
    rw [foldlM_restoreNamed]
    have hOther : ∀ st : SessionTree Msg,
        ((children.map fun c => ((c.1, fun path append st =>
          restoreNodeTreeFromMessage ctx (saveNodeTreeToMessage true c.2) path true append st) :
            Str × Restorer Msg)).filter fun r => !decide (r.1 ∈ index)).foldlM
          (fun st r => r.2 (childPath path r.1) false st) st =
        (otherChildren (.mk (some data) children index counter)).foldlM (restoreChild ctx path false) st := by
      intro st
      rw [List.filter_map, List.foldlM_map]
      rfl
    congr 1
    funext st
    exact hOther st

/-! ### The two groups of children -/

theorem find_child (h : name ∈ t.names) : ∃ child, t.child? name = some child ∧
    t.children.find? (fun c => c.1 == name) = some (name, child) := by
  cases hFound : t.children.find? fun c => c.1 == name with
  | none =>
    have hNone : t.child? name = none := Option.map_eq_none_iff.mpr hFound
    exact absurd h (child?_eq_none.mp hNone)
  | some c =>
    obtain rfl : c.1 = name := by simpa using List.find?_some hFound
    exact ⟨c.2, congrArg (Option.map Prod.snd) hFound, rfl⟩

theorem names_indexedChildren (h : t.Ordered) : (indexedChildren t).map Prod.fst = t.orderedIndex := by
  unfold indexedChildren
  have hCurrent := h.current
  generalize t.orderedIndex = index at hCurrent
  induction index with
  | nil => rfl
  | cons name rest ih =>
    obtain ⟨child, -, hFind⟩ := find_child (hCurrent name List.mem_cons_self)
    rw [List.filterMap_cons, hFind]
    exact congrArg (name :: ·) (ih fun entry hEntry => hCurrent entry (List.mem_cons_of_mem _ hEntry))

theorem child?_of_mem (hTable : t.names.Nodup) {c : Str × DataTree Msg} (h : c ∈ t.children) :
    t.child? c.1 = some c.2 := by
  obtain ⟨child, hChild, hFind⟩ := find_child (List.mem_map_of_mem h)
  have hSame : (c.1, child) = c :=
    List.inj_on_of_nodup_map hTable (List.mem_of_find?_eq_some hFind) h rfl
  rw [hChild, ← hSame]

theorem mem_indexedChildren (hTable : t.names.Nodup) {c : Str × DataTree Msg} :
    c ∈ indexedChildren t ↔ c ∈ t.children ∧ c.1 ∈ t.orderedIndex := by
  unfold indexedChildren
  rw [List.mem_filterMap]
  constructor
  · rintro ⟨name, hName, hFind⟩
    obtain rfl : c.1 = name := by simpa using List.find?_some hFind
    exact ⟨List.mem_of_find?_eq_some hFind, hName⟩
  · rintro ⟨hIn, hIndex⟩
    obtain ⟨child, -, hFind⟩ := find_child (List.mem_map_of_mem hIn)
    refine ⟨c.1, hIndex, hFind.trans ?_⟩
    rw [List.inj_on_of_nodup_map hTable (List.mem_of_find?_eq_some hFind) hIn rfl]

theorem mem_otherChildren {c : Str × DataTree Msg} :
    c ∈ otherChildren t ↔ c ∈ t.children ∧ c.1 ∉ t.orderedIndex := by
  unfold otherChildren
  rw [List.mem_filter, Bool.not_eq_true', decide_eq_false_iff_not]

theorem sizes_children (hTable : t.names.Nodup) (h : t.Ordered) :
    sizes t.children = sizes (indexedChildren t) + sizes (otherChildren t) := by
  rw [← sizes_append]
  have hNodup : t.children.Nodup := hTable.of_map
  refine sizes_perm ((List.perm_ext_iff_of_nodup hNodup ?_).mpr fun c => ?_)
  · refine List.Nodup.append ?_ (hNodup.sublist List.filter_sublist) fun c hIndexed hOther => ?_
    · refine List.Nodup.of_map Prod.fst ?_
      rw [names_indexedChildren h]
      exact h.distinct
    · exact (mem_otherChildren.mp hOther).2 ((mem_indexedChildren hTable).mp hIndexed).2
  · rw [List.mem_append, mem_indexedChildren hTable, mem_otherChildren, ← and_or_left]
    exact (and_iff_left (Classical.em _)).symm

/-! ### One child after the other -/

/-- Restored at a place that is free the saved tree is the same again. -/
def Restores (ctx : RestoreContext Msg) (t : DataTree Msg) : Prop :=
  ∀ (st : SessionTree Msg) (path : Str) (p : Path) (x : DataTree Msg) (name : Str) (append : Bool),
    node? p st.sessionDir = some x → x.child? name = none → IsPath path (p ++ [name]) →
    (append = true → name ≠ []) → st.currentNodeCount + t.size ≤ ctx.maxNodeCount →
    ∃ r, SameTree t r ∧ restoreNodeTreeFromMessage ctx (saveNodeTreeToMessage true t) path true append st =
      some ⟨putAt p (x.grow name r append) st.sessionDir, st.currentNodeCount + t.size⟩

/-- What restoring children does to their parent. -/
structure ChildrenRestored (cs : List (Str × DataTree Msg)) (append : Bool) (y y' : DataTree Msg) : Prop where
  data : y'.data = y.data
  index : y'.orderedIndex = y.orderedIndex ++ if append then cs.map Prod.fst else []
  names : ∀ name, name ∈ y'.names ↔ name ∈ y.names ∨ name ∈ cs.map Prod.fst
  others : ∀ name, name ∉ cs.map Prod.fst → y'.child? name = y.child? name
  same : ∀ c ∈ cs, ∃ r, y'.child? c.1 = some r ∧ SameTree c.2 r

theorem foldlM_restoreChild {path : Str} (hPath : IsPath path p) (cs : List (Str × DataTree Msg)) :
    ∀ (st : SessionTree Msg) (y : DataTree Msg), (∀ c ∈ cs, Restores ctx c.2) → (cs.map Prod.fst).Nodup →
      (∀ c ∈ cs, '/' ∉ c.1 ∧ (append = true → c.1 ≠ []) ∧ c.1 ∉ y.names) → node? p st.sessionDir = some y →
      st.currentNodeCount + sizes cs ≤ ctx.maxNodeCount →
      ∃ y' t', ChildrenRestored cs append y y' ∧ Replaced p y y' st.sessionDir t' ∧
        cs.foldlM (restoreChild ctx path append) st = some ⟨t', st.currentNodeCount + sizes cs⟩ := by
  induction cs with
  | nil =>
    intro st y _ _ _ _ _
    exact ⟨y, st.sessionDir, ⟨rfl, by simp, by simp, fun _ _ => rfl, by simp⟩, .inl ⟨rfl, rfl⟩, rfl⟩
  | cons c rest ih =>
    intro st y hRestores hNodup hNames hNode hCount
    rw [sizes] at hCount ⊢
    obtain ⟨hSlash, hNamed, hNew⟩ := hNames c List.mem_cons_self
    obtain ⟨hNotMem, hNodup⟩ := List.nodup_cons.mp hNodup
    obtain ⟨r, hSame, hRestore⟩ := hRestores c List.mem_cons_self st (childPath path c.1) p y c.1 append hNode
      (child?_eq_none.mpr hNew) (hPath.child hSlash) hNamed (by omega)
    have hGrown : node? p (putAt p (y.grow c.1 r append) st.sessionDir) = some (y.grow c.1 r append) :=
      node?_putAt hNode
    obtain ⟨y', t', hRestored, hReplaced, hRun⟩ := ih
      ⟨putAt p (y.grow c.1 r append) st.sessionDir, st.currentNodeCount + c.2.size⟩
      (y.grow c.1 r append) (fun c' hc' => hRestores c' (List.mem_cons_of_mem _ hc')) hNodup
      (fun c' hc' => by
        obtain ⟨hSlash', hNamed', hNew'⟩ := hNames c' (List.mem_cons_of_mem _ hc')
        refine ⟨hSlash', hNamed', fun hIn => ?_⟩
        rcases mem_names_grow.mp hIn with hEq | hIn
        · exact hNotMem (hEq ▸ List.mem_map_of_mem hc')
        · exact hNew' hIn) hGrown (by simp only; omega)
    refine ⟨y', t', ⟨?_, ?_, fun name => ?_, fun name hName => ?_, fun c' hc' => ?_⟩,
      Replaced.trans (.inr rfl) hReplaced hNode, ?_⟩
    · rw [hRestored.data, data_grow]
    · rw [hRestored.index, orderedIndex_grow]
      cases append <;> simp
    · rw [hRestored.names, mem_names_grow, List.map_cons, List.mem_cons]
      exact ⟨fun h => h.elim (fun h => h.elim (fun h => .inr (.inl h)) .inl) (fun h => .inr (.inr h)),
        fun h => h.elim (fun h => .inl (.inr h)) (fun h => h.elim (fun h => .inl (.inl h)) .inr)⟩
    · rw [List.map_cons, List.mem_cons, not_or] at hName
      rw [hRestored.others name hName.2, child?_grow_ne hName.1]
    · rcases List.mem_cons.mp hc' with rfl | hc'
      · exact ⟨r, (hRestored.others _ hNotMem).trans child?_grow_self, hSame⟩
      · exact hRestored.same c' hc'
    · rw [List.foldlM_cons]
      have hFirst : restoreChild ctx path append st c =
          some ⟨putAt p (y.grow c.1 r append) st.sessionDir, st.currentNodeCount + c.2.size⟩ := hRestore
      rw [hFirst]
      refine hRun.trans ?_
      rw [Nat.add_assoc]

/-- On a node without children that was just made both groups of children are restored, and it is the saved node
again. -/
theorem restore_children (hNode : WellFormedNode t) (hRestores : ∀ c ∈ t.children, Restores ctx c.2) {path : Str}
    (hPath : IsPath path p) {st : SessionTree Msg} (hLeaf : node? p st.sessionDir = some (new t.data ctx.pooled))
    (hCount : st.currentNodeCount + sizes t.children ≤ ctx.maxNodeCount) :
    ∃ r t', SameTree t r ∧ Replaced p (new t.data ctx.pooled) r st.sessionDir t' ∧
      ((indexedChildren t).foldlM (restoreChild ctx path true) st).bind
          (fun st => (otherChildren t).foldlM (restoreChild ctx path false) st) =
        some ⟨t', st.currentNodeCount + sizes t.children⟩ := by
  have hSizes := sizes_children hNode.table hNode.ordered
  have hNamesIndexed := names_indexedChildren hNode.ordered
  obtain ⟨y, t₁, hFirst, hReplaced, hRun⟩ := @foldlM_restoreChild Msg ctx p true path hPath (indexedChildren t) st _
    (fun c hc => hRestores c ((mem_indexedChildren hNode.table).mp hc).1)
    (hNamesIndexed ▸ hNode.ordered.distinct)
    (fun c hc => by
      obtain ⟨hIn, hIndex⟩ := (mem_indexedChildren hNode.table).mp hc
      refine ⟨hNode.noSlash c.1 (List.mem_map_of_mem hIn), fun _ hNil => hNode.named (hNil ▸ hIndex), ?_⟩
      exact fun h => by cases h) hLeaf (by omega)
  have hNamesOther : ((otherChildren t).map Prod.fst).Nodup := hNode.table.sublist (List.filter_sublist.map _)
  obtain ⟨r, t₂, hSecond, hReplaced', hRun'⟩ := @foldlM_restoreChild Msg ctx p false path hPath (otherChildren t)
    ⟨t₁, st.currentNodeCount + sizes (indexedChildren t)⟩ y
    (fun c hc => hRestores c (mem_otherChildren.mp hc).1) hNamesOther
    (fun c hc => by
      obtain ⟨hIn, hIndex⟩ := mem_otherChildren.mp hc
      refine ⟨hNode.noSlash c.1 (List.mem_map_of_mem hIn), fun h => (Bool.false_ne_true h).elim, fun hOld => ?_⟩
      rcases (hFirst.names c.1).mp hOld with h | h
      · cases h
      · rw [hNamesIndexed] at h
        exact hIndex h) (hReplaced.node hLeaf) (by simp only; omega)
  refine ⟨r, t₂, ?_, hReplaced.trans hReplaced' hLeaf, ?_⟩
  · have hGroups : ∀ name, name ∈ t.names ↔
        name ∈ (indexedChildren t).map Prod.fst ∨ name ∈ (otherChildren t).map Prod.fst := by
      intro name
      rw [hNamesIndexed]
      constructor
      · intro hName
        obtain ⟨c, hc, rfl⟩ := List.mem_map.mp hName
        by_cases hIndex : c.1 ∈ t.orderedIndex
        · exact .inl hIndex
        · exact .inr (List.mem_map_of_mem (mem_otherChildren.mpr ⟨hc, hIndex⟩))
      · rintro (hIndex | hOther)
        · exact hNode.ordered.current name hIndex
        · obtain ⟨c, hc, rfl⟩ := List.mem_map.mp hOther
          exact List.mem_map_of_mem (mem_otherChildren.mp hc).1
    refine .intro t r ?_ ?_ (fun name => ?_) fun name child child' hChild hChild' => ?_
    · rw [hSecond.data, hFirst.data]
      rfl
    · rw [hSecond.index, hFirst.index, if_pos rfl, hNamesIndexed, if_neg Bool.false_ne_true, List.append_nil]
      rfl
    · rw [hSecond.names, hFirst.names, hGroups, or_assoc]
      exact or_iff_right fun h => by cases h
    · have hIn : (name, child) ∈ t.children := by
        obtain ⟨found, hFound, hSame⟩ := Option.map_eq_some_iff.mp hChild
        obtain rfl : found.1 = name := by simpa using List.find?_some hFound
        exact hSame ▸ List.mem_of_find?_eq_some hFound
      by_cases hIndex : name ∈ t.orderedIndex
      · obtain ⟨c', hc', hSame⟩ := hFirst.same (name, child) ((mem_indexedChildren hNode.table).mpr ⟨hIn, hIndex⟩)
        have hNotOther : name ∉ (otherChildren t).map Prod.fst := by
          intro h
          obtain ⟨c, hc, rfl⟩ := List.mem_map.mp h
          exact (mem_otherChildren.mp hc).2 hIndex
        rw [hSecond.others name hNotOther, hc'] at hChild'
        cases hChild'
        exact hSame
      · obtain ⟨c', hc', hSame⟩ := hSecond.same (name, child) (mem_otherChildren.mpr ⟨hIn, hIndex⟩)
        rw [hc'] at hChild'
        cases hChild'
        exact hSame
  · rw [hRun, Option.bind_some, hRun', hSizes]
    simp only [Nat.add_assoc]

theorem index_nil_of_children_nil (h : t.Ordered) (hNil : t.children = []) : t.orderedIndex = [] := by
  refine List.eq_nil_iff_forall_not_mem.mpr fun entry hEntry => ?_
  have hIn := h.current entry hEntry
  unfold names at hIn
  rw [hNil] at hIn
  cases hIn

/-- Every well-formed tree is restored: induction on the tree. -/
theorem restores (ctx : RestoreContext Msg) (t : DataTree Msg) (h : WellFormed t) : Restores ctx t := by
  induction t using DataTree.induct with
  | h t ih =>
    intro st path p x name append hNode hNew hPath hNamed hCount
    obtain ⟨d, hData⟩ := Option.ne_none_iff_exists'.mp h.here.hasData
    rw [size_eq] at hCount ⊢
    rw [restore_save hData (index_nil_of_children_nil h.here.ordered), setDataNode_eq hPath,
      setDataLoop_append hNode (List.cons_ne_nil name []), setDataLoop_new hNew hNamed (by omega)]
    simp only [Option.map_some, Option.bind_some]
    have hGrown := node?_putAt (y := x.grow name (new (some d) ctx.pooled) append) hNode
    have hLeaf : node? (p ++ [name]) (putAt p (x.grow name (new (some d) ctx.pooled) append) st.sessionDir) =
        some (new t.data ctx.pooled) := by
      rw [node?_concat hGrown, child?_grow_self, hData]
    obtain ⟨r, t', hSame, hReplaced, hRun⟩ := @restore_children Msg ctx t (p ++ [name]) h.here
      (fun c hc => ih c.2 ⟨c.1, hc⟩ (h.item ⟨c.1, hc⟩)) path hPath
      ⟨putAt p (x.grow name (new (some d) ctx.pooled) append) st.sessionDir, st.currentNodeCount + 1⟩ hLeaf
      (by simp only; omega)
    refine ⟨r, hSame, hRun.trans ?_⟩
    rw [Nat.add_assoc]
    rcases hReplaced with ⟨rfl, rfl⟩ | rfl
    · rw [hData]
    · rw [putAt_concat hGrown child?_grow_self, putChild_grow, putAt_putAt hNode]

/-- Saved and restored at any path of a session that is not there yet, with room for all nodes, the subtree is the same
again. -/
def RoundTrips (t : DataTree Msg) : Prop :=
  ∀ (ctx : RestoreContext Msg) (st : SessionTree Msg) (path : Str) (p : Path), IsPath path p →
    node? p st.sessionDir = none →
    st.currentNodeCount + missing p st.sessionDir + sizes t.children ≤ ctx.maxNodeCount →
    ∃ st' r, restoreNodeTreeFromMessage ctx (saveNodeTreeToMessage true t) path true false st = some st' ∧
      node? p st'.sessionDir = some r ∧ SameTree t r

theorem wellFormed_roundTrips (t : DataTree Msg) (h : WellFormed t) : RoundTrips t := by
  intro ctx st path p hPath hFresh hCount
  obtain ⟨d, hData⟩ := Option.ne_none_iff_exists'.mp h.here.hasData
  have hNotNil : p ≠ [] := hPath.clauses ▸ splitClauses_ne_nil path
  obtain ⟨after, hLoop, hLeaf⟩ := @setDataLoop_fresh Msg ctx st.sessionDir p d st.currentNodeCount hNotNil hFresh
    (by omega)
  obtain ⟨r, t', hSame, hReplaced, hRun⟩ := @restore_children Msg ctx t p h.here
    (fun c hc => restores ctx c.2 (h.item ⟨c.1, hc⟩)) path hPath
    ⟨after, st.currentNodeCount + missing p st.sessionDir⟩ (hLeaf.trans (by rw [hData])) (by simp only; omega)
  refine ⟨⟨t', st.currentNodeCount + missing p st.sessionDir + sizes t.children⟩, r, ?_,
    hReplaced.node (hLeaf.trans (by rw [hData])), hSame⟩
  rw [restore_save hData (index_nil_of_children_nil h.here.ordered), setDataNode_eq hPath, hLoop]
  exact hRun

/-! ### Trees that are not the same again -/

def leaf (data : Nat) : DataTree Nat :=
  .mk (some data) [] [] 0

/-- A child with two entries. -/
def twoEntries : DataTree Nat :=
  .mk (some 1) [(['I', '0'], leaf 2)] [['I', '0'], ['I', '0']] 0

/-- An entry for a child with the empty name. -/
def emptyEntry : DataTree Nat :=
  .mk (some 1) [([], leaf 2)] [[]] 0

/-- A child whose name looks like a path. -/
def slashedName : DataTree Nat :=
  .mk (some 1) [(['a', '/', 'b'], leaf 2)] [] 0

/-- A child without data. -/
def noData : DataTree Nat :=
  .mk (some 1) [(['a'], .mk none [] [] 0)] [] 0

/-- A tree of two children, one of them with an entry. -/
def oneEntry : DataTree Nat :=
  .mk (some 1) [(['a'], leaf 2), (['I', '0'], leaf 3)] [['I', '0']] 1

/-- The indices of a tree only have entries that are children. -/
def EntriesAreChildren (t : DataTree Nat) : Prop :=
  Throughout Inside (fun t => ∀ entry ∈ t.orderedIndex, entry ∈ t.names) t

theorem throughout_of_leaves {P : DataTree Nat → Prop} {t : DataTree Nat} (h : P t)
    (hChildren : ∀ c ∈ t.children, P c.2 ∧ c.2.children = []) : Throughout Inside P t := by
  refine .intro t h ?_
  rintro child ⟨name, hIn⟩
  obtain ⟨hChild, hNone⟩ := hChildren _ hIn
  refine .intro child hChild ?_
  rintro other ⟨name', hIn'⟩
  rw [hNone] at hIn'
  cases hIn'

theorem not_roundTrips {t : DataTree Nat} {α : Type} (f : DataTree Nat → α) (v : α)
    (hSizes : 1 + sizes t.children ≤ 10)
    (hRestored : ((restoreNodeTreeFromMessage ⟨10, 0, 0⟩ (saveNodeTreeToMessage true t) ['p'] true false
      ⟨leaf 0, 0⟩).bind fun st => (node? [['p']] st.sessionDir).map f) = some v)
    (hDiffers : ∀ r, SameTree t r → f r ≠ v) : ¬ RoundTrips t := by
  intro h
  obtain ⟨st', r, hRun, hNode, hSame⟩ := h ⟨10, 0, 0⟩ ⟨leaf 0, 0⟩ ['p'] [['p']] ⟨by decide, by decide, by decide⟩ rfl
    ((Nat.zero_add _).symm ▸ hSizes)
  rw [hRun, Option.bind_some, hNode] at hRestored
  exact hDiffers r hSame (Option.some.inj hRestored)

/-- An index with an entry twice, or for a child with the empty name, a name with a slash, and a node without data do
not come back. -/
theorem trees_not_roundTrip :
    (∀ t ∈ [twoEntries, emptyEntry, slashedName, noData], EntriesAreChildren t) ∧
      ∀ t ∈ [twoEntries, emptyEntry, slashedName, noData], ¬ RoundTrips t := by
  constructor
  · intro t ht
    simp only [List.mem_cons, List.not_mem_nil, or_false] at ht
    rcases ht with rfl | rfl | rfl | rfl <;> exact throughout_of_leaves (by decide) (by decide)
  · intro t ht
    simp only [List.mem_cons, List.not_mem_nil, or_false] at ht
    rcases ht with rfl | rfl | rfl | rfl
    · refine not_roundTrips orderedIndex [['I', '0']] (by decide) (by decide) fun r hSame => ?_
      rw [hSame.index_eq]
      decide
    · refine not_roundTrips orderedIndex [['I', '0']] (by decide) (by decide) fun r hSame => ?_
      rw [hSame.index_eq]
      decide
    · refine not_roundTrips names [['a']] (by decide) (by decide) fun r hSame hNames => ?_
      have hIn : ['a'] ∈ slashedName.names := hSame.mem_names.mp (hNames ▸ List.mem_singleton_self _)
      revert hIn
      decide
    · refine not_roundTrips names [] (by decide) (by decide) fun r hSame hNames => ?_
      have hIn : ['a'] ∈ r.names := hSame.mem_names.mpr (by decide)
      rw [hNames] at hIn
      cases hIn

theorem oneEntry_roundTrips : WellFormed oneEntry ∧ RoundTrips oneEntry := by
  have h : WellFormed oneEntry := by
    refine throughout_of_leaves ⟨by decide, by decide, by decide, ⟨by decide, by decide⟩, by decide⟩ fun c hc => ?_
    have hLeaf : ∀ data, WellFormedNode (leaf data) := fun data =>
      { hasData := Option.some_ne_none data
        table := List.nodup_nil
        noSlash := by simp [leaf, DataTree.names, DataTree.children]
        ordered := (new_ordered (some data) 0).here
        named := List.not_mem_nil }
    simp only [oneEntry, DataTree.children, List.mem_cons, List.not_mem_nil, or_false] at hc
    rcases hc with rfl | rfl
    · exact ⟨hLeaf 2, rfl⟩
    · exact ⟨hLeaf 3, rfl⟩
  exact ⟨h, wellFormed_roundTrips oneEntry h⟩

end SessionTree

end BeShare.Muscle.Reflect
