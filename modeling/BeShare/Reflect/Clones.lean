import BeShare.Reflect.NodePaths

/-!
`CloneDataNodeSubtree` over the tree of the whole server, without a limit on the number of nodes: the clones are made in
the tree that is walked.
-/

namespace BeShare.Muscle.Reflect

open BeShare.Lib DataTree

variable {Msg : Type}

structure CloneFlags where
  allowOverwriteData : Bool
  allowCreateNode : Bool
  addToTargetIndex : Bool
  optInsertBefore : Option Str

/-- The flags with which a child is cloned. -/
def CloneFlags.ofChild : CloneFlags := ⟨false, true, false, none⟩

/-- What does not change while a subtree is cloned. -/
structure CloneContext (Msg : Type) where
  /-- `_sessionDir`, by its path -/
  sessionDir : Path
  blankMessage : Msg
  pooled : UInt32
  optFunc : Option (Option Msg → Option Msg)

namespace DataTree

def hasChildAt (root : DataTree Msg) (node : Path) (name : Str) : Bool :=
  (node? node root).any fun t => t.hasChild name

def namesAt (root : DataTree Msg) (node : Path) : List Str :=
  ((node? node root).map names).getD []

def indexAt (root : DataTree Msg) (node : Path) : List Str :=
  ((node? node root).map orderedIndex).getD []

end DataTree

/-- The loop over the children. The iterator comes to children that are put while it runs, too. -/
def cloneChildren (clone : Path → Str → DataTree Msg → Option (DataTree Msg × Bool)) (node : Path) (destPath : Str) :
    Nat → Nat → DataTree Msg → Option (DataTree Msg × Bool)
  | 0, _, _ => none
  | turns + 1, i, root =>
    match (root.namesAt node)[i]? with
    | none => some (root, true)
    | some nextChildName =>
      (clone (node ++ [nextChildName]) (destPath ++ '/' :: nextChildName) root).bind fun after =>
        if after.2 then cloneChildren clone node destPath turns (i + 1) after.1 else some after

/-- The loop over the index, for so many of its entries from one on. -/
def cloneIndex (node clone : Path) : Nat → Nat → DataTree Msg → DataTree Msg × Bool
  | 0, _, root => (root, true)
  | count + 1, i, root =>
    match (root.indexAt node)[i]?, node? clone root with
    | some key, some target =>
      if target.hasChild key ∧ i ≤ target.orderedIndex.length then
        cloneIndex node clone count (i + 1) (putAt clone (target.insertIndexEntryAt i key) root)
      else (root, false)
    | _, _ => (root, false)

namespace CloneContext

variable (ctx : CloneContext Msg)

/-- `SetDataNode`, with its status. It comes to no limit: there is room for a node at every clause. -/
def setDataNode (nodePath : Str) (data : Msg) (flags : CloneFlags) (root : DataTree Msg) : DataTree Msg × Bool :=
  ((node? ctx.sessionDir root).bind fun sessionDir =>
    SessionTree.setDataNode ⟨(splitClauses nodePath).length, ctx.blankMessage, ctx.pooled⟩ nodePath data
      flags.allowOverwriteData flags.allowCreateNode flags.addToTargetIndex flags.optInsertBefore ⟨sessionDir, 0⟩).elim
    (root, false) fun after => (putAt ctx.sessionDir after.sessionDir root, true)

/-- The end of `CloneDataNodeSubtree`. An index without entries is taken for none. -/
def cloneIndexOf (node : Path) (destPath : Str) (root : DataTree Msg) : DataTree Msg × Bool :=
  if root.indexAt node = [] then (root, true)
  else
    (getDataNode root.hasChildAt (some ctx.sessionDir) destPath).elim (root, false) fun clone =>
      cloneIndex node clone (root.indexAt node).length 0 root

/-- What is behind the first call of `SetDataNode`. -/
def cloneBelow (clone : Path → Str → DataTree Msg → Option (DataTree Msg × Bool)) (turns : Nat) (node : Path)
    (destPath : Str) (root : DataTree Msg) : Option (DataTree Msg × Bool) :=
  (cloneChildren clone node destPath turns 0 root).map fun after =>
    if after.2 then ctx.cloneIndexOf node destPath after.1 else after

/-- `CloneDataNodeSubtree`, as far as it comes in so many steps -/
def cloneDataNodeSubtree : Nat → CloneFlags → Path → Str → DataTree Msg → Option (DataTree Msg × Bool)
  | 0, _, _, _, _ => none
  | steps + 1, flags, node, destPath, root =>
    match ctx.optFunc.getD id ((node? node root).bind data) with
    | none => some (root, false)
    | some payload =>
      let after := ctx.setDataNode destPath payload flags root
      if after.2 then
        ctx.cloneBelow (cloneDataNodeSubtree steps .ofChild) steps node destPath after.1
      else some after

end CloneContext

/-! ### Nodes at paths -/

namespace DataTree

variable {t x y : DataTree Msg} {name : Str} {p q : Path}

theorem node?_append : node? (p ++ q) t = (node? p t).bind (node? q) := by
  induction p generalizing t with
  | nil => rfl
  | cons name rest ih =>
    rw [List.cons_append, node?_cons, node?_cons, Option.bind_assoc]
    exact congrArg _ (funext fun child => ih)

theorem node?_putAt_append (h : node? p t = some x) (q : Path) : node? (p ++ q) (putAt p y t) = node? q y := by
  rw [node?_append, node?_putAt h, Option.bind_some]

theorem putAt_append (h : node? p t = some x) (q : Path) : putAt (p ++ q) y t = putAt p (putAt q y x) t := by
  induction p generalizing t with
  | nil =>
    cases h
    rfl
  | cons name rest ih =>
    obtain ⟨child, hChild, hRest⟩ := Option.bind_eq_some_iff.mp h
    rw [List.cons_append, putAt_cons hChild, putAt_cons hChild, ih hRest]

theorem putAt_cons_none {rest : Path} (h : t.child? name = none) : putAt (name :: rest) y t = t := by
  rw [putAt, h]

/-- What is neither above nor below stays. -/
theorem node?_putAt_apart (hpq : ¬p <+: q) (hqp : ¬q <+: p) : node? q (putAt p y t) = node? q t := by
  induction p generalizing q t with
  | nil => exact absurd (List.nil_prefix) hpq
  | cons name rest ih =>
    cases q with
    | nil => exact absurd (List.nil_prefix) hqp
    | cons key more =>
      cases hChild : t.child? name with
      | none => rw [putAt_cons_none hChild]
      | some child =>
        rw [putAt_cons hChild, node?_cons, node?_cons]
        by_cases hSame : key = name
        · subst hSame
          rw [child?_putChild_self, hChild]
          exact ih (fun h => hpq (List.prefix_cons_inj key |>.mpr h)) fun h => hqp (List.prefix_cons_inj key |>.mpr h)
        · rw [child?_putChild_ne hSame]

/-- Below another node only that child is changed that leads to it. -/
theorem fields_putAt_cons (name : Str) (rest : Path) (y t : DataTree Msg) :
    (putAt (name :: rest) y t).data = t.data ∧ (putAt (name :: rest) y t).names = t.names ∧
      (putAt (name :: rest) y t).orderedIndex = t.orderedIndex ∧
      ∀ key, key ≠ name → (putAt (name :: rest) y t).child? key = t.child? key := by
  cases hChild : t.child? name with
  | none =>
    rw [putAt_cons_none hChild]
    exact ⟨rfl, rfl, rfl, fun _ _ => rfl⟩
  | some child =>
    rw [putAt_cons hChild]
    refine ⟨by cases t; rfl, ?_, orderedIndex_putChild, fun key hKey => child?_putChild_ne hKey⟩
    have hHas : t.hasChild name = true := decide_eq_true (by
      by_contra hNot
      rw [child?_eq_none.mpr hNot] at hChild
      cases hChild)
    rw [names_putChild, if_pos hHas]

/-! ### Trees in order -/

/-- What the tables, the paths and the functions of the index keep: a node has data, no two children of it have one
name, no name has a slash, and the entries of the index are children. -/
structure SoundNode (t : DataTree Msg) : Prop where
  hasData : t.data ≠ none
  table : t.Table
  noSlash : ∀ name ∈ t.names, '/' ∉ name
  current : ∀ entry ∈ t.orderedIndex, entry ∈ t.names

def Sound (t : DataTree Msg) : Prop :=
  Throughout Inside SoundNode t

theorem mem_names_of_child? {child : DataTree Msg} (h : t.child? name = some child) : name ∈ t.names := by
  by_contra hNot
  rw [child?_eq_none.mpr hNot] at h
  cases h

theorem sound_new (data : Msg) (pooled : UInt32) : Sound (new (some data) pooled) := by
  refine .intro _ ⟨Option.some_ne_none data, List.nodup_nil, fun _ h => absurd h List.not_mem_nil,
    fun _ h => absurd h List.not_mem_nil⟩ ?_
  rintro child ⟨_, hIn⟩
  exact absurd hIn List.not_mem_nil

theorem Sound.putChild (h : Sound t) {child : DataTree Msg} (hChild : Sound child) (hName : '/' ∉ name) :
    Sound (t.putChild name child) := by
  refine .intro _ ⟨?_, table_putChild h.here.table, fun key hKey => ?_, fun entry hEntry => ?_⟩ fun other hOther => ?_
  · have hData : (t.putChild name child).data = t.data := by
      cases t
      rfl
    rw [hData]
    exact h.here.hasData
  · rcases mem_names_putChild.mp hKey with rfl | hOld
    · exact hName
    · exact h.here.noSlash key hOld
  · rw [orderedIndex_putChild] at hEntry
    exact mem_names_putChild.mpr (.inr (h.here.current entry hEntry))
  · rcases inside_putChild hOther with rfl | hOld
    · exact hChild
    · exact h.item hOld

theorem Sound.node? (h : Sound t) (hNode : node? p t = some x) : Sound x := by
  induction p generalizing t with
  | nil =>
    cases hNode
    exact h
  | cons name rest ih =>
    obtain ⟨child, hChild, hRest⟩ := Option.bind_eq_some_iff.mp hNode
    exact ih (h.item (inside_of_child? hChild)) hRest

theorem Sound.putAt (h : Sound t) (hy : Sound y) (p : Path) : Sound (putAt p y t) := by
  induction p generalizing t with
  | nil => exact hy
  | cons name rest ih =>
    cases hChild : t.child? name with
    | none =>
      rw [putAt_cons_none hChild]
      exact h
    | some child =>
      rw [putAt_cons hChild]
      exact h.putChild (ih (h.item (inside_of_child? hChild))) (h.here.noSlash name (mem_names_of_child? hChild))

theorem Sound.setData (h : Sound t) (data : Msg) : Sound (t.setData (some data)) := by
  cases t with
  | mk old children index counter =>
    refine .intro _ ⟨Option.some_ne_none data, h.here.table, h.here.noSlash, h.here.current⟩ ?_
    rintro child ⟨name, hIn⟩
    exact h.item ⟨name, hIn⟩

theorem Sound.setIndex (h : Sound t) {index : List Str} (hIndex : ∀ entry ∈ index, entry ∈ t.names) :
    Sound (t.setIndex index) := by
  cases t with
  | mk data children old counter =>
    refine .intro _ ⟨h.here.hasData, h.here.table, h.here.noSlash, hIndex⟩ ?_
    rintro child ⟨name, hIn⟩
    exact h.item ⟨name, hIn⟩

/-! ### Copies -/

mutual

/-- The same node again, made of new nodes. -/
def copy (pooled : UInt32) : DataTree Msg → DataTree Msg
  | mk data children index _ => mk data (copies pooled children) index pooled

def copies (pooled : UInt32) : List (Str × DataTree Msg) → List (Str × DataTree Msg)
  | [] => []
  | (name, child) :: rest => (name, copy pooled child) :: copies pooled rest

end

theorem copies_eq_map (pooled : UInt32) (cs : List (Str × DataTree Msg)) :
    copies pooled cs = cs.map fun c => (c.1, c.2.copy pooled) := by
  induction cs with
  | nil => rfl
  | cons c rest ih =>
    rw [copies, ih]
    rfl

theorem copy_eq (pooled : UInt32) (t : DataTree Msg) :
    t.copy pooled = mk t.data (t.children.map fun c => (c.1, c.2.copy pooled)) t.orderedIndex pooled := by
  cases t
  rw [copy, copies_eq_map]
  rfl

theorem names_copy (pooled : UInt32) (t : DataTree Msg) : (t.copy pooled).names = t.names := by
  rw [copy_eq, names, names, children, List.map_map]
  rfl

theorem Sound.copy {pooled : UInt32} (h : Sound t) : Sound (t.copy pooled) := by
  induction t using DataTree.induct with
  | h t ih =>
    have hNames := names_copy pooled t
    rw [copy_eq] at hNames ⊢
    refine .intro _ ⟨h.here.hasData, ?_, ?_, ?_⟩ ?_
    · rw [Table, hNames]
      exact h.here.table
    · rw [hNames]
      exact h.here.noSlash
    · rw [hNames]
      exact h.here.current
    · rintro child ⟨name, hIn⟩
      obtain ⟨⟨key, old⟩, hOld, hSame⟩ := List.mem_map.mp hIn
      cases hSame
      exact ih old ⟨key, hOld⟩ (h.item ⟨key, hOld⟩)

end DataTree

/-! ### `SetDataNode` -/

/-- The nodes that are made for the clauses of a path that lead to nothing yet. -/
def CloneContext.chain (ctx : CloneContext Msg) (data : Msg) : Path → DataTree Msg
  | [] => new (some data) ctx.pooled
  | clause :: rest => (new (some ctx.blankMessage) ctx.pooled).putChild clause (ctx.chain data rest)

namespace CloneContext

variable {ctx : CloneContext Msg} {root y z : DataTree Msg} {data : Msg} {flags : CloneFlags} {destPath name : Str}
  {p q rest : Path}

theorem sound_chain (hNames : ∀ clause ∈ rest, '/' ∉ clause) : Sound (ctx.chain data rest) := by
  induction rest with
  | nil => exact sound_new data ctx.pooled
  | cons clause rest ih =>
    obtain ⟨hClause, hRest⟩ := List.forall_mem_cons.mp hNames
    exact (sound_new ctx.blankMessage ctx.pooled).putChild (ih hRest) hClause

theorem node?_chain : node? rest (ctx.chain data rest) = some (new (some data) ctx.pooled) := by
  induction rest with
  | nil => rfl
  | cons clause rest ih =>
    rw [chain, node?_cons, child?_putChild_self]
    exact ih

theorem setDataLoop_chain {maxNodeCount count : Nat} {overwrite : Bool} {before : Option Str}
    (hNew : z.child? name = none) (hRoom : count + (name :: rest).length ≤ maxNodeCount) :
    SessionTree.setDataLoop ⟨maxNodeCount, ctx.blankMessage, ctx.pooled⟩ data overwrite true false before
      (name :: rest) z count = some (z.putChild name (ctx.chain data rest), count + (name :: rest).length) := by
  induction rest generalizing z name count with
  | nil =>
    rw [SessionTree.setDataLoop, hNew]
    dsimp only
    rw [if_pos ⟨rfl, hRoom⟩, if_pos rfl, if_neg Bool.false_ne_true]
    rfl
  | cons next rest ih =>
    have hMore : count + 1 + (next :: rest).length ≤ maxNodeCount := by
      rw [List.length_cons] at hRoom
      omega
    rw [SessionTree.setDataLoop, hNew]
    dsimp only
    rw [if_pos ⟨rfl, by rw [List.length_cons] at hRoom; omega⟩, if_neg (List.cons_ne_nil _ _),
      ih (z := new (some ctx.blankMessage) ctx.pooled) rfl hMore, Option.map_some, List.length_cons (a := name),
      Nat.add_assoc, Nat.add_comm 1]
    rfl

theorem setDataNode_eq {sessionDir : DataTree Msg} (hPath : SessionTree.IsPath destPath p)
    (hDir : node? ctx.sessionDir root = some sessionDir) : ctx.setDataNode destPath data flags root =
      (SessionTree.setDataLoop ⟨p.length, ctx.blankMessage, ctx.pooled⟩ data flags.allowOverwriteData
        flags.allowCreateNode flags.addToTargetIndex flags.optInsertBefore p sessionDir 0).elim (root, false)
          fun after => (putAt ctx.sessionDir after.1 root, true) := by
  rw [setDataNode, hDir, Option.bind_some, SessionTree.setDataNode, hPath.clauses,
    if_neg (not_or.mpr ⟨hPath.notEmpty, hPath.relative⟩)]
  cases SessionTree.setDataLoop ⟨p.length, ctx.blankMessage, ctx.pooled⟩ data flags.allowOverwriteData
    flags.allowCreateNode flags.addToTargetIndex flags.optInsertBefore p sessionDir 0 <;> rfl

/-- The nodes that are not there yet are put below the last one that is. -/
theorem setDataNode_new (hPath : SessionTree.IsPath destPath (q ++ name :: rest))
    (hNode : node? (ctx.sessionDir ++ q) root = some z) (hNew : z.child? name = none)
    (hCreate : flags.allowCreateNode = true) (hIndex : flags.addToTargetIndex = false) :
    ctx.setDataNode destPath data flags root =
      (putAt (ctx.sessionDir ++ q) (z.putChild name (ctx.chain data rest)) root, true) := by
  rw [node?_append] at hNode
  obtain ⟨sessionDir, hDir, hBelow⟩ := Option.bind_eq_some_iff.mp hNode
  have hRoom : 0 + (name :: rest).length ≤ (q ++ name :: rest).length := by
    rw [List.length_append]
    omega
  rw [setDataNode_eq hPath hDir, SessionTree.setDataLoop_append hBelow (List.cons_ne_nil _ _), hCreate, hIndex,
    setDataLoop_chain hNew hRoom, putAt_append hDir]
  rfl

theorem setDataNode_there (hPath : SessionTree.IsPath destPath p) (hNode : node? (ctx.sessionDir ++ p) root = some z)
    (hIndex : flags.addToTargetIndex = false) : ctx.setDataNode destPath data flags root =
      if flags.allowOverwriteData = true then (putAt (ctx.sessionDir ++ p) (z.setData (some data)) root, true)
      else (root, false) := by
  have hSome : p ≠ [] := hPath.clauses ▸ splitClauses_ne_nil destPath
  obtain ⟨front, last, rfl⟩ := List.eq_nil_or_concat p |>.resolve_left hSome
  rw [List.concat_eq_append, node?_append] at hNode
  obtain ⟨sessionDir, hDir, hBelow⟩ := Option.bind_eq_some_iff.mp hNode
  rw [node?_append] at hBelow
  obtain ⟨parent, hParent, hLast⟩ := Option.bind_eq_some_iff.mp hBelow
  have hChild : parent.child? last = some z := by
    rw [node?_cons] at hLast
    obtain ⟨child, hChild, hSame⟩ := Option.bind_eq_some_iff.mp hLast
    cases hSame
    exact hChild
  rw [List.concat_eq_append] at hPath ⊢
  rw [setDataNode_eq hPath hDir, SessionTree.setDataLoop_append hParent (List.cons_ne_nil _ _), SessionTree.setDataLoop,
    hChild]
  dsimp only
  rw [if_pos rfl, hIndex, if_neg Bool.false_ne_true]
  split
  · rw [putAt_append hDir, putAt_concat hParent hChild]
    rfl
  · rfl

theorem setDataNode_missing (hPath : SessionTree.IsPath destPath (q ++ name :: rest))
    (hNode : node? (ctx.sessionDir ++ q) root = some z) (hNew : z.child? name = none)
    (hCreate : flags.allowCreateNode = false) : ctx.setDataNode destPath data flags root = (root, false) := by
  rw [node?_append] at hNode
  obtain ⟨sessionDir, hDir, hBelow⟩ := Option.bind_eq_some_iff.mp hNode
  rw [setDataNode_eq hPath hDir, SessionTree.setDataLoop_append hBelow (List.cons_ne_nil _ _), SessionTree.setDataLoop,
    hNew]
  dsimp only
  rw [if_neg (by rw [hCreate]; exact fun h => Bool.false_ne_true h.1)]
  rfl

end CloneContext

end BeShare.Muscle.Reflect
