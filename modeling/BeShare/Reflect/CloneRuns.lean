import BeShare.Reflect.Clones

/-!
When `CloneDataNodeSubtree` comes to an end, and that the clone of a subtree is the same again: the walk goes on for
ever exactly if it comes to the nodes that it has made itself.
-/

namespace BeShare.Muscle.Reflect

open BeShare.Lib DataTree

variable {Msg : Type}

namespace DataTree

variable {t x y r : DataTree Msg} {name : Str} {p q : Path}

/-! ### Trees that grow -/

theorem putChild_self (hTable : t.Table) (h : t.child? name = some x) : t.putChild name x = t := by
  have hHas : t.hasChild name = true := decide_eq_true (mem_names_of_child? h)
  obtain ⟨found, hFound, rfl⟩ := Option.map_eq_some_iff.mp h
  obtain rfl : found.1 = name := by simpa using List.find?_some hFound
  rw [putChild, if_pos hHas]
  have hMap : (t.children.map fun old => if old.1 = found.1 then (found.1, found.2) else old) = t.children := by
    refine (List.map_congr_left fun old hOld => ?_).trans (List.map_id _)
    show (if old.1 = found.1 then (found.1, found.2) else old) = old
    split
    next hSame =>
      exact List.inj_on_of_nodup_map hTable (List.mem_of_find?_eq_some hFound) hOld hSame.symm
    next => rfl
  rw [hMap]
  cases t
  rfl

theorem putAt_self (h : Sound t) (hNode : node? p t = some x) : putAt p x t = t := by
  induction p generalizing t with
  | nil => exact (Option.some.inj hNode).symm
  | cons name rest ih =>
    obtain ⟨child, hChild, hRest⟩ := Option.bind_eq_some_iff.mp hNode
    rw [putAt_cons hChild, ih (h.item (inside_of_child? hChild)) hRest, putChild_self h.here.table hChild]

/-- A new child leaves the nodes alone that it is not below of. -/
theorem node?_grown (hNode : node? p t = some y) (hNew : y.child? name = none) (hq : node? q t = some x)
    (hNot : ¬q <+: p) : node? q (putAt p (y.putChild name r) t) = some x := by
  by_cases hBelow : p <+: q
  · obtain ⟨w, rfl⟩ := hBelow
    cases w with
    | nil => exact absurd ⟨[], by rw [List.append_nil, List.append_nil]⟩ hNot
    | cons key more =>
      rw [node?_append, hNode, Option.bind_some, node?_cons] at hq
      have hOther : key ≠ name := by
        rintro rfl
        rw [hNew] at hq
        cases hq
      rw [node?_putAt_append hNode, node?_cons, child?_putChild_ne hOther]
      exact hq
  · rwa [node?_putAt_apart hBelow hNot]

/-- A node keeps its own children when another gets a new one. -/
theorem names_grown (hNode : node? p t = some y) (hNew : y.child? name = none) (hq : node? q t = some x) (hNe : q ≠ p) :
    ∃ x', node? q (putAt p (y.putChild name r) t) = some x' ∧ x'.names = x.names := by
  by_cases hAbove : q <+: p
  · obtain ⟨w, rfl⟩ := hAbove
    cases w with
    | nil => exact absurd (List.append_nil q).symm hNe
    | cons key more =>
      refine ⟨_, ?_, (fields_putAt_cons key more (y.putChild name r) x).2.1⟩
      rw [putAt_append hq, node?_putAt hq]
  · exact ⟨x, node?_grown hNode hNew hq hAbove, rfl⟩

/-- A node with copies of these for children, too. -/
def withCopies (pooled : UInt32) (y : DataTree Msg) (cs : List (Str × DataTree Msg)) : DataTree Msg :=
  cs.foldl (fun y c => y.putChild c.1 (c.2.copy pooled)) y

theorem child?_withCopies {pooled : UInt32} {cs : List (Str × DataTree Msg)} (hNew : y.child? name = none)
    (hOther : name ∉ cs.map Prod.fst) : (y.withCopies pooled cs).child? name = none := by
  induction cs generalizing y with
  | nil => exact hNew
  | cons c rest ih =>
    rw [List.map_cons, List.mem_cons, not_or] at hOther
    exact ih ((child?_putChild_ne hOther.1).trans hNew) hOther.2

/-- New children come in the order in which they are put. -/
theorem withCopies_eq {pooled : UInt32} {data : Option Msg} {index : List Str} {counter : UInt32}
    {old cs : List (Str × DataTree Msg)} (hNew : (old.map Prod.fst ++ cs.map Prod.fst).Nodup) :
    (mk data old index counter).withCopies pooled cs =
      mk data (old ++ cs.map fun c => (c.1, c.2.copy pooled)) index counter := by
  induction cs generalizing old with
  | nil => rw [List.map_nil, List.append_nil]; rfl
  | cons c rest ih =>
    have hFresh : ¬(mk data old index counter).hasChild c.1 = true := by
      intro hHas
      have hIn : c.1 ∈ old.map Prod.fst := of_decide_eq_true hHas
      exact List.disjoint_of_nodup_append hNew hIn (List.mem_cons_self ..)
    have hPut : (mk data old index counter).putChild c.1 (c.2.copy pooled) =
        mk data (old ++ [(c.1, c.2.copy pooled)]) index counter := by
      rw [DataTree.putChild, if_neg hFresh]
      rfl
    show ((mk data old index counter).putChild c.1 (c.2.copy pooled)).withCopies pooled rest = _
    rw [hPut, ih, List.append_assoc]
    · rfl
    · rw [List.map_append, List.append_assoc]
      exact hNew

theorem length_le_sizes (cs : List (Str × DataTree Msg)) : cs.length ≤ sizes cs := by
  induction cs with
  | nil => exact Nat.zero_le _
  | cons c rest ih =>
    rw [sizes, List.length_cons, size_eq]
    omega

theorem size_le_sizes {cs : List (Str × DataTree Msg)} {c : Str × DataTree Msg} (h : c ∈ cs) :
    c.2.size ≤ sizes cs := by
  induction cs with
  | nil => cases h
  | cons first rest ih =>
    rw [sizes]
    rcases List.mem_cons.mp h with rfl | hRest
    · exact Nat.le_add_right ..
    · exact Nat.le_trans (ih hRest) (Nat.le_add_left ..)

end DataTree

theorem SessionTree.IsPath.slash {path name : Str} {p : Path} (h : IsPath path p) (hName : '/' ∉ name) :
    IsPath (path ++ '/' :: name) (p ++ [name]) := by
  have hChild := h.child hName
  rwa [childPath, if_neg h.notEmpty] at hChild

/-- The way on from the child that leads to the place: it goes round once more. -/
theorem next_turn {node D w : Path} {c : Str} (h : D = node ++ c :: w) :
    node ++ [c] <+: D ∧ ∃ c' w', D ++ [c] = node ++ [c] ++ c' :: w' := by
  obtain ⟨c', w', hNext⟩ := List.exists_cons_of_ne_nil (List.append_ne_nil_of_right_ne_nil w (List.cons_ne_nil c []))
  refine ⟨⟨w, ?_⟩, c', w', ?_⟩
  · rw [h, List.append_assoc]
    rfl
  · rw [← hNext, h]
    simp only [List.append_assoc, List.cons_append, List.nil_append]

/-! ### The index -/

variable {root t u y : DataTree Msg} {node D : Path}

theorem hasChildAt_iff {name : Str} :
    root.hasChildAt node name = true ↔ (node? (node ++ [name]) root).isSome = true := by
  rw [hasChildAt, node?_append, Option.any_eq_true]
  constructor
  · rintro ⟨t, ht, hHas⟩
    rw [ht, Option.bind_some, node?_cons]
    cases hChild : t.child? name with
    | none => exact absurd (of_decide_eq_true hHas) (child?_eq_none.mp hChild)
    | some child => rfl
  · intro hSome
    obtain ⟨child, hChild⟩ := Option.isSome_iff_exists.mp hSome
    obtain ⟨t, ht, hBelow⟩ := Option.bind_eq_some_iff.mp hChild
    obtain ⟨c, hc, -⟩ := Option.bind_eq_some_iff.mp hBelow
    exact ⟨t, ht, decide_eq_true (mem_names_of_child? hc)⟩

theorem CloneContext.getDataNode_eq {ctx : CloneContext Msg} {destPath : Str} {p : Path}
    (hPath : SessionTree.IsPath destPath p) (hNode : node? (ctx.sessionDir ++ p) root = some t) :
    getDataNode root.hasChildAt (some ctx.sessionDir) destPath = some (ctx.sessionDir ++ p) := by
  have hParent : ∀ (q : Path) (name : Str),
      (node? (q ++ [name]) root).isSome = true → (node? q root).isSome = true := by
    intro q name hChild
    rw [node?_append] at hChild
    obtain ⟨child, hBoth⟩ := Option.isSome_iff_exists.mp hChild
    obtain ⟨parent, hParent, -⟩ := Option.bind_eq_some_iff.mp hBoth
    exact Option.isSome_iff_exists.mpr ⟨parent, hParent⟩
  have hSome : p ≠ [] := hPath.clauses ▸ splitClauses_ne_nil destPath
  rw [getDataNode_relative _ _ hPath.notEmpty hPath.relative, hPath.clauses,
    @walk_eq root.hasChildAt (fun q => (node? q root).isSome = true) _ (fun _ _ => hasChildAt_iff) hParent p hSome,
    if_pos (by rw [hNode]; rfl)]

/-- Induction on the entries that are left: those before are there. -/
theorem cloneIndex_eq {index : List Str} (hSound : Sound root) (hSource : node? node root = some u)
    (hIndex : u.orderedIndex = index) (hClone : node? D root = some t) (hNames : ∀ entry ∈ index, entry ∈ t.names)
    (hNot : ¬node <+: D) (hNot' : ¬D <+: node) {count i : Nat} (hCount : i + count = index.length)
    (hDone : t.orderedIndex = index.take i) :
    cloneIndex node D count i root = (putAt D (t.setIndex index) root, true) := by
  induction count generalizing i root t with
  | zero =>
    have hAll : t.setIndex index = t := by
      rw [List.take_of_length_le (by omega)] at hDone
      rw [← hDone]
      cases t
      rfl
    rw [cloneIndex, hAll, putAt_self hSound hClone]
  | succ count ih =>
    have hInside : i < index.length := by omega
    have hKey : (root.indexAt node)[i]? = some index[i] := by
      rw [indexAt, hSource, Option.map_some, Option.getD_some, hIndex]
      exact List.getElem?_eq_getElem hInside
    have hLength : t.orderedIndex.length = i := by
      rw [hDone, List.length_take, Nat.min_eq_left (by omega)]
    have hHas : t.hasChild index[i] = true := decide_eq_true (hNames _ (List.getElem_mem _))
    have hInsert : t.insertIndexEntryAt i index[i] = t.setIndex (index.take (i + 1)) := by
      have hEnd := List.insertIdx_length_self (l := t.orderedIndex) (x := index[i])
      rw [hLength] at hEnd
      rw [insertIndexEntryAt, if_pos ⟨hHas, by omega⟩, hEnd, hDone, List.take_append_getElem]
    have hCurrent : Sound (t.setIndex (index.take (i + 1))) :=
      (hSound.node? hClone).setIndex fun entry hEntry => hNames entry (List.mem_of_mem_take hEntry)
    rw [cloneIndex, hKey, hClone]
    dsimp only
    rw [if_pos ⟨hHas, by omega⟩, hInsert, ih (hSound.putAt hCurrent D) ?_ (node?_putAt hClone) ?_ (by omega)
      orderedIndex_setIndex, putAt_putAt hClone]
    · cases t
      rfl
    · rw [node?_putAt_apart hNot' hNot]
      exact hSource
    · intro entry hEntry
      rw [names_setIndex]
      exact hNames entry hEntry

/-! ### Copying -/

section Loop

variable {clone : Path → Str → DataTree Msg → Option (DataTree Msg × Bool)} {destPath : Str} {pooled : UInt32}

/-- `c` is a child of the node, and not above or at the clone. -/
structure Aside (root : DataTree Msg) (node D : Path) (c : Str × DataTree Msg) : Prop where
  child : node? (node ++ [c.1]) root = some c.2
  apart : ¬node ++ [c.1] <+: D

/-- The clone of the child is another child of the clone of its parent. -/
def ClonesTo (clone : Path → Str → DataTree Msg → Option (DataTree Msg × Bool)) (node D : Path) (destPath : Str)
    (pooled : UInt32) (c : Str × DataTree Msg) (root y : DataTree Msg) : Prop :=
  clone (node ++ [c.1]) (destPath ++ '/' :: c.1) root = some (putAt D (y.putChild c.1 (c.2.copy pooled)) root, true)

theorem Aside.grown {c c' : Str × DataTree Msg} (h : Aside root node D c) (hClone : node? D root = some y)
    (hNew : y.child? c'.1 = none) : Aside (putAt D (y.putChild c'.1 r) root) node D c :=
  ⟨node?_grown hClone hNew h.child h.apart, h.apart⟩

theorem mem_namesAt {name : Str} (h : node? node root = some u) : name ∈ root.namesAt node ↔ name ∈ u.names := by
  rw [namesAt, h]
  rfl

theorem namesAt_getElem? {pre : List (Str × DataTree Msg)} {c : Str × DataTree Msg} {post : List Str} {i : Nat}
    (h : (root.namesAt node).drop i = (c :: pre).map Prod.fst ++ post) :
    (root.namesAt node)[i]? = some c.1 ∧ (root.namesAt node).drop (i + 1) = pre.map Prod.fst ++ post := by
  refine ⟨?_, ?_⟩
  · have hHead := congrArg List.head? h
    rwa [List.head?_drop] at hHead
  · rw [← List.tail_drop, h]
    rfl

/-- The loop passes so many children from one on, and none of their clones fails. -/
inductive Passes (clone : Path → Str → DataTree Msg → Option (DataTree Msg × Bool)) (node : Path) (destPath : Str) :
    Nat → Nat → DataTree Msg → DataTree Msg → Prop
  | refl (i : Nat) (root : DataTree Msg) : Passes clone node destPath 0 i root root
  | step {count i : Nat} {name : Str} {root root' root'' : DataTree Msg} :
      (root.namesAt node)[i]? = some name →
      clone (node ++ [name]) (destPath ++ '/' :: name) root = some (root', true) →
      Passes clone node destPath count (i + 1) root' root'' → Passes clone node destPath (count + 1) i root root''

theorem Passes.goesOn {count i : Nat} {root' : DataTree Msg} (h : Passes clone node destPath count i root root')
    (turns : Nat) : cloneChildren clone node destPath (turns + count) i root =
      cloneChildren clone node destPath turns (i + count) root' := by
  induction h with
  | refl i root => rfl
  | step hName hClone _ ih =>
    rw [← Nat.add_assoc, cloneChildren, hName]
    dsimp only
    rw [hClone, Option.bind_some, if_pos rfl, ih, Nat.add_right_comm, Nat.add_assoc]

/-- A loop that comes to its end comes by there, even if its calls are given fewer steps. -/
theorem Passes.comesBy {fewer : Path → Str → DataTree Msg → Option (DataTree Msg × Bool)} {count i turns : Nat}
    {root' : DataTree Msg} {result : DataTree Msg × Bool} (h : Passes clone node destPath count i root root')
    (hFewer : ∀ p path t after, fewer p path t = some after → clone p path t = some after)
    (hEnds : cloneChildren fewer node destPath turns i root = some result) :
    ∃ turns', cloneChildren fewer node destPath turns' (i + count) root' = some result := by
  induction h generalizing turns with
  | refl i root => exact ⟨turns, hEnds⟩
  | step hName hClone _ ih =>
    cases turns with
    | zero => cases hEnds
    | succ turns =>
      rw [cloneChildren, hName] at hEnds
      obtain ⟨after, hAfter, hRest⟩ := Option.bind_eq_some_iff.mp hEnds
      have hSame := hFewer _ _ _ _ hAfter
      rw [hClone] at hSame
      cases hSame
      rw [if_pos rfl] at hRest
      obtain ⟨turns', hMore⟩ := ih hRest
      exact ⟨turns', by rwa [← Nat.add_assoc, Nat.add_right_comm]⟩

/-- Induction on the children: a part of them is cloned into a node that has none of their names. -/
theorem passes {pre : List (Str × DataTree Msg)} {post : List Str} {i : Nat}
    (hNames : (root.namesAt node).drop i = pre.map Prod.fst ++ post) (hSource : node? node root = some u)
    (hNe : node ≠ D) (hClone : node? D root = some y) (hAside : ∀ c ∈ pre, Aside root node D c)
    (hNew : ∀ c ∈ pre, y.child? c.1 = none) (hDistinct : (pre.map Prod.fst).Nodup)
    (hStep : ∀ c ∈ pre, ∀ root y, Sound root → Aside root node D c → node? D root = some y → y.child? c.1 = none →
      ClonesTo clone node D destPath pooled c root y) (hSound : Sound root) :
    Passes clone node destPath pre.length i root (putAt D (y.withCopies pooled pre) root) := by
  induction pre generalizing i root y u with
  | nil =>
    show Passes clone node destPath 0 i root (putAt D y root)
    rw [putAt_self hSound hClone]
    exact .refl i root
  | cons c pre ih =>
    obtain ⟨hHere, hLater⟩ := namesAt_getElem? hNames
    obtain ⟨hc, hPre⟩ := List.forall_mem_cons.mp hAside
    obtain ⟨hcNew, hPreNew⟩ := List.forall_mem_cons.mp hNew
    obtain ⟨hcDistinct, hPreDistinct⟩ := List.nodup_cons.mp hDistinct
    obtain ⟨u', hSource', hSame⟩ := @names_grown Msg root u y (c.2.copy pooled) c.1 D node hClone hcNew hSource hNe
    have hSourceNames : (putAt D (y.putChild c.1 (c.2.copy pooled)) root).namesAt node = root.namesAt node := by
      rw [namesAt, namesAt, hSource, hSource', Option.map_some, Option.map_some, hSame]
    have hName : c.1 ∈ u.names := (mem_namesAt hSource).mp (List.mem_of_getElem? hHere)
    have hGrown : Sound (y.putChild c.1 (c.2.copy pooled)) :=
      (hSound.node? hClone).putChild (hSound.node? hc.child).copy ((hSound.node? hSource).here.noSlash c.1 hName)
    have hRest := ih (by rw [hSourceNames]; exact hLater) hSource' (node?_putAt hClone)
      (fun other hOther => (hPre other hOther).grown hClone hcNew) (fun other hOther => ?_) hPreDistinct
      (fun other hOther => hStep other (List.mem_cons_of_mem _ hOther)) (hSound.putAt hGrown D)
    · rw [putAt_putAt hClone] at hRest
      exact .step hHere (hStep c (List.mem_cons_self ..) root y hSound hc hClone hcNew) hRest
    · rw [child?_putChild_ne fun hTwice : other.1 = c.1 => hcDistinct (hTwice ▸ List.mem_map_of_mem hOther)]
      exact hPreNew other hOther

theorem cloneChildren_end {i turns : Nat} (h : (root.namesAt node)[i]? = none) :
    cloneChildren clone node destPath (turns + 1) i root = some (root, true) := by
  rw [cloneChildren, h]

theorem noSlash_of_child {name : Str} {child : DataTree Msg} (hSound : Sound root)
    (hChild : node? (node ++ [name]) root = some child) : '/' ∉ name := by
  rw [node?_append] at hChild
  obtain ⟨parent, hParent, hBelow⟩ := Option.bind_eq_some_iff.mp hChild
  obtain ⟨child, hNamed, -⟩ := Option.bind_eq_some_iff.mp hBelow
  exact (hSound.node? hParent).here.noSlash _ (mem_names_of_child? hNamed)

theorem node?_above {q r : Path} (h : q <+: r) (hr : (node? r root).isSome = true) :
    (node? q root).isSome = true := by
  obtain ⟨w, rfl⟩ := h
  rw [node?_append] at hr
  obtain ⟨x, hx⟩ := Option.isSome_iff_exists.mp hr
  obtain ⟨y, hy, -⟩ := Option.bind_eq_some_iff.mp hx
  exact Option.isSome_iff_exists.mpr ⟨y, hy⟩

/-- A child that does not lead to the clone, and the place for its clone, are apart. -/
theorem Aside.apartNew {c : Str × DataTree Msg} (h : Aside root node D c) (hClone : node? D root = some y)
    (hNew : y.child? c.1 = none) : ¬node ++ [c.1] <+: D ++ [c.1] ∧ ¬D ++ [c.1] <+: node ++ [c.1] := by
  have hNone : node? (D ++ [c.1]) root = none := (node?_concat hClone).trans hNew
  constructor
  · intro hAbove
    rcases List.prefix_concat_iff.mp hAbove with hSame | hAbove
    · have hChild := h.child
      rw [hSame, hNone] at hChild
      cases hChild
    · exact h.apart hAbove
  · intro hBelow
    have hThere := node?_above hBelow (by rw [h.child]; rfl)
    rw [hNone] at hThere
    cases hThere

end Loop

namespace CloneContext

variable {ctx : CloneContext Msg} {destPath name : Str} {p : Path}

theorem children_aside (hSound : Sound root) (hSource : node? node root = some u) {c : Str × DataTree Msg}
    (hc : c ∈ u.children) (hApart : ¬node ++ [c.1] <+: D) : Aside root node D c :=
  ⟨(node?_concat hSource).trans (SessionTree.child?_of_mem (hSound.node? hSource).here.table hc), hApart⟩

/-- A node has data, and without a function they are the payload. -/
theorem exists_payload (hFunc : ctx.optFunc = none) (hSound : Sound root) (hSource : node? node root = some u) :
    ∃ data, u.data = some data ∧ ctx.optFunc.getD id ((node? node root).bind DataTree.data) = some data := by
  obtain ⟨data, hData⟩ := Option.ne_none_iff_exists'.mp (hSound.node? hSource).here.hasData
  refine ⟨data, hData, ?_⟩
  rw [hFunc, hSource]
  exact hData

/-- What is behind the call of `SetDataNode`, for a clone that has just been made. -/
theorem cloneBelow_new {clone : Path → Str → DataTree Msg → Option (DataTree Msg × Bool)} {turns : Nat} {data : Msg}
    (hPath : SessionTree.IsPath destPath p) (hSound : Sound root) (hSource : node? node root = some u)
    (hData : u.data = some data) (hClone : node? (ctx.sessionDir ++ p) root = some (new (some data) ctx.pooled))
    (hNot : ¬node <+: ctx.sessionDir ++ p) (hNot' : ¬ctx.sessionDir ++ p <+: node)
    (hStep : ∀ c ∈ u.children, ∀ root y, Sound root → Aside root node (ctx.sessionDir ++ p) c →
      node? (ctx.sessionDir ++ p) root = some y → y.child? c.1 = none →
      ClonesTo clone node (ctx.sessionDir ++ p) destPath ctx.pooled c root y) (hTurns : u.children.length < turns) :
    ctx.cloneBelow clone turns node destPath root =
      some (putAt (ctx.sessionDir ++ p) (u.copy ctx.pooled) root, true) := by
  have hTable := (hSound.node? hSource).here.table
  have hCopies : (new (some data) ctx.pooled).withCopies ctx.pooled u.children =
      (u.copy ctx.pooled).setIndex [] := by
    rw [copy_eq, hData]
    exact withCopies_eq hTable
  have hPasses := @passes Msg root u (new (some data) ctx.pooled) node (ctx.sessionDir ++ p) clone destPath ctx.pooled
    u.children [] 0 (by rw [namesAt, hSource, List.append_nil]; rfl) hSource
    (fun hSame => hNot (hSame ▸ List.prefix_refl _)) hClone
    (fun c hc => children_aside hSound hSource hc fun hAbove => hNot ((List.prefix_append ..).trans hAbove))
    (fun c _ => rfl) hTable hStep hSound
  rw [hCopies] at hPasses
  have hSource' : node? node (putAt (ctx.sessionDir ++ p) ((u.copy ctx.pooled).setIndex []) root) = some u := by
    rw [node?_putAt_apart hNot' hNot]
    exact hSource
  have hLoop : cloneChildren clone node destPath turns 0 root =
      some (putAt (ctx.sessionDir ++ p) ((u.copy ctx.pooled).setIndex []) root, true) := by
    obtain ⟨more, rfl⟩ := Nat.exists_eq_add_of_lt hTurns
    have hTurnsEq : u.children.length + more + 1 = more + 1 + u.children.length := by omega
    rw [hTurnsEq, hPasses.goesOn, Nat.zero_add, cloneChildren_end]
    rw [namesAt, hSource', Option.map_some, Option.getD_some, List.getElem?_eq_none_iff, names]
    exact Nat.le_of_eq (List.length_map _)
  rw [cloneBelow, hLoop, Option.map_some, if_pos rfl, cloneIndexOf, indexAt, hSource', Option.map_some,
    Option.getD_some]
  by_cases hEmpty : u.orderedIndex = []
  · have hSame : (u.copy ctx.pooled).setIndex [] = u.copy ctx.pooled := by
      rw [copy_eq, hEmpty]
      rfl
    rw [if_pos hEmpty, hSame]
  · have hTarget := node?_putAt (y := (u.copy ctx.pooled).setIndex []) hClone
    have hBlank : Sound ((u.copy ctx.pooled).setIndex []) :=
      (hSound.node? hSource).copy.setIndex fun entry hEntry => absurd hEntry List.not_mem_nil
    rw [if_neg hEmpty, getDataNode_eq hPath hTarget, Option.elim_some,
      cloneIndex_eq (hSound.putAt hBlank _) hSource' rfl hTarget ?_ hNot hNot' (Nat.zero_add _)
        (by rw [orderedIndex_setIndex]; rfl), putAt_putAt hClone]
    · rw [copy_eq]
      rfl
    · intro entry hEntry
      rw [names_setIndex, names_copy]
      exact (hSound.node? hSource).here.current entry hEntry

/-- A child that does not lead to the clone is cloned: induction on what is below it. -/
theorem clonesTo (hFunc : ctx.optFunc = none) (u : DataTree Msg) {steps : Nat} (hSteps : u.size < steps)
    (hPath : SessionTree.IsPath destPath p) (hSound : Sound root)
    (hAside : Aside root node (ctx.sessionDir ++ p) (name, u)) (hClone : node? (ctx.sessionDir ++ p) root = some y)
    (hNew : y.child? name = none) :
    ClonesTo (ctx.cloneDataNodeSubtree steps .ofChild) node (ctx.sessionDir ++ p) destPath ctx.pooled (name, u) root
      y := by
  induction u using DataTree.induct generalizing steps destPath root node p name y with
  | h u ih =>
    obtain ⟨steps, rfl⟩ := Nat.exists_eq_succ_of_ne_zero (Nat.ne_zero_of_lt hSteps)
    obtain ⟨data, hData, hPayload⟩ := exists_payload hFunc hSound hAside.child
    have hName : '/' ∉ name := noSlash_of_child hSound hAside.child
    have hChildPath := hPath.slash hName
    have hGrown : Sound (y.putChild name (new (some data) ctx.pooled)) :=
      (hSound.node? hClone).putChild (sound_new data ctx.pooled) hName
    have hAssoc : ctx.sessionDir ++ (p ++ [name]) = ctx.sessionDir ++ p ++ [name] := (List.append_assoc ..).symm
    obtain ⟨hNot, hNot'⟩ := hAside.apartNew hClone hNew
    have hMade : node? (ctx.sessionDir ++ (p ++ [name]))
        (putAt (ctx.sessionDir ++ p) (y.putChild name (new (some data) ctx.pooled)) root) =
          some (new (some data) ctx.pooled) := by
      rw [hAssoc, node?_concat (node?_putAt hClone), child?_putChild_self]
    have hMore : sizes u.children < steps := by
      rw [size_eq] at hSteps
      omega
    rw [ClonesTo, cloneDataNodeSubtree, hPayload]
    dsimp only
    rw [setDataNode_new hChildPath hClone hNew rfl rfl, if_pos rfl, chain,
      cloneBelow_new hChildPath (hSound.putAt hGrown _) (node?_grown hClone hNew hAside.child hAside.apart) hData hMade
        (hAssoc ▸ hNot) (hAssoc ▸ hNot') ?_ ?_, hAssoc, putAt_concat (node?_putAt hClone) child?_putChild_self,
      putAt_putAt hClone, putChild_putChild]
    · intro c hc t z ht hBeside hz hzNew
      have hSize : c.2.size ≤ sizes u.children := size_le_sizes hc
      exact ih c.2 ⟨c.1, hc⟩ (Nat.lt_of_le_of_lt hSize hMore) hChildPath ht hBeside hz hzNew
    · have hLength : u.children.length ≤ sizes u.children := length_le_sizes u.children
      exact Nat.lt_of_le_of_lt hLength hMore

/-! ### More steps -/

theorem cloneChildren_mono {f g : Path → Str → DataTree Msg → Option (DataTree Msg × Bool)}
    (hfg : ∀ p path t after, f p path t = some after → g p path t = some after) {turns turns' i : Nat}
    {result : DataTree Msg × Bool} (hTurns : turns ≤ turns')
    (h : cloneChildren f node destPath turns i root = some result) :
    cloneChildren g node destPath turns' i root = some result := by
  induction turns generalizing turns' i root with
  | zero => cases h
  | succ turns ih =>
    obtain ⟨more, rfl⟩ := Nat.exists_eq_succ_of_ne_zero (Nat.ne_zero_of_lt hTurns)
    rw [cloneChildren] at h ⊢
    cases hName : (root.namesAt node)[i]? with
    | none =>
      rw [hName] at h
      exact h
    | some name =>
      rw [hName] at h
      obtain ⟨after, hAfter, hRest⟩ := Option.bind_eq_some_iff.mp h
      dsimp only
      rw [hfg _ _ _ _ hAfter, Option.bind_some]
      split at hRest
      next hGood => rw [if_pos hGood, ih (Nat.le_of_succ_le_succ hTurns) hRest]
      next hBad => rw [if_neg hBad, hRest]

theorem clone_mono {steps steps' : Nat} {flags : CloneFlags} {result : DataTree Msg × Bool} (hSteps : steps ≤ steps')
    (h : ctx.cloneDataNodeSubtree steps flags node destPath root = some result) :
    ctx.cloneDataNodeSubtree steps' flags node destPath root = some result := by
  induction steps generalizing steps' flags node destPath root result with
  | zero => cases h
  | succ steps ih =>
    obtain ⟨more, rfl⟩ := Nat.exists_eq_succ_of_ne_zero (Nat.ne_zero_of_lt hSteps)
    rw [cloneDataNodeSubtree] at h ⊢
    cases hPayload : ctx.optFunc.getD id ((node? node root).bind DataTree.data) with
    | none =>
      rw [hPayload] at h
      exact h
    | some payload =>
      rw [hPayload] at h
      dsimp only at h ⊢
      split at h
      next hGood =>
        obtain ⟨after, hAfter, hIndex⟩ := Option.map_eq_some_iff.mp h
        have hFewer := Nat.le_of_succ_le_succ hSteps
        rw [if_pos hGood, cloneBelow,
          cloneChildren_mono (fun _ _ _ _ hCall => ih hFewer hCall) hFewer hAfter, Option.map_some, hIndex]
      next hBad => rw [if_neg hBad, h]

/-! ### Coming to an end -/

/-- Where the name is taken already, the clone of a child fails. -/
theorem clone_taken (hFunc : ctx.optFunc = none) (hPath : SessionTree.IsPath destPath p) (hSound : Sound root)
    {child old : DataTree Msg} (hChild : node? (node ++ [name]) root = some child)
    (hClone : node? (ctx.sessionDir ++ p) root = some y) (hOld : y.child? name = some old) (steps : Nat) :
    ctx.cloneDataNodeSubtree (steps + 1) .ofChild (node ++ [name]) (destPath ++ '/' :: name) root =
      some (root, false) := by
  have hName := noSlash_of_child hSound hChild
  obtain ⟨data, hData, hPayload⟩ := exists_payload hFunc hSound hChild
  have hChildPath := hPath.slash hName
  have hThere : node? (ctx.sessionDir ++ (p ++ [name])) root = some old := by
    rw [← List.append_assoc, node?_concat hClone, hOld]
  have hKeeps : ¬CloneFlags.ofChild.allowOverwriteData = true := Bool.false_ne_true
  rw [cloneDataNodeSubtree, hPayload]
  dsimp only
  rw [setDataNode_there hChildPath hThere rfl, if_neg hKeeps]
  rfl

/-- What is there stays there when another node gets a new child. -/
theorem isSome_grown {q : Path} (hNode : node? p root = some y) (hNew : y.child? name = none)
    (hq : (node? q root).isSome = true) : (node? q (putAt p (y.putChild name t) root)).isSome = true := by
  by_cases hSame : q = p
  · rw [hSame, node?_putAt hNode]
    rfl
  · obtain ⟨x, hx⟩ := Option.isSome_iff_exists.mp hq
    obtain ⟨x', hx', -⟩ := @names_grown Msg root x y t name p q hNode hNew hx hSame
    rw [hx']
    rfl

theorem cloneChildren_taken (hFunc : ctx.optFunc = none) (hPath : SessionTree.IsPath destPath p) (hSound : Sound root)
    {child : DataTree Msg} (hChild : node? (node ++ [name]) root = some child)
    (hClone : node? (ctx.sessionDir ++ p) root = some y) (hOld : name ∈ y.names) {i : Nat}
    (hName : (root.namesAt node)[i]? = some name) {steps turns : Nat} (hSteps : 1 ≤ steps) (hTurns : 1 ≤ turns) :
    (cloneChildren (ctx.cloneDataNodeSubtree steps .ofChild) node destPath turns i root).isSome = true := by
  obtain ⟨steps, rfl⟩ := Nat.exists_eq_add_of_le' hSteps
  obtain ⟨turns, rfl⟩ := Nat.exists_eq_add_of_le' hTurns
  obtain ⟨old, hOldChild⟩ := Option.ne_none_iff_exists'.mp fun hNone => child?_eq_none.mp hNone hOld
  rw [cloneChildren, hName]
  dsimp only
  rw [clone_taken hFunc hPath hSound hChild hClone hOldChild]
  rfl

/-- Induction on the children that do not lead to the clone. Behind them there is none, or one whose name is taken. -/
theorem cloneChildren_ends (hFunc : ctx.optFunc = none) (hPath : SessionTree.IsPath destPath p) (hSound : Sound root)
    (hSource : node? node root = some u) (hClone : node? (ctx.sessionDir ++ p) root = some y) {i : Nat}
    (pre : List (Str × DataTree Msg)) (post : List Str) (hNames : (root.namesAt node).drop i = pre.map Prod.fst ++ post)
    (hAside : ∀ c ∈ pre, Aside root node (ctx.sessionDir ++ p) c)
    (hPost : ∀ name ∈ post.head?, (node? (node ++ [name]) root).isSome = true ∧ name ∈ y.names) :
    ∃ least, ∀ steps turns, least ≤ steps → least ≤ turns →
      (cloneChildren (ctx.cloneDataNodeSubtree steps .ofChild) node destPath turns i root).isSome = true := by
  induction pre generalizing i root y u with
  | nil =>
    have hHere : (root.namesAt node)[i]? = post.head? := by
      rw [← List.head?_drop, hNames]
      rfl
    refine ⟨1, fun steps turns hSteps hTurns => ?_⟩
    cases hHead : post.head? with
    | none =>
      obtain ⟨turns, rfl⟩ := Nat.exists_eq_add_of_le' hTurns
      rw [cloneChildren_end (hHere.trans hHead)]
      rfl
    | some name =>
      obtain ⟨hThere, hOld⟩ := hPost name hHead
      obtain ⟨child, hChild⟩ := Option.isSome_iff_exists.mp hThere
      exact cloneChildren_taken hFunc hPath hSound hChild hClone hOld (hHere.trans hHead) hSteps hTurns
  | cons c pre ih =>
    obtain ⟨hHere, hLater⟩ := namesAt_getElem? hNames
    obtain ⟨hc, hPre⟩ := List.forall_mem_cons.mp hAside
    cases hOld : y.child? c.1 with
    | some old =>
      exact ⟨1, fun steps turns hSteps hTurns => cloneChildren_taken hFunc hPath hSound hc.child hClone
        (mem_names_of_child? hOld) hHere hSteps hTurns⟩
    | none =>
      have hNe : node ≠ ctx.sessionDir ++ p := by
        rintro rfl
        have hChild := hc.child
        rw [node?_concat hClone, hOld] at hChild
        cases hChild
      obtain ⟨u', hSource', hSame⟩ :=
        @names_grown Msg root u y (c.2.copy ctx.pooled) c.1 (ctx.sessionDir ++ p) node hClone hOld hSource hNe
      have hSourceNames : (putAt (ctx.sessionDir ++ p) (y.putChild c.1 (c.2.copy ctx.pooled)) root).namesAt node =
          root.namesAt node := by
        rw [namesAt, namesAt, hSource, hSource', Option.map_some, Option.map_some, hSame]
      have hGrown : Sound (y.putChild c.1 (c.2.copy ctx.pooled)) :=
        (hSound.node? hClone).putChild (hSound.node? hc.child).copy (noSlash_of_child hSound hc.child)
      obtain ⟨least, hLeast⟩ := ih (hSound.putAt hGrown _) hSource' (node?_putAt hClone)
        (by rw [hSourceNames]; exact hLater) (fun other hOther => (hPre other hOther).grown hClone hOld)
        fun name hName =>
          ⟨isSome_grown hClone hOld (hPost name hName).1, mem_names_putChild.mpr (.inr (hPost name hName).2)⟩
      refine ⟨max (c.2.size + 1) (least + 1), fun steps turns hSteps hTurns => ?_⟩
      have hOne : 1 ≤ turns := by omega
      obtain ⟨turns, rfl⟩ := Nat.exists_eq_add_of_le' hOne
      have hEnough : c.2.size < steps := by omega
      have hStep := clonesTo hFunc c.2 hEnough hPath hSound hc hClone hOld
      rw [cloneChildren, hHere]
      dsimp only
      rw [hStep, Option.bind_some, if_pos rfl]
      exact hLeast steps turns (by omega) (by omega)

/-! ### Going on for ever -/

theorem sound_withCopies {pooled : UInt32} {cs : List (Str × DataTree Msg)} (h : Sound y)
    (hCopies : ∀ c ∈ cs, Sound c.2 ∧ '/' ∉ c.1) : Sound (y.withCopies pooled cs) := by
  induction cs generalizing y with
  | nil => exact h
  | cons c rest ih =>
    obtain ⟨⟨hChild, hName⟩, hRest⟩ := List.forall_mem_cons.mp hCopies
    exact ih (h.putChild hChild.copy hName) hRest

/-- The children up to one of them. -/
theorem children_split {c : Str} {child : DataTree Msg} (h : u.child? c = some child) :
    ∃ pre post, u.children = pre ++ (c, child) :: post ∧ c ∉ pre.map Prod.fst ∧
      u.names.takeWhile (· != c) = pre.map Prod.fst := by
  obtain ⟨found, hFound, rfl⟩ := Option.map_eq_some_iff.mp h
  obtain ⟨hKey, pre, post, hSplit, hBefore⟩ := List.find?_eq_some_iff_append.mp hFound
  obtain rfl : found.1 = c := beq_iff_eq.mp hKey
  have hOthers : ∀ name ∈ pre.map Prod.fst, (name != found.1) = true := by
    intro name hName
    obtain ⟨other, hOther, rfl⟩ := List.mem_map.mp hName
    exact hBefore other hOther
  refine ⟨pre, post, hSplit, fun hIn => ?_, ?_⟩
  · exact absurd (hOthers _ hIn) (by rw [bne_self_eq_false]; exact Bool.false_ne_true)
  · rw [names, hSplit, List.map_append, List.map_cons, List.takeWhile_append_of_pos hOthers,
      List.takeWhile_cons_of_neg (by rw [bne_self_eq_false]; exact Bool.false_ne_true), List.append_nil]

/-- The loop comes to the child that leads to the clone, and hangs there. -/
theorem cloneChildren_runs (hFunc : ctx.optFunc = none) (hPath : SessionTree.IsPath destPath p) (hSound : Sound root)
    (hSource : node? node root = some u) (hClone : node? (ctx.sessionDir ++ p) root = some y) {c : Str} {w : Path}
    (hInside : ctx.sessionDir ++ p = node ++ c :: w)
    (hFree : ∀ name ∈ u.names.takeWhile (· != c) ++ [c], name ∉ y.names)
    (steps : Nat) (hNever : ∀ root', Sound root' → (node? (ctx.sessionDir ++ p) root').isSome = true →
      node? (ctx.sessionDir ++ p ++ [c]) root' = none →
      ctx.cloneDataNodeSubtree steps .ofChild (node ++ [c]) (destPath ++ '/' :: c) root' = none) (turns : Nat) :
    cloneChildren (ctx.cloneDataNodeSubtree steps .ofChild) node destPath turns 0 root = none := by
  have hOnWay := (next_turn hInside).1
  obtain ⟨child, hChild⟩ := Option.isSome_iff_exists.mp (node?_above hOnWay (by rw [hClone]; rfl))
  rw [node?_concat hSource] at hChild
  obtain ⟨pre, post, hSplit, hFirst, hBefore⟩ := children_split hChild
  rw [hBefore] at hFree
  have hAside : ∀ k ∈ pre, Aside root node (ctx.sessionDir ++ p) k := by
    intro k hk
    refine children_aside hSound hSource (hSplit ▸ List.mem_append_left _ hk) fun hAbove => hFirst ?_
    rw [hInside, List.prefix_append_right_inj] at hAbove
    exact (List.cons_prefix_cons.mp hAbove).1 ▸ List.mem_map_of_mem hk
  have hNew : ∀ name, name ∈ pre.map Prod.fst ++ [c] → y.child? name = none :=
    fun name hName => child?_eq_none.mpr (hFree name hName)
  have hDistinct : (pre.map Prod.fst).Nodup := by
    have hTable : u.names.Nodup := (hSound.node? hSource).here.table
    rw [names, hSplit, List.map_append] at hTable
    exact hTable.of_append_left
  have hPasses := @passes Msg root u y node (ctx.sessionDir ++ p)
    (ctx.cloneDataNodeSubtree (max steps (sizes u.children + 1)) .ofChild) destPath ctx.pooled pre
    (((c, child) :: post).map Prod.fst) 0
    (by rw [namesAt, hSource, ← List.map_append, ← hSplit]; rfl) hSource
    (fun hSame => by
      rw [← hSame] at hInside
      exact List.cons_ne_nil c w (List.self_eq_append_right.mp hInside)) hClone hAside
    (fun k hk => hNew _ (List.mem_append_left _ (List.mem_map_of_mem hk))) hDistinct
    (fun k hk root' y' hSound' hBeside hy' hyNew => by
      have hSize := size_le_sizes (hSplit ▸ List.mem_append_left _ hk : k ∈ u.children)
      exact clonesTo hFunc k.2 (by omega) hPath hSound' hBeside hy' hyNew) hSound
  have hGrown : Sound (y.withCopies ctx.pooled pre) := sound_withCopies (hSound.node? hClone) fun k hk =>
    ⟨hSound.node? (hAside k hk).child, noSlash_of_child hSound (hAside k hk).child⟩
  have hTarget := node?_putAt (y := y.withCopies ctx.pooled pre) hClone
  have hName : ((putAt (ctx.sessionDir ++ p) (y.withCopies ctx.pooled pre) root).namesAt node)[0 + pre.length]? =
      some c := by
    rw [hInside, putAt_append hSource, namesAt, node?_putAt hSource, Option.map_some, Option.getD_some,
      (fields_putAt_cons c w _ u).2.1, names, hSplit, List.map_append, Nat.zero_add, ← List.length_map (f := Prod.fst),
      List.getElem?_append_right (Nat.le_refl _), Nat.sub_self]
    rfl
  cases hEnds : cloneChildren (ctx.cloneDataNodeSubtree steps .ofChild) node destPath turns 0 root with
  | none => rfl
  | some result =>
    obtain ⟨turns', hLate⟩ := hPasses.comesBy
      (fun _ _ _ _ hCall => clone_mono (Nat.le_max_left steps (sizes u.children + 1)) hCall) hEnds
    cases turns' with
    | zero => cases hLate
    | succ turns' =>
      have hHangs := hNever _ (hSound.putAt hGrown _) (by rw [hTarget]; rfl)
        (by
          have hc := hNew c (List.mem_append_right _ (List.mem_singleton_self c))
          rw [node?_concat hTarget, child?_withCopies hc hFirst])
      rw [cloneChildren, hName] at hLate
      dsimp only at hLate
      rw [hHangs] at hLate
      cases hLate

/-- The first clause of a path that leads to nothing. -/
theorem exists_missing (h : node? p t = none) :
    ∃ q name rest z, p = q ++ name :: rest ∧ node? q t = some z ∧ z.child? name = none := by
  induction p generalizing t with
  | nil => cases h
  | cons first more ih =>
    cases hChild : t.child? first with
    | none => exact ⟨[], first, more, t, rfl, rfl, hChild⟩
    | some child =>
      rw [node?_cons, hChild] at h
      obtain ⟨q, name, rest, z, rfl, hz, hNew⟩ := ih h
      refine ⟨first :: q, name, rest, z, rfl, ?_, hNew⟩
      rw [node?_cons, hChild]
      exact hz

/-- What `SetDataNode` makes of a path to a node that is not there. -/
theorem setDataNode_fresh (hPath : SessionTree.IsPath destPath p) (hSound : Sound root)
    (hDir : (node? ctx.sessionDir root).isSome = true) (hFresh : node? (ctx.sessionDir ++ p) root = none) (data : Msg)
    {flags : CloneFlags} (hIndex : flags.addToTargetIndex = false) :
    (flags.allowCreateNode = false → ctx.setDataNode destPath data flags root = (root, false)) ∧
      ∃ root', Sound root' ∧ node? (ctx.sessionDir ++ p) root' = some (new (some data) ctx.pooled) ∧
        (∀ q x, node? q root = some x → ¬q <+: ctx.sessionDir ++ p → node? q root' = some x) ∧
        (flags.allowCreateNode = true → ctx.setDataNode destPath data flags root = (root', true)) := by
  obtain ⟨sessionDir, hDir⟩ := Option.isSome_iff_exists.mp hDir
  rw [node?_append, hDir, Option.bind_some] at hFresh
  obtain ⟨q, name, rest, z, rfl, hBelow, hNew⟩ := exists_missing hFresh
  have hNode : node? (ctx.sessionDir ++ q) root = some z := by
    rw [node?_append, hDir]
    exact hBelow
  obtain ⟨-, hClauses⟩ := List.forall_mem_append.mp (hPath.clauses ▸ splitClauses_noSlash destPath)
  obtain ⟨hName, hRest⟩ := List.forall_mem_cons.mp hClauses
  have hAssoc : ctx.sessionDir ++ (q ++ name :: rest) = ctx.sessionDir ++ q ++ name :: rest :=
    (List.append_assoc ..).symm
  refine ⟨setDataNode_missing hPath hNode hNew,
    putAt (ctx.sessionDir ++ q) (z.putChild name (ctx.chain data rest)) root,
    hSound.putAt ((hSound.node? hNode).putChild (sound_chain hRest) hName) _, ?_, fun r x hr hNot => ?_,
    fun hCreate => setDataNode_new hPath hNode hNew hCreate hIndex⟩
  · rw [hAssoc, node?_putAt_append hNode, node?_cons, child?_putChild_self]
    exact node?_chain
  · exact node?_grown hNode hNew hr fun hAbove => hNot (hAbove.trans (hAssoc ▸ List.prefix_append ..))

/-- A clone that is to be made below its source is never finished: induction on the steps that it is given. -/
theorem clone_runs (hFunc : ctx.optFunc = none) (hPath : SessionTree.IsPath destPath p) (hSound : Sound root)
    (hDir : (node? ctx.sessionDir root).isSome = true) (hSource : (node? node root).isSome = true) {c : Str} {w : Path}
    (hInside : ctx.sessionDir ++ p = node ++ c :: w) (hFresh : node? (ctx.sessionDir ++ p) root = none)
    {flags : CloneFlags} (hCreate : flags.allowCreateNode = true) (hIndex : flags.addToTargetIndex = false)
    (steps : Nat) : ctx.cloneDataNodeSubtree steps flags node destPath root = none := by
  induction steps generalizing root node destPath p c w flags with
  | zero => rfl
  | succ steps ih =>
    obtain ⟨u, hu⟩ := Option.isSome_iff_exists.mp hSource
    obtain ⟨data, hData, hPayload⟩ := exists_payload hFunc hSound hu
    obtain ⟨-, root', hSound', hClone, -, hSet⟩ := setDataNode_fresh hPath hSound hDir hFresh data hIndex
    have hAbove : node <+: ctx.sessionDir ++ p := hInside ▸ List.prefix_append ..
    obtain ⟨u', hu'⟩ := Option.isSome_iff_exists.mp (node?_above hAbove (by rw [hClone]; rfl))
    obtain ⟨hOnWay, c', w', hNext⟩ := next_turn hInside
    obtain ⟨child, hChild⟩ := Option.isSome_iff_exists.mp (node?_above hOnWay (by rw [hClone]; rfl))
    have hChildPath := hPath.slash (noSlash_of_child hSound' hChild)
    have hLoop := cloneChildren_runs hFunc hPath hSound' hu' hClone hInside (fun name _ => List.not_mem_nil)
      steps (fun root'' hSound'' hThere hGone => ?_) steps
    · rw [cloneDataNodeSubtree, hPayload]
      dsimp only
      rw [hSet hCreate, if_pos rfl, cloneBelow, hLoop]
      rfl
    · -- the walk stands before the next turn of the same way
      rw [List.append_assoc] at hGone hNext
      exact ih hChildPath hSound'' (node?_above (List.prefix_append ..) hThere) (node?_above hOnWay hThere)
        hNext hGone rfl rfl

/-- New data changes no names, anywhere in the tree. -/
theorem names_setData (q : Path) (data : Option Msg) (hNode : node? D root = some y) :
    (node? q (putAt D (y.setData data) root)).map names = (node? q root).map names := by
  have hNames : (y.setData data).names = y.names := by
    cases y
    rfl
  have hChild : ∀ name, (y.setData data).child? name = y.child? name := by
    intro name
    cases y
    rfl
  by_cases hAbove : q <+: D
  · obtain ⟨w, rfl⟩ := hAbove
    obtain ⟨x, hx⟩ := Option.isSome_iff_exists.mp (node?_above (List.prefix_append q w) (by rw [hNode]; rfl))
    rw [putAt_append hx, node?_putAt hx, hx, Option.map_some, Option.map_some]
    cases w with
    | nil =>
      rw [List.append_nil, hx] at hNode
      cases hNode
      exact congrArg some hNames
    | cons name rest => exact congrArg some (fields_putAt_cons name rest _ x).2.1
  · by_cases hBelow : D <+: q
    · obtain ⟨w, rfl⟩ := hBelow
      cases w with
      | nil => exact absurd ⟨[], by rw [List.append_nil, List.append_nil]⟩ hAbove
      | cons name rest =>
        rw [node?_putAt_append hNode, node?_append, hNode, Option.bind_some, node?_cons, node?_cons, hChild]
    · rw [node?_putAt_apart hBelow hAbove]

/-- The clone is to be made or overwritten strictly below its source, and no child of the source up to the one that
leads there has the name of a child that is there already. -/
structure Runaway (root : DataTree Msg) (flags : CloneFlags) (source dest : Path) : Prop where
  sets : if (node? dest root).isSome = true then flags.allowOverwriteData = true else flags.allowCreateNode = true
  inside : ∃ c w, dest = source ++ c :: w ∧
    ∀ name ∈ (root.namesAt source).takeWhile (· != c) ++ [c], node? (dest ++ [name]) root = none

variable {flags : CloneFlags}

theorem runaway_never (hFunc : ctx.optFunc = none) (hPath : SessionTree.IsPath destPath p) (hSound : Sound root)
    (hDir : (node? ctx.sessionDir root).isSome = true) (hSource : node? node root = some u)
    (hIndex : flags.addToTargetIndex = false) (hRunaway : Runaway root flags node (ctx.sessionDir ++ p)) (steps : Nat) :
    ctx.cloneDataNodeSubtree steps flags node destPath root = none := by
  obtain ⟨hSets, c, w, hInside, hFree⟩ := hRunaway
  cases hOld : node? (ctx.sessionDir ++ p) root with
  | none =>
    rw [hOld] at hSets
    exact clone_runs hFunc hPath hSound hDir (by rw [hSource]; rfl) hInside hOld hSets hIndex steps
  | some z =>
    rw [hOld, Option.isSome_some, if_pos rfl] at hSets
    cases steps with
    | zero => rfl
    | succ steps =>
      obtain ⟨data, hData, hPayload⟩ := exists_payload hFunc hSound hSource
      have hKept := names_setData node (some data) hOld
      rw [hSource, Option.map_some] at hKept
      obtain ⟨u', hu', hNames⟩ := Option.map_eq_some_iff.mp hKept
      have hSound' := hSound.putAt ((hSound.node? hOld).setData data) (ctx.sessionDir ++ p)
      have hLoop := cloneChildren_runs hFunc hPath hSound' hu' (node?_putAt hOld) hInside
        (fun name hName hTaken => ?_) steps (fun root' hSound'' hThere hGone => ?_) steps
      · rw [cloneDataNodeSubtree, hPayload]
        dsimp only
        rw [setDataNode_there hPath hOld hIndex, if_pos hSets, if_pos rfl, cloneBelow, hLoop]
        rfl
      · rw [hNames] at hName
        have hNone := hFree name (by rw [namesAt, hSource]; exact hName)
        have hMem : name ∈ z.names := by
          cases z
          exact hTaken
        rw [node?_concat hOld] at hNone
        exact child?_eq_none.mp hNone hMem
      · obtain ⟨hOnWay, c', w', hNext⟩ := next_turn hInside
        have hOnWayThere := node?_above hOnWay hThere
        obtain ⟨child, hChild⟩ := Option.isSome_iff_exists.mp hOnWayThere
        rw [List.append_assoc] at hGone hNext
        exact clone_runs hFunc (hPath.slash (noSlash_of_child hSound'' hChild)) hSound''
          (node?_above (List.prefix_append ..) hThere) hOnWayThere hNext hGone rfl rfl steps

/-- Outside of its source, a new clone is the same subtree again. -/
theorem clone_copies (hFunc : ctx.optFunc = none) (hPath : SessionTree.IsPath destPath p) (hSound : Sound root)
    (hDir : (node? ctx.sessionDir root).isSome = true) (hSource : node? node root = some u)
    (hIndex : flags.addToTargetIndex = false) (hCreate : flags.allowCreateNode = true)
    (hFresh : node? (ctx.sessionDir ++ p) root = none) (hOutside : ¬node <+: ctx.sessionDir ++ p) :
    ∃ steps root', ctx.cloneDataNodeSubtree steps flags node destPath root = some (root', true) ∧
      node? (ctx.sessionDir ++ p) root' = some (u.copy ctx.pooled) := by
  obtain ⟨data, hData, hPayload⟩ := exists_payload hFunc hSound hSource
  obtain ⟨-, root', hSound', hClone, hKept, hSet⟩ := setDataNode_fresh hPath hSound hDir hFresh data hIndex
  have hNot' : ¬ctx.sessionDir ++ p <+: node := by
    intro hBelow
    have hThere := node?_above hBelow (by rw [hSource]; rfl)
    rw [hFresh] at hThere
    cases hThere
  refine ⟨sizes u.children + 2, _, ?_, node?_putAt hClone⟩
  rw [cloneDataNodeSubtree, hPayload]
  dsimp only
  rw [hSet hCreate, if_pos rfl]
  refine cloneBelow_new hPath hSound' (hKept node u hSource hOutside) hData hClone hOutside hNot' ?_ ?_
  · intro c hc root'' y hSound'' hBeside hy hyNew
    have hSize := size_le_sizes hc
    exact clonesTo hFunc c.2 (by omega) hPath hSound'' hBeside hy hyNew
  · have hLength := length_le_sizes u.children
    omega

/-- What is in front of an item of `pre` is in `pre`. -/
theorem mem_of_mem_takeWhile {c : Str} {pre post : List Str} (hc : c ∈ pre)
    (h : name ∈ (pre ++ post).takeWhile (· != c)) : name ∈ pre := by
  obtain ⟨before, after, rfl, hFirst⟩ := List.eq_append_cons_of_mem hc
  have hOthers : ∀ other ∈ before, (other != c) = true := fun other hOther =>
    bne_iff_ne.mpr fun hSame => hFirst (hSame ▸ hOther)
  rw [List.append_assoc, List.takeWhile_append_of_pos hOthers, List.cons_append,
    List.takeWhile_cons_of_neg (by rw [bne_self_eq_false]; exact Bool.false_ne_true), List.append_nil] at h
  exact List.mem_append_left _ h

/-- Over a node that is there, the clone fails or is made, unless its place is below the source and free. -/
theorem clone_ends_there (hFunc : ctx.optFunc = none) (hPath : SessionTree.IsPath destPath p) (hSound : Sound root)
    (hSource : node? node root = some u) (hIndex : flags.addToTargetIndex = false) {z : DataTree Msg}
    (hOld : node? (ctx.sessionDir ++ p) root = some z) (hNot : ¬Runaway root flags node (ctx.sessionDir ++ p)) :
    ∃ steps, (ctx.cloneDataNodeSubtree steps flags node destPath root).isSome = true := by
  obtain ⟨data, hData, hPayload⟩ := exists_payload hFunc hSound hSource
  by_cases hSets : flags.allowOverwriteData = true
  · have hKept := names_setData node (some data) hOld
    rw [hSource, Option.map_some] at hKept
    obtain ⟨u', hu', hNames⟩ := Option.map_eq_some_iff.mp hKept
    have hSound' := hSound.putAt ((hSound.node? hOld).setData data) (ctx.sessionDir ++ p)
    have hClone := node?_putAt (y := z.setData (some data)) hOld
    have hzNames : (z.setData (some data)).names = z.names := by
      cases z
      rfl
    have hAll : (putAt (ctx.sessionDir ++ p) (z.setData (some data)) root).namesAt node = u'.names := by
      rw [namesAt, hu']
      rfl
    have hChild : ∀ name ∈ u'.names, (node? (node ++ [name])
        (putAt (ctx.sessionDir ++ p) (z.setData (some data)) root)).isSome = true := by
      intro name hName
      rw [node?_concat hu']
      exact Option.isSome_iff_ne_none.mpr fun hNone => child?_eq_none.mp hNone hName
    -- the children up to one whose name is taken, or all
    have hLoop : ∃ (pre : List (Str × DataTree Msg)) (post : List Str), u'.names = pre.map Prod.fst ++ post ∧
        (∀ c ∈ pre, c ∈ u'.children ∧ ¬node ++ [c.1] <+: ctx.sessionDir ++ p) ∧
        ∀ name ∈ post.head?, name ∈ u'.names ∧ name ∈ z.names := by
      by_cases hAbove : node <+: ctx.sessionDir ++ p
      · obtain ⟨w, hw⟩ := hAbove
        cases w with
        | nil =>
          rw [List.append_nil] at hw
          refine ⟨[], u'.names, rfl, fun c hc => absurd hc List.not_mem_nil, fun name hName => ?_⟩
          have hIn := List.mem_of_mem_head? hName
          rw [← hw, hSource] at hOld
          cases hOld
          exact ⟨hIn, hNames ▸ hIn⟩
        | cons c w =>
          have hTaken : ∃ name ∈ (root.namesAt node).takeWhile (· != c) ++ [c],
              node? (ctx.sessionDir ++ p ++ [name]) root ≠ none := by
            by_contra hNone
            refine hNot ⟨by rw [hOld]; exact hSets, c, w, hw.symm, fun name hName => ?_⟩
            by_contra hSome
            exact hNone ⟨name, hName, hSome⟩
          obtain ⟨name, hName, hSome⟩ := hTaken
          have hOnWay := node?_above (next_turn hw.symm).1 (by rw [hClone]; rfl)
          have hWay : c ∈ u'.names := by
            by_contra hNone
            rw [node?_concat hu', child?_eq_none.mpr hNone] at hOnWay
            cases hOnWay
          rw [namesAt, hSource, Option.map_some, Option.getD_some, ← hNames] at hName
          rw [node?_concat hOld] at hSome
          have hIn : name ∈ u'.names := by
            rcases List.mem_append.mp hName with hBefore | hLast
            · exact (List.takeWhile_sublist _).mem hBefore
            · exact List.mem_singleton.mp hLast ▸ hWay
          obtain ⟨child, hNamed⟩ := Option.ne_none_iff_exists'.mp fun hNone => child?_eq_none.mp hNone hIn
          obtain ⟨pre, post, hSplit, hFirst, -⟩ := children_split hNamed
          have hNotBefore : c ∉ pre.map Prod.fst := by
            intro hc
            rcases List.mem_append.mp hName with hBefore | hLast
            · exact hFirst (mem_of_mem_takeWhile hc (by rwa [names, hSplit, List.map_append] at hBefore))
            · exact hFirst (List.mem_singleton.mp hLast ▸ hc)
          refine ⟨pre, name :: post.map Prod.fst, by rw [names, hSplit, List.map_append]; rfl, fun k hk => ⟨?_, ?_⟩, ?_⟩
          · exact hSplit ▸ List.mem_append_left _ hk
          · intro hBelow
            rw [← hw, List.prefix_append_right_inj] at hBelow
            exact hNotBefore ((List.cons_prefix_cons.mp hBelow).1 ▸ List.mem_map_of_mem hk)
          · intro other hOther
            obtain rfl : name = other := Option.some.inj hOther
            exact ⟨hIn, not_not.mp fun hNone => hSome (child?_eq_none.mpr hNone)⟩
      · refine ⟨u'.children, [], (List.append_nil _).symm,
          fun c hc => ⟨hc, fun hBelow => hAbove ?_⟩, fun name hName => ?_⟩
        · exact (List.prefix_append ..).trans hBelow
        · cases hName
    obtain ⟨pre, post, hSplit, hPre, hPost⟩ := hLoop
    obtain ⟨least, hLeast⟩ := cloneChildren_ends hFunc hPath hSound' hu' hClone pre post
      (by rw [hAll]; exact hSplit : List.drop 0 _ = _)
      (fun c hc => children_aside hSound' hu' (hPre c hc).1 (hPre c hc).2)
      fun name hName => ⟨hChild name (hPost name hName).1, hzNames.symm ▸ (hPost name hName).2⟩
    refine ⟨least + 1, ?_⟩
    rw [cloneDataNodeSubtree, hPayload]
    dsimp only
    rw [setDataNode_there hPath hOld hIndex, if_pos hSets, if_pos rfl, cloneBelow, Option.isSome_map]
    exact hLeast least least (Nat.le_refl _) (Nat.le_refl _)
  · refine ⟨1, ?_⟩
    rw [cloneDataNodeSubtree, hPayload]
    dsimp only
    rw [setDataNode_there hPath hOld hIndex, if_neg hSets]
    rfl

/-- A clone comes to an end, and is the same subtree again if it is new and outside, exactly if it does not run away. -/
theorem cloneDataNodeSubtree_iff (hFunc : ctx.optFunc = none) (hPath : SessionTree.IsPath destPath p)
    (hSound : Sound root) (hDir : (node? ctx.sessionDir root).isSome = true) (hSource : node? node root = some u)
    (hIndex : flags.addToTargetIndex = false) :
    ((∃ steps result, ctx.cloneDataNodeSubtree steps flags node destPath root = some result) ∧
      (flags.allowCreateNode = true → node? (ctx.sessionDir ++ p) root = none → ¬node <+: ctx.sessionDir ++ p →
        ∃ steps root', ctx.cloneDataNodeSubtree steps flags node destPath root = some (root', true) ∧
          node? (ctx.sessionDir ++ p) root' = some (u.copy ctx.pooled))) ↔
      ¬Runaway root flags node (ctx.sessionDir ++ p) := by
  refine ⟨fun ⟨⟨steps, result, hEnds⟩, _⟩ hRunaway => ?_, fun hNot => ⟨?_, fun hCreate hFresh hOutside =>
    clone_copies hFunc hPath hSound hDir hSource hIndex hCreate hFresh hOutside⟩⟩
  · rw [runaway_never hFunc hPath hSound hDir hSource hIndex hRunaway] at hEnds
    cases hEnds
  · cases hOld : node? (ctx.sessionDir ++ p) root with
    | some z =>
      obtain ⟨steps, hEnds⟩ := clone_ends_there hFunc hPath hSound hSource hIndex hOld hNot
      exact ⟨steps, Option.isSome_iff_exists.mp hEnds⟩
    | none =>
      cases hCreate : flags.allowCreateNode with
      | false =>
        obtain ⟨data, hData, hPayload⟩ := exists_payload hFunc hSound hSource
        refine ⟨1, (root, false), ?_⟩
        rw [cloneDataNodeSubtree, hPayload]
        dsimp only
        rw [(setDataNode_fresh hPath hSound hDir hOld data hIndex).1 hCreate]
        rfl
      | true =>
        have hOutside : ¬node <+: ctx.sessionDir ++ p := by
          rintro ⟨w, hw⟩
          cases w with
          | nil =>
            rw [← hw, List.append_nil, hSource] at hOld
            cases hOld
          | cons c w =>
            refine hNot ⟨by rw [hOld]; exact hCreate, c, w, hw.symm, fun name _ => ?_⟩
            rw [node?_append, hOld]
            rfl
        obtain ⟨steps, root', hEnds, -⟩ := clone_copies hFunc hPath hSound hDir hSource hIndex hCreate hOld hOutside
        exact ⟨steps, (root', true), hEnds⟩

/-- The flags that a caller need not give. -/
def givenFlags : CloneFlags := ⟨true, true, false, none⟩

/-- A node `a` of a session, with an indexed child. -/
def oneClone : DataTree Nat :=
  .mk (some 0) [(['h'], .mk (some 0) [(['1'], .mk (some 0) [(['a'], .mk (some 1)
    [(['I', '0'], SessionTree.leaf 2)] [['I', '0']] 1)] [] 0)] [] 0)] [] 0

theorem oneClone_sound : Sound oneClone := by
  have hNode : ∀ (name : Str) (child : DataTree Nat) (index : List Str) (counter : UInt32) (data : Nat), '/' ∉ name →
      (∀ entry ∈ index, entry = name) → Sound child → Sound (.mk (some data) [(name, child)] index counter) := by
    intro name child index counter data hName hIndex hChild
    refine .intro _ ⟨Option.some_ne_none data, List.nodup_singleton name, List.forall_mem_singleton.mpr hName,
      fun entry hEntry => List.mem_singleton.mpr (hIndex entry hEntry)⟩ ?_
    rintro other ⟨key, hIn⟩
    cases List.mem_singleton.mp hIn
    exact hChild
  refine hNode _ _ _ _ _ (by decide) (by decide) (hNode _ _ _ _ _ (by decide) (by decide)
    (hNode _ _ _ _ _ (by decide) (by decide) (hNode _ _ _ _ _ (by decide) (by decide) (sound_new 2 0))))

def oneCloneContext : CloneContext Nat := ⟨[['h'], ['1']], 0, 0, none⟩

theorem cloneDataNodeSubtree_iff_beside :
    (∃ steps result,
      oneCloneContext.cloneDataNodeSubtree steps givenFlags [['h'], ['1'], ['a']] ['b'] oneClone = some result) ∧
      (givenFlags.allowCreateNode = true → node? [['h'], ['1'], ['b']] oneClone = none →
        ¬[['h'], ['1'], ['a']] <+: [['h'], ['1'], ['b']] → ∃ steps root',
          oneCloneContext.cloneDataNodeSubtree steps givenFlags [['h'], ['1'], ['a']] ['b'] oneClone =
              some (root', true) ∧
            node? [['h'], ['1'], ['b']] root' =
              some (copy 0 (.mk (some 1) [(['I', '0'], SessionTree.leaf 2)] [['I', '0']] 1))) := by
  have hPath : SessionTree.IsPath ['b'] [['b']] := ⟨by decide, by decide, by decide⟩
  have hContext : oneCloneContext.optFunc = none := rfl
  refine (cloneDataNodeSubtree_iff hContext hPath oneClone_sound rfl rfl rfl).mpr ?_
  rintro ⟨-, c, w, hInside, -⟩
  cases hInside

/-- Below itself, the node `a` is cloned for ever. -/
theorem clone_below_itself : ¬∃ steps after,
    oneCloneContext.cloneDataNodeSubtree steps givenFlags [['h'], ['1'], ['a']] "a/b".toList oneClone = some after := by
  rintro ⟨steps, after, hAfter⟩
  have hPath : SessionTree.IsPath "a/b".toList [['a'], ['b']] := ⟨by decide, by decide, by decide⟩
  have hContext : oneCloneContext.optFunc = none := rfl
  have hRunaway : Runaway oneClone givenFlags [['h'], ['1'], ['a']] (oneCloneContext.sessionDir ++ [['a'], ['b']]) :=
    ⟨rfl, ['b'], [], rfl, by decide⟩
  rw [runaway_never hContext hPath oneClone_sound rfl rfl rfl hRunaway steps] at hAfter
  cases hAfter

end CloneContext

end BeShare.Muscle.Reflect
