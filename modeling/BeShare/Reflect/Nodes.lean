import BeShare.Reflect.Traversal

/-!
What `DataNode`s do to the tree: a node gets a child, loses one, gets other data, or gets a mark of a session.
Each operation is known by the nodes that the paths then lead to.
-/

namespace BeShare.Muscle.Reflect

variable {Msg : Type}

namespace DataNode

variable (n : DataNode Msg)

/-- `_subscribers.Get(sessionID)` -/
def mark (sessionID : Str) : Option Nat :=
  (n.subscribers.find? fun entry => entry.1 == sessionID).map Prod.snd

/-- `_subscribers.Put(sessionID, count)` -/
def putMark (sessionID : Str) (count : Nat) : DataNode Msg :=
  { n with
      subscribers :=
        if n.subscribers.any fun entry => entry.1 == sessionID then
          n.subscribers.map fun entry => if entry.1 == sessionID then (sessionID, count) else entry
        else n.subscribers ++ [(sessionID, count)] }

/-- `_subscribers.Remove(sessionID)`, which is also what `IncrementSubscriptionRefCount` does for `-LONG_MAX`: no
count is that high. -/
def removeMark (sessionID : Str) : DataNode Msg :=
  { n with subscribers := n.subscribers.filter fun entry => !(entry.1 == sessionID) }

def incrementSubscriptionRefCount (sessionID : Str) (delta : Int) : DataNode Msg :=
  if 0 < delta then n.putMark sessionID ((n.mark sessionID).getD 0 + delta.toNat)
  else if delta < 0 then
    match n.mark sessionID with
    | some res =>
      if res ≤ (-delta).toNat then n.removeMark sessionID else n.putMark sessionID (res - (-delta).toNat)
    | none => n
  else n

/-- No session has two marks. -/
def MarksNodup : Prop :=
  (n.subscribers.map Prod.fst).Nodup

variable {n}

theorem mark_putMark (sessionID : Str) (count : Nat) (other : Str) :
    (n.putMark sessionID count).mark other = if other = sessionID then some count else n.mark other := by
  have hReplace : ∀ l : List (Str × Nat),
      (l.map fun entry => if entry.1 == sessionID then (sessionID, count) else entry).find?
          (fun entry => entry.1 == other) =
        if other = sessionID ∧ l.any (fun entry => entry.1 == sessionID) = true then some (sessionID, count)
        else l.find? fun entry => entry.1 == other := by
    intro l
    induction l with
    | nil => simp
    | cons entry l ih =>
      rw [List.map_cons, List.find?_cons, List.find?_cons, ih, List.any_cons]
      by_cases hSame : entry.1 = sessionID
      · by_cases hOther : other = sessionID
        · simp [hSame, hOther]
        · simp [hSame, hOther, beq_eq_false_iff_ne.mpr (Ne.symm hOther)]
      · by_cases hOther : entry.1 = other
        · have hNot : other ≠ sessionID := fun h => hSame (hOther.trans h)
          simp [hOther, hNot]
        · have hHere : (entry.1 == sessionID) = false := beq_eq_false_iff_ne.mpr hSame
          rw [if_neg (by simpa using hSame), beq_eq_false_iff_ne.mpr hOther, hHere, Bool.false_or]
  unfold putMark mark
  dsimp only
  split
  · rename_i hOld
    rw [hReplace]
    simp only [hOld, and_true]
    split <;> rfl
  · rename_i hNew
    rw [List.find?_append]
    by_cases hOther : other = sessionID
    · subst hOther
      have hNone : (n.subscribers.find? fun entry => entry.1 == other) = none := by
        rw [List.find?_eq_none]
        exact fun entry hEntry hSame => hNew (List.any_eq_true.mpr ⟨entry, hEntry, hSame⟩)
      simp [hNone]
    · simp [hOther, Ne.symm hOther]

theorem mark_removeMark (sessionID other : Str) :
    (n.removeMark sessionID).mark other = if other = sessionID then none else n.mark other := by
  unfold removeMark mark
  dsimp only
  rw [List.find?_filter]
  split
  · rename_i hOther
    subst hOther
    simp
  · rename_i hOther
    congr 2
    funext entry
    by_cases hSame : entry.1 = other
    · simp [hSame, hOther]
    · simp [hSame]

theorem marksNodup_putMark (h : n.MarksNodup) (sessionID : Str) (count : Nat) :
    (n.putMark sessionID count).MarksNodup := by
  unfold MarksNodup putMark at *
  dsimp only
  split
  · rw [List.map_map]
    convert h using 1
    refine List.map_congr_left fun entry _ => ?_
    show (if entry.1 == sessionID then (sessionID, count) else entry).1 = entry.1
    split
    · rename_i hSame
      exact (beq_iff_eq.mp hSame).symm
    · rfl
  · rename_i hNew
    rw [List.map_append, List.nodup_append]
    refine ⟨h, List.nodup_singleton _, fun id hId id' hId' => ?_⟩
    obtain ⟨entry, hEntry, rfl⟩ := List.mem_map.mp hId
    obtain rfl := List.mem_singleton.mp hId'
    intro hSame
    exact hNew (List.any_eq_true.mpr ⟨entry, hEntry, beq_iff_eq.mpr hSame⟩)

theorem marksNodup_removeMark (h : n.MarksNodup) (sessionID : Str) : (n.removeMark sessionID).MarksNodup :=
  List.Nodup.sublist (List.Sublist.map _ List.filter_sublist) h

theorem marksNodup_increment (h : n.MarksNodup) (sessionID : Str) (delta : Int) :
    (n.incrementSubscriptionRefCount sessionID delta).MarksNodup := by
  unfold incrementSubscriptionRefCount
  split
  · exact marksNodup_putMark h ..
  · split
    · split
      · split
        · exact marksNodup_removeMark h _
        · exact marksNodup_putMark h ..
      · exact h
    · exact h

/-- A mark of a count that may be zero is a mark only if it is not. -/
def countMark (count : Nat) : Option Nat :=
  if count = 0 then none else some count

/-- Counting up or down by the change of the count keeps the marks. -/
theorem mark_increment {sessionID : Str} {count count' : Nat} {delta : Int}
    (hMark : n.mark sessionID = countMark count) (hCount : (count' : Int) = count + delta) (other : Str) :
    (n.incrementSubscriptionRefCount sessionID delta).mark other =
      if other = sessionID then countMark count' else n.mark other := by
  unfold incrementSubscriptionRefCount
  by_cases hUp : 0 < delta
  · rw [if_pos hUp, mark_putMark, hMark]
    have hSum : (countMark count).getD 0 + delta.toNat = count' := by
      unfold countMark
      split
      · show 0 + delta.toNat = count'
        omega
      · show count + delta.toNat = count'
        omega
    have hPositive : count' ≠ 0 := by omega
    rw [hSum, countMark, if_neg hPositive]
  · rw [if_neg hUp]
    by_cases hDown : delta < 0
    · rw [if_pos hDown, hMark]
      have hPositive : count ≠ 0 := by omega
      rw [countMark, if_neg hPositive]
      dsimp only
      by_cases hAll : count ≤ (-delta).toNat
      · have hZero : count' = 0 := by omega
        rw [if_pos hAll, mark_removeMark, countMark, if_pos hZero]
      · have hLeft : count - (-delta).toNat = count' := by omega
        have hLeftPositive : count' ≠ 0 := by omega
        rw [if_neg hAll, mark_putMark, hLeft, countMark, if_neg hLeftPositive]
    · obtain rfl : count' = count := by omega
      rw [if_neg hDown]
      split
      · rename_i hOther
        rw [hOther, hMark]
      · rfl

@[simp] theorem data_increment (sessionID : Str) (delta : Int) :
    (n.incrementSubscriptionRefCount sessionID delta).data = n.data := by
  unfold incrementSubscriptionRefCount
  split
  · rfl
  · split
    · split
      · split <;> rfl
      · rfl
    · rfl

end DataNode

namespace Database

variable (db : Database Msg)

/-- The node with a path is changed in its place. -/
def modify (p : Path) (f : DataNode Msg → DataNode Msg) : Database Msg where
  nodes := db.nodes.map fun entry => if entry.1 = p then (entry.1, f entry.2) else entry
  nodup := by
    rw [List.map_map]
    convert db.nodup using 1
    refine List.map_congr_left fun entry _ => ?_
    show (if entry.1 = p then (entry.1, f entry.2) else entry).1 = entry.1
    split <;> rfl
  parent := by
    have hSame : (db.nodes.map fun entry => if entry.1 = p then (entry.1, f entry.2) else entry).map Prod.fst =
        db.nodes.map Prod.fst := by
      rw [List.map_map]
      refine List.map_congr_left fun entry _ => ?_
      show (if entry.1 = p then (entry.1, f entry.2) else entry).1 = entry.1
      split <;> rfl
    rw [hSame]
    exact db.parent

/-- The nodes that are left when all below a node are dropped. -/
def dropBelow (p : Path) : Database Msg where
  nodes := db.nodes.filter fun entry => !(decide (p <+: entry.1) && decide (p ≠ entry.1))
  nodup := db.nodup.sublist (List.filter_sublist.map _)
  parent := by
    intro q name h
    obtain ⟨entry, hEntry, hPath⟩ := List.mem_map.mp h
    obtain ⟨hIn, hKept⟩ := List.mem_filter.mp hEntry
    obtain ⟨parent, hParentIn, hParent⟩ := List.mem_map.mp
      (db.parent q name (List.mem_map.mpr ⟨entry, hIn, hPath⟩))
    refine List.mem_map.mpr ⟨parent, List.mem_filter.mpr ⟨hParentIn, ?_⟩, hParent⟩
    rw [hParent]
    simp only [Bool.not_eq_true', Bool.and_eq_false_iff, decide_eq_false_iff_not, ne_eq, not_not] at hKept ⊢
    rw [hPath] at hKept
    rcases Decidable.em (p <+: q) with hBelow | hNot
    · rcases hKept with hKept | hKept
      · exact absurd (hBelow.trans (List.prefix_append ..)) hKept
      · rw [hKept] at hBelow
        have hLength := hBelow.length_le
        rw [List.length_append, List.length_singleton] at hLength
        omega
    · exact .inl hNot

/-- A new node at the end of its parent's children. -/
def append (p : Path) (name : Str) (child : DataNode Msg) (hParent : p ∈ db.paths)
    (hNew : p ++ [name] ∉ db.paths) : Database Msg where
  nodes := db.nodes ++ [(p ++ [name], child)]
  nodup := by
    rw [List.map_append, List.nodup_append]
    refine ⟨db.nodup, List.nodup_singleton _, fun q hq q' hq' => ?_⟩
    obtain rfl := List.mem_singleton.mp hq'
    rintro rfl
    exact hNew hq
  parent := by
    intro q last h
    rw [List.map_append, List.mem_append] at h ⊢
    rcases h with h | h
    · exact .inl (db.parent q last h)
    · obtain ⟨rfl, -⟩ := List.append_inj' (List.mem_singleton.mp h) rfl
      exact .inl hParent

/-- `_children->Put(name, child)` of the node: a child with the name is replaced, with all that is below it. -/
def putChild (node : Path) (name : Str) (child : DataNode Msg) : Database Msg :=
  if hParent : node ∈ db.paths then
    if hNew : node ++ [name] ∉ db.paths then db.append node name child hParent hNew
    else (db.dropBelow (node ++ [name])).modify (node ++ [name]) fun _ => child
  else db

/-- `_children->Remove(name)` of the parent, for a node without children. -/
def dropNode (p : Path) : Database Msg :=
  if h : db.children p = [] then
    { nodes := db.nodes.filter fun entry => decide (entry.1 ≠ p)
      nodup := db.nodup.sublist (List.filter_sublist.map _)
      parent := by
        intro q name hChild
        obtain ⟨entry, hEntry, hPath⟩ := List.mem_map.mp hChild
        have hIn := (List.mem_filter.mp hEntry).1
        obtain ⟨parent, hParentIn, hParent⟩ := List.mem_map.mp
          (db.parent q name (List.mem_map.mpr ⟨entry, hIn, hPath⟩))
        refine List.mem_map.mpr ⟨parent, List.mem_filter.mpr ⟨hParentIn, decide_eq_true_iff.mpr ?_⟩, hParent⟩
        intro hDropped
        rw [hParent] at hDropped
        subst hDropped
        have hName := mem_children.mpr (List.mem_map.mpr ⟨entry, hIn, hPath⟩)
        rw [h] at hName
        cases hName }
  else db

variable {db} {p q : Path}

theorem mem_paths : p ∈ db.paths ↔ (db.node? p).isSome = true := by
  unfold paths node?
  rw [Option.isSome_map, List.find?_isSome, List.mem_map]
  refine exists_congr fun entry => and_congr_right fun _ => ?_
  rw [beq_iff_eq]

theorem node?_of_mem {n : DataNode Msg} (h : (p, n) ∈ db.nodes) : db.node? p = some n := by
  unfold node?
  have hFound : db.nodes.find? (fun entry => entry.1 == p) = some (p, n) := by
    have hNodup := db.nodup
    revert h hNodup
    generalize db.nodes = nodes
    intro h hNodup
    induction nodes with
    | nil => cases h
    | cons entry rest ih =>
      rw [List.map_cons, List.nodup_cons] at hNodup
      rw [List.find?_cons]
      rcases List.mem_cons.mp h with rfl | h
      · simp
      · have hOther : entry.1 ≠ p := by
          rintro rfl
          exact hNodup.1 (List.mem_map.mpr ⟨_, h, rfl⟩)
        rw [beq_eq_false_iff_ne.mpr hOther]
        exact ih h hNodup.2
  rw [hFound]
  rfl

theorem node?_modify (p : Path) (f : DataNode Msg → DataNode Msg) (q : Path) :
    (db.modify p f).node? q = if q = p then (db.node? p).map f else db.node? q := by
  unfold node? modify
  dsimp only
  generalize db.nodes = nodes
  induction nodes with
  | nil => simp
  | cons entry rest ih =>
    rw [List.map_cons, List.find?_cons, List.find?_cons, List.find?_cons]
    by_cases hHere : entry.1 = p
    · by_cases hSame : q = p
      · simp [hHere, hSame]
      · have hOther : ¬p = q := Ne.symm hSame
        simp only [hHere, if_true, beq_eq_false_iff_ne.mpr hOther, hSame, if_false]
        rw [ih, if_neg hSame]
    · rw [if_neg hHere]
      by_cases hSame : q = p
      · subst hSame
        simp only [beq_eq_false_iff_ne.mpr hHere, if_true]
        rw [ih, if_pos rfl]
      · rw [if_neg hSame]
        by_cases hFound : entry.1 = q
        · simp [hFound]
        · simp only [beq_eq_false_iff_ne.mpr hFound]
          rw [ih, if_neg hSame]

theorem node?_append {name : Str} {child : DataNode Msg} (hParent : p ∈ db.paths) (hNew : p ++ [name] ∉ db.paths)
    (q : Path) : (db.append p name child hParent hNew).node? q =
      if q = p ++ [name] then some child else db.node? q := by
  have hNone : db.nodes.find? (fun entry => entry.1 == p ++ [name]) = none := by
    rw [List.find?_eq_none]
    intro entry hEntry hSame
    exact hNew (List.mem_map.mpr ⟨entry, hEntry, beq_iff_eq.mp hSame⟩)
  unfold node? append
  dsimp only
  rw [List.find?_append]
  by_cases hSame : q = p ++ [name]
  · subst hSame
    simp [hNone]
  · simp [hSame, Ne.symm hSame]

theorem node?_filter (keep : Path → Bool) (nodes : List (Path × DataNode Msg)) (q : Path) :
    ((nodes.filter fun entry => keep entry.1).find? fun entry => entry.1 == q).map Prod.snd =
      if keep q then (nodes.find? fun entry => entry.1 == q).map Prod.snd else none := by
  rw [List.find?_filter]
  split
  · rename_i hKeep
    congr 2
    funext entry
    by_cases hSame : entry.1 = q
    · simp [hSame, hKeep]
    · simp [hSame]
  · rename_i hDrop
    rw [List.find?_eq_none.mpr, Option.map_none]
    intro entry _ hBoth
    rw [decide_eq_true_eq, beq_iff_eq] at hBoth
    exact hDrop (hBoth.2 ▸ hBoth.1)

theorem node?_dropBelow (p q : Path) :
    (db.dropBelow p).node? q = if p <+: q ∧ p ≠ q then none else db.node? q := by
  refine (node?_filter (fun path => !(decide (p <+: path) && decide (p ≠ path))) db.nodes q).trans ?_
  by_cases hBelow : p <+: q ∧ p ≠ q
  · simp [hBelow]
  · rw [if_neg hBelow, if_pos]
    · rfl
    · rw [Bool.not_eq_true', ← Bool.decide_and]
      exact decide_eq_false hBelow

/-- The replaced child and all below it are gone, the new one is there. -/
theorem node?_putChild {node : Path} {name : Str} (child : DataNode Msg) (hParent : node ∈ db.paths) (q : Path) :
    (db.putChild node name child).node? q =
      if q = node ++ [name] then some child
      else if node ++ [name] <+: q then none else db.node? q := by
  unfold putChild
  rw [dif_pos hParent]
  split
  · rename_i hNew
    rw [node?_append]
    split
    · rfl
    · split
      · rename_i hBelow
        by_contra hFound
        refine hNew (prefix_mem hBelow (mem_paths.mpr (Option.isSome_iff_ne_none.mpr fun hNone => hFound ?_)))
        exact hNone
      · rfl
  · rename_i hOld
    obtain ⟨n, hn⟩ := Option.isSome_iff_exists.mp (mem_paths.mp (not_not.mp hOld))
    have hKept : (db.dropBelow (node ++ [name])).node? (node ++ [name]) = some n := by
      rw [node?_dropBelow, if_neg fun h => h.2 rfl, hn]
    rw [node?_modify, hKept]
    by_cases hSame : q = node ++ [name]
    · rw [if_pos hSame, if_pos hSame]
      rfl
    · rw [if_neg hSame, if_neg hSame, node?_dropBelow]
      simp only [ne_eq, Ne.symm hSame, not_false_eq_true, and_true]

theorem node?_dropNode (hLeaf : db.children p = []) (q : Path) :
    (db.dropNode p).node? q = if q = p then none else db.node? q := by
  unfold dropNode
  rw [dif_pos hLeaf]
  refine (node?_filter (fun path => decide (path ≠ p)) db.nodes q).trans ?_
  by_cases hSame : q = p
  · simp [hSame]
  · rw [if_neg hSame, if_pos (by simpa using hSame)]
    rfl

end Database

end BeShare.Muscle.Reflect
