import BeShare.Lib.Runs
import BeShare.Reflect.DataTree
import Mathlib.Data.List.Perm.Basic

/-!
The ordered indices through every run of the functions that change them or the children: their entries are distinct
names of children, exactly as long as no entry is put a second time and no child whose name does not start with `I`
is removed while it has an entry.
-/

namespace BeShare.Muscle.Reflect

open BeShare.Lib

variable {Msg : Type}

theorem lastIndexOf_eq_none {key : Str} {index : List Str} : lastIndexOf key index = none ↔ key ∉ index := by
  induction index with
  | nil => simp [lastIndexOf]
  | cons entry rest ih =>
    unfold lastIndexOf
    cases h : lastIndexOf key rest with
    | some i => simpa [h] using fun _ => Decidable.not_not.mp (ih.not.mp (by simp [h]))
    | none =>
      have hRest : key ∉ rest := ih.mp h
      by_cases hHere : entry = key
      · simp [hHere]
      · simp [hHere, hRest, Ne.symm hHere]

theorem getElem?_of_lastIndexOf {key : Str} {index : List Str} {i : Nat} (h : lastIndexOf key index = some i) :
    index[i]? = some key := by
  induction index generalizing i with
  | nil => cases h
  | cons entry rest ih =>
    unfold lastIndexOf at h
    cases hRest : lastIndexOf key rest with
    | some j =>
      rw [hRest] at h
      cases h
      exact ih hRest
    | none =>
      rw [hRest] at h
      dsimp only at h
      split at h
      next hHere =>
        cases h
        rw [hHere]
        rfl
      next => cases h

theorem lastIndexOf_getD_le (key : Str) (index : List Str) :
    (lastIndexOf key index).getD index.length ≤ index.length := by
  cases h : lastIndexOf key index with
  | none => exact Nat.le_refl _
  | some i => exact Nat.le_of_lt (List.getElem?_eq_some_iff.mp (getElem?_of_lastIndexOf h)).1

/-- Without its only entry a key is gone from the index, and all else is still there. -/
theorem mem_eraseIdx_lastIndexOf {key entry : Str} {index : List Str} {i : Nat} (hNodup : index.Nodup)
    (h : lastIndexOf key index = some i) : entry ∈ index.eraseIdx i ↔ entry ∈ index ∧ entry ≠ key := by
  obtain ⟨hLt, hAt⟩ := List.getElem?_eq_some_iff.mp (getElem?_of_lastIndexOf h)
  have hPerm := List.getElem_cons_eraseIdx_perm hLt
  rw [hAt] at hPerm
  have hOnce := (List.nodup_cons.mp (hPerm.nodup_iff.mpr hNodup)).1
  rw [← hPerm.mem_iff, List.mem_cons]
  constructor
  · intro hIn
    exact ⟨.inr hIn, fun hSame => hOnce (hSame ▸ hIn)⟩
  · rintro ⟨hSame | hIn, hNe⟩
    · exact absurd hSame hNe
    · exact hIn

namespace DataTree

variable {t child : DataTree Msg} {key name entry : Str}

/-- The node is a child. -/
def Inside (child t : DataTree Msg) : Prop :=
  ∃ name, (name, child) ∈ t.children

/-- The entries of the index are distinct names of children. What was removed is in no index. -/
structure Ordered (t : DataTree Msg) : Prop where
  distinct : t.orderedIndex.Nodup
  current : ∀ entry ∈ t.orderedIndex, entry ∈ t.names

/-- The children are a table: no name comes twice. -/
def Table (t : DataTree Msg) : Prop :=
  t.names.Nodup

/-! ### Indices -/

theorem insertIdx_nodup_iff {index : List Str} {i : Nat} (hNodup : index.Nodup) (hi : i ≤ index.length) :
    (index.insertIdx i key).Nodup ↔ key ∉ index := by
  rw [(List.perm_insertIdx key index hi).nodup_iff, List.nodup_cons]
  exact and_iff_left hNodup

theorem mem_insertIdx {index : List Str} {i : Nat} (hi : i ≤ index.length) :
    entry ∈ index.insertIdx i key ↔ entry = key ∨ entry ∈ index := by
  rw [(List.perm_insertIdx key index hi).mem_iff, List.mem_cons]

/-- An index with another entry for a child is in order exactly if it had none for it. -/
theorem ordered_insertIdx_iff {index : List Str} {i : Nat} (h : t.orderedIndex = index.insertIdx i key)
    (hNodup : index.Nodup) (hCurrent : ∀ entry ∈ index, entry ∈ t.names) (hKey : key ∈ t.names)
    (hi : i ≤ index.length) : t.Ordered ↔ key ∉ index := by
  rw [← insertIdx_nodup_iff hNodup hi, ← h]
  refine ⟨Ordered.distinct, fun hDistinct => ⟨hDistinct, fun entry hEntry => ?_⟩⟩
  rw [h, mem_insertIdx hi] at hEntry
  exact hEntry.elim (fun hSame => hSame ▸ hKey) (hCurrent entry)

theorem insertPosition_le (t : DataTree Msg) (optInsertBefore : Option Str) :
    t.insertPosition optInsertBefore ≤ t.orderedIndex.length := by
  unfold insertPosition
  split
  · split
    · exact lastIndexOf_getD_le ..
    · exact Nat.le_refl _
  · exact Nat.le_refl _

/-! ### Children -/

theorem mem_names : key ∈ t.names ↔ ∃ child, (key, child) ∈ t.children := by
  unfold names
  rw [List.mem_map]
  constructor
  · rintro ⟨⟨name, child⟩, hIn, rfl⟩
    exact ⟨child, hIn⟩
  · rintro ⟨child, hIn⟩
    exact ⟨(key, child), hIn, rfl⟩

theorem names_putChild : (t.putChild name child).names = if t.hasChild name then t.names else t.names ++ [name] := by
  unfold putChild names
  rw [children_setChildren]
  split
  · rw [List.map_map]
    refine List.map_congr_left fun old _ => ?_
    show (if old.1 = name then (name, child) else old).1 = old.1
    split
    next h => exact h.symm
    next => rfl
  · rw [List.map_append]
    rfl

theorem mem_names_putChild : key ∈ (t.putChild name child).names ↔ key = name ∨ key ∈ t.names := by
  rw [names_putChild]
  split
  next h =>
    have hIn : name ∈ t.names := of_decide_eq_true h
    exact ⟨.inr, fun h => h.elim (fun hSame => hSame ▸ hIn) id⟩
  next =>
    rw [List.mem_append, List.mem_singleton]
    exact or_comm

theorem table_putChild (h : t.Table) : (t.putChild name child).Table := by
  unfold Table
  rw [names_putChild]
  split
  · exact h
  next hNew =>
    rw [List.nodup_append]
    refine ⟨h, List.nodup_singleton _, fun key hKey key' hKey' hSame => ?_⟩
    rw [List.mem_singleton.mp hKey'] at hSame
    exact hNew (decide_eq_true (hSame ▸ hKey))

theorem inside_putChild {other : DataTree Msg} (h : Inside other (t.putChild name child)) :
    other = child ∨ Inside other t := by
  obtain ⟨key, hIn⟩ := h
  unfold putChild at hIn
  rw [children_setChildren] at hIn
  split at hIn
  · obtain ⟨old, hOld, hSame⟩ := List.mem_map.mp hIn
    split at hSame
    · exact .inl (congrArg Prod.snd hSame).symm
    · exact .inr ⟨key, hSame ▸ hOld⟩
  · rcases List.mem_append.mp hIn with hIn | hIn
    · exact .inr ⟨key, hIn⟩
    · exact .inl (congrArg Prod.snd (List.mem_singleton.mp hIn))

/-! ### Removing an entry -/

theorem children_removeIndexEntry : ((t.removeIndexEntry key).getD t).children = t.children := by
  unfold removeIndexEntry
  split
  · cases lastIndexOf key t.orderedIndex with
    | none => rfl
    | some i => exact children_setIndex
  · rfl

/-- What is removed from an index is a name that starts with `I`. -/
theorem mem_removeIndexEntry (h : t.orderedIndex.Nodup) :
    entry ∈ ((t.removeIndexEntry key).getD t).orderedIndex ↔
      entry ∈ t.orderedIndex ∧ (key.head? = some 'I' → entry ≠ key) := by
  unfold removeIndexEntry
  split
  next hI =>
    rw [forall_prop_of_true hI]
    cases hAt : lastIndexOf key t.orderedIndex with
    | none =>
      refine (and_iff_left_of_imp fun hIn hSame => ?_).symm
      exact lastIndexOf_eq_none.mp hAt (hSame ▸ hIn)
    | some i =>
      rw [Option.map_some, Option.getD_some, orderedIndex_setIndex]
      exact mem_eraseIdx_lastIndexOf h hAt
  next hNotI => exact (and_iff_left fun hI => absurd hI hNotI).symm

theorem removeIndexEntry_nodup (h : t.orderedIndex.Nodup) :
    ((t.removeIndexEntry key).getD t).orderedIndex.Nodup := by
  unfold removeIndexEntry
  split
  · cases lastIndexOf key t.orderedIndex with
    | none => exact h
    | some i =>
      rw [Option.map_some, Option.getD_some, orderedIndex_setIndex]
      exact h.sublist (List.eraseIdx_sublist ..)
  · exact h

theorem mem_removeIndexEntries (names : List Str) (h : t.orderedIndex.Nodup) :
    (t.removeIndexEntries names).orderedIndex.Nodup ∧
      (entry ∈ (t.removeIndexEntries names).orderedIndex ↔
        entry ∈ t.orderedIndex ∧ ∀ name ∈ names, name.head? = some 'I' → entry ≠ name) := by
  induction names generalizing t with
  | nil => exact ⟨h, by simp [removeIndexEntries]⟩
  | cons name names ih =>
    obtain ⟨hNodup, hMem⟩ := ih (@removeIndexEntry_nodup Msg t name h)
    refine ⟨hNodup, hMem.trans ?_⟩
    rw [mem_removeIndexEntry h, List.forall_mem_cons, and_assoc]

/-! ### Each function -/

theorem ordered_insertIndexEntryAt_iff (h : t.Ordered) (insertIndex : Nat) :
    (t.insertIndexEntryAt insertIndex key).Ordered ↔
      (t.hasChild key ∧ insertIndex ≤ t.orderedIndex.length → key ∉ t.orderedIndex) := by
  unfold insertIndexEntryAt
  split
  next hInserts =>
    rw [forall_prop_of_true hInserts]
    refine ordered_insertIdx_iff orderedIndex_setIndex h.distinct (fun entry hEntry => ?_) ?_ hInserts.2
    · rw [names_setIndex]
      exact h.current entry hEntry
    · rw [names_setIndex]
      exact of_decide_eq_true hInserts.1
  next hNot => exact iff_of_true h fun hInserts => absurd hInserts hNot

theorem ordered_removeIndexEntryAt (h : t.Ordered) (removeIndex : Nat) :
    (t.removeIndexEntryAt removeIndex).Ordered := by
  unfold removeIndexEntryAt
  refine ⟨?_, fun entry hEntry => ?_⟩
  · rw [orderedIndex_setIndex]
    exact h.distinct.sublist (List.eraseIdx_sublist ..)
  · rw [orderedIndex_setIndex] at hEntry
    rw [names_setIndex]
    exact h.current entry ((List.eraseIdx_sublist ..).subset hEntry)

theorem ordered_putChild (h : t.Ordered) : (t.putChild name child).Ordered := by
  refine ⟨?_, fun entry hEntry => ?_⟩
  · rw [orderedIndex_putChild]
    exact h.distinct
  · rw [orderedIndex_putChild] at hEntry
    exact mem_names_putChild.mpr (.inr (h.current entry hEntry))

theorem findName_not_mem {tries : Nat} {counter counter' : UInt32}
    (h : t.findName tries counter = some (name, counter')) : name ∉ t.names := by
  induction tries generalizing counter with
  | zero => cases h
  | succ tries ih =>
    unfold findName at h
    split at h
    · exact ih h
    next hFree =>
      cases h
      exact fun hIn => hFree (decide_eq_true hIn)

/-- The index with the new child, if a name was found. -/
theorem insertOrderedChild_eq (data : Option Msg) (optInsertBefore optNodeName : Option Str) (pooled : UInt32) :
    t.insertOrderedChild data optInsertBefore optNodeName pooled = t ∨
      ∃ name counter, (optNodeName = some name ∨ optNodeName = none ∧ name ∉ t.names) ∧
        t.insertOrderedChild data optInsertBefore optNodeName pooled =
          ((t.setCounter counter).putChild name (new data pooled)).setIndex
            (t.orderedIndex.insertIdx (t.insertPosition optInsertBefore) name) := by
  unfold insertOrderedChild
  cases optNodeName with
  | some name =>
    refine .inr ⟨name, t.orderedCounter, .inl rfl, ?_⟩
    simp only [orderedIndex_putChild, orderedIndex_setCounter]
  | none =>
    cases hFound : t.findName (t.children.length + 1) t.orderedCounter with
    | none => exact .inl (by simp only)
    | some found =>
      refine .inr ⟨found.1, found.2, .inr ⟨rfl, findName_not_mem hFound⟩, ?_⟩
      simp only [orderedIndex_putChild, orderedIndex_setCounter]

theorem ordered_insertOrderedChild_iff (h : t.Ordered) (data : Option Msg) (optInsertBefore optNodeName : Option Str)
    (pooled : UInt32) : (t.insertOrderedChild data optInsertBefore optNodeName pooled).Ordered ↔
      ∀ name, optNodeName = some name → name ∉ t.orderedIndex := by
  have hNamed : ∀ {name counter}, (((t.setCounter counter).putChild name (new data pooled)).setIndex
      (t.orderedIndex.insertIdx (t.insertPosition optInsertBefore) name)).Ordered ↔ name ∉ t.orderedIndex := by
    intro name counter
    refine ordered_insertIdx_iff orderedIndex_setIndex h.distinct (fun entry hEntry => ?_) ?_
      (t.insertPosition_le optInsertBefore)
    · rw [names_setIndex, mem_names_putChild, names_setCounter]
      exact .inr (h.current entry hEntry)
    · rw [names_setIndex, mem_names_putChild]
      exact .inl rfl
  cases optNodeName with
  | some supplied =>
    have hEq : t.insertOrderedChild data optInsertBefore (some supplied) pooled =
        ((t.setCounter t.orderedCounter).putChild supplied (new data pooled)).setIndex
          (t.orderedIndex.insertIdx (t.insertPosition optInsertBefore) supplied) := by
      unfold insertOrderedChild
      simp only [orderedIndex_putChild, orderedIndex_setCounter]
    rw [hEq, hNamed]
    exact ⟨fun hNew name hName => Option.some.inj hName ▸ hNew, fun hNew => hNew supplied rfl⟩
  | none =>
    refine iff_of_true ?_ (fun name hName => by cases hName)
    rcases t.insertOrderedChild_eq data optInsertBefore none pooled with hEq | ⟨name, counter, hName, hEq⟩
    · rw [hEq]
      exact h
    · rw [hEq, hNamed]
      rcases hName with hName | ⟨-, hNew⟩
      · cases hName
      · exact fun hIn => hNew (h.current name hIn)

theorem ordered_reorderChild (h : t.Ordered) (moveToBeforeThis : Option Str) :
    (t.reorderChild name moveToBeforeThis).Ordered := by
  unfold reorderChild
  split
  · exact h
  · cases hRemove : t.removeIndexEntry name with
    | none => exact h
    | some t' =>
      dsimp only
      have hGet : (t.removeIndexEntry name).getD t = t' := by rw [hRemove]; rfl
      have hI : name.head? = some 'I' := by
        by_contra hNotI
        unfold removeIndexEntry at hRemove
        rw [if_neg hNotI] at hRemove
        cases hRemove
      have hIn : name ∈ t.orderedIndex := by
        by_contra hNot
        unfold removeIndexEntry at hRemove
        rw [if_pos hI, lastIndexOf_eq_none.mpr hNot] at hRemove
        cases hRemove
      have hMem : ∀ {entry}, entry ∈ t'.orderedIndex ↔ entry ∈ t.orderedIndex ∧ entry ≠ name := by
        intro entry
        rw [← hGet, mem_removeIndexEntry h.distinct, forall_prop_of_true hI]
      have hNames : t'.names = t.names := by
        unfold names
        rw [← hGet, children_removeIndexEntry]
      refine (ordered_insertIdx_iff orderedIndex_setIndex (hGet ▸ removeIndexEntry_nodup h.distinct)
        (fun entry hEntry => ?_) ?_ ?_).mpr fun hBack => (hMem.mp hBack).2 rfl
      · rw [names_setIndex, hNames]
        exact h.current entry (hMem.mp hEntry).1
      · rw [names_setIndex, hNames]
        exact h.current name hIn
      · split
        · split
          · exact lastIndexOf_getD_le ..
          · exact Nat.le_refl _
        · exact Nat.le_refl _

theorem children_reorderChild {moveToBeforeThis : Option Str} :
    (t.reorderChild name moveToBeforeThis).children = t.children := by
  unfold reorderChild
  split
  · rfl
  · cases hRemove : t.removeIndexEntry name with
    | none => rfl
    | some t' =>
      have hGet : (t.removeIndexEntry name).getD t = t' := by rw [hRemove]; rfl
      dsimp only
      rw [children_setIndex, ← hGet, children_removeIndexEntry]

/-! ### Removing children -/

/-- All entries are names that are taken out of an index. -/
def Removable (t : DataTree Msg) : Prop :=
  ∀ entry ∈ t.orderedIndex, entry.head? = some 'I'

theorem induct {P : DataTree Msg → Prop}
    (h : ∀ t : DataTree Msg, (∀ child, Inside child t → P child) → P t) (t : DataTree Msg) : P t := by
  refine @DataTree.rec Msg P (fun children => ∀ child ∈ children, P child.2) (fun child => P child.2)
    (fun data children index counter ih => ?_) (fun child hIn => ?_) (fun first rest ihFirst ihRest child hIn => ?_)
    (fun name child ih => ih) t
  · refine h _ ?_
    rintro child ⟨name, hIn⟩
    exact ih (name, child) hIn
  · cases hIn
  · rcases List.mem_cons.mp hIn with rfl | hIn
    · exact ihFirst
    · exact ihRest child hIn

theorem mem_detachedChildren {children : List (Str × DataTree Msg)} {d : DataTree Msg} :
    d ∈ detachedChildren children ↔ ∃ name child, (name, child) ∈ children ∧ d ∈ child.detached := by
  induction children with
  | nil => simp [detachedChildren]
  | cons first rest ih =>
    obtain ⟨name, child⟩ := first
    unfold detachedChildren
    rw [List.mem_append, ih]
    constructor
    · rintro (h | ⟨name', child', hIn, h⟩)
      · exact ⟨name, child, List.mem_cons_self, h⟩
      · exact ⟨name', child', List.mem_cons_of_mem _ hIn, h⟩
    · rintro ⟨name', child', hIn, h⟩
      rcases List.mem_cons.mp hIn with hSame | hIn
      · cases hSame
        exact .inl h
      · exact .inr ⟨name', child', hIn, h⟩

/-- A node when all its children were removed. -/
def cleared (t : DataTree Msg) : DataTree Msg :=
  ((t.setChildren []).removeIndexEntries t.names).setChildren []

theorem mem_detached {d : DataTree Msg} :
    d ∈ t.detached ↔ d = t.cleared ∨ ∃ child, Inside child t ∧ d ∈ child.detached := by
  cases t with
  | mk data children index counter =>
    rw [detached, List.mem_append, mem_detachedChildren, List.mem_singleton]
    constructor
    · rintro (⟨name, child, hIn, h⟩ | h)
      · exact .inr ⟨child, ⟨name, hIn⟩, h⟩
      · exact .inl h
    · rintro (h | ⟨child, ⟨name, hIn⟩, h⟩)
      · exact .inr h
      · exact .inl ⟨name, child, hIn, h⟩

theorem not_inside_setChildren_nil : ¬ Inside child (t.setChildren []) := by
  rintro ⟨name, hIn⟩
  rw [children_setChildren] at hIn
  cases hIn

/-- A cleared node is in order exactly if its whole index could be removed. -/
theorem throughout_cleared_iff (h : t.Ordered) : Throughout Inside Ordered t.cleared ↔ t.Removable := by
  have hNodup : (t.setChildren []).orderedIndex.Nodup := by
    rw [orderedIndex_setChildren]
    exact h.distinct
  have hNames : t.cleared.names = [] := by
    unfold cleared names
    rw [children_setChildren]
    rfl
  have hMem : ∀ entry, entry ∈ t.cleared.orderedIndex ↔
      entry ∈ t.orderedIndex ∧ ∀ name ∈ t.names, name.head? = some 'I' → entry ≠ name := by
    intro entry
    unfold cleared
    rw [orderedIndex_setChildren, (mem_removeIndexEntries t.names hNodup).2, orderedIndex_setChildren]
  constructor
  · intro hOrdered entry hEntry
    by_contra hNotI
    have hLeft : entry ∈ t.cleared.orderedIndex :=
      (hMem entry).mpr ⟨hEntry, fun name _ hI hSame => hNotI (hSame ▸ hI)⟩
    have hNone := hOrdered.here.current entry hLeft
    rw [hNames] at hNone
    cases hNone
  · intro hRemovable
    refine .intro _ ⟨?_, fun entry hEntry => ?_⟩ fun child hChild => absurd hChild not_inside_setChildren_nil
    · unfold cleared
      rw [orderedIndex_setChildren]
      exact (@mem_removeIndexEntries Msg (t.setChildren []) [] t.names hNodup).1
    · obtain ⟨hIn, hNot⟩ := (hMem entry).mp hEntry
      exact absurd rfl (hNot entry (h.current entry hIn) (hRemovable entry hIn))

/-- What a recursive removal takes out is in order exactly if all indices that it meets could be removed. -/
theorem detached_ordered_iff (t : DataTree Msg) (h : Throughout Inside Ordered t) :
    (∀ d ∈ t.detached, Throughout Inside Ordered d) ↔ Throughout Inside Removable t := by
  induction t using DataTree.induct with
  | h t ih =>
    constructor
    · intro hAll
      refine .intro t ((throughout_cleared_iff h.here).mp (hAll _ (mem_detached.mpr (.inl rfl)))) fun child hChild => ?_
      exact (ih child hChild (h.item hChild)).mp fun d hd => hAll d (mem_detached.mpr (.inr ⟨child, hChild, hd⟩))
    · intro hRemovable d hd
      rcases mem_detached.mp hd with rfl | ⟨child, hChild, hd⟩
      · exact (throughout_cleared_iff h.here).mpr hRemovable.here
      · exact (ih child hChild (h.item hChild)).mpr (hRemovable.item hChild) d hd

theorem inside_of_child? (h : t.child? key = some child) : Inside child t := by
  obtain ⟨found, hFound, hSame⟩ := Option.map_eq_some_iff.mp h
  obtain ⟨hKey, hIn⟩ := List.find?_eq_some_iff_append.mp hFound
  exact ⟨found.1, hSame ▸ List.mem_of_find?_eq_some hFound⟩

/-- A node stays in order if another child of the name goes exactly if its entry goes too. -/
theorem ordered_removeChild_iff (h : t.Ordered) (hChild : t.child? key = some child) (recurse : Bool) :
    (t.removeChild key recurse).1.Ordered ↔ (key ∈ t.orderedIndex → key.head? = some 'I') := by
  unfold removeChild
  rw [hChild]
  dsimp only
  have hNames : ∀ entry, entry ∈ (((t.removeIndexEntry key).getD t).setChildren
      (((t.removeIndexEntry key).getD t).children.filter fun old => !(old.1 == key))).names ↔
      entry ∈ t.names ∧ entry ≠ key := by
    intro entry
    rw [mem_names, mem_names, children_setChildren, children_removeIndexEntry]
    simp only [List.mem_filter, Bool.not_eq_true', beq_eq_false_iff_ne, ne_eq, exists_and_right]
  constructor
  · intro hOrdered hIn
    by_contra hNotI
    have hLeft : key ∈ (((t.removeIndexEntry key).getD t).setChildren
        (((t.removeIndexEntry key).getD t).children.filter fun old => !(old.1 == key))).orderedIndex := by
      rw [orderedIndex_setChildren, mem_removeIndexEntry h.distinct]
      exact ⟨hIn, fun hI => absurd hI hNotI⟩
    exact ((hNames key).mp (hOrdered.current key hLeft)).2 rfl
  · intro hI
    refine ⟨?_, fun entry hEntry => ?_⟩
    · rw [orderedIndex_setChildren]
      exact removeIndexEntry_nodup h.distinct
    · rw [orderedIndex_setChildren, mem_removeIndexEntry h.distinct] at hEntry
      exact (hNames entry).mpr ⟨h.current entry hEntry.1, fun hSame => hEntry.2 (hI (hSame ▸ hEntry.1)) hSame⟩

theorem inside_removeChild {other : DataTree Msg} {recurse : Bool} (h : Inside other (t.removeChild key recurse).1) :
    Inside other t := by
  unfold removeChild at h
  split at h
  · obtain ⟨name, hIn⟩ := h
    rw [children_setChildren, children_removeIndexEntry] at hIn
    exact ⟨name, List.mem_of_mem_filter hIn⟩
  · exact h

end DataTree

/-! ### Runs -/

/-- A call of one of the functions that change a node's children or index. -/
inductive IndexOp (Msg : Type) where
  | insertOrderedChild (data : Option Msg) (optInsertBefore optNodeName : Option Str) (pooled : UInt32)
  | putChild (name : Str) (data : Option Msg) (pooled : UInt32)
  | reorderChild (name : Str) (moveToBeforeThis : Option Str)
  | removeChild (key : Str) (recurse : Bool)
  | insertIndexEntryAt (insertIndex : Nat) (key : Str)
  | removeIndexEntryAt (removeIndex : Nat)

namespace DataTree

variable {t child : DataTree Msg}

/-- The node after the call, with the nodes that the call took out of the tree. -/
def apply (t : DataTree Msg) : IndexOp Msg → DataTree Msg × List (DataTree Msg)
  | .insertOrderedChild data optInsertBefore optNodeName pooled =>
    (t.insertOrderedChild data optInsertBefore optNodeName pooled, [])
  | .putChild name data pooled => (t.putChild name (new data pooled), (t.child? name).toList)
  | .reorderChild name moveToBeforeThis => (t.reorderChild name moveToBeforeThis, [])
  | .removeChild key recurse => t.removeChild key recurse
  | .insertIndexEntryAt insertIndex key => (t.insertIndexEntryAt insertIndex key, [])
  | .removeIndexEntryAt removeIndex => (t.removeIndexEntryAt removeIndex, [])

def node? : Path → DataTree Msg → Option (DataTree Msg)
  | [], t => some t
  | name :: rest, t => (t.child? name).bind (node? rest)

/-- The call on the node at a path. -/
def applyAt (op : IndexOp Msg) : Path → DataTree Msg → DataTree Msg × List (DataTree Msg)
  | [], t => t.apply op
  | name :: rest, t =>
    match t.child? name with
    | some child =>
      let (child, removed) := applyAt op rest child
      (t.setChildren (t.children.map fun old => if old.1 = name then (name, child) else old), removed)
    | none => (t, [])

/-- The call puts no entry a second time, and removes no child whose entry would be left behind. -/
def KeepsOrder (t : DataTree Msg) : IndexOp Msg → Prop
  | .insertOrderedChild _ _ optNodeName _ => ∀ name, optNodeName = some name → name ∉ t.orderedIndex
  | .insertIndexEntryAt insertIndex key =>
    t.hasChild key ∧ insertIndex ≤ t.orderedIndex.length → key ∉ t.orderedIndex
  | .removeChild key recurse => ∀ child, t.child? key = some child →
    (key ∈ t.orderedIndex → key.head? = some 'I') ∧ (recurse = true → Throughout Inside Removable child)
  | .putChild _ _ _ | .reorderChild _ _ | .removeIndexEntryAt _ => True

theorem new_ordered (data : Option Msg) (pooled : UInt32) : Throughout Inside Ordered (new data pooled) := by
  refine .intro _ ⟨List.nodup_nil, fun entry hEntry => ?_⟩ fun child hChild => ?_
  · cases hEntry
  · obtain ⟨name, hIn⟩ := hChild
    cases hIn

/-- With the children in order it is the node itself that counts. -/
theorem throughout_iff_of_children (hChildren : ∀ child, Inside child t → Throughout Inside Ordered child) :
    Throughout Inside Ordered t ↔ t.Ordered :=
  ⟨Throughout.here, fun h => .intro t h hChildren⟩

/-- The nodes in and out of the tree after the call are in order. -/
theorem apply_ordered_iff (h : Throughout Inside Ordered t) (op : IndexOp Msg) :
    (Throughout Inside Ordered (t.apply op).1 ∧ ∀ d ∈ (t.apply op).2, Throughout Inside Ordered d) ↔
      t.KeepsOrder op := by
  have hSame : ∀ {t'}, t'.children = t.children →
      ∀ child, Inside child t' → Throughout Inside Ordered child := by
    rintro t' hEq child ⟨name, hIn⟩
    exact h.item ⟨name, hEq ▸ hIn⟩
  have hPut : ∀ {t' : DataTree Msg} {name data pooled}, t'.children = t.children →
      ∀ child, Inside child (t'.putChild name (new data pooled)) → Throughout Inside Ordered child := by
    intro t' name data pooled hEq child hChild
    rcases inside_putChild hChild with rfl | hOld
    · exact new_ordered data pooled
    · exact hSame hEq child hOld
  cases op with
  | insertOrderedChild data optInsertBefore optNodeName pooled =>
    refine (and_iff_left (by simp [apply])).trans ?_
    refine (throughout_iff_of_children fun child hChild => ?_).trans (ordered_insertOrderedChild_iff h.here ..)
    rcases t.insertOrderedChild_eq data optInsertBefore optNodeName pooled with hEq | ⟨name, counter, -, hEq⟩
    · exact hSame rfl child (hEq ▸ hChild)
    · have hIn : Inside child (((t.setCounter counter).putChild name (new data pooled)).setIndex
          (t.orderedIndex.insertIdx (t.insertPosition optInsertBefore) name)) := hEq ▸ hChild
      obtain ⟨key, hIn⟩ := hIn
      rw [children_setIndex] at hIn
      exact hPut children_setCounter child ⟨key, hIn⟩
  | putChild name data pooled =>
    refine iff_of_true ⟨?_, fun d hd => ?_⟩ trivial
    · exact (throughout_iff_of_children (hPut rfl)).mpr (ordered_putChild h.here)
    · exact h.item (inside_of_child? (Option.mem_toList.mp hd))
  | reorderChild name moveToBeforeThis =>
    refine iff_of_true ⟨(throughout_iff_of_children (hSame ?_)).mpr (ordered_reorderChild h.here _), by simp [apply]⟩
      trivial
    exact children_reorderChild
  | removeChild key recurse =>
    cases hChild : t.child? key with
    | none =>
      refine iff_of_true ?_ (fun child hSome => ?_)
      · simp only [apply, removeChild, hChild]
        exact ⟨h, by simp⟩
      · rw [hChild] at hSome
        cases hSome
    | some child =>
      have hBelow := h.item (inside_of_child? hChild)
      have hHere := throughout_iff_of_children (t := (t.removeChild key recurse).1) fun other hOther =>
        h.item (inside_removeChild hOther)
      have hGone : (∀ d ∈ (t.removeChild key recurse).2, Throughout Inside Ordered d) ↔
          (recurse = true → Throughout Inside Removable child) := by
        simp only [removeChild, hChild]
        cases recurse with
        | true => simpa using detached_ordered_iff child hBelow
        | false => simpa using hBelow
      refine (and_congr (hHere.trans (ordered_removeChild_iff h.here hChild recurse)) hGone).trans ?_
      constructor
      · rintro hBoth other hOther
        rw [hChild] at hOther
        cases hOther
        exact hBoth
      · exact fun hAll => hAll child hChild
  | insertIndexEntryAt insertIndex key =>
    refine (and_iff_left (by simp [apply])).trans ?_
    refine (throughout_iff_of_children (hSame ?_)).trans (ordered_insertIndexEntryAt_iff h.here insertIndex)
    show (t.insertIndexEntryAt insertIndex key).children = t.children
    unfold insertIndexEntryAt
    split
    · exact children_setIndex
    · rfl
  | removeIndexEntryAt removeIndex =>
    refine iff_of_true ⟨?_, by simp [apply]⟩ trivial
    exact (throughout_iff_of_children (hSame children_setIndex)).mpr (ordered_removeIndexEntryAt h.here removeIndex)

/-- The same anywhere in the tree. -/
theorem applyAt_ordered_iff (op : IndexOp Msg) (path : Path) (h : Throughout Inside Ordered t) :
    (Throughout Inside Ordered (applyAt op path t).1 ∧
        ∀ d ∈ (applyAt op path t).2, Throughout Inside Ordered d) ↔
      ∀ node, node? path t = some node → node.KeepsOrder op := by
  induction path generalizing t with
  | nil =>
    refine (apply_ordered_iff h op).trans ⟨fun hKeeps node hNode => ?_, fun hAll => hAll t rfl⟩
    cases hNode
    exact hKeeps
  | cons name rest ih =>
    unfold applyAt node?
    cases hChild : t.child? name with
    | none => exact iff_of_true ⟨h, by simp⟩ (fun node hNode => by cases hNode)
    | some child =>
      refine (and_congr_left fun _ => ?_).trans (ih (h.item (inside_of_child? hChild)))
      have hNames : (t.children.map fun old => if old.1 = name then (name, (applyAt op rest child).1) else old).map
          Prod.fst = t.names := by
        rw [List.map_map]
        refine List.map_congr_left fun old _ => ?_
        show (if old.1 = name then (name, (applyAt op rest child).1) else old).1 = old.1
        split
        next hSame => exact hSame.symm
        next => rfl
      constructor
      · intro hAll
        refine hAll.item ⟨name, ?_⟩
        rw [children_setChildren]
        obtain ⟨found, hFound, -⟩ := Option.map_eq_some_iff.mp hChild
        have hKey : found.1 = name := by simpa using List.find?_some hFound
        exact List.mem_map.mpr ⟨found, List.mem_of_find?_eq_some hFound, if_pos hKey⟩
      · intro hNew
        refine .intro _ ⟨?_, fun entry hEntry => ?_⟩ ?_
        · rw [orderedIndex_setChildren]
          exact h.here.distinct
        · rw [orderedIndex_setChildren] at hEntry
          unfold names
          rw [children_setChildren, hNames]
          exact h.here.current entry hEntry
        · rintro other ⟨key, hIn⟩
          rw [children_setChildren] at hIn
          obtain ⟨old, hOld, hSame⟩ := List.mem_map.mp hIn
          split at hSame
          · cases hSame
            exact hNew
          · exact h.item ⟨key, hSame ▸ hOld⟩

/-- A call on the node at a path, with the tree and the nodes that were taken out of it. -/
def step (state : DataTree Msg × List (DataTree Msg)) (call : Path × IndexOp Msg) :
    DataTree Msg × List (DataTree Msg) :=
  let (t, removed) := applyAt call.2 call.1 state.1
  (t, state.2 ++ removed)

def AllOrdered (state : DataTree Msg × List (DataTree Msg)) : Prop :=
  Throughout Inside Ordered state.1 ∧ ∀ d ∈ state.2, Throughout Inside Ordered d

def CallKeepsOrder (state : DataTree Msg × List (DataTree Msg)) (call : Path × IndexOp Msg) : Prop :=
  ∀ node, node? call.1 state.1 = some node → node.KeepsOrder call.2

theorem step_allOrdered_iff {state : DataTree Msg × List (DataTree Msg)} (h : AllOrdered state)
    (call : Path × IndexOp Msg) : AllOrdered (step state call) ↔ CallKeepsOrder state call := by
  refine Iff.trans ?_ (applyAt_ordered_iff call.2 call.1 h.1)
  refine and_congr_right fun _ => ?_
  simp only [step, List.mem_append]
  exact ⟨fun hAll d hd => hAll d (.inr hd), fun hNew d hd => hd.elim (h.2 d) (hNew d)⟩

/-- An ordered child with a name of the caller's is removed, and its entry is not. -/
def namedThenRemoved : List (Path × IndexOp Nat) :=
  [([], .insertOrderedChild (some 1) none (some ['x']) 0), ([], .removeChild ['x'] true)]

end DataTree

end BeShare.Muscle.Reflect
