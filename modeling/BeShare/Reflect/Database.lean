import BeShare.Reflect.PathMatcher
import Mathlib.Data.List.Induction

/-!
The tree of `DataNode`s, as the list of its nodes by their paths. The children of a node come in the order in
which they were put.
-/

namespace BeShare.Muscle.Reflect

structure DataNode (Msg : Type) where
  data : Option Msg
  /-- `_subscribers`: the sessions that are to be told of changes, with their counts. -/
  subscribers : List (Str × Nat)

structure Database (Msg : Type) where
  nodes : List (Path × DataNode Msg)
  nodup : (nodes.map Prod.fst).Nodup
  /-- The parent of a node is a node. -/
  parent : ∀ p name, p ++ [name] ∈ nodes.map Prod.fst → p ∈ nodes.map Prod.fst

namespace Database

variable {Msg : Type} (db : Database Msg)

def paths : List Path :=
  db.nodes.map Prod.fst

def node? (p : Path) : Option (DataNode Msg) :=
  (db.nodes.find? fun entry => entry.1 == p).map Prod.snd

/-- `GetData()` -/
def data (p : Path) : Option Msg :=
  (db.node? p).bind DataNode.data

/-- The names of the children of a node. -/
def children (p : Path) : List Str :=
  db.paths.filterMap fun q => if q.dropLast = p then q.getLast? else none

def hasChild (p : Path) (name : Str) : Bool :=
  decide (p ++ [name] ∈ db.paths)

variable {db}

theorem mem_children {p : Path} {name : Str} : name ∈ db.children p ↔ p ++ [name] ∈ db.paths := by
  unfold children
  rw [List.mem_filterMap]
  constructor
  · rintro ⟨q, hq, hName⟩
    split at hName
    · rename_i hParent
      obtain ⟨front, rfl⟩ := List.getLast?_eq_some_iff.mp hName
      rw [List.dropLast_concat] at hParent
      rwa [← hParent]
    · cases hName
  · intro h
    refine ⟨p ++ [name], h, ?_⟩
    rw [List.dropLast_concat, if_pos rfl, List.getLast?_concat]

theorem children_nodup (p : Path) : (db.children p).Nodup := by
  refine List.Nodup.filterMap ?_ db.nodup
  intro q q' name hq hq'
  rw [Option.mem_def] at hq hq'
  split at hq
  · rename_i hParent
    split at hq'
    · rename_i hParent'
      obtain ⟨front, rfl⟩ := List.getLast?_eq_some_iff.mp hq
      obtain ⟨front', rfl⟩ := List.getLast?_eq_some_iff.mp hq'
      rw [List.dropLast_concat] at hParent hParent'
      rw [hParent, hParent']
    · cases hq'
  · cases hq

theorem prefix_mem {p q : Path} (h : p <+: q) (hq : q ∈ db.paths) : p ∈ db.paths := by
  obtain ⟨suffix, rfl⟩ := h
  induction suffix using List.reverseRec with
  | nil => rwa [List.append_nil] at hq
  | append_singleton suffix name ih =>
    rw [← List.append_assoc] at hq
    exact ih (db.parent _ name hq)

end Database

end BeShare.Muscle.Reflect
