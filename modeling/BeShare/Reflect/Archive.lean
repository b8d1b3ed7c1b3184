import BeShare.Reflect.DataTree

/-!
`SaveNodeTreeToMessage` and `RestoreNodeTreeFromMessage`: a subtree as a Message and back, through the calls of
`SetDataNode` that make the nodes again one by one.
-/

namespace BeShare.Muscle.Reflect

open BeShare.Lib

variable {Msg : Type}

/-- The Message that a subtree is saved to. Of its three fields each has at most one value, and one with nothing in it
is not there. -/
inductive NodeArchive (Msg : Type) where
  | mk (nodeData : Option Msg) (nodeIndex : List Str) (nodeChildren : List (Str × NodeArchive Msg))

namespace DataTree

mutual

/-- `SaveNodeTreeToMessage`. Without data to save it stops there. -/
def saveNodeTreeToMessage (saveData : Bool) : DataTree Msg → NodeArchive Msg
  | mk data children index _ =>
    if saveData ∧ data = none then .mk none [] []
    else
      .mk (if saveData then data else none) (if children = [] then [] else index) (saveChildrenToMessage children)

def saveChildrenToMessage : List (Str × DataTree Msg) → List (Str × NodeArchive Msg)
  | [] => []
  | (name, child) :: rest => (name, saveNodeTreeToMessage true child) :: saveChildrenToMessage rest

end

end DataTree

/-- What a session has of the tree, and its `_currentNodeCount`. -/
structure SessionTree (Msg : Type) where
  sessionDir : DataTree Msg
  currentNodeCount : Nat

/-- What does not change while a subtree is restored. -/
structure RestoreContext (Msg : Type) where
  maxNodeCount : Nat
  blankMessage : Msg
  pooled : UInt32

/-- How a child is restored: at which path, and whether it is appended to the index. -/
abbrev Restorer (Msg : Type) :=
  Str → Bool → SessionTree Msg → Option (SessionTree Msg)

namespace SessionTree

variable (ctx : RestoreContext Msg)

/-- The loop of `SetDataNode` over the clauses of the path, or `none` for its `B_ERROR`. -/
def setDataLoop (data : Msg) (overwrite create addToIndex : Bool) (optInsertBefore : Option Str) :
    List Str → DataTree Msg → Nat → Option (DataTree Msg × Nat)
  | [], node, count => some (node, count)
  | clause :: rest, node, count =>
    match node.child? clause with
    | some child =>
      if rest = [] then
        if addToIndex then some (node, count)
        else if overwrite then some (node.putChild clause (child.setData (some data)), count)
        else none
      else
        (setDataLoop data overwrite create addToIndex optInsertBefore rest child count).map fun after =>
          (node.putChild clause after.1, after.2)
    | none =>
      if create ∧ count < ctx.maxNodeCount then
        if rest = [] then
          if addToIndex then
            some (node.insertOrderedChild (some data) optInsertBefore (if clause = [] then none else some clause)
              ctx.pooled, count + 1)
          else some (node.putChild clause (.new (some data) ctx.pooled), count + 1)
        else
          (setDataLoop data overwrite create addToIndex optInsertBefore rest
            (.new (some ctx.blankMessage) ctx.pooled) (count + 1)).map fun after =>
              (node.putChild clause after.1, after.2)
      else none

/-- `SetDataNode` -/
def setDataNode (nodePath : Str) (data : Msg) (overwrite create addToIndex : Bool) (optInsertBefore : Option Str)
    (st : SessionTree Msg) : Option (SessionTree Msg) :=
  if nodePath = [] ∨ nodePath.head? = some '/' then some st
  else
    (setDataLoop ctx data overwrite create addToIndex optInsertBefore (splitClauses nodePath) st.sessionDir
      st.currentNodeCount).map fun after => ⟨after.1, after.2⟩

/-- The path of a child. -/
def childPath (path name : Str) : Str :=
  if path = [] then name else path ++ '/' :: name

/-- Restores the child of this name, if there is one. -/
def restoreNamed (restorers : List (Str × Restorer Msg)) (path : Str) (st : SessionTree Msg) (name : Str) :
    Option (SessionTree Msg) :=
  match restorers.find? fun r => r.1 == name with
  | some r => r.2 (childPath path name) true st
  | none => some st

mutual

/-- `RestoreNodeTreeFromMessage`, or `none` for its `B_ERROR` -/
def restoreNodeTreeFromMessage : NodeArchive Msg → Str → Bool → Bool → SessionTree Msg → Option (SessionTree Msg)
  | .mk nodeData nodeIndex nodeChildren, path, loadData, appendToIndex, st =>
    let loaded :=
      match loadData, nodeData with
      | true, some data => setDataNode ctx path data true true appendToIndex none st
      | _, _ => some st
    let restorers : List (Str × Restorer Msg) := childRestorers nodeChildren
    -- first the indexed nodes, in the order of the index, then the others
    loaded.bind fun st =>
      (nodeIndex.foldlM (restoreNamed restorers path) st).bind fun st =>
        (restorers.filter fun (r : Str × Restorer Msg) => !decide (r.1 ∈ nodeIndex)).foldlM
          (fun st (r : Str × Restorer Msg) => r.2 (childPath path r.1) false st) st

/-- For each child how it is restored at a path. -/
def childRestorers : List (Str × NodeArchive Msg) → List (Str × Restorer Msg)
  | [] => []
  | (name, child) :: rest =>
    (name, fun path appendToIndex st => restoreNodeTreeFromMessage child path true appendToIndex st) ::
      childRestorers rest

end

end SessionTree

end BeShare.Muscle.Reflect
