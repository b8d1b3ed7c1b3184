import BeShare.Lib.Runs
import BeShare.Reflect.Archive
import BeShare.Reflect.Server

/-!
`SetDataNode` in full, and the calls of it that clone a subtree of the server's tree or restore one from its archive.
-/

namespace BeShare.Muscle.Reflect

variable {regex : Regex} {Msg : Type}

/-- The flags of `SetDataNode`. -/
structure SetFlags where
  overwrite : Bool
  create : Bool
  quiet : Bool
  addToIndex : Bool

namespace Server

/-- The next part is run after one that returned `B_NO_ERROR`. -/
def andThen (first : Option (Server regex Msg × Bool)) (next : Server regex Msg → Option (Server regex Msg × Bool)) :
    Option (Server regex Msg × Bool) :=
  first.bind fun after => if after.2 then next after.1 else some after

/-- `InsertOrderedChild`, as far as the nodes are concerned. The counter of a node makes only new names. -/
def insertOrderedChild (self : Str) (node : Path) (name : Str) (data : Msg) (quiet : Bool) (srv : Server regex Msg) :
    Option (Server regex Msg) :=
  if srv.db.hasChild node name then some srv
  else
    (srv.putChild self node name data (!quiet)).map fun srv =>
      srv.updateMember self fun m =>
        { m with indexingPresent := true, currentNodeCount := m.currentNodeCount + 1 }

/-- The loop of `SetDataNode`, with its status. An entry of the index that has no name gets one that is made. -/
def setNodeLoop (self : Str) (data : Msg) (flags : SetFlags) (made : Str) :
    Path → List Str → Server regex Msg → Option (Server regex Msg × Bool)
  | _, [], srv => some (srv, true)
  | node, clause :: rest, srv =>
    if srv.db.hasChild node clause then
      if rest.isEmpty then
        if flags.addToIndex then some (srv, true)
        else if flags.overwrite then
          (srv.setData self (node ++ [clause]) data (!flags.quiet) false).map fun srv => (srv, true)
        else some (srv, false)
      else setNodeLoop self data flags made (node ++ [clause]) rest srv
    else if flags.create && srv.hasRoom self then
      if rest.isEmpty && flags.addToIndex then
        (srv.insertOrderedChild self node (if clause = [] then made else clause) data flags.quiet).map fun srv =>
          (srv, true)
      else
        (srv.putChild self node clause (if rest.isEmpty then data else srv.blankMessage)
          (!(flags.quiet || rest.isEmpty))).bind fun srv =>
            let srv := srv.countNodes self (· + 1)
            if rest.isEmpty then
              (srv.setData self (node ++ [clause]) data (!flags.quiet) true).map fun srv => (srv, true)
            else setNodeLoop self data flags made (node ++ [clause]) rest srv
    else some (srv, false)

/-- `SetDataNode` -/
def setNode (self : Str) (nodePath : Str) (data : Msg) (flags : SetFlags) (made : Str) (srv : Server regex Msg) :
    Option (Server regex Msg × Bool) :=
  match srv.member? self with
  | some m =>
    if nodePath = [] ∨ nodePath.head? = some '/' then some (srv, true)
    else setNodeLoop self data flags made m.sessionDir (splitClauses nodePath) srv
  | none => some (srv, false)

/-- What the clients' `SETDATA` does is the same without the index and the status. -/
theorem setNodeLoop_fst (self : Str) (data : Msg) (overwrite create quiet : Bool) (made : Str) (node : Path)
    (clauses : List Str) (srv : Server regex Msg) :
    (setNodeLoop self data ⟨overwrite, create, quiet, false⟩ made node clauses srv).map Prod.fst =
      setDataLoop self data overwrite create quiet node clauses srv := by
  induction clauses generalizing node srv with
  | nil => rfl
  | cons clause rest ih =>
    unfold setNodeLoop setDataLoop
    rw [apply_ite (Option.map Prod.fst)]
    refine ite_congr rfl (fun _ => ?_) fun _ => ?_
    · rw [apply_ite (Option.map Prod.fst)]
      refine ite_congr rfl (fun _ => ?_) fun _ => ih ..
      rw [if_neg Bool.false_ne_true, apply_ite (Option.map Prod.fst), Option.map_map]
      exact ite_congr rfl (fun _ => Option.map_id') fun _ => rfl
    · rw [apply_ite (Option.map Prod.fst)]
      refine ite_congr rfl (fun _ => ?_) fun _ => rfl
      rw [Bool.and_false, if_neg Bool.false_ne_true, Option.map_bind]
      congr 1
      funext t
      show Option.map Prod.fst (ite _ _ _) = _
      rw [apply_ite (Option.map Prod.fst), Option.map_map]
      exact ite_congr rfl (fun _ => Option.map_id') fun _ => ih ..

/-! ### Clones -/

/-- The loop of `CloneDataNodeSubtree` over the children. -/
def cloneChildren (clone : Path → Str → Server regex Msg → Option (Server regex Msg × Bool)) (node : Path)
    (destPath : Str) (names : List Str) (srv : Server regex Msg) : Option (Server regex Msg × Bool) :=
  names.foldl (fun sofar name => andThen sofar (clone (node ++ [name]) (destPath ++ '/' :: name))) (some (srv, true))

/-- `CloneDataNodeSubtree`, down to some level, with what `optFunc` makes of the data. Whether the index of a clone
could be made after its children is given. -/
def cloneDataNodeSubtree (self : Str) (optFunc : Option Msg → Option Msg) (made : Str) (indexed : Str → Bool) :
    Nat → SetFlags → Path → Str → Server regex Msg → Option (Server regex Msg × Bool)
  | 0, _, _, _, srv => some (srv, false)
  | levels + 1, flags, node, destPath, srv =>
    match optFunc (srv.db.data node) with
    | some payload =>
      andThen (srv.setNode self destPath payload flags made) fun srv =>
        andThen (cloneChildren (cloneDataNodeSubtree self optFunc made indexed levels ⟨false, true, flags.quiet, false⟩)
          node destPath (srv.db.children node) srv) fun srv => some (srv, indexed destPath)
    | none => some (srv, false)

end Server

/-! ### Archives -/

/-- A call of `SetDataNode` while a subtree is restored. -/
structure SetCall (Msg : Type) where
  path : Str
  data : Msg
  addToIndex : Bool

namespace NodeArchive

/-- The calls for the child of this name, if there is one. -/
def callsOf (children : List (Str × (Str → Bool → List (SetCall Msg)))) (path name : Str) : List (SetCall Msg) :=
  match children.find? fun child => child.1 == name with
  | some child => child.2 (SessionTree.childPath path name) true
  | none => []

mutual

/-- The calls of `SetDataNode` that `RestoreNodeTreeFromMessage` makes, in their order, if none fails. -/
def restoreCalls : NodeArchive Msg → Str → Bool → Bool → List (SetCall Msg)
  | .mk nodeData nodeIndex nodeChildren, path, loadData, appendToIndex =>
    let here := (if loadData then nodeData else none).toList.map fun data => ⟨path, data, appendToIndex⟩
    let children : List (Str × (Str → Bool → List (SetCall Msg))) := childCalls nodeChildren
    here ++ nodeIndex.flatMap (callsOf children path) ++
      (children.filter fun child => !decide (child.1 ∈ nodeIndex)).flatMap fun child =>
        child.2 (SessionTree.childPath path child.1) false

/-- For each child the calls that restore it at a path. -/
def childCalls : List (Str × NodeArchive Msg) → List (Str × (Str → Bool → List (SetCall Msg)))
  | [] => []
  | (name, child) :: rest =>
    (name, fun path appendToIndex => restoreCalls child path true appendToIndex) :: childCalls rest

end

end NodeArchive

namespace SessionTree

open NodeArchive

variable (ctx : RestoreContext Msg)

/-- A call that a restored subtree makes. -/
def call (st : SessionTree Msg) (c : SetCall Msg) : Option (SessionTree Msg) :=
  setDataNode ctx c.path c.data true true c.addToIndex none st

/-- How the calls of a child restore it. -/
def restorerOf (child : Str × (Str → Bool → List (SetCall Msg))) : Str × Restorer Msg :=
  (child.1, fun path appendToIndex st => (child.2 path appendToIndex).foldlM (call ctx) st)

theorem restoreNamed_restorerOf (children : List (Str × (Str → Bool → List (SetCall Msg)))) (path name : Str)
    (st : SessionTree Msg) :
    restoreNamed (children.map (restorerOf ctx)) path st name = (callsOf children path name).foldlM (call ctx) st := by
  unfold restoreNamed callsOf
  rw [List.find?_map]
  cases hFind : children.find? fun child => child.1 == name with
  | none =>
    rw [show children.find? ((fun r => r.1 == name) ∘ restorerOf ctx) = none from hFind]
    rfl
  | some child =>
    rw [show children.find? ((fun r => r.1 == name) ∘ restorerOf ctx) = some child from hFind]
    rfl

mutual

/-- A session that restores a subtree makes these calls, and stops at the first that fails. -/
theorem restore_eq_calls (archive : NodeArchive Msg) (path : Str) (loadData appendToIndex : Bool)
    (st : SessionTree Msg) :
    restoreNodeTreeFromMessage ctx archive path loadData appendToIndex st =
      (archive.restoreCalls path loadData appendToIndex).foldlM (call ctx) st := by
  cases archive with
  | mk nodeData nodeIndex nodeChildren =>
    unfold restoreNodeTreeFromMessage restoreCalls
    rw [childRestorers_eq_calls nodeChildren, List.foldlM_append, List.foldlM_append]
    have hIndexed : ∀ st, nodeIndex.foldlM (restoreNamed ((childCalls nodeChildren).map (restorerOf ctx)) path) st =
        (nodeIndex.flatMap (callsOf (childCalls nodeChildren) path)).foldlM (call ctx) st := by
      intro st
      rw [Lib.foldlM_flatMap]
      congr 1
      funext st name
      exact restoreNamed_restorerOf ctx _ path name st
    have hOthers : ∀ st, (((childCalls nodeChildren).map (restorerOf ctx)).filter fun r =>
          !decide (r.1 ∈ nodeIndex)).foldlM (fun st r => r.2 (childPath path r.1) false st) st =
        (((childCalls nodeChildren).filter fun child => !decide (child.1 ∈ nodeIndex)).flatMap fun child =>
          child.2 (childPath path child.1) false).foldlM (call ctx) st := by
      intro st
      rw [Lib.foldlM_flatMap, List.filter_map, List.foldlM_map]
      rfl
    have hHere : (match loadData, nodeData with
          | true, some data => setDataNode ctx path data true true appendToIndex none st
          | _, _ => some st) =
        ((if loadData then nodeData else none).toList.map fun data => SetCall.mk path data appendToIndex).foldlM
          (call ctx) st := by
      cases loadData with
      | false => rfl
      | true =>
        cases nodeData with
        | none => rfl
        | some data => exact (bind_pure _).symm
    refine (congrArg (Option.bind · _) hHere).trans ?_
    refine Eq.trans ?_ (Option.bind_assoc ..).symm
    refine congrArg _ (funext fun t => ?_)
    refine (congrArg (Option.bind · _) (hIndexed t)).trans (congrArg _ (funext fun u => ?_))
    exact hOthers u

theorem childRestorers_eq_calls (children : List (Str × NodeArchive Msg)) :
    childRestorers ctx children = (childCalls children).map (restorerOf ctx) := by
  cases children with
  | nil => rfl
  | cons first rest =>
    unfold childRestorers childCalls
    rw [List.map_cons, childRestorers_eq_calls rest]
    congr 1
    refine Prod.ext rfl ?_
    funext path appendToIndex st
    exact restore_eq_calls first.2 path true appendToIndex st

end
end SessionTree

namespace Server

/-- `RestoreNodeTreeFromMessage`: its calls, up to the first that fails. -/
def restoreNodeTreeFromMessage (self : Str) (archive : NodeArchive Msg) (path : Str) (loadData appendToIndex : Bool)
    (made : Str) (srv : Server regex Msg) : Option (Server regex Msg × Bool) :=
  (archive.restoreCalls path loadData appendToIndex).foldl (fun sofar call =>
    andThen sofar fun srv => srv.setNode self call.path call.data ⟨true, true, false, call.addToIndex⟩ made)
    (some (srv, true))

end Server

/-- What happens to a server, from outside and by the code of its sessions. -/
inductive NodeEvent (Msg : Type) where
  | event (event : ServerEvent Msg)
  | clone (id : Str) (node : Path) (destPath : Str) (flags : SetFlags) (optFunc : Option Msg → Option Msg) (made : Str)
      (indexed : Str → Bool) (levels : Nat)
  | restore (id : Str) (archive : NodeArchive Msg) (path : Str) (loadData appendToIndex : Bool) (made : Str)

namespace Server

def nodeStep (srv : Server regex Msg) : NodeEvent Msg → Option (Server regex Msg)
  | .event event => srv.step event
  | .clone id node destPath flags optFunc made indexed levels =>
    (cloneDataNodeSubtree id optFunc made indexed levels flags node destPath srv).map Prod.fst
  | .restore id archive path loadData appendToIndex made =>
    (srv.restoreNodeTreeFromMessage id archive path loadData appendToIndex made).map Prod.fst

def runNodes (srv : Server regex Msg) (events : List (NodeEvent Msg)) : Option (Server regex Msg) :=
  events.foldlM nodeStep srv

end Server

end BeShare.Muscle.Reflect
