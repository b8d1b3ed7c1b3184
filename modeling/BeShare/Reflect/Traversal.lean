import BeShare.Reflect.Database

/-!
`StorageReflectSession::NodePathMatcher`: which nodes match, and the traversal that calls a function on them.
-/

namespace BeShare.Muscle.Reflect

variable {regex : Regex} {Msg : Type}

/-! ### One node -/

/-- The loop of `PathMatches` over the clauses from the last one on; the names come from the node up. -/
def pathMatchesLoop (entry : PathMatcherEntry regex Msg) (rootDepth : Nat) : Nat → List Str → Bool
  | 0, _ => true
  | j + 1, travNode =>
    if rootDepth ≤ j then
      match travNode with
      | name :: parent =>
        if entry.matchesAt j name then pathMatchesLoop entry rootDepth j parent else false
      | [] => true
    else true

def pathMatches (node : Path) (optData : Option Msg) (entry : PathMatcherEntry regex Msg) (rootDepth : Nat) : Bool :=
  if (entry.parser.length : Int) = (node.length : Int) - rootDepth then
    if pathMatchesLoop entry rootDepth entry.parser.length node.reverse then entry.filterMatches optData node
    else false
  else false

namespace PathMatcher

variable (m : PathMatcher regex Msg)

def matchesNode (node : Path) (optData : Option Msg) (rootDepth : Nat) : Bool :=
  m.entries.any fun entry => pathMatches node optData entry rootDepth

def getMatchCount (node : Path) (optData : Option Msg) (rootDepth : Nat) : Nat :=
  m.entries.countP fun entry => pathMatches node optData entry rootDepth

/-! ### The traversal -/

/-- `TraversalContext`: the callback returns the depth to go on at. -/
structure TraversalContext where
  cb : Path → Int
  useFilters : Bool
  rootDepth : Nat

variable (db : Database Msg) (data : TraversalContext)

/-- The check of a single node that stands before the callback. -/
def mayCall (entry : PathMatcherEntry regex Msg) (node : Path) : Bool :=
  (decide (m.entries.length = 1) && (!data.useFilters || entry.filter.isNone)) ||
    m.matchesNode node (if data.useFilters then db.data node else none) data.rootDepth

/-- The loop of `CheckChildForTraversal` over the entries. `recurse` goes down to the child. The result is
what the callback is called on, and the depth if the traversal leaves the child's parent. -/
def checkChildLoop (recurse : Path → List Path × Int) (depth : Nat) (nextChild : Path) (name : Str) :
    List (PathMatcherEntry regex Msg) → Bool → Bool → List Path × Option Int
  | [], _, _ => ([], none)
  | entry :: rest, matched, recursed =>
    if decide (entry.parser.length > depth - data.rootDepth) &&
        entry.matchesAt (depth - data.rootDepth) name then
      if depth + 1 = data.rootDepth + entry.parser.length then
        if matched = false then
          if m.mayCall db data entry nextChild then
            let nextDepth := data.cb nextChild
            if nextDepth < (nextChild.length : Int) - 1 then ([nextChild], some nextDepth)
            else if recursed then ([nextChild], none)
            else
              let (calls, left) := checkChildLoop recurse depth nextChild name rest true recursed
              (nextChild :: calls, left)
          else checkChildLoop recurse depth nextChild name rest matched recursed
        else checkChildLoop recurse depth nextChild name rest matched recursed
      else if recursed = false then
        let (calls, nextDepth) := recurse nextChild
        if nextDepth < (nextChild.length : Int) - 1 then (calls, some nextDepth)
        else if matched then (calls, none)
        else
          let (more, left) := checkChildLoop recurse depth nextChild name rest matched true
          (calls ++ more, left)
      else checkChildLoop recurse depth nextChild name rest matched recursed
    else checkChildLoop recurse depth nextChild name rest matched recursed

def checkChildForTraversal (recurse : Path → List Path × Int) (node : Path) (name : Str) :
    List Path × Option Int :=
  m.checkChildLoop db data recurse node.length (node ++ [name]) name m.entries false false

/-- Goes over children until one of them leaves the node. -/
def checkChildren (recurse : Path → List Path × Int) (node : Path) : List Str → List Path × Int
  | [] => ([], node.length)
  | name :: rest =>
    match m.checkChildForTraversal db data recurse node name with
    | (calls, some depth) => (calls, depth)
    | (calls, none) =>
      let (more, depth) := checkChildren recurse node rest
      (calls ++ more, depth)

def parsersHaveWildcards (depth : Nat) : Bool :=
  m.entries.any fun entry =>
    match entry.parser[depth - data.rootDepth]? with
    | some (some matcher) => !matcher.isPatternUnique
    | some none => true
    | none => false

/-- The children that the literal clauses of this level name, each of them once. -/
def literalChildren (node : Path) : List (PathMatcherEntry regex Msg) → List Str → List Str
  | [], _ => []
  | entry :: rest, alreadyDid =>
    match entry.parser[node.length - data.rootDepth]? with
    | some (some matcher) =>
      if db.hasChild node matcher.pattern && !decide (matcher.pattern ∈ alreadyDid) then
        matcher.pattern :: literalChildren node rest (matcher.pattern :: alreadyDid)
      else literalChildren node rest alreadyDid
    | _ => literalChildren node rest alreadyDid

/-- `DoTraversalAux`. It never goes deeper than the longest entry. -/
def doTraversalAux : Nat → Path → List Path × Int
  | 0, node => ([], node.length)
  | levels + 1, node =>
    m.checkChildren db data (doTraversalAux levels) node
      (if m.parsersHaveWildcards data node.length then db.children node
       else literalChildren db data node m.entries [])

/-- The length of the longest entry. -/
def maxClauses : Nat :=
  (m.entries.map fun entry => entry.parser.length).foldr max 0

/-- `DoTraversal`: the nodes that the callback is called on, in order. -/
def doTraversal (cb : Path → Int) (node : Path) (useFilters : Bool) : List Path :=
  (m.doTraversalAux db ⟨cb, useFilters, node.length⟩ m.maxClauses node).1

/-- A callback that always returns the depth of its node. -/
def callWithDepth : Path → Int := fun node => node.length

end PathMatcher

end BeShare.Muscle.Reflect
