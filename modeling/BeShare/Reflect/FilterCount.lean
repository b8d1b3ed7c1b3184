import BeShare.Reflect.JettisonResults
import BeShare.Reflect.MatcherRuns

/-!
`_numFilters` of a `PathMatcher` over any sequence of puts, removals and clears, and how many of the entries have a
filter.
-/

namespace BeShare.Muscle.Reflect.PathMatcher

variable {regex : Regex} {Msg : Type}

/-! ### The operations -/

/-- `_entries.Put`, and `_numFilters` after it. -/
def put (m : PathMatcher regex Msg) (entry : PathMatcherEntry regex Msg) : PathMatcher regex Msg where
  entries := putEntry entry m.entries
  nodup := putEntry_nodup m.nodup
  numFilters := if entry.filter.isSome then m.numFilters + 1 else m.numFilters

def putPathsFromMatcher (m matcher : PathMatcher regex Msg) : PathMatcher regex Msg :=
  matcher.entries.foldl put m

inductive Operation (regex : Regex) (Msg : Type) where
  | putPathString (path : Str) (filter : Option (QueryFilter Msg))
  | putPathsFromMessage (keys : List (Str × Option (Option (QueryFilter Msg)))) (prependIfNoLeadingSlash : Option Str)
  | putPathsFromMatcher (matcher : PathMatcher regex Msg)
  | removePathString (wildpath : Str)
  | clear

/-- What an operation leaves of the table; one that fails leaves it as it is. -/
def operate (m : PathMatcher regex Msg) : Operation regex Msg → PathMatcher regex Msg
  | .putPathString path filter => (m.putPathString path filter).getD m
  | .putPathsFromMessage keys prependIfNoLeadingSlash => putPaths prependIfNoLeadingSlash none keys m
  | .putPathsFromMatcher matcher => m.putPathsFromMatcher matcher
  | .removePathString wildpath => (m.removePathString wildpath).getD m
  | .clear => empty

/-! ### Single changes -/

inductive Change (regex : Regex) (Msg : Type) where
  | put (entry : PathMatcherEntry regex Msg)
  | remove (path : Str)
  | clear

def change (m : PathMatcher regex Msg) : Change regex Msg → PathMatcher regex Msg
  | .put entry => m.put entry
  | .remove path => (m.removePathString path).getD m
  | .clear => empty

/-- The put of a path, if it makes a pattern. -/
def pathChange (regex : Regex) (path : Str) (filter : Option (QueryFilter Msg)) : List (Change regex Msg) :=
  match h : parsePath regex path with
  | some parser => [.put ⟨path, parser, filter, h⟩]
  | none => []

/-- `AdjustStringPrefix` of `PutPathFromString`. -/
def adjusted (prependIfNoLeadingSlash : Option Str) (str : Str) : Str :=
  match prependIfNoLeadingSlash, str with
  | some prepend, _ => adjustStringPrefix str prepend
  | none, '/' :: rest => rest
  | none, _ => str

def keyChanges (regex : Regex) (prependIfNoLeadingSlash : Option Str) :
    Option (QueryFilter Msg) → List (Str × Option (Option (QueryFilter Msg))) → List (Change regex Msg)
  | _, [] => []
  | filter, (str, own) :: keys =>
    pathChange regex (adjusted prependIfNoLeadingSlash str) (own.getD filter) ++
      keyChanges regex prependIfNoLeadingSlash (own.getD filter) keys

/-- The changes that an operation consists of. They do not depend on the table. -/
def Operation.changes : Operation regex Msg → List (Change regex Msg)
  | putPathString path filter => pathChange regex path filter
  | putPathsFromMessage keys prependIfNoLeadingSlash => keyChanges regex prependIfNoLeadingSlash none keys
  | putPathsFromMatcher matcher => matcher.entries.map .put
  | removePathString wildpath => [.remove wildpath]
  | clear => [.clear]

variable {m : PathMatcher regex Msg} {entry : PathMatcherEntry regex Msg} {path : Str}

variable {parser : List (Option StringMatcher)} {filter : Option (QueryFilter Msg)}

theorem pathChange_parsed (h : parsePath regex path = some parser) :
    pathChange regex path filter = [.put ⟨path, parser, filter, h⟩] := by
  unfold pathChange
  split
  · rename_i parser' hParsed
    cases h.symm.trans hParsed
    rfl
  · rename_i hNone
    cases h.symm.trans hNone

theorem pathChange_unparsed (h : parsePath regex path = none) : pathChange regex path filter = [] := by
  unfold pathChange
  split
  · rename_i parser' hParsed
    cases h.symm.trans hParsed
  · rfl

theorem putPathString_parsed (h : parsePath regex path = some parser) :
    m.putPathString path filter = some (m.put ⟨path, parser, filter, h⟩) := by
  unfold putPathString
  split
  · rename_i parser' hParsed
    cases h.symm.trans hParsed
    rfl
  · rename_i hNone
    cases h.symm.trans hNone

theorem foldl_pathChange (filter : Option (QueryFilter Msg)) :
    (pathChange regex path filter).foldl change m = (m.putPathString path filter).getD m := by
  cases hParsed : parsePath regex path with
  | some parser =>
    rw [pathChange_parsed hParsed, putPathString_parsed hParsed]
    rfl
  | none =>
    have hFails : m.putPathString path filter = none := by
      rw [← Option.not_isSome_iff_eq_none, putPathString_isSome, hParsed]
      exact Bool.false_ne_true
    rw [pathChange_unparsed hParsed, hFails]
    rfl

theorem foldl_keyChanges (prependIfNoLeadingSlash : Option Str) (filter : Option (QueryFilter Msg))
    (keys : List (Str × Option (Option (QueryFilter Msg)))) :
    (keyChanges regex prependIfNoLeadingSlash filter keys).foldl change m =
      putPaths prependIfNoLeadingSlash filter keys m := by
  induction keys generalizing filter m with
  | nil => rfl
  | cons key keys ih =>
    rw [keyChanges, List.foldl_append, foldl_pathChange, ih, putPaths]
    rfl

theorem foldl_changes (operation : Operation regex Msg) : operation.changes.foldl change m = m.operate operation := by
  cases operation with
  | putPathString path filter => exact foldl_pathChange filter
  | putPathsFromMessage keys prependIfNoLeadingSlash => exact foldl_keyChanges prependIfNoLeadingSlash none keys
  | putPathsFromMatcher matcher =>
    rw [Operation.changes, List.foldl_map]
    rfl
  | removePathString wildpath => rfl
  | clear => rfl

/-! ### The count -/

/-- How many entries have a filter. -/
def filtered (m : PathMatcher regex Msg) : Nat :=
  m.entries.countP fun e => e.filter.isSome

/-- Whether the path has an entry with a filter. -/
def isFiltered (m : PathMatcher regex Msg) (path : Str) : Bool :=
  (m.get path).any fun e => e.filter.isSome

/-- How many puts took the place of an entry with a filter since the table was clear, if there were `count` before. -/
def replacements : Nat → PathMatcher regex Msg → List (Change regex Msg) → Nat
  | count, _, [] => count
  | count, m, .put entry :: changes =>
    replacements (if m.isFiltered entry.path then count + 1 else count) (m.put entry) changes
  | count, m, .remove path :: changes => replacements count ((m.removePathString path).getD m) changes
  | _, _, .clear :: changes => replacements 0 empty changes

/-- A table without the path, or with one entry that has it. -/
theorem filtered_split (m : PathMatcher regex Msg) (path : Str) :
    (m.isFiltered path = false ∧ (∀ e ∈ m.entries, (e.path == path) = false)) ∨
      ∃ old a b, m.get path = some old ∧ m.entries = a ++ old :: b ∧ old.path = path ∧
        (∀ e ∈ a, (e.path == path) = false) ∧ (∀ e ∈ b, (e.path == path) = false) ∧
          m.isFiltered path = old.filter.isSome := by
  cases hGet : m.get path with
  | none =>
    refine .inl ⟨by rw [isFiltered, hGet]; rfl, fun e he => ?_⟩
    rw [← Bool.not_eq_true]
    exact List.find?_eq_none.mp hGet e he
  | some old =>
    obtain ⟨a, b, hSplit, hPath, hA, hB⟩ := get_split hGet
    exact .inr ⟨old, a, b, rfl, hSplit, hPath, hA, hB, by rw [isFiltered, hGet]; rfl⟩

theorem filtered_put (m : PathMatcher regex Msg) (entry : PathMatcherEntry regex Msg) :
    (m.put entry).filtered + (if m.isFiltered entry.path then 1 else 0) =
      m.filtered + if entry.filter.isSome then 1 else 0 := by
  unfold filtered put
  dsimp only
  rcases filtered_split m entry.path with ⟨hNot, hNew⟩ | ⟨old, a, b, -, hSplit, hPath, hA, hB, hOld⟩
  · have hNew : (m.entries.any fun e => e.path == entry.path) = false :=
      List.any_eq_false.mpr fun e he => by rw [hNew e he]; decide
    rw [hNot, putEntry, hNew, if_neg Bool.false_ne_true, if_neg Bool.false_ne_true, List.countP_append,
      List.countP_singleton]
    rfl
  · have hAny : (m.entries.any fun e => e.path == entry.path) = true :=
      List.any_eq_true.mpr ⟨old, by rw [hSplit]; simp, beq_iff_eq.mpr hPath⟩
    have hSame : ∀ l : List (PathMatcherEntry regex Msg), (∀ e ∈ l, (e.path == entry.path) = false) →
        l.map (fun e => if e.path == entry.path then entry else e) = l := by
      refine fun l hl => (List.map_congr_left fun e he => ?_).trans (List.map_id l)
      rw [hl e he]
      rfl
    rw [hOld, putEntry, if_pos hAny, hSplit, List.map_append, List.map_cons, hSame a hA, hSame b hB,
      if_pos (beq_iff_eq.mpr hPath), List.countP_append, List.countP_append, List.countP_cons, List.countP_cons]
    omega

theorem filtered_remove {m' : PathMatcher regex Msg} (h : m.removePathString path = some m') :
    m'.filtered + (if m.isFiltered path then 1 else 0) = m.filtered ∧
      m'.numFilters = if m.isFiltered path then m.numFilters - 1 else m.numFilters := by
  unfold removePathString at h
  split at h
  · rename_i old hGet
    cases h
    rcases filtered_split m path with ⟨hNot, hNew⟩ | ⟨old', a, b, hGet', hSplit, hPath, hA, hB, hOld⟩
    · have hSome := hNew old (List.mem_of_find?_eq_some hGet)
      have hFound : m.entries.find? (fun e => e.path == path) = some old := hGet
      have hPath := List.find?_some hFound
      rw [hPath] at hSome
      cases hSome
    · obtain rfl := Option.some.inj (hGet.symm.trans hGet')
      have hKeep : ∀ l : List (PathMatcherEntry regex Msg), (∀ e ∈ l, (e.path == path) = false) →
          l.filter (fun e => !(e.path == path)) = l :=
        fun l hl => List.filter_eq_self.mpr fun e he => by rw [hl e he]; rfl
      refine ⟨?_, by rw [hOld]⟩
      unfold filtered
      dsimp only
      rw [hOld, hSplit, List.filter_append, hKeep a hA, List.filter_cons_of_neg (by simp [hPath]), hKeep b hB,
        List.countP_append, List.countP_append, List.countP_cons]
      omega
  · cases h

/-- One change keeps the count, but for a put in the place of an entry with a filter. -/
theorem numFilters_run (changes : List (Change regex Msg)) (count : Nat) (h : m.numFilters = m.filtered + count) :
    (changes.foldl change m).numFilters = (changes.foldl change m).filtered + replacements count m changes := by
  induction changes generalizing m count with
  | nil => exact h
  | cons c changes ih =>
    cases c with
    | put entry =>
      refine ih _ ?_
      have hPut := filtered_put m entry
      have hNum : (m.put entry).numFilters = if entry.filter.isSome then m.numFilters + 1 else m.numFilters := rfl
      rw [change, hNum]
      cases hReplaced : m.isFiltered entry.path <;> cases hFilter : entry.filter.isSome <;>
        simp only [hReplaced, hFilter, if_true, if_false, Bool.false_eq_true] at hPut ⊢ <;> omega
    | remove path =>
      refine ih _ ?_
      rw [change]
      cases hRemove : m.removePathString path with
      | none => exact h
      | some m' =>
        obtain ⟨hFiltered, hNum⟩ := filtered_remove hRemove
        rw [Option.getD_some, hNum]
        cases hOld : m.isFiltered path <;>
          simp only [hOld, if_true, if_false, Bool.false_eq_true] at hFiltered ⊢ <;> omega
    | clear => exact ih 0 rfl

/-- After any sequence of operations, `_numFilters` is the number of entries with a filter exactly if no put since the
last `Clear`, or a multiple of `2 ^ 32` of them, took the place of an entry with a filter. -/
theorem numFilters_iff (operations : List (Operation regex Msg)) :
    UInt32.ofNat (operations.foldl operate empty).numFilters =
        UInt32.ofNat (operations.foldl operate empty).filtered ↔
      replacements 0 (empty : PathMatcher regex Msg) (operations.flatMap Operation.changes) % 2 ^ 32 = 0 := by
  have hRun : ∀ m : PathMatcher regex Msg,
      (operations.flatMap Operation.changes).foldl change m = operations.foldl operate m := by
    induction operations with
    | nil => exact fun m => rfl
    | cons operation operations ih =>
      intro m
      rw [List.flatMap_cons, List.foldl_append, foldl_changes, ih, List.foldl_cons]
  have hCount := numFilters_run (operations.flatMap Operation.changes) 0
    (rfl : (empty : PathMatcher regex Msg).numFilters = empty.filtered + 0)
  rw [hRun] at hCount
  rw [hCount, ← UInt32.toNat_inj, UInt32.toNat_ofNat', UInt32.toNat_ofNat']
  omega

/-- The same path is put twice, with a filter. -/
def putTwice : PathMatcher StringMatcher.plainRegex Unit :=
  [Operation.putPathString ['a'] (some ⟨fun _ _ => true⟩), .putPathString ['a'] (some ⟨fun _ _ => true⟩)].foldl operate
    empty

theorem putTwice_counted : putTwice.numFilters = 2 ∧ putTwice.filtered = 1 := by
  decide

end BeShare.Muscle.Reflect.PathMatcher
