import BeShare.Reflect.StringMatcher
import Mathlib.Data.List.Nodup

/-!
A `PathMatcher`: a table of path patterns, each with its clauses and perhaps a filter on the data of the nodes.
The table is an ordered list without double paths, as `Hashtable` was proved to be.
-/

namespace BeShare.Muscle.Reflect

/-- The names of a node and of its ancestors, from the root down. The root has the empty path. -/
abbrev Path := List Str

/-- `QueryFilter::Matches` on the data and the path of a node. -/
structure QueryFilter (Msg : Type) where
  isMatch : Msg → Path → Bool

/-- `AdjustStringPrefix(path, optPrepend)` -/
def adjustStringPrefix (path prepend : Str) : Str :=
  match path with
  | [] => []
  | '/' :: rest => rest
  | _ => prepend ++ '/' :: path

def DEFAULT_PATH_PREFIX : Str := ['*', '/', '*']

/-- The clauses between the slashes. -/
def splitClauses : Str → List Str
  | [] => [[]]
  | c :: path =>
    if c = '/' then [] :: splitClauses path
    else
      match splitClauses path with
      | clause :: clauses => (c :: clause) :: clauses
      | [] => [[c]]

/-- A clause `*` has no matcher: it matches all. -/
def parseClause (regex : Regex) (clause : Str) : Option (Option StringMatcher) :=
  if clause = ['*'] then some none
  else (StringMatcher.setPattern regex clause).map some

def parsePath (regex : Regex) (path : Str) : Option (List (Option StringMatcher)) :=
  if path = [] then none else (splitClauses path).mapM (parseClause regex)

/-- `nextMatcher == NULL || nextMatcher->Match(name)` -/
def clauseMatches (clause : Option StringMatcher) (name : Str) : Bool :=
  match clause with
  | none => true
  | some m => m.isMatch name

structure PathMatcherEntry (regex : Regex) (Msg : Type) where
  path : Str
  parser : List (Option StringMatcher)
  filter : Option (QueryFilter Msg)
  parsed : parsePath regex path = some parser

namespace PathMatcherEntry

variable {regex : Regex} {Msg : Type} (entry : PathMatcherEntry regex Msg)

/-- `GetItemAt(j)` of the entry, and whether it matches. -/
def matchesAt (j : Nat) (name : Str) : Bool :=
  match entry.parser[j]? with
  | some clause => clauseMatches clause name
  | none => false

def filterMatches (optMsg : Option Msg) (node : Path) : Bool :=
  match entry.filter, optMsg with
  | some filter, some msg => filter.isMatch msg node
  | _, _ => true

end PathMatcherEntry

structure PathMatcher (regex : Regex) (Msg : Type) where
  entries : List (PathMatcherEntry regex Msg)
  nodup : (entries.map PathMatcherEntry.path).Nodup
  numFilters : Nat

namespace PathMatcher

variable {regex : Regex} {Msg : Type} (m : PathMatcher regex Msg)

def empty : PathMatcher regex Msg := ⟨[], List.nodup_nil, 0⟩

/-- `GetEntries().Get(path)` -/
def get (path : Str) : Option (PathMatcherEntry regex Msg) :=
  m.entries.find? fun e => e.path == path

/-- `_entries.Put`: the new entry takes the place of an old one with its path. -/
def putEntry (entry : PathMatcherEntry regex Msg) (entries : List (PathMatcherEntry regex Msg)) :
    List (PathMatcherEntry regex Msg) :=
  if entries.any fun e => e.path == entry.path then
    entries.map fun e => if e.path == entry.path then entry else e
  else entries ++ [entry]

theorem putEntry_nodup {entry : PathMatcherEntry regex Msg} {entries : List (PathMatcherEntry regex Msg)}
    (h : (entries.map PathMatcherEntry.path).Nodup) :
    ((putEntry entry entries).map PathMatcherEntry.path).Nodup := by
  unfold putEntry
  split
  · rw [List.map_map]
    convert h using 1
    refine List.map_congr_left fun e _ => ?_
    show (if e.path == entry.path then entry else e).path = e.path
    split
    · rename_i hSame
      exact (beq_iff_eq.mp hSame).symm
    · rfl
  · rename_i hNew
    rw [List.map_append, List.nodup_append]
    refine ⟨h, List.nodup_singleton _, fun path hPath path' hPath' => ?_⟩
    obtain ⟨e, he, rfl⟩ := List.mem_map.mp hPath
    obtain rfl := List.mem_singleton.mp hPath'
    intro hSame
    exact hNew (List.any_eq_true.mpr ⟨e, he, beq_iff_eq.mpr hSame⟩)

/-- `PutPathString`, or `none` for its `B_ERROR`. -/
def putPathString (path : Str) (filter : Option (QueryFilter Msg)) : Option (PathMatcher regex Msg) :=
  match h : parsePath regex path with
  | some parser =>
    some
      { entries := putEntry ⟨path, parser, filter, h⟩ m.entries
        nodup := putEntry_nodup m.nodup
        numFilters := if filter.isSome then m.numFilters + 1 else m.numFilters }
  | none => none

/-- `RemovePathString`, or `none` for its `B_ERROR`. -/
def removePathString (wildpath : Str) : Option (PathMatcher regex Msg) :=
  match m.get wildpath with
  | some entry =>
    some
      { entries := m.entries.filter fun e => !(e.path == wildpath)
        nodup := m.nodup.sublist ((List.filter_sublist).map _)
        numFilters := if entry.filter.isSome then m.numFilters - 1 else m.numFilters }
  | none => none

variable {m} {m' : PathMatcher regex Msg} {path key : Str} {filter : Option (QueryFilter Msg)}

theorem find_putEntry (entry : PathMatcherEntry regex Msg) (entries : List (PathMatcherEntry regex Msg))
    (key : Str) : (putEntry entry entries).find? (fun e => e.path == key) =
      if entry.path = key then some entry else entries.find? fun e => e.path == key := by
  have hReplace : ∀ l : List (PathMatcherEntry regex Msg),
      (l.map fun e => if e.path == entry.path then entry else e).find? (fun e => e.path == key) =
        if entry.path = key ∧ (l.any fun e => e.path == entry.path) then some entry
        else l.find? fun e => e.path == key := by
    intro l
    induction l with
    | nil => simp
    | cons e l ih =>
      rw [List.map_cons, List.find?_cons, List.find?_cons, ih, List.any_cons]
      by_cases hSame : e.path = entry.path
      · by_cases hKey : entry.path = key
        · simp [hSame, hKey]
        · simp [hSame, hKey, beq_eq_false_iff_ne.mpr hKey]
      · by_cases hKey : e.path = key
        · have hOther : entry.path ≠ key := fun h => hSame (hKey.trans h.symm)
          simp [hKey, hOther, Ne.symm hOther]
        · simp [hSame, beq_eq_false_iff_ne.mpr hKey]
  unfold putEntry
  split
  · rename_i hOld
    rw [hReplace]
    simp only [hOld, and_true]
  · rename_i hNew
    rw [List.find?_append]
    by_cases hKey : entry.path = key
    · subst hKey
      have hNone : (entries.find? fun e => e.path == entry.path) = none := by
        rw [List.find?_eq_none]
        exact fun e he hSame => hNew (List.any_eq_true.mpr ⟨e, he, hSame⟩)
      simp [hNone]
    · simp [hKey]

theorem get_putPathString (h : m.putPathString path filter = some m') :
    (∃ parser, ∃ hParsed : parsePath regex path = some parser, m'.get path = some ⟨path, parser, filter, hParsed⟩) ∧
      ∀ key, key ≠ path → m'.get key = m.get key := by
  unfold putPathString at h
  split at h
  · rename_i parser hParsed
    cases h
    refine ⟨⟨parser, hParsed, ?_⟩, fun key hKey => ?_⟩
    · exact (find_putEntry ..).trans (if_pos rfl)
    · exact (find_putEntry ..).trans (if_neg (Ne.symm hKey))
  · cases h

theorem putPathString_isSome : (m.putPathString path filter).isSome = (parsePath regex path).isSome := by
  unfold putPathString
  split
  · rename_i hParsed
    exact (congrArg Option.isSome hParsed).symm
  · rename_i hParsed
    exact (congrArg Option.isSome hParsed).symm

theorem get_removePathString (h : m.removePathString path = some m') :
    m'.get path = none ∧ ∀ key, key ≠ path → m'.get key = m.get key := by
  unfold removePathString at h
  split at h
  · cases h
    refine ⟨?_, fun key hKey => ?_⟩
    · refine List.find?_eq_none.mpr fun e he hSame => ?_
      obtain ⟨-, hNot⟩ := List.mem_filter.mp he
      rw [hSame] at hNot
      cases hNot
    · show List.find? _ (List.filter _ _) = List.find? _ _
      rw [List.find?_filter]
      congr 1
      funext e
      by_cases hSame : e.path = key
      · simp [hSame, hKey]
      · simp [hSame]
  · cases h

theorem get_eq_none_of_removePathString (h : m.removePathString path = none) : m.get path = none := by
  unfold removePathString at h
  split at h
  · cases h
  · assumption

end PathMatcher

end BeShare.Muscle.Reflect
