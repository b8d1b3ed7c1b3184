import BeShare.Lib.Tokens
import BeShare.Reflect.CaseInsensitive

/-!
The users that a private message goes to, as `ShareWindow::ParseUserTargets` finds them in the line: by their session
IDs, by their names, or at last by a name that the line starts with.
-/

namespace BeShare.Client.UserTargets

open BeShare.Lib
open BeShare.Muscle.Reflect (Str Regex StringMatcher makeRegexCaseInsensitive posixRegex)

def CLUMP_CHAR : Char :=
  '\x01'

/-- `IsSpaceChar` -/
def isSpaceChar (c : Char) : Bool :=
  c == ' ' || c == '\t' || c == '\r' || c == '\n'

def trim (s : Str) : Str :=
  ((s.dropWhile isSpaceChar).reverse.dropWhile isSpaceChar).reverse

/-- A user with the handle that is displayed. `PutUser` trims it. -/
structure RemoteUserItem where
  sessionID : Str
  displayHandle : Str
  trimmed : trim displayHandle = displayHandle
  deriving DecidableEq

/-- `_users`, by session ID. -/
structure Users where
  items : List RemoteUserItem
  unique : (items.map RemoteUserItem.sessionID).Nodup

def Users.get (users : Users) (sessionID : Str) : Option RemoteUserItem :=
  users.items.find? (·.sessionID == sessionID)

/-- What is to be sent to whom. -/
abbrev Table := List (RemoteUserItem × Str)

def put (sendTo : Table) (user : RemoteUserItem) (text : Str) : Table :=
  if sendTo.any (·.1 == user) then sendTo.map fun entry => if entry.1 = user then (user, text) else entry
  else sendTo ++ [(user, text)]

/-- A clause that is a session ID is taken out. -/
def putSession (users : Users) (restOfString clause : Str) (found : Table × List Str) : Table × List Str :=
  match users.get clause with
  | some user => (put found.1 user restOfString, found.2)
  | none => (found.1, clause :: found.2)

/-- The loop over the clauses, the last one first, for session IDs. -/
def putSessions (users : Users) (restOfString : Str) (clauses : List Str) (sendTo : Table) : Table × List Str :=
  clauses.foldr (putSession users restOfString) (sendTo, [])

/-- The pattern of a clause. -/
def matcher (regex : Regex) (clause : Str) : StringMatcher :=
  (StringMatcher.unset.setPatternAs regex (makeRegexCaseInsensitive (trim clause)).1 true).1

def matchesName (regex : Regex) (clause : Str) (user : RemoteUserItem) : Bool :=
  !(trim user.displayHandle).isEmpty && (matcher regex clause).isMatch (trim user.displayHandle)

/-- All users whose names match the clause, and whether there are any. -/
def putMatches (regex : Regex) (users : Users) (restOfString clause : Str) (sendTo : Table) : Table × Bool :=
  users.items.foldl (fun found user =>
    if matchesName regex clause user then (put found.1 user restOfString, true) else found) (sendTo, false)

/-- A clause that matches a name is taken out. -/
def putName (regex : Regex) (users : Users) (restOfString clause : Str) (found : Table × List Str) :
    Table × List Str :=
  let matched := putMatches regex users restOfString clause found.1
  (matched.1, if matched.2 then found.2 else clause :: found.2)

/-- The loop over the clauses that are left. -/
def putNames (regex : Regex) (users : Users) (restOfString : Str) (clauses : List Str) (sendTo : Table) :
    Table × List Str :=
  clauses.foldr (putName regex users restOfString) (sendTo, [])

/-- The line starts with the name and a space. -/
def startsWithName (line : Str) (user : RemoteUserItem) : Bool :=
  let userName := trim user.displayHandle
  !userName.isEmpty && userName.isPrefixOf line && [' '].isPrefixOf (line.drop userName.length)

/-- What follows the name. -/
def behindName (line : Str) (user : RemoteUserItem) : Str :=
  trim (line.drop user.displayHandle.length)

/-- The full-string match, for names with spaces. -/
def putWhole (users : Users) (line : Str) (sendTo : Table) (targetStr : Str) : Table × Str :=
  users.items.foldl (fun found user =>
    if startsWithName line user then (put found.1 user (behindName line user), user.displayHandle) else found)
    (sendTo, targetStr)

def unclump (s : Str) : Str :=
  s.map fun c => if c = CLUMP_CHAR then ' ' else c

def isBlank (c : Char) : Bool :=
  c == ' '

/-- The clauses of the target. -/
def clausesOf (target : Str) : List Str :=
  (tokens (· == ',') target).map trim

/-- The table with the new entries, the target and the text behind it, or `B_ERROR`. -/
def parseUserTargets (regex : Regex) (users : Users) (text : Str) (sendTo : Table) : Option (Table × Str × Str) :=
  match nextToken isBlank text with
  | none => none
  | some (w2, rest) =>
    let restOfString := rest.dropWhile isBlank
    let sessions := putSessions users restOfString (clausesOf (unclump w2)) sendTo
    let names := putNames regex users restOfString sessions.2 sessions.1
    if names.1.isEmpty then
      let whole := putWhole users (unclump (text.dropWhile isBlank)) names.1 (unclump w2)
      some (whole.1, whole.2, restOfString)
    else some (names.1, unclump w2, restOfString)

variable {regex : Regex} {users : Users} {sendTo sendTo' sendTo'' : Table} {user : RemoteUserItem} {text s : Str}

/-! ### The table -/

theorem mem_put {u : RemoteUserItem} : (u, s) ∈ put sendTo user text ↔
    u = user ∧ s = text ∨ u ≠ user ∧ (u, s) ∈ sendTo := by
  unfold put
  split
  · rename_i hAny
    obtain ⟨entry, hEntry, hSame⟩ := List.any_eq_true.mp hAny
    rw [List.mem_map]
    constructor
    · rintro ⟨e, he, hResult⟩
      split at hResult
      · cases hResult
        exact .inl ⟨rfl, rfl⟩
      · cases hResult
        exact .inr ⟨‹_›, he⟩
    · rintro (⟨rfl, rfl⟩ | ⟨hNe, hMem⟩)
      · exact ⟨entry, hEntry, if_pos (beq_iff_eq.mp hSame)⟩
      · exact ⟨(u, s), hMem, if_neg hNe⟩
  · rename_i hAny
    rw [List.mem_append, List.mem_singleton, Prod.mk.injEq]
    constructor
    · rintro (hMem | hNew)
      · refine .inr ⟨?_, hMem⟩
        rintro rfl
        exact hAny (List.any_eq_true.mpr ⟨(u, s), hMem, beq_self_eq_true _⟩)
      · exact .inl hNew
    · rintro (hNew | ⟨-, hMem⟩)
      · exact .inr hNew
      · exact .inl hMem

/-- To the users that are meant the text is put, and the others keep what they have. -/
def Puts (meant : RemoteUserItem → Prop) (text : RemoteUserItem → Str) (sendTo sendTo' : Table) : Prop :=
  ∀ user s, (user, s) ∈ sendTo' ↔ meant user ∧ s = text user ∨ ¬meant user ∧ (user, s) ∈ sendTo

section

variable {meant meant' : RemoteUserItem → Prop} {text : RemoteUserItem → Str}

theorem puts_none (h : ∀ user, ¬meant user) : Puts meant text sendTo sendTo := fun user s => by
  simp only [h user, false_and, not_false_eq_true, true_and, false_or]

theorem puts_put (sendTo : Table) (user : RemoteUserItem) :
    Puts (· = user) text sendTo (put sendTo user (text user)) := by
  intro u s
  rw [mem_put]
  refine or_congr_left ⟨?_, ?_⟩ <;>
  · rintro ⟨rfl, h⟩
    exact ⟨rfl, h⟩

theorem Puts.trans (h : Puts meant text sendTo sendTo') (h' : Puts meant' text sendTo' sendTo'') :
    Puts (fun user => meant user ∨ meant' user) text sendTo sendTo'' := by
  intro user s
  rw [h' user s, h user s]
  by_cases hMeant : meant user <;> by_cases hMeant' : meant' user <;> simp only [hMeant, hMeant', true_and, false_and,
    not_true_eq_false, not_false_eq_true, or_true, or_false, false_or, or_self]

theorem Puts.congr (h : Puts meant text sendTo sendTo') (hSame : ∀ user, meant user ↔ meant' user) :
    Puts meant' text sendTo sendTo' := fun user s => by rw [h user s, hSame user]

/-- A loop over users that puts those that pass, whatever else it keeps. -/
theorem puts_foldl {β : Type} (p : RemoteUserItem → Bool) (note : RemoteUserItem → β) (items : List RemoteUserItem)
    (found : Table × β) : Puts (fun user => user ∈ items ∧ p user = true) text found.1
      (items.foldl (fun found user => if p user then (put found.1 user (text user), note user) else found)
        found).1 := by
  induction items generalizing found with
  | nil => exact puts_none fun _ h => nomatch h.1
  | cons user items ih =>
    rw [List.foldl_cons]
    by_cases hUser : p user = true
    · rw [if_pos hUser]
      refine ((puts_put found.1 user).trans (ih (put found.1 user (text user), note user))).congr fun u => ?_
      rw [List.mem_cons, or_and_right]
      exact or_congr_left ⟨fun h => ⟨h, h ▸ hUser⟩, And.left⟩
    · rw [if_neg hUser]
      refine (ih found).congr fun u => ?_
      rw [List.mem_cons, or_and_right]
      exact (or_iff_right fun h : u = user ∧ p u = true => hUser (h.1 ▸ h.2)).symm

end

/-! ### The loops -/

variable {clauses : List Str} {restOfString line : Str}

theorem puts_sessions (users : Users) (restOfString : Str) (clauses : List Str) (sendTo : Table) :
    Puts (fun user => ∃ clause ∈ clauses, users.get clause = some user) (fun _ => restOfString) sendTo
      (putSessions users restOfString clauses sendTo).1 ∧
    (putSessions users restOfString clauses sendTo).2 = clauses.filter fun clause => (users.get clause).isNone := by
  induction clauses with
  | nil => exact ⟨puts_none fun _ h => by simp at h, rfl⟩
  | cons clause clauses ih =>
    obtain ⟨hPuts, hLeft⟩ := ih
    have hStep : putSessions users restOfString (clause :: clauses) sendTo =
        putSession users restOfString clause (putSessions users restOfString clauses sendTo) := rfl
    rw [hStep, putSession, List.filter_cons]
    cases hGet : users.get clause with
    | none =>
      refine ⟨hPuts.congr fun user => ?_, congrArg (clause :: ·) hLeft⟩
      simp only [List.mem_cons, exists_eq_or_imp, hGet, reduceCtorEq, false_or]
    | some user =>
      refine ⟨(hPuts.trans (puts_put _ user)).congr fun u => ?_, hLeft⟩
      simp only [List.mem_cons, exists_eq_or_imp, hGet, Option.some.injEq]
      rw [or_comm, eq_comm]

theorem puts_names (regex : Regex) (users : Users) (restOfString : Str) (clauses : List Str) (sendTo : Table) :
    Puts (fun user => ∃ clause ∈ clauses, user ∈ users.items ∧ matchesName regex clause user = true)
      (fun _ => restOfString) sendTo (putNames regex users restOfString clauses sendTo).1 := by
  induction clauses with
  | nil => exact puts_none fun _ h => by simp at h
  | cons clause clauses ih =>
    have hMatches : Puts _ _ (putNames regex users restOfString clauses sendTo).1
        (putMatches regex users restOfString clause (putNames regex users restOfString clauses sendTo).1).1 :=
      puts_foldl (matchesName regex clause) (fun _ => true) users.items _
    refine (ih.trans hMatches).congr fun user => ?_
    simp only [List.mem_cons, exists_eq_or_imp]
    exact or_comm

theorem puts_whole (users : Users) (line : Str) (sendTo : Table) (targetStr : Str) :
    Puts (fun user => user ∈ users.items ∧ startsWithName line user = true) (behindName line) sendTo
      (putWhole users line sendTo targetStr).1 :=
  puts_foldl (startsWithName line) RemoteUserItem.displayHandle users.items (sendTo, targetStr)

theorem Users.get_iff {sessionID : Str} :
    users.get sessionID = some user ↔ user ∈ users.items ∧ user.sessionID = sessionID := by
  rw [Users.get]
  constructor
  · intro h
    have hFound := List.find?_some h
    exact ⟨List.mem_of_find?_eq_some h, beq_iff_eq.mp hFound⟩
  · rintro ⟨hMem, rfl⟩
    have hSome : (users.items.find? (·.sessionID == user.sessionID)).isSome = true :=
      List.find?_isSome.mpr ⟨user, hMem, beq_self_eq_true _⟩
    obtain ⟨u, hFind⟩ := Option.isSome_iff_exists.mp hSome
    have hFound := List.find?_some hFind
    rw [hFind]
    exact congrArg some
      (List.inj_on_of_nodup_map users.unique (List.mem_of_find?_eq_some hFind) hMem (beq_iff_eq.mp hFound))

/-! ### Who is meant -/

/-- A clause that is a session ID means its user; any other the users whose names match. -/
def Resolves (regex : Regex) (users : Users) (clause : Str) (user : RemoteUserItem) : Prop :=
  user ∈ users.items ∧ (user.sessionID = clause ∨
    clause ∉ users.items.map RemoteUserItem.sessionID ∧ matchesName regex clause user = true)

theorem startsWithName_iff : startsWithName line user = true ↔
    user.displayHandle ≠ [] ∧ user.displayHandle ++ [' '] <+: line := by
  rw [startsWithName, user.trimmed, Bool.and_eq_true, Bool.and_eq_true, Bool.not_eq_true', List.isEmpty_eq_false_iff,
    List.isPrefixOf_iff_prefix, List.isPrefixOf_iff_prefix, and_assoc]
  refine and_congr_right fun _ => ?_
  constructor
  · rintro ⟨⟨behind, rfl⟩, hSpace⟩
    rw [List.drop_left] at hSpace
    exact List.prefix_append_right_inj _ |>.mpr hSpace
  · rintro ⟨behind, rfl⟩
    rw [List.append_assoc, List.drop_left]
    exact ⟨List.prefix_append _ _, List.prefix_append _ _⟩

theorem resolves_iff {clauses : List Str} : (∃ clause ∈ clauses, Resolves regex users clause user) ↔
    (∃ clause ∈ clauses, users.get clause = some user) ∨
      ∃ clause ∈ clauses.filter fun clause => (users.get clause).isNone,
        user ∈ users.items ∧ matchesName regex clause user = true := by
  have hNone : ∀ clause, users.get clause = none ↔ clause ∉ users.items.map RemoteUserItem.sessionID := by
    intro clause
    rw [Option.eq_none_iff_forall_ne_some, List.mem_map]
    simp only [ne_eq, Users.get_iff, not_exists]
  simp only [← exists_or, List.mem_filter, Option.isNone_iff_eq_none, hNone, Users.get_iff, Resolves]
  refine exists_congr fun clause => ?_
  tauto

/-- What follows the target goes to the users that some clause of it resolves to. If there are none, the line is matched
against the names: what follows the name and a space goes to its user. -/
theorem parseUserTargets_spec {target rest : Str} (h : nextToken isBlank text = some (target, rest)) :
    ∃ sent targetStr, parseUserTargets regex users text [] = some (sent, targetStr, rest.dropWhile isBlank) ∧
      ((∃ user, ∃ clause ∈ clausesOf (unclump target), Resolves regex users clause user) ∧
          targetStr = unclump target ∧
          (∀ user s, (user, s) ∈ sent ↔ (∃ clause ∈ clausesOf (unclump target), Resolves regex users clause user) ∧
            s = rest.dropWhile isBlank) ∨
        (¬∃ user, ∃ clause ∈ clausesOf (unclump target), Resolves regex users clause user) ∧
          ∀ user s, (user, s) ∈ sent ↔ user ∈ users.items ∧ user.displayHandle ≠ [] ∧
            user.displayHandle ++ [' '] <+: unclump (text.dropWhile isBlank) ∧
            s = trim ((unclump (text.dropWhile isBlank)).drop user.displayHandle.length)) := by
  obtain ⟨hSessions, hLeft⟩ := puts_sessions users (rest.dropWhile isBlank) (clausesOf (unclump target)) []
  have hNames := puts_names regex users (rest.dropWhile isBlank)
    (putSessions users (rest.dropWhile isBlank) (clausesOf (unclump target)) []).2
    (putSessions users (rest.dropWhile isBlank) (clausesOf (unclump target)) []).1
  rw [hLeft] at hNames
  have hResolved := (hSessions.trans hNames).congr fun _ => resolves_iff.symm
  unfold parseUserTargets
  rw [h]
  dsimp only
  rw [hLeft]
  generalize (putNames _ _ _ _ _).1 = sent at hResolved ⊢
  have hSent : ∀ user s, (user, s) ∈ sent ↔
      (∃ clause ∈ clausesOf (unclump target), Resolves regex users clause user) ∧ s = rest.dropWhile isBlank := by
    intro user s
    rw [hResolved user s]
    exact or_iff_left fun hOld => nomatch hOld.2
  cases sent with
  | nil =>
    have hNobody : ¬∃ user, ∃ clause ∈ clausesOf (unclump target), Resolves regex users clause user := by
      rintro ⟨user, hUser⟩
      cases (hSent user _).mpr ⟨hUser, rfl⟩
    refine ⟨_, _, rfl, .inr ⟨hNobody, fun user s => ?_⟩⟩
    refine (puts_whole users _ [] _ user s).trans ?_
    constructor
    · rintro (⟨⟨hMem, hStarts⟩, rfl⟩ | ⟨-, hOld⟩)
      · obtain ⟨hName, hPrefix⟩ := startsWithName_iff.mp hStarts
        exact ⟨hMem, hName, hPrefix, rfl⟩
      · cases hOld
    · rintro ⟨hMem, hName, hPrefix, rfl⟩
      exact .inl ⟨⟨hMem, startsWithName_iff.mpr ⟨hName, hPrefix⟩⟩, rfl⟩
  | cons entry sent =>
    refine ⟨_, _, rfl, .inl ⟨⟨entry.1, ((hSent entry.1 entry.2).mp List.mem_cons_self).1⟩, rfl, hSent⟩⟩

/-- A user with the session ID 7 that calls itself `5 x`. -/
def imposter : RemoteUserItem :=
  ⟨['7'], ['5', ' ', 'x'], by decide⟩

def imposterOnly : Users :=
  ⟨[imposter], by decide⟩

theorem parseUserTargets_spec_session : ∃ sent targetStr,
    parseUserTargets (posixRegex fun _ => true) imposterOnly ['7', ' ', 'h', 'i'] [] =
      some (sent, targetStr, ['h', 'i']) ∧ (imposter, ['h', 'i']) ∈ sent := by
  have hMeant : ∃ clause ∈ clausesOf (unclump ['7']),
      Resolves (posixRegex fun _ => true) imposterOnly clause imposter :=
    ⟨['7'], by decide, by decide, .inl rfl⟩
  obtain ⟨sent, targetStr, h, ⟨-, -, hSent⟩ | ⟨hNobody, -⟩⟩ :=
    @parseUserTargets_spec (posixRegex fun _ => true) imposterOnly ['7', ' ', 'h', 'i'] ['7'] ['h', 'i'] rfl
  · exact ⟨sent, targetStr, h, (hSent _ _).mpr ⟨hMeant, rfl⟩⟩
  · exact absurd ⟨_, hMeant⟩ hNobody

/-- `5 x hi` goes to the imposter, though its only clause is neither its session ID nor its name. -/
theorem whole_line_matched :
    parseUserTargets (posixRegex fun _ => true) imposterOnly ['5', ' ', 'x', ' ', 'h', 'i'] [] =
        some ([(imposter, ['h', 'i'])], ['5', ' ', 'x'], ['x', ' ', 'h', 'i']) ∧
      clausesOf (unclump ['5']) = [['5']] ∧ ¬Resolves (posixRegex fun _ => true) imposterOnly ['5'] imposter := by
  refine ⟨by decide, by decide, ?_⟩
  rintro ⟨-, hSession | ⟨-, hName⟩⟩
  · cases hSession
  · revert hName
    decide

end BeShare.Client.UserTargets
