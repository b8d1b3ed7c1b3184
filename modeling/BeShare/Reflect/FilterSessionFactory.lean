import BeShare.Lib.Edits
import BeShare.Reflect.StringMatcher

/-!
The factory that refuses sessions to hosts: its tables of ban and require patterns, the commands that change them, and
its limits on the numbers of sessions. It creates a session exactly if the patterns that remain and the limits admit
the host.
-/

namespace BeShare.Muscle.Reflect

open Lib

/-- The constructor takes a pattern that does not compile, too. It matches nothing then, or everything if negated. -/
def StringMatcher.new (regex : Regex) (s : Str) : StringMatcher :=
  let negate := decide (s.head? = some '~')
  let str := if negate then s.tail else s
  (setPattern regex s).getD ⟨s, negate, Reflect.hasRegexTokens s, (parseRange str).1, (parseRange str).2, none⟩

/-- The host names of the sessions that are attached to the server. They are counted in 32 bits. -/
structure Sessions where
  hosts : List Str
  counted : hosts.length < 2 ^ 32

/-- A table of patterns, by their texts. -/
abbrev PatternTable := List (Str × StringMatcher)

structure FilterSessionFactory (Session : Type) where
  slave : Option (Str → Option Session)
  bans : PatternTable
  requires : PatternTable
  maxSessionsPerHost : UInt32
  totalMaxSessions : UInt32

/-- The codes of the messages that are for the factory. -/
inductive FilterCommand where
  | addBans
  | addRequires
  | removeBans
  | removeRequires
  | other
deriving Repr, DecidableEq

/-- A message with its keys. -/
structure FilterMessage where
  what : FilterCommand
  keys : List Str

namespace PatternTable

variable (regex : Regex)

def keys (table : PatternTable) : List Str :=
  table.map Prod.fst

/-- `PutBanPattern` and `PutRequirePattern`. -/
def put (table : PatternTable) (pattern : Str) : PatternTable :=
  if pattern ∈ table.keys then table else table ++ [(pattern, .new regex pattern)]

/-- `RemoveBanPattern` and `RemoveRequirePattern`. -/
def remove (table : PatternTable) (pattern : Str) : PatternTable :=
  table.filter fun entry => decide (entry.1 ≠ pattern)

/-- `RemoveMatchingBanPatterns` and `RemoveMatchingRequirePatterns`. The iterator stays valid when its entry goes. -/
def removeMatching (table : PatternTable) (exp : Str) : PatternTable :=
  table.keys.foldl (fun table next => if (StringMatcher.new regex exp).isMatch next then table.remove next else table)
    table

/-- The loops over the tables in `CreateSession`. -/
def anyMatches (host : Str) : PatternTable → Bool
  | [] => false
  | (_, next) :: table => if next.isMatch host then true else anyMatches host table

end PatternTable

/-- The loop that counts the sessions of a host. -/
def reachesLimit (host : Str) (maxSessionsPerHost : UInt32) : UInt32 → List Str → Bool
  | _, [] => false
  | count, next :: hosts =>
    if next = host then
      if count + 1 ≥ maxSessionsPerHost then true else reachesLimit host maxSessionsPerHost (count + 1) hosts
    else reachesLimit host maxSessionsPerHost count hosts

namespace FilterSessionFactory

variable {Session : Type} (regex : Regex)

def new (slave : Option (Str → Option Session)) (maxSessionsPerHost totalMaxSessions : UInt32) :
    FilterSessionFactory Session :=
  ⟨slave, [], [], maxSessionsPerHost, totalMaxSessions⟩

/-- One key of a message. -/
def receiveKey (factory : FilterSessionFactory Session) (what : FilterCommand) (s : Str) :
    FilterSessionFactory Session :=
  match what with
  | .addBans => { factory with bans := factory.bans.put regex s }
  | .addRequires => { factory with requires := factory.requires.put regex s }
  | .removeBans => { factory with bans := factory.bans.removeMatching regex s }
  | .removeRequires => { factory with requires := factory.requires.removeMatching regex s }
  | .other => factory

def messageReceivedFromSession (factory : FilterSessionFactory Session) (msg : FilterMessage) :
    FilterSessionFactory Session :=
  msg.keys.foldl (fun factory s => factory.receiveKey regex msg.what s) factory

def createSession (factory : FilterSessionFactory Session) (sessions : Sessions) (clientHostIP : Str) :
    Option Session :=
  if UInt32.ofNat sessions.hosts.length ≥ factory.totalMaxSessions then none
  else if factory.maxSessionsPerHost ≠ MUSCLE_NO_LIMIT ∧
      reachesLimit clientHostIP factory.maxSessionsPerHost 0 sessions.hosts = true then none
  else
    match factory.slave with
    | none => none
    | some createSession =>
      if factory.requires ≠ [] ∧ factory.requires.anyMatches clientHostIP = false then none
      else if factory.bans.anyMatches clientHostIP then none
      else createSession clientHostIP

end FilterSessionFactory

/-! ### The limits -/

theorem reachesLimit_iff (host : Str) {limit : UInt32} (hosts : List Str) (count : UInt32) (hCount : count < limit) :
    reachesLimit host limit count hosts = true ↔ limit.toNat ≤ count.toNat + hosts.count host := by
  induction hosts generalizing count with
  | nil =>
    have hLess := UInt32.lt_iff_toNat_lt.mp hCount
    refine iff_of_false Bool.false_ne_true ?_
    rw [List.count_nil]
    omega
  | cons next hosts ih =>
    have hLess := UInt32.lt_iff_toNat_lt.mp hCount
    have hLimit := limit.toNat_lt
    have hNext : (count + 1).toNat = count.toNat + 1 := by
      rw [UInt32.toNat_add]
      exact Nat.mod_eq_of_lt (by simp; omega)
    unfold reachesLimit
    by_cases hHost : next = host
    · rw [if_pos hHost, hHost, List.count_cons_self]
      by_cases hReached : count + 1 ≥ limit
      · have hLe := UInt32.le_iff_toNat_le.mp hReached
        rw [if_pos hReached]
        exact iff_of_true rfl (by omega)
      · rw [if_neg hReached, ih _ (UInt32.not_le.mp hReached), hNext]
        omega
    · rw [if_neg hHost, List.count_cons_of_ne hHost]
      exact ih count hCount

/-! ### The tables -/

/-- What a key of a message does to a table that has these commands. -/
def edit (regex : Regex) (adds removes what : FilterCommand) (s : Str) : List (Edit Str) :=
  if what = adds then [.add s] else if what = removes then [.remove (StringMatcher.new regex s).isMatch] else []

/-- What the messages do to a table that has these commands. -/
def edits (regex : Regex) (adds removes : FilterCommand) (history : List FilterMessage) : List (Edit Str) :=
  history.flatMap fun msg => msg.keys.flatMap (edit regex adds removes msg.what)

namespace PatternTable

variable {regex : Regex} {table : PatternTable} {pattern exp : Str} {done : List (Edit Str)}

/-- The table has the patterns that remain, with their matchers. -/
structure Tracks (regex : Regex) (done : List (Edit Str)) (table : PatternTable) : Prop where
  keys : table.keys = done.foldl Edit.apply []
  matchers : ∀ entry ∈ table, entry.2 = .new regex entry.1

theorem Tracks.put (h : Tracks regex done table) : Tracks regex (done ++ [.add pattern]) (table.put regex pattern) where
  keys := by
    rw [List.foldl_append, ← h.keys]
    unfold PatternTable.put
    by_cases hOld : pattern ∈ table.keys
    · rw [if_pos hOld]
      exact (if_pos hOld).symm
    · rw [if_neg hOld]
      unfold PatternTable.keys
      rw [List.map_append]
      exact (if_neg hOld).symm
  matchers := by
    intro entry hEntry
    unfold PatternTable.put at hEntry
    split at hEntry
    · exact h.matchers entry hEntry
    · rcases List.mem_append.mp hEntry with hOld | hNew
      · exact h.matchers entry hOld
      · obtain rfl := List.mem_singleton.mp hNew
        rfl

/-- The removals one after another. -/
theorem foldl_remove (picks : Str → Bool) (keys : List Str) (table : PatternTable) :
    keys.foldl (fun table next => if picks next then table.remove next else table) table =
      table.filter fun entry => decide (¬(entry.1 ∈ keys ∧ picks entry.1 = true)) := by
  induction keys generalizing table with
  | nil => exact (List.filter_eq_self.mpr fun entry _ => by simp).symm
  | cons key keys ih =>
    rw [List.foldl_cons, ih]
    by_cases hPicks : picks key = true
    · rw [if_pos hPicks]
      unfold remove
      rw [List.filter_filter]
      refine List.filter_congr fun entry _ => ?_
      by_cases hKey : entry.1 = key <;> simp [hKey, hPicks]
    · rw [if_neg hPicks]
      refine List.filter_congr fun entry _ => ?_
      by_cases hKey : entry.1 = key <;> simp [hKey, hPicks]

theorem removeMatching_eq (regex : Regex) (table : PatternTable) (exp : Str) :
    table.removeMatching regex exp = table.filter fun entry => !(StringMatcher.new regex exp).isMatch entry.1 := by
  unfold removeMatching
  rw [foldl_remove]
  refine List.filter_congr fun entry hEntry => ?_
  have hKey : entry.1 ∈ table.keys := List.mem_map_of_mem hEntry
  simp [hKey]

theorem Tracks.removeMatching (h : Tracks regex done table) :
    Tracks regex (done ++ [.remove (StringMatcher.new regex exp).isMatch]) (table.removeMatching regex exp) where
  keys := by
    rw [List.foldl_append, ← h.keys, removeMatching_eq]
    unfold PatternTable.keys
    rw [List.foldl_cons, List.foldl_nil, Edit.apply, List.filter_map]
    rfl
  matchers := by
    intro entry hEntry
    rw [removeMatching_eq] at hEntry
    exact h.matchers entry (List.mem_of_mem_filter hEntry)

theorem anyMatches_iff (host : Str) (table : PatternTable) :
    table.anyMatches host = true ↔ ∃ entry ∈ table, entry.2.isMatch host = true := by
  induction table with
  | nil => exact iff_of_false Bool.false_ne_true fun ⟨_, hEntry, _⟩ => nomatch hEntry
  | cons entry table ih =>
    unfold anyMatches
    simp only [List.mem_cons, exists_eq_or_imp]
    by_cases hHere : entry.2.isMatch host = true
    · rw [if_pos hHere]
      exact iff_of_true rfl (.inl hHere)
    · rw [if_neg hHere, ih]
      exact (or_iff_right hHere).symm

/-- A pattern of the table matches exactly if one of those does that remain. -/
theorem Tracks.anyMatches (h : Tracks regex done table) (host : Str) :
    table.anyMatches host = true ↔ ∃ p, Remains done p ∧ (StringMatcher.new regex p).isMatch host = true := by
  rw [anyMatches_iff]
  have hRemains (p : Str) : p ∈ table.keys ↔ Remains done p := by rw [h.keys, mem_foldl_apply]
  constructor
  · rintro ⟨entry, hEntry, hMatch⟩
    refine ⟨entry.1, (hRemains _).mp (List.mem_map_of_mem hEntry), ?_⟩
    rw [← h.matchers entry hEntry]
    exact hMatch
  · rintro ⟨p, hLeft, hMatch⟩
    obtain ⟨entry, hEntry, rfl⟩ := List.mem_map.mp ((hRemains p).mpr hLeft)
    refine ⟨entry, hEntry, ?_⟩
    rw [h.matchers entry hEntry]
    exact hMatch

/-- The table is empty exactly if nothing remains. -/
theorem Tracks.eq_nil_iff (h : Tracks regex done table) : table = [] ↔ ∀ p, ¬Remains done p := by
  rw [← List.map_eq_nil_iff (f := Prod.fst), List.eq_nil_iff_forall_not_mem]
  refine forall_congr' fun p => not_congr ?_
  change p ∈ table.keys ↔ _
  rw [h.keys, mem_foldl_apply]

end PatternTable

/-! ### Histories -/

namespace FilterSessionFactory

variable {Session : Type} {regex : Regex} {factory : FilterSessionFactory Session}

/-- Both tables have the patterns that remain after what was done to them. -/
def Tracks (regex : Regex) (bans requires : List (Edit Str)) (factory : FilterSessionFactory Session) : Prop :=
  factory.bans.Tracks regex bans ∧ factory.requires.Tracks regex requires

theorem Tracks.receiveKey {bans requires : List (Edit Str)} (h : factory.Tracks regex bans requires)
    (what : FilterCommand) (s : Str) : (factory.receiveKey regex what s).Tracks regex
      (bans ++ edit regex .addBans .removeBans what s)
      (requires ++ edit regex .addRequires .removeRequires what s) := by
  obtain ⟨hBans, hRequires⟩ := h
  have hNone {done : List (Edit Str)} : done ++ [] = done := List.append_nil done
  cases what with
  | addBans => exact ⟨hBans.put, hNone ▸ hRequires⟩
  | addRequires => exact ⟨hNone ▸ hBans, hRequires.put⟩
  | removeBans => exact ⟨hBans.removeMatching, hNone ▸ hRequires⟩
  | removeRequires => exact ⟨hNone ▸ hBans, hRequires.removeMatching⟩
  | other => exact ⟨hNone ▸ hBans, hNone ▸ hRequires⟩

/-- The keys of a message, one after another. -/
theorem Tracks.receiveKeys {bans requires : List (Edit Str)} (h : factory.Tracks regex bans requires)
    (what : FilterCommand) (keys : List Str) :
    (keys.foldl (fun factory s => factory.receiveKey regex what s) factory).Tracks regex
      (bans ++ keys.flatMap (edit regex .addBans .removeBans what))
      (requires ++ keys.flatMap (edit regex .addRequires .removeRequires what)) := by
  induction keys generalizing factory bans requires with
  | nil =>
    rw [List.flatMap_nil, List.flatMap_nil, List.append_nil, List.append_nil]
    exact h
  | cons s keys ih =>
    rw [List.flatMap_cons, List.flatMap_cons, ← List.append_assoc, ← List.append_assoc]
    exact ih (h.receiveKey what s)

/-- The messages of a history, one after another. -/
theorem Tracks.history {bans requires : List (Edit Str)} (h : factory.Tracks regex bans requires)
    (history : List FilterMessage) : (history.foldl (messageReceivedFromSession regex) factory).Tracks regex
      (bans ++ edits regex .addBans .removeBans history)
      (requires ++ edits regex .addRequires .removeRequires history) := by
  unfold edits
  induction history generalizing factory bans requires with
  | nil =>
    rw [List.flatMap_nil, List.flatMap_nil, List.append_nil, List.append_nil]
    exact h
  | cons msg history ih =>
    rw [List.flatMap_cons, List.flatMap_cons, ← List.append_assoc, ← List.append_assoc]
    exact ih (h.receiveKeys msg.what msg.keys)

/-- The messages change neither the slave nor the limits. -/
theorem history_same (regex : Regex) (history : List FilterMessage) (factory : FilterSessionFactory Session) :
    (history.foldl (messageReceivedFromSession regex) factory).slave = factory.slave ∧
      (history.foldl (messageReceivedFromSession regex) factory).maxSessionsPerHost = factory.maxSessionsPerHost ∧
      (history.foldl (messageReceivedFromSession regex) factory).totalMaxSessions = factory.totalMaxSessions := by
  have hKey (factory : FilterSessionFactory Session) (what : FilterCommand) (s : Str) :
      (factory.receiveKey regex what s).slave = factory.slave ∧
        (factory.receiveKey regex what s).maxSessionsPerHost = factory.maxSessionsPerHost ∧
        (factory.receiveKey regex what s).totalMaxSessions = factory.totalMaxSessions := by
    cases what <;> exact ⟨rfl, rfl, rfl⟩
  have hMessage (keys : List Str) (what : FilterCommand) (factory : FilterSessionFactory Session) :
      (keys.foldl (fun factory s => factory.receiveKey regex what s) factory).slave = factory.slave ∧
        (keys.foldl (fun factory s => factory.receiveKey regex what s) factory).maxSessionsPerHost =
          factory.maxSessionsPerHost ∧
        (keys.foldl (fun factory s => factory.receiveKey regex what s) factory).totalMaxSessions =
          factory.totalMaxSessions := by
    induction keys generalizing factory with
    | nil => exact ⟨rfl, rfl, rfl⟩
    | cons s keys ih =>
      obtain ⟨hSlave, hHost, hTotal⟩ := ih (factory.receiveKey regex what s)
      obtain ⟨hSlave', hHost', hTotal'⟩ := hKey factory what s
      exact ⟨hSlave.trans hSlave', hHost.trans hHost', hTotal.trans hTotal'⟩
  induction history generalizing factory with
  | nil => exact ⟨rfl, rfl, rfl⟩
  | cons msg history ih =>
    obtain ⟨hSlave, hHost, hTotal⟩ := ih (factory.messageReceivedFromSession regex msg)
    obtain ⟨hSlave', hHost', hTotal'⟩ := hMessage msg.keys msg.what factory
    exact ⟨hSlave.trans hSlave', hHost.trans hHost', hTotal.trans hTotal'⟩

/-- The checks of `CreateSession`, with a slave that creates a session. -/
theorem createSession_isSome_iff {create : Str → Option Session} {sessions : Sessions} {host : Str}
    (hSlave : factory.slave = some create) (hCreate : (create host).isSome = true)
    (hLimit : 1 ≤ factory.maxSessionsPerHost) :
    (factory.createSession sessions host).isSome = true ↔
      sessions.hosts.length < factory.totalMaxSessions.toNat ∧
      sessions.hosts.count host < factory.maxSessionsPerHost.toNat ∧
      factory.bans.anyMatches host = false ∧
      (factory.requires = [] ∨ factory.requires.anyMatches host = true) := by
  have hNumber : (UInt32.ofNat sessions.hosts.length).toNat = sessions.hosts.length :=
    UInt32.toNat_ofNat_of_lt' sessions.counted
  have hCount : sessions.hosts.count host ≤ sessions.hosts.length := List.count_le_length
  have hTotalLimit := factory.totalMaxSessions.toNat_lt
  have hReaches := reachesLimit_iff host sessions.hosts 0 (UInt32.lt_of_lt_of_le (by decide) hLimit)
  rw [UInt32.toNat_zero, Nat.zero_add] at hReaches
  unfold createSession
  by_cases hTotal : UInt32.ofNat sessions.hosts.length ≥ factory.totalMaxSessions
  · have hLe := UInt32.le_iff_toNat_le.mp hTotal
    rw [if_pos hTotal]
    refine iff_of_false Bool.false_ne_true fun h => ?_
    omega
  · have hLess := UInt32.lt_iff_toNat_lt.mp (UInt32.not_le.mp hTotal)
    rw [hNumber] at hLess
    rw [if_neg hTotal, and_iff_right hLess, hSlave]
    by_cases hHost : factory.maxSessionsPerHost ≠ MUSCLE_NO_LIMIT ∧
        reachesLimit host factory.maxSessionsPerHost 0 sessions.hosts = true
    · rw [if_pos hHost]
      refine iff_of_false Bool.false_ne_true fun h => ?_
      exact absurd (hReaches.mp hHost.2) (Nat.not_le.mpr h.1)
    · have hFew : sessions.hosts.count host < factory.maxSessionsPerHost.toNat := by
        -- no limit is the largest number, which the total number of sessions stays below
        by_cases hNoLimit : factory.maxSessionsPerHost = MUSCLE_NO_LIMIT
        · have hMost : factory.maxSessionsPerHost.toNat = 2 ^ 32 - 1 := congrArg UInt32.toNat hNoLimit
          omega
        · exact Nat.not_le.mp fun hLe => hHost ⟨hNoLimit, hReaches.mpr hLe⟩
      rw [if_neg hHost, and_iff_right hFew]
      dsimp only
      by_cases hRequires : factory.requires = []
      · rw [if_neg fun h => h.1 hRequires]
        cases hBans : factory.bans.anyMatches host <;> simp [hCreate, hRequires]
      · cases hRequired : factory.requires.anyMatches host <;> cases hBans : factory.bans.anyMatches host <;>
          simp [hCreate, hRequires]

/-- After any history of commands, the factory creates a session exactly if the limits, the bans and the requirements
that remain admit the host. -/
theorem creates_iff (regex : Regex) (create : Str → Option Session) (maxSessionsPerHost totalMaxSessions : UInt32)
    (history : List FilterMessage) (sessions : Sessions) (host : Str) (hCreate : (create host).isSome = true)
    (hLimit : 1 ≤ maxSessionsPerHost) :
    ((history.foldl (messageReceivedFromSession regex)
        (new (some create) maxSessionsPerHost totalMaxSessions)).createSession sessions host).isSome = true ↔
      sessions.hosts.length < totalMaxSessions.toNat ∧
      sessions.hosts.count host < maxSessionsPerHost.toNat ∧
      (∀ p, Remains (edits regex .addBans .removeBans history) p → (StringMatcher.new regex p).isMatch host = false) ∧
      ((∀ p, ¬Remains (edits regex .addRequires .removeRequires history) p) ∨
        ∃ p, Remains (edits regex .addRequires .removeRequires history) p ∧
          (StringMatcher.new regex p).isMatch host = true) := by
  have hStart : (new (some create) maxSessionsPerHost totalMaxSessions).Tracks regex [] [] :=
    ⟨⟨rfl, fun _ hEntry => nomatch hEntry⟩, ⟨rfl, fun _ hEntry => nomatch hEntry⟩⟩
  obtain ⟨hBans, hRequires⟩ := hStart.history history
  obtain ⟨hSlave, hHost, hTotal⟩ :=
    history_same regex history (new (some create) maxSessionsPerHost totalMaxSessions)
  generalize history.foldl (messageReceivedFromSession regex) (new (some create) maxSessionsPerHost totalMaxSessions) =
    factory at hBans hRequires hSlave hHost hTotal ⊢
  rw [List.nil_append] at hBans hRequires
  change factory.maxSessionsPerHost = maxSessionsPerHost at hHost
  change factory.totalMaxSessions = totalMaxSessions at hTotal
  subst hHost hTotal
  rw [createSession_isSome_iff hSlave hCreate hLimit, hRequires.eq_nil_iff, hRequires.anyMatches, ← Bool.not_eq_true,
    hBans.anyMatches]
  refine and_congr_right fun _ => and_congr_right fun _ => and_congr_left fun _ => ?_
  simp only [not_exists, not_and, Bool.not_eq_true]

/-- A library of regular expressions for the text between the anchors, with `.*` alone for every text. -/
def textRegex : Regex where
  comp pattern :=
    let text := (pattern.drop 2).dropLast.dropLast
    some fun str => decide (text = ['.', '*'] ∨ str = text)

/-- Host `a` is banned and pardoned by a wildcard, then host `b` is banned; there is one session of each. -/
theorem creates_iff_pardoned :
    (([⟨.addBans, [['a']]⟩, ⟨.removeBans, [['*']]⟩, ⟨.addBans, [['b']]⟩].foldl
        (messageReceivedFromSession textRegex) (new (some some) 2 3)).createSession ⟨[['a'], ['b']], by decide⟩
        ['a']).isSome = true ↔
      2 < (3 : UInt32).toNat ∧ [['a'], ['b']].count ['a'] < (2 : UInt32).toNat ∧
      (∀ p, Remains (edits textRegex .addBans .removeBans
          [⟨.addBans, [['a']]⟩, ⟨.removeBans, [['*']]⟩, ⟨.addBans, [['b']]⟩]) p →
        (StringMatcher.new textRegex p).isMatch ['a'] = false) ∧
      ((∀ p, ¬Remains (edits textRegex .addRequires .removeRequires
          [⟨.addBans, [['a']]⟩, ⟨.removeBans, [['*']]⟩, ⟨.addBans, [['b']]⟩]) p) ∨
        ∃ p, Remains (edits textRegex .addRequires .removeRequires
            [⟨.addBans, [['a']]⟩, ⟨.removeBans, [['*']]⟩, ⟨.addBans, [['b']]⟩]) p ∧
          (StringMatcher.new textRegex p).isMatch ['a'] = true) :=
  creates_iff textRegex some 2 3 _ ⟨[['a'], ['b']], by decide⟩ ['a'] rfl (by decide)

end FilterSessionFactory

end BeShare.Muscle.Reflect
