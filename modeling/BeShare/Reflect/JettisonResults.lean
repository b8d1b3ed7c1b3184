import BeShare.Reflect.Jettison

/-! What `JettisonOutgoingResults` is to leave in a queue, and when it does. -/

namespace BeShare.Muscle.Reflect

variable {regex : Regex} {Msg : Type}

section

variable {α : Type} {p : α → Bool}

/-- Items go from the front of a list, as many as match. These are the items that match if none of them stands
behind another. -/
theorem drop_countP_iff {l : List α} :
    l.drop (l.countP p) = l.filter (fun a => !p a) ↔ l.Pairwise fun a b => p b = true → p a = true := by
  induction l with
  | nil => exact iff_of_true rfl .nil
  | cons a l ih =>
    rw [List.pairwise_cons]
    by_cases ha : p a = true
    · rw [List.countP_cons_of_pos ha, List.drop_succ_cons, List.filter_cons_of_neg (by simpa using ha), ih,
        and_iff_right fun _ _ _ => ha]
    · rw [List.countP_cons_of_neg ha, List.filter_cons_of_pos (by simpa using ha)]
      constructor
      · intro h
        have hZero : l.countP p = 0 := by
          cases hCount : l.countP p with
          | zero => rfl
          | succ c =>
            rw [hCount, List.drop_succ_cons] at h
            -- the items that were dropped are too few
            have hParts := congrArg (List.countP p) (List.take_append_drop c l)
            rw [List.countP_append, h, List.countP_cons_of_neg ha, hCount] at hParts
            have hNone : (l.filter fun a => !p a).countP p = 0 :=
              List.countP_eq_zero.mpr fun x hx => by simpa using (List.mem_filter.mp hx).2
            have hFew : (l.take c).countP p ≤ c := List.countP_le_length.trans (List.length_take_le _ _)
            omega
        rw [List.countP_eq_zero] at hZero
        exact ⟨fun b hb hp => absurd hp (hZero b hb),
          (List.pairwise_of_forall fun _ _ => trivial).imp_of_mem fun _ hb _ hp => absurd hp (hZero _ hb)⟩
      · rintro ⟨hFront, -⟩
        have hNone : ∀ b ∈ l, ¬p b = true := fun b hb hp => ha (hFront b hb hp)
        rw [List.countP_eq_zero.mpr hNone, List.drop_zero, List.filter_eq_self.mpr fun b hb => by
          simpa using hNone b hb]

theorem length_drop_countP (l : List α) : (l.drop (l.countP p)).length = (l.filter fun a => !p a).length := by
  rw [List.length_drop, ← List.countP_eq_length_filter, List.length_eq_countP_add_countP p (l := l)]
  have hNot : l.countP (fun a => decide ¬p a = true) = l.countP fun a => !p a :=
    List.countP_congr fun a _ => by cases p a <;> simp
  rw [hNot, Nat.add_sub_cancel_left]

theorem drop_countP_eq_nil {l : List α} : l.drop (l.countP p) = [] ↔ l.filter (fun a => !p a) = [] := by
  rw [← List.length_eq_zero_iff, length_drop_countP, List.length_eq_zero_iff]

end

/-- The matchers that are built with the operations of a `PathMatcher`. -/
inductive PathMatcher.Built : PathMatcher regex Msg → Prop where
  | empty : Built .empty
  | put {m m' : PathMatcher regex Msg} {path : Str} {filter : Option (QueryFilter Msg)} (h : Built m)
    (hPut : m.putPathString path filter = some m') : Built m'
  | remove {m m' : PathMatcher regex Msg} {path : Str} (h : Built m) (hRemove : m.removePathString path = some m') :
    Built m'

/-- What is to stay of a field. One that has no items has none that match: it goes only with its path. -/
def expectedArray (asks : WithoutNode Msg) (m : PathMatcher regex Msg) (name : Str) :
    DataArray Msg → Option (DataArray Msg)
  | .strings items =>
    if name = PR_NAME_REMOVED_DATAITEMS then
      (stay items (items.filter fun rname => !m.matchesPath asks rname none)).map .strings
    else some (.strings items)
  | .messages items =>
    if items = [] ∧ m.numFilters = 0 ∧ m.matchesPath asks name none then none
    else (stay items (items.filter fun sub => !m.matchesPath asks name sub)).map .messages
  | .other type items => some (.other type items)

/-- What is to stay of a message with data items. Without a matcher nothing does. -/
def expectedMessage (asks : WithoutNode Msg) (matcher : Option (PathMatcher regex Msg)) (msg : QueuedMessage Msg) :
    QueuedMessage Msg :=
  match matcher with
  | none => msg.clear
  | some m => msg.mapEntries (expectedArray asks m)

/-- What stays of an item of the queue, if `f` is what stays of a message with data items. -/
def itemLeft (f : QueuedMessage Msg → QueuedMessage Msg) :
    Option (QueuedMessage Msg) → Option (Option (QueuedMessage Msg))
  | some msg =>
    if msg.what = PR_RESULT_DATAITEMS then if (f msg).entries = [] then none else some (some (f msg))
    else some (some msg)
  | none => some none

/-- No sub-message of a field that matches stands behind one that does not. -/
def MatchesFirst (asks : WithoutNode Msg) (m : PathMatcher regex Msg) (msg : QueuedMessage Msg) : Prop :=
  ∀ name items, msg.getArray name = some (.messages items) →
    items.Pairwise fun a b => m.matchesPath asks name b = true → m.matchesPath asks name a = true

namespace PathMatcher

variable {asks : WithoutNode Msg} {m : PathMatcher regex Msg} {msg : QueuedMessage Msg} {name : Str}

/-- One entry at most has a path. -/
theorem get_split {path : Str} {entry : PathMatcherEntry regex Msg} (h : m.get path = some entry) :
    ∃ a b, m.entries = a ++ entry :: b ∧ entry.path = path ∧ (∀ e ∈ a, (e.path == path) = false) ∧
      ∀ e ∈ b, (e.path == path) = false := by
  rw [get] at h
  have hPath : entry.path = path := by simpa using List.find?_some h
  obtain ⟨a, b, hSplit⟩ := List.append_of_mem (List.mem_of_find?_eq_some h)
  have hNodup := m.nodup
  rw [hSplit, List.map_append, List.map_cons, hPath] at hNodup
  have hNotMem := (List.nodup_cons.mp (List.nodup_middle.mp hNodup)).1
  rw [List.mem_append, not_or] at hNotMem
  refine ⟨a, b, hSplit, hPath, fun e he => ?_, fun e he => ?_⟩
  · exact beq_false_of_ne fun hEq => hNotMem.1 (List.mem_map.mpr ⟨e, he, hEq⟩)
  · exact beq_false_of_ne fun hEq => hNotMem.2 (List.mem_map.mpr ⟨e, he, hEq⟩)

theorem countP_putEntry_le (m : PathMatcher regex Msg) (entry : PathMatcherEntry regex Msg) :
    (putEntry entry m.entries).countP (fun e => e.filter.isSome) ≤
      m.entries.countP (fun e => e.filter.isSome) + if entry.filter.isSome then 1 else 0 := by
  cases hGet : m.get entry.path with
  | none =>
    have hNew : ¬(m.entries.any fun e => e.path == entry.path) = true := by
      rw [Bool.not_eq_true, List.any_eq_false]
      exact fun e he => List.find?_eq_none.mp hGet e he
    rw [putEntry, if_neg hNew, List.countP_append, List.countP_singleton]
  | some old =>
    obtain ⟨a, b, hSplit, hPath, hA, hB⟩ := get_split hGet
    have hOld : (m.entries.any fun e => e.path == entry.path) = true :=
      List.any_eq_true.mpr ⟨old, by rw [hSplit]; simp, beq_iff_eq.mpr hPath⟩
    have hSame : ∀ l : List (PathMatcherEntry regex Msg), (∀ e ∈ l, (e.path == entry.path) = false) →
        l.map (fun e => if e.path == entry.path then entry else e) = l := by
      refine fun l hl => (List.map_congr_left fun e he => ?_).trans (List.map_id l)
      rw [hl e he]
      rfl
    rw [putEntry, if_pos hOld, hSplit, List.map_append, List.map_cons, hSame a hA, hSame b hB,
      if_pos (beq_iff_eq.mpr hPath), List.countP_append, List.countP_append, List.countP_cons, List.countP_cons]
    omega

/-- `_numFilters` may be too high, but not too low. -/
theorem Built.filters (h : m.Built) : m.entries.countP (fun e => e.filter.isSome) ≤ m.numFilters := by
  induction h with
  | empty => exact Nat.le_refl _
  | @put m m' path filter _ hPut ih =>
    rw [putPathString] at hPut
    split at hPut
    · cases hPut
      refine (countP_putEntry_le m _).trans ?_
      simp only
      split <;> omega
    · cases hPut
  | @remove m m' path _ hRemove ih =>
    rw [removePathString] at hRemove
    split at hRemove
    · rename_i entry hGet
      cases hRemove
      obtain ⟨a, b, hSplit, hPath, hA, hB⟩ := get_split hGet
      have hKeep : ∀ l : List (PathMatcherEntry regex Msg), (∀ e ∈ l, (e.path == path) = false) →
          l.filter (fun e => !(e.path == path)) = l :=
        fun l hl => List.filter_eq_self.mpr fun e he => by rw [hl e he]; rfl
      rw [hSplit, List.countP_append, List.countP_cons] at ih
      simp only [hSplit, List.filter_append]
      rw [hKeep a hA, List.filter_cons_of_neg (by simp [hPath]), hKeep b hB, List.countP_append]
      split at ih <;> simp_all <;> omega
    · cases hRemove

/-- Without filters the data does not matter. -/
theorem Built.matchesPath (h : m.Built) (hFilters : m.numFilters = 0) (path : Str) (optMessage : Option Msg) :
    m.matchesPath asks path optMessage = m.matchesPath asks path none := by
  have hNone : ∀ entry ∈ m.entries, entry.filter = none := by
    have hZero := List.countP_eq_zero.mp (Nat.le_zero.mp (hFilters ▸ h.filters))
    exact fun entry hEntry => by simpa using hZero entry hEntry
  rw [Bool.eq_iff_iff, PathMatcher.matchesPath, PathMatcher.matchesPath, List.any_eq_true, List.any_eq_true]
  refine exists_congr fun entry => and_congr_right fun hEntry => ?_
  simp only [hNone entry hEntry]

/-- What the loop leaves of the sub-messages of a field. -/
theorem tries_dropMatches_cases (asks : WithoutNode Msg) (m : PathMatcher regex Msg) (name : Str) (n : Nat)
    (items : List (Option Msg)) :
    tries (dropMatches asks m name) n (.messages items) = none ∨
      ∃ left, tries (dropMatches asks m name) n (.messages items) = some (.messages left) ∧ left <:+ items := by
  induction n generalizing items with
  | zero => exact .inr ⟨items, rfl, List.suffix_refl _⟩
  | succ n ih =>
    rw [tries]
    by_cases hStay : items.drop (items.countP (m.matchesPath asks name)) = [] → items = []
    · rw [dropMatches_stay hStay, Option.bind_some]
      rcases ih (items.drop (items.countP (m.matchesPath asks name))) with hNone | ⟨left, hSome, hSuffix⟩
      · exact .inl hNone
      · exact .inr ⟨left, hSome, hSuffix.trans (List.drop_suffix _ _)⟩
    · obtain ⟨hNone, hSome⟩ := Classical.not_imp.mp hStay
      rw [(dropMatches_gone hSome hNone).1]
      exact .inl rfl

/-- Where nothing matches any more, nothing goes any more. -/
theorem tries_dropMatches_unmatched (n : Nat) {items : List (Option Msg)}
    (h : ∀ sub ∈ items, ¬m.matchesPath asks name sub = true) :
    tries (dropMatches asks m name) n (.messages items) = some (.messages items) := by
  induction n with
  | zero => rfl
  | succ n ih =>
    rw [tries, dropMatches, List.countP_eq_zero.mpr h, List.drop_zero, stay_self]
    exact ih

/-- A field of sub-messages has what it is to have if those that match come first. -/
theorem tries_dropMatches_iff (n : Nat) (items : List (Option Msg)) :
    tries (dropMatches asks m name) (n + 1) (.messages items) =
        (stay items (items.filter fun sub => !m.matchesPath asks name sub)).map .messages ↔
      items.Pairwise fun a b => m.matchesPath asks name b = true → m.matchesPath asks name a = true := by
  rw [← drop_countP_iff, tries]
  by_cases hStay : items.drop (items.countP (m.matchesPath asks name)) = [] → items = []
  · have hKept : stay items (items.filter fun sub => !m.matchesPath asks name sub) =
        some (items.filter fun sub => !m.matchesPath asks name sub) :=
      if_neg fun h => h.2 (hStay (drop_countP_eq_nil.mpr h.1))
    rw [dropMatches_stay hStay, Option.bind_some, hKept, Option.map_some]
    constructor
    · intro hLeft
      rcases tries_dropMatches_cases asks m name n
        (items.drop (items.countP (m.matchesPath asks name))) with hNone | ⟨left, hSome, hSuffix⟩
      · cases hNone.symm.trans hLeft
      · cases hSome.symm.trans hLeft
        exact (hSuffix.eq_of_length (length_drop_countP items).symm).symm
    · intro hSame
      rw [hSame]
      exact tries_dropMatches_unmatched n fun sub hSub => by simpa using (List.mem_filter.mp hSub).2
  · obtain ⟨hNone, hSome⟩ := Classical.not_imp.mp hStay
    have hFilter := drop_countP_eq_nil.mp hNone
    rw [(dropMatches_gone hSome hNone).1, hFilter, stay, if_pos ⟨rfl, hSome⟩]
    exact iff_of_true rfl hNone

/-- A field that is to go goes. -/
theorem dropMatches_eq_none {items : List (Option Msg)}
    (h : stay items (items.filter fun sub => !m.matchesPath asks name sub) = none) :
    dropMatches asks m name (.messages items) = none := by
  rw [stay] at h
  split at h
  · rename_i hGone
    exact (dropMatches_gone hGone.2 (drop_countP_eq_nil.mpr hGone.1)).1
  · cases h

/-- The loop over the removed paths. -/
theorem jettisonRemoved_all (msg : QueuedMessage Msg) :
    m.jettisonRemoved asks (msg.numItems + 1) msg 0 =
      some (msg.adjust PR_NAME_REMOVED_DATAITEMS (keepRemoved asks m)) := by
  have hOther (hNone : msg.findString PR_NAME_REMOVED_DATAITEMS 0 = none)
      (hSame : ∀ array, msg.getArray PR_NAME_REMOVED_DATAITEMS = some array →
        keepRemoved asks m array = some array) :
      m.jettisonRemoved asks (msg.numItems + 1) msg 0 =
        some (msg.adjust PR_NAME_REMOVED_DATAITEMS (keepRemoved asks m)) := by
    rw [jettisonRemoved, hNone, QueuedMessage.adjust_eq_self hSame]
  cases hArray : msg.getArray PR_NAME_REMOVED_DATAITEMS with
  | none => exact hOther (by rw [QueuedMessage.findString, hArray]) fun array h => by cases hArray.symm.trans h
  | some array =>
    cases array with
    | strings items =>
      refine (jettisonRemoved_eq (a := []) hArray (Nat.lt_succ_of_le (QueuedMessage.numItems_le hArray))).trans ?_
      refine congrArg some (QueuedMessage.adjust_congr fun array hOld => ?_)
      rw [Option.some.inj (hOld.symm.trans hArray)]
      rfl
    | messages items =>
      refine hOther (by rw [QueuedMessage.findString, hArray]) fun array h => ?_
      rw [Option.some.inj (h.symm.trans hArray)]
      rfl
    | other type items =>
      refine hOther (by rw [QueuedMessage.findString, hArray]) fun array h => ?_
      rw [Option.some.inj (h.symm.trans hArray)]
      rfl

/-- What the first loop leaves of a field. -/
def afterRemoved (asks : WithoutNode Msg) (m : PathMatcher regex Msg) (name : Str) (array : DataArray Msg) :
    Option (DataArray Msg) :=
  if name = PR_NAME_REMOVED_DATAITEMS then keepRemoved asks m array else some array

theorem mem_names {array left : DataArray Msg} (hMem : (name, array) ∈ msg.entries)
    (hLeft : afterRemoved asks m name array = some left) :
    name ∈ (msg.adjust PR_NAME_REMOVED_DATAITEMS (keepRemoved asks m)).entries.map Prod.fst :=
  List.mem_map.mpr ⟨(name, left), QueuedMessage.mem_mapEntries.mpr ⟨array, hMem, hLeft⟩, rfl⟩

theorem jettisonMessage_filters (asks : WithoutNode Msg) (hFilters : 0 < m.numFilters) (msg : QueuedMessage Msg) :
    ∃ n, jettisonMessage asks (some m) msg = some (msg.mapEntries fun name array =>
      (afterRemoved asks m name array).bind
        (tries (dropMatches asks m name) ((if name = [] then n else 0) + 1))) := by
  obtain ⟨n, hRun, hPos⟩ := jettisonFields_eq asks hFilters
    (msg.adjust PR_NAME_REMOVED_DATAITEMS (keepRemoved asks m)).nodup
    (msg.adjust PR_NAME_REMOVED_DATAITEMS (keepRemoved asks m))
  refine ⟨n - 1, ?_⟩
  rw [jettisonMessage, jettisonRemoved_all, Option.bind_some, hRun,
    QueuedMessage.mapEntries_adjust]
  refine congrArg some (QueuedMessage.mapEntries_congr fun name array hMem => ?_)
  show (afterRemoved asks m name array).bind _ = _
  cases hLeft : afterRemoved asks m name array with
  | none => rfl
  | some left =>
    have hName := mem_names hMem hLeft
    rw [Option.bind_some, Option.bind_some]
    by_cases hEmpty : name = []
    · subst hEmpty
      have hSome := hPos hName
      rw [if_pos rfl, if_pos rfl, Nat.sub_add_cancel hSome]
    · rw [if_neg hEmpty, if_neg hEmpty, if_pos hName]
      exact (Option.bind_fun_some _).symm

theorem jettisonMessage_whole (hFilters : m.numFilters = 0) (msg : QueuedMessage Msg) :
    jettisonMessage asks (some m) msg = some (msg.mapEntries fun name array =>
      (afterRemoved asks m name array).bind (dropWhole asks m name)) := by
  rw [jettisonMessage, jettisonRemoved_all, Option.bind_some, jettisonFields_whole hFilters
    (msg.adjust PR_NAME_REMOVED_DATAITEMS (keepRemoved asks m)).nodup, QueuedMessage.mapEntries_adjust]
  refine congrArg some (QueuedMessage.mapEntries_congr fun name array hMem => ?_)
  show (afterRemoved asks m name array).bind _ = _
  cases hLeft : afterRemoved asks m name array with
  | none => rfl
  | some left => rw [Option.bind_some, Option.bind_some, if_pos (mem_names hMem hLeft)]

theorem tries_passed (n : Nat) {array : DataArray Msg} (h : ∀ items, array ≠ .messages items) :
    tries (dropMatches asks m name) n array = some array := by
  induction n with
  | zero => rfl
  | succ n ih =>
    cases array with
    | messages items => exact absurd rfl (h items)
    | strings items => exact ih
    | other type items => exact ih

/-- The removed paths, and the fields that only pass. -/
theorem afterRemoved_bind {f : DataArray Msg → Option (DataArray Msg)}
    (hPassed : ∀ array, (∀ items, array ≠ .messages items) → f array = some array) {array : DataArray Msg}
    (h : ∀ items, array ≠ .messages items) :
    (afterRemoved asks m name array).bind f = expectedArray asks m name array := by
  cases array with
  | messages items => exact absurd rfl (h items)
  | other type items =>
    rw [afterRemoved, keepRemoved, ite_self]
    · exact hPassed _ h
    · rintro _ ⟨⟩
  | strings items =>
    rw [afterRemoved, expectedArray, keepRemoved]
    split
    · cases stay items (items.filter fun rname => !m.matchesPath asks rname none) with
      | none => rfl
      | some left => exact hPassed _ fun _ => by rintro ⟨⟩
    · exact hPassed _ h

theorem afterRemoved_messages (items : List (Option Msg)) :
    afterRemoved asks m name (.messages items) = some (.messages items) := by
  rw [afterRemoved, keepRemoved, ite_self]
  rintro _ ⟨⟩

/-- A message, with a matcher that has filters. -/
theorem jettisonMessage_iff (asks : WithoutNode Msg) (hFilters : 0 < m.numFilters) (msg : QueuedMessage Msg) :
    ∃ left, jettisonMessage asks (some m) msg = some left ∧ left.what = msg.what ∧
      (left = expectedMessage asks (some m) msg ↔ MatchesFirst asks m msg) ∧
      ((expectedMessage asks (some m) msg).entries = [] → left.entries = []) := by
  obtain ⟨n, hRun⟩ := jettisonMessage_filters asks hFilters msg
  have hMessages (name : Str) (items : List (Option Msg)) : expectedArray asks m name (.messages items) =
      (stay items (items.filter fun sub => !m.matchesPath asks name sub)).map .messages :=
    if_neg fun h => absurd h.2.1 (by omega)
  refine ⟨_, hRun, rfl, ⟨fun hSame name items hArray => ?_, fun hFirst => ?_⟩, fun hEmpty => ?_⟩
  · have hField := QueuedMessage.eq_of_mapEntries hSame (QueuedMessage.getArray_eq_some.mp hArray)
    simp only [afterRemoved_messages, Option.bind_some, hMessages] at hField
    exact (tries_dropMatches_iff _ items).mp hField
  · refine QueuedMessage.mapEntries_congr fun name array hMem => ?_
    by_cases hArray : ∃ items, array = .messages items
    · obtain ⟨items, rfl⟩ := hArray
      rw [afterRemoved_messages, Option.bind_some, hMessages]
      exact (tries_dropMatches_iff _ items).mpr (hFirst name items (QueuedMessage.getArray_eq_some.mpr hMem))
    · exact afterRemoved_bind (fun _ => tries_passed _) fun items hItems => hArray ⟨items, hItems⟩
  · rw [List.eq_nil_iff_forall_not_mem]
    rintro ⟨name, left⟩ hMem
    obtain ⟨array, hOld, hLeft⟩ := QueuedMessage.mem_mapEntries.mp hMem
    have hGone : expectedArray asks m name array = none := by
      cases hExpected : expectedArray asks m name array with
      | none => rfl
      | some other =>
        have hStays : (name, other) ∈ (expectedMessage asks (some m) msg).entries :=
          QueuedMessage.mem_mapEntries.mpr ⟨array, hOld, hExpected⟩
        rw [hEmpty] at hStays
        cases hStays
    by_cases hArray : ∃ items, array = .messages items
    · obtain ⟨items, rfl⟩ := hArray
      rw [hMessages, Option.map_eq_none_iff] at hGone
      rw [afterRemoved_messages, Option.bind_some, tries, dropMatches_eq_none hGone] at hLeft
      cases hLeft
    · rw [afterRemoved_bind (fun _ => tries_passed _) fun items hItems => hArray ⟨items, hItems⟩, hGone] at hLeft
      cases hLeft

/-- A message, with a matcher that has no filters. -/
theorem jettisonMessage_unfiltered (hBuilt : m.Built) (hFilters : m.numFilters = 0) (msg : QueuedMessage Msg) :
    jettisonMessage asks (some m) msg = some (expectedMessage asks (some m) msg) := by
  rw [jettisonMessage_whole hFilters]
  refine congrArg some (QueuedMessage.mapEntries_congr fun name array _ => ?_)
  by_cases hArray : ∃ items, array = .messages items
  · obtain ⟨items, rfl⟩ := hArray
    rw [afterRemoved_messages, Option.bind_some, dropWhole, expectedArray]
    by_cases hMatch : m.matchesPath asks name none = true
    · have hAll : items.filter (fun sub => !m.matchesPath asks name sub) = [] :=
        List.filter_eq_nil_iff.mpr fun sub _ => by rw [hBuilt.matchesPath hFilters, hMatch]; exact Bool.false_ne_true
      rw [if_pos hMatch, hAll]
      by_cases hItems : items = []
      · rw [if_pos ⟨hItems, hFilters, hMatch⟩]
      · rw [if_neg fun h => hItems h.1, stay, if_pos ⟨rfl, hItems⟩]
        rfl
    · have hNone : items.filter (fun sub => !m.matchesPath asks name sub) = items :=
        List.filter_eq_self.mpr fun sub _ => by rw [hBuilt.matchesPath hFilters]; simpa using hMatch
      rw [if_neg hMatch, if_neg fun h => hMatch h.2.2, hNone, stay_self]
      rfl
  · refine afterRemoved_bind (fun array h => ?_) fun items hItems => hArray ⟨items, hItems⟩
    cases array with
    | messages items => exact absurd rfl (h items)
    | strings items => rfl
    | other type items => rfl

end PathMatcher

section

variable {asks : WithoutNode Msg} {matcher : Option (PathMatcher regex Msg)}
  {f : QueuedMessage Msg → QueuedMessage Msg}

theorem jettisonQueue_eq (hMessage : ∀ msg, jettisonMessage asks matcher msg = some (f msg))
    (a b : List (Option (QueuedMessage Msg))) :
    jettisonQueue asks matcher a.length (a ++ b) = some (a.filterMap (itemLeft f) ++ b) := by
  induction a using List.reverseRecOn generalizing b with
  | nil => rfl
  | append_singleton a item ih =>
    have hItem : (a ++ [item] ++ b)[a.length]? = some item := by simp
    have hSplit : a ++ [item] ++ b = a ++ ([item] ++ b) := List.append_assoc ..
    rw [List.length_append, List.length_singleton, jettisonQueue, hItem, List.filterMap_append]
    cases item with
    | none =>
      rw [hSplit]
      simp only
      rw [ih, List.append_assoc]
      rfl
    | some msg =>
      simp only
      by_cases hWhat : msg.what = PR_RESULT_DATAITEMS
      · rw [if_pos hWhat, hMessage, Option.bind_some]
        by_cases hEmpty : (f msg).entries = []
        · have hErase : (a ++ [some msg] ++ b).eraseIdx a.length = a ++ b := by
            rw [hSplit, List.eraseIdx_append_of_length_le (Nat.le_refl _), Nat.sub_self]
            rfl
          have hGone : itemLeft f (some msg) = none := by rw [itemLeft, if_pos hWhat, if_pos hEmpty]
          rw [if_pos hEmpty, hErase, ih, List.filterMap_cons_none hGone, List.filterMap_nil, List.append_nil]
        · have hSet : (a ++ [some msg] ++ b).set a.length (some (f msg)) = a ++ ([some (f msg)] ++ b) := by
            rw [hSplit, List.set_append_right _ _ (Nat.le_refl _), Nat.sub_self]
            rfl
          have hStays : itemLeft f (some msg) = some (some (f msg)) := by rw [itemLeft, if_pos hWhat, if_neg hEmpty]
          rw [if_neg hEmpty, hSet, ih, List.filterMap_cons_some hStays, List.append_assoc]
          rfl
      · have hStays : itemLeft f (some msg) = some (some msg) := by rw [itemLeft, if_neg hWhat]
        rw [if_neg hWhat, hSplit, ih, List.filterMap_cons_some hStays, List.append_assoc]
        rfl

/-- If what is to be left is nothing only where nothing is left, two lists agree as wholes only if they agree in each
place. -/
theorem filterMap_eq_iff {α β : Type} {f g : α → Option β} {l : List α} (h : ∀ a ∈ l, g a = none → f a = none) :
    l.filterMap f = l.filterMap g ↔ ∀ a ∈ l, f a = g a := by
  refine ⟨fun hSame => ?_, fun hSame => List.filterMap_congr hSame⟩
  have hLength : ∀ l : List α, (∀ a ∈ l, g a = none → f a = none) →
      (l.filterMap f).length ≤ (l.filterMap g).length := by
    intro l hl
    induction l with
    | nil => exact Nat.le_refl _
    | cons a l ih =>
      have hRest := ih fun b hb => hl b (List.mem_cons_of_mem _ hb)
      have hHere := hl a (List.mem_cons_self ..)
      cases hf : f a <;> cases hg : g a <;> simp_all <;> omega
  induction l with
  | nil => simp
  | cons a l ih =>
    have hRest := fun b hb => h b (List.mem_cons_of_mem _ hb)
    have hHere := h a (List.mem_cons_self ..)
    have hShorter := hLength l hRest
    rw [List.filterMap_cons, List.filterMap_cons] at hSame
    cases hf : f a with
    | none =>
      cases hg : g a with
      | none =>
        simp only [hf, hg] at hSame
        exact List.forall_mem_cons.mpr ⟨hf.trans hg.symm, ih hRest hSame⟩
      | some y =>
        simp only [hf, hg] at hSame
        rw [hSame, List.length_cons] at hShorter
        omega
    | some x =>
      cases hg : g a with
      | none => cases hf.symm.trans (hHere hg)
      | some y =>
        simp only [hf, hg, List.cons.injEq] at hSame
        exact List.forall_mem_cons.mpr ⟨by rw [hf, hg, hSame.1], ih hRest hSame.2⟩

theorem expectedMessage_what (asks : WithoutNode Msg) (matcher : Option (PathMatcher regex Msg))
    (msg : QueuedMessage Msg) : (expectedMessage asks matcher msg).what = msg.what := by
  cases matcher <;> rfl

/-- What stays of a message shows in the queue. -/
theorem itemLeft_eq_iff {g : QueuedMessage Msg → QueuedMessage Msg} {msg : QueuedMessage Msg}
    (hWhat : msg.what = PR_RESULT_DATAITEMS) (hSame : (f msg).what = (g msg).what)
    (hEmpty : (g msg).entries = [] → (f msg).entries = []) :
    itemLeft f (some msg) = itemLeft g (some msg) ↔ f msg = g msg := by
  refine ⟨fun h => ?_, fun h => by rw [itemLeft, h, itemLeft]⟩
  rw [itemLeft, itemLeft, if_pos hWhat, if_pos hWhat] at h
  by_cases hNone : (g msg).entries = []
  · exact QueuedMessage.ext hSame ((hEmpty hNone).trans hNone.symm)
  · rw [if_neg hNone] at h
    split at h
    · cases h
    · exact Option.some.inj (Option.some.inj h)

end

/-- Any queue and any matcher, or none. -/
theorem jettisonOutgoingResults_iff (asks : WithoutNode Msg) {matcher : Option (PathMatcher regex Msg)}
    (hBuilt : ∀ m ∈ matcher, m.Built) (oq : List (Option (QueuedMessage Msg))) :
    ∃ left, jettisonOutgoingResults asks matcher oq = some left ∧
      (left = oq.filterMap (itemLeft (expectedMessage asks matcher)) ↔
        ∀ m ∈ matcher, 0 < m.numFilters → ∀ msg, some msg ∈ oq → msg.what = PR_RESULT_DATAITEMS →
          MatchesFirst asks m msg) := by
  have hMessage : ∀ msg, ∃ left, jettisonMessage asks matcher msg = some left ∧ left.what = msg.what ∧
      (left = expectedMessage asks matcher msg ↔ ∀ m ∈ matcher, 0 < m.numFilters → MatchesFirst asks m msg) ∧
      ((expectedMessage asks matcher msg).entries = [] → left.entries = []) := by
    intro msg
    cases matcher with
    | none => exact ⟨_, rfl, rfl, iff_of_true rfl (by rintro m ⟨⟩), id⟩
    | some m =>
      by_cases hFilters : 0 < m.numFilters
      · obtain ⟨left, hRun, hWhat, hIff, hEmpty⟩ := PathMatcher.jettisonMessage_iff asks hFilters msg
        refine ⟨left, hRun, hWhat, hIff.trans ⟨?_, fun h => h m rfl hFilters⟩, hEmpty⟩
        rintro h _ ⟨⟩ -
        exact h
      · refine ⟨_, PathMatcher.jettisonMessage_unfiltered (hBuilt m rfl) (by omega) msg, rfl, iff_of_true rfl ?_, id⟩
        rintro _ ⟨⟩ h
        exact absurd h hFilters
  choose f hRun hWhat hIff hEmpty using hMessage
  have hSame (msg : QueuedMessage Msg) : (f msg).what = (expectedMessage asks matcher msg).what :=
    (hWhat msg).trans (expectedMessage_what asks matcher msg).symm
  have hQueue := jettisonQueue_eq hRun oq []
  rw [List.append_nil, List.append_nil] at hQueue
  refine ⟨_, hQueue, (filterMap_eq_iff fun item _ hNone => ?_).trans ⟨fun h m hm hFilters msg hMem hResult => ?_,
    fun h item hMem => ?_⟩⟩
  · -- a message goes if nothing of it is to stay
    cases item with
    | none => cases hNone
    | some msg =>
      rw [itemLeft] at hNone ⊢
      split at hNone
      · rename_i hResult
        split at hNone
        · rename_i hGone
          rw [if_pos hResult, if_pos (hEmpty msg hGone)]
        · cases hNone
      · cases hNone
  · exact (hIff msg).mp ((itemLeft_eq_iff hResult (hSame msg) (hEmpty msg)).mp (h _ hMem)) m hm hFilters
  · cases item with
    | none => rfl
    | some msg =>
      by_cases hResult : msg.what = PR_RESULT_DATAITEMS
      · exact (itemLeft_eq_iff hResult (hSame msg) (hEmpty msg)).mpr
          ((hIff msg).mpr fun m hm hFilters => h m hm hFilters msg hMem hResult)
      · rw [itemLeft, itemLeft, if_neg hResult, if_neg hResult]

/-- The nodes of any session that have the number 1. -/
def onesMatcher : PathMatcher ⟨fun _ => none⟩ Nat :=
  (PathMatcher.empty.putPathString ['*', '/', '*'] (some ⟨fun n _ => n == 1⟩)).getD .empty

theorem onesMatcher_built : onesMatcher.Built :=
  have hPut : PathMatcher.empty.putPathString ['*', '/', '*'] (some ⟨fun n _ => n == 1⟩) = some onesMatcher := rfl
  .put .empty hPut

/-- A node had the numbers of `values`, one after the other. -/
def changes (values : List Nat) : QueuedMessage Nat :=
  ⟨PR_RESULT_DATAITEMS, [(['/', 'h', '/', 's'], .messages (values.map some))], List.nodup_singleton _⟩

/-- The older number stays where the newer one came first. -/
theorem jettisonOutgoingResults_iff_ones :
    ∃ left, jettisonOutgoingResults (fun filter n => filter.isMatch n []) (some onesMatcher) [some (changes [1, 0])] =
        some left ∧
      left = [some (changes [1, 0])].filterMap
        (itemLeft (expectedMessage (fun filter n => filter.isMatch n []) (some onesMatcher))) := by
  obtain ⟨left, hRun, hIff⟩ := jettisonOutgoingResults_iff (fun filter n => filter.isMatch n [])
    (show ∀ m ∈ some onesMatcher, m.Built by rintro _ ⟨⟩; exact onesMatcher_built) [some (changes [1, 0])]
  refine ⟨left, hRun, hIff.mpr ?_⟩
  rintro _ ⟨⟩ - msg hMem -
  obtain rfl := Option.some.inj (List.mem_singleton.mp hMem)
  intro name items hArray
  obtain ⟨rfl, hItems⟩ := Prod.mk.inj (List.mem_singleton.mp (QueuedMessage.getArray_eq_some.mp hArray))
  cases hItems
  decide

/-- The node had the number 0 and has the number 1: the older one goes. -/
theorem jettisonOutgoingResults_older :
    ∃ left, jettisonOutgoingResults (fun filter n => filter.isMatch n []) (some onesMatcher) [some (changes [0, 1])] =
        some left ∧
      left ≠ [some (changes [0, 1])].filterMap
        (itemLeft (expectedMessage (fun filter n => filter.isMatch n []) (some onesMatcher))) := by
  refine ⟨[some (changes [1])], rfl, fun h => ?_⟩
  have hExpected : [some (changes [0, 1])].filterMap
      (itemLeft (expectedMessage (fun filter n => filter.isMatch n []) (some onesMatcher))) =
        [some (changes [0])] := rfl
  have hFirst := congrArg (List.map fun item => item.map fun msg => msg.findMessage ['/', 'h', '/', 's'] 0)
    (h.trans hExpected)
  exact absurd hFirst (by decide)

end BeShare.Muscle.Reflect
