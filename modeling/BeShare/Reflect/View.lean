import BeShare.Reflect.Filters

/-!
What a client knows that applies all messages with data items in order, and what a notice changes of it.
-/

namespace BeShare.Muscle.Reflect

variable {regex : Regex} {Msg : Type}

/-- The nodes that a client knows, with their data. -/
abbrev Table (Msg : Type) := Path → Option (Option Msg)

namespace Table

variable (t : Table Msg)

def put (p : Path) (value : Option (Option Msg)) : Table Msg :=
  fun q => if q = p then value else t q

/-- The removals, then the data items of each path in field order. -/
def apply (m : DataItems Msg) : Table Msg :=
  m.items.foldl (fun t item => item.2.foldl (fun t data => t.put item.1 (some data)) t)
    (m.removed.foldl (fun t p => t.put p none) t)

def applyAll (messages : List (DataItems Msg)) : Table Msg :=
  messages.foldl apply t

end Table

namespace DataItems

/-- The data that a message leaves for a node. -/
def valueAt (q : Path) (items : List (Path × List (Option Msg))) : Option (Option Msg) :=
  (items.flatMap fun item => if item.1 = q then item.2 else []).getLast?

theorem valueAt_of_not_mem {q : Path} {items : List (Path × List (Option Msg))} (h : ∀ item ∈ items, item.1 ≠ q) :
    valueAt q items = none := by
  unfold valueAt
  rw [List.getLast?_eq_none_iff, List.flatMap_eq_nil_iff]
  exact fun item hItem => if_neg (h item hItem)

/-- In a message with one field for each path the added data is the last. -/
theorem valueAt_addItem {np : Path} {data : Option Msg} {items : List (Path × List (Option Msg))}
    (hNodup : (items.map Prod.fst).Nodup) (q : Path) :
    valueAt q (addItem np data items) = if q = np then some data else valueAt q items := by
  induction items with
  | nil =>
    by_cases hSame : q = np
    · subst hSame
      simp [addItem, valueAt]
    · simp [addItem, valueAt, hSame, Ne.symm hSame]
  | cons item items ih =>
    obtain ⟨path, values⟩ := item
    rw [List.map_cons, List.nodup_cons] at hNodup
    unfold addItem
    by_cases hHere : path = np
    · rw [if_pos hHere]
      subst hHere
      have hRest : ∀ item ∈ items, item.1 ≠ path := fun item hItem h =>
        hNodup.1 (List.mem_map.mpr ⟨item, hItem, h⟩)
      by_cases hSame : q = path
      · subst hSame
        have hNone : (items.flatMap fun item => if item.1 = q then item.2 else []) = [] :=
          List.flatMap_eq_nil_iff.mpr fun item hItem => if_neg (hRest item hItem)
        unfold valueAt
        rw [List.flatMap_cons, hNone]
        simp
      · unfold valueAt
        rw [List.flatMap_cons, List.flatMap_cons, if_neg (Ne.symm hSame), if_neg (Ne.symm hSame), if_neg hSame]
    · rw [if_neg hHere]
      have hLater := ih hNodup.2
      unfold valueAt at hLater ⊢
      rw [List.flatMap_cons, List.flatMap_cons, List.getLast?_append, List.getLast?_append, hLater]
      by_cases hSame : q = np
      · rw [if_pos hSame, if_pos hSame]
        rfl
      · rw [if_neg hSame, if_neg hSame]

theorem nodup_addItem {np : Path} {data : Option Msg} {items : List (Path × List (Option Msg))}
    (hNodup : (items.map Prod.fst).Nodup) : ((addItem np data items).map Prod.fst).Nodup ∧
      ∀ path, path ∈ (addItem np data items).map Prod.fst → path = np ∨ path ∈ items.map Prod.fst := by
  induction items with
  | nil => exact ⟨List.nodup_singleton _, fun path h => .inl (List.mem_singleton.mp h)⟩
  | cons item items ih =>
    obtain ⟨path, values⟩ := item
    rw [List.map_cons, List.nodup_cons] at hNodup
    unfold addItem
    split
    · exact ⟨List.nodup_cons.mpr hNodup, fun _ h => .inr h⟩
    · rename_i hHere
      obtain ⟨hRest, hMem⟩ := ih hNodup.2
      refine ⟨List.nodup_cons.mpr ⟨fun hIn => ?_, hRest⟩, fun q hq => ?_⟩
      · exact (hMem path hIn).elim hHere hNodup.1
      · rcases List.mem_cons.mp hq with rfl | hq
        · exact .inr (List.mem_cons_self ..)
        · exact (hMem q hq).imp_right fun h => List.mem_cons_of_mem _ h

end DataItems

namespace Table

theorem foldl_put_none (t : Table Msg) (removed : List Path) (q : Path) :
    removed.foldl (fun t p => put t p none) t q = if q ∈ removed then none else t q := by
  induction removed generalizing t with
  | nil => rfl
  | cons p removed ih =>
    rw [List.foldl_cons, ih]
    unfold put
    by_cases hRest : q ∈ removed
    · rw [if_pos hRest, if_pos (List.mem_cons_of_mem _ hRest)]
    · by_cases hHere : q = p
      · simp [hHere]
      · simp [hRest, hHere]

theorem foldl_put_values (t : Table Msg) (p : Path) (values : List (Option Msg)) (q : Path) :
    values.foldl (fun t data => put t p (some data)) t q = if q = p then values.getLast?.or (t q) else t q := by
  induction values generalizing t with
  | nil => simp
  | cons value values ih =>
    rw [List.foldl_cons, ih]
    unfold put
    by_cases hHere : q = p
    · rw [if_pos hHere, if_pos hHere, if_pos hHere, List.getLast?_cons]
      cases values.getLast? <;> rfl
    · rw [if_neg hHere, if_neg hHere, if_neg hHere]

/-- A message leaves its own data for a node, or removes it, or says nothing of it. -/
theorem apply_eq (t : Table Msg) (m : DataItems Msg) (q : Path) :
    t.apply m q = (DataItems.valueAt q m.items).or (if q ∈ m.removed then none else t q) := by
  unfold apply
  rw [← foldl_put_none]
  generalize m.removed.foldl (fun t p => put t p none) t = t'
  generalize m.items = items
  unfold DataItems.valueAt
  induction items generalizing t' with
  | nil => rfl
  | cons item items ih =>
    rw [List.foldl_cons, ih, foldl_put_values, List.flatMap_cons, List.getLast?_append]
    by_cases hHere : q = item.1
    · rw [if_pos hHere, if_pos hHere.symm, Option.or_assoc]
    · rw [if_neg hHere, if_neg (Ne.symm hHere), List.getLast?_nil, Option.or_none]

end Table

namespace Session

variable {s s' : Session regex Msg} {pushed : Bool}

/-- What the client knows when it has applied all messages, with the one that is not sent yet. -/
def view (s : Session regex Msg) : Table Msg :=
  Table.applyAll (fun _ => none) (s.sent ++ s.nextSubscriptionMessage.toList)

/-- The next message has one field for each path. -/
def PendingNodup (s : Session regex Msg) : Prop :=
  ((s.nextSubscriptionMessage.getD ⟨[], []⟩).items.map Prod.fst).Nodup

theorem apply_nothing (t : Table Msg) : t.apply ⟨[], []⟩ = t :=
  rfl

theorem view_eq (s : Session regex Msg) : s.view =
    (Table.applyAll (fun _ => none) s.sent).apply (s.nextSubscriptionMessage.getD ⟨[], []⟩) := by
  unfold view Table.applyAll
  rw [List.foldl_append]
  cases s.nextSubscriptionMessage <;> rfl

theorem next_push (s : Session regex Msg) : s.push.nextSubscriptionMessage = none := by
  unfold push
  split
  · rfl
  · assumption

theorem view_push (s : Session regex Msg) : s.push.view = s.view := by
  unfold view push
  split
  · rename_i m hPending
    rw [hPending]
    dsimp only
    rw [Option.toList_none, List.append_nil]
    rfl
  · rfl

theorem view_sent_push (s : Session regex Msg) : Table.applyAll (fun _ => none) s.push.sent = s.view := by
  rw [← view_push, view_eq, next_push]
  rfl

theorem pendingNodup_push (s : Session regex Msg) : s.push.PendingNodup := by
  unfold PendingNodup
  rw [next_push]
  exact List.nodup_nil

theorem view_pushIfFull (hPending : s.PendingNodup) (h : s.pushIfFull = some (s', pushed)) :
    s'.view = s.view ∧ s'.PendingNodup := by
  unfold pushIfFull at h
  split at h
  · split at h <;> cases h
    · exact ⟨view_push s, pendingNodup_push s⟩
    · exact ⟨rfl, hPending⟩
  · cases h

/-- A notice puts the node's data into the client's table, or takes the node out. -/
theorem view_nodeChangedAux {np : Path} {data : Option Msg} {isBeingRemoved : Bool} (hPending : s.PendingNodup)
    (h : s.nodeChangedAux np data isBeingRemoved = some (s', pushed)) :
    s'.view = s.view.put np (if isBeingRemoved then none else some data) ∧ s'.PendingNodup := by
  unfold nodeChangedAux at h
  dsimp only at h
  split at h
  · rename_i hRemoved
    rw [if_pos hRemoved]
    split at h
    · split at h
      · rename_i between pushedBefore hFirst
        obtain ⟨last, hLast, hResult⟩ := Option.map_eq_some_iff.mp h
        cases hResult
        obtain ⟨hBetween, hBetweenNodup⟩ := view_pushIfFull
          (show PendingNodup { s.push with nextSubscriptionMessage := some ⟨[np], []⟩ } from List.nodup_nil) hFirst
        obtain ⟨hAfter, hAfterNodup⟩ := view_pushIfFull hBetweenNodup hLast
        refine ⟨?_, hAfterNodup⟩
        rw [hAfter, hBetween, view_eq]
        show (Table.applyAll (fun _ => none) s.push.sent).apply ⟨[np], []⟩ = _
        rw [view_sent_push]
        rfl
      · cases h
    · rename_i hNoItem
      obtain ⟨hAfter, hAfterNodup⟩ := view_pushIfFull (show PendingNodup { s with
        nextSubscriptionMessage := some { s.nextSubscriptionMessage.getD ⟨[], []⟩ with
          removed := (s.nextSubscriptionMessage.getD ⟨[], []⟩).removed ++ [np] } } from hPending) h
      refine ⟨?_, hAfterNodup⟩
      rw [hAfter, view_eq, view_eq]
      funext q
      unfold Table.put
      rw [Table.apply_eq, Table.apply_eq]
      dsimp only
      rw [Option.getD_some]
      by_cases hHere : q = np
      · have hNone : DataItems.valueAt q (s.nextSubscriptionMessage.getD ⟨[], []⟩).items = none := by
          refine DataItems.valueAt_of_not_mem fun item hItem hSame => hNoItem ?_
          exact List.any_eq_true.mpr ⟨item, hItem, beq_iff_eq.mpr (hSame.trans hHere)⟩
        have hIn : q ∈ (s.nextSubscriptionMessage.getD ⟨[], []⟩).removed ++ [np] :=
          List.mem_append_right _ (List.mem_singleton.mpr hHere)
        rw [if_pos hHere, hNone, if_pos hIn]
        rfl
      · have hSame : q ∈ (s.nextSubscriptionMessage.getD ⟨[], []⟩).removed ++ [np] ↔
            q ∈ (s.nextSubscriptionMessage.getD ⟨[], []⟩).removed := by simp [hHere]
        simp only [hSame, if_neg hHere]
  · rename_i hAdded
    obtain ⟨hNodup, -⟩ := @DataItems.nodup_addItem _ np data _ hPending
    obtain ⟨hAfter, hAfterNodup⟩ := view_pushIfFull (show PendingNodup { s with
      nextSubscriptionMessage := some { s.nextSubscriptionMessage.getD ⟨[], []⟩ with
        items := DataItems.addItem np data (s.nextSubscriptionMessage.getD ⟨[], []⟩).items } } from hNodup) h
    refine ⟨?_, hAfterNodup⟩
    rw [if_neg hAdded, hAfter, view_eq, view_eq]
    funext q
    unfold Table.put
    rw [Table.apply_eq, Table.apply_eq]
    dsimp only
    rw [Option.getD_some]
    dsimp only
    rw [DataItems.valueAt_addItem hPending]
    split
    · rfl
    · rfl

/-- What a client with these subscriptions is to know of a node. -/
def shownData (m : PathMatcher regex Msg) (p : Path) (data : Option Msg) : Option (Option Msg) :=
  match data with
  | some _ => if m.matchesNode p data 0 then some data else none
  | none => none

/-- Of other nodes nothing changes, and of the node the client learns what it is to know, if it knew that before. -/
theorem view_nodeChanged {np : Path} {oldData data : Option Msg} {isBeingRemoved : Bool}
    (hEnabled : s.subscriptionsEnabled = true) (hCounted : s.subscriptions.FiltersCounted)
    (hMarked : s.subscriptions.matchesNode np none 0 = true) (hPending : s.PendingNodup)
    (hOld : isBeingRemoved = true → oldData.isSome = true) (hNew : isBeingRemoved = false → data.isSome = true)
    (h : s.nodeChanged np oldData data isBeingRemoved = some (s', pushed)) :
    s'.PendingNodup ∧ (∀ q, q ≠ np → s'.view q = s.view q) ∧
      (s.view np = shownData s.subscriptions np oldData →
        s'.view np = if isBeingRemoved then none else shownData s.subscriptions np data) := by
  unfold nodeChanged at h
  rw [if_pos hEnabled, notice_eq hCounted hMarked] at h
  unfold noticeFor at h
  have hPut : ∀ removed, s.nodeChangedAux np data removed = some (s', pushed) →
      s'.PendingNodup ∧ (∀ q, q ≠ np → s'.view q = s.view q) ∧ s'.view np = if removed then none else some data := by
    intro removed hAux
    obtain ⟨hView, hNodup⟩ := view_nodeChangedAux hPending hAux
    rw [hView]
    exact ⟨hNodup, fun q hq => if_neg hq, if_pos rfl⟩
  cases isBeingRemoved with
  | true =>
    obtain ⟨old, rfl⟩ := Option.isSome_iff_exists.mp (hOld rfl)
    rw [if_pos rfl] at h
    by_cases hBefore : s.subscriptions.matchesNode np (some old) 0 = true
    · rw [if_pos hBefore] at h
      obtain ⟨hNodup, hOthers, hHere⟩ := hPut true h
      exact ⟨hNodup, hOthers, fun _ => hHere⟩
    · rw [if_neg hBefore] at h
      cases h
      refine ⟨hPending, fun _ _ => rfl, fun hView => hView.trans ?_⟩
      exact if_neg hBefore
  | false =>
    obtain ⟨new, rfl⟩ := Option.isSome_iff_exists.mp (hNew rfl)
    rw [if_neg Bool.false_ne_true] at h
    by_cases hAfter : s.subscriptions.matchesNode np (some new) 0 = true
    · rw [if_pos hAfter] at h
      obtain ⟨hNodup, hOthers, hHere⟩ := hPut false h
      refine ⟨hNodup, hOthers, fun _ => hHere.trans ?_⟩
      exact (if_pos hAfter).symm
    · rw [if_neg hAfter] at h
      have hTarget : shownData s.subscriptions np (some new) = none := if_neg hAfter
      split at h
      · rename_i removed hNotice
        split at hNotice
        · cases hNotice
          obtain ⟨hNodup, hOthers, hHere⟩ := hPut true h
          refine ⟨hNodup, hOthers, fun _ => hHere.trans ?_⟩
          exact hTarget.symm
        · cases hNotice
      · rename_i hNotice
        cases h
        refine ⟨hPending, fun _ _ => rfl, fun hView => hView.trans ?_⟩
        refine Eq.trans ?_ hTarget.symm
        cases oldData with
        | none => rfl
        | some old =>
          refine if_neg fun hBefore => ?_
          rw [Option.isSome_some, Bool.true_and, if_pos hBefore] at hNotice
          cases hNotice

end Session

end BeShare.Muscle.Reflect
