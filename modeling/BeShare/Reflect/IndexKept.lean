import BeShare.Reflect.Index
import BeShare.Reflect.Tending
import BeShare.Reflect.WriteIsolation

/-!
The indices of a server's nodes, and what their subscribers are told of them: each change that is noticed is told to a
watching session as it is made.
-/

namespace BeShare.Muscle.Reflect

variable {regex : Regex} {Msg : Type}

/-- What a client does with an update, if the update fits its list. -/
def IndexUpdate.apply : IndexUpdate → List Str → Option (List Str)
  | .cleared, _ => some []
  | .inserted i key, index => if i ≤ index.length then some (index.insertIdx i key) else none
  | .removed i key, index => if index[i]? = some key then some (index.eraseIdx i) else none

/-- What a client does with updates one after another. -/
def IndexUpdate.applyAll (updates : List IndexUpdate) (index : List Str) : Option (List Str) :=
  updates.foldlM (fun index update => update.apply index) index

theorem IndexUpdate.applyAll_append {updates updates' : List IndexUpdate} {index index' : List Str}
    (h : applyAll updates index = some index') : applyAll (updates ++ updates') index = applyAll updates' index' := by
  unfold applyAll at h ⊢
  rw [List.foldlM_append, h]
  rfl

/-- What of a list of updates is for one session and one node. -/
def updatesFor (id : Str) (p : Path) (updates : List (Str × Path × IndexUpdate)) : List IndexUpdate :=
  updates.filterMap fun u => if u.1 = id ∧ u.2.1 = p then some u.2.2 else none

theorem updatesFor_append (id : Str) (p : Path) (l l' : List (Str × Path × IndexUpdate)) :
    updatesFor id p (l ++ l') = updatesFor id p l ++ updatesFor id p l' :=
  List.filterMap_append

/-- The host and the ID of a member, and whether it has indices. -/
def Member.standing (m : Member regex Msg) : Str × Str × Bool :=
  (m.host, m.session.id, m.indexingPresent)

theorem standing_of_footing {members members' : List (Member regex Msg)}
    (h : members'.map Member.footing = members.map Member.footing) :
    members'.map Member.standing = members.map Member.standing := by
  have hStanding := congrArg (List.map fun k => (k.1.1, k.1.2.1, k.2)) h
  rw [List.map_map, List.map_map] at hStanding
  exact hStanding

theorem settings_of_footing {members members' : List (Member regex Msg)}
    (h : members'.map Member.footing = members.map Member.footing) :
    members'.map Member.settings = members.map Member.settings := by
  have hSettings := congrArg (List.map Prod.fst) h
  rw [List.map_map, List.map_map] at hSettings
  exact hSettings

namespace IndexedServer

variable {st st' st'' : IndexedServer regex Msg} {self id key : Str} {p q : Path} {index : List Str}

def indexAt (st : IndexedServer regex Msg) (p : Path) : List Str :=
  (st.orderedIndex p).getD []

/-- What a session is told of the index of a node, with what is still to be sent. -/
def told (st : IndexedServer regex Msg) (id : Str) (p : Path) : List IndexUpdate :=
  updatesFor id p (st.indexUpdates ++ st.nextIndexUpdates)

/-- Each entry of an index is a child with a name that the index may have, once; and the node belongs to a session that
knows that it has indices. -/
structure Kept (st : IndexedServer regex Msg) : Prop where
  marked : st.server.Marked
  nodup : ∀ q, (st.indexAt q).Nodup
  children : ∀ q, ∀ key ∈ st.indexAt q, key.head? = some 'I' ∧ q ++ [key] ∈ st.server.db.paths
  present : ∀ q, st.indexAt q ≠ [] →
    ∃ k ∈ st.server.members.map Member.standing, [k.1, k.2.1] <+: q ∧ k.2.2 = true

/-- The session has its subscriptions enabled, and one of them matches the node. -/
def Watching (st : IndexedServer regex Msg) (id : Str) (p : Path) : Prop :=
  ∃ k ∈ st.server.members.map Member.settings, k.2.1 = id ∧ k.2.2.2.2.2.1 = true ∧ 0 < k.2.2.1.markCount p

/-- The session is told what turns the old index into the new one. -/
def Tells (id : Str) (p : Path) (st st' : IndexedServer regex Msg) : Prop :=
  ∃ updates, st'.told id p = st.told id p ++ updates ∧
    IndexUpdate.applyAll updates (st.indexAt p) = some (st'.indexAt p)

theorem Tells.of_same (hTold : st'.told id p = st.told id p) (hIndex : st'.indexAt p = st.indexAt p) :
    Tells id p st st' :=
  ⟨[], by rw [hTold, List.append_nil], by rw [hIndex]; rfl⟩

theorem Tells.trans (h : Tells id p st st') (h' : Tells id p st' st'') : Tells id p st st'' := by
  obtain ⟨updates, hTold, hApply⟩ := h
  obtain ⟨updates', hTold', hApply'⟩ := h'
  refine ⟨updates ++ updates', ?_, (IndexUpdate.applyAll_append hApply).trans hApply'⟩
  rw [hTold', hTold, List.append_assoc]

/-- A step that keeps the indices right, and tells of it unless it is a quiet one. -/
structure Goes (loud : Prop) (st st' : IndexedServer regex Msg) : Prop where
  kept : st'.Kept
  members : st'.server.members.map Member.settings = st.server.members.map Member.settings
  tells : loud → ∀ id p, st.Watching id p → Tells id p st st'

variable {loud : Prop}

theorem Goes.refl (h : st.Kept) : Goes loud st st :=
  ⟨h, rfl, fun _ _ _ _ => .of_same rfl rfl⟩

theorem Goes.watching (h : Goes loud st st') (hWatching : st.Watching id p) : st'.Watching id p := by
  unfold Watching
  rw [h.members]
  exact hWatching

theorem Goes.trans (h : Goes loud st st') (h' : Goes loud st' st'') : Goes loud st st'' :=
  ⟨h'.kept, h'.members.trans h.members, fun hLoud id p hWatching =>
    (h.tells hLoud id p hWatching).trans (h'.tells hLoud id p (h.watching hWatching))⟩

theorem Goes.of_imp {loud' : Prop} (h : Goes loud st st') (hImp : loud' → loud) : Goes loud' st st' :=
  ⟨h.kept, h.members, fun hLoud => h.tells (hImp hLoud)⟩

theorem goes_foldlM {α : Type} {f : IndexedServer regex Msg → α → Option (IndexedServer regex Msg)} {l : List α}
    (hKept : st.Kept) (h : l.foldlM f st = some st')
    (hStep : ∀ a ∈ l, ∀ t t', Goes loud st t → f t a = some t' → Goes loud t t') : Goes loud st st' :=
  Lib.foldlM_keeps (P := Goes loud st) h (fun a ha t t' ht hf => ht.trans (hStep a ha t t' ht hf)) (.refl hKept)

/-! ### Notices -/

/-- The session is there, and has its subscriptions enabled. -/
def hears (st : IndexedServer regex Msg) (id : Str) : Bool :=
  (st.server.member? id).any fun m => m.session.subscriptionsEnabled

theorem nodeIndexChanged_eq (st : IndexedServer regex Msg) (id : Str) (q : Path) (update : IndexUpdate) :
    st.nodeIndexChanged id q update =
      { st with nextIndexUpdates := st.nextIndexUpdates ++ if st.hears id then [(id, q, update)] else [] } := by
  unfold nodeIndexChanged hears
  cases st.server.member? id with
  | none => simp
  | some m =>
    dsimp only [Option.any_some]
    split
    · rfl
    · rw [List.append_nil]

theorem foldl_nodeIndexChanged (st : IndexedServer regex Msg) (subscribers : List (Str × Nat)) (q : Path)
    (update : IndexUpdate) : subscribers.foldl (fun st next => st.nodeIndexChanged next.1 q update) st =
      { st with nextIndexUpdates := st.nextIndexUpdates ++
          (subscribers.filter fun next => st.hears next.1).map fun next => (next.1, q, update) } := by
  induction subscribers generalizing st with
  | nil => simp
  | cons next rest ih =>
    rw [List.foldl_cons, ih, nodeIndexChanged_eq, List.filter_cons]
    show ({ st with nextIndexUpdates := _ ++ (rest.filter fun next => st.hears next.1).map _ } :
      IndexedServer regex Msg) = _
    rw [List.append_assoc]
    split <;> rfl

theorem updatesFor_notices {subscribers : List (Str × Nat)} {hearing : Str → Bool} {update : IndexUpdate} (id : Str)
    (p : Path) (hNodup : (subscribers.map Prod.fst).Nodup) :
    updatesFor id p ((subscribers.filter fun next => hearing next.1).map fun next => (next.1, q, update)) =
      if q = p ∧ id ∈ subscribers.map Prod.fst ∧ hearing id = true then [update] else [] := by
  unfold updatesFor
  rw [List.filterMap_map]
  by_cases hHere : q = p
  · induction subscribers with
    | nil => simp
    | cons next rest ih =>
      obtain ⟨hNot, hRest⟩ := List.nodup_cons.mp hNodup
      rw [List.filter_cons]
      by_cases hSame : next.1 = id
      · have hGone : ¬(q = p ∧ id ∈ rest.map Prod.fst ∧ hearing id = true) := fun hBoth => hNot (hSame ▸ hBoth.2.1)
        have hNone := ih hRest
        rw [if_neg hGone] at hNone
        rw [hSame]
        split
        next hHears =>
          rw [List.filterMap_cons, hNone, if_pos ⟨hHere, List.mem_map.mpr ⟨next, List.mem_cons_self .., hSame⟩, hHears⟩]
          simp [hSame, hHere]
        next hHears => rw [hNone, if_neg fun hBoth => hHears hBoth.2.2]
      · simp only [List.map_cons, List.mem_cons, Ne.symm hSame, false_or]
        rw [← ih hRest]
        split
        · exact List.filterMap_cons_none (if_neg fun hBoth => hSame hBoth.1)
        · rfl
  · rw [if_neg fun hBoth => hHere hBoth.1]
    exact List.filterMap_eq_nil_iff.mpr fun next _ => if_neg fun hBoth => hHere hBoth.2

/-- A watching session is told of a change of the node once, and of no other node by that. -/
theorem told_notify (hMarked : st.server.Marked) (hWatching : st.Watching id p) (hIn : q ∈ st.server.db.paths)
    (update : IndexUpdate) : (st.notifySubscribersThatNodeIndexChanged q update).told id p =
      st.told id p ++ if q = p then [update] else [] := by
  obtain ⟨n, hn⟩ := Option.isSome_iff_exists.mp (Database.mem_paths.mp hIn)
  obtain ⟨k, hk, hId, hEnabled, hCount⟩ := hWatching
  obtain ⟨m, hm, rfl⟩ := List.mem_map.mp hk
  have hFound : st.server.member? id = some m := by
    rw [← show m.session.id = id from hId]
    exact Server.member?_of_mem hMarked.ids hm
  have hHears : st.hears id = true := by
    unfold hears
    rw [hFound]
    exact hEnabled
  unfold told notifySubscribersThatNodeIndexChanged
  rw [hn, foldl_nodeIndexChanged]
  show updatesFor id p (st.indexUpdates ++ (st.nextIndexUpdates ++
    ((n.subscribers.filter fun next => st.hears next.1).map fun next => (next.1, q, update)))) = _
  rw [← List.append_assoc, updatesFor_append, updatesFor_notices id p (hMarked.nodup q n hn)]
  congr 1
  by_cases hHere : q = p
  · have hMark := hMarked.marks q n hn id
    have hMatch : st.server.matchCount id q = m.session.subscriptions.markCount q := by
      unfold Server.matchCount
      rw [hFound]
    have hMarkedHere : id ∈ n.subscribers.map Prod.fst := by
      have hSome : m.session.subscriptions.markCount p ≠ 0 := Nat.ne_of_gt hCount
      rw [hMatch, hHere, DataNode.countMark, if_neg hSome] at hMark
      unfold DataNode.mark at hMark
      obtain ⟨entry, hEntry, -⟩ := Option.map_eq_some_iff.mp hMark
      have hName := List.find?_some hEntry
      exact List.mem_map.mpr ⟨entry, List.mem_of_find?_eq_some hEntry, by simpa using hName⟩
    rw [if_pos ⟨hHere, hMarkedHere, hHears⟩, if_pos hHere]
  · rw [if_neg fun hBoth => hHere hBoth.1, if_neg hHere]

/-! ### Indices that change -/

theorem indexAt_setIndex (index : Option (List Str)) (q : Path) :
    (st.setIndex p index).indexAt q = if q = p then index.getD [] else st.indexAt q := by
  unfold indexAt setIndex
  dsimp only
  split <;> rfl

theorem Kept.of_same (h : st.Kept) (hServer : st'.server = st.server) (hIndex : st'.orderedIndex = st.orderedIndex) :
    st'.Kept := by
  have hAt : ∀ q, st'.indexAt q = st.indexAt q := fun q => congrArg (fun f => (f q).getD []) hIndex
  refine ⟨hServer ▸ h.marked, fun q => ?_, fun q key hKey => ?_, fun q hSome => ?_⟩
  · rw [hAt]
    exact h.nodup q
  · rw [hServer]
    exact h.children q key (hAt q ▸ hKey)
  · rw [hServer]
    exact h.present q (hAt q ▸ hSome)

/-- The server alone changes: all that an index needs is still there. -/
theorem kept_server (h : st.Kept) {server : Server regex Msg} (hMarked : server.Marked)
    (hPaths : ∀ q ∈ st.server.db.paths, q ∈ server.db.paths)
    (hStanding : ∀ k ∈ st.server.members.map Member.standing, k.2.2 = true → k ∈ server.members.map Member.standing) :
    ({ st with server := server } : IndexedServer regex Msg).Kept := by
  refine ⟨hMarked, h.nodup, fun q key hKey => ?_, fun q hSome => ?_⟩
  · obtain ⟨hName, hChild⟩ := h.children q key hKey
    exact ⟨hName, hPaths _ hChild⟩
  · obtain ⟨k, hk, hOwn, hPresent⟩ := h.present q hSome
    exact ⟨k, hStanding k hk hPresent, hOwn, hPresent⟩

theorem goes_server (h : st.Kept) {server : Server regex Msg} (hTended : st.server.Tended server) :
    Goes loud st { st with server := server } := by
  refine ⟨kept_server h hTended.marked hTended.paths fun k hk _ => ?_, settings_of_footing hTended.members,
    fun _ _ _ _ => .of_same rfl rfl⟩
  rw [standing_of_footing hTended.members]
  exact hk

theorem kept_setIndex (h : st.Kept) {new : List Str} (hNodup : new.Nodup)
    (hChildren : ∀ key ∈ new, key.head? = some 'I' ∧ p ++ [key] ∈ st.server.db.paths)
    (hPresent : new ≠ [] → ∃ k ∈ st.server.members.map Member.standing, [k.1, k.2.1] <+: p ∧ k.2.2 = true) :
    (st.setIndex p (some new)).Kept := by
  refine ⟨h.marked, fun q => ?_, fun q key hKey => ?_, fun q hSome => ?_⟩
  · rw [indexAt_setIndex]
    split
    · exact hNodup
    · exact h.nodup q
  · rw [indexAt_setIndex] at hKey
    split at hKey
    next hHere => exact hHere ▸ hChildren key hKey
    next => exact h.children q key hKey
  · rw [indexAt_setIndex] at hSome
    split at hSome
    next hHere => exact hHere ▸ hPresent hSome
    next => exact h.present q hSome

/-- An index changes as its subscribers are told. -/
theorem goes_edit (h : st.Kept) {new : List Str} (hKept : (st.setIndex q (some new)).Kept)
    (hIn : q ∈ st.server.db.paths) {update : IndexUpdate} (hApply : update.apply (st.indexAt q) = some new) :
    Goes loud st ((st.setIndex q (some new)).notifySubscribersThatNodeIndexChanged q update) := by
  obtain ⟨updates, hUpdates⟩ := notify_eq (st.setIndex q (some new)) q update
  have hAt : ∀ p, ((st.setIndex q (some new)).notifySubscribersThatNodeIndexChanged q update).indexAt p =
      if p = q then new else st.indexAt p := by
    intro p
    rw [hUpdates]
    exact indexAt_setIndex ..
  refine ⟨?_, by rw [hUpdates]; rfl, fun _ id p hWatching => ⟨if q = p then [update] else [], ?_, ?_⟩⟩
  · rw [hUpdates]
    exact hKept.of_same rfl rfl
  · exact @told_notify regex Msg (st.setIndex q (some new)) id p q h.marked hWatching hIn update
  · rw [hAt]
    by_cases hHere : q = p
    · subst hHere
      rw [if_pos rfl, if_pos rfl]
      unfold IndexUpdate.applyAll
      rw [List.foldlM_cons, hApply]
      rfl
    · rw [if_neg hHere, if_neg (Ne.symm hHere)]
      rfl

theorem mem_of_index (h : st.Kept) (hKey : key ∈ st.indexAt p) : p ∈ st.server.db.paths :=
  Database.prefix_mem (List.prefix_append p [key]) (h.children p key hKey).2

theorem goes_insertIndexEntry (h : st.Kept) {i : Nat} (hSlot : i ≤ (st.indexAt p).length) (hName : key.head? = some 'I')
    (hChild : p ++ [key] ∈ st.server.db.paths) (hNew : key ∉ st.indexAt p)
    (hPresent : ∃ k ∈ st.server.members.map Member.standing, [k.1, k.2.1] <+: p ∧ k.2.2 = true) :
    Goes loud st (st.insertIndexEntry p i key) := by
  have hPerm := List.perm_insertIdx key (st.indexAt p) hSlot
  refine goes_edit h (kept_setIndex h ?_ (fun entry hEntry => ?_) fun _ => hPresent)
    (Database.prefix_mem (List.prefix_append p [key]) hChild) (if_pos hSlot)
  · exact hPerm.nodup_iff.mpr (List.nodup_cons.mpr ⟨hNew, h.nodup p⟩)
  · rcases List.mem_cons.mp (hPerm.mem_iff.mp hEntry) with rfl | hOld
    · exact ⟨hName, hChild⟩
    · exact h.children p entry hOld

/-- What is left when an entry is removed. -/
structure Unlisted (p : Path) (key : Str) (st st' : IndexedServer regex Msg) (status : Bool) : Prop where
  server : st'.server = st.server
  gone : key ∉ st'.indexAt p
  listed : status = true → key ∈ st.indexAt p

theorem goes_removeIndexEntry (h : st.Kept) (p : Path) (key : Str) (notify : Bool) :
    Goes (notify = true) st (st.removeIndexEntry p key notify).1 ∧
      Unlisted p key st (st.removeIndexEntry p key notify).1 (st.removeIndexEntry p key notify).2 := by
  unfold removeIndexEntry
  split
  next index hIndex =>
    have hAt : st.indexAt p = index := congrArg (·.getD []) hIndex
    split
    next i hi =>
      have hLast : key.head? = some 'I' ∧ lastIndexOf key index = some i := by
        unfold entryIndex at hi
        split at hi
        next hName => exact ⟨hName, hi⟩
        next => cases hi
      have hFound : index[i]? = some key := getElem?_of_lastIndexOf hLast.2
      have hListed : key ∈ st.indexAt p := hAt ▸ List.mem_of_getElem? hFound
      have hNodup : index.Nodup := hAt ▸ h.nodup p
      have hLess : ∀ entry ∈ index.eraseIdx i, entry ∈ st.indexAt p := fun entry hEntry =>
        hAt ▸ List.mem_of_mem_eraseIdx hEntry
      have hSet : (st.setIndex p (some (index.eraseIdx i))).Kept := by
        refine kept_setIndex h (hNodup.sublist (List.eraseIdx_sublist ..)) (fun entry hEntry => ?_) fun _ => ?_
        · exact h.children p entry (hLess entry hEntry)
        · exact h.present p (List.ne_nil_of_mem hListed)
      have hGone : key ∉ index.eraseIdx i := fun hIn => ((mem_eraseIdx_lastIndexOf hNodup hLast.2).mp hIn).2 rfl
      have hApply : (IndexUpdate.removed i key).apply (st.indexAt p) = some (index.eraseIdx i) := by
        rw [hAt]
        exact if_pos hFound
      dsimp only
      split
      · obtain ⟨updates, hUpdates⟩ := notify_eq (st.setIndex p (some (index.eraseIdx i))) p (.removed i key)
        refine ⟨goes_edit h hSet (mem_of_index h hListed) hApply, ?_, ?_, fun _ => hListed⟩
        · rw [hUpdates]
          rfl
        · rw [hUpdates]
          show key ∉ (st.setIndex p (some (index.eraseIdx i))).indexAt p
          rw [indexAt_setIndex, if_pos rfl]
          exact hGone
      next hQuiet =>
        refine ⟨⟨hSet, rfl, fun hLoud => absurd hLoud hQuiet⟩, rfl, ?_, fun _ => hListed⟩
        rw [indexAt_setIndex, if_pos rfl]
        exact hGone
    next hNone =>
      refine ⟨.refl h, rfl, fun hIn => ?_, fun hStatus => by cases hStatus⟩
      unfold entryIndex at hNone
      rw [if_pos (h.children p key hIn).1, lastIndexOf_eq_none] at hNone
      exact hNone (hAt ▸ hIn)
  next hIndex =>
    refine ⟨.refl h, rfl, fun hIn => ?_, fun hStatus => by cases hStatus⟩
    rw [show st.indexAt p = [] from congrArg (·.getD []) hIndex] at hIn
    cases hIn

/-! ### Nodes -/

theorem indexAt_leaf (h : st.Kept) (hLeaf : st.server.db.children p = []) : st.indexAt p = [] := by
  refine List.eq_nil_iff_forall_not_mem.mpr fun key hKey => ?_
  have hChild := Database.mem_children.mpr (h.children p key hKey).2
  rw [hLeaf] at hChild
  cases hChild

theorem goes_removeNode (h : st.Kept) {notify : Bool} (hLeaf : st.server.db.children p = [])
    (hRemove : removeNode self notify st p = some st') : Goes (notify = true) st st' ∧
      st'.server.db.paths = st.server.db.paths.filter fun q => decide (q ≠ p) := by
  unfold removeNode at hRemove
  obtain ⟨hGoes, hUnlisted⟩ := goes_removeIndexEntry h p.dropLast (p.getLast?.getD []) notify
  generalize (st.removeIndexEntry p.dropLast (p.getLast?.getD []) notify).1 = t at hRemove hGoes hUnlisted
  obtain ⟨server, hNode, rfl⟩ := Option.map_eq_some_iff.mp hRemove
  have hKept := hGoes.kept
  rw [← hUnlisted.server] at hLeaf
  have hLost := Server.lost_removeNode hKept.marked hLeaf hNode
  -- a leaf has an empty index, so that all indices are as they were
  have hAt : ∀ q, (({ t with server := server } : IndexedServer regex Msg).setIndex p none).indexAt q =
      t.indexAt q := by
    intro q
    rw [indexAt_setIndex]
    split
    next hHere => exact hHere ▸ (indexAt_leaf hKept hLeaf).symm
    next => rfl
  refine ⟨hGoes.trans ⟨⟨hLost.marked, fun q => hAt q ▸ hKept.nodup q, fun q key hKey => ?_, fun q hSome => ?_⟩,
    settings_of_footing hLost.members, fun _ id q _ => .of_same rfl (hAt q)⟩, ?_⟩
  · rw [hAt] at hKey
    obtain ⟨hName, hChild⟩ := hKept.children q key hKey
    refine ⟨hName, ?_⟩
    show q ++ [key] ∈ server.db.paths
    rw [hLost.paths, List.mem_filter]
    refine ⟨hChild, decide_eq_true_iff.mpr fun hSame => hUnlisted.gone ?_⟩
    rw [← hSame, List.dropLast_concat, List.getLast?_concat]
    exact hKey
  · rw [hAt] at hSome
    show ∃ k ∈ server.members.map Member.standing, _
    rw [standing_of_footing hLost.members]
    exact hKept.present q hSome
  · show server.db.paths = _
    rw [hLost.paths, hUnlisted.server]

/-- With all that is below a node its entries go, and with the node its own. -/
theorem goes_removeChild (h : st.Kept) {notify : Bool} (hRemove : st.removeChild self p notify = some st') :
    Goes (notify = true) st st' ∧ st'.server.db.paths = st.server.db.paths.filter fun q => decide (¬p <+: q) := by
  unfold removeChild at hRemove
  split at hRemove
  next hIn =>
    refine @Server.foldlM_subtree Msg p (IndexedServer regex Msg) (fun t => t.server.db) (Goes (notify = true) st) _ st
      st' hIn (fun q t t' ht _ _ hLeaf hStep => ?_) (.refl h) hRemove
    obtain ⟨hGoes, hPaths⟩ := goes_removeNode ht.kept hLeaf hStep
    exact ⟨ht.trans hGoes, hPaths⟩
  next hOut =>
    cases hRemove
    exact ⟨.refl h, Server.filter_of_not_mem hOut⟩

theorem goes_removeDataStep (h : st.Kept) {quiet : Bool} (hStep : removeDataStep self quiet st p = some st') :
    Goes (quiet = false) st st' := by
  unfold removeDataStep at hStep
  split at hStep
  · obtain ⟨t, hRemove, rfl⟩ := Option.map_eq_some_iff.mp hStep
    have hGone := (goes_removeChild h hRemove).1.of_imp fun hLoud => (Bool.not_eq_true' quiet).mpr hLoud
    exact hGone.trans (goes_server hGone.kept (Server.tended_updateMember hGone.kept.marked fun _ => rfl))
  · cases hStep
    exact .refl h

theorem goes_doRemoveData (h : st.Kept) {matcher : PathMatcher regex Msg} {quiet : Bool}
    (hRemove : st.doRemoveData self matcher quiet = some st') : Goes (quiet = false) st st' := by
  unfold doRemoveData at hRemove
  split at hRemove
  · exact goes_foldlM h hRemove fun _ _ _ _ ht hStep => goes_removeDataStep ht.kept hStep
  · cases hRemove
    exact .refl h

/-! ### Children with an order -/

/-- The node is below the one of the session. -/
def Owns (st : IndexedServer regex Msg) (self : Str) (p : Path) : Prop :=
  ∃ k ∈ st.server.members.map Member.settings, k.2.1 = self ∧ [k.1, k.2.1] <+: p

theorem Goes.owns (h : Goes loud st st') (hOwns : st.Owns self p) : st'.Owns self p := by
  unfold Owns
  rw [h.members]
  exact hOwns

/-- The session knows of its first index, before there is one. -/
theorem goes_flag (h : st.Kept) {f : Member regex Msg → Member regex Msg} (hSettings : ∀ m, (f m).settings = m.settings)
    (hPresent : ∀ m, (f m).indexingPresent = true) :
    Goes loud st { st with server := st.server.updateMember self f } ∧
      (st.Owns self p → ∃ k ∈ (st.server.updateMember self f).members.map Member.standing,
        [k.1, k.2.1] <+: p ∧ k.2.2 = true) := by
  have hStands : ∀ m, (f m).standing = (m.host, m.session.id, true) := by
    intro m
    have hHost : (f m).host = m.host := congrArg Prod.fst (hSettings m)
    have hId : (f m).session.id = m.session.id := congrArg (fun k => k.2.1) (hSettings m)
    unfold Member.standing
    rw [hHost, hId, hPresent]
  have hFlagged : ∀ m ∈ st.server.members, m.session.id = self →
      (m.host, m.session.id, true) ∈ (st.server.updateMember self f).members.map Member.standing := by
    intro m hm hSelf
    refine List.mem_map.mpr ⟨f m, List.mem_map.mpr ⟨m, hm, if_pos hSelf⟩, hStands m⟩
  have hSimilar : Server.Similar st.server (st.server.updateMember self f) :=
    Server.similar_updateMember fun m _ _ => hSettings m
  refine ⟨⟨kept_server h (hSimilar.marked h.marked) (fun _ hq => hq) fun k hk hTrue => ?_, hSimilar.members,
    fun _ _ _ _ => .of_same rfl rfl⟩, ?_⟩
  · obtain ⟨m, hm, rfl⟩ := List.mem_map.mp hk
    by_cases hSelf : m.session.id = self
    · have hMem := hFlagged m hm hSelf
      unfold Member.standing at hTrue ⊢
      dsimp only at hTrue
      rw [hTrue]
      exact hMem
    · exact List.mem_map.mpr ⟨m, List.mem_map.mpr ⟨m, hm, if_neg hSelf⟩, rfl⟩
  · rintro ⟨k, hk, hSelf, hBelow⟩
    obtain ⟨m, hm, rfl⟩ := List.mem_map.mp hk
    exact ⟨_, hFlagged m hm hSelf, hBelow, rfl⟩

theorem goes_insertOrderedChild (h : st.Kept) (hOwns : st.Owns self p) {made before : Str}
    (hName : made.head? = some 'I')
    {data : Msg} (hInsert : st.insertOrderedChild self p made before data = some st') : Goes loud st st' := by
  unfold insertOrderedChild at hInsert
  split at hInsert
  next hGuard =>
    obtain ⟨server, hPut, rfl⟩ := Option.map_eq_some_iff.mp hInsert
    have hNew : p ++ [made] ∉ st.server.db.paths := of_decide_eq_false hGuard.2.2
    obtain ⟨hTended, hMade⟩ := Server.tended_putChild h.marked hNew hPut
    have hPut : Goes loud st { st with server := server } := goes_server h hTended
    obtain ⟨hFlag, hPresent⟩ := @goes_flag regex Msg { st with server := server } self p loud hPut.kept
      (fun m => { m with indexingPresent := true, currentNodeCount := m.currentNodeCount + 1 })
      (fun _ => rfl) fun _ => rfl
    refine (hPut.trans hFlag).trans (goes_insertIndexEntry hFlag.kept ?_ hName (hMade hGuard.1) ?_
      (hPresent (hPut.owns hOwns)))
    · show (entryIndex before (st.indexAt p)).getD (st.indexAt p).length ≤ (st.indexAt p).length
      unfold entryIndex
      split
      · exact lastIndexOf_getD_le ..
      · exact Nat.le_refl _
    · exact fun hOld => hNew (h.children p made hOld).2
  next =>
    cases hInsert
    exact .refl h

theorem owns_sessionDir {m : Member regex Msg} (hm : st.server.member? self = some m) (hBelow : m.sessionDir <+: p) :
    st.Owns self p := by
  obtain ⟨hIn, hId⟩ := Server.member?_mem hm
  exact ⟨m.settings, List.mem_map_of_mem hIn, hId, hBelow⟩

theorem goes_insertOrderedData (h : st.Kept) {keys : Keys Msg} {fields : List (Str × Msg)} {made : Path → Nat → UInt32}
    (hInsert : st.insertOrderedData self keys fields made = some st') : Goes loud st st' := by
  unfold insertOrderedData at hInsert
  split at hInsert
  next m hm =>
    refine PathMatcher.visit_keeps (P := Goes loud st) (fun q t t' d hBelow _ ht hCalled => ?_) (.refl h) hInsert
    unfold insertOrderedDataCallback at hCalled
    obtain ⟨u, hFields, hSame⟩ := Option.map_eq_some_iff.mp hCalled
    cases hSame
    refine ht.trans (goes_foldlM ht.kept hFields fun field _ v v' hv hStep => ?_)
    exact goes_insertOrderedChild hv.kept ((ht.trans hv).owns (owns_sessionDir hm hBelow)) rfl hStep
  next =>
    cases hInsert
    exact .refl h

/-- An entry that was there is put in again: its node is still there. -/
theorem goes_reorderDataCallback (h : st.Kept) (moveToBeforeThis : Str) (p : Path) :
    Goes loud st (reorderDataCallback moveToBeforeThis st p) := by
  unfold reorderDataCallback
  dsimp only
  split
  · exact .refl h
  · obtain ⟨hGoes, hUnlisted⟩ := goes_removeIndexEntry h p.dropLast (p.getLast?.getD []) true
    generalize (st.removeIndexEntry p.dropLast (p.getLast?.getD []) true).1 = t at hGoes hUnlisted ⊢
    split
    next hStatus =>
      have hListed := hUnlisted.listed hStatus
      obtain ⟨hName, hChild⟩ := h.children _ _ hListed
      have hPresent := h.present _ (List.ne_nil_of_mem hListed)
      rw [← hUnlisted.server] at hChild hPresent
      refine (hGoes.of_imp fun _ => rfl).trans
        (goes_insertIndexEntry hGoes.kept ?_ hName hChild hUnlisted.gone hPresent)
      split
      · exact lastIndexOf_getD_le ..
      · exact Nat.le_refl _
    next => exact .refl h

theorem goes_foldl {α : Type} {f : IndexedServer regex Msg → α → IndexedServer regex Msg} {l : List α} (h : st.Kept)
    (hStep : ∀ a ∈ l, ∀ t : IndexedServer regex Msg, t.Kept → Goes loud t (f t a)) : Goes loud st (l.foldl f st) := by
  induction l generalizing st with
  | nil => exact .refl h
  | cons a l ih =>
    have hFirst := hStep a (List.mem_cons_self ..) st h
    exact hFirst.trans (ih hFirst.kept fun b hb => hStep b (List.mem_cons_of_mem _ hb))

theorem goes_reorderData (h : st.Kept) (fields : List (Str × Str)) : Goes loud st (st.reorderData self fields) := by
  unfold reorderData
  split
  · exact goes_foldl h fun field _ _ ht => goes_foldl ht fun p _ _ hu => goes_reorderDataCallback hu field.2 p
  · exact .refl h

theorem goes_push (h : st.Kept) : Goes loud st st.pushSubscriptionMessages := by
  have hServer : Goes loud st { st with server := st.server.pushSubscriptionMessages } :=
    goes_server h (Server.tended_push h.marked)
  refine ⟨⟨hServer.kept.marked, hServer.kept.nodup, hServer.kept.children, hServer.kept.present⟩, hServer.members,
    fun _ id p _ => .of_same ?_ rfl⟩
  unfold told pushSubscriptionMessages
  dsimp only
  rw [List.append_nil]

end IndexedServer

end BeShare.Muscle.Reflect
