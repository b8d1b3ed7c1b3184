import BeShare.Reflect.Notices
import BeShare.Reflect.Matching

/-!
The marks of the nodes against the subscriptions of the sessions, in all reachable states of the server.
-/

namespace BeShare.Muscle.Reflect

variable {regex : Regex} {Msg : Type}

open DataNode (countMark)

namespace PathMatcher

variable {m m' : PathMatcher regex Msg} {path : Str} {filter : Option (QueryFilter Msg)}

/-- How often a node is marked for the subscriptions. -/
def markCount (m : PathMatcher regex Msg) (p : Path) : Nat :=
  m.getMatchCount p none 0

theorem matchesNode_single {entry : PathMatcherEntry regex Msg} (h : m.entries = [entry]) (p : Path)
    (data : Option Msg) : m.matchesNode p data 0 = pathMatches p data entry 0 := by
  unfold matchesNode
  rw [h, List.any_cons, List.any_nil, Bool.or_false]

theorem pathMatches_root_iff (entry : PathMatcherEntry regex Msg) (p : Path) (data : Option Msg) :
    pathMatches p data entry 0 = true ↔ matchesFrom 0 entry p ∧ entry.filterMatches data p = true :=
  @pathMatches_iff regex Msg entry [] p data

/-- Without data the filters do not matter. -/
theorem pathMatches_congr (entry entry' : PathMatcherEntry regex Msg) (h : entry'.parser = entry.parser) (p : Path) :
    pathMatches p none entry' 0 = pathMatches p none entry 0 := by
  have hBoth : ∀ e : PathMatcherEntry regex Msg, pathMatches p none e 0 = true ↔ matchesFrom 0 e p := by
    intro e
    have hIff := pathMatches_root_iff e p none
    rw [filterMatches_none] at hIff
    simpa using hIff
  rw [Bool.eq_iff_iff, hBoth, hBoth]
  unfold matchesFrom PathMatcherEntry.matchesAt
  rw [h]

/-- The pattern matches a path: as many clauses as names, and each clause its name. -/
def clausesMatch (entry : PathMatcherEntry regex Msg) (p : Path) : Bool :=
  decide (entry.parser.length = p.length) && (entry.parser.zip p).all fun pair => clauseMatches pair.1 pair.2

/-- `PathMatches` from the root on, without data, is the match of the pattern. -/
theorem pathMatches_eq_clausesMatch (entry : PathMatcherEntry regex Msg) (p : Path) :
    pathMatches p none entry 0 = clausesMatch entry p := by
  have hIff := pathMatches_root_iff entry p none
  rw [filterMatches_none] at hIff
  rw [Bool.eq_iff_iff, hIff]
  unfold matchesFrom clausesMatch
  rw [Bool.and_eq_true, decide_eq_true_eq, List.all_eq_true]
  simp only [and_true, Nat.zero_le, true_implies]
  refine and_congr_right fun _ => ?_
  unfold PathMatcherEntry.matchesAt
  constructor
  · intro h pair hPair
    obtain ⟨clause, name⟩ := pair
    obtain ⟨j, hj⟩ := List.mem_iff_getElem?.mp hPair
    obtain ⟨hClause, hName⟩ := List.getElem?_zip_eq_some.mp hj
    have hMatch := h j name hName
    rw [hClause] at hMatch
    exact hMatch
  · intro h j name hName
    have hj : j < entry.parser.length := by
      have := (List.getElem?_eq_some_iff.mp hName).1
      omega
    rw [List.getElem?_eq_getElem hj]
    refine h (entry.parser[j], name) (List.mem_iff_getElem?.mpr ⟨j, ?_⟩)
    exact List.getElem?_zip_eq_some.mpr ⟨List.getElem?_eq_getElem hj, hName⟩

/-- The table that holds nothing but a path. -/
theorem putPathString_empty {parser : List (Option StringMatcher)} (hParsed : parsePath regex path = some parser) :
    (empty : PathMatcher regex Msg).putPathString path filter =
      some ⟨[⟨path, parser, filter, hParsed⟩], List.nodup_singleton _,
        if filter.isSome then 1 else 0⟩ := by
  unfold putPathString
  split
  · rename_i parser' hParsed'
    obtain rfl : parser' = parser := Option.some.inj (hParsed'.symm.trans hParsed)
    rfl
  · rename_i hNone
    rw [hParsed] at hNone
    cases hNone

/-- A new subscription counts one more on the nodes that its path matches. -/
theorem markCount_putPathString (hNew : m.get path = none) (h : m.putPathString path filter = some m') :
    ∃ temp : PathMatcher regex Msg, empty.putPathString path none = some temp ∧
      ∀ p, m'.markCount p = m.markCount p + if temp.matchesNode p none 0 then 1 else 0 := by
  unfold putPathString at h
  split at h
  · rename_i parser hParsed
    cases h
    refine ⟨_, putPathString_empty hParsed, fun p => ?_⟩
    have hNone : (m.entries.any fun e => e.path == path) = false := by
      rw [List.any_eq_false]
      exact fun e he => List.find?_eq_none.mp hNew e he
    rw [matchesNode_single rfl]
    unfold markCount getMatchCount putEntry
    dsimp only
    rw [if_neg (by simp [hNone]), List.countP_append, List.countP_singleton]
    rw [pathMatches_congr ⟨path, parser, none, hParsed⟩ ⟨path, parser, filter, hParsed⟩ rfl]
  · cases h

/-- A removed subscription counts one less on the nodes that its path matched. -/
theorem markCount_removePathString (h : m.removePathString path = some m') :
    ∃ temp : PathMatcher regex Msg, empty.putPathString path none = some temp ∧
      ∀ p, m.markCount p = m'.markCount p + if temp.matchesNode p none 0 then 1 else 0 := by
  unfold removePathString at h
  split at h
  · rename_i entry hEntry
    cases h
    have hPath : entry.path = path := by simpa using List.find?_some hEntry
    subst hPath
    refine ⟨_, putPathString_empty entry.parsed, fun p => ?_⟩
    rw [matchesNode_single rfl]
    rw [pathMatches_congr entry ⟨entry.path, entry.parser, none, entry.parsed⟩ rfl]
    unfold markCount getMatchCount
    dsimp only
    have hNodup := m.nodup
    have hIn := List.mem_of_find?_eq_some hEntry
    revert hIn hNodup
    generalize m.entries = entries
    intro hNodup hIn
    induction entries with
    | nil => cases hIn
    | cons e rest ih =>
      rw [List.map_cons, List.nodup_cons] at hNodup
      rw [List.filter_cons, List.countP_cons]
      by_cases hSame : e.path = entry.path
      · have hOthers : rest.filter (fun e => !(e.path == entry.path)) = rest := by
          refine List.filter_eq_self.mpr fun e' he' => ?_
          rw [Bool.not_eq_true', beq_eq_false_iff_ne]
          intro hTwice
          exact hNodup.1 (hSame ▸ hTwice ▸ List.mem_map_of_mem he')
        have hHere : e = entry := by
          rcases List.mem_cons.mp hIn with hHere | hLater
          · exact hHere.symm
          · exact absurd (hSame ▸ List.mem_map_of_mem hLater) hNodup.1
        have hDropped : (!(e.path == entry.path)) = false := by simp [hSame]
        rw [hDropped, if_neg Bool.false_ne_true, hOthers, hHere]
      · have hLater : entry ∈ rest := by
          refine (List.mem_cons.mp hIn).resolve_left ?_
          rintro rfl
          exact hSame rfl
        have hKept : (!(e.path == entry.path)) = true := by simpa using hSame
        rw [hKept, if_pos rfl, List.countP_cons, ih hNodup.2 hLater]
        omega
  · cases h

end PathMatcher

namespace Session

variable {s s' : Session regex Msg} {effect : Option (Effect Msg)}

/-- The effect of a change is what the change does to the counts of the marks. -/
def Accounts (s s' : Session regex Msg) (effect : Option (Effect Msg)) : Prop :=
  s'.id = s.id ∧
    match effect with
    | some (.subscribeRef path delta) =>
      ∃ temp : PathMatcher regex Msg, PathMatcher.empty.putPathString path none = some temp ∧
        ∀ p, (s'.subscriptions.markCount p : Int) =
          s.subscriptions.markCount p + if temp.matchesNode p none 0 then delta else 0
    | _ => ∀ p, s'.subscriptions.markCount p = s.subscriptions.markCount p

theorem accounts_subscribeTo (s : Session regex Msg) (path : Str) (filter : Option (QueryFilter Msg)) :
    s.Accounts (s.subscribeTo path filter).1 (s.subscribeTo path filter).2 := by
  unfold subscribeTo
  split
  · split
    · exact ⟨rfl, fun p => rfl⟩
    · exact ⟨rfl, fun p => rfl⟩
  · rename_i hNew
    split
    · rename_i subscriptions hPut
      obtain ⟨temp, hTemp, hCount⟩ := PathMatcher.markCount_putPathString hNew hPut
      refine ⟨rfl, temp, hTemp, fun p => ?_⟩
      show (subscriptions.markCount p : Int) = _
      rw [hCount p]
      split <;> rfl
    · exact ⟨rfl, fun p => rfl⟩

theorem accounts_setParameter (s : Session regex Msg) (f : Field Msg) :
    s.Accounts (s.setParameter f).1 (s.setParameter f).2 := by
  unfold setParameter
  split
  · exact s.accounts_subscribeTo _ f.filter
  · split
    · exact ⟨rfl, fun p => rfl⟩
    · split
      · exact ⟨rfl, fun p => rfl⟩
      · split
        · exact ⟨rfl, fun p => rfl⟩
        · split
          · exact ⟨rfl, fun p => rfl⟩
          · exact ⟨rfl, fun p => rfl⟩

theorem accounts_removeParameter (s : Session regex Msg) (name : Str) :
    s.Accounts (s.removeParameter name).1 (s.removeParameter name).2 := by
  unfold removeParameter
  dsimp only
  split
  · split
    · split
      · rename_i subscriptions hRemove
        obtain ⟨temp, hTemp, hCount⟩ := PathMatcher.markCount_removePathString hRemove
        refine ⟨rfl, temp, hTemp, fun p => ?_⟩
        show (subscriptions.markCount p : Int) = s.subscriptions.markCount p + _
        rw [hCount p]
        split
        · push_cast
          omega
        · simp
      · exact ⟨rfl, fun p => rfl⟩
    · split
      · exact ⟨rfl, fun p => rfl⟩
      · split
        · exact ⟨rfl, fun p => rfl⟩
        · split
          · exact ⟨rfl, fun p => rfl⟩
          · exact ⟨rfl, fun p => rfl⟩
  · exact ⟨rfl, fun p => rfl⟩

end Session

namespace Database

variable {db : Database Msg}

/-- A change of some nodes, each of them once. -/
theorem node?_foldl_modify (f : DataNode Msg → DataNode Msg) {l : List Path} (hNodup : l.Nodup) (q : Path) :
    (l.foldl (fun db p => db.modify p f) db).node? q = if q ∈ l then (db.node? q).map f else db.node? q := by
  induction l generalizing db with
  | nil => rw [if_neg List.not_mem_nil]; rfl
  | cons p l ih =>
    obtain ⟨hNot, hRest⟩ := List.nodup_cons.mp hNodup
    rw [List.foldl_cons, ih hRest, node?_modify]
    by_cases hHere : q = p
    · subst hHere
      rw [if_neg hNot, if_pos rfl, if_pos (List.mem_cons_self ..)]
    · simp only [hHere, if_false, List.mem_cons, false_or]

theorem node?_of_dropNode {p q : Path} {n : DataNode Msg} (h : (db.dropNode p).node? q = some n) :
    db.node? q = some n := by
  by_cases hLeaf : db.children p = []
  · rw [node?_dropNode hLeaf] at h
    split at h
    · cases h
    · exact h
  · unfold dropNode at h
    rwa [dif_neg hLeaf] at h

end Database

namespace Server

variable {srv srv' : Server regex Msg} {self id : Str} {p q : Path} {n : DataNode Msg}

/-- How many of the subscriptions of a session match a node; a session that is not there has none. -/
def matchCount (srv : Server regex Msg) (id : Str) (p : Path) : Nat :=
  match srv.member? id with
  | some m => m.session.subscriptions.markCount p
  | none => 0

/-- Each node has the marks that the subscriptions of the sessions ask for. -/
structure Marked (srv : Server regex Msg) : Prop where
  ids : srv.IdsNodup
  marks : ∀ p n, srv.db.node? p = some n → ∀ id, n.mark id = countMark (srv.matchCount id p)
  nodup : ∀ p n, srv.db.node? p = some n → n.MarksNodup

theorem member?_settings (srv : Server regex Msg) (id : Str) : (srv.member? id).map Member.settings =
    (srv.members.map Member.settings).find? fun k => k.2.1 == id := by
  unfold member?
  rw [List.find?_map]
  rfl

theorem Similar.member? (h : Similar srv srv') (id : Str) :
    (srv'.member? id).map Member.settings = (srv.member? id).map Member.settings := by
  rw [member?_settings, member?_settings, h.members]

theorem matchCount_settings (srv : Server regex Msg) (id : Str) (p : Path) : srv.matchCount id p =
    (((srv.member? id).map Member.settings).map fun k => k.2.2.1.markCount p).getD 0 := by
  unfold matchCount
  cases srv.member? id <;> rfl

theorem Similar.matchCount (h : Similar srv srv') (id : Str) (p : Path) :
    srv'.matchCount id p = srv.matchCount id p := by
  rw [matchCount_settings, matchCount_settings, h.member? id]

theorem Similar.marked (h : Similar srv srv') (hMarked : srv.Marked) : srv'.Marked where
  ids := h.idsNodup hMarked.ids
  marks p n hn id := by
    rw [h.db] at hn
    rw [h.matchCount]
    exact hMarked.marks p n hn id
  nodup p n hn := by
    rw [h.db] at hn
    exact hMarked.nodup p n hn

/-! ### New nodes -/

theorem mark_foldl_members (p : Path) {members : List (Member regex Msg)}
    (hIds : (members.map fun m => m.session.id).Nodup) {n : DataNode Msg}
    (hNone : ∀ m ∈ members, n.mark m.session.id = none) (hNodup : n.MarksNodup) (id : Str) :
    (members.foldl (fun n m =>
        n.incrementSubscriptionRefCount m.session.id (m.session.subscriptions.getMatchCount p none 0)) n).mark id =
      (match members.find? fun m => m.session.id == id with
        | some m => countMark (m.session.subscriptions.markCount p)
        | none => n.mark id) ∧
    (members.foldl (fun n m =>
        n.incrementSubscriptionRefCount m.session.id (m.session.subscriptions.getMatchCount p none 0))
          n).MarksNodup := by
  induction members generalizing n with
  | nil => exact ⟨rfl, hNodup⟩
  | cons m members ih =>
    rw [List.map_cons, List.nodup_cons] at hIds
    have hMark : ∀ other, (n.incrementSubscriptionRefCount m.session.id
        (m.session.subscriptions.getMatchCount p none 0)).mark other =
          if other = m.session.id then countMark (m.session.subscriptions.markCount p) else n.mark other := by
      refine DataNode.mark_increment ((hNone m (List.mem_cons_self ..)).trans (if_pos rfl).symm) ?_
      exact (Int.zero_add _).symm
    rw [List.foldl_cons, List.find?_cons]
    have hRest : ∀ m' ∈ members, (n.incrementSubscriptionRefCount m.session.id
        (m.session.subscriptions.getMatchCount p none 0)).mark m'.session.id = none := by
      intro m' hm'
      have hOther : m'.session.id ≠ m.session.id := fun h => hIds.1 (h ▸ List.mem_map_of_mem hm')
      rw [hMark, if_neg hOther]
      exact hNone m' (List.mem_cons_of_mem _ hm')
    obtain ⟨hAfter, hAfterNodup⟩ := ih hIds.2 hRest (DataNode.marksNodup_increment hNodup ..)
    refine ⟨?_, hAfterNodup⟩
    rw [hAfter]
    by_cases hHere : m.session.id = id
    · subst hHere
      have hNot : (members.find? fun m' => m'.session.id == m.session.id) = none := by
        rw [List.find?_eq_none]
        intro m' hm' hSame
        exact hIds.1 (beq_iff_eq.mp hSame ▸ List.mem_map_of_mem hm')
      rw [hNot, beq_self_eq_true]
      dsimp only
      rw [hMark, if_pos rfl]
    · rw [beq_eq_false_iff_ne.mpr hHere]
      dsimp only
      rw [hMark, if_neg (Ne.symm hHere)]

theorem mark_newNode (hIds : srv.IdsNodup) (p : Path) (data : Msg) (id : Str) :
    (srv.newNode p data).mark id = countMark (srv.matchCount id p) ∧ (srv.newNode p data).MarksNodup := by
  unfold newNode
  obtain ⟨hMark, hNodup⟩ := mark_foldl_members p hIds (n := ⟨some data, []⟩)
    (fun _ _ => rfl) List.nodup_nil id
  refine ⟨hMark.trans ?_, hNodup⟩
  unfold matchCount member?
  split <;> rfl

theorem marked_putChild (hMarked : srv.Marked) {name : Str} {data : Msg} {notify : Bool}
    (h : srv.putChild self p name data notify = some srv') : srv'.Marked := by
  have hNew : ({ srv with db := srv.db.putChild p name (srv.newNode (p ++ [name]) data) } :
      Server regex Msg).Marked := by
    have hNode : ∀ q n, (srv.db.putChild p name (srv.newNode (p ++ [name]) data)).node? q = some n →
        (q = p ++ [name] ∧ n = srv.newNode (p ++ [name]) data) ∨ srv.db.node? q = some n := by
      intro q n hn
      by_cases hParent : p ∈ srv.db.paths
      · rw [Database.node?_putChild _ hParent] at hn
        split at hn
        · cases hn
          exact .inl ⟨‹_›, rfl⟩
        · split at hn
          · cases hn
          · exact .inr hn
      · unfold Database.putChild at hn
        rw [dif_neg hParent] at hn
        exact .inr hn
    refine ⟨hMarked.ids, fun q n hn id => ?_, fun q n hn => ?_⟩
    · rcases hNode q n hn with ⟨rfl, rfl⟩ | hOld
      · exact (mark_newNode hMarked.ids _ data id).1
      · exact hMarked.marks q n hOld id
    · rcases hNode q n hn with ⟨rfl, rfl⟩ | hOld
      · exact (mark_newNode hMarked.ids _ data []).2
      · exact hMarked.nodup q n hOld
  unfold putChild at h
  dsimp only at h
  split at h
  · exact (similar_notify hNew.ids h).marked hNew
  · cases h
    exact hNew

theorem marked_setData (hMarked : srv.Marked) {data : Msg} {notify isBeingCreated : Bool}
    (h : srv.setData self p data notify isBeingCreated = some srv') : srv'.Marked := by
  have hNew : ({ srv with db := srv.db.modify p fun n => { n with data := some data } } :
      Server regex Msg).Marked := by
    have hNode : ∀ q n, (srv.db.modify p fun n => { n with data := some data }).node? q = some n →
        ∃ old, srv.db.node? q = some old ∧ n.subscribers = old.subscribers := by
      intro q n hn
      rw [Database.node?_modify] at hn
      split at hn
      · rename_i hHere
        obtain ⟨old, hOld, rfl⟩ := Option.map_eq_some_iff.mp hn
        exact ⟨old, hHere ▸ hOld, rfl⟩
      · exact ⟨n, hn, rfl⟩
    refine ⟨hMarked.ids, fun q n hn id => ?_, fun q n hn => ?_⟩
    · obtain ⟨old, hOld, hSame⟩ := hNode q n hn
      rw [DataNode.mark, hSame]
      exact hMarked.marks q old hOld id
    · obtain ⟨old, hOld, hSame⟩ := hNode q n hn
      rw [DataNode.MarksNodup, hSame]
      exact hMarked.nodup q old hOld
  unfold setData at h
  dsimp only at h
  split at h
  · exact (similar_notify hNew.ids h).marked hNew
  · cases h
    exact hNew

/-! ### Removed nodes -/

theorem marked_removeNode (hMarked : srv.Marked) {notify : Bool} (h : removeNode self notify srv p = some srv') :
    srv'.Marked := by
  unfold removeNode at h
  obtain ⟨t, hNotify, hDrop⟩ := Option.map_eq_some_iff.mp h
  have ht : t.Marked := by
    split at hNotify
    · exact (similar_notify hMarked.ids hNotify).marked hMarked
    · cases hNotify
      exact hMarked
  cases hDrop
  exact ⟨ht.ids, fun q n hn => ht.marks q n (Database.node?_of_dropNode hn),
    fun q n hn => ht.nodup q n (Database.node?_of_dropNode hn)⟩

theorem marked_removeChild (hMarked : srv.Marked) {notify : Bool} (h : srv.removeChild self p notify = some srv') :
    srv'.Marked := by
  unfold removeChild at h
  split at h
  · exact Lib.foldlM_keeps h (fun q _ t t' ht hStep => marked_removeNode ht hStep) hMarked
  · cases h
    exact hMarked

end Server

end BeShare.Muscle.Reflect
