import BeShare.Reflect.MirrorCommands
import BeShare.Reflect.Archive
import Mathlib.Data.List.Count

/-!
The quota of nodes: what the commands do to the nodes below the sessions' own nodes, and to the sessions' counts of
them.
-/

namespace BeShare.Muscle.Reflect

variable {regex : Regex} {Msg : Type}

/-- What the quota of a session rests on. -/
structure Tally where
  host : Str
  id : Str
  count : Nat
  max : Nat

def Tally.dir (k : Tally) : Path := [k.host, k.id]

def Member.tally (m : Member regex Msg) : Tally :=
  ⟨m.host, m.session.id, m.currentNodeCount, m.maxNodeCount⟩

/-- The number of nodes strictly below a node. -/
def below (paths : List Path) (dir : Path) : Nat :=
  paths.countP fun q => decide (dir <+: q ∧ dir ≠ q)

namespace Server

variable {srv srv' srv'' : Server regex Msg} {self id : Str} {p q : Path}

def tallies (srv : Server regex Msg) : List Tally :=
  srv.members.map Member.tally

theorem tally_mem {m : Member regex Msg} (h : m ∈ srv.members) : m.tally ∈ srv.tallies :=
  List.mem_map_of_mem h

/-! ### What notices leave alone -/

/-- The same nodes, and the same counts. -/
structure SameTally (srv srv' : Server regex Msg) : Prop where
  paths : srv'.db.paths = srv.db.paths
  tallies : srv'.tallies = srv.tallies

theorem SameTally.refl (srv : Server regex Msg) : SameTally srv srv :=
  ⟨rfl, rfl⟩

theorem SameTally.trans (h : SameTally srv srv') (h' : SameTally srv' srv'') : SameTally srv srv'' :=
  ⟨h'.paths.trans h.paths, h'.tallies.trans h.tallies⟩

theorem id_push (s : Session regex Msg) : s.push.id = s.id := by
  unfold Session.push
  split <;> rfl

theorem sameTally_push (srv : Server regex Msg) : SameTally srv srv.pushSubscriptionMessages := by
  refine ⟨rfl, ?_⟩
  unfold tallies pushSubscriptionMessages
  rw [List.map_map]
  refine List.map_congr_left fun m _ => ?_
  show Tally.mk m.host m.session.push.id m.currentNodeCount m.maxNodeCount = m.tally
  rw [id_push]
  rfl

theorem sameTally_updateMember {f : Member regex Msg → Member regex Msg}
    (hf : ∀ m ∈ srv.members, m.session.id = id → (f m).tally = m.tally) : SameTally srv (srv.updateMember id f) := by
  refine ⟨rfl, ?_⟩
  unfold tallies updateMember
  rw [List.map_map]
  refine List.map_congr_left fun m hm => ?_
  show (if m.session.id = id then f m else m).tally = m.tally
  split
  next h => exact hf m hm h
  next => rfl

/-- The session is another, but has the same ID. -/
theorem sameTally_session {s : Session regex Msg} (hId : s.id = id) :
    SameTally srv (srv.updateMember id fun m => { m with session := s }) := by
  refine sameTally_updateMember fun m _ h => ?_
  show Tally.mk m.host s.id m.currentNodeCount m.maxNodeCount = m.tally
  rw [hId, ← h]
  rfl

theorem sameTally_deliver {change : Session regex Msg → Option (Session regex Msg × Bool)}
    (hChange : ∀ s s' pushed, change s = some (s', pushed) → s'.settings = s.settings)
    (h : srv.deliver id change = some srv') : SameTally srv srv' := by
  unfold deliver at h
  split at h
  next m hm =>
    split at h
    next s pushed hs =>
      have hId : s.id = id := (Session.id_of_settings (hChange _ _ _ hs)).trans (member?_mem hm).2
      have hUpdate := @sameTally_session regex Msg srv id s hId
      cases h
      split
      · exact hUpdate.trans (sameTally_push _)
      · exact hUpdate
    next => cases h
  next =>
    cases h
    exact .refl srv

theorem sameTally_notify {oldData : Option Msg} {isBeingRemoved : Bool}
    (h : srv.notifySubscribersThatNodeChanged self p oldData isBeingRemoved = some srv') : SameTally srv srv' := by
  unfold notifySubscribersThatNodeChanged at h
  refine Lib.foldlM_keeps (P := fun t => SameTally srv t) h (fun next _ t t' ht hStep => ?_) (.refl srv)
  split at hStep
  · exact ht.trans (sameTally_deliver (fun _ _ _ => Session.settings_nodeChanged) hStep)
  · cases hStep
    exact ht

/-! ### Nodes -/

theorem paths_putChild_new {db : Database Msg} {name : Str} {child : DataNode Msg} (hParent : p ∈ db.paths)
    (hNew : p ++ [name] ∉ db.paths) : (db.putChild p name child).paths = db.paths ++ [p ++ [name]] := by
  unfold Database.putChild
  rw [dif_pos hParent, dif_pos hNew]
  unfold Database.append Database.paths
  rw [List.map_append]
  rfl

theorem paths_modify {db : Database Msg} (f : DataNode Msg → DataNode Msg) : (db.modify p f).paths = db.paths := by
  unfold Database.modify Database.paths
  rw [List.map_map]
  refine List.map_congr_left fun entry _ => ?_
  show (if entry.1 = p then (entry.1, f entry.2) else entry).1 = entry.1
  split <;> rfl

theorem tallies_putChild {name : Str} {data : Msg} {notify : Bool} (hParent : p ∈ srv.db.paths)
    (hNew : p ++ [name] ∉ srv.db.paths) (h : srv.putChild self p name data notify = some srv') :
    srv'.db.paths = srv.db.paths ++ [p ++ [name]] ∧ srv'.tallies = srv.tallies := by
  unfold putChild at h
  have hPaths := @paths_putChild_new Msg p srv.db name (srv.newNode (p ++ [name]) data) hParent hNew
  dsimp only at h
  split at h
  · have hSame := sameTally_notify h
    exact ⟨hSame.paths.trans hPaths, hSame.tallies⟩
  · cases h
    exact ⟨hPaths, rfl⟩

theorem mem_paths_putChild {name : Str} {data : Msg} {notify : Bool}
    (h : srv.putChild self p name data notify = some srv') (hq : q ∈ srv'.db.paths) :
    q ∈ srv.db.paths ∨ q = p ++ [name] := by
  have hPut : srv'.db.paths = (srv.db.putChild p name (srv.newNode (p ++ [name]) data)).paths := by
    rw [putChild] at h
    split at h
    · exact (sameTally_notify h).paths
    · cases h
      rfl
  rw [hPut, Database.putChild] at hq
  split at hq
  next hIn =>
    split at hq
    next hNew =>
      rw [Database.append, Database.paths, List.map_append] at hq
      exact (List.mem_append.mp hq).imp_right List.mem_singleton.mp
    next =>
      rw [paths_modify] at hq
      obtain ⟨entry, hEntry, hPath⟩ := List.mem_map.mp hq
      exact .inl (List.mem_map.mpr ⟨entry, List.mem_of_mem_filter hEntry, hPath⟩)
  next => exact .inl hq

theorem tallies_setData {data : Msg} {notify isBeingCreated : Bool}
    (h : srv.setData self p data notify isBeingCreated = some srv') : SameTally srv srv' := by
  unfold setData at h
  have hModified : SameTally srv { srv with db := srv.db.modify p fun n => { n with data := some data } } :=
    ⟨paths_modify _, rfl⟩
  dsimp only at h
  split at h
  · exact hModified.trans (sameTally_notify h)
  · cases h
    exact hModified

theorem paths_dropNode {db : Database Msg} (hLeaf : db.children p = []) :
    (db.dropNode p).paths = db.paths.filter fun q => decide (q ≠ p) := by
  unfold Database.dropNode
  rw [dif_pos hLeaf]
  unfold Database.paths
  rw [List.filter_map]
  rfl

theorem tallies_removeNode {notify : Bool} (hLeaf : srv.db.children p = [])
    (h : removeNode self notify srv p = some srv') :
    srv'.db.paths = srv.db.paths.filter (fun q => decide (q ≠ p)) ∧ srv'.tallies = srv.tallies := by
  unfold removeNode at h
  obtain ⟨t, hNotify, rfl⟩ := Option.map_eq_some_iff.mp h
  have hSame : SameTally srv t := by
    split at hNotify
    · exact sameTally_notify hNotify
    · cases hNotify
      exact .refl srv
  have hLeaf' : t.db.children p = [] := by
    unfold Database.children at hLeaf ⊢
    rw [hSame.paths]
    exact hLeaf
  exact ⟨(paths_dropNode hLeaf').trans (congrArg _ hSame.paths), hSame.tallies⟩

/-! ### The order of removal -/

theorem prefix_of_mem_removalOrder {db : Database Msg} {levels : Nat} (h : q ∈ removalOrder db levels p) : p <+: q := by
  induction levels generalizing p with
  | zero => exact List.mem_singleton.mp h ▸ List.prefix_refl _
  | succ levels ih =>
    rcases List.mem_append.mp h with h | h
    · obtain ⟨name, -, hBelow⟩ := List.mem_flatMap.mp h
      exact (List.prefix_append p [name]).trans (ih hBelow)
    · exact List.mem_singleton.mp h ▸ List.prefix_refl _

/-- No node comes before one that is below it. -/
theorem removalOrder_pairwise (db : Database Msg) (levels : Nat) (p : Path) :
    (removalOrder db levels p).Pairwise fun q q' => ¬q <+: q' := by
  induction levels generalizing p with
  | zero => exact List.pairwise_singleton ..
  | succ levels ih =>
    refine List.pairwise_append.mpr ⟨List.pairwise_flatMap.mpr ⟨fun name _ => ih _, ?_⟩, List.pairwise_singleton .., ?_⟩
    · refine (List.nodup_iff_pairwise_ne.mp (Database.children_nodup p)).imp ?_
      intro name name' hOther q hq q' hq' hPrefix
      have hFirst := (prefix_of_mem_removalOrder hq).trans hPrefix
      have hSecond := prefix_of_mem_removalOrder hq'
      have hEqual := (List.prefix_of_prefix_length_le hFirst hSecond (by simp)).eq_of_length (by simp)
      exact hOther (List.singleton_inj.mp (List.append_cancel_left hEqual))
    · intro q hq q' hq' hPrefix
      obtain ⟨name, -, hBelow⟩ := List.mem_flatMap.mp hq
      rw [List.mem_singleton.mp hq'] at hPrefix
      have hLength := ((prefix_of_mem_removalOrder hBelow).trans hPrefix).length_le
      rw [List.length_append, List.length_singleton] at hLength
      omega

theorem mem_removalOrder {db : Database Msg} {levels : Nat} (hIn : p ∈ db.paths)
    (hDeep : ∀ q ∈ db.paths, p <+: q → q.length ≤ p.length + levels) :
    q ∈ removalOrder db levels p ↔ q ∈ db.paths ∧ p <+: q := by
  induction levels generalizing p with
  | zero =>
    refine List.mem_singleton.trans ⟨fun hHere => ?_, fun ⟨hq, hBelow⟩ => ?_⟩
    · rw [hHere]
      exact ⟨hIn, List.prefix_refl p⟩
    · exact (hBelow.eq_of_length (Nat.le_antisymm hBelow.length_le (hDeep q hq hBelow))).symm
  | succ levels ih =>
    have hChild : ∀ name ∈ db.children p,
        (q ∈ removalOrder db levels (p ++ [name]) ↔ q ∈ db.paths ∧ p ++ [name] <+: q) := by
      intro name hName
      refine ih (Database.mem_children.mp hName) fun q hq hBelow => ?_
      have hLength := hDeep q hq ((List.prefix_append p [name]).trans hBelow)
      rw [List.length_append, List.length_singleton]
      omega
    unfold removalOrder
    rw [List.mem_append, List.mem_flatMap, List.mem_singleton]
    constructor
    · rintro (⟨name, hName, hq⟩ | rfl)
      · obtain ⟨hq, hBelow⟩ := (hChild name hName).mp hq
        exact ⟨hq, (List.prefix_append p [name]).trans hBelow⟩
      · exact ⟨hIn, List.prefix_refl q⟩
    · rintro ⟨hq, rest, rfl⟩
      cases rest with
      | nil => exact .inr (List.append_nil p)
      | cons name rest =>
        have hBelow : p ++ [name] <+: p ++ name :: rest := ⟨rest, by rw [List.append_assoc]; rfl⟩
        have hName : name ∈ db.children p := Database.mem_children.mpr (Database.prefix_mem hBelow hq)
        exact .inl ⟨name, hName, (hChild name hName).mpr ⟨hq, hBelow⟩⟩

theorem mem_subtree {db : Database Msg} (hIn : p ∈ db.paths) : q ∈ subtree db p ↔ q ∈ db.paths ∧ p <+: q := by
  refine mem_removalOrder hIn fun q hq _ => ?_
  have hLength := Database.le_maxLength hq
  omega

/-- As many nodes are removed as there are in the subtree. -/
theorem length_subtree {db : Database Msg} (hIn : p ∈ db.paths) :
    (subtree db p).length = db.paths.countP fun q => decide (p <+: q) := by
  have hNodup : (subtree db p).Nodup := by
    refine List.nodup_iff_pairwise_ne.mpr ((removalOrder_pairwise db _ p).imp ?_)
    rintro q q' hNot rfl
    exact hNot (List.prefix_refl q)
  rw [List.countP_eq_length_filter]
  refine ((List.perm_ext_iff_of_nodup hNodup (List.Nodup.filter _ db.nodup)).mpr fun q => ?_).length_eq
  rw [mem_subtree hIn, List.mem_filter, decide_eq_true_iff]
  rfl

/-- Steps over a subtree that each take away their node when it is a leaf take away the subtree. -/
theorem foldlM_subtree {σ : Type} {view : σ → Database Msg} {P : σ → Prop} {f : σ → Path → Option σ} {s s' : σ}
    (hIn : p ∈ (view s).paths)
    (hStep : ∀ q t t', P t → q ∈ (view t).paths → p <+: q → (view t).children q = [] → f t q = some t' →
      P t' ∧ (view t').paths = (view t).paths.filter fun q' => decide (q' ≠ q))
    (hs : P s) (h : (subtree (view s) p).foldlM f s = some s') :
    P s' ∧ (view s').paths = (view s).paths.filter fun q => decide (¬p <+: q) := by
  have hRun := Lib.foldlM_rest (P := fun rest t => P t ∧ ∃ gone, subtree (view s) p = gone ++ rest ∧
    (view t).paths = (view s).paths.filter fun q => decide (q ∉ gone)) h ?_ ?_
  · obtain ⟨hs', gone, hGone, hPaths⟩ := hRun
    rw [List.append_nil] at hGone
    refine ⟨hs', hPaths.trans (List.filter_congr fun q hq => decide_eq_decide.mpr (not_congr ?_))⟩
    rw [← hGone, mem_subtree hIn, and_iff_right hq]
  · rintro next rest t t' ⟨ht, gone, hGone, hPaths⟩ hNext
    have hThere : next ∈ subtree (view s) p := hGone ▸ List.mem_append_right _ (List.mem_cons_self ..)
    have hPairwise := removalOrder_pairwise (view s) (((view s).paths.map List.length).foldr max 0) p
    rw [show removalOrder (view s) _ p = gone ++ next :: rest from hGone] at hPairwise
    obtain ⟨-, hFromNext, hApart⟩ := List.pairwise_append.mp hPairwise
    have hLeaf : (view t).children next = [] := by
      refine List.eq_nil_iff_forall_not_mem.mpr fun name hName => ?_
      have hChild := Database.mem_children.mp hName
      rw [hPaths, List.mem_filter, decide_eq_true_iff] at hChild
      -- a node below is in the order, and neither later nor the same: it is gone
      have hOrdered : next ++ [name] ∈ gone ++ next :: rest := by
        rw [← hGone]
        exact (mem_subtree hIn).mpr ⟨hChild.1, ((mem_subtree hIn).mp hThere).2.trans (List.prefix_append ..)⟩
      rcases List.mem_append.mp hOrdered with hGoneChild | hRest
      · exact hChild.2 hGoneChild
      · rcases List.mem_cons.mp hRest with hSame | hRest
        · simp at hSame
        · exact (List.pairwise_cons.mp hFromNext).1 _ hRest (List.prefix_append ..)
    have hStill : next ∈ (view t).paths := by
      rw [hPaths, List.mem_filter, decide_eq_true_iff]
      refine ⟨((mem_subtree hIn).mp hThere).1, fun hGoneNext => ?_⟩
      exact hApart next hGoneNext next (List.mem_cons_self ..) (List.prefix_refl _)
    obtain ⟨ht', hPaths'⟩ := hStep next t t' ht hStill ((mem_subtree hIn).mp hThere).2 hLeaf hNext
    refine ⟨ht', gone ++ [next], by rw [hGone, List.append_assoc]; rfl, ?_⟩
    rw [hPaths', hPaths, List.filter_filter]
    refine List.filter_congr fun q _ => ?_
    rw [← Bool.decide_and]
    refine decide_eq_decide.mpr ?_
    rw [List.mem_append, List.mem_singleton, not_or, and_comm]
  · exact ⟨hs, [], rfl, by simp⟩

theorem filter_of_not_mem {db : Database Msg} (hOut : p ∉ db.paths) :
    db.paths = db.paths.filter fun q => decide (¬p <+: q) := by
  refine (List.filter_eq_self.mpr fun q hq => ?_).symm
  exact decide_eq_true_iff.mpr fun hBelow => hOut (Database.prefix_mem hBelow hq)

/-- All that is below goes, and nothing else. -/
theorem tallies_removeChild {notify : Bool} (h : srv.removeChild self p notify = some srv') :
    srv'.db.paths = srv.db.paths.filter (fun q => decide (¬p <+: q)) ∧ srv'.tallies = srv.tallies := by
  unfold removeChild at h
  split at h
  next hIn =>
    refine (@foldlM_subtree Msg p (Server regex Msg) Server.db (fun t => t.tallies = srv.tallies) _ srv srv' hIn
      (fun q t t' ht _ _ hLeaf hStep => ?_) rfl h).symm
    obtain ⟨hPaths, hTallies⟩ := tallies_removeNode hLeaf hStep
    exact ⟨hTallies.trans ht, hPaths⟩
  next hOut =>
    cases h
    exact ⟨filter_of_not_mem hOut, rfl⟩

end Server

end BeShare.Muscle.Reflect
