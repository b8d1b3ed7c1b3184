import BeShare.System.DrainTags

/-!
Runs of the internal thread. A tag is there exactly as long as there is a reference to it, so a request has its reply as
soon as the last session has released it.
-/

namespace BeShare.Muscle.System

namespace Transceiver

variable {S Req MessageRef : Type} [DecidableEq S] [DecidableEq Req] [Fintype S]
  {t t' : Transceiver S Req MessageRef} {r q : Req} {s : S}

/-- What holds of every request, but for a tag that may have lost its last reference. -/
structure Kept (t : Transceiver S Req MessageRef) (r : Req) : Prop where
  alive : t.Held r → t.tags r ≠ none
  tag : ∀ tag, t.tags r = some tag → tag.notify = t.processed r ∧ t.asked r = some tag.reply
  table : t.drainTags r = true ↔ t.processed r = true ∧ t.tags r ≠ none
  replies : ∃ ref, (t.asked r = none ∨ t.asked r = some ref) ∧ t.toOwner.filter (fun reply => reply.1 = r) =
    if t.processed r = true ∧ t.tags r = none then [(r, ref)] else []
  owed : ∀ s, t.owed r s = true → r ∈ (t.sessions s).drainedNotifiers
  asked : t.asked r = none → t.tags r = none ∧ t.processed r = false
  queued : .notifyOnOutputDrain r ∈ t.queue → t.processed r = false
  once : t.queue.count (.notifyOnOutputDrain r) ≤ 1
  fromOwner : t.msgFromOwner = some (.notifyOnOutputDrain r) → t.processed r = true
  notified : ∀ s, r ∈ (t.sessions s).drainedNotifiers → t.processed r = true

/-- There is no tag without a reference to it. -/
def Clean (t : Transceiver S Req MessageRef) (r : Req) : Prop :=
  t.tags r ≠ none → t.Held r

omit [DecidableEq S] in
omit [Fintype S] in
theorem held_deleteTag : (t.deleteTag q).Held r ↔ t.Held r := by
  unfold deleteTag
  split
  · rfl
  · dsimp only
    split <;> rfl

omit [DecidableEq S] in
omit [Fintype S] in
theorem kept_deleteTag (hKept : ∀ r, t.Kept r) (hFree : ¬t.Held q) (r : Req) : (t.deleteTag q).Kept r := by
  obtain ⟨hAlive, hTag, hTable, ⟨ref, hAsk, hReplies⟩, hOwed, hAsked, hQueued, hOnce, hFrom, hNotified⟩ := hKept r
  cases hGone : t.tags q with
  | none =>
    have hSame : t.deleteTag q = t := by
      unfold deleteTag
      rw [hGone]
    rw [hSame]
    exact hKept r
  | some tag =>
    have hTagQ := (hKept q).tag tag hGone
    have hTableQ := (hKept q).table
    unfold deleteTag
    rw [hGone]
    dsimp only
    by_cases hSend : tag.notify = true ∧ t.drainTags q = true
    · rw [if_pos hSend]
      have hDone : t.processed q = true := hTagQ.1.symm.trans hSend.1
      by_cases hq : r = q
      · subst hq
        refine ⟨fun hHeld => absurd hHeld hFree, fun tag' hNo => ?_, ?_, ⟨tag.reply, .inr hTagQ.2, ?_⟩, hOwed,
          fun hNo => ?_, hQueued, hOnce, hFrom, hNotified⟩
        · exact absurd ((Function.update_self ..).symm.trans hNo) nofun
        · simp
        · rw [List.filter_append, hReplies, hGone, if_neg (fun hNo => absurd hNo.2 nofun)]
          simp [hDone]
        · rw [hTagQ.2] at hNo
          cases hNo
      · refine ⟨?_, ?_, ?_, ⟨ref, hAsk, ?_⟩, hOwed, ?_, hQueued, hOnce, hFrom, hNotified⟩
        · intro hHeld hNo
          exact hAlive hHeld ((Function.update_of_ne hq ..).symm.trans hNo)
        · simpa [Function.update_of_ne hq] using hTag
        · simpa [Function.update_of_ne hq] using hTable
        · have hOther : ¬q = r := fun hNo => hq hNo.symm
          simpa [Function.update_of_ne hq, List.filter_append, hOther] using hReplies
        · simpa [Function.update_of_ne hq] using hAsked
    · rw [if_neg hSend]
      have hNotDone : t.processed q = false := by
        by_contra hDone
        rw [Bool.not_eq_false] at hDone
        exact hSend ⟨hTagQ.1.trans hDone, hTableQ.mpr ⟨hDone, by rw [hGone]; exact nofun⟩⟩
      by_cases hq : r = q
      · subst hq
        refine ⟨fun hHeld => absurd hHeld hFree, fun tag' hNo => ?_, ?_, ⟨ref, hAsk, ?_⟩, hOwed, fun _ => ?_, hQueued,
          hOnce, hFrom, hNotified⟩
        · exact absurd ((Function.update_self ..).symm.trans hNo) nofun
        · rw [hTable]
          simp [hNotDone]
        · rw [hReplies]
          simp [hNotDone]
        · exact ⟨Function.update_self .., hNotDone⟩
      · refine ⟨?_, ?_, ?_, ⟨ref, hAsk, ?_⟩, hOwed, ?_, hQueued, hOnce, hFrom, hNotified⟩
        · intro hHeld hNo
          exact hAlive hHeld ((Function.update_of_ne hq ..).symm.trans hNo)
        · simpa [Function.update_of_ne hq] using hTag
        · simpa [Function.update_of_ne hq] using hTable
        · simpa [Function.update_of_ne hq] using hReplies
        · simpa [Function.update_of_ne hq] using hAsked

omit [DecidableEq S] in
omit [Fintype S] in
theorem tags_deleteTag : (t.deleteTag q).tags = Function.update t.tags q none := by
  unfold deleteTag
  split
  next hGone =>
    rw [← hGone, Function.update_eq_self]
  next tag hGone =>
    dsimp only
    split <;> rfl

omit [DecidableEq S] in
/-- A reference is gone: what was clean is clean, and so is its tag. -/
theorem release_spec {P : Req → Prop} (hKept : ∀ r, t.Kept r) (hClean : ∀ r, P r → r ≠ q → t.Clean r) :
    (∀ r, (t.release q).Kept r) ∧ ∀ r, P r → (t.release q).Clean r := by
  unfold release
  by_cases hHeld : t.Held q
  · rw [if_pos hHeld]
    refine ⟨hKept, fun r hr hTag => ?_⟩
    by_cases hq : r = q
    · rw [hq]
      exact hHeld
    · exact hClean r hr hq hTag
  · rw [if_neg hHeld]
    refine ⟨kept_deleteTag hKept hHeld, fun r hr hTag => ?_⟩
    rw [held_deleteTag]
    rw [tags_deleteTag] at hTag
    by_cases hq : r = q
    · rw [hq, Function.update_self] at hTag
      exact absurd rfl hTag
    · rw [Function.update_of_ne hq] at hTag
      exact hClean r hr hq hTag

omit [DecidableEq S] in
theorem releaseAll_spec (gone : List Req) (hKept : ∀ r, t.Kept r) (hClean : ∀ r, r ∉ gone → t.Clean r) :
    (∀ r, (gone.foldl release t).Kept r) ∧ ∀ r, (gone.foldl release t).Clean r := by
  induction gone generalizing t with
  | nil => exact ⟨hKept, fun r => hClean r List.not_mem_nil⟩
  | cons q gone ih =>
    have hFirst : (∀ r, (t.release q).Kept r) ∧ ∀ r, r ∉ gone → (t.release q).Clean r :=
      release_spec hKept fun r hr hq => hClean r fun hMem => (List.mem_cons.mp hMem).elim hq hr
    exact ih hFirst.1 hFirst.2

/-! ### Changes that add no reference -/

/-- No reference was added, and nothing was said to the owner. -/
structure Fewer (t t' : Transceiver S Req MessageRef) : Prop where
  tags : t'.tags = t.tags
  drainTags : t'.drainTags = t.drainTags
  toOwner : t'.toOwner = t.toOwner
  asked : t'.asked = t.asked
  processed : t'.processed = t.processed
  calling : ∀ r, t'.calling r = true → t.calling r = true
  queue : ∀ r, t'.queue.count (.notifyOnOutputDrain r) ≤ t.queue.count (.notifyOnOutputDrain r)
  fromOwner : ∀ r, t'.msgFromOwner = some (.notifyOnOutputDrain r) → t.msgFromOwner = some (.notifyOnOutputDrain r)
  notifiers : ∀ s, ∀ r ∈ (t'.sessions s).drainedNotifiers, r ∈ (t.sessions s).drainedNotifiers
  owed : ∀ r s, t'.owed r s = true → r ∈ (t'.sessions s).drainedNotifiers

omit [DecidableEq S] [Fintype S] in
theorem Fewer.queued (h : Fewer t t') (hMem : .notifyOnOutputDrain r ∈ t'.queue) :
    .notifyOnOutputDrain r ∈ t.queue :=
  List.count_pos_iff.mp (Nat.lt_of_lt_of_le (List.count_pos_iff.mpr hMem) (h.queue r))

omit [DecidableEq S] [Fintype S] in
theorem Fewer.held (h : Fewer t t') (hHeld : t'.Held r) : t.Held r := by
  rcases hHeld with hCalling | hQueue | hFrom | ⟨s, hMem⟩
  · exact .inl (h.calling r hCalling)
  · exact .inr (.inl (h.queued hQueue))
  · exact .inr (.inr (.inl (h.fromOwner r hFrom)))
  · exact .inr (.inr (.inr ⟨s, h.notifiers s r hMem⟩))

omit [DecidableEq S] [Fintype S] in
theorem Fewer.kept (h : Fewer t t') (hKept : t.Kept r) : t'.Kept r := by
  obtain ⟨hAlive, hTag, hTable, hReplies, -, hAsked, hQueued, hOnce, hFrom, hNotified⟩ := hKept
  refine ⟨fun hHeld => ?_, ?_, ?_, ?_, h.owed r, ?_, fun hMem => ?_, Nat.le_trans (h.queue r) hOnce, fun hHand => ?_,
    fun s hMem => ?_⟩
  · rw [h.tags]
    exact hAlive (h.held hHeld)
  · rw [h.tags, h.processed, h.asked]
    exact hTag
  · rw [h.drainTags, h.processed, h.tags]
    exact hTable
  · rw [h.asked, h.toOwner, h.processed, h.tags]
    exact hReplies
  · rw [h.asked, h.tags, h.processed]
    exact hAsked
  · rw [h.processed]
    exact hQueued (h.queued hMem)
  · rw [h.processed]
    exact hFrom (h.fromOwner r hHand)
  · rw [h.processed]
    exact hNotified s (h.notifiers s r hMem)

omit [DecidableEq S] [DecidableEq Req] [Fintype S] in
theorem clean_of_held (hTags : t'.tags r = t.tags r) (hHeld : t.Held r → t'.Held r) (hClean : t.Clean r) :
    t'.Clean r := by
  intro hTag
  rw [hTags] at hTag
  exact hHeld (hClean hTag)

/-- All that holds between two events. -/
def Good (t : Transceiver S Req MessageRef) : Prop :=
  ∀ r, t.Kept r ∧ t.Clean r

omit [DecidableEq S] [Fintype S] in
theorem Good.kept (h : t.Good) (r : Req) : t.Kept r := (h r).1

omit [DecidableEq S] [Fintype S] in
theorem good_of (h : (∀ r, t.Kept r) ∧ ∀ r, t.Clean r) : t.Good :=
  fun r => ⟨h.1 r, h.2 r⟩

omit [DecidableEq S] [Fintype S] in
/-- A change that takes no reference away either. -/
theorem Good.of_same (h : t.Good) (hFewer : Fewer t t') (hHeld : ∀ r, t.Held r → t'.Held r) : t'.Good :=
  fun r => ⟨hFewer.kept (h r).1, clean_of_held (by rw [hFewer.tags]) (hHeld r) (h r).2⟩

/-! ### Sessions -/

omit [DecidableEq Req] [Fintype S] in
theorem notifiers_setSession (t : Transceiver S Req MessageRef) (s s' : S) (session : WorkerSession Req) :
    ((t.setSession s session).sessions s').drainedNotifiers =
      if s' = s then session.drainedNotifiers else (t.sessions s').drainedNotifiers := by
  change (Function.update t.sessions s session s').drainedNotifiers = _
  by_cases hs : s' = s
  · rw [hs, if_pos rfl, Function.update_self]
  · rw [if_neg hs, Function.update_of_ne hs]

omit [Fintype S] in
/-- The session keeps its notifiers. Others may have been forgiven. -/
theorem Good.setSession (h : t.Good) (s : S) (session : WorkerSession Req) {owed : Req → S → Bool}
    (hSame : session.drainedNotifiers = (t.sessions s).drainedNotifiers)
    (hOwed : ∀ r s', owed r s' = true → t.owed r s' = true) : ({ t.setSession s session with owed := owed }).Good := by
  have hNotifiers : ∀ s',
      ((t.setSession s session).sessions s').drainedNotifiers = (t.sessions s').drainedNotifiers := by
    intro s'
    rw [notifiers_setSession]
    split
    next hs => rw [hs, hSame]
    next => rfl
  refine h.of_same ⟨rfl, rfl, rfl, rfl, rfl, fun _ hr => hr, fun _ => Nat.le_refl _, fun _ hr => hr,
    fun s' r hr => ?_, fun r s' hr => ?_⟩ fun r hHeld => ?_
  · rwa [← hNotifiers s']
  · rw [hNotifiers s']
    exact (h.kept r).owed s' (hOwed r s' hr)
  · refine hHeld.imp_right (Or.imp_right (Or.imp_right fun ⟨s', hr⟩ => ⟨s', ?_⟩))
    rwa [hNotifiers s']

/-- Nothing is owed by the session any more, and it lets go of its notifiers. -/
theorem Good.clearNotifiers (h : t.Good) (s : S) (gateway : Option Bool) :
    (((t.setSession s { t.sessions s with gateway }).forgive s).clearNotifiers s).Good := by
  have hFewer : Fewer t (((t.setSession s { t.sessions s with gateway }).forgive s).setSession s
      { (((t.setSession s { t.sessions s with gateway }).forgive s).sessions s) with drainedNotifiers := [] }) := by
    refine ⟨rfl, rfl, rfl, rfl, rfl, fun _ hr => hr, fun _ => Nat.le_refl _, fun _ hr => hr, fun s' r hr => ?_,
      fun r s' hr => ?_⟩
    · rw [notifiers_setSession] at hr
      split at hr
      · cases hr
      · next hs =>
        change r ∈ ((t.setSession s { t.sessions s with gateway }).sessions s').drainedNotifiers at hr
        rw [notifiers_setSession, if_neg hs] at hr
        exact hr
    · change (if s' = s then false else t.owed r s') = true at hr
      split at hr
      · cases hr
      · next hs =>
        rw [notifiers_setSession, if_neg hs]
        change r ∈ ((t.setSession s { t.sessions s with gateway }).sessions s').drainedNotifiers
        rw [notifiers_setSession, if_neg hs]
        exact (h.kept r).owed s' hr
  unfold Transceiver.clearNotifiers
  refine good_of (releaseAll_spec _ (fun r => hFewer.kept (h.kept r)) fun r hr => ?_)
  refine clean_of_held (by rw [hFewer.tags]) (fun hHeld => ?_) (h r).2
  rw [List.mem_reverse] at hr
  refine hHeld.imp_right (Or.imp_right (Or.imp_right fun ⟨s', hMem⟩ => ⟨s', ?_⟩))
  have hOther : s' ≠ s := by
    rintro rfl
    refine hr ?_
    change r ∈ ((t.setSession s' { t.sessions s' with gateway }).sessions s').drainedNotifiers
    rw [notifiers_setSession, if_pos rfl]
    exact hMem
  rw [notifiers_setSession, if_neg hOther]
  change r ∈ ((t.setSession s { t.sessions s with gateway }).sessions s').drainedNotifiers
  rw [notifiers_setSession, if_neg hOther]
  exact hMem

omit [DecidableEq Req] [Fintype S] in
theorem setSession_self (t : Transceiver S Req MessageRef) (s : S) :
    t.setSession s { t.sessions s with gateway := (t.sessions s).gateway } = t := by
  change { t with sessions := Function.update t.sessions s (t.sessions s) } = t
  rw [Function.update_eq_self]

/-- A disconnected session, or one that is about to be detached. -/
theorem Good.clearNotifiers_forgive (h : t.Good) (s : S) : ((t.forgive s).clearNotifiers s).Good := by
  have hCleared := h.clearNotifiers s (t.sessions s).gateway
  rwa [setSession_self] at hCleared

/-! ### Commands -/

omit [DecidableEq S] in
/-- The caller returns. It had a reference of its own. -/
theorem Good.returns (h : t.Good) (r : Req) :
    ({ t with calling := Function.update t.calling r false }.release r).Good := by
  refine good_of ?_
  have hFewer : Fewer t { t with calling := Function.update t.calling r false } := by
    refine ⟨rfl, rfl, rfl, rfl, rfl, fun q hCalling => ?_, fun _ => Nat.le_refl _, fun _ hq => hq, fun _ _ hq => hq,
      fun q => (h.kept q).owed⟩
    by_cases hq : q = r
    · subst hq
      exact absurd ((Function.update_self ..).symm.trans hCalling) nofun
    · exact (Function.update_of_ne hq ..).symm.trans hCalling
  have hSpec := release_spec (P := fun _ => True) (q := r) (fun q => hFewer.kept (h.kept q)) fun q _ hq => ?_
  · exact ⟨hSpec.1, fun q => hSpec.2 q trivial⟩
  · refine clean_of_held (t := t) rfl (fun hHeld => ?_) (h q).2
    exact hHeld.imp_left fun hCalling => (Function.update_of_ne hq ..).trans hCalling

omit [DecidableEq S] in
theorem Good.dropFromOwner (h : t.Good) : t.dropFromOwner.Good := by
  have hFewer : Fewer t { t with msgFromOwner := none } :=
    ⟨rfl, rfl, rfl, rfl, rfl, fun _ hq => hq, fun _ => Nat.le_refl _, nofun, fun _ _ hq => hq,
      fun q => (h.kept q).owed⟩
  unfold Transceiver.dropFromOwner
  split
  next r hFrom =>
    refine good_of ?_
    have hSpec := release_spec (P := fun _ => True) (q := r) (fun q => hFewer.kept (h.kept q)) fun q _ hq => ?_
    · exact ⟨hSpec.1, fun q => hSpec.2 q trivial⟩
    · refine clean_of_held (t := t) rfl (fun hHeld => ?_) (h q).2
      refine hHeld.imp_right (Or.imp_right (Or.imp_left fun hNo => ?_))
      rw [hFrom] at hNo
      cases hNo
      exact absurd rfl hq
  next hOther =>
    refine h.of_same hFewer fun q hHeld => ?_
    exact hHeld.imp_right (Or.imp_right (Or.imp_left fun hNo => absurd hNo (hOther q)))

omit [DecidableEq S] [Fintype S] in
theorem queue_deleteTag : (t.deleteTag q).queue = t.queue := by
  unfold deleteTag
  split
  · rfl
  · dsimp only
    split <;> rfl

omit [DecidableEq S] [Fintype S] in
theorem msgFromOwner_deleteTag : (t.deleteTag q).msgFromOwner = t.msgFromOwner := by
  unfold deleteTag
  split
  · rfl
  · dsimp only
    split <;> rfl

omit [DecidableEq S] in
theorem dropFromOwner_eq (t : Transceiver S Req MessageRef) :
    t.dropFromOwner.queue = t.queue ∧ t.dropFromOwner.msgFromOwner = none := by
  unfold Transceiver.dropFromOwner
  split
  next r _ =>
    unfold release
    split
    · exact ⟨rfl, rfl⟩
    · exact ⟨queue_deleteTag, msgFromOwner_deleteTag⟩
  next => exact ⟨rfl, rfl⟩

omit [DecidableEq S] [Fintype S] in
/-- A new request has a tag of its own. -/
theorem Good.request (h : t.Good) (r : Req) (notifyRef : Option MessageRef) (hNew : t.asked r = none) :
    ({ t with
        tags := Function.update t.tags r (some ⟨false, notifyRef⟩)
        calling := Function.update t.calling r true
        queue := t.queue ++ [.notifyOnOutputDrain r]
        asked := Function.update t.asked r (some notifyRef) } : Transceiver S Req MessageRef).Good := by
  intro q
  obtain ⟨hAlive, hTag, hTable, ⟨ref, hAsk, hReplies⟩, hOwed, hAsked, hQueued, hOnce, hFrom, hNotified⟩ := h.kept q
  by_cases hq : q = r
  · subst hq
    obtain ⟨hNone, hNotDone⟩ := hAsked hNew
    have hFree : ¬t.Held q := fun hHeld => hAlive hHeld hNone
    have hOut : .notifyOnOutputDrain q ∉ t.queue := fun hMem => hFree (.inr (.inl hMem))
    refine ⟨⟨fun _ => ?_, fun tag hSome => ?_, ?_, ⟨notifyRef, .inr (Function.update_self ..), ?_⟩, hOwed,
      fun hNo => ?_,
      fun _ => hNotDone, ?_, hFrom, hNotified⟩, fun _ => .inl (Function.update_self ..)⟩
    · simp
    · cases (Function.update_self ..).symm.trans hSome
      exact ⟨hNotDone.symm, Function.update_self ..⟩
    · rw [hTable]
      simp [hNotDone]
    · rw [hReplies]
      simp [hNotDone]
    · exact absurd ((Function.update_self ..).symm.trans hNo) nofun
    · rw [List.count_append, List.count_eq_zero.mpr hOut]
      simp
  · have hIn : .notifyOnOutputDrain q ∈ t.queue ++ [.notifyOnOutputDrain r] ↔ .notifyOnOutputDrain q ∈ t.queue := by
      simp [hq]
    have hHeld : Held ({ t with
        tags := Function.update t.tags r (some ⟨false, notifyRef⟩)
        calling := Function.update t.calling r true
        queue := t.queue ++ [.notifyOnOutputDrain r]
        asked := Function.update t.asked r (some notifyRef) } : Transceiver S Req MessageRef) q ↔ t.Held q := by
      unfold Held
      dsimp only
      rw [Function.update_of_ne hq, hIn]
    have hTags : Function.update t.tags r (some ⟨false, notifyRef⟩) q = t.tags q := Function.update_of_ne hq ..
    have hAsks : Function.update t.asked r (some notifyRef) q = t.asked q := Function.update_of_ne hq ..
    refine ⟨⟨fun hNow => ?_, ?_, ?_, ⟨ref, ?_, ?_⟩, hOwed, ?_, fun hMem => hQueued (hIn.mp hMem), ?_, hFrom, hNotified⟩,
      clean_of_held hTags hHeld.mpr (h q).2⟩
    · exact fun hNo => hAlive (hHeld.mp hNow) (hTags.symm.trans hNo)
    · simpa only [hTags, hAsks] using hTag
    · simpa only [hTags] using hTable
    · simpa only [hAsks] using hAsk
    · simpa only [hTags] using hReplies
    · simpa only [hTags, hAsks] using hAsked
    · have hOther : ¬r = q := fun hNo => hq hNo.symm
      simpa [List.count_cons, hOther] using hOnce

omit [DecidableEq S] [Fintype S] in
/-- A command that is not a request. -/
theorem Good.command (h : t.Good) {c : Command Req} (hOther : ∀ r, c ≠ .notifyOnOutputDrain r) :
    ({ t with queue := t.queue ++ [c] } : Transceiver S Req MessageRef).Good := by
  refine h.of_same ⟨rfl, rfl, rfl, rfl, rfl, fun _ hq => hq, fun q => ?_, fun _ hq => hq, fun _ _ hq => hq,
    fun q => (h.kept q).owed⟩ fun q hHeld => ?_
  · rw [List.count_append, List.count_singleton, if_neg fun hNo => hOther q (eq_of_beq hNo)]
    exact Nat.le_refl _
  · exact hHeld.imp_right (Or.imp_left (List.mem_append_left _))

omit [DecidableEq S] [Fintype S] in
/-- The next command, if it is not a request. -/
theorem Good.other (h : t.Good) {c : Command Req} {queue : List (Command Req)} (hQueue : t.queue = c :: queue)
    (hFrom : t.msgFromOwner = none) (hOther : ∀ r, c ≠ .notifyOnOutputDrain r) :
    ({ t with queue := queue, msgFromOwner := some c } : Transceiver S Req MessageRef).Good := by
  refine h.of_same ⟨rfl, rfl, rfl, rfl, rfl, fun _ hq => hq, fun q => ?_, fun q hNo => ?_, fun _ _ hq => hq,
    fun q => (h.kept q).owed⟩ fun q hHeld => ?_
  · rw [hQueue]
    exact List.count_le_count_cons
  · cases hNo
    exact absurd rfl (hOther q)
  · rcases hHeld with hCalling | hMem | hHand | hSession
    · exact .inl hCalling
    · rw [hQueue] at hMem
      exact .inr (.inl ((List.mem_cons.mp hMem).resolve_left fun hNo => hOther q hNo.symm))
    · rw [hFrom] at hHand
      cases hHand
    · exact .inr (.inr (.inr hSession))

omit [DecidableEq S] [Fintype S] in
/-- The next command is a request. It has its tag, and was not processed before. -/
theorem Good.notify (h : t.Good) {queue : List (Command Req)} (hQueue : t.queue = .notifyOnOutputDrain r :: queue)
    (hFrom : t.msgFromOwner = none) : ∃ tag, t.tags r = some tag ∧ t.processed r = false ∧
      (({ t with queue := queue, msgFromOwner := some (.notifyOnOutputDrain r) } :
        Transceiver S Req MessageRef).notify r tag).Good := by
  have hHead : .notifyOnOutputDrain r ∈ t.queue := by
    rw [hQueue]
    exact List.mem_cons_self
  have hNotDone : t.processed r = false := (h.kept r).queued hHead
  obtain ⟨tag, hSome⟩ := Option.ne_none_iff_exists'.mp ((h.kept r).alive (.inr (.inl hHead)))
  refine ⟨tag, hSome, hNotDone, fun q => ?_⟩
  obtain ⟨hAlive, hTag, hTable, ⟨ref, hAsk, hReplies⟩, hOwed, hAsked, hQueued, hOnce, hHand, hNotified⟩ := h.kept q
  by_cases hq : q = r
  · subst hq
    have hGone : .notifyOnOutputDrain q ∉ queue := by
      rw [hQueue, List.count_cons_self] at hOnce
      exact List.count_eq_zero.mp (Nat.le_zero.mp (Nat.le_of_succ_le_succ hOnce))
    have hDone : Function.update t.processed q true q = true := Function.update_self ..
    have hNow : Function.update t.tags q (some { tag with notify := true }) q = some { tag with notify := true } :=
      Function.update_self ..
    refine ⟨⟨fun _ hNo => ?_, fun tag' hTag' => ?_, ?_, ⟨ref, hAsk, ?_⟩, hOwed, fun hNo => ?_, fun hMem => ?_, ?_,
      fun _ => hDone, fun _ _ => hDone⟩, fun _ => .inr (.inr (.inl rfl))⟩
    · exact absurd (hNow.symm.trans hNo) nofun
    · cases hNow.symm.trans hTag'
      exact ⟨hDone.symm, (hTag tag hSome).2⟩
    · exact ⟨fun _ => ⟨hDone, fun hNo => absurd (hNow.symm.trans hNo) nofun⟩, fun _ => Function.update_self ..⟩
    · have hOpen : Function.update t.tags q (some { tag with notify := true }) q ≠ none := by
        rw [hNow]
        exact nofun
      rw [hNotDone, if_neg fun hNo => Bool.false_ne_true hNo.1] at hReplies
      exact hReplies.trans (if_neg fun hNo => hOpen hNo.2).symm
    · exact absurd ((hTag tag hSome).2.symm.trans hNo) nofun
    · exact absurd hMem hGone
    · exact Nat.le_trans (Nat.le_of_eq (List.count_eq_zero.mpr hGone)) (Nat.zero_le 1)
  · have hTags : Function.update t.tags r (some { tag with notify := true }) q = t.tags q := Function.update_of_ne hq ..
    have hDone : Function.update t.processed r true q = t.processed q := Function.update_of_ne hq ..
    have hTables : Function.update t.drainTags r true q = t.drainTags q := Function.update_of_ne hq ..
    have hOther : Command.notifyOnOutputDrain q ≠ .notifyOnOutputDrain r :=
      fun hNo => hq (Command.notifyOnOutputDrain.inj hNo)
    have hIn : .notifyOnOutputDrain q ∈ queue ↔ .notifyOnOutputDrain q ∈ t.queue := by
      rw [hQueue, List.mem_cons]
      exact ⟨.inr, fun hMem => hMem.resolve_left hOther⟩
    have hHeld : (({ t with queue := queue, msgFromOwner := some (.notifyOnOutputDrain r) } :
        Transceiver S Req MessageRef).notify r tag).Held q ↔ t.Held q := by
      refine or_congr Iff.rfl (or_congr hIn (or_congr ⟨fun hNo => ?_, fun hNo => ?_⟩ Iff.rfl))
      · cases hNo
        exact absurd rfl hq
      · rw [hFrom] at hNo
        cases hNo
    refine ⟨⟨fun hNow hNo => hAlive (hHeld.mp hNow) (hTags.symm.trans hNo), ?_, ?_, ⟨ref, hAsk, ?_⟩, hOwed, ?_,
      fun hMem => hDone.trans (hQueued (hIn.mp hMem)), ?_, fun hNo => ?_, fun s hMem => hDone.trans (hNotified s hMem)⟩,
      clean_of_held hTags hHeld.mpr (h q).2⟩
    · unfold Transceiver.notify
      simpa only [hTags, hDone] using hTag
    · unfold Transceiver.notify
      simpa only [hTags, hDone, hTables] using hTable
    · unfold Transceiver.notify
      simpa only [hTags, hDone] using hReplies
    · unfold Transceiver.notify
      simpa only [hTags, hDone] using hAsked
    · rw [hQueue] at hOnce
      exact Nat.le_trans List.count_le_count_cons hOnce
    · cases hNo
      exact absurd rfl hq

/-! ### Sending a command around -/

/-- One session gets the command. -/
theorem Good.sendOne (h : t.Good) {c : Command Req} (s : S) (hFrom : t.msgFromOwner = some c)
    (hDone : ∀ r, c = .notifyOnOutputDrain r → t.processed r = true) :
    (t.messageReceivedFromSession c s).Good := by
  unfold Transceiver.messageReceivedFromSession
  dsimp only
  by_cases hAttached : (t.sessions s).attached = false
  · rw [if_pos hAttached]
    exact h
  · rw [if_neg hAttached]
    cases c with
    | other => exact h
    | sendUserMessage => exact h.setSession s _ rfl fun _ _ hOwed => hOwed
    | notifyOnOutputDrain r =>
      dsimp only
      split
      · intro q
        obtain ⟨hAlive, hTag, hTable, hReplies, hOwed, hAsked, hQueued, hOnce, hHand, hNotified⟩ := h.kept q
        have hMem : ∀ s', q ∈ ((t.setSession s { t.sessions s with
            drainedNotifiers := (t.sessions s).drainedNotifiers ++ [r] }).sessions s').drainedNotifiers →
            q ∈ (t.sessions s').drainedNotifiers ∨ q = r := by
          intro s' hIn
          rw [notifiers_setSession] at hIn
          split at hIn
          next hs =>
            rw [hs]
            exact (List.mem_append.mp hIn).imp_right List.mem_singleton.mp
          next => exact .inl hIn
        have hStill : ∀ s', q ∈ (t.sessions s').drainedNotifiers → q ∈ ((t.setSession s { t.sessions s with
            drainedNotifiers := (t.sessions s).drainedNotifiers ++ [r] }).sessions s').drainedNotifiers := by
          intro s' hIn
          rw [notifiers_setSession]
          split
          next hs =>
            rw [hs] at hIn
            exact List.mem_append_left _ hIn
          next => exact hIn
        refine ⟨⟨fun hHeld => ?_, hTag, hTable, hReplies, fun s' hs => hStill s' (hOwed s' hs), hAsked, hQueued, hOnce,
          hHand, fun s' hIn => ?_⟩, clean_of_held (t := t) rfl (fun hHeld => ?_) (h q).2⟩
        · refine hAlive ?_
          rcases hHeld with hCalling | hQueue | hHere | ⟨s', hIn⟩
          · exact .inl hCalling
          · exact .inr (.inl hQueue)
          · exact .inr (.inr (.inl hHere))
          · rcases hMem s' hIn with hOld | hNew
            · exact .inr (.inr (.inr ⟨s', hOld⟩))
            · rw [hNew]
              exact .inr (.inr (.inl hFrom))
        · rcases hMem s' hIn with hOld | hNew
          · exact hNotified s' hOld
          · rw [hNew]
            exact hDone r rfl
        · exact hHeld.imp_right (Or.imp_right (Or.imp_right fun ⟨s', hIn⟩ => ⟨s', hStill s' hIn⟩))
      · exact h

omit [DecidableEq Req] [Fintype S] in
theorem messageReceivedFromSession_eq (t : Transceiver S Req MessageRef) (c : Command Req) (s : S) :
    (t.messageReceivedFromSession c s).msgFromOwner = t.msgFromOwner ∧
      (t.messageReceivedFromSession c s).processed = t.processed := by
  unfold Transceiver.messageReceivedFromSession
  dsimp only
  split
  · exact ⟨rfl, rfl⟩
  · cases c with
    | other => exact ⟨rfl, rfl⟩
    | sendUserMessage => exact ⟨rfl, rfl⟩
    | notifyOnOutputDrain r =>
      dsimp only
      split <;> exact ⟨rfl, rfl⟩

/-- All matching sessions get the command. -/
theorem Good.sendAll (h : t.Good) {c : Command Req} (matching : List S) (hFrom : t.msgFromOwner = some c)
    (hDone : ∀ r, c = .notifyOnOutputDrain r → t.processed r = true) :
    (matching.foldl (messageReceivedFromSession · c ·) t).Good := by
  induction matching generalizing t with
  | nil => exact h
  | cons s matching ih =>
    obtain ⟨hHand, hProcessed⟩ := messageReceivedFromSession_eq t c s
    refine ih (h.sendOne s hFrom hDone) (hHand.trans hFrom) ?_
    rw [hProcessed]
    exact hDone

omit [DecidableEq Req] [Fintype S] in
theorem hasOutput_notify (t : Transceiver S Req MessageRef) (r : Req) (s s' : S) :
    (t.messageReceivedFromSession (.notifyOnOutputDrain r) s).HasOutput s' ↔ t.HasOutput s' := by
  unfold Transceiver.messageReceivedFromSession
  dsimp only
  split
  · rfl
  · split
    · unfold HasOutput setSession
      by_cases hs : s' = s
      · rw [hs]
        dsimp only
        rw [Function.update_self]
      · dsimp only
        rw [Function.update_of_ne hs]
    · rfl

omit [DecidableEq Req] [Fintype S] in
/-- A session that has output keeps the request, and lets go of none. -/
theorem notifiers_notify (t : Transceiver S Req MessageRef) (r q : Req) (s s' : S)
    (hMem : q ∈ (t.sessions s').drainedNotifiers ∨ q = r ∧ s' = s ∧ t.HasOutput s') :
    q ∈ ((t.messageReceivedFromSession (.notifyOnOutputDrain r) s).sessions s').drainedNotifiers := by
  unfold Transceiver.messageReceivedFromSession
  dsimp only
  by_cases hOutput : t.HasOutput s
  · rw [if_neg (by rw [hOutput.1]; exact nofun), if_pos hOutput.2, notifiers_setSession]
    split
    next hs =>
      refine List.mem_append.mpr ?_
      rcases hMem with hOld | ⟨hNew, -⟩
      · exact .inl (hs ▸ hOld)
      · exact .inr (List.mem_singleton.mpr hNew)
    next hs => exact hMem.resolve_right fun hNew => hs hNew.2.1
  · have hOld : q ∈ (t.sessions s').drainedNotifiers := by
      refine hMem.resolve_right fun ⟨_, hs, hNo⟩ => hOutput ?_
      rwa [hs] at hNo
    split
    · exact hOld
    · next hAttached =>
      rw [Bool.not_eq_false] at hAttached
      rw [if_neg fun hNo => hOutput ⟨hAttached, hNo⟩]
      exact hOld

omit [DecidableEq Req] [Fintype S] in
theorem notifiers_notifyAll (matching : List S) (t : Transceiver S Req MessageRef) (r q : Req) (s : S)
    (hMem : q ∈ (t.sessions s).drainedNotifiers ∨ q = r ∧ s ∈ matching ∧ t.HasOutput s) :
    q ∈ ((matching.foldl (messageReceivedFromSession · (.notifyOnOutputDrain r) ·) t).sessions s).drainedNotifiers := by
  induction matching generalizing t with
  | nil => exact hMem.resolve_right fun hNo => absurd hNo.2.1 List.not_mem_nil
  | cons first matching ih =>
    refine ih _ ?_
    rw [hasOutput_notify]
    rcases hMem with hOld | ⟨hNew, hIn, hOutput⟩
    · exact .inl (notifiers_notify t r q first s (.inl hOld))
    · rcases List.mem_cons.mp hIn with hFirst | hRest
      · exact .inl (notifiers_notify t r q first s (.inr ⟨hNew, hFirst, hOutput⟩))
      · exact .inr ⟨hNew, hRest, hOutput⟩

omit [DecidableEq S] [Fintype S] in
/-- What is owed may be anything that the sessions know of. -/
theorem Good.owe (h : t.Good) {owed : Req → S → Bool}
    (hOwed : ∀ r s, owed r s = true → r ∈ (t.sessions s).drainedNotifiers) : ({ t with owed := owed }).Good :=
  h.of_same ⟨rfl, rfl, rfl, rfl, rfl, fun _ hr => hr, fun _ => Nat.le_refl _, fun _ hr => hr, fun _ _ hr => hr, hOwed⟩
    fun _ hHeld => hHeld

theorem Good.next (h : t.Good) {c : Command Req} {queue : List (Command Req)} (matching : List S)
    (hQueue : t.queue = c :: queue) (hFrom : t.msgFromOwner = none) :
    (messageReceivedFromOwner { t with queue := queue, msgFromOwner := some c } matching c).Good := by
  unfold messageReceivedFromOwner
  cases c with
  | other => exact (h.other hQueue hFrom nofun).sendAll matching rfl nofun
  | sendUserMessage => exact (h.other hQueue hFrom nofun).sendAll matching rfl nofun
  | notifyOnOutputDrain r =>
    obtain ⟨tag, hSome, -, hGood⟩ := h.notify hQueue hFrom
    dsimp only
    rw [hSome]
    refine (hGood.sendAll matching rfl fun q hq => ?_).owe fun q s hOwed => ?_
    · cases hq
      exact Function.update_self ..
    · refine notifiers_notifyAll matching _ r q s ?_
      split at hOwed
      next hq =>
        obtain ⟨hIn, hOutput⟩ := of_decide_eq_true hOwed
        exact .inr ⟨hq, hIn, hOutput⟩
      next => exact .inl ((h.kept q).owed s hOwed)

/-! ### Runs -/

theorem Good.step (h : t.Good) (e : Event S Req MessageRef) : (t.step e).Good := by
  unfold Transceiver.step
  cases e with
  | request r notifyRef =>
    dsimp only
    split
    · exact h
    · next hNew => exact h.request r notifyRef (not_not.mp hNew)
  | returns r => exact h.returns r
  | command c =>
    cases c with
    | notifyOnOutputDrain r => exact h
    | sendUserMessage => exact h.command nofun
    | other => exact h.command nofun
  | nextFromOwner matching =>
    dsimp only
    split
    · exact h
    · next c queue hQueue =>
      have hDrop := dropFromOwner_eq t
      exact h.dropFromOwner.next matching (hDrop.1.trans hQueue) hDrop.2
  | noneFromOwner => exact h.dropFromOwner
  | attached s gateway =>
    dsimp only
    split
    · exact h
    · exact h.setSession s _ rfl fun _ _ hOwed => hOwed
  | outputChanges s gateway =>
    dsimp only
    split
    · exact h.setSession s _ rfl fun _ _ hOwed => hOwed
    · refine h.setSession s _ rfl fun r s' hOwed => ?_
      split at hOwed
      · cases hOwed
      · exact hOwed
  | doOutput s hasBytesToOutput =>
    dsimp only
    split
    · exact h.setSession s _ rfl fun _ _ hOwed => hOwed
    · exact h.clearNotifiers s _
  | clientConnectionClosed s gateway => exact (h.clearNotifiers_forgive s).setSession s _ rfl fun _ _ hOwed => hOwed
  | aboutToDetach s => exact (h.clearNotifiers_forgive s).setSession s _ rfl fun _ _ hOwed => hOwed

omit [DecidableEq S] [Fintype S] in
theorem good_start : (start S Req MessageRef).Good := by
  intro r
  have hFree : ¬(start S Req MessageRef).Held r := by
    rintro (hNo | hNo | hNo | ⟨s, hNo⟩) <;> cases hNo
  exact ⟨⟨fun hHeld => absurd hHeld hFree, nofun, by simp [start], ⟨none, .inl rfl, by simp [start]⟩, nofun,
    fun _ => ⟨rfl, rfl⟩, nofun, by simp [start], nofun, nofun⟩, fun hNo => absurd rfl hNo⟩

theorem good_run (events : List (Event S Req MessageRef)) :
    (events.foldl Transceiver.step (start S Req MessageRef)).Good :=
  events.foldlRecOn Transceiver.step good_start fun _ hGood e _ => hGood.step e

/-- The request was accepted and processed: its call has returned, and the supervisor has gone on. -/
def Done (t : Transceiver S Req MessageRef) (r : Req) : Prop :=
  t.calling r = false ∧ t.processed r = true ∧ t.msgFromOwner ≠ some (.notifyOnOutputDrain r)

omit [DecidableEq S] [Fintype S] in
/-- There is a tag until the request is done and no session has it. -/
theorem Good.tags_none_iff (h : t.Good) (r : Req) : t.processed r = true ∧ t.tags r = none ↔
    t.Done r ∧ ∀ s, r ∉ (t.sessions s).drainedNotifiers := by
  obtain ⟨hKept, hClean⟩ := h r
  constructor
  · rintro ⟨hProcessed, hNone⟩
    have hFree : ¬t.Held r := fun hHeld => hKept.alive hHeld hNone
    refine ⟨⟨?_, hProcessed, fun hHand => hFree (.inr (.inr (.inl hHand)))⟩,
      fun s hMem => hFree (.inr (.inr (.inr ⟨s, hMem⟩)))⟩
    rw [← Bool.not_eq_true]
    exact fun hCalling => hFree (.inl hCalling)
  · rintro ⟨⟨hCalling, hProcessed, hHand⟩, hReleased⟩
    refine ⟨hProcessed, ?_⟩
    by_contra hTag
    rcases hClean hTag with hNo | hMem | hNo | ⟨s, hMem⟩
    · rw [hCalling] at hNo
      cases hNo
    · have hNotYet := hKept.queued hMem
      rw [hProcessed] at hNotYet
      cases hNotYet
    · exact hHand hNo
    · exact hReleased s hMem

end Transceiver

end BeShare.Muscle.System
