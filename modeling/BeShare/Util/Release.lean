import BeShare.Util.RefCount
import Mathlib.Tactic.Common

/-!
What the release of a reference does: the counts stay the numbers of references, whatever has a count from a reference
that stays is kept with its members, and nothing is released twice.
-/

namespace BeShare.Muscle.RefCounts

variable {I R : Type}

/-! ### What stays -/

/-- An item that goes out of use is recycled or deleted then, once, and no other is. -/
def ReleasesOnce (h h' : Heap I R) : Prop :=
  ∀ i, h'.releases i = h.releases i + (if h.status i = .inUse ∧ h'.status i ≠ .inUse then 1 else 0) ∧
    (h.status i = .inUse → h'.status i ≠ .inUse → h'.status i = .pooled ∨ h'.status i = .deleted)

/-- Nothing changes but some references, and what is inside of items that are released. Some items are kept. -/
structure Frame (L : Layout I R) (S : I → Prop) (T : R → Prop) (h h' : Heap I R) : Prop where
  refs : ∀ q, ¬T q → (∀ j, L.home q = some j → h.status j = .inUse → h'.status j = .inUse) → h'.refs q = h.refs q
  status : ∀ j, h.status j ≠ .inUse → h'.status j = h.status j
  kept : ∀ j, S j → h.status j = .inUse → h'.status j = .inUse
  released : ReleasesOnce h h'

/-- The item that a reference is a member of is kept. -/
def HomeKept (L : Layout I R) (S : I → Prop) (h : Heap I R) (r : R) : Prop :=
  ∀ j, L.home r = some j → h.status j = .inUse → S j

/-- Each of the items has a reference that counts in it and stays, since it is in a variable, or in one of the items, or
in one that is not released. -/
def Supported (L : Layout I R) (S : I → Prop) (E : R → Prop) (h : Heap I R) : Prop :=
  ∀ z, S z → ∃ b, ¬E b ∧ h.refs b = some ⟨some z, true⟩ ∧ HomeKept L S h b

variable {L : Layout I R} {S : I → Prop} {T E : R → Prop} {h h' h'' : Heap I R} {r : R}

/-- No status and no release. -/
theorem releasesOnce_of_same (hReleases : h'.releases = h.releases)
    (hStatus : ∀ i, h.status i = .inUse → h'.status i = .inUse) : ReleasesOnce h h' := by
  refine fun i => ⟨?_, fun hUse hNot => absurd (hStatus i hUse) hNot⟩
  rw [hReleases, if_neg fun hNo => hNo.2 (hStatus i hNo.1)]
  rfl

theorem ReleasesOnce.trans (hOnce : ReleasesOnce h h') (hOnce' : ReleasesOnce h' h'')
    (hStatus : ∀ i, h.status i ≠ .inUse → h'.status i ≠ .inUse)
    (hStatus' : ∀ i, h'.status i ≠ .inUse → h''.status i = h'.status i) : ReleasesOnce h h'' := by
  intro i
  obtain ⟨hFirst, hOut⟩ := hOnce i
  obtain ⟨hSecond, hOut'⟩ := hOnce' i
  by_cases hUse : h.status i = .inUse
  · by_cases hUse' : h'.status i = .inUse
    · rw [if_neg fun hNo => hNo.2 hUse', Nat.add_zero] at hFirst
      rw [hSecond, hFirst]
      simp only [hUse, hUse', true_and]
      exact fun _ hNot => hOut' hUse' hNot
    · have hSame := hStatus' i hUse'
      rw [if_neg fun hNo => hUse' hNo.1, Nat.add_zero] at hSecond
      rw [hSecond, hFirst, hSame]
      exact ⟨rfl, hOut⟩
  · have hUse' := hStatus i hUse
    rw [if_neg fun hNo => hUse hNo.1, Nat.add_zero] at hFirst
    rw [if_neg fun hNo => hUse' hNo.1, Nat.add_zero] at hSecond
    rw [hSecond, hFirst, if_neg fun hNo => hUse hNo.1]
    exact ⟨rfl, fun hNo => absurd hNo hUse⟩

/-- References are set, and items are used for the first time. -/
theorem ReleasesOnce.then_same (hOnce : ReleasesOnce h h') (hReleases : h''.releases = h'.releases)
    (hStatus : ∀ i, h'.status i ≠ .fresh → h''.status i = h'.status i) : ReleasesOnce h h'' := by
  intro i
  obtain ⟨hCount, hOut⟩ := hOnce i
  by_cases hUse : h.status i = .inUse
  · have hNotFresh : h'.status i ≠ .fresh := by
      intro hFresh
      rcases hOut hUse (by rw [hFresh]; decide) with hNo | hNo
      · exact absurd (hFresh.symm.trans hNo) (by decide)
      · exact absurd (hFresh.symm.trans hNo) (by decide)
    rw [hStatus i hNotFresh, hReleases]
    exact hOnce i
  · rw [if_neg fun hNo => hUse hNo.1] at hCount
    rw [hReleases, if_neg fun hNo => hUse hNo.1]
    exact ⟨hCount, fun hNo => absurd hNo hUse⟩

namespace Frame

theorem refl (L : Layout I R) (S : I → Prop) (T : R → Prop) (h : Heap I R) : Frame L S T h h :=
  ⟨fun _ _ _ => rfl, fun _ _ => rfl, fun _ _ hUse => hUse, releasesOnce_of_same rfl fun _ hUse => hUse⟩

theorem inUse (hF : Frame L S T h h') {j : I} (hUse : h'.status j = .inUse) : h.status j = .inUse := by
  by_contra hNot
  exact hNot ((hF.status j hNot).symm.trans hUse)

theorem trans (hF : Frame L S T h h') (hF' : Frame L S T h' h'') : Frame L S T h h'' := by
  refine ⟨fun q hq hHome => ?_, fun j hj => ?_, fun j hS hUse => hF'.kept j hS (hF.kept j hS hUse),
    hF.released.trans hF'.released (fun j hj hUse => hj (hF.inUse hUse)) hF'.status⟩
  · have hFirst : h'.refs q = h.refs q := hF.refs q hq fun j hj hUse => hF'.inUse (hHome j hj hUse)
    have hSecond : h''.refs q = h'.refs q := hF'.refs q hq fun j hj hUse => hHome j hj (hF.inUse hUse)
    exact hSecond.trans hFirst
  · have hFirst := hF.status j hj
    exact (hF'.status j (by rw [hFirst]; exact hj)).trans hFirst

theorem mono {T' : R → Prop} (hF : Frame L S T h h') (hT : ∀ q, T q → T' q) : Frame L S T' h h' :=
  ⟨fun q hq hHome => hF.refs q (fun hNo => hq (hT q hNo)) hHome, hF.status, hF.kept, hF.released⟩

theorem homeKept (hF : Frame L S T h h') (hKept : HomeKept L S h r) : HomeKept L S h' r :=
  fun j hj hUse => hKept j hj (hF.inUse hUse)

theorem supported (hF : Frame L S T h h') (hT : ∀ q, T q → E q) (hS : Supported L S E h) : Supported L S E h' := by
  intro z hz
  obtain ⟨b, hb, hRef, hKept⟩ := hS z hz
  refine ⟨b, hb, ?_, hF.homeKept hKept⟩
  exact (hF.refs b (fun hNo => hb (hT b hNo)) fun j hj hUse => hF.kept j (hKept j hj hUse) hUse).trans hRef

end Frame

theorem Frame.put [DecidableEq R] (L : Layout I R) (S : I → Prop) (hT : T r) (ref : Option (Ref I)) :
    Frame L S T h (h.put r ref) := by
  refine ⟨fun q hq _ => ?_, fun _ _ => rfl, fun _ _ hUse => hUse, releasesOnce_of_same rfl fun _ hUse => hUse⟩
  exact Heap.put_refs_ne h (by rintro rfl; exact hq hT) ref

def Heap.inUseItems [Fintype I] (h : Heap I R) : Finset I :=
  Finset.univ.filter fun i => h.status i = .inUse

theorem Frame.card_le [Fintype I] (hF : Frame L S T h h') : h'.inUseItems.card ≤ h.inUseItems.card := by
  refine Finset.card_le_card fun j hj => ?_
  unfold Heap.inUseItems at hj ⊢
  rw [Finset.mem_filter] at hj ⊢
  exact ⟨hj.1, hF.inUse hj.2⟩

/-! ### Counts -/

variable [DecidableEq I] [DecidableEq R] [Fintype R] {D : Finset R} {i : I}

namespace Heap

/-- The references that count in an item, but for some that have given up their count already. -/
def countingRefs (h : Heap I R) (D : Finset R) (i : I) : Finset R :=
  Finset.univ.filter fun r => r ∉ D ∧ h.refs r = some ⟨some i, true⟩

/-- The count of every item is the number of references that count in it, and the items that have any are in use. -/
structure Consistent (h : Heap I R) (D : Finset R) : Prop where
  count : ∀ i, h.count i = (h.countingRefs D i).card
  inUse : ∀ i, h.status i = .inUse ↔ (h.countingRefs D i).Nonempty

@[simp] theorem mem_countingRefs {h : Heap I R} {D : Finset R} {i : I} {r : R} :
    r ∈ h.countingRefs D i ↔ r ∉ D ∧ h.refs r = some ⟨some i, true⟩ := by
  simp [countingRefs]

/-- A reference counts in one item. -/
theorem notMem_countingRefs {h : Heap I R} {D : Finset R} {i j : I} {r : R} (hr : r ∈ h.countingRefs D i) (hj : j ≠ i) :
    r ∉ h.countingRefs D j := by
  intro hNo
  have hBoth := (mem_countingRefs.mp hNo).2.symm.trans (mem_countingRefs.mp hr).2
  simp only [Option.some.injEq, Ref.mk.injEq, and_true] at hBoth
  exact hj hBoth

/-- Neither the counts nor the references that count have changed. -/
theorem Consistent.of_same {h h' : Heap I R} {D D' : Finset R} (hCons : h.Consistent D) (hCount : h'.count = h.count)
    (hStatus : ∀ i, h'.status i = .inUse ↔ h.status i = .inUse)
    (hRefs : ∀ i, h'.countingRefs D' i = h.countingRefs D i) : h'.Consistent D' := by
  refine ⟨fun i => ?_, fun i => ?_⟩
  · rw [hCount, hRefs]
    exact hCons.count i
  · rw [hStatus, hRefs]
    exact hCons.inUse i

/-- A reference that gave up its count is changed to one that has none. -/
theorem Consistent.put_idle {h : Heap I R} {D D' : Finset R} {r : R} {ref : Option (Ref I)} (hCons : h.Consistent D')
    (hD : ∀ q, q ≠ r → (q ∈ D ↔ q ∈ D')) (hOld : r ∈ D' ∨ ∀ i, h.refs r ≠ some ⟨some i, true⟩)
    (hNew : ∀ i, ref ≠ some ⟨some i, true⟩) : (h.put r ref).Consistent D := by
  refine hCons.of_same rfl (fun i => Iff.rfl) fun i => ?_
  ext q
  rw [mem_countingRefs, mem_countingRefs]
  by_cases hq : q = r
  · subst hq
    rw [put_refs_self]
    refine iff_of_false (fun hNo => hNew i hNo.2) fun hNo => ?_
    rcases hOld with hIn | hIdle
    · exact hNo.1 hIn
    · exact hIdle i hNo.2
  · rw [put_refs_ne h hq, hD q hq]

/-- An item whose status is not that of use gets another such status. -/
theorem Consistent.setStatus {h : Heap I R} {D : Finset R} {i : I} {status : Status} (hCons : h.Consistent D)
    (hOld : h.status i ≠ .inUse) (hNew : status ≠ .inUse) : (h.setStatus i status).Consistent D := by
  refine hCons.of_same rfl (fun j => ?_) fun j => rfl
  by_cases hj : j = i
  · subst hj
    rw [setStatus_self]
    exact iff_of_false hNew hOld
  · rw [setStatus_ne h hj]

theorem countingRefs_decrement (h : Heap I R) (D : Finset R) (i j : I) (r : R) :
    (h.decrement i).countingRefs (insert r D) j = (h.countingRefs D j).erase r := by
  ext q
  rw [mem_countingRefs, Finset.mem_erase, mem_countingRefs, Finset.mem_insert, not_or, decrement_refs, and_assoc]

theorem Consistent.decrement_count {h : Heap I R} {D : Finset R} {r : R} {i : I} (hCons : h.Consistent D)
    (hr : r ∈ h.countingRefs D i) (j : I) :
    (h.decrement i).count j = ((h.decrement i).countingRefs (insert r D) j).card := by
  rw [countingRefs_decrement]
  have hCount := hCons.count j
  unfold Heap.decrement
  by_cases hj : j = i
  · subst hj
    have hPos : 0 < (h.countingRefs D j).card := Finset.card_pos.mpr ⟨r, hr⟩
    rw [Finset.card_erase_of_mem hr]
    simp only [Function.update_self]
    omega
  · rw [Finset.erase_eq_of_notMem (notMem_countingRefs hr hj)]
    simp only [Function.update_of_ne hj]
    exact hCount

/-- A count is given up, and it was not the last. -/
theorem Consistent.decrement {h : Heap I R} {D : Finset R} {r : R} {i : I} (hCons : h.Consistent D)
    (hr : r ∈ h.countingRefs D i) (hLeft : (h.decrement i).count i ≠ 0) :
    (h.decrement i).Consistent (insert r D) := by
  have hCount := hCons.decrement_count hr
  refine ⟨hCount, fun j => ?_⟩
  by_cases hj : j = i
  · subst hj
    refine iff_of_true ((hCons.inUse j).mpr ⟨r, hr⟩) (Finset.card_pos.mp ?_)
    have hHere := hCount j
    omega
  · rw [countingRefs_decrement, Finset.erase_eq_of_notMem (notMem_countingRefs hr hj)]
    exact hCons.inUse j

/-- The last count is given up, and the item leaves. -/
theorem Consistent.leave {h : Heap I R} {D : Finset R} {r : R} {i : I} (hCons : h.Consistent D)
    (hr : r ∈ h.countingRefs D i) (hLast : (h.decrement i).count i = 0) :
    ((h.decrement i).leave i).Consistent (insert r D) := by
  have hCount := hCons.decrement_count hr
  refine ⟨hCount, fun j => ?_⟩
  by_cases hj : j = i
  · subst hj
    rw [leave_self]
    refine iff_of_false (by decide) fun hNo => ?_
    have hPos := Finset.card_pos.mpr hNo
    have hHere := (hCount j).symm.trans hLast
    change (((h.decrement j).countingRefs (insert r D) j).card : Int) = 0 at hHere
    change 0 < ((h.decrement j).countingRefs (insert r D) j).card at hPos
    omega
  · rw [leave_ne _ hj]
    change h.status j = .inUse ↔ ((h.decrement i).countingRefs (insert r D) j).Nonempty
    rw [countingRefs_decrement, Finset.erase_eq_of_notMem (notMem_countingRefs hr hj)]
    exact hCons.inUse j

end Heap

/-! ### Members -/

variable [Fintype I]

/-- A reference can be released: it has not given up its count, and its memory is kept, as that of those that have. -/
structure MayUnref (L : Layout I R) (S : I → Prop) (D : Finset R) (E : R → Prop) (h : Heap I R) (r : R) : Prop where
  consistent : h.Consistent D
  alive : h.refs r ≠ none
  counts : r ∉ D
  excluded : E r ∧ ∀ d ∈ D, E d
  supported : Supported L S E h
  kept : ∀ d, d = r ∨ d ∈ D → HomeKept L S h d

/-- It becomes `NULL`, and what else goes is inside of items that are released. -/
def Unrefs (L : Layout I R) (S : I → Prop) (D : Finset R) (h : Heap I R) (r : R) (result : Option (Heap I R)) : Prop :=
  ∃ h', result = some h' ∧ h'.Consistent D ∧ Frame L S (· = r) h h' ∧
    ∀ ref, h.refs r = some ref → h'.refs r = some { ref with item := none }

/-- The members of an item that is leaving. -/
theorem dropMembers_spec {un : Heap I R → R → Option (Heap I R)} {n : Nat} (areGone : Bool)
    (hUn : ∀ h r, MayUnref L S D E h r → h.inUseItems.card ≤ n → Unrefs L S D h r (un h r))
    (hD : ∀ d ∈ D, E d) (rest : List R) (hRest : ∀ r ∈ rest, L.home r = some i ∧ r ∉ D ∧ E r) (h : Heap I R)
    (hCons : h.Consistent D) (hLeft : h.status i ≠ .inUse) (hSupported : Supported L S E h)
    (hKept : ∀ d ∈ D, HomeKept L S h d) (hCard : h.inUseItems.card ≤ n)
    (hHome : ∀ q, L.home q = some i → E q) :
    ∃ h', dropMembers un areGone h rest = some h' ∧ h'.Consistent D ∧
      Frame L S (fun q => L.home q = some i) h h' := by
  induction rest generalizing h with
  | nil => exact ⟨h, rfl, hCons, .refl ..⟩
  | cons r rest ih =>
    have hTail := fun q hq => hRest q (List.mem_cons_of_mem _ hq)
    obtain ⟨hIn, hNotD, hE⟩ := hRest r (List.mem_cons_self ..)
    unfold dropMembers
    cases hRef : h.refs r with
    | none => exact ih hTail h hCons hLeft hSupported hKept hCard
    | some ref =>
      dsimp only
      have hVacuous : HomeKept L S h r := by
        intro j hj hUse
        obtain rfl := Option.some.inj (hIn.symm.trans hj)
        exact absurd hUse hLeft
      have hMay : MayUnref L S D E h r := by
        refine ⟨hCons, by rw [hRef]; exact Option.some_ne_none _, hNotD, ⟨hE, hD⟩, hSupported, fun d hd => ?_⟩
        rcases hd with rfl | hd
        · exact hVacuous
        · exact hKept d hd
      obtain ⟨h₁, hRun, hCons₁, hFrame₁, hNull⟩ := hUn h r hMay hCard
      rw [hRun, Option.bind_some]
      have hFirst : Frame L S (fun q => L.home q = some i) h h₁ := hFrame₁.mono fun q hq => hq ▸ hIn
      -- Whether the memory of the member goes or not, it does not count any more.
      obtain ⟨h₂, hStep, hCons₂, hSecond⟩ : ∃ h₂, (if areGone then h₁.put r none else h₁) = h₂ ∧ h₂.Consistent D ∧
          Frame L S (fun q => L.home q = some i) h₁ h₂ := by
        cases areGone with
        | false => exact ⟨h₁, rfl, hCons₁, .refl ..⟩
        | true =>
          refine ⟨h₁.put r none, rfl, hCons₁.put_idle (fun _ _ => Iff.rfl) (.inr fun j => ?_) (fun j => ?_),
            .put L S hIn _⟩
          · rw [hNull ref hRef]
            simp
          · simp
      rw [hStep]
      have hBoth := hFirst.trans hSecond
      have hLeft₂ : h₂.status i ≠ .inUse := fun hNo => hLeft (hBoth.inUse hNo)
      obtain ⟨h₃, hDone, hCons₃, hThird⟩ := ih hTail h₂ hCons₂ hLeft₂ (hBoth.supported hHome hSupported)
        (fun d hd => hBoth.homeKept (hKept d hd)) (Nat.le_trans hBoth.card_le hCard)
      exact ⟨h₃, hDone, hCons₃, hBoth.trans hThird⟩

/-! ### Items -/

/-- An item that is leaving, with its last count given up by a reference that is to be `NULL`. -/
theorem release_spec {un : Heap I R → R → Option (Heap I R)} {n : Nat}
    (hUn : ∀ h r, MayUnref L S D E h r → h.inUseItems.card ≤ n → Unrefs L S D h r (un h r))
    (hUse : h.status i = .inUse) (hCons : (h.leave i).Consistent D)
    (hSupported : Supported L S E (h.leave i)) (hD : ∀ d ∈ D, E d)
    (hKept : ∀ d ∈ D, HomeKept L S (h.leave i) d)
    (hCard : (h.leave i).inUseItems.card ≤ n) (hMembers : ∀ q, L.home q = some i → q ∉ D ∧ E q) :
    ∃ h' status, release L un h i = some (h'.setStatus i status) ∧ (status = .pooled ∨ status = .deleted) ∧
      (h'.setStatus i status).Consistent D ∧ Frame L S (fun q => L.home q = some i) (h.leave i) h' := by
  have hLeaving : (h.leave i).status i ≠ .inUse := by
    rw [Heap.leave_self]
    decide
  have hAll : ∀ r ∈ L.members i, L.home r = some i ∧ r ∉ D ∧ E r := fun r hr =>
    have hIn := (L.mem_members i r).mp hr
    ⟨hIn, hMembers r hIn⟩
  have hHome : ∀ q, L.home q = some i → E q := fun q hq => (hMembers q hq).2
  -- What `delete` does to whatever the recycle callback has left.
  have hDelete : ∀ h₁ : Heap I R, h₁.Consistent D →
      Frame L S (fun q => L.home q = some i) (h.leave i) h₁ →
      ∃ h', deleteItem L un h₁ i = some (h'.setStatus i .deleted) ∧ (h'.setStatus i .deleted).Consistent D ∧
        Frame L S (fun q => L.home q = some i) (h.leave i) h' := by
    intro h₁ hCons₁ hFrame₁
    have hLeft₁ : h₁.status i ≠ .inUse := fun hNo => hLeaving (hFrame₁.inUse hNo)
    obtain ⟨h₂, hRun, hCons₂, hFrame₂⟩ := dropMembers_spec true hUn hD (L.members i) hAll h₁ hCons₁ hLeft₁
      (hFrame₁.supported hHome hSupported) (fun d hd => hFrame₁.homeKept (hKept d hd))
      (Nat.le_trans hFrame₁.card_le hCard) hHome
    have hLeft₂ : h₂.status i ≠ .inUse := fun hNo => hLeft₁ (hFrame₂.inUse hNo)
    refine ⟨h₂, ?_, hCons₂.setStatus hLeft₂ (by decide), hFrame₁.trans hFrame₂⟩
    unfold deleteItem
    rw [hRun, Option.map_some]
  unfold release
  rw [if_neg (by rw [hUse]; decide)]
  dsimp only
  cases L.hasManager i with
  | false =>
    obtain ⟨h', hRun, hCons', hFrame⟩ := hDelete _ hCons (.refl ..)
    rw [if_neg Bool.false_ne_true, hRun]
    exact ⟨h', .deleted, rfl, .inr rfl, hCons', hFrame⟩
  | true =>
    have hReset : ∀ r ∈ (if L.callbackResets i then L.members i else []), L.home r = some i ∧ r ∉ D ∧ E r := by
      intro r hr
      split at hr
      · exact hAll r hr
      · cases hr
    obtain ⟨h₁, hRun, hCons₁, hFrame₁⟩ := dropMembers_spec false hUn hD _ hReset _ hCons hLeaving hSupported hKept hCard
      hHome
    rw [if_pos rfl, hRun, Option.bind_some]
    by_cases hRoom : L.hasRoom h₁.status i = true
    · rw [if_pos hRoom]
      have hLeft₁ : h₁.status i ≠ .inUse := fun hNo => hLeaving (hFrame₁.inUse hNo)
      exact ⟨h₁, .pooled, rfl, .inl rfl, hCons₁.setStatus hLeft₁ (by decide), hFrame₁⟩
    · obtain ⟨h', hRun', hCons', hFrame⟩ := hDelete h₁ hCons₁ hFrame₁
      rw [if_neg hRoom, hRun']
      exact ⟨h', .deleted, rfl, .inr rfl, hCons', hFrame⟩

omit [DecidableEq R] [Fintype R] [Fintype I] in
/-- What is released with an item, as seen from before. -/
theorem release_frame {status : Status} {h₁ : Heap I R} (hUse : h.status i = .inUse) (hNotKept : ¬S i)
    (hF : Frame L S (fun q => L.home q = some i) ((h.decrement i).leave i) h₁)
    (hNew : status = .pooled ∨ status = .deleted) :
    Frame L S T h (h₁.setStatus i status) := by
  have hOther : ∀ j, j ≠ i → ((h.decrement i).leave i).status j = h.status j := fun j hj =>
    Heap.leave_ne _ hj
  have hStatus : status ≠ .inUse := by rcases hNew with rfl | rfl <;> decide
  refine ⟨fun q _ hHome => ?_, fun j hj => ?_, fun j hS hUseJ => ?_, fun j => ?_⟩
  · have hq : ¬L.home q = some i := by
      intro hIn
      have hAfter := hHome i hIn hUse
      rw [Heap.setStatus_self] at hAfter
      exact hStatus hAfter
    refine hF.refs q hq fun j hj hUseJ => ?_
    have hji : j ≠ i := fun hNo => hq (hNo ▸ hj)
    rw [hOther j hji] at hUseJ
    have hAfter := hHome j hj hUseJ
    rwa [Heap.setStatus_ne _ hji] at hAfter
  · have hji : j ≠ i := fun hNo => hj (hNo ▸ hUse)
    rw [Heap.setStatus_ne _ hji, hF.status j (by rw [hOther j hji]; exact hj), hOther j hji]
  · have hji : j ≠ i := fun hNo => hNotKept (hNo ▸ hS)
    rw [Heap.setStatus_ne _ hji]
    exact hF.kept j hS (by rw [hOther j hji]; exact hUseJ)
  · obtain ⟨hReleases, hOut⟩ := hF.released j
    by_cases hji : j = i
    · subst hji
      rw [Heap.leave_self, if_neg fun hNo => absurd hNo.1 (by decide), Nat.add_zero] at hReleases
      rw [Heap.setStatus_self, if_pos ⟨hUse, hStatus⟩]
      refine ⟨hReleases.trans ?_, fun _ _ => hNew⟩
      exact Function.update_self ..
    · have hBefore : ((h.decrement i).leave i).releases j = h.releases j := Function.update_of_ne hji ..
      rw [hOther j hji] at hReleases hOut
      rw [Heap.setStatus_ne _ hji]
      exact ⟨hReleases.trans (by rw [hBefore]), hOut⟩

omit [Fintype I] in
/-- The reference's own memory is kept, so it can be set to `NULL` afterwards. -/
theorem clear_spec {ref : Ref I} (hRef : h.refs r = some ref) {D' : Finset R} (hCons : h.Consistent D')
    (hD : ∀ q, q ≠ r → (q ∈ D ↔ q ∈ D')) (hIdle : r ∈ D' ∨ ref.doRefCount = false) :
    h.clear r = some (h.put r (some { ref with item := none })) ∧
      (h.put r (some { ref with item := none })).Consistent D := by
  constructor
  · unfold Heap.clear
    rw [hRef, Option.map_some]
  · refine hCons.put_idle hD (hIdle.imp_right fun hNot i hNo => ?_) fun i => by simp
    rw [hRef] at hNo
    rw [Option.some.inj hNo] at hNot
    cases hNot

/-- `UnrefItem`, if whatever is to stay is supported by references that stay. -/
theorem unrefItem_spec (depth : Nat) (D : Finset R) (E : R → Prop) (h : Heap I R) (r : R)
    (hMay : MayUnref L S D E h r) (hCard : h.inUseItems.card < depth) :
    Unrefs L S D h r (unrefItem L depth h r) := by
  induction depth generalizing D E h r with
  | zero => exact absurd hCard (Nat.not_lt_zero _)
  | succ depth ih =>
    obtain ⟨ref, hRef⟩ := Option.ne_none_iff_exists'.mp hMay.alive
    obtain ⟨item, doRefCount⟩ := ref
    unfold unrefItem
    rw [hRef, Option.bind_some]
    cases item with
    | none =>
      refine ⟨h, rfl, hMay.consistent, .refl .., fun ref hSame => ?_⟩
      rw [hSame] at hRef
      rw [hSame, Option.some.inj hRef]
    | some i =>
      dsimp only
      cases doRefCount with
      | false =>
        obtain ⟨hClear, hCons⟩ := clear_spec (D := D) hRef hMay.consistent (fun _ _ => Iff.rfl) (.inr rfl)
        refine ⟨_, hClear, hCons, .put (T := (· = r)) L S rfl _, fun ref hSame => ?_⟩
        rw [Heap.put_refs_self, Option.some.inj (hSame.symm.trans hRef)]
      | true =>
        have hCounts : r ∈ h.countingRefs D i := Heap.mem_countingRefs.mpr ⟨hMay.counts, hRef⟩
        have hUse : h.status i = .inUse := (hMay.consistent.inUse i).mpr ⟨r, hCounts⟩
        have hInsert : ∀ q, q ≠ r → (q ∈ D ↔ q ∈ insert r D) := fun q hq => by
          rw [Finset.mem_insert]
          exact ⟨.inr, fun hIn => hIn.resolve_left hq⟩
        rw [if_pos rfl]
        by_cases hLast : (h.decrement i).count i = 0
        · -- Were the item to stay, one more reference would count in it.
          have hNotKept : ¬S i := by
            intro hS
            obtain ⟨b, hb, hRefB, -⟩ := hMay.supported i hS
            have hCount := (hMay.consistent.decrement_count hCounts i).symm.trans hLast
            have hIn : b ∈ (h.decrement i).countingRefs (insert r D) i := by
              rw [Heap.mem_countingRefs, Finset.mem_insert, not_or]
              exact ⟨⟨fun hNo => hb (hNo ▸ hMay.excluded.1), fun hNo => hb (hMay.excluded.2 b hNo)⟩, hRefB⟩
            have hPos := Finset.card_pos.mpr ⟨b, hIn⟩
            omega
          have hStatus : ∀ j, ((h.decrement i).leave i).status j = .inUse → h.status j = .inUse := by
            intro j hj
            by_cases hji : j = i
            · rw [hji]
              exact hUse
            · rwa [Heap.leave_ne _ hji] at hj
          have hSupported : Supported L S (fun q => E q ∨ L.home q = some i) ((h.decrement i).leave i) := by
            intro z hz
            obtain ⟨b, hb, hRefB, hKeptB⟩ := hMay.supported z hz
            refine ⟨b, ?_, hRefB, fun j hj hUseJ => hKeptB j hj (hStatus j hUseJ)⟩
            rintro (hNo | hIn)
            · exact hb hNo
            · exact hNotKept (hKeptB i hIn hUse)
          have hMembers : ∀ q, L.home q = some i → q ∉ insert r D ∧ (E q ∨ L.home q = some i) := by
            refine fun q hq => ⟨fun hNo => hNotKept (hMay.kept q ?_ i hq hUse), .inr hq⟩
            exact Finset.mem_insert.mp hNo
          have hFewer : ((h.decrement i).leave i).inUseItems.card < h.inUseItems.card := by
            have hSubset : ((h.decrement i).leave i).inUseItems ⊆ h.inUseItems := fun j hj => by
              unfold Heap.inUseItems at hj ⊢
              rw [Finset.mem_filter] at hj ⊢
              exact ⟨hj.1, hStatus j hj.2⟩
            refine Finset.card_lt_card ((Finset.ssubset_iff_of_subset hSubset).mpr ⟨i, ?_, ?_⟩)
            · simp [Heap.inUseItems, hUse]
            · simp [Heap.inUseItems]
          obtain ⟨h₁, status, hRun, hNew, hCons, hFrame⟩ := release_spec (h := h.decrement i) (i := i) (D := insert r D)
            (E := fun q => E q ∨ L.home q = some i) (n := depth - 1)
            (fun h₀ r₀ hMay₀ hCard₀ => ih (insert r D) _ h₀ r₀ hMay₀ (by omega)) hUse
            (hMay.consistent.leave hCounts hLast) hSupported
            (fun d hd => .inl ((Finset.mem_insert.mp hd).elim (fun hNo => hNo ▸ hMay.excluded.1) (hMay.excluded.2 d)))
            (fun d hd j hj hUseJ => hMay.kept d (Finset.mem_insert.mp hd) j hj (hStatus j hUseJ)) (by omega) hMembers
          have hOutside : Frame L S (fun _ => False) h (h₁.setStatus i status) :=
            release_frame hUse hNotKept hFrame hNew
          have hSame : (h₁.setStatus i status).refs r = h.refs r := hOutside.refs r not_false fun j hj hUseJ =>
            hOutside.kept j (hMay.kept r (.inl rfl) j hj hUseJ) hUseJ
          obtain ⟨hClear, hDone⟩ := clear_spec (hSame.trans hRef) hCons hInsert (.inl (Finset.mem_insert_self ..))
          rw [if_pos hLast, hRun, Option.bind_some]
          refine ⟨_, hClear, hDone, ?_, fun ref hSame => ?_⟩
          · exact (hOutside.mono fun _ hNo => hNo.elim).trans (.put (T := (· = r)) L S rfl _)
          · rw [Heap.put_refs_self, Option.some.inj (hSame.symm.trans hRef)]
        · have hCons := hMay.consistent.decrement hCounts hLast
          obtain ⟨hClear, hDone⟩ :=
            clear_spec (h := h.decrement i) hRef hCons hInsert (.inl (Finset.mem_insert_self ..))
          rw [if_neg hLast]
          refine ⟨_, hClear, hDone, ?_, fun ref hSame => ?_⟩
          · have hFrame : Frame L S (· = r) h (h.decrement i) :=
              ⟨fun _ _ _ => rfl, fun _ _ => rfl, fun _ _ hUse => hUse, releasesOnce_of_same rfl fun _ hUse => hUse⟩
            exact hFrame.trans (.put (T := (· = r)) L S rfl _)
          · rw [Heap.put_refs_self, Option.some.inj (hSame.symm.trans hRef)]

end BeShare.Muscle.RefCounts
