import BeShare.Util.Release
import Mathlib.Logic.Equiv.Basic
import Mathlib.Data.Fintype.Option

/-!
Runs of operations on references. As long as no assignment releases the item that it is about to count in, or the memory
of its own reference, the counts are the numbers of references, and references point to what they were assigned.
-/

namespace BeShare.Muscle.RefCounts

variable {I R : Type}

/-! ### Conditions -/

theorem not_inUse_of_mayObtain {h : Heap I R} {i : I} (hMay : h.status i = .blank ∨ h.status i = .pooled) :
    h.status i ≠ .inUse := by
  intro hUse
  rcases hMay with hNo | hNo <;> exact absurd (hUse.symm.trans hNo) (by decide)

variable [DecidableEq I] [DecidableEq R]

/-- A reference may begin to count in the item: it is an object, and not one that was released. -/
def Usable (h : Heap I R) : Option I → Prop
  | none => True
  | some i => h.status i = .fresh ∨ h.status i = .inUse

instance Usable.instDecidable (h : Heap I R) : (item : Option I) → Decidable (Usable h item)
  | none => isTrue trivial
  | some i => inferInstanceAs (Decidable (h.status i = .fresh ∨ h.status i = .inUse))

/-- What any caller owes: references that are there or not there yet, and pointers to objects. -/
def Step.MayRun (h : Heap I R) : Step I R → Prop
  | .construct r item doRefCount => h.refs r = none ∧ (doRefCount = true → Usable h item)
  | .copyConstruct r b => h.refs r = none ∧ h.refs b ≠ none
  | .constructFromGeneric r g => h.refs r = none ∧ h.refs g ≠ none
  | .assign a b => h.refs a ≠ none ∧ h.refs b ≠ none
  | .setRef a item doRefCount => h.refs a ≠ none ∧ (doRefCount = true → Usable h item)
  | .setFromGeneric a g => h.refs a ≠ none ∧ h.refs g ≠ none
  | .reset a => h.refs a ≠ none
  | .swapContents a b => h.refs a ≠ none ∧ h.refs b ≠ none
  | .destroy a => h.refs a ≠ none
  | .obtainObject i => h.status i = .blank ∨ h.status i = .pooled

instance Step.MayRun.instDecidable (h : Heap I R) : (s : Step I R) → Decidable (s.MayRun h)
  | .construct r item doRefCount =>
    inferInstanceAs (Decidable (h.refs r = none ∧ (doRefCount = true → Usable h item)))
  | .copyConstruct r b => inferInstanceAs (Decidable (h.refs r = none ∧ h.refs b ≠ none))
  | .constructFromGeneric r g => inferInstanceAs (Decidable (h.refs r = none ∧ h.refs g ≠ none))
  | .assign a b => inferInstanceAs (Decidable (h.refs a ≠ none ∧ h.refs b ≠ none))
  | .setRef a item doRefCount =>
    inferInstanceAs (Decidable (h.refs a ≠ none ∧ (doRefCount = true → Usable h item)))
  | .setFromGeneric a g => inferInstanceAs (Decidable (h.refs a ≠ none ∧ h.refs g ≠ none))
  | .reset a => inferInstanceAs (Decidable (h.refs a ≠ none))
  | .swapContents a b => inferInstanceAs (Decidable (h.refs a ≠ none ∧ h.refs b ≠ none))
  | .destroy a => inferInstanceAs (Decidable (h.refs a ≠ none))
  | .obtainObject i => inferInstanceAs (Decidable (h.status i = .blank ∨ h.status i = .pooled))

/-- Some set of items has the item, if it is in use, and the home of `a`, if it is; and each item of the set has a
counting reference other than `a` that is in no item, or in one of the set, or in one that nothing counts in. -/
def ReleaseKeeps (L : Layout I R) (h : Heap I R) (a : R) (item : Option I) : Prop :=
  ∃ S : I → Prop, Supported L S (· = a) h ∧ HomeKept L S h a ∧ ∀ i, item = some i → h.status i = .inUse → S i

/-- `SetRef` does not stop to count in the item that is set, and if it switches items, the release of the old one keeps
the new one. -/
def SetKeeps (L : Layout I R) (h : Heap I R) (a : R) (item : Option I) (doRefCount : Bool) : Prop :=
  ∀ ref, h.refs a = some ref →
    if item = ref.item then item ≠ none → ref.doRefCount = true → doRefCount = true else ReleaseKeeps L h a item

/-- An operation does not go wrong. A generic reference that is `NULL` is only given to one that is. -/
def Step.Keeps (L : Layout I R) (h : Heap I R) : Step I R → Prop
  | .assign a b => a = b ∨ ∀ ref, h.refs b = some ref → SetKeeps L h a ref.item ref.doRefCount
  | .setRef a item doRefCount => SetKeeps L h a item doRefCount
  | .setFromGeneric a g => ∀ ref, h.refs g = some ref →
    (ref.item = none → ∀ old, h.refs a = some old → old.item = none) ∧
      ∀ i, ref.item = some i → L.isA a i = true → SetKeeps L h a (some i) ref.doRefCount
  | .reset a => ReleaseKeeps L h a none
  | .destroy a => ReleaseKeeps L h a none
  | _ => True

/-- What an operation is for. -/
def Step.Follows (L : Layout I R) (h h' : Heap I R) : Step I R → Prop
  | .construct r item doRefCount => h'.refs r = some ⟨item, doRefCount⟩
  | .copyConstruct r b => h'.refs r = h.refs b
  | .constructFromGeneric r g => ∀ ref, h.refs g = some ref → Heap.converts L r ref.item = true →
    (h'.refs r).map Ref.item = some ref.item
  | .assign a b => h'.refs a = h.refs b
  | .setRef a item doRefCount => h'.refs a = some ⟨item, doRefCount⟩
  | .setFromGeneric a g => ∀ ref, h.refs g = some ref → Heap.converts L a ref.item = true →
    (h'.refs a).map Ref.item = some ref.item
  | .reset a => (h'.refs a).map Ref.item = some none
  | .swapContents a b => h'.refs a = h.refs b ∧ h'.refs b = h.refs a
  | .destroy a => h'.refs a = none
  | .obtainObject i => h'.status i = .fresh

variable [Fintype I]

/-- Each step meets a condition on the memory that it is taken in. -/
def StepsMeet (L : Layout I R) (P : Heap I R → Step I R → Prop) : List (Step I R) → Heap I R → Prop
  | [], _ => True
  | s :: rest, h => P h s ∧ ∀ h' ∈ h.step L s, StepsMeet L P rest h'

/-- Each operation's steps do. -/
def OpsMeet (L : Layout I R) (P : Heap I R → Step I R → Prop) : List (Op I R) → Heap I R → Prop
  | [], _ => True
  | op :: rest, h => StepsMeet L P (op.steps L h) h ∧
    ∀ h' ∈ h.perform L op, OpsMeet L P rest h'

instance StepsMeet.instDecidable (L : Layout I R) (P : Heap I R → Step I R → Prop) [∀ h s, Decidable (P h s)] :
    (steps : List (Step I R)) → (h : Heap I R) → Decidable (StepsMeet L P steps h)
  | [], _ => isTrue trivial
  | s :: rest, h =>
    have := fun h' => StepsMeet.instDecidable L P rest h'
    inferInstanceAs (Decidable (P h s ∧ ∀ h' ∈ h.step L s, StepsMeet L P rest h'))

instance OpsMeet.instDecidable (L : Layout I R) (P : Heap I R → Step I R → Prop) [∀ h s, Decidable (P h s)] :
    (ops : List (Op I R)) → (h : Heap I R) → Decidable (OpsMeet L P ops h)
  | [], _ => isTrue trivial
  | op :: rest, h =>
    have := fun h' => OpsMeet.instDecidable L P rest h'
    inferInstanceAs (Decidable (StepsMeet L P (op.steps L h) h ∧
      ∀ h' ∈ h.perform L op, OpsMeet L P rest h'))

variable [Fintype R]

/-- The steps succeed, each does what it is for and releases the items that lose their last count, and the counts are
right all the time. -/
def StepsGood (L : Layout I R) : List (Step I R) → Heap I R → Prop
  | [], h => h.Consistent ∅
  | s :: rest, h => h.Consistent ∅ ∧ ∃ h', h.step L s = some h' ∧ s.Follows L h h' ∧ ReleasesOnce h h' ∧
    StepsGood L rest h'

def OpsGood (L : Layout I R) : List (Op I R) → Heap I R → Prop
  | [], h => h.Consistent ∅
  | op :: rest, h => StepsGood L (op.steps L h) h ∧
    ∃ h', h.perform L op = some h' ∧ OpsGood L rest h'

/-! ### Single steps -/

variable {L : Layout I R} {h : Heap I R} {a : R} {ref : Ref I} {item : Option I} {doRefCount : Bool}

omit [Fintype I] in
/-- A reference that does not count releases nothing. -/
theorem releaseKeeps_of_idle (hCons : h.Consistent ∅) (hIdle : ∀ i, h.refs a ≠ some ⟨some i, true⟩) :
    ReleaseKeeps L h a item := by
  refine ⟨fun i => h.status i = .inUse, fun z hz => ?_, fun j _ hUse => hUse, fun i _ hUse => hUse⟩
  obtain ⟨b, hb⟩ := (hCons.inUse z).mp hz
  have hRef := (Heap.mem_countingRefs.mp hb).2
  exact ⟨b, fun hNo => hIdle z (hNo ▸ hRef), hRef, fun j _ hUse => hUse⟩

theorem unref_spec (hCons : h.Consistent ∅) (hRef : h.refs a = some ref) (hKeeps : ReleaseKeeps L h a item) :
    ∃ h', h.unref L a = some h' ∧ h'.Consistent ∅ ∧ h'.refs a = some { ref with item := none } ∧
      (Usable h item → Usable h' item) ∧ ReleasesOnce h h' := by
  obtain ⟨S, hSupported, hHome, hItem⟩ := hKeeps
  have hMay : MayUnref L S ∅ (· = a) h a := by
    refine ⟨hCons, by rw [hRef]; exact Option.some_ne_none _, Finset.notMem_empty a,
      ⟨rfl, fun d hd => absurd hd (Finset.notMem_empty d)⟩, hSupported, fun d hd => ?_⟩
    rcases hd with rfl | hNo
    · exact hHome
    · exact absurd hNo (Finset.notMem_empty d)
  obtain ⟨h', hRun, hCons', hFrame, hNull⟩ := unrefItem_spec (Fintype.card I + 1) ∅ (· = a) h a hMay
    (Nat.lt_succ_of_le (Finset.card_le_univ _))
  refine ⟨h', hRun, hCons', hNull ref hRef, fun hUsable => ?_, hFrame.released⟩
  cases item with
  | none => trivial
  | some i =>
    rcases hUsable with hFresh | hUse
    · refine .inl ((hFrame.status i ?_).trans hFresh)
      rw [hFresh]
      decide
    · exact .inr (hFrame.kept i (hItem i rfl hUse) hUse)

omit [Fintype I] [Fintype R] in
theorem point_refs_self (h : Heap I R) (a : R) (item : Option I) (doRefCount : Bool) :
    (h.point a item doRefCount).refs a = some ⟨item, doRefCount⟩ := by
  unfold Heap.point
  split <;> exact Heap.put_refs_self ..

omit [Fintype I] [Fintype R] in
theorem point_status (h : Heap I R) (a : R) (item : Option I) (doRefCount : Bool) :
    (h.point a item doRefCount).releases = h.releases ∧
      ∀ i, h.status i ≠ .fresh → (h.point a item doRefCount).status i = h.status i := by
  unfold Heap.point
  split
  next j =>
    refine ⟨rfl, fun i hNot => ?_⟩
    rw [Heap.increment_status, Heap.put_status]
    refine if_neg fun hNo => hNot ?_
    rw [hNo.1, hNo.2]
  next => exact ⟨rfl, fun _ _ => rfl⟩

omit [Fintype I] [Fintype R] in
theorem ReleasesOnce.point {h' : Heap I R} (hOnce : ReleasesOnce h h') (a : R) (item : Option I) (doRefCount : Bool) :
    ReleasesOnce h (h'.point a item doRefCount) :=
  hOnce.then_same (point_status h' a item doRefCount).1 (point_status h' a item doRefCount).2

omit [DecidableEq I] [Fintype I] [Fintype R] in
theorem ReleasesOnce.put {h' : Heap I R} (hOnce : ReleasesOnce h h') (a : R) (ref : Option (Ref I)) :
    ReleasesOnce h (h'.put a ref) :=
  hOnce.then_same rfl fun _ _ => rfl

omit [DecidableEq I] [DecidableEq R] [Fintype I] [Fintype R] in
theorem ReleasesOnce.refl (h : Heap I R) : ReleasesOnce h h :=
  releasesOnce_of_same rfl fun _ hUse => hUse

omit [Fintype I] in
/-- A reference that did not count is pointed to an item. -/
theorem point_consistent (hCons : h.Consistent ∅) (hIdle : ∀ i, h.refs a ≠ some ⟨some i, true⟩)
    (hUsable : doRefCount = true → Usable h item) : (h.point a item doRefCount).Consistent ∅ := by
  have hNoCount : (∀ i, some (⟨item, doRefCount⟩ : Ref I) ≠ some ⟨some i, true⟩) →
      (h.put a (some ⟨item, doRefCount⟩)).Consistent ∅ := fun hNew =>
    hCons.put_idle (fun _ _ => Iff.rfl) (.inr hIdle) hNew
  unfold Heap.point
  split
  next i =>
    have hSet : ∀ j, ((h.put a (some ⟨some i, true⟩)).increment i).countingRefs ∅ j =
        if j = i then insert a (h.countingRefs ∅ j) else h.countingRefs ∅ j := by
      intro j
      ext q
      rw [Heap.mem_countingRefs]
      change q ∉ (∅ : Finset R) ∧ (h.put a (some ⟨some i, true⟩)).refs q = some ⟨some j, true⟩ ↔ _
      by_cases hq : q = a
      · subst hq
        rw [Heap.put_refs_self]
        by_cases hj : j = i
        · subst hj
          rw [if_pos rfl]
          simp
        · rw [if_neg hj, Heap.mem_countingRefs]
          refine iff_of_false (fun hNo => hj ?_) (fun hNo => hIdle j hNo.2)
          have hBoth := hNo.2
          simp only [Option.some.injEq, Ref.mk.injEq, and_true] at hBoth
          exact hBoth.symm
      · rw [Heap.put_refs_ne h hq]
        by_cases hj : j = i
        · rw [if_pos hj, Finset.mem_insert, Heap.mem_countingRefs]
          exact ⟨.inr, fun hIn => hIn.resolve_left hq⟩
        · rw [if_neg hj, Heap.mem_countingRefs]
    have hNew : a ∉ h.countingRefs ∅ i := fun hNo => hIdle i (Heap.mem_countingRefs.mp hNo).2
    refine ⟨fun j => ?_, fun j => ?_⟩
    · rw [hSet]
      have hCount := hCons.count j
      unfold Heap.increment
      by_cases hj : j = i
      · subst hj
        rw [if_pos rfl, Finset.card_insert_of_notMem hNew]
        simp only [Heap.put_count, Function.update_self]
        omega
      · rw [if_neg hj]
        simp only [Heap.put_count, Function.update_of_ne hj]
        exact hCount
    · rw [hSet, Heap.increment_status, Heap.put_status]
      by_cases hj : j = i
      · subst hj
        rw [if_pos rfl]
        refine iff_of_true ?_ ⟨a, Finset.mem_insert_self ..⟩
        rcases hUsable rfl with hFresh | hUse
        · exact if_pos ⟨rfl, hFresh⟩
        · rw [hUse, if_neg (by simp)]
      · rw [if_neg hj, if_neg (fun hNo => hj hNo.1)]
        exact hCons.inUse j
  next hNot =>
    refine hNoCount fun i hNo => ?_
    have hBoth := Option.some.inj hNo
    injection hBoth with hItem hCount
    exact hNot i hItem hCount

theorem setRef_spec (hCons : h.Consistent ∅) (hRef : h.refs a = some ref) (hUsable : doRefCount = true → Usable h item)
    (hKeeps : SetKeeps L h a item doRefCount) :
    ∃ h', h.setRef L a item doRefCount = some h' ∧ h'.Consistent ∅ ∧ h'.refs a = some ⟨item, doRefCount⟩ ∧
      ReleasesOnce h h' := by
  have hKept := hKeeps ref hRef
  unfold Heap.setRef
  rw [hRef, Option.bind_some]
  by_cases hSame : item = ref.item
  · rw [if_pos hSame] at hKept ⊢
    by_cases hMode : doRefCount = ref.doRefCount
    · rw [if_pos hMode]
      refine ⟨h, rfl, hCons, ?_, .refl h⟩
      rw [hRef, hSame, hMode]
    · rw [if_neg hMode]
      cases doRefCount with
      | true =>
        have hOff : ref.doRefCount = false := by
          cases hOld : ref.doRefCount with
          | false => rfl
          | true => exact absurd hOld.symm hMode
        rw [if_pos rfl]
        refine ⟨_, rfl, point_consistent hCons (fun i hNo => ?_) hUsable, point_refs_self ..,
          (ReleasesOnce.refl h).point _ _ _⟩
        rw [hRef] at hNo
        rw [Option.some.inj hNo] at hOff
        cases hOff
      | false =>
        -- Only a reference without an item gets here.
        have hOn : ref.doRefCount = true := by
          cases hOld : ref.doRefCount with
          | true => rfl
          | false => exact absurd hOld.symm hMode
        have hNone : item = none := by
          by_contra hSome
          exact absurd (hKept hSome hOn) Bool.false_ne_true
        have hIdle : ∀ i, h.refs a ≠ some ⟨some i, true⟩ := fun i hNo => by
          rw [hRef] at hNo
          rw [hSame, Option.some.inj hNo] at hNone
          cases hNone
        have hNothing : ReleaseKeeps L h a none := releaseKeeps_of_idle hCons hIdle
        obtain ⟨h', hRun, hCons', hNull, -, hOnce⟩ := unref_spec hCons hRef hNothing
        rw [if_neg Bool.false_ne_true, hRun, Option.bind_some, hNull, Option.map_some]
        refine ⟨_, rfl, hCons'.put_idle (fun _ _ => Iff.rfl) (.inr fun i => ?_) (fun i => ?_), ?_, hOnce.put _ _⟩
        · rw [hNull]
          simp
        · simp
        · rw [Heap.put_refs_self, hNone]
  · rw [if_neg hSame] at hKept ⊢
    obtain ⟨h', hRun, hCons', hNull, hUsable', hOnce⟩ := unref_spec hCons hRef hKept
    rw [hRun, Option.map_some]
    refine ⟨_, rfl, point_consistent hCons' (fun i => ?_) (fun hCount => hUsable' (hUsable hCount)), point_refs_self ..,
      hOnce.point _ _ _⟩
    rw [hNull]
    simp

omit [Fintype I] in
/-- What a reference counts in is in use. -/
theorem usable_of_ref {b : R} (hCons : h.Consistent ∅) (hRef : h.refs b = some ref) (hCount : ref.doRefCount = true) :
    Usable h ref.item := by
  obtain ⟨item, doRefCount⟩ := ref
  cases item with
  | none => trivial
  | some i =>
    cases hCount
    exact .inr ((hCons.inUse i).mpr ⟨b, Heap.mem_countingRefs.mpr ⟨Finset.notMem_empty b, hRef⟩⟩)

omit [Fintype I] in
theorem swapContents_consistent (hCons : h.Consistent ∅) (a b : R) :
    ((h.put a (h.refs b)).put b (h.refs a)).Consistent ∅ := by
  have hRefs : ∀ q, ((h.put a (h.refs b)).put b (h.refs a)).refs q = h.refs (Equiv.swap a b q) := by
    intro q
    by_cases hqb : q = b
    · subst hqb
      rw [Heap.put_refs_self, Equiv.swap_apply_right]
    · rw [Heap.put_refs_ne _ hqb]
      by_cases hqa : q = a
      · subst hqa
        rw [Heap.put_refs_self, Equiv.swap_apply_left]
      · rw [Heap.put_refs_ne _ hqa, Equiv.swap_apply_of_ne_of_ne hqa hqb]
  have hMem : ∀ i q, q ∈ ((h.put a (h.refs b)).put b (h.refs a)).countingRefs ∅ i ↔
      Equiv.swap a b q ∈ h.countingRefs ∅ i := by
    intro i q
    rw [Heap.mem_countingRefs, Heap.mem_countingRefs, hRefs]
    simp
  refine ⟨fun i => ?_, fun i => (hCons.inUse i).trans ⟨?_, ?_⟩⟩
  · rw [Finset.card_equiv (Equiv.swap a b) (hMem i)]
    exact hCons.count i
  · rintro ⟨q, hq⟩
    refine ⟨Equiv.swap a b q, (hMem i _).mpr ?_⟩
    rw [Equiv.swap_apply_self]
    exact hq
  · rintro ⟨q, hq⟩
    exact ⟨_, (hMem i q).mp hq⟩

/-! ### Steps and runs -/

theorem setFromGeneric_spec {g : R} {old : Ref I} (hCons : h.Consistent ∅) (hOld : h.refs a = some old)
    (hRef : h.refs g = some ref) (hNull : ref.item = none → old.item = none)
    (hKeeps : ∀ i, ref.item = some i → L.isA a i = true → SetKeeps L h a (some i) ref.doRefCount) :
    ∃ h', h.setFromGeneric L a g = some h' ∧ h'.Consistent ∅ ∧
      (Heap.converts L a ref.item = true → (h'.refs a).map Ref.item = some ref.item) ∧ ReleasesOnce h h' := by
  have hUsable := usable_of_ref hCons hRef
  unfold Heap.setFromGeneric
  rw [hRef, Option.bind_some]
  cases hItem : ref.item with
  | none =>
    refine ⟨h, rfl, hCons, fun _ => ?_, .refl h⟩
    rw [hOld, Option.map_some, hNull hItem]
  | some i =>
    rw [hItem] at hUsable
    dsimp only
    by_cases hType : L.isA a i = true
    · obtain ⟨h', hRun, hCons', hPoints, hOnce⟩ := setRef_spec hCons hOld hUsable (hKeeps i hItem hType)
      rw [if_pos hType, hRun]
      refine ⟨h', rfl, hCons', fun _ => ?_, hOnce⟩
      rw [hPoints, Option.map_some]
    · rw [if_neg hType]
      exact ⟨h, rfl, hCons, fun hConverts => absurd hConverts hType, .refl h⟩

omit [Fintype I] in
/-- A reference that was just constructed, as `NULL`. -/
theorem construct_null (hCons : h.Consistent ∅) (hNew : h.refs a = none) :
    (h.put a (some ⟨none, true⟩)).Consistent ∅ ∧
      ∀ item doRefCount, SetKeeps L (h.put a (some ⟨none, true⟩)) a item doRefCount := by
  have hCons' : (h.put a (some ⟨none, true⟩)).Consistent ∅ :=
    hCons.put_idle (fun _ _ => Iff.rfl) (.inr fun i => by rw [hNew]; exact nofun) (fun i => by simp)
  refine ⟨hCons', fun item doRefCount ref hRef => ?_⟩
  rw [Heap.put_refs_self] at hRef
  obtain rfl := Option.some.inj hRef
  split
  next hSame => exact fun hSome => absurd hSame hSome
  next =>
    refine releaseKeeps_of_idle hCons' fun i => ?_
    rw [Heap.put_refs_self]
    simp

/-- What one operation does, if it does not go wrong. -/
theorem step_good (hCons : h.Consistent ∅) (s : Step I R) (hMay : s.MayRun h) (hKeeps : s.Keeps L h) :
    ∃ h', h.step L s = some h' ∧ h'.Consistent ∅ ∧ s.Follows L h h' ∧ ReleasesOnce h h' := by
  cases s with
  | construct r item doRefCount =>
    refine ⟨_, rfl, point_consistent hCons (fun i => ?_) hMay.2, point_refs_self .., (ReleasesOnce.refl h).point _ _ _⟩
    rw [hMay.1]
    exact nofun
  | copyConstruct r b =>
    obtain ⟨hNew, hThere⟩ := hMay
    obtain ⟨ref, hRef⟩ := Option.ne_none_iff_exists'.mp hThere
    have hNe : b ≠ r := fun hNo => hThere (hNo ▸ hNew)
    obtain ⟨hCons', hSets⟩ := construct_null (L := L) hCons hNew
    have hRef' : (h.put r (some ⟨none, true⟩)).refs b = some ref := (Heap.put_refs_ne h hNe _).trans hRef
    obtain ⟨h', hRun, hDone, hPoints, hOnce⟩ := setRef_spec hCons' (Heap.put_refs_self ..) (usable_of_ref hCons' hRef')
      (hSets ref.item ref.doRefCount)
    refine ⟨h', ?_, hDone, hPoints.trans hRef.symm, hOnce⟩
    show (h.put r (some ⟨none, true⟩)).assign L r b = some h'
    unfold Heap.assign
    rw [if_neg (Ne.symm hNe), hRef', Option.bind_some, hRun]
  | constructFromGeneric r g =>
    obtain ⟨hNew, hThere⟩ := hMay
    obtain ⟨ref, hRef⟩ := Option.ne_none_iff_exists'.mp hThere
    have hNe : g ≠ r := fun hNo => hThere (hNo ▸ hNew)
    obtain ⟨hCons', hSets⟩ := construct_null (L := L) hCons hNew
    have hRef' : (h.put r (some ⟨none, true⟩)).refs g = some ref := (Heap.put_refs_ne h hNe _).trans hRef
    obtain ⟨h', hRun, hDone, hPoints, hOnce⟩ :=
      setFromGeneric_spec (L := L) hCons' (Heap.put_refs_self ..) hRef' (fun _ => rfl)
      (fun i _ _ => hSets (some i) ref.doRefCount)
    refine ⟨h', hRun, hDone, fun found hFound hConverts => ?_, hOnce⟩
    obtain rfl := Option.some.inj (hFound.symm.trans hRef)
    exact hPoints hConverts
  | assign a b =>
    obtain ⟨old, hOld⟩ := Option.ne_none_iff_exists'.mp hMay.1
    obtain ⟨ref, hRef⟩ := Option.ne_none_iff_exists'.mp hMay.2
    show ∃ h', h.assign L a b = some h' ∧ h'.Consistent ∅ ∧ h'.refs a = h.refs b ∧ ReleasesOnce h h'
    unfold Heap.assign
    by_cases hSelf : a = b
    · rw [if_pos hSelf, hSelf]
      exact ⟨h, rfl, hCons, rfl, .refl h⟩
    · obtain ⟨h', hRun, hDone, hPoints, hOnce⟩ := setRef_spec hCons hOld (usable_of_ref hCons hRef)
        (hKeeps.resolve_left hSelf ref hRef)
      rw [if_neg hSelf, hRef, Option.bind_some, hRun]
      exact ⟨h', rfl, hDone, hPoints, hOnce⟩
  | setRef a item doRefCount =>
    obtain ⟨old, hOld⟩ := Option.ne_none_iff_exists'.mp hMay.1
    exact setRef_spec hCons hOld hMay.2 hKeeps
  | setFromGeneric a g =>
    obtain ⟨old, hOld⟩ := Option.ne_none_iff_exists'.mp hMay.1
    obtain ⟨ref, hRef⟩ := Option.ne_none_iff_exists'.mp hMay.2
    obtain ⟨hNull, hSets⟩ := hKeeps ref hRef
    obtain ⟨h', hRun, hDone, hPoints, hOnce⟩ :=
      setFromGeneric_spec hCons hOld hRef (fun hNone => hNull hNone old hOld) hSets
    refine ⟨h', hRun, hDone, fun found hFound hConverts => ?_, hOnce⟩
    obtain rfl := Option.some.inj (hFound.symm.trans hRef)
    exact hPoints hConverts
  | reset a =>
    obtain ⟨old, hOld⟩ := Option.ne_none_iff_exists'.mp hMay
    obtain ⟨h', hRun, hDone, hNull, -, hOnce⟩ := unref_spec hCons hOld hKeeps
    refine ⟨h', hRun, hDone, ?_, hOnce⟩
    show (h'.refs a).map Ref.item = some none
    rw [hNull, Option.map_some]
  | swapContents a b =>
    refine ⟨_, rfl, swapContents_consistent hCons a b, ⟨?_, Heap.put_refs_self ..⟩,
      releasesOnce_of_same rfl fun _ hUse => hUse⟩
    by_cases hSelf : a = b
    · rw [hSelf, Heap.put_refs_self]
    · rw [Heap.put_refs_ne _ hSelf, Heap.put_refs_self]
  | destroy a =>
    obtain ⟨old, hOld⟩ := Option.ne_none_iff_exists'.mp hMay
    obtain ⟨h', hRun, hDone, hNull, -, hOnce⟩ := unref_spec hCons hOld hKeeps
    refine ⟨h'.put a none, ?_, hDone.put_idle (fun _ _ => Iff.rfl) (.inr fun i => ?_) (fun i => by simp),
      Heap.put_refs_self .., hOnce.put _ _⟩
    · show (h.unref L a).map _ = _
      rw [hRun, Option.map_some]
    · rw [hNull]
      simp
  | obtainObject i =>
    have hNot : h.status i ≠ .inUse := not_inUse_of_mayObtain hMay
    refine ⟨_, rfl, hCons.setStatus hNot (by decide), Heap.setStatus_self .., releasesOnce_of_same rfl fun j hUse => ?_⟩
    have hj : j ≠ i := fun hNo => hNot (hNo ▸ hUse)
    exact (Heap.setStatus_ne h hj _).trans hUse

/-- The condition on a step: what any caller owes, and that it does not go wrong. -/
def StepMeets (L : Layout I R) (h : Heap I R) (s : Step I R) : Prop :=
  s.MayRun h ∧ s.Keeps L h

theorem steps_good (steps : List (Step I R)) (h : Heap I R) (hCons : h.Consistent ∅)
    (hMeet : StepsMeet L (StepMeets L) steps h) :
    StepsGood L steps h ∧ ∃ h', steps.foldlM (Heap.step L) h = some h' ∧ h'.Consistent ∅ := by
  induction steps generalizing h with
  | nil => exact ⟨hCons, h, rfl, hCons⟩
  | cons s rest ih =>
    obtain ⟨⟨hMay, hKeeps⟩, hRest⟩ := hMeet
    obtain ⟨h₁, hStep, hCons₁, hFollows, hOnce⟩ := step_good hCons s hMay hKeeps
    obtain ⟨hGood, h', hRun, hDone⟩ := ih h₁ hCons₁ (hRest h₁ hStep)
    exact ⟨⟨hCons, h₁, hStep, hFollows, hOnce, hGood⟩, h', Lib.foldlM_cons_eq_some.mpr ⟨h₁, hStep, hRun⟩, hDone⟩

/-- What the last step of a good run leaves. -/
theorem OpsGood.last {ops : List (Op I R)} {s : Step I R} (hGood : OpsGood L (ops ++ [.step s]) h) :
    ∃ h₁ h₂, Heap.run L ops h = some h₁ ∧ h₁.step L s = some h₂ ∧
      s.Follows L h₁ h₂ ∧ h₂.Consistent ∅ := by
  induction ops generalizing h with
  | nil =>
    obtain ⟨⟨-, h', hStep, hFollows, -, hCons⟩, -⟩ := hGood
    exact ⟨h, h', rfl, hStep, hFollows, hCons⟩
  | cons op rest ih =>
    obtain ⟨-, h', hRun, hRest⟩ := hGood
    obtain ⟨h₁, h₂, hRun', hLast⟩ := ih hRest
    exact ⟨h₁, h₂, Lib.foldlM_cons_eq_some.mpr ⟨h', hRun, hRun'⟩, hLast⟩

/-- Of two items, the first has one reference as a member. -/
def chainMembers (i : Fin 2) : List (Fin 3) :=
  if i = 0 then [1] else []

def chainHome (r : Fin 3) : Option (Fin 2) :=
  if r = 1 then some 0 else none

theorem mem_chainMembers : ∀ i r, r ∈ chainMembers i ↔ chainHome r = some i := by decide

def chain : Layout (Fin 2) (Fin 3) where
  members := chainMembers
  home := chainHome
  mem_members := mem_chainMembers
  hasManager _ := false
  callbackResets _ := false
  hasRoom _ _ := false
  isA _ _ := true

/-- A variable points to the first item, whose member points to the second, as does another variable. -/
def chained : Heap (Fin 2) (Fin 3) where
  refs r := some (if r = 0 then ⟨some 0, true⟩ else ⟨some 1, true⟩)
  count i := if i = 0 then 1 else 2
  status _ := .inUse
  releases _ := 0

/-- A variable is pointed to the first item, and the item's member to the second. -/
def makeChain : List (Op (Fin 2) (Fin 3)) :=
  [.step (.obtainObject 0), .step (.construct 0 (some 0) true), .step (.obtainObject 1),
    .step (.construct 1 (some 1) true)]

end BeShare.Muscle.RefCounts
