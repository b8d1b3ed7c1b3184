import BeShare.Lib.Forest
import Mathlib.Order.Bounds.Basic

/-! `PulseNode`: the times at which the nodes of a forest want to be called, with the earliest below each node. -/

namespace BeShare.Muscle.PulseNode

open BeShare.Lib

/-- `MUSCLE_TIME_NEVER` -/
def timeNever : UInt64 := 0xFFFFFFFFFFFFFFFF

structure Times where
  nextPulseAtValid : Bool
  nextPulseAt : UInt64
  localPulseAtValid : Bool
  localPulseAt : UInt64

variable {Node : Type} [DecidableEq Node]

/-- `InvalidateGroupPulseTime` -/
def invalidateGroupPulseTime (f : Forest Node) (times : Node → Times) (n : Node) : Node → Times :=
  if (times n).nextPulseAtValid then
    let times' := Function.update times n { times n with nextPulseAtValid := false }
    match _h : f.parent n with
    | some p => invalidateGroupPulseTime f times' p
    | none => times'
  else times
termination_by f.wf_up.wrap n

def invalidatePulseTime (f : Forest Node) (times : Node → Times) (n : Node) (clearPrevResult : Bool) : Node → Times :=
  if (times n).localPulseAtValid then
    invalidateGroupPulseTime f (Function.update times n { times n with
      localPulseAtValid := false
      localPulseAt := if clearPrevResult then timeNever else (times n).localPulseAt }) n
  else times

/-- A callback invalidates its own node, each time with this `clearPrevResult`. -/
def invalidations (f : Forest Node) (times : Node → Times) (n : Node) (clearPrevResults : List Bool) : Node → Times :=
  clearPrevResults.foldl (fun times clearPrevResult => invalidatePulseTime f times n clearPrevResult) times

/-- `GetPulseTime`, by the node, `now` and `prevResult`: its result, and how it invalidates its node -/
abbrev GetPulseTime (Node : Type) : Type := Node → UInt64 → UInt64 → UInt64 × List Bool

/-- `Pulse`, by the node, `now` and `scheduledTime`: how it invalidates its node -/
abbrev Pulse (Node : Type) : Type := Node → UInt64 → UInt64 → List Bool

/-- The first part of `GetPulseTimeAux` -/
def updateLocal (f : Forest Node) (getPulseTime : GetPulseTime Node) (now : UInt64) (n : Node) (times : Node → Times) :
    Node → Times :=
  if (times n).localPulseAtValid then times
  else
    let result := getPulseTime n now (times n).localPulseAt
    let times' := invalidations f times n result.2
    Function.update times' n { times' n with localPulseAt := result.1, localPulseAtValid := true }

/-- The times after `GetPulseTimeAux`, and `minPulseTime` -/
def getPulseTimeAux (f : Forest Node) (getPulseTime : GetPulseTime Node) (now : UInt64) (n : Node)
    (state : (Node → Times) × UInt64) : (Node → Times) × UInt64 :=
  let times := updateLocal f getPulseTime now n state.1
  let times :=
    if (times n).nextPulseAtValid then times
    else
      let below := (f.children n).foldl (fun state c => getPulseTimeAux f getPulseTime now c state)
        (times, (times n).localPulseAt)
      Function.update below.1 n { below.1 n with nextPulseAt := below.2, nextPulseAtValid := true }
  (times, if state.2 > (times n).nextPulseAt then (times n).nextPulseAt else state.2)
termination_by f.wf_down.wrap n
decreasing_by exact f.mem_children.mp ‹_›

/-- The times after `PulseAux`, and for which nodes and times `Pulse` has been called -/
def pulseAux (f : Forest Node) (pulse : Pulse Node) (now : UInt64) (n : Node)
    (state : (Node → Times) × List (Node × UInt64)) : (Node → Times) × List (Node × UInt64) :=
  if now ≥ (state.1 n).nextPulseAt then
    let state :=
      if now ≥ (state.1 n).localPulseAt then
        (invalidatePulseTime f (invalidations f state.1 n (pulse n now (state.1 n).localPulseAt)) n false,
          state.2 ++ [(n, (state.1 n).localPulseAt)])
      else state
    (f.children n).foldl (fun state c => pulseAux f pulse now c state) state
  else state
termination_by f.wf_down.wrap n
decreasing_by exact f.mem_children.mp ‹_›

structure Nodes (Node : Type) where
  forest : Forest Node
  times : Node → Times

def start : Nodes Node :=
  ⟨Forest.empty, fun _ => ⟨false, timeNever, false, timeNever⟩⟩

/-- The calls, with what the callbacks do meanwhile -/
inductive Action (Node : Type) where
  | putPulseChild (n child : Node)
  | removePulseChild (n child : Node)
  | clearPulseChildren (n : Node)
  | invalidatePulseTime (n : Node) (clearPrevResult : Bool)
  | getPulseTimeAux (n : Node) (now minPulseTime : UInt64) (getPulseTime : GetPulseTime Node)
  | pulseAux (n : Node) (now : UInt64) (pulse : Pulse Node)

/-- One call. `PutPulseChild` asserts that the child has no parent, and the nodes stay a forest. -/
def step (s : Nodes Node) : Action Node → Nodes Node
  | .putPulseChild n child =>
    if h : s.forest.parent child = none ∧ ¬s.forest.Under child n then
      ⟨s.forest.put n child h.1 h.2, invalidateGroupPulseTime s.forest s.times n⟩
    else s
  | .removePulseChild n child =>
    if h : s.forest.parent child = some n then
      ⟨s.forest.remove n child h, invalidateGroupPulseTime s.forest s.times n⟩
    else s
  | .clearPulseChildren n =>
    if s.forest.children n = [] then s
    else ⟨s.forest.clear n, invalidateGroupPulseTime s.forest s.times n⟩
  | .invalidatePulseTime n clearPrevResult => ⟨s.forest, invalidatePulseTime s.forest s.times n clearPrevResult⟩
  | .getPulseTimeAux n now minPulseTime getPulseTime =>
    ⟨s.forest, (getPulseTimeAux s.forest getPulseTime now n (s.times, minPulseTime)).1⟩
  | .pulseAux n now pulse => ⟨s.forest, (pulseAux s.forest pulse now n (s.times, [])).1⟩

def run (actions : List (Action Node)) : Nodes Node :=
  actions.foldl step start

/-! ### What a valid time says -/

/-- The time of the node is the earliest of its own and those of its children, which are valid. -/
structure Settled (f : Forest Node) (times : Node → Times) (n : Node) : Prop where
  localValid : (times n).localPulseAtValid = true
  children : ∀ c ∈ f.children n, (times c).nextPulseAtValid = true
  le_local : (times n).nextPulseAt ≤ (times n).localPulseAt
  le_children : ∀ c ∈ f.children n, (times n).nextPulseAt ≤ (times c).nextPulseAt
  attained : (times n).nextPulseAt = (times n).localPulseAt ∨
    ∃ c ∈ f.children n, (times n).nextPulseAt = (times c).nextPulseAt

def Inv (f : Forest Node) (times : Node → Times) : Prop :=
  ∀ n, (times n).nextPulseAtValid = true → Settled f times n

/-- All times below the node are valid, and its time is the earliest of them. -/
structure UpToDate (f : Forest Node) (times : Node → Times) (n : Node) : Prop where
  valid : ∀ m, f.Under n m → (times m).nextPulseAtValid = true ∧ (times m).localPulseAtValid = true
  least : IsLeast {time | ∃ m, f.Under n m ∧ (times m).localPulseAt = time} (times n).nextPulseAt

variable {f : Forest Node} {times times' : Node → Times} {n m c : Node}

omit [DecidableEq Node] in
theorem Inv.upToDate (h : Inv f times) (hValid : (times n).nextPulseAtValid = true) : UpToDate f times n := by
  induction n using f.wf_down.induction with
  | h n ih =>
    have hSettled := h n hValid
    have hChild (c : Node) (hc : c ∈ f.children n) : UpToDate f times c :=
      ih c (f.mem_children.mp hc) (hSettled.children c hc)
    refine ⟨fun m hm => ?_, ?_, fun time htime => ?_⟩
    · rcases Forest.under_iff.mp hm with rfl | ⟨c, hc, hUnder⟩
      · exact ⟨hValid, hSettled.localValid⟩
      · exact (hChild c hc).valid m hUnder
    · rcases hSettled.attained with hLocal | ⟨c, hc, hTime⟩
      · exact ⟨n, .refl, hLocal.symm⟩
      · obtain ⟨m, hm, hLocal⟩ := (hChild c hc).least.1
        exact ⟨m, Forest.under_iff.mpr (.inr ⟨c, hc, hm⟩), hLocal.trans hTime.symm⟩
    · obtain ⟨m, hm, rfl⟩ := htime
      rcases Forest.under_iff.mp hm with rfl | ⟨c, hc, hUnder⟩
      · exact hSettled.le_local
      · exact UInt64.le_trans (hSettled.le_children c hc) ((hChild c hc).least.2 ⟨m, hUnder, rfl⟩)

omit [DecidableEq Node] in
theorem Settled.congr {f' : Forest Node} (h : Settled f times n) (hHere : times' n = times n)
    (hChildren : f'.children n = f.children n)
    (hBelow : ∀ c ∈ f.children n, (times' c).nextPulseAtValid = (times c).nextPulseAtValid ∧
      (times' c).nextPulseAt = (times c).nextPulseAt) : Settled f' times' n where
  localValid := hHere ▸ h.localValid
  children c hc := by
    rw [hChildren] at hc
    rw [(hBelow c hc).1]
    exact h.children c hc
  le_local := hHere ▸ h.le_local
  le_children c hc := by
    rw [hChildren] at hc
    rw [hHere, (hBelow c hc).2]
    exact h.le_children c hc
  attained := by
    rw [hHere, hChildren]
    refine h.attained.imp_right fun ⟨c, hc, hTime⟩ => ⟨c, hc, ?_⟩
    rw [(hBelow c hc).2]
    exact hTime

/-! ### Invalid times -/

/-- Only nodes above are invalidated, and nothing else changes. -/
structure Invalidates (times times' : Node → Times) : Prop where
  nextPulseAt : ∀ m, (times' m).nextPulseAt = (times m).nextPulseAt
  localPulseAtValid : ∀ m, (times' m).localPulseAtValid = (times m).localPulseAtValid
  localPulseAt : ∀ m, (times' m).localPulseAt = (times m).localPulseAt

omit [DecidableEq Node] in
theorem Invalidates.trans {times'' : Node → Times} (h : Invalidates times times') (h' : Invalidates times' times'') :
    Invalidates times times'' where
  nextPulseAt m := (h'.nextPulseAt m).trans (h.nextPulseAt m)
  localPulseAtValid m := (h'.localPulseAtValid m).trans (h.localPulseAtValid m)
  localPulseAt m := (h'.localPulseAt m).trans (h.localPulseAt m)

/-- The node's own part of `InvalidateGroupPulseTime` -/
def invalidated (times : Node → Times) (n : Node) : Node → Times :=
  Function.update times n { times n with nextPulseAtValid := false }

theorem invalidated_self : (invalidated times n n).nextPulseAtValid = false := by
  rw [invalidated, Function.update_self]

theorem invalidated_of_ne (h : m ≠ n) : invalidated times n m = times m :=
  Function.update_of_ne h _ _

theorem invalidates_invalidated (times : Node → Times) (n : Node) : Invalidates times (invalidated times n) := by
  unfold invalidated
  refine ⟨fun m => ?_, fun m => ?_, fun m => ?_⟩ <;>
  · by_cases hm : m = n
    · subst hm
      rw [Function.update_self]
    · rw [Function.update_of_ne hm]

theorem group_of_invalid (h : (times n).nextPulseAtValid = false) : invalidateGroupPulseTime f times n = times := by
  rw [invalidateGroupPulseTime, h]
  rfl

theorem group_of_root (h : (times n).nextPulseAtValid = true) (hParent : f.parent n = none) :
    invalidateGroupPulseTime f times n = invalidated times n := by
  rw [invalidateGroupPulseTime, if_pos h]
  dsimp only
  split
  · next p hp => cases hParent.symm.trans hp
  · rfl

theorem group_of_parent {p : Node} (h : (times n).nextPulseAtValid = true) (hParent : f.parent n = some p) :
    invalidateGroupPulseTime f times n = invalidateGroupPulseTime f (invalidated times n) p := by
  rw [invalidateGroupPulseTime, if_pos h]
  dsimp only
  split
  · next q hq => rw [Option.some.inj (hParent.symm.trans hq), invalidated]
  · next hNone => cases hParent.symm.trans hNone

/-- What the node's own part keeps, all of `InvalidateGroupPulseTime` keeps. -/
theorem group_induct {P : (Node → Times) → Node → (Node → Times) → Prop}
    (hInvalid : ∀ times n, (times n).nextPulseAtValid = false → P times n times)
    (hRoot : ∀ times n, (times n).nextPulseAtValid = true → f.parent n = none → P times n (invalidated times n))
    (hParent : ∀ times n p result, (times n).nextPulseAtValid = true → f.parent n = some p →
      P (invalidated times n) p result → P times n result) (times : Node → Times) (n : Node) :
    P times n (invalidateGroupPulseTime f times n) := by
  induction n using f.wf_up.induction generalizing times with
  | h n ih =>
    cases hValid : (times n).nextPulseAtValid with
    | false =>
      rw [group_of_invalid hValid]
      exact hInvalid times n hValid
    | true =>
      cases hUp : f.parent n with
      | none =>
        rw [group_of_root hValid hUp]
        exact hRoot times n hValid hUp
      | some p =>
        rw [group_of_parent hValid hUp]
        exact hParent times n p _ hValid hUp (ih p hUp _)

theorem invalidates_group (f : Forest Node) (times : Node → Times) (n : Node) :
    Invalidates times (invalidateGroupPulseTime f times n) :=
  group_induct (P := fun times _ result => Invalidates times result)
    (fun _ _ _ => ⟨fun _ => rfl, fun _ => rfl, fun _ => rfl⟩)
    (fun times n _ _ => invalidates_invalidated times n)
    (fun times n _ _ _ _ ih => (invalidates_invalidated times n).trans ih) times n

/-- After its own part, the parent of the node may be the only one whose valid time is wrong. -/
theorem settled_invalidated (h : ∀ m, m ≠ n → (times m).nextPulseAtValid = true → Settled f times m)
    (hParent : f.parent n ≠ some m) (hm : (invalidated times n m).nextPulseAtValid = true) :
    Settled f (invalidated times n) m := by
  have hNe : m ≠ n := by
    rintro rfl
    rw [invalidated_self] at hm
    cases hm
  rw [invalidated_of_ne hNe] at hm
  refine (h m hNe hm).congr (invalidated_of_ne hNe) rfl fun c hc => ?_
  have hcNe : c ≠ n := fun hSame => hParent (f.mem_children.mp (hSame ▸ hc))
  rw [invalidated_of_ne hcNe]
  exact ⟨rfl, rfl⟩

/-- The node may be the only one whose valid time is wrong. -/
theorem inv_group : (∀ m, m ≠ n → (times m).nextPulseAtValid = true → Settled f times m) →
    Inv f (invalidateGroupPulseTime f times n) := by
  refine group_induct (P := fun times n result =>
    (∀ m, m ≠ n → (times m).nextPulseAtValid = true → Settled f times m) → Inv f result) ?_ ?_ ?_ times n
  · intro times n hInvalid h m hm
    refine h m ?_ hm
    rintro rfl
    cases hInvalid.symm.trans hm
  · exact fun times n _ hRoot h m => settled_invalidated h fun hSome =>
      absurd (hSome.symm.trans hRoot) (Option.some_ne_none _)
  · intro times n p result _ hParent ih h
    exact ih fun m hm => settled_invalidated h fun hSome => hm (Option.some.inj (hSome.symm.trans hParent))

theorem group_invalid : (invalidateGroupPulseTime f times n n).nextPulseAtValid = false := by
  have hStays (times : Node → Times) (p : Node) : (times n).nextPulseAtValid = false →
      (invalidateGroupPulseTime f times p n).nextPulseAtValid = false := by
    have hHere {times : Node → Times} {p : Node} (h : (times n).nextPulseAtValid = false) :
        (invalidated times p n).nextPulseAtValid = false := by
      by_cases hSame : n = p
      · rw [hSame, invalidated_self]
      · rw [invalidated_of_ne hSame]
        exact h
    exact group_induct (P := fun times _ result => (times n).nextPulseAtValid = false →
      (result n).nextPulseAtValid = false) (fun _ _ _ h => h) (fun _ _ _ _ => hHere)
      (fun _ _ _ _ _ _ ih h => ih (hHere h)) times p
  cases hValid : (times n).nextPulseAtValid with
  | false => exact hStays times n hValid
  | true =>
    cases hParent : f.parent n with
    | none =>
      rw [group_of_root hValid hParent]
      exact invalidated_self
    | some p =>
      rw [group_of_parent hValid hParent]
      exact hStays _ p invalidated_self

theorem Inv.group (h : Inv f times) (n : Node) : Inv f (invalidateGroupPulseTime f times n) :=
  inv_group fun m _ => h m

omit [DecidableEq Node] in
/-- The children of one node change, which is invalid. -/
theorem Inv.relink {f' : Forest Node} (h : Inv f times) (hInvalid : (times n).nextPulseAtValid = false)
    (hChildren : ∀ m, m ≠ n → f'.children m = f.children m) : Inv f' times := by
  intro m hm
  have hNe : m ≠ n := by
    rintro rfl
    rw [hInvalid] at hm
    cases hm
  exact (h m hm).congr rfl (hChildren m hNe) fun _ _ => ⟨rfl, rfl⟩

theorem invalidatePulseTime_of_invalid (h : (times n).localPulseAtValid = false) (clearPrevResult : Bool) :
    invalidatePulseTime f times n clearPrevResult = times := by
  unfold invalidatePulseTime
  rw [h]
  rfl

theorem invalidations_of_invalid (h : (times n).localPulseAtValid = false) (clearPrevResults : List Bool) :
    invalidations f times n clearPrevResults = times := by
  induction clearPrevResults with
  | nil => rfl
  | cons clearPrevResult rest ih =>
    unfold invalidations at ih ⊢
    rw [List.foldl_cons, invalidatePulseTime_of_invalid h]
    exact ih

theorem Inv.invalidatePulseTime (h : Inv f times) (n : Node) (clearPrevResult : Bool) :
    Inv f (invalidatePulseTime f times n clearPrevResult) := by
  unfold PulseNode.invalidatePulseTime
  split
  · refine inv_group fun m hNe hm => ?_
    rw [Function.update_of_ne hNe] at hm
    refine (h m hm).congr (Function.update_of_ne hNe _ _) rfl fun c _ => ?_
    by_cases hc : c = n
    · subst hc
      rw [Function.update_self]
      exact ⟨rfl, rfl⟩
    · rw [Function.update_of_ne hc]
      exact ⟨rfl, rfl⟩
  · exact h

theorem Inv.invalidations (h : Inv f times) (n : Node) (clearPrevResults : List Bool) :
    Inv f (invalidations f times n clearPrevResults) := by
  unfold PulseNode.invalidations
  induction clearPrevResults generalizing times with
  | nil => exact h
  | cons clearPrevResult rest ih => exact ih (h.invalidatePulseTime n clearPrevResult)

/-! ### GetPulseTimeAux -/

/-- What `GetPulseTimeAux` leaves of the times: only invalid times below the node change. -/
structure Refreshes (f : Forest Node) (n : Node) (times times' : Node → Times) : Prop where
  inv : Inv f times'
  valid : (times' n).nextPulseAtValid = true
  keeps : ∀ m, (times m).nextPulseAtValid = true → times' m = times m
  aside : ∀ m, ¬f.Under n m → times' m = times m

/-- The same for some children of a node, with the earliest of their times and another one. -/
structure RefreshesAll (f : Forest Node) (l : List Node) (before after : (Node → Times) × UInt64) : Prop where
  inv : Inv f after.1
  valid : ∀ c ∈ l, (after.1 c).nextPulseAtValid = true
  keeps : ∀ m, (before.1 m).nextPulseAtValid = true → after.1 m = before.1 m
  aside : ∀ m, (∀ c ∈ l, ¬f.Under c m) → after.1 m = before.1 m
  le_before : after.2 ≤ before.2
  le_all : ∀ c ∈ l, after.2 ≤ (after.1 c).nextPulseAt
  attained : after.2 = before.2 ∨ ∃ c ∈ l, after.2 = (after.1 c).nextPulseAt

theorem updateLocal_of_ne {getPulseTime : GetPulseTime Node} {now : UInt64} (h : m ≠ n) :
    updateLocal f getPulseTime now n times m = times m := by
  unfold updateLocal
  cases hLocal : (times n).localPulseAtValid with
  | true => rfl
  | false =>
    dsimp only
    rw [if_neg Bool.false_ne_true, Function.update_of_ne h, invalidations_of_invalid hLocal]

theorem updateLocal_self {getPulseTime : GetPulseTime Node} {now : UInt64} :
    (updateLocal f getPulseTime now n times n).localPulseAtValid = true ∧
      (updateLocal f getPulseTime now n times n).nextPulseAtValid = (times n).nextPulseAtValid ∧
      (updateLocal f getPulseTime now n times n).nextPulseAt = (times n).nextPulseAt := by
  unfold updateLocal
  cases hLocal : (times n).localPulseAtValid with
  | true => exact ⟨hLocal, rfl, rfl⟩
  | false =>
    dsimp only
    rw [if_neg Bool.false_ne_true, Function.update_self, invalidations_of_invalid hLocal]
    exact ⟨rfl, rfl, rfl⟩

theorem updateLocal_of_valid {getPulseTime : GetPulseTime Node} {now : UInt64}
    (h : (times n).localPulseAtValid = true) : updateLocal f getPulseTime now n times = times := by
  unfold updateLocal
  rw [if_pos h]

theorem Inv.updateLocal (h : Inv f times) (getPulseTime : GetPulseTime Node) (now : UInt64) (n : Node) :
    Inv f (updateLocal f getPulseTime now n times) := by
  intro m hm
  by_cases hSame : m = n
  · subst hSame
    rw [updateLocal_self.2.1] at hm
    rw [updateLocal_of_valid (h m hm).localValid]
    exact h m hm
  · rw [updateLocal_of_ne hSame] at hm
    refine (h m hm).congr (updateLocal_of_ne hSame) rfl fun c _ => ?_
    by_cases hc : c = n
    · subst hc
      exact updateLocal_self.2
    · rw [updateLocal_of_ne hc]
      exact ⟨rfl, rfl⟩

theorem earlier_le_left (a b : UInt64) : (if a > b then b else a) ≤ a := by
  split
  · next h => exact UInt64.le_of_lt h
  · exact UInt64.le_refl a

theorem earlier_le_right (a b : UInt64) : (if a > b then b else a) ≤ b := by
  split
  · exact UInt64.le_refl b
  · next h => exact UInt64.not_lt.mp h

theorem refreshesAll_foldl {getPulseTime : GetPulseTime Node} {now : UInt64} {l : List Node}
    (hOne : ∀ c ∈ l, ∀ state : (Node → Times) × UInt64, Inv f state.1 →
      Refreshes f c state.1 (getPulseTimeAux f getPulseTime now c state).1 ∧
        (getPulseTimeAux f getPulseTime now c state).2 =
          if state.2 > ((getPulseTimeAux f getPulseTime now c state).1 c).nextPulseAt then
            ((getPulseTimeAux f getPulseTime now c state).1 c).nextPulseAt
          else state.2)
    (state : (Node → Times) × UInt64) (hInv : Inv f state.1) :
    RefreshesAll f l state (l.foldl (fun state c => getPulseTimeAux f getPulseTime now c state) state) := by
  induction l generalizing state with
  | nil =>
    exact ⟨hInv, fun _ h => absurd h List.not_mem_nil, fun _ _ => rfl, fun _ _ => rfl, UInt64.le_refl _,
      fun _ h => absurd h List.not_mem_nil, .inl rfl⟩
  | cons c l ih =>
    rw [List.foldl_cons]
    obtain ⟨hFirst, hTime⟩ := hOne c List.mem_cons_self state hInv
    have hRest := ih (fun d hd => hOne d (List.mem_cons_of_mem _ hd)) _ hFirst.inv
    generalize getPulseTimeAux f getPulseTime now c state = mid at hFirst hTime hRest ⊢
    generalize l.foldl (fun state c => getPulseTimeAux f getPulseTime now c state) mid = last at hRest ⊢
    -- the time of the first child stays as it is while the others are visited
    have hStays : last.1 c = mid.1 c := hRest.keeps c hFirst.valid
    refine ⟨hRest.inv, fun d hd => ?_, fun m hm => ?_, fun m hm => ?_, ?_, fun d hd => ?_, ?_⟩
    · rcases List.mem_cons.mp hd with rfl | hd
      · rw [hStays]
        exact hFirst.valid
      · exact hRest.valid d hd
    · have hMid := hFirst.keeps m hm
      rw [hRest.keeps m (hMid ▸ hm), hMid]
    · rw [hRest.aside m fun d hd => hm d (List.mem_cons_of_mem _ hd), hFirst.aside m (hm c List.mem_cons_self)]
    · refine UInt64.le_trans hRest.le_before ?_
      rw [hTime]
      exact earlier_le_left _ _
    · rcases List.mem_cons.mp hd with rfl | hd
      · rw [hStays]
        refine UInt64.le_trans hRest.le_before ?_
        rw [hTime]
        exact earlier_le_right _ _
      · exact hRest.le_all d hd
    · rcases hRest.attained with hMid | ⟨d, hd, hAt⟩
      · rw [hMid, hTime]
        split
        · refine .inr ⟨c, List.mem_cons_self, ?_⟩
          rw [hStays]
        · exact .inl rfl
      · exact .inr ⟨d, List.mem_cons_of_mem _ hd, hAt⟩

theorem getPulseTimeAux_snd (f : Forest Node) (getPulseTime : GetPulseTime Node) (now : UInt64) (n : Node)
    (state : (Node → Times) × UInt64) :
    (getPulseTimeAux f getPulseTime now n state).2 =
      if state.2 > ((getPulseTimeAux f getPulseTime now n state).1 n).nextPulseAt then
        ((getPulseTimeAux f getPulseTime now n state).1 n).nextPulseAt
      else state.2 := by
  rw [getPulseTimeAux]

/-- The children of an invalid node have been visited, and the node takes its time. -/
theorem RefreshesAll.refreshes {below : (Node → Times) × UInt64}
    (h : RefreshesAll f (f.children n) (times, (times n).localPulseAt) below)
    (hLocal : (times n).localPulseAtValid = true) (hInvalid : (times n).nextPulseAtValid = false) :
    Refreshes f n times
      (Function.update below.1 n { below.1 n with nextPulseAt := below.2, nextPulseAtValid := true }) := by
  have hHere : below.1 n = times n := h.aside n fun c hc => Forest.not_under_parent (f.mem_children.mp hc)
  have hChildNe (c : Node) (hc : c ∈ f.children n) : c ≠ n := by
    rintro rfl
    exact Forest.not_under_parent (f.mem_children.mp hc) .refl
  refine ⟨fun m hm => ?_, ?_, fun m hm => ?_, fun m hm => ?_⟩
  · by_cases hSame : m = n
    · subst hSame
      refine ⟨?_, fun c hc => ?_, ?_, fun c hc => ?_, ?_⟩
      · rw [Function.update_self, hHere]
        exact hLocal
      · rw [Function.update_of_ne (hChildNe c hc)]
        exact h.valid c hc
      · rw [Function.update_self, hHere]
        exact h.le_before
      · rw [Function.update_self, Function.update_of_ne (hChildNe c hc)]
        exact h.le_all c hc
      · rw [Function.update_self, hHere]
        refine h.attained.imp_right fun ⟨c, hc, hAt⟩ => ⟨c, hc, ?_⟩
        rw [Function.update_of_ne (hChildNe c hc)]
        exact hAt
    · rw [Function.update_of_ne hSame] at hm
      have hSettled := h.inv m hm
      refine hSettled.congr (Function.update_of_ne hSame _ _) rfl fun c hc => ?_
      -- a parent of the node is not valid, since the node was not
      have hcNe : c ≠ n := by
        rintro rfl
        have hChild := hSettled.children c hc
        rw [hHere, hInvalid] at hChild
        cases hChild
      rw [Function.update_of_ne hcNe]
      exact ⟨rfl, rfl⟩
  · rw [Function.update_self]
  · have hNe : m ≠ n := by
      rintro rfl
      cases hInvalid.symm.trans hm
    rw [Function.update_of_ne hNe]
    exact h.keeps m hm
  · have hNe : m ≠ n := fun hSame => hm (hSame ▸ .refl)
    rw [Function.update_of_ne hNe]
    exact h.aside m fun c hc hUnder => hm (Forest.under_iff.mpr (.inr ⟨c, hc, hUnder⟩))

/-- What is done after `GetPulseTime`, is done with it. -/
theorem Refreshes.of_updateLocal (getPulseTime : GetPulseTime Node) (now : UInt64) (hInv : Inv f times)
    (h : Refreshes f n (updateLocal f getPulseTime now n times) times') : Refreshes f n times times' where
  inv := h.inv
  valid := h.valid
  keeps m hm := by
    have hOwn : updateLocal f getPulseTime now n times m = times m := by
      by_cases hSame : m = n
      · subst hSame
        rw [updateLocal_of_valid (hInv m hm).localValid]
      · exact updateLocal_of_ne hSame
    rw [h.keeps m (hOwn ▸ hm), hOwn]
  aside m hm := by
    rw [h.aside m hm]
    exact updateLocal_of_ne fun hSame => hm (hSame ▸ .refl)

theorem refreshes (getPulseTime : GetPulseTime Node) (now : UInt64) (n : Node) (state : (Node → Times) × UInt64)
    (hInv : Inv f state.1) : Refreshes f n state.1 (getPulseTimeAux f getPulseTime now n state).1 := by
  induction n using f.wf_down.induction generalizing state with
  | h n ih =>
    have hOwn := hInv.updateLocal getPulseTime now n
    rw [getPulseTimeAux]
    refine Refreshes.of_updateLocal getPulseTime now hInv ?_
    dsimp only
    cases hValid : (updateLocal f getPulseTime now n state.1 n).nextPulseAtValid with
    | true =>
      rw [if_pos rfl]
      exact ⟨hOwn, hValid, fun _ _ => rfl, fun _ _ => rfl⟩
    | false =>
      rw [if_neg Bool.false_ne_true]
      refine (refreshesAll_foldl (fun c hc state hInv => ?_) _ hOwn).refreshes updateLocal_self.1 hValid
      exact ⟨ih c (f.mem_children.mp hc) state hInv, getPulseTimeAux_snd ..⟩

/-! ### PulseAux -/

/-- The nodes below `n` have these times. Whether they are valid makes no difference. -/
def SameBelow (f : Forest Node) (times times' : Node → Times) (n : Node) : Prop :=
  ∀ m, f.Under n m → (times' m).nextPulseAt = (times m).nextPulseAt ∧ (times' m).localPulseAt = (times m).localPulseAt

/-- Nothing but the nodes in these subtrees gets other times. -/
def SameBeside (f : Forest Node) (l : List Node) (times times' : Node → Times) : Prop :=
  ∀ m, (∀ c ∈ l, ¬f.Under c m) →
    (times' m).nextPulseAt = (times m).nextPulseAt ∧ (times' m).localPulseAt = (times m).localPulseAt

/-- The nodes to pulse, with their times -/
def due (now : UInt64) (times : Node → Times) (l : List Node) : List (Node × UInt64) :=
  (l.filter fun m => now ≥ (times m).localPulseAt).map fun m => (m, (times m).localPulseAt)

theorem invalidatePulseTime_of_ne (h : m ≠ n) (clearPrevResult : Bool) :
    (invalidatePulseTime f times n clearPrevResult m).nextPulseAt = (times m).nextPulseAt ∧
      (invalidatePulseTime f times n clearPrevResult m).localPulseAt = (times m).localPulseAt := by
  unfold invalidatePulseTime
  split
  · rw [(invalidates_group f _ n).nextPulseAt, (invalidates_group f _ n).localPulseAt, Function.update_of_ne h]
    exact ⟨rfl, rfl⟩
  · exact ⟨rfl, rfl⟩

theorem invalidations_of_ne (h : m ≠ n) (clearPrevResults : List Bool) :
    (invalidations f times n clearPrevResults m).nextPulseAt = (times m).nextPulseAt ∧
      (invalidations f times n clearPrevResults m).localPulseAt = (times m).localPulseAt := by
  unfold invalidations
  induction clearPrevResults generalizing times with
  | nil => exact ⟨rfl, rfl⟩
  | cons clearPrevResult rest ih =>
    rw [List.foldl_cons, ih.1, ih.2]
    exact invalidatePulseTime_of_ne h clearPrevResult

/-- The node itself is pulsed, and its callback invalidates it. -/
def pulseOwn (f : Forest Node) (pulse : Pulse Node) (now : UInt64) (n : Node)
    (state : (Node → Times) × List (Node × UInt64)) : (Node → Times) × List (Node × UInt64) :=
  if now ≥ (state.1 n).localPulseAt then
    (invalidatePulseTime f (invalidations f state.1 n (pulse n now (state.1 n).localPulseAt)) n false,
      state.2 ++ [(n, (state.1 n).localPulseAt)])
  else state

theorem pulseAux_eq (f : Forest Node) (pulse : Pulse Node) (now : UInt64) (n : Node)
    (state : (Node → Times) × List (Node × UInt64)) :
    pulseAux f pulse now n state =
      if now ≥ (state.1 n).nextPulseAt then
        (f.children n).foldl (fun state c => pulseAux f pulse now c state) (pulseOwn f pulse now n state)
      else state := by
  rw [pulseAux]
  rfl

theorem pulseOwn_of_ne (f : Forest Node) (pulse : Pulse Node) (now : UInt64)
    (state : (Node → Times) × List (Node × UInt64)) (h : m ≠ n) :
    ((pulseOwn f pulse now n state).1 m).nextPulseAt = (state.1 m).nextPulseAt ∧
      ((pulseOwn f pulse now n state).1 m).localPulseAt = (state.1 m).localPulseAt := by
  unfold pulseOwn
  split
  · rw [(invalidatePulseTime_of_ne h false).1, (invalidatePulseTime_of_ne h false).2]
    exact invalidations_of_ne h _
  · exact ⟨rfl, rfl⟩

theorem pulseOwn_snd {pulse : Pulse Node} {now : UInt64} {state : (Node → Times) × List (Node × UInt64)}
    (h : (state.1 n).localPulseAt = (times n).localPulseAt) :
    (pulseOwn f pulse now n state).2 = state.2 ++ due now times [n] := by
  unfold pulseOwn due
  rw [h, List.filter_singleton]
  split
  · next hDue => rw [decide_eq_true hDue]; rfl
  · next hNot => rw [decide_eq_false hNot]; exact (List.append_nil _).symm

theorem Inv.pulseAux (pulse : Pulse Node) (now : UInt64) (n : Node) (state : (Node → Times) × List (Node × UInt64))
    (h : Inv f state.1) : Inv f (pulseAux f pulse now n state).1 := by
  induction n using f.wf_down.induction generalizing state with
  | h n ih =>
    rw [pulseAux_eq]
    split
    · have hOwn : Inv f (pulseOwn f pulse now n state).1 := by
        unfold pulseOwn
        split
        · exact (h.invalidations n _).invalidatePulseTime n false
        · exact h
      have hAll (l : List Node) (hl : l ⊆ f.children n) (state : (Node → Times) × List (Node × UInt64))
          (h : Inv f state.1) : Inv f (l.foldl (fun state c => PulseNode.pulseAux f pulse now c state) state).1 := by
        induction l generalizing state with
        | nil => exact h
        | cons c l ihList =>
          obtain ⟨hc, hRest⟩ := List.cons_subset.mp hl
          exact ihList hRest _ (ih c (f.mem_children.mp hc) state h)
      exact hAll _ (List.Subset.refl _) _ hOwn
    · exact h

omit [DecidableEq Node] in
theorem due_append (now : UInt64) (times : Node → Times) (l l' : List Node) :
    due now times (l ++ l') = due now times l ++ due now times l' := by
  unfold due
  rw [List.filter_append, List.map_append]

/-- The children are visited one after another, and none of them changes the times of the next. -/
theorem pulses_foldl {pulse : Pulse Node} {now : UInt64} {l : List Node} (hl : l ⊆ f.children n) (hNodup : l.Nodup)
    (hOne : ∀ c ∈ l, ∀ state : (Node → Times) × List (Node × UInt64), SameBelow f times state.1 c →
      (pulseAux f pulse now c state).2 = state.2 ++ due now times (f.subtree c) ∧
        SameBeside f [c] state.1 (pulseAux f pulse now c state).1)
    (state : (Node → Times) × List (Node × UInt64)) (hSame : ∀ c ∈ l, SameBelow f times state.1 c) :
    (l.foldl (fun state c => pulseAux f pulse now c state) state).2 =
        state.2 ++ due now times (l.flatMap fun c => f.subtree c) ∧
      SameBeside f l state.1 (l.foldl (fun state c => pulseAux f pulse now c state) state).1 := by
  induction l generalizing state with
  | nil => exact ⟨(List.append_nil _).symm, fun _ _ => ⟨rfl, rfl⟩⟩
  | cons c l ih =>
    rw [List.foldl_cons, List.flatMap_cons, due_append]
    obtain ⟨hc, hRest⟩ := List.cons_subset.mp hl
    obtain ⟨hNot, hNodupRest⟩ := List.nodup_cons.mp hNodup
    obtain ⟨hCalls, hBeside⟩ := hOne c List.mem_cons_self state (hSame c List.mem_cons_self)
    have hSameRest (d : Node) (hd : d ∈ l) : SameBelow f times (pulseAux f pulse now c state).1 d := by
      intro m hm
      have hOut : ∀ e ∈ [c], ¬f.Under e m := fun e he hUnder => by
        rw [List.mem_singleton.mp he] at hUnder
        exact hNot (Forest.eq_of_under_children hc (hRest hd) hUnder hm ▸ hd)
      rw [(hBeside m hOut).1, (hBeside m hOut).2]
      exact hSame d (List.mem_cons_of_mem _ hd) m hm
    obtain ⟨hCallsRest, hBesideRest⟩ := ih hRest hNodupRest (fun d hd => hOne d (List.mem_cons_of_mem _ hd)) _ hSameRest
    refine ⟨by rw [hCallsRest, hCalls, List.append_assoc], fun m hm => ?_⟩
    have hFirst := hBeside m fun e he => hm e (List.mem_singleton.mp he ▸ List.mem_cons_self)
    have hLater := hBesideRest m fun d hd => hm d (List.mem_cons_of_mem _ hd)
    exact ⟨hLater.1.trans hFirst.1, hLater.2.trans hFirst.2⟩

/-- `PulseAux` pulses what is due below a node whose time is the earliest. -/
theorem pulses (pulse : Pulse Node) (now : UInt64) (hTimes : ∀ m, f.Under n m → UpToDate f times m)
    (state : (Node → Times) × List (Node × UInt64)) (hSame : SameBelow f times state.1 n) :
    (pulseAux f pulse now n state).2 = state.2 ++ due now times (f.subtree n) ∧
      SameBeside f [n] state.1 (pulseAux f pulse now n state).1 := by
  induction n using f.wf_down.induction generalizing state with
  | h n ih =>
    rw [pulseAux_eq, (hSame n .refl).1]
    split
    · have hChild {c : Node} (hc : c ∈ f.children n) {m : Node} (hm : f.Under c m) : f.Under n m :=
        Forest.under_iff.mpr (.inr ⟨c, hc, hm⟩)
      have hBelow : ∀ c ∈ f.children n, SameBelow f times (pulseOwn f pulse now n state).1 c := by
        intro c hc m hm
        have hNe : m ≠ n := by
          rintro rfl
          exact Forest.not_under_parent (f.mem_children.mp hc) hm
        rw [(pulseOwn_of_ne f pulse now state hNe).1, (pulseOwn_of_ne f pulse now state hNe).2]
        exact hSame m (hChild hc hm)
      obtain ⟨hCalls, hBeside⟩ := pulses_foldl (List.Subset.refl _) (f.nodup_children n) (fun c hc state hSame =>
        ih c (f.mem_children.mp hc) (fun m hm => hTimes m (hChild hc hm)) state hSame) (pulseOwn f pulse now n state)
        hBelow
      refine ⟨?_, fun m hm => ?_⟩
      · rw [hCalls, pulseOwn_snd (hSame n .refl).2, List.append_assoc, ← due_append, Forest.subtree]
        rfl
      · have hNot := hm n List.mem_cons_self
        have hNe : m ≠ n := fun hSame => hNot (hSame ▸ .refl)
        have hOwn := pulseOwn_of_ne f pulse now state hNe
        have hRest := hBeside m fun c hc hUnder => hNot (hChild hc hUnder)
        exact ⟨hRest.1.trans hOwn.1, hRest.2.trans hOwn.2⟩
    · next hLater =>
      refine ⟨?_, fun _ _ => ⟨rfl, rfl⟩⟩
      have hNone : (f.subtree n).filter (fun m => now ≥ (times m).localPulseAt) = [] := by
        refine List.filter_eq_nil_iff.mpr fun m hm hDue => hLater ?_
        exact UInt64.le_trans ((hTimes n .refl).least.2 ⟨m, Forest.mem_subtree.mp hm, rfl⟩) (of_decide_eq_true hDue)
      rw [due, hNone]
      exact (List.append_nil _).symm

/-! ### Every sequence of calls -/

theorem Inv.step {s : Nodes Node} (h : Inv s.forest s.times) (action : Action Node) :
    Inv (step s action).forest (step s action).times := by
  have hRelink {f' : Forest Node} (n : Node) (hChildren : ∀ m, m ≠ n → f'.children m = s.forest.children m) :
      Inv f' (invalidateGroupPulseTime s.forest s.times n) :=
    (h.group n).relink group_invalid hChildren
  cases action with
  | putPulseChild n child =>
    dsimp only [PulseNode.step]
    split
    · exact hRelink n fun m hm => Function.update_of_ne hm _ _
    · exact h
  | removePulseChild n child =>
    dsimp only [PulseNode.step]
    split
    · exact hRelink n fun m hm => Function.update_of_ne hm _ _
    · exact h
  | clearPulseChildren n =>
    dsimp only [PulseNode.step]
    split
    · exact h
    · exact hRelink n fun m hm => Function.update_of_ne hm _ _
  | invalidatePulseTime n clearPrevResult => exact h.invalidatePulseTime n clearPrevResult
  | getPulseTimeAux n now minPulseTime getPulseTime =>
    exact (refreshes getPulseTime now n (s.times, minPulseTime) h).inv
  | pulseAux n now pulse => exact h.pulseAux pulse now n (s.times, [])

theorem inv_run (actions : List (Action Node)) : Inv (run actions).forest (run actions).times := by
  have hAll (s : Nodes Node) (h : Inv s.forest s.times) :
      Inv (actions.foldl step s).forest (actions.foldl step s).times := by
    induction actions generalizing s with
    | nil => exact h
    | cons action actions ih => exact ih (step s action) (h.step action)
  exact hAll start fun n hn => nomatch hn

theorem count_due (now : UInt64) (times : Node → Times) {l : List Node} (hNodup : l.Nodup) (m : Node) :
    ((due now times l).map Prod.fst).count m = if m ∈ l ∧ (times m).localPulseAt ≤ now then 1 else 0 := by
  have hNodes : (due now times l).map Prod.fst = l.filter fun m => now ≥ (times m).localPulseAt := by
    unfold due
    rw [List.map_map]
    exact List.map_id _
  rw [hNodes, (hNodup.filter _).count]
  simp only [List.mem_filter, decide_eq_true_eq, ge_iff_le]

/-- What `GetPulseTimeAux` and a `PulseAux` right after it do: the time of the node is valid and is reported, and each
node below is pulsed once if it is due, and not otherwise. -/
structure Serves (f : Forest Node) (times : Node → Times) (n : Node) (now minPulseTime : UInt64)
    (getPulseTime : GetPulseTime Node) : Prop where
  upToDate : UpToDate f (getPulseTimeAux f getPulseTime now n (times, minPulseTime)).1 n
  reports : (getPulseTimeAux f getPulseTime now n (times, minPulseTime)).2 =
    if minPulseTime > ((getPulseTimeAux f getPulseTime now n (times, minPulseTime)).1 n).nextPulseAt then
      ((getPulseTimeAux f getPulseTime now n (times, minPulseTime)).1 n).nextPulseAt
    else minPulseTime
  pulses : ∀ (pulse : Pulse Node) (later : UInt64) (m : Node),
    ((pulseAux f pulse later n ((getPulseTimeAux f getPulseTime now n (times, minPulseTime)).1, [])).2.map
      Prod.fst).count m =
      if f.Under n m ∧ ((getPulseTimeAux f getPulseTime now n (times, minPulseTime)).1 m).localPulseAt ≤ later then 1
      else 0

theorem Inv.serves (h : Inv f times) (n : Node) (now minPulseTime : UInt64) (getPulseTime : GetPulseTime Node) :
    Serves f times n now minPulseTime getPulseTime := by
  have hRefreshes := refreshes getPulseTime now n (times, minPulseTime) h
  have hUpToDate := hRefreshes.inv.upToDate hRefreshes.valid
  refine ⟨hUpToDate, getPulseTimeAux_snd .., fun pulse later m => ?_⟩
  have hPulses := (pulses pulse later (fun k hk => hRefreshes.inv.upToDate (hUpToDate.valid k hk).1)
    (_, []) fun _ _ => ⟨rfl, rfl⟩).1
  rw [hPulses, List.nil_append, count_due later _ (Forest.nodup_subtree f n)]
  exact if_congr (and_congr_left' Forest.mem_subtree) rfl rfl

/-- After any calls, a valid time is the earliest time below its node, and `GetPulseTimeAux` and `PulseAux` serve each
node. -/
theorem pulse_scheduling (actions : List (Action Node)) :
    (∀ n, ((run actions).times n).nextPulseAtValid = true → UpToDate (run actions).forest (run actions).times n) ∧
      ∀ (n : Node) (now minPulseTime : UInt64) (getPulseTime : GetPulseTime Node),
        Serves (run actions).forest (run actions).times n now minPulseTime getPulseTime :=
  ⟨fun _ hValid => (inv_run actions).upToDate hValid, fun n now minPulseTime getPulseTime =>
    (inv_run actions).serves n now minPulseTime getPulseTime⟩

end BeShare.Muscle.PulseNode
