import Mathlib.Data.List.Flatten
import Mathlib.Data.List.Nodup
import Mathlib.Logic.Function.Basic
import Mathlib.Order.WellFounded
import Mathlib.Tactic.Common

/-!
Forests of nodes that know their parent and their children, with the nodes above and below a node, and what attaching
and detaching a node does.
-/

namespace BeShare.Lib

/-- The children of a node stand in order. Walks up and down the forest end. -/
structure Forest (Node : Type) where
  parent : Node → Option Node
  children : Node → List Node
  mem_children : ∀ {n c}, c ∈ children n ↔ parent c = some n
  nodup_children : ∀ n, (children n).Nodup
  wf_down : WellFounded fun c n => parent c = some n
  wf_up : WellFounded fun n c => parent c = some n

namespace Forest

variable {Node : Type} {f : Forest Node} {n m p c : Node}

/-- A walk up from `m` comes to `n`. -/
inductive Under (f : Forest Node) (n : Node) : Node → Prop
  | refl : f.Under n n
  | step {m p : Node} : f.parent m = some p → f.Under n p → f.Under n m

theorem Under.trans (h : f.Under n m) {k : Node} (hk : f.Under m k) : f.Under n k := by
  induction hk with
  | refl => exact h
  | step hParent _ ih => exact .step hParent ih

theorem under_child (h : f.parent c = some n) : f.Under n c :=
  .step h .refl

theorem under_iff : f.Under n m ↔ m = n ∨ ∃ c ∈ f.children n, f.Under c m := by
  constructor
  · intro h
    induction h with
    | refl => exact .inl rfl
    | step hParent hUnder ih =>
      rcases ih with rfl | ⟨c, hc, hUnderChild⟩
      · exact .inr ⟨_, f.mem_children.mpr hParent, .refl⟩
      · exact .inr ⟨c, hc, .step hParent hUnderChild⟩
  · rintro (rfl | ⟨c, hc, hUnder⟩)
    · exact .refl
    · exact (under_child (f.mem_children.mp hc)).trans hUnder

/-- No node is above its parent. -/
theorem not_under_parent (h : f.parent c = some n) : ¬f.Under c n := by
  induction n using f.wf_up.induction generalizing c with
  | h n ih =>
    intro hUnder
    cases hUnder with
    | refl => exact ih _ h h .refl
    | step hParent hUnder => exact ih _ hParent hParent ((under_child h).trans hUnder)

/-- Of two nodes above a third, one is above the other. -/
theorem Under.total {k : Node} (h : f.Under n k) (h' : f.Under m k) : f.Under n m ∨ f.Under m n := by
  induction h with
  | refl => exact .inr h'
  | step hParent hUnder ih =>
    cases h' with
    | refl => exact .inl (.step hParent hUnder)
    | step hParent' hUnder' =>
      obtain rfl := Option.some.inj (hParent.symm.trans hParent')
      exact ih hUnder'

theorem not_under_sibling {c' : Node} (h : f.parent c = some n) (h' : f.parent c' = some n) (hNe : c ≠ c') :
    ¬f.Under c c' := by
  intro hUnder
  cases hUnder with
  | refl => exact hNe rfl
  | step hParent hUnder =>
    obtain rfl := Option.some.inj (h'.symm.trans hParent)
    exact not_under_parent h hUnder

/-- No node is below two children of a node. -/
theorem eq_of_under_children {c' k : Node} (h : c ∈ f.children n) (h' : c' ∈ f.children n) (hUnder : f.Under c k)
    (hUnder' : f.Under c' k) : c = c' := by
  by_contra hNe
  rw [f.mem_children] at h h'
  rcases hUnder.total hUnder' with hBelow | hBelow
  · exact not_under_sibling h h' hNe hBelow
  · exact not_under_sibling h' h (Ne.symm hNe) hBelow

/-! ### The nodes above and below a node -/

/-- The node and those above it. -/
def path (f : Forest Node) (n : Node) : List Node :=
  n :: match _h : f.parent n with
    | some p => f.path p
    | none => []
termination_by f.wf_up.wrap n

theorem path_of_parent (h : f.parent n = some p) : f.path n = n :: f.path p := by
  rw [path]
  split
  · next q hq => rw [Option.some.inj (hq.symm.trans h)]
  · next hNone => cases hNone.symm.trans h

theorem path_of_root (h : f.parent n = none) : f.path n = [n] := by
  rw [path]
  split
  · next q hq => cases hq.symm.trans h
  · rfl

theorem mem_path : m ∈ f.path n ↔ f.Under m n := by
  induction n using f.wf_up.induction with
  | h n ih =>
    cases hParent : f.parent n with
    | none =>
      rw [path_of_root hParent, List.mem_singleton]
      constructor
      · rintro rfl
        exact .refl
      · intro hUnder
        cases hUnder with
        | refl => rfl
        | step hOther _ => cases hOther.symm.trans hParent
    | some p =>
      rw [path_of_parent hParent, List.mem_cons, ih p hParent]
      constructor
      · rintro (rfl | hUnder)
        · exact .refl
        · exact .step hParent hUnder
      · intro hUnder
        cases hUnder with
        | refl => exact .inl rfl
        | step hOther hUnder =>
          obtain rfl := Option.some.inj (hParent.symm.trans hOther)
          exact .inr hUnder

instance [DecidableEq Node] (f : Forest Node) (n m : Node) : Decidable (f.Under n m) :=
  decidable_of_iff (n ∈ f.path m) mem_path

/-- The node and those below it, each before its children. -/
def subtree (f : Forest Node) (n : Node) : List Node :=
  n :: (f.children n).flatMap fun c => f.subtree c
termination_by f.wf_down.wrap n
decreasing_by exact f.mem_children.mp ‹_›

theorem mem_subtree : m ∈ f.subtree n ↔ f.Under n m := by
  induction n using f.wf_down.induction with
  | h n ih =>
    rw [subtree, List.mem_cons, List.mem_flatMap, under_iff]
    refine or_congr_right (exists_congr fun c => and_congr_right fun hc => ?_)
    exact ih c (f.mem_children.mp hc)

theorem nodup_subtree (f : Forest Node) (n : Node) : (f.subtree n).Nodup := by
  induction n using f.wf_down.induction with
  | h n ih =>
    rw [subtree, List.nodup_cons, List.nodup_flatMap]
    refine ⟨fun hMem => ?_, fun c hc => ih c (f.mem_children.mp hc), ?_⟩
    · obtain ⟨c, hc, hMem⟩ := List.mem_flatMap.mp hMem
      exact not_under_parent (f.mem_children.mp hc) (mem_subtree.mp hMem)
    · refine (f.nodup_children n).pairwise_of_forall_ne fun c hc c' hc' hNe k hk hk' => ?_
      exact hNe (eq_of_under_children hc hc' (mem_subtree.mp hk) (mem_subtree.mp hk'))

/-! ### Attaching and detaching -/

/-- No node is attached to another. -/
def empty : Forest Node where
  parent _ := none
  children _ := []
  mem_children := ⟨fun h => (nomatch h), fun h => (nomatch h)⟩
  nodup_children _ := List.nodup_nil
  wf_down := ⟨fun _ => ⟨_, fun _ h => (nomatch h)⟩⟩
  wf_up := ⟨fun _ => ⟨_, fun _ h => (nomatch h)⟩⟩

variable [DecidableEq Node]

theorem wf_down_put (hOut : ¬f.Under c p) :
    WellFounded fun m n => Function.update f.parent c (some p) m = some n := by
  have hAside (n : Node) : ¬f.Under n p → Acc (fun m n => Function.update f.parent c (some p) m = some n) n := by
    induction n using f.wf_down.induction with
    | h n ih =>
      intro hn
      refine ⟨n, fun m hm => ?_⟩
      by_cases hSame : m = c
      · rw [hSame, Function.update_self] at hm
        cases hm
        exact absurd .refl hn
      · rw [Function.update_of_ne hSame] at hm
        exact ih m hm fun hUnder => hn ((under_child hm).trans hUnder)
  refine ⟨fun n => ?_⟩
  induction n using f.wf_down.induction with
  | h n ih =>
    refine ⟨n, fun m hm => ?_⟩
    by_cases hSame : m = c
    · rw [hSame]
      exact hAside c hOut
    · rw [Function.update_of_ne hSame] at hm
      exact ih m hm

theorem wf_up_put (hOut : ¬f.Under c p) :
    WellFounded fun n m => Function.update f.parent c (some p) m = some n := by
  have hAbove (n : Node) : f.Under n p → Acc (fun n m => Function.update f.parent c (some p) m = some n) n := by
    induction n using f.wf_up.induction with
    | h n ih =>
      intro hn
      refine ⟨n, fun m hm => ?_⟩
      have hNe : n ≠ c := fun hSame => hOut (hSame ▸ hn)
      rw [Function.update_of_ne hNe] at hm
      exact ih m hm ((under_child hm).trans hn)
  refine ⟨fun n => ?_⟩
  induction n using f.wf_up.induction with
  | h n ih =>
    refine ⟨n, fun m hm => ?_⟩
    by_cases hSame : n = c
    · rw [hSame, Function.update_self] at hm
      cases hm
      exact hAbove p .refl
    · rw [Function.update_of_ne hSame] at hm
      exact ih m hm

/-- A root becomes the last child of a node that is not below it. -/
def put (f : Forest Node) (n c : Node) (hRoot : f.parent c = none) (hOut : ¬f.Under c n) : Forest Node where
  parent := Function.update f.parent c (some n)
  children := Function.update f.children n (f.children n ++ [c])
  mem_children {m k} := by
    have hNot (m : Node) : c ∉ f.children m := fun h => nomatch hRoot.symm.trans (f.mem_children.mp h)
    by_cases hm : m = n <;> by_cases hk : k = c
    · subst hm hk
      simp
    · subst hm
      simp [hk, f.mem_children]
    · subst hk
      simp [hm, hNot m, Ne.symm hm]
    · simp [hm, hk, f.mem_children]
  nodup_children m := by
    by_cases hm : m = n
    · subst hm
      rw [Function.update_self]
      refine List.nodup_append.mpr ⟨f.nodup_children m, List.nodup_singleton c, fun a ha b hb hSame => ?_⟩
      rw [hSame, List.mem_singleton.mp hb] at ha
      exact nomatch hRoot.symm.trans (f.mem_children.mp ha)
    · rw [Function.update_of_ne hm]
      exact f.nodup_children m
  wf_down := wf_down_put hOut
  wf_up := wf_up_put hOut

/-- A child becomes a root. -/
def remove (f : Forest Node) (n c : Node) (hChild : f.parent c = some n) : Forest Node where
  parent := Function.update f.parent c none
  children := Function.update f.children n ((f.children n).erase c)
  mem_children {m k} := by
    by_cases hm : m = n <;> by_cases hk : k = c
    · subst hm hk
      simp [(f.nodup_children m).mem_erase_iff]
    · subst hm
      simp [hk, (f.nodup_children m).mem_erase_iff, f.mem_children]
    · subst hk
      simp [hm, f.mem_children, hChild, Ne.symm hm]
    · simp [hm, hk, f.mem_children]
  nodup_children m := by
    by_cases hm : m = n
    · subst hm
      rw [Function.update_self]
      exact (f.nodup_children m).erase c
    · rw [Function.update_of_ne hm]
      exact f.nodup_children m
  wf_down := Subrelation.wf (fun {m k} h => by
    by_cases hm : m = c
    · simp [hm] at h
    · simpa [hm] using h) f.wf_down
  wf_up := Subrelation.wf (fun {m k} h => by
    by_cases hk : k = c
    · simp [hk] at h
    · simpa [hk] using h) f.wf_up

/-- All children of a node become roots. -/
def clear (f : Forest Node) (n : Node) : Forest Node where
  parent m := if f.parent m = some n then none else f.parent m
  children := Function.update f.children n []
  mem_children {m k} := by
    by_cases hm : m = n
    · subst hm
      by_cases hk : f.parent k = some m <;> simp [hk]
    · by_cases hk : f.parent k = some n <;> simp [hm, hk, f.mem_children, Ne.symm hm]
  nodup_children m := by
    by_cases hm : m = n
    · subst hm
      rw [Function.update_self]
      exact List.nodup_nil
    · rw [Function.update_of_ne hm]
      exact f.nodup_children m
  wf_down := Subrelation.wf (fun {m k} h => by
    split at h
    · cases h
    · exact h) f.wf_down
  wf_up := Subrelation.wf (fun {m k} h => by
    split at h
    · cases h
    · exact h) f.wf_up

end Forest

end BeShare.Lib
