import Mathlib.Data.List.Nodup
import Mathlib.Logic.Function.Basic

/-! Doubly linked lists in a memory of nodes, with the nodes' links as functions of the node. -/

namespace BeShare.Lib

variable {α : Type} [DecidableEq α]

/-- The memory after `v` was stored at the node `p`; nothing is stored at a null pointer. -/
def storeAt {β : Type} (f : α → β) (p : Option α) (v : β) : α → β :=
  match p with
  | none => f
  | some x => Function.update f x v

section storeAt

variable {β : Type} {f : α → β} {v : β} {x y : α} {p : Option α}

@[simp] theorem storeAt_none : storeAt f none v = f := rfl

@[simp] theorem storeAt_same : storeAt f (some x) v x = v := Function.update_self ..

theorem storeAt_ne (h : p ≠ some y) : storeAt f p v y = f y := by
  cases p with
  | none => rfl
  | some x => exact Function.update_of_ne (fun hEq => h (congrArg some hEq.symm)) ..

end storeAt

/-- The nodes of `l` are linked in this order, between a node `p` before them and a node `n` behind
them. -/
def Segment (next prev : α → Option α) : Option α → List α → Option α → Prop
  | _, [], _ => True
  | p, x :: l, n => prev x = p ∧ next x = l.head?.or n ∧ Segment next prev (some x) l n

/-- A whole list, from its head to its tail. -/
def Linked (next prev : α → Option α) (l : List α) : Prop := Segment next prev none l none

namespace Segment

variable {next prev next' prev' : α → Option α} {p p' n n' : Option α} {a b l : List α} {x e : α}

omit [DecidableEq α] in
theorem append : Segment next prev p (a ++ b) n ↔
    Segment next prev p a (b.head?.or n) ∧ Segment next prev (a.getLast?.or p) b n := by
  induction a generalizing p with
  | nil => simp [Segment]
  | cons x a ih =>
    have hLast : (x :: a).getLast?.or p = a.getLast?.or (some x) := by
      cases a with
      | nil => rfl
      | cons y a => rw [List.getLast?_cons_cons, List.getLast?_cons]; rfl
    simp only [List.cons_append, Segment, ih, hLast, List.head?_append, Option.or_assoc, and_assoc]

omit [DecidableEq α] in
theorem congr (h : Segment next prev p l n) (hNext : ∀ x ∈ l, next' x = next x)
    (hPrev : ∀ x ∈ l, prev' x = prev x) : Segment next' prev' p l n := by
  induction l generalizing p with
  | nil => trivial
  | cons x l ih =>
    obtain ⟨hp, hn, hRest⟩ := h
    refine ⟨(hPrev x (List.mem_cons_self ..)).trans hp, (hNext x (List.mem_cons_self ..)).trans hn, ?_⟩
    exact ih hRest (fun y hy => hNext y (List.mem_cons_of_mem _ hy)) fun y hy =>
      hPrev y (List.mem_cons_of_mem _ hy)

/-- The last node is linked to another node behind it. -/
theorem relink_last (h : Segment next prev p l n) (hNodup : l.Nodup) :
    Segment (storeAt next l.getLast? n') prev p l n' := by
  rcases List.eq_nil_or_concat l with rfl | ⟨a, x, rfl⟩
  · trivial
  · rw [List.concat_eq_append] at h hNodup ⊢
    have hLast : (a ++ [x]).getLast? = some x := by simp
    obtain ⟨ha, hx⟩ := append.mp h
    rw [hLast]
    refine append.mpr ⟨ha.congr (fun y hy => storeAt_ne fun hEq => ?_) fun _ _ => rfl, hx.1, ?_, trivial⟩
    · rw [List.nodup_append] at hNodup
      exact hNodup.2.2 y hy y (by simpa using (Option.some.inj hEq).symm) rfl
    · simp

/-- The first node is linked to another node before it. -/
theorem relink_first (h : Segment next prev p l n) (hNodup : l.Nodup) :
    Segment next (storeAt prev l.head? p') p' l n := by
  cases l with
  | nil => trivial
  | cons x l =>
    refine ⟨by simp, h.2.1, h.2.2.congr (fun _ _ => rfl) fun y hy => storeAt_ne fun hEq => ?_⟩
    have hxy : x = y := Option.some.inj hEq
    exact (List.nodup_cons.mp hNodup).1 (hxy ▸ hy)

end Segment

theorem not_head?_of_not_mem {α : Type} {l : List α} {x : α} (h : x ∉ l) : l.head? ≠ some x :=
  fun hHead => h (List.mem_of_mem_head? hHead)

theorem not_getLast?_of_not_mem {α : Type} {l : List α} {x : α} (h : x ∉ l) :
    l.getLast? ≠ some x :=
  fun hLast => h (List.mem_of_getLast? hLast)

namespace Linked

variable {next prev : α → Option α} {a b l : List α} {e : α}

omit [DecidableEq α] in
theorem nil : Linked next prev [] := trivial

omit [DecidableEq α] in
theorem congr {next' prev' : α → Option α} (h : Linked next prev l)
    (hNext : ∀ x ∈ l, next' x = next x) (hPrev : ∀ x ∈ l, prev' x = prev x) :
    Linked next' prev' l :=
  Segment.congr h hNext hPrev

omit [DecidableEq α] in
/-- The neighbours of a node. -/
theorem prev_eq (h : Linked next prev (a ++ e :: b)) : prev e = a.getLast? := by
  have he := (Segment.append.mp h).2.1
  rwa [Option.or_none] at he

omit [DecidableEq α] in
theorem next_eq (h : Linked next prev (a ++ e :: b)) : next e = b.head? := by
  have he := (Segment.append.mp h).2.2.1
  rwa [Option.or_none] at he

/-- The node `e` is taken out: its neighbours are linked to each other. -/
theorem unlink (h : Linked next prev (a ++ e :: b)) (hNodup : (a ++ e :: b).Nodup) :
    Linked (storeAt next (prev e) (next e)) (storeAt prev (next e) (prev e)) (a ++ b) := by
  rw [h.prev_eq, h.next_eq]
  obtain ⟨ha, -, -, hb⟩ := Segment.append.mp h
  rw [List.nodup_append, List.nodup_cons] at hNodup
  obtain ⟨hNodupA, ⟨-, hNodupB⟩, hDisjoint⟩ := hNodup
  refine Segment.append.mpr ⟨?_, ?_⟩
  · rw [Option.or_none]
    refine (ha.relink_last hNodupA).congr (fun _ _ => rfl) fun x hx => storeAt_ne ?_
    exact not_head?_of_not_mem fun hxb => hDisjoint x hx x (List.mem_cons_of_mem _ hxb) rfl
  · rw [Option.or_none]
    refine (hb.relink_first hNodupB).congr (fun x hx => storeAt_ne ?_) fun _ _ => rfl
    exact not_getLast?_of_not_mem fun hxa => hDisjoint x hxa x (List.mem_cons_of_mem _ hx) rfl

/-- A new node `e` is put between `a` and `b`. -/
theorem insert (h : Linked next prev (a ++ b)) (hNodup : (a ++ b).Nodup) (he : e ∉ a ++ b) :
    Linked (storeAt (Function.update next e b.head?) a.getLast? (some e))
      (storeAt (Function.update prev e a.getLast?) b.head? (some e)) (a ++ e :: b) := by
  obtain ⟨ha, hb⟩ := Segment.append.mp h
  rw [List.nodup_append] at hNodup
  obtain ⟨hNodupA, hNodupB, hDisjoint⟩ := hNodup
  rw [List.mem_append, not_or] at he
  have hUpdate : ∀ {f : α → Option α} {v : Option α} {x : α}, x ∈ a ∨ x ∈ b →
      Function.update f e v x = f x := fun {f v x} hx =>
    Function.update_of_ne (fun hEq => by subst hEq; exact hx.elim he.1 he.2) _ _
  have haUpdated : Segment (Function.update next e b.head?) (Function.update prev e a.getLast?) none a
      (b.head?.or none) := ha.congr (fun _ hx => hUpdate (.inl hx)) fun _ hx => hUpdate (.inl hx)
  have hbUpdated : Segment (Function.update next e b.head?) (Function.update prev e a.getLast?)
      (a.getLast?.or none) b none :=
    hb.congr (fun _ hx => hUpdate (.inr hx)) fun _ hx => hUpdate (.inr hx)
  refine Segment.append.mpr ⟨?_, ?_, ?_, ?_⟩
  · refine (haUpdated.relink_last hNodupA).congr (fun _ _ => rfl) fun x hx => storeAt_ne ?_
    exact not_head?_of_not_mem fun hxb => hDisjoint x hx x hxb rfl
  · rw [storeAt_ne (not_head?_of_not_mem he.2), Function.update_self, Option.or_none]
  · rw [storeAt_ne (not_getLast?_of_not_mem he.1), Function.update_self, Option.or_none]
  · refine (hbUpdated.relink_first hNodupB).congr (fun x hx => storeAt_ne ?_) fun _ _ => rfl
    exact not_getLast?_of_not_mem fun hxa => hDisjoint x hxa x hx rfl

end Linked

/-- The nodes of `l` are linked in this order, and the last one to `n`. -/
def Forward (next : α → Option α) : List α → Option α → Prop
  | [], _ => True
  | x :: l, n => next x = l.head?.or n ∧ Forward next l n

namespace Forward

variable {next next' : α → Option α} {n : Option α} {a b l : List α}

omit [DecidableEq α] in
theorem of_segment {prev : α → Option α} {p : Option α} (h : Segment next prev p l n) :
    Forward next l n := by
  induction l generalizing p with
  | nil => trivial
  | cons x l ih => exact ⟨h.2.1, ih h.2.2⟩

omit [DecidableEq α] in
theorem append : Forward next (a ++ b) n ↔ Forward next a (b.head?.or n) ∧ Forward next b n := by
  induction a with
  | nil => simp [Forward]
  | cons x a ih =>
    simp only [List.cons_append, Forward, ih, List.head?_append, Option.or_assoc, and_assoc]

omit [DecidableEq α] in
/-- The links to the nodes before, read from the last node on. -/
theorem of_segment_reverse {prev : α → Option α} {p : Option α} (h : Segment next prev p l n) :
    Forward prev l.reverse p := by
  induction l generalizing p with
  | nil => trivial
  | cons x l ih =>
    rw [List.reverse_cons, append]
    exact ⟨ih h.2.2, h.1, trivial⟩

omit [DecidableEq α] in
theorem congr (h : Forward next l n) (hNext : ∀ x ∈ l, next' x = next x) : Forward next' l n := by
  induction l with
  | nil => trivial
  | cons x l ih =>
    exact ⟨(hNext x (List.mem_cons_self ..)).trans h.1,
      ih h.2 fun y hy => hNext y (List.mem_cons_of_mem _ hy)⟩

end Forward

/-- The nodes from `p` on, at most `fuel` of them. -/
def walk (next : α → Option α) : Nat → Option α → List α
  | 0, _ => []
  | _ + 1, none => []
  | fuel + 1, some x => x :: walk next fuel (next x)

omit [DecidableEq α] in
theorem Segment.walk {next prev : α → Option α} {p : Option α} {l : List α}
    (h : Segment next prev p l none) {fuel : Nat} (hFuel : l.length ≤ fuel) :
    walk next fuel l.head? = l := by
  induction l generalizing p fuel with
  | nil => cases fuel <;> rfl
  | cons x l ih =>
    obtain ⟨fuel, rfl⟩ : ∃ k, fuel = k + 1 := ⟨fuel - 1, by simp at hFuel; omega⟩
    obtain ⟨-, hNext, hRest⟩ := h
    rw [Option.or_none] at hNext
    rw [List.head?_cons, Lib.walk, hNext, ih hRest (by simpa using hFuel)]

end BeShare.Lib
