import BeShare.Hashtable.Lookup

/-! What the operations on the iteration list, the free list and the chains leave behind. -/

namespace BeShare.Muscle.Hashtable

open BeShare.Lib

variable {K V : Type} {t : Table K V} {a b order free : List Nat} {e : Nat}

/-! ### The iteration list -/

namespace Table.IterationList

/-- The entry behind the last one of `a`, or the head of the list. -/
theorem behind_eq (h : t.IterationList (a ++ b)) : t.iterBehind a.getLast? = b.head? := by
  rcases List.eq_nil_or_concat a with rfl | ⟨a, x, rfl⟩
  · exact h.head
  · rw [List.concat_eq_append] at h ⊢
    rw [List.getLast?_append_cons, List.getLast?_singleton]
    have hLinked := h.linked
    rw [List.append_assoc] at hLinked
    exact hLinked.next_eq

/-- An entry is inserted behind the entries of `a`. -/
theorem insert (h : t.IterationList (a ++ b)) (hNodup : (a ++ b).Nodup) (he : e ∉ a ++ b) :
    (t.insertIterationEntry e a.getLast?).IterationList (a ++ e :: b) := by
  have hNext := h.behind_eq
  constructor
  · simp only [insertIterationEntry, hNext]
    exact h.linked.insert hNodup he
  · simp only [insertIterationEntry]
    cases a with
    | nil => rfl
    | cons x a => simpa using h.head
  · simp only [insertIterationEntry, hNext]
    cases b with
    | nil => simp
    | cons x b => simpa using h.tail

/-- An entry is inserted at the end. -/
theorem insert_last (h : t.IterationList order) (hNodup : order.Nodup) (he : e ∉ order) :
    (t.insertIterationEntry e t.iterTail).IterationList (order ++ [e]) := by
  have hAll : t.IterationList (order ++ []) := by rwa [List.append_nil]
  rw [h.tail]
  exact hAll.insert (by rwa [List.append_nil]) (by rwa [List.append_nil])

/-- An entry is taken out. -/
theorem remove (h : t.IterationList (a ++ e :: b)) (hNodup : (a ++ e :: b).Nodup) :
    (t.removeIterationEntry e).IterationList (a ++ b) := by
  have hPrev := h.linked.prev_eq
  have hNext := h.linked.next_eq
  have hUnlinked := h.linked.unlink hNodup
  have hNotA : e ∉ a := fun hMem => (List.nodup_append.mp hNodup).2.2 e hMem e (List.mem_cons_self ..) rfl
  have hNotB : e ∉ b := (List.nodup_cons.mp (List.nodup_append.mp hNodup).2.1).1
  have hNextAfter : storeAt t.iterNext (t.iterPrev e) (t.iterNext e) e = t.iterNext e := by
    rw [hPrev]
    exact storeAt_ne (not_getLast?_of_not_mem hNotA)
  have hne : ∀ x ∈ a ++ b, x ≠ e := by
    rintro x hx rfl
    exact (List.mem_append.mp hx).elim hNotA hNotB
  constructor
  · simp only [removeIterationEntry, hNextAfter]
    exact hUnlinked.congr (fun x hx => Function.update_of_ne (hne x hx) _ _)
      fun x hx => Function.update_of_ne (hne x hx) _ _
  · simp only [removeIterationEntry, h.head, hNext]
    cases a with
    | nil => simp
    | cons x a =>
      have hxe : x ≠ e := hne x (by simp)
      simp [hxe]
  · simp only [removeIterationEntry, h.tail, hPrev]
    rcases List.eq_nil_or_concat b with rfl | ⟨b, x, rfl⟩
    · simp
    · have hxe : x ≠ e := hne x (by simp)
      rw [List.concat_eq_append, ← List.cons_append, ← List.append_assoc, List.getLast?_append_cons,
        List.getLast?_singleton, ← List.append_assoc, List.getLast?_append_cons, List.getLast?_singleton,
        if_neg fun hEq => hxe (Option.some.inj hEq)]

end Table.IterationList

/-- Without auto-sorting a new entry goes to the end. -/
theorem insertByMode_disabled (h : t.autoSortMode = .disabled) (e : Nat) :
    t.insertByMode e = t.insertIterationEntry e t.iterTail := by
  simp only [Table.insertByMode, h, Table.insertSortedIterationEntry]
  cases t.iterHead <;> cases t.iterTail <;> simp

/-! ### The free list -/

section

variable [Inhabited K] [Inhabited V]

theorem storeAt_of_not_mem {l : List Nat} {f : Nat → Option Nat} {p v : Option Nat} {x : Nat}
    (hp : p = l.head? ∨ p = l.getLast?) (hx : x ∉ l) : storeAt f p v x = f x := by
  rcases hp with rfl | rfl
  · exact storeAt_ne (not_head?_of_not_mem hx)
  · exact storeAt_ne (not_getLast?_of_not_mem hx)

omit [Inhabited K] [Inhabited V] in
/-- An entry is taken from the free list; only the links of free entries change. -/
theorem Table.FreeList.remove (h : t.FreeList (a ++ e :: b)) (hNodup : (a ++ e :: b).Nodup) :
    (t.removeFromFreeList e).FreeList (a ++ b) ∧
      (t.removeFromFreeList e).bucketNext e = none ∧ (t.removeFromFreeList e).bucketPrev e = none ∧
      ∀ x ∉ a ++ e :: b, (t.removeFromFreeList e).bucketNext x = t.bucketNext x ∧
        (t.removeFromFreeList e).bucketPrev x = t.bucketPrev x := by
  have hPrev := h.linked.prev_eq
  have hNext := h.linked.next_eq
  have hUnlinked := h.linked.unlink hNodup
  have hNotA : e ∉ a := fun hMem => (List.nodup_append.mp hNodup).2.2 e hMem e (List.mem_cons_self ..) rfl
  have hNotB : e ∉ b := (List.nodup_cons.mp (List.nodup_append.mp hNodup).2.1).1
  have hne : ∀ x ∈ a ++ b, x ≠ e := by
    rintro x hx rfl
    exact (List.mem_append.mp hx).elim hNotA hNotB
  have hPrevAfter : storeAt t.bucketPrev (t.bucketNext e) (t.bucketPrev e) e = t.bucketPrev e := by
    rw [hNext]
    exact storeAt_ne (not_head?_of_not_mem hNotB)
  have hNextAfter : storeAt t.bucketNext (t.bucketPrev e) (t.bucketNext e) e = t.bucketNext e := by
    rw [hPrev]
    exact storeAt_ne (not_getLast?_of_not_mem hNotA)
  refine ⟨⟨?_, ?_⟩, Function.update_self .., Function.update_self .., fun x hx => ?_⟩
  · simp only [removeFromFreeList, hPrevAfter]
    exact hUnlinked.congr (fun x hx => Function.update_of_ne (hne x hx) _ _)
      fun x hx => Function.update_of_ne (hne x hx) _ _
  · simp only [removeFromFreeList]
    rw [hPrevAfter, hNextAfter, h.head, hNext]
    cases a with
    | nil => simp
    | cons x a =>
      have hxe : x ≠ e := hne x (by simp)
      simp [hxe]
  · rw [List.mem_append, List.mem_cons, not_or, not_or] at hx
    simp only [removeFromFreeList, hPrevAfter, Function.update_of_ne hx.2.1]
    rw [hPrev, hNext]
    exact ⟨storeAt_of_not_mem (.inr rfl) hx.1, storeAt_of_not_mem (.inl rfl) hx.2.2⟩

/-- An entry is returned to the free list; only its links and those of free entries change. -/
theorem Table.FreeList.add (h : t.FreeList free) (hNodup : free.Nodup) (he : e ∉ free) :
    (t.returnToFreeList e).FreeList (e :: free) ∧
      ∀ x ∉ e :: free, (t.returnToFreeList e).bucketNext x = t.bucketNext x ∧
        (t.returnToFreeList e).bucketPrev x = t.bucketPrev x := by
  have hInserted : Linked _ _ ([] ++ e :: free) := Linked.insert h.linked hNodup he
  refine ⟨⟨?_, rfl⟩, fun x hx => ?_⟩
  · simp only [returnToFreeList, h.head]
    exact hInserted
  · rw [List.mem_cons, not_or] at hx
    simp only [returnToFreeList, h.head]
    rw [storeAt_of_not_mem (.inl rfl) hx.2, Function.update_of_ne hx.1, Function.update_of_ne hx.1]
    exact ⟨rfl, rfl⟩

end

/-! ### The chains -/

namespace Buckets

variable {size : Nat} {next prev next' prev' : Nat → Option Nat} {mapTo mapTo' home home' : Nat → Nat}
  {used used' : List Nat} {chain : Nat → List Nat} {i : Nat} {l : List Nat}
  (h : Buckets size next prev mapTo home used chain)
include h

/-- Links and homes of entries that are not used do not matter. -/
theorem congr (hNext : ∀ x ∈ used, next' x = next x) (hPrev : ∀ x ∈ used, prev' x = prev x)
    (hHome : ∀ x ∈ used, home' x = home x) (hUsed : ∀ x, x ∈ used' ↔ x ∈ used) :
    Buckets size next' prev' mapTo home' used' chain := by
  refine ⟨fun b hb => ?_, h.nodup, h.head, fun b hb x => ?_⟩
  · exact (h.linked b hb).congr (fun x hx => hNext x ((h.mem b hb x).mp hx).1)
      fun x hx => hPrev x ((h.mem b hb x).mp hx).1
  · rw [h.mem b hb x, hUsed]
    refine and_congr_right fun hx => ?_
    rw [hHome x hx]

/-- The slots of empty chains may be mapped anywhere. -/
theorem congr_maps (hMaps : ∀ b < size, chain b ≠ [] → mapTo' b = mapTo b) :
    Buckets size next prev mapTo' home used chain := by
  refine ⟨h.linked, h.nodup, fun b hb x hx => ?_, h.mem⟩
  rw [hMaps b hb (List.ne_nil_of_mem (List.mem_of_mem_head? hx)), h.head b hb x hx]

/-- One chain is changed. -/
theorem replace (hi : i < size) (hLinked : Linked next' prev' l) (hNodup : l.Nodup)
    (hHead : ∀ x, l.head? = some x → mapTo' i = x)
    (hMem : ∀ x, x ∈ l ↔ x ∈ used' ∧ home' x = i)
    (hOther : ∀ b < size, b ≠ i → ∀ x, x ∈ chain b ↔ x ∈ used' ∧ home' x = b)
    (hNext : ∀ b < size, b ≠ i → ∀ x ∈ chain b, next' x = next x ∧ prev' x = prev x)
    (hMaps : ∀ b < size, b ≠ i → chain b ≠ [] → mapTo' b = mapTo b) :
    Buckets size next' prev' mapTo' home' used' (Function.update chain i l) := by
  constructor
  · intro b hb
    by_cases hbi : b = i
    · subst hbi
      rwa [Function.update_self]
    · rw [Function.update_of_ne hbi]
      exact (h.linked b hb).congr (fun x hx => (hNext b hb hbi x hx).1) fun x hx =>
        (hNext b hb hbi x hx).2
  · intro b hb
    by_cases hbi : b = i
    · subst hbi
      rwa [Function.update_self]
    · rw [Function.update_of_ne hbi]
      exact h.nodup b hb
  · intro b hb x hx
    by_cases hbi : b = i
    · subst hbi
      rw [Function.update_self] at hx
      exact hHead x hx
    · rw [Function.update_of_ne hbi] at hx
      rw [hMaps b hb hbi (List.ne_nil_of_mem (List.mem_of_mem_head? hx)), h.head b hb x hx]
  · intro b hb x
    by_cases hbi : b = i
    · subst hbi
      rw [Function.update_self, hMem]
    · rw [Function.update_of_ne hbi, hOther b hb hbi]

end Buckets

end BeShare.Muscle.Hashtable
