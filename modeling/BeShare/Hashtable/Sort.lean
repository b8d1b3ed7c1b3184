import BeShare.Hashtable.PutAux
import BeShare.Lib.StableSort

/-! `SortByAux` sorts the iteration list stably. -/

namespace BeShare.Muscle.Hashtable

open BeShare.Lib

variable {K V : Type} {t t' : Table K V} {compare : Nat → Nat → Int}

/-- The order of the entries that the comparison gives. -/
def entryLE (compare : Nat → Nat → Int) (a b : Nat) : Bool := decide (compare a b ≤ 0)

namespace Table

/-- The more-sorted list is `out`; its last entry is not linked to a next one yet. -/
structure SortedSoFar (t : Table K V) (out : List Nat) : Prop where
  linked : Linked (storeAt t.iterNext t.iterTail none) t.iterPrev out
  head : t.iterHead = out.head?
  tail : t.iterTail = out.getLast?

/-- What the passes change. -/
def SameEntries (t t' : Table K V) : Prop :=
  t' = { t with
    iterHead := t'.iterHead, iterTail := t'.iterTail, iterNext := t'.iterNext, iterPrev := t'.iterPrev }

theorem SameEntries.refl (t : Table K V) : t.SameEntries t := rfl

theorem SameEntries.trans {t'' : Table K V} (h : t.SameEntries t') (h' : t'.SameEntries t'') :
    t.SameEntries t'' := by
  rw [SameEntries, h', h]

theorem SortedSoFar.append {out : List Nat} {e : Nat} (h : t.SortedSoFar out) (hNodup : out.Nodup)
    (he : e ∉ out) : (t.appendSorted e).SortedSoFar (out ++ [e]) := by
  have hTail : t.iterTail ≠ some e := by
    rw [h.tail]
    exact not_getLast?_of_not_mem he
  have hLinked : Linked (storeAt t.iterNext t.iterTail none) t.iterPrev (out ++ []) := by
    rw [List.append_nil]
    exact h.linked
  have hInserted := hLinked.insert (by rwa [List.append_nil]) (by rwa [List.append_nil])
  rw [← h.tail] at hInserted
  refine ⟨hInserted.congr (fun x _ => ?_) fun x _ => rfl, ?_, ?_⟩
  · simp only [appendSorted, List.head?_nil]
    cases hLast : t.iterTail with
    | none => rfl
    | some y =>
      have hye : y ≠ e := fun hEq => hTail (by rw [hLast, hEq])
      simp only [storeAt, Function.update_apply]
      by_cases hxe : x = e
      · rw [if_pos hxe, if_neg (hxe ▸ Ne.symm hye), if_pos hxe]
      · by_cases hxy : x = y
        · rw [if_neg hxe, if_pos hxy, if_pos hxy]
        · rw [if_neg hxe, if_neg hxy, if_neg hxy, if_neg hxe, if_neg hxy]
  · simp only [appendSorted, h.head, h.tail]
    cases out <;> simp
  · simp [appendSorted]

/-- The links of entries that are not in the more-sorted list stay. -/
theorem appendSorted_forward {out l : List Nat} {e : Nat} {n : Option Nat} (h : t.SortedSoFar out)
    (hApart : ∀ x ∈ l, x ∉ out) (hForward : Forward t.iterNext l n) :
    Forward (t.appendSorted e).iterNext l n := by
  refine hForward.congr fun x hx => storeAt_ne ?_
  rw [h.tail]
  exact not_getLast?_of_not_mem (hApart x hx)

section mergeLoop

variable {fuel psize qsize x y : Nat} {p q : Option Nat}

theorem mergeLoop_end (h : qsize = 0 ∨ q = none) :
    mergeLoop compare (fuel + 1) t p 0 q qsize = .ok (t, q) := by
  rcases h with rfl | rfl
  · cases p <;> cases q <;> simp [mergeLoop]
  · cases p <;> simp [mergeLoop]

theorem mergeLoop_first
    (h : qsize = 0 ∨ q = none ∨ ∃ y, q = some y ∧ compare x y ≤ 0) :
    mergeLoop compare (fuel + 1) t (some x) (psize + 1) q qsize =
      mergeLoop compare fuel (t.appendSorted x) (t.iterNext x) psize q qsize := by
  rcases h with rfl | rfl | ⟨y, rfl, hLE⟩
  · cases q <;> simp [mergeLoop]
  · simp [mergeLoop]
  · simp [mergeLoop, hLE]

theorem mergeLoop_second (h : psize = 0 ∨ ∃ x, p = some x ∧ ¬compare x y ≤ 0) :
    mergeLoop compare (fuel + 1) t p psize (some y) (qsize + 1) =
      mergeLoop compare fuel (t.appendSorted y) p psize (t.iterNext y) qsize := by
  rcases h with rfl | ⟨x, rfl, hLE⟩
  · cases p <;> simp [mergeLoop]
  · cases psize <;> simp [mergeLoop, hLE]

end mergeLoop

theorem mergeLoop_spec (compare : Nat → Nat → Int) (qsize fuel : Nat) {out p r : List Nat} {n : Option Nat}
    (hSorted : t.SortedSoFar out) (hNodup : (out ++ (p ++ r)).Nodup) (hp : Forward t.iterNext p n)
    (hr : Forward t.iterNext r none) (hFuel : p.length + (r.take qsize).length < fuel) :
    ∃ t', mergeLoop compare fuel t (p.head?.or n) p.length r.head? qsize =
        .ok (t', (r.drop qsize).head?) ∧ t.SameEntries t' ∧
      t'.SortedSoFar (out ++ p.merge (r.take qsize) (entryLE compare)) ∧
      Forward t'.iterNext (r.drop qsize) none := by
  induction fuel generalizing t out p r n qsize with
  | zero => omega
  | succ fuel ih =>
    rw [List.nodup_append] at hNodup
    obtain ⟨hNodupOut, hNodupRest, hApart⟩ := hNodup
    have hNotOut : ∀ x ∈ p ++ r, x ∉ out := fun x hx hOut => hApart x hOut x hx rfl
    -- the entry `x` is appended and taken from the lists, of which `p'` and `r'` are left
    have hStep : ∀ (x : Nat) (p' r' : List Nat) (n' : Option Nat) (qsize' : Nat),
        (p ++ r).Perm (x :: (p' ++ r')) → Forward t.iterNext p' n' → Forward t.iterNext r' none →
        p'.length + (r'.take qsize').length < fuel →
        ∃ t', mergeLoop compare fuel (t.appendSorted x) (p'.head?.or n') p'.length r'.head? qsize' =
            .ok (t', (r'.drop qsize').head?) ∧ t.SameEntries t' ∧
          t'.SortedSoFar (out ++ x :: p'.merge (r'.take qsize') (entryLE compare)) ∧
          Forward t'.iterNext (r'.drop qsize') none := by
      intro x p' r' n' qsize' hPerm hp' hr' hFuel'
      have hNodup' := hPerm.nodup_iff.mp hNodupRest
      rw [List.nodup_cons] at hNodup'
      have hLater : ∀ y ∈ p' ++ r', y ∉ out := fun y hy =>
        hNotOut y (hPerm.mem_iff.mpr (List.mem_cons_of_mem _ hy))
      have hx : x ∉ out := hNotOut x (hPerm.mem_iff.mpr (List.mem_cons_self ..))
      have hNodupNext : (out ++ [x] ++ (p' ++ r')).Nodup := by
        rw [List.append_assoc, List.singleton_append]
        refine List.nodup_append.mpr ⟨hNodupOut, List.nodup_cons.mpr hNodup', fun y hy z hz => ?_⟩
        exact hApart y hy z (hPerm.mem_iff.mpr hz)
      obtain ⟨t', hRun, hSame, hSorted', hForward'⟩ := ih _ (hSorted.append hNodupOut hx) hNodupNext
        (appendSorted_forward hSorted (fun y hy => hLater y (List.mem_append_left _ hy)) hp')
        (appendSorted_forward hSorted (fun y hy => hLater y (List.mem_append_right _ hy)) hr') hFuel'
      refine ⟨t', hRun, (show t.SameEntries (t.appendSorted x) from rfl).trans hSame, ?_, hForward'⟩
      rwa [List.append_assoc] at hSorted'
    cases p with
    | nil =>
      cases qsize with
      | zero =>
        refine ⟨t, mergeLoop_end (.inl rfl), SameEntries.refl t, ?_, hr⟩
        rwa [List.take_zero, List.merge_right, List.append_nil]
      | succ qsize =>
        cases r with
        | nil =>
          refine ⟨t, mergeLoop_end (.inr rfl), SameEntries.refl t, ?_, trivial⟩
          rwa [List.take_nil, List.merge_right, List.append_nil]
        | cons y r =>
          obtain ⟨t', hRun, hRest⟩ := hStep y [] r n qsize (List.Perm.refl _) trivial hr.2
            (by simpa using hFuel)
          rw [List.nil_merge] at hRest
          rw [List.take_succ_cons, List.drop_succ_cons, List.nil_merge]
          refine ⟨t', ?_, hRest⟩
          have hNext := hr.1
          rw [Option.or_none] at hNext
          rw [← hRun, ← hNext]
          exact mergeLoop_second (.inl rfl)
    | cons x p =>
      -- the next entry comes from `p`
      have hFirst : (qsize = 0 ∨ r.head? = none ∨ ∃ y, r.head? = some y ∧ compare x y ≤ 0) →
          (x :: p).merge (r.take qsize) (entryLE compare) =
            x :: p.merge (r.take qsize) (entryLE compare) →
          ∃ t', mergeLoop compare (fuel + 1) t ((x :: p).head?.or n) (x :: p).length r.head? qsize =
              .ok (t', (r.drop qsize).head?) ∧ t.SameEntries t' ∧
            t'.SortedSoFar (out ++ (x :: p).merge (r.take qsize) (entryLE compare)) ∧
            Forward t'.iterNext (r.drop qsize) none := by
        intro hCase hMerge
        obtain ⟨t', hRun, hRest⟩ := hStep x p r n qsize (List.Perm.refl _) hp.2 hr
          (by rw [List.length_cons] at hFuel; omega)
        rw [hMerge]
        refine ⟨t', ?_, hRest⟩
        rw [← hRun, ← hp.1]
        exact mergeLoop_first hCase
      cases qsize with
      | zero => exact hFirst (.inl rfl) (by rw [List.take_zero, List.merge_right, List.merge_right])
      | succ qsize =>
        cases r with
        | nil =>
          exact hFirst (.inr (.inl rfl)) (by rw [List.take_nil, List.merge_right, List.merge_right])
        | cons y r =>
          rw [List.take_succ_cons, List.drop_succ_cons] at *
          by_cases hLE : compare x y ≤ 0
          · exact hFirst (.inr (.inr ⟨y, rfl, hLE⟩)) (List.cons_merge_cons_pos _ _ _ (by simpa [entryLE]))
          · obtain ⟨t', hRun, hRest⟩ := hStep y (x :: p) r n qsize List.perm_middle hp hr.2
              (by simp only [List.length_cons] at hFuel ⊢; omega)
            rw [List.cons_merge_cons_neg _ _ _ (by simpa [entryLE] using hLE)]
            refine ⟨t', ?_, hRest⟩
            have hNext := hr.1
            rw [Option.or_none] at hNext
            rw [← hRun, ← hNext]
            exact mergeLoop_second (.inr ⟨x, rfl, hLE⟩)

/-! ### The passes -/

theorem stepAlong_spec {l : List Nat} {x : Nat} (h : Forward t.iterNext (x :: l) none) {m : Nat}
    (hm : 0 < m) :
    t.stepAlong m x = (((x :: l).take m).length, ((x :: l).drop m).head?) := by
  induction m generalizing x l with
  | zero => omega
  | succ m ih =>
    have hNext := h.1
    rw [Option.or_none] at hNext
    cases l with
    | nil =>
      rw [List.head?_nil] at hNext
      simp [stepAlong, hNext]
    | cons y l =>
      rw [List.head?_cons] at hNext
      cases m with
      | zero => simp [stepAlong, hNext]
      | succ m =>
        rw [stepAlong, hNext]
        simp only
        rw [ih h.2 (by omega)]
        rfl

theorem mergePass_spec (compare : Nat → Nat → Int) (fuel steps numMerges : Nat) {out rest : List Nat} {m : Nat}
    (hm : 0 < m)
    (hSorted : t.SortedSoFar out) (hNodup : (out ++ rest).Nodup)
    (hForward : Forward t.iterNext rest none) (hFuel : rest.length < fuel)
    (hSteps : rest.length ≤ steps) :
    ∃ t' merges, mergePass compare m fuel steps t rest.head? numMerges = .ok (t', numMerges + merges) ∧
      t.SameEntries t' ∧ t'.SortedSoFar (out ++ mergeRuns (entryLE compare) m rest) ∧
      (merges = 0 ↔ rest = []) ∧ (merges ≤ 1 ↔ rest.length ≤ m + m) := by
  induction steps generalizing t out rest numMerges with
  | zero =>
    obtain rfl := List.length_eq_zero_iff.mp (Nat.le_zero.mp hSteps)
    refine ⟨t, 0, rfl, SameEntries.refl t, ?_, by simp⟩
    rwa [mergeRuns_nil, List.append_nil]
  | succ steps ih =>
    cases rest with
    | nil =>
      refine ⟨t, 0, rfl, SameEntries.refl t, ?_, by simp⟩
      rwa [mergeRuns_nil, List.append_nil]
    | cons x l =>
      have hSplit : (x :: l).take m ++ (x :: l).drop m = x :: l := List.take_append_drop ..
      have hParts := Forward.append.mp (hSplit ▸ hForward)
      have hp : ((x :: l).take m).head?.or (((x :: l).drop m).head?.or none) = some x := by
        obtain ⟨m, rfl⟩ : ∃ k, m = k + 1 := ⟨m - 1, by omega⟩
        rfl
      obtain ⟨t₁, hRun, hSame, hSorted₁, hForward₁⟩ := mergeLoop_spec compare m fuel
        hSorted (by rwa [hSplit]) hParts.1 hParts.2 (by
          simp only [List.length_take, List.length_drop] at hFuel ⊢
          omega)
      rw [hp] at hRun
      have hNodup₁ : (out ++ ((x :: l).take m).merge (((x :: l).drop m).take m) (entryLE compare) ++
          ((x :: l).drop m).drop m).Nodup := by
        refine (List.Perm.nodup_iff ?_).mpr hNodup
        rw [List.append_assoc]
        refine List.Perm.append_left out ?_
        calc (((x :: l).take m).merge (((x :: l).drop m).take m) (entryLE compare) ++
              ((x :: l).drop m).drop m).Perm
              ((x :: l).take m ++ ((x :: l).drop m).take m ++ ((x :: l).drop m).drop m) :=
              (List.merge_perm_append _).append_right _
          _ = x :: l := by rw [List.append_assoc, List.take_append_drop, List.take_append_drop]
      obtain ⟨t₂, merges, hRest, hSame₂, hSorted₂, hNone, -⟩ := ih (numMerges + 1) hSorted₁ hNodup₁
        hForward₁ (by simp only [List.length_drop]; omega)
        (by simp only [List.length_drop, List.length_cons] at hSteps ⊢; omega)
      refine ⟨t₂, merges + 1, ?_, hSame.trans hSame₂, ?_, by simp, ?_⟩
      · rw [List.head?_cons, mergePass, stepAlong_spec hForward hm]
        simp only
        rw [hRun, ok_bind]
        simp only
        rw [hRest]
        congr 2
        omega
      · rwa [mergeRuns_of_ne_nil hm (List.cons_ne_nil x l), ← List.append_assoc]
      · rw [Nat.add_le_add_iff_right (n := 1) (m := merges) (k := 0), Nat.le_zero, hNone,
          List.drop_drop, List.drop_eq_nil_iff]

/-- One pass over the whole list. -/
theorem sortPass_spec (compare : Nat → Nat → Int) (fuel : Nat) {l : List Nat} {m : Nat} (hm : 0 < m)
    (hIteration : t.IterationList l)
    (hNodup : l.Nodup) (hFuel : l.length < fuel) :
    ∃ t' merges, mergePass compare m fuel fuel { t with iterHead := none, iterTail := none } t.iterHead 0 =
        .ok (t', merges) ∧ t.SameEntries t' ∧ t'.SortedSoFar (mergeRuns (entryLE compare) m l) ∧
      (merges ≤ 1 ↔ l.length ≤ m + m) := by
  have hStart : { t with iterHead := none, iterTail := none }.SortedSoFar [] := ⟨trivial, rfl, rfl⟩
  obtain ⟨t', merges, hRun, hSame, hSorted, -, hMerges⟩ := mergePass_spec compare fuel fuel 0
    hm hStart hNodup (Forward.of_segment hIteration.linked) hFuel
    (Nat.le_of_lt hFuel)
  rw [← hIteration.head, Nat.zero_add] at hRun
  refine ⟨t', merges, hRun, ?_, hSorted, hMerges⟩
  exact (show t.SameEntries { t with iterHead := none, iterTail := none } from rfl).trans hSame

theorem sortLoop_spec (hTrans : ∀ a b c, entryLE compare a b → entryLE compare b c → entryLE compare a c)
    (hTotal : ∀ a b, entryLE compare a b || entryLE compare b a) (fuel steps : Nat) {l : List Nat}
    {d : List (Nat × Nat)} {m : Nat} (hm : 0 < m) (hIteration : t.IterationList (d.map Prod.fst))
    (hRuns : Runs (entryLE compare) m d) (hPerm : d.Perm l.zipIdx) (hNodup : l.Nodup) (hNotNil : l ≠ [])
    (hLength : l.length < 2 ^ 30) (hFuel : l.length < fuel) (hSteps : 0 < steps)
    (hEnough : l.length ≤ m + steps) :
    ∃ t', sortLoop compare fuel steps t m = .ok t' ∧ t.SameEntries t' ∧
      t'.IterationList (l.mergeSort (entryLE compare)) := by
  induction steps generalizing t d m with
  | zero => omega
  | succ steps ih =>
    have hEntries : (d.map Prod.fst).Perm l := by
      have hMap := hPerm.map Prod.fst
      rwa [List.zipIdx_map_fst] at hMap
    have hCount : d.length = l.length := by rw [hPerm.length_eq, List.length_zipIdx]
    obtain ⟨t₁, merges, hRun, hSame, hSorted, hMerges⟩ := sortPass_spec compare fuel hm
      hIteration (hEntries.nodup_iff.mpr hNodup) (by rw [List.length_map]; omega)
    obtain ⟨hRuns₁, hMap⟩ := hRuns.merge hTrans hTotal hm
    rw [← hMap] at hSorted
    have hPerm₁ := (mergeRuns_perm (List.zipIdxLE (entryLE compare)) m d).trans hPerm
    have hSome : t₁.iterTail.isSome = true := by
      rw [hSorted.tail, List.getLast?_isSome]
      intro hNil
      have hZero := hPerm₁.length_eq
      rw [List.map_eq_nil_iff.mp hNil, List.length_zipIdx] at hZero
      exact hNotNil (List.length_eq_zero_iff.mp hZero.symm)
    rw [sortLoop, hRun, ok_bind]
    simp only
    split
    · rename_i hTail
      rw [hTail] at hSome
      cases hSome
    rename_i tail hTail
    have hNow : { t₁ with iterNext := Function.update t₁.iterNext tail none }.IterationList
        ((mergeRuns (List.zipIdxLE (entryLE compare)) m d).map Prod.fst) := by
      have hLinked := hSorted.linked
      rw [hTail] at hLinked
      exact ⟨hLinked, hSorted.head, hSorted.tail⟩
    have hSameNow : t.SameEntries { t₁ with iterNext := Function.update t₁.iterNext tail none } :=
      hSame.trans rfl
    split
    · rename_i hOne
      rw [hMerges, List.length_map, hCount] at hOne
      refine ⟨_, rfl, hSameNow, ?_⟩
      have hLast := hRuns₁.sorted (by rw [hPerm₁.length_eq, List.length_zipIdx]; exact hOne)
      rwa [eq_mergeSort hTrans hTotal hPerm₁ hLast] at hNow
    · rename_i hMore
      rw [hMerges, List.length_map, hCount] at hMore
      rw [Nat.mod_eq_of_lt (by omega : m * 2 < 2 ^ 32), Nat.mul_two]
      obtain ⟨t₂, hRun₂, hSame₂, hIteration₂⟩ := ih (by omega) hNow hRuns₁ hPerm₁ (by omega) (by omega)
      exact ⟨t₂, hRun₂, hSameNow.trans hSame₂, hIteration₂⟩

variable [BEq K] {functor : K → UInt32} {order : List Nat}

theorem Valid.sortLoop_spec (h : t.Valid functor order)
    (hTrans : ∀ a b c, entryLE compare a b → entryLE compare b c → entryLE compare a c)
    (hTotal : ∀ a b, entryLE compare a b || entryLE compare b a) {fuel : Nat} (hFuel : 2 ^ 33 ≤ fuel)
    (hNotNil : order ≠ []) :
    ∃ t', sortLoop compare fuel fuel t 1 = .ok t' ∧ t.SameEntries t' ∧
      t'.Valid functor (order.mergeSort (entryLE compare)) := by
  obtain ⟨x, hx⟩ := List.exists_mem_of_ne_nil _ hNotNil
  obtain ⟨hTable, hBounded, free, chain, hSlots⟩ := h.slots_of_mem hx
  have hCount := h.count_eq
  have hCountLt := h.count_lt
  have hFirst : order.zipIdx.map Prod.fst = order := List.zipIdx_map_fst ..
  have hIteration : t.IterationList (order.zipIdx.map Prod.fst) := by
    rw [hFirst]
    exact h.iterationList
  have hPositions : order.zipIdx.Pairwise fun a b => a.2 < b.2 := by
    rw [← List.pairwise_map (f := Prod.snd) (R := (· < ·)), List.zipIdx_map_snd]
    exact List.pairwise_lt_range'
  obtain ⟨t', hRun, hSame, hSorted⟩ := Table.sortLoop_spec hTrans hTotal fuel fuel
    Nat.one_pos hIteration (Runs.one hPositions) (List.Perm.refl _) hSlots.order_nodup hNotNil
    (by omega) (by omega) (by omega) (by omega)
  refine ⟨t', hRun, hSame, ?_⟩
  rw [hSame]
  refine ⟨h.capacity, h.size, fun hNone => absurd (hTable.symm.trans hNone) (by simp), fun _ =>
    ⟨hBounded, free, chain, hSlots.reorder (List.mergeSort_perm _ _)
      ⟨hSorted.linked, hSorted.head, hSorted.tail⟩ rfl⟩⟩

end Table

/-- A comparison that works like `strcmp`. -/
structure Strcmp {α : Type} (func : α → α → Int) : Prop where
  trans : ∀ a b c, func a b ≤ 0 → func b c ≤ 0 → func a c ≤ 0
  total : ∀ a b, func a b ≤ 0 ∨ func b a ≤ 0

section

variable {α : Type} {func : α → α → Int} (h : Strcmp func) (f : Nat → α)
include h

theorem Strcmp.entryLE_trans (a b c : Nat) :
    entryLE (fun x y => func (f x) (f y)) a b → entryLE (fun x y => func (f x) (f y)) b c →
      entryLE (fun x y => func (f x) (f y)) a c := by
  simp only [entryLE, decide_eq_true_eq]
  exact h.trans _ _ _

theorem Strcmp.entryLE_total (a b : Nat) :
    entryLE (fun x y => func (f x) (f y)) a b || entryLE (fun x y => func (f x) (f y)) b a := by
  simp only [entryLE, Bool.or_eq_true, decide_eq_true_eq]
  exact h.total _ _

end

namespace Table

variable [BEq K] {functor : K → UInt32} {order : List Nat}

omit [BEq K] in
/-- The sort of the entries is the sort of the items. -/
theorem items_mergeSort {le : K × V → K × V → Bool}
    (hLE : ∀ a b, entryLE compare a b = le (t.key a, t.value a) (t.key b, t.value b)) :
    t.items (order.mergeSort (entryLE compare)) = (t.items order).mergeSort le :=
  List.map_mergeSort fun a _ b _ => hLE a b

theorem Valid.sortByAux_spec (h : t.Valid functor order) {optKeyFunc : Option (K → K → Int)}
    {optValueFunc : Option (V → V → Int)} {le : K × V → K × V → Bool} {fuel : Nat}
    (hFuel : 2 ^ 33 ≤ fuel) (hSome : optKeyFunc.isSome ∨ optValueFunc.isSome)
    (hLE : ∀ a b, entryLE (t.compareEntries optKeyFunc optValueFunc) a b =
      le (t.key a, t.value a) (t.key b, t.value b))
    (hTrans : ∀ a b c, entryLE (t.compareEntries optKeyFunc optValueFunc) a b →
      entryLE (t.compareEntries optKeyFunc optValueFunc) b c →
      entryLE (t.compareEntries optKeyFunc optValueFunc) a c)
    (hTotal : ∀ a b, entryLE (t.compareEntries optKeyFunc optValueFunc) a b ||
      entryLE (t.compareEntries optKeyFunc optValueFunc) b a) :
    ∃ t', t.sortByAux fuel optKeyFunc optValueFunc = .ok (t', true) ∧ t.Keeps t' ∧
      t'.Holds functor ((t.items order).mergeSort le) := by
  have hHead : t.iterHead.isSome = true ↔ order ≠ [] := by
    rw [h.iterationList.head, List.isSome_head?]
  rw [sortByAux, if_pos hSome]
  by_cases hNil : order = []
  · subst hNil
    rw [if_neg (by rw [hHead]; simp)]
    exact ⟨t, rfl, ⟨rfl, rfl, rfl, rfl⟩, [], h, List.mergeSort_nil.symm⟩
  · obtain ⟨t', hRun, hSame, hValid⟩ := h.sortLoop_spec hTrans hTotal hFuel hNil
    rw [if_pos (hHead.mpr hNil), hRun, ok_bind]
    refine ⟨t', rfl, ?_, _, hValid, ?_⟩
    · rw [hSame]
      exact ⟨rfl, rfl, rfl, rfl⟩
    · rw [← items_mergeSort hLE, hSame]
      rfl

theorem Valid.sortByKey_spec (h : t.Valid functor order) {func : K → K → Int} (hFunc : Strcmp func)
    {fuel : Nat} (hFuel : 2 ^ 33 ≤ fuel) :
    ∃ t', t.sortByKey fuel (some func) = .ok (t', true) ∧ t.Keeps t' ∧
      t'.Holds functor (Assoc.sortByKey func (t.items order)) :=
  h.sortByAux_spec hFuel (.inl rfl) (fun _ _ => rfl) (hFunc.entryLE_trans t.key)
    (hFunc.entryLE_total t.key)

theorem Valid.sortByValue_spec (h : t.Valid functor order) {func : V → V → Int} (hFunc : Strcmp func)
    {fuel : Nat} (hFuel : 2 ^ 33 ≤ fuel) :
    ∃ t', t.sortByValue fuel (some func) = .ok (t', true) ∧ t.Keeps t' ∧
      t'.Holds functor (Assoc.sortByValue func (t.items order)) :=
  h.sortByAux_spec hFuel (.inr rfl) (fun _ _ => rfl) (hFunc.entryLE_trans t.value)
    (hFunc.entryLE_total t.value)

end Table

end BeShare.Muscle.Hashtable
