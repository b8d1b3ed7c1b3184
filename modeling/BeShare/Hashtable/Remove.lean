import BeShare.Hashtable.Insert

/-! `RemoveAux`, `Clear` and the moves on the index structures. -/

namespace BeShare.Muscle.Hashtable

open BeShare.Lib

variable {K V : Type} [BEq K] {functor : K → UInt32} {t : Table K V} {order free : List Nat}
  {chain : Nat → List Nat}

/-! ### The chain of a removed entry -/

namespace Buckets

variable {size : Nat} {next prev next' prev' : Nat → Option Nat} {mapTo mapTo' home home' : Nat → Nat}
  {used used' : List Nat} {b e : Nat} {l : List Nat}

/-- An entry is taken out of its chain, of which `l` is left. -/
theorem remove (h : Buckets size next prev mapTo home used chain) (hb : b < size)
    (hUsed : ∀ x, x ∈ used' ↔ x ∈ used ∧ x ≠ e) (hHome : ∀ x ∈ used, x ≠ e → home' x = home x)
    (he : home e = b) (hLinked : Linked next' prev' l) (hNodup : l.Nodup)
    (hHead : ∀ x, l.head? = some x → mapTo' b = x) (hMem : ∀ x, x ∈ l ↔ x ∈ chain b ∧ x ≠ e)
    (hNext : ∀ x ∉ chain b, next' x = next x ∧ prev' x = prev x)
    (hMaps : ∀ c < size, c ≠ b → chain c ≠ [] → mapTo' c = mapTo c) :
    Buckets size next' prev' mapTo' home' used' (Function.update chain b l) := by
  have hApart : ∀ c < size, c ≠ b → ∀ x ∈ chain c, x ∉ chain b := fun c hc hcb x hx hxb =>
    hcb (((h.mem c hc x).mp hx).2.symm.trans ((h.mem b hb x).mp hxb).2)
  refine h.replace hb hLinked hNodup hHead (fun x => ?_) (fun c hc hcb x => ?_)
    (fun c hc hcb x hx => hNext x (hApart c hc hcb x hx)) hMaps
  · rw [hMem, h.mem b hb, hUsed]
    constructor
    · rintro ⟨⟨hx, hHere⟩, hxe⟩
      exact ⟨⟨hx, hxe⟩, (hHome x hx hxe).trans hHere⟩
    · rintro ⟨⟨hx, hxe⟩, hHere⟩
      exact ⟨⟨hx, (hHome x hx hxe).symm.trans hHere⟩, hxe⟩
  · rw [h.mem c hc, hUsed]
    constructor
    · rintro ⟨hx, hHere⟩
      have hxe : x ≠ e := by
        rintro rfl
        exact hcb (hHere.symm.trans he)
      exact ⟨⟨hx, hxe⟩, (hHome x hx hxe).trans hHere⟩
    · rintro ⟨⟨hx, hxe⟩, hHere⟩
      exact ⟨hx, (hHome x hx hxe).symm.trans hHere⟩

end Buckets

/-- What `unchain` leaves behind. -/
structure Unchained (t : Table K V) (order : List Nat) (e : Nat) (bucketPrev bucketNext : Nat → Option Nat)
    (mapTo mappedFrom : Nat → Nat) (chain' : Nat → List Nat) : Prop where
  buckets : ∀ hash, Buckets t.tableSize bucketNext bucketPrev mapTo
    (fun x => t.home (Function.update t.hash e hash x)) (order.filter (· ≠ e)) chain'
  maps : MapsInverse t.tableSize mapTo mappedFrom
  others : ∀ x ∉ order, bucketNext x = t.bucketNext x ∧ bucketPrev x = t.bucketPrev x

theorem Table.Slots.unchain_spec (h : t.Slots functor order free chain) {e : Nat} (he : e ∈ order)
    (hSize : 0 < t.tableSize) :
    ∃ bucketPrev bucketNext mapTo mappedFrom chain',
      t.unchain e = { t with bucketPrev, bucketNext, mapTo, mappedFrom } ∧
        Unchained t order e bucketPrev bucketNext mapTo mappedFrom chain' := by
  have hb : t.home (t.hash e) < t.tableSize := Nat.mod_lt _ hSize
  have hMem : e ∈ chain (t.home (t.hash e)) := (h.mem_chain hb).mpr ⟨he, rfl⟩
  obtain ⟨c, d, hChain⟩ := List.append_of_mem hMem
  have hLinked := h.buckets.linked _ hb
  have hNodup := h.buckets.nodup _ hb
  have hHeadMap := h.buckets.head _ hb
  have hChainUsed : ∀ x ∈ chain (t.home (t.hash e)), x ∈ order := fun x hx => ((h.mem_chain hb).mp hx).1
  rw [hChain] at hLinked hNodup hHeadMap hChainUsed
  have hPrev := hLinked.prev_eq
  have hNext := hLinked.next_eq
  have hUnlinked := hLinked.unlink hNodup
  rw [hPrev, hNext] at hUnlinked
  obtain ⟨hNodupC, hNodupD, hApart⟩ := List.nodup_append.mp hNodup
  rw [List.nodup_cons] at hNodupD
  have hRest : (c ++ d).Nodup := List.nodup_append.mpr
    ⟨hNodupC, hNodupD.2, fun x hx y hy => hApart x hx y (List.mem_cons_of_mem _ hy)⟩
  have hRestMem : ∀ x, x ∈ c ++ d ↔ x ∈ chain (t.home (t.hash e)) ∧ x ≠ e := by
    intro x
    rw [hChain]
    simp only [List.mem_append, List.mem_cons]
    constructor
    · rintro (hx | hx)
      · exact ⟨.inl hx, fun hxe => hApart x hx e (List.mem_cons_self ..) hxe⟩
      · exact ⟨.inr (.inr hx), fun hxe => hNodupD.1 (hxe ▸ hx)⟩
    · rintro ⟨hx | hx | hx, hxe⟩
      · exact .inl hx
      · exact absurd hx hxe
      · exact .inr hx
  -- the links that change are those of entries in the chain
  have hLinks : ∀ x ∉ chain (t.home (t.hash e)),
      storeAt t.bucketNext c.getLast? d.head? x = t.bucketNext x ∧
        storeAt t.bucketPrev d.head? c.getLast? x = t.bucketPrev x := by
    intro x hx
    rw [hChain, List.mem_append, List.mem_cons, not_or, not_or] at hx
    exact ⟨storeAt_of_not_mem (.inr rfl) hx.1, storeAt_of_not_mem (.inl rfl) hx.2.2⟩
  have hOthers : ∀ x ∉ order, storeAt t.bucketNext c.getLast? d.head? x = t.bucketNext x ∧
      storeAt t.bucketPrev d.head? c.getLast? x = t.bucketPrev x := fun x hx =>
    hLinks x fun hMem => hx (by rw [hChain] at hMem; exact hChainUsed x hMem)
  have hRemove : ∀ (mapTo : Nat → Nat) (hash : UInt32),
      (∀ x, (c ++ d).head? = some x → mapTo (t.home (t.hash e)) = x) →
      (∀ i < t.tableSize, i ≠ t.home (t.hash e) → chain i ≠ [] → mapTo i = t.mapTo i) →
      Buckets t.tableSize (storeAt t.bucketNext c.getLast? d.head?)
        (storeAt t.bucketPrev d.head? c.getLast?) mapTo
        (fun x => t.home (Function.update t.hash e hash x)) (order.filter (· ≠ e))
        (Function.update chain (t.home (t.hash e)) (c ++ d)) := by
    intro mapTo hash hHead hMaps
    refine h.buckets.remove hb (by simp) (fun x _ hxe => ?_) rfl hUnlinked hRest hHead hRestMem hLinks hMaps
    rw [Function.update_of_ne hxe]
  rcases List.eq_nil_or_concat c with rfl | ⟨c', p, rfl⟩
  · have hMap : t.mapTo (t.home (t.hash e)) = e := hHeadMap e rfl
    have hFrom : t.mappedFrom e = t.home (t.hash e) := by
      have hInverse := h.maps.mappedFrom_mapTo _ hb
      rwa [hMap] at hInverse
    cases d with
    | nil =>
      refine ⟨_, _, t.mapTo, t.mappedFrom, _, ?_, fun hash => hRemove t.mapTo hash (by simp)
        (fun _ _ _ _ => rfl), h.maps, hOthers⟩
      simp only [unchain, hPrev, hNext]
      rfl
    | cons n d =>
      -- the slot is swapped with the one that is mapped to the next entry of the chain
      have hn : n ∈ order := hChainUsed n (by simp)
      have hnLt := h.lt hn
      have hFromN := h.maps.mappedFrom_lt n hnLt
      have hne : n ≠ e := fun hEq => hNodupD.1 (by simp [hEq])
      refine ⟨_, _, (t.swapMaps (t.home (t.hash e)) (t.mappedFrom n)).mapTo,
        (t.swapMaps (t.home (t.hash e)) (t.mappedFrom n)).mappedFrom, _, ?_, fun hash => hRemove _ hash ?_ ?_,
        h.maps.swap hb hFromN, hOthers⟩
      · simp only [unchain, hPrev, hNext, hFrom]
        rfl
      · intro x hx
        rw [swapMaps_left, h.maps.mapTo_mappedFrom n hnLt]
        exact Option.some.inj hx
      · intro i hi hib hChainI
        refine swapMaps_other hib fun hEq => hib ?_
        cases hC : (chain i).head? with
        | none => exact absurd (List.head?_eq_none_iff.mp hC) hChainI
        | some x =>
          have hxn : x = n := by
            rw [← h.buckets.head i hi x hC, hEq, h.maps.mapTo_mappedFrom n hnLt]
          have hHere := ((h.mem_chain hi).mp (List.mem_of_mem_head? hC)).2
          have hThere := ((h.mem_chain hb).mp (show n ∈ chain (t.home (t.hash e)) by rw [hChain]; simp)).2
          rw [← hHere, hxn, hThere]
  · have hLast : (c'.concat p).getLast? = some p := by simp
    refine ⟨_, _, t.mapTo, t.mappedFrom, _, ?_, fun hash => hRemove t.mapTo hash (fun x hx => ?_)
      (fun _ _ _ _ => rfl), h.maps, hOthers⟩
    · simp only [unchain, hPrev, hNext, hLast]
      rfl
    · refine hHeadMap x ?_
      rw [List.concat_eq_append, List.append_assoc, List.head?_append] at hx ⊢
      cases c' <;> simpa using hx

/-! ### Removals -/

/-- The table without the entry `e`. -/
def Table.dropEntry [Inhabited K] [Inhabited V] (t : Table K V) (e : Nat) : Table K V :=
  { ((t.removeIterationEntry e).unchain e).returnToFreeList e with count := t.count - 1 }

theorem filter_ne_append {a b : List Nat} {e : Nat} (hNodup : (a ++ e :: b).Nodup) :
    (a ++ e :: b).filter (· ≠ e) = a ++ b := by
  obtain ⟨-, hNodupB, hApart⟩ := List.nodup_append.mp hNodup
  have hA : a.filter (· ≠ e) = a := List.filter_eq_self.mpr fun x hx => by
    simpa using hApart x hx e (List.mem_cons_self ..)
  have hB : b.filter (· ≠ e) = b := List.filter_eq_self.mpr fun x hx => by
    have hxe : x ≠ e := fun hEq => (List.nodup_cons.mp hNodupB).1 (hEq ▸ hx)
    simpa using hxe
  rw [List.filter_append, hA, List.filter_cons_of_neg (by simp), hB]

theorem Table.Slots.dropEntry_spec [Inhabited K] [Inhabited V] {a b : List Nat} {e : Nat}
    (h : t.Slots functor (a ++ e :: b) free chain) (hSize : 0 < t.tableSize) :
    (t.dropEntry e).key = Function.update t.key e default ∧
      (t.dropEntry e).value = Function.update t.value e default ∧ t.KeepsArray (t.dropEntry e) ∧
      (t.dropEntry e).iterList = t.iterList ∧ (t.dropEntry e).iterators = t.onIterList (t.leaveEntry e) ∧
      ∃ free' chain', (t.dropEntry e).Slots functor (a ++ b) free' chain' := by
  have hMem : e ∈ a ++ e :: b := by simp
  have hNodup := h.order_nodup
  have hNotFree := h.not_mem_free hMem
  have hIteration := h.iteration.remove hNodup
  -- the iteration list plays no part in the chains
  have hSame : (t.removeIterationEntry e).unchain e =
      { t.unchain e with
        iterators := (t.removeIterationEntry e).iterators
        iterHead := (t.removeIterationEntry e).iterHead
        iterTail := (t.removeIterationEntry e).iterTail
        iterNext := (t.removeIterationEntry e).iterNext
        iterPrev := (t.removeIterationEntry e).iterPrev } := by
    simp only [unchain, removeIterationEntry]
    split <;> rfl
  obtain ⟨bucketPrev, bucketNext, mapTo, mappedFrom, chain', hUnchain, hUnchained⟩ :=
    h.unchain_spec hMem hSize
  have hBuckets := hUnchained.buckets MUSCLE_HASHTABLE_INVALID_HASH_CODE
  rw [filter_ne_append hNodup] at hBuckets
  have hDrop : t.dropEntry e = { (t.removeIterationEntry e) with
      bucketPrev := storeAt (Function.update bucketPrev e none) t.freeHead (some e)
      bucketNext := Function.update bucketNext e t.freeHead
      mapTo, mappedFrom
      freeHead := some e
      hash := Function.update t.hash e MUSCLE_HASHTABLE_INVALID_HASH_CODE
      key := Function.update t.key e default
      value := Function.update t.value e default
      iterPrev := Function.update (t.removeIterationEntry e).iterPrev e none
      iterNext := Function.update (t.removeIterationEntry e).iterNext e none
      count := t.count - 1 } := by
    rw [dropEntry, hSame, hUnchain]
    rfl
  rw [hDrop]
  refine ⟨rfl, rfl, ⟨⟨rfl, rfl, rfl, rfl⟩, rfl, rfl⟩, rfl, rfl, e :: free, chain', ?_⟩
  have hFreeLinked : FreeList { t with bucketPrev, bucketNext } free := by
    refine ⟨h.freeList.linked.congr (fun x hx => ?_) fun x hx => ?_, h.freeList.head⟩
    · exact (hUnchained.others x fun hOrder => h.not_mem_free hOrder hx).1
    · exact (hUnchained.others x fun hOrder => h.not_mem_free hOrder hx).2
  obtain ⟨hFreed, hFrame⟩ := hFreeLinked.add h.free_nodup hNotFree
  have hOther : ∀ x ∈ a ++ b, x ≠ e := by
    intro x hx
    rw [← filter_ne_append hNodup] at hx
    simpa using (List.mem_filter.mp hx).2
  have hOld : ∀ x ∈ a ++ b, x ∈ a ++ e :: b := by
    intro x hx
    rw [← filter_ne_append hNodup] at hx
    exact (List.mem_filter.mp hx).1
  constructor
  · refine List.Perm.trans ?_ h.perm
    rw [List.append_assoc, List.append_assoc, List.cons_append]
    exact List.Perm.append_left a List.perm_middle
  · show t.count - 1 = (a ++ b).length
    have hCount := h.count
    rw [List.length_append, List.length_cons] at hCount
    rw [List.length_append]
    omega
  · refine ⟨hIteration.linked.congr (fun x hx => ?_) fun x hx => ?_, hIteration.head, hIteration.tail⟩
    · exact Function.update_of_ne (hOther x hx) _ _
    · exact Function.update_of_ne (hOther x hx) _ _
  · exact ⟨hFreed.linked, hFreed.head⟩
  · intro x hx
    show Function.update t.hash e _ x = _
    rcases List.mem_cons.mp hx with rfl | hFree
    · rw [Function.update_self]
    · have hxe : x ≠ e := fun hEq => hNotFree (hEq ▸ hFree)
      rw [Function.update_of_ne hxe]
      exact h.unused x hFree
  · intro x hx
    show Function.update t.hash e _ x = computeHash functor (Function.update t.key e default x)
    rw [Function.update_of_ne (hOther x hx), Function.update_of_ne (hOther x hx)]
    exact h.used x (hOld x hx)
  · refine hBuckets.congr (fun x hx => ?_) (fun x hx => ?_) (fun _ _ => rfl) fun _ => Iff.rfl
    · refine (hFrame x ?_).1
      exact List.not_mem_cons_of_ne_of_not_mem (hOther x hx) (h.not_mem_free (hOld x hx))
    · refine (hFrame x ?_).2
      exact List.not_mem_cons_of_ne_of_not_mem (hOther x hx) (h.not_mem_free (hOld x hx))
  · exact hUnchained.maps
  · intro x hx y hy hSameKey
    have hSameKey : t.keysEqual (Function.update t.key e default x) (Function.update t.key e default y) =
        true := hSameKey
    rw [Function.update_of_ne (hOther x hx), Function.update_of_ne (hOther y hy)] at hSameKey
    exact h.distinct x (hOld x hx) y (hOld y hy) hSameKey

end BeShare.Muscle.Hashtable
