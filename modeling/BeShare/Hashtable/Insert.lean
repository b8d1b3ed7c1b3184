import BeShare.Hashtable.Links

/-! `PutAux` puts a new key into a free entry, at the end of the iteration list. -/

namespace BeShare.Muscle.Hashtable

open BeShare.Lib

variable {K V : Type} [BEq K] {functor : K → UInt32} {t : Table K V} {order free : List Nat}
  {chain : Nat → List Nat}

/-! ### The chain of the new entry -/

namespace Buckets

variable {size : Nat} {next prev next' prev' : Nat → Option Nat} {mapTo home home' : Nat → Nat}
  {used : List Nat} {b e slot : Nat}
  (h : Buckets size next prev mapTo home used chain) (hb : b < size) (he : e ∉ used)
  (hHome : ∀ x ∈ used, home' x = home x) (hNew : home' e = b)
include h hb he hHome hNew

omit hb in
theorem mem_added {c x : Nat} (hc : c < size) (hcb : c ≠ b) :
    x ∈ chain c ↔ x ∈ used ++ [e] ∧ home' x = c := by
  rw [h.mem c hc, List.mem_append, List.mem_singleton]
  constructor
  · rintro ⟨hx, rfl⟩
    exact ⟨.inl hx, hHome x hx⟩
  · rintro ⟨hx | rfl, rfl⟩
    · exact ⟨hx, (hHome x hx).symm⟩
    · exact absurd hNew hcb

theorem mem_added_here {x : Nat} : x ∈ used ++ [e] ∧ home' x = b ↔ x ∈ chain b ∨ x = e := by
  rw [h.mem b hb, List.mem_append, List.mem_singleton]
  constructor
  · rintro ⟨hx | rfl, hHere⟩
    · exact .inl ⟨hx, (hHome x hx).symm.trans hHere⟩
    · exact .inr rfl
  · rintro (⟨hx, rfl⟩ | rfl)
    · exact ⟨.inl hx, hHome x hx⟩
    · exact ⟨.inr rfl, hNew⟩

/-- The new entry is the first of its chain. -/
theorem add_first (hEmpty : chain b = []) (hMap : mapTo b = e) (hNext : next e = none)
    (hPrev : prev e = none) :
    Buckets size next prev mapTo home' (used ++ [e]) (Function.update chain b [e]) := by
  refine h.replace hb ⟨hPrev, hNext, trivial⟩ (List.nodup_singleton e) (fun x hx => ?_) (fun x => ?_)
    (fun c hc hcb x => h.mem_added he hHome hNew hc hcb) (fun _ _ _ _ _ => ⟨rfl, rfl⟩)
    fun _ _ _ _ => rfl
  · rw [hMap]
    exact Option.some.inj hx
  · rw [h.mem_added_here hb he hHome hNew, hEmpty]
    simp

/-- The new entry goes behind the first one of its chain. -/
theorem add_second {l : List Nat} (hChain : chain b = slot :: l)
    (hNext : next' = Function.update (Function.update next e l.head?) slot (some e))
    (hPrev : prev' = storeAt (Function.update prev e (some slot)) l.head? (some e)) :
    Buckets size next' prev' mapTo home' (used ++ [e]) (Function.update chain b (slot :: e :: l)) := by
  have hLinked := h.linked b hb
  have hNodup := h.nodup b hb
  have hNotMem : ∀ c < size, e ∉ chain c := fun c hc hMem => he ((h.mem c hc e).mp hMem).1
  have hNotHere := hNotMem b hb
  rw [hChain] at hLinked hNodup hNotHere
  have hSlotHere : slot ∈ chain b := by simp [hChain]
  subst hNext hPrev
  refine h.replace hb ?_ ?_ (fun x hx => ?_) (fun x => ?_)
    (fun c hc hcb x => h.mem_added he hHome hNew hc hcb) (fun c hc hcb x hx => ?_)
    fun _ _ _ _ => rfl
  · have hSplit : Linked next prev ([slot] ++ l) := hLinked
    exact hSplit.insert hNodup hNotHere
  · rw [List.mem_cons, not_or] at hNotHere
    rw [List.nodup_cons] at hNodup
    exact List.nodup_cons.mpr ⟨by simpa using ⟨Ne.symm hNotHere.1, hNodup.1⟩,
      List.nodup_cons.mpr ⟨hNotHere.2, hNodup.2⟩⟩
  · rw [← Option.some.inj hx]
    exact h.head b hb slot (by rw [hChain]; rfl)
  · rw [h.mem_added_here hb he hHome hNew, hChain]
    simp only [List.mem_cons]
    tauto
  · -- the links that change are those of `e` and of entries in the chain `b`
    have hApart : ∀ y ∈ chain b, x ≠ y := by
      rintro y hy rfl
      exact hcb (((h.mem c hc x).mp hx).2.symm.trans ((h.mem b hb x).mp hy).2)
    have hxe : x ≠ e := fun hEq => hNotMem c hc (hEq ▸ hx)
    constructor
    · rw [Function.update_of_ne (hApart slot hSlotHere), Function.update_of_ne hxe]
    · rw [storeAt_ne, Function.update_of_ne hxe]
      intro hHead
      refine hApart x ?_ rfl
      rw [hChain]
      exact List.mem_cons_of_mem _ (List.mem_of_mem_head? hHead)

end Buckets

/-! ### The place of the new entry -/

/-- What `placeEntry` leaves behind for the new entry `e` of the hash code `hash`. -/
structure Placed (t : Table K V) (order free : List Nat) (hash : UInt32) (e : Nat)
    (bucketPrev bucketNext : Nat → Option Nat) (mapTo mappedFrom : Nat → Nat)
    (freeHead : Option Nat) (free' : List Nat) (chain' : Nat → List Nat) : Prop where
  perm : free.Perm (e :: free')
  linked : Linked bucketNext bucketPrev free'
  head : freeHead = free'.head?
  buckets : Buckets t.tableSize bucketNext bucketPrev mapTo
    (fun x => t.home (Function.update t.hash e hash x)) (order ++ [e]) chain'
  maps : MapsInverse t.tableSize mapTo mappedFrom

variable (h : t.Slots functor order free chain)
include h

theorem Table.Slots.free_cons (hRoom : t.count < t.tableSize) :
    ∃ e free', free = e :: free' ∧ t.freeHead = some e := by
  have hLength := h.length_eq
  rw [← h.count] at hLength
  cases free with
  | nil =>
    rw [List.length_nil] at hLength
    omega
  | cons e free' => exact ⟨e, free', rfl, h.freeList.head⟩

/-- The state of the chains after an entry was taken from the free list. -/
theorem Table.Slots.buckets_taken {a b : List Nat} {e : Nat} {mapTo : Nat → Nat}
    (hFree : free = a ++ e :: b) (hMaps : ∀ c < t.tableSize, chain c ≠ [] → mapTo c = t.mapTo c) :
    Buckets t.tableSize (t.removeFromFreeList e).bucketNext (t.removeFromFreeList e).bucketPrev mapTo
      (fun e => t.home (t.hash e)) order chain := by
  have hNodup := h.free_nodup
  have hFreeList := h.freeList
  rw [hFree] at hNodup hFreeList
  obtain ⟨-, -, -, hFrame⟩ := hFreeList.remove hNodup
  have hOutside : ∀ x ∈ order, x ∉ a ++ e :: b := fun x hx => by
    rw [← hFree]
    exact h.not_mem_free hx
  exact (h.buckets.congr_maps hMaps).congr (fun x hx => (hFrame x (hOutside x hx)).1)
    (fun x hx => (hFrame x (hOutside x hx)).2) (fun _ _ => rfl) fun _ => Iff.rfl

/-- A free entry becomes the first one of an empty chain, whose slot is mapped to it. -/
theorem Table.Slots.placed_first {a b : List Nat} {e : Nat} {hash : UInt32} {mapTo mappedFrom : Nat → Nat}
    (hSize : 0 < t.tableSize) (hFree : free = a ++ e :: b) (hEmpty : chain (t.home hash) = [])
    (hMap : mapTo (t.home hash) = e)
    (hMaps : ∀ c < t.tableSize, chain c ≠ [] → mapTo c = t.mapTo c)
    (hInverse : MapsInverse t.tableSize mapTo mappedFrom) :
    Placed t order free hash e (t.removeFromFreeList e).bucketPrev
      (t.removeFromFreeList e).bucketNext mapTo mappedFrom (t.removeFromFreeList e).freeHead (a ++ b)
      (Function.update chain (t.home hash) [e]) := by
  have hNotUsed : e ∉ order := fun he => h.not_mem_free he (by rw [hFree]; simp)
  have hTaken := h.buckets_taken hFree hMaps
  have hNodup := h.free_nodup
  have hFreeList := h.freeList
  rw [hFree] at hNodup hFreeList
  obtain ⟨hRest, hNext, hPrev, -⟩ := hFreeList.remove hNodup
  refine ⟨by rw [hFree]; exact List.perm_middle, hRest.linked, hRest.head, ?_, hInverse⟩
  refine hTaken.add_first (Nat.mod_lt _ hSize) hNotUsed (fun x hx => ?_) ?_ hEmpty hMap hNext hPrev
  · have hxe : x ≠ e := fun hEq => hNotUsed (hEq ▸ hx)
    rw [Function.update_of_ne hxe]
  · rw [Function.update_self]

/-- A free entry goes behind the first entry of its chain. -/
theorem Table.Slots.placed_second {b l : List Nat} {e : Nat} {hash : UInt32}
    (hSize : 0 < t.tableSize) (hFree : free = e :: b)
    (hChain : chain (t.home hash) = t.mapTo (t.home hash) :: l) :
    Placed t order free hash e
      (storeAt (Function.update (t.removeFromFreeList e).bucketPrev e (some (t.mapTo (t.home hash))))
        l.head? (some e))
      (Function.update (Function.update (t.removeFromFreeList e).bucketNext e l.head?)
        (t.mapTo (t.home hash)) (some e))
      t.mapTo t.mappedFrom (t.removeFromFreeList e).freeHead b
      (Function.update chain (t.home hash) (t.mapTo (t.home hash) :: e :: l)) := by
  have hb : t.home hash < t.tableSize := Nat.mod_lt _ hSize
  have hFree' : free = [] ++ e :: b := hFree
  have hNotUsed : e ∉ order := fun he => h.not_mem_free he (by rw [hFree]; simp)
  have hTaken := h.buckets_taken hFree' fun _ _ _ => rfl
  have hNodup := h.free_nodup
  have hFreeList := h.freeList
  rw [hFree'] at hNodup hFreeList
  obtain ⟨hRest, -, -, -⟩ := hFreeList.remove hNodup
  refine ⟨by rw [hFree], ?_, hRest.head, ?_, h.maps⟩
  · -- the free entries are not in the chain
    have hApart : ∀ x ∈ b, x ≠ e ∧ x ∉ chain (t.home hash) := by
      intro x hx
      constructor
      · rintro rfl
        exact (List.nodup_cons.mp hNodup).1 hx
      · intro hMem
        exact h.not_mem_free ((h.mem_chain hb).mp hMem).1 (by rw [hFree]; exact List.mem_cons_of_mem _ hx)
    refine hRest.linked.congr (fun x hx => ?_) fun x hx => ?_
    · have hSlot : x ≠ t.mapTo (t.home hash) := fun hEq => (hApart x hx).2 (by rw [hChain, hEq]; simp)
      rw [Function.update_of_ne hSlot, Function.update_of_ne (hApart x hx).1]
    · rw [storeAt_ne, Function.update_of_ne (hApart x hx).1]
      intro hHead
      refine (hApart x hx).2 ?_
      rw [hChain]
      exact List.mem_cons_of_mem _ (List.mem_of_mem_head? hHead)
  · refine hTaken.add_second hb hNotUsed (fun x hx => ?_) ?_ hChain rfl rfl
    · have hxe : x ≠ e := fun hEq => hNotUsed (hEq ▸ hx)
      rw [Function.update_of_ne hxe]
    · rw [Function.update_self]

/-- `placeEntry` finds a free entry for every hash code. -/
theorem Table.Slots.placeEntry_spec (hash : UInt32) (hSize : 0 < t.tableSize)
    (hRoom : t.count < t.tableSize) :
    ∃ e bucketPrev bucketNext mapTo mappedFrom freeHead free' chain',
      t.placeEntry hash = .ok ({ t with bucketPrev, bucketNext, mapTo, mappedFrom, freeHead }, e) ∧
        Placed t order free hash e bucketPrev bucketNext mapTo mappedFrom freeHead free' chain' := by
  obtain ⟨f, free', hFree, hHead⟩ := h.free_cons hRoom
  have hb : t.home hash < t.tableSize := Nat.mod_lt _ hSize
  have hSlot : t.mapTo (t.home hash) < t.tableSize := h.maps.mapTo_lt _ hb
  by_cases hBucketHead : t.isBucketHead (t.mapTo (t.home hash))
  · have hChainHead := (h.isBucketHead_iff hb).mp hBucketHead
    obtain ⟨l, hChain⟩ : ∃ l, chain (t.home hash) = t.mapTo (t.home hash) :: l := by
      cases hC : chain (t.home hash) with
      | nil => rw [hC] at hChainHead; cases hChainHead
      | cons x l =>
        rw [hC] at hChainHead
        exact ⟨l, by rw [Option.some.inj hChainHead]⟩
    have hNext : (t.removeFromFreeList f).bucketNext (t.mapTo (t.home hash)) = l.head? := by
      have hFree' : free = [] ++ f :: free' := hFree
      have hLinked := (h.buckets_taken hFree' fun _ _ _ => rfl).linked _ hb
      rw [hChain] at hLinked
      have hSplit : Linked _ _ ([] ++ t.mapTo (t.home hash) :: l) := hLinked
      exact hSplit.next_eq
    refine ⟨f, _, _, _, _, _, _, _, ?_, h.placed_second hSize hFree hChain⟩
    simp only [placeEntry, if_pos hBucketHead, hHead, hNext]
    rfl
  · have hEmpty : chain (t.home hash) = [] := by
      cases hC : (chain (t.home hash)).head? with
      | none => exact List.head?_eq_none_iff.mp hC
      | some x =>
        refine absurd ((h.isBucketHead_iff hb).mpr ?_) hBucketHead
        rw [hC, h.buckets.head _ hb x hC]
    by_cases hUsed : t.hash (t.mapTo (t.home hash)) ≠ MUSCLE_HASHTABLE_INVALID_HASH_CODE
    · -- the slot is swapped with the one that is mapped to the free entry `f`
      have hf : f < t.tableSize := h.mem_iff.mpr (.inr (by rw [hFree]; simp))
      have hFrom := h.maps.mappedFrom_lt f hf
      have hMap : (t.swapMaps (t.home hash) (t.mappedFrom f)).mapTo (t.home hash) = f := by
        rw [swapMaps_left, h.maps.mapTo_mappedFrom f hf]
      have hMaps : ∀ c < t.tableSize, chain c ≠ [] →
          (t.swapMaps (t.home hash) (t.mappedFrom f)).mapTo c = t.mapTo c := by
        intro c hc hne
        refine swapMaps_other (fun hEq => hne (by rw [hEq, hEmpty])) fun hEq => hne ?_
        cases hC : (chain c).head? with
        | none => exact List.head?_eq_none_iff.mp hC
        | some x =>
          have hxf : x = f := by
            rw [← h.buckets.head c hc x hC, hEq, h.maps.mapTo_mappedFrom f hf]
          have hx := ((h.mem_chain hc).mp (List.mem_of_mem_head? hC)).1
          exact absurd (show f ∈ free by rw [hFree]; simp) (hxf ▸ h.not_mem_free hx)
      have hFree' : free = [] ++ f :: free' := hFree
      refine ⟨f, _, _, _, _, _, _, _, ?_,
        h.placed_first hSize hFree' hEmpty hMap hMaps (h.maps.swap hb hFrom)⟩
      simp only [placeEntry, if_neg hBucketHead, if_pos hUsed, hHead, h.maps.mappedFrom_mapTo _ hb]
      rfl
    · -- the slot is free itself
      have hMem : t.mapTo (t.home hash) ∈ free :=
        (h.mem_iff.mp hSlot).resolve_left fun hOrder => hUsed (h.hash_valid hOrder)
      obtain ⟨a, b, hSplit⟩ := List.append_of_mem hMem
      refine ⟨_, _, _, _, _, _, _, _, ?_, h.placed_first hSize hSplit hEmpty rfl (fun _ _ _ => rfl) h.maps⟩
      simp only [placeEntry, if_neg hBucketHead, if_neg hUsed]
      rfl

/-- A new key is put into a free entry, which goes to the end of the iteration list. -/
theorem Table.Slots.putNew_spec {key : K} (value : V) (hSize : 0 < t.tableSize)
    (hRoom : t.count < t.tableSize) (hMode : t.autoSortMode = .disabled)
    (hEqual : KeyEquality functor t.keysEqual)
    (hNew : ∀ e ∈ order, t.keysEqual (t.key e) key = false) :
    ∃ e t', t.putNew (computeHash functor key) key value = .ok (t', some e, none) ∧ e ∉ order ∧
      t'.key = Function.update t.key e key ∧ t'.value = Function.update t.value e value ∧
      t.KeepsArray t' ∧ t'.iterList = t.iterList ∧ t'.iterators = t.iterators ∧
      ∃ free' chain', t'.Slots functor (order ++ [e]) free' chain' := by
  obtain ⟨e, bucketPrev, bucketNext, mapTo, mappedFrom, freeHead, free', chain', hPlace, hPlaced⟩ :=
    h.placeEntry_spec (computeHash functor key) hSize hRoom
  have hFree : e ∈ free := hPlaced.perm.mem_iff.mpr (List.mem_cons_self ..)
  have hNotUsed : e ∉ order := fun he => h.not_mem_free he hFree
  have hFreeNodup : (e :: free').Nodup := hPlaced.perm.nodup_iff.mp h.free_nodup
  have hOther : ∀ x ∈ order, x ≠ e := fun x hx hEq => hNotUsed (hEq ▸ hx)
  simp only [putNew, hPlace, ok_bind]
  refine ⟨e, _, rfl, hNotUsed, ?_⟩
  rw [insertByMode_disabled (by exact hMode)]
  refine ⟨rfl, rfl, ⟨⟨rfl, rfl, rfl, rfl⟩, rfl, rfl⟩, rfl, rfl, free', chain', ?_⟩
  have hIteration : IterationList _ (order ++ [e]) :=
    (show IterationList { t with
      bucketPrev, bucketNext, mapTo, mappedFrom, freeHead
      hash := Function.update t.hash e (computeHash functor key)
      key := Function.update t.key e key
      value := Function.update t.value e value } order from
        ⟨h.iteration.linked, h.iteration.head, h.iteration.tail⟩).insert_last h.order_nodup hNotUsed
  constructor
  · rw [List.append_assoc]
    exact (List.Perm.append_left order hPlaced.perm.symm).trans h.perm
  · show t.count + 1 = (order ++ [e]).length
    rw [h.count, List.length_append, List.length_singleton]
  · exact ⟨hIteration.linked, hIteration.head, hIteration.tail⟩
  · exact ⟨hPlaced.linked, hPlaced.head⟩
  · intro x hx
    have hxe : x ≠ e := fun hEq => (List.nodup_cons.mp hFreeNodup).1 (hEq ▸ hx)
    show Function.update t.hash e _ x = _
    rw [Function.update_of_ne hxe]
    exact h.unused x (hPlaced.perm.mem_iff.mpr (List.mem_cons_of_mem _ hx))
  · intro x hx
    show Function.update t.hash e _ x = computeHash functor (Function.update t.key e key x)
    rcases List.mem_append.mp hx with hOld | hLast
    · rw [Function.update_of_ne (hOther x hOld), Function.update_of_ne (hOther x hOld)]
      exact h.used x hOld
    · rw [List.mem_singleton.mp hLast, Function.update_self, Function.update_self]
  · exact hPlaced.buckets
  · exact hPlaced.maps
  · intro x hx y hy hSame
    have hSame : t.keysEqual (Function.update t.key e key x) (Function.update t.key e key y) = true := hSame
    rcases List.mem_append.mp hx with hxOld | hxLast
    · rcases List.mem_append.mp hy with hyOld | hyLast
      · rw [Function.update_of_ne (hOther x hxOld), Function.update_of_ne (hOther y hyOld)] at hSame
        exact h.distinct x hxOld y hyOld hSame
      · rw [List.mem_singleton.mp hyLast, Function.update_self, Function.update_of_ne (hOther x hxOld),
          hNew x hxOld] at hSame
        cases hSame
    · rcases List.mem_append.mp hy with hyOld | hyLast
      · have hSwap := hEqual.symm _ _ hSame
        rw [List.mem_singleton.mp hxLast, Function.update_self, Function.update_of_ne (hOther y hyOld),
          hNew y hyOld] at hSwap
        cases hSwap
      · rw [List.mem_singleton.mp hxLast, List.mem_singleton.mp hyLast]

end BeShare.Muscle.Hashtable
