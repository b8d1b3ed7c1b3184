import BeShare.Hashtable.Invariant

/-! `GetEntry` finds the used entry with an equal key. -/

namespace BeShare.Muscle.Hashtable

open BeShare.Lib

theorem find?_unique {α : Type} {l : List α} {p : α → Bool} {x : α} (hMem : x ∈ l) (hx : p x = true)
    (hUnique : ∀ y ∈ l, p y = true → y = x) : l.find? p = some x := by
  cases hFind : l.find? p with
  | none => exact absurd hx (by simpa using List.find?_eq_none.mp hFind x hMem)
  | some y => rw [hUnique y (List.mem_of_find?_eq_some hFind) (List.find?_some hFind)]

variable {K V : Type} [BEq K] {functor : K → UInt32} {t : Table K V} {order free : List Nat}
  {chain : Nat → List Nat}

namespace Table.Slots

section

variable (h : t.Slots functor order free chain)
include h

theorem mem_iff {e : Nat} : e < t.tableSize ↔ e ∈ order ∨ e ∈ free := by
  rw [← List.mem_append, h.perm.mem_iff, List.mem_range]

theorem nodup : (order ++ free).Nodup := h.perm.nodup_iff.mpr List.nodup_range

theorem order_nodup : order.Nodup := (List.nodup_append.mp h.nodup).1

theorem free_nodup : free.Nodup := (List.nodup_append.mp h.nodup).2.1

theorem not_mem_free {e : Nat} (he : e ∈ order) : e ∉ free := fun hFree =>
  (List.nodup_append.mp h.nodup).2.2 e he e hFree rfl

theorem lt {e : Nat} (he : e ∈ order) : e < t.tableSize := h.mem_iff.mpr (.inl he)

theorem hash_valid {e : Nat} (he : e ∈ order) : t.hash e ≠ MUSCLE_HASHTABLE_INVALID_HASH_CODE := by
  rw [h.used e he]
  exact computeHash_valid functor _

/-- An entry is used exactly if its hash code is not the guard value. -/
theorem mem_order_iff {e : Nat} (he : e < t.tableSize) :
    e ∈ order ↔ t.hash e ≠ MUSCLE_HASHTABLE_INVALID_HASH_CODE := by
  constructor
  · exact h.hash_valid
  · intro hHash
    exact (h.mem_iff.mp he).resolve_right fun hFree => hHash (h.unused e hFree)

theorem length_eq : order.length + free.length = t.tableSize := by
  rw [← List.length_append, h.perm.length_eq, List.length_range]

theorem mem_chain {b e : Nat} (hb : b < t.tableSize) :
    e ∈ chain b ↔ e ∈ order ∧ t.home (t.hash e) = b := h.buckets.mem b hb e

/-- The slot of a bucket is mapped to a bucket head exactly if the bucket's chain is not empty. -/
theorem isBucketHead_iff {b : Nat} (hb : b < t.tableSize) :
    t.isBucketHead (t.mapTo b) ↔ (chain b).head? = some (t.mapTo b) := by
  constructor
  · rintro ⟨hHash, hHead⟩
    have hLt : t.mapTo b < t.tableSize := h.maps.mapTo_lt b hb
    have hHome : t.home (t.hash (t.mapTo b)) = b :=
      h.maps.inj (Nat.mod_lt _ (Nat.lt_of_le_of_lt (Nat.zero_le _) hb)) hb hHead
    have hMem : t.mapTo b ∈ chain b := (h.mem_chain hb).mpr ⟨(h.mem_order_iff hLt).mpr hHash, hHome⟩
    cases hChain : (chain b).head? with
    | none =>
      rw [List.head?_eq_none_iff] at hChain
      rw [hChain] at hMem
      cases hMem
    | some e => rw [h.buckets.head b hb e hChain]
  · intro hHead
    obtain ⟨hOrder, hHome⟩ := (h.mem_chain hb).mp (List.mem_of_mem_head? hHead)
    exact ⟨h.hash_valid hOrder, by rw [hHome]⟩

theorem chain_length {b : Nat} (hb : b < t.tableSize) : (chain b).length ≤ t.tableSize := by
  have hSubset : chain b ⊆ List.range t.tableSize := fun e he =>
    List.mem_range.mpr (h.lt ((h.mem_chain hb).mp he).1)
  simpa using (List.subperm_of_subset (h.buckets.nodup b hb) hSubset).length_le

omit h

theorem findInChain_eq {l : List Nat} {prev : Nat → Option Nat} {p : Option Nat}
    (hLinked : Segment t.bucketNext prev p l none) (hash : UInt32) (key : K) {fuel : Nat}
    (hFuel : l.length ≤ fuel) :
    t.findInChain hash key fuel l.head? =
      l.find? fun e => decide (t.hash e = hash) && t.keysEqual (t.key e) key := by
  induction l generalizing p fuel with
  | nil => cases fuel <;> rfl
  | cons e l ih =>
    obtain ⟨fuel, rfl⟩ : ∃ n, fuel = n + 1 := ⟨fuel - 1, by simp at hFuel; omega⟩
    obtain ⟨-, hNext, hRest⟩ := hLinked
    rw [Option.or_none] at hNext
    have hTail := ih hRest (by simpa using hFuel)
    rw [List.head?_cons, findInChain, List.find?_cons, hNext, hTail]
    by_cases hMatch : t.hash e = hash ∧ t.keysEqual (t.key e) key = true
    · simp [hMatch.1, hMatch.2]
    · rw [if_neg hMatch]
      simp only [not_and, Bool.not_eq_true] at hMatch
      by_cases hHash : t.hash e = hash
      · simp [hHash, hMatch hHash]
      · simp [hHash]

end

/-- No two used entries have equal keys. -/
theorem unique (h : t.Slots functor order free chain) (hEqual : KeyEquality functor t.keysEqual)
    {e f : Nat} (he : e ∈ order) (hf : f ∈ order) {key : K}
    (hKey : t.keysEqual (t.key e) key = true) (hKey' : t.keysEqual (t.key f) key = true) : e = f :=
  h.distinct e he f hf (hEqual.trans _ _ _ hKey (hEqual.symm _ _ hKey'))

theorem getEntry_eq (h : t.Slots functor order free chain) (hEqual : KeyEquality functor t.keysEqual)
    (hSize : 0 < t.tableSize) (key : K) :
    t.getEntry (computeHash functor key) key = order.find? fun e => t.keysEqual (t.key e) key := by
  have hb : t.home (computeHash functor key) < t.tableSize := Nat.mod_lt _ hSize
  by_cases hHead : t.isBucketHead (t.mapTo (t.home (computeHash functor key)))
  · have hChain := (h.isBucketHead_iff hb).mp hHead
    rw [getEntry, if_pos hHead, ← hChain,
      findInChain_eq (h.buckets.linked _ hb) _ _ (h.chain_length hb)]
    cases hFind : order.find? fun e => t.keysEqual (t.key e) key with
    | none =>
      rw [List.find?_eq_none] at hFind ⊢
      intro e he hMatch
      rw [Bool.and_eq_true] at hMatch
      exact hFind e ((h.mem_chain hb).mp he).1 hMatch.2
    | some e =>
      have he := List.mem_of_find?_eq_some hFind
      have hKey : t.keysEqual (t.key e) key = true := by simpa using List.find?_some hFind
      have hHash : t.hash e = computeHash functor key := by
        rw [h.used e he, hEqual.computeHash hKey]
      refine find?_unique ((h.mem_chain hb).mpr ⟨he, by rw [hHash]⟩) (by simp [hHash, hKey]) ?_
      intro f hf hMatch
      rw [Bool.and_eq_true] at hMatch
      exact h.unique hEqual ((h.mem_chain hb).mp hf).1 he hMatch.2 hKey
  · rw [getEntry, if_neg hHead, eq_comm, List.find?_eq_none]
    intro e he hKey
    have hHash : t.hash e = computeHash functor key := by
      rw [h.used e he, hEqual.computeHash hKey]
    have hMem : e ∈ chain (t.home (computeHash functor key)) :=
      (h.mem_chain hb).mpr ⟨he, by rw [hHash]⟩
    obtain ⟨f, hf⟩ := Option.isSome_iff_exists.mp (List.isSome_head?.mpr (List.ne_nil_of_mem hMem))
    refine hHead ((h.isBucketHead_iff hb).mpr ?_)
    rw [hf, h.buckets.head _ hb f hf]

end Table.Slots

/-- A lookup finds the entry of `order` with an equal key. -/
theorem Table.Valid.lookup_eq (h : t.Valid functor order)
    (hEqual : KeyEquality functor t.keysEqual) (key : K) :
    t.lookup functor key = order.find? fun e => t.keysEqual (t.key e) key := by
  rw [Table.lookup]
  by_cases hTable : t.hasTable = true
  · obtain ⟨-, free, chain, hSlots⟩ := h.allocated hTable
    split
    · exact hSlots.getEntry_eq hEqual h.size.1 key
    · have hNil : order = [] := by
        rw [← List.length_eq_zero_iff, ← hSlots.count]
        omega
      rw [hNil, List.find?_nil]
  · obtain ⟨rfl, hCount, -⟩ := h.unallocated (by simpa using hTable)
    rw [if_neg (by omega), List.find?_nil]

end BeShare.Muscle.Hashtable
