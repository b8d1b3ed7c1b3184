import Mathlib.Data.List.Nodup
import Mathlib.Data.List.Perm.Basic

/-!
A list in which every class of another list's elements has one representative: a search that takes the first it
finds and then leaves the class.
-/

namespace BeShare.Lib

variable {α β γ : Type} {key : α → β} {chosen chosen' all all' : List α}

/-- The elements of `chosen` are elements of `all`, one for each value of the key. -/
structure OnePer (key : α → β) (chosen all : List α) : Prop where
  nodup : (chosen.map key).Nodup
  subset : chosen ⊆ all
  covers : ∀ x ∈ all, ∃ y ∈ chosen, key y = key x

namespace OnePer

theorem nil : OnePer key [] [] :=
  ⟨List.nodup_nil, List.Subset.refl _, by simp⟩

theorem singleton (x : α) : OnePer key [x] [x] :=
  ⟨List.nodup_singleton _, List.Subset.refl _, fun y hy => ⟨y, hy, rfl⟩⟩

/-- All elements are of one class, and any of them stands for it. -/
theorem of_constant {x : α} {b : β} (hx : x ∈ all) (hAll : ∀ y ∈ all, key y = b) : OnePer key [x] all where
  nodup := List.nodup_singleton _
  subset := List.cons_subset.mpr ⟨hx, List.nil_subset _⟩
  covers y hy := ⟨x, List.mem_singleton_self x, (hAll x hx).trans (hAll y hy).symm⟩

theorem of_perm (h : OnePer key chosen all) (hChosen : chosen'.Perm chosen) (hAll : all'.Perm all) :
    OnePer key chosen' all' where
  nodup := (hChosen.map key).nodup_iff.mpr h.nodup
  subset x hx := hAll.mem_iff.mpr (h.subset (hChosen.mem_iff.mp hx))
  covers x hx := by
    obtain ⟨y, hy, hKey⟩ := h.covers x (hAll.mem_iff.mp hx)
    exact ⟨y, hChosen.mem_iff.mpr hy, hKey⟩

theorem append (h : OnePer key chosen all) (h' : OnePer key chosen' all')
    (hApart : ∀ x ∈ all, ∀ y ∈ all', key x ≠ key y) : OnePer key (chosen ++ chosen') (all ++ all') where
  nodup := by
    rw [List.map_append, List.nodup_append]
    refine ⟨h.nodup, h'.nodup, fun b hb b' hb' hSame => ?_⟩
    obtain ⟨x, hx, rfl⟩ := List.mem_map.mp hb
    obtain ⟨y, hy, rfl⟩ := List.mem_map.mp hb'
    exact hApart x (h.subset hx) y (h'.subset hy) hSame
  subset := List.append_subset.mpr
    ⟨fun _ hx => List.mem_append_left _ (h.subset hx), fun _ hx => List.mem_append_right _ (h'.subset hx)⟩
  covers x hx := by
    rcases List.mem_append.mp hx with hx | hx
    · obtain ⟨y, hy, hKey⟩ := h.covers x hx
      exact ⟨y, List.mem_append_left _ hy, hKey⟩
    · obtain ⟨y, hy, hKey⟩ := h'.covers x hx
      exact ⟨y, List.mem_append_right _ hy, hKey⟩

/-- Part by part, where the parts have no class in common. -/
theorem flatMap {parts : List γ} {f g : γ → List α} (hNodup : parts.Nodup)
    (h : ∀ part ∈ parts, OnePer key (f part) (g part))
    (hApart : ∀ part ∈ parts, ∀ part' ∈ parts, part ≠ part' → ∀ x ∈ g part, ∀ y ∈ g part', key x ≠ key y) :
    OnePer key (parts.flatMap f) (parts.flatMap g) := by
  induction parts with
  | nil => exact nil
  | cons part rest ih =>
    obtain ⟨hNotMem, hNodup⟩ := List.nodup_cons.mp hNodup
    rw [List.flatMap_cons, List.flatMap_cons]
    refine (h part List.mem_cons_self).append (ih hNodup (fun p hp => h p (List.mem_cons_of_mem _ hp)) ?_) ?_
    · exact fun p hp p' hp' => hApart p (List.mem_cons_of_mem _ hp) p' (List.mem_cons_of_mem _ hp')
    · intro x hx y hy
      obtain ⟨p, hp, hy⟩ := List.mem_flatMap.mp hy
      exact hApart part List.mem_cons_self p (List.mem_cons_of_mem _ hp) (fun hSame => hNotMem (hSame ▸ hp))
        x hx y hy

/-- A property of the class picks out as many representatives as it has classes: at most one exactly if its
elements are of one class. -/
theorem length_filter_le_one_iff (h : OnePer key chosen all) {p : α → Bool}
    (hp : ∀ x y, key x = key y → p x = p y) :
    (chosen.filter p).length ≤ 1 ↔ ∀ x ∈ all, ∀ y ∈ all, p x = true → p y = true → key x = key y := by
  have hNodup : ((chosen.filter p).map key).Nodup := h.nodup.sublist (List.filter_sublist.map _)
  constructor
  · intro hLength x hx y hy hpx hpy
    obtain ⟨x', hx', hKey⟩ := h.covers x hx
    obtain ⟨y', hy', hKey'⟩ := h.covers y hy
    have hxf : x' ∈ chosen.filter p := List.mem_filter.mpr ⟨hx', (hp _ _ hKey).trans hpx⟩
    have hyf : y' ∈ chosen.filter p := List.mem_filter.mpr ⟨hy', (hp _ _ hKey').trans hpy⟩
    have hSame : x' = y' := by
      obtain ⟨z, hz⟩ := List.length_eq_one_iff.mp (Nat.le_antisymm hLength (List.length_pos_of_mem hxf))
      rw [hz] at hxf hyf
      exact (List.mem_singleton.mp hxf).trans (List.mem_singleton.mp hyf).symm
    rw [← hKey, ← hKey', hSame]
  · intro hOne
    by_contra hLength
    obtain ⟨x, y, rest, hList⟩ : ∃ x y rest, chosen.filter p = x :: y :: rest := by
      rcases hList : chosen.filter p with _ | ⟨x, _ | ⟨y, rest⟩⟩
      · simp [hList] at hLength
      · simp [hList] at hLength
      · exact ⟨x, y, rest, rfl⟩
    have hx := List.mem_filter.mp (hList ▸ List.mem_cons_self : x ∈ chosen.filter p)
    have hy := List.mem_filter.mp (hList ▸ List.mem_cons_of_mem _ List.mem_cons_self : y ∈ chosen.filter p)
    rw [hList, List.map_cons, List.map_cons] at hNodup
    exact (List.nodup_cons.mp hNodup).1
      (List.mem_cons.mpr (.inl (hOne x (h.subset hx.1) y (h.subset hy.1) hx.2 hy.2)))

theorem filter_eq_nil_iff (h : OnePer key chosen all) {p : α → Bool} (hp : ∀ x y, key x = key y → p x = p y) :
    chosen.filter p = [] ↔ ∀ x ∈ all, p x = false := by
  rw [List.filter_eq_nil_iff]
  constructor
  · intro hNone x hx
    obtain ⟨y, hy, hKey⟩ := h.covers x hx
    exact (hp _ _ hKey).symm.trans (Bool.eq_false_iff.mpr (hNone y hy))
  · intro hNone x hx
    simp [hNone x (h.subset hx)]

end OnePer

end BeShare.Lib
