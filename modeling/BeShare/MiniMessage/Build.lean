import BeShare.MiniMessage.Unflatten
import Mathlib.Data.List.Nodup

/-!
The messages that a program can build with the C codec's functions: names are C strings, and no two
fields have one name.
-/

namespace BeShare.Muscle

open BeShare.Lib

/-- The `MMPut*Field` functions, with the items that the caller assigns to the slots. The kind of
`data` is the function: `MMPutStringField` and `MMPutDataField` put blobs, `MMPutMessageField`
Messages, and so on; any assignment of an item is a choice of `data`. A field without items is not
put, and one with the name of an older field replaces it. -/
def MMessage.put (m : MMessage) (name : CStr) (data : MMData) : MMessage :=
  if data.numItems = 0 then m
  else .mk m.what (mmRemoveField m.fields name ++ [(name.flatten, data)])

/-- An `MMessage` that was made with `MMAllocMessage`, `MMSetWhat`, the `MMPut*Field` functions and
`MMRemoveField`. A field whose storage size does not fit into 32 bits has too little storage for its
slots, so nothing can be assigned to them. -/
inductive MMessage.Built : MMessage → Prop where
  | alloc (what : UInt32) : Built (.mk what [])
  | setWhat {m : MMessage} (what : UInt32) : Built m → Built (.mk what m.fields)
  | put {m : MMessage} (name : CStr) (data : MMData) : Built m →
      storageFits name.flattenedSize data.numItems data.itemSize →
      (∀ m', some m' ∈ data.messages → Built m') → Built (m.put name data)
  | remove {m : MMessage} (name : CStr) : Built m →
      Built (.mk m.what (mmRemoveField m.fields name))

/-- The name that `strcmp` sees. -/
def mmFieldName (f : MMField) : CStr := CStr.ofBytes f.1

/-- The names are terminated C strings, and no two are the same. -/
structure MMessage.NamesDistinct (m : MMessage) : Prop where
  terminated : ∀ f ∈ m.fields, f.1 = (mmFieldName f).flatten
  nodup : (m.fields.map mmFieldName).Nodup

theorem mmRemoveField_names (fields : List MMField) (name : CStr) :
    (mmRemoveField fields name).map mmFieldName =
      ((fields.map mmFieldName).reverse.erase name).reverse := by
  have hErase : ((fields.reverse.eraseP fun f => CStr.ofBytes f.1 = name).map mmFieldName) =
      (fields.reverse.map mmFieldName).erase name := by
    rw [List.erase_eq_eraseP', List.eraseP_map]
    rfl
  rw [mmRemoveField, List.map_reverse, hErase, List.map_reverse]

theorem mmRemoveField_subset {fields : List MMField} {name : CStr} {f : MMField}
    (h : f ∈ mmRemoveField fields name) : f ∈ fields := by
  rw [mmRemoveField, List.mem_reverse] at h
  exact List.mem_reverse.mp (List.mem_of_mem_eraseP h)

theorem mmRemoveField_nodup {fields : List MMField} (h : (fields.map mmFieldName).Nodup)
    (name : CStr) :
    ((mmRemoveField fields name).map mmFieldName).Nodup ∧
      name ∉ (mmRemoveField fields name).map mmFieldName := by
  have hReverse : (fields.map mmFieldName).reverse.Nodup := List.nodup_reverse.mpr h
  rw [mmRemoveField_names, List.nodup_reverse, List.mem_reverse]
  exact ⟨hReverse.erase _, hReverse.not_mem_erase⟩

/-- A name that no field has is not removed. -/
theorem mmRemoveField_absent {fields : List MMField} {name : CStr}
    (h : name ∉ fields.map mmFieldName) : mmRemoveField fields name = fields := by
  rw [mmRemoveField, List.eraseP_of_forall_not, List.reverse_reverse]
  intro f hMem
  have hne : mmFieldName f ≠ name := fun hEq =>
    h (hEq ▸ List.mem_map_of_mem (List.mem_reverse.mp hMem))
  simpa [mmFieldName] using hne

theorem MMessage.NamesDistinct.remove {m : MMessage} (h : m.NamesDistinct) (name : CStr) :
    MMessage.NamesDistinct (.mk m.what (mmRemoveField m.fields name)) where
  terminated f hMem := h.terminated f (mmRemoveField_subset hMem)
  nodup := (mmRemoveField_nodup h.nodup name).1

theorem MMessage.NamesDistinct.put {m : MMessage} (h : m.NamesDistinct) (name : CStr)
    (data : MMData) : (m.put name data).NamesDistinct := by
  rw [MMessage.put]
  split
  · exact h
  · obtain ⟨hNodup, hNew⟩ := mmRemoveField_nodup h.nodup name
    have hName : mmFieldName (name.flatten, data) = name := name.ofBytes_flatten
    constructor
    · intro f hMem
      rcases List.mem_append.mp hMem with hOld | hLast
      · exact h.terminated f (mmRemoveField_subset hOld)
      · rw [List.mem_singleton.mp hLast, hName]
    · simp only [MMessage.fields, List.map_append, List.map_cons, List.map_nil, hName]
      rw [List.nodup_append]
      refine ⟨hNodup, by simp, ?_⟩
      rintro a hMem b hLast rfl
      exact hNew (List.mem_singleton.mp hLast ▸ hMem)

/-- Every Message that can be built, and every Message inside it, has distinct names. -/
theorem MMessage.Built.namesDistinct {m : MMessage} (h : m.Built) :
    m.Throughout MMessage.NamesDistinct := by
  induction h with
  | alloc what => exact MMessage.throughout_mk ⟨by simp [MMessage.fields], by simp [MMessage.fields]⟩ (by simp)
  | setWhat what _ ih => exact .intro _ ⟨ih.here.1, ih.here.2⟩ fun m' hItem => ih.item hItem
  | remove name _ ih =>
    refine .intro _ (ih.here.remove name) ?_
    rintro m' ⟨f, hMem, hItem⟩
    exact ih.item ⟨f, mmRemoveField_subset hMem, hItem⟩
  | @put m name data _ _ _ ih ihItems =>
    refine .intro _ (ih.here.put name data) ?_
    rintro m' ⟨f, hMem, hItem⟩
    rw [MMessage.put] at hMem
    split at hMem
    · exact ih.item ⟨f, hMem, hItem⟩
    · rcases List.mem_append.mp hMem with hOld | hLast
      · exact ih.item ⟨f, mmRemoveField_subset hOld, hItem⟩
      · rw [List.mem_singleton.mp hLast] at hItem
        exact ihItems m' hItem

end BeShare.Muscle
