import BeShare.MiniMessage.ToCpp

/-!
`MMAreMessagesEqual`, and what becomes of a message whose fields are imported one after the other.
-/

namespace BeShare.Muscle

open BeShare.Lib

/-- `LookupMMessageField`: the last field of that name, unless it has another type. -/
def lookupMMessageField (fields : List MMField) (fieldName : CStr) (typeCode : UInt32) : Option MMField :=
  (fields.reverse.find? fun f => mmFieldName f = fieldName).filter fun f =>
    typeCode = B_ANY_TYPE ∨ typeCode = f.2.typeCode

mutual

/-- `MMAreMessagesEqual` for messages that share no memory. -/
def mmAreMessagesEqual : MMessage → MMessage → Bool
  | .mk what fields, msg2 =>
    what == msg2.what && fields.length == msg2.fields.length && mmFieldsEqual fields msg2.fields
termination_by structural msg1 => msg1

/-- The loop over the fields of the first message. -/
def mmFieldsEqual : List (List UInt8 × MMData) → List MMField → Bool
  | [], _ => true
  | (name, data) :: fields, fields2 =>
    (lookupMMessageField fields2 (CStr.ofBytes name) data.typeCode).any (fun f2 =>
      f2.2.numItems == data.numItems && f2.2.typeCode == data.typeCode && mmDataEqual data f2.2) &&
      mmFieldsEqual fields fields2
termination_by structural fields => fields

/-- The comparison of the items. Those of one size are compared by `memcmp`, as they are flattened. -/
def mmDataEqual : MMData → MMData → Bool
  | .message msgs1, .message msgs2 => mmItemsEqual msgs1 msgs2
  | .blob _ bufs1, .blob _ bufs2 => bufs1 == bufs2
  | data1, data2 => data1.wire == data2.wire
termination_by structural data1 => data1

def mmItemsEqual : List (Option MMessage) → List (Option MMessage) → Bool
  | [], [] => true
  | none :: msgs1, none :: msgs2 => mmItemsEqual msgs1 msgs2
  | some msg1 :: msgs1, some msg2 :: msgs2 => mmAreMessagesEqual msg1 msg2 && mmItemsEqual msgs1 msgs2
  | _, _ => false
termination_by structural msgs1 => msgs1

end

/-! ### The fields of a message -/

def MMData.isVariableSize (data : MMData) : Bool := isTypeCodeVariableSize data.typeCode

/-- A field as `AllocMMessageField` leaves it. Only a field of one item size can have a name with bytes behind its
NUL: `MMUnflattenMessage` gives it all of the name's bytes. -/
structure MMField.Allocated (f : MMField) : Prop where
  terminated : f.1.getLast? = some 0
  name : f.2.isVariableSize = true → f.1 = (mmFieldName f).flatten
  storage : storageFits f.1.length f.2.numItems f.2.itemSize

/-- The field is flattened, it has an item, and no item is `NULL`. -/
structure MMField.Filled (f : MMField) : Prop where
  flattenable : f.2.isFlattenable = true
  numItems : f.2.numItems ≠ 0
  messages : none ∉ f.2.messages
  blobs : ∀ tc items, f.2 = .blob tc items → none ∉ items

def MMessage.FieldsAllocated (m : MMessage) : Prop := ∀ f ∈ m.fields, MMField.Allocated f

def MMessage.FieldsFilled (m : MMessage) : Prop := ∀ f ∈ m.fields, MMField.Filled f

theorem storageFits_flatten {name : CStr} {numItems itemSize : Nat}
    (h : storageFits name.flattenedSize numItems itemSize) : storageFits name.flatten.length numItems itemSize := by
  rw [name.flatten_length]
  exact h

/-- The fields of a message that was built are as they were allocated. -/
theorem MMessage.Built.allocated {m : MMessage} (h : m.Built) : m.Throughout MMessage.FieldsAllocated := by
  induction h with
  | alloc what =>
    exact MMessage.throughout_mk (fun _ hIn => absurd hIn List.not_mem_nil) fun _ hIn => absurd hIn List.not_mem_nil
  | setWhat what _ ih => exact .intro _ ih.here fun m' hItem => ih.item hItem
  | remove name _ ih =>
    refine .intro _ (fun f hIn => ih.here f (mmRemoveField_subset hIn)) ?_
    rintro m' ⟨f, hMem, hItem⟩
    exact ih.item ⟨f, mmRemoveField_subset hMem, hItem⟩
  | @put m name data _ hFits _ ih ihItems =>
    rw [MMessage.put]
    split
    · exact ih
    · refine MMessage.throughout_mk (fun f hIn => ?_) fun f hIn m' hItem => ?_
      · rcases List.mem_append.mp hIn with hOld | hNew
        · exact ih.here f (mmRemoveField_subset hOld)
        · rw [List.mem_singleton.mp hNew]
          refine ⟨List.getLast?_concat, fun _ => ?_, storageFits_flatten hFits⟩
          rw [mmFieldName, name.ofBytes_flatten]
      · rcases List.mem_append.mp hIn with hOld | hNew
        · exact ih.item ⟨f, mmRemoveField_subset hOld, hItem⟩
        · rw [List.mem_singleton.mp hNew] at hItem
          exact ihItems m' hItem

/-! ### Fields that are imported one after the other -/

/-- An imported field comes behind the others. An array of pointers is put, so it replaces the last field of its
name; a field of one item size is only added. -/
def mmImported (fields : List MMField) (f : MMField) : List MMField :=
  (if f.2.isVariableSize then mmRemoveField fields (mmFieldName f) else fields) ++ [f]

mutual

/-- The message with its fields imported one after the other, and the messages inside it as well -/
def MMessage.reimported : MMessage → MMessage
  | .mk what fields => .mk what (mmFieldsReimported fields [])

def mmFieldsReimported : List (List UInt8 × MMData) → List MMField → List MMField
  | [], before => before
  | (name, data) :: fields, before => mmFieldsReimported fields (mmImported before (name, data.reimported))

def MMData.reimported : MMData → MMData
  | .message items => .message (mmMessagesReimported items)
  | data => data

def mmMessagesReimported : List (Option MMessage) → List (Option MMessage)
  | [] => []
  | none :: items => none :: mmMessagesReimported items
  | some m :: items => some m.reimported :: mmMessagesReimported items

end

theorem MMData.reimported_of_fixed {data : MMData} (h : data.isVariableSize = false) : data.reimported = data := by
  cases data with
  | message items => cases h
  | _ => rfl

@[simp] theorem MMData.typeCode_reimported (data : MMData) : data.reimported.typeCode = data.typeCode := by
  cases data <;> rfl

theorem mmMessagesReimported_length (items : List (Option MMessage)) :
    (mmMessagesReimported items).length = items.length := by
  induction items with
  | nil => rfl
  | cons item items ih => cases item <;> simp [mmMessagesReimported, ih]

@[simp] theorem MMData.numItems_reimported (data : MMData) : data.reimported.numItems = data.numItems := by
  cases data with
  | message items => exact mmMessagesReimported_length items
  | _ => rfl

/-- The field with its messages imported again -/
def mmReimported (f : MMField) : MMField := (f.1, f.2.reimported)

/-- To import `g` behind `f` is to remove `f`. -/
def Replaces (f g : MMField) : Prop := mmFieldName f = mmFieldName g ∧ g.2.isVariableSize = true

theorem mmRemoveField_length {fields : List MMField} {name : CStr} (h : name ∈ fields.map mmFieldName) :
    (mmRemoveField fields name).length < fields.length := by
  obtain ⟨f, hIn, rfl⟩ := List.mem_map.mp h
  have hLength := List.length_eraseP_of_mem (p := fun f' => CStr.ofBytes f'.1 = mmFieldName f)
    (List.mem_reverse.mpr hIn) (decide_eq_true rfl)
  have hPos : 0 < fields.length := List.length_pos_of_mem hIn
  rw [mmRemoveField, List.length_reverse, hLength, List.length_reverse]
  exact Nat.pred_lt (Nat.ne_of_gt hPos)

/-- An import adds a field exactly if it removes none. -/
theorem mmImported_length (before : List MMField) (g : MMField) :
    (mmImported before g).length ≤ before.length + 1 ∧
      ((mmImported before g).length = before.length + 1 ↔ ∀ f ∈ before, ¬Replaces f g) := by
  unfold mmImported
  by_cases hSize : g.2.isVariableSize = true
  · rw [if_pos hSize, List.length_append, List.length_singleton]
    by_cases hThere : mmFieldName g ∈ before.map mmFieldName
    · have hLess := mmRemoveField_length hThere
      refine ⟨by omega, iff_of_false (by omega) fun hNone => ?_⟩
      obtain ⟨f, hIn, hName⟩ := List.mem_map.mp hThere
      exact hNone f hIn ⟨hName, hSize⟩
    · rw [mmRemoveField_absent hThere]
      refine ⟨Nat.le_refl _, iff_of_true rfl fun f hIn hReplaces => hThere ?_⟩
      exact List.mem_map.mpr ⟨f, hIn, hReplaces.1⟩
  · rw [if_neg hSize, List.length_append, List.length_singleton]
    exact ⟨Nat.le_refl _, iff_of_true rfl fun f _ hReplaces => hSize hReplaces.2⟩

theorem mmImported_of_none {before : List MMField} {g : MMField} (h : ∀ f ∈ before, ¬Replaces f g) :
    mmImported before g = before ++ [g] := by
  unfold mmImported
  split
  · rename_i hSize
    rw [mmRemoveField_absent fun hThere => ?_]
    obtain ⟨f, hIn, hName⟩ := List.mem_map.mp hThere
    exact h f hIn ⟨hName, hSize⟩
  · rfl

theorem replaces_reimported {f g : MMField} : Replaces f (mmReimported g) ↔ Replaces f g := by
  unfold Replaces mmReimported MMData.isVariableSize mmFieldName
  rw [MMData.typeCode_reimported]

theorem reimported_replaces {f g : MMField} : Replaces (mmReimported f) g ↔ Replaces f g :=
  Iff.rfl

/-- As many fields are there as are imported exactly if none was removed on the way. -/
theorem mmFieldsReimported_length (fields before : List MMField) :
    (mmFieldsReimported fields before).length ≤ before.length + fields.length ∧
      ((mmFieldsReimported fields before).length = before.length + fields.length →
        (∀ f ∈ before, ∀ g ∈ fields, ¬Replaces f g) ∧ fields.Pairwise fun f g => ¬Replaces f g) := by
  induction fields generalizing before with
  | nil => exact ⟨Nat.le_refl _, fun _ => ⟨fun _ _ _ hIn => absurd hIn List.not_mem_nil, .nil⟩⟩
  | cons g fields ih =>
    obtain ⟨hLess, hSame⟩ := mmImported_length before (mmReimported g)
    obtain ⟨hTail, hTailSame⟩ := ih (mmImported before (mmReimported g))
    change (mmFieldsReimported fields (mmImported before (mmReimported g))).length ≤ _ ∧
      ((mmFieldsReimported fields (mmImported before (mmReimported g))).length = _ → _)
    rw [List.length_cons]
    refine ⟨by omega, fun hAll => ?_⟩
    have hNone := hSame.mp (by omega)
    obtain ⟨hBefore, hPairs⟩ := hTailSame (by omega)
    rw [mmImported_of_none hNone] at hBefore
    refine ⟨fun f hf g' hg' => ?_, List.pairwise_cons.mpr ⟨fun g' hg' => ?_, hPairs⟩⟩
    · rcases List.mem_cons.mp hg' with rfl | hRest
      · exact fun hReplaces => hNone f hf (replaces_reimported.mpr hReplaces)
      · exact hBefore f (List.mem_append_left _ hf) g' hRest
    · exact hBefore _ (List.mem_append_right _ (List.mem_singleton.mpr rfl)) g' hg'

theorem mmFieldsReimported_eq {fields before : List MMField} (hBefore : ∀ f ∈ before, ∀ g ∈ fields, ¬Replaces f g)
    (hPairs : fields.Pairwise fun f g => ¬Replaces f g) :
    mmFieldsReimported fields before = before ++ fields.map mmReimported := by
  induction fields generalizing before with
  | nil => exact (List.append_nil _).symm
  | cons g fields ih =>
    obtain ⟨hHead, hTail⟩ := List.pairwise_cons.mp hPairs
    have hNone : ∀ f ∈ before, ¬Replaces f (mmReimported g) := fun f hf hReplaces =>
      hBefore f hf g List.mem_cons_self (replaces_reimported.mp hReplaces)
    have hNext : ∀ f ∈ before ++ [mmReimported g], ∀ g' ∈ fields, ¬Replaces f g' := by
      intro f hf g' hg'
      rcases List.mem_append.mp hf with hOld | hNew
      · exact hBefore f hOld g' (List.mem_cons_of_mem _ hg')
      · rw [List.mem_singleton.mp hNew]
        exact hHead g' hg'
    change mmFieldsReimported fields (mmImported before (mmReimported g)) = _
    rw [mmImported_of_none hNone, ih hNext hTail, List.append_assoc]
    rfl

/-! ### Equal fields -/

/-- The items of one size that the bytes hold -/
def fixedOf : ArrayClass → Nat → List UInt8 → MMData
  | .prim t, numItems, bytes => .prim t (t.codec.decodeAll numItems bytes)
  | .point, numItems, bytes => .point (Point.codec.decodeAll numItems bytes)
  | .rect, numItems, bytes => .rect (Rect.codec.decodeAll numItems bytes)
  | _, _, bytes => .bool bytes

theorem MMData.fixedOf_wire {data : MMData} (hFixed : data.isVariableSize = false) (hFlat : data.isFlattenable = true) :
    fixedOf (arrayClass data.typeCode) data.numItems data.wire = data := by
  cases data with
  | bool items => rfl
  | prim t items =>
    have hClass : arrayClass (MMData.prim t items).typeCode = .prim t := by
      cases t <;> rfl
    rw [hClass]
    exact congrArg (MMData.prim t) (t.codec.decodeAll_encodeAll items)
  | point items => exact congrArg MMData.point (Point.codec.decodeAll_encodeAll items)
  | rect items => exact congrArg MMData.rect (Rect.codec.decodeAll_encodeAll items)
  | pointer items => cases hFlat
  | blob tc items => exact absurd (hFixed.symm.trans tc.variableSize) Bool.false_ne_true
  | message items => cases hFixed

theorem mmDataEqual_of_fixed {data1 data2 : MMData} (hFixed : data1.isVariableSize = false) :
    mmDataEqual data1 data2 = (data1.wire == data2.wire) := by
  cases data1 with
  | blob tc items => exact absurd (hFixed.symm.trans tc.variableSize) Bool.false_ne_true
  | message items => cases hFixed
  | _ => rw [mmDataEqual] <;> exact nofun

theorem mmDataEqual_self {data : MMData} (hFixed : data.isVariableSize = false) : mmDataEqual data data = true :=
  (mmDataEqual_of_fixed hFixed).trans (beq_self_eq_true _)

/-- Fields of one item size are the same if `MMAreMessagesEqual` finds no difference. -/
theorem fixed_ext {data1 data2 : MMData} (hFixed : data1.isVariableSize = false) (hFlat1 : data1.isFlattenable = true)
    (hFlat2 : data2.isFlattenable = true) (hType : data2.typeCode = data1.typeCode)
    (hItems : data2.numItems = data1.numItems) (hEqual : mmDataEqual data1 data2 = true) : data1 = data2 := by
  rw [mmDataEqual_of_fixed hFixed] at hEqual
  have hFixed2 : data2.isVariableSize = false := by
    unfold MMData.isVariableSize at hFixed ⊢
    rw [hType, hFixed]
  calc
    data1 = fixedOf (arrayClass data1.typeCode) data1.numItems data1.wire := (MMData.fixedOf_wire hFixed hFlat1).symm
    _ = fixedOf (arrayClass data2.typeCode) data2.numItems data2.wire := by rw [hType, hItems, eq_of_beq hEqual]
    _ = data2 := MMData.fixedOf_wire hFixed2 hFlat2

theorem mmItemsEqual_reimported (items : List (Option MMessage)) :
    mmItemsEqual items (mmMessagesReimported items) = true ↔
      ∀ m, some m ∈ items → mmAreMessagesEqual m m.reimported = true := by
  induction items with
  | nil => exact iff_of_true rfl fun _ hIn => absurd hIn List.not_mem_nil
  | cons item items ih =>
    cases item with
    | none => simp [mmMessagesReimported, mmItemsEqual, ih]
    | some m => simp [mmMessagesReimported, mmItemsEqual, ih]

theorem mmDataEqual_reimported (data : MMData) :
    mmDataEqual data data.reimported = true ↔
      ∀ m, some m ∈ data.messages → mmAreMessagesEqual m m.reimported = true := by
  cases data with
  | message items => exact mmItemsEqual_reimported items
  | blob tc items => exact iff_of_true (beq_self_eq_true items) fun _ hIn => absurd hIn List.not_mem_nil
  | prim t items => exact iff_of_true (mmDataEqual_self (by cases t <;> rfl)) fun _ hIn => absurd hIn List.not_mem_nil
  | _ => exact iff_of_true (mmDataEqual_self rfl) fun _ hIn => absurd hIn List.not_mem_nil

theorem lookupMMessageField_eq_some {fields : List MMField} {fieldName : CStr} {typeCode : UInt32} {f : MMField} :
    lookupMMessageField fields fieldName typeCode = some f ↔
      (fields.reverse.find? fun f => mmFieldName f = fieldName) = some f ∧
        (typeCode = B_ANY_TYPE ∨ typeCode = f.2.typeCode) := by
  rw [lookupMMessageField, Option.filter_eq_some_iff, decide_eq_true_iff]

theorem mem_of_find_reverse {fields : List MMField} {fieldName : CStr} {f : MMField}
    (h : (fields.reverse.find? fun f => mmFieldName f = fieldName) = some f) :
    f ∈ fields ∧ mmFieldName f = fieldName :=
  ⟨List.mem_reverse.mp (List.mem_of_find?_eq_some h), by simpa using List.find?_some h⟩

theorem mmFieldsEqual_iff (fields fields2 : List MMField) :
    mmFieldsEqual fields fields2 = true ↔ ∀ f ∈ fields, ∃ f2 : MMField,
      lookupMMessageField fields2 (mmFieldName f) f.2.typeCode = some f2 ∧ f2.2.numItems = f.2.numItems ∧
        f2.2.typeCode = f.2.typeCode ∧ mmDataEqual f.2 f2.2 = true := by
  induction fields with
  | nil => exact iff_of_true rfl fun _ hIn => absurd hIn List.not_mem_nil
  | cons f fields ih =>
    obtain ⟨name, data⟩ := f
    rw [mmFieldsEqual, Bool.and_eq_true, ih, List.forall_mem_cons]
    refine and_congr_left fun _ => ?_
    rw [Option.any_eq_true]
    simp only [Bool.and_eq_true, beq_iff_eq, and_assoc]
    rfl

/-- A field with the name of an earlier field is of one item size and has the same type and items. -/
def MMessage.RepeatsEqual (m : MMessage) : Prop :=
  m.fields.Pairwise fun f g => mmFieldName f = mmFieldName g → g.2.isVariableSize = false ∧ f.2 = g.2

theorem MMessage.NamesDistinct.repeatsEqual {m : MMessage} (h : m.NamesDistinct) : m.RepeatsEqual :=
  (List.pairwise_map.mp h.nodup).imp fun hDifferent hName => absurd hName hDifferent

theorem not_replaces_of_repeats {f g : MMField}
    (h : mmFieldName f = mmFieldName g → g.2.isVariableSize = false ∧ f.2 = g.2) : ¬Replaces f g :=
  fun hReplaces => Bool.false_ne_true ((h hReplaces.1).1.symm.trans hReplaces.2)

section

variable {fields : List MMField}

/-- Where no field removes another one, an array of pointers is the only one of its name. -/
theorem eq_of_not_replaces (hPairs : fields.Pairwise fun f g => ¬Replaces f g) {f g : MMField} (hf : f ∈ fields)
    (hg : g ∈ fields) (hName : mmFieldName f = mmFieldName g) (hSize : f.2.isVariableSize = true)
    (hSize' : g.2.isVariableSize = true) : f = g := by
  refine List.Pairwise.forall_of_forall_of_flip (R := fun f g => mmFieldName f = mmFieldName g →
    f.2.isVariableSize = true → g.2.isVariableSize = true → f = g) ?_ ?_ ?_ hf hg hName hSize hSize'
  · exact fun _ _ _ _ _ => rfl
  · exact hPairs.imp fun hNot hName _ hSize => absurd ⟨hName, hSize⟩ hNot
  · exact hPairs.imp fun hNot hName hSize _ => absurd ⟨hName.symm, hSize⟩ hNot

/-- What `MMAreMessagesEqual` finds in the imported fields for a field: the last one of its name, of the same type -/
theorem found_of_equal (hPairs : fields.Pairwise fun f g => ¬Replaces f g)
    (hEqual : mmFieldsEqual fields (mmFieldsReimported fields []) = true) {f : MMField} (hf : f ∈ fields) :
    ∃ l ∈ fields, (fields.reverse.find? fun f' => mmFieldName f' = mmFieldName f) = some l ∧
      mmFieldName l = mmFieldName f ∧ l.2.numItems = f.2.numItems ∧ l.2.typeCode = f.2.typeCode ∧
      mmDataEqual f.2 l.2.reimported = true := by
  rw [mmFieldsReimported_eq (fun _ hIn => absurd hIn List.not_mem_nil) hPairs, List.nil_append] at hEqual
  obtain ⟨f2, hFound, hItems, hType, hData⟩ := (mmFieldsEqual_iff _ _).mp hEqual f hf
  have hFind := (lookupMMessageField_eq_some.mp hFound).1
  rw [← List.map_reverse, List.find?_map, Option.map_eq_some_iff] at hFind
  obtain ⟨l, hLast, rfl⟩ := hFind
  have hLast' : (fields.reverse.find? fun f' => mmFieldName f' = mmFieldName f) = some l := hLast
  rw [mmReimported, MMData.numItems_reimported] at hItems
  rw [mmReimported, MMData.typeCode_reimported] at hType
  obtain ⟨hl, hName⟩ := mem_of_find_reverse hLast'
  exact ⟨l, hl, hLast', hName, hItems, hType, hData⟩

theorem repeatsEqual_of_equal (hFilled : ∀ f ∈ fields, MMField.Filled f)
    (hPairs : fields.Pairwise fun f g => ¬Replaces f g)
    (hEqual : mmFieldsEqual fields (mmFieldsReimported fields []) = true) :
    fields.Pairwise fun f g => mmFieldName f = mmFieldName g → g.2.isVariableSize = false ∧ f.2 = g.2 := by
  have hSame {f l : MMField} (hf : f ∈ fields) (hl : l ∈ fields) (hFixed : l.2.isVariableSize = false)
      (hItems : l.2.numItems = f.2.numItems) (hType : l.2.typeCode = f.2.typeCode)
      (hData : mmDataEqual f.2 l.2.reimported = true) : f.2 = l.2 := by
    rw [MMData.reimported_of_fixed hFixed] at hData
    unfold MMData.isVariableSize at hFixed
    rw [hType] at hFixed
    exact fixed_ext hFixed (hFilled f hf).flattenable (hFilled l hl).flattenable hType hItems hData
  refine hPairs.imp_of_mem fun {f g} hf hg hNot hName => ?_
  have hFixed : g.2.isVariableSize = false := by
    rw [Bool.eq_false_iff]
    exact fun hSize => hNot ⟨hName, hSize⟩
  obtain ⟨l, hl, hLast, -, hItems, hType, hData⟩ := found_of_equal hPairs hEqual hf
  obtain ⟨l', -, hLast', -, hItems', hType', hData'⟩ := found_of_equal hPairs hEqual hg
  rw [hName, hLast'] at hLast
  obtain rfl := Option.some.inj hLast
  have hFixedLast : l'.2.isVariableSize = false := by
    unfold MMData.isVariableSize at hFixed ⊢
    rw [hType', hFixed]
  exact ⟨hFixed, (hSame hf hl hFixedLast hItems hType hData).trans
    (hSame hg hl hFixedLast hItems' hType' hData').symm⟩

end

/-- A message is equal to what becomes of it exactly if, at every depth, fields of one name are the same. -/
theorem areMessagesEqual_reimported {m : MMessage} (h : m.Throughout MMessage.FieldsFilled) :
    mmAreMessagesEqual m m.reimported = true ↔ m.Throughout MMessage.RepeatsEqual := by
  induction h with
  | intro m hFilled _ ih =>
    obtain ⟨what, fields⟩ := m
    have hEqual : mmAreMessagesEqual (.mk what fields) (MMessage.mk what fields).reimported = true ↔
        (mmFieldsReimported fields []).length = fields.length ∧
          mmFieldsEqual fields (mmFieldsReimported fields []) = true := by
      rw [mmAreMessagesEqual, MMessage.reimported, MMessage.what, MMessage.fields, beq_self_eq_true, Bool.true_and,
        Bool.and_eq_true, beq_iff_eq, eq_comm]
    rw [hEqual]
    constructor
    · rintro ⟨hLength, hFields⟩
      obtain ⟨-, hPairs⟩ := (mmFieldsReimported_length fields []).2 (hLength.trans (Nat.zero_add _).symm)
      refine .intro _ (repeatsEqual_of_equal hFilled hPairs hFields) fun m' hItem => (ih m' hItem).mp ?_
      obtain ⟨f, hf, hIn⟩ := hItem
      obtain ⟨l, hl, -, hName, -, hType, hData⟩ := found_of_equal hPairs hFields hf
      -- a field of messages is the only one of its name, so it is compared with itself
      have hSize : f.2.isVariableSize = true := by
        cases hf2 : f.2 with
        | message items => rfl
        | _ =>
          rw [hf2] at hIn
          cases hIn
      have hSizeLast : l.2.isVariableSize = true := by
        unfold MMData.isVariableSize at hSize ⊢
        rw [hType, hSize]
      obtain rfl := eq_of_not_replaces hPairs hl hf hName hSizeLast hSize
      exact (mmDataEqual_reimported l.2).mp hData m' hIn
    · intro hRepeats
      have hPairs : fields.Pairwise fun f g => ¬Replaces f g := hRepeats.here.imp not_replaces_of_repeats
      have hImported : mmFieldsReimported fields [] = fields.map mmReimported :=
        mmFieldsReimported_eq (fun _ hIn => absurd hIn List.not_mem_nil) hPairs
      have hSame : ∀ f ∈ fields, ∀ g ∈ fields, mmFieldName f = mmFieldName g → f.2 = g.2 := by
        intro f hf g hg
        refine List.Pairwise.forall_of_forall_of_flip
          (R := fun f g : MMField => mmFieldName f = mmFieldName g → f.2 = g.2) (fun _ _ _ => rfl) ?_ ?_ hf hg
        · exact List.Pairwise.imp (fun h hName => (h hName).2) hRepeats.here
        · exact List.Pairwise.imp (fun h hName => (h hName.symm).2.symm) hRepeats.here
      rw [hImported]
      refine ⟨List.length_map .., (mmFieldsEqual_iff _ _).mpr fun f hf => ?_⟩
      obtain ⟨l, hLast⟩ : ∃ l, (fields.reverse.find? fun f' => mmFieldName f' = mmFieldName f) = some l := by
        refine Option.isSome_iff_exists.mp (List.find?_isSome.mpr ⟨f, List.mem_reverse.mpr hf, ?_⟩)
        exact decide_eq_true rfl
      obtain ⟨hl, hName⟩ := mem_of_find_reverse hLast
      have hData : f.2 = l.2 := hSame f hf l hl hName.symm
      refine ⟨mmReimported l, lookupMMessageField_eq_some.mpr ⟨?_, ?_⟩, ?_, ?_, ?_⟩
      · rw [← List.map_reverse, List.find?_map]
        exact congrArg (Option.map mmReimported) hLast
      · rw [mmReimported, MMData.typeCode_reimported, hData]
        exact .inr rfl
      · rw [mmReimported, MMData.numItems_reimported, hData]
      · rw [mmReimported, MMData.typeCode_reimported, hData]
      · rw [mmReimported, ← hData]
        exact (mmDataEqual_reimported f.2).mpr fun m' hIn => (ih m' ⟨f, hf, hIn⟩).mpr (hRepeats.item ⟨f, hf, hIn⟩)

end BeShare.Muscle
