import BeShare.Regex.QueryFilter

/-!
What comes back from the archive of a filter: the same filter, without the memory of its empty raw values. A filter for
rectangles has no archive.
-/

namespace BeShare.Muscle.Filters

open Message (Succeeds Changes addItem_spec addItem_new addString_new addInt8_new addInt32_new addInt32_unless
  addDataAux_new
  getOrCreateArray_new items_of_getOrCreateArray andThen_snd andThen_assoc)

/-- Enough fuel makes this filter from the message. -/
def RestoresTo (msg : Message) (f : QueryFilter) : Prop :=
  ∃ enough, ∀ fuel ≥ enough, createQueryFilter fuel msg = some f

/-- An empty value without its memory. -/
def freedValue (value : Option ByteBuffer) : Option ByteBuffer :=
  value.bind fun bb => if bb.bytes = [] then none else some bb

namespace QueryFilter

mutual

/-- The filter without the memory of its empty raw values. -/
def freed : QueryFilter → QueryFilter
  | whatCode minWhatCode maxWhatCode => whatCode minWhatCode maxWhatCode
  | valueExists v typeCode => valueExists v typeCode
  | numeric c v op value => numeric c v op value
  | string v op value => string v op value
  | message v none => message v none
  | message v (some childFilter) => message v (some childFilter.freed)
  | rawData v op value typeCode => rawData v op (freedValue value) typeCode
  | nandNot children maxMatches => nandNot (childrenFreed children) maxMatches
  | andOr children minMatches => andOr (childrenFreed children) minMatches
  | xor children => xor (childrenFreed children)

def childrenFreed : List QueryFilter → List QueryFilter
  | [] => []
  | child :: children => child.freed :: childrenFreed children

end

mutual

/-- The filter is a `RectQueryFilter`, or has one inside. -/
def hasRect : QueryFilter → Bool
  | numeric c .. => c == .rect
  | message _ (some childFilter) => childFilter.hasRect
  | nandNot children _ => anyRect children
  | andOr children _ => anyRect children
  | xor children => anyRect children
  | _ => false

def anyRect : List QueryFilter → Bool
  | [] => false
  | child :: children => child.hasRect || anyRect children

end

mutual

/-- A raw filter that looks for a message's bytes in an empty value with memory is the filter, or is inside. -/
def hasEmptySuperset : QueryFilter → Bool
  | rawData _ op value _ => op == 11 && myBytes value == [] && myMemory value
  | message _ (some childFilter) => childFilter.hasEmptySuperset
  | nandNot children _ => anyEmptySuperset children
  | andOr children _ => anyEmptySuperset children
  | xor children => anyEmptySuperset children
  | _ => false

def anyEmptySuperset : List QueryFilter → Bool
  | [] => false
  | child :: children => child.hasEmptySuperset || anyEmptySuperset children

end

/-- What a filter matches does not depend on the memory of empty raw values. -/
def MatchesFreed (p : Platform) (f : QueryFilter) : Prop :=
  ∀ msg, f.freed.isMatch p msg = f.isMatch p msg

/-- `SaveToArchive` on a new message succeeds, and `CreateQueryFilter` on it makes a filter of the same class that
matches the same messages. -/
def RoundTrips (p : Platform) (f : QueryFilter) : Prop :=
  ∀ what, Succeeds (f.saveToArchive (.mk what [])) fun archive =>
    ∃ f', RestoresTo archive f' ∧ f'.filterClass = f.filterClass ∧ ∀ msg, f'.isMatch p msg = f.isMatch p msg

end QueryFilter

/-! ### Reading -/

theorem RestoresTo.unique {msg : Message} {f f' : QueryFilter} (h : RestoresTo msg f) (h' : RestoresTo msg f') :
    f = f' := by
  obtain ⟨enough, hEnough⟩ := h
  obtain ⟨enough', hEnough'⟩ := h'
  have hBoth := (hEnough (max enough enough') (Nat.le_max_left ..)).symm.trans
    (hEnough' (max enough enough') (Nat.le_max_right ..))
  exact Option.some.inj hBoth

/-- The class is told by the type code. -/
theorem createQueryFilter_succ {msg : Message} {c : FilterClass} (h : msg.what = c.typeCode) (fuel : Nat) :
    createQueryFilter (fuel + 1) msg = setFromArchive (createQueryFilter fuel) msg c := by
  rw [createQueryFilter, h, c.ofTypeCode_typeCode]
  rfl

/-- What is made without looking at children. -/
theorem restoresTo_leaf {msg : Message} {c : FilterClass} {f : QueryFilter} (hWhat : msg.what = c.typeCode)
    (h : ∀ create, setFromArchive create msg c = some f) : RestoresTo msg f := by
  refine ⟨1, fun fuel hFuel => ?_⟩
  obtain ⟨fuel, rfl⟩ : ∃ n, fuel = n + 1 := ⟨fuel - 1, by omega⟩
  rw [createQueryFilter_succ hWhat, h]

/-- What is made of children that enough fuel makes. -/
theorem restoresTo_node {msg : Message} {c : FilterClass} {f : QueryFilter} {enough : Nat}
    (hWhat : msg.what = c.typeCode)
    (h : ∀ fuel ≥ enough, setFromArchive (createQueryFilter fuel) msg c = some f) : RestoresTo msg f := by
  refine ⟨enough + 1, fun fuel hFuel => ?_⟩
  obtain ⟨fuel, rfl⟩ : ∃ n, fuel = n + 1 := ⟨fuel - 1, by omega⟩
  rw [createQueryFilter_succ hWhat, h fuel (by omega)]

theorem setFromArchive_of_changes {names : List CStr} {archive archive' : Message} (h : Changes names archive archive')
    (hFn : fnField ∉ names) (hIdx : idxField ∉ names) :
    ValueQueryFilter.setFromArchive archive' = ValueQueryFilter.setFromArchive archive := by
  unfold ValueQueryFilter.setFromArchive
  rw [h.findInt32 hIdx, h.findItem hFn]

/-! ### Saving and reading the parts -/

/-- An archive that has the part of `ValueQueryFilter`, and nothing else. -/
structure HasValue (c : FilterClass) (v : ValueQueryFilter) (archive : Message) : Prop where
  what : archive.what = c.typeCode
  value : ValueQueryFilter.setFromArchive archive = (v, true)
  others : ∀ name ∉ [fnField, idxField], archive.entries.lookup name = none

theorem saveValue_spec (v : ValueQueryFilter) (c : FilterClass) (what : UInt32) :
    Succeeds (v.saveToArchive c (.mk what [])) (HasValue c v) := by
  unfold ValueQueryFilter.saveToArchive
  have hBlank : Succeeds (saveTypeCode c (.mk what [])) fun archive => archive = .mk c.typeCode [] := ⟨rfl, rfl⟩
  refine hBlank.andThen fun archive hArchive => ?_
  subst hArchive
  refine (@addString_new (.mk c.typeCode []) fnField rfl v.fieldName).andThen fun archive₁ ⟨hFn, hName⟩ => ?_
  have hNoIdx : archive₁.entries.lookup idxField = none := hFn.others idxField (by decide)
  refine (addInt32_unless hNoIdx v.index 0).mono fun archive₂ ⟨hIdx, hIndex⟩ => ?_
  have hBoth := hFn.trans hIdx
  refine ⟨hBoth.what, ?_, hBoth.others⟩
  unfold ValueQueryFilter.setFromArchive
  rw [hIndex, hIdx.findItem (by decide), hName]

theorem saveBytes_spec {archive : Message} (h : archive.entries.lookup valField = none) (value : Option ByteBuffer) :
    Succeeds (saveBytes value archive) fun archive' =>
      Changes [valField] archive archive' ∧ bytesFromArchive archive' = freedValue value := by
  have hNothing : bytesFromArchive archive = none := by
    unfold bytesFromArchive
    rw [Message.findItem_of_getOrCreateArray (getOrCreateArray_new h _)]
    rfl
  cases value with
  | none => exact ⟨rfl, .refl .., hNothing⟩
  | some bb =>
    by_cases hEmpty : bb.bytes = []
    · have hSkip : ¬(bb.hasMemory ∧ 0 < UInt32.ofNat bb.bytes.length) := by
        rw [hEmpty]
        exact fun hNo => absurd hNo.2 (by decide)
      unfold saveBytes freedValue
      dsimp only
      rw [if_neg hSkip, Option.bind_some, if_pos hEmpty]
      exact ⟨rfl, .refl .., hNothing⟩
    · have hLength : 0 < bb.bytes.length := List.length_pos_iff.mpr hEmpty
      have hSize : (UInt32.ofNat bb.bytes.length).toNat = bb.bytes.length := UInt32.toNat_ofNat_of_lt' bb.counted
      have hSome : 0 < UInt32.ofNat bb.bytes.length := UInt32.lt_iff_toNat_lt.mpr (by rw [hSize]; exact hLength)
      have hNot : UInt32.ofNat bb.bytes.length ≠ 0 := fun hZero => by
        rw [hZero] at hSome
        exact absurd hSome (by decide)
      have hOne : Message.dataElements rawType (UInt32.ofNat bb.bytes.length) =
          some (UInt32.ofNat bb.bytes.length, 1) := by
        unfold Message.dataElements
        have hZero : rawType.elementSize = 0 := rfl
        dsimp only
        rw [hZero, if_pos rfl, UInt32.mod_self, UInt32.div_self, if_neg hNot]
        simp [hNot]
      unfold saveBytes freedValue
      dsimp only
      rw [if_pos ⟨bb.held hEmpty, hSome⟩, Option.bind_some, if_neg hEmpty]
      refine (@addDataAux_new archive valField rawType h (fun _ => some bb.bytes) _ hOne hNot).mono
        fun archive' hAdded => ⟨hAdded.1, ?_⟩
      have hFound := hAdded.2
      unfold bytesFromArchive
      rw [hFound]
      dsimp only
      rw [dif_pos ⟨hEmpty, bb.counted⟩]
      obtain ⟨bytes, hasMemory, counted, held⟩ := bb
      cases held hEmpty
      rfl

/-- A point is not made of whole rectangles. -/
theorem addDataAux_rect (archive : Message) (name : CStr) (element : Nat → NumericClass.rect.fieldType.Item) :
    (archive.addDataAux name NumericClass.rect.fieldType element NumericClass.rect.dataType.elementSize).2 = false := by
  unfold Message.addDataAux
  have hPart : Message.dataElements NumericClass.rect.fieldType NumericClass.rect.dataType.elementSize = none := by
    decide
  have hSome : ¬NumericClass.rect.dataType.elementSize = 0 := by decide
  rw [if_neg hSome, hPart]

/-- A value of a class whose field holds values of its type. -/
theorem saveNumber_spec {c : NumericClass} (hClass : c ≠ .rect) (value : c.dataType.Item) {archive : Message}
    (h : archive.entries.lookup valField = none) :
    Succeeds (archive.addDataAux valField c.fieldType (fun _ => c.data value) c.dataType.elementSize) fun archive' =>
      Changes [valField] archive archive' ∧ archive'.findItem valField c.fieldType 0 = some (c.data value) := by
  refine addDataAux_new h (fun _ => c.data value) ?_ ?_
  · cases c with
    | rect => exact absurd rfl hClass
    | _ => decide
  · cases c <;> decide

theorem view_data (c : NumericClass) (value : c.dataType.Item) : c.view (c.data value) = value := by
  cases c <;> rfl

theorem elementSize_eq {c : NumericClass} (h : c ≠ .rect) : c.fieldType.elementSize = c.dataType.elementSize := by
  cases c with
  | rect => exact absurd rfl h
  | _ => rfl

/-! ### The classes without children -/

namespace QueryFilter

theorem whatCode_saves (minWhatCode maxWhatCode what : UInt32) :
    Succeeds ((whatCode minWhatCode maxWhatCode).saveToArchive (.mk what [])) fun archive =>
      RestoresTo archive (whatCode minWhatCode maxWhatCode) := by
  unfold saveToArchive
  have hBlank : Succeeds (saveTypeCode .whatCode (.mk what [])) fun archive =>
      archive = .mk FilterClass.whatCode.typeCode [] := ⟨rfl, rfl⟩
  refine hBlank.andThen fun archive hArchive => ?_
  subst hArchive
  refine (@addInt32_new (.mk FilterClass.whatCode.typeCode []) minField rfl minWhatCode).andThen
    fun archive₁ ⟨hFirst, hMin⟩ => ?_
  have hNoMax : archive₁.entries.lookup maxField = none := hFirst.others maxField (by decide)
  refine (addInt32_unless hNoMax maxWhatCode minWhatCode).mono fun archive₂ ⟨hSecond, hMax⟩ => ?_
  refine @restoresTo_leaf _ .whatCode _ (hSecond.what.trans hFirst.what) fun create => ?_
  have hKept : archive₂.findInt32 minField = archive₁.findInt32 minField := hSecond.findInt32 (by decide)
  rw [setFromArchive, hKept, hMin, Option.map_some, hMax]

theorem valueExists_saves (v : ValueQueryFilter) (typeCode what : UInt32) :
    Succeeds ((valueExists v typeCode).saveToArchive (.mk what [])) fun archive =>
      RestoresTo archive (valueExists v typeCode) := by
  unfold saveToArchive
  refine (saveValue_spec v .valueExists what).andThen fun archive hValue => ?_
  refine (addInt32_unless (hValue.others typeField (by decide)) typeCode B_ANY_TYPE).mono
    fun archive₁ ⟨hType, hCode⟩ => ?_
  refine restoresTo_leaf (hType.what.trans hValue.what) fun create => ?_
  rw [setFromArchive, setFromArchive_of_changes hType (by decide) (by decide), hValue.value, hCode]
  rfl

theorem numeric_saves {c : NumericClass} (hClass : c ≠ .rect) (v : ValueQueryFilter) (op : UInt8)
    (value : c.dataType.Item) (what : UInt32) :
    Succeeds ((numeric c v op value).saveToArchive (.mk what [])) fun archive =>
      RestoresTo archive (numeric c v op value) := by
  unfold saveToArchive
  refine (saveValue_spec v (.numeric c) what).andThen fun archive hValue => ?_
  refine (addInt8_new (hValue.others opField (by decide)) op).andThen fun archive₁ ⟨hFirst, hOp⟩ => ?_
  have hNoVal : archive₁.entries.lookup valField = none :=
    (hFirst.others valField (by decide)).trans (hValue.others valField (by decide))
  refine (saveNumber_spec hClass value hNoVal).mono fun archive₂ ⟨hSecond, hVal⟩ => ?_
  have hBoth := hFirst.trans hSecond
  refine restoresTo_leaf (hBoth.what.trans hValue.what) fun create => ?_
  rw [setFromArchive, setFromArchive_of_changes hBoth (by decide) (by decide), hValue.value,
    hSecond.findInt8 (by decide), hOp, hVal]
  dsimp only
  rw [if_pos rfl, Option.bind_some, Option.bind_some, if_pos (elementSize_eq hClass), view_data]

theorem string_saves (v : ValueQueryFilter) (op : UInt8) (value : CStr) (what : UInt32) :
    Succeeds ((string v op value).saveToArchive (.mk what [])) fun archive =>
      RestoresTo archive (string v op value) := by
  unfold saveToArchive
  refine (saveValue_spec v .string what).andThen fun archive hValue => ?_
  refine (addString_new (hValue.others valField (by decide)) value).andThen fun archive₁ ⟨hFirst, hVal⟩ => ?_
  have hNoOp : archive₁.entries.lookup opField = none :=
    (hFirst.others opField (by decide)).trans (hValue.others opField (by decide))
  refine (addInt8_new hNoOp op).mono fun archive₂ ⟨hSecond, hOp⟩ => ?_
  have hBoth := hFirst.trans hSecond
  refine restoresTo_leaf (hBoth.what.trans hValue.what) fun create => ?_
  rw [setFromArchive, setFromArchive_of_changes hBoth (by decide) (by decide), hValue.value,
    hSecond.findItem (by decide), hVal, hOp]
  rfl

theorem rawData_saves (v : ValueQueryFilter) (op : UInt8) (value : Option ByteBuffer) (typeCode what : UInt32) :
    Succeeds ((rawData v op value typeCode).saveToArchive (.mk what [])) fun archive =>
      RestoresTo archive (rawData v op (freedValue value) typeCode) := by
  unfold saveToArchive
  refine (saveValue_spec v .rawData what).andThen fun archive hValue => ?_
  refine (addInt8_new (hValue.others opField (by decide)) op).andThen fun archive₁ ⟨hFirst, hOp⟩ => ?_
  have hNoType : archive₁.entries.lookup typeField = none :=
    (hFirst.others typeField (by decide)).trans (hValue.others typeField (by decide))
  refine (addInt32_unless hNoType typeCode B_ANY_TYPE).andThen fun archive₂ ⟨hSecond, hType⟩ => ?_
  have hTwo := hFirst.trans hSecond
  have hNoVal : archive₂.entries.lookup valField = none :=
    (hTwo.others valField (by decide)).trans (hValue.others valField (by decide))
  refine (saveBytes_spec hNoVal value).mono fun archive₃ ⟨hThird, hBytes⟩ => ?_
  have hAll := hTwo.trans hThird
  refine restoresTo_leaf (hAll.what.trans hValue.what) fun create => ?_
  rw [setFromArchive, setFromArchive_of_changes hAll (by decide) (by decide), hValue.value, hThird.findInt8 (by decide),
    hSecond.findInt8 (by decide), hOp, hThird.findInt32 (by decide), hType, hBytes]
  rfl

/-! ### The classes with children -/

theorem message_saves (v : ValueQueryFilter) (what : UInt32) :
    Succeeds ((message v none).saveToArchive (.mk what [])) fun archive => RestoresTo archive (message v none) := by
  obtain ⟨-, hValue⟩ := saveValue_spec v .message what
  unfold saveToArchive
  refine ⟨rfl, restoresTo_leaf hValue.what fun create => ?_⟩
  rw [setFromArchive, hValue.value, Message.findItem_of_getOrCreateArray
    (getOrCreateArray_new (hValue.others kidField (by decide)) .message)]
  rfl

theorem messageOf_saves {childFilter freedChild : QueryFilter}
    (hChild : Succeeds (childFilter.saveToArchive (.mk 0 [])) fun archive => RestoresTo archive freedChild)
    (v : ValueQueryFilter) (what : UInt32) :
    Succeeds ((message v (some childFilter)).saveToArchive (.mk what [])) fun archive =>
      RestoresTo archive (message v (some freedChild)) := by
  obtain ⟨hSaved, hValue⟩ := saveValue_spec v .message what
  obtain ⟨enough, hEnough⟩ := hChild.2
  unfold saveToArchive
  dsimp only
  rw [if_neg (by rw [hSaved]; exact Bool.noConfusion), if_pos hChild.1]
  refine (addItem_new (hValue.others kidField (by decide)) .message _).mono fun archive ⟨hKid, hFound⟩ => ?_
  refine @restoresTo_node _ .message _ enough (hKid.what.trans hValue.what) fun fuel hFuel => ?_
  rw [setFromArchive, setFromArchive_of_changes hKid (by decide) (by decide), hValue.value, hFound]
  dsimp only
  rw [if_neg (by exact Bool.noConfusion), Option.bind_some, hEnough fuel hFuel]
  rfl

/-- The archives of children, from which they are made again. -/
def ChildrenRestored (children : List QueryFilter) (kids : List (Option Message)) : Prop :=
  ∃ enough, ∀ fuel ≥ enough, kids.mapM (fun msg => msg.bind (createQueryFilter fuel)) = some children

theorem childrenFromArchive_of_changes {names : List CStr} {archive archive' : Message}
    (h : Changes names archive archive') (hKid : kidField ∉ names) (create : Message → Option QueryFilter) :
    childrenFromArchive create archive' = childrenFromArchive create archive := by
  unfold childrenFromArchive
  rw [h.getArray hKid]

/-- An archive with the children's archives, and nothing else. -/
structure HasChildren (c : FilterClass) (children : List QueryFilter) (archive : Message) : Prop where
  what : archive.what = c.typeCode
  children : ∃ enough, ∀ fuel ≥ enough, childrenFromArchive (createQueryFilter fuel) archive = some children
  others : ∀ name ∉ [kidField], archive.entries.lookup name = none

/-- Children are saved behind others. -/
def ChildrenSaved (children freedChildren : List QueryFilter) : Prop :=
  ∀ archive items, archive.getOrCreateArray kidField .message = some items →
    Succeeds (saveChildren children archive) fun archive' =>
      Changes [kidField] archive archive' ∧ ∃ kids,
        archive'.getOrCreateArray kidField .message = some (items ++ kids) ∧ ChildrenRestored freedChildren kids

theorem childrenSaved_cons {child freedChild : QueryFilter} {children freedChildren : List QueryFilter}
    (hChild : Succeeds (child.saveToArchive (.mk 0 [])) fun archive => RestoresTo archive freedChild)
    (hChildren : ChildrenSaved children freedChildren) :
    ChildrenSaved (child :: children) (freedChild :: freedChildren) := by
  intro archive items hItems
  obtain ⟨enough, hEnough⟩ := hChild.2
  unfold saveChildren
  dsimp only
  rw [if_pos hChild.1]
  refine (addItem_spec hItems _).andThen fun archive₁ ⟨hFirst, hAdded⟩ => ?_
  refine (hChildren archive₁ _ hAdded).mono fun archive₂ ⟨hRest, kids, hKids, enough', hEnough'⟩ => ?_
  refine ⟨(hFirst.trans hRest).mono (by simp), some (child.saveToArchive (.mk 0 [])).1 :: kids, ?_,
    max enough enough', fun fuel hFuel => ?_⟩
  · rw [hKids, List.append_assoc]
    rfl
  · rw [List.mapM_cons, Option.bind_some, hEnough fuel (by omega), hEnough' fuel (by omega)]
    rfl

theorem children_saves {children freedChildren : List QueryFilter} (h : ChildrenSaved children freedChildren)
    (c : FilterClass) (what : UInt32) :
    Succeeds (Message.andThen (saveTypeCode c (.mk what [])) fun archive => saveChildren children archive)
      (HasChildren c freedChildren) := by
  have hBlank : Succeeds (saveTypeCode c (.mk what [])) fun archive => archive = .mk c.typeCode [] := ⟨rfl, rfl⟩
  refine hBlank.andThen fun archive hArchive => ?_
  subst hArchive
  refine (h (.mk c.typeCode []) [] rfl).mono fun archive' ⟨hChanges, kids, hKids, enough, hEnough⟩ => ?_
  refine ⟨hChanges.what, ⟨enough, fun fuel hFuel => ?_⟩, hChanges.others⟩
  unfold childrenFromArchive
  rw [items_of_getOrCreateArray hKids, List.nil_append]
  exact hEnough fuel hFuel

theorem nandNot_saves {children freedChildren : List QueryFilter} (h : ChildrenSaved children freedChildren)
    (maxMatches what : UInt32) :
    Succeeds ((nandNot children maxMatches).saveToArchive (.mk what [])) fun archive =>
      RestoresTo archive (nandNot freedChildren maxMatches) := by
  unfold saveToArchive
  have hChildren := children_saves h .nandNot what
  rw [← andThen_assoc]
  refine hChildren.andThen fun archive hKids => ?_
  obtain ⟨enough, hEnough⟩ := hKids.children
  refine (addInt32_unless (hKids.others maxField (by decide)) maxMatches 0).mono fun archive₁ ⟨hChanges, hMax⟩ => ?_
  refine @restoresTo_node _ .nandNot _ enough (hChanges.what.trans hKids.what) fun fuel hFuel => ?_
  have hSame := childrenFromArchive_of_changes hChanges (by decide) (createQueryFilter fuel)
  rw [setFromArchive, hSame, hEnough fuel hFuel, Option.map_some, hMax]

theorem andOr_saves {children freedChildren : List QueryFilter} (h : ChildrenSaved children freedChildren)
    (minMatches what : UInt32) :
    Succeeds ((andOr children minMatches).saveToArchive (.mk what [])) fun archive =>
      RestoresTo archive (andOr freedChildren minMatches) := by
  unfold saveToArchive
  have hChildren := children_saves h .andOr what
  rw [← andThen_assoc]
  refine hChildren.andThen fun archive hKids => ?_
  obtain ⟨enough, hEnough⟩ := hKids.children
  refine (addInt32_unless (hKids.others minField (by decide)) minMatches 0xffffffff).mono
    fun archive₁ ⟨hChanges, hMin⟩ => ?_
  refine @restoresTo_node _ .andOr _ enough (hChanges.what.trans hKids.what) fun fuel hFuel => ?_
  have hSame := childrenFromArchive_of_changes hChanges (by decide) (createQueryFilter fuel)
  rw [setFromArchive, hSame, hEnough fuel hFuel, Option.map_some, hMin]

theorem xor_saves {children freedChildren : List QueryFilter} (h : ChildrenSaved children freedChildren)
    (what : UInt32) :
    Succeeds ((xor children).saveToArchive (.mk what [])) fun archive => RestoresTo archive (xor freedChildren) := by
  unfold saveToArchive
  refine (children_saves h .xor what).mono fun archive hKids => ?_
  obtain ⟨enough, hEnough⟩ := hKids.children
  refine @restoresTo_node _ .xor _ enough hKids.what fun fuel hFuel => ?_
  rw [setFromArchive, hEnough fuel hFuel, Option.map_some]

/-! ### All filters -/

mutual

/-- What has no rectangle inside is saved, and comes back without the memory of empty values. -/
theorem saves : (f : QueryFilter) → f.hasRect = false → ∀ what,
    Succeeds (f.saveToArchive (.mk what [])) fun archive => RestoresTo archive f.freed
  | whatCode minWhatCode maxWhatCode, _, what => by
    rw [freed]
    exact whatCode_saves minWhatCode maxWhatCode what
  | valueExists v typeCode, _, what => by
    rw [freed]
    exact valueExists_saves v typeCode what
  | numeric c v op value, hRect, what => by
    rw [hasRect] at hRect
    rw [freed]
    exact numeric_saves (ne_of_beq_false hRect) v op value what
  | string v op value, _, what => by
    rw [freed]
    exact string_saves v op value what
  | message v none, _, what => by
    rw [freed]
    exact message_saves v what
  | message v (some childFilter), hRect, what => by
    rw [hasRect] at hRect
    rw [freed]
    exact messageOf_saves (saves childFilter hRect 0) v what
  | rawData v op value typeCode, _, what => by
    rw [freed]
    exact rawData_saves v op value typeCode what
  | nandNot children maxMatches, hRect, what => by
    rw [hasRect] at hRect
    rw [freed]
    exact nandNot_saves (children_saved children hRect) maxMatches what
  | andOr children minMatches, hRect, what => by
    rw [hasRect] at hRect
    rw [freed]
    exact andOr_saves (children_saved children hRect) minMatches what
  | xor children, hRect, what => by
    rw [hasRect] at hRect
    rw [freed]
    exact xor_saves (children_saved children hRect) what

theorem children_saved : (children : List QueryFilter) → anyRect children = false →
    ChildrenSaved children (childrenFreed children)
  | [], _ => fun archive items hItems => by
    unfold saveChildren childrenFreed
    refine ⟨rfl, .refl .., [], ?_, 0, fun _ _ => rfl⟩
    rw [List.append_nil]
    exact hItems
  | child :: children, hRect => by
    rw [anyRect, Bool.or_eq_false_iff] at hRect
    rw [childrenFreed]
    exact childrenSaved_cons (saves child hRect.1 0) (children_saved children hRect.2)

end

mutual

/-- What has a rectangle inside is not saved. -/
theorem fails : (f : QueryFilter) → f.hasRect = true → ∀ what, (f.saveToArchive (.mk what [])).2 = false
  | numeric c v op value, hRect, what => by
    rw [hasRect] at hRect
    obtain rfl := eq_of_beq hRect
    rw [saveToArchive, andThen_snd, andThen_snd, addDataAux_rect, Bool.and_false, Bool.and_false]
  | message v (some childFilter), hRect, what => by
    rw [hasRect] at hRect
    have hChild := fails childFilter hRect 0
    obtain ⟨hSaved, -⟩ := saveValue_spec v .message what
    rw [saveToArchive]
    dsimp only
    rw [if_neg (by rw [hSaved]; exact Bool.noConfusion), if_neg (by rw [hChild]; exact Bool.noConfusion)]
  | nandNot children maxMatches, hRect, what => by
    rw [hasRect] at hRect
    rw [saveToArchive, andThen_snd, andThen_snd, children_fail children hRect, Bool.false_and, Bool.and_false]
  | andOr children minMatches, hRect, what => by
    rw [hasRect] at hRect
    rw [saveToArchive, andThen_snd, andThen_snd, children_fail children hRect, Bool.false_and, Bool.and_false]
  | xor children, hRect, what => by
    rw [hasRect] at hRect
    rw [saveToArchive, andThen_snd, children_fail children hRect, Bool.and_false]

theorem children_fail : (children : List QueryFilter) → anyRect children = true → ∀ archive,
    (saveChildren children archive).2 = false
  | child :: children, hRect, archive => by
    rw [anyRect, Bool.or_eq_true] at hRect
    rw [saveChildren]
    split
    next hSaved =>
      rcases hRect with hChild | hChildren
      · exact absurd (hSaved.symm.trans (fails child hChild 0)) Bool.noConfusion
      · rw [andThen_snd, children_fail children hChildren, Bool.and_false]
    next => rfl

end

theorem freed_filterClass (f : QueryFilter) : f.freed.filterClass = f.filterClass := by
  cases f with
  | message v childFilter => cases childFilter <;> (unfold freed; rfl)
  | _ => unfold freed; rfl

/-- Raw values are compared by their bytes. Whether there is memory matters only where a message's bytes are looked for
in them. -/
theorem rawOp_congr {op : UInt8} {value value' : Option ByteBuffer} (his : List UInt8)
    (hBytes : myBytes value = myBytes value') (hMemory : op = 11 → myMemory value = myMemory value') :
    rawOp op his value = rawOp op his value' := by
  unfold rawOp
  dsimp only
  rw [hBytes]
  by_cases hOp : op = 11
  · rw [hMemory hOp]
  · have hNat : op.toNat ≠ 11 := fun hNo => hOp (UInt8.toNat_inj.mp hNo)
    split <;> first | rfl | exact absurd ‹_› hNat

theorem rawOp_freedValue {op : UInt8} {value : Option ByteBuffer} (his : List UInt8)
    (h : (op == 11 && myBytes value == [] && myMemory value) = false) :
    rawOp op his (freedValue value) = rawOp op his value := by
  cases value with
  | none => rfl
  | some bb =>
    by_cases hEmpty : bb.bytes = []
    · have hFreed : freedValue (some bb) = none := by
        unfold freedValue
        rw [Option.bind_some, if_pos hEmpty]
      have hBytes : myBytes (some bb) = [] := hEmpty
      rw [hFreed]
      refine rawOp_congr his hBytes.symm fun hOp => ?_
      rw [hOp, hBytes] at h
      exact h.symm
    · have hFreed : freedValue (some bb) = some bb := by
        unfold freedValue
        rw [Option.bind_some, if_neg hEmpty]
      rw [hFreed]

theorem length_childrenFreed (children : List QueryFilter) : (childrenFreed children).length = children.length := by
  induction children with
  | nil => rfl
  | cons child children ih => rw [childrenFreed, List.length_cons, List.length_cons, ih]

mutual

theorem isMatch_freed (p : Platform) : (f : QueryFilter) → f.hasEmptySuperset = false → ∀ msg,
    f.freed.isMatch p msg = f.isMatch p msg
  | whatCode .., _, _ => by rw [freed]
  | valueExists .., _, _ => by rw [freed]
  | numeric .., _, _ => by rw [freed]
  | string .., _, _ => by rw [freed]
  | message _ none, _, _ => by rw [freed]
  | message v (some childFilter), h, msg => by
    rw [hasEmptySuperset] at h
    rw [freed, isMatch, isMatch]
    cases msg.findItem v.fieldName .message v.index.toNat with
    | none => rfl
    | some item =>
      cases item with
      | none => rfl
      | some subMsg => exact isMatch_freed p childFilter h subMsg
  | rawData v op value typeCode, h, msg => by
    rw [hasEmptySuperset] at h
    rw [freed, isMatch, isMatch]
    cases findData p msg v.fieldName typeCode with
    | none => rfl
    | some his => exact rawOp_freedValue his h
  | nandNot children maxMatches, h, msg => by
    rw [hasEmptySuperset] at h
    rw [freed, isMatch, isMatch, childrenMatch_freed p children h, length_childrenFreed]
  | andOr children minMatches, h, msg => by
    rw [hasEmptySuperset] at h
    rw [freed, isMatch, isMatch, childrenMatch_freed p children h, length_childrenFreed]
  | xor children, h, msg => by
    rw [hasEmptySuperset] at h
    rw [freed, isMatch, isMatch, childrenMatch_freed p children h]

theorem childrenMatch_freed (p : Platform) : (children : List QueryFilter) → anyEmptySuperset children = false →
    ∀ msg, childrenMatch p (childrenFreed children) msg = childrenMatch p children msg
  | [], _, _ => by rw [childrenFreed]
  | child :: children, h, msg => by
    rw [anyEmptySuperset, Bool.or_eq_false_iff] at h
    rw [childrenFreed, childrenMatch, childrenMatch, isMatch_freed p child h.1, childrenMatch_freed p children h.2]

end

/-- A filter comes back from its archive exactly if there is no rectangle inside, and no message tells whether its empty
raw values have memory. -/
theorem restores_iff (p : Platform) (f : QueryFilter) :
    f.RoundTrips p ↔ f.hasRect = false ∧ (f.hasEmptySuperset = true → f.MatchesFreed p) := by
  constructor
  · intro hRound
    obtain ⟨hSaved, f', hRestores, -, hMatches⟩ := hRound 0
    have hRect : f.hasRect = false := by
      by_contra hRect
      rw [Bool.not_eq_false] at hRect
      exact absurd (hSaved.symm.trans (f.fails hRect 0)) Bool.noConfusion
    obtain rfl := hRestores.unique (f.saves hRect 0).2
    exact ⟨hRect, fun _ => hMatches⟩
  · rintro ⟨hRect, hMemory⟩ what
    have hMatches : f.MatchesFreed p := by
      cases hEmpty : f.hasEmptySuperset with
      | true => exact hMemory hEmpty
      | false => exact f.isMatch_freed p hEmpty
    exact (f.saves hRect what).mono fun archive hRestores => ⟨f.freed, hRestores, freed_filterClass f, hMatches⟩

/-- Whether the rectangle in field `"r"` is at the origin. -/
def atOrigin : QueryFilter :=
  numeric .rect ⟨.ofBytes [114], 0⟩ 0 (⟨0, 0⟩ : Point)

/-- A filter for rectangles has no archive, and so do all filters that it is a child of. -/
theorem atOrigin_not_saved :
    (atOrigin.saveToArchive (.mk 0 [])).2 = false ∧ ((xor [atOrigin]).saveToArchive (.mk 0 [])).2 = false ∧
      ∀ p, ¬atOrigin.RoundTrips p := by
  refine ⟨by decide, by decide, fun p hRound => ?_⟩
  exact absurd ((hRound 0).1.symm.trans (atOrigin.fails (by decide) 0)) Bool.noConfusion

end QueryFilter

end BeShare.Muscle.Filters
