import BeShare.Message.Wire
import BeShare.MiniMessage.Build

/-!
From the C codec to the C++ codec: what `MMFlattenMessage` writes, and when `Message::Unflatten`
makes the same Message of it.
-/

namespace BeShare.Muscle

open BeShare.Lib

/-! ### The same content -/

/-- The items of a blob field as the C++ classes hold them: strings up to their NUL, raw bytes as
byte buffers. A `NULL` item stands for no bytes. -/
def blobContent (tc : BlobTypeCode) (items : List (Option (List UInt8))) : DataArray :=
  if tc.code = B_STRING_TYPE then .string (items.map fun item => CStr.ofBytes (item.getD []))
  else if hRaw : tc.code ∉ classTypeCodes then
    .buffer ⟨tc.code, hRaw⟩ (items.map fun item => some (item.getD []))
  else .tag items.length

mutual

/-- The C++ Message with the same content; fields that are not flattenable have no part in it. -/
def MMessage.content : MMessage → Message
  | .mk what fields => .mk what (mmFieldsContent fields)

def mmFieldsContent : List (List UInt8 × MMData) → List (CStr × DataArray)
  | [] => []
  | (name, data) :: fields =>
    if data.isFlattenable then (CStr.ofBytes name, data.content) :: mmFieldsContent fields
    else mmFieldsContent fields

def MMData.content : MMData → DataArray
  | .bool items => .bool (items.map (· != 0))
  | .prim t items => .prim t items
  | .point items => .point items
  | .rect items => .rect items
  | .pointer items => .pointer items
  | .blob tc items => blobContent tc items
  | .message items => .message (mmMessagesContent items)

/-- A `NULL` item stands for an empty Message. -/
def mmMessagesContent : List (Option MMessage) → List (Option Message)
  | [] => []
  | none :: items => some (.mk 0 []) :: mmMessagesContent items
  | some m :: items => some m.content :: mmMessagesContent items

end

/-! ### What is written -/

/-- The bytes of the blobs. -/
def blobBytes (items : List (Option (List UInt8))) : List (List UInt8) :=
  items.map fun item => item.getD []

mutual

/-- The wire form of an `MMessage`. -/
def MMessage.wire : MMessage → List UInt8
  | .mk what fields =>
    wireHeader what (fields.countP fun f => f.2.isFlattenable) ++ mmFieldsWire fields

def mmFieldsWire : List (List UInt8 × MMData) → List UInt8
  | [] => []
  | (name, data) :: fields =>
    (if data.isFlattenable then
        lengthPrefixed name ++ leBytes 4 data.typeCode.toNat ++ lengthPrefixed data.wire
      else [])
      ++ mmFieldsWire fields

def MMData.wire : MMData → List UInt8
  | .bool items => items
  | .prim t items => t.codec.encodeAll items
  | .point items => Point.codec.encodeAll items
  | .rect items => Rect.codec.encodeAll items
  | .pointer items => pointerCodec.encodeAll items
  | .blob _ items => countedItems (blobBytes items)
  | .message items => mmMessagesWire items

def mmMessagesWire : List (Option MMessage) → List UInt8
  | [] => []
  | none :: items => lengthPrefixed (wireHeader 0 0) ++ mmMessagesWire items
  | some m :: items => lengthPrefixed m.wire ++ mmMessagesWire items

end

theorem blobs_wire (items : List (Option (List UInt8))) :
    blobsFlatten items = (countedItems (blobBytes items)).map some ∧
      (countedItems (blobBytes items)).length = blobsSize items := by
  have hSize : ∀ item : Option (List UInt8), bufferItemSize item = (item.getD []).length := by
    intro item
    cases item <;> rfl
  constructor
  · simp [blobsFlatten, countedItems, blobBytes, lengthPrefixed, word32, hSize, List.flatMap_map,
      List.map_flatMap]
  · simp only [countedItems, blobBytes, blobsSize, List.length_append, leBytes_length,
      List.length_flatMap, List.map_map]
    induction items with
    | nil => rfl
    | cons item items ih =>
      simp only [List.map_cons, List.sum_cons, List.length_cons, Function.comp_apply,
        lengthPrefixed_length, hSize] at ih ⊢
      omega

mutual

theorem MMessage.flatten_wire : (m : MMessage) →
    m.flatten = m.wire.map some ∧ m.wire.length = m.flattenedSize
  | .mk what fields => by
    obtain ⟨hFlatten, hSize⟩ := mmFields_wire fields
    constructor
    · simp [MMessage.flatten, MMessage.wire, hFlatten, wireHeader, word32]
    · simp [MMessage.wire, MMessage.flattenedSize, hSize]

theorem mmFields_wire : (fields : List (List UInt8 × MMData)) →
    mmFieldsFlatten fields = (mmFieldsWire fields).map some ∧
      (mmFieldsWire fields).length = mmFieldsSize fields
  | [] => ⟨rfl, rfl⟩
  | (name, data) :: fields => by
    obtain ⟨hFlatten, hSize⟩ := mmFields_wire fields
    obtain ⟨hData, hDataSize⟩ := data.flatten_wire
    constructor
    · rw [mmFieldsFlatten, mmFieldsWire, hFlatten]
      split
      · simp [hData, ← hDataSize, lengthPrefixed, word32]
      · simp
    · rw [mmFieldsWire, mmFieldsSize, List.length_append, hSize]
      split
      · simp [hDataSize]
        omega
      · simp

theorem MMData.flatten_wire : (data : MMData) →
    data.flatten = data.wire.map some ∧ data.wire.length = data.flattenedSize
  | .bool items => ⟨rfl, by simp [MMData.wire, MMData.flattenedSize]⟩
  | .prim t items => ⟨rfl, t.codec.encodeAll_length items⟩
  | .point items => ⟨rfl, Point.codec.encodeAll_length items⟩
  | .rect items => ⟨rfl, Rect.codec.encodeAll_length items⟩
  | .pointer items => ⟨rfl, pointerCodec.encodeAll_length items⟩
  | .blob _ items => blobs_wire items
  | .message items => mmMessages_wire items

theorem mmMessages_wire : (items : List (Option MMessage)) →
    mmMessagesFlatten items = (mmMessagesWire items).map some ∧
      (mmMessagesWire items).length = mmMessagesSize items
  | [] => ⟨rfl, rfl⟩
  | none :: items => by
    obtain ⟨hFlatten, hSize⟩ := mmMessages_wire items
    constructor
    · rw [mmMessagesFlatten, mmMessagesWire, hFlatten]
      simp [lengthPrefixed, wireHeader, word32]
    · rw [mmMessagesWire, mmMessagesSize, List.length_append, hSize]
      simp
  | some m :: items => by
    obtain ⟨hFlatten, hSize⟩ := mmMessages_wire items
    obtain ⟨hItem, hItemSize⟩ := m.flatten_wire
    have hLength : m.flatten.length = m.flattenedSize := by
      rw [hItem, List.length_map, hItemSize]
    constructor
    · rw [mmMessagesFlatten, mmMessagesWire, hFlatten, place_of_length hLength, hItem]
      simp [lengthPrefixed, word32, hItemSize]
    · rw [mmMessagesWire, mmMessagesSize, List.length_append, hSize]
      simp [hItemSize]

end

/-! ### Fields that the C++ codec takes -/

/-- `Message::Unflatten` takes the field: its type is not one that is never flattened, and every
string item has at least its NUL. -/
def MMData.Accepted : MMData → Prop
  | .blob tc items => tc.code ≠ B_TAG_TYPE ∧
      (tc.code = B_STRING_TYPE → ∀ item ∈ items, item.getD [] ≠ [])
  | _ => True

instance (data : MMData) : Decidable data.Accepted := by
  cases data <;> unfold MMData.Accepted <;> infer_instance

def MMessage.FieldsAccepted (m : MMessage) : Prop := ∀ f ∈ m.fields, f.2.Accepted

/-- Every field, at every depth, is taken. -/
def MMessage.Accepted : MMessage → Prop := MMessage.Throughout MMessage.FieldsAccepted

theorem BlobTypeCode.class_cases (tc : BlobTypeCode) (h : tc.code ∈ classTypeCodes) :
    tc.code = B_STRING_TYPE ∨ tc.code = B_TAG_TYPE := by
  obtain ⟨code, hVariable, hMessage⟩ := tc
  simp only at h ⊢
  simp only [classTypeCodes, List.mem_cons, List.not_mem_nil, or_false] at h
  rcases h with rfl | rfl | rfl | rfl | rfl | rfl | rfl | rfl | rfl | rfl | rfl | rfl | rfl
  all_goals first
    | exact absurd hVariable (by decide)
    | exact absurd rfl hMessage
    | exact .inl rfl
    | exact .inr rfl

theorem MMData.content_typeCode (data : MMData) : data.content.typeCode = data.typeCode := by
  cases data with
  | blob tc items =>
    simp only [content, blobContent, typeCode]
    split
    · rename_i hString
      rw [DataArray.typeCode, hString]
    · split
      · rfl
      · rename_i hString hRaw
        rw [DataArray.typeCode]
        exact ((tc.class_cases (not_not.mp hRaw)).resolve_left hString).symm
  | _ => rfl

theorem mem_mmMessagesContent {items : List (Option MMessage)} {m : Message}
    (h : some m ∈ mmMessagesContent items) :
    m = .mk 0 [] ∨ ∃ m', some m' ∈ items ∧ m'.content = m := by
  induction items with
  | nil => cases h
  | cons item items ih =>
    cases item with
    | none =>
      rcases List.mem_cons.mp h with hHead | hTail
      · exact .inl (Option.some.inj hHead)
      · rcases ih hTail with hEmpty | ⟨m', hMem, hEq⟩
        · exact .inl hEmpty
        · exact .inr ⟨m', List.mem_cons_of_mem _ hMem, hEq⟩
    | some m' =>
      rcases List.mem_cons.mp h with hHead | hTail
      · exact .inr ⟨m', List.mem_cons_self .., (Option.some.inj hHead).symm⟩
      · rcases ih hTail with hEmpty | ⟨m', hMem, hEq⟩
        · exact .inl hEmpty
        · exact .inr ⟨m', List.mem_cons_of_mem _ hMem, hEq⟩

theorem mem_content_messages {data : MMData} {m : Message} (h : some m ∈ data.content.messages) :
    m = .mk 0 [] ∨ ∃ m', some m' ∈ data.messages ∧ m'.content = m := by
  cases data with
  | message items => exact mem_mmMessagesContent h
  | blob tc items =>
    simp only [MMData.content, blobContent] at h
    split at h
    · cases h
    · split at h <;> cases h
  | _ => cases h

theorem mem_mmFieldsContent {fields : List MMField} {e : CStr × DataArray}
    (h : e ∈ mmFieldsContent fields) :
    ∃ f ∈ fields, f.2.isFlattenable ∧ e = (mmFieldName f, f.2.content) := by
  induction fields with
  | nil => cases h
  | cons f fields ih =>
    obtain ⟨name, data⟩ := f
    rw [mmFieldsContent] at h
    split at h
    · rcases List.mem_cons.mp h with rfl | hTail
      · exact ⟨_, List.mem_cons_self .., ‹_›, rfl⟩
      · obtain ⟨f, hMem, hf⟩ := ih hTail
        exact ⟨f, List.mem_cons_of_mem _ hMem, hf⟩
    · obtain ⟨f, hMem, hf⟩ := ih h
      exact ⟨f, List.mem_cons_of_mem _ hMem, hf⟩

theorem mmFieldsContent_names (fields : List MMField) :
    ((mmFieldsContent fields).map Prod.fst).Sublist (fields.map mmFieldName) := by
  induction fields with
  | nil => exact .slnil
  | cons f fields ih =>
    obtain ⟨name, data⟩ := f
    rw [mmFieldsContent]
    split
    · exact ih.cons_cons _
    · exact ih.cons _

theorem Message.wellFormed_empty (what : UInt32) : Message.WellFormed (.mk what []) :=
  Message.throughout_mk (by simp [Message.DistinctNames]) (by simp)

/-- The content of an `MMessage` with distinct names is a Message with distinct names. -/
theorem MMessage.content_wellFormed {m : MMessage} (h : m.Throughout MMessage.NamesDistinct) :
    m.content.WellFormed := by
  induction h with
  | intro m hNames _ ih =>
    obtain ⟨what, fields⟩ := m
    rw [MMessage.content]
    refine Message.throughout_mk ?_ fun e hMem m' hItem => ?_
    · exact hNames.nodup.sublist (mmFieldsContent_names fields)
    · obtain ⟨f, hField, -, rfl⟩ := mem_mmFieldsContent hMem
      rcases mem_content_messages hItem with rfl | ⟨m', hm', rfl⟩
      · exact Message.wellFormed_empty 0
      · exact ih m' ⟨f, hField, hm'⟩

theorem mmFieldsContent_length (fields : List MMField) :
    (mmFieldsContent fields).length = fields.countP fun f => f.2.isFlattenable := by
  induction fields with
  | nil => rfl
  | cons f fields ih =>
    obtain ⟨name, data⟩ := f
    rw [mmFieldsContent, List.countP_cons]
    split
    · simp [*]
    · simp [*]

theorem wireHeader_spelled (what : UInt32) : Message.Spelled (.mk what []) (wireHeader what 0) :=
  ⟨[], (List.append_nil _).symm, rfl⟩

theorem mmMessages_spelled {items : List (Option MMessage)}
    (h : ∀ m, some m ∈ items → m.content.Spelled m.wire) :
    messagesSpelled (mmMessagesContent items) (mmMessagesWire items) := by
  induction items with
  | nil => rfl
  | cons item items ih =>
    have hTail := ih fun m hMem => h m (List.mem_cons_of_mem _ hMem)
    cases item with
    | none => exact ⟨_, _, rfl, wireHeader_spelled 0, hTail⟩
    | some m => exact ⟨_, _, rfl, h m (List.mem_cons_self ..), hTail⟩

theorem MMData.wire_spelled {data : MMData} (hFlat : data.isFlattenable) (hAccepted : data.Accepted)
    (hItems : ∀ m, some m ∈ data.messages → m.content.Spelled m.wire) :
    data.content.Spelled data.wire := by
  cases data with
  | blob tc items =>
    obtain ⟨hTag, hString⟩ := hAccepted
    simp only [content, blobContent, wire]
    split
    · rename_i hCode
      rw [DataArray.Spelled]
      refine ⟨blobBytes items, ?_, rfl⟩
      rw [blobBytes, List.forall₂_map_left_iff, List.forall₂_map_right_iff, List.forall₂_same]
      exact fun item hMem => ⟨hString hCode item hMem, rfl⟩
    · rename_i hCode
      split
      · rw [DataArray.Spelled]
        exact ⟨blobBytes items, by simp [blobBytes], rfl⟩
      · rename_i hRaw
        exact absurd ((tc.class_cases (not_not.mp hRaw)).resolve_left hCode) hTag
  | message items =>
    rw [content, DataArray.Spelled]
    exact mmMessages_spelled hItems
  | pointer items => cases hFlat
  | _ =>
    rw [content, DataArray.Spelled]
    try rfl

theorem mmFields_spelled {fields : List MMField}
    (hNames : ∀ f ∈ fields, f.1 = (mmFieldName f).flatten)
    (h : ∀ f ∈ fields, f.2.isFlattenable → f.2.content.Spelled f.2.wire) :
    entriesSpelled (mmFieldsContent fields) (mmFieldsWire fields) := by
  induction fields with
  | nil => rfl
  | cons f fields ih =>
    obtain ⟨name, data⟩ := f
    have hTail := ih (fun f hMem => hNames f (List.mem_cons_of_mem _ hMem)) fun f hMem =>
      h f (List.mem_cons_of_mem _ hMem)
    have hName : name = (CStr.ofBytes name).flatten := hNames _ (List.mem_cons_self ..)
    rw [mmFieldsContent, mmFieldsWire]
    split
    · rename_i hFlat
      refine ⟨data.wire, mmFieldsWire fields, ?_, h _ (List.mem_cons_self ..) hFlat, hTail⟩
      rw [data.content_typeCode, wireEntry, ← hName]
    · exact hTail

/-- What the C codec writes for accepted fields spells the content. -/
theorem MMessage.wire_spelled {m : MMessage} (hNames : m.Throughout MMessage.NamesDistinct)
    (hAccepted : m.Accepted) : m.content.Spelled m.wire := by
  induction hNames with
  | intro m hNames _ ih =>
    obtain ⟨what, fields⟩ := m
    have hData : ∀ f ∈ fields, f.2.isFlattenable → f.2.content.Spelled f.2.wire := by
      intro f hMem hFlat
      refine f.2.wire_spelled hFlat (hAccepted.here f hMem) fun m hItem => ?_
      exact ih m ⟨f, hMem, hItem⟩ (hAccepted.item ⟨f, hMem, hItem⟩)
    rw [MMessage.content, MMessage.wire]
    exact ⟨mmFieldsWire fields, by rw [mmFieldsContent_length],
      mmFields_spelled hNames.terminated hData⟩

/-! ### Fields that the C++ codec rejects -/

/-- The parse ends with `B_ERROR` or in `MCRASH`. -/
def Rejects {α : Type} (x : Parse α) : Prop :=
  Post x (fun _ => False) fun stop => stop = .bError ∨ stop = .crash

theorem Rejects.bind {α β : Type} {x : Parse α} {f : α → Parse β} (h : Rejects x) :
    Rejects (x >>= f) :=
  Post.bind h fun _ hFalse => hFalse.elim

theorem Rejects.exists_error {α : Type} {x : Parse α} (h : Rejects x) :
    ∃ stop, x = .error stop ∧ (stop = .bError ∨ stop = .crash) := by
  cases x with
  | ok a => exact h.elim
  | error stop => exact ⟨stop, rfl, h⟩

/-- `parse` rejects the wire form of `m`. -/
def RejectsWire (parse : Input → Parse Message) (fuel : Nat) (m : MMessage) : Prop :=
  ∀ inp : Input, Holds inp.received inp.base m.wire → inp.numBytes = m.wire.length →
    inp.numBytes < 2 ^ 32 → m.wire.length ≤ fuel → Rejects (parse inp)

section

variable {inp : Input} (hNum : inp.numBytes < 2 ^ 32)
include hNum

theorem stringItems_rejects {raws : List (List UInt8)} (hEmpty : [] ∈ raws) (off : Nat)
    (h : Holds inp.received (inp.base + off) (raws.flatMap lengthPrefixed))
    (hOff : off + (raws.flatMap lengthPrefixed).length ≤ inp.numBytes) :
    Rejects (stringItems .exact inp raws.length off) := by
  induction raws generalizing off with
  | nil => cases hEmpty
  | cons raw raws ih =>
    simp only [List.flatMap_cons, List.length_append, lengthPrefixed_length] at hOff
    simp only [List.flatMap_cons, holds_append, lengthPrefixed_length] at h
    have hItem := h.1
    rw [lengthPrefixed, holds_append, leBytes_length] at hItem
    rw [List.length_cons, stringItems, readUint32_holds hItem.1 (by omega) (by omega) hNum, ok_bind]
    simp only
    by_cases hRaw : raw = []
    · subst hRaw
      rw [if_pos List.length_nil]
      exact .inl rfl
    · have hPos : 0 < raw.length := List.length_pos_of_ne_nil hRaw
      have hTail := ih ((List.mem_cons.mp hEmpty).resolve_left (Ne.symm hRaw)) (off + 4 + raw.length)
        (by simpa only [Nat.add_assoc] using h.2) (by omega)
      rw [if_neg (by omega), add_exact (by omega), ok_bind, if_neg (by omega),
        unflatten_cstr_holds (by rw [← Nat.add_assoc]; exact hItem.2), ok_bind]
      exact hTail.bind

variable {parse : Input → Parse Message} {fuel : Nat}
  (hReads : ∀ m : Message, m.WellFormed → Reads parse m fuel)
include hReads

theorem messageItems_rejects {items : List (Option MMessage)}
    (hNames : ∀ m, some m ∈ items → m.Throughout MMessage.NamesDistinct)
    (hRejects : ∀ m, some m ∈ items → ¬m.Accepted → RejectsWire parse fuel m)
    (hBad : ∃ m, some m ∈ items ∧ ¬m.Accepted) (k off : Nat)
    (hFuel : (mmMessagesWire items).length ≤ fuel) (hk : (mmMessagesWire items).length ≤ k)
    (h : Holds inp.received (inp.base + off) (mmMessagesWire items))
    (hOff : off + (mmMessagesWire items).length ≤ inp.numBytes) :
    Rejects (messageItems .exact parse inp k off) := by
  obtain ⟨bad, hMem, hBad⟩ := hBad
  induction items generalizing k off with
  | nil => cases hMem
  | cons item items ih =>
    -- an item that is read is followed by the rest of the items
    have hStep : ∀ (data : List UInt8) (m : Message),
        mmMessagesWire (item :: items) = lengthPrefixed data ++ mmMessagesWire items →
        m.WellFormed → m.Spelled data → some bad ∈ items →
        Rejects (messageItems .exact parse inp k off) := by
      intro data m hWire hWell hSpelled hRest
      rw [hWire, holds_append, lengthPrefixed_length] at h
      rw [hWire, List.length_append, lengthPrefixed_length] at hOff hFuel hk
      obtain ⟨k, rfl⟩ : ∃ j, k = j + 1 := ⟨k - 1, by omega⟩
      have hItem := messageItem_holds hNum (hReads m hWell) hSpelled (by omega) h.1 (by omega)
      rw [messageItems, if_pos (by omega), hItem, ok_bind]
      have hTail := ih (fun m hMem => hNames m (List.mem_cons_of_mem _ hMem))
        (fun m hMem => hRejects m (List.mem_cons_of_mem _ hMem)) k (off + 4 + data.length) (by omega)
        (by omega) (by simpa only [Nat.add_assoc] using h.2) (by omega) hRest
      exact hTail.bind
    cases item with
    | none =>
      exact hStep _ _ rfl (Message.wellFormed_empty 0) (wireHeader_spelled 0)
        ((List.mem_cons.mp hMem).resolve_left (by simp))
    | some m =>
      by_cases hAccepted : m.Accepted
      · have hm := hNames m (List.mem_cons_self ..)
        refine hStep _ _ rfl (MMessage.content_wellFormed hm) (m.wire_spelled hm hAccepted) ?_
        refine (List.mem_cons.mp hMem).resolve_left fun hEq => hBad ?_
        rwa [Option.some.inj hEq]
      · rw [mmMessagesWire, holds_append] at h
        rw [mmMessagesWire, List.length_append, lengthPrefixed_length] at hOff hFuel hk
        obtain ⟨k, rfl⟩ : ∃ j, k = j + 1 := ⟨k - 1, by omega⟩
        have hItem := h.1
        rw [lengthPrefixed, holds_append, leBytes_length] at hItem
        have hParse : Rejects (parse (inp.sub (off + 4) m.wire.length)) := by
          refine hRejects m (List.mem_cons_self ..) hAccepted _ ?_ rfl ?_ (by omega)
          · rw [Input.sub_received, Input.sub_base, ← Nat.add_assoc]
            exact hItem.2
          · rw [Input.sub_numBytes]
            omega
        rw [messageItems, if_pos (by omega), messageItem,
          readItemSize_holds hItem.1 (by omega) hNum, ok_bind]
        exact hParse.bind.bind

/-- A field that is not accepted, or that holds a Message that is not, is rejected. -/
theorem MMData.unflatten_rejects {data : MMData}
    (hNames : ∀ m, some m ∈ data.messages → m.Throughout MMessage.NamesDistinct)
    (hRejects : ∀ m, some m ∈ data.messages → ¬m.Accepted → RejectsWire parse fuel m)
    (hBad : ¬data.Accepted ∨ ∃ m, some m ∈ data.messages ∧ ¬m.Accepted)
    (hFuel : data.wire.length ≤ fuel) (h : Holds inp.received inp.base data.wire)
    (hSize : inp.numBytes = data.wire.length) :
    Rejects ((arrayClass data.typeCode).unflatten .exact parse fuel inp) := by
  cases data with
  | message items =>
    have hItems := hBad.resolve_left fun hNot => hNot trivial
    rw [wire] at hFuel h hSize
    have hClass : arrayClass (typeCode (.message items)) = .message := rfl
    rw [hClass]
    have hOff : 0 + (mmMessagesWire items).length ≤ inp.numBytes := by omega
    exact (messageItems_rejects hNum hReads hNames hRejects hItems fuel 0 hFuel hFuel h hOff).bind
  | blob tc items =>
    have hNot := hBad.resolve_right (by simp [messages])
    by_cases hTag : tc.code = B_TAG_TYPE
    · have hClass : arrayClass (typeCode (.blob tc items)) = .tag := by
        rw [typeCode, hTag]
        rfl
      rw [hClass]
      exact .inr rfl
    · have hString : tc.code = B_STRING_TYPE ∧ [] ∈ blobBytes items := by
        by_contra hNone
        refine hNot ⟨hTag, fun hCode item hMem hNil => hNone ⟨hCode, ?_⟩⟩
        exact List.mem_map.mpr ⟨item, hMem, hNil⟩
      have hClass : arrayClass (typeCode (.blob tc items)) = .string := by
        rw [typeCode, hString.1]
        rfl
      have hCount := length_le_flatMap (blobBytes items)
      rw [wire, countedItems, holds_append, leBytes_length] at h
      rw [wire, countedItems, List.length_append, leBytes_length] at hSize
      have hStart : Holds inp.received (inp.base + 0) (leBytes 4 (blobBytes items).length) := h.1
      rw [hClass, ArrayClass.unflatten, stringsUnflatten,
        readUint32_holds hStart (by omega) (by omega) hNum, ok_bind]
      exact (stringItems_rejects hNum hString.2 4 h.2 (by omega)).bind
  | _ =>
    rcases hBad with hNot | ⟨m, hMem, -⟩
    · exact absurd trivial hNot
    · cases hMem

theorem unflattenEntries_rejects {fields : List MMField}
    (hTerminated : ∀ f ∈ fields, f.1 = (mmFieldName f).flatten)
    (hNames : ∀ f ∈ fields, ∀ m, some m ∈ f.2.messages → m.Throughout MMessage.NamesDistinct)
    (hRejects : ∀ f ∈ fields, ∀ m, some m ∈ f.2.messages → ¬m.Accepted → RejectsWire parse fuel m)
    (hBad : ∃ f ∈ fields, ¬f.2.Accepted ∨ ∃ m, some m ∈ f.2.messages ∧ ¬m.Accepted)
    (before : List (CStr × DataArray)) (off : Nat)
    (hDistinct : (before.map Prod.fst ++ fields.map mmFieldName).Nodup)
    (hFuel : (mmFieldsWire fields).length ≤ fuel)
    (h : Holds inp.received (inp.base + off) (mmFieldsWire fields))
    (hOff : off + (mmFieldsWire fields).length ≤ inp.numBytes) :
    Rejects (unflattenEntries .exact parse fuel inp (fields.countP fun f => f.2.isFlattenable) before
      off) := by
  obtain ⟨bad, hMem, hBad⟩ := hBad
  induction fields generalizing before off with
  | nil => cases hMem
  | cons f fields ih =>
    obtain ⟨name, data⟩ := f
    have hTail := ih (fun f hMem => hTerminated f (List.mem_cons_of_mem _ hMem))
      (fun f hMem => hNames f (List.mem_cons_of_mem _ hMem))
      (fun f hMem => hRejects f (List.mem_cons_of_mem _ hMem))
    by_cases hFlat : data.isFlattenable
    · have hName : name = (CStr.ofBytes name).flatten := hTerminated _ (List.mem_cons_self ..)
      have hEntry : mmFieldsWire ((name, data) :: fields) =
          wireEntry (CStr.ofBytes name) data.typeCode data.wire ++ mmFieldsWire fields := by
        rw [mmFieldsWire, if_pos hFlat, wireEntry, ← hName]
      rw [hEntry, holds_append] at h
      rw [hEntry, List.length_append] at hFuel hOff
      have hWire := wireEntry_length (CStr.ofBytes name) data.typeCode data.wire
      have hNew : CStr.ofBytes name ∉ before.map Prod.fst := by
        rw [List.map_cons, List.nodup_append] at hDistinct
        exact fun hOld => hDistinct.2.2 _ hOld _ (List.mem_cons_self ..) rfl
      have hData := wireEntry_data h.1
      have hCount : List.countP (fun f : MMField => f.2.isFlattenable) ((name, data) :: fields) =
          fields.countP (fun f => f.2.isFlattenable) + 1 := by
        rw [List.countP_cons, if_pos hFlat]
      rw [hCount, unflattenEntries, unflattenEntry_eq hNum before off hNew h.1 (by omega)]
      by_cases hHead : ¬data.Accepted ∨ ∃ m, some m ∈ data.messages ∧ ¬m.Accepted
      · refine (MMData.unflatten_rejects ?_ hReads (hNames _ (List.mem_cons_self ..))
          (hRejects _ (List.mem_cons_self ..)) hHead (show data.wire.length ≤ fuel by omega) ?_
          rfl).bind.bind
        · rw [Input.sub_numBytes]
          omega
        · simpa only [Input.sub_received, Input.sub_base, Nat.add_assoc] using hData
      · have hGood : data.Accepted ∧ ∀ m, some m ∈ data.messages → m.Accepted := by
          rw [not_or, not_not] at hHead
          exact ⟨hHead.1, fun m hItem => by_contra fun hm => hHead.2 ⟨m, hItem, hm⟩⟩
        have hSpelled : data.content.Spelled data.wire := data.wire_spelled hFlat hGood.1
          fun m hItem => m.wire_spelled (hNames _ (List.mem_cons_self ..) m hItem) (hGood.2 m hItem)
        have hArray : (arrayClass data.typeCode).unflatten .exact parse fuel
            (inp.sub (off + 4 + (CStr.ofBytes name).flattenedSize + 4 + 4) data.wire.length) =
              .ok data.content := by
          rw [← data.content_typeCode, arrayClass_typeCode]
          refine ArrayClass.unflatten_holds (by rw [Input.sub_numBytes]; omega) hSpelled
            (fun m hItem => ?_) (by omega) ?_ rfl
          · rcases mem_content_messages hItem with rfl | ⟨m', hm', rfl⟩
            · exact hReads _ (Message.wellFormed_empty 0)
            · exact hReads _ (MMessage.content_wellFormed (hNames _ (List.mem_cons_self ..) m' hm'))
          · simpa only [Input.sub_received, Input.sub_base, Nat.add_assoc] using hData
        have hBadTail : bad ∈ fields := by
          refine (List.mem_cons.mp hMem).resolve_left ?_
          rintro rfl
          exact hHead hBad
        rw [hArray, ok_bind, ok_bind]
        refine hTail (before ++ [(CStr.ofBytes name, data.content)]) _ ?_ (by omega)
          (by simpa only [Nat.add_assoc] using h.2) (by omega) hBadTail
        simpa [mmFieldName] using hDistinct
    · have hSkip : mmFieldsWire ((name, data) :: fields) = mmFieldsWire fields := by
        rw [mmFieldsWire, if_neg hFlat, List.nil_append]
      rw [hSkip] at h hFuel hOff
      rw [List.countP_cons, if_neg hFlat, Nat.add_zero]
      refine hTail before off ?_ hFuel h hOff ?_
      · refine hDistinct.sublist (List.Sublist.append_left ?_ _)
        exact (List.sublist_cons_self _ _)
      · refine (List.mem_cons.mp hMem).resolve_left ?_
        rintro rfl
        cases data with
        | pointer items =>
          rcases hBad with hNot | ⟨m, hItem, -⟩
          · exact hNot trivial
          · cases hItem
        | _ => exact hFlat rfl

end

/-! ### When the C++ codec makes the same Message of it -/

theorem countP_le_wire (fields : List MMField) :
    fields.countP (fun f => f.2.isFlattenable) ≤ (mmFieldsWire fields).length := by
  induction fields with
  | nil => exact Nat.zero_le _
  | cons f fields ih =>
    obtain ⟨name, data⟩ := f
    rw [mmFieldsWire, List.countP_cons, List.length_append]
    split
    · simp only [List.length_append, leBytes_length]
      omega
    · omega

theorem MMessage.unflatten_rejects {m : MMessage} (hNames : m.Throughout MMessage.NamesDistinct)
    (hBad : ¬m.Accepted) (fuel : Nat) : RejectsWire (Message.unflatten .exact fuel) fuel m := by
  induction hNames generalizing fuel with
  | intro m hHere hItems ih =>
    obtain ⟨what, fields⟩ := m
    intro inp hHolds hSize hNum hFuel
    have hNot : ∃ f ∈ fields, ¬f.2.Accepted ∨ ∃ m, some m ∈ f.2.messages ∧ ¬m.Accepted := by
      by_contra hNone
      refine hBad (MMessage.throughout_mk (fun f hMem => ?_) fun f hMem m hItem => ?_)
      · exact by_contra fun hf => hNone ⟨f, hMem, .inl hf⟩
      · exact by_contra fun hm => hNone ⟨f, hMem, .inr ⟨m, hItem, hm⟩⟩
    rw [MMessage.wire, holds_append, wireHeader_length] at hHolds
    rw [MMessage.wire, List.length_append, wireHeader_length] at hFuel hSize
    obtain ⟨fuel, rfl⟩ : ∃ k, fuel = k + 1 := ⟨fuel - 1, by omega⟩
    have hCount := countP_le_wire fields
    have hEntries : Rejects (unflattenEntries .exact (Message.unflatten .exact fuel) fuel inp
        (fields.countP fun f => f.2.isFlattenable) [] 12) := by
      refine unflattenEntries_rejects hNum (fun m hWell => Message.unflatten_spelled hWell fuel)
        (show ∀ f ∈ fields, f.1 = (mmFieldName f).flatten from hHere.terminated)
        (fun f hMem m hItem => hItems m ⟨f, hMem, hItem⟩) ?_ hNot [] 12 ?_ (by omega)
        hHolds.2 (by omega)
      · exact fun f hMem m hItem hm => ih m ⟨f, hMem, hItem⟩ hm fuel
      · exact hHere.nodup
    rw [Message.unflatten, readHeader_holds hNum hHolds.1 (hCount.trans_lt (by omega))
      (by omega), ok_bind]
    exact hEntries.bind

/-- The C++ codec makes the content of a built `MMessage` of what the C codec wrote exactly if every
field is accepted; `enough` is the length of the longest run. -/
theorem MMessage.toCpp_iff {m : MMessage} (hBuilt : m.Built) (hSize : m.flattenedSize < 2 ^ 32) :
    (∃ bytes : List UInt8, m.flatten = bytes.map some ∧
      ∃ enough, ∀ fuel ≥ enough, Message.receive fuel bytes = .ok m.content) ↔ m.Accepted := by
  have hNames := hBuilt.namesDistinct
  obtain ⟨hFlatten, hLength⟩ := m.flatten_wire
  rw [← hLength] at hSize
  constructor
  · rintro ⟨bytes, hBytes, enough, hReceive⟩
    by_contra hBad
    have hWire : bytes = m.wire := by
      rw [hFlatten] at hBytes
      exact (List.map_injective_iff.mpr (Option.some_injective _) hBytes).symm
    subst hWire
    obtain ⟨stop, hExact, hStop⟩ := (m.unflatten_rejects hNames hBad (max enough m.wire.length)
      ⟨m.wire, 0, m.wire.length⟩ (.self _) rfl hSize (Nat.le_max_right ..)).exists_error
    have hSame := Message.unflatten_uint32 (fun hWrapped => by
      rw [hExact] at hWrapped
      cases hWrapped
      rcases hStop with hStop | hStop <;> cases hStop)
    have hReceive := hReceive _ (Nat.le_max_left enough m.wire.length)
    rw [Message.receive, hSame, hExact] at hReceive
    cases hReceive
  · intro hAccepted
    refine ⟨m.wire, hFlatten, m.wire.length, fun fuel hFuel => ?_⟩
    exact Message.receive_spelled (MMessage.content_wellFormed hNames)
      (m.wire_spelled hNames hAccepted) hSize hFuel

end BeShare.Muscle
