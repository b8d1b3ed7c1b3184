import BeShare.MiniMessage.FromCpp

/-! The C codec and the C++ codec against each other, in both directions. -/

namespace BeShare.Muscle

open BeShare.Lib

/-- `Message::Unflatten` makes the content of `m` of what `MMFlattenMessage` writes. -/
def CToCpp (m : MMessage) : Prop :=
  ∃ bytes : List UInt8, m.flatten = bytes.map some ∧
    ∃ enough, ∀ fuel ≥ enough, Message.receive fuel bytes = .ok m.content

/-- `MMUnflattenMessage` makes the content of `m` of what `Message::Flatten` writes. -/
def CppToC (m : Message) : Prop :=
  ∃ bytes : List UInt8, m.flatten = bytes.map some ∧
    ∃ enough, ∀ fuel ≥ enough, ∃ mm, MMessage.receive fuel bytes = .ok mm ∧ mm.content = m

/-- Each codec takes what the other one writes exactly if, at every depth: on the way to C++, no
string item is `NULL` or without its NUL and no field has the type code of a tag; on the way to C,
no reference is `NULL` and every field has an item and fits into the storage of a field. -/
theorem codecs_agree_iff (mm : MMessage) (hBuilt : mm.Built) (hFits : mm.flattenedSize < 2 ^ 32)
    (m : Message) (hWell : m.WellFormed) (hFlat : m.Flattenable) (hSize : m.flattenedSize < 2 ^ 32) :
    (CToCpp mm ↔ mm.Accepted) ∧ (CppToC m ↔ m.NoNullRefs ∧ m.Storable) := by
  constructor
  · exact MMessage.toCpp_iff hBuilt hFits
  · exact Message.fromCpp_iff hWell hFlat hSize

/-- The name `n`. -/
def nameN : CStr := CStr.empty.cons 110 (by decide)

/-- An `MMessage` with one field `n` of items that need not be set. -/
def oneFieldMMessage (data : MMData) : MMessage := .mk 7 [(nameN.flatten, data)]

theorem oneField_built {data : MMData} (hItems : data.numItems ≠ 0)
    (hFits : storageFits nameN.flattenedSize data.numItems data.itemSize)
    (hMessages : data.messages = []) : (oneFieldMMessage data).Built := by
  have hPut : (MMessage.mk 7 []).put nameN data = oneFieldMMessage data := by
    rw [MMessage.put, if_neg hItems]
    rfl
  rw [← hPut]
  exact .put nameN data (.alloc 7) hFits (by simp [hMessages])

theorem codecs_agree_data :
    CToCpp (oneFieldMMessage (.blob stringBlob [some [104, 105, 0]])) ∧
      CppToC (.mk 7 [(nameN, .prim .int32 [1#32, 2#32])]) := by
  have hAgree := codecs_agree_iff (oneFieldMMessage (.blob stringBlob [some [104, 105, 0]]))
    (oneField_built (by decide) (by decide) rfl) (by decide)
    (.mk 7 [(nameN, .prim .int32 [1#32, 2#32])])
    (Message.throughout_mk (by simp [Message.DistinctNames]) (by simp [DataArray.messages]))
    (Message.throughout_mk (by simp [Message.AllFlattenable, DataArray.isFlattenable])
      (by simp [DataArray.messages])) (by decide)
  refine ⟨hAgree.1.mpr ?_, hAgree.2.mpr ⟨?_, ?_⟩⟩
  · exact MMessage.throughout_mk (by simp [MMessage.FieldsAccepted, MMessage.fields, MMData.Accepted,
      stringBlob, B_STRING_TYPE, B_TAG_TYPE]) (by simp [MMData.messages])
  · exact Message.throughout_mk (by simp [Message.NoNull, DataArray.NoNull])
      (by simp [DataArray.messages])
  · refine Message.throughout_mk (fun e hMem => ?_) (by simp [DataArray.messages])
    rw [List.mem_singleton.mp hMem]
    decide

/-- A string item left `NULL` is rejected by the C++ codec, and a field without items by the C codec. -/
theorem codecs_disagree :
    (oneFieldMMessage (.blob stringBlob [none])).Built ∧
      (oneFieldMMessage (.blob stringBlob [none])).flattenedSize = 34 ∧
      ¬CToCpp (oneFieldMMessage (.blob stringBlob [none])) ∧
      Message.WellFormed (.mk 7 [(nameN, .prim .int32 [])]) ∧
      Message.Flattenable (.mk 7 [(nameN, .prim .int32 [])]) ∧
      Message.flattenedSize (.mk 7 [(nameN, .prim .int32 [])]) = 26 ∧
      ¬CppToC (.mk 7 [(nameN, .prim .int32 [])]) := by
  have hBuilt : (oneFieldMMessage (.blob stringBlob [none])).Built :=
    oneField_built (by decide) (by decide) rfl
  have hWell : Message.WellFormed (.mk 7 [(nameN, .prim .int32 [])]) :=
    Message.throughout_mk (by simp [Message.DistinctNames]) (by simp [DataArray.messages])
  have hFlat : Message.Flattenable (.mk 7 [(nameN, .prim .int32 [])]) :=
    Message.throughout_mk (by simp [Message.AllFlattenable, DataArray.isFlattenable])
      (by simp [DataArray.messages])
  refine ⟨hBuilt, by decide, fun hTakes => ?_, hWell, hFlat, by decide, fun hTakes => ?_⟩
  · have hAccepted := ((MMessage.toCpp_iff hBuilt (by decide)).mp hTakes).here _ (List.mem_cons_self ..)
    exact hAccepted.2 rfl none (List.mem_cons_self ..) rfl
  · have hStorable := ((Message.fromCpp_iff hWell hFlat (by decide)).mp hTakes).2.here _
      (List.mem_cons_self ..)
    exact hStorable.1 rfl

end BeShare.Muscle
