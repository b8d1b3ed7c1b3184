import BeShare.Message.Types

/-!
`Message::FlattenedSize` and `Message::Flatten`. The sizes are exact numbers: the source's `uint32`
sums are the same as long as the flattened size stays below `2 ^ 32`. What is written is a list of
cells, because the source can leave bytes of its output buffer untouched.
-/

namespace BeShare.Muscle

open BeShare.Lib

abbrev CURRENT_PROTOCOL_VERSION : Nat := 1347235888
abbrev OLDEST_SUPPORTED_PROTOCOL_VERSION : Nat := 1347235888

/-- The output buffer: `none` where the writer moves on without writing. -/
abbrev Cells := List (Option UInt8)

def boolByte (b : Bool) : UInt8 := if b then 1 else 0

/-- A little-endian `uint32`, as `WriteData` puts it into the buffer. -/
def word32 (v : Nat) : Cells := (leBytes 4 v).map some

/-- What an object leaves in the `size` bytes set aside for it: the writer goes on at `size` bytes
past the start, whatever the object wrote. -/
def place (size : Nat) (cells : Cells) : Cells :=
  cells.take size ++ List.replicate (size - cells.length) none

@[simp] theorem word32_length (v : Nat) : (word32 v).length = 4 := by simp [word32]

@[simp] theorem place_length (size : Nat) (cells : Cells) : (place size cells).length = size := by
  simp only [place, List.length_append, List.length_take, List.length_replicate]
  omega

theorem place_of_length {size : Nat} {cells : Cells} (h : cells.length = size) :
    place size cells = cells := by
  subst h
  simp [place]

/-- `StringDataArray::FlattenedSize`. -/
def stringsSize (items : List CStr) : Nat :=
  4 + (items.map fun s => 4 + s.flattenedSize).sum

/-- `StringDataArray::Flatten`. -/
def stringsFlatten (items : List CStr) : Cells :=
  word32 items.length ++ items.flatMap fun s => word32 s.flattenedSize ++ s.flatten.map some

/-- `FlatCountableRefDataArray::GetItemSize` for a byte buffer. -/
def bufferItemSize : Option (List UInt8) → Nat
  | none => 0
  | some bytes => bytes.length

/-- What `FlatCountableRefDataArray::Flatten` writes for one byte buffer. -/
def bufferItemFlatten : Option (List UInt8) → Cells
  | none => []
  | some bytes => word32 bytes.length ++ bytes.map some

/-- `ByteBufferDataArray::FlattenedSize`. -/
def buffersSize (items : List (Option (List UInt8))) : Nat :=
  4 + (items.map fun item => 4 + bufferItemSize item).sum

/-- `ByteBufferDataArray::Flatten`. -/
def buffersFlatten (items : List (Option (List UInt8))) : Cells :=
  word32 items.length ++ items.flatMap bufferItemFlatten

mutual

/-- `Message::FlattenedSize`. -/
def Message.flattenedSize : Message → Nat
  | .mk _ entries => 12 + entriesSize entries

/-- The loop of `Message::FlattenedSize` over the entries. -/
def entriesSize : List (CStr × DataArray) → Nat
  | [] => 0
  | (name, array) :: entries =>
    (if array.isFlattenable then 4 + name.flattenedSize + 4 + 4 + array.flattenedSize else 0)
      + entriesSize entries

/-- `FlattenedSize` of each data-array class. -/
def DataArray.flattenedSize : DataArray → Nat
  | .bool items => items.length
  | .prim t items => items.length * t.size
  | .point items => items.length * Point.codec.size
  | .rect items => items.length * Rect.codec.size
  | .string items => stringsSize items
  | .buffer _ items => buffersSize items
  | .message items => messagesSize items
  | .pointer items => items.length * pointerCodec.size
  | .tag _ => 0

/-- `MessageDataArray::FlattenedSize`: four bytes for each item's length, and each item's
`GetItemSize`. -/
def messagesSize : List (Option Message) → Nat
  | [] => 0
  | none :: items => 4 + 0 + messagesSize items
  | some m :: items => 4 + m.flattenedSize + messagesSize items

end

mutual

/-- `Message::Flatten`. -/
def Message.flatten : Message → Cells
  | .mk what entries =>
    word32 CURRENT_PROTOCOL_VERSION ++ word32 what.toNat ++
      word32 (entries.countP fun e => e.2.isFlattenable) ++ entriesFlatten entries

/-- The loop of `Message::Flatten` over the entries. -/
def entriesFlatten : List (CStr × DataArray) → Cells
  | [] => []
  | (name, array) :: entries =>
    (if array.isFlattenable then
        word32 name.flattenedSize ++ name.flatten.map some ++ word32 array.typeCode.toNat ++
          word32 array.flattenedSize ++ place array.flattenedSize array.flatten
      else [])
      ++ entriesFlatten entries

/-- `Flatten` of each data-array class. -/
def DataArray.flatten : DataArray → Cells
  | .bool items => (items.map boolByte).map some
  | .prim t items => (t.codec.encodeAll items).map some
  | .point items => (Point.codec.encodeAll items).map some
  | .rect items => (Rect.codec.encodeAll items).map some
  | .string items => stringsFlatten items
  | .buffer _ items => buffersFlatten items
  | .message items => messagesFlatten items
  | .pointer items => (pointerCodec.encodeAll items).map some
  | .tag _ => []

/-- `MessageDataArray::Flatten`: no item count, and nothing at all for a `NULL` reference. -/
def messagesFlatten : List (Option Message) → Cells
  | [] => []
  | none :: items => messagesFlatten items
  | some m :: items =>
    word32 m.flattenedSize ++ place m.flattenedSize m.flatten ++ messagesFlatten items

end

theorem exists_map_some {α : Type} {items : List (Option α)} (h : none ∉ items) :
    ∃ xs, items = List.map some xs := by
  induction items with
  | nil => exact ⟨[], rfl⟩
  | cons item items ih =>
    simp only [List.mem_cons, not_or] at h
    obtain ⟨xs, rfl⟩ := ih h.2
    cases item with
    | none => exact absurd rfl h.1
    | some x => exact ⟨x :: xs, rfl⟩

theorem stringsFlatten_length (items : List CStr) :
    (stringsFlatten items).length = stringsSize items := by
  simp [stringsFlatten, stringsSize, List.length_flatMap]

theorem bufferItemFlatten_length {item : Option (List UInt8)} (h : item ≠ none) :
    (bufferItemFlatten item).length = 4 + bufferItemSize item := by
  cases item with
  | none => exact absurd rfl h
  | some bytes => simp [bufferItemFlatten, bufferItemSize]

theorem buffersFlatten_length {items : List (Option (List UInt8))} (h : none ∉ items) :
    (buffersFlatten items).length = buffersSize items := by
  simp only [buffersFlatten, buffersSize, List.length_append, word32_length, List.length_flatMap]
  congr 2
  refine List.map_congr_left fun item hMem => bufferItemFlatten_length ?_
  rintro rfl
  exact h hMem

theorem messagesFlatten_length {items : List (Option Message)} (h : none ∉ items) :
    (messagesFlatten items).length = messagesSize items := by
  induction items with
  | nil => rfl
  | cons item items ih =>
    simp only [List.mem_cons, not_or] at h
    cases item with
    | none => exact absurd rfl h.1
    | some m =>
      simp only [messagesFlatten, messagesSize, List.length_append, word32_length, place_length,
        ih h.2]

/-- A flattenable field without `NULL` items fills its space exactly. -/
theorem DataArray.flatten_length {array : DataArray} (h : array.NoNull) :
    array.isFlattenable → array.flatten.length = array.flattenedSize := by
  intro hFlat
  cases array with
  | bool items => simp [flatten, flattenedSize]
  | prim t items => simp [flatten, flattenedSize, PrimType.codec, wordCodec]
  | point items => simp [flatten, flattenedSize]
  | rect items => simp [flatten, flattenedSize]
  | string items => exact stringsFlatten_length items
  | buffer tc items => exact buffersFlatten_length h
  | message items => exact messagesFlatten_length h
  | pointer items => cases hFlat
  | tag numItems => cases hFlat

theorem entriesSize_cons (e : CStr × DataArray) (es : List (CStr × DataArray)) :
    entriesSize (e :: es) = entriesSize [e] + entriesSize es := by
  obtain ⟨name, array⟩ := e
  simp only [entriesSize, Nat.add_zero]

theorem entriesFlatten_cons (e : CStr × DataArray) (es : List (CStr × DataArray)) :
    entriesFlatten (e :: es) = entriesFlatten [e] ++ entriesFlatten es := by
  obtain ⟨name, array⟩ := e
  simp only [entriesFlatten, List.append_nil]

theorem entriesFlatten_length (es : List (CStr × DataArray)) :
    (entriesFlatten es).length = entriesSize es := by
  induction es with
  | nil => rfl
  | cons e es ih =>
    obtain ⟨name, array⟩ := e
    simp only [entriesFlatten, entriesSize, List.length_append, ih]
    split
    · simp
      omega
    · simp

/-- The writer always ends `FlattenedSize` bytes past its start. -/
theorem Message.flatten_length (m : Message) : m.flatten.length = m.flattenedSize := by
  cases m with
  | mk what entries =>
    simp only [flatten, flattenedSize, List.length_append, word32_length, entriesFlatten_length]

end BeShare.Muscle
