import BeShare.Message.Flatten

/-!
The C codec's messages: fields in the order of the linked list, and `MMGetFlattenedSize` and
`MMFlattenMessage`. The host is little-endian with eight-byte pointers.
-/

namespace BeShare.Muscle

open BeShare.Lib

/-- `IsTypeCodeVariableSize`. -/
def isTypeCodeVariableSize (typeCode : UInt32) : Bool :=
  !([B_BOOL_TYPE, B_DOUBLE_TYPE, B_FLOAT_TYPE, B_INT64_TYPE, B_INT32_TYPE, B_INT16_TYPE,
    B_INT8_TYPE, B_POINTER_TYPE, B_POINT_TYPE, B_RECT_TYPE].contains typeCode)

/-- The type code of a field of `MByteBuffer`s, as `MMPutDataField` admits it. -/
structure BlobTypeCode where
  code : UInt32
  variableSize : isTypeCodeVariableSize code = true
  not_message : code ≠ B_MESSAGE_TYPE
deriving DecidableEq

mutual

/-- The type code and the data of an `MMessageField`. A `MBool` is a `char`. -/
inductive MMData where
  | bool (items : List UInt8)
  | prim (t : PrimType) (items : List (BitVec (8 * t.size)))
  | point (items : List Point)
  | rect (items : List Rect)
  | pointer (items : List (BitVec 64))
  | blob (tc : BlobTypeCode) (items : List (Option (List UInt8)))
  | message (items : List (Option MMessage))

/-- `MMessage`: the fields from `firstField` to `lastField`, each with its name bytes (the NUL
included). -/
inductive MMessage where
  | mk (what : UInt32) (fields : List (List UInt8 × MMData))

end

/-- A field of an `MMessage`. -/
abbrev MMField := List UInt8 × MMData

namespace MMData

/-- `typeCode`. -/
def typeCode : MMData → UInt32
  | bool _ => B_BOOL_TYPE
  | prim t _ => t.typeCode
  | point _ => B_POINT_TYPE
  | rect _ => B_RECT_TYPE
  | pointer _ => B_POINTER_TYPE
  | blob tc _ => tc.code
  | message _ => B_MESSAGE_TYPE

/-- `isFlattenable`: `MMPutPointerField` clears it. -/
def isFlattenable : MMData → Bool
  | pointer _ => false
  | _ => true

/-- `numItems`. -/
def numItems : MMData → Nat
  | bool items => items.length
  | prim _ items => items.length
  | point items => items.length
  | rect items => items.length
  | pointer items => items.length
  | blob _ items => items.length
  | message items => items.length

/-- `itemSize`; blobs and Messages are held by pointers. -/
def itemSize : MMData → Nat
  | bool _ => 1
  | prim t _ => t.size
  | point _ => Point.codec.size
  | rect _ => Rect.codec.size
  | _ => 8

def messages : MMData → List (Option MMessage)
  | message items => items
  | _ => []

end MMData

namespace MMessage

def what : MMessage → UInt32
  | mk what _ => what

def fields : MMessage → List MMField
  | mk _ fields => fields

/-- `m'` is an item of one of `m`'s fields. -/
def ItemOf (m' m : MMessage) : Prop := ∃ f ∈ m.fields, some m' ∈ f.2.messages

/-- `p` holds of an `MMessage` and of those inside it, to any depth. -/
abbrev Throughout (p : MMessage → Prop) (m : MMessage) : Prop := Lib.Throughout ItemOf p m

theorem throughout_mk {p : MMessage → Prop} {what : UInt32} {fs : List MMField}
    (h : p (.mk what fs)) (hItems : ∀ f ∈ fs, ∀ m', some m' ∈ f.2.messages → Throughout p m') :
    Throughout p (.mk what fs) :=
  .intro _ h fun m' ⟨f, hMem, hItem⟩ => hItems f hMem m' hItem

end MMessage

/-- The part of `GetMMessageFieldFlattenedSize` for `MByteBuffer`s. -/
def blobsSize (items : List (Option (List UInt8))) : Nat :=
  items.length * 4 + (4 + (items.map bufferItemSize).sum)

/-- The part of `FlattenMMessageField` for `MByteBuffer`s: a `NULL` item has the size zero. -/
def blobsFlatten (items : List (Option (List UInt8))) : Cells :=
  word32 items.length ++ items.flatMap fun item =>
    word32 (bufferItemSize item) ++ (item.getD []).map some

mutual

/-- `MMGetFlattenedSize`. -/
def MMessage.flattenedSize : MMessage → Nat
  | .mk _ fields => 12 + mmFieldsSize fields

def mmFieldsSize : List (List UInt8 × MMData) → Nat
  | [] => 0
  | (name, data) :: fields =>
    (if data.isFlattenable then 4 + name.length + 4 + 4 + data.flattenedSize else 0)
      + mmFieldsSize fields

/-- `GetMMessageFieldFlattenedSize` without the headers. -/
def MMData.flattenedSize : MMData → Nat
  | .bool items => items.length * 1
  | .prim t items => items.length * t.size
  | .point items => items.length * Point.codec.size
  | .rect items => items.length * Rect.codec.size
  | .pointer items => items.length * 8
  | .blob _ items => blobsSize items
  | .message items => mmMessagesSize items

def mmMessagesSize : List (Option MMessage) → Nat
  | [] => 0
  | none :: items => 4 + 12 + mmMessagesSize items
  | some m :: items => 4 + m.flattenedSize + mmMessagesSize items

end

mutual

/-- `MMFlattenMessage`. -/
def MMessage.flatten : MMessage → Cells
  | .mk what fields =>
    word32 CURRENT_PROTOCOL_VERSION ++ word32 what.toNat ++
      word32 (fields.countP fun f => f.2.isFlattenable) ++ mmFieldsFlatten fields

/-- `FlattenMMessageField` for each flattenable field. -/
def mmFieldsFlatten : List (List UInt8 × MMData) → Cells
  | [] => []
  | (name, data) :: fields =>
    (if data.isFlattenable then
        word32 name.length ++ name.map some ++ word32 data.typeCode.toNat ++
          word32 data.flattenedSize ++ data.flatten
      else [])
      ++ mmFieldsFlatten fields

/-- The entry data that `FlattenMMessageField` writes. -/
def MMData.flatten : MMData → Cells
  | .bool items => items.map some
  | .prim t items => (t.codec.encodeAll items).map some
  | .point items => (Point.codec.encodeAll items).map some
  | .rect items => (Rect.codec.encodeAll items).map some
  | .pointer items => (pointerCodec.encodeAll items).map some
  | .blob _ items => blobsFlatten items
  | .message items => mmMessagesFlatten items

/-- Items of a Message field; a `NULL` item is written as an empty Message. -/
def mmMessagesFlatten : List (Option MMessage) → Cells
  | [] => []
  | none :: items =>
    word32 12 ++ (word32 CURRENT_PROTOCOL_VERSION ++ word32 0 ++ word32 0) ++ mmMessagesFlatten items
  | some m :: items =>
    word32 m.flattenedSize ++ place m.flattenedSize m.flatten ++ mmMessagesFlatten items

end

end BeShare.Muscle
