import BeShare.Lib.Words
import BeShare.Lib.Hereditary
import Mathlib.Data.List.TakeWhile

/-!
Messages and their fields. A field is one of the source's data-array classes; which class holds a
field's items is decided by the field's type code alone. Floating-point items are their bit
patterns.
-/

namespace BeShare.Muscle

open BeShare.Lib

abbrev B_ANY_TYPE : UInt32 := 1095653716
abbrev B_BOOL_TYPE : UInt32 := 1112493900
abbrev B_DOUBLE_TYPE : UInt32 := 1145195589
abbrev B_FLOAT_TYPE : UInt32 := 1179406164
abbrev B_INT64_TYPE : UInt32 := 1280069191
abbrev B_INT32_TYPE : UInt32 := 1280265799
abbrev B_INT16_TYPE : UInt32 := 1397248596
abbrev B_INT8_TYPE : UInt32 := 1113150533
abbrev B_MESSAGE_TYPE : UInt32 := 1297303367
abbrev B_POINTER_TYPE : UInt32 := 1347310674
abbrev B_POINT_TYPE : UInt32 := 1112559188
abbrev B_RECT_TYPE : UInt32 := 1380270932
abbrev B_STRING_TYPE : UInt32 := 1129534546
abbrev B_RAW_TYPE : UInt32 := 1380013908
abbrev B_TAG_TYPE : UInt32 := 1297367367

/-- The type codes that have a data-array class of their own; every other code is held as byte
buffers. -/
def classTypeCodes : List UInt32 :=
  [B_BOOL_TYPE, B_DOUBLE_TYPE, B_POINTER_TYPE, B_POINT_TYPE, B_RECT_TYPE, B_FLOAT_TYPE,
    B_INT64_TYPE, B_INT32_TYPE, B_INT16_TYPE, B_INT8_TYPE, B_MESSAGE_TYPE, B_STRING_TYPE,
    B_TAG_TYPE]

/-- A type code that `ByteBufferDataArray` holds. -/
structure RawTypeCode where
  code : UInt32
  not_class : code ∉ classTypeCodes
deriving DecidableEq

/-- `String`: the characters before the terminating NUL. -/
structure CStr where
  chars : List UInt8
  noNul : (0 : UInt8) ∉ chars
deriving DecidableEq

namespace CStr

@[ext] theorem ext {s t : CStr} (h : s.chars = t.chars) : s = t := by
  cases s
  cases t
  cases h
  rfl

def empty : CStr := ⟨[], by simp⟩

def cons (c : UInt8) (s : CStr) (h : c ≠ 0) : CStr :=
  ⟨c :: s.chars, by simpa using ⟨h.symm, s.noNul⟩⟩

/-- `String::FlattenedSize`. -/
def flattenedSize (s : CStr) : Nat := s.chars.length + 1

/-- `String::Flatten`. -/
def flatten (s : CStr) : List UInt8 := s.chars ++ [0]

@[simp] theorem flatten_length (s : CStr) : s.flatten.length = s.flattenedSize := by
  simp [flatten, flattenedSize]

/-- The string at the front of some bytes, up to a NUL or to their end. -/
def ofBytes (bs : List UInt8) : CStr where
  chars := bs.takeWhile (· != 0)
  noNul hMem := by simpa using List.mem_takeWhile_imp hMem

theorem ofBytes_flatten_append (s : CStr) (rest : List UInt8) : ofBytes (s.flatten ++ rest) = s := by
  apply ext
  have hAll : ∀ c ∈ s.chars, (c != 0) = true := by
    intro c hMem
    have hc : c ≠ 0 := fun hc => s.noNul (hc ▸ hMem)
    simpa using hc
  simp only [ofBytes, flatten, List.append_assoc]
  rw [List.takeWhile_append_of_pos hAll]
  simp

theorem ofBytes_flatten (s : CStr) : ofBytes s.flatten = s := by
  simpa using s.ofBytes_flatten_append []

theorem ofBytes_size_le {bs : List UInt8} (h : (0 : UInt8) ∈ bs) :
    (ofBytes bs).flattenedSize ≤ bs.length := by
  induction bs with
  | nil => cases h
  | cons b bs ih =>
    by_cases hb : b = 0
    · simp [ofBytes, flattenedSize, hb]
    · have hTail := ih ((List.mem_cons.mp h).resolve_left (Ne.symm hb))
      simp only [ofBytes, flattenedSize] at hTail
      simp [ofBytes, flattenedSize, hb, hTail]

theorem flattenedSize_pos (s : CStr) : 0 < s.flattenedSize := Nat.succ_pos _

end CStr

/-- The element types of `PrimitiveTypeDataArray` that are stored as one little-endian word. -/
inductive PrimType where
  | int8 | int16 | int32 | int64 | float | double
deriving DecidableEq

namespace PrimType

def size : PrimType → Nat
  | int8 => 1
  | int16 => 2
  | int32 => 4
  | int64 => 8
  | float => 4
  | double => 8

def typeCode : PrimType → UInt32
  | int8 => B_INT8_TYPE
  | int16 => B_INT16_TYPE
  | int32 => B_INT32_TYPE
  | int64 => B_INT64_TYPE
  | float => B_FLOAT_TYPE
  | double => B_DOUBLE_TYPE

theorem size_pos (t : PrimType) : 0 < t.size := by
  cases t <;> decide

/-- `ConvertToNetworkByteOrder` and `ConvertFromNetworkByteOrder` of the class. -/
def codec (t : PrimType) : FixedCodec (BitVec (8 * t.size)) := wordCodec t.size t.size_pos

end PrimType

structure Point where
  x : BitVec 32
  y : BitVec 32
deriving DecidableEq

structure Rect where
  left : BitVec 32
  top : BitVec 32
  right : BitVec 32
  bottom : BitVec 32
deriving DecidableEq

/-- A float's four bytes. -/
abbrev floatCodec : FixedCodec (BitVec 32) := wordCodec 4 (by decide)

/-- A pointer's eight bytes, copied as they are. -/
abbrev pointerCodec : FixedCodec (BitVec 64) := wordCodec 8 (by decide)

/-- `Point::Flatten` and `Point::Unflatten`. -/
def Point.codec : FixedCodec Point where
  size := 8
  encode p := floatCodec.encode p.x ++ floatCodec.encode p.y
  decode bs := ⟨floatCodec.decode (bs.take 4), floatCodec.decode ((bs.drop 4).take 4)⟩
  size_pos := by decide
  encode_length p := by simp [wordCodec]
  decode_encode p := by
    have hx : (floatCodec.encode p.x).length = 4 := floatCodec.encode_length _
    have hy : (floatCodec.encode p.y).length = 4 := floatCodec.encode_length _
    rw [List.take_left' hx, List.drop_left' hx, ← hy, List.take_length,
      floatCodec.decode_encode, floatCodec.decode_encode]

/-- `Rect::Flatten` and `Rect::Unflatten`. -/
def Rect.codec : FixedCodec Rect where
  size := 16
  encode r := Point.codec.encode ⟨r.left, r.top⟩ ++ Point.codec.encode ⟨r.right, r.bottom⟩
  decode bs :=
    let leftTop := Point.codec.decode (bs.take 8)
    let rightBottom := Point.codec.decode ((bs.drop 8).take 8)
    ⟨leftTop.x, leftTop.y, rightBottom.x, rightBottom.y⟩
  size_pos := by decide
  encode_length r := by simp only [List.length_append, Point.codec.encode_length]; rfl
  decode_encode r := by
    have hlt : (Point.codec.encode ⟨r.left, r.top⟩).length = 8 := Point.codec.encode_length _
    have hrb : (Point.codec.encode ⟨r.right, r.bottom⟩).length = 8 := Point.codec.encode_length _
    simp only [List.take_left' hlt, List.drop_left' hlt]
    rw [← hrb, List.take_length, Point.codec.decode_encode, Point.codec.decode_encode]

mutual

/-- The items of one field: `AbstractDataArray` and its subclasses. A reference item may be
`NULL`. The objects of a tag field are never flattened, so only their number is kept. -/
inductive DataArray where
  | bool (items : List Bool)
  | prim (t : PrimType) (items : List (BitVec (8 * t.size)))
  | point (items : List Point)
  | rect (items : List Rect)
  | string (items : List CStr)
  | buffer (tc : RawTypeCode) (items : List (Option (List UInt8)))
  | message (items : List (Option Message))
  | pointer (items : List (BitVec 64))
  | tag (numItems : Nat)

/-- `Message`: the `what` code and the `_entries` table in its iteration order. -/
inductive Message where
  | mk (what : UInt32) (entries : List (CStr × DataArray))

end

namespace DataArray

/-- `TypeCode()`. -/
def typeCode : DataArray → UInt32
  | bool _ => B_BOOL_TYPE
  | prim t _ => t.typeCode
  | point _ => B_POINT_TYPE
  | rect _ => B_RECT_TYPE
  | string _ => B_STRING_TYPE
  | buffer tc _ => tc.code
  | message _ => B_MESSAGE_TYPE
  | pointer _ => B_POINTER_TYPE
  | tag _ => B_TAG_TYPE

/-- `IsFlattenable()`. -/
def isFlattenable : DataArray → Bool
  | pointer _ => false
  | tag _ => false
  | _ => true

/-- The references a Message field holds. -/
def messages : DataArray → List (Option Message)
  | message items => items
  | _ => []

/-- No reference item of the field itself is `NULL`. -/
def NoNull : DataArray → Prop
  | buffer _ items => none ∉ items
  | message items => none ∉ items
  | _ => True

end DataArray

namespace Message

def what : Message → UInt32
  | mk what _ => what

def entries : Message → List (CStr × DataArray)
  | mk _ entries => entries

@[simp] theorem what_mk (w : UInt32) (es : List (CStr × DataArray)) : (mk w es).what = w := rfl

@[simp] theorem entries_mk (w : UInt32) (es : List (CStr × DataArray)) :
    (mk w es).entries = es := rfl

/-- `m'` is an item of one of `m`'s fields. -/
def ItemOf (m' m : Message) : Prop := ∃ e ∈ m.entries, some m' ∈ e.2.messages

/-- `p` holds of a Message and of the Messages inside it, to any depth. -/
abbrev Throughout (p : Message → Prop) (m : Message) : Prop := Lib.Throughout ItemOf p m

theorem throughout_mk {p : Message → Prop} {what : UInt32} {es : List (CStr × DataArray)}
    (h : p (.mk what es)) (hItems : ∀ e ∈ es, ∀ m', some m' ∈ e.2.messages → Throughout p m') :
    Throughout p (.mk what es) :=
  .intro _ h fun m' ⟨e, hMem, hItem⟩ => hItems e hMem m' hItem

/-- The entries are a table: no name occurs twice. -/
def DistinctNames (m : Message) : Prop := (m.entries.map Prod.fst).Nodup

def AllFlattenable (m : Message) : Prop := ∀ e ∈ m.entries, e.2.isFlattenable

def NoNull (m : Message) : Prop := ∀ e ∈ m.entries, e.2.NoNull

/-- What `_entries` guarantees of every Message the program can hold. -/
def WellFormed : Message → Prop := Throughout DistinctNames

/-- Every field, at every depth, is of a flattenable type. -/
def Flattenable : Message → Prop := Throughout AllFlattenable

/-- No Message or byte-buffer reference is `NULL`, at any depth. -/
def NoNullRefs : Message → Prop := Throughout NoNull

end Message

end BeShare.Muscle
