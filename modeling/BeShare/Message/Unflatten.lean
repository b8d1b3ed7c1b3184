import BeShare.Lib.Checked
import BeShare.Message.Flatten

/-!
`Message::Unflatten` and the `Unflatten` of each data-array class. The offset arithmetic is a
parameter: `Arith.uint32` is what the source computes, `Arith.exact` stops where that wraps around.
Memory allocation succeeds.
-/

namespace BeShare.Muscle

open BeShare.Lib

/-- Why a parse stops without a result. -/
inductive Stop where
  /-- The source returns `B_ERROR`. -/
  | bError
  /-- A byte outside the received buffer is read. -/
  | outOfBounds
  /-- `MCRASH`. -/
  | crash
  /-- The run is longer than the given fuel. -/
  | outOfFuel
  /-- A `uint32` operation left its range; only `Arith.exact` stops so. -/
  | wrapped
deriving DecidableEq

abbrev Parse (α : Type) := Except Stop α

/-- The arithmetic on offsets. -/
structure Arith where
  add : Nat → Nat → Parse Nat
  sub : Nat → Nat → Parse Nat

/-- `uint32` arithmetic. -/
def Arith.uint32 : Arith where
  add a b := .ok ((a + b) % 2 ^ 32)
  sub a b := .ok ((a + (2 ^ 32 - b % 2 ^ 32)) % 2 ^ 32)

/-- `uint32` arithmetic that stops instead of wrapping around. -/
def Arith.exact : Arith where
  add a b := if a + b < 2 ^ 32 then .ok (a + b) else .error .wrapped
  sub a b := if b ≤ a ∧ a < 2 ^ 32 then .ok (a - b) else .error .wrapped

/-- The arguments of an `Unflatten` call: `buffer` points at offset `base` of the received bytes. -/
structure Input where
  received : List UInt8
  base : Nat
  numBytes : Nat

/-- The arguments `&buffer[readOffset], numBytes`. -/
def Input.sub (inp : Input) (readOffset numBytes : Nat) : Input :=
  { inp with base := inp.base + readOffset, numBytes := numBytes }

@[simp] theorem Input.sub_received (inp : Input) (off n : Nat) :
    (inp.sub off n).received = inp.received := rfl

@[simp] theorem Input.sub_base (inp : Input) (off n : Nat) :
    (inp.sub off n).base = inp.base + off := rfl

@[simp] theorem Input.sub_numBytes (inp : Input) (off n : Nat) :
    (inp.sub off n).numBytes = n := rfl

/-- The `k` bytes from `buffer[off]` on. -/
def fetch (inp : Input) (off k : Nat) : Parse (List UInt8) :=
  if k = 0 ∨ inp.base + off + k ≤ inp.received.length then
    .ok ((inp.received.drop (inp.base + off)).take k)
  else .error .outOfBounds

/-- The loop of `String::SetCstr`: characters up to a NUL, at most `maxLen` of them. -/
def setCstr (received : List UInt8) : Nat → Nat → Parse CStr
  | _, 0 => .ok .empty
  | a, maxLen + 1 =>
    match received[a]? with
    | none => .error .outOfBounds
    | some c =>
      if h : c = 0 then .ok .empty
      else do
        let s ← setCstr received (a + 1) maxLen
        return s.cons c h

/-- `String::Unflatten`. -/
def CStr.unflatten (inp : Input) : Parse CStr := setCstr inp.received inp.base inp.numBytes

/-- The data-array class of a field, with its type code. -/
inductive ArrayClass where
  | bool | prim (t : PrimType) | point | rect | string | message | pointer | tag
  | buffer (tc : RawTypeCode)
deriving DecidableEq

/-- The class that `Message::GetOrCreateArray` creates for a type code. -/
def arrayClass (tc : UInt32) : ArrayClass :=
  if hRaw : tc ∉ classTypeCodes then .buffer ⟨tc, hRaw⟩
  else if tc = B_BOOL_TYPE then .bool
  else if tc = B_DOUBLE_TYPE then .prim .double
  else if tc = B_POINTER_TYPE then .pointer
  else if tc = B_POINT_TYPE then .point
  else if tc = B_RECT_TYPE then .rect
  else if tc = B_FLOAT_TYPE then .prim .float
  else if tc = B_INT64_TYPE then .prim .int64
  else if tc = B_INT32_TYPE then .prim .int32
  else if tc = B_INT16_TYPE then .prim .int16
  else if tc = B_INT8_TYPE then .prim .int8
  else if tc = B_MESSAGE_TYPE then .message
  else if tc = B_STRING_TYPE then .string
  else .tag

/-- The class an existing field is held in. -/
def DataArray.arrayClass : DataArray → ArrayClass
  | bool _ => .bool
  | prim t _ => .prim t
  | point _ => .point
  | rect _ => .rect
  | string _ => .string
  | buffer tc _ => .buffer tc
  | message _ => .message
  | pointer _ => .pointer
  | tag _ => .tag

theorem arrayClass_typeCode (array : DataArray) :
    Muscle.arrayClass array.typeCode = array.arrayClass := by
  cases array with
  | prim t _ => cases t <;> rfl
  | buffer tc _ => exact dif_pos tc.not_class
  | _ => rfl

/-- The array that `Message::GetOrCreateArray` returns, by its class. -/
def getOrCreateArray (entries : List (CStr × DataArray)) (name : CStr) (tc : UInt32) :
    Parse ArrayClass :=
  match entries.lookup name with
  | some array =>
    if tc = B_ANY_TYPE ∨ tc = array.typeCode then .ok array.arrayClass else .error .bError
  | none => .ok (arrayClass tc)

/-- The table after an array's items were read into it: a new name goes to the end. -/
def putEntry (entries : List (CStr × DataArray)) (name : CStr) (array : DataArray) :
    List (CStr × DataArray) :=
  if (entries.lookup name).isSome then
    entries.map fun e => if e.1 = name then (name, array) else e
  else entries ++ [(name, array)]

theorem lookup_eq_none {entries : List (CStr × DataArray)} {name : CStr}
    (h : name ∉ entries.map Prod.fst) : entries.lookup name = none := by
  rw [List.lookup_eq_none_iff]
  intro e hMem
  have hne : name ≠ e.1 := fun hEq => h (hEq ▸ List.mem_map_of_mem hMem)
  simpa using hne

theorem putEntry_new {entries : List (CStr × DataArray)} {name : CStr} {array : DataArray}
    (h : name ∉ entries.map Prod.fst) : putEntry entries name array = entries ++ [(name, array)] := by
  rw [putEntry, lookup_eq_none h]
  rfl

theorem forall_putEntry {entries : List (CStr × DataArray)} {name : CStr} {array : DataArray}
    {p : DataArray → Prop} (hEntries : ∀ e ∈ entries, p e.2) (hArray : p array) :
    ∀ e ∈ putEntry entries name array, p e.2 := by
  intro e hMem
  rw [putEntry] at hMem
  split at hMem
  · obtain ⟨old, hOld, rfl⟩ := List.mem_map.mp hMem
    split
    · exact hArray
    · exact hEntries old hOld
  · rcases List.mem_append.mp hMem with hOld | hNew
    · exact hEntries e hOld
    · rw [List.mem_singleton.mp hNew]
      exact hArray

/-- `Unflatten` of the classes whose items all have one size. -/
def fixedUnflatten {α : Type} (c : FixedCodec α) (inp : Input) : Parse (List α) :=
  if inp.numBytes % c.size ≠ 0 then .error .bError
  else do
    let bytes ← fetch inp 0 inp.numBytes
    return c.decodeAll (inp.numBytes / c.size) bytes

/-- `BoolDataArray::Unflatten`. -/
def boolUnflatten (inp : Input) : Parse (List Bool) := do
  let bytes ← fetch inp 0 inp.numBytes
  return bytes.map fun b => b != 0

section

variable (ar : Arith)

/-- `Flattenable::ReadData`, with the offset behind the data. -/
def readData (inp : Input) (readOffset blockSize : Nat) : Parse (List UInt8 × Nat) := do
  let next ← ar.add readOffset blockSize
  if next > inp.numBytes then .error .bError
  else do
    let bytes ← fetch inp readOffset blockSize
    return (bytes, next)

/-- A little-endian `uint32` read with `ReadData`. -/
def readUint32 (inp : Input) (readOffset : Nat) : Parse (Nat × Nat) := do
  let (bytes, next) ← readData ar inp readOffset 4
  return (leNat bytes, next)

/-- The length word of an item and the check that the item ends inside the field; the result is
the item's length, its offset and the offset behind it. -/
def readItemSize (inp : Input) (readOffset : Nat) : Parse (Nat × Nat × Nat) := do
  let (readFs, off) ← readUint32 ar inp readOffset
  let next ← ar.add off readFs
  if next > inp.numBytes then .error .bError
  else return (readFs, off, next)

/-- The loop of `VariableSizeFlatObjectArray<String>::Unflatten`. -/
def stringItems (inp : Input) : Nat → Nat → Parse (List CStr)
  | 0, _ => .ok []
  | numElements + 1, readOffset => do
    let (elementSize, off) ← readUint32 ar inp readOffset
    if elementSize = 0 then .error .bError
    else do
      let next ← ar.add off elementSize
      if next > inp.numBytes then .error .bError
      else do
        let s ← CStr.unflatten (inp.sub off elementSize)
        let rest ← stringItems inp numElements next
        return s :: rest

/-- `VariableSizeFlatObjectArray<String>::Unflatten`. -/
def stringsUnflatten (inp : Input) : Parse (List CStr) := do
  let (numElements, off) ← readUint32 ar inp 0
  stringItems ar inp numElements off

/-- The loop of `ByteBufferDataArray::Unflatten`. -/
def bufferItems (inp : Input) : Nat → Nat → Parse (List (List UInt8))
  | 0, _ => .ok []
  | numItems + 1, readOffset => do
    let (readFs, off, next) ← readItemSize ar inp readOffset
    let bytes ← fetch inp off readFs
    let rest ← bufferItems inp numItems next
    return bytes :: rest

/-- `ByteBufferDataArray::Unflatten`. -/
def buffersUnflatten (inp : Input) : Parse (List (List UInt8)) := do
  let (numItems, off) ← readUint32 ar inp 0
  bufferItems ar inp numItems off

variable (parseMessage : Input → Parse Message) (fuel : Nat)

/-- One iteration of `MessageDataArray::Unflatten`. -/
def messageItem (inp : Input) (readOffset : Nat) : Parse (Message × Nat) := do
  let (readFs, off, next) ← readItemSize ar inp readOffset
  let nextMsg ← parseMessage (inp.sub off readFs)
  return (nextMsg, next)

/-- The loop of `MessageDataArray::Unflatten`, for at most `fuel` iterations. -/
def messageItems (inp : Input) : Nat → Nat → Parse (List Message)
  | 0, readOffset => if readOffset < inp.numBytes then .error .outOfFuel else .ok []
  | fuel + 1, readOffset =>
    if readOffset < inp.numBytes then do
      let (nextMsg, next) ← messageItem ar parseMessage inp readOffset
      let rest ← messageItems inp fuel next
      return nextMsg :: rest
    else .ok []

/-- `Unflatten` of each data-array class; `parseMessage` is `Message::Unflatten`. -/
def ArrayClass.unflatten (inp : Input) : ArrayClass → Parse DataArray
  | .bool => return .bool (← boolUnflatten inp)
  | .prim t => return .prim t (← fixedUnflatten t.codec inp)
  | .point => return .point (← fixedUnflatten Point.codec inp)
  | .rect => return .rect (← fixedUnflatten Rect.codec inp)
  | .string => return .string (← stringsUnflatten ar inp)
  | .message => return .message ((← messageItems ar parseMessage inp fuel 0).map some)
  | .pointer => return .pointer (← fixedUnflatten pointerCodec inp)
  | .tag => .error .crash
  | .buffer tc => return .buffer tc ((← buffersUnflatten ar inp).map some)

/-- One iteration of the entry loop of `Message::Unflatten`: the entries and the offset after it. -/
def unflattenEntry (inp : Input) (entries : List (CStr × DataArray)) (readOffset : Nat) :
    Parse (List (CStr × DataArray) × Nat) := do
  let (nameLength, off) ← readUint32 ar inp readOffset
  let left ← ar.sub inp.numBytes off
  if nameLength > left then .error .bError
  else do
    let entryName ← CStr.unflatten (inp.sub off nameLength)
    let off ← ar.add off nameLength
    let (tc, off) ← readUint32 ar inp off
    let (eLength, off) ← readUint32 ar inp off
    let left ← ar.sub inp.numBytes off
    if eLength > left then .error .bError
    else do
      let nextEntry ← getOrCreateArray entries entryName (.ofNat tc)
      let array ← nextEntry.unflatten ar parseMessage fuel (inp.sub off eLength)
      let off ← ar.add off eLength
      return (putEntry entries entryName array, off)

/-- The entry loop of `Message::Unflatten`. -/
def unflattenEntries (inp : Input) :
    Nat → List (CStr × DataArray) → Nat → Parse (List (CStr × DataArray))
  | 0, entries, _ => .ok entries
  | numEntries + 1, entries, readOffset => do
    let (entries, off) ← unflattenEntry ar parseMessage fuel inp entries readOffset
    unflattenEntries inp numEntries entries off

/-- The header of a flattened Message: `what`, the number of entries, and the offset behind it. -/
def readHeader (inp : Input) : Parse (UInt32 × Nat × Nat) := do
  let (messageProtocolVersion, off) ← readUint32 ar inp 0
  if messageProtocolVersion < OLDEST_SUPPORTED_PROTOCOL_VERSION ∨
      messageProtocolVersion > CURRENT_PROTOCOL_VERSION then .error .bError
  else do
    let (what, off) ← readUint32 ar inp off
    let (numEntries, off) ← readUint32 ar inp off
    return (.ofNat what, numEntries, off)

end

/-- `Message::Unflatten`, for at most `fuel` levels of nesting and iterations of each
`MessageDataArray` loop. -/
def Message.unflatten (ar : Arith) : Nat → Input → Parse Message
  | 0, _ => .error .outOfFuel
  | fuel + 1, inp => do
    let (what, numEntries, off) ← readHeader ar inp
    let entries ← unflattenEntries ar (Message.unflatten ar fuel) fuel inp numEntries [] off
    return .mk what entries

/-- `Message::Unflatten` on a received buffer, as the source computes it. -/
def Message.receive (fuel : Nat) (received : List UInt8) : Parse Message :=
  Message.unflatten .uint32 fuel ⟨received, 0, received.length⟩

end BeShare.Muscle
