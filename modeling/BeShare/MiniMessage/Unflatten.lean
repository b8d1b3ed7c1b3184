import BeShare.Message.Unflatten
import BeShare.MiniMessage.Types

/-!
`MMUnflattenMessage` and `AllocMMessageField`, with the memory they touch. Every read of the input
and every use of a field's storage is checked here, and a run stops where the source would go
outside; the source itself has no such checks. A guarded run stops earlier, with `hazard`, at the
point where the source fails to make sure that what follows is in order.
-/

namespace BeShare.Muscle

open BeShare.Lib

/-- Why a parse of the C codec stops without a result. -/
inductive MStop where
  /-- The source returns `B_ERROR`. -/
  | bError
  /-- The run is longer than the given fuel. -/
  | outOfFuel
  /-- A byte outside `[inBuf, inBuf+inputBufferBytes)` is read. -/
  | outsideInput
  /-- A part of an item is read that is not inside the field's `eLength` bytes. -/
  | outsideField
  /-- Memory outside the storage of a field is written, or freed as its items. -/
  | outsideStorage
  /-- The clean-up frees a Message through an uninitialised `scratch` pointer. -/
  | wildPointer
  /-- Only of a guarded run: what the source relies on does not hold. -/
  | hazard
deriving DecidableEq

abbrev MParse (α : Type) := Except MStop α

/-- The stops at which the source leaves its input, the field or the storage. -/
def MStop.Outside (stop : MStop) : Prop :=
  stop = .outsideInput ∨ stop = .outsideField ∨ stop = .outsideStorage ∨ stop = .wildPointer

/-- A guarded run goes on only if `c` holds. -/
def guardThat (guarded : Bool) (c : Prop) [Decidable c] : MParse Unit :=
  if guarded ∧ ¬c then .error .hazard else .ok ()

/-- Goes on if `c` holds and stops the run otherwise. -/
def orStop (c : Prop) [Decidable c] (stop : MStop) : MParse Unit :=
  if c then .ok () else .error stop

/-- Goes on with the result of `x`, or with `fail` if `x` returns `B_ERROR`. -/
def onError {α β : Type} (x : MParse α) (fail : MParse β) (next : α → MParse β) : MParse β :=
  match x with
  | .ok a => next a
  | .error .bError => fail
  | .error stop => .error stop

/-- The `k` bytes from `buffer[off]` on. -/
def mFetch (inp : Input) (off k : Nat) : MParse (List UInt8) := do
  orStop (k = 0 ∨ off + k ≤ inp.numBytes) .outsideInput
  return (inp.received.drop (inp.base + off)).take k

/-- The bytes of the input from `buffer[off]` on. -/
def Input.from (inp : Input) (off : Nat) : List UInt8 :=
  (inp.received.drop (inp.base + off)).take (inp.numBytes - off)

/-- The characters of the name that `strlen` and `strcpy` see at `buffer[off]`. -/
def mFieldName (inp : Input) (off : Nat) : MParse CStr := do
  orStop ((0 : UInt8) ∈ inp.from off) .outsideInput
  return CStr.ofBytes (inp.from off)

/-- The comparisons of `LookupMMessageField` with a name at `buffer[off]` read on as long as the
characters agree. -/
def lookupStays (inp : Input) (off : Nat) (fields : List MMField) : Prop :=
  (0 : UInt8) ∈ inp.from off ∨ ∀ f ∈ fields, ¬inp.from off <+: (CStr.ofBytes f.1).flatten

instance (inp : Input) (off : Nat) (fields : List MMField) :
    Decidable (lookupStays inp off fields) := by
  unfold lookupStays
  infer_instance

/-- `MMRemoveField`: the last field with that name goes. -/
def mmRemoveField (fields : List MMField) (name : CStr) : List MMField :=
  (fields.reverse.eraseP fun f => CStr.ofBytes f.1 = name).reverse

/-- `sizeof(MMessageField)`. -/
abbrev sizeofField : Nat := 64

/-- What `AllocMMessageField` needs so that its sizes are right. -/
def storageFits (nameBytes numItems itemSize : Nat) : Prop :=
  0 < nameBytes ∧ sizeofField + numItems * itemSize + nameBytes < 2 ^ 32

instance (nameBytes numItems itemSize : Nat) :
    Decidable (storageFits nameBytes numItems itemSize) := by
  unfold storageFits
  infer_instance

/-- `AllocMMessageField`: the number of data bytes that the new field has room for. -/
def allocMMessageField (guarded : Bool) (nameBytes numItems itemSize : Nat) : MParse Nat := do
  if numItems = 0 then .error .bError
  else do
    guardThat guarded (storageFits nameBytes numItems itemSize)
    let dataSize := numItems * itemSize % 2 ^ 32
    let allocSize := (sizeofField + dataSize + nameBytes) % 2 ^ 32
    -- memset of the data, memcpy of the name, and the terminating NUL
    orStop (sizeofField + dataSize ≤ allocSize) .outsideStorage
    orStop (sizeofField + dataSize + nameBytes ≤ allocSize) .outsideStorage
    orStop (sizeofField + dataSize + (nameBytes + (2 ^ 32 - 1)) % 2 ^ 32 < allocSize) .outsideStorage
    return dataSize

/-- `FreeMMessageField` and the fills of a field go through all item slots. -/
def slotsInside (dataSize numItems : Nat) : Prop := numItems * 8 ≤ dataSize

instance (dataSize numItems : Nat) : Decidable (slotsInside dataSize numItems) := by
  unfold slotsInside
  infer_instance

section

variable (guarded : Bool)

/-- `ReadData` of a little-endian `uint32`, and the offset behind it. -/
def mReadUint32 (inp : Input) (readOffset : Nat) : MParse (Nat × Nat) := do
  guardThat guarded (readOffset + 4 < 2 ^ 32)
  let next := (readOffset + 4) % 2 ^ 32
  if next > inp.numBytes then .error .bError
  else do
    let bytes ← mFetch inp readOffset 4
    return (leNat bytes, next)

/-- `ImportMMessageField`: the items' bytes. -/
def importMMessageField (inp : Input) (nameLength eLength itemSize readOffset : Nat) :
    MParse (Nat × List UInt8) := do
  let numItems := eLength / itemSize
  let _ ← allocMMessageField guarded nameLength numItems itemSize
  orStop (numItems * itemSize ≤ eLength) .outsideField
  let bytes ← mFetch inp readOffset (numItems * itemSize)
  return (numItems, bytes)

/-- The name that a fixed-size field gets: its last byte is overwritten with a NUL. -/
def importedName (nameBytes : List UInt8) : List UInt8 := nameBytes.dropLast ++ [0]

/-- The field that a fixed-size type code is imported as. -/
def importFixed (inp : Input) (nameLength eLength readOffset : Nat) (cls : ArrayClass) :
    MParse MMData :=
  match cls with
  | .bool => do
    let (_, bytes) ← importMMessageField guarded inp nameLength eLength 1 readOffset
    return .bool bytes
  | .prim t => do
    let (numItems, bytes) ← importMMessageField guarded inp nameLength eLength t.size readOffset
    return .prim t (t.codec.decodeAll numItems bytes)
  | .pointer => do
    let (numItems, bytes) ← importMMessageField guarded inp nameLength eLength 4 readOffset
    return .prim .int32 (PrimType.int32.codec.decodeAll numItems bytes)
  | .point => do
    let (numItems, bytes) ← importMMessageField guarded inp nameLength eLength 8 readOffset
    return .point (Point.codec.decodeAll numItems bytes)
  | .rect => do
    let (numItems, bytes) ← importMMessageField guarded inp nameLength eLength 16 readOffset
    return .rect (Rect.codec.decodeAll numItems bytes)
  | _ => .error .bError

/-- The field is removed after an error, and all its item slots are freed. -/
def removeAndFail {α : Type} (dataSize numItems : Nat) : MParse α := do
  orStop (slotsInside dataSize numItems) .outsideStorage
  .error .bError

/-- The loop over the items of a variable-size field that ends at `fieldEnd`. `slot` counts the
items read, and `eLeft` is the source's count of the bytes left. -/
def blobItems (inp : Input) (dataSize numItems fieldEnd : Nat) :
    Nat → Nat → Nat → Nat → MParse (List (List UInt8))
  | 0, _, _, _ => .ok []
  | count + 1, slot, eOffset, eLeft => do
    guardThat guarded (eOffset + 4 < 2 ^ 32)
    let off := (eOffset + 4) % 2 ^ 32
    if off > inp.numBytes then removeAndFail dataSize numItems
    else do
      let word ← mFetch inp eOffset 4
      guardThat guarded (eOffset + 4 ≤ fieldEnd)
      orStop (eOffset + 4 ≤ fieldEnd) .outsideField
      let itemSize := leNat word
      if itemSize + 4 ≤ eLeft then do
        orStop (slotsInside dataSize (slot + 1)) .outsideStorage
        guardThat guarded (off + itemSize ≤ fieldEnd)
        let bytes ← mFetch inp off itemSize
        orStop (off + itemSize ≤ fieldEnd) .outsideField
        let rest ← blobItems inp dataSize numItems fieldEnd count (slot + 1) (off + itemSize)
          (eLeft - (itemSize + 4))
        return bytes :: rest
      else removeAndFail dataSize numItems

/-- The import of a variable-size field: the item count, `PutMMVariableFieldAux` and the items. -/
def importBlobs (inp : Input) (nameOffset readOffset eLength : Nat) :
    MParse (CStr × List (List UInt8)) := do
  let (numItems, eOffset) ← mReadUint32 guarded inp readOffset
  guardThat guarded ((0 : UInt8) ∈ inp.from nameOffset)
  let name ← mFieldName inp nameOffset
  let dataSize ← allocMMessageField guarded name.flattenedSize numItems 8
  let bufs ← blobItems guarded inp dataSize numItems (readOffset + eLength) numItems 0 eOffset eLength
  return (name, bufs)

/-- The clean-up after an error in a Message field frees the temporary list; its last Message never
had its `scratch` set. -/
def cleanUpAndFail {α : Type} (parsed : Bool) : MParse α := do
  guardThat guarded (parsed = false)
  orStop (parsed = false) .wildPointer
  .error .bError

variable (parseMessage : Input → MParse MMessage) (fuel : Nat)

/-- One iteration of the loop over the items of a Message field: the Message and the offset behind
it. -/
def mmMessageItem (inp : Input) (fieldEnd : Nat) (parsed : Bool) (eOffset : Nat) :
    MParse (MMessage × Nat) := do
  guardThat guarded (eOffset + 4 < 2 ^ 32)
  let off := (eOffset + 4) % 2 ^ 32
  if off > inp.numBytes then cleanUpAndFail guarded parsed
  else do
    let word ← mFetch inp eOffset 4
    guardThat guarded (eOffset + 4 ≤ fieldEnd)
    orStop (eOffset + 4 ≤ fieldEnd) .outsideField
    let entryLen := leNat word
    if (off + entryLen) % 2 ^ 32 ≤ inp.numBytes then do
      guardThat guarded (off + entryLen ≤ fieldEnd)
      orStop (off + entryLen ≤ fieldEnd) .outsideField
      onError (parseMessage (inp.sub off entryLen)) (cleanUpAndFail guarded parsed) fun newMsg =>
        .ok (newMsg, off + entryLen)
    else cleanUpAndFail guarded parsed

/-- The loop over the items of a Message field that starts at `readOffset`, for at most `fuel`
iterations. `eUsed` is `eOffset - readOffset`; `parsed` says whether the temporary list holds a
Message. -/
def mmMessageItems (inp : Input) (readOffset eLength : Nat) :
    Nat → Bool → Nat → MParse (List MMessage)
  | 0, _, eOffset => if eOffset - readOffset < eLength then .error .outOfFuel else .ok []
  | fuel + 1, parsed, eOffset =>
    if eOffset - readOffset < eLength then do
      let (newMsg, eOffset) ← mmMessageItem guarded parseMessage inp (readOffset + eLength) parsed
        eOffset
      let rest ← mmMessageItems inp readOffset eLength fuel true eOffset
      return newMsg :: rest
    else .ok []

/-- `MMPutMessageField` and the assignment of the items. -/
def putMessages (inp : Input) (nameOffset : Nat) (newMsgs : List MMessage) :
    MParse (CStr × List MMessage) := do
  guardThat guarded ((0 : UInt8) ∈ inp.from nameOffset)
  let name ← mFieldName inp nameOffset
  let dataSize ← allocMMessageField guarded name.flattenedSize newMsgs.length 8
  orStop (slotsInside dataSize newMsgs.length) .outsideStorage
  return (name, newMsgs)

/-- The import of a Message field. After an error the source removes a field of that name. -/
def importMessages (inp : Input) (fields : List MMField) (nameOffset readOffset eLength : Nat) :
    MParse (CStr × List MMessage) :=
  onError (mmMessageItems guarded parseMessage inp readOffset eLength fuel false readOffset)
    (do
      guardThat guarded (lookupStays inp nameOffset fields)
      orStop (lookupStays inp nameOffset fields) .outsideInput
      .error .bError)
    fun newMsgs => putMessages guarded inp nameOffset newMsgs

/-- How `MMUnflattenMessage` imports a field of a type code. -/
inductive ImportClass where
  | fixed (cls : ArrayClass)
  | message
  | blob (tc : BlobTypeCode)

/-- The `switch` of `MMUnflattenMessage`. -/
def importClass (tc : UInt32) : ImportClass :=
  if tc = B_MESSAGE_TYPE then .message
  else if h : isTypeCodeVariableSize tc = true ∧ tc ≠ B_MESSAGE_TYPE then .blob ⟨tc, h.1, h.2⟩
  else .fixed (arrayClass tc)

/-- The field list after one field was imported. -/
def importField (inp : Input) (fields : List MMField) (nameOffset nameLength readOffset eLength : Nat) :
    ImportClass → MParse (List MMField)
  | .fixed cls => do
    let data ← importFixed guarded inp nameLength eLength readOffset cls
    let nameBytes ← mFetch inp nameOffset nameLength
    return fields ++ [(importedName nameBytes, data)]
  | .message => do
    let (name, newMsgs) ← importMessages guarded parseMessage fuel inp fields nameOffset readOffset
      eLength
    return mmRemoveField fields name ++ [(name.flatten, .message (newMsgs.map some))]
  | .blob tc => do
    let (name, bufs) ← importBlobs guarded inp nameOffset readOffset eLength
    return mmRemoveField fields name ++ [(name.flatten, .blob tc (bufs.map some))]

/-- One iteration of the entry loop of `MMUnflattenMessage`. -/
def mmUnflattenEntry (inp : Input) (fields : List MMField) (readOffset : Nat) :
    MParse (List MMField × Nat) := do
  let (nameLength, nameOffset) ← mReadUint32 guarded inp readOffset
  if nameLength > inp.numBytes - nameOffset then .error .bError
  else do
    let (tc, off) ← mReadUint32 guarded inp (nameOffset + nameLength)
    let (eLength, off) ← mReadUint32 guarded inp off
    if eLength > inp.numBytes - off then .error .bError
    else do
      let fields ← importField guarded parseMessage fuel inp fields nameOffset nameLength off eLength
        (importClass (.ofNat tc))
      return (fields, off + eLength)

/-- The entry loop of `MMUnflattenMessage`. -/
def mmUnflattenEntries (inp : Input) : Nat → List MMField → Nat → MParse (List MMField)
  | 0, fields, _ => .ok fields
  | numEntries + 1, fields, readOffset => do
    let (fields, off) ← mmUnflattenEntry guarded parseMessage fuel inp fields readOffset
    mmUnflattenEntries inp numEntries fields off

/-- The header: `what`, the number of entries, and the offset behind it. -/
def mmReadHeader (inp : Input) : MParse (UInt32 × Nat × Nat) := do
  let (messageProtocolVersion, off) ← mReadUint32 guarded inp 0
  if messageProtocolVersion < OLDEST_SUPPORTED_PROTOCOL_VERSION ∨
      messageProtocolVersion > CURRENT_PROTOCOL_VERSION then .error .bError
  else do
    let (what, off) ← mReadUint32 guarded inp off
    let (numEntries, off) ← mReadUint32 guarded inp off
    return (.ofNat what, numEntries, off)

end

/-- `MMUnflattenMessage`, for at most `fuel` levels of nesting and iterations of each loop over the
items of a Message field. -/
def MMessage.unflatten (guarded : Bool) : Nat → Input → MParse MMessage
  | 0, _ => .error .outOfFuel
  | fuel + 1, inp => do
    let (what, numEntries, off) ← mmReadHeader guarded inp
    let fields ← mmUnflattenEntries guarded (MMessage.unflatten guarded fuel) fuel inp numEntries []
      off
    return .mk what fields

/-- `MMUnflattenMessage` on a received buffer, as the source computes it. -/
def MMessage.receive (fuel : Nat) (received : List UInt8) : MParse MMessage :=
  MMessage.unflatten false fuel ⟨received, 0, received.length⟩

end BeShare.Muscle
