import BeShare.Message.Fields

/-!
The filters that examine a message, and the messages they are archived in: `SaveToArchive`, `SetFromArchive` and
`Matches` of each class. The node that a filter is given besides is looked at by none of them.
-/

namespace BeShare.Muscle.Filters

/-! ### The filters -/

/-- `ByteBuffer`: bytes, and whether there is memory for them. An empty buffer that was cleared keeps its memory. -/
structure ByteBuffer where
  bytes : List UInt8
  hasMemory : Bool
  counted : bytes.length < 2 ^ 32
  held : bytes ≠ [] → hasMemory = true
deriving DecidableEq

/-- The classes that are made from `NumericQueryFilter`. -/
inductive NumericClass where
  | bool | double | float | int64 | int32 | int16 | int8 | point | rect
deriving DecidableEq

namespace NumericClass

/-- `DataType` -/
def dataType : NumericClass → FieldType
  | bool => .bool
  | double => .prim .double
  | float => .prim .float
  | int64 => .prim .int64
  | int32 => .prim .int32
  | int16 => .prim .int16
  | int8 => .prim .int8
  | point => .point
  | rect => .point

/-- The type of `DataTypeCode`: a rectangle is compared with a point. -/
def fieldType : NumericClass → FieldType
  | bool => .bool
  | double => .prim .double
  | float => .prim .float
  | int64 => .prim .int64
  | int32 => .prim .int32
  | int16 => .prim .int16
  | int8 => .prim .int8
  | point => .point
  | rect => .rect

/-- An item of the field where a `DataType` is read. -/
def view : (c : NumericClass) → c.fieldType.Item → c.dataType.Item
  | bool, item => item
  | double, item => item
  | float, item => item
  | int64, item => item
  | int32, item => item
  | int16, item => item
  | int8, item => item
  | point, item => item
  | rect, item =>
    let item : Rect := item
    (⟨item.left, item.top⟩ : Point)

/-- A `DataType` where an item of the field is read. -/
def data : (c : NumericClass) → c.dataType.Item → c.fieldType.Item
  | bool, value => value
  | double, value => value
  | float, value => value
  | int64, value => value
  | int32, value => value
  | int16, value => value
  | int8, value => value
  | point, value => value
  | rect, value =>
    -- What is in memory behind the point is never read.
    let value : Point := value
    (⟨value.x, value.y, 0, 0⟩ : Rect)

end NumericClass

inductive FilterClass where
  | whatCode
  | valueExists
  | numeric (c : NumericClass)
  | string
  | message
  | rawData
  | nandNot
  | andOr
  | xor
deriving DecidableEq

/-- `TypeCode` -/
def FilterClass.typeCode : FilterClass → UInt32
  | whatCode => 1902537776
  | valueExists => 1902537777
  | numeric .bool => 1902537778
  | numeric .double => 1902537779
  | numeric .float => 1902537780
  | numeric .int64 => 1902537781
  | numeric .int32 => 1902537782
  | numeric .int16 => 1902537783
  | numeric .int8 => 1902537784
  | numeric .point => 1902537785
  | numeric .rect => 1902537786
  | string => 1902537787
  | message => 1902537788
  | rawData => 1902537789
  | nandNot => 1902537790
  | andOr => 1902537791
  | xor => 1902537792

/-- Which class `CreateQueryFilter` makes for a type code. -/
def FilterClass.ofTypeCode (typeCode : UInt32) : Option FilterClass :=
  [whatCode, valueExists, numeric .bool, numeric .double, numeric .float, numeric .int64, numeric .int32,
    numeric .int16,
    numeric .int8, numeric .point, numeric .rect, string, message, rawData, nandNot, andOr, xor].find?
      fun c => c.typeCode = typeCode

theorem FilterClass.ofTypeCode_typeCode (c : FilterClass) : ofTypeCode c.typeCode = some c := by
  cases c with
  | numeric c => cases c <;> decide
  | _ => decide

/-- `ValueQueryFilter` -/
structure ValueQueryFilter where
  fieldName : CStr
  index : UInt32
deriving DecidableEq

/-- Every class of `QueryFilter`. The children of `MultiQueryFilter`s are not `NULL`. -/
inductive QueryFilter where
  | whatCode (minWhatCode maxWhatCode : UInt32)
  | valueExists (v : ValueQueryFilter) (typeCode : UInt32)
  | numeric (c : NumericClass) (v : ValueQueryFilter) (op : UInt8) (value : c.dataType.Item)
  | string (v : ValueQueryFilter) (op : UInt8) (value : CStr)
  | message (v : ValueQueryFilter) (childFilter : Option QueryFilter)
  | rawData (v : ValueQueryFilter) (op : UInt8) (value : Option ByteBuffer) (typeCode : UInt32)
  | nandNot (children : List QueryFilter) (maxMatches : UInt32)
  | andOr (children : List QueryFilter) (minMatches : UInt32)
  | xor (children : List QueryFilter)

def QueryFilter.filterClass : QueryFilter → FilterClass
  | whatCode .. => .whatCode
  | valueExists .. => .valueExists
  | numeric c .. => .numeric c
  | string .. => .string
  | message .. => .message
  | rawData .. => .rawData
  | nandNot .. => .nandNot
  | andOr .. => .andOr
  | xor .. => .xor

/-! ### `SaveToArchive` -/

/-- The names of the fields. -/
def minField : CStr := .ofBytes [109, 105, 110]
def maxField : CStr := .ofBytes [109, 97, 120]
def fnField : CStr := .ofBytes [102, 110]
def idxField : CStr := .ofBytes [105, 100, 120]
def typeField : CStr := .ofBytes [116, 121, 112, 101]
def kidField : CStr := .ofBytes [107, 105, 100]
def opField : CStr := .ofBytes [111, 112]
def valField : CStr := .ofBytes [118, 97, 108]

theorem raw_not_class : B_RAW_TYPE ∉ classTypeCodes := by decide

def rawType : FieldType := .raw ⟨B_RAW_TYPE, raw_not_class⟩

/-- `QueryFilter::SaveToArchive` -/
def saveTypeCode (c : FilterClass) (archive : Message) : Message × Bool :=
  (.mk c.typeCode archive.entries, true)

/-- `ValueQueryFilter::SaveToArchive` -/
def ValueQueryFilter.saveToArchive (v : ValueQueryFilter) (c : FilterClass) (archive : Message) : Message × Bool :=
  Message.andThen (saveTypeCode c archive) fun archive =>
  Message.andThen (archive.addString fnField v.fieldName) fun archive =>
  if v.index = 0 then (archive, true) else archive.addInt32 idxField v.index

/-- The bytes of a raw value are left out if there are none. -/
def saveBytes (value : Option ByteBuffer) (archive : Message) : Message × Bool :=
  match value with
  | some bb =>
    if bb.hasMemory ∧ 0 < UInt32.ofNat bb.bytes.length then
      archive.addDataAux valField rawType (fun _ => some bb.bytes) (UInt32.ofNat bb.bytes.length)
    else (archive, true)
  | none => (archive, true)

namespace QueryFilter

mutual

def saveToArchive : QueryFilter → Message → Message × Bool
  | whatCode minWhatCode maxWhatCode, archive =>
    Message.andThen (saveTypeCode .whatCode archive) fun archive =>
    Message.andThen (archive.addInt32 minField minWhatCode) fun archive =>
    if maxWhatCode = minWhatCode then (archive, true) else archive.addInt32 maxField maxWhatCode
  | valueExists v typeCode, archive =>
    Message.andThen (v.saveToArchive .valueExists archive) fun archive =>
    if typeCode = B_ANY_TYPE then (archive, true) else archive.addInt32 typeField typeCode
  | numeric c v op value, archive =>
    Message.andThen (v.saveToArchive (.numeric c) archive) fun archive =>
    Message.andThen (archive.addInt8 opField op) fun archive =>
    archive.addDataAux valField c.fieldType (fun _ => c.data value) c.dataType.elementSize
  | string v op value, archive =>
    Message.andThen (v.saveToArchive .string archive) fun archive =>
    Message.andThen (archive.addString valField value) fun archive =>
    archive.addInt8 opField op
  | message v none, archive => ((v.saveToArchive .message archive).1, true)
  | message v (some childFilter), archive =>
    let saved := v.saveToArchive .message archive
    -- If this fails, nothing is said about it.
    if saved.2 = false then (saved.1, true)
    else
      let subMsg := childFilter.saveToArchive (.mk 0 [])
      if subMsg.2 then saved.1.addItem kidField .message (some subMsg.1) else (saved.1, false)
  | rawData v op value typeCode, archive =>
    Message.andThen (v.saveToArchive .rawData archive) fun archive =>
    Message.andThen (archive.addInt8 opField op) fun archive =>
    Message.andThen (if typeCode = B_ANY_TYPE then (archive, true) else archive.addInt32 typeField typeCode)
      fun archive =>
    saveBytes value archive
  | nandNot children maxMatches, archive =>
    Message.andThen (saveTypeCode .nandNot archive) fun archive =>
    Message.andThen (saveChildren children archive) fun archive =>
    if maxMatches = 0 then (archive, true) else archive.addInt32 maxField maxMatches
  | andOr children minMatches, archive =>
    Message.andThen (saveTypeCode .andOr archive) fun archive =>
    Message.andThen (saveChildren children archive) fun archive =>
    if minMatches = 0xffffffff then (archive, true) else archive.addInt32 minField minMatches
  | xor children, archive =>
    Message.andThen (saveTypeCode .xor archive) fun archive =>
    saveChildren children archive

/-- The loop of `MultiQueryFilter::SaveToArchive`. -/
def saveChildren : List QueryFilter → Message → Message × Bool
  | [], archive => (archive, true)
  | child :: children, archive =>
    let nextMsg := child.saveToArchive (.mk 0 [])
    if nextMsg.2 then
      Message.andThen (archive.addItem kidField .message (some nextMsg.1)) fun archive => saveChildren children archive
    else (archive, false)

end

end QueryFilter

/-! ### `SetFromArchive` -/

/-- `ValueQueryFilter::SetFromArchive` -/
def ValueQueryFilter.setFromArchive (archive : Message) : ValueQueryFilter × Bool :=
  let index := (archive.findInt32 idxField).getD 0
  match archive.findItem fnField .string 0 with
  | some fieldName => (⟨fieldName, index⟩, true)
  | none => (⟨.empty, index⟩, false)

/-- The children are made from their archives, up to the first that cannot be made. -/
def childrenFromArchive (create : Message → Option QueryFilter) (archive : Message) : Option (List QueryFilter) :=
  ((archive.getArray kidField .message).getD []).mapM fun msg => msg.bind create

/-- The bytes that `FindData` gives: a buffer without bytes is taken for one without memory. -/
def bytesFromArchive (archive : Message) : Option ByteBuffer :=
  match archive.findItem valField rawType 0 with
  | some (some bytes) =>
    if h : bytes ≠ [] ∧ bytes.length < 2 ^ 32 then some ⟨bytes, true, h.2, fun _ => rfl⟩ else none
  | _ => none

/-- `SetFromArchive` of a filter that was just made. `create` makes the children. -/
def setFromArchive (create : Message → Option QueryFilter) (archive : Message) : FilterClass → Option QueryFilter
  | .whatCode =>
    (archive.findInt32 minField).map fun minWhatCode =>
      .whatCode minWhatCode ((archive.findInt32 maxField).getD minWhatCode)
  | .valueExists =>
    let v := ValueQueryFilter.setFromArchive archive
    if v.2 then some (.valueExists v.1 ((archive.findInt32 typeField).getD B_ANY_TYPE)) else none
  | .numeric c =>
    let v := ValueQueryFilter.setFromArchive archive
    if v.2 then
      (archive.findInt8 opField).bind fun op =>
        (archive.findItem valField c.fieldType 0).bind fun item =>
          if c.fieldType.elementSize = c.dataType.elementSize then some (.numeric c v.1 op (c.view item)) else none
    else none
  | .string =>
    let v := ValueQueryFilter.setFromArchive archive
    if v.2 then
      (archive.findItem valField .string 0).bind fun value =>
        (archive.findInt8 opField).map fun op => .string v.1 op value
    else none
  | .message =>
    let v := ValueQueryFilter.setFromArchive archive
    -- A filter without a field name is made, too.
    if v.2 = false then some (.message v.1 none)
    else
      match archive.findItem kidField .message 0 with
      | some subMsg => (subMsg.bind create).map fun childFilter => .message v.1 (some childFilter)
      | none => some (.message v.1 none)
  | .rawData =>
    let v := ValueQueryFilter.setFromArchive archive
    if v.2 then
      (archive.findInt8 opField).map fun op =>
        .rawData v.1 op (bytesFromArchive archive) ((archive.findInt32 typeField).getD B_ANY_TYPE)
    else none
  | .nandNot =>
    (childrenFromArchive create archive).map fun children =>
      .nandNot children ((archive.findInt32 maxField).getD 0)
  | .andOr =>
    (childrenFromArchive create archive).map fun children =>
      .andOr children ((archive.findInt32 minField).getD 0xffffffff)
  | .xor => (childrenFromArchive create archive).map .xor

/-- `CreateQueryFilter`, as deep as there is fuel. -/
def createQueryFilter : (fuel : Nat) → Message → Option QueryFilter
  | 0, _ => none
  | fuel + 1, msg => (FilterClass.ofTypeCode msg.what).bind (setFromArchive (createQueryFilter fuel) msg)

/-! ### `Matches` -/

/-- How values of a type compare. `>` and `>=` are `<` and `<=` the other way round, and `!=` is the negation of
`==`. -/
structure Comparison (α : Type) where
  equal : α → α → Bool
  less : α → α → Bool
  lessOrEqual : α → α → Bool

/-- What the filters use that is not in the messages: floating-point comparison, the locale, the matchers of patterns,
and what the first item of a field looks like in memory. -/
structure Platform where
  float : Comparison (BitVec 32)
  double : Comparison (BitVec 64)
  toLower : UInt8 → UInt8
  stringMatcher : (isSimple : Bool) → (pattern s : CStr) → Bool
  memory : (typeCode : UInt32) → DataArray → Option (List UInt8)

namespace Comparison

def signed {w : Nat} : Comparison (BitVec w) := ⟨fun a b => a == b, BitVec.slt, BitVec.sle⟩

def bool : Comparison Bool := ⟨fun a b => a == b, fun a b => !a && b, fun a b => !a || b⟩

/-- `Tuple`: the first coordinates that differ count. -/
def point (float : Comparison (BitVec 32)) : Comparison Point where
  equal a b := float.equal a.x b.x && float.equal a.y b.y
  less a b := lexLess a b
  lessOrEqual a b := !lexLess b a
where
  lexLess (a b : Point) : Bool :=
    if float.less a.x b.x then true
    else if float.less b.x a.x then false
    else float.less a.y b.y

end Comparison

def NumericClass.comparison (p : Platform) : (c : NumericClass) → Comparison c.dataType.Item
  | bool => .bool
  | double => p.double
  | float => p.float
  | int64 => .signed
  | int32 => .signed
  | int16 => .signed
  | int8 => .signed
  | point => .point p.float
  | rect => .point p.float

/-- The `switch` of `NumericQueryFilter::Matches`. -/
def numericOp {α : Type} (c : Comparison α) (op : UInt8) (his mine : α) : Bool :=
  match op.toNat with
  | 0 => c.equal his mine
  | 1 => c.less his mine
  | 2 => c.less mine his
  | 3 => c.lessOrEqual his mine
  | 4 => c.lessOrEqual mine his
  | 5 => !c.equal his mine
  | _ => false

/-- `strcmp` -/
def strcmp : List UInt8 → List UInt8 → Ordering
  | [], [] => .eq
  | [], _ :: _ => .lt
  | _ :: _, [] => .gt
  | a :: as, b :: bs => (compare a b).then (strcmp as bs)

/-- `IndexOf` finds something. In an empty string it finds nothing, not even an empty one. -/
def indexOf (s str : List UInt8) : Bool :=
  !s.isEmpty && s.tails.any fun tail => str.isPrefixOf tail

/-- The `switch` of `StringQueryFilter::Matches`. Some operators that ignore case do not. -/
def stringOp (p : Platform) (op : UInt8) (s value : CStr) : Bool :=
  let lowerS := s.chars.map p.toLower
  let lowerValue := value.chars.map p.toLower
  match op.toNat with
  | 0 => s.chars == value.chars
  | 1 => strcmp s.chars value.chars == .lt
  | 2 => strcmp s.chars value.chars == .gt
  | 3 => strcmp s.chars value.chars != .gt
  | 4 => strcmp s.chars value.chars != .lt
  | 5 => s.chars != value.chars
  | 6 => value.chars.isPrefixOf s.chars
  | 7 => value.chars.isSuffixOf s.chars
  | 8 => indexOf s.chars value.chars
  | 9 => s.chars.isPrefixOf value.chars
  | 10 => s.chars.isSuffixOf value.chars
  | 11 => indexOf value.chars s.chars
  | 12 => lowerS == lowerValue
  | 13 => strcmp lowerS lowerValue == .lt
  | 14 => strcmp lowerS lowerValue == .gt
  | 15 => strcmp lowerS lowerValue != .gt
  | 16 => strcmp lowerS lowerValue != .lt
  | 17 => lowerS != lowerValue
  | 18 => lowerValue.isPrefixOf lowerS
  | 19 => lowerValue.isSuffixOf lowerS
  | 20 => indexOf lowerS lowerValue
  | 21 => s.chars.isPrefixOf value.chars
  | 22 => s.chars.isSuffixOf value.chars
  | 23 => indexOf value.chars s.chars
  | 24 => p.stringMatcher true value s
  | 25 => p.stringMatcher false value s
  | _ => false

/-- `memcmp` of as many bytes as the shorter one has. -/
def memcmp : List UInt8 → List UInt8 → Ordering
  | a :: as, b :: bs => (compare a b).then (memcmp as bs)
  | _, _ => .eq

/-- `Memmem` is not `NULL`. The pointer it looks in may be. -/
def memmem (lookIn : List UInt8) (hasMemory : Bool) (lookFor : List UInt8) : Bool :=
  if lookFor.length = 0 then hasMemory
  else if lookFor.length = lookIn.length then memcmp lookIn lookFor == .eq
  else if lookFor.length < lookIn.length then
    (List.range (1 + lookIn.length - lookFor.length)).any fun i => memcmp (lookIn.drop i) lookFor == .eq
  else false

/-- `_value() ? _value()->GetBuffer() : 0`, and how many bytes there are. -/
def myBytes (value : Option ByteBuffer) : List UInt8 :=
  (value.map ByteBuffer.bytes).getD []

def myMemory (value : Option ByteBuffer) : Bool :=
  (value.map ByteBuffer.hasMemory).getD false

/-- The `switch` of `RawDataQueryFilter::Matches`. His bytes always have memory. -/
def rawOp (op : UInt8) (his : List UInt8) (value : Option ByteBuffer) : Bool :=
  let mine := myBytes value
  match op.toNat with
  | 0 => his.length == mine.length && memcmp mine his == .eq
  | 1 => memcmp his mine == .lt || memcmp his mine == .eq && decide (his.length < mine.length)
  | 2 => memcmp his mine == .gt || memcmp his mine == .eq && decide (his.length > mine.length)
  | 3 => memcmp his mine != .gt
  | 4 => memcmp his mine != .lt
  | 5 => his.length != mine.length || memcmp mine his != .eq
  | 6 => decide (mine.length ≤ his.length) && memcmp mine his == .eq
  | 7 => decide (mine.length ≤ his.length) && memcmp mine (his.drop (his.length - mine.length)) == .eq
  | 8 => memmem his true mine
  | 9 => decide (his.length ≤ mine.length) && memcmp his mine == .eq
  | 10 => decide (his.length ≤ mine.length) && memcmp his (mine.drop (mine.length - his.length)) == .eq
  | 11 => memmem mine (myMemory value) his
  | _ => false

/-- `FindData` of the first item, as bytes. -/
def findData (p : Platform) (msg : Message) (name : CStr) (typeCode : UInt32) : Option (List UInt8) :=
  (msg.entries.lookup name).bind fun array =>
    if typeCode = B_ANY_TYPE ∨ array.typeCode = typeCode then p.memory typeCode array else none

/-- The loop of `AndOrQueryFilter::Matches` over what the children say. -/
def andOrLoop (threshold : UInt32) : (matchCount : UInt32) → List Bool → Bool
  | _, [] => false
  | matchCount, hit :: hits =>
    if hit then
      if matchCount + 1 = threshold then true else andOrLoop threshold (matchCount + 1) hits
    else andOrLoop threshold matchCount hits

/-- The loop of `NandNotQueryFilter::Matches`. -/
def nandNotLoop (threshold numKids : UInt32) : (matchCount : UInt32) → List Bool → Bool
  | matchCount, [] => matchCount < numKids
  | matchCount, hit :: hits =>
    if hit then
      if matchCount + 1 > threshold then false else nandNotLoop threshold numKids (matchCount + 1) hits
    else nandNotLoop threshold numKids matchCount hits

/-- The loop of `XorQueryFilter::Matches`. -/
def xorLoop (hits : List Bool) : Bool :=
  UInt32.ofNat (hits.count true) % 2 != 0

namespace QueryFilter

mutual

/-- `Matches` -/
def isMatch (p : Platform) : QueryFilter → Message → Bool
  | whatCode minWhatCode maxWhatCode, msg => decide (minWhatCode ≤ msg.what ∧ msg.what ≤ maxWhatCode)
  -- The index is not looked at, nor is it for raw data.
  | valueExists v typeCode, msg => (findData p msg v.fieldName typeCode).isSome
  | numeric c v op value, msg =>
    match msg.findItem v.fieldName c.fieldType v.index.toNat with
    | some item => numericOp (c.comparison p) op (c.view item) value
    | none => false
  | string v op value, msg =>
    match msg.findItem v.fieldName .string v.index.toNat with
    | some s => stringOp p op s value
    | none => false
  | message v none, msg => (msg.findItem v.fieldName .message v.index.toNat).isSome
  | message v (some childFilter), msg =>
    match msg.findItem v.fieldName .message v.index.toNat with
    | some (some subMsg) => childFilter.isMatch p subMsg
    | _ => false
  | rawData v op value typeCode, msg =>
    match findData p msg v.fieldName typeCode with
    | some his => rawOp op his value
    | none => false
  | nandNot children maxMatches, msg =>
    let numKids := UInt32.ofNat children.length
    nandNotLoop (min maxMatches numKids) numKids 0 (childrenMatch p children msg)
  | andOr children minMatches, msg =>
    andOrLoop (min minMatches (UInt32.ofNat children.length)) 0 (childrenMatch p children msg)
  | xor children, msg => xorLoop (childrenMatch p children msg)

/-- Which of the children match. -/
def childrenMatch (p : Platform) : List QueryFilter → Message → List Bool
  | [], _ => []
  | child :: children, msg => child.isMatch p msg :: childrenMatch p children msg

end

end QueryFilter

end BeShare.Muscle.Filters
