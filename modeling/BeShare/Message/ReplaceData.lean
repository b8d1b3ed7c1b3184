import BeShare.Message.Unflatten

/-!
`Message::ReplaceData`: items of a field are replaced by an array of items in memory. Memory is read as the items of the
field's type, at so many bytes from the data pointer on, also behind the array.
-/

namespace BeShare.Muscle

/-- The types of fields whose items can be given as data. `B_ANY_TYPE` is none, and tags are not data. -/
inductive FieldType where
  | bool
  | prim (t : PrimType)
  | point
  | rect
  | string
  | raw (tc : RawTypeCode)
  | message
  | pointer
deriving DecidableEq

namespace FieldType

abbrev Item : FieldType → Type
  | bool => Bool
  | prim t => BitVec (8 * t.size)
  | point => Point
  | rect => Rect
  | string => CStr
  | raw _ => Option (List UInt8)
  | message => Option Message
  | pointer => BitVec 64

def toArray : (τ : FieldType) → List τ.Item → DataArray
  | bool, items => .bool items
  | prim t, items => .prim t items
  | point, items => .point items
  | rect, items => .rect items
  | string, items => .string items
  | raw tc, items => .buffer tc items
  | message, items => .message items
  | pointer, items => .pointer items

/-- The items of an array of this type. -/
def ofArray : (τ : FieldType) → DataArray → Option (List τ.Item)
  | bool, .bool items => some items
  | prim t, .prim t' items => if h : t' = t then some (h ▸ items) else none
  | point, .point items => some items
  | rect, .rect items => some items
  | string, .string items => some items
  | raw tc, .buffer tc' items => if tc' = tc then some items else none
  | message, .message items => some items
  | pointer, .pointer items => some items
  | _, _ => none

/-- `GetElementSize`, where a pointer has eight bytes. Points and rectangles have a table of virtual functions. -/
def elementSize : FieldType → UInt32
  | bool => 1
  | prim t => UInt32.ofNat t.size
  | point => 16
  | rect => 24
  | string => 16
  | raw _ => 0
  | message => 16
  | pointer => 8

@[simp] theorem ofArray_toArray (τ : FieldType) (items : List τ.Item) : τ.ofArray (τ.toArray items) = some items := by
  cases τ <;> simp [toArray, ofArray]

theorem eq_toArray {τ : FieldType} {array : DataArray} {items : List τ.Item} (h : τ.ofArray array = some items) :
    array = τ.toArray items := by
  cases τ <;> cases array <;> simp only [ofArray, toArray, reduceCtorEq] at h ⊢
  case prim.prim t t' items' =>
    split at h
    next hSame =>
      subst hSame
      cases h
      rfl
    next => cases h
  case raw.buffer tc tc' items' =>
    split at h
    next hSame =>
      subst hSame
      cases h
      rfl
    next => cases h
  all_goals exact congrArg _ (Option.some.inj h)

end FieldType

namespace Message

/-! ### The source -/

/-- `GetArray`, with its items. -/
def getArray (m : Message) (name : CStr) (τ : FieldType) : Option (List τ.Item) :=
  (m.entries.lookup name).bind τ.ofArray

/-- `GetOrCreateArray`: a field of another type is in the way. -/
def getOrCreateArray (m : Message) (name : CStr) (τ : FieldType) : Option (List τ.Item) :=
  match m.entries.lookup name with
  | some array => τ.ofArray array
  | none => some []

/-- The field after its items were changed. -/
def withItems (m : Message) (name : CStr) (τ : FieldType) (items : List τ.Item) : Message :=
  .mk m.what (putEntry m.entries name (τ.toArray items))

def addString (m : Message) (name : CStr) (s : CStr) : Message × Bool :=
  match m.getOrCreateArray name .string with
  | some items => (m.withItems name .string (items ++ [s]), true)
  | none => (m, false)

def replaceString (okayToAdd : Bool) (m : Message) (name : CStr) (index : UInt32) (s : CStr) : Message × Bool :=
  match m.getArray name .string with
  | some items =>
    if okayToAdd ∧ items.length ≤ index.toNat then m.addString name s
    else if index.toNat < items.length then (m.withItems name .string (items.set index.toNat s), true)
    else (m, false)
  | none => if okayToAdd then m.addString name s else (m, false)

/-- How many bytes an item takes, and how many items there are, if no part of one is left over. -/
def dataElements (τ : FieldType) (numBytes : UInt32) : Option (UInt32 × UInt32) :=
  let elementSize := if τ.elementSize = 0 then numBytes else τ.elementSize
  if elementSize = 0 ∨ numBytes % elementSize ≠ 0 then none else some (elementSize, numBytes / elementSize)

/-- `AddDataAux`, at the end. Strings come with the length of their memory, which is not looked at. -/
def addDataAux (m : Message) (name : CStr) (τ : FieldType) (element : Nat → τ.Item) (numBytes : UInt32) :
    Message × Bool :=
  if numBytes = 0 then (m, false)
  else
    match dataElements τ numBytes, m.getOrCreateArray name τ with
    | some (elementSize, numElements), some items =>
      (m.withItems name τ (items ++ (List.range numElements.toNat).map fun i => element (i * elementSize.toNat)), true)
    | _, _ => (m, false)

/-- The loop of `ReplaceData`: where to read is counted in 32 bits, from the index on. -/
def replaceLoop {α : Type} (element : Nat → α) (elementSize : UInt32) : Nat → UInt32 → List α → List α × Bool
  | 0, _, items => (items, true)
  | numLeft + 1, i, items =>
    if i.toNat < items.length then
      replaceLoop element elementSize numLeft (i + 1) (items.set i.toNat (element (i * elementSize).toNat))
    else (items, false)

/-- `ReplaceData` -/
def replaceData (okayToAdd : Bool) (m : Message) (name : CStr) : (τ : FieldType) → (index : UInt32) →
    (element : Nat → τ.Item) → (numBytes : UInt32) → Message × Bool
  | .string, index, element, _ => replaceString okayToAdd m name index (element 0)
  | τ, index, element, numBytes =>
    match m.getArray name τ with
    | some items =>
      if okayToAdd ∧ items.length ≤ index.toNat then m.addDataAux name τ element numBytes
      else
        match dataElements τ numBytes with
        | some (elementSize, numElements) =>
          let result := replaceLoop element elementSize ((index + numElements).toNat - index.toNat) index items
          (m.withItems name τ result.1, result.2)
        | none => (m, false)
    | none => if okayToAdd then m.addDataAux name τ element numBytes else (m, false)

/-! ### What it is for -/

/-- How many items the data are: a string is one, and with a part of an item left over they are none. -/
def numElements : FieldType → UInt32 → Nat
  | .string, _ => 1
  | τ, numBytes => ((dataElements τ numBytes).map fun data => data.2.toNat).getD 0

/-- How many bytes are between the items of the data. -/
def stride (τ : FieldType) (numBytes : UInt32) : UInt32 :=
  ((dataElements τ numBytes).map Prod.fst).getD 0

/-- An item of the array that is given. -/
def given {τ : FieldType} (element : Nat → τ.Item) (numBytes : UInt32) (k : Nat) : τ.Item :=
  element (k * (stride τ numBytes).toNat)

/-- If it succeeds, the items from the index on are the ones that are given, and all others what they were. If it fails,
the field is what it was. -/
structure Replaced (m : Message) (name : CStr) (τ : FieldType) (index numElements : Nat) (given : Nat → τ.Item)
    (result : Message × Bool) : Prop where
  written : result.2 = true → ∀ k < numElements,
    ((result.1.getArray name τ).getD [])[index + k]? = some (given k)
  others : result.2 = true → ∀ j, j < index ∨ index + numElements ≤ j →
    ((result.1.getArray name τ).getD [])[j]? = ((m.getArray name τ).getD [])[j]?
  failed : result.2 = false → result.1.entries.lookup name = m.entries.lookup name

/-- What is added is added at the index, if anything is. What is replaced is replaced by what memory holds at the places
that are read: the items that are given if there are as many, else the items that are there already. -/
def ReplaceFits (okayToAdd : Bool) (m : Message) (name : CStr) (τ : FieldType) (index : UInt32) (element : Nat → τ.Item)
    (numBytes : UInt32) : Prop :=
  let items := (m.getArray name τ).getD []
  let n := numElements τ numBytes
  if okayToAdd ∧ items.length ≤ index.toNat then
    index.toNat = items.length ∨ n = 0 ∨ m.getOrCreateArray name τ = none
  else
    τ = .string ∨ n = 0 ∨ m.getArray name τ = none ∨
      index.toNat + n < 2 ^ 32 ∧ ∀ k < n, ∀ h : index.toNat + k < items.length,
        element ((index.toNat + k) * (stride τ numBytes).toNat % 2 ^ 32) =
          if index.toNat + n ≤ items.length then given element numBytes k else items.get ⟨index.toNat + k, h⟩

/-! ### The loop -/

theorem replaceLoop_spec {α : Type} (element : Nat → α) (elementSize : UInt32) (numLeft : Nat) (i : UInt32)
    (items : List α) (hIndex : i.toNat + numLeft < 2 ^ 32) :
    (replaceLoop element elementSize numLeft i items).1.length = items.length ∧
      ((replaceLoop element elementSize numLeft i items).2 = true ↔ numLeft = 0 ∨ i.toNat + numLeft ≤ items.length) ∧
      ∀ j, (replaceLoop element elementSize numLeft i items).1[j]? =
        if i.toNat ≤ j ∧ j < i.toNat + numLeft ∧ j < items.length then
          some (element (j * elementSize.toNat % 2 ^ 32))
        else items[j]? := by
  induction numLeft generalizing i items with
  | zero =>
    refine ⟨rfl, iff_of_true rfl (.inl rfl), fun j => ?_⟩
    rw [if_neg (by omega)]
    rfl
  | succ numLeft ih =>
    unfold replaceLoop
    split
    next hThere =>
      have hNext : (i + 1).toNat = i.toNat + 1 := by
        rw [UInt32.toNat_add]
        show (i.toNat + 1) % 2 ^ 32 = i.toNat + 1
        omega
      obtain ⟨hLength, hDone, hItems⟩ := ih (i + 1) (items.set i.toNat (element (i * elementSize).toNat)) (by omega)
      rw [hNext, List.length_set] at *
      refine ⟨hLength, hDone.trans (by omega), fun j => ?_⟩
      rw [hItems j, List.getElem?_set]
      by_cases hj : i.toNat = j
      · subst hj
        rw [if_neg (by omega), if_pos rfl, if_pos hThere, if_pos (by omega), UInt32.toNat_mul]
      · rw [if_neg hj]
        by_cases hIn : i.toNat + 1 ≤ j ∧ j < i.toNat + 1 + numLeft ∧ j < items.length
        · rw [if_pos hIn, if_pos (by omega)]
        · rw [if_neg hIn, if_neg (by omega)]
    next hNone =>
      refine ⟨rfl, iff_of_false Bool.false_ne_true (by omega), fun j => ?_⟩
      rw [if_neg (by omega)]

/-! ### Fields -/

theorem lookup_putEntry (entries : List (CStr × DataArray)) (name : CStr) (array : DataArray) :
    (putEntry entries name array).lookup name = some array := by
  unfold putEntry
  split
  next hThere =>
    induction entries with
    | nil => cases hThere
    | cons e entries ih =>
      obtain ⟨key, value⟩ := e
      rw [List.map_cons]
      by_cases hKey : key = name
      · rw [if_pos hKey]
        exact List.lookup_cons_self
      · rw [if_neg hKey]
        have hOther : (name == key) = false := beq_false_of_ne (Ne.symm hKey)
        rw [List.lookup_cons, hOther] at hThere ⊢
        exact ih hThere
  next hNone =>
    rw [List.lookup_append, Option.not_isSome_iff_eq_none.mp hNone]
    exact List.lookup_cons_self

@[simp] theorem getArray_withItems (m : Message) (name : CStr) (τ : FieldType) (items : List τ.Item) :
    (m.withItems name τ items).getArray name τ = some items := by
  unfold getArray withItems
  rw [entries_mk, lookup_putEntry]
  exact τ.ofArray_toArray items

variable {m : Message} {name : CStr} {τ : FieldType} {index : UInt32} {n : Nat} {given : Nat → τ.Item}
  {items : List τ.Item}

theorem replaced_failed : Replaced m name τ index.toNat n given (m, false) :=
  ⟨fun hNo => absurd hNo Bool.false_ne_true, fun hNo => absurd hNo Bool.false_ne_true, fun _ => rfl⟩

theorem items_of_getOrCreateArray (h : m.getOrCreateArray name τ = some items) :
    (m.getArray name τ).getD [] = items := by
  unfold getOrCreateArray at h
  unfold getArray
  split at h
  next array hLookup =>
    rw [hLookup, Option.bind_some, h]
    rfl
  next hLookup =>
    cases h
    rw [hLookup]
    rfl

/-- Items that are added at the end are where they should be if the end is where they should be. -/
theorem replaced_added_iff (h : m.getOrCreateArray name τ = some items) (hEnd : items.length ≤ index.toNat)
    (hSome : 0 < n) : Replaced m name τ index.toNat n given
      (m.withItems name τ (items ++ (List.range n).map given), true) ↔ index.toNat = items.length := by
  have hItems := items_of_getOrCreateArray h
  constructor
  · intro hReplaced
    by_contra hBehind
    have hOther := hReplaced.others rfl items.length (.inl (by omega))
    rw [getArray_withItems, hItems, Option.getD_some, List.getElem?_append_right (Nat.le_refl _),
      List.getElem?_eq_none (Nat.le_refl _), List.getElem?_eq_none_iff] at hOther
    rw [List.length_map, List.length_range] at hOther
    omega
  · intro hHere
    refine ⟨fun _ k hk => ?_, fun _ j hj => ?_, fun hNo => absurd hNo.symm Bool.false_ne_true⟩
    · rw [getArray_withItems, Option.getD_some, hHere, List.getElem?_append_right (Nat.le_add_right ..),
        Nat.add_sub_cancel_left, List.getElem?_map, List.getElem?_range hk]
      rfl
    · rw [getArray_withItems, Option.getD_some, hItems]
      rcases hj with hBefore | hBehind
      · exact List.getElem?_append_left (by omega)
      · rw [List.getElem?_eq_none (by simp; omega), List.getElem?_eq_none (by omega)]

/-- Items that a loop has replaced, as far as there are any, by others. -/
theorem replaced_inPlace_iff {items' : List τ.Item} {done : Bool} {other : Nat → τ.Item}
    (h : m.getArray name τ = some items)
    (hDone : done = true ↔ index.toNat + n ≤ items.length)
    (hItems : ∀ j, items'[j]? =
      if index.toNat ≤ j ∧ j < index.toNat + n ∧ j < items.length then some (other j) else items[j]?) :
    Replaced m name τ index.toNat n given (m.withItems name τ items', done) ↔
      ∀ k < n, ∀ h : index.toNat + k < items.length, other (index.toNat + k) =
        if index.toNat + n ≤ items.length then given k else items.get ⟨index.toNat + k, h⟩ := by
  have hArray : (m.getArray name τ).getD [] = items := by rw [h, Option.getD_some]
  have hAt : ∀ k < n, index.toNat + k < items.length → items'[index.toNat + k]? = some (other (index.toNat + k)) :=
    fun k hk hIn => (hItems _).trans (if_pos ⟨by omega, by omega, hIn⟩)
  constructor
  · intro hReplaced k hk hIn
    split
    next hAll =>
      have hWritten := hReplaced.written (hDone.mpr hAll) k hk
      rw [getArray_withItems, Option.getD_some, hAt k hk hIn] at hWritten
      exact Option.some.inj hWritten
    next hNotAll =>
      have hFailed := hReplaced.failed (Bool.eq_false_iff.mpr fun hYes => hNotAll (hDone.mp hYes))
      have hSame : items' = items := by
        have hGet := congrArg (fun found => found.bind τ.ofArray) hFailed
        have hNew := getArray_withItems m name τ items'
        unfold getArray at hNew h
        exact Option.some.inj (hNew.symm.trans (hGet.trans h))
      have hGet := hAt k hk hIn
      rw [hSame, List.getElem?_eq_getElem hIn] at hGet
      exact (Option.some.inj hGet).symm
  · intro hOther
    refine ⟨fun hYes k hk => ?_, fun hYes j hj => ?_, fun hNo => ?_⟩
    · have hAll := hDone.mp hYes
      rw [getArray_withItems, Option.getD_some, hAt k hk (by omega), hOther k hk (by omega), if_pos hAll]
    · rw [getArray_withItems, Option.getD_some, hArray, hItems, if_neg (by omega)]
    · have hNotAll : ¬index.toNat + n ≤ items.length := fun hAll => Bool.false_ne_true (hNo.symm.trans (hDone.mpr hAll))
      have hSame : items' = items := by
        refine List.ext_getElem? fun j => ?_
        rw [hItems]
        split
        next hIn =>
          obtain ⟨k, rfl⟩ : ∃ k, j = index.toNat + k := ⟨j - index.toNat, by omega⟩
          rw [hOther k (by omega) hIn.2.2, if_neg hNotAll, List.getElem?_eq_getElem hIn.2.2]
          rfl
        next => rfl
      rw [hSame]
      show (putEntry m.entries name (τ.toArray items)).lookup name = m.entries.lookup name
      rw [lookup_putEntry]
      obtain ⟨array, hLookup, hArray⟩ := Option.bind_eq_some_iff.mp h
      rw [hLookup, FieldType.eq_toArray hArray]

/-! ### `ReplaceData` -/

variable {element : Nat → τ.Item} {numBytes : UInt32}

theorem getOrCreateArray_of_getArray (h : m.getArray name τ = some items) : m.getOrCreateArray name τ = some items := by
  obtain ⟨array, hLookup, hArray⟩ := Option.bind_eq_some_iff.mp h
  unfold getOrCreateArray
  rw [hLookup]
  exact hArray

theorem addString_eq (m : Message) (name s : CStr) : m.addString name s =
    match m.getOrCreateArray name .string with
    | some items => (m.withItems name .string (items ++ (List.range 1).map fun _ => s), true)
    | none => (m, false) := rfl

theorem numElements_of_ne (hType : τ ≠ .string) (numBytes : UInt32) :
    numElements τ numBytes = ((dataElements τ numBytes).map fun data => data.2.toNat).getD 0 := by
  cases τ with
  | string => exact absurd rfl hType
  | _ => rfl

/-- Bytes that are items, without a part left over, are none only if there are no bytes. -/
theorem dataElements_pos {elementSize count : UInt32} (h : dataElements τ numBytes = some (elementSize, count))
    (hBytes : numBytes ≠ 0) : count.toNat ≠ 0 := by
  unfold dataElements at h
  dsimp only at h
  generalize (if τ.elementSize = 0 then numBytes else τ.elementSize) = size at h
  split at h
  next => cases h
  next hWhole =>
    rw [not_or, Decidable.not_not] at hWhole
    cases h
    intro hNone
    apply hBytes
    have hRest := congrArg UInt32.toNat hWhole.2
    rw [UInt32.toNat_mod] at hRest
    rw [UInt32.toNat_div] at hNone
    have hSplit := Nat.div_add_mod numBytes.toNat elementSize.toNat
    rw [hNone, hRest] at hSplit
    rw [← UInt32.toNat_inj]
    simpa using hSplit.symm

theorem numElements_zero (hType : τ ≠ .string) : numElements τ 0 = 0 := by
  rw [numElements_of_ne hType]
  unfold dataElements
  dsimp only
  generalize (if τ.elementSize = 0 then (0 : UInt32) else τ.elementSize) = size
  split
  next => rfl
  next => simp

theorem addDataAux_eq (hType : τ ≠ .string) (m : Message) (name : CStr) (element : Nat → τ.Item) (numBytes : UInt32) :
    m.addDataAux name τ element numBytes =
      match m.getOrCreateArray name τ with
      | some items =>
        if numElements τ numBytes = 0 then (m, false)
        else (m.withItems name τ
          (items ++ (List.range (numElements τ numBytes)).map (Message.given element numBytes)), true)
      | none => (m, false) := by
  unfold addDataAux
  by_cases hBytes : numBytes = 0
  · subst hBytes
    rw [if_pos rfl]
    cases m.getOrCreateArray name τ with
    | none => rfl
    | some items => exact (if_pos (numElements_zero hType)).symm
  · rw [if_neg hBytes]
    have hNumber := numElements_of_ne hType numBytes
    cases hData : dataElements τ numBytes with
    | none =>
      rw [hData] at hNumber
      cases m.getOrCreateArray name τ with
      | none => rfl
      | some items => exact (if_pos hNumber).symm
    | some data =>
      obtain ⟨elementSize, count⟩ := data
      rw [hData] at hNumber
      cases m.getOrCreateArray name τ with
      | none => rfl
      | some items =>
        have hSome : numElements τ numBytes ≠ 0 := hNumber.symm ▸ dataElements_pos hData hBytes
        have hStride : stride τ numBytes = elementSize := by
          unfold stride
          rw [hData]
          rfl
        have hCount : numElements τ numBytes = count.toNat := hNumber
        dsimp only
        rw [if_neg hSome, hCount]
        unfold Message.given
        rw [hStride]

theorem replaceData_eq (hType : τ ≠ .string) (okayToAdd : Bool) :
    replaceData okayToAdd m name τ index element numBytes =
      match m.getArray name τ with
      | some items =>
        if okayToAdd ∧ items.length ≤ index.toNat then m.addDataAux name τ element numBytes
        else
          match dataElements τ numBytes with
          | some (elementSize, numElements) =>
            let result := replaceLoop element elementSize ((index + numElements).toNat - index.toNat) index items
            (m.withItems name τ result.1, result.2)
          | none => (m, false)
      | none => if okayToAdd then m.addDataAux name τ element numBytes else (m, false) := by
  cases τ with
  | string => exact absurd rfl hType
  | _ => rfl

theorem replaced_addDataAux_iff (hType : τ ≠ .string) (hEnd : ((m.getArray name τ).getD []).length ≤ index.toNat) :
    Replaced m name τ index.toNat (numElements τ numBytes) (Message.given element numBytes)
        (m.addDataAux name τ element numBytes) ↔
      index.toNat = ((m.getArray name τ).getD []).length ∨ numElements τ numBytes = 0 ∨
        m.getOrCreateArray name τ = none := by
  rw [addDataAux_eq hType]
  cases hItems : m.getOrCreateArray name τ with
  | none => exact iff_of_true replaced_failed (.inr (.inr rfl))
  | some items =>
    rw [items_of_getOrCreateArray hItems] at hEnd ⊢
    dsimp only
    split
    next hNone => exact iff_of_true replaced_failed (.inr (.inl hNone))
    next hSome =>
      refine (replaced_added_iff hItems hEnd (Nat.pos_of_ne_zero hSome)).trans ?_
      simp [hSome]

/-- The loop that runs over the index in 32 bits. -/
theorem replaced_loop_iff (hType : τ ≠ .string) (h : m.getArray name τ = some items) (hSize : items.length < 2 ^ 32)
    {elementSize count : UInt32} (hData : dataElements τ numBytes = some (elementSize, count)) :
    Replaced m name τ index.toNat (numElements τ numBytes) (Message.given element numBytes)
        (m.withItems name τ (replaceLoop element elementSize ((index + count).toNat - index.toNat) index items).1,
          (replaceLoop element elementSize ((index + count).toNat - index.toNat) index items).2) ↔
      numElements τ numBytes = 0 ∨ index.toNat + numElements τ numBytes < 2 ^ 32 ∧
        ∀ k < numElements τ numBytes, ∀ h : index.toNat + k < items.length,
          element ((index.toNat + k) * (stride τ numBytes).toNat % 2 ^ 32) =
            if index.toNat + numElements τ numBytes ≤ items.length then Message.given element numBytes k
            else items.get ⟨index.toNat + k, h⟩ := by
  have hCount : numElements τ numBytes = count.toNat := by
    rw [numElements_of_ne hType, hData]
    rfl
  have hStride : stride τ numBytes = elementSize := by
    unfold stride
    rw [hData]
    rfl
  have hArray : (m.getArray name τ).getD [] = items := by rw [h, Option.getD_some]
  have hIndex := index.toNat_lt
  have hBound := count.toNat_lt
  have hSum : (index + count).toNat = (index.toNat + count.toNat) % 2 ^ 32 := UInt32.toNat_add ..
  rw [hCount, hStride]
  by_cases hWraps : index.toNat + count.toNat < 2 ^ 32
  · have hLeft : (index + count).toNat - index.toNat = count.toNat := by
      rw [hSum, Nat.mod_eq_of_lt hWraps]
      omega
    rw [hLeft]
    obtain ⟨-, hDone, hItems⟩ := replaceLoop_spec element elementSize count.toNat index items hWraps
    rcases Nat.eq_zero_or_pos count.toNat with hNone | hSome
    · refine iff_of_true ⟨fun _ k hk => absurd hk (by omega), fun _ j _ => ?_, fun hNo => ?_⟩ (.inl hNone)
      · rw [getArray_withItems, Option.getD_some, hArray, hItems, if_neg (by omega)]
      · exact absurd (hNo.symm.trans (hDone.mpr (.inl hNone))) Bool.false_ne_true
    · refine (replaced_inPlace_iff h (hDone.trans (by omega)) hItems).trans ?_
      simp only [Nat.ne_of_gt hSome, hWraps, false_or, true_and]
  · have hLeft : (index + count).toNat - index.toNat = 0 := by
      rw [hSum]
      omega
    rw [hLeft]
    refine iff_of_false (fun hReplaced => ?_) (fun hFits => ?_)
    · have hLast := hReplaced.written rfl (count.toNat - 1) (by omega)
      rw [getArray_withItems, Option.getD_some] at hLast
      have hIn := (List.getElem?_eq_some_iff.mp hLast).1
      change index.toNat + (count.toNat - 1) < items.length at hIn
      omega
    · rcases hFits with hNone | ⟨hFits, -⟩
      · omega
      · exact hWraps hFits

/-- Strings do not depend on the index. -/
theorem replaceString_iff (okayToAdd : Bool) (m : Message) (name : CStr) (index : UInt32) (element : Nat → CStr)
    (numBytes : UInt32) :
    Replaced m name .string index.toNat 1 (@Message.given .string element numBytes)
        (replaceString okayToAdd m name index (element 0)) ↔
      ReplaceFits okayToAdd m name .string index element numBytes := by
  have hGiven : ∀ k < 1, @Message.given .string element numBytes k = element 0 := by
    intro k hk
    obtain rfl : k = 0 := by omega
    unfold Message.given
    rw [Nat.zero_mul]
  have hAdded : ((m.getArray name .string).getD []).length ≤ index.toNat →
      (Replaced m name .string index.toNat 1 (@Message.given .string element numBytes) (m.addString name (element 0)) ↔
        index.toNat = ((m.getArray name .string).getD []).length ∨ numElements .string numBytes = 0 ∨
          m.getOrCreateArray name .string = none) := by
    intro hEnd
    rw [addString_eq]
    cases hItems : m.getOrCreateArray name .string with
    | none => exact iff_of_true replaced_failed (.inr (.inr rfl))
    | some items =>
      rw [items_of_getOrCreateArray hItems] at hEnd ⊢
      have hMap : ((List.range 1).map fun _ => element 0) =
          (List.range 1).map (@Message.given .string element numBytes) :=
        List.map_congr_left fun k hk => (hGiven k (List.mem_range.mp hk)).symm
      dsimp only
      rw [hMap]
      refine (replaced_added_iff hItems hEnd Nat.one_pos).trans ?_
      simp [numElements]
  unfold ReplaceFits replaceString
  dsimp only
  cases hArray : m.getArray name .string with
  | none =>
    rw [hArray] at hAdded
    dsimp only
    cases okayToAdd with
    | true =>
      rw [if_pos rfl, if_pos ⟨rfl, Nat.zero_le _⟩]
      exact hAdded (Nat.zero_le _)
    | false =>
      rw [if_neg Bool.false_ne_true, if_neg fun hNo => Bool.false_ne_true hNo.1]
      exact iff_of_true replaced_failed (.inl rfl)
  | some items =>
    rw [hArray, Option.getD_some] at hAdded
    rw [Option.getD_some]
    dsimp only
    split
    next hAdds => exact hAdded hAdds.2
    next =>
      refine iff_of_true ?_ (.inl rfl)
      split
      next hThere =>
        refine (@replaced_inPlace_iff m name .string index 1 _ items _ true (fun _ => element 0) hArray
          (iff_of_true rfl hThere) fun j => ?_).mpr fun k hk hIn => ?_
        · rw [List.getElem?_set]
          by_cases hj : index.toNat = j
          · subst hj
            rw [if_pos rfl, if_pos hThere, if_pos (by omega)]
          · rw [if_neg hj, if_neg (by omega)]
        · rw [if_pos (by exact hThere), hGiven k hk]
      next => exact replaced_failed

/-- `ReplaceData` writes what it is given exactly if it adds at the index, or reads the right items. -/
theorem replaceData_iff (okayToAdd : Bool) (m : Message) (name : CStr) (τ : FieldType) (index : UInt32)
    (element : Nat → τ.Item) (numBytes : UInt32) (hSize : ((m.getArray name τ).getD []).length < 2 ^ 32) :
    Replaced m name τ index.toNat (numElements τ numBytes) (Message.given element numBytes)
        (replaceData okayToAdd m name τ index element numBytes) ↔
      ReplaceFits okayToAdd m name τ index element numBytes := by
  by_cases hType : τ = .string
  · subst hType
    exact replaceString_iff okayToAdd m name index element numBytes
  · rw [replaceData_eq hType]
    unfold ReplaceFits
    dsimp only
    cases hArray : m.getArray name τ with
    | none =>
      have hAdded := @replaced_addDataAux_iff m name τ index element numBytes hType
          (by rw [hArray]; exact Nat.zero_le _)
      rw [hArray] at hAdded
      dsimp only
      cases okayToAdd with
      | true =>
        rw [if_pos rfl, if_pos ⟨rfl, Nat.zero_le _⟩]
        exact hAdded
      | false =>
        rw [if_neg Bool.false_ne_true, if_neg fun hNo => Bool.false_ne_true hNo.1]
        exact iff_of_true replaced_failed (.inr (.inr (.inl rfl)))
    | some items =>
      rw [hArray, Option.getD_some] at hSize
      rw [Option.getD_some]
      dsimp only
      split
      next hAdds =>
        have hAdded := @replaced_addDataAux_iff m name τ index element numBytes hType (by rw [hArray]; exact hAdds.2)
        rw [hArray] at hAdded
        exact hAdded
      next =>
        cases hData : dataElements τ numBytes with
        | none =>
          have hNone : numElements τ numBytes = 0 := by
            rw [numElements_of_ne hType, hData]
            rfl
          exact iff_of_true replaced_failed (.inr (.inl hNone))
        | some data =>
          refine (replaced_loop_iff hType hArray hSize hData).trans ?_
          simp only [hType, reduceCtorEq, false_or]

/-- A field of three numbers. -/
def threeNumbers : Message := .mk 7 [(CStr.empty, .prim .int32 [1, 2, 3])]

/-- Two numbers in memory, and what is behind them. -/
def twoNumbers (offset : Nat) : BitVec 32 :=
  if offset = 0 then 7 else if offset = 4 then 8 else 9

theorem replaceData_iff_front :
    Replaced threeNumbers CStr.empty (.prim .int32) 0 2 (@Message.given (.prim .int32) twoNumbers 8)
      (replaceData false threeNumbers CStr.empty (.prim .int32) 0 twoNumbers 8) := by
  refine (replaceData_iff false threeNumbers CStr.empty (.prim .int32) 0 twoNumbers 8 (by decide)).mpr ?_
  unfold ReplaceFits
  rw [if_neg fun hNo => Bool.false_ne_true hNo.1]
  refine .inr (.inr (.inr ⟨by decide, fun k hk _ => ?_⟩))
  match k, hk with
  | 0, _ => rfl
  | 1, _ => rfl

/-- The second number of the field is to be 7: it becomes what is in memory behind the first number that is given. -/
theorem secondNumber_not_replaced :
    (replaceData false threeNumbers CStr.empty (.prim .int32) 1 twoNumbers 4).2 = true ∧
      (((replaceData false threeNumbers CStr.empty (.prim .int32) 1 twoNumbers 4).1.getArray CStr.empty
        (.prim .int32)).getD []) = [(1 : BitVec 32), 8, 3] ∧
      ¬Replaced threeNumbers CStr.empty (.prim .int32) 1 1 (@Message.given (.prim .int32) twoNumbers 4)
        (replaceData false threeNumbers CStr.empty (.prim .int32) 1 twoNumbers 4) := by
  refine ⟨by decide, rfl, fun hReplaced => ?_⟩
  have hWritten : some (8 : BitVec 32) = some 7 := hReplaced.written (by decide) 0 (by decide)
  exact absurd hWritten (by decide)

end Message

end BeShare.Muscle
