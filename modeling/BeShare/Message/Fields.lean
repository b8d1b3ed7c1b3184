import BeShare.Message.ReplaceData

/-!
Adding items to the fields of a message, one after the other, and finding them again. Each step touches its own field
only.
-/

namespace BeShare.Muscle

namespace Message

/-! ### The source -/

/-- `AddInt32` and its like: the item goes behind the others of its field. -/
def addItem (m : Message) (name : CStr) (τ : FieldType) (item : τ.Item) : Message × Bool :=
  match m.getOrCreateArray name τ with
  | some items => (m.withItems name τ (items ++ [item]), true)
  | none => (m, false)

/-- `FindInt32` and its like. -/
def findItem (m : Message) (name : CStr) (τ : FieldType) (index : Nat) : Option τ.Item :=
  (m.getArray name τ).bind fun items => items[index]?

def addInt32 (m : Message) (name : CStr) (value : UInt32) : Message × Bool :=
  m.addItem name (.prim .int32) value.toBitVec

def findInt32 (m : Message) (name : CStr) : Option UInt32 :=
  (m.findItem name (.prim .int32) 0).map fun item => UInt32.ofBitVec item

def addInt8 (m : Message) (name : CStr) (value : UInt8) : Message × Bool :=
  m.addItem name (.prim .int8) value.toBitVec

def findInt8 (m : Message) (name : CStr) : Option UInt8 :=
  (m.findItem name (.prim .int8) 0).map fun item => UInt8.ofBitVec item

/-- A step is taken only if all steps before succeeded. -/
def andThen (result : Message × Bool) (next : Message → Message × Bool) : Message × Bool :=
  if result.2 then next result.1 else result

/-! ### What a step does -/

/-- A step succeeds, and what it leaves is as described. -/
def Succeeds (result : Message × Bool) (post : Message → Prop) : Prop :=
  result.2 = true ∧ post result.1

/-- Nothing but a few fields was changed. -/
structure Changes (names : List CStr) (m m' : Message) : Prop where
  what : m'.what = m.what
  others : ∀ name ∉ names, m'.entries.lookup name = m.entries.lookup name

theorem Succeeds.andThen {result : Message × Bool} {next : Message → Message × Bool} {post post' : Message → Prop}
    (h : Succeeds result post) (hNext : ∀ m, post m → Succeeds (next m) post') :
    Succeeds (andThen result next) post' := by
  unfold Message.andThen
  rw [if_pos h.1]
  exact hNext result.1 h.2

theorem Succeeds.mono {result : Message × Bool} {post post' : Message → Prop} (h : Succeeds result post)
    (hPost : ∀ m, post m → post' m) : Succeeds result post' :=
  ⟨h.1, hPost result.1 h.2⟩

@[simp] theorem andThen_snd (result : Message × Bool) (next : Message → Message × Bool) :
    (andThen result next).2 = (result.2 && (next result.1).2) := by
  unfold andThen
  cases hDone : result.2 with
  | true => rw [if_pos rfl, Bool.true_and]
  | false => rw [if_neg Bool.false_ne_true, Bool.false_and, hDone]

theorem andThen_assoc (result : Message × Bool) (next next' : Message → Message × Bool) :
    andThen (andThen result next) next' = andThen result fun m => andThen (next m) next' := by
  unfold andThen
  cases hDone : result.2 with
  | true => rfl
  | false =>
    rw [if_neg Bool.false_ne_true, if_neg (by rw [hDone]; exact Bool.false_ne_true)]
    rfl

namespace Changes

variable {names names' : List CStr} {m m' m'' : Message}

theorem refl (names : List CStr) (m : Message) : Changes names m m :=
  ⟨rfl, fun _ _ => rfl⟩

theorem trans (h : Changes names m m') (h' : Changes names' m' m'') : Changes (names ++ names') m m'' := by
  refine ⟨h'.what.trans h.what, fun name hName => ?_⟩
  rw [List.mem_append, not_or] at hName
  exact (h'.others name hName.2).trans (h.others name hName.1)

theorem mono (h : Changes names m m') (hNames : names ⊆ names') : Changes names' m m' :=
  ⟨h.what, fun name hName => h.others name fun hMem => hName (hNames hMem)⟩

theorem getArray (h : Changes names m m') {name : CStr} (hName : name ∉ names) (τ : FieldType) :
    m'.getArray name τ = m.getArray name τ := by
  unfold Message.getArray
  rw [h.others name hName]

theorem getOrCreateArray (h : Changes names m m') {name : CStr} (hName : name ∉ names) (τ : FieldType) :
    m'.getOrCreateArray name τ = m.getOrCreateArray name τ := by
  unfold Message.getOrCreateArray
  rw [h.others name hName]

theorem findItem (h : Changes names m m') {name : CStr} (hName : name ∉ names) (τ : FieldType) (index : Nat) :
    m'.findItem name τ index = m.findItem name τ index := by
  unfold Message.findItem
  rw [h.getArray hName]

theorem findInt32 (h : Changes names m m') {name : CStr} (hName : name ∉ names) :
    m'.findInt32 name = m.findInt32 name := by
  unfold Message.findInt32
  rw [h.findItem hName]

theorem findInt8 (h : Changes names m m') {name : CStr} (hName : name ∉ names) :
    m'.findInt8 name = m.findInt8 name := by
  unfold Message.findInt8
  rw [h.findItem hName]

end Changes

/-! ### Adding -/

theorem lookup_putEntry_of_ne {entries : List (CStr × DataArray)} {name other : CStr} {array : DataArray}
    (h : other ≠ name) : (putEntry entries name array).lookup other = entries.lookup other := by
  have hOther : (other == name) = false := beq_false_of_ne h
  unfold putEntry
  split
  next hThere =>
    clear hThere
    induction entries with
    | nil => rfl
    | cons e entries ih =>
      obtain ⟨key, value⟩ := e
      rw [List.map_cons]
      by_cases hKey : key = name
      · subst hKey
        rw [if_pos rfl, List.lookup_cons, List.lookup_cons, hOther]
        exact ih
      · rw [if_neg hKey, List.lookup_cons, List.lookup_cons]
        cases other == key with
        | true => rfl
        | false => exact ih
  next =>
    rw [List.lookup_append, List.lookup_cons, hOther]
    exact Option.or_none

theorem changes_withItems (m : Message) (name : CStr) (τ : FieldType) (items : List τ.Item) :
    Changes [name] m (m.withItems name τ items) :=
  ⟨rfl, fun _ hOther => lookup_putEntry_of_ne (List.ne_of_not_mem_cons hOther)⟩

@[simp] theorem getOrCreateArray_withItems (m : Message) (name : CStr) (τ : FieldType) (items : List τ.Item) :
    (m.withItems name τ items).getOrCreateArray name τ = some items := by
  unfold getOrCreateArray withItems
  rw [entries_mk, lookup_putEntry]
  exact τ.ofArray_toArray items

theorem addItem_spec {m : Message} {name : CStr} {τ : FieldType} {items : List τ.Item}
    (h : m.getOrCreateArray name τ = some items) (item : τ.Item) :
    Succeeds (m.addItem name τ item) fun m' =>
      Changes [name] m m' ∧ m'.getOrCreateArray name τ = some (items ++ [item]) := by
  unfold addItem
  rw [h]
  exact ⟨rfl, changes_withItems .., getOrCreateArray_withItems ..⟩

theorem getOrCreateArray_new {m : Message} {name : CStr} (h : m.entries.lookup name = none) (τ : FieldType) :
    m.getOrCreateArray name τ = some [] := by
  unfold getOrCreateArray
  rw [h]

theorem findItem_of_getOrCreateArray {m : Message} {name : CStr} {τ : FieldType} {items : List τ.Item}
    (h : m.getOrCreateArray name τ = some items) (index : Nat) : m.findItem name τ index = items[index]? := by
  have hItems := items_of_getOrCreateArray h
  unfold findItem
  cases hArray : m.getArray name τ with
  | none =>
    rw [hArray] at hItems
    rw [← hItems]
    rfl
  | some found =>
    rw [hArray] at hItems
    rw [← hItems]
    rfl

/-- The first item of a field. -/
theorem addItem_new {m : Message} {name : CStr} (h : m.entries.lookup name = none) (τ : FieldType) (item : τ.Item) :
    Succeeds (m.addItem name τ item) fun m' => Changes [name] m m' ∧ m'.findItem name τ 0 = some item :=
  (addItem_spec (getOrCreateArray_new h τ) item).mono fun _ ⟨hChanges, hItems⟩ =>
    ⟨hChanges, findItem_of_getOrCreateArray hItems 0⟩

theorem addString_eq_addItem (m : Message) (name value : CStr) :
    m.addString name value = m.addItem name .string value := by
  unfold addString addItem
  cases m.getOrCreateArray name .string <;> rfl

theorem addString_new {m : Message} {name : CStr} (h : m.entries.lookup name = none) (value : CStr) :
    Succeeds (m.addString name value) fun m' => Changes [name] m m' ∧ m'.findItem name .string 0 = some value := by
  rw [addString_eq_addItem]
  exact addItem_new h .string value

theorem addInt32_new {m : Message} {name : CStr} (h : m.entries.lookup name = none) (value : UInt32) :
    Succeeds (m.addInt32 name value) fun m' => Changes [name] m m' ∧ m'.findInt32 name = some value :=
  (addItem_new h (.prim .int32) value.toBitVec).mono fun m' ⟨hChanges, hFound⟩ => by
    refine ⟨hChanges, ?_⟩
    unfold findInt32
    rw [hFound]
    rfl

theorem addInt8_new {m : Message} {name : CStr} (h : m.entries.lookup name = none) (value : UInt8) :
    Succeeds (m.addInt8 name value) fun m' => Changes [name] m m' ∧ m'.findInt8 name = some value :=
  (addItem_new h (.prim .int8) value.toBitVec).mono fun m' ⟨hChanges, hFound⟩ => by
    refine ⟨hChanges, ?_⟩
    unfold findInt8
    rw [hFound]
    rfl

/-- A number that is left out if it has the value that is assumed for a number that is not there. -/
theorem addInt32_unless {m : Message} {name : CStr} (h : m.entries.lookup name = none) (value assumed : UInt32) :
    Succeeds (if value = assumed then (m, true) else m.addInt32 name value) fun m' =>
      Changes [name] m m' ∧ (m'.findInt32 name).getD assumed = value := by
  split
  next hSame =>
    refine ⟨rfl, .refl .., ?_⟩
    unfold findInt32
    rw [findItem_of_getOrCreateArray (getOrCreateArray_new h _)]
    exact hSame.symm
  next =>
    refine (addInt32_new h value).mono fun m' ⟨hChanges, hFound⟩ => ⟨hChanges, ?_⟩
    rw [hFound]
    rfl

/-- One item that is given as data. -/
theorem addDataAux_new {m : Message} {name : CStr} {τ : FieldType} (h : m.entries.lookup name = none)
    (element : Nat → τ.Item) {numBytes : UInt32} (hData : dataElements τ numBytes = some (numBytes, 1))
    (hSome : numBytes ≠ 0) :
    Succeeds (m.addDataAux name τ element numBytes) fun m' =>
      Changes [name] m m' ∧ m'.findItem name τ 0 = some (element 0) := by
  unfold addDataAux
  rw [if_neg hSome, hData, getOrCreateArray_new h]
  refine ⟨rfl, changes_withItems .., ?_⟩
  rw [findItem_of_getOrCreateArray (getOrCreateArray_withItems ..)]
  simp

end Message

end BeShare.Muscle
