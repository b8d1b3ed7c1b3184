import BeShare.Message.Exact
import Mathlib.Algebra.Order.BigOperators.Group.List
import Mathlib.Algebra.Group.Action.Defs

/-!
The wire format itself: which byte strings spell a Message, whoever wrote them. The reader accepts
every spelling of a Message and yields that Message; the parse is followed on exact arithmetic,
where every offset stays below the number of bytes.
-/

namespace BeShare.Muscle

open BeShare.Lib

/-- A byte string behind its length word. -/
def lengthPrefixed (bs : List UInt8) : List UInt8 := leBytes 4 bs.length ++ bs

/-- Items behind their number. -/
def countedItems (items : List (List UInt8)) : List UInt8 :=
  leBytes 4 items.length ++ items.flatMap lengthPrefixed

/-- The header of a Message. -/
def wireHeader (what : UInt32) (numEntries : Nat) : List UInt8 :=
  leBytes 4 CURRENT_PROTOCOL_VERSION ++ leBytes 4 what.toNat ++ leBytes 4 numEntries

/-- An entry of a Message: name, type code and data. -/
def wireEntry (name : CStr) (typeCode : UInt32) (data : List UInt8) : List UInt8 :=
  lengthPrefixed name.flatten ++ leBytes 4 typeCode.toNat ++ lengthPrefixed data

@[simp] theorem lengthPrefixed_length (bs : List UInt8) :
    (lengthPrefixed bs).length = 4 + bs.length := by
  simp [lengthPrefixed]

@[simp] theorem wireHeader_length (what : UInt32) (n : Nat) : (wireHeader what n).length = 12 := by
  simp [wireHeader]

@[simp] theorem wireEntry_length (name : CStr) (typeCode : UInt32) (data : List UInt8) :
    (wireEntry name typeCode data).length = 12 + name.flattenedSize + data.length := by
  simp only [wireEntry, List.length_append, lengthPrefixed_length, leBytes_length,
    CStr.flatten_length]
  omega

/-- Where the name and the data of a spelled entry stand. -/
theorem wireEntry_name {name : CStr} {typeCode : UInt32} {data : List UInt8} {received : List UInt8}
    {a : Nat} (h : Holds received a (wireEntry name typeCode data)) :
    Holds received (a + 4) name.flatten := by
  simp only [wireEntry, lengthPrefixed, holds_append, leBytes_length] at h
  exact h.1.1.2

theorem wireEntry_data {name : CStr} {typeCode : UInt32} {data : List UInt8} {received : List UInt8}
    {a : Nat} (h : Holds received a (wireEntry name typeCode data)) :
    Holds received (a + (4 + name.flattenedSize + 4 + 4)) data := by
  simp only [wireEntry, lengthPrefixed, holds_append, List.length_append, leBytes_length,
    CStr.flatten_length] at h
  simpa only [Nat.add_assoc] using h.2.2

/-- A string item may be any bytes that hold the string; there is at least the trailing NUL. -/
def SpellsString (s : CStr) (bs : List UInt8) : Prop := bs ≠ [] ∧ CStr.ofBytes bs = s

mutual

/-- `bs` spells the Message. -/
def Message.Spelled : Message → List UInt8 → Prop
  | .mk what es, bs => ∃ rest, bs = wireHeader what es.length ++ rest ∧ entriesSpelled es rest

def entriesSpelled : List (CStr × DataArray) → List UInt8 → Prop
  | [], bs => bs = []
  | (name, array) :: es, bs => ∃ data rest,
      bs = wireEntry name array.typeCode data ++ rest ∧ array.Spelled data ∧ entriesSpelled es rest

/-- `bs` spells the items of a field. A truth value is any byte, zero for false. -/
def DataArray.Spelled : DataArray → List UInt8 → Prop
  | .bool items, bs => items = bs.map (· != 0)
  | .prim t items, bs => bs = t.codec.encodeAll items
  | .point items, bs => bs = Point.codec.encodeAll items
  | .rect items, bs => bs = Rect.codec.encodeAll items
  | .string items, bs => ∃ raws, List.Forall₂ SpellsString items raws ∧ bs = countedItems raws
  | .buffer _ items, bs => ∃ raws, items = raws.map some ∧ bs = countedItems raws
  | .message items, bs => messagesSpelled items bs
  | .pointer _, _ => False
  | .tag _, _ => False

def messagesSpelled : List (Option Message) → List UInt8 → Prop
  | [], bs => bs = []
  | none :: _, _ => False
  | some m :: items, bs => ∃ data rest,
      bs = lengthPrefixed data ++ rest ∧ m.Spelled data ∧ messagesSpelled items rest

end

/-! ### Reading what is there -/

section

variable {inp : Input} {off : Nat}

theorem fetch_holds {bs : List UInt8} (h : Holds inp.received (inp.base + off) bs) :
    fetch inp off bs.length = .ok bs := by
  rw [fetch, if_pos, h.take_drop]
  rcases Nat.eq_zero_or_pos bs.length with hNil | hPos
  · exact .inl hNil
  · exact .inr (h.le_length hPos)

theorem add_exact {a b : Nat} (h : a + b < 2 ^ 32) : Arith.exact.add a b = .ok (a + b) := by
  simp only [Arith.exact, if_pos h]

theorem sub_exact {a b : Nat} (hLe : b ≤ a) (h : a < 2 ^ 32) : Arith.exact.sub a b = .ok (a - b) := by
  simp only [Arith.exact, if_pos (And.intro hLe h)]

theorem readUint32_holds {v : Nat} (h : Holds inp.received (inp.base + off) (leBytes 4 v))
    (hv : v < 2 ^ 32) (hOff : off + 4 ≤ inp.numBytes) (hNum : inp.numBytes < 2 ^ 32) :
    readUint32 .exact inp off = .ok (v, off + 4) := by
  have hFetch : fetch inp off 4 = .ok (leBytes 4 v) := by
    simpa using fetch_holds h
  simp only [readUint32, readData]
  rw [add_exact (by omega), ok_bind, if_neg (by omega), hFetch, ok_bind]
  change Except.ok (leNat (leBytes 4 v), off + 4) = _
  rw [leNat_leBytes_of_lt (by simpa using hv)]

theorem readItemSize_holds {v : Nat} (h : Holds inp.received (inp.base + off) (leBytes 4 v))
    (hOff : off + 4 + v ≤ inp.numBytes) (hNum : inp.numBytes < 2 ^ 32) :
    readItemSize .exact inp off = .ok (v, off + 4, off + 4 + v) := by
  simp only [readItemSize]
  rw [readUint32_holds h (by omega) (by omega) hNum, ok_bind]
  simp only
  rw [add_exact (by omega), ok_bind]
  exact if_neg (by omega)

end

theorem setCstr_holds {received : List UInt8} {a : Nat} {bs : List UInt8}
    (h : Holds received a bs) : setCstr received a bs.length = .ok (CStr.ofBytes bs) := by
  induction bs generalizing a with
  | nil => rfl
  | cons c bs ih =>
    have hFirst : received[a]? = some c := h 0 c rfl
    have hRest : Holds received (a + 1) bs := by
      have hSplit : Holds received a ([c] ++ bs) := h
      exact (holds_append.mp hSplit).2
    rw [List.length_cons, setCstr, hFirst, ih hRest]
    simp only
    split
    · rename_i hc
      subst hc
      rfl
    · rename_i hc
      rw [ok_bind]
      refine congrArg Except.ok (CStr.ext ?_)
      simp [CStr.cons, CStr.ofBytes, hc]

theorem unflatten_cstr_holds {inp : Input} {off : Nat} {bs : List UInt8}
    (h : Holds inp.received (inp.base + off) bs) :
    CStr.unflatten (inp.sub off bs.length) = .ok (CStr.ofBytes bs) :=
  setCstr_holds h

/-! ### The array classes -/

theorem fixedUnflatten_holds {α : Type} (c : FixedCodec α) {inp : Input} {items : List α}
    (h : Holds inp.received inp.base (c.encodeAll items))
    (hNum : inp.numBytes = (c.encodeAll items).length) : fixedUnflatten c inp = .ok items := by
  have hFetch : fetch inp 0 inp.numBytes = .ok (c.encodeAll items) := by
    rw [hNum]
    exact fetch_holds h
  rw [c.encodeAll_length] at hNum
  rw [fixedUnflatten, if_neg (by simp [hNum]), hFetch, ok_bind, hNum,
    Nat.mul_div_cancel _ c.size_pos, c.decodeAll_encodeAll]
  rfl

theorem boolUnflatten_holds {inp : Input} {bs : List UInt8} (h : Holds inp.received inp.base bs)
    (hNum : inp.numBytes = bs.length) : boolUnflatten inp = .ok (bs.map (· != 0)) := by
  have hFetch : fetch inp 0 inp.numBytes = .ok bs := by
    rw [hNum]
    exact fetch_holds h
  rw [boolUnflatten, hFetch, ok_bind]
  rfl

theorem length_le_flatMap (raws : List (List UInt8)) :
    4 * raws.length ≤ (raws.flatMap lengthPrefixed).length := by
  have h := List.card_nsmul_le_sum (raws.map fun raw => 4 + raw.length) 4 (by simp)
  rw [List.length_map, smul_eq_mul] at h
  rw [List.length_flatMap]
  simp only [lengthPrefixed_length]
  omega

section

variable {inp : Input} (hNum : inp.numBytes < 2 ^ 32)
include hNum

theorem stringItems_holds {items : List CStr} {raws : List (List UInt8)}
    (hItems : List.Forall₂ SpellsString items raws) (off : Nat)
    (h : Holds inp.received (inp.base + off) (raws.flatMap lengthPrefixed))
    (hOff : off + (raws.flatMap lengthPrefixed).length ≤ inp.numBytes) :
    stringItems .exact inp raws.length off = .ok items := by
  induction hItems generalizing off with
  | nil => rfl
  | @cons s raw items raws hString hItems ih =>
    obtain ⟨hne, rfl⟩ := hString
    simp only [List.flatMap_cons, List.length_append, lengthPrefixed_length] at hOff
    simp only [List.flatMap_cons, holds_append, lengthPrefixed_length] at h
    simp only [lengthPrefixed, holds_append, leBytes_length] at h
    obtain ⟨⟨hSize, hChars⟩, hRest⟩ := h
    have hPos : 0 < raw.length := List.length_pos_of_ne_nil hne
    have hTail := ih (off + 4 + raw.length) (by simpa only [lengthPrefixed, Nat.add_assoc] using hRest)
      (by omega)
    rw [List.length_cons, stringItems, readUint32_holds hSize (by omega) (by omega) hNum, ok_bind]
    simp only
    rw [if_neg (by omega), add_exact (by omega), ok_bind, if_neg (by omega),
      unflatten_cstr_holds (by rwa [← Nat.add_assoc]), ok_bind, hTail]
    rfl

theorem stringsUnflatten_holds {items : List CStr} {raws : List (List UInt8)}
    (hItems : List.Forall₂ SpellsString items raws)
    (h : Holds inp.received inp.base (countedItems raws))
    (hSize : inp.numBytes = (countedItems raws).length) :
    stringsUnflatten .exact inp = .ok items := by
  have hCount := length_le_flatMap raws
  rw [countedItems, holds_append, leBytes_length] at h
  rw [countedItems, List.length_append, leBytes_length] at hSize
  have hStart : Holds inp.received (inp.base + 0) (leBytes 4 raws.length) := h.1
  rw [stringsUnflatten, readUint32_holds hStart (by omega) (by omega) hNum, ok_bind]
  exact stringItems_holds hNum hItems 4 h.2 (by omega)

theorem bufferItems_holds (raws : List (List UInt8)) (off : Nat)
    (h : Holds inp.received (inp.base + off) (raws.flatMap lengthPrefixed))
    (hOff : off + (raws.flatMap lengthPrefixed).length ≤ inp.numBytes) :
    bufferItems .exact inp raws.length off = .ok raws := by
  induction raws generalizing off with
  | nil => rfl
  | cons raw raws ih =>
    simp only [List.flatMap_cons, List.length_append, lengthPrefixed_length] at hOff
    simp only [List.flatMap_cons, holds_append, lengthPrefixed_length] at h
    simp only [lengthPrefixed, holds_append, leBytes_length] at h
    obtain ⟨⟨hSize, hBytes⟩, hRest⟩ := h
    have hTail := ih (off + 4 + raw.length) (by simpa only [lengthPrefixed, Nat.add_assoc] using hRest)
      (by omega)
    rw [List.length_cons, bufferItems, readItemSize_holds hSize (by omega) hNum, ok_bind]
    simp only
    rw [fetch_holds (by rwa [← Nat.add_assoc]), ok_bind, hTail]
    rfl

theorem buffersUnflatten_holds {raws : List (List UInt8)}
    (h : Holds inp.received inp.base (countedItems raws))
    (hSize : inp.numBytes = (countedItems raws).length) :
    buffersUnflatten .exact inp = .ok raws := by
  have hCount := length_le_flatMap raws
  rw [countedItems, holds_append, leBytes_length] at h
  rw [countedItems, List.length_append, leBytes_length] at hSize
  have hStart : Holds inp.received (inp.base + 0) (leBytes 4 raws.length) := h.1
  rw [buffersUnflatten, readUint32_holds hStart (by omega) (by omega) hNum, ok_bind]
  exact bufferItems_holds hNum raws 4 h.2 (by omega)

end

/-- `parse` reads the Message `m` wherever a spelling of it stands that is no longer than `size`. -/
def Reads (parse : Input → Parse Message) (m : Message) (size : Nat) : Prop :=
  ∀ (inp : Input) (bs : List UInt8), m.Spelled bs → bs.length ≤ size →
    Holds inp.received inp.base bs → inp.numBytes = bs.length → inp.numBytes < 2 ^ 32 →
    parse inp = .ok m

section

variable {parse : Input → Parse Message} {fuel : Nat} {inp : Input}
  (hNum : inp.numBytes < 2 ^ 32)
include hNum

theorem messageItem_holds {m : Message} {data : List UInt8} (hParse : Reads parse m fuel)
    (hSpelled : m.Spelled data) (hFuel : data.length ≤ fuel) {off : Nat}
    (h : Holds inp.received (inp.base + off) (lengthPrefixed data))
    (hOff : off + 4 + data.length ≤ inp.numBytes) :
    messageItem .exact parse inp off = .ok (m, off + 4 + data.length) := by
  rw [lengthPrefixed, holds_append, leBytes_length] at h
  have hItem : parse (inp.sub (off + 4) data.length) = .ok m := by
    refine hParse _ data hSpelled hFuel ?_ rfl (by rw [Input.sub_numBytes]; omega)
    rw [Input.sub_received, Input.sub_base, ← Nat.add_assoc]
    exact h.2
  rw [messageItem, readItemSize_holds h.1 hOff hNum, ok_bind]
  simp only
  rw [hItem]
  rfl

theorem messageItems_holds {items : List (Option Message)}
    (hParse : ∀ m, some m ∈ items → Reads parse m fuel) {bs : List UInt8}
    (hSpelled : messagesSpelled items bs) (k off : Nat) (hFuel : bs.length ≤ fuel)
    (hk : bs.length ≤ k) (h : Holds inp.received (inp.base + off) bs)
    (hOff : off + bs.length = inp.numBytes) :
    ∃ ms, items = ms.map some ∧ messageItems .exact parse inp k off = .ok ms := by
  induction items generalizing bs k off with
  | nil =>
    subst hSpelled
    have hDone : ¬off < inp.numBytes := by
      rw [List.length_nil] at hOff
      omega
    refine ⟨[], rfl, ?_⟩
    cases k <;> simp only [messageItems, if_neg hDone]
  | cons item items ih =>
    cases item with
    | none => exact hSpelled.elim
    | some m =>
      obtain ⟨data, rest, rfl, hData, hRest⟩ := hSpelled
      rw [holds_append, lengthPrefixed_length] at h
      rw [List.length_append, lengthPrefixed_length] at hOff hFuel hk
      obtain ⟨k, rfl⟩ : ∃ j, k = j + 1 := ⟨k - 1, by omega⟩
      have hItem := messageItem_holds hNum (hParse m (List.mem_cons_self ..)) hData (by omega) h.1
        (by omega)
      obtain ⟨ms, rfl, hTail⟩ := ih (fun m hMem => hParse m (List.mem_cons_of_mem _ hMem)) hRest k
        (off + 4 + data.length) (by omega) (by omega) (by simpa only [Nat.add_assoc] using h.2)
        (by omega)
      refine ⟨m :: ms, rfl, ?_⟩
      rw [messageItems, if_pos (by omega), hItem, ok_bind]
      simp only
      rw [hTail]
      rfl

/-- A spelled field is read by its own class. -/
theorem ArrayClass.unflatten_holds {array : DataArray} {bs : List UInt8}
    (hSpelled : array.Spelled bs) (hParse : ∀ m, some m ∈ array.messages → Reads parse m fuel)
    (hFuel : bs.length ≤ fuel) (h : Holds inp.received inp.base bs)
    (hSize : inp.numBytes = bs.length) :
    array.arrayClass.unflatten .exact parse fuel inp = .ok array := by
  cases array with
  | bool items =>
    rw [DataArray.Spelled] at hSpelled
    subst hSpelled
    simp only [DataArray.arrayClass, ArrayClass.unflatten]
    rw [boolUnflatten_holds h hSize]
    rfl
  | prim t items =>
    rw [DataArray.Spelled] at hSpelled
    subst hSpelled
    simp only [DataArray.arrayClass, ArrayClass.unflatten]
    rw [fixedUnflatten_holds t.codec h hSize]
    rfl
  | point items =>
    rw [DataArray.Spelled] at hSpelled
    subst hSpelled
    simp only [DataArray.arrayClass, ArrayClass.unflatten]
    rw [fixedUnflatten_holds _ h hSize]
    rfl
  | rect items =>
    rw [DataArray.Spelled] at hSpelled
    subst hSpelled
    simp only [DataArray.arrayClass, ArrayClass.unflatten]
    rw [fixedUnflatten_holds _ h hSize]
    rfl
  | string items =>
    rw [DataArray.Spelled] at hSpelled
    obtain ⟨raws, hItems, rfl⟩ := hSpelled
    simp only [DataArray.arrayClass, ArrayClass.unflatten]
    rw [stringsUnflatten_holds hNum hItems h hSize]
    rfl
  | buffer tc items =>
    rw [DataArray.Spelled] at hSpelled
    obtain ⟨raws, rfl, rfl⟩ := hSpelled
    simp only [DataArray.arrayClass, ArrayClass.unflatten]
    rw [buffersUnflatten_holds hNum h hSize]
    rfl
  | message items =>
    rw [DataArray.Spelled] at hSpelled
    obtain ⟨ms, rfl, hItems⟩ := messageItems_holds hNum hParse hSpelled fuel 0 hFuel hFuel h
      (by omega)
    simp only [DataArray.arrayClass, ArrayClass.unflatten]
    rw [hItems]
    rfl
  | pointer items => rw [DataArray.Spelled] at hSpelled; exact hSpelled.elim
  | tag numItems => rw [DataArray.Spelled] at hSpelled; exact hSpelled.elim

/-- The entry loop on a spelled entry with a new name comes down to reading the field. -/
theorem unflattenEntry_eq {name : CStr} {typeCode : UInt32} {data : List UInt8}
    (es : List (CStr × DataArray)) (off : Nat) (hNew : name ∉ es.map Prod.fst)
    (h : Holds inp.received (inp.base + off) (wireEntry name typeCode data))
    (hOff : off + (wireEntry name typeCode data).length ≤ inp.numBytes) :
    unflattenEntry .exact parse fuel inp es off =
      ((arrayClass typeCode).unflatten .exact parse fuel
        (inp.sub (off + 4 + name.flattenedSize + 4 + 4) data.length) >>= fun array =>
          .ok (es ++ [(name, array)], off + (wireEntry name typeCode data).length)) := by
  rw [wireEntry_length] at hOff ⊢
  simp only [wireEntry, lengthPrefixed, holds_append, List.length_append, leBytes_length,
    CStr.flatten_length] at h
  obtain ⟨⟨⟨hNameLen, hName⟩, hCode⟩, hLen, -⟩ := h
  have hCodeLt : typeCode.toNat < 2 ^ 32 := typeCode.toNat_lt
  have hNameRead : CStr.unflatten (inp.sub (off + 4) name.flattenedSize) = .ok name := by
    rw [← name.flatten_length, unflatten_cstr_holds (by rwa [← Nat.add_assoc]), CStr.ofBytes_flatten]
  have hClass : getOrCreateArray es name typeCode = .ok (arrayClass typeCode) := by
    rw [getOrCreateArray, lookup_eq_none hNew]
  rw [unflattenEntry, readUint32_holds hNameLen (by omega) (by omega) hNum, ok_bind]
  simp only
  rw [sub_exact (by omega) hNum, ok_bind, if_neg (by omega), hNameRead, ok_bind,
    add_exact (by omega), ok_bind,
    readUint32_holds (by simpa only [Nat.add_assoc] using hCode) hCodeLt (by omega) hNum, ok_bind]
  simp only
  rw [readUint32_holds (by simpa only [Nat.add_assoc] using hLen) (by omega) (by omega) hNum,
    ok_bind]
  simp only
  rw [sub_exact (by omega) hNum, ok_bind, if_neg (by omega), UInt32.ofNat_toNat, hClass, ok_bind]
  refine bind_congr fun array => ?_
  rw [add_exact (by omega), ok_bind, putEntry_new hNew]
  refine congrArg Except.ok (Prod.ext rfl ?_)
  simp only
  omega

theorem unflattenEntry_holds {name : CStr} {array : DataArray} {data : List UInt8}
    (es : List (CStr × DataArray)) (off : Nat) (hNew : name ∉ es.map Prod.fst)
    (hSpelled : array.Spelled data) (hParse : ∀ m, some m ∈ array.messages → Reads parse m fuel)
    (hFuel : data.length ≤ fuel)
    (h : Holds inp.received (inp.base + off) (wireEntry name array.typeCode data))
    (hOff : off + (wireEntry name array.typeCode data).length ≤ inp.numBytes) :
    unflattenEntry .exact parse fuel inp es off =
      .ok (es ++ [(name, array)], off + (wireEntry name array.typeCode data).length) := by
  have hArray : array.arrayClass.unflatten .exact parse fuel
      (inp.sub (off + 4 + name.flattenedSize + 4 + 4) data.length) = .ok array := by
    rw [wireEntry_length] at hOff
    refine ArrayClass.unflatten_holds (by rw [Input.sub_numBytes]; omega) hSpelled hParse hFuel ?_ rfl
    simpa only [Input.sub_received, Input.sub_base, Nat.add_assoc] using wireEntry_data h
  rw [unflattenEntry_eq hNum es off hNew h hOff, arrayClass_typeCode, hArray, ok_bind]

theorem unflattenEntries_holds {es : List (CStr × DataArray)} {bs : List UInt8}
    (hSpelled : entriesSpelled es bs) (before : List (CStr × DataArray)) (off : Nat)
    (hDistinct : ((before ++ es).map Prod.fst).Nodup)
    (hParse : ∀ e ∈ es, ∀ m, some m ∈ e.2.messages → Reads parse m fuel) (hFuel : bs.length ≤ fuel)
    (h : Holds inp.received (inp.base + off) bs) (hOff : off + bs.length ≤ inp.numBytes) :
    unflattenEntries .exact parse fuel inp es.length before off = .ok (before ++ es) := by
  induction es generalizing before off bs with
  | nil => rw [List.append_nil]; rfl
  | cons e es ih =>
    obtain ⟨name, array⟩ := e
    obtain ⟨data, rest, rfl, hData, hRest⟩ := hSpelled
    rw [holds_append] at h
    rw [List.length_append] at hFuel hOff
    have hNew : name ∉ before.map Prod.fst := by
      rw [List.map_append, List.map_cons, List.nodup_append] at hDistinct
      exact fun hMem => hDistinct.2.2 name hMem name (List.mem_cons_self ..) rfl
    have hDataLen := wireEntry_length name array.typeCode data
    have hHead := unflattenEntry_holds hNum before off hNew hData
      (hParse _ (List.mem_cons_self ..)) (by omega) h.1 (by omega)
    have hTail := ih hRest (before ++ [(name, array)])
      (off + (wireEntry name array.typeCode data).length) (by simpa using hDistinct)
      (fun e hMem => hParse e (List.mem_cons_of_mem _ hMem)) (by omega)
      (by simpa only [Nat.add_assoc] using h.2) (by omega)
    rw [List.length_cons, unflattenEntries, hHead, ok_bind]
    simp only
    rw [hTail]
    simp

theorem readHeader_holds {what : UInt32} {count : Nat}
    (h : Holds inp.received inp.base (wireHeader what count)) (hCount : count < 2 ^ 32)
    (hSize : 12 ≤ inp.numBytes) : readHeader .exact inp = .ok (what, count, 12) := by
  simp only [wireHeader, holds_append, List.length_append, leBytes_length] at h
  obtain ⟨⟨hVersion, hWhatWord⟩, hCountWord⟩ := h
  have hStart : Holds inp.received (inp.base + 0) (leBytes 4 CURRENT_PROTOCOL_VERSION) := hVersion
  rw [readHeader, readUint32_holds hStart (by decide) (by omega) hNum, ok_bind]
  simp only
  rw [if_neg (by decide), readUint32_holds hWhatWord what.toNat_lt (by omega) hNum, ok_bind]
  simp only
  rw [readUint32_holds hCountWord hCount (by omega) hNum, ok_bind, UInt32.ofNat_toNat]
  rfl

end

/-! ### Messages -/

theorem length_le_of_spelled {es : List (CStr × DataArray)} {bs : List UInt8}
    (h : entriesSpelled es bs) : es.length ≤ bs.length := by
  induction es generalizing bs with
  | nil => exact Nat.zero_le _
  | cons e es ih =>
    obtain ⟨name, array⟩ := e
    obtain ⟨data, rest, rfl, -, hRest⟩ := h
    have := ih hRest
    rw [List.length_append, wireEntry_length, List.length_cons]
    omega

/-- The reader accepts every spelling of a Message and yields the Message. -/
theorem Message.unflatten_spelled {m : Message} (hWell : m.WellFormed) (fuel : Nat) :
    Reads (Message.unflatten .exact fuel) m fuel := by
  induction hWell generalizing fuel with
  | intro m hDistinct _ ih =>
    obtain ⟨what, es⟩ := m
    rintro inp bs ⟨rest, rfl, hEntries⟩ hFuel hHolds hSize hNum
    rw [holds_append, wireHeader_length] at hHolds
    rw [List.length_append, wireHeader_length] at hFuel hSize
    obtain ⟨fuel, rfl⟩ : ∃ k, fuel = k + 1 := ⟨fuel - 1, by omega⟩
    have hCount := length_le_of_spelled hEntries
    have hParse : ∀ e ∈ es, ∀ m, some m ∈ e.2.messages →
        Reads (Message.unflatten .exact fuel) m fuel := fun e hMem m hItem =>
      ih m ⟨e, hMem, hItem⟩ fuel
    rw [Message.unflatten, readHeader_holds hNum hHolds.1 (by omega) (by omega), ok_bind]
    simp only
    rw [unflattenEntries_holds hNum hEntries [] 12 hDistinct hParse (by omega) hHolds.2 (by omega)]
    rfl

/-- What the source makes of a spelled Message. -/
theorem Message.receive_spelled {m : Message} (hWell : m.WellFormed) {bytes : List UInt8}
    (hSpelled : m.Spelled bytes) (hSize : bytes.length < 2 ^ 32) {fuel : Nat}
    (hFuel : bytes.length ≤ fuel) : Message.receive fuel bytes = .ok m := by
  have hExact : Message.unflatten .exact fuel ⟨bytes, 0, bytes.length⟩ = .ok m :=
    Message.unflatten_spelled hWell fuel _ bytes hSpelled hFuel (.self bytes) rfl hSize
  rw [← hExact]
  exact Message.unflatten_uint32 (by rw [hExact]; simp)

end BeShare.Muscle
