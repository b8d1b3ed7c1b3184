import BeShare.Message.RoundTrip
import BeShare.MiniMessage.Safety
import BeShare.MiniMessage.ToCpp

/-!
From the C++ codec to the C codec: when `MMUnflattenMessage` makes the same content of what
`Message::Flatten` wrote.
-/

namespace BeShare.Muscle

open BeShare.Lib

/-! ### Fields that the C codec can hold -/

/-- The number of items of a field. -/
def DataArray.numItems : DataArray → Nat
  | .bool items => items.length
  | .prim _ items => items.length
  | .point items => items.length
  | .rect items => items.length
  | .string items => items.length
  | .buffer _ items => items.length
  | .message items => items.length
  | .pointer items => items.length
  | .tag numItems => numItems

/-- The bytes that an item takes in the storage of an `MMessageField`. -/
def DataArray.cItemSize : DataArray → Nat
  | .bool _ => 1
  | .prim t _ => t.size
  | .point _ => Point.codec.size
  | .rect _ => Rect.codec.size
  | _ => 8

/-- `AllocMMessageField` has room for the field: it has an item, and its size fits into 32 bits. -/
def CStorable (e : CStr × DataArray) : Prop :=
  e.2.numItems ≠ 0 ∧ storageFits e.1.flattenedSize e.2.numItems e.2.cItemSize

instance (e : CStr × DataArray) : Decidable (CStorable e) := by
  unfold CStorable
  infer_instance

def Message.EntriesStorable (m : Message) : Prop := ∀ e ∈ m.entries, CStorable e

/-- Every field, at every depth, can be held by the C codec. -/
def Message.Storable : Message → Prop := Message.Throughout Message.EntriesStorable

/-! ### The content is without `NULL` references -/

mutual

theorem MMessage.content_noNull : (m : MMessage) → m.content.NoNullRefs
  | .mk _ fields => noNullRefs_mk (mmFieldsContent_noNull fields)

theorem mmFieldsContent_noNull : (fields : List (List UInt8 × MMData)) →
    ∀ e ∈ mmFieldsContent fields, NoNullArray e.2
  | [], _, h => by cases h
  | (name, data) :: fields, e, h => by
    rw [mmFieldsContent] at h
    split at h
    · rcases List.mem_cons.mp h with rfl | hTail
      · exact data.content_noNull
      · exact mmFieldsContent_noNull fields e hTail
    · exact mmFieldsContent_noNull fields e h

theorem MMData.content_noNull : (data : MMData) → NoNullArray data.content
  | .message items => mmMessagesContent_noNull items
  | .blob tc items => by
    simp only [MMData.content, blobContent]
    split
    · exact ⟨trivial, by simp [DataArray.messages]⟩
    · split
      · exact ⟨by simp [DataArray.NoNull], by simp [DataArray.messages]⟩
      · exact ⟨trivial, by simp [DataArray.messages]⟩
  | .bool _ | .prim _ _ | .point _ | .rect _ | .pointer _ => ⟨trivial, by simp [MMData.content, DataArray.messages]⟩

theorem mmMessagesContent_noNull : (items : List (Option MMessage)) →
    none ∉ mmMessagesContent items ∧ ∀ m, some m ∈ mmMessagesContent items → m.NoNullRefs
  | [] => ⟨by simp [mmMessagesContent], by simp [mmMessagesContent]⟩
  | none :: items => by
    obtain ⟨hNone, hSome⟩ := mmMessagesContent_noNull items
    simp only [mmMessagesContent, List.mem_cons, not_or, Option.some.injEq]
    refine ⟨⟨by simp, hNone⟩, fun m hMem => ?_⟩
    rcases hMem with rfl | hTail
    · exact noNullRefs_mk (by simp)
    · exact hSome m hTail
  | some m :: items => by
    obtain ⟨hNone, hSome⟩ := mmMessagesContent_noNull items
    simp only [mmMessagesContent, List.mem_cons, not_or, Option.some.injEq]
    refine ⟨⟨by simp, hNone⟩, fun m' hMem => ?_⟩
    rcases hMem with rfl | hTail
    · exact m.content_noNull
    · exact hSome m' hTail

end

/-! ### Reading what is there -/

section

variable {inp : Input} {off : Nat}

theorem mFetch_holds {bs : List UInt8} (h : Holds inp.received (inp.base + off) bs)
    (hOff : off + bs.length ≤ inp.numBytes) : mFetch inp off bs.length = .ok bs := by
  rw [mFetch_inside hOff, h.take_drop]

theorem mReadUint32_holds {v : Nat} (h : Holds inp.received (inp.base + off) (leBytes 4 v))
    (hv : v < 2 ^ 32) (hOff : off + 4 ≤ inp.numBytes) (hNum : inp.numBytes < 2 ^ 32) :
    mReadUint32 false inp off = .ok (v, off + 4) := by
  have hFetch : mFetch inp off 4 = .ok (leBytes 4 v) := by
    simpa using mFetch_holds h (by simpa using hOff)
  have hNext : (off + 4) % 2 ^ 32 = off + 4 := Nat.mod_eq_of_lt (by omega)
  rw [mReadUint32, guardThat_false]
  simp only [hNext]
  rw [if_neg (by omega), hFetch, ok_bind]
  change Except.ok (leNat (leBytes 4 v), off + 4) = _
  rw [leNat_leBytes_of_lt (by simpa using hv)]

/-- The C string at a place where one stands. -/
theorem mFieldName_holds {name : CStr} (h : Holds inp.received (inp.base + off) name.flatten)
    (hOff : off + name.flattenedSize ≤ inp.numBytes) : mFieldName inp off = .ok name := by
  have hPrefix : name.flatten <+: inp.from off := by
    have hTake := h.take_drop
    rw [name.flatten_length] at hTake
    rw [Input.from, List.prefix_iff_eq_take, name.flatten_length, List.take_take, Nat.min_eq_left (by omega),
      hTake]
  obtain ⟨rest, hRest⟩ := hPrefix
  have hNul : (0 : UInt8) ∈ inp.from off := by
    rw [← hRest]
    simp [CStr.flatten]
  rw [mFieldName, orStop_true hNul, ← hRest, name.ofBytes_flatten_append]
  rfl

end

/-- The computation does not return. -/
abbrev Fails {α : Type} (x : MParse α) : Prop := Post x (fun _ => False) fun _ => True

theorem Fails.of_outside {α : Type} {x : MParse α} (h : GoesOutside x) : Fails x :=
  h.mono (fun _ hFalse => hFalse) fun _ _ => trivial

theorem Fails.bind {α β : Type} {x : MParse α} {f : α → MParse β} (h : Fails x) :
    Fails (x >>= f) :=
  Post.bind h fun _ hFalse => hFalse.elim

/-- A computation fails if what follows its first part fails. -/
theorem fails_bind {α β : Type} {x : MParse α} {f : α → MParse β} (h : ∀ a, x = .ok a → Fails (f a)) :
    Fails (x >>= f) := by
  cases x with
  | ok a => exact h a rfl
  | error stop => exact trivial

/-- Without room for the items nothing of the field is returned. -/
theorem alloc_fails {α : Type} {nameBytes numItems itemSize : Nat} {f : Nat → MParse α}
    (hName : nameBytes < 2 ^ 32) (h : ¬(numItems ≠ 0 ∧ storageFits nameBytes numItems itemSize))
    (hShort : ∀ dataSize, dataSize < numItems * itemSize → 2 ^ 32 ≤ numItems * itemSize →
      Fails (f dataSize)) :
    Fails (allocMMessageField false nameBytes numItems itemSize >>= f) := by
  by_cases hItems : numItems = 0
  · subst hItems
    exact trivial
  · have hFits := fun hFits => h ⟨hItems, hFits⟩
    refine Post.bind ((alloc_short hItems hName hFits).mono (fun _ hd => hd) fun _ _ => trivial) ?_
    exact fun dataSize hd => hShort dataSize hd.1 hd.2

/-! ### Fields of items of one size -/

section

variable {inp : Input}

theorem importMMessageField_holds {nameLength readOffset : Nat} {bs : List UInt8}
    (itemSize count : Nat) (hItemSize : 0 < itemSize) (hBytes : bs.length = count * itemSize)
    (h : Holds inp.received (inp.base + readOffset) bs) (hOff : readOffset + bs.length ≤ inp.numBytes)
    (hItems : count ≠ 0) (hFits : storageFits nameLength count itemSize) :
    importMMessageField false inp nameLength bs.length itemSize readOffset = .ok (count, bs) := by
  have hCount : bs.length / itemSize = count := by
    rw [hBytes, Nat.mul_div_cancel _ hItemSize]
  have hFetch : mFetch inp readOffset (count * itemSize) = .ok bs := by
    rw [← hBytes]
    exact mFetch_holds h hOff
  simp only [importMMessageField, hCount]
  rw [alloc_fits hItems hFits, ok_bind, orStop_true (by omega), hFetch]
  rfl

theorem importMMessageField_fails {nameLength readOffset : Nat} {bs : List UInt8}
    (hNum : inp.numBytes < 2 ^ 32) (itemSize count : Nat) (hItemSize : 0 < itemSize)
    (hBytes : bs.length = count * itemSize)
    (hOff : readOffset + bs.length ≤ inp.numBytes) (hName : nameLength < 2 ^ 32)
    (h : ¬(count ≠ 0 ∧ storageFits nameLength count itemSize)) :
    Fails (importMMessageField false inp nameLength bs.length itemSize readOffset) := by
  have hCount : bs.length / itemSize = count := by
    rw [hBytes, Nat.mul_div_cancel _ hItemSize]
  simp only [importMMessageField, hCount]
  exact alloc_fails hName h fun _ _ hBig => by omega

end

/-! ### Variable-size fields -/

section

variable {inp : Input} (hNum : inp.numBytes < 2 ^ 32)
include hNum

theorem blobItems_holds {raws : List (List UInt8)} {dataSize fieldEnd : Nat} (numItems slot : Nat)
    (eOffset eLeft : Nat) (hSlots : slotsInside dataSize (slot + raws.length))
    (h : Holds inp.received (inp.base + eOffset) (raws.flatMap lengthPrefixed))
    (hEnd : eOffset + (raws.flatMap lengthPrefixed).length ≤ fieldEnd)
    (hField : fieldEnd ≤ inp.numBytes) (hLeft : (raws.flatMap lengthPrefixed).length ≤ eLeft) :
    blobItems false inp dataSize numItems fieldEnd raws.length slot eOffset eLeft = .ok raws := by
  induction raws generalizing slot eOffset eLeft with
  | nil => rfl
  | cons raw raws ih =>
    simp only [List.flatMap_cons, List.length_append, lengthPrefixed_length] at hEnd hLeft
    simp only [List.flatMap_cons, holds_append, lengthPrefixed_length] at h
    obtain ⟨hItem, hRest⟩ := h
    rw [lengthPrefixed, holds_append, leBytes_length] at hItem
    rw [slotsInside, List.length_cons] at hSlots
    have hNext : (eOffset + 4) % 2 ^ 32 = eOffset + 4 := Nat.mod_eq_of_lt (by omega)
    have hWord : mFetch inp eOffset 4 = .ok (leBytes 4 raw.length) := by
      simpa using mFetch_holds hItem.1 (by rw [leBytes_length]; omega)
    have hSize : leNat (leBytes 4 raw.length) = raw.length := leNat_leBytes_of_lt (by omega)
    have hBytes : mFetch inp (eOffset + 4) raw.length = .ok raw :=
      mFetch_holds (by rw [← Nat.add_assoc]; exact hItem.2) (by omega)
    have hTail := ih (slot + 1) (eOffset + 4 + raw.length) (eLeft - (raw.length + 4))
      (by rw [slotsInside]; omega) (by simpa only [Nat.add_assoc] using hRest) (by omega) (by omega)
    rw [List.length_cons, blobItems, guardThat_false]
    simp only [hNext]
    rw [if_neg (by omega), hWord, ok_bind, guardThat_false, orStop_true (by omega)]
    simp only [hSize]
    rw [if_pos (by omega), orStop_true (by rw [slotsInside]; omega), guardThat_false, hBytes, ok_bind,
      orStop_true (by omega), hTail]
    rfl

theorem importBlobs_eq {name : CStr} {raws : List (List UInt8)} {nameOffset readOffset : Nat}
    (hName : Holds inp.received (inp.base + nameOffset) name.flatten)
    (hNameOff : nameOffset + name.flattenedSize ≤ inp.numBytes)
    (h : Holds inp.received (inp.base + readOffset) (countedItems raws))
    (hOff : readOffset + (countedItems raws).length ≤ inp.numBytes) :
    importBlobs false inp nameOffset readOffset (countedItems raws).length =
      (allocMMessageField false name.flattenedSize raws.length 8 >>= fun dataSize =>
        blobItems false inp dataSize raws.length (readOffset + (countedItems raws).length) raws.length
          0 (readOffset + 4) (countedItems raws).length >>= fun bufs => .ok (name, bufs)) := by
  have hCount := length_le_flatMap raws
  have hLength : (countedItems raws).length = 4 + (raws.flatMap lengthPrefixed).length := by
    simp [countedItems]
  rw [countedItems, holds_append] at h
  rw [importBlobs, mReadUint32_holds h.1 (by omega) (by omega) hNum, ok_bind]
  simp only
  rw [guardThat_false, mFieldName_holds hName hNameOff]
  rfl

theorem importBlobs_holds {name : CStr} {raws : List (List UInt8)} {nameOffset readOffset : Nat}
    (hName : Holds inp.received (inp.base + nameOffset) name.flatten)
    (hNameOff : nameOffset + name.flattenedSize ≤ inp.numBytes)
    (h : Holds inp.received (inp.base + readOffset) (countedItems raws))
    (hOff : readOffset + (countedItems raws).length ≤ inp.numBytes)
    (hItems : raws.length ≠ 0) (hFits : storageFits name.flattenedSize raws.length 8) :
    importBlobs false inp nameOffset readOffset (countedItems raws).length = .ok (name, raws) := by
  have hLength : (countedItems raws).length = 4 + (raws.flatMap lengthPrefixed).length := by
    simp [countedItems]
  have hHolds := h
  rw [countedItems, holds_append, leBytes_length] at hHolds
  rw [importBlobs_eq hNum hName hNameOff h hOff, alloc_fits hItems hFits, ok_bind,
    blobItems_holds hNum raws.length 0 (readOffset + 4) _ ?_ ?_ ?_ hOff ?_, ok_bind]
  · rw [slotsInside, Nat.zero_add]
  · rw [← Nat.add_assoc]
    exact hHolds.2
  · omega
  · omega

theorem importBlobs_fails {name : CStr} {raws : List (List UInt8)} {nameOffset readOffset : Nat}
    (hName : Holds inp.received (inp.base + nameOffset) name.flatten)
    (hNameOff : nameOffset + name.flattenedSize ≤ inp.numBytes)
    (h : Holds inp.received (inp.base + readOffset) (countedItems raws))
    (hOff : readOffset + (countedItems raws).length ≤ inp.numBytes)
    (hNot : ¬(raws.length ≠ 0 ∧ storageFits name.flattenedSize raws.length 8)) :
    Fails (importBlobs false inp nameOffset readOffset (countedItems raws).length) := by
  rw [importBlobs_eq hNum hName hNameOff h hOff]
  refine alloc_fails (by omega) hNot fun dataSize hLess _ => ?_
  have hShort : ¬slotsInside dataSize (0 + raws.length) := by
    rw [slotsInside, Nat.zero_add]
    omega
  have hItems : GoesOutside (blobItems false inp dataSize (0 + raws.length)
      (readOffset + (countedItems raws).length) raws.length 0 (readOffset + 4)
      (countedItems raws).length) := blobItems_short _ _ _ _ (by simp [slotsInside]) hShort
  rw [Nat.zero_add] at hItems
  exact (Fails.of_outside hItems).bind

end

/-! ### Message fields -/

/-- `parse` makes `m` of every spelling of it that is no longer than `size`. -/
def MReads (parse : Input → MParse MMessage) (m : Message) (size : Nat) : Prop :=
  ∀ (inp : Input) (bs : List UInt8), m.Spelled bs → bs.length ≤ size →
    Holds inp.received inp.base bs → inp.numBytes = bs.length → inp.numBytes < 2 ^ 32 →
    ∃ mm, parse inp = .ok mm ∧ mm.content = m

/-- `parse` fails on every spelling of `m`. -/
def MFails (parse : Input → MParse MMessage) (m : Message) : Prop :=
  ∀ (inp : Input) (bs : List UInt8), m.Spelled bs → Holds inp.received inp.base bs →
    inp.numBytes = bs.length → inp.numBytes < 2 ^ 32 → Fails (parse inp)

theorem cleanUp_fails {α : Type} (parsed : Bool) :
    Fails (cleanUpAndFail false parsed : MParse α) := by
  rw [cleanUpAndFail, guardThat_false]
  cases parsed <;> exact trivial

theorem onError_post {α β : Type} {x : MParse α} {fail : MParse β} {next : α → MParse β}
    {Q : β → Prop} (hFail : Fails fail) (hNext : ∀ a, x = .ok a → Post (next a) Q fun _ => True) :
    Post (onError x fail next) Q fun _ => True := by
  cases x with
  | ok a => exact hNext a rfl
  | error stop =>
    cases stop with
    | bError => exact hFail.mono (fun _ hFalse => hFalse.elim) fun _ _ => trivial
    | _ => exact trivial

section

variable {parse : Input → MParse MMessage} {inp : Input} (hNum : inp.numBytes < 2 ^ 32)
include hNum

/-- The loop on a spelled item comes down to parsing the item. -/
theorem mmMessageItem_eq {data : List UInt8} {fieldEnd eOffset : Nat} (parsed : Bool)
    (h : Holds inp.received (inp.base + eOffset) (lengthPrefixed data))
    (hOff : eOffset + 4 + data.length ≤ fieldEnd) (hEnd : fieldEnd ≤ inp.numBytes) :
    mmMessageItem false parse inp fieldEnd parsed eOffset =
      onError (parse (inp.sub (eOffset + 4) data.length)) (cleanUpAndFail false parsed) fun newMsg =>
        .ok (newMsg, eOffset + 4 + data.length) := by
  rw [lengthPrefixed, holds_append, leBytes_length] at h
  have hNext : (eOffset + 4) % 2 ^ 32 = eOffset + 4 := Nat.mod_eq_of_lt (by omega)
  have hItemEnd : (eOffset + 4 + data.length) % 2 ^ 32 = eOffset + 4 + data.length :=
    Nat.mod_eq_of_lt (by omega)
  have hWord : mFetch inp eOffset 4 = .ok (leBytes 4 data.length) := by
    simpa using mFetch_holds h.1 (by rw [leBytes_length]; omega)
  have hSize : leNat (leBytes 4 data.length) = data.length := leNat_leBytes_of_lt (by omega)
  rw [mmMessageItem, guardThat_false]
  simp only [hNext]
  rw [if_neg (by omega), hWord, ok_bind, guardThat_false, orStop_true (by omega)]
  simp only [hSize, hItemEnd]
  rw [if_pos (by omega), guardThat_false, orStop_true hOff]

theorem mmMessageItems_holds {items : List (Option Message)} {fuel : Nat} {bs : List UInt8}
    {readOffset eLength : Nat} (hField : readOffset + eLength ≤ inp.numBytes)
    (hParse : ∀ m, some m ∈ items → MReads parse m fuel) (hSpelled : messagesSpelled items bs)
    (k : Nat) (parsed : Bool) (eOffset : Nat) (hFuel : bs.length ≤ fuel) (hk : bs.length ≤ k)
    (h : Holds inp.received (inp.base + eOffset) bs) (hStart : readOffset ≤ eOffset)
    (hOff : eOffset + bs.length = readOffset + eLength) :
    ∃ mms : List MMessage, mmMessageItems false parse inp readOffset eLength k parsed eOffset = .ok mms ∧
      mmMessagesContent (mms.map some) = items := by
  induction items generalizing bs k parsed eOffset with
  | nil =>
    subst hSpelled
    have hDone : ¬eOffset - readOffset < eLength := by
      rw [List.length_nil] at hOff
      omega
    refine ⟨[], ?_, rfl⟩
    cases k <;> simp only [mmMessageItems, if_neg hDone]
  | cons item items ih =>
    cases item with
    | none => exact hSpelled.elim
    | some m =>
      obtain ⟨data, rest, rfl, hData, hRest⟩ := hSpelled
      rw [holds_append, lengthPrefixed_length] at h
      rw [List.length_append, lengthPrefixed_length] at hOff hFuel hk
      obtain ⟨k, rfl⟩ : ∃ j, k = j + 1 := ⟨k - 1, by omega⟩
      have hBytes := h.1
      rw [lengthPrefixed, holds_append, leBytes_length] at hBytes
      obtain ⟨mm, hmm, rfl⟩ := hParse m (List.mem_cons_self ..) (inp.sub (eOffset + 4) data.length) data
        hData (by omega) (by simpa only [Input.sub_received, Input.sub_base, Nat.add_assoc] using hBytes.2)
        rfl (by rw [Input.sub_numBytes]; omega)
      obtain ⟨mms, hTail, rfl⟩ := ih (fun m hMem => hParse m (List.mem_cons_of_mem _ hMem)) hRest k true
        (eOffset + 4 + data.length) (by omega) (by omega) (by simpa only [Nat.add_assoc] using h.2)
        (by omega) (by omega)
      refine ⟨mm :: mms, ?_, rfl⟩
      rw [mmMessageItems, if_pos (by omega), mmMessageItem_eq hNum parsed h.1 (by omega) hField, hmm]
      simp only [onError, ok_bind]
      rw [hTail]
      rfl

/-- Items that are parsed are as many as spelled, and none of them fails. -/
theorem mmMessageItems_post {items : List (Option Message)} {bs : List UInt8}
    {readOffset eLength : Nat} (hField : readOffset + eLength ≤ inp.numBytes)
    (hSpelled : messagesSpelled items bs) (k : Nat) (parsed : Bool) (eOffset : Nat)
    (h : Holds inp.received (inp.base + eOffset) bs) (hStart : readOffset ≤ eOffset)
    (hOff : eOffset + bs.length = readOffset + eLength) :
    Post (mmMessageItems false parse inp readOffset eLength k parsed eOffset)
      (fun mms => mms.length = items.length ∧ ∀ m, some m ∈ items → ¬MFails parse m)
      fun _ => True := by
  induction items generalizing bs k parsed eOffset with
  | nil =>
    subst hSpelled
    have hDone : ¬eOffset - readOffset < eLength := by
      rw [List.length_nil] at hOff
      omega
    cases k <;> simp [mmMessageItems, hDone]
  | cons item items ih =>
    cases item with
    | none => exact hSpelled.elim
    | some m =>
      obtain ⟨data, rest, rfl, hData, hRest⟩ := hSpelled
      rw [holds_append, lengthPrefixed_length] at h
      rw [List.length_append, lengthPrefixed_length] at hOff
      cases k with
      | zero =>
        rw [mmMessageItems, if_pos (by omega)]
        exact trivial
      | succ k =>
        have hBytes := h.1
        rw [lengthPrefixed, holds_append, leBytes_length] at hBytes
        have hItem : Post (onError (parse (inp.sub (eOffset + 4) data.length))
            (cleanUpAndFail false parsed) fun newMsg => .ok (newMsg, eOffset + 4 + data.length))
            (fun r => r.2 = eOffset + 4 + data.length ∧ ¬MFails parse m) fun _ => True := by
          refine onError_post (cleanUp_fails parsed) fun mm hmm => ⟨rfl, fun hFails => ?_⟩
          refine (hFails _ data hData ?_ rfl (by rw [Input.sub_numBytes]; omega)).of_ok hmm
          simpa only [Input.sub_received, Input.sub_base, Nat.add_assoc] using hBytes.2
        rw [mmMessageItems, if_pos (by omega), mmMessageItem_eq hNum parsed h.1 (by omega) hField]
        refine hItem.bind fun ⟨mm, next⟩ ⟨hNext, hHead⟩ => ?_
        simp only at hNext
        subst hNext
        have hTail := ih hRest k true (eOffset + 4 + data.length)
          (by simpa only [Nat.add_assoc] using h.2) (by omega) (by omega)
        refine hTail.bind fun mms ⟨hLength, hItems⟩ => ⟨by simp [hLength], fun m' hMem => ?_⟩
        rcases List.mem_cons.mp hMem with hEq | hRestMem
        · rwa [Option.some.inj hEq]
        · exact hItems m' hRestMem

end

/-! ### Fields -/

/-- The array's items have one size. -/
def DataArray.isFixedSize : DataArray → Bool
  | .bool _ | .prim _ _ | .point _ | .rect _ => true
  | _ => false

theorem importClass_fixed {array : DataArray} (h : array.isFixedSize) :
    importClass array.typeCode = .fixed array.arrayClass := by
  cases array with
  | prim t items => cases t <;> rfl
  | bool items => rfl
  | point items => rfl
  | rect items => rfl
  | _ => cases h

/-- Every other field is a blob to `MMUnflattenMessage`, unless it holds Messages. -/
theorem importClass_blob (tc : BlobTypeCode) : importClass tc.code = .blob tc := by
  rw [importClass, if_neg tc.not_message, dif_pos ⟨tc.variableSize, tc.not_message⟩]

def RawTypeCode.blob (tc : RawTypeCode) : BlobTypeCode where
  code := tc.code
  variableSize := by
    have hNot := tc.not_class
    simp only [classTypeCodes, List.mem_cons, List.not_mem_nil, or_false, not_or] at hNot
    simp [isTypeCodeVariableSize, hNot]
  not_message hMessage := tc.not_class (by rw [hMessage]; decide)

def stringBlob : BlobTypeCode := ⟨B_STRING_TYPE, rfl, by decide⟩

theorem stringBlob_content (raws : List (List UInt8)) :
    (MMData.blob stringBlob (raws.map some)).content = .string (raws.map CStr.ofBytes) := by
  have hString : stringBlob.code = B_STRING_TYPE := rfl
  rw [MMData.content, blobContent, if_pos hString, List.map_map]
  rfl

theorem rawBlob_content (tc : RawTypeCode) (raws : List (List UInt8)) :
    (MMData.blob tc.blob (raws.map some)).content = .buffer tc (raws.map some) := by
  have hRaw : tc.blob.code ∉ classTypeCodes := tc.not_class
  have hString : tc.blob.code ≠ B_STRING_TYPE := fun hString => hRaw (by rw [hString]; decide)
  rw [MMData.content, blobContent, if_neg hString, dif_pos hRaw, List.map_map]
  rfl

theorem spellsString_content {items : List CStr} {raws : List (List UInt8)}
    (h : List.Forall₂ SpellsString items raws) : items = raws.map CStr.ofBytes := by
  induction h with
  | nil => rfl
  | cons hHead _ ih => rw [List.map_cons, ← ih, hHead.2]

theorem mmMessagesContent_length (items : List (Option MMessage)) :
    (mmMessagesContent items).length = items.length := by
  induction items with
  | nil => rfl
  | cons item items ih =>
    cases item <;> rw [mmMessagesContent, List.length_cons, List.length_cons, ih]

/-- The bytes of a field of items of one size. -/
theorem fixed_length {array : DataArray} (hFixed : array.isFixedSize) {data : List UInt8}
    (hSpelled : array.Spelled data) : data.length = array.numItems * array.cItemSize := by
  cases array with
  | bool items =>
    rw [DataArray.Spelled] at hSpelled
    subst hSpelled
    simp [DataArray.numItems, DataArray.cItemSize]
  | prim t items =>
    rw [DataArray.Spelled] at hSpelled
    rw [hSpelled]
    exact t.codec.encodeAll_length items
  | point items =>
    rw [DataArray.Spelled] at hSpelled
    rw [hSpelled]
    exact Point.codec.encodeAll_length items
  | rect items =>
    rw [DataArray.Spelled] at hSpelled
    rw [hSpelled]
    exact Rect.codec.encodeAll_length items
  | _ => cases hFixed

theorem cItemSize_pos (array : DataArray) : 0 < array.cItemSize := by
  cases array with
  | prim t items => exact t.size_pos
  | _ => exact Nat.succ_pos _

theorem importFixed_holds {inp : Input} {nameLength readOffset : Nat} {array : DataArray}
    {data : List UInt8} (hFixed : array.isFixedSize) (hSpelled : array.Spelled data)
    (h : Holds inp.received (inp.base + readOffset) data)
    (hOff : readOffset + data.length ≤ inp.numBytes) (hItems : array.numItems ≠ 0)
    (hFits : storageFits nameLength array.numItems array.cItemSize) :
    ∃ d : MMData, importFixed false inp nameLength data.length readOffset array.arrayClass = .ok d ∧
      d.isFlattenable ∧ d.content = array := by
  have hImport := importMMessageField_holds array.cItemSize array.numItems (cItemSize_pos array)
    (fixed_length hFixed hSpelled) h hOff hItems hFits
  cases array with
  | bool items =>
    rw [DataArray.Spelled] at hSpelled
    refine ⟨.bool data, ?_, rfl, by rw [MMData.content, ← hSpelled]⟩
    rw [DataArray.arrayClass, importFixed]
    rw [DataArray.cItemSize] at hImport
    rw [hImport]
    rfl
  | prim t items =>
    rw [DataArray.Spelled] at hSpelled
    refine ⟨.prim t items, ?_, rfl, rfl⟩
    rw [DataArray.cItemSize] at hImport
    rw [DataArray.arrayClass, importFixed, hImport, ok_bind, hSpelled]
    exact congrArg (fun xs => Except.ok (MMData.prim t xs)) (t.codec.decodeAll_encodeAll items)
  | point items =>
    rw [DataArray.Spelled] at hSpelled
    refine ⟨.point items, ?_, rfl, rfl⟩
    rw [DataArray.cItemSize] at hImport
    rw [DataArray.arrayClass, importFixed, show (8 : Nat) = Point.codec.size from rfl, hImport, ok_bind,
      hSpelled]
    exact congrArg (fun xs => Except.ok (MMData.point xs)) (Point.codec.decodeAll_encodeAll items)
  | rect items =>
    rw [DataArray.Spelled] at hSpelled
    refine ⟨.rect items, ?_, rfl, rfl⟩
    rw [DataArray.cItemSize] at hImport
    rw [DataArray.arrayClass, importFixed, show (16 : Nat) = Rect.codec.size from rfl, hImport, ok_bind,
      hSpelled]
    exact congrArg (fun xs => Except.ok (MMData.rect xs)) (Rect.codec.decodeAll_encodeAll items)
  | _ => cases hFixed

section

variable {parse : Input → MParse MMessage} {fuel : Nat} {inp : Input} {name : CStr}
  {nameOffset readOffset : Nat} {fields : List MMField}
  (hNum : inp.numBytes < 2 ^ 32)
  (hName : Holds inp.received (inp.base + nameOffset) name.flatten)
  (hNameOff : nameOffset + name.flattenedSize ≤ inp.numBytes)
include hNum hName hNameOff

/-- A blob field is imported. -/
theorem importField_blob {tc : BlobTypeCode} {raws : List (List UInt8)}
    (hNew : name ∉ fields.map mmFieldName)
    (hData : Holds inp.received (inp.base + readOffset) (countedItems raws))
    (hOff : readOffset + (countedItems raws).length ≤ inp.numBytes) (hItems : raws.length ≠ 0)
    (hFits : storageFits name.flattenedSize raws.length 8) :
    importField false parse fuel inp fields nameOffset name.flattenedSize readOffset
        (countedItems raws).length (importClass tc.code) =
      .ok (fields ++ [(name.flatten, .blob tc (raws.map some))]) := by
  have hBlobs := importBlobs_holds hNum hName hNameOff hData hOff hItems hFits
  rw [importClass_blob, importField, hBlobs, ok_bind]
  simp only
  rw [mmRemoveField_absent hNew]
  rfl

theorem importMessages_holds {items : List (Option Message)} {data : List UInt8}
    (hSpelled : messagesSpelled items data)
    (hData : Holds inp.received (inp.base + readOffset) data)
    (hOff : readOffset + data.length ≤ inp.numBytes)
    (hParse : ∀ m, some m ∈ items → MReads parse m fuel) (hFuel : data.length ≤ fuel)
    (hItems : items.length ≠ 0) (hFits : storageFits name.flattenedSize items.length 8) :
    ∃ mms : List MMessage,
      importMessages false parse fuel inp fields nameOffset readOffset data.length = .ok (name, mms) ∧
        mmMessagesContent (mms.map some) = items := by
  obtain ⟨mms, hParsed, hContent⟩ := mmMessageItems_holds hNum hOff hParse hSpelled fuel false readOffset
    hFuel hFuel hData (Nat.le_refl _) rfl
  have hLength : items.length = mms.length := by
    rw [← hContent, mmMessagesContent_length, List.length_map]
  rw [hLength] at hItems hFits
  have hSlots : slotsInside (mms.length * 8) mms.length := Nat.le_refl _
  refine ⟨mms, ?_, hContent⟩
  rw [importMessages, hParsed, onError, putMessages, guardThat_false, mFieldName_holds hName hNameOff,
    ok_bind, alloc_fits hItems hFits, ok_bind, orStop_true hSlots]
  rfl

variable {array : DataArray} {data : List UInt8} (hSpelled : array.Spelled data)
  (hData : Holds inp.received (inp.base + readOffset) data)
  (hOff : readOffset + data.length ≤ inp.numBytes)
include hSpelled hData hOff

/-- A field that the C codec can hold is imported with its name and its content. -/
theorem importField_holds (hNew : name ∉ fields.map mmFieldName) (hStorable : CStorable (name, array))
    (hParse : ∀ m, some m ∈ array.messages → MReads parse m fuel) (hFuel : data.length ≤ fuel) :
    ∃ f : MMField, importField false parse fuel inp fields nameOffset name.flattenedSize readOffset
        data.length (importClass array.typeCode) = .ok (fields ++ [f]) ∧
      mmFieldName f = name ∧ f.2.isFlattenable ∧ f.2.content = array := by
  obtain ⟨hItems, hFits⟩ := hStorable
  have hNameField : ∀ d, mmFieldName (name.flatten, d) = name := fun _ => name.ofBytes_flatten
  by_cases hFixed : array.isFixedSize
  · obtain ⟨d, hImport, hFlat, hContent⟩ := importFixed_holds hFixed hSpelled hData hOff hItems hFits
    have hFetch : mFetch inp nameOffset name.flattenedSize = .ok name.flatten := by
      rw [← name.flatten_length]
      exact mFetch_holds hName (by rw [name.flatten_length]; exact hNameOff)
    refine ⟨(name.flatten, d), ?_, hNameField d, hFlat, hContent⟩
    rw [importClass_fixed hFixed, importField, hImport, ok_bind, hFetch, ok_bind, importedName,
      CStr.flatten, List.dropLast_concat]
    rfl
  cases array with
  | string items =>
    rw [DataArray.Spelled] at hSpelled
    obtain ⟨raws, hStrings, rfl⟩ := hSpelled
    rw [DataArray.numItems, hStrings.length_eq] at hItems hFits
    have hCode : (DataArray.string items).typeCode = stringBlob.code := rfl
    refine ⟨(name.flatten, .blob stringBlob (raws.map some)), ?_, hNameField _, rfl, ?_⟩
    · rw [hCode]
      exact importField_blob hNum hName hNameOff hNew hData hOff hItems hFits
    · rw [spellsString_content hStrings]
      exact stringBlob_content raws
  | buffer tc items =>
    rw [DataArray.Spelled] at hSpelled
    obtain ⟨raws, rfl, rfl⟩ := hSpelled
    rw [DataArray.numItems, List.length_map] at hItems hFits
    have hCode : (DataArray.buffer tc (raws.map some)).typeCode = tc.blob.code := rfl
    refine ⟨(name.flatten, .blob tc.blob (raws.map some)), ?_, hNameField _, rfl, rawBlob_content tc raws⟩
    rw [hCode]
    exact importField_blob hNum hName hNameOff hNew hData hOff hItems hFits
  | message items =>
    rw [DataArray.Spelled] at hSpelled
    obtain ⟨mms, hImport, hContent⟩ :=
      importMessages_holds hNum hName hNameOff hSpelled hData hOff hParse hFuel hItems hFits
    have hClass : importClass (DataArray.typeCode (.message items)) = .message := rfl
    refine ⟨(name.flatten, .message (mms.map some)), ?_, hNameField _, rfl, ?_⟩
    · rw [hClass, importField, hImport, ok_bind]
      simp only
      rw [mmRemoveField_absent hNew]
      rfl
    · rw [MMData.content, hContent]
  | pointer items => rw [DataArray.Spelled] at hSpelled; exact hSpelled.elim
  | tag numItems => rw [DataArray.Spelled] at hSpelled; exact hSpelled.elim
  | _ => exact absurd rfl hFixed

/-- A field that the C codec cannot hold, or with a Message that fails, is not imported. -/
theorem importField_fails
    (hBad : ¬CStorable (name, array) ∨ ∃ m, some m ∈ array.messages ∧ MFails parse m) :
    Fails (importField false parse fuel inp fields nameOffset name.flattenedSize readOffset data.length
      (importClass array.typeCode)) := by
  by_cases hFixed : array.isFixedSize
  · have hNot : ¬CStorable (name, array) := by
      refine hBad.resolve_right ?_
      rintro ⟨m, hMem, -⟩
      cases array with
      | message items => cases hFixed
      | _ => cases hMem
    have hImport := importMMessageField_fails hNum array.cItemSize array.numItems (cItemSize_pos array)
      (fixed_length hFixed hSpelled) hOff (show name.flattenedSize < 2 ^ 32 by omega) hNot
    rw [importClass_fixed hFixed, importField]
    refine Fails.bind ?_
    cases array with
    | bool items => exact hImport.bind
    | prim t items => exact hImport.bind
    | point items => exact hImport.bind
    | rect items => exact hImport.bind
    | _ => cases hFixed
  have hBlob : ∀ (tc : BlobTypeCode) (raws : List (List UInt8)), data = countedItems raws →
      array.typeCode = tc.code → ¬(raws.length ≠ 0 ∧ storageFits name.flattenedSize raws.length 8) →
      Fails (importField false parse fuel inp fields nameOffset name.flattenedSize readOffset data.length
        (importClass array.typeCode)) := by
    rintro tc raws rfl hCode hNot
    rw [hCode, importClass_blob, importField]
    exact (importBlobs_fails hNum hName hNameOff hData hOff hNot).bind
  cases array with
  | string items =>
    rw [DataArray.Spelled] at hSpelled
    obtain ⟨raws, hStrings, hEq⟩ := hSpelled
    have hNot := hBad.resolve_right (by simp [DataArray.messages])
    rw [CStorable, DataArray.numItems, hStrings.length_eq] at hNot
    exact hBlob stringBlob raws hEq rfl hNot
  | buffer tc items =>
    rw [DataArray.Spelled] at hSpelled
    obtain ⟨raws, rfl, hEq⟩ := hSpelled
    have hNot := hBad.resolve_right (by simp [DataArray.messages])
    rw [CStorable, DataArray.numItems, List.length_map] at hNot
    exact hBlob tc.blob raws hEq rfl hNot
  | message items =>
    rw [DataArray.Spelled] at hSpelled
    have hClass : importClass (DataArray.typeCode (.message items)) = .message := rfl
    rw [hClass, importField]
    refine Fails.bind ?_
    have hFail : ∀ {α : Type}, Fails ((do
        guardThat false (lookupStays inp nameOffset fields)
        orStop (lookupStays inp nameOffset fields) .outsideInput
        .error .bError) : MParse α) := fun {α} =>
      Post.bind_any (fun _ => trivial) fun _ => Post.bind_any (fun _ => trivial) fun _ => trivial
    refine onError_post hFail fun newMsgs hParsed => ?_
    obtain ⟨hLength, hItems⟩ := (mmMessageItems_post hNum hOff hSpelled fuel false readOffset hData
      (Nat.le_refl _) rfl).of_ok hParsed
    have hNot : ¬CStorable (name, .message items) := by
      refine hBad.resolve_right ?_
      rintro ⟨m, hMem, hm⟩
      exact hItems m hMem hm
    rw [CStorable, DataArray.numItems, ← hLength] at hNot
    rw [putMessages, guardThat_false, mFieldName_holds hName hNameOff, ok_bind]
    refine alloc_fails (show name.flattenedSize < 2 ^ 32 by omega) hNot fun dataSize hLess _ => ?_
    have hSlots : ¬slotsInside dataSize newMsgs.length := Nat.not_le.mpr hLess
    rw [orStop_false hSlots]
    exact trivial
  | pointer items => rw [DataArray.Spelled] at hSpelled; exact hSpelled.elim
  | tag numItems => rw [DataArray.Spelled] at hSpelled; exact hSpelled.elim
  | _ => exact absurd rfl hFixed

end

/-! ### Entries -/

section

variable {parse : Input → MParse MMessage} {fuel : Nat} {inp : Input}
  (hNum : inp.numBytes < 2 ^ 32)
include hNum

/-- The entry loop on an entry comes down to importing the field. -/
theorem mmUnflattenEntry_raw {nameBytes : List UInt8} {typeCode : UInt32} {data : List UInt8}
    (fields : List MMField) (off : Nat)
    (h : Holds inp.received (inp.base + off)
      (lengthPrefixed nameBytes ++ leBytes 4 typeCode.toNat ++ lengthPrefixed data))
    (hOff : off + (12 + nameBytes.length + data.length) ≤ inp.numBytes) :
    mmUnflattenEntry false parse fuel inp fields off =
      (importField false parse fuel inp fields (off + 4) nameBytes.length
        (off + 4 + nameBytes.length + 4 + 4) data.length (importClass typeCode) >>= fun fields =>
          .ok (fields, off + (12 + nameBytes.length + data.length))) := by
  simp only [lengthPrefixed, holds_append, List.length_append, leBytes_length] at h
  obtain ⟨⟨⟨hNameLen, -⟩, hCode⟩, hLen, -⟩ := h
  have hCodeLt : typeCode.toNat < 2 ^ 32 := typeCode.toNat_lt
  rw [mmUnflattenEntry, mReadUint32_holds hNameLen (by omega) (by omega) hNum, ok_bind]
  simp only
  rw [if_neg (by omega),
    mReadUint32_holds (by simpa only [Nat.add_assoc] using hCode) hCodeLt (by omega) hNum, ok_bind]
  simp only
  rw [mReadUint32_holds (by simpa only [Nat.add_assoc] using hLen) (by omega) (by omega) hNum,
    ok_bind]
  simp only
  rw [if_neg (by omega), UInt32.ofNat_toNat]
  refine bind_congr fun fields => congrArg Except.ok (Prod.ext rfl ?_)
  simp only
  omega

theorem mmUnflattenEntry_eq {name : CStr} {typeCode : UInt32} {data : List UInt8}
    (fields : List MMField) (off : Nat)
    (h : Holds inp.received (inp.base + off) (wireEntry name typeCode data))
    (hOff : off + (wireEntry name typeCode data).length ≤ inp.numBytes) :
    mmUnflattenEntry false parse fuel inp fields off =
      (importField false parse fuel inp fields (off + 4) name.flattenedSize
        (off + 4 + name.flattenedSize + 4 + 4) data.length (importClass typeCode) >>= fun fields =>
          .ok (fields, off + (wireEntry name typeCode data).length)) := by
  rw [wireEntry_length, ← name.flatten_length] at hOff ⊢
  exact mmUnflattenEntry_raw hNum fields off h hOff

theorem mmUnflattenEntries_holds {es : List (CStr × DataArray)} {bs : List UInt8}
    (hSpelled : entriesSpelled es bs) (fields : List MMField) (off : Nat)
    (hDistinct : (fields.map mmFieldName ++ es.map Prod.fst).Nodup)
    (hStorable : ∀ e ∈ es, CStorable e)
    (hParse : ∀ e ∈ es, ∀ m, some m ∈ e.2.messages → MReads parse m fuel) (hFuel : bs.length ≤ fuel)
    (h : Holds inp.received (inp.base + off) bs) (hOff : off + bs.length ≤ inp.numBytes) :
    ∃ fs : List MMField, mmUnflattenEntries false parse fuel inp es.length fields off =
        .ok (fields ++ fs) ∧ mmFieldsContent fs = es := by
  induction es generalizing fields off bs with
  | nil => exact ⟨[], by rw [List.append_nil]; rfl, rfl⟩
  | cons e es ih =>
    obtain ⟨name, array⟩ := e
    obtain ⟨data, rest, rfl, hData, hRest⟩ := hSpelled
    rw [holds_append] at h
    rw [List.length_append] at hFuel hOff
    have hWire := wireEntry_length name array.typeCode data
    have hNew : name ∉ fields.map mmFieldName := by
      rw [List.map_cons, List.nodup_append] at hDistinct
      exact fun hOld => hDistinct.2.2 _ hOld _ (List.mem_cons_self ..) rfl
    have hNameHolds : Holds inp.received (inp.base + (off + 4)) name.flatten := wireEntry_name h.1
    have hDataHolds : Holds inp.received (inp.base + (off + 4 + name.flattenedSize + 4 + 4)) data := by
      simpa only [Nat.add_assoc] using wireEntry_data h.1
    obtain ⟨f, hImport, hName, hFlat, hContent⟩ := importField_holds hNum hNameHolds (by omega) hData
      hDataHolds (by omega) hNew
      (hStorable _ (List.mem_cons_self ..)) (hParse _ (List.mem_cons_self ..)) (by omega)
    obtain ⟨fs, hTail, rfl⟩ := ih hRest (fields ++ [f]) (off + (wireEntry name array.typeCode data).length)
      (by simpa [hName] using hDistinct) (fun e hMem => hStorable e (List.mem_cons_of_mem _ hMem))
      (fun e hMem => hParse e (List.mem_cons_of_mem _ hMem)) (by omega)
      (by simpa only [Nat.add_assoc] using h.2) (by omega)
    refine ⟨f :: fs, ?_, ?_⟩
    · rw [List.length_cons, mmUnflattenEntries, mmUnflattenEntry_eq hNum fields off h.1 (by omega), hImport,
        ok_bind, ok_bind]
      simp only
      rw [hTail]
      simp
    · obtain ⟨nameBytes, d⟩ := f
      rw [mmFieldsContent, if_pos hFlat]
      exact congrArg₂ List.cons (Prod.ext hName hContent) rfl

theorem mmUnflattenEntries_fails {es : List (CStr × DataArray)} {bs : List UInt8}
    (hSpelled : entriesSpelled es bs) (fields : List MMField) (off : Nat)
    (hBad : ∃ e ∈ es, ¬CStorable e ∨ ∃ m, some m ∈ e.2.messages ∧ MFails parse m)
    (h : Holds inp.received (inp.base + off) bs) (hOff : off + bs.length ≤ inp.numBytes) :
    Fails (mmUnflattenEntries false parse fuel inp es.length fields off) := by
  obtain ⟨bad, hMem, hBad⟩ := hBad
  induction es generalizing fields off bs with
  | nil => cases hMem
  | cons e es ih =>
    obtain ⟨name, array⟩ := e
    obtain ⟨data, rest, rfl, hData, hRest⟩ := hSpelled
    rw [holds_append] at h
    rw [List.length_append] at hOff
    have hWire := wireEntry_length name array.typeCode data
    rw [List.length_cons, mmUnflattenEntries, mmUnflattenEntry_eq hNum fields off h.1 (by omega)]
    rcases List.mem_cons.mp hMem with rfl | hTail
    · refine Fails.bind (Fails.bind (importField_fails hNum ?_ (by omega) hData ?_ (by omega) hBad))
      · exact wireEntry_name h.1
      · simpa only [Nat.add_assoc] using wireEntry_data h.1
    · rw [bind_assoc]
      refine fails_bind fun fields _ => ?_
      rw [ok_bind]
      exact ih hRest fields _ (by simpa only [Nat.add_assoc] using h.2) (by omega) hTail

theorem mmReadHeader_holds {what : UInt32} {count : Nat}
    (h : Holds inp.received inp.base (wireHeader what count)) (hCount : count < 2 ^ 32)
    (hSize : 12 ≤ inp.numBytes) : mmReadHeader false inp = .ok (what, count, 12) := by
  simp only [wireHeader, holds_append, List.length_append, leBytes_length] at h
  obtain ⟨⟨hVersion, hWhatWord⟩, hCountWord⟩ := h
  have hStart : Holds inp.received (inp.base + 0) (leBytes 4 CURRENT_PROTOCOL_VERSION) := hVersion
  rw [mmReadHeader, mReadUint32_holds hStart (by decide) (by omega) hNum, ok_bind]
  simp only
  rw [if_neg (by decide), mReadUint32_holds hWhatWord what.toNat_lt (by omega) hNum, ok_bind]
  simp only
  rw [mReadUint32_holds hCountWord hCount (by omega) hNum, ok_bind, UInt32.ofNat_toNat]
  rfl

end

/-! ### When the C codec makes the same content of it -/

theorem MMessage.unflatten_spelled {m : Message} (hWell : m.WellFormed) (hStorable : m.Storable)
    (fuel : Nat) : MReads (MMessage.unflatten false fuel) m fuel := by
  induction hWell generalizing fuel with
  | intro m hDistinct _ ih =>
    obtain ⟨what, es⟩ := m
    rintro inp bs ⟨rest, rfl, hEntries⟩ hFuel hHolds hSize hNum
    rw [holds_append, wireHeader_length] at hHolds
    rw [List.length_append, wireHeader_length] at hFuel hSize
    obtain ⟨fuel, rfl⟩ : ∃ k, fuel = k + 1 := ⟨fuel - 1, by omega⟩
    have hCount := length_le_of_spelled hEntries
    have hParse : ∀ e ∈ es, ∀ m, some m ∈ e.2.messages →
        MReads (MMessage.unflatten false fuel) m fuel := fun e hMem m hItem =>
      ih m ⟨e, hMem, hItem⟩ (hStorable.item ⟨e, hMem, hItem⟩) fuel
    obtain ⟨fs, hFields, rfl⟩ := mmUnflattenEntries_holds hNum hEntries [] 12
      (by simpa [Message.DistinctNames] using hDistinct) hStorable.here hParse (by omega) hHolds.2
      (by omega)
    refine ⟨.mk what fs, ?_, rfl⟩
    rw [MMessage.unflatten, mmReadHeader_holds hNum hHolds.1 (by omega) (by omega), ok_bind]
    simp only
    rw [hFields]
    rfl

theorem MMessage.unflatten_fails {m : Message} (hWell : m.WellFormed) (hNot : ¬m.Storable)
    (fuel : Nat) : MFails (MMessage.unflatten false fuel) m := by
  induction hWell generalizing fuel with
  | intro m _ _ ih =>
    obtain ⟨what, es⟩ := m
    rintro inp bs ⟨rest, rfl, hEntries⟩ hHolds hSize hNum
    cases fuel with
    | zero => exact trivial
    | succ fuel =>
      rw [holds_append, wireHeader_length] at hHolds
      rw [List.length_append, wireHeader_length] at hSize
      have hCount := length_le_of_spelled hEntries
      have hBad : ∃ e ∈ es, ¬CStorable e ∨ ∃ m, some m ∈ e.2.messages ∧
          MFails (MMessage.unflatten false fuel) m := by
        by_contra hNone
        refine hNot (Message.throughout_mk (fun e hMem => ?_) fun e hMem m hItem => ?_)
        · exact by_contra fun he => hNone ⟨e, hMem, .inl he⟩
        · exact by_contra fun hm => hNone ⟨e, hMem, .inr ⟨m, hItem, ih m ⟨e, hMem, hItem⟩ hm fuel⟩⟩
      rw [MMessage.unflatten, mmReadHeader_holds hNum hHolds.1 (by omega) (by omega), ok_bind]
      exact Fails.bind (mmUnflattenEntries_fails hNum hEntries [] 12 hBad hHolds.2 (by omega))

/-- The C codec makes the content of what `Message::Flatten` wrote exactly if no reference is `NULL`
and every field can be held. -/
theorem Message.fromCpp_iff {m : Message} (hWell : m.WellFormed) (hFlat : m.Flattenable)
    (hSize : m.flattenedSize < 2 ^ 32) :
    (∃ bytes : List UInt8, m.flatten = bytes.map some ∧
      ∃ enough, ∀ fuel ≥ enough, ∃ mm, MMessage.receive fuel bytes = .ok mm ∧ mm.content = m) ↔
      m.NoNullRefs ∧ m.Storable := by
  constructor
  · rintro ⟨bytes, hBytes, enough, hReceive⟩
    obtain ⟨mm, hReceive, hContent⟩ := hReceive enough (Nat.le_refl _)
    have hNull : m.NoNullRefs := by
      rw [← hContent]
      exact mm.content_noNull
    obtain ⟨spelling, hFlatten, hSpelled⟩ := Message.flatten_spelled hFlat hNull
    have hSame : bytes = spelling :=
      List.map_injective_iff.mpr (Option.some_injective _) (hBytes.symm.trans hFlatten)
    subst hSame
    have hLength : bytes.length = m.flattenedSize := by
      rw [← m.flatten_length, hBytes, List.length_map]
    refine ⟨hNull, by_contra fun hNot => ?_⟩
    exact (MMessage.unflatten_fails hWell hNot enough ⟨bytes, 0, bytes.length⟩ bytes hSpelled (.self _) rfl
      (by rw [hLength]; exact hSize)).of_ok hReceive
  · rintro ⟨hNull, hStorable⟩
    obtain ⟨bytes, hBytes, hSpelled⟩ := Message.flatten_spelled hFlat hNull
    have hLength : bytes.length = m.flattenedSize := by
      rw [← m.flatten_length, hBytes, List.length_map]
    refine ⟨bytes, hBytes, bytes.length, fun fuel hFuel => ?_⟩
    exact MMessage.unflatten_spelled hWell hStorable fuel ⟨bytes, 0, bytes.length⟩ bytes hSpelled hFuel
      (.self _) rfl (by rw [hLength]; exact hSize)

end BeShare.Muscle
