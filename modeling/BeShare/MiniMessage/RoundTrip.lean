import BeShare.MiniMessage.Equality
import BeShare.MiniMessage.Interop

/-!
What `MMUnflattenMessage` makes of what `MMFlattenMessage` writes, and when that is equal to the message.
-/

namespace BeShare.Muscle

open BeShare.Lib

/-- `MMGetFlattenedSize`, which adds up in 32 bits -/
def mmGetFlattenedSize (m : MMessage) : UInt32 := .ofNat m.flattenedSize

/-- Exactly `MMGetFlattenedSize` bytes are written, and `MMUnflattenMessage` makes an equal message of them. -/
def MMessage.ComesBack (m : MMessage) : Prop :=
  ∃ bytes : List UInt8, m.flatten = bytes.map some ∧ bytes.length = (mmGetFlattenedSize m).toNat ∧
    ∃ enough, ∀ fuel ≥ enough, ∃ m', MMessage.receive fuel bytes = .ok m' ∧ mmAreMessagesEqual m m' = true

/-! ### What is written is read back -/

/-- `parse` makes of the wire form of `m` what `reimported` says. -/
def ReadsBack (parse : Input → MParse MMessage) (m : MMessage) (size : Nat) : Prop :=
  ∀ inp : Input, m.wire.length ≤ size → Holds inp.received inp.base m.wire → inp.numBytes = m.wire.length →
    inp.numBytes < 2 ^ 32 → parse inp = .ok m.reimported

section

variable {parse : Input → MParse MMessage} {inp : Input} (hNum : inp.numBytes < 2 ^ 32)
include hNum

theorem mmMessageItems_wire {items : List (Option MMessage)} {fuel readOffset eLength : Nat}
    (hField : readOffset + eLength ≤ inp.numBytes) (hNone : none ∉ items)
    (hParse : ∀ m, some m ∈ items → ReadsBack parse m fuel) (k : Nat) (parsed : Bool) (eOffset : Nat)
    (hFuel : (mmMessagesWire items).length ≤ fuel) (hk : (mmMessagesWire items).length ≤ k)
    (h : Holds inp.received (inp.base + eOffset) (mmMessagesWire items)) (hStart : readOffset ≤ eOffset)
    (hOff : eOffset + (mmMessagesWire items).length = readOffset + eLength) :
    ∃ msgs : List MMessage, mmMessageItems false parse inp readOffset eLength k parsed eOffset = .ok msgs ∧
      msgs.map some = mmMessagesReimported items := by
  induction items generalizing k parsed eOffset with
  | nil =>
    have hDone : ¬eOffset - readOffset < eLength := by
      rw [mmMessagesWire, List.length_nil] at hOff
      omega
    refine ⟨[], ?_, rfl⟩
    cases k <;> simp only [mmMessageItems, if_neg hDone]
  | cons item items ih =>
    cases item with
    | none => exact absurd List.mem_cons_self hNone
    | some m =>
      rw [mmMessagesWire, holds_append, lengthPrefixed_length] at h
      rw [mmMessagesWire, List.length_append, lengthPrefixed_length] at hOff hFuel hk
      obtain ⟨k, rfl⟩ : ∃ j, k = j + 1 := ⟨k - 1, by omega⟩
      have hBytes := h.1
      rw [lengthPrefixed, holds_append, leBytes_length] at hBytes
      have hItem := hParse m List.mem_cons_self (inp.sub (eOffset + 4) m.wire.length) (by omega)
        (by simpa only [Input.sub_received, Input.sub_base, Nat.add_assoc] using hBytes.2) rfl
        (by rw [Input.sub_numBytes]; omega)
      obtain ⟨msgs, hTail, hMsgs⟩ := ih (fun hIn => hNone (List.mem_cons_of_mem _ hIn))
        (fun m hIn => hParse m (List.mem_cons_of_mem _ hIn)) k true (eOffset + 4 + m.wire.length) (by omega)
        (by omega) (by simpa only [Nat.add_assoc] using h.2) (by omega) (by omega)
      refine ⟨m.reimported :: msgs, ?_, ?_⟩
      · rw [mmMessageItems, if_pos (by omega), mmMessageItem_eq hNum parsed h.1 (by omega) hField, hItem]
        simp only [onError, ok_bind]
        rw [hTail]
        rfl
      · rw [List.map_cons, hMsgs, mmMessagesReimported]

theorem importMessages_wire {fuel : Nat} {name : CStr} {nameOffset readOffset : Nat} (fields : List MMField)
    {items : List (Option MMessage)} (hName : Holds inp.received (inp.base + nameOffset) name.flatten)
    (hNameOff : nameOffset + name.flattenedSize ≤ inp.numBytes)
    (hData : Holds inp.received (inp.base + readOffset) (mmMessagesWire items))
    (hOff : readOffset + (mmMessagesWire items).length ≤ inp.numBytes) (hNone : none ∉ items)
    (hParse : ∀ m, some m ∈ items → ReadsBack parse m fuel) (hFuel : (mmMessagesWire items).length ≤ fuel)
    (hItems : items.length ≠ 0) (hFits : storageFits name.flattenedSize items.length 8) :
    ∃ msgs : List MMessage, importMessages false parse fuel inp fields nameOffset readOffset
        (mmMessagesWire items).length = .ok (name, msgs) ∧ msgs.map some = mmMessagesReimported items := by
  obtain ⟨msgs, hParsed, hMsgs⟩ := mmMessageItems_wire hNum hOff hNone hParse fuel false readOffset hFuel hFuel hData
    (Nat.le_refl _) rfl
  have hLength : items.length = msgs.length := by
    rw [← mmMessagesReimported_length, ← hMsgs, List.length_map]
  rw [hLength] at hItems hFits
  have hSlots : slotsInside (msgs.length * 8) msgs.length := Nat.le_refl _
  refine ⟨msgs, ?_, hMsgs⟩
  rw [importMessages, hParsed, onError, putMessages, guardThat_false, mFieldName_holds hName hNameOff,
    ok_bind, alloc_fits hItems hFits, ok_bind, orStop_true hSlots]
  rfl

end

theorem importClass_of_fixed {data : MMData} (hFixed : data.isVariableSize = false) :
    importClass data.typeCode = .fixed (arrayClass data.typeCode) := by
  unfold MMData.isVariableSize at hFixed
  have hMessage : data.typeCode ≠ B_MESSAGE_TYPE := by
    intro hMessage
    rw [hMessage] at hFixed
    cases hFixed
  rw [importClass, if_neg hMessage, dif_neg fun hBlob => Bool.false_ne_true (hFixed.symm.trans hBlob.1)]

theorem importFixed_wire {inp : Input} {nameLength readOffset : Nat} {data : MMData}
    (hFixed : data.isVariableSize = false) (hFlat : data.isFlattenable = true)
    (h : Holds inp.received (inp.base + readOffset) data.wire)
    (hOff : readOffset + data.wire.length ≤ inp.numBytes) (hItems : data.numItems ≠ 0)
    (hFits : storageFits nameLength data.numItems data.itemSize) :
    importFixed false inp nameLength data.wire.length readOffset (arrayClass data.typeCode) = .ok data := by
  have hData := MMData.fixedOf_wire hFixed hFlat
  cases data with
  | bool items =>
    have hImport := importMMessageField_holds 1 items.length Nat.one_pos (Nat.mul_one _).symm h hOff hItems hFits
    exact congrArg (· >>= fun r => Except.ok (MMData.bool r.2)) hImport
  | prim t items =>
    have hClass : arrayClass (MMData.prim t items).typeCode = .prim t := by
      cases t <;> rfl
    have hImport := importMMessageField_holds t.size items.length t.size_pos (t.codec.encodeAll_length items) h hOff
      hItems hFits
    rw [hClass] at hData ⊢
    exact (congrArg (· >>= _) hImport).trans (congrArg Except.ok hData)
  | point items =>
    have hImport := importMMessageField_holds Point.codec.size items.length (by decide)
      (Point.codec.encodeAll_length items) h hOff hItems hFits
    exact (congrArg (· >>= _) hImport).trans (congrArg Except.ok hData)
  | rect items =>
    have hImport := importMMessageField_holds Rect.codec.size items.length (by decide)
      (Rect.codec.encodeAll_length items) h hOff hItems hFits
    exact (congrArg (· >>= _) hImport).trans (congrArg Except.ok hData)
  | pointer items => cases hFlat
  | blob tc items => exact absurd (hFixed.symm.trans tc.variableSize) Bool.false_ne_true
  | message items => cases hFixed

theorem map_some_getD {items : List (Option (List UInt8))} (h : none ∉ items) : (blobBytes items).map some = items := by
  rw [blobBytes, List.map_map]
  refine (List.map_congr_left fun item hIn => ?_).trans (List.map_id _)
  cases item with
  | none => exact absurd hIn h
  | some bytes => rfl

theorem importedName_eq {name : List UInt8} (h : name.getLast? = some 0) : importedName name = name :=
  List.dropLast_append_getLast? 0 h

theorem imports_wire {parse : Input → MParse MMessage} {fuel : Nat} {inp : Input} (hNum : inp.numBytes < 2 ^ 32)
    {f : MMField} (nameOffset readOffset : Nat) (before : List MMField) (hAllocated : MMField.Allocated f)
    (hFilled : MMField.Filled f) (hName : Holds inp.received (inp.base + nameOffset) f.1)
    (hNameOff : nameOffset + f.1.length ≤ inp.numBytes) (hData : Holds inp.received (inp.base + readOffset) f.2.wire)
    (hOff : readOffset + f.2.wire.length ≤ inp.numBytes)
    (hParse : ∀ m, some m ∈ f.2.messages → ReadsBack parse m fuel) (hFuel : f.2.wire.length ≤ fuel) :
    importField false parse fuel inp before nameOffset f.1.length readOffset f.2.wire.length
      (importClass f.2.typeCode) = .ok (mmImported before (mmReimported f)) := by
  obtain ⟨name, data⟩ := f
  by_cases hSize : data.isVariableSize = true
  · -- the name is read as a C string, and it is one
    have hString : name = (CStr.ofBytes name).flatten := hAllocated.name hSize
    have hBytes : name.length = (CStr.ofBytes name).flattenedSize :=
      (congrArg List.length hString).trans (CStr.flatten_length _)
    have hHolds : Holds inp.received (inp.base + nameOffset) (CStr.ofBytes name).flatten := hString ▸ hName
    have hFits := hAllocated.storage
    simp only at hFits hNameOff
    rw [hBytes] at hFits hNameOff
    have hPut : mmImported before (mmReimported (name, data)) =
        mmRemoveField before (CStr.ofBytes name) ++ [((CStr.ofBytes name).flatten, data.reimported)] := by
      have hSize' : data.reimported.isVariableSize = true := by
        rwa [MMData.isVariableSize, MMData.typeCode_reimported]
      rw [mmImported, mmReimported, if_pos hSize', ← hString]
      rfl
    rw [hPut]
    cases data with
    | blob tc items =>
      have hRaws := map_some_getD (hFilled.blobs tc items rfl)
      have hLength : (blobBytes items).length = items.length := List.length_map ..
      have hCode : importClass (MMData.blob tc items).typeCode = .blob tc := importClass_blob tc
      have hImport := importBlobs_holds hNum hHolds hNameOff hData hOff (hLength ▸ hFilled.numItems) (hLength ▸ hFits)
      rw [hCode, importField, MMData.wire, hImport, ok_bind]
      simp only
      rw [hRaws]
      rfl
    | message items =>
      obtain ⟨msgs, hImport, hMsgs⟩ := importMessages_wire hNum before hHolds hNameOff hData hOff hFilled.messages
        hParse hFuel hFilled.numItems hFits
      have hCode : importClass (MMData.message items).typeCode = .message := rfl
      rw [hCode, importField, MMData.wire, hImport, ok_bind]
      simp only
      rw [hMsgs]
      rfl
    | prim t items => cases t <;> cases hSize
    | _ => cases hSize
  · rw [Bool.not_eq_true] at hSize
    have hImport := importFixed_wire hSize hFilled.flattenable hData hOff hFilled.numItems hAllocated.storage
    have hFetch : mFetch inp nameOffset name.length = .ok name := mFetch_holds hName hNameOff
    rw [importClass_of_fixed hSize, importField, hImport, ok_bind, hFetch, ok_bind,
      importedName_eq hAllocated.terminated, mmImported, mmReimported, MMData.reimported_of_fixed hSize,
      if_neg (by rw [hSize]; exact Bool.false_ne_true)]
    rfl

theorem mmUnflattenEntries_wire {parse : Input → MParse MMessage} {fuel : Nat} {inp : Input}
    (hNum : inp.numBytes < 2 ^ 32) {fields : List MMField} (hAllocated : ∀ f ∈ fields, MMField.Allocated f)
    (hFilled : ∀ f ∈ fields, MMField.Filled f)
    (hParse : ∀ f ∈ fields, ∀ m, some m ∈ f.2.messages → ReadsBack parse m fuel) (before : List MMField) (off : Nat)
    (hFuel : (mmFieldsWire fields).length ≤ fuel) (h : Holds inp.received (inp.base + off) (mmFieldsWire fields))
    (hOff : off + (mmFieldsWire fields).length ≤ inp.numBytes) :
    mmUnflattenEntries false parse fuel inp fields.length before off = .ok (mmFieldsReimported fields before) := by
  induction fields generalizing before off with
  | nil => rfl
  | cons f fields ih =>
    have hWire : mmFieldsWire (f :: fields) =
        lengthPrefixed f.1 ++ leBytes 4 f.2.typeCode.toNat ++ lengthPrefixed f.2.wire ++ mmFieldsWire fields := by
      rw [mmFieldsWire, if_pos (hFilled f List.mem_cons_self).flattenable]
    have hLength : (lengthPrefixed f.1 ++ leBytes 4 f.2.typeCode.toNat ++ lengthPrefixed f.2.wire).length =
        12 + f.1.length + f.2.wire.length := by
      simp only [List.length_append, lengthPrefixed_length, leBytes_length]
      omega
    rw [hWire, holds_append, hLength] at h
    rw [hWire, List.length_append, hLength] at hFuel hOff
    have hEntry := h.1
    simp only [lengthPrefixed, holds_append, List.length_append, leBytes_length] at hEntry
    have hImport := imports_wire hNum (off + 4) (off + 4 + f.1.length + 4 + 4) before
      (hAllocated f List.mem_cons_self) (hFilled f List.mem_cons_self)
      (by simpa only [Nat.add_assoc] using hEntry.1.1.2) (by omega) (by simpa only [Nat.add_assoc] using hEntry.2.2)
      (by omega) (hParse f List.mem_cons_self) (by omega)
    rw [List.length_cons, mmUnflattenEntries, mmUnflattenEntry_raw hNum before off h.1 (by omega), hImport, ok_bind,
      ok_bind]
    exact ih (fun f hIn => hAllocated f (List.mem_cons_of_mem _ hIn))
      (fun f hIn => hFilled f (List.mem_cons_of_mem _ hIn)) (fun f hIn => hParse f (List.mem_cons_of_mem _ hIn)) _ _
      (by omega) (by simpa only [Nat.add_assoc] using h.2) (by omega)

theorem MMessage.unflatten_wire {m : MMessage} (hAllocated : m.Throughout MMessage.FieldsAllocated)
    (hFilled : m.Throughout MMessage.FieldsFilled) (fuel : Nat) :
    ReadsBack (MMessage.unflatten false fuel) m fuel := by
  induction hAllocated generalizing fuel with
  | intro m hHere _ ih =>
    obtain ⟨what, fields⟩ := m
    intro inp hFuel hHolds hSize hNum
    have hCount : fields.countP (fun f => f.2.isFlattenable) = fields.length :=
      List.countP_eq_length.mpr fun f hf => (hFilled.here f hf).flattenable
    have hEntries := countP_le_wire fields
    rw [hCount] at hEntries
    rw [MMessage.wire, hCount, holds_append, wireHeader_length] at hHolds
    rw [MMessage.wire, List.length_append, wireHeader_length] at hFuel hSize
    obtain ⟨fuel, rfl⟩ : ∃ k, fuel = k + 1 := ⟨fuel - 1, by omega⟩
    have hFields := mmUnflattenEntries_wire hNum (show ∀ f ∈ fields, MMField.Allocated f from hHere) hFilled.here
      (fun f hf m hIn => ih m ⟨f, hf, hIn⟩ (hFilled.item ⟨f, hf, hIn⟩) fuel) [] 12 (by omega) hHolds.2 (by omega)
    rw [MMessage.unflatten, mmReadHeader_holds hNum hHolds.1 (by omega) (by omega), ok_bind]
    simp only
    rw [hFields]
    rfl

/-! ### When the message comes back -/

/-- A message of filled fields comes back exactly if its size fits into 32 bits and, at every depth, fields of one name
are the same. -/
theorem MMessage.comesBack_iff {m : MMessage} (hAllocated : m.Throughout MMessage.FieldsAllocated)
    (hFilled : m.Throughout MMessage.FieldsFilled) :
    m.ComesBack ↔ m.flattenedSize < 2 ^ 32 ∧ m.Throughout MMessage.RepeatsEqual := by
  obtain ⟨hFlatten, hLength⟩ := m.flatten_wire
  have hRead (hSize : m.flattenedSize < 2 ^ 32) {fuel : Nat} (hFuel : m.wire.length ≤ fuel) :
      MMessage.receive fuel m.wire = .ok m.reimported := by
    rw [← hLength] at hSize
    exact m.unflatten_wire hAllocated hFilled fuel ⟨m.wire, 0, m.wire.length⟩ hFuel (.self _) rfl hSize
  constructor
  · rintro ⟨bytes, hBytes, hWritten, enough, hBack⟩
    have hWire : bytes = m.wire := by
      rw [hFlatten] at hBytes
      exact (List.map_injective_iff.mpr (Option.some_injective _) hBytes).symm
    rw [hWire, hLength, mmGetFlattenedSize, UInt32.toNat_ofNat'] at hWritten
    have hSize : m.flattenedSize < 2 ^ 32 := hWritten ▸ Nat.mod_lt _ (by decide)
    obtain ⟨m', hReceive, hEqual⟩ := hBack (max enough m.wire.length) (Nat.le_max_left ..)
    rw [hWire, hRead hSize (Nat.le_max_right ..)] at hReceive
    obtain rfl := Except.ok.inj hReceive
    exact ⟨hSize, (areMessagesEqual_reimported hFilled).mp hEqual⟩
  · rintro ⟨hSize, hRepeats⟩
    refine ⟨m.wire, hFlatten, ?_, m.wire.length, fun fuel hFuel => ⟨m.reimported, hRead hSize hFuel, ?_⟩⟩
    · rw [hLength, mmGetFlattenedSize, UInt32.toNat_ofNat', Nat.mod_eq_of_lt hSize]
    · exact (areMessagesEqual_reimported hFilled).mpr hRepeats

theorem oneField_filled {data : MMData} (h : MMField.Filled (nameN.flatten, data))
    (hItems : ∀ m, some m ∈ data.messages → m.Throughout MMessage.FieldsFilled) :
    (oneFieldMMessage data).Throughout MMessage.FieldsFilled :=
  MMessage.throughout_mk (fun f hIn => List.mem_singleton.mp hIn ▸ h) fun f hIn m hItem => by
    rw [List.mem_singleton.mp hIn] at hItem
    exact hItems m hItem

/-- The message of a string. -/
def stringMMessage : MMessage := oneFieldMMessage (.blob stringBlob [some [104, 105, 0]])

theorem stringMMessage_filled : stringMMessage.Throughout MMessage.FieldsFilled := by
  refine oneField_filled ⟨rfl, by decide, nofun, fun tc items hBlob => ?_⟩ nofun
  cases hBlob
  decide

theorem comesBack_nested : (oneFieldMMessage (.message [some stringMMessage])).ComesBack := by
  have hString : stringMMessage.Built := oneField_built (by decide) (by decide) rfl
  have hBuilt : (oneFieldMMessage (.message [some stringMMessage])).Built := by
    refine .put nameN (.message [some stringMMessage]) (.alloc 7) (by decide) fun m hItem => ?_
    rw [Option.some.inj (List.mem_singleton.mp hItem)]
    exact hString
  have hFilled : (oneFieldMMessage (.message [some stringMMessage])).Throughout MMessage.FieldsFilled := by
    refine oneField_filled ⟨rfl, by decide, by simp [MMData.messages], nofun⟩ fun m hItem => ?_
    rw [Option.some.inj (List.mem_singleton.mp hItem)]
    exact stringMMessage_filled
  exact (MMessage.comesBack_iff hBuilt.allocated hFilled).mpr
    ⟨by decide, hBuilt.namesDistinct.mono fun m hDistinct => hDistinct.repeatsEqual⟩

/-- Two fields of one name, as `MMUnflattenMessage` makes them of what it receives -/
def repeatedMMessage : MMessage :=
  .mk 7 [(nameN.flatten, .prim .int32 [1#32]), (nameN.flatten, .prim .int32 [2#32])]

theorem repeatedMMessage_fields {f : MMField} (h : f ∈ repeatedMMessage.fields) :
    MMField.Allocated f ∧ MMField.Filled f := by
  rcases List.mem_cons.mp h with rfl | h
  · exact ⟨⟨rfl, nofun, by decide⟩, ⟨rfl, by decide, nofun, nofun⟩⟩
  · rw [List.mem_singleton.mp h]
    exact ⟨⟨rfl, nofun, by decide⟩, ⟨rfl, by decide, nofun, nofun⟩⟩

/-- The message that is received is not equal to itself. -/
theorem not_comesBack_repeated :
    MMessage.receive repeatedMMessage.wire.length repeatedMMessage.wire = .ok repeatedMMessage ∧
      repeatedMMessage.Throughout MMessage.FieldsAllocated ∧ repeatedMMessage.Throughout MMessage.FieldsFilled ∧
      ¬repeatedMMessage.ComesBack := by
  have hNoItems (m : MMessage) : ¬m.ItemOf repeatedMMessage := by
    rintro ⟨f, hf, hIn⟩
    rcases List.mem_cons.mp hf with rfl | hf
    · cases hIn
    · rw [List.mem_singleton.mp hf] at hIn
      cases hIn
  have hAllocated : repeatedMMessage.Throughout MMessage.FieldsAllocated :=
    .intro _ (fun f hf => (repeatedMMessage_fields hf).1) fun m hItem => absurd hItem (hNoItems m)
  have hFilled : repeatedMMessage.Throughout MMessage.FieldsFilled :=
    .intro _ (fun f hf => (repeatedMMessage_fields hf).2) fun m hItem => absurd hItem (hNoItems m)
  have hReceive {fuel : Nat} (hFuel : repeatedMMessage.wire.length ≤ fuel) :
      MMessage.receive fuel repeatedMMessage.wire = .ok repeatedMMessage :=
    repeatedMMessage.unflatten_wire hAllocated hFilled _ ⟨repeatedMMessage.wire, 0, repeatedMMessage.wire.length⟩
      hFuel (.self _) rfl (by decide)
  refine ⟨hReceive (Nat.le_refl _), hAllocated, hFilled, ?_⟩
  rintro ⟨bytes, hBytes, -, enough, hBack⟩
  have hWire : bytes = repeatedMMessage.wire := by
    rw [repeatedMMessage.flatten_wire.1] at hBytes
    exact (List.map_injective_iff.mpr (Option.some_injective _) hBytes).symm
  obtain ⟨m', hAgain, hEqual⟩ := hBack (max enough repeatedMMessage.wire.length) (Nat.le_max_left ..)
  rw [hWire, hReceive (Nat.le_max_right ..)] at hAgain
  obtain rfl := Except.ok.inj hAgain
  revert hEqual
  decide

end BeShare.Muscle
