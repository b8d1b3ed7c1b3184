import BeShare.MiniMessage.Unflatten

/-!
When `MMUnflattenMessage` stays inside its input, its fields and their storage: exactly when a
guarded run meets no hazard. The guarded run and the source's run are followed step by step.
-/

namespace BeShare.Muscle

open BeShare.Lib

/-- A guarded computation raises the flag exactly where the source's goes outside. -/
abbrev Guards {α : Type} (x y : MParse α) (Q : α → Prop) : Prop :=
  Flags MStop.hazard MStop.Outside x y Q

/-- The source's computation goes outside. -/
abbrev GoesOutside {α : Type} (y : MParse α) : Prop := Post y (fun _ => False) MStop.Outside

@[simp] theorem not_outside_bError : ¬MStop.Outside .bError := by simp [MStop.Outside]

@[simp] theorem not_outside_outOfFuel : ¬MStop.Outside .outOfFuel := by simp [MStop.Outside]

@[simp] theorem outside_outsideInput : MStop.Outside .outsideInput := by simp [MStop.Outside]

@[simp] theorem outside_outsideField : MStop.Outside .outsideField := by simp [MStop.Outside]

@[simp] theorem outside_outsideStorage : MStop.Outside .outsideStorage := by simp [MStop.Outside]

@[simp] theorem outside_wildPointer : MStop.Outside .wildPointer := by simp [MStop.Outside]

section

variable {α : Type} {Q : α → Prop}

theorem guards_bError : Guards (.error .bError : MParse α) (.error .bError) Q :=
  .error (by simp) (by simp)

/-- A guard is in its place if the source goes outside where it fails. -/
theorem guards_guardThat {c : Prop} [Decidable c] {x y : MParse α} (h : c → Guards x y Q)
    (hNot : ¬c → GoesOutside y) :
    Guards (guardThat true c >>= fun _ => x) (guardThat false c >>= fun _ => y) Q := by
  by_cases hc : c
  · simpa [guardThat, hc] using h hc
  · refine .inl ⟨by simp [guardThat, hc], ?_⟩
    simpa [guardThat, hc] using hNot hc

theorem guardThat_true {guarded : Bool} {c : Prop} [Decidable c] {y : MParse α} (hc : c) :
    (guardThat guarded c >>= fun _ => y) = y := by
  simp [guardThat, hc]

theorem guardThat_false {c : Prop} [Decidable c] {y : MParse α} :
    (guardThat false c >>= fun _ => y) = y := by
  simp [guardThat]

theorem orStop_true {c : Prop} [Decidable c] {stop : MStop} {y : MParse α} (hc : c) :
    (orStop c stop >>= fun _ => y) = y := by
  simp [orStop, hc]

theorem orStop_false {c : Prop} [Decidable c] {stop : MStop} {y : MParse α} (hc : ¬c) :
    (orStop c stop >>= fun _ => y) = .error stop := by
  simp [orStop, hc]

theorem orStop_outside {c : Prop} [Decidable c] {stop : MStop} {y : MParse α}
    (hStop : stop.Outside) (hc : c → GoesOutside y) : GoesOutside (orStop c stop >>= fun _ => y) := by
  by_cases h : c
  · rw [orStop_true h]
    exact hc h
  · rw [orStop_false h]
    exact hStop

/-- The use that the source makes of `c` right behind the guard. -/
theorem guards_checked {c : Prop} [Decidable c] {stop : MStop} {x y : MParse α}
    (hStop : stop.Outside) (h : c → Guards x y Q) :
    Guards (guardThat true c >>= fun _ => orStop c stop >>= fun _ => x)
      (guardThat false c >>= fun _ => orStop c stop >>= fun _ => y) Q := by
  refine guards_guardThat (fun hc => ?_) fun hc => ?_
  · rw [orStop_true hc, orStop_true hc]
    exact h hc
  · rw [orStop_false hc]
    exact hStop

theorem guards_onError {β : Type} {x y : MParse α} {fail fail' : MParse β} {f g : α → MParse β}
    {R : β → Prop} (hxy : Guards x y Q) (hFail : Guards fail fail' R)
    (hNext : ∀ a, Q a → Guards (f a) (g a) R) : Guards (onError x fail f) (onError y fail' g) R := by
  rcases hxy with ⟨rfl, hOutside⟩ | ⟨rfl, hPost⟩
  · refine .inl ⟨rfl, ?_⟩
    cases y with
    | ok a => exact hOutside.elim
    | error e =>
      cases e with
      | bError => exact absurd hOutside not_outside_bError
      | _ => exact hOutside
  · cases y with
    | ok a => exact hNext a hPost
    | error e =>
      cases e with
      | bError => exact hFail
      | _ => exact .both hPost

end

section

variable {inp : Input} {off : Nat}

theorem mFetch_inside {k : Nat} (h : off + k ≤ inp.numBytes) :
    mFetch inp off k = .ok ((inp.received.drop (inp.base + off)).take k) := by
  rw [mFetch, orStop_true (.inr h)]
  rfl

theorem mFetch_outside {α : Type} {k : Nat} {f : List UInt8 → MParse α} (hk : 0 < k)
    (h : off + k ≤ inp.numBytes → ∀ bs, GoesOutside (f bs)) : GoesOutside (mFetch inp off k >>= f) := by
  rw [mFetch, bind_assoc]
  refine orStop_outside (by simp) fun hc => ?_
  exact h (hc.resolve_left (by omega)) _

variable (hNum : inp.numBytes < 2 ^ 32)
include hNum

/-- A wrapped `ReadData` passes its own check and reads behind the input. -/
theorem wrapped_read_outside {α : Type} {f : List UInt8 → MParse α} {e : MParse α}
    (hOff : off ≤ inp.numBytes) (hWrap : ¬off + 4 < 2 ^ 32) :
    GoesOutside (if (off + 4) % 2 ^ 32 > inp.numBytes then e else mFetch inp off 4 >>= f) := by
  rw [if_neg (by omega)]
  exact mFetch_outside (by decide) fun h => by omega

theorem mReadUint32_guards (hOff : off ≤ inp.numBytes) :
    Guards (mReadUint32 true inp off) (mReadUint32 false inp off)
      (fun r => r.2 = off + 4 ∧ off + 4 ≤ inp.numBytes) := by
  refine guards_guardThat (fun hWrap => ?_) (wrapped_read_outside hNum hOff)
  refine .ite (fun _ => guards_bError) fun hLe => ?_
  rw [mFetch_inside (by omega), ok_bind]
  exact .both ⟨by simp only; omega, by omega⟩

end

/-! ### Storage -/

/-- Storage that is large enough is what `AllocMMessageField` returns. -/
theorem alloc_fits {guarded : Bool} {nameBytes numItems itemSize : Nat} (hItems : numItems ≠ 0)
    (h : storageFits nameBytes numItems itemSize) :
    allocMMessageField guarded nameBytes numItems itemSize = .ok (numItems * itemSize) := by
  obtain ⟨hName, hSize⟩ := h
  have hData : numItems * itemSize % 2 ^ 32 = numItems * itemSize := Nat.mod_eq_of_lt (by omega)
  have hAlloc : (sizeofField + numItems * itemSize + nameBytes) % 2 ^ 32 =
      sizeofField + numItems * itemSize + nameBytes := Nat.mod_eq_of_lt hSize
  have hNul : (nameBytes + (2 ^ 32 - 1)) % 2 ^ 32 = nameBytes - 1 := by omega
  rw [allocMMessageField, if_neg hItems, guardThat_true ⟨hName, hSize⟩]
  simp only [hData, hAlloc, hNul]
  rw [orStop_true (by omega), orStop_true (by omega), orStop_true (by omega)]
  rfl

/-- Where the sizes do not fit, `AllocMMessageField` either writes behind its storage itself or
returns too little room for the items. -/
theorem alloc_short {nameBytes numItems itemSize : Nat} (hItems : numItems ≠ 0)
    (hName : nameBytes < 2 ^ 32) (h : ¬storageFits nameBytes numItems itemSize) :
    Post (allocMMessageField false nameBytes numItems itemSize)
      (fun dataSize => dataSize < numItems * itemSize ∧ 2 ^ 32 ≤ numItems * itemSize)
      MStop.Outside := by
  have hData := Nat.mod_lt (numItems * itemSize) (show 0 < 2 ^ 32 by decide)
  rw [allocMMessageField, if_neg hItems, guardThat_false]
  simp only
  by_cases hEmpty : nameBytes = 0
  · -- the terminating NUL goes to `name[0xFFFFFFFF]`
    subst hEmpty
    by_cases h₁ : sizeofField + numItems * itemSize % 2 ^ 32 ≤
        (sizeofField + numItems * itemSize % 2 ^ 32 + 0) % 2 ^ 32
    · rw [orStop_true h₁, orStop_true (by omega), orStop_false (by omega)]
      exact outside_outsideStorage
    · rw [orStop_false h₁]
      exact outside_outsideStorage
  by_cases hBig : numItems * itemSize < 2 ^ 32
  · have hWrap : 2 ^ 32 ≤ sizeofField + numItems * itemSize + nameBytes := by
      rw [storageFits] at h
      omega
    rw [Nat.mod_eq_of_lt hBig]
    by_cases h₁ : sizeofField + numItems * itemSize ≤
        (sizeofField + numItems * itemSize + nameBytes) % 2 ^ 32
    · rw [orStop_true h₁, orStop_false (by omega)]
      exact outside_outsideStorage
    · rw [orStop_false h₁]
      exact outside_outsideStorage
  · have hShort : numItems * itemSize % 2 ^ 32 < numItems * itemSize ∧
        2 ^ 32 ≤ numItems * itemSize := by omega
    by_cases h₁ : sizeofField + numItems * itemSize % 2 ^ 32 + nameBytes ≤
        (sizeofField + numItems * itemSize % 2 ^ 32 + nameBytes) % 2 ^ 32
    · rw [orStop_true (by omega), orStop_true h₁, orStop_true (by omega)]
      exact hShort
    · by_cases h₂ : sizeofField + numItems * itemSize % 2 ^ 32 ≤
          (sizeofField + numItems * itemSize % 2 ^ 32 + nameBytes) % 2 ^ 32
      · rw [orStop_true h₂, orStop_false h₁]
        exact outside_outsideStorage
      · rw [orStop_false h₂]
        exact outside_outsideStorage

/-- An allocation and what is done with the storage. -/
theorem alloc_guards {α : Type} {nameBytes numItems itemSize : Nat} {x y : Nat → MParse α}
    {Q : α → Prop} (hName : nameBytes < 2 ^ 32)
    (h : storageFits nameBytes numItems itemSize →
      Guards (x (numItems * itemSize)) (y (numItems * itemSize)) Q)
    (hShort : ∀ dataSize, dataSize < numItems * itemSize → 2 ^ 32 ≤ numItems * itemSize →
      GoesOutside (y dataSize)) :
    Guards (allocMMessageField true nameBytes numItems itemSize >>= x)
      (allocMMessageField false nameBytes numItems itemSize >>= y) Q := by
  by_cases hItems : numItems = 0
  · subst hItems
    exact guards_bError
  by_cases hFits : storageFits nameBytes numItems itemSize
  · rw [alloc_fits hItems hFits, alloc_fits hItems hFits]
    exact h hFits
  · refine .inl ⟨?_, (alloc_short hItems hName hFits).bind fun dataSize hd => hShort _ hd.1 hd.2⟩
    simp [allocMMessageField, hItems, guardThat, hFits]

/-- Without room for all item slots every way through the items ends outside the storage. -/
theorem blobItems_short {inp : Input} {dataSize fieldEnd : Nat} (count slot eOffset eLeft : Nat)
    (hSlot : slotsInside dataSize slot) (hShort : ¬slotsInside dataSize (slot + count)) :
    GoesOutside (blobItems false inp dataSize (slot + count) fieldEnd count slot eOffset eLeft) := by
  have hFail : ∀ n, ¬slotsInside dataSize n →
      GoesOutside (removeAndFail dataSize n : MParse (List (List UInt8))) := by
    intro n hn
    rw [removeAndFail, orStop_false hn]
    exact outside_outsideStorage
  induction count generalizing slot eOffset eLeft with
  | zero => exact absurd hSlot hShort
  | succ count ih =>
    rw [blobItems, guardThat_false]
    simp only
    split
    · exact hFail _ hShort
    refine mFetch_outside (by decide) fun _ word => ?_
    rw [guardThat_false]
    refine orStop_outside (by simp) fun _ => ?_
    split
    · refine orStop_outside (by simp) fun hNext => ?_
      rw [guardThat_false, mFetch, bind_assoc]
      refine orStop_outside (by simp) fun _ => orStop_outside (by simp) fun _ => ?_
      have hRest := ih (slot + 1) ((eOffset + 4) % 2 ^ 32 + leNat word) (eLeft - (leNat word + 4))
        hNext (by rwa [Nat.add_right_comm, Nat.add_assoc])
      rw [show slot + 1 + count = slot + (count + 1) by omega] at hRest
      exact hRest.bind fun _ h => h.elim
    · exact hFail _ hShort

section

variable {inp : Input} (hNum : inp.numBytes < 2 ^ 32)
include hNum

theorem importMMessageField_guards {nameLength eLength readOffset : Nat} (itemSize : Nat)
    (hName : nameLength < 2 ^ 32) (hField : readOffset + eLength ≤ inp.numBytes) :
    Guards (importMMessageField true inp nameLength eLength itemSize readOffset)
      (importMMessageField false inp nameLength eLength itemSize readOffset) (fun _ => True) := by
  have hItems : eLength / itemSize * itemSize ≤ eLength := Nat.div_mul_le_self _ _
  refine alloc_guards hName (fun _ => ?_) fun _ _ hBig => ?_
  · rw [orStop_true hItems, mFetch_inside (by omega), ok_bind]
    exact .both trivial
  · omega

theorem importFixed_guards {nameLength eLength readOffset : Nat} (cls : ArrayClass)
    (hName : nameLength < 2 ^ 32) (hField : readOffset + eLength ≤ inp.numBytes) :
    Guards (importFixed true inp nameLength eLength readOffset cls)
      (importFixed false inp nameLength eLength readOffset cls) (fun _ => True) := by
  have hImport := fun itemSize => importMMessageField_guards hNum itemSize hName hField
  cases cls with
  | bool => exact (hImport 1).bind fun _ _ => .both trivial
  | prim t => exact (hImport t.size).bind fun _ _ => .both trivial
  | pointer => exact (hImport 4).bind fun _ _ => .both trivial
  | point => exact (hImport 8).bind fun _ _ => .both trivial
  | rect => exact (hImport 16).bind fun _ _ => .both trivial
  | _ => exact guards_bError

/-! ### Variable-size fields -/

theorem blobItems_guards {dataSize numItems fieldEnd : Nat} (hSlots : slotsInside dataSize numItems)
    (hEnd : fieldEnd ≤ inp.numBytes) (count slot eOffset eLeft : Nat)
    (hSlot : slot + count = numItems) (hOff : eOffset ≤ inp.numBytes) :
    Guards (blobItems true inp dataSize numItems fieldEnd count slot eOffset eLeft)
      (blobItems false inp dataSize numItems fieldEnd count slot eOffset eLeft) (fun _ => True) := by
  have hFail : Guards (removeAndFail dataSize numItems : MParse (List (List UInt8)))
      (removeAndFail dataSize numItems) (fun _ => True) := by
    rw [removeAndFail, orStop_true hSlots]
    exact guards_bError
  induction count generalizing slot eOffset eLeft with
  | zero => exact .both trivial
  | succ count ih =>
    refine guards_guardThat (fun hWrap => ?_) (wrapped_read_outside hNum hOff)
    refine .ite (fun _ => hFail) fun hLe => ?_
    rw [mFetch_inside (by omega), ok_bind, ok_bind]
    refine guards_checked (by simp) fun hWord => .ite (fun _ => ?_) fun _ => hFail
    have hSlotInside : slotsInside dataSize (slot + 1) := by
      rw [slotsInside] at hSlots ⊢
      omega
    rw [orStop_true hSlotInside, orStop_true hSlotInside]
    refine guards_guardThat (fun hItem => ?_) fun hItem => ?_
    · rw [mFetch_inside (by omega), ok_bind, ok_bind, orStop_true hItem, orStop_true hItem]
      refine (ih _ _ _ (by omega) (by omega)).bind fun _ _ => .both trivial
    · rw [mFetch, bind_assoc]
      refine orStop_outside (by simp) fun _ => ?_
      rw [pure_bind, orStop_false hItem]
      exact outside_outsideField

theorem fieldName_guards {α : Type} {off : Nat} {x y : CStr → MParse α} {Q : α → Prop}
    (h : ∀ name : CStr, name.flattenedSize < 2 ^ 32 → Guards (x name) (y name) Q) :
    Guards (guardThat true ((0 : UInt8) ∈ inp.from off) >>= fun _ => mFieldName inp off >>= x)
      (guardThat false ((0 : UInt8) ∈ inp.from off) >>= fun _ => mFieldName inp off >>= y) Q := by
  simp only [mFieldName, bind_assoc, pure_bind]
  refine guards_checked (by simp) fun hNul => h _ ?_
  have hSize := CStr.ofBytes_size_le hNul
  have hFrom : (inp.from off).length ≤ inp.numBytes - off := List.length_take_le _ _
  omega

theorem importBlobs_guards {nameOffset readOffset eLength : Nat}
    (hField : readOffset + eLength ≤ inp.numBytes) :
    Guards (importBlobs true inp nameOffset readOffset eLength)
      (importBlobs false inp nameOffset readOffset eLength) (fun _ => True) := by
  refine (mReadUint32_guards hNum (by omega)).bind fun ⟨numItems, eOffset⟩ hCount => ?_
  refine fieldName_guards hNum fun name hName => ?_
  refine alloc_guards hName (fun hFits => ?_) fun dataSize hLess hBig => ?_
  · refine (blobItems_guards hNum (Nat.le_refl _) hField _ _ _ _ (Nat.zero_add _) ?_).bind
      fun _ _ => .both trivial
    simp only at hCount
    omega
  · have hOutside : GoesOutside (blobItems false inp dataSize (0 + numItems) (readOffset + eLength)
        numItems 0 eOffset eLength) :=
      blobItems_short numItems 0 eOffset eLength (by simp [slotsInside]) (by rw [slotsInside]; omega)
    rw [Nat.zero_add] at hOutside
    exact hOutside.bind fun _ h => h.elim

/-! ### Message fields -/

theorem putMessages_guards {nameOffset : Nat} (newMsgs : List MMessage) :
    Guards (putMessages true inp nameOffset newMsgs) (putMessages false inp nameOffset newMsgs)
      (fun _ => True) := by
  refine fieldName_guards hNum fun name hName => alloc_guards hName (fun _ => ?_) ?_
  · have hSlots : slotsInside (newMsgs.length * 8) newMsgs.length := Nat.le_refl _
    rw [orStop_true hSlots]
    exact .both trivial
  · intro dataSize hLess _
    have hSlots : ¬slotsInside dataSize newMsgs.length := Nat.not_le.mpr hLess
    rw [orStop_false hSlots]
    exact outside_outsideStorage

/-- What the loop over the items needs of the parser for the Messages inside the field. -/
def ParsesGuarded (parse parse' : Input → MParse MMessage) : Prop :=
  ∀ inp : Input, inp.numBytes < 2 ^ 32 → Guards (parse inp) (parse' inp) (fun _ => True)

variable {parse parse' : Input → MParse MMessage} (hParse : ParsesGuarded parse parse')
include hParse

theorem mmMessageItem_guards {fieldEnd eOffset : Nat} (parsed : Bool)
    (hEnd : fieldEnd ≤ inp.numBytes) (hOff : eOffset ≤ inp.numBytes) :
    Guards (mmMessageItem true parse inp fieldEnd parsed eOffset)
      (mmMessageItem false parse' inp fieldEnd parsed eOffset)
      (fun r => eOffset < r.2 ∧ r.2 ≤ fieldEnd) := by
  have hFail : ∀ Q, Guards (cleanUpAndFail true parsed : MParse (MMessage × Nat))
      (cleanUpAndFail false parsed) Q := fun Q =>
    guards_checked (by simp) fun _ => guards_bError
  refine guards_guardThat (fun hWrap => ?_) (wrapped_read_outside hNum hOff)
  refine .ite (fun _ => hFail _) fun hLe => ?_
  rw [mFetch_inside (by omega), ok_bind, ok_bind]
  refine guards_checked (by simp) fun hWord => .ite (fun _ => ?_) fun _ => hFail _
  refine guards_checked (by simp) fun hItem => ?_
  refine guards_onError (hParse _ ?_) (hFail _) fun m _ => .both ⟨?_, hItem⟩
  · rw [Input.sub_numBytes]
    omega
  · simp only
    omega

theorem mmMessageItems_guards {readOffset eLength : Nat} (hField : readOffset + eLength ≤ inp.numBytes)
    (fuel : Nat) (parsed : Bool) (eOffset : Nat) (hOff : eOffset ≤ inp.numBytes) :
    Guards (mmMessageItems true parse inp readOffset eLength fuel parsed eOffset)
      (mmMessageItems false parse' inp readOffset eLength fuel parsed eOffset) (fun _ => True) := by
  induction fuel generalizing parsed eOffset with
  | zero => exact .ite (fun _ => .error (by simp) (by simp)) fun _ => .both trivial
  | succ fuel ih =>
    refine .ite (fun _ => ?_) fun _ => .both trivial
    refine (mmMessageItem_guards hNum hParse parsed hField hOff).bind fun ⟨m, next⟩ hNext => ?_
    simp only at hNext
    exact (ih true next (by omega)).bind fun _ _ => .both trivial

theorem importMessages_guards {fields : List MMField} {nameOffset readOffset eLength : Nat}
    (hField : readOffset + eLength ≤ inp.numBytes) (fuel : Nat) :
    Guards (importMessages true parse fuel inp fields nameOffset readOffset eLength)
      (importMessages false parse' fuel inp fields nameOffset readOffset eLength)
      (fun _ => True) := by
  rw [importMessages, importMessages]
  refine guards_onError (mmMessageItems_guards hNum hParse hField fuel false readOffset (by omega))
    ?_ fun newMsgs _ => putMessages_guards hNum newMsgs
  exact guards_checked (by simp) fun _ => guards_bError

/-! ### Entries and Messages -/

theorem importField_guards {fields : List MMField} {nameOffset nameLength readOffset eLength : Nat}
    (hName : nameOffset + nameLength ≤ inp.numBytes) (hField : readOffset + eLength ≤ inp.numBytes)
    (fuel : Nat) (cls : ImportClass) :
    Guards (importField true parse fuel inp fields nameOffset nameLength readOffset eLength cls)
      (importField false parse' fuel inp fields nameOffset nameLength readOffset eLength cls)
      (fun _ => True) := by
  cases cls with
  | fixed cls =>
    refine (importFixed_guards hNum cls (by omega) hField).bind fun _ _ => ?_
    rw [mFetch_inside hName]
    exact .both trivial
  | message => exact (importMessages_guards hNum hParse hField fuel).bind fun _ _ => .both trivial
  | blob tc => exact (importBlobs_guards hNum hField).bind fun _ _ => .both trivial

theorem mmUnflattenEntry_guards {fields : List MMField} {readOffset : Nat} (fuel : Nat)
    (hOff : readOffset ≤ inp.numBytes) :
    Guards (mmUnflattenEntry true parse fuel inp fields readOffset)
      (mmUnflattenEntry false parse' fuel inp fields readOffset) (fun r => r.2 ≤ inp.numBytes) := by
  refine (mReadUint32_guards hNum hOff).bind fun ⟨nameLength, nameOffset⟩ h₁ => ?_
  refine .ite (fun _ => guards_bError) fun hName => ?_
  simp only at h₁ hName
  refine (mReadUint32_guards hNum (by omega)).bind fun ⟨tc, off₂⟩ h₂ => ?_
  simp only at h₂
  refine (mReadUint32_guards hNum (by omega)).bind fun ⟨eLength, off₃⟩ h₃ => ?_
  refine .ite (fun _ => guards_bError) fun hLength => ?_
  simp only at h₃ hLength
  have hNameInside : nameOffset + nameLength ≤ inp.numBytes := by omega
  have hField : off₃ + eLength ≤ inp.numBytes := by omega
  exact (importField_guards hNum hParse hNameInside hField fuel _).bind fun _ _ => .both hField

theorem mmUnflattenEntries_guards (fuel count : Nat) {fields : List MMField} {readOffset : Nat}
    (hOff : readOffset ≤ inp.numBytes) :
    Guards (mmUnflattenEntries true parse fuel inp count fields readOffset)
      (mmUnflattenEntries false parse' fuel inp count fields readOffset) (fun _ => True) := by
  induction count generalizing fields readOffset with
  | zero => exact .both trivial
  | succ count ih => exact (mmUnflattenEntry_guards hNum hParse fuel hOff).bind fun _ h => ih h

omit hParse in
theorem mmReadHeader_guards :
    Guards (mmReadHeader true inp) (mmReadHeader false inp) (fun r => r.2.2 ≤ inp.numBytes) := by
  refine (mReadUint32_guards hNum (Nat.zero_le _)).bind fun ⟨version, off₁⟩ h₁ => ?_
  refine .ite (fun _ => guards_bError) fun _ => ?_
  simp only at h₁
  refine (mReadUint32_guards hNum (by omega)).bind fun ⟨what, off₂⟩ h₂ => ?_
  simp only at h₂
  exact (mReadUint32_guards hNum (by omega)).bind fun ⟨count, off₃⟩ h₃ =>
    .both (show off₃ ≤ inp.numBytes by simp only at h₃; omega)

end

/-- A guarded run and the source's run go the same way up to the first hazard. -/
theorem MMessage.unflatten_guards (fuel : Nat) :
    ParsesGuarded (MMessage.unflatten true fuel) (MMessage.unflatten false fuel) := by
  induction fuel with
  | zero => exact fun inp _ => .error (by simp) (by simp)
  | succ fuel ih =>
    intro inp hNum
    refine (mmReadHeader_guards hNum).bind fun ⟨what, count, off⟩ hOff => ?_
    exact (mmUnflattenEntries_guards hNum ih fuel count hOff).bind fun _ _ => .both trivial

/-- No run of the source reads outside the received bytes or, for an item, outside the field, or
touches memory outside a field's storage. -/
def StaysInside (received : List UInt8) : Prop :=
  ∀ fuel stop, MMessage.receive fuel received = .error stop → ¬stop.Outside

/-- A guarded run meets no hazard: names that are read as C strings end inside the input, a
fixed-size field's name is not empty, every item lies in its field, the storage sizes fit into 32
bits, and no Message item fails behind one that parsed. -/
def HazardFree (received : List UInt8) : Prop :=
  ∀ fuel, MMessage.unflatten true fuel ⟨received, 0, received.length⟩ ≠ .error .hazard

/-- A field `m` of eight data bytes: one raw item that claims to be four bytes long. -/
def hostileBlob : List UInt8 :=
  leBytes 4 CURRENT_PROTOCOL_VERSION ++ leBytes 4 0 ++ leBytes 4 1 ++
    (leBytes 4 2 ++ [109, 0] ++ leBytes 4 B_RAW_TYPE.toNat ++ leBytes 4 8) ++
    (leBytes 4 1 ++ leBytes 4 4)

end BeShare.Muscle
