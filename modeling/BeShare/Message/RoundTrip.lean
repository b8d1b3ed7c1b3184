import BeShare.Message.Wire

/-!
A Message is read back from what it was flattened to: `Flatten` writes a spelling of the Message, as
long as no reference in it is `NULL`, and `Unflatten` never makes a `NULL` reference.
-/

namespace BeShare.Muscle

open BeShare.Lib

/-! ### What is written -/

theorem word32_map (v : Nat) : word32 v = (leBytes 4 v).map some := rfl

theorem stringsFlatten_spelled (items : List CStr) :
    stringsFlatten items = (countedItems (items.map CStr.flatten)).map some := by
  simp [stringsFlatten, countedItems, lengthPrefixed, word32_map, List.flatMap_map,
    List.map_flatMap]

theorem buffersFlatten_spelled (raws : List (List UInt8)) :
    buffersFlatten (raws.map some) = (countedItems raws).map some := by
  simp [buffersFlatten, bufferItemFlatten, countedItems, lengthPrefixed, word32_map,
    List.flatMap_map, List.map_flatMap]

theorem spellsString_flatten (s : CStr) : SpellsString s s.flatten :=
  ⟨by simp [CStr.flatten], s.ofBytes_flatten⟩

/-- The cells hold a spelling of the Message. -/
def WritesSpelling (m : Message) : Prop := ∃ bs : List UInt8, m.flatten = bs.map some ∧ m.Spelled bs

theorem messagesFlatten_spelled {items : List Message} (h : ∀ m ∈ items, WritesSpelling m) :
    ∃ bs : List UInt8, messagesFlatten (items.map some) = bs.map some ∧
      messagesSpelled (items.map some) bs := by
  induction items with
  | nil => exact ⟨[], rfl, rfl⟩
  | cons m items ih =>
    obtain ⟨data, hData, hSpelled⟩ := h m (List.mem_cons_self ..)
    obtain ⟨rest, hRest, hRestSpelled⟩ := ih fun m hMem => h m (List.mem_cons_of_mem _ hMem)
    have hLength : data.length = m.flattenedSize := by
      rw [← m.flatten_length, hData, List.length_map]
    refine ⟨lengthPrefixed data ++ rest, ?_, data, rest, rfl, hSpelled, hRestSpelled⟩
    rw [List.map_cons, messagesFlatten, place_of_length m.flatten_length, hData, hRest, ← hLength,
      word32_map, lengthPrefixed, List.map_append, List.map_append]

theorem DataArray.flatten_spelled {array : DataArray} (hFlat : array.isFlattenable)
    (hNull : array.NoNull) (hItems : ∀ m, some m ∈ array.messages → WritesSpelling m) :
    ∃ bs : List UInt8, array.flatten = bs.map some ∧ array.Spelled bs := by
  cases array with
  | bool items =>
    refine ⟨items.map boolByte, rfl, ?_⟩
    rw [Spelled, List.map_map]
    refine ((List.map_congr_left fun b _ => ?_).trans (List.map_id _)).symm
    cases b <;> rfl
  | prim t items => exact ⟨_, rfl, by rw [Spelled]⟩
  | point items => exact ⟨_, rfl, by rw [Spelled]⟩
  | rect items => exact ⟨_, rfl, by rw [Spelled]⟩
  | string items =>
    refine ⟨_, stringsFlatten_spelled items, ?_⟩
    rw [Spelled]
    refine ⟨items.map CStr.flatten, ?_, rfl⟩
    rw [List.forall₂_map_right_iff, List.forall₂_same]
    exact fun s _ => spellsString_flatten s
  | buffer tc items =>
    obtain ⟨raws, rfl⟩ := exists_map_some hNull
    refine ⟨_, buffersFlatten_spelled raws, ?_⟩
    rw [Spelled]
    exact ⟨raws, rfl, rfl⟩
  | message items =>
    obtain ⟨ms, rfl⟩ := exists_map_some hNull
    obtain ⟨bs, hBs, hSpelled⟩ := messagesFlatten_spelled fun m hMem =>
      hItems m (List.mem_map_of_mem hMem)
    exact ⟨bs, hBs, by rwa [Spelled]⟩
  | pointer items => cases hFlat
  | tag numItems => cases hFlat

theorem entriesFlatten_spelled {es : List (CStr × DataArray)} (hFlat : ∀ e ∈ es, e.2.isFlattenable)
    (hNull : ∀ e ∈ es, e.2.NoNull)
    (hItems : ∀ e ∈ es, ∀ m, some m ∈ e.2.messages → WritesSpelling m) :
    ∃ bs : List UInt8, entriesFlatten es = bs.map some ∧ entriesSpelled es bs := by
  induction es with
  | nil => exact ⟨[], rfl, rfl⟩
  | cons e es ih =>
    obtain ⟨name, array⟩ := e
    obtain ⟨rest, hRest, hRestSpelled⟩ := ih (fun e hMem => hFlat e (List.mem_cons_of_mem _ hMem))
      (fun e hMem => hNull e (List.mem_cons_of_mem _ hMem))
      (fun e hMem => hItems e (List.mem_cons_of_mem _ hMem))
    have hFlatHead : array.isFlattenable := hFlat _ (List.mem_cons_self ..)
    have hNullHead : array.NoNull := hNull _ (List.mem_cons_self ..)
    have hFills := array.flatten_length hNullHead hFlatHead
    obtain ⟨data, hData, hSpelled⟩ :=
      array.flatten_spelled hFlatHead hNullHead (hItems _ (List.mem_cons_self ..))
    have hLength : data.length = array.flattenedSize := by
      rw [← hFills, hData, List.length_map]
    refine ⟨wireEntry name array.typeCode data ++ rest, ?_, data, rest, rfl, hSpelled, hRestSpelled⟩
    rw [entriesFlatten, if_pos hFlatHead, place_of_length hFills, hData, hRest, ← hLength]
    simp [wireEntry, lengthPrefixed, word32_map]

/-- Without `NULL` references `Flatten` writes a spelling of the Message. -/
theorem Message.flatten_spelled {m : Message} (hFlat : m.Flattenable) (hNull : m.NoNullRefs) :
    WritesSpelling m := by
  induction hFlat with
  | intro m hFlat _ ih =>
    obtain ⟨what, es⟩ := m
    have hItems : ∀ e ∈ es, ∀ m, some m ∈ e.2.messages → WritesSpelling m := fun e hMem m hItem =>
      ih m ⟨e, hMem, hItem⟩ (hNull.item ⟨e, hMem, hItem⟩)
    have hAll : es.countP (fun e => e.2.isFlattenable) = es.length :=
      List.countP_eq_length.mpr hFlat
    obtain ⟨rest, hRest, hSpelled⟩ := entriesFlatten_spelled hFlat hNull.here hItems
    refine ⟨wireHeader what es.length ++ rest, ?_, rest, rfl, hSpelled⟩
    rw [Message.entries_mk] at hRest
    rw [Message.flatten, hAll, hRest]
    simp [wireHeader, word32_map]

/-! ### `NULL` references -/

/-- `Message.NoNullRefs` for one field. -/
def NoNullArray (array : DataArray) : Prop :=
  array.NoNull ∧ ∀ m, some m ∈ array.messages → m.NoNullRefs

theorem noNullRefs_mk {what : UInt32} {es : List (CStr × DataArray)}
    (h : ∀ e ∈ es, NoNullArray e.2) : Message.NoNullRefs (.mk what es) :=
  Message.throughout_mk (fun e hMem => (h e hMem).1) fun e hMem => (h e hMem).2

section

variable {ar : Arith} {parse : Input → Parse Message}
  (hParse : ∀ inp, Post (parse inp) Message.NoNullRefs (fun _ => True))
include hParse

theorem messageItems_noNull (inp : Input) (fuel off : Nat) :
    Post (messageItems ar parse inp fuel off) (fun ms => ∀ m ∈ ms, m.NoNullRefs)
      (fun _ => True) := by
  induction fuel generalizing off with
  | zero => exact .ite (fun _ => trivial) fun _ => by simp
  | succ fuel ih =>
    refine .ite (fun _ => ?_) fun _ => by simp
    refine Post.bind (Q := fun r => r.1.NoNullRefs) ?_ fun ⟨m, next⟩ hm => ?_
    · exact Post.bind_any (fun _ => trivial) fun r => (hParse _).bind fun _ h => h
    · exact (ih next).bind fun ms hms => by simpa using ⟨hm, hms⟩

theorem ArrayClass.unflatten_noNull (inp : Input) (fuel : Nat) (cls : ArrayClass) :
    Post (cls.unflatten ar parse fuel inp) NoNullArray (fun _ => True) := by
  cases cls with
  | message =>
    refine (messageItems_noNull hParse inp fuel 0).bind fun ms hms => ⟨by simp [DataArray.NoNull], ?_⟩
    simpa [DataArray.messages] using hms
  | tag => trivial
  | _ =>
    exact Post.bind_any (fun _ => trivial) fun _ => by
      simp [NoNullArray, DataArray.NoNull, DataArray.messages]

theorem unflattenEntries_noNull (inp : Input) (fuel count : Nat) {es : List (CStr × DataArray)}
    (off : Nat) (hEs : ∀ e ∈ es, NoNullArray e.2) :
    Post (unflattenEntries ar parse fuel inp count es off) (fun es => ∀ e ∈ es, NoNullArray e.2)
      (fun _ => True) := by
  induction count generalizing es off with
  | zero => exact hEs
  | succ count ih =>
    refine Post.bind (Q := fun r => ∀ e ∈ r.1, NoNullArray e.2) ?_ fun ⟨es, off⟩ h => ih off h
    refine Post.bind_any (fun _ => trivial) fun _ => Post.bind_any (fun _ => trivial) fun _ => ?_
    refine .ite (fun _ => trivial) fun _ => Post.bind_any (fun _ => trivial) fun _ => ?_
    refine Post.bind_any (fun _ => trivial) fun _ => Post.bind_any (fun _ => trivial) fun _ => ?_
    refine Post.bind_any (fun _ => trivial) fun _ => Post.bind_any (fun _ => trivial) fun _ => ?_
    refine .ite (fun _ => trivial) fun _ => Post.bind_any (fun _ => trivial) fun cls => ?_
    refine (cls.unflatten_noNull hParse _ fuel).bind fun array hArray => ?_
    exact Post.bind_any (fun _ => trivial) fun _ => forall_putEntry hEs hArray

end

/-- `Message::Unflatten` never produces a `NULL` reference. -/
theorem Message.unflatten_noNullRefs (ar : Arith) (fuel : Nat) (inp : Input) :
    Post (Message.unflatten ar fuel inp) Message.NoNullRefs (fun _ => True) := by
  induction fuel generalizing inp with
  | zero => trivial
  | succ fuel ih =>
    refine Post.bind_any (fun _ => trivial) fun _ => ?_
    exact (unflattenEntries_noNull ih inp fuel _ _ (by simp)).bind fun _ h => noNullRefs_mk h

/-! ### The round trip -/

/-- `Flatten` writes exactly `FlattenedSize()` bytes and `Unflatten` makes `m` of them. -/
def RoundTrips (m : Message) : Prop :=
  ∃ bytes : List UInt8, m.flatten = bytes.map some ∧ bytes.length = m.flattenedSize ∧
    ∃ enough, ∀ fuel, enough ≤ fuel → Message.receive fuel bytes = .ok m

/-- A Message makes the round trip exactly if it holds no `NULL` reference. -/
theorem roundTrips_iff (m : Message) (hWell : m.WellFormed) (hFlat : m.Flattenable)
    (hSize : m.flattenedSize < 2 ^ 32) : RoundTrips m ↔ m.NoNullRefs := by
  constructor
  · rintro ⟨bytes, -, -, enough, hReceive⟩
    exact (Message.unflatten_noNullRefs .uint32 enough _).of_ok (hReceive enough (Nat.le_refl _))
  · intro hNull
    obtain ⟨bytes, hBytes, hSpelled⟩ := Message.flatten_spelled hFlat hNull
    have hLength : bytes.length = m.flattenedSize := by
      rw [← m.flatten_length, hBytes, List.length_map]
    exact ⟨bytes, hBytes, hLength, bytes.length, fun fuel hFuel =>
      Message.receive_spelled hWell hSpelled (by rw [hLength]; exact hSize) hFuel⟩

/-- A field `x` with the one Message item `item`. -/
def oneItemMessage (item : Option Message) : Message :=
  .mk 7 [(CStr.empty.cons 120 (by decide), .message [item])]

theorem roundTrips_nested : RoundTrips (oneItemMessage (some (.mk 8 []))) := by
  have hAll : ∀ p : Message → Prop, p (.mk 8 []) → p (oneItemMessage (some (.mk 8 []))) →
      Message.Throughout p (oneItemMessage (some (.mk 8 []))) := fun p hItem hTop =>
    Message.throughout_mk hTop
      (by simpa [DataArray.messages] using Message.throughout_mk hItem (by simp))
  refine (roundTrips_iff _ (hAll _ ?_ ?_) (hAll _ ?_ ?_) (by decide)).mpr (hAll _ ?_ ?_)
  all_goals simp [Message.DistinctNames, Message.AllFlattenable, Message.NoNull, oneItemMessage,
    DataArray.isFlattenable, DataArray.NoNull]

/-- Four of the bytes that `FlattenedSize()` counts for a `NULL` item are never written. -/
theorem nullItem_not_roundTrips :
    (oneItemMessage none).WellFormed ∧ (oneItemMessage none).Flattenable ∧
      (oneItemMessage none).flattenedSize = 30 ∧ ¬RoundTrips (oneItemMessage none) := by
  refine ⟨Message.throughout_mk ?_ ?_, Message.throughout_mk ?_ ?_, by decide, ?_⟩
  · simp [Message.DistinctNames]
  · simp [DataArray.messages]
  · simp [Message.AllFlattenable, DataArray.isFlattenable]
  · simp [DataArray.messages]
  · rintro ⟨bytes, hBytes, -⟩
    have hNone : none ∈ (oneItemMessage none).flatten := by decide
    rw [hBytes] at hNone
    simp at hNone

end BeShare.Muscle
