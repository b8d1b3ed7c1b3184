import BeShare.IOGateway.ZLibCodec
import BeShare.Util.ByteBuffer

/-!
The memory that `ZLibCodec` gives to zlib: the windows of the buffers that `next_in`, `avail_in`, `next_out` and
`avail_out` say.
-/

namespace BeShare.Muscle.ZLibCodec

open ByteBuffer

/-- A part of a buffer. -/
structure Window where
  offset : Nat
  size : Nat

def Window.Inside (w : Window) (allocated : Nat) : Prop :=
  w.offset + w.size ≤ allocated

/-- What `deflate` or `inflate` of zlib may read and write, and what is allocated. -/
structure Call where
  input : Window
  inputAllocated : Nat
  output : Window
  outputAllocated : Nat

def Call.Inside (call : Call) : Prop :=
  call.input.Inside call.inputAllocated ∧ call.output.Inside call.outputAllocated

/-- The codec and what stands around a call: the flags for the streams, whether `deflateReset` and `inflateReset` say
`Z_OK`, whether `muscleAlloc` succeeds, and what is allocated in the `ByteBuffer` that `ObtainObject` of the pool
gives. -/
structure Around where
  deflateOkay : Bool
  inflateOkay : Bool
  resets : Bool
  muscleAlloc : Nat → Bool
  pooled : Nat

/-- The call of zlib in `Deflate`, if there is one. -/
def deflateCall (around : Around) (rawData : ByteBuffer) (independent : Bool) : Option Call :=
  let numRaw := rawData.getNumBytes
  if rawData.getBuffer ≠ none ∧ around.deflateOkay then
    if independent ∧ around.resets = false then none
    else
      -- the buffer has this many bytes, and the header before the window is not taken off
      let numBytes := (deflatedRoom numRaw).toNat
      (setNumBytes around.muscleAlloc around.pooled numBytes).map fun allocated =>
        ⟨⟨0, numRaw.toNat⟩, rawData.numAllocatedBytes, ⟨ZLIB_CODEC_HEADER_SIZE.toNat, numBytes⟩, allocated⟩
  else none

/-- The call of zlib in `Inflate`, if there is one. -/
def inflateCall (around : Around) (compressedData : ByteBuffer) : Option Call :=
  match getInflatedSize compressedData.bytes with
  | some (rawLen, independent) =>
    if around.inflateOkay then
      if independent ∧ around.resets = false then none
      else
        (setNumBytes around.muscleAlloc around.pooled rawLen).map fun allocated =>
          ⟨⟨ZLIB_CODEC_HEADER_SIZE.toNat, (compressedData.getNumBytes - ZLIB_CODEC_HEADER_SIZE).toNat⟩,
            compressedData.numAllocatedBytes, ⟨0, rawLen⟩, allocated⟩
    else none
  | none => none

/-- `Deflate` does not come to its call of zlib. -/
def NotDeflated (around : Around) (rawData : ByteBuffer) (independent : Bool) : Prop :=
  rawData.getBuffer = none ∨ around.deflateOkay = false ∨ (independent = true ∧ around.resets = false) ∨
    (around.pooled < (deflatedRoom rawData.getNumBytes).toNat ∧
      around.muscleAlloc (deflatedRoom rawData.getNumBytes).toNat = false)

variable {around : Around}

/-! ### Inflate -/

theorem le_length_of_getInflatedSize {data : List UInt8} {size : Nat × Bool} (h : getInflatedSize data = some size) :
    ZLIB_CODEC_HEADER_SIZE.toNat ≤ data.length := by
  unfold getInflatedSize at h
  dsimp only at h
  split at h
  · rename_i hKnown
    exact hKnown.1
  · cases h

/-- The size in the data is the size of the buffer, and the data have a header. -/
theorem inside_inflateCall (compressedData : ByteBuffer) {call : Call}
    (h : inflateCall around compressedData = some call) : call.Inside := by
  unfold inflateCall at h
  cases hSize : getInflatedSize compressedData.bytes with
  | none =>
    rw [hSize] at h
    cases h
  | some size =>
    have hHeader := le_length_of_getInflatedSize hSize
    rw [hSize] at h
    dsimp only at h
    split_ifs at h
    obtain ⟨allocated, hAllocated, rfl⟩ := Option.map_eq_some_iff.mp h
    refine ⟨?_, ?_⟩
    · have hLe : ZLIB_CODEC_HEADER_SIZE ≤ compressedData.getNumBytes := by
        rw [UInt32.le_iff_toNat_le, compressedData.toNat_getNumBytes]
        exact hHeader
      unfold Window.Inside numAllocatedBytes
      rw [UInt32.toNat_sub_of_le _ _ hLe, compressedData.toNat_getNumBytes]
      dsimp only
      omega
    · unfold Window.Inside
      dsimp only
      rw [Nat.zero_add]
      exact le_of_setNumBytes hAllocated

/-! ### Deflate -/

theorem deflateCall_eq_none_iff (rawData : ByteBuffer) (independent : Bool) :
    deflateCall around rawData independent = none ↔ NotDeflated around rawData independent := by
  unfold deflateCall NotDeflated setNumBytes
  by_cases hBytes : rawData.getBuffer = none
  · simp [hBytes]
  · by_cases hOkay : around.deflateOkay = true
    · by_cases hReset : independent = true ∧ around.resets = false
      · simp [hBytes, hOkay, hReset]
      · by_cases hPooled : around.pooled < (deflatedRoom rawData.getNumBytes).toNat
        · cases hAlloc : around.muscleAlloc (deflatedRoom rawData.getNumBytes).toNat <;>
            simp [hBytes, hOkay, hReset, hPooled, hAlloc]
        · simp [hBytes, hOkay, hReset, hPooled]
    · simp [hOkay]

theorem deflateCall_eq_some {rawData : ByteBuffer} {independent : Bool} {call : Call}
    (h : deflateCall around rawData independent = some call) :
    ∃ allocated, setNumBytes around.muscleAlloc around.pooled (deflatedRoom rawData.getNumBytes).toNat =
      some allocated ∧
      call = ⟨⟨0, rawData.getNumBytes.toNat⟩, rawData.numAllocatedBytes,
        ⟨ZLIB_CODEC_HEADER_SIZE.toNat, (deflatedRoom rawData.getNumBytes).toNat⟩, allocated⟩ := by
  unfold deflateCall at h
  dsimp only at h
  split_ifs at h
  obtain ⟨allocated, hAllocated, rfl⟩ := Option.map_eq_some_iff.mp h
  exact ⟨allocated, hAllocated, rfl⟩

/-- The window for the output has the size of the buffer but starts behind the header, so that only a buffer of the pool
that is larger holds it. -/
theorem inside_deflateCall_iff (rawData : ByteBuffer) (independent : Bool) :
    (∀ call, deflateCall around rawData independent = some call → call.Inside) ↔
      NotDeflated around rawData independent ∨
        (deflatedRoom rawData.getNumBytes).toNat + ZLIB_CODEC_HEADER_SIZE.toNat ≤ around.pooled := by
  have hHeader : 0 < ZLIB_CODEC_HEADER_SIZE.toNat := by decide
  constructor
  · intro hInside
    cases hCall : deflateCall around rawData independent with
    | none => exact .inl ((deflateCall_eq_none_iff rawData independent).mp hCall)
    | some call =>
      obtain ⟨allocated, hAllocated, rfl⟩ := deflateCall_eq_some hCall
      have hOutput : ZLIB_CODEC_HEADER_SIZE.toNat + (deflatedRoom rawData.getNumBytes).toNat ≤ allocated :=
        (hInside _ hCall).2
      right
      by_cases hPooled : around.pooled < (deflatedRoom rawData.getNumBytes).toNat
      · have hExact := setNumBytes_of_lt hPooled hAllocated
        omega
      · rw [setNumBytes_of_not_lt hPooled, Option.some.injEq] at hAllocated
        omega
  · rintro (hNot | hLarge) call hCall
    · rw [(deflateCall_eq_none_iff rawData independent).mpr hNot] at hCall
      cases hCall
    · obtain ⟨allocated, hAllocated, rfl⟩ := deflateCall_eq_some hCall
      rw [setNumBytes_of_not_lt (by omega), Option.some.injEq] at hAllocated
      refine ⟨?_, ?_⟩
      · unfold Window.Inside numAllocatedBytes
        dsimp only
        rw [rawData.toNat_getNumBytes]
        omega
      · unfold Window.Inside
        dsimp only
        omega

/-- `Inflate` always stays inside, and `Deflate` where the buffer of the pool has room for the header too. -/
theorem calls_inside_iff (around : Around) (rawData compressedData : ByteBuffer) (independent : Bool) :
    ((∀ call, deflateCall around rawData independent = some call → call.Inside) ∧
        ∀ call, inflateCall around compressedData = some call → call.Inside) ↔
      NotDeflated around rawData independent ∨
        (deflatedRoom rawData.getNumBytes).toNat + ZLIB_CODEC_HEADER_SIZE.toNat ≤ around.pooled := by
  rw [inside_deflateCall_iff]
  exact and_iff_left fun call hCall => inside_inflateCall compressedData hCall

/-- One byte, and a new buffer of the pool: 22 bytes are allocated, and the window ends at 30. -/
theorem deflateCall_outside :
    ¬∀ (around : Around) (rawData compressedData : ByteBuffer) (independent : Bool),
      (∀ call, deflateCall around rawData independent = some call → call.Inside) ∧
        ∀ call, inflateCall around compressedData = some call → call.Inside := by
  intro h
  have hInside := (h ⟨true, true, true, fun _ => true, 0⟩ ⟨[0], 0, by decide⟩ ⟨[], 0, by decide⟩ true).1
    ⟨⟨0, 1⟩, 1, ⟨8, 22⟩, 22⟩ rfl
  exact absurd hInside.2 (by unfold Window.Inside; decide)

end BeShare.Muscle.ZLibCodec
