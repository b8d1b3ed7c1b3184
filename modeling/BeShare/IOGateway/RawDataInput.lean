import Mathlib.Algebra.Group.Nat.Defs
import Mathlib.Algebra.Ring.Int.Defs
import Mathlib.Data.List.Basic
import Mathlib.Tactic.Common

/-!
The input of `RawDataMessageIOGateway`. A `Message` is its `PR_NAME_DATA_CHUNKS`, which are one chunk here.
-/

namespace BeShare.Muscle.RawData

/-- The `int32` that the number becomes. -/
def int32 (n : Int) : Int :=
  Int.bmod n (2 ^ 32)

/-- The `uint32` that the number becomes. -/
def uint32 (n : Int) : Nat :=
  (n % 2 ^ 32).toNat

theorem int32_of_lt {n : Nat} (h : n < 2 ^ 31) : int32 n = n := by
  unfold int32
  rw [Int.bmod_eq_of_le] <;> omega

theorem uint32_of_lt {n : Nat} (h : n < 2 ^ 32) : uint32 n = n := by
  unfold uint32
  omega

/-- The gateway, as far as it receives. `recvMsg` is the chunk of `_recvMsgRef`, which `_recvBuf` points to. -/
structure Receiving where
  minChunkSize : Nat
  maxChunkSize : Nat
  recvMsg : Option (List UInt8)
  recvBufLength : Int
  recvBufByteOffset : Int
  /-- with nothing while `_recvScratchSpace` is `NULL` -/
  recvScratchSpaceSize : Option Nat

/-- What `GetDataIO()` answers to a `Read`: how many bytes it would give, or an error, and whether
`IsSuggestedTimeSliceExpired` afterwards. -/
structure Answer where
  bytes : Int
  expired : Bool

/-- What `DoInputImplementation` leaves: the gateway, what is not read yet of the stream, the chunks of the messages
that the receiver has got, and the number of bytes read, with nothing for -1. -/
structure Received where
  gateway : Receiving
  stream : List UInt8
  chunks : List (List UInt8)
  ret : Option Nat

/-- `Read` with room for `size` bytes. -/
def read (stream : List UInt8) (answer : Int) (size : Nat) : Option (List UInt8) :=
  if answer < 0 then none else some (stream.take (min answer.toNat size))

/-- The bytes at `&buf[offset]`, with nothing for a place outside of the buffer. -/
def store (buf : List UInt8) (offset : Int) (bytes : List UInt8) : Option (List UInt8) :=
  if 0 ≤ offset ∧ offset.toNat + bytes.length ≤ buf.length then
    some (buf.take offset.toNat ++ bytes ++ buf.drop (offset.toNat + bytes.length))
  else none

namespace Receiving

def new (minChunkSize maxChunkSize : Nat) : Receiving :=
  ⟨minChunkSize, maxChunkSize, none, 0, 0, none⟩

/-- A new message with a chunk of the minimum size, if there is no message. What stands in the chunk is not looked
at. -/
def withMessage (g : Receiving) : Receiving :=
  match g.recvMsg with
  | some _ => g
  | none =>
    { g with
      recvMsg := some (List.replicate g.minChunkSize 0), recvBufLength := int32 g.minChunkSize, recvBufByteOffset := 0 }

/-- `DoInputImplementation` where there is a minimum size, with nothing where the code leaves its buffer. -/
def doInputMinimum (g : Receiving) (stream : List UInt8) : List Answer → Nat → Option Received
  | [], _ => some ⟨g.withMessage, stream, [], some 0⟩
  | answer :: answers, maxBytes =>
    let g := g.withMessage
    match read stream answer.bytes (min maxBytes (uint32 (g.recvBufLength - g.recvBufByteOffset))) with
    | none => some ⟨g, stream, [], none⟩
    | some [] => some ⟨g, stream, [], some 0⟩
    | some (byte :: bytes) => do
      let bytesRead := (byte :: bytes).length
      let chunk ← store (g.recvMsg.getD []) g.recvBufByteOffset (byte :: bytes)
      let offset := int32 (g.recvBufByteOffset + bytesRead)
      if offset = g.recvBufLength then
        -- full: to the receiver, and on with the next one
        let g := { g with recvMsg := none, recvBufByteOffset := offset }
        if answer.expired then some ⟨g, stream.drop bytesRead, [chunk], some bytesRead⟩
        else do
          let sub ← g.doInputMinimum (stream.drop bytesRead) answers (maxBytes - bytesRead)
          some ⟨sub.gateway, sub.stream, chunk :: sub.chunks, sub.ret.map (bytesRead + ·)⟩
      else some ⟨{ g with recvMsg := some chunk, recvBufByteOffset := offset }, stream.drop bytesRead, [],
        some bytesRead⟩

/-- `DoInputImplementation` where there is none: what is read goes to the receiver at once. -/
def doInputImmediate (g : Receiving) (stream : List UInt8) (answers : List Answer) (maxBytes : Nat) : Received :=
  let size := g.recvScratchSpaceSize.getD (min g.maxChunkSize 8192)
  let g := { g with recvScratchSpaceSize := some size }
  match answers with
  | [] => ⟨g, stream, [], some 0⟩
  | answer :: _ =>
    match read stream answer.bytes (min size maxBytes) with
    | none => ⟨g, stream, [], none⟩
    | some [] => ⟨g, stream, [], some 0⟩
    | some (byte :: bytes) =>
      let bytesRead := (byte :: bytes).length
      ⟨g, stream.drop bytesRead, [byte :: bytes], some bytesRead⟩

def doInput (g : Receiving) (stream : List UInt8) (answers : List Answer) (maxBytes : Nat) : Option Received :=
  if 0 < g.minChunkSize then g.doInputMinimum stream answers maxBytes
  else some (g.doInputImmediate stream answers maxBytes)

/-- One call after another, with the chunks of all. -/
def doInputs (g : Receiving) (stream : List UInt8) : List (List Answer × Nat) → Option Received
  | [] => some ⟨g, stream, [], some 0⟩
  | call :: calls => do
    let first ← g.doInput stream call.1 call.2
    let later ← first.gateway.doInputs first.stream calls
    some { later with chunks := first.chunks ++ later.chunks }

/-- The bytes that are in the chunk of the message already. -/
def pending (g : Receiving) : List UInt8 :=
  match g.recvMsg with
  | some chunk => chunk.take g.recvBufByteOffset.toNat
  | none => []

/-! ### One chunk -/

/-- The chunk of the message has the minimum size, and it is not full. -/
structure Valid (g : Receiving) : Prop where
  small : g.minChunkSize < 2 ^ 31
  chunk : ∀ chunk, g.recvMsg = some chunk →
    chunk.length = g.minChunkSize ∧ g.recvBufLength = g.minChunkSize ∧
      ∃ offset < g.minChunkSize, g.recvBufByteOffset = (offset : Nat)

theorem valid_new {minChunkSize : Nat} (h : minChunkSize < 2 ^ 31) (maxChunkSize : Nat) :
    (new minChunkSize maxChunkSize).Valid :=
  ⟨h, fun _ hNone => nomatch hNone⟩

end Receiving

theorem read_take {stream bytes : List UInt8} {answer : Int} {size : Nat} (h : read stream answer size = some bytes) :
    stream = bytes ++ stream.drop bytes.length ∧ bytes.length ≤ size := by
  unfold read at h
  split at h
  · cases h
  · obtain rfl := Option.some.inj h
    refine ⟨?_, ?_⟩
    · rw [List.length_take, List.take_eq_take_min, List.take_append_drop]
    · rw [List.length_take]
      omega

/-- What a store behind the pending bytes makes of them. -/
theorem store_of_le {chunk bytes : List UInt8} {offset : Nat} (h : offset + bytes.length ≤ chunk.length) :
    ∃ chunk', store chunk offset bytes = some chunk' ∧ chunk'.length = chunk.length ∧
      chunk'.take (offset + bytes.length) = chunk.take offset ++ bytes := by
  refine ⟨_, if_pos ⟨Int.natCast_nonneg offset, h⟩, ?_, ?_⟩
  · simp only [Int.toNat_natCast, List.length_append, List.length_take, List.length_drop]
    omega
  · refine List.take_left' ?_
    simp only [Int.toNat_natCast, List.length_append, List.length_take]
    omega

namespace Receiving

variable {g : Receiving}

theorem Valid.withMessage (h : g.Valid) (hMinimum : 0 < g.minChunkSize) :
    g.withMessage.Valid ∧ g.withMessage.pending = g.pending ∧ g.withMessage.minChunkSize = g.minChunkSize ∧
      ∃ chunk, g.withMessage.recvMsg = some chunk := by
  unfold Receiving.withMessage pending
  cases hMsg : g.recvMsg with
  | some chunk => 
    refine ⟨h, ?_, rfl, chunk, hMsg⟩
    dsimp only
    rw [hMsg]
  | none =>
    refine ⟨⟨h.small, ?_⟩, rfl, rfl, _, rfl⟩
    intro chunk hChunk
    obtain rfl := Option.some.inj hChunk
    dsimp only
    exact ⟨List.length_replicate, int32_of_lt h.small, 0, hMinimum, rfl⟩

/-- A call loses nothing, and gives chunks of the minimum size. -/
structure Keeps (g : Receiving) (stream : List UInt8) (r : Received) : Prop where
  valid : r.gateway.Valid
  size : r.gateway.minChunkSize = g.minChunkSize
  bytes : g.pending ++ stream = r.chunks.flatten ++ r.gateway.pending ++ r.stream
  chunks : 0 < g.minChunkSize → ∀ chunk ∈ r.chunks, chunk.length = g.minChunkSize

theorem keeps_doInputMinimum (stream : List UInt8) (h : g.Valid) (hMinimum : 0 < g.minChunkSize) (answers : List Answer)
    (maxBytes : Nat) :
    ∃ r, g.doInputMinimum stream answers maxBytes = some r ∧ g.Keeps stream r := by
  induction answers generalizing g stream maxBytes with
  | nil =>
    obtain ⟨hValid, hPending, hSize, -⟩ := h.withMessage hMinimum
    exact ⟨_, rfl, hValid, hSize, (congrArg (· ++ stream) hPending).symm, fun _ _ hNone => nomatch hNone⟩
  | cons answer answers ih =>
    obtain ⟨hValid, hPending, hSize, chunk, hChunk⟩ := h.withMessage hMinimum
    obtain ⟨hLong, hLength, offset, hOffset, hAt⟩ := hValid.chunk chunk hChunk
    unfold doInputMinimum
    dsimp only
    generalize g.withMessage = g' at *
    have hRest : uint32 (g'.recvBufLength - g'.recvBufByteOffset) = g'.minChunkSize - offset := by
      have hSmall := hValid.small
      rw [hLength, hAt, ← Int.natCast_sub (Nat.le_of_lt hOffset), uint32_of_lt (by omega)]
    cases hRead : read stream answer.bytes (min maxBytes (uint32 (g'.recvBufLength - g'.recvBufByteOffset))) with
    | none => exact ⟨_, rfl, hValid, hSize, by rw [hPending]; rfl, fun _ _ hNone => nomatch hNone⟩
    | some bytes =>
      obtain ⟨hStream, hRoom⟩ := read_take hRead
      cases bytes with
      | nil => exact ⟨_, rfl, hValid, hSize, by rw [hPending]; rfl, fun _ _ hNone => nomatch hNone⟩
      | cons byte bytes =>
        dsimp only
        rw [hRest] at hRoom
        generalize byte :: bytes = bytes at *
        have hInside : offset + bytes.length ≤ chunk.length := by omega
        obtain ⟨chunk', hStore, hLong', hTake⟩ := store_of_le hInside
        have hNext : int32 (g'.recvBufByteOffset + bytes.length) = ((offset + bytes.length : Nat) : Int) := by
          have hSmall := hValid.small
          rw [hAt, ← Int.natCast_add, int32_of_lt (by omega)]
        rw [hChunk, Option.getD_some, hNext]
        rw [hAt, hStore]
        have hBytes : g.pending ++ stream = chunk'.take (offset + bytes.length) ++ stream.drop bytes.length := by
          rw [← hPending, pending, hChunk, hAt, hTake]
          dsimp only
          rw [Int.toNat_natCast, List.append_assoc, ← hStream]
        have hDone : offset + bytes.length ≤ g'.minChunkSize := hLong ▸ hInside
        change ∃ r, (if ((offset + bytes.length : Nat) : Int) = g'.recvBufLength then _ else _) = some r ∧ _
        by_cases hFull : ((offset + bytes.length : Nat) : Int) = g'.recvBufLength
        · rw [if_pos hFull]
          have hWhole : chunk'.take (offset + bytes.length) = chunk' := List.take_of_length_le (by omega)
          rw [hWhole] at hBytes
          have hEmpty : Valid { g' with recvMsg := none, recvBufByteOffset := ((offset + bytes.length : Nat) : Int) } :=
            ⟨hValid.small, fun _ hNone => nomatch hNone⟩
          have hSizes : chunk'.length = g.minChunkSize := by omega
          by_cases hExpired : answer.expired = true
          · rw [if_pos hExpired]
            refine ⟨_, rfl, hEmpty, hSize, ?_, fun _ c hc => ?_⟩
            · rw [hBytes, List.flatten_singleton, pending, List.append_nil]
            · rw [List.mem_singleton.mp hc]
              exact hSizes
          · rw [if_neg hExpired]
            obtain ⟨sub, hSub, hKeeps⟩ := ih (stream.drop bytes.length) hEmpty (hSize ▸ hMinimum)
              (maxBytes - bytes.length)
            rw [hSub]
            refine ⟨_, rfl, hKeeps.valid, hKeeps.size.trans hSize, ?_, fun _ c hc => ?_⟩
            · rw [hBytes, List.flatten_cons, List.append_assoc, List.append_assoc,
                ← List.append_assoc sub.chunks.flatten,
                ← hKeeps.bytes]
              rfl
            · rcases List.mem_cons.mp hc with rfl | hc
              · exact hSizes
              · exact (hKeeps.chunks (hSize ▸ hMinimum) c hc).trans hSize
        · rw [if_neg hFull]
          refine ⟨_, rfl, ⟨hValid.small, fun c hc => ?_⟩, hSize, ?_, fun _ _ hNone => nomatch hNone⟩
          · obtain rfl := Option.some.inj hc
            exact ⟨hLong'.trans hLong, hLength, offset + bytes.length, by dsimp only; omega, rfl⟩
          · exact hBytes

theorem keeps_doInputImmediate (stream : List UInt8) (h : g.Valid) (hMinimum : ¬0 < g.minChunkSize)
    (answers : List Answer) (maxBytes : Nat) :
    g.Keeps stream (g.doInputImmediate stream answers maxBytes) := by
  have hNone : g.recvMsg = none := by
    cases hMsg : g.recvMsg with
    | none => rfl
    | some chunk =>
      obtain ⟨-, -, offset, hOffset, -⟩ := h.chunk chunk hMsg
      exact absurd (Nat.zero_lt_of_lt hOffset) hMinimum
  have hValid (size : Option Nat) : Valid { g with recvScratchSpaceSize := size } := ⟨h.small, h.chunk⟩
  have hPending (size : Option Nat) : pending { g with recvScratchSpaceSize := size } = g.pending := rfl
  have hEmpty : g.pending = [] := by rw [pending, hNone]
  unfold doInputImmediate
  dsimp only
  cases answers with
  | nil => exact ⟨hValid _, rfl, by rw [hPending]; rfl, fun hIs => absurd hIs hMinimum⟩
  | cons answer answers =>
    dsimp only
    split
    · exact ⟨hValid _, rfl, by rw [hPending]; rfl, fun hIs => absurd hIs hMinimum⟩
    · exact ⟨hValid _, rfl, by rw [hPending]; rfl, fun hIs => absurd hIs hMinimum⟩
    · rename_i byte bytes hRead
      refine ⟨hValid _, rfl, ?_, fun hIs => absurd hIs hMinimum⟩
      dsimp only
      rw [hPending (some _), hEmpty, List.flatten_singleton, List.append_nil, List.nil_append]
      exact (read_take hRead).1

theorem keeps_doInput (stream : List UInt8) (h : g.Valid) (answers : List Answer) (maxBytes : Nat) :
    ∃ r, g.doInput stream answers maxBytes = some r ∧ g.Keeps stream r := by
  unfold doInput
  by_cases hMinimum : 0 < g.minChunkSize
  · rw [if_pos hMinimum]
    exact keeps_doInputMinimum stream h hMinimum answers maxBytes
  · rw [if_neg hMinimum]
    exact ⟨_, rfl, keeps_doInputImmediate stream h hMinimum answers maxBytes⟩

/-! ### All calls -/

theorem keeps_doInputs (stream : List UInt8) (h : g.Valid) (calls : List (List Answer × Nat)) :
    ∃ r, g.doInputs stream calls = some r ∧ g.Keeps stream r := by
  induction calls generalizing g stream with
  | nil => exact ⟨_, rfl, h, rfl, rfl, fun _ _ hNone => nomatch hNone⟩
  | cons call calls ih =>
    obtain ⟨first, hFirst, hKeeps⟩ := keeps_doInput stream h call.1 call.2
    obtain ⟨later, hLater, hKeeps'⟩ := ih first.stream hKeeps.valid
    refine ⟨{ later with chunks := first.chunks ++ later.chunks }, ?_, hKeeps'.valid, hKeeps'.size.trans hKeeps.size,
      ?_, fun hMinimum chunk hChunk => ?_⟩
    · rw [doInputs, hFirst]
      change (first.gateway.doInputs first.stream calls).bind _ = _
      rw [hLater]
      rfl
    · dsimp only
      rw [hKeeps.bytes, List.append_assoc, hKeeps'.bytes, List.flatten_append]
      simp only [List.append_assoc]
    · rcases List.mem_append.mp hChunk with hChunk | hChunk
      · exact hKeeps.chunks hMinimum chunk hChunk
      · exact (hKeeps'.chunks (hKeeps.size ▸ hMinimum) chunk hChunk).trans hKeeps.size

end Receiving

end BeShare.Muscle.RawData
