import BeShare.IOGateway.MessageIOGateway
import BeShare.Lib.Framing
import BeShare.Lib.Runs
import BeShare.Message.RoundTrip

/-!
Framing: over a connection that loses nothing, whatever pieces it takes and gives, the Messages that go into one gateway
come out of the other, each as soon as its last byte is there.
-/

namespace BeShare.Muscle

open BeShare.Lib

namespace MessageIOGateway

variable {z : ZLib} {InStep : z.Deflater → z.Inflater → Prop} {g : MessageIOGateway z}

/-! ### One frame -/

/-- A header that announces the rest, which is not too large. -/
structure IsFrame (limit : Nat) (frame : List UInt8) : Prop where
  long : GetHeaderSize < frame.length
  announced : getBodySize (frame.take GetHeaderSize) = some (frame.length - GetHeaderSize)
  allowed : frame.length - GetHeaderSize ≤ limit

/-- The receiver's part in a frame. -/
def decodeFrame (recvCodec : Option (ZLibCodec z)) (frame : List UInt8) : Option (ZLibCodec z) × Option Message :=
  unflattenMessage recvCodec (frame.take GetHeaderSize) (frame.drop GetHeaderSize)

/-- The codecs at both ends: none at either, or two that have had the same Messages. -/
def Matched (InStep : z.Deflater → z.Inflater → Prop) : Option (ZLibCodec z) → Option (ZLibCodec z) → Prop
  | none, none => True
  | some codec, some codec' => codec.Matched InStep codec'
  | _, _ => False

/-- What of a Message arrives: it is one that can be flattened, without `NULL` references, and neither it nor what it is
deflated to is too large. -/
structure Fits (limit : Nat) (g : MessageIOGateway z) (msg : Message) : Prop where
  wellFormed : msg.WellFormed
  flattenable : msg.Flattenable
  noNull : msg.NoNullRefs
  size : msg.flattenedSize < 2 ^ 31
  allowed : msg.flattenedSize ≤ limit
  /-- The size times 101 is a 32-bit number. -/
  room : 32 ≤ msg.flattenedSize → (getCodec g.outgoingEncoding g.sendCodec).2.isSome = true →
    msg.flattenedSize * 101 < 2 ^ 32
  deflated : 32 ≤ msg.flattenedSize → ∀ codec, (getCodec g.outgoingEncoding g.sendCodec).2 = some codec →
    8 + (z.deflate codec.deflater (flattenedBytes g.stale msg)
      (ZLibCodec.deflatedRoom (UInt32.ofNat msg.flattenedSize)).toNat).2.1.length ≤ min limit (2 ^ 31 - 1)

@[simp] theorem header_length (numBytes : Nat) (encoding : UInt32) : (header numBytes encoding).length = 8 := by
  simp [header]

theorem headerWord_size {numBytes : Nat} (h : numBytes < 2 ^ 32) (encoding : UInt32) :
    headerWord (header numBytes encoding) 0 = numBytes := by
  unfold headerWord header
  rw [List.drop_zero, List.take_left' (leBytes_length ..), leNat_leBytes_of_lt (by omega)]

theorem headerWord_encoding (numBytes : Nat) (encoding : UInt32) :
    UInt32.ofNat (headerWord (header numBytes encoding) 4) = encoding := by
  unfold headerWord header
  rw [List.drop_left' (leBytes_length ..), List.take_of_length_le (by simp),
    leNat_leBytes_of_lt (by have := encoding.toNat_lt; omega), UInt32.ofNat_toNat]

/-- The encodings that a gateway sends. -/
def Known (encoding : UInt32) : Prop :=
  MUSCLE_MESSAGE_ENCODING_DEFAULT ≤ encoding ∧ encoding ≤ MUSCLE_MESSAGE_ENCODING_END_MARKER - 1

theorem isFrame_header {limit : Nat} {body : List UInt8} {encoding : UInt32} (hKnown : Known encoding)
    (hSome : 0 < body.length) (hSize : body.length < 2 ^ 31) (hLimit : body.length ≤ limit) :
    IsFrame limit (header body.length encoding ++ body) := by
  have hTake : (header body.length encoding ++ body).take GetHeaderSize = header body.length encoding :=
    List.take_left' (header_length ..)
  have hLength : (header body.length encoding ++ body).length = 8 + body.length := by
    rw [List.length_append, header_length]
  have hWord : headerWord (header body.length encoding) 0 = body.length := headerWord_size (by omega) encoding
  refine ⟨?_, ?_, ?_⟩
  · rw [hLength]
    unfold GetHeaderSize
    omega
  · rw [hTake, hLength]
    unfold getBodySize
    rw [headerWord_encoding, hWord]
    refine (if_pos ⟨hKnown.1, hKnown.2, hSize⟩).trans (congrArg some ?_)
    unfold GetHeaderSize
    omega
  · rw [hLength]
    unfold GetHeaderSize
    omega

theorem decodeFrame_header {recvCodec : Option (ZLibCodec z)} {body : List UInt8} {encoding : UInt32}
    (hSize : body.length < 2 ^ 32) : decodeFrame recvCodec (header body.length encoding ++ body) =
      unflattenMessage recvCodec (header body.length encoding) body ∧
      headerWord (header body.length encoding) 0 = body.length := by
  have hTake : (header body.length encoding ++ body).take GetHeaderSize = header body.length encoding :=
    List.take_left' (header_length ..)
  have hDrop : (header body.length encoding ++ body).drop GetHeaderSize = body := List.drop_left' (header_length ..)
  unfold decodeFrame
  rw [hTake, hDrop]
  exact ⟨rfl, headerWord_size hSize encoding⟩

theorem decodeFrame_deflated {recvCodec : Option (ZLibCodec z)} {body : List UInt8} {encoding : UInt32}
    (hSize : body.length < 2 ^ 32) {enc : ZLibCodec z} (hCodec : (getCodec encoding recvCodec).2 = some enc) :
    decodeFrame recvCodec (header body.length encoding ++ body) =
      (some (enc.inflate body).1, unflattened ((enc.inflate body).2.getD body)) := by
  obtain ⟨hDecode, hWord⟩ := @decodeFrame_header z recvCodec body encoding hSize
  rw [hDecode]
  unfold unflattenMessage
  rw [if_neg (fun h => h hWord), headerWord_encoding]
  dsimp only
  rw [hCodec]

theorem decodeFrame_plain {recvCodec : Option (ZLibCodec z)} {body : List UInt8} (hSize : body.length < 2 ^ 32) :
    decodeFrame recvCodec (header body.length MUSCLE_MESSAGE_ENCODING_DEFAULT ++ body) =
      (recvCodec, unflattened body) := by
  obtain ⟨hDecode, hWord⟩ :=
    @decodeFrame_header z recvCodec body MUSCLE_MESSAGE_ENCODING_DEFAULT hSize
  rw [hDecode]
  unfold unflattenMessage
  rw [if_neg (fun h => h hWord), headerWord_encoding]
  rfl

theorem flattened_bytes {msg : Message} (stale : UInt8) (hWell : msg.WellFormed) (hFlat : msg.Flattenable)
    (hNull : msg.NoNullRefs) (hSize : msg.flattenedSize < 2 ^ 31) :
    (flattenedBytes stale msg).length = msg.flattenedSize ∧ unflattened (flattenedBytes stale msg) = some msg := by
  obtain ⟨bytes, hBytes, hSpelled⟩ := Message.flatten_spelled hFlat hNull
  have hLength : bytes.length = msg.flattenedSize := by
    rw [← msg.flatten_length, hBytes, List.length_map]
  have hSame : flattenedBytes stale msg = bytes := by
    unfold flattenedBytes
    rw [hBytes, List.map_map]
    exact List.map_id bytes
  rw [hSame]
  refine ⟨hLength, ?_⟩
  unfold unflattened
  rw [Message.receive_spelled hWell hSpelled (by omega) (Nat.le_refl _)]

/-- Both ends come to codecs that match, from ones that do. -/
theorem matched_getCodec (hZ : z.Documented InStep) {sendCodec recvCodec : Option (ZLibCodec z)}
    (h : Matched InStep sendCodec recvCodec) {encoding : UInt32} {enc : ZLibCodec z}
    (hSend : (getCodec encoding sendCodec).2 = some enc) :
    ∃ enc', (getCodec encoding recvCodec).2 = some enc' ∧ enc.Matched InStep enc' ∧
      MUSCLE_MESSAGE_ENCODING_ZLIB_1 + UInt32.ofNat enc.compressionLevel - 1 = encoding := by
  unfold getCodec at hSend ⊢
  split at hSend
  next hRange =>
    rw [if_pos hRange]
    have hLevel : (encoding - MUSCLE_MESSAGE_ENCODING_ZLIB_1).toNat + 1 ≤ 9 ∧
        MUSCLE_MESSAGE_ENCODING_ZLIB_1 + UInt32.ofNat ((encoding - MUSCLE_MESSAGE_ENCODING_ZLIB_1).toNat + 1) - 1 =
          encoding := by
      obtain ⟨hLow, hHigh⟩ := hRange
      unfold MUSCLE_MESSAGE_ENCODING_ZLIB_1 MUSCLE_MESSAGE_ENCODING_ZLIB_9 at *
      have hDiff : (encoding - 1164862257).toNat = encoding.toNat - 1164862257 := UInt32.toNat_sub_of_le _ _ hLow
      have hLowNat : 1164862257 ≤ encoding.toNat := hLow
      have hHighNat : encoding.toNat ≤ 1164862265 := hHigh
      refine ⟨by omega, ?_⟩
      rw [← UInt32.toNat_inj, hDiff]
      have hOne : (1164862257 + UInt32.ofNat (encoding.toNat - 1164862257 + 1) : UInt32).toNat =
          encoding.toNat + 1 := by
        rw [UInt32.toNat_add, UInt32.toNat_ofNat']
        show (1164862257 + (encoding.toNat - 1164862257 + 1) % 2 ^ 32) % 2 ^ 32 = _
        omega
      rw [UInt32.toNat_sub_of_le _ _
        (show (1 : UInt32) ≤ _ from UInt32.le_iff_toNat_le.mpr (by rw [hOne]; exact Nat.le_add_left ..)),
        hOne]
      rfl
    have hNew : ∀ c c' : ZLibCodec z, c.Matched InStep c' → c.compressionLevel =
        (encoding - MUSCLE_MESSAGE_ENCODING_ZLIB_1).toNat + 1 →
        MUSCLE_MESSAGE_ENCODING_ZLIB_1 + UInt32.ofNat c.compressionLevel - 1 = encoding := by
      intro c c' _ hSame
      rw [hSame]
      exact hLevel.2
    have hFresh : (ZLibCodec.new ((encoding - MUSCLE_MESSAGE_ENCODING_ZLIB_1).toNat + 1) :
        ZLibCodec z).compressionLevel =
        (encoding - MUSCLE_MESSAGE_ENCODING_ZLIB_1).toNat + 1 := Nat.min_eq_left hLevel.1
    cases sendCodec with
    | none =>
      cases recvCodec with
      | none =>
        cases hSend
        have hMatched := ZLibCodec.matched_new hZ ((encoding - MUSCLE_MESSAGE_ENCODING_ZLIB_1).toNat + 1)
        exact ⟨_, rfl, hMatched, hNew _ _ hMatched hFresh⟩
      | some _ => exact h.elim
    | some codec =>
      cases recvCodec with
      | none => exact h.elim
      | some codec' =>
        have hSame : codec'.compressionLevel = codec.compressionLevel := h.level
        dsimp only at hSend ⊢
        rw [hSame]
        split at hSend
        next hOther =>
          cases hSend
          rw [if_pos hOther]
          have hMatched := ZLibCodec.matched_new hZ ((encoding - MUSCLE_MESSAGE_ENCODING_ZLIB_1).toNat + 1)
          exact ⟨_, rfl, hMatched, hNew _ _ hMatched hFresh⟩
        next hKeep =>
          cases hSend
          rw [if_neg hKeep]
          exact ⟨_, rfl, h, hNew _ _ h (Decidable.not_not.mp hKeep).symm⟩
  next => cases hSend

theorem getCodec_none {encoding : UInt32} {setCodec : Option (ZLibCodec z)}
    (h : (getCodec encoding setCodec).2 = none) :
    (getCodec encoding setCodec).1 = setCodec := by
  unfold getCodec at h ⊢
  split at h
  · split at h
    · dsimp only at h
      split at h <;> cases h
    · cases h
  next hNot => rw [if_neg hNot]

theorem known_of_getCodec {encoding : UInt32} {setCodec : Option (ZLibCodec z)} {enc : ZLibCodec z}
    (h : (getCodec encoding setCodec).2 = some enc) : Known encoding := by
  unfold getCodec at h
  split at h
  next hRange =>
    obtain ⟨hLow, hHigh⟩ := hRange
    exact ⟨UInt32.le_trans (by decide) hLow, UInt32.le_trans hHigh (by decide)⟩
  next => cases h

/-- What goes into a frame comes out of it, and the codecs match again. -/
theorem decodeFrame_flattenMessage (hZ : z.Documented InStep) {limit : Nat} {msg : Message} (hFits : g.Fits limit msg)
    {recvCodec : Option (ZLibCodec z)} (hMatched : Matched InStep g.sendCodec recvCodec) :
    ∃ headerBuf body, (flattenMessage g.outgoingEncoding g.stale g.sendCodec msg).2 = some (headerBuf, body) ∧
      IsFrame limit (headerBuf ++ body) ∧ (decodeFrame recvCodec (headerBuf ++ body)).2 = some msg ∧
      Matched InStep (flattenMessage g.outgoingEncoding g.stale g.sendCodec msg).1
        (decodeFrame recvCodec (headerBuf ++ body)).1 := by
  obtain ⟨hLength, hMade⟩ := flattened_bytes g.stale hFits.wellFormed hFits.flattenable hFits.noNull hFits.size
  have hSize := hFits.size
  have hAllowed := hFits.allowed
  have hSome : 12 ≤ msg.flattenedSize := by
    cases msg
    exact Nat.le_add_right ..
  have hPlain : ∀ codec, Matched InStep codec recvCodec → ∃ headerBuf body,
      some (header (flattenedBytes g.stale msg).length MUSCLE_MESSAGE_ENCODING_DEFAULT, flattenedBytes g.stale msg) =
        some (headerBuf, body) ∧ IsFrame limit (headerBuf ++ body) ∧
      (decodeFrame recvCodec (headerBuf ++ body)).2 = some msg ∧
      Matched InStep codec (decodeFrame recvCodec (headerBuf ++ body)).1 := by
    intro codec hCodec
    have hDecode := @decodeFrame_plain z recvCodec (flattenedBytes g.stale msg) (by omega)
    refine ⟨_, _, rfl, isFrame_header ⟨by decide, by decide⟩ (by omega) (by omega) (by omega), ?_, ?_⟩
    · rw [hDecode]
      exact hMade
    · rw [hDecode]
      exact hCodec
  unfold flattenMessage
  dsimp only
  split
  next hLong =>
    rw [hLength] at hLong
    cases hCodec : (getCodec g.outgoingEncoding g.sendCodec).2 with
    | none =>
      dsimp only
      exact hPlain _ ((getCodec_none hCodec).symm ▸ hMatched)
    | some enc =>
      obtain ⟨enc', hCodec', hStreams, hEncoding⟩ := matched_getCodec hZ hMatched hCodec
      have hRoom := hFits.room hLong (by rw [hCodec]; rfl)
      have hDeflated := hFits.deflated hLong enc hCodec
      rw [← hLength] at hRoom
      obtain ⟨compressed, hOut, hBack, hStep, hCompressed⟩ := enc.inflate_deflate hZ hStreams hRoom
      rw [hLength] at hCompressed
      rw [← hCompressed] at hDeflated
      have hDecode := @decodeFrame_deflated z recvCodec compressed g.outgoingEncoding (by omega) enc' hCodec'
      dsimp only
      rw [hOut, hEncoding]
      refine ⟨_, _, rfl, isFrame_header (known_of_getCodec hCodec) (by omega) (by omega) (by omega), ?_, ?_⟩
      · rw [hDecode, hBack]
        exact hMade
      · rw [hDecode]
        exact hStep
  next => exact hPlain _ hMatched

/-! ### The receiver -/

def partialHeader (g : MessageIOGateway z) : List UInt8 :=
  (g.recvHeaderBuffer.map ReceiveBuffer.bytes).getD []

def partialBody (g : MessageIOGateway z) : List UInt8 :=
  (g.recvBodyBuffer.map ReceiveBuffer.bytes).getD []

/-- What the receiver has of the frame that comes in. -/
def got (g : MessageIOGateway z) : List UInt8 :=
  g.partialHeader ++ g.partialBody

/-- The receiver has a part of the first of the frames that are to come, and the rest of them is ahead of it. -/
structure Receiving (InStep : z.Deflater → z.Inflater → Prop) (limit : Nat) (sendCodec : Option (ZLibCodec z))
    (g : MessageIOGateway z) (ahead : List UInt8) (pending : List (Message × List UInt8)) : Prop where
  maxSize : g.maxIncomingMessageSize.toNat = limit
  okay : g.hosed = false
  frames : ∀ frame ∈ pending, IsFrame limit frame.2
  bytes : pending.flatMap Prod.snd = g.got ++ ahead
  codecs : ∃ codec, Takes decodeFrame g.recvCodec pending codec ∧ Matched InStep sendCodec codec
  head : ∀ head, g.recvHeaderBuffer = some head → head.numBytes = GetHeaderSize ∧ head.bytes.length ≤ GetHeaderSize
  body : ∀ body, g.recvBodyBuffer = some body → g.partialHeader.length = GetHeaderSize ∧
    getBodySize g.partialHeader = some body.numBytes ∧ body.bytes.length ≤ body.numBytes

/-- No body is whole and still there. -/
def Open (g : MessageIOGateway z) : Prop :=
  ∀ body, g.recvBodyBuffer = some body → body.bytes.length < body.numBytes

variable {limit : Nat} {sendCodec : Option (ZLibCodec z)} {ahead stream behind read : List UInt8}
  {pending : List (Message × List UInt8)}

theorem Receiving.partialHeader_le (h : Receiving InStep limit sendCodec g ahead pending) :
    g.partialHeader.length ≤ GetHeaderSize := by
  unfold partialHeader
  cases hHead : g.recvHeaderBuffer with
  | none => exact Nat.zero_le _
  | some head => exact (h.head head hHead).2

/-- A frame that has begun is the first one to come. -/
theorem Receiving.first (h : Receiving InStep limit sendCodec g ahead pending)
    (hFull : g.partialHeader.length = GetHeaderSize) : ∃ frame rest, pending = frame :: rest ∧
      frame.2.take GetHeaderSize = g.partialHeader ∧ IsFrame limit frame.2 := by
  cases pending with
  | nil =>
    have hBytes := h.bytes
    have hNone := List.append_eq_nil_iff.mp (List.append_eq_nil_iff.mp hBytes.symm).1
    rw [hNone.1] at hFull
    cases hFull
  | cons frame rest =>
    have hFrame := h.frames frame (List.mem_cons_self ..)
    refine ⟨frame, rest, rfl, ?_, hFrame⟩
    have hBytes := congrArg (List.take GetHeaderSize) h.bytes
    rw [List.flatMap_cons, List.take_append_of_le_length (Nat.le_of_lt hFrame.long), got, List.append_assoc,
      List.take_left' hFull] at hBytes
    exact hBytes

/-- As long as no body is whole, what is there is less than a frame. -/
theorem Receiving.got_lt (h : Receiving InStep limit sendCodec g ahead pending) (hOpen : g.Open)
    {frame : Message × List UInt8} (hFirst : pending.head? = some frame) : g.got.length < frame.2.length := by
  have hFrame := h.frames frame (List.mem_of_mem_head? hFirst)
  have hLong := hFrame.long
  have hHead := h.partialHeader_le
  unfold got
  rw [List.length_append]
  cases hBody : g.recvBodyBuffer with
  | none =>
    have hNone : g.partialBody = [] := by
      unfold partialBody
      rw [hBody]
      rfl
    rw [hNone, List.length_nil]
    omega
  | some body =>
    obtain ⟨hFull, hSize, -⟩ := h.body body hBody
    obtain ⟨frame', rest, rfl, hTake, -⟩ := h.first hFull
    cases hFirst
    have hAnnounced := hFrame.announced
    rw [hTake, hSize] at hAnnounced
    have hNum : body.numBytes = frame.2.length - GetHeaderSize := Option.some.inj hAnnounced
    have hLess := hOpen body hBody
    have hSome : g.partialBody = body.bytes := by
      unfold partialBody
      rw [hBody]
      rfl
    rw [hSome]
    omega

theorem readIfNotFull_spec (buf : ReceiveBuffer) (stream : List UInt8) (gives maxBytes : Nat) :
    (readIfNotFull buf stream gives maxBytes).2.1 <+: stream ∧
      (readIfNotFull buf stream gives maxBytes).1 =
        ⟨buf.numBytes, buf.bytes ++ (readIfNotFull buf stream gives maxBytes).2.1⟩ ∧
      (buf.bytes.length ≤ buf.numBytes →
        buf.bytes.length + (readIfNotFull buf stream gives maxBytes).2.1.length ≤ buf.numBytes) ∧
      (buf.bytes.length + (readIfNotFull buf stream gives maxBytes).2.1.length = buf.numBytes →
        (readIfNotFull buf stream gives maxBytes).2.2 = true) := by
  unfold readIfNotFull
  split
  · refine ⟨List.take_prefix .., rfl, fun hLess => ?_, fun hFull => decide_eq_true ?_⟩
    · unfold readData
      dsimp only
      rw [List.length_take]
      omega
    · unfold readData at hFull
      dsimp only at hFull
      omega
  · exact ⟨List.nil_prefix, by rw [List.append_nil], fun hLess => hLess, fun _ => rfl⟩

/-- More of the header comes in. -/
theorem receiving_header (h : Receiving InStep limit sendCodec g ahead pending) (hRead : read <+: ahead)
    (hRoom : g.partialHeader.length + read.length ≤ GetHeaderSize) :
    Receiving InStep limit sendCodec { g with recvHeaderBuffer := some ⟨GetHeaderSize, g.partialHeader ++ read⟩ }
        (ahead.drop read.length) pending ∧
      ({ g with recvHeaderBuffer := some ⟨GetHeaderSize, g.partialHeader ++ read⟩ } : MessageIOGateway z).got =
        g.got ++ read := by
  -- with a body there is no room left in the header
  have hBody : ∀ body, g.recvBodyBuffer = some body → read = [] := by
    intro body hBody
    have hFull := (h.body body hBody).1
    exact List.length_eq_zero_iff.mp (by omega)
  have hGot : (g.partialHeader ++ read) ++ g.partialBody = g.got ++ read := by
    unfold got partialBody
    cases hSome : g.recvBodyBuffer with
    | none => simp
    | some body => rw [hBody body hSome, List.append_nil, List.append_nil]
  refine ⟨⟨h.maxSize, h.okay, h.frames, ?_, h.codecs, fun head hHead => ?_, fun body hSome => ?_⟩, hGot⟩
  · rw [h.bytes]
    show g.got ++ ahead = ((g.partialHeader ++ read) ++ g.partialBody) ++ ahead.drop read.length
    rw [hGot, List.append_assoc, List.prefix_iff_eq_append.mp hRead]
  · cases hHead
    rw [List.length_append]
    exact ⟨rfl, hRoom⟩
  · have hNone := hBody body hSome
    show (g.partialHeader ++ read).length = GetHeaderSize ∧ getBodySize (g.partialHeader ++ read) = _ ∧ _
    rw [hNone, List.append_nil]
    exact h.body body hSome

/-- More of the body comes in. -/
theorem receiving_body (h : Receiving InStep limit sendCodec g ahead pending) (hRead : read <+: ahead)
    {body : ReceiveBuffer} (hBody : g.recvBodyBuffer = some body)
    (hRoom : body.bytes.length + read.length ≤ body.numBytes) :
    Receiving InStep limit sendCodec { g with recvBodyBuffer := some ⟨body.numBytes, body.bytes ++ read⟩ }
        (ahead.drop read.length) pending ∧
      ({ g with recvBodyBuffer := some ⟨body.numBytes, body.bytes ++ read⟩ } : MessageIOGateway z).got =
        g.got ++ read := by
  have hSome : g.partialBody = body.bytes := by
    unfold partialBody
    rw [hBody]
    rfl
  have hGot : g.partialHeader ++ (body.bytes ++ read) = g.got ++ read := by
    unfold got
    rw [hSome, List.append_assoc]
  obtain ⟨hFull, hSize, -⟩ := h.body body hBody
  refine ⟨⟨h.maxSize, h.okay, h.frames, ?_, h.codecs, h.head, fun body' hSame => ?_⟩, hGot⟩
  · rw [h.bytes]
    show g.got ++ ahead = (g.partialHeader ++ (body.bytes ++ read)) ++ ahead.drop read.length
    rw [hGot, List.append_assoc, List.prefix_iff_eq_append.mp hRead]
  · cases hSame
    refine ⟨hFull, hSize, ?_⟩
    rw [List.length_append]
    exact hRoom

/-- The header is there: it announces the rest of the first frame. -/
theorem receiving_headerReceived (h : Receiving InStep limit sendCodec g ahead pending) {head : ReceiveBuffer}
    (hHead : g.recvHeaderBuffer = some head) (hFull : head.bytes.length = GetHeaderSize)
    (hBody : g.recvBodyBuffer = none) :
    Receiving InStep limit sendCodec (g.headerReceived head) ahead pending ∧ (g.headerReceived head).got = g.got ∧
      (g.headerReceived head).Open := by
  have hSame : g.partialHeader = head.bytes := by
    unfold partialHeader
    rw [hHead]
    rfl
  rw [← hSame] at hFull
  obtain ⟨frame, rest, rfl, hTake, hFrame⟩ := h.first hFull
  have hAnnounced := hFrame.announced
  rw [hTake, hSame] at hAnnounced
  have hMade : g.headerReceived head =
      { g with recvBodyBuffer := some ⟨frame.2.length - GetHeaderSize, []⟩ } := by
    unfold headerReceived
    rw [hAnnounced]
    exact if_pos (h.maxSize.symm ▸ hFrame.allowed)
  have hGot : (g.headerReceived head).got = g.got := by
    rw [hMade]
    unfold got partialBody
    rw [hBody]
    rfl
  refine ⟨⟨?_, ?_, h.frames, ?_, ?_, ?_, ?_⟩, hGot, ?_⟩
  · rw [hMade]
    exact h.maxSize
  · rw [hMade]
    exact h.okay
  · rw [hGot]
    exact h.bytes
  · rw [hMade]
    exact h.codecs
  · rw [hMade]
    exact h.head
  · rw [hMade]
    rintro body hSome
    cases hSome
    refine ⟨hFull, ?_, Nat.zero_le _⟩
    show getBodySize g.partialHeader = _
    rw [hSame]
    exact hAnnounced
  · rw [hMade]
    rintro body hSome
    cases hSome
    exact Nat.sub_pos_of_lt hFrame.long

/-- The body is there: the first frame is whole, and its Message is passed on. -/
theorem receiving_bodyReceived (h : Receiving InStep limit sendCodec g ahead pending) {head body : ReceiveBuffer}
    (hHead : g.recvHeaderBuffer = some head) (hBody : g.recvBodyBuffer = some body)
    (hWhole : body.bytes.length = body.numBytes) :
    ∃ frame rest, pending = frame :: rest ∧ (g.bodyReceived head body).2 = [frame.1] ∧ frame.2 = g.got ∧
      Receiving InStep limit sendCodec (g.bodyReceived head body).1 ahead rest ∧
      (g.bodyReceived head body).1.recvHeaderBuffer = none ∧ (g.bodyReceived head body).1.recvBodyBuffer = none := by
  have hSame : g.partialHeader = head.bytes := by
    unfold partialHeader
    rw [hHead]
    rfl
  have hSome : g.partialBody = body.bytes := by
    unfold partialBody
    rw [hBody]
    rfl
  obtain ⟨hFull, hSize, -⟩ := h.body body hBody
  obtain ⟨frame, rest, rfl, hTake, hFrame⟩ := h.first hFull
  have hAnnounced := hFrame.announced
  rw [hTake, hSize] at hAnnounced
  have hNum : body.numBytes = frame.2.length - GetHeaderSize := Option.some.inj hAnnounced
  have hLong := hFrame.long
  have hLength : g.got.length = frame.2.length := by
    unfold got
    rw [List.length_append, hFull, hSome, hWhole, hNum]
    omega
  have hBytes := h.bytes
  rw [List.flatMap_cons] at hBytes
  obtain ⟨hGot, hRest⟩ := List.append_inj hBytes hLength.symm
  obtain ⟨codec, hTakes, hMatched⟩ := h.codecs
  have hDecode : decodeFrame g.recvCodec frame.2 = unflattenMessage g.recvCodec head.bytes body.bytes := by
    unfold decodeFrame
    rw [hTake, hSame, hGot, got, List.drop_left' hFull, hSome]
  have hMsg : (unflattenMessage g.recvCodec head.bytes body.bytes).2 = some frame.1 := hDecode ▸ hTakes.1
  refine ⟨frame, rest, rfl, ?_, hGot, ?_⟩
  all_goals unfold bodyReceived
  all_goals dsimp only
  all_goals rw [hMsg]
  refine ⟨⟨h.maxSize, h.okay, fun f hf => h.frames f (List.mem_cons_of_mem _ hf), hRest, ⟨codec, ?_, hMatched⟩,
    fun head hNone => (by cases hNone), fun body hNone => (by cases hNone)⟩, rfl, rfl⟩
  rw [← hDecode]
  exact hTakes.2

/-- Bytes were read, and the Messages of the frames that they make whole passed on. -/
structure Advances (InStep : z.Deflater → z.Inflater → Prop) (limit : Nat) (sendCodec : Option (ZLibCodec z))
    (stream behind : List UInt8) (pending : List (Message × List UInt8)) (g g' : MessageIOGateway z)
    (read : List UInt8) (messages : List Message) (later : List (Message × List UInt8)) : Prop where
  front : read <+: stream
  receiving : Receiving InStep limit sendCodec g' (stream.drop read.length ++ behind) later
  done : ∃ done, pending = done ++ later ∧ messages = done.map Prod.fst ∧
    g.got ++ read = done.flatMap Prod.snd ++ g'.got

variable {g' g'' : MessageIOGateway z} {read' : List UInt8} {messages messages' : List Message}
  {later later' : List (Message × List UInt8)}

theorem Advances.refl (h : Receiving InStep limit sendCodec g (stream ++ behind) pending) :
    Advances InStep limit sendCodec stream behind pending g g [] [] pending :=
  ⟨List.nil_prefix, h, [], rfl, rfl, List.append_nil _⟩

theorem Advances.trans (h : Advances InStep limit sendCodec stream behind pending g g' read messages later)
    (h' : Advances InStep limit sendCodec (stream.drop read.length) behind later g' g'' read' messages' later') :
    Advances InStep limit sendCodec stream behind pending g g'' (read ++ read') (messages ++ messages') later' := by
  obtain ⟨done, rfl, rfl, hGot⟩ := h.done
  obtain ⟨done', rfl, rfl, hGot'⟩ := h'.done
  have hDrop : stream.drop (read ++ read').length = (stream.drop read.length).drop read'.length := by
    rw [List.length_append, List.drop_drop]
  refine ⟨?_, hDrop ▸ h'.receiving, done ++ done', (List.append_assoc ..).symm, (List.map_append ..).symm, ?_⟩
  · obtain ⟨rest, hRest⟩ := h'.front
    refine ⟨rest, ?_⟩
    rw [List.append_assoc, hRest]
    exact List.prefix_iff_eq_append.mp h.front
  · rw [← List.append_assoc, hGot, List.append_assoc, hGot', List.flatMap_append, List.append_assoc]

/-- A step that reads and passes on nothing. -/
theorem advances_read (hRead : read <+: stream)
    (h : Receiving InStep limit sendCodec g' ((stream ++ behind).drop read.length) pending)
    (hGot : g'.got = g.got ++ read) : Advances InStep limit sendCodec stream behind pending g g' read [] pending := by
  rw [List.drop_append_of_le_length hRead.length_le] at h
  exact ⟨hRead, h, [], rfl, rfl, hGot.symm⟩

theorem advances_receiveBody (h : Receiving InStep limit sendCodec g (stream ++ behind) pending) {head : ReceiveBuffer}
    (hHead : g.recvHeaderBuffer = some head) (hFull : head.bytes.length = GetHeaderSize) (gives maxBytes : Nat) :
    ∃ later, Advances InStep limit sendCodec stream behind pending g (g.receiveBody head stream gives maxBytes).gateway
        (g.receiveBody head stream gives maxBytes).read (g.receiveBody head stream gives maxBytes).messages later ∧
      (g.receiveBody head stream gives maxBytes).gateway.Open := by
  unfold receiveBody
  cases hBody : g.recvBodyBuffer with
  | none =>
    obtain ⟨hReceiving, hGot, hOpen⟩ := receiving_headerReceived h hHead hFull hBody
    refine ⟨pending, advances_read List.nil_prefix hReceiving ?_, hOpen⟩
    rw [hGot, List.append_nil]
  | some body =>
    obtain ⟨hRead, hNext, hRoom, hGoesOn⟩ := readIfNotFull_spec body stream gives maxBytes
    have hLess := hRoom (h.body body hBody).2.2
    dsimp only
    rw [hNext]
    generalize (readIfNotFull body stream gives maxBytes).2.1 = read at hRead hLess hGoesOn ⊢
    obtain ⟨hReceiving, hGot⟩ := receiving_body h (hRead.trans (List.prefix_append ..)) hBody hLess
    have hFirst := advances_read hRead hReceiving hGot
    split
    next hWhole =>
      obtain ⟨frame, rest, rfl, hMessages, hFrame, hAfter, hNoHead, hNoBody⟩ :=
        receiving_bodyReceived hReceiving (by exact hHead) rfl hWhole.2
      refine ⟨rest, ⟨hRead, ?_, [frame], rfl, hMessages, ?_⟩, fun body' hSome => ?_⟩
      · rw [List.drop_append_of_le_length hRead.length_le] at hAfter
        exact hAfter
      · have hNone : (bodyReceived { g with recvBodyBuffer := some ⟨body.numBytes, body.bytes ++ read⟩ } head
            ⟨body.numBytes, body.bytes ++ read⟩).1.got = [] := by
          unfold got partialHeader partialBody
          rw [hNoHead, hNoBody]
          rfl
        rw [List.flatMap_singleton, hFrame, hGot]
        exact (congrArg (g.got ++ read ++ ·) hNone).trans (List.append_nil _) |>.symm
      · rw [hNoBody] at hSome
        cases hSome
    next hPart =>
      refine ⟨pending, hFirst, fun body' hSome => ?_⟩
      cases hSome
      rw [List.length_append] at hPart ⊢
      exact Nat.lt_of_le_of_ne hLess fun hSame => hPart ⟨hGoesOn hSame, hSame⟩

theorem advances_inputTurn (h : Receiving InStep limit sendCodec g (stream ++ behind) pending) (hOpen : g.Open)
    (gives : Nat × Nat) (maxBytes : Nat) :
    ∃ later, Advances InStep limit sendCodec stream behind pending g (g.inputTurn stream gives maxBytes).gateway
        (g.inputTurn stream gives maxBytes).read (g.inputTurn stream gives maxBytes).messages later ∧
      (g.inputTurn stream gives maxBytes).gateway.Open := by
  have hHead : g.recvHeaderBuffer.getD ⟨GetHeaderSize, []⟩ = ⟨GetHeaderSize, g.partialHeader⟩ := by
    unfold partialHeader
    cases hSome : g.recvHeaderBuffer with
    | none => rfl
    | some head =>
      obtain ⟨numBytes, bytes⟩ := head
      obtain ⟨rfl, -⟩ := h.head _ hSome
      rfl
  unfold inputTurn
  rw [hHead]
  obtain ⟨hRead, hNext, hRoom, -⟩ := readIfNotFull_spec ⟨GetHeaderSize, g.partialHeader⟩ stream gives.1 maxBytes
  have hLess := hRoom h.partialHeader_le
  dsimp only at hNext ⊢
  rw [hNext]
  generalize (readIfNotFull ⟨GetHeaderSize, g.partialHeader⟩ stream gives.1 maxBytes).2.1 = read at hRead hLess ⊢
  obtain ⟨hReceiving, hGot⟩ := receiving_header h (hRead.trans (List.prefix_append ..)) hLess
  have hFirst := advances_read hRead hReceiving hGot
  split
  next hFull =>
    obtain ⟨later, hRest, hRestOpen⟩ :=
      advances_receiveBody hFirst.receiving (by rfl) hFull.2 gives.2 (maxBytes - read.length)
    exact ⟨later, hFirst.trans hRest, hRestOpen⟩
  next => exact ⟨pending, hFirst, hOpen⟩

theorem advances_doInput (gives : Nat × Nat) (more : List (Nat × Nat)) (maxBytes : Nat)
    (h : Receiving InStep limit sendCodec g (stream ++ behind) pending) (hOpen : g.Open) :
    ∃ later, Advances InStep limit sendCodec stream behind pending g (g.doInput gives more stream maxBytes).1
        (g.doInput gives more stream maxBytes).2.1 (g.doInput gives more stream maxBytes).2.2 later ∧
      (g.doInput gives more stream maxBytes).1.Open := by
  have hTurn := advances_inputTurn h hOpen gives maxBytes
  induction more generalizing gives maxBytes g stream pending with
  | nil =>
    unfold doInput
    split
    · exact ⟨pending, .refl h, hOpen⟩
    · exact hTurn
  | cons next rest ih =>
    obtain ⟨middle, hFirst, hFirstOpen⟩ := hTurn
    unfold doInput
    split
    · exact ⟨pending, .refl h, hOpen⟩
    · dsimp only
      split
      · obtain ⟨later, hRest, hRestOpen⟩ := ih next (g.inputTurn stream gives maxBytes).maxBytes hFirst.receiving
          hFirstOpen (advances_inputTurn hFirst.receiving hFirstOpen next _)
        exact ⟨later, hFirst.trans hRest, hRestOpen⟩
      · exact ⟨middle, hFirst, hFirstOpen⟩

/-! ### The sender -/

/-- What of a buffer is still to be sent. -/
def SendBuffer.rest (buf : Option SendBuffer) : List UInt8 :=
  (buf.map fun b => b.bytes.drop b.offset).getD []

def unsent (g : MessageIOGateway z) : List UInt8 :=
  SendBuffer.rest g.sendHeaderBuffer ++ SendBuffer.rest g.sendBodyBuffer

/-- All is well, and there is no header without its body. -/
structure Sending (g : MessageIOGateway z) : Prop where
  okay : g.hosed = false
  header : g.sendBodyBuffer = none → g.sendHeaderBuffer = none

theorem rest_sendData (buf : Option SendBuffer) (takes maxBytes : Nat) :
    SendBuffer.rest buf = (sendData buf takes maxBytes).2.1 ++ SendBuffer.rest (sendData buf takes maxBytes).1 := by
  unfold sendData
  cases buf with
  | none => rfl
  | some b =>
    dsimp only
    generalize min (min maxBytes (b.bytes.length - b.offset)) takes = numSent
    have hSplit := (List.take_append_drop numSent (b.bytes.drop b.offset)).symm
    rw [List.drop_drop] at hSplit
    split
    next hAll =>
      rw [List.drop_eq_nil_of_le hAll] at hSplit
      exact hSplit
    next => exact hSplit

/-- What is written comes off what is to be sent, and nothing else changes. -/
theorem unsent_send (hSending : g.Sending) (takes : Nat × Nat) (maxBytes : Nat) :
    g.unsent = (g.send takes maxBytes).written ++ (g.send takes maxBytes).gateway.unsent ∧
      (g.send takes maxBytes).gateway.Sending ∧ (g.send takes maxBytes).gateway.sendCodec = g.sendCodec ∧
      (g.send takes maxBytes).gateway.outgoingMessageQueue = g.outgoingMessageQueue := by
  have hHead := rest_sendData g.sendHeaderBuffer takes.1 maxBytes
  unfold send
  dsimp only
  split
  next hDone =>
    rw [Bool.and_eq_true, Option.isNone_iff_eq_none] at hDone
    have hBody := rest_sendData g.sendBodyBuffer takes.2
      (maxBytes - (sendData g.sendHeaderBuffer takes.1 maxBytes).2.1.length)
    refine ⟨?_, ⟨hSending.okay, fun _ => hDone.2⟩, rfl, rfl⟩
    unfold unsent
    dsimp only
    rw [hHead, hDone.2, List.append_assoc, List.append_assoc]
    exact congrArg (_ ++ ·) hBody
  next =>
    refine ⟨?_, ⟨hSending.okay, fun hNone => ?_⟩, rfl, rfl⟩
    · unfold unsent
      dsimp only
      rw [hHead, List.append_assoc]
    · have hHeader := hSending.header hNone
      show (sendData g.sendHeaderBuffer takes.1 maxBytes).1 = none
      rw [hHeader]
      rfl

theorem nextMessage_eq_none {queue : List (Option Message)} (h : nextMessage queue = none) :
    queue.reduceOption = [] := by
  induction queue with
  | nil => rfl
  | cons msg queue ih =>
    cases msg with
    | none => exact ih h
    | some msg => cases h

theorem nextMessage_eq_some {queue rest : List (Option Message)} {msg : Message}
    (h : nextMessage queue = some (msg, rest)) : queue.reduceOption = msg :: rest.reduceOption := by
  induction queue with
  | nil => cases h
  | cons first queue ih =>
    cases first with
    | none => exact ih h
    | some first =>
      cases h
      rfl

/-- The Message that is flattened next, if it is time for that, fits. -/
def Ready (limit : Nat) (g : MessageIOGateway z) : Prop :=
  g.sendBodyBuffer = none → ∀ msg rest, nextMessage g.outgoingMessageQueue = some (msg, rest) → g.Fits limit msg

/-- The output has come so far: of the queue these Messages were flattened, and these bytes written. -/
structure Supplies (InStep : z.Deflater → z.Inflater → Prop) (limit : Nat) (receiver : MessageIOGateway z)
    (ahead : List UInt8) (pending : List (Message × List UInt8)) (g g' : MessageIOGateway z) (written : List UInt8)
    (more : List (Message × List UInt8)) : Prop where
  sending : g'.Sending
  receiving : Receiving InStep limit g'.sendCodec receiver (ahead ++ written ++ g'.unsent) (pending ++ more)
  queue : g.outgoingMessageQueue.reduceOption = more.map Prod.fst ++ g'.outgoingMessageQueue.reduceOption

variable {receiver : MessageIOGateway z} {written written' : List UInt8} {more more' : List (Message × List UInt8)}

theorem Supplies.refl (hSending : g.Sending)
    (h : Receiving InStep limit g.sendCodec receiver (ahead ++ g.unsent) pending) :
    Supplies InStep limit receiver ahead pending g g [] [] :=
  ⟨hSending, by rwa [List.append_nil, List.append_nil], rfl⟩

theorem Supplies.trans (h : Supplies InStep limit receiver ahead pending g g' written more)
    (h' : Supplies InStep limit receiver (ahead ++ written) (pending ++ more) g' g'' written' more') :
    Supplies InStep limit receiver ahead pending g g'' (written ++ written') (more ++ more') := by
  refine ⟨h'.sending, ?_, ?_⟩
  · rw [← List.append_assoc, ← List.append_assoc]
    exact h'.receiving
  · rw [h.queue, h'.queue, List.map_append, List.append_assoc]

theorem supplies_send (hSending : g.Sending)
    (h : Receiving InStep limit g.sendCodec receiver (ahead ++ g.unsent) pending) (takes : Nat × Nat) (maxBytes : Nat) :
    Supplies InStep limit receiver ahead pending g (g.send takes maxBytes).gateway
      (g.send takes maxBytes).written [] := by
  obtain ⟨hUnsent, hStill, hCodec, hQueue⟩ := unsent_send hSending takes maxBytes
  refine ⟨hStill, ?_, ?_⟩
  · rw [hCodec, List.append_nil, List.append_assoc, ← hUnsent]
    exact h
  · rw [hQueue]
    rfl

/-- A Message that fits is put into a frame of its own. -/
theorem supplies_fill (hZ : z.Documented InStep) (hSending : g.Sending)
    (h : Receiving InStep limit g.sendCodec receiver (ahead ++ g.unsent) pending) (hReady : g.Ready limit)
    (hFill : g.fill = some g') : ∃ more, Supplies InStep limit receiver ahead pending g g' [] more := by
  unfold fill at hFill
  split at hFill
  next =>
    cases hFill
    exact ⟨[], .refl hSending h⟩
  next hNone =>
    have hBody : g.sendBodyBuffer = none := by simpa using hNone
    obtain ⟨⟨msg, rest⟩, hNext, rfl⟩ := Option.map_eq_some_iff.mp hFill
    obtain ⟨codec, hTakes, hMatched⟩ := h.codecs
    obtain ⟨headerBuf, body, hMade, hFrame, hDecode, hStep⟩ :=
      decodeFrame_flattenMessage hZ (hReady hBody msg rest hNext) hMatched
    have hEmpty : g.unsent = [] := by
      unfold unsent
      rw [hSending.header hBody, hBody]
      rfl
    dsimp only
    rw [hMade]
    refine ⟨[(msg, headerBuf ++ body)], ⟨hSending.okay, fun hNo => by cases hNo⟩, ?_, nextMessage_eq_some hNext⟩
    refine ⟨h.maxSize, h.okay, fun frame hIn => ?_, ?_, ⟨_, hTakes.snoc hDecode, hStep⟩, h.head, h.body⟩
    · rcases List.mem_append.mp hIn with hOld | hNew
      · exact h.frames frame hOld
      · cases List.mem_singleton.mp hNew
        exact hFrame
    · rw [List.flatMap_append, h.bytes, hEmpty, List.flatMap_singleton, List.append_nil, List.append_assoc]
      rfl

theorem supplies_outputTurn (hZ : z.Documented InStep) (hSending : g.Sending)
    (h : Receiving InStep limit g.sendCodec receiver (ahead ++ g.unsent) pending) (hReady : g.Ready limit)
    (takes : Nat × Nat) (maxBytes : Nat) : ∃ more, Supplies InStep limit receiver ahead pending g
      (g.outputTurn takes maxBytes).gateway (g.outputTurn takes maxBytes).written more := by
  unfold outputTurn
  cases hFill : g.fill with
  | none =>
    refine ⟨[], ⟨hSending.okay, hSending.header⟩, ?_, ?_⟩
    · rw [List.append_nil, List.append_nil]
      exact h
    · unfold fill at hFill
      split at hFill
      · cases hFill
      · exact nextMessage_eq_none (Option.map_eq_none_iff.mp hFill)
  | some g' =>
    obtain ⟨more, hFilled⟩ := supplies_fill hZ hSending h hReady hFill
    dsimp only
    rw [if_neg (by rw [hFilled.sending.okay]; exact Bool.false_ne_true)]
    have hSent := supplies_send hFilled.sending hFilled.receiving takes maxBytes
    exact ⟨_, hFilled.trans hSent⟩

/-- Each Message that the output flattens fits. -/
def OutputFits (limit : Nat) : List (Nat × Nat) → MessageIOGateway z → Nat → Prop
  | [], g, maxBytes => 0 < maxBytes → g.Ready limit
  | first :: rest, g, maxBytes =>
    0 < maxBytes → g.Ready limit ∧ ((g.outputTurn first maxBytes).goesOn = true →
      OutputFits limit rest (g.outputTurn first maxBytes).gateway (g.outputTurn first maxBytes).maxBytes)

theorem supplies_doOutput (hZ : z.Documented InStep) (takes : List (Nat × Nat)) (maxBytes : Nat) (hSending : g.Sending)
    (h : Receiving InStep limit g.sendCodec receiver (ahead ++ g.unsent) pending)
    (hFits : OutputFits limit takes g maxBytes) :
    ∃ more, Supplies InStep limit receiver ahead pending g (doOutput takes g maxBytes).1 (doOutput takes g maxBytes).2
      more := by
  induction takes generalizing g maxBytes ahead pending with
  | nil =>
    unfold doOutput
    split
    · exact ⟨[], .refl hSending h⟩
    next hRuns =>
      rw [not_or] at hRuns
      exact supplies_outputTurn hZ hSending h (hFits (Nat.pos_of_ne_zero hRuns.1)) (0, 0) maxBytes
  | cons first rest ih =>
    unfold doOutput
    split
    · exact ⟨[], .refl hSending h⟩
    next hRuns =>
      rw [not_or] at hRuns
      obtain ⟨hReady, hLater⟩ := hFits (Nat.pos_of_ne_zero hRuns.1)
      obtain ⟨more, hFirst⟩ := supplies_outputTurn hZ hSending h hReady first maxBytes
      dsimp only
      split
      next hGoesOn =>
        obtain ⟨more', hRest⟩ := ih _ hFirst.sending hFirst.receiving (hLater hGoesOn)
        exact ⟨more ++ more', hFirst.trans hRest⟩
      next => exact ⟨more, hFirst⟩

end MessageIOGateway

end BeShare.Muscle
