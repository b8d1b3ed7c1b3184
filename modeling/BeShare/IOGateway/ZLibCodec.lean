import BeShare.Lib.Words

/-!
`ZLibCodec`: a deflater and an inflater of zlib, with a header of its own before what is deflated.
-/

namespace BeShare.Muscle

open BeShare.Lib

/-- What the codec uses of zlib: the two kinds of streams, and what a call for some input with some room for the output
does to a stream. -/
structure ZLib where
  Deflater : Type
  Inflater : Type
  deflateInit : Nat → Deflater
  inflateInit : Inflater
  deflateReset : Deflater → Deflater
  inflateReset : Inflater → Inflater
  /-- `deflate(.., Z_SYNC_FLUSH)`: what it puts out, and whether it says `Z_OK` -/
  deflate : Deflater → List UInt8 → Nat → Deflater × List UInt8 × Bool
  /-- `inflate(.., Z_SYNC_FLUSH)`: what it puts out, and whether it says `Z_OK` or `Z_STREAM_END` -/
  inflate : Inflater → List UInt8 → Nat → Inflater × List UInt8 × Bool

/-- `compressBound` -/
def compressBound (sourceLen : Nat) : Nat :=
  sourceLen + sourceLen / 4096 + sourceLen / 16384 + 11

/-- What zlib promises: with room for the bound, and more than six bytes for the marker of the flush, all input is
deflated, and the inflater that is in step with the stream makes the input of it again. -/
structure ZLib.Documented (z : ZLib) (InStep : z.Deflater → z.Inflater → Prop) : Prop where
  init : ∀ level, InStep (z.deflateInit level) z.inflateInit
  deflates : ∀ d i raw room, InStep d i → compressBound raw.length + 7 ≤ room → (z.deflate d raw room).2.2 = true
  inflates : ∀ d i raw room, InStep d i → compressBound raw.length + 7 ≤ room →
    (z.inflate i (z.deflate d raw room).2.1 raw.length).2 = (raw, true)
  inStep : ∀ d i raw room, InStep d i → compressBound raw.length + 7 ≤ room →
    InStep (z.deflate d raw room).1 (z.inflate i (z.deflate d raw room).2.1 raw.length).1

def ZLIB_CODEC_HEADER_DEPENDENT : Nat := 2053925218
def ZLIB_CODEC_HEADER_INDEPENDENT : Nat := 2053925219
def ZLIB_CODEC_HEADER_SIZE : UInt32 := 8

structure ZLibCodec (z : ZLib) where
  compressionLevel : Nat
  inflater : z.Inflater
  deflater : z.Deflater

namespace ZLibCodec

variable {z : ZLib}

def new (compressionLevel : Nat) : ZLibCodec z :=
  ⟨min compressionLevel 9, z.inflateInit, z.deflateInit (min compressionLevel 9)⟩

/-- The size of the buffer for what is deflated, in 32 bits. The stream is told that all of it is behind the header. -/
def deflatedRoom (numRaw : UInt32) : UInt32 :=
  ZLIB_CODEC_HEADER_SIZE + numRaw * 101 / 100 + 13

variable (codec : ZLibCodec z)

/-- `Deflate`, with nothing for a failure -/
def deflate (rawData : List UInt8) (independent : Bool) : ZLibCodec z × Option (List UInt8) :=
  let stream := if independent then z.deflateReset codec.deflater else codec.deflater
  let numRaw := UInt32.ofNat rawData.length
  let result := z.deflate stream rawData (deflatedRoom numRaw).toNat
  let magic := if independent then ZLIB_CODEC_HEADER_INDEPENDENT else ZLIB_CODEC_HEADER_DEPENDENT
  ({ codec with deflater := result.1 },
    if result.2.2 then some (leBytes 4 magic ++ leBytes 4 numRaw.toNat ++ result.2.1) else none)

/-- `GetInflatedSize`, and whether the data are independent. A size from 2^31 on is negative there, as for data that are
not known. -/
def getInflatedSize (compressedData : List UInt8) : Option (Nat × Bool) :=
  let magic := leNat (compressedData.take 4)
  let rawLen := leNat ((compressedData.drop 4).take 4)
  if ZLIB_CODEC_HEADER_SIZE.toNat ≤ compressedData.length ∧
      (magic = ZLIB_CODEC_HEADER_INDEPENDENT ∨ magic = ZLIB_CODEC_HEADER_DEPENDENT) ∧ rawLen < 2 ^ 31 then
    some (rawLen, decide (magic = ZLIB_CODEC_HEADER_INDEPENDENT))
  else none

/-- `Inflate` -/
def inflate (compressedData : List UInt8) : ZLibCodec z × Option (List UInt8) :=
  match getInflatedSize compressedData with
  | some (rawLen, independent) =>
    let stream := if independent then z.inflateReset codec.inflater else codec.inflater
    let result := z.inflate stream (compressedData.drop ZLIB_CODEC_HEADER_SIZE.toNat) rawLen
    ({ codec with inflater := result.1 },
      if result.2.2 && decide (result.2.1.length = rawLen) then some result.2.1 else none)
  | none => (codec, none)

/-- Below this size the product does not leave 32 bits, and there is room enough. -/
theorem le_deflatedRoom {n : Nat} (h : n * 101 < 2 ^ 32) :
    compressBound n + 7 ≤ (deflatedRoom (UInt32.ofNat n)).toNat := by
  have hNum : (UInt32.ofNat n).toNat = n := by
    rw [UInt32.toNat_ofNat']
    exact Nat.mod_eq_of_lt (by omega)
  have hProduct : (UInt32.ofNat n * 101).toNat = n * 101 := by
    rw [UInt32.toNat_mul, hNum]
    exact Nat.mod_eq_of_lt h
  have hRoom : (deflatedRoom (UInt32.ofNat n)).toNat = 8 + n * 101 / 100 + 13 := by
    unfold deflatedRoom
    rw [UInt32.toNat_add, UInt32.toNat_add, UInt32.toNat_div, hProduct]
    show ((8 + n * 101 / 100) % 2 ^ 32 + 13) % 2 ^ 32 = _
    omega
  rw [hRoom]
  unfold compressBound
  omega

theorem getInflatedSize_header {rawLen : Nat} (h : rawLen < 2 ^ 31) (compressed : List UInt8) :
    getInflatedSize (leBytes 4 ZLIB_CODEC_HEADER_DEPENDENT ++ leBytes 4 rawLen ++ compressed) =
      some (rawLen, false) := by
  have hMagic : (leBytes 4 ZLIB_CODEC_HEADER_DEPENDENT ++ leBytes 4 rawLen ++ compressed).take 4 =
      leBytes 4 ZLIB_CODEC_HEADER_DEPENDENT := by
    rw [List.append_assoc]
    exact List.take_left' (leBytes_length ..)
  have hLength : ((leBytes 4 ZLIB_CODEC_HEADER_DEPENDENT ++ leBytes 4 rawLen ++ compressed).drop 4).take 4 =
      leBytes 4 rawLen := by
    rw [List.append_assoc, List.drop_left' (leBytes_length ..)]
    exact List.take_left' (leBytes_length ..)
  unfold getInflatedSize
  rw [hMagic, hLength, leNat_leBytes_of_lt (by decide), leNat_leBytes_of_lt (by omega)]
  refine if_pos ⟨?_, .inr rfl, h⟩
  simp only [List.length_append, leBytes_length]
  exact Nat.le_add_right ..

/-- A deflater, and the inflater of another codec that has had the same messages. -/
structure Matched (InStep : z.Deflater → z.Inflater → Prop) (codec codec' : ZLibCodec z) : Prop where
  level : codec'.compressionLevel = codec.compressionLevel
  streams : InStep codec.deflater codec'.inflater

theorem matched_new {InStep : z.Deflater → z.Inflater → Prop} (hZ : z.Documented InStep) (level : Nat) :
    Matched InStep (new level : ZLibCodec z) (new level) :=
  ⟨rfl, hZ.init _⟩

/-- What one codec deflates the other inflates, and they stay in step. -/
theorem inflate_deflate {InStep : z.Deflater → z.Inflater → Prop} (hZ : z.Documented InStep) {codec' : ZLibCodec z}
    (h : Matched InStep codec codec') {raw : List UInt8} (hSize : raw.length * 101 < 2 ^ 32) :
    ∃ compressed, (codec.deflate raw false).2 = some compressed ∧ (codec'.inflate compressed).2 = some raw ∧
      Matched InStep (codec.deflate raw false).1 (codec'.inflate compressed).1 ∧
      compressed.length = 8 +
        (z.deflate codec.deflater raw (deflatedRoom (UInt32.ofNat raw.length)).toNat).2.1.length := by
  have hRoom := le_deflatedRoom hSize
  have hNum : (UInt32.ofNat raw.length).toNat = raw.length := by
    rw [UInt32.toNat_ofNat']
    exact Nat.mod_eq_of_lt (by omega)
  have hOkay := hZ.deflates _ _ raw _ h.streams hRoom
  have hInflated := hZ.inflates _ _ raw _ h.streams hRoom
  have hInStep := hZ.inStep _ _ raw _ h.streams hRoom
  generalize hRoomIs : (deflatedRoom (UInt32.ofNat raw.length)).toNat = room at hOkay hInflated hInStep
  refine ⟨leBytes 4 ZLIB_CODEC_HEADER_DEPENDENT ++ leBytes 4 raw.length ++ (z.deflate codec.deflater raw room).2.1,
    ?_, ?_, ?_, ?_⟩
  · unfold deflate
    simp only [Bool.false_eq_true, if_false, hRoomIs, hNum]
    exact if_pos hOkay
  all_goals
    have hDrop : (leBytes 4 ZLIB_CODEC_HEADER_DEPENDENT ++ leBytes 4 raw.length ++
        (z.deflate codec.deflater raw room).2.1).drop ZLIB_CODEC_HEADER_SIZE.toNat =
          (z.deflate codec.deflater raw room).2.1 := List.drop_left' (by simp; rfl)
  · unfold inflate
    rw [getInflatedSize_header (by omega)]
    simp only [Bool.false_eq_true, if_false, hDrop, hInflated]
    exact if_pos (by simp)
  · unfold inflate deflate
    rw [getInflatedSize_header (by omega)]
    simp only [Bool.false_eq_true, if_false, hDrop, hRoomIs]
    exact ⟨h.level, hInStep⟩
  · simp only [List.length_append, leBytes_length]

end ZLibCodec

end BeShare.Muscle
