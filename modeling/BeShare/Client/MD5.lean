import BeShare.Client.PartialHash
import BeShare.Lib.Blocks

/-!
MD5 as `md5.cpp` computes it where the bytes of a word come lowest first. In whatever pieces a message comes, the hash
code is that of the padded message.
-/

namespace BeShare.Client.MD5

open BeShare.Lib
open PartialHash (Digest Hashed Reads bufSize cachedHash cacheResult md5DigestSize seekTo)

/-- `ctx->buf` -/
structure Words where
  a : UInt32
  b : UInt32
  c : UInt32
  d : UInt32

/-! ### The transform -/

def f1 (x y z : UInt32) : UInt32 := z ^^^ (x &&& (y ^^^ z))

def f2 (x y z : UInt32) : UInt32 := f1 z x y

def f3 (x y z : UInt32) : UInt32 := x ^^^ y ^^^ z

def f4 (x y z : UInt32) : UInt32 := y ^^^ (x ||| ~~~z)

/-- `MD5STEP` -/
def md5Step (f : UInt32 → UInt32 → UInt32 → UInt32) (w x y z input s : UInt32) : UInt32 :=
  let w := w + (f x y z + input)
  (w <<< s ||| w >>> (32 - s)) + x

/-- The word at an index of `in` -/
def word (input : List UInt8) (i : Nat) : UInt32 :=
  (input.getD (4 * i) 0).toUInt32 ||| (input.getD (4 * i + 1) 0).toUInt32 <<< 8 |||
    (input.getD (4 * i + 2) 0).toUInt32 <<< 16 ||| (input.getD (4 * i + 3) 0).toUInt32 <<< 24

/-- The index, the constant and the shift of each step -/
def round1 : List (Nat × UInt32 × UInt32) :=
  [(0, 0xd76aa478, 7), (1, 0xe8c7b756, 12), (2, 0x242070db, 17), (3, 0xc1bdceee, 22), (4, 0xf57c0faf, 7),
    (5, 0x4787c62a, 12), (6, 0xa8304613, 17), (7, 0xfd469501, 22), (8, 0x698098d8, 7), (9, 0x8b44f7af, 12),
    (10, 0xffff5bb1, 17), (11, 0x895cd7be, 22), (12, 0x6b901122, 7), (13, 0xfd987193, 12), (14, 0xa679438e, 17),
    (15, 0x49b40821, 22)]

def round2 : List (Nat × UInt32 × UInt32) :=
  [(1, 0xf61e2562, 5), (6, 0xc040b340, 9), (11, 0x265e5a51, 14), (0, 0xe9b6c7aa, 20), (5, 0xd62f105d, 5),
    (10, 0x02441453, 9), (15, 0xd8a1e681, 14), (4, 0xe7d3fbc8, 20), (9, 0x21e1cde6, 5), (14, 0xc33707d6, 9),
    (3, 0xf4d50d87, 14), (8, 0x455a14ed, 20), (13, 0xa9e3e905, 5), (2, 0xfcefa3f8, 9), (7, 0x676f02d9, 14),
    (12, 0x8d2a4c8a, 20)]

def round3 : List (Nat × UInt32 × UInt32) :=
  [(5, 0xfffa3942, 4), (8, 0x8771f681, 11), (11, 0x6d9d6122, 16), (14, 0xfde5380c, 23), (1, 0xa4beea44, 4),
    (4, 0x4bdecfa9, 11), (7, 0xf6bb4b60, 16), (10, 0xbebfbc70, 23), (13, 0x289b7ec6, 4), (0, 0xeaa127fa, 11),
    (3, 0xd4ef3085, 16), (6, 0x04881d05, 23), (9, 0xd9d4d039, 4), (12, 0xe6db99e5, 11), (15, 0x1fa27cf8, 16),
    (2, 0xc4ac5665, 23)]

def round4 : List (Nat × UInt32 × UInt32) :=
  [(0, 0xf4292244, 6), (7, 0x432aff97, 10), (14, 0xab9423a7, 15), (5, 0xfc93a039, 21), (12, 0x655b59c3, 6),
    (3, 0x8f0ccc92, 10), (10, 0xffeff47d, 15), (1, 0x85845dd1, 21), (8, 0x6fa87e4f, 6), (15, 0xfe2ce6e0, 10),
    (6, 0xa3014314, 15), (13, 0x4e0811a1, 21), (4, 0xf7537e82, 6), (11, 0xbd3af235, 10), (2, 0x2ad7d2bb, 15),
    (9, 0xeb86d391, 21)]

/-- The words take turns: the one that a step changes is `x` in the next one. -/
def round (f : UInt32 → UInt32 → UInt32 → UInt32) (input : List UInt8) (steps : List (Nat × UInt32 × UInt32))
    (words : Words) : Words :=
  steps.foldl
    (fun w step => ⟨w.d, md5Step f w.a w.b w.c w.d (word input step.1 + step.2.1) step.2.2, w.b, w.c⟩) words

/-- `MD5Transform` -/
def md5Transform (buf : Words) (input : List UInt8) : Words :=
  let w := round f4 input round4 (round f3 input round3 (round f2 input round2 (round f1 input round1 buf)))
  ⟨buf.a + w.a, buf.b + w.b, buf.c + w.c, buf.d + w.d⟩

/-! ### Contexts -/

structure MD5Context where
  buf : Words
  /-- The lower word of the count -/
  bytes0 : UInt32
  bytes1 : UInt32
  /-- The bytes of `in` -/
  input : List UInt8

def initWords : Words := ⟨0x67452301, 0xefcdab89, 0x98badcfe, 0x10325476⟩

/-- `MD5Init` -/
def md5Init : MD5Context := ⟨initWords, 0, 0, List.replicate 64 0⟩

/-- `memcpy`, to a place in `in` -/
def copy (input : List UInt8) (place : Nat) (buf : List UInt8) : List UInt8 :=
  input.take place ++ buf ++ input.drop (place + buf.length)

/-- The loop over chunks of 64 bytes, and what remains -/
def chunks : Nat → MD5Context → List UInt8 → MD5Context
  | 0, ctx, buf => { ctx with input := copy ctx.input 0 buf }
  | n + 1, ctx, buf =>
    let input := copy ctx.input 0 (buf.take 64)
    chunks n { ctx with buf := md5Transform ctx.buf input, input } (buf.drop 64)

/-- `MD5Update`, with as many bytes as an `unsigned` says -/
def md5Update (ctx : MD5Context) (buf : List UInt8) : MD5Context :=
  let t := ctx.bytes0
  let bytes0 := t + UInt32.ofNat buf.length
  let ctx := { ctx with bytes0, bytes1 := if bytes0 < t then ctx.bytes1 + 1 else ctx.bytes1 }
  let space := 64 - (t &&& 0x3f).toNat
  if buf.length < space then { ctx with input := copy ctx.input (64 - space) buf }
  else
    let input := copy ctx.input (64 - space) (buf.take space)
    chunks ((buf.drop space).length / 64) { ctx with buf := md5Transform ctx.buf input, input } (buf.drop space)

/-- The bytes of a word -/
def bytes (w : UInt32) : List UInt8 :=
  [w.toUInt8, (w >>> 8).toUInt8, (w >>> 16).toUInt8, (w >>> 24).toUInt8]

def digest (w : Words) : Digest :=
  ⟨bytes w.a ++ bytes w.b ++ bytes w.c ++ bytes w.d, rfl⟩

/-- `MD5Final`. Padding may force an extra block. -/
def md5Final (ctx : MD5Context) : Digest :=
  let count := (ctx.bytes0 &&& 0x3f).toNat
  let input := copy ctx.input count [0x80]
  let (buf, input) :=
    if 55 < count then
      let input := copy input (count + 1) (List.replicate (63 - count) 0)
      (md5Transform ctx.buf input, copy input 0 (List.replicate 56 0))
    else (ctx.buf, copy input (count + 1) (List.replicate (55 - count) 0))
  digest (md5Transform buf (copy input 56 (bytes (ctx.bytes0 <<< 3) ++ bytes (ctx.bytes1 <<< 3 ||| ctx.bytes0 >>> 29))))

/-! ### The hash code of a message -/

/-- The number of bits, of which the lower 64 count -/
def lengthBytes (length : Nat) : List UInt8 :=
  bytes (UInt32.ofNat (8 * length)) ++ bytes (UInt32.ofNat (8 * length / 2 ^ 32))

/-- The message is followed by a bit, by zeros up to a full block, and by its length. -/
def padded (message : List UInt8) : List UInt8 :=
  message ++ (0x80 :: List.replicate ((119 - message.length % 64) % 64) 0 ++ lengthBytes message.length)

/-- The hash code of a message: that of the blocks of the padded message, one after another -/
def md5 (message : List UInt8) : Digest :=
  digest (foldFull 64 md5Transform initWords (padded message))

/-! ### Copies into the buffer -/

variable {input buf : List UInt8} {place : Nat}

theorem copy_take (input buf : List UInt8) (h : place ≤ input.length) :
    (copy input place buf).take (place + buf.length) = input.take place ++ buf := by
  have hLength : (input.take place ++ buf).length = place + buf.length := by
    rw [List.length_append, List.length_take, Nat.min_eq_left h]
  unfold copy
  rw [← hLength, List.take_left]

theorem copy_length (h : place + buf.length ≤ input.length) : (copy input place buf).length = input.length := by
  unfold copy
  rw [List.length_append, List.length_append, List.length_take, List.length_drop, Nat.min_eq_left (by omega)]
  omega

/-- A copy up to the end of the buffer -/
theorem copy_full (h : place + buf.length = input.length) : copy input place buf = input.take place ++ buf := by
  rw [← copy_take _ _ (by omega), List.take_of_length_le (Nat.le_of_eq ((copy_length (Nat.le_of_eq h)).trans h.symm))]

/-! ### What a context holds -/

/-- The context of a message: its full blocks are taken in, and the rest stands at the start of the buffer. -/
structure Holds (ctx : MD5Context) (message : List UInt8) : Prop where
  buf : ctx.buf = foldFull 64 md5Transform initWords message
  bytes0 : ctx.bytes0.toNat = message.length % 2 ^ 32
  bytes1 : ctx.bytes1.toNat = message.length / 2 ^ 32 % 2 ^ 32
  length : ctx.input.length = 64
  rest : ctx.input.take (message.length % 64) = lastPart 64 message

theorem chunks_spec {n : Nat} (buf : List UInt8) (ctx : MD5Context) (hn : buf.length / 64 = n) (hLength : ctx.input.length = 64) :
    ∃ input, chunks n ctx buf = { ctx with buf := foldFull 64 md5Transform ctx.buf buf, input := input } ∧
      input.length = 64 ∧ input.take (buf.length % 64) = lastPart 64 buf := by
  induction n generalizing ctx buf with
  | zero =>
    have hShort : buf.length < 64 := by omega
    refine ⟨copy ctx.input 0 buf, ?_, ?_, ?_⟩
    · unfold chunks
      rw [foldFull_short hShort]
    · rw [copy_length (by omega), hLength]
    · have hTake := copy_take ctx.input buf (Nat.zero_le _)
      rw [Nat.mod_eq_of_lt hShort, lastPart_short hShort]
      rwa [Nat.zero_add, List.take_zero, List.nil_append] at hTake
  | succ n ih =>
    have hLong : 64 ≤ buf.length := by omega
    have hBlock : (buf.take 64).length = 64 := by
      rw [List.length_take]
      omega
    have hCopy : copy ctx.input 0 (buf.take 64) = buf.take 64 := by
      rw [copy_full (by omega), List.take_zero, List.nil_append]
    obtain ⟨input, hChunks, hInput, hRest⟩ := @ih (buf.drop 64)
      { ctx with buf := md5Transform ctx.buf (buf.take 64), input := buf.take 64 }
      (by rw [List.length_drop]; omega) hBlock
    have hFold := foldFull_block (f := md5Transform) hBlock (by decide) ctx.buf (buf.drop 64)
    have hLast := lastPart_block hBlock (by decide) (buf.drop 64)
    rw [List.take_append_drop] at hFold hLast
    refine ⟨input, ?_, hInput, ?_⟩
    · unfold chunks
      rw [hCopy, hChunks, hFold]
    · rw [hLast, ← hRest, List.length_drop]
      congr 1
      omega

theorem and_63 (x : UInt32) : (x &&& 0x3f).toNat = x.toNat % 64 := by
  rw [UInt32.toNat_and]
  exact Nat.and_two_pow_sub_one_eq_mod x.toNat 6

/-- The count goes on, and carries. -/
theorem count_add {b0 b1 : UInt32} {n m : Nat} (h0 : b0.toNat = n % 2 ^ 32) (h1 : b1.toNat = n / 2 ^ 32 % 2 ^ 32)
    (hm : m < 2 ^ 32) : (b0 + UInt32.ofNat m).toNat = (n + m) % 2 ^ 32 ∧
      (if b0 + UInt32.ofNat m < b0 then b1 + 1 else b1).toNat = (n + m) / 2 ^ 32 % 2 ^ 32 := by
  have hSum : (b0 + UInt32.ofNat m).toNat = (n + m) % 2 ^ 32 := by
    rw [UInt32.toNat_add, UInt32.toNat_ofNat', h0]
    omega
  refine ⟨hSum, ?_⟩
  split
  next hCarry =>
    rw [UInt32.lt_iff_toNat_lt, hSum, h0] at hCarry
    rw [UInt32.toNat_add, h1, show (1 : UInt32).toNat = 1 from rfl]
    omega
  next hNone =>
    rw [UInt32.lt_iff_toNat_lt, hSum, h0] at hNone
    rw [h1]
    omega

theorem holds_init : Holds md5Init [] :=
  ⟨rfl, rfl, rfl, rfl, rfl⟩

theorem Holds.update {ctx : MD5Context} {message : List UInt8} (h : Holds ctx message) (hBuf : buf.length < 2 ^ 32) :
    Holds (md5Update ctx buf) (message ++ buf) := by
  have hCount : (ctx.bytes0 &&& 0x3f).toNat = message.length % 64 := by
    rw [and_63, h.bytes0]
    omega
  obtain ⟨h0, h1⟩ := count_add h.bytes0 h.bytes1 hBuf
  rw [← List.length_append] at h0 h1
  have hRest := lastPart_length 64 message
  have hInput := h.length
  unfold md5Update
  dsimp only
  rw [hCount]
  split
  next hShort =>
    have hPlace : 64 - (64 - message.length % 64) = message.length % 64 := by omega
    have hNow : (lastPart 64 message ++ buf).length < 64 := by
      rw [List.length_append, hRest]
      omega
    rw [hPlace]
    refine ⟨?_, h0, h1, ?_, ?_⟩
    · rw [foldFull_append (by decide), foldFull_short hNow]
      exact h.buf
    · exact (copy_length (by omega)).trans hInput
    · have hTake := copy_take ctx.input buf (show message.length % 64 ≤ ctx.input.length by omega)
      have hLength : (message ++ buf).length % 64 = message.length % 64 + buf.length := by
        rw [List.length_append]
        omega
      rw [hLength, hTake, h.rest, lastPart_append (by decide), lastPart_short hNow]
  next hLong =>
    have hPlace : 64 - (64 - message.length % 64) = message.length % 64 := by omega
    rw [hPlace]
    generalize hSpace : 64 - message.length % 64 = space at hLong ⊢
    have hFirst : (buf.take space).length = space := by
      rw [List.length_take]
      omega
    have hCopy : copy ctx.input (message.length % 64) (buf.take space) = lastPart 64 message ++ buf.take space := by
      rw [copy_full (by omega), h.rest]
    have hBlock : (lastPart 64 message ++ buf.take space).length = 64 := by
      rw [List.length_append, hRest, hFirst]
      omega
    have hParts : lastPart 64 message ++ buf = lastPart 64 message ++ buf.take space ++ buf.drop space := by
      rw [List.append_assoc, List.take_append_drop]
    obtain ⟨input, hChunks, hLength, hLast⟩ := chunks_spec (buf.drop space)
      ⟨md5Transform ctx.buf (copy ctx.input (message.length % 64) (buf.take space)),
        ctx.bytes0 + UInt32.ofNat buf.length,
        if ctx.bytes0 + UInt32.ofNat buf.length < ctx.bytes0 then ctx.bytes1 + 1 else ctx.bytes1,
        copy ctx.input (message.length % 64) (buf.take space)⟩ rfl (by rw [hCopy]; exact hBlock)
    rw [hChunks]
    refine ⟨?_, h0, h1, hLength, ?_⟩
    · rw [foldFull_append (by decide), hParts, foldFull_block hBlock (by decide), hCopy, h.buf]
    · have hMod : (message ++ buf).length % 64 = (buf.drop space).length % 64 := by
        rw [List.length_append, List.length_drop]
        omega
      rw [hMod, hLast, lastPart_append (by decide), hParts, lastPart_block hBlock (by decide)]

/-- The count of the bits, in two words -/
theorem count_bits {b0 b1 : UInt32} {n : Nat} (h0 : b0.toNat = n % 2 ^ 32) (h1 : b1.toNat = n / 2 ^ 32 % 2 ^ 32) :
    bytes (b0 <<< 3) ++ bytes (b1 <<< 3 ||| b0 >>> 29) = lengthBytes n := by
  have hLow : b0 <<< 3 = UInt32.ofNat (8 * n) := by
    apply UInt32.toNat_inj.mp
    rw [UInt32.toNat_shiftLeft, UInt32.toNat_ofNat', h0, Nat.shiftLeft_eq]
    show n % 2 ^ 32 * 2 ^ 3 % 2 ^ 32 = _
    omega
  have hHigh : b1 <<< 3 ||| b0 >>> 29 = UInt32.ofNat (8 * n / 2 ^ 32) := by
    apply UInt32.toNat_inj.mp
    rw [UInt32.toNat_or, UInt32.toNat_shiftLeft, UInt32.toNat_shiftRight, UInt32.toNat_ofNat', h0, h1]
    show (n / 2 ^ 32 % 2 ^ 32) <<< 3 % 2 ^ 32 ||| (n % 2 ^ 32) >>> 29 = _
    have hSmall : (n % 2 ^ 32) >>> 29 < 2 ^ 3 := by
      rw [Nat.shiftRight_eq_div_pow]
      omega
    have hHigh : (n / 2 ^ 32 % 2 ^ 32) <<< 3 % 2 ^ 32 = (n / 2 ^ 32 % 2 ^ 29) <<< 3 := by
      rw [Nat.shiftLeft_eq, Nat.shiftLeft_eq]
      omega
    rw [hHigh, ← Nat.shiftLeft_add_eq_or_of_lt hSmall, Nat.shiftLeft_eq, Nat.shiftRight_eq_div_pow]
    omega
  rw [hLow, hHigh]
  rfl

/-- Zeros behind the front of the buffer -/
theorem copy_zeros {front : List UInt8} (stop : Nat) (hLength : input.length = 64) (hFront : input.take place = front)
    (hPlace : place ≤ stop) (hStop : stop ≤ 64) :
    (copy input place (List.replicate (stop - place) 0)).length = 64 ∧
      (copy input place (List.replicate (stop - place) 0)).take stop = front ++ List.replicate (stop - place) 0 := by
  have hCopied : place + (List.replicate (stop - place) (0 : UInt8)).length = stop := by
    rw [List.length_replicate]
    omega
  have hTake := copy_take input (List.replicate (stop - place) 0) (show place ≤ input.length by omega)
  rw [hCopied, hFront] at hTake
  exact ⟨(copy_length (by omega)).trans hLength, hTake⟩

theorem Holds.final {ctx : MD5Context} {message : List UInt8} (h : Holds ctx message) : md5Final ctx = md5 message := by
  have hCount : (ctx.bytes0 &&& 0x3f).toNat = message.length % 64 := by
    rw [and_63, h.bytes0]
    omega
  have hRest := lastPart_length 64 message
  have hInput := h.length
  have hShort : message.length % 64 < 64 := Nat.mod_lt _ (by decide)
  have hBit : (copy ctx.input (message.length % 64) [0x80]).length = 64 := by
    rw [copy_length (by rw [List.length_singleton]; omega), hInput]
  have hBitTake : (copy ctx.input (message.length % 64) [0x80]).take (message.length % 64 + 1) =
      lastPart 64 message ++ [0x80] := by
    rw [← h.rest]
    exact copy_take _ [0x80] (by omega)
  have hBytes : (lengthBytes message.length).length = 8 := rfl
  unfold md5Final md5 padded
  dsimp only
  rw [hCount, count_bits h.bytes0 h.bytes1, foldFull_append (by decide), ← h.buf]
  generalize lengthBytes message.length = bits at hBytes
  generalize lastPart 64 message = part at hRest hBitTake
  generalize copy ctx.input (message.length % 64) [0x80] = bit at hBit hBitTake
  generalize message.length % 64 = count at hRest hShort hBitTake
  split
  next hLong =>
    obtain ⟨hFirst, hFirstTake⟩ := copy_zeros 64 hBit hBitTake (by omega) (by decide)
    rw [show 64 - (count + 1) = 63 - count by omega] at hFirst hFirstTake
    rw [List.take_of_length_le (Nat.le_of_eq hFirst)] at hFirstTake
    obtain ⟨hSecond, hSecondTake⟩ := copy_zeros 56 hFirst (show List.take 0 _ = [] from List.take_zero) (by decide)
      (by decide)
    rw [Nat.sub_zero] at hSecond hSecondTake
    have hZeros : List.replicate ((119 - count) % 64) (0 : UInt8) =
        List.replicate (63 - count) 0 ++ List.replicate 56 0 := by
      rw [List.replicate_append_replicate]
      congr 1
      omega
    have hBlocks : part ++ (0x80 :: List.replicate ((119 - count) % 64) 0 ++ bits) =
        copy bit (count + 1) (List.replicate (63 - count) 0) ++
          copy (copy (copy bit (count + 1) (List.replicate (63 - count) 0)) 0 (List.replicate 56 0)) 56 bits := by
      rw [copy_full (show 56 + bits.length = (copy _ 0 _).length by omega), hSecondTake, hFirstTake, hZeros]
      simp only [List.append_assoc, List.cons_append, List.nil_append]
    rw [hBlocks, foldFull_block hFirst (by decide), foldFull_full ((copy_length (by omega)).trans hSecond) (by decide)]
  next hFits =>
    obtain ⟨hOnly, hOnlyTake⟩ := copy_zeros 56 hBit hBitTake (by omega) (by decide)
    rw [show 56 - (count + 1) = 55 - count by omega] at hOnly hOnlyTake
    have hBlock : part ++ (0x80 :: List.replicate ((119 - count) % 64) 0 ++ bits) =
        copy (copy bit (count + 1) (List.replicate (55 - count) 0)) 56 bits := by
      rw [copy_full (by omega), hOnlyTake, show (119 - count) % 64 = 55 - count by omega]
      simp only [List.append_assoc, List.cons_append, List.nil_append]
    rw [hBlock, foldFull_full ((copy_length (by omega)).trans hOnly) (by decide)]

/-- In whatever pieces a message is given to the context, the digest is the hash code of the message. -/
theorem md5Final_pieces (pieces : List (List UInt8)) (hPieces : ∀ buf ∈ pieces, buf.length < 2 ^ 32) :
    md5Final (pieces.foldl md5Update md5Init) = md5 pieces.flatten := by
  have hHolds (message : List UInt8) (ctx : MD5Context) (h : Holds ctx message) :
      Holds (pieces.foldl md5Update ctx) (message ++ pieces.flatten) := by
    induction pieces generalizing message ctx with
    | nil => rwa [List.flatten_nil, List.append_nil]
    | cons buf pieces ih =>
      rw [List.foldl_cons, List.flatten_cons, ← List.append_assoc]
      exact ih (fun b hb => hPieces b (List.mem_cons_of_mem _ hb)) _ _ (h.update (hPieces buf (List.mem_cons_self ..)))
  exact (hHolds [] md5Init holds_init).final

theorem md5Final_two : md5Final ([[97], [98, 99]].foldl md5Update md5Init) = md5 [[97], [98, 99]].flatten :=
  md5Final_pieces [[97], [98, 99]] (by decide)

/-- "abc" -/
example : (md5 [97, 98, 99]).1 =
    [0x90, 0x01, 0x50, 0x98, 0x3c, 0xd2, 0x4f, 0xb0, 0xd6, 0x96, 0x3f, 0x7d, 0x28, 0xe1, 0x7f, 0x72] := by
  decide +kernel

/-! ### Hash codes of files -/

/-- The loop of `HashFileMD5` with its context -/
def hashLoop (reads : Reads) (contents : List UInt8) : Nat → Nat → Nat → MD5Context → Nat → MD5Context × Nat × Nat
  | 0, _, bytesLeft, ctx, retBytesHashed => (ctx, bytesLeft, retBytesHashed)
  | n + 1, position, bytesLeft, ctx, retBytesHashed =>
    let buf := PartialHash.read reads contents position (if bytesLeft < bufSize then bytesLeft else bufSize)
    if buf = [] then (ctx, bytesLeft, retBytesHashed)
    else if buf.length < bytesLeft then
      hashLoop reads contents n (position + buf.length) (bytesLeft - buf.length) (md5Update ctx buf)
        (retBytesHashed + buf.length)
    else (md5Update ctx (buf.take bytesLeft), 0, retBytesHashed + buf.length)

/-- `HashFileMD5` -/
def hashFileMD5 (reads : Reads) (entry : Option PartialHash.File) (len offset retBytesHashed : Int)
    (digest : List UInt8) : Hashed :=
  match entry with
  | none => ⟨false, len, retBytesHashed, digest, none⟩
  | some file =>
    if 0 < len ∧ file.fileSize < len then ⟨false, len, retBytesHashed, digest, some file⟩
    else
      match cachedHash file len offset with
      | some cached => ⟨true, if len = 0 then file.fileSize else len, file.fileSize, cached.1, some file⟩
      | none =>
        let digest := List.replicate md5DigestSize 0
        match seekTo file.fileSize len offset with
        | none => ⟨false, len, retBytesHashed, digest, some file⟩
        | some (position, bytesLeft) =>
          let (ctx, bytesLeft, retBytesHashed) :=
            hashLoop reads file.contents (bytesLeft.toNat + 1) position.toNat bytesLeft.toNat md5Init 0
          if 0 < bytesLeft then ⟨false, len, retBytesHashed, digest, some file⟩
          else
            let len := if len = 0 then file.fileSize else len
            ⟨true, len, retBytesHashed, (md5Final ctx).1, some (cacheResult file len offset (md5Final ctx))⟩

/-- No read gives more than the buffer holds. -/
theorem read_lt (reads : Reads) (contents : List UInt8) (position bytesLeft : Nat) :
    (PartialHash.read reads contents position (if bytesLeft < bufSize then bytesLeft else bufSize)).length <
      2 ^ 32 := by
  refine Nat.lt_of_le_of_lt (List.length_take_le ..) (Nat.lt_of_le_of_lt (reads.le_size ..) ?_)
  split
  next h => exact Nat.lt_trans h (by decide)
  next => decide

theorem hashLoop_holds (reads : Reads) (contents : List UInt8) (n position bytesLeft retBytesHashed : Nat)
    {ctx : MD5Context} {message : List UInt8} (h : Holds ctx message) :
    Holds (hashLoop reads contents n position bytesLeft ctx retBytesHashed).1
        (PartialHash.hashLoop reads contents n position bytesLeft message retBytesHashed).1 ∧
      (hashLoop reads contents n position bytesLeft ctx retBytesHashed).2 =
        (PartialHash.hashLoop reads contents n position bytesLeft message retBytesHashed).2 := by
  induction n generalizing position bytesLeft ctx message retBytesHashed with
  | zero => exact ⟨h, rfl⟩
  | succ n ih =>
    have hRead := read_lt reads contents position bytesLeft
    unfold hashLoop PartialHash.hashLoop
    dsimp only
    generalize PartialHash.read reads contents position (if bytesLeft < bufSize then bytesLeft else bufSize) = buf
      at hRead ⊢
    split
    · exact ⟨h, rfl⟩
    · split
      · exact ih _ _ _ (h.update hRead)
      · exact ⟨h.update (Nat.lt_of_le_of_lt (List.length_take_le' ..) hRead), rfl⟩

/-- A file is hashed as `HashFileMD5` is said to do with `md5`. -/
theorem hashFileMD5_computes (reads : Reads) (entry : Option PartialHash.File) (len offset retBytesHashed : Int)
    (digest : List UInt8) : hashFileMD5 reads entry len offset retBytesHashed digest =
      PartialHash.hashFileMD5 md5 reads entry len offset retBytesHashed digest := by
  unfold hashFileMD5 PartialHash.hashFileMD5
  cases entry with
  | none => rfl
  | some file =>
    dsimp only
    split
    · rfl
    · cases cachedHash file len offset with
      | some cached => rfl
      | none =>
        dsimp only
        cases seekTo file.fileSize len offset with
        | none => rfl
        | some place =>
          obtain ⟨hHolds, hRest⟩ := hashLoop_holds reads file.contents (place.2.toNat + 1) place.1.toNat place.2.toNat 0
            holds_init
          dsimp only
          generalize hashLoop reads file.contents (place.2.toNat + 1) place.1.toNat place.2.toNat md5Init 0 = here
            at hHolds hRest ⊢
          generalize PartialHash.hashLoop reads file.contents (place.2.toNat + 1) place.1.toNat place.2.toNat []
            0 = there
            at hHolds hRest ⊢
          obtain ⟨ctx, bytesLeft, hashed⟩ := here
          obtain ⟨message, bytesLeft', hashed'⟩ := there
          cases hRest
          have hFinal := hHolds.final
          dsimp only at hFinal ⊢
          generalize md5Final ctx = code at hFinal ⊢
          subst hFinal
          rfl

end BeShare.Client.MD5
