import Mathlib.Algebra.Order.Ring.Int
import Mathlib.Data.List.Infix

/-!
How the two peers of a transfer agree on the offset to resume at: `HashFileMD5`, and the loopers that read the hash
codes of the requested files for sending and compare them on receipt. MD5 is a parameter. A shutdown in the middle and
files that cannot be read are left out.
-/

namespace BeShare.Client.PartialHash

/-- `MD5_DIGEST_SIZE` -/
def md5DigestSize : Nat := 16

/-- A hash code. -/
def Digest : Type := { bytes : List UInt8 // bytes.length = md5DigestSize }

instance : DecidableEq Digest := inferInstanceAs (DecidableEq { bytes : List UInt8 // bytes.length = md5DigestSize })

theorem Digest.length_eq (digest : Digest) : digest.1.length = md5DigestSize := digest.2

/-- The attribute `CACHED_MD5_HASH_NAME`. -/
structure CachedHash where
  fileSize : Int
  digest : Digest
  modTime : UInt32

/-- A file, which has a size that an `off_t` holds. -/
structure File where
  contents : List UInt8
  modTime : UInt32
  cached : Option CachedHash
  length_lt : contents.length < 2 ^ 63

def File.fileSize (file : File) : Int := file.contents.length

/-- How much `Read` reads, from the position, the size that is asked for and what is left of the file. It can be less
than what is asked for. -/
structure Reads where
  count : Nat → Nat → Nat → Nat
  le_size : ∀ position size available, count position size available ≤ size
  le_available : ∀ position size available, count position size available ≤ available
  pos : ∀ position size available, 0 < size → 0 < available → 0 < count position size available

/-- An `off_t`. -/
def wrap64 (x : Int) : Int := x.bmod (2 ^ 64)

variable (md5 : List UInt8 → Digest) (reads : Reads)

def read (contents : List UInt8) (position size : Nat) : List UInt8 :=
  (contents.drop position).take (reads.count position size (contents.length - position))

/-- The size of the buffer. -/
def bufSize : Nat := 256 * 1024

/-- The loop of `HashFileMD5`: what the context has been given, what is left, and what has been read. -/
def hashLoop (contents : List UInt8) : Nat → Nat → Nat → List UInt8 → Nat → List UInt8 × Nat × Nat
  | 0, _, bytesLeft, ctx, retBytesHashed => (ctx, bytesLeft, retBytesHashed)
  | n + 1, position, bytesLeft, ctx, retBytesHashed =>
    let buf := read reads contents position (if bytesLeft < bufSize then bytesLeft else bufSize)
    if buf = [] then (ctx, bytesLeft, retBytesHashed)
    else if buf.length < bytesLeft then
      hashLoop contents n (position + buf.length) (bytesLeft - buf.length) (ctx ++ buf) (retBytesHashed + buf.length)
    else (ctx ++ buf.take bytesLeft, 0, retBytesHashed + buf.length)

/-- The status, the reference parameters, and the file with its attribute. -/
structure Hashed where
  noError : Bool
  len : Int
  retBytesHashed : Int
  digest : List UInt8
  entry : Option File

/-- The hash code that was computed before for the whole file. -/
def cachedHash (file : File) (len offset : Int) : Option Digest :=
  if offset = 0 ∧ (len = 0 ∨ len = file.fileSize) then
    match file.cached with
    | some buf => if buf.fileSize = file.fileSize ∧ buf.modTime = file.modTime then some buf.digest else none
    | none => none
  else none

/-- Where to seek, and how many bytes to read. `none` is past the end of the file. -/
def seekTo (fileSize len offset : Int) : Option (Int × Int) :=
  let bytesLeft := if 0 < len then len else fileSize
  if 0 < offset then
    if 0 < len then
      if fileSize < wrap64 (offset + len) then none else some (offset, bytesLeft)
    else if offset < fileSize then some (fileSize - offset, offset)
    else some (0, fileSize)
  else some (0, bytesLeft)

/-- The hash code of the whole file is kept, in case it is needed later. -/
def cacheResult (file : File) (len offset : Int) (digest : Digest) : File :=
  if offset = 0 ∧ len = file.fileSize then { file with cached := some ⟨file.fileSize, digest, file.modTime⟩ }
  else file

/-- `HashFileMD5` -/
def hashFileMD5 (entry : Option File) (len offset retBytesHashed : Int) (digest : List UInt8) : Hashed :=
  match entry with
  | none => ⟨false, len, retBytesHashed, digest, none⟩
  | some file =>
    if 0 < len ∧ file.fileSize < len then ⟨false, len, retBytesHashed, digest, some file⟩
    else
      match cachedHash file len offset with
      | some cached => ⟨true, if len = 0 then file.fileSize else len, file.fileSize, cached.1, some file⟩
      | none =>
        let digest := List.replicate md5DigestSize 0
        match seekTo file.fileSize len offset with
        | none => ⟨false, len, retBytesHashed, digest, some file⟩
        | some (position, bytesLeft) =>
          let (ctx, bytesLeft, retBytesHashed) :=
            hashLoop reads file.contents (bytesLeft.toNat + 1) position.toNat bytesLeft.toNat [] 0
          if 0 < bytesLeft then ⟨false, len, retBytesHashed, digest, some file⟩
          else
            let len := if len = 0 then file.fileSize else len
            ⟨true, len, retBytesHashed, (md5 ctx).1, some (cacheResult file len offset (md5 ctx))⟩

/-- The fields of `TRANSFER_COMMAND_FILE_LIST` that the offsets depend on. -/
structure FileList where
  files : List (List UInt8)
  offsets : List Int
  paths : List (List UInt8)
  numbytes : List Int
  md5 : List (List UInt8)

/-- A file to be requested, and what there is of it. -/
structure EntryRef where
  fileName : List UInt8
  path : List UInt8
  entry : Option File

/-- What `MD5SendLooper` adds for one file. The digest is not initialised. -/
def sendOne (bytesFromBack : Int) (digest : List UInt8) (msg : FileList) (ref : EntryRef) : FileList :=
  let hashed := hashFileMD5 md5 reads ref.entry 0 bytesFromBack 0 digest
  { msg with
    offsets := msg.offsets ++ [hashed.len]
    paths := msg.paths ++ [ref.path]
    numbytes := if 0 < bytesFromBack then msg.numbytes ++ [hashed.retBytesHashed] else msg.numbytes
    md5 := msg.md5 ++ [hashed.digest.take (if 0 < hashed.len then md5DigestSize else 1)] }

/-- `MD5SendLooper` -/
def md5Send (bytesFromBack : Int) (digest : List UInt8) (refs : List EntryRef) : FileList :=
  refs.foldl (sendOne md5 reads bytesFromBack digest) ⟨refs.map EntryRef.fileName, [], [], [], []⟩

/-- The offset that `MD5ReceiveLooper` puts in the place of one that is positive. -/
def uploadOffset (msg : FileList) (i : Nat) (offset : Int) (entry : Option File) : Int :=
  match msg.md5[i]? with
  | some hisDigest =>
    if hisDigest.length = md5DigestSize then
      let (len, seekTo) :=
        match msg.numbytes[i]? with
        | some readLength =>
          if readLength ≤ offset then (readLength, wrap64 (offset - readLength)) else (offset, readLength)
        | none => (offset, 0)
      -- 'x', so that it shows when it has not been overwritten
      let hashed := hashFileMD5 md5 reads entry len seekTo 0 (List.replicate md5DigestSize 120)
      if hashed.noError ∧ hisDigest = hashed.digest then offset else 0
    else 0
  | none => 0

/-- What `MD5ReceiveLooper` does for one file. -/
def receiveOne (msg : FileList) (i : Nat) (entry : Option File) : FileList :=
  match msg.offsets[i]? with
  | some offset =>
    if 0 < offset then { msg with offsets := msg.offsets.set i (uploadOffset md5 reads msg i offset entry) } else msg
  | none => msg

/-- `MD5ReceiveLooper` from the given place on. -/
def md5Receive : Nat → List (Option File) → FileList → FileList
  | _, [], msg => msg
  | i, entry :: entries, msg => md5Receive (i + 1) entries (receiveOne md5 reads msg i entry)

/-! ### The loop -/

variable {md5} {file file' : File}

theorem read_length (contents : List UInt8) (position size : Nat) :
    (read reads contents position size).length = reads.count position size (contents.length - position) := by
  rw [read, List.length_take, List.length_drop]
  exact Nat.min_eq_left (reads.le_available _ _ _)

/-- However much is read at a time, the context is given what was to be hashed, as far as the file goes. -/
theorem hashLoop_eq (contents : List UInt8) {n position bytesLeft : Nat} (hn : bytesLeft < n) (ctx : List UInt8)
    (retBytesHashed : Nat) : hashLoop reads contents n position bytesLeft ctx retBytesHashed =
      (ctx ++ (contents.drop position).take bytesLeft, bytesLeft - (contents.length - position),
        retBytesHashed + min bytesLeft (contents.length - position)) := by
  induction n generalizing position bytesLeft ctx retBytesHashed with
  | zero => omega
  | succ n ih =>
    have hSize : (if bytesLeft < bufSize then bytesLeft else bufSize) ≤ bytesLeft := by
      split <;> omega
    have hSome : 0 < bytesLeft → 0 < if bytesLeft < bufSize then bytesLeft else bufSize := by
      intro h
      split
      · exact h
      · decide
    rw [hashLoop]
    generalize (if bytesLeft < bufSize then bytesLeft else bufSize) = size at hSize hSome
    have hLength := read_length reads contents position size
    have hLe := reads.le_size position size (contents.length - position)
    have hAvailable := reads.le_available position size (contents.length - position)
    have hPos := reads.pos position size (contents.length - position)
    have hPrefix : read reads contents position size =
        (contents.drop position).take (read reads contents position size).length := by
      rw [hLength, read]
    generalize read reads contents position size = buf at hLength hPrefix
    rw [← hLength] at hLe hAvailable hPos
    by_cases hEnd : buf = []
    · -- nothing is left, of the file or of what was to be read
      have hNone : bytesLeft = 0 ∨ contents.length - position = 0 := by
        rw [hEnd, List.length_nil] at hPos
        omega
      have hTaken : (contents.drop position).take bytesLeft = [] := by
        rw [List.take_eq_nil_iff, List.drop_eq_nil_iff]
        omega
      rw [if_pos hEnd, hTaken, List.append_nil]
      rw [Prod.mk.injEq, Prod.mk.injEq]
      exact ⟨rfl, by omega, by omega⟩
    · have hRead : 0 < buf.length := List.length_pos_iff_ne_nil.mpr hEnd
      rw [if_neg hEnd]
      by_cases hMore : buf.length < bytesLeft
      · have hRest : (contents.drop position).take bytesLeft =
            buf ++ (contents.drop (position + buf.length)).take (bytesLeft - buf.length) := by
          conv_lhs => rw [← Nat.add_sub_cancel' hMore.le, List.take_add, ← hPrefix, List.drop_drop]
        rw [if_pos hMore, ih (by omega), hRest, List.append_assoc]
        rw [Prod.mk.injEq, Prod.mk.injEq]
        exact ⟨rfl, by omega, by omega⟩
      · have hAll : buf.length = bytesLeft := by omega
        rw [if_neg hMore, ← hAll, ← hPrefix, List.take_length]
        rw [Prod.mk.injEq, Prod.mk.injEq]
        exact ⟨rfl, by omega, by omega⟩

/-! ### The hash code of a file -/

/-- Bytes of a file. -/
def slice (contents : List UInt8) (position size : Nat) : List UInt8 :=
  (contents.drop position).take size

/-- What the attribute says of a file that has not changed is its hash code. -/
def CacheSound (md5 : List UInt8 → Digest) (file : File) : Prop :=
  ∀ buf, file.cached = some buf → buf.fileSize = file.fileSize → buf.modTime = file.modTime →
    buf.digest = md5 file.contents

/-- The attribute of the file comes from hashing it, and it has not changed since. -/
inductive Unchanged (md5 : List UInt8 → Digest) : File → Prop
  | uncached (f : File) : f.cached = none → Unchanged md5 f
  | hashed (f f' : File) (reads : Reads) (len offset retBytesHashed : Int) (digest : List UInt8) : Unchanged md5 f →
      (hashFileMD5 md5 reads (some f) len offset retBytesHashed digest).entry = some f' → Unchanged md5 f'

theorem fileSize_nonneg (file : File) : 0 ≤ file.fileSize := Int.natCast_nonneg _

theorem seekTo_whole {fileSize len offset : Int} (hOffset : offset = 0) (hLen : len = 0 ∨ len = fileSize) :
    seekTo fileSize len offset = some (0, fileSize) := by
  unfold seekTo
  rw [if_neg (by omega)]
  split
  · rw [hLen.resolve_left (by omega)]
  · rfl

/-- What is hashed, when it is in the file. -/
theorem hashFileMD5_eq (hSound : CacheSound md5 file) {len offset : Int} {position size : Nat}
    (hLen : ¬(0 < len ∧ file.fileSize < len)) (hSeek : seekTo file.fileSize len offset = some (↑position, ↑size))
    (hIn : position + size ≤ file.contents.length) (retBytesHashed : Int) (digest : List UInt8) :
    ∃ entry, hashFileMD5 md5 reads (some file) len offset retBytesHashed digest =
      ⟨true, if len = 0 then file.fileSize else len, size, (md5 (slice file.contents position size)).1, entry⟩ := by
  rw [hashFileMD5, if_neg hLen]
  cases hCached : cachedHash file len offset with
  | some cached =>
    unfold cachedHash at hCached
    split at hCached
    · rename_i hAll
      rw [seekTo_whole hAll.1 hAll.2] at hSeek
      obtain ⟨hPosition, hSize⟩ := Prod.mk.inj (Option.some.inj hSeek)
      obtain rfl : position = 0 := by omega
      obtain rfl : size = file.contents.length := (Int.ofNat.inj hSize).symm
      split at hCached
      · rename_i buf hBuf
        split at hCached
        · rename_i hValid
          obtain rfl := Option.some.inj hCached
          refine ⟨some file, ?_⟩
          rw [hSound buf hBuf hValid.1 hValid.2, slice, List.drop_zero, List.take_length]
          rfl
        · cases hCached
      · cases hCached
    · cases hCached
  | none =>
    dsimp only
    rw [hSeek]
    dsimp only
    rw [Int.toNat_natCast, Int.toNat_natCast, hashLoop_eq reads file.contents (Nat.lt_succ_self _)]
    have hDone : size - (file.contents.length - position) = 0 := by omega
    have hRead : 0 + min size (file.contents.length - position) = size := by omega
    rw [hDone, hRead, if_neg (Nat.lt_irrefl 0), List.nil_append]
    exact ⟨_, rfl⟩

theorem cacheResult_sound (hSound : CacheSound md5 file) (len offset : Int) :
    CacheSound md5 (cacheResult file len offset (md5 file.contents)) := by
  unfold cacheResult
  split
  · intro buf hBuf _ _
    obtain rfl := Option.some.inj hBuf
    rfl
  · exact hSound

/-- What is put into the attribute is the hash code of the whole file. -/
theorem hashFileMD5_sound (hSound : CacheSound md5 file) {len offset retBytesHashed : Int} {digest : List UInt8}
    (hEntry : (hashFileMD5 md5 reads (some file) len offset retBytesHashed digest).entry = some file') :
    CacheSound md5 file' := by
  rw [hashFileMD5] at hEntry
  split at hEntry
  · obtain rfl := Option.some.inj hEntry
    exact hSound
  · split at hEntry
    · obtain rfl := Option.some.inj hEntry
      exact hSound
    · dsimp only at hEntry
      split at hEntry
      · obtain rfl := Option.some.inj hEntry
        exact hSound
      · rename_i position bytesLeft hSeek
        split at hEntry
        · obtain rfl := Option.some.inj hEntry
          exact hSound
        · rename_i hDone
          obtain rfl := Option.some.inj hEntry
          by_cases hWhole : offset = 0 ∧ (if len = 0 then file.fileSize else len) = file.fileSize
          · obtain ⟨hOffset, hLen⟩ := hWhole
            have hLen : len = 0 ∨ len = file.fileSize := by
              split at hLen
              · exact .inl ‹_›
              · exact .inr hLen
            rw [seekTo_whole hOffset hLen] at hSeek
            obtain ⟨rfl, rfl⟩ := Prod.mk.inj (Option.some.inj hSeek)
            have hAll : file.fileSize.toNat = file.contents.length := Int.toNat_natCast _
            rw [hashLoop_eq reads file.contents (Nat.lt_succ_self _), hAll, Int.toNat_zero, List.drop_zero,
              List.take_length, List.nil_append]
            exact cacheResult_sound hSound _ _
          · rw [cacheResult, if_neg hWhole]
            exact hSound

theorem Unchanged.sound (h : Unchanged md5 file) : CacheSound md5 file := by
  induction h with
  | uncached f hNone =>
    intro buf hBuf
    rw [hNone] at hBuf
    cases hBuf
  | hashed _ _ _ _ _ _ _ _ hEntry ih => exact hashFileMD5_sound _ ih hEntry

/-- How many bytes at the end of a partial file are compared. -/
def comparedBytes (bytesFromBack : Int) (n : Nat) : Nat :=
  if 0 < bytesFromBack then min bytesFromBack.toNat n else n

theorem comparedBytes_le (bytesFromBack : Int) (n : Nat) : comparedBytes bytesFromBack n ≤ n := by
  unfold comparedBytes
  split
  · exact Nat.min_le_right _ _
  · exact Nat.le_refl n

theorem comparedBytes_pos (bytesFromBack : Int) {n : Nat} (h : 0 < n) : 0 < comparedBytes bytesFromBack n := by
  unfold comparedBytes
  split <;> omega

/-- The hash code that is sent. -/
theorem hashFileMD5_fromBack (hSound : CacheSound md5 file) (bytesFromBack : Int) (digest : List UInt8) :
    ∃ entry, hashFileMD5 md5 reads (some file) 0 bytesFromBack 0 digest =
      ⟨true, file.fileSize, comparedBytes bytesFromBack file.contents.length,
        (md5 (slice file.contents (file.contents.length - comparedBytes bytesFromBack file.contents.length)
          (comparedBytes bytesFromBack file.contents.length))).1, entry⟩ := by
  have hLe := comparedBytes_le bytesFromBack file.contents.length
  have hSeek : seekTo file.fileSize 0 bytesFromBack =
      some (↑(file.contents.length - comparedBytes bytesFromBack file.contents.length),
        ↑(comparedBytes bytesFromBack file.contents.length)) := by
    have hFile : file.fileSize = file.contents.length := rfl
    simp only [seekTo, comparedBytes, Int.lt_irrefl, if_false]
    by_cases hBack : 0 < bytesFromBack
    · rw [if_pos hBack, if_pos hBack]
      by_cases hShort : bytesFromBack < file.fileSize
      · rw [if_pos hShort, Option.some.injEq, Prod.mk.injEq]
        omega
      · rw [if_neg hShort, Option.some.injEq, Prod.mk.injEq]
        omega
    · rw [if_neg hBack, if_neg hBack, Option.some.injEq, Prod.mk.injEq]
      omega
  obtain ⟨entry, hHashed⟩ := hashFileMD5_eq reads hSound (fun h => Int.lt_irrefl 0 h.1) hSeek (by omega) 0
    digest
  exact ⟨entry, hHashed⟩

theorem wrap64_natCast {x : Nat} (h : x < 2 ^ 63) : wrap64 x = x := by
  rw [wrap64]
  exact Int.bmod_eq_of_le (by omega) (by omega)

/-- The hash code that is compared with it. -/
theorem hashFileMD5_range (hSound : CacheSound md5 file) (position : Nat) {size : Nat} (hSize : 0 < size)
    (hSum : position + size < 2 ^ 63) (digest : List UInt8) :
    if position + size ≤ file.contents.length then
      ∃ entry, hashFileMD5 md5 reads (some file) size position 0 digest =
        ⟨true, size, size, (md5 (slice file.contents position size)).1, entry⟩
    else (hashFileMD5 md5 reads (some file) size position 0 digest).noError = false := by
  have hWrap : wrap64 (position + size) = ↑(position + size) := wrap64_natCast hSum
  have hLen : (if (size : Int) = 0 then file.fileSize else size) = size := if_neg (by omega)
  have hFile : file.fileSize = file.contents.length := rfl
  split
  · rename_i hIn
    have hSeek : seekTo file.fileSize size position = some (↑position, ↑size) := by
      unfold seekTo
      rw [if_pos (by omega : (0 : Int) < size), hWrap]
      split
      · rw [if_pos (by omega), if_neg (by omega)]
      · obtain rfl : position = 0 := by omega
        rfl
    obtain ⟨entry, hHashed⟩ := hashFileMD5_eq reads hSound (by omega) hSeek hIn 0 digest
    rw [hLen] at hHashed
    exact ⟨entry, hHashed⟩
  · rename_i hOut
    rw [hashFileMD5]
    split
    · rfl
    · rename_i hFits
      have hFits : size ≤ file.contents.length := by omega
      have hCached : cachedHash file size position = none := if_neg (by omega)
      have hSeek : seekTo file.fileSize size position = none := by
        unfold seekTo
        rw [if_pos (by omega : (0 : Int) < position), if_pos (by omega), hWrap, if_pos (by omega)]
      rw [hCached]
      dsimp only
      rw [hSeek]

/-- With the attribute or without it, the answer is the same. -/
theorem hashFileMD5_uncached (hSound : CacheSound md5 file) (len offset retBytesHashed : Int) (digest : List UInt8) :
    ∃ entry, hashFileMD5 md5 reads (some { file with cached := none }) len offset retBytesHashed digest =
      { hashFileMD5 md5 reads (some file) len offset retBytesHashed digest with entry := entry } := by
  have hFresh : CacheSound md5 { file with cached := none } := fun _ hBuf => absurd hBuf.symm (Option.some_ne_none _)
  by_cases hWhole : offset = 0 ∧ (len = 0 ∨ len = file.fileSize)
  · have hFits : ¬(0 < len ∧ file.fileSize < len) := by
      have hSize := fileSize_nonneg file
      omega
    have hSeek : seekTo file.fileSize len offset = some (↑(0 : Nat), ↑file.contents.length) :=
      seekTo_whole hWhole.1 hWhole.2
    have hIn : 0 + file.contents.length ≤ file.contents.length := Nat.le_of_eq (Nat.zero_add _)
    obtain ⟨_, hWith⟩ := hashFileMD5_eq reads hSound hFits hSeek hIn retBytesHashed digest
    obtain ⟨entry, hWithout⟩ := hashFileMD5_eq reads hFresh hFits hSeek hIn retBytesHashed digest
    rw [hWith]
    exact ⟨entry, hWithout⟩
  · have hNone : cachedHash file len offset = none := if_neg hWhole
    have hNone' : cachedHash { file with cached := none } len offset = none := if_neg hWhole
    rw [hashFileMD5, hashFileMD5]
    dsimp only
    rw [hNone, hNone']
    have hSize : File.fileSize { file with cached := none } = file.fileSize := rfl
    rw [hSize]
    split
    · exact ⟨_, rfl⟩
    · dsimp only
      split
      · exact ⟨_, rfl⟩
      · split <;> exact ⟨_, rfl⟩

/-! ### The lists of the message -/

theorem foldl_sendOne (bytesFromBack : Int) (digest : List UInt8) (refs : List EntryRef) (msg : FileList) :
    refs.foldl (sendOne md5 reads bytesFromBack digest) msg =
      { msg with
        offsets := msg.offsets ++ refs.map fun ref => (hashFileMD5 md5 reads ref.entry 0 bytesFromBack 0 digest).len
        paths := msg.paths ++ refs.map EntryRef.path
        numbytes := if 0 < bytesFromBack then msg.numbytes ++ refs.map fun ref =>
          (hashFileMD5 md5 reads ref.entry 0 bytesFromBack 0 digest).retBytesHashed else msg.numbytes
        md5 := msg.md5 ++ refs.map fun ref =>
          (hashFileMD5 md5 reads ref.entry 0 bytesFromBack 0 digest).digest.take
            (if 0 < (hashFileMD5 md5 reads ref.entry 0 bytesFromBack 0 digest).len then md5DigestSize else 1) } := by
  induction refs generalizing msg with
  | nil =>
    simp only [List.foldl_nil, List.map_nil, List.append_nil, ite_self]
  | cons ref refs ih =>
    rw [List.foldl_cons, ih]
    simp only [sendOne, List.map_cons, List.append_assoc, List.singleton_append]
    split
    · rw [List.append_assoc]
      rfl
    · rfl

theorem receiveOne_other (msg : FileList) {i j : Nat} (h : i ≠ j) (entry : Option File) :
    (receiveOne md5 reads msg i entry).offsets[j]? = msg.offsets[j]? := by
  unfold receiveOne
  split
  · split
    · exact List.getElem?_set_ne h
    · rfl
  · rfl

theorem receiveOne_same {msg : FileList} {i : Nat} {offset : Int} (hOffset : msg.offsets[i]? = some offset)
    (entry : Option File) : (receiveOne md5 reads msg i entry).offsets[i]? =
      some (if 0 < offset then uploadOffset md5 reads msg i offset entry else offset) := by
  rw [receiveOne, hOffset]
  dsimp only
  split
  · exact List.getElem?_set_self (List.getElem?_eq_some_iff.mp hOffset).1
  · exact hOffset

theorem receiveOne_uploadOffset (msg : FileList) (i j : Nat) (entry entry' : Option File) (offset : Int) :
    uploadOffset md5 reads (receiveOne md5 reads msg i entry) j offset entry' =
      uploadOffset md5 reads msg j offset entry' := by
  unfold receiveOne
  split
  · split <;> rfl
  · rfl

/-- The offsets before the place are left alone. -/
theorem md5Receive_before (entries : List (Option File)) {i j : Nat} (h : i < j) (msg : FileList) :
    (md5Receive md5 reads j entries msg).offsets[i]? = msg.offsets[i]? := by
  induction entries generalizing j msg with
  | nil => rfl
  | cons entry entries ih =>
    rw [md5Receive, ih (Nat.lt_succ_of_lt h)]
    exact receiveOne_other reads msg (Nat.ne_of_gt h) entry

/-- Each positive offset is replaced once. -/
theorem md5Receive_offset (entries : List (Option File)) (j i : Nat) (msg : FileList) {entry : Option File}
    {offset : Int} (hEntry : entries[i]? = some entry) (hOffset : msg.offsets[j + i]? = some offset) :
    (md5Receive md5 reads j entries msg).offsets[j + i]? =
      some (if 0 < offset then uploadOffset md5 reads msg (j + i) offset entry else offset) := by
  induction entries generalizing j i msg with
  | nil => cases hEntry
  | cons first entries ih =>
    rw [md5Receive]
    cases i with
    | zero =>
      obtain rfl : first = entry := Option.some.inj hEntry
      exact (md5Receive_before reads entries (Nat.lt_succ_self j) _).trans (receiveOne_same reads hOffset first)
    | succ i =>
      have hPlace : j + (i + 1) = j + 1 + i := by omega
      rw [hPlace] at hOffset ⊢
      rw [← receiveOne_other reads msg (by omega : j ≠ j + 1 + i) first] at hOffset
      rw [ih (j + 1) i _ hEntry hOffset, receiveOne_uploadOffset]

/-! ### The agreement -/

/-- The bytes at the end of the first `n` that are compared. -/
def comparedSlice (bytesFromBack : Int) (n : Nat) (contents : List UInt8) : List UInt8 :=
  slice contents (n - comparedBytes bytesFromBack n) (comparedBytes bytesFromBack n)

/-- What is said about a partial file on the one side is checked on the other. -/
theorem uploadOffset_eq {msg : FileList} {i n : Nat} (hn : 0 < n) (hSize : n < 2 ^ 63) {bytesFromBack : Int}
    {hisDigest : Digest} (hDigest : msg.md5[i]? = some hisDigest.1)
    (hNumbytes : msg.numbytes[i]? = if 0 < bytesFromBack then some (↑(comparedBytes bytesFromBack n)) else none)
    (hSound : CacheSound md5 file) : uploadOffset md5 reads msg i n (some file) =
      if n ≤ file.contents.length ∧ hisDigest = md5 (comparedSlice bytesFromBack n file.contents) then ↑n else 0 := by
  have hLe := comparedBytes_le bytesFromBack n
  have hPos := comparedBytes_pos bytesFromBack hn
  have hPair : (match msg.numbytes[i]? with
      | some readLength =>
        if readLength ≤ (n : Int) then (readLength, wrap64 (↑n - readLength)) else ((n : Int), readLength)
      | none => ((n : Int), 0)) = (↑(comparedBytes bytesFromBack n), ↑(n - comparedBytes bytesFromBack n)) := by
    rw [hNumbytes]
    by_cases hBack : 0 < bytesFromBack
    · rw [if_pos hBack]
      dsimp only
      rw [if_pos (by omega), ← Int.ofNat_sub hLe, wrap64_natCast (by omega)]
    · have hAll : comparedBytes bytesFromBack n = n := if_neg hBack
      rw [if_neg hBack, hAll, Nat.sub_self]
      rfl
  have hRange := hashFileMD5_range reads hSound (n - comparedBytes bytesFromBack n) hPos (by omega)
    (List.replicate md5DigestSize 120)
  rw [Nat.sub_add_cancel hLe] at hRange
  rw [uploadOffset, hDigest]
  dsimp only
  rw [if_pos hisDigest.2, hPair]
  dsimp only
  by_cases hFits : n ≤ file.contents.length
  · rw [if_pos hFits] at hRange
    obtain ⟨entry, hHashed⟩ := hRange
    rw [hHashed]
    refine if_congr ?_ rfl rfl
    exact and_congr (iff_of_true rfl hFits) Subtype.ext_iff.symm
  · rw [if_neg hFits] at hRange
    rw [hRange, if_neg (fun h => Bool.false_ne_true h.1), if_neg (fun h => hFits h.1)]

/-- The two peers agree. The sender names the size of its partial file and the hash code of the bytes at its end. The
receiver hashes the same bytes of its own file, and resumes at that size exactly if it has them all and the hash codes
are equal. An attribute of an unchanged file changes no answer. -/
theorem md5Receive_resumes (md5 : List UInt8 → Digest) (sends receives : Reads) (bytesFromBack : Int)
    (digest : List UInt8) (refs : List EntryRef) (entries : List (Option File))
    (hLocal : ∀ ref ∈ refs, ∀ file, ref.entry = some file → Unchanged md5 file)
    (hRemote : ∀ file, some file ∈ entries → Unchanged md5 file) :
    (∀ (i : Nat) (ref : EntryRef) (l : File) (entry : Option File), refs[i]? = some ref → ref.entry = some l →
      0 < l.contents.length → entries[i]? = some entry →
      (md5Send md5 sends bytesFromBack digest refs).offsets[i]? = some l.fileSize ∧
      (md5Send md5 sends bytesFromBack digest refs).md5[i]? =
        some (md5 (comparedSlice bytesFromBack l.contents.length l.contents)).1 ∧
      (md5Receive md5 receives 0 entries (md5Send md5 sends bytesFromBack digest refs)).offsets[i]? =
        some (match entry with
          | some r =>
            if l.contents.length ≤ r.contents.length ∧
                md5 (comparedSlice bytesFromBack l.contents.length l.contents) =
                  md5 (comparedSlice bytesFromBack l.contents.length r.contents) then l.fileSize
            else 0
          | none => 0)) ∧
    ∀ file : File, Unchanged md5 file → ∀ (reads : Reads) (len offset retBytesHashed : Int) (digest : List UInt8),
      ∃ entry, hashFileMD5 md5 reads (some { file with cached := none }) len offset retBytesHashed digest =
        { hashFileMD5 md5 reads (some file) len offset retBytesHashed digest with entry := entry } := by
  refine ⟨fun i ref l entry hRef hEntry hSome hRemoteEntry => ?_,
    fun file hFile reads len offset retBytesHashed digest =>
      hashFileMD5_uncached reads hFile.sound len offset retBytesHashed digest⟩
  have hPos : 0 < l.fileSize := Int.natCast_pos.mpr hSome
  have hMem : ref ∈ refs := List.mem_of_getElem? hRef
  obtain ⟨_, hHashed⟩ := hashFileMD5_fromBack sends (hLocal ref hMem l hEntry).sound bytesFromBack digest
  rw [← hEntry] at hHashed
  have hOffset : (md5Send md5 sends bytesFromBack digest refs).offsets[i]? = some l.fileSize := by
    rw [md5Send, foldl_sendOne]
    dsimp only
    rw [List.nil_append, List.getElem?_map, hRef, Option.map_some, hHashed]
  have hDigest : (md5Send md5 sends bytesFromBack digest refs).md5[i]? =
      some (md5 (comparedSlice bytesFromBack l.contents.length l.contents)).1 := by
    have hAll : (md5 (comparedSlice bytesFromBack l.contents.length l.contents)).1.take md5DigestSize =
        (md5 (comparedSlice bytesFromBack l.contents.length l.contents)).1 :=
      List.take_of_length_le (Nat.le_of_eq (Digest.length_eq _))
    rw [md5Send, foldl_sendOne]
    dsimp only
    rw [List.nil_append, List.getElem?_map, hRef, Option.map_some, hHashed]
    dsimp only
    rw [if_pos hPos]
    exact congrArg some hAll
  have hNumbytes : (md5Send md5 sends bytesFromBack digest refs).numbytes[i]? =
      if 0 < bytesFromBack then some (↑(comparedBytes bytesFromBack l.contents.length)) else none := by
    rw [md5Send, foldl_sendOne]
    dsimp only
    split
    · rw [List.nil_append, List.getElem?_map, hRef, Option.map_some, hHashed]
    · rfl
  refine ⟨hOffset, hDigest, ?_⟩
  have hReplaced := @md5Receive_offset md5 receives entries 0 i (md5Send md5 sends bytesFromBack digest refs)
    entry l.fileSize hRemoteEntry ((congrArg _ (Nat.zero_add i)).trans hOffset)
  rw [Nat.zero_add] at hReplaced
  rw [hReplaced, if_pos hPos]
  cases entry with
  | some r =>
    have hSound := (hRemote r (List.mem_of_getElem? hRemoteEntry)).sound
    exact congrArg some (uploadOffset_eq receives hSome l.length_lt hDigest hNumbytes hSound)
  | none =>
    rw [uploadOffset, hDigest]
    dsimp only
    rw [if_pos (Digest.length_eq _)]
    rfl

/-- All that is asked for is read. -/
def wholeReads : Reads :=
  ⟨fun _ size available => min size available, fun _ _ _ => Nat.min_le_left _ _, fun _ _ _ => Nat.min_le_right _ _,
    fun _ _ _ hSize hAvailable => Nat.lt_min.mpr ⟨hSize, hAvailable⟩⟩

/-- The hash code of "a", for "a". -/
def md5OfA (_ : List UInt8) : Digest :=
  ⟨[0x0c, 0xc1, 0x75, 0xb9, 0xc0, 0xf1, 0xb6, 0xa8, 0x31, 0xc3, 0x99, 0xe2, 0x69, 0x77, 0x26, 0x61], rfl⟩

/-- "a" is there of "ab". -/
theorem md5Receive_resumes_a : (md5Receive md5OfA wholeReads 0 [some ⟨[97, 98], 0, none, by decide⟩]
    (md5Send md5OfA wholeReads 0 [] [⟨[102], [], some ⟨[97], 0, none, by decide⟩⟩])).offsets[0]? = some 1 := by
  have hResumes := (md5Receive_resumes md5OfA wholeReads wholeReads 0 []
    [⟨[102], [], some ⟨[97], 0, none, by decide⟩⟩] [some ⟨[97, 98], 0, none, by decide⟩]
    (fun ref hRef file hFile => by
      rw [List.mem_singleton.mp hRef] at hFile
      exact .uncached _ (congrArg File.cached (Option.some.inj hFile).symm))
    (fun file hFile => .uncached _ (congrArg File.cached (Option.some.inj (List.mem_singleton.mp hFile))))).1
      0 _ ⟨[97], 0, none, by decide⟩ _ rfl rfl (by decide) rfl
  exact hResumes.2.2.trans (congrArg some (if_pos ⟨by decide, rfl⟩))

end BeShare.Client.PartialHash
