import BeShare.Client.Delivery
import BeShare.Client.PartialHash

/-!
A download that goes on with what there is of the files. The offsets that are asked for are those that the peers agree
on by their hash codes.
-/

namespace BeShare.Client.Resuming

open BeShare.Lib
open Delivery (Step StepOk Transfer start delivered write_contents append_drop_eq_iff)
open Downloads (DownloadSession OpenFile)
open PartialHash

/-- The files that are requested, with what there is of them, and the files of the other peer by their names. None has
changed since a hash code of it was kept. -/
structure Exchange where
  md5 : List UInt8 → Digest
  sends : Reads
  receives : Reads
  bytesFromBack : Int
  digest : List UInt8
  refs : List PartialHash.EntryRef
  shared : List UInt8 → File
  refs_unchanged : ∀ ref ∈ refs, ∀ file, ref.entry = some file → Unchanged md5 file
  shared_unchanged : ∀ name, Unchanged md5 (shared name)

/-- The size, and the hash code and the number of bytes that it is of, are in the places of the file. -/
theorem md5Send_at (md5 : List UInt8 → Digest) (reads : Reads) (bytesFromBack : Int) (digest : List UInt8)
    {refs : List PartialHash.EntryRef} {i : Nat} {ref : PartialHash.EntryRef} (hRef : refs[i]? = some ref) :
    let hashed := hashFileMD5 md5 reads ref.entry 0 bytesFromBack 0 digest
    let msg := md5Send md5 reads bytesFromBack digest refs
    msg.offsets[i]? = some hashed.len ∧
      msg.md5[i]? = some (hashed.digest.take (if 0 < hashed.len then md5DigestSize else 1)) ∧
      msg.numbytes[i]? = if 0 < bytesFromBack then some hashed.retBytesHashed else none := by
  unfold md5Send
  rw [foldl_sendOne]
  dsimp only
  refine ⟨?_, ?_, ?_⟩
  · rw [List.nil_append, List.getElem?_map, hRef]
    rfl
  · rw [List.nil_append, List.getElem?_map, hRef]
    rfl
  · split
    · rw [List.nil_append, List.getElem?_map, hRef]
      rfl
    · rfl

namespace Exchange

variable (x : Exchange)

/-- The request as it is when the other peer has compared the hash codes. -/
def answer : FileList :=
  md5Receive x.md5 x.receives 0 (x.refs.map fun ref => some (x.shared ref.fileName))
    (md5Send x.md5 x.sends x.bytesFromBack x.digest x.refs)

/-- The offset is asked for with the name. -/
def Asked (name : List UInt8) (offset : Int) : Prop :=
  ∃ (i : Nat) (ref : PartialHash.EntryRef), x.refs[i]? = some ref ∧ ref.fileName = name ∧ (x.answer.offsets[i]?).getD 0 = offset

/-- The bytes at the end of a part of `n` bytes that are compared. -/
def compared (n : Nat) (contents : List UInt8) : List UInt8 :=
  comparedSlice x.bytesFromBack n contents

/-- Those before them. -/
def notCompared (n : Nat) (contents : List UInt8) : List UInt8 :=
  contents.take (n - comparedBytes x.bytesFromBack n)

/-- The first `n` bytes are those that are compared and those that are not. -/
theorem take_eq (n : Nat) (contents : List UInt8) :
    contents.take n = x.notCompared n contents ++ x.compared n contents := by
  have hLe := comparedBytes_le x.bytesFromBack n
  unfold notCompared compared comparedSlice slice
  rw [← List.take_add, Nat.sub_add_cancel hLe]

/-- A positive offset is the size of what there is, and the hash codes are equal. -/
theorem asked_pos {name : List UInt8} {offset : Int} (h : x.Asked name offset) : 0 ≤ offset ∧ (0 < offset →
    ∃ ref ∈ x.refs, ref.fileName = name ∧ ∃ l, ref.entry = some l ∧ offset = l.contents.length ∧
      x.md5 (x.compared l.contents.length l.contents) =
        x.md5 (x.compared l.contents.length (x.shared name).contents)) := by
  obtain ⟨i, ref, hRef, rfl, rfl⟩ := h
  have hMem := List.mem_of_getElem? hRef
  obtain ⟨hOffset, hDigest, hNumbytes⟩ := md5Send_at x.md5 x.sends x.bytesFromBack x.digest hRef
  have hEntry : (x.refs.map fun ref => some (x.shared ref.fileName))[i]? = some (some (x.shared ref.fileName)) := by
    rw [List.getElem?_map, hRef]
    rfl
  have hAnswer := @md5Receive_offset x.md5 x.receives _ 0 i _ _ _ hEntry ((congrArg _ (Nat.zero_add i)).trans hOffset)
  rw [Nat.zero_add] at hAnswer
  unfold answer
  rw [hAnswer, Option.getD_some]
  cases hLocal : ref.entry with
  | none =>
    have hNone : (hashFileMD5 x.md5 x.sends none 0 x.bytesFromBack 0 x.digest).len = 0 := rfl
    rw [hNone, if_neg (Int.lt_irrefl 0)]
    exact ⟨Int.le_refl 0, fun hPos => absurd hPos (Int.lt_irrefl 0)⟩
  | some l =>
    rw [hLocal] at hDigest hNumbytes
    have hSound := (x.refs_unchanged ref hMem l hLocal).sound
    obtain ⟨_, hHashed⟩ := hashFileMD5_fromBack x.sends hSound x.bytesFromBack x.digest
    rw [hHashed] at hDigest hNumbytes ⊢
    dsimp only at hDigest hNumbytes ⊢
    have hSize : l.fileSize = (l.contents.length : Int) := rfl
    split
    · rename_i hPos
      rw [if_pos hPos, List.take_of_length_le (Nat.le_of_eq (Digest.length_eq _))] at hDigest
      have hSome : 0 < l.contents.length := Int.natCast_pos.mp hPos
      have hUpload := uploadOffset_eq x.receives hSome l.length_lt hDigest hNumbytes
        (x.shared_unchanged ref.fileName).sound
      rw [hSize, hUpload]
      split
      · rename_i hAgree
        exact ⟨Int.natCast_nonneg _, fun _ => ⟨ref, hMem, rfl, l, hLocal, rfl, hAgree.2⟩⟩
      · exact ⟨Int.le_refl 0, fun hPos => absurd hPos (Int.lt_irrefl 0)⟩
    · rename_i hNot
      exact ⟨hSize ▸ Int.natCast_nonneg _, fun hPos => absurd hPos hNot⟩

/-- Bytes with equal hash codes are equal, among those that are compared. -/
def NoCollision : Prop :=
  ∀ ref ∈ x.refs, ∀ l, ref.entry = some l →
    x.md5 (x.compared l.contents.length l.contents) =
      x.md5 (x.compared l.contents.length (x.shared ref.fileName).contents) →
    x.compared l.contents.length l.contents = x.compared l.contents.length (x.shared ref.fileName).contents

/-- The file is opened at its end; it is empty, or as it was when it was hashed. -/
def AsHashed (o : Delivery.Opened) : Prop :=
  o.file.position = o.file.contents.length ∧ (o.startByte = 0 → o.file.contents = []) ∧
    (0 < o.startByte → ∀ ref ∈ x.refs, ref.fileName = o.fileName → ∀ l, ref.entry = some l →
      o.file.contents = l.contents)

end Exchange

/-- While the connection lasts, the offsets are those of the exchange and the file has not changed since it was hashed,
a file that has as many bytes as the header said is the other peer's file if and only if what was there and was not
compared is its own. -/
theorem resumes (x : Exchange) (localSessionID : List UInt8) (r : DownloadSession) (steps : List Step)
    (hOk : AllSteps (StepOk (fun name => (x.shared name).contents) x.Asked) Transfer.step steps
    (start localSessionID r))
    (hNoCollision : x.NoCollision) (file : OpenFile)
    (hConnected : (steps.foldl Transfer.step (start localSessionID r)).receiver.isConnected = true)
    (hFile : (steps.foldl Transfer.step (start localSessionID r)).receiver.currentFile = some file)
    (hDone : (steps.foldl Transfer.step (start localSessionID r)).receiver.currentFileBytesDone =
      (steps.foldl Transfer.step (start localSessionID r)).receiver.currentFileSize)
    (hHashed : ∀ o, (steps.foldl Transfer.step (start localSessionID r)).opened = some o → x.AsHashed o) :
    ∃ o, (steps.foldl Transfer.step (start localSessionID r)).opened = some o ∧
      (file.contents = (x.shared o.fileName).contents ↔
        x.notCompared o.startByte.toNat o.file.contents =
          x.notCompared o.startByte.toNat (x.shared o.fileName).contents) := by
  obtain ⟨o, hOpened, hAsked, rfl⟩ :=
    delivered (fun _ _ h => (x.asked_pos h).1) localSessionID r hOk hConnected hFile hDone
  obtain ⟨hEnd, hEmpty, hPart⟩ := hHashed o hOpened
  refine ⟨o, hOpened, ?_⟩
  rw [write_contents hEnd, append_drop_eq_iff]
  obtain ⟨hNonneg, hPos⟩ := x.asked_pos hAsked
  by_cases hStart : 0 < o.startByte
  · obtain ⟨ref, hMem, hName, l, hLocal, hOffset, hDigest⟩ := hPos hStart
    have hThere := hPart hStart ref hMem hName l hLocal
    have hSame := hNoCollision ref hMem l hLocal (hName ▸ hDigest)
    have hLength : o.startByte.toNat = l.contents.length := by omega
    have hWhole := x.take_eq l.contents.length l.contents
    rw [List.take_length, hSame, hName] at hWhole
    rw [hThere, hLength, x.take_eq]
    constructor
    · intro hFirst
      exact List.append_cancel_right (hWhole.symm.trans hFirst)
    · intro hRest
      rw [← hRest]
      exact hWhole
  · have hZero : o.startByte = 0 := by omega
    unfold Exchange.notCompared
    rw [hEmpty hZero, hZero, Int.toNat_zero, Nat.zero_sub]
    exact iff_of_true rfl rfl

/-- The first of three bytes is there. -/
def oneOfThree : Exchange where
  md5 := md5OfA
  sends := wholeReads
  receives := wholeReads
  bytesFromBack := 0
  digest := []
  refs := [⟨[102], [], some ⟨[7], 0, none, by decide⟩⟩]
  shared _ := ⟨[7, 8, 9], 0, none, by decide⟩
  refs_unchanged ref hRef file hFile := by
    rw [List.mem_singleton.mp hRef] at hFile
    exact .uncached _ (congrArg File.cached (Option.some.inj hFile).symm)
  shared_unchanged _ := .uncached _ rfl

theorem resumes_oneOfThree :
    ∃ o, (Delivery.resumed.foldl Transfer.step (start [49] Delivery.downloader)).opened = some o ∧
    (Delivery.wholeFile.contents = (oneOfThree.shared o.fileName).contents ↔
      oneOfThree.notCompared o.startByte.toNat o.file.contents =
        oneOfThree.notCompared o.startByte.toNat (oneOfThree.shared o.fileName).contents) := by
  refine resumes oneOfThree [49] Delivery.downloader Delivery.resumed ?_ ?_ Delivery.wholeFile rfl rfl rfl ?_
  · refine ⟨trivial, ?_, trivial, ?_, ?_, trivial, trivial, trivial⟩
    · intro file hFile
      rw [List.mem_singleton.mp hFile]
      exact ⟨0, _, rfl, rfl, by decide⟩
    · intro next _ size hSize
      exact (Option.some.inj hSize).symm
    · intro data hData
      obtain rfl := Option.some.inj hData
      exact ⟨List.prefix_rfl, fun hNil => absurd hNil (List.cons_ne_nil _ _)⟩
  · intro ref hRef l hLocal _
    rw [List.mem_singleton.mp hRef] at hLocal ⊢
    obtain rfl := Option.some.inj hLocal
    decide
  · intro o hOpened
    obtain rfl := Option.some.inj hOpened
    refine ⟨rfl, fun hZero => absurd hZero (by decide), fun _ ref hRef _ l hLocal => ?_⟩
    rw [List.mem_singleton.mp hRef] at hLocal
    obtain rfl := Option.some.inj hLocal
    rfl

end BeShare.Client.Resuming
