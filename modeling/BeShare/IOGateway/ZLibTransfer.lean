import BeShare.IOGateway.ZLibDataIO
import BeShare.Lib.Runs
import Mathlib.Tactic.Common

/-!
What a `ZLibDataIO` writes another one reads: with nothing copied over input that zlib has not taken yet, the reader
gets a prefix of what the writer accepts, and after a whole flush all of it.
-/

namespace BeShare.Muscle.ZLibDataIO

open BeShare.Lib

variable {z : Streams} {level : Nat}

/-! ### The buffers -/

theorem window_nil (buf : List UInt8) (nextIn : Nat) : window buf nextIn 0 = [] :=
  List.take_zero

theorem length_window {buf : List UInt8} {nextIn availIn : Nat} (h : nextIn + availIn ≤ buf.length) :
    (window buf nextIn availIn).length = availIn := by
  unfold window
  rw [List.length_take, List.length_drop]
  omega

/-- zlib takes a prefix of its input. -/
theorem window_taken (buf : List UInt8) (nextIn availIn taken : Nat) :
    (window buf nextIn availIn).take taken ++ window buf (nextIn + taken) (availIn - taken) =
      window buf nextIn availIn := by
  unfold window
  rw [← List.drop_drop, ← List.drop_take]
  exact List.take_append_drop ..

theorem length_copyIn {buf : List UInt8} {start : Nat} {data : List UInt8} (h : start + data.length ≤ buf.length) :
    (copyIn buf start data).length = buf.length := by
  unfold copyIn
  rw [List.length_append, List.length_append, List.length_take, List.length_drop]
  omega

/-- Where nothing waits, what is copied to the start of the buffer is the input. -/
theorem window_copyIn (buf data : List UInt8) : window (copyIn buf 0 data) 0 data.length = data := by
  unfold window copyIn
  rw [List.take_zero, List.nil_append, List.drop_zero]
  exact List.take_left

theorem copyIn_nil (buf : List UInt8) (start : Nat) : copyIn buf start [] = buf := by
  unfold copyIn
  rw [List.append_nil, List.length_nil, Nat.add_zero, List.take_append_drop]

/-! ### The output that waits -/

section

variable {made passed waiting output : List UInt8} {start : Nat}

/-- What waits behind `start` is passed on in order: all of it, or a part and the rest waits on. -/
theorem passed_on (hMade : made = passed ++ waiting.drop start) (hStart : start < waiting.length) (n : Nat) :
    (start + ((waiting.drop start).take n).length = waiting.length → made = passed ++ (waiting.drop start).take n) ∧
      (start + ((waiting.drop start).take n).length ≠ waiting.length →
        made = passed ++ (waiting.drop start).take n ++ waiting.drop (start + ((waiting.drop start).take n).length) ∧
          start + ((waiting.drop start).take n).length < waiting.length) := by
  have hLength : (waiting.drop start).length = waiting.length - start := List.length_drop
  have hSplit : made = passed ++ (waiting.drop start).take n ++ (waiting.drop start).drop n := by
    rw [List.append_assoc, List.take_append_drop]
    exact hMade
  constructor
  · intro hAll
    have hNone : (waiting.drop start).drop n = [] := by
      refine List.drop_eq_nil_of_le ?_
      rw [List.length_take] at hAll
      omega
    rwa [hNone, List.append_nil] at hSplit
  · intro hRest
    have hShort : n < (waiting.drop start).length := by
      rw [List.length_take] at hRest
      omega
    rw [List.length_take_of_le (Nat.le_of_lt hShort), ← List.drop_drop]
    exact ⟨hSplit, by omega⟩

variable (hStart : start < waiting.length ∨ waiting = [] ∧ start = 0)
include hStart

theorem start_le : start ≤ waiting.length := by
  rcases hStart with hBefore | ⟨-, hZero⟩
  · exact Nat.le_of_lt hBefore
  · exact hZero ▸ Nat.zero_le _

theorem start_append : start < (waiting ++ output).length ∨ waiting ++ output = [] ∧ start = 0 := by
  rw [List.length_append]
  rcases hStart with hBefore | ⟨rfl, hZero⟩
  · exact .inl (Nat.lt_add_right _ hBefore)
  · rcases Nat.eq_zero_or_pos output.length with hNone | hSome
    · exact .inr ⟨List.length_eq_zero_iff.mp hNone, hZero⟩
    · exact .inl (by omega)

end

/-! ### The writer -/

/-- The deflater has taken what was accepted but its input, and what it has put out is sent or waits. -/
structure WriterInv (level : Nat) (w : Writer z) (raw out accepted sent : List UInt8) : Prop where
  deflates : z.Deflates level w.deflater raw out
  accepted : accepted = raw ++ w.window
  out : out = sent ++ w.pending
  buf : w.toDeflateBuf.length = bufSize
  inside : w.nextIn + w.availIn ≤ bufSize
  deflated : w.deflated.length ≤ bufSize
  sendToSlave : w.sendToSlave < w.deflated.length ∨ w.deflated = [] ∧ w.sendToSlave = 0

def FlushedInv (level : Nat) (w : Writer z) (raw out : List UInt8) : Prop :=
  w.flushed = true → w.availIn = 0 ∧ z.Flushed level raw out

variable {w w' : Writer z} {raw out accepted sent : List UInt8}

theorem writerInv_init (z : Streams) (level : Nat) : WriterInv level (Writer.init z level) [] [] [] [] where
  deflates := .init
  accepted := (window_nil (List.replicate bufSize 0) 0).symm
  out := rfl
  buf := List.length_replicate
  inside := Nat.zero_le _
  deflated := Nat.zero_le _
  sendToSlave := .inr ⟨rfl, rfl⟩

theorem WriterInv.writeSendToSlave (h : WriterInv level w raw out accepted sent) (takes : Nat) :
    ∃ w' more, w.writeSendToSlave (some takes) = some (w', more) ∧ WriterInv level w' raw out accepted (sent ++ more) ∧
      w'.flushed = w.flushed ∧ w'.availIn = w.availIn := by
  unfold Writer.writeSendToSlave
  by_cases hPending : w.sendToSlave < w.deflated.length
  · rw [if_pos hPending, Option.map_some]
    refine ⟨_, _, rfl, ?_⟩
    obtain ⟨hAll, hRest⟩ := passed_on h.out hPending takes
    by_cases hSent : w.sendToSlave + (w.pending.take takes).length = w.deflated.length
    · rw [if_pos hSent]
      refine ⟨⟨h.deflates, h.accepted, ?_, h.buf, h.inside, Nat.zero_le _, .inr ⟨rfl, rfl⟩⟩, rfl, rfl⟩
      exact (hAll hSent).trans (List.append_nil _).symm
    · rw [if_neg hSent]
      exact ⟨⟨h.deflates, h.accepted, (hRest hSent).1, h.buf, h.inside, h.deflated, .inl (hRest hSent).2⟩, rfl, rfl⟩
  · rw [if_neg hPending]
    exact ⟨w, [], rfl, by rw [List.append_nil]; exact h, rfl, rfl⟩

theorem WriterInv.takeIn (h : WriterInv level w raw out accepted sent) {buffer : List UInt8}
    (hFits : w.availIn = 0 ∨ buffer = []) :
    WriterInv level (w.takeIn buffer).1 raw out (accepted ++ buffer.take (w.takeIn buffer).2) sent := by
  unfold Writer.takeIn
  rcases hFits with hNone | rfl
  · dsimp only
    rw [if_pos hNone, hNone, Nat.zero_add]
    have hLength : 0 + (buffer.take (bufSize - 0)).length ≤ bufSize := by
      rw [List.length_take]
      omega
    refine ⟨h.deflates, ?_, h.out, (length_copyIn (h.buf ▸ hLength)).trans h.buf, hLength, h.deflated, h.sendToSlave⟩
    have hBefore : accepted = raw := by
      rw [h.accepted, Writer.window, hNone, window_nil, List.append_nil]
    rw [hBefore, Writer.window, window_copyIn]
    exact congrArg (raw ++ ·) (List.prefix_iff_eq_take.mp (List.take_prefix ..)).symm
  · dsimp only
    rw [List.take_nil, copyIn_nil, List.length_nil, Nat.add_zero, List.take_nil, List.append_nil]
    by_cases hNone : w.availIn = 0
    · rw [if_pos hNone]
      refine ⟨h.deflates, ?_, h.out, h.buf, ?_, h.deflated, h.sendToSlave⟩
      · rw [h.accepted, Writer.window, Writer.window, hNone, window_nil, window_nil]
      · show 0 + w.availIn ≤ _
        omega
    · rw [if_neg hNone]
      exact ⟨h.deflates, h.accepted, h.out, h.buf, h.inside, h.deflated, h.sendToSlave⟩

theorem WriterInv.callDeflate (hZ : z.Documented level) (h : WriterInv level w raw out accepted sent)
    (flushAtEnd : Bool) :
    (w.callDeflate flushAtEnd).2 = true ∧ ∃ raw' out',
      WriterInv level (w.callDeflate flushAtEnd).1 raw' out' accepted sent ∧
        FlushedInv level (w.callDeflate flushAtEnd).1 raw' out' := by
  unfold Writer.callDeflate
  dsimp only
  have hOk := hZ.deflate_ok w.window (bufSize - w.deflated.length) (flushAtEnd && w.availIn == 0) h.deflates
  have hTaken := hZ.deflate_taken w.window (bufSize - w.deflated.length) (flushAtEnd && w.availIn == 0) h.deflates
  have hCall := h.deflates.call w.window (bufSize - w.deflated.length) (flushAtEnd && w.availIn == 0)
  have hWindow : w.window.length = w.availIn := length_window (h.buf ▸ h.inside)
  have hInside := h.inside
  have hDeflated := h.deflated
  refine ⟨hOk, _, _, ⟨hCall, ?_, ?_, h.buf, ?_, ?_, ?_⟩, fun hFlushed => ?_⟩
  · rw [h.accepted, List.append_assoc]
    exact congrArg (raw ++ ·) (window_taken ..).symm
  · rw [h.out, List.append_assoc, Writer.pending, Writer.pending,
      List.drop_append_of_le_length (start_le h.sendToSlave)]
  · show w.nextIn + _ + (w.availIn - _) ≤ _
    omega
  · show (w.deflated ++ _).length ≤ _
    rw [List.length_append]
    omega
  · exact start_append h.sendToSlave
  · obtain ⟨hFlush, hRoom⟩ := Bool.and_eq_true_iff.mp hFlushed
    have hNone : w.availIn = 0 := eq_of_beq (Bool.and_eq_true_iff.mp hFlush).2
    have hEmpty : w.window = [] := List.length_eq_zero_iff.mp (hWindow.trans hNone)
    refine ⟨?_, w.deflater, out, bufSize - w.deflated.length, ?_, ?_, ?_⟩
    · show w.availIn - _ = 0
      omega
    · rw [hEmpty, List.take_nil, List.append_nil]
      exact h.deflates
    · rw [hFlush, hEmpty]
    · have hLess := of_decide_eq_true hRoom
      rw [hFlush, hEmpty] at hLess
      exact hLess

/-- Nothing is copied over input that the deflater has not taken. -/
def Writer.Fits (w : Writer z) (buffer : List UInt8) (takes : Nat) : Prop :=
  ∀ result ∈ w.writeSendToSlave (some takes), result.1.sendToSlave = 0 → result.1.availIn = 0 ∨ buffer = []

theorem WriterInv.writeAux (hZ : z.Documented level) (h : WriterInv level w raw out accepted sent)
    (hFlushed : FlushedInv level w raw out) {buffer : List UInt8} (flushAtEnd : Bool) {takes : Nat} (takes' : Nat)
    (hFits : w.Fits buffer takes) :
    ∃ w' more result, w.writeAux buffer flushAtEnd (some takes) (some takes') = (w', more, result) ∧ ∃ raw' out',
      WriterInv level w' raw' out' (accepted ++ buffer.take result.toNat) (sent ++ more) ∧
        FlushedInv level w' raw' out' := by
  obtain ⟨w₁, more₁, hSend, hInv, hSameFlushed, hSameAvail⟩ := h.writeSendToSlave takes
  unfold Writer.writeAux
  rw [hSend]
  dsimp only
  by_cases hAll : w₁.sendToSlave = 0
  · rw [if_pos hAll]
    have hTaken := hInv.takeIn (hFits _ hSend hAll)
    obtain ⟨hOk, raw', out', hCall, hCallFlushed⟩ := hTaken.callDeflate hZ flushAtEnd
    rw [if_pos hOk]
    obtain ⟨w₂, more₂, hSend', hInv', hSameFlushed', hSameAvail'⟩ := hCall.writeSendToSlave takes'
    rw [hSend']
    refine ⟨_, _, _, rfl, raw', out', ?_, fun hFlush => ?_⟩
    · rw [Int.toNat_natCast, ← List.append_assoc]
      exact hInv'
    · rw [hSameAvail']
      exact hCallFlushed (hSameFlushed' ▸ hFlush)
  · rw [if_neg hAll]
    refine ⟨_, _, _, rfl, raw, out, ?_, fun hFlush => ?_⟩
    · rw [Int.toNat_zero, List.take_zero, List.append_nil]
      exact hInv
    · rw [hSameAvail]
      exact hFlushed (hSameFlushed ▸ hFlush)

/-! ### The reader -/

/-- The inflater has made what the user has and what waits for him. -/
structure ReaderInv (r : Reader z) (inp made obtained : List UInt8) : Prop where
  inflates : z.Inflates r.inflater inp made
  made : made = obtained ++ r.pending
  buf : r.toInflateBuf.length = bufSize
  inside : r.nextIn + r.availIn ≤ bufSize
  inflated : r.inflated.length ≤ bufSize
  sendToUser : r.sendToUser < r.inflated.length ∨ r.inflated = [] ∧ r.sendToUser = 0
  inflateOkay : r.inflateOkay = true
  inputStreamOkay : r.inputStreamOkay = true

variable {r : Reader z} {inp made obtained slave : List UInt8} {size gives : Nat}

theorem readerInv_init (z : Streams) : ReaderInv (Reader.init z) [] [] [] where
  inflates := .init
  made := rfl
  buf := List.length_replicate
  inside := Nat.zero_le _
  inflated := Nat.zero_le _
  sendToUser := .inr ⟨rfl, rfl⟩
  inflateOkay := rfl
  inputStreamOkay := rfl

theorem ReaderInv.readCopyToUser (h : ReaderInv r inp made obtained) (size : Nat) :
    ReaderInv (r.readCopyToUser size).1 inp made (obtained ++ (r.readCopyToUser size).2) ∧
      (r.readCopyToUser size).1.window = r.window := by
  unfold Reader.readCopyToUser
  by_cases hPending : r.sendToUser < r.inflated.length
  · rw [if_pos hPending]
    obtain ⟨hAll, hRest⟩ := passed_on h.made hPending size
    dsimp only
    by_cases hCopied : r.sendToUser + (r.pending.take size).length = r.inflated.length
    · rw [if_pos hCopied]
      refine ⟨⟨h.inflates, ?_, h.buf, h.inside, Nat.zero_le _, .inr ⟨rfl, rfl⟩, h.inflateOkay, h.inputStreamOkay⟩, rfl⟩
      exact (hAll hCopied).trans (List.append_nil _).symm
    · rw [if_neg hCopied]
      exact ⟨⟨h.inflates, (hRest hCopied).1, h.buf, h.inside, h.inflated, .inl (hRest hCopied).2, h.inflateOkay,
        h.inputStreamOkay⟩, rfl⟩
  · rw [if_neg hPending]
    refine ⟨?_, rfl⟩
    rw [List.append_nil]
    exact h

theorem ReaderInv.readInflate (hZ : z.Documented level) (h : ReaderInv r inp made obtained) {d : z.Deflater}
    (hDeflates : z.Deflates level d raw out) (hPrefix : inp ++ r.window <+: out) (size : Nat) :
    ∃ inp' made', ReaderInv (r.readInflate size).1 inp' made' (obtained ++ (r.readInflate size).2) ∧
      inp' ++ (r.readInflate size).1.window = inp ++ r.window := by
  unfold Reader.readInflate
  rw [if_pos h.inflateOkay]
  dsimp only
  have hOk := hZ.inflate_ok r.window (bufSize - r.inflated.length) hDeflates h.inflates hPrefix
  have hTaken := hZ.inflate_taken r.window (bufSize - r.inflated.length) h.inflates
  have hCall := h.inflates.call r.window (bufSize - r.inflated.length)
  have hWindow : r.window.length = r.availIn := length_window (h.buf ▸ h.inside)
  have hInside := h.inside
  have hInflated := h.inflated
  generalize z.inflate r.inflater r.window (bufSize - r.inflated.length) = result at hOk hTaken hCall ⊢
  have hInv : ReaderInv { r with
      nextIn := r.nextIn + result.taken
      availIn := r.availIn - result.taken
      inflater := result.stream
      inflated := r.inflated ++ result.output
      inflateOkay := result.ok } (inp ++ r.window.take result.taken) (made ++ result.output) obtained := by
    refine ⟨hCall, ?_, h.buf, ?_, ?_, ?_, hOk, h.inputStreamOkay⟩
    · rw [h.made, List.append_assoc, Reader.pending, Reader.pending,
        List.drop_append_of_le_length (start_le h.sendToUser)]
    · show r.nextIn + _ + (r.availIn - _) ≤ _
      omega
    · show (r.inflated ++ _).length ≤ _
      rw [List.length_append]
      omega
    · exact start_append h.sendToUser
  obtain ⟨hCopied, hSameWindow⟩ := hInv.readCopyToUser size
  refine ⟨_, _, hCopied, ?_⟩
  rw [hSameWindow, List.append_assoc]
  exact congrArg (inp ++ ·) (window_taken ..)

theorem ReaderInv.readOwn (hZ : z.Documented level) (h : ReaderInv r inp made obtained) {d : z.Deflater}
    (hDeflates : z.Deflates level d raw out) (hPrefix : inp ++ r.window <+: out) (size : Nat) :
    ∃ inp' made', ReaderInv (r.readOwn size).1 inp' made' (obtained ++ (r.readOwn size).2) ∧
      inp' ++ (r.readOwn size).1.window = inp ++ r.window := by
  obtain ⟨hCopied, hSameWindow⟩ := h.readCopyToUser size
  rw [← hSameWindow] at hPrefix ⊢
  unfold Reader.readOwn
  dsimp only
  rw [← List.append_assoc]
  exact hCopied.readInflate hZ hDeflates hPrefix _

/-- Nothing is copied over input that the inflater has not taken. -/
def Reader.Fits (r : Reader z) (size : Nat) (slave : List UInt8) (gives : Nat) : Prop :=
  (r.readOwn size).1.availIn = 0 ∨ gives = 0 ∨ slave = []

theorem ReaderInv.readSlave (h : ReaderInv r inp made obtained) (hFits : r.availIn = 0 ∨ gives = 0 ∨ slave = []) :
    ∃ r' slave', r.readSlave slave (some gives) = (r', slave', true) ∧ ReaderInv r' inp made obtained ∧
      r'.window ++ slave' = r.window ++ slave := by
  unfold Reader.readSlave
  dsimp only
  refine ⟨_, _, rfl, ?_⟩
  have hGiven (hNone : r.availIn ≠ 0) :
      slave.take (min gives (bufSize - if r.availIn = 0 then 0 else r.nextIn)) = [] := by
    rcases hFits.resolve_left hNone with rfl | rfl
    · rw [Nat.zero_min, List.take_zero]
    · exact List.take_nil
  by_cases hNone : r.availIn = 0
  · rw [if_pos hNone, hNone, Nat.zero_add]
    have hLength : 0 + (slave.take (min gives (bufSize - 0))).length ≤ bufSize := by
      rw [List.length_take]
      omega
    refine ⟨⟨h.inflates, h.made, (length_copyIn (h.buf ▸ hLength)).trans h.buf, hLength, h.inflated, h.sendToUser,
      h.inflateOkay, h.inputStreamOkay⟩, ?_⟩
    rw [Reader.window, Reader.window, window_copyIn, hNone, window_nil, List.nil_append]
    exact List.prefix_iff_eq_append.mp (List.take_prefix ..)
  · rw [hGiven hNone, if_neg hNone, copyIn_nil]
    exact ⟨⟨h.inflates, h.made, h.buf, h.inside, h.inflated, h.sendToUser, h.inflateOkay, h.inputStreamOkay⟩, rfl⟩

/-- What one `Read` does: the bytes go into the user's buffer, and what is on its way stays in order. -/
structure Reads (r : Reader z) (size : Nat) (slave : List UInt8) (gives : Nat) (inp obtained : List UInt8)
    (r' : Reader z) (slave' bytes : List UInt8) : Prop where
  own : ∃ more, bytes = (r.readOwn size).2 ++ more
  given : r'.inputStreamOkay = true
  carried : ∃ inp' made', ReaderInv r' inp' made' (obtained ++ bytes) ∧
    inp' ++ r'.window ++ slave' = inp ++ r.window ++ slave
  slave' : slave' = ((r.readOwn size).1.readSlave slave (some gives)).2.1

theorem ReaderInv.read (hZ : z.Documented level) (h : ReaderInv r inp made obtained) {d : z.Deflater}
    (hDeflates : z.Deflates level d raw out) (hPrefix : inp ++ r.window ++ slave <+: out)
    (hFits : r.Fits size slave gives) :
    ∃ r' slave' bytes result, r.read size slave (some gives) = (r', slave', bytes, result) ∧
      bytes.take result.toNat = bytes ∧ Reads r size slave gives inp obtained r' slave' bytes := by
  obtain ⟨inp₁, made₁, hOwn, hSame⟩ := h.readOwn hZ hDeflates ((List.prefix_append ..).trans hPrefix) size
  obtain ⟨r₂, slave₂, hSlave, hFilled, hMoved⟩ := hOwn.readSlave hFits
  have hPrefix₂ : inp₁ ++ r₂.window ++ slave₂ <+: out := by
    rw [List.append_assoc, hMoved, ← List.append_assoc, hSame]
    exact hPrefix
  obtain ⟨inp₃, made₃, hLast, hSame₃⟩ := hFilled.readInflate hZ hDeflates ((List.prefix_append ..).trans hPrefix₂)
    (size - (r.readOwn size).2.length)
  unfold Reader.read
  dsimp only
  rw [if_pos hOwn.inputStreamOkay, hSlave]
  dsimp only
  rw [if_pos rfl]
  dsimp only
  refine ⟨_, _, _, _, rfl, ?_, ⟨_, rfl⟩, hLast.inputStreamOkay, ⟨inp₃, made₃, ?_, ?_⟩, ?_⟩
  · by_cases hNone : (r.readOwn size).2 ++ (r₂.readInflate (size - (r.readOwn size).2.length)).2 = []
    · rw [hNone, List.take_nil]
    · rw [if_pos hNone, Int.toNat_natCast, List.take_length]
  · rw [← List.append_assoc]
    exact hLast
  · rw [hSame₃, List.append_assoc, hMoved, ← List.append_assoc, hSame]
  · rw [hSlave]

/-! ### The stream -/

variable {s : Link z}

structure LinkInv (level : Nat) (s : Link z) (raw out inp made : List UInt8) : Prop where
  writer : WriterInv level s.writer raw out s.accepted (inp ++ s.reader.window ++ s.slave)
  flushed : FlushedInv level s.writer raw out
  reader : ReaderInv s.reader inp made s.obtained

def Good (level : Nat) (s : Link z) : Prop :=
  ∃ raw out inp made, LinkInv level s raw out inp made

/-- The step copies nothing over input that zlib has not taken yet. -/
def Allowed (s : Link z) : Action → Prop
  | .write buffer takes _ => s.writer.Fits buffer takes
  | .flushOutput _ _ _ => True
  | .read size gives => s.reader.Fits size s.slave gives

theorem good_init (z : Streams) (level : Nat) : Good level (Link.init z level) :=
  ⟨[], [], [], [], writerInv_init z level, fun h => (nomatch h), readerInv_init z⟩

theorem Good.writeAux (hZ : z.Documented level) (h : Good level s) {buffer : List UInt8} (flushAtEnd : Bool)
    {takes : Nat} (takes' : Nat) (hFits : s.writer.Fits buffer takes) :
    Good level (s.writeAux buffer flushAtEnd takes takes') := by
  obtain ⟨raw, out, inp, made, hInv⟩ := h
  obtain ⟨w, more, result, hWrite, raw', out', hWriter, hFlushed⟩ :=
    hInv.writer.writeAux hZ hInv.flushed flushAtEnd takes' hFits
  unfold Link.writeAux
  rw [hWrite]
  refine ⟨raw', out', inp, made, ?_, hFlushed, hInv.reader⟩
  rw [← List.append_assoc]
  exact hWriter

theorem fits_nil (w : Writer z) (takes : Nat) : w.Fits [] takes :=
  fun _ _ _ => .inr rfl

theorem LinkInv.read (hZ : z.Documented level) (h : LinkInv level s raw out inp made)
    (hFits : s.reader.Fits size s.slave gives) :
    ∃ bytes,
      Reads s.reader size s.slave gives inp s.obtained (s.read size gives).reader (s.read size gives).slave bytes ∧
      (s.read size gives).obtained = s.obtained ++ bytes := by
  have hPrefix : inp ++ s.reader.window ++ s.slave <+: out := by
    rw [h.writer.out]
    exact List.prefix_append ..
  obtain ⟨r, slave, bytes, result, hRead, hBytes, hReads⟩ := h.reader.read hZ h.writer.deflates hPrefix hFits
  unfold Link.read
  rw [hRead]
  exact ⟨bytes, hReads, congrArg (s.obtained ++ ·) hBytes⟩

theorem Good.read (hZ : z.Documented level) (h : Good level s) (hFits : s.reader.Fits size s.slave gives) :
    Good level (s.read size gives) := by
  obtain ⟨raw, out, inp, made, hInv⟩ := h
  obtain ⟨bytes, hReads, hObtained⟩ := hInv.read hZ hFits
  obtain ⟨inp', made', hReader, hCarried⟩ := hReads.carried
  refine ⟨raw, out, inp', made', ?_, hInv.flushed, hObtained ▸ hReader⟩
  rw [hCarried]
  exact hInv.writer

theorem Good.step (hZ : z.Documented level) (h : Good level s) {action : Action} (hAllowed : Allowed s action) :
    Good level (s.step action) := by
  cases action with
  | write buffer takes takes' => exact h.writeAux hZ false takes' hAllowed
  | flushOutput first second third =>
    exact ((h.writeAux hZ true _ (fits_nil _ _)).writeAux hZ true _ (fits_nil _ _)).writeAux hZ true _ (fits_nil _ _)
  | read size gives => exact h.read hZ hAllowed

theorem Good.inOrder (hZ : z.Documented level) (h : Good level s) : s.obtained <+: s.accepted := by
  obtain ⟨raw, out, inp, made, hInv⟩ := h
  have hInp : inp <+: out := by
    rw [hInv.writer.out, List.append_assoc, List.append_assoc]
    exact List.prefix_append ..
  have hMade := hZ.inverse hInv.writer.deflates hInv.reader.inflates hInp
  rw [hInv.reader.made] at hMade
  rw [hInv.writer.accepted]
  exact ((List.prefix_append ..).trans hMade).trans (List.prefix_append ..)

/-! ### All of it -/

/-- The user reads, and the slave gives bytes whenever the inflater has no more input, and then only. -/
def Eager (s : Link z) (call : Nat × Nat) : Prop :=
  0 < call.1 ∧ (s.slave = [] ∨ ((s.reader.readOwn call.1).1.availIn = 0 ↔ 0 < call.2))

theorem Eager.fits {call : Nat × Nat} (h : Eager s call) : s.reader.Fits call.1 s.slave call.2 := by
  rcases h.2 with hNone | hGives
  · exact .inr (.inr hNone)
  · rcases Nat.eq_zero_or_pos call.2 with hZero | hPos
    · exact .inr (.inl hZero)
    · exact .inl (hGives.mpr hPos)

/-- The user who gets nothing has all that is inflated. -/
theorem inflated_of_nothing (h : r.sendToUser < r.inflated.length ∨ r.inflated = [] ∧ r.sendToUser = 0)
    (hSize : 0 < size) (hNothing : (r.readCopyToUser size).2 = []) :
    r.inflated = [] ∧ r.readCopyToUser size = (r, []) := by
  unfold Reader.readCopyToUser at hNothing ⊢
  rcases h with hPending | ⟨hNil, hZero⟩
  · rw [if_pos hPending] at hNothing
    have hLength := congrArg List.length hNothing
    rw [List.length_take, Reader.pending, List.length_drop, List.length_nil] at hLength
    omega
  · refine ⟨hNil, if_neg ?_⟩
    rw [hNil, hZero]
    exact Nat.lt_irrefl 0

theorem readOwn_eq (r : Reader z) (size : Nat) : r.readOwn size =
    (((r.readCopyToUser size).1.readInflate (size - (r.readCopyToUser size).2.length)).1,
      (r.readCopyToUser size).2 ++
        ((r.readCopyToUser size).1.readInflate (size - (r.readCopyToUser size).2.length)).2) :=
  rfl

/-- If `Read` gives nothing before it reads the slave, the inflater has put nothing out though it had room. -/
theorem ReaderInv.nothing (h : ReaderInv r inp made obtained) (hSize : 0 < size) (hNothing : (r.readOwn size).2 = []) :
    made = obtained ∧ (z.inflate r.inflater r.window bufSize).output = [] ∧
      (r.readOwn size).1.availIn = r.availIn - (z.inflate r.inflater r.window bufSize).taken := by
  rw [readOwn_eq] at hNothing ⊢
  obtain ⟨hCopy, hInflate⟩ := List.append_eq_nil_iff.mp hNothing
  obtain ⟨hNil, hSame⟩ := inflated_of_nothing h.sendToUser hSize hCopy
  have hMade : made = obtained := by
    rw [h.made, Reader.pending, hNil, List.drop_nil, List.append_nil]
  have hZero : r.sendToUser = 0 := by
    rcases h.sendToUser with hPending | ⟨-, hZero⟩
    · rw [hNil] at hPending
      exact absurd hPending (Nat.not_lt_zero _)
    · exact hZero
  rw [hSame] at hInflate ⊢
  dsimp only at hInflate ⊢
  unfold Reader.readInflate at hInflate ⊢
  rw [if_pos h.inflateOkay, hNil, List.length_nil] at hInflate ⊢
  dsimp only at hInflate ⊢
  rw [Nat.sub_zero, Nat.sub_zero, List.nil_append] at hInflate ⊢
  generalize z.inflate r.inflater r.window bufSize = result at hInflate ⊢
  obtain ⟨hOutput, hSame'⟩ := inflated_of_nothing
    (by
      dsimp only
      rw [hZero]
      exact (Nat.eq_zero_or_pos result.output.length).symm.imp_right fun hNone =>
        ⟨List.length_eq_zero_iff.mp hNone, rfl⟩) hSize hInflate
  rw [hSame']
  exact ⟨hMade, hOutput, rfl⟩

/-- After a whole flush a `Read` brings bytes on, or the user has all. -/
theorem LinkInv.progress (hZ : z.Documented level) (h : LinkInv level s raw out inp made)
    (hFlushed : s.writer.flushed = true) (hSent : s.writer.deflated = []) {call : Nat × Nat} (hEager : Eager s call) :
    s.obtained = s.accepted ∨ (s.read call.1 call.2).slave.length + s.obtained.length <
      s.slave.length + (s.read call.1 call.2).obtained.length := by
  obtain ⟨hAvail, hWhole⟩ := h.flushed hFlushed
  have hAccepted : s.accepted = raw := by
    rw [h.writer.accepted, Writer.window, hAvail, window_nil, List.append_nil]
  have hOut : inp ++ s.reader.window ++ s.slave = out := by
    rw [h.writer.out, Writer.pending, hSent, List.drop_nil, List.append_nil]
  obtain ⟨bytes, hReads, hObtained⟩ := h.read hZ hEager.fits
  obtain ⟨more, hBytes⟩ := hReads.own
  have hSlave := hReads.slave'
  unfold Reader.readSlave at hSlave
  dsimp only at hSlave
  rw [hObtained, List.length_append, hSlave, List.length_drop, List.length_take, hBytes, List.length_append]
  rcases hOwn : (s.reader.readOwn call.1).2 with _ | ⟨first, rest⟩
  · -- nothing was left for the user, so the inflater took all its input
    obtain ⟨hMade, hOutput, hLeft⟩ := h.reader.nothing hEager.1 hOwn
    have hRoom : (z.inflate s.reader.inflater s.reader.window bufSize).output.length < bufSize := by
      rw [hOutput]
      decide
    have hTaken := hZ.inflate_all s.reader.window bufSize h.writer.deflates h.reader.inflates
      (hOut ▸ List.prefix_append ..) hRoom
    rw [Reader.window, length_window (h.reader.buf ▸ h.reader.inside)] at hTaken
    rw [Reader.window, hTaken, Nat.sub_self] at hLeft
    rcases hNone : s.slave with _ | ⟨byte, bytes⟩
    · rw [hNone, List.append_nil] at hOut
      have hAll := hZ.complete s.reader.window bufSize hWhole h.reader.inflates hOut hRoom
      rw [hOutput, List.append_nil, hMade] at hAll
      exact .inl (hAll.trans hAccepted.symm)
    · refine .inr ?_
      have hGives : 0 < call.2 := (hEager.2.resolve_left (hNone ▸ List.cons_ne_nil _ _)).mp hLeft
      have hBuf : 0 < bufSize := by decide
      rw [if_pos hLeft, List.length_cons]
      omega
  · refine .inr ?_
    rw [List.length_cons]
    omega

theorem read_kept (s : Link z) (call : Nat × Nat) :
    (s.read call.1 call.2).writer = s.writer ∧ (s.read call.1 call.2).accepted = s.accepted :=
  ⟨rfl, rfl⟩

/-- A user who has all gets no more. -/
theorem Good.obtained_read (hZ : z.Documented level) (h : Good level s) (hFits : s.reader.Fits size s.slave gives)
    (hAll : s.obtained = s.accepted) : (s.read size gives).obtained = (s.read size gives).accepted := by
  refine (h.read hZ hFits).inOrder hZ |>.eq_of_length_le ?_
  obtain ⟨raw, out, inp, made, hInv⟩ := h
  obtain ⟨bytes, -, hObtained⟩ := hInv.read hZ hFits
  rw [hObtained, (read_kept s (size, gives)).2, hAll, List.length_append]
  exact Nat.le_add_right ..

/-- Read on after a whole flush, the user gets all. -/
theorem Good.obtains_all (hZ : z.Documented level) (h : Good level s) (hFlushed : s.writer.flushed = true)
    (hSent : s.writer.deflated = []) {calls : List (Nat × Nat)}
    (hEager : AllSteps Eager (fun s call => s.read call.1 call.2) calls s)
    (hLong : s.obtained = s.accepted ∨ s.slave.length + s.accepted.length ≤ calls.length + s.obtained.length) :
    (calls.foldl (fun s call => s.read call.1 call.2) s).obtained = s.accepted := by
  induction calls generalizing s with
  | nil =>
    rcases hLong with hAll | hLong
    · exact hAll
    · refine (h.inOrder hZ).eq_of_length_le ?_
      rw [List.length_nil] at hLong
      omega
  | cons call calls ih =>
    obtain ⟨hFirst, hRest⟩ := hEager
    have hKept := read_kept s call
    rw [List.foldl_cons, ← hKept.2]
    refine ih (h.read hZ hFirst.fits) (hKept.1 ▸ hFlushed) (hKept.1 ▸ hSent) hRest ?_
    rcases hLong with hAll | hLong
    · exact .inl (h.obtained_read hZ hFirst.fits hAll)
    · obtain ⟨raw, out, inp, made, hInv⟩ := id h
      rcases hInv.progress hZ hFlushed hSent hFirst with hAll | hLess
      · exact .inl (h.obtained_read hZ hFirst.fits hAll)
      · refine .inr ?_
        rw [List.length_cons] at hLong
        rw [hKept.2]
        omega

/-- The reader has got a prefix of what the writer has accepted. If the last `deflate` of a `FlushOutput` left room and
the slave has taken all, the user who reads on gets all of it. -/
structure Transparent (s : Link z) : Prop where
  inOrder : s.obtained <+: s.accepted
  obtains_all : s.writer.flushed = true → s.writer.deflated = [] → ∀ calls : List (Nat × Nat),
    AllSteps Eager (fun s call => s.read call.1 call.2) calls s → s.slave.length + s.accepted.length ≤ calls.length →
      (calls.foldl (fun s call => s.read call.1 call.2) s).obtained = s.accepted

instance (w : Writer z) (buffer : List UInt8) (takes : Nat) : Decidable (w.Fits buffer takes) :=
  inferInstanceAs (Decidable (∀ result ∈ w.writeSendToSlave (some takes),
    result.1.sendToSlave = 0 → result.1.availIn = 0 ∨ buffer = []))

instance (r : Reader z) (size : Nat) (slave : List UInt8) (gives : Nat) : Decidable (r.Fits size slave gives) :=
  inferInstanceAs (Decidable ((r.readOwn size).1.availIn = 0 ∨ gives = 0 ∨ slave = []))

instance (s : Link z) : (action : Action) → Decidable (Allowed s action)
  | .write buffer takes _ => inferInstanceAs (Decidable (s.writer.Fits buffer takes))
  | .flushOutput _ _ _ => isTrue trivial
  | .read size gives => inferInstanceAs (Decidable (s.reader.Fits size s.slave gives))

/-- Streams that put out what they take, as long as there is room -/
def stored : Streams where
  Deflater := Unit
  Inflater := Unit
  deflateInit _ := ()
  inflateInit := ()
  deflate _ input room _ := ⟨(), min input.length room, input.take room, true⟩
  inflate _ input room := ⟨(), min input.length room, input.take room, true⟩

theorem take_stored (input : List UInt8) (room : Nat) : input.take (min input.length room) = input.take room :=
  List.take_eq_take_iff.mpr (by omega)

theorem deflates_stored {d : stored.Deflater} {raw out : List UInt8} (h : stored.Deflates level d raw out) :
    out = raw := by
  induction h with
  | init => rfl
  | call input room flush _ ih => exact congr (congrArg (· ++ ·) ih) (take_stored input room).symm

theorem inflates_stored {i : stored.Inflater} {inp made : List UInt8} (h : stored.Inflates i inp made) :
    made = inp := by
  induction h with
  | init => rfl
  | call input room _ ih => exact congr (congrArg (· ++ ·) ih) (take_stored input room).symm

/-- With room left all input is put out. -/
theorem stored_all {input : List UInt8} {room : Nat} (h : (input.take room).length < room) : input.length < room := by
  rw [List.length_take] at h
  omega

theorem documented_stored (level : Nat) : stored.Documented level where
  deflate_taken input room _ _ := ⟨Nat.min_le_left .., List.length_take_le ..⟩
  deflate_ok _ _ _ _ := rfl
  inflate_taken input room _ := ⟨Nat.min_le_left .., List.length_take_le ..⟩
  inflate_ok _ _ _ _ _ := rfl
  inverse hDeflates hInflates hPrefix := by
    rw [inflates_stored hInflates, ← deflates_stored hDeflates]
    exact hPrefix
  inflate_all input room _ _ _ hRoom := Nat.min_eq_left (Nat.le_of_lt (stored_all hRoom))
  complete {raw out i inp made} input room hFlushed hInflates hInput hRoom := by
    obtain ⟨d, before, flushRoom, hDeflates, hOut, -⟩ := hFlushed
    have hBefore : out = before := hOut.trans ((congrArg (before ++ ·) List.take_nil).trans (List.append_nil _))
    rw [inflates_stored hInflates, ← deflates_stored hDeflates, ← hBefore, ← hInput]
    exact congrArg (inp ++ ·) (List.take_of_length_le (Nat.le_of_lt (stored_all hRoom)))

/-- The slave takes two bytes at first. -/
def shortWrite : List Action :=
  [.write [1, 2, 3] 2 2, .flushOutput (5, 5) (5, 5) (5, 5), .read 2 2]

/-- The slave takes nothing while three bytes are written over each other. -/
def overwritten : List Action :=
  [.write (List.replicate bufSize 7) 0 0, .write [1, 2] 0 0, .write [3] 0 0,
    .flushOutput (bufSize, bufSize) (bufSize, bufSize) (bufSize, bufSize), .read bufSize bufSize, .read bufSize bufSize]

end BeShare.Muscle.ZLibDataIO
