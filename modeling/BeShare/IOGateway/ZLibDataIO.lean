import Mathlib.Data.List.Basic

/-!
`ZLibDataIO`: what is written is deflated on its way to the slave stream, and what is read from the slave stream is
inflated.
-/

namespace BeShare.Muscle

/-- What a call of zlib does: how much of the input it takes, what it puts out, and whether it says `Z_OK` or
`Z_BUF_ERROR` -/
structure Progress (Stream : Type) where
  stream : Stream
  taken : Nat
  output : List UInt8
  ok : Bool

/-- What `ZLibDataIO` uses of zlib. The calls get the input from `next_in` on, and the room at `next_out`. -/
structure Streams where
  Deflater : Type
  Inflater : Type
  deflateInit : Nat → Deflater
  inflateInit : Inflater
  /-- `deflate`, with `Z_SYNC_FLUSH` or else `Z_NO_FLUSH` -/
  deflate : Deflater → List UInt8 → Nat → Bool → Progress Deflater
  /-- `inflate`, with `Z_NO_FLUSH` -/
  inflate : Inflater → List UInt8 → Nat → Progress Inflater

namespace Streams

variable {z : Streams} {level : Nat}

/-- The deflater has taken these bytes and put out those. -/
inductive Deflates (z : Streams) (level : Nat) : z.Deflater → List UInt8 → List UInt8 → Prop
  | init : Deflates z level (z.deflateInit level) [] []
  | call {d : z.Deflater} {raw out : List UInt8} (input : List UInt8) (room : Nat) (flush : Bool) :
    Deflates z level d raw out → Deflates z level (z.deflate d input room flush).stream
      (raw ++ input.take (z.deflate d input room flush).taken) (out ++ (z.deflate d input room flush).output)

/-- The inflater has taken these bytes and made those. -/
inductive Inflates (z : Streams) : z.Inflater → List UInt8 → List UInt8 → Prop
  | init : Inflates z z.inflateInit [] []
  | call {i : z.Inflater} {inp made : List UInt8} (input : List UInt8) (room : Nat) :
    Inflates z i inp made → Inflates z (z.inflate i input room).stream
      (inp ++ input.take (z.inflate i input room).taken) (made ++ (z.inflate i input room).output)

/-- The last call was a flush of all that was taken, and left room. -/
def Flushed (z : Streams) (level : Nat) (raw out : List UInt8) : Prop :=
  ∃ d before room, Deflates z level d raw before ∧ out = before ++ (z.deflate d [] room true).output ∧
    (z.deflate d [] room true).output.length < room

/-- A call takes a prefix of its input and keeps to its room. The inflater undoes what it gets of a deflater: it makes a
prefix of what that has taken, takes all input if it leaves room, and then has made all that was flushed. -/
structure Documented (z : Streams) (level : Nat) : Prop where
  deflate_taken : ∀ {d raw out} input room flush, Deflates z level d raw out →
    (z.deflate d input room flush).taken ≤ input.length ∧ (z.deflate d input room flush).output.length ≤ room
  deflate_ok : ∀ {d raw out} input room flush, Deflates z level d raw out → (z.deflate d input room flush).ok = true
  inflate_taken : ∀ {i inp made} input room, Inflates z i inp made →
    (z.inflate i input room).taken ≤ input.length ∧ (z.inflate i input room).output.length ≤ room
  inflate_ok : ∀ {d raw out i inp made} input room, Deflates z level d raw out → Inflates z i inp made →
    inp ++ input <+: out → (z.inflate i input room).ok = true
  inverse : ∀ {d raw out i inp made}, Deflates z level d raw out → Inflates z i inp made → inp <+: out → made <+: raw
  inflate_all : ∀ {d raw out i inp made} input room, Deflates z level d raw out → Inflates z i inp made →
    inp ++ input <+: out → (z.inflate i input room).output.length < room →
      (z.inflate i input room).taken = input.length
  complete : ∀ {raw out i inp made} input room, Flushed z level raw out → Inflates z i inp made → inp ++ input = out →
    (z.inflate i input room).output.length < room → made ++ (z.inflate i input room).output = raw

end Streams

namespace ZLibDataIO

/-- The size of each of the four buffers -/
def bufSize : Nat := 2048

/-- `memcpy` into a buffer -/
def copyIn (buf : List UInt8) (start : Nat) (data : List UInt8) : List UInt8 :=
  buf.take start ++ data ++ buf.drop (start + data.length)

/-- The input of a call. What lies behind the buffer is not seen here. -/
def window (buf : List UInt8) (nextIn availIn : Nat) : List UInt8 :=
  (buf.drop nextIn).take availIn

/-- The half of `ZLibDataIO` that writes. `avail_out` is what `_deflatedBuf` has behind `next_out`. -/
structure Writer (z : Streams) where
  toDeflateBuf : List UInt8
  nextIn : Nat
  availIn : Nat
  deflater : z.Deflater
  /-- `_deflatedBuf` up to `next_out` -/
  deflated : List UInt8
  /-- where `_sendToSlave` is in it -/
  sendToSlave : Nat
  /-- The last call of `deflate` was a flush, and left room. The code does not keep this. -/
  flushed : Bool

/-- The half that reads -/
structure Reader (z : Streams) where
  toInflateBuf : List UInt8
  nextIn : Nat
  availIn : Nat
  inflater : z.Inflater
  /-- `_inflatedBuf` up to `next_out` -/
  inflated : List UInt8
  /-- where `_sendToUser` is in it -/
  sendToUser : Nat
  inflateOkay : Bool
  inputStreamOkay : Bool

variable {z : Streams}

/-- After `SetSlaveIO` with a slave -/
def Writer.init (z : Streams) (compressionLevel : Nat) : Writer z :=
  ⟨List.replicate bufSize 0, 0, 0, z.deflateInit compressionLevel, [], 0, false⟩

def Reader.init (z : Streams) : Reader z :=
  ⟨List.replicate bufSize 0, 0, 0, z.inflateInit, [], 0, true, true⟩

namespace Writer

variable (w : Writer z)

def window : List UInt8 :=
  ZLibDataIO.window w.toDeflateBuf w.nextIn w.availIn

/-- What is deflated and not sent yet -/
def pending : List UInt8 :=
  w.deflated.drop w.sendToSlave

/-- `ZLIB_WRITE_SEND_TO_SLAVE`, with how much the slave takes, or nothing if it fails; and what is sent -/
def writeSendToSlave (slave : Option Nat) : Option (Writer z × List UInt8) :=
  if w.sendToSlave < w.deflated.length then
    slave.map fun takes =>
      let sent := w.pending.take takes
      (if w.sendToSlave + sent.length = w.deflated.length then { w with deflated := [], sendToSlave := 0 }
        else { w with sendToSlave := w.sendToSlave + sent.length }, sent)
  else some (w, [])

/-- `WriteAux` copies what it can of this for the deflater. -/
def takeIn (buffer : List UInt8) : Writer z × Nat :=
  let nextIn := if w.availIn = 0 then 0 else w.nextIn
  let data := buffer.take (bufSize - nextIn)
  ({ w with
    toDeflateBuf := copyIn w.toDeflateBuf nextIn data
    nextIn := nextIn
    availIn := w.availIn + data.length }, data.length)

/-- `WriteAux` calls `deflate`. -/
def callDeflate (flushAtEnd : Bool) : Writer z × Bool :=
  let flush := flushAtEnd && w.availIn == 0
  let room := bufSize - w.deflated.length
  let result := z.deflate w.deflater w.window room flush
  ({ w with
    nextIn := w.nextIn + result.taken
    availIn := w.availIn - result.taken
    deflater := result.stream
    deflated := w.deflated ++ result.output
    flushed := flush && decide (result.output.length < room) }, result.ok)

/-- `WriteAux`, with what the slave takes at its two places: the bytes that are sent, and the result -/
def writeAux (buffer : List UInt8) (flushAtEnd : Bool) (slave slave' : Option Nat) : Writer z × List UInt8 × Int :=
  match w.writeSendToSlave slave with
  | none => (w, [], -1)
  | some (w, sent) =>
    if w.sendToSlave = 0 then
      let (w, bytesCompressed) := w.takeIn buffer
      let (w, ok) := w.callDeflate flushAtEnd
      if ok then
        match w.writeSendToSlave slave' with
        | none => (w, sent, -1)
        | some (w, sent') => (w, sent ++ sent', bytesCompressed)
      else (w, sent, -1)
    else (w, sent, 0)

end Writer

namespace Reader

variable (r : Reader z)

def window : List UInt8 :=
  ZLibDataIO.window r.toInflateBuf r.nextIn r.availIn

/-- What is inflated and not given to the user yet -/
def pending : List UInt8 :=
  r.inflated.drop r.sendToUser

/-- `ZLIB_READ_COPY_TO_USER` -/
def readCopyToUser (size : Nat) : Reader z × List UInt8 :=
  if r.sendToUser < r.inflated.length then
    let bytes := r.pending.take size
    (if r.sendToUser + bytes.length = r.inflated.length then { r with inflated := [], sendToUser := 0 }
      else { r with sendToUser := r.sendToUser + bytes.length }, bytes)
  else (r, [])

/-- `ZLIB_READ_INFLATE` -/
def readInflate (size : Nat) : Reader z × List UInt8 :=
  if r.inflateOkay then
    let result := z.inflate r.inflater r.window (bufSize - r.inflated.length)
    readCopyToUser { r with
      nextIn := r.nextIn + result.taken
      availIn := r.availIn - result.taken
      inflater := result.stream
      inflated := r.inflated ++ result.output
      inflateOkay := result.ok } size
  else (r, [])

/-- The first part of `Read`, before the slave is read -/
def readOwn (size : Nat) : Reader z × List UInt8 :=
  let (r, bytes) := r.readCopyToUser size
  let (r, bytes') := r.readInflate (size - bytes.length)
  (r, bytes ++ bytes')

/-- `Read` gets bytes of the slave, which has these and gives so many of them, or fails; and what the slave has then -/
def readSlave (slave : List UInt8) (gives : Option Nat) : Reader z × List UInt8 × Bool :=
  let nextIn := if r.availIn = 0 then 0 else r.nextIn
  match gives with
  | some gives =>
    let bytes := slave.take (min gives (bufSize - nextIn))
    ({ r with
      toInflateBuf := copyIn r.toInflateBuf nextIn bytes
      nextIn := nextIn
      availIn := r.availIn + bytes.length }, slave.drop bytes.length, true)
  | none => ({ r with nextIn := nextIn, inputStreamOkay := false }, slave, false)

/-- `Read`: what the slave has then, the user's buffer, and the result -/
def read (size : Nat) (slave : List UInt8) (gives : Option Nat) : Reader z × List UInt8 × List UInt8 × Int :=
  let (r, bytes) := r.readOwn size
  let (r, slave, bytes) :=
    if r.inputStreamOkay then
      let (r, slave, ok) := r.readSlave slave gives
      if ok then
        let (r, bytes') := r.readInflate (size - bytes.length)
        (r, slave, bytes ++ bytes')
      else (r, slave, bytes)
    else (r, slave, bytes)
  (r, slave, bytes, if bytes ≠ [] then bytes.length else if r.inputStreamOkay && r.inflateOkay then 0 else -1)

end Reader

/-! ### A stream from a writer to a reader -/

/-- Two of these with the slave stream between them, the bytes that `Write` has accepted and those that `Read` has
given -/
structure Link (z : Streams) where
  writer : Writer z
  slave : List UInt8
  reader : Reader z
  accepted : List UInt8
  obtained : List UInt8

def Link.init (z : Streams) (compressionLevel : Nat) : Link z :=
  ⟨Writer.init z compressionLevel, [], Reader.init z, [], []⟩

/-- The calls, with what the slave takes at the places where it is written, or gives. It does not fail. -/
inductive Action where
  /-- `Write`, or `WriteBufferedOutput` with an empty buffer -/
  | write (buffer : List UInt8) (takes takes' : Nat)
  /-- `FlushOutput`, which calls `WriteAux` three times -/
  | flushOutput (first second third : Nat × Nat)
  | read (size gives : Nat)

def Link.writeAux (s : Link z) (buffer : List UInt8) (flushAtEnd : Bool) (takes takes' : Nat) : Link z :=
  let (writer, sent, result) := s.writer.writeAux buffer flushAtEnd (some takes) (some takes')
  { s with writer, slave := s.slave ++ sent, accepted := s.accepted ++ buffer.take result.toNat }

def Link.read (s : Link z) (size gives : Nat) : Link z :=
  let (reader, slave, buffer, result) := s.reader.read size s.slave (some gives)
  { s with reader, slave, obtained := s.obtained ++ buffer.take result.toNat }

def Link.step (s : Link z) : Action → Link z
  | .write buffer takes takes' => s.writeAux buffer false takes takes'
  | .flushOutput first second third =>
    ((s.writeAux [] true first.1 first.2).writeAux [] true second.1 second.2).writeAux [] true third.1 third.2
  | .read size gives => s.read size gives

end ZLibDataIO

end BeShare.Muscle
