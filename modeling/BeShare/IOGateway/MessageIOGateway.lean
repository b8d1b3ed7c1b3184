import BeShare.IOGateway.ZLibCodec
import BeShare.Message.Flatten
import BeShare.Message.Unflatten

/-!
`MessageIOGateway`: Messages go out and come in as frames, a header and a body each, over a connection that takes and
gives as many bytes as it likes.
-/

namespace BeShare.Muscle

open BeShare.Lib

/-- The encodings are `int32`, here their 32 bits: the ranges that are looked at are the same. -/
def MUSCLE_MESSAGE_ENCODING_DEFAULT : UInt32 := 1164862256
def MUSCLE_MESSAGE_ENCODING_ZLIB_1 : UInt32 := 1164862257
def MUSCLE_MESSAGE_ENCODING_ZLIB_9 : UInt32 := 1164862265
def MUSCLE_MESSAGE_ENCODING_END_MARKER : UInt32 := 1164862266

/-- A `TransferBuffer` with something to send. -/
structure SendBuffer where
  bytes : List UInt8
  offset : Nat

/-- A `TransferBuffer` to receive into: its size, and the bytes up to its offset. -/
structure ReceiveBuffer where
  numBytes : Nat
  bytes : List UInt8

structure MessageIOGateway (z : ZLib) where
  outgoingMessageQueue : List (Option Message)
  sendHeaderBuffer : Option SendBuffer
  sendBodyBuffer : Option SendBuffer
  recvHeaderBuffer : Option ReceiveBuffer
  recvBodyBuffer : Option ReceiveBuffer
  maxIncomingMessageSize : UInt32
  outgoingEncoding : UInt32
  sendCodec : Option (ZLibCodec z)
  recvCodec : Option (ZLibCodec z)
  hosed : Bool
  /-- What a buffer of the pool holds where nothing was written -/
  stale : UInt8

namespace MessageIOGateway

variable {z : ZLib}

def new (z : ZLib) (outgoingEncoding maxIncomingMessageSize : UInt32) (stale : UInt8) : MessageIOGateway z :=
  ⟨[], none, none, none, none, maxIncomingMessageSize, outgoingEncoding, none, none, false, stale⟩

/-! ### Flattening -/

def GetHeaderSize : Nat := 8

/-- `GetCodec`: the codec that is set then, and the one to use if the encoding has one. -/
def getCodec (newEncoding : UInt32) (setCodec : Option (ZLibCodec z)) : Option (ZLibCodec z) × Option (ZLibCodec z) :=
  if MUSCLE_MESSAGE_ENCODING_ZLIB_1 ≤ newEncoding ∧ newEncoding ≤ MUSCLE_MESSAGE_ENCODING_ZLIB_9 then
    let newLevel := (newEncoding - MUSCLE_MESSAGE_ENCODING_ZLIB_1).toNat + 1
    match setCodec with
    | some codec =>
      if newLevel ≠ codec.compressionLevel then (some (.new newLevel), some (.new newLevel))
      else (some codec, some codec)
    | none => (some (.new newLevel), some (.new newLevel))
  else (setCodec, none)

def header (numBytes : Nat) (encoding : UInt32) : List UInt8 :=
  leBytes 4 numBytes ++ leBytes 4 encoding.toNat

/-- The buffer that a Message is flattened into. -/
def flattenedBytes (stale : UInt8) (msg : Message) : List UInt8 :=
  msg.flatten.map fun cell => cell.getD stale

/-- `FlattenMessage`: the codec after it, with the header and the body if it does not fail. -/
def flattenMessage (outgoingEncoding : UInt32) (stale : UInt8) (sendCodec : Option (ZLibCodec z)) (msg : Message) :
    Option (ZLibCodec z) × Option (List UInt8 × List UInt8) :=
  let raw := flattenedBytes stale msg
  -- below 32 bytes, the compression headers usually offset the benefits
  if 32 ≤ raw.length then
    let codecs := getCodec outgoingEncoding sendCodec
    match codecs.2 with
    | some enc =>
      let result := enc.deflate raw false
      let encoding := MUSCLE_MESSAGE_ENCODING_ZLIB_1 + UInt32.ofNat enc.compressionLevel - 1
      (some result.1, result.2.map fun compressed => (header compressed.length encoding, compressed))
    | none => (codecs.1, some (header raw.length MUSCLE_MESSAGE_ENCODING_DEFAULT, raw))
  else (sendCodec, some (header raw.length MUSCLE_MESSAGE_ENCODING_DEFAULT, raw))

/-- The number in the header from this byte on. -/
def headerWord (headerBuf : List UInt8) (offset : Nat) : Nat :=
  leNat ((headerBuf.drop offset).take 4)

/-- `Message::Unflatten` of a whole buffer, without what it is hosed by -/
def unflattened (bytes : List UInt8) : Option Message :=
  match Message.receive bytes.length bytes with
  | .ok msg => some msg
  | _ => none

/-- `UnflattenMessage`: the codec after it, with the Message if there is one. What is not inflated is taken as it is. -/
def unflattenMessage (recvCodec : Option (ZLibCodec z)) (headerBuf body : List UInt8) :
    Option (ZLibCodec z) × Option Message :=
  if headerWord headerBuf 0 ≠ body.length then (recvCodec, none)
  else
    let codecs := getCodec (UInt32.ofNat (headerWord headerBuf 4)) recvCodec
    match codecs.2 with
    | some enc =>
      let result := enc.inflate body
      (some result.1, unflattened (result.2.getD body))
    | none => (codecs.1, unflattened body)

/-- `GetBodySize`, with nothing for what is negative there. -/
def getBodySize (headerBuf : List UInt8) : Option Nat :=
  let encoding := UInt32.ofNat (headerWord headerBuf 4)
  if MUSCLE_MESSAGE_ENCODING_DEFAULT ≤ encoding ∧ encoding ≤ MUSCLE_MESSAGE_ENCODING_END_MARKER - 1 ∧
      headerWord headerBuf 0 < 2 ^ 31 then some (headerWord headerBuf 0)
  else none

/-! ### Output -/

/-- What a step of the output does. -/
structure OutputStep (z : ZLib) where
  gateway : MessageIOGateway z
  written : List UInt8
  maxBytes : Nat
  goesOn : Bool

/-- `SendData`: the buffer after it, what was written of it, and whether to keep sending. The connection takes at most
so many bytes. -/
def sendData (buf : Option SendBuffer) (takes maxBytes : Nat) : Option SendBuffer × List UInt8 × Bool :=
  match buf with
  | some b =>
    let attemptSize := min maxBytes (b.bytes.length - b.offset)
    let numSent := min attemptSize takes
    (if b.bytes.length ≤ b.offset + numSent then none else some { b with offset := b.offset + numSent },
      (b.bytes.drop b.offset).take numSent, decide (attemptSize ≤ numSent))
  | none => (none, [], true)

/-- `RemoveHead` until there is a Message. -/
def nextMessage : List (Option Message) → Option (Message × List (Option Message))
  | [] => none
  | none :: rest => nextMessage rest
  | some msg :: rest => some (msg, rest)

/-- Makes sure that there is something to send. Nothing means that there is none. -/
def fill (g : MessageIOGateway z) : Option (MessageIOGateway z) :=
  if g.sendBodyBuffer.isSome then some g
  else
    (nextMessage g.outgoingMessageQueue).map fun next =>
      let flattened := flattenMessage g.outgoingEncoding g.stale g.sendCodec next.1
      let g := { g with outgoingMessageQueue := next.2, sendCodec := flattened.1 }
      match flattened.2 with
      | some (headerBuf, body) =>
        { g with sendHeaderBuffer := some ⟨headerBuf, 0⟩, sendBodyBuffer := some ⟨body, 0⟩ }
      | none => { g with hosed := true }

/-- The sending phase: first the header, then the body. -/
def send (g : MessageIOGateway z) (takes : Nat × Nat) (maxBytes : Nat) : OutputStep z :=
  let head := sendData g.sendHeaderBuffer takes.1 maxBytes
  let g := { g with sendHeaderBuffer := head.1 }
  let maxBytes := maxBytes - head.2.1.length
  if head.2.2 && head.1.isNone then
    let body := sendData g.sendBodyBuffer takes.2 maxBytes
    ⟨{ g with sendBodyBuffer := body.1 }, head.2.1 ++ body.2.1, maxBytes - body.2.1.length, body.2.2⟩
  else ⟨g, head.2.1, maxBytes, head.2.2⟩

/-- A turn of the loop of `DoOutputImplementation`. -/
def outputTurn (g : MessageIOGateway z) (takes : Nat × Nat) (maxBytes : Nat) : OutputStep z :=
  match g.fill with
  | some g => if g.hosed then ⟨g, [], maxBytes, false⟩ else g.send takes maxBytes
  | none => ⟨{ g with outgoingMessageQueue := [] }, [], maxBytes, false⟩

/-- `DoOutputImplementation`, with the bytes that it writes. In each turn the connection takes so many bytes of the
header and of the body, and in the end no more. -/
def doOutput : List (Nat × Nat) → MessageIOGateway z → Nat → MessageIOGateway z × List UInt8
  | takes, g, maxBytes =>
    if maxBytes = 0 ∨ g.hosed = true then (g, [])
    else
      match takes with
      | [] => let step := g.outputTurn (0, 0) maxBytes; (step.gateway, step.written)
      | first :: rest =>
        let step := g.outputTurn first maxBytes
        if step.goesOn then
          let later := doOutput rest step.gateway step.maxBytes
          (later.1, step.written ++ later.2)
        else (step.gateway, step.written)

/-! ### Input -/

/-- What a step of the input does. -/
structure InputStep (z : ZLib) where
  gateway : MessageIOGateway z
  read : List UInt8
  maxBytes : Nat
  messages : List Message
  goesOn : Bool

/-- `ReadData`: the buffer after it, what was read, and whether to keep reading. The connection gives at most so many of
the bytes that have come. -/
def readData (buf : ReceiveBuffer) (stream : List UInt8) (gives maxBytes : Nat) :
    ReceiveBuffer × List UInt8 × Bool :=
  let attemptSize := min maxBytes (buf.numBytes - buf.bytes.length)
  let bytes := stream.take (min attemptSize gives)
  ({ buf with bytes := buf.bytes ++ bytes }, bytes, decide (attemptSize ≤ bytes.length))

/-- The loop reads into a buffer only if it is not full. -/
def readIfNotFull (buf : ReceiveBuffer) (stream : List UInt8) (gives maxBytes : Nat) :
    ReceiveBuffer × List UInt8 × Bool :=
  if buf.bytes.length < buf.numBytes then readData buf stream gives maxBytes else (buf, [], true)

/-- All bytes of a Message are there. -/
def bodyReceived (g : MessageIOGateway z) (head body : ReceiveBuffer) : MessageIOGateway z × List Message :=
  let result := unflattenMessage g.recvCodec head.bytes body.bytes
  let g := { g with recvCodec := result.1, recvHeaderBuffer := none, recvBodyBuffer := none }
  match result.2 with
  | some msg => (g, [msg])
  | none => ({ g with hosed := true }, [])

/-- All bytes of the header are there: a buffer for the body, or an end if it may not be so large. -/
def headerReceived (g : MessageIOGateway z) (head : ReceiveBuffer) : MessageIOGateway z :=
  match getBodySize head.bytes with
  | some bodySize =>
    if bodySize ≤ g.maxIncomingMessageSize.toNat then { g with recvBodyBuffer := some ⟨bodySize, []⟩ }
    else { g with hosed := true }
  | none => { g with hosed := true }

/-- The rest of a turn when the header is there. -/
def receiveBody (g : MessageIOGateway z) (head : ReceiveBuffer) (stream : List UInt8) (gives maxBytes : Nat) :
    InputStep z :=
  match g.recvBodyBuffer with
  | some body =>
    let next := readIfNotFull body stream gives maxBytes
    let g := { g with recvBodyBuffer := some next.1 }
    let maxBytes := maxBytes - next.2.1.length
    if next.2.2 = true ∧ next.1.bytes.length = next.1.numBytes then
      let result := g.bodyReceived head next.1
      ⟨result.1, next.2.1, maxBytes, result.2, true⟩
    else ⟨g, next.2.1, maxBytes, [], next.2.2⟩
  | none => ⟨g.headerReceived head, [], maxBytes, [], true⟩

/-- A turn of the loop of `DoInputImplementation`. -/
def inputTurn (g : MessageIOGateway z) (stream : List UInt8) (gives : Nat × Nat) (maxBytes : Nat) : InputStep z :=
  let head := g.recvHeaderBuffer.getD ⟨GetHeaderSize, []⟩
  let next := readIfNotFull head stream gives.1 maxBytes
  let g := { g with recvHeaderBuffer := some next.1 }
  let maxBytes := maxBytes - next.2.1.length
  if next.2.2 = true ∧ next.1.bytes.length = next.1.numBytes then
    let step := g.receiveBody next.1 (stream.drop next.2.1.length) gives.2 maxBytes
    { step with read := next.2.1 ++ step.read }
  else ⟨g, next.2.1, maxBytes, [], next.2.2⟩

/-- `DoInputImplementation`, with the bytes that it reads and the Messages that it passes on: in each turn the
connection gives so many bytes of the header and of the body. After the last one the time slice is over; the first one
is taken at any rate. -/
def doInput (gives : Nat × Nat) (more : List (Nat × Nat)) (g : MessageIOGateway z) (stream : List UInt8)
    (maxBytes : Nat) : MessageIOGateway z × List UInt8 × List Message :=
  if maxBytes = 0 ∨ g.hosed = true then (g, [], [])
  else
    let step := g.inputTurn stream gives maxBytes
    match more with
    | [] => (step.gateway, step.read, step.messages)
    | next :: rest =>
      if step.goesOn then
        let later := doInput next rest step.gateway (stream.drop step.read.length) step.maxBytes
        (later.1, step.read ++ later.2.1, step.messages ++ later.2.2)
      else (step.gateway, step.read, step.messages)

end MessageIOGateway

/-! ### Two gateways -/

/-- A gateway that sends to another one, with the bytes that are on their way, and what has been sent and received. -/
structure Link (z : ZLib) where
  sender : MessageIOGateway z
  stream : List UInt8
  receiver : MessageIOGateway z
  queued : List Message
  arrived : List UInt8
  delivered : List Message

inductive LinkEvent where
  | addOutgoingMessage (msg : Option Message)
  | setOutgoingEncoding (encoding : UInt32)
  | doOutput (maxBytes : Nat) (takes : List (Nat × Nat))
  | doInput (maxBytes : Nat) (gives : Nat × Nat) (more : List (Nat × Nat))

namespace Link

variable {z : ZLib}

def step (l : Link z) : LinkEvent → Link z
  | .addOutgoingMessage msg =>
    { l with
      sender := { l.sender with outgoingMessageQueue := l.sender.outgoingMessageQueue ++ [msg] }
      queued := l.queued ++ msg.toList }
  | .setOutgoingEncoding encoding => { l with sender := { l.sender with outgoingEncoding := encoding } }
  | .doOutput maxBytes takes =>
    let result := MessageIOGateway.doOutput takes l.sender maxBytes
    { l with sender := result.1, stream := l.stream ++ result.2 }
  | .doInput maxBytes gives more =>
    let result := MessageIOGateway.doInput gives more l.receiver l.stream maxBytes
    { l with
      receiver := result.1
      stream := l.stream.drop result.2.1.length
      arrived := l.arrived ++ result.2.1
      delivered := l.delivered ++ result.2.2 }

def start (z : ZLib) (encoding maxIncomingMessageSize : UInt32) (stale : UInt8) : Link z :=
  ⟨.new z encoding maxIncomingMessageSize stale, [], .new z encoding maxIncomingMessageSize stale, [], [], []⟩

end Link

end BeShare.Muscle
