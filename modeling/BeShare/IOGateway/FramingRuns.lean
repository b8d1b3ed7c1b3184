import BeShare.IOGateway.Framing
import Mathlib.Data.List.ReduceOption

/-! Runs of two gateways: Messages go in at one end, in whatever encoding, and bytes are taken and given as it comes. -/

namespace BeShare.Muscle

open BeShare.Lib

namespace Link

open MessageIOGateway

variable {z : ZLib} {InStep : z.Deflater → z.Inflater → Prop} {limit : Nat} {l : Link z}

/-- What is flattened at this event fits. -/
def EventFits (l : Link z) : LinkEvent → Prop
  | .doOutput maxBytes takes => OutputFits l.receiver.maxIncomingMessageSize.toNat takes l.sender maxBytes
  | _ => True

/-- What was queued is what is in the frames, and behind them what is not flattened yet. The bytes of the frames have
arrived, are on their way, or wait in the sender. The Messages whose frames have arrived whole are delivered. -/
structure RoundTrips (limit : Nat) (l : Link z) : Prop where
  senderOkay : l.sender.hosed = false
  receiverOkay : l.receiver.hosed = false
  inOrder : ∃ frames : List (Message × List UInt8), (∀ frame ∈ frames, IsFrame limit frame.2) ∧
    l.queued = frames.map Prod.fst ++ l.sender.outgoingMessageQueue.reduceOption ∧
    frames.flatMap Prod.snd = l.arrived ++ l.stream ++ l.sender.unsent ∧
    l.delivered = whole frames l.arrived.length
  complete : l.sender.outgoingMessageQueue.reduceOption = [] → l.stream = [] → l.sender.unsent = [] →
    l.delivered = l.queued

/-- The frames that are delivered, and those that are to come. -/
structure Linked (InStep : z.Deflater → z.Inflater → Prop) (limit : Nat) (l : Link z)
    (done pending : List (Message × List UInt8)) : Prop where
  sending : l.sender.Sending
  isOpen : l.receiver.Open
  frames : ∀ frame ∈ done, IsFrame limit frame.2
  receiving : Receiving InStep limit l.sender.sendCodec l.receiver (l.stream ++ l.sender.unsent) pending
  queued : l.queued = (done ++ pending).map Prod.fst ++ l.sender.outgoingMessageQueue.reduceOption
  arrived : l.arrived = done.flatMap Prod.snd ++ l.receiver.got
  delivered : l.delivered = done.map Prod.fst

variable {done pending : List (Message × List UInt8)}

theorem linked_start (encoding maxIncomingMessageSize : UInt32) (stale : UInt8) :
    Linked InStep maxIncomingMessageSize.toNat (start z encoding maxIncomingMessageSize stale) [] [] := by
  refine ⟨⟨rfl, fun _ => rfl⟩, ?_, ?_, ⟨rfl, rfl, ?_, rfl, ⟨none, rfl, trivial⟩, ?_, ?_⟩, rfl, rfl, rfl⟩
  · intro body hBody
    cases hBody
  · intro frame hIn
    cases hIn
  · intro frame hIn
    cases hIn
  · intro head hHead
    cases hHead
  · intro body hBody
    cases hBody

theorem linked_addOutgoingMessage (h : Linked InStep limit l done pending) (msg : Option Message) :
    Linked InStep limit (l.step (.addOutgoingMessage msg)) done pending := by
  refine ⟨⟨h.sending.okay, h.sending.header⟩, h.isOpen, h.frames, h.receiving, ?_, h.arrived, h.delivered⟩
  have hOne : [msg].reduceOption = msg.toList := by cases msg <;> rfl
  show l.queued ++ msg.toList = _ ++ (l.sender.outgoingMessageQueue ++ [msg]).reduceOption
  rw [List.reduceOption_append, hOne, h.queued, List.append_assoc]

theorem linked_setOutgoingEncoding (h : Linked InStep limit l done pending) (encoding : UInt32) :
    Linked InStep limit (l.step (.setOutgoingEncoding encoding)) done pending :=
  ⟨⟨h.sending.okay, h.sending.header⟩, h.isOpen, h.frames, h.receiving, h.queued, h.arrived, h.delivered⟩

/-- The output makes new frames. -/
theorem linked_doOutput (hZ : z.Documented InStep) (h : Linked InStep limit l done pending) {maxBytes : Nat}
    {takes : List (Nat × Nat)} (hFits : OutputFits limit takes l.sender maxBytes) :
    ∃ more, Linked InStep limit (l.step (.doOutput maxBytes takes)) done (pending ++ more) := by
  obtain ⟨more, hOutput⟩ := supplies_doOutput hZ takes maxBytes h.sending h.receiving hFits
  refine ⟨more, hOutput.sending, h.isOpen, h.frames, hOutput.receiving, ?_, h.arrived, h.delivered⟩
  show l.queued = _ ++ (doOutput takes l.sender maxBytes).1.outgoingMessageQueue.reduceOption
  rw [h.queued, hOutput.queue, ← List.append_assoc, ← List.map_append, List.append_assoc]

/-- The input makes frames whole. -/
theorem linked_doInput (h : Linked InStep limit l done pending) (maxBytes : Nat) (gives : Nat × Nat)
    (more : List (Nat × Nat)) :
    ∃ done' pending', Linked InStep limit (l.step (.doInput maxBytes gives more)) done' pending' := by
  obtain ⟨later, hInput, hOpen⟩ := advances_doInput gives more maxBytes h.receiving h.isOpen
  obtain ⟨now, rfl, hMessages, hGot⟩ := hInput.done
  refine ⟨done ++ now, later, h.sending, hOpen, fun frame hIn => ?_, hInput.receiving, ?_, ?_, ?_⟩
  · rcases List.mem_append.mp hIn with hOld | hNow
    · exact h.frames frame hOld
    · exact h.receiving.frames frame (List.mem_append_left _ hNow)
  · rw [List.append_assoc]
    exact h.queued
  · show l.arrived ++ _ = _
    rw [h.arrived, List.append_assoc, hGot, List.flatMap_append, List.append_assoc]
    rfl
  · show l.delivered ++ _ = _
    rw [h.delivered, hMessages, List.map_append]

theorem linked_step (hZ : z.Documented InStep) (h : Linked InStep limit l done pending) (event : LinkEvent)
    (hFits : l.EventFits event) : ∃ done' pending', Linked InStep limit (l.step event) done' pending' := by
  cases event with
  | addOutgoingMessage msg => exact ⟨done, pending, linked_addOutgoingMessage h msg⟩
  | setOutgoingEncoding encoding => exact ⟨done, pending, linked_setOutgoingEncoding h encoding⟩
  | doOutput maxBytes takes =>
    have hFits : OutputFits l.receiver.maxIncomingMessageSize.toNat takes l.sender maxBytes := hFits
    rw [h.receiving.maxSize] at hFits
    obtain ⟨more, hMore⟩ := linked_doOutput hZ h hFits
    exact ⟨done, _, hMore⟩
  | doInput maxBytes gives more => exact linked_doInput h maxBytes gives more

/-- As long as frames are pending, there are bytes of them. -/
theorem Linked.pending_eq_nil (h : Linked InStep limit l done pending) (hStream : l.stream = [])
    (hUnsent : l.sender.unsent = []) : pending = [] := by
  cases pending with
  | nil => rfl
  | cons frame rest =>
    have hLess := h.receiving.got_lt h.isOpen (by rfl)
    have hBytes := congrArg List.length h.receiving.bytes
    rw [hStream, hUnsent, List.append_nil, List.append_nil, List.flatMap_cons, List.length_append] at hBytes
    omega

theorem Linked.roundTrips (h : Linked InStep limit l done pending) : l.RoundTrips limit := by
  refine ⟨h.sending.okay, h.receiving.okay, ⟨done ++ pending, fun frame hIn => ?_, h.queued, ?_, ?_⟩, ?_⟩
  · rcases List.mem_append.mp hIn with hDone | hPending
    · exact h.frames frame hDone
    · exact h.receiving.frames frame hPending
  · rw [List.flatMap_append, h.receiving.bytes, h.arrived]
    simp only [List.append_assoc]
  · have hPart := whole_of_partial fun frame => h.receiving.got_lt h.isOpen
    rw [h.arrived, List.length_append, whole_append, hPart, List.append_nil, h.delivered]
  · intro hQueue hStream hUnsent
    rw [h.queued, h.pending_eq_nil hStream hUnsent, hQueue, List.append_nil, List.append_nil, h.delivered]

/-- What is before the data of a stored block, with the header of the stream before the first one. -/
def storedFront (begun : Bool) (rawLen : Nat) : List UInt8 :=
  (if begun then [] else [0x78, 0x01]) ++ [0] ++ leBytes 2 rawLen ++ leBytes 2 (65535 - rawLen)

theorem storedFront_length (begun : Bool) (rawLen : Nat) :
    (storedFront begun rawLen).length = if begun then 5 else 7 := by
  cases begun <;> simp [storedFront]

/-- Each input is a stored block and the empty one of the flush. -/
def storedZLib : ZLib where
  Deflater := Bool
  Inflater := Bool
  deflateInit _ := false
  inflateInit := false
  deflateReset _ := false
  inflateReset _ := false
  deflate begun raw room := (true, (storedFront begun raw.length ++ (raw ++ [0, 0, 0, 255, 255])).take room, true)
  inflate begun compressed rawLen := (true, (compressed.drop (if begun then 5 else 7)).take rawLen, true)

theorem storedZLib_documented : storedZLib.Documented (fun (begun begun' : Bool) => begun = begun') := by
  refine ⟨fun _ => rfl, fun _ _ _ _ _ _ => rfl, ?_, fun _ _ _ _ _ _ => rfl⟩
  rintro (begun : Bool) _ raw room rfl hRoom
  have hFront := storedFront_length begun raw.length
  have hAll : (storedFront begun raw.length ++ (raw ++ [0, 0, 0, 255, 255])).length ≤ room := by
    rw [List.length_append, List.length_append, hFront]
    unfold compressBound at hRoom
    show (if begun = true then 5 else 7) + (raw.length + 5) ≤ room
    split <;> omega
  show (((_ : List UInt8).drop _).take _, true) = (raw, true)
  rw [← hFront]
  show (((List.take room (storedFront begun raw.length ++ (raw ++ [0, 0, 0, 255, 255]))).drop _).take _, true) = _
  rw [List.take_of_length_le hAll, List.drop_left, List.take_left]

/-- A Message of 33 bytes. -/
def int64Message : Message :=
  .mk 7 [(CStr.empty, .prim .int64 [5])]

theorem int64Message_throughout : int64Message.WellFormed ∧ int64Message.Flattenable ∧ int64Message.NoNullRefs := by
  refine ⟨Message.throughout_mk ?_ ?_, Message.throughout_mk ?_ ?_, Message.throughout_mk ?_ ?_⟩
  all_goals simp [Message.DistinctNames, Message.AllFlattenable, Message.NoNull, DataArray.isFlattenable,
    DataArray.NoNull, DataArray.messages]

/-- The Message goes out at level 6, and comes in in pieces. -/
def sixthLevel : List LinkEvent :=
  [.setOutgoingEncoding (MUSCLE_MESSAGE_ENCODING_ZLIB_1 + 5), .addOutgoingMessage (some int64Message),
    .doOutput 100 [(8, 100)], .doInput 20 (8, 5) [], .doInput 100 (8, 100) []]

end Link

end BeShare.Muscle
