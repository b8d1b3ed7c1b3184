import BeShare.IOGateway.RawDataInput
import BeShare.Util.ByteBuffer
import Mathlib.Algebra.GroupWithZero.Nat

/-!
The output of `RawDataMessageIOGateway`. A `Message` is its `PR_NAME_DATA_CHUNKS`.
-/

namespace BeShare.Muscle.RawData

abbrev Message := List ByteBuffer

/-- `FindData` for a `ByteBuffer` of the message, which fails for one without a buffer. -/
def findData (msg : Message) (index : Nat) : Option (List UInt8) :=
  msg[index]?.bind ByteBuffer.getBuffer

/-- The gateway, as far as it sends. -/
structure Sending where
  outgoing : List Message
  sendMsg : Option Message
  sendBuf : List UInt8
  sendBufLength : Int
  sendBufIndex : Int
  sendBufByteOffset : Int

/-- What `DoOutputImplementation` leaves: the gateway, the bytes that `Write` has taken, and their number, with nothing
for -1. -/
structure Sent where
  gateway : Sending
  bytes : List UInt8
  ret : Option Nat

namespace Sending

/-- The next message of the queue, if there is no message. -/
def withMessage (g : Sending) : Sending :=
  match g.sendMsg with
  | some _ => g
  | none =>
    { g with
      sendMsg := g.outgoing.head?, outgoing := g.outgoing.tail, sendBufLength := -1, sendBufIndex := -1,
      sendBufByteOffset := -1 }

/-- The next chunk of the message, if nothing of a chunk is left, and no message behind the last one. -/
def withChunk (g : Sending) (msg : Message) : Sending :=
  if g.sendBufByteOffset < 0 ∨ g.sendBufLength ≤ g.sendBufByteOffset then
    let index := g.sendBufIndex + 1
    match findData msg index.toNat with
    | some buf =>
      { g with sendBuf := buf, sendBufLength := int32 buf.length, sendBufIndex := index, sendBufByteOffset := 0 }
    | none => { g with sendMsg := none, sendBufIndex := index }
  else g

/-- How often `DoOutputImplementation` can go on to the next message. -/
def messages (g : Sending) : Nat :=
  2 * g.outgoing.length + g.sendMsg.toList.length

@[simp] theorem outgoing_withChunk (g : Sending) (msg : Message) : (g.withChunk msg).outgoing = g.outgoing := by
  unfold withChunk
  split
  · dsimp only
    split <;> rfl
  · rfl

theorem messages_withChunk_lt {g : Sending} {msg : Message} (h : g.withMessage.sendMsg = some msg)
    (hEnd : (g.withMessage.withChunk msg).sendMsg = none) : (g.withMessage.withChunk msg).messages < g.messages := by
  unfold messages
  rw [outgoing_withChunk, hEnd]
  unfold withMessage at h ⊢
  cases hMsg : g.sendMsg with
  | some msg => simp
  | none =>
    rw [hMsg] at h
    cases hQueue : g.outgoing with
    | nil =>
      rw [hQueue] at h
      cases h
    | cons msg queue => simp

def doOutput (g : Sending) (answers : List Int) (maxBytes : Nat) : Sent :=
  match _ : g.withMessage.sendMsg with
  | none => ⟨g.withMessage, [], some 0⟩
  | some msg =>
    let next := g.withMessage.withChunk msg
    if _ : next.sendMsg = none then next.doOutput answers maxBytes
    else if 0 ≤ next.sendBufByteOffset ∧ next.sendBufByteOffset < next.sendBufLength then
      match answers with
      | [] => ⟨next, [], some 0⟩
      | answer :: answers =>
        if answer < 0 then ⟨next, [], none⟩
        else
          let bytesWritten :=
            min answer.toNat (min maxBytes (uint32 (next.sendBufLength - next.sendBufByteOffset)))
          if 0 < bytesWritten then
            let bytes := (next.sendBuf.drop next.sendBufByteOffset.toNat).take bytesWritten
            let sub := doOutput { next with sendBufByteOffset := next.sendBufByteOffset + bytesWritten } answers
              (maxBytes - bytesWritten)
            ⟨sub.gateway, bytes ++ sub.bytes, sub.ret.map (bytesWritten + ·)⟩
          else ⟨next, [], some 0⟩
    else ⟨next, [], some 0⟩
  termination_by (answers.length, g.messages)
  decreasing_by
  · exact Prod.Lex.right _ (messages_withChunk_lt ‹_› ‹_›)
  · exact Prod.Lex.left _ _ (Nat.lt_succ_self _)

end Sending

/-! ### What is to be sent -/

/-- No chunk of the message has a size that an `int32` does not hold, and no bytes stand behind a chunk without a
buffer. -/
structure Sendable (msg : Message) : Prop where
  small : ∀ b ∈ msg, b.bytes.length < 2 ^ 31
  buffers : ∀ i b, msg[i]? = some b → b.getBuffer = none → (msg.drop i).flatMap ByteBuffer.bytes = []

/-- The concatenation of all data chunks. -/
def allBytes (msgs : List Message) : List UInt8 :=
  msgs.flatMap fun msg => msg.flatMap ByteBuffer.bytes

def allChunks (msgs : List Message) : Nat :=
  (msgs.map List.length).sum

variable {msg : Message} {g : Sending} {bytes rest : List UInt8} {begun chunks : Nat}

theorem Sendable.findData_none (h : Sendable msg) {i : Nat} (hNone : findData msg i = none) :
    (msg.drop i).flatMap ByteBuffer.bytes = [] := by
  unfold findData at hNone
  cases hChunk : msg[i]? with
  | none => rw [List.drop_eq_nil_of_le (List.getElem?_eq_none_iff.mp hChunk), List.flatMap_nil]
  | some b =>
    rw [hChunk, Option.bind_some] at hNone
    exact h.buffers i b hChunk hNone

theorem findData_some {buf : List UInt8} {i : Nat} (h : findData msg i = some buf) :
    ∃ b ∈ msg, b.bytes = buf ∧ i < msg.length ∧
      (msg.drop i).flatMap ByteBuffer.bytes = buf ++ (msg.drop (i + 1)).flatMap ByteBuffer.bytes := by
  unfold findData at h
  obtain ⟨b, hChunk, hBuffer⟩ := Option.bind_eq_some_iff.mp h
  obtain ⟨hi, rfl⟩ := List.getElem?_eq_some_iff.mp hChunk
  refine ⟨msg[i], List.getElem_mem hi, ByteBuffer.bytes_eq_of_getBuffer hBuffer, hi, ?_⟩
  rw [List.drop_eq_getElem_cons hi, List.flatMap_cons, ByteBuffer.bytes_eq_of_getBuffer hBuffer]

namespace Sending

/-- The gateway has begun this many chunks of the message, and `rest` is left of the last one. -/
structure At (g : Sending) (msg : Message) (rest : List UInt8) (begun : Nat) : Prop where
  sendable : Sendable msg
  index : g.sendBufIndex = (begun : Int) - 1
  rest : (g.sendBufByteOffset = -1 ∧ rest = []) ∨
    ∃ offset ≤ g.sendBuf.length, g.sendBufByteOffset = (offset : Nat) ∧ g.sendBufLength = (g.sendBuf.length : Nat) ∧
      g.sendBuf.length < 2 ^ 31 ∧ rest = g.sendBuf.drop offset

/-- These bytes are to be sent, and this many chunks are not begun. -/
structure Holds (g : Sending) (bytes : List UInt8) (chunks : Nat) : Prop where
  outgoing : ∀ msg ∈ g.outgoing, Sendable msg
  msg : (g.sendMsg = none ∧ bytes = allBytes g.outgoing ∧ chunks = allChunks g.outgoing) ∨
    ∃ msg rest begun, g.sendMsg = some msg ∧ g.At msg rest begun ∧
      bytes = rest ++ (msg.drop begun).flatMap ByteBuffer.bytes ++ allBytes g.outgoing ∧
      chunks = (msg.length - begun) + allChunks g.outgoing

theorem Holds.withMessage (h : g.Holds bytes chunks) :
    g.withMessage.Holds bytes chunks ∧ (g.withMessage.sendMsg = none → bytes = []) := by
  obtain ⟨hQueue, ⟨hNone, rfl, rfl⟩ | hSome⟩ := h
  · unfold Sending.withMessage
    rw [hNone]
    cases hOutgoing : g.outgoing with
    | nil =>
      refine ⟨⟨?_, .inl ⟨rfl, rfl, rfl⟩⟩, fun _ => rfl⟩
      intro msg hMem
      cases hMem
    | cons msg queue =>
      rw [hOutgoing] at hQueue
      refine ⟨⟨fun msg hMsg => hQueue msg (List.mem_cons_of_mem _ hMsg), .inr ⟨msg, [], 0, rfl, ?_, rfl, rfl⟩⟩,
        fun hNot => nomatch hNot⟩
      exact ⟨hQueue msg List.mem_cons_self, rfl, .inl ⟨rfl, rfl⟩⟩
  · obtain ⟨msg, rest, begun, hMsg, hAt⟩ := hSome
    unfold Sending.withMessage
    rw [hMsg]
    refine ⟨⟨hQueue, .inr ⟨msg, rest, begun, hMsg, hAt⟩⟩, fun hNot => ?_⟩
    rw [hMsg] at hNot
    cases hNot

/-- There is something to write, or a chunk is begun, or the message is done. -/
theorem Holds.withChunk (h : g.Holds bytes chunks) (hMsg : g.sendMsg = some msg) :
    ∃ chunks' ≤ chunks, (g.withChunk msg).Holds bytes chunks' ∧
      ((g.withChunk msg).sendMsg = none ∨ chunks' < chunks ∨
        (0 ≤ (g.withChunk msg).sendBufByteOffset ∧
        (g.withChunk msg).sendBufByteOffset < (g.withChunk msg).sendBufLength)) := by
  obtain ⟨hQueue, ⟨hNone, -⟩ | ⟨msg', rest, begun, hMsg', hAt, rfl, rfl⟩⟩ := h
  · rw [hMsg] at hNone
    cases hNone
  · obtain rfl : msg = msg' := Option.some.inj (hMsg.symm.trans hMsg')
    have hIndex : (g.sendBufIndex + 1).toNat = begun := by
      rw [hAt.index]
      omega
    unfold Sending.withChunk
    by_cases hOver : g.sendBufByteOffset < 0 ∨ g.sendBufLength ≤ g.sendBufByteOffset
    · rw [if_pos hOver]
      have hRest : rest = [] := by
        obtain ⟨-, hRest⟩ | ⟨offset, hLe, hOffset, hLength, -, hRest⟩ := hAt.rest
        · exact hRest
        · rw [hRest]
          exact List.drop_eq_nil_of_le (by omega)
      dsimp only
      rw [hIndex, hRest]
      cases hFind : findData msg begun with
      | none =>
        refine ⟨allChunks g.outgoing, Nat.le_add_left _ _, ⟨hQueue, .inl ⟨rfl, ?_, rfl⟩⟩, .inl rfl⟩
        rw [hAt.sendable.findData_none hFind]
        rfl
      | some buf =>
        obtain ⟨b, hMem, rfl, hBegun, hBytes⟩ := findData_some hFind
        have hSmall := hAt.sendable.small b hMem
        refine ⟨msg.length - (begun + 1) + allChunks g.outgoing, by omega, ⟨hQueue, .inr ⟨msg, b.bytes, begun + 1, hMsg,
          ⟨hAt.sendable, ?_, .inr ⟨0, Nat.zero_le _, rfl, ?_, hSmall, rfl⟩⟩, ?_, rfl⟩⟩, .inr (.inl ?_)⟩
        · dsimp only
          rw [hAt.index]
          omega
        · dsimp only
          exact int32_of_lt hSmall
        · rw [hBytes]
          rfl
        · omega
    · rw [if_neg hOver]
      refine ⟨_, Nat.le_refl _, ⟨hQueue, .inr ⟨msg, rest, begun, hMsg, hAt, rfl, rfl⟩⟩, .inr (.inr ?_)⟩
      omega

/-- What is left of the chunk comes first, and may be written in any part. -/
theorem Holds.chunk (h : g.Holds bytes chunks) (hMsg : g.sendMsg ≠ none)
    (hLeft : 0 ≤ g.sendBufByteOffset ∧ g.sendBufByteOffset < g.sendBufLength) :
    0 < uint32 (g.sendBufLength - g.sendBufByteOffset) ∧
      ∀ n ≤ uint32 (g.sendBufLength - g.sendBufByteOffset), ∃ bytes',
        bytes = (g.sendBuf.drop g.sendBufByteOffset.toNat).take n ++ bytes' ∧
          ((g.sendBuf.drop g.sendBufByteOffset.toNat).take n).length = n ∧
            Holds { g with sendBufByteOffset := g.sendBufByteOffset + n } bytes' chunks := by
  obtain ⟨hQueue, ⟨hNone, -⟩ | ⟨msg, rest, begun, hMsg', hAt, rfl, rfl⟩⟩ := h
  · exact absurd hNone hMsg
  · obtain ⟨hBegin, -⟩ | ⟨offset, hLe, hOffset, hLength, hSmall, rfl⟩ := hAt.rest
    · omega
    · have hRoom : uint32 (g.sendBufLength - g.sendBufByteOffset) = g.sendBuf.length - offset := by
        rw [hLength, hOffset, ← Int.natCast_sub hLe, uint32_of_lt (by omega)]
      have hAtNat : g.sendBufByteOffset.toNat = offset := by omega
      rw [hRoom, hAtNat]
      refine ⟨by omega, fun n hn => ?_⟩
      refine ⟨g.sendBuf.drop (offset + n) ++ (msg.drop begun).flatMap ByteBuffer.bytes ++ allBytes g.outgoing, ?_, ?_,
        hQueue, .inr ⟨msg, _, begun, hMsg', ⟨hAt.sendable, hAt.index, .inr ⟨offset + n, ?_, ?_, hLength, hSmall, rfl⟩⟩,
          rfl, rfl⟩⟩
      · rw [← List.drop_drop, ← List.append_assoc, ← List.append_assoc, List.take_append_drop]
      · rw [List.length_take, List.length_drop]
        omega
      · dsimp only
        omega
      · dsimp only
        rw [hOffset, Int.natCast_add]

/-- There is a limit above zero, and the first `Write` takes something. -/
def productive (answers : List Int) (maxBytes : Nat) : Bool :=
  answers.head?.any fun answer => decide (0 < answer) && decide (0 < maxBytes)

theorem productive_cons {answer : Int} {answers : List Int} {maxBytes : Nat}
    (h : productive (answer :: answers) maxBytes = true) : 0 < answer ∧ 0 < maxBytes := by
  rwa [productive, List.head?_cons, Option.any_some, Bool.and_eq_true, decide_eq_true_eq, decide_eq_true_eq] at h

/-- A call writes the next bytes. If it can write, there is less to do afterwards. -/
theorem holds_doOutput (g : Sending) (answers : List Int) (maxBytes : Nat) (h : g.Holds bytes chunks) :
    ∃ bytes' chunks', bytes = (g.doOutput answers maxBytes).bytes ++ bytes' ∧
      (g.doOutput answers maxBytes).gateway.Holds bytes' chunks' ∧ chunks' ≤ chunks ∧
        (productive answers maxBytes = true → bytes' = [] ∨ bytes'.length + chunks' < bytes.length + chunks) := by
  fun_induction Sending.doOutput g answers maxBytes generalizing bytes chunks with
  | case1 =>
    rename_i g answers maxBytes hNone
    obtain ⟨hHolds, hDone⟩ := h.withMessage
    exact ⟨bytes, chunks, rfl, hHolds, Nat.le_refl _, fun _ => .inl (hDone hNone)⟩
  | case2 =>
    rename_i g answers maxBytes msg hMsg next hEnd ih
    obtain ⟨chunks', hChunks, hHolds, -⟩ := h.withMessage.1.withChunk hMsg
    obtain ⟨bytes', chunks'', hBytes, hHolds', hLe, hProgress⟩ := ih hHolds
    refine ⟨bytes', chunks'', hBytes, hHolds', Nat.le_trans hLe hChunks, fun hProductive => ?_⟩
    exact (hProgress hProductive).imp_right fun hLess => by omega
  | case3 =>
    rename_i g maxBytes msg hMsg next hEnd hLeft
    obtain ⟨chunks', hChunks, hHolds, -⟩ := h.withMessage.1.withChunk hMsg
    exact ⟨bytes, chunks', rfl, hHolds, hChunks, fun hProductive => nomatch hProductive⟩
  | case4 =>
    rename_i g maxBytes msg hMsg next hEnd hLeft answer answers hFails
    obtain ⟨chunks', hChunks, hHolds, -⟩ := h.withMessage.1.withChunk hMsg
    refine ⟨bytes, chunks', rfl, hHolds, hChunks, fun hProductive => ?_⟩
    have hAnswer := (productive_cons hProductive).1
    omega
  | case5 =>
    rename_i g maxBytes msg hMsg next hEnd hLeft answer answers hAnswer bytesWritten hWritten written sub ih
    obtain ⟨chunks', hChunks, hHolds, -⟩ := h.withMessage.1.withChunk hMsg
    change next.Holds bytes chunks' at hHolds
    obtain ⟨-, hWrite⟩ := hHolds.chunk hEnd hLeft
    obtain ⟨later, rfl, hLong, hHolds'⟩ := hWrite bytesWritten (by omega)
    obtain ⟨bytes', chunks'', rfl, hSub, hLe, -⟩ := ih hHolds'
    refine ⟨bytes', chunks'', (List.append_assoc _ _ _).symm, hSub, Nat.le_trans hLe hChunks, fun _ => .inr ?_⟩
    rw [List.length_append, List.length_append, hLong]
    omega
  | case6 =>
    rename_i g maxBytes msg hMsg next hEnd hLeft answer answers hAnswer bytesWritten hWritten
    obtain ⟨chunks', hChunks, hHolds, -⟩ := h.withMessage.1.withChunk hMsg
    change next.Holds bytes chunks' at hHolds
    obtain ⟨hRoom, -⟩ := hHolds.chunk hEnd hLeft
    refine ⟨bytes, chunks', rfl, hHolds, hChunks, fun hProductive => ?_⟩
    obtain ⟨hPos, hLimit⟩ := productive_cons hProductive
    omega
  | case7 =>
    rename_i g answers maxBytes msg hMsg next hEnd hLeft
    obtain ⟨chunks', hChunks, hHolds, hProgress⟩ := h.withMessage.1.withChunk hMsg
    refine ⟨bytes, chunks', rfl, hHolds, hChunks, fun _ => .inr ?_⟩
    have hLess := (hProgress.resolve_left hEnd).resolve_right hLeft
    omega

/-! ### All calls -/

def new : Sending :=
  ⟨[], none, [], 0, 0, 0⟩

/-- What is done with the gateway: `AddOutgoingMessage` and `DoOutput`. -/
inductive Op where
  | addOutgoingMessage (msg : Message)
  | doOutput (answers : List Int) (maxBytes : Nat)

/-- The gateway afterwards, and the bytes that are written. -/
def step (g : Sending) : Op → Sending × List UInt8
  | .addOutgoingMessage msg => ({ g with outgoing := g.outgoing ++ [msg] }, [])
  | .doOutput answers maxBytes => ((g.doOutput answers maxBytes).gateway, (g.doOutput answers maxBytes).bytes)

def run (g : Sending) : List Op → Sending × List UInt8
  | [] => (g, [])
  | op :: ops => (((g.step op).1.run ops).1, (g.step op).2 ++ ((g.step op).1.run ops).2)

/-- The messages that are queued. -/
def queued (ops : List Op) : List Message :=
  ops.filterMap fun op =>
    match op with
    | .addOutgoingMessage msg => some msg
    | .doOutput _ _ => none

theorem holds_new : new.Holds [] 0 where
  outgoing _ hNone := nomatch hNone
  msg := .inl ⟨rfl, rfl, rfl⟩

theorem allBytes_append (msgs msgs' : List Message) : allBytes (msgs ++ msgs') = allBytes msgs ++ allBytes msgs' :=
  List.flatMap_append

theorem allChunks_append (msgs msgs' : List Message) :
    allChunks (msgs ++ msgs') = allChunks msgs + allChunks msgs' := by
  rw [allChunks, List.map_append, List.sum_append_nat, ← allChunks, ← allChunks]

theorem Holds.addOutgoingMessage (h : g.Holds bytes chunks) (hMsg : Sendable msg) :
    (g.step (.addOutgoingMessage msg)).1.Holds (bytes ++ allBytes [msg]) (chunks + allChunks [msg]) := by
  obtain ⟨hQueue, hSending⟩ := h
  refine ⟨fun msg' hMem => ?_, ?_⟩
  · rcases List.mem_append.mp hMem with hMem | hMem
    · exact hQueue msg' hMem
    · rw [List.mem_singleton.mp hMem]
      exact hMsg
  · unfold step
    dsimp only
    rw [allBytes_append, allChunks_append]
    rcases hSending with ⟨hNone, rfl, rfl⟩ | ⟨msg', rest, begun, hMsg', hAt, rfl, rfl⟩
    · exact .inl ⟨hNone, rfl, rfl⟩
    · refine .inr ⟨msg', rest, begun, hMsg', ⟨hAt.sendable, hAt.index, hAt.rest⟩, ?_, Nat.add_assoc _ _ _⟩
      simp only [List.append_assoc]

theorem run_append (g : Sending) (ops ops' : List Op) :
    (g.run (ops ++ ops')).2 = (g.run ops).2 ++ ((g.run ops).1.run ops').2 := by
  induction ops generalizing g with
  | nil => rfl
  | cons op ops ih =>
    change (g.step op).2 ++ ((g.step op).1.run (ops ++ ops')).2 = _
    rw [ih, ← List.append_assoc]
    rfl

/-- A run writes the first bytes of what there was to send and of what is queued. -/
theorem holds_run {ops : List Op} (h : g.Holds bytes chunks) (hSendable : ∀ msg ∈ queued ops, Sendable msg) :
    ∃ bytes' chunks', bytes ++ allBytes (queued ops) = (g.run ops).2 ++ bytes' ∧ (g.run ops).1.Holds bytes' chunks' ∧
      chunks' ≤ chunks + allChunks (queued ops) := by
  induction ops generalizing g bytes chunks with
  | nil => exact ⟨bytes, chunks, List.append_nil _, h, Nat.le_add_right _ _⟩
  | cons op ops ih =>
    cases op with
    | addOutgoingMessage msg =>
      have hQueued : queued (.addOutgoingMessage msg :: ops) = [msg] ++ queued ops := rfl
      rw [hQueued] at hSendable ⊢
      obtain ⟨bytes', chunks', hBytes, hHolds, hChunks⟩ :=
        ih (h.addOutgoingMessage (hSendable msg List.mem_cons_self)) fun m hm => hSendable m (List.mem_cons_of_mem _ hm)
      refine ⟨bytes', chunks', ?_, hHolds, ?_⟩
      · rw [allBytes_append, ← List.append_assoc, hBytes]
        rfl
      · rw [allChunks_append, ← Nat.add_assoc]
        exact hChunks
    | doOutput answers maxBytes =>
      obtain ⟨bytes₁, chunks₁, rfl, hCall, hLe, -⟩ := holds_doOutput g answers maxBytes h
      obtain ⟨bytes', chunks', hBytes, hHolds, hChunks⟩ := ih hCall hSendable
      refine ⟨bytes', chunks', ?_, hHolds, ?_⟩
      · change _ ++ bytes₁ ++ allBytes (queued ops) = (g.doOutput answers maxBytes).bytes ++ _ ++ bytes'
        rw [List.append_assoc, hBytes, ← List.append_assoc]
        rfl
      · exact Nat.le_trans hChunks (Nat.add_le_add_right hLe _)

/-- One call of `DoOutput` after another. -/
def outputs (calls : List (List Int × Nat)) : List Op :=
  calls.map fun call => .doOutput call.1 call.2

theorem queued_outputs (calls : List (List Int × Nat)) : queued (outputs calls) = [] := by
  induction calls with
  | nil => rfl
  | cons call calls ih => exact ih

theorem Holds.outputs_nil (h : g.Holds [] chunks) (calls : List (List Int × Nat)) : (g.run (outputs calls)).2 = [] := by
  have hNone : ∀ msg ∈ queued (outputs calls), Sendable msg := by
    rw [queued_outputs]
    exact fun _ hMem => nomatch hMem
  obtain ⟨bytes', -, hBytes, -⟩ := holds_run h hNone
  rw [queued_outputs] at hBytes
  exact (List.append_eq_nil_iff.mp hBytes.symm).1

/-- If calls enough can write, they write all. -/
theorem Holds.drain {calls : List (List Int × Nat)} (h : g.Holds bytes chunks)
    (hCalls : bytes.length + chunks ≤ calls.countP fun call => productive call.1 call.2) :
    (g.run (outputs calls)).2 = bytes := by
  induction calls generalizing g bytes chunks with
  | nil =>
    rw [List.countP_nil] at hCalls
    have hNone : bytes = [] := List.eq_nil_of_length_eq_zero (by omega)
    rw [hNone]
    rfl
  | cons call calls ih =>
    obtain ⟨bytes', chunks', rfl, hCall, hLe, hProgress⟩ := holds_doOutput g call.1 call.2 h
    change (g.doOutput call.1 call.2).bytes ++ ((g.doOutput call.1 call.2).gateway.run (outputs calls)).2 = _
    rw [List.countP_cons, List.length_append] at hCalls
    rw [List.length_append] at hProgress
    by_cases hNone : bytes' = []
    · subst hNone
      rw [hCall.outputs_nil]
    · rw [ih hCall]
      split at hCalls
      · have hLess := (hProgress ‹_›).resolve_left hNone
        omega
      · omega

end Sending

/-- What is read is delivered or pending, in chunks of the minimum size. What is queued is written in order, and all of
it by calls enough that can write. -/
structure LosesNothing (minChunkSize maxChunkSize : Nat) (stream : List UInt8) (inputs : List (List Answer × Nat))
    (ops : List Sending.Op) : Prop where
  input : ∃ r, (Receiving.new minChunkSize maxChunkSize).doInputs stream inputs = some r ∧
    r.chunks.flatten ++ r.gateway.pending ++ r.stream = stream ∧
      (0 < minChunkSize → ∀ chunk ∈ r.chunks, chunk.length = minChunkSize)
  output : (Sending.new.run ops).2 <+: allBytes (Sending.queued ops)
  finished : ∀ calls : List (List Int × Nat),
    (allBytes (Sending.queued ops)).length + allChunks (Sending.queued ops) ≤
        calls.countP (fun call => Sending.productive call.1 call.2) →
      (Sending.new.run (ops ++ Sending.outputs calls)).2 = allBytes (Sending.queued ops)

/-- The minimum size and the chunks are below `2 ^ 31`, and no bytes stand behind a chunk without a buffer. -/
theorem losesNothing {minChunkSize : Nat} (maxChunkSize : Nat) (hMinimum : minChunkSize < 2 ^ 31) (stream : List UInt8)
    (inputs : List (List Answer × Nat)) {ops : List Sending.Op}
    (hSendable : ∀ msg ∈ Sending.queued ops, Sendable msg) :
    LosesNothing minChunkSize maxChunkSize stream inputs ops := by
  obtain ⟨bytes', chunks', hBytes, hHolds, hChunks⟩ := Sending.holds_run Sending.holds_new hSendable
  rw [List.nil_append] at hBytes
  rw [Nat.zero_add] at hChunks
  refine ⟨?_, ⟨bytes', hBytes.symm⟩, fun calls hCalls => ?_⟩
  · obtain ⟨r, hRun, hKeeps⟩ := Receiving.keeps_doInputs stream (Receiving.valid_new hMinimum maxChunkSize) inputs
    exact ⟨r, hRun, hKeeps.bytes.symm, hKeeps.chunks⟩
  · rw [Sending.run_append, hBytes, hHolds.drain]
    rw [hBytes, List.length_append] at hCalls
    omega

theorem Sendable.of_getBuffer (hSmall : ∀ b ∈ msg, b.bytes.length < 2 ^ 31) (hBuffers : ∀ b ∈ msg, b.getBuffer ≠ none) :
    Sendable msg where
  small := hSmall
  buffers i b hChunk hNone := by
    obtain ⟨hi, rfl⟩ := List.getElem?_eq_some_iff.mp hChunk
    exact absurd hNone (hBuffers _ (List.getElem_mem hi))

/-- A message with an empty chunk that has a buffer, and one without chunks. -/
theorem losesNothing_emptyChunk :
    LosesNothing 2 4 [1, 2, 3] [([⟨1, false⟩], 8), ([⟨5, false⟩, ⟨5, false⟩], 8)]
      [.addOutgoingMessage [⟨[7], 0, by decide⟩, ⟨[], 5, by decide⟩, ⟨[8], 0, by decide⟩], .doOutput [1] 8,
        .addOutgoingMessage []] := by
  refine losesNothing 4 (by decide) [1, 2, 3] _ fun msg hMsg => ?_
  rcases List.mem_pair.mp hMsg with rfl | rfl
  · exact .of_getBuffer (by decide) (by decide)
  · exact .of_getBuffer (by decide) (by decide)

/-- Behind an empty chunk without a buffer the message is taken for done, and the next message follows. -/
theorem not_losesNothing :
    ¬∀ (minChunkSize maxChunkSize : Nat) (stream : List UInt8) (inputs : List (List Answer × Nat))
      (ops : List Sending.Op),
      minChunkSize < 2 ^ 32 → 0 < maxChunkSize → LosesNothing minChunkSize maxChunkSize stream inputs ops := by
  intro h
  have hPrefix := (h 0 1 [] [] [.addOutgoingMessage [⟨[], 0, by decide⟩, ⟨[7], 0, by decide⟩],
    .addOutgoingMessage [⟨[8], 0, by decide⟩], .doOutput [1] 8] (by decide) (by decide)).output
  have hWritten : (Sending.new.run [.addOutgoingMessage [⟨[], 0, by decide⟩, ⟨[7], 0, by decide⟩],
    .addOutgoingMessage [⟨[8], 0, by decide⟩], .doOutput [1] 8]).2 = [8] := by
    have hInt : int32 1 = 1 := by decide
    have hUint : uint32 1 = 1 := by decide
    simp only [Sending.run, Sending.step, Sending.new]
    -- the first message goes away, the second is written and then found to be done
    iterate 4
      rw [Sending.doOutput]
      simp [Sending.withMessage, Sending.withChunk, findData, ByteBuffer.getBuffer, ByteBuffer.numAllocatedBytes, hInt,
        hUint]
  rw [hWritten] at hPrefix
  exact absurd hPrefix (by decide)

end BeShare.Muscle.RawData
