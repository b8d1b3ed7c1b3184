import BeShare.Lib.Loops
import BeShare.MiniMessage.Gateway

/-!
The loops of `MGDoOutput` and `MGDoInput` over a transport of their own, and when they return. The transport is a
state, which the calls of its function change, and sends or receives at most what it is asked to.
-/

namespace BeShare.Muscle

open BeShare.Lib

variable {τ : Type}

/-- An `MGSendFunc`: it fails, or says how many of the bytes it took. -/
structure SendFunc (τ : Type) where
  send : τ → List UInt8 → UInt32 → Option UInt32 × τ
  atMost : ∀ arg bytes numBytes sent, (send arg bytes numBytes).1 = some sent → sent ≤ numBytes ∧ sent.toNat < 2 ^ 31

/-- An `MGReceiveFunc`, with the memory that there is for a turn of the loop. -/
structure RecvFunc (τ : Type) where
  recv : τ → UInt32 → Reception × τ

/-- The transport when it was asked to send nothing. -/
def SendFunc.afterNothing (sendFunc : SendFunc τ) (arg : τ) : τ :=
  (sendFunc.send arg [] 0).2

/-- It fails when it is asked to send nothing. -/
def SendFunc.FailsOnNothing (sendFunc : SendFunc τ) (arg : τ) : Prop :=
  (sendFunc.send arg [] 0).1 = none

/-- The transport when it was asked to receive nothing. -/
def RecvFunc.afterNothing (recvFunc : RecvFunc τ) (arg : τ) : τ :=
  (recvFunc.recv arg 0).2

/-- It fails when it is asked to receive nothing. -/
def RecvFunc.FailsOnNothing (recvFunc : RecvFunc τ) (arg : τ) : Prop :=
  (recvFunc.recv arg 0).1.chunk = none

/-- A buffer that waits to be sent. Its bytes begin with the room for the pointer to the next one. -/
structure MByteBuffer where
  numBytes : UInt32
  bytes : List UInt8

/-- `MGDoOutput` between two turns of its loop: the list of buffers, where it is in the first one, what may still be
sent, and what was sent. -/
structure GatewayOutput (τ : Type) where
  curOutput : List MByteBuffer
  curOutputPos : UInt32
  maxBytes : UInt32
  totalSent : UInt32
  arg : τ

namespace GatewayOutput

variable (sendFunc : SendFunc τ) (pointerSize : UInt32)

def bytesToSend (s : GatewayOutput τ) (buf : MByteBuffer) : UInt32 :=
  let bytesToSend := buf.numBytes - s.curOutputPos
  if bytesToSend > s.maxBytes then s.maxBytes else bytesToSend

/-- What happens to the counters and the list when bytes were sent. -/
def sent (s : GatewayOutput τ) (buf : MByteBuffer) (rest : List MByteBuffer) (bytesSent : UInt32) : GatewayOutput τ :=
  let s :=
    { s with
      totalSent := s.totalSent + bytesSent
      maxBytes := s.maxBytes - bytesSent
      curOutputPos := s.curOutputPos + bytesSent }
  if s.curOutputPos = buf.numBytes then { s with curOutput := rest, curOutputPos := pointerSize } else s

/-- A turn of the loop. The call returns -1 if the second component is false. -/
def turn (s : GatewayOutput τ) : (GatewayOutput τ × Bool) ⊕ GatewayOutput τ :=
  match s.curOutput with
  | [] => .inl (s, true)
  | buf :: rest =>
    let bytesToSend := s.bytesToSend buf
    let bytes := (buf.bytes.drop s.curOutputPos.toNat).take bytesToSend.toNat
    let (answer, arg) := sendFunc.send s.arg bytes bytesToSend
    let s := { s with arg := arg }
    match answer with
    | none => .inl (s, false)
    | some bytesSent =>
      let s := s.sent pointerSize buf rest bytesSent
      -- short write indicates that the output buffer is full for now
      if bytesSent < bytesToSend then .inl (s, true) else .inr s

/-- `MGDoOutput` when it begins. -/
def start (curOutput : List MByteBuffer) (curOutputPos maxBytes : UInt32) (arg : τ) : GatewayOutput τ :=
  ⟨curOutput, curOutputPos, maxBytes, 0, arg⟩

/-- Nothing more may be sent, but the first buffer was not sent to its end. -/
def UsedUp (s : GatewayOutput τ) : Prop :=
  s.maxBytes = 0 ∧ ∃ buf rest, s.curOutput = buf :: rest ∧ s.curOutputPos ≠ buf.numBytes

end GatewayOutput

/-- `MGDoInput` between two turns of its loop. -/
structure GatewayInput (τ : Type) where
  gw : MMessageGateway
  maxBytes : UInt32
  totalRecvd : UInt32
  arg : τ

namespace GatewayInput

variable (parses : List UInt8 → Bool) (recvFunc : RecvFunc τ) (wantsMessage : Bool)

/-- A turn of the loop. -/
def turn (s : GatewayInput τ) : (GatewayInput τ × InputEnd) ⊕ GatewayInput τ :=
  let (r, arg) := recvFunc.recv s.arg (s.gw.bytesToRecv s.maxBytes)
  let (gw, maxBytes, stop, _) := s.gw.inputTurn parses s.maxBytes wantsMessage r
  let s := { gw := gw, maxBytes := maxBytes, totalRecvd := s.totalRecvd + (s.maxBytes - maxBytes), arg := arg }
  match stop with
  | some stop => .inl (s, stop)
  | none => .inr s

/-- `MGDoInput` when it begins. -/
def start (gw : MMessageGateway) (maxBytes : UInt32) (arg : τ) : GatewayInput τ :=
  ⟨gw, maxBytes, 0, arg⟩

/-- Nothing more may be received, but the header or the frame is not complete. -/
def UsedUp (s : GatewayInput τ) : Prop :=
  s.maxBytes = 0 ∧ s.gw.curInputPos ≠ s.gw.maxInputPos

end GatewayInput

/-! ### Output -/

namespace GatewayOutput

variable {sendFunc : SendFunc τ} {pointerSize : UInt32} {s s' : GatewayOutput τ} {buf : MByteBuffer}
  {rest : List MByteBuffer} {bytesSent : UInt32}

theorem bytesToSend_le (s : GatewayOutput τ) (buf : MByteBuffer) : s.bytesToSend buf ≤ s.maxBytes := by
  unfold bytesToSend
  dsimp only
  split
  case isTrue h => exact UInt32.le_refl _
  case isFalse h => exact UInt32.not_lt.mp h

/-- Nothing is asked for if nothing more may be sent or nothing is left of the buffer. -/
theorem bytesToSend_eq_zero (h : s.bytesToSend buf = 0) : s.maxBytes = 0 ∨ s.curOutputPos = buf.numBytes := by
  unfold bytesToSend at h
  dsimp only at h
  split at h
  · exact .inl h
  · rw [← UInt32.sub_add_cancel buf.numBytes s.curOutputPos, h, UInt32.zero_add]
    exact .inr rfl

theorem bytesToSend_of_zero (h : s.maxBytes = 0) (buf : MByteBuffer) : s.bytesToSend buf = 0 := by
  have hLe := bytesToSend_le s buf
  rw [h] at hLe
  exact UInt32.le_zero_iff.mp hLe

theorem sent_counters (s : GatewayOutput τ) (pointerSize : UInt32) (buf : MByteBuffer) (rest : List MByteBuffer)
    (bytesSent : UInt32) : (s.sent pointerSize buf rest bytesSent).maxBytes = s.maxBytes - bytesSent ∧
      (s.sent pointerSize buf rest bytesSent).totalSent = s.totalSent + bytesSent ∧
      (s.sent pointerSize buf rest bytesSent).arg = s.arg := by
  unfold sent
  dsimp only
  split <;> exact ⟨rfl, rfl, rfl⟩

/-- What was sent and what may still be sent are what might be sent at first. -/
def Adds (maxBytes : UInt32) (s : GatewayOutput τ) : Prop :=
  s.totalSent.toNat + s.maxBytes.toNat = maxBytes.toNat

theorem Adds.sent {maxBytes : UInt32} (h : s.Adds maxBytes) (hSent : bytesSent ≤ s.maxBytes) :
    (s.sent pointerSize buf rest bytesSent).Adds maxBytes := by
  obtain ⟨hMax, hTotal, _⟩ := sent_counters s pointerSize buf rest bytesSent
  have hLe := UInt32.le_iff_toNat_le.mp hSent
  have hLimit := maxBytes.toNat_lt
  unfold Adds at h ⊢
  rw [hMax, hTotal, UInt32.toNat_sub_of_le _ _ hSent, UInt32.toNat_add, Nat.mod_eq_of_lt (by omega)]
  omega

/-- The loop goes on after a turn only if all that was asked for was sent. -/
theorem turn_next (h : s.turn sendFunc pointerSize = .inr s') : ∃ buf rest, s.curOutput = buf :: rest ∧
    s' = { s with arg := s'.arg }.sent pointerSize buf rest (s.bytesToSend buf) := by
  unfold turn at h
  cases hQueue : s.curOutput with
  | nil =>
    rw [hQueue] at h
    cases h
  | cons buf rest =>
    rw [hQueue] at h
    dsimp only at h
    generalize (buf.bytes.drop s.curOutputPos.toNat).take (s.bytesToSend buf).toNat = bytes at h
    have hMost := sendFunc.atMost s.arg bytes (s.bytesToSend buf)
    cases hAnswer : (sendFunc.send s.arg bytes (s.bytesToSend buf)).1 with
    | none =>
      rw [hAnswer] at h
      cases h
    | some bytesSent =>
      rw [hAnswer] at h
      dsimp only at h
      by_cases hShort : bytesSent < s.bytesToSend buf
      · rw [if_pos hShort] at h
        cases h
      · have hFull : bytesSent = s.bytesToSend buf :=
          UInt32.le_antisymm (hMost bytesSent hAnswer).1 (UInt32.not_lt.mp hShort)
        rw [if_neg hShort] at h
        subst hFull
        cases h
        refine ⟨buf, rest, rfl, ?_⟩
        rw [(sent_counters ..).2.2]

/-- A turn sends no more than may still be sent, also if it is the last one. -/
theorem Adds.turn {maxBytes : UInt32} (h : s.Adds maxBytes) (sendFunc : SendFunc τ) (pointerSize : UInt32) :
    ((s.turn sendFunc pointerSize).elim Prod.fst id).Adds maxBytes := by
  unfold GatewayOutput.turn
  cases hQueue : s.curOutput with
  | nil => exact h
  | cons buf rest =>
    dsimp only
    generalize (buf.bytes.drop s.curOutputPos.toNat).take (s.bytesToSend buf).toNat = bytes
    have hMost := sendFunc.atMost s.arg bytes (s.bytesToSend buf)
    cases hAnswer : (sendFunc.send s.arg bytes (s.bytesToSend buf)).1 with
    | none => exact h
    | some bytesSent =>
      have hSent : bytesSent ≤ s.maxBytes := UInt32.le_trans (hMost bytesSent hAnswer).1 (bytesToSend_le s buf)
      have hAfter (arg : τ) :
          ({ s with curOutput := buf :: rest, arg := arg }.sent pointerSize buf rest bytesSent).Adds maxBytes :=
        Adds.sent (s := { s with curOutput := buf :: rest, arg := arg }) h hSent
      dsimp only
      split <;> exact hAfter _

/-- Unless the bytes are used up, a turn after which the loop goes on sends some bytes or leaves a buffer. -/
theorem turn_measure (h : s.turn sendFunc pointerSize = .inr s') (hLeft : ¬s.UsedUp) :
    s'.maxBytes.toNat + s'.curOutput.length < s.maxBytes.toNat + s.curOutput.length := by
  obtain ⟨buf, rest, hQueue, hNext⟩ := turn_next h
  have hMost := bytesToSend_le s buf
  have hMax : s'.maxBytes = s.maxBytes - s.bytesToSend buf := by
    rw [hNext]
    exact (sent_counters ..).1
  rw [hMax, UInt32.toNat_sub_of_le _ _ hMost, hQueue, List.length_cons]
  have hLe := UInt32.le_iff_toNat_le.mp hMost
  by_cases hNothing : s.bytesToSend buf = 0
  · have hEnd : s.curOutputPos = buf.numBytes := by
      refine (bytesToSend_eq_zero hNothing).elim (fun hZero => ?_) id
      by_contra hMore
      exact hLeft ⟨hZero, buf, rest, hQueue, hMore⟩
    have hRest : s'.curOutput = rest := by
      rw [hNext, hNothing]
      unfold sent
      dsimp only
      rw [if_pos (by rw [hEnd, UInt32.add_zero])]
    rw [hRest]
    omega
  · have hSome : 0 < (s.bytesToSend buf).toNat :=
      Nat.pos_of_ne_zero fun hZero => hNothing (UInt32.toNat_inj.mp hZero)
    have hRest : s'.curOutput.length ≤ rest.length + 1 := by
      rw [hNext]
      unfold sent
      dsimp only
      split
      · exact Nat.le_succ _
      · exact (congrArg List.length hQueue).le
    omega

/-- When the bytes are used up, a turn asks for nothing, and the bytes stay used up. -/
theorem turn_usedUp (h : s.UsedUp) :
    (sendFunc.FailsOnNothing s.arg ∧ ∃ r, s.turn sendFunc pointerSize = .inl r) ∨
      ∃ s', ¬sendFunc.FailsOnNothing s.arg ∧ s.turn sendFunc pointerSize = .inr s' ∧ s'.UsedUp ∧
        s'.arg = sendFunc.afterNothing s.arg := by
  obtain ⟨hZero, buf, rest, hQueue, hMore⟩ := h
  have hNothing := bytesToSend_of_zero hZero buf
  have hMost := sendFunc.atMost s.arg [] 0
  unfold turn SendFunc.FailsOnNothing SendFunc.afterNothing
  rw [hQueue]
  dsimp only
  rw [hNothing, UInt32.toNat_zero, List.take_zero]
  cases hAnswer : (sendFunc.send s.arg [] 0).1 with
  | none => exact .inl ⟨rfl, _, rfl⟩
  | some bytesSent =>
    obtain rfl : bytesSent = 0 := UInt32.le_zero_iff.mp (hMost bytesSent hAnswer).1
    refine .inr ⟨_, nofun, if_neg (UInt32.lt_irrefl 0), ?_⟩
    have hSame : { s with curOutput := buf :: rest, arg := (sendFunc.send s.arg [] 0).2 }.sent pointerSize buf rest 0 =
        { s with curOutput := buf :: rest, arg := (sendFunc.send s.arg [] 0).2 } := by
      unfold sent
      dsimp only
      rw [UInt32.add_zero, UInt32.add_zero, UInt32.sub_zero, if_neg hMore]
    rw [hSame]
    exact ⟨⟨hZero, buf, rest, rfl, hMore⟩, rfl⟩

/-- `MGDoOutput` returns exactly if the transport fails on one of the empty requests that it gets when the bytes are
used up before the end of a buffer. It sends no more than it may. -/
theorem returns_iff (sendFunc : SendFunc τ) (pointerSize : UInt32) (curOutput : List MByteBuffer)
    (curOutputPos maxBytes : UInt32) (arg : τ) :
    (∃ r, EndsWith (turn sendFunc pointerSize) (start curOutput curOutputPos maxBytes arg) r ∧
        r.1.totalSent ≤ maxBytes) ↔
      ∀ s, ComesTo (turn sendFunc pointerSize) (start curOutput curOutputPos maxBytes arg) s → s.UsedUp →
        ∃ k, sendFunc.FailsOnNothing (sendFunc.afterNothing^[k] s.arg) := by
  have hHangs (s : GatewayOutput τ) (h : s.UsedUp) : (∃ r, EndsWith (turn sendFunc pointerSize) s r) ↔
      ∃ k, sendFunc.FailsOnNothing (sendFunc.afterNothing^[k] s.arg) := hangs_ends_iff (fun _ => turn_usedUp) h
  have hEnds : (∃ r, EndsWith (turn sendFunc pointerSize) (start curOutput curOutputPos maxBytes arg) r) ↔
      ∀ s, ComesTo (turn sendFunc pointerSize) (start curOutput curOutputPos maxBytes arg) s → s.UsedUp →
        ∃ r, EndsWith (turn sendFunc pointerSize) s r :=
    ends_iff_of_measure (fun s => s.maxBytes.toNat + s.curOutput.length) fun _ _ => turn_measure
  have hStart : (start curOutput curOutputPos maxBytes arg).Adds maxBytes := Nat.zero_add _
  constructor
  · rintro ⟨r, hr, _⟩ s hTo hUsedUp
    exact (hHangs s hUsedUp).mp (hEnds.mp ⟨r, hr⟩ s hTo hUsedUp)
  · intro h
    obtain ⟨r, hr⟩ := hEnds.mpr fun s hTo hUsedUp => (hHangs s hUsedUp).mpr (h s hTo hUsedUp)
    refine ⟨r, hr, ?_⟩
    refine hr.keeps (P := Adds maxBytes) (Q := fun r => r.1.totalSent ≤ maxBytes) (fun t t' hAdds hTurn => ?_)
      (fun t r hAdds hTurn => ?_) hStart
    · have hNext := hAdds.turn sendFunc pointerSize
      rwa [hTurn] at hNext
    · have hLast := hAdds.turn sendFunc pointerSize
      rw [hTurn] at hLast
      exact UInt32.le_iff_toNat_le.mpr (hLast ▸ Nat.le_add_right _ _)

end GatewayOutput

/-! ### Input -/

namespace MMessageGateway

variable {parses : List UInt8 → Bool} {gw after : MMessageGateway} {maxBytes left : UInt32} {wantsMessage : Bool}
  {r : Reception} {calls : List GatewayCall}

theorem bytesToRecv_le (gw : MMessageGateway) (maxBytes : UInt32) : gw.bytesToRecv maxBytes ≤ maxBytes := by
  unfold bytesToRecv
  dsimp only
  split
  case isTrue h => exact UInt32.le_refl _
  case isFalse h => exact UInt32.not_lt.mp h

theorem bytesToRecv_eq_zero (h : gw.bytesToRecv maxBytes = 0) : maxBytes = 0 ∨ gw.curInputPos = gw.maxInputPos := by
  unfold bytesToRecv at h
  dsimp only at h
  split at h
  · exact .inl h
  · rw [← UInt32.sub_add_cancel gw.maxInputPos gw.curInputPos, h, UInt32.zero_add]
    exact .inr rfl

theorem stored_length_le (gw : MMessageGateway) (maxBytes : UInt32) (chunk : List UInt8) :
    (gw.stored maxBytes chunk).length ≤ (gw.bytesToRecv maxBytes).toNat := by
  unfold stored
  rw [List.length_take]
  omega

theorem ofNat_stored_le (gw : MMessageGateway) (maxBytes : UInt32) (chunk : List UInt8) :
    UInt32.ofNat (gw.stored maxBytes chunk).length ≤ gw.bytesToRecv maxBytes := by
  have hLength := stored_length_le gw maxBytes chunk
  rw [UInt32.le_iff_toNat_le, UInt32.toNat_ofNat']
  exact (Nat.mod_le _ _).trans hLength

theorem inputTurn_left_le (gw : MMessageGateway) (parses : List UInt8 → Bool) (maxBytes : UInt32) (wantsMessage : Bool)
    (r : Reception) : (gw.inputTurn parses maxBytes wantsMessage r).2.1 ≤ maxBytes := by
  unfold inputTurn
  cases r.chunk with
  | none => exact UInt32.le_refl _
  | some chunk =>
    have hMost := UInt32.le_trans (ofNat_stored_le gw maxBytes chunk) (bytesToRecv_le gw maxBytes)
    rw [UInt32.le_iff_toNat_le]
    dsimp only
    rw [UInt32.toNat_sub_of_le _ _ hMost]
    exact Nat.sub_le _ _

/-- The loop goes on after a turn only if all that was asked for was received. -/
theorem inputTurn_next (h : gw.inputTurn parses maxBytes wantsMessage r = (after, left, none, calls)) :
    ∃ bytes, UInt32.ofNat bytes.length = gw.bytesToRecv maxBytes ∧ bytes.length ≤ (gw.bytesToRecv maxBytes).toNat ∧
      left = maxBytes - gw.bytesToRecv maxBytes ∧ after = ((gw.store bytes).received parses wantsMessage r).1 ∧
      ((gw.store bytes).received parses wantsMessage r).2.1 = none := by
  unfold inputTurn at h
  cases hChunk : r.chunk with
  | none =>
    rw [hChunk] at h
    cases h
  | some chunk =>
    rw [hChunk] at h
    dsimp only at h
    obtain ⟨hAfter, hLeft, hStop, _⟩ := Prod.mk.inj h |>.imp_right fun h => Prod.mk.inj h |>.imp_right Prod.mk.inj
    obtain ⟨hGoesOn, hLong⟩ := Option.or_eq_none_iff.mp hStop
    have hFull : UInt32.ofNat (gw.stored maxBytes chunk).length = gw.bytesToRecv maxBytes := by
      refine UInt32.le_antisymm (ofNat_stored_le gw maxBytes chunk) (UInt32.not_lt.mp fun hShort => ?_)
      rw [if_pos (decide_eq_true hShort)] at hLong
      cases hLong
    exact ⟨_, hFull, stored_length_le gw maxBytes chunk, by rw [← hLeft, hFull], hAfter.symm, hGoesOn⟩

theorem bodyReceived_next (h : (gw.bodyReceived parses wantsMessage r).2 = none) :
    (gw.bodyReceived parses wantsMessage r).1.curInputPos ≠ (gw.bodyReceived parses wantsMessage r).1.maxInputPos := by
  unfold bodyReceived at h ⊢
  dsimp only at h ⊢
  split at h
  · split at h
    · split at h
      · rw [if_pos ‹_›, if_pos ‹_›, if_pos ‹_›]
        exact (by decide : (0 : UInt32) ≠ 8)
      · cases h
    · rw [if_pos ‹_›, if_neg ‹_›]
      exact (by decide : (0 : UInt32) ≠ 8)
  · cases h

/-- A header that is not complete does not have the encoding. -/
theorem headerWord_encoding (h : (gw.headerWord 4).toNat = MESSAGE_ENCODING_DEFAULT) : 8 ≤ gw.bytes.length := by
  unfold headerWord MESSAGE_ENCODING_DEFAULT at h
  have hWord := leNat_lt ((gw.bytes.drop 4).take 4)
  by_contra hLess
  have hFew : ((gw.bytes.drop 4).take 4).length ≤ 3 := by
    rw [List.length_take, List.length_drop]
    omega
  have hSmall : 256 ^ ((gw.bytes.drop 4).take 4).length ≤ 256 ^ 3 := Nat.pow_le_pow_right (by decide) hFew
  rw [UInt32.toNat_ofNat'] at h
  have hMod := Nat.mod_le (leNat ((gw.bytes.drop 4).take 4)) (2 ^ 32)
  omega

theorem headerReceived_next (h : (gw.headerReceived r).2 = none) (hLength : gw.bytes.length ≤ gw.curInputPos.toNat)
    (hPos : ¬8 < gw.curInputPos) :
    (gw.headerReceived r).1.curInputPos ≠ (gw.headerReceived r).1.maxInputPos := by
  unfold headerReceived at h ⊢
  dsimp only at h ⊢
  by_cases hBad : gw.headerWord 0 = 0 ∨ (gw.headerWord 4).toNat ≠ MESSAGE_ENCODING_DEFAULT
  · rw [if_pos hBad] at h
    cases h
  · rw [if_neg hBad] at h ⊢
    obtain ⟨hBody, hEncoding⟩ := not_or.mp hBad
    have hEight : gw.curInputPos = 8 := by
      have hEnough := headerWord_encoding (not_not.mp hEncoding)
      have hLe := UInt32.le_iff_toNat_le.mp (UInt32.not_lt.mp hPos)
      rw [← UInt32.toNat_inj]
      exact Nat.le_antisymm hLe (hEnough.trans hLength)
    have hMore : gw.curInputPos ≠ gw.headerWord 0 + 8 := by
      intro hSame
      rw [hEight, eq_comm, ← UInt32.zero_add 8] at hSame
      exact hBody ((UInt32.add_left_inj 8).mp hSame)
    split at h
    · split at h
      · rw [if_pos ‹_›, if_pos ‹_›]
        exact hMore
      · cases h
    · rw [if_neg ‹_›]
      exact hMore

/-- A frame that is complete does not keep the loop. -/
theorem received_next (hFull : gw.curInputPos = gw.maxInputPos) (hLength : gw.bytes.length ≤ gw.curInputPos.toNat)
    (h : (gw.received parses wantsMessage r).2.1 = none) :
    (gw.received parses wantsMessage r).1.curInputPos ≠ (gw.received parses wantsMessage r).1.maxInputPos := by
  unfold received at h ⊢
  rw [if_pos hFull] at h ⊢
  by_cases hBody : 8 < gw.curInputPos
  · rw [if_pos hBody] at h ⊢
    exact bodyReceived_next h
  · rw [if_neg hBody] at h ⊢
    exact headerReceived_next h hLength hBody

end MMessageGateway

namespace GatewayInput

variable {parses : List UInt8 → Bool} {recvFunc : RecvFunc τ} {wantsMessage : Bool} {s s' : GatewayInput τ}

theorem bytesToRecv_of_zero (h : s.maxBytes = 0) : s.gw.bytesToRecv s.maxBytes = 0 := by
  have hLe := s.gw.bytesToRecv_le s.maxBytes
  rw [h] at hLe ⊢
  exact UInt32.le_zero_iff.mp hLe

/-- What was received and what may still be received are what might be received at first. -/
def Adds (maxBytes : UInt32) (s : GatewayInput τ) : Prop :=
  s.totalRecvd.toNat + s.maxBytes.toNat = maxBytes.toNat

/-- A turn receives no more than may still be received, also if it is the last one. -/
theorem Adds.turn {maxBytes : UInt32} (h : s.Adds maxBytes) (parses : List UInt8 → Bool) (recvFunc : RecvFunc τ)
    (wantsMessage : Bool) : ((s.turn parses recvFunc wantsMessage).elim Prod.fst id).Adds maxBytes := by
  unfold GatewayInput.turn
  dsimp only
  have hLess := s.gw.inputTurn_left_le parses s.maxBytes wantsMessage
    (recvFunc.recv s.arg (s.gw.bytesToRecv s.maxBytes)).1
  generalize s.gw.inputTurn parses s.maxBytes wantsMessage (recvFunc.recv s.arg (s.gw.bytesToRecv s.maxBytes)).1 = turn
    at hLess ⊢
  obtain ⟨gw, left, stop, calls⟩ := turn
  change left ≤ s.maxBytes at hLess
  have hLe := UInt32.le_iff_toNat_le.mp hLess
  have hLimit := maxBytes.toNat_lt
  have hAfter : (s.totalRecvd + (s.maxBytes - left)).toNat + left.toNat = maxBytes.toNat := by
    unfold Adds at h
    rw [UInt32.toNat_add, UInt32.toNat_sub_of_le _ _ hLess, Nat.mod_eq_of_lt (by omega)]
    omega
  cases stop <;> exact hAfter

/-- The state after a turn after which the loop goes on. -/
theorem turn_next (h : s.turn parses recvFunc wantsMessage = .inr s') : ∃ r calls,
    s.gw.inputTurn parses s.maxBytes wantsMessage r = (s'.gw, s'.maxBytes, none, calls) := by
  unfold turn at h
  dsimp only at h
  generalize hTurn : s.gw.inputTurn parses s.maxBytes wantsMessage
    (recvFunc.recv s.arg (s.gw.bytesToRecv s.maxBytes)).1 = turn at h
  obtain ⟨gw, left, stop, calls⟩ := turn
  cases stop with
  | some stop => cases h
  | none =>
    cases h
    exact ⟨_, calls, hTurn⟩

/-- The bytes that may still be received, and whether the frame is complete. -/
def measure (s : GatewayInput τ) : Nat :=
  2 * s.maxBytes.toNat + if s.gw.curInputPos = s.gw.maxInputPos then 1 else 0

/-- Unless the bytes are used up, a turn after which the loop goes on receives some bytes or is done with a frame. -/
theorem turn_measure (h : s.turn parses recvFunc wantsMessage = .inr s') (hLeft : ¬s.UsedUp) :
    s'.measure < s.measure := by
  obtain ⟨r, calls, hTurn⟩ := turn_next h
  obtain ⟨bytes, hOf, hMost, hMax, hAfter, hGoesOn⟩ := MMessageGateway.inputTurn_next hTurn
  have hLess := s.gw.bytesToRecv_le s.maxBytes
  have hLe := UInt32.le_iff_toNat_le.mp hLess
  unfold measure
  rw [hMax, UInt32.toNat_sub_of_le _ _ hLess]
  by_cases hNothing : s.gw.bytesToRecv s.maxBytes = 0
  · have hFull : s.gw.curInputPos = s.gw.maxInputPos := by
      refine (MMessageGateway.bytesToRecv_eq_zero hNothing).elim (fun hZero => ?_) id
      by_contra hMore
      exact hLeft ⟨hZero, hMore⟩
    have hEmpty : bytes = [] := by
      rw [hNothing] at hMost
      exact List.eq_nil_of_length_eq_zero (Nat.le_zero.mp hMost)
    have hSame : s.gw.store bytes = { s.gw with bytes := s.gw.bytes.take s.gw.curInputPos.toNat } := by
      rw [hEmpty]
      unfold MMessageGateway.store
      rw [List.append_nil, List.length_nil]
      exact congrArg (fun pos => (⟨s.gw.numBytes, _, pos, s.gw.maxInputPos⟩ : MMessageGateway))
        (UInt32.add_zero s.gw.curInputPos)
    rw [hSame] at hAfter hGoesOn
    have hDone : s'.gw.curInputPos ≠ s'.gw.maxInputPos := by
      rw [hAfter]
      exact MMessageGateway.received_next hFull (List.length_take_le _ _) hGoesOn
    rw [if_neg hDone, if_pos hFull]
    omega
  · have hSome : 0 < (s.gw.bytesToRecv s.maxBytes).toNat :=
      Nat.pos_of_ne_zero fun hZero => hNothing (UInt32.toNat_inj.mp hZero)
    split <;> omega

/-- When the bytes are used up, a turn asks for nothing, and the bytes stay used up. -/
theorem turn_usedUp (h : s.UsedUp) :
    (recvFunc.FailsOnNothing s.arg ∧ ∃ r, s.turn parses recvFunc wantsMessage = .inl r) ∨
      ∃ s', ¬recvFunc.FailsOnNothing s.arg ∧ s.turn parses recvFunc wantsMessage = .inr s' ∧ s'.UsedUp ∧
        s'.arg = recvFunc.afterNothing s.arg := by
  obtain ⟨hZero, hMore⟩ := h
  have hNothing := bytesToRecv_of_zero hZero
  unfold turn RecvFunc.FailsOnNothing RecvFunc.afterNothing MMessageGateway.inputTurn
  dsimp only
  rw [hNothing]
  cases hChunk : (recvFunc.recv s.arg 0).1.chunk with
  | none => exact .inl ⟨rfl, _, rfl⟩
  | some chunk =>
    have hEmpty : s.gw.stored s.maxBytes chunk = [] := by
      have hLength := s.gw.stored_length_le s.maxBytes chunk
      rw [hNothing] at hLength
      exact List.eq_nil_of_length_eq_zero (Nat.le_zero.mp hLength)
    have hReceived (r : Reception) : ((s.gw.store []).received parses wantsMessage r) = (s.gw.store [], none, []) := by
      unfold MMessageGateway.received MMessageGateway.store
      exact if_neg (by simpa using hMore)
    dsimp only
    rw [hEmpty, hReceived]
    refine .inr ⟨_, nofun, rfl, ⟨?_, ?_⟩, rfl⟩
    · simpa using hZero
    · unfold MMessageGateway.store
      simpa using hMore

/-- `MGDoInput` returns exactly if the transport fails on one of the empty requests that it gets when the bytes are used
up before the end of a header or a frame. It receives no more than it may. -/
theorem returns_iff (parses : List UInt8 → Bool) (recvFunc : RecvFunc τ) (wantsMessage : Bool) (gw : MMessageGateway)
    (maxBytes : UInt32) (arg : τ) :
    (∃ r, EndsWith (turn parses recvFunc wantsMessage) (start gw maxBytes arg) r ∧ r.1.totalRecvd ≤ maxBytes) ↔
      ∀ s, ComesTo (turn parses recvFunc wantsMessage) (start gw maxBytes arg) s → s.UsedUp →
        ∃ k, recvFunc.FailsOnNothing (recvFunc.afterNothing^[k] s.arg) := by
  have hHangs (s : GatewayInput τ) (h : s.UsedUp) : (∃ r, EndsWith (turn parses recvFunc wantsMessage) s r) ↔
      ∃ k, recvFunc.FailsOnNothing (recvFunc.afterNothing^[k] s.arg) := hangs_ends_iff (fun _ => turn_usedUp) h
  have hEnds : (∃ r, EndsWith (turn parses recvFunc wantsMessage) (start gw maxBytes arg) r) ↔
      ∀ s, ComesTo (turn parses recvFunc wantsMessage) (start gw maxBytes arg) s → s.UsedUp →
        ∃ r, EndsWith (turn parses recvFunc wantsMessage) s r :=
    ends_iff_of_measure measure fun _ _ => turn_measure
  have hStart : (start gw maxBytes arg).Adds maxBytes := Nat.zero_add _
  constructor
  · rintro ⟨r, hr, _⟩ s hTo hUsedUp
    exact (hHangs s hUsedUp).mp (hEnds.mp ⟨r, hr⟩ s hTo hUsedUp)
  · intro h
    obtain ⟨r, hr⟩ := hEnds.mpr fun s hTo hUsedUp => (hHangs s hUsedUp).mpr (h s hTo hUsedUp)
    refine ⟨r, hr, ?_⟩
    refine hr.keeps (P := Adds maxBytes) (Q := fun r => r.1.totalRecvd ≤ maxBytes) (fun t t' hAdds hTurn => ?_)
      (fun t r hAdds hTurn => ?_) hStart
    · have hNext := hAdds.turn parses recvFunc wantsMessage
      rwa [hTurn] at hNext
    · have hLast := hAdds.turn parses recvFunc wantsMessage
      rw [hTurn] at hLast
      exact UInt32.le_iff_toNat_le.mpr (hLast ▸ Nat.le_add_right _ _)

end GatewayInput

/-! ### Both calls -/

namespace MMessageGateway

/-- The calls of the gateway return exactly if the transport fails on one of the empty requests that it gets when
`maxBytes` is used up in the middle of a frame. -/
theorem calls_return_iff (sendFunc : SendFunc τ) (pointerSize : UInt32) (curOutput : List MByteBuffer)
    (curOutputPos : UInt32) (parses : List UInt8 → Bool) (recvFunc : RecvFunc τ) (wantsMessage : Bool)
    (gw : MMessageGateway) (maxBytes : UInt32) (arg : τ) :
    ((∃ r, EndsWith (GatewayOutput.turn sendFunc pointerSize) (.start curOutput curOutputPos maxBytes arg) r ∧
        r.1.totalSent ≤ maxBytes) ↔
      ∀ s, ComesTo (GatewayOutput.turn sendFunc pointerSize) (.start curOutput curOutputPos maxBytes arg) s → s.UsedUp →
        ∃ k, sendFunc.FailsOnNothing (sendFunc.afterNothing^[k] s.arg)) ∧
    ((∃ r, EndsWith (GatewayInput.turn parses recvFunc wantsMessage) (.start gw maxBytes arg) r ∧
        r.1.totalRecvd ≤ maxBytes) ↔
      ∀ s, ComesTo (GatewayInput.turn parses recvFunc wantsMessage) (.start gw maxBytes arg) s → s.UsedUp →
        ∃ k, recvFunc.FailsOnNothing (recvFunc.afterNothing^[k] s.arg)) :=
  ⟨GatewayOutput.returns_iff sendFunc pointerSize curOutput curOutputPos maxBytes arg,
    GatewayInput.returns_iff parses recvFunc wantsMessage gw maxBytes arg⟩

/-- A transport with room for so many bytes. -/
def takesUpTo : SendFunc Nat where
  send room _ numBytes :=
    let sent := min numBytes.toNat (min room (2 ^ 31 - 1))
    (some (UInt32.ofNat sent), room - sent)
  atMost := by
    intro room _ numBytes sent h
    obtain rfl := Option.some.inj h
    rw [UInt32.le_iff_toNat_le, UInt32.toNat_ofNat', Nat.mod_eq_of_lt (by omega)]
    omega

/-- A frame of 20 bytes behind its pointer, of which 10 may be sent, over a transport with room for 15. -/
theorem halfFrame_not_sent : ¬∀ (sendFunc : SendFunc Nat) (pointerSize : UInt32) (curOutput : List MByteBuffer)
    (curOutputPos maxBytes : UInt32) (arg : Nat),
    ∃ r, EndsWith (GatewayOutput.turn sendFunc pointerSize) (.start curOutput curOutputPos maxBytes arg) r ∧
      r.1.totalSent ≤ maxBytes := by
  intro h
  have hReturns := (GatewayOutput.returns_iff takesUpTo 8 [⟨28, List.replicate 28 0⟩] 8 10 15).mp
    (h takesUpTo 8 _ 8 10 15)
  obtain ⟨k, hFails⟩ := hReturns ⟨[⟨28, List.replicate 28 0⟩], 18, 0, 10, 5⟩ ⟨1, rfl⟩ ⟨rfl, _, _, rfl, by decide⟩
  cases hFails

end MMessageGateway

end BeShare.Muscle
