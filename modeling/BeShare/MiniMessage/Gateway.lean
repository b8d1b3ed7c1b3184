import BeShare.Lib.Words

/-!
The input side of the C gateway, `MGDoInput`, with its 32-bit positions and every access to its buffer. As long as no
header asks for so large a body that the 32-bit sums wrap around, all accesses stay inside the buffer.
-/

namespace BeShare.Muscle

open BeShare.Lib

/-- `_MUSCLE_MESSAGE_ENCODING_DEFAULT` -/
def MESSAGE_ENCODING_DEFAULT : Nat := 1164862256

/-- The fields of `MMessageGateway` for input. Of the buffer the bytes that were received. -/
structure MMessageGateway where
  numBytes : UInt32
  bytes : List UInt8
  curInputPos : UInt32
  maxInputPos : UInt32
deriving DecidableEq

/-- The accesses to the input buffer, with the size that it has then: a call of the receive function, a look at the
header with what it says about the body, and a call of `MMUnflattenMessage`. -/
inductive GatewayCall where
  | recvFunc (pos bytesToRecv numBytes : UInt32)
  | readHeader (bodySize numBytes : UInt32)
  | unflatten (offset size numBytes : UInt32)
deriving DecidableEq

/-- The part that is accessed is inside the buffer. -/
def GatewayCall.Inside : GatewayCall → Prop
  | .recvFunc pos bytesToRecv numBytes => pos.toNat + bytesToRecv.toNat ≤ numBytes.toNat
  | .readHeader _ numBytes => 8 ≤ numBytes.toNat
  | .unflatten offset size numBytes => offset.toNat + size.toNat ≤ numBytes.toNat

instance (call : GatewayCall) : Decidable call.Inside := by
  cases call <;> exact inferInstanceAs (Decidable (_ ≤ _))

/-- The frame that the header announces has room in the buffer, or twice its size is a 32-bit number. -/
def GatewayCall.HeaderFits : GatewayCall → Prop
  | .readHeader bodySize numBytes =>
      bodySize.toNat + 8 ≤ numBytes.toNat ∨ 2 * (bodySize.toNat + 8) < 2 ^ 32
  | _ => True

instance (call : GatewayCall) : Decidable call.HeaderFits := by
  cases call
  · exact inferInstanceAs (Decidable True)
  · exact inferInstanceAs (Decidable (_ ∨ _))
  · exact inferInstanceAs (Decidable True)

/-- What a turn of the loop meets: what the receive function has for it (nothing if it fails), and whether there is
memory for a message and for a buffer. -/
structure Reception where
  chunk : Option (List UInt8)
  allocsMessage : Bool
  allocsBuffer : Bool

/-- How the loop ends. -/
inductive InputEnd where
  | error
  | message (flattened : List UInt8)
  | shortRead
deriving DecidableEq

namespace MMessageGateway

/-- `MGAllocMessageGateway` -/
def alloc : MMessageGateway :=
  ⟨8, [], 0, 8⟩

variable (parses : List UInt8 → Bool) (gw : MMessageGateway)

/-- The whole body is there. Without a message to return the loop goes on. -/
def bodyReceived (wantsMessage : Bool) (r : Reception) : MMessageGateway × Option InputEnd :=
  let flattened := (gw.bytes.drop 8).take (gw.maxInputPos - 8).toNat
  if r.allocsMessage ∧ parses flattened then
    let gw := { gw with curInputPos := 0, maxInputPos := 8 }
    let stop := if wantsMessage then some (.message flattened) else none
    -- a large buffer is given back
    if 64 * 1024 < gw.numBytes then
      if r.allocsBuffer then ({ gw with numBytes := 64 * 1024, bytes := [] }, stop) else (gw, some .error)
    else (gw, stop)
  else (gw, some .error)

/-- The 32-bit number in the header from this byte on. -/
def headerWord (offset : Nat) : UInt32 :=
  UInt32.ofNat (leNat ((gw.bytes.drop offset).take 4))

/-- The two fixed fields are there, and say how large the body is. -/
def headerReceived (r : Reception) : MMessageGateway × Option InputEnd :=
  let bodySize := gw.headerWord 0
  if bodySize = 0 ∨ (gw.headerWord 4).toNat ≠ MESSAGE_ENCODING_DEFAULT then (gw, some .error)
  else
    let bodySize := bodySize + 8
    if gw.numBytes < bodySize then
      if r.allocsBuffer then ({ gw with numBytes := 2 * bodySize, maxInputPos := bodySize }, none)
      else (gw, some .error)
    else ({ gw with maxInputPos := bodySize }, none)

/-- How many bytes a turn asks for. -/
def bytesToRecv (maxBytes : UInt32) : UInt32 :=
  let bytesToRecv := gw.maxInputPos - gw.curInputPos
  if maxBytes < bytesToRecv then maxBytes else bytesToRecv

/-- The bytes that the receive function stores: no more than it is asked for, nor than its `int32` result can say. -/
def stored (maxBytes : UInt32) (chunk : List UInt8) : List UInt8 :=
  chunk.take (min (gw.bytesToRecv maxBytes).toNat (2 ^ 31 - 1))

/-- The gateway when they are stored. -/
def store (received : List UInt8) : MMessageGateway :=
  { gw with
    bytes := gw.bytes.take gw.curInputPos.toNat ++ received
    curInputPos := gw.curInputPos + UInt32.ofNat received.length }

/-- What follows on the bytes of a turn. -/
def received (wantsMessage : Bool) (r : Reception) : MMessageGateway × Option InputEnd × List GatewayCall :=
  if gw.curInputPos = gw.maxInputPos then
    if 8 < gw.curInputPos then
      let (after, stop) := gw.bodyReceived parses wantsMessage r
      (after, stop, if r.allocsMessage then [.unflatten 8 (gw.maxInputPos - 8) gw.numBytes] else [])
    else
      let (after, stop) := gw.headerReceived r
      (after, stop, [.readHeader (gw.headerWord 0) gw.numBytes])
  else (gw, none, [])

/-- A turn of the loop of `MGDoInput`, with its accesses to the buffer and with what `maxBytes` is after it. -/
def inputTurn (maxBytes : UInt32) (wantsMessage : Bool) (r : Reception) :
    MMessageGateway × UInt32 × Option InputEnd × List GatewayCall :=
  let call := GatewayCall.recvFunc gw.curInputPos (gw.bytesToRecv maxBytes) gw.numBytes
  match r.chunk with
  | none => (gw, maxBytes, some .error, [call])
  | some chunk =>
    let bytes := gw.stored maxBytes chunk
    let numReceived := UInt32.ofNat bytes.length
    let (after, stop, calls) := (gw.store bytes).received parses wantsMessage r
    let isShort := decide (numReceived < gw.bytesToRecv maxBytes)
    (after, maxBytes - numReceived, stop.or (if isShort then some .shortRead else none), call :: calls)

/-- `MGDoInput`, as far as these turns go. -/
def mgDoInput (wantsMessage : Bool) : UInt32 → List Reception → MMessageGateway →
    MMessageGateway × Option InputEnd × List GatewayCall
  | _, [], gw => (gw, none, [])
  | maxBytes, r :: rest, gw =>
    match gw.inputTurn parses maxBytes wantsMessage r with
    | (after, _, some stop, calls) => (after, some stop, calls)
    | (after, left, none, calls) =>
      let (last, stop, more) := mgDoInput wantsMessage left rest after
      (last, stop, calls ++ more)

end MMessageGateway

/-- One call of `MGDoInput`. -/
structure InputCall where
  maxBytes : UInt32
  wantsMessage : Bool
  receptions : List Reception

/-- The accesses to the buffer when `MGDoInput` is called on a gateway again and again. -/
def MMessageGateway.calls (parses : List UInt8 → Bool) : List InputCall → MMessageGateway → List GatewayCall
  | [], _ => []
  | input :: rest, gw =>
    let (after, _, made) := gw.mgDoInput parses input.wantsMessage input.maxBytes input.receptions
    made ++ MMessageGateway.calls parses rest after

namespace MMessageGateway

/-- The three counters are in order, and there is room for a header. -/
structure Sound (gw : MMessageGateway) : Prop where
  header : 8 ≤ gw.maxInputPos.toNat
  pos : gw.curInputPos.toNat ≤ gw.maxInputPos.toNat
  room : gw.maxInputPos.toNat ≤ gw.numBytes.toNat

theorem alloc_sound : alloc.Sound :=
  ⟨by decide, by decide, by decide⟩

variable {parses : List UInt8 → Bool} {gw : MMessageGateway}

theorem Sound.bytesToRecv_toNat (h : gw.Sound) (maxBytes : UInt32) :
    (gw.bytesToRecv maxBytes).toNat = min (gw.maxInputPos.toNat - gw.curInputPos.toNat) maxBytes.toNat := by
  have hsub : (gw.maxInputPos - gw.curInputPos).toNat = gw.maxInputPos.toNat - gw.curInputPos.toNat :=
    UInt32.toNat_sub_of_le _ _ h.pos
  unfold bytesToRecv
  dsimp only
  split
  next hlt =>
    have := UInt32.lt_iff_toNat_lt.mp hlt
    omega
  next hle =>
    have := UInt32.le_iff_toNat_le.mp (UInt32.not_lt.mp hle)
    omega

/-- The receive function is given a part of the buffer. -/
theorem Sound.recvFunc_inside (h : gw.Sound) (maxBytes : UInt32) :
    (GatewayCall.recvFunc gw.curInputPos (gw.bytesToRecv maxBytes) gw.numBytes).Inside := by
  have hlen := h.bytesToRecv_toNat maxBytes
  have hpos := h.pos
  have hroom := h.room
  show gw.curInputPos.toNat + (gw.bytesToRecv maxBytes).toNat ≤ gw.numBytes.toNat
  omega

/-- `MMUnflattenMessage` is given what follows on the header. -/
theorem Sound.unflatten_inside (h : gw.Sound) :
    (GatewayCall.unflatten 8 (gw.maxInputPos - 8) gw.numBytes).Inside := by
  have hsize : (gw.maxInputPos - 8).toNat = gw.maxInputPos.toNat - 8 := UInt32.toNat_sub_of_le _ _ h.header
  have hheader := h.header
  have hroom := h.room
  show 8 + (gw.maxInputPos - 8).toNat ≤ gw.numBytes.toNat
  omega

/-- What it stores does not go beyond the read limit. -/
theorem Sound.store (h : gw.Sound) (maxBytes : UInt32) (chunk : List UInt8) :
    (gw.store (gw.stored maxBytes chunk)).Sound := by
  have hlen := h.bytesToRecv_toNat maxBytes
  have hstored : (gw.stored maxBytes chunk).length ≤ (gw.bytesToRecv maxBytes).toNat := by
    rw [stored, List.length_take]
    omega
  have hpos := h.pos
  have hlimit := gw.maxInputPos.toNat_lt
  refine ⟨h.header, ?_, h.room⟩
  show (gw.curInputPos + UInt32.ofNat (gw.stored maxBytes chunk).length).toNat ≤ gw.maxInputPos.toNat
  rw [UInt32.toNat_add, UInt32.toNat_ofNat']
  omega

theorem Sound.bodyReceived (h : gw.Sound) (wantsMessage : Bool) (r : Reception) :
    (gw.bodyReceived parses wantsMessage r).1.Sound := by
  have hroom : 8 ≤ gw.numBytes.toNat := h.header.trans h.room
  unfold MMessageGateway.bodyReceived
  dsimp only
  split
  · split
    · split
      · exact ⟨by simp, by simp, by simp⟩
      · exact ⟨by simp, by simp, by simpa using hroom⟩
    · exact ⟨by simp, by simp, by simpa using hroom⟩
  · exact h

/-- A header that fits leaves the counters in order. -/
theorem Sound.headerReceived (h : gw.Sound) (r : Reception) (hpos : gw.curInputPos.toNat ≤ 8)
    (hfits : (GatewayCall.readHeader (gw.headerWord 0) gw.numBytes).HeaderFits) :
    (gw.headerReceived r).1.Sound := by
  have hfits : (gw.headerWord 0).toNat + 8 ≤ gw.numBytes.toNat ∨ 2 * ((gw.headerWord 0).toNat + 8) < 2 ^ 32 :=
    hfits
  have hlimit := gw.numBytes.toNat_lt
  have hsize : (gw.headerWord 0 + 8).toNat = (gw.headerWord 0).toNat + 8 := by
    rw [UInt32.toNat_add]
    exact Nat.mod_eq_of_lt (by simp; omega)
  unfold MMessageGateway.headerReceived
  dsimp only
  split
  · exact h
  · split
    next hsmall =>
      split
      · have hlt : gw.numBytes.toNat < (gw.headerWord 0 + 8).toNat := UInt32.lt_iff_toNat_lt.mp hsmall
        have hdouble : (2 * (gw.headerWord 0 + 8)).toNat = 2 * ((gw.headerWord 0).toNat + 8) := by
          rw [UInt32.toNat_mul, hsize]
          exact Nat.mod_eq_of_lt (by simp; omega)
        exact ⟨by simp only [hsize]; omega, by simp only [hsize]; omega,
          by simp only [hsize, hdouble]; omega⟩
      · exact h
    next hlarge =>
      have hle : (gw.headerWord 0 + 8).toNat ≤ gw.numBytes.toNat :=
        UInt32.le_iff_toNat_le.mp (UInt32.not_lt.mp hlarge)
      exact ⟨by simp only [hsize]; omega, by simp only [hsize]; omega, hle⟩

/-- What follows on the bytes of a turn: the accesses are inside, and the counters stay in order. -/
theorem Sound.received (h : gw.Sound) (wantsMessage : Bool) (r : Reception)
    (hfits : ∀ call ∈ (gw.received parses wantsMessage r).2.2, call.HeaderFits) :
    (gw.received parses wantsMessage r).1.Sound ∧
      ∀ call ∈ (gw.received parses wantsMessage r).2.2, call.Inside := by
  have hroom : 8 ≤ gw.numBytes.toNat := h.header.trans h.room
  unfold MMessageGateway.received at hfits ⊢
  by_cases hfull : gw.curInputPos = gw.maxInputPos
  · rw [if_pos hfull] at hfits ⊢
    by_cases hbody : 8 < gw.curInputPos
    · rw [if_pos hbody] at hfits ⊢
      refine ⟨h.bodyReceived wantsMessage r, fun call hcall => ?_⟩
      have hcall : call = .unflatten 8 (gw.maxInputPos - 8) gw.numBytes := by
        simp only at hcall
        split at hcall
        · exact List.mem_singleton.mp hcall
        · cases hcall
      rw [hcall]
      exact h.unflatten_inside
    · rw [if_neg hbody] at hfits ⊢
      have hpos : gw.curInputPos.toNat ≤ 8 := UInt32.le_iff_toNat_le.mp (UInt32.not_lt.mp hbody)
      refine ⟨h.headerReceived r hpos (hfits _ (by simp)), fun call hcall => ?_⟩
      rw [List.mem_singleton.mp hcall]
      exact hroom
  · rw [if_neg hfull]
    exact ⟨h, by simp⟩

/-- A turn of the loop. -/
theorem Sound.inputTurn (h : gw.Sound) (maxBytes : UInt32) (wantsMessage : Bool) (r : Reception)
    (hfits : ∀ call ∈ (gw.inputTurn parses maxBytes wantsMessage r).2.2.2, call.HeaderFits) :
    (gw.inputTurn parses maxBytes wantsMessage r).1.Sound ∧
      ∀ call ∈ (gw.inputTurn parses maxBytes wantsMessage r).2.2.2, call.Inside := by
  unfold MMessageGateway.inputTurn at hfits ⊢
  cases hchunk : r.chunk with
  | none =>
    exact ⟨h, by simpa using h.recvFunc_inside maxBytes⟩
  | some chunk =>
    simp only [hchunk, List.mem_cons, forall_eq_or_imp] at hfits ⊢
    obtain ⟨hsound, hinside⟩ := (h.store maxBytes chunk).received wantsMessage r hfits.2
    exact ⟨hsound, h.recvFunc_inside maxBytes, hinside⟩

/-- A call of `MGDoInput`: induction on what the receive function has. -/
theorem Sound.mgDoInput (wantsMessage : Bool) (receptions : List Reception) :
    ∀ (maxBytes : UInt32) (gw : MMessageGateway), gw.Sound →
      (∀ call ∈ (gw.mgDoInput parses wantsMessage maxBytes receptions).2.2, call.HeaderFits) →
      (gw.mgDoInput parses wantsMessage maxBytes receptions).1.Sound ∧
        ∀ call ∈ (gw.mgDoInput parses wantsMessage maxBytes receptions).2.2, call.Inside := by
  induction receptions with
  | nil => exact fun maxBytes gw h _ => ⟨h, by simp [MMessageGateway.mgDoInput]⟩
  | cons r rest ih =>
    intro maxBytes gw h hfits
    have hturn := fun hcalls => @Sound.inputTurn parses gw h maxBytes wantsMessage r hcalls
    unfold MMessageGateway.mgDoInput at hfits ⊢
    generalize gw.inputTurn parses maxBytes wantsMessage r = turn at hfits hturn ⊢
    obtain ⟨after, left, stop, calls⟩ := turn
    cases stop with
    | some stop => exact hturn hfits
    | none =>
      simp only [List.mem_append] at hfits ⊢
      obtain ⟨hsound, hinside⟩ := hturn fun call hcall => hfits call (.inl hcall)
      obtain ⟨hlast, hmore⟩ := ih left after hsound fun call hcall => hfits call (.inr hcall)
      exact ⟨hlast, fun call hcall => hcall.elim (hinside call) (hmore call)⟩

theorem Sound.calls_inside (inputs : List InputCall) :
    ∀ gw : MMessageGateway, gw.Sound → (∀ call ∈ gw.calls parses inputs, call.HeaderFits) →
      ∀ call ∈ gw.calls parses inputs, call.Inside := by
  induction inputs with
  | nil => simp [MMessageGateway.calls]
  | cons input rest ih =>
    intro gw h hfits
    simp only [MMessageGateway.calls, List.mem_append] at hfits ⊢
    obtain ⟨hsound, hinside⟩ := Sound.mgDoInput input.wantsMessage input.receptions input.maxBytes gw h
      fun call hcall => hfits call (.inl hcall)
    have hrest := ih _ hsound fun call hcall => hfits call (.inr hcall)
    exact fun call hcall => hcall.elim (hinside call) (hrest call)

/-- A gateway that only meets headers whose frame fits accesses nothing outside its buffer, however the bytes arrive. -/
theorem calls_inside_of_headerFits (parses : List UInt8 → Bool) (inputs : List InputCall)
    (hfits : ∀ call ∈ alloc.calls parses inputs, call.HeaderFits) :
    ∀ call ∈ alloc.calls parses inputs, call.Inside :=
  alloc_sound.calls_inside inputs alloc hfits

/-- A header with the default encoding. -/
def header (bodySize : Nat) : List UInt8 :=
  leBytes 4 bodySize ++ leBytes 4 MESSAGE_ENCODING_DEFAULT

/-- A frame of twelve bytes that comes in three parts. -/
def twelveBytes : List InputCall :=
  [⟨100, true, [⟨some (header 12), true, true⟩, ⟨some [1, 2, 3], true, true⟩]⟩,
    ⟨100, true, [⟨some [4, 5, 6, 7, 8, 9, 10, 11, 12], true, true⟩]⟩]

theorem calls_inside_twelveBytes : (∀ call ∈ alloc.calls (fun _ => true) twelveBytes, call.HeaderFits) ∧
    ∀ call ∈ alloc.calls (fun _ => true) twelveBytes, call.Inside :=
  ⟨by decide, calls_inside_of_headerFits _ _ (by decide)⟩

/-- For a body of `0x7FFFFFF8` bytes twice the size of the frame is 0, and so is the size of the buffer. -/
theorem hugeHeader_not_inside :
    ¬ ∀ (parses : List UInt8 → Bool) (inputs : List InputCall),
      ∀ call ∈ alloc.calls parses inputs, call.Inside := by
  intro h
  have hbad := h (fun _ => true)
    [⟨100, true, [⟨some (header 0x7FFFFFF8), true, true⟩, ⟨some [], true, true⟩]⟩]
  revert hbad
  decide

end MMessageGateway

end BeShare.Muscle
