import BeShare.Message.Exact

/-!
What `Message::Unflatten` does to hostile bytes: as long as no `uint32` offset wraps around it stays
inside its input and ends. A length word close to `2 ^ 32` passes the size checks, and then neither
holds.
-/

namespace BeShare.Muscle

open BeShare.Lib

/-- Enough fuel for the exact parse of a received buffer. -/
def parseFuel (received : List UInt8) : Nat := received.length / 4 + 1

/-- Parsing `received` comes to an offset computation whose result does not fit into 32 bits. -/
def Wraps (received : List UInt8) : Prop :=
  match Message.unflatten .exact (parseFuel received) ⟨received, 0, received.length⟩ with
  | .error .wrapped => True
  | _ => False

instance (received : List UInt8) : Decidable (Wraps received) := by
  unfold Wraps
  split <;> infer_instance

theorem not_wraps_iff {received : List UInt8} :
    ¬Wraps received ↔
      Message.unflatten .exact (parseFuel received) ⟨received, 0, received.length⟩ ≠
        .error .wrapped := by
  unfold Wraps
  split <;> simp_all

theorem inside_received (received : List UInt8) : Input.Inside ⟨received, 0, received.length⟩ := by
  simp [Input.Inside]

theorem exact_post (received : List UInt8) (fuel : Nat) :
    Post (Message.unflatten .exact fuel ⟨received, 0, received.length⟩) (FewItems received.length)
      (Safe (received.length < 4 * fuel)) :=
  Message.unflatten_post fuel received.length _ (inside_received received) (Nat.le_refl _)

theorem exact_ne_outOfFuel (received : List UInt8) {fuel : Nat} (h : parseFuel received ≤ fuel) :
    Message.unflatten .exact fuel ⟨received, 0, received.length⟩ ≠ .error .outOfFuel := by
  intro hStop
  have hSafe := (exact_post received fuel).of_error hStop
  exact hSafe.2 (by unfold parseFuel at h; omega) rfl

theorem exact_ne_wrapped {received : List UInt8} (hWraps : ¬Wraps received) (fuel : Nat) :
    Message.unflatten .exact fuel ⟨received, 0, received.length⟩ ≠ .error .wrapped := by
  have hDone := exact_ne_outOfFuel received (Nat.le_refl _)
  rw [not_wraps_iff] at hWraps
  rcases Nat.le_total (parseFuel received) fuel with hLe | hLe
  · rwa [Message.unflatten_fuel hLe hDone]
  · intro hStop
    have hShort := Message.unflatten_fuel hLe (by rw [hStop]; simp)
    exact hWraps (hShort.trans hStop)

/-- Without a wrap-around the source's parse is the exact one, however long it runs. -/
theorem receive_eq_exact {received : List UInt8} (hWraps : ¬Wraps received) (fuel : Nat) :
    Message.receive fuel received = Message.unflatten .exact fuel ⟨received, 0, received.length⟩ :=
  Message.unflatten_uint32 (exact_ne_wrapped hWraps fuel)

/-- A received buffer whose parse meets no wrap-around is read only inside its bytes; what does not
parse is rejected (or, for a tag field, runs into `MCRASH`). -/
theorem receive_inBounds (received : List UInt8) (hWraps : ¬Wraps received) (fuel : Nat) :
    Message.receive fuel received ≠ .error .outOfBounds ∧
      (parseFuel received ≤ fuel → ∀ stop, Message.receive fuel received = .error stop →
        stop = .bError ∨ stop = .crash) := by
  have hSafe := exact_post received fuel
  have hExact := receive_eq_exact hWraps fuel
  have hWrapped : Message.receive fuel received ≠ .error .wrapped := by
    rw [hExact]
    exact exact_ne_wrapped hWraps fuel
  rw [← hExact] at hSafe
  refine ⟨fun hStop => (hSafe.of_error hStop).1 rfl, fun hFuel stop hStop => ?_⟩
  have hStopSafe := hSafe.of_error hStop
  cases stop with
  | bError => exact .inl rfl
  | crash => exact .inr rfl
  | outOfBounds => exact absurd rfl hStopSafe.1
  | outOfFuel => exact absurd rfl (hStopSafe.2 (by unfold parseFuel at hFuel; omega))
  | wrapped => exact absurd hStop hWrapped

/-- A Message field `m` whose only item claims to be `length` bytes long and holds a Message header
that announces `numEntries` fields. -/
def hostileMessage (length numEntries : Nat) : List UInt8 :=
  leBytes 4 CURRENT_PROTOCOL_VERSION ++ leBytes 4 0 ++ leBytes 4 1 ++
    (leBytes 4 2 ++ [109, 0] ++ leBytes 4 B_MESSAGE_TYPE.toNat ++ leBytes 4 16) ++
    (leBytes 4 length ++ leBytes 4 CURRENT_PROTOCOL_VERSION ++ leBytes 4 0 ++ leBytes 4 numEntries)

theorem hostile_outOfBounds :
    (hostileMessage (2 ^ 32 - 4) 1).length = 42 ∧
      Message.receive 3 (hostileMessage (2 ^ 32 - 4) 1) = .error .outOfBounds := by
  constructor
  · decide
  · rfl

theorem receive_inBounds_short :
    ¬Wraps (hostileMessage 12 0) ∧
      Message.receive 11 (hostileMessage 12 0) ≠ .error .outOfBounds :=
  have hWraps : ¬Wraps (hostileMessage 12 0) := by decide
  ⟨hWraps, (receive_inBounds _ hWraps 11).1⟩

/-- The length word at an offset. -/
def lengthWord (inp : Input) (off : Nat) : Nat :=
  leNat ((inp.received.drop (inp.base + off)).take 4)

theorem lengthWord_lt (inp : Input) (off : Nat) : lengthWord inp off < 2 ^ 32 := by
  have hLt := leNat_lt ((inp.received.drop (inp.base + off)).take 4)
  have hLen : ((inp.received.drop (inp.base + off)).take 4).length ≤ 4 := List.length_take_le _ _
  calc lengthWord inp off < 256 ^ ((inp.received.drop (inp.base + off)).take 4).length := hLt
    _ ≤ 256 ^ 4 := Nat.pow_le_pow_right (by decide) hLen
    _ = 2 ^ 32 := by decide

theorem fetch_reads (inp : Input) (off k : Nat) :
    Post (fetch inp off k)
      (fun bytes => bytes = (inp.received.drop (inp.base + off)).take k ∧
        (k = 0 ∨ inp.base + off + k ≤ inp.received.length)) (fun _ => True) :=
  .ite (fun h => ⟨rfl, h⟩) fun _ => trivial

theorem readUint32_reads (inp : Input) (off : Nat) :
    Post (readUint32 .uint32 inp off)
      (fun r => r.1 = lengthWord inp off ∧ r.2 = (off + 4) % 2 ^ 32 ∧
        inp.base + off + 4 ≤ inp.received.length) (fun _ => True) := by
  refine Post.bind (Q := fun r => r.1 = (inp.received.drop (inp.base + off)).take 4 ∧
    r.2 = (off + 4) % 2 ^ 32 ∧ inp.base + off + 4 ≤ inp.received.length) ?_ ?_
  · refine .ite (fun _ => trivial) fun _ => (fetch_reads inp off 4).bind fun bytes hBytes => ?_
    exact ⟨hBytes.1, rfl, hBytes.2.resolve_left (by decide)⟩
  · rintro ⟨bytes, next⟩ ⟨rfl, rfl, hReceived⟩
    exact ⟨rfl, rfl, hReceived⟩

/-- Where an iteration of `MessageDataArray::Unflatten` that does not return an error goes on. -/
theorem messageItem_next {parse : Input → Parse Message} {inp : Input} {off : Nat}
    (hReceived : inp.received.length < 2 ^ 32) :
    Post (messageItem .uint32 parse inp off)
      (fun r => off + 4 < 2 ^ 32 ∧ r.2 = (off + 4 + lengthWord inp off) % 2 ^ 32)
      (fun _ => True) := by
  refine Post.bind (Q := fun r => off + 4 < 2 ^ 32 ∧
    r.2.2 = (off + 4 + lengthWord inp off) % 2 ^ 32) ?_ ?_
  · refine (readUint32_reads inp off).bind fun ⟨readFs, off'⟩ ⟨hWord, hOff, hIn⟩ => ?_
    refine .ite (fun _ => trivial) fun _ => ⟨by omega, ?_⟩
    simp only at hWord hOff ⊢
    omega
  · rintro ⟨readFs, off', next⟩ hNext
    exact Post.bind (Q := fun _ => True) (by unfold Post; split <;> trivial) fun _ _ => hNext

/-- The claim about one iteration: `readOffset` moves forward by at least the length word. -/
theorem messageItem_advances {parse : Input → Parse Message} {inp : Input} {off next : Nat}
    {m : Message} (hReceived : inp.received.length < 2 ^ 32)
    (h : messageItem .uint32 parse inp off = .ok (m, next)) :
    (off + 4 ≤ next ↔ off + 4 + lengthWord inp off < 2 ^ 32) ∧
      (off < next ↔ off + 4 + lengthWord inp off < 2 ^ 32 ∨ 2 ^ 32 - 4 < lengthWord inp off) := by
  have hWord := lengthWord_lt inp off
  obtain ⟨hOff, hNext⟩ := (messageItem_next hReceived).of_ok h
  simp only at hNext
  omega

theorem receive_fewItems {received : List UInt8} (hWraps : ¬Wraps received) {fuel : Nat}
    (hFuel : parseFuel received ≤ fuel) :
    Post (Message.receive fuel received) (FewItems received.length) (· ≠ .outOfFuel) := by
  rw [receive_eq_exact hWraps]
  refine (exact_post received fuel).mono (fun _ h => h) fun e hSafe => hSafe.2 ?_
  unfold parseFuel at hFuel
  omega

/-- An iteration of a `MessageDataArray` loop moves forward exactly if its length word does not wrap
the offset around, and a parse without wrap-arounds ends, with few items in every field. -/
theorem parse_progress (received : List UInt8) (hReceived : received.length < 2 ^ 32) :
    (∀ (fuel : Nat) (inp : Input) (off next : Nat) (m : Message), inp.received = received →
      messageItem .uint32 (Message.unflatten .uint32 fuel) inp off = .ok (m, next) →
      (off + 4 ≤ next ↔ off + 4 + lengthWord inp off < 2 ^ 32) ∧
        (off < next ↔
          off + 4 + lengthWord inp off < 2 ^ 32 ∨ 2 ^ 32 - 4 < lengthWord inp off)) ∧
    (¬Wraps received → ∀ fuel, parseFuel received ≤ fuel →
      Message.receive fuel received ≠ .error .outOfFuel ∧
        ∀ m, Message.receive fuel received = .ok m → FewItems received.length m) := by
  refine ⟨?_, fun hWraps fuel hFuel => ?_⟩
  · rintro fuel inp off next m rfl h
    exact messageItem_advances hReceived h
  · have hPost := receive_fewItems hWraps hFuel
    exact ⟨fun hStop => hPost.of_error hStop rfl, fun m hOk => hPost.of_ok hOk⟩

theorem parse_progress_short :
    (hostileMessage 12 0).length < 2 ^ 32 ∧ ¬Wraps (hostileMessage 12 0) ∧
      Message.receive 11 (hostileMessage 12 0) ≠ .error .outOfFuel :=
  have hWraps : ¬Wraps (hostileMessage 12 0) := by decide
  ⟨by decide, hWraps, ((parse_progress _ (by decide)).2 hWraps 11 (by decide)).1⟩

/-- The field of `hostileMessage (2 ^ 32 - 4) 0`, as its `Unflatten` is called. -/
def loopingField : Input := ⟨hostileMessage (2 ^ 32 - 4) 0, 26, 16⟩

theorem loopingField_item (fuel : Nat) :
    messageItem .uint32 (Message.unflatten .uint32 (fuel + 1)) loopingField 0 =
      .ok (.mk 0 [], 0) := rfl

theorem loopingField_items (fuel k : Nat) :
    messageItems .uint32 (Message.unflatten .uint32 (fuel + 1)) loopingField k 0 =
      .error .outOfFuel := by
  induction k with
  | zero => rfl
  | succ k ih =>
    rw [messageItems, if_pos (by decide), loopingField_item]
    change (messageItems _ _ _ k 0 >>= _) = _
    rw [ih]
    rfl

/-- The first iteration ends where it began, so the loop never ends. -/
theorem hostile_loops :
    (∃ m, messageItem .uint32 (Message.unflatten .uint32 1) loopingField 0 = .ok (m, 0)) ∧
      ∀ fuel, Message.receive fuel (hostileMessage (2 ^ 32 - 4) 0) = .error .outOfFuel := by
  refine ⟨⟨_, loopingField_item 0⟩, fun fuel => ?_⟩
  match fuel with
  | 0 => rfl
  | 1 => rfl
  | fuel + 2 =>
    have hEntry : ∀ parse k, unflattenEntry .uint32 parse k
        ⟨hostileMessage (2 ^ 32 - 4) 0, 0, 42⟩ [] 12 =
          (ArrayClass.unflatten .uint32 parse k loopingField .message >>= fun array =>
            .ok ([(CStr.empty.cons 109 (by decide), array)], 42)) := fun _ _ => rfl
    have hReceive : Message.receive (fuel + 2) (hostileMessage (2 ^ 32 - 4) 0) =
        (unflattenEntries .uint32 (Message.unflatten .uint32 (fuel + 1)) (fuel + 1)
          ⟨hostileMessage (2 ^ 32 - 4) 0, 0, 42⟩ 1 [] 12 >>= fun es => .ok (.mk 0 es)) := rfl
    rw [hReceive, unflattenEntries, hEntry, ArrayClass.unflatten, loopingField_items]
    rfl

end BeShare.Muscle
