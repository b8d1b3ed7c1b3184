import BeShare.Message.Unflatten

/-!
The parser on arithmetic that does not wrap: it does what the source does unless an offset leaves
the `uint32` range, it reads only inside its input, and it ends.
-/

namespace BeShare.Muscle

open BeShare.Lib

/-! ### Agreement of two runs -/

/-- `ar'` computes what `ar` does, unless that stops with `trap`. -/
structure Arith.Agrees (trap : Stop) (ar ar' : Arith) : Prop where
  add : ∀ a b, Lib.Agrees trap (ar.add a b) (ar'.add a b)
  sub : ∀ a b, Lib.Agrees trap (ar.sub a b) (ar'.sub a b)

theorem Arith.Agrees.refl (trap : Stop) (ar : Arith) : ar.Agrees trap ar :=
  ⟨fun _ _ => .refl _, fun _ _ => .refl _⟩

theorem Arith.exact_agrees : Arith.exact.Agrees .wrapped .uint32 where
  add a b := by
    by_cases h : a + b < 2 ^ 32
    · exact .inr (by simp only [exact, uint32, if_pos h, Nat.mod_eq_of_lt h])
    · exact .inl (by simp only [exact, if_neg h])
  sub a b := by
    by_cases h : b ≤ a ∧ a < 2 ^ 32
    · have hb : b % 2 ^ 32 = b := Nat.mod_eq_of_lt (by omega)
      have hSub : (a + (2 ^ 32 - b)) % 2 ^ 32 = a - b := by omega
      exact .inr (by simp only [exact, uint32, if_pos h, hb, hSub])
    · exact .inl (by simp only [exact, if_neg h])

/-- A run with `fuel'` does what a run with `fuel` does, unless that stops with `trap`. -/
def FuelAgrees (trap : Stop) (fuel fuel' : Nat) : Prop :=
  fuel = fuel' ∨ trap = .outOfFuel ∧ fuel ≤ fuel'

theorem FuelAgrees.succ {trap : Stop} {fuel fuel' : Nat} (h : FuelAgrees trap (fuel + 1) fuel') :
    ∃ k, fuel' = k + 1 ∧ FuelAgrees trap fuel k := by
  rcases h with rfl | ⟨hTrap, hLe⟩
  · exact ⟨fuel, rfl, .inl rfl⟩
  · exact ⟨fuel' - 1, by omega, .inr ⟨hTrap, by omega⟩⟩

section

variable {trap : Stop} {ar ar' : Arith} (hAr : ar.Agrees trap ar')
include hAr

theorem readData_agrees (inp : Input) (off k : Nat) :
    Agrees trap (readData ar inp off k) (readData ar' inp off k) :=
  (hAr.add off k).bind fun _ => .refl _

theorem readUint32_agrees (inp : Input) (off : Nat) :
    Agrees trap (readUint32 ar inp off) (readUint32 ar' inp off) :=
  (readData_agrees hAr inp off 4).bind fun _ => .refl _

theorem readItemSize_agrees (inp : Input) (off : Nat) :
    Agrees trap (readItemSize ar inp off) (readItemSize ar' inp off) :=
  (readUint32_agrees hAr inp off).bind fun _ => (hAr.add _ _).bind fun _ => .refl _

theorem stringItems_agrees (inp : Input) (count off : Nat) :
    Agrees trap (stringItems ar inp count off) (stringItems ar' inp count off) := by
  induction count generalizing off with
  | zero => exact .refl _
  | succ count ih =>
    refine (readUint32_agrees hAr inp off).bind fun _ => .ite (.refl _) ?_
    refine (hAr.add _ _).bind fun next => .ite (.refl _) ?_
    exact (Agrees.refl _).bind fun _ => (ih next).bind fun _ => .refl _

theorem bufferItems_agrees (inp : Input) (count off : Nat) :
    Agrees trap (bufferItems ar inp count off) (bufferItems ar' inp count off) := by
  induction count generalizing off with
  | zero => exact .refl _
  | succ count ih =>
    refine (readItemSize_agrees hAr inp off).bind fun r => ?_
    exact (Agrees.refl _).bind fun _ => (ih r.2.2).bind fun _ => .refl _

theorem readHeader_agrees (inp : Input) : Agrees trap (readHeader ar inp) (readHeader ar' inp) := by
  refine (readUint32_agrees hAr inp 0).bind fun _ => .ite (.refl _) ?_
  exact (readUint32_agrees hAr inp _).bind fun _ => (readUint32_agrees hAr inp _).bind fun _ => .refl _

variable {parse parse' : Input → Parse Message}
  (hParse : ∀ inp, Agrees trap (parse inp) (parse' inp))
include hParse

theorem messageItem_agrees (inp : Input) (off : Nat) :
    Agrees trap (messageItem ar parse inp off) (messageItem ar' parse' inp off) :=
  (readItemSize_agrees hAr inp off).bind fun _ => (hParse _).bind fun _ => .refl _

theorem messageItems_agrees (inp : Input) {fuel fuel' : Nat} (hFuel : FuelAgrees trap fuel fuel')
    (off : Nat) :
    Agrees trap (messageItems ar parse inp fuel off) (messageItems ar' parse' inp fuel' off) := by
  induction fuel generalizing fuel' off with
  | zero =>
    rcases hFuel with rfl | ⟨rfl, -⟩
    · exact .refl _
    · -- the shorter run either needs more fuel or has nothing left to read
      by_cases hMore : off < inp.numBytes
      · exact .inl (by rw [messageItems, if_pos hMore])
      · refine .inr ?_
        cases fuel' <;> simp only [messageItems, if_neg hMore]
  | succ fuel ih =>
    obtain ⟨k, rfl, hk⟩ := hFuel.succ
    refine .ite ?_ (.refl _)
    exact (messageItem_agrees hAr hParse inp off).bind fun r => (ih hk r.2).bind fun _ => .refl _

variable {fuel fuel' : Nat} (hFuel : FuelAgrees trap fuel fuel')
include hFuel

theorem ArrayClass.unflatten_agrees (inp : Input) (cls : ArrayClass) :
    Agrees trap (cls.unflatten ar parse fuel inp) (cls.unflatten ar' parse' fuel' inp) := by
  cases cls with
  | string =>
    refine Agrees.bind ?_ fun _ => .refl _
    exact (readUint32_agrees hAr inp 0).bind fun r => stringItems_agrees hAr inp r.1 r.2
  | buffer tc =>
    refine Agrees.bind ?_ fun _ => .refl _
    exact (readUint32_agrees hAr inp 0).bind fun r => bufferItems_agrees hAr inp r.1 r.2
  | message => exact (messageItems_agrees hAr hParse inp hFuel 0).bind fun _ => .refl _
  | _ => exact .refl _

theorem unflattenEntry_agrees (inp : Input) (es : List (CStr × DataArray)) (off : Nat) :
    Agrees trap (unflattenEntry ar parse fuel inp es off)
      (unflattenEntry ar' parse' fuel' inp es off) := by
  refine (readUint32_agrees hAr inp off).bind fun _ => (hAr.sub _ _).bind fun _ => ?_
  refine .ite (.refl _) ((Agrees.refl _).bind fun _ => (hAr.add _ _).bind fun off => ?_)
  refine (readUint32_agrees hAr inp off).bind fun _ => (readUint32_agrees hAr inp _).bind fun _ => ?_
  refine (hAr.sub _ _).bind fun _ => .ite (.refl _) ((Agrees.refl _).bind fun cls => ?_)
  exact (cls.unflatten_agrees hAr hParse hFuel _).bind fun _ => (hAr.add _ _).bind fun _ => .refl _

theorem unflattenEntries_agrees (inp : Input) (count : Nat) (es : List (CStr × DataArray))
    (off : Nat) :
    Agrees trap (unflattenEntries ar parse fuel inp count es off)
      (unflattenEntries ar' parse' fuel' inp count es off) := by
  induction count generalizing es off with
  | zero => exact .refl _
  | succ count ih =>
    exact (unflattenEntry_agrees hAr hParse hFuel inp es off).bind fun r => ih r.1 r.2

end

/-- Two runs of the parser agree where their arithmetic and their fuel do. -/
theorem Message.unflatten_agrees {trap : Stop} {ar ar' : Arith} (hAr : ar.Agrees trap ar')
    {fuel fuel' : Nat} (hFuel : FuelAgrees trap fuel fuel') (inp : Input) :
    Agrees trap (Message.unflatten ar fuel inp) (Message.unflatten ar' fuel' inp) := by
  induction fuel generalizing fuel' inp with
  | zero =>
    rcases hFuel with rfl | ⟨rfl, -⟩
    · exact .refl _
    · exact .inl rfl
  | succ fuel ih =>
    obtain ⟨k, rfl, hk⟩ := hFuel.succ
    refine (readHeader_agrees hAr inp).bind fun _ => ?_
    exact (unflattenEntries_agrees hAr (fun inp => ih hk inp) hk inp _ _ _).bind fun _ => .refl _

/-- The source's parse is the exact one, unless that one meets a `uint32` wrap-around. -/
theorem Message.unflatten_uint32 {fuel : Nat} {inp : Input}
    (h : Message.unflatten .exact fuel inp ≠ .error .wrapped) :
    Message.unflatten .uint32 fuel inp = Message.unflatten .exact fuel inp :=
  (Message.unflatten_agrees Arith.exact_agrees (.inl rfl) inp).eq_of_ne h

/-- A run that ends does not depend on how much fuel is left over. -/
theorem Message.unflatten_fuel {ar : Arith} {fuel fuel' : Nat} {inp : Input} (hLe : fuel ≤ fuel')
    (h : Message.unflatten ar fuel inp ≠ .error .outOfFuel) :
    Message.unflatten ar fuel' inp = Message.unflatten ar fuel inp :=
  (Message.unflatten_agrees (Arith.Agrees.refl _ ar) (.inr ⟨rfl, hLe⟩) inp).eq_of_ne h

/-! ### Bounds of the exact run -/

/-- The bytes handed to the parser were all received. -/
def Input.Inside (inp : Input) : Prop := inp.base + inp.numBytes ≤ inp.received.length

theorem Input.Inside.sub {inp : Input} {off n : Nat} (h : inp.Inside) (hn : off + n ≤ inp.numBytes) :
    (inp.sub off n).Inside := by
  simp only [Input.Inside, Input.sub_base, Input.sub_numBytes, Input.sub_received] at h ⊢
  omega

/-- The stops of a parser that reads inside its input and, given `enough` fuel, ends. -/
def Safe (enough : Prop) (e : Stop) : Prop := e ≠ .outOfBounds ∧ (enough → e ≠ .outOfFuel)

theorem Safe.mono {p q : Prop} (hqp : q → p) (e : Stop) (h : Safe p e) : Safe q e :=
  ⟨h.1, fun hq => h.2 (hqp hq)⟩

@[simp] theorem safe_bError (p : Prop) : Safe p .bError := by simp [Safe]

@[simp] theorem safe_wrapped (p : Prop) : Safe p .wrapped := by simp [Safe]

@[simp] theorem safe_crash (p : Prop) : Safe p .crash := by simp [Safe]

section

variable {P : Prop} {inp : Input}

theorem add_post (a b : Nat) :
    Post (Arith.exact.add a b) (fun c => c = a + b ∧ a + b < 2 ^ 32) (Safe P) := by
  simp only [Arith.exact]
  exact .ite (fun h => ⟨rfl, h⟩) fun _ => safe_wrapped P

theorem sub_post (a b : Nat) :
    Post (Arith.exact.sub a b) (fun c => c = a - b ∧ b ≤ a) (Safe P) := by
  simp only [Arith.exact]
  exact .ite (fun h => ⟨rfl, h.1⟩) fun _ => safe_wrapped P

theorem fetch_post {off k : Nat} (hIn : inp.Inside) (hk : off + k ≤ inp.numBytes) :
    Post (fetch inp off k) (fun bytes => bytes.length = k) (Safe P) := by
  simp only [Input.Inside] at hIn
  have hReceived : inp.base + off + k ≤ inp.received.length := by omega
  rw [fetch, if_pos (.inr hReceived), Post.ok, List.length_take, List.length_drop]
  omega

theorem setCstr_post (received : List UInt8) (a maxLen : Nat) (h : a + maxLen ≤ received.length) :
    Post (setCstr received a maxLen) (fun _ => True) (Safe P) := by
  induction maxLen generalizing a with
  | zero => trivial
  | succ maxLen ih =>
    rw [setCstr, List.getElem?_eq_getElem (by omega)]
    simp only
    split
    · trivial
    · exact (ih (a + 1) (by omega)).bind fun _ _ => trivial

theorem CStr.unflatten_post (hIn : inp.Inside) :
    Post (CStr.unflatten inp) (fun _ => True) (Safe P) :=
  setCstr_post _ _ _ hIn

theorem readData_post {off k : Nat} (hIn : inp.Inside) :
    Post (readData .exact inp off k)
      (fun r => r.1.length = k ∧ r.2 = off + k ∧ off + k ≤ inp.numBytes) (Safe P) := by
  refine (add_post off k).bind fun next hNext => .ite (fun _ => safe_bError P) fun hLe => ?_
  have hk : off + k ≤ inp.numBytes := by omega
  exact (fetch_post hIn hk).bind fun bytes hBytes => ⟨hBytes, hNext.1, hk⟩

theorem readUint32_post {off : Nat} (hIn : inp.Inside) :
    Post (readUint32 .exact inp off) (fun r => r.2 = off + 4 ∧ off + 4 ≤ inp.numBytes) (Safe P) :=
  (readData_post hIn).bind fun _ hr => hr.2

theorem readItemSize_post {off : Nat} (hIn : inp.Inside) :
    Post (readItemSize .exact inp off)
      (fun r => r.2.1 = off + 4 ∧ r.2.2 = r.2.1 + r.1 ∧ r.2.2 ≤ inp.numBytes) (Safe P) := by
  refine (readUint32_post hIn).bind fun r hr => (add_post r.2 r.1).bind fun next hNext => ?_
  exact .ite (fun _ => safe_bError P) fun hLe => ⟨hr.1, hNext.1, by simpa using hLe⟩

theorem stringItems_post (hIn : inp.Inside) (count off : Nat) :
    Post (stringItems .exact inp count off) (fun _ => True) (Safe P) := by
  induction count generalizing off with
  | zero => trivial
  | succ count ih =>
    refine (readUint32_post hIn).bind fun r hr => .ite (fun _ => safe_bError P) fun _ => ?_
    refine (add_post r.2 r.1).bind fun next hNext => .ite (fun _ => safe_bError P) fun hLe => ?_
    have hSub : (inp.sub r.2 r.1).Inside := hIn.sub (by omega)
    exact (CStr.unflatten_post hSub).bind fun _ _ => (ih next).bind fun _ _ => trivial

theorem bufferItems_post (hIn : inp.Inside) (count off : Nat) :
    Post (bufferItems .exact inp count off) (fun _ => True) (Safe P) := by
  induction count generalizing off with
  | zero => trivial
  | succ count ih =>
    refine (readItemSize_post hIn).bind fun ⟨readFs, off', next⟩ hr => ?_
    simp only at hr
    exact (fetch_post hIn (by omega)).bind fun _ _ => (ih next).bind fun _ _ => trivial

theorem fixedUnflatten_post {α : Type} (c : FixedCodec α) (hIn : inp.Inside) :
    Post (fixedUnflatten c inp) (fun _ => True) (Safe P) :=
  .ite (fun _ => safe_bError P) fun _ => (fetch_post hIn (by omega)).bind fun _ _ => trivial

theorem boolUnflatten_post (hIn : inp.Inside) :
    Post (boolUnflatten inp) (fun _ => True) (Safe P) :=
  (fetch_post hIn (by omega)).bind fun _ _ => trivial

end

/-- No Message field, at any depth, has more than a quarter as many items as there are bytes. -/
def FewItems (n : Nat) : Message → Prop :=
  Message.Throughout fun m => ∀ e ∈ m.entries, 4 * e.2.messages.length ≤ n

/-- `FewItems` for one field. -/
def FewItemsArray (n : Nat) (array : DataArray) : Prop :=
  4 * array.messages.length ≤ n ∧ ∀ m, some m ∈ array.messages → FewItems n m

theorem fewItems_mk {n : Nat} {what : UInt32} {es : List (CStr × DataArray)}
    (h : ∀ e ∈ es, FewItemsArray n e.2) : FewItems n (.mk what es) :=
  Message.throughout_mk (fun e hMem => (h e hMem).1) fun e hMem => (h e hMem).2

/-- What the field parsers need of the parser for the Messages inside the field. -/
def ParsesWithin (parse : Input → Parse Message) (n fuel : Nat) : Prop :=
  ∀ inp : Input, inp.Inside → inp.numBytes ≤ n →
    Post (parse inp) (FewItems n) (Safe (inp.numBytes < 4 * fuel))

section

variable {parse : Input → Parse Message} {n fuel : Nat} {inp : Input}

theorem messageItem_post (hParse : ParsesWithin parse n fuel) (hIn : inp.Inside)
    (hn : inp.numBytes ≤ n) (off : Nat) :
    Post (messageItem .exact parse inp off)
      (fun r => FewItems n r.1 ∧ off + 4 ≤ r.2 ∧ r.2 ≤ inp.numBytes)
      (Safe (inp.numBytes < off + 4 * (fuel + 1))) := by
  refine (readItemSize_post hIn).bind fun ⟨readFs, off', next⟩ hr => ?_
  simp only at hr
  have hSub : (inp.sub off' readFs).Inside := hIn.sub (by omega)
  have hItem := hParse _ hSub (by rw [Input.sub_numBytes]; omega)
  refine (hItem.mono (fun _ h => h) (Safe.mono ?_)).bind fun m hm => ⟨hm, by omega, by omega⟩
  rw [Input.sub_numBytes]
  omega

theorem messageItems_post (hParse : ParsesWithin parse n fuel) (hIn : inp.Inside)
    (hn : inp.numBytes ≤ n) (k off : Nat) :
    Post (messageItems .exact parse inp k off)
      (fun ms => (∀ m ∈ ms, FewItems n m) ∧ (off ≤ inp.numBytes → off + 4 * ms.length ≤ inp.numBytes))
      (Safe (inp.numBytes < off + 4 * k ∧ inp.numBytes < off + 4 * (fuel + 1))) := by
  induction k generalizing off with
  | zero =>
    refine .ite (fun hLt => ⟨by simp, fun hEnough => ?_⟩) fun _ => by simp
    omega
  | succ k ih =>
    refine .ite (fun _ => ?_) fun _ => by simp
    refine ((messageItem_post hParse hIn hn off).mono (fun _ h => h) (Safe.mono And.right)).bind
      fun r hr => ?_
    refine ((ih r.2).mono (fun _ h => h) (Safe.mono (by omega))).bind fun ms hms => ?_
    refine ⟨by simpa using ⟨hr.1, hms.1⟩, fun _ => ?_⟩
    have := hms.2 hr.2.2
    rw [List.length_cons]
    omega

/-- Reading a field keeps to the field's bytes. -/
theorem ArrayClass.unflatten_post (hParse : ParsesWithin parse n fuel) (hIn : inp.Inside)
    (hn : inp.numBytes ≤ n) (cls : ArrayClass) :
    Post (cls.unflatten .exact parse fuel inp) (FewItemsArray n)
      (Safe (inp.numBytes < 4 * fuel)) := by
  cases cls with
  | bool => exact (boolUnflatten_post hIn).bind fun _ _ => by simp [FewItemsArray, DataArray.messages]
  | prim t => exact (fixedUnflatten_post t.codec hIn).bind fun _ _ => by simp [FewItemsArray, DataArray.messages]
  | point => exact (fixedUnflatten_post _ hIn).bind fun _ _ => by simp [FewItemsArray, DataArray.messages]
  | rect => exact (fixedUnflatten_post _ hIn).bind fun _ _ => by simp [FewItemsArray, DataArray.messages]
  | pointer => exact (fixedUnflatten_post _ hIn).bind fun _ _ => by simp [FewItemsArray, DataArray.messages]
  | tag => exact safe_crash _
  | string =>
    refine Post.bind ((readUint32_post hIn).bind fun r _ => stringItems_post hIn r.1 r.2) fun _ _ => ?_
    simp [FewItemsArray, DataArray.messages]
  | buffer tc =>
    refine Post.bind ((readUint32_post hIn).bind fun r _ => bufferItems_post hIn r.1 r.2) fun _ _ => ?_
    simp [FewItemsArray, DataArray.messages]
  | message =>
    refine ((messageItems_post hParse hIn hn fuel 0).mono (fun _ h => h)
      (Safe.mono (by omega))).bind fun ms hms => ?_
    have hLen := hms.2 (Nat.zero_le _)
    refine ⟨by simp only [DataArray.messages, List.length_map]; omega, fun m hm => hms.1 m ?_⟩
    simpa [DataArray.messages] using hm

theorem unflattenEntry_post (hParse : ParsesWithin parse n fuel) (hIn : inp.Inside)
    (hn : inp.numBytes ≤ n + 12) {es : List (CStr × DataArray)} {off : Nat} (hOff : 12 ≤ off)
    (hEs : ∀ e ∈ es, FewItemsArray n e.2) :
    Post (unflattenEntry .exact parse fuel inp es off)
      (fun r => (∀ e ∈ r.1, FewItemsArray n e.2) ∧ 12 ≤ r.2)
      (Safe (inp.numBytes < 4 * (fuel + 1))) := by
  refine (readUint32_post hIn).bind fun ⟨nameLength, off₁⟩ h₁ => (sub_post _ _).bind fun left hLeft => ?_
  refine .ite (fun _ => safe_bError _) fun hName => ?_
  simp only at h₁ hLeft hName
  have hNameIn : (inp.sub off₁ nameLength).Inside := hIn.sub (by omega)
  refine (CStr.unflatten_post hNameIn).bind fun name _ => (add_post _ _).bind fun off₂ h₂ => ?_
  refine (readUint32_post hIn).bind fun ⟨tc, off₃⟩ h₃ => ?_
  refine (readUint32_post hIn).bind fun ⟨eLength, off₄⟩ h₄ => (sub_post _ _).bind fun left' hLeft' => ?_
  refine .ite (fun _ => safe_bError _) fun hLength => ?_
  simp only at h₃ h₄ hLeft' hLength
  have hFieldIn : (inp.sub off₄ eLength).Inside := hIn.sub (by omega)
  refine Post.bind (Q := fun _ => True) ?_ fun cls _ => ?_
  · simp only [getOrCreateArray]
    split
    · exact .ite (fun _ => trivial) fun _ => safe_bError _
    · trivial
  have hArray := cls.unflatten_post hParse hFieldIn (by rw [Input.sub_numBytes]; omega)
  rw [Input.sub_numBytes] at hArray
  refine (hArray.mono (fun _ h => h) (Safe.mono (by omega))).bind fun array hFew => ?_
  exact (add_post _ _).bind fun off₅ h₅ => ⟨forall_putEntry hEs hFew, by omega⟩

theorem unflattenEntries_post (hParse : ParsesWithin parse n fuel) (hIn : inp.Inside)
    (hn : inp.numBytes ≤ n + 12) (count : Nat) {es : List (CStr × DataArray)} {off : Nat}
    (hOff : 12 ≤ off) (hEs : ∀ e ∈ es, FewItemsArray n e.2) :
    Post (unflattenEntries .exact parse fuel inp count es off)
      (fun es => ∀ e ∈ es, FewItemsArray n e.2) (Safe (inp.numBytes < 4 * (fuel + 1))) := by
  induction count generalizing es off with
  | zero => exact hEs
  | succ count ih =>
    exact (unflattenEntry_post hParse hIn hn hOff hEs).bind fun ⟨es, off⟩ h => ih h.2 h.1

end

theorem readHeader_post {P : Prop} {inp : Input} (hIn : inp.Inside) :
    Post (readHeader .exact inp) (fun r => r.2.2 = 12) (Safe P) := by
  refine (readUint32_post hIn).bind fun ⟨version, off₁⟩ h₁ => .ite (fun _ => safe_bError P) fun _ => ?_
  refine (readUint32_post hIn).bind fun ⟨what, off₂⟩ h₂ => ?_
  exact (readUint32_post hIn).bind fun ⟨count, off₃⟩ h₃ => by
    simp only [Post.pure] at h₁ h₂ h₃ ⊢
    omega

/-- The exact run reads only inside its input, ends, and finds no more items in a Message field
than there are words in it. -/
theorem Message.unflatten_post (fuel n : Nat) : ParsesWithin (Message.unflatten .exact fuel) n fuel := by
  induction fuel generalizing n with
  | zero => exact fun inp _ _ => ⟨by simp, by omega⟩
  | succ fuel ih =>
    intro inp hIn hn
    refine (readHeader_post hIn).bind fun ⟨what, count, off⟩ hOff => ?_
    refine (unflattenEntries_post (ih n) hIn (by omega) count (Nat.le_of_eq hOff.symm)
      (by simp)).bind fun es hEs => ?_
    exact fewItems_mk hEs

end BeShare.Muscle
