import BeShare.Util.Strings

/-! What `String::Replace` leaves in the receiver: the loop does the replacement of the occurrences from the left to the
right, in the receiver's buffer when the text does not grow, and in a new buffer when it does. -/

namespace BeShare.Muscle.Strings

open BeShare.Lib

variable {s : MuscleString} {replaceMe withMe : Arg} {x m y b word new : List UInt8}

/-! ### Buffers -/

theorem readCstr_eq (hb : 0 ∉ b) : readCstr (x ++ b ++ 0 :: y) x.length = some b := by
  have hDrop : (x ++ b ++ 0 :: y).drop x.length = b ++ 0 :: y := by rw [List.append_assoc, List.drop_left]
  have hPlain : ∀ c ∈ b, (c != 0) = true := by
    intro c hc
    rw [bne_iff_ne]
    rintro rfl
    exact hb hc
  rw [readCstr, hDrop, if_pos (by simp), List.takeWhile_append_of_pos hPlain]
  simp

theorem readBytes_eq {p n : Nat} (hp : p = x.length) (hn : n = m.length) :
    readBytes (x ++ m ++ y) p n = some m := by
  subst hp hn
  rw [readBytes, if_pos (by simp only [List.length_append]; omega), List.append_assoc, List.drop_left, List.take_left]

theorem store_eq {p : Nat} {bytes z : List UInt8} (hp : p = x.length) (hFits : bytes.length ≤ z.length) :
    store (x ++ z) p bytes = some (x ++ bytes ++ z.drop bytes.length) := by
  subst hp
  rw [store, if_pos (by simp only [List.length_append]; omega), List.take_left, ← List.drop_drop, List.drop_left]

/-- A write keeps the size of the buffer. -/
theorem length_store {buffer buffer' bytes : List UInt8} {p : Nat} (h : store buffer p bytes = some buffer') :
    buffer'.length = buffer.length ∧ p + bytes.length ≤ buffer.length := by
  unfold store at h
  split at h
  · rename_i hFits
    cases h
    refine ⟨?_, hFits⟩
    simp only [List.length_append, List.length_take, List.length_drop]
    omega
  · cases h

theorem MuscleString.readCstr_buffer (s : MuscleString) : readCstr s.buffer 0 = some s.chars :=
  readCstr_eq (x := []) (y := s.slack) s.noNul

/-! ### Counting -/

theorem indexOf_eq (x s str : List UInt8) (hStr : str ≠ []) :
    indexOf (x ++ s) str x.length =
      match firstIndex str s with
      | some i => (x.length + i : Int)
      | none => -1 := by
  rw [indexOf, List.drop_left]
  cases s with
  | nil =>
    rw [List.append_nil, if_neg (Nat.lt_irrefl _), firstIndex, if_neg hStr]
  | cons c s =>
    refine (if_pos (by simp)).trans ?_
    cases firstIndex str (c :: s) <;> rfl

theorem numInstancesLoop_eq (hWord : word ≠ []) (hShort : x.length + b.length < 2 ^ 31) {fuel ret : Nat}
    (hFuel : b.length < fuel) (hRet : ret + b.length < 2 ^ 32) :
    numInstancesLoop (x ++ b) word fuel x.length ret = some (ret + occurrences word b) := by
  induction b using occurrence_induction hWord generalizing x fuel ret with
  | absent s hFirst hCount hReplace =>
    obtain ⟨fuel, rfl⟩ : ∃ n, fuel = n + 1 := ⟨fuel - 1, by omega⟩
    rw [numInstancesLoop, indexOf_eq x s word hWord, hFirst, hCount]
    rfl
  | found a b hFirst hCount hReplace ih =>
    obtain ⟨fuel, rfl⟩ : ∃ n, fuel = n + 1 := ⟨fuel - 1, by omega⟩
    have hPos := List.length_pos_iff.mpr hWord
    simp only [List.length_append] at hShort hFuel hRet
    have hSplit : x ++ (a ++ word ++ b) = (x ++ (a ++ word)) ++ b := by simp only [List.append_assoc]
    have hNext : ((x.length + a.length : Int).toNat + word.length) % 2 ^ 32 = (x ++ (a ++ word)).length := by
      simp only [List.length_append]
      omega
    rw [numInstancesLoop, indexOf_eq x _ word hWord, hFirst]
    simp only
    rw [if_pos (by omega), hNext, hSplit, Nat.mod_eq_of_lt (by omega : ret + 1 < 2 ^ 32), hCount,
      ih (by simp only [List.length_append]; omega) (by omega) (by omega)]
    congr 1
    omega

/-- `GetNumInstancesOf` counts the occurrences that are replaced. -/
theorem getNumInstancesOf_eq (s : MuscleString) (hWord : word ≠ []) :
    getNumInstancesOf s.chars word = some (occurrences word s.chars) := by
  have hShort := s.short
  have hCount : numInstancesLoop ([] ++ s.chars) word (s.chars.length + 1) ([] : List UInt8).length 0 = _ :=
    numInstancesLoop_eq hWord (by simpa using hShort) (by omega) (by omega)
  rw [getNumInstancesOf, if_pos (List.length_pos_iff.mpr hWord)]
  simpa using hCount

/-! ### The steps of the loop -/

/-- A step of the loop at an occurrence. -/
theorem replaceLoop_found {l l' : Loop} {delta : Int} {fuel i p : Nat} {text needle bytes : List UInt8}
    (hText : readCstr l.buffer l.readPtr = some text) (hNeedle : replaceMe.cstr l.buffer = some needle)
    (hFirst : firstIndex needle text = some i) (hAdvance : l.advance delta i = some (l', p))
    (hBytes : withMe.bytes l'.buffer (withMe.chars s).length = some bytes) :
    replaceLoop s replaceMe withMe delta (fuel + 1) l = (l'.write p bytes).bind fun l'' =>
      replaceLoop s replaceMe withMe delta fuel
        { l'' with
          readPtr := l.readPtr + i + (replaceMe.chars s).length
          writePtr := some (p + (withMe.chars s).length)
          ret := l.ret + 1 } := by
  rw [replaceLoop, hText, Option.bind_eq_bind, Option.bind_some, hNeedle, Option.bind_eq_bind, Option.bind_some, hFirst]
  simp only [hAdvance, hBytes, Option.bind_eq_bind, Option.bind_some]

/-- The last step of the loop. -/
theorem replaceLoop_absent {l : Loop} {delta : Int} {fuel : Nat} {text needle : List UInt8}
    (hText : readCstr l.buffer l.readPtr = some text) (hNeedle : replaceMe.cstr l.buffer = some needle)
    (hFirst : firstIndex needle text = none) :
    replaceLoop s replaceMe withMe delta (fuel + 1) l = l.finish s.chars.length delta := by
  rw [replaceLoop, hText, Option.bind_eq_bind, Option.bind_some, hNeedle, Option.bind_eq_bind, Option.bind_some, hFirst]

theorem Arg.cstr_buffer (a : Arg) (s : MuscleString) : a.cstr s.buffer = some (a.chars s) := by
  cases a with
  | receiver => exact s.readCstr_buffer
  | other t => rfl

theorem Arg.bytes_buffer (a : Arg) (s : MuscleString) :
    a.bytes s.buffer (a.chars s).length = some (a.chars s) := by
  cases a with
  | receiver => exact readBytes_eq (x := []) (y := 0 :: s.slack) rfl rfl
  | other t => exact readBytes_eq (x := []) (y := 0 :: t.slack) rfl rfl

theorem Arg.bytes_other (t : MuscleString) (buffer : List UInt8) :
    (Arg.other t).bytes buffer ((Arg.other t).chars s).length = some t.chars :=
  readBytes_eq (x := []) (y := 0 :: t.slack) rfl rfl

/-! ### In place -/

section
variable {l : Loop} {a z : List UInt8} {delta : Int}

theorem write_inPlace {p : Nat} {bytes : List UInt8} (hTemp : l.temp = none) (hBuffer : l.buffer = x ++ z)
    (hp : p = x.length) (hFits : bytes.length ≤ z.length) :
    l.write p bytes = some { l with buffer := x ++ bytes ++ z.drop bytes.length } := by
  rw [Loop.write, hTemp]
  simp only [hBuffer, store_eq hp hFits, Option.map_some]

/-- The text moves to the front, and what it moves over stands behind it. -/
theorem move_inPlace (hTemp : l.temp = none) (hBuffer : l.buffer = x ++ m ++ a ++ z)
    (hRead : l.readPtr = (x ++ m).length) :
    l.move x.length a.length = some { l with buffer := x ++ a ++ (m ++ a).drop a.length ++ z } := by
  have hBytes : readBytes l.buffer l.readPtr a.length = some a := by
    rw [hBuffer]
    exact readBytes_eq hRead rfl
  have hSplit : l.buffer = x ++ (m ++ a ++ z) := by
    rw [hBuffer]
    simp only [List.append_assoc]
  rw [Loop.move, hBytes, Option.bind_eq_bind, Option.bind_some,
    write_inPlace hTemp hSplit rfl (by simp only [List.length_append]; omega),
    List.drop_append_of_le_length (by simp only [List.length_append]; omega), List.append_assoc (x ++ a)]

theorem advance_inPlace (hTemp : l.temp = none) (hBuffer : l.buffer = x ++ m ++ a ++ z)
    (hRead : l.readPtr = (x ++ m).length)
    (hWrite : l.writePtr = some x.length ∨ l.writePtr = none ∧ x = [] ∧ m = []) (hDelta : delta = 0 → m = []) :
    l.advance delta a.length = some ({ l with buffer := x ++ a ++ (m ++ a).drop a.length ++ z }, (x ++ a).length) := by
  have hSame (hm : m = []) : { l with buffer := x ++ a ++ (m ++ a).drop a.length ++ z } = l := by
    subst hm
    rw [List.nil_append, List.drop_length, List.append_nil]
    rw [List.append_nil] at hBuffer
    rw [← hBuffer]
  rcases hWrite with hWrite | ⟨hWrite, rfl, rfl⟩
  · have hAdvance : l.advance delta a.length =
        (if delta ≠ 0 then l.move x.length a.length else some l) >>= fun l => some (l, x.length + a.length) := by
      rw [Loop.advance, hWrite]
      rfl
    rw [hAdvance, List.length_append]
    by_cases hZero : delta = 0
    · rw [if_neg (not_not.mpr hZero), Option.bind_eq_bind, Option.bind_some, hSame (hDelta hZero)]
    · rw [if_pos hZero, move_inPlace hTemp hBuffer hRead, Option.bind_eq_bind, Option.bind_some]
  · have hAdvance : l.advance delta a.length = some (l, l.readPtr + a.length) := by rw [Loop.advance, hWrite]
    rw [hAdvance, hSame rfl, hRead, List.length_append, List.length_append, List.length_nil, Nat.zero_add]

/-- The rest moves to the front, and a NUL ends it. -/
theorem finish_inPlace {length : Nat} (hTemp : l.temp = none) (hBuffer : l.buffer = x ++ m ++ b ++ 0 :: y)
    (hRead : l.readPtr = (x ++ m).length)
    (hWrite : l.writePtr = some x.length ∨ l.writePtr = none ∧ x = [] ∧ m = []) (hDelta : delta = 0 → m = [])
    (hLe : delta ≤ 0) (hLength : length = (x ++ m ++ b).length) (hShort : length < 2 ^ 31) :
    ∃ y', l.finish length delta = some ⟨x ++ b ++ 0 :: y', (x ++ b).length, l.ret⟩ := by
  have hNum : (length + 2 ^ 32 - l.readPtr) % 2 ^ 32 = b.length := by
    rw [hRead, hLength]
    rw [hLength] at hShort
    simp only [List.length_append] at hShort ⊢
    omega
  rcases hWrite with hWrite | ⟨hWrite, rfl, rfl⟩
  · obtain ⟨l', rest, hMove, hTemp', hBuffer', hRet, hRest⟩ : ∃ l' rest,
        (if delta ≠ 0 then l.move x.length b.length else some l) = some l' ∧ l'.temp = none ∧
          l'.buffer = (x ++ b) ++ rest ∧ l'.ret = l.ret ∧ rest ≠ [] := by
      by_cases hZero : delta = 0
      · obtain rfl := hDelta hZero
        rw [List.append_nil] at hBuffer
        exact ⟨l, 0 :: y, if_neg (not_not.mpr hZero), hTemp, hBuffer, rfl, List.cons_ne_nil _ _⟩
      · refine ⟨_, (m ++ b).drop b.length ++ 0 :: y, (if_pos hZero).trans (move_inPlace hTemp hBuffer hRead), hTemp,
          ?_, rfl, List.append_ne_nil_of_right_ne_nil _ (List.cons_ne_nil _ _)⟩
        simp only [List.append_assoc]
    have hOne : [(0 : UInt8)].length ≤ rest.length := List.length_pos_iff.mpr hRest
    refine ⟨rest.drop 1, ?_⟩
    rw [Loop.finish, hWrite]
    simp only [hNum, hMove, Option.bind_eq_bind, Option.bind_some,
      write_inPlace hTemp' hBuffer' (List.length_append ..).symm hOne, if_neg (Int.not_lt.mpr hLe),
      Option.pure_def, hRet, List.length_append, List.length_singleton, List.append_assoc, List.singleton_append]
  · refine ⟨y, ?_⟩
    rw [Loop.finish, hWrite, hLength, hBuffer]
    rfl

end

/-- The loop of a text that does not grow. What is done stands in front of what is still to be read. -/
theorem replaceLoop_inPlace {r w : MuscleString} (hWord : r.chars ≠ []) (hLe : w.chars.length ≤ r.chars.length)
    {delta : Int} (hDelta : delta = (w.chars.length - r.chars.length : Int)) {fuel : Nat} {l : Loop}
    (hTemp : l.temp = none) (hBuffer : l.buffer = x ++ m ++ b ++ 0 :: y) (hRead : l.readPtr = (x ++ m).length)
    (hWrite : l.writePtr = some x.length ∨ l.writePtr = none ∧ x = [] ∧ m = []) (hEqual : delta = 0 → m = [])
    (hNoNul : 0 ∉ b) (hLength : s.chars.length = (x ++ m ++ b).length) (hFuel : b.length < fuel) :
    ∃ y', replaceLoop s (.other r) (.other w) delta fuel l =
      some ⟨x ++ replaceAll r.chars w.chars b ++ 0 :: y', (x ++ replaceAll r.chars w.chars b).length,
        l.ret + occurrences r.chars b⟩ := by
  induction b using occurrence_induction hWord generalizing x m y fuel l with
  | absent b hFirst hCount hReplace =>
    obtain ⟨fuel, rfl⟩ : ∃ n, fuel = n + 1 := ⟨fuel - 1, by omega⟩
    have hText : readCstr l.buffer l.readPtr = some b := by
      rw [hBuffer, hRead]
      exact readCstr_eq hNoNul
    obtain ⟨y', hFinish⟩ := finish_inPlace hTemp hBuffer hRead hWrite hEqual (by omega) hLength s.short
    refine ⟨y', ?_⟩
    rw [replaceLoop_absent hText rfl hFirst, hFinish, hCount, hReplace, Nat.cast_zero, add_zero]
  | found a b hFirst hCount hReplace ih =>
    obtain ⟨fuel, rfl⟩ : ∃ n, fuel = n + 1 := ⟨fuel - 1, by omega⟩
    have hText : readCstr l.buffer l.readPtr = some (a ++ r.chars ++ b) := by
      rw [hBuffer, hRead]
      exact readCstr_eq hNoNul
    have hPos := List.length_pos_iff.mpr hWord
    simp only [List.length_append] at hLength hFuel
    -- the place of the occurrence, after the text before it has moved
    have hAssoc : l.buffer = x ++ m ++ a ++ (r.chars ++ b ++ 0 :: y) := by
      rw [hBuffer]
      simp only [List.append_assoc]
    have hAdvance := advance_inPlace hTemp hAssoc hRead hWrite hEqual
    generalize hBehind : (m ++ a).drop a.length = m' at hAdvance
    have hSame : m'.length = m.length := by
      rw [← hBehind, List.length_drop, List.length_append]
      omega
    have hRoom : w.chars.length ≤ (m' ++ (r.chars ++ b ++ 0 :: y)).length := by
      simp only [List.length_append]
      omega
    have hWritten := write_inPlace (l := { l with buffer := x ++ a ++ m' ++ (r.chars ++ b ++ 0 :: y) }) hTemp
      (List.append_assoc ..) rfl hRoom
    have hDrop : (m' ++ (r.chars ++ b ++ 0 :: y)).drop w.chars.length =
        (m' ++ r.chars).drop w.chars.length ++ (b ++ 0 :: y) := by
      rw [List.append_assoc r.chars, ← List.append_assoc m',
        List.drop_append_of_le_length (by rw [List.length_append]; omega)]
    obtain ⟨y', hLoop⟩ := ih (x := x ++ a ++ w.chars) (m := (m' ++ r.chars).drop w.chars.length) (y := y)
      (l := { l with
        buffer := x ++ a ++ w.chars ++ ((m' ++ r.chars).drop w.chars.length ++ (b ++ 0 :: y))
        readPtr := l.readPtr + a.length + r.chars.length
        writePtr := some ((x ++ a).length + w.chars.length)
        ret := l.ret + 1 }) hTemp (by simp only [List.append_assoc])
      (by
        rw [hRead]
        simp only [List.length_append, List.length_drop]
        omega)
      (.inl (congrArg some List.length_append.symm))
      (fun hZero => by
        rw [List.drop_eq_nil_iff, List.length_append, hSame, hEqual hZero, List.length_nil]
        omega)
      (fun hMem => hNoNul (List.mem_append_right _ hMem))
      (by
        simp only [List.length_append, List.length_drop]
        omega)
      (by omega : b.length < fuel)
    refine ⟨y', ?_⟩
    rw [replaceLoop_found hText rfl hFirst hAdvance (Arg.bytes_other w _), hWritten, Option.bind_some, hDrop]
    simp only [Arg.chars]
    rw [hLoop, hCount, hReplace, ← List.append_assoc x, ← List.append_assoc x, Nat.cast_add, Nat.cast_one,
      add_assoc l.ret, add_comm 1]

/-- The loop when the receiver is replaced by a shorter text. -/
theorem replaceLoop_receiver {w : MuscleString} (hWord : s.chars ≠ []) (hLe : w.chars.length ≤ s.chars.length)
    {delta : Int} (hDelta : delta = (w.chars.length - s.chars.length : Int)) (fuel : Nat) :
    ∃ y', replaceLoop s .receiver (.other w) delta (fuel + 2) ⟨s.buffer, none, 0, none, 0⟩ =
      some ⟨w.chars ++ 0 :: y', w.chars.length, 1⟩ := by
  have hShort := s.short
  have hFirst : firstIndex s.chars s.chars = some 0 := by
    obtain ⟨c, t, hCons⟩ := List.exists_cons_of_ne_nil hWord
    rw [hCons, firstIndex, if_pos List.prefix_rfl]
  have hWritten : (⟨s.buffer, none, 0, none, 0⟩ : Loop).write 0 w.chars =
      some ⟨w.chars ++ (s.chars.drop w.chars.length ++ 0 :: s.slack), none, 0, none, 0⟩ := by
    have hRoom : w.chars.length ≤ s.buffer.length := by
      simp only [MuscleString.buffer, List.length_append]
      omega
    rw [← List.drop_append_of_le_length hLe]
    exact write_inPlace (x := []) rfl rfl rfl hRoom
  generalize hRest : s.chars.drop w.chars.length = m at hWritten
  have hLength : s.chars.length = (w.chars ++ m).length := by
    rw [← hRest, List.length_append, List.length_drop]
    omega
  have hNeedle : Arg.receiver.cstr s.buffer = some s.chars := s.readCstr_buffer
  have hAdvance : (⟨s.buffer, none, 0, none, 0⟩ : Loop).advance delta 0 = some (⟨s.buffer, none, 0, none, 0⟩, 0) := rfl
  rw [replaceLoop_found (l := ⟨s.buffer, none, 0, none, 0⟩) s.readCstr_buffer hNeedle hFirst hAdvance
    (Arg.bytes_other w _), hWritten, Option.bind_some]
  -- the search string has been written over, but nothing is left to be searched
  obtain ⟨needle, hNeedle', hNonempty⟩ : ∃ needle,
      Arg.receiver.cstr (w.chars ++ (m ++ 0 :: s.slack)) = some needle ∧ needle ≠ [] := by
    by_cases hw : w.chars = []
    · refine ⟨s.chars, ?_, hWord⟩
      rw [hw, List.nil_append, ← hRest, hw]
      exact s.readCstr_buffer
    · obtain ⟨c, t, hCons⟩ := List.exists_cons_of_ne_nil hw
      have hc : (c != 0) = true := by
        rw [bne_iff_ne]
        rintro rfl
        exact w.noNul (hCons ▸ List.mem_cons_self)
      refine ⟨_, if_pos (by simp), ?_⟩
      rw [List.drop_zero, hCons, List.cons_append, List.takeWhile_cons_of_pos (p := (· != 0)) hc]
      exact List.cons_ne_nil _ _
  have hText : readCstr (w.chars ++ (m ++ 0 :: s.slack)) s.chars.length = some [] := by
    have hRead := readCstr_eq (x := w.chars ++ m) (b := []) (y := s.slack) List.not_mem_nil
    rwa [List.append_nil, List.append_assoc, ← hLength] at hRead
  have hNone : firstIndex needle [] = none := if_neg hNonempty
  obtain ⟨y', hFinish⟩ := finish_inPlace (x := w.chars) (m := m) (b := []) (y := s.slack)
    (l := ⟨w.chars ++ (m ++ 0 :: s.slack), none, s.chars.length, some w.chars.length, 1⟩) rfl
    (by simp only [List.append_assoc, List.nil_append]) hLength (.inl rfl)
    (fun hZero => List.length_eq_zero_iff.mp (by rw [List.length_append] at hLength; omega)) (by omega : delta ≤ 0)
    (hLength.trans (by rw [List.append_nil])) hShort
  refine ⟨y', ?_⟩
  simp only [Arg.chars, Nat.zero_add, Int.zero_add]
  rw [replaceLoop_absent hText hNeedle' hNone, hFinish, List.append_nil]

/-! ### In a new buffer -/

section
variable {l : Loop} {a t : List UInt8} {delta : Int}

theorem write_temp {bytes : List UInt8} {p : Nat} (hTemp : l.temp = some (x ++ t)) (hp : p = x.length) :
    l.write p bytes =
      if bytes.length ≤ t.length then some { l with temp := some (x ++ bytes ++ t.drop bytes.length) } else none := by
  rw [Loop.write, hTemp]
  by_cases hFits : bytes.length ≤ t.length
  · rw [if_pos hFits]
    simp only [store_eq hp hFits, Option.map_some]
  · rw [if_neg hFits]
    simp only [store, hp, List.length_append, Nat.add_le_add_iff_left, if_neg hFits, Option.map_none]

theorem advance_temp (hTemp : l.temp = some (x ++ t)) (hWrite : l.writePtr = some x.length) (hDelta : 0 < delta)
    (hBytes : readBytes l.buffer l.readPtr a.length = some a) :
    l.advance delta a.length =
      if a.length ≤ t.length then
        some ({ l with temp := some (x ++ a ++ t.drop a.length) }, (x ++ a).length)
      else none := by
  have hAdvance : l.advance delta a.length =
      (if delta ≠ 0 then l.move x.length a.length else some l) >>= fun l => some (l, x.length + a.length) := by
    rw [Loop.advance, hWrite]
    rfl
  rw [hAdvance, if_pos (by omega), Loop.move, hBytes, Option.bind_eq_bind, Option.bind_eq_bind, Option.bind_some,
    write_temp hTemp rfl]
  split
  · rw [Option.bind_some, List.length_append]
  · rfl

theorem finish_temp {length : Nat} (hTemp : l.temp = some (x ++ t)) (hWrite : l.writePtr = some x.length)
    (hDelta : 0 < delta) (hBytes : readBytes l.buffer l.readPtr b.length = some b)
    (hLength : length = l.readPtr + b.length) (hShort : length < 2 ^ 31) :
    ∃ y', l.finish length delta =
      if b.length < t.length then some ⟨x ++ b ++ 0 :: y', (x ++ b).length, l.ret⟩ else none := by
  have hNum : (length + 2 ^ 32 - l.readPtr) % 2 ^ 32 = b.length := by omega
  have hFinish : l.finish length delta = (l.move x.length b.length).bind fun l =>
      (l.write (x ++ b).length [0]).bind fun l => l.temp.bind fun temp => some ⟨temp, (x ++ b).length, l.ret⟩ := by
    rw [Loop.finish, hWrite]
    simp only [hNum, if_pos (show delta ≠ 0 by omega), if_pos hDelta, List.length_append]
    rfl
  refine ⟨t.drop (b.length + 1), ?_⟩
  rw [hFinish, Loop.move, hBytes, Option.bind_eq_bind, Option.bind_some, write_temp hTemp rfl]
  by_cases hFits : b.length ≤ t.length
  · rw [if_pos hFits, Option.bind_some, write_temp rfl rfl, List.length_drop, List.length_singleton]
    by_cases hMore : b.length < t.length
    · rw [if_pos (by omega), if_pos hMore, List.drop_drop]
      simp only [Option.bind_some, List.append_assoc, List.singleton_append]
    · rw [if_neg (by omega), if_neg hMore]
      rfl
  · rw [if_neg hFits, if_neg (by omega)]
    rfl

/-- The loop of a text that grows. It ends with the result when the buffer has room for it, and with a write behind the
buffer otherwise. -/
theorem replaceLoop_temp (withMe : Arg) (hWord : replaceMe.chars s ≠ []) (hDelta : 0 < delta) {fuel : Nat}
    {done : List UInt8} (hBuffer : l.buffer = s.buffer) (hTemp : l.temp = some (x ++ t))
    (hWrite : l.writePtr = some x.length)
    (hChars : s.chars = done ++ b) (hRead : l.readPtr = done.length) (hFuel : b.length < fuel) :
    ∃ y', replaceLoop s replaceMe withMe delta fuel l =
      if (replaceAll (replaceMe.chars s) (withMe.chars s) b).length < t.length then
        some ⟨x ++ replaceAll (replaceMe.chars s) (withMe.chars s) b ++ 0 :: y',
          (x ++ replaceAll (replaceMe.chars s) (withMe.chars s) b).length, l.ret + occurrences (replaceMe.chars s) b⟩
      else none := by
  have hAt {done b : List UInt8} {l : Loop} (hBuffer : l.buffer = s.buffer) (hChars : s.chars = done ++ b)
      (hRead : l.readPtr = done.length) : readCstr l.buffer l.readPtr = some b := by
    rw [hBuffer, hRead, MuscleString.buffer, hChars]
    exact readCstr_eq fun hMem => s.noNul (hChars ▸ List.mem_append_right _ hMem)
  have hNeedle := replaceMe.cstr_buffer s
  have hNew := withMe.bytes_buffer s
  induction b using occurrence_induction hWord generalizing x t fuel l done with
  | absent b hFirst hCount hReplace =>
    obtain ⟨fuel, rfl⟩ : ∃ n, fuel = n + 1 := ⟨fuel - 1, by omega⟩
    have hText := hAt hBuffer hChars hRead
    have hBytes : readBytes l.buffer l.readPtr b.length = some b := by
      rw [hBuffer, MuscleString.buffer, hChars]
      exact readBytes_eq hRead rfl
    have hLength : s.chars.length = l.readPtr + b.length := by rw [hChars, hRead, List.length_append]
    obtain ⟨y', hFinish⟩ := finish_temp hTemp hWrite hDelta hBytes hLength s.short
    refine ⟨y', ?_⟩
    rw [replaceLoop_absent hText (hBuffer ▸ hNeedle) hFirst, hFinish, hCount, hReplace, Nat.cast_zero, add_zero]
  | found a b hFirst hCount hReplace ih =>
    obtain ⟨fuel, rfl⟩ : ∃ n, fuel = n + 1 := ⟨fuel - 1, by omega⟩
    have hText := hAt hBuffer hChars hRead
    simp only [List.length_append] at hFuel
    have hBytes : readBytes l.buffer l.readPtr a.length = some a := by
      have hSplit : s.buffer = done ++ a ++ (replaceMe.chars s ++ b ++ 0 :: s.slack) := by
        rw [MuscleString.buffer, hChars]
        simp only [List.append_assoc]
      rw [hBuffer, hSplit]
      exact readBytes_eq hRead rfl
    have hAdvance := advance_temp hTemp hWrite hDelta hBytes
    generalize hWordChars : replaceMe.chars s = word at *
    generalize hNewChars : withMe.chars s = new at *
    have hPos := List.length_pos_iff.mpr hWord
    by_cases hFits : a.length ≤ t.length
    · rw [if_pos hFits] at hAdvance
      have hFound : replaceLoop s replaceMe withMe delta (fuel + 1) l = _ :=
        replaceLoop_found hText (hBuffer ▸ hNeedle) hFirst hAdvance (by rw [hNewChars]; exact hBuffer ▸ hNew)
      rw [write_temp rfl rfl, List.length_drop, hWordChars, hNewChars] at hFound
      by_cases hMore : new.length ≤ t.length - a.length
      · rw [if_pos hMore, Option.bind_some] at hFound
        obtain ⟨y', hLoop⟩ := ih (x := x ++ a ++ new) (t := (t.drop a.length).drop new.length)
          (l := ⟨l.buffer, some (x ++ a ++ new ++ (t.drop a.length).drop new.length),
            l.readPtr + a.length + word.length, some ((x ++ a).length + new.length), l.ret + 1⟩)
          hBuffer rfl (congrArg some List.length_append.symm)
          (by rw [hChars]; simp only [List.append_assoc] : s.chars = done ++ a ++ word ++ b)
          (by simp only [hRead, List.length_append]) (by omega : b.length < fuel)
        refine ⟨y', ?_⟩
        have hRoom : (replaceAll word new b).length < ((t.drop a.length).drop new.length).length ↔
            (a ++ new ++ replaceAll word new b).length < t.length := by
          simp only [List.length_append, List.length_drop]
          omega
        rw [hFound, hLoop, hReplace, hCount]
        simp only [hRoom, List.append_assoc, Nat.cast_add, Nat.cast_one, add_assoc, add_comm (1 : Int)]
      · refine ⟨[], ?_⟩
        rw [hFound, if_neg hMore, hReplace, if_neg (by simp only [List.length_append]; omega)]
        rfl
    · rw [if_neg hFits] at hAdvance
      refine ⟨[], ?_⟩
      rw [hReplace, if_neg (by simp only [List.length_append]; omega), replaceLoop, hText, Option.bind_eq_bind,
        Option.bind_some, hBuffer, hNeedle, Option.bind_eq_bind, Option.bind_some, hFirst]
      simp only [hAdvance, Option.bind_eq_bind, Option.bind_none]

end

/-- A text that grows and has no new buffer is only left alone. -/
theorem replaceLoop_null {delta : Int} (hDelta : 0 < delta) {fuel : Nat} {l : Loop} {r : Replaced}
    (hTemp : l.temp = none) (h : replaceLoop s replaceMe withMe delta fuel l = some r) :
    l.writePtr = none ∧ r.ret = l.ret := by
  induction fuel generalizing l with
  | zero => cases h
  | succ fuel ih =>
    have hKeeps {l l' : Loop} {p : Nat} {bytes : List UInt8} (hTemp : l.temp = none)
        (hWrite : l.write p bytes = some l') : l'.temp = none := by
      rw [Loop.write, hTemp] at hWrite
      obtain ⟨b, -, rfl⟩ := Option.map_eq_some_iff.mp hWrite
      rfl
    have hMoved {l l' : Loop} {p n : Nat} (hTemp : l.temp = none)
        (hMove : (if delta ≠ 0 then l.move p n else some l) = some l') : l'.temp = none := by
      rw [if_pos (by omega)] at hMove
      obtain ⟨bytes, -, hWrite⟩ := Option.bind_eq_some_iff.mp hMove
      exact hKeeps hTemp hWrite
    rw [replaceLoop] at h
    obtain ⟨text, -, h⟩ := Option.bind_eq_some_iff.mp h
    obtain ⟨needle, -, h⟩ := Option.bind_eq_some_iff.mp h
    split at h
    · obtain ⟨⟨l₁, p⟩, hAdvance, h⟩ := Option.bind_eq_some_iff.mp h
      obtain ⟨bytes, -, h⟩ := Option.bind_eq_some_iff.mp h
      obtain ⟨l₂, hWrite, h⟩ := Option.bind_eq_some_iff.mp h
      have hTemp₁ : l₁.temp = none := by
        rw [Loop.advance] at hAdvance
        split at hAdvance
        · obtain ⟨l', hMove, hAdvance⟩ := Option.bind_eq_some_iff.mp hAdvance
          cases hAdvance
          exact hMoved hTemp hMove
        · cases hAdvance
          exact hTemp
      -- from now on `writePtr` is set
      have hTemp₂ : l₂.temp = none := hKeeps hTemp₁ hWrite
      have hNone := (ih (l := ⟨l₂.buffer, l₂.temp, _, some _, _⟩) hTemp₂ h).1
      exact absurd hNone (Option.some_ne_none _)
    · rw [Loop.finish] at h
      split at h
      · obtain ⟨l₁, hMove, h⟩ := Option.bind_eq_some_iff.mp h
        obtain ⟨l₂, hWrite, h⟩ := Option.bind_eq_some_iff.mp h
        rw [if_pos hDelta, hKeeps (hMoved hTemp hMove) hWrite] at h
        cases h
      · rename_i hNone
        cases h
        exact ⟨hNone, rfl⟩

/-! ### The result -/

/-- The string has the characters of `text`. -/
def Replaced.Holds (r : Replaced) (text : List UInt8) : Prop :=
  ∃ slack, r.buffer = text ++ 0 :: slack ∧ r.length = text.length

/-- `Replace` replaces every occurrence, and counts them as `GetNumInstancesOf` does. -/
def ReplacesAll (memory : Memory) (s : MuscleString) (replaceMe withMe : Arg) : Prop :=
  ∃ r, replace memory s replaceMe withMe = some r ∧
    r.Holds (replaceAll (replaceMe.chars s) (withMe.chars s) s.chars) ∧
    r.ret = occurrences (replaceMe.chars s) s.chars ∧
    getNumInstancesOf s.chars (replaceMe.chars s) = some (occurrences (replaceMe.chars s) s.chars)

/-- The size of a buffer for that many characters fits into its type, and there is memory for it. -/
def Memory.HasRoom (memory : Memory) (numChars : Nat) : Prop :=
  numChars + 1 < 2 ^ 32 ∧ (numChars + 1 ≤ 8 ∨ (memory.alloc (numChars + 1)).isSome)

theorem MuscleString.holds_self (s : MuscleString) (ret : Int) :
    (⟨s.buffer, s.chars.length, ret⟩ : Replaced).Holds s.chars :=
  ⟨s.slack, rfl, rfl⟩

/-- A text that does not grow. -/
theorem replace_inPlace (memory : Memory) (hWord : replaceMe.chars s ≠ [])
    (hLe : (withMe.chars s).length ≤ (replaceMe.chars s).length) : ReplacesAll memory s replaceMe withMe := by
  have hCount := getNumInstancesOf_eq s hWord
  have hLength : (replaceMe.chars s).length ≠ 0 := fun h => hWord (List.length_eq_zero_iff.mp h)
  by_cases hSame : replaceMe.chars s = withMe.chars s
  · refine ⟨⟨s.buffer, s.chars.length, _⟩, ?_, ?_, rfl, hCount⟩
    · rw [replace, if_neg hLength, if_pos hSame, hCount]
      rfl
    · rw [← hSame, replaceAll_self hWord]
      exact s.holds_self _
  generalize hDelta : ((withMe.chars s).length - (replaceMe.chars s).length : Int) = delta
  have hReplace : replace memory s replaceMe withMe =
      replaceLoop s replaceMe withMe delta (s.chars.length + 1) ⟨s.buffer, none, 0, none, 0⟩ := by
    rw [replace, if_neg hLength, if_neg hSame]
    simp only [hDelta]
    rw [if_neg (by omega)]
  rw [ReplacesAll, hReplace]
  cases hFirst : firstIndex (replaceMe.chars s) s.chars with
  | none =>
    obtain ⟨hZero, hSelf⟩ := firstIndex_none hFirst
    have hEnd : replaceLoop s replaceMe withMe delta (s.chars.length + 1) ⟨s.buffer, none, 0, none, 0⟩ = _ :=
      replaceLoop_absent s.readCstr_buffer (replaceMe.cstr_buffer s) hFirst
    refine ⟨⟨s.buffer, s.chars.length, 0⟩, hEnd, ?_, ?_, hCount⟩
    · rw [hSelf]
      exact s.holds_self 0
    · rw [hZero]
      rfl
  | some i =>
    obtain ⟨a, b, hSplit, -, -, -⟩ := firstIndex_some hWord hFirst
    have hWithin := congrArg List.length hSplit
    simp only [List.length_append] at hWithin
    cases withMe with
    | receiver =>
      -- the receiver is not longer than the search string that occurs in it
      have hLe : s.chars.length ≤ (replaceMe.chars s).length := hLe
      obtain rfl : a = [] := List.length_eq_zero_iff.mp (by omega)
      obtain rfl : b = [] := List.length_eq_zero_iff.mp (by omega)
      exact absurd (by rw [Arg.chars, hSplit, List.nil_append, List.append_nil]) hSame
    | other w =>
      cases replaceMe with
      | receiver =>
        obtain ⟨y', hLoop⟩ := replaceLoop_receiver hWord hLe hDelta.symm (s.chars.length - 1)
        have hPos := List.length_pos_iff.mpr hWord
        have hAll : replaceAll s.chars w.chars (s.chars ++ []) = _ := replaceAll_word hWord []
        have hOnce := occurrences_word hWord []
        rw [List.append_nil] at hAll hOnce
        have hFuel : s.chars.length - 1 + 2 = s.chars.length + 1 := by
          rw [Arg.chars] at hPos
          omega
        rw [hFuel] at hLoop
        refine ⟨_, hLoop, ⟨y', ?_, ?_⟩, ?_, hCount⟩
        · exact congrArg (· ++ _) (hAll.trans (List.append_nil _)).symm
        · exact congrArg List.length (hAll.trans (List.append_nil _)).symm
        · exact congrArg Nat.cast hOnce.symm
      | other r =>
        obtain ⟨y', hLoop⟩ := replaceLoop_inPlace (s := s) (x := []) (m := []) (b := s.chars) (y := s.slack)
          (l := ⟨s.buffer, none, 0, none, 0⟩) hWord hLe hDelta.symm rfl rfl rfl
          (.inr ⟨rfl, rfl, rfl⟩) (fun _ => rfl) s.noNul rfl (Nat.lt_succ_self _)
        exact ⟨_, hLoop, ⟨y', rfl, rfl⟩, Int.zero_add _, hCount⟩

/-- A text that would grow, without an occurrence. -/
theorem replace_nothing (memory : Memory) (hWord : replaceMe.chars s ≠ [])
    (hMore : (replaceMe.chars s).length < (withMe.chars s).length)
    (hZero : occurrences (replaceMe.chars s) s.chars = 0) : ReplacesAll memory s replaceMe withMe := by
  have hCount := getNumInstancesOf_eq s hWord
  have hLength : (replaceMe.chars s).length ≠ 0 := fun h => hWord (List.length_eq_zero_iff.mp h)
  have hDiffer : replaceMe.chars s ≠ withMe.chars s := fun h => absurd (congrArg List.length h) (Nat.ne_of_lt hMore)
  refine ⟨⟨s.buffer, s.chars.length, 0⟩, ?_, ?_, ?_, hCount⟩
  · rw [replace, if_neg hLength, if_neg hDiffer]
    simp only [hCount, hZero, Option.bind_eq_bind, Option.bind_some]
    rw [if_pos (by omega)]
    rfl
  · rw [(firstIndex_none (firstIndex_of_zero hWord hZero)).2]
    exact s.holds_self 0
  · rw [hZero]
    rfl

theorem prealloc_eq (memory : Memory) (n : Nat) : prealloc memory (n % 2 ^ 32) =
    if (n + 1) % 2 ^ 32 = 0 then some none
    else if (n + 1) % 2 ^ 32 ≤ 8 then some (some memory.smallBuffer)
    else (memory.alloc ((n + 1) % 2 ^ 32)).map some := by
  rw [prealloc, Nat.mod_add_mod]

/-- A text that grows. -/
theorem replace_grows (memory : Memory) (hWord : replaceMe.chars s ≠ [])
    (hMore : (replaceMe.chars s).length < (withMe.chars s).length)
    (hSome : occurrences (replaceMe.chars s) s.chars ≠ 0) :
    ReplacesAll memory s replaceMe withMe ↔
      memory.HasRoom (s.chars.length +
        occurrences (replaceMe.chars s) s.chars * ((withMe.chars s).length - (replaceMe.chars s).length)) := by
  have hCount := getNumInstancesOf_eq s hWord
  have hLength : (replaceMe.chars s).length ≠ 0 := fun h => hWord (List.length_eq_zero_iff.mp h)
  have hDiffer : replaceMe.chars s ≠ withMe.chars s := fun h => absurd (congrArg List.length h) (Nat.ne_of_lt hMore)
  have hAll := length_replaceAll hWord (withMe.chars s) s.chars
  generalize hDelta : ((withMe.chars s).length - (replaceMe.chars s).length : Int) = delta
  have hPos : 0 < delta := by omega
  have hNat : delta.toNat = (withMe.chars s).length - (replaceMe.chars s).length := by omega
  generalize hRoom : s.chars.length +
    occurrences (replaceMe.chars s) s.chars * ((withMe.chars s).length - (replaceMe.chars s).length) = room
  have hResult : (replaceAll (replaceMe.chars s) (withMe.chars s) s.chars).length = room := by
    rw [← hRoom, Nat.mul_sub]
    have hLe := Nat.mul_le_mul_left (occurrences (replaceMe.chars s) s.chars) (Nat.le_of_lt hMore)
    omega
  have hReplace : replace memory s replaceMe withMe =
      (prealloc memory (room % 2 ^ 32)).elim (some ⟨s.buffer, s.chars.length, -1⟩) fun temp =>
        replaceLoop s replaceMe withMe delta (s.chars.length + 1) ⟨s.buffer, temp, 0, temp.map fun _ => 0, 0⟩ := by
    rw [replace, if_neg hLength, if_neg hDiffer]
    simp only [hDelta, if_pos hPos, hCount, hNat, Option.bind_eq_bind, Option.bind_some, if_neg hSome]
    rw [Nat.mul_comm, hRoom]
    cases prealloc memory (room % 2 ^ 32) <;> rfl
  have hLoop (temp : List UInt8) : ∃ y', replaceLoop s replaceMe withMe delta (s.chars.length + 1)
      ⟨s.buffer, some temp, 0, some 0, 0⟩ = if room < temp.length then
        some ⟨replaceAll (replaceMe.chars s) (withMe.chars s) s.chars ++ 0 :: y', room,
          occurrences (replaceMe.chars s) s.chars⟩ else none := by
    obtain ⟨y', hRun⟩ := replaceLoop_temp (s := s) (l := ⟨s.buffer, some temp, 0, some 0, 0⟩) (x := []) (t := temp)
      (b := s.chars) withMe hWord hPos rfl rfl rfl (List.nil_append _).symm rfl (Nat.lt_succ_self _)
    refine ⟨y', ?_⟩
    rw [hRun, List.nil_append, hResult, Int.zero_add]
  rw [ReplacesAll, hReplace, prealloc_eq]
  constructor
  · rintro ⟨r, hRun, -, hRet, -⟩
    by_cases hNull : (room + 1) % 2 ^ 32 = 0
    · rw [if_pos hNull] at hRun
      have hZero := (replaceLoop_null hPos rfl hRun).2
      simp only [hRet] at hZero
      omega
    rw [if_neg hNull] at hRun
    by_cases hSmall : (room + 1) % 2 ^ 32 ≤ 8
    · rw [if_pos hSmall] at hRun
      obtain ⟨y', hEnd⟩ := hLoop memory.smallBuffer
      have hFits : room < memory.smallBuffer.length := by
        by_contra hNot
        rw [if_neg hNot] at hEnd
        cases hEnd.symm.trans hRun
      rw [memory.smallBuffer_length] at hFits
      exact ⟨by omega, .inl (by omega)⟩
    · rw [if_neg hSmall] at hRun
      cases hAlloc : memory.alloc ((room + 1) % 2 ^ 32) with
      | none =>
        rw [hAlloc] at hRun
        cases hRun
        simp only at hRet
        omega
      | some temp =>
        rw [hAlloc] at hRun
        obtain ⟨y', hEnd⟩ := hLoop temp
        have hFits : room < temp.length := by
          by_contra hNot
          rw [if_neg hNot] at hEnd
          cases hEnd.symm.trans hRun
        rw [memory.alloc_length _ _ hAlloc] at hFits
        have hWord : (room + 1) % 2 ^ 32 = room + 1 := by omega
        rw [hWord] at hAlloc
        exact ⟨by omega, .inr (by rw [hAlloc]; rfl)⟩
  · rintro ⟨hFits, hMemory⟩
    rw [Nat.mod_eq_of_lt hFits, if_neg (Nat.succ_ne_zero _)]
    obtain ⟨temp, hTemp, hEnough⟩ : ∃ temp, (if room + 1 ≤ 8 then some (some memory.smallBuffer)
        else (memory.alloc (room + 1)).map some) = some (some temp) ∧ room < temp.length := by
      by_cases hSmall : room + 1 ≤ 8
      · refine ⟨memory.smallBuffer, if_pos hSmall, ?_⟩
        rw [memory.smallBuffer_length]
        omega
      · obtain ⟨temp, hAlloc⟩ := Option.isSome_iff_exists.mp (hMemory.resolve_left hSmall)
        refine ⟨temp, ?_, ?_⟩
        · rw [if_neg hSmall, hAlloc]
          rfl
        · rw [memory.alloc_length _ _ hAlloc]
          omega
    obtain ⟨y', hEnd⟩ := hLoop temp
    rw [if_pos hEnough] at hEnd
    rw [hTemp]
    exact ⟨_, hEnd, ⟨y', rfl, hResult.symm⟩, rfl, hCount⟩

/-- A text that does not grow, that has nothing to replace, or that has room to grow. -/
theorem ReplacesAll.of_room {memory : Memory} (h : replaceMe.chars s ≠ [])
    (hRoom : (withMe.chars s).length ≤ (replaceMe.chars s).length ∨ occurrences (replaceMe.chars s) s.chars = 0 ∨
      memory.HasRoom (s.chars.length +
        occurrences (replaceMe.chars s) s.chars * ((withMe.chars s).length - (replaceMe.chars s).length))) :
    ReplacesAll memory s replaceMe withMe := by
  by_cases hLe : (withMe.chars s).length ≤ (replaceMe.chars s).length
  · exact replace_inPlace memory h hLe
  by_cases hZero : occurrences (replaceMe.chars s) s.chars = 0
  · exact replace_nothing memory h (Nat.lt_of_not_le hLe) hZero
  · exact (replace_grows memory h (Nat.lt_of_not_le hLe) hZero).mpr ((hRoom.resolve_left hLe).resolve_left hZero)

/-- `Replace` does the replacement exactly when the text does not grow, when there is nothing to replace, and when there
is a buffer for the longer text. -/
theorem replace_iff (memory : Memory) (s : MuscleString) (replaceMe withMe : Arg) (h : replaceMe.chars s ≠ []) :
    ReplacesAll memory s replaceMe withMe ↔
      (withMe.chars s).length ≤ (replaceMe.chars s).length ∨ occurrences (replaceMe.chars s) s.chars = 0 ∨
        memory.HasRoom (s.chars.length +
          occurrences (replaceMe.chars s) s.chars * ((withMe.chars s).length - (replaceMe.chars s).length)) := by
  refine ⟨fun hAll => ?_, ReplacesAll.of_room h⟩
  rcases Nat.lt_or_ge (replaceMe.chars s).length (withMe.chars s).length with hMore | hLe
  · by_cases hZero : occurrences (replaceMe.chars s) s.chars = 0
    · exact .inr (.inl hZero)
    · exact .inr (.inr ((replace_grows memory h hMore hZero).mp hAll))
  · exact .inl hLe

/-- Memory is always there. -/
def Memory.plenty : Memory where
  alloc n := some (List.replicate n 0)
  alloc_length _ _ h := by
    cases h
    exact List.length_replicate
  smallBuffer := List.replicate 8 0
  smallBuffer_length := rfl

/-- The replacement has the search string in it. -/
theorem replace_iff_longer : ReplacesAll .plenty ⟨[97, 88, 97, 88], [], by decide, by decide⟩
    (.other ⟨[88], [], by decide, by decide⟩) (.other ⟨[97, 88], [], by decide, by decide⟩) :=
  (replace_iff _ _ _ _ (by decide)).mpr (.inr (.inr ⟨by decide, .inl (by decide)⟩))

/-- A string of one character only. -/
def MuscleString.repeated (c : UInt8) (n : Nat) (hc : c ≠ 0) (hn : n < 2 ^ 31) : MuscleString :=
  ⟨List.replicate n c, [], fun h => hc (List.eq_of_mem_replicate h).symm, by rwa [List.length_replicate]⟩

theorem occurrences_replicate (c : UInt8) (n : Nat) : occurrences [c] (List.replicate n c) = n := by
  induction n with
  | zero => rfl
  | succ n ih =>
    have hCons : List.replicate (n + 1) c = [c] ++ List.replicate n c := rfl
    rw [hCons, occurrences_word (List.cons_ne_nil _ _), ih]

/-- Each of `n` characters is replaced by `m` others. -/
theorem ReplacesAll.repeated {memory : Memory} {c d : UInt8} {n m : Nat} {hc : c ≠ 0} {hd : d ≠ 0} {hn : n < 2 ^ 31}
    {hm : m < 2 ^ 31} (hSome : n ≠ 0) (hMore : 1 < m)
    (h : ReplacesAll memory (.repeated c n hc hn) (.other (.repeated c 1 hc (by decide)))
      (.other (.repeated d m hd hm))) :
    n + n * (m - 1) + 1 < 2 ^ 32 := by
  have hRoom := (@replace_grows (.repeated c n hc hn) (.other (.repeated c 1 hc (by decide)))
    (.other (.repeated d m hd hm)) memory (List.cons_ne_nil _ _)
    (by simpa only [Arg.chars, MuscleString.repeated, List.length_replicate] using hMore)
    (fun hZero => hSome ((occurrences_replicate c n).symm.trans hZero))).mp h
  have hNumber : occurrences (List.replicate 1 c) (List.replicate n c) = n := occurrences_replicate c n
  simpa only [Arg.chars, MuscleString.repeated, List.length_replicate, hNumber] using hRoom.1

/-- `65536` times 65536 characters: the size of the buffer wraps to one byte. -/
theorem replace_overflows :
    ¬∀ memory s replaceMe withMe, replaceMe.chars s ≠ [] → ReplacesAll memory s replaceMe withMe := by
  intro h
  have hAll := h .plenty (.repeated 97 65536 (by decide) (by decide)) (.other (.repeated 97 1 (by decide) (by decide)))
    (.other (.repeated 98 65536 (by decide) (by decide))) (List.cons_ne_nil _ _)
  have hFits := hAll.repeated (by decide) (by decide)
  omega

end BeShare.Muscle.Strings
