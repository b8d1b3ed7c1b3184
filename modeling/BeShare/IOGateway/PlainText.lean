import Mathlib.Data.List.Basic
import Mathlib.Tactic.Common

/-!
The input of `PlainTextMessageIOGateway`: text lines, however the stream is cut into reads. A `Message` is the list of
its `PR_NAME_TEXT_LINE` strings.
-/

namespace BeShare.Muscle

/-- `'\r'` -/
def CR : UInt8 := 13

/-- `'\n'` -/
def LF : UInt8 := 10

structure PlainTextMessageIOGateway where
  incomingText : List UInt8
  prevCharWasCarriageReturn : Bool
  flushPartialIncomingLines : Bool

namespace PlainTextMessageIOGateway

def new : PlainTextMessageIOGateway :=
  ⟨[], false, false⟩

/-- The message with one more line, and the gateway without what the line has taken. -/
def addIncomingText (g : PlainTextMessageIOGateway) (inMsg : Option (List (List UInt8))) (s : List UInt8) :
    PlainTextMessageIOGateway × Option (List (List UInt8)) :=
  if 0 < g.incomingText.length then ({ g with incomingText := [] }, some (inMsg.getD [] ++ [g.incomingText ++ s]))
  else (g, some (inMsg.getD [] ++ [s]))

/-- The string at `&buf[p]`. -/
def cstr (buf : List UInt8) (p : Nat) : List UInt8 :=
  (buf.drop p).takeWhile (· != 0)

/-- The variables of the loop of `DoInputImplementation`. -/
structure Reading where
  gateway : PlainTextMessageIOGateway
  buf : List UInt8
  inMsg : Option (List (List UInt8))
  beginAt : Nat

def Reading.turn (r : Reading) (i : Nat) : Reading :=
  let nextChar := r.buf.getD i 0
  let r :=
    if nextChar = CR ∨ nextChar = LF then
      -- terminate the string here
      let buf := r.buf.set i 0
      if nextChar = CR ∨ r.gateway.prevCharWasCarriageReturn = false then
        let added := r.gateway.addIncomingText r.inMsg (cstr buf r.beginAt)
        ⟨added.1, buf, added.2, i + 1⟩
      else { r with buf := buf, beginAt := i + 1 }
    else r
  { r with gateway := { r.gateway with prevCharWasCarriageReturn := decide (nextChar = CR) } }

/-- `DoInputImplementation` when `Read` gives these bytes, with the messages that go to the receiver. -/
def doInput (g : PlainTextMessageIOGateway) (bytes : List UInt8) :
    PlainTextMessageIOGateway × List (List (List UInt8)) :=
  if bytes = [] then (g, [])
  else
    let r := (List.range bytes.length).foldl Reading.turn ⟨g, bytes ++ [0], none, 0⟩
    if r.beginAt < bytes.length then
      if r.gateway.flushPartialIncomingLines then
        let added := r.gateway.addIncomingText r.inMsg (cstr r.buf r.beginAt)
        (added.1, added.2.toList)
      else
        ({ r.gateway with incomingText := r.gateway.incomingText ++ cstr r.buf r.beginAt }, r.inMsg.toList)
    else (r.gateway, r.inMsg.toList)

def flushInput (g : PlainTextMessageIOGateway) : PlainTextMessageIOGateway × List (List (List UInt8)) :=
  if 0 < g.incomingText.length then ({ g with incomingText := [] }, [[g.incomingText]]) else (g, [])

/-- One read after another, with all messages. -/
def doInputs (g : PlainTextMessageIOGateway) : List (List UInt8) → PlainTextMessageIOGateway × List (List (List UInt8))
  | [] => (g, [])
  | bytes :: reads =>
    let first := g.doInput bytes
    let later := first.1.doInputs reads
    (later.1, first.2 ++ later.2)

/-- The lines that the reads deliver, and then the ones of the `FlushInput` at the end. -/
def delivered (reads : List (List UInt8)) : List (List UInt8) × List (List UInt8) :=
  let result := new.doInputs reads
  (result.2.flatten, result.1.flushInput.2.flatten)

end PlainTextMessageIOGateway

/-! ### The lines of a text -/

/-- Into the first line, or the rest if there is none. -/
def consText (c : UInt8) (t : List (List UInt8) × List UInt8) : List (List UInt8) × List UInt8 :=
  match t.1 with
  | [] => ([], c :: t.2)
  | line :: lines => ((c :: line) :: lines, t.2)

/-- The lines of a text, each of which a CR, a LF or a CR LF ends, and the rest behind them. -/
def textLines : List UInt8 → List (List UInt8) × List UInt8
  | [] => ([], [])
  | [c] => if c = CR ∨ c = LF then ([[]], []) else ([], [c])
  | c :: c' :: s =>
    if c = CR ∧ c' = LF then ([] :: (textLines s).1, (textLines s).2)
    else if c = CR ∨ c = LF then ([] :: (textLines (c' :: s)).1, (textLines (c' :: s)).2)
    else consText c (textLines (c' :: s))

/-- What one more byte makes of the lines and the rest. -/
def extend (t : List (List UInt8) × List UInt8) (behindCR : Bool) (c : UInt8) : List (List UInt8) × List UInt8 :=
  if c = CR then (t.1 ++ [t.2], [])
  else if c = LF then (if behindCR then t else (t.1 ++ [t.2], []))
  else (t.1, t.2 ++ [c])

theorem extend_consText (t : List (List UInt8) × List UInt8) (behindCR : Bool) (a c : UInt8) :
    extend (consText a t) behindCR c = consText a (extend t behindCR c) := by
  obtain ⟨lines, rest⟩ := t
  unfold extend
  cases lines <;> cases behindCR <;> split_ifs <;> rfl

theorem extend_cons (line : List UInt8) (t : List (List UInt8) × List UInt8) (behindCR : Bool) (c : UInt8) :
    extend (line :: t.1, t.2) behindCR c = (line :: (extend t behindCR c).1, (extend t behindCR c).2) := by
  unfold extend
  cases behindCR <;> split_ifs <;> rfl

/-- Whether a text ends with a CR. -/
def endsWithCR (p : List UInt8) : Bool :=
  p.getLast? == some CR

theorem endsWithCR_cons_cons (a b : UInt8) (s : List UInt8) : endsWithCR (a :: b :: s) = endsWithCR (b :: s) := by
  rw [endsWithCR, List.getLast?_cons_cons, ← endsWithCR]

theorem endsWithCR_CRLF (s : List UInt8) : endsWithCR (CR :: LF :: s) = endsWithCR s := by
  cases s with
  | nil => rfl
  | cons c s => rw [endsWithCR_cons_cons, endsWithCR_cons_cons]

theorem textLines_singleton (c : UInt8) (behindCR : Bool) (h : ¬(behindCR = true ∧ c = LF)) :
    textLines [c] = extend ([], []) behindCR c := by
  rw [textLines]
  unfold extend
  by_cases hCR : c = CR
  · simp [hCR]
  · by_cases hLF : c = LF
    · subst hLF
      simp_all
    · simp [hCR, hLF]

/-- A LF behind a CR adds no line. -/
theorem textLines_concat (p : List UInt8) (c : UInt8) :
    textLines (p ++ [c]) = extend (textLines p) (endsWithCR p) c := by
  induction p using textLines.induct with
  | case1 => exact textLines_singleton c false fun h => Bool.false_ne_true h.1
  | case2 a hEnd =>
    rw [List.singleton_append, textLines, textLines, if_pos hEnd, if_pos hEnd]
    by_cases hCRLF : a = CR ∧ c = LF
    · obtain ⟨rfl, rfl⟩ := hCRLF
      rfl
    · rw [if_neg hCRLF, textLines_singleton c (endsWithCR [a]), ← extend_cons]
      rintro ⟨hBehind, hLF⟩
      exact hCRLF ⟨Option.some.inj (beq_iff_eq.mp hBehind), hLF⟩
  | case3 a hPlain =>
    rw [List.singleton_append, textLines, textLines, if_neg fun h => hPlain (.inl h.1), if_neg hPlain, if_neg hPlain,
      textLines_singleton c (endsWithCR [a]), ← extend_consText]
    · rfl
    · rintro ⟨hBehind, -⟩
      exact hPlain (.inl (Option.some.inj (beq_iff_eq.mp hBehind)))
  | case4 a b s hCRLF ih =>
    obtain ⟨rfl, rfl⟩ := hCRLF
    rw [List.cons_append, List.cons_append, textLines, textLines, if_pos ⟨rfl, rfl⟩, if_pos ⟨rfl, rfl⟩, ih,
      endsWithCR_CRLF, ← extend_cons]
  | case5 a b s hCRLF hEnd ih =>
    rw [List.cons_append] at ih
    rw [List.cons_append, List.cons_append, textLines, textLines, if_neg hCRLF, if_neg hCRLF, if_pos hEnd, if_pos hEnd,
      ih, endsWithCR_cons_cons, ← extend_cons]
  | case6 a b s hCRLF hEnd ih =>
    rw [List.cons_append] at ih
    rw [List.cons_append, List.cons_append, textLines, textLines, if_neg hCRLF, if_neg hCRLF, if_neg hEnd, if_neg hEnd,
      ih, endsWithCR_cons_cons, ← extend_consText]

/-- Behind a CR nothing is unterminated. -/
theorem rest_of_endsWithCR {p : List UInt8} (h : endsWithCR p = true) : (textLines p).2 = [] := by
  rcases List.eq_nil_or_concat p with rfl | ⟨p, c, rfl⟩
  · rfl
  · rw [List.concat_eq_append, endsWithCR, List.getLast?_concat, beq_iff_eq, Option.some.injEq] at h
    rw [List.concat_eq_append, textLines_concat, h]
    rfl

namespace PlainTextMessageIOGateway

/-! ### One read -/

theorem cstr_eq {buf text : List UInt8} {p : Nat} (behind : List UInt8) (h : buf.drop p = text ++ 0 :: behind)
    (hText : 0 ∉ text) :
    cstr buf p = text := by
  have hPlain : ∀ c ∈ text, (c != 0) = true := fun c hc => bne_iff_ne.mpr fun hZero => hText (hZero ▸ hc)
  rw [cstr, h, List.takeWhile_append_of_pos hPlain, List.takeWhile_cons_of_neg (by decide), List.append_nil]

/-- The loop has come to the byte `i` of a read. `before` is the stream before the read, and `done` its lines. -/
structure Follows (before bytes : List UInt8) (done : List (List UInt8)) (i : Nat) (r : Reading) : Prop where
  beginAt : r.beginAt ≤ i
  buf : r.buf.drop r.beginAt = (bytes ++ [0]).drop r.beginAt
  lines : textLines (before ++ bytes.take i) =
    (done ++ r.inMsg.getD [], r.gateway.incomingText ++ (bytes.take i).drop r.beginAt)
  cr : r.gateway.prevCharWasCarriageReturn = endsWithCR (before ++ bytes.take i)
  flush : r.gateway.flushPartialIncomingLines = false

variable {before bytes : List UInt8} {done : List (List UInt8)} {i : Nat} {r : Reading}

theorem addIncomingText_eq (g : PlainTextMessageIOGateway) (inMsg : Option (List (List UInt8))) (s : List UInt8) :
    g.addIncomingText inMsg s = ({ g with incomingText := [] }, some (inMsg.getD [] ++ [g.incomingText ++ s])) := by
  unfold addIncomingText
  split
  · rfl
  · rename_i hEmpty
    obtain ⟨text, cr, flush⟩ := g
    obtain rfl : text = [] := List.eq_nil_of_length_eq_zero (Nat.eq_zero_of_not_pos hEmpty)
    rfl

/-- The string that a line end cuts off. -/
theorem Follows.cstr_set (h : Follows before bytes done i r) (hi : i < bytes.length) (hPlain : 0 ∉ bytes) :
    cstr (r.buf.set i 0) r.beginAt = (bytes.take i).drop r.beginAt := by
  have hLong : i - r.beginAt < ((bytes ++ [0]).drop r.beginAt).length := by
    have hBegin := h.beginAt
    rw [List.length_drop, List.length_append, List.length_singleton]
    omega
  have hText : ((bytes ++ [0]).drop r.beginAt).take (i - r.beginAt) = (bytes.take i).drop r.beginAt := by
    rw [← List.drop_take, List.take_append_of_le_length (Nat.le_of_lt hi)]
  refine cstr_eq (((bytes ++ [0]).drop r.beginAt).drop (i - r.beginAt + 1)) ?_ fun hZero => ?_
  · rw [List.drop_set, if_neg (Nat.not_lt.mpr h.beginAt), h.buf, List.set_eq_take_append_cons_drop, if_pos hLong, hText]
  · exact hPlain (List.mem_of_mem_take (List.mem_of_mem_drop hZero))

theorem Follows.turn (h : Follows before bytes done i r) (hi : i < bytes.length) (hPlain : 0 ∉ bytes) :
    Follows before bytes done (i + 1) (r.turn i) := by
  have hChar : r.buf.getD i 0 = bytes[i] := by
    have hSame : (r.buf.drop r.beginAt)[i - r.beginAt]? = ((bytes ++ [0]).drop r.beginAt)[i - r.beginAt]? := by
      rw [h.buf]
    rw [List.getElem?_drop, List.getElem?_drop, Nat.add_sub_cancel' h.beginAt, List.getElem?_append_left hi,
      List.getElem?_eq_getElem hi] at hSame
    rw [List.getD_eq_getElem?_getD, hSame, Option.getD_some]
  have hTake : before ++ bytes.take (i + 1) = before ++ bytes.take i ++ [bytes[i]] := by
    rw [List.take_succ_eq_append_getElem hi, List.append_assoc]
  have hCR : endsWithCR (before ++ bytes.take (i + 1)) = decide (bytes[i] = CR) := by
    rw [hTake, endsWithCR, List.getLast?_concat]
    rfl
  have hLines : textLines (before ++ bytes.take (i + 1)) =
      extend (textLines (before ++ bytes.take i)) r.gateway.prevCharWasCarriageReturn bytes[i] := by
    rw [hTake, textLines_concat, h.cr]
  have hNone : (bytes.take (i + 1)).drop (i + 1) = [] := List.drop_eq_nil_of_le (List.length_take_le _ _)
  have hBuf : (r.buf.set i 0).drop (i + 1) = (bytes ++ [0]).drop (i + 1) := by
    have hMore := congrArg (List.drop (i + 1 - r.beginAt)) h.buf
    rw [List.drop_drop, List.drop_drop, Nat.add_sub_cancel' (Nat.le_succ_of_le h.beginAt)] at hMore
    rw [List.drop_set, if_pos (Nat.lt_succ_self i), hMore]
  unfold Reading.turn
  dsimp only
  rw [hChar]
  by_cases hEnd : bytes[i] = CR ∨ bytes[i] = LF
  · rw [if_pos hEnd]
    by_cases hAdds : bytes[i] = CR ∨ r.gateway.prevCharWasCarriageReturn = false
    · rw [if_pos hAdds, addIncomingText_eq, h.cstr_set hi hPlain]
      refine ⟨Nat.le_refl _, hBuf, ?_, hCR.symm, h.flush⟩
      rw [hLines, h.lines, hNone, extend]
      rcases hEnd with hIs | hIs
      · rw [if_pos hIs]
        simp
      · have hBehind : r.gateway.prevCharWasCarriageReturn = false := hAdds.resolve_left (by rw [hIs]; decide)
        rw [hIs, if_neg (by decide), if_pos rfl, hBehind]
        simp
    · rw [if_neg hAdds]
      refine ⟨Nat.le_refl _, hBuf, ?_, hCR.symm, h.flush⟩
      obtain ⟨hNotCR, hBehind⟩ := not_or.mp hAdds
      rw [Bool.not_eq_false] at hBehind
      have hRest : (textLines (before ++ bytes.take i)).2 = [] := rest_of_endsWithCR (h.cr ▸ hBehind)
      rw [h.lines, List.append_eq_nil_iff] at hRest
      rw [hLines, h.lines, hNone, extend, if_neg hNotCR, if_pos (hEnd.resolve_left hNotCR), hBehind, hRest.1, hRest.2]
      rfl
  · rw [if_neg hEnd]
    refine ⟨Nat.le_succ_of_le h.beginAt, h.buf, ?_, hCR.symm, h.flush⟩
    obtain ⟨hNotCR, hNotLF⟩ := not_or.mp hEnd
    have hShort : r.beginAt ≤ (bytes.take i).length := by
      rw [List.length_take_of_le (Nat.le_of_lt hi)]
      exact h.beginAt
    rw [hLines, h.lines, extend, if_neg hNotCR, if_neg hNotLF, List.take_succ_eq_append_getElem hi,
      List.drop_append_of_le_length hShort, List.append_assoc]

/-- The loop over the bytes of a read. -/
theorem Follows.run (h : Follows before bytes done 0 r) (hPlain : 0 ∉ bytes) :
    ∀ i ≤ bytes.length, Follows before bytes done i ((List.range i).foldl Reading.turn r)
  | 0, _ => h
  | i + 1, hi => by
    rw [List.range_succ, List.foldl_append, List.foldl_cons, List.foldl_nil]
    exact (Follows.run h hPlain i (Nat.le_of_succ_le hi)).turn hi hPlain

/-- The string behind the last line end of a read. -/
theorem Follows.cstr_rest (h : Follows before bytes done i r) (hBegin : r.beginAt ≤ bytes.length) (hPlain : 0 ∉ bytes) :
    cstr r.buf r.beginAt = bytes.drop r.beginAt := by
  refine cstr_eq [] ?_ fun hZero => hPlain (List.mem_of_mem_drop hZero)
  rw [h.buf, List.drop_append_of_le_length hBegin]

/-- The gateway has read the stream up to here, and delivered its lines. -/
structure Holds (g : PlainTextMessageIOGateway) (before : List UInt8) : Prop where
  text : g.incomingText = (textLines before).2
  cr : g.prevCharWasCarriageReturn = endsWithCR before
  flush : g.flushPartialIncomingLines = false

theorem holds_new : new.Holds [] :=
  ⟨rfl, rfl, rfl⟩

theorem holds_doInput {g : PlainTextMessageIOGateway} (h : g.Holds before) (hPlain : 0 ∉ bytes) :
    (g.doInput bytes).1.Holds (before ++ bytes) ∧
      (textLines (before ++ bytes)).1 = (textLines before).1 ++ (g.doInput bytes).2.flatten := by
  unfold doInput
  by_cases hNone : bytes = []
  · rw [if_pos hNone, hNone, List.append_nil]
    exact ⟨h, (List.append_nil _).symm⟩
  · rw [if_neg hNone]
    have hStart : Follows before bytes (textLines before).1 0 ⟨g, bytes ++ [0], none, 0⟩ := by
      refine ⟨Nat.le_refl 0, rfl, ?_, ?_, h.flush⟩
      · rw [List.take_zero, List.append_nil, Option.getD_none, List.append_nil, List.drop_nil, List.append_nil, h.text]
      · rw [List.take_zero, List.append_nil]
        exact h.cr
    have hRun := hStart.run hPlain bytes.length (Nat.le_refl _)
    dsimp only
    generalize (List.range bytes.length).foldl Reading.turn ⟨g, bytes ++ [0], none, 0⟩ = r at hRun ⊢
    have hLines := hRun.lines
    have hCR := hRun.cr
    rw [List.take_length] at hLines hCR
    rw [hLines]
    have hFlatten : r.inMsg.getD [] = r.inMsg.toList.flatten := by
      cases r.inMsg with
      | none => rfl
      | some lines => exact (List.append_nil lines).symm
    rw [hFlatten] at hLines ⊢
    by_cases hRest : r.beginAt < bytes.length
    · rw [if_pos hRest, if_neg (by rw [hRun.flush]; decide), hRun.cstr_rest (Nat.le_of_lt hRest) hPlain]
      exact ⟨⟨(congrArg Prod.snd hLines).symm, hCR, hRun.flush⟩, rfl⟩
    · rw [if_neg hRest]
      rw [List.drop_eq_nil_of_le (Nat.not_lt.mp hRest), List.append_nil] at hLines
      exact ⟨⟨(congrArg Prod.snd hLines).symm, hCR, hRun.flush⟩, rfl⟩

theorem holds_doInputs {g : PlainTextMessageIOGateway} {reads : List (List UInt8)} (h : g.Holds before)
    (hPlain : 0 ∉ reads.flatten) :
    (g.doInputs reads).1.Holds (before ++ reads.flatten) ∧
      (textLines (before ++ reads.flatten)).1 = (textLines before).1 ++ (g.doInputs reads).2.flatten := by
  induction reads generalizing g before with
  | nil =>
    rw [List.flatten_nil, List.append_nil]
    exact ⟨h, (List.append_nil _).symm⟩
  | cons bytes reads ih =>
    rw [List.flatten_cons, List.mem_append, not_or] at hPlain
    have hFirst := holds_doInput h hPlain.1
    have hLater := ih hFirst.1 hPlain.2
    rw [List.flatten_cons, ← List.append_assoc]
    refine ⟨hLater.1, ?_⟩
    rw [hLater.2, hFirst.2, doInputs, List.flatten_append, List.append_assoc]

theorem flushInput_eq (g : PlainTextMessageIOGateway) :
    g.flushInput.2.flatten = if g.incomingText = [] then [] else [g.incomingText] := by
  unfold flushInput
  by_cases hEmpty : g.incomingText = []
  · rw [if_pos hEmpty, if_neg (by rw [hEmpty]; decide)]
    rfl
  · rw [if_neg hEmpty, if_pos (List.length_pos_of_ne_nil hEmpty)]
    rfl

/-- What is delivered depends on the stream only. -/
theorem delivered_eq (reads : List (List UInt8)) (hPlain : 0 ∉ reads.flatten) :
    delivered reads = ((textLines reads.flatten).1,
      if (textLines reads.flatten).2 = [] then [] else [(textLines reads.flatten).2]) := by
  obtain ⟨hHolds, hLines⟩ := holds_doInputs holds_new hPlain
  rw [List.nil_append] at hHolds hLines
  rw [delivered, flushInput_eq, hHolds.text, hLines]
  rfl

/-- However a stream without NULs is cut into reads, its lines are delivered, and its rest by the flush at the end. -/
theorem delivered_of_flatten_eq (reads reads' : List (List UInt8)) (hSame : reads'.flatten = reads.flatten)
    (hPlain : 0 ∉ reads.flatten) :
    delivered reads = delivered reads' ∧
      delivered reads = ((textLines reads.flatten).1,
        if (textLines reads.flatten).2 = [] then [] else [(textLines reads.flatten).2]) := by
  have hPlain' : 0 ∉ reads'.flatten := hSame ▸ hPlain
  refine ⟨?_, delivered_eq reads hPlain⟩
  rw [delivered_eq reads hPlain, delivered_eq reads' hPlain', hSame]

/-- `a CR LF b`, cut inside the `CR LF` or not at all. -/
theorem delivered_of_flatten_eq_crlf :
    delivered [[97, CR], [LF, 98]] = delivered [[97, CR, LF, 98]] ∧
      delivered [[97, CR], [LF, 98]] = ([[97]], [[98]]) :=
  delivered_of_flatten_eq [[97, CR], [LF, 98]] [[97, CR, LF, 98]] rfl (by decide)

end PlainTextMessageIOGateway

end BeShare.Muscle
