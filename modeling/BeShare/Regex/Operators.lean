import BeShare.Regex.Counting
import Mathlib.Data.List.Infix
import Mathlib.Tactic.Common

/-!
The operators of the filters that compare a value: which item of the field they look at, and how what they say of it
fits together.
-/

namespace BeShare.Muscle.Filters

/-! ### Comparisons -/

namespace Comparison

variable {α : Type}

/-- Exactly one of the three holds, and the other operators are made of them. -/
structure Lawful (c : Comparison α) (a b : α) : Prop where
  exactlyOne : [c.equal a b, c.less a b, c.less b a].count true = 1
  lessOrEqual : c.lessOrEqual a b = (c.less a b || c.equal a b)
  greaterOrEqual : c.lessOrEqual b a = (c.less b a || c.equal a b)

/-- The exponent has all its bits set, and the mantissa has one. -/
def isNaN (exponentBits mantissaBits : Nat) {w : Nat} (x : BitVec w) : Bool :=
  decide ((2 ^ exponentBits - 1) * 2 ^ mantissaBits < x.toNat % 2 ^ (w - 1))

/-- The two zeros have one key. -/
def key {w : Nat} (x : BitVec w) : Int :=
  if x.msb then -↑(x.toNat % 2 ^ (w - 1)) else ↑(x.toNat % 2 ^ (w - 1))

/-- The comparison of floating-point numbers. It is false for values that are none. -/
def ieee {w : Nat} (nan : BitVec w → Bool) : Comparison (BitVec w) where
  equal a b := !nan a && !nan b && key a == key b
  less a b := !nan a && !nan b && decide (key a < key b)
  lessOrEqual a b := !nan a && !nan b && decide (key a ≤ key b)

def isNaN32 : BitVec 32 → Bool :=
  isNaN 8 23

def isNaN64 : BitVec 64 → Bool :=
  isNaN 11 52

theorem Lawful.of_key {c : Comparison α} {a b : α} {x y : Int} (hEqual : c.equal a b = decide (x = y))
    (hLess : c.less a b = decide (x < y)) (hGreater : c.less b a = decide (y < x))
    (hLe : c.lessOrEqual a b = decide (x ≤ y)) (hGe : c.lessOrEqual b a = decide (y ≤ x)) : c.Lawful a b := by
  refine ⟨?_, ?_, ?_⟩
  · rw [hEqual, hLess, hGreater]
    rcases lt_trichotomy x y with h | h | h
    · simp [h, h.ne, h.le]
    · simp [h]
    · simp [h, h.ne', h.le]
  · rw [hLe, hLess, hEqual, ← Bool.decide_or, decide_eq_decide]
    exact le_iff_lt_or_eq
  · rw [hGe, hGreater, hEqual, ← Bool.decide_or, decide_eq_decide, le_iff_lt_or_eq, eq_comm]

theorem lawful_signed {w : Nat} (a b : BitVec w) : signed.Lawful a b := by
  refine .of_key (x := a.toInt) (y := b.toInt) ?_ rfl rfl rfl rfl
  rw [signed, Bool.eq_iff_iff, beq_iff_eq, decide_eq_true_iff, BitVec.toInt_inj]

theorem lawful_bool (a b : Bool) : bool.Lawful a b := by
  cases a <;> cases b <;> exact ⟨rfl, rfl, rfl⟩

variable {w : Nat} {nan : BitVec w → Bool} {a b : BitVec w}

theorem lawful_ieee (ha : nan a = false) (hb : nan b = false) : (ieee nan).Lawful a b := by
  refine .of_key (x := key a) (y := key b) ?_ ?_ ?_ ?_ ?_ <;> simp [ieee, ha, hb, BEq.beq]

theorem ieee_nan (h : ¬(nan a = false ∧ nan b = false)) :
    (ieee nan).equal a b = false ∧ (ieee nan).less a b = false ∧ (ieee nan).less b a = false := by
  cases ha : nan a with
  | true => simp [ieee, ha]
  | false =>
    have hb : nan b = true := by
      rw [← Bool.not_eq_false]
      exact fun hb => h ⟨ha, hb⟩
    simp [ieee, hb]

/-- Values of which none is less and that are not equal. -/
theorem not_lawful {c : Comparison α} {a b : α} (h : c.equal a b = false ∧ c.less a b = false ∧ c.less b a = false) :
    ¬c.Lawful a b := by
  intro hLawful
  have hOne := hLawful.exactlyOne
  rw [h.1, h.2.1, h.2.2] at hOne
  cases hOne

/-- How two coordinates compare: both are numbers, and one of the three holds, or none does. -/
theorem coordinates (a b : BitVec 32) :
    ((isNaN32 a = false ∧ isNaN32 b = false) ∧
        [(ieee isNaN32).equal a b, (ieee isNaN32).less a b, (ieee isNaN32).less b a].count true = 1) ∨
      (¬(isNaN32 a = false ∧ isNaN32 b = false) ∧ (ieee isNaN32).equal a b = false ∧
        (ieee isNaN32).less a b = false ∧ (ieee isNaN32).less b a = false) := by
  by_cases h : isNaN32 a = false ∧ isNaN32 b = false
  · exact .inl ⟨h, (lawful_ieee h.1 h.2).exactlyOne⟩
  · exact .inr ⟨h, ieee_nan h⟩

/-- What decides how two points compare is a pair of numbers: the first coordinates if they differ, or else the second
ones. First coordinates that are no numbers are passed over, but do not count as equal. -/
def PointsOrdered (a b : Point) : Prop :=
  ((isNaN32 a.x = false ∧ isNaN32 b.x = false) ∧ (ieee isNaN32).equal a.x b.x = false) ∨
    ((isNaN32 a.y = false ∧ isNaN32 b.y = false) ∧
      ((isNaN32 a.x = false ∧ isNaN32 b.x = false) ∨ (ieee isNaN32).equal a.y b.y = false))

theorem lawful_point_iff (a b : Point) : (point (ieee isNaN32)).Lawful a b ↔ PointsOrdered a b := by
  have hX := coordinates a.x b.x
  have hY := coordinates a.y b.y
  have hLawful : (point (ieee isNaN32)).Lawful a b ↔
      [(point (ieee isNaN32)).equal a b, (point (ieee isNaN32)).less a b, (point (ieee isNaN32)).less b a].count true =
          1 ∧
        (point (ieee isNaN32)).lessOrEqual a b =
          ((point (ieee isNaN32)).less a b || (point (ieee isNaN32)).equal a b) ∧
        (point (ieee isNaN32)).lessOrEqual b a =
          ((point (ieee isNaN32)).less b a || (point (ieee isNaN32)).equal a b) :=
    ⟨fun h => ⟨h.1, h.2, h.3⟩, fun h => ⟨h.1, h.2.1, h.2.2⟩⟩
  rw [hLawful, PointsOrdered]
  simp only [point, point.lexLess]
  generalize (ieee isNaN32).equal a.x b.x = eX at hX ⊢
  generalize (ieee isNaN32).less a.x b.x = lX at hX ⊢
  generalize (ieee isNaN32).less b.x a.x = gX at hX ⊢
  generalize (ieee isNaN32).equal a.y b.y = eY at hY ⊢
  generalize (ieee isNaN32).less a.y b.y = lY at hY ⊢
  generalize (ieee isNaN32).less b.y a.y = gY at hY ⊢
  generalize (isNaN32 a.x = false ∧ isNaN32 b.x = false) = nX at hX ⊢
  generalize (isNaN32 a.y = false ∧ isNaN32 b.y = false) = nY at hY ⊢
  -- In each coordinate there are four cases.
  rcases hX with ⟨hX, hOneX⟩ | ⟨hX, rfl, rfl, rfl⟩ <;> rcases hY with ⟨hY, hOneY⟩ | ⟨hY, rfl, rfl, rfl⟩ <;>
    simp only [hX, hY, true_and, false_and, true_or, false_or, or_false]
  · cases eX <;> cases lX <;> cases gX <;> cases hOneX <;> cases eY <;> cases lY <;> cases gY <;> cases hOneY <;> decide
  · cases eX <;> cases lX <;> cases gX <;> cases hOneX <;> decide
  · cases eY <;> cases lY <;> cases gY <;> cases hOneY <;> decide
  · decide

end Comparison

/-- How two values of a class have to be for exactly one of them to be less or equal. -/
def NumericClass.Ordered : (c : NumericClass) → c.dataType.Item → c.dataType.Item → Prop
  | bool, _, _ => True
  | double, a, b => Comparison.isNaN64 a = false ∧ Comparison.isNaN64 b = false
  | float, a, b => Comparison.isNaN32 a = false ∧ Comparison.isNaN32 b = false
  | int64, _, _ => True
  | int32, _, _ => True
  | int16, _, _ => True
  | int8, _, _ => True
  | point, a, b => Comparison.PointsOrdered a b
  | rect, a, b => Comparison.PointsOrdered a b

/-- The floating-point numbers are those of IEEE 754, and a character does not become the end of the string in lower
case. -/
structure Platform.Standard (p : Platform) : Prop where
  float : p.float = .ieee Comparison.isNaN32
  double : p.double = .ieee Comparison.isNaN64
  toLower : ∀ c, c ≠ 0 → p.toLower c ≠ 0

theorem Platform.Standard.lawful_iff {p : Platform} (hp : p.Standard) (c : NumericClass) (a b : c.dataType.Item) :
    (c.comparison p).Lawful a b ↔ c.Ordered a b := by
  have hFloating : ∀ {w : Nat} (nan : BitVec w → Bool) (a b : BitVec w),
      (Comparison.ieee nan).Lawful a b ↔ nan a = false ∧ nan b = false := fun nan a b =>
    ⟨fun h => by_contra fun hNaN => Comparison.not_lawful (Comparison.ieee_nan hNaN) h,
      fun h => Comparison.lawful_ieee h.1 h.2⟩
  cases c with
  | bool => exact iff_of_true (Comparison.lawful_bool a b) trivial
  | double =>
    rw [NumericClass.comparison, hp.double]
    exact hFloating _ a b
  | float =>
    rw [NumericClass.comparison, hp.float]
    exact hFloating _ a b
  | int64 => exact iff_of_true (Comparison.lawful_signed a b) trivial
  | int32 => exact iff_of_true (Comparison.lawful_signed a b) trivial
  | int16 => exact iff_of_true (Comparison.lawful_signed a b) trivial
  | int8 => exact iff_of_true (Comparison.lawful_signed a b) trivial
  | point =>
    rw [NumericClass.comparison, hp.float]
    exact Comparison.lawful_point_iff a b
  | rect =>
    rw [NumericClass.comparison, hp.float]
    exact Comparison.lawful_point_iff a b

/-! ### Bytes and strings -/

theorem memcmp_swap (s t : List UInt8) : memcmp t s = (memcmp s t).swap := by
  induction s generalizing t with
  | nil => cases t <;> rfl
  | cons a s ih =>
    cases t with
    | nil => rfl
    | cons b t =>
      have hSwap : compare b a = (compare a b).swap := Std.OrientedCmp.eq_swap
      rw [memcmp, memcmp, Ordering.swap_then, ih t, hSwap]

/-- Only as many bytes are compared as the shorter one has. -/
theorem memcmp_eq_iff (s t : List UInt8) : memcmp s t = .eq ↔ s <+: t ∨ t <+: s := by
  induction s generalizing t with
  | nil => exact iff_of_true rfl (.inl (List.nil_prefix))
  | cons a s ih =>
    cases t with
    | nil => exact iff_of_true rfl (.inr (List.nil_prefix))
    | cons b t =>
      rw [memcmp, Ordering.then_eq_eq, ih t, Std.LawfulEqCmp.compare_eq_iff_eq, List.cons_prefix_cons,
        List.cons_prefix_cons, @eq_comm _ b a, ← and_or_left]

theorem strcmp_eq_iff (s t : List UInt8) : strcmp s t = .eq ↔ s = t := by
  induction s generalizing t with
  | nil => cases t <;> simp [strcmp]
  | cons a s ih =>
    cases t with
    | nil => simp [strcmp]
    | cons b t => rw [strcmp, Ordering.then_eq_eq, ih t, Std.LawfulEqCmp.compare_eq_iff_eq, List.cons.injEq]

theorem exactlyOne_ordering (o : Ordering) : [o == .eq, o == .lt, o == .gt].count true = 1 := by
  cases o <;> rfl

/-! ### The filters and their items -/

/-- `FindData` of an item of any index; the platform knows the first. -/
structure Reader (p : Platform) where
  memoryAt : (typeCode : UInt32) → DataArray → (index : Nat) → Option (List UInt8)
  memoryAt_zero : ∀ typeCode array, memoryAt typeCode array 0 = p.memory typeCode array

def Reader.findDataAt {p : Platform} (r : Reader p) (msg : Message) (name : CStr) (typeCode : UInt32) (index : Nat) :
    Option (List UInt8) :=
  (msg.entries.lookup name).bind fun array =>
    if typeCode = B_ANY_TYPE ∨ array.typeCode = typeCode then r.memoryAt typeCode array index else none

/-- A filter that compares a value, without its field and operator. -/
inductive Operand where
  | raw (value : Option ByteBuffer) (typeCode : UInt32)
  | string (value : CStr)
  | numeric (c : NumericClass) (value : c.dataType.Item)

namespace Operand

def Item : Operand → Type
  | raw .. => List UInt8
  | string _ => CStr
  | numeric c _ => c.fieldType.Item

def filter (v : ValueQueryFilter) (op : UInt8) : Operand → QueryFilter
  | raw value typeCode => .rawData v op value typeCode
  | string value => .string v op value
  | numeric c value => .numeric c v op value

variable {p : Platform} (r : Reader p) (msg : Message) (v : ValueQueryFilter)

def itemAt (index : Nat) : (o : Operand) → Option o.Item
  | raw _ typeCode => r.findDataAt msg v.fieldName typeCode index
  | string _ => msg.findItem v.fieldName .string index
  | numeric c _ => msg.findItem v.fieldName c.fieldType index

variable (p) in
/-- The item that `Matches` looks at. -/
def tested : (o : Operand) → Option o.Item
  | raw _ typeCode => findData p msg v.fieldName typeCode
  | string _ => msg.findItem v.fieldName .string v.index.toNat
  | numeric c _ => msg.findItem v.fieldName c.fieldType v.index.toNat

variable (p) in
/-- What the operator says of the item. -/
def test (op : UInt8) : (o : Operand) → o.Item → Bool
  | raw value _, his => rawOp op his value
  | string value, s => stringOp p op s value
  | numeric c value, item => numericOp (c.comparison p) op (c.view item) value

theorem isMatch_filter (op : UInt8) (o : Operand) :
    (o.filter v op).isMatch p msg = (o.tested p msg v).any (o.test p op) := by
  cases o with
  | raw value typeCode =>
    rw [filter, QueryFilter.isMatch, tested]
    cases findData p msg v.fieldName typeCode <;> rfl
  | string value =>
    rw [filter, QueryFilter.isMatch, tested]
    cases msg.findItem v.fieldName .string v.index.toNat <;> rfl
  | numeric c value =>
    rw [filter, QueryFilter.isMatch, tested]
    cases msg.findItem v.fieldName c.fieldType v.index.toNat <;> rfl

/-- The string in lower case. -/
def lowered (p : Platform) (s : CStr) : CStr :=
  .ofBytes (s.chars.map p.toLower)

/-- `OP_EQUAL_TO` to `OP_SUBSTRING_OF`. The operators that ignore case are the next twelve. -/
def caseOperators : List UInt8 :=
  [0, 1, 2, 3, 4, 5, 6, 7, 8, 9, 10, 11]

/-- The operators of strings that ignore case say of an item what the others say in lower case. -/
def IgnoresCase (p : Platform) (msg : Message) (v : ValueQueryFilter) : Operand → Prop
  | string value =>
    ∀ s, msg.findItem v.fieldName .string v.index.toNat = some s → ∀ op ∈ caseOperators,
      ((string value).filter v (op + 12)).isMatch p msg = stringOp p op (lowered p s) (lowered p value)
  | _ => True

/-- The operators look at the item of the filter's index, and what they say of it fits together. -/
structure Coherent (o : Operand) : Prop where
  own : o.tested p msg v = o.itemAt r msg v v.index.toNat
  exactlyOne : (o.itemAt r msg v v.index.toNat).isSome = true →
    [(o.filter v 0).isMatch p msg, (o.filter v 1).isMatch p msg, (o.filter v 2).isMatch p msg].count true = 1
  lessOrEqual : (o.filter v 3).isMatch p msg = ((o.filter v 1).isMatch p msg || (o.filter v 0).isMatch p msg)
  greaterOrEqual : (o.filter v 4).isMatch p msg = ((o.filter v 2).isMatch p msg || (o.filter v 0).isMatch p msg)
  notEqual : (o.itemAt r msg v v.index.toNat).isSome = true →
    (o.filter v 5).isMatch p msg = !(o.filter v 0).isMatch p msg
  ignoresCase : o.IgnoresCase p msg v

/-- When they do: the first item of raw data is looked at in place of any other, and neither it nor the value may be the
start of the other. A string may not be found at an end of the value or inside it in lower case only. Numbers have to be
numbers. -/
def Regular (msg : Message) (v : ValueQueryFilter) : Operand → Prop
  | raw value typeCode =>
    (v.index = 0 ∨ r.findDataAt msg v.fieldName typeCode v.index.toNat = r.findDataAt msg v.fieldName typeCode 0) ∧
      ∀ his, r.findDataAt msg v.fieldName typeCode v.index.toNat = some his →
        his <+: myBytes value ∨ myBytes value <+: his → his = myBytes value
  | string value =>
    ∀ s, msg.findItem v.fieldName .string v.index.toNat = some s →
      (s.chars.map p.toLower <+: value.chars.map p.toLower → s.chars <+: value.chars) ∧
        (s.chars.map p.toLower <:+ value.chars.map p.toLower → s.chars <:+ value.chars) ∧
          (indexOf (value.chars.map p.toLower) (s.chars.map p.toLower) = true →
            indexOf value.chars s.chars = true)
  | numeric c value =>
    ∀ item, msg.findItem v.fieldName c.fieldType v.index.toNat = some item → c.Ordered (c.view item) value

/-! ### What the operators say of an item -/

/-- What the operators say fits together. -/
structure Fits (result : UInt8 → Bool) : Prop where
  exactlyOne : [result 0, result 1, result 2].count true = 1
  lessOrEqual : result 3 = (result 1 || result 0)
  greaterOrEqual : result 4 = (result 2 || result 0)
  notEqual : result 5 = !result 0

theorem fits_string (s value : CStr) : Fits (stringOp p · s value) := by
  have hEqual : (s.chars == value.chars) = (strcmp s.chars value.chars == .eq) := by
    rw [Bool.eq_iff_iff, beq_iff_eq, beq_iff_eq, strcmp_eq_iff]
  have hOne := exactlyOne_ordering (strcmp s.chars value.chars)
  rw [← hEqual] at hOne
  refine ⟨hOne, ?_, ?_, rfl⟩
  · show (strcmp s.chars value.chars != .gt) = (strcmp s.chars value.chars == .lt || s.chars == value.chars)
    rw [hEqual]
    cases strcmp s.chars value.chars <;> rfl
  · show (strcmp s.chars value.chars != .lt) = (strcmp s.chars value.chars == .gt || s.chars == value.chars)
    rw [hEqual]
    cases strcmp s.chars value.chars <;> rfl

theorem fits_numeric_iff {α : Type} (c : Comparison α) (a b : α) : Fits (numericOp c · a b) ↔ c.Lawful a b :=
  ⟨fun h => ⟨h.exactlyOne, h.lessOrEqual, h.greaterOrEqual⟩,
    fun h => ⟨h.exactlyOne, h.lessOrEqual, h.greaterOrEqual, rfl⟩⟩

theorem fits_raw_iff (his : List UInt8) (value : Option ByteBuffer) :
    Fits (rawOp · his value) ↔ (his <+: myBytes value ∨ myBytes value <+: his → his = myBytes value) := by
  have hEqual : rawOp 0 his value = (his.length == (myBytes value).length && memcmp his (myBytes value) == .eq) := by
    show (his.length == (myBytes value).length && memcmp (myBytes value) his == .eq) = _
    rw [memcmp_swap his]
    cases memcmp his (myBytes value) <;> rfl
  have hNot : rawOp 5 his value = !rawOp 0 his value := by
    show (his.length != _ || memcmp _ his != .eq) = !(his.length == _ && memcmp _ his == .eq)
    rw [Bool.not_and, bne, bne]
  rw [← memcmp_eq_iff]
  constructor
  · intro h hStart
    have hLess : his.length < (myBytes value).length ∨ his.length = (myBytes value).length := by
      have hOr : true = (rawOp 1 his value || rawOp 0 his value) := by
        rw [← h.lessOrEqual]
        show true = (memcmp his (myBytes value) != .gt)
        rw [hStart]
        rfl
      rw [hEqual] at hOr
      simpa [rawOp, hStart] using hOr
    have hGreater : (myBytes value).length < his.length ∨ his.length = (myBytes value).length := by
      have hOr : true = (rawOp 2 his value || rawOp 0 his value) := by
        rw [← h.greaterOrEqual]
        show true = (memcmp his (myBytes value) != .lt)
        rw [hStart]
        rfl
      rw [hEqual] at hOr
      simpa [rawOp, hStart] using hOr
    have hLength : his.length = (myBytes value).length := by omega
    rcases (memcmp_eq_iff _ _).mp hStart with hPre | hPre
    · exact hPre.eq_of_length hLength
    · exact (hPre.eq_of_length hLength.symm).symm
  · intro h
    have hEqual' : rawOp 0 his value = (memcmp his (myBytes value) == .eq) := by
      rw [hEqual, Bool.and_eq_right_iff_imp, beq_iff_eq, beq_iff_eq]
      exact fun hStart => congrArg List.length (h hStart)
    have hSame : memcmp his (myBytes value) = .eq → ¬his.length < (myBytes value).length ∧
        ¬his.length > (myBytes value).length := fun hStart => by
      rw [← h hStart]
      exact ⟨lt_irrefl _, lt_irrefl _⟩
    have hLess : rawOp 1 his value = (memcmp his (myBytes value) == .lt) := by
      show (memcmp his (myBytes value) == .lt || memcmp his (myBytes value) == .eq && _) = _
      cases hOrder : memcmp his (myBytes value) with
      | eq => simp [(hSame hOrder).1]
      | lt => rfl
      | gt => rfl
    have hGreater : rawOp 2 his value = (memcmp his (myBytes value) == .gt) := by
      show (memcmp his (myBytes value) == .gt || memcmp his (myBytes value) == .eq && _) = _
      cases hOrder : memcmp his (myBytes value) with
      | eq => simp [(hSame hOrder).2]
      | lt => rfl
      | gt => rfl
    refine ⟨?_, ?_, ?_, hNot⟩
    · rw [hEqual', hLess, hGreater]
      exact exactlyOne_ordering _
    · rw [hEqual', hLess]
      show (memcmp his (myBytes value) != .gt) = _
      cases memcmp his (myBytes value) <;> rfl
    · rw [hEqual', hGreater]
      show (memcmp his (myBytes value) != .lt) = _
      cases memcmp his (myBytes value) <;> rfl

theorem chars_lowered (hp : p.Standard) (s : CStr) : (lowered p s).chars = s.chars.map p.toLower := by
  refine List.takeWhile_eq_self_iff.mpr fun c hc => ?_
  obtain ⟨d, hd, rfl⟩ := List.mem_map.mp hc
  have hNonzero : d ≠ 0 := fun h => s.noNul (h ▸ hd)
  rw [bne_iff_ne]
  exact hp.toLower d hNonzero

theorem indexOf_iff {s str : List UInt8} : indexOf s str = true ↔ s ≠ [] ∧ str <:+: s := by
  rw [indexOf, Bool.and_eq_true, Bool.not_eq_true', List.isEmpty_eq_false_iff, List.any_eq_true]
  refine and_congr_right fun _ => ⟨?_, ?_⟩
  · rintro ⟨tail, hTail, hPre⟩
    exact (List.isPrefixOf_iff_prefix.mp hPre).isInfix.trans ((List.mem_tails _ _).mp hTail).isInfix
  · rintro ⟨before, after, rfl⟩
    exact ⟨str ++ after, (List.mem_tails _ _).mpr ⟨before, by rw [List.append_assoc]⟩,
      List.isPrefixOf_iff_prefix.mpr (List.prefix_append ..)⟩

/-- What holds of two strings holds of them in lower case, so that only the converse is in question. -/
theorem eq_iff_of_imp {b b' : Bool} (h : b = true → b' = true) : b = b' ↔ (b' = true → b = true) := by
  cases b <;> cases b' <;> simp_all

theorem foldsCase_iff (hp : p.Standard) (s value : CStr) :
    (∀ op ∈ caseOperators, stringOp p (op + 12) s value = stringOp p op (lowered p s) (lowered p value)) ↔
      (s.chars.map p.toLower <+: value.chars.map p.toLower → s.chars <+: value.chars) ∧
        (s.chars.map p.toLower <:+ value.chars.map p.toLower → s.chars <:+ value.chars) ∧
          (indexOf (value.chars.map p.toLower) (s.chars.map p.toLower) = true →
            indexOf value.chars s.chars = true) := by
  have hs := chars_lowered hp s
  have hv := chars_lowered hp value
  have hPrefix : stringOp p 21 s value = stringOp p 9 (lowered p s) (lowered p value) ↔
      (s.chars.map p.toLower <+: value.chars.map p.toLower → s.chars <+: value.chars) := by
    show s.chars.isPrefixOf value.chars = (lowered p s).chars.isPrefixOf (lowered p value).chars ↔ _
    rw [hs, hv, eq_iff_of_imp, List.isPrefixOf_iff_prefix, List.isPrefixOf_iff_prefix]
    rw [List.isPrefixOf_iff_prefix, List.isPrefixOf_iff_prefix]
    exact fun h => h.map _
  have hSuffix : stringOp p 22 s value = stringOp p 10 (lowered p s) (lowered p value) ↔
      (s.chars.map p.toLower <:+ value.chars.map p.toLower → s.chars <:+ value.chars) := by
    show s.chars.isSuffixOf value.chars = (lowered p s).chars.isSuffixOf (lowered p value).chars ↔ _
    rw [hs, hv, eq_iff_of_imp, List.isSuffixOf_iff_suffix, List.isSuffixOf_iff_suffix]
    rw [List.isSuffixOf_iff_suffix, List.isSuffixOf_iff_suffix]
    exact fun h => h.map _
  have hInfix : stringOp p 23 s value = stringOp p 11 (lowered p s) (lowered p value) ↔
      (indexOf (value.chars.map p.toLower) (s.chars.map p.toLower) = true → indexOf value.chars s.chars = true) := by
    show indexOf value.chars s.chars = indexOf (lowered p value).chars (lowered p s).chars ↔ _
    rw [hs, hv, eq_iff_of_imp]
    rw [indexOf_iff, indexOf_iff]
    exact fun h => ⟨fun hNil => h.1 (List.map_eq_nil_iff.mp hNil), h.2.map _⟩
  rw [← hPrefix, ← hSuffix, ← hInfix]
  constructor
  · exact fun h => ⟨h 9 (by decide), h 10 (by decide), h 11 (by decide)⟩
  · rintro ⟨h9, h10, h11⟩
    simp only [caseOperators, List.forall_mem_cons]
    refine ⟨?_, ?_, ?_, ?_, ?_, ?_, ?_, ?_, ?_, h9, h10, h11, nofun⟩
    all_goals
      -- These operators put both strings into lower case themselves.
      unfold stringOp
      rw [hs, hv]
      rfl

theorem coherent_iff_fits (o : Operand) :
    Coherent r msg v o ↔ o.tested p msg v = o.itemAt r msg v v.index.toNat ∧
      (∀ item, o.itemAt r msg v v.index.toNat = some item → Fits (o.test p · item)) ∧ o.IgnoresCase p msg v := by
  constructor
  · intro h
    refine ⟨h.own, fun item hItem => ?_, h.ignoresCase⟩
    have hResult : ∀ op, (o.filter v op).isMatch p msg = o.test p op item := fun op => by
      rw [isMatch_filter, h.own, hItem, Option.any_some]
    have hOne := h.exactlyOne (by rw [hItem]; rfl)
    have hLess := h.lessOrEqual
    have hGreater := h.greaterOrEqual
    have hNot := h.notEqual (by rw [hItem]; rfl)
    simp only [hResult] at hOne hLess hGreater hNot
    exact ⟨hOne, hLess, hGreater, hNot⟩
  · rintro ⟨hOwn, hFits, hCase⟩
    have hResult : ∀ op, (o.filter v op).isMatch p msg = (o.itemAt r msg v v.index.toNat).any (o.test p op) :=
      fun op => by rw [isMatch_filter, hOwn]
    cases hItem : o.itemAt r msg v v.index.toNat with
    | none =>
      rw [hItem] at hResult
      refine ⟨hOwn, fun h => ?_, ?_, ?_, fun h => ?_, hCase⟩
      · rw [hItem] at h
        cases h
      · rw [hResult, hResult, hResult]
        rfl
      · rw [hResult, hResult, hResult]
        rfl
      · rw [hItem] at h
        cases h
    | some item =>
      have hItemFits := hFits item hItem
      simp only [hItem, Option.any_some] at hResult
      refine ⟨hOwn, fun _ => ?_, ?_, ?_, fun _ => ?_, hCase⟩
      · rw [hResult, hResult, hResult]
        exact hItemFits.exactlyOne
      · rw [hResult, hResult, hResult]
        exact hItemFits.lessOrEqual
      · rw [hResult, hResult, hResult]
        exact hItemFits.greaterOrEqual
      · rw [hResult, hResult]
        exact hItemFits.notEqual

theorem findDataAt_zero (name : CStr) (typeCode : UInt32) :
    r.findDataAt msg name typeCode 0 = findData p msg name typeCode := by
  unfold Reader.findDataAt findData
  simp only [r.memoryAt_zero]

/-- An item of a field of raw data. -/
def bufferAt : DataArray → Nat → Option (List UInt8)
  | .buffer _ items, index => items[index]?.join
  | _, _ => none

/-- A platform with the characters of ASCII. -/
def posix : Platform where
  float := .ieee Comparison.isNaN32
  double := .ieee Comparison.isNaN64
  toLower c := if 65 ≤ c ∧ c ≤ 90 then c + 32 else c
  stringMatcher _ _ _ := false
  memory _ array := bufferAt array 0

theorem posix_standard : posix.Standard := by
  refine ⟨rfl, rfl, fun c hc => ?_⟩
  show (if 65 ≤ c ∧ c ≤ 90 then c + 32 else c) ≠ 0
  split
  · rename_i hUpper
    rw [UInt8.le_iff_toNat_le, UInt8.le_iff_toNat_le] at hUpper
    intro hZero
    have hSum := congrArg UInt8.toNat hZero
    rw [UInt8.toNat_add] at hSum
    have hLow : 65 ≤ c.toNat := hUpper.1
    have hHigh : c.toNat ≤ 90 := hUpper.2
    change (c.toNat + 32) % 256 = 0 at hSum
    omega
  · exact hc

def posixReader : Reader posix :=
  ⟨fun _ => bufferAt, fun _ _ => rfl⟩

/-- Two buffers in field `"d"`, and a string in field `"s"`. -/
def sample : Message :=
  .mk 0 [(.ofBytes [100], .buffer ⟨B_RAW_TYPE, raw_not_class⟩ [some [1, 2], some [3]]),
    (.ofBytes [115], .string [.ofBytes [65]])]

def rawOperand (value : UInt8) : Operand :=
  .raw (some ⟨[value], true, by simp, fun _ => rfl⟩) B_RAW_TYPE

end Operand

end BeShare.Muscle.Filters
