import BeShare.Lib.Comparators
import BeShare.Client.TabCompletion
import BeShare.Message.Types
import Mathlib.Data.Prod.Lex

/-! `ShareColumn::Compare`, by which the rows of the query results are sorted. -/

namespace BeShare.Client.ShareColumn

open BeShare.Lib BeShare.Muscle TabCompletion

/-- `strcasecmp`: the difference of the first characters that differ, where a string ends with a zero. -/
def strcasecmp : List UInt8 → List UInt8 → Int
  | [], [] => 0
  | [], b :: _ => 0 - (toLower b).toNat
  | a :: _, [] => (toLower a).toNat
  | a :: as, b :: bs =>
    if toLower a = toLower b then strcasecmp as bs else (toLower a).toNat - (toLower b).toNat

def isSpace (c : UInt8) : Bool := c == 32 || 9 ≤ c && c ≤ 13

def isDigit (c : UInt8) : Bool := 48 ≤ c && c ≤ 57

/-- The number that the digits at the front of a string show. -/
def digits (s : List UInt8) : Nat :=
  (s.takeWhile isDigit).foldl (fun n c => 10 * n + (c.toNat - 48)) 0

/-- `atol`, for a `long` of 32 bits. Numbers that are too great or too small are replaced by the greatest and the
smallest. -/
def atol (s : List UInt8) : Int :=
  match s.dropWhile isSpace with
  | 45 :: s => max (-(digits s)) (-2147483648)
  | 43 :: s => min (digits s) 2147483647
  | s => min (digits s) 2147483647

/-- A floating point number. The two zeros are one value, and the infinities are values. -/
inductive Flt (R : Type) where
  | nan
  | value (x : R)
deriving DecidableEq

inductive TypeCode where
  | bool | double | float | int64 | int32 | int16 | int8 | string
  /-- A type of data that the columns do not show. -/
  | other (code : UInt32)
deriving DecidableEq

/-- An item of a field of a message. -/
inductive Item (R : Type) where
  | bool (v : Bool)
  | double (v : Flt R)
  | float (v : Flt R)
  | int64 (v : Int64)
  | int32 (v : Int32)
  | int16 (v : Int16)
  | int8 (v : Int8)
  | string (v : CStr)
  | other (code : UInt32) (v : List UInt8)

variable {R : Type}

def Item.type : Item R → TypeCode
  | bool _ => .bool
  | double _ => .double
  | float _ => .float
  | int64 _ => .int64
  | int32 _ => .int32
  | int16 _ => .int16
  | int8 _ => .int8
  | string _ => .string
  | other code _ => .other code

/-- A field of a message: `GetInfo` tells its type. -/
structure Field (R : Type) where
  type : TypeCode
  items : List (Item R)
  typed : ∀ item ∈ items, item.type = type

/-- A row of the results, with its attributes and what is asked of its owner. -/
structure RemoteFileItem (R : Type) where
  fileName : CStr
  displayHandle : CStr
  sessionID : CStr
  bandwidth : UInt32
  attributes : CStr → Option (Field R)

inductive ColumnType where
  | misc | fileName | ownerName | ownerID | ownerConnection

structure Column where
  type : ColumnType
  attrName : CStr

/-- `(v1 != v2) ? ((v1 > v2) ? -1 : 1) : 0` -/
def descending (ne gt : Bool) : Int :=
  if ne then if gt then -1 else 1 else 0

/-- The lower case characters of a string. -/
def foldCase (s : List UInt8) : List Nat :=
  s.map fun c => (toLower c).toNat

/-- The item of a type of whole numbers, or of truth values. -/
def Item.number : Item R → Int
  | bool v => if v then 1 else 0
  | int64 v => v.toInt
  | int32 v => v.toInt
  | int16 v => v.toInt
  | int8 v => v.toInt
  | _ => 0

def Item.real : Item R → WithBot R
  | double (.value x) => x
  | float (.value x) => x
  | _ => ⊥

def Item.text : Item R → CStr
  | string v => v
  | _ => .empty

/-- The key of an item among those of its type: the greater number comes first. -/
def Item.key (v : Item R) : Lex (Intᵒᵈ × Lex ((WithBot R)ᵒᵈ × List Nat)) :=
  toLex (OrderDual.toDual v.number, toLex (OrderDual.toDual v.real, foldCase v.text.chars))

/-- A floating point number that is none. -/
def Item.isNaN : Item R → Bool
  | double .nan => true
  | float .nan => true
  | _ => false

/-- Equal values, strings that are equal but for their case, or data of a type that is not compared. -/
def Item.Same : Item R → Item R → Prop
  | string v, string w => foldCase v.chars = foldCase w.chars
  | other _ _, other _ _ => True
  | v, w => v = w

variable [LinearOrder R]

/-- `v1 > v2`, which is false if one of them is not a number. -/
def Flt.gt : Flt R → Flt R → Bool
  | value x, value y => decide (y < x)
  | _, _ => false

/-- `v1 != v2`, which is true if one of them is not a number. -/
def Flt.ne : Flt R → Flt R → Bool
  | value x, value y => decide (x ≠ y)
  | _, _ => true

/-- The cases of `switch(tc)`. -/
def compareItems : Item R → Item R → Int
  | .bool v1, .bool v2 => descending (v1 != v2) v1
  | .double v1, .double v2 => descending (v1.ne v2) (v1.gt v2)
  | .float v1, .float v2 => descending (v1.ne v2) (v1.gt v2)
  | .int64 v1, .int64 v2 => descending (v1 != v2) (v2 < v1)
  | .int32 v1, .int32 v2 => descending (v1 != v2) (v2 < v1)
  | .int16 v1, .int16 v2 => descending (v1 != v2) (v2 < v1)
  | .int8 v1, .int8 v2 => descending (v1 != v2) (v2 < v1)
  | .string v1, .string v2 => strcasecmp v1.chars v2.chars
  | _, _ => 0

/-- `Compare` -/
def compare (column : Column) (rf1 rf2 : RemoteFileItem R) : Int :=
  match column.type with
  | .fileName => strcasecmp rf1.fileName.chars rf2.fileName.chars
  | .ownerName => strcasecmp rf1.displayHandle.chars rf2.displayHandle.chars
  | .ownerID => toInt32 (atol rf1.sessionID.chars - atol rf2.sessionID.chars)
  | .ownerConnection => descending (rf1.bandwidth != rf2.bandwidth) (rf2.bandwidth < rf1.bandwidth)
  | .misc =>
    match rf1.attributes column.attrName with
    | some field1 =>
      match rf2.attributes column.attrName with
      | some field2 =>
        if field1.type = field2.type then
          match field1.items, field2.items with
          | v1 :: _, v2 :: _ => compareItems v1 v2
          | _, _ => 0
        else -1
      | none => -1
    | none => if (rf2.attributes column.attrName).isSome then 1 else 0

/-! ### Values of one type -/

section

variable {α β : Type} [LinearOrder β] {x y : β} {cmp : α → α → Int} {s : Set α}

theorem descending_neg : descending (decide (x ≠ y)) (decide (y < x)) < 0 ↔ y < x := by
  by_cases hEq : x = y
  · simp [descending, hEq]
  · by_cases hGt : y < x <;> simp [descending, hEq, hGt]

theorem descending_pos : 0 < descending (decide (x ≠ y)) (decide (y < x)) ↔ x < y := by
  by_cases hEq : x = y
  · simp [descending, hEq]
  · by_cases hGt : y < x
    · simp [descending, hEq, hGt, hGt.le]
    · simp [descending, hEq, hGt, lt_of_le_of_ne (not_lt.mp hGt) hEq]

theorem descending_eq_zero : descending (decide (x ≠ y)) (decide (y < x)) = 0 ↔ x = y := by
  by_cases hEq : x = y
  · simp [descending, hEq]
  · by_cases hGt : y < x <;> simp [descending, hEq, hGt]

/-- Machine numbers are compared like the numbers that they stand for. -/
theorem descending_congr {γ : Type} [DecidableEq γ] {a b : γ} {p : Prop} [Decidable p] (hEq : a = b ↔ x = y)
    (hLess : p ↔ y < x) : descending (a != b) (decide p) = descending (decide (x ≠ y)) (decide (y < x)) := by
  have hNe : (a != b) = decide (x ≠ y) := by
    rw [Bool.eq_iff_iff, bne_iff_ne, decide_eq_true_iff]
    exact not_congr hEq
  rw [hNe, decide_eq_decide.mpr hLess]

/-- The greater key comes first. -/
theorem orders_descending (key : α → β)
    (h : ∀ a ∈ s, ∀ b ∈ s, cmp a b = descending (decide (key a ≠ key b)) (decide (key b < key a))) : Orders cmp s := by
  refine Orders.of_key (fun a => OrderDual.toDual (key a)) (fun a ha b hb => ?_) fun a ha b hb => ?_
  · rw [h a ha b hb, descending_neg, OrderDual.toDual_lt_toDual]
  · rw [h a ha b hb, descending_pos, OrderDual.toDual_lt_toDual]

end

theorem toLower_ne_zero {c : UInt8} (h : c ≠ 0) : toLower c ≠ 0 := by
  rw [toLower]
  split
  · rename_i hLetter
    intro hZero
    have hNat := congrArg UInt8.toNat hZero
    have hLow := UInt8.le_iff_toNat_le.mp hLetter.1
    have hHigh := UInt8.le_iff_toNat_le.mp hLetter.2
    rw [UInt8.toNat_add] at hNat
    simp only [UInt8.toNat_ofNat] at hNat hLow hHigh
    omega
  · exact h

theorem toLower_pos {c : UInt8} {s : List UInt8} (h : 0 ∉ c :: s) : 0 < (toLower c).toNat := by
  refine Nat.pos_of_ne_zero fun hZero => toLower_ne_zero (fun hc => h (hc ▸ List.mem_cons_self ..)) ?_
  exact UInt8.toNat_inj.mp hZero

/-- `strcasecmp` is the order of the lower case strings. -/
theorem strcasecmp_iff {s t : List UInt8} (hs : 0 ∉ s) (ht : 0 ∉ t) :
    (strcasecmp s t < 0 ↔ foldCase s < foldCase t) ∧ (0 < strcasecmp s t ↔ foldCase t < foldCase s) := by
  induction s, t using strcasecmp.induct with
  | case1 => exact ⟨iff_of_false (by decide) (lt_irrefl _), iff_of_false (by decide) (lt_irrefl _)⟩
  | case2 b t =>
    have hPos := toLower_pos ht
    rw [strcasecmp]
    refine ⟨iff_of_true (by omega) (List.nil_lt_cons ..), iff_of_false (by omega) (List.not_lt_nil _)⟩
  | case3 a s =>
    have hPos := toLower_pos hs
    rw [strcasecmp]
    refine ⟨iff_of_false (by omega) (List.not_lt_nil _), iff_of_true (by omega) (List.nil_lt_cons ..)⟩
  | case4 a s b t hSame ih =>
    rw [strcasecmp, if_pos hSame, foldCase, foldCase, List.map_cons, List.map_cons, List.cons_lt_cons_iff,
      List.cons_lt_cons_iff, hSame]
    have hRest := ih (fun h => hs (List.mem_cons_of_mem _ h)) fun h => ht (List.mem_cons_of_mem _ h)
    refine ⟨hRest.1.trans ?_, hRest.2.trans ?_⟩
    · rw [or_iff_right (Nat.lt_irrefl _), and_iff_right rfl]
      rfl
    · rw [or_iff_right (Nat.lt_irrefl _), and_iff_right rfl]
      rfl
  | case5 a s b t hDiffer =>
    have hNat : (toLower a).toNat ≠ (toLower b).toNat := fun h => hDiffer (UInt8.toNat_inj.mp h)
    rw [strcasecmp, if_neg hDiffer, foldCase, foldCase, List.map_cons, List.map_cons, List.cons_lt_cons_iff,
      List.cons_lt_cons_iff]
    refine ⟨⟨fun h => .inl (by omega), ?_⟩, ⟨fun h => .inl (by omega), ?_⟩⟩
    · rintro (h | h)
      · omega
      · exact absurd h.1 hNat
    · rintro (h | h)
      · omega
      · exact absurd h.1 (Ne.symm hNat)

/-- Strings are in order. -/
theorem orders_strcasecmp {α : Type} {cmp : α → α → Int} {s : Set α} (text : α → CStr)
    (h : ∀ a ∈ s, ∀ b ∈ s, cmp a b = strcasecmp (text a).chars (text b).chars) : Orders cmp s := by
  refine Orders.of_key (fun a => foldCase (text a).chars) (fun a ha b hb => ?_) fun a ha b hb => ?_
  · rw [h a ha b hb]
    exact (strcasecmp_iff (text a).noNul (text b).noNul).1
  · rw [h a ha b hb]
    exact (strcasecmp_iff (text a).noNul (text b).noNul).2

section

variable {v w : Item R}

theorem key_lt_of_number (hReal : v.real = w.real) (hText : v.text = w.text) : v.key < w.key ↔ w.number < v.number := by
  rw [Item.key, Item.key, hReal, hText, Prod.Lex.toLex_lt_toLex]
  simp only [lt_irrefl, and_false, or_false]
  exact OrderDual.toDual_lt_toDual

theorem key_lt_of_real (hNumber : v.number = w.number) (hText : v.text = w.text) : v.key < w.key ↔ w.real < v.real := by
  rw [Item.key, Item.key, hNumber, hText, Prod.Lex.toLex_lt_toLex, Prod.Lex.toLex_lt_toLex]
  simp only [lt_irrefl, and_false, or_false, false_or, true_and]
  exact OrderDual.toDual_lt_toDual

theorem key_lt_of_text (hNumber : v.number = w.number) (hReal : v.real = w.real) :
    v.key < w.key ↔ foldCase v.text.chars < foldCase w.text.chars := by
  rw [Item.key, Item.key, hNumber, hReal, Prod.Lex.toLex_lt_toLex, Prod.Lex.toLex_lt_toLex]
  simp only [lt_irrefl, false_or, true_and]

/-- Two items of one type. -/
structure Keyed (v w : Item R) : Prop where
  less : compareItems v w < 0 ↔ v.key < w.key
  more : 0 < compareItems v w ↔ w.key < v.key
  same : v.key = w.key ↔ v.Same w

theorem Keyed.of_number (hReal : v.real = w.real) (hText : v.text = w.text)
    (hCompare : compareItems v w = descending (decide (v.number ≠ w.number)) (decide (w.number < v.number)))
    (hSame : v.number = w.number ↔ v.Same w) : Keyed v w := by
  refine ⟨?_, ?_, ?_⟩
  · rw [hCompare, descending_neg, key_lt_of_number hReal hText]
  · rw [hCompare, descending_pos, key_lt_of_number hReal.symm hText.symm]
  · rw [← hSame, Item.key, Item.key, hReal, hText]
    simp

theorem Keyed.of_real (hNumber : v.number = w.number) (hText : v.text = w.text)
    (hCompare : compareItems v w = descending (decide (v.real ≠ w.real)) (decide (w.real < v.real)))
    (hSame : v.real = w.real ↔ v.Same w) : Keyed v w := by
  refine ⟨?_, ?_, ?_⟩
  · rw [hCompare, descending_neg, key_lt_of_real hNumber hText]
  · rw [hCompare, descending_pos, key_lt_of_real hNumber.symm hText.symm]
  · rw [← hSame, Item.key, Item.key, hNumber, hText]
    simp

theorem Keyed.of_text (hNumber : v.number = w.number) (hReal : v.real = w.real)
    (hCompare : compareItems v w = strcasecmp v.text.chars w.text.chars)
    (hSame : foldCase v.text.chars = foldCase w.text.chars ↔ v.Same w) : Keyed v w := by
  refine ⟨?_, ?_, ?_⟩
  · rw [hCompare, key_lt_of_text hNumber hReal]
    exact (strcasecmp_iff v.text.noNul w.text.noNul).1
  · rw [hCompare, key_lt_of_text hNumber.symm hReal.symm]
    exact (strcasecmp_iff v.text.noNul w.text.noNul).2
  · rw [← hSame, Item.key, Item.key, hNumber, hReal]
    simp

/-- Two floating point numbers. -/
theorem descending_flt (x y : R) : descending ((Flt.value x).ne (.value y)) ((Flt.value x).gt (.value y)) =
    descending (decide ((x : WithBot R) ≠ y)) (decide ((y : WithBot R) < x)) := by
  simp only [Flt.ne, Flt.gt, ne_eq, WithBot.coe_inj, WithBot.coe_lt_coe]

/-- Two items of one type that are not NaN are compared by their keys. -/
theorem keyed (hType : v.type = w.type) (hv : v.isNaN = false) (hw : w.isNaN = false) : Keyed v w := by
  cases v with
  | bool a =>
    cases w <;> cases hType
    rename_i b
    refine .of_number rfl rfl ?_ ?_
    · cases a <;> cases b <;> rfl
    · cases a <;> cases b <;> simp [Item.number, Item.Same]
  | double a =>
    cases w <;> cases hType
    rename_i b
    cases a <;> cases hv
    cases b <;> cases hw
    exact .of_real rfl rfl (descending_flt _ _) (by simp [Item.real, Item.Same])
  | float a =>
    cases w <;> cases hType
    rename_i b
    cases a <;> cases hv
    cases b <;> cases hw
    exact .of_real rfl rfl (descending_flt _ _) (by simp [Item.real, Item.Same])
  | int64 a =>
    cases w <;> cases hType
    rename_i b
    exact .of_number rfl rfl (descending_congr Int64.toInt_inj.symm Int64.lt_iff_toInt_lt)
      (by simp [Item.number, Item.Same, Int64.toInt_inj])
  | int32 a =>
    cases w <;> cases hType
    rename_i b
    exact .of_number rfl rfl (descending_congr Int32.toInt_inj.symm Int32.lt_iff_toInt_lt)
      (by simp [Item.number, Item.Same, Int32.toInt_inj])
  | int16 a =>
    cases w <;> cases hType
    rename_i b
    exact .of_number rfl rfl (descending_congr Int16.toInt_inj.symm Int16.lt_iff_toInt_lt)
      (by simp [Item.number, Item.Same, Int16.toInt_inj])
  | int8 a =>
    cases w <;> cases hType
    rename_i b
    exact .of_number rfl rfl (descending_congr Int8.toInt_inj.symm Int8.lt_iff_toInt_lt)
      (by simp [Item.number, Item.Same, Int8.toInt_inj])
  | string a =>
    cases w <;> cases hType
    exact .of_text rfl rfl rfl (by simp [Item.text, Item.Same])
  | other code a =>
    cases w <;> cases hType
    refine ⟨iff_of_false (Int.lt_irrefl 0) (lt_irrefl _), iff_of_false (Int.lt_irrefl 0) (lt_irrefl _), ?_⟩
    exact iff_of_true rfl trivial

/-- The items of one type are in order if all floating point numbers among them are numbers. -/
theorem orders_compareItems {s : Set (Item R)} (hType : ∀ v ∈ s, ∀ w ∈ s, v.type = w.type) :
    Orders compareItems s ↔ ∀ v ∈ s, v.isNaN = false := by
  constructor
  · intro h v hv
    by_contra hNaN
    rw [Bool.not_eq_false] at hNaN
    have hSelf : compareItems v v = 1 := by
      rcases v with _ | (_ | _) | (_ | _) | _ | _ | _ | _ | _ | _ <;> first | rfl | cases hNaN
    have hSign := h.antisymm v hv v hv
    rw [hSelf] at hSign
    cases hSign
  · intro h
    exact Orders.of_key Item.key (fun v hv w hw => (keyed (hType v hv w hw) (h v hv) (h w hw)).less)
      fun v hv w hw => (keyed (hType v hv w hw) (h v hv) (h w hw)).more

end

/-! ### Columns -/

omit [LinearOrder R] in
/-- The fields that the rows have for a column. -/
def fields (column : Column) (rows : List (RemoteFileItem R)) : Set (Field R) :=
  { field | ∃ row ∈ rows, row.attributes column.attrName = some field }

omit [LinearOrder R] in
/-- The fields can be compared with each other: they have one type and no NaN, and none is empty unless the others
are equal. -/
structure Uniform (s : Set (Field R)) : Prop where
  type : ∀ a ∈ s, ∀ b ∈ s, a.type = b.type
  numbers : ∀ a ∈ s, ∀ v, a.items.head? = some v → v.isNaN = false
  equal : (∃ a ∈ s, a.items = []) → ∀ a ∈ s, ∀ b ∈ s, ∀ v w, a.items.head? = some v → b.items.head? = some w → v.Same w

omit [LinearOrder R] in
/-- The rows that a column can sort. -/
def Sortable (column : Column) (rows : List (RemoteFileItem R)) : Prop :=
  match column.type with
  | .misc => Uniform (fields column rows)
  | .ownerID => ∃ first : Int, ∀ row ∈ rows, (atol row.sessionID.chars - first) % 4294967296 < 2147483648
  | _ => True

/-- The comparison of two fields of one type. -/
def compareFields (a b : Field R) : Int := elseEqual compareItems a.items.head? b.items.head?

theorem compare_misc {column : Column} (hType : column.type = .misc) (a b : RemoteFileItem R) :
    compare column a b = lastMissing (unlessKinds Field.type compareFields) (a.attributes column.attrName)
      (b.attributes column.attrName) := by
  rw [compare, hType]
  cases a.attributes column.attrName with
  | none => cases b.attributes column.attrName <;> rfl
  | some field =>
    cases b.attributes column.attrName with
    | none => rfl
    | some other =>
      rw [lastMissing, unlessKinds, compareFields]
      simp only
      cases field.items <;> cases other.items <;> rfl

theorem orders_compareFields {s : Set (Field R)} :
    (∀ a ∈ s, ∀ b ∈ s, a.type = b.type) ∧ Orders compareFields s ↔ Uniform s := by
  have hFirst {a : Field R} {v : Item R} (h : a.items.head? = some v) : v.type = a.type :=
    a.typed v (List.mem_of_mem_head? h)
  have hTypes (hType : ∀ a ∈ s, ∀ b ∈ s, a.type = b.type) :
      ∀ v ∈ {v | some v ∈ (fun a : Field R => a.items.head?) '' s},
        ∀ w ∈ {w | some w ∈ (fun a : Field R => a.items.head?) '' s}, v.type = w.type := by
    rintro v ⟨a, ha, hv⟩ w ⟨b, hb, hw⟩
    rw [hFirst hv, hFirst hw]
    exact hType a ha b hb
  have hItems : Orders compareFields s ↔ _ :=
    (orders_image (f := fun a : Field R => a.items.head?)).trans orders_elseEqual
  rw [hItems]
  constructor
  · rintro ⟨hType, hOrders, hEqual⟩
    have hNumbers := (orders_compareItems (hTypes hType)).mp hOrders
    refine ⟨hType, fun a ha v hv => hNumbers v ⟨a, ha, hv⟩, ?_⟩
    rintro ⟨e, he, hEmpty⟩ a ha b hb v w hv hw
    have hZero := hEqual ⟨e, he, List.head?_eq_none_iff.mpr hEmpty⟩ v w ⟨a, ha, hv⟩ ⟨b, hb, hw⟩
    have hKeyed := keyed (hTypes hType v ⟨a, ha, hv⟩ w ⟨b, hb, hw⟩) (hNumbers v ⟨a, ha, hv⟩) (hNumbers w ⟨b, hb, hw⟩)
    refine hKeyed.same.mp (le_antisymm ?_ ?_)
    · exact not_lt.mp fun h => absurd (hKeyed.more.mpr h) (by omega)
    · exact not_lt.mp fun h => absurd (hKeyed.less.mpr h) (by omega)
  · rintro ⟨hType, hNumbers, hEqual⟩
    refine ⟨hType, (orders_compareItems (hTypes hType)).mpr ?_, ?_⟩
    · rintro v ⟨a, ha, hv⟩
      exact hNumbers a ha v hv
    · rintro ⟨e, he, hEmpty⟩ v w ⟨a, ha, hv⟩ ⟨b, hb, hw⟩
      have hSame := hEqual ⟨e, he, List.head?_eq_none_iff.mp hEmpty⟩ a ha b hb v w hv hw
      have hKeyed := keyed (hTypes hType v ⟨a, ha, hv⟩ w ⟨b, hb, hw⟩) (hNumbers a ha v hv) (hNumbers b hb w hw)
      have hKey := hKeyed.same.mpr hSame
      have hNotLess := mt hKeyed.less.mp hKey.not_lt
      have hNotMore := mt hKeyed.more.mp hKey.not_gt
      omega

omit [LinearOrder R] in
/-- The rows in the order of something that they have. -/
theorem orders_rows {α : Type} (f : RemoteFileItem R → α) (c : α → α → Int)
    {cmp : RemoteFileItem R → RemoteFileItem R → Int} (hCompare : ∀ a b, cmp a b = c (f a) (f b))
    (rows : List (RemoteFileItem R)) :
    Orders cmp {row | row ∈ rows} ↔ Orders c {x | x ∈ rows.map f} := by
  have hImage : f '' {row | row ∈ rows} = {x | x ∈ rows.map f} := by
    ext x
    exact List.mem_map.symm
  rw [← hImage, ← orders_image]
  exact ⟨fun h => h.congr fun a _ b _ => (hCompare a b).symm, fun h => h.congr fun a _ b _ => hCompare a b⟩

/-- Any column and any rows. -/
theorem orders_compare_iff (column : Column) (rows : List (RemoteFileItem R)) :
    Orders (compare column) {row | row ∈ rows} ↔ Sortable column rows := by
  cases hType : column.type with
  | misc =>
    have hFields : {field | some field ∈ {x | x ∈ rows.map fun row => row.attributes column.attrName}} =
        fields column rows := by
      ext field
      exact List.mem_map
    rw [Sortable, hType, orders_rows _ _ (compare_misc hType), orders_lastMissing, orders_unlessKinds,
      orders_compareFields, hFields]
  | ownerID =>
    have hCompare (a b : RemoteFileItem R) :
        compare column a b = toInt32 (atol a.sessionID.chars - atol b.sessionID.chars) := by
      rw [compare, hType]
    rw [Sortable, hType, orders_rows (fun row => atol row.sessionID.chars)
      (fun x y => toInt32 (x - y)) hCompare, orders_difference]
    simp only [List.forall_mem_map]
  | fileName =>
    rw [Sortable, hType]
    exact iff_of_true (orders_strcasecmp RemoteFileItem.fileName fun a _ b _ => by rw [compare, hType]) trivial
  | ownerName =>
    rw [Sortable, hType]
    exact iff_of_true (orders_strcasecmp RemoteFileItem.displayHandle fun a _ b _ => by rw [compare, hType]) trivial
  | ownerConnection =>
    rw [Sortable, hType]
    refine iff_of_true (orders_descending (fun row => row.bandwidth.toNat) fun a _ b _ => ?_) trivial
    rw [compare, hType]
    exact descending_congr UInt32.toNat_inj.symm UInt32.lt_iff_toNat_lt

/-- A row with the value for every attribute. -/
def rowOf (item : Item Nat) : RemoteFileItem Nat where
  fileName := .empty
  displayHandle := .empty
  sessionID := .empty
  bandwidth := 0
  attributes := fun _ => some ⟨item.type, [item], fun other h => by rw [List.mem_singleton.mp h]⟩

/-- A number and a truth value are each before the other. -/
theorem compare_types :
    ¬Orders (compare ⟨.misc, ⟨[97], by decide⟩⟩) {row | row ∈ [rowOf (.int32 5), rowOf (.bool true)]} := by
  intro h
  have hSign := h.antisymm (rowOf (.int32 5)) (List.mem_cons_self ..) (rowOf (.bool true))
    (List.mem_cons_of_mem _ (List.mem_cons_self ..))
  exact absurd hSign (by decide)

end BeShare.Client.ShareColumn
