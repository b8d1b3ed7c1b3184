import Mathlib.Tactic.Ring
import Mathlib.Data.List.Basic

/-! Little-endian words as byte lists, byte lists that stand at an offset of a
buffer, and items of one fixed size. -/

namespace BeShare.Lib

/-- A number as an `int` of 32 bits holds it. -/
def toInt32 (x : Int) : Int := (x + 2147483648) % 4294967296 - 2147483648

/-- The `k` low bytes of `v`, least significant first. -/
def leBytes : Nat → Nat → List UInt8
  | 0, _ => []
  | k + 1, v => UInt8.ofNat v :: leBytes k (v / 256)

/-- The number that `bs` spells, least significant byte first. -/
def leNat : List UInt8 → Nat
  | [] => 0
  | b :: bs => b.toNat + 256 * leNat bs

@[simp] theorem leBytes_length (k v : Nat) : (leBytes k v).length = k := by
  induction k generalizing v with
  | zero => rfl
  | succ k ih => simp [leBytes, ih]

theorem leNat_lt (bs : List UInt8) : leNat bs < 256 ^ bs.length := by
  induction bs with
  | nil => simp [leNat]
  | cons b bs ih =>
    have hb : b.toNat < 256 := b.toNat_lt
    simp only [leNat, List.length_cons, pow_succ]
    omega

theorem leNat_leBytes (k v : Nat) : leNat (leBytes k v) = v % 256 ^ k := by
  induction k generalizing v with
  | zero => simp [leBytes, leNat, Nat.mod_one]
  | succ k ih =>
    have hsplit : v % 256 ^ (k + 1) = v % 256 + 256 * (v / 256 % 256 ^ k) := by
      rw [pow_succ, Nat.mul_comm (256 ^ k) 256, Nat.mod_mul]
    simp only [leBytes, leNat, ih, UInt8.toNat_ofNat', hsplit]

theorem leNat_leBytes_of_lt {k v : Nat} (h : v < 256 ^ k) : leNat (leBytes k v) = v := by
  rw [leNat_leBytes, Nat.mod_eq_of_lt h]

theorem leBytes_leNat (bs : List UInt8) : leBytes bs.length (leNat bs) = bs := by
  induction bs with
  | nil => rfl
  | cons b bs ih =>
    have hb : b.toNat < 256 := b.toNat_lt
    have hdiv : (b.toNat + 256 * leNat bs) / 256 = leNat bs := by omega
    simp only [leNat, List.length_cons, leBytes, hdiv, ih, List.cons.injEq, and_true]
    apply UInt8.toNat_inj.mp
    rw [UInt8.toNat_ofNat']
    omega

/-- `bs` stands in `buf` at offset `a`. -/
def Holds (buf : List UInt8) (a : Nat) (bs : List UInt8) : Prop :=
  ∀ i b, bs[i]? = some b → buf[a + i]? = some b

theorem Holds.self (bs : List UInt8) : Holds bs 0 bs := by
  intro i b h
  rwa [Nat.zero_add]

theorem holds_append {buf : List UInt8} {a : Nat} {xs ys : List UInt8} :
    Holds buf a (xs ++ ys) ↔ Holds buf a xs ∧ Holds buf (a + xs.length) ys := by
  constructor
  · intro h
    refine ⟨fun i b hi => h i b ?_, fun i b hi => ?_⟩
    · rwa [List.getElem?_append_left (List.getElem?_eq_some_iff.mp hi).1]
    · rw [Nat.add_assoc]
      refine h (xs.length + i) b ?_
      rwa [List.getElem?_append_right (Nat.le_add_right _ _), Nat.add_sub_cancel_left]
  · rintro ⟨hx, hy⟩ i b hi
    by_cases hlt : i < xs.length
    · exact hx i b (by rwa [List.getElem?_append_left hlt] at hi)
    · rw [List.getElem?_append_right (by omega)] at hi
      have := hy (i - xs.length) b hi
      rwa [show a + xs.length + (i - xs.length) = a + i by omega] at this

theorem Holds.le_length {buf : List UInt8} {a : Nat} {bs : List UInt8} (h : Holds buf a bs)
    (hne : 0 < bs.length) : a + bs.length ≤ buf.length := by
  have hlast := h (bs.length - 1) _ (List.getElem?_eq_getElem (by omega))
  obtain ⟨hlt, -⟩ := List.getElem?_eq_some_iff.mp hlast
  omega

theorem Holds.take_drop {buf : List UInt8} {a : Nat} {bs : List UInt8} (h : Holds buf a bs) :
    (buf.drop a).take bs.length = bs := by
  apply List.ext_getElem?
  intro i
  by_cases hlt : i < bs.length
  · rw [List.getElem?_take_of_lt hlt, List.getElem?_drop, List.getElem?_eq_getElem hlt]
    exact h i _ (List.getElem?_eq_getElem hlt)
  · rw [List.getElem?_eq_none (by rw [List.length_take]; omega), List.getElem?_eq_none (by omega)]

/-- Items that all take the same number of bytes. -/
structure FixedCodec (α : Type) where
  size : Nat
  encode : α → List UInt8
  decode : List UInt8 → α
  size_pos : 0 < size
  encode_length : ∀ x, (encode x).length = size
  decode_encode : ∀ x, decode (encode x) = x

namespace FixedCodec

variable {α : Type} (c : FixedCodec α)

/-- The items' bytes, one item after the other. -/
def encodeAll : List α → List UInt8
  | [] => []
  | x :: xs => c.encode x ++ encodeAll xs

/-- The `k` items at the front of `bs`. -/
def decodeAll : Nat → List UInt8 → List α
  | 0, _ => []
  | k + 1, bs => c.decode (bs.take c.size) :: decodeAll k (bs.drop c.size)

@[simp] theorem encodeAll_length (xs : List α) :
    (c.encodeAll xs).length = xs.length * c.size := by
  induction xs with
  | nil => simp [encodeAll]
  | cons x xs ih => simp [encodeAll, ih, c.encode_length]; ring

theorem decodeAll_encodeAll (xs : List α) : c.decodeAll xs.length (c.encodeAll xs) = xs := by
  induction xs with
  | nil => rfl
  | cons x xs ih =>
    have hlen := c.encode_length x
    simp only [encodeAll, List.length_cons, decodeAll]
    rw [List.take_left' hlen, List.drop_left' hlen, c.decode_encode, ih]

@[simp] theorem decodeAll_length (k : Nat) (bs : List UInt8) : (c.decodeAll k bs).length = k := by
  induction k generalizing bs with
  | zero => rfl
  | succ k ih => simp [decodeAll, ih]

end FixedCodec

/-- Words of `k` bytes as bit vectors. -/
def wordCodec (k : Nat) (hk : 0 < k) : FixedCodec (BitVec (8 * k)) where
  size := k
  encode x := leBytes k x.toNat
  decode bs := BitVec.ofNat _ (leNat bs)
  size_pos := hk
  encode_length x := leBytes_length k _
  decode_encode x := by
    have hx : x.toNat < 256 ^ k := by
      have := x.isLt
      rwa [pow_mul] at this
    rw [leNat_leBytes_of_lt hx, BitVec.ofNat_toNat, BitVec.setWidth_eq]

end BeShare.Lib
