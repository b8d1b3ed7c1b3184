import Mathlib.Data.List.Basic
import Mathlib.Tactic.Common

/-!
`NybbleizeData` and `DenybbleizeData`: two characters from `'A'` to `'P'` for each byte, the low four bits first.
-/

namespace BeShare.Muscle.Nybbles

/-- An access that does not belong to the string, or to the buffer. -/
inductive Outside where
  | read (i : Nat)
  | write (k : Nat)
  deriving DecidableEq

/-- `operator []` -/
def charAt (text : List UInt8) (i : Nat) : Except Outside UInt8 :=
  match text[i]? with
  | some c => .ok c
  | none => .error (.read i)

/-- `*b = c`, with `b` at the byte `k`. -/
def store (buf : List UInt8) (k : Nat) (c : UInt8) : Except Outside (List UInt8) :=
  if k < buf.length then .ok (buf.set k c) else .error (.write k)

/-- `'A'` -/
def letterA : UInt8 := 65

def nybbleizeData (buf : List UInt8) : List UInt8 :=
  buf.flatMap fun c : UInt8 => [(c >>> 0 &&& 15) + letterA, (c >>> 4 &&& 15) + letterA]

/-- The turn of the loop where `i` is `2 * k`. -/
def denybbleizeTurn (nybbleizedText b : List UInt8) (k : Nat) : Except Outside (List UInt8) := do
  let c1 ← charAt nybbleizedText (2 * k)
  let c2 ← charAt nybbleizedText (2 * k + 1)
  store b k ((c1 - letterA) <<< 0 ||| (c2 - letterA) <<< 4)

/-- The turns of the loop with `i` below `2 * k`. -/
def denybbleizeTurns (nybbleizedText b : List UInt8) (k : Nat) : Except Outside (List UInt8) :=
  (List.range k).foldlM (denybbleizeTurn nybbleizedText) b

/-- The buffer has half of the length, and the loop runs while `i` is below the length. -/
def denybbleizeData (nybbleizedText : List UInt8) : Except Outside (List UInt8) :=
  let numBytes := nybbleizedText.length
  denybbleizeTurns nybbleizedText (List.replicate (numBytes / 2) 0) ((numBytes + 1) / 2)

variable {text buf b : List UInt8} {k : Nat}

theorem charAt_of_lt {i : Nat} (h : i < text.length) : charAt text i = .ok text[i] := by
  rw [charAt, List.getElem?_eq_getElem h]

theorem charAt_of_le {i : Nat} (h : text.length ≤ i) : charAt text i = .error (.read i) := by
  rw [charAt, List.getElem?_eq_none h]

theorem denybbleizeTurn_of_lt (hRead : 2 * k + 1 < text.length) (hWrite : k < b.length) :
    denybbleizeTurn text b k =
      .ok (b.set k ((text[2 * k] - letterA) <<< 0 ||| (text[2 * k + 1] - letterA) <<< 4)) := by
  unfold denybbleizeTurn store
  rw [charAt_of_lt (Nat.lt_of_succ_lt hRead), charAt_of_lt hRead]
  exact if_pos hWrite

/-- The second read is behind the end. -/
theorem denybbleizeTurn_of_le (hRead : text.length ≤ 2 * k + 1) (b : List UInt8) :
    (denybbleizeTurn text b k).isOk = false := by
  unfold denybbleizeTurn
  rw [charAt_of_le hRead]
  cases charAt text (2 * k) <;> rfl

theorem denybbleizeTurns_succ (text buf : List UInt8) (k : Nat) :
    denybbleizeTurns text buf (k + 1) = denybbleizeTurns text buf k >>= fun b => denybbleizeTurn text b k := by
  rw [denybbleizeTurns, List.range_succ, List.foldlM_append, ← denybbleizeTurns]
  cases denybbleizeTurns text buf k with
  | error e => rfl
  | ok b =>
    change List.foldlM (denybbleizeTurn text) b [k] = denybbleizeTurn text b k
    rw [List.foldlM_cons]
    exact bind_pure _

theorem denybbleizeTurns_succ_of_ok (h : denybbleizeTurns text buf k = .ok b) :
    denybbleizeTurns text buf (k + 1) = denybbleizeTurn text b k := by
  rw [denybbleizeTurns_succ, h]
  rfl

/-! ### Strings of even and of odd length -/

/-- The first turns stay inside while there are two characters and a byte for each. -/
theorem denybbleizeTurns_ok (text buf : List UInt8) (k : Nat) (hRead : 2 * k ≤ text.length) (hWrite : k ≤ buf.length) :
    ∃ b, denybbleizeTurns text buf k = .ok b ∧ b.length = buf.length := by
  induction k with
  | zero => exact ⟨buf, rfl, rfl⟩
  | succ k ih =>
    obtain ⟨b, hTurns, hLength⟩ := ih (by omega) (by omega)
    rw [denybbleizeTurns_succ_of_ok hTurns, denybbleizeTurn_of_lt hRead (hLength ▸ hWrite)]
    exact ⟨_, rfl, List.length_set.trans hLength⟩

theorem isOk_denybbleizeData : (denybbleizeData text).isOk = true ↔ text.length % 2 = 0 := by
  unfold denybbleizeData
  constructor
  · intro hOk
    by_contra hOdd
    obtain ⟨b, hTurns, -⟩ := denybbleizeTurns_ok text (List.replicate (text.length / 2) 0)
      (text.length / 2) (by omega) (Nat.le_of_eq List.length_replicate.symm)
    have hLast : (text.length + 1) / 2 = text.length / 2 + 1 := by omega
    dsimp only at hOk
    rw [hLast, denybbleizeTurns_succ_of_ok hTurns, denybbleizeTurn_of_le (by omega)] at hOk
    exact Bool.false_ne_true hOk
  · intro hEven
    obtain ⟨b, hTurns, -⟩ := denybbleizeTurns_ok text (List.replicate (text.length / 2) 0)
      ((text.length + 1) / 2) (by omega) (by rw [List.length_replicate]; omega)
    dsimp only
    rw [hTurns]
    rfl

/-! ### The way back -/

/-- The two nybbles of a byte make the byte again. -/
theorem nybbles_or (c : UInt8) :
    ((c >>> 0 &&& 15) + letterA - letterA) <<< 0 ||| ((c >>> 4 &&& 15) + letterA - letterA) <<< 4 = c := by
  rw [UInt8.add_sub_cancel, UInt8.add_sub_cancel]
  have hAll : ∀ n < 256, (UInt8.ofNat n >>> 0 &&& 15) <<< 0 ||| (UInt8.ofNat n >>> 4 &&& 15) <<< 4 = UInt8.ofNat n := by
    decide +kernel
  have hc := hAll c.toNat c.toNat_lt
  rwa [UInt8.ofNat_toNat] at hc

theorem length_nybbleizeData (buf : List UInt8) : (nybbleizeData buf).length = 2 * buf.length := by
  induction buf with
  | nil => rfl
  | cons c buf ih =>
    rw [nybbleizeData, List.flatMap_cons, ← nybbleizeData, List.length_append, ih, List.length_cons]
    simp only [List.length_cons, List.length_nil]
    omega

theorem getElem?_nybbleizeData (buf : List UInt8) (k : Nat) :
    (nybbleizeData buf)[2 * k]? = buf[k]?.map (fun c : UInt8 => (c >>> 0 &&& 15) + letterA) ∧
      (nybbleizeData buf)[2 * k + 1]? = buf[k]?.map (fun c : UInt8 => (c >>> 4 &&& 15) + letterA) := by
  induction buf generalizing k with
  | nil => exact ⟨rfl, rfl⟩
  | cons c buf ih =>
    cases k with
    | zero => exact ⟨rfl, rfl⟩
    | succ k => exact ih k

theorem denybbleizeTurn_nybbleizeData (hk : k < buf.length) (hWrite : k < b.length) :
    denybbleizeTurn (nybbleizeData buf) b k = .ok (b.set k buf[k]) := by
  have hRead : 2 * k + 1 < (nybbleizeData buf).length := by
    rw [length_nybbleizeData]
    omega
  obtain ⟨hLow, hHigh⟩ := getElem?_nybbleizeData buf k
  rw [List.getElem?_eq_getElem hk, List.getElem?_eq_getElem (Nat.lt_of_succ_lt hRead), Option.map_some,
    Option.some.injEq] at hLow
  rw [List.getElem?_eq_getElem hk, List.getElem?_eq_getElem hRead, Option.map_some, Option.some.injEq] at hHigh
  rw [denybbleizeTurn_of_lt hRead hWrite, hLow, hHigh, nybbles_or]

/-- After some turns the first bytes are back. -/
theorem denybbleizeTurns_nybbleizeData (hk : k ≤ buf.length) (hLength : b.length = buf.length) :
    denybbleizeTurns (nybbleizeData buf) b k = .ok (buf.take k ++ b.drop k) := by
  induction k with
  | zero => rfl
  | succ k ih =>
    have hShort : (buf.take k).length = k := List.length_take_of_le (Nat.le_of_succ_le hk)
    have hWrite : k < (buf.take k ++ b.drop k).length := by
      rw [List.length_append, hShort, List.length_drop]
      omega
    have hRest : b.drop k = b[k] :: b.drop (k + 1) := List.drop_eq_getElem_cons (by omega)
    rw [denybbleizeTurns_succ_of_ok (ih (Nat.le_of_succ_le hk)), denybbleizeTurn_nybbleizeData hk hWrite,
      List.set_append_right _ _ (Nat.le_of_eq hShort), hShort, Nat.sub_self, hRest, List.set_cons_zero,
      List.take_succ_eq_append_getElem hk, List.append_assoc]
    rfl

theorem denybbleizeData_nybbleizeData (buf : List UInt8) : denybbleizeData (nybbleizeData buf) = .ok buf := by
  unfold denybbleizeData
  dsimp only
  have hTurns : (2 * buf.length + 1) / 2 = buf.length := by omega
  rw [length_nybbleizeData, Nat.mul_div_cancel_left _ (by decide), hTurns,
    denybbleizeTurns_nybbleizeData (Nat.le_refl _) List.length_replicate, List.take_length,
    List.drop_eq_nil_of_le (Nat.le_of_eq List.length_replicate), List.append_nil]

/-- The data always come back. The accesses stay inside of the string and of the buffer for the strings of even length
only. -/
theorem nybbles_inside_iff (buf text : List UInt8) :
    (denybbleizeData (nybbleizeData buf) = .ok buf ∧ (denybbleizeData text).isOk = true) ↔ text.length % 2 = 0 := by
  rw [isOk_denybbleizeData]
  exact and_iff_right (denybbleizeData_nybbleizeData buf)

/-- `"A"` has no second character. -/
theorem denybbleizeData_outside :
    ¬∀ buf text : List UInt8,
      denybbleizeData (nybbleizeData buf) = .ok buf ∧ (denybbleizeData text).isOk = true := by
  intro h
  have hOk := (h [] [letterA]).2
  have hOutside : denybbleizeData [letterA] = .error (.read 1) := rfl
  rw [hOutside] at hOk
  exact Bool.false_ne_true hOk

end BeShare.Muscle.Nybbles
