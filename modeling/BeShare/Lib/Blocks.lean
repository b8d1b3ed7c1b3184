import Mathlib.Algebra.Group.Nat.Defs
import Mathlib.Tactic.Common

/-! Lists that are taken in block by block, in pieces of any lengths. -/

namespace BeShare.Lib

variable {σ α : Type} (k : Nat) (f : σ → List α → σ)

/-- So many blocks from the front are taken in. -/
def foldBlocks : Nat → σ → List α → σ
  | 0, s, _ => s
  | n + 1, s, l => foldBlocks n (f s (l.take k)) (l.drop k)

/-- All full blocks are taken in. -/
def foldFull (s : σ) (l : List α) : σ :=
  foldBlocks k f (l.length / k) s l

/-- What is left behind the full blocks -/
def lastPart (l : List α) : List α :=
  l.drop (l.length / k * k)

variable {k f} {s : σ} {l : List α}

theorem foldBlocks_succ (n : Nat) (s : σ) (l : List α) :
    foldBlocks k f (n + 1) s l = foldBlocks k f n (f s (l.take k)) (l.drop k) := rfl

theorem foldBlocks_append {n : Nat} (hLength : l.length = n * k) (m : Nat) (more : List α) :
    foldBlocks k f (n + m) s (l ++ more) = foldBlocks k f m (foldBlocks k f n s l) more := by
  induction n generalizing s l with
  | zero =>
    rw [Nat.zero_mul] at hLength
    rw [List.eq_nil_of_length_eq_zero hLength, Nat.zero_add]
    rfl
  | succ n ih =>
    have hFirst : k ≤ l.length := by
      rw [hLength, Nat.succ_mul]
      exact Nat.le_add_left ..
    rw [Nat.succ_add, foldBlocks_succ, foldBlocks_succ, List.take_append_of_le_length hFirst,
      List.drop_append_of_le_length hFirst]
    refine ih ?_
    rw [List.length_drop, hLength, Nat.succ_mul, Nat.add_sub_cancel]

theorem length_front (k : Nat) (l : List α) : (l.take (l.length / k * k)).length = l.length / k * k := by
  rw [List.length_take]
  exact Nat.min_eq_left (Nat.div_mul_le_self ..)

theorem lastPart_length (k : Nat) (l : List α) : (lastPart k l).length = l.length % k := by
  unfold lastPart
  rw [List.length_drop, Nat.mod_eq_sub, Nat.mul_comm]

/-- The blocks do not look behind themselves. -/
theorem foldFull_front (s : σ) (l : List α) :
    foldFull k f s l = foldBlocks k f (l.length / k) s (l.take (l.length / k * k)) := by
  have hSplit := foldBlocks_append (f := f) (s := s) (length_front k l) 0 (lastPart k l)
  unfold lastPart at hSplit
  rw [List.take_append_drop] at hSplit
  exact hSplit

theorem foldFull_short (hShort : l.length < k) (s : σ) : foldFull k f s l = s := by
  unfold foldFull
  rw [Nat.div_eq_of_lt hShort]
  rfl

theorem lastPart_short (hShort : l.length < k) : lastPart k l = l := by
  unfold lastPart
  rw [Nat.div_eq_of_lt hShort, Nat.zero_mul, List.drop_zero]

theorem div_length_append (hk : 0 < k) (l more : List α) :
    (l ++ more).length / k = l.length / k + (lastPart k l ++ more).length / k := by
  have hLength : (l ++ more).length = (lastPart k l ++ more).length + l.length / k * k := by
    rw [List.length_append, List.length_append, lastPart_length, Nat.add_right_comm, Nat.mod_add_div']
  rw [hLength, Nat.add_mul_div_right _ _ hk, Nat.add_comm]

theorem append_front (k : Nat) (l more : List α) : l ++ more = l.take (l.length / k * k) ++ (lastPart k l ++ more) := by
  unfold lastPart
  rw [← List.append_assoc, List.take_append_drop]

/-- A piece is taken in behind the part of the last block that was left. -/
theorem foldFull_append (hk : 0 < k) (s : σ) (l more : List α) :
    foldFull k f s (l ++ more) = foldFull k f (foldFull k f s l) (lastPart k l ++ more) := by
  rw [foldFull_front s l]
  unfold foldFull
  rw [div_length_append hk]
  conv_lhs => rw [append_front k l more]
  exact foldBlocks_append (length_front k l) _ _

theorem lastPart_append (hk : 0 < k) (l more : List α) :
    lastPart k (l ++ more) = lastPart k (lastPart k l ++ more) := by
  conv_lhs => unfold lastPart
  rw [div_length_append hk, Nat.add_mul, ← List.drop_drop]
  conv_lhs => rw [append_front k l more]
  rw [List.drop_append_of_le_length (Nat.le_of_eq (length_front k l).symm),
    List.drop_of_length_le (Nat.le_of_eq (length_front k l)), List.nil_append]
  rfl

section

variable {block : List α} (hLength : block.length = k) (hk : 0 < k)

include hLength hk

theorem lastPart_full : lastPart k block = [] := by
  unfold lastPart
  rw [hLength, Nat.div_self hk, Nat.one_mul]
  exact List.drop_of_length_le (Nat.le_of_eq hLength)

theorem foldFull_full (s : σ) : foldFull k f s block = f s block := by
  unfold foldFull
  rw [hLength, Nat.div_self hk, foldBlocks_succ, List.take_of_length_le (Nat.le_of_eq hLength)]
  rfl

/-- A first block that is full is taken in alone. -/
theorem foldFull_block (s : σ) (more : List α) : foldFull k f s (block ++ more) = foldFull k f (f s block) more := by
  rw [foldFull_append hk, foldFull_full hLength hk, lastPart_full hLength hk, List.nil_append]

theorem lastPart_block (more : List α) : lastPart k (block ++ more) = lastPart k more := by
  rw [lastPart_append hk, lastPart_full hLength hk, List.nil_append]

end

end BeShare.Lib
