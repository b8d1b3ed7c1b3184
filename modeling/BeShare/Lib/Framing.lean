import Mathlib.Data.List.Basic

/-!
Frames of messages in a stream: which of them have arrived whole, and what a decoder with a state of its own makes of
them.
-/

namespace BeShare.Lib

variable {μ β τ : Type}

/-- The messages whose frames are whole in as many bytes of the stream. -/
def whole : List (μ × List β) → Nat → List μ
  | [], _ => []
  | frame :: rest, arrived =>
    if frame.2.length ≤ arrived then frame.1 :: whole rest (arrived - frame.2.length) else []

theorem whole_append (done pending : List (μ × List β)) (more : Nat) :
    whole (done ++ pending) ((done.flatMap Prod.snd).length + more) = done.map Prod.fst ++ whole pending more := by
  induction done with
  | nil => rw [List.flatMap_nil, List.length_nil, Nat.zero_add]; rfl
  | cons frame done ih =>
    rw [List.cons_append, List.flatMap_cons, List.length_append, Nat.add_assoc]
    refine (if_pos (Nat.le_add_right ..)).trans ?_
    rw [Nat.add_sub_cancel_left, ih]
    rfl

/-- Of a frame that is not whole nothing is told. -/
theorem whole_of_partial {pending : List (μ × List β)} {arrived : Nat}
    (h : ∀ frame, pending.head? = some frame → arrived < frame.2.length) : whole pending arrived = [] := by
  cases pending with
  | nil => rfl
  | cons frame rest => exact if_neg (Nat.not_le.mpr (h frame rfl))

/-- The decoder takes the frames for their messages, one after another. -/
def Takes (decode : τ → List β → τ × Option μ) : τ → List (μ × List β) → τ → Prop
  | s, [], s' => s' = s
  | s, frame :: rest, s' => (decode s frame.2).2 = some frame.1 ∧ Takes decode (decode s frame.2).1 rest s'

theorem Takes.snoc {decode : τ → List β → τ × Option μ} {s s' : τ} {frames : List (μ × List β)}
    (h : Takes decode s frames s') {frame : μ × List β} (hLast : (decode s' frame.2).2 = some frame.1) :
    Takes decode s (frames ++ [frame]) (decode s' frame.2).1 := by
  induction frames generalizing s with
  | nil =>
    cases h
    exact ⟨hLast, rfl⟩
  | cons first rest ih => exact ⟨h.1, ih h.2⟩

end BeShare.Lib
