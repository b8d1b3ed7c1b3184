import Mathlib.Data.List.Perm.Basic

/-!
A greedy scan over a list of candidates. A candidate that fits beside those that run is tried; it runs from
then on if it can start. The scan stops when its budget of tries is used up.
-/

namespace BeShare.Admission

variable {α : Type} (fits : α → List α → Bool) (starts : α → Bool)

/-- Those that run, after a try of `a`. -/
def push (running : List α) (a : α) : List α :=
  if starts a then a :: running else running

/-- What a scan without a budget tries. -/
def tries (running : List α) : List α → List α
  | [] => []
  | a :: rest => if fits a running then a :: tries (push starts running a) rest else tries running rest

/-- Those that run after the first `n` tries. -/
def after (n : Nat) (running rest : List α) : List α :=
  ((tries fits starts running rest).take n).foldl (push starts) running

variable {fits starts}

theorem push_of_starts {running : List α} {a : α} (h : starts a = true) : push starts running a = a :: running :=
  if_pos h

theorem push_of_not_starts {running : List α} {a : α} (h : starts a = false) : push starts running a = running :=
  if_neg (by simp [h])

theorem tries_of_fits {running rest : List α} {a : α} (h : fits a running = true) :
    tries fits starts running (a :: rest) = a :: tries fits starts (push starts running a) rest :=
  if_pos h

theorem tries_of_not_fits {running rest : List α} {a : α} (h : fits a running = false) :
    tries fits starts running (a :: rest) = tries fits starts running rest :=
  if_neg (by simp [h])

@[simp]
theorem after_zero (running rest : List α) : after fits starts 0 running rest = running := rfl

theorem after_of_fits {running rest : List α} {a : α} {n : Nat} (h : fits a running = true) :
    after fits starts (n + 1) running (a :: rest) = after fits starts n (push starts running a) rest := by
  unfold after
  rw [tries_of_fits h, List.take_succ_cons, List.foldl_cons]

theorem after_of_not_fits {running rest : List α} {a : α} {n : Nat} (h : fits a running = false) :
    after fits starts n running (a :: rest) = after fits starts n running rest := by
  unfold after
  rw [tries_of_not_fits h]

theorem mem_of_mem_tries {running rest : List α} {a : α} (h : a ∈ tries fits starts running rest) : a ∈ rest := by
  induction rest generalizing running with
  | nil => exact h
  | cons b rest ih =>
    rw [tries] at h
    split at h
    · rcases List.mem_cons.mp h with rfl | hRest
      · exact List.mem_cons_self ..
      · exact List.mem_cons_of_mem _ (ih hRest)
    · exact List.mem_cons_of_mem _ (ih h)

theorem tries_congr {fits' : α → List α → Bool} {starts' : α → Bool} {running rest : List α}
    (hFits : ∀ a ∈ rest, ∀ r, fits a r = fits' a r)
    (hStarts : ∀ a ∈ rest, ∀ r, fits a r = true → starts a = starts' a) :
    tries fits starts running rest = tries fits' starts' running rest := by
  induction rest generalizing running with
  | nil => rfl
  | cons a rest ih =>
    have hRest : ∀ r, tries fits starts r rest = tries fits' starts' r rest := fun r =>
      ih (fun b hb => hFits b (List.mem_cons_of_mem _ hb)) fun b hb => hStarts b (List.mem_cons_of_mem _ hb)
    by_cases h : fits a running = true
    · rw [tries_of_fits h, tries_of_fits ((hFits a (List.mem_cons_self ..) running).symm.trans h), hRest]
      unfold push
      rw [hStarts a (List.mem_cons_self ..) running h]
    · have hNot : fits a running = false := by simpa using h
      rw [tries_of_not_fits hNot,
        tries_of_not_fits ((hFits a (List.mem_cons_self ..) running).symm.trans hNot), hRest]

/-- A measure of those that run that no start takes over its bound is never taken over it. -/
theorem after_le (measure : List α → Nat) {bound : Nat}
    (hStep : ∀ a r, fits a r = true → starts a = true → measure (a :: r) ≤ max (measure r) bound)
    (n : Nat) (running rest : List α) :
    measure (after fits starts n running rest) ≤ max (measure running) bound := by
  induction rest generalizing n running with
  | nil =>
    rw [show after fits starts n running [] = running by simp [after, tries]]
    exact Nat.le_max_left ..
  | cons a rest ih =>
    by_cases hFits : fits a running = true
    · cases n with
      | zero => exact Nat.le_max_left ..
      | succ n =>
        rw [after_of_fits hFits]
        have hRest := ih n (push starts running a)
        by_cases hStarts : starts a = true
        · rw [push_of_starts hStarts] at hRest ⊢
          have hOne := hStep a running hFits hStarts
          omega
        · rw [push_of_not_starts (by simpa using hStarts)] at hRest ⊢
          exact hRest
    · rw [after_of_not_fits (by simpa using hFits)]
      exact ih n running

theorem length_foldl_push (running l : List α) :
    (l.foldl (push starts) running).length = running.length + (l.filter starts).length := by
  induction l generalizing running with
  | nil => rfl
  | cons a l ih =>
    rw [List.foldl_cons, ih]
    by_cases h : starts a = true
    · rw [push_of_starts h, List.filter_cons_of_pos h, List.length_cons, List.length_cons]
      omega
    · rw [push_of_not_starts (by simpa using h), List.filter_cons_of_neg h]

theorem length_after (n : Nat) (running rest : List α) :
    (after fits starts n running rest).length =
      running.length + (((tries fits starts running rest).take n).filter starts).length :=
  length_foldl_push ..

theorem fits_of_after (hMono : ∀ a b r, fits a (b :: r) = true → fits a r = true) {a : α} {n : Nat}
    {running rest : List α} (h : fits a (after fits starts n running rest) = true) : fits a running = true := by
  unfold after at h
  generalize (tries fits starts running rest).take n = l at h
  induction l generalizing running with
  | nil => exact h
  | cons b l ih =>
    rw [List.foldl_cons] at h
    have hPushed := ih h
    by_cases hStarts : starts b = true
    · rw [push_of_starts hStarts] at hPushed
      exact hMono a b running hPushed
    · rwa [push_of_not_starts (by simpa using hStarts)] at hPushed

/-- A candidate that may start is left behind, and would still fit, exactly if the scan would try one after
its budget. -/
theorem left_iff (hMono : ∀ a b r, fits a (b :: r) = true → fits a r = true) (allowed : α → Prop)
    (hAllowed : ∀ a, starts a = true → allowed a) (n : Nat) (running : List α) {rest : List α}
    (hNodup : rest.Nodup) :
    (∃ a ∈ rest, allowed a ∧ a ∉ (tries fits starts running rest).take n ∧
        fits a (after fits starts n running rest) = true) ↔
      ∃ a ∈ (tries fits starts running rest).drop n, allowed a := by
  induction rest generalizing n running with
  | nil => simp [tries]
  | cons a rest ih =>
    obtain ⟨hNotMem, hNodupRest⟩ := List.nodup_cons.mp hNodup
    by_cases hFits : fits a running = true
    · cases n with
      | zero =>
        rw [after_zero, List.drop_zero, tries_of_fits hFits]
        by_cases hMay : allowed a
        · exact iff_of_true ⟨a, List.mem_cons_self .., hMay, by simp, hFits⟩ ⟨a, List.mem_cons_self .., hMay⟩
        · have hStarts : starts a = false := by
            rw [Bool.eq_false_iff]
            exact fun h => hMay (hAllowed a h)
          rw [push_of_not_starts hStarts]
          have hRest := ih 0 running hNodupRest
          rw [after_zero, List.drop_zero] at hRest
          constructor
          · rintro ⟨b, hb, hMayB, -, hFitsB⟩
            rcases List.mem_cons.mp hb with rfl | hb
            · exact absurd hMayB hMay
            · obtain ⟨c, hc, hMayC⟩ := hRest.mp ⟨b, hb, hMayB, by simp, hFitsB⟩
              exact ⟨c, List.mem_cons_of_mem _ hc, hMayC⟩
          · rintro ⟨b, hb, hMayB⟩
            rcases List.mem_cons.mp hb with rfl | hb
            · exact absurd hMayB hMay
            · obtain ⟨c, hc, hMayC, -, hFitsC⟩ := hRest.mpr ⟨b, hb, hMayB⟩
              exact ⟨c, List.mem_cons_of_mem _ hc, hMayC, by simp, hFitsC⟩
      | succ n =>
        rw [tries_of_fits hFits, List.take_succ_cons, List.drop_succ_cons, after_of_fits hFits,
          ← ih _ _ hNodupRest]
        constructor
        · rintro ⟨b, hb, hMay, hNot, hFitsB⟩
          rw [List.mem_cons, not_or] at hNot
          rcases List.mem_cons.mp hb with rfl | hb
          · exact absurd rfl hNot.1
          · exact ⟨b, hb, hMay, hNot.2, hFitsB⟩
        · rintro ⟨b, hb, hMay, hNot, hFitsB⟩
          refine ⟨b, List.mem_cons_of_mem _ hb, hMay, ?_, hFitsB⟩
          rw [List.mem_cons, not_or]
          refine ⟨?_, hNot⟩
          rintro rfl
          exact hNotMem hb
    · have hNo : fits a running = false := by simpa using hFits
      rw [tries_of_not_fits hNo, after_of_not_fits hNo, ← ih _ _ hNodupRest]
      constructor
      · rintro ⟨b, hb, hRest⟩
        rcases List.mem_cons.mp hb with rfl | hb
        · exact absurd (fits_of_after hMono hRest.2.2) hFits
        · exact ⟨b, hb, hRest⟩
      · rintro ⟨b, hb, hRest⟩
        exact ⟨b, List.mem_cons_of_mem _ hb, hRest⟩

/-- The scan fills all of its budget with starts, if everything it tries starts. -/
theorem filter_take_length (starts : α → Bool) {l : List α} {n : Nat} (h : n ≤ l.length) :
    ((l.take n).filter starts).length = n ↔ ∀ a ∈ l.take n, starts a = true := by
  have hLength : (l.take n).length = n := List.length_take_of_le h
  nth_rewrite 2 [← hLength]
  exact List.length_filter_eq_length_iff

end BeShare.Admission
