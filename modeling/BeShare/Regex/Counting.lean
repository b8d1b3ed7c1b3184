import BeShare.Regex.QueryFilter

/-!
The filters that count how many of their children match: what their loops say, in terms of the number of children that
match.
-/

namespace BeShare.Muscle.Filters

variable {threshold numKids matchCount : UInt32} {hits : List Bool}

/-! ### The loops -/

theorem toNat_add_one (matchCount : UInt32) (h : matchCount.toNat + 1 < 2 ^ 32) :
    (matchCount + 1).toNat = matchCount.toNat + 1 := by
  rw [UInt32.toNat_add, UInt32.toNat_one, Nat.mod_eq_of_lt h]

/-- A threshold that was not reached yet is reached by the hits to come, if they are enough. -/
theorem andOrLoop_iff (hBelow : matchCount < threshold) (hSize : matchCount.toNat + hits.length < 2 ^ 32) :
    andOrLoop threshold matchCount hits = true ↔ threshold.toNat ≤ matchCount.toNat + hits.count true := by
  induction hits generalizing matchCount with
  | nil =>
    rw [UInt32.lt_iff_toNat_lt] at hBelow
    simp only [andOrLoop, List.count_nil, Bool.false_eq_true, false_iff]
    omega
  | cons hit hits ih =>
    rw [List.length_cons] at hSize
    cases hit with
    | false =>
      simp only [andOrLoop, Bool.false_eq_true, if_false]
      rw [ih hBelow (by omega), List.count_cons_of_ne (by decide)]
    | true =>
      have hNext := toNat_add_one matchCount (by omega)
      rw [UInt32.lt_iff_toNat_lt] at hBelow
      simp only [andOrLoop, if_true]
      rw [List.count_cons_self]
      by_cases hReached : matchCount + 1 = threshold
      · rw [if_pos hReached, ← hReached, hNext]
        exact iff_of_true rfl (by omega)
      · have hNot : (matchCount + 1).toNat ≠ threshold.toNat := fun h => hReached (UInt32.toNat_inj.mp h)
        rw [if_neg hReached, ih (UInt32.lt_iff_toNat_lt.mpr (by omega)) (by omega), hNext]
        omega

/-- The count is compared with the threshold only after a hit, so that a threshold of zero is never reached. -/
theorem andOrLoop_zero (hSize : matchCount.toNat + hits.length < 2 ^ 32) : andOrLoop 0 matchCount hits = false := by
  induction hits generalizing matchCount with
  | nil => rfl
  | cons hit hits ih =>
    rw [List.length_cons] at hSize
    cases hit with
    | false =>
      simp only [andOrLoop, Bool.false_eq_true, if_false]
      exact ih (by omega)
    | true =>
      have hNext := toNat_add_one matchCount (by omega)
      have hNot : matchCount + 1 ≠ 0 := fun h => by
        rw [h] at hNext
        cases hNext
      simp only [andOrLoop, if_true]
      rw [if_neg hNot]
      exact ih (by omega)

theorem nandNotLoop_iff (hBelow : matchCount ≤ threshold) (hSize : matchCount.toNat + hits.length < 2 ^ 32) :
    nandNotLoop threshold numKids matchCount hits = true ↔
      matchCount.toNat + hits.count true ≤ threshold.toNat ∧
        matchCount.toNat + hits.count true < numKids.toNat := by
  induction hits generalizing matchCount with
  | nil =>
    rw [UInt32.le_iff_toNat_le] at hBelow
    rw [nandNotLoop, decide_eq_true_iff, UInt32.lt_iff_toNat_lt, List.count_nil, Nat.add_zero]
    exact (and_iff_right hBelow).symm
  | cons hit hits ih =>
    rw [List.length_cons] at hSize
    cases hit with
    | false =>
      simp only [nandNotLoop, Bool.false_eq_true, if_false]
      rw [ih hBelow (by omega), List.count_cons_of_ne (by decide)]
    | true =>
      have hNext := toNat_add_one matchCount (by omega)
      simp only [nandNotLoop, if_true]
      rw [List.count_cons_self]
      by_cases hOver : matchCount + 1 > threshold
      · rw [if_pos hOver]
        rw [gt_iff_lt, UInt32.lt_iff_toNat_lt, hNext] at hOver
        exact iff_of_false Bool.false_ne_true (by omega)
      · rw [if_neg hOver, ih (UInt32.not_lt.mp hOver) (by omega), hNext]
        omega

theorem xorLoop_iff (hSize : hits.length < 2 ^ 32) : xorLoop hits = true ↔ hits.count true % 2 = 1 := by
  have hCount : hits.count true < 2 ^ 32 := Nat.lt_of_le_of_lt List.count_le_length hSize
  have hMod : (UInt32.ofNat (hits.count true) % 2).toNat = hits.count true % 2 := by
    rw [UInt32.toNat_mod, UInt32.toNat_ofNat_of_lt' hCount]
    rfl
  rw [xorLoop, bne_iff_ne, ne_eq, ← UInt32.toNat_inj, hMod]
  show ¬hits.count true % 2 = 0 ↔ _
  omega

namespace QueryFilter

variable (p : Platform) (children : List QueryFilter) (msg : Message)

/-- How many of the children match. -/
def matching : Nat :=
  children.countP (·.isMatch p msg)

theorem childrenMatch_eq : childrenMatch p children msg = children.map (·.isMatch p msg) := by
  induction children with
  | nil => rw [childrenMatch, List.map_nil]
  | cons child children ih => rw [childrenMatch, ih, List.map_cons]

theorem count_childrenMatch : (childrenMatch p children msg).count true = matching p children msg := by
  rw [childrenMatch_eq, List.count, List.countP_map]
  exact List.countP_congr fun child _ => by simp

theorem length_childrenMatch : (childrenMatch p children msg).length = children.length := by
  rw [childrenMatch_eq, List.length_map]

theorem matching_le : matching p children msg ≤ children.length :=
  List.countP_le_length

variable {children} {minMatches maxMatches : UInt32}

theorem toNat_clamped (hLength : children.length < 2 ^ 32) (limit : UInt32) :
    (min limit (UInt32.ofNat children.length)).toNat = min limit.toNat children.length := by
  rw [UInt32.toNat_min, UInt32.toNat_ofNat_of_lt' hLength]

/-- With a threshold of zero, nothing matches. -/
theorem andOr_iff (hLength : children.length < 2 ^ 32) :
    (andOr children minMatches).isMatch p msg = true ↔
      0 < min minMatches.toNat children.length ∧
        min minMatches.toNat children.length ≤ matching p children msg := by
  have hClamped := toNat_clamped hLength minMatches
  have hSize : (0 : UInt32).toNat + (childrenMatch p children msg).length < 2 ^ 32 := by
    rw [length_childrenMatch]
    exact (Nat.zero_add _).symm ▸ hLength
  rw [isMatch]
  rcases Nat.eq_zero_or_pos (min minMatches.toNat children.length) with hZero | hPos
  · have hThreshold : min minMatches (UInt32.ofNat children.length) = 0 := UInt32.toNat_inj.mp (hClamped.trans hZero)
    rw [hThreshold, andOrLoop_zero hSize, hZero]
    exact iff_of_false Bool.false_ne_true fun h => absurd h.1 (lt_irrefl 0)
  · have hBelow : 0 < min minMatches (UInt32.ofNat children.length) :=
      UInt32.lt_iff_toNat_lt.mpr (hClamped.symm ▸ hPos)
    rw [andOrLoop_iff hBelow hSize, hClamped, count_childrenMatch]
    show _ ≤ 0 + _ ↔ _
    rw [Nat.zero_add]
    exact (and_iff_right hPos).symm

theorem nandNot_iff (hLength : children.length < 2 ^ 32) :
    (nandNot children maxMatches).isMatch p msg = true ↔
      matching p children msg ≤ maxMatches.toNat ∧ matching p children msg < children.length := by
  have hLe := matching_le p children msg
  have hSize : (0 : UInt32).toNat + (childrenMatch p children msg).length < 2 ^ 32 := by
    rw [length_childrenMatch]
    exact (Nat.zero_add _).symm ▸ hLength
  rw [isMatch, nandNotLoop_iff UInt32.zero_le hSize, toNat_clamped hLength, count_childrenMatch,
    UInt32.toNat_ofNat_of_lt' hLength]
  show 0 + _ ≤ _ ∧ 0 + _ < _ ↔ _
  omega

theorem xor_iff (hLength : children.length < 2 ^ 32) :
    (xor children).isMatch p msg = true ↔ matching p children msg % 2 = 1 := by
  rw [isMatch, xorLoop_iff (by rwa [length_childrenMatch]), count_childrenMatch]

/-! ### What the thresholds mean -/

/-- The filters with these children match as the number of children that match says. -/
structure Counts (p : Platform) (children : List QueryFilter) (minMatches maxMatches : UInt32) (msg : Message) :
    Prop where
  andOr : (QueryFilter.andOr children minMatches).isMatch p msg = true ↔
    min minMatches.toNat children.length ≤ matching p children msg
  nandNot : maxMatches.toNat < children.length →
    ((QueryFilter.nandNot children maxMatches).isMatch p msg = true ↔ matching p children msg ≤ maxMatches.toNat)
  /-- Where all children may match, the filter fails if they do. -/
  nand : children.length ≤ maxMatches.toNat →
    ((QueryFilter.nandNot children maxMatches).isMatch p msg = false ↔
      children ≠ [] ∧ matching p children msg = children.length)
  xor : (QueryFilter.xor children).isMatch p msg = true ↔ matching p children msg % 2 = 1
  complement : ∀ k : UInt32, 0 < k → k.toNat ≤ children.length →
    (QueryFilter.nandNot children (k - 1)).isMatch p msg = !(QueryFilter.andOr children k).isMatch p msg

theorem complement (hLength : children.length < 2 ^ 32) {k : UInt32} (hPos : 0 < k)
    (hk : k.toNat ≤ children.length) :
    (nandNot children (k - 1)).isMatch p msg = !(andOr children k).isMatch p msg := by
  have hOne : (1 : UInt32) ≤ k := UInt32.le_iff_toNat_le.mpr (UInt32.lt_iff_toNat_lt.mp hPos)
  have hPred : (k - 1).toNat = k.toNat - 1 := UInt32.toNat_sub_of_le k 1 hOne
  rw [UInt32.lt_iff_toNat_lt] at hPos
  rw [Bool.eq_iff_iff, Bool.not_eq_true', ← Bool.not_eq_true, nandNot_iff p msg hLength, andOr_iff p msg hLength, hPred]
  change 0 < k.toNat at hPos
  omega

/-- A platform for filters that use none of it. -/
def barePlatform : Platform :=
  ⟨.signed, .signed, id, fun _ _ _ => false, fun _ _ => none⟩

/-- The filters count as they should, exactly if there are children and a child has to match. -/
theorem counts_iff (p : Platform) (children : List QueryFilter) (minMatches maxMatches : UInt32) (msg : Message)
    (hLength : children.length < 2 ^ 32) :
    Counts p children minMatches maxMatches msg ↔ 0 < minMatches ∧ children ≠ [] := by
  have hMatching := matching_le p children msg
  constructor
  · intro h
    by_contra hNot
    have hZero : min minMatches.toNat children.length = 0 := by
      rcases not_and_or.mp hNot with hMin | hEmpty
      · have hMin : minMatches.toNat = 0 := by
          rw [UInt32.lt_iff_toNat_lt] at hMin
          exact Nat.eq_zero_of_not_pos hMin
        rw [hMin, Nat.zero_min]
      · rw [not_not.mp hEmpty, List.length_nil, Nat.min_zero]
    have hMatches := h.andOr.mpr (hZero ▸ Nat.zero_le _)
    rw [andOr_iff p msg hLength, hZero] at hMatches
    exact absurd hMatches.1 (lt_irrefl 0)
  · rintro ⟨hMin, hChildren⟩
    have hPos := List.length_pos_of_ne_nil hChildren
    refine ⟨?_, fun hBelow => ?_, fun hAbove => ?_, xor_iff p msg hLength, fun k => complement p msg hLength⟩
    · rw [andOr_iff p msg hLength]
      exact and_iff_right (lt_min (UInt32.lt_iff_toNat_lt.mp hMin) hPos)
    · rw [nandNot_iff p msg hLength]
      exact and_iff_left_of_imp fun hLe => Nat.lt_of_le_of_lt hLe hBelow
    · rw [← Bool.not_eq_true, nandNot_iff p msg hLength, and_iff_right hChildren]
      omega

theorem counts_iff_one : Counts barePlatform [whatCode 0 0] 1 0 (.mk 0 []) :=
  (counts_iff barePlatform [whatCode 0 0] 1 0 (.mk 0 []) (by decide)).mpr ⟨by decide, by decide⟩

/-- All of no children match, and none does: both filters should match. -/
theorem counts_not_empty :
    (andOr [] 0xffffffff).isMatch barePlatform (.mk 0 []) = false ∧
      (nandNot [] 0).isMatch barePlatform (.mk 0 []) = false ∧
      ¬Counts barePlatform [] 0xffffffff 0 (.mk 0 []) := by
  refine ⟨by decide, by decide, fun h => ?_⟩
  exact absurd (h.andOr.mpr (Nat.zero_le _)) (by decide)

end QueryFilter

end BeShare.Muscle.Filters
