import BeShare.Hashtable.Iterators

/-! The bans of a `ShareWindow`: the addresses that may not download, each with the time its ban ends. -/

namespace BeShare.Client.Bans

open BeShare.Muscle.Hashtable

/-- `HashFunctor<uint32>`. -/
def hashFunctor (x : UInt32) : UInt32 := x

/-- `_bans`. -/
abbrev BanTable := Table UInt32 UInt64

/-- `(uint64)-1`, the end of a ban that is permanent: the last of all times. -/
def forever : UInt64 := 0xFFFFFFFFFFFFFFFF

/-- The loop that purges the table, which stops unless it takes more than the given steps. -/
def purge (now : UInt64) (iter : Nat) : Nat → BanTable → Option BanTable
  | 0, _ => none
  | fuel + 1, bans =>
    let (key, next) := bans.getNextKey (bans.iterators iter)
    let bans := bans.setIterator iter next
    match key with
    | none => some bans
    | some k =>
      let ip := bans.key k
      let (value, next) := bans.getNextValue (bans.iterators iter)
      let bans := bans.setIterator iter next
      match value with
      | none => some bans
      | some v =>
        if bans.value v ≤ now then purge now iter fuel (bans.removeAux hashFunctor ip).1
        else purge now iter fuel bans

/-- `IPBanTimeLeft`, with the number of its iterator. -/
def ipBanTimeLeft (now : UInt64) (iter : Nat) (ip : UInt32) (bans : BanTable) : Option (BanTable × UInt64) :=
  (purge now iter (bans.count + 1) (bans.start iter false)).map fun purged =>
    let bans := purged.destroy iter
    (bans, match bans.getValue hashFunctor ip with
      | some banTime => if banTime = forever then forever else banTime - now
      | none => 0)

theorem keyEquality : KeyEquality hashFunctor (· == ·) :=
  ⟨fun _ => beq_self_eq_true _, fun _ _ h => beq_iff_eq.mpr (beq_iff_eq.mp h).symm,
    fun _ _ _ h h' => beq_iff_eq.mpr ((beq_iff_eq.mp h).trans (beq_iff_eq.mp h')),
    fun _ _ h => congrArg hashFunctor (beq_iff_eq.mp h)⟩

variable {bans : BanTable} {order kept left : List Nat} {now : UInt64} {iter fuel : Nat} {ip : UInt32}

/-- The entries of `kept` stay, and those of `left` are still to be looked at. -/
structure Purging (bans : BanTable) (iter : Nat) (kept left : List Nat) : Prop where
  valid : bans.Valid hashFunctor (kept ++ left)
  stands : bans.Stands (kept ++ left) iter fun _ => left
  userKeyCompareFunc : bans.userKeyCompareFunc = none

theorem Purging.keyEquality (h : Purging bans iter kept left) : KeyEquality hashFunctor bans.keysEqual :=
  Table.keysEqual_eq h.userKeyCompareFunc ▸ Bans.keyEquality

/-- The ban at `k` is looked at, and its iterator steps on. -/
theorem Purging.next {k : Nat} (h : Purging bans iter kept (k :: left)) : ∃ next next',
    bans.getNextKey (bans.iterators iter) = (some k, next) ∧
      (bans.setIterator iter next).getNextValue ((bans.setIterator iter next).iterators iter) = (some k, next') ∧
      Purging ((bans.setIterator iter next).setIterator iter next') iter (kept ++ [k]) left := by
  obtain ⟨next, hKey, hStands⟩ := h.stands.getNext h.valid.iterationList .keys
  have hValid : (bans.setIterator iter next).Valid hashFunctor (kept ++ k :: left) := h.valid.congr rfl
  obtain ⟨next', hValue, hStands'⟩ := hStands.getNext hValid.iterationList .values
  refine ⟨next, next', hKey, hValue, ?_, ?_, h.userKeyCompareFunc⟩
  · rw [List.append_assoc]
    exact hValid.congr rfl
  · have hBoth : Function.update (Function.update (fun _ => k :: left) Traversal.keys left) .values left =
        fun _ => left := by
      funext traversal
      cases traversal <;> rfl
    rw [List.append_assoc, ← hBoth]
    exact hStands'

/-- The ban that was looked at last is removed. -/
theorem Purging.removed {k : Nat} (h : Purging bans iter (kept ++ [k]) left) :
    Purging (bans.removeAux hashFunctor (bans.key k)).1 iter kept left ∧
      (bans.removeAux hashFunctor (bans.key k)).1.items (kept ++ left) = bans.items (kept ++ left) := by
  have hValid := h.valid
  have hStands := h.stands
  rw [List.append_assoc, List.singleton_append] at hValid hStands
  have hMem : k ∈ kept ++ k :: left := List.mem_append_right _ (List.mem_cons_self ..)
  obtain ⟨-, -, free, chain, hSlots⟩ := hValid.slots_of_mem hMem
  have hNodup := hSlots.order_nodup
  rcases hValid.lookup_cases h.keyEquality (bans.key k) with ⟨hLookup, -⟩ | ⟨a, e, b, hFound⟩
  · rw [hValid.lookup_eq h.keyEquality, List.find?_eq_none] at hLookup
    exact absurd (h.keyEquality.refl _) (hLookup k hMem)
  · have hKey : bans.key e = bans.key k := by
      have hHere := hFound.only.here
      rw [Table.keysEqual_eq h.userKeyCompareFunc] at hHere
      exact beq_iff_eq.mp hHere
    obtain rfl : e = k := hValid.key_inj h.keyEquality hFound.mem hMem hKey
    obtain ⟨rfl, rfl⟩ := eq_of_split hNodup hFound.order_eq
    obtain ⟨hValid', hItems⟩ := hFound.dropEntry_valid hValid
    obtain ⟨-, -, hKeeps, hList, hIter, -⟩ := hSlots.dropEntry_spec hValid.size.1
    have hStands' := hStands.removed hSlots.iteration hNodup hList hIter
    rw [Table.removeAux_found hFound.lookup]
    refine ⟨⟨hValid', ?_, hKeeps.userKeyCompareFunc.trans h.userKeyCompareFunc⟩, hItems⟩
    have hLeft : left.filter (· ≠ e) = left := List.filter_eq_self.mpr fun x hx => by
      have hDistinct := (List.nodup_cons.mp (List.nodup_append.mp hNodup).2.1).1
      simpa using fun hEq : x = e => hDistinct (hEq ▸ hx)
    rw [filter_ne_append hNodup] at hStands'
    simpa only [hLeft] using hStands'

/-- The loop removes the bans of `left` that have ended, and stops. -/
theorem Purging.purge (h : Purging bans iter kept left) (now : UInt64) (hFuel : left.length < fuel) :
    ∃ bans' rest, Bans.purge now iter fuel bans = some bans' ∧ Purging bans' iter rest [] ∧
      bans'.items rest = bans.items kept ++ (bans.items left).filter fun ban => now < ban.2 := by
  induction left generalizing bans kept fuel with
  | nil =>
    obtain ⟨fuel, rfl⟩ := Nat.exists_eq_succ_of_ne_zero (Nat.ne_zero_of_lt hFuel)
    obtain ⟨next, hKey, hStands⟩ := h.stands.getNext h.valid.iterationList .keys
    have hNone : bans.getNextKey (bans.iterators iter) = (none, next) := hKey
    have hSame : Function.update (fun _ => []) Traversal.keys [] = fun _ => ([] : List Nat) :=
      Function.update_eq_self _ _
    refine ⟨bans.setIterator iter next, kept, ?_, ⟨h.valid.congr rfl, hSame ▸ hStands, h.userKeyCompareFunc⟩, ?_⟩
    · rw [Bans.purge, hNone]
    · exact (List.append_nil _).symm
  | cons k left ih =>
    obtain ⟨fuel, rfl⟩ := Nat.exists_eq_succ_of_ne_zero (Nat.ne_zero_of_lt hFuel)
    rw [List.length_cons] at hFuel
    obtain ⟨next, next', hKey, hValue, hNext⟩ := h.next
    rw [Bans.purge, hKey]
    simp only [hValue]
    by_cases hEnded : bans.value k ≤ now
    · obtain ⟨hRemoved, hItems⟩ := hNext.removed
      obtain ⟨bans', rest, hRun, hDone, hRest⟩ := ih hRemoved (Nat.lt_of_succ_lt_succ hFuel)
      refine ⟨bans', rest, (if_pos hEnded).trans hRun, hDone, ?_⟩
      have hParts := Table.items_append _ kept left ▸ Table.items_append _ kept left ▸ hItems
      obtain ⟨hKept, hLeft⟩ := List.append_inj hParts (by simp [Table.items])
      rw [hRest, hKept, hLeft, Table.items_cons, List.filter_cons_of_neg (by simpa using hEnded)]
      rfl
    · obtain ⟨bans', rest, hRun, hDone, hRest⟩ := ih hNext (Nat.lt_of_succ_lt_succ hFuel)
      refine ⟨bans', rest, (if_neg hEnded).trans hRun, hDone, ?_⟩
      rw [hRest, Table.items_append, Table.items_cons bans k left, List.filter_cons_of_pos (by simpa using hEnded),
        List.append_assoc]
      rfl

/-- What the list of the bans says about an address. -/
def timeLeft (now : UInt64) (ip : UInt32) (l : List (UInt32 × UInt64)) : UInt64 :=
  match Assoc.get (· == ·) ip (l.filter fun ban => now < ban.2) with
  | some banTime => if banTime = forever then forever else banTime - now
  | none => 0

theorem mem_of_get {l : List (UInt32 × UInt64)} {banTime : UInt64}
    (h : Assoc.get (· == ·) ip l = some banTime) : (ip, banTime) ∈ l := by
  obtain ⟨ban, hFind, rfl⟩ := Option.map_eq_some_iff.mp h
  rw [Assoc.find] at hFind
  have hIp : ban.1 = ip := by simpa using List.find?_some hFind
  rw [← hIp]
  exact List.mem_of_find?_eq_some hFind

theorem get_eq_some_iff {l : List (UInt32 × UInt64)} (hNodup : (l.map Prod.fst).Nodup) {banTime : UInt64} :
    Assoc.get (· == ·) ip l = some banTime ↔ (ip, banTime) ∈ l := by
  refine ⟨mem_of_get, fun hMem => ?_⟩
  cases hGet : Assoc.get (· == ·) ip l with
  | none =>
    have hNone := List.find?_eq_none.mp (Option.map_eq_none_iff.mp hGet) _ hMem
    exact absurd (beq_self_eq_true ip) hNone
  | some other =>
    exact congrArg (some ∘ Prod.snd) (List.inj_on_of_nodup_map hNodup (mem_of_get hGet) hMem rfl)

theorem unexpired_nodup {l : List (UInt32 × UInt64)} (h : (l.map Prod.fst).Nodup) (now : UInt64) :
    ((l.filter fun ban => decide (now < ban.2)).map Prod.fst).Nodup :=
  h.sublist (List.filter_sublist.map _)

/-- A ban that has not ended. -/
theorem timeLeft_eq {l : List (UInt32 × UInt64)} (hNodup : (l.map Prod.fst).Nodup) {banTime : UInt64}
    (hBan : (ip, banTime) ∈ l) (hNow : now < banTime) :
    timeLeft now ip l = if banTime = forever then forever else banTime - now := by
  rw [timeLeft, (get_eq_some_iff (unexpired_nodup hNodup now)).mpr
    (List.mem_filter.mpr ⟨hBan, decide_eq_true hNow⟩)]

theorem timeLeft_eq_zero {l : List (UInt32 × UInt64)} (hNodup : (l.map Prod.fst).Nodup) :
    timeLeft now ip l = 0 ↔ ∀ ban ∈ l, ban.1 = ip → ban.2 ≤ now := by
  constructor
  · rintro hZero ⟨_, banTime⟩ hBan rfl
    by_contra hNow
    rw [UInt64.not_le] at hNow
    rw [timeLeft_eq hNodup hBan hNow] at hZero
    split at hZero
    · exact absurd hZero (by decide)
    · have hNat := congrArg UInt64.toNat hZero
      rw [UInt64.toNat_sub_of_le _ _ (UInt64.le_of_lt hNow), UInt64.toNat_zero] at hNat
      have hLess := UInt64.lt_iff_toNat_lt.mp hNow
      omega
  · intro hEnded
    rw [timeLeft]
    cases hGet : Assoc.get (· == ·) ip (l.filter fun ban => decide (now < ban.2)) with
    | none => rfl
    | some banTime =>
      obtain ⟨hBan, hNow⟩ := List.mem_filter.mp ((get_eq_some_iff (unexpired_nodup hNodup now)).mp hGet)
      exact absurd (hEnded _ hBan rfl) (UInt64.not_le.mpr (of_decide_eq_true hNow))

/-- The order of the bans does not matter. -/
theorem timeLeft_perm {l l' : List (UInt32 × UInt64)} (hPerm : l'.Perm l) (hNodup : (l.map Prod.fst).Nodup) :
    timeLeft now ip l' = timeLeft now ip l := by
  have hNodup' : (l'.map Prod.fst).Nodup := (hPerm.map _).nodup_iff.mpr hNodup
  have hGet : Assoc.get (· == ·) ip (l'.filter fun ban => decide (now < ban.2)) =
      Assoc.get (· == ·) ip (l.filter fun ban => decide (now < ban.2)) := by
    refine Option.ext fun banTime => ?_
    rw [get_eq_some_iff (unexpired_nodup hNodup' now), get_eq_some_iff (unexpired_nodup hNodup now)]
    exact (hPerm.filter _).mem_iff
  rw [timeLeft, hGet, timeLeft]

theorem Valid.ipBanTimeLeft (h : bans.Valid hashFunctor order) (hFunc : bans.userKeyCompareFunc = none)
    (now : UInt64) (iter : Nat) (ip : UInt32) :
    ∃ bans', Bans.ipBanTimeLeft now iter ip bans = some (bans', timeLeft now ip (bans.items order)) ∧
      bans'.Shows hashFunctor ((bans.items order).filter fun ban => now < ban.2) := by
  have hStart : Purging (bans.start iter false) iter [] order :=
    ⟨h.congr rfl, h.stands_start iter false, hFunc⟩
  have hCount : order.length < bans.count + 1 := by
    rw [h.count_eq]
    exact Nat.lt_succ_self _
  obtain ⟨purged, rest, hRun, hDone, hItems⟩ := hStart.purge now hCount
  have hValid : (purged.destroy iter).Valid hashFunctor rest := by
    have hRest := hDone.valid
    rw [List.append_nil] at hRest
    rw [Table.destroy]
    split
    · exact hRest.congr rfl
    · exact hRest
  have hSame : (purged.destroy iter).items rest = purged.items rest ∧
      (purged.destroy iter).userKeyCompareFunc = none := by
    rw [Table.destroy]
    split
    · exact ⟨rfl, hDone.userKeyCompareFunc⟩
    · exact ⟨rfl, hDone.userKeyCompareFunc⟩
  have hShows := hValid.shows hSame.2 keyEquality
  rw [hSame.1, hItems] at hShows
  refine ⟨purged.destroy iter, ?_, hShows⟩
  rw [Bans.ipBanTimeLeft, hRun, Option.map_some]
  simp only [hShows.get ip]
  rfl

theorem Reachable.step {depth : Nat} (h : bans.Reachable hashFunctor depth) (op : IterOp UInt32 UInt64)
    {bans' : BanTable} {log : List (Lib.Cursor.Event UInt32)}
    (hRun : bans.iterStep hashFunctor .plenty depth 0 .keys op = .ok (bans', log)) :
    bans'.Reachable hashFunctor depth :=
  .iterStep h hRun

/-- A purge is a run of steps of an iterator and of removals. -/
theorem Reachable.purge {depth : Nat} (h : bans.Reachable hashFunctor depth) {bans' : BanTable}
    (hRun : Bans.purge now iter fuel bans = some bans') : bans'.Reachable hashFunctor depth := by
  induction fuel generalizing bans with
  | zero => cases hRun
  | succ fuel ih =>
    have hKey := Reachable.step h (.next iter .keys) rfl
    have hValue := Reachable.step hKey (.next iter .values) rfl
    rw [Bans.purge] at hRun
    simp only at hRun
    split at hRun
    · cases hRun
      exact hKey
    · split at hRun
      · cases hRun
        exact hValue
      · split at hRun
        · exact ih (Reachable.step hValue (.remove _) rfl) hRun
        · exact ih hValue hRun

/-- The bans that a call leaves are a table that the next call may find. -/
theorem Reachable.ipBanTimeLeft {depth : Nat} (h : bans.Reachable hashFunctor depth) {bans' : BanTable} {left : UInt64}
    (hRun : Bans.ipBanTimeLeft now iter ip bans = some (bans', left)) : bans'.Reachable hashFunctor depth := by
  rw [Bans.ipBanTimeLeft] at hRun
  obtain ⟨purged, hPurge, hDone⟩ := Option.map_eq_some_iff.mp hRun
  cases hDone
  have hPurged := Reachable.purge (Reachable.step h (.start iter false) rfl) hPurge
  exact Reachable.step hPurged (.destroy iter) rfl

/-- Any table of bans at any time. -/
theorem ipBanTimeLeft_spec {depth : Nat} (h : bans.Reachable hashFunctor depth) (hDepth : 2 ^ 33 ≤ depth)
    (now : UInt64) (iter : Nat) (ip : UInt32) :
    ∃ l bans' left, bans.Shows hashFunctor l ∧ ipBanTimeLeft now iter ip bans = some (bans', left) ∧
      bans'.Shows hashFunctor (l.filter fun ban => now < ban.2) ∧
      (left = 0 ↔ ∀ ban ∈ l, ban.1 = ip → ban.2 ≤ now) ∧
      (∀ ban ∈ l, ban.1 = ip → now < ban.2 → left = if ban.2 = forever then forever else ban.2 - now) ∧
      ∀ (other : BanTable) (l' : List (UInt32 × UInt64)) (iter' : Nat), other.Reachable hashFunctor depth →
        other.Shows hashFunctor l' → l'.Perm l →
        ∃ other', ipBanTimeLeft now iter' ip other = some (other', left) := by
  obtain ⟨⟨order, hValid⟩, hFunc, -⟩ := h.valid keyEquality hDepth
  obtain ⟨bans', hRun, hShows⟩ := Valid.ipBanTimeLeft hValid hFunc now iter ip
  have hNodup : ((bans.items order).map Prod.fst).Nodup := by
    rw [Table.items, List.map_map]
    exact hValid.keys_nodup (Table.keysEqual_eq hFunc ▸ keyEquality)
  refine ⟨bans.items order, bans', _, hValid.shows hFunc keyEquality, hRun, hShows, timeLeft_eq_zero hNodup, ?_, ?_⟩
  · rintro ⟨_, banTime⟩ hBan rfl hNow
    exact timeLeft_eq hNodup hBan hNow
  · intro other l' iter' hOther hOtherShows hPerm
    obtain ⟨order', hOtherValid, rfl⟩ := hOtherShows.holds
    obtain ⟨other', hOtherRun, -⟩ :=
      Valid.ipBanTimeLeft hOtherValid (hOther.valid keyEquality hDepth).2.1 now iter' ip
    rw [timeLeft_perm hPerm hNodup] at hOtherRun
    exact ⟨other', hOtherRun⟩

/-- One address is banned until 100, and it asks at 40. -/
theorem ipBanTimeLeft_spec_banned :
    ∃ bans l bans' left, Table.Shows hashFunctor bans l ∧ ipBanTimeLeft 40 0 5 bans = some (bans', left) ∧
      bans'.Shows hashFunctor (l.filter fun ban => 40 < ban.2) ∧ left = 60 := by
  have hPut :
      (Table.new (7 : UInt32).toNat : BanTable).exec hashFunctor .plenty (2 ^ 33) (.put 5 100) = .ok (_, _) := rfl
  have hOp : (Op.put 5 100 : Op UInt32 UInt64).Comparable := trivial
  obtain ⟨l, bans', left, hShows, hRun, hShows', -, hLeft, -⟩ :=
    ipBanTimeLeft_spec (.exec (.new 7 (by decide)) hOp hPut) (Nat.le_refl _) 40 0 5
  have hGet : Assoc.get (· == ·) 5 l = some 100 := by
    rw [← hShows.get 5]
    rfl
  exact ⟨_, l, bans', left, hShows, hRun, hShows', hLeft _ (mem_of_get hGet) rfl (by decide)⟩

end BeShare.Client.Bans
