import BeShare.Client.Transfers

/-!
The slots of the two directions: how many transfers are active after `DequeueTransferSessions`, and which ones
still wait.
-/

namespace BeShare.Client

open Admission

namespace ShareFileTransfer

variable {s : ShareFileTransfer} {fails connects : Bool}

/-- Neither paused nor at its end. -/
def mayBegin (s : ShareFileTransfer) : Bool :=
  s.beginTransferEnabled && !s.isFinished

/-- It may begin, and does not fail at once. -/
def canStart (s : ShareFileTransfer) (fails : Bool) : Bool :=
  s.mayBegin && !(s.uploadSession && s.isConnected && decide (0 < s.numFiles) && !(s.hasThread && !fails))

@[simp]
theorem startConnect_uploadSession : (s.startConnect connects).uploadSession = s.uploadSession := by
  unfold startConnect
  split <;> rfl

@[simp]
theorem startConnect_remoteSessionID : (s.startConnect connects).remoteSessionID = s.remoteSessionID := by
  unfold startConnect
  split <;> rfl

@[simp]
theorem startConnect_isActive : (s.startConnect connects).isActive = s.isActive := by
  unfold startConnect
  split <;> rfl

@[simp]
theorem startConnect_isWaitingOnLocal : (s.startConnect connects).isWaitingOnLocal = s.isWaitingOnLocal := by
  unfold startConnect
  split <;> rfl

@[simp]
theorem beginTransfer_uploadSession : (s.beginTransfer fails connects).uploadSession = s.uploadSession := by
  simp only [beginTransfer, doUpload, abortSession, apply_ite ShareFileTransfer.uploadSession,
    startConnect_uploadSession, ite_self]

@[simp]
theorem beginTransfer_remoteSessionID :
    (s.beginTransfer fails connects).remoteSessionID = s.remoteSessionID := by
  simp only [beginTransfer, doUpload, abortSession, apply_ite ShareFileTransfer.remoteSessionID,
    startConnect_remoteSessionID, ite_self]

theorem beginTransfer_paused (h : s.beginTransferEnabled = false) : s.beginTransfer fails connects = s := by
  simp [beginTransfer, h]

theorem beginTransfer_isWaitingOnLocal (fails connects : Bool) (h : s.beginTransferEnabled = true) :
    (s.beginTransfer fails connects).isWaitingOnLocal = false := by
  unfold beginTransfer doUpload abortSession
  split
  · simp only [apply_ite ShareFileTransfer.isWaitingOnLocal, startConnect_isWaitingOnLocal, ite_self]
  · rename_i hNot
    simpa [h] using hNot

theorem beginTransfer_isActive (h : s.isWaitingOnLocal = true) :
    (s.beginTransfer fails connects).isActive = s.canStart fails := by
  cases hEnabled : s.beginTransferEnabled
  · simp [beginTransfer_paused, hEnabled, isActive, canStart, mayBegin, h]
  · simp only [beginTransfer, doUpload, abortSession, hEnabled, h, Bool.and_self, if_true,
      apply_ite isActive, startConnect_isActive, Bool.false_eq_true, if_false]
    simp only [isActive, canStart, mayBegin, hEnabled]
    cases s.uploadSession <;> cases s.isConnected <;> by_cases h0 : 0 < s.numFiles <;>
      cases s.hasThread <;> cases fails <;> simp [h0]

end ShareFileTransfer

namespace ShareWindow

variable {net : Network} {w w' : ShareWindow} {upload : Bool} {p : Nat} {running rest : List Nat}

/-- How many of the active transfers count for a user; all of them, while the user is not known. -/
def countUser (ids : List (List Char)) (user : List Char) : Nat :=
  if user = [] then ids.length else ids.count user

/-- A waiting transfer of the direction whose user is under the limit. -/
def fits (w : ShareWindow) (upload : Bool) (p : Nat) (running : List Nat) : Bool :=
  decide ((w.session p).uploadSession = upload) && (w.session p).isWaitingOnLocal &&
    decide (countUser (running.map w.userOf) (w.userOf p) < (w.maxSessionsPerUser upload).toNat)

def starts (net : Network) (w : ShareWindow) (p : Nat) : Bool :=
  (w.session p).canStart (net.uploadFails p)

def beginAll (net : Network) (l : List Nat) (w : ShareWindow) : ShareWindow :=
  l.foldl (fun w p => w.beginTransfer net p) w

theorem active_length_lt (h : w.WellFormed) (upload : Bool) : (w.active upload).length < 2 ^ 31 :=
  Nat.lt_of_le_of_lt (List.length_filter_le ..) h.length_lt

theorem countUser_le (ids : List (List Char)) (user : List Char) : countUser ids user ≤ ids.length := by
  unfold countUser
  split
  · exact Nat.le_refl _
  · exact List.count_le_length

theorem countUser_cons (id : List Char) (ids : List (List Char)) (user : List Char) :
    countUser ids user ≤ countUser (id :: ids) user := by
  unfold countUser
  split
  · simp
  · exact List.count_le_count_cons

theorem countUser_perm {ids ids' : List (List Char)} (h : ids.Perm ids') (user : List Char) :
    countUser ids user = countUser ids' user := by
  unfold countUser
  rw [h.length_eq, h.count_eq]

theorem count_le_countUser (ids : List (List Char)) (user : List Char) :
    ids.count user ≤ countUser ids user := by
  unfold countUser
  split
  · exact List.count_le_length
  · exact Nat.le_refl _

theorem countActiveSessions_userKey (h : w.WellFormed) (upload : Bool) (user : List Char) :
    (w.countActiveSessions upload (userKey user)).toNat =
      countUser ((w.active upload).map w.userOf) user := by
  have hLt := active_length_lt h upload
  have hLe := countUser_le ((w.active upload).map w.userOf) user
  rw [List.length_map] at hLe
  have hCount : (w.countActiveSessions upload (userKey user)) =
      UInt32.ofNat (countUser ((w.active upload).map w.userOf) user) := by
    unfold countActiveSessions countUser userKey
    by_cases hNone : user = []
    · rw [if_pos hNone, if_pos hNone]
      simp
    · rw [if_neg hNone, if_neg hNone, List.count]
      refine congrArg UInt32.ofNat (List.countP_congr fun id _ => ?_)
      show (user == id) = true ↔ (id == user) = true
      rw [beq_iff_eq, beq_iff_eq, eq_comm]
  rw [hCount, UInt32.toNat_ofNat', Nat.mod_eq_of_lt (by omega)]

theorem countActiveSessions_none (h : w.WellFormed) :
    (w.countActiveSessions upload none).toNat = (w.active upload).length := by
  have hUser := countActiveSessions_userKey h upload []
  simpa [userKey, countUser] using hUser

/-! ### One transfer begins -/

theorem setSession_wellFormed (h : w.WellFormed) (s : ShareFileTransfer) : (w.setSession p s).WellFormed :=
  ⟨h.nodup, h.length_lt⟩

theorem beginTransfer_session_of_ne {q : Nat} (h : q ≠ p) :
    (w.beginTransfer net p).session q = w.session q :=
  Function.update_of_ne h ..

theorem beginTransfer_session_same : (w.beginTransfer net p).session p =
    (w.session p).beginTransfer (net.uploadFails p) (net.connects p) :=
  Function.update_self ..

theorem beginTransfer_userOf : (w.beginTransfer net p).userOf = w.userOf := by
  funext q
  unfold userOf
  by_cases h : q = p
  · subst h
    rw [beginTransfer_session_same, ShareFileTransfer.beginTransfer_remoteSessionID]
  · rw [beginTransfer_session_of_ne h]

theorem beginTransfer_direction (q : Nat) :
    ((w.beginTransfer net p).session q).uploadSession = (w.session q).uploadSession := by
  by_cases h : q = p
  · subst h
    rw [beginTransfer_session_same, ShareFileTransfer.beginTransfer_uploadSession]
  · rw [beginTransfer_session_of_ne h]

/-- A list without doubles, filtered after one more of its elements is let through. -/
theorem filter_perm_cons {f g : Nat → Bool} {l : List Nat} (hNodup : l.Nodup) (hp : p ∈ l)
    (hOther : ∀ q, q ≠ p → g q = f q) (hf : f p = false) (hg : g p = true) :
    (l.filter g).Perm (p :: l.filter f) := by
  induction l with
  | nil => cases hp
  | cons q l ih =>
    obtain ⟨hNotMem, hNodupL⟩ := List.nodup_cons.mp hNodup
    by_cases hq : q = p
    · subst hq
      rw [List.filter_cons_of_pos hg, List.filter_cons_of_neg (by simp [hf])]
      refine List.Perm.cons _ (List.Perm.of_eq (List.filter_congr fun x hx => hOther x ?_))
      rintro rfl
      exact hNotMem hx
    · have hIn := ih hNodupL ((List.mem_cons.mp hp).resolve_left (Ne.symm hq))
      by_cases hfq : f q = true
      · rw [List.filter_cons_of_pos hfq, List.filter_cons_of_pos (by rw [hOther q hq]; exact hfq)]
        exact (hIn.cons q).trans (List.Perm.swap ..)
      · rw [List.filter_cons_of_neg hfq, List.filter_cons_of_neg (by rw [hOther q hq]; exact hfq)]
        exact hIn

theorem beginTransfer_active (h : w.WellFormed) (hp : p ∈ w.transferList)
    (hUpload : (w.session p).uploadSession = upload) (hWaits : (w.session p).isWaitingOnLocal = true) :
    ((w.beginTransfer net p).active upload).Perm (push (w.starts net) (w.active upload) p) := by
  have hOther : ∀ q, q ≠ p → (((w.beginTransfer net p).session q).uploadSession == upload &&
      ((w.beginTransfer net p).session q).isActive) =
        ((w.session q).uploadSession == upload && (w.session q).isActive) := fun q hq => by
    rw [beginTransfer_session_of_ne hq]
  have hNow : (((w.beginTransfer net p).session p).uploadSession == upload &&
      ((w.beginTransfer net p).session p).isActive) = w.starts net p := by
    rw [beginTransfer_session_same, ShareFileTransfer.beginTransfer_uploadSession,
      ShareFileTransfer.beginTransfer_isActive hWaits, hUpload]
    simp [starts]
  have hBefore : ((w.session p).uploadSession == upload && (w.session p).isActive) = false := by
    simp [ShareFileTransfer.isActive, hWaits]
  by_cases hStarts : w.starts net p = true
  · rw [push_of_starts hStarts]
    exact filter_perm_cons h.nodup hp hOther hBefore (hNow.trans hStarts)
  · have hNot : w.starts net p = false := by simpa using hStarts
    rw [push_of_not_starts hNot]
    refine List.Perm.of_eq (List.filter_congr fun q _ => ?_)
    by_cases hq : q = p
    · subst hq
      rw [hNow, hBefore, hNot]
    · exact hOther q hq

/-! ### The loop -/

theorem beginTransfer_wellFormed (h : w.WellFormed) : (w.beginTransfer net p).WellFormed :=
  setSession_wellFormed h _

theorem beginTransfer_fits {q : Nat} (hq : q ≠ p) :
    (w.beginTransfer net p).fits upload q = w.fits upload q := by
  funext running
  unfold fits
  rw [beginTransfer_session_of_ne hq, beginTransfer_userOf]
  rfl

theorem beginTransfer_starts {q : Nat} (hq : q ≠ p) : (w.beginTransfer net p).starts net q = w.starts net q := by
  unfold starts
  rw [beginTransfer_session_of_ne hq]

theorem fits_perm {running' : List Nat} (h : running.Perm running') :
    w.fits upload p running = w.fits upload p running' := by
  unfold fits
  rw [countUser_perm (h.map _)]

theorem push_perm {starts : Nat → Bool} {running' : List Nat} (h : running.Perm running') :
    (push starts running p).Perm (push starts running' p) := by
  unfold push
  split
  · exact h.cons p
  · exact h

/-- The test of the loop. -/
theorem fits_iff (h : w.WellFormed) (hRunning : running.Perm (w.active upload)) :
    ((w.session p).uploadSession = upload ∧ (w.session p).isWaitingOnLocal ∧
        w.countActiveSessions upload (userKey (w.userOf p)) < w.maxSessionsPerUser upload) ↔
      w.fits upload p running = true := by
  rw [fits_perm hRunning, UInt32.lt_iff_toNat_lt, countActiveSessions_userKey h]
  simp [fits, and_assoc]

/-- The loop begins what a greedy scan tries. -/
theorem dequeueLoop_spec {n : Nat} (h : w.WellFormed) (hRunning : running.Perm (w.active upload))
    (hIn : ∀ p ∈ rest, p ∈ w.transferList) (hNodup : rest.Nodup) (hn : 0 < n) :
    dequeueLoop net upload rest n w =
        beginAll net ((tries (w.fits upload) (w.starts net) running rest).take n) w ∧
      ((dequeueLoop net upload rest n w).active upload).Perm
        (after (w.fits upload) (w.starts net) n running rest) := by
  induction rest generalizing w n running with
  | nil => exact ⟨by simp [dequeueLoop, tries, beginAll], by simpa [dequeueLoop, tries, after] using hRunning.symm⟩
  | cons p rest ih =>
    obtain ⟨hNotMem, hNodupRest⟩ := List.nodup_cons.mp hNodup
    have hInRest : ∀ q ∈ rest, q ∈ w.transferList := fun q hq => hIn q (List.mem_cons_of_mem _ hq)
    obtain ⟨n, rfl⟩ : ∃ k, n = k + 1 := ⟨n - 1, by omega⟩
    by_cases hFits : w.fits upload p running = true
    · have hTest := (fits_iff h hRunning).mpr hFits
      have hActive : (push (w.starts net) running p).Perm ((w.beginTransfer net p).active upload) :=
        (push_perm hRunning).trans
          (beginTransfer_active h (hIn p (List.mem_cons_self ..)) hTest.1 hTest.2.1).symm
      rw [dequeueLoop, if_pos hTest, after_of_fits hFits, tries_of_fits hFits, List.take_succ_cons]
      by_cases hLast : n = 0
      · subst hLast
        rw [if_pos (by simp), after_zero, List.take_zero]
        exact ⟨rfl, hActive.symm⟩
      · rw [if_neg (by omega), show ((n + 1 : Nat) : Int) - 1 = (n : Int) by omega]
        obtain ⟨hRun, hAfter⟩ := ih (beginTransfer_wellFormed h) hActive hInRest hNodupRest
          (Nat.pos_of_ne_zero hLast)
        have hNe : ∀ q ∈ rest, q ≠ p := by
          rintro q hq rfl
          exact hNotMem hq
        have hTries : tries ((w.beginTransfer net p).fits upload) ((w.beginTransfer net p).starts net)
            (push (w.starts net) running p) rest =
              tries (w.fits upload) (w.starts net) (push (w.starts net) running p) rest :=
          tries_congr (fun q hq r => congrFun (beginTransfer_fits (hNe q hq)) r) fun q hq _ _ =>
            beginTransfer_starts (hNe q hq)
        rw [hTries] at hRun
        refine ⟨hRun, hAfter.trans (List.Perm.of_eq ?_)⟩
        unfold after
        rw [hTries]
        refine List.foldl_ext _ _ _ fun r q hq => ?_
        unfold push
        rw [beginTransfer_starts (hNe q (mem_of_mem_tries (List.mem_of_mem_take hq)))]
    · have hNot : w.fits upload p running = false := by simpa using hFits
      rw [dequeueLoop, if_neg (mt (fits_iff h hRunning).mp hFits), after_of_not_fits hNot, tries_of_not_fits hNot]
      exact ih h hRunning hInRest hNodupRest hn

theorem beginAll_session_of_not_mem {l : List Nat} (hp : p ∉ l) :
    (beginAll net l w).session p = w.session p := by
  induction l generalizing w with
  | nil => rfl
  | cons q l ih =>
    rw [List.mem_cons, not_or] at hp
    exact (ih hp.2).trans (beginTransfer_session_of_ne hp.1)

theorem beginAll_session_of_mem {l : List Nat} (hNodup : l.Nodup) (hp : p ∈ l) :
    (beginAll net l w).session p = (w.session p).beginTransfer (net.uploadFails p) (net.connects p) := by
  induction l generalizing w with
  | nil => cases hp
  | cons q l ih =>
    obtain ⟨hNotMem, hNodupL⟩ := List.nodup_cons.mp hNodup
    rcases List.mem_cons.mp hp with rfl | hp
    · exact (beginAll_session_of_not_mem hNotMem).trans beginTransfer_session_same
    · refine (ih hNodupL hp).trans ?_
      rw [beginTransfer_session_of_ne]
      exact fun hEq => hNotMem (hEq ▸ hp)

theorem beginAll_rest (net : Network) (l : List Nat) (w : ShareWindow) :
    (beginAll net l w).transferList = w.transferList ∧
    (beginAll net l w).maxSessions = w.maxSessions ∧
      (beginAll net l w).maxSessionsPerUser = w.maxSessionsPerUser ∧ (beginAll net l w).userOf = w.userOf := by
  induction l generalizing w with
  | nil => exact ⟨rfl, rfl, rfl, rfl⟩
  | cons p l ih =>
    obtain ⟨hList, hMax, hPerUser, hUser⟩ := ih (w.beginTransfer net p)
    exact ⟨hList, hMax, hPerUser, hUser.trans beginTransfer_userOf⟩

theorem tries_nodup {fits : Nat → List Nat → Bool} {starts : Nat → Bool} (h : rest.Nodup) :
    (tries fits starts running rest).Nodup := by
  induction rest generalizing running with
  | nil => exact List.nodup_nil
  | cons p rest ih =>
    obtain ⟨hNotMem, hRest⟩ := List.nodup_cons.mp h
    unfold tries
    split
    · exact List.nodup_cons.mpr ⟨fun hp => hNotMem (mem_of_mem_tries hp), ih hRest⟩
    · exact ih hRest

theorem beginAll_active {l : List Nat} (hNodup : l.Nodup)
    (hDirection : ∀ p ∈ l, (w.session p).uploadSession = upload) {other : Bool} (hOther : other ≠ upload) :
    (beginAll net l w).active other = w.active other := by
  unfold active
  rw [(beginAll_rest net l w).1]
  refine List.filter_congr fun p _ => ?_
  by_cases hp : p ∈ l
  · rw [beginAll_session_of_mem hNodup hp, ShareFileTransfer.beginTransfer_uploadSession, hDirection p hp,
      beq_eq_false_iff_ne.mpr (Ne.symm hOther), Bool.false_and, Bool.false_and]
  · rw [beginAll_session_of_not_mem hp]

/-! ### One direction -/

/-- How many transfers the scan may try. -/
def budget (w : ShareWindow) (upload : Bool) : Nat :=
  let free := (w.maxSessions upload).toNat - (w.active upload).length
  if free < 2 ^ 31 then free else 0

/-- The waiting transfers that a scan without a budget would try, in the order of the list: those whose user
is under the limit, the transfers before them that can start counted. -/
def candidates (net : Network) (w : ShareWindow) (upload : Bool) : List Nat :=
  tries (w.fits upload) (w.starts net) (w.active upload) w.transferList

theorem toInt_sub {a b : UInt32} (hb : b.toNat < 2 ^ 31) :
    (toInt (a - b) > 0 ↔ a.toNat - b.toNat ≠ 0 ∧ a.toNat - b.toNat < 2 ^ 31) ∧
      (toInt (a - b) > 0 → toInt (a - b) = (a.toNat - b.toNat : Nat)) := by
  have ha := a.toNat_lt
  have hSub : (a - b).toNat = (2 ^ 32 - b.toNat + a.toNat) % 2 ^ 32 := UInt32.toNat_sub a b
  unfold toInt
  rw [hSub]
  by_cases hLe : b.toNat ≤ a.toNat
  · have hMod : (2 ^ 32 - b.toNat + a.toNat) % 2 ^ 32 = a.toNat - b.toNat := by omega
    rw [hMod]
    split <;> omega
  · have hMod : (2 ^ 32 - b.toNat + a.toNat) % 2 ^ 32 = 2 ^ 32 - b.toNat + a.toNat := by omega
    rw [hMod]
    split <;> omega

theorem dequeueDirection_spec (h : w.WellFormed) (net : Network) (upload : Bool) :
    w.dequeueDirection net upload = beginAll net ((w.candidates net upload).take (w.budget upload)) w ∧
      ((w.dequeueDirection net upload).active upload).Perm
        (after (w.fits upload) (w.starts net) (w.budget upload) (w.active upload) w.transferList) := by
  obtain ⟨hPos, hNum⟩ := toInt_sub (a := w.maxSessions upload) (b := w.countActiveSessions upload none)
    (by rw [countActiveSessions_none h]; exact active_length_lt h upload)
  rw [countActiveSessions_none h] at hPos hNum
  unfold dequeueDirection
  by_cases hStart : toInt (w.maxSessions upload - w.countActiveSessions upload none) > 0
  · obtain ⟨hNe, hLt⟩ := hPos.mp hStart
    have hBudget : w.budget upload = (w.maxSessions upload).toNat - (w.active upload).length := by
      unfold budget
      rw [if_pos hLt]
    rw [if_pos hStart, hNum hStart, ← hBudget]
    exact dequeueLoop_spec h (List.Perm.refl _) (fun p hp => hp) h.nodup (by omega)
  · have hBudget : w.budget upload = 0 := by
      unfold budget
      dsimp only
      split <;> omega
    rw [if_neg hStart, hBudget, after_zero, List.take_zero]
    exact ⟨rfl, List.Perm.refl _⟩

/-- The limits are not exceeded by what happens between two states: a count that is over its limit
afterwards was so before. -/
structure NeverExceeds (w w' : ShareWindow) : Prop where
  sessions : ∀ upload, (w'.active upload).length ≤ max (w.active upload).length (w.maxSessions upload).toNat
  perUser : ∀ upload user, ((w'.active upload).map w'.userOf).count user ≤
    max (((w.active upload).map w.userOf).count user) (w.maxSessionsPerUser upload).toNat
  maxSessions : w'.maxSessions = w.maxSessions
  maxSessionsPerUser : w'.maxSessionsPerUser = w.maxSessionsPerUser

theorem NeverExceeds.of_perm (hActive : ∀ upload, (w'.active upload).Perm (w.active upload))
    (hUser : w'.userOf = w.userOf) (hMax : w'.maxSessions = w.maxSessions)
    (hPerUser : w'.maxSessionsPerUser = w.maxSessionsPerUser) : NeverExceeds w w' := by
  refine ⟨fun upload => ?_, fun upload user => ?_, hMax, hPerUser⟩
  · rw [(hActive upload).length_eq]
    exact Nat.le_max_left ..
  · rw [hUser, ((hActive upload).map _).count_eq]
    exact Nat.le_max_left ..

theorem NeverExceeds.trans {w'' : ShareWindow} (h : NeverExceeds w w') (h' : NeverExceeds w' w'') :
    NeverExceeds w w'' := by
  refine ⟨fun upload => ?_, fun upload user => ?_, h'.maxSessions.trans h.maxSessions,
    h'.maxSessionsPerUser.trans h.maxSessionsPerUser⟩
  · have hFirst := h.sessions upload
    have hSecond := h'.sessions upload
    rw [h.maxSessions] at hSecond
    omega
  · have hFirst := h.perUser upload user
    have hSecond := h'.perUser upload user
    rw [h.maxSessionsPerUser] at hSecond
    omega

theorem budget_le (w : ShareWindow) (upload : Bool) : (w.active upload).length + w.budget upload ≤
    max (w.active upload).length (w.maxSessions upload).toNat := by
  unfold budget
  dsimp only
  split <;> omega

theorem candidates_direction (hp : p ∈ w.candidates net upload) :
    (w.session p).uploadSession = upload ∧ (w.session p).isWaitingOnLocal = true := by
  unfold candidates at hp
  generalize w.active upload = running, w.transferList = rest at hp
  induction rest generalizing running with
  | nil => cases hp
  | cons q rest ih =>
    rw [tries] at hp
    split at hp
    · rename_i hFits
      rcases List.mem_cons.mp hp with rfl | hp
      · simp only [fits, Bool.and_eq_true, decide_eq_true_eq] at hFits
        exact hFits.1
      · exact ih _ hp
    · exact ih _ hp

theorem dequeueDirection_neverExceeds (h : w.WellFormed) : NeverExceeds w (w.dequeueDirection net upload) := by
  obtain ⟨hRun, hActive⟩ := dequeueDirection_spec h net upload
  obtain ⟨-, hMax, hPerUser, hUser⟩ := beginAll_rest net
    ((w.candidates net upload).take (w.budget upload)) w
  have hOther : ∀ other, other ≠ upload → (w.dequeueDirection net upload).active other = w.active other := by
    intro other hNe
    rw [hRun]
    exact beginAll_active ((tries_nodup h.nodup).sublist (List.take_sublist ..))
      (fun p hp => (candidates_direction (List.mem_of_mem_take hp)).1) hNe
  rw [← hRun] at hMax hPerUser hUser
  refine ⟨fun other => ?_, fun other user => ?_, hMax, hPerUser⟩
  · by_cases hNe : other = upload
    · subst hNe
      have hFiltered := List.length_filter_le (w.starts net) ((w.candidates net other).take (w.budget other))
      have hTake := List.length_take_le (w.budget other) (w.candidates net other)
      have hBudget := budget_le w other
      rw [hActive.length_eq, length_after]
      show _ + (List.filter _ ((w.candidates net other).take _)).length ≤ _
      omega
    · rw [hOther other hNe]
      exact Nat.le_max_left ..
  · rw [hUser]
    by_cases hNe : other = upload
    · subst hNe
      rw [(hActive.map _).count_eq]
      refine after_le (fun r => (r.map w.userOf).count user) (fun p r hFits _ => ?_) ..
      simp only [fits, Bool.and_eq_true, decide_eq_true_eq] at hFits
      have hCount := count_le_countUser (r.map w.userOf) (w.userOf p)
      rw [List.map_cons, List.count_cons]
      split
      · rename_i hSame
        rw [beq_iff_eq] at hSame
        subst hSame
        omega
      · omega
    · rw [hOther other hNe]
      exact Nat.le_max_left ..

/-- While a slot of the direction is free, no transfer that may begin and whose user is under the limit still
waits. -/
def WorkConserving (w : ShareWindow) (upload : Bool) : Prop :=
  (w.active upload).length < (w.maxSessions upload).toNat → ∀ p ∈ w.transferList,
    (w.session p).mayBegin = true → w.fits upload p (w.active upload) = false

/-- The tries of the scan are not used up by transfers that cannot start while one that may begin is behind
them. -/
def TriesSuffice (net : Network) (w : ShareWindow) (upload : Bool) : Prop :=
  (∀ p ∈ (w.candidates net upload).drop (w.budget upload), (w.session p).mayBegin = false) ∨
    ((w.maxSessions upload).toNat - (w.active upload).length < 2 ^ 31 ∧
      ∀ p ∈ (w.candidates net upload).take (w.budget upload), w.starts net p = true)

theorem fits_mono (w : ShareWindow) (upload : Bool) (p q : Nat) (r : List Nat) (h : w.fits upload p (q :: r) = true) :
    w.fits upload p r = true := by
  simp only [fits, List.map_cons, Bool.and_eq_true, decide_eq_true_eq] at h ⊢
  have hCons := countUser_cons (w.userOf q) (r.map w.userOf) (w.userOf p)
  exact ⟨h.1, by omega⟩

theorem mayBegin_of_starts (h : w.starts net p = true) : (w.session p).mayBegin = true := by
  unfold starts ShareFileTransfer.canStart at h
  exact (Bool.and_eq_true_iff.mp h).1

/-- A transfer still waits after the scan if it was not tried. -/
theorem dequeueDirection_fits (h : w.WellFormed) (p : Nat) :
    (((w.dequeueDirection net upload).session p).mayBegin = true ∧
        (w.dequeueDirection net upload).fits upload p ((w.dequeueDirection net upload).active upload) = true) ↔
      (w.session p).mayBegin = true ∧ p ∉ (w.candidates net upload).take (w.budget upload) ∧
        w.fits upload p (after (w.fits upload) (w.starts net) (w.budget upload) (w.active upload)
          w.transferList) = true := by
  obtain ⟨hRun, hActive⟩ := dequeueDirection_spec h net upload
  have hNodup : ((w.candidates net upload).take (w.budget upload)).Nodup :=
    (tries_nodup h.nodup).sublist (List.take_sublist ..)
  obtain ⟨-, -, hPerUser, hUser⟩ := beginAll_rest net
    ((w.candidates net upload).take (w.budget upload)) w
  rw [← hRun] at hPerUser hUser
  have hFits : ∀ r, (w.dequeueDirection net upload).session p = w.session p →
      (w.dequeueDirection net upload).fits upload p r = w.fits upload p r := by
    intro r hSame
    unfold fits
    rw [hSame, hUser, hPerUser]
  rw [fits_perm hActive]
  by_cases hp : p ∈ (w.candidates net upload).take (w.budget upload)
  · have hBegun : (w.dequeueDirection net upload).session p =
        (w.session p).beginTransfer (net.uploadFails p) (net.connects p) := by
      rw [hRun, beginAll_session_of_mem hNodup hp]
    refine iff_of_false (fun hLeft => ?_) fun hLeft => hLeft.2.1 hp
    obtain ⟨hMay, hLeft⟩ := hLeft
    unfold fits at hLeft
    simp only [Bool.and_eq_true] at hLeft
    rw [hBegun] at hMay hLeft
    cases hEnabled : (w.session p).beginTransferEnabled
    · rw [ShareFileTransfer.beginTransfer_paused hEnabled] at hMay
      simp [ShareFileTransfer.mayBegin, hEnabled] at hMay
    · have hNot := ShareFileTransfer.beginTransfer_isWaitingOnLocal (net.uploadFails p)
        (net.connects p) hEnabled
      rw [hNot] at hLeft
      simp at hLeft
  · have hSame : (w.dequeueDirection net upload).session p = w.session p := by
      rw [hRun, beginAll_session_of_not_mem hp]
    rw [hSame, hFits _ hSame]
    exact ⟨fun hLeft => ⟨hLeft.1, hp, hLeft.2⟩, fun hLeft => ⟨hLeft.1, hLeft.2.2⟩⟩

theorem dequeueDirection_workConserving_iff (h : w.WellFormed) :
    (w.dequeueDirection net upload).WorkConserving upload ↔ w.TriesSuffice net upload := by
  obtain ⟨hRun, hActive⟩ := dequeueDirection_spec h net upload
  obtain ⟨hList, hMax, -, -⟩ := beginAll_rest net
    ((w.candidates net upload).take (w.budget upload)) w
  rw [← hRun] at hList hMax
  -- one that may begin is left exactly if the scan would try one after its budget
  have hLeft : (∀ p ∈ w.transferList, ((w.dequeueDirection net upload).session p).mayBegin = true →
      (w.dequeueDirection net upload).fits upload p ((w.dequeueDirection net upload).active upload) = false) ↔
      ∀ p ∈ (w.candidates net upload).drop (w.budget upload), (w.session p).mayBegin = false := by
    have hIff := left_iff (fits_mono w upload) (fun p => (w.session p).mayBegin = true)
      (fun p (hp : w.starts net p = true) => mayBegin_of_starts hp) (w.budget upload) (w.active upload) h.nodup
    rw [← not_iff_not]
    simp only [not_forall, Bool.not_eq_false, exists_prop]
    refine Iff.trans (exists_congr fun p => and_congr_right fun _ => ?_) hIff
    exact dequeueDirection_fits h p
  have hFull : ¬((w.dequeueDirection net upload).active upload).length < (w.maxSessions upload).toNat ↔
      (w.maxSessions upload).toNat ≤ (w.active upload).length +
        (((w.candidates net upload).take (w.budget upload)).filter (w.starts net)).length := by
    rw [hActive.length_eq, length_after, Nat.not_lt]
    rfl
  unfold WorkConserving TriesSuffice
  rw [hList, hMax, hLeft]
  by_cases hNone : ∀ p ∈ (w.candidates net upload).drop (w.budget upload), (w.session p).mayBegin = false
  · exact iff_of_true (fun _ => hNone) (.inl hNone)
  · rw [iff_iff_implies_and_implies]
    have hLong : w.budget upload ≤ (w.candidates net upload).length := by
      by_contra hShort
      rw [List.drop_eq_nil_of_le (by omega)] at hNone
      exact hNone (by simp)
    have hStarts := filter_take_length (w.starts net) hLong
    have hFew := List.length_filter_le (w.starts net) ((w.candidates net upload).take (w.budget upload))
    rw [List.length_take_of_le hLong] at hFew
    constructor
    · intro hConserving
      have hAll := hFull.mp fun hFree => hNone (hConserving hFree)
      have hShape : w.budget upload = (w.maxSessions upload).toNat - (w.active upload).length ∧
          (w.maxSessions upload).toNat - (w.active upload).length < 2 ^ 31 := by
        by_cases hSmall : (w.maxSessions upload).toNat - (w.active upload).length < 2 ^ 31
        · exact ⟨if_pos hSmall, hSmall⟩
        · have hBudget : w.budget upload = 0 := if_neg hSmall
          omega
      exact .inr ⟨hShape.2, hStarts.mp (by omega)⟩
    · rintro (hLate | ⟨hSmall, hAll⟩) hFree
      · exact hLate
      · have hCount := hStarts.mpr hAll
        have hBudget : w.budget upload = (w.maxSessions upload).toNat - (w.active upload).length := if_pos hSmall
        exact absurd hFree (hFull.mpr (by omega))

/-! ### Both directions -/

/-- The transfers of one direction are the same in both states. -/
structure Agrees (upload : Bool) (w w' : ShareWindow) : Prop where
  transferList : w'.transferList = w.transferList
  active : w'.active upload = w.active upload
  maxSessions : w'.maxSessions = w.maxSessions
  maxSessionsPerUser : w'.maxSessionsPerUser = w.maxSessionsPerUser
  userOf : w'.userOf = w.userOf
  direction : ∀ p, (w'.session p).uploadSession = (w.session p).uploadSession
  session : ∀ p, (w.session p).uploadSession = upload → w'.session p = w.session p

theorem Agrees.fits (h : Agrees upload w w') : w'.fits upload = w.fits upload := by
  funext p r
  unfold ShareWindow.fits
  rw [h.userOf, h.maxSessionsPerUser]
  by_cases hp : (w.session p).uploadSession = upload
  · rw [h.session p hp]
  · simp [h.direction p, hp]

theorem direction_of_fits (h : w.fits upload p running = true) : (w.session p).uploadSession = upload := by
  simp only [fits, Bool.and_eq_true, decide_eq_true_eq] at h
  exact h.1.1

theorem Agrees.workConserving_iff (h : Agrees upload w w') :
    w'.WorkConserving upload ↔ w.WorkConserving upload := by
  unfold WorkConserving
  rw [h.active, h.maxSessions, h.transferList, h.fits]
  refine imp_congr_right fun _ => forall_congr' fun p => imp_congr_right fun _ => ?_
  by_cases hp : (w.session p).uploadSession = upload
  · rw [h.session p hp]
  · have hNot : w.fits upload p (w.active upload) = false := by
      rw [Bool.eq_false_iff]
      exact fun hFits => hp (direction_of_fits hFits)
    simp [hNot]

theorem Agrees.candidates (h : Agrees upload w w') : w'.candidates net upload = w.candidates net upload := by
  unfold ShareWindow.candidates
  rw [h.active, h.transferList, h.fits]
  refine tries_congr (fun _ _ _ => rfl) fun p _ r hFits => ?_
  unfold starts
  rw [h.session p (direction_of_fits hFits)]

theorem Agrees.triesSuffice_iff (h : Agrees upload w w') :
    w'.TriesSuffice net upload ↔ w.TriesSuffice net upload := by
  have hSession : ∀ p ∈ w.candidates net upload, w'.session p = w.session p := fun p hp =>
    h.session p (candidates_direction hp).1
  unfold TriesSuffice budget
  rw [h.candidates, h.active, h.maxSessions]
  refine or_congr (forall_congr' fun p => forall_congr' fun hp => ?_)
    (and_congr_right fun _ => forall_congr' fun p => forall_congr' fun hp => ?_)
  · rw [hSession p (List.mem_of_mem_drop hp)]
  · unfold starts
    rw [hSession p (List.mem_of_mem_take hp)]

theorem dequeueDirection_session (h : w.WellFormed) (net : Network) (upload : Bool) (p : Nat) :
    (w.dequeueDirection net upload).session p = w.session p ∨
      (w.session p).uploadSession = upload ∧ (w.dequeueDirection net upload).session p =
        (w.session p).beginTransfer (net.uploadFails p) (net.connects p) := by
  rw [(dequeueDirection_spec h net upload).1]
  by_cases hp : p ∈ (w.candidates net upload).take (w.budget upload)
  · refine .inr ⟨(candidates_direction (List.mem_of_mem_take hp)).1, ?_⟩
    exact beginAll_session_of_mem ((tries_nodup h.nodup).sublist (List.take_sublist ..)) hp
  · exact .inl (beginAll_session_of_not_mem hp)

theorem dequeueDirection_agrees (h : w.WellFormed) {other : Bool} (hOther : other ≠ upload) :
    Agrees other w (w.dequeueDirection net upload) := by
  have hSession := dequeueDirection_session h net upload
  obtain ⟨hList, hMax, hPerUser, hUser⟩ := beginAll_rest net
    ((w.candidates net upload).take (w.budget upload)) w
  rw [← (dequeueDirection_spec h net upload).1] at hList hMax hPerUser hUser
  refine ⟨hList, ?_, hMax, hPerUser, hUser, fun p => ?_, fun p hp => ?_⟩
  · rw [(dequeueDirection_spec h net upload).1]
    exact beginAll_active ((tries_nodup h.nodup).sublist (List.take_sublist ..))
      (fun p hp => (candidates_direction (List.mem_of_mem_take hp)).1) hOther
  · rcases hSession p with hSame | ⟨-, hBegun⟩
    · rw [hSame]
    · rw [hBegun, ShareFileTransfer.beginTransfer_uploadSession]
  · rcases hSession p with hSame | ⟨hUpload, -⟩
    · exact hSame
    · exact absurd (hp.symm.trans hUpload) hOther

theorem dequeueDirection_wellFormed (h : w.WellFormed) (net : Network) (upload : Bool) :
    (w.dequeueDirection net upload).WellFormed := by
  have hAgrees : Agrees (!upload) w (w.dequeueDirection net upload) := dequeueDirection_agrees h (by simp)
  exact ⟨hAgrees.transferList ▸ h.nodup, hAgrees.transferList ▸ h.length_lt⟩

theorem dequeueBoth_wellFormed (h : w.WellFormed) : (w.dequeueBoth net).WellFormed :=
  dequeueDirection_wellFormed (dequeueDirection_wellFormed h net true) net false

theorem dequeueBoth_neverExceeds (h : w.WellFormed) : NeverExceeds w (w.dequeueBoth net) :=
  (dequeueDirection_neverExceeds h).trans (dequeueDirection_neverExceeds (dequeueDirection_wellFormed h net true))

theorem dequeueBoth_workConserving_iff (h : w.WellFormed) (upload : Bool) :
    (w.dequeueBoth net).WorkConserving upload ↔ w.TriesSuffice net upload := by
  have hFirst := dequeueDirection_wellFormed h net true
  unfold dequeueBoth
  cases upload
  · rw [dequeueDirection_workConserving_iff hFirst]
    exact (dequeueDirection_agrees h (by simp)).triesSuffice_iff
  · rw [(dequeueDirection_agrees hFirst (by simp)).workConserving_iff]
    exact dequeueDirection_workConserving_iff h

/-! ### Shortest uploads first -/

theorem NeverExceeds.of_sublist (hActive : ∀ upload, (w'.active upload).Sublist (w.active upload))
    (hUser : w'.userOf = w.userOf) (hMax : w'.maxSessions = w.maxSessions)
    (hPerUser : w'.maxSessionsPerUser = w.maxSessionsPerUser) : NeverExceeds w w' := by
  refine ⟨fun upload => ?_, fun upload user => ?_, hMax, hPerUser⟩
  · exact Nat.le_trans (hActive upload).length_le (Nat.le_max_left ..)
  · rw [hUser]
    exact Nat.le_trans (((hActive upload).map _).count_le user) (Nat.le_max_left ..)

/-- A change of the sessions that makes none of them active. -/
theorem changeSessions_neverExceeds {f : Nat → ShareFileTransfer → ShareFileTransfer}
    (hUpload : ∀ p ∈ w.transferList, (f p (w.session p)).uploadSession = (w.session p).uploadSession)
    (hUser : ∀ p ∈ w.transferList, (f p (w.session p)).remoteSessionID = (w.session p).remoteSessionID)
    (hActive : ∀ p ∈ w.transferList, (f p (w.session p)).isActive = true → (w.session p).isActive = true) :
    NeverExceeds w (w.changeSessions f) := by
  refine NeverExceeds.of_sublist (fun upload => ?_) ?_ rfl rfl
  · unfold active
    have hFilter : ((w.changeSessions f).transferList.filter fun p =>
        ((w.changeSessions f).session p).uploadSession == upload &&
          ((w.changeSessions f).session p).isActive) =
        w.transferList.filter fun p => (w.session p).uploadSession == upload &&
          (w.session p).isActive && (f p (w.session p)).isActive := by
      refine List.filter_congr fun p hp => ?_
      have hNew : (w.changeSessions f).session p = f p (w.session p) := if_pos hp
      rw [hNew, hUpload p hp]
      cases hNow : (f p (w.session p)).isActive
      · simp
      · rw [hActive p hp hNow]
        simp
    rw [hFilter]
    refine List.monotone_filter_right _ fun p hBoth => ?_
    exact (Bool.and_eq_true_iff.mp hBoth).1
  · funext p
    unfold userOf changeSessions
    dsimp only
    split
    · exact hUser p ‹_›
    · rfl

theorem pauseUpload_uploadSession (s : ShareFileTransfer) :
    (pauseUpload s).uploadSession = s.uploadSession := by
  simp only [pauseUpload, ShareFileTransfer.requeueTransfer, apply_ite ShareFileTransfer.uploadSession, ite_self]

theorem pauseUpload_remoteSessionID (s : ShareFileTransfer) :
    (pauseUpload s).remoteSessionID = s.remoteSessionID := by
  simp only [pauseUpload, ShareFileTransfer.requeueTransfer, apply_ite ShareFileTransfer.remoteSessionID, ite_self]

theorem pauseUpload_isActive {s : ShareFileTransfer} (h : (pauseUpload s).isActive = true) :
    s.isActive = true := by
  unfold pauseUpload at h
  split at h
  · cases hWaits : s.isWaitingOnLocal <;>
      simp [ShareFileTransfer.isActive, ShareFileTransfer.requeueTransfer, hWaits] at h
  · exact h

/-- The uploads of the list may not begin. -/
def Paused (w : ShareWindow) : Prop :=
  ∀ p ∈ w.transferList, (w.session p).uploadSession = true → (w.session p).beginTransferEnabled = false

theorem paused_changeSessions : (w.changeSessions fun _ xfr => pauseUpload xfr).Paused := by
  intro p hp hUpload
  have hNew : (w.changeSessions fun _ xfr => pauseUpload xfr).session p = pauseUpload (w.session p) :=
    if_pos hp
  rw [hNew] at hUpload ⊢
  rw [pauseUpload_uploadSession] at hUpload
  simp [pauseUpload, hUpload]

theorem Paused.dequeueDirection (hPaused : w.Paused) (h : w.WellFormed) (upload : Bool) :
    (w.dequeueDirection net upload).Paused := by
  intro p hp hUpload
  have hAgrees : Agrees (!upload) w (w.dequeueDirection net upload) := dequeueDirection_agrees h (by simp)
  rw [hAgrees.transferList] at hp
  rw [hAgrees.direction] at hUpload
  have hOff := hPaused p hp hUpload
  rcases dequeueDirection_session h net upload p with hSame | ⟨-, hBegun⟩
  · rw [hSame, hOff]
  · rw [hBegun, ShareFileTransfer.beginTransfer_paused hOff, hOff]

theorem pauseAllUploads_spec (h : w.WellFormed) (net : Network) : NeverExceeds w (w.pauseAllUploads net) ∧
    (w.pauseAllUploads net).Paused ∧ (w.pauseAllUploads net).transferList = w.transferList := by
  have hWF : (w.changeSessions fun _ xfr => pauseUpload xfr).WellFormed := ⟨h.nodup, h.length_lt⟩
  have hFirst := dequeueDirection_wellFormed hWF net true
  refine ⟨NeverExceeds.trans ?_ (dequeueBoth_neverExceeds hWF), ?_, ?_⟩
  · exact changeSessions_neverExceeds (fun p _ => pauseUpload_uploadSession _)
      (fun p _ => pauseUpload_remoteSessionID _) fun p _ => pauseUpload_isActive
  · exact (paused_changeSessions.dequeueDirection hWF true).dequeueDirection hFirst false
  · have hDownloads : Agrees true _ ((w.changeSessions fun _ xfr => pauseUpload xfr).dequeueBoth net) :=
      dequeueDirection_agrees hFirst (by simp)
    have hUploads : Agrees false _ ((w.changeSessions fun _ xfr => pauseUpload xfr).dequeueDirection net true) :=
      dequeueDirection_agrees hWF (by simp)
    exact hDownloads.transferList.trans hUploads.transferList

/-- None of the uploads begins at once: all of them are paused. -/
theorem resumeAllUploads_neverExceeds (net : Network) (h : w.WellFormed) (hPaused : w.Paused) :
    NeverExceeds w (w.resumeAllUploads net) ∧ (w.resumeAllUploads net).WellFormed := by
  have hWF : (w.changeSessions fun p xfr =>
      resumeUpload (net.uploadFails p) (net.connects p) xfr).WellFormed := ⟨h.nodup, h.length_lt⟩
  have hResume : ∀ p ∈ w.transferList, resumeUpload (net.uploadFails p) (net.connects p) (w.session p) =
      { w.session p with beginTransferEnabled := (resumeUpload (net.uploadFails p) (net.connects p)
        (w.session p)).beginTransferEnabled } := by
    intro p hp
    unfold resumeUpload
    split
    · rename_i hWaits
      rw [hPaused p hp (Bool.and_eq_true_iff.mp hWaits).1]
      rfl
    · rfl
  refine ⟨NeverExceeds.trans ?_ (dequeueBoth_neverExceeds hWF), dequeueBoth_wellFormed hWF⟩
  refine changeSessions_neverExceeds (fun p hp => ?_) (fun p hp => ?_) fun p hp => ?_
  · rw [hResume p hp]
  · rw [hResume p hp]
  · rw [hResume p hp]
    exact fun hActive => hActive

theorem sortUploads_neverExceeds (h : w.WellFormed) :
    NeverExceeds w (w.sortUploads net) ∧ (w.sortUploads net).WellFormed := by
  unfold sortUploads
  split
  · exact ⟨NeverExceeds.of_perm (fun _ => List.Perm.refl _) rfl rfl rfl, h⟩
  · have hCounted : { w with dequeueCount := w.dequeueCount + 1 }.WellFormed := ⟨h.nodup, h.length_lt⟩
    obtain ⟨hPause, hPaused, hList⟩ := pauseAllUploads_spec hCounted net
    generalize { w with dequeueCount := w.dequeueCount + 1 }.pauseAllUploads net = paused at hPause hPaused hList
    have hPerm : w.sortedTransfers.Perm paused.transferList :=
      w.sortedTransfers_perm.trans (List.Perm.of_eq hList.symm)
    have hSorted : { paused with transferList := w.sortedTransfers }.WellFormed := by
      refine ⟨w.sortedTransfers_perm.nodup_iff.mpr h.nodup, ?_⟩
      rw [w.sortedTransfers_perm.length_eq]
      exact h.length_lt
    have hReorder : NeverExceeds paused { paused with transferList := w.sortedTransfers } :=
      NeverExceeds.of_perm (fun upload => hPerm.filter _) rfl rfl rfl
    obtain ⟨hResume, hWF⟩ := resumeAllUploads_neverExceeds net hSorted fun p hp =>
      hPaused p (hPerm.mem_iff.mp hp)
    have hAll := (hPause.trans hReorder).trans hResume
    exact ⟨⟨hAll.sessions, hAll.perUser, hAll.maxSessions, hAll.maxSessionsPerUser⟩, ⟨hWF.nodup, hWF.length_lt⟩⟩

/-- `DequeueTransferSessions` never takes a count over its limit, and leaves no transfer waiting beside a free
slot exactly if the tries of both scans suffice. -/
theorem dequeueTransferSessions_slots (net : Network) (w : ShareWindow) (h : w.WellFormed) :
    NeverExceeds w (w.dequeueTransferSessions net) ∧
      ((∀ upload, (w.dequeueTransferSessions net).WorkConserving upload) ↔
        ∀ upload, (w.beforeScans net).TriesSuffice net upload) := by
  obtain ⟨hBefore, hWF⟩ : NeverExceeds w (w.beforeScans net) ∧ (w.beforeScans net).WellFormed := by
    unfold beforeScans
    split
    · exact sortUploads_neverExceeds h
    · exact ⟨NeverExceeds.of_perm (fun _ => List.Perm.refl _) rfl rfl rfl, h⟩
  exact ⟨hBefore.trans (dequeueBoth_neverExceeds hWF),
    forall_congr' fun upload => dequeueBoth_workConserving_iff hWF upload⟩

/-- Two uploads wait for one slot, and the first one is paused. -/
def pausedFirst : ShareWindow where
  transferList := [0, 1]
  session p :=
    { uploadSession := true
      isConnected := true
      isConnecting := false
      isAccepting := false
      isWaitingOnLocal := true
      isFinished := false
      beginTransferEnabled := p == 1
      errorOccurred := false
      remoteSessionID := if p = 0 then ['7'] else ['8']
      numFiles := 1
      numBytesLeft := 1000
      hasThread := true }
  dequeueCount := 0
  shortestUploadsFirst := false
  maxSimultaneousUploadSessions := 1
  maxSimultaneousUploadSessionsPerUser := 2
  maxSimultaneousDownloadSessions := 5
  maxSimultaneousDownloadSessionsPerUser := 2

/-- Reading works, and so does connecting. -/
def workingNetwork : Network :=
  ⟨fun _ => false, fun _ => true⟩

theorem pausedFirst_wellFormed : pausedFirst.WellFormed := ⟨by decide, by decide⟩

/-- The paused upload uses up the only try, and the other one stays in the queue beside a free slot. -/
theorem pausedFirst_starves : pausedFirst.WellFormed ∧
    ¬(pausedFirst.dequeueTransferSessions workingNetwork).WorkConserving true := by
  refine ⟨pausedFirst_wellFormed, fun h => ?_⟩
  have hLeft := h (by decide) 1 (by decide) (by decide)
  revert hLeft
  decide

theorem dequeueTransferSessions_slots_pausedFirst :
    NeverExceeds pausedFirst (pausedFirst.dequeueTransferSessions workingNetwork) ∧
      ((∀ upload, (pausedFirst.dequeueTransferSessions workingNetwork).WorkConserving upload) ↔
        ∀ upload, (pausedFirst.beforeScans workingNetwork).TriesSuffice workingNetwork upload) :=
  dequeueTransferSessions_slots workingNetwork pausedFirst ⟨by decide, by decide⟩

end ShareWindow

end BeShare.Client
