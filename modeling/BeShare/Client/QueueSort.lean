import BeShare.Client.Slots

/-!
What the sort of the uploads in `DequeueTransferSessions` keeps. It pauses all uploads and resumes them, and so it
resumes also those that the user has paused.
-/

namespace BeShare.Client

namespace ShareFileTransfer

variable {s : ShareFileTransfer} {fails connects : Bool}

@[simp]
theorem startConnect_beginTransferEnabled :
    (s.startConnect connects).beginTransferEnabled = s.beginTransferEnabled := by
  unfold startConnect
  split <;> rfl

@[simp]
theorem beginTransfer_beginTransferEnabled :
    (s.beginTransfer fails connects).beginTransferEnabled = s.beginTransferEnabled := by
  simp only [beginTransfer, doUpload, abortSession, apply_ite ShareFileTransfer.beginTransferEnabled,
    startConnect_beginTransferEnabled, ite_self]

end ShareFileTransfer

namespace ShareWindow

variable {net : Network} {w w' : ShareWindow} {p q i : Nat} {sortList sorted l : List Nat}

/-! ### The places -/

theorem replaceItems_of_mem {next : Nat} (h : next ∈ sortList) (replaceWith : Nat) (sorted rest : List Nat) :
    replaceItems sortList (replaceWith :: sorted) (next :: rest) =
      replaceWith :: replaceItems sortList sorted rest := by
  rw [replaceItems, if_pos h]

theorem replaceItems_of_not_mem {next : Nat} (h : next ∉ sortList) (sorted rest : List Nat) :
    replaceItems sortList sorted (next :: rest) = next :: replaceItems sortList sorted rest :=
  if_neg h

/-- What is not sorted keeps its place. -/
theorem replaceItems_stays (hLength : sorted.length = (l.filter fun p => p ∈ sortList).length)
    (hPlace : l[i]? = some p) (hp : p ∉ sortList) : (replaceItems sortList sorted l)[i]? = some p := by
  induction l generalizing i sorted with
  | nil => cases hPlace
  | cons next rest ih =>
    by_cases hNext : next ∈ sortList
    · rw [List.filter_cons_of_pos (by simpa using hNext), List.length_cons] at hLength
      cases sorted with
      | nil => cases hLength
      | cons replaceWith sorted =>
        rw [replaceItems_of_mem hNext]
        cases i with
        | zero =>
          obtain rfl : next = p := Option.some.inj hPlace
          exact absurd hNext hp
        | succ i => exact ih (Nat.succ.inj hLength) hPlace
    · rw [List.filter_cons_of_neg (by simpa using hNext)] at hLength
      rw [replaceItems_of_not_mem hNext]
      cases i with
      | zero => exact hPlace
      | succ i => exact ih hLength hPlace

/-- A place of a sorted item takes one of the sorted items. -/
theorem replaceItems_place (hLength : sorted.length = (l.filter fun p => p ∈ sortList).length)
    (hPlace : l[i]? = some p) (hp : p ∈ sortList) :
    ∃ q ∈ sorted, (replaceItems sortList sorted l)[i]? = some q := by
  induction l generalizing i sorted with
  | nil => cases hPlace
  | cons next rest ih =>
    by_cases hNext : next ∈ sortList
    · rw [List.filter_cons_of_pos (by simpa using hNext), List.length_cons] at hLength
      cases sorted with
      | nil => cases hLength
      | cons replaceWith sorted =>
        rw [replaceItems_of_mem hNext]
        cases i with
        | zero => exact ⟨replaceWith, List.mem_cons_self, rfl⟩
        | succ i =>
          obtain ⟨q, hq, hTaken⟩ := ih (Nat.succ.inj hLength) hPlace
          exact ⟨q, List.mem_cons_of_mem _ hq, hTaken⟩
    · rw [List.filter_cons_of_neg (by simpa using hNext)] at hLength
      rw [replaceItems_of_not_mem hNext]
      cases i with
      | zero =>
        obtain rfl : next = p := Option.some.inj hPlace
        exact absurd hp hNext
      | succ i => exact ih hLength hPlace

/-- The sorted items come in their new order. -/
theorem replaceItems_filter (hSorted : ∀ p ∈ sorted, p ∈ sortList)
    (hLength : sorted.length = (l.filter fun p => p ∈ sortList).length) :
    ((replaceItems sortList sorted l).filter fun p => p ∈ sortList) = sorted := by
  induction l generalizing sorted with
  | nil =>
    rw [List.filter_nil, List.length_nil, List.length_eq_zero_iff] at hLength
    rw [hLength]
    rfl
  | cons next rest ih =>
    by_cases hNext : next ∈ sortList
    · rw [List.filter_cons_of_pos (by simpa using hNext), List.length_cons] at hLength
      cases sorted with
      | nil => cases hLength
      | cons replaceWith sorted =>
        have hHead : replaceWith ∈ sortList := hSorted _ List.mem_cons_self
        have hRest := ih (fun p hp => hSorted p (List.mem_cons_of_mem _ hp)) (Nat.succ.inj hLength)
        rw [replaceItems_of_mem hNext, List.filter_cons_of_pos (by simpa using hHead), hRest]
    · rw [List.filter_cons_of_neg (by simpa using hNext)] at hLength
      rw [replaceItems_of_not_mem hNext, List.filter_cons_of_neg (by simpa using hNext)]
      exact ih hSorted hLength

theorem mem_sortList : p ∈ w.sortList ↔ p ∈ w.origList :=
  (List.mergeSort_perm _ _).mem_iff

theorem filter_mem_origList : (w.transferList.filter fun p => p ∈ w.origList) = w.origList := by
  refine List.filter_congr fun p hp => ?_
  rw [Bool.eq_iff_iff, decide_eq_true_iff, origList, List.mem_filter]
  exact ⟨And.right, fun h => ⟨hp, h⟩⟩

theorem filter_mem_sortList (l : List Nat) :
    (l.filter fun p => p ∈ w.sortList) = l.filter fun p => p ∈ w.origList := by
  simp only [mem_sortList]

theorem sortList_length : w.sortList.length = (w.transferList.filter fun p => p ∈ w.sortList).length := by
  rw [filter_mem_sortList, filter_mem_origList]
  exact (List.mergeSort_perm _ _).length_eq

theorem sortList_pairwise (w : ShareWindow) : w.sortList.Pairwise fun p q => w.sortKey p ≤ w.sortKey q := by
  have hSorted : w.sortList.Pairwise fun p q => decide (w.sortKey p ≤ w.sortKey q) = true := by
    apply List.pairwise_mergeSort
    · intro p q r hpq hqr
      exact decide_eq_true (UInt64.le_trans (of_decide_eq_true hpq) (of_decide_eq_true hqr))
    · intro p q
      rcases UInt64.le_total (w.sortKey p) (w.sortKey q) with h | h <;> simp [h]
  exact hSorted.imp of_decide_eq_true

/-- The list changes exactly if it is not in order yet. -/
theorem sortList_eq_iff :
    w.sortList = w.origList ↔ w.origList.Pairwise fun p q => w.sortKey p ≤ w.sortKey q := by
  constructor
  · intro h
    rw [← h]
    exact w.sortList_pairwise
  · intro h
    exact List.mergeSort_of_pairwise (h.imp decide_eq_true)

/-! ### Who may begin -/

theorem dequeueDirection_beginTransferEnabled (h : w.WellFormed) (net : Network) (upload : Bool) (p : Nat) :
    ((w.dequeueDirection net upload).session p).beginTransferEnabled = (w.session p).beginTransferEnabled := by
  rcases dequeueDirection_session h net upload p with hSame | ⟨-, hBegun⟩
  · rw [hSame]
  · rw [hBegun, ShareFileTransfer.beginTransfer_beginTransferEnabled]

theorem dequeueBoth_beginTransferEnabled (h : w.WellFormed) (net : Network) (p : Nat) :
    ((w.dequeueBoth net).session p).beginTransferEnabled = (w.session p).beginTransferEnabled := by
  rw [dequeueBoth, dequeueDirection_beginTransferEnabled (dequeueDirection_wellFormed h net true),
    dequeueDirection_beginTransferEnabled h]

theorem dequeueBoth_transferList (h : w.WellFormed) (net : Network) :
    (w.dequeueBoth net).transferList = w.transferList := by
  have hDownloads : Agrees true _ (w.dequeueBoth net) :=
    dequeueDirection_agrees (dequeueDirection_wellFormed h net true) (by simp)
  have hUploads : Agrees false _ (w.dequeueDirection net true) := dequeueDirection_agrees h (by simp)
  exact hDownloads.transferList.trans hUploads.transferList

theorem dequeueBoth_uploadSession (h : w.WellFormed) (net : Network) (p : Nat) :
    ((w.dequeueBoth net).session p).uploadSession = (w.session p).uploadSession := by
  have hDownloads : Agrees true _ (w.dequeueBoth net) :=
    dequeueDirection_agrees (dequeueDirection_wellFormed h net true) (by simp)
  have hUploads : Agrees false _ (w.dequeueDirection net true) := dequeueDirection_agrees h (by simp)
  exact (hDownloads.direction p).trans (hUploads.direction p)

/-- A paused transfer is not touched. -/
theorem dequeueBoth_session (h : w.WellFormed) (net : Network)
    (hOff : (w.session p).beginTransferEnabled = false) : (w.dequeueBoth net).session p = w.session p := by
  have hFirst : (w.dequeueDirection net true).session p = w.session p := by
    rcases dequeueDirection_session h net true p with hSame | ⟨-, hBegun⟩
    · exact hSame
    · rw [hBegun, ShareFileTransfer.beginTransfer_paused hOff]
  rcases dequeueDirection_session (dequeueDirection_wellFormed h net true) net false p with hSame | ⟨-, hBegun⟩
  · exact hSame.trans hFirst
  · rw [dequeueBoth, hBegun, hFirst, ShareFileTransfer.beginTransfer_paused hOff]

theorem resumeUpload_pauseUpload {s : ShareFileTransfer} {fails connects : Bool} (h : s.uploadSession = true) :
    (resumeUpload fails connects (pauseUpload s)).beginTransferEnabled = true := by
  rw [pauseUpload, if_pos h, resumeUpload]
  cases hWaits : s.isWaitingOnLocal <;> simp [ShareFileTransfer.requeueTransfer, h, hWaits]

theorem pauseAllUploads_upload (h : w.WellFormed) (net : Network) (hp : p ∈ w.transferList)
    (hUpload : (w.session p).uploadSession = true) :
    (w.pauseAllUploads net).session p = pauseUpload (w.session p) := by
  have hWF : (w.changeSessions fun _ xfr => pauseUpload xfr).WellFormed := ⟨h.nodup, h.length_lt⟩
  have hNew : (w.changeSessions fun _ xfr => pauseUpload xfr).session p = pauseUpload (w.session p) := if_pos hp
  rw [pauseAllUploads, dequeueBoth_session hWF net, hNew]
  rw [hNew, pauseUpload, if_pos hUpload]

theorem pauseAllUploads_other (h : w.WellFormed) (net : Network)
    (hOther : p ∉ w.transferList ∨ (w.session p).uploadSession = false) :
    ((w.pauseAllUploads net).session p).beginTransferEnabled = (w.session p).beginTransferEnabled ∧
      ((w.pauseAllUploads net).session p).uploadSession = (w.session p).uploadSession := by
  have hWF : (w.changeSessions fun _ xfr => pauseUpload xfr).WellFormed := ⟨h.nodup, h.length_lt⟩
  have hSame : (w.changeSessions fun _ xfr => pauseUpload xfr).session p = w.session p := by
    unfold changeSessions
    dsimp only
    split
    · rename_i hp
      rw [pauseUpload, if_neg (by simpa [hp] using hOther)]
    · rfl
  rw [pauseAllUploads, dequeueBoth_beginTransferEnabled hWF, dequeueBoth_uploadSession hWF, hSame]
  exact ⟨rfl, rfl⟩

/-- After the sort all uploads of the list may begin. The rest of the sessions may begin as before. -/
theorem sortUploads_beginTransferEnabled (h : w.WellFormed) (net : Network) (hSort : w.sortList ≠ w.origList)
    (p : Nat) : ((w.sortUploads net).session p).beginTransferEnabled =
      if p ∈ w.transferList ∧ (w.session p).uploadSession = true then true
      else (w.session p).beginTransferEnabled := by
  have hCounted : { w with dequeueCount := w.dequeueCount + 1 }.WellFormed := ⟨h.nodup, h.length_lt⟩
  have hUpload := pauseAllUploads_upload (p := p) hCounted net
  have hOther := pauseAllUploads_other (p := p) hCounted net
  rw [sortUploads, if_neg hSort]
  generalize { w with dequeueCount := w.dequeueCount + 1 }.pauseAllUploads net = paused at hUpload hOther
  have hSorted : (changeSessions { paused with transferList := w.sortedTransfers } fun p xfr =>
      resumeUpload (net.uploadFails p) (net.connects p) xfr).WellFormed := by
    refine ⟨w.sortedTransfers_perm.nodup_iff.mpr h.nodup, ?_⟩
    rw [changeSessions, w.sortedTransfers_perm.length_eq]
    exact h.length_lt
  show ((dequeueBoth net _).session p).beginTransferEnabled = _
  rw [dequeueBoth_beginTransferEnabled hSorted]
  have hMem : p ∈ w.sortedTransfers ↔ p ∈ w.transferList := w.sortedTransfers_perm.mem_iff
  unfold changeSessions
  dsimp only
  by_cases hp : p ∈ w.transferList
  · rw [if_pos (hMem.mpr hp)]
    cases hIsUpload : (w.session p).uploadSession
    · obtain ⟨hEnabled, hDirection⟩ := hOther (.inr hIsUpload)
      rw [if_neg (by simp), ← hEnabled, resumeUpload, hDirection, hIsUpload, Bool.false_and,
        if_neg Bool.false_ne_true]
    · rw [if_pos ⟨hp, rfl⟩, hUpload hp hIsUpload]
      exact resumeUpload_pauseUpload hIsUpload
  · rw [if_neg (fun hNow => hp (hMem.mp hNow)), if_neg (fun hBoth => hp hBoth.1), (hOther (.inl hp)).1]

/-! ### The sort -/

/-- What the sort must keep, and the order that it must make. -/
structure SortsUploads (w w' : ShareWindow) : Prop where
  perm : w'.transferList.Perm w.transferList
  /-- Downloads and transfers at their end stay where they are. -/
  stays : ∀ (i : Nat) (p : Nat), w.transferList[i]? = some p →
    (w.session p).uploadSession = false ∨ (w.session p).isFinished = true ∨ (w.session p).errorOccurred = true →
    w'.transferList[i]? = some p
  /-- A place of an upload takes an upload. -/
  places : ∀ i : Nat, ∀ p ∈ w.origList, w.transferList[i]? = some p →
    ∃ q ∈ w.origList, w'.transferList[i]? = some q
  ordered : w.dequeueCount = 0 → w.shortestUploadsFirst = true →
    (w'.transferList.filter fun p => p ∈ w.origList).Pairwise fun p q => w.sortKey p ≤ w.sortKey q
  paused : ∀ p, (w'.session p).beginTransferEnabled = (w.session p).beginTransferEnabled

/-- No upload of the list is paused. -/
def NonePaused (w : ShareWindow) : Prop :=
  ∀ p ∈ w.transferList, (w.session p).uploadSession = true → (w.session p).beginTransferEnabled = true

theorem sortsUploads_self (hOrdered : w.dequeueCount = 0 → w.shortestUploadsFirst = true →
    w.origList.Pairwise fun p q => w.sortKey p ≤ w.sortKey q) : SortsUploads w w := by
  refine ⟨List.Perm.refl _, fun i p hPlace _ => hPlace, fun i p hp hPlace => ⟨p, hp, hPlace⟩, ?_, fun p => rfl⟩
  rw [filter_mem_origList]
  exact hOrdered

theorem sortUploads_transferList (h : w.WellFormed) (net : Network) (hSort : w.sortList ≠ w.origList) :
    (w.sortUploads net).transferList = w.sortedTransfers := by
  have hSorted : (changeSessions { { w with dequeueCount := w.dequeueCount + 1 }.pauseAllUploads net with
      transferList := w.sortedTransfers } fun p xfr =>
        resumeUpload (net.uploadFails p) (net.connects p) xfr).WellFormed := by
    refine ⟨w.sortedTransfers_perm.nodup_iff.mpr h.nodup, ?_⟩
    rw [changeSessions, w.sortedTransfers_perm.length_eq]
    exact h.length_lt
  rw [sortUploads, if_neg hSort]
  exact dequeueBoth_transferList hSorted net

/-- The list is sorted as it should be. -/
theorem sortUploads_sortsUploads (h : w.WellFormed) (hSort : w.sortList ≠ w.origList) (hPaused : w.NonePaused) :
    SortsUploads w (w.sortUploads net) := by
  have hList := sortUploads_transferList h net hSort
  refine ⟨?_, fun i p hPlace hNot => ?_, fun i p hp hPlace => ?_, fun _ _ => ?_, fun p => ?_⟩
  · rw [hList]
    exact w.sortedTransfers_perm
  · rw [hList]
    refine replaceItems_stays sortList_length hPlace fun hp => ?_
    have hBoth := (List.mem_filter.mp (mem_sortList.mp hp)).2
    rcases hNot with hDownload | hFinished | hError
    · simp [hDownload] at hBoth
    · simp [hFinished] at hBoth
    · simp [hError] at hBoth
  · rw [hList]
    obtain ⟨q, hq, hTaken⟩ := replaceItems_place sortList_length hPlace (mem_sortList.mpr hp)
    exact ⟨q, mem_sortList.mp hq, hTaken⟩
  · rw [hList, ← filter_mem_sortList, sortedTransfers, replaceItems_filter (fun p hp => hp) sortList_length]
    exact w.sortList_pairwise
  · rw [sortUploads_beginTransferEnabled h net hSort]
    split
    · rename_i hBoth
      exact (hPaused p hBoth.1 hBoth.2).symm
    · rfl

/-- The sort does what it should exactly if it does not happen, or there is nothing to change, or the user has paused
no upload. -/
theorem beforeScans_sortsUploads_iff (net : Network) (w : ShareWindow) (h : w.WellFormed) :
    SortsUploads w (w.beforeScans net) ↔
      ¬(w.dequeueCount = 0 ∧ w.shortestUploadsFirst = true) ∨
        (w.origList.Pairwise fun p q => w.sortKey p ≤ w.sortKey q) ∨ w.NonePaused := by
  by_cases hMade : w.dequeueCount = 0 ∧ w.shortestUploadsFirst = true
  · rw [beforeScans, if_pos hMade]
    by_cases hSort : w.sortList = w.origList
    · have hOrdered := sortList_eq_iff.mp hSort
      rw [sortUploads, if_pos hSort]
      exact ⟨fun _ => .inr (.inl hOrdered), fun _ => sortsUploads_self fun _ _ => hOrdered⟩
    · refine ⟨fun hKept => .inr (.inr fun p hp hUpload => ?_), ?_⟩
      · rw [← hKept.paused p, sortUploads_beginTransferEnabled h net hSort, if_pos ⟨hp, hUpload⟩]
      · rintro (hNot | hOrdered | hPaused)
        · exact absurd hMade hNot
        · exact absurd (sortList_eq_iff.mpr hOrdered) hSort
        · exact sortUploads_sortsUploads h hSort hPaused
  · rw [beforeScans, if_neg hMade]
    exact ⟨fun _ => .inl hMade, fun _ => sortsUploads_self fun hCount hMarked => absurd ⟨hCount, hMarked⟩ hMade⟩

/-- Two uploads wait. The first one is larger, and the user has paused it. -/
def largerPaused : ShareWindow :=
  { pausedFirst with
    session := fun p => { pausedFirst.session p with numBytesLeft := if p = 0 then 2000 else 1000 }
    shortestUploadsFirst := true }

/-- The upload is not paused anymore. -/
theorem largerPaused_resumed : largerPaused.WellFormed ∧
    ¬SortsUploads largerPaused (largerPaused.beforeScans workingNetwork) := by
  have hWF : largerPaused.WellFormed := ⟨by decide, by decide⟩
  have hMade : largerPaused.dequeueCount = 0 ∧ largerPaused.shortestUploadsFirst = true := by decide
  have hSort : largerPaused.sortList ≠ largerPaused.origList := by
    intro hSame
    have hOrdered := sortList_eq_iff.mp hSame
    revert hOrdered
    decide
  refine ⟨hWF, fun h => ?_⟩
  have hPaused := h.paused 0
  rw [beforeScans, if_pos hMade, sortUploads_beginTransferEnabled hWF workingNetwork hSort] at hPaused
  revert hPaused
  decide

theorem beforeScans_sortsUploads_iff_largerPaused :
    SortsUploads largerPaused (largerPaused.beforeScans workingNetwork) ↔
      ¬(largerPaused.dequeueCount = 0 ∧ largerPaused.shortestUploadsFirst = true) ∨
        (largerPaused.origList.Pairwise fun p q => largerPaused.sortKey p ≤ largerPaused.sortKey q) ∨
        largerPaused.NonePaused :=
  beforeScans_sortsUploads_iff workingNetwork largerPaused ⟨by decide, by decide⟩

end ShareWindow

end BeShare.Client
