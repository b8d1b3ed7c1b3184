import BeShare.Client.Shares
import BeShare.Lib.Runs

/-!
The index of the shared files counts, for each name, the nodes that are recorded with it, as long as no node is recorded
twice and no entry is left without the node that it refers to.
-/

namespace BeShare.Client

open BeShare.Lib

namespace ShareNetClient

variable {net : Transceiver} {files : FileSystem} {c c' c'' : ShareNetClient} {node : NodeRef} {ref : EntryRef}

/-! ### The invariant -/

/-- How many nodes are recorded with a name. -/
def recorded (c : ShareNetClient) (name : List Char) : Nat :=
  (c.nodeToEntry.entries.filter fun s => decide (s.2.name = name)).length

/-- The name's entry counts the nodes that are recorded with it, and refers to one of them. Without an entry there are
none. -/
def NameConsistent (c : ShareNetClient) (name : List Char) : Prop :=
  match c.nameToEntry.lookup name with
  | some r => r.count = c.recorded name ∧ ∃ node, c.nodeToEntry.lookup node = some r.ref ∧ r.ref.name = name
  | none => c.recorded name = 0

def IndexConsistent (c : ShareNetClient) : Prop := ∀ name, c.NameConsistent name

/-- What is to be recorded is not recorded yet. -/
def Unrecorded (c : ShareNetClient) (node : NodeRef) : Prop := c.nodeToEntry.lookup node = none

/-- If the node is recorded, it is the last one with its name, or the name's entry refers to another one. -/
def Removable (c : ShareNetClient) (node : NodeRef) : Prop :=
  ∀ ref, c.nodeToEntry.lookup node = some ref → ∀ r, c.nameToEntry.lookup ref.name = some r →
    r.count = 1 ∨ ∃ other, other ≠ node ∧ c.nodeToEntry.lookup other = some r.ref

/-- The index is what it was, and the connection. -/
structure SameIndex (c c' : ShareNetClient) : Prop where
  connected : c'.connected = c.connected
  nodes : c'.nodeToEntry = c.nodeToEntry
  names : c'.nameToEntry = c.nameToEntry

theorem SameIndex.refl (c : ShareNetClient) : SameIndex c c := ⟨rfl, rfl, rfl⟩

theorem SameIndex.trans (h : SameIndex c c') (h' : SameIndex c' c'') : SameIndex c c'' :=
  ⟨h'.connected.trans h.connected, h'.nodes.trans h.nodes, h'.names.trans h.names⟩

/-- The client is connected, and its index consistent. -/
structure Indexed (c : ShareNetClient) : Prop where
  connected : c.connected = true
  consistent : c.IndexConsistent

theorem nameConsistent_of_entry {name : List Char} {r : CountedEntryRef} (hEntry : c.nameToEntry.lookup name = some r)
    (hCount : r.count = c.recorded name)
    (hRef : ∃ node, c.nodeToEntry.lookup node = some r.ref ∧ r.ref.name = name) : c.NameConsistent name := by
  unfold NameConsistent
  rw [hEntry]
  exact ⟨hCount, hRef⟩

theorem nameConsistent_of_none {name : List Char} (hEntry : c.nameToEntry.lookup name = none)
    (hCount : c.recorded name = 0) : c.NameConsistent name := by
  unfold NameConsistent
  rw [hEntry]
  exact hCount

/-- A name whose entry and whose nodes are what they were. -/
theorem NameConsistent.congr {name : List Char} (h : c.NameConsistent name)
    (hEntry : c'.nameToEntry.lookup name = c.nameToEntry.lookup name) (hCount : c'.recorded name = c.recorded name)
    (hNodes : ∀ node ref, ref.name = name → c.nodeToEntry.lookup node = some ref →
      c'.nodeToEntry.lookup node = some ref) : c'.NameConsistent name := by
  unfold NameConsistent at h ⊢
  rw [hEntry, hCount]
  split at h
  next r _ =>
    obtain ⟨hSame, node, hNode, hName⟩ := h
    exact ⟨hSame, node, hNodes node r.ref hName hNode, hName⟩
  next => exact h

theorem SameIndex.indexed (h : SameIndex c c') (hIndexed : c.Indexed) : c'.Indexed := by
  refine ⟨h.connected.trans hIndexed.connected, fun name => (hIndexed.consistent name).congr ?_ ?_ ?_⟩
  · rw [h.names]
  · unfold recorded
    rw [h.nodes]
  · intro node ref _ hNode
    rw [h.nodes, hNode]

/-! ### What leaves the index alone -/

theorem sameIndex_checkSend (c : ShareNetClient) : SameIndex c (c.checkSendMoreLowPriorityMessages net) := by
  unfold checkSendMoreLowPriorityMessages
  split
  · exact ⟨rfl, rfl, rfl⟩
  · exact .refl c

theorem sameIndex_send (c : ShareNetClient) (message : FileMessage) (highPriority : Bool) :
    SameIndex c (c.sendMessageToSessions net message highPriority) := by
  unfold sendMessageToSessions
  split
  · split
    · exact ⟨rfl, rfl, rfl⟩
    · obtain ⟨hConnected, hNodes, hNames⟩ := @sameIndex_checkSend net
        { c with lowPriorityMessages := c.lowPriorityMessages ++ [message] }
      exact ⟨hConnected, hNodes, hNames⟩
  · exact .refl c

theorem sameIndex_endRemoveBatch (c : ShareNetClient) : SameIndex c (c.endRemoveBatch net) := by
  unfold endRemoveBatch
  dsimp only
  split
  next keys _ =>
    split
    · obtain ⟨hConnected, hNodes, hNames⟩ := @sameIndex_send net
        { c with nodeRemoveBatchCount := c.nodeRemoveBatchCount - 1 } (.removeData keys) false
      exact ⟨hConnected, hNodes, hNames⟩
    · exact ⟨rfl, rfl, rfl⟩
  next => exact ⟨rfl, rfl, rfl⟩

theorem sameIndex_unwatch (c : ShareNetClient) (node : NodeRef) (ref : EntryRef) :
    SameIndex c (c.unwatch files node ref).1 := by
  unfold unwatch
  dsimp only
  split <;> exact ⟨rfl, rfl, rfl⟩

/-! ### Recording and forgetting -/

theorem recorded_insert (hNew : c.Unrecorded node) (name : List Char) :
    ({ c with nodeToEntry := c.nodeToEntry.insert node ref } : ShareNetClient).recorded name =
      (if ref.name = name then 1 else 0) + c.recorded name := by
  unfold recorded
  dsimp only
  rw [AList.entries_insert_of_notMem (AList.lookup_eq_none.mp hNew), List.filter_cons]
  split
  next hName =>
    rw [if_pos (of_decide_eq_true hName), List.length_cons, Nat.add_comm]
  next hName =>
    rw [if_neg (fun hSame => hName (decide_eq_true hSame)), Nat.zero_add]

theorem recorded_erase (hThere : c.nodeToEntry.lookup node = some ref) (name : List Char) :
    c.recorded name = (if ref.name = name then 1 else 0) +
      ({ c with nodeToEntry := c.nodeToEntry.erase node } : ShareNetClient).recorded name := by
  obtain ⟨ref', before, behind, -, hAll, hRest⟩ := List.exists_of_kerase
    (AList.mem_keys.mp (AList.lookup_isSome.mp (by rw [hThere]; rfl)))
  have hIn : (⟨node, ref'⟩ : Sigma fun _ : NodeRef => EntryRef) ∈ c.nodeToEntry.entries := by
    rw [hAll]
    exact List.mem_append_right _ (List.mem_cons_self ..)
  have hSame : ref' = ref := by
    have hLookup := AList.mem_lookup_iff.mpr hIn
    rw [hThere] at hLookup
    exact (Option.some.inj hLookup).symm
  subst hSame
  show (c.nodeToEntry.entries.filter _).length = _ + ((c.nodeToEntry.entries.kerase node).filter _).length
  rw [hRest, hAll]
  by_cases hName : ref'.name = name
  · simp [hName]
    omega
  · simp [hName]

/-- A node that is not recorded yet is recorded. -/
theorem indexed_recordFile (h : c.Indexed) (hNew : c.Unrecorded node) (fileSize : Int) :
    (c.recordFile node ref fileSize).Indexed := by
  have hOthers : ∀ other r, c.nodeToEntry.lookup other = some r →
      (c.nodeToEntry.insert node ref).lookup other = some r := by
    intro other r hThere
    rw [AList.lookup_insert_ne (fun hSame => by rw [hSame, hNew] at hThere; cases hThere), hThere]
  have hOther : ∀ name names, name ≠ ref.name → names.lookup name = c.nameToEntry.lookup name →
      ({ c with nameToEntry := names, nodeToEntry := c.nodeToEntry.insert node ref } : ShareNetClient).NameConsistent
        name := by
    intro name names hName hEntry
    refine (h.consistent name).congr hEntry ?_ fun other r _ => hOthers other r
    exact (recorded_insert hNew name).trans (by rw [if_neg (Ne.symm hName), Nat.zero_add])
  have hCount := @recorded_insert c node ref hNew ref.name
  rw [if_pos rfl] at hCount
  have hHere := h.consistent ref.name
  unfold recordFile refFilename
  cases hEntry : c.nameToEntry.lookup ref.name with
  | some r =>
    unfold NameConsistent at hHere
    rw [hEntry] at hHere
    obtain ⟨hSame, other, hThere, hName⟩ := hHere
    refine ⟨h.connected, fun name => ?_⟩
    by_cases hNames : name = ref.name
    · subst hNames
      refine nameConsistent_of_entry (AList.lookup_insert _) ?_ ⟨other, hOthers _ _ hThere, hName⟩
      show r.count + 1 =
        (({ c with nodeToEntry := c.nodeToEntry.insert node ref } : ShareNetClient).recorded ref.name : Int)
      omega
    · exact hOther name _ hNames (AList.lookup_insert_ne hNames)
  | none =>
    unfold NameConsistent at hHere
    rw [hEntry] at hHere
    refine ⟨h.connected, fun name => ?_⟩
    by_cases hNames : name = ref.name
    · subst hNames
      refine nameConsistent_of_entry (AList.lookup_insert _) ?_ ⟨node, AList.lookup_insert _, rfl⟩
      show 1 = (({ c with nodeToEntry := c.nodeToEntry.insert node ref } : ShareNetClient).recorded ref.name : Int)
      omega
    · exact hOther name _ hNames (AList.lookup_insert_ne hNames)

/-- A node is forgotten, and its name counted down. -/
theorem indexed_unrefFilename (h : c.Indexed) (hThere : c.nodeToEntry.lookup node = some ref)
    (hRemovable : c.Removable node) :
    (({ c with nodeToEntry := c.nodeToEntry.erase node } : ShareNetClient).unrefFilename ref.name).Indexed := by
  have hOthers : ∀ other r, other ≠ node → c.nodeToEntry.lookup other = some r →
      (c.nodeToEntry.erase node).lookup other = some r := by
    intro other r hOther hNode
    rw [AList.lookup_erase_ne hOther, hNode]
  have hOther : ∀ name names, name ≠ ref.name → names.lookup name = c.nameToEntry.lookup name →
      ({ c with nameToEntry := names, nodeToEntry := c.nodeToEntry.erase node } : ShareNetClient).NameConsistent
        name := by
    intro name names hName hEntry
    refine (h.consistent name).congr hEntry ?_ fun other r hNamed hNode => hOthers other r ?_ hNode
    · refine ((recorded_erase hThere name).trans ?_).symm
      rw [if_neg (Ne.symm hName), Nat.zero_add]
      rfl
    · rintro rfl
      rw [hThere] at hNode
      cases hNode
      exact hName hNamed.symm
  have hCount := recorded_erase hThere ref.name
  rw [if_pos rfl] at hCount
  have hHere := h.consistent ref.name
  unfold NameConsistent at hHere
  split at hHere
  next r hEntry =>
    obtain ⟨hSame, -, -, hNamed⟩ := hHere
    unfold unrefFilename
    dsimp only
    rw [hEntry]
    dsimp only
    split
    next hLast =>
      refine ⟨h.connected, fun name => ?_⟩
      by_cases hNames : name = ref.name
      · subst hNames
        refine nameConsistent_of_none (AList.lookup_erase ..) ?_
        show ({ c with nodeToEntry := c.nodeToEntry.erase node } : ShareNetClient).recorded ref.name = 0
        omega
      · exact hOther name _ hNames (AList.lookup_erase_ne hNames)
    next hMore =>
      refine ⟨h.connected, fun name => ?_⟩
      by_cases hNames : name = ref.name
      · subst hNames
        rcases hRemovable ref hThere r hEntry with hOne | ⟨other, hNot, hNode⟩
        · omega
        · refine nameConsistent_of_entry (AList.lookup_insert _) ?_ ⟨other, hOthers _ _ hNot hNode, ?_⟩
          · show r.count - 1 =
              (({ c with nodeToEntry := c.nodeToEntry.erase node } : ShareNetClient).recorded ref.name : Int)
            omega
          · exact hNamed
      · exact hOther name _ hNames (AList.lookup_insert_ne hNames)
  next hEntry => omega

theorem indexed_forgetFile (h : c.Indexed) (hRemovable : c.Removable node) : (c.forgetFile net node).Indexed := by
  unfold forgetFile
  split
  next ref hThere =>
    have hUnref := indexed_unrefFilename h hThere hRemovable
    dsimp only
    rw [if_pos h.connected]
    split
    · refine SameIndex.indexed ?_ hUnref
      obtain ⟨hConnected, hNodes, hNames⟩ := @sameIndex_send net _ (.removeData _) false
      exact ⟨hConnected, hNodes, hNames⟩
    · refine SameIndex.indexed ?_ hUnref
      exact ⟨rfl, rfl, rfl⟩
  next => exact h

/-! ### Removals -/

variable (net files)

/-- All nodes that a removal forgets can be removed when their turn comes. -/
def RemovalFits : Nat → ShareNetClient → NodeRef → Prop
  | levels, c, node =>
    match c.watchedDirs.lookup node with
    | some ref =>
      match levels, c.unwatch files node ref with
      | levels + 1, (c, some entries) =>
        AllSteps (RemovalFits levels) (nodeRemovedAt net files levels) entries c.beginRemoveBatch
      | _, _ => True
    | none => c.Removable node

variable {net files}

theorem indexed_nodeRemovedAt {levels : Nat} (h : c.Indexed) (hFits : RemovalFits net files levels c node) :
    (nodeRemovedAt net files levels c node).Indexed := by
  induction levels generalizing c node with
  | zero =>
    unfold nodeRemovedAt
    unfold RemovalFits at hFits
    split
    next ref hWatched =>
      split
      next hLevels _ => cases hLevels
      next hOpen _ =>
        have hUnwatched := (@sameIndex_unwatch files c node ref).indexed h
        rw [hOpen] at hUnwatched
        exact hUnwatched
    next hNone =>
      rw [hNone] at hFits
      exact indexed_forgetFile h hFits
  | succ levels ih =>
    unfold nodeRemovedAt
    unfold RemovalFits at hFits
    split
    next ref hWatched =>
      rw [hWatched] at hFits
      have hUnwatched := (@sameIndex_unwatch files c node ref).indexed h
      split
      next opened entries hLevels hOpen =>
        cases hLevels
        dsimp only at hFits
        rw [hOpen] at hFits hUnwatched
        have hBegun : opened.beginRemoveBatch.Indexed := by
          refine SameIndex.indexed ?_ hUnwatched
          exact ⟨rfl, rfl, rfl⟩
        exact (sameIndex_endRemoveBatch _).indexed (foldl_keeps (fun _ _ => ih) hFits hBegun)
      next hOpen _ =>
        rw [hOpen] at hUnwatched
        exact hUnwatched
    next hNone =>
      rw [hNone] at hFits
      exact indexed_forgetFile h hFits

/-! ### Scans -/

/-- A file that is not passed over is not recorded yet. -/
def FileFits (c : ShareNetClient) (diffsOnly : Bool) (ref : EntryRef) (info : Option (NodeRef × Int)) : Prop :=
  (diffsOnly && (c.nameToEntry.lookup ref.name).isSome) = false → ∀ found ∈ info, c.Unrecorded found.1

variable (net)

mutual

/-- All files that a scan records are not recorded yet when their turn comes. -/
def ScanFits (diffsOnly : Bool) : Found → ShareNetClient → Prop
  | .directory ref dirNode realDirNode watchable entries, c =>
    c.watches diffsOnly ref dirNode watchable = true →
      EntriesFit diffsOnly entries [] (c.watch ref dirNode realDirNode)
  | _, _ => True

def EntriesFit (diffsOnly : Bool) : List Found → List (List Char) → ShareNetClient → Prop
  | [], _, _ => True
  | found :: rest, uploadMsg, c =>
    match found with
    | .file ref info =>
      c.FileFits diffsOnly ref info ∧
        EntriesFit diffsOnly rest (c.scanFile net diffsOnly ref info uploadMsg).1
          (c.scanFile net diffsOnly ref info uploadMsg).2
    | _ => ScanFits diffsOnly found c ∧ EntriesFit diffsOnly rest uploadMsg (addWatchedDirectory net diffsOnly found c)

end

variable {net}

theorem indexed_scanFile (h : c.Indexed) {diffsOnly : Bool} {info : Option (NodeRef × Int)}
    (hFits : c.FileFits diffsOnly ref info) (uploadMsg : List (List Char)) :
    (c.scanFile net diffsOnly ref info uploadMsg).2.Indexed := by
  unfold scanFile
  cases info with
  | none => exact h
  | some found =>
    obtain ⟨node, fileSize⟩ := found
    dsimp only
    split
    next => exact h
    next hNotPassed =>
      have hRecorded := @indexed_recordFile c node ref h (hFits (Bool.eq_false_iff.mpr hNotPassed) _ rfl) fileSize
      split
      · exact (sameIndex_send ..).indexed hRecorded
      · exact hRecorded

mutual

theorem indexed_addWatchedDirectory (diffsOnly : Bool) : (found : Found) → (c : ShareNetClient) → c.Indexed →
    ScanFits net diffsOnly found c → (addWatchedDirectory net diffsOnly found c).Indexed
  | .directory ref dirNode realDirNode watchable entries, c, h, hFits => by
    unfold addWatchedDirectory
    unfold ScanFits at hFits
    split
    next hWatches =>
      refine indexed_scanEntries diffsOnly entries [] _ ?_ (hFits hWatches)
      refine SameIndex.indexed ?_ h
      exact ⟨rfl, rfl, rfl⟩
    next => exact h
  | .file .., c, h, _ => by
    unfold addWatchedDirectory
    exact h
  | .unreadable, c, h, _ => by
    unfold addWatchedDirectory
    exact h

theorem indexed_scanEntries (diffsOnly : Bool) : (entries : List Found) → (uploadMsg : List (List Char)) →
    (c : ShareNetClient) → c.Indexed → EntriesFit net diffsOnly entries uploadMsg c →
      (scanEntries net diffsOnly entries uploadMsg c).Indexed
  | [], uploadMsg, c, h, _ => by
    unfold scanEntries
    split
    · exact h
    · exact (sameIndex_send ..).indexed h
  | .file ref info :: rest, uploadMsg, c, h, hFits => by
    unfold scanEntries
    unfold EntriesFit at hFits
    exact indexed_scanEntries diffsOnly rest _ _ (indexed_scanFile h hFits.1 uploadMsg) hFits.2
  | .directory ref dirNode realDirNode watchable entries :: rest, uploadMsg, c, h, hFits => by
    unfold scanEntries
    unfold EntriesFit at hFits
    exact indexed_scanEntries diffsOnly rest _ _ (indexed_addWatchedDirectory diffsOnly _ c h hFits.1) hFits.2
  | .unreadable :: rest, uploadMsg, c, h, hFits => by
    unfold scanEntries
    unfold EntriesFit at hFits
    exact indexed_scanEntries diffsOnly rest _ _ (indexed_addWatchedDirectory diffsOnly _ c h hFits.1) hFits.2

end

/-! ### Events -/

variable (net)

def CreationFits (c : ShareNetClient) (node parent : NodeRef) (found : Found) : Prop :=
  (c.watchedDirs.lookup parent).isSome = true →
    match found with
    | .directory dirRef _ realDirNode watchable entries =>
      ScanFits net false (.directory dirRef node realDirNode watchable entries) c
    | .file _ (some _) => c.Unrecorded node
    | _ => True

/-- A node that is looked up fits if it is to be removed. -/
def CheckFits (files : FileSystem) (c : ShareNetClient) (node : NodeRef) : Prop :=
  ∀ ref, c.nodeToEntry.lookup node = some ref → files.fileExists ref = false →
    RemovalFits net files c.watchedDirs.entries.length c node

/-- What an event records is not recorded yet, and what it forgets can be removed, when its turn comes. -/
def EventFits (c : ShareNetClient) : ShareEvent → Prop
  | .scanned files checkRemoves checkAdds nodes share =>
    (checkRemoves = true → AllSteps (CheckFits net files) (checkRemoved net files) nodes c.beginRemoveBatch) ∧
      ((!checkRemoves || checkAdds) = true → ScanFits net checkAdds share
        (if checkRemoves then endRemoveBatch net (nodes.foldl (checkRemoved net files) c.beginRemoveBatch) else c))
  | .created node _ parent found => c.CreationFits net node parent found
  | .removed files node => RemovalFits net files c.watchedDirs.entries.length c node
  | .moved files node _ toDir parent found =>
    RemovalFits net files c.watchedDirs.entries.length c node ∧
      ((c.watchedDirs.lookup toDir).isSome = true → (c.nodeRemoved net files node).CreationFits net node parent found)
  | .drained => True
  | .sharingRemoved => True

variable {net}

theorem indexed_nodeCreated (h : c.Indexed) {parent : NodeRef} {found : Found}
    (hFits : c.CreationFits net node parent found) : (c.nodeCreated net node ref parent found).Indexed := by
  unfold nodeCreated
  split
  next hParent =>
    have hFound := hFits hParent
    split
    next => exact indexed_addWatchedDirectory false _ c h hFound
    next => exact (sameIndex_send ..).indexed (indexed_recordFile h hFound _)
    next => exact h
  next => exact h

theorem indexed_checkRemoved (h : c.Indexed) (hFits : c.CheckFits net files node) :
    (c.checkRemoved net files node).Indexed := by
  unfold checkRemoved
  split
  next ref hThere =>
    split
    next => exact h
    next hGone => exact indexed_nodeRemovedAt h (hFits ref hThere (Bool.eq_false_iff.mpr hGone))
  next => exact h

theorem indexed_step (h : c.Indexed) {event : ShareEvent} (hFits : c.EventFits net event) :
    (c.step net event).Indexed := by
  cases event with
  | scanned files checkRemoves checkAdds nodes share =>
    obtain ⟨hRemoves, hAdds⟩ := hFits
    have hChecked : (if checkRemoves = true then
        endRemoveBatch net (nodes.foldl (checkRemoved net files) c.beginRemoveBatch) else c).Indexed := by
      split
      next hRemove =>
        refine (sameIndex_endRemoveBatch _).indexed
          (foldl_keeps (fun _ _ => indexed_checkRemoved) (hRemoves hRemove) ?_)
        refine SameIndex.indexed ?_ h
        exact ⟨rfl, rfl, rfl⟩
      next => exact h
    show (scanSharesThread ..).Indexed
    unfold scanSharesThread
    dsimp only
    split
    next hAdd => exact indexed_addWatchedDirectory checkAdds share _ hChecked (hAdds hAdd)
    next => exact hChecked
  | created node ref parent found => exact indexed_nodeCreated h hFits
  | removed files node => exact indexed_nodeRemovedAt h hFits
  | moved files node ref toDir parent found =>
    have hRemoved := indexed_nodeRemovedAt h hFits.1
    show (nodeMoved ..).Indexed
    unfold nodeMoved
    dsimp only
    split
    next hWatched => exact indexed_nodeCreated hRemoved (hFits.2 hWatched)
    next => exact hRemoved
  | drained =>
    refine (sameIndex_checkSend _).indexed (SameIndex.indexed ?_ h)
    exact ⟨rfl, rfl, rfl⟩
  | sharingRemoved =>
    show (removeFileSharing c).Indexed
    unfold removeFileSharing
    rw [if_pos h.connected]
    exact ⟨h.connected, fun name => nameConsistent_of_none rfl rfl⟩

theorem indexed_start (filesNodePath : List Char) (settingsDir : EntryRef) :
    (start filesNodePath settingsDir).Indexed :=
  ⟨rfl, fun _ => nameConsistent_of_none rfl rfl⟩

/-- The index is consistent after each event, as long as no node is recorded twice, and none is forgotten that an entry
of other nodes, too, refers to. -/
theorem share_index (net : Transceiver) (filesNodePath : List Char) (settingsDir : EntryRef) (events : List ShareEvent)
    (hFits : AllSteps (EventFits net) (step net) events (start filesNodePath settingsDir)) :
    ((start filesNodePath settingsDir).run net events).IndexConsistent :=
  (foldl_keeps (P := Indexed) (fun _ _ h => indexed_step h) hFits (indexed_start filesNodePath settingsDir)).consistent

/-! ### Two directories with a file of the same name -/

def plainTransceiver : Transceiver := ⟨fun _ => 100, true⟩

def noFiles : FileSystem := ⟨fun _ => false, fun _ _ => none⟩

def sharedDir : NodeRef := ⟨1, 10⟩

/-- The file in the shared directory itself. -/
def songRef : EntryRef := ⟨1, 10, ['s']⟩

/-- The one in a directory below. -/
def otherSongRef : EntryRef := ⟨1, 11, ['s']⟩

def sharedFiles : Found :=
  .directory ⟨1, 1, ['d']⟩ sharedDir sharedDir true
    [.file songRef (some (⟨1, 20⟩, 5)),
      .directory ⟨1, 10, ['e']⟩ ⟨1, 11⟩ ⟨1, 11⟩ true [.file otherSongRef (some (⟨1, 21⟩, 7))]]

/-- Both are found, and then the one is deleted that the entry does not refer to. -/
def secondDeleted : List ShareEvent := [.scanned noFiles false false [] sharedFiles, .removed noFiles ⟨1, 21⟩]

theorem share_index_secondDeleted :
    ((start ['f'] ⟨1, 2, ['p']⟩).run plainTransceiver secondDeleted).IndexConsistent := by
  refine share_index plainTransceiver ['f'] ⟨1, 2, ['p']⟩ secondDeleted
    ⟨⟨fun hNo => (by cases hNo), fun _ _ =>
      ⟨fun _ found hIn => ?_, fun _ => ⟨fun _ found hIn => ?_, trivial⟩, trivial⟩⟩,
      fun ref hThere r hEntry => .inr ⟨⟨1, 20⟩, by decide, ?_⟩, trivial⟩
  · cases hIn
    rfl
  · cases hIn
    show AList.lookup _ _ = none
    decide +kernel
  · have hRef : otherSongRef = ref := Option.some.inj ((by decide +kernel : _ = some otherSongRef).symm.trans hThere)
    subst hRef
    have hSong : (⟨songRef, 2, 5⟩ : CountedEntryRef) = r :=
      Option.some.inj ((by decide +kernel : _ = some (⟨songRef, 2, 5⟩ : CountedEntryRef)).symm.trans hEntry)
    subst hSong
    decide +kernel

/-- The node monitor reports a file that the scan has found: one node is recorded, and counted twice. -/
theorem reportedTwice_not_consistent :
    ¬((start ['f'] ⟨1, 2, ['p']⟩).run plainTransceiver
      [.scanned noFiles false false [] sharedFiles,
        .created ⟨1, 20⟩ songRef sharedDir (.file songRef (some (⟨1, 20⟩, 5)))]).IndexConsistent := by
  intro h
  have hName := h ['s']
  generalize hRun : (start ['f'] ⟨1, 2, ['p']⟩).run plainTransceiver _ = c at hName
  have hEntry : c.nameToEntry.lookup ['s'] = some ⟨songRef, 3, 5⟩ := by
    rw [← hRun]
    decide +kernel
  have hCount : c.recorded ['s'] = 2 := by
    rw [← hRun]
    decide +kernel
  unfold NameConsistent at hName
  rw [hEntry, hCount] at hName
  exact absurd hName.1 (by decide)

end ShareNetClient

end BeShare.Client
