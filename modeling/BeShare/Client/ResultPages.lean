import BeShare.Client.ServerUpdates
import BeShare.Lib.Runs
import Mathlib.Algebra.BigOperators.Group.List.Basic
import Mathlib.Data.List.GetD
import Mathlib.Data.UInt

/-!
The pages that the results of a query are shown on: the messages of the server put items into the list of what is to be
added and take items out, and the end of a batch fills the pages. The items in the lists and pages are pointers.
-/

namespace BeShare.Client.ResultPages

open BeShare.Lib
open BeShare.Muscle.Reflect (Str Path)
open BeShare.Client.ServerUpdates (Reader Results Settings)

abbrev Pointer := Nat

/-- `new` gives an address that no object has. -/
structure Allocator where
  new : List Pointer → Pointer
  fresh : ∀ used, new used ∉ used

structure RemoteFileItem (Msg : Type) where
  pointer : Pointer
  owner : Str
  fileName : Str
  attributes : Msg

abbrev Page := List Pointer

structure ShareWindow (Msg : Type) where
  /-- The items in the tables of all users. -/
  files : List (RemoteFileItem Msg)
  resultsPages : List Page
  currentPage : Nat
  resultsView : List Pointer
  tempAddList : List Pointer
  bytesShown : UInt64
  pageSize : {size : Nat // 0 < size}

variable {Msg : Type}

def fileSize (reader : Reader Msg) (item : RemoteFileItem Msg) : UInt64 :=
  (reader.findInt64 item.attributes "beshare:File Size").getD 0

/-- The last page that has the item. -/
def lastHolding (item : Pointer) : List Page → Option Nat
  | [] => none
  | page :: pages =>
    match lastHolding item pages with
    | some i => some (i + 1)
    | none => if item ∈ page then some 0 else none

/-- `Hashtable::Put` of a key. -/
def Page.put (page : Page) (item : Pointer) : Page :=
  if item ∈ page then page else page ++ [item]

/-- The first page from `addPage` on that is not full; the one after the last, if they all are. -/
def roomFrom (pageSize : Nat) (pages : List Page) (addPage : Nat) : Nat :=
  addPage + (pages.drop addPage).findIdx fun page => page.length < pageSize

/-- What `EndBatchFileResultUpdate` has come to in its loop. -/
structure Batch where
  resultsPages : List Page
  addPage : Nat
  addToDisplay : List Pointer

namespace ShareWindow

def new (pageSize : {size : Nat // 0 < size}) : ShareWindow Msg :=
  ⟨[], [], 0, [], [], 0, pageSize⟩

variable (w : ShareWindow Msg)

def switchToPage (page : Int) : ShareWindow Msg :=
  let numPages : Int := w.resultsPages.length
  let page := if numPages ≤ page then numPages - 1 else page
  let page := if page < 0 then 0 else page
  { w with currentPage := page.toNat, resultsView := w.resultsPages.getD page.toNat [] }

def batchItem (b : Batch) (item : Pointer) : Batch :=
  let addPage := roomFrom w.pageSize b.resultsPages b.addPage
  { resultsPages :=
      if addPage < b.resultsPages.length then
        b.resultsPages.set addPage (Page.put (b.resultsPages.getD addPage []) item)
      else b.resultsPages ++ [[item]]
    addPage
    addToDisplay := if addPage = w.currentPage then b.addToDisplay ++ [item] else b.addToDisplay }

def endBatchFileResultUpdate : ShareWindow Msg :=
  let b := w.tempAddList.foldl w.batchItem ⟨w.resultsPages, 0, []⟩
  { w with resultsPages := b.resultsPages, resultsView := w.resultsView ++ b.addToDisplay, tempAddList := [] }

variable (reader : Reader Msg)

def removeFileItem (item : RemoteFileItem Msg) : ShareWindow Msg :=
  let w := { w with bytesShown := w.bytesShown - fileSize reader item }
  match lastHolding item.pointer w.resultsPages with
  | none => w
  | some i =>
    let page := (w.resultsPages.getD i []).erase item.pointer
    let w :=
      { w with
        resultsPages := w.resultsPages.set i page
        resultsView := if i = w.currentPage then w.resultsView.erase item.pointer else w.resultsView }
    if page.isEmpty then
      let w := { w with resultsPages := w.resultsPages.eraseIdx i }
      if i < w.currentPage then { w with currentPage := w.currentPage - 1 }
      else if i = w.currentPage then w.switchToPage ((w.currentPage : Int) - 1)
      else w
    else w

/-- The item leaves its owner's table, the pages and the memory. -/
def deleteItem (item : RemoteFileItem Msg) : ShareWindow Msg :=
  let w := w.removeFileItem reader item
  { w with files := w.files.filter fun other => other.pointer ≠ item.pointer }

def fileOf (sessionID fileName : Str) : Option (RemoteFileItem Msg) :=
  w.files.find? fun item => decide (item.owner = sessionID ∧ item.fileName = fileName)

def filesOf (sessionID : Str) : List (RemoteFileItem Msg) :=
  w.files.filter fun item => decide (item.owner = sessionID)

def removeFile (sessionID fileName : Str) : ShareWindow Msg :=
  (w.fileOf sessionID fileName).toList.foldl (deleteItem · reader) w

/-- `ClearFiles` of a user. -/
def clearFiles (sessionID : Str) : ShareWindow Msg :=
  (w.filesOf sessionID).foldl (deleteItem · reader) w

def addFileItem (item : RemoteFileItem Msg) : ShareWindow Msg :=
  { w with
    files := w.files ++ [item]
    tempAddList := w.tempAddList ++ [item.pointer]
    bytesShown := w.bytesShown + fileSize reader item }

def putFile (alloc : Allocator) (sessionID fileName : Str) (fileAttrs : Msg) : ShareWindow Msg :=
  let w := w.removeFile reader sessionID fileName
  w.addFileItem reader ⟨alloc.new (w.files.map (·.pointer)), sessionID, fileName, fileAttrs⟩

def clearResults : ShareWindow Msg :=
  let w := { w with resultsView := [], resultsPages := [] }.switchToPage 0
  { w.files.foldl (deleteItem · reader) w with bytesShown := 0 }

end ShareWindow

/-! ### Runs -/

/-- What the user asks for. -/
inductive Command where
  | clearResults
  | switchToPage (page : Int)
  | previousPage
  | nextPage
  | setPageSize (size : {size : Nat // 0 < size})

/-- What is done to the window at a time. -/
inductive Op (Msg : Type) where
  | removeUser (sessionID : Str)
  | removeResult (sessionID fileName : Str)
  | putResult (sessionID fileName : Str) (fileInfo : Msg)
  | endBatchFileResultUpdate
  | command (todo : Command)

inductive Event (Msg : Type) where
  | dataItems (msg : Results Msg)
  | command (todo : Command)

variable (c : Settings Msg) (alloc : Allocator)

/-- The file that an item of a message puts, if the query is for it. -/
def putOf : Path × List (Option Msg) → Option (Str × Str × Msg)
  | ([_, sessionID, _, _, fileName], some msg :: _) =>
    if c.queried sessionID fileName then (c.reader.inflateMessage msg).map fun unpacked =>
      (sessionID, fileName, unpacked)
    else none
  | _ => none

def removalOf : Path → Option (Op Msg)
  | [_, sessionID] => some (.removeUser sessionID)
  | [_, sessionID, _, _, fileName] => some (.removeResult sessionID fileName)
  | _ => none

def putOp : Str × Str × Msg → Op Msg
  | (sessionID, fileName, unpacked) => .putResult sessionID fileName unpacked

def opsOf : Event Msg → List (Op Msg)
  | .dataItems msg => msg.removed.filterMap removalOf ++ (msg.items.filterMap (putOf c)).map putOp ++
      [.endBatchFileResultUpdate]
  | .command todo => [.command todo]

def Command.step (w : ShareWindow Msg) : Command → ShareWindow Msg
  | .clearResults => w.clearResults c.reader
  | .switchToPage page => w.switchToPage page
  | .previousPage => w.switchToPage ((w.currentPage : Int) - 1)
  | .nextPage => w.switchToPage ((w.currentPage : Int) + 1)
  | .setPageSize pageSize => { w with pageSize }

def Op.step (w : ShareWindow Msg) : Op Msg → ShareWindow Msg
  | .removeUser sessionID => w.clearFiles c.reader sessionID
  | .removeResult sessionID fileName => w.removeFile c.reader sessionID fileName
  | .putResult sessionID fileName fileInfo => w.putFile c.reader alloc sessionID fileName fileInfo
  | .endBatchFileResultUpdate => w.endBatchFileResultUpdate
  | .command todo => todo.step c w

/-- The view has the current page; no page is empty or has more than `bound` items. -/
structure Shown (bound : Nat) (w : ShareWindow Msg) : Prop where
  nonempty : ∀ page ∈ w.resultsPages, page ≠ []
  length_le : ∀ page ∈ w.resultsPages, page.length ≤ bound
  current : w.currentPage ≤ w.resultsPages.length - 1
  view : w.resultsView.Perm (w.resultsPages.getD w.currentPage [])

/-- Each of the files that there are is on a page or will be put on one with the batch, once, and nothing else is. -/
structure Paged (bound : Nat) (w : ShareWindow Msg) : Prop extends Shown bound w where
  pointers : (w.files.map (·.pointer)).Nodup
  keys : (w.files.map fun item => (item.owner, item.fileName)).Nodup
  paged : (w.resultsPages.flatten ++ w.tempAddList).Perm (w.files.map (·.pointer))
  bytes : w.bytesShown = (w.files.map (fileSize c.reader)).sum
  pageSize_le : w.pageSize ≤ bound

/-- The files that a step deletes. -/
def deletes (w : ShareWindow Msg) : Op Msg → List (RemoteFileItem Msg)
  | .removeUser sessionID => w.filesOf sessionID
  | .removeResult sessionID fileName | .putResult sessionID fileName _ => (w.fileOf sessionID fileName).toList
  | .command .clearResults => w.files
  | _ => []

/-- No file is deleted that is still to be put on a page. -/
def DeletesShown (w : ShareWindow Msg) (op : Op Msg) : Prop :=
  ∀ item ∈ deletes w op, item.pointer ∉ w.tempAddList

def Op.Within (bound : Nat) : Op Msg → Prop
  | .command (.setPageSize size) => size.val ≤ bound
  | _ => True

/-! ### Pages -/

section

variable {pages : List Page} {i : Nat}

theorem perm_flatten_set (hi : i < pages.length) (page : Page) :
    (pages.set i page).flatten.Perm (page ++ (pages.eraseIdx i).flatten) := by
  induction pages generalizing i with
  | nil => exact absurd hi (Nat.not_lt_zero i)
  | cons first pages ih =>
    cases i with
    | zero => exact .rfl
    | succ i =>
      calc (first ++ (pages.set i page).flatten).Perm (first ++ (page ++ (pages.eraseIdx i).flatten)) :=
            (ih (Nat.lt_of_succ_lt_succ hi)).append_left first
        _ |>.Perm (page ++ (first ++ (pages.eraseIdx i).flatten)) := List.perm_append_comm_assoc ..

theorem perm_flatten (hi : i < pages.length) :
    pages.flatten.Perm (pages.getD i [] ++ (pages.eraseIdx i).flatten) := by
  have hSet := perm_flatten_set hi (pages.getD i [])
  rwa [List.getD_eq_getElem _ _ hi, List.set_getElem_self, ← List.getD_eq_getElem _ [] hi] at hSet

theorem lastHolding_eq_none {item : Pointer} (h : lastHolding item pages = none) : item ∉ pages.flatten := by
  induction pages with
  | nil => exact List.not_mem_nil
  | cons page pages ih =>
    unfold lastHolding at h
    split at h
    · cases h
    · rename_i hRest
      split at h
      · cases h
      · rename_i hPage
        rw [List.flatten_cons, List.mem_append]
        exact not_or.mpr ⟨hPage, ih hRest⟩

theorem lastHolding_eq_some {item : Pointer} (h : lastHolding item pages = some i) :
    i < pages.length ∧ item ∈ pages.getD i [] := by
  induction pages generalizing i with
  | nil => cases h
  | cons page pages ih =>
    unfold lastHolding at h
    split at h
    · rename_i j hRest
      cases h
      exact ⟨Nat.succ_lt_succ (ih hRest).1, (ih hRest).2⟩
    · split at h
      · rename_i hPage
        cases h
        exact ⟨Nat.zero_lt_succ _, hPage⟩
      · cases h

/-- The page that room is found on is not full. -/
theorem length_lt_of_roomFrom {pageSize addPage : Nat} (h : roomFrom pageSize pages addPage < pages.length) :
    (pages.getD (roomFrom pageSize pages addPage) []).length < pageSize := by
  unfold roomFrom at h ⊢
  have hIdx : (pages.drop addPage).findIdx (fun page => page.length < pageSize) < (pages.drop addPage).length := by
    rw [List.length_drop]
    omega
  have hFound := List.findIdx_getElem (w := hIdx)
  rw [List.getElem_drop] at hFound
  rw [List.getD_eq_getElem _ _ h]
  exact of_decide_eq_true hFound

theorem roomFrom_le {pageSize addPage : Nat} (h : addPage ≤ pages.length) :
    roomFrom pageSize pages addPage ≤ pages.length := by
  have hIdx : (pages.drop addPage).findIdx (fun page => page.length < pageSize) ≤ (pages.drop addPage).length :=
    List.findIdx_le_length
  rw [List.length_drop] at hIdx
  unfold roomFrom
  omega

end

/-! ### Removing -/

section

variable {c} {bound : Nat} {w : ShareWindow Msg} {reader : Reader Msg} {item : RemoteFileItem Msg}

theorem shown_switchToPage (hNonempty : ∀ page ∈ w.resultsPages, page ≠ [])
    (hLength : ∀ page ∈ w.resultsPages, page.length ≤ bound) (page : Int) : Shown bound (w.switchToPage page) where
  nonempty := hNonempty
  length_le := hLength
  current := by
    unfold ShareWindow.switchToPage
    dsimp only
    split <;> split <;> omega
  view := .rfl

/-- Besides the pages and the view, a removed item changes the sum alone. -/
theorem removeFileItem_fields (reader : Reader Msg) (w : ShareWindow Msg) (item : RemoteFileItem Msg) :
    let w' := w.removeFileItem reader item
    w'.files = w.files ∧ w'.tempAddList = w.tempAddList ∧ w'.pageSize = w.pageSize ∧
      w'.bytesShown = w.bytesShown - fileSize reader item := by
  unfold ShareWindow.removeFileItem
  dsimp only
  split
  · exact ⟨rfl, rfl, rfl, rfl⟩
  · split
    · split
      · exact ⟨rfl, rfl, rfl, rfl⟩
      · split <;> exact ⟨rfl, rfl, rfl, rfl⟩
    · exact ⟨rfl, rfl, rfl, rfl⟩

theorem removeFileItem_pages (w : ShareWindow Msg) (item : RemoteFileItem Msg) :
    (w.removeFileItem reader item).resultsPages =
      match lastHolding item.pointer w.resultsPages with
      | none => w.resultsPages
      | some i =>
        let page := (w.resultsPages.getD i []).erase item.pointer
        if page.isEmpty then w.resultsPages.eraseIdx i else w.resultsPages.set i page := by
  unfold ShareWindow.removeFileItem
  dsimp only
  cases lastHolding item.pointer w.resultsPages with
  | none => rfl
  | some i =>
    dsimp only
    split
    · rw [List.eraseIdx_set_eq]
      split
      · rfl
      · split <;> rfl
    · rfl

theorem perm_removeFileItem (hItem : item.pointer ∈ w.resultsPages.flatten) :
    w.resultsPages.flatten.Perm (item.pointer :: (w.removeFileItem reader item).resultsPages.flatten) := by
  rw [removeFileItem_pages]
  cases hHolding : lastHolding item.pointer w.resultsPages with
  | none => exact absurd hItem (lastHolding_eq_none hHolding)
  | some i =>
    obtain ⟨hi, hPage⟩ := lastHolding_eq_some hHolding
    have hErase := List.perm_cons_erase hPage
    refine (perm_flatten hi).trans ((hErase.append_right _).trans (.cons _ ?_))
    dsimp only
    split
    · rename_i hEmpty
      rw [List.isEmpty_iff.mp hEmpty]
      exact .rfl
    · exact (perm_flatten_set hi _).symm

theorem shown_removeFileItem (h : Shown bound w) (item : RemoteFileItem Msg) :
    Shown bound (w.removeFileItem reader item) := by
  unfold ShareWindow.removeFileItem
  dsimp only
  cases hHolding : lastHolding item.pointer w.resultsPages with
  | none => exact ⟨h.nonempty, h.length_le, h.current, h.view⟩
  | some i =>
    obtain ⟨hi, -⟩ := lastHolding_eq_some hHolding
    have hErased : ∀ page ∈ w.resultsPages.eraseIdx i, page ∈ w.resultsPages := fun page => List.mem_of_mem_eraseIdx
    have hNonempty := fun page hPage => h.nonempty page (hErased page hPage)
    have hLength := fun page hPage => h.length_le page (hErased page hPage)
    have hErasedLength : (w.resultsPages.eraseIdx i).length = w.resultsPages.length - 1 := List.length_eraseIdx_of_lt hi
    have hCurrent := h.current
    dsimp only
    split
    · -- The page is empty, and the pages after it move up.
      rw [List.eraseIdx_set_eq]
      split
      · rename_i hBefore
        refine ⟨hNonempty, hLength, show w.currentPage - 1 ≤ (w.resultsPages.eraseIdx i).length - 1 by omega, ?_⟩
        dsimp only
        rw [if_neg (Nat.ne_of_lt hBefore)]
        refine h.view.trans (.of_eq ?_)
        rw [List.getD_eq_getElem?_getD, List.getD_eq_getElem?_getD, List.getElem?_eraseIdx_of_ge (by omega),
          Nat.sub_add_cancel (by omega)]
      · split
        · exact shown_switchToPage hNonempty hLength _
        · rename_i hNotBefore hNot
          refine ⟨hNonempty, hLength, show w.currentPage ≤ (w.resultsPages.eraseIdx i).length - 1 by omega, ?_⟩
          dsimp only
          refine h.view.trans (.of_eq ?_)
          rw [List.getD_eq_getElem?_getD, List.getD_eq_getElem?_getD, List.getElem?_eraseIdx_of_lt (by omega)]
    · rename_i hFull
      have hLe : ((w.resultsPages.getD i []).erase item.pointer).length ≤ (w.resultsPages.getD i []).length :=
        List.length_erase_le
      have hPage : w.resultsPages.getD i [] ∈ w.resultsPages := by
        rw [List.getD_eq_getElem _ _ hi]
        exact List.getElem_mem hi
      refine ⟨fun page hMem => ?_, fun page hMem => ?_, ?_, ?_⟩
      · rcases List.mem_or_eq_of_mem_set hMem with hOld | rfl
        · exact h.nonempty page hOld
        · exact fun hEmpty => hFull (List.isEmpty_iff.mpr hEmpty)
      · rcases List.mem_or_eq_of_mem_set hMem with hOld | rfl
        · exact h.length_le page hOld
        · exact hLe.trans (h.length_le _ hPage)
      · show w.currentPage ≤ (w.resultsPages.set i _).length - 1
        rw [List.length_set]
        exact hCurrent
      · show (if i = w.currentPage then _ else _ : List Pointer).Perm ((w.resultsPages.set i _).getD w.currentPage [])
        rw [List.getD_eq_getElem?_getD]
        split
        · rename_i hHere
          subst hHere
          rw [List.getElem?_set_self hi]
          exact h.view.erase _
        · rename_i hNot
          rw [List.getElem?_set_ne hNot, ← List.getD_eq_getElem?_getD]
          exact h.view

theorem deleteItem_tempAddList (w : ShareWindow Msg) (item : RemoteFileItem Msg) :
    (w.deleteItem reader item).tempAddList = w.tempAddList :=
  (removeFileItem_fields reader w item).2.1

theorem deleteItem_files (w : ShareWindow Msg) (item : RemoteFileItem Msg) :
    (w.deleteItem reader item).files = w.files.filter fun other => other.pointer ≠ item.pointer := by
  unfold ShareWindow.deleteItem
  dsimp only
  rw [(removeFileItem_fields reader w item).1]

theorem deleteItems_tempAddList (reader : Reader Msg) (items : List (RemoteFileItem Msg)) (w : ShareWindow Msg) :
    (items.foldl (ShareWindow.deleteItem · reader) w).tempAddList = w.tempAddList := by
  induction items generalizing w with
  | nil => rfl
  | cons item items ih => exact (ih _).trans (deleteItem_tempAddList w item)

theorem mem_deleteItems_files {items : List (RemoteFileItem Msg)} {w : ShareWindow Msg} {other : RemoteFileItem Msg} :
    other ∈ (items.foldl (ShareWindow.deleteItem · reader) w).files ↔
      other ∈ w.files ∧ other.pointer ∉ items.map (·.pointer) := by
  induction items generalizing w with
  | nil => exact (and_iff_left List.not_mem_nil).symm
  | cons item items ih =>
    rw [List.foldl_cons, ih, deleteItem_files, List.mem_filter, decide_eq_true_iff, List.map_cons, List.mem_cons,
      not_or, and_assoc]

/-- An item that is on a page is deleted. -/
theorem paged_deleteItem (h : Paged c bound w) (hItem : item ∈ w.files) (hPending : item.pointer ∉ w.tempAddList) :
    Paged c bound (w.deleteItem c.reader item) := by
  obtain ⟨hFiles, hTemp, hSize, hBytes⟩ := removeFileItem_fields c.reader w item
  have hThere : item.pointer ∈ w.resultsPages.flatten :=
    (List.mem_append.mp (h.paged.mem_iff.mpr (List.mem_map_of_mem hItem))).resolve_right hPending
  -- Without the item, the files are those with other pointers.
  have hPerm : w.files.Perm (item :: w.files.filter fun other => other.pointer ≠ item.pointer) := by
    obtain ⟨front, back, hSplit⟩ := List.append_of_mem hItem
    have hPointers := h.pointers
    rw [hSplit, List.map_append, List.map_cons, List.nodup_middle, List.nodup_cons, List.mem_append, not_or]
      at hPointers
    have hKeep : ∀ l : List (RemoteFileItem Msg), item.pointer ∉ l.map (·.pointer) →
        l.filter (fun other => decide (other.pointer ≠ item.pointer)) = l := fun l hl =>
      List.filter_eq_self.mpr fun other hOther =>
        decide_eq_true fun hSame => hl (hSame ▸ List.mem_map_of_mem hOther)
    rw [hSplit, List.filter_append, List.filter_cons_of_neg (by simp), hKeep front hPointers.1.1,
      hKeep back hPointers.1.2]
    exact List.perm_middle
  have hSub : (w.files.filter fun other => decide (other.pointer ≠ item.pointer)).Sublist w.files :=
    List.filter_sublist
  have hShown : Shown bound (w.removeFileItem c.reader item) := shown_removeFileItem h.toShown item
  refine ⟨⟨hShown.nonempty, hShown.length_le, hShown.current, hShown.view⟩, ?_, ?_, ?_, ?_, ?_⟩
  · rw [deleteItem_files]
    exact h.pointers.sublist (hSub.map _)
  · rw [deleteItem_files]
    exact h.keys.sublist (hSub.map _)
  · rw [deleteItem_files, deleteItem_tempAddList]
    refine List.Perm.cons_inv (a := item.pointer) ?_
    exact (((perm_removeFileItem hThere).symm.append_right w.tempAddList).trans h.paged).trans (hPerm.map _)
  · rw [deleteItem_files]
    show (w.removeFileItem c.reader item).bytesShown = _
    rw [hBytes, h.bytes, (hPerm.map (fileSize c.reader)).sum_eq, List.map_cons, List.sum_cons, add_sub_cancel_left]
  · show ((w.removeFileItem c.reader item).pageSize : Nat) ≤ bound
    rw [hSize]
    exact h.pageSize_le

theorem paged_deleteItems {items : List (RemoteFileItem Msg)} (h : Paged c bound w)
    (hItems : ∀ item ∈ items, item ∈ w.files)
    (hNodup : (items.map (·.pointer)).Nodup) (hPending : ∀ item ∈ items, item.pointer ∉ w.tempAddList) :
    Paged c bound (items.foldl (ShareWindow.deleteItem · c.reader) w) := by
  induction items generalizing w with
  | nil => exact h
  | cons item items ih =>
    rw [List.map_cons, List.nodup_cons] at hNodup
    refine ih (paged_deleteItem h (hItems item (List.mem_cons_self ..)) (hPending item (List.mem_cons_self ..)))
      (fun other hOther => ?_) hNodup.2 fun other hOther => ?_
    · rw [deleteItem_files, List.mem_filter, decide_eq_true_iff]
      refine ⟨hItems other (List.mem_cons_of_mem _ hOther), fun hSame => hNodup.1 ?_⟩
      exact hSame ▸ List.mem_map_of_mem hOther
    · rw [deleteItem_tempAddList]
      exact hPending other (List.mem_cons_of_mem _ hOther)

/-- What is pending is there. -/
theorem Paged.pending (h : Paged c bound w) :
    w.tempAddList.Nodup ∧ ∀ item ∈ w.tempAddList, item ∈ w.files.map (·.pointer) :=
  ⟨(List.nodup_append.mp (h.paged.nodup_iff.mpr h.pointers)).2.1,
    fun _ hItem => h.paged.mem_iff.mp (List.mem_append_right _ hItem)⟩

/-- A pending item that is deleted stays pending. -/
theorem not_pending_of_deleteItems {items : List (RemoteFileItem Msg)}
    (h : Paged c bound (items.foldl (ShareWindow.deleteItem · c.reader) w)) (hItem : item ∈ items) :
    item.pointer ∉ w.tempAddList := by
  intro hPending
  rw [← deleteItems_tempAddList c.reader items w] at hPending
  obtain ⟨other, hOther, hSame⟩ := List.mem_map.mp (h.pending.2 _ hPending)
  exact (mem_deleteItems_files.mp hOther).2 (hSame ▸ List.mem_map_of_mem hItem)

end

/-! ### The end of a batch -/

section

variable {c} {bound : Nat} {w : ShareWindow Msg} {b : Batch} {item : Pointer} {rest : List Pointer}

/-- Before the items of `rest` are put on the pages. -/
structure Filling (bound : Nat) (w : ShareWindow Msg) (rest : List Pointer) (b : Batch) : Prop where
  perm : (b.resultsPages.flatten ++ rest).Perm (w.resultsPages.flatten ++ w.tempAddList)
  nonempty : ∀ page ∈ b.resultsPages, page ≠ []
  length_le : ∀ page ∈ b.resultsPages, page.length ≤ bound
  addPage : b.addPage ≤ b.resultsPages.length
  grows : w.resultsPages.length ≤ b.resultsPages.length
  view : (w.resultsView ++ b.addToDisplay).Perm (b.resultsPages.getD w.currentPage [])

theorem filling_start (h : Paged c bound w) : Filling bound w w.tempAddList ⟨w.resultsPages, 0, []⟩ where
  perm := .rfl
  nonempty := h.nonempty
  length_le := h.length_le
  addPage := Nat.zero_le _
  grows := Nat.le_refl _
  view := by
    rw [List.append_nil]
    exact h.view

/-- The page that has room takes the item. -/
theorem Filling.put (h : Filling bound w (item :: rest) b) (hNew : item ∉ b.resultsPages.flatten) {addPage : Nat}
    (hThere : addPage < b.resultsPages.length) (hRoom : (b.resultsPages.getD addPage []).length < bound) :
    Filling bound w rest
      ⟨b.resultsPages.set addPage (Page.put (b.resultsPages.getD addPage []) item), addPage,
        if addPage = w.currentPage then b.addToDisplay ++ [item] else b.addToDisplay⟩ := by
  have hPage : b.resultsPages.getD addPage [] ∈ b.resultsPages := by
    rw [List.getD_eq_getElem _ _ hThere]
    exact List.getElem_mem hThere
  have hPut : Page.put (b.resultsPages.getD addPage []) item = b.resultsPages.getD addPage [] ++ [item] :=
    if_neg fun hOld => hNew (List.mem_flatten_of_mem hPage hOld)
  rw [hPut]
  refine ⟨?_, fun page hMem => ?_, fun page hMem => ?_, ?_, ?_, ?_⟩
  · refine List.Perm.trans ?_ h.perm
    calc ((b.resultsPages.set addPage (b.resultsPages.getD addPage [] ++ [item])).flatten ++ rest).Perm
          ((b.resultsPages.getD addPage [] ++ [item] ++ (b.resultsPages.eraseIdx addPage).flatten) ++ rest) :=
          (perm_flatten_set hThere _).append_right rest
      _ |>.Perm ((b.resultsPages.getD addPage [] ++ (b.resultsPages.eraseIdx addPage).flatten) ++ item :: rest) := by
          rw [List.append_assoc, List.append_assoc, List.append_assoc, List.singleton_append]
          exact List.perm_middle.symm.append_left _
      _ |>.Perm (b.resultsPages.flatten ++ item :: rest) := (perm_flatten hThere).symm.append_right _
  · rcases List.mem_or_eq_of_mem_set hMem with hOld | rfl
    · exact h.nonempty page hOld
    · exact List.append_ne_nil_of_right_ne_nil _ (List.cons_ne_nil item [])
  · rcases List.mem_or_eq_of_mem_set hMem with hOld | rfl
    · exact h.length_le page hOld
    · rw [List.length_append]
      exact hRoom
  · rw [List.length_set]
    exact hThere.le
  · rw [List.length_set]
    exact h.grows
  · dsimp only
    rw [List.getD_eq_getElem?_getD (l := b.resultsPages.set _ _)]
    split
    · rename_i hHere
      subst hHere
      rw [List.getElem?_set_self hThere, ← List.append_assoc]
      exact h.view.append_right [item]
    · rename_i hNot
      rw [List.getElem?_set_ne hNot, ← List.getD_eq_getElem?_getD]
      exact h.view

/-- The item is the first on a new page. -/
theorem Filling.addTail (h : Filling bound w (item :: rest) b) (hCurrent : w.currentPage ≤ w.resultsPages.length - 1)
    (hBound : 0 < bound) :
    Filling bound w rest ⟨b.resultsPages ++ [[item]], b.resultsPages.length,
      if b.resultsPages.length = w.currentPage then b.addToDisplay ++ [item] else b.addToDisplay⟩ := by
  refine ⟨?_, fun page hMem => ?_, fun page hMem => ?_, ?_, ?_, ?_⟩
  · rw [List.flatten_append, List.append_assoc]
    exact h.perm
  · rcases List.mem_append.mp hMem with hOld | hNew
    · exact h.nonempty page hOld
    · rw [List.mem_singleton.mp hNew]
      exact List.cons_ne_nil item []
  · rcases List.mem_append.mp hMem with hOld | hNew
    · exact h.length_le page hOld
    · rw [List.mem_singleton.mp hNew]
      exact hBound
  · rw [List.length_append]
    exact Nat.le_add_right _ 1
  · rw [List.length_append]
    exact h.grows.trans (Nat.le_add_right _ 1)
  · have hView := h.view
    have hGrows := h.grows
    rw [List.getD_eq_getElem?_getD] at hView ⊢
    split
    · rename_i hHere
      rw [← hHere, List.getElem?_eq_none (Nat.le_refl _)] at hView
      rw [← hHere, List.getElem?_concat_length, ← List.append_assoc]
      exact hView.append_right [item]
    · rename_i hNot
      rwa [List.getElem?_append_left (by omega)]

theorem Filling.batchItem (h : Filling bound w (item :: rest) b) (hPaged : Paged c bound w) :
    Filling bound w rest (w.batchItem b item) := by
  have hNodup := h.perm.nodup_iff.mpr (hPaged.paged.nodup_iff.mpr hPaged.pointers)
  have hNew : item ∉ b.resultsPages.flatten := fun hOld =>
    (List.nodup_append.mp hNodup).2.2 item hOld item (List.mem_cons_self ..) rfl
  have hLe : roomFrom w.pageSize b.resultsPages b.addPage ≤ b.resultsPages.length := roomFrom_le h.addPage
  unfold ShareWindow.batchItem
  dsimp only
  split
  · rename_i hThere
    exact h.put hNew hThere ((length_lt_of_roomFrom hThere).trans_le hPaged.pageSize_le)
  · rename_i hNot
    rw [Nat.le_antisymm hLe (Nat.le_of_not_lt hNot)]
    exact h.addTail hPaged.current (w.pageSize.property.trans_le hPaged.pageSize_le)

theorem filling_all (hPaged : Paged c bound w) (h : Filling bound w rest b) :
    Filling bound w [] (rest.foldl w.batchItem b) := by
  induction rest generalizing b with
  | nil => exact h
  | cons item rest ih => exact ih (h.batchItem hPaged)

theorem paged_endBatch (h : Paged c bound w) : Paged c bound w.endBatchFileResultUpdate := by
  have hFilled := filling_all h (filling_start h)
  have hCurrent := h.current
  have hGrows := hFilled.grows
  exact
    { h with
      nonempty := hFilled.nonempty
      length_le := hFilled.length_le
      current := hCurrent.trans (Nat.sub_le_sub_right hGrows 1)
      view := hFilled.view
      paged := hFilled.perm.trans h.paged }

end

/-! ### Steps -/

section

variable {c alloc} {bound : Nat} {w : ShareWindow Msg} {sessionID fileName : Str} {op : Op Msg}

theorem key_inj (h : Paged c bound w) {item other : RemoteFileItem Msg} (hItem : item ∈ w.files)
    (hOther : other ∈ w.files)
    (hOwner : item.owner = other.owner) (hName : item.fileName = other.fileName) : item = other :=
  List.inj_on_of_nodup_map h.keys hItem hOther (Prod.ext hOwner hName)

theorem mem_fileOf (h : Paged c bound w) {item : RemoteFileItem Msg} :
    item ∈ (w.fileOf sessionID fileName).toList ↔
      item ∈ w.files ∧ item.owner = sessionID ∧ item.fileName = fileName := by
  unfold ShareWindow.fileOf
  have hKey {found : RemoteFileItem Msg}
      (hFound : w.files.find? (fun item => decide (item.owner = sessionID ∧ item.fileName = fileName)) = some found) :
      found.owner = sessionID ∧ found.fileName = fileName := by
    simpa using List.find?_some hFound
  rw [Option.mem_toList]
  constructor
  · intro hFound
    exact ⟨List.mem_of_find?_eq_some hFound, hKey hFound⟩
  · rintro ⟨hItem, hOwner, hName⟩
    cases hFound : w.files.find? fun item => decide (item.owner = sessionID ∧ item.fileName = fileName) with
    | none => exact absurd (decide_eq_true ⟨hOwner, hName⟩) (List.find?_eq_none.mp hFound item hItem)
    | some found =>
      exact congrArg some (key_inj h (List.mem_of_find?_eq_some hFound) hItem ((hKey hFound).1.trans hOwner.symm)
        ((hKey hFound).2.trans hName.symm))

theorem fileOf_nodup (w : ShareWindow Msg) (sessionID fileName : Str) :
    ((w.fileOf sessionID fileName).toList.map (·.pointer)).Nodup := by
  cases w.fileOf sessionID fileName with
  | none => exact List.nodup_nil
  | some item => exact List.nodup_singleton _

/-- A file is deleted well exactly if it is on a page. -/
theorem paged_removeFile_iff (h : Paged c bound w) : Paged c bound (w.removeFile c.reader sessionID fileName) ↔
    ∀ item ∈ (w.fileOf sessionID fileName).toList, item.pointer ∉ w.tempAddList :=
  ⟨fun hPaged _ hItem => not_pending_of_deleteItems hPaged hItem,
    paged_deleteItems h (fun _ hItem => ((mem_fileOf h).mp hItem).1) (fileOf_nodup ..)⟩

theorem paged_clearFiles_iff (h : Paged c bound w) : Paged c bound (w.clearFiles c.reader sessionID) ↔
    ∀ item ∈ w.filesOf sessionID, item.pointer ∉ w.tempAddList :=
  ⟨fun hPaged _ hItem => not_pending_of_deleteItems hPaged hItem,
    paged_deleteItems h (fun _ hItem => List.mem_of_mem_filter hItem)
      (h.pointers.sublist (List.filter_sublist.map _))⟩

theorem paged_addFileItem (h : Paged c bound w) {item : RemoteFileItem Msg}
    (hNew : item.pointer ∉ w.files.map (·.pointer))
    (hKey : ∀ other ∈ w.files, ¬(other.owner = item.owner ∧ other.fileName = item.fileName)) :
    Paged c bound (w.addFileItem c.reader item) where
  nonempty := h.nonempty
  length_le := h.length_le
  current := h.current
  view := h.view
  pageSize_le := h.pageSize_le
  pointers := by
    unfold ShareWindow.addFileItem
    rw [List.map_append, List.map_singleton]
    exact h.pointers.append (List.nodup_singleton _) (List.disjoint_singleton.mpr hNew)
  keys := by
    unfold ShareWindow.addFileItem
    rw [List.map_append, List.map_singleton]
    refine h.keys.append (List.nodup_singleton _) (List.disjoint_singleton.mpr fun hMem => ?_)
    obtain ⟨other, hOther, hSame⟩ := List.mem_map.mp hMem
    exact hKey other hOther (Prod.ext_iff.mp hSame)
  paged := by
    unfold ShareWindow.addFileItem
    rw [List.map_append, List.map_singleton, ← List.append_assoc]
    exact h.paged.append_right [item.pointer]
  bytes := by
    unfold ShareWindow.addFileItem
    rw [List.map_append, List.sum_append, List.map_singleton, List.sum_singleton, h.bytes]

/-- The file that is replaced is the one that must not be pending. -/
theorem paged_putFile_iff (h : Paged c bound w) (fileInfo : Msg) :
    Paged c bound (w.putFile c.reader alloc sessionID fileName fileInfo) ↔
      ∀ item ∈ (w.fileOf sessionID fileName).toList, item.pointer ∉ w.tempAddList := by
  constructor
  · intro hPaged item hItem hPending
    have hOld : item.pointer ∈ (w.removeFile c.reader sessionID fileName).tempAddList := by
      unfold ShareWindow.removeFile
      rwa [deleteItems_tempAddList]
    obtain ⟨hNodup, hSub⟩ := hPaged.pending
    unfold ShareWindow.putFile ShareWindow.addFileItem at hNodup hSub
    dsimp only at hNodup hSub
    have hThere := hSub item.pointer (List.mem_append_left _ hOld)
    rw [List.map_append, List.mem_append, List.map_singleton, List.mem_singleton] at hThere
    rcases hThere with hThere | hNew
    · obtain ⟨other, hOther, hSame⟩ := List.mem_map.mp hThere
      exact (mem_deleteItems_files.mp hOther).2 (hSame ▸ List.mem_map_of_mem hItem)
    · exact (List.nodup_append.mp hNodup).2.2 _ hOld _ (List.mem_singleton_self _) hNew
  · intro hShown
    refine paged_addFileItem ((paged_removeFile_iff h).mpr hShown) (alloc.fresh _) fun other hOther hKey => ?_
    obtain ⟨hFile, hKept⟩ := mem_deleteItems_files.mp hOther
    exact hKept (List.mem_map_of_mem ((mem_fileOf h).mpr ⟨hFile, hKey⟩))

/-- Without pages, a deleted item changes the tables and the sum alone. -/
theorem deleteItem_cleared {reader : Reader Msg} {item : RemoteFileItem Msg} (hPages : w.resultsPages = []) :
    w.deleteItem reader item =
      { w with
        files := w.files.filter fun other => other.pointer ≠ item.pointer
        bytesShown := w.bytesShown - fileSize reader item } := by
  unfold ShareWindow.deleteItem ShareWindow.removeFileItem
  rw [hPages]
  rfl

theorem deleteItems_cleared (reader : Reader Msg) (items : List (RemoteFileItem Msg)) {w : ShareWindow Msg}
    (hPages : w.resultsPages = []) :
    let w' := items.foldl (ShareWindow.deleteItem · reader) w
    w'.resultsPages = [] ∧ w'.currentPage = w.currentPage ∧ w'.resultsView = w.resultsView ∧
      w'.pageSize = w.pageSize := by
  induction items generalizing w with
  | nil => exact ⟨hPages, rfl, rfl, rfl⟩
  | cons item items ih =>
    have hRest := @ih (w.deleteItem reader item) (by rw [deleteItem_cleared hPages]; exact hPages)
    rw [deleteItem_cleared hPages] at hRest
    rw [List.foldl_cons, deleteItem_cleared hPages]
    exact hRest

theorem clearResults_files {reader : Reader Msg} : (w.clearResults reader).files = [] := by
  refine List.eq_nil_iff_forall_not_mem.mpr fun item hItem => ?_
  obtain ⟨hFile, hKept⟩ := mem_deleteItems_files.mp hItem
  exact hKept (List.mem_map_of_mem hFile)

theorem clearResults_tempAddList (reader : Reader Msg) : (w.clearResults reader).tempAddList = w.tempAddList :=
  deleteItems_tempAddList ..

theorem paged_clearResults_iff (h : Paged c bound w) :
    Paged c bound (w.clearResults c.reader) ↔ ∀ item ∈ w.files, item.pointer ∉ w.tempAddList := by
  constructor
  · intro hPaged item hItem hPending
    rw [← clearResults_tempAddList c.reader] at hPending
    have hThere := hPaged.pending.2 _ hPending
    rw [clearResults_files] at hThere
    exact List.not_mem_nil hThere
  · intro hShown
    have hTemp : w.tempAddList = [] := List.eq_nil_iff_forall_not_mem.mpr fun pointer hPending => by
      obtain ⟨item, hItem, hSame⟩ := List.mem_map.mp (h.pending.2 _ hPending)
      exact hShown item hItem (hSame ▸ hPending)
    obtain ⟨hPages, hCurrent, hView, hSize⟩ := deleteItems_cleared c.reader w.files
      (w := { w with resultsView := [], resultsPages := [] }.switchToPage 0) rfl
    have hNoPages : (w.clearResults c.reader).resultsPages = [] := hPages
    have hNoView : (w.clearResults c.reader).resultsView = [] := hView
    refine ⟨⟨?_, ?_, ?_, ?_⟩, ?_, ?_, ?_, ?_, ?_⟩
    · rw [hNoPages]
      exact fun _ hPage => absurd hPage List.not_mem_nil
    · rw [hNoPages]
      exact fun _ hPage => absurd hPage List.not_mem_nil
    · exact hCurrent.le.trans (Nat.zero_le _)
    · rw [hNoPages, hNoView]
      exact .rfl
    · rw [clearResults_files]
      exact List.nodup_nil
    · rw [clearResults_files]
      exact List.nodup_nil
    · rw [hNoPages, clearResults_tempAddList, hTemp, clearResults_files]
      exact .rfl
    · rw [clearResults_files]
      rfl
    · show ((w.clearResults c.reader).pageSize : Nat) ≤ bound
      exact (congrArg Subtype.val hSize).trans_le h.pageSize_le

theorem paged_switchToPage (h : Paged c bound w) (page : Int) : Paged c bound (w.switchToPage page) :=
  { h with toShown := shown_switchToPage h.nonempty h.length_le page }

/-- A step keeps the pages right exactly if it deletes nothing that is pending, and keeps to the bound. -/
theorem paged_step_iff (h : Paged c bound w) (op : Op Msg) :
    Paged c bound (op.step c alloc w) ↔ DeletesShown w op ∧ op.Within bound := by
  have hNone {P : Prop} : (∀ item ∈ ([] : List (RemoteFileItem Msg)), item.pointer ∉ w.tempAddList) ∧ P ↔ P :=
    and_iff_right fun _ hItem => absurd hItem List.not_mem_nil
  cases op with
  | removeUser sessionID => exact (paged_clearFiles_iff h).trans (and_iff_left trivial).symm
  | removeResult sessionID fileName => exact (paged_removeFile_iff h).trans (and_iff_left trivial).symm
  | putResult sessionID fileName fileInfo => exact (paged_putFile_iff h fileInfo).trans (and_iff_left trivial).symm
  | endBatchFileResultUpdate => exact iff_of_true (paged_endBatch h) (hNone.mpr trivial)
  | command todo =>
    cases todo with
    | clearResults => exact (paged_clearResults_iff h).trans (and_iff_left trivial).symm
    | switchToPage page => exact iff_of_true (paged_switchToPage h page) (hNone.mpr trivial)
    | previousPage => exact iff_of_true (paged_switchToPage h _) (hNone.mpr trivial)
    | nextPage => exact iff_of_true (paged_switchToPage h _) (hNone.mpr trivial)
    | setPageSize size =>
      exact ⟨fun hPaged => hNone.mpr hPaged.pageSize_le, fun hWithin => { h with pageSize_le := hNone.mp hWithin }⟩

end

/-! ### Messages -/

def key : Str × Str × Msg → Str × Str
  | (sessionID, fileName, _) => (sessionID, fileName)

/-- A message puts no file of a user twice. -/
def Event.Distinct : Event Msg → Prop
  | .dataItems msg => ((msg.items.filterMap (putOf c)).map key).Nodup
  | .command _ => True

/-- Of the page sizes that are ever set. -/
def largestPageSize (pageSize : Nat) : List (Event Msg) → Nat
  | [] => pageSize
  | .command (.setPageSize size) :: events => max size (largestPageSize pageSize events)
  | _ :: events => largestPageSize pageSize events

/-- The window with the steps that are right. -/
def StepOk (bound : Nat) (w : ShareWindow Msg) (op : Op Msg) : Prop :=
  DeletesShown w op ∧ op.Within bound

section

variable {c alloc} {bound : Nat} {w : ShareWindow Msg}

/-- The items that are pending are those of these keys. -/
def Added (w : ShareWindow Msg) (keys : List (Str × Str)) : Prop :=
  ∃ items : List (RemoteFileItem Msg), (∀ item ∈ items, item ∈ w.files) ∧
    items.map (fun item => (item.owner, item.fileName)) = keys ∧ items.map (·.pointer) = w.tempAddList

theorem deletesShown_put_iff {keys : List (Str × Str)} (h : Paged c bound w) (hAdded : Added w keys)
    (put : Str × Str × Msg) : DeletesShown w (putOp put) ↔ key put ∉ keys := by
  obtain ⟨items, hItems, rfl, hPointers⟩ := hAdded
  obtain ⟨sessionID, fileName, fileInfo⟩ := put
  unfold DeletesShown deletes putOp key
  dsimp only
  rw [← hPointers]
  constructor
  · intro hShown hKey
    obtain ⟨item, hItem, hSame⟩ := List.mem_map.mp hKey
    exact hShown item ((mem_fileOf h).mpr ⟨hItems item hItem, Prod.ext_iff.mp hSame⟩) (List.mem_map_of_mem hItem)
  · intro hKey item hFile hPending
    obtain ⟨hThere, hOwner, hName⟩ := (mem_fileOf h).mp hFile
    obtain ⟨other, hOther, hSame⟩ := List.mem_map.mp hPending
    rw [List.inj_on_of_nodup_map h.pointers (hItems other hOther) hThere hSame] at hOther
    exact hKey (List.mem_map.mpr ⟨item, hOther, Prod.ext hOwner hName⟩)

theorem added_put {keys : List (Str × Str)} (hAdded : Added w keys) {put : Str × Str × Msg}
    (hShown : DeletesShown w (putOp put)) : Added ((putOp put).step c alloc w) (keys ++ [key put]) := by
  obtain ⟨items, hItems, rfl, hPointers⟩ := hAdded
  obtain ⟨sessionID, fileName, fileInfo⟩ := put
  let w' := w.removeFile c.reader sessionID fileName
  have hTemp : w'.tempAddList = w.tempAddList := deleteItems_tempAddList ..
  refine ⟨items ++ [⟨alloc.new (w'.files.map (·.pointer)), sessionID, fileName, fileInfo⟩], fun item hItem =>
    ?_, ?_, ?_⟩
  · rcases List.mem_append.mp hItem with hOld | hNew
    · refine List.mem_append_left _ (mem_deleteItems_files.mpr ⟨hItems item hOld, fun hDeleted => ?_⟩)
      obtain ⟨other, hOther, hSame⟩ := List.mem_map.mp hDeleted
      exact hShown other hOther (hSame ▸ hPointers ▸ List.mem_map_of_mem hOld)
    · exact List.mem_append_right _ hNew
  · rw [List.map_append]
    rfl
  · rw [List.map_append, hPointers, ← hTemp]
    rfl

/-- The puts of a message are right exactly if they are of different files. -/
theorem allSteps_puts_iff (alloc : Allocator) (puts : List (Str × Str × Msg)) {keys : List (Str × Str)} (h : Paged c bound w)
    (hAdded : Added w keys) (hKeys : keys.Nodup) :
    AllSteps (StepOk bound) (fun w op => op.step c alloc w) (puts.map putOp) w ↔ (keys ++ puts.map key).Nodup := by
  induction puts generalizing w keys with
  | nil =>
    rw [List.map_nil, List.map_nil, List.append_nil]
    exact iff_of_true trivial hKeys
  | cons put puts ih =>
    have hMove : keys ++ (put :: puts).map key = (keys ++ [key put]) ++ puts.map key := by
      rw [List.map_cons, List.append_assoc, List.singleton_append]
    have hOk : StepOk bound w (putOp put) ↔ key put ∉ keys :=
      (and_iff_left trivial).trans (deletesShown_put_iff h hAdded put)
    rw [hMove]
    constructor
    · rintro ⟨hFirst, hRest⟩
      have hNodup : (keys ++ [key put]).Nodup :=
        hKeys.append (List.nodup_singleton _) (List.disjoint_singleton.mpr (hOk.mp hFirst))
      exact (ih ((paged_step_iff h _).mpr hFirst) (added_put hAdded hFirst.1) hNodup).mp hRest
    · intro hNodup
      have hFront := (List.nodup_append.mp hNodup).1
      have hFirst := hOk.mpr fun hMem => (List.nodup_append.mp hFront).2.2 _ hMem _ (List.mem_singleton_self _) rfl
      exact ⟨hFirst, (ih ((paged_step_iff h _).mpr hFirst) (added_put hAdded hFirst.1) hFront).mpr hNodup⟩

/-- Nothing is pending when the removals of a message are made. -/
theorem allSteps_removals (c : Settings Msg) (alloc : Allocator) (bound : Nat) (paths : List Path) {w : ShareWindow Msg} (hTemp : w.tempAddList = []) :
    AllSteps (StepOk bound) (fun w op => op.step c alloc w) (paths.filterMap removalOf) w ∧
      ((paths.filterMap removalOf).foldl (fun w op => op.step c alloc w) w).tempAddList = [] := by
  induction paths generalizing w with
  | nil => exact ⟨trivial, hTemp⟩
  | cons path paths ih =>
    rw [List.filterMap_cons]
    have hShown (op : Op Msg) : DeletesShown w op := fun item _ => by
      rw [hTemp]
      exact List.not_mem_nil
    cases hRemoval : (removalOf path : Option (Op Msg)) with
    | none => exact ih hTemp
    | some op =>
      have hStep : (op.step c alloc w).tempAddList = [] ∧ op.Within bound := by
        unfold removalOf at hRemoval
        split at hRemoval <;> cases hRemoval <;> exact ⟨(deleteItems_tempAddList ..).trans hTemp, trivial⟩
      exact ⟨⟨⟨hShown op, hStep.2⟩, (ih hStep.1).1⟩, (ih hStep.1).2⟩

theorem command_tempAddList (w : ShareWindow Msg) (todo : Command) : (todo.step c w).tempAddList = w.tempAddList := by
  cases todo with
  | clearResults => exact clearResults_tempAddList c.reader
  | _ => rfl

/-- After an event nothing is pending. -/
theorem event_tempAddList {event : Event Msg} (hTemp : w.tempAddList = []) :
    ((opsOf c event).foldl (fun w op => op.step c alloc w) w).tempAddList = [] := by
  cases event with
  | dataItems msg =>
    unfold opsOf
    rw [List.foldl_append]
    rfl
  | command todo => exact (command_tempAddList w todo).trans hTemp

theorem allSteps_event_iff (alloc : Allocator) (event : Event Msg) (h : Paged c bound w) (hTemp : w.tempAddList = [])
    (hWithin : ∀ todo, event = .command todo → (Op.command todo : Op Msg).Within bound) :
    AllSteps (StepOk bound) (fun w op => op.step c alloc w) (opsOf c event) w ↔ event.Distinct c := by
  cases event with
  | dataItems msg =>
    obtain ⟨hRemovals, hStill⟩ := allSteps_removals c alloc bound msg.removed hTemp
    have hRemoved : Paged c bound ((msg.removed.filterMap removalOf).foldl (fun w op => op.step c alloc w) w) :=
      foldl_keeps (fun w op hw hOk => (paged_step_iff hw op).mpr hOk) hRemovals h
    have hPuts := allSteps_puts_iff alloc (msg.items.filterMap (putOf c)) hRemoved
      ⟨[], fun _ hItem => absurd hItem List.not_mem_nil, rfl, hStill.symm⟩ List.nodup_nil
    unfold opsOf
    rw [allSteps_append, allSteps_append, hPuts]
    refine ⟨fun hAll => hAll.1.2, fun hDistinct => ⟨⟨hRemovals, hDistinct⟩, ⟨?_, trivial⟩, trivial⟩⟩
    exact fun item hItem => absurd hItem List.not_mem_nil
  | command todo =>
    refine iff_of_true ⟨⟨fun item _ => ?_, hWithin todo rfl⟩, trivial⟩ trivial
    rw [hTemp]
    exact List.not_mem_nil

theorem allSteps_events_iff {events : List (Event Msg)} (h : Paged c bound w) (hTemp : w.tempAddList = [])
    (hWithin : ∀ todo, .command todo ∈ events → (Op.command todo : Op Msg).Within bound) :
    AllSteps (StepOk bound) (fun w op => op.step c alloc w) (events.flatMap (opsOf c)) w ↔
      ∀ event ∈ events, event.Distinct c := by
  induction events generalizing w with
  | nil => exact iff_of_true trivial fun _ hEvent => absurd hEvent List.not_mem_nil
  | cons event events ih =>
    have hFirst := allSteps_event_iff alloc event h hTemp fun todo hTodo =>
      hWithin todo (hTodo ▸ List.mem_cons_self ..)
    rw [List.flatMap_cons, allSteps_append, List.forall_mem_cons, hFirst]
    refine and_congr_right fun hDistinct => ?_
    exact ih (foldl_keeps (fun w op hw hOk => (paged_step_iff hw op).mpr hOk) (hFirst.mpr hDistinct) h)
      (event_tempAddList hTemp) fun todo hTodo => hWithin todo (List.mem_cons_of_mem _ hTodo)

theorem le_largestPageSize (pageSize : Nat) (events : List (Event Msg)) : pageSize ≤ largestPageSize pageSize events ∧
    ∀ todo, .command todo ∈ events → (Op.command todo : Op Msg).Within (largestPageSize pageSize events) := by
  induction events with
  | nil => exact ⟨Nat.le_refl _, fun _ hTodo => absurd hTodo List.not_mem_nil⟩
  | cons event events ih =>
    have hLe : largestPageSize pageSize events ≤ largestPageSize pageSize (event :: events) := by
      cases event with
      | dataItems msg => exact Nat.le_refl _
      | command todo =>
        cases todo with
        | setPageSize size => exact Nat.le_max_right ..
        | _ => exact Nat.le_refl _
    refine ⟨ih.1.trans hLe, fun todo hTodo => ?_⟩
    rcases List.mem_cons.mp hTodo with rfl | hRest
    · cases todo with
      | setPageSize size => exact Nat.le_max_left ..
      | _ => trivial
    · have hOld := ih.2 todo hRest
      cases todo with
      | setPageSize size => exact Nat.le_trans hOld hLe
      | _ => trivial

theorem paged_new {pageSize : {size : Nat // 0 < size}} (hBound : pageSize ≤ bound) :
    Paged c bound (.new pageSize) where
  nonempty := fun _ hPage => absurd hPage List.not_mem_nil
  length_le := fun _ hPage => absurd hPage List.not_mem_nil
  current := Nat.le_refl 0
  view := .rfl
  pointers := List.nodup_nil
  keys := List.nodup_nil
  paged := .rfl
  bytes := rfl
  pageSize_le := hBound

end

end BeShare.Client.ResultPages
