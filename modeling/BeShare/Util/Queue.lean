import BeShare.Lib.Ring

/-!
`Queue`: a double-ended queue in a circular array, which is the inline one or one from the heap. Memory is always
there. A default item is what its type's constructor makes, which is also what a new array has.
-/

namespace BeShare.Muscle.Queues

/-- `uint32` -/
def word (n : Nat) : Nat := n % 2 ^ 32

/-- `SMALL_QUEUE_SIZE` -/
def smallQueueSize : Nat := 3

/-- `_queue` and `_queueSize`: no array, the inline one, or one of the heap. -/
inductive Buffer (α : Type) where
  | null
  | small
  | heap (slots : Nat → α) (size : Nat)

structure Queue (α : Type) where
  smallQueue : Nat → α
  queue : Buffer α
  itemCount : Nat
  headIndex : Nat
  tailIndex : Nat
  initialSize : Nat

namespace Queue

variable {α : Type} [Inhabited α]

/-- The constructor. It leaves the indices as they are. -/
def new (initialSize headIndex tailIndex : Nat) : Queue α :=
  ⟨fun _ => default, .null, 0, headIndex, tailIndex, initialSize⟩

def queueSize (q : Queue α) : Nat :=
  match q.queue with
  | .null => 0
  | .small => smallQueueSize
  | .heap _ size => size

def slots (q : Queue α) : Nat → α :=
  match q.queue with
  | .heap slots _ => slots
  | _ => q.smallQueue

def isSmall (q : Queue α) : Bool :=
  match q.queue with
  | .small => true
  | _ => false

def isNull (q : Queue α) : Bool :=
  match q.queue with
  | .null => true
  | _ => false

/-- `_queue[i] = item` -/
def setSlot (q : Queue α) (i : Nat) (item : α) : Queue α :=
  match q.queue with
  | .heap slots size => { q with queue := .heap (Function.update slots i item) size }
  | _ => { q with smallQueue := Function.update q.smallQueue i item }

def nextIndex (q : Queue α) (i : Nat) : Nat := if i ≥ q.queueSize - 1 then 0 else i + 1

def prevIndex (q : Queue α) (i : Nat) : Nat := if i = 0 then q.queueSize - 1 else i - 1

def internalizeIndex (q : Queue α) (i : Nat) : Nat := word (q.headIndex + i) % q.queueSize

/-- `*GetItemAt(i)` -/
def getItemAt (q : Queue α) (i : Nat) : α := q.slots (q.internalizeIndex i)

/-- `RemoveHead` -/
def removeHead (q : Queue α) : Queue α :=
  if q.itemCount = 0 then q
  else { q with headIndex := q.nextIndex q.headIndex, itemCount := q.itemCount - 1 }.setSlot q.headIndex default

/-- `RemoveTail` -/
def removeTail (q : Queue α) : Queue α :=
  if q.itemCount = 0 then q
  else { q with tailIndex := q.prevIndex q.tailIndex, itemCount := q.itemCount - 1 }.setSlot q.tailIndex default

/-- `newQLen` in `EnsureSize`. -/
def newQLen (q : Queue α) (size : Nat) (setNumItems : Bool) (extraPreallocs : Nat) : Nat :=
  let temp := word (size + extraPreallocs)
  max q.initialSize (if setNumItems ∨ temp ≤ smallQueueSize then max smallQueueSize temp else temp)

/-- The part of `EnsureSize` that gets another array. -/
def grow (q : Queue α) (size : Nat) (setNumItems : Bool) (extraPreallocs : Nat) : Queue α :=
  let newQLen := q.newQLen size setNumItems extraPreallocs
  let itemCount := if setNumItems then size else q.itemCount
  let copyTo (slots : Nat → α) : Nat → α := fun i => if i < q.itemCount then q.getItemAt i else slots i
  let grown := { q with itemCount, headIndex := 0, tailIndex := word (itemCount + (2 ^ 32 - 1)) }
  if q.isSmall ∨ newQLen > smallQueueSize then
    { grown with
      queue := .heap (copyTo fun _ => default) newQLen
      smallQueue := if q.isSmall then fun _ => default else q.smallQueue }
  else { grown with queue := .small, smallQueue := copyTo q.smallQueue }

/-- `EnsureSize` -/
def ensureSize (q : Queue α) (size : Nat) (setNumItems : Bool) (extraPreallocs : Nat) : Queue α :=
  let q := if q.isNull ∨ q.queueSize < size then q.grow size setNumItems extraPreallocs else q
  if setNumItems then
    if q.itemCount < size then
      { q with tailIndex := word (q.tailIndex + (size - q.itemCount)) % q.queueSize, itemCount := size }
    else removeTail^[q.itemCount - size] q
  else q

/-- `AddTail` of an item. -/
def addTail (q : Queue α) (item : α) : Queue α :=
  let q := q.ensureSize (word (q.itemCount + 1)) false (word (q.itemCount + 1))
  let q := if q.itemCount = 0 then { q with headIndex := 0, tailIndex := 0 }
    else { q with tailIndex := q.nextIndex q.tailIndex }
  { q with itemCount := q.itemCount + 1 }.setSlot q.tailIndex item

/-- `AddHead` of an item. -/
def addHead (q : Queue α) (item : α) : Queue α :=
  let q := q.ensureSize (word (q.itemCount + 1)) false (word (q.itemCount + 1))
  let q := if q.itemCount = 0 then { q with headIndex := 0, tailIndex := 0 }
    else { q with headIndex := q.prevIndex q.headIndex }
  { q with itemCount := q.itemCount + 1 }.setSlot q.headIndex item

/-- `ReplaceItemAt` -/
def replaceItemAt (q : Queue α) (index : Nat) (newItem : α) : Queue α :=
  if index ≥ q.itemCount then q else q.setSlot (q.internalizeIndex index) newItem

/-- How many items there are from `startIndex` on. -/
def numNewItems (hisSize startIndex numNewItems : Nat) : Nat :=
  min numNewItems (if startIndex < hisSize then hisSize - startIndex else 0)

/-- `AddTail` of a part of a queue, which is read by `read`: where it is this queue, that is its state by then. -/
def addTailOf (q : Queue α) (hisSize : Nat) (read : Queue α → Nat → α) (startIndex count : Nat) : Queue α :=
  let count := numNewItems hisSize startIndex count
  let mySize := q.itemCount
  (List.range count).foldl (fun q i => q.replaceItemAt (mySize + i) (read q (startIndex + i)))
    (q.ensureSize (word (mySize + count)) true 0)

/-- `AddHead` of a part of a queue. The counter has a sign: from `2 ^ 31` on it would count down through all numbers. -/
def addHeadOf (q : Queue α) (hisSize : Nat) (read : Queue α → Nat → α) (startIndex count : Nat) : Option (Queue α) :=
  if startIndex = 2 ^ 31 then none
  else
    let count := numNewItems hisSize startIndex count
    some ((List.range count).reverse.foldl (fun q i => q.addHead (read q (startIndex + i)))
      (q.ensureSize (word (count + q.itemCount)) false 0))

/-- The items before slot `i` move on by one. -/
def shiftFromHead : Nat → Nat → Queue α → Queue α
  | 0, _, q => q
  | fuel + 1, i, q =>
    if i = q.headIndex then q else shiftFromHead fuel (q.prevIndex i) (q.setSlot i (q.slots (q.prevIndex i)))

/-- The items after slot `i` move back by one. -/
def shiftFromTail : Nat → Nat → Queue α → Queue α
  | 0, _, q => q
  | fuel + 1, i, q =>
    if i = q.tailIndex then q else shiftFromTail fuel (q.nextIndex i) (q.setSlot i (q.slots (q.nextIndex i)))

/-- `RemoveItemAt` -/
def removeItemAt (q : Queue α) (index : Nat) : Queue α :=
  if index ≥ q.itemCount then q
  else if index < q.itemCount / 2 then
    let q := shiftFromHead q.queueSize (q.internalizeIndex index) q
    { q with headIndex := q.nextIndex q.headIndex, itemCount := q.itemCount - 1 }.setSlot q.headIndex default
  else
    let q := shiftFromTail q.queueSize (q.internalizeIndex index) q
    { q with tailIndex := q.prevIndex q.tailIndex, itemCount := q.itemCount - 1 }.setSlot q.tailIndex default

/-- `InsertItemAt` -/
def insertItemAt (q : Queue α) (index : Nat) (newItem : α) : Queue α :=
  if index > q.itemCount then q
  else if index = q.itemCount then q.addTail newItem
  else if index = 0 then q.addHead newItem
  else if index < q.itemCount / 2 then
    ((List.range index).foldl (fun q i => q.replaceItemAt i (q.getItemAt (i + 1))) (q.addHead default)).replaceItemAt
      index newItem
  else
    let q := q.addTail default
    ((List.range (q.itemCount - 1 - index)).foldl
      (fun q i => q.replaceItemAt (q.itemCount - 1 - i) (q.getItemAt (q.itemCount - 1 - i - 1))) q).replaceItemAt
      index newItem

/-- `Clear` -/
def clear (q : Queue α) (releaseCachedBuffers : Bool) : Queue α :=
  if releaseCachedBuffers ∧ q.isSmall = false then { q with queue := .null, itemCount := 0 }
  else removeTail^[q.itemCount] q

/-- `Swap` -/
def swap (q : Queue α) (fromIndex toIndex : Nat) : Queue α :=
  let temp := q.getItemAt fromIndex
  (q.replaceItemAt fromIndex (q.getItemAt toIndex)).replaceItemAt toIndex temp

def reverseLoop : Nat → Nat → Nat → Queue α → Queue α
  | 0, _, _, q => q
  | fuel + 1, first, last, q =>
    if first < last then reverseLoop fuel (first + 1) (last - 1) (q.swap first last) else q

/-- `ReverseItemOrdering` -/
def reverseItemOrdering (q : Queue α) (first toIndex : Nat) : Queue α :=
  if q.itemCount = 0 then q
  else
    let last := word (toIndex + (2 ^ 32 - 1))
    reverseLoop q.itemCount first (if last ≥ q.itemCount then q.itemCount - 1 else last) q

/-- `SwapContentsAux` -/
def swapContentsAux (q largeThat : Queue α) : Queue α × Queue α :=
  let ni := q.itemCount
  let smallQueue := fun i => if i < ni then q.getItemAt i else largeThat.smallQueue i
  ({ largeThat with smallQueue := q.smallQueue, initialSize := q.initialSize },
    if ni > 0 then ⟨smallQueue, .small, ni, 0, ni - 1, largeThat.initialSize⟩
    else { largeThat with smallQueue, queue := .null, itemCount := ni })

/-- `SwapContents` with another queue. -/
def swapContents (q that : Queue α) : Queue α × Queue α :=
  if q.isSmall ∧ that.isSmall then
    let commonSize := min q.itemCount that.itemCount
    let all := 2 ^ 32 - 1
    let moved :=
      if q.itemCount > that.itemCount then
        (q.ensureSize commonSize true 0, that.addTailOf q.itemCount (fun _ => q.getItemAt) commonSize all)
      else (q.addTailOf that.itemCount (fun _ => that.getItemAt) commonSize all, that.ensureSize commonSize true 0)
    (List.range commonSize).foldl
      (fun both i => (both.1.replaceItemAt i (both.2.getItemAt i), both.2.replaceItemAt i (both.1.getItemAt i))) moved
  else if q.isSmall then swapContentsAux q that
  else if that.isSmall then ((swapContentsAux that q).2, (swapContentsAux that q).1)
  else
    ({ that with smallQueue := q.smallQueue, initialSize := q.initialSize },
      { q with smallQueue := that.smallQueue, initialSize := that.initialSize })

end Queue

end BeShare.Muscle.Queues
