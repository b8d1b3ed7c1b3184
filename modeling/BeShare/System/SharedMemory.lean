import BeShare.Lib.Runs
import Mathlib.Algebra.BigOperators.Group.Finset.Basic
import Mathlib.Algebra.BigOperators.Group.Finset.Piecewise
import Mathlib.Algebra.Order.BigOperators.Group.Finset
import Mathlib.Data.Fintype.Basic

/-!
The memory areas that processes share, each under a semaphore that many readers or one writer can hold. Between any two
of its calls of the system a process can be interrupted by others, and it can come to its end.
-/

namespace BeShare.Muscle.SharedAreas

open Lib

def LARGEST_SEMAPHORE_DELTA : Nat :=
  10000

abbrev Key := Nat

def IPC_PRIVATE : Key :=
  0

/-- A semaphore of the system. Its ID is its place in the list of them all. -/
structure Semaphore where
  key : Key
  value : Nat
  removed : Bool

structure Segment where
  key : Key
  size : Nat
  removed : Bool

structure System where
  semaphores : List Semaphore
  segments : List Segment

namespace System

variable (sys : System)

/-- `semget` of one that is there. -/
def semaphore? (key : Key) : Option Nat :=
  sys.semaphores.findIdx? fun sem => !sem.removed && sem.key == key

def segment? (key : Key) : Option Nat :=
  sys.segments.findIdx? fun segment => !segment.removed && segment.key == key

def setSemaphore (semID : Nat) (f : Semaphore → Semaphore) : System :=
  { sys with semaphores := sys.semaphores.modify semID f }

/-- `semctl` with `IPC_RMID`. -/
def removeSemaphore (semID : Nat) : System :=
  sys.setSemaphore semID fun sem => { sem with removed := true }

def removeSegment (areaID : Nat) : System :=
  { sys with segments := sys.segments.modify areaID fun segment => { segment with removed := true } }

end System

/-- The object, without the name of the area. There is no ID where the code has -1. -/
structure SharedMemory where
  key : Key
  areaID : Option Nat
  semID : Option Nat
  area : Option Nat
  areaSize : Nat
  isLocked : Bool
  isLockedReadOnly : Bool
  isCreatedLocally : Bool

/-- The arguments of `SetArea`, with the key that the name gives. -/
structure SetArea where
  requestedKey : Key
  createSize : Nat
  returnLocked : Bool

/-- What the code goes on with when the area is unlocked. -/
inductive AfterUnlock where
  | done
  | unset
  | setArea (args : SetArea)
  | delete

/-- The call of the system that a process has come to. -/
inductive Pc where
  | idle
  | semCreate (args : SetArea)
  | semSetVal (args : SetArea)
  | semGet (args : SetArea)
  | lockToSet (args : SetArea)
  | shmGet (args : SetArea)
  | shmCreate (args : SetArea)
  | shmAttach (args : SetArea)
  | shmStat (args : SetArea)
  | lock
  | lockToDelete
  | shmRemove
  | semRemove
  | unlock (next : AfterUnlock)

structure Process where
  mem : SharedMemory
  pc : Pc

/-- What the program calls. -/
inductive Call where
  | setArea (args : SetArea)
  | unsetArea
  | lockArea (readOnly : Bool)
  | unlockArea
  | deleteArea

/-- By how much a lock takes the semaphore down. -/
def delta (readOnly : Bool) : Nat :=
  if readOnly then 1 else LARGEST_SEMAPHORE_DELTA

namespace SharedMemory

def new : SharedMemory :=
  ⟨IPC_PRIVATE, none, none, none, 0, false, false, false⟩

/-- What `UnsetArea` does to an area that is not locked. -/
def reset (mem : SharedMemory) : SharedMemory :=
  { mem with
    key := IPC_PRIVATE
    areaID := none
    semID := none
    area := none
    areaSize := 0
    isCreatedLocally := false }

def unlocked (mem : SharedMemory) : SharedMemory :=
  { mem with isLocked := false, isLockedReadOnly := false }

end SharedMemory

namespace Process

variable (p : Process)

/-- `UnlockArea`, up to its call of the system if it makes one. -/
def unlockArea (next : AfterUnlock) (without : Process → Process) : Process :=
  if p.mem.isLocked && p.mem.semID.isSome then { p with pc := .unlock next }
  else without { p with mem := if p.mem.isLocked then p.mem.unlocked else p.mem }

def unsetArea : Process :=
  p.unlockArea .unset fun p => ⟨p.mem.reset, .idle⟩

/-- `LockArea`, up to its call of the system: it is `waiting` then. -/
def lockArea (readOnly : Bool) (waiting : Pc) (failed : Process → Process) : Process :=
  if p.mem.isLocked || p.mem.semID.isNone then failed p
  else { mem := { p.mem with isLocked := true, isLockedReadOnly := readOnly }, pc := waiting }

def idle : Process :=
  { p with pc := .idle }

/-- `SetArea` once it has the semaphore. -/
def lockToSet (args : SetArea) : Process :=
  { p with mem := { p.mem with key := args.requestedKey } }.lockArea false (.lockToSet args) unsetArea

/-- The code after `UnlockArea`. -/
def afterUnlock : AfterUnlock → Process
  | .done => p.idle
  | .unset => ⟨p.mem.reset, .idle⟩
  | .setArea args => ⟨p.mem.reset, .semCreate args⟩
  | .delete => p.lockArea false .lockToDelete idle

def call : Call → Process
  | .setArea args => p.unlockArea (.setArea args) fun p => ⟨p.mem.reset, .semCreate args⟩
  | .unsetArea => p.unsetArea
  | .lockArea readOnly => p.lockArea readOnly .lock idle
  | .unlockArea => p.unlockArea .done idle
  | .deleteArea =>
    if p.mem.semID.isNone then p
    else if p.mem.isLocked && p.mem.isLockedReadOnly then { p with pc := .unlock .delete }
    else if p.mem.isLocked then { p with pc := .shmRemove }
    else p.lockArea false .lockToDelete idle

/-- The code after a lock that it has waited for. -/
def locked : Process :=
  match p.pc with
  | .lockToSet args => { p with pc := .shmGet args }
  | .lockToDelete => { p with pc := .shmRemove }
  | _ => p.idle

/-- The code after a lock that it does not get. -/
def notLocked : Process :=
  let p : Process := { p with mem := p.mem.unlocked }
  match p.pc with
  | .lockToSet _ => p.unsetArea
  | _ => p.idle

def Waits : Prop :=
  match p.pc with
  | .lock | .lockToSet _ | .lockToDelete => True
  | _ => False

instance : Decidable p.Waits := by
  unfold Waits
  split <;> infer_instance

/-- `semop` of `AdjustSemaphore`, for a lock. A process waits, if the semaphore would become negative. -/
def adjust (sys : System) (semID : Nat) : System × Process :=
  match sys.semaphores[semID]? with
  | some sem =>
    if sem.removed then (sys, p.notLocked)
    else if delta p.mem.isLockedReadOnly ≤ sem.value then
      (sys.setSemaphore semID fun sem => { sem with value := sem.value - delta p.mem.isLockedReadOnly }, p.locked)
    else (sys, p)
  | none => (sys, p.notLocked)

/-- What is locked is given back. -/
def release (sys : System) : System :=
  match p.mem.semID with
  | some semID => sys.setSemaphore semID fun sem => { sem with value := sem.value + delta p.mem.isLockedReadOnly }
  | none => sys

def semCreate (sys : System) (args : SetArea) : System × Process :=
  match sys.semaphore? args.requestedKey with
  | some _ => (sys, { p with pc := .semGet args })
  | none =>
    ({ sys with semaphores := sys.semaphores ++ [⟨args.requestedKey, 0, false⟩] },
      { mem := { p.mem with semID := some sys.semaphores.length }, pc := .semSetVal args })

def semSetVal (sys : System) (args : SetArea) (semID : Nat) : System × Process :=
  match sys.semaphores[semID]?.filter fun sem => !sem.removed with
  | some _ => (sys.setSemaphore semID fun sem => { sem with value := LARGEST_SEMAPHORE_DELTA }, p.lockToSet args)
  | none => (sys, { p with mem := { p.mem with semID := none } }.unsetArea)

def semGet (sys : System) (args : SetArea) : System × Process :=
  match sys.semaphore? args.requestedKey with
  | some semID => (sys, { p with mem := { p.mem with semID := some semID } }.lockToSet args)
  | none => (sys, p.unsetArea)

def found (sys : System) (args : SetArea) (areaID : Nat) : System × Process :=
  (sys, { mem := { p.mem with areaID := some areaID }, pc := .shmAttach args })

def shmGet (sys : System) (args : SetArea) : System × Process :=
  match sys.segment? p.mem.key with
  | some areaID => p.found sys args areaID
  | none => (sys, if 0 < args.createSize then { p with pc := .shmCreate args } else p.unsetArea)

def shmCreate (sys : System) (args : SetArea) : System × Process :=
  let p : Process := { p with mem := { p.mem with isCreatedLocally := true } }
  match sys.segment? p.mem.key with
  | some _ => (sys, p.unsetArea)
  | none =>
    p.found { sys with segments := sys.segments ++ [⟨p.mem.key, args.createSize, false⟩] } args sys.segments.length

def shmStat (sys : System) (args : SetArea) : Process :=
  match p.mem.areaID.bind (sys.segments[·]?) with
  | some segment =>
    let p : Process := { p with mem := { p.mem with areaSize := segment.size } }
    if args.returnLocked then p.idle else p.unlockArea .done idle
  | none => p.unsetArea

/-- The call of the system that the process has come to, and the code after it. -/
def run (sys : System) : System × Process :=
  match p.pc, p.mem.semID with
  | .idle, _ => (sys, p)
  | .semCreate args, _ => p.semCreate sys args
  | .semSetVal args, some semID => p.semSetVal sys args semID
  | .semGet args, _ => p.semGet sys args
  | .lockToSet _, some semID | .lock, some semID | .lockToDelete, some semID => p.adjust sys semID
  | .shmGet args, _ => p.shmGet sys args
  | .shmCreate args, _ => p.shmCreate sys args
  | .shmAttach args, _ => (sys, { mem := { p.mem with area := p.mem.areaID }, pc := .shmStat args })
  | .shmStat args, _ => (sys, p.shmStat sys args)
  | .shmRemove, _ =>
    ((p.mem.areaID.map sys.removeSegment).getD sys, { mem := { p.mem with areaID := none }, pc := .semRemove })
  | .semRemove, some semID =>
    (sys.removeSemaphore semID, { p with mem := { p.mem with semID := none } }.unsetArea)
  | .unlock next, _ => (p.release sys, { p with mem := p.mem.unlocked }.afterUnlock next)
  -- It has a semaphore when it comes to the other calls.
  | _, none => (sys, p)

/-- How much of a semaphore the process has. -/
def holds (semID : Nat) : Nat :=
  if p.mem.semID = some semID ∧ p.mem.isLocked ∧ ¬p.Waits then delta p.mem.isLockedReadOnly else 0

end Process

/-- The process may use the area. -/
def Process.Locked (p : Process) : Prop :=
  p.mem.isLocked = true ∧ ¬p.Waits

instance (p : Process) : Decidable p.Locked :=
  inferInstanceAs (Decidable (_ ∧ _))

/-- A call, the next call of the system, a signal, or the end of the process, which undoes what it did to the
semaphores. -/
inductive Event where
  | call (call : Call)
  | run
  | interrupt
  | exit

structure World (P : Type) where
  sys : System
  procs : P → Process

def Process.step (p : Process) (sys : System) : Event → System × Process
  | .call call =>
    match p.pc with
    | .idle => (sys, p.call call)
    | _ => (sys, p)
  | .run => p.run sys
  | .interrupt => if p.Waits then (sys, p.notLocked) else (sys, p)
  | .exit => (if p.mem.isLocked && !p.Waits then p.release sys else sys, ⟨.new, .idle⟩)

def World.step {P : Type} [DecidableEq P] (w : World P) (e : P × Event) : World P :=
  let (sys, p) := (w.procs e.1).step w.sys e.2
  ⟨sys, Function.update w.procs e.1 p⟩

def World.new {P : Type} : World P :=
  ⟨⟨[], []⟩, fun _ => ⟨.new, .idle⟩⟩

/-! ### What a process knows of the system -/

/-- Semaphores and segments stay where they are, with their keys. -/
structure Extends (sys sys' : System) : Prop where
  semaphores : ∀ (s : Nat) (sem : Semaphore), sys.semaphores[s]? = some sem →
    ∃ sem' : Semaphore, sys'.semaphores[s]? = some sem' ∧ sem'.key = sem.key
  segments : ∀ (a : Nat) (segment : Segment), sys.segments[a]? = some segment →
    ∃ segment' : Segment, sys'.segments[a]? = some segment' ∧ segment'.key = segment.key

/-- What the object is of has its key, and it is locked with a semaphore only. -/
structure SharedMemory.Ok (sys : System) (mem : SharedMemory) : Prop where
  sem : ∀ s, mem.semID = some s → ∃ sem : Semaphore, sys.semaphores[s]? = some sem ∧ mem.key = sem.key
  segment : ∀ a, mem.areaID = some a ∨ mem.area = some a →
    ∃ segment : Segment, sys.segments[a]? = some segment ∧ mem.key = segment.key
  locked : mem.isLocked = true → mem.semID.isSome = true

def SharedMemory.Fresh (mem : SharedMemory) : Prop :=
  mem.areaID = none ∧ mem.area = none ∧ mem.isLocked = false

/-- The object, with the key that it is about to take over. -/
def Process.known (p : Process) : SharedMemory :=
  match p.pc with
  | .semSetVal args => { p.mem with key := args.requestedKey }
  | _ => p.mem

/-- What the process has when it comes to a call of the system. -/
def Process.PcOk (p : Process) : Prop :=
  match p.pc with
  | .idle => True
  | .semCreate _ | .semGet _ => p.mem.semID = none ∧ p.mem.Fresh
  | .semSetVal _ => p.mem.semID.isSome = true ∧ p.mem.Fresh
  | .lock | .unlock _ => p.mem.isLocked = true
  | _ => p.mem.isLocked = true ∧ p.mem.isLockedReadOnly = false

structure Process.Ok (sys : System) (p : Process) : Prop where
  mem : p.known.Ok sys
  pc : p.PcOk

def Process.Setting (p : Process) : Prop :=
  match p.pc with
  | .semSetVal _ => True
  | _ => False

section

variable {sys sys' : System} {p : Process} {mem : SharedMemory}

theorem Extends.refl (sys : System) : Extends sys sys :=
  ⟨fun _ sem h => ⟨sem, h, rfl⟩, fun _ segment h => ⟨segment, h, rfl⟩⟩

theorem getElem?_modify_of_eq {α : Type} {l : List α} {j : Nat} {a : α} (h : l[j]? = some a) (i : Nat) (f : α → α) :
    (l.modify i f)[j]? = some (if i = j then f a else a) := by
  rw [List.getElem?_modify, h]
  rfl

theorem extends_setSemaphore (sys : System) (semID : Nat) {f : Semaphore → Semaphore}
    (hKey : ∀ sem, (f sem).key = sem.key) :
    Extends sys (sys.setSemaphore semID f) where
  semaphores s sem h := by
    refine ⟨_, getElem?_modify_of_eq h semID f, ?_⟩
    split
    · exact hKey sem
    · rfl
  segments := (Extends.refl sys).segments

theorem extends_removeSegment (sys : System) (areaID : Nat) : Extends sys (sys.removeSegment areaID) where
  semaphores := (Extends.refl sys).semaphores
  segments a segment h := by
    refine ⟨_, getElem?_modify_of_eq h areaID _, ?_⟩
    split <;> rfl

theorem SharedMemory.Ok.mono (h : mem.Ok sys) (hExtends : Extends sys sys') : mem.Ok sys' where
  sem s hSem := by
    obtain ⟨sem, hThere, hKey⟩ := h.sem s hSem
    obtain ⟨sem', hThere', hSame⟩ := hExtends.semaphores s sem hThere
    exact ⟨sem', hThere', hSame ▸ hKey⟩
  segment a hArea := by
    obtain ⟨segment, hThere, hKey⟩ := h.segment a hArea
    obtain ⟨segment', hThere', hSame⟩ := hExtends.segments a segment hThere
    exact ⟨segment', hThere', hSame ▸ hKey⟩
  locked := h.locked

theorem Process.Ok.mono (h : p.Ok sys) (hExtends : Extends sys sys') : p.Ok sys' :=
  ⟨h.mem.mono hExtends, h.pc⟩

/-! ### What a process does to its object -/

namespace SharedMemory

theorem ok_reset (sys : System) (hUnlocked : mem.isLocked = false) : mem.reset.Ok sys where
  sem _ hSem := absurd hSem (Option.some_ne_none _).symm
  segment _ hArea := (hArea.elim (absurd · (Option.some_ne_none _).symm) (absurd · (Option.some_ne_none _).symm))
  locked hLocked := absurd (hUnlocked.symm.trans hLocked) Bool.false_ne_true

theorem Ok.unlocked (h : mem.Ok sys) : mem.unlocked.Ok sys where
  sem := h.sem
  segment := h.segment
  locked hLocked := absurd hLocked Bool.false_ne_true

/-- Without its semaphore, an object that is not locked. -/
theorem Ok.withoutSem (h : mem.Ok sys) (hUnlocked : mem.isLocked = false) : { mem with semID := none }.Ok sys where
  sem _ hSem := absurd hSem (Option.some_ne_none _).symm
  segment := h.segment
  locked hLocked := absurd (hUnlocked.symm.trans hLocked) Bool.false_ne_true

end SharedMemory

namespace Process

variable {next : AfterUnlock} {without failed : Process → Process} {waiting : Pc} {readOnly : Bool} {s : Nat}

theorem holds_of_unlocked (h : p.mem.isLocked = false) (s : Nat) : p.holds s = 0 :=
  if_neg fun hHolds => Bool.false_ne_true (h.symm.trans hHolds.2.1)

theorem holds_of_waits (h : p.Waits) (s : Nat) : p.holds s = 0 :=
  if_neg fun hHolds => hHolds.2.2 h

theorem holds_of_none (h : p.mem.semID = none) (s : Nat) : p.holds s = 0 :=
  if_neg fun hHolds => Option.some_ne_none _ (hHolds.1.symm.trans h)

/-- Two processes with one lock have the same, wherever they are. -/
theorem holds_congr {q : Process} (hSem : q.mem.semID = p.mem.semID) (hLocked : q.mem.isLocked = p.mem.isLocked)
    (hReadOnly : q.mem.isLockedReadOnly = p.mem.isLockedReadOnly) (hp : ¬p.Waits) (hq : ¬q.Waits) (s : Nat) :
    q.holds s = p.holds s := by
  unfold holds
  rw [hSem, hLocked, hReadOnly]
  exact if_congr (and_congr_right fun _ => and_congr_right fun _ => iff_of_true hq hp) rfl rfl

theorem holds_eq (hLocked : p.mem.isLocked = true) (hWaits : ¬p.Waits) (hSem : p.mem.semID = some s) (t : Nat) :
    p.holds t = if t = s then delta p.mem.isLockedReadOnly else 0 := by
  unfold holds
  rw [hSem]
  by_cases hSame : t = s
  · rw [if_pos hSame, if_pos ⟨congrArg some hSame.symm, hLocked, hWaits⟩]
  · rw [if_neg hSame, if_neg fun hHolds => hSame (Option.some.inj hHolds.1).symm]

/-- What is kept by the code between two calls of the system. -/
structure Keeps (sys : System) (p p' : Process) : Prop where
  ok : p'.Ok sys
  holds : ∀ s, p'.holds s = p.holds s
  setting : ¬p'.Setting

theorem keeps_idle (h : p.mem.Ok sys) (hWaits : ¬p.Waits) : Keeps sys p p.idle where
  ok := ⟨h, trivial⟩
  holds := holds_congr rfl rfl rfl hWaits id
  setting := id

theorem keeps_reset (hUnlocked : p.mem.isLocked = false) : Keeps sys p ⟨p.mem.reset, .idle⟩ where
  ok := ⟨SharedMemory.ok_reset sys hUnlocked, trivial⟩
  holds s := (holds_of_unlocked (p := ⟨p.mem.reset, .idle⟩) hUnlocked s).trans (holds_of_unlocked hUnlocked s).symm
  setting := id

theorem keeps_create (hUnlocked : p.mem.isLocked = false) (args : SetArea) :
    Keeps sys p ⟨p.mem.reset, .semCreate args⟩ where
  ok := ⟨SharedMemory.ok_reset sys hUnlocked, rfl, rfl, rfl, hUnlocked⟩
  holds s := (holds_of_unlocked (p := ⟨p.mem.reset, .semCreate args⟩) hUnlocked s).trans
    (holds_of_unlocked hUnlocked s).symm
  setting := id

theorem keeps_unlockArea (next : AfterUnlock) (h : p.mem.Ok sys) (hWaits : ¬p.Waits)
    (hWithout : ∀ q : Process, q.mem.Ok sys → q.mem.isLocked = false → ¬q.Waits → Keeps sys q (without q)) :
    Keeps sys p (p.unlockArea next without) := by
  unfold unlockArea
  split
  · rename_i hBoth
    exact ⟨⟨h, (Bool.and_eq_true_iff.mp hBoth).1⟩, holds_congr rfl rfl rfl hWaits id, id⟩
  · rename_i hNot
    by_cases hLocked : p.mem.isLocked = true
    · exact absurd (Bool.and_eq_true_iff.mpr ⟨hLocked, h.locked hLocked⟩) hNot
    · rw [if_neg hLocked]
      exact hWithout p h (Bool.not_eq_true _ ▸ hLocked) hWaits

theorem keeps_unsetArea (h : p.mem.Ok sys) (hWaits : ¬p.Waits) : Keeps sys p p.unsetArea :=
  keeps_unlockArea _ h hWaits fun _ _ hUnlocked _ => keeps_reset hUnlocked

theorem keeps_lockArea (h : p.mem.Ok sys) (hFailed : Keeps sys p (failed p))
    (hWaiting : waiting = .lock ∨ readOnly = false ∧ (waiting = .lockToDelete ∨ ∃ args, waiting = .lockToSet args)) :
    Keeps sys p (p.lockArea readOnly waiting failed) := by
  unfold lockArea
  split
  · exact hFailed
  · rename_i hNot
    rw [Bool.or_eq_true, not_or] at hNot
    have hUnlocked : p.mem.isLocked = false := Bool.not_eq_true _ ▸ hNot.1
    have hMem : { p.mem with isLocked := true, isLockedReadOnly := readOnly }.Ok sys :=
      ⟨h.sem, h.segment, fun _ => by simpa [Option.isSome_iff_ne_none] using hNot.2⟩
    have hNone (q : Process) (hq : q.Waits) (s : Nat) : q.holds s = p.holds s :=
      (holds_of_waits hq s).trans (holds_of_unlocked hUnlocked s).symm
    rcases hWaiting with rfl | ⟨rfl, rfl | ⟨args, rfl⟩⟩
    · exact ⟨⟨hMem, rfl⟩, hNone _ trivial, id⟩
    · exact ⟨⟨hMem, rfl, rfl⟩, hNone _ trivial, id⟩
    · exact ⟨⟨hMem, rfl, rfl⟩, hNone _ trivial, id⟩

theorem not_waits_idle (hPc : p.pc = .idle) : ¬p.Waits := by
  unfold Waits
  rw [hPc]
  exact id

theorem known_eq (hSetting : ¬p.Setting) : p.known = p.mem := by
  unfold known
  unfold Setting at hSetting
  split at hSetting
  · exact absurd trivial hSetting
  · rfl

theorem keeps_call (h : p.Ok sys) (hPc : p.pc = .idle) (call : Call) : Keeps sys p (p.call call) := by
  have hWaits := not_waits_idle hPc
  have hMem : p.mem.Ok sys := by
    have hKnown := h.mem
    unfold known at hKnown
    rwa [hPc] at hKnown
  have hSame : p.idle = p := by
    obtain ⟨mem, pc⟩ := p
    cases hPc
    rfl
  cases call with
  | setArea args => exact keeps_unlockArea _ hMem hWaits fun q _ hUnlocked _ => keeps_create hUnlocked args
  | unsetArea => exact keeps_unsetArea hMem hWaits
  | lockArea readOnly => exact keeps_lockArea hMem (keeps_idle hMem hWaits) (.inl rfl)
  | unlockArea => exact keeps_unlockArea _ hMem hWaits fun q hq _ hNot => keeps_idle hq hNot
  | deleteArea =>
    unfold Process.call
    dsimp only
    split
    · have hIdle : Keeps sys p p.idle := keeps_idle hMem hWaits
      rwa [hSame] at hIdle
    · split
      · rename_i hBoth
        exact ⟨⟨hMem, (Bool.and_eq_true_iff.mp hBoth).1⟩, holds_congr rfl rfl rfl hWaits id, id⟩
      · split
        · rename_i hNot hLocked
          have hWrites : p.mem.isLockedReadOnly = false := by simpa [hLocked] using hNot
          exact ⟨⟨hMem, hLocked, hWrites⟩, holds_congr rfl rfl rfl hWaits id, id⟩
        · exact keeps_lockArea hMem (keeps_idle hMem hWaits) (.inr ⟨rfl, .inl rfl⟩)

/-- A process that does not get its lock has nothing of the semaphore, as before. -/
theorem keeps_notLocked (h : p.mem.Ok sys) (hWaits : p.Waits) : Keeps sys p p.notLocked := by
  have hNone (q : Process) (hq : Keeps sys { p with mem := p.mem.unlocked, pc := .idle } q) : Keeps sys p q :=
    ⟨hq.ok, fun s => (hq.holds s).trans ((holds_of_unlocked rfl s).trans (holds_of_waits hWaits s).symm), hq.setting⟩
  unfold notLocked
  dsimp only
  split
  · exact hNone _ (keeps_reset rfl)
  · exact hNone _ (keeps_idle h.unlocked id)

/-- What a step of a process can do to the semaphores, and to what the process has of them. -/
inductive Effect (sys sys' : System) (p p' : Process) : Prop where
  | none (hSame : sys'.semaphores = sys.semaphores) (hHolds : ∀ s, p'.holds s = p.holds s)
    (hSetting : p'.Setting → p' = p)
  | create (key : Key) (hNone : sys.semaphore? key = .none)
    (hNew : sys'.semaphores = sys.semaphores ++ [⟨key, 0, false⟩]) (hHolds : ∀ s, p.holds s = 0)
    (hHolds' : ∀ s, p'.holds s = 0) (hSem : p'.mem.semID = some sys.semaphores.length)
  | setVal (s : Nat) (hSetting : p.Setting) (hSem : p.mem.semID = some s)
    (hSet : sys' = sys.setSemaphore s fun sem => { sem with value := LARGEST_SEMAPHORE_DELTA })
    (hHolds : ∀ t, p'.holds t = p.holds t) (hDone : ¬p'.Setting)
  | change (s : Nat) (f : Nat → Nat) (hChange : sys' = sys.setSemaphore s fun sem => { sem with value := f sem.value })
    (hHere : ∀ sem, sys.semaphores[s]? = some sem → sem.removed = false →
      f sem.value + p'.holds s = sem.value + p.holds s)
    (hRemoved : ∀ sem, sys.semaphores[s]? = some sem → sem.removed = true → p'.holds s ≤ p.holds s)
    (hHolds : ∀ t, t ≠ s → p'.holds t = p.holds t) (hSetting : ¬p'.Setting)
  | remove (s : Nat) (hRemove : sys' = sys.removeSemaphore s) (hAll : p.holds s = LARGEST_SEMAPHORE_DELTA)
    (hHolds : ∀ t, t ≠ s → p.holds t = 0) (hHolds' : ∀ t, p'.holds t = 0) (hSetting : ¬p'.Setting)

theorem Keeps.effect {p' : Process} (h : Keeps sys p p') (hSame : sys'.semaphores = sys.semaphores) :
    Effect sys sys' p p' :=
  .none hSame h.holds fun hSetting => absurd hSetting h.setting

theorem release_effect {p' : Process} (hLocked : p.mem.isLocked = true) (hWaits : ¬p.Waits) (hMem : p.mem.Ok sys)
    (hHolds : ∀ s, p'.holds s = 0) (hSetting : ¬p'.Setting) : Effect sys (p.release sys) p p' := by
  obtain ⟨s, hSem⟩ := Option.isSome_iff_exists.mp (hMem.locked hLocked)
  have hHere := holds_eq hLocked hWaits hSem
  refine .change s (· + delta p.mem.isLockedReadOnly) ?_ (fun sem _ _ => ?_) (fun sem _ _ => ?_)
    (fun t ht => ?_) hSetting
  · unfold release
    rw [hSem]
  · rw [hHolds, hHere, if_pos rfl]
    rfl
  · rw [hHolds]
    exact Nat.zero_le _
  · rw [hHolds, hHere, if_neg ht]

theorem locked_ok (h : p.mem.Ok sys) (hPc : p.PcOk) (hWaits : p.Waits) :
    p.locked.Ok sys ∧ p.locked.mem = p.mem ∧ ¬p.locked.Waits ∧ ¬p.locked.Setting ∧ p.mem.isLocked = true := by
  unfold PcOk at hPc
  unfold Waits at hWaits
  unfold locked
  split at hWaits
  · rename_i hHere
    rw [hHere] at hPc ⊢
    exact ⟨⟨h, trivial⟩, rfl, id, id, hPc⟩
  · rename_i args hHere
    rw [hHere] at hPc ⊢
    exact ⟨⟨h, hPc⟩, rfl, id, id, hPc.1⟩
  · rename_i hHere
    rw [hHere] at hPc ⊢
    exact ⟨⟨h, hPc⟩, rfl, id, id, hPc.1⟩
  · exact hWaits.elim

/-- A waiting process gets what it waits for, or nothing changes. -/
theorem adjust_does (h : p.mem.Ok sys) (hPc : p.PcOk) (hOk : p.Ok sys) (hWaits : p.Waits) {s : Nat}
    (hSem : p.mem.semID = some s) :
    Extends sys (p.adjust sys s).1 ∧ (p.adjust sys s).2.Ok sys ∧
      Effect sys (p.adjust sys s).1 p (p.adjust sys s).2 := by
  have hNot := keeps_notLocked h hWaits
  obtain ⟨sem, hThere, -⟩ := h.sem s hSem
  unfold adjust
  rw [hThere]
  dsimp only
  split
  · exact ⟨.refl sys, hNot.ok, hNot.effect rfl⟩
  · rename_i hRemoved
    split
    · rename_i hEnough
      obtain ⟨hLockedOk, hMem, hNotWaits, hSetting, hLocked⟩ := locked_ok h hPc hWaits
      have hHolds := holds_eq (hMem ▸ hLocked) hNotWaits (hMem ▸ hSem)
      rw [hMem] at hHolds
      refine ⟨extends_setSemaphore sys s fun _ => rfl, hLockedOk, .change s (· - delta p.mem.isLockedReadOnly) rfl
        (fun sem' hThere' _ => ?_) (fun sem' hThere' hRemoved' => ?_) (fun t ht => ?_) hSetting⟩
      · obtain rfl := Option.some.inj (hThere.symm.trans hThere')
        rw [hHolds, if_pos rfl, holds_of_waits hWaits]
        exact Nat.sub_add_cancel hEnough
      · obtain rfl := Option.some.inj (hThere.symm.trans hThere')
        exact absurd hRemoved' hRemoved
      · rw [hHolds, if_neg ht, holds_of_waits hWaits]
    · exact ⟨.refl sys, hOk, .none rfl (fun _ => rfl) fun _ => rfl⟩

/-- What one step keeps and does. -/
structure Does (sys sys' : System) (p p' : Process) : Prop where
  grows : Extends sys sys'
  ok : p'.Ok sys'
  effect : Effect sys sys' p p'

theorem Keeps.does {p' : Process} (h : Keeps sys p p') : Does sys sys p p' :=
  ⟨.refl sys, h.ok, h.effect rfl⟩

theorem semaphore?_eq_some {key : Key} (h : sys.semaphore? key = some s) :
    ∃ sem, sys.semaphores[s]? = some sem ∧ sem.removed = false ∧ sem.key = key := by
  obtain ⟨hLt, hFound, -⟩ := List.findIdx?_eq_some_iff_getElem.mp h
  rw [Bool.and_eq_true, Bool.not_eq_true', beq_iff_eq] at hFound
  exact ⟨_, List.getElem?_eq_getElem hLt, hFound⟩

theorem segment?_eq_some {key : Key} {a : Nat} (h : sys.segment? key = some a) :
    ∃ segment, sys.segments[a]? = some segment ∧ segment.key = key := by
  obtain ⟨hLt, hFound, -⟩ := List.findIdx?_eq_some_iff_getElem.mp h
  rw [Bool.and_eq_true, beq_iff_eq] at hFound
  exact ⟨_, List.getElem?_eq_getElem hLt, hFound.2⟩

theorem keeps_lockToSet {args : SetArea} (hMem : { p.mem with key := args.requestedKey }.Ok sys) (hWaits : ¬p.Waits) :
    Keeps sys p (p.lockToSet args) :=
  have h := keeps_lockArea (p := { p with mem := { p.mem with key := args.requestedKey } }) hMem
    (keeps_unsetArea hMem hWaits) (.inr ⟨rfl, .inr ⟨args, rfl⟩⟩)
  ⟨h.ok, h.holds, h.setting⟩

theorem does_found (args : SetArea) {sys' : System} {a : Nat} {segment : Segment} (hMem : p.mem.Ok sys)
    (hGrows : Extends sys sys') (hSems : sys'.semaphores = sys.semaphores) (hThere : sys'.segments[a]? = some segment)
    (hKey : p.mem.key = segment.key) (hWaits : ¬p.Waits)
    (hLocked : p.mem.isLocked = true ∧ p.mem.isLockedReadOnly = false) :
    Does sys (p.found sys' args a).1 p (p.found sys' args a).2 where
  grows := hGrows
  ok := by
    refine ⟨⟨(hMem.mono hGrows).sem, fun b hb => ?_, (hMem.mono hGrows).locked⟩, hLocked⟩
    rcases hb with hArea | hArea
    · obtain rfl := Option.some.inj hArea
      exact ⟨segment, hThere, hKey⟩
    · exact (hMem.mono hGrows).segment b (.inr hArea)
  effect := .none hSems (holds_congr rfl rfl rfl hWaits id) False.elim

theorem ok_of_fresh {q : Process} (hSem : q.mem.semID = none) (hFresh : q.mem.Fresh) : q.mem.Ok sys where
  sem _ hs := absurd (hSem.symm.trans hs) (Option.some_ne_none _).symm
  segment _ hOld := hOld.elim (fun hSame => absurd (hFresh.1.symm.trans hSame) (Option.some_ne_none _).symm)
    fun hSame => absurd (hFresh.2.1.symm.trans hSame) (Option.some_ne_none _).symm
  locked hLocked := absurd (hFresh.2.2.symm.trans hLocked) Bool.false_ne_true

theorem ok_of_sem {q : Process} (sem : Semaphore) (hSem : q.mem.semID = some s) (hThere : sys.semaphores[s]? = some sem)
    (hFresh : q.mem.Fresh) : { q.mem with key := sem.key }.Ok sys where
  sem _ ht := ⟨sem, Option.some.inj (hSem.symm.trans ht) ▸ hThere, rfl⟩
  segment _ hOld := hOld.elim (fun hSame => absurd (hFresh.1.symm.trans hSame) (Option.some_ne_none _).symm)
    fun hSame => absurd (hFresh.2.1.symm.trans hSame) (Option.some_ne_none _).symm
  locked _ := Option.isSome_iff_exists.mpr ⟨s, hSem⟩

theorem semCreate_does {args : SetArea} (hSem : p.mem.semID = none) (hFresh : p.mem.Fresh) (hWaits : ¬p.Waits) :
    Does sys (p.semCreate sys args).1 p (p.semCreate sys args).2 := by
  unfold semCreate
  split
  · exact Keeps.does ⟨⟨ok_of_fresh (q := p) hSem hFresh, hSem, hFresh⟩, holds_congr rfl rfl rfl hWaits id, id⟩
  · rename_i hNone
    refine ⟨⟨fun s sem hOld => ⟨sem, ?_, rfl⟩, fun a segment hOld => ⟨segment, hOld, rfl⟩⟩,
      ⟨?_, rfl, hFresh⟩, .create args.requestedKey hNone rfl (holds_of_unlocked hFresh.2.2)
      (holds_of_unlocked hFresh.2.2) rfl⟩
    · obtain ⟨hLt, -⟩ := List.getElem?_eq_some_iff.mp hOld
      exact (List.getElem?_append_left hLt).trans hOld
    · exact ok_of_sem (q := ⟨{ p.mem with semID := some sys.semaphores.length }, .semSetVal args⟩)
        ⟨args.requestedKey, 0, false⟩ rfl List.getElem?_concat_length hFresh

theorem semSetVal_does {args : SetArea} (h : { p.mem with key := args.requestedKey }.Ok sys) (hFresh : p.mem.Fresh)
    (hPc : p.pc = .semSetVal args) {s : Nat} (hSem : p.mem.semID = some s) :
    Does sys (p.semSetVal sys args s).1 p (p.semSetVal sys args s).2 := by
  have hSetting : p.Setting := by
    unfold Setting
    rw [hPc]
    trivial
  have hWaits : ¬p.Waits := by
    unfold Waits
    rw [hPc]
    exact id
  unfold semSetVal
  split
  · have hGrows := extends_setSemaphore sys s (f := fun sem => { sem with value := LARGEST_SEMAPHORE_DELTA })
        fun _ => rfl
    have hKeeps := keeps_lockToSet (p := p) (h.mono hGrows) hWaits
    exact ⟨hGrows, hKeeps.ok, .setVal s hSetting hSem rfl hKeeps.holds hKeeps.setting⟩
  · have hMem : { p.mem with semID := none }.Ok sys :=
      ok_of_fresh (q := { p with mem := { p.mem with semID := none } }) rfl hFresh
    have hKeeps := keeps_unsetArea (p := { p with mem := { p.mem with semID := none } }) hMem hWaits
    exact Keeps.does ⟨hKeeps.ok, fun t => (hKeeps.holds t).trans ((holds_of_none rfl t).trans
      (holds_of_unlocked hFresh.2.2 t).symm), hKeeps.setting⟩

theorem semGet_does {args : SetArea} (hSem : p.mem.semID = none) (hFresh : p.mem.Fresh) (hWaits : ¬p.Waits) :
    Does sys (p.semGet sys args).1 p (p.semGet sys args).2 := by
  unfold semGet
  split
  · rename_i s hFound
    obtain ⟨sem, hThere, -, hKey⟩ := semaphore?_eq_some hFound
    have hMem := ok_of_sem (q := { p with mem := { p.mem with semID := some s } }) sem rfl hThere hFresh
    rw [hKey] at hMem
    have hKeeps := keeps_lockToSet (p := { p with mem := { p.mem with semID := some s } }) hMem hWaits
    exact Keeps.does ⟨hKeeps.ok, fun t => (hKeeps.holds t).trans
      ((holds_of_unlocked (p := { p with mem := { p.mem with semID := some s } }) hFresh.2.2 t).trans
        (holds_of_unlocked hFresh.2.2 t).symm), hKeeps.setting⟩
  · exact (keeps_unsetArea (ok_of_fresh hSem hFresh) hWaits).does

theorem shmGet_does {args : SetArea} (hMem : p.mem.Ok sys) (hWaits : ¬p.Waits)
    (hLocked : p.mem.isLocked = true ∧ p.mem.isLockedReadOnly = false) :
    Does sys (p.shmGet sys args).1 p (p.shmGet sys args).2 := by
  unfold shmGet
  split
  · rename_i a hFound
    obtain ⟨segment, hThere, hKey⟩ := segment?_eq_some hFound
    exact does_found args hMem (.refl sys) rfl hThere hKey.symm hWaits hLocked
  · dsimp only
    split
    · exact Keeps.does ⟨⟨hMem, hLocked⟩, holds_congr rfl rfl rfl hWaits id, id⟩
    · exact (keeps_unsetArea hMem hWaits).does

theorem shmCreate_does {args : SetArea} (hMem : p.mem.Ok sys) (hWaits : ¬p.Waits)
    (hLocked : p.mem.isLocked = true ∧ p.mem.isLockedReadOnly = false) :
    Does sys (p.shmCreate sys args).1 p (p.shmCreate sys args).2 := by
  have hMem' : { p.mem with isCreatedLocally := true }.Ok sys := ⟨hMem.sem, hMem.segment, hMem.locked⟩
  unfold shmCreate
  dsimp only
  split
  · have hKeeps := keeps_unsetArea (p := { p with mem := { p.mem with isCreatedLocally := true } }) hMem' hWaits
    exact Keeps.does ⟨hKeeps.ok, hKeeps.holds, hKeeps.setting⟩
  · have hGrows : Extends sys { sys with segments := sys.segments ++ [⟨p.mem.key, args.createSize, false⟩] } := by
      refine ⟨fun s sem hOld => ⟨sem, hOld, rfl⟩, fun a segment hOld => ⟨segment, ?_, rfl⟩⟩
      obtain ⟨hLt, -⟩ := List.getElem?_eq_some_iff.mp hOld
      exact (List.getElem?_append_left hLt).trans hOld
    have hDoes := does_found (p := { p with mem := { p.mem with isCreatedLocally := true } })
        args hMem' hGrows
      rfl List.getElem?_concat_length rfl hWaits hLocked
    exact ⟨hDoes.grows, hDoes.ok, .none rfl (holds_congr rfl rfl rfl hWaits id) False.elim⟩

theorem shmStat_keeps {args : SetArea} (hMem : p.mem.Ok sys) (hWaits : ¬p.Waits) :
    Keeps sys p (p.shmStat sys args) := by
  unfold shmStat
  split
  · rename_i segment _
    have hMem' : { p.mem with areaSize := segment.size }.Ok sys := ⟨hMem.sem, hMem.segment, hMem.locked⟩
    have hIdle := keeps_idle (p := { p with mem := { p.mem with areaSize := segment.size } }) hMem' hWaits
    have hUnlock := keeps_unlockArea (p := { p with mem := { p.mem with areaSize := segment.size } }) .done hMem'
      hWaits fun q hq _ hNot => keeps_idle hq hNot
    dsimp only
    split
    · exact ⟨hIdle.ok, hIdle.holds, hIdle.setting⟩
    · exact ⟨hUnlock.ok, hUnlock.holds, hUnlock.setting⟩
  · exact keeps_unsetArea hMem hWaits

theorem afterUnlock_keeps (next : AfterUnlock) (h : p.mem.Ok sys) (hUnlocked : p.mem.isLocked = false) (hWaits : ¬p.Waits) :
    Keeps sys p (p.afterUnlock next) := by
  cases next with
  | done => exact keeps_idle h hWaits
  | unset => exact keeps_reset hUnlocked
  | setArea args => exact keeps_create hUnlocked args
  | delete => exact keeps_lockArea h (keeps_idle h hWaits) (.inr ⟨rfl, .inl rfl⟩)

theorem semRemove_does (hWaits : ¬p.Waits) {s : Nat} (hSem : p.mem.semID = some s)
    (hLocked : p.mem.isLocked = true) (hWrites : p.mem.isLockedReadOnly = false) :
    Does sys (sys.removeSemaphore s) p { p with mem := { p.mem with semID := none } }.unsetArea := by
  have hHolds := holds_eq hLocked hWaits hSem
  have hReset : ({ p with mem := { p.mem with semID := none } } : Process).unsetArea =
      ⟨({ p.mem with semID := none } : SharedMemory).unlocked.reset, .idle⟩ := by
    unfold unsetArea unlockArea
    dsimp only
    rw [hLocked]
    rfl
  rw [hReset]
  refine ⟨extends_setSemaphore sys s fun _ => rfl, ⟨SharedMemory.ok_reset _ rfl, trivial⟩,
    .remove s rfl ?_ (fun t ht => ?_) (holds_of_unlocked rfl) id⟩
  · rw [hHolds, if_pos rfl, hWrites]
    rfl
  · rw [hHolds, if_neg ht]

theorem unlock_does (hMem : p.mem.Ok sys) (hWaits : ¬p.Waits) (hLocked : p.mem.isLocked = true) :
    Does sys (p.release sys) p ({ p with mem := p.mem.unlocked }.afterUnlock next) := by
  have hGrows : Extends sys (p.release sys) := by
    unfold release
    split
    · exact extends_setSemaphore sys _ fun _ => rfl
    · exact .refl sys
  have hKeeps := afterUnlock_keeps (p := { p with mem := p.mem.unlocked }) next
      (hMem.mono hGrows).unlocked rfl
    hWaits
  exact ⟨hGrows, hKeeps.ok, release_effect hLocked hWaits hMem
    (fun s => (hKeeps.holds s).trans (holds_of_unlocked rfl s)) hKeeps.setting⟩

theorem run_does (h : p.Ok sys) : Does sys (p.run sys).1 p (p.run sys).2 := by
  have hMem := h.mem
  have hPc := h.pc
  have hAdjust (hWaits : p.Waits) (hHere : p.mem.Ok sys) {s : Nat} (hSem : p.mem.semID = some s) :
      Does sys (p.adjust sys s).1 p (p.adjust sys s).2 :=
    have hDoes := adjust_does hHere hPc h hWaits hSem
    ⟨hDoes.1, hDoes.2.1.mono hDoes.1, hDoes.2.2⟩
  obtain ⟨mem, pc⟩ := p
  unfold run
  cases pc with
  | idle => exact ⟨.refl sys, h, .none rfl (fun _ => rfl) fun _ => rfl⟩
  | semCreate args => exact semCreate_does hPc.1 hPc.2 id
  | semSetVal args =>
    obtain ⟨s, hSem⟩ := Option.isSome_iff_exists.mp hPc.1
    dsimp only at hSem ⊢
    rw [hSem]
    exact semSetVal_does (p := ⟨mem, .semSetVal args⟩) hMem hPc.2 rfl hSem
  | semGet args => exact semGet_does hPc.1 hPc.2 id
  | lock =>
    obtain ⟨s, hSem⟩ := Option.isSome_iff_exists.mp ((show mem.Ok sys from hMem).locked hPc)
    dsimp only
    rw [hSem]
    exact hAdjust trivial hMem hSem
  | lockToSet args =>
    obtain ⟨s, hSem⟩ := Option.isSome_iff_exists.mp ((show mem.Ok sys from hMem).locked hPc.1)
    dsimp only
    rw [hSem]
    exact hAdjust trivial hMem hSem
  | lockToDelete =>
    obtain ⟨s, hSem⟩ := Option.isSome_iff_exists.mp ((show mem.Ok sys from hMem).locked hPc.1)
    dsimp only
    rw [hSem]
    exact hAdjust trivial hMem hSem
  | shmGet args => exact shmGet_does hMem id hPc
  | shmCreate args => exact shmCreate_does hMem id hPc
  | shmAttach args =>
    refine Keeps.does ⟨⟨⟨hMem.sem, fun a ha => ?_, hMem.locked⟩, hPc⟩, holds_congr rfl rfl rfl id id, id⟩
    exact hMem.segment a (.inl (ha.elim id id))
  | shmStat args => exact (shmStat_keeps hMem id).does
  | shmRemove =>
    have hGrows : Extends sys ((mem.areaID.map sys.removeSegment).getD sys) := by
      cases mem.areaID with
      | none => exact .refl sys
      | some a => exact extends_removeSegment sys a
    refine ⟨hGrows, ⟨⟨(hMem.mono hGrows).sem, fun a ha => ?_, (hMem.mono hGrows).locked⟩, hPc⟩,
      .none ?_ (holds_congr rfl rfl rfl id id) False.elim⟩
    · exact (hMem.mono hGrows).segment a (.inr (ha.resolve_left (Option.some_ne_none _).symm))
    · dsimp only
      cases mem.areaID <;> rfl
  | semRemove =>
    obtain ⟨s, hSem⟩ := Option.isSome_iff_exists.mp ((show mem.Ok sys from hMem).locked hPc.1)
    dsimp only
    rw [hSem]
    exact semRemove_does (p := ⟨mem, .semRemove⟩) id hSem hPc.1 hPc.2
  | unlock next => exact unlock_does (p := ⟨mem, .unlock next⟩) hMem id hPc

theorem mem_ok_of_waits (h : p.Ok sys) (hWaits : p.Waits) : p.mem.Ok sys := by
  have hMem := h.mem
  unfold known at hMem
  unfold Waits at hWaits
  split at hMem
  · rename_i hPc
    rw [hPc] at hWaits
    exact hWaits.elim
  · exact hMem

theorem mem_ok_of_locked (h : p.Ok sys) (hLocked : p.mem.isLocked = true) : p.mem.Ok sys := by
  have hMem := h.mem
  have hPc := h.pc
  unfold known at hMem
  unfold PcOk at hPc
  split at hMem
  · rename_i args hHere
    rw [hHere] at hPc
    exact absurd (hPc.2.2.2.symm.trans hLocked) Bool.false_ne_true
  · exact hMem

theorem has_of_holds (h : p.holds s ≠ 0) : p.mem.semID = some s ∧ p.mem.isLocked = true ∧ ¬p.Waits := by
  by_contra hNot
  exact h (if_neg hNot)

theorem exit_does (h : p.Ok sys) :
    Does sys (if p.mem.isLocked && !p.Waits then p.release sys else sys) p ⟨.new, .idle⟩ := by
  have hNew (sys : System) : Process.Ok sys ⟨.new, .idle⟩ :=
    ⟨ok_of_fresh (q := ⟨.new, .idle⟩) rfl ⟨rfl, rfl, rfl⟩, trivial⟩
  split
  · rename_i hBoth
    obtain ⟨hLocked, hNot⟩ := Bool.and_eq_true_iff.mp hBoth
    have hWaits : ¬p.Waits := by simpa using hNot
    refine ⟨?_, hNew _, release_effect hLocked hWaits (mem_ok_of_locked h hLocked) (holds_of_unlocked rfl) id⟩
    unfold release
    split
    · exact extends_setSemaphore sys _ fun _ => rfl
    · exact .refl sys
  · rename_i hNot
    refine ⟨.refl sys, hNew sys, .none rfl (fun s => (holds_of_unlocked (p := ⟨.new, .idle⟩) rfl s).trans ?_)
      False.elim⟩
    by_cases hWaits : p.Waits
    · exact (holds_of_waits hWaits s).symm
    · refine (holds_of_unlocked (Bool.not_eq_true _ ▸ fun hLocked => hNot ?_) s).symm
      rw [hLocked, decide_eq_false hWaits]
      rfl

theorem step_does (h : p.Ok sys) (e : Event) : Does sys (p.step sys e).1 p (p.step sys e).2 := by
  have hSame : Does sys sys p p := ⟨.refl sys, h, .none rfl (fun _ => rfl) fun _ => rfl⟩
  cases e with
  | call call =>
    unfold step
    dsimp only
    split
    · rename_i hPc
      exact (keeps_call h hPc call).does
    · exact hSame
  | run => exact run_does h
  | interrupt =>
    unfold step
    dsimp only
    split
    · rename_i hWaits
      exact (keeps_notLocked (mem_ok_of_waits h hWaits) hWaits).does
    · exact hSame
  | exit => exact exit_does h

end Process

end

/-! ### Any number of processes -/

variable {P : Type} [Fintype P]

namespace World

/-- How much of a semaphore the processes have together. -/
def total (w : World P) (s : Nat) : Nat :=
  ∑ p, (w.procs p).holds s

structure Inv (w : World P) : Prop where
  ok : ∀ p, (w.procs p).Ok w.sys
  unique : ∀ (s s' : Nat) (sem sem' : Semaphore), w.sys.semaphores[s]? = some sem → w.sys.semaphores[s']? = some sem' →
    sem.removed = false → sem'.removed = false → sem.key = sem'.key → s = s'
  removed : ∀ (p : P) (s : Nat) (sem : Semaphore), w.sys.semaphores[s]? = some sem → sem.removed = true →
    (w.procs p).holds s = 0
  /-- What a semaphore is taken down by is what the processes have; before it is set there is nothing to have. -/
  counted : ∀ (s : Nat) (sem : Semaphore), w.sys.semaphores[s]? = some sem → sem.removed = false →
    sem.value + w.total s = LARGEST_SEMAPHORE_DELTA ∨ sem.value + w.total s = 0
  unset : ∀ (p : P) (s : Nat) (sem : Semaphore), (w.procs p).Setting → (w.procs p).mem.semID = some s →
    w.sys.semaphores[s]? = some sem → sem.removed = false → sem.value + w.total s = 0
  once : ∀ (p q : P) (s : Nat), (w.procs p).Setting → (w.procs q).Setting → (w.procs p).mem.semID = some s →
    (w.procs q).mem.semID = some s → p = q

variable {w : World P} {s : Nat}

theorem holds_le_total (w : World P) (p : P) (s : Nat) : (w.procs p).holds s ≤ w.total s :=
  Finset.single_le_sum (f := fun q => (w.procs q).holds s) (fun _ _ => Nat.zero_le _) (Finset.mem_univ p)

theorem add_holds_le_total [DecidableEq P] (w : World P) {p q : P} (hNe : p ≠ q) (s : Nat) :
    (w.procs p).holds s + (w.procs q).holds s ≤ w.total s := by
  have hPair := Finset.sum_pair (f := fun q => (w.procs q).holds s) hNe
  rw [← hPair]
  exact Finset.sum_le_sum_of_subset (Finset.subset_univ _)

theorem total_update [DecidableEq P] (w : World P) (sys : System) (p : P) (p' : Process) (s : Nat) :
    (⟨sys, Function.update w.procs p p'⟩ : World P).total s + (w.procs p).holds s = w.total s + p'.holds s := by
  have hRest : ∑ q ∈ Finset.univ.erase p, (Function.update w.procs p p' q).holds s =
      ∑ q ∈ Finset.univ.erase p, (w.procs q).holds s :=
    Finset.sum_congr rfl fun q hq => by rw [Function.update_of_ne (Finset.ne_of_mem_erase hq)]
  unfold total
  dsimp only
  rw [← Finset.add_sum_erase _ _ (Finset.mem_univ p), ← Finset.add_sum_erase (a := p) _ (fun q => (w.procs q).holds s)
    (Finset.mem_univ p), hRest, Function.update_self]
  omega

theorem inv_new : (new : World P).Inv where
  ok _ := ⟨Process.ok_of_fresh (q := ⟨.new, .idle⟩) rfl ⟨rfl, rfl, rfl⟩, trivial⟩
  unique _ _ _ _ hs := absurd hs (Option.some_ne_none _).symm
  removed _ _ _ hs := absurd hs (Option.some_ne_none _).symm
  counted _ _ hs := absurd hs (Option.some_ne_none _).symm
  unset _ _ _ hSetting := hSetting.elim
  once _ _ _ hSetting := hSetting.elim

/-- A process has something of semaphores that there are only. -/
theorem Inv.there (h : w.Inv) {p : P} (hHolds : (w.procs p).holds s ≠ 0) :
    ∃ sem : Semaphore, w.sys.semaphores[s]? = some sem ∧ sem.removed = false ∧ (w.procs p).mem.key = sem.key := by
  have hHas := Process.has_of_holds hHolds
  obtain ⟨sem, hThere, hKey⟩ := (Process.mem_ok_of_locked (h.ok p) hHas.2.1).sem s hHas.1
  refine ⟨sem, hThere, ?_, hKey⟩
  by_contra hRemoved
  exact hHolds (h.removed p s sem hThere (Bool.not_eq_false _ ▸ hRemoved))

theorem setSemaphore_eq_some {sys : System} {t : Nat} {f : Semaphore → Semaphore} {sem' : Semaphore}
    (h : (sys.setSemaphore s f).semaphores[t]? = some sem') :
    ∃ sem, sys.semaphores[t]? = some sem ∧ sem' = if s = t then f sem else sem := by
  unfold System.setSemaphore at h
  dsimp only at h
  rw [List.getElem?_modify] at h
  obtain ⟨sem, hThere, rfl⟩ := Option.map_eq_some_iff.mp h
  exact ⟨sem, hThere, rfl⟩

section

variable [DecidableEq P] {p : P} {sys' : System} {p' : Process}

theorem ok_update (h : w.Inv) (hDoes : Process.Does w.sys sys' (w.procs p) p') (q : P) :
    (Function.update w.procs p p' q).Ok sys' := by
  by_cases hHere : q = p
  · rw [hHere, Function.update_self]
    exact hDoes.ok
  · rw [Function.update_of_ne hHere]
    exact (h.ok q).mono hDoes.grows

/-- A step that makes and removes no semaphore keeps the sums, or sets one. -/
theorem inv_of_same (h : w.Inv) (hOk : ∀ q, (Function.update w.procs p p' q).Ok sys')
    (hSems : ∀ (t : Nat) (sem' : Semaphore), sys'.semaphores[t]? = some sem' → ∃ sem : Semaphore,
      w.sys.semaphores[t]? = some sem ∧ sem'.key = sem.key ∧ sem'.removed = sem.removed ∧
      (sem.removed = true → p'.holds t = 0) ∧
      (sem.removed = false → sem'.value + p'.holds t = sem.value + (w.procs p).holds t ∨
        ¬p'.Setting ∧ (w.procs p).Setting ∧ (w.procs p).mem.semID = some t ∧ sem'.value = LARGEST_SEMAPHORE_DELTA ∧
          p'.holds t = (w.procs p).holds t))
    (hSetting : p'.Setting → p' = w.procs p) : Inv ⟨sys', Function.update w.procs p p'⟩ := by
  have hTotal := w.total_update sys' p p'
  have hBack (q : P) (hq : (Function.update w.procs p p' q).Setting) :
      Function.update w.procs p p' q = w.procs q := by
    by_cases hHere : q = p
    · subst hHere
      rw [Function.update_self] at hq ⊢
      exact hSetting hq
    · exact Function.update_of_ne hHere ..
  refine ⟨hOk, fun s s' sem sem' hs hs' hThere hThere' hKey => ?_, fun q s sem hs hRemoved =>
    ?_, fun s sem hs hThere => ?_,
    fun q s sem hq hSem hs hThere => ?_, fun q r s hq hr hSemq hSemr => ?_⟩
  · obtain ⟨old, hOld, hOldKey, hOldThere, -⟩ := hSems s sem hs
    obtain ⟨old', hOld', hOldKey', hOldThere', -⟩ := hSems s' sem' hs'
    exact h.unique s s' old old' hOld hOld' (hOldThere ▸ hThere) (hOldThere' ▸ hThere')
      (hOldKey.symm.trans (hKey.trans hOldKey'))
  · obtain ⟨old, hOld, -, hOldRemoved, hNothing, -⟩ := hSems s sem hs
    by_cases hHere : q = p
    · subst hHere
      exact (congrArg (Process.holds · s) (Function.update_self ..)).trans (hNothing (hOldRemoved ▸ hRemoved))
    · exact (congrArg (Process.holds · s) (Function.update_of_ne hHere ..)).trans
        (h.removed q s old hOld (hOldRemoved ▸ hRemoved))
  · obtain ⟨old, hOld, -, hOldThere, -, hSum⟩ := hSems s sem hs
    have hBefore := h.counted s old hOld (hOldThere ▸ hThere)
    have hSame := hTotal s
    rcases hSum (hOldThere ▸ hThere) with hSum | ⟨-, hSets, hSem, hValue, hHolds⟩
    · omega
    · have hZero := h.unset p s old hSets hSem hOld (hOldThere ▸ hThere)
      omega
  · dsimp only at hq hSem
    have hAfter := hq
    have hSameq := hBack q hq
    rw [hSameq] at hq hSem
    obtain ⟨old, hOld, -, hOldThere, -, hSum⟩ := hSems s sem hs
    have hZero := h.unset q s old hq hSem hOld (hOldThere ▸ hThere)
    have hSame := hTotal s
    rcases hSum (hOldThere ▸ hThere) with hSum | ⟨hNot, hSets, hSemp, -, -⟩
    · omega
    · obtain rfl := h.once q p s hq hSets hSem hSemp
      rw [Function.update_self] at hAfter
      exact absurd hAfter hNot
  · dsimp only at hq hr hSemq hSemr
    have hSameq := hBack q hq
    have hSamer := hBack r hr
    rw [hSameq] at hq hSemq
    rw [hSamer] at hr hSemr
    exact h.once q r s hq hr hSemq hSemr

/-- A new semaphore is for a key that no other is for, and its maker alone is to set it. -/
theorem inv_of_create (h : w.Inv) (hOk : ∀ q, (Function.update w.procs p p' q).Ok sys') {key : Key}
    (hNone : w.sys.semaphore? key = none) (hNew : sys'.semaphores = w.sys.semaphores ++ [⟨key, 0, false⟩])
    (hHolds : ∀ s, (w.procs p).holds s = 0) (hHolds' : ∀ s, p'.holds s = 0)
    (hSem : p'.mem.semID = some w.sys.semaphores.length) : Inv ⟨sys', Function.update w.procs p p'⟩ := by
  have hTotal (s : Nat) : (⟨sys', Function.update w.procs p p'⟩ : World P).total s = w.total s := by
    have hSame := w.total_update sys' p p' s
    rw [hHolds, hHolds'] at hSame
    exact hSame
  -- A semaphore that is there after the step was there, or it is the new one.
  have hCases {s : Nat} {sem : Semaphore} (hs : sys'.semaphores[s]? = some sem) :
      w.sys.semaphores[s]? = some sem ∨ s = w.sys.semaphores.length ∧ sem = ⟨key, 0, false⟩ := by
    rw [hNew] at hs
    by_cases hLt : s < w.sys.semaphores.length
    · rw [List.getElem?_append_left hLt] at hs
      exact .inl hs
    · rw [List.getElem?_append_right (Nat.le_of_not_lt hLt), List.getElem?_singleton] at hs
      obtain ⟨hZero, hSame⟩ := Option.ite_none_right_eq_some.mp hs
      exact .inr ⟨by omega, (Option.some.inj hSame).symm⟩
  have hLt {s : Nat} {sem : Semaphore} (hs : w.sys.semaphores[s]? = some sem) : s < w.sys.semaphores.length :=
    (List.getElem?_eq_some_iff.mp hs).1
  have hNoKey {s : Nat} {sem : Semaphore} (hs : w.sys.semaphores[s]? = some sem) (hThere : sem.removed = false) :
      sem.key ≠ key := by
    have hMiss := List.findIdx?_eq_none_iff.mp hNone sem (List.mem_of_getElem? hs)
    rw [hThere, Bool.not_false, Bool.true_and] at hMiss
    exact beq_eq_false_iff_ne.mp hMiss
  have hFresh : (⟨sys', Function.update w.procs p p'⟩ : World P).total w.sys.semaphores.length = 0 := by
    rw [hTotal]
    refine Finset.sum_eq_zero fun q _ => ?_
    by_contra hHas
    obtain ⟨sem, hThere, -⟩ := h.there hHas
    exact absurd (hLt hThere) (Nat.lt_irrefl _)
  have hIds {q : P} {s : Nat} (hHere : q ≠ p) (hSetting : (Function.update w.procs p p' q).Setting)
      (hSemq : (Function.update w.procs p p' q).mem.semID = some s) :
      (w.procs q).Setting ∧ (w.procs q).mem.semID = some s ∧ s < w.sys.semaphores.length := by
    rw [Function.update_of_ne hHere] at hSetting hSemq
    refine ⟨hSetting, hSemq, ?_⟩
    have hMem := (h.ok q).mem
    unfold Process.known at hMem
    obtain ⟨sem, hThere, -⟩ := hMem.sem s (by split <;> exact hSemq)
    exact hLt hThere
  refine ⟨hOk, fun s s' sem sem' hs hs' hThere hThere' hKey => ?_, fun q s sem hs hRemoved =>
    ?_, fun s sem hs hThere => ?_,
    fun q s sem hq hSemq hs hThere => ?_, fun q r s hq hr hSemq hSemr => ?_⟩
  · rcases hCases hs with hOld | ⟨rfl, rfl⟩ <;> rcases hCases hs' with hOld' | ⟨rfl, rfl⟩
    · exact h.unique s s' sem sem' hOld hOld' hThere hThere' hKey
    · exact absurd hKey (hNoKey hOld hThere)
    · exact absurd hKey.symm (hNoKey hOld' hThere')
    · rfl
  · by_cases hHere : q = p
    · subst hHere
      exact (congrArg (Process.holds · s) (Function.update_self ..)).trans (hHolds' s)
    · refine (congrArg (Process.holds · s) (Function.update_of_ne hHere ..)).trans ?_
      rcases hCases hs with hOld | ⟨-, rfl⟩
      · exact h.removed q s sem hOld hRemoved
      · cases hRemoved
  · rcases hCases hs with hOld | ⟨rfl, rfl⟩
    · rw [hTotal]
      exact h.counted s sem hOld hThere
    · exact .inr ((Nat.zero_add _).trans hFresh)
  · rcases hCases hs with hOld | ⟨rfl, rfl⟩
    · by_cases hHere : q = p
      · subst hHere
        dsimp only at hSemq
        rw [Function.update_self, hSem] at hSemq
        exact absurd (hLt hOld) (Option.some.inj hSemq ▸ Nat.lt_irrefl _)
      · obtain ⟨hSetting, hSems, -⟩ := hIds hHere hq hSemq
        rw [hTotal]
        exact h.unset q s sem hSetting hSems hOld hThere
    · exact (Nat.zero_add _).trans hFresh
  · have hSelf {q : P} (hHere : q = p) (hSemq : (Function.update w.procs p p' q).mem.semID = some s) :
        s = w.sys.semaphores.length := by
      rw [hHere, Function.update_self, hSem] at hSemq
      exact (Option.some.inj hSemq).symm
    by_cases hHereq : q = p <;> by_cases hHerer : r = p
    · exact hHereq.trans hHerer.symm
    · exact absurd (hSelf hHereq hSemq) (Nat.ne_of_lt (hIds hHerer hr hSemr).2.2)
    · exact absurd (hSelf hHerer hSemr) (Nat.ne_of_lt (hIds hHereq hq hSemq).2.2)
    · exact h.once q r s (hIds hHereq hq hSemq).1 (hIds hHerer hr hSemr).1 (hIds hHereq hq hSemq).2.1
        (hIds hHerer hr hSemr).2.1

/-- The one that removes a semaphore has it alone. -/
theorem inv_of_remove (h : w.Inv) (hOk : ∀ q, (Function.update w.procs p p' q).Ok sys') {s : Nat}
    (hRemove : sys' = w.sys.removeSemaphore s) (hAll : (w.procs p).holds s = LARGEST_SEMAPHORE_DELTA)
    (hHolds : ∀ t, t ≠ s → (w.procs p).holds t = 0) (hHolds' : ∀ t, p'.holds t = 0) (hSetting : ¬p'.Setting) :
    Inv ⟨sys', Function.update w.procs p p'⟩ := by
  have hOther (q : P) (hHere : q ≠ p) : (w.procs q).holds s = 0 := by
    have hHas : (w.procs p).holds s ≠ 0 := by
      rw [hAll]
      decide
    obtain ⟨sem, hThere, hLive, -⟩ := h.there hHas
    have hCounted := h.counted s sem hThere hLive
    have hPair := w.add_holds_le_total (Ne.symm hHere) s
    omega
  have hTotal (t : Nat) (ht : t ≠ s) : (⟨sys', Function.update w.procs p p'⟩ : World P).total t = w.total t := by
    have hSame := w.total_update sys' p p' t
    rw [hHolds t ht, hHolds'] at hSame
    exact hSame
  have hBack {q : P} (hq : (Function.update w.procs p p' q).Setting) : Function.update w.procs p p' q = w.procs q := by
    by_cases hHere : q = p
    · rw [hHere, Function.update_self] at hq
      exact absurd hq hSetting
    · exact Function.update_of_ne hHere ..
  have hLeft {t : Nat} {sem' : Semaphore} (ht : sys'.semaphores[t]? = some sem') (hLive : sem'.removed = false) :
      t ≠ s ∧ w.sys.semaphores[t]? = some sem' := by
    rw [hRemove] at ht
    obtain ⟨sem, hThere, rfl⟩ := setSemaphore_eq_some ht
    by_cases hHere : s = t
    · rw [if_pos hHere] at hLive
      cases hLive
    · rw [if_neg hHere]
      exact ⟨Ne.symm hHere, hThere⟩
  refine ⟨hOk, fun t t' sem sem' ht ht' hLive hLive' hKey => ?_, fun q t sem ht hRemoved =>
    ?_, fun t sem ht hLive => ?_,
    fun q t sem hq hSemq ht hLive => ?_, fun q r t hq hr hSemq hSemr => ?_⟩
  · exact h.unique t t' sem sem' (hLeft ht hLive).2 (hLeft ht' hLive').2 hLive hLive' hKey
  · by_cases hHere : q = p
    · subst hHere
      exact (congrArg (Process.holds · t) (Function.update_self ..)).trans (hHolds' t)
    · refine (congrArg (Process.holds · t) (Function.update_of_ne hHere ..)).trans ?_
      rw [hRemove] at ht
      obtain ⟨old, hThere, rfl⟩ := setSemaphore_eq_some ht
      by_cases hThis : s = t
      · exact hThis ▸ hOther q hHere
      · rw [if_neg hThis] at hRemoved
        exact h.removed q t old hThere hRemoved
  · obtain ⟨hNe, hThere⟩ := hLeft ht hLive
    rw [hTotal t hNe]
    exact h.counted t sem hThere hLive
  · obtain ⟨hNe, hThere⟩ := hLeft ht hLive
    have hSame := hBack hq
    dsimp only at hq hSemq
    rw [hSame] at hq hSemq
    rw [hTotal t hNe]
    exact h.unset q t sem hq hSemq hThere hLive
  · have hSameq := hBack hq
    have hSamer := hBack hr
    dsimp only at hq hr hSemq hSemr
    rw [hSameq] at hq hSemq
    rw [hSamer] at hr hSemr
    exact h.once q r t hq hr hSemq hSemr

theorem inv_of_does (h : w.Inv) (hDoes : Process.Does w.sys sys' (w.procs p) p') :
    Inv ⟨sys', Function.update w.procs p p'⟩ := by
  have hOk := ok_update h hDoes
  cases hDoes.effect with
  | none hSame hHolds hSetting =>
    refine inv_of_same h hOk
      (fun t sem ht => ⟨sem, hSame ▸ ht, rfl, rfl, fun hRemoved => ?_, fun _ => .inl ?_⟩) hSetting
    · rw [hHolds]
      exact h.removed p t sem (hSame ▸ ht) hRemoved
    · rw [hHolds]
  | create key hNone hNew hHolds hHolds' hSem => exact inv_of_create h hOk hNone hNew hHolds hHolds' hSem
  | setVal s hSets hSem hSet hHolds hDone =>
    refine inv_of_same h hOk (fun t sem' ht => ?_) fun hSetting => absurd hSetting hDone
    rw [hSet] at ht
    obtain ⟨sem, hThere, rfl⟩ := setSemaphore_eq_some ht
    refine ⟨sem, hThere, by split <;> rfl, by split <;> rfl, fun hRemoved => ?_, fun _ => ?_⟩
    · rw [hHolds]
      exact h.removed p t sem hThere hRemoved
    · by_cases hHere : s = t
      · rw [if_pos hHere]
        exact .inr ⟨hDone, hSets, hHere ▸ hSem, rfl, hHolds t⟩
      · rw [if_neg hHere, hHolds]
        exact .inl rfl
  | change s f hChange hHere hRemoved hHolds hSetting =>
    refine inv_of_same h hOk (fun t sem' ht => ?_) fun hSets => absurd hSets hSetting
    rw [hChange] at ht
    obtain ⟨sem, hThere, rfl⟩ := setSemaphore_eq_some ht
    refine ⟨sem, hThere, by split <;> rfl, by split <;> rfl, fun hGone => ?_, fun hLive => .inl ?_⟩
    · have hNothing := h.removed p t sem hThere hGone
      by_cases hThis : t = s
      · subst hThis
        exact Nat.le_zero.mp (hNothing ▸ hRemoved sem hThere hGone)
      · rw [hHolds t hThis, hNothing]
    · by_cases hThis : s = t
      · subst hThis
        rw [if_pos rfl]
        exact hHere sem hThere hLive
      · rw [if_neg hThis, hHolds t (Ne.symm hThis)]
  | remove s hRemove hAll hHolds hHolds' hSetting => exact inv_of_remove h hOk hRemove hAll hHolds hHolds' hSetting

theorem inv_step (h : w.Inv) (e : P × Event) : (w.step e).Inv :=
  inv_of_does h (Process.step_does (h.ok e.1) e.2)

theorem inv_run (events : List (P × Event)) : (events.foldl step (new : World P)).Inv :=
  List.foldlRecOn events step inv_new fun _ h e _ => inv_step h e

end

/-- What the locks promise: no semaphore loses a unit, and while one process may write to an area no other has a lock
on it. -/
structure Safe (w : World P) : Prop where
  counted : ∀ (s : Nat) (sem : Semaphore), w.sys.semaphores[s]? = some sem → sem.removed = false →
    sem.value + w.total s = LARGEST_SEMAPHORE_DELTA ∨ sem.value + w.total s = 0
  exclusive : ∀ (p q : P) (a : Nat), p ≠ q → (w.procs p).mem.area = some a → (w.procs q).mem.area = some a →
    (w.procs p).Locked → (w.procs p).mem.isLockedReadOnly = false → ¬(w.procs q).Locked

theorem Inv.safe [DecidableEq P] (h : w.Inv) : w.Safe where
  counted := h.counted
  exclusive p q a hNe hAreap hAreaq hp hWrites hq := by
    have hMemp := Process.mem_ok_of_locked (h.ok p) hp.1
    have hMemq := Process.mem_ok_of_locked (h.ok q) hq.1
    obtain ⟨s, hSemp⟩ := Option.isSome_iff_exists.mp (hMemp.locked hp.1)
    obtain ⟨t, hSemq⟩ := Option.isSome_iff_exists.mp (hMemq.locked hq.1)
    have hHoldsp : (w.procs p).holds s = LARGEST_SEMAPHORE_DELTA := by
      rw [Process.holds_eq hp.1 hp.2 hSemp, if_pos rfl, hWrites]
      rfl
    have hHoldsq : 0 < (w.procs q).holds t := by
      rw [Process.holds_eq hq.1 hq.2 hSemq, if_pos rfl]
      unfold delta
      split <;> decide
    obtain ⟨semp, hTherep, hLivep, hKeyp⟩ := h.there (hHoldsp ▸ (by decide : LARGEST_SEMAPHORE_DELTA ≠ 0))
    obtain ⟨semq, hThereq, hLiveq, hKeyq⟩ := h.there (Nat.ne_of_gt hHoldsq)
    -- Both semaphores are for the key of the area.
    obtain ⟨segment, hSegment, hAreaKeyp⟩ := hMemp.segment a (.inr hAreap)
    obtain ⟨segment', hSegment', hAreaKeyq⟩ := hMemq.segment a (.inr hAreaq)
    obtain rfl := Option.some.inj (hSegment.symm.trans hSegment')
    obtain rfl := h.unique s t semp semq hTherep hThereq hLivep hLiveq
      (hKeyp.symm.trans (hAreaKeyp.trans (hAreaKeyq.symm.trans hKeyq)))
    have hPair := w.add_holds_le_total hNe s
    have hCounted := h.counted s semp hTherep hLivep
    omega

end World

/-- Two processes read one area. -/
example :
    let set (p : Bool) : List (Bool × Event) := (p, .call (.setArea ⟨7, 16, false⟩)) :: List.replicate 8 (p, .run)
    let read (p : Bool) : List (Bool × Event) := [(p, .call (.lockArea true)), (p, .run)]
    let w := (set false ++ set true ++ read false ++ read true).foldl World.step World.new
    (w.procs false).mem.area = some 0 ∧ (w.procs true).mem.area = some 0 ∧ (w.procs false).Locked ∧
      (w.procs true).Locked := by
  decide

end BeShare.Muscle.SharedAreas
