import BeShare.Lib.Asking
import BeShare.Lib.Runs
import Mathlib.Algebra.BigOperators.Group.Finset.Piecewise
import Mathlib.Algebra.BigOperators.Ring.Finset
import Mathlib.Algebra.Order.BigOperators.Group.Finset
import Mathlib.Data.Int.DivMod
import Mathlib.Data.Fintype.Basic

/-!
The memory limit that a group of processes shares: `muscleAlloc`, `muscleRealloc` and `muscleFree` of a process, which
notify the allocator, and the allocator, which reserves bytes in the shared area and caches some. A process is
interrupted by others where it locks the shared area.
-/

namespace BeShare.Muscle.SharedUsage

open Lib

/-- A value as an `int32` holds it. -/
def int32 (x : Int) : Int :=
  x.bmod (2 ^ 32)

def CACHE_BYTES : Int :=
  100 * 1024

/-- A call of `ChangeDaemonCounterAux`: the local cache when it is made, and the bytes by which it changes the shared
area. -/
structure Access where
  localCachedBytes : Int
  byteDelta : Int
deriving Repr, DecidableEq

/-- Code of a process. The answer to an access is whether it succeeded. -/
abbrev Code (α : Type) := Asking Access Bool α

/-- `ChangeDaemonCounter`, from a state of the local cache to the next one. -/
def changeDaemonCounter (byteDelta : Int) (localCachedBytes : Int) : Code (Int × Bool) :=
  if byteDelta > 0 then
    let use (localCachedBytes : Int) : Code (Int × Bool) :=
      if byteDelta > localCachedBytes then .ret (localCachedBytes, false)
      else .ret (int32 (localCachedBytes - byteDelta), true)
    if byteDelta > localCachedBytes then
      let wantBytes := int32 ((byteDelta / CACHE_BYTES + 1) * CACHE_BYTES)
      .ask ⟨localCachedBytes, wantBytes⟩ fun got =>
        use (if got then int32 (localCachedBytes + wantBytes) else localCachedBytes)
    else use localCachedBytes
  else
    let localCachedBytes := int32 (localCachedBytes - byteDelta)
    if localCachedBytes > 2 * CACHE_BYTES then
      .ask ⟨localCachedBytes, -CACHE_BYTES⟩ fun got =>
        .ret (if got then localCachedBytes - CACHE_BYTES else localCachedBytes, true)
    else .ret (localCachedBytes, true)

/-- `AboutToAllocate`, with the answer of the slave. -/
def aboutToAllocate (arb : Nat) (slaveAccepts : Bool) (localCachedBytes : Int) : Code (Int × Bool) :=
  (changeDaemonCounter (int32 arb) localCachedBytes).bind fun (localCachedBytes, ok) =>
    if ok then
      if slaveAccepts then .ret (localCachedBytes, true)
      else
        (changeDaemonCounter (int32 (-int32 arb)) localCachedBytes).bind fun (localCachedBytes, _) =>
          .ret (localCachedBytes, false)
    else .ret (localCachedBytes, false)

/-- `AllocationFailed` and `AboutToFree`. -/
def giveBack (arb : Nat) (localCachedBytes : Int) : Code Int :=
  (changeDaemonCounter (int32 (-int32 arb)) localCachedBytes).bind fun (localCachedBytes, _) => .ret localCachedBytes

/-! ### The global allocator -/

/-- `CONVERT_USER_TO_INTERNAL_SIZE`: the header is a word of eight bytes. -/
def internalSize (userSize : Nat) : Nat :=
  (userSize % 2 ^ 32 + 8) % 2 ^ 32

/-- A process: the local cache of its allocator, and the blocks that it has, with the sizes in their headers. -/
structure Process where
  localCachedBytes : Int
  blocks : List Nat
deriving Repr, DecidableEq

/-- The bytes that are allocated. -/
def Process.live (p : Process) : Nat :=
  p.blocks.sum

/-- What an attempt to get memory meets: whether the slave accepts it, and whether `malloc` or `realloc` succeeds. -/
structure Attempt where
  slaveAccepts : Bool
  succeeds : Bool
deriving Repr, DecidableEq

/-- `AboutToAllocate`, `malloc` or `realloc`, and `AllocationFailed` if nothing was allocated. The second result is
whether `malloc` or `realloc` was what failed. -/
def attemptOnce (arb : Nat) (grow : Process → Process) (attempt : Attempt) (p : Process) : Code (Process × Bool) :=
  (aboutToAllocate arb attempt.slaveAccepts p.localCachedBytes).bind fun (localCachedBytes, ok) =>
    if ok = true ∧ attempt.succeeds = true then .ret (grow { p with localCachedBytes := localCachedBytes }, false)
    else
      (giveBack arb localCachedBytes).bind fun localCachedBytes =>
        .ret ({ p with localCachedBytes := localCachedBytes }, ok)

/-- An attempt, and one more if `retryOnFailure` says so, for which `again` has what it meets. -/
def obtain (arb : Nat) (grow : Process → Process) (attempt : Attempt) (again : Option Attempt) (p : Process) :
    Code Process :=
  (attemptOnce arb grow attempt p).bind fun (p, failed) =>
    match again with
    | none => .ret p
    | some attempt =>
      if failed then (attemptOnce arb grow attempt p).bind fun (p, _) => .ret p
      else .ret p

def muscleAlloc (userSize : Nat) (attempt : Attempt) (again : Option Attempt) (p : Process) : Code Process :=
  obtain (internalSize userSize) (fun p => { p with blocks := p.blocks ++ [internalSize userSize] }) attempt again p

def muscleFree (block : Nat) (p : Process) : Code Process :=
  match p.blocks[block]? with
  | none => .ret p
  | some size =>
    let p := { p with blocks := p.blocks.eraseIdx block }
    (giveBack size p.localCachedBytes).bind fun localCachedBytes => .ret { p with localCachedBytes := localCachedBytes }

/-- `muscleRealloc` of a block that there is, for a size other than 0. -/
def muscleRealloc (block newUserSize : Nat) (attempt : Attempt) (again : Option Attempt) (p : Process) : Code Process :=
  match p.blocks[block]? with
  | none => .ret p
  | some oldInternalSize =>
    let newInternalSize := internalSize newUserSize
    let resize (p : Process) : Process := { p with blocks := p.blocks.set block newInternalSize }
    if newInternalSize = oldInternalSize then .ret p
    else if newInternalSize > oldInternalSize then
      obtain (newInternalSize - oldInternalSize) resize attempt again p
    else
      (giveBack (oldInternalSize - newInternalSize) p.localCachedBytes).bind fun localCachedBytes =>
        let p := { p with localCachedBytes := localCachedBytes }
        .ret (if attempt.succeeds then resize p else p)

/-- A call that a process makes. `muscleRealloc` without a block is `muscleAlloc`, and for size 0 it is `muscleFree`. -/
inductive Call where
  | alloc (userSize : Nat) (attempt : Attempt) (again : Option Attempt)
  | realloc (block newUserSize : Nat) (attempt : Attempt) (again : Option Attempt)
  | free (block : Nat)

def Call.code : Call → Process → Code Process
  | .alloc userSize attempt again, p => muscleAlloc userSize attempt again p
  | .realloc block newUserSize attempt again, p => muscleRealloc block newUserSize attempt again p
  | .free block, p => muscleFree block p

/-- The bytes of a process that a call is not about to free. -/
def Call.kept (p : Process) : Call → Nat
  | .alloc _ _ _ => p.live
  | .realloc block newUserSize _ _ => p.live - (p.blocks.getD block 0 - internalSize newUserSize)
  | .free block => p.live - p.blocks.getD block 0

/-! ### The group -/

/-- A member of the group is between two calls, or in a call that is about to access the shared area. -/
inductive Member where
  | idle (p : Process)
  | inCall (kept : Nat) (access : Access) (next : Bool → Code Process)

/-- The code of a call up to its next access. -/
def Member.of (kept : Nat) : Code Process → Member
  | .ret p => .idle p
  | .ask access next => .inCall kept access next

/-- The shared area: `sa[0]` and the other words, and the members. -/
structure Group (n : Nat) where
  total : Int
  entry : Fin n → Int
  member : Fin n → Member

/-- What happens next: a member makes a call, or the access that it is about to make, for which it may fail to lock the
area. -/
inductive Move (n : Nat) where
  | call (i : Fin n) (call : Call)
  | access (i : Fin n) (locks : Bool)

/-- A `size_t`. -/
def word (x : Int) : Int :=
  x % 2 ^ 64

namespace Group

variable {n : Nat}

def start (n : Nat) : Group n :=
  ⟨0, fun _ => 0, fun _ => .idle ⟨0, []⟩⟩

def setMember (s : Group n) (i : Fin n) (m : Member) : Group n :=
  { s with member := Function.update s.member i m }

/-- `ChangeDaemonCounterAux`. -/
def changeDaemonCounterAux (maxBytes : UInt64) (s : Group n) (i : Fin n) (byteDelta : Int) (locks : Bool) :
    Group n × Bool :=
  if locks = true ∧ (byteDelta ≤ 0 ∨ word (s.total + byteDelta) ≤ maxBytes.toNat) then
    ({ s with
      total := word (s.total + byteDelta)
      entry := Function.update s.entry i (word (s.entry i + byteDelta)) }, true)
  else (s, false)

def step (maxBytes : UInt64) (s : Group n) : Move n → Group n
  | .call i call =>
    match s.member i with
    | .idle p => s.setMember i (.of (call.kept p) (call.code p))
    | .inCall _ _ _ => s
  | .access i locks =>
    match s.member i with
    | .idle _ => s
    | .inCall kept access next =>
      let (s, got) := s.changeDaemonCounterAux maxBytes i access.byteDelta locks
      s.setMember i (.of kept (next got))

end Group

/-! ### The code of a call -/

theorem int32_of_fits {x : Int} (hLow : -2 ^ 31 ≤ x) (hHigh : x < 2 ^ 31) : int32 x = x := by
  unfold int32
  rw [Int.bmod_def]
  split <;> omega

attribute [irreducible] int32

/-- Bytes are given up only if the entry stays as large as what the process keeps. -/
def May (kept : Nat) (entry : Int) (access : Access) : Prop :=
  access.byteDelta ≤ 0 → kept ≤ entry + access.byteDelta

/-- An access changes the entry if it succeeds. One for more bytes does succeed, and the cache can hold them. -/
def Changes (entry : Int) (access : Access) (got : Bool) (entry' : Int) : Prop :=
  if got then entry' = entry + access.byteDelta ∧
    (0 < access.byteDelta → access.localCachedBytes + access.byteDelta < 2 ^ 31)
  else entry' = entry ∧ access.byteDelta ≤ 0

/-- The entry of a process counts its blocks and what it has in its cache. -/
structure Counts (entry : Int) (p : Process) : Prop where
  low : 0 ≤ p.localCachedBytes
  high : p.localCachedBytes < 2 ^ 31
  entry_eq : entry = p.live + p.localCachedBytes

/-- The request fits an `int32` when it is rounded up. -/
def Fits (arb : Nat) : Prop :=
  ((arb : Int) / CACHE_BYTES + 1) * CACHE_BYTES < 2 ^ 31

instance (arb : Nat) : Decidable (Fits arb) :=
  inferInstanceAs (Decidable (_ < _))

section Code

variable {kept arb : Nat} {e c : Int}

theorem Fits.lt (h : Fits arb) : (arb : Int) < 2 ^ 31 := by
  unfold Fits CACHE_BYTES at h
  omega

/-- Bytes are reserved. -/
theorem changeDaemonCounter_reserve (hSome : 0 < arb) (hFits : Fits arb) (hLow : 0 ≤ c) (hHigh : c < 2 ^ 31) :
    (changeDaemonCounter arb c).Meets (May kept) Changes
      (fun e' (r : Int × Bool) => r.2 = true ∧ 0 ≤ r.1 ∧ r.1 + arb < 2 ^ 31 ∧ e' - r.1 = e - c + arb) e := by
  have hArb := hFits.lt
  have hWant : int32 (((arb : Int) / CACHE_BYTES + 1) * CACHE_BYTES) = ((arb : Int) / CACHE_BYTES + 1) *
      CACHE_BYTES := by
    refine int32_of_fits ?_ hFits
    unfold CACHE_BYTES
    omega
  have hEnough : (arb : Int) ≤ ((arb : Int) / CACHE_BYTES + 1) * CACHE_BYTES := by
    unfold CACHE_BYTES
    omega
  unfold changeDaemonCounter
  rw [if_pos (by omega)]
  dsimp only
  rw [hWant]
  generalize ((arb : Int) / CACHE_BYTES + 1) * CACHE_BYTES = wantBytes at hEnough
  by_cases hMore : (arb : Int) > c
  · rw [if_pos hMore]
    refine ⟨fun hNone => absurd hNone (by dsimp only; omega), fun got e' hChange => ?_⟩
    cases got with
    | false => exact absurd hChange.2 (by dsimp only; omega)
    | true =>
      obtain ⟨rfl, hHolds⟩ := hChange
      have hHolds := hHolds (by dsimp only; omega)
      dsimp only at hHolds ⊢
      rw [if_pos rfl, int32_of_fits (by omega) hHolds, if_neg (by omega), int32_of_fits (by omega) (by omega)]
      exact ⟨rfl, by dsimp only; omega, by dsimp only; omega, by dsimp only; omega⟩
  · rw [if_neg hMore, if_neg hMore, int32_of_fits (by omega) (by omega)]
    exact ⟨rfl, by dsimp only; omega, by dsimp only; omega, by dsimp only; omega⟩

/-- Bytes are given back to the cache, and some of them to the group. -/
theorem changeDaemonCounter_giveBack (arb : Nat) (hLow : 0 ≤ c) (hHigh : c + arb < 2 ^ 31)
    (hKept : kept ≤ e - c - arb) :
    (changeDaemonCounter (-arb) c).Meets (May kept) Changes
      (fun e' (r : Int × Bool) => r.2 = true ∧ 0 ≤ r.1 ∧ r.1 < 2 ^ 31 ∧ e' - r.1 = e - c - arb) e := by
  unfold changeDaemonCounter
  rw [if_neg (by omega), Int.sub_neg, int32_of_fits (by omega) hHigh]
  dsimp only
  by_cases hMuch : c + (arb : Int) > 2 * CACHE_BYTES
  · rw [if_pos hMuch]
    unfold CACHE_BYTES at hMuch ⊢
    refine ⟨fun _ => by dsimp only; omega, fun got e' hChange => ?_⟩
    cases got with
    | false =>
      obtain ⟨rfl, _⟩ := hChange
      exact ⟨rfl, by simp; omega, by simp; omega, by simp; omega⟩
    | true =>
      obtain ⟨rfl, _⟩ := hChange
      exact ⟨rfl, by simp; omega, by simp; omega, by simp; omega⟩
  · rw [if_neg hMuch]
    exact ⟨rfl, by omega, hHigh, by omega⟩

theorem giveBack_meets (hLow : 0 ≤ c) (hHigh : c + arb < 2 ^ 31) (hKept : kept ≤ e - c - arb) :
    (giveBack arb c).Meets (May kept) Changes (fun e' c' => 0 ≤ c' ∧ c' < 2 ^ 31 ∧ e' - c' = e - c - arb) e := by
  have hArb : int32 (-int32 arb) = -(arb : Int) := by
    have hInner : int32 arb = arb := int32_of_fits (by omega) (by omega)
    rw [hInner]
    exact int32_of_fits (by omega) (by omega)
  unfold giveBack
  rw [hArb]
  exact (changeDaemonCounter_giveBack arb hLow hHigh hKept).bind fun e' r h => h.2

theorem aboutToAllocate_meets (hFits : Fits arb) (hLow : 0 ≤ c) (hHigh : c < 2 ^ 31) (hKept : kept ≤ e - c) :
    (aboutToAllocate arb true c).Meets (May kept) Changes
      (fun e' (r : Int × Bool) => r.2 = true ∧ 0 ≤ r.1 ∧ r.1 + arb < 2 ^ 31 ∧ e' - r.1 = e - c + arb) e := by
  have hArb : int32 arb = (arb : Int) := int32_of_fits (by omega) hFits.lt
  have hCode : (changeDaemonCounter arb c).Meets (May kept) Changes
      (fun e' (r : Int × Bool) => r.2 = true ∧ 0 ≤ r.1 ∧ r.1 + arb < 2 ^ 31 ∧ e' - r.1 = e - c + arb) e := by
    by_cases hSome : 0 < arb
    · exact changeDaemonCounter_reserve hSome hFits hLow hHigh
    · obtain rfl : arb = 0 := by omega
      refine (changeDaemonCounter_giveBack 0 hLow (by omega) (by omega)).mono fun e' r h => ?_
      exact ⟨h.1, h.2.1, by have := h.2.2.1; omega, by have := h.2.2.2; omega⟩
  unfold aboutToAllocate
  rw [hArb]
  refine hCode.bind fun e' r h => ?_
  obtain ⟨c', ok⟩ := r
  obtain ⟨rfl, h⟩ := h
  exact ⟨rfl, h⟩

variable {p : Process} {grow : Process → Process}

/-- The process grows by the bytes, and its cache stays the same. -/
def Grows (arb : Nat) (p : Process) (grow : Process → Process) : Prop :=
  ∀ c, (grow { p with localCachedBytes := c }).live = p.live + arb ∧
    (grow { p with localCachedBytes := c }).localCachedBytes = c

theorem attemptOnce_meets {attempt : Attempt} (hFits : Fits arb) (hGrow : Grows arb p grow)
    (hAccepts : attempt.slaveAccepts = true) (h : Counts e p) :
    (attemptOnce arb grow attempt p).Meets (May p.live) Changes
      (fun e' r => Counts e' r.1 ∧ (r.2 = true → r.1.blocks = p.blocks)) e := by
  obtain ⟨hLow, hHigh, hEntry⟩ := h
  unfold attemptOnce
  rw [hAccepts]
  refine (aboutToAllocate_meets (e := e) hFits hLow hHigh (by omega)).bind fun e' r hReserved => ?_
  obtain ⟨c', ok⟩ := r
  obtain ⟨rfl, hLow', hHigh', hEntry'⟩ := hReserved
  dsimp only at hLow' hHigh' hEntry' ⊢
  by_cases hSucceeds : attempt.succeeds = true
  · rw [if_pos ⟨rfl, hSucceeds⟩]
    obtain ⟨hLive, hCache⟩ := hGrow c'
    refine ⟨⟨?_, ?_, ?_⟩, fun hFailed => nomatch hFailed⟩
    · rw [hCache]
      exact hLow'
    · rw [hCache]
      omega
    · rw [hCache, hLive]
      push_cast
      omega
  · rw [if_neg fun hBoth => hSucceeds hBoth.2]
    refine (giveBack_meets hLow' hHigh' (by omega)).bind fun e'' c'' hBack => ?_
    obtain ⟨hLow'', hHigh'', hEntry''⟩ := hBack
    refine ⟨⟨hLow'', hHigh'', ?_⟩, fun _ => rfl⟩
    change e'' = (p.live : Int) + c''
    omega

theorem obtain_meets {attempt : Attempt} {again : Option Attempt} (hFits : Fits arb) (hGrow : Grows arb p grow)
    (hAccepts : attempt.slaveAccepts = true) (hAgain : again.all Attempt.slaveAccepts = true) (h : Counts e p) :
    (obtain arb grow attempt again p).Meets (May p.live) Changes Counts e := by
  unfold obtain
  refine (attemptOnce_meets hFits hGrow hAccepts h).bind fun e' r hFirst => ?_
  obtain ⟨p', failed⟩ := r
  obtain ⟨hCounts, hBlocks⟩ := hFirst
  dsimp only at hCounts hBlocks ⊢
  cases again with
  | none => exact hCounts
  | some second =>
    cases failed with
    | false => exact hCounts
    | true =>
      have hSame : p'.live = p.live := congrArg List.sum (hBlocks rfl)
      have hGrow' : Grows arb p' grow := by
        intro c
        have hProcess : { p' with localCachedBytes := c } = { p with localCachedBytes := c } :=
          congrArg (Process.mk c) (hBlocks rfl)
        rw [hProcess, hSame]
        exact hGrow c
      dsimp only
      rw [if_pos rfl, ← hSame]
      refine (attemptOnce_meets hFits hGrow' hAgain hCounts).bind fun e'' r hSecond => ?_
      exact hSecond.1

end Code

/-! ### Calls -/

/-- No slave refuses the bytes of a call, a block that shrinks does so, and no size leaves `int32`. -/
def Call.Sound (p : Process) : Call → Prop
  | .alloc userSize attempt again =>
    Fits (internalSize userSize) ∧ attempt.slaveAccepts = true ∧ again.all Attempt.slaveAccepts = true
  | .realloc block newUserSize attempt again =>
    match p.blocks[block]? with
    | none => True
    | some size =>
      if internalSize newUserSize < size then
        attempt.succeeds = true ∧ p.localCachedBytes + (size - internalSize newUserSize : Nat) < 2 ^ 31
      else
        Fits (internalSize newUserSize - size) ∧ attempt.slaveAccepts = true ∧ again.all Attempt.slaveAccepts = true
  | .free block =>
    match p.blocks[block]? with
    | none => True
    | some size => p.localCachedBytes + (size : Nat) < 2 ^ 31

instance (p : Process) : (call : Call) → Decidable (call.Sound p)
  | .alloc userSize attempt again =>
    inferInstanceAs (Decidable (Fits (internalSize userSize) ∧ attempt.slaveAccepts = true ∧
      again.all Attempt.slaveAccepts = true))
  | .realloc block newUserSize attempt again => by
    unfold Call.Sound
    dsimp only
    split <;> infer_instance
  | .free block => by
    unfold Call.Sound
    dsimp only
    split <;> infer_instance

section Calls

variable {e : Int} {p : Process} {l : List Nat} {i a b : Nat}

theorem sum_eraseIdx (h : l[i]? = some a) : (l.eraseIdx i).sum + a = l.sum := by
  induction l generalizing i with
  | nil => cases h
  | cons x l ih =>
    cases i with
    | zero =>
      obtain rfl := Option.some.inj h
      rw [List.eraseIdx_cons_zero, List.sum_cons, Nat.add_comm]
    | succ i =>
      rw [List.eraseIdx_cons_succ, List.sum_cons, List.sum_cons, Nat.add_assoc, ih h]

theorem sum_set (h : l[i]? = some a) : (l.set i b).sum + a = l.sum + b := by
  induction l generalizing i with
  | nil => cases h
  | cons x l ih =>
    cases i with
    | zero =>
      obtain rfl := Option.some.inj h
      rw [List.set_cons_zero, List.sum_cons, List.sum_cons]
      omega
    | succ i =>
      rw [List.set_cons_succ, List.sum_cons, List.sum_cons, Nat.add_assoc, ih h, Nat.add_assoc]

theorem muscleAlloc_meets {userSize : Nat} {attempt : Attempt} {again : Option Attempt} (h : Counts e p)
    (hSound : (Call.alloc userSize attempt again).Sound p) :
    (muscleAlloc userSize attempt again p).Meets (May p.live) Changes Counts e := by
  obtain ⟨hFits, hAccepts, hAgain⟩ := hSound
  refine obtain_meets hFits (fun c => ⟨?_, rfl⟩) hAccepts hAgain h
  exact List.sum_append.trans (by rw [List.sum_singleton]; rfl)

theorem muscleFree_meets {block : Nat} (h : Counts e p) (hSound : (Call.free block).Sound p) :
    (muscleFree block p).Meets (May (p.live - p.blocks.getD block 0)) Changes Counts e := by
  unfold muscleFree
  unfold Call.Sound at hSound
  dsimp only at hSound
  rw [List.getD_eq_getElem?_getD]
  cases hBlock : p.blocks[block]? with
  | none => exact h
  | some size =>
    rw [hBlock] at hSound
    dsimp only at hSound ⊢
    have hSum : (p.blocks.eraseIdx block).sum + size = p.live := sum_eraseIdx hBlock
    have hEntry := h.entry_eq
    rw [Option.getD_some]
    refine (giveBack_meets h.low hSound (by omega)).bind fun e' c' hBack => ?_
    obtain ⟨hLow, hHigh, hEntry'⟩ := hBack
    refine ⟨hLow, hHigh, ?_⟩
    change e' = ((p.blocks.eraseIdx block).sum : Nat) + c'
    omega

theorem muscleRealloc_meets {block newUserSize : Nat} {attempt : Attempt} {again : Option Attempt} (h : Counts e p)
    (hSound : (Call.realloc block newUserSize attempt again).Sound p) :
    (muscleRealloc block newUserSize attempt again p).Meets
      (May (p.live - (p.blocks.getD block 0 - internalSize newUserSize))) Changes Counts e := by
  unfold muscleRealloc
  unfold Call.Sound at hSound
  dsimp only at hSound
  rw [List.getD_eq_getElem?_getD]
  cases hBlock : p.blocks[block]? with
  | none => exact h
  | some size =>
    rw [hBlock] at hSound
    dsimp only at hSound ⊢
    have hSum : (p.blocks.set block (internalSize newUserSize)).sum + size = p.live + internalSize newUserSize :=
      sum_set hBlock
    have hEntry := h.entry_eq
    rw [Option.getD_some]
    generalize internalSize newUserSize = newInternalSize at hSound hSum ⊢
    by_cases hSame : newInternalSize = size
    · rw [if_pos hSame]
      exact h
    · rw [if_neg hSame]
      by_cases hMore : newInternalSize > size
      · rw [if_neg (by omega)] at hSound
        rw [if_pos hMore, show p.live - (size - newInternalSize) = p.live by omega]
        obtain ⟨hFits, hAccepts, hAgain⟩ := hSound
        refine obtain_meets hFits (fun c => ⟨?_, rfl⟩) hAccepts hAgain h
        change (p.blocks.set block newInternalSize).sum = _
        omega
      · rw [if_pos (by omega)] at hSound
        rw [if_neg hMore, hSound.1]
        have hLess : size - newInternalSize ≤ p.live := by omega
        refine (giveBack_meets h.low hSound.2 (by omega)).bind fun e' c' hBack => ?_
        obtain ⟨hLow, hHigh, hEntry'⟩ := hBack
        rw [if_pos rfl]
        refine ⟨hLow, hHigh, ?_⟩
        change e' = ((p.blocks.set block newInternalSize).sum : Nat) + c'
        omega

/-- Any call that a process makes keeps the accounts. -/
theorem Call.code_meets {call : Call} (h : Counts e p) (hSound : call.Sound p) :
    (call.code p).Meets (May (call.kept p)) Changes Counts e := by
  cases call with
  | alloc userSize attempt again => exact muscleAlloc_meets h hSound
  | realloc block newUserSize attempt again => exact muscleRealloc_meets h hSound
  | free block => exact muscleFree_meets h hSound

theorem Call.kept_le (call : Call) (p : Process) : call.kept p ≤ p.live := by
  cases call with
  | alloc userSize attempt again => exact Nat.le_refl _
  | realloc block newUserSize attempt again => exact Nat.sub_le _ _
  | free block => exact Nat.sub_le _ _

end Calls

/-! ### Runs of the group -/

/-- A member's call meets no refusal and no overflow: more bytes are there when it asks for them. -/
def Move.Sound {n : Nat} (maxBytes : UInt64) (s : Group n) : Move n → Prop
  | .call i made =>
    match s.member i with
    | .idle p => made.Sound p
    | .inCall _ _ _ => True
  | .access i locks =>
    match s.member i with
    | .idle _ => True
    | .inCall _ asked _ => 0 < asked.byteDelta →
      locks = true ∧ s.total + asked.byteDelta ≤ maxBytes.toNat ∧
        asked.localCachedBytes + asked.byteDelta < 2 ^ 31

instance {n : Nat} (maxBytes : UInt64) (s : Group n) : (move : Move n) → Decidable (move.Sound maxBytes s)
  | .call i made => by
    unfold Move.Sound
    dsimp only
    split <;> infer_instance
  | .access i locks => by
    unfold Move.Sound
    dsimp only
    split <;> infer_instance

/-- The bytes that a member has and is not about to free. -/
def Member.live : Member → Nat
  | .idle p => p.live
  | .inCall kept _ _ => kept

/-- The entry of a member counts what it has, or will do so when its call is over. -/
def Member.Accounts (entry : Int) : Member → Prop
  | .idle p => Counts entry p
  | .inCall kept access next => kept ≤ entry ∧
    (Asking.ask access next : Code Process).Meets (May kept) Changes Counts entry

theorem Member.live_le {m : Member} {entry : Int} (h : m.Accounts entry) : m.live ≤ entry := by
  cases m with
  | idle p =>
    have hEntry := h.entry_eq
    have hLow := h.low
    change (p.live : Int) ≤ entry
    omega
  | inCall kept access next => exact h.1

theorem Member.of_accounts {kept : Nat} {code : Code Process} {entry : Int} (hKept : kept ≤ entry)
    (h : code.Meets (May kept) Changes Counts entry) : (Member.of kept code).Accounts entry := by
  cases code with
  | ret p => exact h
  | ask access next => exact ⟨hKept, h⟩

namespace Group

variable {n : Nat} {maxBytes : UInt64} {s : Group n} {i : Fin n}

/-- The shared total is the sum of the entries and within the limit, and each entry accounts for its member. -/
structure Accounts (maxBytes : UInt64) (s : Group n) : Prop where
  total_eq : s.total = ∑ i, s.entry i
  total_le : s.total ≤ maxBytes.toNat
  members : ∀ i, (s.member i).Accounts (s.entry i)

theorem start_accounts (maxBytes : UInt64) (n : Nat) : (start n).Accounts maxBytes where
  total_eq := (Finset.sum_eq_zero fun _ _ => rfl).symm
  total_le := Int.natCast_nonneg _
  members := fun _ => ⟨Int.le_refl 0, by decide, rfl⟩

theorem Accounts.entry_nonneg (h : s.Accounts maxBytes) (i : Fin n) : 0 ≤ s.entry i :=
  (Int.natCast_nonneg _).trans (Member.live_le (h.members i))

theorem Accounts.entry_le (h : s.Accounts maxBytes) (i : Fin n) : s.entry i ≤ s.total := by
  rw [h.total_eq]
  exact Finset.single_le_sum (fun j _ => h.entry_nonneg j) (Finset.mem_univ i)

/-- One member changes, and its entry accounts for it. -/
theorem Accounts.setMember (h : s.Accounts maxBytes) {m : Member} (hm : m.Accounts (s.entry i)) :
    (s.setMember i m).Accounts maxBytes where
  total_eq := h.total_eq
  total_le := h.total_le
  members := by
    intro j
    unfold Group.setMember
    dsimp only
    by_cases hj : j = i
    · subst hj
      rw [Function.update_self]
      exact hm
    · rw [Function.update_of_ne hj]
      exact h.members j

theorem sum_update (entry : Fin n → Int) (i : Fin n) (d : Int) :
    ∑ j, Function.update entry i (entry i + d) j = ∑ j, entry j + d := by
  have hAfter := Finset.sum_update_of_mem (Finset.mem_univ i) entry (entry i + d)
  have hBefore := Finset.sum_update_of_mem (Finset.mem_univ i) entry (entry i)
  rw [Function.update_eq_self] at hBefore
  rw [hAfter, hBefore]
  omega

/-- An access that succeeds changes the total and the entry by the bytes. -/
theorem Accounts.access (h : s.Accounts maxBytes) {d : Int} {m : Member} (hLow : 0 ≤ s.entry i + d)
    (hHigh : s.total + d ≤ maxBytes.toNat) (hm : m.Accounts (s.entry i + d)) :
    ({ s with
      total := word (s.total + d)
      entry := Function.update s.entry i (word (s.entry i + d)) } : Group n).setMember i m |>.Accounts maxBytes := by
  have hEntry := h.entry_le i
  have hLimit := maxBytes.toNat_lt
  have hTotal : word (s.total + d) = s.total + d := Int.emod_eq_of_lt (by omega) (by omega)
  have hWord : word (s.entry i + d) = s.entry i + d := Int.emod_eq_of_lt hLow (by omega)
  rw [hTotal, hWord]
  constructor
  case total_eq =>
    change s.total + d = ∑ j, Function.update s.entry i (s.entry i + d) j
    rw [sum_update, h.total_eq]
  case total_le => exact hHigh
  case members =>
    intro j
    unfold Group.setMember
    dsimp only
    by_cases hj : j = i
    · subst hj
      rw [Function.update_self, Function.update_self]
      exact hm
    · rw [Function.update_of_ne hj, Function.update_of_ne hj]
      exact h.members j

theorem Accounts.step (h : s.Accounts maxBytes) (move : Move n) (hSound : move.Sound maxBytes s) :
    (s.step maxBytes move).Accounts maxBytes := by
  cases move with
  | call i call =>
    have hMember := h.members i
    unfold Group.step
    unfold Move.Sound at hSound
    dsimp only at hSound ⊢
    cases hIdle : s.member i with
    | idle p =>
      rw [hIdle] at hSound hMember
      have hLive : (call.kept p : Int) ≤ s.entry i :=
        (Int.ofNat_le.mpr (call.kept_le p)).trans (Member.live_le hMember)
      exact h.setMember (Member.of_accounts hLive (call.code_meets hMember hSound))
    | inCall kept access next => exact h
  | access i locks =>
    have hMember := h.members i
    unfold Group.step
    unfold Move.Sound at hSound
    dsimp only at hSound ⊢
    cases hIn : s.member i with
    | idle p => exact h
    | inCall kept access next =>
      rw [hIn] at hSound hMember
      obtain ⟨hKept, hMay, hNext⟩ := hMember
      dsimp only at hSound ⊢
      have hDone {got : Bool} {entry' : Int} (hKept : kept ≤ entry') (hChange : Changes (s.entry i) access got entry') :
          (Member.of kept (next got)).Accounts entry' := Member.of_accounts hKept (hNext got entry' hChange)
      unfold changeDaemonCounterAux
      by_cases hMore : 0 < access.byteDelta
      · obtain ⟨hLocks, hRoom, hCache⟩ := hSound hMore
        have hWord : word (s.total + access.byteDelta) ≤ maxBytes.toNat := by
          have hTotal := h.entry_le i
          have hEntry := h.entry_nonneg i
          exact (Int.emod_eq_of_lt (by omega) (by have := maxBytes.toNat_lt; omega)).le.trans hRoom
        rw [if_pos ⟨hLocks, .inr hWord⟩]
        refine h.access ?_ hRoom (hDone (by omega) ⟨rfl, fun _ => hCache⟩)
        have hEntry := h.entry_nonneg i
        omega
      · have hStays := hMay (by omega)
        by_cases hLocks : locks = true
        · rw [if_pos ⟨hLocks, .inl (by omega)⟩]
          refine h.access (by omega) ?_ (hDone hStays ⟨rfl, fun hSome => absurd hSome hMore⟩)
          have hTotal := h.total_le
          omega
        · rw [if_neg fun hBoth => hLocks hBoth.1]
          exact h.setMember (hDone hKept ⟨rfl, by omega⟩)

/-- In every run in which no bytes are refused, no block fails to shrink and no size leaves `int32`, the total is the
sum of the entries, each entry of a member between two calls counts its live and its cached bytes, and the live bytes of
all members are within the limit. -/
theorem accounts_of_run (maxBytes : UInt64) (n : Nat) (moves : List (Move n))
    (hRun : AllSteps (fun s move => move.Sound maxBytes s) (step maxBytes) moves (start n)) :
    (moves.foldl (step maxBytes) (start n)).total = ∑ i, (moves.foldl (step maxBytes) (start n)).entry i ∧
      (∀ i p, (moves.foldl (step maxBytes) (start n)).member i = .idle p →
        (moves.foldl (step maxBytes) (start n)).entry i = p.live + p.localCachedBytes) ∧
      ∑ i, ((moves.foldl (step maxBytes) (start n)).member i).live ≤ maxBytes.toNat := by
  have h : (moves.foldl (step maxBytes) (start n)).Accounts maxBytes :=
    foldl_keeps (fun s move h hSound => h.step move hSound) hRun (start_accounts maxBytes n)
  generalize moves.foldl (step maxBytes) (start n) = s at h ⊢
  refine ⟨h.total_eq, fun i p hIdle => ?_, ?_⟩
  · have hMember := h.members i
    rw [hIdle] at hMember
    exact hMember.entry_eq
  · have hSum : ((∑ i, (s.member i).live : Nat) : Int) ≤ ∑ i, s.entry i := by
      rw [Nat.cast_sum]
      exact Finset.sum_le_sum fun i _ => Member.live_le (h.members i)
    have hTotal := h.total_le
    rw [h.total_eq] at hTotal
    omega

/-- Two processes take blocks and one frees its block again. -/
theorem accounts_of_run_twoProcesses : AllSteps (fun s move => Move.Sound 409600 s move) (step 409600)
      [.call 0 (.alloc 1000 ⟨true, true⟩ none), .call 1 (.alloc 150000 ⟨true, true⟩ none), .access 0 true,
        .access 1 true, .call 0 (.free 0)] (start 2) ∧
    ∑ i, (([.call 0 (.alloc 1000 ⟨true, true⟩ none), .call 1 (.alloc 150000 ⟨true, true⟩ none), .access 0 true,
        .access 1 true, .call 0 (.free 0)].foldl (step 409600) (start 2)).member i).live ≤ 409600 :=
  ⟨by decide +kernel, (accounts_of_run 409600 2 _ (by decide +kernel)).2.2⟩

/-- A process of a group with a limit of 200 KB gets 150000 bytes, is refused 150000 more, and then gets them, as the
refusal was credited to its cache. -/
theorem refused_then_allowed : ¬∀ (maxBytes : UInt64) (moves : List (Move 1)),
    ∑ i, ((moves.foldl (step maxBytes) (start 1)).member i).live ≤ maxBytes.toNat := by
  intro h
  have hBound := h 204800 [.call 0 (.alloc 150000 ⟨true, true⟩ none), .access 0 true,
    .call 0 (.alloc 150000 ⟨true, true⟩ none), .access 0 true, .call 0 (.alloc 150000 ⟨true, true⟩ none)]
  revert hBound
  decide +kernel

end Group

end BeShare.Muscle.SharedUsage
