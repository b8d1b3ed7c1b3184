import BeShare.Lib.Runs
import BeShare.Lib.TokenBucket
import Mathlib.Tactic.NormNum

/-!
The policy that limits the rate of the sessions that share it, and what they transfer under it. The server calls the
policy in rounds: it begins one, asks for each session that wants to transfer if it may, asks then how many bytes each
of these may transfer, reports what they transferred, and ends the round. Pulses come at any time.
-/

namespace BeShare.Muscle

open Lib

structure RateLimitSessionIOPolicy where
  maxRate : UInt32
  byteLimit : UInt32
  lastTransferAt : UInt64
  transferTally : UInt32
  numParticipants : UInt32
deriving Repr, DecidableEq

namespace RateLimitSessionIOPolicy

/-- The constructor leaves `_numParticipants` as the memory has it. -/
def new (maxRate primeBytes memory : UInt32) : RateLimitSessionIOPolicy where
  maxRate := maxRate
  byteLimit := primeBytes
  lastTransferAt := 0
  transferTally := 0
  numParticipants := memory

variable (p : RateLimitSessionIOPolicy)

/-- `CUTOFF` -/
def cutoff : UInt32 :=
  p.byteLimit / 2

/-- The first line of `UpdateTransferTally`. -/
def newBytesAvailable (now : UInt64) : UInt32 :=
  if p.lastTransferAt > 0 then ((now - p.lastTransferAt) * p.maxRate.toUInt64 / 1000000).toUInt32 else 0xffffffff

def updateTransferTally (now : UInt64) : RateLimitSessionIOPolicy :=
  if p.maxRate > 0 then
    { p with
      transferTally :=
        if p.transferTally > p.newBytesAvailable now then p.transferTally - p.newBytesAvailable now else 0 }
  else { p with transferTally := 0xffffffff }

def beginIo (now : UInt64) : RateLimitSessionIOPolicy :=
  { p.updateTransferTally now with lastTransferAt := now, numParticipants := 0 }

def pulse (now : UInt64) : RateLimitSessionIOPolicy :=
  p.updateTransferTally now

def okayToTransfer : RateLimitSessionIOPolicy × Bool :=
  if p.maxRate > 0 ∧ p.transferTally < p.cutoff then ({ p with numParticipants := p.numParticipants + 1 }, true)
  else (p, false)

/-- `none` is the failed assertion. -/
def getMaxTransferChunkSize : Option UInt32 :=
  if p.numParticipants > 0 then
    some (if p.transferTally < p.byteLimit then (p.byteLimit - p.transferTally) / p.numParticipants else 0)
  else none

def bytesTransferred (numBytes : UInt32) : RateLimitSessionIOPolicy :=
  { p with transferTally := p.transferTally + numBytes }

def endIo (_now : UInt64) : RateLimitSessionIOPolicy :=
  p

/-! ### Rounds -/

inductive Call (Holder : Type) where
  | pulse (now : UInt64)
  | beginIo (now : UInt64)
  | okayToTransfer (holder : Holder)
  | getMaxTransferChunkSize (holder : Holder)
  | bytesTransferred (holder : Holder) (numBytes : UInt32)
  | endIo (now : UInt64)

/-- How far a round is. -/
inductive Stage where
  | ended
  | asking
  | giving
deriving Repr, DecidableEq

/-- A policy in use: the time of the last call, the sessions that were told that it is okay and wait for a chunk size,
what is left of the chunks that were given, and the bytes that were transferred, with the times at which their rounds
began. -/
structure Use (Holder : Type) where
  policy : RateLimitSessionIOPolicy
  clock : UInt64
  stage : Stage
  okayed : List Holder
  chunks : List (Holder × UInt32)
  log : List (Nat × Nat)

variable {Holder : Type} [DecidableEq Holder]

/-- A session transfers a part of its chunk. -/
def takeFrom (holder : Holder) (numBytes : UInt32) : List (Holder × UInt32) → Option (List (Holder × UInt32))
  | [] => none
  | (h, chunk) :: chunks =>
    if h = holder ∧ numBytes ≤ chunk then some ((h, chunk - numBytes) :: chunks)
    else (takeFrom holder numBytes chunks).map ((h, chunk) :: ·)

namespace Use

def new (Holder : Type) (p : RateLimitSessionIOPolicy) : Use Holder where
  policy := p
  clock := 0
  stage := .ended
  okayed := []
  chunks := []
  log := []

def step (s : Use Holder) : Call Holder → Use Holder
  | .pulse now => { s with policy := s.policy.pulse now, clock := now }
  | .beginIo now =>
    { s with policy := s.policy.beginIo now, clock := now, stage := .asking, okayed := [], chunks := [] }
  | .okayToTransfer holder =>
    { s with
      policy := s.policy.okayToTransfer.1
      okayed := if s.policy.okayToTransfer.2 then holder :: s.okayed else s.okayed }
  | .getMaxTransferChunkSize holder =>
    { s with
      stage := .giving
      okayed := s.okayed.erase holder
      chunks := (holder, s.policy.getMaxTransferChunkSize.getD 0) :: s.chunks }
  | .bytesTransferred holder numBytes =>
    { s with
      policy := s.policy.bytesTransferred numBytes
      chunks := (takeFrom holder numBytes s.chunks).getD s.chunks
      log := (s.policy.lastTransferAt.toNat, numBytes.toNat) :: s.log }
  | .endIo now => { s with policy := s.policy.endIo now, clock := now, stage := .ended, okayed := [], chunks := [] }

/-- The calls come in the order that `AbstractSessionIOPolicy` promises, the times do not decrease, and a session
transfers no more than the policy allows it. -/
def MayCall (s : Use Holder) : Call Holder → Prop
  | .pulse now => s.clock ≤ now
  | .beginIo now => s.clock ≤ now
  | .okayToTransfer _ => s.stage = .asking
  | .getMaxTransferChunkSize holder => holder ∈ s.okayed
  | .bytesTransferred holder numBytes => (takeFrom holder numBytes s.chunks).isSome = true
  | .endIo now => s.clock ≤ now

instance (s : Use Holder) : (call : Call Holder) → Decidable (s.MayCall call)
  | .pulse now => inferInstanceAs (Decidable (s.clock ≤ now))
  | .beginIo now => inferInstanceAs (Decidable (s.clock ≤ now))
  | .okayToTransfer _ => inferInstanceAs (Decidable (s.stage = .asking))
  | .getMaxTransferChunkSize holder => inferInstanceAs (Decidable (holder ∈ s.okayed))
  | .bytesTransferred holder numBytes => inferInstanceAs (Decidable ((takeFrom holder numBytes s.chunks).isSome = true))
  | .endIo now => inferInstanceAs (Decidable (s.clock ≤ now))

end Use

/-- Elapsed time is credited once: a pulse, which does not move `_lastTransferAt`, credits nothing. A time of 0 is not
taken for never. The count of the participants does not wrap. -/
def CreditsOnce : Call Holder → Prop
  | .pulse now => p.maxRate = 0 ∨ p.transferTally = 0 ∨ p.newBytesAvailable now = 0
  | .beginIo _ => p.maxRate = 0 ∨ p.transferTally = 0 ∨ p.lastTransferAt > 0
  | .okayToTransfer _ => p.maxRate = 0 ∨ p.numParticipants < 0xffffffff
  | _ => True

instance : (call : Call Holder) → Decidable (p.CreditsOnce call)
  | .pulse now => inferInstanceAs (Decidable (p.maxRate = 0 ∨ p.transferTally = 0 ∨ p.newBytesAvailable now = 0))
  | .beginIo _ => inferInstanceAs (Decidable (p.maxRate = 0 ∨ p.transferTally = 0 ∨ p.lastTransferAt > 0))
  | .okayToTransfer _ => inferInstanceAs (Decidable (p.maxRate = 0 ∨ p.numParticipants < 0xffffffff))
  | .getMaxTransferChunkSize _ => isTrue trivial
  | .bytesTransferred _ _ => isTrue trivial
  | .endIo _ => isTrue trivial

theorem pos_ne_zero {x : UInt32} (h : 0 < x) : x ≠ 0 :=
  fun hZero => UInt32.lt_irrefl 0 (hZero ▸ h)

/-! ### The tally -/

section Tally

variable {p : RateLimitSessionIOPolicy} {now : UInt64}

theorem updateTransferTally_eq (hRate : 0 < p.maxRate) : p.updateTransferTally now =
    { p with
      transferTally :=
        if p.transferTally > p.newBytesAvailable now then p.transferTally - p.newBytesAvailable now else 0 } :=
  if_pos hRate

theorem updateTransferTally_tally (hRate : 0 < p.maxRate) : (p.updateTransferTally now).transferTally.toNat =
    p.transferTally.toNat - (p.newBytesAvailable now).toNat := by
  rw [updateTransferTally_eq hRate]
  dsimp only
  split
  case isTrue h =>
    exact UInt32.toNat_sub_of_le _ _ (UInt32.le_of_lt h)
  case isFalse h =>
    have hLe : p.transferTally.toNat ≤ (p.newBytesAvailable now).toNat := UInt32.le_iff_toNat_le.mp (UInt32.not_lt.mp h)
    exact (Nat.sub_eq_zero_of_le hLe).symm

theorem newBytesAvailable_le (hLast : p.lastTransferAt > 0) (hNow : p.lastTransferAt ≤ now) :
    1000000 * (p.newBytesAvailable now).toNat ≤ p.maxRate.toNat * (now.toNat - p.lastTransferAt.toNat) := by
  unfold newBytesAvailable
  rw [if_pos hLast, UInt64.toNat_toUInt32, UInt64.toNat_div, UInt64.toNat_mul, UInt64.toNat_sub_of_le _ _ hNow,
    UInt32.toNat_toUInt64, Nat.mul_comm p.maxRate.toNat]
  -- what wraps is lost, never gained
  refine (Nat.mul_le_mul_left _ (Nat.mod_le _ _)).trans ?_
  exact (Nat.mul_div_le _ _).trans (Nat.mod_le _ _)

/-- A pulse that credits nothing changes nothing. -/
theorem pulse_eq (hRate : 0 < p.maxRate) (h : p.transferTally = 0 ∨ p.newBytesAvailable now = 0) : p.pulse now = p := by
  have hSame : (p.updateTransferTally now).transferTally = p.transferTally := by
    rw [← UInt32.toNat_inj, updateTransferTally_tally hRate]
    rcases h with hTally | hNone
    · rw [hTally, UInt32.toNat_zero, Nat.zero_sub]
    · rw [hNone, UInt32.toNat_zero, Nat.sub_zero]
  unfold pulse
  rw [updateTransferTally_eq hRate] at hSame ⊢
  dsimp only at hSame
  rw [hSame]

variable (p) in
/-- What each participant may transfer. -/
def share : Nat :=
  (p.byteLimit.toNat - p.transferTally.toNat) / p.numParticipants.toNat

theorem getMaxTransferChunkSize_eq : (p.getMaxTransferChunkSize.getD 0).toNat = p.share := by
  unfold getMaxTransferChunkSize share
  split
  case isFalse h =>
    have hNobody : p.numParticipants.toNat = 0 := 
      Nat.eq_zero_of_not_pos fun hPos => h (UInt32.lt_iff_toNat_lt.mpr hPos)
    rw [hNobody, Nat.div_zero]
    rfl
  case isTrue h =>
    rw [Option.getD_some]
    split
    case isTrue hLess => rw [UInt32.toNat_div, UInt32.toNat_sub_of_le _ _ (UInt32.le_of_lt hLess)]
    case isFalse hMore =>
      have hLe : p.byteLimit.toNat ≤ p.transferTally.toNat := UInt32.le_iff_toNat_le.mp (UInt32.not_lt.mp hMore)
      rw [Nat.sub_eq_zero_of_le hLe, Nat.zero_div]
      rfl

end Tally

/-- The bytes of the chunks. -/
def given (chunks : List (Holder × UInt32)) : Nat :=
  (chunks.map fun chunk => chunk.2.toNat).sum

omit [DecidableEq Holder] in
theorem given_cons (holder : Holder) (chunk : UInt32) (chunks : List (Holder × UInt32)) :
    given ((holder, chunk) :: chunks) = chunk.toNat + given chunks := rfl

theorem given_takeFrom {holder : Holder} {numBytes : UInt32} {chunks rest : List (Holder × UInt32)}
    (h : takeFrom holder numBytes chunks = some rest) : numBytes.toNat + given rest = given chunks := by
  induction chunks generalizing rest with
  | nil => cases h
  | cons first chunks ih =>
    obtain ⟨other, chunk⟩ := first
    unfold takeFrom at h
    by_cases hHere : other = holder ∧ numBytes ≤ chunk
    · rw [if_pos hHere] at h
      cases h
      have hLe := UInt32.le_iff_toNat_le.mp hHere.2
      rw [given_cons, given_cons, UInt32.toNat_sub_of_le _ _ hHere.2]
      omega
    · rw [if_neg hHere] at h
      obtain ⟨later, hLater, rfl⟩ := Option.map_eq_some_iff.mp h
      rw [given_cons, given_cons, ← ih hLater]
      omega

/-! ### Runs -/

namespace Use

variable {s : Use Holder} {call : Call Holder} {maxRate byteLimit : UInt32}

omit [DecidableEq Holder] in
theorem updated_limits (p : RateLimitSessionIOPolicy) (now : UInt64) :
    (p.updateTransferTally now).maxRate = p.maxRate ∧ (p.updateTransferTally now).byteLimit = p.byteLimit := by
  unfold updateTransferTally
  split <;> exact ⟨rfl, rfl⟩

theorem step_limits (s : Use Holder) (call : Call Holder) : (s.step call).policy.maxRate = s.policy.maxRate ∧
    (s.step call).policy.byteLimit = s.policy.byteLimit := by
  cases call with
  | pulse now => exact updated_limits s.policy now
  | beginIo now => exact updated_limits s.policy now
  | okayToTransfer holder =>
    unfold step okayToTransfer
    dsimp only
    split <;> exact ⟨rfl, rfl⟩
  | getMaxTransferChunkSize holder => exact ⟨rfl, rfl⟩
  | bytesTransferred holder numBytes => exact ⟨rfl, rfl⟩
  | endIo now => exact ⟨rfl, rfl⟩

/-- With a rate of 0 nobody transfers anything. -/
structure Off (s : Use Holder) : Prop where
  rate : s.policy.maxRate = 0
  okayed : s.okayed = []
  chunks : s.chunks = []
  log : s.log = []

theorem Off.step (h : Off s) (hMay : s.MayCall call) : Off (s.step call) := by
  have hRate : (s.step call).policy.maxRate = 0 := (step_limits s call).1.trans h.rate
  cases call with
  | pulse now => exact ⟨hRate, h.okayed, h.chunks, h.log⟩
  | beginIo now => exact ⟨hRate, rfl, rfl, h.log⟩
  | okayToTransfer holder =>
    refine ⟨hRate, ?_, h.chunks, h.log⟩
    unfold Use.step RateLimitSessionIOPolicy.okayToTransfer
    rw [if_neg fun hOkay => pos_ne_zero hOkay.1 h.rate]
    exact h.okayed
  | getMaxTransferChunkSize holder => exact absurd (h.okayed ▸ hMay : holder ∈ []) List.not_mem_nil
  | bytesTransferred holder numBytes =>
    unfold MayCall at hMay
    rw [h.chunks] at hMay
    cases hMay
  | endIo now => exact ⟨hRate, rfl, rfl, h.log⟩

/-- The tally is the level of a bucket that leaks at the rate, and what the sessions may still transfer fits into it. -/
structure Kept (s : Use Holder) : Prop where
  rate : 0 < s.policy.maxRate
  clock : s.policy.lastTransferAt ≤ s.clock
  bucket : Leaking 1000000 s.policy.maxRate.toNat s.policy.byteLimit.toNat s.policy.transferTally.toNat
    s.policy.lastTransferAt.toNat s.log
  asking : s.stage = .asking → s.chunks = [] ∧ s.okayed.length = s.policy.numParticipants.toNat
  fits : s.policy.transferTally.toNat + given s.chunks + s.okayed.length * s.policy.share ≤ s.policy.byteLimit.toNat

omit [DecidableEq Holder] in
theorem Kept.new (p : RateLimitSessionIOPolicy) (hRate : 0 < p.maxRate) (hLast : p.lastTransferAt = 0)
    (hTally : p.transferTally = 0) : Kept (Use.new Holder p) where
  rate := hRate
  clock := UInt64.le_of_eq hLast
  bucket := by
    have h := Leaking.start 1000000 p.maxRate.toNat p.byteLimit.toNat
    unfold Use.new
    rw [hLast, hTally]
    exact h
  asking := nofun
  fits := by
    unfold Use.new
    dsimp only
    rw [hTally, List.length_nil, Nat.zero_mul]
    exact Nat.zero_le _

theorem Kept.pulse (h : Kept s) {now : UInt64} (hMay : s.clock ≤ now)
    (hOnce : s.policy.CreditsOnce (.pulse now : Call Holder)) :
    Kept (s.step (.pulse now)) := by
  have hSame : s.policy.pulse now = s.policy :=
    pulse_eq h.rate (hOnce.resolve_left (pos_ne_zero h.rate))
  have hStep : s.step (.pulse now) = { s with clock := now } :=
    congrArg (fun p => { s with policy := p, clock := now }) hSame
  rw [hStep]
  exact ⟨h.rate, UInt64.le_trans h.clock hMay, h.bucket, h.asking, h.fits⟩

theorem Kept.beginIo (h : Kept s) {now : UInt64} (hMay : s.clock ≤ now)
    (hOnce : s.policy.CreditsOnce (.beginIo now : Call Holder)) : Kept (s.step (.beginIo now)) := by
  obtain ⟨hRate, hLimit⟩ := updated_limits s.policy now
  have hNow : s.policy.lastTransferAt ≤ now := UInt64.le_trans h.clock hMay
  have hTally : (s.policy.updateTransferTally now).transferTally.toNat =
      s.policy.transferTally.toNat - (s.policy.newBytesAvailable now).toNat := updateTransferTally_tally h.rate
  have hBucket : Leaking 1000000 s.policy.maxRate.toNat s.policy.byteLimit.toNat
      (s.policy.updateTransferTally now).transferTally.toNat now.toNat s.log := by
    rw [hTally]
    rcases hOnce.resolve_left (pos_ne_zero h.rate) with hZero | hLast
    · have hBefore := h.bucket
      rw [hZero, UInt32.toNat_zero] at hBefore ⊢
      rw [Nat.zero_sub]
      exact hBefore.wait (UInt64.le_iff_toNat_le.mp hNow)
    · exact h.bucket.leak (UInt64.le_iff_toNat_le.mp hNow) (newBytesAvailable_le hLast hNow)
  constructor
  case rate => exact (congrArg (0 < ·) hRate).mpr h.rate
  case clock => exact UInt64.le_refl now
  case bucket =>
    change Leaking 1000000 (s.policy.updateTransferTally now).maxRate.toNat
      (s.policy.updateTransferTally now).byteLimit.toNat _ _ _
    rw [hRate, hLimit]
    exact hBucket
  case asking => exact fun _ => ⟨rfl, rfl⟩
  case fits =>
    change (s.policy.updateTransferTally now).transferTally.toNat + given [] + [].length * _ ≤
      (s.policy.updateTransferTally now).byteLimit.toNat
    rw [hLimit, List.length_nil, Nat.zero_mul]
    exact hBucket.level_le

theorem Kept.okayToTransfer (h : Kept s) {holder : Holder} (hMay : s.stage = .asking)
    (hOnce : s.policy.CreditsOnce (.okayToTransfer holder)) : Kept (s.step (.okayToTransfer holder)) := by
  obtain ⟨hChunks, hLength⟩ := h.asking hMay
  unfold Use.step RateLimitSessionIOPolicy.okayToTransfer
  by_cases hOkay : s.policy.maxRate > 0 ∧ s.policy.transferTally < s.policy.cutoff
  · rw [if_pos hOkay]
    have hMore : (s.policy.numParticipants + 1).toNat = s.policy.numParticipants.toNat + 1 := by
      have hLess := UInt32.lt_iff_toNat_lt.mp (hOnce.resolve_left (pos_ne_zero h.rate))
      rw [UInt32.toNat_add]
      exact Nat.mod_eq_of_lt (Nat.succ_lt_succ hLess)
    refine ⟨h.rate, h.clock, h.bucket, fun _ => ⟨hChunks, ?_⟩, ?_⟩
    · exact (congrArg (· + 1) hLength).trans hMore.symm
    · have hLevel := h.bucket.level_le
      have hShares := Nat.mul_div_le (s.policy.byteLimit.toNat - s.policy.transferTally.toNat)
        (s.policy.numParticipants.toNat + 1)
      unfold share
      simp only [hChunks, given, List.map_nil, List.sum_nil, if_true, List.length_cons, hLength, hMore]
      omega
  · rw [if_neg hOkay]
    exact ⟨h.rate, h.clock, h.bucket, h.asking, h.fits⟩

theorem Kept.getMaxTransferChunkSize (h : Kept s) {holder : Holder} (hMay : holder ∈ s.okayed) :
    Kept (s.step (.getMaxTransferChunkSize holder)) := by
  refine ⟨h.rate, h.clock, h.bucket, nofun, ?_⟩
  have hOthers : s.okayed.length = (s.okayed.erase holder).length + 1 := by
    have hSome : 0 < s.okayed.length := List.length_pos_of_mem hMay
    rw [List.length_erase_of_mem hMay]
    omega
  have hFits := h.fits
  rw [hOthers, Nat.succ_mul] at hFits
  unfold Use.step
  rw [given_cons, getMaxTransferChunkSize_eq]
  dsimp only
  omega

theorem Kept.bytesTransferred (h : Kept s) {holder : Holder} {numBytes : UInt32}
    (hMay : (takeFrom holder numBytes s.chunks).isSome = true) : Kept (s.step (.bytesTransferred holder numBytes)) := by
  obtain ⟨rest, hRest⟩ := Option.isSome_iff_exists.mp hMay
  have hGiven := given_takeFrom hRest
  have hFits := h.fits
  have hRoom : s.policy.transferTally.toNat + numBytes.toNat ≤ s.policy.byteLimit.toNat := by omega
  have hSum : (s.policy.transferTally + numBytes).toNat = s.policy.transferTally.toNat + numBytes.toNat := by
    rw [UInt32.toNat_add]
    exact Nat.mod_eq_of_lt (Nat.lt_of_le_of_lt hRoom s.policy.byteLimit.toNat_lt)
  unfold Use.step RateLimitSessionIOPolicy.bytesTransferred
  dsimp only
  rw [hRest, Option.getD_some]
  refine ⟨h.rate, h.clock, ?_, fun hAsking => ?_, ?_⟩
  · dsimp only
    rw [hSum]
    exact h.bucket.fill hRoom
  · rw [(h.asking hAsking).1] at hRest
    cases hRest
  · have hLess : (s.policy.byteLimit.toNat - (s.policy.transferTally.toNat + numBytes.toNat)) /
        s.policy.numParticipants.toNat ≤ s.policy.share := Nat.div_le_div_right (by omega)
    have hShares := Nat.mul_le_mul_left s.okayed.length hLess
    unfold share
    dsimp only
    rw [hSum]
    omega

theorem Kept.endIo (h : Kept s) {now : UInt64} (hMay : s.clock ≤ now) : Kept (s.step (.endIo now)) := by
  refine ⟨h.rate, UInt64.le_trans h.clock hMay, h.bucket, nofun, ?_⟩
  unfold Use.step
  rw [List.length_nil, Nat.zero_mul]
  exact h.bucket.level_le

theorem Kept.step (h : Kept s) (hMay : s.MayCall call) (hOnce : s.policy.CreditsOnce call) : Kept (s.step call) := by
  cases call with
  | pulse now => exact h.pulse hMay hOnce
  | beginIo now => exact h.beginIo hMay hOnce
  | okayToTransfer holder => exact h.okayToTransfer hMay hOnce
  | getMaxTransferChunkSize holder => exact h.getMaxTransferChunkSize hMay
  | bytesTransferred holder numBytes => exact h.bytesTransferred hMay
  | endIo now => exact h.endIo hMay

end Use

variable {maxRate primeBytes memory : UInt32} {calls : List (Call Holder)}

/-- A run of a new policy in which elapsed time is credited once transfers no more in any interval than the burst and
what the rate allows. -/
theorem transferred_le
    (hRun : AllSteps (fun s call => Use.MayCall s call ∧ s.policy.CreditsOnce call) Use.step calls
      (Use.new Holder (new maxRate primeBytes memory))) (t₁ t₂ : Nat) :
    filledIn (calls.foldl Use.step (Use.new Holder (new maxRate primeBytes memory))).log t₁ t₂ ≤
      primeBytes.toNat + maxRate.toNat * (t₂ - t₁) / 1000000 := by
  set start := Use.new Holder (new maxRate primeBytes memory) with hStart
  by_cases hRate : maxRate = 0
  · have hOff : Use.Off (calls.foldl Use.step start) :=
      foldl_keeps (fun s call h hStep => h.step hStep.1) hRun ⟨hRate, rfl, rfl, rfl⟩
    rw [hOff.log, filledIn_nil]
    exact Nat.zero_le _
  · have hPos : 0 < maxRate := UInt32.pos_iff_ne_zero.mpr hRate
    have hKept : Use.Kept (calls.foldl Use.step start) ∧ (calls.foldl Use.step start).policy.maxRate = maxRate ∧
        (calls.foldl Use.step start).policy.byteLimit = primeBytes := by
      refine foldl_keeps (P := fun s => Use.Kept s ∧ s.policy.maxRate = maxRate ∧ s.policy.byteLimit = primeBytes)
        (fun s call h hStep => ?_) hRun ⟨Use.Kept.new _ hPos rfl rfl, rfl, rfl⟩
      obtain ⟨hSameRate, hSameLimit⟩ := s.step_limits call
      exact ⟨h.1.step hStep.1 hStep.2, hSameRate.trans h.2.1, hSameLimit.trans h.2.2⟩
    obtain ⟨hKept, hSameRate, hSameLimit⟩ := hKept
    have hBound := hKept.bucket.filledIn_le (by decide) t₁ t₂
    rwa [hSameRate, hSameLimit] at hBound

/-- Two rounds of one session half a second apart, without a pulse in between. -/
theorem transferred_le_twoRounds : filledIn
    ([Call.beginIo 1, .okayToTransfer (), .getMaxTransferChunkSize (), .bytesTransferred () 1000, .endIo 1,
      .beginIo 500001, .endIo 500001].foldl Use.step (Use.new Unit (new 1000 1000 0))).log 1 500001 ≤ 1000 + 500 :=
  transferred_le (by decide) 1 500001

/-- With a rate and a burst of 1000 bytes, a pulse half a second after the first burst credits 500 bytes, and the next
round credits them once more: 2000 bytes go out in half a second. -/
theorem pulse_credits_twice : ¬∀ (maxRate primeBytes memory : UInt32) (calls : List (Call Unit)) (t₁ t₂ : Nat),
    AllSteps Use.MayCall Use.step calls (Use.new Unit (new maxRate primeBytes memory)) →
    filledIn (calls.foldl Use.step (Use.new Unit (new maxRate primeBytes memory))).log t₁ t₂ ≤
      primeBytes.toNat + maxRate.toNat * (t₂ - t₁) / 1000000 := by
  intro h
  have hBound := h 1000 1000 0
    [.beginIo 1, .okayToTransfer (), .getMaxTransferChunkSize (), .bytesTransferred () 1000, .endIo 1, .pulse 500001,
      .beginIo 500001, .okayToTransfer (), .getMaxTransferChunkSize (), .bytesTransferred () 1000] 1 500001
    (by decide)
  revert hBound
  decide

end RateLimitSessionIOPolicy

end BeShare.Muscle
