import BeShare.Lib.Fair
import BeShare.Lib.Runs

/-!
A message queue of `Thread`: any number of threads send messages, one thread waits for them at a socket that the signal
bytes come out of.
-/

namespace BeShare.Muscle.Thread

open BeShare.Lib

/-- Where the receiver is in `WaitForNextMessageAux`. -/
inductive Receiver where
  /-- not in it -/
  | returned
  /-- before the queue is locked -/
  | checking
  /-- behind an empty queue, on the way to `select` or in it -/
  | waiting
  deriving DecidableEq

/-- `ThreadSpecificData`, and the threads. `accepted` and `received` keep what `SendMessageAux` has accepted and what
`WaitForNextMessageAux` has returned. -/
structure State (Sender α : Type) where
  messages : List α
  signalBytes : Nat
  /-- The sender has unlocked the queue, and is on the way to `SignalAux`. -/
  notifying : Sender → Bool
  receiver : Receiver
  accepted : List α
  received : List α

/-- The steps of the threads. -/
inductive Action (Sender α : Type) where
  /-- What `SendMessageAux` does under the lock of the queue. There may be no memory for `AddTail`. -/
  | addTail (i : Sender) (replyRef : α) (hasMemory : Bool)
  /-- `SignalAux` of a sender. If there is no room in the socket, `send` fails. -/
  | signal (i : Sender) (sent : Bool)
  /-- The signal that `StartInternalThread` or `InternalThreadEntryAux` sends. -/
  | startSignal
  /-- `WaitForNextMessageAux` is called. -/
  | wait
  /-- What it does under the lock of the queue. -/
  | removeHead
  /-- `select` finds the socket readable, and `recv` takes so many bytes. -/
  | recv (bytes : Nat)
  /-- It returns -1: the wakeup time is reached, or another socket is ready, or `select` fails. -/
  | giveUp

variable {Sender α : Type}

/-- The messages that are queued before the threads run. -/
def init (messages : List α) : State Sender α :=
  ⟨messages, 0, fun _ => false, .returned, messages, []⟩

variable [DecidableEq Sender]

/-- One step, with nothing where the thread is not at it. -/
def step (s : State Sender α) : Action Sender α → Option (State Sender α)
  | .addTail i replyRef hasMemory =>
    if s.notifying i then none
    else
      let messages := if hasMemory then s.messages ++ [replyRef] else s.messages
      let sendNotification := messages.length == 1
      some { s with
        messages := messages
        notifying := Function.update s.notifying i sendNotification
        accepted := if hasMemory then s.accepted ++ [replyRef] else s.accepted }
  | .signal i sent =>
    if s.notifying i ∧ (sent ∨ 0 < s.signalBytes) then
      some { s with
        signalBytes := if sent then s.signalBytes + 1 else s.signalBytes
        notifying := Function.update s.notifying i false }
    else none
  | .startSignal => some { s with signalBytes := s.signalBytes + 1 }
  | .wait => if s.receiver = .returned then some { s with receiver := .checking } else none
  | .removeHead =>
    if s.receiver = .checking then
      match s.messages with
      | ref :: messages => some { s with messages := messages, receiver := .returned, received := s.received ++ [ref] }
      | [] => some { s with receiver := .waiting }
    else none
  | .recv bytes =>
    if s.receiver = .waiting ∧ 0 < bytes ∧ bytes ≤ min 256 s.signalBytes then
      some { s with signalBytes := s.signalBytes - bytes, receiver := .checking }
    else none
  | .giveUp => if s.receiver = .waiting then some { s with receiver := .returned } else none

/-! ### No lost wake-up -/

/-- What is accepted is received or queued, in order, and a receiver that waits before a message has a signal or gets
one. -/
structure Inv (s : State Sender α) : Prop where
  accepted : s.received ++ s.messages = s.accepted
  wakeUp : s.receiver = .waiting → s.messages ≠ [] → 0 < s.signalBytes ∨ ∃ i, s.notifying i = true

variable {s s' : State Sender α} {a : Action Sender α}

omit [DecidableEq Sender] in
theorem inv_init (messages : List α) : Inv (init messages : State Sender α) :=
  ⟨rfl, fun hWaiting => nomatch hWaiting⟩

/-- A sender that has nothing to signal does not take a signal from another one. -/
theorem notifying_update {i j : Sender} (hi : s.notifying i = false) (hj : s.notifying j = true) (b : Bool) :
    Function.update s.notifying i b j = true := by
  rw [Function.update_of_ne, hj]
  rintro rfl
  rw [hi] at hj
  cases hj

theorem addTail_eq_some {i : Sender} {replyRef : α} {hasMemory : Bool}
    (h : step s (.addTail i replyRef hasMemory) = some s') :
    s.notifying i = false ∧
      s' = { s with
        messages := if hasMemory then s.messages ++ [replyRef] else s.messages
        notifying := Function.update s.notifying i
          ((if hasMemory then s.messages ++ [replyRef] else s.messages).length == 1)
        accepted := if hasMemory then s.accepted ++ [replyRef] else s.accepted } := by
  dsimp only [step] at h
  by_cases hBusy : s.notifying i = true
  · rw [if_pos hBusy] at h
    cases h
  · rw [if_neg hBusy] at h
    exact ⟨Bool.eq_false_iff.mpr hBusy, (Option.some.inj h).symm⟩

theorem inv_step (h : Inv s) (hStep : step s a = some s') : Inv s' := by
  cases a with
  | addTail i replyRef hasMemory =>
    obtain ⟨hIdle, rfl⟩ := addTail_eq_some hStep
    cases hasMemory with
    | false =>
      refine ⟨h.accepted, fun hWaiting hMessages => (h.wakeUp hWaiting hMessages).imp_right ?_⟩
      rintro ⟨j, hj⟩
      exact ⟨j, notifying_update hIdle hj _⟩
    | true =>
      refine ⟨?_, fun hWaiting _ => ?_⟩
      · change s.received ++ (s.messages ++ [replyRef]) = s.accepted ++ [replyRef]
        rw [← List.append_assoc, h.accepted]
      · by_cases hFirst : s.messages = []
        · -- the sender of the first message has seen that it is the only one
          refine .inr ⟨i, (Function.update_self ..).trans ?_⟩
          rw [hFirst]
          rfl
        · refine (h.wakeUp hWaiting hFirst).imp_right ?_
          rintro ⟨j, hj⟩
          exact ⟨j, notifying_update hIdle hj _⟩
  | signal i sent =>
    dsimp only [step] at hStep
    split at hStep
    · rename_i hSends
      cases hStep
      cases sent with
      | true => exact ⟨h.accepted, fun _ _ => .inl (Nat.succ_pos _)⟩
      | false => exact ⟨h.accepted, fun _ _ => .inl (hSends.2.resolve_left Bool.false_ne_true)⟩
    · cases hStep
  | startSignal =>
    cases hStep
    exact ⟨h.accepted, fun _ _ => .inl (Nat.succ_pos _)⟩
  | wait =>
    dsimp only [step] at hStep
    split_ifs at hStep
    cases hStep
    exact ⟨h.accepted, fun hWaiting => nomatch hWaiting⟩
  | removeHead =>
    dsimp only [step] at hStep
    split_ifs at hStep
    cases hMessages : s.messages with
    | nil =>
      rw [hMessages] at hStep
      cases hStep
      exact ⟨hMessages ▸ h.accepted, fun _ hSome => absurd rfl hSome⟩
    | cons ref messages =>
      rw [hMessages] at hStep
      cases hStep
      refine ⟨?_, fun hWaiting => nomatch hWaiting⟩
      rw [← h.accepted, hMessages, List.append_assoc]
      rfl
  | recv bytes =>
    dsimp only [step] at hStep
    split_ifs at hStep
    cases hStep
    exact ⟨h.accepted, fun hWaiting => nomatch hWaiting⟩
  | giveUp =>
    dsimp only [step] at hStep
    split_ifs at hStep
    cases hStep
    exact ⟨h.accepted, fun hWaiting => nomatch hWaiting⟩

theorem inv_run {messages : List α} {actions : List (Action Sender α)}
    (hRun : actions.foldlM step (init messages) = some s) : Inv s :=
  foldlM_keeps hRun (fun _ _ _ _ ht hStep => inv_step ht hStep) (inv_init messages)

/-! ### Every message is received -/

/-- The steps of the receiver. -/
def Action.ofReceiver : Action Sender α → Bool
  | .wait | .removeHead | .recv _ | .giveUp => true
  | .addTail _ _ _ | .signal _ _ | .startSignal => false

/-- The signal of a sender. -/
def Action.signals (i : Sender) : Action Sender α → Bool
  | .signal j _ => j = i
  | _ => false

/-- The receiver can go on: it is not in `select` without a signal. -/
def State.Ready (s : State Sender α) : Prop :=
  s.receiver = .waiting → 0 < s.signalBytes

/-- An infinite run of the threads. -/
abbrev Threads (Sender α : Type) [DecidableEq Sender] :=
  Run (step : State Sender α → Action Sender α → Option (State Sender α))

/-- A thread that can go on does so at some time, and the receiver asks for messages again and again. -/
structure FairRun (run : Threads Sender α) : Prop where
  sender : ∀ i, run.Fair (fun s => s.notifying i = true) fun a => a.signals i = true
  receiver : run.Fair State.Ready fun a => a.ofReceiver = true

/-- What the other threads do to the receiver. -/
structure Others (s s' : State Sender α) (a : Action Sender α) : Prop where
  receiver : s'.receiver = s.receiver
  received : s'.received = s.received
  accepted : s.accepted <+: s'.accepted
  signalBytes : s.signalBytes ≤ s'.signalBytes
  notifying : ∀ i, s.notifying i = true →
    (a.signals i = true ∧ 0 < s'.signalBytes) ∨ (a.signals i = false ∧ s'.notifying i = true)

theorem others_of_step (hStep : step s a = some s') (hOther : a.ofReceiver = false) : Others s s' a := by
  cases a with
  | addTail i replyRef hasMemory =>
    obtain ⟨hIdle, rfl⟩ := addTail_eq_some hStep
    refine ⟨rfl, rfl, ?_, Nat.le_refl _, fun j hj => .inr ⟨rfl, notifying_update hIdle hj _⟩⟩
    cases hasMemory
    · exact List.prefix_refl _
    · exact List.prefix_append _ _
  | signal i sent =>
    dsimp only [step] at hStep
    split at hStep
    · rename_i hSends
      cases hStep
      refine ⟨rfl, rfl, List.prefix_refl _, ?_, fun j hj => ?_⟩
      · dsimp only
        split <;> omega
      · by_cases hSame : i = j
        · refine .inl ⟨decide_eq_true hSame, ?_⟩
          cases sent with
          | true => exact Nat.succ_pos _
          | false => exact hSends.2.resolve_left Bool.false_ne_true
        · exact .inr ⟨decide_eq_false hSame, (Function.update_of_ne (Ne.symm hSame) _ _).trans hj⟩
    · cases hStep
  | startSignal =>
    cases hStep
    exact ⟨rfl, rfl, List.prefix_refl _, Nat.le_succ _, fun j hj => .inr ⟨rfl, hj⟩⟩
  | wait => cases hOther
  | removeHead => cases hOther
  | recv bytes => cases hOther
  | giveUp => cases hOther

/-- What the receiver does, one case for each place where it is. -/
theorem receiver_of_step (hStep : step s a = some s') (hReceiver : a.ofReceiver = true) :
    s'.accepted = s.accepted ∧ (s.receiver = .returned → s'.receiver = .checking ∧ s'.received = s.received) ∧
      (s.receiver = .checking → s.messages ≠ [] → s.received.length < s'.received.length) ∧
        (s.receiver = .waiting → s'.receiver ≠ .waiting ∧ s'.received = s.received) := by
  cases a with
  | addTail i replyRef hasMemory => cases hReceiver
  | signal i sent => cases hReceiver
  | startSignal => cases hReceiver
  | wait =>
    dsimp only [step] at hStep
    split at hStep
    · rename_i hAt
      cases hStep
      rw [hAt]
      exact ⟨rfl, fun _ => ⟨rfl, rfl⟩, fun h => (nomatch h), fun h => (nomatch h)⟩
    · cases hStep
  | removeHead =>
    dsimp only [step] at hStep
    split at hStep
    · rename_i hAt
      rw [hAt]
      cases hMessages : s.messages with
      | nil =>
        rw [hMessages] at hStep
        cases hStep
        exact ⟨rfl, fun h => (nomatch h), fun _ hSome => absurd rfl hSome, fun h => (nomatch h)⟩
      | cons ref messages =>
        rw [hMessages] at hStep
        cases hStep
        refine ⟨rfl, fun h => (nomatch h), fun _ _ => ?_, fun h => (nomatch h)⟩
        dsimp only
        rw [List.length_append]
        exact Nat.lt_succ_self _
    · cases hStep
  | recv bytes =>
    dsimp only [step] at hStep
    split at hStep
    · rename_i hAt
      cases hStep
      rw [hAt.1]
      exact ⟨rfl, fun h => (nomatch h), fun h => (nomatch h), fun _ => ⟨fun h => (nomatch h), rfl⟩⟩
    · cases hStep
  | giveUp =>
    dsimp only [step] at hStep
    split at hStep
    · rename_i hAt
      cases hStep
      rw [hAt]
      exact ⟨rfl, fun h => (nomatch h), fun h => (nomatch h), fun _ => ⟨fun h => (nomatch h), rfl⟩⟩
    · cases hStep

theorem accepted_of_step (hStep : step s a = some s') : s.accepted <+: s'.accepted := by
  cases hReceiver : a.ofReceiver with
  | true => exact (receiver_of_step hStep hReceiver).1 ▸ List.prefix_refl _
  | false => exact (others_of_step hStep hReceiver).accepted

/-- The message number `k` is accepted. -/
structure Accepted (k : Nat) (s : State Sender α) : Prop where
  inv : Inv s
  accepted : k < s.accepted.length

theorem accepted_step {k : Nat} (h : Accepted k s) (hStep : step s a = some s') : Accepted k s' :=
  ⟨inv_step h.inv hStep, Nat.lt_of_lt_of_le h.accepted (accepted_of_step hStep).length_le⟩

/-- It is accepted, and only `n` messages are received. -/
def Owes (k n : Nat) (s : State Sender α) : Prop :=
  Accepted k s ∧ s.received.length = n

/-- It is accepted, and more than `n` messages are received. -/
def Pays (k n : Nat) (s : State Sender α) : Prop :=
  Accepted k s ∧ n < s.received.length

section

variable {run : Threads Sender α} {k n : Nat}

omit [DecidableEq Sender] in
theorem Owes.messages_ne_nil (h : Owes k n s) (hn : n ≤ k) : s.messages ≠ [] := by
  intro hNone
  have hAll := h.1.inv.accepted
  rw [hNone, List.append_nil] at hAll
  have hLong := h.1.accepted
  rw [← hAll, h.2] at hLong
  omega

theorem Owes.others (h : Owes k n s) (hStep : step s a = some s') (hOther : a.ofReceiver = false) : Owes k n s' :=
  ⟨accepted_step h.1 hStep, (congrArg List.length (others_of_step hStep hOther).received).trans h.2⟩

/-- Behind the lock the receiver gets a message. -/
theorem checking_leadsTo (hFair : FairRun run) (hn : n ≤ k) :
    run.LeadsTo (fun s => Owes k n s ∧ s.receiver = .checking) (Pays k n) := by
  have hGets : ∀ s (a : Action Sender α) s', Owes k n s ∧ s.receiver = .checking → a.ofReceiver = true →
      step s a = some s' → Pays k n s' := fun s a s' h hReceiver hStep =>
    ⟨accepted_step h.1.1 hStep, h.1.2 ▸ (receiver_of_step hStep hReceiver).2.2.1 h.2 (h.1.messages_ne_nil hn)⟩
  refine Run.leadsTo_of_fair hFair.receiver (fun s h hWaiting => ?_) (fun s a s' h hStep => ?_) hGets
  · rw [h.2] at hWaiting
    cases hWaiting
  · cases hReceiver : a.ofReceiver with
    | true => exact .inr (hGets s a s' h hReceiver hStep)
    | false => exact .inl ⟨h.1.others hStep hReceiver, (others_of_step hStep hReceiver).receiver.trans h.2⟩

theorem returned_leadsTo (hFair : FairRun run) (hn : n ≤ k) :
    run.LeadsTo (fun s => Owes k n s ∧ s.receiver = .returned) (Pays k n) := by
  have hAsks : ∀ s (a : Action Sender α) s', Owes k n s ∧ s.receiver = .returned → a.ofReceiver = true →
      step s a = some s' → Owes k n s' ∧ s'.receiver = .checking := fun s a s' h hReceiver hStep =>
    have hStays := (receiver_of_step hStep hReceiver).2.1 h.2
    ⟨⟨accepted_step h.1.1 hStep, hStays.2 ▸ h.1.2⟩, hStays.1⟩
  refine Run.LeadsTo.trans
    (Run.leadsTo_of_fair hFair.receiver (fun s h hWaiting => ?_) (fun s a s' h hStep => ?_) hAsks)
    (checking_leadsTo hFair hn)
  · rw [h.2] at hWaiting
    cases hWaiting
  · cases hReceiver : a.ofReceiver with
    | true => exact .inr (hAsks s a s' h hReceiver hStep)
    | false => exact .inl ⟨h.1.others hStep hReceiver, (others_of_step hStep hReceiver).receiver.trans h.2⟩

/-- The receiver is not in `select`. -/
theorem awake_leadsTo (hFair : FairRun run) (hn : n ≤ k) :
    run.LeadsTo (fun s => Owes k n s ∧ s.receiver ≠ .waiting) (Pays k n) := by
  refine Run.LeadsTo.trans (Run.leadsTo_of_imp fun s h => ?_)
    ((checking_leadsTo hFair hn).or (returned_leadsTo hFair hn))
  obtain ⟨hOwes, hAwake⟩ := h
  cases hAt : s.receiver with
  | returned => exact .inr ⟨hOwes, rfl⟩
  | checking => exact .inl ⟨hOwes, rfl⟩
  | waiting => exact absurd hAt hAwake

theorem Owes.leaves (h : Owes k n s) (hAt : s.receiver = .waiting) (hStep : step s a = some s')
    (hReceiver : a.ofReceiver = true) : Owes k n s' ∧ s'.receiver ≠ .waiting :=
  have hStays := (receiver_of_step hStep hReceiver).2.2.2 hAt
  ⟨⟨accepted_step h.1 hStep, hStays.2 ▸ h.2⟩, hStays.1⟩

/-- A signal wakes the receiver up. -/
theorem signalled_leadsTo (hFair : FairRun run) (hn : n ≤ k) :
    run.LeadsTo (fun s => Owes k n s ∧ s.receiver = .waiting ∧ 0 < s.signalBytes) (Pays k n) := by
  refine Run.LeadsTo.trans (Run.leadsTo_of_fair hFair.receiver (fun s h _ => h.2.2) (fun s a s' h hStep => ?_)
    fun s a s' h hReceiver hStep => h.1.leaves h.2.1 hStep hReceiver) (awake_leadsTo hFair hn)
  cases hReceiver : a.ofReceiver with
  | true => exact .inr (h.1.leaves h.2.1 hStep hReceiver)
  | false =>
    have hOthers := others_of_step hStep hReceiver
    exact .inl ⟨h.1.others hStep hReceiver, hOthers.receiver.trans h.2.1, Nat.lt_of_lt_of_le h.2.2 hOthers.signalBytes⟩

/-- A sender that has seen the first message sends the signal. -/
theorem notifying_leadsTo (hFair : FairRun run) (hn : n ≤ k) (i : Sender) :
    run.LeadsTo (fun s => Owes k n s ∧ s.receiver = .waiting ∧ s.notifying i = true) (Pays k n) := by
  have hSends : ∀ s (a : Action Sender α) s', Owes k n s ∧ s.receiver = .waiting ∧ s.notifying i = true →
      step s a = some s' → (Owes k n s' ∧ s'.receiver = .waiting ∧ s'.notifying i = true ∧ a.signals i = false) ∨
        ((Owes k n s' ∧ s'.receiver = .waiting ∧ 0 < s'.signalBytes) ∨ (Owes k n s' ∧ s'.receiver ≠ .waiting)) := by
    intro s a s' h hStep
    cases hReceiver : a.ofReceiver with
    | true => exact .inr (.inr (h.1.leaves h.2.1 hStep hReceiver))
    | false =>
      have hOthers := others_of_step hStep hReceiver
      have hOwes := h.1.others hStep hReceiver
      have hAt := hOthers.receiver.trans h.2.1
      rcases hOthers.notifying i h.2.2 with ⟨-, hSignal⟩ | ⟨hNot, hStill⟩
      · exact .inr (.inl ⟨hOwes, hAt, hSignal⟩)
      · exact .inl ⟨hOwes, hAt, hStill, hNot⟩
  refine Run.LeadsTo.trans (Run.leadsTo_of_fair (hFair.sender i) (fun s h => h.2.2) (fun s a s' h hStep => ?_)
    fun s a s' h hSignals hStep => ?_) ((signalled_leadsTo hFair hn).or (awake_leadsTo hFair hn))
  · exact (hSends s a s' h hStep).imp_left fun hStill => ⟨hStill.1, hStill.2.1, hStill.2.2.1⟩
  · refine (hSends s a s' h hStep).resolve_left fun hStill => ?_
    rw [hStill.2.2.2] at hSignals
    cases hSignals

theorem owes_leadsTo (hFair : FairRun run) (hn : n ≤ k) : run.LeadsTo (Owes k n) (Pays k n) := by
  intro m hm
  by_cases hAt : (run.state m).receiver = .waiting
  · rcases hm.1.inv.wakeUp hAt (hm.messages_ne_nil hn) with hSignal | ⟨i, hi⟩
    · exact signalled_leadsTo hFair hn m ⟨hm, hAt, hSignal⟩
    · exact notifying_leadsTo hFair hn i m ⟨hm, hAt, hi⟩
  · exact awake_leadsTo hFair hn m ⟨hm, hAt⟩

omit [DecidableEq Sender] in
/-- The message number `k` is the message number `k` that the receiver gets. -/
theorem Pays.getElem? (h : Pays k k s) : s.received[k]? = s.accepted[k]? := by
  rw [← h.1.inv.accepted, List.getElem?_append_left h.2]

end

/-- In every interleaving, what is accepted is received or queued in the order of the queue, and no wake-up is lost. In
a fair run every message is received in its place. -/
theorem every_message_received (queued : List α) :
    (∀ (actions : List (Action Sender α)) (s : State Sender α), actions.foldlM step (init queued) = some s →
        s.received ++ s.messages = s.accepted ∧
          (s.receiver = .waiting → s.messages ≠ [] → 0 < s.signalBytes ∨ ∃ i, s.notifying i = true)) ∧
      ∀ run : Threads Sender α, run.state 0 = init queued → FairRun run →
        ∀ n k, k < (run.state n).accepted.length →
          ∃ m ≥ n, (run.state m).received[k]? = (run.state n).accepted[k]? := by
  refine ⟨fun actions s hRun => ?_, fun run hStart hFair n k hk => ?_⟩
  · have hInv := inv_run hRun
    exact ⟨hInv.accepted, hInv.wakeUp⟩
  · have hInv : Inv (run.state n) := by
      refine Run.keeps (P := Inv) (fun s a s' h hStep => inv_step h hStep) (n := 0) ?_ n (Nat.zero_le n)
      rw [hStart]
      exact inv_init queued
    have hLeads : run.LeadsTo (Accepted k) fun s => Accepted k s ∧ k + 1 ≤ s.received.length :=
      Run.leadsTo_of_rank fun j hj => owes_leadsTo hFair (Nat.le_of_lt_succ hj)
    obtain ⟨m, hm, hPays⟩ := hLeads n ⟨hInv, hk⟩
    have hGrown : (run.state n).accepted <+: (run.state m).accepted := by
      refine Run.keeps (P := fun s : State Sender α => (run.state n).accepted <+: s.accepted) (fun s a s' h hStep => ?_)
        (List.prefix_refl _) m hm
      exact h.trans (accepted_of_step hStep)
    refine ⟨m, hm, (Pays.getElem? hPays).trans ?_⟩
    exact (List.prefix_iff_getElem?.mp hGrown k hk).trans (List.getElem?_eq_getElem hk).symm

/-! ### The receiver on its own -/

/-- What the receiver does if there is no signal. -/
def Receiver.turn : Receiver → Action Sender α
  | .returned => .wait
  | .checking => .removeHead
  | .waiting => .giveUp

theorem exists_turn (s : State Sender α) : ∃ s', step s s.receiver.turn = some s' ∧ s'.notifying = s.notifying := by
  cases hAt : s.receiver with
  | returned => exact ⟨_, if_pos hAt, rfl⟩
  | checking =>
    dsimp only [Receiver.turn, step]
    rw [if_pos hAt]
    cases s.messages <;> exact ⟨_, rfl, rfl⟩
  | waiting => exact ⟨_, if_pos hAt, rfl⟩

def turns (s : State Sender α) : Nat → State Sender α
  | 0 => s
  | n + 1 => (step (turns s n) (turns s n).receiver.turn).getD (turns s n)

theorem step_turns (s : State Sender α) (n : Nat) :
    step (turns s n) (turns s n).receiver.turn = some (turns s (n + 1)) ∧
      (turns s (n + 1)).notifying = (turns s n).notifying := by
  obtain ⟨s', hStep, hNotifying⟩ := exists_turn (turns s n)
  have hNext : turns s (n + 1) = s' := by rw [turns, hStep, Option.getD_some]
  exact ⟨hNext ▸ hStep, hNext ▸ hNotifying⟩

def alone (messages : List α) : Threads Sender α where
  state := turns (init messages)
  action n := (turns (init messages) n).receiver.turn
  next n := (step_turns (init messages) n).1

theorem fairRun_alone (messages : List α) : FairRun (alone messages : Threads Sender α) where
  sender i n hNotifying := by
    have hNone : ∀ m, (turns (init messages : State Sender α) m).notifying i = false := by
      intro m
      induction m with
      | zero => rfl
      | succ m ih => rw [(step_turns (init messages) m).2, ih]
    exact absurd ((hNone n).symm.trans (hNotifying n (Nat.le_refl n))) Bool.false_ne_true
  receiver n _ := by
    refine ⟨n, Nat.le_refl n, ?_⟩
    change (turns (init messages : State Sender α) n).receiver.turn.ofReceiver = true
    cases (turns (init messages : State Sender α) n).receiver <;> rfl

/-- A message that is queued before the receiver runs, and a sender that sends nothing. -/
theorem every_message_received_alone :
    ∃ m ≥ 0, ((alone [7] : Threads Unit Nat).state m).received[0]? = some 7 :=
  (every_message_received [7]).2 (alone [7]) rfl (fairRun_alone [7]) 0 0 (by decide)

end BeShare.Muscle.Thread
