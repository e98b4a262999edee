import F4kvsLsm.Lib.Runs
import F4kvsLsm.Storage.Entry

/-!
# When a group commit is flushed

The loop of the background flusher, which the segment and the frame backend
share.  An enqueue pushes its entry under the lock of the queue and sends a
notification when it has given up the lock.  The flusher waits for a
notification alone while the queue is empty, and for a notification or a
deadline otherwise; only the second wait compares the length of the queue
with the batch size when a notification ends it.
-/

namespace F4kvsLsm

open Transitions

/-- What `WalConfig` says about the flusher; times are in nanoseconds. -/
structure CommitTriggerConfig where
  groupCommitMaxWait : Nat
  groupCommitMaxBatchSize : Nat
  groupCommitIdleFlush : Option Nat

/-- Timestamps used to schedule max-wait and idle flushes. -/
structure GroupCommitTiming where
  firstPendingAt : Option Nat
  lastEnqueueAt : Option Nat

namespace GroupCommitTiming

def recordEnqueue (timing : GroupCommitTiming) (now : Nat)
    (pendingWasEmpty : Bool) : GroupCommitTiming :=
  { firstPendingAt :=
      if pendingWasEmpty then some now else timing.firstPendingAt
    lastEnqueueAt := some now }

def clear : GroupCommitTiming := ⟨none, none⟩

end GroupCommitTiming

/-- Next flush instant for a non-empty queue, or `none` when idle. -/
def nextFlushDeadline (timing : GroupCommitTiming)
    (pendingCount maxWait : Nat) (idleFlush : Option Nat) (now : Nat) :
    Option Nat :=
  if pendingCount = 0 then none
  else
    timing.firstPendingAt.map fun first =>
      let deadline := first + maxWait
      let deadline :=
        match idleFlush, timing.lastEnqueueAt with
        | some idle, some last => min deadline (last + idle)
        | _, _ => deadline
      max deadline now

/-! ## The notification -/

/-- The flusher's own wait: it has not been polled, it is parked, or a
notification was handed to it. -/
inductive NotifyWaiter where
  | absent
  | parked
  | notified
  deriving DecidableEq

/-- `tokio::sync::Notify` with one task that waits. -/
structure Notify where
  permit : Bool
  waiter : NotifyWaiter

/-- A parked waiter takes the notification; otherwise at most one is
stored. -/
def Notify.notifyOne (notify : Notify) : Notify :=
  if notify.waiter = .parked then { notify with waiter := .notified }
  else { notify with permit := true }

/-- The wait ends with the notification that was handed to it, or at its
first poll with the one that is stored. -/
def Notify.consume (notify : Notify) : Option Notify :=
  match notify.waiter with
  | .notified => some { notify with waiter := .absent }
  | .absent =>
      if notify.permit then some { notify with permit := false } else none
  | .parked => none

/-- A wait that is given up passes on what was handed to it. -/
def Notify.cancel (notify : Notify) : Notify :=
  match notify.waiter with
  | .notified => ⟨true, .absent⟩
  | _ => { notify with waiter := .absent }

/-! ## The queue and its flusher -/

/-- Where the flusher is: before it computes the deadline, in the wait with
or without one, after the notification of a wait with a deadline, before it
takes the queue, and while it writes what it took. -/
inductive Flusher where
  | top
  | waiting (deadline : Option Nat)
  | checking
  | flushing
  | writing (batch : List WALEntry)

def Flusher.isIdle : Flusher → Bool
  | .waiting none => true
  | _ => false

/-- The flusher goes to a wait, or is in one, whose deadline was computed. -/
def Flusher.watches : Flusher → Bool
  | .top => true
  | .waiting (some _) => true
  | .writing _ => true
  | _ => false

/-- `sending` counts the enqueues that have pushed their entry and not yet
sent their notification. -/
structure CommitQueue where
  pending : List WALEntry
  timing : GroupCommitTiming
  notify : Notify
  sending : Nat
  flusher : Flusher
  now : Nat

inductive TriggerAction where
  | push (entry : WALEntry)
  | send
  | flushPending
  | tick
  | computeDeadline
  | park
  | notified
  | sleep
  | check
  | take
  | written

namespace CommitQueue

def start : CommitQueue := ⟨[], .clear, ⟨false, .absent⟩, 0, .top, 0⟩

/-- Take the queue; the timestamps are cleared when there was something in
it. -/
def takePending (queue : CommitQueue) : CommitQueue :=
  { queue with
    pending := []
    timing := if queue.pending.isEmpty then queue.timing else .clear }

/-- One step of an enqueue, of an explicit flush, of the clock or of the
flusher. -/
def step (config : CommitTriggerConfig) (queue : CommitQueue) :
    TriggerAction → Option CommitQueue
  | .push entry =>
      some { queue with
        pending := queue.pending ++ [entry]
        timing :=
          queue.timing.recordEnqueue queue.now queue.pending.isEmpty
        sending := queue.sending + 1 }
  | .send =>
      if queue.sending = 0 then none
      else
        some { queue with
          notify := queue.notify.notifyOne
          sending := queue.sending - 1 }
  | .flushPending => some queue.takePending
  | .tick => some { queue with now := queue.now + 1 }
  | .computeDeadline =>
      match queue.flusher with
      | .top =>
          some { queue with
            flusher := .waiting
              (nextFlushDeadline queue.timing queue.pending.length
                config.groupCommitMaxWait config.groupCommitIdleFlush
                queue.now) }
      | _ => none
  | .park =>
      match queue.flusher with
      | .waiting deadline =>
          if queue.notify.waiter = .absent ∧ queue.notify.permit = false ∧
              deadline.all (queue.now < ·) then
            some { queue with notify := ⟨false, .parked⟩ }
          else none
      | _ => none
  | .notified =>
      match queue.flusher with
      | .waiting deadline =>
          queue.notify.consume.map fun notify =>
            { queue with
              notify := notify
              flusher := if deadline.isSome then .checking else .top }
      | _ => none
  | .sleep =>
      match queue.flusher with
      | .waiting (some deadline) =>
          if deadline ≤ queue.now then
            some { queue with
              notify := queue.notify.cancel
              flusher := .flushing }
          else none
      | _ => none
  | .check =>
      match queue.flusher with
      | .checking =>
          some { queue with
            flusher :=
              if queue.pending.length ≥ config.groupCommitMaxBatchSize then
                .flushing
              else .top }
      | _ => none
  | .take =>
      match queue.flusher with
      | .flushing =>
          some { queue.takePending with
            flusher :=
              if queue.pending.isEmpty then .top else .writing queue.pending }
      | _ => none
  | .written =>
      match queue.flusher with
      | .writing _ => some { queue with flusher := .top }
      | _ => none

/-- The queue holds as many entries as a batch may. -/
def Full (config : CommitTriggerConfig) (queue : CommitQueue) : Prop :=
  config.groupCommitMaxBatchSize ≤ queue.pending.length

/-- A notification is stored, handed to the flusher or about to be sent. -/
def Outstanding (queue : CommitQueue) : Prop :=
  queue.notify.permit = true ∨ queue.notify.waiter = .notified ∨
    0 < queue.sending

/-- The flusher is parked on a deadline with no notification outstanding
while the queue is full. -/
def ParkedFull (config : CommitTriggerConfig) (queue : CommitQueue) : Prop :=
  (∃ deadline, queue.flusher = .waiting (some deadline)) ∧
    queue.notify.waiter = .parked ∧ ¬ queue.Outstanding ∧ queue.Full config

/-- A notification does not end the wait without a deadline while the queue
is full, unless another one is stored behind it or about to be sent. -/
def NotSpent (config : CommitTriggerConfig) (queue : CommitQueue) :
    TriggerAction → Prop
  | .notified =>
      queue.flusher.isIdle = true →
        queue.pending.length < config.groupCommitMaxBatchSize ∨
          queue.notify.waiter = .notified ∧ queue.notify.permit = true ∨
          0 < queue.sending
  | _ => True

instance (config : CommitTriggerConfig) (queue : CommitQueue)
    (action : TriggerAction) : Decidable (queue.NotSpent config action) := by
  cases action <;> unfold NotSpent <;> infer_instance

/-- Whoever fills the queue leaves a notification for the flusher, as long
as the flusher has not taken it to look at the queue. -/
def Watched (config : CommitTriggerConfig) (queue : CommitQueue) : Prop :=
  queue.flusher.watches = true → queue.Full config → queue.Outstanding

variable {config : CommitTriggerConfig} {queue queue' : CommitQueue}

theorem watched_of_short
    (short : queue.pending.length < config.groupCommitMaxBatchSize) :
    queue.Watched config :=
  fun _ full => absurd full (Nat.not_le_of_gt short)

theorem watched_of_outstanding (left : queue.Outstanding) :
    queue.Watched config :=
  fun _ _ => left

theorem Watched.of_not_watches (blind : queue.flusher.watches = false) :
    queue.Watched config := by
  intro watches
  rw [blind] at watches
  exact absurd watches Bool.false_ne_true

theorem outstanding_notifyOne (notify : Notify) :
    notify.notifyOne.permit = true ∨ notify.notifyOne.waiter = .notified := by
  rw [Notify.notifyOne]
  split
  · exact Or.inr rfl
  · exact Or.inl rfl

theorem consume_left
    {notify notify' : Notify} (taken : notify.consume = some notify')
    (two : notify.waiter = .notified ∧ notify.permit = true) :
    notify'.permit = true := by
  rw [Notify.consume, two.1] at taken
  cases taken
  exact two.2

/-- Every step that does not spend a notification leaves the queue
watched. -/
theorem Watched.step
    (positive : 1 ≤ config.groupCommitMaxBatchSize)
    (watched : queue.Watched config) {action : TriggerAction}
    (unspent : queue.NotSpent config action)
    (taken : queue.step config action = some queue') :
    queue'.Watched config := by
  have emptied : ∀ after : CommitQueue, after.pending = [] →
      after.Watched config := by
    intro after nothing
    apply watched_of_short
    rw [nothing]
    exact positive
  cases action with
  | push entry =>
      cases taken
      exact watched_of_outstanding
        (Or.inr (Or.inr (Nat.succ_pos queue.sending)))
  | send =>
      rw [CommitQueue.step] at taken
      split at taken
      · cases taken
      · cases taken
        apply watched_of_outstanding
        rcases outstanding_notifyOne queue.notify with permit | handed
        · exact Or.inl permit
        · exact Or.inr (Or.inl handed)
  | flushPending =>
      cases taken
      exact emptied _ rfl
  | tick =>
      cases taken
      exact watched
  | computeDeadline =>
      rw [CommitQueue.step] at taken
      split at taken
      · case h_1 here =>
          cases taken
          intro _ full
          exact watched (by rw [here]; rfl) full
      · cases taken
  | park =>
      rw [CommitQueue.step] at taken
      split at taken
      · split at taken
        · case isTrue alone =>
            cases taken
            intro watches full
            rcases watched watches full with permit | handed | sending
            · rw [alone.2.1] at permit
              exact absurd permit Bool.false_ne_true
            · rw [alone.1] at handed
              cases handed
            · exact Or.inr (Or.inr sending)
        · cases taken
      · cases taken
  | notified =>
      rw [CommitQueue.step] at taken
      split at taken
      · case h_1 deadline here =>
          rw [Option.map_eq_some_iff] at taken
          obtain ⟨notify, consumed, rfl⟩ := taken
          cases deadline with
          | some deadline => exact Watched.of_not_watches rfl
          | none =>
              rcases unspent (by rw [here]; rfl) with short | two | sending
              · exact watched_of_short short
              · exact watched_of_outstanding
                  (Or.inl (consume_left consumed two))
              · exact watched_of_outstanding (Or.inr (Or.inr sending))
      · cases taken
  | sleep =>
      rw [CommitQueue.step] at taken
      split at taken
      · split at taken
        · cases taken
          exact Watched.of_not_watches rfl
        · cases taken
      · cases taken
  | check =>
      rw [CommitQueue.step] at taken
      split at taken
      · cases taken
        by_cases full : queue.pending.length ≥ config.groupCommitMaxBatchSize
        · apply Watched.of_not_watches
          simp only [if_pos full, Flusher.watches]
        · exact watched_of_short (Nat.lt_of_not_ge full)
      · cases taken
  | take =>
      rw [CommitQueue.step] at taken
      split at taken
      · cases taken
        exact emptied _ rfl
      · cases taken
  | written =>
      rw [CommitQueue.step] at taken
      split at taken
      · case h_1 batch here =>
          cases taken
          intro _ full
          exact watched (by rw [here]; rfl) full
      · cases taken

/-- The steps as a relation. -/
def Moves (config : CommitTriggerConfig) (queue : CommitQueue)
    (action : TriggerAction) (queue' : CommitQueue) : Prop :=
  queue.step config action = some queue'

theorem Watched.reached
    (positive : 1 ≤ config.groupCommitMaxBatchSize)
    (run : Reaches (Moves config) (NotSpent config) start queue) :
    queue.Watched config := by
  apply run.invariant (Watched config)
  · exact watched_of_short positive
  · intro before action after watched unspent taken
    exact watched.step positive unspent taken

/-- In a run that spends no notification on a wait without a deadline while
the queue is full, the flusher is never parked on a deadline with a full
queue and no notification outstanding. -/
theorem not_parked_on_full_queue
    (config : CommitTriggerConfig)
    (positive : 1 ≤ config.groupCommitMaxBatchSize) (queue : CommitQueue)
    (run : Reaches (Moves config) (NotSpent config) start queue) :
    ¬ queue.ParkedFull config := by
  rintro ⟨⟨deadline, waits⟩, -, nothing, full⟩
  exact nothing (Watched.reached positive run (by rw [waits]; rfl) full)

/-- Two entries fill the queue while the flusher checks on a first
notification. -/
theorem second_entry_is_noticed :
    ¬ ParkedFull ⟨10, 2, none⟩
      ⟨[.checkpoint 1, .checkpoint 2], ⟨some 0, some 0⟩, ⟨true, .absent⟩, 0,
        .waiting (some 10), 0⟩ := by
  apply not_parked_on_full_queue ⟨10, 2, none⟩ (by decide)
  exact @Reaches.of_foldlM _ _ (step ⟨10, 2, none⟩) (NotSpent ⟨10, 2, none⟩) _
    [.computeDeadline, .park, .push (.checkpoint 1), .send, .notified,
      .push (.checkpoint 2), .send, .computeDeadline] start _ rfl

/-! ## What a spent notification leads to -/

/-- A queue with entries knows when the first of them came. -/
def Timed (queue : CommitQueue) : Prop :=
  queue.pending ≠ [] → queue.timing.firstPendingAt.isSome = true

theorem Timed.step
    (timed : queue.Timed) {action : TriggerAction}
    (taken : queue.step config action = some queue') : queue'.Timed := by
  cases action with
  | push entry =>
      cases taken
      intro _
      simp only [GroupCommitTiming.recordEnqueue]
      split
      · rfl
      · case isFalse before =>
          exact timed fun nothing => before (List.isEmpty_iff.mpr nothing)
  | flushPending =>
      cases taken
      exact fun some_entry => absurd rfl some_entry
  | tick =>
      cases taken
      exact timed
  | send =>
      rw [CommitQueue.step] at taken
      split at taken
      · cases taken
      · cases taken
        exact timed
  | computeDeadline =>
      rw [CommitQueue.step] at taken
      split at taken
      · cases taken
        exact timed
      · cases taken
  | park =>
      rw [CommitQueue.step] at taken
      split at taken
      · split at taken
        · cases taken
          exact timed
        · cases taken
      · cases taken
  | notified =>
      rw [CommitQueue.step] at taken
      split at taken
      · rw [Option.map_eq_some_iff] at taken
        obtain ⟨notify, -, rfl⟩ := taken
        exact timed
      · cases taken
  | sleep =>
      rw [CommitQueue.step] at taken
      split at taken
      · split at taken
        · cases taken
          exact timed
        · cases taken
      · cases taken
  | check =>
      rw [CommitQueue.step] at taken
      split at taken
      · cases taken
        exact timed
      · cases taken
  | take =>
      rw [CommitQueue.step] at taken
      split at taken
      · cases taken
        exact fun some_entry => absurd rfl some_entry
      · cases taken
  | written =>
      rw [CommitQueue.step] at taken
      split at taken
      · cases taken
        exact timed
      · cases taken

theorem Timed.reached
    (run : Reaches (Moves config) (fun _ _ => True) start queue) :
    queue.Timed :=
  run.invariant Timed (fun some_entry => absurd rfl some_entry)
    fun _ _ _ timed _ taken => timed.step taken

/-- The last notification is gone when the wait takes it. -/
theorem consume_last
    {notify notify' : Notify} (taken : notify.consume = some notify')
    (one : ¬ (notify.waiter = .notified ∧ notify.permit = true)) :
    notify' = ⟨false, .absent⟩ := by
  obtain ⟨permit, waiter⟩ := notify
  cases waiter with
  | parked => cases taken
  | notified =>
      cases permit with
      | true => exact absurd ⟨rfl, rfl⟩ one
      | false =>
          cases taken
          rfl
  | absent =>
      cases permit with
      | false => cases taken
      | true =>
          cases taken
          rfl

/-- In any run, a notification that is spent on a full queue leaves the
flusher to park on its deadline at once, unless that has come already. -/
theorem spent_notification_parks
    (positive : 1 ≤ config.groupCommitMaxBatchSize)
    (run : Reaches (Moves config) (fun _ _ => True) start queue)
    (taken : queue.step config .notified = some queue')
    (spent : ¬ queue.NotSpent config .notified) :
    ∃ deadline,
      nextFlushDeadline queue.timing queue.pending.length
          config.groupCommitMaxWait config.groupCommitIdleFlush queue.now =
        some deadline ∧
      (queue.now < deadline → ∃ parked,
        [.computeDeadline, .park].foldlM (step config) queue' =
            some parked ∧ parked.ParkedFull config) := by
  have timed := Timed.reached run
  simp only [NotSpent, Classical.not_imp, not_or, Nat.not_lt] at spent
  obtain ⟨idle, full, one, quiet⟩ := spent
  have here : queue.flusher = .waiting none := by
    cases flusher : queue.flusher with
    | waiting deadline =>
        cases deadline with
        | none => rfl
        | some deadline =>
            rw [flusher] at idle
            cases idle
    | _ =>
        rw [flusher] at idle
        cases idle
  have some_entry : queue.pending.length ≠ 0 := by omega
  obtain ⟨first, first_at⟩ := Option.isSome_iff_exists.mp
    (timed fun nothing => some_entry (by rw [nothing, List.length_nil]))
  simp only [step, here, Option.map_eq_some_iff] at taken
  obtain ⟨notify, consumed, rfl⟩ := taken
  have last := consume_last consumed one
  subst last
  cases computed : nextFlushDeadline queue.timing queue.pending.length
      config.groupCommitMaxWait config.groupCommitIdleFlush queue.now with
  | none =>
      rw [nextFlushDeadline, if_neg some_entry, first_at] at computed
      cases computed
  | some deadline =>
      let parked : CommitQueue := { queue with
        notify := ⟨false, .parked⟩
        flusher := .waiting (some deadline) }
      refine ⟨deadline, rfl, fun later => ⟨parked, ?_, ?_⟩⟩
      · simp [List.foldlM, step, computed, later, parked]
      · refine ⟨⟨deadline, rfl⟩, rfl, ?_, full⟩
        rintro (permit | handed | sending)
        · cases permit
        · cases handed
        · exact absurd sending (Nat.not_lt_of_ge quiet)

/-- One entry fills a batch of one.  Its notification ends the wait without
a deadline, and the flusher parks on the entry's deadline. -/
theorem single_entry_waits_for_deadline :
    ¬ ∀ (config : CommitTriggerConfig) (queue : CommitQueue),
      1 ≤ config.groupCommitMaxBatchSize →
        Reaches (Moves config) (fun _ _ => True) start queue →
          ¬ queue.ParkedFull config := by
  intro never
  refine never ⟨10, 1, none⟩
    ⟨[.checkpoint 1], ⟨some 0, some 0⟩, ⟨false, .parked⟩, 0,
      .waiting (some 10), 0⟩ (by decide) ?_ ?_
  · exact @Reaches.of_foldlM _ _ (step ⟨10, 1, none⟩) (fun _ _ => True) _
      [.computeDeadline, .park, .push (.checkpoint 1), .send, .notified,
        .computeDeadline, .park] start _ rfl
  · refine ⟨⟨10, rfl⟩, rfl, ?_, Nat.le_refl 1⟩
    rintro (permit | handed | sending)
    · cases permit
    · cases handed
    · exact absurd sending (Nat.lt_irrefl 0)

end CommitQueue

end F4kvsLsm
