import F4kvsLsm.Core.Recovery
import F4kvsLsm.Engine.FlushOrder
import F4kvsLsm.Wal.Handle

/-!
# Concurrent writers, flushes and the log

A write takes the shared side of the operation guard for two steps: its record
goes to the log under the lock of the log, and then, with that lock released,
to the active memtable.  `flush` takes the exclusive side for a flush of the
memtable and the truncation of the log; automatic and forced flushes take the
shared side.

The log is the list of records that a reader of the log directory gets; it
grows by the records of a write that the backend records.  The numbers of the
records, the list of all records ever logged, and the list of those that have
reached a memtable, with the ticket of the memtable, are there to state
properties and are read by no step.
-/

namespace F4kvsLsm

open KeyedLog Transitions

structure LogRecord where
  number : Nat
  entry : WALEntry

/-- Where a call of `put`, `delete` or `batch_put` stands: its records that
are in the log and not yet in a memtable, while it holds the guard. -/
inductive WriterCall where
  | idle
  | logged (rest : List LogRecord)
  | applied

/-- Where a call of `flush` stands. -/
inductive FlusherCall where
  | idle
  | flushing
  | truncating
  | returned
  deriving DecidableEq

structure EngineState where
  flushes : FlushState
  log : List LogRecord
  writers : Nat → WriterCall
  flushers : Nat → FlusherCall
  logged : List WALEntry
  applied : List (Nat × LogRecord)

inductive EngineAction where
  | log (call : Nat) (write : WalCall)
  | apply (call : Nat)
  | release (call : Nat)
  | flush (call : Nat) (action : FlushAction)
  | beginFlush (call : Nat)
  | beginTruncate (call : Nat)
  | removeFile (call : Nat) (inFile : LogRecord → Bool)
  | endFlush (call : Nat)

def FlushAction.call : FlushAction → Option Nat
  | .put _ _ => none
  | .delete _ => none
  | .swap call => some call
  | .readEntries call => some call
  | .drawName call _ => some call
  | .stampEntry call => some call
  | .publish call _ => some call
  | .remove call => some call

def FlushState.applyEntry (jsonLen : SerdeJsonValue → Nat) (s : FlushState) :
    WALEntry → FlushState
  | .put key value _ => s.put jsonLen key value
  | .delete key _ => s.delete jsonLen key
  | _ => s

/-- The write of a record to the active memtable. -/
def WALEntry.action? : WALEntry → Option FlushAction
  | .put key value _ => some (.put key value)
  | .delete key _ => some (.delete key)
  | _ => none

/-- A table reads the write of a record back. -/
def WALEntry.ReadsBack (entry : WALEntry) : Prop :=
  ∀ item ∈ entry.write?, F4kvsLsm.ReadsBack item.1 item.2

theorem WALEntry.ReadsBack.action
    {entry : WALEntry} (readsBack : entry.ReadsBack) {step : FlushAction}
    (writes : entry.action? = some step) : step.ReadsBack := by
  cases entry with
  | put key value timestamp =>
      cases writes
      exact readsBack _ rfl
  | delete key timestamp =>
      cases writes
      exact readsBack _ rfl
  | flush memtableId timestamp => cases writes
  | checkpoint timestamp => cases writes

/-- The records of a write are in the log when the call returns, and a table
reads them back. -/
structure WalCall.Recorded (config : WalConfig) (engine : WalEngine)
    (write : WalCall) : Prop where
  admissible : WalHandle.Admissible config engine write
  readsBack : ∀ entry ∈ write.entries, entry.ReadsBack

/-- A condition on the writes of a run. -/
def EngineAction.Recorded (config : WalConfig) (engine : WalEngine) :
    EngineAction → Prop
  | .log _ write => write.Recorded config engine
  | _ => True

namespace EngineState

/-- An engine that has been opened on some tables and an empty log. -/
def opened (levels : Nat → List SSTable) (sequence : Nat)
    (expected : String → Option Value) : EngineState :=
  { flushes := .quiet .new levels sequence expected
    log := []
    writers := fun _ => .idle
    flushers := fun _ => .idle
    logged := []
    applied := [] }

/-- Some call holds the shared side of the guard: a writer, or a flush of the
memtable that is not part of `flush`. -/
def SharedHeld (s : EngineState) : Prop :=
  ∃ call, (∃ rest, s.writers call = .logged rest) ∨
    s.flushers call = .idle ∧ (s.flushes.calls call).place ≠ none

/-- Some call of `flush` holds the exclusive side. -/
def ExclusiveHeld (s : EngineState) : Prop :=
  ∃ call, s.flushers call = .flushing ∨ s.flushers call = .truncating

/-! ## Steps -/

def newRecords (s : EngineState) (write : WalCall) : List LogRecord :=
  write.entries.mapIdx fun index entry => ⟨s.logged.length + index, entry⟩

def writeLog (s : EngineState) (call : Nat) (write : WalCall) : EngineState :=
  { s with
    log := s.log ++ s.newRecords write
    writers := Function.update s.writers call (.logged (s.newRecords write))
    logged := s.logged ++ write.entries }

def apply (jsonLen : SerdeJsonValue → Nat) (s : EngineState) (call : Nat)
    (record : LogRecord) (rest : List LogRecord) : EngineState :=
  { s with
    flushes := s.flushes.applyEntry jsonLen record.entry
    writers := Function.update s.writers call (.logged rest)
    applied := s.applied ++ [(s.flushes.swapped.length, record)] }

def release (s : EngineState) (call : Nat) : EngineState :=
  { s with writers := Function.update s.writers call .applied }

def setFlusher (s : EngineState) (call : Nat) (phase : FlusherCall) :
    EngineState :=
  { s with flushers := Function.update s.flushers call phase }

/-- Remove a file of the log; which records it holds is up to the backend. -/
def removeFile (s : EngineState) (inFile : LogRecord → Bool) : EngineState :=
  { s with log := s.log.filter fun record => !inFile record }

end EngineState

open EngineState

/-- Every backend appends the records of such a write to its log. -/
theorem WalCall.Recorded.grows
    {config : WalConfig} {handle : WalHandle} {write : WalCall}
    (recorded : write.Recorded config handle.disk.engine)
    (ready : handle.Ready config) (s : EngineState) :
    ∃ handle', handle.call config write = .ok handle' ∧
      handle.Grows config handle' ((s.newRecords write).map (·.entry)) := by
  have entries : (s.newRecords write).map (·.entry) = write.entries := by
    apply List.ext_getElem?
    intro index
    rw [newRecords, List.getElem?_map, List.getElem?_mapIdx, Option.map_map]
    exact congrFun Option.map_id _
  rw [entries]
  exact WalHandle.call_grows ready recorded.admissible

/-- The steps of any number of writers, flushes of the memtable, and calls of
`flush`. -/
inductive EngineStep (jsonLen : SerdeJsonValue → Nat) :
    EngineState → EngineAction → EngineState → Prop
  | log {s : EngineState} (call : Nat) (write : WalCall) :
      s.writers call = .idle → ¬ s.ExclusiveHeld →
      EngineStep jsonLen s (.log call write) (s.writeLog call write)
  | apply {s : EngineState} (call : Nat) {record : LogRecord}
      {rest : List LogRecord} :
      s.writers call = .logged (record :: rest) →
      EngineStep jsonLen s (.apply call) (s.apply jsonLen call record rest)
  | release {s : EngineState} (call : Nat) :
      s.writers call = .logged [] →
      EngineStep jsonLen s (.release call) (s.release call)
  | flush {s : EngineState} (call : Nat) {action : FlushAction}
      {flushes : FlushState} :
      action.call = some call →
      (s.flushers call = .idle → action = .swap call → ¬ s.ExclusiveHeld) →
      FlushStep jsonLen s.flushes action flushes →
      EngineStep jsonLen s (.flush call action) { s with flushes := flushes }
  | beginFlush {s : EngineState} (call : Nat) :
      s.flushers call = .idle → s.flushes.calls call = .idle →
      ¬ s.SharedHeld → ¬ s.ExclusiveHeld →
      EngineStep jsonLen s (.beginFlush call) (s.setFlusher call .flushing)
  | beginTruncate {s : EngineState} (call : Nat) :
      s.flushers call = .flushing → s.flushes.calls call = .returned →
      EngineStep jsonLen s (.beginTruncate call)
        (s.setFlusher call .truncating)
  | removeFile {s : EngineState} (call : Nat) (inFile : LogRecord → Bool) :
      s.flushers call = .truncating →
      EngineStep jsonLen s (.removeFile call inFile) (s.removeFile inFile)
  | endFlush {s : EngineState} (call : Nat) :
      s.flushers call = .truncating → s.log = [] →
      EngineStep jsonLen s (.endFlush call) (s.setFlusher call .returned)

/-- A condition on the steps of flushes as a condition on the engine. -/
def OnFlushes (allowed : FlushState → FlushAction → Prop) (s : EngineState) :
    EngineAction → Prop
  | .flush _ action => allowed s.flushes action
  | _ => True

/-- A step of the engine is a step of the writers and flushes of memtables, or
leaves them alone. -/
theorem EngineStep.flushes
    {jsonLen : SerdeJsonValue → Nat} {s s' : EngineState}
    {action : EngineAction} (taken : EngineStep jsonLen s action s') :
    s'.flushes = s.flushes ∨
      ∃ step, FlushStep jsonLen s.flushes step s'.flushes ∧
        ((∃ call record rest, s.writers call = .logged (record :: rest) ∧
          record.entry.action? = some step) ∨
            ∃ call, action = .flush call step) := by
  cases taken with
  | log call write idle free => exact Or.inl rfl
  | @apply call record rest pending =>
      cases entry : record.entry with
      | put key value timestamp =>
          right
          refine ⟨.put key value, ?_,
            Or.inl ⟨call, record, rest, pending, by rw [entry]; rfl⟩⟩
          simp only [EngineState.apply, entry, FlushState.applyEntry]
          exact .put key value
      | delete key timestamp =>
          right
          refine ⟨.delete key, ?_,
            Or.inl ⟨call, record, rest, pending, by rw [entry]; rfl⟩⟩
          simp only [EngineState.apply, entry, FlushState.applyEntry]
          exact .delete key
      | flush memtableId timestamp =>
          left
          simp only [EngineState.apply, entry, FlushState.applyEntry]
      | checkpoint timestamp =>
          left
          simp only [EngineState.apply, entry, FlushState.applyEntry]
  | release call pending => exact Or.inl rfl
  | flush call own guard taken => exact Or.inr ⟨_, taken, Or.inr ⟨call, rfl⟩⟩
  | beginFlush call idle unused noShared noExclusive => exact Or.inl rfl
  | beginTruncate call flushing returned => exact Or.inl rfl
  | removeFile call inFile truncating => exact Or.inl rfl
  | endFlush call truncating empty => exact Or.inl rfl

/-- A run of the engine is a run of the writers and flushes of memtables. -/
theorem flushes_reached
    {jsonLen : SerdeJsonValue → Nat}
    {allowed : FlushState → FlushAction → Prop}
    {condition : EngineState → EngineAction → Prop}
    (writes : ∀ s action, condition s action →
      ∀ call record rest, s.writers call = .logged (record :: rest) →
        ∀ step, record.entry.action? = some step → allowed s.flushes step)
    (weaker : ∀ s action, condition s action → OnFlushes allowed s action)
    {s s' : EngineState}
    (run : Reaches (EngineStep jsonLen) condition s s') :
    Reaches (FlushStep jsonLen) allowed s.flushes s'.flushes := by
  refine run.project EngineState.flushes ?_
  intro before action after meets taken
  rcases taken.flushes with same | ⟨step, moved, written | ⟨call, rfl⟩⟩
  · rw [same]
    exact Reaches.start _
  · obtain ⟨call, record, rest, pending, writesIt⟩ := written
    exact (Reaches.start _).next step
      (writes _ _ meets call record rest pending step writesIt) moved
  · exact (Reaches.start _).next step (weaker _ _ meets) moved

/-- What a step of a flush may change. -/
structure FlushFrame (call : Nat) (action : FlushAction)
    (s s' : FlushState) : Prop where
  expected : s'.expected = s.expected
  others : ∀ other ≠ call, s'.calls other = s.calls other
  begun : s'.calls call ≠ .idle
  written : ∀ entry ∈ s.written, entry ∈ s'.written
  memtables :
    s'.active = s.active ∧ s'.swapped = s.swapped ∧
        (s.calls call).place ≠ none ∨
      action = .swap call ∧ s.calls call = .idle ∧ s'.active = .new ∧
        (s'.swapped = s.swapped ++ [s.active] ∨
          ¬ s.active.entryCount > 0 ∧ s'.swapped = s.swapped)

theorem FlushState.move_frame
    {s : FlushState} {call : Nat} {action : FlushAction} {phase : FlushCall}
    (place : (s.calls call).place ≠ none) (begun : phase ≠ .idle) :
    FlushFrame call action s (s.move call phase) where
  expected := rfl
  others := fun _ different => Function.update_of_ne different ..
  begun := by rwa [FlushState.move_calls_self]
  written := fun _ member => member
  memtables := Or.inl ⟨rfl, rfl, place⟩

theorem FlushStep.frame
    {jsonLen : SerdeJsonValue → Nat} {s s' : FlushState}
    {action : FlushAction} {call : Nat} (own : action.call = some call)
    (taken : FlushStep jsonLen s action s') :
    FlushFrame call action s s' := by
  cases taken with
  | put key value => exact absurd own (by simp [FlushAction.call])
  | delete key => exact absurd own (by simp [FlushAction.call])
  | @swap other idle =>
      have same : other = call := Option.some.inj own
      subst same
      rw [FlushState.swap]
      split
      · exact ⟨rfl, fun _ different => Function.update_of_ne different ..,
          by simp, fun _ member => member,
          Or.inr ⟨rfl, idle, rfl, Or.inl rfl⟩⟩
      · case isFalse empty =>
          exact ⟨rfl, fun _ different => Function.update_of_ne different ..,
            by simp, fun _ member => member,
            Or.inr ⟨rfl, idle, rfl, Or.inr ⟨empty, rfl⟩⟩⟩
  | @readEntries other ticket index swapped =>
      have same : other = call := Option.some.inj own
      subst same
      have place : (s.calls other).place ≠ none := by
        simp [swapped, FlushCall.place]
      unfold FlushState.readEntries
      split
      · dsimp only
        split <;> exact FlushState.move_frame place (by simp)
      · exact FlushState.move_frame place (by simp)
  | @drawName other ticket index source entries existing naming =>
      have same : other = call := Option.some.inj own
      subst same
      have place : (s.calls other).place ≠ none := by
        simp [naming, FlushCall.place]
      simp only [FlushState.drawName]
      split
      · exact ⟨rfl, fun _ _ => rfl, by simp [naming], fun _ member => member,
          Or.inl ⟨rfl, rfl, place⟩⟩
      · exact ⟨rfl, fun _ different => Function.update_of_ne different ..,
          by simp, fun _ member => member, Or.inl ⟨rfl, rfl, place⟩⟩
  | @stampEntry other ticket index source sequence entry rest stamped
      stamping =>
      have same : other = call := Option.some.inj own
      subst same
      exact ⟨rfl, fun _ different => Function.update_of_ne different ..,
        by simp [FlushState.stampEntry], fun _ member => member,
        Or.inl ⟨rfl, rfl, by simp [stamping, FlushCall.place]⟩⟩
  | @publish other ticket index source sequence stamped info stamping =>
      have same : other = call := Option.some.inj own
      subst same
      exact ⟨rfl, fun _ different => Function.update_of_ne different ..,
        by simp [FlushState.publish],
        fun _ member => List.mem_append_left _ member,
        Or.inl ⟨rfl, rfl, by simp [stamping, FlushCall.place]⟩⟩
  | @remove other ticket index published =>
      have same : other = call := Option.some.inj own
      subst same
      exact ⟨rfl, fun _ different => Function.update_of_ne different ..,
        by simp [FlushState.remove], fun _ member => member,
        Or.inl ⟨rfl, rfl, by simp [published, FlushCall.place]⟩⟩

/-! ## What the memtables hold -/

/-- The writes that a memtable has received. -/
def EngineState.received (s : EngineState) (ticket : Nat) :
    List (String × Value) :=
  writesOf ((s.applied.filter fun reached => reached.1 = ticket).map
    fun reached => reached.2.entry)

/-- Every write that reached a memtable. -/
def EngineState.written (s : EngineState) : List (String × Value) :=
  writesOf (s.applied.map fun reached => reached.2.entry)

end F4kvsLsm
