import F4kvsLsm.Engine.ColumnFamilies
import F4kvsLsm.Engine.DurableRuns
import F4kvsLsm.Engine.KeyCount
import F4kvsLsm.Wal.FailedAppend

/-!
# Writes that return an error

A write goes through the log, the memtable, the counter and, when the memtable
is full, a flush.  An error may come from a check in front of all of these,
from the log, from the flush or, without the `ttl` feature, from behind the
counter.  What has been done before it is not taken back.

One caller writes at a time, and every table can be read; a table that cannot
is only logged, so no lookup fails.  The compaction behind a flush that
succeeds is left out, for its errors are only logged.
-/

namespace F4kvsLsm

open KeyedLog

def convertError : LsmError → F4KvsError
  | .io text => .io ("LSM I/O error: " ++ text)
  | .serialization text =>
      .serialization ("LSM serialization error: " ++ text)
  | .corruption text => .storage ("LSM corruption error: " ++ text)
  | .wal text => .storage ("LSM WAL error: " ++ text)
  | .internal text => .internal ("LSM internal error: " ++ text)

def batchSizeExceeded (size limit : Nat) : F4KvsError :=
  .storage ("Batch size " ++ toString size ++
    " exceeds maximum allowed size of " ++ toString limit ++
    " items. This limit prevents DoS attacks.")

def columnFamilyNotFound (columnFamily : String) : F4KvsError :=
  .storage ("Column family not found: " ++ columnFamily)

def ttlNotEnabled : F4KvsError := .storage "TTL feature is not enabled"

structure WriteConfig extends EngineConfig where
  walEnabled : Bool

/-- The engine with its counter, its column families and the switch of the
bulk import. -/
structure CountedEngine where
  engine : OpenEngine
  liveKeyCount : Int
  columnFamilies : List String
  bulkImport : Bool

/-- What the clock and the file system do during a write.  An append that
fails returns an I/O error with the text given. -/
structure WriteRun where
  now : UInt64
  logFault : Option (LogFault × String)
  flush : FlushRun
  flushError : LsmError

/-- A call without entries does not touch the files. -/
def WriteRun.faultOf (run : WriteRun) (call : WalCall) :
    Option (LogFault × String) :=
  if call.entries.isEmpty then none else run.logFault

/-- An error keeps the state that it was raised in. -/
abbrev EngineM := EStateM F4KvsError CountedEngine

namespace CountedEngine

def tree (e : CountedEngine) : LsmTree := e.engine.tree

def withTree (e : CountedEngine) (tree : LsmTree) : CountedEngine :=
  { e with engine := { e.engine with tree := tree } }

def withWal (e : CountedEngine) (wal : WalHandle) : CountedEngine :=
  { e with engine := { e.engine with wal := wal } }

variable (config : WriteConfig) (run : WriteRun)

/-! ## The operations -/

def writeLog (call : WalCall) : EngineM Unit := fun e =>
  if config.walEnabled then
    match run.faultOf call with
    | some (fault, text) =>
        .error (convertError (.io text)) (e.withWal
          (e.engine.wal.afterFault config.wal call.entries fault))
    | none =>
        match e.engine.wal.call config.wal call with
        | .ok wal => .ok () (e.withWal wal)
        | .error error => .error (convertError error) e
  else .ok () e

def memtablePut (key : String) (value : Value) : EngineM PutEffect := do
  let e ← get
  set (e.withTree (e.tree.put config.tree.jsonLen key value))
  return e.tree.active.putEffect key

def memtableDelete (key : String) : EngineM Unit :=
  modify fun e => e.withTree (e.tree.delete config.tree.jsonLen key)

/-- The loop of a batch over its items. -/
def memtableBatchPut (items : List (String × Value)) :
    EngineM (List (String × PutEffect)) := do
  let e ← get
  let written := e.tree.active.batchPut config.tree.jsonLen items
  set (e.withTree { e.tree with active := written.1 })
  return written.2

def adjustLiveKeyCount (delta : Int) : EngineM Unit :=
  modify fun e => { e with liveKeyCount := e.liveKeyCount + delta }

def applyPutKeyCount (key : String) (effect : PutEffect) : EngineM Unit := do
  let e ← get
  adjustLiveKeyCount (F4kvsLsm.applyPutKeyCount e.bulkImport
    config.tree.levelCount e.tree.levels key effect)

def batchApplyPutKeyCounts (effects : List (String × PutEffect)) :
    EngineM Unit := do
  let e ← get
  adjustLiveKeyCount (F4kvsLsm.batchApplyPutKeyCounts e.bulkImport
    config.tree.levelCount e.tree.levels effects)

def checkMemtableFlush : EngineM Unit := fun e =>
  match e.engine.checkMemtableFlush config.toEngineConfig run.flush with
  | (engine, true) => .ok () { e with engine := engine }
  | (engine, false) =>
      .error (convertError run.flushError) { e with engine := engine }

def existsKey (key : String) : EngineM Bool := do
  return (← get).tree.existsKey config.tree.levelCount key

def put (key : String) (value : Value) : EngineM Unit := do
  writeLog config run (.writeOperation key value run.now)
  let effect ← memtablePut config key value
  applyPutKeyCount config key effect
  checkMemtableFlush config run

def delete (key : String) : EngineM Unit := do
  let wasLive ← existsKey config key
  writeLog config run (.writeDelete key run.now)
  memtableDelete config key
  if wasLive then adjustLiveKeyCount (-1)
  checkMemtableFlush config run

def batchPut (items : List (String × Value)) : EngineM Unit := do
  if items.length > config.maxBatchSize then
    throw (batchSizeExceeded items.length config.maxBatchSize)
  writeLog config run (.batchWriteOperations items run.now)
  let effects ← memtableBatchPut config items
  batchApplyPutKeyCounts config effects
  checkMemtableFlush config run

/-- Without the `ttl` feature: the lifetime is not read. -/
def putWithTtl (key : String) (value : Value) : EngineM Unit := do
  writeLog config run (.writeOperation key value run.now)
  let effect ← memtablePut config key value
  applyPutKeyCount config key effect
  throw ttlNotEnabled

def putCfWithTtl (key : String) (value : Value) (columnFamily : String) :
    EngineM Unit := do
  if columnFamily ∉ (← get).columnFamilies then
    throw (columnFamilyNotFound columnFamily)
  putWithTtl config run (familyKey columnFamily key) value

end CountedEngine

inductive WriteOp where
  | put (key : String) (value : Value)
  | delete (key : String)
  | batchPut (items : List (String × Value))
  | putWithTtl (key : String) (value : Value)
  | putCfWithTtl (key : String) (value : Value) (columnFamily : String)

def WriteOp.run (config : WriteConfig) (run : WriteRun) :
    WriteOp → EngineM Unit
  | .put key value => CountedEngine.put config run key value
  | .delete key => CountedEngine.delete config run key
  | .batchPut items => CountedEngine.batchPut config run items
  | .putWithTtl key value => CountedEngine.putWithTtl config run key value
  | .putCfWithTtl key value columnFamily =>
      CountedEngine.putCfWithTtl config run key value columnFamily

/-! ## What a caller observes -/

namespace CountedEngine

variable (config : WriteConfig) (e : CountedEngine)

def get (key : String) : Option Value :=
  e.tree.get config.tree.levelCount key

def count : Int := e.liveKeyCount

/-- What a replay of the log reads. -/
def replayed : Except LsmError (List WALEntry) :=
  e.engine.wal.disk.readEntriesForRecovery config.wal

/-- The reads, the count and the replay are the same. -/
structure SameObserved (after : CountedEngine) : Prop where
  get : ∀ key, after.get config key = e.get config key
  count : after.count = e.count
  replayed : after.replayed config = e.replayed config

end CountedEngine

/-! ## Conditions on a call -/

namespace WriteOp

/-- The call of the log that an operation makes. -/
def call (now : UInt64) : WriteOp → WalCall
  | .put key value | .putWithTtl key value => .writeOperation key value now
  | .delete key => .writeDelete key now
  | .batchPut items => .batchWriteOperations items now
  | .putCfWithTtl key value columnFamily =>
      .writeOperation (familyKey columnFamily key) value now

/-- What an operation writes; `Null` marks a deletion. -/
def writes : WriteOp → List (String × Value)
  | .put key value | .putWithTtl key value => [(key, value)]
  | .delete key => [(key, .null)]
  | .batchPut items => items
  | .putCfWithTtl key value columnFamily =>
      [(familyKey columnFamily key, value)]

/-- The operations that flush a full memtable. -/
def flushes : WriteOp → Bool
  | .put _ _ | .delete _ | .batchPut _ => true
  | .putWithTtl _ _ | .putCfWithTtl _ _ _ => false

/-- The operations that are refused in front of the log. -/
def Refused (config : WriteConfig) (e : CountedEngine) : WriteOp → Prop
  | .batchPut items => items.length > config.maxBatchSize
  | .putCfWithTtl _ _ columnFamily => columnFamily ∉ e.columnFamilies
  | _ => False

/-- A put that does not move the counter: it replaces a live value, in the
memtable or in the tables. -/
def PutUncounted (config : WriteConfig) (e : CountedEngine)
    (effect : String × PutEffect) : Prop :=
  effect.2 = .updatedLive ∨
    effect.2 = .inserted ∧ e.bulkImport = false ∧
      (getFromSstables config.tree.levelCount e.tree.levels
        effect.1).isSome = true

/-- The operations that do not move the counter. -/
def Uncounted (config : WriteConfig) (e : CountedEngine) : WriteOp → Prop
  | .delete key => e.get config key = none
  | op => ∀ effect ∈
      (e.tree.active.batchPut config.tree.jsonLen op.writes).2,
        PutUncounted config e effect

/-- The writes change no read and no count, and neither does the parking of
the memtable in front of a flush: what a parked memtable holds is what is
read. -/
structure Invisible (config : WriteConfig) (e : CountedEngine)
    (op : WriteOp) : Prop where
  parked : op.flushes = true → ∀ key value,
    memtableValue e.tree.immutables key = some value →
      value.visible = e.get config key
  written : ∀ key value, lastWrite op.writes key = some value →
    (op.flushes = true → memtableValue e.tree.immutables key = none) →
      value.visible = e.get config key
  uncounted : op.Uncounted config e

/-- The log is open and can represent what the call writes. -/
structure Loggable (config : WriteConfig) (run : WriteRun)
    (e : CountedEngine) (op : WriteOp) : Prop where
  ready : e.engine.wal.Ready config.wal
  admissible : WalHandle.Admissible config.wal e.engine.wal.disk.engine
    (op.call run.now)

/-- Where an error comes from that leaves no trace: from a check, from the log
in front of the first record that is read, or from behind writes that do not
show, which a log shows as soon as there is one. -/
inductive Traceless (config : WriteConfig) (run : WriteRun)
    (e : CountedEngine) (op : WriteOp) : Prop
  | refused : op.Refused config e → Traceless config run e op
  | unlogged {error : LsmError} :
      config.walEnabled = true → run.faultOf (op.call run.now) = none →
      e.engine.wal.call config.wal (op.call run.now) = .error error →
      Traceless config run e op
  | unopened {text : String} :
      config.walEnabled = true →
      run.faultOf (op.call run.now) = some (.file .opening, text) →
      Traceless config run e op
  | unread {fault : LogFault} {text : String} :
      config.walEnabled = true →
      run.faultOf (op.call run.now) = some (fault, text) →
      op.Loggable config run e →
      e.engine.wal.Unread config.wal (op.call run.now).entries fault →
      Traceless config run e op
  | invisible :
      (config.walEnabled = true → op.writes = []) →
      op.Invisible config e → Traceless config run e op

end WriteOp

/-! ## The course of an operation -/

section

variable {config : WriteConfig} {run : WriteRun} {e : CountedEngine}
variable {op : WriteOp}

namespace WriteOp

/-- By how much the counter moves. -/
def countDelta (config : WriteConfig) (e : CountedEngine) : WriteOp → Int
  | .put key _ | .putWithTtl key _ =>
      applyPutKeyCount e.bulkImport config.tree.levelCount e.tree.levels key
        (e.tree.active.putEffect key)
  | .putCfWithTtl key _ columnFamily =>
      applyPutKeyCount e.bulkImport config.tree.levelCount e.tree.levels
        (familyKey columnFamily key)
        (e.tree.active.putEffect (familyKey columnFamily key))
  | .delete key =>
      if e.tree.existsKey config.tree.levelCount key then -1 else 0
  | .batchPut items =>
      batchApplyPutKeyCounts e.bulkImport config.tree.levelCount
        e.tree.levels
        (e.tree.active.batchPut config.tree.jsonLen items).2

/-- The memtable and the counter after the writes. -/
def applied (config : WriteConfig) (now : UInt64) (op : WriteOp)
    (e : CountedEngine) : CountedEngine :=
  { e.withTree (OpenEngine.applyCall config.toEngineConfig e.tree
      (op.call now)) with
    liveKeyCount := e.liveKeyCount + op.countDelta config e }

/-- The end of an operation. -/
def finish (config : WriteConfig) (run : WriteRun) (op : WriteOp) :
    EngineM Unit :=
  if op.flushes then CountedEngine.checkMemtableFlush config run
  else throw ttlNotEnabled

end WriteOp

theorem Memtable.batchPut_fst (jsonLen : SerdeJsonValue → Nat)
    (m : Memtable) (items : List (String × Value)) (tree : LsmTree) :
    { tree with active := (m.batchPut jsonLen items).1 } =
      items.foldl (fun tree item => tree.put jsonLen item.1 item.2)
        { tree with active := m } := by
  induction items generalizing m with
  | nil => rfl
  | cons item items inductionHypothesis =>
      exact inductionHypothesis (m.put jsonLen item.1 item.2)

theorem WriteOp.run_of_refused (refused : op.Refused config e) :
    ∃ error, op.run config run e = .error error e := by
  cases op with
  | batchPut items =>
      have tooLong : items.length > config.maxBatchSize := refused
      exists batchSizeExceeded items.length config.maxBatchSize
      simp only [WriteOp.run, CountedEngine.batchPut, if_pos tooLong]
      rfl
  | putCfWithTtl key value columnFamily =>
      have missing : columnFamily ∉ e.columnFamilies := refused
      exists columnFamilyNotFound columnFamily
      change (if columnFamily ∉ e.columnFamilies then _ else _ : EngineM Unit) e = _
      rw [if_pos missing]
      rfl
  | put _ _ | delete _ | putWithTtl _ _ => exact refused.elim

namespace CountedEngine

/-- What the append to the log does: a log that is off is left alone. -/
inductive Logging (config : WriteConfig) (run : WriteRun)
    (e : CountedEngine) (call : WalCall) :
    EStateM.Result F4KvsError CountedEngine Unit → Prop
  | off :
      config.walEnabled = false → Logging config run e call (.ok () e)
  | failed {fault : LogFault} {text : String} :
      config.walEnabled = true → run.faultOf call = some (fault, text) →
      Logging config run e call (.error (convertError (.io text))
        (e.withWal
          (e.engine.wal.afterFault config.wal call.entries fault)))
  | refused {error : LsmError} :
      config.walEnabled = true → run.faultOf call = none →
      e.engine.wal.call config.wal call = .error error →
      Logging config run e call (.error (convertError error) e)
  | written {wal : WalHandle} :
      config.walEnabled = true → run.faultOf call = none →
      e.engine.wal.call config.wal call = .ok wal →
      Logging config run e call (.ok () (e.withWal wal))

theorem writeLog_logging
    (config : WriteConfig) (run : WriteRun) (e : CountedEngine)
    (call : WalCall) :
    Logging config run e call (writeLog config run call e) := by
  unfold writeLog
  split
  · case isTrue enabled =>
      split
      · case h_1 fault text failed => exact .failed enabled failed
      · case h_2 sound =>
          split
          · case h_1 wal called => exact .written enabled sound called
          · case h_2 error called => exact .refused enabled sound called
  · case isFalse disabled => exact .off (Bool.eq_false_iff.mpr disabled)

theorem existsKey_eq (key : String) :
    existsKey config key e =
      .ok (e.tree.existsKey config.tree.levelCount key) e := rfl

end CountedEngine

theorem WriteOp.run_eq (accepted : ¬ op.Refused config e) :
    op.run config run e =
      match CountedEngine.writeLog config run (op.call run.now) e with
      | .error error left => .error error left
      | .ok () logged =>
          op.finish config run (op.applied config run.now logged) := by
  cases op with
  | put key value =>
      simp only [WriteOp.run, CountedEngine.put, WriteOp.call, bind,
        EStateM.bind]
      cases CountedEngine.writeLog config run
        (.writeOperation key value run.now) e <;> rfl
  | putWithTtl key value =>
      simp only [WriteOp.run, CountedEngine.putWithTtl, WriteOp.call, bind,
        EStateM.bind]
      cases CountedEngine.writeLog config run
        (.writeOperation key value run.now) e <;> rfl
  | putCfWithTtl key value columnFamily =>
      have present : ¬ columnFamily ∉ e.columnFamilies := accepted
      have passed :
          CountedEngine.putCfWithTtl config run key value columnFamily e =
            CountedEngine.putWithTtl config run (familyKey columnFamily key)
              value e := by
        change (if columnFamily ∉ e.columnFamilies then _ else _ :
          EngineM Unit) e = _
        rw [if_neg present]
      simp only [WriteOp.run, passed, CountedEngine.putWithTtl,
        WriteOp.call, bind, EStateM.bind]
      cases CountedEngine.writeLog config run
        (.writeOperation (familyKey columnFamily key) value run.now) e <;> rfl
  | delete key =>
      have logging := CountedEngine.writeLog_logging config run e
        (.writeDelete key run.now)
      simp only [WriteOp.run, CountedEngine.delete, WriteOp.call, bind,
        EStateM.bind, CountedEngine.existsKey_eq]
      cases logged? : CountedEngine.writeLog config run
        (.writeDelete key run.now) e with
      | error error left => rfl
      | ok _ logged =>
          rw [logged?] at logging
          have sameTree : logged.tree = e.tree := by
            cases logging <;> rfl
          simp only [WriteOp.applied, WriteOp.countDelta, sameTree]
          cases e.tree.existsKey config.tree.levelCount key with
          | true =>
              rw [← sameTree]
              rfl
          | false =>
              simp only [Bool.false_eq_true, if_false, add_zero]
              rw [← sameTree]
              rfl
  | batchPut items =>
      have short : ¬ items.length > config.maxBatchSize := accepted
      simp only [WriteOp.run, CountedEngine.batchPut, if_neg short,
        WriteOp.call, bind, EStateM.bind]
      cases CountedEngine.writeLog config run
        (.batchWriteOperations items run.now) e with
      | error error left => rfl
      | ok _ logged =>
          have tree := Memtable.batchPut_fst config.tree.jsonLen
            logged.tree.active items logged.tree
          exact congrArg (fun tree =>
            CountedEngine.checkMemtableFlush config run
              { logged.withTree tree with
                liveKeyCount := logged.liveKeyCount +
                  (WriteOp.batchPut items).countDelta config logged }) tree

end

end F4kvsLsm
