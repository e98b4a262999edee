import F4kvsLsm.Engine.CrashDurable
import F4kvsLsm.Engine.WriteTraces

/-!
# Batches and single puts

A batch goes through the log, the memtable and the counter as a whole, and
looks at the size of the memtable once, at its end.  The same puts one by one
may flush the memtable in between.  Neither the reads nor what a start
recovers tell the difference.  The counter does in a bulk load alone, where a
put does not look into the tables for a value that has been flushed.
-/

namespace F4kvsLsm

open Transitions

/-! ## The puts one by one -/

/-- No error of the file system. -/
structure WriteRun.NoFault (run : WriteRun) : Prop where
  log : run.logFault = none
  flush : run.flush.outcome = .done

namespace CountedEngine

/-- Every put with what the clock and the file system do during it. -/
def puts (config : WriteConfig) :
    List (WriteRun × String × Value) → EngineM Unit
  | [] => pure ()
  | (run, key, value) :: rest => do
      put config run key value
      puts config rest

def counted (e : CountedEngine) : CountedTree :=
  ⟨e.tree, e.liveKeyCount⟩

/-- `get` -/
def getChecked (config : WriteConfig) (e : CountedEngine) (key : String) :
    Option Value :=
  e.tree.getChecked config.tree.levelCount key

/-- The engine after a look at the size of the memtable. -/
def settled (config : WriteConfig) (run : WriteRun) (e : CountedEngine) :
    CountedEngine :=
  { e with engine :=
      (e.engine.checkMemtableFlush config.toEngineConfig run.flush).1 }

end CountedEngine

/-- A put that finds a live value in the memtable of the batch, but not in the
memtable behind the flushes. -/
def crossing (split whole : Memtable) (key : String) : Nat :=
  if split.putEffect key ≠ .updatedLive ∧
      whole.putEffect key = .updatedLive then 1 else 0

/-- The puts that overwrite a live value behind a flush that one of them
causes.  The first memtable is flushed when it is full, the second is not. -/
def crossings (jsonLen : SerdeJsonValue → Nat) (maxSize : Nat) :
    Memtable → Memtable → List (String × Value) → Nat
  | _, _, [] => 0
  | split, whole, (key, value) :: rest =>
      let written := split.put jsonLen key value
      crossing split whole key +
        crossings jsonLen maxSize
          (if written.size ≥ maxSize then .new else written)
          (whole.put jsonLen key value) rest

/-- The log can record the puts, and the clock does not go back. -/
def LogAdmits (config : WalConfig) (engine : WalEngine) :
    UInt64 → List (WriteRun × String × Value) → Prop
  | _, [] => True
  | clock, (run, key, value) :: rest =>
      clock ≤ run.now ∧
        WalHandle.Admissible config engine
          (.writeOperation key value run.now) ∧
        LogAdmits config engine run.now rest

/-- The tables that the flushes between the puts write come back. -/
def PutsReload (jsonLen : SerdeJsonValue → Nat) (maxSize : Nat) :
    Memtable → List (String × Value) → Prop
  | _, [] => True
  | m, (key, value) :: rest =>
      let written := m.put jsonLen key value
      (written.size ≥ maxSize → written.Reloads) ∧
        PutsReload jsonLen maxSize
          (if written.size ≥ maxSize then .new else written) rest

/-! ## A write without an error -/

section

variable {config : WriteConfig} {run : WriteRun} {e after : CountedEngine}
variable {op : WriteOp}

theorem LsmTree.flushMemtableInternal_succeeds
    (existing : List SstableName) (info : TableInfo) (tree : LsmTree) :
    (tree.flushMemtableInternal existing info .done).2 = true := by
  rw [flushMemtableInternal]
  split <;> rfl

theorem CountedEngine.checkMemtableFlush_ok
    (noFault : run.NoFault) (e : CountedEngine) :
    checkMemtableFlush config run e = .ok () (e.settled config run) := by
  have succeeds : (e.engine.checkMemtableFlush config.toEngineConfig
      run.flush).2 = true := by
    rw [OpenEngine.checkMemtableFlush]
    split
    · rw [OpenEngine.flushMemtable, noFault.flush]
      exact LsmTree.flushMemtableInternal_succeeds _ _ _
    · rfl
  rw [checkMemtableFlush, settled]
  generalize e.engine.checkMemtableFlush config.toEngineConfig run.flush =
    result at succeeds
  rcases result with ⟨engine, success⟩
  cases success with
  | true => rfl
  | false => exact absurd succeeds (by simp)

theorem OpenEngine.checkMemtableFlush_wal
    (config : EngineConfig) (run : FlushRun) (e : OpenEngine) :
    (e.checkMemtableFlush config run).1.wal = e.wal := by
  rw [checkMemtableFlush]
  split <;> rfl

theorem CountedEngine.writeLog_ok
    {call : WalCall} {logged : CountedEngine}
    (ok : writeLog config run call e = .ok () logged) :
    ∃ wal, logged = e.withWal wal := by
  have logging := writeLog_logging config run e call
  rw [ok] at logging
  cases logging with
  | off => exact ⟨e.engine.wal, rfl⟩
  | written => exact ⟨_, rfl⟩

/-- What a write does that returns `Ok`. -/
theorem WriteOp.of_run_ok
    (accepted : ¬ op.Refused config e) (flushes : op.flushes = true)
    (noFault : run.NoFault) (ok : op.run config run e = .ok () after) :
    ∃ wal, after = CountedEngine.settled config run
      (op.applied config run.now (e.withWal wal)) := by
  rw [WriteOp.run_eq accepted] at ok
  cases logged? : CountedEngine.writeLog config run (op.call run.now) e with
  | error error left =>
      rw [logged?] at ok
      exact absurd ok (by simp)
  | ok _ logged =>
      rcases CountedEngine.writeLog_ok logged? with ⟨wal, rfl⟩
      rw [logged?] at ok
      simp only [WriteOp.finish, flushes, if_true] at ok
      rw [CountedEngine.checkMemtableFlush_ok noFault] at ok
      exact ⟨wal, (EStateM.Result.ok.inj ok).2.symm⟩

end

/-! ## With and without the flushes -/

/-- The trees read alike, the memtable behind the flushes is a part of the one
without them, and in a bulk import the counter is ahead. -/
structure InStep (config : CompactionConfig) (bulkImport : Bool)
    (split whole : CountedTree) (ahead : Nat) : Prop where
  invariant : split.tree.Invariant config
  splitUnparked : split.tree.immutables = []
  wholeUnparked : whole.tree.immutables = []
  reads : ∀ key, split.tree.get config.levelCount key =
    whole.tree.get config.levelCount key
  holds : ∀ (key : String) (value : Value), split.tree.active.data[key]? = some value →
    whole.tree.active.data[key]? = some value
  count : split.liveKeyCount =
    whole.liveKeyCount + if bulkImport then (ahead : Int) else 0

section

variable {config : CompactionConfig} {bulkImport : Bool}
variable {split whole : CountedTree} {ahead : Nat}

theorem Memtable.putEffect_updatedLive_iff {m : Memtable} {key : String} :
    m.putEffect key = .updatedLive ↔
      ∃ value, m.data[key]? = some value ∧ value ≠ .null := by
  rw [Memtable.putEffect]
  cases m.data[key]? with
  | none => simp
  | some value => cases value <;> simp

theorem applyPutKeyCount_bulk (levelCount : Nat)
    (levels : Nat → List SSTable) (key : String) (effect : PutEffect) :
    applyPutKeyCount true levelCount levels key effect =
      if effect = .updatedLive then 0 else 1 := by
  cases effect <;> rfl

theorem InStep.crossing_eq
    (inStep : InStep config true split whole ahead) (key : String) :
    applyPutKeyCount true config.levelCount split.tree.levels key
        (split.tree.active.putEffect key) =
      applyPutKeyCount true config.levelCount whole.tree.levels key
        (whole.tree.active.putEffect key) +
          crossing split.tree.active whole.tree.active key := by
  rw [applyPutKeyCount_bulk, applyPutKeyCount_bulk, crossing]
  by_cases here : split.tree.active.putEffect key = .updatedLive
  · rcases Memtable.putEffect_updatedLive_iff.mp here with
      ⟨value, held, live⟩
    have there := Memtable.putEffect_updatedLive_iff.mpr
      ⟨value, inStep.holds key value held, live⟩
    rw [if_pos here, if_pos there, if_neg fun both => both.1 here]
    rfl
  · rw [if_neg here]
    by_cases there : whole.tree.active.putEffect key = .updatedLive
    · rw [if_pos there, if_pos ⟨here, there⟩]
      rfl
    · rw [if_neg there, if_neg fun both => there both.2]
      rfl

theorem InStep.put
    (inStep : InStep config bulkImport split whole ahead) (key : String)
    (value : Value) :
    InStep config bulkImport (split.put config bulkImport key value)
      (whole.put config bulkImport key value)
      (ahead + crossing split.tree.active whole.tree.active key) := by
  constructor
  case invariant => exact inStep.invariant.advance _ _ le_rfl
  case splitUnparked => exact inStep.splitUnparked
  case wholeUnparked => exact inStep.wholeUnparked
  case reads =>
    intro other
    have same : split.tree.get config.levelCount =
        whole.tree.get config.levelCount := funext inStep.reads
    simp only [CountedTree.put]
    rw [LsmTree.get_put, LsmTree.get_put, same]
  case holds =>
    intro other found
    simp only [CountedTree.put, LsmTree.put, Memtable.put_get]
    split
    · exact id
    · exact inStep.holds other found
  case count =>
    simp only [CountedTree.put]
    rw [inStep.count]
    cases bulkImport with
    | true =>
        rw [inStep.crossing_eq key, if_pos rfl, if_pos rfl, Nat.cast_add]
        omega
    | false =>
        rw [applyPutKeyCount_eq _ _ inStep.splitUnparked,
          applyPutKeyCount_eq _ _ inStep.wholeUnparked, inStep.reads key]
        simp

theorem InStep.flush
    (inStep : InStep config bulkImport split whole ahead)
    (levels : 0 < config.levelCount) (existing : List SstableName)
    (info : TableInfo) :
    InStep config bulkImport
      { split with tree :=
          (split.tree.flushMemtableInternal existing info .done).1 }
      whole ahead := by
  constructor
  case invariant => exact inStep.invariant.flush existing info .done
  case splitUnparked =>
    exact (LsmTree.flushMemtableInternal_immutables rfl existing info _).trans
      inStep.splitUnparked
  case wholeUnparked => exact inStep.wholeUnparked
  case reads =>
    intro key
    exact (inStep.invariant.get_flush levels inStep.splitUnparked existing
      info key).trans (inStep.reads key)
  case holds =>
    intro key value found
    simp only [LsmTree.flushMemtableInternal_active] at found
    rw [Memtable.new_get] at found
    exact absurd found (by simp)
  case count => exact inStep.count

end

section

variable {config : WriteConfig} {run : WriteRun}
variable {e after : CountedEngine} {whole : CountedTree} {ahead : Nat}

theorem InStep.settled
    (inStep : InStep config.tree e.bulkImport e.counted whole ahead)
    (levels : 0 < config.tree.levelCount) (noFault : run.NoFault) :
    InStep config.tree e.bulkImport (e.settled config run).counted whole
      ahead := by
  simp only [CountedEngine.settled, CountedEngine.counted,
    CountedEngine.tree, OpenEngine.checkMemtableFlush]
  split
  · rw [OpenEngine.flushMemtable, noFault.flush]
    exact inStep.flush levels e.engine.data.names run.flush.info
  · exact inStep

theorem settled_active (e : CountedEngine) :
    (e.settled config run).tree.active =
      if e.tree.active.size ≥ config.maxSize then .new
      else e.tree.active := by
  have flushed : (e.settled config run).tree = (e.engine.checkMemtableFlush
    config.toEngineConfig run.flush).1.tree := rfl
  rw [flushed, OpenEngine.checkMemtableFlush]
  by_cases full : e.engine.tree.active.size ≥ config.maxSize
  · have full' : e.tree.active.size ≥ config.maxSize := full
    rw [if_pos full, if_pos full']
    exact OpenEngine.flushMemtable_active run.flush
  · have room : ¬ e.tree.active.size ≥ config.maxSize := full
    rw [if_neg full, if_neg room]
    rfl

theorem InStep.puts
    (levels : 0 < config.tree.levelCount)
    {list : List (WriteRun × String × Value)}
    (noFaults : ∀ put ∈ list, put.1.NoFault)
    (inStep : InStep config.tree e.bulkImport e.counted whole ahead)
    (ok : CountedEngine.puts config list e = .ok () after) :
    InStep config.tree e.bulkImport after.counted
      ((list.map Prod.snd).foldl
        (fun state item =>
          state.put config.tree e.bulkImport item.1 item.2) whole)
      (ahead + crossings config.tree.jsonLen config.maxSize
        e.tree.active whole.tree.active (list.map Prod.snd)) := by
  induction list generalizing e whole ahead with
  | nil =>
      rw [← (EStateM.Result.ok.inj ok).2]
      exact inStep
  | cons put rest inductionHypothesis =>
      rcases put with ⟨run, key, value⟩
      have noFault : run.NoFault := noFaults _ List.mem_cons_self
      cases first : CountedEngine.put config run key value e with
      | error error left =>
          simp only [CountedEngine.puts, bind, EStateM.bind, first] at ok
          exact absurd ok (by simp)
      | ok _ middle =>
          simp only [CountedEngine.puts, bind, EStateM.bind, first] at ok
          rcases @WriteOp.of_run_ok config run e middle (.put key value) id
            rfl noFault first with ⟨wal, rfl⟩
          have written := inStep.put key value
          have next : InStep config.tree e.bulkImport _ _ _ :=
            @InStep.settled config run
              ((WriteOp.put key value).applied config run.now
                (e.withWal wal)) _ _ written levels noFault
          have behind := inductionHypothesis
            (fun put member => noFaults put (List.mem_cons_of_mem _ member))
            next ok
          rw [settled_active, Nat.add_assoc] at behind
          exact behind

/-- A tree reads like itself. -/
theorem InStep.refl
    {bulkImport : Bool} {state : CountedTree}
    (invariant : state.tree.Invariant config.tree)
    (unparked : state.tree.immutables = []) :
    InStep config.tree bulkImport state state 0 := by
  constructor
  case invariant => exact invariant
  case splitUnparked => exact unparked
  case wholeUnparked => exact unparked
  case reads => exact fun _ => rfl
  case holds => exact fun _ _ => id
  case count => cases bulkImport <;> simp

theorem foldl_countedPut
    (e : CountedEngine) (items : List (String × Value)) {state : CountedTree}
    (levels : state.tree.levels = e.tree.levels) :
    items.foldl (fun state item =>
        state.put config.tree e.bulkImport item.1 item.2) state =
      ⟨items.foldl (fun tree item =>
          tree.put config.tree.jsonLen item.1 item.2) state.tree,
        state.liveKeyCount + batchApplyPutKeyCounts e.bulkImport
          config.tree.levelCount e.tree.levels
          (state.tree.active.batchPut config.tree.jsonLen items).2⟩ := by
  rw [WriteOp.batchApplyPutKeyCounts_eq_sum]
  induction items generalizing state with
  | nil => simp [Memtable.batchPut]
  | cons item items inductionHypothesis =>
      have behind := @inductionHypothesis
        (state.put config.tree e.bulkImport item.1 item.2) levels
      rw [List.foldl_cons, behind]
      simp only [CountedTree.put, List.foldl_cons, Memtable.batchPut,
        List.map_cons, List.sum_cons, ← add_assoc, levels]
      rfl

/-- The trees and the counters after the batch and after the puts. -/
theorem batchPut_and_puts
    (levels : 0 < config.tree.levelCount)
    (invariant : e.tree.Invariant config.tree)
    (unparked : e.tree.immutables = [])
    {list : List (WriteRun × String × Value)}
    (within : list.length ≤ config.maxBatchSize) (noFault : run.NoFault)
    (noFaults : ∀ put ∈ list, put.1.NoFault)
    {batched sequential : CountedEngine}
    (batchOk : CountedEngine.batchPut config run (list.map Prod.snd) e =
      .ok () batched)
    (putsOk : CountedEngine.puts config list e = .ok () sequential) :
    (∀ key, sequential.get config key = batched.get config key) ∧
      sequential.count = batched.count +
        if e.bulkImport then
          (crossings config.tree.jsonLen config.maxSize e.tree.active
            e.tree.active (list.map Prod.snd) : Int)
        else 0 := by
  have start : InStep config.tree e.bulkImport e.counted e.counted 0 :=
    .refl invariant unparked
  have split := start.puts levels noFaults putsOk
  rw [@foldl_countedPut config e _ e.counted rfl, Nat.zero_add] at split
  have accepted : ¬ (WriteOp.batchPut (list.map Prod.snd)).Refused config
      e := by
    rw [WriteOp.Refused, List.length_map]
    exact Nat.not_lt.mpr within
  rcases WriteOp.of_run_ok accepted rfl noFault batchOk with ⟨wal, rfl⟩
  let written := (WriteOp.batchPut (list.map Prod.snd)).applied config
    run.now (e.withWal wal)
  have kept : ∀ items : List (String × Value), ∀ tree : LsmTree,
      tree.Invariant config.tree → tree.immutables = [] →
      let written := items.foldl (fun tree item =>
        tree.put config.tree.jsonLen item.1 item.2) tree
      written.Invariant config.tree ∧ written.immutables = [] := by
    intro items
    induction items with
    | nil => exact fun tree invariant unparked => ⟨invariant, unparked⟩
    | cons item items inductionHypothesis =>
        intro tree invariant unparked
        exact inductionHypothesis _ (invariant.advance _ _ le_rfl) unparked
  have whole := kept (list.map Prod.snd) e.tree invariant unparked
  have self : InStep config.tree written.bulkImport written.counted
      written.counted 0 := .refl whole.1 whole.2
  have flushed := self.settled levels noFault
  constructor
  · intro key
    exact (split.reads key).trans (flushed.reads key).symm
  · have counted := flushed.count
    rw [Nat.cast_zero, ite_self, add_zero] at counted
    have moved := split.count
    rw [CountedEngine.count, CountedEngine.count]
    rw [show (written.settled config run).liveKeyCount = _ from counted]
    exact moved

/-! ## Tables that come back -/

theorem LsmTree.ReadsBack.puts {tree : LsmTree} (readsBack : tree.ReadsBack)
    (jsonLen : SerdeJsonValue → Nat) {items : List (String × Value)}
    (written : ∀ item ∈ items, F4kvsLsm.ReadsBack item.1 item.2) :
    (items.foldl (fun tree item => tree.put jsonLen item.1 item.2)
      tree).ReadsBack := by
  induction items generalizing tree with
  | nil => exact readsBack
  | cons item items inductionHypothesis =>
      exact inductionHypothesis
        (readsBack.put (written item List.mem_cons_self) jsonLen)
        fun other member => written other (List.mem_cons_of_mem _ member)

theorem LsmTree.ReadsBack.settled (readsBack : e.tree.ReadsBack) :
    (e.settled config run).tree.ReadsBack := by
  have settled : (e.settled config run).tree = (e.engine.checkMemtableFlush
    config.toEngineConfig run.flush).1.tree := rfl
  rw [settled, OpenEngine.checkMemtableFlush]
  split
  · exact readsBack.flush e.engine.data.names run.flush.info
      run.flush.outcome
  · exact readsBack

/-- What a put does that returns `Ok`. -/
theorem CountedEngine.of_put_ok {key : String} {value : Value}
    (noFault : run.NoFault)
    (ok : CountedEngine.put config run key value e = .ok () after) :
    ∃ wal, after = CountedEngine.settled config run
      ((WriteOp.put key value).applied config run.now (e.withWal wal)) :=
  @WriteOp.of_run_ok config run e after (.put key value) id rfl noFault ok

theorem puts_readBack
    {list : List (WriteRun × String × Value)}
    (noFaults : ∀ put ∈ list, put.1.NoFault)
    (readsBack : e.tree.ReadsBack)
    (written : ∀ put ∈ list, ReadsBack put.2.1 put.2.2)
    (ok : CountedEngine.puts config list e = .ok () after) :
    after.tree.ReadsBack := by
  induction list generalizing e with
  | nil =>
      rw [← (EStateM.Result.ok.inj ok).2]
      exact readsBack
  | cons put rest inductionHypothesis =>
      rcases put with ⟨run, key, value⟩
      cases first : CountedEngine.put config run key value e with
      | error error left =>
          simp only [CountedEngine.puts, bind, EStateM.bind, first] at ok
          exact absurd ok (by simp)
      | ok _ middle =>
          simp only [CountedEngine.puts, bind, EStateM.bind, first] at ok
          rcases CountedEngine.of_put_ok (noFaults _ List.mem_cons_self) first
            with ⟨wal, rfl⟩
          have put : ((WriteOp.put key value).applied config run.now
              (e.withWal wal)).tree.ReadsBack :=
            readsBack.put (written _ List.mem_cons_self) config.tree.jsonLen
          exact inductionHypothesis
            (fun put member => noFaults put (List.mem_cons_of_mem _ member))
            put.settled
            (fun put member => written put (List.mem_cons_of_mem _ member))
            ok

theorem WriteOp.reloads_of_run_ok {op : WriteOp}
    (accepted : ¬ op.Refused config e) (flushes : op.flushes = true)
    (noFault : run.NoFault) (reloads : e.engine.Reloads)
    (flushed : (op.applied config run.now e).tree.active.size ≥
      config.maxSize → (op.applied config run.now e).tree.active.Reloads)
    (ok : op.run config run e = .ok () after) : after.engine.Reloads := by
  rcases WriteOp.of_run_ok accepted flushes noFault ok with ⟨wal, rfl⟩
  have levels : (OpenEngine.applyCall config.toEngineConfig e.tree
      (op.call run.now)).levels = e.tree.levels :=
    OpenEngine.applyCall_levels e.tree (op.call run.now)
  have written : ((op.applied config run.now
      (e.withWal wal)).engine).Reloads :=
    reloads.of_tables rfl levels
  exact written.checkMemtableFlush fun _ => flushed

theorem puts_reload
    {list : List (WriteRun × String × Value)}
    (noFaults : ∀ put ∈ list, put.1.NoFault)
    (reloads : e.engine.Reloads)
    (flushes : PutsReload config.tree.jsonLen config.maxSize e.tree.active
      (list.map Prod.snd))
    (ok : CountedEngine.puts config list e = .ok () after) :
    after.engine.Reloads := by
  induction list generalizing e with
  | nil =>
      rw [← (EStateM.Result.ok.inj ok).2]
      exact reloads
  | cons put rest inductionHypothesis =>
      rcases put with ⟨run, key, value⟩
      have noFault : run.NoFault := noFaults _ List.mem_cons_self
      rcases flushes with ⟨here, behind⟩
      cases first : CountedEngine.put config run key value e with
      | error error left =>
          simp only [CountedEngine.puts, bind, EStateM.bind, first] at ok
          exact absurd ok (by simp)
      | ok _ middle =>
          simp only [CountedEngine.puts, bind, EStateM.bind, first] at ok
          have kept : middle.engine.Reloads :=
            @WriteOp.reloads_of_run_ok config run e middle (.put key value)
              id rfl noFault reloads here first
          rcases CountedEngine.of_put_ok noFault first with ⟨wal, rfl⟩
          refine inductionHypothesis
            (fun put member => noFaults put (List.mem_cons_of_mem _ member))
            kept ?_ ok
          rw [settled_active]
          exact behind

/-! ## What the log holds -/

/-- A write that the log can record returns `Ok`. -/
theorem WriteOp.run_logged
    {op : WriteOp} {sent : EngineOp} {expected : String → Option Value}
    {clock : UInt64} (accepted : ¬ op.Refused config e)
    (flushes : op.flushes = true) (noFault : run.NoFault)
    (enabled : config.walEnabled = true)
    (sound : e.engine.Sound config.toEngineConfig expected clock)
    (later : clock ≤ run.now)
    (made : sent.call config.toEngineConfig run.now =
      some (op.call run.now))
    (admissible : WalHandle.Admissible config.wal e.engine.wal.disk.engine
      (op.call run.now)) :
    ∃ after, op.run config run e = .ok () after ∧
      after.engine.Sound config.toEngineConfig
        (applyWrites expected sent.writes) run.now ∧
      after.engine.wal.disk.engine = e.engine.wal.disk.engine := by
  rcases WalHandle.call_grows sound.ready admissible with
    ⟨wal, called, grows⟩
  rcases sound.write made later admissible with
    ⟨written, logged, writtenSound⟩
  rw [OpenEngine.write, called] at logged
  cases logged
  have quiet : run.faultOf (op.call run.now) = none := by
    rw [WriteRun.faultOf, noFault.log, ite_self]
  have toLog : CountedEngine.writeLog config run (op.call run.now) e =
      .ok () (e.withWal wal) := by
    rw [CountedEngine.writeLog, if_pos enabled, quiet]
    simp only [called]
  have settledSound := writtenSound.checkMemtableFlush run.flush
  refine ⟨(op.applied config run.now (e.withWal wal)).settled config run, ?_,
    settledSound, ?_⟩
  · rw [WriteOp.run_eq accepted, toLog]
    simp only [WriteOp.finish, flushes, if_true]
    exact CountedEngine.checkMemtableFlush_ok noFault _
  · have sameWal := OpenEngine.checkMemtableFlush_wal config.toEngineConfig
      run.flush (op.applied config run.now (e.withWal wal)).engine
    simp only [CountedEngine.settled, sameWal]
    exact grows.engine

theorem puts_logged
    (enabled : config.walEnabled = true)
    {list : List (WriteRun × String × Value)}
    (noFaults : ∀ put ∈ list, put.1.NoFault)
    {expected : String → Option Value} {clock : UInt64}
    (sound : e.engine.Sound config.toEngineConfig expected clock)
    (admits : LogAdmits config.wal e.engine.wal.disk.engine clock list) :
    ∃ after clock', CountedEngine.puts config list e = .ok () after ∧
      after.engine.Sound config.toEngineConfig
        (applyWrites expected (list.map Prod.snd)) clock' := by
  induction list generalizing e expected clock with
  | nil => exact ⟨e, clock, rfl, sound⟩
  | cons put rest inductionHypothesis =>
      rcases put with ⟨run, key, value⟩
      rcases admits with ⟨later, admissible, admitsRest⟩
      have noFault : run.NoFault := noFaults _ List.mem_cons_self
      rcases @WriteOp.run_logged config run e (.put key value)
        (.put key value) expected clock id rfl noFault enabled sound later rfl
        admissible with ⟨middle, first, middleSound, sameEngine⟩
      rw [← sameEngine] at admitsRest
      rcases inductionHypothesis
        (fun put member => noFaults put (List.mem_cons_of_mem _ member))
        middleSound admitsRest with ⟨after, clock', behind, afterSound⟩
      refine ⟨after, clock', ?_, afterSound⟩
      have first : CountedEngine.put config run key value e =
          .ok () middle := first
      simp only [CountedEngine.puts, bind, EStateM.bind, first]
      exact behind

end

/-- A batch and the same puts one by one, which may flush the memtable in
between, are read alike and counted alike, but for the live values that are
overwritten behind a flush in a bulk load.  When the log can record them and
the tables come back, what a start recovers is the same. -/
theorem batch_put_equals_puts
    {config : WriteConfig} (levels : 0 < config.tree.levelCount)
    {e : CountedEngine} (invariant : e.tree.Invariant config.tree)
    (unparked : e.tree.immutables = []) (readsBack : e.tree.ReadsBack)
    {list : List (WriteRun × String × Value)} {run : WriteRun}
    (within : list.length ≤ config.maxBatchSize) (noFault : run.NoFault)
    (noFaults : ∀ put ∈ list, put.1.NoFault)
    (written : ∀ put ∈ list, ReadsBack put.2.1 put.2.2) :
    (∀ batched sequential,
      CountedEngine.batchPut config run (list.map Prod.snd) e =
        .ok () batched →
      CountedEngine.puts config list e = .ok () sequential →
      (∀ key, sequential.getChecked config key =
        batched.getChecked config key) ∧
        sequential.count = batched.count +
          if e.bulkImport then
            (crossings config.tree.jsonLen config.maxSize e.tree.active
              e.tree.active (list.map Prod.snd) : Int)
          else 0) ∧
    ∀ expected clock, config.walEnabled = true →
      e.engine.Sound config.toEngineConfig expected clock →
      clock ≤ run.now →
      WalHandle.Admissible config.wal e.engine.wal.disk.engine
        (.batchWriteOperations (list.map Prod.snd) run.now) →
      LogAdmits config.wal e.engine.wal.disk.engine clock list →
      e.engine.Reloads →
      (∀ m ∈ e.engine.flushed? config.toEngineConfig
        (.batchPut (list.map Prod.snd)) run.now, m.Reloads) →
      PutsReload config.tree.jsonLen config.maxSize e.tree.active
        (list.map Prod.snd) →
      ∃ batched sequential recovered,
        CountedEngine.batchPut config run (list.map Prod.snd) e =
          .ok () batched ∧
        CountedEngine.puts config list e = .ok () sequential ∧
        batched.engine.disk.Restores config.toEngineConfig recovered ∧
        sequential.engine.disk.Restores config.toEngineConfig
          recovered := by
  have short : ¬ (list.map Prod.snd).length > config.maxBatchSize := by
    rw [List.length_map]
    exact Nat.not_lt.mpr within
  constructor
  · intro batched sequential batchOk putsOk
    have alike := batchPut_and_puts levels invariant unparked within noFault
      noFaults batchOk putsOk
    have sequentialReads := puts_readBack noFaults readsBack written putsOk
    have items : ∀ item ∈ list.map Prod.snd, ReadsBack item.1 item.2 := by
      intro item member
      rcases List.mem_map.mp member with ⟨put, listed, rfl⟩
      exact written put listed
    have batchedReads : batched.tree.ReadsBack := by
      rcases @WriteOp.of_run_ok config run e batched
        (.batchPut (list.map Prod.snd)) short rfl noFault batchOk with
        ⟨wal, rfl⟩
      have put : ((WriteOp.batchPut (list.map Prod.snd)).applied config
          run.now (e.withWal wal)).tree.ReadsBack :=
        readsBack.puts config.tree.jsonLen items
      exact put.settled
    refine ⟨fun key => ?_, alike.2⟩
    rw [CountedEngine.getChecked, CountedEngine.getChecked,
      LsmTree.getChecked_eq sequentialReads.tables,
      LsmTree.getChecked_eq batchedReads.tables]
    exact alike.1 key
  · intro expected clock enabled sound later batchAdmits admits reloads
      batchFlushes putsFlush
    have made : EngineOp.call config.toEngineConfig run.now
        (.batchPut (list.map Prod.snd)) =
          some (.batchWriteOperations (list.map Prod.snd) run.now) :=
      if_neg short
    rcases @WriteOp.run_logged config run e (.batchPut (list.map Prod.snd))
      (.batchPut (list.map Prod.snd)) expected clock short rfl noFault enabled
      sound later made batchAdmits with ⟨batched, batchOk, batchSound, -⟩
    rcases puts_logged enabled noFaults sound admits with
      ⟨sequential, clock', putsOk, putsSound⟩
    have batchReloads : batched.engine.Reloads :=
      @WriteOp.reloads_of_run_ok config run e batched
        (.batchPut (list.map Prod.snd)) short rfl noFault reloads
        (fun full => OpenEngine.reloads_of_flushed batchFlushes made full)
        batchOk
    have putsReload := puts_reload noFaults reloads putsFlush putsOk
    exact ⟨batched, sequential, _, batchOk, putsOk,
      (batchSound.disk.recovers levels).restores batchReloads.data,
      (putsSound.disk.recovers levels).restores putsReload.data⟩

/-! ## The same key twice -/

def samePutTwice : List (WriteRun × String × Value) :=
  [(quietRun, "k", .bool true), (quietRun, "k", .bool true)]

theorem quietRun_noFault : quietRun.NoFault := ⟨rfl, rfl⟩

theorem samePutTwice_noFault : ∀ put ∈ samePutTwice, put.1.NoFault := by
  intro put member
  rcases List.mem_pair.mp member with rfl | rfl
  · exact quietRun_noFault
  · exact quietRun_noFault

theorem samePutTwice_readBack :
    ∀ put ∈ samePutTwice, ReadsBack put.2.1 put.2.2 := by
  intro put member
  rcases List.mem_pair.mp member with rfl | rfl
  · exact ⟨rfl, by decide⟩
  · exact ⟨rfl, by decide⟩

theorem openedCounted_readsBack : openedCounted.tree.ReadsBack where
  memtables := by
    intro memtable member
    rw [List.mem_singleton.mp member]
    exact Memtable.new_readsBack
  tables := fun _ _ member =>
    absurd (mem_loadLevel.mp member).1 List.not_mem_nil

theorem openedCounted_reloads : openedCounted.engine.Reloads where
  data := fun _ member => absurd member List.not_mem_nil
  levels := fun _ _ member =>
    absurd (mem_loadLevel.mp member).1 List.not_mem_nil

theorem samePutTwice_reloads {m : Memtable}
    (only : m.getAllEntries = [("k", .bool true, false)]) :
    m.Reloads := by
  apply Memtable.Reloads.of_clean
  · intro key value found
    have member : (key, value, value.isNull) ∈ m.getAllEntries :=
      Memtable.mem_getAllEntries.mpr ⟨found, rfl⟩
    rw [only, List.mem_singleton, Prod.mk.injEq, Prod.mk.injEq] at member
    rw [member.1, member.2.1]
    exact ⟨rfl, by decide⟩
  · intro entry member
    rw [only] at member
    rw [List.mem_singleton.mp member]
    exact ⟨by decide, by decide⟩
  · rw [only]
    decide

/-- Both puts flush the memtable, and the batch flushes it once. -/
theorem same_put_twice_is_counted_once :
    ∃ batched sequential recovered,
      CountedEngine.batchPut smallWrites quietRun
        (samePutTwice.map Prod.snd) openedCounted = .ok () batched ∧
      CountedEngine.puts smallWrites samePutTwice openedCounted =
        .ok () sequential ∧
      sequential.count = batched.count ∧
      batched.engine.disk.Restores smallWrites.toEngineConfig recovered ∧
      sequential.engine.disk.Restores smallWrites.toEngineConfig
        recovered := by
  have reached : Reaches (DurableStep smallWrites.toEngineConfig)
      (Faultless smallWrites.toEngineConfig) (.created .segment)
      ⟨.up openedEngine, [], 0⟩ :=
    (Reaches.start _).next (.reopen 1) ⟨trivial, trivial⟩ (.reopen rfl)
  have levels : 0 < smallWrites.tree.levelCount := by decide
  rcases (DurableState.faultless_sound levels reached).1 with
    ⟨expected, -, sound⟩
  have sound : openedEngine.Sound smallWrites.toEngineConfig expected 0 :=
    sound
  have both := @batch_put_equals_puts smallWrites levels openedCounted
    sound.upToDate.invariant rfl openedCounted_readsBack samePutTwice quietRun
    (by decide) quietRun_noFault samePutTwice_noFault samePutTwice_readBack
  have fits : FileWal.Writable .segment smallWrites.wal
      (.put "k" (.bool true) 2) := ⟨by decide, by decide, rfl⟩
  have single : WalHandle.Admissible smallWrites.wal .segment
      (.writeOperation "k" (.bool true) 2) := by
    intro entry member
    rw [List.mem_singleton.mp member]
    exact fits
  have batch : WalHandle.Admissible smallWrites.wal .segment
      (.batchWriteOperations (samePutTwice.map Prod.snd) 2) := by
    intro item member
    rcases List.mem_pair.mp member with rfl | rfl
    · exact fits.storable
    · exact fits.storable
  have batchFlushes : ∀ m ∈ openedEngine.flushed? smallWrites.toEngineConfig
      (.batchPut (samePutTwice.map Prod.snd)) quietRun.now, m.Reloads := by
    rintro m ⟨⟩
    exact samePutTwice_reloads rfl
  have putsFlush : PutsReload smallWrites.tree.jsonLen smallWrites.maxSize
      .new (samePutTwice.map Prod.snd) :=
    ⟨fun _ => samePutTwice_reloads rfl, fun _ => samePutTwice_reloads rfl,
      trivial⟩
  rcases both.2 expected 0 rfl sound (by decide) batch
    ⟨by decide, single, by decide, single, trivial⟩ openedCounted_reloads
    batchFlushes putsFlush with
    ⟨batched, sequential, recovered, batchOk, putsOk, left, right⟩
  have counts := (both.1 batched sequential batchOk putsOk).2
  exact ⟨batched, sequential, recovered, batchOk, putsOk,
    counts.trans (add_zero _), left, right⟩

/-! ## What sets them apart -/

/-- What a start reads. -/
def CountedEngine.reread (config : WriteConfig) (e : CountedEngine)
    (key : String) : Option (Option Value) :=
  match e.engine.disk.openEngine config.toEngineConfig 9 with
  | .ok opened => some (opened.tree.getChecked config.tree.levelCount key)
  | .error _ => none

/-- The batch and the puts return `Ok`, with this count and this value of a
key after a start for each. -/
def SetApart (config : WriteConfig) (e : CountedEngine)
    (list : List (WriteRun × String × Value)) (key : String)
    (batch puts : Int × Option Value) : Prop :=
  ∃ batched sequential,
    CountedEngine.batchPut config quietRun (list.map Prod.snd) e =
      .ok () batched ∧
    CountedEngine.puts config list e = .ok () sequential ∧
    (batched.count = batch.1 ∧ batched.reread config key = some batch.2) ∧
    sequential.count = puts.1 ∧ sequential.reread config key = some puts.2

def bulkCounted : CountedEngine := { openedCounted with bulkImport := true }

/-- The log is off, and the second put does not fill the memtable. -/
def unloggedWrites : WriteConfig :=
  { smallEngine with maxSize := 3, walEnabled := false }

def putAndErase : List (WriteRun × String × Value) :=
  [(quietRun, "k", .bytes [0, 0]), (quietRun, "k", .null)]

def roomyWrites : WriteConfig := { smallEngine with walEnabled := true }

def steppedBackPuts : List (WriteRun × String × Value) :=
  [({ quietRun with now := 5 }, "k", .bool true),
    (quietRun, "k", .bool false)]

/-- Its record is shorter than a segment, but not behind a header. -/
def longValue : Value := .bytes (List.replicate 980 0)

set_option maxRecDepth 8000 in
/-- In a bulk load the second put does not look for the value that has been
flushed.  Without a log only what has been flushed is recovered.  Under a
clock that steps back the later put is replayed first.  And a record that fits
no segment is written by a batch alone. -/
theorem batch_and_puts_set_apart :
    SetApart smallWrites bulkCounted samePutTwice "k"
        (1, some (.bool true)) (2, some (.bool true)) ∧
      SetApart unloggedWrites openedCounted putAndErase "k"
        (1, none) (1, some (.bytes [0, 0])) ∧
      SetApart roomyWrites openedCounted steppedBackPuts "k"
        (1, some (.bool false)) (1, some (.bool true)) ∧
      SetApart roomyWrites openedCounted [(quietRun, "k", longValue)] "k"
        (1, some longValue) (1, none) :=
  ⟨⟨_, _, rfl, rfl, ⟨rfl, rfl⟩, rfl, rfl⟩,
    ⟨_, _, rfl, rfl, ⟨rfl, rfl⟩, rfl, rfl⟩,
    ⟨_, _, rfl, rfl, ⟨rfl, rfl⟩, rfl, rfl⟩,
    ⟨_, _, rfl, rfl, ⟨rfl, rfl⟩, rfl, rfl⟩⟩

end F4kvsLsm
