import F4kvsLsm.Engine.Writers

/-!
# The order of the log and the order of the memtable

Between the record of a write and its turn at the memtable other writers may
pass.  As long as no writer is overtaken by another one with the same key, and
the clock does not run backwards between two records of a key, replaying the
log gives the state that readers saw.
-/

namespace F4kvsLsm

open KeyedLog Transitions Versions

namespace LogRecord

/-- The key that a record writes. -/
def key? (record : LogRecord) : Option String :=
  record.entry.write?.map (·.1)

/-- Two records of one key. -/
def SameKey (first second : LogRecord) : Prop :=
  first.key? = second.key?

end LogRecord

theorem WalCall.entries_spec (write : WalCall) :
    (∀ entry ∈ write.entries, entry.write? ≠ none) ∧
      ∀ first ∈ write.entries, ∀ second ∈ write.entries,
        first.stamp = second.stamp := by
  cases write with
  | writeOperation key value now =>
      simp [WalCall.entries, WALEntry.write?]
  | writeDelete key now => simp [WalCall.entries, WALEntry.write?]
  | batchWriteOperations items now =>
      simp only [WalCall.entries, List.mem_map]
      constructor
      · intro entry member
        obtain ⟨item, -, rfl⟩ := member
        simp [WALEntry.write?]
      · intro first firstMember second secondMember
        obtain ⟨item, -, rfl⟩ := firstMember
        obtain ⟨item', -, rfl⟩ := secondMember
        rfl

namespace EngineState

/-- No record overtakes an earlier one of its key between the log and the
memtable, the timestamps of the records of a key do not decrease, and nothing
truncates the log. -/
def NotOvertaken (s : EngineState) : EngineAction → Prop
  | .log _ write => ∀ old ∈ s.log, ∀ entry ∈ write.entries,
      old.key? = entry.write?.map (·.1) → old.entry.stamp ≤ entry.stamp
  | .apply call => ∀ record rest, s.writers call = .logged (record :: rest) →
      ∀ other pending, s.writers other = .logged pending →
        ∀ earlier ∈ pending, earlier.SameKey record →
          record.number ≤ earlier.number
  | .beginFlush _ => False
  | _ => True

/-- Writers one after the other on each key, of records that the log and the
tables keep, and orderly flushes. -/
def InOrder (wal : WalConfig) (engine : WalEngine) (s : EngineState)
    (action : EngineAction) : Prop :=
  s.NotOvertaken action ∧ OnFlushes FlushState.Orderly s action ∧
    action.Recorded wal engine

/-- All writes have been acknowledged and all flushes have finished. -/
def AllAcknowledged (s : EngineState) : Prop :=
  (∀ call, s.writers call = .idle ∨ s.writers call = .applied) ∧
    s.flushes.AllReturned

/-- The engine after a crash and a recovery from the log. -/
def recovered (jsonLen : SerdeJsonValue → Nat) (s : EngineState) : LsmTree :=
  ⟨replay jsonLen .new
      (entriesToRecover (sortByTimestamp (s.log.map (·.entry)))), [],
    s.flushes.levels, s.flushes.sequenceNumber⟩

def appliedRecords (s : EngineState) : List LogRecord :=
  s.applied.map (·.2)

/-! ## What is kept -/

/-- Where the records are, and in which order. -/
structure Ordered (base : String → Option Value) (s : EngineState) : Prop where
  numbered : s.log = s.logged.mapIdx fun number entry => ⟨number, entry⟩
  writes : ∀ record ∈ s.log, record.entry.write? ≠ none
  waiting : ∀ call rest, s.writers call = .logged rest →
    rest.Pairwise (fun first second => first.number < second.number) ∧
      ∀ record ∈ rest, record ∈ s.log
  apart : ∀ call other rest rest', s.writers call = .logged rest →
    s.writers other = .logged rest' → ∀ record ∈ rest, record ∈ rest' →
      call = other
  reached : ∀ record ∈ s.appliedRecords, record ∈ s.log
  covered : ∀ record ∈ s.log, record ∈ s.appliedRecords ∨
    ∃ call rest, s.writers call = .logged rest ∧ record ∈ rest
  behind : ∀ record ∈ s.appliedRecords, ∀ call rest,
    s.writers call = .logged rest → ∀ later ∈ rest, record.SameKey later →
      record.number < later.number
  inOrder : s.appliedRecords.Pairwise fun first second =>
    first.SameKey second → first.number < second.number
  stamped : s.log.Pairwise fun first second =>
    first.SameKey second → first.entry.stamp ≤ second.entry.stamp
  values : ∀ key, s.flushes.expected key =
    ((lastWrite s.written key).map Value.visible).getD (base key)
  held : ∀ key, s.flushes.active.data[key]? ≠ none →
    lastWrite s.written key ≠ none
  noFlusher : ∀ call, s.flushers call = .idle

variable {jsonLen : SerdeJsonValue → Nat} {base : String → Option Value}

theorem opened_ordered (levels : Nat → List SSTable) (sequence : Nat) :
    (opened levels sequence base).Ordered base := by
  constructor <;> simp [opened, appliedRecords, written, writesOf,
    FlushState.quiet]

theorem Ordered.number_lt
    {s : EngineState} (ordered : s.Ordered base) {record : LogRecord}
    (member : record ∈ s.log) : record.number < s.logged.length := by
  rw [ordered.numbered, List.mem_mapIdx] at member
  obtain ⟨number, bound, rfl⟩ := member
  exact bound

theorem Ordered.eq_of_number
    {s : EngineState} (ordered : s.Ordered base) {first second : LogRecord}
    (firstMember : first ∈ s.log) (secondMember : second ∈ s.log)
    (same : first.number = second.number) : first = second := by
  rw [ordered.numbered, List.mem_mapIdx] at firstMember secondMember
  obtain ⟨number, bound, rfl⟩ := firstMember
  obtain ⟨number', bound', rfl⟩ := secondMember
  simp only at same
  subst same
  rfl

theorem mem_newRecords
    {s : EngineState} {write : WalCall} {record : LogRecord}
    (member : record ∈ s.newRecords write) :
    s.logged.length ≤ record.number ∧ record.entry ∈ write.entries := by
  rw [newRecords, List.mem_mapIdx] at member
  obtain ⟨index, bound, rfl⟩ := member
  exact ⟨Nat.le_add_right _ _, List.getElem_mem bound⟩

theorem newRecords_sorted (s : EngineState) (write : WalCall) :
    (s.newRecords write).Pairwise
      fun first second => first.number < second.number := by
  rw [newRecords, List.pairwise_iff_getElem]
  intro i j iBound jBound less
  rw [List.getElem_mapIdx, List.getElem_mapIdx]
  exact Nat.add_lt_add_left less _

theorem writeLog_waiting
    {s : EngineState} {call : Nat} {write : WalCall}
    (idle : s.writers call = .idle) (other : Nat) (rest : List LogRecord)
    (phase : s.writers other = .logged rest) :
    (s.writeLog call write).writers other = .logged rest := by
  have different : other ≠ call := by
    intro same
    rw [same, idle] at phase
    exact absurd phase (by simp)
  simp only [EngineState.writeLog, Function.update_of_ne different]
  exact phase

theorem Ordered.writeLog
    {s : EngineState} (ordered : s.Ordered base) {call : Nat}
    {write : WalCall} (idle : s.writers call = .idle)
    (meets : s.NotOvertaken (.log call write)) :
    (s.writeLog call write).Ordered base := by
  have phases : ∀ other rest,
      (s.writeLog call write).writers other = .logged rest →
        other = call ∧ rest = s.newRecords write ∨
          other ≠ call ∧ s.writers other = .logged rest := by
    intro other rest phase
    by_cases same : other = call
    · simp only [EngineState.writeLog, same, Function.update_self,
        WriterCall.logged.injEq] at phase
      exact Or.inl ⟨same, phase.symm⟩
    · simp only [EngineState.writeLog, Function.update_of_ne same] at phase
      exact Or.inr ⟨same, phase⟩
  have old := @writeLog_waiting s call write idle
  have logged : ∀ record, record ∈ (s.writeLog call write).log ↔
      record ∈ s.log ∨ record ∈ s.newRecords write := by
    intro record
    simp only [EngineState.writeLog, List.mem_append]
  constructor
  case numbered =>
    simp only [EngineState.writeLog, newRecords, List.mapIdx_append,
      ← ordered.numbered, Nat.add_comm]
  case writes =>
    intro record member
    rcases (logged record).mp member with before | new
    · exact ordered.writes record before
    · exact (WalCall.entries_spec write).1 _ (mem_newRecords new).2
  case waiting =>
    intro other rest phase
    rcases phases other rest phase with ⟨-, rfl⟩ | ⟨-, phase⟩
    · exact ⟨newRecords_sorted s write, fun record member =>
        (logged record).mpr (Or.inr member)⟩
    · obtain ⟨sorted, inLog⟩ := ordered.waiting other rest phase
      exact ⟨sorted, fun record member =>
        (logged record).mpr (Or.inl (inLog record member))⟩
  case apart =>
    intro first second rest rest' firstPhase secondPhase record member member'
    have fresh : ∀ other rest, s.writers other = .logged rest →
        ∀ record ∈ rest, record ∉ s.newRecords write := by
      intro other rest phase record inRest new
      have bound := ordered.number_lt
        ((ordered.waiting other rest phase).2 record inRest)
      have above := (mem_newRecords new).1
      omega
    rcases phases first rest firstPhase with ⟨isCall, rfl⟩ | ⟨-, phase⟩ <;>
      rcases phases second rest' secondPhase with
        ⟨isCall', rfl⟩ | ⟨-, phase'⟩
    · rw [isCall, isCall']
    · exact absurd member (fresh second rest' phase' record member')
    · exact absurd member' (fresh first rest phase record member)
    · exact ordered.apart first second rest rest' phase phase' record member
        member'
  case reached =>
    intro record member
    exact (logged record).mpr (Or.inl (ordered.reached record member))
  case covered =>
    intro record member
    rcases (logged record).mp member with before | new
    · rcases ordered.covered record before with done | ⟨other, rest, phase, here⟩
      · exact Or.inl done
      · exact Or.inr ⟨other, rest, old other rest phase, here⟩
    · refine Or.inr ⟨call, s.newRecords write, ?_, new⟩
      simp only [EngineState.writeLog, Function.update_self]
  case behind =>
    intro record done other rest phase later member sameKey
    rcases phases other rest phase with ⟨-, rfl⟩ | ⟨-, phase⟩
    · exact (ordered.number_lt (ordered.reached record done)).trans_le
        (mem_newRecords member).1
    · exact ordered.behind record done other rest phase later member sameKey
  case inOrder => exact ordered.inOrder
  case stamped =>
    simp only [EngineState.writeLog]
    rw [List.pairwise_append]
    refine ⟨ordered.stamped, ?_, ?_⟩
    · refine (newRecords_sorted s write).imp_of_mem ?_
      intro first second firstMember secondMember _ _
      exact ((WalCall.entries_spec write).2 _ (mem_newRecords firstMember).2 _
        (mem_newRecords secondMember).2).le
    · intro first firstMember second secondMember sameKey
      exact meets first firstMember second.entry
        (mem_newRecords secondMember).2 sameKey
  case values => exact ordered.values
  case held => exact ordered.held
  case noFlusher => exact ordered.noFlusher

theorem written_append
    (applied : List (Nat × LogRecord)) (ticket : Nat) (record : LogRecord) :
    writesOf ((applied ++ [(ticket, record)]).map fun reached =>
        reached.2.entry) =
      writesOf (applied.map fun reached => reached.2.entry) ++
        writesOf [record.entry] := by
  simp [writesOf]

/-- The expected reads follow the writes that reach the memtable. -/
theorem expected_applyEntry
    (jsonLen : SerdeJsonValue → Nat) (s : FlushState)
    {written : List (String × Value)} (entry : WALEntry)
    (values : ∀ key, s.expected key =
      ((lastWrite written key).map Value.visible).getD (base key))
    (key : String) :
    (s.applyEntry jsonLen entry).expected key =
      ((lastWrite (written ++ writesOf [entry]) key).map
        Value.visible).getD (base key) := by
  rw [lastWrite_append]
  cases entry with
  | put other value timestamp =>
      simp only [FlushState.applyEntry, FlushState.put, writesOf,
        List.filterMap_cons, List.filterMap_nil, WALEntry.write?,
        lastWrite_singleton]
      by_cases same : other = key
      · rw [same, Function.update_self, if_pos rfl]
        rfl
      · rw [Function.update_of_ne (Ne.symm same), if_neg same,
          Option.none_or, values]
  | delete other timestamp =>
      simp only [FlushState.applyEntry, FlushState.delete, writesOf,
        List.filterMap_cons, List.filterMap_nil, WALEntry.write?,
        lastWrite_singleton]
      by_cases same : other = key
      · rw [same, Function.update_self, if_pos rfl]
        rfl
      · rw [Function.update_of_ne (Ne.symm same), if_neg same,
          Option.none_or, values]
  | flush memtableId timestamp => exact values key
  | checkpoint timestamp => exact values key

theorem held_applyEntry
    (jsonLen : SerdeJsonValue → Nat) (s : FlushState)
    {written : List (String × Value)} (entry : WALEntry)
    (held : ∀ key, s.active.data[key]? ≠ none → lastWrite written key ≠ none)
    (key : String)
    (holds : (s.applyEntry jsonLen entry).active.data[key]? ≠ none) :
    lastWrite (written ++ writesOf [entry]) key ≠ none := by
  rw [lastWrite_append, ne_eq, Option.or_eq_none_iff, not_and]
  intro notThis
  apply held
  cases entry with
  | put other value timestamp =>
      simp only [writesOf, List.filterMap_cons, List.filterMap_nil,
        WALEntry.write?, lastWrite_singleton] at notThis
      simp only [FlushState.applyEntry, FlushState.put,
        Memtable.put_get] at holds
      split at notThis
      · exact absurd notThis (by simp)
      · case isFalse different =>
          rwa [if_neg different] at holds
  | delete other timestamp =>
      simp only [writesOf, List.filterMap_cons, List.filterMap_nil,
        WALEntry.write?, lastWrite_singleton] at notThis
      simp only [FlushState.applyEntry, FlushState.delete,
        Memtable.delete_get] at holds
      split at notThis
      · exact absurd notThis (by simp)
      · case isFalse different =>
          rwa [if_neg different] at holds
  | flush memtableId timestamp => exact holds
  | checkpoint timestamp => exact holds

theorem Ordered.apply
    {s : EngineState} (ordered : s.Ordered base) {call : Nat}
    {record : LogRecord} {rest : List LogRecord}
    (pending : s.writers call = .logged (record :: rest))
    (meets : s.NotOvertaken (.apply call)) :
    (s.apply jsonLen call record rest).Ordered base := by
  obtain ⟨sorted, inLog⟩ := ordered.waiting call _ pending
  have firstOfRest := (List.pairwise_cons.mp sorted).1
  have phases : ∀ other rest',
      (s.apply jsonLen call record rest).writers other = .logged rest' →
        other = call ∧ rest' = rest ∨
          other ≠ call ∧ s.writers other = .logged rest' := by
    intro other rest' phase
    by_cases same : other = call
    · simp only [EngineState.apply, same, Function.update_self,
        WriterCall.logged.injEq] at phase
      exact Or.inl ⟨same, phase.symm⟩
    · simp only [EngineState.apply, Function.update_of_ne same] at phase
      exact Or.inr ⟨same, phase⟩
  have before : ∀ other rest',
      (s.apply jsonLen call record rest).writers other = .logged rest' →
        ∃ whole, s.writers other = .logged whole ∧
          (∀ later ∈ rest', later ∈ whole) ∧ rest'.Sublist whole := by
    intro other rest' phase
    rcases phases other rest' phase with ⟨rfl, rfl⟩ | ⟨-, phase⟩
    · exact ⟨_, pending, fun _ member => List.mem_cons_of_mem _ member,
        List.sublist_cons_self _ _⟩
    · exact ⟨_, phase, fun _ member => member, List.Sublist.refl _⟩
  have records : (s.apply jsonLen call record rest).appliedRecords =
      s.appliedRecords ++ [record] := by
    simp [appliedRecords, EngineState.apply]
  constructor
  case numbered => exact ordered.numbered
  case writes => exact ordered.writes
  case waiting =>
    intro other rest' phase
    obtain ⟨whole, phase, inside, sublist⟩ := before other rest' phase
    obtain ⟨wholeSorted, wholeInLog⟩ := ordered.waiting other whole phase
    exact ⟨wholeSorted.sublist sublist,
      fun later member => wholeInLog later (inside later member)⟩
  case apart =>
    intro first second rest₁ rest₂ firstPhase secondPhase other member member'
    obtain ⟨whole, phase, inside, -⟩ := before first rest₁ firstPhase
    obtain ⟨whole', phase', inside', -⟩ := before second rest₂ secondPhase
    exact ordered.apart first second whole whole' phase phase' other
      (inside other member) (inside' other member')
  case reached =>
    intro other member
    rw [records] at member
    rcases List.mem_append.mp member with old | new
    · exact ordered.reached other old
    · rw [List.mem_singleton.mp new]
      exact inLog record (List.mem_cons_self ..)
  case covered =>
    intro other member
    rw [records, List.mem_append, List.mem_singleton]
    rcases ordered.covered other member with done | ⟨holder, whole, phase, here⟩
    · exact Or.inl (Or.inl done)
    · by_cases same : holder = call
      · rw [same, pending, WriterCall.logged.injEq] at phase
        rw [← phase] at here
        rcases List.mem_cons.mp here with now | behind
        · exact Or.inl (Or.inr now)
        · refine Or.inr ⟨call, rest, ?_, behind⟩
          simp only [EngineState.apply, Function.update_self]
      · refine Or.inr ⟨holder, whole, ?_, here⟩
        simp only [EngineState.apply, Function.update_of_ne same]
        exact phase
  case behind =>
    intro done isDone other rest' phase later member sameKey
    rw [records, List.mem_append, List.mem_singleton] at isDone
    rcases isDone with old | rfl
    · obtain ⟨whole, phase, inside, -⟩ := before other rest' phase
      exact ordered.behind done old other whole phase later
        (inside later member) sameKey
    · rcases phases other rest' phase with ⟨-, rfl⟩ | ⟨different, phase⟩
      · exact firstOfRest later member
      · have least := meets done rest pending other rest' phase later member
          sameKey.symm
        refine Nat.lt_of_le_of_ne least fun sameNumber => different ?_
        have laterInLog := (ordered.waiting other rest' phase).2 later member
        have same := ordered.eq_of_number
          (inLog done (List.mem_cons_self ..)) laterInLog sameNumber
        refine ordered.apart other call rest' _ phase pending later member ?_
        rw [← same]
        exact List.mem_cons_self ..
  case inOrder =>
    rw [records, List.pairwise_append]
    refine ⟨ordered.inOrder, List.pairwise_singleton _ _, ?_⟩
    intro old isOld new isNew sameKey
    rw [List.mem_singleton.mp isNew] at sameKey ⊢
    exact ordered.behind old isOld call _ pending record
      (List.mem_cons_self ..) sameKey
  case stamped => exact ordered.stamped
  case values =>
    intro key
    have step := expected_applyEntry jsonLen s.flushes record.entry
      ordered.values key
    simp only [EngineState.apply, EngineState.written, written_append]
    exact step
  case held =>
    intro key holds
    have step := held_applyEntry jsonLen s.flushes record.entry ordered.held
      key holds
    simp only [EngineState.apply, EngineState.written, written_append]
    exact step
  case noFlusher => exact ordered.noFlusher

theorem Ordered.release
    {s : EngineState} (ordered : s.Ordered base) {call : Nat}
    (pending : s.writers call = .logged []) :
    (s.release call).Ordered base := by
  have before : ∀ other rest,
      (s.release call).writers other = .logged rest →
        s.writers other = .logged rest := by
    intro other rest phase
    by_cases same : other = call
    · simp only [EngineState.release, same, Function.update_self,
        reduceCtorEq] at phase
    · simp only [EngineState.release, Function.update_of_ne same] at phase
      exact phase
  constructor
  case numbered => exact ordered.numbered
  case writes => exact ordered.writes
  case waiting =>
    exact fun other rest phase =>
      ordered.waiting other rest (before other rest phase)
  case apart =>
    exact fun first second rest rest' phase phase' =>
      ordered.apart first second rest rest' (before first rest phase)
        (before second rest' phase')
  case reached => exact ordered.reached
  case covered =>
    intro record member
    apply (ordered.covered record member).imp_right
    rintro ⟨other, rest, phase, here⟩
    have different : other ≠ call := by
      intro same
      rw [same, pending, WriterCall.logged.injEq] at phase
      rw [← phase] at here
      exact absurd here List.not_mem_nil
    refine ⟨other, rest, ?_, here⟩
    simp only [EngineState.release, Function.update_of_ne different]
    exact phase
  case behind =>
    exact fun record done other rest phase =>
      ordered.behind record done other rest (before other rest phase)
  case inOrder => exact ordered.inOrder
  case stamped => exact ordered.stamped
  case values => exact ordered.values
  case held => exact ordered.held
  case noFlusher => exact ordered.noFlusher

theorem Ordered.step
    {s s' : EngineState} {action : EngineAction} (ordered : s.Ordered base)
    (meets : s.NotOvertaken action)
    (taken : EngineStep jsonLen s action s') : s'.Ordered base := by
  cases taken with
  | log call write idle free => exact ordered.writeLog idle meets
  | apply call pending => exact ordered.apply pending meets
  | release call pending => exact ordered.release pending
  | flush call own guard taken =>
      obtain ⟨numbered, writes, waiting, apart, reached, covered, behind,
        inOrder, stamped, values, held, noFlusher⟩ := ordered
      refine ⟨numbered, writes, waiting, apart, reached, covered, behind,
        inOrder, stamped, ?_, ?_, noFlusher⟩
      · simp only [(taken.frame own).expected]
        exact values
      · intro key holds
        rcases (taken.frame own).memtables with ⟨same, -⟩ | ⟨-, -, new, -⟩
        · simp only [same] at holds
          exact held key holds
        · simp only [new, Memtable.new_get] at holds
          exact absurd rfl holds
  | beginFlush call idle unused noShared noExclusive => exact meets.elim
  | beginTruncate call flushing returned =>
      rw [ordered.noFlusher call] at flushing
      exact absurd flushing (by simp)
  | removeFile call inFile truncating =>
      rw [ordered.noFlusher call] at truncating
      exact absurd truncating (by simp)
  | endFlush call truncating empty =>
      rw [ordered.noFlusher call] at truncating
      exact absurd truncating (by simp)

/-! ## Records that can be read -/

/-- What waits for the memtable can be read back from a table. -/
def WaitingReadsBack (s : EngineState) : Prop :=
  ∀ call rest, s.writers call = .logged rest →
    ∀ record ∈ rest, record.entry.ReadsBack

theorem WaitingReadsBack.step
    {wal : WalConfig} {engine : WalEngine} {s s' : EngineState}
    {action : EngineAction} (waiting : s.WaitingReadsBack)
    (recorded : action.Recorded wal engine)
    (taken : EngineStep jsonLen s action s') : s'.WaitingReadsBack := by
  cases taken with
  | log call write idle free =>
      intro other rest phase record member
      by_cases same : other = call
      · simp only [EngineState.writeLog, same, Function.update_self,
          WriterCall.logged.injEq] at phase
        rw [← phase] at member
        exact recorded.readsBack _ (mem_newRecords member).2
      · simp only [EngineState.writeLog, Function.update_of_ne same] at phase
        exact waiting other rest phase record member
  | apply call pending =>
      intro other rest phase record member
      by_cases same : other = call
      · simp only [EngineState.apply, same, Function.update_self,
          WriterCall.logged.injEq] at phase
        rw [← phase] at member
        exact waiting call _ pending record (List.mem_cons_of_mem _ member)
      · simp only [EngineState.apply, Function.update_of_ne same] at phase
        exact waiting other rest phase record member
  | release call pending =>
      intro other rest phase record member
      by_cases same : other = call
      · simp only [EngineState.release, same, Function.update_self,
          reduceCtorEq] at phase
      · simp only [EngineState.release, Function.update_of_ne same] at phase
        exact waiting other rest phase record member
  | flush call own guard taken => exact waiting
  | beginFlush call idle unused noShared noExclusive => exact waiting
  | beginTruncate call flushing returned => exact waiting
  | removeFile call inFile truncating => exact waiting
  | endFlush call truncating empty => exact waiting

theorem orderly_of_inOrder
    {wal : WalConfig} {engine : WalEngine} {start s : EngineState}
    (waiting : start.WaitingReadsBack)
    (run : Reaches (EngineStep jsonLen) (InOrder wal engine) start s) :
    Reaches (FlushStep jsonLen) FlushState.Orderly start.flushes
      s.flushes := by
  refine flushes_reached ?_ (fun _ _ meets => meets.2.2.1)
    (run.within WaitingReadsBack waiting
      fun _ _ _ waiting meets taken => waiting.step meets.2.2 taken)
  intro state action meets call record rest pending step writes
  have readsBack := (meets.1 call _ pending record
    List.mem_cons_self).action writes
  cases entry : record.entry with
  | put key value timestamp =>
      rw [entry] at writes
      cases writes
      exact ⟨trivial, trivial, readsBack⟩
  | delete key timestamp =>
      rw [entry] at writes
      cases writes
      exact ⟨trivial, trivial, readsBack⟩
  | flush memtableId timestamp =>
      rw [entry] at writes
      cases writes
  | checkpoint timestamp =>
      rw [entry] at writes
      cases writes

/-! ## Replaying the whole log -/

def recordsOf (records : List LogRecord) (key : String) : List LogRecord :=
  records.filter fun record => record.entry.writesKey key

theorem key?_eq_some
    {record : LogRecord} {key : String}
    (writes : record.entry.writesKey key = true) :
    record.key? = some key := by
  rw [WALEntry.writesKey] at writes
  rw [LogRecord.key?]
  cases write : record.entry.write? with
  | none => simp [write] at writes
  | some item =>
      simp only [write, decide_eq_true_eq] at writes
      rw [Option.map_some, writes]

theorem sameKey_of_mem
    {records records' : List LogRecord} {key : String}
    {first second : LogRecord} (firstMember : first ∈ recordsOf records key)
    (secondMember : second ∈ recordsOf records' key) :
    first.SameKey second :=
  (key?_eq_some (List.mem_filter.mp firstMember).2).trans
    (key?_eq_some (List.mem_filter.mp secondMember).2).symm

/-- Once all writers are done, each key has reached the memtables in the order
of the log. -/
theorem Ordered.recordsOf_eq
    {s : EngineState} (ordered : s.Ordered base)
    (done : ∀ call, s.writers call = .idle ∨ s.writers call = .applied)
    (key : String) :
    recordsOf s.appliedRecords key = recordsOf s.log key := by
  have applied : (recordsOf s.appliedRecords key).Pairwise
      fun first second => first.number < second.number := by
    refine (ordered.inOrder.sublist List.filter_sublist).imp_of_mem ?_
    intro first second firstMember secondMember less
    exact less (sameKey_of_mem firstMember secondMember)
  have logged : (recordsOf s.log key).Pairwise
      fun first second => first.number < second.number := by
    refine List.Pairwise.sublist List.filter_sublist ?_
    rw [ordered.numbered, List.pairwise_iff_getElem]
    intro i j iBound jBound less
    rw [List.getElem_mapIdx, List.getElem_mapIdx]
    exact less
  have antisymm : Std.Antisymm
      fun first second : LogRecord => first.number < second.number :=
    ⟨fun _ _ less more => absurd less more.not_gt⟩
  have irrefl : Std.Irrefl
      fun first second : LogRecord => first.number < second.number :=
    ⟨fun _ => lt_irrefl _⟩
  apply List.Pairwise.eq_of_mem_iff applied logged
  intro record
  rw [recordsOf, recordsOf, List.mem_filter, List.mem_filter]
  apply and_congr_left
  intro _
  constructor
  · exact ordered.reached record
  · intro member
    rcases ordered.covered record member with reached | ⟨call, rest, phase, -⟩
    · exact reached
    · rcases done call with idle | finished
      · rw [idle] at phase
        exact absurd phase (by simp)
      · rw [finished] at phase
        exact absurd phase (by simp)

theorem Ordered.entries_eq
    {s : EngineState} (ordered : s.Ordered base)
    (done : ∀ call, s.writers call = .idle ∨ s.writers call = .applied)
    (key : String) :
    (s.applied.map fun reached => reached.2.entry).filter
        (WALEntry.writesKey key) =
      (s.log.map (·.entry)).filter (WALEntry.writesKey key) := by
  have same := congrArg (List.map (·.entry)) (ordered.recordsOf_eq done key)
  rw [recordsOf, recordsOf, appliedRecords, List.filter_map, List.map_map]
    at same
  rw [List.filter_map, List.filter_map]
  exact same

/-- Recovery takes the last record of a key. -/
theorem Ordered.newest_replayable
    {s : EngineState} (ordered : s.Ordered base) (key : String) :
    newest WALEntry.stamp (replayable (s.log.map (·.entry)) key) =
      ((s.log.map (·.entry)).filter (WALEntry.writesKey key)).getLast? := by
  have past : ∀ entry,
      pastCheckpoints (s.log.map (·.entry)) entry = true := by
    intro entry
    rw [pastCheckpoints_eq_true_iff]
    intro other member checkpoint isCheckpoint
    obtain ⟨record, inLog, rfl⟩ := List.mem_map.mp member
    have writes := ordered.writes record inLog
    cases kind : record.entry with
    | checkpoint timestamp =>
        rw [kind] at writes
        exact absurd rfl writes
    | _ => simp [kind, WALEntry.checkpoint?] at isCheckpoint
  have sorted : Nondecreasing WALEntry.stamp
      ((s.log.map (·.entry)).filter (WALEntry.writesKey key)) := by
    rw [List.filter_map, Nondecreasing, List.pairwise_map]
    refine (ordered.stamped.sublist List.filter_sublist).imp_of_mem ?_
    intro first second firstMember secondMember stamps
    have firstOf : first ∈ recordsOf s.log key := firstMember
    have secondOf : second ∈ recordsOf s.log key := secondMember
    exact stamps (sameKey_of_mem firstOf secondOf)
  rw [replayable]
  simp only [past, Bool.true_and]
  rw [← getLast?_sortByStamp, sortByStamp_eq_self sorted]

end EngineState

open EngineState

/-- In every run in which no record is overtaken, the clock does not run
backwards for a key, flushes are orderly, and the log and the tables keep
every record: once everything is acknowledged, each key has reached the
memtables in the order of the log, and recovery gives every read the value
that it had. -/
theorem replay_restores_reads
    (config : CompactionConfig) (wal : WalConfig) (engine : WalEngine)
    {levels : Nat → List SSTable} {sequence : Nat} {s : EngineState}
    (invariant : LsmTree.Invariant config ⟨.new, [], levels, sequence⟩)
    (readsBack : LsmTree.ReadsBack ⟨.new, [], levels, sequence⟩)
    (read : 0 < config.levelCount)
    (run : Reaches (EngineStep config.jsonLen) (InOrder wal engine)
      (opened levels sequence
        (LsmTree.get config.levelCount ⟨.new, [], levels, sequence⟩)) s)
    (all : s.AllAcknowledged) (key : String) :
    recordsOf s.appliedRecords key = recordsOf s.log key ∧
      (s.recovered config.jsonLen).getChecked config.levelCount key =
        s.flushes.tree.getChecked config.levelCount key := by
  have ordered := run.invariant
    (Ordered (LsmTree.get config.levelCount ⟨.new, [], levels, sequence⟩))
    (opened_ordered levels sequence)
    fun _ _ _ ordered meets taken => ordered.step meets.1 taken
  have waiting : (opened levels sequence (LsmTree.get config.levelCount
      ⟨.new, [], levels, sequence⟩)).WaitingReadsBack :=
    fun _ _ phase => absurd phase (by simp [opened])
  have orderly := orderly_of_inOrder waiting run
  have tracked := (FlushState.numbered_of_orderly orderly).tracked
  have tables := (FlushState.readsBack_of_orderly Memtable.new_readsBack
    orderly).tables tracked (FlushState.recorded_of_reaches orderly)
      readsBack.tables
  have before := FlushState.getChecked_eq_expected invariant readsBack read
    orderly all.2 key
  have empty := (tracked.flushedOnce.finished all.2).1
  refine ⟨ordered.recordsOf_eq all.1 key, ?_⟩
  rw [before, LsmTree.getChecked_eq tables, recovered, get_replayed,
    ordered.newest_replayable, ordered.values, written, lastWrite_writesOf,
    ordered.entries_eq all.1 key]
  cases last : ((s.log.map (·.entry)).filter
      (WALEntry.writesKey key)).getLast? with
  | some entry =>
      have writes := (List.mem_filter.mp (List.mem_of_getLast? last)).2
      rw [WALEntry.writesKey] at writes
      cases write : entry.write? with
      | none => simp [write] at writes
      | some item => simp [WALEntry.effect, write]
  | none =>
      have unwritten : lastWrite s.written key = none := by
        rw [written, lastWrite_writesOf, ordered.entries_eq all.1 key, last]
        rfl
      have notHeld : s.flushes.active.data[key]? = none := by
        by_contra holds
        exact ordered.held key holds unwritten
      rw [LsmTree.getChecked_eq tables, ordered.values, unwritten,
        LsmTree.get_eq, FlushState.tree, empty, List.map_nil,
        memtableValue_cons, notHeld] at before
      exact before

/-! ## Two writers of one key -/

/-- A put that is logged at second 5. -/
def putCall : WalCall := .writeOperation "k" (.bool true) 5

/-- A deletion that is logged at second 6. -/
def deleteCall : WalCall := .writeDelete "k" 6

theorem putCall_recorded :
    putCall.Recorded WalHandle.smallConfig .segment where
  admissible := by
    intro entry member
    rw [List.mem_singleton.mp member]
    exact ⟨by decide, by decide, rfl⟩
  readsBack := by
    intro entry member item writes
    rw [List.mem_singleton.mp member] at writes
    cases writes
    exact ⟨rfl, by decide⟩

theorem deleteCall_recorded :
    deleteCall.Recorded WalHandle.smallConfig .segment where
  admissible := by
    intro entry member
    rw [List.mem_singleton.mp member]
    exact ⟨by decide, by decide, rfl⟩
  readsBack := by
    intro entry member item writes
    rw [List.mem_singleton.mp member] at writes
    cases writes
    exact ⟨rfl, by decide⟩

def freshEngine : EngineState :=
  opened (fun _ => []) 1 (LsmTree.empty.get 7)

def putRecord : LogRecord := ⟨0, .put "k" (.bool true) 5⟩

def deleteRecord : LogRecord := ⟨1, .delete "k" 6⟩

/-- The put is done before the deletion is logged. -/
def oneByOne : EngineState :=
  ((((((freshEngine.writeLog 1 putCall).apply leveledConfig.jsonLen 1
    putRecord []).release 1).writeLog 2 deleteCall).apply
      leveledConfig.jsonLen 2 deleteRecord []).release 2)

/-- The deletion passes the put between the log and the memtable. -/
def overtaken : EngineState :=
  ((((((freshEngine.writeLog 1 putCall).writeLog 2 deleteCall).apply
    leveledConfig.jsonLen 2 deleteRecord []).release 2).apply
      leveledConfig.jsonLen 1 putRecord []).release 1)

theorem freshEngine_free (phases : Nat → FlusherCall)
    (idle : ∀ call, phases call = .idle) :
    ¬ ∃ call, phases call = .flushing ∨ phases call = .truncating := by
  intro held
  obtain ⟨call, phase | phase⟩ := held <;>
    exact absurd ((idle call).symm.trans phase) (by simp)

theorem notOvertaken_alone
    {s : EngineState} {call : Nat} {record : LogRecord}
    {rest : List LogRecord} (phase : s.writers call = .logged (record :: rest))
    (sorted : ∀ later ∈ rest, record.number ≤ later.number)
    (alone : ∀ other ≠ call,
      s.writers other = .idle ∨ s.writers other = .applied) :
    s.InOrder WalHandle.smallConfig .segment (.apply call) := by
  refine ⟨?_, trivial, trivial⟩
  intro record' rest' found other pending otherPhase earlier member _
  by_cases same : other = call
  · rw [same, phase] at otherPhase
    rw [phase, WriterCall.logged.injEq, List.cons.injEq] at found
    rw [WriterCall.logged.injEq] at otherPhase
    rw [← otherPhase] at member
    rw [← found.1]
    rcases List.mem_cons.mp member with here | behind
    · rw [here]
    · exact sorted earlier behind
  · rcases alone other same with phase' | phase' <;>
      exact absurd (phase'.symm.trans otherPhase) (by simp)

theorem oneByOne_reached :
    Reaches (EngineStep leveledConfig.jsonLen)
      (InOrder WalHandle.smallConfig .segment) freshEngine oneByOne := by
  have free : ¬ freshEngine.ExclusiveHeld :=
    freshEngine_free _ fun _ => rfl
  have nothingLogged : freshEngine.InOrder WalHandle.smallConfig .segment
      (.log 1 putCall) :=
    ⟨fun old member => absurd member List.not_mem_nil, trivial,
      putCall_recorded⟩
  have put : Reaches (EngineStep leveledConfig.jsonLen)
      (InOrder WalHandle.smallConfig .segment) freshEngine
      (((freshEngine.writeLog 1 putCall).apply leveledConfig.jsonLen 1
        putRecord []).release 1) :=
    ((Reaches.start freshEngine).next (.log 1 putCall)
    nothingLogged (.log 1 putCall rfl free)).next
    (.apply 1) (notOvertaken_alone rfl (by simp) fun other different => by
      match other with
      | 0 => exact Or.inl rfl
      | 1 => exact absurd rfl different
      | other + 2 => exact Or.inl rfl) (.apply 1 rfl) |>.next
    (.release 1) ⟨trivial, trivial, trivial⟩ (.release 1 rfl)
  refine ((put.next (.log 2 deleteCall) ⟨?_, trivial, deleteCall_recorded⟩
    (.log 2 deleteCall rfl free)).next
    (.apply 2) (notOvertaken_alone rfl (by simp) fun other different => by
      match other with
      | 0 => exact Or.inl rfl
      | 1 => exact Or.inr rfl
      | 2 => exact absurd rfl different
      | other + 3 => exact Or.inl rfl) (.apply 2 rfl)).next
    (.release 2) ⟨trivial, trivial, trivial⟩ (.release 2 rfl)
  intro old member entry new _
  have isPut : old = putRecord := List.mem_singleton.mp member
  have isDelete : entry = .delete "k" 6 := List.mem_singleton.mp new
  rw [isPut, isDelete]
  decide

theorem allAcknowledged_of
    {s : EngineState}
    (first : s.writers 1 = .applied) (second : s.writers 2 = .applied)
    (others : ∀ call, s.writers 0 = .idle ∧ s.writers (call + 3) = .idle)
    (flushes : ∀ call, s.flushes.calls call = .idle) :
    s.AllAcknowledged := by
  refine ⟨fun call => ?_, fun call => Or.inl (flushes call)⟩
  match call with
  | 0 => exact Or.inl (others 0).1
  | 1 => exact Or.inr first
  | 2 => exact Or.inr second
  | call + 3 => exact Or.inl (others call).2

theorem oneByOne_recovered :
    (oneByOne.recovered leveledConfig.jsonLen).getChecked 7 "k" =
      oneByOne.flushes.tree.getChecked 7 "k" :=
  (replay_restores_reads leveledConfig WalHandle.smallConfig .segment
    (LsmTree.empty_invariant leveledConfig) LsmTree.empty_readsBack
    (by decide) oneByOne_reached
    (allAcknowledged_of rfl rfl (fun _ => ⟨rfl, rfl⟩) fun _ => rfl) "k").2

/-- Readers saw the put, and after a crash the key is gone. -/
theorem overtaken_recovered :
    Reaches (EngineStep leveledConfig.jsonLen) (fun _ _ => True)
      freshEngine overtaken ∧ overtaken.AllAcknowledged ∧
      overtaken.flushes.tree.getChecked 7 "k" = some (.bool true) ∧
      (overtaken.recovered leveledConfig.jsonLen).getChecked 7 "k" =
        none := by
  have free : ¬ freshEngine.ExclusiveHeld :=
    freshEngine_free _ fun _ => rfl
  refine ⟨?_, allAcknowledged_of rfl rfl (fun _ => ⟨rfl, rfl⟩) fun _ => rfl,
    rfl, rfl⟩
  exact ((((((Reaches.start freshEngine).next (.log 1 putCall) trivial
    (.log 1 putCall rfl free)).next
    (.log 2 deleteCall) trivial (.log 2 deleteCall rfl free)).next
    (.apply 2) trivial (.apply 2 rfl)).next
    (.release 2) trivial (.release 2 rfl)).next
    (.apply 1) trivial (.apply 1 rfl)).next
    (.release 1) trivial (.release 1 rfl)

end F4kvsLsm
