import F4kvsLsm.Compaction.Preserved

/-!
# Reading your writes

A flush that fails leaves its memtable in the list of immutable memtables for
good, and readers ask that list from the oldest memtable on and before the
tables.  After a history of puts, deletes and flushes the reads are therefore
right exactly when the oldest parked memtable that holds a key is up to date.
-/

namespace F4kvsLsm

open Versions

/-! ## The other reads -/

/-- `exists` -/
def LsmTree.existsKey (levelCount : Nat) (tree : LsmTree) (key : String) :
    Bool :=
  match getFromMemtables (tree.active :: tree.immutables) key with
  | .found _ => true
  | .tombstone => false
  | .missing => (getFromSstables levelCount tree.levels key).isSome

theorem LsmTree.existsKey_eq
    (levelCount : Nat) (tree : LsmTree) (key : String) :
    tree.existsKey levelCount key = (tree.get levelCount key).isSome := by
  rw [existsKey, get]
  cases getFromMemtables (tree.active :: tree.immutables) key <;> rfl

/-! ## Histories -/

/-- A state together with what the operations so far say about each key.  The
engine was opened with empty memtables, every record of a table can be read
back, and the compactions that follow a flush meet their own conditions.  The
flush that a write causes is a step of its own. -/
inductive History (config : CompactionConfig) :
    LsmTree → (String → Option Value) → Prop
  | opened {levels : Nat → List SSTable} {sequence : Nat} :
      LsmTree.Invariant config ⟨.new, [], levels, sequence⟩ →
      (∀ level, ∀ table ∈ levels level, table.ReadsBack) →
      History config ⟨.new, [], levels, sequence⟩
        (getFromSstables config.levelCount levels)
  | put {tree : LsmTree} {expected : String → Option Value}
      (key : String) (value : Value) :
      History config tree expected → ReadsBack key value →
      History config (tree.put config.jsonLen key value)
        (Function.update expected key value.visible)
  | delete {tree : LsmTree} {expected : String → Option Value}
      (key : String) :
      History config tree expected → ReadsBack key .null →
      History config (tree.delete config.jsonLen key)
        (Function.update expected key none)
  | flush {tree : LsmTree} {expected : String → Option Value}
      (existing : List SstableName) (info : TableInfo)
      (outcome : FlushOutcome) :
      History config tree expected →
      History config (tree.flushMemtableInternal existing info outcome).1
        expected
  | compactIfNeeded {tree : LsmTree} {expected : String → Option Value}
      (order : List Nat) (output : OutputFiles) :
      History config tree expected →
      FreshNames config order output tree → MergesEnd config order tree →
      KeepsDeletions config order tree →
      History config { tree with
        levels := F4kvsLsm.compactIfNeeded config order output tree.levels }
        expected

/-- A key that the active memtable does not hold reads right in the oldest
parked memtable that holds it.  Without levels no table is ever read. -/
def ParkedUpToDate (config : CompactionConfig) (tree : LsmTree)
    (expected : String → Option Value) : Prop :=
  ∀ key, tree.active.data[key]? = none →
    (∀ value, memtableValue tree.immutables key = some value →
      value.visible = expected key) ∧
    (memtableValue tree.immutables key = none → config.levelCount = 0 →
      expected key = none)

/-! ## What a history keeps -/

/-- The active memtable and the tables are up to date. -/
structure UpToDate (config : CompactionConfig) (tree : LsmTree)
    (expected : String → Option Value) : Prop where
  invariant : tree.Invariant config
  active : ∀ key value, tree.active.data[key]? = some value →
    value.visible = expected key
  tables : 0 < config.levelCount → ∀ key,
    memtableValue (tree.active :: tree.immutables) key = none →
      getFromSstables config.levelCount tree.levels key = expected key

theorem memtableValue_cons
    (memtable : Memtable) (memtables : List Memtable) (key : String) :
    memtableValue (memtable :: memtables) key =
      (memtable.data[key]?).or (memtableValue memtables key) := by
  rw [memtableValue, List.findSome?_cons]
  cases memtable.data[key]? <;> rfl

theorem memtableValue_cons_eq_none_iff
    {memtable : Memtable} {memtables : List Memtable} {key : String} :
    memtableValue (memtable :: memtables) key = none ↔
      memtable.data[key]? = none ∧ memtableValue memtables key = none := by
  simp [memtableValue]

theorem memtableValue_append_eq_none_iff
    {front back : List Memtable} {key : String} :
    memtableValue (front ++ back) key = none ↔
      memtableValue front key = none ∧ memtableValue back key = none := by
  rw [memtableValue, memtableValue, memtableValue, List.findSome?_append,
    Option.or_eq_none_iff]

theorem Memtable.get_of_entryCount
    {memtable : Memtable} (empty : ¬ memtable.entryCount > 0)
    (key : String) : memtable.data[key]? = none := by
  have size : memtable.data.size = 0 := by
    rw [← memtable.counted]
    omega
  refine Std.TreeMap.getElem?_of_isEmpty ?_
  rw [Std.TreeMap.isEmpty_eq_size_eq_zero, size]
  rfl

section

variable {config : CompactionConfig} {tree : LsmTree}
variable {expected : String → Option Value}

theorem LsmTree.Invariant.getFromSstables_publish
    (invariant : tree.Invariant config) (levels : 0 < config.levelCount)
    (existing : List SstableName) (info : TableInfo) {key : String}
    {value : Value} (found : tree.active.data[key]? = some value) :
    getFromSstables config.levelCount
      (LsmTree.publish tree.levels (LsmTree.flushedTable existing info tree)) key =
        value.visible := by
  have nonempty : tree.active.entryCount > 0 := by
    by_contra empty
    rw [Memtable.get_of_entryCount empty] at found
    exact absurd found (by simp)
  have after := invariant.publish existing info nonempty
  have written : ∃ entry ∈ (LsmTree.flushedTable existing info tree).entries,
      entry.key = key ∧ entry.value = value :=
    LsmTree.exists_mem_flushedTable found
  obtain ⟨entry, member, rfl, rfl⟩ := written
  obtain ⟨-, deleted, above, -⟩ := LsmTree.mem_flushedTable member
  have newestHere : latest (allEntries
      (LsmTree.publish tree.levels (LsmTree.flushedTable existing info tree) 0))
        entry.key = some entry := by
    refine (latest_eq_some_iff after.distinct).mpr
      ⟨⟨mem_allEntries_publish.mpr (Or.inr member), rfl⟩, ?_⟩
    intro other otherMember sameKey
    rcases mem_allEntries_publish.mp otherMember with old | new
    · exact ((invariant.stamped0 old).trans above).le
    · have whole : (LsmTree.flushedTable existing info tree).WellFormed :=
        LsmTree.flushedTable_wellFormed nonempty
      rw [whole.eq_of_key_eq new member sameKey]
  have count : config.levelCount = config.levelCount - 1 + 1 := by omega
  have read := after.getFromSstables_eq count entry.key
  simp only at read
  rw [read, newestHere, Option.some_or, Option.bind_some,
    SSTableEntry.visible, Value.visible, deleted]

/-- A key that the flushed memtable does not hold is read as before. -/
theorem LsmTree.Invariant.getFromSstables_publish_other
    (invariant : tree.Invariant config)
    (existing : List SstableName) (info : TableInfo)
    (nonempty : tree.active.entryCount > 0) {key : String}
    (other : tree.active.data[key]? = none) :
    getFromSstables config.levelCount
      (LsmTree.publish tree.levels (LsmTree.flushedTable existing info tree)) key =
        getFromSstables config.levelCount tree.levels key := by
  have after := invariant.publish existing info nonempty
  refine getFromSstables_congr fun level => ?_
  cases level with
  | zero =>
      rw [getFromLevel, getFromLevel,
        getFromLevel0_eq after.level0 after.distinct,
        getFromLevel0_eq invariant.level0 invariant.distinct]
      refine newest_congr (invariant.distinct.versionsOf key) fun entry => ?_
      rw [mem_versionsOf, mem_versionsOf]
      refine and_congr_left fun sameKey => ?_
      rw [mem_allEntries_publish]
      refine or_iff_left fun new => ?_
      rw [← sameKey, (LsmTree.mem_flushedTable new).1] at other
      exact absurd other (by simp)
  | succ level => rw [publish_succ]

theorem LsmTree.flushMemtableInternal_active
    (existing : List SstableName) (info : TableInfo)
    (outcome : FlushOutcome) (tree : LsmTree) :
    (tree.flushMemtableInternal existing info outcome).1.active = .new := by
  unfold flushMemtableInternal
  split
  · cases outcome <;> rfl
  · rfl

theorem UpToDate.put
    (upToDate : UpToDate config tree expected) (key : String)
    (value : Value) :
    UpToDate config (tree.put config.jsonLen key value)
      (Function.update expected key value.visible) := by
  constructor
  case invariant => exact upToDate.invariant.advance _ _ le_rfl
  case active =>
    intro other held found
    rw [LsmTree.put, Memtable.put_get] at found
    by_cases same : key = other
    · subst same
      rw [if_pos rfl, Option.some.injEq] at found
      rw [Function.update_self, found]
    · rw [if_neg same] at found
      rw [Function.update_of_ne (Ne.symm same)]
      exact upToDate.active other held found
  case tables =>
    intro levels other missing
    rw [LsmTree.put, memtableValue_cons_eq_none_iff, Memtable.put_get]
      at missing
    obtain ⟨notHere, notParked⟩ := missing
    split at notHere
    · exact absurd notHere (by simp)
    · case isFalse different =>
        rw [Function.update_of_ne (Ne.symm different)]
        exact upToDate.tables levels other
          (memtableValue_cons_eq_none_iff.mpr ⟨notHere, notParked⟩)

/-- A deletion leaves in the memtable what a put of `Null` leaves. -/
theorem UpToDate.delete
    (upToDate : UpToDate config tree expected) (key : String) :
    UpToDate config (tree.delete config.jsonLen key)
      (Function.update expected key none) := by
  have null := upToDate.put key .null
  constructor
  case invariant => exact upToDate.invariant.advance _ _ le_rfl
  case active =>
    intro other held found
    refine null.active other held ?_
    rw [LsmTree.put, Memtable.put_get]
    rwa [LsmTree.delete, Memtable.delete_get] at found
  case tables =>
    intro levels other missing
    refine null.tables levels other ?_
    rw [LsmTree.put, memtableValue_cons_eq_none_iff, Memtable.put_get]
    rwa [LsmTree.delete, memtableValue_cons_eq_none_iff, Memtable.delete_get]
      at missing

theorem UpToDate.flush
    (upToDate : UpToDate config tree expected)
    (existing : List SstableName) (info : TableInfo)
    (outcome : FlushOutcome) :
    UpToDate config (tree.flushMemtableInternal existing info outcome).1
      expected := by
  have invariant := upToDate.invariant.flush existing info outcome
  refine ⟨invariant, ?_, ?_⟩
  · intro key value found
    rw [LsmTree.flushMemtableInternal_active, Memtable.new_get] at found
    exact absurd found (by simp)
  · intro levels key missing
    unfold LsmTree.flushMemtableInternal at missing ⊢
    split
    · case isTrue nonempty =>
        rw [if_pos nonempty] at missing
        cases outcome with
        | done =>
            have notParked :=
              (memtableValue_cons_eq_none_iff.mp missing).2
            cases here : tree.active.data[key]? with
            | some value =>
                rw [← upToDate.active key value here]
                exact upToDate.invariant.getFromSstables_publish levels
                  existing info here
            | none =>
                rw [← upToDate.tables levels key
                  (memtableValue_cons_eq_none_iff.mpr ⟨here, notParked⟩)]
                exact upToDate.invariant.getFromSstables_publish_other
                  existing info nonempty here
        | failedWriting | failedOpening =>
            simp only at missing ⊢
            rw [memtableValue_cons_eq_none_iff,
              memtableValue_append_eq_none_iff,
              memtableValue_cons_eq_none_iff] at missing
            exact upToDate.tables levels key
              (memtableValue_cons_eq_none_iff.mpr
                ⟨missing.2.2.1, missing.2.1⟩)
    · case isFalse empty =>
        rw [if_neg empty, memtableValue_cons_eq_none_iff] at missing
        exact upToDate.tables levels key (memtableValue_cons_eq_none_iff.mpr
          ⟨Memtable.get_of_entryCount empty key, missing.2⟩)

theorem UpToDate.compactIfNeeded
    (upToDate : UpToDate config tree expected) {order : List Nat}
    {output : OutputFiles} (fresh : FreshNames config order output tree)
    (mergesEnd : MergesEnd config order tree)
    (keeps : KeepsDeletions config order tree) :
    UpToDate config { tree with
      levels := F4kvsLsm.compactIfNeeded config order output tree.levels }
      expected := by
  have unchanged :=
    (upToDate.invariant.compactIfNeeded_reads_iff fresh mergesEnd).mpr keeps
  refine ⟨upToDate.invariant.compactIfNeeded fresh mergesEnd,
    upToDate.active, ?_⟩
  intro levels key missing
  have read := unchanged key
  rw [LsmTree.get_eq, LsmTree.get_eq] at read
  simp only at missing
  simp only [missing] at read
  rw [read]
  exact upToDate.tables levels key missing

theorem History.upToDate (history : History config tree expected) :
    UpToDate config tree expected := by
  induction history with
  | opened invariant _ =>
      refine ⟨invariant, ?_, fun _ _ _ => rfl⟩
      intro key value found
      simp at found
  | put key value _ _ inductionHypothesis =>
      exact inductionHypothesis.put key value
  | delete key _ _ inductionHypothesis => exact inductionHypothesis.delete key
  | flush existing info outcome _ inductionHypothesis =>
      exact inductionHypothesis.flush existing info outcome
  | compactIfNeeded order output _ fresh mergesEnd keeps
      inductionHypothesis =>
      exact inductionHypothesis.compactIfNeeded fresh mergesEnd keeps

theorem History.readsBack (history : History config tree expected) :
    tree.ReadsBack := by
  induction history with
  | opened _ readsBack =>
      exact ⟨List.forall_mem_singleton.mpr Memtable.new_readsBack, readsBack⟩
  | put key value _ written inductionHypothesis =>
      exact inductionHypothesis.put written _
  | delete key _ written inductionHypothesis =>
      exact inductionHypothesis.delete written _
  | flush existing info outcome _ inductionHypothesis =>
      exact inductionHypothesis.flush existing info outcome
  | compactIfNeeded order output _ _ _ _ inductionHypothesis =>
      exact inductionHypothesis.compactIfNeeded

theorem getFromSstables_of_levelCount_zero
    (levels : Nat → List SSTable) (key : String) :
    getFromSstables 0 levels key = none := rfl

theorem UpToDate.get_eq_iff
    (upToDate : UpToDate config tree expected) (key : String) :
    tree.get config.levelCount key = expected key ↔
      (tree.active.data[key]? = none →
        (∀ value, memtableValue tree.immutables key = some value →
          value.visible = expected key) ∧
        (memtableValue tree.immutables key = none → config.levelCount = 0 →
          expected key = none)) := by
  rw [LsmTree.get_eq, memtableValue, List.findSome?_cons]
  cases here : tree.active.data[key]? with
  | some value => simp [upToDate.active key value here]
  | none =>
      rw [← memtableValue]
      cases parked : memtableValue tree.immutables key with
      | some value => simp
      | none =>
          have missing :=
            memtableValue_cons_eq_none_iff.mpr ⟨here, parked⟩
          simp only [reduceCtorEq, false_implies, implies_true, true_and,
            true_implies]
          rcases Nat.eq_zero_or_pos config.levelCount with zero | levels
          · rw [zero, getFromSstables_of_levelCount_zero]
            simp only [true_implies]
            exact eq_comm
          · simp only [upToDate.tables levels key missing, true_iff]
            omega

/-- After any history of writes and flushes, failed or not, every read returns
what was last written exactly when the parked memtables are up to date. -/
theorem reads_last_write_iff (history : History config tree expected) :
    (∀ key, tree.getChecked config.levelCount key = expected key ∧
      tree.existsChecked config.levelCount key = (expected key).isSome ∧
      tree.tryGetSyncChecked config.levelCount key = .ok (expected key)) ↔
        ParkedUpToDate config tree expected := by
  have upToDate := history.upToDate
  have readsBack := history.readsBack.tables
  rw [ParkedUpToDate]
  refine forall_congr' fun key => ?_
  rw [← upToDate.get_eq_iff key, LsmTree.getChecked_eq readsBack,
    LsmTree.existsChecked_eq readsBack,
    LsmTree.tryGetSyncChecked_eq readsBack]
  constructor
  · exact fun reads => reads.1
  · intro read
    rw [read]
    exact ⟨rfl, rfl, rfl⟩

end

/-! ## A deletion behind a parked memtable -/

/-- The flush of a put fails. -/
def parkedTree : LsmTree :=
  ((putTrue LsmTree.empty "k").flushMemtableInternal [] smallTable
    .failedWriting).1

theorem parkedTree_history :
    History leveledConfig parkedTree
      (Function.update (getFromSstables 7 fun _ => []) "k"
        (some (.bool true))) :=
  ((History.opened (LsmTree.empty_invariant leveledConfig)
    LsmTree.empty_readsBack.tables).put "k" (.bool true)
      ⟨rfl, by decide⟩).flush [] _ .failedWriting

/-- Nothing has been written since the flush failed, so reads are right. -/
theorem parkedTree_reads_last_write :
    parkedTree.getChecked 7 "k" = some (.bool true) := by
  refine ((reads_last_write_iff parkedTree_history).mpr ?_ "k").1
  intro key _
  refine ⟨?_, fun _ none => absurd none (by decide)⟩
  intro value parked
  have one : parkedTree.immutables = [(putTrue LsmTree.empty "k").active] :=
    rfl
  rw [one, memtableValue, List.findSome?_singleton, putTrue, LsmTree.put,
    LsmTree.empty, Memtable.put_get, Memtable.new_get] at parked
  by_cases same : "k" = key
  · subst same
    rw [if_pos rfl, Option.some.injEq] at parked
    rw [← parked, Function.update_self]
    rfl
  · rw [if_neg same] at parked
    exact absurd parked (by simp)

/-- The deletion is flushed, and the parked memtable shows the key again. -/
theorem parked_put_hides_deletion :
    ∃ expected,
      History leveledConfig
        (flushed (parkedTree.delete leveledConfig.jsonLen "k")) expected ∧
      expected "k" = none ∧
      (flushed (parkedTree.delete leveledConfig.jsonLen "k")).getChecked 7
        "k" = some (.bool true) :=
  ⟨_, (parkedTree_history.delete "k" ⟨rfl, by decide⟩).flush [] _ .done, rfl,
    rfl⟩

end F4kvsLsm
