import F4kvsLsm.Lib.LiveCount
import F4kvsLsm.Compaction.Manual

/-!
# The live key count

The counter is moved by what a put found in the active memtable, with a look
into the tables when it found nothing, and by what a deletion finds anywhere.
A put of `Null` is counted like any other put although it leaves no value, so
the counter is ahead by the number of these.
-/

namespace F4kvsLsm

open LiveCount

inductive PutEffect where
  | inserted
  | updatedLive
  | resurrected
  deriving DecidableEq, Repr

def Memtable.putEffect (m : Memtable) (key : String) : PutEffect :=
  match m.data[key]? with
  | none => .inserted
  | some .null => .resurrected
  | some _ => .updatedLive

/-- The engine with its counter, which no run brings near the bounds of its
type. -/
structure CountedTree where
  tree : LsmTree
  liveKeyCount : Int

/-- By how much `apply_put_key_count` moves the counter. -/
def applyPutKeyCount (bulkImport : Bool) (levelCount : Nat)
    (levels : Nat → List SSTable) (key : String) (effect : PutEffect) : Int :=
  match effect with
  | .updatedLive => 0
  | .resurrected => 1
  | .inserted =>
      if bulkImport then 1
      else if (getFromSstables levelCount levels key).isSome then 0
      else 1

/-- By how much `batch_apply_put_key_counts` moves the counter. -/
def batchApplyPutKeyCounts (bulkImport : Bool) (levelCount : Nat)
    (levels : Nat → List SSTable) (effects : List (String × PutEffect)) :
    Int :=
  if bulkImport then
    (effects.map fun effect =>
      match effect.2 with
      | .inserted | .resurrected => (1 : Int)
      | .updatedLive => 0).sum
  else
    (effects.map fun effect =>
      applyPutKeyCount bulkImport levelCount levels effect.1 effect.2).sum

/-- Put the items of a batch one by one and keep their effects. -/
def Memtable.batchPut (jsonLen : SerdeJsonValue → Nat) :
    Memtable → List (String × Value) → Memtable × List (String × PutEffect)
  | m, [] => (m, [])
  | m, (key, value) :: rest =>
      let after := Memtable.batchPut jsonLen (m.put jsonLen key value) rest
      (after.1, (key, m.putEffect key) :: after.2)

namespace CountedTree

variable (config : CompactionConfig) (bulkImport : Bool)
variable (state : CountedTree)

def count : Int := state.liveKeyCount

def put (key : String) (value : Value) : CountedTree where
  tree := state.tree.put config.jsonLen key value
  liveKeyCount := state.liveKeyCount +
    applyPutKeyCount bulkImport config.levelCount state.tree.levels key
      (state.tree.active.putEffect key)

def delete (key : String) : CountedTree where
  tree := state.tree.delete config.jsonLen key
  liveKeyCount :=
    if state.tree.existsKey config.levelCount key then
      state.liveKeyCount - 1
    else state.liveKeyCount

/-- A batch that is too large is refused. -/
def batchPut (maxBatchSize : Nat) (items : List (String × Value)) :
    CountedTree :=
  if maxBatchSize < items.length then state
  else
    let written := state.tree.active.batchPut config.jsonLen items
    { tree := { state.tree with active := written.1 }
      liveKeyCount := state.liveKeyCount +
        batchApplyPutKeyCounts bulkImport config.levelCount
          state.tree.levels written.2 }

end CountedTree

/-- How many of the values are `Null`. -/
def nullPuts (items : List (String × Value)) : Nat :=
  items.countP (·.2.isNull)

/-- Runs of an engine that was empty, with the number of `Null` values put so
far.  Every record of a table can be read back.  The flush that a write causes
and the compaction after a flush are steps of their own; a compaction meets
its own conditions. -/
inductive CountRun (config : CompactionConfig) (maxBatchSize : Nat) :
    CountedTree → Nat → Prop
  | empty : CountRun config maxBatchSize ⟨LsmTree.empty, 0⟩ 0
  | put {state : CountedTree} {nulls : Nat} (key : String) (value : Value) :
      CountRun config maxBatchSize state nulls → ReadsBack key value →
      CountRun config maxBatchSize (state.put config false key value)
        (nulls + nullPuts [(key, value)])
  | delete {state : CountedTree} {nulls : Nat} (key : String) :
      CountRun config maxBatchSize state nulls → ReadsBack key .null →
      CountRun config maxBatchSize (state.delete config key) nulls
  | batchPut {state : CountedTree} {nulls : Nat}
      (items : List (String × Value)) :
      CountRun config maxBatchSize state nulls →
      (∀ item ∈ items, ReadsBack item.1 item.2) →
      CountRun config maxBatchSize
        (state.batchPut config false maxBatchSize items)
        (nulls + if maxBatchSize < items.length then 0 else nullPuts items)
  | flush {state : CountedTree} {nulls : Nat}
      (existing : List SstableName) (info : TableInfo) :
      CountRun config maxBatchSize state nulls →
      CountRun config maxBatchSize { state with
        tree := (state.tree.flushMemtableInternal existing info .done).1 }
        nulls
  | compactIfNeeded {state : CountedTree} {nulls : Nat} (order : List Nat)
      (output : OutputFiles) :
      CountRun config maxBatchSize state nulls →
      FreshNames config order output state.tree →
      MergesEnd config order state.tree →
      KeepsDeletions config order state.tree →
      CountRun config maxBatchSize { state with
        tree := { state.tree with
          levels := F4kvsLsm.compactIfNeeded config order output
            state.tree.levels } } nulls
  | compactAll {state : CountedTree} {nulls : Nat}
      (existing : List SstableName) (info : TableInfo)
      (output : OutputFiles) :
      CountRun config maxBatchSize state nulls →
      FreshOutputs config output
        (state.tree.flushMemtableInternal existing info .done).1.levels →
      CountRun config maxBatchSize { state with
        tree := (state.tree.compactAll config existing info .done
          output).1 } nulls

/-! ## What writes do to reads -/

section

variable {config : CompactionConfig} {tree : LsmTree}

theorem LsmTree.get_put (levelCount : Nat) (jsonLen : SerdeJsonValue → Nat)
    (tree : LsmTree) (key : String) (value : Value) :
    (tree.put jsonLen key value).get levelCount =
      Function.update (tree.get levelCount) key value.visible := by
  funext other
  rw [LsmTree.get_eq, memtableValue_cons, LsmTree.put, Memtable.put_get]
  by_cases same : key = other
  · rw [if_pos same, ← same, Function.update_self]
    rfl
  · rw [if_neg same, Function.update_of_ne (Ne.symm same), LsmTree.get_eq,
      memtableValue_cons]

theorem LsmTree.get_delete (levelCount : Nat)
    (jsonLen : SerdeJsonValue → Nat) (tree : LsmTree) (key : String) :
    (tree.delete jsonLen key).get levelCount =
      Function.update (tree.get levelCount) key none := by
  funext other
  rw [LsmTree.get_eq, memtableValue_cons, LsmTree.delete,
    Memtable.delete_get]
  by_cases same : key = other
  · rw [if_pos same, ← same, Function.update_self]
    rfl
  · rw [if_neg same, Function.update_of_ne (Ne.symm same), LsmTree.get_eq,
      memtableValue_cons]

theorem LsmTree.empty_get (levelCount : Nat) (key : String) :
    LsmTree.empty.get levelCount key = none := by
  have noTable : ∀ level, getFromLevel level [] key = none := by
    intro level
    cases level <;> rfl
  rw [LsmTree.get_eq, memtableValue_cons, LsmTree.empty, Memtable.new_get]
  simp only [memtableValue, List.findSome?_nil, Option.or_none,
    getFromSstables, noTable, List.findSome?_eq_none_iff.mpr
      fun _ _ => Eq.refl none, Option.bind_none]

theorem applyPutKeyCount_eq (levelCount : Nat) (key : String)
    (noneParked : tree.immutables = []) :
    applyPutKeyCount false levelCount tree.levels key
        (tree.active.putEffect key) =
      1 - present (tree.get levelCount key) := by
  rw [LsmTree.get_eq, noneParked, memtableValue_cons, Memtable.putEffect]
  cases held : tree.active.data[key]? with
  | some value => cases value <;> rfl
  | none =>
      simp only [applyPutKeyCount, memtableValue, List.findSome?_nil,
        Option.or_none, Bool.false_eq_true, if_false]
      cases getFromSstables levelCount tree.levels key <;> rfl

theorem present_visible (value : Value) :
    present value.visible = if value.isNull then 0 else 1 := by
  cases value <;> rfl

end

/-! ## What every operation keeps -/

/-- The counter is ahead of the number of live keys by the number of `Null`
values, and no memtable is parked. -/
structure CountedAhead (config : CompactionConfig) (state : CountedTree)
    (nulls : Nat) : Prop where
  invariant : state.tree.Invariant config
  noneParked : state.tree.immutables = []
  counts : Counts (state.tree.get config.levelCount)
    (state.liveKeyCount - nulls)

section

variable {config : CompactionConfig} {state : CountedTree} {nulls : Nat}

theorem CountedAhead.put (ahead : CountedAhead config state nulls)
    (key : String) (value : Value) :
    CountedAhead config (state.put config false key value)
      (nulls + nullPuts [(key, value)]) := by
  constructor
  case invariant => exact ahead.invariant.advance _ _ le_rfl
  case noneParked => exact ahead.noneParked
  case counts =>
    have moved := ahead.counts.update key value.visible
    rw [present_visible] at moved
    simp only [CountedTree.put]
    rw [LsmTree.get_put, applyPutKeyCount_eq config.levelCount key
      ahead.noneParked]
    have same : state.liveKeyCount + (1 - present
          (state.tree.get config.levelCount key)) -
          ((nulls + nullPuts [(key, value)] : Nat) : Int) =
        state.liveKeyCount - nulls + (if value.isNull then 0 else 1) -
          present (state.tree.get config.levelCount key) := by
      cases isNull : value.isNull <;> simp [nullPuts, isNull] <;> omega
    rw [same]
    exact moved

theorem CountedAhead.delete (ahead : CountedAhead config state nulls)
    (key : String) :
    CountedAhead config (state.delete config key) nulls := by
  constructor
  case invariant => exact ahead.invariant.advance _ _ le_rfl
  case noneParked => exact ahead.noneParked
  case counts =>
    have moved := ahead.counts.update key none
    simp only [CountedTree.delete]
    rw [LsmTree.get_delete, LsmTree.existsKey_eq]
    have same : (if (state.tree.get config.levelCount key).isSome then
          state.liveKeyCount - 1 else state.liveKeyCount) - (nulls : Int) =
        state.liveKeyCount - nulls + present (none : Option Value) -
          present (state.tree.get config.levelCount key) := by
      unfold present
      cases state.tree.get config.levelCount key <;> simp
      omega
    rw [same]
    exact moved

theorem CountedAhead.puts (ahead : CountedAhead config state nulls)
    (items : List (String × Value)) :
    CountedAhead config
      { tree := { state.tree with
          active := (state.tree.active.batchPut config.jsonLen items).1 }
        liveKeyCount := state.liveKeyCount +
          batchApplyPutKeyCounts false config.levelCount state.tree.levels
            (state.tree.active.batchPut config.jsonLen items).2 }
      (nulls + nullPuts items) := by
  induction items generalizing state nulls with
  | nil =>
      simp only [Memtable.batchPut, batchApplyPutKeyCounts, nullPuts,
        List.map_nil, List.sum_nil, add_zero, List.countP_nil,
        Bool.false_eq_true, if_false]
      exact ahead
  | cons item rest inductionHypothesis =>
      rcases item with ⟨key, value⟩
      have behind := inductionHypothesis (ahead.put key value)
      have total : nulls + nullPuts ((key, value) :: rest) =
          nulls + nullPuts [(key, value)] + nullPuts rest := by
        simp only [nullPuts, List.countP_cons, List.countP_nil]
        omega
      rw [total]
      simp only [Memtable.batchPut, batchApplyPutKeyCounts, List.map_cons,
        List.sum_cons, Bool.false_eq_true, if_false, ← add_assoc]
      exact behind

theorem CountedAhead.batchPut (ahead : CountedAhead config state nulls)
    (maxBatchSize : Nat) (items : List (String × Value)) :
    CountedAhead config (state.batchPut config false maxBatchSize items)
      (nulls + if maxBatchSize < items.length then 0
        else nullPuts items) := by
  unfold CountedTree.batchPut
  split
  · exact ahead
  · exact ahead.puts items

theorem CountedAhead.of_get {tree : LsmTree}
    (ahead : CountedAhead config state nulls)
    (invariant : tree.Invariant config) (noneParked : tree.immutables = [])
    (same : ∀ key, tree.get config.levelCount key =
      state.tree.get config.levelCount key) :
    CountedAhead config { state with tree := tree } nulls :=
  ⟨invariant, noneParked, ahead.counts.congr same⟩

theorem CountedAhead.flush (ahead : CountedAhead config state nulls)
    (levels : 0 < config.levelCount) (existing : List SstableName)
    (info : TableInfo) :
    CountedAhead config { state with
      tree := (state.tree.flushMemtableInternal existing info .done).1 }
      nulls := by
  apply ahead.of_get (ahead.invariant.flush existing info .done)
  · rw [LsmTree.flushMemtableInternal_immutables rfl]
    exact ahead.noneParked
  · exact ahead.invariant.get_flush levels ahead.noneParked existing info

theorem CountedAhead.compactAll (ahead : CountedAhead config state nulls)
    (levels : 0 < config.levelCount) (existing : List SstableName)
    (info : TableInfo) {output : OutputFiles}
    (fresh : FreshOutputs config output
      (state.tree.flushMemtableInternal existing info .done).1.levels) :
    CountedAhead config { state with
      tree := (state.tree.compactAll config existing info .done output).1 }
      nulls := by
  have flushed := ahead.flush levels existing info
  have reads : ∀ key, (state.tree.compactAll config existing info .done
      output).1.get config.levelCount key =
      state.tree.get config.levelCount key := by
    intro key
    rw [ahead.invariant.get_compactAll existing info .done output key]
    exact ahead.invariant.get_flush levels ahead.noneParked existing info key
  rcases LsmTree.compactAll_cases config existing info .done output
    state.tree with same | ⟨merged, success, same⟩
  · apply ahead.of_get _ _ reads
    · rw [same]
      exact flushed.invariant
    · rw [same]
      exact flushed.noneParked
  · apply ahead.of_get _ _ reads
    · rw [same]
      exact flushed.invariant.compactAll fresh success
    · rw [same]
      exact flushed.noneParked

theorem Memtable.ReadsBack.batchPut {m : Memtable}
    (readsBack : m.ReadsBack) {items : List (String × Value)}
    (written : ∀ item ∈ items, F4kvsLsm.ReadsBack item.1 item.2)
    (jsonLen : SerdeJsonValue → Nat) :
    (m.batchPut jsonLen items).1.ReadsBack := by
  induction items generalizing m with
  | nil => exact readsBack
  | cons item rest inductionHypothesis =>
      rcases item with ⟨key, value⟩
      obtain ⟨first, others⟩ := List.forall_mem_cons.mp written
      exact inductionHypothesis (readsBack.put first jsonLen) others

theorem LsmTree.ReadsBack.batchPut
    (readsBack : state.tree.ReadsBack) (maxBatchSize : Nat)
    {items : List (String × Value)}
    (written : ∀ item ∈ items, F4kvsLsm.ReadsBack item.1 item.2) :
    (state.batchPut config false maxBatchSize items).tree.ReadsBack := by
  unfold CountedTree.batchPut
  split
  · exact readsBack
  · have active : state.tree.active.ReadsBack :=
      readsBack.memtables state.tree.active List.mem_cons_self
    have batch := active.batchPut written config.jsonLen
    exact readsBack.write fun key value found =>
      Or.inr (batch key value found)

theorem CountRun.ahead {maxBatchSize : Nat} (levels : 0 < config.levelCount)
    (run : CountRun config maxBatchSize state nulls) :
    CountedAhead config state nulls := by
  induction run with
  | empty =>
      refine ⟨LsmTree.empty_invariant config, rfl, ?_⟩
      exact Counts.nothing.congr (LsmTree.empty_get config.levelCount)
  | put key value _ _ inductionHypothesis =>
      exact inductionHypothesis.put key value
  | delete key _ _ inductionHypothesis => exact inductionHypothesis.delete key
  | batchPut items _ _ inductionHypothesis =>
      exact inductionHypothesis.batchPut maxBatchSize items
  | flush existing info _ inductionHypothesis =>
      exact inductionHypothesis.flush levels existing info
  | compactIfNeeded order output _ fresh mergesEnd keeps
      inductionHypothesis =>
      exact inductionHypothesis.of_get
        (inductionHypothesis.invariant.compactIfNeeded fresh mergesEnd)
        inductionHypothesis.noneParked
        ((inductionHypothesis.invariant.compactIfNeeded_reads_iff fresh
          mergesEnd).mpr keeps)
  | compactAll existing info output _ fresh inductionHypothesis =>
      exact inductionHypothesis.compactAll levels existing info fresh

theorem CountRun.readsBack {maxBatchSize : Nat}
    (run : CountRun config maxBatchSize state nulls) :
    state.tree.ReadsBack := by
  induction run with
  | empty => exact LsmTree.empty_readsBack
  | put key value _ written inductionHypothesis =>
      exact inductionHypothesis.put written _
  | delete key _ written inductionHypothesis =>
      exact inductionHypothesis.delete written _
  | batchPut items _ written inductionHypothesis =>
      exact inductionHypothesis.batchPut maxBatchSize written
  | flush existing info _ inductionHypothesis =>
      exact inductionHypothesis.flush existing info .done
  | compactIfNeeded order output _ _ _ _ inductionHypothesis =>
      exact inductionHypothesis.compactIfNeeded
  | compactAll existing info output _ _ inductionHypothesis =>
      exact inductionHypothesis.compactAllCall existing info .done output

end

/-- In every run the counter is the number of live keys exactly as long as no
`Null` value has been put. -/
theorem count_eq_live_iff
    (config : CompactionConfig) (levels : 0 < config.levelCount)
    (maxBatchSize : Nat) (state : CountedTree) (nulls : Nat)
    (run : CountRun config maxBatchSize state nulls) :
    (live (state.tree.getChecked config.levelCount)).Finite ∧
      (state.count =
          ((live (state.tree.getChecked config.levelCount)).ncard : Int) ↔
        nulls = 0) := by
  rw [funext (LsmTree.getChecked_eq run.readsBack.tables config.levelCount)]
  have counts := (run.ahead levels).counts
  apply And.intro counts.finite
  rw [← counts.count_eq, CountedTree.count]
  omega

theorem one_put_is_counted :
    ((⟨LsmTree.empty, 0⟩ : CountedTree).put leveledConfig false "k"
      (.bool true)).count =
      ((live (((⟨LsmTree.empty, 0⟩ : CountedTree).put leveledConfig false "k"
        (.bool true)).tree.getChecked 7)).ncard : Int) :=
  (count_eq_live_iff leveledConfig (by decide) 1 _ _
    (CountRun.empty.put "k" (.bool true) ⟨rfl, by decide⟩)).2.mpr rfl

/-- A put of `Null` is counted, and no key is live. -/
theorem null_put_is_counted :
    CountRun leveledConfig 1
        ((⟨LsmTree.empty, 0⟩ : CountedTree).put leveledConfig false "k"
          .null) 1 ∧
      ((⟨LsmTree.empty, 0⟩ : CountedTree).put leveledConfig false "k"
        .null).count = 1 ∧
      ∀ key, ((⟨LsmTree.empty, 0⟩ : CountedTree).put leveledConfig false "k"
        .null).tree.getChecked 7 key = none := by
  have run : CountRun leveledConfig 1 _ _ :=
    CountRun.empty.put "k" .null ⟨rfl, by decide⟩
  refine ⟨run, rfl, fun key => ?_⟩
  rw [LsmTree.getChecked_eq run.readsBack.tables]
  simp only [CountedTree.put]
  rw [LsmTree.get_put, Function.update_apply]
  split
  · rfl
  · rw [LsmTree.get_eq, LsmTree.empty, memtableValue_cons, Memtable.new_get]
    rfl

end F4kvsLsm
