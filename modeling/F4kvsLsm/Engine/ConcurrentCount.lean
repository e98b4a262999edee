import F4kvsLsm.Engine.ConcurrentGet
import F4kvsLsm.Engine.FlushOrder
import F4kvsLsm.Engine.KeyCount
import F4kvsLsm.Lib.PendingCount

/-!
# The live key count beside other calls

A put writes to the active memtable and only then finds out, outside of the
guard, whether the tables held its key; a deletion asks whether its key is live
before it writes, under a guard of its own.  The counter is moved after both.
Any steps of other puts, deletions and flushes can fall between, also of calls
on the same key.

The number of live keys that the counter stands for may go below zero here; the
counter itself has wrapped then.  What a put knows about its key when it writes
is there to state properties and is read by no step.
-/

namespace F4kvsLsm

open Transitions LiveCount

/-! ## Looking for a key -/

/-- How far a look for a key has come; each memtable list has a lock of its
own. -/
inductive Look where
  | active
  | parked
  | tables (get : GetCall)

/-- One step of `exists`; the tables are looked into by `get_from_sstables`. -/
def lookStep (levelCount : Nat) (s : FlushState) (key : String) :
    Look → Look
  | .active =>
      match getFromMemtables [s.active] key with
      | .found value => .tables (.returned (some value))
      | .tombstone => .tables (.returned none)
      | .missing => .parked
  | .parked =>
      match getFromMemtables (s.immutables.map (·.memtable)) key with
      | .found value => .tables (.returned (some value))
      | .tombstone => .tables (.returned none)
      | .missing => .tables (.collecting 0)
  | .tables get => .tables (getStep levelCount s.tree key get)

/-- What a look has found out. -/
def Look.answer : Look → Option Bool
  | .tables (.returned value) => some value.isSome
  | _ => none

/-! ## The calls -/

/-- A call under way: a put that looks its key up in the tables, with whether
the key was live when the put wrote; a put that is about to add one; a deletion
that asks for its key; a deletion that has written. -/
inductive CountCall where
  | lookup (key : String) (wasLive : Bool) (look : Look)
  | add (key : String)
  | probe (key : String) (look : Look)
  | deleted (key : String) (wasLive : Bool)

structure CountState where
  flushes : FlushState
  liveKeyCount : Int
  calls : List CountCall

/-- `apply_put_key_count`: what a put has to do after it has written. -/
def afterPut (key : String) (wasLive : Bool) : PutEffect → List CountCall
  | .updatedLive => []
  | .resurrected => [.add key]
  | .inserted => [.lookup key wasLive (.tables (.collecting 0))]

def FlushAction.OfFlush : FlushAction → Prop
  | .put _ _ => False
  | .delete _ => False
  | _ => True

inductive CountAction where
  | put (key : String) (value : Value)
  | look
  | counted (wasLive found : Bool)
  | add
  | delete (key : String)
  | remove (key : String) (found : Bool)
  | subtract (others : List CountCall) (key : String) (wasLive : Bool)
  | flush (action : FlushAction)

/-- The steps of puts of values other than `Null`, of deletions and of
flushes. -/
inductive CountStep (config : CompactionConfig) :
    CountState → CountAction → CountState → Prop
  | put (s : CountState) (key : String) (value : Value)
      (notNull : value.isNull = false) :
      CountStep config s (.put key value)
        { s with
          flushes := s.flushes.put config.jsonLen key value
          calls := s.calls ++ afterPut key (s.flushes.expected key).isSome
            (s.flushes.active.putEffect key) }
  | lookup (s : CountState) (before : List CountCall) (key : String)
      (wasLive : Bool) (look : Look) (after : List CountCall)
      (split : s.calls = before ++ .lookup key wasLive look :: after)
      (pending : look.answer = none) :
      CountStep config s .look
        { s with
          calls := before ++
            .lookup key wasLive
              (lookStep config.levelCount s.flushes key look) :: after }
  | counted (s : CountState) (before : List CountCall) (key : String)
      (wasLive : Bool) (look : Look) (after : List CountCall) (found : Bool)
      (split : s.calls = before ++ .lookup key wasLive look :: after)
      (answered : look.answer = some found) :
      CountStep config s (.counted wasLive found)
        { s with
          calls := before ++ ((if found then [] else [.add key]) ++ after) }
  | add (s : CountState) (before : List CountCall) (key : String)
      (after : List CountCall) (split : s.calls = before ++ .add key :: after) :
      CountStep config s .add
        { s with
          liveKeyCount := s.liveKeyCount + 1
          calls := before ++ after }
  | delete (s : CountState) (key : String) :
      CountStep config s (.delete key)
        { s with calls := s.calls ++ [.probe key .active] }
  | probe (s : CountState) (before : List CountCall) (key : String)
      (look : Look) (after : List CountCall)
      (split : s.calls = before ++ .probe key look :: after)
      (pending : look.answer = none) :
      CountStep config s .look
        { s with
          calls := before ++
            .probe key (lookStep config.levelCount s.flushes key look) ::
              after }
  | remove (s : CountState) (before : List CountCall) (key : String)
      (look : Look) (after : List CountCall) (found : Bool)
      (split : s.calls = before ++ .probe key look :: after)
      (answered : look.answer = some found) :
      CountStep config s (.remove key found)
        { s with
          flushes := s.flushes.delete config.jsonLen key
          calls := before ++ .deleted key found :: after }
  | subtract (s : CountState) (before : List CountCall) (key : String)
      (wasLive : Bool) (after : List CountCall)
      (split : s.calls = before ++ .deleted key wasLive :: after) :
      CountStep config s (.subtract (before ++ after) key wasLive)
        { s with
          liveKeyCount :=
            if wasLive then s.liveKeyCount - 1 else s.liveKeyCount
          calls := before ++ after }
  | flush (s : CountState) (action : FlushAction) (flushes : FlushState)
      (own : action.OfFlush)
      (taken : FlushStep config.jsonLen s.flushes action flushes) :
      CountStep config s (.flush action) { s with flushes := flushes }

/-- A put that has made the key live and is not counted yet. -/
def CountCall.Uncounted (key : String) : CountCall → Prop
  | .lookup other wasLive _ => other = key ∧ wasLive = false
  | .add other => other = key
  | _ => False

/-- Each call acts on what holds of its key when it writes, and writes what a
table reads back; a deletion is counted after the puts of its key, and flushes
overlap without a mistake. -/
def Accurate (s : CountState) : CountAction → Prop
  | .put key value => ReadsBack key value
  | .counted wasLive found => found = wasLive
  | .remove key found =>
      found = (s.flushes.expected key).isSome ∧ ReadsBack key .null
  | .subtract others key wasLive =>
      wasLive = true → ∀ call ∈ others, ¬ call.Uncounted key
  | .flush action => s.flushes.Orderly action
  | _ => True

/-! ## What the calls owe -/

def CountCall.owes (key : String) : CountCall → Int
  | .lookup other wasLive _ => if other = key ∧ wasLive = false then 1 else 0
  | .add other => if other = key then 1 else 0
  | .probe _ _ => 0
  | .deleted other wasLive => if other = key ∧ wasLive = true then -1 else 0

namespace CountState

/-- What all calls under way have to count for a key. -/
def owed (s : CountState) (key : String) : Int :=
  (s.calls.map (CountCall.owes key)).sum

/-- The counter is behind by what the calls under way owe. -/
structure Invariant (config : CompactionConfig)
    (levels : Nat → List SSTable) (s : CountState) : Prop where
  recorded : s.flushes.Recorded levels
    (getFromSstables config.levelCount levels)
  tallied : Tallied s.flushes.expected s.owed s.liveKeyCount

end CountState

theorem CountCall.owes_nonpos
    {key : String} {call : CountCall} (counted : ¬ call.Uncounted key) :
    call.owes key ≤ 0 := by
  cases call with
  | lookup other wasLive look =>
      have apart : ¬ (other = key ∧ wasLive = false) := counted
      rw [CountCall.owes, if_neg apart]
  | add other =>
      have apart : ¬ other = key := counted
      rw [CountCall.owes, if_neg apart]
  | probe other look => exact le_rfl
  | deleted other wasLive =>
      rw [CountCall.owes]
      split
      · decide
      · exact le_rfl

theorem sum_owes_nonpos
    {key : String} {calls : List CountCall}
    (counted : ∀ call ∈ calls, ¬ call.Uncounted key) :
    (calls.map (CountCall.owes key)).sum ≤ 0 := by
  induction calls with
  | nil => exact le_rfl
  | cons call calls inductionHypothesis =>
      have first := CountCall.owes_nonpos (counted call (by simp))
      have rest := inductionHypothesis fun other member =>
        counted other (List.mem_cons_of_mem _ member)
      rw [List.map_cons, List.sum_cons]
      omega

/-! ## The memtable and the writes -/

section

variable {config : CompactionConfig} {levels : Nat → List SSTable}
variable {base : String → Option Value} {s : FlushState}

/-- What the active memtable holds is what was written last. -/
theorem FlushState.Recorded.expected_of_active
    (recorded : s.Recorded levels base) {key : String} {value : Value}
    (held : s.active.data[key]? = some value) :
    s.expected key = value.visible := by
  rw [recorded.values key, memtableValue_cons, held]
  rfl

/-- What a put of a value owes its key, when it has written, is whether it
made the key live. -/
theorem afterPut_owes
    (recorded : s.Recorded levels base) (key other : String) :
    ((afterPut key (s.expected key).isSome
        (s.active.putEffect key)).map (CountCall.owes other)).sum =
      if other = key then 1 - present (s.expected key) else 0 := by
  rw [Memtable.putEffect]
  cases held : s.active.data[key]? with
  | none =>
      by_cases same : other = key
      · cases live : s.expected key with
        | none => simp [afterPut, CountCall.owes, present, same]
        | some value => simp [afterPut, CountCall.owes, present, same]
      · simp [afterPut, CountCall.owes, same, Ne.symm same]
  | some value =>
      have shown := recorded.expected_of_active held
      by_cases same : other = key
      · cases value with
        | null => simp [afterPut, CountCall.owes, shown, present, same,
            Value.visible]
        | _ => simp [afterPut, shown, present, same, Value.visible]
      · cases value with
        | null => simp [afterPut, CountCall.owes, Ne.symm same, same]
        | _ => simp [afterPut, same]

theorem FlushStep.expected_eq
    {jsonLen : SerdeJsonValue → Nat} {s s' : FlushState}
    {action : FlushAction} (own : action.OfFlush)
    (taken : FlushStep jsonLen s action s') : s'.expected = s.expected := by
  cases taken with
  | put => exact False.elim own
  | delete => exact False.elim own
  | swap =>
      unfold FlushState.swap
      split
      · rfl
      · rfl
  | readEntries =>
      unfold FlushState.readEntries
      split
      · dsimp only
        split
        · rfl
        · rfl
      · rfl
  | drawName =>
      simp only [FlushState.drawName]
      split
      · rfl
      · rfl
  | stampEntry => rfl
  | publish => rfl
  | remove => rfl

end

/-! ## What an accurate step keeps -/

section

variable {config : CompactionConfig} {levels : Nat → List SSTable}
variable {s s' : CountState} {action : CountAction}

theorem owed_append (key : String) (before after : List CountCall) :
    ((before ++ after).map (CountCall.owes key)).sum =
      (before.map (CountCall.owes key)).sum +
        (after.map (CountCall.owes key)).sum := by
  rw [List.map_append, List.sum_append]

theorem owed_cons (key : String) (call : CountCall)
    (calls : List CountCall) :
    ((call :: calls).map (CountCall.owes key)).sum =
      call.owes key + (calls.map (CountCall.owes key)).sum := by
  rw [List.map_cons, List.sum_cons]

theorem CountStep.recorded
    (step : CountStep config s action s')
    (recorded : s.flushes.Recorded levels
      (getFromSstables config.levelCount levels)) :
    s'.flushes.Recorded levels
      (getFromSstables config.levelCount levels) := by
  cases step with
  | put key value notNull => exact recorded.put config.jsonLen key value
  | lookup => exact recorded
  | counted => exact recorded
  | add => exact recorded
  | delete => exact recorded
  | probe => exact recorded
  | remove => exact recorded.delete config.jsonLen _
  | subtract => exact recorded
  | flush action flushes own taken => exact recorded.step taken

theorem CountStep.tallied
    (step : CountStep config s action s') (accurate : Accurate s action)
    (invariant : s.Invariant config levels) :
    Tallied s'.flushes.expected s'.owed s'.liveKeyCount := by
  have tallied := invariant.tallied
  cases step with
  | put key value notNull =>
      apply tallied.congr
      intro other
      have owes := afterPut_owes invariant.recorded key other
      simp only [CountState.owed, owed_append, owes, FlushState.put]
      by_cases same : other = key
      · have shown := present_visible value
        rw [notNull] at shown
        rw [same, Function.update_self, if_pos rfl, shown]
        simp only [Bool.false_eq_true, if_false]
        omega
      · rw [Function.update_of_ne same, if_neg same]
        omega
  | lookup before key wasLive look after split pending =>
      apply tallied.congr
      intro other
      simp only [CountState.owed, split, owed_append, owed_cons,
        CountCall.owes]
  | counted before key wasLive look after found split answered =>
      have same : found = wasLive := accurate
      subst same
      apply tallied.congr
      intro other
      cases found with
      | true =>
          simp [CountState.owed, split, CountCall.owes]
      | false =>
          simp [CountState.owed, split, CountCall.owes]
  | add before key after split =>
      apply tallied.settle key 1
      · have bound := tallied.owed_le key
        omega
      · intro other
        simp only [CountState.owed, split, owed_append, owed_cons,
          CountCall.owes]
        by_cases same : other = key
        · rw [if_pos same, if_pos same.symm]
          omega
        · rw [if_neg same, if_neg (Ne.symm same)]
          omega
  | delete key =>
      apply tallied.congr
      intro other
      simp [CountState.owed, CountCall.owes]
  | probe before key look after split pending =>
      apply tallied.congr
      intro other
      simp only [CountState.owed, split, owed_append, owed_cons,
        CountCall.owes]
  | remove before key look after found split answered =>
      have live : found = (s.flushes.expected key).isSome := accurate.1
      apply tallied.congr
      intro other
      simp only [CountState.owed, split, owed_append, owed_cons,
        CountCall.owes, FlushState.delete]
      by_cases same : other = key
      · subst same
        rw [Function.update_self, live]
        cases s.flushes.expected other with
        | none => simp [present]
        | some value =>
            simp only [present, Option.isSome_none, Option.isSome_some,
              Bool.false_eq_true, and_self, if_true, if_false]
            omega
      · rw [Function.update_of_ne same,
          if_neg fun both => same both.1.symm]
  | subtract before key wasLive after split =>
      cases wasLive with
      | false =>
          apply tallied.congr
          intro other
          simp [CountState.owed, split, CountCall.owes]
      | true =>
          have others := sum_owes_nonpos (accurate rfl)
          apply tallied.settle key (-1)
          · have shown := present_nonneg (s.flushes.expected key)
            rw [owed_append] at others
            simp only [CountState.owed, split, owed_append, owed_cons,
              CountCall.owes, and_self, if_true]
            omega
          · intro other
            simp only [CountState.owed, split, owed_append, owed_cons,
              CountCall.owes, and_true]
            by_cases same : other = key
            · rw [if_pos same, if_pos same.symm]
              omega
            · rw [if_neg same, if_neg (Ne.symm same)]
              omega
  | flush action flushes own taken =>
      have written : flushes.expected = s.flushes.expected :=
        taken.expected_eq own
      simp only [written]
      exact tallied

theorem CountStep.keeps
    (step : CountStep config s action s') (accurate : Accurate s action)
    (invariant : s.Invariant config levels) : s'.Invariant config levels :=
  ⟨step.recorded invariant.recorded, step.tallied accurate invariant⟩

theorem CountStep.flushes
    (step : CountStep config s action s') (accurate : Accurate s action) :
    Reaches (FlushStep config.jsonLen) FlushState.Orderly s.flushes
      s'.flushes := by
  cases step with
  | put key value notNull =>
      exact (Reaches.start _).next (.put key value)
        ⟨trivial, trivial, accurate⟩ (.put key value)
  | lookup => exact Reaches.start _
  | counted => exact Reaches.start _
  | add => exact Reaches.start _
  | delete => exact Reaches.start _
  | probe => exact Reaches.start _
  | remove before key look after found split answered =>
      exact (Reaches.start _).next (.delete key)
        ⟨trivial, trivial, accurate.2⟩ (.delete key)
  | subtract => exact Reaches.start _
  | flush action flushes own taken =>
      exact (Reaches.start _).next action accurate taken

/-! ## Runs -/

/-- An engine with no call under way. -/
def CountState.opened (levelCount : Nat) (active : Memtable)
    (levels : Nat → List SSTable) (sequence : Nat) (count : Int) :
    CountState where
  flushes := .quiet active levels sequence
    (LsmTree.get levelCount ⟨active, [], levels, sequence⟩)
  liveKeyCount := count
  calls := []

theorem CountState.Invariant.start
    (config : CompactionConfig) (active : Memtable)
    (levels : Nat → List SSTable) (sequence : Nat) {count : Int}
    (counts : Counts
      (LsmTree.get config.levelCount ⟨active, [], levels, sequence⟩) count) :
    (CountState.opened config.levelCount active levels sequence
      count).Invariant config levels :=
  ⟨FlushState.quiet_recorded config.levelCount active levels sequence,
    counts.tallied⟩

theorem CountState.Invariant.run
    (invariant : s.Invariant config levels)
    (run : Reaches (CountStep config) Accurate s s') :
    s'.Invariant config levels :=
  run.invariant (fun s => s.Invariant config levels) invariant
    fun _ _ _ holds accurate step => step.keeps accurate holds

/-- In every run in which each call acts on what holds of its key when it
writes, deletions are counted after the puts of their key, flushes overlap
without a mistake, and all records can be read, the counter does not wrap, and
when all calls have returned it is the number of live keys. -/
theorem live_key_count_of_accurate
    (config : CompactionConfig) {active : Memtable}
    {levels : Nat → List SSTable} {sequence : Nat} {count : Int}
    (invariant : LsmTree.Invariant config ⟨active, [], levels, sequence⟩)
    (readsBack : LsmTree.ReadsBack ⟨active, [], levels, sequence⟩)
    (read : 0 < config.levelCount)
    (counts : Counts
      (LsmTree.get config.levelCount ⟨active, [], levels, sequence⟩) count)
    (s : CountState)
    (run : Reaches (CountStep config) Accurate
      (.opened config.levelCount active levels sequence count) s) :
    0 ≤ s.liveKeyCount ∧
      (s.calls = [] → s.flushes.AllReturned →
        (live (s.flushes.tree.getChecked config.levelCount)).Finite ∧
          s.liveKeyCount =
            ((live (s.flushes.tree.getChecked
              config.levelCount)).ncard : Int)) := by
  have kept := (CountState.Invariant.start config active levels sequence
    counts).run run
  have flushes := run.project CountState.flushes
    fun before action after accurate step => step.flushes accurate
  constructor
  · exact kept.tallied.nonneg
  · intro returned all
    have nothing : ∀ key, s.owed key = 0 := by
      intro key
      rw [CountState.owed, returned]
      rfl
    have counted := (kept.tallied.counts nothing).congr
      (FlushState.getChecked_eq_expected invariant readsBack read flushes all)
    exact ⟨counted.finite, counted.count_eq⟩

end

/-! ## Two deletions of one key -/

def countedKey : CountState :=
  .opened 7 (Memtable.new.put leveledConfig.jsonLen "k" (.bool true))
    (fun _ => []) 1 1

theorem countedKey_counts :
    Counts (LsmTree.get 7 ⟨Memtable.new.put leveledConfig.jsonLen "k"
      (.bool true), [], fun _ => [], 1⟩) 1 := by
  have moved := (Counts.nothing.congr (LsmTree.empty_get 7)).update "k"
    (some (.bool true))
  rw [LsmTree.empty_get] at moved
  have written := LsmTree.get_put 7 leveledConfig.jsonLen LsmTree.empty "k"
    (.bool true)
  exact moved.congr fun key => congrFun written key

/-- A deletion alone is counted. -/
theorem one_deletion_is_counted :
    ∃ s, Reaches (CountStep leveledConfig) Accurate countedKey s ∧
      s.liveKeyCount =
        ((live (s.flushes.tree.getChecked 7)).ncard : Int) := by
  have start : Reaches (CountStep leveledConfig) Accurate countedKey countedKey :=
    Reaches.start countedKey
  have asked := start.next (.delete "k") trivial
    (CountStep.delete countedKey "k")
  have looked := asked.next .look trivial
    (CountStep.probe _ [] "k" .active [] rfl rfl)
  have written := looked.next (.remove "k" true) ⟨rfl, rfl, by decide⟩
    (CountStep.remove _ [] "k" _ [] true rfl rfl)
  have counted := written.next (.subtract [] "k" true)
    (fun _ _ member => absurd member List.not_mem_nil)
    (CountStep.subtract _ [] "k" true [] rfl)
  have main := live_key_count_of_accurate leveledConfig
    ((LsmTree.empty_invariant leveledConfig).advance _ [] le_rfl)
    (LsmTree.empty_readsBack.put ⟨rfl, by decide⟩ _) (by decide)
    countedKey_counts _ counted
  exact ⟨_, counted, (main.2 rfl fun _ => Or.inl rfl).2⟩

/-- Two deletions of the key that both find it live take it from the counter
twice. -/
theorem two_deletions_wrap_the_count :
    ∃ s, Reaches (CountStep leveledConfig) (fun _ _ => True) countedKey s ∧
      s.calls = [] ∧ s.flushes.AllReturned ∧ s.liveKeyCount = -1 := by
  have start : Reaches (CountStep leveledConfig) (fun _ _ => True) countedKey
      countedKey := Reaches.start countedKey
  have asked := (start.next (.delete "k") trivial
    (CountStep.delete countedKey "k")).next (.delete "k") trivial
    (CountStep.delete _ "k")
  have looked := (asked.next .look trivial
    (CountStep.probe _ [] "k" .active [_] rfl rfl)).next .look trivial
    (CountStep.probe _ [_] "k" .active [] rfl rfl)
  have written := (looked.next (.remove "k" true) trivial
    (CountStep.remove _ [] "k" _ [_] true rfl rfl)).next (.remove "k" true)
    trivial (CountStep.remove _ [_] "k" _ [] true rfl rfl)
  have counted := (written.next (.subtract [.deleted "k" true] "k" true)
    trivial (CountStep.subtract _ [] "k" true [_] rfl)).next
    (.subtract [] "k" true) trivial
    (CountStep.subtract _ [] "k" true [] rfl)
  exact ⟨_, counted, rfl, fun _ => Or.inl rfl, rfl⟩

end F4kvsLsm
