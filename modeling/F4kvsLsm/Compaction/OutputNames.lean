import F4kvsLsm.Lib.Digits
import F4kvsLsm.Compaction.FileNames

/-!
# The file names of compaction outputs

A compaction writes its outputs one after the other.  Each gets its name from
two readings of the clock, seconds and nanoseconds, and its file is opened
for truncation without a look at what is there.
-/

namespace F4kvsLsm

open Transitions

/-! ## Names -/

/-- A number in lower-case hexadecimal digits. -/
def hexDigits (number : Nat) : String :=
  String.ofList (Nat.toDigits 16 number)

/-- The file name of a table; that of a flush has sixteen digits. -/
def SstableName.fileName : SstableName → String
  | .flush level sequence =>
      "L" ++ toString level ++ "_" ++
        String.ofList (List.replicate
          (16 - (Nat.toDigits 16 sequence).length) '0') ++
        hexDigits sequence ++ ".sst"
  | .compaction level timestamp uniq =>
      "sstable_l" ++ toString level ++ "_t" ++ toString timestamp ++ "_" ++
        hexDigits uniq ++ ".sst"

/-- `timestamp_secs`; there is no reading when the clock is before the epoch,
and readings are in nanoseconds. -/
def timestampSecs (clock : Option Nat) : Nat :=
  clock.getD 0 / 1000000000

/-- The nanoseconds since the epoch, or zero before it. -/
def timestampNanos (clock : Option Nat) : Nat :=
  clock.getD 0

theorem fileName_compaction_toList (level timestamp uniq : Nat) :
    (SstableName.compaction level timestamp uniq).fileName.toList =
      "sstable_l".toList ++ (Nat.toDigits 10 level ++ '_' :: 't' ::
        (Nat.toDigits 10 timestamp ++ '_' ::
          (Nat.toDigits 16 uniq ++ ".sst".toList))) := by
  simp [SstableName.fileName, hexDigits, String.toList_append]

/-- The names of two compaction outputs are apart when their levels or their
readings are. -/
theorem fileName_compaction_inj
    {level timestamp uniq level' timestamp' uniq' : Nat}
    (same : (SstableName.compaction level timestamp uniq).fileName =
      (SstableName.compaction level' timestamp' uniq').fileName) :
    SstableName.compaction level timestamp uniq =
      .compaction level' timestamp' uniq' := by
  have lists := congrArg String.toList same
  rw [fileName_compaction_toList, fileName_compaction_toList] at lists
  obtain ⟨levels, rest⟩ := Digits.append_separator_inj
    Nat.underscore_not_in_toDigits Nat.underscore_not_in_toDigits
    (List.append_cancel_left lists)
  obtain ⟨timestamps, rest⟩ := Digits.append_separator_inj
    Nat.underscore_not_in_toDigits Nat.underscore_not_in_toDigits
    (List.cons.inj rest).2
  have uniqs := List.append_cancel_right rest
  rw [Digits.toDigits_inj (by decide) (by decide) levels,
    Digits.toDigits_inj (by decide) (by decide) timestamps,
    Digits.toDigits_inj (by decide) (by decide) uniqs]

theorem fileName_flush_ne (level sequence level' timestamp uniq : Nat) :
    (SstableName.flush level sequence).fileName ≠
      (SstableName.compaction level' timestamp uniq).fileName := by
  intro same
  have lists := congrArg String.toList same
  rw [fileName_compaction_toList] at lists
  simp [SstableName.fileName, String.toList_append] at lists

theorem fileName_eq_compaction_iff
    (name : SstableName) (level timestamp uniq : Nat) :
    name.fileName = (SstableName.compaction level timestamp uniq).fileName ↔
      name = .compaction level timestamp uniq := by
  cases name with
  | flush level' sequence =>
      exact iff_of_false (fileName_flush_ne _ _ _ _ _) (by simp)
  | compaction level' timestamp' uniq' =>
      constructor
      · exact fileName_compaction_inj
      · exact congrArg SstableName.fileName

/-! ## Runs in which outputs are written one at a time -/

namespace CompactionJob

/-- The number of tables that the merge writes. -/
def outputCount (config : CompactionConfig) (job : CompactionJob) : Nat :=
  (cutEntries (estimatedSstableBytes config.jsonLen)
    (max config.targetSize 1) [] 0
    (deduplicateEntries (mergeSstablesSafe (job.inputs config)))).length

/-- `create_sstable_from_entries` reads the clock twice. -/
def outputName (job : CompactionJob) (secs nanos : Option Nat) :
    SstableName :=
  .compaction job.target (timestampSecs secs) (timestampNanos nanos)

end CompactionJob

/-- The calls of a run, the names of the outputs that each has written so
far, and the tables whose files have been truncated by an output. -/
structure OutputState where
  state : CompactionState
  created : Nat → List SstableName
  overwritten : Set SstableName

inductive OutputAction where
  | create (call : Nat) (secs nanos : Option Nat)
  | merged (call : Nat) (output : OutputFiles)
  | other (action : CompactionAction)

namespace OutputState

/-- The tables in the live map, the inputs of a compaction and the outputs
that it has written. -/
def guarded (config : CompactionConfig) (run : OutputState) (call : Nat)
    (job : CompactionJob) : Set SstableName :=
  { name | (∃ level, ∃ table ∈ run.state.levels level, table.name = name) ∨
    (∃ table ∈ job.inputs config, table.name = name) ∨
    name ∈ run.created call }

/-- The file of the output is opened for truncation. -/
def create (config : CompactionConfig) (run : OutputState) (call : Nat)
    (job : CompactionJob) (name : SstableName) : OutputState :=
  { run with
    created := Function.update run.created call (run.created call ++ [name])
    overwritten := run.overwritten ∪
      { old ∈ run.guarded config call job | old.fileName = name.fileName } }

end OutputState

/-- A merge ends when its outputs are written, under the names that they
have got. -/
inductive OutputStep (config : CompactionConfig) :
    OutputState → OutputAction → OutputState → Prop
  | create {run : OutputState} {call : Nat} {job : CompactionJob}
      {secs nanos : Option Nat} :
      run.state.calls call = .reading job [] →
      (run.created call).length < job.outputCount config →
      OutputStep config run (.create call secs nanos)
        (run.create config call job (job.outputName secs nanos))
  | merged {run : OutputState} {call : Nat} {job : CompactionJob}
      {output : OutputFiles} :
      run.state.calls call = .reading job [] →
      (job.outputs config output).map (·.name) = run.created call →
      OutputStep config run (.merged call output)
        { run with state := run.state.merge config call job output }
  | other {run : OutputState} {action : CompactionAction}
      {state' : CompactionState} :
      (∀ call output, action ≠ .merge call output) →
      CompactionStep config run.state action state' →
      OutputStep config run (.other action) { run with state := state' }

/-- The readings for an output differ from those in the name of every table
of its level that is live, an input or an earlier output of the same
compaction. -/
def FreshReadings (config : CompactionConfig) (run : OutputState) :
    OutputAction → Prop
  | .create call secs nanos =>
      ∀ job, run.state.calls call = .reading job [] →
        job.outputName secs nanos ∉ run.guarded config call job
  | _ => True

variable {config : CompactionConfig} {start run : OutputState}

/-- With its outputs taken together the run is one of the calls alone. -/
theorem OutputState.project
    {allowed : OutputState → OutputAction → Prop}
    (reached : Reaches (OutputStep config) allowed start run) :
    Reaches (CompactionStep config) (fun _ _ => True) start.state
      run.state := by
  apply reached.project OutputState.state
  intro before action after _ taken
  cases taken with
  | create phase room => exact Reaches.start _
  | @merged call job output phase names =>
      exact (Reaches.start _).next (.merge call output) trivial
        (.merge phase)
  | @other action state' calm step =>
      exact (Reaches.start _).next action trivial step

/-- An output truncates a table that is in use exactly when its readings are
those of the table's name. -/
theorem OutputState.create_overwrites_nothing_iff
    (clean : run.overwritten = ∅) (call : Nat) (job : CompactionJob)
    (secs nanos : Option Nat) :
    (run.create config call job (job.outputName secs nanos)).overwritten =
        ∅ ↔ job.outputName secs nanos ∉ run.guarded config call job := by
  rw [OutputState.create, clean, Set.empty_union,
    Set.eq_empty_iff_forall_notMem]
  constructor
  · intro untouched inUse
    exact untouched _ ⟨inUse, rfl⟩
  · rintro fresh old ⟨inUse, samePath⟩
    rw [CompactionJob.outputName, fileName_eq_compaction_iff] at samePath
    rw [samePath] at inUse
    exact fresh inUse

/-- In a run whose outputs all get fresh readings, no output opens for
truncation the path of a table in the live map, of an input of its compaction
or of another output of it. -/
theorem outputs_overwrite_nothing
    (config : CompactionConfig) (start run : OutputState)
    (clean : start.overwritten = ∅)
    (reached :
      Reaches (OutputStep config) (FreshReadings config) start run) :
    run.overwritten = ∅ := by
  apply reached.invariant (fun run => run.overwritten = ∅) clean
  intro before action after untouched fresh taken
  cases taken with
  | create phase room =>
      exact (OutputState.create_overwrites_nothing_iff untouched _ _ _
        _).mpr (fresh _ phase)
  | merged phase names => exact untouched
  | other calm step => exact untouched

/-! ## Clocks that show no reading twice -/

def OutputAction.reading : OutputAction → Option Nat
  | .create _ _ nanos => some (timestampNanos nanos)
  | _ => none

/-- No compaction output has a later reading in its name. -/
def SstableName.DatedBy (last : Nat) : SstableName → Prop
  | .flush _ _ => True
  | .compaction _ _ uniq => uniq ≤ last

theorem SstableName.DatedBy.mono
    {name : SstableName} {last later : Nat} (dated : name.DatedBy last)
    (grown : last ≤ later) : name.DatedBy later := by
  cases name with
  | flush level sequence => trivial
  | compaction level timestamp uniq => exact Nat.le_trans dated grown

namespace OutputState

/-- Names in use, those of tables that are not installed included. -/
def Knows (config : CompactionConfig) (run : OutputState)
    (name : SstableName) : Prop :=
  run.state.Mentions name ∨
    (∃ call, ∃ table ∈ (run.state.calls call).outputs config,
      table.name = name) ∨
    ∃ call, name ∈ run.created call

def DatedBy (config : CompactionConfig) (last : Nat) (run : OutputState) :
    Prop :=
  ∀ name, run.Knows config name → name.DatedBy last

theorem knows_guarded
    {call : Nat} {job : CompactionJob} {name : SstableName}
    (phase : run.state.calls call = .reading job [])
    (inUse : name ∈ run.guarded config call job) :
    run.Knows config name := by
  rcases inUse with ⟨level, table, member, rfl⟩ | ⟨table, member, rfl⟩ | own
  · exact Or.inl (CompactionState.mentions_live member)
  · refine Or.inl (CompactionState.mentions_snapshot call ?_)
    rw [phase]
    exact CompactionJob.inputs_sub member
  · exact Or.inr (Or.inr ⟨call, own⟩)

theorem knows_of_callStep
    {state' : CompactionState} {call : Nat} {name : SstableName}
    (taken : CompactionState.CallStep config call run.state state')
    (mentions : state'.Mentions name → run.state.Mentions name ∨
      ∃ table ∈ (run.state.calls call).outputs config, table.name = name)
    (known : { run with state := state' }.Knows config name) :
    run.Knows config name := by
  rcases known with mention | ⟨other, table, member, same⟩ | own
  · rcases mentions mention with before | written
    · exact Or.inl before
    · exact Or.inr (Or.inl ⟨call, written⟩)
  · exact Or.inr (Or.inl ⟨other, table, (taken.outputs member).2, same⟩)
  · exact Or.inr (Or.inr own)

theorem create_created
    (config : CompactionConfig) (run : OutputState) (call : Nat)
    (job : CompactionJob) (output : SstableName) :
    (run.create config call job output).created =
      Function.update run.created call (run.created call ++ [output]) :=
  rfl

theorem knows_of_create
    {call : Nat} {job : CompactionJob} {output name : SstableName}
    (known : (run.create config call job output).Knows config name) :
    run.Knows config name ∨ name = output := by
  rcases known with mention | written | ⟨other, own⟩
  · exact Or.inl (Or.inl mention)
  · exact Or.inl (Or.inr (Or.inl written))
  · by_cases here : other = call
    · rw [here, create_created, Function.update_self] at own
      rcases List.mem_append.mp own with before | new
      · exact Or.inl (Or.inr (Or.inr ⟨call, before⟩))
      · exact Or.inr (List.mem_singleton.mp new)
    · rw [create_created, Function.update_of_ne here] at own
      exact Or.inl (Or.inr (Or.inr ⟨other, own⟩))

theorem knows_of_merge
    {call : Nat} {job : CompactionJob} {output : OutputFiles}
    {name : SstableName}
    (phase : run.state.calls call = .reading job [])
    (written : (job.outputs config output).map (·.name) = run.created call)
    (known : { run with
      state := run.state.merge config call job output }.Knows config name) :
    run.Knows config name := by
  rcases known with mention | ⟨other, table, member, rfl⟩ | own
  · exact Or.inl (CompactionState.mentions_of_merge phase mention)
  · by_cases here : other = call
    · rw [here, CompactionState.merge_self] at member
      refine Or.inr (Or.inr ⟨call, ?_⟩)
      rw [← written]
      exact List.mem_map_of_mem member
    · rw [CompactionState.merge_other other here] at member
      exact Or.inr (Or.inl ⟨other, table, member, rfl⟩)
  · exact Or.inr (Or.inr own)

/-- The calls, apart from their merges, make only names of flushes known. -/
theorem knows_of_other
    {action : CompactionAction} {state' : CompactionState}
    {name : SstableName} (calm : ∀ call output, action ≠ .merge call output)
    (taken : CompactionStep config run.state action state')
    (known : { run with state := state' }.Knows config name) :
    run.Knows config name ∨ ∃ sequence, name = .flush 0 sequence := by
  have whole := taken
  cases taken with
  | merge phase => exact absurd rfl (calm _ _)
  | install phase =>
      exact Or.inl (knows_of_callStep (.of_install ..)
        (CompactionState.mentions_of_install phase) known)
  | draw free => exact Or.inl known
  | push drawn named =>
      rcases known with mention | written | own
      · rcases CompactionState.mentions_of_push mention with before | rfl
        · exact Or.inl (Or.inl before)
        · exact Or.inr ⟨_, named⟩
      · exact Or.inl (Or.inr (Or.inl written))
      · exact Or.inl (Or.inr (Or.inr own))
  | _ =>
      have moved := whole.calm rfl
      exact Or.inl (knows_of_callStep (.of_calm moved)
        (fun mention => Or.inl (CompactionState.mentions_of_calm moved
          mention)) known)

end OutputState

namespace OutputStep

variable {action : OutputAction} {run' : OutputState} {last : Nat}

theorem datedBy
    (taken : OutputStep config run action run')
    (dated : run.DatedBy config last)
    (later : ∀ reading ∈ action.reading, last < reading) :
    run'.DatedBy config (action.reading.getD last) := by
  intro name known
  cases taken with
  | @create call job secs nanos phase room =>
      rcases OutputState.knows_of_create known with before | rfl
      · exact (dated name before).mono (Nat.le_of_lt (later _ rfl))
      · exact Nat.le_refl (timestampNanos nanos)
  | merged phase written =>
      exact dated name (OutputState.knows_of_merge phase written known)
  | other calm step =>
      rcases OutputState.knows_of_other calm step known with
        before | ⟨sequence, rfl⟩
      · exact dated name before
      · trivial

theorem overwrites_nothing
    (taken : OutputStep config run action run')
    (clean : run.overwritten = ∅) (dated : run.DatedBy config last)
    (later : ∀ reading ∈ action.reading, last < reading) :
    run'.overwritten = ∅ := by
  cases taken with
  | @create call job secs nanos phase room =>
      refine (OutputState.create_overwrites_nothing_iff clean _ _ _ _).mpr ?_
      intro inUse
      have past : timestampNanos nanos ≤ last :=
        dated _ (OutputState.knows_guarded phase inUse)
      exact absurd (later _ rfl) (Nat.not_lt.mpr past)
  | merged phase written => exact clean
  | other calm step => exact clean

end OutputStep

theorem OutputAction.rising_cons
    {last : Nat} {action : OutputAction} {actions : List OutputAction}
    (rising : (last :: (action :: actions).filterMap
      OutputAction.reading).Pairwise (· < ·)) :
    (∀ reading ∈ action.reading, last < reading) ∧
      (action.reading.getD last ::
        actions.filterMap OutputAction.reading).Pairwise (· < ·) := by
  cases found : action.reading with
  | none =>
      rw [List.filterMap_cons_none found] at rising
      exact ⟨fun reading member => absurd member (by simp), rising⟩
  | some reading =>
      rw [List.filterMap_cons_some found, List.pairwise_cons] at rising
      refine ⟨fun other member => ?_, rising.2⟩
      cases member
      exact rising.1 _ List.mem_cons_self

/-- With a clock whose nanoseconds rise from one output to the next, and are
past those in the names of the start, no output truncates a table in use. -/
theorem rising_clock_overwrites_nothing
    {actions : List OutputAction} {last : Nat}
    (trace : Trace (OutputStep config) start actions run)
    (clean : start.overwritten = ∅) (dated : start.DatedBy config last)
    (rising : (last :: actions.filterMap
      OutputAction.reading).Pairwise (· < ·)) :
    run.overwritten = ∅ := by
  induction trace generalizing last with
  | done state => exact clean
  | act taken _ inductionHypothesis =>
      obtain ⟨later, rest⟩ := OutputAction.rising_cons rising
      exact inductionHypothesis (taken.overwrites_nothing clean dated later)
        (taken.datedBy dated later) rest

/-! ## Two outputs of one compaction -/

/-- Two tables on level 0, where one is allowed, and outputs of one entry. -/
def twoOutputsConfig : CompactionConfig :=
  ⟨.leveled, 2, 1, fun _ => 0, 1, fun _ => 0⟩

def flushedTable (sequence : Nat) (key : String) : SSTable where
  name := .flush 0 sequence
  entries := [⟨key, .bool true, sequence, false⟩]
  fileSize := 1
  createdAt := 1
  blockCompressed := true

def twoFlushedTables : List SSTable :=
  [flushedTable 0 "a", flushedTable 1 "b"]

def twoFlushed : OutputState where
  state :=
    { levels := fun level => if level = 0 then twoFlushedTables else []
      compacting := false
      calls := fun _ => .idle
      marked := []
      unlinked := []
      sequenceNumber := 2
      drawn := []
      names := twoFlushedTables.map (·.name)
      published := twoFlushedTables }
  created := fun _ => []
  overwritten := ∅

def twoInputs : CompactionJob := .ifNeeded 0 [] twoFlushedTables

/-- The call has read both tables of level 0. -/
def inputsRead : OutputState :=
  { twoFlushed with
    state := ((((({ twoFlushed.state.setCall 0 .flagged with
      compacting := true }).setCall 0 (.chosen 0)).setCall 0
        (.reading twoInputs twoFlushedTables)).setCall 0
          (.reading twoInputs [flushedTable 1 "b"])).setCall 0
            (.reading twoInputs [])) }

theorem inputsRead_reached (allowed : OutputState → OutputAction → Prop)
    (others : ∀ run action, allowed run (.other action)) :
    Reaches (OutputStep twoOutputsConfig) allowed twoFlushed inputsRead := by
  have idle : Reaches (OutputStep twoOutputsConfig) allowed twoFlushed
      twoFlushed := Reaches.start _
  have flagged := idle.next (.other (.takeFlag 0)) (others _ _)
    (.other (by simp) (.takeFlag rfl rfl))
  have chosen := flagged.next (.other (.choose 0 [])) (others _ _)
    (.other (by simp) (.choose rfl rfl))
  have snapshot := chosen.next (.other (.snapshotLevel 0 [] []))
    (others _ _) (.other (by simp) (.snapshotLevel rfl rfl))
  have first := snapshot.next (.other (.readInput 0)) (others _ _)
    (.other (by simp) (.readInput rfl List.not_mem_nil))
  exact first.next (.other (.readInput 0)) (others _ _)
    (.other (by simp) (.readInput rfl List.not_mem_nil))

theorem flushedTable_name_ne
    {table : SSTable} (member : table ∈ twoFlushedTables)
    (level timestamp uniq : Nat) :
    table.name ≠ .compaction level timestamp uniq := by
  simp only [twoFlushedTables, List.mem_cons, List.not_mem_nil,
    or_false] at member
  rcases member with rfl | rfl
  · exact SstableName.noConfusion
  · exact SstableName.noConfusion

/-- The tables in use are those of flushes and what the call has written. -/
theorem freshReadings_of_created
    (run : OutputState) (same : run.state = inputsRead.state)
    {secs nanos : Option Nat}
    (new : twoInputs.outputName secs nanos ∉ run.created 0) :
    FreshReadings twoOutputsConfig run (.create 0 secs nanos) := by
  intro job phase
  rw [same] at phase
  have here : CompactionCall.reading twoInputs [] = .reading job [] := phase
  cases here
  rintro (⟨level, table, member, name⟩ | ⟨table, member, name⟩ | own)
  · rw [same] at member
    by_cases top : level = 0
    · rw [top] at member
      exact flushedTable_name_ne member _ _ _ name
    · have none : inputsRead.state.levels level = [] := if_neg top
      rw [none] at member
      exact absurd member List.not_mem_nil
  · exact flushedTable_name_ne (CompactionJob.inputs_sub member) _ _ _ name
  · exact new own

/-- The first output is written five seconds after the epoch. -/
def firstWritten : OutputState :=
  inputsRead.create twoOutputsConfig 0 twoInputs
    (twoInputs.outputName (some 5000000000) (some 5000000000))

/-- The second output is written a nanosecond later. -/
theorem later_reading_is_fresh :
    (firstWritten.create twoOutputsConfig 0 twoInputs
      (twoInputs.outputName (some 5000000001)
        (some 5000000001))).overwritten = ∅ := by
  refine outputs_overwrite_nothing twoOutputsConfig twoFlushed _ rfl ?_
  have read := inputsRead_reached (FreshReadings twoOutputsConfig)
    fun _ _ => trivial
  have one := read.next (.create 0 (some 5000000000) (some 5000000000))
    (freshReadings_of_created inputsRead rfl List.not_mem_nil)
    (.create rfl (by decide))
  have apart : twoInputs.outputName (some 5000000001) (some 5000000001) ∉
      firstWritten.created 0 := by decide
  exact one.next (.create 0 (some 5000000001) (some 5000000001))
    (freshReadings_of_created firstWritten rfl apart)
    (.create rfl (by decide))

/-- Both readings are the same for the two outputs: the second truncates the
first. -/
theorem equal_readings_overwrite_output :
    ¬ ∀ (config : CompactionConfig) (start run : OutputState),
      start.overwritten = ∅ →
        Reaches (OutputStep config) (fun _ _ => True) start run →
          run.overwritten = ∅ := by
  intro never
  have read := inputsRead_reached (fun _ _ => True) fun _ _ => trivial
  have one := read.next (.create 0 (some 5000000000) (some 5000000000))
    trivial (.create rfl (by decide))
  have two := one.next (.create 0 (some 5000000000) (some 5000000000))
    trivial (.create rfl (by decide))
  have clean := never _ _ _ rfl one
  have fresh := (OutputState.create_overwrites_nothing_iff clean 0 _ _ _).mp
    (never _ _ _ rfl two)
  exact fresh (Or.inr (Or.inr (List.mem_singleton_self _)))

end F4kvsLsm
