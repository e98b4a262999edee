import F4kvsLsm.Compaction.FileNames
import F4kvsLsm.Compaction.Preserved

/-!
# Which files are in the live map

A table that a compaction has taken out of the map stays out of it as long as
no other compaction installs tables that it did not merge and that have left
the map in the meantime.
-/

namespace F4kvsLsm

open Transitions

/-- The tables that a call has passed, or is about to unlink, are marked. -/
def CompactionCall.Marks (marked : List SstableName) :
    CompactionCall → Prop
  | .marking done _ => ∀ table ∈ done, table.name ∈ marked
  | .reclaiming _ pending => ∀ table ∈ pending, table.name ∈ marked
  | _ => True

theorem CompactionCall.Marks.mono
    {phase : CompactionCall} {marked marked' : List SstableName}
    (marks : phase.Marks marked) (grown : ∀ name ∈ marked, name ∈ marked') :
    phase.Marks marked' := by
  cases phase with
  | marking done pending =>
      exact fun table member => grown _ (marks table member)
  | reclaiming stage pending =>
      exact fun table member => grown _ (marks table member)
  | _ => exact True.intro

/-- An install puts no table back that has left the map since the
snapshot. -/
def KeepsLive (config : CompactionConfig) (state : CompactionState) :
    CompactionAction → Prop
  | .install call =>
      ∀ job output, state.calls call = .compacted job output →
        ∀ table ∈ job.kept config, table ∈ state.levels job.target
  | _ => True

namespace CompactionState

variable {config : CompactionConfig} {state state' : CompactionState}
variable {call : Nat}

/-- No live file is marked or unlinked, and no path occurs twice. -/
structure NoDangling (state : CompactionState) : Prop where
  unmarked : ∀ level, ∀ table ∈ state.levels level,
    table.name ∉ state.marked
  linked : ∀ level, ∀ table ∈ state.levels level,
    table.name ∉ state.unlinked
  once : ∀ level, ((state.levels level).map (·.name)).Nodup
  oneLevel : ∀ level, ∀ table ∈ state.levels level,
    ∀ level', ∀ table' ∈ state.levels level',
      table.name = table'.name → level = level'

/-- What is taken out is not live, and it is marked before it is unlinked. -/
structure Departed (state : CompactionState) : Prop where
  unmarked : ∀ level, ∀ table ∈ state.levels level,
    table.name ∉ state.marked
  gone : ∀ level, ∀ table ∈ state.levels level, ∀ call,
    ∀ old ∈ (state.calls call).reclaimed, old.name ≠ table.name
  marks : ∀ call, (state.calls call).Marks state.marked
  unlinked : ∀ name ∈ state.unlinked, name ∈ state.marked

theorem Departed.marksAt
    (departed : state.Departed) {phase : CompactionCall}
    (here : state.calls call = phase) : phase.Marks state.marked :=
  here ▸ departed.marks call

theorem AtRest.departed (rest : state.AtRest) : state.Departed := by
  constructor
  case unmarked => exact rest.unmarked
  case gone =>
    intro level table member call old reclaimed
    rcases rest.calls call with phase | phase <;> rw [phase] at reclaimed
    · exact absurd reclaimed List.not_mem_nil
    · exact absurd reclaimed List.not_mem_nil
  case marks =>
    intro call
    rcases rest.calls call with phase | phase <;> rw [phase]
    · exact True.intro
    · exact True.intro
  case unlinked => exact rest.unlinked

/-- A calm step takes nothing out of the map. -/
theorem Departed.calm
    (departed : state.Departed) (taken : CalmStep config call state state')
    (marks : (state'.calls call).Marks state'.marked)
    (grown : ∀ name ∈ state.marked, name ∈ state'.marked)
    (unlinked : ∀ name ∈ state'.unlinked, name ∈ state'.marked) :
    state'.Departed := by
  constructor
  case unmarked =>
    intro level table member isMarked
    rw [taken.levels] at member
    rcases taken.marked _ isMarked with before | ⟨old, reclaimed, same⟩
    · exact departed.unmarked level table member before
    · exact departed.gone level table member call old reclaimed same
  case gone =>
    intro level table member other old reclaimed
    rw [taken.levels] at member
    by_cases own : other = call
    · rw [own] at reclaimed
      exact departed.gone level table member call old
        (taken.reclaimed old reclaimed)
    · rw [taken.others other own] at reclaimed
      exact departed.gone level table member other old reclaimed
  case marks =>
    intro other
    by_cases own : other = call
    · exact own ▸ marks
    · rw [taken.others other own]
      exact (departed.marks other).mono grown
  case unlinked => exact unlinked

theorem Departed.setCall
    (departed : state.Departed) {phase : CompactionCall}
    (taken : CalmStep config call state (state.setCall call phase))
    (marks : phase.Marks state.marked) :
    (state.setCall call phase).Departed := by
  refine departed.calm taken ?_ (fun name member => member)
    departed.unlinked
  rw [setCall_self]
  exact marks

theorem Departed.install
    (named : state.Named config) (departed : state.Departed)
    {job : CompactionJob} {output : OutputFiles}
    (phase : state.calls call = .compacted job output)
    (keeps : KeepsLive config state (.install call)) :
    (state.install config call job output).Departed := by
  have own := install_self config state call job output
  have others := @install_other config state call job output
  have placed : job.Placed := named.jobs call job (by rw [phase]; rfl)
  have unknown : ∀ table ∈ job.outputs config output,
      ¬ state.Mentions table.name := by
    intro table member
    refine (named.written call table ?_).2
    rw [phase]
    exact member
  have split : ∀ level, ∀ table ∈ job.install config output state.marked
      state.levels level,
      (∃ level', table ∈ state.levels level') ∨
        table ∈ job.outputs config output := by
    intro level table member
    rcases CompactionJob.mem_install member with live | ⟨-, kept | new⟩
    · exact Or.inl ⟨level, live⟩
    · exact Or.inl ⟨job.target, keeps job output phase table kept⟩
    · exact Or.inr new
  constructor
  case unmarked =>
    intro level table member isMarked
    rcases split level table member with ⟨level', live⟩ | new
    · exact departed.unmarked level' table live isMarked
    · exact unknown table new (Or.inr (Or.inr isMarked))
  case gone =>
    intro level table member other old reclaimed
    by_cases here : other = call
    · rw [here, own] at reclaimed
      refine CompactionJob.toReclaim_apart placed (named.placed level) ?_
        reclaimed member
      intro new newMember before beforeMember same
      refine unknown new newMember (same ▸ mentions_snapshot call ?_)
      rw [phase]
      exact beforeMember
    · rw [others other here] at reclaimed
      rcases split level table member with ⟨level', live⟩ | new
      · exact departed.gone level' table live other old reclaimed
      · exact fun same => unknown table new
          (same ▸ mentions_reclaimed other reclaimed)
  case marks =>
    intro other
    by_cases here : other = call
    · rw [here, own]
      exact fun table member => absurd member List.not_mem_nil
    · rw [others other here]
      exact departed.marks other
  case unlinked => exact departed.unlinked

theorem Departed.push
    (named : state.Named config) (departed : state.Departed)
    {sequence : Nat} {table : SSTable} (drawn : sequence ∈ state.drawn)
    (name : table.name = .flush 0 sequence) :
    (state.push sequence table).Departed := by
  have unused : ¬ state.Mentions table.name := by
    rw [name]
    exact fun mention =>
      (named.drawn sequence drawn).2 (named.mentioned _ mention)
  constructor
  case unmarked =>
    intro level other member isMarked
    rcases mem_publish member with before | ⟨-, rfl⟩
    · exact departed.unmarked level other before isMarked
    · exact unused (Or.inr (Or.inr isMarked))
  case gone =>
    intro level other member call old reclaimed same
    rcases mem_publish member with before | ⟨-, rfl⟩
    · exact departed.gone level other before call old reclaimed same
    · exact unused (same ▸ mentions_reclaimed call reclaimed)
  case marks => exact departed.marks
  case unlinked => exact departed.unlinked

theorem Departed.merge
    (departed : state.Departed) {job : CompactionJob}
    {output : OutputFiles} :
    (state.merge config call job output).Departed := by
  have own := merge_self config state call job output
  have others := @merge_other config state call job output
  constructor
  case unmarked => exact departed.unmarked
  case gone =>
    intro level table member other old reclaimed
    by_cases here : other = call
    · rw [here, own] at reclaimed
      exact absurd reclaimed List.not_mem_nil
    · rw [others other here] at reclaimed
      exact departed.gone level table member other old reclaimed
  case marks =>
    intro other
    by_cases here : other = call
    · rw [here, own]
      exact True.intro
    · rw [others other here]
      exact departed.marks other
  case unlinked => exact departed.unlinked

theorem Departed.mark
    (departed : state.Departed) {done pending : List SSTable}
    {table : SSTable}
    (phase : state.calls call = .marking done (table :: pending))
    (taken : CalmStep config call state
      (state.mark call done table pending)) :
    (state.mark call done table pending).Departed := by
  have own : (state.mark call done table pending).calls call =
      .marking (done ++ [table]) pending := setCall_self ..
  have marks := departed.marksAt phase
  refine departed.calm taken ?_ ?_ ?_
  · rw [own]
    intro other member
    rcases List.mem_append.mp member with before | here
    · exact List.mem_cons_of_mem _ (marks other before)
    · rw [List.mem_singleton.mp here]
      exact List.mem_cons_self ..
  · exact fun name member => List.mem_cons_of_mem _ member
  · exact fun name member =>
      List.mem_cons_of_mem _ (departed.unlinked name member)

theorem Departed.unlink
    (departed : state.Departed) {table : SSTable} {pending : List SSTable}
    (phase : state.calls call = .reclaiming .unlinking (table :: pending))
    (taken : CalmStep config call state (state.unlink call table pending)) :
    (state.unlink call table pending).Departed := by
  have own : (state.unlink call table pending).calls call =
      .reclaiming .waiting pending := setCall_self ..
  have marks := departed.marksAt phase
  refine departed.calm taken ?_ (fun name member => member) ?_
  · rw [own]
    exact fun other member => marks other (List.mem_cons_of_mem _ member)
  · intro name member
    rcases List.mem_cons.mp member with rfl | before
    · exact marks table (List.mem_cons_self ..)
    · exact departed.unlinked name before

theorem Departed.step
    {action : CompactionAction} (named : state.Named config)
    (departed : state.Departed) (keeps : KeepsLive config state action)
    (taken : CompactionStep config state action state') :
    state'.Departed := by
  have whole := taken
  have same : ∀ name ∈ state.marked, name ∈ state.marked :=
    fun name member => member
  cases taken with
  | takeFlag phase free =>
      refine departed.calm (whole.calm rfl) ?_ same departed.unlinked
      exact (setCall_self state _ .flagged).symm ▸ True.intro
  | skip phase => exact departed.setCall (whole.calm rfl) True.intro
  | choose phase due => exact departed.setCall (whole.calm rfl) True.intro
  | snapshotLevel phase due =>
      exact departed.setCall (whole.calm rfl) True.intro
  | snapshotAll phase needed =>
      exact departed.setCall (whole.calm rfl) True.intro
  | readInput phase unmarked =>
      exact departed.setCall (whole.calm rfl) True.intro
  | merge phase => exact departed.merge
  | install phase => exact departed.install named phase keeps
  | giveUp before =>
      refine departed.calm (whole.calm rfl) ?_ same departed.unlinked
      exact (setCall_self state _ .returned).symm ▸ True.intro
  | mark phase => exact departed.mark phase (whole.calm rfl)
  | startReclaim phase =>
      have marks := departed.marksAt phase
      exact departed.setCall (whole.calm rfl) marks
  | waitForReaders phase =>
      have marks := departed.marksAt phase
      exact departed.setCall (whole.calm rfl) marks
  | checkReaders phase =>
      have marks := departed.marksAt phase
      exact departed.setCall (whole.calm rfl) marks
  | unlink phase => exact departed.unlink phase (whole.calm rfl)
  | leave phase =>
      have marks := departed.marksAt phase
      exact departed.setCall (whole.calm rfl)
        fun table member => marks table (List.mem_cons_of_mem _ member)
  | finish phase => exact departed.setCall (whole.calm rfl) True.intro
  | draw free =>
      exact ⟨departed.unmarked, departed.gone, departed.marks,
        departed.unlinked⟩
  | push drawn name whole => exact departed.push named drawn name

theorem Departed.noDangling
    (named : state.Named config) (departed : state.Departed) :
    state.NoDangling where
  unmarked := departed.unmarked
  linked := fun level table member unlinked =>
    departed.unmarked level table member (departed.unlinked _ unlinked)
  once := named.unique
  oneLevel := by
    intro level table member level' table' member' same
    rw [← named.placed level table member, same]
    exact named.placed level' table' member'

end CompactionState

/-- A step that names new files freshly and puts no lost table back. -/
def KeepsFiles (config : CompactionConfig) (state : CompactionState)
    (action : CompactionAction) : Prop :=
  FreshOutput config state action ∧ KeepsLive config state action

/-- In a run whose installs put no table back that has left the map, the live
map never holds a marked or unlinked file, nor a path twice. -/
theorem no_dangling_file
    (config : CompactionConfig) {start state : CompactionState}
    (rest : start.AtRest)
    (run : Reaches (CompactionStep config) (KeepsFiles config) start state) :
    state.NoDangling := by
  have both : state.Named config ∧ state.Departed := by
    refine run.invariant
      (fun state => state.Named config ∧ state.Departed)
      ⟨rest.named, rest.departed⟩ ?_
    intro before action after kept sound taken
    exact ⟨kept.1.step sound.1 taken, kept.2.step kept.1 sound.2 taken⟩
  exact both.2.noDangling both.1

/-! ## A table that is put back -/

/-- Merges of tables that are created in the same hour. -/
def hourlyConfig : CompactionConfig :=
  { leveledConfig with strategy := .timeWindowed }

/-- A table of level 1 with one key, created at the given second. -/
def agedTable (key : String) (uniq createdAt : Nat) (compressed : Bool) :
    SSTable :=
  ⟨.compaction 1 10 uniq, [⟨key, .bool true, uniq + 1, false⟩], 100,
    createdAt, compressed⟩

/-- Two tables of the first hour and one, from an older version of the
program, of the second. -/
def agedTables : List SSTable :=
  [agedTable "a" 0 0 true, agedTable "b" 1 0 true,
    agedTable "c" 2 3600 false]

def agedState : CompactionState :=
  { levels := fun level => if level = 1 then agedTables else []
    compacting := false
    calls := fun _ => .idle
    marked := []
    unlinked := []
    sequenceNumber := 10
    drawn := []
    names := agedTables.map (·.name)
    published := [] }

def agedJob : CompactionJob := .ifNeeded 1 [0, 1] agedTables

/-- Call 1 has taken the flag and a snapshot. -/
def agedReading : CompactionState :=
  ({ agedState.setCall 1 .flagged with compacting := true }.setCall 1
    (.chosen 1)).snapshotLevel hourlyConfig 1 1 [0, 1]

/-- It has read and merged the tables of the first hour. -/
def agedMerged : CompactionState :=
  ((agedReading.setCall 1 (.reading agedJob
    [agedTable "b" 1 0 true])).setCall 1 (.reading agedJob [])).merge
      hourlyConfig 1 agedJob (outputFiles 20)

theorem agedState_atRest : agedState.AtRest := by
  have live : ∀ level, agedState.levels level = agedTables ∧ level = 1 ∨
      agedState.levels level = [] := by
    intro level
    by_cases here : level = 1
    · exact Or.inl ⟨if_pos here, here⟩
    · exact Or.inr (if_neg here)
  constructor
  case calls => exact fun call => Or.inl rfl
  case free => rfl
  case placed =>
    intro level table member
    rcases live level with ⟨same, rfl⟩ | empty
    · revert table
      decide
    · rw [empty] at member
      exact absurd member List.not_mem_nil
  case unique =>
    intro level
    rcases live level with ⟨same, rfl⟩ | empty
    · decide
    · rw [empty]
      exact List.nodup_nil
  case used =>
    intro level table member
    rcases live level with ⟨same, -⟩ | empty
    · exact List.mem_map_of_mem (same ▸ member)
    · rw [empty] at member
      exact absurd member List.not_mem_nil
  case unmarked => exact fun level table member => List.not_mem_nil
  case marked => exact fun name member => absurd member List.not_mem_nil
  case unlinked => exact fun name member => absurd member List.not_mem_nil
  case drawn => rfl
  case flushed =>
    intro level sequence member
    obtain ⟨table, inTables, same⟩ := List.mem_map.mp member
    revert table
    simp [agedTables, agedTable]

theorem agedMerged_reached :
    Reaches (CompactionStep hourlyConfig) (KeepsFiles hourlyConfig)
      agedState agedMerged := by
  have reading : Reaches (CompactionStep hourlyConfig) (KeepsFiles hourlyConfig)
      agedState agedReading :=
    (((Reaches.start agedState).next (.takeFlag 1) ⟨trivial, trivial⟩
      (.takeFlag rfl rfl)).next (.choose 1 [0, 1]) ⟨trivial, trivial⟩
        (.choose rfl rfl)).next (.snapshotLevel 1 [0, 1] [0, 1])
          ⟨trivial, trivial⟩ (.snapshotLevel rfl rfl)
  refine ((reading.next (.readInput 1) ⟨trivial, trivial⟩
    (.readInput rfl List.not_mem_nil)).next (.readInput 1)
      ⟨trivial, trivial⟩ (.readInput rfl List.not_mem_nil)).next
        (.merge 1 (outputFiles 20)) ⟨?_, trivial⟩ (.merge rfl)
  rintro job ⟨⟩
  decide

/-- Alone, call 1 installs its result and the table that it left. -/
def agedInstalled : CompactionState :=
  agedMerged.install hourlyConfig 1 agedJob (outputFiles 20)

theorem agedInstalled_noDangling : agedInstalled.NoDangling := by
  refine no_dangling_file hourlyConfig agedState_atRest
    (agedMerged_reached.next (.install 1) ⟨trivial, ?_⟩ (.install rfl))
  rintro job output ⟨⟩ table member
  exact (mem_remainingTables.mp member).1

/-- Call 2 is `compact_all`; it installs and unlinks everything while call 1
waits for the lock. -/
def agedAll : CompactionState :=
  let inputs := agedMerged.allInputs
  let job : CompactionJob := .all inputs
  let reading := ((agedMerged.snapshotAll 2).setCall 2
    (.reading job (inputs.drop 1))).setCall 2 (.reading job (inputs.drop 2))
  let merged := (reading.setCall 2 (.reading job [])).merge hourlyConfig 2
    job (outputFiles 30)
  let installed := merged.install hourlyConfig 2 job (outputFiles 30)
  ((installed.mark 2 [] (agedTable "a" 0 0 true) (inputs.drop 1)).mark 2
    (inputs.take 1) (agedTable "b" 1 0 true) (inputs.drop 2)).mark 2
      (inputs.take 2) (agedTable "c" 2 3600 false) []

theorem agedAll_reached :
    Reaches (CompactionStep hourlyConfig) (FreshOutput hourlyConfig)
      agedState agedAll := by
  have merged : Reaches (CompactionStep hourlyConfig)
      (FreshOutput hourlyConfig) agedState agedMerged :=
    agedMerged_reached.mono fun state action sound => sound.1
  have reading := merged.next (.snapshotAll 2) trivial
    (.snapshotAll rfl (by
      refine ⟨by decide, ?_, Or.inr rfl⟩
      exact List.cons_ne_nil _ _))
  have read := ((reading.next (.readInput 2) trivial
    (.readInput rfl List.not_mem_nil)).next (.readInput 2) trivial
      (.readInput rfl List.not_mem_nil)).next (.readInput 2) trivial
        (.readInput rfl List.not_mem_nil)
  refine ((((read.next (.merge 2 (outputFiles 30)) ?_ (.merge rfl)).next
    (.install 2) trivial (.install rfl)).next
    (.mark 2) trivial (.mark rfl)).next
    (.mark 2) trivial (.mark rfl)).next
    (.mark 2) trivial (.mark rfl)
  rintro job ⟨⟩
  decide

/-- The install of call 1 puts a marked table back. -/
def agedBack : CompactionState :=
  agedAll.install hourlyConfig 1 agedJob (outputFiles 20)

theorem marked_table_put_back :
    agedState.AtRest ∧
      Reaches (CompactionStep hourlyConfig) (FreshOutput hourlyConfig)
        agedState agedBack ∧
      agedTable "c" 2 3600 false ∈ agedBack.levels 1 ∧
      (agedTable "c" 2 3600 false).name ∈ agedBack.marked := by
  refine ⟨agedState_atRest,
    agedAll_reached.next (.install 1) trivial (.install rfl), ?_, ?_⟩
  · exact List.mem_cons_self ..
  · exact List.mem_cons_self ..

end F4kvsLsm
