import F4kvsLsm.Compaction.LiveMap

/-!
# The order of the levels above level 0

The binary search over a level needs its tables in the order of their keys,
with ranges that do not overlap.  An install keeps this order when the merged
tables were the last of their level and no other table has come into the
level since the snapshot.
-/

namespace F4kvsLsm

open Transitions

/-- A level that the binary search can search. -/
structure LevelOrder (files : List SSTable) : Prop where
  sorted : files.Pairwise fun first second =>
    first.largestKey ≤ second.largestKey
  disjoint : files.Pairwise fun first second =>
    first.largestKey < second.smallestKey ∨
      second.largestKey < first.smallestKey
  found : ∀ entry ∈ allEntries files,
    (findSstableForKey files entry.key).bind (·.lookup entry.key) = some entry

theorem Leveled.levelOrder
    {files : List SSTable} (leveled : Leveled files) : LevelOrder files where
  sorted := leveled.largestSorted
  disjoint := by
    refine leveled.apart.imp_of_mem fun firstMember secondMember apart => ?_
    have firstWhole := leveled.wellFormed _ firstMember
    have secondWhole := leveled.wellFormed _ secondMember
    obtain ⟨large, largeMember, largeKey⟩ := firstWhole.exists_largest
    obtain ⟨least, leastMember, leastKey⟩ := secondWhole.exists_smallest
    left
    rw [← largeKey, ← leastKey]
    exact apart large largeMember least leastMember
  found := fun _ member =>
    (leveled.getFromLevel_eq_some_iff 0).mpr ⟨member, rfl⟩

/-- Above level 0 an install merges the last tables of its snapshot, and no
table has come into the level since. -/
def InstallsEnd (config : CompactionConfig) (state : CompactionState) :
    CompactionAction → Prop
  | .install call =>
      ∀ job output, state.calls call = .compacted job output →
        job.target ≠ 0 →
          (∃ front, job.snapshot = front ++ job.inputs config) ∧
            concurrentUnmarked state.marked (state.levels job.target)
              job.snapshot = []
  | _ => True

/-- The snapshots that go back into a level above level 0 are in order. -/
def CompactionJob.Ordered : CompactionJob → Prop
  | .ifNeeded 0 _ _ => True
  | .ifNeeded (_ + 1) _ snapshot => Leveled snapshot
  | .all _ => True

namespace CompactionState

variable {config : CompactionConfig} {state state' : CompactionState}
variable {call : Nat}

/-- Every level above level 0 is in order, now and after a calm install. -/
structure LevelsOrdered (state : CompactionState) : Prop where
  levels : ∀ level, Leveled (state.levels (level + 1))
  jobs : ∀ call job, (state.calls call).job = some job → job.Ordered

theorem LevelsOrdered.takenFrom
    (ordered : state.LevelsOrdered) {job : CompactionJob}
    (fresh : job.TakenFrom state) : job.Ordered := by
  cases job with
  | ifNeeded level order snapshot =>
      have same : snapshot = state.levels level := fresh
      subst same
      cases level with
      | zero => exact True.intro
      | succ level => exact ordered.levels level
  | all inputs => exact True.intro

theorem LevelsOrdered.calm
    (ordered : state.LevelsOrdered)
    (taken : CalmStep config call state state') : state'.LevelsOrdered where
  levels := taken.levels ▸ ordered.levels
  jobs := by
    intro other job found
    by_cases own : other = call
    · rw [own] at found
      rcases taken.job job found with before | fresh
      · exact ordered.jobs call job before
      · exact ordered.takenFrom fresh
    · rw [taken.others other own] at found
      exact ordered.jobs other job found

theorem LevelsOrdered.install
    (named : state.Named config) (ordered : state.LevelsOrdered)
    {job : CompactionJob} {output : OutputFiles}
    (phase : state.calls call = .compacted job output)
    (installs : InstallsEnd config state (.install call)) :
    (state.install config call job output).LevelsOrdered := by
  have found : (state.calls call).job = some job := by rw [phase]; rfl
  have names := (named.jobs call job found).unique
  have snapshotOrdered := ordered.jobs call job found
  constructor
  case levels =>
    intro level
    by_cases touched : job.Touches (level + 1)
    · cases job with
      | ifNeeded target order snapshot =>
          have here : level + 1 = target := touched
          subst here
          obtain ⟨⟨front, split⟩, nothing⟩ :=
            installs _ output phase (Nat.succ_ne_zero level)
          have split' : snapshot = front ++ selectSstablesForCompaction
            config order (level + 1) snapshot := split
          have kept : compactLevel config order output (level + 1) snapshot =
              remainingTables snapshot (selectSstablesForCompaction config
                order (level + 1) snapshot) ++
              mergedTables config output (level + 1)
                (selectSstablesForCompaction config order (level + 1)
                  snapshot) :=
            compactLevel_eq config order output (fun _ => snapshot) (level + 1)
          have nothing' : concurrentUnmarked state.marked
            (state.levels (level + 1)) snapshot = [] := nothing
          simp only [CompactionState.install, CompactionJob.install,
            Function.update_self]
          rw [nothing', List.append_nil, kept]
          generalize selectSstablesForCompaction config order (level + 1)
            snapshot = group at split'
          have leveled : Leveled snapshot := snapshotOrdered
          rw [CompactionJob.snapshot] at names
          rw [split'] at leveled names ⊢
          exact leveled_compacted leveled names
      | all inputs =>
          have here : level + 1 = 1 := touched.resolve_left (by omega)
          obtain ⟨-, nothing⟩ := installs _ output phase Nat.one_ne_zero
          have nothing' : concurrentUnmarked state.marked (state.levels 1)
            inputs = [] := nothing
          rw [here]
          simp only [CompactionState.install, CompactionJob.install,
            Function.update_self]
          rw [nothing', List.append_nil,
            sortLeveled_eq_self (mergedTables_leveled _)]
          exact mergedTables_leveled _
    · simp only [CompactionState.install]
      rw [CompactionJob.install_of_not_touches _ _ _ _ touched]
      exact ordered.levels level
  case jobs =>
    intro other otherJob otherFound
    by_cases own : other = call
    · rw [own] at otherFound
      have none : ((state.install config call job output).calls call).job =
          none := by
        simp only [CompactionState.install, setCall_self]
        rfl
      rw [none] at otherFound
      exact absurd otherFound (by simp)
    · refine ordered.jobs other otherJob ?_
      rw [← setCall_other state _ own]
      exact otherFound

theorem LevelsOrdered.step
    {action : CompactionAction} (named : state.Named config)
    (ordered : state.LevelsOrdered)
    (installs : InstallsEnd config state action)
    (taken : CompactionStep config state action state') :
    state'.LevelsOrdered := by
  have whole := taken
  cases taken with
  | @merge caller job output phase =>
      refine ⟨ordered.levels, fun other otherJob found => ?_⟩
      by_cases own : other = caller
      · refine ordered.jobs caller otherJob ?_
        rw [own] at found
        simp only [CompactionState.merge, setCall_self] at found
        rw [phase]
        exact found
      · refine ordered.jobs other otherJob ?_
        rw [← setCall_other state _ own]
        exact found
  | install phase => exact ordered.install named phase installs
  | draw free => exact ⟨ordered.levels, ordered.jobs⟩
  | push drawn name wellFormed =>
      refine ⟨fun level => ?_, ordered.jobs⟩
      simp only [CompactionState.push, publish_succ]
      exact ordered.levels level
  | _ => exact ordered.calm (whole.calm rfl)

end CompactionState

/-- A step that names new files freshly and installs at the end of a
level. -/
def KeepsOrder (config : CompactionConfig) (state : CompactionState)
    (action : CompactionAction) : Prop :=
  FreshOutput config state action ∧ InstallsEnd config state action

/-- In a run whose installs are at the end of their level, every level above
level 0 can be searched in every state. -/
theorem levels_stay_ordered
    (config : CompactionConfig) {start state : CompactionState}
    (rest : start.AtRest)
    (ordered : ∀ level, Leveled (start.levels (level + 1)))
    (run : Reaches (CompactionStep config) (KeepsOrder config) start state)
    (level : Nat) (above : 1 ≤ level) : LevelOrder (state.levels level) := by
  have both : state.Named config ∧ state.LevelsOrdered := by
    refine run.invariant
      (fun state => state.Named config ∧ state.LevelsOrdered)
      ⟨rest.named, ordered, ?_⟩ ?_
    · intro call job found
      rcases rest.calls call with phase | phase <;> rw [phase] at found
      · exact absurd found (by simp [CompactionCall.job])
      · exact absurd found (by simp [CompactionCall.job])
    · intro before action after kept sound taken
      exact ⟨kept.1.step sound.1 taken, kept.2.step kept.1 sound.2 taken⟩
  obtain ⟨below, rfl⟩ := Nat.exists_eq_add_of_le' above
  exact (both.2.levels below).levelOrder

theorem agedState_ordered (level : Nat) :
    Leveled (agedState.levels (level + 1)) := by
  cases level with
  | zero =>
      constructor
      · have whole : ∀ key uniq createdAt compressed,
            (agedTable key uniq createdAt compressed).WellFormed :=
          fun _ _ _ _ => ⟨by simp [agedTable], by simp [agedTable],
            List.pairwise_singleton ..⟩
        intro table member
        have known : table ∈ agedTables := member
        simp only [agedTables, List.mem_cons, List.not_mem_nil,
          or_false] at known
        rcases known with rfl | rfl | rfl
        · exact whole ..
        · exact whole ..
        · exact whole ..
      · decide
  | succ level => exact ⟨by simp [agedState], List.Pairwise.nil⟩

/-- A call of `compact_all` rewrites all of level 1. -/
def agedRewritten : CompactionState :=
  let job : CompactionJob := .all agedTables
  ((((agedState.snapshotAll 2).setCall 2 (.reading job
    (agedTables.drop 1))).setCall 2 (.reading job
      (agedTables.drop 2))).setCall 2 (.reading job [])).merge hourlyConfig 2
        job (outputFiles 30) |>.install hourlyConfig 2 job (outputFiles 30)

theorem agedRewritten_ordered : LevelOrder (agedRewritten.levels 1) := by
  have read : Reaches (CompactionStep hourlyConfig)
      (KeepsOrder hourlyConfig) agedState
      ((((agedState.snapshotAll 2).setCall 2 (.reading (.all agedTables)
        (agedTables.drop 1))).setCall 2 (.reading (.all agedTables)
          (agedTables.drop 2))).setCall 2 (.reading (.all agedTables) [])) :=
    ((((Reaches.start agedState).next (.snapshotAll 2) ⟨trivial, trivial⟩
      (.snapshotAll rfl ⟨by decide, List.cons_ne_nil _ _, Or.inr rfl⟩)).next
      (.readInput 2) ⟨trivial, trivial⟩ (.readInput rfl List.not_mem_nil)).next
      (.readInput 2) ⟨trivial, trivial⟩ (.readInput rfl List.not_mem_nil)).next
      (.readInput 2) ⟨trivial, trivial⟩ (.readInput rfl List.not_mem_nil)
  refine levels_stay_ordered hourlyConfig agedState_atRest agedState_ordered
    ((read.next (.merge 2 (outputFiles 30)) ⟨?_, trivial⟩ (.merge rfl)).next
      (.install 2) ⟨trivial, ?_⟩ (.install rfl)) 1 (by decide)
  · rintro job ⟨⟩
    decide
  · rintro job output ⟨⟩ -
    exact ⟨⟨[], rfl⟩, rfl⟩

/-- A merge of the first tables of a level puts its result behind the rest,
and the search for `a` ends in the table of `c`. -/
theorem merged_front_not_ordered :
    agedState.AtRest ∧ (∀ level, Leveled (agedState.levels (level + 1))) ∧
      Reaches (CompactionStep hourlyConfig) (FreshOutput hourlyConfig)
        agedState agedInstalled ∧
      ⟨"a", .bool true, 1, false⟩ ∈ allEntries (agedInstalled.levels 1) ∧
      findSstableForKey (agedInstalled.levels 1) "a" = none ∧
      ¬ LevelOrder (agedInstalled.levels 1) := by
  have run : Reaches (CompactionStep hourlyConfig) (FreshOutput hourlyConfig)
      agedState agedInstalled :=
    (agedMerged_reached.mono fun state action kept => kept.1).next
      (.install 1) trivial (.install rfl)
  have member : ⟨"a", .bool true, 1, false⟩ ∈
      allEntries (agedInstalled.levels 1) :=
    List.mem_cons_of_mem _ (List.mem_cons_self ..)
  have missed : findSstableForKey (agedInstalled.levels 1) "a" = none := rfl
  refine ⟨agedState_atRest, agedState_ordered, run, member, missed, ?_⟩
  intro ordered
  have found := ordered.found _ member
  rw [missed] at found
  exact absurd found (by simp)

end F4kvsLsm
