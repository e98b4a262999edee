import F4kvsLsm.Compaction.LiveMap

/-!
# One `compact_if_needed` at a time

The flag `compacting` keeps calls of `compact_if_needed` apart from their
snapshot to their install, so what a call has seen is still in the live map
when it installs.
-/

namespace F4kvsLsm

/-- No step of `compact_all`. -/
def CompactionAction.OnlyIfNeeded : CompactionAction → Prop
  | .snapshotAll _ => False
  | _ => True

namespace CompactionState

variable {config : CompactionConfig} {state state' : CompactionState}
variable {call : Nat}

/-- At most one call holds the flag, and its snapshot is live. -/
structure SingleFlight (state : CompactionState) : Prop where
  flag : ∀ call, (state.calls call).holdsFlag = true →
    state.compacting = true
  one : ∀ call other, (state.calls call).holdsFlag = true →
    (state.calls other).holdsFlag = true → call = other
  live : ∀ call job, (state.calls call).job = some job →
    (state.calls call).holdsFlag = true ∧
      ∀ table ∈ job.snapshot, table ∈ state.levels job.target

theorem AtRest.singleFlight (rest : state.AtRest) : state.SingleFlight := by
  constructor
  case flag =>
    intro call holds
    rcases rest.calls call with phase | phase <;> rw [phase] at holds
    · exact absurd holds (by simp [CompactionCall.holdsFlag])
    · exact absurd holds (by simp [CompactionCall.holdsFlag])
  case one =>
    intro call other holds
    rcases rest.calls call with phase | phase <;> rw [phase] at holds
    · exact absurd holds (by simp [CompactionCall.holdsFlag])
    · exact absurd holds (by simp [CompactionCall.holdsFlag])
  case live =>
    intro call job found
    rcases rest.calls call with phase | phase <;> rw [phase] at found
    · exact absurd found (by simp [CompactionCall.job])
    · exact absurd found (by simp [CompactionCall.job])

/-- A step of a call that takes neither the flag nor a snapshot. -/
theorem SingleFlight.moves
    (flight : state.SingleFlight)
    (levels : ∀ level, ∀ table ∈ state.levels level,
      table ∈ state'.levels level)
    (others : ∀ other, other ≠ call →
      state'.calls other = state.calls other)
    (holds : (state'.calls call).holdsFlag = true →
      (state.calls call).holdsFlag = true)
    (job : ∀ job, (state'.calls call).job = some job →
      (state.calls call).job = some job ∧
        (state'.calls call).holdsFlag = true)
    (flag : ∀ other, (state'.calls other).holdsFlag = true →
      state'.compacting = true) :
    state'.SingleFlight := by
  have before : ∀ other, (state'.calls other).holdsFlag = true →
      (state.calls other).holdsFlag = true := by
    intro other otherHolds
    by_cases own : other = call
    · rw [own] at otherHolds ⊢
      exact holds otherHolds
    · rw [others other own] at otherHolds
      exact otherHolds
  constructor
  case flag => exact flag
  case one =>
    exact fun first second firstHolds secondHolds =>
      flight.one first second (before first firstHolds)
        (before second secondHolds)
  case live =>
    intro other otherJob found
    by_cases own : other = call
    · subst own
      obtain ⟨same, stillHolds⟩ := job otherJob found
      exact ⟨stillHolds, fun table member =>
        levels _ table ((flight.live other otherJob same).2 table member)⟩
    · rw [others other own] at found ⊢
      obtain ⟨otherHolds, live⟩ := flight.live other otherJob found
      exact ⟨otherHolds, fun table member =>
        levels _ table (live table member)⟩

theorem SingleFlight.setCall
    (flight : state.SingleFlight) {phase : CompactionCall}
    (holds : phase.holdsFlag = true → (state.calls call).holdsFlag = true)
    (job : ∀ job, phase.job = some job →
      (state.calls call).job = some job ∧ phase.holdsFlag = true) :
    (state.setCall call phase).SingleFlight := by
  have own := state.setCall_self call phase
  refine flight.moves (fun level table member => member)
    (fun other => state.setCall_other phase) ?_ ?_ ?_
  · rw [own]
    exact holds
  · rw [own]
    exact job
  · intro other otherHolds
    by_cases here : other = call
    · rw [here, own] at otherHolds
      exact flight.flag call (holds otherHolds)
    · rw [state.setCall_other phase here] at otherHolds
      exact flight.flag other otherHolds

theorem SingleFlight.released
    (flight : state.SingleFlight) {other : Nat} (different : other ≠ call)
    (holds : (state.calls other).holdsFlag = true) :
    state.released call = true := by
  have notCall : (state.calls call).holdsFlag = false := by
    by_contra callHolds
    rw [Bool.not_eq_false] at callHolds
    exact different (flight.one other call holds callHolds)
  rw [CompactionState.released, flight.flag other holds, notCall]
  rfl

theorem SingleFlight.giveUp (flight : state.SingleFlight) :
    (state.giveUp call).SingleFlight := by
  have own : (state.giveUp call).calls call = .returned := setCall_self ..
  have others : ∀ other, other ≠ call →
      (state.giveUp call).calls other = state.calls other :=
    fun other => setCall_other state _
  refine flight.moves (fun level table member => member) others ?_ ?_ ?_
  · rw [own]
    exact fun holds => absurd holds (by simp [CompactionCall.holdsFlag])
  · rw [own]
    exact fun job found => absurd found (by simp [CompactionCall.job])
  · intro other holds
    by_cases here : other = call
    · rw [here, own] at holds
      exact absurd holds (by simp [CompactionCall.holdsFlag])
    · rw [others other here] at holds
      exact flight.released here holds

theorem SingleFlight.install
    (flight : state.SingleFlight) {job : CompactionJob}
    {output : OutputFiles} (phase : state.calls call = .compacted job output) :
    (state.install config call job output).SingleFlight := by
  have own := install_self config state call job output
  have others := @install_other config state call job output
  have callHolds := (flight.live call job (by rw [phase]; rfl)).1
  have noHolder : ∀ other,
      ((state.install config call job output).calls other).holdsFlag ≠
        true := by
    intro other holds
    by_cases here : other = call
    · rw [here, own] at holds
      exact absurd holds (by simp [CompactionCall.holdsFlag])
    · rw [others other here] at holds
      exact here (flight.one other call holds callHolds)
  constructor
  case flag => exact fun other holds => absurd holds (noHolder other)
  case one => exact fun first _ holds => absurd holds (noHolder first)
  case live =>
    intro other otherJob found
    by_cases here : other = call
    · rw [here, own] at found
      exact absurd found (by simp [CompactionCall.job])
    · have otherHolds := noHolder other
      rw [others other here] at found otherHolds
      exact absurd (flight.live other otherJob found).1 otherHolds

theorem SingleFlight.takeFlag
    (flight : state.SingleFlight) (free : state.compacting = false) :
    SingleFlight { state.setCall call .flagged with compacting := true } := by
  have noHolder : ∀ other, (state.calls other).holdsFlag ≠ true := by
    intro other holds
    rw [flight.flag other holds] at free
    exact absurd free (by simp)
  have own : ({ state.setCall call .flagged with
      compacting := true } : CompactionState).calls call = .flagged :=
    setCall_self ..
  have others : ∀ other, other ≠ call →
      ({ state.setCall call .flagged with
        compacting := true } : CompactionState).calls other =
        state.calls other :=
    fun other => setCall_other state _
  constructor
  case flag => exact fun _ _ => rfl
  case one =>
    intro first second firstHolds secondHolds
    have isCall : ∀ other, (({ state.setCall call .flagged with
        compacting := true } : CompactionState).calls other).holdsFlag =
        true → other = call := by
      intro other holds
      by_contra different
      rw [others other different] at holds
      exact noHolder other holds
    rw [isCall first firstHolds, isCall second secondHolds]
  case live =>
    intro other job found
    by_cases here : other = call
    · rw [here, own] at found
      exact absurd found (by simp [CompactionCall.job])
    · rw [others other here] at found
      exact absurd (flight.live other job found).1 (noHolder other)

theorem SingleFlight.snapshotLevel
    (flight : state.SingleFlight) {level : Nat}
    (phase : state.calls call = .chosen level) (selection : List Nat) :
    (state.snapshotLevel config call level selection).SingleFlight := by
  have own : (state.snapshotLevel config call level selection).calls call =
      .reading (.ifNeeded level selection (state.levels level))
        (selectSstablesForCompaction config selection level
          (state.levels level)) := setCall_self ..
  have others : ∀ other, other ≠ call →
      (state.snapshotLevel config call level selection).calls other =
        state.calls other :=
    fun other => setCall_other state _
  have callHolds : (state.calls call).holdsFlag = true := by rw [phase]; rfl
  have isCall : ∀ other,
      ((state.snapshotLevel config call level selection).calls
        other).holdsFlag = true → other = call := by
    intro other holds
    by_contra different
    rw [others other different] at holds
    exact different (flight.one other call holds callHolds)
  constructor
  case flag => exact fun _ _ => flight.flag call callHolds
  case one =>
    intro first second firstHolds secondHolds
    rw [isCall first firstHolds, isCall second secondHolds]
  case live =>
    intro other job found
    by_cases here : other = call
    · rw [here, own] at found ⊢
      rw [← Option.some.inj found]
      exact ⟨rfl, fun table member => member⟩
    · rw [others other here] at found
      exact absurd (flight.one other call
        (flight.live other job found).1 callHolds) here

theorem SingleFlight.push
    (flight : state.SingleFlight) {sequence : Nat} {table : SSTable} :
    (state.push sequence table).SingleFlight where
  flag := flight.flag
  one := flight.one
  live := by
    intro call job found
    obtain ⟨holds, live⟩ := flight.live call job found
    refine ⟨holds, fun other member => ?_⟩
    have before := live other member
    cases level : job.target with
    | zero =>
        simp only [CompactionState.push, publish_zero]
        rw [level] at before
        exact List.mem_append_left _ before
    | succ below =>
        simp only [CompactionState.push, publish_succ]
        rw [level] at before
        exact before

theorem SingleFlight.step
    {action : CompactionAction} (flight : state.SingleFlight)
    (only : action.OnlyIfNeeded)
    (taken : CompactionStep config state action state') :
    state'.SingleFlight := by
  have noFlag : ∀ {call : Nat}, false = true →
      (state.calls call).holdsFlag = true :=
    fun impossible => absurd impossible (by simp)
  have noJob : ∀ {call : Nat} {holds : Bool} (job : CompactionJob),
      none = some job →
        (state.calls call).job = some job ∧ holds = true :=
    fun job found => absurd found (by simp)
  cases taken with
  | takeFlag phase free => exact flight.takeFlag free
  | skip phase => exact flight.setCall noFlag noJob
  | choose phase due =>
      exact flight.setCall (fun _ => by rw [phase]; rfl) noJob
  | snapshotLevel phase due => exact flight.snapshotLevel phase _
  | snapshotAll phase needed => exact only.elim
  | @readInput caller job table pending phase unmarked =>
      have holds := (flight.live caller job (by rw [phase]; rfl)).1
      refine flight.setCall (fun _ => holds) fun other found => ?_
      rw [phase] at holds ⊢
      refine ⟨found, ?_⟩
      cases job with
      | ifNeeded level order snapshot => rfl
      | all inputs => exact holds
  | @merge caller job output phase =>
      have holds := (flight.live caller job (by rw [phase]; rfl)).1
      have moved : (state.setCall caller
          (.compacted job output)).SingleFlight := by
        refine flight.setCall (fun _ => holds) fun other found => ?_
        rw [phase] at holds ⊢
        refine ⟨found, ?_⟩
        cases job with
        | ifNeeded level order snapshot => rfl
        | all inputs => exact holds
      exact ⟨moved.flag, moved.one, moved.live⟩
  | install phase => exact flight.install phase
  | giveUp before => exact flight.giveUp
  | @mark caller done table pending phase =>
      have moved : (state.setCall caller
          (.marking (done ++ [table]) pending)).SingleFlight :=
        flight.setCall noFlag noJob
      exact ⟨moved.flag, moved.one, moved.live⟩
  | startReclaim phase => exact flight.setCall noFlag noJob
  | waitForReaders phase => exact flight.setCall noFlag noJob
  | checkReaders phase => exact flight.setCall noFlag noJob
  | @unlink caller table pending phase =>
      have moved : (state.setCall caller
          (.reclaiming .waiting pending)).SingleFlight :=
        flight.setCall noFlag noJob
      exact ⟨moved.flag, moved.one, moved.live⟩
  | leave phase => exact flight.setCall noFlag noJob
  | finish phase => exact flight.setCall noFlag noJob
  | draw free => exact ⟨flight.flag, flight.one, flight.live⟩
  | push drawn name whole => exact flight.push

/-- So an install puts back only what is still live. -/
theorem SingleFlight.keepsLive
    (flight : state.SingleFlight) (action : CompactionAction) :
    KeepsLive config state action := by
  cases action with
  | install call =>
      intro job output phase table member
      exact (flight.live call job (by rw [phase]; rfl)).2 table
        (CompactionJob.kept_sub member)
  | _ => exact True.intro

end CompactionState

end F4kvsLsm
