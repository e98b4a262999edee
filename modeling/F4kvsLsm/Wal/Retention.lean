import F4kvsLsm.Wal.Cleanup

/-!
# Retention of closed segments

A cleanup removes the closed segments that were created before a cutoff, the
clock less the retention.  The indexed backend stops that difference at zero.
The other two subtract as they are: a retention that is longer than the clock
panics in a build with overflow checks, and in a release build it wraps
around to a cutoff that everything is older than.
-/

namespace F4kvsLsm

/-- Builds with and without overflow checks. -/
inductive BuildProfile where
  | dev
  | release

/-- `std::time::Duration`. -/
structure Duration where
  secs : UInt64
  nanos : Fin 1000000000

/-- By seconds, then by nanoseconds. -/
instance : LE Duration where
  le first second := first.secs < second.secs ∨
    first.secs = second.secs ∧ first.nanos ≤ second.nanos

theorem Duration.secs_le {first second : Duration} (le : first ≤ second) :
    first.secs ≤ second.secs := by
  rcases le with less | ⟨same, -⟩
  · exact UInt64.le_of_lt less
  · exact UInt64.le_of_eq same

/-- The subtraction of `u64`; it may panic. -/
def BuildProfile.subtract (profile : BuildProfile) (now period : UInt64) :
    Option UInt64 :=
  match profile with
  | .dev => if period ≤ now then some (now - period) else none
  | .release => some (now - period)

theorem saturatingSub_toNat (now period : UInt64) :
    (saturatingSub now period).toNat = now.toNat - period.toNat := by
  rw [saturatingSub]
  split
  · case isTrue within => exact UInt64.toNat_sub_of_le _ _ within
  · case isFalse beyond =>
      rw [UInt64.le_iff_toNat_le] at beyond
      rw [UInt64.toNat_zero]
      omega

/-- The subtraction is what the clock less the period should be exactly when
the period is no longer than the clock. -/
theorem BuildProfile.subtract_exact_iff
    (profile : BuildProfile) (now period : UInt64) :
    (∃ cutoff, profile.subtract now period = some cutoff ∧
      cutoff.toNat = now.toNat - period.toNat) ↔ period ≤ now := by
  by_cases within : period ≤ now
  · refine iff_of_true ⟨now - period, ?_, ?_⟩ within
    · cases profile with
      | dev => rw [subtract, if_pos within]
      | release => rfl
    · exact UInt64.toNat_sub_of_le _ _ within
  · refine iff_of_false ?_ within
    rintro ⟨cutoff, computed, value⟩
    cases profile with
    | dev =>
        rw [subtract, if_neg within] at computed
        cases computed
    | release =>
        cases computed
        have clock := now.toNat_lt
        have longest := period.toNat_lt
        rw [UInt64.le_iff_toNat_le] at within
        rw [UInt64.toNat_sub] at value
        omega

/-- A cleanup that ends, one that ends with an error before it looks at any
segment, and one that panics. -/
inductive CleanupOutcome where
  | finished (handle : WalHandle)
  | failed (message : String)
  | panicked

namespace WalHandle

/-- The segments in the directory, each with the second of its creation. -/
def segmentFiles : WalHandle → List (Nat × UInt64)
  | .segment wal => wal.dir.map fun file => (file.id, file.created)
  | .frame wal => wal.dir.map fun file => (file.id, file.created)
  | .indexed wal =>
      wal.disk.dirs.map fun dir => (dir.segmentId, dir.created)

/-- The segment is among those that this manager has closed. -/
def isClosed (handle : WalHandle) (id : Nat) : Bool :=
  match handle with
  | .segment wal => wal.segments.any fun closed => closed.2 = id
  | .frame wal => wal.segments.any fun closed => closed.2 = id
  | .indexed wal => wal.segments.contains id

def cutoff (profile : BuildProfile) (handle : WalHandle)
    (now period : UInt64) : Option UInt64 :=
  match handle with
  | .segment _ => profile.subtract now period
  | .frame _ => profile.subtract now period
  | .indexed _ => some (saturatingSub now period)

def removeOlder (handle : WalHandle) (cutoff : UInt64) : WalHandle :=
  match handle with
  | .segment wal => .segment (wal.removeOlder cutoff)
  | .frame wal => .frame (wal.removeOlder cutoff)
  | .indexed wal => .indexed (wal.removeOlder cutoff)

/-- What the error prints when the clock is before the epoch. -/
def clockError (handle : WalHandle) : String :=
  let text := "second time provided was later than self"
  match handle with
  | .segment _ =>
      "Storage error: System time error: system time is before UNIX epoch: " ++
        text
  | .frame _ => (LsmError.internal text).display
  | .indexed _ => (LsmError.internal text).display

/-- `cleanup_old_segments`; there is no clock before the epoch. -/
def cleanupOld (profile : BuildProfile) (clock : Option UInt64)
    (retentionPeriod : Duration) (handle : WalHandle) : CleanupOutcome :=
  match clock with
  | none => .failed handle.clockError
  | some now =>
      match handle.cutoff profile now retentionPeriod.secs with
      | none => .panicked
      | some cutoff => .finished (handle.removeOlder cutoff)

/-- The cleanup removes the segment. -/
def RemovesOld (profile : BuildProfile) (clock : Option UInt64)
    (retentionPeriod : Duration) (handle : WalHandle)
    (segment : Nat × UInt64) : Prop :=
  segment ∈ handle.segmentFiles ∧
    ∃ after, handle.cleanupOld profile clock retentionPeriod =
      .finished after ∧ segment ∉ after.segmentFiles

/-- The cutoff of the cleanup is the clock less the retention, or the epoch
when the retention is longer: it neither panics nor wraps around. -/
def CutoffExact (profile : BuildProfile) (clock : Option UInt64)
    (retentionPeriod : Duration) (handle : WalHandle) : Prop :=
  ∀ now, clock = some now → ∃ cutoff,
    handle.cutoff profile now retentionPeriod.secs = some cutoff ∧
      cutoff.toNat = now.toNat - retentionPeriod.secs.toNat

/-- The background task of a release build runs this cleanup. -/
theorem cleanupOld_release
    (handle : WalHandle) (now : UInt64) (retentionPeriod : Duration) :
    handle.cleanupOld .release (some now) retentionPeriod =
      .finished (handle.cleanupOldSegments retentionPeriod.secs now) := by
  cases handle <;> rfl

variable {profile : BuildProfile} {handle : WalHandle}
  {clock : Option UInt64}

theorem mem_removeOlder {cutoff : UInt64} {segment : Nat × UInt64} :
    segment ∈ (handle.removeOlder cutoff).segmentFiles ↔
      segment ∈ handle.segmentFiles ∧
        ¬ (handle.isClosed segment.1 = true ∧ segment.2 < cutoff) := by
  obtain ⟨id, created⟩ := segment
  cases handle with
  | segment wal =>
      simp only [removeOlder, segmentFiles, FileWal.removeOlder, isClosed,
        FileWal.isClosed, List.mem_map, List.mem_filter]
      grind
  | frame wal =>
      simp only [removeOlder, segmentFiles, FileWal.removeOlder, isClosed,
        FileWal.isClosed, List.mem_map, List.mem_filter]
      grind
  | indexed wal =>
      simp only [removeOlder, segmentFiles, IndexedWal.removeOlder, isClosed,
        IndexedWal.isSealed, List.mem_map, List.mem_filter]
      grind

theorem removesOld_iff
    {now cutoff : UInt64} {retentionPeriod : Duration}
    (computed : handle.cutoff profile now retentionPeriod.secs = some cutoff)
    (segment : Nat × UInt64) :
    handle.RemovesOld profile (some now) retentionPeriod segment ↔
      segment ∈ handle.segmentFiles ∧
        handle.isClosed segment.1 = true ∧ segment.2 < cutoff := by
  have finished : handle.cleanupOld profile (some now) retentionPeriod =
      .finished (handle.removeOlder cutoff) := by
    simp only [cleanupOld, computed]
  simp only [RemovesOld, finished, CleanupOutcome.finished.injEq]
  constructor
  · rintro ⟨member, after, rfl, gone⟩
    exact ⟨member, by_contra fun stays =>
      gone (mem_removeOlder.mpr ⟨member, stays⟩)⟩
  · rintro ⟨member, old⟩
    exact ⟨member, _, rfl, fun still => (mem_removeOlder.mp still).2 old⟩

theorem cutoff_exact_iff (now period : UInt64) :
    (∃ cutoff, handle.cutoff profile now period = some cutoff ∧
      cutoff.toNat = now.toNat - period.toNat) ↔
        handle.disk.engine = .indexed ∨ period ≤ now := by
  cases handle with
  | segment wal =>
      rw [cutoff, profile.subtract_exact_iff]
      exact (or_iff_right WalEngine.noConfusion).symm
  | frame wal =>
      rw [cutoff, profile.subtract_exact_iff]
      exact (or_iff_right WalEngine.noConfusion).symm
  | indexed wal =>
      exact iff_of_true ⟨_, rfl, saturatingSub_toNat now period⟩ (Or.inl rfl)

theorem cutoffExact_iff (retentionPeriod : Duration) :
    handle.CutoffExact profile clock retentionPeriod ↔
      handle.disk.engine = .indexed ∨
        ∀ now, clock = some now → retentionPeriod.secs ≤ now := by
  rw [CutoffExact]
  simp only [cutoff_exact_iff]
  grind

/-- For a longer retention the cutoff is computed as it should be, and no
other segments are removed than for a shorter one, exactly in the indexed
backend or when the longer retention does not reach back past the epoch. -/
theorem retention_is_monotone_iff
    (profile : BuildProfile) (clock : Option UInt64) (handle : WalHandle)
    {shorter longer : Duration} (ordered : shorter ≤ longer) :
    (handle.CutoffExact profile clock shorter ∧
      handle.CutoffExact profile clock longer ∧
      ∀ segment, handle.RemovesOld profile clock longer segment →
        handle.RemovesOld profile clock shorter segment) ↔
      handle.disk.engine = .indexed ∨
        ∀ now, clock = some now → longer.secs ≤ now := by
  have exact_iff := @cutoffExact_iff profile handle clock longer
  rw [← exact_iff]
  constructor
  · rintro ⟨-, longExact, -⟩
    exact longExact
  · intro longExact
    have secs := Duration.secs_le ordered
    have shortExact : handle.CutoffExact profile clock shorter := by
      rw [cutoffExact_iff] at longExact ⊢
      exact longExact.imp_right fun within now at_now =>
        UInt64.le_trans secs (within now at_now)
    refine ⟨shortExact, longExact, fun segment removed => ?_⟩
    obtain ⟨member, after, finished, gone⟩ := removed
    cases clock with
    | none => cases finished
    | some now =>
        obtain ⟨early, earlyOk, earlyValue⟩ := longExact now rfl
        obtain ⟨late, lateOk, lateValue⟩ := shortExact now rfl
        have old := (removesOld_iff earlyOk segment).mp
          ⟨member, after, finished, gone⟩
        refine (removesOld_iff lateOk segment).mpr ⟨old.1, old.2.1, ?_⟩
        have created := old.2.2
        rw [UInt64.lt_iff_toNat_lt] at created ⊢
        rw [UInt64.le_iff_toNat_le] at secs
        omega

/-- A segment that was closed a second before the cleanup. -/
def closedSecondAgo : WalHandle :=
  .segment ⟨[⟨1, 999, []⟩], none, [(1, 1)], 2⟩

/-- Ten seconds and a quarter of an hour, at second one thousand. -/
theorem quarter_hour_is_monotone :
    closedSecondAgo.CutoffExact .release (some 1000) ⟨10, 0⟩ ∧
      closedSecondAgo.CutoffExact .release (some 1000) ⟨900, 0⟩ ∧
      ∀ segment,
        closedSecondAgo.RemovesOld .release (some 1000) ⟨900, 0⟩ segment →
          closedSecondAgo.RemovesOld .release (some 1000) ⟨10, 0⟩ segment := by
  refine (retention_is_monotone_iff .release (some 1000) closedSecondAgo
    (Or.inl (by decide))).mpr (Or.inr ?_)
  rintro now same
  cases same
  decide

/-- A retention that is a second longer than the clock: a build with overflow
checks panics, and a release build removes the segment that ten seconds of
retention keep. -/
theorem retention_past_epoch_removes_all :
    closedSecondAgo.cleanupOld .dev (some 1000) ⟨1001, 0⟩ = .panicked ∧
      ¬ ∀ segment,
        closedSecondAgo.RemovesOld .release (some 1000) ⟨1001, 0⟩ segment →
          closedSecondAgo.RemovesOld .release (some 1000) ⟨10, 0⟩ segment := by
  refine ⟨rfl, fun monotone => ?_⟩
  have removed : closedSecondAgo.RemovesOld .release (some 1000) ⟨1001, 0⟩
      (1, 999) :=
    (removesOld_iff rfl (1, 999)).mpr ⟨by decide, rfl, by decide⟩
  have kept := (removesOld_iff rfl (1, 999)).mp (monotone (1, 999) removed)
  exact absurd kept.2.2 (by decide)

end WalHandle

end F4kvsLsm
