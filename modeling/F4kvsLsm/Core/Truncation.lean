import F4kvsLsm.Core.Recovery
import F4kvsLsm.Wal.Handle

/-!
# Crashes while the log is being truncated

`truncate_after_flush` removes the segment files in the order in which the
directory lists them.  A crash on the way leaves the rest of the listing, and
the next start replays what is left on top of the tables.  That is harmless
exactly when the newest surviving record of every key has the effect that the
tables already have.
-/

namespace F4kvsLsm

open ByteCodec KeyedLog Versions

namespace FileWal

/-- A log directory, listed in any order. -/
def Listing (dir : List WalFile) : Prop :=
  OnDisk .segment (sortById dir)

/-- The entries of a log directory in the order in which they were written. -/
def logEntries (config : WalConfig) (dir : List WalFile) : List WALEntry :=
  recovered .segment config (sortById dir)

variable {config : WalConfig}

theorem sortById_sorted (dir : List WalFile) :
    (sortById dir).Pairwise (fun first second => first.id ≤ second.id) :=
  sortByStamp_nondecreasing WalFile.id dir

theorem mem_sortById {dir : List WalFile} {file : WalFile} :
    file ∈ sortById dir ↔ file ∈ dir :=
  mem_sortByStamp

/-- Files with different numbers are sorted strictly. -/
theorem sortById_ascending
    {dir : List WalFile} (distinct : (dir.map (·.id)).Nodup) :
    Ascending (sortById dir) := by
  have perm : (sortById dir).Perm dir := List.perm_insertionSort _ dir
  have sortedDistinct : ((sortById dir).map (·.id)).Nodup :=
    (perm.map _).nodup_iff.mpr distinct
  rw [List.Nodup, List.pairwise_map] at sortedDistinct
  refine ((sortById_sorted dir).and sortedDistinct).imp ?_
  rintro first second ⟨notLater, different⟩
  omega

theorem Listing.ids_nodup {dir : List WalFile} (listing : Listing dir) :
    (dir.map (·.id)).Nodup := by
  have perm : (sortById dir).Perm dir := List.perm_insertionSort _ dir
  refine (perm.map _).nodup_iff.mp ?_
  rw [List.Nodup, List.pairwise_map]
  exact listing.ascending.imp fun less => Nat.ne_of_lt less

/-- What is left of a log directory is a log directory. -/
theorem Listing.removeListed
    {dir : List WalFile} (listing : Listing dir) (count : Nat) :
    Listing (removeListed dir count) := by
  have fewer : (dir.drop count).Sublist dir := List.drop_sublist count dir
  refine ⟨sortById_ascending ?_, ?_⟩
  · exact listing.ids_nodup.sublist (fewer.map _)
  · intro file member
    have kept := fewer.subset (mem_sortById.mp member)
    exact listing.headed file (mem_sortById.mpr kept)

theorem Listing.readEntriesFromDisk
    {dir : List WalFile} (listing : Listing dir) :
    readEntriesFromDisk .segment config dir =
      .ok (sortByTimestamp (logEntries config dir)) := by
  have sorted : FileWal.readEntriesFromDisk .segment config (sortById dir) =
      _ := readEntriesFromDisk_onDisk listing
  have again : sortById (sortById dir) = sortById dir :=
    sortById_eq_self listing.ascending
  simp only [FileWal.readEntriesFromDisk, WALManager.readEntriesFromDisk,
    again] at sorted ⊢
  exact sorted

theorem Ready.truncationListing
    {m : FileWal} (ready : Ready .segment config m) {dir : List WalFile}
    (order : dir.Perm (truncationListing .segment m)) :
    Listing dir ∧ logEntries config dir = recovered .segment config m.dir := by
  have flushed := flush_grows ready
  obtain ⟨older, last, own, layout⟩ := flushed.ready
  have onDisk : OnDisk .segment (flush .segment m).dir := layout.onDisk
  have distinct : ((flush .segment m).dir.map (·.id)).Nodup := by
    rw [List.Nodup, List.pairwise_map]
    exact onDisk.ascending.imp fun less => Nat.ne_of_lt less
  have ascending := sortById_ascending ((order.map _).nodup_iff.mpr distinct)
  have same : sortById dir = (flush .segment m).dir := by
    have perm : (sortById dir).Perm (flush .segment m).dir :=
      (List.perm_insertionSort _ dir).trans order
    refine List.Perm.eq_of_pairwise ?_ ascending onDisk.ascending perm
    intro first second _ _ less more
    exact absurd less (Nat.lt_asymm more)
  refine ⟨by rw [Listing, same]; exact onDisk, ?_⟩
  rw [logEntries, same, flushed.recovered, List.append_nil]

end FileWal

/-! ## The crash -/

/-- The effect of the last acknowledged operation on a key: the last one in
the log, or what the tables hold when the log has none. -/
def acknowledged (levelCount : Nat) (levels : Nat → List SSTable)
    (log : List WALEntry) (key : String) : Option Value :=
  match lastWrite (writesOf log) key with
  | some value => value.visible
  | none => getFromSstables levelCount levels key

/-- Every operation of the log has reached the tables. -/
def Flushed (levelCount : Nat) (levels : Nat → List SSTable)
    (log : List WALEntry) : Prop :=
  ∀ key, getFromSstables levelCount levels key =
    acknowledged levelCount levels log key

/-- The start after a crash behind `count` removals succeeds, and every key
reads as its last acknowledged operation. -/
def SurvivesTruncation (jsonLen : SerdeJsonValue → Nat) (config : WalConfig)
    (levelCount : Nat) (levels : Nat → List SSTable) (sequence : Nat)
    (listing : List WalFile) (count : Nat) : Prop :=
  ∃ dir tree,
    recoverFromWal jsonLen config false (FileWal.removeListed listing count)
      ⟨.new, [], levels, sequence⟩ = .ok (dir, tree) ∧
    ∀ key, tree.get levelCount key =
      acknowledged levelCount levels (FileWal.logEntries config listing) key

section

variable {jsonLen : SerdeJsonValue → Nat} {config : WalConfig}
variable {levelCount : Nat} {levels : Nat → List SSTable} {sequence : Nat}
variable {listing : List WalFile}

theorem recoverFromWal_listing
    {allowRecoveryFailure : Bool} {dir : List WalFile}
    (onDisk : FileWal.Listing dir) :
    recoverFromWal jsonLen config allowRecoveryFailure dir
        ⟨.new, [], levels, sequence⟩ =
      .ok (dir,
        ⟨replay jsonLen .new (entriesToRecover
          (sortByTimestamp (FileWal.logEntries config dir))), [], levels,
          sequence⟩) := by
  by_cases empty : dir.isEmpty
  · rw [recoverFromWal, if_pos empty]
    rw [List.isEmpty_iff] at empty
    subst empty
    rfl
  · rw [recoverFromWal, if_neg empty, onDisk.readEntriesFromDisk]

/-- A crash in the middle of a truncation is harmless exactly when the newest
surviving record of every key does what the last operation on it did. -/
theorem survivesTruncation_iff
    (jsonLen : SerdeJsonValue → Nat) (config : WalConfig) (levelCount : Nat)
    (levels : Nat → List SSTable) (sequence : Nat) (listing : List WalFile)
    (onDisk : FileWal.Listing listing)
    (flushed : Flushed levelCount levels
      (FileWal.logEntries config listing)) (count : Nat) :
    SurvivesTruncation jsonLen config levelCount levels sequence listing
        count ↔
      ∀ key entry,
        newest WALEntry.stamp (replayable (FileWal.logEntries config
          (FileWal.removeListed listing count)) key) = some entry →
        entry.effect = acknowledged levelCount levels
          (FileWal.logEntries config listing) key := by
  have recovery : recoverFromWal jsonLen config false
      (FileWal.removeListed listing count) ⟨.new, [], levels, sequence⟩ = _ :=
    recoverFromWal_listing (onDisk.removeListed count)
  constructor
  · rintro ⟨dir, tree, recovered, reads⟩ key entry newestEntry
    rw [recovery, Except.ok.injEq, Prod.mk.injEq] at recovered
    obtain ⟨-, rfl⟩ := recovered
    have read := reads key
    rw [get_replayed, newestEntry] at read
    exact read
  · intro harmless
    refine ⟨_, _, recovery, fun key => ?_⟩
    rw [get_replayed]
    cases found : newest WALEntry.stamp (replayable (FileWal.logEntries
        config (FileWal.removeListed listing count)) key) with
    | none => exact flushed key
    | some entry => exact harmless key entry found

/-- With a clock that does not go backwards the newest replayable record of a
key is the last write of the key. -/
theorem newest_replayable_of_nondecreasing
    {entries : List WALEntry}
    (clock : Nondecreasing WALEntry.stamp entries) {key : String}
    {entry : WALEntry}
    (found : newest WALEntry.stamp (replayable entries key) = some entry) :
    (lastWrite (writesOf entries) key).bind Value.visible = entry.effect := by
  have member := (newest_spec found).1
  obtain ⟨value, write⟩ := writesKey_of_replayable member
  obtain ⟨inLog, selected⟩ := List.mem_filter.mp member
  rw [Bool.and_eq_true] at selected
  obtain ⟨past, forKey⟩ := selected
  have inKey : entry ∈ entries.filter (WALEntry.writesKey key) :=
    List.mem_filter.mpr ⟨inLog, forKey⟩
  obtain ⟨front, last, split⟩ :=
    (List.eq_nil_or_concat' _).resolve_left (List.ne_nil_of_mem inKey)
  have keyClock : Nondecreasing WALEntry.stamp (front ++ [last]) := by
    rw [← split]
    exact List.Pairwise.filter _ clock
  have notLater : entry.stamp ≤ last.stamp := by
    rw [split] at inKey
    rcases List.mem_append.mp inKey with before | here
    · exact (List.pairwise_append.mp keyClock).2.2 entry before last (by simp)
    · rw [List.mem_singleton.mp here]
  have lastPast : pastCheckpoints entries last = true := by
    rw [pastCheckpoints_eq_true_iff] at past ⊢
    intro other otherMember checkpoint isCheckpoint
    exact lt_of_lt_of_le (past other otherMember checkpoint isCheckpoint)
      notLater
  have chosen : replayable entries key =
      front.filter (pastCheckpoints entries) ++ [last] := by
    rw [replayable, ← List.filter_filter, split, List.filter_append,
      List.filter_singleton, lastPast, cond_true]
  have replayClock : Nondecreasing WALEntry.stamp (replayable entries key) :=
    List.Pairwise.filter _ clock
  rw [← getLast?_sortByStamp, sortByStamp_eq_self replayClock, chosen,
    List.getLast?_concat, Option.some.injEq] at found
  rw [lastWrite_writesOf, split, List.getLast?_concat, found,
    Option.bind_some, WALEntry.effect, write]
  rfl

/-- Removing the oldest segments first is harmless while the clock does not
go backwards. -/
theorem oldest_first_harmless
    (levelCount : Nat) (levels : Nat → List SSTable)
    (ascending : FileWal.Ascending listing)
    (clock : Nondecreasing WALEntry.stamp
      (FileWal.logEntries config listing)) (count : Nat)
    {key : String} {entry : WALEntry}
    (found : newest WALEntry.stamp (replayable (FileWal.logEntries config
      (FileWal.removeListed listing count)) key) = some entry) :
    entry.effect = acknowledged levelCount levels
      (FileWal.logEntries config listing) key := by
  have suffixAscending : FileWal.Ascending (listing.drop count) :=
    List.Pairwise.sublist (List.drop_sublist count listing) ascending
  let removed := FileWal.recovered .segment config (listing.take count)
  let left := FileWal.logEntries config (FileWal.removeListed listing count)
  have split : FileWal.logEntries config listing = removed ++ left := by
    rw [FileWal.logEntries, FileWal.sortById_eq_self ascending]
    simp only [removed, left, FileWal.logEntries, FileWal.removeListed,
      FileWal.sortById_eq_self suffixAscending]
    rw [← FileWal.recovered_append, List.take_append_drop]
  rw [split] at clock
  have leftClock := (List.pairwise_append.mp clock).2.1
  have same := newest_replayable_of_nondecreasing leftClock found
  have last : ∃ value, lastWrite (writesOf left) key = some value := by
    obtain ⟨value, write⟩ :=
      writesKey_of_replayable (newest_spec found).1
    have member : (key, value) ∈ writesOf left :=
      List.mem_filterMap.mpr
        ⟨entry, List.mem_of_mem_filter (newest_spec found).1, write⟩
    cases missing : lastWrite (writesOf left) key with
    | none => exact absurd rfl (lastWrite_eq_none_iff.mp missing _ member)
    | some value => exact ⟨value, rfl⟩
  obtain ⟨value, lastLeft⟩ := last
  rw [lastLeft, Option.bind_some] at same
  have whole : lastWrite (writesOf (removed ++ left)) key = some value := by
    rw [writesOf, List.filterMap_append, ← writesOf, ← writesOf,
      lastWrite_append, lastLeft, Option.some_or]
  rw [split, acknowledged, whole]
  exact same.symm

end

/-! ## Two segments with one key -/

/-- A segment file with one put of `k`. -/
def segmentWith (id : Nat) (now : UInt64) (n : Int64) : WalFile :=
  ⟨id, now, FileEngine.segment.encodeHeader ⟨now, 1, 512⟩ ++
    frame (WALEntry.put "k" (.int64 n) now).encode⟩

/-- A table with the second of two puts. -/
def levelsWith (n : Int64) : Nat → List SSTable
  | 0 => [⟨.flush 0 1, [⟨"k", .int64 n, 2, false⟩], 100, 0, true⟩]
  | _ => []

theorem segmentWith_headed (id : Nat) (now : UInt64) (n : Int64) :
    FileWal.HeadedFile .segment (segmentWith id now n) :=
  fun _ => rfl

def oldestFirst : List WalFile := [segmentWith 1 5 1, segmentWith 2 6 2]

def newestFirst : List WalFile := [segmentWith 2 6 2, segmentWith 1 5 1]

theorem oldestFirst_listing : FileWal.Listing oldestFirst := by
  refine ⟨FileWal.sortById_ascending (by decide), fun file member => ?_⟩
  have either : file = segmentWith 1 5 1 ∨ file = segmentWith 2 6 2 := by
    simpa [oldestFirst] using FileWal.mem_sortById.mp member
  rcases either with rfl | rfl <;> exact segmentWith_headed _ _ _

theorem newestFirst_listing : FileWal.Listing newestFirst := by
  refine ⟨FileWal.sortById_ascending (by decide), fun file member => ?_⟩
  have either : file = segmentWith 2 6 2 ∨ file = segmentWith 1 5 1 := by
    simpa [newestFirst] using FileWal.mem_sortById.mp member
  rcases either with rfl | rfl <;> exact segmentWith_headed _ _ _

theorem oldestFirst_entries :
    FileWal.logEntries WalHandle.smallConfig oldestFirst =
      [.put "k" (.int64 1) 5, .put "k" (.int64 2) 6] := rfl

theorem levelsWith_flushed :
    Flushed 1 (levelsWith 2)
      [.put "k" (.int64 1) 5, .put "k" (.int64 2) 6] := by
  intro key
  by_cases same : key = "k"
  · subst same
    rfl
  · have other : ¬ "k" = key := fun equal => same equal.symm
    simp [acknowledged, writesOf, WALEntry.write?, lastWrite_cons, other]

/-- Removing the older segment first. -/
theorem oldestFirst_survives :
    SurvivesTruncation (fun _ => 0) WalHandle.smallConfig 1 (levelsWith 2) 3
      oldestFirst 1 := by
  refine (survivesTruncation_iff (fun _ => 0) WalHandle.smallConfig 1
    (levelsWith 2) 3 oldestFirst oldestFirst_listing levelsWith_flushed
    1).mpr ?_
  intro key entry
  refine oldest_first_harmless 1 (levelsWith 2) ?_ ?_ 1
  · simp [FileWal.Ascending, oldestFirst, segmentWith]
  · rw [oldestFirst_entries]
    simp [Nondecreasing, WALEntry.stamp, WALEntry.timestamp]

/-- Removing the newer segment first brings the overwritten value back. -/
theorem newestFirst_resurrects :
    FileWal.Listing newestFirst ∧
      Flushed 1 (levelsWith 2)
        (FileWal.logEntries WalHandle.smallConfig newestFirst) ∧
      (∃ dir tree, recoverFromWal (fun _ => 0) WalHandle.smallConfig false
          (FileWal.removeListed newestFirst 1)
          ⟨.new, [], levelsWith 2, 3⟩ = .ok (dir, tree) ∧
        tree.get 1 "k" = some (.int64 1)) ∧
      acknowledged 1 (levelsWith 2)
        (FileWal.logEntries WalHandle.smallConfig newestFirst) "k" =
          some (.int64 2) ∧
      ¬ SurvivesTruncation (fun _ => 0) WalHandle.smallConfig 1
        (levelsWith 2) 3 newestFirst 1 := by
  have stale : ∃ dir tree, recoverFromWal (fun _ => 0)
      WalHandle.smallConfig false (FileWal.removeListed newestFirst 1)
      ⟨.new, [], levelsWith 2, 3⟩ = .ok (dir, tree) ∧
      tree.get 1 "k" = some (.int64 1) := ⟨_, _, rfl, rfl⟩
  have expected : acknowledged 1 (levelsWith 2)
      (FileWal.logEntries WalHandle.smallConfig newestFirst) "k" =
        some (.int64 2) := rfl
  refine ⟨newestFirst_listing, levelsWith_flushed, stale, expected, ?_⟩
  rintro ⟨dir, tree, recovered, reads⟩
  obtain ⟨dir', tree', recovered', staleRead⟩ := stale
  rw [recovered', Except.ok.injEq, Prod.mk.injEq] at recovered
  obtain ⟨-, rfl⟩ := recovered
  have read := reads "k"
  rw [staleRead, expected] at read
  exact absurd read (by simp)

end F4kvsLsm
