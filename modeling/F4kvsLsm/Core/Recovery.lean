import F4kvsLsm.Core.Tree
import F4kvsLsm.Lib.StableSort
import F4kvsLsm.Wal.FileWalWrites

/-!
# Recovery from the log

A reopened engine reads the entries of all log files in the order of their
timestamps, skips what the last checkpoint covers, and applies the rest to an
empty memtable.  Memtables are read before tables, so whatever is replayed
hides what the tables hold.
-/

namespace F4kvsLsm

open KeyedLog Versions

/-! ## What recovery does with the entries -/

namespace WALEntry

def stamp (entry : WALEntry) : Nat := entry.timestamp.toNat

/-- The key and the memtable value that replaying an entry writes. -/
def write? : WALEntry → Option (String × Value)
  | .put key value _ => some (key, value)
  | .delete key _ => some (key, .null)
  | _ => none

def checkpoint? : WALEntry → Option UInt64
  | .checkpoint timestamp => some timestamp
  | _ => none

def writesKey (key : String) (entry : WALEntry) : Bool :=
  match entry.write? with
  | some write => write.1 = key
  | none => false

/-- What a reader sees of the key that the entry writes. -/
def effect (entry : WALEntry) : Option Value :=
  entry.write?.bind fun write => write.2.visible

end WALEntry

def writesOf (entries : List WALEntry) : List (String × Value) :=
  entries.filterMap WALEntry.write?

def lastCheckpointTimestamp (entries : List WALEntry) : Option UInt64 :=
  entries.reverse.findSome? WALEntry.checkpoint?

/-- Only entries after the last checkpoint. -/
def entriesToRecover (entries : List WALEntry) : List WALEntry :=
  match lastCheckpointTimestamp entries with
  | some checkpoint => entries.filter fun entry => entry.timestamp > checkpoint
  | none => entries

/-- Apply one entry; flush and checkpoint entries are skipped. -/
def replayEntry (jsonLen : SerdeJsonValue → Nat) (memtable : Memtable) :
    WALEntry → Memtable
  | .put key value _ => memtable.put jsonLen key value
  | .delete key _ => memtable.delete jsonLen key
  | _ => memtable

def replay (jsonLen : SerdeJsonValue → Nat) (memtable : Memtable)
    (entries : List WALEntry) : Memtable :=
  entries.foldl (replayEntry jsonLen) memtable

/-- `recover_from_wal` of the segment backend: the directory afterwards and
the tree.  An unreadable log stops the engine unless the configuration lets
it clear the log. -/
def recoverFromWal (jsonLen : SerdeJsonValue → Nat) (config : WalConfig)
    (allowRecoveryFailure : Bool) (dir : List WalFile) (tree : LsmTree) :
    Except LsmError (List WalFile × LsmTree) :=
  if dir.isEmpty then .ok (dir, tree)
  else
    match FileWal.readEntriesFromDisk .segment config dir with
    | .ok entries =>
        .ok (dir, { tree with
          active := replay jsonLen tree.active (entriesToRecover entries) })
    | .error error =>
        if allowRecoveryFailure then .ok ([], tree)
        else .error (.wal ("Failed to read WAL entries during recovery: " ++
          error.display))

/-! ## Replaying -/

theorem replay_get
    {jsonLen : SerdeJsonValue → Nat} (memtable : Memtable)
    (entries : List WALEntry) (key : String) :
    (replay jsonLen memtable entries).data[key]? =
      (lastWrite (writesOf entries) key).or memtable.data[key]? := by
  induction entries using List.reverseRecOn with
  | nil => rfl
  | append_singleton entries entry inductionHypothesis =>
      rw [replay, List.foldl_append, List.foldl_cons, List.foldl_nil,
        ← replay, writesOf, List.filterMap_append, ← writesOf,
        lastWrite_append]
      cases entry with
      | put other value timestamp =>
          simp only [replayEntry, Memtable.put_get, WALEntry.write?,
            List.filterMap_cons, List.filterMap_nil, lastWrite_singleton,
            inductionHypothesis]
          by_cases same : other = key <;> simp [same]
      | delete other timestamp =>
          simp only [replayEntry, Memtable.delete_get, WALEntry.write?,
            List.filterMap_cons, List.filterMap_nil, lastWrite_singleton,
            inductionHypothesis]
          by_cases same : other = key <;> simp [same]
      | flush memtableId timestamp =>
          exact inductionHypothesis
      | checkpoint timestamp =>
          exact inductionHypothesis

/-- The last write of a key is the write of the last entry for it. -/
theorem lastWrite_writesOf (entries : List WALEntry) (key : String) :
    lastWrite (writesOf entries) key =
      ((entries.filter (WALEntry.writesKey key)).getLast?).bind
        fun entry => entry.write?.map (·.2) := by
  induction entries using List.reverseRecOn with
  | nil => rfl
  | append_singleton entries entry inductionHypothesis =>
      rw [writesOf, List.filterMap_append, ← writesOf, lastWrite_append,
        List.filter_append, inductionHypothesis]
      cases write : entry.write? with
      | none =>
          have skipped : WALEntry.writesKey key entry = false := by
            simp [WALEntry.writesKey, write]
          simp [write, skipped]
      | some keyed =>
          by_cases same : keyed.1 = key
          · have chosen : WALEntry.writesKey key entry = true := by
              simp [WALEntry.writesKey, write, same]
            simp [write, chosen, lastWrite_singleton, same]
          · have skipped : WALEntry.writesKey key entry = false := by
              simp [WALEntry.writesKey, write, same]
            simp [write, skipped, lastWrite_singleton, same]

/-! ## Checkpoints -/

/-- The entry is later than every checkpoint. -/
def pastCheckpoints (entries : List WALEntry) (entry : WALEntry) : Bool :=
  entries.all fun other =>
    match other.checkpoint? with
    | some checkpoint => checkpoint < entry.timestamp
    | none => true

theorem pastCheckpoints_eq_true_iff
    {entries : List WALEntry} {entry : WALEntry} :
    pastCheckpoints entries entry = true ↔
      ∀ other ∈ entries, ∀ checkpoint, other.checkpoint? = some checkpoint →
        other.stamp < entry.stamp := by
  rw [pastCheckpoints, List.all_eq_true]
  refine forall₂_congr fun other _ => ?_
  cases other <;>
    simp [WALEntry.checkpoint?, WALEntry.stamp, WALEntry.timestamp,
      UInt64.lt_iff_toNat_lt]

/-- In time order the last checkpoint is the latest one. -/
theorem entriesToRecover_eq
    {entries : List WALEntry}
    (sorted : Nondecreasing WALEntry.stamp entries) :
    entriesToRecover entries = entries.filter (pastCheckpoints entries) := by
  rw [entriesToRecover, lastCheckpointTimestamp]
  cases last : entries.reverse.findSome? WALEntry.checkpoint? with
  | none =>
      rw [List.findSome?_eq_none_iff] at last
      refine (List.filter_eq_self.mpr fun entry _ => ?_).symm
      rw [pastCheckpoints_eq_true_iff]
      intro other member checkpoint isCheckpoint
      rw [last other (List.mem_reverse.mpr member)] at isCheckpoint
      exact absurd isCheckpoint (by simp)
  | some timestamp =>
      obtain ⟨behind, found, front, reversed, isLast, others⟩ :=
        List.findSome?_eq_some_iff.mp last
      have split : entries = front.reverse ++ found :: behind.reverse := by
        have twice := congrArg List.reverse reversed
        simpa using twice
      have foundStamp : found.stamp = timestamp.toNat := by
        cases found <;> simp_all [WALEntry.checkpoint?, WALEntry.stamp,
          WALEntry.timestamp]
      refine List.filter_congr fun entry _ => ?_
      rw [Bool.eq_iff_iff, pastCheckpoints_eq_true_iff, decide_eq_true_eq,
        gt_iff_lt, UInt64.lt_iff_toNat_lt, ← foundStamp]
      constructor
      · intro later other member checkpoint isCheckpoint
        rw [split] at member sorted
        obtain ⟨-, -, cross⟩ := List.pairwise_append.mp sorted
        rcases List.mem_append.mp member with before | after
        · exact lt_of_le_of_lt (cross other before found (by simp)) later
        · rcases List.mem_cons.mp after with here | back
          · rw [here]
            exact later
          · rw [others other (List.mem_reverse.mp back)] at isCheckpoint
            exact absurd isCheckpoint (by simp)
      · intro later
        exact later found (by rw [split]; simp) timestamp isLast

/-! ## What a reopened engine reads -/

/-- The records of `key` among `entries` that recovery replays. -/
def replayable (entries : List WALEntry) (key : String) : List WALEntry :=
  entries.filter fun entry =>
    pastCheckpoints entries entry && entry.writesKey key

theorem pastCheckpoints_congr
    {entries entries' : List WALEntry}
    (same : ∀ entry, entry ∈ entries' ↔ entry ∈ entries) :
    pastCheckpoints entries' = pastCheckpoints entries := by
  funext entry
  rw [Bool.eq_iff_iff, pastCheckpoints_eq_true_iff,
    pastCheckpoints_eq_true_iff]
  simp only [same]

theorem lastWrite_replayed (entries : List WALEntry) (key : String) :
    lastWrite (writesOf (entriesToRecover (sortByTimestamp entries))) key =
      (newest WALEntry.stamp (replayable entries key)).bind
        fun entry => entry.write?.map (·.2) := by
  have sorted := sortByStamp_nondecreasing WALEntry.stamp entries
  have past : pastCheckpoints (sortByStamp WALEntry.stamp entries) =
      pastCheckpoints entries :=
    pastCheckpoints_congr fun entry => mem_sortByStamp
  change lastWrite (writesOf (entriesToRecover
    (sortByStamp WALEntry.stamp entries))) key = _
  rw [entriesToRecover_eq sorted, past, lastWrite_writesOf,
    List.filter_filter, filter_sortByStamp, getLast?_sortByStamp]
  simp only [replayable, Bool.and_comm]

theorem writesKey_of_replayable
    {entries : List WALEntry} {key : String} {entry : WALEntry}
    (member : entry ∈ replayable entries key) :
    ∃ value, entry.write? = some (key, value) := by
  have selected := (List.mem_filter.mp member).2
  rw [Bool.and_eq_true] at selected
  cases write : entry.write? with
  | none => simp [WALEntry.writesKey, write] at selected
  | some keyed =>
      refine ⟨keyed.2, ?_⟩
      have same : keyed.1 = key := by
        simpa [WALEntry.writesKey, write] using selected.2
      rw [← same]

/-- What `get` returns after a reopening with `entries` in the log. -/
theorem get_replayed
    {jsonLen : SerdeJsonValue → Nat} (levelCount : Nat)
    (entries : List WALEntry) (levels : Nat → List SSTable) (sequence : Nat)
    (key : String) :
    LsmTree.get levelCount
      ⟨replay jsonLen .new (entriesToRecover (sortByTimestamp entries)), [],
        levels, sequence⟩ key =
      match newest WALEntry.stamp (replayable entries key) with
      | some entry => entry.effect
      | none => getFromSstables levelCount levels key := by
  rw [LsmTree.get_eq, memtableValue, List.findSome?_cons, replay_get,
    lastWrite_replayed, Memtable.new_get]
  cases found : newest WALEntry.stamp (replayable entries key) with
  | none => rfl
  | some entry =>
      obtain ⟨value, write⟩ :=
        writesKey_of_replayable (newest_spec found).1
      simp [WALEntry.effect, write]

end F4kvsLsm
