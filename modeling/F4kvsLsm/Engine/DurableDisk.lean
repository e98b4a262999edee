import Mathlib.Data.List.MinMax
import F4kvsLsm.Engine.Durable

/-!
# What a disk holds between two sessions

Everything that is not in the log any more is in the tables, and a start
replays the log on top of them.
-/

namespace F4kvsLsm

open KeyedLog Versions

/-! ## The data directory -/

/-- Whole tables of flushes with their timestamps behind the number in their
name. -/
structure DataDir.Sound (data : DataDir) : Prop where
  wellFormed : ∀ table ∈ data.tables, table.WellFormed
  names : (data.tables.map (·.name)).Nodup
  flushed : ∀ table ∈ data.tables, ∃ sequence,
    table.name = .flush 0 sequence ∧
      ∀ entry ∈ table.entries,
        entry.timestamp ≤ sequence + table.entries.length
  distinct : DistinctVersions (allEntries data.tables)

theorem loadLevel_zero
    {files : List SSTable} (placed : ∀ table ∈ files, table.name.level = 0) :
    loadLevel files 0 = files := by
  rw [loadLevel, if_pos rfl, List.filter_eq_self]
  intro table member
  rw [placed table member]
  rfl

theorem loadLevel_succ
    {files : List SSTable} (placed : ∀ table ∈ files, table.name.level = 0)
    (level : Nat) : loadLevel files (level + 1) = [] := by
  have nothing : files.filter
      (fun table => table.name.level = level + 1) = [] := by
    rw [List.filter_eq_nil_iff]
    intro table member
    rw [placed table member]
    simp
  rw [loadLevel, if_neg (Nat.succ_ne_zero level), nothing]
  rfl

theorem loadLevel_append
    (files : List SSTable) {table : SSTable} (placed : table.name.level = 0) :
    loadLevel (files ++ [table]) =
      LsmTree.publish (loadLevel files) table := by
  funext level
  cases level with
  | zero =>
      rw [publish_zero, loadLevel, loadLevel, if_pos rfl, if_pos rfl,
        List.filter_append]
      simp [placed]
  | succ level =>
      rw [publish_succ, loadLevel, loadLevel, List.filter_append]
      simp [placed]

theorem DataDir.Sound.placed
    {data : DataDir} (sound : data.Sound) :
    ∀ table ∈ data.tables, table.name.level = 0 := by
  intro table member
  obtain ⟨sequence, name, -⟩ := sound.flushed table member
  rw [name]
  rfl

/-- A tree on the tables of a directory, with a counter above them. -/
theorem DataDir.Sound.invariant
    {data : DataDir} (sound : data.Sound) (config : CompactionConfig)
    (active : Memtable) (immutables : List Memtable) {next : Nat}
    (bound : ∀ table ∈ data.tables, ∀ sequence,
      table.name = .flush 0 sequence →
        sequence + table.entries.length < next) :
    LsmTree.Invariant config
      ⟨active, immutables, loadLevel data.tables, next⟩ := by
  have level0 := loadLevel_zero sound.placed
  have above := loadLevel_succ sound.placed
  have level1 : loadLevel data.tables 1 = [] := above 0
  constructor
  case level0 =>
    simp only [level0]
    exact sound.wellFormed
  case level1 =>
    simp only [level1]
    exact ⟨by simp, List.Pairwise.nil⟩
  case live =>
    simp only [level1]
    exact fun entry member => absurd member List.not_mem_nil
  case above => exact fun level => above (level + 1)
  case single => exact fun _ => level1
  case distinct =>
    simp only [level0]
    exact sound.distinct
  case newer =>
    simp only [level1]
    exact fun entry member => absurd member List.not_mem_nil
  case stamped =>
    simp only [level0, level1, List.append_nil]
    intro entry member
    obtain ⟨table, inTables, inTable⟩ := mem_allEntries.mp member
    obtain ⟨sequence, name, stamps⟩ := sound.flushed table inTables
    exact (stamps entry inTable).trans_lt (bound table inTables sequence name)
  case names0 =>
    simp only [level0]
    exact sound.names
  case names1 =>
    simp only [level1]
    exact List.nodup_nil
  case flushNames =>
    simp only [level0]
    intro table member level sequence name
    have zero : level = 0 := by
      have placed := sound.placed table member
      rw [name] at placed
      exact placed
    subst zero
    have room := bound table member sequence name
    omega
  case placed =>
    intro level table member
    exact (mem_loadLevel.mp member).2

/-- The counter after a start is above everything that is loaded. -/
theorem loadExistingSstables_above
    (data : DataDir) {table : SSTable} (member : table ∈ data.tables)
    {sequence : Nat} (name : table.name = .flush 0 sequence) :
    sequence + table.entries.length <
      (loadExistingSstables data.names data.tables data.sequenceFile).2 := by
  have listed : sequence + table.entries.length ∈
      data.tables.filterMap fun table =>
        table.name.flushSequence.map (· + table.entries.length) := by
    rw [List.mem_filterMap]
    refine ⟨table, member, ?_⟩
    rw [name]
    rfl
  have bound : sequence + table.entries.length ≤ maxEntryTs data.tables :=
    List.le_max_of_le' 0 listed le_rfl
  simp only [loadExistingSstables]
  omega

theorem DataDir.Sound.written
    {data : DataDir} (sound : data.Sound) {config : CompactionConfig}
    {active : Memtable} {immutables : List Memtable} {sequence : Nat}
    (invariant : LsmTree.Invariant config
      ⟨active, immutables, loadLevel data.tables, sequence⟩)
    (info : TableInfo) (nonempty : active.entryCount > 0)
    {existing : List SstableName} {table : SSTable}
    (new : table = LsmTree.flushedTable existing info
      ⟨active, immutables, loadLevel data.tables, sequence⟩) (next : Nat) :
    (data.written table next).Sound := by
  have after := invariant.publish existing info nonempty
  have placed : table.name.level = 0 := by rw [new]; rfl
  have loaded : LsmTree.publish (loadLevel data.tables)
      (LsmTree.flushedTable existing info
        ⟨active, immutables, loadLevel data.tables, sequence⟩) 0 =
          data.tables ++ [table] := by
    rw [publish_zero, loadLevel_zero sound.placed, new]
  constructor
  case wellFormed =>
    have wellFormed := after.level0
    simp only [loaded] at wellFormed
    exact wellFormed
  case names =>
    have names := after.names0
    simp only [loaded] at names
    exact names
  case flushed =>
    intro other member
    rcases List.mem_append.mp member with old | isNew
    · exact sound.flushed other old
    · rw [List.mem_singleton.mp isNew, new]
      refine ⟨_, rfl, ?_⟩
      have sorted := active.getAllEntries_sorted
      intro entry inTable
      have stamp := (LsmTree.mem_stampEntries sorted inTable).2.2
      have size : (LsmTree.stampEntries (LsmTree.freeSequence existing
          (existing.length + 1) sequence + 1) active.getAllEntries).length =
            active.getAllEntries.length := by
        rw [LsmTree.stampEntries_eq sorted, List.length_mapIdx]
      simp only [LsmTree.flushedTable, size] at stamp ⊢
      omega
  case distinct =>
    have distinct := after.distinct
    simp only [loaded] at distinct
    exact distinct

/-! ## The log -/

/-- Writes in the order of their timestamps, up to a time. -/
structure LogSound (log : List WALEntry) (clock : UInt64) : Prop where
  writes : ∀ entry ∈ log, entry.checkpoint? = none
  ordered : Nondecreasing WALEntry.stamp log
  past : ∀ entry ∈ log, entry.stamp ≤ clock.toNat

theorem LogSound.nil (clock : UInt64) : LogSound [] clock :=
  ⟨by simp, List.Pairwise.nil, by simp⟩

theorem LogSound.mono
    {log : List WALEntry} {clock now : UInt64} (sound : LogSound log clock)
    (later : clock ≤ now) : LogSound log now :=
  ⟨sound.writes, sound.ordered, fun entry member =>
    (sound.past entry member).trans (UInt64.le_iff_toNat_le.mp later)⟩

theorem LogSound.append
    {log entries : List WALEntry} {clock now : UInt64}
    (sound : LogSound log clock) (later : clock ≤ now)
    (writes : ∀ entry ∈ entries, entry.checkpoint? = none)
    (stamps : ∀ entry ∈ entries, entry.timestamp = now) :
    LogSound (log ++ entries) now := by
  have moved := sound.mono later
  have stamp : ∀ entry ∈ entries, entry.stamp = now.toNat :=
    fun entry member => congrArg UInt64.toNat (stamps entry member)
  constructor
  case writes =>
    intro entry member
    rcases List.mem_append.mp member with old | new
    · exact sound.writes entry old
    · exact writes entry new
  case ordered =>
    apply List.pairwise_append.mpr
    refine ⟨sound.ordered, ?_, ?_⟩
    · refine List.pairwise_of_forall_mem_list ?_
      intro first firstMember second secondMember
      rw [stamp first firstMember, stamp second secondMember]
    · intro first firstMember second secondMember
      rw [stamp second secondMember]
      exact moved.past first firstMember
  case past =>
    intro entry member
    rcases List.mem_append.mp member with old | new
    · exact moved.past entry old
    · exact (stamp entry new).le

/-- All of the log is replayed, in the order in which it was written. -/
theorem LogSound.entriesToRecover_eq
    {log : List WALEntry} {clock : UInt64} (sound : LogSound log clock) :
    entriesToRecover (sortByTimestamp log) = log := by
  have sorted : sortByTimestamp log = log := sortByStamp_eq_self sound.ordered
  have none : lastCheckpointTimestamp log = none := by
    rw [lastCheckpointTimestamp, List.findSome?_eq_none_iff]
    intro entry member
    exact sound.writes entry (List.mem_reverse.mp member)
  rw [sorted, entriesToRecover, none]

/-! ## The disk -/

/-- With the log on top the tables read as expected. -/
structure EngineDisk.Sound (config : EngineConfig) (disk : EngineDisk)
    (expected : String → Option Value) (clock : UInt64) : Prop where
  onDisk : disk.log.OnDisk config.wal
  log : LogSound (disk.log.recovered config.wal) clock
  data : disk.data.Sound
  held : ∀ key, acknowledged config.tree.levelCount
    (loadLevel disk.data.tables) (disk.log.recovered config.wal) key =
      expected key

theorem acknowledged_of_some
    {levelCount : Nat} {levels : Nat → List SSTable} {log : List WALEntry}
    {key : String} {value : Value}
    (last : lastWrite (writesOf log) key = some value) :
    acknowledged levelCount levels log key = value.visible := by
  rw [acknowledged, last]

theorem acknowledged_of_none
    {levelCount : Nat} {levels : Nat → List SSTable} {log : List WALEntry}
    {key : String} (last : lastWrite (writesOf log) key = none) :
    acknowledged levelCount levels log key =
      getFromSstables levelCount levels key := by
  rw [acknowledged, last]

theorem applyWrites_append
    (expected : String → Option Value)
    (front back : List (String × Value)) :
    applyWrites expected (front ++ back) =
      applyWrites (applyWrites expected front) back :=
  List.foldl_append

theorem applyWrites_eq
    (expected : String → Option Value) (writes : List (String × Value))
    (key : String) :
    applyWrites expected writes key =
      match lastWrite writes key with
      | some value => value.visible
      | none => expected key := by
  induction writes using List.reverseRecOn with
  | nil => rfl
  | append_singleton writes write inductionHypothesis =>
      rw [applyWrites_append, lastWrite_append, lastWrite_singleton]
      change Function.update (applyWrites expected writes) write.1
        write.2.visible key = _
      by_cases same : write.1 = key
      · subst same
        simp
      · rw [Function.update_of_ne (Ne.symm same), inductionHypothesis,
          if_neg same, Option.none_or]

theorem writesOf_append (front back : List WALEntry) :
    writesOf (front ++ back) = writesOf front ++ writesOf back :=
  List.filterMap_append

theorem acknowledged_append
    (levelCount : Nat) (levels : Nat → List SSTable)
    (log entries : List WALEntry) (key : String) :
    acknowledged levelCount levels (log ++ entries) key =
      applyWrites (acknowledged levelCount levels log) (writesOf entries)
        key := by
  rw [applyWrites_eq, acknowledged, writesOf_append, lastWrite_append]
  cases lastWrite (writesOf entries) key <;> rfl

namespace EngineDisk.Sound

variable {config : EngineConfig} {disk disk' : EngineDisk}
variable {expected : String → Option Value} {clock now : UInt64}

theorem append
    (sound : disk.Sound config expected clock)
    (onDisk : disk'.log.OnDisk config.wal) {entries : List WALEntry}
    (recovered : disk'.log.recovered config.wal =
      disk.log.recovered config.wal ++ entries)
    (data : disk'.data.Sound)
    (tables : disk'.data.tables = disk.data.tables) (later : clock ≤ now)
    (writes : ∀ entry ∈ entries, entry.checkpoint? = none)
    (stamps : ∀ entry ∈ entries, entry.timestamp = now) :
    disk'.Sound config (applyWrites expected (writesOf entries)) now := by
  constructor
  case onDisk => exact onDisk
  case log =>
    rw [recovered]
    exact sound.log.append later writes stamps
  case data => exact data
  case held =>
    intro key
    have before : acknowledged config.tree.levelCount
        (loadLevel disk.data.tables) (disk.log.recovered config.wal) =
          expected := funext sound.held
    rw [recovered, tables, acknowledged_append, before]

theorem mono
    (sound : disk.Sound config expected clock) (later : clock ≤ now) :
    disk.Sound config expected now :=
  ⟨sound.onDisk, sound.log.mono later, sound.data, sound.held⟩

theorem of_recovered
    (sound : disk.Sound config expected clock)
    (onDisk : disk'.log.OnDisk config.wal)
    (recovered : disk'.log.recovered config.wal =
      disk.log.recovered config.wal)
    (tables : disk'.data.tables = disk.data.tables) :
    disk'.Sound config expected clock := by
  have data : disk'.data.Sound := by
    constructor
    case wellFormed => exact tables ▸ sound.data.wellFormed
    case names => exact tables ▸ sound.data.names
    case flushed => exact tables ▸ sound.data.flushed
    case distinct => exact tables ▸ sound.data.distinct
  have same : disk'.log.recovered config.wal =
      disk.log.recovered config.wal ++ [] := by
    rw [recovered, List.append_nil]
  have append := sound.append onDisk same data tables
    (UInt64.le_refl clock) (by simp) (by simp)
  exact append

theorem of_tables
    (onDisk : disk.log.OnDisk config.wal)
    (recovered : disk.log.recovered config.wal = [])
    (data : disk.data.Sound)
    (hold : ∀ key, getFromSstables config.tree.levelCount
      (loadLevel disk.data.tables) key = expected key) :
    disk.Sound config expected clock := by
  constructor
  case onDisk => exact onDisk
  case log =>
    rw [recovered]
    exact LogSound.nil clock
  case data => exact data
  case held =>
    intro key
    rw [recovered]
    exact hold key

end EngineDisk.Sound

end F4kvsLsm
