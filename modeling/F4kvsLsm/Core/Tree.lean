import Mathlib.Data.List.Sort
import Mathlib.Logic.Function.Basic
import F4kvsLsm.Storage.Memtable
import F4kvsLsm.Storage.Sstable

/-!
# The tree in memory

The active memtable, the memtables that are being flushed, the tables by
level, and the counter that names flushed files and stamps their entries.
Reads go through these in this order, and every record of a table can be read
back.
-/

namespace F4kvsLsm

/-- The in-memory state of `LsmTreeEngine`. -/
structure LsmTree where
  active : Memtable
  immutables : List Memtable
  levels : Nat → List SSTable
  sequenceNumber : Nat

/-- What the file system and the clock add to a new table. -/
structure TableInfo where
  fileSize : Nat
  createdAt : Nat
  sized : 0 < fileSize

/-- How far a flush of a memtable gets. -/
inductive FlushOutcome where
  | done
  | failedWriting
  | failedOpening
  deriving DecidableEq, Repr

/-! ## Reading -/

/-- What a reader sees of a memtable value. -/
def Value.visible (value : Value) : Option Value :=
  if value.isNull then none else some value

/-- The memtables are asked in list order. -/
def getFromMemtables (memtables : List Memtable) (key : String) :
    MemtableLookupResult :=
  match memtables with
  | [] => .missing
  | memtable :: rest =>
      match memtable.lookup key with
      | .missing => getFromMemtables rest key
      | other => other

namespace LsmTree

def get (levelCount : Nat) (tree : LsmTree) (key : String) : Option Value :=
  match getFromMemtables (tree.active :: tree.immutables) key with
  | .found value => some value
  | .tombstone => none
  | .missing => getFromSstables levelCount tree.levels key

/-! ## Writing -/

variable (jsonLen : SerdeJsonValue → Nat)

def put (tree : LsmTree) (key : String) (value : Value) : LsmTree :=
  { tree with active := tree.active.put jsonLen key value }

def delete (tree : LsmTree) (key : String) : LsmTree :=
  { tree with active := tree.active.delete jsonLen key }

/-! ## Flushing -/

/-- The first sequence number whose file name is free. -/
def freeSequence (existing : List SstableName) : Nat → Nat → Nat
  | 0, sequence => sequence
  | fuel + 1, sequence =>
      if .flush 0 sequence ∈ existing then
        freeSequence existing fuel (sequence + 1)
      else sequence

/-- Number the entries from `first` in key order. -/
def stampEntries (first : Nat) (entries : List (String × Value × Bool)) :
    List SSTableEntry :=
  (entries.insertionSort (fun a b => a.1 ≤ b.1)).mapIdx fun index entry =>
    ⟨entry.1, entry.2.1, first + index, entry.2.2⟩

def flushedTable (existing : List SstableName) (info : TableInfo)
    (tree : LsmTree) : SSTable :=
  let sequence :=
    freeSequence existing (existing.length + 1) tree.sequenceNumber
  { name := .flush 0 sequence
    entries := stampEntries (sequence + 1) tree.active.getAllEntries
    fileSize := info.fileSize
    createdAt := info.createdAt
    blockCompressed := true }

/-- The counter after a flush has stamped its entries. -/
def sequenceAfterFlush (existing : List SstableName) (tree : LsmTree) : Nat :=
  freeSequence existing (existing.length + 1) tree.sequenceNumber + 1 +
    tree.active.getAllEntries.length

/-- Add a table at the end of level 0. -/
def publish (levels : Nat → List SSTable) (table : SSTable) :
    Nat → List SSTable :=
  Function.update levels 0 (levels 0 ++ [table])

/-- `flush_memtable_internal`.  After a failure the memtable stays in the list
of immutable memtables; `true` is a success. -/
def flushMemtableInternal (existing : List SstableName) (info : TableInfo)
    (outcome : FlushOutcome) (tree : LsmTree) : LsmTree × Bool :=
  if tree.active.entryCount > 0 then
    match outcome with
    | .done =>
        ({ active := .new
           immutables := tree.immutables
           levels := publish tree.levels (flushedTable existing info tree)
           sequenceNumber := sequenceAfterFlush existing tree },
          true)
    | _ =>
        ({ active := .new
           immutables := tree.immutables ++ [tree.active]
           levels := tree.levels
           sequenceNumber := sequenceAfterFlush existing tree },
          false)
  else ({ tree with active := .new }, true)

/-- A flush that succeeds parks nothing. -/
theorem flushMemtableInternal_immutables
    {outcome : FlushOutcome} (done : outcome = .done)
    (existing : List SstableName) (info : TableInfo) (tree : LsmTree) :
    (tree.flushMemtableInternal existing info outcome).1.immutables =
      tree.immutables := by
  subst done
  rw [flushMemtableInternal]
  split <;> rfl

end LsmTree

/-! ## Reading lemmas -/

/-- The first of the memtables that knows the key. -/
def memtableValue (memtables : List Memtable) (key : String) : Option Value :=
  memtables.findSome? (·.data[key]?)

theorem getFromMemtables_eq (memtables : List Memtable) (key : String) :
    getFromMemtables memtables key =
      match memtableValue memtables key with
      | some value =>
          if value.isNull then .tombstone else .found value
      | none => .missing := by
  induction memtables with
  | nil => rfl
  | cons memtable rest inductionHypothesis =>
      rw [getFromMemtables, memtableValue, List.findSome?_cons,
        Memtable.lookup]
      cases found : memtable.data[key]? with
      | none =>
          simp only
          exact inductionHypothesis
      | some value => cases value <;> rfl

namespace LsmTree

theorem get_eq (levelCount : Nat) (tree : LsmTree) (key : String) :
    tree.get levelCount key =
      match memtableValue (tree.active :: tree.immutables) key with
      | some value => value.visible
      | none => getFromSstables levelCount tree.levels key := by
  rw [get, getFromMemtables_eq]
  cases memtableValue (tree.active :: tree.immutables) key with
  | none => rfl
  | some value => cases value <;> rfl

/-! ## What a flush writes -/

theorem le_freeSequence
    (existing : List SstableName) (fuel sequence : Nat) :
    sequence ≤ freeSequence existing fuel sequence := by
  induction fuel generalizing sequence with
  | zero => exact le_rfl
  | succ fuel inductionHypothesis =>
      rw [freeSequence]
      split
      · exact (Nat.le_succ _).trans (inductionHypothesis _)
      · exact le_rfl

theorem stampEntries_eq
    {first : Nat} {entries : List (String × Value × Bool)}
    (sorted : entries.Pairwise (fun a b => a.1 < b.1)) :
    stampEntries first entries = entries.mapIdx fun index entry =>
      ⟨entry.1, entry.2.1, first + index, entry.2.2⟩ := by
  rw [stampEntries, List.Pairwise.insertionSort_eq]
  exact sorted.imp fun less => less.le

theorem mem_stampEntries
    {first : Nat} {entries : List (String × Value × Bool)}
    (sorted : entries.Pairwise (fun a b => a.1 < b.1))
    {entry : SSTableEntry} (member : entry ∈ stampEntries first entries) :
    (entry.key, entry.value, entry.deleted) ∈ entries ∧
      first ≤ entry.timestamp ∧ entry.timestamp < first + entries.length := by
  rw [stampEntries_eq sorted, List.mem_mapIdx] at member
  obtain ⟨index, bound, rfl⟩ := member
  exact ⟨List.getElem_mem bound, Nat.le_add_right _ _,
    Nat.add_lt_add_left bound _⟩

theorem exists_mem_stampEntries
    {first : Nat} {entries : List (String × Value × Bool)}
    (sorted : entries.Pairwise (fun a b => a.1 < b.1))
    {key : String} {value : Value} {deleted : Bool}
    (member : (key, value, deleted) ∈ entries) :
    ∃ timestamp, ⟨key, value, timestamp, deleted⟩ ∈
      stampEntries first entries := by
  obtain ⟨index, bound, found⟩ := List.mem_iff_getElem.mp member
  refine ⟨first + index, ?_⟩
  rw [stampEntries_eq sorted, List.mem_mapIdx]
  exact ⟨index, bound, by rw [found]⟩

theorem stampEntries_sorted
    {first : Nat} {entries : List (String × Value × Bool)}
    (sorted : entries.Pairwise (fun a b => a.1 < b.1)) :
    (stampEntries first entries).Pairwise
      (fun a b => a.key < b.key) := by
  rw [stampEntries_eq sorted, List.pairwise_iff_getElem]
  intro i j iBound jBound less
  rw [List.getElem_mapIdx, List.getElem_mapIdx]
  rw [List.length_mapIdx] at iBound jBound
  exact List.pairwise_iff_getElem.mp sorted i j iBound jBound less

variable {existing : List SstableName} {info : TableInfo} {tree : LsmTree}

theorem flushedTable_wellFormed
    (nonempty : tree.active.entryCount > 0) :
    (flushedTable existing info tree).WellFormed := by
  have sorted := tree.active.getAllEntries_sorted
  refine ⟨info.sized, ?_, stampEntries_sorted sorted⟩
  intro empty
  have length := congrArg List.length empty
  simp only [flushedTable, stampEntries_eq sorted, List.length_mapIdx,
    Memtable.getAllEntries_length, List.length_nil] at length
  omega

/-- An entry of the flushed table carries what the memtable holds, with a
timestamp between the old and the new counter. -/
theorem mem_flushedTable
    {entry : SSTableEntry}
    (member : entry ∈ (flushedTable existing info tree).entries) :
    tree.active.data[entry.key]? = some entry.value ∧
      entry.deleted = entry.value.isNull ∧
      tree.sequenceNumber < entry.timestamp ∧
      entry.timestamp < sequenceAfterFlush existing tree := by
  obtain ⟨source, low, high⟩ :=
    mem_stampEntries tree.active.getAllEntries_sorted member
  obtain ⟨found, deleted⟩ := Memtable.mem_getAllEntries.mp source
  have bound := le_freeSequence existing (existing.length + 1)
    tree.sequenceNumber
  exact ⟨found, deleted, by omega, high⟩

theorem exists_mem_flushedTable
    {key : String} {value : Value}
    (found : tree.active.data[key]? = some value) :
    ∃ entry ∈ (flushedTable existing info tree).entries,
      entry.key = key ∧ entry.value = value := by
  have stamped : ∃ timestamp,
      SSTableEntry.mk key value timestamp value.isNull ∈
        (flushedTable existing info tree).entries :=
    exists_mem_stampEntries tree.active.getAllEntries_sorted
      (Memtable.mem_getAllEntries.mpr ⟨found, rfl⟩)
  obtain ⟨timestamp, member⟩ := stamped
  exact ⟨_, member, rfl, rfl⟩

/-! ## What holds of all entries -/

/-- Something that holds of every entry of every memtable and table. -/
structure Everywhere (holds : String → Value → Prop) (tree : LsmTree) :
    Prop where
  memtables : ∀ memtable ∈ tree.active :: tree.immutables,
    ∀ key value, memtable.data[key]? = some value → holds key value
  tables : ∀ level, ∀ table ∈ tree.levels level, ∀ entry ∈ table.entries,
    holds entry.key entry.value

namespace Everywhere

variable {holds : String → Value → Prop}

theorem write
    (everywhere : tree.Everywhere holds) {memtable : Memtable}
    (written : ∀ key value, memtable.data[key]? = some value →
      tree.active.data[key]? = some value ∨ holds key value) :
    ({ tree with active := memtable } : LsmTree).Everywhere holds := by
  constructor
  · intro other member key value found
    rcases List.mem_cons.mp member with same | parked
    · rw [same] at found
      rcases written key value found with before | new
      · exact everywhere.memtables tree.active List.mem_cons_self key value
          before
      · exact new
    · exact everywhere.memtables other (List.mem_cons_of_mem _ parked) key
        value found
  · exact everywhere.tables

/-- The entries of a flushed table are those of the active memtable. -/
theorem publish
    (everywhere : tree.Everywhere holds) (existing : List SstableName)
    (info : TableInfo) :
    ∀ level, ∀ table ∈ LsmTree.publish tree.levels
        (flushedTable existing info tree) level,
      ∀ entry ∈ table.entries, holds entry.key entry.value := by
  intro level table member entry inTable
  by_cases top : level = 0
  · subst top
    rw [LsmTree.publish, Function.update_self] at member
    rcases List.mem_append.mp member with old | new
    · exact everywhere.tables 0 table old entry inTable
    · rw [List.mem_singleton.mp new] at inTable
      exact everywhere.memtables tree.active List.mem_cons_self entry.key
        entry.value (mem_flushedTable inTable).1
  · rw [LsmTree.publish, Function.update_of_ne top] at member
    exact everywhere.tables level table member entry inTable

theorem flush
    (everywhere : tree.Everywhere holds) (existing : List SstableName)
    (info : TableInfo) (outcome : FlushOutcome) :
    (tree.flushMemtableInternal existing info outcome).1.Everywhere holds := by
  have emptied : ∀ memtables : List Memtable,
      (∀ memtable ∈ memtables, memtable ∈ tree.active :: tree.immutables) →
        ∀ memtable ∈ Memtable.new :: memtables, ∀ key value,
          memtable.data[key]? = some value → holds key value := by
    intro memtables old memtable member key value found
    rcases List.mem_cons.mp member with rfl | inList
    · rw [Memtable.new_get] at found
      cases found
    · exact everywhere.memtables memtable (old memtable inList) key value
        found
  have parked : ∀ memtable ∈ tree.immutables,
      memtable ∈ tree.active :: tree.immutables :=
    fun _ member => List.mem_cons_of_mem _ member
  have failed : ∀ memtable ∈ tree.immutables ++ [tree.active],
      memtable ∈ tree.active :: tree.immutables := by
    intro memtable member
    rcases List.mem_append.mp member with old | new
    · exact parked memtable old
    · rw [List.mem_singleton.mp new]
      exact List.mem_cons_self
  unfold flushMemtableInternal
  split
  · cases outcome with
    | done =>
        exact ⟨emptied _ parked, everywhere.publish existing info⟩
    | failedWriting => exact ⟨emptied _ failed, everywhere.tables⟩
    | failedOpening => exact ⟨emptied _ failed, everywhere.tables⟩
  · exact ⟨emptied _ parked, everywhere.tables⟩

end Everywhere

end LsmTree

end F4kvsLsm
