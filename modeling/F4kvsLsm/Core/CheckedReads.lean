import F4kvsLsm.Core.Tree
import F4kvsLsm.Storage.FramedEntry
import F4kvsLsm.Storage.Layers

/-!
# Reads of tables that cannot all be read

A lookup of a table fails when the index or the record of the entry cannot be
read.  One read logs the failure and goes on with the other tables, another
one returns it.  A record that was written completely is refused all the same
when it holds a JSON document or is too large.
-/

namespace F4kvsLsm

open ByteCodec Versions

/-! ## The reads -/

namespace SSTable

variable (faults : ReadFaults) (table : SSTable)

/-- The key range, the index and then the block of the entry. -/
def lookupSync (key : String) : Except ScanFailure (Option SSTableEntry) := do
  if table.keyMayExist key then
    guardFault (faults.index table)
    match table.entries.find? (fun entry => entry.key = key) with
    | none => return none
    | some entry => do
        guardFault (faults.block table entry)
        return some entry
  else return none

/-- The checks of `lookup_pinned` are those of `lookup_sync`. -/
def lookupPinned (key : String) : Except ScanFailure (Option SSTableEntry) :=
  table.lookupSync faults key

def lookupLogged (key : String) : Option SSTableEntry :=
  match table.lookupPinned faults key with
  | .ok hit => hit
  | .error _ => none

end SSTable

/-- One level of `get_from_sstables`. -/
def getFromLevelLogged (faults : ReadFaults) (level : Nat)
    (files : List SSTable) (key : String) : Option SSTableEntry :=
  match level with
  | 0 => newest SSTableEntry.timestamp
      ((files.filter (·.keyMayExist key)).filterMap
        (·.lookupLogged faults key))
  | _ + 1 => (findSstableForKey files key).bind (·.lookupLogged faults key)

def getFromSstablesLogged (faults : ReadFaults) (levelCount : Nat)
    (levels : Nat → List SSTable) (key : String) : Option Value :=
  ((List.range levelCount).findSome? fun level =>
    getFromLevelLogged faults level (levels level) key).bind
      SSTableEntry.visible

/-- One level of `get_from_sstables_sync`. -/
def getFromLevelSync (faults : ReadFaults) (level : Nat)
    (files : List SSTable) (key : String) :
    Except ScanFailure (Option SSTableEntry) :=
  match level with
  | 0 => (files.filter (·.keyMayExist key)).foldlM (fun best table => do
      match ← table.lookupSync faults key with
      | some hit => return keepNewer SSTableEntry.timestamp best hit
      | none => return best) none
  | _ + 1 =>
      match findSstableForKey files key with
      | some table => table.lookupSync faults key
      | none => .ok none

/-- The levels are asked in turn until one knows the key. -/
def getFromSstablesSync (faults : ReadFaults) (levels : Nat → List SSTable)
    (key : String) : List Nat → Except ScanFailure (Option Value)
  | [] => .ok none
  | level :: rest => do
      match ← getFromLevelSync faults level (levels level) key with
      | some hit => return hit.visible
      | none => getFromSstablesSync faults levels key rest

namespace LsmTree

variable (faults : ReadFaults) (levelCount : Nat) (tree : LsmTree)

/-- `get`, with tables that cannot all be read. -/
def getLogged (key : String) : Option Value :=
  match getFromMemtables (tree.active :: tree.immutables) key with
  | .found value => some value
  | .tombstone => none
  | .missing => getFromSstablesLogged faults levelCount tree.levels key

/-- `exists`, with tables that cannot all be read. -/
def existsLogged (key : String) : Bool :=
  match getFromMemtables (tree.active :: tree.immutables) key with
  | .found _ => true
  | .tombstone => false
  | .missing =>
      (getFromSstablesLogged faults levelCount tree.levels key).isSome

/-- `try_get_sync`, with the locks free. -/
def tryGetSyncWith (key : String) : Except ScanFailure (Option Value) :=
  match getFromMemtables (tree.active :: tree.immutables) key with
  | .found value => .ok (some value)
  | .tombstone => .ok none
  | .missing =>
      getFromSstablesSync faults tree.levels key (List.range levelCount)

end LsmTree

/-! ## Records that are refused -/

/-- A write whose record in a table can be read. -/
structure ReadsBack (key : String) (value : Value) : Prop where
  notJson : value.isJson = false
  small : (SSTableEntry.mk key value 0 value.isNull).encode.length ≤
    maxFramedEntry

/-- Why `parse_framed_entry` refuses the record of an entry. -/
def SSTableEntry.readFault (entry : SSTableEntry) : Option LsmError :=
  if maxFramedEntry < entry.encode.length then
    some (.corruption
      ("invalid framed entry size " ++ toString entry.encode.length))
  else if entry.value.isJson then
    some (.serialization "Failed to deserialize entry")
  else none

/-- Files and indexes can be read, and the records that are not refused. -/
def ReadFaults.records : ReadFaults :=
  ⟨fun _ => .none, fun _ => .none, fun _ entry => entry.readFault⟩

theorem SSTableEntry.encode_length_eq (entry : SSTableEntry) (timestamp : Nat)
    (deleted : Bool) :
    (SSTableEntry.mk entry.key entry.value timestamp deleted).encode.length =
      entry.encode.length := by
  simp only [encode, List.length_append, encodeU64, encodeBool,
    toLeBytes_length, List.length_singleton]

theorem SSTableEntry.readFault_eq_none_iff {entry : SSTableEntry} :
    entry.readFault = none ↔ ReadsBack entry.key entry.value := by
  have same := entry.encode_length_eq 0 entry.value.isNull
  rw [readFault]
  constructor
  · intro read
    split at read
    · cases read
    · case isFalse small =>
        split at read
        · cases read
        · case isFalse notJson =>
            exact ⟨Bool.eq_false_iff.mpr notJson,
              same.trans_le (not_lt.mp small)⟩
  · intro readsBack
    rw [if_neg (not_lt.mpr (same.symm.trans_le readsBack.small)),
      readsBack.notJson, if_neg Bool.false_ne_true]

/-- A reader gets the entry back from its record exactly when the record is
not refused. -/
theorem parseFramedEntry_framedEntry_iff {entry : SSTableEntry}
    (fits : entry.Fits) (sized : entry.encode.length < 2 ^ 32)
    (front back : Bytes) :
    parseFramedEntry (front ++ framedEntry entry ++ back) front.length =
      .ok entry ↔ entry.readFault = none := by
  rw [SSTableEntry.readFault]
  by_cases large : maxFramedEntry < entry.encode.length
  · rw [if_pos large, parseFramedEntry_large large sized]
    exact iff_of_false nofun nofun
  · rw [if_neg large, parseFramedEntry_framedEntry (not_lt.mp large),
      SSTableEntry.deserialize_encode fits]
    cases entry.value.isJson with
    | true => exact iff_of_false nofun nofun
    | false => exact iff_of_true rfl rfl

/-! ## Tables without such records -/

/-- Every record of the table can be read. -/
def SSTable.ReadsBack (table : SSTable) : Prop :=
  ∀ entry ∈ table.entries, F4kvsLsm.ReadsBack entry.key entry.value

/-- A flush of the memtable writes records that can be read. -/
def Memtable.ReadsBack (m : Memtable) : Prop :=
  ∀ key value, m.data[key]? = some value → F4kvsLsm.ReadsBack key value

namespace SSTable.ReadsBack

variable {table : SSTable} (readsBack : table.ReadsBack)

include readsBack

theorem lookupSync_records (key : String) :
    table.lookupSync .records key = .ok (table.lookup key) := by
  rw [SSTable.lookupSync, SSTable.lookup]
  split
  · cases found : table.entries.find? (fun entry => entry.key = key) with
    | none => rfl
    | some entry =>
        have member := List.mem_of_find?_eq_some found
        have read := SSTableEntry.readFault_eq_none_iff.mpr
          (readsBack entry member)
        change (guardFault entry.readFault >>= fun _ => _) = _
        rw [read]
        rfl
  · rfl

theorem lookupLogged_records (key : String) :
    table.lookupLogged .records key = table.lookup key := by
  rw [SSTable.lookupLogged, SSTable.lookupPinned,
    readsBack.lookupSync_records]

end SSTable.ReadsBack

section

variable {levels : Nat → List SSTable}
  (readsBack : ∀ level, ∀ table ∈ levels level, table.ReadsBack)

include readsBack

theorem getFromLevelLogged_records (level : Nat) (key : String) :
    getFromLevelLogged .records level (levels level) key =
      getFromLevel level (levels level) key := by
  cases level with
  | zero =>
      rw [getFromLevelLogged, getFromLevel, getFromLevel0]
      congr 1
      apply List.filterMap_congr
      intro table member
      exact (readsBack 0 table
        (List.mem_of_mem_filter member)).lookupLogged_records key
  | succ level =>
      rw [getFromLevelLogged, getFromLevel]
      cases found : findSstableForKey (levels (level + 1)) key with
      | none => rfl
      | some table =>
          exact (readsBack _ table
            (findSstableForKey_mem found)).lookupLogged_records key

theorem getFromSstablesLogged_records (levelCount : Nat) (key : String) :
    getFromSstablesLogged .records levelCount levels key =
      getFromSstables levelCount levels key := by
  rw [getFromSstablesLogged, getFromSstables]
  simp only [getFromLevelLogged_records readsBack]

theorem getFromLevelSync_records (level : Nat) (key : String) :
    getFromLevelSync .records level (levels level) key =
      .ok (getFromLevel level (levels level) key) := by
  cases level with
  | zero =>
      rw [getFromLevelSync, getFromLevel, getFromLevel0, newest]
      have all : ∀ table ∈ (levels 0).filter (·.keyMayExist key),
          table.ReadsBack := fun table member =>
        readsBack 0 table (List.mem_of_mem_filter member)
      generalize (levels 0).filter (·.keyMayExist key) = files at all
      generalize (none : Option SSTableEntry) = best
      induction files generalizing best with
      | nil => rfl
      | cons table rest inductionHypothesis =>
          rw [List.foldlM_cons,
            (all table List.mem_cons_self).lookupSync_records, ok_bind,
            List.filterMap_cons]
          have behind := fun best => inductionHypothesis
            (fun other member => all other (List.mem_cons_of_mem _ member))
            best
          cases table.lookup key with
          | none => exact behind best
          | some hit => exact behind _
  | succ level =>
      rw [getFromLevelSync, getFromLevel]
      cases found : findSstableForKey (levels (level + 1)) key with
      | none => rfl
      | some table =>
          exact (readsBack _ table
            (findSstableForKey_mem found)).lookupSync_records key

theorem getFromSstablesSync_records (order : List Nat) (key : String) :
    getFromSstablesSync .records levels key order =
      .ok ((order.findSome? fun level =>
        getFromLevel level (levels level) key).bind
          SSTableEntry.visible) := by
  induction order with
  | nil => rfl
  | cons level rest inductionHypothesis =>
      rw [getFromSstablesSync, getFromLevelSync_records readsBack, ok_bind,
        List.findSome?_cons]
      cases getFromLevel level (levels level) key with
      | none => exact inductionHypothesis
      | some hit => rfl

end

/-! ## Reads of the engine -/

namespace LsmTree

variable (levelCount : Nat) (tree : LsmTree) (key : String)

/-- `get` -/
def getChecked : Option Value :=
  tree.getLogged .records levelCount key

/-- `exists` -/
def existsChecked : Bool :=
  tree.existsLogged .records levelCount key

/-- `try_get_sync` between operations, when every lock is free. -/
def tryGetSyncChecked : Except ScanFailure (Option Value) :=
  tree.tryGetSyncWith .records levelCount key

/-- Every record in the tables can be read, and every one that a flush may
write. -/
abbrev ReadsBack (tree : LsmTree) : Prop :=
  tree.Everywhere F4kvsLsm.ReadsBack

end LsmTree

section

variable {tree : LsmTree}

theorem LsmTree.getChecked_eq
    (readsBack : ∀ level, ∀ table ∈ tree.levels level, table.ReadsBack)
    (levelCount : Nat) (key : String) :
    tree.getChecked levelCount key = tree.get levelCount key := by
  unfold getChecked getLogged get
  cases getFromMemtables (tree.active :: tree.immutables) key with
  | found value => rfl
  | tombstone => rfl
  | missing => exact getFromSstablesLogged_records readsBack levelCount key

theorem LsmTree.existsChecked_eq
    (readsBack : ∀ level, ∀ table ∈ tree.levels level, table.ReadsBack)
    (levelCount : Nat) (key : String) :
    tree.existsChecked levelCount key = (tree.get levelCount key).isSome := by
  have tables := getFromSstablesLogged_records readsBack levelCount key
  unfold existsChecked existsLogged get
  cases getFromMemtables (tree.active :: tree.immutables) key with
  | found value => rfl
  | tombstone => rfl
  | missing => exact congrArg Option.isSome tables

theorem LsmTree.tryGetSyncChecked_eq
    (readsBack : ∀ level, ∀ table ∈ tree.levels level, table.ReadsBack)
    (levelCount : Nat) (key : String) :
    tree.tryGetSyncChecked levelCount key =
      .ok (tree.get levelCount key) := by
  unfold tryGetSyncChecked tryGetSyncWith get
  cases getFromMemtables (tree.active :: tree.immutables) key with
  | found value => rfl
  | tombstone => rfl
  | missing =>
      exact getFromSstablesSync_records readsBack (List.range levelCount) key

/-! ## Writes and flushes -/

theorem Memtable.new_readsBack : Memtable.new.ReadsBack := by
  intro key value found
  rw [Memtable.new_get] at found
  cases found

theorem Memtable.ReadsBack.overwrite {m written : Memtable}
    (readsBack : m.ReadsBack) {key : String} {value : Value}
    (stored : F4kvsLsm.ReadsBack key value)
    (gets : ∀ other, written.data[other]? =
      if key = other then some value else m.data[other]?) :
    written.ReadsBack := by
  intro other found held
  rw [gets] at held
  by_cases same : key = other
  · rw [if_pos same, Option.some.injEq] at held
    rw [← same, ← held]
    exact stored
  · rw [if_neg same] at held
    exact readsBack other found held

theorem Memtable.ReadsBack.put {m : Memtable} (readsBack : m.ReadsBack)
    {key : String} {value : Value} (written : F4kvsLsm.ReadsBack key value)
    (jsonLen : SerdeJsonValue → Nat) :
    (m.put jsonLen key value).ReadsBack :=
  readsBack.overwrite written (m.put_get key value)

theorem Memtable.ReadsBack.delete {m : Memtable} (readsBack : m.ReadsBack)
    {key : String} (written : F4kvsLsm.ReadsBack key .null)
    (jsonLen : SerdeJsonValue → Nat) :
    (m.delete jsonLen key).ReadsBack :=
  readsBack.overwrite written (m.delete_get key)

namespace LsmTree.ReadsBack

variable (readsBack : tree.ReadsBack)

include readsBack

theorem put {key : String} {value : Value}
    (written : F4kvsLsm.ReadsBack key value)
    (jsonLen : SerdeJsonValue → Nat) :
    (tree.put jsonLen key value).ReadsBack := by
  have active : tree.active.ReadsBack :=
    readsBack.memtables tree.active List.mem_cons_self
  exact readsBack.write fun other found held =>
    Or.inr (active.put written jsonLen other found held)

theorem delete {key : String} (written : F4kvsLsm.ReadsBack key .null)
    (jsonLen : SerdeJsonValue → Nat) :
    (tree.delete jsonLen key).ReadsBack := by
  have active : tree.active.ReadsBack :=
    readsBack.memtables tree.active List.mem_cons_self
  exact readsBack.write fun other found held =>
    Or.inr (active.delete written jsonLen other found held)

theorem flush (existing : List SstableName) (info : TableInfo)
    (outcome : FlushOutcome) :
    (tree.flushMemtableInternal existing info outcome).1.ReadsBack :=
  Everywhere.flush readsBack existing info outcome

end LsmTree.ReadsBack

end

end F4kvsLsm
