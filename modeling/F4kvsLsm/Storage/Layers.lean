import F4kvsLsm.Lib.KeyOrder
import F4kvsLsm.Lib.Overlay
import F4kvsLsm.Storage.Memtable
import F4kvsLsm.Storage.Sstable
import F4kvsLsm.Error

/-!
# Scans of one memtable or one table

Every scan of the engine asks each memtable and each table for its keys with a
prefix or in a range.  A memtable walks its map; a table searches its index
and then reads the entries, of which it leaves out those that it cannot read.
-/

namespace F4kvsLsm

open KeyOrder BinarySearch

/-! ## Prefixes and ranges of keys -/

/-- Strings are in byte order, and so are their characters. -/
def startsWith (key scanPrefix : String) : Bool :=
  scanPrefix.toList.isPrefixOf key.toList

/-- `char::from_u32(c + 1)` -/
def nextChar (c : Char) : Option Char :=
  if valid : (c.toNat + 1).isValidChar then some (Char.ofNatAux _ valid)
  else none

/-- The exclusive upper bound of a range scan; without an end there is none.
-/
def exclusiveRangeEnd (rangeEnd : String) : Option String :=
  match rangeEnd.toList.getLast? with
  | none => none
  | some lastChar =>
      match nextChar lastChar with
      | some next => some (String.ofList (rangeEnd.toList.dropLast ++ [next]))
      | none => some (rangeEnd ++ "\x01")

def belowEnd (rangeEnd key : String) : Bool :=
  match exclusiveRangeEnd rangeEnd with
  | some bound => key < bound
  | none => true

/-- The keys that a range scan asks for. -/
def inRange (start rangeEnd key : String) : Bool :=
  decide (start ≤ key) && belowEnd rangeEnd key

/-- Why a scan returns nothing: an error, a storage error of the engine's
interface, or a range that the ordered map does not accept. -/
inductive ScanFailure where
  | error (failure : LsmError)
  | storage (message : String)
  | panicked

/-! ### Steps that succeed or fail -/

@[simp]
theorem ok_bind {ε α β : Type} (value : α) (next : α → Except ε β) :
    (Except.ok value >>= next) = next value := rfl

@[simp]
theorem error_bind {ε α β : Type} (failure : ε) (next : α → Except ε β) :
    (Except.error failure >>= next) = .error failure := rfl

theorem exists_of_bind_ok
    {ε α β : Type} {first : Except ε α} {next : α → Except ε β} {result : β}
    (done : (first >>= next) = .ok result) :
    ∃ value, first = .ok value ∧ next value = .ok result := by
  cases first with
  | error failure => cases done
  | ok value => exact ⟨value, rfl, done⟩

/-! ## Memtables -/

namespace Memtable

/-- `data.range(start..)` -/
def range (m : Memtable) (start : String) : List (String × Value × Bool) :=
  m.getAllEntries.filter fun entry => start ≤ entry.1

def scanPrefixLayer (m : Memtable) (scanPrefix : String) :
    List (String × Value × Bool) :=
  (m.range scanPrefix).takeWhile fun entry => startsWith entry.1 scanPrefix

/-- `BTreeMap::range` panics when the start is above the end, unless the map
is empty. -/
def scanRangeLayer (m : Memtable) (start rangeEnd : String) :
    Except ScanFailure (List (String × Value × Bool)) :=
  match exclusiveRangeEnd rangeEnd with
  | some bound =>
      if m.entryCount > 0 ∧ bound < start then .error .panicked
      else .ok ((m.range start).filter fun entry => entry.1 < bound)
  | none => .ok (m.range start)

/-- The keys that have not been deleted. -/
def liveKeys (entries : List (String × Value × Bool)) : List String :=
  (entries.filter fun entry => !entry.2.2).map Prod.fst

def scanPrefix (m : Memtable) (keyPrefix : String) : List String :=
  liveKeys (m.scanPrefixLayer keyPrefix)

def scanRange (m : Memtable) (start rangeEnd : String) :
    Except ScanFailure (List String) :=
  (m.scanRangeLayer start rangeEnd).map liveKeys

end Memtable

/-! ## Tables -/

/-- What cannot be read: a file that does not open, an index that does not
load, the block of an entry. -/
structure ReadFaults where
  file : SSTable → Option LsmError
  index : SSTable → Option LsmError
  block : SSTable → SSTableEntry → Option LsmError

def ReadFaults.none : ReadFaults :=
  ⟨fun _ => .none, fun _ => .none, fun _ _ => .none⟩

def guardFault (fault : Option LsmError) : Except ScanFailure Unit :=
  match fault with
  | some failure => .error (.error failure)
  | none => .ok ()

namespace SSTable

variable (faults : ReadFaults) (table : SSTable)

/-- The index from the first key that is not below `start`. -/
def indexFrom (start : String) : List SSTableEntry :=
  table.entries.drop
    (partitionPoint (fun entry => entry.key < start) table.entries)

/-- Entries whose block cannot be read are left out. -/
def readEntries (entries : List SSTableEntry) :
    List (String × Value × Bool) :=
  (entries.filter fun entry => (faults.block table entry).isNone).map
    fun entry => (entry.key, entry.value, entry.deleted)

def scanPrefixLayer (scanPrefix : String) :
    Except ScanFailure (List (String × Value × Bool)) := do
  guardFault (faults.file table)
  guardFault (faults.index table)
  return table.readEntries faults
    ((table.indexFrom scanPrefix).takeWhile
      fun entry => startsWith entry.key scanPrefix)

def scanRangeLayer (start rangeEnd : String) :
    Except ScanFailure (List (String × Value × Bool)) := do
  guardFault (faults.file table)
  guardFault (faults.index table)
  return table.readEntries faults
    ((table.indexFrom start).takeWhile
      fun entry => belowEnd rangeEnd entry.key)

/-- All keys of the index, deleted or not. -/
def scanPrefix (keyPrefix : String) : Except ScanFailure (List String) := do
  guardFault (faults.index table)
  return ((table.indexFrom keyPrefix).takeWhile
    fun entry => startsWith entry.key keyPrefix).map (·.key)

def scanRange (start rangeEnd : String) :
    Except ScanFailure (List String) := do
  return Memtable.liveKeys (← table.scanRangeLayer faults start rangeEnd)

def scanAll : Except ScanFailure (List (String × Value × Bool)) := do
  guardFault (faults.index table)
  return table.readEntries faults table.entries

/-- All entries of the table, as a layer. -/
def layer : List (String × Value × Bool) :=
  table.entries.map fun entry => (entry.key, entry.value, entry.deleted)

end SSTable

/-! ## What keys have a prefix or are in a range -/

theorem startsWith_iff {key scanPrefix : String} :
    startsWith key scanPrefix = true ↔
      scanPrefix.toList <+: key.toList := by
  rw [startsWith, List.isPrefixOf_iff_prefix]

theorem le_of_startsWith {key scanPrefix : String}
    (starts : startsWith key scanPrefix = true) : scanPrefix ≤ key := by
  rw [String.le_iff_toList_le]
  exact le_of_isPrefix (startsWith_iff.mp starts)

theorem startsWith_of_between {scanPrefix low high : String}
    (starts : startsWith high scanPrefix = true)
    (above : scanPrefix ≤ low) (below : low ≤ high) :
    startsWith low scanPrefix = true := by
  rw [String.le_iff_toList_le] at above below
  exact startsWith_iff.mpr
    (isPrefix_of_between (startsWith_iff.mp starts) above below)

theorem startsWith_empty (key : String) : startsWith key "" = true :=
  startsWith_iff.mpr List.nil_prefix

theorem toNat_nextChar {c next : Char} (found : nextChar c = some next) :
    next.toNat = c.toNat + 1 := by
  rw [nextChar] at found
  by_cases valid : (c.toNat + 1).isValidChar
  · rw [dif_pos valid] at found
    rw [← Option.some.inj found]
    rfl
  · rw [dif_neg valid] at found
    cases found

theorem lt_nextChar {c next : Char} (found : nextChar c = some next) :
    c < next := by
  have follows := toNat_nextChar found
  change c.val < next.val
  rw [UInt32.lt_iff_toNat_lt]
  change c.toNat < next.toNat
  omega

theorem lt_exclusiveRangeEnd {rangeEnd bound : String}
    (found : exclusiveRangeEnd rangeEnd = some bound) : rangeEnd < bound := by
  rw [exclusiveRangeEnd] at found
  cases lastChar : rangeEnd.toList.getLast? with
  | none => simp [lastChar] at found
  | some last =>
      rw [lastChar] at found
      obtain ⟨front, whole⟩ := List.getLast?_eq_some_iff.mp lastChar
      rw [String.lt_iff_toList_lt, whole]
      cases following : nextChar last with
      | some next =>
          simp only [following, Option.some.injEq] at found
          rw [← found, whole, String.toList_ofList, List.dropLast_concat]
          exact List.Lex.append_left _
            (List.Lex.rel (lt_nextChar following)) front
      | none =>
          simp only [following, Option.some.injEq] at found
          rw [← found, String.toList_append, whole]
          nth_rewrite 1 [← List.append_nil (front ++ [last])]
          exact List.Lex.append_left _ List.Lex.nil (front ++ [last])

theorem exclusiveRangeEnd_eq_none_iff {rangeEnd : String} :
    exclusiveRangeEnd rangeEnd = none ↔ rangeEnd = "" := by
  rw [exclusiveRangeEnd]
  cases lastChar : rangeEnd.toList.getLast? with
  | none =>
      rw [List.getLast?_eq_none_iff, String.toList_eq_nil_iff] at lastChar
      simp [lastChar]
  | some last =>
      have nonempty : rangeEnd ≠ "" := by
        intro empty
        simp [empty] at lastChar
      simp only [nonempty, iff_false]
      cases nextChar last <;> simp

/-! ## Ascending layers -/

theorem Memtable.ascending (m : Memtable) :
    Ascending Prod.fst m.getAllEntries :=
  m.getAllEntries_sorted

theorem Memtable.range_ascending (m : Memtable) (start : String) :
    Ascending Prod.fst (m.range start) :=
  m.ascending.filter _

theorem downward_startsWith {α : Type} {key : α → String}
    {scanPrefix : String} {items : List α}
    (from_ : ∀ item ∈ items, scanPrefix ≤ key item) :
    Downward key (fun item => startsWith (key item) scanPrefix) items := by
  intro first firstMember second _ less starts
  exact startsWith_of_between starts (from_ first firstMember) less.le

theorem downward_belowEnd {α : Type} (key : α → String) (rangeEnd : String)
    (items : List α) :
    Downward key (fun item => belowEnd rangeEnd (key item)) items := by
  intro first _ second _ less below
  unfold belowEnd at below ⊢
  split
  · case h_1 bound found =>
      rw [found] at below
      exact decide_eq_true (less.trans (of_decide_eq_true below))
  · rfl

theorem Memtable.scanPrefixLayer_eq (m : Memtable) (scanPrefix : String) :
    m.scanPrefixLayer scanPrefix =
      m.getAllEntries.filter fun entry => startsWith entry.1 scanPrefix := by
  have within : ∀ entry ∈ m.range scanPrefix, scanPrefix ≤ entry.1 := by
    intro entry member
    exact of_decide_eq_true (List.mem_filter.mp member).2
  rw [Memtable.scanPrefixLayer, takeWhile_eq_filter
    (m.range_ascending scanPrefix) (downward_startsWith within),
    Memtable.range, List.filter_filter]
  apply List.filter_congr
  intro entry _
  cases starts : startsWith entry.1 scanPrefix with
  | false => rfl
  | true => simp [le_of_startsWith starts]

def rangeReversed (start rangeEnd : String) : Bool :=
  match exclusiveRangeEnd rangeEnd with
  | some bound => bound < start
  | none => false

theorem Memtable.scanRangeLayer_eq (m : Memtable) (start rangeEnd : String) :
    m.scanRangeLayer start rangeEnd =
      if m.entryCount > 0 ∧ rangeReversed start rangeEnd = true then
        .error .panicked
      else .ok (m.getAllEntries.filter
        fun entry => inRange start rangeEnd entry.1) := by
  rw [Memtable.scanRangeLayer, rangeReversed]
  cases found : exclusiveRangeEnd rangeEnd with
  | none =>
      simp only [Bool.false_eq_true, and_false, if_false, Memtable.range,
        inRange, belowEnd, found, Bool.and_true]
  | some bound =>
      simp only [decide_eq_true_eq, Memtable.range, List.filter_filter,
        inRange, belowEnd, found, Bool.and_comm]

theorem not_rangeReversed_of_le {start rangeEnd : String}
    (ordered : start ≤ rangeEnd) : rangeReversed start rangeEnd = false := by
  rw [rangeReversed]
  cases found : exclusiveRangeEnd rangeEnd with
  | none => rfl
  | some bound =>
      have above := lt_exclusiveRangeEnd found
      exact decide_eq_false (ordered.trans above.le).not_gt

namespace SSTable

variable {faults : ReadFaults} {table : SSTable}

/-- A layer of the entries whose blocks can be read. -/
def readable (faults : ReadFaults) (table : SSTable) :
    List (String × Value × Bool) :=
  table.readEntries faults table.entries

theorem readEntries_filter (chosen : String → Bool) :
    table.readEntries faults
        (table.entries.filter fun entry => chosen entry.key) =
      (table.readable faults).filter fun entry => chosen entry.1 := by
  rw [readable, readEntries, readEntries, List.filter_map,
    List.filter_filter, List.filter_filter]
  congr 1
  apply List.filter_congr
  intro entry _
  exact Bool.and_comm ..

theorem indexFrom_eq
    (ascending : Ascending SSTableEntry.key table.entries) (start : String) :
    table.indexFrom start =
      table.entries.filter fun entry => start ≤ entry.key :=
  drop_partitionPoint_lt ascending start

theorem indexFrom_prefix_eq
    (ascending : Ascending SSTableEntry.key table.entries)
    (keyPrefix : String) :
    ((table.indexFrom keyPrefix).takeWhile
        fun entry => startsWith entry.key keyPrefix) =
      table.entries.filter fun entry => startsWith entry.key keyPrefix := by
  have within : ∀ entry ∈ table.entries.filter
      (fun entry => keyPrefix ≤ entry.key), keyPrefix ≤ entry.key := by
    intro entry member
    exact of_decide_eq_true (List.mem_filter.mp member).2
  rw [indexFrom_eq ascending, takeWhile_eq_filter (ascending.filter _)
    (downward_startsWith within), List.filter_filter]
  apply List.filter_congr
  intro entry _
  cases starts : startsWith entry.key keyPrefix with
  | false => rfl
  | true => simp [le_of_startsWith starts]

theorem indexFrom_range_eq
    (ascending : Ascending SSTableEntry.key table.entries)
    (start rangeEnd : String) :
    ((table.indexFrom start).takeWhile
        fun entry => belowEnd rangeEnd entry.key) =
      table.entries.filter fun entry => inRange start rangeEnd entry.key := by
  rw [indexFrom_eq ascending, takeWhile_eq_filter (ascending.filter _)
    (downward_belowEnd SSTableEntry.key rangeEnd _), List.filter_filter]
  apply List.filter_congr
  intro entry _
  rw [inRange]
  exact Bool.and_comm ..

theorem readable_none (table : SSTable) :
    table.readable ReadFaults.none = table.layer := by
  rw [readable, readEntries, layer, List.filter_eq_self.mpr]
  exact fun _ _ => rfl

end SSTable

end F4kvsLsm
