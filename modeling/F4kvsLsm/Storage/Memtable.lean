import Std.Data.TreeMap.Lemmas
import F4kvsLsm.Lib.LastWrite
import F4kvsLsm.Value

/-!
# Memtables

An ordered map from keys to values in which `Null` marks a deleted key.  The
entry counter decides whether a flush has anything to write, so it always is
the number of keys in the map, tombstones included.
-/

namespace F4kvsLsm

open KeyedLog

inductive MemtableLookupResult where
  | found (value : Value)
  | tombstone
  | missing

/-- Sorted key-value storage with its size in bytes. -/
structure Memtable where
  data : Std.TreeMap String Value
  size : Nat
  entryCount : Nat
  counted : entryCount = data.size

namespace Memtable

variable (jsonLen : SerdeJsonValue → Nat)

def new : Memtable := ⟨∅, 0, 0, rfl⟩

/-- The counter after `key` has been written. -/
def countAfter (m : Memtable) (key : String) : Nat :=
  if m.data.contains key then m.entryCount else m.entryCount + 1

theorem countAfter_eq (m : Memtable) (key : String) (value : Value) :
    m.countAfter key = (m.data.insert key value).size := by
  rw [countAfter, Std.TreeMap.size_insert, m.counted]

def put (m : Memtable) (key : String) (value : Value) : Memtable :=
  { data := m.data.insert key value
    size :=
      match m.data[key]? with
      | some old =>
          m.size - (key.utf8ByteSize + old.serializedSize jsonLen) +
            (key.utf8ByteSize + value.serializedSize jsonLen)
      | none => m.size + (key.utf8ByteSize + value.serializedSize jsonLen)
    entryCount := m.countAfter key
    counted := m.countAfter_eq key value }

/-- Leave a tombstone, whether or not the key is in this memtable. -/
def delete (m : Memtable) (key : String) : Memtable :=
  { data := m.data.insert key .null
    size :=
      (match m.data[key]? with
        | some old =>
            m.size - (key.utf8ByteSize + old.serializedSize jsonLen)
        | none => m.size) + (key.utf8ByteSize + 1)
    entryCount := m.countAfter key
    counted := m.countAfter_eq key .null }

def clear (_ : Memtable) : Memtable := new

/-- The key is held as deleted. -/
def isTombstone (m : Memtable) (key : String) : Bool :=
  match m.data[key]? with
  | some value => value.isNull
  | none => false

def lookup (m : Memtable) (key : String) : MemtableLookupResult :=
  match m.data[key]? with
  | some .null => .tombstone
  | some value => .found value
  | none => .missing

/-- Keys in order with their values and whether they are tombstones. -/
def getAllEntries (m : Memtable) : List (String × Value × Bool) :=
  m.data.toList.map fun item => (item.1, item.2, item.2.isNull)

/-- What a log entry writes into a memtable, if anything. -/
def write (m : Memtable) (key : String) (value : Value) : Memtable :=
  if value.isNull then m.delete jsonLen key else m.put jsonLen key value

variable {jsonLen}

@[simp]
theorem new_get (key : String) : new.data[key]? = none := by
  simp [new]

@[simp]
theorem put_get (m : Memtable) (key : String) (value : Value)
    (other : String) :
    (m.put jsonLen key value).data[other]? =
      if key = other then some value else m.data[other]? := by
  simp only [put, Std.TreeMap.getElem?_insert, Std.compare_eq_iff_eq]

@[simp]
theorem delete_get (m : Memtable) (key other : String) :
    (m.delete jsonLen key).data[other]? =
      if key = other then some .null else m.data[other]? := by
  simp only [delete, Std.TreeMap.getElem?_insert, Std.compare_eq_iff_eq]

theorem mem_getAllEntries
    {m : Memtable} {key : String} {value : Value} {deleted : Bool} :
    (key, value, deleted) ∈ m.getAllEntries ↔
      m.data[key]? = some value ∧ deleted = value.isNull := by
  simp only [getAllEntries, List.mem_map, Prod.mk.injEq, Prod.exists,
    Std.TreeMap.mem_toList_iff_getElem?_eq_some]
  constructor
  · rintro ⟨_, _, found, rfl, rfl, rfl⟩
    exact ⟨found, rfl⟩
  · rintro ⟨found, rfl⟩
    exact ⟨key, value, found, rfl, rfl, rfl⟩

theorem lt_of_compare {first second : String}
    (less : compare first second = .lt) : first < second := by
  change compareOfLessAndEq first second = .lt at less
  unfold compareOfLessAndEq at less
  split at less
  · assumption
  · split at less <;> exact absurd less (by simp)

theorem getAllEntries_sorted (m : Memtable) :
    m.getAllEntries.Pairwise (fun first second => first.1 < second.1) := by
  rw [getAllEntries, List.pairwise_map]
  refine m.data.ordered_keys_toList.imp ?_
  intro first second less
  exact lt_of_compare less

theorem getAllEntries_length (m : Memtable) :
    m.getAllEntries.length = m.entryCount := by
  rw [getAllEntries, List.length_map, Std.TreeMap.length_toList, m.counted]

end Memtable

end F4kvsLsm
