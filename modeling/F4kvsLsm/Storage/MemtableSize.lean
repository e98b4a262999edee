import F4kvsLsm.Lib.MapTotal
import F4kvsLsm.Lib.Runs
import F4kvsLsm.Storage.Memtable

/-!
# What a memtable counts

A memtable keeps the number of its keys and the number of bytes that it holds
beside the map.  Each write takes off what the old value of the key weighs
and adds what the new one is charged.  A deletion is charged one byte, but an
old value that marks a deletion is taken off as zero bytes.
-/

namespace F4kvsLsm

open MapTotal Transitions

/-- The operations that change a memtable. -/
inductive MemtableOp where
  | put (key : String) (value : Value)
  | delete (key : String)
  | clear

namespace Memtable

variable (jsonLen : SerdeJsonValue → Nat)

def apply (m : Memtable) : MemtableOp → Memtable
  | .put key value => m.put jsonLen key value
  | .delete key => m.delete jsonLen key
  | .clear => m.clear

/-- What an entry is charged when it is written: the key and the value, with
one byte for a deletion. -/
def entryCharge (key : String) (value : Value) : Nat :=
  key.utf8ByteSize +
    if value.isNull then 1 else value.serializedSize jsonLen

def contentsSize (m : Memtable) : Nat :=
  total (entryCharge jsonLen) m.data

def Accounted (m : Memtable) : Prop :=
  m.size = m.contentsSize jsonLen

/-- The operation takes off what the old entry was charged and adds what the
new entry is charged. -/
def ChargedAlike (m : Memtable) : MemtableOp → Prop
  | .put key value => m.isTombstone key = value.isNull
  | .delete key => m.isTombstone key = false
  | .clear => True

variable {jsonLen}

@[simp]
theorem entryCharge_null (key : String) :
    entryCharge jsonLen key .null = key.utf8ByteSize + 1 := rfl

/-- A put of a value takes the bytes of the payload, which is none for the
mark of a deletion. -/
theorem put_size (m : Memtable) (key : String) (value : Value) :
    (m.put jsonLen key value).size =
      m.size - weightAt
        (fun key old => key.utf8ByteSize + old.serializedSize jsonLen)
        m.data key + (key.utf8ByteSize + value.serializedSize jsonLen) := by
  rw [put, weightAt]
  cases m.data[key]? <;> rfl

theorem delete_size (m : Memtable) (key : String) :
    (m.delete jsonLen key).size =
      m.size - weightAt
        (fun key old => key.utf8ByteSize + old.serializedSize jsonLen)
        m.data key + (key.utf8ByteSize + 1) := by
  rw [delete, weightAt]
  cases m.data[key]? <;> rfl

/-- What is taken off for the old entry is short of its charge by one byte
when the key is held as deleted. -/
theorem weightAt_entryCharge (m : Memtable) (key : String) :
    weightAt (entryCharge jsonLen) m.data key =
      weightAt (fun key old => key.utf8ByteSize + old.serializedSize jsonLen)
        m.data key + (m.isTombstone key).toNat := by
  cases held : m.data[key]? with
  | none =>
      rw [weightAt_of_none held, weightAt_of_none held, isTombstone, held]
      rfl
  | some old =>
      rw [weightAt_of_some held, weightAt_of_some held, isTombstone, held]
      cases old <;> rfl

/-- A write keeps the account when it leaves off as much of the old charge
as of the new one. -/
private theorem rewritten_iff
    {before after off added : Nat} {wasNull isNull : Bool}
    (within : off + wasNull.toNat ≤ before)
    (written : after + (off + wasNull.toNat) =
      before + (added + isNull.toNat)) :
    before - off + added = after ↔ wasNull = isNull := by
  cases wasNull <;> cases isNull <;> simp at within written ⊢ <;> omega

/-- From the size of the contents a put goes to it exactly when the old and
the new value both mark a deletion, or neither. -/
theorem accounted_put_iff
    {m : Memtable} (accounted : m.Accounted jsonLen) (key : String)
    (value : Value) :
    (m.put jsonLen key value).Accounted jsonLen ↔
      m.isTombstone key = value.isNull := by
  have written := total_insert (entryCharge jsonLen) m.data key value
  have within := weightAt_le_total (entryCharge jsonLen) m.data key
  have charge : entryCharge jsonLen key value =
      key.utf8ByteSize + value.serializedSize jsonLen +
        value.isNull.toNat := by
    cases value <;> rfl
  rw [weightAt_entryCharge, charge] at written
  rw [weightAt_entryCharge] at within
  rw [Accounted, put_size, accounted]
  exact rewritten_iff within written

theorem accounted_delete_iff
    {m : Memtable} (accounted : m.Accounted jsonLen) (key : String) :
    (m.delete jsonLen key).Accounted jsonLen ↔
      m.isTombstone key = false := by
  have written := total_insert (entryCharge jsonLen) m.data key .null
  have within := weightAt_le_total (entryCharge jsonLen) m.data key
  rw [weightAt_entryCharge, entryCharge_null] at written
  rw [weightAt_entryCharge] at within
  rw [Accounted, delete_size, accounted]
  exact @rewritten_iff _ _ _ _ _ false within written

theorem accounted_new : Accounted jsonLen new := rfl

theorem accounted_apply_iff
    (m : Memtable) (op : MemtableOp) (accounted : m.Accounted jsonLen) :
    (m.apply jsonLen op).Accounted jsonLen ↔ m.ChargedAlike op := by
  cases op with
  | put key value => exact accounted_put_iff accounted key value
  | delete key => exact accounted_delete_iff accounted key
  | clear => exact iff_of_true accounted_new trivial

/-- The entry counter is the number of keys in every run.  The size is that
of the contents throughout a run exactly when each put marks a deletion just
where one is held, and no delete meets a key that is held as deleted. -/
theorem size_is_that_of_contents_iff
    (jsonLen : SerdeJsonValue → Nat) (ops : List MemtableOp) :
    Throughout (apply jsonLen)
        (fun m => m.entryCount = m.getAllEntries.length) new ops ∧
      (Throughout (apply jsonLen) (Accounted jsonLen) new ops ↔
        EachMeets (apply jsonLen) ChargedAlike new ops) := by
  constructor
  · apply throughout_of_keeps
    · intro m op counted
      exact (getAllEntries_length _).symm
    · rfl
  · exact throughout_iff accounted_apply_iff accounted_new ops

/-- A put over a deletion leaves a byte behind: the same contents have
another size. -/
theorem size_depends_on_history :
    ¬ ∃ sizeOf : List (String × Value × Bool) → Nat,
      ∀ ops : List MemtableOp,
        (ops.foldl (apply fun _ => 0) new).size =
          sizeOf (ops.foldl (apply fun _ => 0) new).getAllEntries := by
  rintro ⟨sizeOf, depends⟩
  have fresh := depends [.put "k" (.bool true)]
  have revived := depends [.delete "k", .put "k" (.bool true)]
  have same : ([MemtableOp.delete "k", .put "k" (.bool true)].foldl
      (apply fun _ => 0) new).getAllEntries =
        ([MemtableOp.put "k" (.bool true)].foldl
          (apply fun _ => 0) new).getAllEntries := rfl
  rw [same, ← fresh] at revived
  exact absurd revived (by decide)

end Memtable

end F4kvsLsm
