import F4kvsLsm.Lib.Cursor
import F4kvsLsm.Bincode
import F4kvsLsm.Core.CheckedReads

/-!
# Prefix scans

A prefix scan keeps one position for each table that there was when it began,
and looks into the memtables again in every round.  There are three loops over
the same state: one item at a time, and without waiting for locks a page of
items or a visit of all items.  The visit and the pages have a search for the
next key of their own.
-/

namespace F4kvsLsm

open KeyOrder BinarySearch Cursors ByteCodec

/-! ## One table or one memtable -/

/-- `usize::MAX`, the position of a table whose index cannot be read. -/
def usizeMax : Nat := 2 ^ 64 - 1

namespace SSTable

variable (faults : ReadFaults) (table : SSTable)

def indexStart (start : String) : Nat :=
  match faults.index table with
  | some _ => usizeMax
  | none => partitionPoint (fun entry => entry.key < start) table.entries

def indexKeyAt (pos : Nat) : Option String :=
  match faults.index table with
  | some _ => none
  | none => (table.entries[pos]?).map (·.key)

def indexKeyEq (pos : Nat) (key : String) : Bool :=
  match faults.index table with
  | some _ => false
  | none => ((table.entries[pos]?).map fun entry =>
      decide (entry.key = key)).getD false

end SSTable

/-- The first key after `after`, or from the prefix on, if it has the
prefix. -/
def Memtable.firstKeyAfter (m : Memtable) (keyPrefix : String)
    (after : Option String) : Option String :=
  let reached : List (String × Value × Bool) :=
    match after with
    | some last => m.getAllEntries.filter fun entry => last < entry.1
    | none => m.range keyPrefix
  match reached.head? with
  | some entry =>
      if startsWith entry.1 keyPrefix then some entry.1 else none
  | none => none

/-! ## The state of a scan -/

/-- One table of a scan. -/
structure PrefixScanHead where
  sst : SSTable
  level : Nat
  pos : Nat

structure PrefixScanState where
  keyPrefix : String
  last : Option String
  heads : List PrefixScanHead

namespace LsmTree

variable (faults : ReadFaults) (tree : LsmTree)

/-- `order` is the order in which the map of the levels is iterated. -/
def prefixScanStart (order : List Nat) (keyPrefix : String) :
    PrefixScanState where
  keyPrefix := keyPrefix
  last := none
  heads := order.flatMap fun level =>
    (tree.levels level).map fun sst =>
      ⟨sst, level, sst.indexStart faults keyPrefix⟩

/-- The same without waiting for the lock of the map. -/
def tryPrefixScanStartSync (order : List Nat) (keyPrefix : String) :
    PrefixScanState :=
  prefixScanStart faults tree order keyPrefix

/-! ## The next key -/

/-- The closure of `prefix_scan_min_key`. -/
def consider (st : PrefixScanState) (best : Option String)
    (cand : String) : Option String :=
  if startsWith cand st.keyPrefix = false then best
  else if (st.last.map fun a => decide (cand ≤ a)) = some true then best
  else
    match best with
    | none => some cand
    | some cur => if cand < cur then some cand else best

/-- The closure of `prefix_scan_min_key_sync`. -/
def considerSync (st : PrefixScanState) (best : Option String)
    (cand : String) : Option String :=
  if startsWith cand st.keyPrefix = false then best
  else if (st.last.map fun a => decide (cand ≤ a)).getD false then best
  else if (best.map fun b => decide (cand < b)).getD true then some cand
  else best

/-- What the tables, the active memtable and the parked memtables offer. -/
def offers (st : PrefixScanState) : List (Option String) :=
  st.heads.map (fun head => head.sst.indexKeyAt faults head.pos) ++
    (tree.active :: tree.immutables).map
      (·.firstKeyAfter st.keyPrefix st.last)

def prefixScanMinKey (st : PrefixScanState) : Option String :=
  considerOffers (consider st) (offers faults tree st)

def prefixScanMinKeySync (st : PrefixScanState) : Option String :=
  considerOffers (considerSync st) (offers faults tree st)

/-! ## The value of a key -/

/-- The latest stamp of level 0 and the best version so far, after a lookup in
a table at `level`. -/
def keepHit (level : Nat) (best : Nat × Option SSTableEntry)
    (hit : Option SSTableEntry) : Nat × Option SSTableEntry :=
  match hit with
  | none => best
  | some entry =>
      if level = 0 then
        if best.1 ≤ entry.timestamp then (entry.timestamp, some entry)
        else best
      else if best.2.isNone then (best.1, some entry)
      else best

def resolveHead (key : String) (best : Nat × Option SSTableEntry)
    (head : PrefixScanHead) :
    Except ScanFailure (Nat × Option SSTableEntry) := do
  if head.sst.indexKeyEq faults head.pos key then
    return keepHit head.level best (← head.sst.lookupSync faults key)
  else return best

def prefixScanResolve (st : PrefixScanState) (key : String) :
    Except ScanFailure (Option Value) :=
  match getFromMemtables (tree.active :: tree.immutables) key with
  | .found value => .ok (some value)
  | .tombstone => .ok none
  | .missing => do
      let best ← st.heads.foldlM (resolveHead faults key) (0, none)
      return best.2.bind SSTableEntry.visible

/-- The same without waiting for the locks of the memtables. -/
def prefixScanResolveSync (st : PrefixScanState) (key : String) :
    Except ScanFailure (Option Value) :=
  prefixScanResolve faults tree st key

def prefixScanAdvance (st : PrefixScanState) (key : String) :
    PrefixScanState :=
  { st with
    last := some key
    heads := st.heads.map fun head =>
      if head.sst.indexKeyEq faults head.pos key then
        { head with pos := head.pos + 1 }
      else head }

/-! ## The loops -/

/-- What one round of `prefix_scan_next` does. -/
def prefixScan : Cursor PrefixScanState String Value ScanFailure where
  nextKey := prefixScanMinKey faults tree
  resolve := prefixScanResolve faults tree
  advance := prefixScanAdvance faults

/-- What one round of the loops that do not wait does. -/
def prefixScanSync : Cursor PrefixScanState String Value ScanFailure where
  nextKey := prefixScanMinKeySync faults tree
  resolve := prefixScanResolveSync faults tree
  advance := prefixScanAdvance faults

/-- No loop makes more rounds than there are keys to come to. -/
def scanRounds (st : PrefixScanState) : Nat :=
  (st.heads.map (·.sst.entries.length)).sum +
    ((tree.active :: tree.immutables).map (·.entryCount)).sum + 1

def prefixScanNext (st : PrefixScanState) :
    Option (Except ScanFailure (Option (String × Value)) ×
      PrefixScanState) :=
  (prefixScan faults tree).next (scanRounds tree st) st

def tryPrefixScanNextNSync (max : Nat) (st : PrefixScanState) :
    Option (Except ScanFailure (List (String × Value) × Bool) ×
      PrefixScanState) :=
  (prefixScanSync faults tree).page max (scanRounds tree st) st []

end LsmTree

def Value.payload : Value → Option Bytes
  | .bytes b => some b
  | .string s => some (strBytes s)
  | _ => none

/-- The visitor's answer `false` stops the scan. -/
def LsmTree.tryPrefixScanForeachSync (faults : ReadFaults) (tree : LsmTree)
    (order : List Nat) (keyPrefix : String) {ω : Type}
    (visit : ω → String → Bytes → Bool × ω) (visitor : ω) :
    Option (Except ScanFailure Unit × ω) :=
  let st := tryPrefixScanStartSync faults tree order keyPrefix
  (prefixScanSync faults tree).forEach Value.payload visit
    (scanRounds tree st) st visitor

end F4kvsLsm
