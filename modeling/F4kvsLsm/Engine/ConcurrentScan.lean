import F4kvsLsm.Engine.ConcurrentGet
import F4kvsLsm.Engine.FlushOrder
import F4kvsLsm.Engine.PrefixScanYields

/-!
# A prefix scan beside flushes and compactions

A scan keeps the tables that there were at its start and looks into the
memtables afresh, first into the active one and then, under a lock of its own,
into the parked ones: once for the next key and once for its value.  A write,
a step of a flush or the install of a compaction can fall between any two of
these looks.
-/

namespace F4kvsLsm

open KeyOrder Transitions

/-! ## The scan -/

namespace LsmTree

variable (faults : ReadFaults)

/-- `prefix_scan_min_key` up to the active memtable. -/
def minKeyOfActive (active : Memtable) (st : PrefixScanState) :
    Option String :=
  considerOffers (consider st)
    (st.heads.map (fun head => head.sst.indexKeyAt faults head.pos) ++
      [active.firstKeyAfter st.keyPrefix st.last])

/-- The rest of `prefix_scan_min_key`. -/
def minKeyOfParked (parked : List Memtable) (st : PrefixScanState)
    (best : Option String) : Option String :=
  considerFrom (consider st) best
    (parked.map (·.firstKeyAfter st.keyPrefix st.last))

/-- The value of a key that no memtable holds. -/
def resolveHeads (st : PrefixScanState) (key : String) :
    Except ScanFailure (Option Value) := do
  let best ← st.heads.foldlM (resolveHead faults key) (0, none)
  return best.2.bind SSTableEntry.visible

theorem prefixScanMinKey_eq (tree : LsmTree) (st : PrefixScanState) :
    tree.prefixScanMinKey faults st =
      minKeyOfParked tree.immutables st
        (minKeyOfActive faults tree.active st) := by
  rw [prefixScanMinKey, offers, List.map_cons, ← List.singleton_append,
    ← List.append_assoc, considerOffers_append]
  rfl

end LsmTree

/-- How far a scan has come: `searching` and `missed` have looked into the
active memtable, for the next key or for its value. -/
inductive PrefixScanCall where
  | looking (st : PrefixScanState)
  | searching (st : PrefixScanState) (best : Option String)
  | resolving (st : PrefixScanState) (key : String)
  | missed (st : PrefixScanState) (key : String)
  | failed (failure : ScanFailure)
  | ended

def PrefixScanCall.state? : PrefixScanCall → Option PrefixScanState
  | .looking st => some st
  | .searching st _ => some st
  | .resolving st _ => some st
  | .missed st _ => some st
  | .failed _ => none
  | .ended => none

/-- An item that a scan has yielded, with what was expected of all reads at
one time or another since the scan came to its key. -/
structure PrefixScanItem where
  key : String
  value : Value
  meanwhile : List (String → Option Value)

/-- An engine and one scan.  `meanwhile` is what has been expected of reads
since the scan came to the key that it stands at, `written` are the keys that
have been written since the scan began. -/
structure PrefixScanRun where
  engine : FlushState
  call : PrefixScanCall
  items : List PrefixScanItem
  meanwhile : List (String → Option Value)
  written : List String

namespace PrefixScanRun

def start (engine : FlushState) (order : List Nat) (keyPrefix : String) :
    PrefixScanRun where
  engine := engine
  call := .looking (engine.tree.prefixScanStart .records order keyPrefix)
  items := []
  meanwhile := []
  written := []

/-- The memtables that flushes have swapped out. -/
def parked (s : PrefixScanRun) : List Memtable := s.engine.tree.immutables

/-- Yield the item, if there is one, and go on behind the key. -/
def answer (s : PrefixScanRun) (st : PrefixScanState) (key : String)
    (value : Option Value) : PrefixScanRun :=
  { s with
    call := .looking (LsmTree.prefixScanAdvance .records st key)
    items :=
      match value with
      | some value => s.items ++ [⟨key, value, s.meanwhile⟩]
      | none => s.items }

/-- One look of `prefix_scan_next`. -/
def scan (s : PrefixScanRun) : PrefixScanRun :=
  match s.call with
  | .looking st =>
      { s with
        call := .searching st
          (LsmTree.minKeyOfActive .records s.engine.active st) }
  | .searching st best =>
      match LsmTree.minKeyOfParked s.parked st best with
      | some key =>
          { s with
            call := .resolving st key
            meanwhile := [s.engine.expected] }
      | none => { s with call := .ended }
  | .resolving st key =>
      match s.engine.active.lookup key with
      | .found value => s.answer st key (some value)
      | .tombstone => s.answer st key none
      | .missing => { s with call := .missed st key }
  | .missed st key =>
      match getFromMemtables s.parked key with
      | .found value => s.answer st key (some value)
      | .tombstone => s.answer st key none
      | .missing =>
          match LsmTree.resolveHeads .records st key with
          | .ok value => s.answer st key value
          | .error failure => { s with call := .failed failure }
  | .failed _ => s
  | .ended => s

end PrefixScanRun

def FlushAction.written : FlushAction → List String
  | .put key _ => [key]
  | .delete key => [key]
  | _ => []

inductive PrefixScanAction where
  | scan
  | engine (action : FlushAction)
  | install (compaction : CompactionRun)

/-- A look of the scan, a step of a writer or of a flush, or the install of a
compaction. -/
inductive PrefixScanStep (config : CompactionConfig) :
    PrefixScanRun → PrefixScanAction → PrefixScanRun → Prop
  | scan {s : PrefixScanRun} : PrefixScanStep config s .scan s.scan
  | engine {s : PrefixScanRun} {action : FlushAction} {engine : FlushState} :
      FlushStep config.jsonLen s.engine action engine →
      PrefixScanStep config s (.engine action)
        { s with
          engine := engine
          meanwhile := s.meanwhile ++ [engine.expected]
          written := s.written ++ action.written }
  | install {s : PrefixScanRun} {compaction : CompactionRun}
      {levels : Nat → List SSTable} :
      compaction.Installs config s.engine.tree levels →
      PrefixScanStep config s (.install compaction)
        { s with engine := { s.engine with levels := levels } }

/-! ## The condition on a step -/

/-- What a scan finds for a key in these memtables and tables. -/
def scanFinds (memtables : List Memtable) (tables : List (SSTable × Nat))
    (key : String) : Option Value :=
  match memtableValue memtables key with
  | some value => value.visible
  | none =>
      (bestHit (·.hitWhere everyVersion key) tables).bind
        SSTableEntry.visible

def PrefixScanState.tables (st : PrefixScanState) : List (SSTable × Nat) :=
  st.heads.map fun head => (head.sst, head.level)

/-- The active memtable, unless the scan has looked into it for the value of
the key. -/
def PrefixScanRun.front (s : PrefixScanRun) (key : String) : List Memtable :=
  match s.call with
  | .missed _ here => if key = here then [] else [s.engine.active]
  | _ => [s.engine.active]

/-- Of the keys that the scan has still to come to, or stands at, a swap puts
none behind another value in an older parked memtable, and a removal takes
none away whose value the scan does not find behind it, in the parked
memtables or in its own tables. -/
def KeepsInSight (s : PrefixScanRun) : PrefixScanAction → Prop
  | .engine (.swap _) => ∀ st, s.call.state? = some st →
      ∀ key, st.wants key = true → ∀ value older,
        memtableValue (s.front key) key = some value →
          memtableValue s.parked key = some older →
            older.visible = value.visible
  | .engine (.remove call) => ∀ st, s.call.state? = some st →
      ∀ ticket index removed,
        s.engine.calls call = .published ticket index →
          s.parked[index]? = some removed →
            ∀ key, st.wants key = true → ∀ value,
              removed.data[key]? = some value →
                memtableValue (s.front key ++ s.parked.take index) key =
                    none →
                  scanFinds (s.parked.drop (index + 1)) st.tables key =
                    value.visible
  | _ => True

end F4kvsLsm
