import F4kvsLsm.Engine.History
import F4kvsLsm.Lib.Runs

/-!
# Concurrent memtable flushes

`flush_memtable` takes only the shared side of the operation guard, so any
number of calls may run at once, and between two of their steps any write may
reach the active memtable.  A call finds its memtable again by the index that
it had when it was pushed.

Calls are numbered, and each runs once.  Tickets number the memtables in the
order in which they were swapped out; they, the logs of what was swapped,
written and removed, and the expected reads are there to state properties and
are read by no step.  The compaction that follows a flush is not part of it.
-/

namespace F4kvsLsm

/-- A memtable in `immutable_memtables`. -/
structure ParkedMemtable where
  ticket : Nat
  memtable : Memtable

/-- Where a call of `flush_memtable_internal` stands: the ticket of the
memtable that it swapped out, the index that it remembers, and the ticket of
the memtable whose entries it has read. -/
inductive FlushCall where
  | idle
  | swapped (ticket index : Nat)
  | naming (ticket index source : Nat) (entries : List (String × Value × Bool))
  | stamping (ticket index source sequence : Nat)
      (rest : List (String × Value × Bool)) (stamped : List SSTableEntry)
  | published (ticket index : Nat)
  | returned

structure FlushState where
  active : Memtable
  immutables : List ParkedMemtable
  levels : Nat → List SSTable
  sequenceNumber : Nat
  calls : Nat → FlushCall
  swapped : List Memtable
  written : List (Nat × SSTable)
  removed : List (Nat × Nat)
  expected : String → Option Value

/-- One step of a writer or of a flush. -/
inductive FlushAction where
  | put (key : String) (value : Value)
  | delete (key : String)
  | swap (call : Nat)
  | readEntries (call : Nat)
  | drawName (call : Nat) (existing : List SstableName)
  | stampEntry (call : Nat)
  | publish (call : Nat) (info : TableInfo)
  | remove (call : Nat)

/-- An engine in which no flush is under way. -/
def FlushState.quiet (active : Memtable) (levels : Nat → List SSTable)
    (sequence : Nat) (expected : String → Option Value) : FlushState :=
  { active := active
    immutables := []
    levels := levels
    sequenceNumber := sequence
    calls := fun _ => .idle
    swapped := []
    written := []
    removed := []
    expected := expected }

namespace FlushState

/-! ## Steps -/

variable (jsonLen : SerdeJsonValue → Nat)

def put (s : FlushState) (key : String) (value : Value) : FlushState :=
  { s with
    active := s.active.put jsonLen key value
    expected := Function.update s.expected key value.visible }

def delete (s : FlushState) (key : String) : FlushState :=
  { s with
    active := s.active.delete jsonLen key
    expected := Function.update s.expected key none }

/-- Set where a call stands. -/
def move (s : FlushState) (call : Nat) (phase : FlushCall) : FlushState :=
  { s with calls := Function.update s.calls call phase }

/-- Swap the active memtable out, under the locks of both lists. -/
def swap (s : FlushState) (call : Nat) : FlushState :=
  if s.active.entryCount > 0 then
    { s.move call (.swapped s.swapped.length s.immutables.length) with
      active := .new
      immutables := s.immutables ++ [⟨s.swapped.length, s.active⟩]
      swapped := s.swapped ++ [s.active] }
  else { s.move call .returned with active := .new }

def sortByKey (entries : List (String × Value × Bool)) :
    List (String × Value × Bool) :=
  entries.insertionSort fun a b => a.1 ≤ b.1

/-- Read the memtable at the remembered index; with none there the call
returns. -/
def readEntries (s : FlushState) (call ticket index : Nat) : FlushState :=
  match s.immutables[index]? with
  | some parked =>
      let entries := parked.memtable.getAllEntries
      if entries.isEmpty then s.move call (.published ticket index)
      else s.move call (.naming ticket index parked.ticket (sortByKey entries))
  | none => s.move call .returned

/-- Draw a sequence number for the file name, until there is no such file. -/
def drawName (s : FlushState) (call ticket index source : Nat)
    (entries : List (String × Value × Bool)) (existing : List SstableName) :
    FlushState :=
  let s' := { s with sequenceNumber := s.sequenceNumber + 1 }
  if .flush 0 s.sequenceNumber ∈ existing then s'
  else s'.move call (.stamping ticket index source s.sequenceNumber entries [])

/-- Draw the timestamp of the next entry. -/
def stampEntry (s : FlushState) (call ticket index source sequence : Nat)
    (entry : String × Value × Bool) (rest : List (String × Value × Bool))
    (stamped : List SSTableEntry) : FlushState :=
  { s.move call (.stamping ticket index source sequence rest
      (stamped ++ [⟨entry.1, entry.2.1, s.sequenceNumber, entry.2.2⟩])) with
    sequenceNumber := s.sequenceNumber + 1 }

/-- Write and open the table and add it to level 0. -/
def publish (s : FlushState) (call ticket index source sequence : Nat)
    (stamped : List SSTableEntry) (info : TableInfo) : FlushState :=
  let table : SSTable :=
    { name := .flush 0 sequence
      entries := stamped
      fileSize := info.fileSize
      createdAt := info.createdAt
      blockCompressed := true }
  { s.move call (.published ticket index) with
    levels := LsmTree.publish s.levels table
    written := s.written ++ [(source, table)] }

/-- Remove the memtable at the remembered index, if there still is one. -/
def remove (s : FlushState) (call ticket index : Nat) : FlushState :=
  { s.move call .returned with
    immutables :=
      if s.immutables.length > index then s.immutables.eraseIdx index
      else s.immutables
    removed :=
      match s.immutables[index]? with
      | some parked => s.removed ++ [(ticket, parked.ticket)]
      | none => s.removed }

end FlushState

/-- The steps of writers and of any number of flushes. -/
inductive FlushStep (jsonLen : SerdeJsonValue → Nat) :
    FlushState → FlushAction → FlushState → Prop
  | put {s : FlushState} (key : String) (value : Value) :
      FlushStep jsonLen s (.put key value) (s.put jsonLen key value)
  | delete {s : FlushState} (key : String) :
      FlushStep jsonLen s (.delete key) (s.delete jsonLen key)
  | swap {s : FlushState} {call : Nat} :
      s.calls call = .idle → FlushStep jsonLen s (.swap call) (s.swap call)
  | readEntries {s : FlushState} {call ticket index : Nat} :
      s.calls call = .swapped ticket index →
      FlushStep jsonLen s (.readEntries call) (s.readEntries call ticket index)
  | drawName {s : FlushState} {call ticket index source : Nat}
      {entries : List (String × Value × Bool)}
      (existing : List SstableName) :
      s.calls call = .naming ticket index source entries →
      FlushStep jsonLen s (.drawName call existing)
        (s.drawName call ticket index source entries existing)
  | stampEntry {s : FlushState} {call ticket index source sequence : Nat}
      {entry : String × Value × Bool}
      {rest : List (String × Value × Bool)} {stamped : List SSTableEntry} :
      s.calls call =
        .stamping ticket index source sequence (entry :: rest) stamped →
      FlushStep jsonLen s (.stampEntry call)
        (s.stampEntry call ticket index source sequence entry rest stamped)
  | publish {s : FlushState} {call ticket index source sequence : Nat}
      {stamped : List SSTableEntry} (info : TableInfo) :
      s.calls call = .stamping ticket index source sequence [] stamped →
      FlushStep jsonLen s (.publish call info)
        (s.publish call ticket index source sequence stamped info)
  | remove {s : FlushState} {call ticket index : Nat} :
      s.calls call = .published ticket index →
      FlushStep jsonLen s (.remove call) (s.remove call ticket index)

/-- A call removes the memtable that was pushed last. -/
def RemovesLast (s : FlushState) : FlushAction → Prop
  | .remove call => ∀ ticket index, s.calls call = .published ticket index →
      index + 1 = s.immutables.length
  | _ => True

end F4kvsLsm
