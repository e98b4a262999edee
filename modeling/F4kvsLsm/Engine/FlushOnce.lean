import F4kvsLsm.Engine.Flushes

/-!
# Every memtable is flushed once

A remembered index stays right as long as only the last memtable of the list
is removed.  In such a run every call finds its own memtable at its index,
writes it to one table, and removes it.
-/

namespace F4kvsLsm

open Transitions

/-- The ticket and the index that a call under way remembers. -/
def FlushCall.place : FlushCall → Option (Nat × Nat)
  | .idle => none
  | .swapped ticket index => some (ticket, index)
  | .naming ticket index _ _ => some (ticket, index)
  | .stamping ticket index _ _ _ _ => some (ticket, index)
  | .published ticket index => some (ticket, index)
  | .returned => none

/-- The memtable entry that a table entry was made of. -/
def SSTableEntry.item (entry : SSTableEntry) : String × Value × Bool :=
  (entry.key, entry.value, entry.deleted)

/-- The entries that a call has read, with the ticket of their memtable. -/
def FlushCall.contents : FlushCall → Option (Nat × List (String × Value × Bool))
  | .naming _ _ source entries => some (source, entries)
  | .stamping _ _ source _ rest stamped =>
      some (source, stamped.map SSTableEntry.item ++ rest)
  | _ => none

/-- The call has written its table. -/
def FlushCall.Wrote : FlushCall → Prop
  | .published _ _ => True
  | _ => False

namespace FlushState

/-- No call is under way. -/
def AllReturned (s : FlushState) : Prop :=
  ∀ call, s.calls call = .idle ∨ s.calls call = .returned

def writtenTickets (s : FlushState) : List Nat :=
  s.written.map fun entry => entry.1

/-- Every removal is of the call's own memtable, after it was written; no
memtable is written twice and every table in level 0 is a whole memtable; and
when all calls have returned, all memtables are written and removed. -/
structure FlushedOnce (s : FlushState) : Prop where
  own : ∀ removal ∈ s.removed,
    removal.2 = removal.1 ∧ removal.2 ∈ s.writtenTickets
  once : s.writtenTickets.Nodup
  whole : ∀ source table, (source, table) ∈ s.written →
    table ∈ s.levels 0 ∧ ∃ memtable, s.swapped[source]? = some memtable ∧
      table.entries.map SSTableEntry.item = memtable.getAllEntries
  finished : s.AllReturned → s.immutables = [] ∧
    ∀ ticket < s.swapped.length,
      ticket ∈ s.writtenTickets ∧ (ticket, ticket) ∈ s.removed

/-! ## Where the memtables are -/

/-- Each call under way finds its memtable at its index, and every memtable of
the list belongs to one call. -/
structure Placed (s : FlushState) : Prop where
  here : ∀ call ticket index, (s.calls call).place = some (ticket, index) →
    ∃ memtable, s.immutables[index]? = some ⟨ticket, memtable⟩
  held : ∀ index parked, s.immutables[index]? = some parked →
    ∃ call, (s.calls call).place = some (parked.ticket, index)
  owner : ∀ call other ticket index index',
    (s.calls call).place = some (ticket, index) →
      (s.calls other).place = some (ticket, index') → call = other
  known : ∀ parked ∈ s.immutables,
    s.swapped[parked.ticket]? = some parked.memtable
  nonempty : ∀ memtable ∈ s.swapped, memtable.entryCount > 0

@[simp]
theorem move_calls_self (s : FlushState) (call : Nat) (phase : FlushCall) :
    (s.move call phase).calls call = phase :=
  Function.update_self ..

theorem move_calls_of_ne
    (s : FlushState) {call other : Nat} (phase : FlushCall)
    (different : other ≠ call) :
    (s.move call phase).calls other = s.calls other :=
  Function.update_of_ne different ..

theorem Placed.of_same
    {s s' : FlushState} (placed : s.Placed)
    (list : s'.immutables = s.immutables) (swapped : s'.swapped = s.swapped)
    (places : ∀ call, (s'.calls call).place = (s.calls call).place) :
    s'.Placed := by
  constructor
  · simpa only [list, places] using placed.here
  · simpa only [list, places] using placed.held
  · simpa only [places] using placed.owner
  · simpa only [list, swapped] using placed.known
  · simpa only [swapped] using placed.nonempty

theorem place_update
    {calls : Nat → FlushCall} {call : Nat} {phase : FlushCall}
    (same : phase.place = (calls call).place) (other : Nat) :
    (Function.update calls call phase other).place = (calls other).place := by
  by_cases here : other = call
  · rw [here, Function.update_self, same]
  · rw [Function.update_of_ne here]

theorem Placed.move
    {s : FlushState} (placed : s.Placed) {call : Nat} {phase : FlushCall}
    (same : phase.place = (s.calls call).place) :
    (s.move call phase).Placed :=
  placed.of_same rfl rfl (place_update same)

/-- A memtable that is pushed gets a new ticket and the index past the end. -/
theorem Placed.swap
    {s : FlushState} (placed : s.Placed) {call : Nat}
    (idle : s.calls call = .idle) : (s.swap call).Placed := by
  have unplaced : (s.calls call).place = none := by rw [idle]; rfl
  rw [FlushState.swap]
  split
  · case isTrue nonempty =>
      have fresh : ∀ other ticket index,
          (s.calls other).place = some (ticket, index) →
            index < s.immutables.length ∧ ticket < s.swapped.length := by
        intro other ticket index place
        obtain ⟨memtable, found⟩ := placed.here other ticket index place
        have known := placed.known _ (List.mem_of_getElem? found)
        exact ⟨(List.getElem?_eq_some_iff.mp found).1,
          (List.getElem?_eq_some_iff.mp known).1⟩
      constructor
      case here =>
        intro other ticket index place
        by_cases same : other = call
        · simp only [same, move_calls_self, FlushCall.place,
            Option.some.injEq, Prod.mk.injEq] at place
          obtain ⟨rfl, rfl⟩ := place
          exact ⟨s.active, by simp⟩
        · simp only [move_calls_of_ne s _ same] at place
          obtain ⟨memtable, found⟩ := placed.here other ticket index place
          refine ⟨memtable, ?_⟩
          simp only
          rw [List.getElem?_append_left (fresh other ticket index place).1,
            found]
      case held =>
        intro index parked found
        simp only at found
        rcases Nat.lt_or_ge index s.immutables.length with old | new
        · rw [List.getElem?_append_left old] at found
          obtain ⟨other, place⟩ := placed.held index parked found
          have different : other ≠ call := by
            rintro rfl
            rw [unplaced] at place
            exact absurd place (by simp)
          refine ⟨other, ?_⟩
          simp only [move_calls_of_ne s _ different]
          exact place
        · rw [List.getElem?_append_right new,
            List.getElem?_singleton] at found
          split at found
          · rw [← Option.some.inj found]
            refine ⟨call, ?_⟩
            simp only [move_calls_self, FlushCall.place, Option.some.injEq,
              Prod.mk.injEq, true_and]
            omega
          · exact absurd found (by simp)
      case owner =>
        intro first second ticket index index' firstPlace secondPlace
        by_cases firstSame : first = call <;>
          by_cases secondSame : second = call
        · rw [firstSame, secondSame]
        · simp only [firstSame, move_calls_self, FlushCall.place,
            Option.some.injEq, Prod.mk.injEq] at firstPlace
          simp only [move_calls_of_ne s _ secondSame] at secondPlace
          have bound := (fresh second ticket index' secondPlace).2
          omega
        · simp only [secondSame, move_calls_self, FlushCall.place,
            Option.some.injEq, Prod.mk.injEq] at secondPlace
          simp only [move_calls_of_ne s _ firstSame] at firstPlace
          have bound := (fresh first ticket index firstPlace).2
          omega
        · simp only [move_calls_of_ne s _ firstSame] at firstPlace
          simp only [move_calls_of_ne s _ secondSame] at secondPlace
          exact placed.owner first second ticket index index' firstPlace
            secondPlace
      case known =>
        intro parked member
        simp only at member ⊢
        rcases List.mem_append.mp member with old | new
        · have known := placed.known parked old
          rw [List.getElem?_append_left
            (List.getElem?_eq_some_iff.mp known).1, known]
        · rw [List.mem_singleton.mp new]
          simp
      case nonempty =>
        intro memtable member
        rcases List.mem_append.mp member with old | new
        · exact placed.nonempty memtable old
        · rw [List.mem_singleton.mp new]
          exact nonempty
  · exact placed.of_same rfl rfl
      (place_update (by rw [unplaced]; rfl))

/-- Removing the last memtable moves no other. -/
theorem Placed.remove
    {s : FlushState} (placed : s.Placed) {call ticket index : Nat}
    (published : s.calls call = .published ticket index)
    (last : index + 1 = s.immutables.length) :
    (s.remove call ticket index).Placed := by
  have place : (s.calls call).place = some (ticket, index) := by
    rw [published]
    rfl
  have list : (s.remove call ticket index).immutables =
      s.immutables.eraseIdx index :=
    if_pos (by omega)
  have calls : (s.remove call ticket index).calls =
      (s.move call .returned).calls := rfl
  have inside : ∀ other ticket' index',
      ((s.remove call ticket index).calls other).place =
        some (ticket', index') →
        other ≠ call ∧ (s.calls other).place = some (ticket', index') := by
    intro other ticket' index' found
    rw [calls] at found
    by_cases same : other = call
    · rw [same, move_calls_self] at found
      exact absurd found (by simp [FlushCall.place])
    · rw [move_calls_of_ne s _ same] at found
      exact ⟨same, found⟩
  constructor
  case here =>
    intro other ticket' index' found
    obtain ⟨different, found⟩ := inside other ticket' index' found
    obtain ⟨memtable, atIndex⟩ := placed.here other ticket' index' found
    refine ⟨memtable, ?_⟩
    have bound := (List.getElem?_eq_some_iff.mp atIndex).1
    have less : index' < index := by
      by_contra notLess
      have same : index' = index := by omega
      obtain ⟨own, atOwn⟩ := placed.here call ticket index place
      rw [same, atOwn, Option.some.injEq, ParkedMemtable.mk.injEq] at atIndex
      rw [← atIndex.1] at found
      exact different (placed.owner other call ticket index' index found place)
    rw [list, List.getElem?_eraseIdx_of_lt less, atIndex]
  case held =>
    intro index' parked found
    rw [list] at found
    have bound := (List.getElem?_eq_some_iff.mp found).1
    rw [List.length_eraseIdx_of_lt (by omega)] at bound
    rw [List.getElem?_eraseIdx_of_lt (by omega)] at found
    obtain ⟨other, at'⟩ := placed.held index' parked found
    have different : other ≠ call := by
      rintro rfl
      rw [place, Option.some.injEq, Prod.mk.injEq] at at'
      omega
    refine ⟨other, ?_⟩
    rw [calls, move_calls_of_ne s _ different]
    exact at'
  case owner =>
    intro first second ticket' index' index'' firstPlace secondPlace
    exact placed.owner first second ticket' index' index''
      (inside first _ _ firstPlace).2 (inside second _ _ secondPlace).2
  case known =>
    intro parked member
    rw [list] at member
    exact placed.known parked (List.mem_of_mem_eraseIdx member)
  case nonempty => exact placed.nonempty

/-! ## What has been written -/

/-- How far each memtable has come. -/
structure Tracked (s : FlushState) : Prop where
  placed : s.Placed
  read : ∀ call ticket index source entries,
    (s.calls call).place = some (ticket, index) →
      (s.calls call).contents = some (source, entries) →
      source = ticket ∧ ∃ memtable, s.swapped[ticket]? = some memtable ∧
        entries = memtable.getAllEntries
  wrote : ∀ call ticket index,
    (s.calls call).place = some (ticket, index) →
      ((s.calls call).Wrote ↔ ticket ∈ s.writtenTickets)
  once : s.writtenTickets.Nodup
  whole : ∀ source table, (source, table) ∈ s.written →
    table ∈ s.levels 0 ∧ ∃ memtable, s.swapped[source]? = some memtable ∧
      table.entries.map SSTableEntry.item = memtable.getAllEntries
  own : ∀ removal ∈ s.removed,
    removal.2 = removal.1 ∧ removal.2 ∈ s.writtenTickets
  done : ∀ ticket < s.swapped.length,
    (∃ call index, (s.calls call).place = some (ticket, index)) ∨
      ticket ∈ s.writtenTickets ∧ (ticket, ticket) ∈ s.removed

theorem Tracked.ticket_lt
    {s : FlushState} (tracked : s.Tracked) {ticket : Nat}
    (written : ticket ∈ s.writtenTickets) : ticket < s.swapped.length := by
  obtain ⟨⟨source, table⟩, member, rfl⟩ := List.mem_map.mp written
  obtain ⟨-, memtable, found, -⟩ := tracked.whole source table member
  exact (List.getElem?_eq_some_iff.mp found).1

theorem AllReturned.place_eq_none
    {s : FlushState} (all : s.AllReturned) (call : Nat) :
    (s.calls call).place = none := by
  rcases all call with idle | returned
  · rw [idle]
    rfl
  · rw [returned]
    rfl

theorem Tracked.flushedOnce {s : FlushState} (tracked : s.Tracked) :
    s.FlushedOnce where
  own := tracked.own
  once := tracked.once
  whole := tracked.whole
  finished := by
    intro all
    constructor
    · refine List.eq_nil_iff_forall_not_mem.mpr fun parked member => ?_
      obtain ⟨index, found⟩ := List.mem_iff_getElem?.mp member
      obtain ⟨call, place⟩ := tracked.placed.held index parked found
      rw [all.place_eq_none call] at place
      exact absurd place (by simp)
    · intro ticket bound
      rcases tracked.done ticket bound with ⟨call, index, place⟩ | finished
      · rw [all.place_eq_none call] at place
        exact absurd place (by simp)
      · exact finished

theorem quiet_tracked (active : Memtable) (levels : Nat → List SSTable)
    (sequence : Nat) (expected : String → Option Value) :
    (quiet active levels sequence expected).Tracked := by
  constructor
  case placed =>
    constructor <;> simp [quiet, FlushCall.place]
  all_goals simp [quiet, FlushCall.place, writtenTickets]

/-- A call goes on without writing a table or forgetting its place. -/
theorem Tracked.move
    {s : FlushState} (tracked : s.Tracked) {call ticket index : Nat}
    {phase : FlushCall}
    (place : (s.calls call).place = some (ticket, index))
    (samePlace : phase.place = some (ticket, index))
    (sameWrote : phase.Wrote ↔ (s.calls call).Wrote)
    (contents : ∀ source entries, phase.contents = some (source, entries) →
      source = ticket ∧ ∃ memtable, s.swapped[ticket]? = some memtable ∧
        entries = memtable.getAllEntries) :
    (s.move call phase).Tracked := by
  have places : ∀ other, ((s.move call phase).calls other).place =
      (s.calls other).place :=
    place_update (samePlace.trans place.symm)
  constructor
  case placed =>
    exact tracked.placed.move (samePlace.trans place.symm)
  case read =>
    intro other ticket' index' source entries found read
    by_cases same : other = call
    · rw [same, move_calls_self] at found read
      rw [samePlace, Option.some.injEq, Prod.mk.injEq] at found
      rw [← found.1]
      exact contents source entries read
    · rw [move_calls_of_ne s _ same] at found read
      exact tracked.read other ticket' index' source entries found read
  case wrote =>
    intro other ticket' index' found
    rw [places] at found
    by_cases same : other = call
    · rw [same, move_calls_self, sameWrote, ← same]
      exact tracked.wrote other ticket' index' found
    · rw [move_calls_of_ne s _ same]
      exact tracked.wrote other ticket' index' found
  case once => exact tracked.once
  case whole => exact tracked.whole
  case own => exact tracked.own
  case done =>
    simp only [places]
    exact tracked.done

/-- The counter, the active memtable and the expected reads do not matter. -/
theorem Tracked.of_same
    {s s' : FlushState} (tracked : s.Tracked)
    (immutables : s'.immutables = s.immutables)
    (levels : s'.levels = s.levels) (calls : s'.calls = s.calls)
    (swapped : s'.swapped = s.swapped) (written : s'.written = s.written)
    (removed : s'.removed = s.removed) : s'.Tracked := by
  obtain ⟨placed, read, wrote, once, whole, own, done⟩ := tracked
  have tickets : s'.writtenTickets = s.writtenTickets := by
    rw [writtenTickets, writtenTickets, written]
  exact ⟨placed.of_same immutables swapped fun call => by rw [calls],
    by rwa [calls, swapped], by rwa [calls, tickets], by rwa [tickets],
    by rwa [written, levels, swapped], by rwa [removed, tickets],
    by rwa [swapped, calls, tickets, removed]⟩

theorem sortByKey_eq
    {entries : List (String × Value × Bool)}
    (sorted : entries.Pairwise fun first second => first.1 < second.1) :
    sortByKey entries = entries :=
  List.Pairwise.insertionSort_eq (sorted.imp fun less => less.le)

theorem Tracked.swap
    {s : FlushState} (tracked : s.Tracked) {call : Nat}
    (idle : s.calls call = .idle) : (s.swap call).Tracked := by
  have placed := tracked.placed.swap idle
  have unplaced : (s.calls call).place = none := by rw [idle]; rfl
  revert placed
  rw [FlushState.swap]
  split
  · case isTrue nonempty =>
      intro placed
      have newTicket : s.swapped.length ∉ s.writtenTickets :=
        fun written => (tracked.ticket_lt written).false
      have kept : ∀ {ticket : Nat} {memtable : Memtable},
          s.swapped[ticket]? = some memtable →
            (s.swapped ++ [s.active])[ticket]? = some memtable := by
        intro ticket memtable found
        rw [List.getElem?_append_left
          (List.getElem?_eq_some_iff.mp found).1, found]
      refine ⟨placed, ?_, ?_, tracked.once, ?_, tracked.own, ?_⟩
      · intro other ticket index source entries place contents
        by_cases same : other = call
        · simp only [same, move_calls_self, FlushCall.contents,
            reduceCtorEq] at contents
        · simp only [move_calls_of_ne s _ same] at place contents
          obtain ⟨own, memtable, found, whole⟩ :=
            tracked.read other ticket index source entries place contents
          exact ⟨own, memtable, kept found, whole⟩
      · intro other ticket index place
        by_cases same : other = call
        · simp only [same, move_calls_self, FlushCall.place,
            Option.some.injEq, Prod.mk.injEq] at place ⊢
          rw [← place.1]
          exact ⟨False.elim, fun written => newTicket written⟩
        · simp only [move_calls_of_ne s _ same] at place ⊢
          exact tracked.wrote other ticket index place
      · intro source table member
        obtain ⟨inLevel, memtable, found, whole⟩ :=
          tracked.whole source table member
        exact ⟨inLevel, memtable, kept found, whole⟩
      · intro ticket bound
        simp only [List.length_append, List.length_singleton] at bound
        rcases Nat.lt_succ_iff_lt_or_eq.mp bound with old | new
        · rcases tracked.done ticket old with ⟨other, index, place⟩ | finished
          · left
            have different : other ≠ call := by
              rintro rfl
              rw [unplaced] at place
              exact absurd place (by simp)
            refine ⟨other, index, ?_⟩
            simp only [move_calls_of_ne s _ different]
            exact place
          · exact Or.inr finished
        · left
          refine ⟨call, s.immutables.length, ?_⟩
          simp only [move_calls_self, FlushCall.place, new]
  · intro placed
    have places : ∀ other,
        (Function.update s.calls call .returned other).place =
          (s.calls other).place :=
      place_update (by rw [unplaced]; rfl)
    refine ⟨placed, ?_, ?_, tracked.once, tracked.whole, tracked.own, ?_⟩
    · intro other ticket index source entries place contents
      by_cases same : other = call
      · simp only [same, move_calls_self, FlushCall.contents,
          reduceCtorEq] at contents
      · simp only [move_calls_of_ne s _ same] at place contents
        exact tracked.read other ticket index source entries place contents
    · intro other ticket index place
      by_cases same : other = call
      · simp only [same, move_calls_self, FlushCall.place, reduceCtorEq]
          at place
      · simp only [move_calls_of_ne s _ same] at place ⊢
        exact tracked.wrote other ticket index place
    · simp only [FlushState.move, places]
      exact tracked.done

/-- At its index a call finds its own memtable. -/
theorem Tracked.readEntries
    {s : FlushState} (tracked : s.Tracked) {call ticket index : Nat}
    (swapped : s.calls call = .swapped ticket index) :
    (s.readEntries call ticket index).Tracked := by
  have place : (s.calls call).place = some (ticket, index) := by
    rw [swapped]
    rfl
  obtain ⟨memtable, found⟩ := tracked.placed.here call ticket index place
  have known := tracked.placed.known _ (List.mem_of_getElem? found)
  have nonempty := tracked.placed.nonempty memtable
    (List.mem_of_getElem? known)
  have notEmpty : memtable.getAllEntries.isEmpty = false := by
    rw [List.isEmpty_eq_false_iff, ← List.length_pos_iff,
      memtable.getAllEntries_length]
    exact nonempty
  simp only [FlushState.readEntries, found, notEmpty, Bool.false_eq_true,
    if_false]
  refine tracked.move place rfl (by rw [swapped]; rfl) ?_
  intro source entries contents
  simp only [FlushCall.contents, Option.some.injEq, Prod.mk.injEq]
    at contents
  refine ⟨contents.1.symm, memtable, known, ?_⟩
  rw [← contents.2, sortByKey_eq memtable.getAllEntries_sorted]

theorem Tracked.drawName
    {s : FlushState} (tracked : s.Tracked) {call ticket index source : Nat}
    {entries : List (String × Value × Bool)} (existing : List SstableName)
    (naming : s.calls call = .naming ticket index source entries) :
    (s.drawName call ticket index source entries existing).Tracked := by
  have place : (s.calls call).place = some (ticket, index) := by
    rw [naming]
    rfl
  have advanced : ({ s with
      sequenceNumber := s.sequenceNumber + 1 } : FlushState).Tracked :=
    tracked.of_same rfl rfl rfl rfl rfl rfl
  simp only [FlushState.drawName]
  split
  · exact advanced
  · refine advanced.move place rfl (by simp only [naming]; rfl) ?_
    intro source' entries' contents
    refine tracked.read call ticket index source' entries' place ?_
    rw [naming]
    exact contents

theorem Tracked.stampEntry
    {s : FlushState} (tracked : s.Tracked)
    {call ticket index source sequence : Nat}
    {entry : String × Value × Bool} {rest : List (String × Value × Bool)}
    {stamped : List SSTableEntry}
    (stamping : s.calls call =
      .stamping ticket index source sequence (entry :: rest) stamped) :
    (s.stampEntry call ticket index source sequence entry rest
      stamped).Tracked := by
  have place : (s.calls call).place = some (ticket, index) := by
    rw [stamping]
    rfl
  have advanced : ({ s with
      sequenceNumber := s.sequenceNumber + 1 } : FlushState).Tracked :=
    tracked.of_same rfl rfl rfl rfl rfl rfl
  refine advanced.move place rfl (by simp only [stamping]; rfl) ?_
  intro source' entries' contents
  refine tracked.read call ticket index source' entries' place ?_
  rw [stamping]
  simpa [FlushCall.contents, SSTableEntry.item] using contents

theorem Tracked.publish
    {s : FlushState} (tracked : s.Tracked)
    {call ticket index source sequence : Nat} {stamped : List SSTableEntry}
    (info : TableInfo)
    (stamping : s.calls call =
      .stamping ticket index source sequence [] stamped) :
    (s.publish call ticket index source sequence stamped info).Tracked := by
  have place : (s.calls call).place = some (ticket, index) := by
    rw [stamping]
    rfl
  obtain ⟨own, memtable, found, whole⟩ :=
    tracked.read call ticket index source (stamped.map SSTableEntry.item)
      place (by rw [stamping]; simp [FlushCall.contents])
  subst own
  have unwritten : source ∉ s.writtenTickets := by
    rw [← tracked.wrote call source index place, stamping]
    exact id
  have tickets : (s.publish call source index source sequence stamped
      info).writtenTickets = s.writtenTickets ++ [source] := by
    simp [writtenTickets, FlushState.publish]
  have places : ∀ other,
      ((s.publish call source index source sequence stamped info).calls
        other).place = (s.calls other).place :=
    place_update place.symm
  constructor
  case placed => exact tracked.placed.of_same rfl rfl places
  case read =>
    intro other ticket' index' source' entries at' contents
    by_cases same : other = call
    · simp only [FlushState.publish, same, move_calls_self,
        FlushCall.contents, reduceCtorEq] at contents
    · simp only [FlushState.publish, move_calls_of_ne s _ same]
        at at' contents
      exact tracked.read other ticket' index' source' entries at' contents
  case wrote =>
    intro other ticket' index' at'
    rw [tickets, List.mem_append, List.mem_singleton]
    rw [places] at at'
    by_cases same : other = call
    · rw [same, place, Option.some.injEq, Prod.mk.injEq] at at'
      simp only [FlushState.publish, same, move_calls_self]
      exact ⟨fun _ => Or.inr at'.1.symm, fun _ => trivial⟩
    · simp only [FlushState.publish, move_calls_of_ne s _ same]
      rw [tracked.wrote other ticket' index' at']
      refine (or_iff_left ?_).symm
      rintro rfl
      exact same (tracked.placed.owner other call ticket' index' index at'
        place)
  case once =>
    rw [tickets, List.nodup_append]
    refine ⟨tracked.once, List.nodup_singleton _, ?_⟩
    rintro ticket' written _ (_ | _) rfl
    · exact unwritten written
    · contradiction
  case whole =>
    intro source' table member
    have inLevel : ∀ old ∈ s.levels 0, old ∈ LsmTree.publish s.levels
        (⟨.flush 0 sequence, stamped, info.fileSize, info.createdAt, true⟩ :
          SSTable) 0 := by
      intro old oldMember
      rw [publish_zero]
      exact List.mem_append_left _ oldMember
    rcases List.mem_append.mp member with old | new
    · obtain ⟨oldLevel, held⟩ := tracked.whole source' table old
      exact ⟨inLevel table oldLevel, held⟩
    · rw [List.mem_singleton, Prod.mk.injEq] at new
      obtain ⟨rfl, rfl⟩ := new
      refine ⟨?_, memtable, found, whole⟩
      simp only [FlushState.publish, publish_zero]
      exact List.mem_append_right _ (List.mem_singleton_self _)
  case own =>
    intro removal member
    obtain ⟨same, written⟩ := tracked.own removal member
    rw [tickets]
    exact ⟨same, List.mem_append_left _ written⟩
  case done =>
    intro ticket' bound
    simp only [places, tickets]
    rcases tracked.done ticket' bound with under | ⟨written, removed⟩
    · exact Or.inl under
    · exact Or.inr ⟨List.mem_append_left _ written, removed⟩

theorem Tracked.remove
    {s : FlushState} (tracked : s.Tracked) {call ticket index : Nat}
    (published : s.calls call = .published ticket index)
    (last : index + 1 = s.immutables.length) :
    (s.remove call ticket index).Tracked := by
  have place : (s.calls call).place = some (ticket, index) := by
    rw [published]
    rfl
  obtain ⟨memtable, found⟩ := tracked.placed.here call ticket index place
  have written : ticket ∈ s.writtenTickets := by
    rw [← tracked.wrote call ticket index place, published]
    trivial
  have removed : (s.remove call ticket index).removed =
      s.removed ++ [(ticket, ticket)] := by
    simp only [FlushState.remove, found]
  have tickets : (s.remove call ticket index).writtenTickets =
      s.writtenTickets := rfl
  refine ⟨tracked.placed.remove published last, ?_, ?_, tracked.once,
    tracked.whole, ?_, ?_⟩
  · intro other ticket' index' source entries at' contents
    by_cases same : other = call
    · simp only [FlushState.remove, same, move_calls_self,
        FlushCall.contents, reduceCtorEq] at contents
    · simp only [FlushState.remove, move_calls_of_ne s _ same]
        at at' contents
      exact tracked.read other ticket' index' source entries at' contents
  · intro other ticket' index' at'
    by_cases same : other = call
    · simp only [FlushState.remove, same, move_calls_self, FlushCall.place,
        reduceCtorEq] at at'
    · simp only [FlushState.remove, move_calls_of_ne s _ same] at at' ⊢
      exact tracked.wrote other ticket' index' at'
  · intro removal member
    rw [removed] at member
    rcases List.mem_append.mp member with old | new
    · exact tracked.own removal old
    · rw [List.mem_singleton.mp new]
      exact ⟨rfl, written⟩
  · intro ticket' bound
    rw [removed, tickets]
    rcases tracked.done ticket' bound with ⟨other, index', at'⟩ | finished
    · by_cases same : other = call
      · rw [same, place, Option.some.injEq, Prod.mk.injEq] at at'
        rw [← at'.1]
        exact Or.inr ⟨written, by simp⟩
      · left
        refine ⟨other, index', ?_⟩
        simp only [FlushState.remove, move_calls_of_ne s _ same]
        exact at'
    · exact Or.inr ⟨finished.1, List.mem_append_left _ finished.2⟩

theorem Tracked.step
    {jsonLen : SerdeJsonValue → Nat} {s s' : FlushState}
    {action : FlushAction} (tracked : s.Tracked)
    (last : RemovesLast s action) (taken : FlushStep jsonLen s action s') :
    s'.Tracked := by
  cases taken with
  | put key value => exact tracked.of_same rfl rfl rfl rfl rfl rfl
  | delete key => exact tracked.of_same rfl rfl rfl rfl rfl rfl
  | swap idle => exact tracked.swap idle
  | readEntries swapped => exact tracked.readEntries swapped
  | drawName existing naming => exact tracked.drawName existing naming
  | stampEntry stamping => exact tracked.stampEntry stamping
  | publish info stamping => exact tracked.publish info stamping
  | remove published =>
      exact tracked.remove published (last _ _ published)

end FlushState

open FlushState

/-- In every run in which each call removes the last memtable of the list,
every memtable is flushed once and removed by its own call. -/
theorem flushedOnce_of_removesLast
    (jsonLen : SerdeJsonValue → Nat) {active : Memtable}
    {levels : Nat → List SSTable} {sequence : Nat}
    {expected : String → Option Value} {s : FlushState}
    (run : Reaches (FlushStep jsonLen) RemovesLast
      (quiet active levels sequence expected) s) : s.FlushedOnce := by
  have tracked : s.Tracked :=
    run.invariant Tracked (quiet_tracked active levels sequence expected)
      fun _ _ _ tracked last taken => tracked.step last taken
  exact tracked.flushedOnce

/-! ## Two overlapping flushes -/

/-- Two writes, each followed by the swap of a flush of its own. -/
def twoSwapped : FlushState :=
  ((((quiet .new (fun _ => []) 1 fun _ => none).put leveledConfig.jsonLen
    "k" (.bool true)).swap 1).put leveledConfig.jsonLen "a"
      (.bool true)).swap 2

/-- A flush of a memtable with one entry, up to the removal. -/
def published (s : FlushState) (call ticket index : Nat) (key : String) :
    FlushState :=
  let sequence := s.sequenceNumber
  let entry : SSTableEntry := ⟨key, .bool true, sequence + 1, false⟩
  ((((s.readEntries call ticket index).drawName call ticket index ticket
    [entry.item] []).stampEntry call ticket index ticket sequence entry.item
      [] []).publish call ticket index ticket sequence [entry]
        smallTable)

variable {allowed : FlushState → FlushAction → Prop}

theorem twoSwapped_reached
    (free : ∀ s action, (∀ call, action ≠ .remove call) →
      allowed s action) :
    Reaches (FlushStep leveledConfig.jsonLen) allowed
      (quiet .new (fun _ => []) 1 fun _ => none) twoSwapped :=
  ((((Reaches.start _).next
    (.put "k" (.bool true)) (free _ _ (by simp)) (.put _ _)).next
    (.swap 1) (free _ _ (by simp)) (.swap rfl)).next
    (.put "a" (.bool true)) (free _ _ (by simp)) (.put _ _)).next
    (.swap 2) (free _ _ (by simp)) (.swap rfl)

def laterFirst : FlushState :=
  (published ((published twoSwapped 2 1 1 "a").remove 2 1 1) 1 0 0
    "k").remove 1 0 0

/-- The earlier flush finishes first, and the later one finds nothing. -/
def earlierFirst : FlushState :=
  ((published twoSwapped 1 0 0 "k").remove 1 0 0).readEntries 2 1 1

theorem laterFirst_reached :
    Reaches (FlushStep leveledConfig.jsonLen) RemovesLast
      (quiet .new (fun _ => []) 1 fun _ => none) laterFirst := by
  have free : ∀ s action, (∀ call, action ≠ .remove call) →
      RemovesLast s action := by
    intro s action notRemove
    cases action with
    | remove call => exact absurd rfl (notRemove call)
    | _ => trivial
  have last : ∀ {s : FlushState} {call ticket index : Nat},
      s.calls call = .published ticket index →
        index + 1 = s.immutables.length → RemovesLast s (.remove call) := by
    intro s call ticket index atEnd length ticket' index' found
    rw [atEnd, FlushCall.published.injEq] at found
    rw [← found.2, length]
  exact (((((((((twoSwapped_reached free).next
    (.readEntries 2) trivial (.readEntries rfl)).next
    (.drawName 2 []) trivial (.drawName [] rfl)).next
    (.stampEntry 2) trivial (.stampEntry rfl)).next
    (.publish 2 smallTable) trivial (.publish _ rfl)).next
    (.remove 2) (last rfl rfl) (.remove rfl)).next
    (.readEntries 1) trivial (.readEntries rfl)).next
    (.drawName 1 []) trivial (.drawName [] rfl)).next
    (.stampEntry 1) trivial (.stampEntry rfl)).next
    (.publish 1 smallTable) trivial (.publish _ rfl) |>.next
    (.remove 1) (last rfl rfl) (.remove rfl)

theorem laterFirst_flushedOnce : laterFirst.FlushedOnce :=
  flushedOnce_of_removesLast _ laterFirst_reached

/-- Both calls have returned, and the second memtable is parked for good. -/
theorem earlierFirst_not_flushedOnce :
    Reaches (FlushStep leveledConfig.jsonLen) (fun _ _ => True)
      (quiet .new (fun _ => []) 1 fun _ => none) earlierFirst ∧
      earlierFirst.AllReturned ∧ earlierFirst.immutables.length = 1 ∧
      earlierFirst.writtenTickets = [0] ∧ ¬ earlierFirst.FlushedOnce := by
  have all : earlierFirst.AllReturned := by
    intro call
    match call with
    | 0 => exact Or.inl rfl
    | 1 => exact Or.inr rfl
    | 2 => exact Or.inr rfl
    | call + 3 => exact Or.inl rfl
  refine ⟨?_, all, rfl, rfl, ?_⟩
  · exact ((((((twoSwapped_reached fun _ _ _ => trivial).next
      (.readEntries 1) trivial (.readEntries rfl)).next
      (.drawName 1 []) trivial (.drawName [] rfl)).next
      (.stampEntry 1) trivial (.stampEntry rfl)).next
      (.publish 1 smallTable) trivial (.publish _ rfl)).next
      (.remove 1) trivial (.remove rfl)).next
      (.readEntries 2) trivial (.readEntries rfl)
  · intro flushedOnce
    have empty := congrArg List.length (flushedOnce.finished all).1
    exact absurd empty (by decide)

end F4kvsLsm
