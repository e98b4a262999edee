import F4kvsLsm.Engine.LogOrder

/-!
# A truncation of the log loses nothing

`flush` holds the exclusive side of the guard while it writes the memtable and
truncates the log, so no write is between the log and the memtable then, and
no other flush is under way.  When every flush has written its own memtable,
the tables hold everything that the log may lose.
-/

namespace F4kvsLsm

open KeyedLog Transitions

namespace EngineState

/-- The record is in the log, or the memtable that it reached is in a table,
where its key has the value of this write or of a later one. -/
def Contained (s : EngineState) (number : Nat) : Prop :=
  (∃ record ∈ s.log, record.number = number ∧
    s.logged[number]? = some record.entry) ∨
  ∃ before ticket record after table version,
    s.applied = before ++ (ticket, record) :: after ∧
    record.number = number ∧ s.logged[number]? = some record.entry ∧
    (ticket, table) ∈ s.flushes.written ∧ table ∈ s.flushes.levels 0 ∧
    version ∈ table.entries ∧ record.key? = some version.key ∧
    ∃ reached ∈ (ticket, record) :: after, reached.1 = ticket ∧
      reached.2.entry.write? = some (version.key, version.value)

/-- The memtable with a ticket; the next ticket is that of the active one. -/
def memtableOf (s : EngineState) (ticket : Nat) : Option Memtable :=
  (s.flushes.swapped ++ [s.flushes.active])[ticket]?

/-- Each flush removes the last memtable of the list, and the log and the
tables keep every record. -/
def KeepsRecords (wal : WalConfig) (engine : WalEngine) (s : EngineState)
    (action : EngineAction) : Prop :=
  OnFlushes RemovesLast s action ∧ action.Recorded wal engine

/-- A call of `flush` holds the guard. -/
def Exclusive (s : EngineState) (call : Nat) : Prop :=
  s.flushers call = .flushing ∨ s.flushers call = .truncating

/-! ## Where the records are -/

/-- Every record is waiting for the memtable or in one, and in the log unless
that memtable is in a table. -/
structure Located (s : EngineState) : Prop where
  known : ∀ number record,
    (record ∈ s.log ∨ record ∈ s.appliedRecords ∨
      ∃ call rest, s.writers call = .logged rest ∧ record ∈ rest) →
      record.number = number → s.logged[number]? = some record.entry
  writes : ∀ entry ∈ s.logged, entry.write? ≠ none
  waiting : ∀ number < s.logged.length,
    (∃ call rest, s.writers call = .logged rest ∧
      ∃ record ∈ rest, record.number = number) ∨
    ∃ reached ∈ s.applied, reached.2.number = number
  covered : ∀ number < s.logged.length,
    (∃ record ∈ s.log, record.number = number) ∨
    ∃ reached ∈ s.applied, reached.2.number = number ∧
      reached.1 ∈ s.flushes.writtenTickets
  bounded : ∀ reached ∈ s.applied, reached.1 ≤ s.flushes.swapped.length
  holds : ∀ ticket memtable, s.memtableOf ticket = some memtable →
    ∀ key value, lastWrite (s.received ticket) key = some value →
      memtable.data[key]? = some value

/-- What the guard keeps apart. -/
structure Guarded (s : EngineState) : Prop where
  noWriter : ∀ call, s.Exclusive call →
    ∀ other rest, s.writers other ≠ .logged rest
  noFlush : ∀ call, s.Exclusive call →
    ∀ other ≠ call, (s.flushes.calls other).place = none
  alone : ∀ call, s.Exclusive call → ∀ other, s.Exclusive other →
    other = call
  ended : ∀ call, s.flushers call = .truncating ∨
    s.flushers call = .returned → s.flushes.calls call = .returned
  swept : ∀ call, s.Exclusive call → s.flushes.calls call ≠ .idle →
    ∀ reached ∈ s.applied, reached.1 < s.flushes.swapped.length

theorem memtableOf_active (s : EngineState) :
    s.memtableOf s.flushes.swapped.length = some s.flushes.active := by
  simp [memtableOf]

theorem memtableOf_swapped
    {s : EngineState} {ticket : Nat} {memtable : Memtable}
    (found : s.flushes.swapped[ticket]? = some memtable) :
    s.memtableOf ticket = some memtable := by
  rw [memtableOf, List.getElem?_append_left
    (List.getElem?_eq_some_iff.mp found).1, found]

theorem Located.received_eq_nil
    {s : EngineState} (located : s.Located) {ticket : Nat}
    (above : s.flushes.swapped.length < ticket) :
    s.received ticket = [] := by
  have none : s.applied.filter (fun reached => reached.1 = ticket) = [] := by
    apply List.filter_eq_nil_iff.mpr
    intro reached member
    have bound := located.bounded reached member
    rw [decide_eq_true_eq]
    omega
  rw [received, none]
  rfl

theorem lastWrite_received
    {s : EngineState} {before after : List (Nat × LogRecord)} {ticket : Nat}
    {record : LogRecord}
    (split : s.applied = before ++ (ticket, record) :: after)
    {key : String} (writes : record.key? = some key) :
    ∃ value, lastWrite (s.received ticket) key = some value ∧
      ∃ reached ∈ (ticket, record) :: after, reached.1 = ticket ∧
        reached.2.entry.write? = some (key, value) := by
  have rest : ∃ value, lastWrite (writesOf
      ((((ticket, record) :: after).filter fun reached =>
        reached.1 = ticket).map fun reached => reached.2.entry)) key =
          some value := by
    apply Option.ne_none_iff_exists'.mp
    intro nothing
    rw [lastWrite_eq_none_iff] at nothing
    rw [LogRecord.key?, Option.map_eq_some_iff] at writes
    obtain ⟨item, write, rfl⟩ := writes
    refine nothing item ?_ rfl
    rw [writesOf, List.mem_filterMap]
    exact ⟨record.entry, by simp, write⟩
  obtain ⟨value, last⟩ := rest
  refine ⟨value, ?_, ?_⟩
  · rw [received, split, List.filter_append, List.map_append, writesOf,
      List.filterMap_append, ← writesOf, ← writesOf, lastWrite_append, last,
      Option.some_or]
  · obtain ⟨front, back, whole, -⟩ := lastWrite_eq_some_iff.mp last
    have member : (key, value) ∈ writesOf
        ((((ticket, record) :: after).filter fun reached =>
          reached.1 = ticket).map fun reached => reached.2.entry) := by
      rw [whole]
      exact List.mem_append_right _ (List.mem_cons_self ..)
    rw [writesOf, List.mem_filterMap] at member
    obtain ⟨entry, inEntries, write⟩ := member
    obtain ⟨reached, inReached, rfl⟩ := List.mem_map.mp inEntries
    obtain ⟨isReached, sameTicket⟩ := List.mem_filter.mp inReached
    exact ⟨reached, isReached, by simpa using sameTicket, write⟩

/-- A record whose memtable is in a table is contained. -/
theorem Located.contained
    {s : EngineState} (located : s.Located) (tracked : s.flushes.Tracked)
    {number : Nat} (bound : number < s.logged.length) :
    s.Contained number := by
  rcases located.covered number bound with
    ⟨record, inLog, same⟩ | ⟨⟨ticket, record⟩, isApplied, same, written⟩
  · exact Or.inl ⟨record, inLog, same,
      located.known number record (Or.inl inLog) same⟩
  · right
    have logged := located.known number record
      (Or.inr (Or.inl (List.mem_map_of_mem isApplied))) same
    have writes := located.writes record.entry (List.mem_of_getElem? logged)
    obtain ⟨item, write⟩ := Option.ne_none_iff_exists'.mp writes
    have key : record.key? = some item.1 := by
      rw [LogRecord.key?, write, Option.map_some]
    obtain ⟨before, after, split⟩ := List.append_of_mem isApplied
    obtain ⟨value, last, reached, isReached, sameTicket, reachedWrite⟩ :=
      lastWrite_received split key
    obtain ⟨⟨_, table⟩, inWritten, rfl⟩ := List.mem_map.mp written
    obtain ⟨inLevel, memtable, found, whole⟩ :=
      tracked.whole _ table inWritten
    have held := located.holds _ memtable (memtableOf_swapped found)
      item.1 value last
    have entry : (item.1, value, value.isNull) ∈ memtable.getAllEntries :=
      Memtable.mem_getAllEntries.mpr ⟨held, rfl⟩
    rw [← whole] at entry
    obtain ⟨version, inTable, sameItem⟩ := List.mem_map.mp entry
    simp only [SSTableEntry.item, Prod.mk.injEq] at sameItem
    obtain ⟨sameKey, sameValue, -⟩ := sameItem
    refine ⟨before, _, record, after, table, version, split, same, logged,
      inWritten, inLevel, inTable, ?_, reached, isReached, sameTicket, ?_⟩
    · rw [key, sameKey]
    · rw [reachedWrite, sameKey, sameValue]

/-! ## Steps of writers -/

variable {jsonLen : SerdeJsonValue → Nat}

theorem opened_located (levels : Nat → List SSTable) (sequence : Nat)
    (expected : String → Option Value) :
    (opened levels sequence expected).Located ∧
      (opened levels sequence expected).Guarded := by
  constructor
  · constructor <;>
      simp [opened, appliedRecords, received, writesOf, FlushState.quiet]
  · constructor <;> simp [opened, Exclusive]

theorem Located.writeLog
    {s : EngineState} (located : s.Located) {call : Nat} {write : WalCall}
    (idle : s.writers call = .idle) : (s.writeLog call write).Located := by
  have kept : ∀ {number : Nat} {entry : WALEntry},
      s.logged[number]? = some entry →
        (s.logged ++ write.entries)[number]? = some entry := by
    intro number entry found
    rw [List.getElem?_append_left (List.getElem?_eq_some_iff.mp found).1,
      found]
  have new : ∀ record ∈ s.newRecords write,
      (s.logged ++ write.entries)[record.number]? = some record.entry := by
    intro record member
    rw [newRecords, List.mem_mapIdx] at member
    obtain ⟨index, bound, rfl⟩ := member
    simp only
    rw [List.getElem?_append_right (Nat.le_add_right _ _),
      Nat.add_sub_cancel_left, List.getElem?_eq_getElem bound]
  have old := @writeLog_waiting s call write idle
  have fresh : ∀ number, s.logged.length ≤ number →
      number < (s.logged ++ write.entries).length →
        ∃ record ∈ s.newRecords write, record.number = number := by
    intro number low high
    rw [List.length_append] at high
    refine ⟨⟨number, write.entries[number - s.logged.length]⟩, ?_, rfl⟩
    rw [newRecords, List.mem_mapIdx]
    refine ⟨number - s.logged.length, by omega, ?_⟩
    rw [LogRecord.mk.injEq]
    exact ⟨by omega, rfl⟩
  constructor
  case known =>
    intro number record place same
    simp only [EngineState.writeLog] at place ⊢
    rcases place with inLog | isApplied | ⟨other, rest, phase, member⟩
    · rcases List.mem_append.mp inLog with before | isNew
      · exact kept (located.known number record (Or.inl before) same)
      · rw [← same]
        exact new record isNew
    · exact kept (located.known number record (Or.inr (Or.inl isApplied)) same)
    · by_cases isCall : other = call
      · rw [isCall, Function.update_self, WriterCall.logged.injEq] at phase
        rw [← phase] at member
        rw [← same]
        exact new record member
      · rw [Function.update_of_ne isCall] at phase
        exact kept (located.known number record
          (Or.inr (Or.inr ⟨other, rest, phase, member⟩)) same)
  case writes =>
    intro entry member
    rcases List.mem_append.mp member with before | isNew
    · exact located.writes entry before
    · exact (WalCall.entries_spec write).1 entry isNew
  case waiting =>
    intro number bound
    rcases Nat.lt_or_ge number s.logged.length with before | isNew
    · apply (located.waiting number before).imp_left
      rintro ⟨other, rest, phase, here⟩
      exact ⟨other, rest, old other rest phase, here⟩
    · left
      refine ⟨call, s.newRecords write, ?_, fresh number isNew bound⟩
      simp only [EngineState.writeLog, Function.update_self]
  case covered =>
    intro number bound
    simp only [EngineState.writeLog]
    rcases Nat.lt_or_ge number s.logged.length with before | isNew
    · apply (located.covered number before).imp_left
      rintro ⟨record, inLog, same⟩
      exact ⟨record, List.mem_append_left _ inLog, same⟩
    · left
      obtain ⟨record, member, same⟩ := fresh number isNew bound
      exact ⟨record, List.mem_append_right _ member, same⟩
  case bounded => exact located.bounded
  case holds => exact located.holds

/-- The memtables after a write to the active one. -/
theorem memtableOf_apply
    {s : EngineState} {call : Nat} {record : LogRecord}
    {rest : List LogRecord} {ticket : Nat} {memtable : Memtable}
    (found : (s.apply jsonLen call record rest).memtableOf ticket =
      some memtable) :
    (ticket < s.flushes.swapped.length ∧
      s.memtableOf ticket = some memtable) ∨
    ticket = s.flushes.swapped.length ∧
      memtable = (s.flushes.applyEntry jsonLen record.entry).active := by
  have swapped : (s.flushes.applyEntry jsonLen record.entry).swapped =
      s.flushes.swapped := by
    cases record.entry <;> rfl
  simp only [memtableOf, EngineState.apply, swapped] at found ⊢
  rcases Nat.lt_or_ge ticket s.flushes.swapped.length with old | new
  · rw [List.getElem?_append_left old] at found ⊢
    exact Or.inl ⟨old, found⟩
  · rw [List.getElem?_append_right new, List.getElem?_singleton] at found
    split at found
    · exact Or.inr ⟨by omega, (Option.some.inj found).symm⟩
    · exact absurd found (by simp)

theorem active_applyEntry
    (s : FlushState) (entry : WALEntry) {written : List (String × Value)}
    (holds : ∀ key value, lastWrite written key = some value →
      s.active.data[key]? = some value)
    {key : String} {value : Value}
    (last : lastWrite (written ++ writesOf [entry]) key = some value) :
    (s.applyEntry jsonLen entry).active.data[key]? = some value := by
  rw [lastWrite_append] at last
  cases entry with
  | put other held timestamp =>
      simp only [writesOf, List.filterMap_cons, List.filterMap_nil,
        WALEntry.write?, lastWrite_singleton] at last
      simp only [FlushState.applyEntry, FlushState.put, Memtable.put_get]
      split at last
      · case isTrue same =>
          rw [if_pos same]
          exact last
      · case isFalse different =>
          rw [if_neg different]
          exact holds key value last
  | delete other timestamp =>
      simp only [writesOf, List.filterMap_cons, List.filterMap_nil,
        WALEntry.write?, lastWrite_singleton] at last
      simp only [FlushState.applyEntry, FlushState.delete,
        Memtable.delete_get]
      split at last
      · case isTrue same =>
          rw [if_pos same]
          exact last
      · case isFalse different =>
          rw [if_neg different]
          exact holds key value last
  | flush memtableId timestamp => exact holds key value last
  | checkpoint timestamp => exact holds key value last

theorem Located.apply
    {s : EngineState} (located : s.Located) {call : Nat} {record : LogRecord}
    {rest : List LogRecord}
    (pending : s.writers call = .logged (record :: rest)) :
    (s.apply jsonLen call record rest).Located := by
  have swapped : (s.flushes.applyEntry jsonLen record.entry).swapped =
      s.flushes.swapped := by
    cases record.entry <;> rfl
  have tickets : (s.flushes.applyEntry jsonLen record.entry).writtenTickets =
      s.flushes.writtenTickets := by
    cases record.entry <;> rfl
  have records : (s.apply jsonLen call record rest).appliedRecords =
      s.appliedRecords ++ [record] := by
    simp [appliedRecords, EngineState.apply]
  constructor
  case known =>
    intro number other place same
    apply located.known number other ?_ same
    rcases place with inLog | isApplied | ⟨holder, rest', phase, member⟩
    · exact Or.inl inLog
    · rw [records] at isApplied
      rcases List.mem_append.mp isApplied with old | new
      · exact Or.inr (Or.inl old)
      · rw [List.mem_singleton.mp new]
        exact Or.inr (Or.inr ⟨call, _, pending, List.mem_cons_self ..⟩)
    · right
      right
      by_cases isCall : holder = call
      · simp only [EngineState.apply, isCall, Function.update_self,
          WriterCall.logged.injEq] at phase
        rw [← phase] at member
        exact ⟨call, _, pending, List.mem_cons_of_mem _ member⟩
      · simp only [EngineState.apply, Function.update_of_ne isCall] at phase
        exact ⟨holder, rest', phase, member⟩
  case writes => exact located.writes
  case waiting =>
    intro number bound
    simp only [EngineState.apply, List.mem_append, List.mem_singleton]
    rcases located.waiting number bound with
      ⟨holder, rest', phase, other, member, same⟩ | ⟨reached, done, same⟩
    · by_cases isCall : holder = call
      · rw [isCall, pending, WriterCall.logged.injEq] at phase
        rw [← phase] at member
        rcases List.mem_cons.mp member with now | later
        · right
          refine ⟨_, Or.inr rfl, ?_⟩
          rw [← now, same]
        · left
          exact ⟨call, rest, Function.update_self .., other, later, same⟩
      · left
        refine ⟨holder, rest', ?_, other, member, same⟩
        rw [Function.update_of_ne isCall]
        exact phase
    · exact Or.inr ⟨reached, Or.inl done, same⟩
  case covered =>
    intro number bound
    simp only [EngineState.apply, tickets]
    apply (located.covered number bound).imp_right
    rintro ⟨reached, done, same, written⟩
    exact ⟨reached, List.mem_append_left _ done, same, written⟩
  case bounded =>
    intro reached member
    simp only [EngineState.apply, swapped] at member ⊢
    rcases List.mem_append.mp member with old | new
    · exact located.bounded reached old
    · rw [List.mem_singleton.mp new]
  case holds =>
    intro ticket memtable found key value last
    have received : (s.apply jsonLen call record rest).received ticket =
        s.received ticket ++
          (if s.flushes.swapped.length = ticket then writesOf [record.entry]
            else []) := by
      simp only [EngineState.received, EngineState.apply, List.filter_append,
        List.map_append, writesOf, List.filterMap_append]
      by_cases here : s.flushes.swapped.length = ticket <;> simp [here]
    rw [received] at last
    rcases memtableOf_apply found with ⟨old, found⟩ | ⟨rfl, rfl⟩
    · rw [if_neg (by omega), List.append_nil] at last
      exact located.holds ticket memtable found key value last
    · rw [if_pos rfl] at last
      exact active_applyEntry s.flushes record.entry
        (located.holds _ _ (memtableOf_active s)) last

theorem Located.release
    {s : EngineState} (located : s.Located) {call : Nat}
    (pending : s.writers call = .logged []) : (s.release call).Located := by
  constructor
  case known =>
    intro number record place same
    apply located.known number record ?_ same
    apply place.imp_right
    intro place
    apply place.imp_right
    rintro ⟨other, rest, phase, member⟩
    by_cases isCall : other = call
    · simp only [EngineState.release, isCall, Function.update_self,
        reduceCtorEq] at phase
    · simp only [EngineState.release, Function.update_of_ne isCall] at phase
      exact ⟨other, rest, phase, member⟩
  case writes => exact located.writes
  case waiting =>
    intro number bound
    apply (located.waiting number bound).imp_left
    rintro ⟨other, rest, phase, record, member, same⟩
    have different : other ≠ call := by
      intro isCall
      rw [isCall, pending, WriterCall.logged.injEq] at phase
      rw [← phase] at member
      exact absurd member List.not_mem_nil
    refine ⟨other, rest, ?_, record, member, same⟩
    simp only [EngineState.release, Function.update_of_ne different]
    exact phase
  case covered => exact located.covered
  case bounded => exact located.bounded
  case holds => exact located.holds

/-! ## Steps of flushes -/

/-- A swap moves the active memtable to the end of the list, and the new one
has received nothing. -/
theorem Located.flush
    {s : EngineState} (located : s.Located) {call : Nat}
    {action : FlushAction} {flushes : FlushState}
    (frame : FlushFrame call action s.flushes flushes) :
    EngineState.Located { s with flushes := flushes } := by
  have grown : s.flushes.swapped.length ≤ flushes.swapped.length := by
    rcases frame.memtables with ⟨-, same, -⟩ | ⟨-, -, -, new | ⟨-, same⟩⟩
    · rw [same]
    · rw [new, List.length_append]
      omega
    · rw [same]
  constructor
  case known => exact located.known
  case writes => exact located.writes
  case waiting => exact located.waiting
  case covered =>
    intro number bound
    apply (located.covered number bound).imp_right
    rintro ⟨reached, done, same, written⟩
    refine ⟨reached, done, same, ?_⟩
    obtain ⟨entry, member, sameTicket⟩ := List.mem_map.mp written
    rw [← sameTicket]
    exact List.mem_map_of_mem (frame.written entry member)
  case bounded =>
    exact fun reached member => (located.bounded reached member).trans grown
  case holds =>
    intro ticket memtable found key value last
    have received : EngineState.received { s with flushes := flushes } ticket =
        s.received ticket := rfl
    rw [received] at last
    simp only [memtableOf] at found
    rcases frame.memtables with ⟨active, swapped, -⟩ |
      ⟨-, -, active, new | ⟨empty, swapped⟩⟩
    · rw [active, swapped] at found
      exact located.holds ticket memtable found key value last
    · rw [new, active] at found
      rcases Nat.lt_or_ge ticket
        (s.flushes.swapped ++ [s.flushes.active]).length with old | above
      · rw [List.getElem?_append_left old] at found
        exact located.holds ticket memtable found key value last
      · rw [List.length_append, List.length_singleton] at above
        rw [located.received_eq_nil (by omega)] at last
        exact absurd last (by simp)
    · rw [swapped, active] at found
      rcases Nat.lt_or_ge ticket s.flushes.swapped.length with old | above
      · rw [List.getElem?_append_left old] at found
        exact located.holds ticket memtable (memtableOf_swapped found) key
          value last
      · rcases Nat.lt_or_eq_of_le above with more | here
        · rw [located.received_eq_nil more] at last
          exact absurd last (by simp)
        · subst here
          have held := located.holds _ _ (memtableOf_active s) key value last
          rw [Memtable.get_of_entryCount empty] at held
          exact absurd held (by simp)

/-- While a memtable holds no record, nothing that was applied is in it. -/
theorem Located.lt_of_empty
    {s : EngineState} (located : s.Located)
    (empty : ¬ s.flushes.active.entryCount > 0) {reached : Nat × LogRecord}
    (member : reached ∈ s.applied) :
    reached.1 < s.flushes.swapped.length := by
  apply Nat.lt_of_le_of_ne (located.bounded reached member)
  intro same
  obtain ⟨ticket, record⟩ := reached
  have logged := located.known record.number record
    (Or.inr (Or.inl (List.mem_map_of_mem member))) rfl
  obtain ⟨item, write⟩ := Option.ne_none_iff_exists'.mp
    (located.writes record.entry (List.mem_of_getElem? logged))
  obtain ⟨before, after, split⟩ := List.append_of_mem member
  obtain ⟨value, last, -⟩ := lastWrite_received split
    (by rw [LogRecord.key?, write, Option.map_some])
  simp only at same
  subst same
  have held := located.holds _ _ (memtableOf_active s) _ value last
  rw [Memtable.get_of_entryCount empty] at held
  exact absurd held (by simp)

/-! ## The guard -/

/-- Nobody holds the exclusive side. -/
theorem Guarded.of_free
    {s s' : EngineState} (guarded : s.Guarded)
    (free : ∀ call, ¬ s.Exclusive call)
    (flushers : s'.flushers = s.flushers)
    (calls : s'.flushes.calls = s.flushes.calls) : s'.Guarded := by
  have free' : ∀ call, ¬ s'.Exclusive call := by
    intro call held
    rw [Exclusive, flushers] at held
    exact free call held
  refine ⟨fun call held => absurd held (free' call),
    fun call held => absurd held (free' call),
    fun call held => absurd held (free' call), ?_,
    fun call held => absurd held (free' call)⟩
  rw [flushers, calls]
  exact guarded.ended

theorem Guarded.release
    {s : EngineState} (guarded : s.Guarded) (call : Nat) :
    (s.release call).Guarded := by
  refine ⟨?_, guarded.noFlush, guarded.alone, guarded.ended, guarded.swept⟩
  intro holder held other rest phase
  apply guarded.noWriter holder held other rest
  by_cases same : other = call
  · simp only [EngineState.release, same, Function.update_self,
      reduceCtorEq] at phase
  · simp only [EngineState.release, Function.update_of_ne same] at phase
    exact phase

theorem place_of_ended
    {s : EngineState} {call : Nat}
    (returned : s.flushes.calls call = .returned) :
    (s.flushes.calls call).place = none := by
  rw [returned]
  rfl

/-- While a call of `flush` holds the guard, it is the only one that takes
steps of a flush. -/
theorem Guarded.flush
    {s : EngineState} (guarded : s.Guarded) (located : s.Located)
    {call : Nat} {action : FlushAction} {flushes : FlushState}
    (guard : s.flushers call = .idle → action = .swap call →
      ¬ s.ExclusiveHeld)
    (frame : FlushFrame call action s.flushes flushes) :
    EngineState.Guarded { s with flushes := flushes } := by
  have moving : ¬ s.flushes.calls call = .returned := by
    intro returned
    rcases frame.memtables with ⟨-, -, place⟩ | ⟨-, idle, -⟩
    · exact place (place_of_ended returned)
    · rw [idle] at returned
      exact absurd returned (by simp)
  have own : ∀ holder, s.Exclusive holder → call = holder := by
    intro holder held
    by_contra different
    have unplaced := guarded.noFlush holder held call different
    rcases frame.memtables with ⟨-, -, place⟩ | ⟨isSwap, -, -⟩
    · exact place unplaced
    · cases phase : s.flushers call with
      | idle => exact guard phase isSwap ⟨holder, held⟩
      | flushing =>
          exact different (guarded.alone holder held call (Or.inl phase))
      | truncating => exact moving (guarded.ended call (Or.inl phase))
      | returned => exact moving (guarded.ended call (Or.inr phase))
  refine ⟨guarded.noWriter, ?_, guarded.alone, ?_, ?_⟩
  · intro holder held other different
    have isCall := own holder held
    subst isCall
    simp only [frame.others other different]
    exact guarded.noFlush call held other different
  · intro other phase
    have different : other ≠ call := by
      intro same
      subst same
      exact moving (guarded.ended other phase)
    simp only [frame.others other different]
    exact guarded.ended other phase
  · intro holder held _ reached member
    have isCall := own holder held
    subst isCall
    simp only
    rcases frame.memtables with ⟨-, same, place⟩ |
      ⟨-, -, -, new | ⟨empty, same⟩⟩
    · rw [same]
      apply guarded.swept call held ?_ reached member
      intro idle
      rw [idle] at place
      exact place rfl
    · rw [new, List.length_append, List.length_singleton]
      exact Nat.lt_succ_of_le (located.bounded reached member)
    · rw [same]
      exact located.lt_of_empty empty member

theorem Guarded.beginFlush
    {s : EngineState} (guarded : s.Guarded) {call : Nat}
    (unused : s.flushes.calls call = .idle) (noShared : ¬ s.SharedHeld)
    (noExclusive : ¬ s.ExclusiveHeld) :
    (s.setFlusher call .flushing).Guarded := by
  have phases : ∀ other, other ≠ call →
      (s.setFlusher call .flushing).flushers other = s.flushers other :=
    fun other different => Function.update_of_ne different ..
  have holders : ∀ other, (s.setFlusher call .flushing).Exclusive other →
      other = call := by
    intro other held
    by_contra different
    rw [Exclusive, phases other different] at held
    exact noExclusive ⟨other, held⟩
  refine ⟨?_, ?_, ?_, ?_, ?_⟩
  · intro _ _ other rest phase
    exact noShared ⟨other, Or.inl ⟨rest, phase⟩⟩
  · intro holder held other different
    rw [holders holder held] at different
    by_contra place
    cases phase : s.flushers other with
    | idle => exact noShared ⟨other, Or.inr ⟨phase, place⟩⟩
    | flushing => exact noExclusive ⟨other, Or.inl phase⟩
    | truncating => exact noExclusive ⟨other, Or.inr phase⟩
    | returned =>
        exact place (place_of_ended (guarded.ended other (Or.inr phase)))
  · intro holder held other otherHeld
    rw [holders holder held, holders other otherHeld]
  · intro other phase
    have different : other ≠ call := by
      intro same
      simp only [setFlusher, same, Function.update_self, reduceCtorEq,
        or_self] at phase
    rw [phases other different] at phase
    exact guarded.ended other phase
  · intro holder held begun
    rw [holders holder held] at begun
    exact absurd unused begun

theorem Guarded.beginTruncate
    {s : EngineState} (guarded : s.Guarded) {call : Nat}
    (flushing : s.flushers call = .flushing)
    (returned : s.flushes.calls call = .returned) :
    (s.setFlusher call .truncating).Guarded := by
  have same : ∀ other, (s.setFlusher call .truncating).Exclusive other ↔
      s.Exclusive other := by
    intro other
    by_cases isCall : other = call
    · simp [Exclusive, setFlusher, isCall, flushing]
    · simp [Exclusive, setFlusher, Function.update_of_ne isCall]
  refine ⟨fun holder held => guarded.noWriter holder ((same holder).mp held),
    fun holder held => guarded.noFlush holder ((same holder).mp held),
    fun holder held other otherHeld => guarded.alone holder
      ((same holder).mp held) other ((same other).mp otherHeld), ?_,
    fun holder held => guarded.swept holder ((same holder).mp held)⟩
  intro other phase
  by_cases isCall : other = call
  · rw [isCall]
    exact returned
  · simp only [setFlusher, Function.update_of_ne isCall] at phase
    exact guarded.ended other phase

theorem Guarded.endFlush
    {s : EngineState} (guarded : s.Guarded) {call : Nat}
    (truncating : s.flushers call = .truncating) :
    (s.setFlusher call .returned).Guarded := by
  have before : ∀ other, (s.setFlusher call .returned).Exclusive other →
      s.Exclusive other := by
    intro other held
    by_cases isCall : other = call
    · simp [Exclusive, setFlusher, isCall] at held
    · simpa [Exclusive, setFlusher, Function.update_of_ne isCall] using held
  refine ⟨fun holder held => guarded.noWriter holder (before holder held),
    fun holder held => guarded.noFlush holder (before holder held),
    fun holder held other otherHeld => guarded.alone holder
      (before holder held) other (before other otherHeld), ?_,
    fun holder held => guarded.swept holder (before holder held)⟩
  intro other phase
  by_cases isCall : other = call
  · rw [isCall]
    exact guarded.ended call (Or.inl truncating)
  · simp only [setFlusher, Function.update_of_ne isCall] at phase
    exact guarded.ended other phase

/-- When the truncation begins, every record is in a table. -/
theorem Guarded.all_written
    {s : EngineState} (guarded : s.Guarded) (located : s.Located)
    (tracked : s.flushes.Tracked) {call : Nat}
    (truncating : s.flushers call = .truncating) {number : Nat}
    (bound : number < s.logged.length) :
    ∃ reached ∈ s.applied, reached.2.number = number ∧
      reached.1 ∈ s.flushes.writtenTickets := by
  have held : s.Exclusive call := Or.inr truncating
  have returned := guarded.ended call (Or.inl truncating)
  rcases located.waiting number bound with
    ⟨other, rest, phase, -⟩ | ⟨reached, done, same⟩
  · exact absurd phase (guarded.noWriter call held other rest)
  · have inSwapped := guarded.swept call held (by rw [returned]; simp)
      reached done
    rcases tracked.done reached.1 inSwapped with
      ⟨other, index, place⟩ | ⟨written, -⟩
    · have unplaced : (s.flushes.calls other).place = none := by
        by_cases isCall : other = call
        · rw [isCall]
          exact place_of_ended returned
        · exact guarded.noFlush call held other isCall
      rw [unplaced] at place
      exact absurd place (by simp)
    · exact ⟨reached, done, same, written⟩

/-- A removal of log files takes no record that is not in a table. -/
theorem Located.removeFile
    {s : EngineState} (located : s.Located) (guarded : s.Guarded)
    (tracked : s.flushes.Tracked) {call : Nat}
    (truncating : s.flushers call = .truncating)
    (inFile : LogRecord → Bool) : (s.removeFile inFile).Located := by
  refine ⟨?_, located.writes, located.waiting, ?_, located.bounded,
    located.holds⟩
  · intro number record place same
    apply located.known number record ?_ same
    exact place.imp_left fun inLog => (List.mem_filter.mp inLog).1
  · intro number bound
    exact Or.inr (guarded.all_written located tracked truncating bound)

theorem step_kept
    {s s' : EngineState} {action : EngineAction}
    (kept : s.Located ∧ s.Guarded ∧ s.flushes.Tracked)
    (meets : OnFlushes RemovesLast s action)
    (taken : EngineStep jsonLen s action s') :
    s'.Located ∧ s'.Guarded ∧ s'.flushes.Tracked := by
  obtain ⟨located, guarded, tracked⟩ := kept
  cases taken with
  | log call write idle free =>
      exact ⟨located.writeLog idle,
        guarded.of_free (fun holder held => free ⟨holder, held⟩) rfl rfl,
        tracked⟩
  | @apply call record rest pending =>
      have calls : (s.flushes.applyEntry jsonLen record.entry).calls =
          s.flushes.calls := by
        cases record.entry <;> rfl
      refine ⟨located.apply pending, guarded.of_free
        (fun holder held => guarded.noWriter holder held call _ pending) rfl
        calls, ?_⟩
      simp only [EngineState.apply]
      cases record.entry with
      | put key value timestamp =>
          exact tracked.of_same rfl rfl rfl rfl rfl rfl
      | delete key timestamp =>
          exact tracked.of_same rfl rfl rfl rfl rfl rfl
      | flush memtableId timestamp => exact tracked
      | checkpoint timestamp => exact tracked
  | release call pending =>
      exact ⟨located.release pending, guarded.release call, tracked⟩
  | flush call own guard taken =>
      have frame := taken.frame own
      exact ⟨located.flush frame, guarded.flush located guard frame,
        tracked.step meets taken⟩
  | beginFlush call idle unused noShared noExclusive =>
      obtain ⟨known, writes, waiting, covered, bounded, holds⟩ := located
      exact ⟨⟨known, writes, waiting, covered, bounded, holds⟩,
        guarded.beginFlush unused noShared noExclusive, tracked⟩
  | beginTruncate call flushing returned =>
      obtain ⟨known, writes, waiting, covered, bounded, holds⟩ := located
      exact ⟨⟨known, writes, waiting, covered, bounded, holds⟩,
        guarded.beginTruncate flushing returned, tracked⟩
  | removeFile call inFile truncating =>
      refine ⟨located.removeFile guarded tracked truncating inFile, ?_,
        tracked⟩
      obtain ⟨noWriter, noFlush, alone, ended, swept⟩ := guarded
      exact ⟨noWriter, noFlush, alone, ended, swept⟩
  | endFlush call truncating empty =>
      obtain ⟨known, writes, waiting, covered, bounded, holds⟩ := located
      exact ⟨⟨known, writes, waiting, covered, bounded, holds⟩,
        guarded.endFlush truncating, tracked⟩

end EngineState

open EngineState FlushState

/-- In every run in which each flush removes the last memtable of the list, and
the log keeps what a write logs, every record is in the log or in a table. -/
theorem flush_loses_no_write
    (jsonLen : SerdeJsonValue → Nat) (wal : WalConfig) (engine : WalEngine)
    {levels : Nat → List SSTable} {sequence : Nat}
    {expected : String → Option Value} {s : EngineState}
    (run : Reaches (EngineStep jsonLen) (KeepsRecords wal engine)
      (opened levels sequence expected) s)
    (number : Nat) (bound : number < s.logged.length) :
    s.Contained number := by
  have opening := opened_located levels sequence expected
  obtain ⟨located, guarded, tracked⟩ := run.invariant
    (fun s => s.Located ∧ s.Guarded ∧ s.flushes.Tracked)
    ⟨opening.1, opening.2, quiet_tracked .new levels sequence expected⟩
    fun _ _ _ kept meets taken => step_kept kept meets.1 taken
  exact located.contained tracked bound

/-! ## A truncation after two overlapping flushes -/

def EngineState.withFlushes (s : EngineState) (flushes : FlushState) :
    EngineState :=
  { s with flushes := flushes }

/-- A put has been acknowledged, and `flush` has written its memtable and
removed the log. -/
def flushedEngine : EngineState :=
  let logged := ((freshEngine.writeLog 1 putCall).apply leveledConfig.jsonLen
    1 putRecord []).release 1
  let flushing := logged.setFlusher 2 .flushing
  let flushed := flushing.withFlushes
    ((published (flushing.flushes.swap 2) 2 0 0 "k").remove 2 0 0)
  ((flushed.setFlusher 2 .truncating).removeFile fun _ => true).setFlusher 2
    .returned

theorem flushedEngine_reached :
    Reaches (EngineStep leveledConfig.jsonLen)
      (KeepsRecords WalHandle.smallConfig .segment) freshEngine
      flushedEngine := by
  have free : ¬ freshEngine.ExclusiveHeld := freshEngine_free _ fun _ => rfl
  have logged : Reaches (EngineStep leveledConfig.jsonLen)
      (KeepsRecords WalHandle.smallConfig .segment) freshEngine
      (((freshEngine.writeLog 1 putCall).apply leveledConfig.jsonLen 1
        putRecord []).release 1) :=
    (((Reaches.start freshEngine).next (.log 1 putCall)
      ⟨trivial, putCall_recorded⟩ (.log 1 putCall rfl free)).next
      (.apply 1) ⟨trivial, trivial⟩ (.apply 1 rfl)).next
      (.release 1) ⟨trivial, trivial⟩ (.release 1 rfl)
  have quietWriters : ¬ (((freshEngine.writeLog 1 putCall).apply
      leveledConfig.jsonLen 1 putRecord []).release 1).SharedHeld := by
    intro held
    obtain ⟨call, ⟨rest, phase⟩ | ⟨-, place⟩⟩ := held
    · match call with
      | 0 => exact absurd phase (by intro same; cases same)
      | 1 => exact absurd phase (by intro same; cases same)
      | call + 2 => exact absurd phase (by intro same; cases same)
    · exact place rfl
  have swapped := (logged.next (.beginFlush 2) ⟨trivial, trivial⟩
    (.beginFlush 2 rfl rfl quietWriters free)).next
    (.flush 2 (.swap 2)) ⟨trivial, trivial⟩
    (.flush 2 rfl (fun idle => absurd idle (by decide)) (.swap rfl))
  have written := ((((swapped.next
    (.flush 2 (.readEntries 2)) ⟨trivial, trivial⟩
    (.flush 2 rfl (fun _ swap => absurd swap (by simp))
      (.readEntries rfl))).next
    (.flush 2 (.drawName 2 [])) ⟨trivial, trivial⟩
    (.flush 2 rfl (fun _ swap => absurd swap (by simp))
      (.drawName [] rfl))).next
    (.flush 2 (.stampEntry 2)) ⟨trivial, trivial⟩
    (.flush 2 rfl (fun _ swap => absurd swap (by simp))
      (.stampEntry rfl))).next
    (.flush 2 (.publish 2 smallTable)) ⟨trivial, trivial⟩
    (.flush 2 rfl (fun _ swap => absurd swap (by simp))
      (.publish _ rfl))).next
    (.flush 2 (.remove 2)) ⟨(orderly_remove rfl rfl).1, trivial⟩
    (.flush 2 rfl (fun _ swap => absurd swap (by simp)) (.remove rfl))
  exact ((written.next
    (.beginTruncate 2) ⟨trivial, trivial⟩ (.beginTruncate 2 rfl rfl)).next
    (.removeFile 2 fun _ => true) ⟨trivial, trivial⟩ (.removeFile 2 _ rfl)).next
    (.endFlush 2) ⟨trivial, trivial⟩ (.endFlush 2 rfl rfl)

theorem flushedEngine_contained : flushedEngine.Contained 0 :=
  flush_loses_no_write leveledConfig.jsonLen WalHandle.smallConfig .segment
    flushedEngine_reached 0 (by decide)

/-- A write of `a` that is logged at second 6. -/
def secondPut : WalCall := .writeOperation "a" (.bool true) 6

def secondRecord : LogRecord := ⟨1, .put "a" (.bool true) 6⟩

/-- Two acknowledged writes, each swapped out by a flush of its own. -/
def twoSwappedEngine : EngineState :=
  let first := ((freshEngine.writeLog 1 putCall).apply leveledConfig.jsonLen
    1 putRecord []).release 1
  let swapped := first.withFlushes (first.flushes.swap 1)
  let second := ((swapped.writeLog 2 secondPut).apply leveledConfig.jsonLen 2
    secondRecord []).release 2
  second.withFlushes (second.flushes.swap 2)

/-- The first flush has finished, the second one has found nothing, and
`flush` has removed the log. -/
def truncatedEngine : EngineState :=
  let finished := twoSwappedEngine.withFlushes
    (((published twoSwappedEngine.flushes 1 0 0 "k").remove 1 0
      0).readEntries 2 1 1)
  let flushing := finished.setFlusher 3 .flushing
  ((flushing.withFlushes (flushing.flushes.swap 3)).setFlusher 3
    .truncating).removeFile fun _ => true

theorem twoSwappedEngine_reached :
    Reaches (EngineStep leveledConfig.jsonLen) (fun _ _ => True)
      freshEngine twoSwappedEngine := by
  have free : ¬ freshEngine.ExclusiveHeld := freshEngine_free _ fun _ => rfl
  exact (((((((Reaches.start freshEngine).next
    (.log 1 putCall) trivial (.log 1 putCall rfl free)).next
    (.apply 1) trivial (.apply 1 rfl)).next
    (.release 1) trivial (.release 1 rfl)).next
    (.flush 1 (.swap 1)) trivial
      (.flush 1 rfl (fun _ _ => free) (.swap rfl))).next
    (.log 2 secondPut) trivial (.log 2 secondPut rfl free)).next
    (.apply 2) trivial (.apply 2 rfl)).next
    (.release 2) trivial (.release 2 rfl) |>.next
    (.flush 2 (.swap 2)) trivial
      (.flush 2 rfl (fun _ _ => free) (.swap rfl))

theorem truncatedEngine_reached :
    Reaches (EngineStep leveledConfig.jsonLen) (fun _ _ => True)
      freshEngine truncatedEngine := by
  have free : ¬ freshEngine.ExclusiveHeld := freshEngine_free _ fun _ => rfl
  have finished := (((((twoSwappedEngine_reached.next
    (.flush 1 (.readEntries 1)) trivial
    (.flush 1 rfl (fun _ swap => absurd swap (by simp))
      (.readEntries rfl))).next
    (.flush 1 (.drawName 1 [])) trivial
    (.flush 1 rfl (fun _ swap => absurd swap (by simp))
      (.drawName [] rfl))).next
    (.flush 1 (.stampEntry 1)) trivial
    (.flush 1 rfl (fun _ swap => absurd swap (by simp))
      (.stampEntry rfl))).next
    (.flush 1 (.publish 1 smallTable)) trivial
    (.flush 1 rfl (fun _ swap => absurd swap (by simp))
      (.publish _ rfl))).next
    (.flush 1 (.remove 1)) trivial
    (.flush 1 rfl (fun _ swap => absurd swap (by simp))
      (.remove rfl))).next
    (.flush 2 (.readEntries 2)) trivial
    (.flush 2 rfl (fun _ swap => absurd swap (by simp)) (.readEntries rfl))
  refine (((finished.next
    (.beginFlush 3) trivial (.beginFlush 3 rfl rfl ?_ free)).next
    (.flush 3 (.swap 3)) trivial
    (.flush 3 rfl (fun idle => absurd idle (by decide)) (.swap rfl))).next
    (.beginTruncate 3) trivial (.beginTruncate 3 rfl rfl)).next
    (.removeFile 3 fun _ => true) trivial (.removeFile 3 _ rfl)
  intro held
  obtain ⟨call, ⟨rest, phase⟩ | ⟨-, place⟩⟩ := held
  · match call with
    | 0 => exact absurd phase (by intro same; cases same)
    | 1 => exact absurd phase (by intro same; cases same)
    | 2 => exact absurd phase (by intro same; cases same)
    | call + 3 => exact absurd phase (by intro same; cases same)
  · match call with
    | 0 => exact place rfl
    | 1 => exact place rfl
    | 2 => exact place rfl
    | call + 3 => exact place rfl

/-- The second write was acknowledged and is nowhere on disk. -/
theorem truncation_loses_write :
    Reaches (EngineStep leveledConfig.jsonLen) (fun _ _ => True)
      freshEngine truncatedEngine ∧
      truncatedEngine.logged[1]? = some (.put "a" (.bool true) 6) ∧
      truncatedEngine.writers 2 = .applied ∧
      ¬ truncatedEngine.Contained 1 := by
  refine ⟨truncatedEngine_reached, rfl, rfl, ?_⟩
  intro contained
  rcases contained with ⟨record, inLog, -⟩ |
    ⟨before, ticket, record, after, table, version, split, isSecond, -,
      inWritten, -⟩
  · exact absurd inLog List.not_mem_nil
  · have applied : truncatedEngine.applied =
        [(0, putRecord), (1, secondRecord)] := rfl
    have tickets : truncatedEngine.flushes.writtenTickets = [0] := rfl
    have isZero : ticket ∈ truncatedEngine.flushes.writtenTickets :=
      List.mem_map_of_mem inWritten
    rw [tickets, List.mem_singleton] at isZero
    have member : (ticket, record) ∈ truncatedEngine.applied := by
      rw [split]
      exact List.mem_append_right _ (List.mem_cons_self ..)
    rw [applied, isZero] at member
    simp only [List.mem_cons, Prod.mk.injEq, Nat.zero_ne_one, false_and,
      List.not_mem_nil, or_self, or_false, true_and] at member
    rw [member] at isSecond
    exact absurd isSecond (by decide)

end F4kvsLsm
