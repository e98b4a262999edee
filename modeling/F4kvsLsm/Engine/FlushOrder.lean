import F4kvsLsm.Engine.FlushOnce

/-!
# Timestamps as write order

A flush draws the timestamp of an entry when it serializes its memtable.  The
timestamps of a key follow the order of its writes as long as no flush draws a
timestamp for a key before all memtables that were swapped out earlier and
hold the key have drawn theirs.
-/

namespace F4kvsLsm

open Transitions Versions

/-- The entries that a call has stamped, with the ticket of their memtable. -/
def FlushCall.stamped : FlushCall → Option (Nat × List SSTableEntry)
  | .stamping _ _ source _ _ stamped => some (source, stamped)
  | _ => none

/-- The records of a write can be read back from a table. -/
def FlushAction.ReadsBack : FlushAction → Prop
  | .put key value => F4kvsLsm.ReadsBack key value
  | .delete key => F4kvsLsm.ReadsBack key .null
  | _ => True

namespace FlushState

/-- An entry of a memtable that has its timestamp. -/
def Stamped (s : FlushState) (ticket : Nat) (entry : SSTableEntry) : Prop :=
  (∃ table, (ticket, table) ∈ s.written ∧ entry ∈ table.entries) ∨
    ∃ call entries, (s.calls call).stamped = some (ticket, entries) ∧
      entry ∈ entries

/-- The tree that readers see. -/
def tree (s : FlushState) : LsmTree :=
  ⟨s.active, s.immutables.map (·.memtable), s.levels, s.sequenceNumber⟩

/-- An entry gets its timestamp after the entries of its key in all parked
memtables that were swapped out earlier. -/
def StampsInOrder (s : FlushState) : FlushAction → Prop
  | .stampEntry call => ∀ ticket index source sequence entry rest stamped,
      s.calls call =
        .stamping ticket index source sequence (entry :: rest) stamped →
      ∀ earlier ∈ s.immutables, earlier.ticket < source →
        earlier.memtable.data[entry.1]? ≠ none →
          ∃ version, s.Stamped earlier.ticket version ∧ version.key = entry.1
  | _ => True

/-- Flushes that overlap without a mistake, of records that can be read. -/
def Orderly (s : FlushState) (action : FlushAction) : Prop :=
  RemovesLast s action ∧ s.StampsInOrder action ∧ action.ReadsBack

/-- Of two versions in two tables the later write has the larger timestamp;
the tables that were there at the start hold older versions than all. -/
def LaterIsLarger (start : Nat → List SSTable) (s : FlushState) : Prop :=
  ∀ ticket table, (ticket, table) ∈ s.written → ∀ entry ∈ table.entries,
    (∀ old ∈ allEntries (start 0 ++ start 1),
      old.timestamp < entry.timestamp) ∧
    ∀ later table', (later, table') ∈ s.written → ticket < later →
      ∀ newer ∈ table'.entries, entry.key = newer.key →
        entry.timestamp < newer.timestamp

/-! ## Timestamps -/

/-- What is known of the timestamps that were drawn from `first` on. -/
structure Numbered (first : Nat) (s : FlushState) : Prop where
  tracked : s.Tracked
  begun : first ≤ s.sequenceNumber
  drawn : ∀ ticket entry, s.Stamped ticket entry →
    first ≤ entry.timestamp ∧ entry.timestamp < s.sequenceNumber
  ordered : ∀ ticket entry later newer, s.Stamped ticket entry →
    s.Stamped later newer → ticket < later → entry.key = newer.key →
      entry.timestamp < newer.timestamp
  complete : ∀ later newer, s.Stamped later newer → ∀ ticket < later,
    ∀ memtable, s.swapped[ticket]? = some memtable →
      memtable.data[newer.key]? ≠ none →
        ∃ version, s.Stamped ticket version ∧ version.key = newer.key

theorem Tracked.of_stamped
    {s : FlushState} (tracked : s.Tracked) {ticket : Nat}
    {entry : SSTableEntry} (stamped : s.Stamped ticket entry) :
    ∃ memtable, s.swapped[ticket]? = some memtable ∧
      memtable.data[entry.key]? = some entry.value ∧
      entry.deleted = entry.value.isNull := by
  have known : ∃ memtable, s.swapped[ticket]? = some memtable ∧
      entry.item ∈ memtable.getAllEntries := by
    rcases stamped with ⟨table, member, inTable⟩ | ⟨call, entries, found, here⟩
    · obtain ⟨-, memtable, found, whole⟩ := tracked.whole ticket table member
      refine ⟨memtable, found, ?_⟩
      rw [← whole]
      exact List.mem_map_of_mem inTable
    · cases phase : s.calls call with
      | stamping ticket' index source sequence rest stamped =>
          simp only [phase, FlushCall.stamped, Option.some.injEq,
            Prod.mk.injEq] at found
          obtain ⟨rfl, rfl⟩ := found
          obtain ⟨rfl, memtable, held, whole⟩ :=
            tracked.read call ticket' index source _ (by rw [phase]; rfl)
              (by rw [phase]; rfl)
          refine ⟨memtable, held, ?_⟩
          rw [← whole]
          exact List.mem_append_left _ (List.mem_map_of_mem here)
      | _ => simp [phase, FlushCall.stamped] at found
  obtain ⟨memtable, found, member⟩ := known
  obtain ⟨value, deleted⟩ := Memtable.mem_getAllEntries.mp member
  exact ⟨memtable, found, value, deleted⟩

theorem Numbered.of_same
    {first : Nat} {s s' : FlushState} (numbered : s.Numbered first)
    (tracked : s'.Tracked)
    (same : ∀ ticket entry, s'.Stamped ticket entry ↔ s.Stamped ticket entry)
    (older : ∀ ticket < s.swapped.length,
      s'.swapped[ticket]? = s.swapped[ticket]?)
    (grown : s.sequenceNumber ≤ s'.sequenceNumber) :
    s'.Numbered first := by
  refine ⟨tracked, numbered.begun.trans grown, ?_, ?_, ?_⟩
  · intro ticket entry stamped
    obtain ⟨low, high⟩ := numbered.drawn ticket entry
      ((same ticket entry).mp stamped)
    exact ⟨low, high.trans_le grown⟩
  · simpa only [same] using numbered.ordered
  · intro later newer stamped ticket less memtable found holds
    simp only [same] at stamped ⊢
    obtain ⟨_, known, -⟩ := numbered.tracked.of_stamped stamped
    have bound := (List.getElem?_eq_some_iff.mp known).1
    rw [older ticket (less.trans bound)] at found
    exact numbered.complete later newer stamped ticket less memtable found
      holds

/-- A phase without stamped entries takes the place of another one. -/
theorem stamped_update
    {s s' : FlushState} {call : Nat} {phase : FlushCall}
    (calls : s'.calls = Function.update s.calls call phase)
    (written : s'.written = s.written)
    (before : (s.calls call).stamped = none ∨
      ∃ source, (s.calls call).stamped = some (source, []))
    (after : phase.stamped = none ∨
      ∃ source, phase.stamped = some (source, []))
    (ticket : Nat) (entry : SSTableEntry) :
    s'.Stamped ticket entry ↔ s.Stamped ticket entry := by
  rw [Stamped, Stamped, written]
  refine or_congr_right ⟨?_, ?_⟩
  · rintro ⟨other, entries, found, member⟩
    by_cases same : other = call
    · rw [calls, same, Function.update_self] at found
      rcases after with none | ⟨source, empty⟩
      · rw [none] at found
        exact absurd found (by simp)
      · rw [empty, Option.some.injEq, Prod.mk.injEq] at found
        rw [← found.2] at member
        exact absurd member List.not_mem_nil
    · rw [calls, Function.update_of_ne same] at found
      exact ⟨other, entries, found, member⟩
  · rintro ⟨other, entries, found, member⟩
    by_cases same : other = call
    · rw [same] at found
      rcases before with none | ⟨source, empty⟩
      · rw [none] at found
        exact absurd found (by simp)
      · rw [empty, Option.some.injEq, Prod.mk.injEq] at found
        rw [← found.2] at member
        exact absurd member List.not_mem_nil
    · refine ⟨other, entries, ?_, member⟩
      rw [calls, Function.update_of_ne same]
      exact found

/-- All earlier memtables that hold the key of the next entry have stamped
it. -/
theorem Numbered.stamped_earlier
    {first : Nat} {s : FlushState} (numbered : s.Numbered first)
    {call ticket index source sequence : Nat}
    {entry : String × Value × Bool} {rest : List (String × Value × Bool)}
    {stamped : List SSTableEntry} (inOrder : s.StampsInOrder (.stampEntry call))
    (stamping : s.calls call =
      .stamping ticket index source sequence (entry :: rest) stamped)
    {earlier : Nat} (less : earlier < source) {memtable : Memtable}
    (found : s.swapped[earlier]? = some memtable)
    (holds : memtable.data[entry.1]? ≠ none) :
    ∃ version, s.Stamped earlier version ∧ version.key = entry.1 := by
  have tracked := numbered.tracked
  rcases tracked.done earlier (List.getElem?_eq_some_iff.mp found).1 with
    ⟨other, index', place⟩ | ⟨written, -⟩
  · obtain ⟨parked, atIndex⟩ := tracked.placed.here other earlier index' place
    have member := List.mem_of_getElem? atIndex
    have same := tracked.placed.known _ member
    rw [found, Option.some.injEq] at same
    subst same
    exact inOrder ticket index source sequence entry rest stamped stamping _
      member less holds
  · obtain ⟨⟨_, table⟩, member, rfl⟩ := List.mem_map.mp written
    obtain ⟨-, held, known, whole⟩ := tracked.whole _ table member
    rw [found, Option.some.injEq] at known
    subst known
    obtain ⟨value, present⟩ := Option.ne_none_iff_exists'.mp holds
    have item : (entry.1, value, value.isNull) ∈ memtable.getAllEntries :=
      Memtable.mem_getAllEntries.mpr ⟨present, rfl⟩
    rw [← whole] at item
    obtain ⟨version, inTable, sameItem⟩ := List.mem_map.mp item
    rw [SSTableEntry.item, Prod.mk.injEq] at sameItem
    exact ⟨version, Or.inl ⟨table, member, inTable⟩, sameItem.1⟩

theorem Tracked.next_unstamped
    {s : FlushState} (tracked : s.Tracked)
    {call ticket index source sequence : Nat}
    {entry : String × Value × Bool} {rest : List (String × Value × Bool)}
    {stamped : List SSTableEntry}
    (stamping : s.calls call =
      .stamping ticket index source sequence (entry :: rest) stamped)
    {version : SSTableEntry} (isStamped : s.Stamped source version) :
    version.key ≠ entry.1 := by
  have place : (s.calls call).place = some (ticket, index) := by
    rw [stamping]
    rfl
  obtain ⟨rfl, memtable, found, whole⟩ :=
    tracked.read call ticket index source _ place (by rw [stamping]; rfl)
  rcases isStamped with ⟨table, member, -⟩ | ⟨other, entries, phase, member⟩
  · have written : source ∈ s.writtenTickets := List.mem_map_of_mem member
    rw [← tracked.wrote call source index place, stamping] at written
    exact written.elim
  · have same : other = call := by
      cases otherPhase : s.calls other with
      | stamping ticket' index' source' sequence' rest' stamped' =>
          rw [otherPhase, FlushCall.stamped, Option.some.injEq,
            Prod.mk.injEq] at phase
          have otherPlace : (s.calls other).place = some (ticket', index') := by
            rw [otherPhase]
            rfl
          have own := (tracked.read other ticket' index' source' _ otherPlace
            (by rw [otherPhase]; rfl)).1
          rw [← own, phase.1] at otherPlace
          exact tracked.placed.owner other call source index' index otherPlace
            place
      | _ =>
          rw [otherPhase] at phase
          exact absurd phase (by simp [FlushCall.stamped])
    rw [same, stamping, FlushCall.stamped, Option.some.injEq,
      Prod.mk.injEq] at phase
    rw [← phase.2] at member
    have sorted := memtable.getAllEntries_sorted
    rw [← whole, List.pairwise_append] at sorted
    exact (sorted.2.2 version.item (List.mem_map_of_mem member) entry
      (List.mem_cons_self ..)).ne

theorem Numbered.stampEntry
    {first : Nat} {s : FlushState} (numbered : s.Numbered first)
    {call ticket index source sequence : Nat}
    {entry : String × Value × Bool} {rest : List (String × Value × Bool)}
    {stamped : List SSTableEntry} (inOrder : s.StampsInOrder (.stampEntry call))
    (stamping : s.calls call =
      .stamping ticket index source sequence (entry :: rest) stamped) :
    (s.stampEntry call ticket index source sequence entry rest
      stamped).Numbered first := by
  let version : SSTableEntry :=
    ⟨entry.1, entry.2.1, s.sequenceNumber, entry.2.2⟩
  have stamps : ∀ other older,
      (s.stampEntry call ticket index source sequence entry rest
        stamped).Stamped other older ↔
        s.Stamped other older ∨ other = source ∧ older = version := by
    intro other older
    rw [Stamped, Stamped, or_assoc]
    refine or_congr_right ⟨?_, ?_⟩
    · rintro ⟨call', entries, found, member⟩
      by_cases same : call' = call
      · simp only [FlushState.stampEntry, same, move_calls_self,
          FlushCall.stamped, Option.some.injEq, Prod.mk.injEq] at found
        obtain ⟨rfl, rfl⟩ := found
        rcases List.mem_append.mp member with old | new
        · exact Or.inl ⟨call, stamped, by rw [stamping]; rfl, old⟩
        · exact Or.inr ⟨rfl, List.mem_singleton.mp new⟩
      · simp only [FlushState.stampEntry, move_calls_of_ne s _ same] at found
        exact Or.inl ⟨call', entries, found, member⟩
    · rintro (⟨call', entries, found, member⟩ | ⟨rfl, rfl⟩)
      · by_cases same : call' = call
        · rw [same, stamping, FlushCall.stamped, Option.some.injEq,
            Prod.mk.injEq] at found
          obtain ⟨rfl, rfl⟩ := found
          refine ⟨call, stamped ++ [version], ?_,
            List.mem_append_left _ member⟩
          simp only [FlushState.stampEntry, move_calls_self,
            FlushCall.stamped, version]
        · refine ⟨call', entries, ?_, member⟩
          simp only [FlushState.stampEntry, move_calls_of_ne s _ same]
          exact found
      · refine ⟨call, stamped ++ [version], ?_, by simp⟩
        simp only [FlushState.stampEntry, move_calls_self, FlushCall.stamped,
          version]
  have place : (s.calls call).place = some (ticket, index) := by
    rw [stamping]
    rfl
  obtain ⟨own, memtable, found, whole⟩ :=
    numbered.tracked.read call ticket index source _ place
      (by rw [stamping]; rfl)
  subst own
  have item : entry ∈ memtable.getAllEntries := by
    rw [← whole]
    exact List.mem_append_right _ (List.mem_cons_self ..)
  have present : memtable.data[entry.1]? = some entry.2.1 :=
    (Memtable.mem_getAllEntries.mp item).1
  refine ⟨numbered.tracked.stampEntry stamping,
    numbered.begun.trans (Nat.le_succ _), ?_, ?_, ?_⟩
  · intro other older isStamped
    rcases (stamps other older).mp isStamped with old | ⟨-, rfl⟩
    · obtain ⟨low, high⟩ := numbered.drawn other older old
      exact ⟨low, high.trans (Nat.lt_succ_self _)⟩
    · exact ⟨numbered.begun, Nat.lt_succ_self _⟩
  · intro other older later newer olderStamped newerStamped less sameKey
    rcases (stamps other older).mp olderStamped with old | ⟨rfl, rfl⟩ <;>
      rcases (stamps later newer).mp newerStamped with new | ⟨rfl, rfl⟩
    · exact numbered.ordered other older later newer old new less sameKey
    · exact (numbered.drawn other older old).2
    · obtain ⟨earlier, isStamped, earlierKey⟩ :=
        numbered.complete later newer new other less memtable found (by
          rw [← sameKey, present]
          exact Option.some_ne_none _)
      exact absurd (earlierKey.trans sameKey.symm)
        (numbered.tracked.next_unstamped stamping isStamped)
    · exact absurd less (lt_irrefl _)
  · intro later newer newerStamped other less held heldFound heldHolds
    rcases (stamps later newer).mp newerStamped with new | ⟨rfl, rfl⟩
    · obtain ⟨earlier, isStamped, sameKey⟩ := numbered.complete later newer
        new other less held heldFound heldHolds
      exact ⟨earlier, (stamps other earlier).mpr (Or.inl isStamped), sameKey⟩
    · obtain ⟨earlier, isStamped, sameKey⟩ := numbered.stamped_earlier
        inOrder stamping less heldFound heldHolds
      exact ⟨earlier, (stamps other earlier).mpr (Or.inl isStamped), sameKey⟩

theorem stamped_publish
    {s : FlushState} {call ticket index source sequence : Nat}
    {stamped : List SSTableEntry} (info : TableInfo)
    (stamping : s.calls call =
      .stamping ticket index source sequence [] stamped)
    (other : Nat) (entry : SSTableEntry) :
    (s.publish call ticket index source sequence stamped info).Stamped other
      entry ↔ s.Stamped other entry := by
  constructor
  · rintro (⟨table, member, inTable⟩ | ⟨call', entries, found, member⟩)
    · rcases List.mem_append.mp member with old | new
      · exact Or.inl ⟨table, old, inTable⟩
      · rw [List.mem_singleton, Prod.mk.injEq] at new
        obtain ⟨rfl, rfl⟩ := new
        exact Or.inr ⟨call, stamped, by rw [stamping]; rfl, inTable⟩
    · by_cases same : call' = call
      · simp only [FlushState.publish, same, move_calls_self,
          FlushCall.stamped, reduceCtorEq] at found
      · simp only [FlushState.publish, move_calls_of_ne s _ same] at found
        exact Or.inr ⟨call', entries, found, member⟩
  · rintro (⟨table, member, inTable⟩ | ⟨call', entries, found, member⟩)
    · exact Or.inl ⟨table, List.mem_append_left _ member, inTable⟩
    · by_cases same : call' = call
      · rw [same, stamping, FlushCall.stamped, Option.some.injEq,
          Prod.mk.injEq] at found
        obtain ⟨rfl, rfl⟩ := found
        exact Or.inl ⟨_, List.mem_append_right _ (List.mem_singleton_self _),
          member⟩
      · refine Or.inr ⟨call', entries, ?_, member⟩
        simp only [FlushState.publish, move_calls_of_ne s _ same]
        exact found

theorem Numbered.step
    {jsonLen : SerdeJsonValue → Nat} {first : Nat} {s s' : FlushState}
    {action : FlushAction} (numbered : s.Numbered first)
    (orderly : s.Orderly action) (taken : FlushStep jsonLen s action s') :
    s'.Numbered first := by
  have tracked := numbered.tracked.step orderly.1 taken
  have known : ∀ ticket < s.swapped.length,
      s.swapped[ticket]? = s.swapped[ticket]? := fun _ _ => rfl
  cases taken with
  | put key value =>
      exact numbered.of_same tracked (fun _ _ => Iff.rfl) known le_rfl
  | delete key =>
      exact numbered.of_same tracked (fun _ _ => Iff.rfl) known le_rfl
  | @swap call idle =>
      have before : (s.calls call).stamped = none := by rw [idle]; rfl
      revert tracked
      rw [FlushState.swap]
      split
      · intro tracked
        refine numbered.of_same tracked
          (stamped_update rfl rfl (Or.inl before) (Or.inl rfl)) ?_ le_rfl
        intro ticket bound
        exact List.getElem?_append_left bound
      · intro tracked
        exact numbered.of_same tracked
          (stamped_update rfl rfl (Or.inl before) (Or.inl rfl)) known le_rfl
  | @readEntries call ticket index swapped =>
      have before : (s.calls call).stamped = none := by rw [swapped]; rfl
      have moved : ∀ phase : FlushCall, phase.stamped = none →
          (s.move call phase).Tracked → (s.move call phase).Numbered first :=
        fun phase after tracked => numbered.of_same tracked
          (stamped_update rfl rfl (Or.inl before) (Or.inl after)) known le_rfl
      revert tracked
      unfold FlushState.readEntries
      split
      · dsimp only
        split <;> exact moved _ rfl
      · exact moved _ rfl
  | @drawName call ticket index source entries existing naming =>
      have before : (s.calls call).stamped = none := by rw [naming]; rfl
      revert tracked
      simp only [FlushState.drawName]
      split
      · intro tracked
        exact numbered.of_same tracked (fun _ _ => Iff.rfl) known
          (Nat.le_succ _)
      · intro tracked
        exact numbered.of_same tracked
          (stamped_update rfl rfl (Or.inl before) (Or.inr ⟨source, rfl⟩))
          known (Nat.le_succ _)
  | stampEntry stamping => exact numbered.stampEntry orderly.2.1 stamping
  | publish info stamping =>
      exact numbered.of_same tracked (stamped_publish info stamping) known
        le_rfl
  | @remove call ticket index published =>
      have before : (s.calls call).stamped = none := by rw [published]; rfl
      exact numbered.of_same tracked
        (stamped_update rfl rfl (Or.inl before) (Or.inl rfl)) known le_rfl

/-! ## Tables and values -/

/-- The tables of the start and the written ones, and the values that the
memtables have held, the latest first. -/
structure Recorded (start : Nat → List SSTable) (base : String → Option Value)
    (s : FlushState) : Prop where
  level0 : s.levels 0 = start 0 ++ s.written.map (·.2)
  others : ∀ level, s.levels (level + 1) = start (level + 1)
  sized : ∀ source table, (source, table) ∈ s.written → 0 < table.fileSize
  values : ∀ key, s.expected key =
    ((memtableValue (s.active :: s.swapped.reverse) key).map
      Value.visible).getD (base key)

theorem Recorded.put
    {start : Nat → List SSTable} {base : String → Option Value}
    {s : FlushState} (recorded : s.Recorded start base)
    (jsonLen : SerdeJsonValue → Nat) (key : String) (value : Value) :
    (s.put jsonLen key value).Recorded start base := by
  refine ⟨recorded.level0, recorded.others, recorded.sized, fun other => ?_⟩
  simp only [FlushState.put, memtableValue_cons, Memtable.put_get]
  by_cases same : key = other
  · subst same
    rw [Function.update_self, if_pos rfl]
    rfl
  · rw [Function.update_of_ne (Ne.symm same), if_neg same,
      recorded.values other, memtableValue_cons]

theorem Recorded.delete
    {start : Nat → List SSTable} {base : String → Option Value}
    {s : FlushState} (recorded : s.Recorded start base)
    (jsonLen : SerdeJsonValue → Nat) (key : String) :
    (s.delete jsonLen key).Recorded start base := by
  refine ⟨recorded.level0, recorded.others, recorded.sized, fun other => ?_⟩
  have null := (recorded.put jsonLen key .null).values other
  simp only [FlushState.put, memtableValue_cons, Memtable.put_get] at null
  simp only [FlushState.delete, memtableValue_cons, Memtable.delete_get]
  exact null

theorem Recorded.step
    {jsonLen : SerdeJsonValue → Nat} {start : Nat → List SSTable}
    {base : String → Option Value} {s s' : FlushState}
    {action : FlushAction} (recorded : s.Recorded start base)
    (taken : FlushStep jsonLen s action s') : s'.Recorded start base := by
  obtain ⟨level0, others, sized, values⟩ := recorded
  cases taken with
  | put key value =>
      exact Recorded.put ⟨level0, others, sized, values⟩ jsonLen key value
  | delete key =>
      exact Recorded.delete ⟨level0, others, sized, values⟩ jsonLen key
  | @swap call idle =>
      rw [FlushState.swap]
      split
      · refine ⟨level0, others, sized, fun key => ?_⟩
        simp only [List.reverse_append, List.reverse_singleton,
          List.singleton_append, memtableValue_cons, Memtable.new_get,
          Option.none_or]
        rw [← memtableValue_cons]
        exact values key
      · case isFalse empty =>
          refine ⟨level0, others, sized, fun key => ?_⟩
          have nothing := Memtable.get_of_entryCount empty key
          have before := values key
          simp only [memtableValue_cons, nothing, Option.none_or] at before
          simp only [memtableValue_cons, Memtable.new_get, Option.none_or]
          exact before
  | readEntries swapped =>
      unfold FlushState.readEntries
      split
      · dsimp only
        split <;> exact ⟨level0, others, sized, values⟩
      · exact ⟨level0, others, sized, values⟩
  | drawName existing naming =>
      simp only [FlushState.drawName]
      split <;> exact ⟨level0, others, sized, values⟩
  | stampEntry stamping => exact ⟨level0, others, sized, values⟩
  | publish info stamping =>
      refine ⟨?_, ?_, ?_, values⟩
      · simp only [FlushState.publish, publish_zero, level0, List.map_append,
          List.append_assoc, List.map_cons, List.map_nil]
      · intro level
        simp only [FlushState.publish, publish_succ]
        exact others level
      · intro source table member
        rcases List.mem_append.mp member with old | new
        · exact sized source table old
        · rw [List.mem_singleton, Prod.mk.injEq] at new
          rw [new.2]
          exact info.sized
  | remove published => exact ⟨level0, others, sized, values⟩

theorem memtableValue_reverse_eq_some
    {memtables : List Memtable} {key : String} {value : Value}
    (found : memtableValue memtables.reverse key = some value) :
    ∃ (ticket : Nat) (memtable : Memtable),
      memtables[ticket]? = some memtable ∧
      memtable.data[key]? = some value ∧
      ∀ (later : Nat) (memtable' : Memtable),
        memtables[later]? = some memtable' →
        memtable'.data[key]? ≠ none → later ≤ ticket := by
  induction memtables using List.reverseRecOn with
  | nil => exact absurd found (by simp [memtableValue])
  | append_singleton front last inductionHypothesis =>
      rw [List.reverse_append, List.reverse_singleton, List.singleton_append,
        memtableValue_cons] at found
      cases here : last.data[key]? with
      | some held =>
          rw [here, Option.some_or, Option.some.injEq] at found
          subst found
          refine ⟨front.length, last, by simp, here, ?_⟩
          intro later memtable' inside _
          have bound := (List.getElem?_eq_some_iff.mp inside).1
          rw [List.length_append, List.length_singleton] at bound
          omega
      | none =>
          rw [here, Option.none_or] at found
          obtain ⟨ticket, memtable, inFront, held, latest⟩ :=
            inductionHypothesis found
          have bound := (List.getElem?_eq_some_iff.mp inFront).1
          refine ⟨ticket, memtable, ?_, held, ?_⟩
          · rw [List.getElem?_append_left bound, inFront]
          · intro later memtable' inside holds
            rcases Nat.lt_or_ge later front.length with old | new
            · rw [List.getElem?_append_left old] at inside
              exact latest later memtable' inside holds
            · rw [List.getElem?_append_right new, List.getElem?_singleton]
                at inside
              split at inside
              · rw [← Option.some.inj inside, here] at holds
                exact absurd rfl holds
              · exact absurd inside (by simp)

/-! ## Reading when all flushes are done -/

section

variable {config : CompactionConfig} {active : Memtable}
variable {levels : Nat → List SSTable} {sequence : Nat} {s : FlushState}
variable {base : String → Option Value}

theorem laterIsLarger_of_numbered
    (invariant : LsmTree.Invariant config ⟨active, [], levels, sequence⟩)
    (numbered : s.Numbered sequence) : LaterIsLarger levels s := by
  intro ticket table member entry inTable
  have stamped : s.Stamped ticket entry := Or.inl ⟨table, member, inTable⟩
  constructor
  · intro old oldMember
    exact (invariant.stamped old oldMember).trans_le
      (numbered.drawn ticket entry stamped).1
  · intro later table' member' less newer inTable' sameKey
    exact numbered.ordered ticket entry later newer stamped
      (Or.inl ⟨table', member', inTable'⟩) less sameKey

theorem written_wellFormed
    (tracked : s.Tracked) (recorded : s.Recorded levels base)
    {source : Nat} {table : SSTable} (member : (source, table) ∈ s.written) :
    table.WellFormed := by
  obtain ⟨-, memtable, found, whole⟩ := tracked.whole source table member
  have nonempty := tracked.placed.nonempty memtable
    (List.mem_of_getElem? found)
  refine ⟨recorded.sized source table member, ?_, ?_⟩
  · intro empty
    have length := congrArg List.length whole
    rw [empty, List.map_nil, List.length_nil,
      memtable.getAllEntries_length] at length
    omega
  · have sorted := memtable.getAllEntries_sorted
    rw [← whole, List.pairwise_map] at sorted
    exact sorted

theorem level0_wellFormed
    (invariant : LsmTree.Invariant config ⟨active, [], levels, sequence⟩)
    (tracked : s.Tracked) (recorded : s.Recorded levels base) :
    ∀ table ∈ s.levels 0, table.WellFormed := by
  intro table member
  rw [recorded.level0] at member
  rcases List.mem_append.mp member with old | new
  · exact invariant.level0 table old
  · obtain ⟨⟨source, _⟩, written, rfl⟩ := List.mem_map.mp new
    exact written_wellFormed tracked recorded written

theorem mem_level0
    (recorded : s.Recorded levels base) {entry : SSTableEntry} :
    entry ∈ allEntries (s.levels 0) ↔ entry ∈ allEntries (levels 0) ∨
      ∃ source table, (source, table) ∈ s.written ∧ entry ∈ table.entries := by
  rw [recorded.level0, allEntries_append, List.mem_append]
  refine or_congr_right ?_
  rw [mem_allEntries]
  constructor
  · rintro ⟨table, member, inTable⟩
    obtain ⟨⟨source, _⟩, written, rfl⟩ := List.mem_map.mp member
    exact ⟨source, _, written, inTable⟩
  · rintro ⟨source, table, written, inTable⟩
    exact ⟨table, List.mem_map_of_mem written, inTable⟩

theorem Tracked.table_unique
    (tracked : s.Tracked) {source : Nat} {table table' : SSTable}
    (member : (source, table) ∈ s.written)
    (member' : (source, table') ∈ s.written) : table = table' := by
  have same := List.inj_on_of_nodup_map (f := fun entry : Nat × SSTable =>
    entry.1) (l := s.written) tracked.once member member' rfl
  exact congrArg Prod.snd same

theorem level0_distinct
    (invariant : LsmTree.Invariant config ⟨active, [], levels, sequence⟩)
    (numbered : s.Numbered sequence) (recorded : s.Recorded levels base) :
    DistinctVersions (allEntries (s.levels 0)) := by
  have tracked := numbered.tracked
  have larger := laterIsLarger_of_numbered invariant numbered
  have old : ∀ entry ∈ allEntries (levels 0),
      entry ∈ allEntries (levels 0 ++ levels 1) := by
    intro entry member
    rw [allEntries_append]
    exact List.mem_append_left _ member
  intro first firstMember second secondMember sameKey sameStamp
  rcases (mem_level0 recorded).mp firstMember with
    before | ⟨source, table, written, inTable⟩ <;>
    rcases (mem_level0 recorded).mp secondMember with
      before' | ⟨source', table', written', inTable'⟩
  · exact invariant.distinct first before second before' sameKey sameStamp
  · have less := (larger source' table' written' second inTable').1 first
      (old first before)
    omega
  · have less := (larger source table written first inTable).1 second
      (old second before')
    omega
  · rcases lt_trichotomy source source' with less | same | less
    · have stamps := (larger source table written first inTable).2 source'
        table' written' less second inTable' sameKey
      omega
    · subst same
      rw [tracked.table_unique written' written] at inTable'
      exact (written_wellFormed tracked recorded written).eq_of_key_eq
        inTable inTable' sameKey
    · have stamps := (larger source' table' written' second inTable').2
        source table written less first inTable sameKey.symm
      omega

/-- The table of the latest memtable with a key holds its newest version. -/
theorem latest_written
    (invariant : LsmTree.Invariant config ⟨active, [], levels, sequence⟩)
    (numbered : s.Numbered sequence) (recorded : s.Recorded levels base)
    (finished : ∀ ticket < s.swapped.length, ticket ∈ s.writtenTickets)
    {key : String} {value : Value}
    (found : memtableValue s.swapped.reverse key = some value) :
    ∃ entry, latest (allEntries (s.levels 0)) key = some entry ∧
      entry.visible = value.visible := by
  have tracked := numbered.tracked
  have larger := laterIsLarger_of_numbered invariant numbered
  obtain ⟨ticket, memtable, atTicket, held, latestTicket⟩ :=
    memtableValue_reverse_eq_some found
  obtain ⟨⟨_, table⟩, written, rfl⟩ := List.mem_map.mp
    (finished ticket (List.getElem?_eq_some_iff.mp atTicket).1)
  obtain ⟨-, same, known, whole⟩ := tracked.whole _ table written
  rw [atTicket, Option.some.injEq] at known
  subst known
  have item : (key, value, value.isNull) ∈ memtable.getAllEntries :=
    Memtable.mem_getAllEntries.mpr ⟨held, rfl⟩
  rw [← whole] at item
  obtain ⟨entry, inTable, sameItem⟩ := List.mem_map.mp item
  simp only [SSTableEntry.item, Prod.mk.injEq] at sameItem
  obtain ⟨rfl, rfl, deleted⟩ := sameItem
  refine ⟨entry, ?_, ?_⟩
  · refine (latest_eq_some_iff
      (level0_distinct invariant numbered recorded)).mpr
        ⟨⟨(mem_level0 recorded).mpr (Or.inr ⟨_, table, written, inTable⟩),
          rfl⟩, ?_⟩
    intro other otherMember sameKey
    rcases (mem_level0 recorded).mp otherMember with
      before | ⟨source, table', written', inTable'⟩
    · refine ((larger _ table written entry inTable).1 other ?_).le
      rw [allEntries_append]
      exact List.mem_append_left _ before
    · obtain ⟨memtable', found', holds', -⟩ :=
        tracked.of_stamped (Or.inl ⟨table', written', inTable'⟩)
      have notLater := latestTicket source memtable' found' (by
        rw [← sameKey, holds']
        exact Option.some_ne_none _)
      rcases Nat.lt_or_eq_of_le notLater with less | same
      · exact ((larger source table' written' other inTable').2 _ table
          written less entry inTable sameKey).le
      · subst same
        rw [tracked.table_unique written' written] at inTable'
        rw [(written_wellFormed tracked recorded written).eq_of_key_eq
          inTable' inTable sameKey]
  · rw [SSTableEntry.visible, Value.visible, deleted]

/-- A key that no flushed memtable holds is read as before. -/
theorem unwritten_getFromSstables
    (invariant : LsmTree.Invariant config ⟨active, [], levels, sequence⟩)
    (numbered : s.Numbered sequence) (recorded : s.Recorded levels base)
    {key : String} (missing : memtableValue s.swapped.reverse key = none) :
    getFromSstables config.levelCount s.levels key =
      getFromSstables config.levelCount levels key := by
  refine getFromSstables_congr fun level => ?_
  cases level with
  | zero =>
      rw [getFromLevel, getFromLevel,
        getFromLevel0_eq (level0_wellFormed invariant numbered.tracked
          recorded) (level0_distinct invariant numbered recorded),
        getFromLevel0_eq invariant.level0 invariant.distinct]
      refine newest_congr (invariant.distinct.versionsOf key) fun entry => ?_
      rw [mem_versionsOf, mem_versionsOf]
      refine and_congr_left fun sameKey => ?_
      rw [mem_level0 recorded]
      refine or_iff_left ?_
      rintro ⟨source, table, written, inTable⟩
      obtain ⟨memtable, found, holds, -⟩ :=
        numbered.tracked.of_stamped (Or.inl ⟨table, written, inTable⟩)
      rw [memtableValue, List.findSome?_eq_none_iff] at missing
      have absent := missing memtable
        (List.mem_reverse.mpr (List.mem_of_getElem? found))
      rw [← sameKey, holds] at absent
      exact absurd absent (by simp)
  | succ level => rw [recorded.others level]

/-- When all flushes have finished, every key has its last write. -/
theorem get_eq_expected
    (invariant : LsmTree.Invariant config ⟨active, [], levels, sequence⟩)
    (numbered : s.Numbered sequence) (read : 0 < config.levelCount)
    (recorded : s.Recorded levels
      (getFromSstables config.levelCount levels))
    (all : s.AllReturned) (key : String) :
    s.tree.get config.levelCount key = s.expected key := by
  obtain ⟨empty, finished⟩ := numbered.tracked.flushedOnce.finished all
  have level0 := level0_wellFormed invariant numbered.tracked recorded
  have distinct := level0_distinct invariant numbered recorded
  rw [recorded.values key, LsmTree.get_eq, tree, empty, List.map_nil,
    memtableValue_cons, memtableValue_cons]
  cases here : s.active.data[key]? with
  | some value => rfl
  | none =>
      rw [Option.none_or, Option.none_or]
      cases found : memtableValue s.swapped.reverse key with
      | none =>
          exact unwritten_getFromSstables invariant numbered recorded found
      | some value =>
          obtain ⟨entry, newest, visible⟩ := latest_written invariant numbered
            recorded (fun ticket bound => (finished ticket bound).1) found
          obtain ⟨count, isSucc⟩ : ∃ count, config.levelCount = count + 1 :=
            ⟨config.levelCount - 1, by omega⟩
          change getFromSstables config.levelCount s.levels key = _
          rw [isSucc, getFromSstables_succ, getFromLevel0_eq level0 distinct,
            newest, Option.some_or, Option.bind_some, visible]
          rfl

/-- What is known along a run whose flushes overlap without a mistake. -/
theorem numbered_of_orderly
    {jsonLen : SerdeJsonValue → Nat} {expected : String → Option Value}
    (run : Reaches (FlushStep jsonLen) Orderly
      (quiet active levels sequence expected) s) : s.Numbered sequence := by
  apply run.invariant (fun s => s.Numbered sequence)
  · refine ⟨quiet_tracked _ _ _ _, le_rfl, ?_, ?_, ?_⟩ <;>
      simp [Stamped, quiet, FlushCall.stamped]
  · intro before action after numbered orderly taken
    exact numbered.step orderly taken

theorem quiet_recorded (levelCount : Nat) (active : Memtable)
    (levels : Nat → List SSTable) (sequence : Nat) :
    (quiet active levels sequence
      (LsmTree.get levelCount ⟨active, [], levels, sequence⟩)).Recorded
        levels (getFromSstables levelCount levels) := by
  refine ⟨by simp [quiet], fun _ => rfl, by simp [quiet], fun key => ?_⟩
  simp only [quiet, LsmTree.get_eq, List.reverse_nil]
  cases memtableValue [active] key <;> rfl

theorem recorded_of_reaches
    {jsonLen : SerdeJsonValue → Nat}
    {allowed : FlushState → FlushAction → Prop} {levelCount : Nat}
    (run : Reaches (FlushStep jsonLen) allowed
      (quiet active levels sequence
        (LsmTree.get levelCount ⟨active, [], levels, sequence⟩)) s) :
    s.Recorded levels (getFromSstables levelCount levels) :=
  run.invariant
    (fun s => s.Recorded levels (getFromSstables levelCount levels))
    (quiet_recorded levelCount active levels sequence)
    fun _ _ _ recorded _ taken => recorded.step taken

/-! ## Records that can be read -/

/-- No memtable holds an entry whose record in a table is refused. -/
structure ReadsBack (s : FlushState) : Prop where
  active : s.active.ReadsBack
  swapped : ∀ memtable ∈ s.swapped, memtable.ReadsBack

theorem ReadsBack.step
    {jsonLen : SerdeJsonValue → Nat} {s s' : FlushState}
    {action : FlushAction} (readsBack : s.ReadsBack)
    (written : action.ReadsBack) (taken : FlushStep jsonLen s action s') :
    s'.ReadsBack := by
  obtain ⟨active, swapped⟩ := readsBack
  cases taken with
  | put key value => exact ⟨active.put written jsonLen, swapped⟩
  | delete key => exact ⟨active.delete written jsonLen, swapped⟩
  | swap idle =>
      rw [FlushState.swap]
      split
      · refine ⟨Memtable.new_readsBack, fun memtable member => ?_⟩
        rcases List.mem_append.mp member with old | new
        · exact swapped memtable old
        · rw [List.mem_singleton.mp new]
          exact active
      · exact ⟨Memtable.new_readsBack, swapped⟩
  | readEntries found =>
      unfold FlushState.readEntries
      split
      · dsimp only
        split <;> exact ⟨active, swapped⟩
      · exact ⟨active, swapped⟩
  | drawName existing naming =>
      simp only [FlushState.drawName]
      split <;> exact ⟨active, swapped⟩
  | stampEntry stamping => exact ⟨active, swapped⟩
  | publish info stamping => exact ⟨active, swapped⟩
  | remove published => exact ⟨active, swapped⟩

theorem readsBack_of_orderly
    {jsonLen : SerdeJsonValue → Nat} {expected : String → Option Value}
    (opened : active.ReadsBack)
    (run : Reaches (FlushStep jsonLen) Orderly
      (quiet active levels sequence expected) s) : s.ReadsBack :=
  run.invariant (fun s => s.ReadsBack)
    ⟨opened, fun _ member => absurd member List.not_mem_nil⟩
    fun _ _ _ readsBack orderly taken => readsBack.step orderly.2.2 taken

/-- A flush writes the entries of its memtable. -/
theorem ReadsBack.tables
    {base : String → Option Value} (readsBack : s.ReadsBack)
    (tracked : s.Tracked) (recorded : s.Recorded levels base)
    (opened : ∀ level, ∀ table ∈ levels level, table.ReadsBack) :
    ∀ level, ∀ table ∈ s.levels level, table.ReadsBack := by
  intro level table member
  cases level with
  | succ level =>
      rw [recorded.others level] at member
      exact opened (level + 1) table member
  | zero =>
      rw [recorded.level0] at member
      rcases List.mem_append.mp member with old | new
      · exact opened 0 table old
      · obtain ⟨⟨ticket, _⟩, written, rfl⟩ := List.mem_map.mp new
        intro entry inTable
        obtain ⟨memtable, swapped, holds, -⟩ :=
          tracked.of_stamped (Or.inl ⟨_, written, inTable⟩)
        exact readsBack.swapped memtable (List.mem_of_getElem? swapped) _ _
          holds

/-- When all flushes have finished, every read returns the last write. -/
theorem getChecked_eq_expected
    {config : CompactionConfig}
    (invariant : LsmTree.Invariant config ⟨active, [], levels, sequence⟩)
    (opened : LsmTree.ReadsBack ⟨active, [], levels, sequence⟩)
    (read : 0 < config.levelCount)
    (run : Reaches (FlushStep config.jsonLen) Orderly
      (quiet active levels sequence
        (LsmTree.get config.levelCount ⟨active, [], levels, sequence⟩)) s)
    (all : s.AllReturned) (key : String) :
    s.tree.getChecked config.levelCount key = s.expected key := by
  have numbered := numbered_of_orderly run
  have recorded := recorded_of_reaches run
  have readsBack := readsBack_of_orderly
    (opened.memtables active List.mem_cons_self) run
  rw [LsmTree.getChecked_eq
    (readsBack.tables numbered.tracked recorded opened.tables)]
  exact get_eq_expected invariant numbered read recorded all key

end

end FlushState

open FlushState

/-- In every run whose flushes draw their timestamps in the order of the
swaps, key by key, and remove only the last memtable, later writes have larger
timestamps, and when all flushes have finished every read returns the last
write, unless its record is one that is refused. -/
theorem last_writer_wins
    (config : CompactionConfig) {active : Memtable}
    {levels : Nat → List SSTable} {sequence : Nat} {s : FlushState}
    (invariant : LsmTree.Invariant config ⟨active, [], levels, sequence⟩)
    (readsBack : LsmTree.ReadsBack ⟨active, [], levels, sequence⟩)
    (read : 0 < config.levelCount)
    (run : Reaches (FlushStep config.jsonLen) Orderly
      (quiet active levels sequence
        (LsmTree.get config.levelCount ⟨active, [], levels, sequence⟩)) s) :
    LaterIsLarger levels s ∧
      (s.AllReturned → ∀ key,
        s.tree.getChecked config.levelCount key = s.expected key) := by
  constructor
  · exact laterIsLarger_of_numbered invariant (numbered_of_orderly run)
  · exact getChecked_eq_expected invariant readsBack read run

/-! ## A deletion that is stamped before the put -/

/-- A put and a deletion of one key, each swapped out by a flush of its
own. -/
def putDeleteSwapped : FlushState :=
  ((((quiet .new (fun _ => []) 1
    (LsmTree.empty.get 7)).put leveledConfig.jsonLen "k" (.bool true)).swap
      1).delete leveledConfig.jsonLen "k").swap 2

theorem putDeleteSwapped_reached
    {allowed : FlushState → FlushAction → Prop}
    (free : ∀ s action, (∀ call, action ≠ .remove call) →
      (∀ call, action ≠ .stampEntry call) → action.ReadsBack →
        allowed s action) :
    Reaches (FlushStep leveledConfig.jsonLen) allowed
      (quiet .new (fun _ => []) 1 (LsmTree.empty.get 7))
      putDeleteSwapped :=
  ((((Reaches.start _).next
    (.put "k" (.bool true)) (free _ (.put "k" (.bool true)) (by simp)
      (by simp) ⟨rfl, by decide⟩) (.put _ _)).next
    (.swap 1) (free _ (.swap 1) (by simp) (by simp) trivial) (.swap rfl)).next
    (.delete "k") (free _ (.delete "k") (by simp) (by simp)
      ⟨rfl, by decide⟩) (.delete _)).next
    (.swap 2) (free _ (.swap 2) (by simp) (by simp) trivial) (.swap rfl)

def putEntry (timestamp : Nat) : SSTableEntry :=
  ⟨"k", .bool true, timestamp, false⟩

def deleteEntry (timestamp : Nat) : SSTableEntry :=
  ⟨"k", .null, timestamp, true⟩

/-- A call reads one entry, names its file and draws the timestamp. -/
def stampOne (s : FlushState) (call ticket index : Nat)
    (entry : SSTableEntry) : FlushState :=
  ((s.readEntries call ticket index).drawName call ticket index ticket
    [entry.item] []).stampEntry call ticket index ticket s.sequenceNumber
      entry.item [] []

/-- A call publishes its table and removes its memtable. -/
def complete (s : FlushState) (call ticket index sequence : Nat)
    (entry : SSTableEntry) : FlushState :=
  (s.publish call ticket index ticket sequence [entry]
    smallTable).remove call ticket index

/-- The put draws its timestamp first, the deletion is done first. -/
def inOrder : FlushState :=
  complete (complete (stampOne (stampOne putDeleteSwapped 1 0 0
    (putEntry 2)) 2 1 1 (deleteEntry 4)) 2 1 1 3 (deleteEntry 4)) 1 0 0 1
      (putEntry 2)

/-- The deletion draws its timestamp and is done first. -/
def outOfOrder : FlushState :=
  complete (stampOne (complete (stampOne putDeleteSwapped 2 1 1
    (deleteEntry 2)) 2 1 1 1 (deleteEntry 2)) 1 0 0 (putEntry 4)) 1 0 0 3
      (putEntry 4)

theorem stampsInOrder_of_phase
    {s : FlushState} {call ticket index source sequence : Nat}
    {entry : String × Value × Bool} {rest : List (String × Value × Bool)}
    {stamped : List SSTableEntry}
    (phase : s.calls call =
      .stamping ticket index source sequence (entry :: rest) stamped)
    (earlier : ∀ parked ∈ s.immutables, parked.ticket < source →
      ∃ version, s.Stamped parked.ticket version ∧ version.key = entry.1) :
    s.Orderly (.stampEntry call) := by
  refine ⟨trivial, ?_, trivial⟩
  intro ticket' index' source' sequence' entry' rest' stamped' found parked
    member less _
  rw [phase, FlushCall.stamping.injEq, List.cons.injEq] at found
  obtain ⟨-, -, rfl, -, ⟨rfl, -⟩, -⟩ := found
  exact earlier parked member less

theorem orderly_remove
    {s : FlushState} {call ticket index : Nat}
    (phase : s.calls call = .published ticket index)
    (last : index + 1 = s.immutables.length) :
    s.Orderly (.remove call) := by
  refine ⟨fun ticket' index' found => ?_, trivial, trivial⟩
  rw [phase, FlushCall.published.injEq] at found
  rw [← found.2, last]

theorem inOrder_reached :
    Reaches (FlushStep leveledConfig.jsonLen) Orderly
      (quiet .new (fun _ => []) 1 (LsmTree.empty.get 7)) inOrder := by
  have free : ∀ (s : FlushState) (action : FlushAction),
      (∀ call, action ≠ .remove call) →
        (∀ call, action ≠ .stampEntry call) → action.ReadsBack →
          s.Orderly action := by
    intro s action notRemove notStamp written
    cases action with
    | remove call => exact absurd rfl (notRemove call)
    | stampEntry call => exact absurd rfl (notStamp call)
    | _ => exact ⟨trivial, trivial, written⟩
  have first := ((putDeleteSwapped_reached free).next
    (.readEntries 1) ⟨trivial, trivial, trivial⟩ (.readEntries rfl)).next
    (.drawName 1 []) ⟨trivial, trivial, trivial⟩ (.drawName [] rfl) |>.next
    (.stampEntry 1) (stampsInOrder_of_phase rfl
      fun _ _ less => absurd less (Nat.not_lt_zero _)) (.stampEntry rfl)
  have second := (first.next
    (.readEntries 2) ⟨trivial, trivial, trivial⟩ (.readEntries rfl)).next
    (.drawName 2 []) ⟨trivial, trivial, trivial⟩ (.drawName [] rfl) |>.next
    (.stampEntry 2) (stampsInOrder_of_phase rfl fun parked _ less =>
      ⟨putEntry 2, Or.inr ⟨1, [putEntry 2],
        by rw [Nat.lt_one_iff.mp less]; rfl, List.mem_singleton_self _⟩,
        rfl⟩) (.stampEntry rfl)
  exact (((second.next
    (.publish 2 smallTable) ⟨trivial, trivial, trivial⟩
      (.publish _ rfl)).next
    (.remove 2) (orderly_remove rfl rfl) (.remove rfl)).next
    (.publish 1 smallTable) ⟨trivial, trivial, trivial⟩
      (.publish _ rfl)).next
    (.remove 1) (orderly_remove rfl rfl) (.remove rfl)

theorem inOrder_allReturned : inOrder.AllReturned := by
  intro call
  match call with
  | 0 => exact Or.inl rfl
  | 1 => exact Or.inr rfl
  | 2 => exact Or.inr rfl
  | call + 3 => exact Or.inl rfl

/-- The deletion keeps its key deleted. -/
theorem inOrder_get : inOrder.tree.getChecked 7 "k" = none :=
  (last_writer_wins leveledConfig (LsmTree.empty_invariant leveledConfig)
    LsmTree.empty_readsBack (by decide) inOrder_reached).2
      inOrder_allReturned "k"

/-- The put gets the larger timestamp, and the deletion is undone. -/
theorem outOfOrder_get :
    Reaches (FlushStep leveledConfig.jsonLen) RemovesLast
      (quiet .new (fun _ => []) 1 (LsmTree.empty.get 7)) outOfOrder ∧
      outOfOrder.AllReturned ∧ outOfOrder.expected "k" = none ∧
      outOfOrder.tree.getChecked 7 "k" = some (.bool true) ∧
      ¬ LaterIsLarger (fun _ => []) outOfOrder := by
  refine ⟨?_, ?_, rfl, rfl, ?_⟩
  · have free : ∀ (s : FlushState) (action : FlushAction),
        (∀ call, action ≠ .remove call) →
          (∀ call, action ≠ .stampEntry call) → action.ReadsBack →
            RemovesLast s action := by
      intro s action notRemove _ _
      cases action with
      | remove call => exact absurd rfl (notRemove call)
      | _ => trivial
    have first := ((((putDeleteSwapped_reached free).next
      (.readEntries 2) trivial (.readEntries rfl)).next
      (.drawName 2 []) trivial (.drawName [] rfl)).next
      (.stampEntry 2) trivial (.stampEntry rfl)).next
      (.publish 2 smallTable) trivial (.publish _ rfl) |>.next
      (.remove 2) (orderly_remove rfl rfl).1 (.remove rfl)
    exact ((((first.next
      (.readEntries 1) trivial (.readEntries rfl)).next
      (.drawName 1 []) trivial (.drawName [] rfl)).next
      (.stampEntry 1) trivial (.stampEntry rfl)).next
      (.publish 1 smallTable) trivial (.publish _ rfl)).next
      (.remove 1) (orderly_remove rfl rfl).1 (.remove rfl)
  · intro call
    match call with
    | 0 => exact Or.inl rfl
    | 1 => exact Or.inr rfl
    | 2 => exact Or.inr rfl
    | call + 3 => exact Or.inl rfl
  · intro larger
    have written : outOfOrder.written =
        [(1, ⟨.flush 0 1, [deleteEntry 2], 100, 0, true⟩),
          (0, ⟨.flush 0 3, [putEntry 4], 100, 0, true⟩)] := rfl
    rw [LaterIsLarger, written] at larger
    have less := (larger 0 _ (List.mem_cons_of_mem _ (List.mem_cons_self ..))
      _ (List.mem_singleton_self _)).2 1 _ (List.mem_cons_self ..)
      Nat.zero_lt_one _ (List.mem_singleton_self _) rfl
    exact absurd less (by decide)

end F4kvsLsm
