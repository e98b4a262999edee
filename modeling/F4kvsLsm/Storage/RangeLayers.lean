import F4kvsLsm.Storage.Layers

/-!
# What the range of a layer is

A range is meant to hold the keys from its start through its end, with all
that its end is a prefix of.  The bound behind an end counts its last
character up.  Two characters have none after them, and the bound that is
taken instead leaves out nearly all that starts with the end.  A memtable
refuses a range that is empty because its bound is below its start.
-/

namespace F4kvsLsm

open KeyOrder

/-! ## Through the end -/

/-- The keys up to an end, with those that start with it. -/
def throughEnd (rangeEnd key : String) : Bool :=
  rangeEnd.isEmpty || key ≤ rangeEnd || startsWith key rangeEnd

/-- The keys that a range is meant to hold. -/
def inClosedRange (start rangeEnd key : String) : Bool :=
  decide (start ≤ key) && throughEnd rangeEnd key

/-- The last character is the last one before a gap in the scalar values, or
the last one of all. -/
def lastHasNoNext (rangeEnd : String) : Bool :=
  match rangeEnd.toList.getLast? with
  | some lastChar => (nextChar lastChar).isNone
  | none => false

/-- A key that starts with such an end and goes on with more than zero
characters. -/
def beyondStuckEnd (rangeEnd key : String) : Bool :=
  lastHasNoNext rangeEnd && startsWith key rangeEnd &&
    rangeEnd ++ "\x01" ≤ key

theorem covBy_nextChar {c next : Char} (found : nextChar c = some next) :
    c ⋖ next := by
  refine ⟨lt_nextChar found, ?_⟩
  have follows := toNat_nextChar found
  intro between above below
  change c.val < between.val at above
  change between.val < next.val at below
  rw [UInt32.lt_iff_toNat_lt] at above below
  change c.toNat < between.toNat at above
  change between.toNat < next.toNat at below
  omega

theorem throughEnd_iff {rangeEnd key : String} :
    throughEnd rangeEnd key = true ↔
      rangeEnd = "" ∨ key.toList ≤ rangeEnd.toList ∨
        rangeEnd.toList <+: key.toList := by
  rw [throughEnd, Bool.or_eq_true, Bool.or_eq_true, String.isEmpty_iff,
    decide_eq_true_eq, startsWith_iff, String.le_iff_toList_le, or_assoc]

section

variable {rangeEnd : String} {front : List Char} {last : Char}

theorem exclusiveRangeEnd_of_next
    {next : Char} (whole : rangeEnd.toList = front ++ [last])
    (following : nextChar last = some next) :
    exclusiveRangeEnd rangeEnd = some (String.ofList (front ++ [next])) := by
  rw [exclusiveRangeEnd, whole, List.getLast?_concat, List.dropLast_concat]
  simp only [following]

theorem exclusiveRangeEnd_of_noNext
    (whole : rangeEnd.toList = front ++ [last])
    (following : nextChar last = none) :
    exclusiveRangeEnd rangeEnd = some (rangeEnd ++ "\x01") := by
  rw [exclusiveRangeEnd, whole, List.getLast?_concat]
  simp only [following]

theorem lastHasNoNext_concat (whole : rangeEnd.toList = front ++ [last]) :
    lastHasNoNext rangeEnd = (nextChar last).isNone := by
  rw [lastHasNoNext, whole, List.getLast?_concat]

/-- A bound that counts the last character up is exact. -/
theorem belowEnd_of_next
    {next : Char} (whole : rangeEnd.toList = front ++ [last])
    (following : nextChar last = some next) (key : String) :
    belowEnd rangeEnd key = throughEnd rangeEnd key := by
  have nonempty : rangeEnd ≠ "" := by
    intro empty
    simp [empty] at whole
  rw [belowEnd, exclusiveRangeEnd_of_next whole following, Bool.eq_iff_iff,
    throughEnd_iff, decide_eq_true_eq, String.lt_iff_toList_lt,
    String.toList_ofList, whole,
    lt_append_singleton_iff (covBy_nextChar following)]
  simp [nonempty]

/-- The other bound leaves out what does not go on with zero characters. -/
theorem belowEnd_of_noNext
    (whole : rangeEnd.toList = front ++ [last])
    (following : nextChar last = none) (key : String) :
    belowEnd rangeEnd key =
      (throughEnd rangeEnd key &&
        !(startsWith key rangeEnd && rangeEnd ++ "\x01" ≤ key)) := by
  have less : rangeEnd < rangeEnd ++ "\x01" :=
    lt_exclusiveRangeEnd (exclusiveRangeEnd_of_noNext whole following)
  rw [belowEnd, exclusiveRangeEnd_of_noNext whole following,
    Bool.eq_iff_iff, Bool.and_eq_true, throughEnd_iff, decide_eq_true_eq,
    Bool.not_eq_true', Bool.and_eq_false_iff]
  constructor
  · intro below
    have cut := below
    rw [String.lt_iff_toList_lt, String.toList_append] at cut
    exact ⟨Or.inr (le_or_isPrefix_of_lt_append cut),
      Or.inr (decide_eq_false below.not_ge)⟩
  · intro through
    rcases through with ⟨empty | under | starts, apart⟩
    · rw [empty] at whole
      exact absurd whole (by simp)
    · exact lt_of_le_of_lt (String.le_iff_toList_le.mpr under) less
    · rw [startsWith_iff.mpr starts] at apart
      rcases apart with never | above
      · exact absurd never (by simp)
      · exact not_le.mp (of_decide_eq_false above)

end

/-- The computed bound and the end that is meant differ only where the last
character has none after it. -/
theorem belowEnd_eq (rangeEnd key : String) :
    belowEnd rangeEnd key =
      (throughEnd rangeEnd key && !beyondStuckEnd rangeEnd key) := by
  rw [beyondStuckEnd]
  cases lastChar : rangeEnd.toList.getLast? with
  | none =>
      have empty : rangeEnd = "" := by
        rwa [List.getLast?_eq_none_iff, String.toList_eq_nil_iff] at lastChar
      rw [belowEnd, exclusiveRangeEnd_eq_none_iff.mpr empty, throughEnd,
        lastHasNoNext, lastChar, empty]
      rfl
  | some last =>
      rcases List.getLast?_eq_some_iff.mp lastChar with ⟨front, whole⟩
      rw [lastHasNoNext_concat whole]
      cases following : nextChar last with
      | some next => simp [belowEnd_of_next whole following]
      | none => simp [belowEnd_of_noNext whole following]

theorem inRange_eq (start rangeEnd key : String) :
    inRange start rangeEnd key =
      (inClosedRange start rangeEnd key && !beyondStuckEnd rangeEnd key) := by
  rw [inRange, inClosedRange, belowEnd_eq, Bool.and_assoc]

theorem throughEnd_of_beyondStuckEnd {rangeEnd key : String}
    (stuck : beyondStuckEnd rangeEnd key = true) :
    throughEnd rangeEnd key = true := by
  rw [beyondStuckEnd, Bool.and_eq_true, Bool.and_eq_true] at stuck
  rw [throughEnd, stuck.1.2, Bool.or_true]

theorem inRange_eq_inClosedRange_iff {start rangeEnd key : String} :
    inRange start rangeEnd key = inClosedRange start rangeEnd key ↔
      (start ≤ key → beyondStuckEnd rangeEnd key = false) := by
  rw [inRange_eq]
  cases stuck : beyondStuckEnd rangeEnd key with
  | false => simp
  | true =>
      rw [inClosedRange, throughEnd_of_beyondStuckEnd stuck]
      simp

/-! ## The scans of one layer -/

/-- Exactly the entries of `contents` that the range is meant to hold, in
order. -/
def ReturnsClosedRange (start rangeEnd : String)
    (contents : List (String × Value × Bool))
    (result : Except ScanFailure (List (String × Value × Bool))) : Prop :=
  ∃ entries, result = .ok entries ∧ Ascending Prod.fst entries ∧
    ∀ entry, entry ∈ entries ↔
      entry ∈ contents ∧ inClosedRange start rangeEnd entry.1 = true

section

variable {start rangeEnd : String}

theorem ReturnsClosedRange.unique
    {contents : List (String × Value × Bool)}
    {result result' : Except ScanFailure (List (String × Value × Bool))}
    (returns : ReturnsClosedRange start rangeEnd contents result)
    (returns' : ReturnsClosedRange start rangeEnd contents result') :
    result = result' := by
  rcases returns with ⟨entries, rfl, ascending, mem_iff⟩
  rcases returns' with ⟨entries', rfl, ascending', mem_iff'⟩
  congr 1
  apply ascending.eq_of_mem_iff ascending'
  intro entry
  rw [mem_iff entry, mem_iff' entry]

/-- A start behind everything that the end closes leaves nothing. -/
theorem inClosedRange_of_beyond
    (nonempty : rangeEnd ≠ "") (beyond : rangeEnd < start)
    (apart : startsWith start rangeEnd = false) (key : String) :
    inClosedRange start rangeEnd key = false := by
  rw [inClosedRange, Bool.and_eq_false_iff, decide_eq_false_iff_not]
  by_cases above : start ≤ key
  · right
    rw [Bool.eq_false_iff]
    intro through
    rcases throughEnd_iff.mp through with empty | under | starts
    · exact nonempty empty
    · rw [← String.le_iff_toList_le] at under
      exact absurd (beyond.trans_le (above.trans under)) (lt_irrefl _)
    · have between := startsWith_of_between (startsWith_iff.mpr starts)
        beyond.le above
      rw [apart] at between
      exact absurd between (by simp)
  · exact Or.inl above

/-- Selecting entries is right when the selection is. -/
theorem returnsClosedRange_filter
    {α : Type} {entryOf : α → String × Value × Bool} {items : List α}
    (ascending : Ascending (fun item => (entryOf item).1) items)
    (selected : α → Bool) :
    ReturnsClosedRange start rangeEnd (items.map entryOf)
        (.ok ((items.filter selected).map entryOf)) ↔
      ∀ item ∈ items,
        selected item = inClosedRange start rangeEnd (entryOf item).1 := by
  constructor
  · intro returns item member
    rcases returns with ⟨entries, same, -, mem_iff⟩
    rw [← Except.ok.inj same] at mem_iff
    have here := mem_iff (entryOf item)
    rw [List.mem_map, and_iff_right (List.mem_map_of_mem member)] at here
    rw [Bool.eq_iff_iff, ← here]
    constructor
    · exact fun chosen => ⟨item, List.mem_filter.mpr ⟨member, chosen⟩, rfl⟩
    · intro found
      rcases found with ⟨other, kept, sameEntry⟩
      have parts := List.mem_filter.mp kept
      have sameItem := ascending.eq_of_key_eq parts.1 member
        (congrArg Prod.fst sameEntry)
      rw [← sameItem]
      exact parts.2
  · intro agrees
    refine ⟨_, rfl, ?_, ?_⟩
    · exact List.pairwise_map.mpr (ascending.filter selected)
    · intro entry
      simp only [List.mem_map, List.mem_filter]
      constructor
      · rintro ⟨item, ⟨member, chosen⟩, rfl⟩
        exact ⟨⟨item, member, rfl⟩, (agrees item member).symm.trans chosen⟩
      · rintro ⟨⟨item, member, rfl⟩, within⟩
        exact ⟨item, ⟨member, (agrees item member).trans within⟩, rfl⟩

theorem Memtable.scanRangeLayer_returns_iff (m : Memtable) :
    ReturnsClosedRange start rangeEnd m.getAllEntries
        (m.scanRangeLayer start rangeEnd) ↔
      (m.entryCount = 0 ∨ rangeReversed start rangeEnd = false) ∧
        ∀ entry ∈ m.getAllEntries, start ≤ entry.1 →
          beyondStuckEnd rangeEnd entry.1 = false := by
  rw [Memtable.scanRangeLayer_eq]
  by_cases panics : m.entryCount > 0 ∧ rangeReversed start rangeEnd = true
  · rw [if_pos panics]
    constructor
    · rintro ⟨entries, same, -⟩
      exact absurd same (by simp)
    · rintro ⟨empty | ordered, -⟩
      · exact absurd empty panics.1.ne'
      · rw [panics.2] at ordered
        exact absurd ordered (by simp)
  · rw [if_neg panics]
    have ascending : Ascending (fun entry : String × Value × Bool =>
        (id entry).1) m.getAllEntries := m.ascending
    have served : m.entryCount = 0 ∨ rangeReversed start rangeEnd = false := by
      rcases Nat.eq_zero_or_pos m.entryCount with empty | some
      · exact Or.inl empty
      · exact Or.inr (Bool.eq_false_iff.mpr fun reversed =>
          panics ⟨some, reversed⟩)
    have selection := @returnsClosedRange_filter start rangeEnd _ id _
      ascending fun entry => inRange start rangeEnd entry.1
    rw [List.map_id, List.map_id] at selection
    rw [selection, and_iff_right served]
    exact forall₂_congr fun entry _ => inRange_eq_inClosedRange_iff

/-- Everything that the range is meant to hold can be read. -/
structure SSTable.ReadsRange (faults : ReadFaults) (table : SSTable)
    (start rangeEnd : String) : Prop where
  file : faults.file table = none
  index : faults.index table = none
  block : ∀ entry ∈ table.entries,
    inClosedRange start rangeEnd entry.key = true →
      faults.block table entry = none

theorem SSTable.scanRangeLayer_returns_iff
    {faults : ReadFaults} {table : SSTable}
    (ascending : Ascending SSTableEntry.key table.entries) :
    ReturnsClosedRange start rangeEnd table.layer
        (table.scanRangeLayer faults start rangeEnd) ↔
      table.ReadsRange faults start rangeEnd ∧
        ∀ entry ∈ table.entries, start ≤ entry.key →
          beyondStuckEnd rangeEnd entry.key = false := by
  rw [SSTable.scanRangeLayer]
  cases file : faults.file table with
  | some failure =>
      constructor
      · rintro ⟨entries, same, -⟩
        exact absurd same (by simp [guardFault])
      · rintro ⟨reads, -⟩
        exact absurd (file.symm.trans reads.file) (by simp)
  | none =>
      cases index : faults.index table with
      | some failure =>
          constructor
          · rintro ⟨entries, same, -⟩
            exact absurd same (by simp [guardFault])
          · rintro ⟨reads, -⟩
            exact absurd (index.symm.trans reads.index) (by simp)
      | none =>
          simp only [guardFault, ok_bind, SSTable.indexFrom_range_eq
            ascending, SSTable.readEntries, List.filter_filter]
          have selection := @returnsClosedRange_filter start rangeEnd _
            (fun entry : SSTableEntry =>
              (entry.key, entry.value, entry.deleted)) _ ascending
            fun entry => (faults.block table entry).isNone &&
              inRange start rangeEnd entry.key
          refine selection.trans ?_
          constructor
          · intro agrees
            constructor
            · refine ⟨file, index, fun entry member within => ?_⟩
              have chosen := (agrees entry member).trans within
              rw [Bool.and_eq_true] at chosen
              exact Option.isNone_iff_eq_none.mp chosen.1
            · intro entry member
              apply inRange_eq_inClosedRange_iff.mp
              have agree := agrees entry member
              cases within : inClosedRange start rangeEnd entry.key with
              | false =>
                  rw [inRange_eq, within]
                  rfl
              | true =>
                  rw [within, Bool.and_eq_true] at agree
                  exact agree.2
          · intro served entry member
            rw [inRange_eq_inClosedRange_iff.mpr (served.2 entry member)]
            cases within : inClosedRange start rangeEnd entry.key with
            | false => exact Bool.and_false _
            | true => rw [served.1.block entry member within]; rfl

/-! ## Both layers -/

/-- What is expected of a memtable and of a table over a range. -/
structure RangeLayersRight (faults : ReadFaults) (m : Memtable)
    (table : SSTable) (start rangeEnd : String) : Prop where
  inMemtable : ReturnsClosedRange start rangeEnd m.getAllEntries
    (m.scanRangeLayer start rangeEnd)
  inTable : ReturnsClosedRange start rangeEnd table.layer
    (table.scanRangeLayer faults start rangeEnd)
  beyond : rangeEnd ≠ "" → rangeEnd < start →
    startsWith start rangeEnd = false →
    m.scanRangeLayer start rangeEnd = .ok [] ∧
      table.scanRangeLayer faults start rangeEnd = .ok []
  agree : m.getAllEntries = table.layer →
    m.scanRangeLayer start rangeEnd =
      table.scanRangeLayer faults start rangeEnd

theorem ReturnsClosedRange.nil_of_beyond
    {contents : List (String × Value × Bool)}
    {result : Except ScanFailure (List (String × Value × Bool))}
    (returns : ReturnsClosedRange start rangeEnd contents result)
    (nonempty : rangeEnd ≠ "") (beyond : rangeEnd < start)
    (apart : startsWith start rangeEnd = false) : result = .ok [] := by
  rcases returns with ⟨entries, rfl, -, mem_iff⟩
  congr 1
  apply List.eq_nil_iff_forall_not_mem.mpr
  intro entry member
  have within := ((mem_iff entry).mp member).2
  rw [inClosedRange_of_beyond nonempty beyond apart] at within
  exact absurd within (by simp)

/-- No key at or above the start goes on behind an end whose last character
has none after it, but with zero characters. -/
def NoneBeyondStuckEnd (start rangeEnd : String) (keys : List String) : Prop :=
  ∀ key ∈ keys, start ≤ key → beyondStuckEnd rangeEnd key = false

/-- Both layers return the range exactly when the memtable does not refuse
it, the table can be read in it, and no key is behind an end that cannot be
counted up. -/
theorem range_layers_right_iff
    (faults : ReadFaults) (m : Memtable) {table : SSTable}
    (ascending : Ascending SSTableEntry.key table.entries)
    (start rangeEnd : String) :
    RangeLayersRight faults m table start rangeEnd ↔
      (m.entryCount = 0 ∨ rangeReversed start rangeEnd = false) ∧
        table.ReadsRange faults start rangeEnd ∧
        NoneBeyondStuckEnd start rangeEnd (m.getAllEntries.map (·.1)) ∧
        NoneBeyondStuckEnd start rangeEnd (table.entries.map (·.key)) := by
  have inMemtable := @Memtable.scanRangeLayer_returns_iff start rangeEnd m
  have inTable := @SSTable.scanRangeLayer_returns_iff start rangeEnd faults
    table ascending
  simp only [NoneBeyondStuckEnd, List.forall_mem_map]
  constructor
  · intro right
    have served := inMemtable.mp right.inMemtable
    have read := inTable.mp right.inTable
    exact ⟨served.1, read.1, served.2, read.2⟩
  · rintro ⟨ordered, reads, memtableKeys, tableKeys⟩
    have served := inMemtable.mpr ⟨ordered, memtableKeys⟩
    have read := inTable.mpr ⟨reads, tableKeys⟩
    constructor
    · exact served
    · exact read
    · intro nonempty beyond apart
      exact ⟨served.nil_of_beyond nonempty beyond apart,
        read.nil_of_beyond nonempty beyond apart⟩
    · intro same
      rw [same] at served
      exact served.unique read

end

/-! ## One key -/

def singleMemtable (key : String) : Memtable :=
  Memtable.new.put (fun _ => 0) key (.bool true)

def singleTable (key : String) : SSTable :=
  { name := .flush 0 1
    entries := [⟨key, .bool true, 1, false⟩]
    fileSize := 100
    createdAt := 0
    blockCompressed := false }

theorem singleTable_ascending (key : String) :
    Ascending SSTableEntry.key (singleTable key).entries :=
  List.pairwise_singleton _ _

/-- A range through `a` finds `ab`. -/
theorem range_through_a_right :
    RangeLayersRight .none (singleMemtable "ab") (singleTable "ab") "a" "a" := by
  apply (range_layers_right_iff .none (singleMemtable "ab")
    (singleTable_ascending "ab") "a" "a").mpr
  have goesOn : lastHasNoNext "a" = false := by decide
  refine ⟨Or.inr (by decide), ⟨rfl, rfl, fun _ _ _ => rfl⟩, ?_, ?_⟩
  · intro key _ _
    simp only [beyondStuckEnd, goesOn, Bool.false_and]
  · intro key _ _
    simp only [beyondStuckEnd, goesOn, Bool.false_and]

/-- A range from `c` to `a` makes the memtable panic where the table returns
nothing, and an end before the surrogates finds nothing that goes on behind
it. -/
theorem reversed_and_stuck_ranges :
    (singleMemtable "a").scanRangeLayer "c" "a" = .error .panicked ∧
      (singleTable "a").scanRangeLayer .none "c" "a" = .ok [] ∧
      ¬ RangeLayersRight .none (singleMemtable "a") (singleTable "a") "c"
        "a" ∧
      (singleMemtable "\ud7ffa").scanRangeLayer "\ud7ff" "\ud7ff" = .ok [] ∧
      (singleTable "\ud7ffa").scanRangeLayer .none "\ud7ff" "\ud7ff" =
        .ok [] ∧
      ¬ RangeLayersRight .none (singleMemtable "\ud7ffa")
        (singleTable "\ud7ffa") "\ud7ff" "\ud7ff" := by
  have panics : (singleMemtable "a").scanRangeLayer "c" "a" =
      .error .panicked := by
    rw [Memtable.scanRangeLayer_eq, if_pos ⟨by decide, by decide⟩]
  refine ⟨panics, rfl, ?_, rfl, rfl, ?_⟩
  · intro right
    rcases right.inMemtable with ⟨entries, same, -⟩
    rw [panics] at same
    exact absurd same (by simp)
  · intro right
    have kept := (Memtable.scanRangeLayer_returns_iff _).mp right.inMemtable
    have found := kept.2 ("\ud7ffa", .bool true, false)
      (Memtable.mem_getAllEntries.mpr ⟨rfl, rfl⟩) (by decide)
    exact absurd found (by decide)

end F4kvsLsm
