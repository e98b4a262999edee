import F4kvsLsm.Engine.FamilyIsolation

/-!
# Range scans with a limit

A range scan collects the keys of all layers and sorts them.  A range scan
with a limit collects the same keys, stops as soon as it has enough of them
and sorts nothing.  It returns the least keys only when the layers happen to
offer them first and in order.
-/

namespace F4kvsLsm

open Fallible KeyOrder

/-! ## Collecting the keys -/

namespace LsmTree

/-- Stopping early changes nothing but the length. -/
theorem collectKeys_ok
    {limit : Nat} {found : List String} {layers : List (List String)}
    (few : found.length ≤ limit) :
    collectKeys limit found (layers.map Except.ok) =
      .ok ((found ++ layers.flatten).take limit) := by
  induction layers generalizing found with
  | nil =>
      rw [List.map_nil, collectKeys, List.flatten_nil, List.append_nil,
        List.take_of_length_le few]
  | cons layer rest inductionHypothesis =>
      rw [List.map_cons, collectKeys, ok_bind, List.flatten_cons,
        ← List.append_assoc]
      by_cases enough : limit ≤ (found ++ layer).length
      · rw [if_pos enough, List.take_append_of_le_length enough]
        rfl
      · rw [if_neg enough]
        exact inductionHypothesis (Nat.le_of_not_le enough)

variable (faults : ReadFaults) (levelCount : Nat) (tree : LsmTree)

/-- The files and the indexes of all tables can be read. -/
def Opens : Prop :=
  ∀ table ∈ scanTables levelCount tree.levels,
    faults.file table = none ∧ faults.index table = none

/-- The keys of a range that are not deleted, one layer after the other, the
active memtable first. -/
def rangeKeys (start rangeEnd : String) : List String :=
  (tree.active :: tree.immutables).flatMap (fun memtable =>
    Memtable.liveKeys (memtable.getAllEntries.filter
      (inRange start rangeEnd ·.1))) ++
  (scanTables levelCount tree.levels).flatMap fun table =>
    Memtable.liveKeys ((table.readable faults).filter
      (inRange start rangeEnd ·.1))

end LsmTree

section

variable {faults : ReadFaults} {levelCount : Nat} {tree : LsmTree}
variable {start rangeEnd : String}

/-- No memtable refuses the range. -/
def LsmTree.Accepts (tree : LsmTree) (start rangeEnd : String) : Prop :=
  ∀ memtable ∈ tree.active :: tree.immutables,
    ¬ (memtable.entryCount > 0 ∧ rangeReversed start rangeEnd = true)

theorem inRange_of_reversed
    (reversed : rangeReversed start rangeEnd = true) (key : String) :
    inRange start rangeEnd key = false := by
  rw [rangeReversed] at reversed
  rw [inRange, belowEnd, Bool.and_eq_false_iff]
  cases found : exclusiveRangeEnd rangeEnd with
  | none => simp [found] at reversed
  | some bound =>
      rw [found] at reversed
      have below : bound < start := of_decide_eq_true reversed
      simp only [decide_eq_false_iff_not]
      by_cases above : start ≤ key
      · exact Or.inr (below.trans_le above).asymm
      · exact Or.inl above

theorem LsmTree.rangeKeys_of_not_accepts
    (refused : ¬ tree.Accepts start rangeEnd) :
    tree.rangeKeys faults levelCount start rangeEnd = [] := by
  have reversed : rangeReversed start rangeEnd = true := by
    by_contra ordered
    exact refused fun memtable _ panics => ordered panics.2
  have outside := inRange_of_reversed reversed
  simp [rangeKeys, outside, Memtable.liveKeys]

theorem LsmTree.scanRange_of_opens
    (wellFormed : ∀ table ∈ scanTables levelCount tree.levels,
      table.WellFormed)
    (opens : tree.Opens faults levelCount)
    (accepts : tree.Accepts start rangeEnd) :
    tree.scanRange faults levelCount start rangeEnd =
        .ok (sortDedup (tree.rangeKeys faults levelCount start rangeEnd)) ∧
      ∀ limit, tree.scanRangeLimit faults levelCount start rangeEnd limit =
        .ok ((tree.rangeKeys faults levelCount start rangeEnd).take
          limit) := by
  have memtables : ∀ memtable ∈ tree.active :: tree.immutables,
      memtable.scanRange start rangeEnd =
        .ok (Memtable.liveKeys (memtable.getAllEntries.filter
          (inRange start rangeEnd ·.1))) := by
    intro memtable member
    rw [Memtable.scanRange, Memtable.scanRangeLayer_eq,
      if_neg (accepts memtable member)]
    rfl
  have tables : ∀ table ∈ scanTables levelCount tree.levels,
      table.scanRange faults start rangeEnd =
        .ok (Memtable.liveKeys ((table.readable faults).filter
          (inRange start rangeEnd ·.1))) := by
    intro table member
    rw [SSTable.scanRange, (wellFormed table member).scanRangeLayer_eq
      (opens table member)]
    rfl
  constructor
  · rw [LsmTree.scanRange, mapM_eq_ok memtables, ok_bind, mapM_eq_ok tables,
      ok_bind, rangeKeys, List.flatMap_def, List.flatMap_def]
    rfl
  · intro limit
    have collected := @collectKeys_ok limit []
      ((tree.active :: tree.immutables).map (fun memtable =>
        Memtable.liveKeys (memtable.getAllEntries.filter
          (inRange start rangeEnd ·.1))) ++
      (scanTables levelCount tree.levels).map fun table =>
        Memtable.liveKeys ((table.readable faults).filter
          (inRange start rangeEnd ·.1))) (Nat.zero_le limit)
    rw [List.map_append, List.map_map, List.map_map, List.flatten_append,
      List.nil_append] at collected
    rw [LsmTree.scanRangeLimit, List.map_congr_left memtables,
      List.map_congr_left tables, rangeKeys, List.flatMap_def,
      List.flatMap_def]
    exact collected

theorem SSTable.opens_of_scanRange
    {table : SSTable} {keys : List String}
    (scanned : table.scanRange faults start rangeEnd = .ok keys) :
    faults.file table = none ∧ faults.index table = none := by
  rw [SSTable.scanRange, SSTable.scanRangeLayer] at scanned
  cases file : faults.file table with
  | some failure =>
      rw [file] at scanned
      exact absurd scanned (by simp [guardFault])
  | none =>
      cases index : faults.index table with
      | some failure =>
          rw [file, index] at scanned
          exact absurd scanned (by simp [guardFault])
      | none => exact ⟨rfl, rfl⟩

/-- A scan that returns has read everything. -/
theorem LsmTree.opens_of_scanRange
    {keys : List String}
    (scanned : tree.scanRange faults levelCount start rangeEnd = .ok keys) :
    tree.Opens faults levelCount ∧ tree.Accepts start rangeEnd := by
  rcases exists_of_bind_ok scanned with ⟨memtableKeys, memtables, rest⟩
  rcases exists_of_bind_ok rest with ⟨tableKeys, tables, -⟩
  constructor
  · intro table member
    rcases mapM_item tables table member with ⟨keys, read⟩
    exact SSTable.opens_of_scanRange read
  · intro memtable member panics
    rcases mapM_item memtables memtable member with ⟨keys, read⟩
    rw [Memtable.scanRange, Memtable.scanRangeLayer_eq,
      if_pos panics] at read
    exact absurd read (by simp [Except.map])

/-! ## The first keys -/

/-- With a limit a scan returns the first keys of the scan without one. -/
def LimitsScan (full limited : Except ScanFailure (List String))
    (limit : Nat) : Prop :=
  ∀ keys, full = .ok keys → limited = .ok (keys.take limit)

theorem map_eq_map_iff_of_injOn
    {α β : Type} {f : α → β} {members : Set α} (injective : members.InjOn f)
    {first second : List α} (inFirst : ∀ item ∈ first, item ∈ members)
    (inSecond : ∀ item ∈ second, item ∈ members) :
    first.map f = second.map f ↔ first = second := by
  constructor
  · intro same
    induction first generalizing second with
    | nil => exact (List.map_eq_nil_iff.mp same.symm).symm
    | cons item rest inductionHypothesis =>
        cases second with
        | nil => exact absurd same (by simp)
        | cons other others =>
            rw [List.map_cons, List.map_cons, List.cons.injEq] at same
            rw [List.forall_mem_cons] at inFirst inSecond
            rw [injective inFirst.1 inSecond.1 same.1,
              inductionHypothesis inFirst.2 inSecond.2 same.2]
  · exact congrArg (List.map f)

theorem LsmTree.limitsScan_iff
    (wellFormed : ∀ table ∈ scanTables levelCount tree.levels,
      table.WellFormed)
    {strip : List String → List String} {name : String → String}
    (injective : Set.InjOn name
      {key | key ∈ tree.rangeKeys faults levelCount start rangeEnd})
    (strips : ∀ keys, (∀ key ∈ keys,
      key ∈ tree.rangeKeys faults levelCount start rangeEnd) →
        strip keys = keys.map name)
    (limit : Nat) :
    LimitsScan ((tree.scanRange faults levelCount start rangeEnd).map strip)
        ((tree.scanRangeLimit faults levelCount start rangeEnd limit).map
          strip) limit ↔
      (tree.Opens faults levelCount → StartsInOrder limit
        (tree.rangeKeys faults levelCount start rangeEnd)) := by
  let keys := tree.rangeKeys faults levelCount start rangeEnd
  have listing := @sortDedup_listsKeys keys _ fun _ => Iff.rfl
  have stripped : strip (keys.take limit) =
        (strip (sortDedup keys)).take limit ↔ StartsInOrder limit keys := by
    rw [strips _ fun key => List.mem_of_mem_take,
      strips _ fun key => (listing.2 key).mp, ← List.map_take,
      ← take_eq_take_iff listing.1 listing.2 limit]
    apply map_eq_map_iff_of_injOn injective
    · exact fun key => List.mem_of_mem_take
    · exact fun key member =>
        (listing.2 key).mp (List.mem_of_mem_take member)
  constructor
  · intro limits opens
    by_cases accepts : tree.Accepts start rangeEnd
    · rcases scanRange_of_opens wellFormed opens accepts with
        ⟨full, limited⟩
      have same := limits (strip (sortDedup keys)) (by rw [full]; rfl)
      rw [limited limit] at same
      exact stripped.mp (Except.ok.inj same)
    · rw [rangeKeys_of_not_accepts accepts]
      simp [StartsInOrder]
  · intro starts found scanned
    cases physical : tree.scanRange faults levelCount start rangeEnd with
    | error failure =>
        rw [physical] at scanned
        exact absurd scanned (by simp [Except.map])
    | ok whole =>
        rcases opens_of_scanRange physical with ⟨opens, accepts⟩
        rcases scanRange_of_opens wellFormed opens accepts with
          ⟨full, limited⟩
        rw [full] at scanned
        rw [limited limit, ← Except.ok.inj scanned]
        exact congrArg Except.ok (stripped.mpr (starts opens))

theorem LsmTree.inRange_of_rangeKeys
    {key : String}
    (member : key ∈ tree.rangeKeys faults levelCount start rangeEnd) :
    inRange start rangeEnd key = true := by
  rw [rangeKeys, List.mem_append, List.mem_flatMap, List.mem_flatMap]
    at member
  rcases member with ⟨memtable, -, held⟩ | ⟨table, -, held⟩
  · rcases mem_liveKeys.mp held with ⟨value, found⟩
    exact (List.mem_filter.mp found).2
  · rcases mem_liveKeys.mp held with ⟨value, found⟩
    exact (List.mem_filter.mp found).2

/-! ## Both kinds of scans -/

theorem except_map_id {ε α : Type} (result : Except ε α) :
    result.map id = result := by
  cases result with
  | error failure => rfl
  | ok value => rfl

/-- The range scan and the range scan of a family, each with its limit, are
right exactly when some table does not open or the layers offer the first
keys of the range in order. -/
theorem limited_range_scans_iff
    (wellFormed : ∀ table ∈ LsmTree.scanTables levelCount tree.levels,
      table.WellFormed)
    (families : List String) (start rangeEnd family : String)
    (limit : Nat) :
    (LimitsScan (tree.scanRange faults levelCount start rangeEnd)
        (tree.scanRangeLimit faults levelCount start rangeEnd limit) limit ↔
      (tree.Opens faults levelCount → StartsInOrder limit
        (tree.rangeKeys faults levelCount start rangeEnd))) ∧
    (LimitsScan
        (tree.scanRangeCf faults levelCount families start rangeEnd family)
        (tree.scanRangeLimitCf faults levelCount families start rangeEnd
          limit family) limit ↔
      (family ∈ families → tree.Opens faults levelCount →
        StartsInOrder limit (tree.rangeKeys faults levelCount
          (familyKey family start) (LsmTree.familyEnd family rangeEnd)))) := by
  constructor
  · have whole := @LsmTree.limitsScan_iff faults levelCount tree start
      rangeEnd wellFormed id id (Set.injOn_id _)
      (fun keys _ => (List.map_id keys).symm) limit
    rwa [except_map_id, except_map_id] at whole
  · by_cases registered : family ∈ families
    · rw [forall_prop_of_true registered]
      have fronted : ∀ key ∈ tree.rangeKeys faults levelCount
          (familyKey family start) (LsmTree.familyEnd family rangeEnd),
          startsWith key (family ++ "#") = true :=
        fun key member =>
          startsWith_front_of_inRange (LsmTree.inRange_of_rangeKeys member)
      have whole := @LsmTree.limitsScan_iff faults levelCount tree
        (familyKey family start) (LsmTree.familyEnd family rangeEnd)
        wellFormed (withoutFront (family ++ "#")) _
        (familyKey_empty family ▸ (dropFront_injOn family "").mono
          (familyKey_empty family ▸ fronted))
        (fun keys among => withoutFront_eq_map fun key member =>
          fronted key (among key member)) limit
      rw [← whole, LsmTree.scanRangeCf, LsmTree.scanRangeLimitCf,
        checkFamily_of_mem registered]
      rfl
    · constructor
      · exact fun _ known => absurd known registered
      · intro _ keys scanned
        rw [LsmTree.scanRangeCf, checkFamily, if_neg registered] at scanned
        exact absurd scanned (by simp)

end

/-! ## Two keys -/

/-- Both keys are in the active memtable. -/
def keysTogether : LsmTree := putTrue (putTrue .empty "f#a") "f#b"

/-- The lesser key has been flushed before the other one is put. -/
def keysApart : LsmTree := putTrue (flushed (putTrue .empty "f#a")) "f#b"

theorem keys_together_limited :
    LimitsScan (keysTogether.scanRange .none 7 "" "")
        (keysTogether.scanRangeLimit .none 7 "" "" 1) 1 ∧
      LimitsScan (keysTogether.scanRangeCf .none 7 ["f"] "" "" "f")
        (keysTogether.scanRangeLimitCf .none 7 ["f"] "" "" 1 "f") 1 := by
  have noTable : ∀ table ∈ LsmTree.scanTables 7 keysTogether.levels,
      table.WellFormed := fun table member => absurd member List.not_mem_nil
  have limits := @limited_range_scans_iff .none _ _ noTable ["f"]
    "" "" "f" 1
  constructor
  · apply limits.1.mpr
    intro _
    decide
  · apply limits.2.mpr
    intro _ _
    decide

/-- With the limit 1 the scans return the greater key. -/
theorem keys_apart_not_limited :
    keysApart.scanRange .none 7 "f" "g" = .ok ["f#a", "f#b"] ∧
      keysApart.scanRangeLimit .none 7 "f" "g" 1 = .ok ["f#b"] ∧
      keysApart.scanRangeCf .none 7 ["f"] "" "" "f" = .ok ["a", "b"] ∧
      keysApart.scanRangeLimitCf .none 7 ["f"] "" "" 1 "f" = .ok ["b"] ∧
      ¬ LimitsScan (keysApart.scanRange .none 7 "f" "g")
        (keysApart.scanRangeLimit .none 7 "f" "g" 1) 1 := by
  have full : keysApart.scanRange .none 7 "f" "g" = .ok ["f#a", "f#b"] := rfl
  have limited : keysApart.scanRangeLimit .none 7 "f" "g" 1 = .ok ["f#b"] :=
    rfl
  refine ⟨full, limited, rfl, rfl, ?_⟩
  intro limits
  have same := limits _ full
  rw [limited] at same
  exact absurd (Except.ok.inj same) (by decide)

end F4kvsLsm
