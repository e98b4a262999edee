import F4kvsLsm.Engine.LimitedScans
import F4kvsLsm.Storage.RangeLayers

/-!
# The range operations of a family

A family has three range operations.  All of them ask the layers for the same
physical range, whose bound lets through what starts with the end of the
range.  Only the iterator compares the keys with the end again.
-/

namespace F4kvsLsm

open KeyOrder Overlay

/-! ## Ranges behind the front of a family -/

theorem exclusiveRangeEnd_familyKey
    {rangeEnd : String} (nonempty : rangeEnd ≠ "") (family : String) :
    exclusiveRangeEnd (familyKey family rangeEnd) =
      (exclusiveRangeEnd rangeEnd).map (familyKey family) := by
  have whole := toList_familyKey_front family rangeEnd
  cases lastChar : rangeEnd.toList.getLast? with
  | none =>
      rw [List.getLast?_eq_none_iff, String.toList_eq_nil_iff] at lastChar
      exact absurd lastChar nonempty
  | some last =>
      rcases List.getLast?_eq_some_iff.mp lastChar with ⟨front, split⟩
      rw [split, ← List.append_assoc] at whole
      cases following : nextChar last with
      | some next =>
          rw [exclusiveRangeEnd_of_next whole following,
            exclusiveRangeEnd_of_next split following, Option.map_some,
            Option.some.injEq, ← String.toList_inj, String.toList_ofList,
            toList_familyKey_front, String.toList_ofList, List.append_assoc]
      | none =>
          rw [exclusiveRangeEnd_of_noNext whole following,
            exclusiveRangeEnd_of_noNext split following, Option.map_some,
            familyKey, familyKey, String.append_assoc]

theorem familyKey_lt_dollar (family key : String) :
    familyKey family key < family ++ "$" := by
  rw [String.lt_iff_toList_lt, toList_familyKey_front, String.toList_append,
    String.toList_append, List.append_assoc, append_lt_append_iff]
  exact cons_lt_cons_iff.mpr (Or.inl (by decide))

theorem inRange_familyKey (family start rangeEnd key : String) :
    inRange (familyKey family start) (LsmTree.familyEnd family rangeEnd)
        (familyKey family key) = inRange start rangeEnd key := by
  have above : familyKey family start ≤ familyKey family key ↔
      start ≤ key := by
    rw [← not_lt, familyKey_lt_familyKey_iff, not_lt]
  rw [inRange, inRange, decide_eq_decide.mpr above]
  congr 1
  rw [belowEnd, belowEnd, LsmTree.familyEnd]
  by_cases empty : rangeEnd = ""
  · rw [if_pos empty, exclusiveRangeEnd_front,
      exclusiveRangeEnd_eq_none_iff.mpr empty]
    exact decide_eq_true (familyKey_lt_dollar family key)
  · rw [if_neg empty, exclusiveRangeEnd_familyKey empty]
    cases exclusiveRangeEnd rangeEnd with
    | none => rfl
    | some bound =>
        exact decide_eq_decide.mpr familyKey_lt_familyKey_iff

/-- A key behind the end of the range that the bound lets through. -/
def behindEnd (start rangeEnd key : String) : Bool :=
  rangeEnd ≠ "" && start ≤ key && startsWith key rangeEnd &&
    key ≠ rangeEnd && !beyondStuckEnd rangeEnd key

/-- The iterator turns down what is behind the end. -/
theorem iterKeeps_of_inRange
    {start rangeEnd key : String}
    (asked : inRange start rangeEnd key = true) :
    LsmTree.iterKeeps start rangeEnd key =
      !behindEnd start rangeEnd key := by
  rw [inRange, Bool.and_eq_true, decide_eq_true_eq, belowEnd_eq,
    Bool.and_eq_true, Bool.not_eq_true'] at asked
  rcases asked with ⟨above, through, apart⟩
  rw [behindEnd, apart, LsmTree.iterKeeps]
  by_cases empty : rangeEnd = ""
  · by_cases first : start = "" <;> simp [empty, first, above]
  · have kept : key ≤ rangeEnd ↔
        ¬ (startsWith key rangeEnd = true ∧ key ≠ rangeEnd) := by
      constructor
      · rintro under ⟨starts, different⟩
        exact different (le_antisymm under (le_of_startsWith starts))
      · intro inside
        rcases throughEnd_iff.mp through with none | under | starts
        · exact absurd none empty
        · exact String.le_iff_toList_le.mpr under
        · by_contra beyond
          apply inside
          refine ⟨startsWith_iff.mpr starts, ?_⟩
          intro same
          exact beyond same.le
    rw [Bool.eq_iff_iff]
    simp [empty, above, kept]

/-! ## States without deletions -/

namespace LsmTree

variable {faults : ReadFaults} {levelCount : Nat} {tree : LsmTree}

/-- No layer marks a key as deleted. -/
def NoneDeleted (faults : ReadFaults) (levelCount : Nat) (tree : LsmTree) :
    Prop :=
  ∀ layer ∈ tree.layers faults levelCount, ∀ entry ∈ layer,
    entry.2.2 = false

/-- Some layer has the key. -/
def LayersHold (faults : ReadFaults) (levelCount : Nat) (tree : LsmTree)
    (key : String) : Prop :=
  ∃ layer ∈ tree.layers faults levelCount, ∃ entry ∈ layer, entry.1 = key

theorem topmost_ne_none_iff
    {layers : List (List (String × Value × Bool))} {key : String} :
    topmost layers key ≠ none ↔
      ∃ layer ∈ layers, ∃ entry ∈ layer, entry.1 = key := by
  rw [topmost, ne_eq, List.findSome?_eq_none_iff]
  simp only [List.mem_reverse, version_eq_none_iff, ne_eq, not_forall,
    not_not, exists_prop]

theorem NoneDeleted.overlaid_isSome_iff
    (noneDeleted : tree.NoneDeleted faults levelCount) (key : String) :
    (∃ value, tree.overlaid faults levelCount key = some value) ↔
      tree.LayersHold faults levelCount key := by
  rw [LayersHold, ← topmost_ne_none_iff, overlaid]
  cases found : topmost (tree.layers faults levelCount) key with
  | none => simp
  | some version =>
      rw [topmost] at found
      rcases List.exists_of_findSome?_eq_some found with
        ⟨layer, member, shows⟩
      rw [List.mem_reverse] at member
      rcases Option.map_eq_some_iff.mp shows with ⟨entry, hit, same⟩
      rw [noneDeleted layer member entry (List.mem_of_find?_eq_some hit)]
        at same
      simp [← same]

theorem mem_layers_iff {layer : List (String × Value × Bool)} :
    layer ∈ tree.layers faults levelCount ↔
      (∃ memtable ∈ tree.active :: tree.immutables,
        memtable.getAllEntries = layer) ∨
      ∃ table ∈ scanTables levelCount tree.levels,
        table.readable faults = layer := by
  rw [layers, List.mem_append, List.mem_map, List.mem_map, or_comm]
  have same : ∀ memtable, memtable ∈ tree.immutables ++ [tree.active] ↔
      memtable ∈ tree.active :: tree.immutables := by
    intro memtable
    rw [List.mem_append, List.mem_singleton, List.mem_cons, or_comm]
  simp only [same]

/-- The listed keys are those that some layer has undeleted. -/
theorem mem_rangeKeys_iff
    {start rangeEnd key : String} :
    key ∈ tree.rangeKeys faults levelCount start rangeEnd ↔
      inRange start rangeEnd key = true ∧
        ∃ layer ∈ tree.layers faults levelCount, ∃ value,
          (key, value, false) ∈ layer := by
  have listed : ∀ layer : List (String × Value × Bool),
      key ∈ Memtable.liveKeys (layer.filter (inRange start rangeEnd ·.1)) ↔
        inRange start rangeEnd key = true ∧
          ∃ value, (key, value, false) ∈ layer := by
    intro layer
    rw [mem_liveKeys, ← exists_and_left]
    simp only [List.mem_filter, and_comm]
  rw [rangeKeys, List.mem_append, List.mem_flatMap, List.mem_flatMap]
  simp only [listed]
  constructor
  · rintro (⟨memtable, member, asked, held⟩ | ⟨table, member, asked, held⟩)
    · exact ⟨asked, _, mem_layers_iff.mpr (Or.inl ⟨memtable, member, rfl⟩),
        held⟩
    · exact ⟨asked, _, mem_layers_iff.mpr (Or.inr ⟨table, member, rfl⟩),
        held⟩
  · rintro ⟨asked, layer, member, held⟩
    rcases mem_layers_iff.mp member with
      ⟨memtable, inTree, rfl⟩ | ⟨table, inTree, rfl⟩
    · exact Or.inl ⟨memtable, inTree, asked, held⟩
    · exact Or.inr ⟨table, inTree, asked, held⟩

theorem NoneDeleted.mem_rangeKeys_iff
    (noneDeleted : tree.NoneDeleted faults levelCount)
    {start rangeEnd key : String} :
    key ∈ tree.rangeKeys faults levelCount start rangeEnd ↔
      inRange start rangeEnd key = true ∧
        tree.LayersHold faults levelCount key := by
  rw [LsmTree.mem_rangeKeys_iff, LayersHold]
  apply and_congr_right
  intro _
  constructor
  · rintro ⟨layer, member, value, held⟩
    exact ⟨layer, member, _, held, rfl⟩
  · rintro ⟨layer, member, ⟨other, value, deleted⟩, held, rfl⟩
    have live : deleted = false := noneDeleted layer member _ held
    exact ⟨layer, member, value, live ▸ held⟩

end LsmTree

/-! ## The keys and the items of a range -/

theorem ListsKeys.unique
    {wanted : String → Prop} {keys keys' : List String}
    (lists : ListsKeys wanted keys) (lists' : ListsKeys wanted keys') :
    keys = keys' := by
  have ascending : Ascending id keys := lists.1
  apply ascending.eq_of_mem_iff lists'.1
  intro key
  rw [lists.2 key, lists'.2 key]

theorem listsKeys_of_listing
    {wanted : String → Prop} {value : String → Option Value}
    {items : List (String × Value)} (listing : Listing wanted value items) :
    ListsKeys (fun key => wanted key ∧ ∃ found, value key = some found)
      (items.map Prod.fst) := by
  apply And.intro (List.pairwise_map.mpr listing.ascending)
  intro key
  rw [List.mem_map]
  constructor
  · rintro ⟨⟨_, found⟩, member, rfl⟩
    have shown := (listing.mem_iff _ found).mp member
    exact ⟨shown.1, found, shown.2⟩
  · rintro ⟨isWanted, found, shown⟩
    exact ⟨(key, found), (listing.mem_iff key found).mpr ⟨isWanted, shown⟩,
      rfl⟩

section

variable {faults : ReadFaults} {levelCount : Nat} {tree : LsmTree}
variable {start rangeEnd : String}

/-- Without deletions both scans find the same keys. -/
theorem LsmTree.NoneDeleted.scans_agree
    (noneDeleted : tree.NoneDeleted faults levelCount)
    (wellFormed : ∀ table ∈ scanTables levelCount tree.levels,
      table.WellFormed)
    (opens : tree.Opens faults levelCount)
    (accepts : tree.Accepts start rangeEnd) :
    ∃ items, tree.scanRangeWithValues faults levelCount start rangeEnd =
        .ok items ∧
      tree.scanRange faults levelCount start rangeEnd =
        .ok (items.map Prod.fst) ∧
      ∀ key, key ∈ items.map Prod.fst ↔
        inRange start rangeEnd key = true ∧
          tree.LayersHold faults levelCount key := by
  rcases scanRangeWithValues_listing wellFormed opens accepts with
    ⟨items, scanned, listing⟩
  have listed := listsKeys_of_listing listing
  simp only [noneDeleted.overlaid_isSome_iff] at listed
  refine ⟨items, scanned, ?_, listed.2⟩
  rw [(scanRange_of_opens wellFormed opens accepts).1]
  exact congrArg Except.ok ((sortDedup_listsKeys fun _ =>
    noneDeleted.mem_rangeKeys_iff).unique listed)

theorem LsmTree.opens_of_scanRangeWithValues
    {items : List (String × Value)}
    (scanned : tree.scanRangeWithValues faults levelCount start rangeEnd =
      .ok items) :
    tree.Opens faults levelCount ∧ tree.Accepts start rangeEnd := by
  have answers : ∀ table ∈ scanTables levelCount tree.levels,
      ∃ layer, table.scanRangeLayer faults start rangeEnd = .ok layer := by
    intro table member
    cases failed : table.scanRangeLayer faults start rangeEnd with
    | ok layer => exact ⟨layer, rfl⟩
    | error failure =>
        rcases @mergeScan_error_table
          (·.scanRangeLayer faults start rangeEnd)
          (·.scanRangeLayer start rangeEnd) _ _ _ member _ failed with
          ⟨first, -, stopped⟩
        exact absurd (scanned.symm.trans stopped) (by simp)
  constructor
  · intro table member
    rcases answers table member with ⟨layer, answer⟩
    apply SSTable.opens_of_scanRange
    rw [SSTable.scanRange, answer, ok_bind]
    rfl
  · intro memtable member panics
    have failed : memtable.scanRangeLayer start rangeEnd =
        .error .panicked := by
      rw [Memtable.scanRangeLayer_eq, if_pos panics]
    rcases mergeScan_error_memtable (·.scanRangeLayer faults start rangeEnd)
      (·.scanRangeLayer start rangeEnd) member failed with
      ⟨first, -, stopped⟩
    exact absurd (scanned.symm.trans stopped) (by simp)

/-! ## The three operations -/

/-- The keys of a result with values. -/
def keysOf (result : Except ScanFailure (List (String × Value))) :
    Except ScanFailure (List String) :=
  result.map (·.map Prod.fst)

/-- What one of the range operations of the family returns, the others return
too. -/
structure FamilyRangesAgree (faults : ReadFaults) (levelCount : Nat)
    (families : List String) (tree : LsmTree)
    (start rangeEnd family : String) : Prop where
  values : ∀ keys,
    tree.scanRangeCf faults levelCount families start rangeEnd family =
        .ok keys ↔
      keysOf (tree.scanRangeWithValuesCf faults levelCount families start
        rangeEnd family) = .ok keys
  iterator : ∀ keys,
    tree.scanRangeCf faults levelCount families start rangeEnd family =
        .ok keys ↔
      keysOf (tree.iterRangeCf faults levelCount families start rangeEnd
        family) = .ok keys

/-- No key of the family is behind the end but below its bound. -/
def NoneBehindEnd (faults : ReadFaults) (levelCount : Nat) (tree : LsmTree)
    (start rangeEnd family : String) : Prop :=
  ∀ key, tree.LayersHold faults levelCount (familyKey family key) →
    behindEnd start rangeEnd key = false

variable {families : List String} {family : String}

/-- When everything is read, the three operations return the same keys but
for those that the iterator turns down. -/
theorem LsmTree.NoneDeleted.family_ranges
    (noneDeleted : tree.NoneDeleted faults levelCount)
    (wellFormed : ∀ table ∈ scanTables levelCount tree.levels,
      table.WellFormed)
    (registered : family ∈ families)
    (opens : tree.Opens faults levelCount)
    (accepts : tree.Accepts (familyKey family start)
      (familyEnd family rangeEnd)) :
    ∃ keys,
      tree.scanRangeCf faults levelCount families start rangeEnd family =
        .ok keys ∧
      keysOf (tree.scanRangeWithValuesCf faults levelCount families start
        rangeEnd family) = .ok keys ∧
      keysOf (tree.iterRangeCf faults levelCount families start rangeEnd
        family) = .ok (keys.filter (iterKeeps start rangeEnd)) ∧
      ∀ key, key ∈ keys ↔ inRange start rangeEnd key = true ∧
        tree.LayersHold faults levelCount (familyKey family key) := by
  rcases noneDeleted.scans_agree wellFormed opens accepts with
    ⟨items, valuesScanned, keysScanned, mem_iff⟩
  have starts : ∀ key ∈ items.map Prod.fst,
      startsWith key (family ++ "#") = true :=
    fun key member =>
      startsWith_front_of_inRange ((mem_iff key).mp member).1
  have values : tree.scanRangeWithValuesCf faults levelCount families start
      rangeEnd family = .ok (items.map fun item =>
        (dropFront (family ++ "#") item.1, item.2)) := by
    rw [scanRangeWithValuesCf, checkFamily_of_mem registered, ok_bind,
      valuesScanned, ok_bind, itemsWithoutFront_eq_map fun item member =>
        starts item.1 (List.mem_map_of_mem member)]
    rfl
  refine ⟨(items.map Prod.fst).map (dropFront (family ++ "#")), ?_, ?_, ?_,
    ?_⟩
  · rw [scanRangeCf, checkFamily_of_mem registered, ok_bind, keysScanned,
      ok_bind, withoutFront_eq_map starts]
    rfl
  · rw [values, keysOf, Except.map, List.map_map, List.map_map]
    rfl
  · rw [iterRangeCf, values, ok_bind, List.map_map, List.filter_map,
      List.filter_map]
    simp only [keysOf, Except.map, pure, Except.pure, List.map_map]
    rfl
  · intro key
    rw [← familyKey_empty] at starts ⊢
    rw [mem_map_dropFront starts, String.empty_append, mem_iff,
      inRange_familyKey]

theorem inRange_of_behindEnd
    {key : String} (behind : behindEnd start rangeEnd key = true) :
    inRange start rangeEnd key = true := by
  simp only [behindEnd, Bool.and_eq_true] at behind
  rcases behind with ⟨⟨⟨⟨-, above⟩, starts⟩, -⟩, apart⟩
  rw [inRange_eq, inClosedRange, throughEnd, above, starts, apart,
    Bool.or_true]
  rfl

theorem filter_iterKeeps_iff
    {keys : List String}
    (mem_iff : ∀ key, key ∈ keys ↔ inRange start rangeEnd key = true ∧
      tree.LayersHold faults levelCount (familyKey family key)) :
    keys.filter (LsmTree.iterKeeps start rangeEnd) = keys ↔
      NoneBehindEnd faults levelCount tree start rangeEnd family := by
  rw [List.filter_eq_self]
  constructor
  · intro kept key held
    cases behind : behindEnd start rangeEnd key with
    | false => rfl
    | true =>
        have asked := inRange_of_behindEnd behind
        have keeps := kept key ((mem_iff key).mpr ⟨asked, held⟩)
        rw [iterKeeps_of_inRange asked, behind] at keeps
        exact absurd keeps (by simp)
  · intro none key member
    have found := (mem_iff key).mp member
    rw [iterKeeps_of_inRange found.1, none key found.2]
    rfl

/-- An operation that returns has read everything. -/
theorem LsmTree.served_of_scanRangeCf
    {keys : List String}
    (scanned : tree.scanRangeCf faults levelCount families start rangeEnd
      family = .ok keys) :
    tree.Opens faults levelCount ∧
      tree.Accepts (familyKey family start) (familyEnd family rangeEnd) := by
  rcases exists_of_bind_ok scanned with ⟨_, -, asked⟩
  rcases exists_of_bind_ok asked with ⟨whole, physical, -⟩
  exact opens_of_scanRange physical

theorem LsmTree.served_of_scanRangeWithValuesCf
    {items : List (String × Value)}
    (scanned : tree.scanRangeWithValuesCf faults levelCount families start
      rangeEnd family = .ok items) :
    tree.Opens faults levelCount ∧
      tree.Accepts (familyKey family start) (familyEnd family rangeEnd) := by
  rcases exists_of_bind_ok scanned with ⟨_, -, asked⟩
  rcases exists_of_bind_ok asked with ⟨whole, physical, -⟩
  exact opens_of_scanRangeWithValues physical

/-- Where something is not read or refused, none of the operations
returns. -/
theorem familyRangesAgree_of_not_served
    (unserved : ¬ (tree.Opens faults levelCount ∧
      tree.Accepts (familyKey family start)
        (LsmTree.familyEnd family rangeEnd))) :
    FamilyRangesAgree faults levelCount families tree start rangeEnd
      family := by
  have keysFail : ∀ keys, ¬ tree.scanRangeCf faults levelCount families start
      rangeEnd family = .ok keys :=
    fun keys scanned => unserved (LsmTree.served_of_scanRangeCf scanned)
  cases values : tree.scanRangeWithValuesCf faults levelCount families start
      rangeEnd family with
  | ok items =>
      exact absurd (LsmTree.served_of_scanRangeWithValuesCf values) unserved
  | error failure =>
      constructor
      · intro keys
        rw [values]
        exact iff_of_false (keysFail keys) (by simp [keysOf, Except.map])
      · intro keys
        rw [LsmTree.iterRangeCf, values]
        exact iff_of_false (keysFail keys) (by simp [keysOf, Except.map])

/-- The three operations agree exactly when a file cannot be read, a memtable
refuses the range, or no key of the family is behind the end and below its
bound.  They all return the same keys when in addition everything is read and
nothing is refused. -/
theorem family_ranges_agree_iff
    (noneDeleted : tree.NoneDeleted faults levelCount)
    (wellFormed : ∀ table ∈ LsmTree.scanTables levelCount tree.levels,
      table.WellFormed)
    (registered : family ∈ families) (start rangeEnd : String) :
    (FamilyRangesAgree faults levelCount families tree start rangeEnd
        family ↔
      (tree.Opens faults levelCount →
        tree.Accepts (familyKey family start)
          (LsmTree.familyEnd family rangeEnd) →
        NoneBehindEnd faults levelCount tree start rangeEnd family)) ∧
    ((FamilyRangesAgree faults levelCount families tree start rangeEnd
          family ∧
        ∃ keys, tree.scanRangeCf faults levelCount families start rangeEnd
          family = .ok keys) ↔
      tree.Opens faults levelCount ∧
        tree.Accepts (familyKey family start)
          (LsmTree.familyEnd family rangeEnd) ∧
        NoneBehindEnd faults levelCount tree start rangeEnd family) := by
  have served : tree.Opens faults levelCount →
      tree.Accepts (familyKey family start)
        (LsmTree.familyEnd family rangeEnd) →
      (FamilyRangesAgree faults levelCount families tree start rangeEnd
          family ↔
        NoneBehindEnd faults levelCount tree start rangeEnd family) ∧
      ∃ keys, tree.scanRangeCf faults levelCount families start rangeEnd
        family = .ok keys := by
    intro opens accepts
    rcases noneDeleted.family_ranges wellFormed registered opens accepts with
      ⟨keys, keysScanned, values, iterated, mem_iff⟩
    refine ⟨?_, keys, keysScanned⟩
    rw [← filter_iterKeeps_iff mem_iff]
    constructor
    · intro agree
      have same := (agree.iterator keys).mp keysScanned
      exact Except.ok.inj (iterated.symm.trans same)
    · intro kept
      rw [kept] at iterated
      constructor
      · intro other
        rw [keysScanned, values]
      · intro other
        rw [keysScanned, iterated]
  constructor
  · constructor
    · exact fun agree opens accepts => (served opens accepts).1.mp agree
    · intro none
      by_cases both : tree.Opens faults levelCount ∧
          tree.Accepts (familyKey family start)
            (LsmTree.familyEnd family rangeEnd)
      · exact (served both.1 both.2).1.mpr (none both.1 both.2)
      · exact familyRangesAgree_of_not_served both
  · constructor
    · rintro ⟨agree, keys, scanned⟩
      rcases LsmTree.served_of_scanRangeCf scanned with ⟨opens, accepts⟩
      exact ⟨opens, accepts, (served opens accepts).1.mp agree⟩
    · rintro ⟨opens, accepts, none⟩
      exact ⟨(served opens accepts).1.mpr none, (served opens accepts).2⟩

end

/-! ## An end with a longer key behind it -/

/-- A put of `a` and a put of `ab` into the family `f`. -/
def longerKey : LsmTree := putTrue (putTrue .empty "f#a") "f#ab"

theorem longerKey_noneDeleted : longerKey.NoneDeleted .none 7 := by
  unfold LsmTree.NoneDeleted
  decide

/-- A range through `b` finds the same keys in all three ways. -/
theorem range_through_b_agrees :
    FamilyRangesAgree .none 7 ["f"] longerKey "" "b" "f" := by
  have noTable : ∀ table ∈ LsmTree.scanTables 7 longerKey.levels,
      table.WellFormed := fun table member => absurd member List.not_mem_nil
  apply (family_ranges_agree_iff longerKey_noneDeleted noTable
    (List.mem_singleton.mpr rfl) "" "b").1.mpr
  rintro - - key ⟨layer, member, entry, held, same⟩
  have layered : layer = longerKey.active.getAllEntries :=
    List.mem_singleton.mp member
  rw [layered] at held
  have keys : ∀ entry ∈ longerKey.active.getAllEntries,
      entry.1 = familyKey "f" "a" ∨ entry.1 = familyKey "f" "ab" := by decide
  rcases keys entry held with first | second
  · rw [← familyKey_injective (first.symm.trans same)]
    decide
  · rw [← familyKey_injective (second.symm.trans same)]
    decide

/-- A range through `a` finds `ab` too, but for the iterator. -/
theorem range_through_a_disagrees :
    longerKey.scanRangeCf .none 7 ["f"] "" "a" "f" = .ok ["a", "ab"] ∧
      keysOf (longerKey.iterRangeCf .none 7 ["f"] "" "a" "f") = .ok ["a"] ∧
      ¬ FamilyRangesAgree .none 7 ["f"] longerKey "" "a" "f" := by
  have scanned : longerKey.scanRangeCf .none 7 ["f"] "" "a" "f" =
      .ok ["a", "ab"] := rfl
  have iterated : keysOf (longerKey.iterRangeCf .none 7 ["f"] "" "a" "f") =
      .ok ["a"] := rfl
  refine ⟨scanned, iterated, ?_⟩
  intro agree
  have same := (agree.iterator _).mp scanned
  rw [iterated] at same
  exact absurd (Except.ok.inj same) (by decide)

end F4kvsLsm
