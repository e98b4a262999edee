import F4kvsLsm.Engine.KeyScans
import F4kvsLsm.Engine.FamilyIsolation

/-!
# The prefix scans of a family

The prefix scans of a family take off the returned keys not only the front of
the family but the prefix that was asked for, too.  What they return can be
passed back to a read only when the prefix is empty.
-/

namespace F4kvsLsm

open KeyOrder

/-! ## Keys that are one prefix too short -/

theorem startsWith_prefix_iff {keyPrefix key : String} :
    startsWith key keyPrefix = true ↔ ∃ rest, key = keyPrefix ++ rest := by
  rw [startsWith_iff]
  constructor
  · rintro ⟨rest, whole⟩
    refine ⟨String.ofList rest, ?_⟩
    rw [← String.toList_inj, String.toList_append, String.toList_ofList,
      whole]
  · rintro ⟨rest, rfl⟩
    rw [String.toList_append]
    exact List.prefix_append _ _

/-- When a key can be found only where the key one prefix shorter is, there
is none. -/
theorem not_of_shorter
    {keyPrefix : String} (nonempty : keyPrefix ≠ "")
    {found : String → Prop}
    (shorter : ∀ rest, found rest → ∃ rest', rest = keyPrefix ++ rest' ∧
      found rest') (rest : String) : ¬ found rest := by
  have long : 0 < keyPrefix.toList.length := by
    rw [List.length_pos_iff, ne_eq, String.toList_eq_nil_iff]
    exact nonempty
  induction size : rest.toList.length using Nat.strong_induction_on
    generalizing rest with
  | _ size inductionHypothesis =>
      intro here
      rcases shorter rest here with ⟨rest', rfl, inside⟩
      apply inductionHypothesis rest'.toList.length _ rest' rfl inside
      rw [← size, String.toList_append, List.length_append]
      omega

section

variable {config : CompactionConfig} {tree : LsmTree}

theorem scanPrefixCf_listsKeys
    (invariant : tree.Invariant config) {families : List String}
    {family : String} (created : family ∈ families) (keyPrefix : String) :
    ∃ keys, tree.scanPrefixCf .none config.levelCount families keyPrefix
        family = .ok keys ∧
      ListsKeys (fun rest =>
        tree.MemtableHolds (familyKey family (keyPrefix ++ rest)) ∨
          tree.TableHolds config.levelCount
            (familyKey family (keyPrefix ++ rest))) keys := by
  rcases scanPrefix_listsKeys invariant (familyKey family keyPrefix) with
    ⟨keys, scanned, ascending, mem_iff⟩
  have starts : ∀ key ∈ keys,
      startsWith key (familyKey family keyPrefix) = true :=
    fun key member => ((mem_iff key).mp member).1
  refine ⟨keys.map (dropFront (familyKey family keyPrefix)), ?_, ?_, ?_⟩
  · rw [LsmTree.scanPrefixCf, checkFamily_of_mem created, ok_bind, scanned,
      ok_bind, withoutFront_eq_map starts]
    rfl
  · apply List.pairwise_map.mpr
    apply ascending.imp_of_mem
    intro first second firstMember secondMember less
    exact dropFront_lt_dropFront (starts first firstMember)
      (starts second secondMember) less
  · intro rest
    rw [mem_map_dropFront starts, mem_iff]
    exact and_iff_right (startsWith_familyKey family keyPrefix rest)

theorem scanPrefixWithValuesCf_listing
    (invariant : tree.Invariant config) {families : List String}
    {family : String} (created : family ∈ families) (keyPrefix : String) :
    ∃ items, tree.scanPrefixWithValuesCf .none config.levelCount families
        keyPrefix family = .ok items ∧
      Listing (fun _ => True)
        (fun rest => tree.overlaid .none config.levelCount
          (familyKey family (keyPrefix ++ rest))) items := by
  rcases scanPrefixWithValues_listing invariant
    (familyKey family keyPrefix) with ⟨items, scanned, listing⟩
  refine ⟨_, ?_, itemsWithoutFront_listing listing⟩
  rw [LsmTree.scanPrefixWithValuesCf, checkFamily_of_mem created, ok_bind,
    scanned]
  rfl

/-! ## What reads of the family say -/

/-- `get_cf`, where it finds something. -/
def LsmTree.valueCf (levelCount : Nat) (families : List String)
    (tree : LsmTree) (family key : String) : Option Value :=
  (tree.getCfChecked levelCount families key family).toOption.join

theorem LsmTree.valueCf_eq
    (readsBack : ∀ level, ∀ table ∈ tree.levels level, table.ReadsBack)
    {families : List String} {family : String} (created : family ∈ families)
    (levelCount : Nat) (key : String) :
    tree.valueCf levelCount families family key =
      tree.get levelCount (familyKey family key) := by
  rw [valueCf, getCfChecked, checkFamily_of_mem created,
    LsmTree.getChecked_eq readsBack]
  rfl

/-- Some layer holds the key, in a memtable with a value. -/
def LsmTree.Held (levelCount : Nat) (tree : LsmTree) (key : String) : Prop :=
  tree.MemtableHolds key ∨ tree.TableHolds levelCount key

theorem LsmTree.Invariant.held_of_live
    (invariant : tree.Invariant config) {key : String}
    (live : (tree.get config.levelCount key).isSome = true) :
    tree.Held config.levelCount key :=
  (invariant.holdsLive_of_get live).imp_right TableHoldsLive.tableHolds

/-- The key scan: it is right for an empty prefix and no deleted key left
behind, or when there is nothing with the prefix. -/
theorem scanPrefixCf_correct_iff
    (invariant : tree.Invariant config)
    (readsBack : ∀ level, ∀ table ∈ tree.levels level, table.ReadsBack)
    {families : List String}
    {family : String} (created : family ∈ families) (keyPrefix : String) :
    (∃ keys, tree.scanPrefixCf .none config.levelCount families keyPrefix
        family = .ok keys ∧
      ListsKeys (fun key => startsWith key keyPrefix = true ∧
        (tree.valueCf config.levelCount families family key).isSome = true)
          keys) ↔
      (keyPrefix = "" ∧ ∀ key,
        tree.LastDeleted config.levelCount (familyKey family key) →
          ¬ tree.Held config.levelCount (familyKey family key)) ∨
      ∀ key, startsWith key keyPrefix = true →
        ¬ tree.Held config.levelCount (familyKey family key) := by
  simp only [LsmTree.valueCf_eq readsBack created]
  apply (listsKeys_correct_iff
    (scanPrefixCf_listsKeys invariant created keyPrefix)).trans
  have live := fun key => @LsmTree.Invariant.held_of_live config tree
    invariant (familyKey family key)
  constructor
  · intro same
    by_cases empty : keyPrefix = ""
    · left
      subst empty
      refine ⟨rfl, fun key deleted held => ?_⟩
      have shown := ((same key).mp (by rwa [String.empty_append])).2
      rw [deleted.get invariant] at shown
      exact absurd shown (by simp)
    · right
      intro key starts
      rcases startsWith_prefix_iff.mp starts with ⟨rest, rfl⟩
      apply @not_of_shorter _ empty fun rest =>
        tree.Held config.levelCount (familyKey family (keyPrefix ++ rest))
      intro rest held
      rcases (same rest).mp held with ⟨longer, shown⟩
      rcases startsWith_prefix_iff.mp longer with ⟨rest', rfl⟩
      exact ⟨rest', rfl, live _ shown⟩
  · rintro (⟨rfl, clean⟩ | nothing) rest
    · rw [String.empty_append, startsWith_empty]
      constructor
      · intro held
        exact ⟨rfl, invariant.get_of_held held fun deleted =>
          clean rest deleted held⟩
      · exact fun shown => live rest shown.2
    · constructor
      · intro held
        exact absurd held (nothing _ (startsWith_prefix_iff.mpr ⟨rest, rfl⟩))
      · exact fun shown => absurd (live rest shown.2) (nothing rest shown.1)

/-- Every key with the prefix reads in the order of the scans as the key one
prefix shorter reads, if that has the prefix, and else as nothing. -/
def LsmTree.ReadsShifted (levelCount : Nat) (tree : LsmTree)
    (family keyPrefix : String) : Prop :=
  ∀ rest, tree.overlaid .none levelCount
      (familyKey family (keyPrefix ++ rest)) =
    if startsWith rest keyPrefix = true then
      tree.get levelCount (familyKey family rest)
    else none

theorem shifted_empty_iff
    (invariant : tree.Invariant config) (family : String) :
    tree.ReadsShifted config.levelCount family "" ↔
      ∀ key, tree.ScanOrderAgrees config.levelCount
        (familyKey family key) := by
  apply forall_congr'
  intro key
  rw [String.empty_append, if_pos (startsWith_empty key),
    invariant.overlaid_eq_get_iff]

theorem scanPrefixWithValuesCf_correct_iff
    (invariant : tree.Invariant config)
    (readsBack : ∀ level, ∀ table ∈ tree.levels level, table.ReadsBack)
    {families : List String}
    {family : String} (created : family ∈ families) (keyPrefix : String) :
    (∃ items, tree.scanPrefixWithValuesCf .none config.levelCount families
        keyPrefix family = .ok items ∧
      Listing (fun key => startsWith key keyPrefix = true)
        (tree.valueCf config.levelCount families family) items) ↔
      tree.ReadsShifted config.levelCount family keyPrefix := by
  rcases scanPrefixWithValuesCf_listing invariant created keyPrefix with
    ⟨items, scanned, listing⟩
  have reads : tree.valueCf config.levelCount families family =
      fun key => tree.get config.levelCount (familyKey family key) :=
    funext (LsmTree.valueCf_eq readsBack created config.levelCount)
  have shifted : Listing (fun key => startsWith key keyPrefix = true)
      (fun key => tree.get config.levelCount (familyKey family key)) items ↔
        tree.ReadsShifted config.levelCount family keyPrefix := by
    apply listing.iff_same_values.trans
    apply forall_congr'
    intro rest
    constructor
    · intro same
      apply Option.ext
      intro found
      by_cases longer : startsWith rest keyPrefix = true
      · rw [if_pos longer]
        simpa [longer] using same found
      · rw [if_neg longer]
        simpa [longer] using same found
    · intro same found
      rw [same]
      by_cases longer : startsWith rest keyPrefix = true
      · simp [longer]
      · simp [longer]
  rw [← shifted, reads]
  constructor
  · rintro ⟨items', success, listing'⟩
    rw [scanned, Except.ok.injEq] at success
    rwa [success]
  · exact fun listed => ⟨items, scanned, listed⟩

/-- Where the scans read a key as reads do, only an empty prefix or a prefix
without live keys is shifted onto itself. -/
theorem shifted_iff_nothing
    (invariant : tree.Invariant config) {family keyPrefix : String}
    (nonempty : keyPrefix ≠ "")
    (agrees : ∀ key, startsWith key keyPrefix = true →
      tree.ScanOrderAgrees config.levelCount (familyKey family key)) :
    tree.ReadsShifted config.levelCount family keyPrefix ↔
      ∀ key, startsWith key keyPrefix = true →
        tree.get config.levelCount (familyKey family key) = none := by
  have read : ∀ rest, tree.overlaid .none config.levelCount
      (familyKey family (keyPrefix ++ rest)) =
        tree.get config.levelCount (familyKey family (keyPrefix ++ rest)) :=
    fun rest => (invariant.overlaid_eq_get_iff _).mpr
      (agrees _ (startsWith_prefix_iff.mpr ⟨rest, rfl⟩))
  constructor
  · intro shifted key starts
    rcases startsWith_prefix_iff.mp starts with ⟨rest, rfl⟩
    rw [← Option.not_isSome_iff_eq_none]
    apply @not_of_shorter _ nonempty fun rest =>
      (tree.get config.levelCount
        (familyKey family (keyPrefix ++ rest))).isSome = true
    intro rest live
    rw [← read rest, shifted rest] at live
    by_cases longer : startsWith rest keyPrefix = true
    · rcases startsWith_prefix_iff.mp longer with ⟨rest', rfl⟩
      rw [if_pos longer] at live
      exact ⟨rest', rfl, live⟩
    · rw [if_neg longer] at live
      exact absurd live (by simp)
  · intro nothing rest
    rw [read rest, nothing _ (startsWith_prefix_iff.mpr ⟨rest, rfl⟩)]
    by_cases longer : startsWith rest keyPrefix = true
    · rw [if_pos longer, nothing rest longer]
    · rw [if_neg longer]

end

/-- Both prefix scans of a family return the keys and the values of reads
exactly when the prefix is empty and the scan of the family is right, or when
the prefix finds nothing; the scan with values also when the orders of the
scans and of reads disagree in such a way that the keys one prefix shorter
fit. -/
theorem family_prefix_scans_iff
    (config : CompactionConfig) {tree : LsmTree}
    (invariant : tree.Invariant config)
    (readsBack : ∀ level, ∀ table ∈ tree.levels level, table.ReadsBack)
    {families : List String}
    {family : String} (created : family ∈ families) (keyPrefix : String) :
    ((∃ keys, tree.scanPrefixCf .records config.levelCount families keyPrefix
          family = .ok keys ∧
        ListsKeys (fun key => startsWith key keyPrefix = true ∧
          (tree.valueCf config.levelCount families family key).isSome = true)
            keys) ↔
      (keyPrefix = "" ∧ ∀ key,
        tree.LastDeleted config.levelCount (familyKey family key) →
          ¬ tree.Held config.levelCount (familyKey family key)) ∨
      ∀ key, startsWith key keyPrefix = true →
        ¬ tree.Held config.levelCount (familyKey family key)) ∧
    ((∃ items, tree.scanPrefixWithValuesCf .records config.levelCount families
          keyPrefix family = .ok items ∧
        Listing (fun key => startsWith key keyPrefix = true)
          (tree.valueCf config.levelCount families family) items) ↔
      (keyPrefix = "" ∧ ∀ key, tree.ScanOrderAgrees config.levelCount
        (familyKey family key)) ∨
      (keyPrefix ≠ "" ∧
        tree.ReadsShifted config.levelCount family keyPrefix)) ∧
    (keyPrefix ≠ "" →
      (∀ key, startsWith key keyPrefix = true →
        tree.ScanOrderAgrees config.levelCount (familyKey family key)) →
      (tree.ReadsShifted config.levelCount family keyPrefix ↔
        ∀ key, startsWith key keyPrefix = true →
          tree.getChecked config.levelCount (familyKey family key) =
            none)) := by
  simp only [LsmTree.scanPrefixCf_records,
    LsmTree.scanPrefixWithValuesCf_records readsBack,
    LsmTree.getChecked_eq readsBack]
  refine ⟨scanPrefixCf_correct_iff invariant readsBack created keyPrefix, ?_,
    fun nonempty agrees => shifted_iff_nothing invariant nonempty agrees⟩
  rw [scanPrefixWithValuesCf_correct_iff invariant readsBack created]
  by_cases empty : keyPrefix = ""
  · rw [empty, shifted_empty_iff invariant]
    simp
  · simp [empty]

/-! ## One key behind a prefix -/

/-- The family `f` with the key `a`. -/
def familyOfOne : LsmTree := putTrue .empty "f#a"

theorem familyOfOne_run : ManualRun leveledConfig familyOfOne :=
  ManualRun.empty.put "f#a" (.bool true) ⟨rfl, by decide⟩

/-- With the empty prefix both scans find the key. -/
theorem empty_prefix_finds_key :
    (∃ keys, familyOfOne.scanPrefixCf .records 7 ["f"] "" "f" = .ok keys ∧
      ListsKeys (fun key => startsWith key "" = true ∧
        (familyOfOne.valueCf 7 ["f"] "f" key).isSome = true) keys) ∧
    ∃ items, familyOfOne.scanPrefixWithValuesCf .records 7 ["f"] "" "f" =
        .ok items ∧
      Listing (fun key => startsWith key "" = true)
        (familyOfOne.valueCf 7 ["f"] "f") items := by
  have scans := family_prefix_scans_iff leveledConfig
    familyOfOne_run.invariant familyOfOne_run.readsBack.tables
    (List.mem_singleton_self "f") ""
  have noEntry : ∀ key,
      latest (allEntries (LsmTree.scanTables 7 familyOfOne.levels)) key =
        none := fun key => rfl
  constructor
  · apply scans.1.mpr
    left
    refine ⟨rfl, fun key deleted => ?_⟩
    rw [LsmTree.LastDeleted] at deleted
    cases held : memtableValue (familyOfOne.active ::
        familyOfOne.immutables) (familyKey "f" key) with
    | none =>
        rw [held] at deleted
        rcases deleted with ⟨entry, newest, -⟩
        exact absurd ((noEntry _).symm.trans newest) (by simp)
    | some value =>
        rw [held] at deleted
        rcases memtableValue_mem held with ⟨memtable, member, found⟩
        rw [List.mem_singleton.mp member, familyOfOne, putTrue, LsmTree.put,
          Memtable.put_get] at found
        split at found
        · simp only [← Option.some.inj found] at deleted
          exact absurd deleted (by decide)
        · exact absurd ((Memtable.new_get _).symm.trans found) (by simp)
  · apply scans.2.1.mpr
    left
    refine ⟨rfl, fun key => ⟨?_, ?_⟩⟩
    · intro _ oldest _ found
      exact absurd found (by simp [memtableValue, familyOfOne, putTrue,
        LsmTree.put, LsmTree.empty])
    · intro _
      rfl

/-- With the prefix `a` both scans return the empty key, which a read of the
family does not find. -/
theorem prefix_is_taken_off :
    ManualRun leveledConfig familyOfOne ∧
      familyOfOne.scanPrefixCf .records 7 ["f"] "a" "f" = .ok [""] ∧
      familyOfOne.scanPrefixWithValuesCf .records 7 ["f"] "a" "f" =
        .ok [("", .bool true)] ∧
      familyOfOne.getCfChecked 7 ["f"] "a" "f" = .ok (some (.bool true)) ∧
      familyOfOne.getCfChecked 7 ["f"] "" "f" = .ok none ∧
      ¬ ∃ keys, familyOfOne.scanPrefixCf .records 7 ["f"] "a" "f" = .ok keys ∧
        ListsKeys (fun key => startsWith key "a" = true ∧
          (familyOfOne.valueCf 7 ["f"] "f" key).isSome = true) keys := by
  have scanned : familyOfOne.scanPrefixCf .records 7 ["f"] "a" "f" = .ok [""] :=
    rfl
  refine ⟨familyOfOne_run, scanned, rfl, rfl, rfl, ?_⟩
  rintro ⟨keys, same, lists⟩
  rw [scanned] at same
  have shown := (lists.2 "").mp (by rw [← Except.ok.inj same]; simp)
  exact absurd shown.1 (by decide)

end F4kvsLsm
