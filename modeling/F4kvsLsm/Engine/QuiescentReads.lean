import F4kvsLsm.Compaction.Manual

/-!
# Reads of tables between operations

A read takes the newest version of a key in level 0, and without one the
version in level 1.  The same holds of a read that sees only some of the
versions, as long as it looks into the same tables.
-/

namespace F4kvsLsm

open Versions

/-! ## Some of the versions -/

/-- The entries of the tables that `keep` admits. -/
def entriesWhere (keep : SSTable → SSTableEntry → Bool)
    (files : List SSTable) : List SSTableEntry :=
  files.flatMap fun table => table.entries.filter (keep table)

/-- The entry of the key, when it is admitted. -/
def SSTable.hitWhere (keep : SSTable → SSTableEntry → Bool) (key : String)
    (table : SSTable) : Option SSTableEntry :=
  (table.lookup key).filter (keep table)

/-- The version that a read takes when it sees the admitted versions. -/
def versionWhere (keep : SSTable → SSTableEntry → Bool)
    (levels : Nat → List SSTable) (key : String) : Option SSTableEntry :=
  (latest (entriesWhere keep (levels 0)) key).or
    (latest (entriesWhere keep (levels 1)) key)

def everyVersion (_ : SSTable) (_ : SSTableEntry) : Bool := true

section

variable {keep : SSTable → SSTableEntry → Bool} {files : List SSTable}
variable {key : String} {entry : SSTableEntry}

theorem mem_entriesWhere :
    entry ∈ entriesWhere keep files ↔
      ∃ table ∈ files, entry ∈ table.entries ∧ keep table entry = true := by
  simp [entriesWhere]

theorem entriesWhere_sub (member : entry ∈ entriesWhere keep files) :
    entry ∈ allEntries files := by
  rcases mem_entriesWhere.mp member with ⟨table, inFiles, inTable, -⟩
  exact mem_allEntries.mpr ⟨table, inFiles, inTable⟩

theorem SSTable.hitWhere_everyVersion (key : String) (table : SSTable) :
    table.hitWhere everyVersion key = table.lookup key := by
  rw [SSTable.hitWhere]
  cases table.lookup key <;> rfl

theorem SSTable.WellFormed.hitWhere_eq_some_iff
    {table : SSTable} (wellFormed : table.WellFormed) :
    table.hitWhere keep key = some entry ↔
      (entry ∈ table.entries ∧ keep table entry = true) ∧
        entry.key = key := by
  rw [SSTable.hitWhere, Option.filter_eq_some_iff,
    wellFormed.lookup_eq_some_iff, and_right_comm]

theorem mem_hits (wellFormed : ∀ table ∈ files, table.WellFormed) :
    entry ∈ files.filterMap (·.hitWhere keep key) ↔
      entry ∈ entriesWhere keep files ∧ entry.key = key := by
  rw [List.mem_filterMap, mem_entriesWhere]
  constructor
  · rintro ⟨table, member, hit⟩
    have held := (wellFormed table member).hitWhere_eq_some_iff.mp hit
    exact ⟨⟨table, member, held.1⟩, held.2⟩
  · rintro ⟨⟨table, member, held⟩, sameKey⟩
    exact ⟨table, member,
      (wellFormed table member).hitWhere_eq_some_iff.mpr ⟨held, sameKey⟩⟩

theorem newest_hits
    (wellFormed : ∀ table ∈ files, table.WellFormed)
    (distinct : DistinctVersions (allEntries files)) :
    newest SSTableEntry.timestamp (files.filterMap (·.hitWhere keep key)) =
      latest (entriesWhere keep files) key := by
  apply newest_congr
  · exact (distinct.mono fun entry => entriesWhere_sub).versionsOf key
  · intro version
    rw [mem_hits wellFormed, mem_versionsOf]

/-! ## Levels without overlaps -/

theorem Leveled.latest_eq_some_iff (leveled : Leveled files) :
    latest (entriesWhere keep files) key = some entry ↔
      entry ∈ entriesWhere keep files ∧ entry.key = key := by
  have distinct : DistinctVersions (entriesWhere keep files) := by
    intro first firstMember second secondMember sameKey _
    exact leveled.eq_of_key_eq (entriesWhere_sub firstMember)
      (entriesWhere_sub secondMember) sameKey
  rw [F4kvsLsm.latest_eq_some_iff distinct]
  constructor
  · exact fun found => found.1
  · intro held
    refine ⟨held, fun other member sameKey => ?_⟩
    have same := leveled.eq_of_key_eq (entriesWhere_sub member)
      (entriesWhere_sub held.1) (sameKey.trans held.2.symm)
    rw [same]

/-- One table at most shows a version. -/
theorem Leveled.head?_hits (leveled : Leveled files) :
    (files.filterMap (·.hitWhere keep key)).head? =
      latest (entriesWhere keep files) key := by
  apply Option.ext
  intro entry
  rw [leveled.latest_eq_some_iff]
  constructor
  · intro found
    exact (mem_hits leveled.wellFormed).mp (List.mem_of_head? found)
  · intro held
    have hit := (mem_hits leveled.wellFormed).mpr held
    cases first : (files.filterMap (·.hitWhere keep key)).head? with
    | none =>
        rw [List.head?_eq_none_iff] at first
        rw [first] at hit
        exact absurd hit List.not_mem_nil
    | some other =>
        have otherHeld := (mem_hits leveled.wellFormed).mp
          (List.mem_of_head? first)
        rw [leveled.eq_of_key_eq (entriesWhere_sub otherHeld.1)
          (entriesWhere_sub held.1) (otherHeld.2.trans held.2.symm)]

theorem Leveled.table_eq (leveled : Leveled files) {first second : SSTable}
    (firstMember : first ∈ files) (secondMember : second ∈ files)
    (inFirst : entry ∈ first.entries) (inSecond : entry ∈ second.entries) :
    first = second := by
  by_contra different
  have largest := leveled.largest_lt_of_le firstMember secondMember different
    inFirst inSecond le_rfl
  have within := (leveled.wellFormed first firstMember).le_largestKey inFirst
  exact absurd within largest.not_ge

/-- The search by the largest keys comes to the table that shows a version. -/
theorem Leveled.find_hit (leveled : Leveled files) :
    (findSstableForKey files key).bind (·.hitWhere keep key) =
      latest (entriesWhere keep files) key := by
  apply Option.ext
  intro entry
  rw [leveled.latest_eq_some_iff, Option.bind_eq_some_iff]
  constructor
  · rintro ⟨table, found, hit⟩
    have member := findSstableForKey_mem found
    have held :=
      (leveled.wellFormed table member).hitWhere_eq_some_iff.mp hit
    exact ⟨mem_entriesWhere.mpr ⟨table, member, held.1⟩, held.2⟩
  · rintro ⟨member, sameKey⟩
    have search := (leveled.getFromLevel_eq_some_iff 0).mpr
      ⟨entriesWhere_sub member, sameKey⟩
    rcases Option.bind_eq_some_iff.mp search with ⟨table, found, hit⟩
    have tableMember := findSstableForKey_mem found
    have whole := leveled.wellFormed table tableMember
    have held := whole.lookup_eq_some_iff.mp hit
    rcases mem_entriesWhere.mp member with ⟨other, inFiles, inOther, kept⟩
    rw [leveled.table_eq inFiles tableMember inOther held.1] at kept
    exact ⟨table, found,
      whole.hitWhere_eq_some_iff.mpr ⟨⟨held.1, kept⟩, sameKey⟩⟩

end

/-! ## Quiescent tables -/

/-- Tables between operations: level 0 may overlap, level 1 does not, and
there are no others. -/
structure QuiescentTables (levelCount : Nat) (levels : Nat → List SSTable) :
    Prop where
  level0 : ∀ table ∈ levels 0, table.WellFormed
  distinct : DistinctVersions (allEntries (levels 0))
  level1 : Leveled (levels 1)
  above : ∀ level, levels (level + 2) = []
  configured : ∀ level, levelCount ≤ level → levels level = []

theorem LsmTree.Invariant.quiescentTables
    {config : CompactionConfig} {tree : LsmTree}
    (invariant : tree.Invariant config) (levels : 0 < config.levelCount) :
    QuiescentTables config.levelCount tree.levels where
  level0 := invariant.level0
  distinct := invariant.distinct
  level1 := invariant.level1
  above := invariant.above
  configured := by
    intro level below
    match level with
    | 0 => omega
    | 1 => exact invariant.single (by omega)
    | level + 2 => exact invariant.above level

theorem findSome?_levels {α : Type} {levelCount : Nat}
    {found : Nat → Option α} (above : ∀ level, found (level + 2) = none)
    (configured : ∀ level, levelCount ≤ level → found level = none) :
    (List.range levelCount).findSome? found = (found 0).or (found 1) := by
  have deep : ∀ count, (List.range count).findSome?
      (fun level => found (level + 2)) = none := by
    intro count
    apply List.findSome?_eq_none_iff.mpr
    exact fun level _ => above level
  cases levelCount with
  | zero =>
      rw [configured 0 (Nat.zero_le 0), configured 1 (Nat.zero_le 1)]
      rfl
  | succ count =>
      rw [List.range_succ_eq_map, List.findSome?_cons, List.findSome?_map]
      cases count with
      | zero =>
          rw [configured 1 le_rfl]
          cases found 0 <;> rfl
      | succ count =>
          rw [List.range_succ_eq_map, List.findSome?_cons,
            List.findSome?_map]
          have below := deep count
          simp only [Function.comp_def] at below ⊢
          rw [below]
          cases found 0 with
          | some _ => rfl
          | none => cases found 1 <;> rfl

section

variable {levelCount : Nat} {levels : Nat → List SSTable}

/-- A read takes the newest version of level 0, and without one the version of
level 1. -/
theorem QuiescentTables.getFromSstables_eq
    (quiescent : QuiescentTables levelCount levels) (key : String) :
    getFromSstables levelCount levels key =
      (versionWhere everyVersion levels key).bind SSTableEntry.visible := by
  have hits : (fun table : SSTable => table.lookup key) =
      (·.hitWhere everyVersion key) := by
    funext table
    exact (table.hitWhere_everyVersion key).symm
  rw [getFromSstables, findSome?_levels]
  · rw [versionWhere, ← newest_hits quiescent.level0 quiescent.distinct,
      ← quiescent.level1.find_hit, ← hits]
    rw [getFromLevel, getFromLevel0,
      filterMap_of_outside fun _ => SSTable.lookup_outside]
    rfl
  · intro level
    rw [quiescent.above level, getFromLevel_succ_nil]
  · intro level below
    rw [quiescent.configured level below]
    cases level <;> rfl

end

/-! ## Reads with memtables -/

theorem memtableValue_eq_none_of_not_held
    {memtables : List Memtable} {key : String}
    (missing : ¬ ∃ memtable ∈ memtables, ∃ value,
      memtable.data[key]? = some value) :
    memtableValue memtables key = none := by
  apply List.findSome?_eq_none_iff.mpr
  intro memtable member
  cases held : memtable.data[key]? with
  | none => rfl
  | some value => exact absurd ⟨memtable, member, value, held⟩ missing

/-- What a read shows that sees the admitted versions. -/
def LsmTree.shownWhere (keep : SSTable → SSTableEntry → Bool)
    (tree : LsmTree) (key : String) : Option Value :=
  match memtableValue (tree.active :: tree.immutables) key with
  | some value => value.visible
  | none =>
      (versionWhere keep tree.levels key).bind SSTableEntry.visible

theorem QuiescentTables.get_eq {levelCount : Nat} {tree : LsmTree}
    (quiescent : QuiescentTables levelCount tree.levels) (key : String) :
    tree.get levelCount key = tree.shownWhere everyVersion key := by
  cases found : memtableValue (tree.active :: tree.immutables) key <;>
    simp only [LsmTree.get_eq, LsmTree.shownWhere, found,
      quiescent.getFromSstables_eq]

/-- Through the lookups of the memtables. -/
theorem LsmTree.shownWhere_eq (keep : SSTable → SSTableEntry → Bool)
    (tree : LsmTree) (key : String) :
    tree.shownWhere keep key =
      match getFromMemtables (tree.active :: tree.immutables) key with
      | .found value => some value
      | .tombstone => none
      | .missing =>
          (versionWhere keep tree.levels key).bind
            SSTableEntry.visible := by
  rw [LsmTree.shownWhere, getFromMemtables_eq]
  cases memtableValue (tree.active :: tree.immutables) key with
  | none => rfl
  | some value => cases value <;> rfl

end F4kvsLsm
