import F4kvsLsm.Engine.PrefixScanYields
import F4kvsLsm.Engine.ScanReads

/-!
# Reads of tables that cannot all be read

A lookup of a table fails when the index or the block of the entry cannot be
read.  The reads differ in what they make of it: one logs the failure and goes
on with the other tables, one returns it, a prefix scan never sees a table
without an index, and a value scan leaves out the entry.
-/

namespace F4kvsLsm

open KeyOrder Overlay Cursors Versions

/-! ## Which versions they see -/

/-- A read sees the versions whose index and block can be read. -/
def readableVersion (faults : ReadFaults) (table : SSTable)
    (entry : SSTableEntry) : Bool :=
  (faults.index table).isNone && (faults.block table entry).isNone

section

variable {faults : ReadFaults} {key : String}

theorem SSTable.lookupLogged_eq (table : SSTable) :
    table.lookupLogged faults key =
      table.hitWhere (readableVersion faults) key := by
  rw [SSTable.lookupLogged, SSTable.lookupPinned, SSTable.lookupSync,
    SSTable.hitWhere, SSTable.lookup]
  by_cases within : table.keyMayExist key = true
  · rw [if_pos within, if_pos within]
    cases found : table.entries.find? (fun entry => entry.key = key) with
    | none => cases faults.index table <;> rfl
    | some entry =>
        rw [Option.filter_some, readableVersion]
        cases index : faults.index table with
        | some failure => rfl
        | none =>
            cases block : faults.block table entry <;>
              simp [guardFault, block, pure, Except.pure]
  · rw [if_neg within, if_neg within]
    rfl

theorem SSTable.lookupSync_ok {table : SSTable} {hit : Option SSTableEntry}
    (found : table.lookupSync faults key = .ok hit) :
    hit = table.lookup key := by
  rw [SSTable.lookupSync] at found
  rw [SSTable.lookup]
  split at found
  · case isTrue within =>
      rw [if_pos within]
      cases index : faults.index table with
      | some failure => simp [guardFault, index] at found
      | none =>
          rw [index] at found
          cases entry : table.entries.find? (fun entry => entry.key = key) with
          | none =>
              rw [entry] at found
              exact (Except.ok.inj found).symm
          | some hit' =>
              rw [entry] at found
              cases block : faults.block table hit' with
              | some failure => simp [guardFault, block] at found
              | none =>
                  simp only [guardFault, block, ok_bind] at found
                  exact (Except.ok.inj found).symm
  · case isFalse outside =>
      rw [if_neg outside]
      exact (Except.ok.inj found).symm

/-- Level 0 fails or gives the newest version. -/
theorem foldlM_lookupSync_ok {files : List SSTable}
    {best result : Option SSTableEntry}
    (found : files.foldlM (fun best table => do
      match ← table.lookupSync faults key with
      | some hit => return keepNewer SSTableEntry.timestamp best hit
      | none => return best) best = .ok result) :
    result = (files.filterMap (·.lookup key)).foldl
      (keepNewer SSTableEntry.timestamp) best := by
  induction files generalizing best with
  | nil => exact (Except.ok.inj found).symm
  | cons table rest inductionHypothesis =>
      rw [List.foldlM_cons] at found
      cases lookup : table.lookupSync faults key with
      | error failure =>
          rw [lookup, error_bind, error_bind] at found
          exact absurd found (by simp)
      | ok hit =>
          rw [lookup, ok_bind] at found
          rw [List.filterMap_cons, ← SSTable.lookupSync_ok lookup]
          cases hit with
          | none => exact inductionHypothesis found
          | some entry => exact inductionHypothesis found

theorem getFromLevelSync_ok {level : Nat} {files : List SSTable}
    {hit : Option SSTableEntry}
    (found : getFromLevelSync faults level files key = .ok hit) :
    hit = getFromLevel level files key := by
  cases level with
  | zero => exact foldlM_lookupSync_ok found
  | succ level =>
      rw [getFromLevelSync] at found
      rw [getFromLevel]
      cases table : findSstableForKey files key with
      | none =>
          rw [table] at found
          exact (Except.ok.inj found).symm
      | some table' =>
          rw [table] at found
          exact SSTable.lookupSync_ok found

/-- A search that returns its failures is right when it returns none. -/
theorem getFromSstablesSync_ok {levels : Nat → List SSTable}
    {order : List Nat} {value : Option Value}
    (found : getFromSstablesSync faults levels key order = .ok value) :
    value = (order.findSome? fun level =>
      getFromLevel level (levels level) key).bind SSTableEntry.visible := by
  induction order with
  | nil => exact (Except.ok.inj found).symm
  | cons level rest inductionHypothesis =>
      rw [getFromSstablesSync] at found
      cases here : getFromLevelSync faults level (levels level) key with
      | error failure =>
          rw [here, error_bind] at found
          exact absurd found (by simp)
      | ok hit =>
          rw [here, ok_bind] at found
          rw [List.findSome?_cons, ← getFromLevelSync_ok here]
          cases hit with
          | none => exact inductionHypothesis found
          | some entry => exact (Except.ok.inj found).symm

theorem tryGetSyncWith_error_or_get (faults : ReadFaults) (levelCount : Nat)
    (tree : LsmTree) (key : String) :
    (∃ failure, tree.tryGetSyncWith faults levelCount key = .error failure) ∨
      tree.tryGetSyncWith faults levelCount key =
        .ok (tree.get levelCount key) := by
  rw [LsmTree.tryGetSyncWith, LsmTree.get]
  cases getFromMemtables (tree.active :: tree.immutables) key with
  | found value => exact Or.inr rfl
  | tombstone => exact Or.inr rfl
  | missing =>
      simp only
      cases search : getFromSstablesSync faults tree.levels key
          (List.range levelCount) with
      | error failure => exact Or.inl ⟨failure, rfl⟩
      | ok value =>
          rw [getFromSstablesSync_ok search]
          exact Or.inr rfl

end

section

variable {levelCount : Nat} {tree : LsmTree} {faults : ReadFaults}

theorem QuiescentTables.getLogged_eq
    (quiescent : QuiescentTables levelCount tree.levels) (key : String) :
    tree.getLogged faults levelCount key =
      tree.shownWhere (readableVersion faults) key := by
  have hits : (fun table : SSTable => table.lookupLogged faults key) =
      (·.hitWhere (readableVersion faults) key) := by
    funext table
    exact table.lookupLogged_eq
  have search : getFromSstablesLogged faults levelCount tree.levels key =
      (versionWhere (readableVersion faults) tree.levels key).bind
        SSTableEntry.visible := by
    rw [getFromSstablesLogged, findSome?_levels]
    · rw [versionWhere, ← newest_hits quiescent.level0 quiescent.distinct,
        ← quiescent.level1.find_hit, ← hits]
      rw [getFromLevelLogged, filterMap_of_outside]
      · rfl
      · intro table outside
        rw [table.lookupLogged_eq, SSTable.hitWhere,
          SSTable.lookup_outside outside]
        rfl
    · intro level
      rw [quiescent.above level]
      rfl
    · intro level below
      rw [quiescent.configured level below]
      cases level <;> rfl
  cases found : getFromMemtables (tree.active :: tree.immutables) key <;>
    simp only [LsmTree.getLogged, LsmTree.shownWhere_eq, found, search]

theorem QuiescentTables.scanTables_wellFormed
    (quiescent : QuiescentTables levelCount tree.levels) :
    ∀ table ∈ LsmTree.scanTables levelCount tree.levels,
      table.WellFormed := by
  intro table member
  rcases List.mem_flatMap.mp member with ⟨level, -, inLevel⟩
  exact wellFormed_of_levels quiescent.level0 quiescent.level1
    quiescent.above level table inLevel

end

/-! ## Prefix scans up to a refused record -/

/-- No memtable holds the key, and a table holds a version of it whose record
is refused. -/
def LsmTree.Refuses (tree : LsmTree) (key : String) : Prop :=
  memtableValue (tree.active :: tree.immutables) key = none ∧
    ∃ level, ∃ table ∈ tree.levels level, ∃ entry ∈ table.entries,
      entry.key = key ∧ ¬ F4kvsLsm.ReadsBack entry.key entry.value

section

variable {levelCount : Nat} {tree : LsmTree} {order : List Nat}

end

/-- A scan of all values fails, or it lists what reads show. -/
def ErrorOrListing (wanted : String → Prop) (value : String → Option Value)
    (result : Except ScanFailure (List (String × Value))) : Prop :=
  (∃ failure, result = .error (.error failure)) ∨
    ∃ items, result = .ok items ∧ Listing wanted value items

/-- What has been shown of a scan is how the right listing begins, and all of
it when the scan has come to its end. -/
def ShowsBeginning (wanted : String → Prop) (value : String → Option Value)
    (items : List (String × Value)) (outcome : Option ScanFailure) : Prop :=
  ∃ listing, Listing wanted value listing ∧ items <+: listing ∧
    (outcome = none → items = listing)

namespace LsmTree

/-- The version that decides over a key of no memtable is admitted, or what is
taken instead shows the same. -/
def ReadsThrough (keep : SSTable → SSTableEntry → Bool) (tree : LsmTree)
    (key : String) : Prop :=
  memtableValue (tree.active :: tree.immutables) key = none →
    (versionWhere keep tree.levels key).bind SSTableEntry.visible =
      (versionWhere everyVersion tree.levels key).bind SSTableEntry.visible

/-- A prefix scan tells about the key: no key with the prefix fails, or a
later one is shown before the first that fails. -/
def ScanReaches (faults : ReadFaults) (order : List Nat) (tree : LsmTree)
    (keyPrefix key : String) : Prop :=
  (∀ other, startsWith other keyPrefix = true →
    ¬ tree.ScanFails faults order other) ∨
  ∃ shown, startsWith shown keyPrefix = true ∧ key ≤ shown ∧
    tree.shownWhere (indexed faults) shown ≠ none ∧
    ∀ other ≤ shown, startsWith other keyPrefix = true →
      ¬ tree.ScanFails faults order other

/-- A value scan takes a key of no memtable from the last version that it can
read, and from the youngest parked memtable otherwise. -/
structure OverlayReads (faults : ReadFaults) (levelCount : Nat)
    (tree : LsmTree) (key : String) : Prop where
  parked : tree.active.data[key]? = none →
    ∀ oldest youngest, memtableValue tree.immutables key = some oldest →
      memtableValue tree.immutables.reverse key = some youngest →
      youngest.visible = oldest.visible
  tables : memtableValue (tree.active :: tree.immutables) key = none →
    (lastVersion (readableEntries faults
        (scanTables levelCount tree.levels)) key).bind
        SSTableEntry.visible =
      (versionWhere everyVersion tree.levels key).bind
        SSTableEntry.visible

/-- A file or an index of a table cannot be read. -/
def TableFails (faults : ReadFaults) (levelCount : Nat) (tree : LsmTree) :
    Prop :=
  ∃ table ∈ scanTables levelCount tree.levels,
    (faults.file table).isSome = true ∨ (faults.index table).isSome = true

end LsmTree

section

variable {levelCount : Nat} {tree : LsmTree} {faults : ReadFaults}
variable {order : List Nat}

theorem LsmTree.shownWhere_eq_iff (keep : SSTable → SSTableEntry → Bool)
    (key : String) :
    tree.shownWhere keep key = tree.shownWhere everyVersion key ↔
      tree.ReadsThrough keep key := by
  rw [LsmTree.shownWhere, LsmTree.shownWhere, LsmTree.ReadsThrough]
  cases memtableValue (tree.active :: tree.immutables) key <;> simp

/-- The listing of what reads show, from a scan without faults. -/
theorem QuiescentTables.exists_listing
    (quiescent : QuiescentTables levelCount tree.levels)
    (visits : VisitsLevels order tree.levels) (keyPrefix : String) :
    ∃ listing, Listing (fun key => startsWith key keyPrefix = true)
      (tree.shownWhere everyVersion) listing := by
  rcases quiescent.prefixScanGives visits .none keyPrefix with
    ⟨listing, -, -, ascending, members, -⟩
  refine ⟨listing, ascending, fun key found => ?_⟩
  rw [members, indexed_none]
  constructor
  · exact fun ⟨starts, shown, _⟩ => ⟨starts, shown⟩
  · exact fun ⟨starts, shown⟩ => ⟨starts, shown,
      fun other _ _ => not_scanFails_none order tree other⟩

/-- A prefix scan shows how the right listing begins exactly when it takes the
right version of every key that it tells about. -/
theorem QuiescentTables.showsBeginning_iff
    (quiescent : QuiescentTables levelCount tree.levels)
    (visits : VisitsLevels order tree.levels) {keyPrefix : String}
    {items : List (String × Value)} {outcome : Option ScanFailure}
    (ascending : Ascending Prod.fst items)
    (members : ∀ key found, (key, found) ∈ items ↔
      startsWith key keyPrefix = true ∧
        tree.shownWhere (indexed faults) key = some found ∧
        ∀ other ≤ key, startsWith other keyPrefix = true →
          ¬ tree.ScanFails faults order other)
    (ends : outcome = none ↔ ∀ other, startsWith other keyPrefix = true →
      ¬ tree.ScanFails faults order other) :
    ShowsBeginning (fun key => startsWith key keyPrefix = true)
        (tree.get levelCount) items outcome ↔
      ∀ key, startsWith key keyPrefix = true →
        tree.ScanReaches faults order keyPrefix key →
          tree.ReadsThrough (indexed faults) key := by
  have reads : tree.get levelCount = tree.shownWhere everyVersion := by
    funext key
    exact quiescent.get_eq key
  rw [reads]
  constructor
  · rintro ⟨listing, listed, begins, whole⟩ key starts reached
    apply (LsmTree.shownWhere_eq_iff (indexed faults) key).mp
    have told : (∀ found, (key, found) ∈ items ↔ (key, found) ∈ listing) ∧
        ∀ other ≤ key, startsWith other keyPrefix = true →
          ¬ tree.ScanFails faults order other := by
      rcases reached with fine | ⟨later, laterStarts, below, shown, fine⟩
      · rw [whole (ends.mpr fine)]
        exact ⟨fun _ => Iff.rfl, fun other _ => fine other⟩
      · rcases Option.ne_none_iff_exists'.mp shown with ⟨value, hit⟩
        have inItems := (members later value).mpr ⟨laterStarts, hit, fine⟩
        refine ⟨fun found => ⟨fun member => begins.subset member, ?_⟩,
          fun other under => fine other (under.trans below)⟩
        intro inListing
        exact listed.ascending.mem_of_isPrefix begins inItems inListing below
    apply Option.ext
    intro found
    have both := (members key found).symm.trans
      ((told.1 found).trans (listed.mem_iff key found))
    simp only [starts, true_and] at both
    rw [← both]
    exact ⟨fun hit => ⟨hit, told.2⟩, fun hit => hit.1⟩
  · intro right
    rcases quiescent.exists_listing visits keyPrefix with ⟨listing, listed⟩
    have reachedRight : ∀ key, startsWith key keyPrefix = true →
        tree.ScanReaches faults order keyPrefix key →
        tree.shownWhere (indexed faults) key =
          tree.shownWhere everyVersion key :=
      fun key starts reached =>
        (LsmTree.shownWhere_eq_iff (indexed faults) key).mpr
          (right key starts reached)
    have sub : ∀ item ∈ items, item ∈ listing := by
      rintro ⟨key, found⟩ member
      rcases (members key found).mp member with ⟨starts, hit, fine⟩
      apply (listed.mem_iff key found).mpr
      refine ⟨starts, ?_⟩
      rw [← reachedRight key starts
        (Or.inr ⟨key, starts, le_rfl, by simp [hit], fine⟩), hit]
    have back : ∀ key found, (key, found) ∈ listing →
        tree.ScanReaches faults order keyPrefix key →
        (∀ other ≤ key, startsWith other keyPrefix = true →
          ¬ tree.ScanFails faults order other) → (key, found) ∈ items := by
      intro key found member reached fine
      rcases (listed.mem_iff key found).mp member with ⟨starts, hit⟩
      rw [← reachedRight key starts reached] at hit
      exact (members key found).mpr ⟨starts, hit, fine⟩
    refine ⟨listing, listed, ?_, ?_⟩
    · apply ascending.isPrefix_of_downward listed.ascending sub
      rintro ⟨key, found⟩ member ⟨other, found'⟩ inListing less
      rcases (members key found).mp member with ⟨starts, hit, fine⟩
      apply back other found' inListing
      · exact Or.inr ⟨key, starts, less.le, by simp [hit], fine⟩
      · exact fun failed under => fine failed (under.trans less.le)
    · intro ended
      have fine := ends.mp ended
      apply ascending.eq_of_mem_iff listed.ascending
      rintro ⟨key, found⟩
      exact ⟨sub (key, found), fun member =>
        back key found member (Or.inl fine) fun other _ => fine other⟩

/-! ## Value scans -/

theorem QuiescentTables.overlaid_eq_iff
    (quiescent : QuiescentTables levelCount tree.levels) (key : String) :
    tree.overlaid faults levelCount key = tree.get levelCount key ↔
      tree.OverlayReads faults levelCount key := by
  rw [LsmTree.overlaid_eq quiescent.scanTables_wellFormed,
    quiescent.get_eq, LsmTree.shownWhere]
  apply overlay_agrees_iff.trans
  constructor
  · exact fun agrees => ⟨agrees.1, agrees.2⟩
  · exact fun agrees => ⟨agrees.parked, agrees.tables⟩

/-- A layer of a table that fails the file or the index fails with it. -/
theorem tableLayer_error_of_fault {table : SSTable}
    (entries : List (String × Value × Bool))
    (fails : (faults.file table).isSome = true ∨
      (faults.index table).isSome = true) :
    ∃ error, (do
      guardFault (faults.file table)
      guardFault (faults.index table)
      return entries : Except ScanFailure (List (String × Value × Bool))) =
        .error (.error error) := by
  cases file : faults.file table with
  | some error => exact ⟨error, rfl⟩
  | none =>
      cases index : faults.index table with
      | some error => exact ⟨error, rfl⟩
      | none => simp [file, index] at fails

theorem tableLayer_error_origin {table : SSTable}
    {entries : List (String × Value × Bool)} {failure : ScanFailure}
    (failed : (do
      guardFault (faults.file table)
      guardFault (faults.index table)
      return entries : Except ScanFailure (List (String × Value × Bool))) =
        .error failure) : ∃ error, failure = .error error := by
  cases file : faults.file table with
  | some error =>
      rw [file] at failed
      exact ⟨error, (Except.error.inj failed).symm⟩
  | none =>
      cases index : faults.index table with
      | some error =>
          rw [file, index] at failed
          exact ⟨error, (Except.error.inj failed).symm⟩
      | none =>
          rw [file, index] at failed
          exact absurd failed (by simp [guardFault, pure, Except.pure])

theorem scan_error_of_tableFails
    {tableLayer : SSTable → Except ScanFailure (List (String × Value × Bool))}
    {entries : SSTable → List (String × Value × Bool)}
    (layers : ∀ table, tableLayer table = do
      guardFault (faults.file table)
      guardFault (faults.index table)
      return entries table)
    (memtableLayer : Memtable →
      Except ScanFailure (List (String × Value × Bool)))
    (fails : tree.TableFails faults levelCount) :
    ∃ error, LsmTree.mergeScan tableLayer memtableLayer levelCount tree =
      .error (.error error) := by
  rcases fails with ⟨table, member, broken⟩
  rcases tableLayer_error_of_fault (entries table) broken with
    ⟨error, failed⟩
  rw [← layers] at failed
  rcases LsmTree.mergeScan_error_table memtableLayer member failed with
    ⟨first, ⟨other, -, origin⟩, stopped⟩
  rw [layers] at origin
  rcases tableLayer_error_origin origin with ⟨error', rfl⟩
  exact ⟨error', stopped⟩

theorem not_tableFails_iff :
    ¬ tree.TableFails faults levelCount ↔
      ∀ table ∈ LsmTree.scanTables levelCount tree.levels,
        faults.file table = none ∧ faults.index table = none := by
  simp only [LsmTree.TableFails, not_exists, not_and, not_or,
    Bool.not_eq_true, Option.isSome_eq_false_iff, Option.isNone_iff_eq_none]

theorem errorOrListing_iff
    (quiescent : QuiescentTables levelCount tree.levels)
    {wanted : String → Prop}
    {result : Except ScanFailure (List (String × Value))}
    (scanned : ∃ items, result = .ok items ∧
      Listing wanted (tree.overlaid faults levelCount) items) :
    ErrorOrListing wanted (tree.get levelCount) result ↔
      ∀ key, wanted key → tree.OverlayReads faults levelCount key := by
  rcases scanned with ⟨items, success, listing⟩
  have agree : Listing wanted (tree.get levelCount) items ↔ _ :=
    listing.iff_agree
  simp only [quiescent.overlaid_eq_iff] at agree
  rw [← agree, success, ErrorOrListing]
  constructor
  · rintro (⟨failure, failed⟩ | ⟨items', same, listed⟩)
    · exact absurd failed (by simp)
    · rw [Except.ok.inj same]
      exact listed
  · exact fun listed => Or.inr ⟨items, rfl, listed⟩

end

/-- With tables that cannot all be read, a read is right exactly when the
version it takes shows what the deciding one shows; a read that does not wait
for locks is always right or fails; a prefix scan is right exactly when this
holds of every key that it tells about, and a value scan exactly when it fails
or the overlay of what it can read shows what reads show. -/
theorem reads_with_faults_iff
    {levelCount : Nat} {tree : LsmTree}
    (quiescent : QuiescentTables levelCount tree.levels)
    {order : List Nat} (visits : VisitsLevels order tree.levels)
    (faults : ReadFaults) :
    (∀ key,
      tree.getLogged faults levelCount key = tree.get levelCount key ↔
        tree.ReadsThrough (readableVersion faults) key) ∧
    (∀ key,
      (∃ failure, tree.tryGetSyncWith faults levelCount key = .error failure) ∨
        tree.tryGetSyncWith faults levelCount key =
          .ok (tree.get levelCount key)) ∧
    (∀ keyPrefix, ∃ items outcome,
      tree.PrefixScanGives faults order keyPrefix items outcome ∧
        (ShowsBeginning (fun key => startsWith key keyPrefix = true)
            (tree.get levelCount) items outcome ↔
          ∀ key, startsWith key keyPrefix = true →
            tree.ScanReaches faults order keyPrefix key →
              tree.ReadsThrough (indexed faults) key)) ∧
    (∀ keyPrefix,
      ErrorOrListing (fun key => startsWith key keyPrefix = true)
          (tree.get levelCount)
          (tree.scanPrefixWithValues faults levelCount keyPrefix) ↔
        tree.TableFails faults levelCount ∨
          ∀ key, startsWith key keyPrefix = true →
            tree.OverlayReads faults levelCount key) ∧
    ∀ start rangeEnd,
      ErrorOrListing (fun key => inRange start rangeEnd key = true)
          (tree.get levelCount)
          (tree.scanRangeWithValues faults levelCount start rangeEnd) ↔
        tree.TableFails faults levelCount ∨
          ¬ (rangeReversed start rangeEnd = true ∧
              tree.HoldsMemtableKeys) ∧
            ∀ key, inRange start rangeEnd key = true →
              tree.OverlayReads faults levelCount key := by
  refine ⟨?_, tryGetSyncWith_error_or_get faults levelCount tree, ?_, ?_, ?_⟩
  · intro key
    rw [quiescent.getLogged_eq, quiescent.get_eq]
    exact LsmTree.shownWhere_eq_iff (readableVersion faults) key
  · intro keyPrefix
    rcases quiescent.prefixScanGives visits faults keyPrefix with
      ⟨items, outcome, gives, ascending, members, ends⟩
    exact ⟨items, outcome, gives,
      quiescent.showsBeginning_iff visits ascending members ends⟩
  · intro keyPrefix
    by_cases fails : tree.TableFails faults levelCount
    · rcases scan_error_of_tableFails (fun _ => rfl)
        (fun memtable => .ok (memtable.scanPrefixLayer keyPrefix)) fails with
        ⟨error, stopped⟩
      exact iff_of_true (Or.inl ⟨error, stopped⟩) (Or.inl fails)
    · rw [or_iff_right fails]
      exact errorOrListing_iff quiescent
        (LsmTree.scanPrefixWithValues_listing
          quiescent.scanTables_wellFormed (not_tableFails_iff.mp fails)
          keyPrefix)
  · intro start rangeEnd
    by_cases fails : tree.TableFails faults levelCount
    · rcases scan_error_of_tableFails (fun _ => rfl)
        (·.scanRangeLayer start rangeEnd) fails with ⟨error, stopped⟩
      exact iff_of_true (Or.inl ⟨error, stopped⟩) (Or.inl fails)
    · rw [or_iff_right fails]
      by_cases refused : rangeReversed start rangeEnd = true ∧
          tree.HoldsMemtableKeys
      · apply iff_of_false _ fun accepted => accepted.1 refused
        rcases scanRangeWithValues_refused levelCount faults refused.1
          refused.2 with ⟨failure, origin, stopped⟩
        have panics : failure = .panicked := by
          rcases origin with ⟨table, member, failed⟩ | panics
          · have loads := not_tableFails_iff.mp fails table member
            have whole := quiescent.scanTables_wellFormed table member
            rw [whole.scanRangeLayer_eq loads] at failed
            exact absurd failed (by simp)
          · exact panics
        rw [ErrorOrListing, stopped, panics]
        simp
      · rw [and_iff_right refused]
        apply errorOrListing_iff quiescent
        apply LsmTree.scanRangeWithValues_listing
          quiescent.scanTables_wellFormed (not_tableFails_iff.mp fails)
        intro memtable member holds
        exact refused ⟨holds.2, memtable, member, holds.1⟩

/-- The blocks of values cannot be read. -/
def valuesUnreadable : ReadFaults :=
  { ReadFaults.none with
    block := fun _ entry =>
      if entry.deleted then none else some (.corruption "checksum") }

/-- The value below the deletion is lost, and the read is right without it. -/
theorem deletion_reads_with_faults :
    threeTables.getLogged valuesUnreadable 7 "k" =
      threeTables.get 7 "k" := by
  have invariant := threeTables_reachable.invariant
  have visits : VisitsLevels [1, 0] threeTables.levels := by
    constructor
    · decide
    · intro level nonempty
      match level with
      | 0 => decide
      | 1 => decide
      | level + 2 => exact absurd (invariant.above level) nonempty
  apply ((reads_with_faults_iff (invariant.quiescentTables (by decide))
    visits valuesUnreadable).1 "k").mpr
  exact fun _ => rfl

/-- The blocks of deletions cannot be read. -/
def deletionsUnreadable : ReadFaults :=
  { ReadFaults.none with
    block := fun _ entry =>
      if entry.deleted then some (.corruption "checksum") else none }

/-- The indexes of tables with deletions cannot be read. -/
def deletionIndexUnreadable : ReadFaults :=
  { ReadFaults.none with
    index := fun table =>
      if table.entries.any (·.deleted) then some (.corruption "checksum")
      else none }

/-- A key that was deleted comes back in a read, in a value scan and in a
prefix scan. -/
theorem unreadable_deletion_brings_key_back :
    Reachable leveledConfig threeTables ∧
      threeTables.get 7 "k" = none ∧
      threeTables.getLogged deletionsUnreadable 7 "k" =
        some (.bool true) ∧
      threeTables.scanPrefixWithValues deletionsUnreadable 7 "k" =
        .ok [("k", .bool true)] ∧
      (threeTables.prefixScanNext deletionIndexUnreadable
        (threeTables.prefixScanStart deletionIndexUnreadable [0]
          "k")).map (·.1) = some (.ok (some ("k", .bool true))) :=
  ⟨threeTables_reachable, rfl, rfl, rfl, rfl⟩

end F4kvsLsm
