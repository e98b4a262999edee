import F4kvsLsm.Engine.PrefixScanReads
import F4kvsLsm.Engine.QuiescentReads

/-!
# Prefix scans beside reads

The heads of a scan come in any order of the levels.  A version of level 0
replaces another one by its stamp and every version of a lower level, so the
best version is the one that a read finds.
-/

namespace F4kvsLsm

open KeyOrder Cursors Versions ByteCodec

/-! ## The best version over the heads -/

section

variable (hit : SSTable → Option SSTableEntry)

/-- What the tables of level 0 among these show. -/
def topHits (tables : List (SSTable × Nat)) : List SSTableEntry :=
  (tables.filter (·.2 = 0)).filterMap (hit ·.1)

/-- What the other tables show. -/
def lowHits (tables : List (SSTable × Nat)) : List SSTableEntry :=
  (tables.filter (·.2 ≠ 0)).filterMap (hit ·.1)

/-- The newest version of level 0, or the first one below. -/
def bestHit (tables : List (SSTable × Nat)) : Option SSTableEntry :=
  (newest SSTableEntry.timestamp (topHits hit tables)).or
    (lowHits hit tables).head?

theorem topHits_append (front back : List (SSTable × Nat)) :
    topHits hit (front ++ back) = topHits hit front ++ topHits hit back := by
  simp [topHits]

theorem lowHits_append (front back : List (SSTable × Nat)) :
    lowHits hit (front ++ back) = lowHits hit front ++ lowHits hit back := by
  simp [lowHits]

/-- The loop over the heads keeps the best version, and the stamp of the
newest one of level 0. -/
theorem foldl_keepHit (tables : List (SSTable × Nat)) :
    tables.foldl (fun best table =>
        LsmTree.keepHit table.2 best (hit table.1)) (0, none) =
      (((newest SSTableEntry.timestamp (topHits hit tables)).map
        (·.timestamp)).getD 0, bestHit hit tables) := by
  induction tables using List.reverseRecOn with
  | nil => rfl
  | append_singleton tables table inductionHypothesis =>
      rw [List.foldl_append, inductionHypothesis, bestHit, bestHit,
        topHits_append, lowHits_append]
      simp only [List.foldl_cons, List.foldl_nil]
      cases found : hit table.1 with
      | none =>
          have tops : topHits hit [table] = [] := by
            by_cases top : table.2 = 0 <;> simp [topHits, top, found]
          have lows : lowHits hit [table] = [] := by
            by_cases top : table.2 = 0 <;> simp [lowHits, top, found]
          rw [tops, lows, List.append_nil, List.append_nil]
          rfl
      | some entry =>
          by_cases top : table.2 = 0
          · have tops : topHits hit [table] = [entry] := by
              simp [topHits, top, found]
            have lows : lowHits hit [table] = [] := by simp [lowHits, top]
            rw [tops, lows, List.append_nil, newest_append_singleton]
            simp only [LsmTree.keepHit, if_pos top]
            cases newest SSTableEntry.timestamp (topHits hit tables) with
            | none => simp [keepNewer]
            | some kept =>
                simp only [keepNewer, Option.map_some, Option.getD_some,
                  Option.some_or]
                split <;> rfl
          · have tops : topHits hit [table] = [] := by simp [topHits, top]
            have lows : lowHits hit [table] = [entry] := by
              simp [lowHits, top, found]
            rw [tops, lows, List.append_nil, List.head?_append]
            simp only [LsmTree.keepHit, if_neg top, List.head?_cons]
            cases newest SSTableEntry.timestamp (topHits hit tables) with
            | some kept => simp
            | none => cases (lowHits hit tables).head? <;> simp

end

/-! ## The levels of a scan -/

/-- The map of the levels is iterated once, and no level with a table is left
out. -/
structure VisitsLevels (order : List Nat) (levels : Nat → List SSTable) :
    Prop where
  once : order.Nodup
  all : ∀ level, levels level ≠ [] → level ∈ order

theorem flatMap_eq_of_only {α : Type} {order : List Nat}
    (once : order.Nodup) {part : Nat → List α} (level : Nat)
    (only : ∀ other, other ≠ level → part other = [])
    (all : part level ≠ [] → level ∈ order) :
    order.flatMap part = part level := by
  induction order with
  | nil =>
      by_contra different
      exact List.not_mem_nil (all (Ne.symm different))
  | cons first rest inductionHypothesis =>
      rw [List.flatMap_cons]
      have ordered := List.nodup_cons.mp once
      by_cases here : first = level
      · have behind : rest.flatMap part = [] := by
          apply List.flatMap_eq_nil_iff.mpr
          intro other member
          apply only
          intro same
          rw [same, ← here] at member
          exact ordered.1 member
        rw [here, behind, List.append_nil]
      · rw [only first here, List.nil_append]
        apply inductionHypothesis ordered.2
        intro nonempty
        exact (List.mem_cons.mp (all nonempty)).resolve_left (Ne.symm here)

section

variable {levelCount : Nat} {levels : Nat → List SSTable}
variable {order : List Nat}

theorem topHits_scannedTables (visits : VisitsLevels order levels)
    (hit : SSTable → Option SSTableEntry) :
    topHits hit (scannedTables order levels) = (levels 0).filterMap hit := by
  have split : topHits hit (scannedTables order levels) =
      order.flatMap fun level =>
        if level = 0 then (levels level).filterMap hit else [] := by
    rw [topHits, scannedTables, List.filter_flatMap, List.filterMap_flatMap]
    congr 1
    funext level
    rw [List.filter_map, List.filterMap_map]
    split
    · case isTrue top =>
        rw [List.filter_eq_self.mpr fun _ _ => by simp [top]]
        rfl
    · case isFalse low =>
        rw [List.filter_eq_nil_iff.mpr fun _ _ => by simp [low]]
        rfl
  rw [split, flatMap_eq_of_only visits.once 0]
  · rfl
  · exact fun other low => if_neg low
  · intro nonempty
    apply visits.all 0
    intro empty
    simp [empty] at nonempty

theorem mem_scannedTables_iff (visits : VisitsLevels order levels)
    {table : SSTable} :
    (∃ level, (table, level) ∈ scannedTables order levels) ↔
      ∃ level, table ∈ levels level := by
  constructor
  · rintro ⟨level, member⟩
    obtain ⟨other, -, inLevel⟩ := List.mem_flatMap.mp member
    obtain ⟨found, inTables, same⟩ := List.mem_map.mp inLevel
    rw [← (Prod.mk.inj same).1]
    exact ⟨other, inTables⟩
  · rintro ⟨level, member⟩
    have visited := visits.all level (List.ne_nil_of_mem member)
    exact ⟨level, List.mem_flatMap.mpr
      ⟨level, visited, List.mem_map_of_mem member⟩⟩

theorem QuiescentTables.wellFormed
    (quiescent : QuiescentTables levelCount levels) (order : List Nat) :
    ∀ table ∈ scannedTables order levels, table.1.WellFormed := by
  intro table member
  rcases List.mem_flatMap.mp member with ⟨level, -, inLevel⟩
  rcases List.mem_map.mp inLevel with ⟨sst, inTables, rfl⟩
  exact wellFormed_of_levels quiescent.level0 quiescent.level1
    quiescent.above level sst inTables

theorem QuiescentTables.lowHits_scannedTables
    (quiescent : QuiescentTables levelCount levels)
    (visits : VisitsLevels order levels)
    (hit : SSTable → Option SSTableEntry) :
    lowHits hit (scannedTables order levels) = (levels 1).filterMap hit := by
  have split : lowHits hit (scannedTables order levels) =
      order.flatMap fun level =>
        if level = 0 then [] else (levels level).filterMap hit := by
    rw [lowHits, scannedTables, List.filter_flatMap, List.filterMap_flatMap]
    congr 1
    funext level
    rw [List.filter_map, List.filterMap_map]
    split
    · case isTrue top =>
        rw [List.filter_eq_nil_iff.mpr fun _ _ => by simp [top]]
        rfl
    · case isFalse low =>
        rw [List.filter_eq_self.mpr fun _ _ => by simp [low]]
        rfl
  rw [split, flatMap_eq_of_only visits.once 1]
  · rfl
  · intro other different
    rcases other with _ | _ | other
    · rfl
    · exact absurd rfl different
    · simp [quiescent.above other]
  · intro nonempty
    apply visits.all 1
    intro empty
    simp [empty] at nonempty

/-- The heads of a scan find the version that a read takes. -/
theorem QuiescentTables.bestHit_eq
    (quiescent : QuiescentTables levelCount levels)
    (visits : VisitsLevels order levels)
    (keep : SSTable → SSTableEntry → Bool) (key : String) :
    bestHit (·.hitWhere keep key) (scannedTables order levels) =
      versionWhere keep levels key := by
  rw [bestHit, topHits_scannedTables visits,
    quiescent.lowHits_scannedTables visits,
    newest_hits quiescent.level0 quiescent.distinct,
    quiescent.level1.head?_hits, versionWhere]

end

/-! ## What a scan finds for a key -/

/-- A scan sees the versions of the tables whose index can be read. -/
def indexed (faults : ReadFaults) (table : SSTable) (_ : SSTableEntry) :
    Bool :=
  (faults.index table).isNone

/-- The block of a version that the scan sees cannot be read. -/
def BlockFails (faults : ReadFaults) (tables : List (SSTable × Nat))
    (key : String) : Prop :=
  ∃ table ∈ tables, ∃ entry, table.1.hitWhere (indexed faults) key =
    some entry ∧ (faults.block table.1 entry).isSome = true

section

variable {faults : ReadFaults} {tables : List (SSTable × Nat)} {key : String}

theorem not_blockFails_records
    (wellFormed : ∀ table ∈ tables, table.1.WellFormed)
    (readsBack : ∀ table ∈ tables, table.1.ReadsBack) (key : String) :
    ¬ BlockFails .records tables key := by
  rintro ⟨table, member, entry, hit, fails⟩
  have held := (wellFormed table member).hitWhere_eq_some_iff.mp hit
  have reads := SSTableEntry.readFault_eq_none_iff.mpr
    (readsBack table member entry held.1.1)
  exact Option.isSome_iff_ne_none.mp fails reads

theorem tableHit_eq (table : SSTable × Nat)
    (best : Nat × Option SSTableEntry) :
    tableHit faults key best table =
      match table.1.hitWhere (indexed faults) key with
      | none => .ok best
      | some entry =>
          match faults.block table.1 entry with
          | some failure => .error (.error failure)
          | none => .ok (LsmTree.keepHit table.2 best (some entry)) := by
  rw [tableHit, SSTable.hitWhere]
  cases readable : faults.index table.1 with
  | some failure =>
      have unseen : (table.1.lookup key).filter (indexed faults table.1) =
          none := by
        cases table.1.lookup key <;> simp [indexed, readable]
      rw [unseen]
  | none =>
      have seen : (table.1.lookup key).filter (indexed faults table.1) =
          table.1.lookup key := by
        cases table.1.lookup key <;> simp [indexed, readable]
      rw [seen, SSTable.lookupSync, SSTable.lookup, readable]
      simp only
      split
      · cases found : table.1.entries.find?
            (fun entry => entry.key = key) with
        | none => rfl
        | some entry =>
            cases block : faults.block table.1 entry <;>
              simp only [block] <;> rfl
      · rfl

theorem foldlM_tableHit_ok (readable : ¬ BlockFails faults tables key)
    (best : Nat × Option SSTableEntry) :
    tables.foldlM (tableHit faults key) best =
      .ok (tables.foldl (fun best table => LsmTree.keepHit table.2 best
        (table.1.hitWhere (indexed faults) key)) best) := by
  induction tables generalizing best with
  | nil => rfl
  | cons table rest inductionHypothesis =>
      have behind : ¬ BlockFails faults rest key := by
        rintro ⟨other, member, fails⟩
        exact readable ⟨other, List.mem_cons_of_mem _ member, fails⟩
      have step : tableHit faults key best table =
          .ok (LsmTree.keepHit table.2 best
            (table.1.hitWhere (indexed faults) key)) := by
        rw [tableHit_eq]
        cases hit : table.1.hitWhere (indexed faults) key with
        | none => rfl
        | some entry =>
            cases block : faults.block table.1 entry with
            | none => simp only [block]
            | some failure =>
                exact absurd ⟨table, List.mem_cons_self, entry, hit,
                  by rw [block]; rfl⟩ readable
      rw [List.foldlM_cons, step, ok_bind, inductionHypothesis behind,
        List.foldl_cons]

theorem foldlM_tableHit_error (fails : BlockFails faults tables key)
    (best : Nat × Option SSTableEntry) :
    ∃ failure, tables.foldlM (tableHit faults key) best =
      .error failure := by
  induction tables generalizing best with
  | nil =>
      rcases fails with ⟨table, member, -⟩
      exact absurd member List.not_mem_nil
  | cons table rest inductionHypothesis =>
      rw [List.foldlM_cons]
      cases step : tableHit faults key best table with
      | error failure => exact ⟨failure, rfl⟩
      | ok best' =>
          rw [ok_bind]
          apply inductionHypothesis
          rcases fails with ⟨other, member, entry, hit, failed⟩
          rcases List.mem_cons.mp member with here | behind
          · rw [here] at hit failed
            rcases Option.isSome_iff_exists.mp failed with ⟨failure, block⟩
            rw [tableHit_eq, hit] at step
            simp only [block] at step
            exact absurd step (by simp)
          · exact ⟨other, behind, entry, hit, failed⟩

end

section

variable {levelCount : Nat} {tree : LsmTree} {order : List Nat}
variable {faults : ReadFaults} {key : String}

/-- No memtable holds the key, and the block of a version that the scan sees
cannot be read. -/
def LsmTree.ScanFails (faults : ReadFaults) (order : List Nat)
    (tree : LsmTree) (key : String) : Prop :=
  memtableValue (tree.active :: tree.immutables) key = none ∧
    BlockFails faults (scannedTables order tree.levels) key

theorem getFromMemtables_missing_iff {memtables : List Memtable} :
    getFromMemtables memtables key = .missing ↔
      memtableValue memtables key = none := by
  rw [getFromMemtables_eq]
  cases memtableValue memtables key with
  | none => simp
  | some value => cases value <;> simp [Value.isNull]

theorem QuiescentTables.scanValue_ok
    (quiescent : QuiescentTables levelCount tree.levels)
    (visits : VisitsLevels order tree.levels)
    (readable : ¬ tree.ScanFails faults order key) :
    scanValue faults (tree.active :: tree.immutables)
        (scannedTables order tree.levels) key =
      .ok (tree.shownWhere (indexed faults) key) := by
  rw [scanValue, LsmTree.shownWhere_eq]
  cases lookup : getFromMemtables (tree.active :: tree.immutables) key with
  | found value => rfl
  | tombstone => rfl
  | missing =>
      have blocks : ¬ BlockFails faults
          (scannedTables order tree.levels) key := fun fails =>
        readable ⟨getFromMemtables_missing_iff.mp lookup, fails⟩
      simp only
      rw [foldlM_tableHit_ok blocks, ok_bind, foldl_keepHit,
        quiescent.bestHit_eq visits]
      rfl

theorem scanValue_error (fails : tree.ScanFails faults order key) :
    ∃ failure, scanValue faults (tree.active :: tree.immutables)
      (scannedTables order tree.levels) key = .error failure := by
  rcases foldlM_tableHit_error fails.2 (0, none) with ⟨failure, stopped⟩
  refine ⟨failure, ?_⟩
  rw [scanValue, getFromMemtables_missing_iff.mpr fails.1]
  simp only
  rw [stopped, error_bind]

theorem not_scanFails_none (order : List Nat) (tree : LsmTree)
    (key : String) : ¬ tree.ScanFails .none order key := by
  rintro ⟨-, table, -, entry, -, failed⟩
  exact absurd failed (by simp [ReadFaults.none])

theorem indexed_none : indexed .none = everyVersion := rfl

theorem indexed_records : indexed .records = everyVersion := rfl

/-- Keys that come from nowhere have no version. -/
theorem hits_of_not_source
    {memtables : List Memtable} {tables : List (SSTable × Nat)}
    (wellFormed : ∀ table ∈ tables, table.1.WellFormed)
    (missing : ¬ Source faults memtables tables key) :
    memtableValue memtables key = none ∧
      bestHit (·.hitWhere (indexed faults) key) tables = none := by
  rw [Source, not_or] at missing
  have noHit : ∀ table ∈ tables,
      table.1.hitWhere (indexed faults) key = none := by
    intro table member
    cases hit : table.1.hitWhere (indexed faults) key with
    | none => rfl
    | some entry =>
        have held := (wellFormed table member).hitWhere_eq_some_iff.mp hit
        exact absurd ⟨table, member, Option.isNone_iff_eq_none.mp held.1.2,
          entry, held.1.1, held.2⟩ missing.2
  have tops : topHits (·.hitWhere (indexed faults) key) tables = [] := by
    apply List.filterMap_eq_nil_iff.mpr
    intro table member
    exact noHit table (List.mem_of_mem_filter member)
  have lows : lowHits (·.hitWhere (indexed faults) key) tables = [] := by
    apply List.filterMap_eq_nil_iff.mpr
    intro table member
    exact noHit table (List.mem_of_mem_filter member)
  refine ⟨memtableValue_eq_none_of_not_held missing.1, ?_⟩
  rw [bestHit, tops, lows]
  rfl

/-- A version that is shown is one that a table or a memtable holds. -/
theorem QuiescentTables.source_of_shown
    (quiescent : QuiescentTables levelCount tree.levels)
    (visits : VisitsLevels order tree.levels) {value : Value}
    (found : tree.shownWhere (indexed faults) key = some value) :
    Source faults (tree.active :: tree.immutables)
      (scannedTables order tree.levels) key := by
  by_contra missing
  rcases hits_of_not_source (quiescent.wellFormed order) missing with
    ⟨noValue, noHit⟩
  rw [LsmTree.shownWhere, noValue, ← quiescent.bestHit_eq visits,
    noHit] at found
  exact absurd found (by simp)

theorem QuiescentTables.source_of_scanFails
    (quiescent : QuiescentTables levelCount tree.levels)
    (fails : tree.ScanFails faults order key) :
    Source faults (tree.active :: tree.immutables)
      (scannedTables order tree.levels) key := by
  rcases fails with ⟨-, table, member, entry, hit, -⟩
  have held := (quiescent.wellFormed order table
    member).hitWhere_eq_some_iff.mp hit
  exact Or.inr ⟨table, member, Option.isNone_iff_eq_none.mp held.1.2, entry,
    held.1.1, held.2⟩

end

/-! ## What the loops give -/

/-- All three loops give these items, and then the end or this failure. -/
structure LsmTree.PrefixScanGives (faults : ReadFaults) (order : List Nat)
    (tree : LsmTree) (keyPrefix : String) (items : List (String × Value))
    (outcome : Option ScanFailure) : Prop where
  next : Answers (tree.prefixScanNext faults)
    (tree.prefixScanStart faults order keyPrefix) items outcome
  pages : ∀ sizes, pages (tree.tryPrefixScanNextNSync faults) sizes
      (tree.tryPrefixScanStartSync faults order keyPrefix) =
    some (cut outcome sizes items)
  visits : ∀ (ω : Type) (visit : ω → String → Bytes → Bool × ω)
      (visitor : ω),
    tree.tryPrefixScanForeachSync faults order keyPrefix visit visitor =
      some (visitResult (visitAll Value.payload visit items visitor) outcome)

/-- The loops show the keys with the prefix up to the first one that fails,
each as a read that sees the versions of the tables with an index. -/
theorem QuiescentTables.prefixScanGives
    {levelCount : Nat} {tree : LsmTree} {order : List Nat}
    (quiescent : QuiescentTables levelCount tree.levels)
    (visits : VisitsLevels order tree.levels) (faults : ReadFaults)
    (keyPrefix : String) :
    ∃ items outcome,
      tree.PrefixScanGives faults order keyPrefix items outcome ∧
      Ascending Prod.fst items ∧
      (∀ key found, (key, found) ∈ items ↔
        startsWith key keyPrefix = true ∧
          tree.shownWhere (indexed faults) key = some found ∧
          ∀ other ≤ key, startsWith other keyPrefix = true →
            ¬ tree.ScanFails faults order other) ∧
      (outcome = none ↔ ∀ other, startsWith other keyPrefix = true →
        ¬ tree.ScanFails faults order other) := by
  have wellFormed := quiescent.wellFormed order
  have walks := prefixScan_walks faults tree keyPrefix wellFormed
  rcases prefixScanStart_pending faults tree order keyPrefix wellFormed with
    ⟨keys, pending⟩
  have enough := fun state keys
    (pending : Pending faults (tree.active :: tree.immutables)
      (scannedTables order tree.levels) keyPrefix state keys) =>
    pending.length_lt
  generalize value : scanValue faults (tree.active :: tree.immutables)
    (scannedTables order tree.levels) = scanned at walks
  have shows : ∀ key, ¬ tree.ScanFails faults order key →
      scanned key = .ok (tree.shownWhere (indexed faults) key) := by
    intro key readable
    rw [← value, quiescent.scanValue_ok visits readable]
  have failing : ∀ key, tree.ScanFails faults order key ↔
      ∃ failure, scanned key = .error failure := by
    intro key
    constructor
    · intro fails
      rw [← value]
      exact scanValue_error fails
    · rintro ⟨failure, stopped⟩
      by_contra readable
      rw [shows key readable] at stopped
      exact absurd stopped (by simp)
  have inKeys : ∀ key, startsWith key keyPrefix = true →
      Source faults (tree.active :: tree.immutables)
        (scannedTables order tree.levels) key → key ∈ keys :=
    fun key starts source => (pending.mem_iff key).mpr ⟨starts, rfl, source⟩
  have members : ∀ key found,
      (key, found) ∈ (collect scanned keys).1 ↔
        startsWith key keyPrefix = true ∧
          tree.shownWhere (indexed faults) key = some found ∧
          ∀ other ≤ key, startsWith other keyPrefix = true →
            ¬ tree.ScanFails faults order other := by
    intro key found
    rw [mem_collect pending.ascending]
    constructor
    · rintro ⟨⟨member, hit⟩, fine⟩
      have readable : ¬ tree.ScanFails faults order key := by
        intro fails
        rcases (failing key).mp fails with ⟨failure, stopped⟩
        rw [stopped] at hit
        exact absurd hit (by simp)
      refine ⟨((pending.mem_iff key).mp member).1, ?_, ?_⟩
      · rw [shows key readable] at hit
        exact Except.ok.inj hit
      · intro other below starts fails
        rcases below.eq_or_lt with same | less
        · rw [same] at fails
          exact readable fails
        · rcases (failing other).mp fails with ⟨failure, stopped⟩
          exact fine other (inKeys other starts
            (quiescent.source_of_scanFails fails)) less failure stopped
    · rintro ⟨starts, shown, fine⟩
      have readable := fine key le_rfl starts
      refine ⟨⟨inKeys key starts (quiescent.source_of_shown visits shown),
        by rw [shows key readable, shown]⟩, ?_⟩
      intro other member less failure stopped
      exact fine other less.le ((pending.mem_iff other).mp member).1
        ((failing other).mpr ⟨failure, stopped⟩)
  have ends : (collect scanned keys).2 = none ↔
      ∀ other, startsWith other keyPrefix = true →
        ¬ tree.ScanFails faults order other := by
    rw [collect_eq_none_iff]
    constructor
    · intro fine other starts fails
      rcases (failing other).mp fails with ⟨failure, stopped⟩
      exact fine other (inKeys other starts
        (quiescent.source_of_scanFails fails)) failure stopped
    · intro fine other member failure stopped
      exact fine other ((pending.mem_iff other).mp member).1
        ((failing other).mpr ⟨failure, stopped⟩)
  refine ⟨(collect scanned keys).1, (collect scanned keys).2, ?_, ?_,
    members, ends⟩
  · constructor
    case next => exact walks.answers enough pending
    case pages =>
      intro sizes
      have paged := walks.pages enough sizes pending
      rw [← LsmTree.prefixScanSync_eq] at paged
      exact paged
    case visits =>
      intro ω visit visitor
      have visited := walks.forEach Value.payload visit pending
        (enough _ keys pending) visitor
      rw [← LsmTree.prefixScanSync_eq] at visited
      exact visited
  · have ordered := pending.ascending.sublist
      (collect_sublist scanned)
    exact List.pairwise_map.mp ordered

end F4kvsLsm
