import Mathlib.Algebra.Order.BigOperators.Group.List
import Mathlib.Data.List.Flatten
import F4kvsLsm.Engine.PrefixScanYields

/-!
# The key after another one

A scan for one key starts behind a given key instead of at the prefix.  When
that key is below the prefix, a memtable or a table may have keys between the
two.  Such a memtable says nothing until a first key has been found elsewhere,
and such a table never moves on.
-/

namespace F4kvsLsm

open KeyOrder BinarySearch Cursors

/-! ## The scan -/

namespace LsmTree

variable (faults : ReadFaults) (tree : LsmTree)

/-- Every table to its first key behind `after`. -/
def prefixScanSeekAfter (st : PrefixScanState) (after : String) :
    PrefixScanState :=
  { st with
    heads := st.heads.map fun head =>
      let i := head.sst.indexStart faults after
      { head with
        pos := if head.sst.indexKeyEq faults i after then i + 1 else i } }

/-- Where `scan_next` begins. -/
def scanNextStart (order : List Nat) (keyPrefix : String)
    (after : Option String) : PrefixScanState :=
  let st := { prefixScanStart faults tree order keyPrefix with last := after }
  match after with
  | some last => prefixScanSeekAfter faults st last
  | none => st

def scanNext (order : List Nat) (keyPrefix : String)
    (after : Option String) :
    Option (Except ScanFailure (Option (String × Value))) :=
  (tree.prefixScanNext faults
    (scanNextStart faults tree order keyPrefix after)).map Prod.fst

end LsmTree

/-! ## What it should find -/

def AskedFor (keyPrefix : String) (after : Option String) (key : String) :
    Prop :=
  startsWith key keyPrefix = true ∧ ahead after key = true

/-- A key behind `after` and below the prefix. -/
def stopsAt (keyPrefix : String) (after : Option String) (key : String) :
    Bool :=
  match after with
  | some last => decide (last < key) && decide (key < keyPrefix)
  | none => false

def Memtable.stops (keyPrefix : String) (after : Option String)
    (m : Memtable) : Bool :=
  m.getAllEntries.any fun entry => stopsAt keyPrefix after entry.1

def SSTable.stops (keyPrefix : String) (after : Option String)
    (table : SSTable) : Bool :=
  table.entries.any fun entry => stopsAt keyPrefix after entry.key

namespace LsmTree

/-- The tree without the tables that have such a key. -/
def withoutStopped (keyPrefix : String) (after : Option String)
    (tree : LsmTree) : LsmTree :=
  { tree with levels := fun level =>
      (tree.levels level).filter fun table => !table.stops keyPrefix after }

/-- A memtable or a table without such a key has the key. -/
def PassesOn (keyPrefix : String) (after : Option String) (tree : LsmTree)
    (key : String) : Prop :=
  (∃ memtable ∈ tree.active :: tree.immutables,
      memtable.stops keyPrefix after = false ∧
        ∃ value, memtable.data[key]? = some value) ∨
    ∃ level, ∃ table ∈ tree.levels level,
      table.stops keyPrefix after = false ∧
        ∃ entry ∈ table.entries, entry.key = key

/-- What `scan_next` comes to. -/
def Reached (keyPrefix : String) (after : Option String) (tree : LsmTree)
    (key : String) : Prop :=
  ∃ first ≤ key, AskedFor keyPrefix after first ∧
    tree.PassesOn keyPrefix after first

/-- Every live key is behind one that is passed on. -/
def ReachesLive (levelCount : Nat) (keyPrefix : String)
    (after : Option String) (tree : LsmTree) : Prop :=
  ∀ key, AskedFor keyPrefix after key →
    (tree.get levelCount key).isSome = true →
      tree.Reached keyPrefix after key

/-- Up to the first live key reads do not need the tables that stop. -/
def ReadsWithoutStopped (levelCount : Nat) (keyPrefix : String)
    (after : Option String) (tree : LsmTree) : Prop :=
  ∀ key, AskedFor keyPrefix after key →
    (∀ other < key, AskedFor keyPrefix after other →
      tree.get levelCount other = none ∧
        (tree.withoutStopped keyPrefix after).get levelCount other = none) →
      (tree.withoutStopped keyPrefix after).get levelCount key =
        tree.get levelCount key

end LsmTree

/-! ## Where the memtables and the tables stand -/

section

variable {keyPrefix key : String} {after : Option String}

theorem not_stopsAt_iff {last : String} :
    stopsAt keyPrefix (some last) key = false ↔
      (last < key → keyPrefix ≤ key) := by
  rw [stopsAt, Bool.and_eq_false_iff, decide_eq_false_iff_not,
    decide_eq_false_iff_not, not_lt]
  exact or_iff_not_imp_left.trans (imp_congr_left not_not)

theorem Memtable.not_stops_iff {m : Memtable} :
    m.stops keyPrefix after = false ↔
      ∀ key value, m.data[key]? = some value →
        stopsAt keyPrefix after key = false := by
  rw [Memtable.stops, List.any_eq_false]
  constructor
  · intro none key value held
    exact Bool.eq_false_iff.mpr (none (key, value, value.isNull)
      (Memtable.mem_getAllEntries.mpr ⟨held, rfl⟩))
  · intro none entry member
    exact Bool.eq_false_iff.mp
      (none entry.1 entry.2.1 (Memtable.mem_getAllEntries.mp member).1)

theorem SSTable.not_stops_iff {table : SSTable} :
    table.stops keyPrefix after = false ↔
      ∀ entry ∈ table.entries, stopsAt keyPrefix after entry.key = false := by
  rw [SSTable.stops, List.any_eq_false]
  constructor
  · exact fun none entry member => Bool.eq_false_iff.mpr (none entry member)
  · exact fun none entry member => Bool.eq_false_iff.mp (none entry member)

theorem Memtable.firstKeyAfter_some (m : Memtable) (keyPrefix last : String) :
    m.firstKeyAfter keyPrefix (some last) =
      (((m.getAllEntries.filter fun entry => last < entry.1).head?).map
        Prod.fst).filter fun key => startsWith key keyPrefix := by
  rw [Memtable.firstKeyAfter]
  cases (m.getAllEntries.filter fun entry => decide (last < entry.1)).head?
    with
  | none => rfl
  | some entry =>
      simp only [Option.map_some, Option.filter_some]

theorem Memtable.firstKeyAfter_passing
    {m : Memtable} {last : String}
    (passes : m.stops keyPrefix (some last) = false) :
    FirstOf (fun key => (∃ value, m.data[key]? = some value) ∧
        startsWith key keyPrefix = true ∧ last < key)
      (m.firstKeyAfter keyPrefix (some last)) := by
  have first := @Memtable.firstKeyAfter_reaching m keyPrefix (some last)
  simp only [ahead, decide_eq_true_eq] at first
  apply first
  intro a here key value held less
  cases here
  exact not_stopsAt_iff.mp (Memtable.not_stops_iff.mp passes key value held)
    less

theorem Memtable.firstKeyAfter_stopped
    {m : Memtable} (stopped : m.stops keyPrefix after = true) :
    m.firstKeyAfter keyPrefix after = none := by
  rcases List.any_eq_true.mp stopped with ⟨entry, member, stops⟩
  cases after with
  | none => exact absurd stops (by simp [stopsAt])
  | some last =>
      rw [stopsAt, Bool.and_eq_true, decide_eq_true_eq, decide_eq_true_eq]
        at stops
      have first := FirstOf.head? (m.ascending.filter fun entry =>
        decide (last < entry.1))
      rcases first.least entry.1 ⟨entry, List.mem_filter.mpr
        ⟨member, decide_eq_true stops.1⟩, rfl⟩ with ⟨least, below, found⟩
      rw [m.firstKeyAfter_some keyPrefix last, found]
      apply Option.filter_eq_none_iff.mpr
      intro key same starts
      rw [← Option.some.inj same] at starts
      exact absurd (le_of_startsWith starts)
        (below.trans_lt stops.2).not_ge

/-- A table is moved behind the key. -/
theorem SSTable.drop_seek
    {table : SSTable} (wellFormed : table.WellFormed) (last : String) :
    let i := table.indexStart .none last
    table.entries.drop
        (if table.indexKeyEq .none i last then i + 1 else i) =
      table.entries.filter fun entry => last < entry.key := by
  have started : PrefixScanHead.Placed last none
      ⟨table, 0, table.indexStart .none last⟩ :=
    PrefixScanHead.placed_start 0 wellFormed rfl
  have readable : ReadFaults.none.index table = none := rfl
  have behind := (started.first wellFormed readable).sound
  have least : ∀ other, table.indexKeyAt .none
      (table.indexStart .none last) = some other → last ≤ other :=
    fun other found => (behind other found).2.1
  have moved := started.advance wellFormed readable rfl least
  simp only
  rw [PrefixScanHead.Placed] at moved
  have narrow : (table.entries.filter fun entry =>
      decide (last ≤ entry.key) && ahead (some last) entry.key) =
        table.entries.filter fun entry => last < entry.key := by
    apply List.filter_congr
    intro entry _
    rw [ahead]
    by_cases less : last < entry.key
    · rw [decide_eq_true less, decide_eq_true less.le]
      rfl
    · rw [decide_eq_false less, Bool.and_false]
  cases here : table.indexKeyEq .none (table.indexStart .none last) last with
  | true =>
      simp only [here, if_true] at moved
      exact moved.trans narrow
  | false =>
      simp only [here, Bool.false_eq_true, if_false] at moved
      exact moved.trans narrow

end

/-! ## Tables that never move on -/

/-- A state, and the same without the tables that stand below the prefix. -/
structure Ignores (stopped : SSTable → Bool) (st st' : PrefixScanState) :
    Prop where
  same : st' = { st with
    heads := st.heads.filter fun head => !stopped head.sst }
  stands : ∀ head ∈ st.heads, stopped head.sst = true →
    ∃ key < st.keyPrefix, head.sst.indexKeyAt .none head.pos = some key

section

variable {stopped : SSTable → Bool} {st st' : PrefixScanState}
variable {tree : LsmTree} {key : String}

theorem Ignores.not_indexKeyEq
    (ignores : Ignores stopped st st')
    (starts : startsWith key st.keyPrefix = true) {head : PrefixScanHead}
    (member : head ∈ st.heads) (isStopped : stopped head.sst = true) :
    head.sst.indexKeyEq .none head.pos key = false := by
  rcases ignores.stands head member isStopped with ⟨standing, below, found⟩
  rw [SSTable.indexKeyEq_eq, found, decide_eq_false_iff_not]
  intro here
  rw [Option.some.inj here] at below
  exact absurd (le_of_startsWith starts) below.not_ge

theorem LsmTree.startsWith_of_minKey
    (found : tree.prefixScanMinKey .none st = some key) :
    startsWith key st.keyPrefix = true := by
  rw [LsmTree.prefixScanMinKey, LsmTree.consider_eq] at found
  have wanted := ((considerOffers_spec _ _).1 key found).2
  rw [PrefixScanState.wants, Bool.and_eq_true] at wanted
  exact wanted.1

theorem Ignores.nextKey
    (ignores : Ignores stopped st st') :
    tree.prefixScanMinKey .none st = tree.prefixScanMinKey .none st' := by
  have wants : st'.wants = st.wants := by
    rw [ignores.same]
    rfl
  rw [LsmTree.prefixScanMinKey, LsmTree.prefixScanMinKey,
    LsmTree.consider_eq, LsmTree.consider_eq, wants]
  apply considerOffers_congr
  intro key wanted
  rw [PrefixScanState.wants, Bool.and_eq_true] at wanted
  rw [ignores.same, LsmTree.offers, LsmTree.offers, List.mem_append,
    List.mem_append]
  apply or_congr_left
  rw [List.mem_map, List.mem_map]
  constructor
  · rintro ⟨head, member, found⟩
    refine ⟨head, List.mem_filter.mpr ⟨member, ?_⟩, found⟩
    rw [Bool.not_eq_true']
    by_contra isStopped
    rw [Bool.not_eq_false] at isStopped
    rcases ignores.stands head member isStopped with
      ⟨standing, below, found'⟩
    rw [found, Option.some.injEq] at found'
    rw [← found'] at below
    exact absurd (le_of_startsWith wanted.1) below.not_ge
  · rintro ⟨head, member, found⟩
    exact ⟨head, (List.mem_filter.mp member).1, found⟩

theorem foldlM_filter_of_skip
    {α β : Type} {keeps : α → Bool} {step : β → α → Except ScanFailure β}
    {items : List α}
    (skips : ∀ item ∈ items, keeps item = false →
      ∀ state, step state item = .ok state) (state : β) :
    (items.filter keeps).foldlM step state = items.foldlM step state := by
  induction items generalizing state with
  | nil => rfl
  | cons item rest inductionHypothesis =>
      have behind := inductionHypothesis fun other member =>
        skips other (List.mem_cons_of_mem _ member)
      rw [List.filter_cons, List.foldlM_cons]
      cases kept : keeps item with
      | true =>
          rw [if_pos rfl, List.foldlM_cons]
          congr 1
          funext state'
          exact behind state'
      | false =>
          rw [if_neg (by simp), skips item List.mem_cons_self kept state,
            ok_bind]
          exact behind state

theorem Ignores.resolve
    (ignores : Ignores stopped st st')
    (starts : startsWith key st.keyPrefix = true) :
    tree.prefixScanResolve .none st key =
      tree.prefixScanResolve .none st' key := by
  have heads : st'.heads.foldlM (LsmTree.resolveHead .none key) (0, none) =
      st.heads.foldlM (LsmTree.resolveHead .none key) (0, none) := by
    rw [ignores.same]
    apply foldlM_filter_of_skip
    intro head member dropped best
    rw [Bool.not_eq_false'] at dropped
    rw [LsmTree.resolveHead, ignores.not_indexKeyEq starts member dropped]
    rfl
  rw [LsmTree.prefixScanResolve, LsmTree.prefixScanResolve, heads]

theorem Ignores.advance
    (ignores : Ignores stopped st st')
    (starts : startsWith key st.keyPrefix = true) :
    Ignores stopped (LsmTree.prefixScanAdvance .none st key)
      (LsmTree.prefixScanAdvance .none st' key) := by
  constructor
  · rw [ignores.same]
    simp only [LsmTree.prefixScanAdvance, List.filter_map]
    congr 2
    apply List.filter_congr
    intro head _
    simp only [Function.comp]
    split <;> rfl
  · intro moved member isStopped
    rcases List.mem_map.mp member with ⟨head, inHeads, rfl⟩
    have same : stopped head.sst = true := by
      split at isStopped <;> exact isStopped
    rw [ignores.not_indexKeyEq starts inHeads same]
    exact ignores.stands head inHeads same

theorem Ignores.alike (stopped : SSTable → Bool) (tree : LsmTree) :
    Alike (tree.prefixScan .none) (Ignores stopped) where
  nextKey := fun ignores => ignores.nextKey
  resolve := fun ignores found =>
    ignores.resolve (LsmTree.startsWith_of_minKey found)
  advance := fun ignores found =>
    ignores.advance (LsmTree.startsWith_of_minKey found)

end

/-! ## What one call finds -/

section

variable {levelCount : Nat} {tree : LsmTree} {order : List Nat}
variable {keyPrefix : String} {after : Option String}

theorem QuiescentTables.source_of_live
    (quiescent : QuiescentTables levelCount tree.levels)
    (visits : VisitsLevels order tree.levels) {key : String} {found : Value}
    (live : tree.get levelCount key = some found) :
    Source .none (tree.active :: tree.immutables)
      (scannedTables order tree.levels) key := by
  rw [quiescent.get_eq] at live
  exact quiescent.source_of_shown visits live

theorem QuiescentTables.next_firstLive
    (quiescent : QuiescentTables levelCount tree.levels)
    (visits : VisitsLevels order tree.levels)
    {st : PrefixScanState} {keys : List String}
    (pending : Pending .none (tree.active :: tree.immutables)
      (scannedTables order tree.levels) keyPrefix st keys)
    {fuel : Nat} (enough : keys.length < fuel) :
    ∃ result st', (tree.prefixScan .none).next fuel st =
        some (.ok result, st') ∧
      IsFirstLive (tree.get levelCount) (AskedFor keyPrefix st.last)
        result := by
  have walks := prefixScan_walks .none tree keyPrefix
    (quiescent.wellFormed order)
  have shows : ∀ key, scanValue .none (tree.active :: tree.immutables)
      (scannedTables order tree.levels) key =
        .ok (tree.get levelCount key) := by
    intro key
    rw [quiescent.scanValue_ok visits (not_scanFails_none order tree key),
      indexed_none, ← quiescent.get_eq]
  rcases walks.next pending enough with ⟨st', call⟩
  rw [collect_of_ok fun key _ => shows key] at call
  have shown_iff : ∀ item : String × Value,
      item ∈ (keys.filterMap fun key =>
        (tree.get levelCount key).map (key, ·)) ↔
          item.1 ∈ keys ∧ tree.get levelCount item.1 = some item.2 := by
    intro item
    rw [List.mem_filterMap]
    constructor
    · rintro ⟨key, member, shown⟩
      rcases Option.map_eq_some_iff.mp shown with ⟨found, live, rfl⟩
      exact ⟨member, live⟩
    · rintro ⟨member, live⟩
      exact ⟨item.1, member, by rw [live]; rfl⟩
  have ascending : Ascending Prod.fst (keys.filterMap fun key =>
      (tree.get levelCount key).map (key, ·)) := by
    apply List.pairwise_filterMap.mpr
    apply pending.ascending.imp
    intro first second less item shown item' shown'
    rcases Option.map_eq_some_iff.mp shown with ⟨found, -, rfl⟩
    rcases Option.map_eq_some_iff.mp shown' with ⟨found', -, rfl⟩
    exact less
  have first := FirstOf.head? ascending
  refine ⟨(keys.filterMap fun key =>
    (tree.get levelCount key).map (key, ·)).head?, st', ?_, ?_, ?_⟩
  · rw [call]
    cases keys.filterMap fun key =>
      (tree.get levelCount key).map (key, ·) <;> rfl
  · intro key found head
    have live := (shown_iff (key, found)).mp (List.mem_of_head? head)
    have asked := (pending.mem_iff key).mp live.1
    exact ⟨⟨asked.1, asked.2.1⟩, live.2⟩
  · intro key found asked live
    have source := quiescent.source_of_live visits live
    have member := (shown_iff (key, found)).mpr
      ⟨(pending.mem_iff key).mpr ⟨asked.1, asked.2, source⟩, live⟩
    rcases first.least key ⟨_, member, rfl⟩ with ⟨least, below, head⟩
    rcases Option.map_eq_some_iff.mp head with ⟨item, leads, rfl⟩
    exact ⟨item.1, below, item.2, leads⟩

theorem scanNextStart_heads
    (wellFormed : ∀ table ∈ scannedTables order tree.levels,
      table.1.WellFormed) (last : String) :
    ∀ head ∈ (tree.scanNextStart .none order keyPrefix (some last)).heads,
      (head.sst, head.level) ∈ scannedTables order tree.levels ∧
        head.sst.entries.drop head.pos =
          head.sst.entries.filter fun entry => last < entry.key := by
  intro moved member
  rcases List.mem_map.mp member with ⟨head, inHeads, rfl⟩
  have standing := prefixScanStart_standing .none tree order keyPrefix
    wellFormed
  have inTables : (head.sst, head.level) ∈
      scannedTables order tree.levels := by
    rw [← standing.fixed]
    exact List.mem_map_of_mem inHeads
  exact ⟨inTables, SSTable.drop_seek (wellFormed _ inTables) last⟩

theorem scanNextStart_fixed
    (wellFormed : ∀ table ∈ scannedTables order tree.levels,
      table.1.WellFormed) (last : String) :
    (tree.scanNextStart .none order keyPrefix (some last)).heads.map
        (fun head => (head.sst, head.level)) =
      scannedTables order tree.levels := by
  rw [← (prefixScanStart_standing .none tree order keyPrefix
    wellFormed).fixed]
  simp only [LsmTree.scanNextStart, LsmTree.prefixScanSeekAfter,
    List.map_map]
  rfl

/-- Heads behind the key are in place when no key is between it and the
prefix. -/
theorem placed_of_drop
    {head : PrefixScanHead} {last : String}
    (drop : head.sst.entries.drop head.pos =
      head.sst.entries.filter fun entry => last < entry.key)
    (passes : head.sst.stops keyPrefix (some last) = false) :
    head.Placed keyPrefix (some last) := by
  rw [PrefixScanHead.Placed, drop]
  apply List.filter_congr
  intro entry member
  have low := not_stopsAt_iff.mp
    (SSTable.not_stops_iff.mp passes entry member)
  rw [ahead]
  by_cases less : last < entry.key
  · rw [decide_eq_true less, decide_eq_true (low less)]
    rfl
  · rw [decide_eq_false less, Bool.and_false]

/-! ### From the prefix on -/

/-- The key is in no way before the prefix. -/
def PrefixReached (keyPrefix : String) (after : Option String) : Prop :=
  ∀ last, after = some last → keyPrefix ≤ last

theorem prefixReached_none (keyPrefix : String) :
    PrefixReached keyPrefix none := by
  intro last same
  cases same

theorem prefixReached_some {last : String} (reached : keyPrefix ≤ last) :
    PrefixReached keyPrefix (some last) := by
  intro other same
  rw [← Option.some.inj same]
  exact reached

theorem PrefixReached.not_stopsAt
    (reached : PrefixReached keyPrefix after) (key : String) :
    stopsAt keyPrefix after key = false := by
  cases after with
  | none => rfl
  | some last =>
      apply not_stopsAt_iff.mpr
      exact fun less => (reached last rfl).trans less.le

theorem PrefixReached.table_not_stops
    (reached : PrefixReached keyPrefix after) (table : SSTable) :
    table.stops keyPrefix after = false :=
  SSTable.not_stops_iff.mpr fun entry _ => reached.not_stopsAt entry.key

theorem PrefixReached.withoutStopped_eq
    (reached : PrefixReached keyPrefix after) :
    tree.withoutStopped keyPrefix after = tree := by
  have levels : (fun level => (tree.levels level).filter fun table =>
      !table.stops keyPrefix after) = tree.levels := by
    funext level
    apply List.filter_eq_self.mpr
    intro table _
    rw [reached.table_not_stops table]
    rfl
  rw [LsmTree.withoutStopped, levels]

theorem PrefixReached.reached
    (start : PrefixReached keyPrefix after) {key : String}
    (asked : AskedFor keyPrefix after key)
    (source : Source .none (tree.active :: tree.immutables)
      (scannedTables order tree.levels) key) :
    tree.Reached keyPrefix after key := by
  refine ⟨key, le_rfl, asked, ?_⟩
  rcases source with ⟨memtable, member, held⟩ | ⟨table, member, -, held⟩
  · left
    refine ⟨memtable, member, ?_, held⟩
    exact Memtable.not_stops_iff.mpr fun other _ _ =>
      start.not_stopsAt other
  · right
    rcases List.mem_flatMap.mp member with ⟨level, -, inLevel⟩
    rcases List.mem_map.mp inLevel with ⟨sst, inTables, rfl⟩
    exact ⟨level, sst, inTables, start.table_not_stops sst, held⟩

theorem QuiescentTables.scanNext_from
    (quiescent : QuiescentTables levelCount tree.levels)
    (visits : VisitsLevels order tree.levels)
    (start : PrefixReached keyPrefix after) :
    ∃ result, tree.scanNext .none order keyPrefix after =
        some (.ok result) ∧
      IsFirstLive (tree.get levelCount) (AskedFor keyPrefix after)
        result := by
  have wellFormed := quiescent.wellFormed order
  cases after with
  | none =>
      rcases prefixScanStart_pending .none tree order keyPrefix wellFormed
        with ⟨keys, pending⟩
      rcases quiescent.next_firstLive visits pending pending.length_lt with
        ⟨result, st', call, first⟩
      refine ⟨result, ?_, first⟩
      rw [LsmTree.scanNext, LsmTree.prefixScanNext]
      exact congrArg (Option.map Prod.fst) call
  | some last =>
      have heads := @scanNextStart_heads tree order keyPrefix wellFormed last
      by_cases inside : startsWith last keyPrefix = true
      · have standing : Standing .none (scannedTables order tree.levels)
            keyPrefix
            (tree.scanNextStart .none order keyPrefix (some last)) := by
          constructor
          case scanned => rfl
          case fixed => exact scanNextStart_fixed wellFormed last
          case started =>
            intro a same
            rw [← Option.some.inj same]
            exact inside
          case placed =>
            intro head member _
            exact placed_of_drop (heads head member).2
              (start.table_not_stops head.sst)
        rcases standing.exists_pending (tree.active :: tree.immutables) with
          ⟨keys, pending⟩
        rcases quiescent.next_firstLive visits pending pending.length_lt with
          ⟨result, st', call, first⟩
        refine ⟨result, ?_, first⟩
        rw [LsmTree.scanNext, LsmTree.prefixScanNext]
        exact congrArg (Option.map Prod.fst) call
      · have beyond : ∀ key, ¬ AskedFor keyPrefix (some last) key := by
          intro key asked
          have less : last < key := of_decide_eq_true asked.2
          exact inside (startsWith_of_between asked.1 (start last rfl)
            less.le)
        have nothing : tree.prefixScanMinKey .none
            (tree.scanNextStart .none order keyPrefix (some last)) =
              none := by
          rw [Option.eq_none_iff_forall_ne_some, LsmTree.prefixScanMinKey,
            LsmTree.consider_eq]
          intro key found
          have wanted := ((considerOffers_spec _ _).1 key found).2
          rw [PrefixScanState.wants, Bool.and_eq_true] at wanted
          exact beyond key wanted
        refine ⟨none, ?_, ?_, ?_⟩
        · rw [LsmTree.scanNext, LsmTree.prefixScanNext, LsmTree.scanRounds,
            Cursor.next]
          simp only [LsmTree.prefixScan, nothing, Option.map_some]
        · intro key found same
          exact absurd same (by simp)
        · intro key found asked
          exact absurd asked (beyond key)

/-! ### From below the prefix -/

theorem scannedTables_withoutStopped (order : List Nat) (tree : LsmTree) :
    scannedTables order (tree.withoutStopped keyPrefix after).levels =
      (scannedTables order tree.levels).filter fun table =>
        !table.1.stops keyPrefix after := by
  rw [scannedTables, scannedTables, List.filter_flatMap]
  congr 1
  funext level
  rw [List.filter_map]
  rfl

theorem QuiescentTables.withoutStopped
    (quiescent : QuiescentTables levelCount tree.levels) :
    QuiescentTables levelCount
      (tree.withoutStopped keyPrefix after).levels where
  level0 := fun table member =>
    quiescent.level0 table (List.mem_filter.mp member).1
  distinct := by
    apply quiescent.distinct.mono
    intro entry member
    rcases List.mem_flatMap.mp member with ⟨table, inLevel, inTable⟩
    exact List.mem_flatMap.mpr
      ⟨table, (List.mem_filter.mp inLevel).1, inTable⟩
  level1 := by
    constructor
    · intro table member
      exact quiescent.level1.wellFormed table (List.mem_filter.mp member).1
    · have part : (allEntries ((tree.withoutStopped keyPrefix
          after).levels 1)).Sublist (allEntries (tree.levels 1)) :=
        List.Sublist.flatMap List.filter_sublist _
      exact quiescent.level1.ordered.sublist part
  above := by
    intro level
    simp only [LsmTree.withoutStopped, quiescent.above level,
      List.filter_nil]
  configured := by
    intro level below
    simp only [LsmTree.withoutStopped, quiescent.configured level below,
      List.filter_nil]

theorem VisitsLevels.withoutStopped
    (visits : VisitsLevels order tree.levels) :
    VisitsLevels order (tree.withoutStopped keyPrefix after).levels where
  once := visits.once
  all := by
    intro level nonempty
    apply visits.all
    intro empty
    simp only [LsmTree.withoutStopped, empty, List.filter_nil] at nonempty
    exact absurd rfl nonempty

def passingMemtables (keyPrefix : String) (after : Option String)
    (tree : LsmTree) : List Memtable :=
  (tree.active :: tree.immutables).filter fun memtable =>
    !memtable.stops keyPrefix after

theorem passesOn_iff
    (visits : VisitsLevels order tree.levels) {key : String} :
    tree.PassesOn keyPrefix after key ↔
      Source .none (passingMemtables keyPrefix after tree)
        (scannedTables order (tree.withoutStopped keyPrefix after).levels)
        key := by
  rw [LsmTree.PassesOn, Source, scannedTables_withoutStopped,
    passingMemtables]
  apply or_congr
  · simp only [List.mem_filter, Bool.not_eq_true', and_assoc]
  · constructor
    · rintro ⟨level, table, member, passes, held⟩
      refine ⟨(table, level), List.mem_filter.mpr ⟨?_, ?_⟩, rfl, held⟩
      · apply List.mem_flatMap.mpr
        refine ⟨level, visits.all level ?_, List.mem_map_of_mem member⟩
        intro empty
        rw [empty] at member
        exact absurd member List.not_mem_nil
      · rw [passes]
        rfl
    · rintro ⟨table, member, -, held⟩
      rcases List.mem_filter.mp member with ⟨inTables, passes⟩
      rcases List.mem_flatMap.mp inTables with ⟨level, -, inLevel⟩
      rcases List.mem_map.mp inLevel with ⟨sst, listed, rfl⟩
      exact ⟨level, sst, listed, by simpa using passes, held⟩

section

variable {last : String} (below : last < keyPrefix)

/-- The state without the tables that stop, and as if nothing had been
reached. -/
def passingStart (order : List Nat) (keyPrefix last : String)
    (tree : LsmTree) : PrefixScanState :=
  { keyPrefix := keyPrefix
    last := none
    heads := (tree.scanNextStart .none order keyPrefix
      (some last)).heads.filter fun head =>
        !head.sst.stops keyPrefix (some last) }

theorem scanNextStart_ignores
    (wellFormed : ∀ table ∈ scannedTables order tree.levels,
      table.1.WellFormed) :
    Ignores (·.stops keyPrefix (some last))
      (tree.scanNextStart .none order keyPrefix (some last))
      { passingStart order keyPrefix last tree with last := some last } := by
  constructor
  · rfl
  · intro head member stopped
    have place := scanNextStart_heads wellFormed last head member
    rcases List.any_eq_true.mp stopped with ⟨entry, inTable, stops⟩
    rw [stopsAt, Bool.and_eq_true, decide_eq_true_eq, decide_eq_true_eq]
      at stops
    have ascending : Ascending SSTableEntry.key head.sst.entries :=
      (wellFormed _ place.1).sorted
    have first := FirstOf.head? (ascending.filter fun entry =>
      decide (last < entry.key))
    rcases first.least entry.key ⟨entry, List.mem_filter.mpr
      ⟨inTable, decide_eq_true stops.1⟩, rfl⟩ with ⟨least, under, found⟩
    refine ⟨least, under.trans_lt stops.2, ?_⟩
    rw [SSTable.indexKeyAt_eq rfl, place.2]
    exact found

include below in
theorem passingStart_standing
    (wellFormed : ∀ table ∈ scannedTables order tree.levels,
      table.1.WellFormed) :
    Standing .none
      (scannedTables order
        (tree.withoutStopped keyPrefix (some last)).levels)
      keyPrefix (passingStart order keyPrefix last tree) := by
  constructor
  case scanned => rfl
  case fixed =>
    rw [scannedTables_withoutStopped,
      ← @scanNextStart_fixed tree order keyPrefix wellFormed last,
      passingStart, List.filter_map]
    rfl
  case started =>
    intro a found
    exact absurd found (by simp [passingStart])
  case placed =>
    intro head member _
    rcases List.mem_filter.mp member with ⟨inHeads, passes⟩
    rw [Bool.not_eq_true'] at passes
    have place := scanNextStart_heads wellFormed last head inHeads
    rw [PrefixScanHead.Placed, place.2]
    apply List.filter_congr
    intro entry inTable
    have low := not_stopsAt_iff.mp
      (SSTable.not_stops_iff.mp passes entry inTable)
    rw [show (passingStart order keyPrefix last tree).last = none from rfl,
      ahead, Bool.and_true]
    exact decide_eq_decide.mpr
      ⟨low, fun above => below.trans_le above⟩

include below in
theorem passingStart_nextKey
    (wellFormed : ∀ table ∈ scannedTables order tree.levels,
      table.1.WellFormed) {keys : List String}
    (pending : Pending .none (passingMemtables keyPrefix (some last) tree)
      (scannedTables order
        (tree.withoutStopped keyPrefix (some last)).levels)
      keyPrefix (passingStart order keyPrefix last tree) keys) :
    tree.prefixScanMinKey .none
        { passingStart order keyPrefix last tree with last := some last } =
      keys.head? := by
  have wellFormedLeft : ∀ table ∈ scannedTables order
      (tree.withoutStopped keyPrefix (some last)).levels,
      table.1.WellFormed := by
    intro table member
    rw [scannedTables_withoutStopped] at member
    exact wellFormed table (List.mem_filter.mp member).1
  rw [LsmTree.prefixScanMinKey, LsmTree.consider_eq]
  apply considerOffers_eq_head? pending.ascending
  · intro key offered wanted
    rw [PrefixScanState.wants, Bool.and_eq_true] at wanted
    rcases List.mem_append.mp offered with fromTable | fromMemtable
    · rcases List.mem_map.mp fromTable with ⟨head, member, found⟩
      exact pending.of_indexKeyAt wellFormedLeft member rfl found wanted.1
    · rcases List.mem_map.mp fromMemtable with ⟨memtable, member, found⟩
      cases stops : memtable.stops keyPrefix (some last) with
      | true =>
          have silent := Memtable.firstKeyAfter_stopped stops
          exact absurd (silent.symm.trans found) (by simp)
      | false =>
          have first := Memtable.firstKeyAfter_passing stops
          apply (pending.mem_iff key).mpr
          refine ⟨wanted.1, rfl, Or.inl ⟨memtable, ?_,
            (first.sound key found).1⟩⟩
          exact List.mem_filter.mpr ⟨member, by rw [stops]; rfl⟩
  · intro key inKeys
    rcases (pending.mem_iff key).mp inKeys with ⟨starts, -, source⟩
    have less : last < key := below.trans_le (le_of_startsWith starts)
    rcases source with ⟨memtable, member, held⟩ | inTable
    · rcases List.mem_filter.mp member with ⟨inTree, passes⟩
      rw [Bool.not_eq_true'] at passes
      have first := Memtable.firstKeyAfter_passing passes
      rcases first.least key ⟨held, starts, less⟩ with
        ⟨least, under, found⟩
      have facts := (first.sound least found).2
      refine ⟨least, under, ?_, ?_⟩
      · apply List.mem_append_right
        exact List.mem_map.mpr ⟨memtable, inTree, found⟩
      · rw [PrefixScanState.wants, Bool.and_eq_true]
        exact ⟨facts.1, decide_eq_true facts.2⟩
    · rcases inTable with ⟨table, member, readable, held⟩
      rcases pending.exists_head member with ⟨head, inHeads, same⟩
      rw [← same] at readable held
      have first := (pending.placed head inHeads readable).first
        (wellFormedLeft _ (pending.head_mem inHeads)) readable
      rcases first.least key ⟨held, le_of_startsWith starts, rfl⟩ with
        ⟨least, under, found⟩
      have low := (first.sound least found).2.1
      refine ⟨least, under, ?_, ?_⟩
      · apply List.mem_append_left
        exact List.mem_map.mpr ⟨head, inHeads, found⟩
      · rw [PrefixScanState.wants, Bool.and_eq_true]
        exact ⟨startsWith_of_between starts low under,
          decide_eq_true (below.trans_le low)⟩

theorem scanRounds_passingStart_le :
    tree.scanRounds (passingStart order keyPrefix last tree) ≤
      tree.scanRounds
        (tree.scanNextStart .none order keyPrefix (some last)) := by
  have part : (passingStart order keyPrefix last tree).heads.Sublist
      (tree.scanNextStart .none order keyPrefix (some last)).heads :=
    List.filter_sublist
  have sums := (part.map fun head => head.sst.entries.length).sum_le_sum
    fun _ _ => Nat.zero_le _
  rw [LsmTree.scanRounds, LsmTree.scanRounds]
  omega

theorem source_of_passing
    {tables : List (SSTable × Nat)} {key : String}
    (source : Source .none (passingMemtables keyPrefix (some last) tree)
      tables key) :
    Source .none (tree.active :: tree.immutables) tables key := by
  apply source.imp_left
  rintro ⟨memtable, member, held⟩
  exact ⟨memtable, (List.mem_filter.mp member).1, held⟩

theorem resolve_passingStart
    (left : QuiescentTables levelCount
      (tree.withoutStopped keyPrefix (some last)).levels)
    (visitsLeft : VisitsLevels order
      (tree.withoutStopped keyPrefix (some last)).levels)
    {first : String} {rest : List String}
    (pending : Pending .none (passingMemtables keyPrefix (some last) tree)
      (scannedTables order
        (tree.withoutStopped keyPrefix (some last)).levels)
      keyPrefix (passingStart order keyPrefix last tree) (first :: rest)) :
    tree.prefixScanResolve .none
        { passingStart order keyPrefix last tree with last := some last }
        first =
      .ok ((tree.withoutStopped keyPrefix (some last)).get levelCount
        first) := by
  have fold := pending.foldlM_resolveHead (left.wellFormed order)
  have value := left.scanValue_ok visitsLeft
    (not_scanFails_none order _ first)
  rw [indexed_none, ← left.get_eq] at value
  have memtables : (tree.withoutStopped keyPrefix (some last)).active ::
      (tree.withoutStopped keyPrefix (some last)).immutables =
        tree.active :: tree.immutables := rfl
  rw [← value, memtables]
  cases found : getFromMemtables (tree.active :: tree.immutables) first <;>
    simp only [LsmTree.prefixScanResolve, scanValue, found, fold]

include below in
/-- From below the prefix the scan goes to the first key that is passed on,
and from there on along the tables that do not stop. -/
theorem QuiescentTables.scanNext_below
    (quiescent : QuiescentTables levelCount tree.levels)
    (visits : VisitsLevels order tree.levels) :
    ∃ result, tree.scanNext .none order keyPrefix (some last) =
        some (.ok result) ∧
      IsFirstLive
        ((tree.withoutStopped keyPrefix (some last)).get levelCount)
        (fun key => AskedFor keyPrefix (some last) key ∧
          tree.Reached keyPrefix (some last) key) result := by
  have wellFormed := quiescent.wellFormed order
  have left : QuiescentTables levelCount
      (tree.withoutStopped keyPrefix (some last)).levels :=
    quiescent.withoutStopped
  have visitsLeft : VisitsLevels order
      (tree.withoutStopped keyPrefix (some last)).levels :=
    visits.withoutStopped
  have standing := passingStart_standing below wellFormed
  rcases standing.exists_pending
    (passingMemtables keyPrefix (some last) tree) with ⟨keys, pending⟩
  rcases standing.exists_pending (tree.active :: tree.immutables) with
    ⟨all, allPending⟩
  have ahead_iff : ∀ {key}, startsWith key keyPrefix = true →
      last < key := fun starts => below.trans_le (le_of_startsWith starts)
  have passed_iff : ∀ key, key ∈ keys ↔
      AskedFor keyPrefix (some last) key ∧
        tree.PassesOn keyPrefix (some last) key := by
    intro key
    rw [pending.mem_iff, passesOn_iff visits, AskedFor, and_assoc]
    apply and_congr_right
    intro starts
    apply and_congr_left
    intro _
    exact ⟨fun _ => decide_eq_true (ahead_iff starts), fun _ => rfl⟩
  have enough : all.length < tree.scanRounds
      (tree.scanNextStart .none order keyPrefix (some last)) :=
    (@Pending.length_lt .none tree _ _ _ _ allPending).trans_le
      scanRounds_passingStart_le
  have same := (Ignores.alike _ tree).next
    (@scanNextStart_ignores tree order keyPrefix last wellFormed)
    (tree.scanRounds
      (tree.scanNextStart .none order keyPrefix (some last)))
  rw [LsmTree.scanNext, LsmTree.prefixScanNext, same]
  have offered := passingStart_nextKey below wellFormed pending
  generalize tree.scanRounds
    (tree.scanNextStart .none order keyPrefix (some last)) = rounds
    at enough
  cases rounds with
  | zero => exact absurd enough (Nat.not_lt_zero _)
  | succ fuel =>
      rw [Cursor.next]
      simp only [LsmTree.prefixScan]
      rw [offered]
      cases keys with
      | nil =>
          refine ⟨none, rfl, ?_, ?_⟩
          · intro key found none
            exact absurd none (by simp)
          · intro key found reached _
            rcases reached.2 with ⟨first, -, asked, passes⟩
            exact absurd ((passed_iff first).mpr ⟨asked, passes⟩)
              List.not_mem_nil
      | cons first rest =>
          have firstPassed := (passed_iff first).mp List.mem_cons_self
          have above : ∀ key, tree.Reached keyPrefix (some last) key →
              first ≤ key := by
            rintro key ⟨other, under, asked, passes⟩
            have member := (passed_iff other).mpr ⟨asked, passes⟩
            rcases List.mem_cons.mp member with here | behind
            · exact here ▸ under
            · exact ((List.pairwise_cons.mp pending.ascending).1 other
                behind).le.trans under
          rw [List.head?_cons]
          simp only
          rw [resolve_passingStart left visitsLeft pending]
          cases live : (tree.withoutStopped keyPrefix (some last)).get
              levelCount first with
          | some found =>
              refine ⟨some (first, found), rfl, ?_, ?_⟩
              · intro key found' same
                rw [Option.some.injEq, Prod.mk.injEq] at same
                rw [← same.1, ← same.2]
                exact ⟨⟨firstPassed.1, first, le_rfl, firstPassed⟩, live⟩
              · intro key found' reached _
                exact ⟨first, above key reached.2, found, rfl⟩
          | none =>
              have moved := pending.advance (left.wellFormed order)
              have behind : Standing .none (scannedTables order
                  (tree.withoutStopped keyPrefix (some last)).levels)
                  keyPrefix (LsmTree.prefixScanAdvance .none
                    (passingStart order keyPrefix last tree) first) :=
                ⟨moved.scanned, moved.fixed, moved.started, moved.placed⟩
              rcases behind.exists_pending
                (tree.active :: tree.immutables) with ⟨others, othersPending⟩
              have fewer : others.length < fuel := by
                have part : first :: others ⊆ all := by
                  intro key member
                  rw [allPending.mem_iff]
                  rcases List.mem_cons.mp member with here | later
                  · have facts := (pending.mem_iff first).mp
                      List.mem_cons_self
                    rw [here]
                    exact ⟨facts.1, rfl, source_of_passing facts.2.2⟩
                  · have facts := (othersPending.mem_iff key).mp later
                    exact ⟨facts.1, rfl, facts.2.2⟩
                have nodup : (first :: others).Nodup := by
                  apply List.nodup_cons.mpr
                  refine ⟨?_, othersPending.ascending.imp fun less =>
                    less.ne⟩
                  intro member
                  have less := ((othersPending.mem_iff first).mp member).2.1
                  exact lt_irrefl first (of_decide_eq_true less)
                have bound := (List.subperm_of_subset nodup part).length_le
                rw [List.length_cons] at bound
                omega
              rcases @QuiescentTables.next_firstLive levelCount
                (tree.withoutStopped keyPrefix (some last)) order keyPrefix
                left visitsLeft _ others othersPending fuel fewer with
                ⟨result, st', call, next⟩
              refine ⟨result, congrArg (Option.map Prod.fst) call, ?_, ?_⟩
              · intro key found same
                rcases next.sound key found same with ⟨asked, shown⟩
                have less : first < key := of_decide_eq_true asked.2
                exact ⟨⟨⟨asked.1, decide_eq_true (ahead_iff asked.1)⟩,
                  first, less.le, firstPassed⟩, shown⟩
              · intro key found reached shown
                apply next.least key found _ shown
                have different : first ≠ key := by
                  intro same
                  rw [← same, live] at shown
                  exact absurd shown (by simp)
                exact ⟨reached.1.1, decide_eq_true
                  (lt_of_le_of_ne (above key reached.2) different)⟩

end

/-! ## When it is the successor -/

/-- The scan finds the first key that the tables which do not stop show as
live, from the first one on that is passed on. -/
theorem QuiescentTables.scanNext_finds
    (quiescent : QuiescentTables levelCount tree.levels)
    (visits : VisitsLevels order tree.levels)
    (keyPrefix : String) (after : Option String) :
    ∃ result, tree.scanNext .none order keyPrefix after =
        some (.ok result) ∧
      IsFirstLive ((tree.withoutStopped keyPrefix after).get levelCount)
        (fun key => AskedFor keyPrefix after key ∧
          tree.Reached keyPrefix after key) result := by
  have fromPrefix : PrefixReached keyPrefix after →
      ∃ result, tree.scanNext .none order keyPrefix after =
          some (.ok result) ∧
        IsFirstLive ((tree.withoutStopped keyPrefix after).get levelCount)
          (fun key => AskedFor keyPrefix after key ∧
            tree.Reached keyPrefix after key) result := by
    intro start
    rcases quiescent.scanNext_from visits start with ⟨result, call, first⟩
    rw [start.withoutStopped_eq]
    refine ⟨result, call, ?_, ?_⟩
    · intro key found same
      rcases first.sound key found same with ⟨asked, live⟩
      exact ⟨⟨asked, start.reached asked
        (quiescent.source_of_live visits live)⟩, live⟩
    · exact fun key found wanted => first.least key found wanted.1
  cases after with
  | none => exact fromPrefix (prefixReached_none keyPrefix)
  | some last =>
      rcases lt_or_ge last keyPrefix with below | reached
      · exact quiescent.scanNext_below below visits
      · exact fromPrefix (prefixReached_some reached)

theorem QuiescentTables.exists_firstLive
    (quiescent : QuiescentTables levelCount tree.levels)
    (visits : VisitsLevels order tree.levels)
    (keyPrefix : String) (after : Option String) :
    ∃ result, IsFirstLive (tree.get levelCount)
      (AskedFor keyPrefix after) result := by
  have fromPrefix : ∀ after, PrefixReached keyPrefix after →
      ∃ result, IsFirstLive (tree.get levelCount)
        (AskedFor keyPrefix after) result := by
    intro after start
    rcases quiescent.scanNext_from visits start with ⟨result, -, first⟩
    exact ⟨result, first⟩
  cases after with
  | none => exact fromPrefix none (prefixReached_none keyPrefix)
  | some last =>
      rcases lt_or_ge last keyPrefix with below | reached
      · rcases fromPrefix none (prefixReached_none keyPrefix) with
          ⟨result, first⟩
        have asked_iff : AskedFor keyPrefix (some last) =
            AskedFor keyPrefix none := by
          funext key
          apply propext
          apply and_congr_right
          intro starts
          have less := below.trans_le (le_of_startsWith starts)
          exact ⟨fun _ => rfl, fun _ => decide_eq_true less⟩
        exact ⟨result, asked_iff ▸ first⟩
      · exact fromPrefix (some last) (prefixReached_some reached)

/-- What is not reached, and is not live, is not live without the tables that
stop. -/
theorem get_withoutStopped_of_not_reached
    (quiescent : QuiescentTables levelCount tree.levels)
    (visits : VisitsLevels order tree.levels) {key : String}
    (asked : AskedFor keyPrefix after key)
    (apart : ¬ tree.Reached keyPrefix after key)
    (dead : tree.get levelCount key = none) :
    (tree.withoutStopped keyPrefix after).get levelCount key = none := by
  have left : QuiescentTables levelCount
      (tree.withoutStopped keyPrefix after).levels :=
    quiescent.withoutStopped
  cases held : memtableValue (tree.active :: tree.immutables) key with
  | some value =>
      have same : (tree.withoutStopped keyPrefix after).get levelCount key =
          tree.get levelCount key := by
        rw [LsmTree.get_eq, LsmTree.get_eq, held]
        have held' : memtableValue
            ((tree.withoutStopped keyPrefix after).active ::
              (tree.withoutStopped keyPrefix after).immutables) key =
                some value := held
        rw [held']
      rw [same, dead]
  | none =>
      cases shown : (tree.withoutStopped keyPrefix after).get levelCount key
        with
      | none => rfl
      | some found =>
          rcases left.source_of_live visits.withoutStopped shown with
            inMemtable | inTable
          · rcases inMemtable with ⟨memtable, member, value, here⟩
            rw [memtableValue, List.findSome?_eq_none_iff] at held
            exact absurd ((held memtable member).symm.trans here) (by simp)
          · exact absurd ⟨key, le_rfl, asked,
              (passesOn_iff visits).mpr (Or.inr inTable)⟩ apart

theorem PrefixReached.reads
    (quiescent : QuiescentTables levelCount tree.levels)
    (visits : VisitsLevels order tree.levels)
    (start : PrefixReached keyPrefix after) :
    tree.ReachesLive levelCount keyPrefix after ∧
      tree.ReadsWithoutStopped levelCount keyPrefix after := by
  constructor
  · intro key asked live
    rcases Option.isSome_iff_exists.mp live with ⟨found, live⟩
    exact start.reached asked (quiescent.source_of_live visits live)
  · intro key asked _
    rw [start.withoutStopped_eq]

end

/-! ## Records that can be read -/

section

variable {st : PrefixScanState} {tree : LsmTree}

theorem prefixScanResolve_records
    (readsBack : ∀ head ∈ st.heads, head.sst.ReadsBack) (key : String) :
    LsmTree.prefixScanResolve .records tree st key =
      LsmTree.prefixScanResolve .none tree st key := by
  have alike : ∀ head ∈ st.heads, ∀ best,
      LsmTree.resolveHead .records key best head =
        LsmTree.resolveHead .none key best head := by
    intro head member best
    have found : head.sst.lookupSync .none key = .ok (head.sst.lookup key) := by
      rw [SSTable.lookupSync, SSTable.lookup]
      split
      · cases head.sst.entries.find? (fun entry => entry.key = key) <;> rfl
      · rfl
    rw [LsmTree.resolveHead, LsmTree.resolveHead,
      (readsBack head member).lookupSync_records, found]
    rfl
  have folded : ∀ heads, heads ⊆ st.heads → ∀ best,
      heads.foldlM (LsmTree.resolveHead .records key) best =
        heads.foldlM (LsmTree.resolveHead .none key) best := by
    intro heads
    induction heads with
    | nil => exact fun _ _ => rfl
    | cons head rest inductionHypothesis =>
        intro part best
        have parts := List.cons_subset.mp part
        rw [List.foldlM_cons, List.foldlM_cons, alike head parts.1]
        congr 1
        funext best
        exact inductionHypothesis parts.2 best
  rw [LsmTree.prefixScanResolve, LsmTree.prefixScanResolve,
    folded st.heads (List.Subset.refl _)]

theorem prefixScanNext_records
    (readsBack : ∀ head ∈ st.heads, head.sst.ReadsBack) :
    tree.prefixScanNext .records st = tree.prefixScanNext .none st := by
  apply Cursor.next_congr fun st : PrefixScanState =>
    ∀ head ∈ st.heads, head.sst.ReadsBack
  · exact fun state key readsBack => prefixScanResolve_records readsBack key
  · intro state key readsBack head member
    obtain ⟨before, inHeads, same⟩ := List.mem_map.mp member
    have table : head.sst = before.sst := by
      rw [← same]
      split <;> rfl
    rw [table]
    exact readsBack before inHeads
  · exact readsBack

theorem scanNext_records
    (readsBack : ∀ level, ∀ table ∈ tree.levels level, table.ReadsBack)
    (order : List Nat) (keyPrefix : String) (after : Option String) :
    tree.scanNext .records order keyPrefix after =
      tree.scanNext .none order keyPrefix after := by
  have started : ∀ head ∈
      (LsmTree.scanNextStart .records tree order keyPrefix after).heads,
      head.sst.ReadsBack := by
    have heads : ∀ head ∈
        (tree.prefixScanStart .records order keyPrefix).heads,
        head.sst.ReadsBack := by
      intro head member
      obtain ⟨level, -, inLevel⟩ := List.mem_flatMap.mp member
      obtain ⟨table, inTables, rfl⟩ := List.mem_map.mp inLevel
      exact readsBack level table inTables
    cases after with
    | none => exact heads
    | some last =>
        intro head member
        obtain ⟨before, inHeads, rfl⟩ := List.mem_map.mp member
        exact heads before inHeads
  rw [LsmTree.scanNext, LsmTree.scanNext, prefixScanNext_records started]
  rfl

end

/-- `scan_next` returns the first live key with the prefix behind the given
one, with the value that a read finds, exactly when every such key has one at
or below it in a memtable or a table without keys between the given key and
the prefix, and reads up to the first live key do not need the tables with
such keys. -/
theorem scan_next_is_successor_iff
    {levelCount : Nat} {tree : LsmTree}
    (quiescent : QuiescentTables levelCount tree.levels)
    {order : List Nat} (visits : VisitsLevels order tree.levels)
    (readsBack : ∀ level, ∀ table ∈ tree.levels level, table.ReadsBack)
    (keyPrefix : String) (after : Option String) :
    (∃ result, tree.scanNext .records order keyPrefix after =
        some (.ok result) ∧
      IsFirstLive (tree.getChecked levelCount) (AskedFor keyPrefix after)
        result) ↔
      tree.ReachesLive levelCount keyPrefix after ∧
        tree.ReadsWithoutStopped levelCount keyPrefix after := by
  rw [scanNext_records readsBack,
    funext (LsmTree.getChecked_eq readsBack levelCount)]
  rcases quiescent.scanNext_finds visits keyPrefix after with
    ⟨result, call, finds⟩
  rcases quiescent.exists_firstLive visits keyPrefix after with
    ⟨expected, first⟩
  have upward : ∀ key other, key ≤ other →
      tree.Reached keyPrefix after key → tree.Reached keyPrefix after other := by
    rintro key other above ⟨passed, below, asked, passes⟩
    exact ⟨passed, below.trans above, asked, passes⟩
  have right_iff := first.iff_reads_alike finds upward
    fun key asked apart dead =>
      get_withoutStopped_of_not_reached quiescent visits asked apart dead
  refine Iff.trans ?_ right_iff
  constructor
  · rintro ⟨result', call', right⟩
    rw [call, Option.some.injEq, Except.ok.injEq] at call'
    rw [call']
    exact right
  · exact fun right => ⟨result, call, right⟩

/-! ## Two keys in a memtable -/

def keysAroundPrefix : LsmTree := putTrue (putTrue .empty "b") "ca"

theorem keysAroundPrefix_run : ManualRun leveledConfig keysAroundPrefix :=
  (ManualRun.empty.put "b" (.bool true) ⟨rfl, by decide⟩).put "ca"
    (.bool true) ⟨rfl, by decide⟩

theorem keysAroundPrefix_quiescent :
    QuiescentTables 7 keysAroundPrefix.levels :=
  keysAroundPrefix_run.invariant.quiescentTables (by decide)

theorem keysAroundPrefix_visits :
    VisitsLevels [0] keysAroundPrefix.levels := by
  constructor
  · decide
  · intro level nonempty
    exact absurd rfl nonempty

/-- From the prefix itself the scan finds the key. -/
theorem scan_next_from_prefix :
    ∃ result, keysAroundPrefix.scanNext .records [0] "c" (some "c") =
        some (.ok result) ∧
      IsFirstLive (keysAroundPrefix.getChecked 7) (AskedFor "c" (some "c"))
        result := by
  apply (scan_next_is_successor_iff keysAroundPrefix_quiescent
    keysAroundPrefix_visits keysAroundPrefix_run.readsBack.tables "c"
    (some "c")).mpr
  apply PrefixReached.reads keysAroundPrefix_quiescent
    keysAroundPrefix_visits
  intro last same
  exact (Option.some.inj same).le

/-- From below it the key before the prefix hides the one with it. -/
theorem scan_next_stops_before_prefix :
    keysAroundPrefix.scanNext .records [0] "c" (some "a") = some (.ok none) ∧
      keysAroundPrefix.getChecked 7 "ca" = some (.bool true) ∧
      ¬ ∃ result, keysAroundPrefix.scanNext .records [0] "c" (some "a") =
          some (.ok result) ∧
        IsFirstLive (keysAroundPrefix.getChecked 7) (AskedFor "c" (some "a"))
          result := by
  have nothing : keysAroundPrefix.scanNext .records [0] "c" (some "a") =
      some (.ok none) := rfl
  have live : keysAroundPrefix.getChecked 7 "ca" = some (.bool true) := rfl
  refine ⟨nothing, live, ?_⟩
  rintro ⟨result, call, first⟩
  rw [nothing, Option.some.injEq, Except.ok.injEq] at call
  rcases first.least "ca" (.bool true) ⟨by decide, by decide⟩ live with
    ⟨least, -, found, same⟩
  exact absurd (call.trans same) (by simp)

end F4kvsLsm
