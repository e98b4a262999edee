import F4kvsLsm.Engine.PrefixScan
import F4kvsLsm.Compaction.Preserved

/-!
# What prefix scans yield

The state of a scan has still to come to the keys with the prefix behind the
last one, in the memtables and in the tables with an index: every table stands
on its first such key.  A round takes the least of them.
-/

namespace F4kvsLsm

open KeyOrder Cursors Versions

/-! ## Which keys a state has still to come to -/

/-- The key is behind the last one. -/
def ahead (last : Option String) (key : String) : Bool :=
  match last with
  | some a => decide (a < key)
  | none => true

theorem ahead_of_lt {last : Option String} {key other : String}
    (after : ahead last key = true) (less : key < other) :
    ahead last other = true := by
  cases last with
  | none => rfl
  | some a => exact decide_eq_true ((of_decide_eq_true after).trans less)

def PrefixScanState.wants (st : PrefixScanState) (key : String) : Bool :=
  startsWith key st.keyPrefix && ahead st.last key

theorem LsmTree.consider_eq (st : PrefixScanState) :
    LsmTree.consider st = keepLeast st.wants := by
  funext best cand
  cases wanted : st.wants cand with
  | false =>
      rw [keepLeast_unwanted wanted]
      rw [PrefixScanState.wants, Bool.and_eq_false_iff] at wanted
      unfold LsmTree.consider
      rcases wanted with foreign | reached
      · rw [if_pos foreign]
      · cases last : st.last with
        | none => simp [last, ahead] at reached
        | some a =>
            rw [last, ahead, decide_eq_false_iff_not, not_lt] at reached
            rw [Option.map_some, decide_eq_true reached, if_pos rfl, ite_self]
  | true =>
      have parts := wanted
      rw [PrefixScanState.wants, Bool.and_eq_true] at parts
      have unreached : (st.last.map fun a => decide (cand ≤ a)) ≠
          some true := by
        cases last : st.last with
        | none => simp
        | some a =>
            have after := parts.2
            rw [last, ahead, decide_eq_true_eq] at after
            simp [after]
      unfold LsmTree.consider keepLeast
      rw [if_neg (by simp [parts.1]), if_neg unreached, if_pos wanted]
      cases best <;> rfl

theorem LsmTree.considerSync_eq (st : PrefixScanState) :
    LsmTree.considerSync st = LsmTree.consider st := by
  funext best cand
  unfold LsmTree.considerSync LsmTree.consider
  cases st.last with
  | none => cases best <;> simp
  | some a => cases best <;> simp

/-- A memtable offers its first key that the scan has still to come to, when
it holds nothing between the last key and the prefix. -/
theorem Memtable.firstKeyAfter_reaching (m : Memtable) {keyPrefix : String}
    {last : Option String}
    (reaches : ∀ a, last = some a → ∀ key value,
      m.data[key]? = some value → a < key → keyPrefix ≤ key) :
    FirstOf (fun key => (∃ value, m.data[key]? = some value) ∧
        startsWith key keyPrefix = true ∧ ahead last key = true)
      (m.firstKeyAfter keyPrefix last) := by
  obtain ⟨reached, whole, reachedIff, above⟩ : ∃ reached,
      m.firstKeyAfter keyPrefix last =
        (reached.head?.bind fun entry =>
          if startsWith entry.1 keyPrefix then some entry.1 else none) ∧
      (∀ entry : String × Value × Bool, entry ∈ reached ↔
        entry ∈ m.getAllEntries ∧ ahead last entry.1 = true ∧
          (last = none → keyPrefix ≤ entry.1)) ∧
      Ascending Prod.fst reached := by
    cases last with
    | none =>
        refine ⟨m.range keyPrefix, ?_, ?_, m.range_ascending keyPrefix⟩
        · cases head : (m.range keyPrefix).head? <;>
            simp only [firstKeyAfter, head, Option.bind]
        · intro entry
          simp [Memtable.range, ahead]
    | some a =>
        refine ⟨m.getAllEntries.filter fun entry => a < entry.1, ?_, ?_,
          m.ascending.filter _⟩
        · cases head : (m.getAllEntries.filter
              fun entry => a < entry.1).head? <;>
            simp only [firstKeyAfter, head, Option.bind]
        · intro entry
          simp [ahead]
  have first := FirstOf.head? above
  rw [whole]
  cases head : reached.head? with
  | none =>
      constructor
      · simp
      · rintro key ⟨⟨value, held⟩, starts, after⟩
        have member := (reachedIff (key, value, value.isNull)).mpr
          ⟨Memtable.mem_getAllEntries.mpr ⟨held, rfl⟩, after,
            fun _ => le_of_startsWith starts⟩
        rw [List.head?_eq_none_iff] at head
        rw [head] at member
        exact absurd member List.not_mem_nil
  | some entry =>
      have entryReached := (reachedIff entry).mp (List.mem_of_head? head)
      simp only [Option.bind_some]
      constructor
      · intro key found
        split at found
        · case isTrue starts =>
            rw [← Option.some.inj found]
            have held := Memtable.mem_getAllEntries.mp entryReached.1
            exact ⟨⟨entry.2.1, held.1⟩, starts, entryReached.2.1⟩
        · exact absurd found (by simp)
      · rintro key ⟨⟨value, held⟩, starts, after⟩
        have member := (reachedIff (key, value, value.isNull)).mpr
          ⟨Memtable.mem_getAllEntries.mpr ⟨held, rfl⟩, after,
            fun _ => le_of_startsWith starts⟩
        rcases first.least key ⟨_, member, rfl⟩ with ⟨least, below, found⟩
        rw [head, Option.map_some, Option.some.injEq] at found
        have low : keyPrefix ≤ entry.1 := by
          cases last with
          | none => exact entryReached.2.2 rfl
          | some a =>
              exact reaches a rfl entry.1 entry.2.1
                (Memtable.mem_getAllEntries.mp entryReached.1).1
                (of_decide_eq_true entryReached.2.1)
        rw [← found] at below
        have entryStarts := startsWith_of_between starts low below
        refine ⟨entry.1, below, ?_⟩
        rw [if_pos entryStarts]

theorem Memtable.firstKeyAfter_first (m : Memtable) {keyPrefix : String}
    {last : Option String}
    (started : ∀ a, last = some a → startsWith a keyPrefix = true) :
    FirstOf (fun key => (∃ value, m.data[key]? = some value) ∧
        startsWith key keyPrefix = true ∧ ahead last key = true)
      (m.firstKeyAfter keyPrefix last) := by
  apply m.firstKeyAfter_reaching
  intro a here key value _ less
  exact (le_of_startsWith (started a here)).trans less.le

/-! ## Where the tables of a scan stand -/

/-- The table stands on its first entry that the scan has still to come
to. -/
def PrefixScanHead.Placed (keyPrefix : String) (last : Option String)
    (head : PrefixScanHead) : Prop :=
  head.sst.entries.drop head.pos = head.sst.entries.filter fun entry =>
    decide (keyPrefix ≤ entry.key) && ahead last entry.key

section

variable {faults : ReadFaults} {head : PrefixScanHead}
variable {keyPrefix : String} {last : Option String}

theorem SSTable.indexKeyAt_eq {table : SSTable}
    (readable : faults.index table = none) (pos : Nat) :
    table.indexKeyAt faults pos =
      ((table.entries.drop pos).head?).map (·.key) := by
  rw [SSTable.indexKeyAt, readable, List.head?_drop]

theorem SSTable.indexKeyEq_eq (table : SSTable) (pos : Nat) (key : String) :
    table.indexKeyEq faults pos key =
      decide (table.indexKeyAt faults pos = some key) := by
  rw [SSTable.indexKeyEq, SSTable.indexKeyAt]
  cases faults.index table with
  | some _ => rfl
  | none => cases table.entries[pos]? <;> simp

theorem SSTable.indexKeyEq_unreadable {table : SSTable} {failure : LsmError}
    (failed : faults.index table = some failure) (pos : Nat) (key : String) :
    table.indexKeyEq faults pos key = false := by
  rw [SSTable.indexKeyEq, failed]

theorem PrefixScanHead.Placed.first
    (placed : head.Placed keyPrefix last)
    (wellFormed : head.sst.WellFormed)
    (readable : faults.index head.sst = none) :
    FirstOf (fun key => (∃ entry ∈ head.sst.entries, entry.key = key) ∧
        keyPrefix ≤ key ∧ ahead last key = true)
      (head.sst.indexKeyAt faults head.pos) := by
  have ascending : Ascending SSTableEntry.key head.sst.entries :=
    wellFormed.sorted
  rw [SSTable.indexKeyAt_eq readable, placed]
  have first := FirstOf.head? (ascending.filter fun entry =>
    decide (keyPrefix ≤ entry.key) && ahead last entry.key)
  constructor
  · intro key found
    rcases first.sound key found with ⟨entry, member, rfl⟩
    rw [List.mem_filter, Bool.and_eq_true, decide_eq_true_eq] at member
    exact ⟨⟨entry, member.1, rfl⟩, member.2⟩
  · rintro key ⟨⟨entry, member, rfl⟩, low, after⟩
    apply first.least
    refine ⟨entry, List.mem_filter.mpr ⟨member, ?_⟩, rfl⟩
    rw [decide_eq_true low, after]
    rfl

theorem PrefixScanHead.placed_start {table : SSTable} (level : Nat)
    (wellFormed : table.WellFormed)
    (readable : faults.index table = none) :
    PrefixScanHead.Placed keyPrefix none
      ⟨table, level, table.indexStart faults keyPrefix⟩ := by
  rw [PrefixScanHead.Placed, SSTable.indexStart, readable]
  simp only [ahead, Bool.and_true]
  exact drop_partitionPoint_lt wellFormed.sorted keyPrefix

/-- A table moves past the key that the scan comes to, when it has it. -/
theorem PrefixScanHead.Placed.advance
    (placed : head.Placed keyPrefix last)
    (wellFormed : head.sst.WellFormed)
    (readable : faults.index head.sst = none) {key : String}
    (after : ahead last key = true)
    (least : ∀ other, head.sst.indexKeyAt faults head.pos = some other →
      key ≤ other) :
    PrefixScanHead.Placed keyPrefix (some key)
      (if head.sst.indexKeyEq faults head.pos key then
        { head with pos := head.pos + 1 } else head) := by
  have behind : (head.sst.entries.filter fun entry =>
        decide (keyPrefix ≤ entry.key) && ahead (some key) entry.key) =
      (head.sst.entries.drop head.pos).filter fun entry =>
        key < entry.key := by
    rw [placed, List.filter_filter]
    apply List.filter_congr
    intro entry _
    by_cases less : key < entry.key
    · rw [ahead_of_lt after less]
      simp [ahead, less]
    · simp [ahead, less]
  have ascending : Ascending SSTableEntry.key
      (head.sst.entries.drop head.pos) :=
    List.Pairwise.sublist (List.drop_sublist _ _) wellFormed.sorted
  rw [SSTable.indexKeyEq_eq]
  have next : head.sst.indexKeyAt faults head.pos =
      ((head.sst.entries.drop head.pos).head?).map (·.key) :=
    SSTable.indexKeyAt_eq readable head.pos
  cases rest : head.sst.entries.drop head.pos with
  | nil =>
      rw [rest] at next
      have miss : head.sst.indexKeyAt faults head.pos ≠ some key := by
        rw [next]
        simp
      rw [decide_eq_false miss, PrefixScanHead.Placed]
      simp only [Bool.false_eq_true, if_false]
      rw [behind, rest]
      rfl
  | cons first others =>
      rw [rest] at next ascending behind
      have above := (List.pairwise_cons.mp ascending).1
      by_cases here : first.key = key
      · have hit : head.sst.indexKeyAt faults head.pos = some key := by
          rw [next, ← here]
          rfl
        rw [decide_eq_true hit, PrefixScanHead.Placed]
        simp only [if_true]
        have tail : head.sst.entries.drop (head.pos + 1) = others := by
          rw [← List.tail_drop, rest]
          rfl
        rw [tail, behind, List.filter_cons_of_neg (by simp [here])]
        symm
        apply List.filter_eq_self.mpr
        intro entry member
        rw [← here]
        exact decide_eq_true (above entry member)
      · have miss : head.sst.indexKeyAt faults head.pos ≠ some key := by
          rw [next]
          simpa using here
        have low : key ≤ first.key := by
          apply least
          rw [next]
          rfl
        have less : key < first.key := lt_of_le_of_ne low (Ne.symm here)
        rw [decide_eq_false miss, PrefixScanHead.Placed]
        simp only [Bool.false_eq_true, if_false]
        rw [behind, rest]
        symm
        apply List.filter_eq_self.mpr
        intro entry member
        rcases List.mem_cons.mp member with same | later
        · rw [same]
          exact decide_eq_true less
        · exact decide_eq_true (less.trans (above entry later))

end

/-! ## The walk -/

/-- The memtables and the tables with an index that hold the key. -/
def Source (faults : ReadFaults) (memtables : List Memtable)
    (tables : List (SSTable × Nat)) (key : String) : Prop :=
  (∃ memtable ∈ memtables, ∃ value, memtable.data[key]? = some value) ∨
    ∃ table ∈ tables, faults.index table.1 = none ∧
      ∃ entry ∈ table.1.entries, entry.key = key

/-- The scan of these tables for a prefix has still to come to the keys. -/
structure Pending (faults : ReadFaults) (memtables : List Memtable)
    (tables : List (SSTable × Nat)) (keyPrefix : String)
    (st : PrefixScanState) (keys : List String) : Prop where
  scanned : st.keyPrefix = keyPrefix
  fixed : st.heads.map (fun head => (head.sst, head.level)) = tables
  started : ∀ a, st.last = some a → startsWith a keyPrefix = true
  placed : ∀ head ∈ st.heads, faults.index head.sst = none →
    head.Placed keyPrefix st.last
  ascending : keys.Pairwise (· < ·)
  mem_iff : ∀ key, key ∈ keys ↔ startsWith key keyPrefix = true ∧
    ahead st.last key = true ∧ Source faults memtables tables key

/-- What is pending whatever the memtables hold. -/
structure Standing (faults : ReadFaults) (tables : List (SSTable × Nat))
    (keyPrefix : String) (st : PrefixScanState) : Prop where
  scanned : st.keyPrefix = keyPrefix
  fixed : st.heads.map (fun head => (head.sst, head.level)) = tables
  started : ∀ a, st.last = some a → startsWith a keyPrefix = true
  placed : ∀ head ∈ st.heads, faults.index head.sst = none →
    head.Placed keyPrefix st.last

/-- What one table does to the best version so far. -/
def tableHit (faults : ReadFaults) (key : String)
    (best : Nat × Option SSTableEntry) (table : SSTable × Nat) :
    Except ScanFailure (Nat × Option SSTableEntry) :=
  match faults.index table.1 with
  | some _ => .ok best
  | none => do
      return LsmTree.keepHit table.2 best
        (← table.1.lookupSync faults key)

/-- What a scan of these tables finds for a key. -/
def scanValue (faults : ReadFaults) (memtables : List Memtable)
    (tables : List (SSTable × Nat)) (key : String) :
    Except ScanFailure (Option Value) :=
  match getFromMemtables memtables key with
  | .found value => .ok (some value)
  | .tombstone => .ok none
  | .missing => do
      let best ← tables.foldlM (tableHit faults key) (0, none)
      return best.2.bind SSTableEntry.visible

section

variable {faults : ReadFaults} {tree : LsmTree}
variable {memtables : List Memtable}
variable {tables : List (SSTable × Nat)} {keyPrefix : String}
variable {st : PrefixScanState} {keys rest : List String} {key : String}

theorem Pending.head_mem
    (pending : Pending faults memtables tables keyPrefix st keys)
    {head : PrefixScanHead} (member : head ∈ st.heads) :
    (head.sst, head.level) ∈ tables := by
  rw [← pending.fixed]
  exact List.mem_map_of_mem member

theorem Pending.exists_head
    (pending : Pending faults memtables tables keyPrefix st keys)
    {table : SSTable × Nat} (member : table ∈ tables) :
    ∃ head ∈ st.heads, head.sst = table.1 := by
  rw [← pending.fixed] at member
  rcases List.mem_map.mp member with ⟨head, inHeads, rfl⟩
  exact ⟨head, inHeads, rfl⟩

theorem Pending.of_indexKeyAt
    (pending : Pending faults memtables tables keyPrefix st keys)
    (wellFormed : ∀ table ∈ tables, table.1.WellFormed)
    {head : PrefixScanHead} (member : head ∈ st.heads)
    (readable : faults.index head.sst = none)
    (found : head.sst.indexKeyAt faults head.pos = some key)
    (starts : startsWith key keyPrefix = true) : key ∈ keys := by
  have inTables := pending.head_mem member
  have first := (pending.placed head member readable).first
    (wellFormed _ inTables) readable
  have held := first.sound key found
  apply (pending.mem_iff key).mpr
  exact ⟨starts, held.2.2, Or.inr ⟨_, inTables, readable, held.1⟩⟩

theorem Pending.le_indexKeyAt
    (pending : Pending faults memtables tables keyPrefix st (key :: rest))
    (wellFormed : ∀ table ∈ tables, table.1.WellFormed)
    {head : PrefixScanHead} (member : head ∈ st.heads)
    (readable : faults.index head.sst = none) {other : String}
    (found : head.sst.indexKeyAt faults head.pos = some other) :
    key ≤ other := by
  have starts := ((pending.mem_iff key).mp List.mem_cons_self).1
  have first := (pending.placed head member readable).first
    (wellFormed _ (pending.head_mem member)) readable
  have low := (first.sound other found).2.1
  by_contra below
  have otherStarts := startsWith_of_between starts low (not_le.mp below).le
  have inKeys := pending.of_indexKeyAt wellFormed member readable found
    otherStarts
  rcases List.mem_cons.mp inKeys with same | behind
  · exact below same.ge
  · have above := (List.pairwise_cons.mp pending.ascending).1 other behind
    exact below above.le

theorem Pending.indexKeyEq_iff
    (pending : Pending faults memtables tables keyPrefix st (key :: rest))
    (wellFormed : ∀ table ∈ tables, table.1.WellFormed)
    {head : PrefixScanHead} (member : head ∈ st.heads)
    (readable : faults.index head.sst = none) :
    head.sst.indexKeyEq faults head.pos key = true ↔
      ∃ entry ∈ head.sst.entries, entry.key = key := by
  have first := (pending.placed head member readable).first
    (wellFormed _ (pending.head_mem member)) readable
  have facts := (pending.mem_iff key).mp List.mem_cons_self
  rw [SSTable.indexKeyEq_eq, decide_eq_true_eq]
  constructor
  · intro found
    exact (first.sound key found).1
  · intro held
    rcases first.least key ⟨held, le_of_startsWith facts.1, facts.2.1⟩ with
      ⟨least, below, found⟩
    have above := pending.le_indexKeyAt wellFormed member readable found
    rw [found, le_antisymm below above]

theorem Pending.nextKey
    (pending : Pending faults (tree.active :: tree.immutables) tables
      keyPrefix st keys)
    (wellFormed : ∀ table ∈ tables, table.1.WellFormed) :
    tree.prefixScanMinKey faults st = keys.head? := by
  have started := pending.started
  rw [← pending.scanned] at started
  rw [LsmTree.prefixScanMinKey, LsmTree.consider_eq]
  apply considerOffers_eq_head? pending.ascending
  · intro key offered wanted
    rw [PrefixScanState.wants, Bool.and_eq_true, pending.scanned] at wanted
    rcases List.mem_append.mp offered with fromTable | fromMemtable
    · rcases List.mem_map.mp fromTable with ⟨head, member, found⟩
      cases readable : faults.index head.sst with
      | some failure => simp [SSTable.indexKeyAt, readable] at found
      | none =>
          exact pending.of_indexKeyAt wellFormed member readable found
            wanted.1
    · rcases List.mem_map.mp fromMemtable with ⟨memtable, member, found⟩
      have first := memtable.firstKeyAfter_first started
      apply (pending.mem_iff key).mpr
      exact ⟨wanted.1, wanted.2,
        Or.inl ⟨memtable, member, (first.sound key found).1⟩⟩
  · intro key inKeys
    have facts := (pending.mem_iff key).mp inKeys
    rcases facts with ⟨starts, after, source⟩
    rcases source with ⟨memtable, member, held⟩ | inTable
    · have first := memtable.firstKeyAfter_first started
      have starts' := starts
      rw [← pending.scanned] at starts'
      rcases first.least key ⟨held, starts', after⟩ with
        ⟨least, below, found⟩
      refine ⟨least, below, ?_, ?_⟩
      · apply List.mem_append_right
        exact List.mem_map.mpr ⟨memtable, member, found⟩
      · have facts := first.sound least found
        rw [PrefixScanState.wants, facts.2.1, facts.2.2]
        rfl
    · rcases inTable with ⟨table, member, readable, held⟩
      rcases pending.exists_head member with ⟨head, inHeads, same⟩
      rw [← same] at readable held
      have first := (pending.placed head inHeads readable).first
        (wellFormed _ (pending.head_mem inHeads)) readable
      rcases first.least key ⟨held, le_of_startsWith starts, after⟩ with
        ⟨least, below, found⟩
      have facts := (first.sound least found).2
      refine ⟨least, below, ?_, ?_⟩
      · apply List.mem_append_left
        exact List.mem_map.mpr ⟨head, inHeads, found⟩
      · rw [PrefixScanState.wants, pending.scanned, facts.2,
          startsWith_of_between starts facts.1 below]
        rfl

theorem SSTable.lookupSync_of_not_held {table : SSTable}
    (readable : faults.index table = none)
    (missing : ¬ ∃ entry ∈ table.entries, entry.key = key) :
    table.lookupSync faults key = .ok none := by
  have nothing : table.entries.find? (fun entry => entry.key = key) =
      none := by
    apply List.find?_eq_none.mpr
    intro entry member same
    exact missing ⟨entry, member, of_decide_eq_true same⟩
  rw [SSTable.lookupSync, readable, nothing]
  split <;> rfl

theorem foldlM_congr_mem
    {α β : Type} {f g : β → α → Except ScanFailure β} {items : List α}
    (same : ∀ item ∈ items, ∀ state, f state item = g state item)
    (state : β) : items.foldlM f state = items.foldlM g state := by
  induction items generalizing state with
  | nil => rfl
  | cons item rest inductionHypothesis =>
      rw [List.foldlM_cons, List.foldlM_cons,
        same item List.mem_cons_self]
      congr 1
      funext state'
      exact inductionHypothesis
        (fun other member => same other (List.mem_cons_of_mem _ member))
        state'

theorem Pending.foldlM_resolveHead
    (pending : Pending faults memtables tables keyPrefix st (key :: rest))
    (wellFormed : ∀ table ∈ tables, table.1.WellFormed) :
    st.heads.foldlM (LsmTree.resolveHead faults key) (0, none) =
      tables.foldlM (tableHit faults key) (0, none) := by
  rw [← pending.fixed, List.foldlM_map]
  apply foldlM_congr_mem
  intro head member best
  rw [LsmTree.resolveHead, tableHit]
  cases readable : faults.index head.sst with
  | some failure =>
      rw [SSTable.indexKeyEq_unreadable readable]
      rfl
  | none =>
      have standing := pending.indexKeyEq_iff wellFormed member readable
      by_cases held : ∃ entry ∈ head.sst.entries, entry.key = key
      · rw [standing.mpr held]
        rfl
      · rw [Bool.eq_false_iff.mpr fun here => held (standing.mp here),
          SSTable.lookupSync_of_not_held readable held]
        rfl

theorem Pending.resolve
    (pending : Pending faults (tree.active :: tree.immutables) tables
      keyPrefix st (key :: rest))
    (wellFormed : ∀ table ∈ tables, table.1.WellFormed) :
    tree.prefixScanResolve faults st key =
      scanValue faults (tree.active :: tree.immutables) tables key := by
  cases found : getFromMemtables (tree.active :: tree.immutables) key <;>
    simp only [LsmTree.prefixScanResolve, scanValue, found,
      pending.foldlM_resolveHead wellFormed]

theorem Pending.advance
    (pending : Pending faults memtables tables keyPrefix st (key :: rest))
    (wellFormed : ∀ table ∈ tables, table.1.WellFormed) :
    Pending faults memtables tables keyPrefix
      (LsmTree.prefixScanAdvance faults st key) rest := by
  have facts := (pending.mem_iff key).mp List.mem_cons_self
  have ordered := List.pairwise_cons.mp pending.ascending
  constructor
  case scanned => exact pending.scanned
  case fixed =>
    rw [← pending.fixed, LsmTree.prefixScanAdvance, List.map_map]
    apply List.map_congr_left
    intro head _
    simp only [Function.comp]
    split <;> rfl
  case started =>
    intro a same
    rw [← Option.some.inj same]
    exact facts.1
  case placed =>
    intro moved member readable
    rcases List.mem_map.mp member with ⟨head, inHeads, rfl⟩
    have same : faults.index head.sst = none := by
      split at readable <;> exact readable
    exact (pending.placed head inHeads same).advance
      (wellFormed _ (pending.head_mem inHeads)) same facts.2.1
      fun other => pending.le_indexKeyAt wellFormed inHeads same
  case ascending => exact ordered.2
  case mem_iff =>
    intro other
    constructor
    · intro behind
      have whole := (pending.mem_iff other).mp
        (List.mem_cons_of_mem _ behind)
      exact ⟨whole.1, decide_eq_true (ordered.1 other behind), whole.2.2⟩
    · rintro ⟨starts, after, source⟩
      have less : key < other := of_decide_eq_true after
      have member := (pending.mem_iff other).mpr
        ⟨starts, ahead_of_lt facts.2.1 less, source⟩
      exact (List.mem_cons.mp member).resolve_left less.ne'

theorem prefixScan_walks
    (faults : ReadFaults) (tree : LsmTree) (keyPrefix : String)
    (wellFormed : ∀ table ∈ tables, table.1.WellFormed) :
    Walks (tree.prefixScan faults)
      (Pending faults (tree.active :: tree.immutables) tables keyPrefix)
      (scanValue faults (tree.active :: tree.immutables) tables) where
  nextKey := fun pending => pending.nextKey wellFormed
  resolve := fun pending => pending.resolve wellFormed
  advance := fun pending => pending.advance wellFormed

/-- The loops that do not wait for locks do the same rounds. -/
theorem LsmTree.prefixScanSync_eq (faults : ReadFaults) (tree : LsmTree) :
    tree.prefixScanSync faults = tree.prefixScan faults := by
  have nextKey : tree.prefixScanMinKeySync faults =
      tree.prefixScanMinKey faults := by
    funext st
    rw [LsmTree.prefixScanMinKeySync, LsmTree.prefixScanMinKey,
      LsmTree.considerSync_eq]
  rw [LsmTree.prefixScanSync, LsmTree.prefixScan, nextKey]
  rfl

theorem Pending.length_lt
    (pending : Pending faults (tree.active :: tree.immutables) tables
      keyPrefix st keys) : keys.length < tree.scanRounds st := by
  have within : keys ⊆
      st.heads.flatMap (fun head => head.sst.entries.map (·.key)) ++
        (tree.active :: tree.immutables).flatMap
          (fun memtable => memtable.getAllEntries.map Prod.fst) := by
    intro key member
    rw [List.mem_append, List.mem_flatMap, List.mem_flatMap]
    rcases ((pending.mem_iff key).mp member).2.2 with inMemtable | inTable
    · rcases inMemtable with ⟨memtable, inList, value, held⟩
      refine Or.inr ⟨memtable, inList, List.mem_map.mpr ?_⟩
      exact ⟨_, Memtable.mem_getAllEntries.mpr ⟨held, rfl⟩, rfl⟩
    · rcases inTable with ⟨table, inList, -, held⟩
      rcases pending.exists_head inList with ⟨head, inHeads, same⟩
      rw [← same] at held
      exact Or.inl ⟨head, inHeads, List.mem_map.mpr held⟩
  have nodup : keys.Nodup := pending.ascending.imp fun less => less.ne
  have bound := (List.subperm_of_subset nodup within).length_le
  rw [List.length_append, List.length_flatMap, List.length_flatMap] at bound
  simp only [List.length_map, Memtable.getAllEntries_length] at bound
  exact Nat.lt_succ_of_le bound

end

/-! ## The start of a scan -/

/-- The tables of a scan, in the order of its heads. -/
def scannedTables (order : List Nat) (levels : Nat → List SSTable) :
    List (SSTable × Nat) :=
  order.flatMap fun level => (levels level).map (·, level)

theorem Standing.exists_pending
    {faults : ReadFaults} {tables : List (SSTable × Nat)}
    {keyPrefix : String} {st : PrefixScanState}
    (standing : Standing faults tables keyPrefix st)
    (memtables : List Memtable) :
    ∃ keys, Pending faults memtables tables keyPrefix st keys := by
  have collected : ∃ collected : List String, ∀ key, key ∈ collected ↔
      (startsWith key keyPrefix = true ∧ ahead st.last key = true) ∧
        Source faults memtables tables key := by
    refine ⟨(memtables.flatMap
        (fun memtable => memtable.getAllEntries.map Prod.fst) ++
      (tables.filter
        fun table => (faults.index table.1).isNone).flatMap
          fun table => table.1.entries.map (·.key)).filter
            (fun key => startsWith key keyPrefix && ahead st.last key),
      fun key => ?_⟩
    rw [List.mem_filter, and_comm, List.mem_append, List.mem_flatMap,
      List.mem_flatMap, Bool.and_eq_true]
    apply and_congr_right
    intro _
    apply or_congr
    · apply exists_congr
      intro memtable
      apply and_congr_right
      intro _
      rw [List.mem_map]
      constructor
      · rintro ⟨entry, member, rfl⟩
        exact ⟨_, (Memtable.mem_getAllEntries.mp member).1⟩
      · rintro ⟨value, held⟩
        exact ⟨_, Memtable.mem_getAllEntries.mpr ⟨held, rfl⟩, rfl⟩
    · simp only [List.mem_filter, Option.isNone_iff_eq_none, List.mem_map,
        and_assoc]
  rcases collected with ⟨collected, member⟩
  rcases exists_ordered collected with ⟨keys, ascending, same⟩
  refine ⟨keys, standing.scanned, standing.fixed, standing.started,
    standing.placed, ascending, fun key => ?_⟩
  rw [same, member, and_assoc]

theorem prefixScanStart_standing
    (faults : ReadFaults) (tree : LsmTree) (order : List Nat)
    (keyPrefix : String)
    (wellFormed : ∀ table ∈ scannedTables order tree.levels,
      table.1.WellFormed) :
    Standing faults (scannedTables order tree.levels) keyPrefix
      (tree.prefixScanStart faults order keyPrefix) := by
  constructor
  case scanned => rfl
  case fixed =>
    rw [LsmTree.prefixScanStart, scannedTables, List.map_flatMap]
    congr 1
    funext level
    rw [List.map_map]
    rfl
  case started =>
    intro a found
    exact absurd found (by simp [LsmTree.prefixScanStart])
  case placed =>
    intro head inHeads readable
    rcases List.mem_flatMap.mp inHeads with ⟨level, inOrder, inLevel⟩
    rcases List.mem_map.mp inLevel with ⟨table, inTables, rfl⟩
    apply PrefixScanHead.placed_start level _ readable
    apply wellFormed (table, level)
    exact List.mem_flatMap.mpr
      ⟨level, inOrder, List.mem_map_of_mem inTables⟩

theorem prefixScanStart_pending
    (faults : ReadFaults) (tree : LsmTree) (order : List Nat)
    (keyPrefix : String)
    (wellFormed : ∀ table ∈ scannedTables order tree.levels,
      table.1.WellFormed) :
    ∃ keys, Pending faults (tree.active :: tree.immutables)
      (scannedTables order tree.levels) keyPrefix
      (tree.prefixScanStart faults order keyPrefix) keys :=
  (prefixScanStart_standing faults tree order keyPrefix
    wellFormed).exists_pending _

end F4kvsLsm
