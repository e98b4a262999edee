import F4kvsLsm.Lib.TryCursor
import F4kvsLsm.Engine.ScanNext

/-!
# Scans that give up

The scans that do not wait for locks give up when they do not get one, so that
the caller can go on with the scan that waits.  The first round of a page
leaves the state of the scan alone, but a later round that gives up leaves it
behind the keys of the rounds before, whose items are dropped with the page.
A visit that gives up has shown what came before.
-/

namespace F4kvsLsm

open KeyOrder Cursors LockAttempts ByteCodec

/-! ## The scans, lock by lock -/

namespace Memtable

variable (free : Nat → Bool)

def firstKeyAfterSync (m : Memtable) (keyPrefix : String)
    (after : Option String) : StateT Nat Option (Option String) := do
  tryRead free
  return m.firstKeyAfter keyPrefix after

def lookupSync (m : Memtable) (key : String) :
    StateT Nat Option MemtableLookupResult := do
  tryRead free
  return m.lookup key

end Memtable

namespace LsmTree.TryLocks

variable (free : Nat → Bool) (faults : ReadFaults) (tree : LsmTree)

def considerMemtable (st : PrefixScanState) (best : Option String)
    (m : Memtable) : StateT Nat Option (Option String) := do
  match ← m.firstKeyAfterSync free st.keyPrefix st.last with
  | some k => return considerSync st best k
  | none => return best

/-- The lock of the active memtable, and then the one of the list of the
parked memtables. -/
def prefixScanMinKeySync (st : PrefixScanState) :
    StateT Nat Option (Option String) := do
  let best := considerOffers (considerSync st)
    (st.heads.map fun head => head.sst.indexKeyAt faults head.pos)
  tryRead free
  let best ← considerMemtable free st best tree.active
  tryRead free
  tree.immutables.foldlM (considerMemtable free st) best

def lookupParked (key : String) :
    List Memtable → StateT Nat Option MemtableLookupResult
  | [] => return .missing
  | memtable :: rest => do
      match ← memtable.lookupSync free key with
      | .missing => lookupParked key rest
      | other => return other

def getFromMemtablesSync (key : String) :
    StateT Nat Option MemtableLookupResult := do
  tryRead free
  match ← tree.active.lookupSync free key with
  | .missing => do
      tryRead free
      lookupParked free key tree.immutables
  | other => return other

/-- The version that the tables of the scan have of a key. -/
def resolveHeads (st : PrefixScanState) (key : String) :
    Except ScanFailure (Option Value) := do
  let best ← st.heads.foldlM (resolveHead faults key) (0, none)
  return best.2.bind SSTableEntry.visible

def prefixScanResolveSync (st : PrefixScanState) (key : String) :
    StateT Nat Option (Except ScanFailure (Option Value)) := do
  match ← getFromMemtablesSync free tree key with
  | .found value => return .ok (some value)
  | .tombstone => return .ok none
  | .missing => return resolveHeads faults st key

def prefixScanSync :
    TryCursor PrefixScanState String Value ScanFailure where
  nextKey := prefixScanMinKeySync free faults tree
  resolve := prefixScanResolveSync free faults tree
  advance := prefixScanAdvance faults

/-- The first lock is the operation guard. -/
def tryPrefixScanNextNSync (max : Nat) (st : PrefixScanState) :
    Option (Option (Except ScanFailure (List (String × Value) × Bool)) ×
      PrefixScanState) :=
  match (tryRead free).run 0 with
  | none => some (none, st)
  | some ((), time) =>
      (prefixScanSync free faults tree).page max (scanRounds tree st) st time

/-- The lock of the map of the levels. -/
def tryPrefixScanStartSync (order : List Nat) (keyPrefix : String) :
    StateT Nat Option PrefixScanState := do
  tryRead free
  return prefixScanStart faults tree order keyPrefix

/-- Then the operation guard. -/
def tryPrefixScanForeachSync (order : List Nat) (keyPrefix : String)
    {ω : Type} (visit : ω → String → Bytes → Bool × ω) (visitor : ω) :
    Option (Option (Except ScanFailure Unit) × ω) :=
  match (tryPrefixScanStartSync free faults tree order keyPrefix).run 0 with
  | none => some (none, visitor)
  | some (st, time) =>
      match (tryRead free).run time with
      | none => some (none, visitor)
      | some ((), time) =>
          (prefixScanSync free faults tree).forEach Value.payload visit
            (scanRounds tree st) st time visitor

/-! ## How many locks a round tries -/

def askedParked (key : String) : List Memtable → Nat
  | [] => 0
  | memtable :: rest =>
      match memtable.lookup key with
      | .missing => askedParked key rest + 1
      | _ => 1

/-- A round locks the memtables and their maps. -/
def locks : LockCosts String where
  nextKey := 3 + tree.immutables.length
  resolve := fun key =>
    match tree.active.lookup key with
    | .missing => 3 + askedParked key tree.immutables
    | _ => 2

end LsmTree.TryLocks

/-! ## The rounds are those of the scan without locks -/

section

variable {free : Nat → Bool} {faults : ReadFaults} {tree : LsmTree}

theorem takes_firstKeyAfterSync (m : Memtable) (keyPrefix : String)
    (after : Option String) :
    Takes free (m.firstKeyAfterSync free keyPrefix after) 1
      (m.firstKeyAfter keyPrefix after) :=
  takes_tryRead.bind_pure (takes_pure _)

theorem takes_lookupSync (m : Memtable) (key : String) :
    Takes free (m.lookupSync free key) 1 (m.lookup key) :=
  takes_tryRead.bind_pure (takes_pure _)

namespace LsmTree.TryLocks

theorem takes_considerMemtable (st : PrefixScanState) (best : Option String)
    (m : Memtable) :
    Takes free (considerMemtable free st best m) 1
      (considerFrom (considerSync st) best
        [m.firstKeyAfter st.keyPrefix st.last]) := by
  apply (takes_firstKeyAfterSync m st.keyPrefix st.last).bind_pure
  cases m.firstKeyAfter st.keyPrefix st.last with
  | none => exact takes_pure best
  | some k => exact takes_pure (considerSync st best k)

theorem takes_prefixScanMinKeySync (st : PrefixScanState) :
    Takes free (prefixScanMinKeySync free faults tree st)
      (3 + tree.immutables.length)
      (LsmTree.prefixScanMinKeySync faults tree st) := by
  have same := considerOffers_append (considerSync st)
    (st.heads.map fun head => head.sst.indexKeyAt faults head.pos)
    ((tree.active :: tree.immutables).map
      (·.firstKeyAfter st.keyPrefix st.last))
  rw [considerFrom, List.foldl_map, List.foldl_cons] at same
  rw [LsmTree.prefixScanMinKeySync, offers, same, prefixScanMinKeySync]
  apply Takes.of_eq
  · apply Takes.after_tryRead
    apply (takes_considerMemtable _ _ _).bind
    apply Takes.after_tryRead
    exact takes_foldlM (takes_considerMemtable st) tree.immutables _
  · omega

theorem takes_lookupParked (key : String) (memtables : List Memtable) :
    Takes free (lookupParked free key memtables) (askedParked key memtables)
      (getFromMemtables memtables key) := by
  induction memtables with
  | nil => exact takes_pure _
  | cons memtable rest inductionHypothesis =>
      rw [askedParked, getFromMemtables, Nat.add_comm]
      have first : Takes free _ _ _ := takes_lookupSync memtable key
      cases found : memtable.lookup key with
      | missing =>
          rw [found] at first
          exact first.bind inductionHypothesis
      | tombstone =>
          rw [found] at first
          exact first.bind_pure (takes_pure _)
      | found value =>
          rw [found] at first
          exact first.bind_pure (takes_pure _)

theorem takes_getFromMemtablesSync (key : String) :
    Takes free (getFromMemtablesSync free tree key) ((locks tree).resolve key)
      (getFromMemtables (tree.active :: tree.immutables) key) := by
  have active : Takes free _ _ _ := takes_lookupSync tree.active key
  simp only [locks, getFromMemtables]
  rw [getFromMemtablesSync]
  cases found : tree.active.lookup key with
  | missing =>
      rw [found] at active
      apply Takes.of_eq
      · apply Takes.after_tryRead
        apply active.bind
        apply Takes.after_tryRead
        exact takes_lookupParked key tree.immutables
      · simp only
        omega
  | tombstone =>
      rw [found] at active
      apply Takes.of_eq
      · apply Takes.after_tryRead
        apply active.bind_pure
        exact takes_pure _
      · rfl
  | found value =>
      rw [found] at active
      apply Takes.of_eq
      · apply Takes.after_tryRead
        apply active.bind_pure
        exact takes_pure _
      · rfl

theorem takes_prefixScanResolveSync (st : PrefixScanState) (key : String) :
    Takes free (prefixScanResolveSync free faults tree st key)
      ((locks tree).resolve key)
      (LsmTree.prefixScanResolveSync faults tree st key) := by
  have memtables : Takes free _ _ _ :=
    @takes_getFromMemtablesSync free tree key
  apply memtables.bind_pure
  rw [LsmTree.prefixScanResolveSync, LsmTree.prefixScanResolve]
  cases getFromMemtables (tree.active :: tree.immutables) key with
  | missing => exact takes_pure _
  | tombstone => exact takes_pure _
  | found value => exact takes_pure _

/-- When all locks are got, the rounds are those of the scan that waits. -/
theorem prefixScanSync_tries :
    Tries free (prefixScanSync free faults tree) (locks tree)
      (tree.prefixScan faults) := by
  rw [← LsmTree.prefixScanSync_eq]
  constructor
  case nextKey => exact takes_prefixScanMinKeySync
  case resolve => exact takes_prefixScanResolveSync
  case advance => exact fun _ _ => rfl

end LsmTree.TryLocks

end

/-! ## What a call that gives up leaves -/

/-- A visitor that remembers what it has been shown. -/
def remembering
    (accepts : List (String × Bytes) → String → Bytes → Bool)
    (seen : List (String × Bytes)) (key : String) (payload : Bytes) :
    Bool × List (String × Bytes) :=
  (accepts seen key payload, seen ++ [(key, payload)])

section

variable (free : Nat → Bool) (faults : ReadFaults) (tree : LsmTree)

/-- A page call that gives up leaves the state as it was, and from there the
scan that waits gives the items of the pending keys. -/
def LsmTree.PageKeepsState (tables : List (SSTable × Nat)) (max : Nat)
    (st : PrefixScanState) (keys : List String) : Prop :=
  ∃ answer st',
    TryLocks.tryPrefixScanNextNSync free faults tree max st =
      some (answer, st') ∧
    ((∀ page, answer ≠ some (.ok page)) →
      st' = st ∧
        ∃ items outcome,
          collect (scanValue faults (tree.active :: tree.immutables) tables)
            keys = (items, outcome) ∧
          Answers (tree.prefixScanNext faults) st' items outcome)

/-- A visit that does not get a lock has shown nothing. -/
def LsmTree.VisitShowsNothing (order : List Nat) (keyPrefix : String)
    (accepts : List (String × Bytes) → String → Bytes → Bool) : Prop :=
  ∃ answer seen,
    TryLocks.tryPrefixScanForeachSync free faults tree order keyPrefix
      (remembering accepts) [] = some (answer, seen) ∧
    (answer = none → seen = [])

/-- All locks are got up to the end of the rounds for the first keys, none of
which fails, and the next round gives up. -/
def LsmTree.GivesUpBehind (tables : List (SSTable × Nat)) (start : Nat)
    (front back : List String) (reason : GiveUp ScanFailure) : Prop :=
  Granted free 0 start ∧
    LeavesAfter free (TryLocks.locks tree)
      (scanValue faults (tree.active :: tree.immutables) tables) start front
      back reason

end

section

variable {free : Nat → Bool} {faults : ReadFaults} {tree : LsmTree}
variable {tables : List (SSTable × Nat)} {keyPrefix : String}
variable {st : PrefixScanState} {keys : List String}

theorem Pending.foldl_advance_ne
    {front back : List String}
    (pending : Pending faults (tree.active :: tree.immutables) tables
      keyPrefix st (front ++ back)) (nonempty : front ≠ []) :
    front.foldl (LsmTree.prefixScanAdvance faults) st ≠ st := by
  intro same
  have moved : (front.foldl (LsmTree.prefixScanAdvance faults) st).last =
      some (front.getLast nonempty) := by
    conv_lhs => rw [← List.dropLast_append_getLast nonempty]
    rw [List.foldl_append]
    rfl
  have behind := ((pending.mem_iff _).mp
    (List.mem_append_left _ (List.getLast_mem nonempty))).2.1
  rw [← same, moved, ahead, decide_eq_true_eq] at behind
  exact absurd behind (lt_irrefl _)

theorem tryRead_run_zero :
    (tryRead free).run 0 = if free 0 then some ((), 1) else none := rfl

/-- The page call behind the operation guard. -/
theorem tryPrefixScanNextNSync_eq (max : Nat) :
    LsmTree.TryLocks.tryPrefixScanNextNSync free faults tree max st =
      if free 0 then
        (LsmTree.TryLocks.prefixScanSync free faults tree).page max
          (tree.scanRounds st) st 1
      else some (none, st) := by
  rw [LsmTree.TryLocks.tryPrefixScanNextNSync, tryRead_run_zero]
  cases free 0 <;> rfl

theorem LsmTree.pageKeepsState_iff
    (wellFormed : ∀ table ∈ tables, table.1.WellFormed)
    (pending : Pending faults (tree.active :: tree.immutables) tables
      keyPrefix st keys) (max : Nat) :
    tree.PageKeepsState free faults tables max st keys ↔
      ∀ front back reason, keys = front ++ back → front ≠ [] →
        (collect (scanValue faults (tree.active :: tree.immutables) tables)
          front).1.length < max →
        ¬ tree.GivesUpBehind free faults tables 1 front back reason := by
  have walks := prefixScan_walks faults tree keyPrefix wellFormed
  have tries : Tries free _ _ _ :=
    @TryLocks.prefixScanSync_tries free faults tree
  have enough := fun state keys
    (pending : Pending faults (tree.active :: tree.immutables) tables
      keyPrefix state keys) => pending.length_lt
  have gaveUp := fun (reason : GiveUp ScanFailure) state' =>
    @Tries.page_gaveUp_iff _ _ _ _ _ _ _ _ _ _ tries walks _ _ pending _
      (enough st keys pending) 1 max reason state'
  constructor
  · rintro ⟨answer, st', call, keeps⟩ front back reason split nonempty room
      ⟨granted, leaves⟩
    rw [tryPrefixScanNextNSync_eq, granted_one_iff.mp granted, if_pos rfl,
      (gaveUp reason _).mpr ⟨front, back, split, leaves, room, rfl⟩,
      Option.some.injEq, Prod.mk.injEq] at call
    rcases call with ⟨rfl, rfl⟩
    rw [split] at pending
    exact pending.foldl_advance_ne nonempty
      (keeps fun page => reason.answer_ne_ok page).1
  · intro never
    have fromHere : ∃ items outcome,
        collect (scanValue faults (tree.active :: tree.immutables) tables)
          keys = (items, outcome) ∧
        Answers (tree.prefixScanNext faults) st items outcome :=
      ⟨_, _, rfl, walks.answers enough pending⟩
    cases opened : free 0 with
    | false =>
        refine ⟨none, st, ?_, fun _ => ⟨rfl, fromHere⟩⟩
        rw [tryPrefixScanNextNSync_eq, opened, if_neg Bool.false_ne_true]
    | true =>
        rcases tries.page_returns walks pending (enough st keys pending) 1 max
          with ⟨answer, st', call⟩
        refine ⟨answer, st', ?_, fun noPage => ?_⟩
        · rw [tryPrefixScanNextNSync_eq, opened, if_pos rfl, call]
        rcases GiveUp.exists_answer_of_ne_ok noPage with ⟨reason, rfl⟩
        rcases (gaveUp reason st').mp call with
          ⟨front, back, split, leaves, room, rfl⟩
        cases front with
        | nil => exact ⟨rfl, fromHere⟩
        | cons key front =>
            exact absurd ⟨granted_one_iff.mpr opened, leaves⟩
              (never _ back reason split (by simp) room)

/-- The visit behind the lock of the levels and the operation guard. -/
theorem tryPrefixScanForeachSync_eq
    (order : List Nat) (keyPrefix : String) {ω : Type}
    (visit : ω → String → Bytes → Bool × ω) (visitor : ω) :
    LsmTree.TryLocks.tryPrefixScanForeachSync free faults tree order keyPrefix
        visit visitor =
      if Granted free 0 2 then
        (LsmTree.TryLocks.prefixScanSync free faults tree).forEach
          Value.payload visit
          (tree.scanRounds (tree.prefixScanStart faults order keyPrefix))
          (tree.prefixScanStart faults order keyPrefix) 2 visitor
      else some (none, visitor) := by
  have start : Takes free (LsmTree.TryLocks.tryPrefixScanStartSync free faults
      tree order keyPrefix) 1 (tree.prefixScanStart faults order keyPrefix) :=
    takes_tryRead.bind_pure (takes_pure _)
  have both : Granted free 0 2 ↔ Granted free 0 1 ∧ Granted free 1 1 :=
    @granted_add_iff free 0 1 1
  rw [LsmTree.TryLocks.tryPrefixScanForeachSync]
  by_cases first : Granted free 0 1
  · rw [start.run_granted first]
    simp only
    by_cases second : Granted free 1 1
    · rw [takes_tryRead.run_granted second, if_pos (both.mpr ⟨first, second⟩)]
    · rw [takes_tryRead.run_refused second,
        if_neg fun granted => second (both.mp granted).2]
  · rw [start.run_refused first,
      if_neg fun granted => first (both.mp granted).1]

theorem LsmTree.visitShowsNothing_iff
    {order : List Nat}
    (wellFormed : ∀ table ∈ scannedTables order tree.levels,
      table.1.WellFormed)
    (pending : Pending faults (tree.active :: tree.immutables)
      (scannedTables order tree.levels) keyPrefix
      (tree.prefixScanStart faults order keyPrefix) keys)
    (accepts : List (String × Bytes) → String → Bytes → Bool) :
    tree.VisitShowsNothing free faults order keyPrefix accepts ↔
      ∀ front back seen, keys = front ++ back → seen ≠ [] →
        visitAll Value.payload (remembering accepts)
          (collect (scanValue faults (tree.active :: tree.immutables)
            (scannedTables order tree.levels)) front).1 [] = (true, seen) →
        ¬ tree.GivesUpBehind free faults (scannedTables order tree.levels) 2
          front back .unavailable := by
  have walks := prefixScan_walks faults tree keyPrefix wellFormed
  have tries : Tries free _ _ _ :=
    @TryLocks.prefixScanSync_tries free faults tree
  have enough := pending.length_lt
  have gaveUp := fun seen =>
    @Tries.forEach_gaveUp_iff _ _ _ _ _ _ _ _ _ _ _ _ tries walks
      Value.payload (remembering accepts) _ _ pending _ enough 2 [] seen
      .unavailable
  constructor
  · rintro ⟨answer, seen', call, keeps⟩ front back seen split shown visited
      ⟨granted, leaves⟩
    rw [tryPrefixScanForeachSync_eq, if_pos granted,
      (gaveUp seen).mpr ⟨front, back, split, leaves, visited⟩,
      Option.some.injEq, Prod.mk.injEq] at call
    rcases call with ⟨rfl, rfl⟩
    exact shown (keeps rfl)
  · intro never
    by_cases granted : Granted free 0 2
    · rcases tries.forEach_returns walks Value.payload (remembering accepts)
        pending enough 2 [] with ⟨answer, seen, call⟩
      refine ⟨answer, seen, ?_, fun noLock => ?_⟩
      · rw [tryPrefixScanForeachSync_eq, if_pos granted, call]
      rw [noLock] at call
      rcases (gaveUp seen).mp call with ⟨front, back, split, leaves, visited⟩
      by_contra shown
      exact never front back seen split shown visited ⟨granted, leaves⟩
    · refine ⟨none, [], ?_, fun _ => rfl⟩
      rw [tryPrefixScanForeachSync_eq, if_neg granted]

end

/-- A page call that gives up keeps the state of the scan exactly when it does
not give up behind the round of a first key, and a visit that does not get a
lock has shown nothing exactly when it is not refused one behind a round whose
item it has shown. -/
theorem sync_scans_give_up_unnoticed_iff
    {free : Nat → Bool} {faults : ReadFaults} {tree : LsmTree}
    {tables : List (SSTable × Nat)} {scanned : String} {st : PrefixScanState}
    {keys : List String}
    (wellFormed : ∀ table ∈ tables, table.1.WellFormed)
    (pending : Pending faults (tree.active :: tree.immutables) tables scanned
      st keys)
    (max : Nat)
    {order : List Nat} {keyPrefix : String} {visited : List String}
    (ordered : ∀ table ∈ scannedTables order tree.levels, table.1.WellFormed)
    (started : Pending faults (tree.active :: tree.immutables)
      (scannedTables order tree.levels) keyPrefix
      (tree.prefixScanStart faults order keyPrefix) visited)
    (accepts : List (String × Bytes) → String → Bytes → Bool) :
    (tree.PageKeepsState free faults tables max st keys ↔
      ∀ front back reason, keys = front ++ back → front ≠ [] →
        (collect (scanValue faults (tree.active :: tree.immutables) tables)
          front).1.length < max →
        ¬ tree.GivesUpBehind free faults tables 1 front back reason) ∧
    (tree.VisitShowsNothing free faults order keyPrefix accepts ↔
      ∀ front back seen, visited = front ++ back → seen ≠ [] →
        visitAll Value.payload (remembering accepts)
          (collect (scanValue faults (tree.active :: tree.immutables)
            (scannedTables order tree.levels)) front).1 [] = (true, seen) →
        ¬ tree.GivesUpBehind free faults (scannedTables order tree.levels) 2
          front back .unavailable) :=
  ⟨LsmTree.pageKeepsState_iff wellFormed pending max,
    LsmTree.visitShowsNothing_iff ordered started accepts⟩

/-! ## Two keys in the active memtable -/

def twoStrings : LsmTree :=
  ((LsmTree.empty).put leveledConfig.jsonLen "a" (.string "x")).put
    leveledConfig.jsonLen "b" (.string "y")

def twoStringsStart : PrefixScanState :=
  twoStrings.prefixScanStart .none [] ""

def twoStringsBehind : PrefixScanState :=
  LsmTree.prefixScanAdvance .none twoStringsStart "a"

theorem not_givesUpBehind_of_refused
    {free : Nat → Bool} {faults : ReadFaults} {tree : LsmTree}
    {tables : List (SSTable × Nat)} {start : Nat} (attempt : Nat)
    (refused : free (start + attempt) = false) (firstRound : attempt < 3)
    {front back : List String} {reason : GiveUp ScanFailure}
    (nonempty : front ≠ []) :
    ¬ tree.GivesUpBehind free faults tables start front back reason := by
  rintro ⟨-, leaves⟩
  cases front with
  | nil => exact nonempty rfl
  | cons key front =>
      have attempts : attempt <
          (LsmTree.TryLocks.locks tree).rounds (key :: front) := by
        rw [LockCosts.rounds, List.map_cons, List.sum_cons, LockCosts.round,
          LsmTree.TryLocks.locks]
        dsimp only
        omega
      rw [leaves.granted attempt attempts] at refused
      exact Bool.noConfusion refused

/-- The third lock of the first key is refused: both calls give up, and
neither has moved or shown anything. -/
theorem refused_lock_keeps_state :
    LsmTree.TryLocks.tryPrefixScanNextNSync (fun i => decide (i < 3)) .none
        twoStrings 2 twoStringsStart = some (none, twoStringsStart) ∧
      ∃ keys, twoStrings.PageKeepsState (fun i => decide (i < 3)) .none [] 2
          twoStringsStart keys ∧
        twoStrings.VisitShowsNothing (fun i => decide (i < 3)) .none [] ""
          fun _ _ _ => true := by
  have noTables : ∀ table ∈ scannedTables [] twoStrings.levels,
      table.1.WellFormed :=
    fun table member => absurd member List.not_mem_nil
  rcases prefixScanStart_pending .none twoStrings [] "" noTables with
    ⟨keys, pending⟩
  have both := @sync_scans_give_up_unnoticed_iff (fun i => decide (i < 3))
    .none twoStrings _ _ _ keys noTables pending 2 [] "" keys noTables
    pending fun _ _ _ => true
  refine ⟨rfl, keys, both.1.mpr ?_, both.2.mpr ?_⟩
  · intro front back reason _ nonempty _
    exact not_givesUpBehind_of_refused 2 rfl (by decide) nonempty
  · intro front back seen _ shown visited
    refine not_givesUpBehind_of_refused 1 rfl (by decide) ?_
    rintro rfl
    exact shown (congrArg Prod.snd visited).symm

theorem second_round_page :
    LsmTree.TryLocks.tryPrefixScanNextNSync (fun i => decide (i < 6)) .none
      twoStrings 2 twoStringsStart = some (none, twoStringsBehind) := rfl

theorem second_round_visit :
    LsmTree.TryLocks.tryPrefixScanForeachSync (fun i => decide (i < 7)) .none
        twoStrings [] "" (remembering fun _ _ _ => true) [] =
      some (none, [("a", strBytes "x")]) := rfl

theorem twoStringsBehind_ne : twoStringsBehind ≠ twoStringsStart :=
  fun same => absurd (congrArg PrefixScanState.last same) (by decide)

/-- The second round does not get a lock: the scan that waits starts behind
the first key, and a visitor has seen it. -/
theorem second_round_gives_up :
    ¬ twoStrings.PageKeepsState (fun i => decide (i < 6)) .none [] 2
        twoStringsStart ["a", "b"] ∧
      (twoStrings.get 7 "a" = some (.string "x") ∧
        LsmTree.TryLocks.tryPrefixScanNextNSync (fun i => decide (i < 6))
          .none twoStrings 2 twoStringsStart = some (none, twoStringsBehind) ∧
        (twoStrings.prefixScanNext .none twoStringsBehind).map Prod.fst =
          some (.ok (some ("b", .string "y")))) ∧
      ¬ twoStrings.VisitShowsNothing (fun i => decide (i < 7)) .none [] ""
        fun _ _ _ => true := by
  refine ⟨?_, ⟨rfl, second_round_page, rfl⟩, ?_⟩
  · rintro ⟨answer, st', call, keeps⟩
    rw [second_round_page, Option.some.injEq, Prod.mk.injEq] at call
    rcases call with ⟨rfl, rfl⟩
    exact twoStringsBehind_ne (keeps fun page => by simp).1
  · rintro ⟨answer, seen, call, keeps⟩
    rw [second_round_visit, Option.some.injEq, Prod.mk.injEq] at call
    rcases call with ⟨rfl, rfl⟩
    exact absurd (keeps rfl) (by simp)

end F4kvsLsm
