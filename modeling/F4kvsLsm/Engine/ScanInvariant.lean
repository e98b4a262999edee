import F4kvsLsm.Engine.ConcurrentScan

/-!
# What a scan keeps in sight

For every key that a scan has still to come to, the memtables as they are and
the tables that the scan keeps give the expected value.  In the middle of a
look only the parked memtables count for the key that the scan stands at, and
they give a value that was expected since the scan came to it.
-/

namespace F4kvsLsm

open KeyOrder Transitions

/-! ## What memtables and tables give -/

section

variable {front back memtables : List Memtable}
variable {tables : List (SSTable × Nat)} {key : String}

theorem memtableValue_append :
    memtableValue (front ++ back) key =
      (memtableValue front key).or (memtableValue back key) := by
  rw [memtableValue, memtableValue, memtableValue, List.findSome?_append]

theorem memtableValue_singleton (memtable : Memtable) :
    memtableValue [memtable] key = memtable.data[key]? := by
  rw [memtableValue_cons]
  exact Option.or_none

theorem scanFinds_of_front {value : Value}
    (found : memtableValue front key = some value) :
    scanFinds (front ++ back) tables key = value.visible := by
  rw [scanFinds, memtableValue_append, found, Option.some_or]

theorem scanFinds_behind (missing : memtableValue front key = none) :
    scanFinds (front ++ back) tables key = scanFinds back tables key := by
  rw [scanFinds, memtableValue_append, missing, Option.none_or, scanFinds]

theorem scanFinds_congr
    (same : memtableValue front key = memtableValue back key) :
    scanFinds front tables key = scanFinds back tables key := by
  rw [scanFinds, same, scanFinds]

/-- A memtable may go behind others that do not contradict it. -/
theorem scanFinds_swapped {memtable : Memtable}
    (unhidden : ∀ value older, memtable.data[key]? = some value →
      memtableValue front key = some older →
        older.visible = value.visible) :
    scanFinds (front ++ [memtable]) tables key =
      scanFinds (memtable :: front) tables key := by
  rw [scanFinds, scanFinds, memtableValue_append, memtableValue_singleton,
    memtableValue_cons]
  cases here : memtable.data[key]? with
  | none => rw [Option.or_none, Option.none_or]
  | some value =>
      cases older : memtableValue front key with
      | none => rfl
      | some other => exact unhidden value other here older

/-- Nothing changes with a memtable that has nothing to say. -/
theorem scanFinds_eraseIdx {index : Nat}
    (unneeded : ∀ removed, memtables[index]? = some removed → ∀ value,
      removed.data[key]? = some value →
        memtableValue (front ++ memtables.take index) key = none →
          scanFinds (memtables.drop (index + 1)) tables key =
            value.visible) :
    scanFinds (front ++ memtables.eraseIdx index) tables key =
      scanFinds (front ++ memtables) tables key := by
  rcases Nat.lt_or_ge index memtables.length with inside | outside
  · have removed : memtables[index]? = some memtables[index] :=
      List.getElem?_eq_getElem inside
    have whole : memtables = memtables.take index ++
        (memtables[index] :: memtables.drop (index + 1)) := by
      rw [← List.drop_eq_getElem_cons inside, List.take_append_drop]
    have before : scanFinds (front ++ memtables) tables key =
        scanFinds ((front ++ memtables.take index) ++
          ([memtables[index]] ++ memtables.drop (index + 1))) tables key := by
      rw [List.append_assoc, List.singleton_append, ← whole]
    rw [before, List.eraseIdx_eq_take_drop_succ, ← List.append_assoc]
    cases earlier : memtableValue (front ++ memtables.take index) key with
    | some value =>
        rw [scanFinds_of_front earlier, scanFinds_of_front earlier]
    | none =>
        rw [scanFinds_behind earlier, scanFinds_behind earlier]
        cases here : memtables[index].data[key]? with
        | some value =>
            rw [← memtableValue_singleton] at here
            rw [scanFinds_of_front here]
            rw [memtableValue_singleton] at here
            exact unneeded _ removed value here earlier
        | none =>
            rw [← memtableValue_singleton] at here
            rw [scanFinds_behind here]
  · rw [List.eraseIdx_of_length_le outside]

theorem source_of_scanFinds
    (wellFormed : ∀ table ∈ tables, table.1.WellFormed) {value : Value}
    (found : scanFinds memtables tables key = some value) :
    Source .records memtables tables key := by
  by_contra missing
  rcases hits_of_not_source wellFormed missing with ⟨noValue, noHit⟩
  rw [indexed_records] at noHit
  rw [scanFinds, noValue] at found
  simp only [noHit] at found
  exact absurd found (by simp)

end

/-! ## What a step of the engine does to the memtables -/

/-- A write, a swap, a removal, or nothing. -/
inductive MemtableEffect (s s' : FlushState) : FlushAction → Prop
  | written {action : FlushAction} (key : String) (value : Value) :
      action.written = [key] →
      (∀ other : String, s'.active.data[other]? =
        if key = other then some value else s.active.data[other]?) →
      s'.tree.immutables = s.tree.immutables →
      s'.expected = Function.update s.expected key value.visible →
      MemtableEffect s s' action
  | swapped {call : Nat} :
      s'.active = .new →
      s'.tree.immutables = s.tree.immutables ++ [s.active] →
      s'.expected = s.expected → MemtableEffect s s' (.swap call)
  | removed {call ticket index : Nat} :
      s.calls call = .published ticket index →
      s'.active = s.active →
      s'.tree.immutables = s.tree.immutables.eraseIdx index →
      s'.expected = s.expected → MemtableEffect s s' (.remove call)
  | kept {action : FlushAction} :
      action.written = [] →
      (∀ key : String, s'.active.data[key]? = s.active.data[key]?) →
      s'.tree.immutables = s.tree.immutables →
      s'.expected = s.expected → MemtableEffect s s' action

theorem FlushState.eraseIdx_immutables (s : FlushState) (index : Nat) :
    (if s.immutables.length > index then s.immutables.eraseIdx index
      else s.immutables).map (·.memtable) =
        (s.immutables.map (·.memtable)).eraseIdx index := by
  split
  · case isTrue inside => exact (List.eraseIdx_map ..).symm
  · case isFalse outside =>
      rw [List.eraseIdx_of_length_le (by simpa using outside)]

theorem FlushStep.effect
    {jsonLen : SerdeJsonValue → Nat} {s s' : FlushState}
    {action : FlushAction} (step : FlushStep jsonLen s action s') :
    MemtableEffect s s' action := by
  cases step with
  | put key value =>
      exact .written key value rfl (fun other => Memtable.put_get ..) rfl rfl
  | delete key =>
      exact .written key .null rfl (fun other => Memtable.delete_get ..) rfl
        rfl
  | swap idle =>
      rw [FlushState.swap]
      split
      · apply MemtableEffect.swapped
        · rfl
        · exact List.map_append
        · rfl
      · case isFalse empty =>
          apply MemtableEffect.kept rfl
          · intro key
            rw [Memtable.get_of_entryCount empty key]
            exact Memtable.new_get key
          · rfl
          · rfl
  | @readEntries call ticket index swapped =>
      rw [FlushState.readEntries]
      cases s.immutables[index]? with
      | none => exact .kept rfl (fun _ => rfl) rfl rfl
      | some parked =>
          simp only
          split
          · exact .kept rfl (fun _ => rfl) rfl rfl
          · exact .kept rfl (fun _ => rfl) rfl rfl
  | drawName existing naming =>
      rw [FlushState.drawName]
      split
      · exact .kept rfl (fun _ => rfl) rfl rfl
      · exact .kept rfl (fun _ => rfl) rfl rfl
  | stampEntry stamping => exact .kept rfl (fun _ => rfl) rfl rfl
  | publish info stamping => exact .kept rfl (fun _ => rfl) rfl rfl
  | @remove call ticket index published =>
      exact .removed published rfl (s.eraseIdx_immutables index) rfl

/-! ## The key that a scan stands at -/

namespace PrefixScanRun

/-- The scan has looked into the active memtable for the value of the key. -/
def Missed (s : PrefixScanRun) (key : String) : Prop :=
  ∃ st, s.call = .missed st key

/-- What may be found for the key: what is expected now, or what has been
expected since the scan came to it. -/
def allowed (s : PrefixScanRun) (key : String) :
    List (String → Option Value) :=
  match s.call with
  | .missed _ here => if key = here then s.meanwhile else [s.engine.expected]
  | _ => [s.engine.expected]

theorem not_missed_of_call
    {s : PrefixScanRun} {call : PrefixScanCall} (here : s.call = call)
    (other : ∀ st key, call ≠ .missed st key) (key : String) :
    ¬ s.Missed key := by
  rintro ⟨st, missed⟩
  exact other st key (here.symm.trans missed)

theorem front_of_missed {s : PrefixScanRun} {key : String}
    (missed : s.Missed key) : s.front key = [] := by
  obtain ⟨st, call⟩ := missed
  rw [front, call]
  exact if_pos rfl

theorem allowed_of_missed {s : PrefixScanRun} {key : String}
    (missed : s.Missed key) : s.allowed key = s.meanwhile := by
  obtain ⟨st, call⟩ := missed
  rw [allowed, call]
  exact if_pos rfl

theorem front_of_not_missed {s : PrefixScanRun} {key : String}
    (early : ¬ s.Missed key) : s.front key = [s.engine.active] := by
  rw [front]
  split
  · case h_1 st here call =>
      exact if_neg fun same => early ⟨st, by rw [call, same]⟩
  · rfl

theorem allowed_of_not_missed {s : PrefixScanRun} {key : String}
    (early : ¬ s.Missed key) : s.allowed key = [s.engine.expected] := by
  rw [allowed]
  split
  · case h_1 st here call =>
      exact if_neg fun same => early ⟨st, by rw [call, same]⟩
  · rfl

/-- The scan will find a value for the key that it may find. -/
structure InSight (s : PrefixScanRun) (tables : List (SSTable × Nat))
    (key : String) : Prop where
  finds : ∃ reads ∈ s.allowed key,
    scanFinds (s.front key ++ s.parked) tables key = reads key
  active : ∀ value, s.engine.active.data[key]? = some value →
    value.visible = s.engine.expected key

variable {s s' : PrefixScanRun} {tables : List (SSTable × Nat)}
variable {key : String}

theorem InSight.current (inSight : s.InSight tables key)
    (early : ¬ s.Missed key) :
    scanFinds (s.engine.active :: s.parked) tables key =
      s.engine.expected key := by
  obtain ⟨reads, member, finds⟩ := inSight.finds
  rw [allowed_of_not_missed early, List.mem_singleton] at member
  rw [front_of_not_missed early, member] at finds
  exact finds

theorem InSight.of_current (early : ¬ s.Missed key)
    (finds : scanFinds (s.engine.active :: s.parked) tables key =
      s.engine.expected key) : s.InSight tables key := by
  constructor
  case finds =>
    refine ⟨s.engine.expected, ?_, ?_⟩
    · rw [allowed_of_not_missed early]
      exact List.mem_singleton_self _
    · rw [front_of_not_missed early]
      exact finds
  case active =>
    intro value held
    rw [← memtableValue_singleton] at held
    rw [← finds]
    exact (scanFinds_of_front held).symm

end PrefixScanRun

/-! ## A step of the engine -/

namespace PrefixScanRun

section

variable {s : PrefixScanRun} {engine : FlushState} {action : FlushAction}
variable {tables : List (SSTable × Nat)} {key : String}

/-- The run behind a step of the engine. -/
def after (s : PrefixScanRun) (action : FlushAction) (engine : FlushState) :
    PrefixScanRun :=
  { s with
    engine := engine
    meanwhile := s.meanwhile ++ [engine.expected]
    written := s.written ++ action.written }

theorem missed_after :
    (s.after action engine).Missed key ↔ s.Missed key :=
  Iff.rfl

/-- A value that the scan may find for a key that it has missed in the active
memtable stays in the parked ones. -/
theorem InSight.finds_after
    (inSight : s.InSight tables key) (missed : s.Missed key)
    (parked : engine.tree.immutables = s.engine.tree.immutables) :
    ∃ reads ∈ (s.after action engine).allowed key,
      scanFinds ((s.after action engine).front key ++
        (s.after action engine).parked) tables key = reads key := by
  obtain ⟨reads, member, finds⟩ := inSight.finds
  rw [allowed_of_missed missed] at member
  rw [front_of_missed missed] at finds
  refine ⟨reads, ?_, ?_⟩
  · rw [allowed_of_missed (missed_after.mpr missed)]
    exact List.mem_append_left _ member
  · rw [front_of_missed (missed_after.mpr missed), ← finds]
    exact congrArg (scanFinds · tables key) parked

theorem InSight.unchanged
    (inSight : s.InSight tables key)
    (active : engine.active.data[key]? = s.engine.active.data[key]?)
    (parked : engine.tree.immutables = s.engine.tree.immutables)
    (expected : engine.expected key = s.engine.expected key) :
    (s.after action engine).InSight tables key := by
  by_cases missed : s.Missed key
  · constructor
    case finds => exact inSight.finds_after missed parked
    case active =>
      intro value held
      exact (inSight.active value (active.symm.trans held)).trans
        expected.symm
  · apply InSight.of_current (missed_after.not.mpr missed)
    have before := inSight.current missed
    have same : scanFinds (engine.active :: engine.tree.immutables) tables
        key = scanFinds (s.engine.active :: s.parked) tables key := by
      apply scanFinds_congr
      rw [memtableValue_cons, memtableValue_cons, active, parked]
      rfl
    exact (same.trans before).trans expected.symm

theorem InSight.written
    (inSight : s.InSight tables key) {value : Value}
    (active : engine.active.data[key]? = some value)
    (parked : engine.tree.immutables = s.engine.tree.immutables)
    (expected : engine.expected key = value.visible) :
    (s.after action engine).InSight tables key := by
  by_cases missed : s.Missed key
  · constructor
    case finds => exact inSight.finds_after missed parked
    case active =>
      intro other held
      obtain rfl := Option.some.inj (active.symm.trans held)
      exact expected.symm
  · apply InSight.of_current (missed_after.not.mpr missed)
    have first : memtableValue [engine.active] key = some value :=
      (memtableValue_singleton _).trans active
    exact (scanFinds_of_front first).trans expected.symm

/-- The active memtable becomes the last of the parked ones, for a key that
the scan has missed in it. -/
theorem InSight.swapped_missed
    (inSight : s.InSight tables key) (missed : s.Missed key)
    (parked : engine.tree.immutables =
      s.engine.tree.immutables ++ [s.engine.active])
    (expected : engine.expected = s.engine.expected) :
    ∃ reads ∈ s.meanwhile ++ [engine.expected],
      scanFinds engine.tree.immutables tables key = reads key := by
  obtain ⟨reads, member, finds⟩ := inSight.finds
  rw [allowed_of_missed missed] at member
  rw [front_of_missed missed, List.nil_append] at finds
  rw [parked]
  cases older : memtableValue s.engine.tree.immutables key with
  | some value =>
      refine ⟨reads, List.mem_append_left _ member, ?_⟩
      rw [scanFinds_of_front older, ← finds]
      have alone : scanFinds (s.engine.tree.immutables ++ []) tables key =
          value.visible := scanFinds_of_front older
      rw [List.append_nil] at alone
      exact alone.symm
  | none =>
      rw [scanFinds_behind older]
      cases here : s.engine.active.data[key]? with
      | some value =>
          refine ⟨engine.expected,
            List.mem_append_right _ (List.mem_singleton_self _), ?_⟩
          rw [expected, ← inSight.active value here]
          rw [← memtableValue_singleton] at here
          exact scanFinds_of_front here
      | none =>
          refine ⟨reads, List.mem_append_left _ member, ?_⟩
          rw [← finds]
          apply scanFinds_congr
          rw [memtableValue_singleton, here]
          exact older.symm

theorem InSight.swapped
    (inSight : s.InSight tables key)
    (active : engine.active = .new)
    (parked : engine.tree.immutables =
      s.engine.tree.immutables ++ [s.engine.active])
    (expected : engine.expected = s.engine.expected)
    (unhidden : ∀ value older,
      memtableValue (s.front key) key = some value →
        memtableValue s.parked key = some older →
          older.visible = value.visible) :
    (s.after action engine).InSight tables key := by
  have empty : engine.active.data[key]? = none := by
    rw [active]
    exact Memtable.new_get key
  by_cases missed : s.Missed key
  · constructor
    case finds =>
      rw [allowed_of_missed (missed_after.mpr missed),
        front_of_missed (missed_after.mpr missed)]
      exact inSight.swapped_missed missed parked expected
    case active =>
      intro value held
      exact absurd (empty.symm.trans held) (by simp)
  · apply InSight.of_current (missed_after.not.mpr missed)
    rw [front_of_not_missed missed, memtableValue_singleton] at unhidden
    rw [← memtableValue_singleton] at empty
    calc scanFinds ([engine.active] ++ engine.tree.immutables) tables key
      _ = scanFinds engine.tree.immutables tables key :=
        scanFinds_behind empty
      _ = scanFinds (s.engine.active :: s.parked) tables key := by
        rw [parked]
        exact scanFinds_swapped unhidden
      _ = engine.expected key := by
        rw [expected]
        exact inSight.current missed

/-- One of the parked memtables goes. -/
theorem InSight.removed
    (inSight : s.InSight tables key) {index : Nat}
    (active : engine.active = s.engine.active)
    (parked : engine.tree.immutables =
      s.engine.tree.immutables.eraseIdx index)
    (expected : engine.expected = s.engine.expected)
    (unneeded : ∀ removed, s.parked[index]? = some removed → ∀ value,
      removed.data[key]? = some value →
        memtableValue (s.front key ++ s.parked.take index) key = none →
          scanFinds (s.parked.drop (index + 1)) tables key =
            value.visible) :
    (s.after action engine).InSight tables key := by
  have same : scanFinds (s.front key ++ engine.tree.immutables) tables key =
      scanFinds (s.front key ++ s.parked) tables key := by
    rw [parked]
    exact scanFinds_eraseIdx unneeded
  by_cases missed : s.Missed key
  · constructor
    case finds =>
      obtain ⟨reads, member, finds⟩ := inSight.finds
      rw [allowed_of_missed missed] at member
      refine ⟨reads, ?_, ?_⟩
      · rw [allowed_of_missed (missed_after.mpr missed)]
        exact List.mem_append_left _ member
      · rw [front_of_missed (missed_after.mpr missed), ← finds, ← same,
          front_of_missed missed]
        rfl
    case active =>
      intro value held
      have held : engine.active.data[key]? = some value := held
      rw [active] at held
      exact (inSight.active value held).trans
        (congrFun expected key).symm
  · apply InSight.of_current (missed_after.not.mpr missed)
    rw [front_of_not_missed missed] at same
    have before := inSight.current missed
    change scanFinds ([engine.active] ++ engine.tree.immutables) tables key =
      engine.expected key
    rw [active, expected, same]
    exact before

end

end PrefixScanRun

end F4kvsLsm
