import F4kvsLsm.Engine.ScanInvariant

/-!
# What a scan yields beside flushes and compactions

As long as the scan keeps every key in sight, it yields every key that stays
as it was, once, and every item that it yields was expected of reads at some
time since the scan came to its key.
-/

namespace F4kvsLsm

open KeyOrder Transitions Cursors ByteCodec

section

variable {config : CompactionConfig} {s s' : PrefixScanRun}
variable {tables : List (SSTable × Nat)} {keyPrefix : String}
variable {base : String → Option Value}

namespace PrefixScanRun

theorem InSight.step
    {engine : FlushState} {action : FlushAction} {st : PrefixScanState}
    {key : String} (inSight : s.InSight st.tables key)
    (taken : FlushStep config.jsonLen s.engine action engine)
    (keeps : KeepsInSight s (.engine action))
    (standing : s.call.state? = some st) (wanted : st.wants key = true) :
    (s.after action engine).InSight st.tables key := by
  cases taken.effect with
  | written here value only active parked expected =>
      by_cases same : here = key
      · subst same
        have held : engine.active.data[here]? = some value := by
          rw [active, if_pos rfl]
        apply inSight.written held parked
        rw [expected, Function.update_self]
      · apply inSight.unchanged _ parked
        · rw [expected, Function.update_of_ne (Ne.symm same)]
        · rw [active, if_neg same]
  | swapped active parked expected =>
      exact inSight.swapped active parked expected
        (keeps st standing key wanted)
  | removed published active parked expected =>
      apply inSight.removed active parked expected
      intro removed found
      exact keeps st standing _ _ removed published found key wanted
  | kept untouched active parked expected =>
      exact inSight.unchanged (active key) parked (congrFun expected key)

/-- What holds in every state of a run: `base` was expected of reads when the
scan began. -/
structure Sound (base : String → Option Value)
    (tables : List (SSTable × Nat)) (keyPrefix : String)
    (s : PrefixScanRun) : Prop where
  readable : ∀ failure, s.call ≠ .failed failure
  standing : ∀ st, s.call.state? = some st →
    Standing .records tables keyPrefix st
  inSight : ∀ st, s.call.state? = some st → ∀ key, st.wants key = true →
    s.InSight tables key
  searched : ∀ st best, s.call = .searching st best → ∃ seen : Memtable,
    best = LsmTree.minKeyOfActive .records seen st ∧
      ∀ key, key ∉ s.written → s.engine.active.data[key]? ≠ none →
        seen.data[key]? ≠ none
  found : ∀ st key, s.call = .resolving st key ∨ s.call = .missed st key →
    (∃ (tree : LsmTree) (rest : List String),
      Pending .records (tree.active :: tree.immutables) tables keyPrefix st
        (key :: rest)) ∧
    s.engine.expected ∈ s.meanwhile ∧
    ∀ other, other ∉ s.written → st.wants other = true →
      base other ≠ none → key ≤ other
  kept : ∀ key, key ∉ s.written →
    s.engine.expected key = base key ∧
      ∀ reads ∈ s.meanwhile, reads key = base key
  yielded : ∀ item ∈ s.items,
    ∃ reads ∈ item.meanwhile, reads item.key = some item.value
  behind : ∀ st, s.call.state? = some st → ∀ item ∈ s.items,
    ahead st.last item.key = false
  passed : ∀ key value, key ∉ s.written → startsWith key keyPrefix = true →
    base key = some value →
      (∃ st, s.call.state? = some st ∧ ahead st.last key = true) ∨
        (s.items.filter (·.key = key)).map (·.value) = [value]

/-! ## Steps of the engine -/

end PrefixScanRun

theorem MemtableEffect.expected_unwritten
    {engine engine' : FlushState} {action : FlushAction}
    (effect : MemtableEffect engine engine' action) {key : String}
    (unwritten : key ∉ action.written) :
    engine'.expected key = engine.expected key := by
  cases effect with
  | written here value only active parked expected =>
      rw [only, List.mem_singleton] at unwritten
      rw [expected, Function.update_of_ne unwritten]
  | swapped _ _ expected => rw [expected]
  | removed _ _ _ expected => rw [expected]
  | kept _ _ _ expected => rw [expected]

theorem MemtableEffect.active_unwritten
    {engine engine' : FlushState} {action : FlushAction}
    (effect : MemtableEffect engine engine' action) {key : String}
    (unwritten : key ∉ action.written)
    (held : engine'.active.data[key]? ≠ none) :
    engine.active.data[key]? ≠ none := by
  cases effect with
  | written here value only active parked expected =>
      rw [only, List.mem_singleton] at unwritten
      rw [active, if_neg (Ne.symm unwritten)] at held
      exact held
  | swapped active _ _ =>
      rw [active] at held
      exact absurd (Memtable.new_get key) held
  | removed _ active _ _ =>
      rw [active] at held
      exact held
  | kept _ active _ _ =>
      rw [active] at held
      exact held

namespace PrefixScanRun

theorem Sound.engine
    (sound : s.Sound base tables keyPrefix) {engine : FlushState}
    {action : FlushAction}
    (taken : FlushStep config.jsonLen s.engine action engine)
    (keeps : KeepsInSight s (.engine action)) :
    (s.after action engine).Sound base tables keyPrefix := by
  have still : ∀ key, key ∉ s.written ++ action.written →
      key ∉ s.written ∧ key ∉ action.written := by
    intro key unwritten
    rw [List.mem_append, not_or] at unwritten
    exact unwritten
  constructor
  case readable => exact sound.readable
  case standing => exact sound.standing
  case inSight =>
    intro st standing key wanted
    have same : st.tables = tables := (sound.standing st standing).fixed
    have before := sound.inSight st standing key wanted
    rw [← same] at before ⊢
    exact before.step taken keeps standing wanted
  case searched =>
    intro st best call
    obtain ⟨seen, offered, covers⟩ := sound.searched st best call
    refine ⟨seen, offered, fun key unwritten held => ?_⟩
    obtain ⟨before, now⟩ := still key unwritten
    exact covers key before (taken.effect.active_unwritten now held)
  case found =>
    intro st key call
    obtain ⟨pending, -, least⟩ := sound.found st key call
    refine ⟨pending, ?_, fun other unwritten => ?_⟩
    · exact List.mem_append_right _ (List.mem_singleton_self _)
    · exact least other (still other unwritten).1
  case kept =>
    intro key unwritten
    obtain ⟨before, now⟩ := still key unwritten
    obtain ⟨expected, meanwhile⟩ := sound.kept key before
    have same : engine.expected key = base key :=
      (taken.effect.expected_unwritten now).trans expected
    refine ⟨same, fun reads member => ?_⟩
    rcases List.mem_append.mp member with earlier | last
    · exact meanwhile reads earlier
    · rw [List.mem_singleton.mp last]
      exact same
  case yielded => exact sound.yielded
  case behind => exact sound.behind
  case passed =>
    intro key value unwritten
    exact sound.passed key value (still key unwritten).1

theorem Sound.install
    (sound : s.Sound base tables keyPrefix)
    (levels : Nat → List SSTable) :
    Sound base tables keyPrefix
      { s with engine := { s.engine with levels := levels } } := by
  constructor
  case readable => exact sound.readable
  case standing => exact sound.standing
  case inSight =>
    intro st standing key wanted
    have before := sound.inSight st standing key wanted
    exact ⟨before.finds, before.active⟩
  case searched => exact sound.searched
  case found => exact sound.found
  case kept => exact sound.kept
  case yielded => exact sound.yielded
  case behind => exact sound.behind
  case passed => exact sound.passed

/-! ## Looks of the scan -/

theorem Sound.move
    (sound : s.Sound base tables keyPrefix) {st : PrefixScanState}
    (standing : s.call.state? = some st) {call : PrefixScanCall}
    (same : call.state? = some st) {meanwhile : List (String → Option Value)}
    (inSight : ∀ key, st.wants key = true →
      InSight { s with call := call, meanwhile := meanwhile } tables key)
    (searched : ∀ st' best, call = .searching st' best → ∃ seen : Memtable,
      best = LsmTree.minKeyOfActive .records seen st' ∧
        ∀ key, key ∉ s.written → s.engine.active.data[key]? ≠ none →
          seen.data[key]? ≠ none)
    (found : ∀ st' key, call = .resolving st' key ∨ call = .missed st' key →
      (∃ (tree : LsmTree) (rest : List String),
        Pending .records (tree.active :: tree.immutables) tables keyPrefix st'
          (key :: rest)) ∧
      s.engine.expected ∈ meanwhile ∧
      ∀ other, other ∉ s.written → st'.wants other = true →
        base other ≠ none → key ≤ other)
    (kept : ∀ key, key ∉ s.written →
      ∀ reads ∈ meanwhile, reads key = base key) :
    Sound base tables keyPrefix
      { s with call := call, meanwhile := meanwhile } := by
  constructor
  case readable =>
    intro failure failed
    have failed : call = .failed failure := failed
    rw [failed] at same
    exact absurd same (by simp [PrefixScanCall.state?])
  case standing =>
    intro st' here
    obtain rfl : st = st' := Option.some.inj (same.symm.trans here)
    exact sound.standing st standing
  case inSight =>
    intro st' here
    obtain rfl : st = st' := Option.some.inj (same.symm.trans here)
    exact inSight
  case searched => exact searched
  case found => exact found
  case kept =>
    exact fun key unwritten =>
      ⟨(sound.kept key unwritten).1, kept key unwritten⟩
  case yielded => exact sound.yielded
  case behind =>
    intro st' here
    obtain rfl : st = st' := Option.some.inj (same.symm.trans here)
    exact sound.behind st standing
  case passed =>
    intro key value unwritten starts expected
    rcases sound.passed key value unwritten starts expected with
      ⟨st', here, later⟩ | once
    · obtain rfl : st = st' := Option.some.inj (standing.symm.trans here)
      exact Or.inl ⟨st, same, later⟩
    · exact Or.inr once

/-- The item of a key is the value that was expected at some time. -/
theorem Sound.answer
    (sound : s.Sound base tables keyPrefix)
    (wellFormed : ∀ table ∈ tables, table.1.WellFormed)
    {st : PrefixScanState} {key : String} {value : Option Value}
    (call : s.call = .resolving st key ∨ s.call = .missed st key)
    (allowed : ∃ reads ∈ s.meanwhile, reads key = value) :
    (s.answer st key value).Sound base tables keyPrefix := by
  obtain ⟨⟨tree, rest, pending⟩, -, least⟩ := sound.found st key call
  have standing : s.call.state? = some st := by
    rcases call with call | call <;> rw [call] <;> rfl
  have facts := (pending.mem_iff key).mp List.mem_cons_self
  have wanted : ∀ other, ahead (some key) other = true →
      ahead st.last other = true := fun other behind =>
    ahead_of_lt facts.2.1 (of_decide_eq_true behind)
  have advanced := pending.advance wellFormed
  have unyielded : ∀ item ∈ s.items, item.key ≠ key := by
    intro item member same
    have behind := sound.behind st standing item member
    rw [same, facts.2.1] at behind
    exact absurd behind (by simp)
  constructor
  case readable =>
    intro failure failed
    exact absurd failed (by simp [PrefixScanRun.answer])
  case standing =>
    intro st' same
    obtain rfl := Option.some.inj same
    exact ⟨advanced.scanned, advanced.fixed, advanced.started,
      advanced.placed⟩
  case inSight =>
    intro st' same other wants
    obtain rfl := Option.some.inj same
    have parts := wants
    rw [PrefixScanState.wants, Bool.and_eq_true] at parts
    have later : key < other := of_decide_eq_true parts.2
    have before : st.wants other = true := by
      rw [PrefixScanState.wants, Bool.and_eq_true]
      exact ⟨parts.1, wanted other parts.2⟩
    have early : ¬ s.Missed other := by
      intro missed
      obtain ⟨st', here⟩ := missed
      rcases call with call | call
      · rw [call] at here
        exact absurd here (by simp)
      · rw [call, PrefixScanCall.missed.injEq] at here
        exact absurd here.2 later.ne
    have now : ¬ (s.answer st key value).Missed other :=
      not_missed_of_call rfl (by simp [PrefixScanRun.answer]) other
    exact .of_current now
      ((sound.inSight st standing other before).current early)
  case searched =>
    intro st' best here
    exact absurd here (by simp [PrefixScanRun.answer])
  case found =>
    intro st' other here
    exact absurd here (by simp [PrefixScanRun.answer])
  case kept => exact sound.kept
  case yielded =>
    cases value with
    | none => exact sound.yielded
    | some value =>
        intro item member
        rcases List.mem_append.mp member with earlier | last
        · exact sound.yielded item earlier
        · rw [List.mem_singleton.mp last]
          exact allowed
  case behind =>
    intro st' same
    obtain rfl := Option.some.inj same
    have old : ∀ item ∈ s.items, ahead (some key) item.key = false := by
      intro item member
      have behind := sound.behind st standing item member
      cases later : ahead (some key) item.key with
      | false => rfl
      | true =>
          rw [wanted _ later] at behind
          exact absurd behind (by simp)
    cases value with
    | none => exact old
    | some value =>
        intro item member
        rcases List.mem_append.mp member with earlier | last
        · exact old item earlier
        · rw [List.mem_singleton.mp last]
          exact decide_eq_false (lt_irrefl key)
  case passed =>
    intro other live unwritten starts expected
    have unchanged : other ≠ key →
        ((s.answer st key value).items.filter (·.key = other)).map
          (·.value) = (s.items.filter (·.key = other)).map (·.value) := by
      intro different
      cases value with
      | none => rfl
      | some value =>
          rw [PrefixScanRun.answer]
          simp only
          rw [List.filter_append, List.filter_cons_of_neg
            (by simpa using Ne.symm different), List.filter_nil,
            List.append_nil]
    rcases sound.passed other live unwritten starts expected with
      ⟨st', same, later⟩ | once
    · obtain rfl : st = st' := Option.some.inj (standing.symm.trans same)
      have wants : st.wants other = true := by
        rw [PrefixScanState.wants, pending.scanned, starts, later]
        rfl
      have below := least other unwritten wants (by simp [expected])
      rcases below.eq_or_lt with same | less
      · subst same
        right
        obtain ⟨reads, member, same⟩ := allowed
        rw [(sound.kept key unwritten).2 reads member, expected] at same
        subst same
        rw [PrefixScanRun.answer]
        simp only
        rw [List.filter_append, List.filter_eq_nil_iff.mpr fun item member =>
          by simpa using unyielded item member]
        simp
      · exact Or.inl ⟨_, rfl, decide_eq_true less⟩
    · right
      rw [unchanged ?_, once]
      rintro rfl
      cases yields : s.items.filter (·.key = other) with
      | nil =>
          rw [yields] at once
          exact absurd once (by simp)
      | cons item items =>
          have member : item ∈ s.items.filter (·.key = other) := by
            rw [yields]
            exact List.mem_cons_self
          rw [List.mem_filter, decide_eq_true_eq] at member
          exact unyielded item member.1 member.2

/-- A key that stays as it was is held by what the scan has looked into and
the parked memtables. -/
theorem Sound.source
    (sound : s.Sound base tables keyPrefix)
    (wellFormed : ∀ table ∈ tables, table.1.WellFormed)
    {st : PrefixScanState} {best : Option String} {seen : Memtable}
    (call : s.call = .searching st best)
    (covers : ∀ key, key ∉ s.written →
      s.engine.active.data[key]? ≠ none → seen.data[key]? ≠ none)
    {key : String} (unwritten : key ∉ s.written)
    (wanted : st.wants key = true) (live : base key ≠ none) :
    Source .records (seen :: s.parked) tables key := by
  obtain ⟨value, expected⟩ := Option.ne_none_iff_exists'.mp live
  have early : ¬ s.Missed key := not_missed_of_call call (by simp) key
  have found := (sound.inSight st (by rw [call]; rfl) key wanted).current
    early
  rw [(sound.kept key unwritten).1, expected] at found
  rcases source_of_scanFinds wellFormed found with inMemtable | inTable
  · left
    obtain ⟨memtable, member, held⟩ := inMemtable
    rcases List.mem_cons.mp member with here | behind
    · obtain ⟨other, held⟩ := held
      rw [here] at held
      have inSeen := covers key unwritten (by rw [held]; simp)
      exact ⟨seen, List.mem_cons_self, Option.ne_none_iff_exists'.mp inSeen⟩
    · exact ⟨memtable, List.mem_cons_of_mem _ behind, held⟩
  · exact Or.inr inTable

/-- The next key is not behind any key that stays as it was. -/
theorem Sound.choose
    (sound : s.Sound base tables keyPrefix)
    (wellFormed : ∀ table ∈ tables, table.1.WellFormed)
    {st : PrefixScanState} {best : Option String}
    (call : s.call = .searching st best) :
    s.scan.Sound base tables keyPrefix := by
  have standing : s.call.state? = some st := by
    rw [call]
    rfl
  obtain ⟨seen, offered, covers⟩ := sound.searched st best call
  let tree : LsmTree := ⟨seen, s.parked, fun _ => [], 0⟩
  obtain ⟨keys, pending⟩ :=
    (sound.standing st standing).exists_pending (tree.active :: tree.immutables)
  have next : LsmTree.minKeyOfParked s.parked st best = keys.head? := by
    rw [offered, ← pending.nextKey wellFormed, LsmTree.prefixScanMinKey_eq]
  have among : ∀ key, key ∉ s.written → st.wants key = true →
      base key ≠ none → key ∈ keys := by
    intro key unwritten wanted live
    have source := sound.source wellFormed call covers unwritten wanted live
    rw [PrefixScanState.wants, Bool.and_eq_true, pending.scanned] at wanted
    exact (pending.mem_iff key).mpr ⟨wanted.1, wanted.2, source⟩
  have unmissed : ∀ key, ¬ s.Missed key :=
    not_missed_of_call call (by simp)
  rw [PrefixScanRun.scan, call]
  simp only [next]
  cases keys with
  | nil =>
      constructor
      case readable => exact fun failure failed => absurd failed (by simp)
      case standing =>
        intro st' same
        exact absurd same (by simp [PrefixScanCall.state?])
      case inSight =>
        intro st' same
        exact absurd same (by simp [PrefixScanCall.state?])
      case searched => exact fun st' best' here => absurd here (by simp)
      case found => exact fun st' key here => absurd here (by simp)
      case kept => exact sound.kept
      case yielded => exact sound.yielded
      case behind =>
        intro st' same
        exact absurd same (by simp [PrefixScanCall.state?])
      case passed =>
        intro key value unwritten starts expected
        rcases sound.passed key value unwritten starts expected with
          ⟨st', same, later⟩ | once
        · obtain rfl : st = st' := Option.some.inj (standing.symm.trans same)
          have wants : st.wants key = true := by
            rw [PrefixScanState.wants, pending.scanned, starts, later]
            rfl
          exact absurd (among key unwritten wants (by simp [expected]))
            List.not_mem_nil
        · exact Or.inr once
  | cons key rest =>
      apply sound.move standing rfl
      case inSight =>
        intro other wanted
        apply InSight.of_current
        · intro missed
          obtain ⟨st', here⟩ := missed
          exact absurd here (by simp)
        · exact (sound.inSight st standing other wanted).current
            (unmissed other)
      case searched => exact fun st' best' here => absurd here (by simp)
      case found =>
        intro st' other here
        have same : st = st' ∧ key = other := by
          rcases here with here | here
          · exact PrefixScanCall.resolving.inj here
          · exact absurd here (by simp)
        obtain ⟨rfl, rfl⟩ := same
        refine ⟨⟨tree, rest, pending⟩, List.mem_singleton_self _, ?_⟩
        intro other unwritten wanted live
        rcases List.mem_cons.mp (among other unwritten wanted live) with
          here | later
        · exact here.ge
        · exact ((List.pairwise_cons.mp pending.ascending).1 other later).le
      case kept =>
        intro other unwritten reads member
        rw [List.mem_singleton.mp member]
        exact (sound.kept other unwritten).1

theorem resolveHeads_eq
    (wellFormed : ∀ table ∈ tables, table.1.WellFormed)
    (readsBack : ∀ table ∈ tables, table.1.ReadsBack) {tree : LsmTree}
    {st : PrefixScanState} {key : String} {rest : List String}
    (pending : Pending .records (tree.active :: tree.immutables) tables
      keyPrefix st (key :: rest)) :
    LsmTree.resolveHeads .records st key =
      .ok ((bestHit (·.hitWhere everyVersion key) tables).bind
        SSTableEntry.visible) := by
  have readable : ¬ BlockFails .records tables key :=
    not_blockFails_records wellFormed readsBack key
  rw [LsmTree.resolveHeads, pending.foldlM_resolveHead wellFormed,
    foldlM_tableHit_ok readable, ok_bind, foldl_keepHit]
  rfl

/-- The look into the active memtable for the next key. -/
theorem Sound.look
    (sound : s.Sound base tables keyPrefix) {st : PrefixScanState}
    (call : s.call = .looking st) : s.scan.Sound base tables keyPrefix := by
  have standing : s.call.state? = some st := by
    rw [call]
    rfl
  rw [PrefixScanRun.scan, call]
  apply sound.move standing rfl
  case inSight =>
    intro key wanted
    apply InSight.of_current
    · intro missed
      obtain ⟨st', here⟩ := missed
      exact absurd here (by simp)
    · apply (sound.inSight st standing key wanted).current
      intro missed
      obtain ⟨st', here⟩ := missed
      rw [call] at here
      exact absurd here (by simp)
  case searched =>
    intro st' best here
    obtain ⟨rfl, rfl⟩ := PrefixScanCall.searching.inj here
    exact ⟨s.engine.active, rfl, fun _ _ held => held⟩
  case found => exact fun st' key here => absurd here (by simp)
  case kept => exact fun key unwritten => (sound.kept key unwritten).2

/-- The look into the active memtable for the value of the key. -/
theorem Sound.resolve
    (sound : s.Sound base tables keyPrefix)
    (wellFormed : ∀ table ∈ tables, table.1.WellFormed)
    {st : PrefixScanState} {key : String}
    (call : s.call = .resolving st key) :
    s.scan.Sound base tables keyPrefix := by
  have standing : s.call.state? = some st := by
    rw [call]
    rfl
  obtain ⟨⟨tree, rest, pending⟩, current, least⟩ :=
    sound.found st key (.inl call)
  have facts := (pending.mem_iff key).mp List.mem_cons_self
  have wanted : st.wants key = true := by
    rw [PrefixScanState.wants, pending.scanned, facts.1, facts.2.1]
    rfl
  have early : ∀ other, ¬ s.Missed other :=
    not_missed_of_call call (by simp)
  have inSight := sound.inSight st standing key wanted
  rw [PrefixScanRun.scan, call]
  simp only [Memtable.lookup]
  cases held : s.engine.active.data[key]? with
  | some value =>
      have expected := inSight.active value held
      have answered : s.Sound base tables keyPrefix →
          (s.answer st key value.visible).Sound base tables keyPrefix :=
        fun sound => sound.answer wellFormed (.inl call)
          ⟨_, current, expected.symm⟩
      cases value <;> exact answered sound
  | none =>
      apply sound.move standing rfl
      case inSight =>
        intro other wants
        by_cases same : other = key
        · subst same
          have missed : Missed { s with call := .missed st other } other :=
            ⟨st, rfl⟩
          constructor
          case finds =>
            refine ⟨s.engine.expected, ?_, ?_⟩
            · rw [allowed_of_missed missed]
              exact current
            · rw [front_of_missed missed, ← inSight.current (early other)]
              rw [← memtableValue_singleton] at held
              exact (scanFinds_behind held).symm
          case active => exact inSight.active
        · apply InSight.of_current
          · intro missed
            obtain ⟨st', here⟩ := missed
            rw [PrefixScanCall.missed.injEq] at here
            exact same here.2.symm
          · exact (sound.inSight st standing other wants).current
              (early other)
      case searched => exact fun st' best here => absurd here (by simp)
      case found =>
        intro st' other here
        have same : st = st' ∧ key = other := by
          rcases here with here | here
          · exact absurd here (by simp)
          · exact PrefixScanCall.missed.inj here
        obtain ⟨rfl, rfl⟩ := same
        exact ⟨⟨tree, rest, pending⟩, current, least⟩
      case kept => exact fun key unwritten => (sound.kept key unwritten).2

/-- The look into the parked memtables and the tables of the scan. -/
theorem Sound.fetch
    (sound : s.Sound base tables keyPrefix)
    (wellFormed : ∀ table ∈ tables, table.1.WellFormed)
    (readsBack : ∀ table ∈ tables, table.1.ReadsBack)
    {st : PrefixScanState} {key : String} (call : s.call = .missed st key) :
    s.scan.Sound base tables keyPrefix := by
  have standing : s.call.state? = some st := by
    rw [call]
    rfl
  obtain ⟨⟨tree, rest, pending⟩, -, -⟩ := sound.found st key (.inr call)
  have facts := (pending.mem_iff key).mp List.mem_cons_self
  have wanted : st.wants key = true := by
    rw [PrefixScanState.wants, pending.scanned, facts.1, facts.2.1]
    rfl
  have missed : s.Missed key := ⟨st, call⟩
  obtain ⟨reads, member, finds⟩ :=
    (sound.inSight st standing key wanted).finds
  rw [allowed_of_missed missed] at member
  rw [front_of_missed missed, List.nil_append] at finds
  have answered := sound.answer wellFormed (.inr call)
    ⟨reads, member, finds.symm⟩
  rw [PrefixScanRun.scan, call]
  simp only [getFromMemtables_eq, resolveHeads_eq wellFormed
    readsBack pending]
  rw [scanFinds] at answered
  cases held : memtableValue s.parked key with
  | none =>
      rw [held] at answered
      exact answered
  | some value =>
      rw [held] at answered
      cases value <;> exact answered

theorem Sound.scan
    (sound : s.Sound base tables keyPrefix)
    (wellFormed : ∀ table ∈ tables, table.1.WellFormed)
    (readsBack : ∀ table ∈ tables, table.1.ReadsBack) :
    s.scan.Sound base tables keyPrefix := by
  cases call : s.call with
  | looking st => exact sound.look call
  | searching st best => exact sound.choose wellFormed call
  | resolving st key => exact sound.resolve wellFormed call
  | missed st key => exact sound.fetch wellFormed readsBack call
  | failed failure => exact absurd call (sound.readable failure)
  | ended =>
      rw [PrefixScanRun.scan, call]
      exact sound

end PrefixScanRun

/-! ## Runs -/

theorem PrefixScanStep.sound
    {action : PrefixScanAction} (sound : s.Sound base tables keyPrefix)
    (wellFormed : ∀ table ∈ tables, table.1.WellFormed)
    (readsBack : ∀ table ∈ tables, table.1.ReadsBack)
    (keeps : KeepsInSight s action)
    (taken : PrefixScanStep config s action s') :
    s'.Sound base tables keyPrefix := by
  cases taken with
  | scan => exact sound.scan wellFormed readsBack
  | engine step => exact sound.engine step keeps
  | install installs => exact sound.install _

theorem PrefixScanRun.start_sound
    {levelCount : Nat} {engine : FlushState} {order : List Nat}
    (quiescent : QuiescentTables levelCount engine.levels)
    (visits : VisitsLevels order engine.levels)
    (current : ∀ key,
      engine.tree.get levelCount key = engine.expected key)
    (keyPrefix : String) :
    (PrefixScanRun.start engine order keyPrefix).Sound engine.expected
      (scannedTables order engine.levels) keyPrefix := by
  have reads : ∀ key, scanFinds (engine.active :: engine.tree.immutables)
      (scannedTables order engine.levels) key = engine.expected key := by
    intro key
    have shown : engine.tree.get levelCount key =
        engine.tree.shownWhere everyVersion key :=
      QuiescentTables.get_eq quiescent key
    rw [← current key, shown, LsmTree.shownWhere, scanFinds,
      quiescent.bestHit_eq visits]
    rfl
  constructor
  case readable => exact fun failure failed => absurd failed (by simp [start])
  case standing =>
    intro st same
    obtain rfl := Option.some.inj same
    exact prefixScanStart_standing .records engine.tree order keyPrefix
      (quiescent.wellFormed order)
  case inSight =>
    intro st same key wanted
    apply PrefixScanRun.InSight.of_current
    · intro missed
      obtain ⟨st', here⟩ := missed
      exact absurd here (by simp [start])
    · exact reads key
  case searched => exact fun st best here => absurd here (by simp [start])
  case found => exact fun st key here => absurd here (by simp [start])
  case kept =>
    exact fun key _ => ⟨rfl, fun reads member =>
      absurd member List.not_mem_nil⟩
  case yielded =>
    exact fun item member => absurd member List.not_mem_nil
  case behind =>
    exact fun st _ item member => absurd member List.not_mem_nil
  case passed =>
    exact fun key value _ _ _ => Or.inl ⟨_, rfl, rfl⟩

/-- In every run that starts with tables whose records can be read, and whose
swaps and removals keep in sight what the scan has still to come to, a scan
does not fail; one that has ended has yielded every key that was live at its
start and has not been written since, once and with its value, and every item
that it has yielded was expected of a read at some time since the scan came to
the key. -/
theorem prefix_scan_beside_flushes
    {engine : FlushState} {order : List Nat}
    (quiescent : QuiescentTables config.levelCount engine.levels)
    (readsBack : ∀ level, ∀ table ∈ engine.levels level, table.ReadsBack)
    (visits : VisitsLevels order engine.levels)
    (current : ∀ key,
      engine.tree.getChecked config.levelCount key = engine.expected key)
    (keyPrefix : String)
    (run : Reaches (PrefixScanStep config) KeepsInSight
      (.start engine order keyPrefix) s) :
    (∀ failure, s.call ≠ .failed failure) ∧
    (s.call = .ended → ∀ key value, startsWith key keyPrefix = true →
      engine.expected key = some value → key ∉ s.written →
        (s.items.filter (·.key = key)).map (·.value) = [value]) ∧
    ∀ item ∈ s.items,
      ∃ reads ∈ item.meanwhile, reads item.key = some item.value := by
  have shows : ∀ key,
      engine.tree.get config.levelCount key = engine.expected key := by
    intro key
    rw [← current key, LsmTree.getChecked_eq readsBack]
  have scanned : ∀ table ∈ scannedTables order engine.levels,
      table.1.ReadsBack := by
    intro table member
    obtain ⟨level, inLevel⟩ :=
      (mem_scannedTables_iff visits).mp ⟨table.2, member⟩
    exact readsBack level table.1 inLevel
  have sound := run.invariant
    (PrefixScanRun.Sound engine.expected
      (scannedTables order engine.levels) keyPrefix)
    (PrefixScanRun.start_sound quiescent visits shows keyPrefix)
    fun _ _ _ sound keeps taken =>
      taken.sound sound (quiescent.wellFormed order) scanned keeps
  refine ⟨sound.readable, fun ended key value starts expected unwritten => ?_,
    sound.yielded⟩
  rcases sound.passed key value unwritten starts expected with
    ⟨st, standing, -⟩ | once
  · rw [ended] at standing
    exact absurd standing (by simp [PrefixScanCall.state?])
  · exact once

end

/-! ## A flush behind the scan -/

/-- One key, in the active memtable. -/
def oneKey : FlushState :=
  (FlushState.quiet .new (fun _ => []) 1 (LsmTree.empty.get 7)).put
    leveledConfig.jsonLen "a" (.bool true)

theorem FlushState.current_put
    {levelCount : Nat} {s : FlushState}
    (current : ∀ key, s.tree.get levelCount key = s.expected key)
    (jsonLen : SerdeJsonValue → Nat) (key : String) (value : Value) :
    ∀ other, (s.put jsonLen key value).tree.get levelCount other =
      (s.put jsonLen key value).expected other := by
  intro other
  have before := current other
  rw [LsmTree.get_eq, memtableValue_cons] at before ⊢
  simp only [FlushState.put, FlushState.tree, Memtable.put_get]
  by_cases same : key = other
  · rw [if_pos same, same, Function.update_self]
    rfl
  · rw [if_neg same, Function.update_of_ne (Ne.symm same)]
    exact before

/-- The scan has come past the key when its memtable is flushed. -/
def oneKeyScanned : PrefixScanRun :=
  (PrefixScanRun.start oneKey [0] "").scan.scan.scan.scan

theorem oneKey_scanned :
    Reaches (PrefixScanStep leveledConfig) KeepsInSight
      (.start oneKey [0] "") oneKeyScanned :=
  ((((Reaches.start _).next .scan trivial .scan).next .scan trivial
    .scan).next .scan trivial .scan).next .scan trivial .scan

theorem oneKey_active_get
    {key : String} {value : Value}
    (held : oneKey.active.data[key]? = some value) : key = "a" := by
  have inserted : oneKey.active.data[key]? =
      if "a" = key then some (.bool true) else Memtable.new.data[key]? :=
    Memtable.put_get ..
  rw [inserted, Memtable.new_get] at held
  by_contra other
  rw [if_neg (Ne.symm other)] at held
  exact absurd held (by simp)

theorem flushed_behind_the_scan :
    ∃ s : PrefixScanRun, s.call = .ended ∧ s.engine.immutables = [] ∧
      (s.items.filter (·.key = "a")).map (·.value) = [.bool true] := by
  have nothing : oneKeyScanned.parked = [] := rfl
  have swapped : KeepsInSight oneKeyScanned (.engine (.swap 1)) := by
    intro st _ key _ value older _ held
    rw [nothing] at held
    exact absurd held (by simp [memtableValue])
  have published := (((((oneKey_scanned.next
    (.engine (.swap 1)) swapped (.engine (.swap rfl))).next
    (.engine (.readEntries 1)) trivial (.engine (.readEntries rfl))).next
    (.engine (.drawName 1 [])) trivial (.engine (.drawName [] rfl))).next
    (.engine (.stampEntry 1)) trivial (.engine (.stampEntry rfl))).next
    (.engine (.publish 1 smallTable)) trivial
      (.engine (.publish _ rfl))).next
    (.install (.ifNeeded [] (outputFiles 10))) trivial (.install rfl)
  have run := ((published.next (.engine (.remove 1)) (by
      intro st standing ticket index removed calls found key wanted value held
      cases standing
      cases calls
      cases found
      rw [oneKey_active_get held] at wanted
      exact absurd wanted (by decide)) (.engine (.remove rfl))).next
    .scan trivial .scan).next .scan trivial .scan
  have current : ∀ key,
      oneKey.tree.getChecked 7 key = oneKey.expected key :=
    FlushState.current_put (fun _ => rfl) _ _ _
  have quiescent : QuiescentTables 7 oneKey.levels :=
    (LsmTree.empty_invariant leveledConfig).quiescentTables (by decide)
  have visits : VisitsLevels [0] oneKey.levels :=
    ⟨by decide, fun level nonempty => absurd rfl nonempty⟩
  exact ⟨_, rfl, rfl, (prefix_scan_beside_flushes quiescent
    (fun _ _ member => absurd member List.not_mem_nil) visits current ""
    run).2.1 rfl "a" (.bool true) rfl rfl List.not_mem_nil⟩

/-! ## A flush ahead of the scan -/

/-- A key of a table is deleted, and a new key is put. -/
def deletedAndPut : FlushState :=
  ((FlushState.quiet twoTables.active twoTables.levels
    twoTables.sequenceNumber (twoTables.get 7)).delete
      leveledConfig.jsonLen "a").put leveledConfig.jsonLen "b" (.bool true)

/-- The new key is missed and the deleted one is yielded. -/
theorem scan_misses_flushed_keys :
    ∃ s : PrefixScanRun,
      Reaches (PrefixScanStep leveledConfig) (fun _ _ => True)
        (.start deletedAndPut [0] "") s ∧
      s.call = .ended ∧ s.written = [] ∧
      deletedAndPut.expected "a" = none ∧
      deletedAndPut.expected "b" = some (.bool true) ∧
      s.items.map (fun item => (item.key, item.value)) =
        [("a", .bool true), ("k", .bool true)] := by
  have start : Reaches (PrefixScanStep leveledConfig) (fun _ _ => True)
      (.start deletedAndPut [0] "") (.start deletedAndPut [0] "") :=
    Reaches.start _
  have flushed := ((((((start.next
    (.engine (.swap 1)) trivial (.engine (.swap rfl))).next
    (.engine (.readEntries 1)) trivial (.engine (.readEntries rfl))).next
    (.engine (.drawName 1 [])) trivial (.engine (.drawName [] rfl))).next
    (.engine (.stampEntry 1)) trivial (.engine (.stampEntry rfl))).next
    (.engine (.stampEntry 1)) trivial (.engine (.stampEntry rfl))).next
    (.engine (.publish 1 smallTable)) trivial
      (.engine (.publish _ rfl))).next
    (.engine (.remove 1)) trivial (.engine (.remove rfl))
  have first := (((flushed.next .scan trivial .scan).next .scan trivial
    .scan).next .scan trivial .scan).next .scan trivial .scan
  have second := (((first.next .scan trivial .scan).next .scan trivial
    .scan).next .scan trivial .scan).next .scan trivial .scan
  have run := (second.next .scan trivial .scan).next .scan trivial .scan
  exact ⟨_, run, rfl, rfl, rfl, rfl, rfl⟩

end F4kvsLsm
