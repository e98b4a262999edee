import F4kvsLsm.Compaction.SingleFlight

/-!
# Pins, evictions and unlinked files

Readers pin tables of the live map and read through clones that share the
reader count.  Handles of tables without readers are closed to save file
descriptors, and a compaction unlinks its inputs once it has seen that they
have no reader.  Neither happens to a pinned table.

The lock on the live map is held for reading while a scan pins its heads, and
for writing while handles are closed; all other uses of it are one step.
-/

namespace F4kvsLsm

open Transitions

/-- How far an eviction has come; candidates are positions in the map. -/
inductive EvictCall where
  | idle
  | collected (candidates : List (Nat × Nat))
  | evicting (candidates : List (Nat × Nat))
  /-- The handle of a file without readers is being closed. -/
  | closing (candidates : List (Nat × Nat)) (name : SstableName)

/-- The live map with its compactions, readers and evictions.  `counts` are
the reader counts, as integers so that one below zero would show; `pins` are
the pins that readers hold; `opened` are the files with an open handle. -/
structure PinState where
  map : CompactionState
  counts : SstableName → Int
  pins : List (Nat × SstableName)
  opened : List SstableName
  scanning : Nat → Bool
  writer : Option Nat
  evictions : Nat → EvictCall

inductive PinAction where
  | map (action : CompactionAction)
  | pin (reader level index : Nat)
  | beginScan (reader : Nat)
  | pinHead (reader level index : Nat)
  | endScan (reader : Nat)
  | unpin (reader : Nat) (name : SstableName)
  | openFile (name : SstableName)
  | collect (evictor : Nat) (candidates : List (Nat × Nat))
  | lockMap (evictor : Nat)
  | checkCandidate (evictor : Nat)
  | skipCandidate (evictor : Nat)
  | close (evictor : Nat)
  | unlockMap (evictor : Nat)

namespace PinState

/-- `pin_reader` on a clone. -/
def addPin (state : PinState) (reader : Nat) (name : SstableName) :
    PinState :=
  { state with
    counts := Function.update state.counts name (state.counts name + 1)
    pins := (reader, name) :: state.pins }

/-- Dropping a pin, or a head of a scan. -/
def dropPin (state : PinState) (reader : Nat) (name : SstableName) :
    PinState :=
  { state with
    counts := Function.update state.counts name (state.counts name - 1)
    pins := state.pins.erase (reader, name) }

def setEviction (state : PinState) (evictor : Nat) (phase : EvictCall) :
    PinState :=
  { state with evictions := Function.update state.evictions evictor phase }

/-- `is_open` and `can_delete`. -/
def Evictable (state : PinState) (position : Nat × Nat)
    (name : SstableName) : Prop :=
  ∃ table, (state.map.levels position.1)[position.2]? = some table ∧
    table.name = name ∧ name ∈ state.opened ∧ state.counts name = 0

/-- Nobody holds the lock for writing. -/
def Readable (state : PinState) : Prop := state.writer = none

/-- Nobody holds the lock at all. -/
def Writable (state : PinState) : Prop :=
  state.writer = none ∧ ∀ reader, state.scanning reader = false

/-- What a step of a compaction or a flush needs from the readers. -/
def Admits (state : PinState) : CompactionAction → Prop
  | .choose _ _ => state.Readable
  | .snapshotLevel _ _ _ => state.Writable
  | .snapshotAll _ => state.Readable
  | .install _ => state.Writable
  | .push _ => state.Writable
  | .waitForReaders call =>
      ∀ table pending,
        state.map.calls call = .reclaiming .waiting (table :: pending) →
          state.counts table.name = 0
  | .checkReaders call =>
      ∀ table pending,
        state.map.calls call = .reclaiming .waited (table :: pending) →
          state.counts table.name = 0
  | _ => True

/-- The file that a step unlinks or whose handle it closes. -/
def Removes (state : PinState) : PinAction → SstableName → Prop
  | .map (.unlink call), name =>
      ∃ table pending,
        state.map.calls call = .reclaiming .unlinking (table :: pending) ∧
          table.name = name
  | .close evictor, name =>
      ∃ candidates, state.evictions evictor = .closing candidates name
  | _, _ => False

end PinState

inductive PinStep (config : CompactionConfig) :
    PinState → PinAction → PinState → Prop
  | map {state : PinState} {action : CompactionAction}
      {after : CompactionState} :
      state.Admits action → CompactionStep config state.map action after →
      -- `unlink_from_disk` closes the handle too
      PinStep config state (.map action) { state with
        map := after
        opened := state.opened.filter (· ∉ after.unlinked) }
  | pin {state : PinState} {reader level index : Nat} {table : SSTable} :
      state.Readable → (state.map.levels level)[index]? = some table →
      PinStep config state (.pin reader level index)
        (state.addPin reader table.name)
  | beginScan {state : PinState} {reader : Nat} :
      state.Readable →
      PinStep config state (.beginScan reader)
        { state with scanning := Function.update state.scanning reader true }
  | pinHead {state : PinState} {reader level index : Nat}
      {table : SSTable} :
      state.scanning reader = true →
      (state.map.levels level)[index]? = some table →
      table.name ∉ state.map.marked →
      PinStep config state (.pinHead reader level index)
        (state.addPin reader table.name)
  | endScan {state : PinState} {reader : Nat} :
      state.scanning reader = true →
      PinStep config state (.endScan reader)
        { state with scanning := Function.update state.scanning reader false }
  | unpin {state : PinState} {reader : Nat} {name : SstableName} :
      (reader, name) ∈ state.pins →
      PinStep config state (.unpin reader name) (state.dropPin reader name)
  | openFile {state : PinState} {name : SstableName} :
      name ∉ state.map.unlinked →
      PinStep config state (.openFile name)
        { state with opened := name :: state.opened }
  | collect {state : PinState} {evictor : Nat}
      {candidates : List (Nat × Nat)} :
      state.evictions evictor = .idle → state.Readable →
      (∀ position ∈ candidates, ∃ name, state.Evictable position name) →
      PinStep config state (.collect evictor candidates)
        (state.setEviction evictor (.collected candidates))
  | lockMap {state : PinState} {evictor : Nat}
      {candidates : List (Nat × Nat)} :
      state.evictions evictor = .collected candidates → state.Writable →
      PinStep config state (.lockMap evictor)
        { state.setEviction evictor (.evicting candidates) with
          writer := some evictor }
  | checkCandidate {state : PinState} {evictor : Nat}
      {position : Nat × Nat} {candidates : List (Nat × Nat)}
      {name : SstableName} :
      state.evictions evictor = .evicting (position :: candidates) →
      state.Evictable position name →
      PinStep config state (.checkCandidate evictor)
        (state.setEviction evictor (.closing candidates name))
  | skipCandidate {state : PinState} {evictor : Nat}
      {position : Nat × Nat} {candidates : List (Nat × Nat)} :
      state.evictions evictor = .evicting (position :: candidates) →
      PinStep config state (.skipCandidate evictor)
        (state.setEviction evictor (.evicting candidates))
  | close {state : PinState} {evictor : Nat}
      {candidates : List (Nat × Nat)} {name : SstableName} :
      state.evictions evictor = .closing candidates name →
      PinStep config state (.close evictor)
        { state.setEviction evictor (.evicting candidates) with
          opened := state.opened.filter (· ≠ name) }
  | unlockMap {state : PinState} {evictor : Nat} :
      state.evictions evictor = .evicting [] →
      PinStep config state (.unlockMap evictor)
        { state.setEviction evictor .idle with writer := none }

/-- Compactions are calls of `compact_if_needed`, and their files are new. -/
def IfNeededRuns (config : CompactionConfig) (state : PinState) :
    PinAction → Prop
  | .map action =>
      action.OnlyIfNeeded ∧ FreshOutput config state.map action
  | _ => True

/-- Nobody reads and nothing runs. -/
structure PinState.AtRest (state : PinState) : Prop where
  map : state.map.AtRest
  counts : ∀ name, state.counts name = 0
  pins : state.pins = []
  scanning : ∀ reader, state.scanning reader = false
  writer : state.writer = none
  evictions : ∀ evictor, state.evictions evictor = .idle

/-! ## What the steps of compactions do to files -/

namespace CompactionStep

variable {config : CompactionConfig} {state state' : CompactionState}
variable {action : CompactionAction}

theorem unlinking
    {call : Nat} {table : SSTable} {pending : List SSTable}
    (taken : CompactionStep config state action state')
    (found : state'.calls call =
      .reclaiming .unlinking (table :: pending)) :
    state.calls call = .reclaiming .unlinking (table :: pending) ∨
      action = .checkReaders call ∧
        state.calls call = .reclaiming .waited (table :: pending) := by
  have split : ∀ {caller : Nat} {phase : CompactionCall},
      (state.setCall caller phase).calls call =
        .reclaiming .unlinking (table :: pending) →
      call = caller ∧ phase = .reclaiming .unlinking (table :: pending) ∨
        state.calls call = .reclaiming .unlinking (table :: pending) := by
    intro caller phase reached
    by_cases own : call = caller
    · rw [own, CompactionState.setCall_self] at reached
      exact Or.inl ⟨own, reached⟩
    · rw [state.setCall_other phase own] at reached
      exact Or.inr reached
  cases taken with
  | checkReaders phase =>
      rcases split found with ⟨own, same⟩ | before
      · subst own
        injection same with _ tables
        exact Or.inr ⟨rfl, tables ▸ phase⟩
      · exact Or.inl before
  | draw free => exact Or.inl found
  | push drawn name whole => exact Or.inl found
  | _ =>
      rcases split found with ⟨-, other⟩ | before
      · exact absurd other (by simp)
      · exact Or.inl before

/-- Only `unlink` removes a file. -/
theorem unlinked
    {name : SstableName}
    (taken : CompactionStep config state action state')
    (gone : name ∈ state'.unlinked) :
    name ∈ state.unlinked ∨
      ∃ call table pending, action = .unlink call ∧
        state.calls call = .reclaiming .unlinking (table :: pending) ∧
        table.name = name := by
  cases taken with
  | @unlink call table pending phase =>
      rcases List.mem_cons.mp gone with here | before
      · exact Or.inr ⟨call, table, pending, rfl, phase, here.symm⟩
      · exact Or.inl before
  | _ => exact Or.inl gone

end CompactionStep

/-! ## The invariant -/

/-- An eviction that holds the lock on the map for writing. -/
def EvictCall.HoldsMap : EvictCall → Prop
  | .evicting _ => True
  | .closing _ _ => True
  | _ => False

namespace PinState

variable {config : CompactionConfig} {state state' : PinState}
variable {reader evictor : Nat} {name : SstableName}

/-- A count is the number of pins; a file that is about to be unlinked or
closed has none. -/
structure Pinned (config : CompactionConfig) (state : PinState) :
    Prop where
  named : state.map.Named config
  departed : state.map.Departed
  flight : state.map.SingleFlight
  counted : ∀ name,
    state.counts name = ((state.pins.map (·.2)).count name : Int)
  unread : ∀ call table pending,
    state.map.calls call = .reclaiming .unlinking (table :: pending) →
      state.counts table.name = 0
  linked : ∀ reader name, (reader, name) ∈ state.pins →
    name ∉ state.map.unlinked
  locked : state.writer ≠ none →
    ∀ reader, state.scanning reader = false
  holder : ∀ evictor, (state.evictions evictor).HoldsMap →
    state.writer = some evictor
  closing : ∀ evictor candidates name,
    state.evictions evictor = .closing candidates name →
      state.counts name = 0

theorem AtRest.pinned (rest : state.AtRest) : state.Pinned config where
  named := rest.map.named
  departed := rest.map.departed
  flight := rest.map.singleFlight
  counted := by
    intro name
    rw [rest.counts, rest.pins]
    rfl
  unread := fun _ table _ _ => rest.counts table.name
  linked := by
    intro reader name held
    rw [rest.pins] at held
    exact absurd held List.not_mem_nil
  locked := fun _ => rest.scanning
  holder := by
    intro evictor holds
    rw [rest.evictions] at holds
    exact holds.elim
  closing := fun _ _ name _ => rest.counts name

theorem Pinned.count_pos
    (pinned : state.Pinned config) (held : (reader, name) ∈ state.pins) :
    0 < state.counts name := by
  have member : name ∈ state.pins.map (·.2) :=
    List.mem_map_of_mem (f := (·.2)) held
  rw [pinned.counted]
  exact Int.natCast_pos.mpr (List.count_pos_iff.mpr member)

/-- A reader that holds the lock for reading keeps evictions out. -/
theorem Pinned.readable
    (pinned : state.Pinned config)
    (scans : state.scanning reader = true) : state.Readable := by
  by_contra held
  rw [pinned.locked held reader] at scans
  exact absurd scans (by simp)

theorem Pinned.map
    (pinned : state.Pinned config) {action : CompactionAction}
    {after : CompactionState} {opened : List SstableName}
    (admits : state.Admits action)
    (allowed : IfNeededRuns config state (.map action))
    (taken : CompactionStep config state.map action after) :
    Pinned config { state with map := after, opened := opened } where
  named := pinned.named.step allowed.2 taken
  departed := pinned.departed.step pinned.named
    (pinned.flight.keepsLive action) taken
  flight := pinned.flight.step allowed.1 taken
  counted := pinned.counted
  unread := by
    intro call table pending found
    rcases taken.unlinking found with before | ⟨rfl, waited⟩
    · exact pinned.unread call table pending before
    · exact admits table pending waited
  linked := by
    intro reader name held gone
    rcases taken.unlinked gone with before | ⟨call, table, pending, -, phase,
      rfl⟩
    · exact pinned.linked reader name held before
    · have none := pinned.unread call table pending phase
      have some := pinned.count_pos held
      omega
  locked := pinned.locked
  holder := pinned.holder
  closing := pinned.closing

theorem Pinned.addPin
    (pinned : state.Pinned config) {level : Nat} {table : SSTable}
    (free : state.Readable) (live : table ∈ state.map.levels level) :
    (state.addPin reader table.name).Pinned config where
  named := pinned.named
  departed := pinned.departed
  flight := pinned.flight
  counted := by
    intro other
    simp only [PinState.addPin, List.map_cons, List.count_cons]
    by_cases same : other = table.name
    · subst same
      simp [pinned.counted]
    · rw [Function.update_of_ne same, pinned.counted]
      simp [Ne.symm same]
  unread := by
    intro call old pending phase
    change state.map.calls call = _ at phase
    have apart : old.name ≠ table.name := by
      refine pinned.departed.gone level table live call old ?_
      rw [phase]
      exact List.mem_cons_self ..
    simp only [PinState.addPin]
    rw [Function.update_of_ne apart]
    exact pinned.unread call old pending phase
  linked := by
    intro other name held
    rcases List.mem_cons.mp held with new | before
    · rw [(Prod.mk.inj new).2]
      exact (pinned.departed.noDangling pinned.named).linked level table live
    · exact pinned.linked other name before
  locked := pinned.locked
  holder := pinned.holder
  closing := by
    intro evictor candidates name phase
    change state.evictions evictor = _ at phase
    have held := pinned.holder evictor (by rw [phase]; exact True.intro)
    rw [free] at held
    exact absurd held (by simp)

theorem Pinned.dropPin
    (pinned : state.Pinned config) (held : (reader, name) ∈ state.pins) :
    (state.dropPin reader name).Pinned config := by
  have pos := pinned.count_pos held
  have apart : ∀ other, state.counts other = 0 →
      (state.dropPin reader name).counts other = 0 := by
    intro other zero
    have different : other ≠ name := by
      intro same
      rw [same] at zero
      omega
    simp only [PinState.dropPin]
    rw [Function.update_of_ne different]
    exact zero
  constructor
  case named => exact pinned.named
  case departed => exact pinned.departed
  case flight => exact pinned.flight
  case counted =>
    intro other
    have split := (List.perm_cons_erase held).map (·.2)
    have sum := split.count_eq other
    rw [List.map_cons, List.count_cons] at sum
    have before := pinned.counted other
    simp only [PinState.dropPin]
    by_cases same : other = name
    · subst same
      rw [Function.update_self]
      simp only [beq_self_eq_true, if_true] at sum
      omega
    · rw [Function.update_of_ne same]
      simp only [beq_iff_eq, Ne.symm same, if_false] at sum
      omega
  case unread =>
    intro call table pending phase
    exact apart table.name (pinned.unread call table pending phase)
  case linked =>
    intro other file member
    exact pinned.linked other file (List.mem_of_mem_erase member)
  case locked => exact pinned.locked
  case holder => exact pinned.holder
  case closing =>
    intro evictor candidates file phase
    exact apart file (pinned.closing evictor candidates file phase)

/-- A step of an eviction that holds the lock before it, or takes it. -/
theorem Pinned.setEviction
    (pinned : state.Pinned config) {phase : EvictCall}
    (holder : phase.HoldsMap → state.writer = some evictor)
    (closing : ∀ candidates name, phase = .closing candidates name →
      state.counts name = 0) :
    (state.setEviction evictor phase).Pinned config := by
  have own : (state.setEviction evictor phase).evictions evictor = phase :=
    Function.update_self ..
  have others : ∀ other, other ≠ evictor →
      (state.setEviction evictor phase).evictions other =
        state.evictions other :=
    fun other different => Function.update_of_ne different ..
  constructor
  case named => exact pinned.named
  case departed => exact pinned.departed
  case flight => exact pinned.flight
  case counted => exact pinned.counted
  case unread => exact pinned.unread
  case linked => exact pinned.linked
  case locked => exact pinned.locked
  case holder =>
    intro other holds
    by_cases here : other = evictor
    · rw [here, own] at holds
      rw [here]
      exact holder holds
    · rw [others other here] at holds
      exact pinned.holder other holds
  case closing =>
    intro other candidates name found
    by_cases here : other = evictor
    · rw [here, own] at found
      exact closing candidates name found
    · rw [others other here] at found
      exact pinned.closing other candidates name found

theorem Pinned.lockMap
    (pinned : state.Pinned config) (free : state.Writable)
    (candidates : List (Nat × Nat)) :
    Pinned config { state.setEviction evictor (.evicting candidates) with
      writer := some evictor } := by
  have nobody : ∀ other, ¬ (state.evictions other).HoldsMap := by
    intro other holds
    have held := pinned.holder other holds
    rw [free.1] at held
    exact absurd held (by simp)
  constructor
  case named => exact pinned.named
  case departed => exact pinned.departed
  case flight => exact pinned.flight
  case counted => exact pinned.counted
  case unread => exact pinned.unread
  case linked => exact pinned.linked
  case locked => exact fun _ => free.2
  case holder =>
    intro other holds
    by_cases here : other = evictor
    · rw [here]
    · simp only [PinState.setEviction] at holds
      rw [Function.update_of_ne here] at holds
      exact absurd holds (nobody other)
  case closing =>
    intro other pending name found
    simp only [PinState.setEviction] at found
    by_cases here : other = evictor
    · rw [here, Function.update_self] at found
      exact absurd found (by simp)
    · rw [Function.update_of_ne here] at found
      exact pinned.closing other pending name found

theorem Pinned.unlockMap
    (pinned : state.Pinned config)
    (phase : state.evictions evictor = .evicting []) :
    Pinned config
      { state.setEviction evictor .idle with writer := none } := by
  have held := pinned.holder evictor (by rw [phase]; exact True.intro)
  have idle : (state.setEviction evictor .idle).Pinned config :=
    pinned.setEviction (fun holds => holds.elim)
      (fun _ _ found => absurd found (by simp))
  constructor
  case named => exact idle.named
  case departed => exact idle.departed
  case flight => exact idle.flight
  case counted => exact idle.counted
  case unread => exact idle.unread
  case linked => exact idle.linked
  case locked => exact fun other => absurd rfl other
  case holder =>
    intro other holds
    have same : some evictor = some other :=
      held.symm.trans (idle.holder other holds)
    rw [← Option.some.inj same] at holds
    simp only [PinState.setEviction, Function.update_self] at holds
    exact holds.elim
  case closing => exact idle.closing

theorem Pinned.step
    {action : PinAction} (pinned : state.Pinned config)
    (allowed : IfNeededRuns config state action)
    (taken : PinStep config state action state') :
    state'.Pinned config := by
  cases taken with
  | map admits moved => exact pinned.map admits allowed moved
  | pin free found =>
      exact pinned.addPin free (List.mem_of_getElem? found)
  | @beginScan caller free =>
      exact { pinned with
        locked := fun held => absurd free held }
  | pinHead scans found unmarked =>
      exact pinned.addPin (pinned.readable scans)
        (List.mem_of_getElem? found)
  | @endScan caller scans =>
      have free := pinned.readable scans
      exact { pinned with
        locked := fun held => absurd free held }
  | unpin held => exact pinned.dropPin held
  | openFile present => exact { pinned with }
  | collect phase free candidates =>
      exact pinned.setEviction (fun holds => holds.elim)
        (fun _ _ found => absurd found (by simp))
  | lockMap phase free => exact pinned.lockMap free _
  | @checkCandidate caller position candidates name phase evictable =>
      have held := pinned.holder caller (by rw [phase]; exact True.intro)
      obtain ⟨table, live, same, opened, zero⟩ := evictable
      refine pinned.setEviction (fun _ => held) fun rest file found => ?_
      injection found with _ names
      rw [← names]
      exact zero
  | @skipCandidate caller position candidates phase =>
      have held := pinned.holder caller (by rw [phase]; exact True.intro)
      exact pinned.setEviction (fun _ => held)
        (fun _ _ found => absurd found (by simp))
  | @close caller candidates name phase =>
      have held := pinned.holder caller (by rw [phase]; exact True.intro)
      have moved : (state.setEviction caller
          (.evicting candidates)).Pinned config :=
        pinned.setEviction (fun _ => held)
          (fun _ _ found => absurd found (by simp))
      exact { moved with }
  | unlockMap phase => exact pinned.unlockMap phase

/-- What a step unlinks or closes has no pin. -/
theorem Pinned.removes
    {action : PinAction} (pinned : state.Pinned config)
    (removes : state.Removes action name) : (reader, name) ∉ state.pins := by
  intro held
  have pos := pinned.count_pos held
  have zero : state.counts name = 0 := by
    cases action with
    | map inner =>
        cases inner with
        | unlink call =>
            obtain ⟨table, pending, phase, rfl⟩ := removes
            exact pinned.unread call table pending phase
        | _ => exact removes.elim
    | close evictor =>
        obtain ⟨candidates, phase⟩ := removes
        exact pinned.closing evictor candidates name phase
    | _ => exact removes.elim
  omega

end PinState

/-! ## Over runs -/

/-- What pins promise: no step unlinks or closes a pinned file, no pinned
file is unlinked, and a count is never below zero and zero without pins. -/
structure PinState.Safe (config : CompactionConfig) (state : PinState) :
    Prop where
  kept : ∀ action state', PinStep config state action state' →
    ∀ name, state.Removes action name →
      ∀ reader, (reader, name) ∉ state.pins
  linked : ∀ reader name, (reader, name) ∈ state.pins →
    name ∉ state.map.unlinked
  nonneg : ∀ name, 0 ≤ state.counts name
  returned : state.pins = [] → ∀ name, state.counts name = 0

/-- In every run of readers, evictions, flushes and calls of
`compact_if_needed`. -/
theorem pins_are_safe
    (config : CompactionConfig) {start state : PinState}
    (rest : start.AtRest)
    (run : Reaches (PinStep config) (IfNeededRuns config) start state) :
    state.Safe config := by
  have pinned : state.Pinned config :=
    run.invariant (PinState.Pinned config) rest.pinned
      fun before action after holds allowed taken =>
        holds.step allowed taken
  constructor
  case kept =>
    exact fun action after taken name removes reader =>
      pinned.removes removes
  case linked => exact pinned.linked
  case nonneg =>
    intro name
    rw [pinned.counted]
    exact Int.natCast_nonneg _
  case returned =>
    intro none name
    rw [pinned.counted, none]
    rfl

/-! ## A reader that a compaction waits for -/

def agedPins : PinState :=
  { map := agedState
    counts := fun _ => 0
    pins := []
    opened := []
    scanning := fun _ => false
    writer := none
    evictions := fun _ => .idle }

theorem agedPins_atRest : agedPins.AtRest :=
  ⟨agedState_atRest, fun _ => rfl, rfl, fun _ => rfl, rfl, fun _ => rfl⟩

/-- Reader 7 pins a table, and call 1 merges it and waits. -/
theorem pinned_input_waits :
    ∃ state : PinState,
      state.map.calls 1 = .reclaiming .waiting (agedTables.take 2) ∧
        (7, (agedTable "a" 0 0 true).name) ∈ state.pins ∧
          state.Safe hourlyConfig := by
  have pinned : Reaches (PinStep hourlyConfig) (IfNeededRuns hourlyConfig)
      agedPins (agedPins.addPin 7 (agedTable "a" 0 0 true).name) :=
    (Reaches.start agedPins).next (.pin 7 1 0) trivial (.pin rfl rfl)
  have unlocked : ∀ reader : Nat, agedPins.scanning reader = false :=
    fun _ => rfl
  have reading := (((((pinned.next (.map (.takeFlag 1)) ⟨trivial, trivial⟩
    (.map trivial (.takeFlag rfl rfl))).next
    (.map (.choose 1 [0, 1])) ⟨trivial, trivial⟩
    (.map rfl (.choose rfl rfl))).next
    (.map (.snapshotLevel 1 [0, 1] [0, 1])) ⟨trivial, trivial⟩
    (.map ⟨rfl, unlocked⟩ (.snapshotLevel rfl rfl))).next
    (.map (.readInput 1)) ⟨trivial, trivial⟩
    (.map trivial (.readInput rfl List.not_mem_nil))).next
    (.map (.readInput 1)) ⟨trivial, trivial⟩
    (.map trivial (.readInput rfl List.not_mem_nil)))
  have merged := reading.next (.map (.merge 1 (outputFiles 20)))
    ⟨trivial, by rintro job ⟨⟩; decide⟩ (.map trivial (.merge rfl))
  have run := (((merged.next
    (.map (.install 1)) ⟨trivial, trivial⟩
    (.map ⟨rfl, unlocked⟩ (.install rfl))).next
    (.map (.mark 1)) ⟨trivial, trivial⟩ (.map trivial (.mark rfl))).next
    (.map (.mark 1)) ⟨trivial, trivial⟩ (.map trivial (.mark rfl))).next
    (.map (.startReclaim 1)) ⟨trivial, trivial⟩
    (.map trivial (.startReclaim rfl))
  exact ⟨_, rfl, List.mem_cons_self ..,
    pins_are_safe hourlyConfig agedPins_atRest run⟩

/-! ## A file that is written again -/

/-- Calls of `compact_if_needed`, whatever the clock reads. -/
def IfNeededCalls (_ : PinState) : PinAction → Prop
  | .map action => action.OnlyIfNeeded
  | _ => True

/-- The merged table of the first hour belongs to the second. -/
def laterFiles : OutputFiles :=
  { outputFiles 20 with info := fun _ => ⟨100, 3600, by decide⟩ }

/-- Call 1 is about to unlink a table when call 2 writes one of the same name,
which reader 7 pins. -/
theorem reused_name_is_unlinked :
    agedPins.AtRest ∧
      ∃ state : PinState,
        Reaches (PinStep hourlyConfig) IfNeededCalls agedPins state ∧
        ¬ state.Safe hourlyConfig := by
  have unlocked : ∀ reader : Nat, agedPins.scanning reader = false :=
    fun _ => rfl
  have start : Reaches (PinStep hourlyConfig) IfNeededCalls agedPins
    agedPins := Reaches.start agedPins
  have reading := (((start.next (.map (.takeFlag 1)) trivial
    (.map trivial (.takeFlag rfl rfl))).next
    (.map (.choose 1 [0, 1])) trivial
    (.map rfl (.choose rfl rfl))).next
    (.map (.snapshotLevel 1 [0, 1] [0, 1])) trivial
    (.map ⟨rfl, unlocked⟩ (.snapshotLevel rfl rfl))).next
    (.map (.readInput 1)) trivial
    (.map trivial (.readInput rfl List.not_mem_nil))
  have installed := ((reading.next (.map (.readInput 1)) trivial
    (.map trivial (.readInput rfl List.not_mem_nil))).next
    (.map (.merge 1 laterFiles)) trivial
    (.map trivial (.merge rfl))).next
    (.map (.install 1)) trivial
    (.map ⟨rfl, unlocked⟩ (.install rfl))
  have checked := (((((installed.next (.map (.mark 1)) trivial
    (.map trivial (.mark rfl))).next
    (.map (.mark 1)) trivial (.map trivial (.mark rfl))).next
    (.map (.startReclaim 1)) trivial
    (.map trivial (.startReclaim rfl))).next
    (.map (.waitForReaders 1)) trivial
    (.map (fun _ _ _ => rfl) (.waitForReaders rfl))).next
    (.map (.checkReaders 1)) trivial
    (.map (fun _ _ _ => rfl) (.checkReaders rfl)))
  have again := ((((checked.next (.map (.takeFlag 2)) trivial
    (.map trivial (.takeFlag rfl rfl))).next
    (.map (.choose 2 [0, 1])) trivial
    (.map rfl (.choose rfl rfl))).next
    (.map (.snapshotLevel 2 [0, 1] [0, 1])) trivial
    (.map ⟨rfl, unlocked⟩ (.snapshotLevel rfl rfl))).next
    (.map (.readInput 2)) trivial
    (.map trivial (.readInput rfl (by decide)))).next
    (.map (.readInput 2)) trivial
    (.map trivial (.readInput rfl (by decide)))
  have pinned := ((again.next (.map (.merge 2 (outputFiles 10)))
    trivial (.map trivial (.merge rfl))).next
    (.map (.install 2)) trivial
    (.map ⟨rfl, unlocked⟩ (.install rfl))).next
    (.pin 7 1 0) trivial (.pin rfl rfl)
  refine ⟨agedPins_atRest, _, pinned, fun safe => ?_⟩
  exact safe.kept (.map (.unlink 1)) _ (.map trivial (.unlink rfl)) _
    ⟨_, _, rfl, rfl⟩ 7 List.mem_cons_self

end F4kvsLsm
