import F4kvsLsm.Lib.Runs
import F4kvsLsm.Wal.Handle
import F4kvsLsm.Wal.SharedSegments

/-!
# Rotations in any order

As long as the counter is read only when no other rotation is still to raise
it, every number that is in use lies below the counter that is to come, so the
next one is free.  A rotation that fails behind the creation of its file leaves
the file above the counter, and the next one opens it again.
-/

namespace F4kvsLsm

namespace SegmentRotation

open FileWal

namespace SharedSegments

/-! ## The invariant -/

/-- The counter once everybody has raised it. -/
def bound (s : SharedSegments) : Nat :=
  s.counter + s.owing.length

end SharedSegments

/-- The number that a rotation has read from the counter. -/
def Rotating.loaded : Rotating → Option Nat
  | .keyed _ key => some key
  | .numbered id => some id
  | .opened id => some id
  | _ => none

namespace SharedSegments

/-- All numbers in use lie below the counter once it is raised, and a number
that was read is still the counter. -/
structure Sound (s : SharedSegments) : Prop where
  below : ∀ file ∈ s.dir,
    file < s.bound ∨ ∃ party, s.holder = some (party, .opened file)
  apart : s.live.Nodup
  liveBelow : ∀ file ∈ s.live, file < s.bound
  keysLe : ∀ key ∈ s.segments.map (·.1), key ≤ s.bound
  keysLt : s.inTransit ++ s.current.toList ≠ [] →
    ∀ key ∈ s.segments.map (·.1), key < s.bound
  shut : ∀ party stage, s.holder = some (party, stage) →
    stage ≠ .locked → s.current = none
  loaded : ∀ party stage number, s.holder = some (party, stage) →
    stage.loaded = some number → number = s.counter ∧ s.owing = []

section

variable {s : SharedSegments}

/-- Unless a file was just opened, every id is below the bound. -/
theorem Sound.lt_bound
    (sound : s.Sound)
    (unopened : ∀ party file, s.holder ≠ some (party, .opened file))
    {file : Nat} (member : file ∈ s.dir) : file < s.bound := by
  rcases sound.below file member with less | ⟨party, opened⟩
  · exact less
  · exact absurd opened (unopened party file)

theorem Sound.consistent (sound : s.Sound) : s.Consistent := by
  constructor
  · exact sound.apart
  · intro party id holder member
    rcases sound.loaded party _ id holder rfl with ⟨same, none⟩
    have less := sound.lt_bound (by simp [holder]) member
    simp only [bound, none, same, List.length_nil] at less
    omega
  · intro id current member
    have apart := sound.apart
    simp only [live, List.append_assoc, current] at apart
    have apart := (List.nodup_append.mp apart).2.1
    exact (List.nodup_append.mp apart).2.2 id (by simp) id member rfl
  · intro party file key holder member
    rcases sound.loaded party _ key holder rfl with ⟨same, none⟩
    have less := sound.keysLt (by simp [inTransit, holder]) key member
    simp only [bound, none, same, List.length_nil] at less
    omega

/-- Files and segments go, nothing comes. -/
theorem Sound.shrink
    (sound : s.Sound) {s' : SharedSegments}
    (dir : ∀ file ∈ s'.dir, file ∈ s.dir)
    (segments : List.Sublist s'.segments s.segments)
    (current : s'.current = s.current ∨ s'.current = none)
    (counter : s'.counter = s.counter) (holder : s'.holder = s.holder)
    (owing : s'.owing = s.owing) : s'.Sound := by
  have bound : s'.bound = s.bound := by simp [bound, counter, owing]
  have transit : s'.inTransit = s.inTransit := by simp [inTransit, holder]
  have opens : List.Sublist s'.current.toList s.current.toList := by
    rcases current with same | none
    · rw [same]
    · simp [none]
  have fewer : List.Sublist s'.live s.live := by
    simp only [live, transit]
    exact ((List.Sublist.refl _).append opens).append (segments.map _)
  have keys := segments.map Prod.fst
  constructor
  · intro file member
    rw [bound, holder]
    exact sound.below file (dir file member)
  · exact sound.apart.sublist fewer
  · intro file member
    rw [bound]
    exact sound.liveBelow file (fewer.subset member)
  · intro key member
    rw [bound]
    exact sound.keysLe key (keys.subset member)
  · intro some key member
    rw [bound]
    apply sound.keysLt _ key (keys.subset member)
    intro none
    rw [List.append_eq_nil_iff] at none
    rcases none with ⟨noTransit, noCurrent⟩
    rw [noCurrent, List.sublist_nil] at opens
    exact some (by simp [transit, noTransit, opens])
  · intro party stage held unlocked
    rw [holder] at held
    rcases current with same | none
    · rw [same]
      exact sound.shut party stage held unlocked
    · exact none
  · intro party stage number held read
    rw [holder] at held
    rw [counter, owing]
    exact sound.loaded party stage number held read

/-- The rotation under the lock goes on, and only its position changes. -/
theorem Sound.moved
    (sound : s.Sound) (holder : Option (Party × Rotating))
    (transit : List.Sublist { s with holder := holder }.inTransit s.inTransit)
    (unopened : ∀ party file, s.holder ≠ some (party, .opened file))
    (shut : ∀ party stage, holder = some (party, stage) →
      stage ≠ .locked → s.current = none)
    (loaded : ∀ party stage number, holder = some (party, stage) →
      stage.loaded = some number → number = s.counter ∧ s.owing = []) :
    { s with holder := holder }.Sound := by
  have fewer : List.Sublist { s with holder := holder }.live s.live := by
    exact (transit.append (List.Sublist.refl _)).append (List.Sublist.refl _)
  constructor
  · intro file member
    exact Or.inl (sound.lt_bound unopened member)
  · exact sound.apart.sublist fewer
  · intro file member
    exact sound.liveBelow file (fewer.subset member)
  · exact sound.keysLe
  · intro some
    apply sound.keysLt
    intro none
    rw [List.append_eq_nil_iff] at none
    rcases none with ⟨noTransit, noCurrent⟩
    rw [noTransit, List.sublist_nil] at transit
    exact some (by simp only [transit, noCurrent, List.append_nil])
  · exact shut
  · exact loaded

theorem Sound.withTruncations
    (sound : s.Sound) (truncations : List (Nat × Truncating)) :
    { s with truncations := truncations }.Sound :=
  sound.shrink (fun _ member => member) (List.Sublist.refl _)
    (Or.inl rfl) rfl rfl rfl

theorem Sound.locked
    (sound : s.Sound) (free : s.holder = none) (party : Party) :
    { s with holder := some (party, .locked) }.Sound := by
  apply sound.moved
  · exact List.nil_sublist _
  · intro other file
    simp [free]
  · intro other stage holder unlocked
    cases holder
    exact absurd rfl unlocked
  · intro other stage number holder read
    cases holder
    cases read

theorem Sound.acquire
    (sound : s.Sound) {party : Party} {s' : SharedSegments}
    (taken : s.acquire party = some s') : s'.Sound := by
  unfold SharedSegments.acquire at taken
  split at taken
  · rename_i free
    have held := sound.locked free.1 party
    cases party with
    | writer n =>
        rw [← Option.some.inj taken]
        exact held
    | flusher =>
        rw [← Option.some.inj taken]
        exact held
    | truncation n =>
        simp only at taken
        split at taken
        · rw [← Option.some.inj taken]
          exact held.withTruncations _
        · cases taken
  · cases taken

theorem Sound.released
    (sound : s.Sound)
    (unopened : ∀ party file, s.holder ≠ some (party, .opened file)) :
    { s with holder := none }.Sound := by
  apply sound.moved
  · exact List.nil_sublist _
  · exact unopened
  · intro party stage holder
    cases holder
  · intro party stage number holder
    cases holder

theorem Sound.takeCurrent
    {party : Party} (sound : s.Sound)
    (holder : s.holder = some (party, .locked))
    {file : Nat} (current : s.current = some file) :
    { s with current := none, holder := some (party, .taken file) }.Sound := by
  have same :
      { s with
        current := none
        holder := some (party, .taken file) }.live = s.live := by
    simp [live, inTransit, holder, current]
  have less := sound.keysLt (by simp [current])
  constructor
  · intro other member
    exact Or.inl (sound.lt_bound (by simp [holder]) member)
  · rw [same]
    exact sound.apart
  · intro other member
    rw [same] at member
    exact sound.liveBelow other member
  · exact sound.keysLe
  · intro _
    exact less
  · intro _ _ _ _
    rfl
  · intro _ _ _ held read
    cases held
    cases read

theorem Sound.nothingToClose
    {party : Party} (sound : s.Sound)
    (holder : s.holder = some (party, .locked)) (current : s.current = none) :
    { s with holder := some (party, .ready) }.Sound := by
  apply sound.moved
  · exact List.nil_sublist _
  · intro other file
    simp [holder]
  · intro _ _ _ _
    exact current
  · intro _ _ _ held read
    cases held
    cases read

theorem Sound.loadKey
    {party : Party} {file : Nat} (sound : s.Sound)
    (holder : s.holder = some (party, .taken file)) (turn : s.owing = []) :
    { s with holder := some (party, .keyed file s.counter) }.Sound := by
  apply sound.moved
  · simp [inTransit, holder]
  · intro other id
    simp [holder]
  · intro _ _ _ _
    exact sound.shut party _ holder (by simp)
  · intro _ _ number held read
    cases held
    exact ⟨(Option.some.inj read).symm, turn⟩

theorem Sound.insert
    {party : Party} {file key : Nat} (sound : s.Sound)
    (holder : s.holder = some (party, .keyed file key)) :
    { s with
      segments := insertSegment s.segments key file
      holder := some (party, .ready) }.Sound := by
  have shut : s.current = none := sound.shut party _ holder (by simp)
  have here : s.live = file :: s.segments.map (·.2) := by
    simp [live, inTransit, holder, shut]
  have left : List.Sublist
      (s.segments.filter fun entry => entry.1 ≠ key) s.segments :=
    List.filter_sublist
  have apart := sound.apart
  rw [here, List.nodup_cons] at apart
  have now :
      { s with
        segments := insertSegment s.segments key file
        holder := some (party, .ready) }.live =
          (s.segments.filter fun entry => entry.1 ≠ key).map (·.2) ++
            [file] := by
    simp [live, inTransit, shut, insertSegment]
  have fewer := left.map Prod.snd
  constructor
  · intro other member
    exact Or.inl (sound.lt_bound (by simp [holder]) member)
  · rw [now, List.nodup_append]
    refine ⟨apart.2.sublist fewer, by simp, ?_⟩
    intro other member file' member' same
    rw [List.mem_singleton] at member'
    rw [same, member'] at member
    exact apart.1 (fewer.subset member)
  · intro other member
    apply sound.liveBelow
    rw [now, List.mem_append, List.mem_singleton] at member
    rw [here, List.mem_cons]
    rcases member with kept | added
    · exact Or.inr (fewer.subset kept)
    · exact Or.inl added
  · intro other member
    simp only [insertSegment, List.map_append, List.mem_append, List.map_cons,
      List.map_nil, List.mem_singleton] at member
    rcases member with kept | added
    · exact sound.keysLe other ((left.map Prod.fst).subset kept)
    · rcases sound.loaded party _ key holder rfl with ⟨same, _⟩
      rw [added, same]
      exact Nat.le_add_right _ _
  · intro some
    simp [inTransit, shut] at some
  · intro _ _ _ _
    exact shut
  · intro _ _ _ held read
    cases held
    cases read

theorem Sound.loadId
    {party : Party} (sound : s.Sound)
    (holder : s.holder = some (party, .ready)) (turn : s.owing = []) :
    { s with holder := some (party, .numbered s.counter) }.Sound := by
  apply sound.moved
  · exact List.nil_sublist _
  · intro other id
    simp [holder]
  · intro _ _ _ _
    exact sound.shut party _ holder (by simp)
  · intro _ _ number held read
    cases held
    exact ⟨(Option.some.inj read).symm, turn⟩

theorem Sound.openFile
    {party : Party} {id : Nat} (sound : s.Sound)
    (holder : s.holder = some (party, .numbered id)) :
    { s with
      dir := createFile s.dir id
      holder := some (party, .opened id) }.Sound := by
  have shut : s.current = none := sound.shut party _ holder (by simp)
  have same :
      { s with
        dir := createFile s.dir id
        holder := some (party, .opened id) }.live = s.live := by
    simp [live, inTransit, holder]
  constructor
  · intro file member
    rcases mem_createFile.mp member with older | rfl
    · exact Or.inl (sound.lt_bound (by simp [holder]) older)
    · exact Or.inr ⟨party, rfl⟩
  · rw [same]
    exact sound.apart
  · intro file member
    rw [same] at member
    exact sound.liveBelow file member
  · exact sound.keysLe
  · intro some
    simp [inTransit, shut] at some
  · intro _ _ _ _
    exact shut
  · intro _ _ number held read
    cases held
    exact sound.loaded party _ number holder read

theorem Sound.publish
    {party : Party} {id : Nat} (sound : s.Sound)
    (holder : s.holder = some (party, .opened id)) :
    { s with
      current := some id
      holder := none
      owing := s.owing ++ [party] }.Sound := by
  have shut : s.current = none := sound.shut party _ holder (by simp)
  rcases sound.loaded party _ id holder rfl with ⟨same, turn⟩
  have before : s.bound = id := by simp [bound, turn, same]
  have after :
      { s with
        current := some id
        holder := none
        owing := s.owing ++ [party] }.bound = id + 1 := by
    simp [bound, turn, same]
  have here : s.live = s.segments.map (·.2) := by
    simp [live, inTransit, holder, shut]
  have now :
      { s with
        current := some id
        holder := none
        owing := s.owing ++ [party] }.live = id :: s.segments.map (·.2) := by
    simp [live, inTransit]
  have older : ∀ file ∈ s.segments.map (·.2), file < id := by
    intro file member
    rw [← before]
    apply sound.liveBelow
    rw [here]
    exact member
  constructor
  · intro file member
    left
    rw [after]
    rcases sound.below file member with less | ⟨_, opened⟩
    · omega
    · rw [holder] at opened
      cases opened
      omega
  · rw [now, List.nodup_cons]
    have apart := sound.apart
    rw [here] at apart
    refine ⟨fun member => ?_, apart⟩
    exact Nat.lt_irrefl id (older id member)
  · intro file member
    rw [after]
    rw [now, List.mem_cons] at member
    rcases member with rfl | member
    · omega
    · have less := older file member
      omega
  · intro key member
    have less := sound.keysLe key member
    rw [after]
    omega
  · intro _ key member
    have less := sound.keysLe key member
    rw [after]
    omega
  · intro _ _ held
    cases held
  · intro _ _ _ held
    cases held

theorem Sound.raise
    (sound : s.Sound) {party : Party} {s' : SharedSegments}
    (taken : s.raise party = some s') : s'.Sound := by
  unfold SharedSegments.raise at taken
  split at taken
  · rename_i owes
    rw [← Option.some.inj taken]
    have some : 0 < s.owing.length := List.length_pos_of_mem owes
    have bound :
        { s with
          counter := s.counter + 1
          owing := s.owing.erase party }.bound = s.bound := by
      simp only [SharedSegments.bound, List.length_erase_of_mem owes]
      omega
    constructor
    · intro file member
      rw [bound]
      exact sound.below file member
    · exact sound.apart
    · intro file member
      rw [bound]
      exact sound.liveBelow file member
    · intro key member
      rw [bound]
      exact sound.keysLe key member
    · intro here key member
      rw [bound]
      exact sound.keysLt here key member
    · exact sound.shut
    · intro holder stage number held read
      rcases sound.loaded holder stage number held read with ⟨_, none⟩
      rw [none] at owes
      cases owes
  · cases taken

theorem Sound.truncate
    (sound : s.Sound) {n : Nat} {stage : Option Truncating}
    {truncateStep : TruncateStep} {s' : SharedSegments}
    (taken : s.truncate n stage truncateStep = some s') : s'.Sound := by
  unfold SharedSegments.truncate at taken
  split at taken
  · split at taken
    · rw [← Option.some.inj taken]
      exact sound.shrink (fun _ member => member) (List.Sublist.refl _)
        (Or.inr rfl) rfl rfl rfl
    · cases taken
  · rw [← Option.some.inj taken]
    exact sound.shrink (fun _ member => member) (List.nil_sublist _)
      (Or.inl rfl) rfl rfl rfl
  · rw [← Option.some.inj taken]
    exact sound.withTruncations _
  · rw [← Option.some.inj taken]
    exact sound.shrink (fun _ member => (List.mem_filter.mp member).1)
      (List.Sublist.refl _) (Or.inl rfl) rfl rfl rfl
  · rw [← Option.some.inj taken]
    exact sound.withTruncations _
  · split at taken
    · rw [← Option.some.inj taken]
      exact sound.withTruncations _
    · rw [← Option.some.inj taken]
      exact sound.withTruncations _
  · cases taken

theorem Sound.cleanup (sound : s.Sound) (key : Nat) (removed : Bool) :
    (s.cleanup key removed).Sound := by
  apply sound.shrink
  · intro file member
    simp only [SharedSegments.cleanup] at member
    split at member
    · exact (List.mem_filter.mp member).1
    · exact member
  · exact List.filter_sublist
  · exact Or.inl rfl
  · rfl
  · rfl
  · rfl

/-- One step of the rotation that holds the lock. -/
theorem Sound.rotate
    (sound : s.Sound) {party : Party} {stage : Rotating}
    (holder : s.holder = some (party, stage))
    {rotateStep : RotateStep} (turn : s.InTurn (.rotate rotateStep))
    {s' : SharedSegments}
    (taken : s.rotate party stage rotateStep = some s') : s'.Sound := by
  unfold SharedSegments.rotate at taken
  split at taken
  · split at taken
    · rename_i current
      rw [← Option.some.inj taken]
      exact sound.takeCurrent holder current
    · rename_i current
      rw [← Option.some.inj taken]
      exact sound.nothingToClose holder current
  · rw [← Option.some.inj taken]
    exact sound.released (by simp [holder])
  · rw [← Option.some.inj taken]
    exact sound.loadKey holder turn
  · rw [← Option.some.inj taken]
    exact sound.insert holder
  · rw [← Option.some.inj taken]
    exact sound.loadId holder turn
  · rw [← Option.some.inj taken]
    exact sound.released (by simp [holder])
  · rw [← Option.some.inj taken]
    exact sound.openFile holder
  · exact absurd turn id
  · rw [← Option.some.inj taken]
    exact sound.publish holder
  · cases taken

theorem Sound.step
    (sound : s.Sound) {action : Action} (turn : s.InTurn action)
    {s' : SharedSegments} (taken : s.step action = some s') : s'.Sound := by
  cases action with
  | acquire party => exact sound.acquire taken
  | rotate rotateStep =>
      simp only [SharedSegments.step] at taken
      split at taken
      · rename_i party stage holder
        exact sound.rotate holder turn taken
      · cases taken
  | raise party => exact sound.raise taken
  | truncate n truncateStep => exact sound.truncate taken
  | cleanup key removed =>
      rw [← Option.some.inj taken]
      exact sound.cleanup key removed

theorem Sound.reached
    {start : SharedSegments} (sound : start.Sound)
    (run : Transitions.Reaches
      (fun before action after => before.step action = some after)
      InTurn start s) : s.Sound :=
  run.invariant Sound sound
    (fun _ _ _ before turn taken => before.step turn taken)

end

instance (s : SharedSegments) (action : Action) :
    Decidable (s.InTurn action) := by
  unfold InTurn
  split <;> infer_instance

end SharedSegments

/-! ## From an initialized log manager on -/

open SharedSegments

section

variable {engine : FileEngine} {config : WalConfig}

/-- A new segment is opened where none is open. -/
theorem rotated_sound
    {dir : List WalFile} {counter : Nat}
    (above : ∀ file ∈ dir, file.id < counter) (now : UInt64) :
    (ofWal (rotateSegment engine config
      ⟨dir, none, [], counter⟩ now)).Sound := by
  rw [ofWal_rotateSegment]
  constructor
  · intro id member
    left
    rcases mem_createFile.mp member with older | rfl
    · obtain ⟨file, inside, rfl⟩ := List.mem_map.mp older
      have less := above file inside
      simp only [bound, List.length_nil]
      omega
    · simp [bound]
  · simp [live, inTransit]
  · simp [live, inTransit, bound]
  · simp
  · simp
  · intro _ _ held
    cases held
  · intro _ _ _ held
    cases held

theorem reused_sound
    {dir : List WalFile} {counter : Nat} {m : FileWal}
    (above : ∀ file ∈ dir, file.id < counter) {now : UInt64}
    (reused : tryReuseLastEmptySegment engine config
      ⟨dir, none, [], counter⟩ now = some m) : (ofWal m).Sound := by
  simp only [tryReuseLastEmptySegment] at reused
  split at reused
  · cases reused
  · rename_i later
    split at reused
    · cases reused
      constructor
      · intro id member
        left
        obtain ⟨file, inside, rfl⟩ := List.mem_map.mp member
        exact above file inside
      · simp [ofWal, live, inTransit]
      · intro id member
        simp only [ofWal, live, inTransit, Option.map_some, Option.toList_some,
          List.map_nil, List.append_nil, List.nil_append,
          List.mem_singleton] at member
        simp only [ofWal, bound, List.length_nil]
        omega
      · simp [ofWal]
      · simp [ofWal]
      · intro _ _ held
        cases held
      · intro _ _ _ held
        cases held
    · cases reused

/-- A log manager that has just been initialized. -/
theorem initialized_sound (dir : List WalFile) (now : UInt64) :
    (ofWal (initializeWal engine config (FileWal.new dir) now)).Sound := by
  have above := scanExistingSegments_above dir
  cases engine with
  | frame => exact rotated_sound above now
  | segment =>
      simp only [initializeWal, FileWal.new]
      cases reuse : tryReuseLastEmptySegment .segment config
          ⟨dir, none, [], scanExistingSegments dir⟩ now with
      | none => exact rotated_sound above now
      | some m => exact reused_sound above reuse

/-- When the counter is read only while no other rotation is still to raise
it, and no rotation fails behind the creation of its file, the segments stay
apart, whatever the order of the steps. -/
theorem rotations_in_turn_stay_apart
    (dir : List WalFile) (now : UInt64) {s : SharedSegments}
    (run : Transitions.Reaches
      (fun before action after => before.step action = some after)
      InTurn (ofWal (initializeWal engine config (FileWal.new dir) now)) s) :
    s.Consistent :=
  ((initialized_sound dir now).reached run).consistent

end

/-- A writer rotates, and then the flusher. -/
theorem rotations_one_after_the_other :
    ({ dir := [1, 2, 3]
       current := some 3
       segments := [(2, 1), (3, 2)]
       counter := 4
       holder := none
       owing := []
       truncations := [] } : SharedSegments).Consistent :=
  @rotations_in_turn_stay_apart .segment WalHandle.smallConfig [] 0 _
    (@Transitions.Reaches.of_foldlM _ _ step InTurn _
      (rotation (.writer 0) (some 1) ++ rotation .flusher (some 2)) _ _ rfl)

/-- The writer has released the lock and not yet raised the counter when the
flusher takes over, up to the number of its new segment. -/
def overtaking : List Action :=
  [.acquire (.writer 0), .rotate .takeCurrent, .rotate .loadKey,
    .rotate .insert, .rotate .loadId, .rotate .openFile, .rotate .publish,
    .acquire .flusher, .rotate .takeCurrent, .rotate .loadKey,
    .rotate .insert, .rotate .loadId]

/-- The rest of the flusher's rotation, and the writer's increment. -/
def overtaken : List Action :=
  [.rotate .openFile, .rotate .publish, .raise (.writer 0), .raise .flusher]

/-- The header of the new file cannot be written, and another writer rotates
up to the number of its new segment. -/
def abandoned : List Action :=
  [.acquire (.writer 0), .rotate .takeCurrent, .rotate .loadKey,
    .rotate .insert, .rotate .loadId, .rotate .openFile, .rotate .headerFails,
    .acquire (.writer 1), .rotate .takeCurrent, .rotate .loadId]

/-- The log manager of an empty directory. -/
def firstOpened : SharedSegments :=
  ofWal (initializeWal .segment WalHandle.smallConfig (FileWal.new []) 0)

def Reached (s : SharedSegments) : Prop :=
  Transitions.Reaches
    (fun before action after => before.step action = some after)
    (fun _ _ => True) firstOpened s

theorem Reached.of_foldlM
    {actions : List Action} {s : SharedSegments}
    (result : actions.foldlM
      (fun state action => if True then step state action else none)
      firstOpened = some s) : Reached s :=
  Transitions.Reaches.of_foldlM result

/-- The number that the flusher loads is that of the writer's new file, the
map entry of the first segment is overwritten, the open segment is in the map,
and a cleanup removes its file.  After a failed rotation the next one finds
the file of the first. -/
theorem rotation_before_the_counter_is_raised :
    (∃ s, Reached s ∧ s.holder = some (.flusher, .numbered 2) ∧
      2 ∈ s.dir) ∧
    (∃ s, Reached s ∧ s.current = some 2 ∧ s.segments = [(2, 2)]) ∧
    (∃ s, Reached s ∧ s.current = some 2 ∧ s.dir = [1]) ∧
    ∃ s, Reached s ∧ s.holder = some (.writer 1, .numbered 2) ∧
      2 ∈ s.dir := by
  refine ⟨⟨_, @Reached.of_foldlM overtaking _ rfl, rfl, by decide⟩,
    ⟨_, @Reached.of_foldlM (overtaking ++ overtaken) _ rfl, rfl, rfl⟩, ?_,
    ⟨_, @Reached.of_foldlM abandoned _ rfl, rfl, by decide⟩⟩
  exact ⟨_, @Reached.of_foldlM
    (overtaking ++ overtaken ++ [.cleanup 2 true]) _ rfl, rfl, rfl⟩

end SegmentRotation

end F4kvsLsm
