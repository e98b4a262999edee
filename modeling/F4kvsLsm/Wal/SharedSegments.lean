import F4kvsLsm.Wal.FileWalWrites

/-!
# The segments that rotations share

`rotate_segment` is called by writers, by the group-commit flusher and by
truncation.  They share the open segment, which has a lock, the map of the
closed segments, which has another, and the counter.  The counter is read
under the lock of the open segment and raised after the lock is released, so
the next rotation can find it not yet raised.

A segment is known by the number in its file name.  The map is keyed by the
counter at the time a segment was closed.  Here the parties take turns step by
step; what the files hold does not matter.  The counter stays below 2^64.
-/

namespace F4kvsLsm

namespace SegmentRotation

/-- Who calls `rotate_segment`. -/
inductive Party where
  | writer (n : Nat)
  | flusher
  | truncation (n : Nat)
  deriving DecidableEq, Repr

/-- How far the rotation that holds the lock of the open segment is. -/
inductive Rotating where
  | locked
  | taken (file : Nat)
  | keyed (file key : Nat)
  | ready
  | numbered (id : Nat)
  | opened (id : Nat)
  deriving DecidableEq, Repr

/-- How far a truncation is before it rotates. -/
inductive Truncating where
  | closed
  | cleared
  | removing (files : List Nat)
  | rotating
  deriving DecidableEq, Repr

/-- What the parties share, with their positions.  `owing` are those who have
released the lock and not yet raised the counter. -/
structure SharedSegments where
  dir : List Nat
  current : Option Nat
  segments : List (Nat × Nat)
  counter : Nat
  holder : Option (Party × Rotating)
  owing : List Party
  truncations : List (Nat × Truncating)
  deriving DecidableEq, Repr

/-- A log manager that nobody is in. -/
def ofWal (m : FileWal) : SharedSegments :=
  { dir := m.dir.map (·.id)
    current := m.current.map (·.id)
    segments := m.segments
    counter := m.counter
    holder := none
    owing := []
    truncations := [] }

/-! ## The steps -/

/-- The steps of `rotate_segment` under the lock, with its early returns. -/
inductive RotateStep where
  | takeCurrent
  | closeFails
  | loadKey
  | insert
  | loadId
  | openFails
  | openFile
  | headerFails
  | publish
  deriving DecidableEq, Repr

/-- The steps of `truncate_after_flush` up to its rotation. -/
inductive TruncateStep where
  | close
  | clear
  | list
  | remove
  | removeFails
  | check
  deriving DecidableEq, Repr

inductive Action where
  | acquire (party : Party)
  | rotate (step : RotateStep)
  | raise (party : Party)
  | truncate (n : Nat) (step : TruncateStep)
  | cleanup (key : Nat) (removed : Bool)
  deriving DecidableEq, Repr

/-- `HashMap::insert`: an entry with the same key is replaced. -/
def insertSegment (segments : List (Nat × Nat)) (key file : Nat) :
    List (Nat × Nat) :=
  segments.filter (fun entry => entry.1 ≠ key) ++ [(key, file)]

/-- Opening with `create(true)` and without `truncate`. -/
def createFile (dir : List Nat) (id : Nat) : List Nat :=
  if id ∈ dir then dir else dir ++ [id]

namespace SharedSegments

variable (s : SharedSegments)

/-- `current_segment.write()` at the head of `rotate_segment`. -/
def acquire (party : Party) : Option SharedSegments :=
  if s.holder = none ∧ party ∉ s.owing then
    match party with
    | .truncation n =>
        if (n, .rotating) ∈ s.truncations then
          some { s with
            holder := some (party, .locked)
            truncations := s.truncations.filter (fun entry => entry.1 ≠ n) }
        else none
    | _ => some { s with holder := some (party, .locked) }
  else none

/-- A step of `rotate_segment` by the party that holds the lock. -/
def rotate (party : Party) :
    Rotating → RotateStep → Option SharedSegments
  | .locked, .takeCurrent =>
      match s.current with
      | some file =>
          some { s with
            current := none
            holder := some (party, .taken file) }
      | none => some { s with holder := some (party, .ready) }
  | .taken _, .closeFails => some { s with holder := none }
  | .taken file, .loadKey =>
      some { s with holder := some (party, .keyed file s.counter) }
  | .keyed file key, .insert =>
      some { s with
        segments := insertSegment s.segments key file
        holder := some (party, .ready) }
  | .ready, .loadId =>
      some { s with holder := some (party, .numbered s.counter) }
  | .numbered _, .openFails => some { s with holder := none }
  | .numbered id, .openFile =>
      some { s with
        dir := createFile s.dir id
        holder := some (party, .opened id) }
  | .opened _, .headerFails => some { s with holder := none }
  | .opened id, .publish =>
      some { s with
        current := some id
        holder := none
        owing := s.owing ++ [party] }
  | _, _ => none

/-- `segment_counter.fetch_add(1)` after the lock was dropped. -/
def raise (party : Party) : Option SharedSegments :=
  if party ∈ s.owing then
    some { s with
      counter := s.counter + 1
      owing := s.owing.erase party }
  else none

def setTruncating (n : Nat) (stage : Truncating) : List (Nat × Truncating) :=
  s.truncations.filter (fun entry => entry.1 ≠ n) ++ [(n, stage)]

def endTruncation (n : Nat) : List (Nat × Truncating) :=
  s.truncations.filter (fun entry => entry.1 ≠ n)

/-- A step of `truncate_after_flush`; an error on closing the open segment is
only logged. -/
def truncate (n : Nat) :
    Option Truncating → TruncateStep → Option SharedSegments
  | none, .close =>
      if s.holder = none ∧ .truncation n ∉ s.owing then
        some { s with
          current := none
          truncations := s.setTruncating n .closed }
      else none
  | some .closed, .clear =>
      some { s with
        segments := []
        truncations := s.setTruncating n .cleared }
  | some .cleared, .list =>
      some { s with truncations := s.setTruncating n (.removing s.dir) }
  | some (.removing (file :: files)), .remove =>
      some { s with
        dir := s.dir.filter (fun other => other ≠ file)
        truncations := s.setTruncating n (.removing files) }
  | some (.removing (_ :: _)), .removeFails =>
      some { s with truncations := s.endTruncation n }
  | some (.removing []), .check =>
      if s.dir.isEmpty then
        some { s with truncations := s.setTruncating n .rotating }
      else some { s with truncations := s.endTruncation n }
  | _, _ => none

/-- A cleanup drops an entry of the map; the removal of its file can fail. -/
def cleanup (key : Nat) (removed : Bool) : SharedSegments :=
  let gone := (s.segments.filter (fun entry => entry.1 = key)).map (·.2)
  { s with
    dir := if removed then s.dir.filter (fun file => file ∉ gone) else s.dir
    segments := s.segments.filter (fun entry => entry.1 ≠ key) }

def step : Action → Option SharedSegments
  | .acquire party => s.acquire party
  | .rotate rotateStep =>
      match s.holder with
      | some (party, stage) => s.rotate party stage rotateStep
      | none => none
  | .raise party => s.raise party
  | .truncate n truncateStep =>
      s.truncate n (s.truncations.lookup n) truncateStep
  | .cleanup key removed => some (s.cleanup key removed)

/-! ## What is expected -/

/-- The segment that a rotation has taken out and not yet put into the map. -/
def inTransit : List Nat :=
  match s.holder with
  | some (_, .taken file) => [file]
  | some (_, .keyed file _) => [file]
  | _ => []

/-- The segment that is being closed, the open one and the closed ones. -/
def live : List Nat :=
  s.inTransit ++ s.current.toList ++ s.segments.map (·.2)

/-- No two live segments are the same file, a number that was loaded for a
new segment is not that of a file, and a key that was loaded for a closed
segment is not in the map, so that no segment is forgotten. -/
structure Consistent : Prop where
  apart : s.live.Nodup
  fresh : ∀ party id, s.holder = some (party, .numbered id) → id ∉ s.dir
  outside : ∀ id, s.current = some id → id ∉ s.segments.map (·.2)
  unused : ∀ party file key, s.holder = some (party, .keyed file key) →
    key ∉ s.segments.map (·.1)

/-- The counter is read when no other rotation is still to raise it, and no
rotation fails after it has created its file. -/
def InTurn : Action → Prop
  | .rotate .loadKey => s.owing = []
  | .rotate .loadId => s.owing = []
  | .rotate .headerFails => False
  | _ => True

end SharedSegments

theorem mem_createFile {dir : List Nat} {id file : Nat} :
    file ∈ createFile dir id ↔ file ∈ dir ∨ file = id := by
  unfold createFile
  split
  · rename_i there
    constructor
    · exact Or.inl
    · rintro (member | rfl)
      · exact member
      · exact there
  · simp

/-! ## The log manager on its own -/

open FileWal SharedSegments

section

variable {engine : FileEngine} {config : WalConfig}

@[simp]
theorem updateFile_ids
    (dir : List WalFile) (id : Nat)
    (change : ByteCodec.Bytes → ByteCodec.Bytes) :
    (updateFile dir id change).map (·.id) = dir.map (·.id) := by
  rw [updateFile, List.map_map]
  apply List.map_congr_left
  intro file _
  simp only [Function.comp_apply]
  split
  · rfl
  · rfl

theorem newSegment_ids (dir : List WalFile) (id : Nat) (now : UInt64) :
    (newSegment engine config dir id now).1.map (·.id) =
      createFile (dir.map (·.id)) id := by
  have found : dir.any (fun file => file.id = id) = true ↔
      id ∈ dir.map (·.id) := by
    simp
  simp only [newSegment, writeHeader, updateFile_ids, createFile, found]
  split
  · rfl
  · simp

/-- A rotation after `close`, in numbers. -/
theorem ofWal_rotateSegment (m : FileWal) (now : UInt64) :
    ofWal (rotateSegment engine config m now) =
      { dir := createFile (m.dir.map (·.id)) m.counter
        current := some m.counter
        segments := m.segments ++
          (m.current.map fun segment => (m.counter, segment.id)).toList
        counter := m.counter + 1
        holder := none
        owing := []
        truncations := [] } := by
  cases current : m.current with
  | none =>
      simp only [ofWal, rotateSegment, current, newSegment_ids]
      simp [newSegment]
  | some segment =>
      simp only [ofWal, rotateSegment, current, newSegment_ids]
      simp [newSegment, writeHeader]

/-- The steps of a rotation that nobody disturbs. -/
def rotation (party : Party) (current : Option Nat) : List Action :=
  [.acquire party, .rotate .takeCurrent] ++
    (if current.isSome then [.rotate .loadKey, .rotate .insert] else []) ++
    [.rotate .loadId, .rotate .openFile, .rotate .publish, .raise party]

theorem rotation_none (party : Party) :
    rotation party none =
      [.acquire party, .rotate .takeCurrent] ++
        [.rotate .loadId, .rotate .openFile, .rotate .publish,
          .raise party] := rfl

theorem opening_alone
    {s : SharedSegments} {party : Party}
    (ready : s.holder = some (party, .ready)) (nobody : s.owing = []) :
    [.rotate .loadId, .rotate .openFile, .rotate .publish,
        .raise party].foldlM step s =
      some { s with
        dir := createFile s.dir s.counter
        current := some s.counter
        counter := s.counter + 1
        holder := none
        owing := [] } := by
  simp [step, rotate, raise, ready, nobody]

/-- The open segment is taken out and put into the map. -/
theorem closing_alone
    {s : SharedSegments} {n file : Nat} (free : s.holder = none)
    (nobody : s.owing = []) (current : s.current = some file) :
    [.acquire (.writer n), .rotate .takeCurrent, .rotate .loadKey,
        .rotate .insert].foldlM step s =
      some { s with
        current := none
        segments := insertSegment s.segments s.counter file
        holder := some (.writer n, .ready) } := by
  simp [step, acquire, rotate, free, nobody, current]

/-- A rotation that nobody disturbs is that of the log manager. -/
theorem rotation_alone
    (m : FileWal) (unused : m.counter ∉ m.segments.map (·.1))
    (n : Nat) (now : UInt64) :
    (rotation (.writer n) (m.current.map (·.id))).foldlM step (ofWal m) =
      some (ofWal (rotateSegment engine config m now)) := by
  rw [ofWal_rotateSegment]
  cases current : m.current with
  | none =>
      have acquired : [.acquire (.writer n), .rotate .takeCurrent].foldlM
          step (ofWal m) =
            some { ofWal m with holder := some (.writer n, .ready) } := by
        simp [step, acquire, rotate, ofWal, current]
      rw [Option.map_none, rotation_none, List.foldlM_append, acquired]
      have opened := @opening_alone
        { ofWal m with holder := some (.writer n, .ready) } (.writer n)
        rfl rfl
      refine opened.trans ?_
      rw [Option.map_none, Option.toList_none, List.append_nil]
      rfl
  | some segment =>
      have closed : insertSegment m.segments m.counter segment.id =
          m.segments ++ [(m.counter, segment.id)] := by
        rw [insertSegment, List.filter_eq_self.mpr]
        intro entry member
        simp only [ne_eq, decide_eq_true_eq]
        intro same
        exact unused (same ▸ List.mem_map_of_mem member)
      have taken := @closing_alone (ofWal m) n segment.id rfl rfl
        (by rw [ofWal, current, Option.map_some])
      rw [rotation, List.foldlM_append, Option.map_some, Option.isSome_some,
        if_pos rfl]
      refine (congrArg (· >>= _) taken).trans ?_
      have opened := @opening_alone
        { ofWal m with
          current := none
          segments := insertSegment m.segments m.counter segment.id
          holder := some (.writer n, .ready) } (.writer n) rfl rfl
      refine opened.trans ?_
      rw [closed]
      rfl

theorem removals_alone
    (s : SharedSegments) (n : Nat) (listing : List Nat)
    (here : s.truncations = [(n, .removing listing)]) :
    (List.replicate listing.length (.truncate n .remove)).foldlM step s =
      some { s with
        dir := s.dir.filter fun file => file ∉ listing
        truncations := [(n, .removing [])] } := by
  induction listing generalizing s with
  | nil =>
      cases s
      cases here
      simp
  | cons file listing inductionHypothesis =>
      have removed : s.step (.truncate n .remove) =
          some { s with
            dir := s.dir.filter (fun other => other ≠ file)
            truncations := [(n, .removing listing)] } := by
        simp [step, truncate, here, setTruncating]
      rw [List.length_cons, List.replicate_succ, List.foldlM_cons, removed]
      have rest := inductionHypothesis
        { s with
          dir := s.dir.filter (fun other => other ≠ file)
          truncations := [(n, .removing listing)] } rfl
      have fewer : (s.dir.filter fun other => other ≠ file).filter
          (fun other => other ∉ listing) =
            s.dir.filter fun other => other ∉ file :: listing := by
        rw [List.filter_filter]
        apply List.filter_congr
        intro other _
        simp only [List.mem_cons, not_or, Bool.decide_and, Bool.and_comm]
      simp only [Option.bind_eq_bind, Option.bind_some, rest, fewer]

/-- The steps of a truncation that nobody disturbs. -/
def truncation (n : Nat) (dir : List Nat) : List Action :=
  [.truncate n .close, .truncate n .clear, .truncate n .list] ++
    List.replicate dir.length (.truncate n .remove) ++
    [.truncate n .check] ++ rotation (.truncation n) none

/-- A truncation that nobody disturbs is that of the log manager. -/
theorem truncation_alone (m : FileWal) (n : Nat) (now : UInt64) :
    (truncation n (m.dir.map (·.id))).foldlM step (ofWal m) =
      some (ofWal (truncateAfterFlush engine config m now)) := by
  have after : ofWal (truncateAfterFlush engine config m now) =
      { dir := [m.counter]
        current := some m.counter
        segments := []
        counter := m.counter + 1
        holder := none
        owing := []
        truncations := [] } := by
    rw [truncateAfterFlush, ofWal_rotateSegment]
    simp [removeListed, createFile]
  have listed :
      [.truncate n .close, .truncate n .clear, .truncate n .list].foldlM
        step (ofWal m) =
      some { ofWal m with
        current := none
        segments := []
        truncations := [(n, .removing (m.dir.map (·.id)))] } := by
    simp [step, truncate, ofWal, setTruncating]
  have removed := removals_alone
    { ofWal m with
      current := none
      segments := []
      truncations := [(n, .removing (m.dir.map (·.id)))] }
    n (m.dir.map (·.id)) rfl
  have empty : (ofWal m).dir.filter (fun file => file ∉ m.dir.map (·.id)) =
      [] := by
    simp [ofWal]
  rw [empty] at removed
  have acquired :
      ([Action.truncate n .check] ++
          [Action.acquire (.truncation n), Action.rotate .takeCurrent]).foldlM
        step
        { ofWal m with
          dir := []
          current := none
          segments := []
          truncations := [(n, .removing [])] } =
      some { ofWal m with
        dir := []
        current := none
        segments := []
        holder := some (.truncation n, .ready) } := by
    simp [step, truncate, setTruncating, acquire, rotate, ofWal]
  have opened := @opening_alone
    { ofWal m with
      dir := []
      current := none
      segments := []
      holder := some (.truncation n, .ready) } (.truncation n) rfl rfl
  rw [truncation, after, List.append_assoc, List.append_assoc,
    List.foldlM_append, listed]
  simp only [Option.bind_eq_bind, Option.bind_some]
  rw [List.foldlM_append, removed]
  simp only [Option.bind_eq_bind, Option.bind_some]
  rw [rotation_none, ← List.append_assoc, List.foldlM_append, acquired]
  exact opened

end

end SegmentRotation

end F4kvsLsm
