import F4kvsLsm.Lib.Exchange
import F4kvsLsm.Lib.StableSort
import F4kvsLsm.Wal.Handle

/-!
# Reading a log that is open

`read_entries` reads the open file, then the completed ones as a hash map
lists them.  A recovery reads all files in the order of their numbers.  Both
sort the entries by seconds, so they differ where files share a second.
-/

namespace F4kvsLsm

open ByteCodec Exchange Versions

namespace FileWal

variable (engine : FileEngine) (config : WalConfig)

/-! ## The two readers -/

def readFile (dir : List WalFile) (id : Nat) :
    Except LsmError (List WALEntry) :=
  match dir.find? (fun file => file.id = id) with
  | some file => engine.readEntries config.segmentSize file.content
  | none => .error (.io "No such file or directory (os error 2)")

/-- What a file adds to the entries, nothing when it cannot be read. -/
def entriesIn (dir : List WalFile) (id : Nat) : List WALEntry :=
  match readFile engine config dir id with
  | .ok entries => entries
  | .error _ => []

/-- Read a completed file.  The segment backend opens it with
`WALSegment::new`, which writes a new header into it. -/
def readCompleted (dir : List WalFile) (id : Nat) (now : UInt64) :
    List WalFile × List WALEntry :=
  let dir :=
    match engine with
    | .segment => (newSegment .segment config dir id now).1
    | .frame => dir
  (dir, entriesIn engine config dir id)

/-- Read completed files in turn; `now` is the clock when a file is
opened. -/
def readAllCompleted (now : Nat → UInt64) :
    List Nat → List WalFile → List WalFile × List WALEntry
  | [], dir => (dir, [])
  | id :: ids, dir =>
      let (dir, entries) := readCompleted engine config dir id (now id)
      let (dir, rest) := readAllCompleted now ids dir
      (dir, entries ++ rest)

/-- `read_entries`: the manager after it and its result.  `order` is the
order in which the hash map of the completed files is walked. -/
def readEntries (m : FileWal) (order : List (Nat × Nat))
    (now : Nat → UInt64) : FileWal × Except LsmError (List WALEntry) :=
  let current :=
    match m.current with
    | some segment => readFile engine config m.dir segment.id
    | none => .ok []
  match current with
  | .error e => (m, .error e)
  | .ok own =>
      let (dir, completed) :=
        readAllCompleted engine config now (order.map (·.2)) m.dir
      ({ m with dir := dir }, .ok (sortByTimestamp (own ++ completed)))

/-! ## Sessions -/

/-- What a session does between its start and a read. -/
inductive SessionStep where
  | write (entry : WALEntry) (now : UInt64)
  | batch (entries : List WALEntry) (now : UInt64)
  | rotate (now : UInt64)
  | flush

/-- A write that fails leaves the manager as it is. -/
def sessionStep (m : FileWal) : SessionStep → FileWal
  | .write entry now =>
      match writeEntry engine config m entry now with
      | .ok m' => m'
      | .error _ => m
  | .batch entries now =>
      match batchWriteEntries engine config m entries now with
      | .ok m' => m'
      | .error _ => m
  | .rotate now => rotateSegment engine config m now
  | .flush => flush engine m

/-- A session that starts on an empty directory. -/
def session (start : UInt64) (steps : List SessionStep) : FileWal :=
  steps.foldl (sessionStep engine config)
    (initializeWal engine config (new []) start)

/-! ## The files of a session -/

variable {engine : FileEngine} {config : WalConfig}

/-- A file begins with a whole header. -/
structure WholeHeader (engine : FileEngine) (content : Bytes) : Prop where
  size : engine.headerSize ≤ content.length
  magic : content.take 4 = engine.magic

theorem WholeHeader.append
    {content : Bytes} (whole : WholeHeader engine content) (added : Bytes) :
    WholeHeader engine (content ++ added) := by
  have four := Nat.le_trans engine.four_le_headerSize whole.size
  constructor
  · rw [List.length_append]
    exact Nat.le_add_right_of_le whole.size
  · rw [List.take_append_of_le_length four, whole.magic]

theorem wholeHeader_overwrite
    (header : WALSegmentHeader) (content : Bytes) :
    WholeHeader engine (overwrite (engine.encodeHeader header) content) := by
  have four : 4 ≤ (engine.encodeHeader header).length := by
    rw [engine.encodeHeader_length]
    exact engine.four_le_headerSize
  constructor
  · rw [FileWal.overwrite, List.length_append, engine.encodeHeader_length]
    exact Nat.le_add_right _ _
  · rw [FileWal.overwrite, List.take_append_of_le_length four,
      engine.encodeHeader_take]

theorem WholeHeader.readEntries_overwrite
    {content : Bytes} (whole : WholeHeader engine content)
    (header : WALSegmentHeader) (maxSize : Nat) :
    engine.readEntries maxSize
        (FileWal.overwrite (engine.encodeHeader header) content) =
      engine.readEntries maxSize content := by
  have rewritten := @wholeHeader_overwrite engine header content
  have body := @FileEngine.overwrite_drop engine _ content
    (engine.encodeHeader_length header)
  have long := Nat.not_lt_of_le whole.size
  have long' := Nat.not_lt_of_le rewritten.size
  have magic := whole.magic
  have magic' := rewritten.magic
  cases engine with
  | segment =>
      rw [FileEngine.headerSize] at long long' body
      simp only [FileEngine.readEntries, WALSegment.readEntries,
        if_neg long, if_neg long', magic, magic', ne_eq, not_true_eq_false,
        if_false, body]
  | frame =>
      rw [FileEngine.headerSize] at long long' body
      simp only [FileEngine.readEntries, FrameWalSegment.readEntries,
        if_neg long, if_neg long', magic, magic', ne_eq, not_true_eq_false,
        if_false, body]

theorem WholeHeader.segment_readable
    {content : Bytes} (whole : WholeHeader .segment content)
    (maxSize : Nat) :
    ∃ entries, FileEngine.segment.readEntries maxSize content =
      .ok entries := by
  have long := Nat.not_lt_of_le whole.size
  rw [FileEngine.headerSize] at long
  rw [FileEngine.readEntries, WALSegment.readEntries, if_neg long,
    if_neg (not_not.mpr whole.magic)]
  exact ⟨_, rfl⟩

/-- The files in the order of their numbers, the open one at the end, the
others registered as completed in the order in which they were. -/
structure Registered (engine : FileEngine) (m : FileWal)
    (older : List WalFile) (last : WalFile) : Prop where
  dir : m.dir = older ++ [last]
  ascending : Ascending (older ++ [last])
  whole : ∀ file ∈ older ++ [last], WholeHeader engine file.content
  current : ∃ header, m.current = some ⟨last.id, header⟩
  counter : m.counter = last.id + 1
  segments : m.segments = older.map fun file => (file.id + 1, file.id)

section

variable {m : FileWal} {older : List WalFile} {last : WalFile}

/-- The open file changes behind its header. -/
theorem Registered.change_last
    (registered : Registered engine m older last) (change : Bytes → Bytes)
    (whole : WholeHeader engine (change last.content))
    (header : WALSegmentHeader) :
    Registered engine
      { m with
        dir := updateFile m.dir last.id change
        current := some ⟨last.id, header⟩ }
      older { last with content := change last.content } := by
  have ascending := registered.ascending
  constructor
  case dir =>
    rw [registered.dir]
    exact updateFile_append_singleton ascending change
  case ascending => exact ascending_replace_last ascending rfl
  case whole =>
    intro file member
    rcases List.mem_append.mp member with old | new
    · exact registered.whole file (List.mem_append_left _ old)
    · rw [List.mem_singleton.mp new]
      exact whole
  case current => exact ⟨header, rfl⟩
  case counter => exact registered.counter
  case segments => exact registered.segments

theorem Registered.last_whole
    (registered : Registered engine m older last) :
    WholeHeader engine last.content :=
  registered.whole last (List.mem_append_right _ List.mem_cons_self)

theorem wholeHeader_freshFile (id : Nat) (now : UInt64) :
    WholeHeader engine (freshFile engine config id now).content :=
  ⟨Nat.le_of_eq (engine.encodeHeader_length _).symm,
    engine.encodeHeader_take _⟩

theorem Registered.rotateSegment
    (registered : Registered engine m older last) (now : UInt64) :
    ∃ closed, Registered engine (rotateSegment engine config m now)
      (older ++ [closed]) (freshFile engine config m.counter now) := by
  obtain ⟨header, current⟩ := registered.current
  have closed := registered.change_last
    (FileWal.overwrite (engine.encodeHeader header))
    (wholeHeader_overwrite header _) header
  have dir : updateFile m.dir last.id
      (FileWal.overwrite (engine.encodeHeader header)) =
        older ++ [closedFile engine header last] := closed.dir
  have above : ∀ file ∈ older ++ [closedFile engine header last],
      file.id < m.counter := by
    intro file member
    rw [registered.counter]
    rcases List.mem_append.mp member with old | new
    · have less := (List.pairwise_append.mp registered.ascending).2.2 file
        old last (by simp)
      omega
    · rw [List.mem_singleton.mp new]
      exact Nat.lt_succ_self _
  have rotated : FileWal.rotateSegment engine config m now =
      ⟨(older ++ [closedFile engine header last]) ++
          [freshFile engine config m.counter now],
        some ⟨m.counter, newHeader config now⟩,
        m.segments ++ [(m.counter, last.id)], m.counter + 1⟩ := by
    simp only [FileWal.rotateSegment, current, writeHeader, dir]
    have ascending : Ascending (older ++ [closedFile engine header last]) :=
      closed.ascending
    rw [newSegment_eq ascending above now]
  refine ⟨closedFile engine header last, ?_⟩
  rw [rotated]
  constructor
  case dir => rfl
  case ascending => exact ascending_append_singleton closed.ascending above
  case whole =>
    intro file member
    rcases List.mem_append.mp member with old | new
    · exact closed.whole file old
    · rw [List.mem_singleton.mp new]
      exact wholeHeader_freshFile m.counter now
  case current => exact ⟨_, rfl⟩
  case counter => rfl
  case segments =>
    rw [registered.segments, registered.counter, List.map_append]
    rfl

end

/-- A manager in which every completed file is registered. -/
def Open (engine : FileEngine) (m : FileWal) : Prop :=
  ∃ older last, Registered engine m older last

theorem Open.rotateSegment
    {m : FileWal} (opened : Open engine m) (now : UInt64) :
    Open engine (FileWal.rotateSegment engine config m now) := by
  obtain ⟨older, last, registered⟩ := opened
  obtain ⟨closed, rotated⟩ := registered.rotateSegment now
  exact ⟨_, _, rotated⟩

/-- Records go behind what the open file holds. -/
theorem Open.append
    {m : FileWal} (opened : Open engine m) {segment : OpenSegment}
    (current : m.current = some segment) (bytes : Bytes)
    (header : WALSegmentHeader) :
    Open engine { m with
      dir := updateFile m.dir segment.id (· ++ bytes)
      current := some ⟨segment.id, header⟩ } := by
  obtain ⟨older, last, registered⟩ := opened
  obtain ⟨old, same⟩ := registered.current
  rw [current] at same
  cases same
  exact ⟨_, _, registered.change_last (· ++ bytes)
    (registered.last_whole.append bytes) header⟩

theorem Open.flush {m : FileWal} (opened : Open engine m) :
    Open engine (FileWal.flush engine m) := by
  obtain ⟨older, last, registered⟩ := opened
  obtain ⟨header, current⟩ := registered.current
  have written := registered.change_last
    (FileWal.overwrite (engine.encodeHeader header))
    (wholeHeader_overwrite header _) header
  simp only [FileWal.flush, current, writeHeader]
  exact ⟨_, _, written⟩

/-! ## Steps of a session -/

theorem Open.current
    {m : FileWal} (opened : Open engine m) :
    ∃ segment, m.current = some segment := by
  obtain ⟨older, last, registered⟩ := opened
  obtain ⟨header, current⟩ := registered.current
  exact ⟨_, current⟩

theorem Open.writeEntry
    {m m' : FileWal} (opened : Open engine m) {entry : WALEntry}
    {now : UInt64} (written : writeEntry engine config m entry now = .ok m') :
    Open engine m' := by
  obtain ⟨segment, current⟩ := opened.current
  by_cases full : fileLen m.dir segment.id + (entry.encode.length + 4) >
      config.segmentSize
  · have rotated : Open engine (FileWal.rotateSegment engine config m now) :=
      opened.rotateSegment now
    obtain ⟨fresh, started⟩ := rotated.current
    simp only [FileWal.writeEntry, current, segmentWriteEntry, if_pos full,
      started] at written
    split at written
    · cases written
      rw [← started]
      exact rotated
    · cases written
      exact rotated.append started _ _
  · simp only [FileWal.writeEntry, current, segmentWriteEntry,
      if_neg full] at written
    cases written
    exact opened.append current _ _

theorem Open.rotateIfFull
    {m : FileWal} (opened : Open engine m) (now : UInt64) :
    Open engine (FileWal.rotateIfFull engine config m now) := by
  rw [FileWal.rotateIfFull]
  split
  · split
    · exact opened.rotateSegment now
    · exact opened
  · exact opened

theorem Open.appendBatch
    {m : FileWal} (opened : Open engine m) {segment : OpenSegment}
    (current : m.current = some segment) (entries : List WALEntry) :
    Open engine (FileWal.appendBatch engine m segment entries) := by
  rw [FileWal.appendBatch]
  exact (opened.append current _ _).flush

theorem Open.batchWriteEntries
    {m m' : FileWal} (opened : Open engine m) {entries : List WALEntry}
    {now : UInt64}
    (written : batchWriteEntries engine config m entries now = .ok m') :
    Open engine m' := by
  unfold FileWal.batchWriteEntries at written
  split at written
  · cases written
    exact opened
  · have started : Open engine (FileWal.rotateIfFull engine config m now) :=
      opened.rotateIfFull now
    obtain ⟨segment, current⟩ := started.current
    simp only [current] at written
    split at written
    · have rotated : Open engine (FileWal.rotateSegment engine config
          (FileWal.rotateIfFull engine config m now) now) :=
        started.rotateSegment now
      obtain ⟨fresh, opening⟩ := rotated.current
      simp only [opening] at written
      cases written
      exact rotated.appendBatch opening entries
    · cases written
      exact started.appendBatch current entries

theorem Open.sessionStep
    {m : FileWal} (opened : Open engine m) (step : SessionStep) :
    Open engine (sessionStep engine config m step) := by
  cases step with
  | write entry now =>
      rw [FileWal.sessionStep]
      split
      · case h_1 written => exact opened.writeEntry written
      · exact opened
  | batch entries now =>
      rw [FileWal.sessionStep]
      split
      · case h_1 written => exact opened.batchWriteEntries written
      · exact opened
  | rotate now => exact opened.rotateSegment now
  | flush => exact opened.flush

/-- The first file of an empty directory. -/
theorem open_initialize (start : UInt64) :
    Open engine (initializeWal engine config (new []) start) := by
  have first : initializeWal engine config (new []) start =
      rotateSegment engine config ⟨[], none, [], 1⟩ start := by
    cases engine <;> rfl
  have above : ∀ file ∈ ([] : List WalFile), file.id < 1 := nofun
  rw [first]
  simp only [rotateSegment]
  rw [newSegment_eq List.Pairwise.nil above start]
  refine ⟨[], freshFile engine config 1 start, rfl, ?_, ?_, ⟨_, rfl⟩, rfl,
    rfl⟩
  · exact List.pairwise_singleton _ _
  · intro file member
    rw [List.mem_singleton.mp member]
    exact wholeHeader_freshFile 1 start

theorem open_session (start : UInt64) (steps : List SessionStep) :
    Open engine (session engine config start steps) := by
  rw [session]
  induction steps using List.reverseRecOn with
  | nil => exact open_initialize start
  | append_singleton steps step inductionHypothesis =>
      rw [List.foldl_append]
      exact inductionHypothesis.sessionStep step

/-! ## What is read -/

theorem find?_of_mem
    {dir : List WalFile} (ascending : Ascending dir) {file : WalFile}
    (member : file ∈ dir) :
    dir.find? (fun other => other.id = file.id) = some file := by
  induction dir with
  | nil => exact absurd member List.not_mem_nil
  | cons first rest inductionHypothesis =>
      obtain ⟨least, restAscending⟩ := List.pairwise_cons.mp ascending
      rcases List.mem_cons.mp member with rfl | behind
      · exact List.find?_cons_of_pos (decide_eq_true rfl)
      · have less := least file behind
        rw [List.find?_cons_of_neg (by simpa using Nat.ne_of_lt less)]
        exact inductionHypothesis restAscending behind

theorem entriesIn_of_mem
    {dir : List WalFile} (ascending : Ascending dir) {file : WalFile}
    (member : file ∈ dir) :
    entriesIn engine config dir file.id =
      engine.entriesOf config.segmentSize file := by
  rw [entriesIn, readFile, find?_of_mem ascending member]
  rfl

/-- Two listings in which every file reads alike. -/
structure SameReads (engine : FileEngine) (config : WalConfig)
    (dir dir' : List WalFile) : Prop where
  ids : dir'.map (·.id) = dir.map (·.id)
  whole : ∀ file ∈ dir', WholeHeader engine file.content
  read : ∀ id, readFile engine config dir' id = readFile engine config dir id

theorem SameReads.entriesIn
    {dir dir' : List WalFile} (same : SameReads engine config dir dir')
    (id : Nat) :
    entriesIn engine config dir' id = entriesIn engine config dir id := by
  rw [FileWal.entriesIn, FileWal.entriesIn, same.read]

theorem sameReads_newSegment
    {dir : List WalFile}
    (whole : ∀ file ∈ dir, WholeHeader engine file.content) {id : Nat}
    (there : id ∈ dir.map (·.id)) (now : UInt64) :
    SameReads engine config dir (newSegment engine config dir id now).1 := by
  have found : dir.any (fun file => file.id = id) = true := by
    obtain ⟨file, member, same⟩ := List.mem_map.mp there
    exact List.any_eq_true.mpr ⟨file, member, decide_eq_true same⟩
  let rewrite := fun file : WalFile =>
    if file.id = id then
      { file with content :=
          overwrite (engine.encodeHeader (newHeader config now)) file.content }
    else file
  have opened : (newSegment engine config dir id now).1 =
      dir.map rewrite := by
    simp only [newSegment, found, if_true]
    rfl
  have sameId : ∀ file, (rewrite file).id = file.id := by
    intro file
    by_cases chosen : file.id = id
    · simp only [rewrite, if_pos chosen]
    · simp only [rewrite, if_neg chosen]
  rw [opened]
  constructor
  case ids =>
    rw [List.map_map]
    exact List.map_congr_left fun file _ => sameId file
  case whole =>
    intro file member
    obtain ⟨old, oldMember, rfl⟩ := List.mem_map.mp member
    by_cases chosen : old.id = id
    · simp only [rewrite, if_pos chosen]
      exact wholeHeader_overwrite _ _
    · simp only [rewrite, if_neg chosen]
      exact whole old oldMember
  case read =>
    intro other
    have keeps : (fun file : WalFile => decide (file.id = other)) ∘ rewrite =
        fun file => decide (file.id = other) :=
      funext fun file => by rw [Function.comp_apply, sameId]
    rw [readFile, readFile, List.find?_map, keeps]
    cases held : dir.find? (fun file => file.id = other) with
    | none => rfl
    | some file =>
        have member := List.mem_of_find?_eq_some held
        simp only [Option.map_some]
        by_cases chosen : file.id = id
        · simp only [rewrite, if_pos chosen]
          exact (whole file member).readEntries_overwrite _ _
        · simp only [rewrite, if_neg chosen]

theorem sameReads_readCompleted
    {dir : List WalFile}
    (whole : ∀ file ∈ dir, WholeHeader engine file.content) {id : Nat}
    (there : id ∈ dir.map (·.id)) (now : UInt64) :
    SameReads engine config dir
      (readCompleted engine config dir id now).1 := by
  cases engine with
  | segment => exact sameReads_newSegment whole there now
  | frame => exact ⟨rfl, whole, fun _ => rfl⟩

/-- Reading the completed files leaves all files as readable as before. -/
theorem readAllCompleted_eq
    (now : Nat → UInt64) (ids : List Nat) {dir : List WalFile}
    (whole : ∀ file ∈ dir, WholeHeader engine file.content)
    (there : ∀ id ∈ ids, id ∈ dir.map (·.id)) :
    (readAllCompleted engine config now ids dir).2 =
      ids.flatMap (entriesIn engine config dir) := by
  induction ids generalizing dir with
  | nil => rfl
  | cons id ids inductionHypothesis =>
      rw [List.forall_mem_cons] at there
      have same : SameReads engine config dir
          (readCompleted engine config dir id (now id)).1 :=
        sameReads_readCompleted whole there.1 (now id)
      have rest := inductionHypothesis same.whole fun other member => by
        rw [same.ids]
        exact there.2 other member
      rw [List.flatMap_cons]
      change (readCompleted engine config dir id (now id)).2 ++
        (readAllCompleted engine config now ids
          (readCompleted engine config dir id (now id)).1).2 = _
      rw [rest]
      have first : (readCompleted engine config dir id (now id)).2 =
          entriesIn engine config dir id := same.entriesIn id
      rw [first]
      congr 1
      exact List.flatMap_congr fun other _ => same.entriesIn other

/-! ## When both readers agree -/

/-- The entries of one second, in their order. -/
def inSecond (second : Nat) (entries : List WALEntry) : List WALEntry :=
  entries.filter fun entry => entry.timestamp.toNat = second

/-- The entries of all completed files, in the order of their rotations. -/
def completedEntries (engine : FileEngine) (config : WalConfig)
    (m : FileWal) : List WALEntry :=
  m.segments.flatMap fun completed =>
    entriesIn engine config m.dir completed.2

/-- The open file can be read.  What two completed files hold of one second
may be exchanged, and so may what the open one and all completed ones hold of
it. -/
structure ReadsExchange (engine : FileEngine) (config : WalConfig)
    (m : FileWal) : Prop where
  opened : ∀ segment, m.current = some segment →
    ∃ own, readFile engine config m.dir segment.id = .ok own ∧
      ∀ second, Exchangeable (inSecond second own)
        (inSecond second (completedEntries engine config m))
  completed : ∀ second, m.segments.Pairwise fun first later =>
    Exchangeable
      (inSecond second (entriesIn engine config m.dir first.2))
      (inSecond second (entriesIn engine config m.dir later.2))

/-- Files that share no second may be exchanged. -/
theorem exchangeable_of_apart
    {entries entries' : List WALEntry}
    (apart : ∀ entry ∈ entries, ∀ entry' ∈ entries',
      entry.timestamp ≠ entry'.timestamp) (second : Nat) :
    Exchangeable (inSecond second entries) (inSecond second entries') := by
  cases held : inSecond second entries with
  | nil => exact exchangeable_nil_left _
  | cons entry rest =>
      have none : inSecond second entries' = [] := by
        refine List.filter_eq_nil_iff.mpr fun entry' member' => ?_
        have here : entry ∈ inSecond second entries := by
          rw [held]
          exact List.mem_cons_self
        obtain ⟨member, stamp⟩ := List.mem_filter.mp here
        rw [decide_eq_true_eq] at stamp ⊢
        intro stamp'
        exact apart entry member entry' member'
          (UInt64.toNat_inj.mp (stamp.trans stamp'.symm))
      rw [none]
      exact exchangeable_nil_right _

section

variable {m : FileWal} {older : List WalFile} {last : WalFile}
  {own : List WALEntry}

/-- When no two files share a second, all may be exchanged. -/
theorem readsExchange_of_apart
    {segment : OpenSegment} (current : m.current = some segment)
    (readable : readFile engine config m.dir segment.id = .ok own)
    (opened : ∀ entry ∈ own, ∀ entry' ∈ completedEntries engine config m,
      entry.timestamp ≠ entry'.timestamp)
    (completed : m.segments.Pairwise fun first later =>
      ∀ entry ∈ entriesIn engine config m.dir first.2,
        ∀ entry' ∈ entriesIn engine config m.dir later.2,
          entry.timestamp ≠ entry'.timestamp) :
    ReadsExchange engine config m := by
  constructor
  case opened =>
    intro other same
    rw [current] at same
    cases same
    exact ⟨own, readable, exchangeable_of_apart opened⟩
  case completed =>
    intro second
    exact completed.imp fun apart => exchangeable_of_apart apart second

theorem Registered.completedEntries_eq
    (registered : Registered engine m older last) :
    completedEntries engine config m = recovered engine config older := by
  rw [completedEntries, registered.segments, registered.dir,
    List.flatMap_map]
  refine List.flatMap_congr fun file member => ?_
  exact entriesIn_of_mem registered.ascending (List.mem_append_left _ member)

/-- The recovery reads the completed files, then the open one. -/
theorem Registered.readEntriesFromDisk
    (registered : Registered engine m older last) :
    readEntriesFromDisk engine config m.dir =
      .ok (sortByTimestamp (completedEntries engine config m ++
        entriesIn engine config m.dir last.id)) := by
  have member : last ∈ older ++ [last] :=
    List.mem_append_right _ List.mem_cons_self
  have held : entriesIn engine config m.dir last.id =
      engine.entriesOf config.segmentSize last := by
    rw [registered.dir]
    exact entriesIn_of_mem registered.ascending member
  have whole : recovered engine config m.dir =
      completedEntries engine config m ++
        entriesIn engine config m.dir last.id := by
    rw [registered.completedEntries_eq, registered.dir, recovered_append,
      recovered_singleton, ← registered.dir, held]
  rw [← whole, registered.dir]
  cases engine with
  | frame =>
      rw [FileWal.readEntriesFromDisk, FrameWalManager.readEntriesFromDisk,
        sortById_eq_self registered.ascending]
      rfl
  | segment =>
      obtain ⟨entries, readable⟩ :=
        registered.last_whole.segment_readable config.segmentSize
      exact readEntriesFromDisk_eq registered.ascending member readable

theorem Registered.readEntries_of_error
    (registered : Registered engine m older last) {e : LsmError}
    (failed : readFile engine config m.dir last.id = .error e)
    (order : List (Nat × Nat)) (now : Nat → UInt64) :
    (readEntries engine config m order now).2 = .error e := by
  obtain ⟨header, current⟩ := registered.current
  simp only [readEntries, current, failed]

theorem Registered.readEntries_of_ok
    (registered : Registered engine m older last)
    (readable : readFile engine config m.dir last.id = .ok own)
    {order : List (Nat × Nat)} (perm : order.Perm m.segments)
    (now : Nat → UInt64) :
    (readEntries engine config m order now).2 =
      .ok (sortByTimestamp (own ++ order.flatMap fun completed =>
        entriesIn engine config m.dir completed.2)) := by
  obtain ⟨header, current⟩ := registered.current
  have whole : ∀ file ∈ m.dir, WholeHeader engine file.content := by
    rw [registered.dir]
    exact registered.whole
  have there : ∀ id ∈ order.map (·.2), id ∈ m.dir.map (·.id) := by
    intro id member
    have inSegments := (perm.map (·.2)).mem_iff.mp member
    rw [registered.segments, List.map_map] at inSegments
    obtain ⟨file, inOlder, rfl⟩ := List.mem_map.mp inSegments
    rw [registered.dir]
    exact List.mem_map_of_mem (List.mem_append_left _ inOlder)
  have completed : (readAllCompleted engine config now (order.map (·.2))
      m.dir).2 = _ := readAllCompleted_eq now _ whole there
  rw [List.flatMap_map] at completed
  simp only [readEntries, current, readable]
  rw [completed]

/-- Sorted by seconds, the two lists are equal exactly when each second has
the same entries in the same order. -/
theorem forall_order_iff :
    (∀ order : List (Nat × Nat), order.Perm m.segments →
        sortByTimestamp (own ++ order.flatMap fun completed =>
          entriesIn engine config m.dir completed.2) =
        sortByTimestamp (completedEntries engine config m ++ own)) ↔
      ∀ second,
        (m.segments.Pairwise fun first later =>
          Exchangeable
            (inSecond second (entriesIn engine config m.dir first.2))
            (inSecond second (entriesIn engine config m.dir later.2))) ∧
        Exchangeable (inSecond second own)
          (inSecond second (completedEntries engine config m)) := by
  have bySecond : ∀ second, _ ↔ _ := fun second =>
    forall_perm_iff (inSecond second own)
      (fun completed : Nat × Nat =>
        inSecond second (entriesIn engine config m.dir completed.2))
      m.segments
  have selects : ∀ (second : Nat) (order : List (Nat × Nat)),
      inSecond second (order.flatMap fun completed =>
        entriesIn engine config m.dir completed.2) =
      order.flatMap fun completed =>
        inSecond second (entriesIn engine config m.dir completed.2) :=
    fun second order => List.filter_flatMap
  simp only [completedEntries, selects, ← bySecond]
  constructor
  · intro all second order perm
    have sorted := (sortByStamp_eq_iff _ _).mp (all order perm) second
    rw [List.filter_append, List.filter_append] at sorted
    rw [← selects, ← selects]
    exact sorted
  · intro all order perm
    refine (sortByStamp_eq_iff _ _).mpr fun second => ?_
    rw [List.filter_append, List.filter_append]
    have here := all second order perm
    rw [← selects, ← selects] at here
    exact here

end

/-- Whatever a session has written, a read of the open log returns what a
recovery would, however the completed files are listed, exactly when the open
file can be read and the files' entries of each second may be exchanged. -/
theorem live_reads_agree_iff
    (engine : FileEngine) (config : WalConfig) (start : UInt64)
    (steps : List SessionStep) (now : Nat → UInt64) :
    (∀ order : List (Nat × Nat),
        order.Perm (session engine config start steps).segments →
          (readEntries engine config (session engine config start steps)
            order now).2 =
          readEntriesFromDisk engine config
            (session engine config start steps).dir) ↔
      ReadsExchange engine config (session engine config start steps) := by
  obtain ⟨older, last, registered⟩ :=
    @open_session engine config start steps
  generalize session engine config start steps = m at *
  obtain ⟨header, current⟩ := registered.current
  rw [registered.readEntriesFromDisk]
  cases read : readFile engine config m.dir last.id with
  | error e =>
      constructor
      · intro all
        have failed := all m.segments (List.Perm.refl _)
        rw [registered.readEntries_of_error read] at failed
        cases failed
      · intro exchange
        obtain ⟨own, readable, -⟩ := exchange.opened _ current
        rw [read] at readable
        cases readable
  | ok own =>
      have held : entriesIn engine config m.dir last.id = own := by
        rw [entriesIn, read]
      have same : ∀ order : List (Nat × Nat), order.Perm m.segments →
          ((readEntries engine config m order now).2 =
            .ok (sortByTimestamp (completedEntries engine config m ++ own)) ↔
          sortByTimestamp (own ++ order.flatMap fun completed =>
              entriesIn engine config m.dir completed.2) =
            sortByTimestamp (completedEntries engine config m ++ own)) :=
        fun order perm => by
          rw [registered.readEntries_of_ok read perm now, Except.ok.injEq]
      rw [held, forall₂_congr same, forall_order_iff]
      constructor
      · intro all
        refine ⟨fun segment opened => ?_, fun second => (all second).1⟩
        rw [current] at opened
        cases opened
        exact ⟨own, read, fun second => (all second).2⟩
      · intro exchange second
        obtain ⟨own', readable, exchangeable⟩ := exchange.opened _ current
        rw [read] at readable
        cases readable
        exact ⟨exchange.completed second, exchangeable second⟩

/-- A put, and a delete of its key in the next file but the same second. -/
def sharedSecond : List SessionStep :=
  [.write (.put "k" (.bool true) 100) 100, .rotate 100,
    .write (.delete "k" 100) 100]

/-- In both backends a read of the open log has the delete before the put. -/
theorem shared_second_is_reversed :
    ((readEntries .segment WalHandle.smallConfig
          (session .segment WalHandle.smallConfig 100 sharedSecond) [(2, 1)]
          fun _ => 100).2 =
        .ok [.delete "k" 100, .put "k" (.bool true) 100] ∧
      readEntriesFromDisk .segment WalHandle.smallConfig
          (session .segment WalHandle.smallConfig 100 sharedSecond).dir =
        .ok [.put "k" (.bool true) 100, .delete "k" 100] ∧
      (session .segment WalHandle.smallConfig 100 sharedSecond).segments =
        [(2, 1)]) ∧
    (readEntries .frame WalHandle.smallConfig
          (session .frame WalHandle.smallConfig 100 sharedSecond) [(2, 1)]
          fun _ => 100).2 =
        .ok [.delete "k" 100, .put "k" (.bool true) 100] ∧
      readEntriesFromDisk .frame WalHandle.smallConfig
          (session .frame WalHandle.smallConfig 100 sharedSecond).dir =
        .ok [.put "k" (.bool true) 100, .delete "k" 100] ∧
      (session .frame WalHandle.smallConfig 100 sharedSecond).segments =
        [(2, 1)] :=
  ⟨⟨rfl, rfl, rfl⟩, rfl, rfl, rfl⟩

end FileWal

end F4kvsLsm
