import F4kvsLsm.Error
import F4kvsLsm.Storage.MmapReader

/-!
# Reading table files

The random-access reader of a table file on Unix, with its three ways to read
and the blocking one.  The file is there whenever it is opened, and its content
does not change.
-/

namespace F4kvsLsm

open ByteCodec

inductive SstableReadMode where
  | seekRead
  | positionedRead
  | mmapHybrid
  deriving DecidableEq, Repr

/-- The mapping exists only on Linux. -/
def effectiveMode (linux : Bool) (mode : SstableReadMode) :
    SstableReadMode :=
  match mode with
  | .mmapHybrid => if linux then .mmapHybrid else .positionedRead
  | other => other

/-- `LsmError` with the kind of an I/O error. -/
inductive ReadError where
  | io (error : IoError)
  | internal (message : String)
  deriving DecidableEq, Repr

namespace ReadError

def toLsmError : ReadError → LsmError
  | .io (.unexpectedEof message) => .io message
  | .io (.invalidInput message) => .io message
  | .internal message => .internal message

end ReadError

/-- The reader without its handles. -/
structure SstableFileReader where
  mode : SstableReadMode
  mincoreCacheTtlSecs : UInt64

/-- The cached handles, an asynchronous file by its position. -/
structure Handles (disk : DiskFile) where
  asyncFile : Option Nat
  syncFile : Bool
  mmapReader : Option (MmapHybridState disk)

/-- What the calls of a read meet.  `sysconf` is the size of a page, `counts`
says how many bytes each read gives, and an asynchronous file asks for at most
`buffered` bytes. -/
structure ReadCalls (disk : DiskFile) where
  sysconf : Int64
  counts : Nat → Nat
  buffered : Nat
  hybrid : Nat → Encounter disk

variable {disk : DiskFile}

namespace SstableFileReader

def new (linux : Bool) (mode : SstableReadMode)
    (mincoreCacheTtlSecs : UInt64) : SstableFileReader where
  mode := effectiveMode linux mode
  mincoreCacheTtlSecs := mincoreCacheTtlSecs

/-! ## Opening -/

/-- Handles after one of them was opened, if it was not open. -/
def ensureHandle (resilient isOpen : Bool) (name : String)
    (handles opened : Handles disk) : Except ReadError (Handles disk) :=
  if isOpen then .ok handles
  else if resilient then .ok opened
  else .error
    (.internal (name ++ " not open and resilient handling is disabled"))

def ensureAsyncOpen (resilient : Bool) (handles : Handles disk) :
    Except ReadError (Handles disk) :=
  ensureHandle resilient handles.asyncFile.isSome "File" handles
    { handles with asyncFile := some 0 }

def ensureSyncOpen (resilient : Bool) (handles : Handles disk) :
    Except ReadError (Handles disk) :=
  ensureHandle resilient handles.syncFile "Sync file" handles
    { handles with syncFile := true }

variable (reader : SstableFileReader)

def ensureMmapOpen (sysconf : Int64) (resilient : Bool)
    (handles : Handles disk) : Except ReadError (Handles disk) :=
  ensureHandle resilient handles.mmapReader.isSome "Mmap reader" handles
    { handles with
      mmapReader := some
        (.openFile disk sysconf reader.mincoreCacheTtlSecs) }

def ensureOpen (sysconf : Int64) (resilient : Bool) (handles : Handles disk) :
    Except ReadError (Handles disk) :=
  match reader.mode with
  | .seekRead => ensureAsyncOpen resilient handles
  | .positionedRead => ensureSyncOpen resilient handles
  | .mmapHybrid => reader.ensureMmapOpen sysconf resilient handles

/-! ## One read -/

/-- Read up to `length` bytes starting at `offset`. -/
def readAt (calls : ReadCalls disk) (call : Nat) (handles : Handles disk)
    (offset length : Nat) : Except ReadError Bytes × Handles disk :=
  if length = 0 then (.ok [], handles)
  else
    match reader.ensureOpen calls.sysconf true handles with
    | .error failure => (.error failure, handles)
    | .ok handles =>
        match reader.mode with
        | .seekRead =>
            match handles.asyncFile with
            | none => (.error (.internal "File not open"), handles)
            | some _ =>
                match disk.seek offset with
                | .error failure => (.error (.io failure), handles)
                | .ok () =>
                    match disk.readAt (calls.counts call) offset
                      (min length (max 1 calls.buffered)) with
                    | .error failure =>
                        (.error (.io failure),
                          { handles with asyncFile := some offset })
                    | .ok bytes =>
                        (.ok bytes,
                          { handles with
                            asyncFile := some (offset + bytes.length) })
        | .positionedRead =>
            if handles.syncFile then
              ((disk.readAt (calls.counts call) offset length).mapError .io,
                handles)
            else (.error (.internal "Sync file not open"), handles)
        | .mmapHybrid =>
            match handles.mmapReader with
            | none => (.error (.internal "Mmap reader not open"), handles)
            | some state =>
                let (read, state) := state.readAt (calls.hybrid call) offset
                  length
                ((read.mapError .io).map fun data =>
                    data.take (min data.length length),
                  { handles with mmapReader := some state })

/-! ## Exact reads -/

def eofWhileReading (length offset : Nat) : ReadError :=
  .io (.eofWhileReading length offset)

/-- Read exactly `length` bytes starting at `offset`. -/
def readExactAt (calls : ReadCalls disk) (handles : Handles disk)
    (offset length : Nat) : Except ReadError Bytes × Handles disk :=
  let (read, handles, _) := ExactRead.readExact
    (fun (handles, call) position wanted =>
      let (read, handles) := reader.readAt calls call handles position wanted
      (read, handles, call + 1))
    (fun _ => eofWhileReading length offset) (handles, 0) offset length
  (read, handles)

/-- `pread` on the caller's thread. -/
def readExactAtBlocking (counts : Nat → Nat) (handles : Handles disk)
    (offset length : Nat) : Except ReadError Bytes × Handles disk :=
  match ensureSyncOpen true handles with
  | .error failure => (.error failure, handles)
  | .ok handles =>
      if handles.syncFile then
        let (read, _) := ExactRead.readExact
          (fun call position wanted =>
            ((disk.readAt (counts call) position wanted).mapError .io,
              call + 1))
          (fun _ => eofWhileReading length offset) 0 offset length
        (read, handles)
      else (.error (.internal "Sync file not open"), handles)

/-! ## What a read gives -/

/-- The reads that the kernel refuses in each mode: those that leave the signed
offsets, and seeks to where no file reaches. -/
def Refuses (disk : DiskFile) (mode : SstableReadMode)
    (position wanted : Nat) (failure : ReadError) : Prop :=
  failure = .io .invalidArgument ∧
    match mode with
    | .seekRead => disk.maxBytes < position ∨ 2 ^ 63 ≤ position + wanted
    | .positionedRead => 2 ^ 63 ≤ position + wanted
    | .mmapHybrid => False

namespace Refuses

variable {mode : SstableReadMode} {position wanted : Nat}
  {failure : ReadError}

theorem far (refused : Refuses disk mode position wanted failure) :
    disk.maxBytes < position ∨ 2 ^ 63 ≤ position + wanted := by
  obtain ⟨-, far⟩ := refused
  cases mode with
  | seekRead => exact far
  | positionedRead => exact .inr far
  | mmapHybrid => exact far.elim

/-- Nothing is refused that lies in the file. -/
theorem beyond (refused : Refuses disk mode position wanted failure) :
    disk.bytes.length < position + wanted := by
  have fits := disk.fits
  have signed := disk.signed
  have far := refused.far
  omega

/-- Reading on in the file does not lead to where the kernel refuses. -/
theorem earlier {count : Nat} (fewer : count ≤ wanted)
    (inside : position + count ≤ disk.bytes.length)
    (refused :
      Refuses disk mode (position + count) (wanted - count) failure) :
    Refuses disk mode position wanted failure := by
  have fits := disk.fits
  obtain ⟨kind, far⟩ := refused
  refine ⟨kind, ?_⟩
  cases mode with
  | seekRead =>
      dsimp only at far ⊢
      omega
  | positionedRead =>
      dsimp only at far ⊢
      omega
  | mmapHybrid => exact far

end Refuses

@[simp]
theorem ensureHandle_resilient
    (isOpen : Bool) (name : String) (handles opened : Handles disk) :
    ensureHandle true isOpen name handles opened =
      .ok (if isOpen then handles else opened) := by
  rw [ensureHandle]
  split
  · rfl
  · rfl

theorem ensureAsyncOpen_resilient (handles : Handles disk) :
    ∃ handles' position, ensureAsyncOpen true handles = .ok handles' ∧
      handles'.asyncFile = some position := by
  rw [ensureAsyncOpen, ensureHandle_resilient]
  cases opened : handles.asyncFile with
  | none => exact ⟨_, 0, rfl, rfl⟩
  | some position => exact ⟨_, position, rfl, opened⟩

theorem ensureSyncOpen_resilient (handles : Handles disk) :
    ∃ handles', ensureSyncOpen true handles = .ok handles' ∧
      handles'.syncFile = true := by
  rw [ensureSyncOpen, ensureHandle_resilient]
  cases opened : handles.syncFile with
  | false => exact ⟨_, rfl, rfl⟩
  | true => exact ⟨_, rfl, opened⟩

theorem ensureMmapOpen_resilient
    (reader : SstableFileReader) (sysconf : Int64) (handles : Handles disk) :
    ∃ handles' state,
      reader.ensureMmapOpen sysconf true handles = .ok handles' ∧
        handles'.mmapReader = some state := by
  rw [ensureMmapOpen, ensureHandle_resilient]
  cases opened : handles.mmapReader with
  | none => exact ⟨_, _, rfl, rfl⟩
  | some state => exact ⟨_, state, rfl, opened⟩

section

variable (reader : SstableFileReader) (calls : ReadCalls disk) (call : Nat)
  (handles : Handles disk) (offset : Nat) {length : Nat}

theorem readAt_answers (wantsSome : length ≠ 0) :
    (∃ bytes, (reader.readAt calls call handles offset length).1 =
        .ok bytes ∧ ExactRead.IsChunk disk.bytes offset length bytes) ∨
      ∃ failure, (reader.readAt calls call handles offset length).1 =
        .error failure ∧ Refuses disk reader.mode offset length failure := by
  rw [readAt, if_neg wantsSome, ensureOpen]
  cases mode : reader.mode with
  | seekRead =>
      obtain ⟨handles', position, opened, isOpen⟩ :=
        ensureAsyncOpen_resilient handles
      simp only [opened, isOpen]
      rw [DiskFile.seek]
      by_cases far : disk.maxBytes < offset
      · rw [if_pos far]
        exact .inr ⟨_, rfl, rfl, .inl far⟩
      · rw [if_neg far]
        have asks : min length (max 1 calls.buffered) ≠ 0 := by omega
        rcases disk.readAt_answers (calls.counts call) offset asks
          (Nat.min_le_left _ _) with ⟨bytes, found, chunk⟩ | ⟨refused, beyond⟩
        · simp only [found]
          exact .inl ⟨bytes, rfl, chunk⟩
        · simp only [refused]
          exact .inr ⟨_, rfl, rfl, .inr beyond⟩
  | positionedRead =>
      obtain ⟨handles', opened, isOpen⟩ := ensureSyncOpen_resilient handles
      simp only [opened, isOpen, if_true]
      rcases disk.readAt_answers (calls.counts call) offset wantsSome
        (Nat.le_refl length) with ⟨bytes, found, chunk⟩ | ⟨refused, beyond⟩
      · rw [found]
        exact .inl ⟨bytes, rfl, chunk⟩
      · rw [refused]
        exact .inr ⟨_, rfl, rfl, beyond⟩
  | mmapHybrid =>
      obtain ⟨handles', state, opened, isOpen⟩ :=
        ensureMmapOpen_resilient reader calls.sysconf handles
      simp only [opened, isOpen]
      rw [state.readAt_eq]
      have all : min ((disk.bytes.drop offset).take length).length length =
          ((disk.bytes.drop offset).take length).length :=
        Nat.min_eq_left (List.length_take_le _ _)
      refine .inl ⟨_, rfl, ?_⟩
      dsimp only
      rw [all, List.take_length]
      exact .of_take wantsSome (Nat.le_refl length)

end

theorem readAt_serves
    (reader : SstableFileReader) (calls : ReadCalls disk) :
    ExactRead.Serves disk.bytes
      (fun (state : Handles disk × Nat) position wanted =>
        ((reader.readAt calls state.2 state.1 position wanted).1,
          (reader.readAt calls state.2 state.1 position wanted).2,
          state.2 + 1))
      (Refuses disk reader.mode) where
  answers state position _ wantsSome :=
    readAt_answers reader calls state.2 state.1 position wantsSome
  beyond := Refuses.beyond
  earlier fewer inside _ := Refuses.earlier fewer inside

theorem readAtOnce_serves (counts : Nat → Nat) :
    ExactRead.Serves disk.bytes
      (fun call position wanted =>
        ((disk.readAt (counts call) position wanted).mapError ReadError.io,
          call + 1))
      (Refuses disk .positionedRead) where
  answers call position _ wantsSome := by
    rcases disk.readAt_answers (counts call) position wantsSome
      (Nat.le_refl _) with ⟨bytes, found, chunk⟩ | ⟨refused, beyond⟩
    · rw [found]
      exact .inl ⟨bytes, rfl, chunk⟩
    · rw [refused]
      exact .inr ⟨_, rfl, rfl, beyond⟩
  beyond := Refuses.beyond
  earlier fewer inside _ := Refuses.earlier fewer inside

end SstableFileReader

end F4kvsLsm
