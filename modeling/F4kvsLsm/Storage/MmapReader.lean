import Mathlib.Algebra.Order.Floor.Div
import F4kvsLsm.Lib.ExactRead
import F4kvsLsm.Lib.Framing

/-!
# Hybrid reader

A table file is copied from a memory mapping if the kernel says that all its
pages are in memory, and read with system calls otherwise.  Answers of
`mincore` are kept in a bit a page until they expire.  Offsets are natural
numbers: those at which something is read lie in the file.
-/

namespace F4kvsLsm

open ByteCodec

/-! ## Files -/

/-- An I/O error by its kind, with its text. -/
inductive IoError where
  | unexpectedEof (message : String)
  | invalidInput (message : String)
  deriving DecidableEq, Repr

namespace IoError

/-- What the kernel answers to an offset that no file can have. -/
def invalidArgument : IoError :=
  .invalidInput "Invalid argument (os error 22)"

def eofWhileReading (length offset : Nat) : IoError :=
  .unexpectedEof ("Unexpected EOF while reading " ++ toString length ++
    " bytes at offset " ++ toString offset)

end IoError

/-- The content of a file that does not change, and the largest size that its
file system allows. -/
structure DiskFile where
  bytes : Bytes
  maxBytes : Nat
  fits : bytes.length ≤ maxBytes
  signed : maxBytes < 2 ^ 63

namespace DiskFile

/-- `pread`: at most `count` bytes, but one at least if one is there.  The
kernel refuses ranges that leave the signed offsets. -/
def readAt (disk : DiskFile) (count offset length : Nat) :
    Except IoError Bytes :=
  if 2 ^ 63 ≤ offset + length then .error .invalidArgument
  else .ok ((disk.bytes.drop offset).take (min length (max 1 count)))

/-- `lseek` to an offset from the start. -/
def seek (disk : DiskFile) (offset : Nat) : Except IoError Unit :=
  if disk.maxBytes < offset then .error .invalidArgument else .ok ()

end DiskFile

/-! ## State -/

section

variable (disk : DiskFile)

/-- The first `len` bytes of the file in memory. -/
structure MmapMapping where
  len : Nat
  bounded : len ≤ disk.bytes.length

structure MmapHybridState where
  pageSize : Nat
  mapping : Option (MmapMapping disk)
  mincoreBits : List UInt64
  mincoreNextCleanup : UInt64
  mincoreCacheTtlSecs : UInt64
  pageSize_pos : 0 < pageSize

/-- What one attempt to read the mapping learns: the time, and whether a page
is in memory. -/
structure Residency where
  now : UInt64
  mincore : Nat → Bool

/-- When other readers can change the state. -/
inductive Moment where
  | beforeRead
  | betweenLocks
  | duringRead

/-- What one read meets: both attempts on the mapping, the number of bytes
that each system call gives, and the changes by other readers. -/
structure Encounter where
  first : Residency
  second : Residency
  counts : Nat → Nat
  others : Moment → MmapHybridState disk → MmapHybridState disk

end

variable {disk : DiskFile}

namespace MmapMapping

def empty : MmapMapping disk where
  len := 0
  bounded := Nat.zero_le _

def map : MmapMapping disk where
  len := disk.bytes.length
  bounded := Nat.le_refl _

def slice (mapping : MmapMapping disk) : Bytes :=
  disk.bytes.take mapping.len

end MmapMapping

def pageSizeBytes (sysconf : Int64) : Nat :=
  if 0 < sysconf then sysconf.toInt.toNat else 4096

def pageWordCount (fileSize pageSize : Nat) : Nat :=
  fileSize ⌈/⌉ pageSize ⌈/⌉ 64

def pageIsResident (answer : Bool) (page : Bytes) : Bool :=
  if page.isEmpty then false else answer

/-- The bit of a page in its word. -/
def pageMask (pageIdx : Nat) : UInt64 :=
  1 <<< UInt64.ofNat (pageIdx % 64)

/-- The pages of `canFastReadViaMmap` from `off` on.  Each round takes one
unit of fuel and moves `off` by a page. -/
def fastPages (mincore : Nat → Bool) (data : Bytes) (pageSize stop : Nat) :
    Nat → Nat → Nat → List UInt64 → Bool × List UInt64
  | 0, _, _, bits => (true, bits)
  | fuel + 1, off, pageIdx, bits =>
      if off < stop then
        match bits[pageIdx / 64]? with
        | none => (false, bits)
        | some word =>
            if word &&& pageMask pageIdx = 0 then
              if data.length ≤ off then (false, bits)
              else if pageIsResident (mincore pageIdx) (data.drop off) then
                fastPages mincore data pageSize stop fuel (off + pageSize)
                  (pageIdx + 1)
                  (bits.set (pageIdx / 64) (word ||| pageMask pageIdx))
              else (false, bits)
            else
              fastPages mincore data pageSize stop fuel (off + pageSize)
                (pageIdx + 1) bits
      else (true, bits)

/-- The pages of `markPagesResident` from `off` on. -/
def markPages (pageSize stop : Nat) :
    Nat → Nat → Nat → List UInt64 → List UInt64
  | 0, _, _, bits => bits
  | fuel + 1, off, pageIdx, bits =>
      if off < stop then
        markPages pageSize stop fuel (off + pageSize) (pageIdx + 1)
          (bits.modify (pageIdx / 64) (· ||| pageMask pageIdx))
      else bits

namespace MmapHybridState

/-- The state of a reader that was opened; nothing is mapped yet. -/
def openFile (disk : DiskFile) (sysconf : Int64)
    (mincoreCacheTtlSecs : UInt64) : MmapHybridState disk where
  pageSize := pageSizeBytes sysconf
  mapping := none
  mincoreBits := List.replicate
    (pageWordCount disk.bytes.length (pageSizeBytes sysconf)) 0
  mincoreNextCleanup := 0
  mincoreCacheTtlSecs := mincoreCacheTtlSecs
  pageSize_pos := by
    rw [pageSizeBytes]
    split
    · case isTrue positive =>
        rw [Int64.lt_iff_toInt_lt, Int64.toInt_zero] at positive
        omega
    · decide

def fileSize (_state : MmapHybridState disk) : Nat :=
  disk.bytes.length

@[simp]
theorem fileSize_eq (state : MmapHybridState disk) :
    state.fileSize = disk.bytes.length :=
  rfl

variable (state : MmapHybridState disk)

def maybeCleanupMincoreCache (now : UInt64) : MmapHybridState disk :=
  if now ≤ state.mincoreNextCleanup then state
  else { state with
    mincoreNextCleanup := now + state.mincoreCacheTtlSecs
    mincoreBits := state.mincoreBits.map fun _ => 0 }

/-- Whether all pages of a range are in memory, as far as is known. -/
def canFastReadViaMmap (asked : Residency) (mapping : MmapMapping disk)
    (offset length : Nat) : Bool × MmapHybridState disk :=
  let state := state.maybeCleanupMincoreCache asked.now
  let stop := offset + length
  let off := offset - offset % state.pageSize
  let (resident, bits) := fastPages asked.mincore mapping.slice
    state.pageSize stop (stop - off) off (off / state.pageSize)
    state.mincoreBits
  (resident, { state with mincoreBits := bits })

def markPagesResident (offset length : Nat) : MmapHybridState disk :=
  let stop := offset + length
  let off := offset - offset % state.pageSize
  { state with
    mincoreBits := markPages state.pageSize stop (stop - off) off
      (off / state.pageSize) state.mincoreBits }

def ensureMapped : MmapHybridState disk :=
  match state.mapping with
  | some _ => state
  | none =>
      if state.fileSize = 0 then { state with mapping := some .empty }
      else { state with mapping := some .map }

/-! ## Reading -/

/-- The bytes of the range if they can be copied from the mapping. -/
def tryMmapRead (asked : Residency) (offset length : Nat) :
    Option Bytes × MmapHybridState disk :=
  match state.mapping with
  | none => (none, state)
  | some mapping =>
      match state.canFastReadViaMmap asked mapping offset length with
      | (false, state) => (none, state)
      | (true, state) =>
          let stop := offset + length
          if mapping.len < stop then (none, state)
          else (some ((mapping.slice.drop offset).take length), state)

/-- System calls until all bytes are there.  Unlike in the other loops, the
error names the offset of the call that gave nothing. -/
def readExactAtSync (disk : DiskFile) (counts : Nat → Nat)
    (offset length : Nat) : Except IoError Bytes :=
  (ExactRead.readExact
    (fun call position wanted =>
      (disk.readAt (counts call) position wanted, call + 1))
    (IoError.eofWhileReading length) 0 offset length).1

def readViaSyscall (met : Encounter disk) (offset length : Nat) :
    Except IoError Bytes × MmapHybridState disk :=
  match state.ensureMapped.tryMmapRead met.second offset length with
  | (some bytes, state) => (.ok bytes, state)
  | (none, state) =>
      let read := readExactAtSync disk met.counts offset length
      let state := met.others .duringRead state
      match read with
      | .error failure => (.error failure, state)
      | .ok bytes => (.ok bytes, state.markPagesResident offset length)

/-- Read up to `length` bytes at `offset`. -/
def readAt (met : Encounter disk) (offset length : Nat) :
    Except IoError Bytes × MmapHybridState disk :=
  if length = 0 then (.ok [], state)
  else
    let state := met.others .beforeRead state
    if state.fileSize ≤ offset then (.ok [], state)
    else
      let available := state.fileSize - offset
      let toRead := min length available
      match state.tryMmapRead met.first offset toRead with
      | (some bytes, state) => (.ok bytes, state)
      | (none, state) =>
          (met.others .betweenLocks state).readViaSyscall met offset toRead

/-! ## The bytes of a read -/

end MmapHybridState

/-- A system call for no more than the wanted bytes. -/
theorem DiskFile.readAt_answers
    (disk : DiskFile) (count position : Nat) {few wanted : Nat}
    (wantsSome : few ≠ 0) (fewer : few ≤ wanted) :
    (∃ bytes, disk.readAt count position few = .ok bytes ∧
      ExactRead.IsChunk disk.bytes position wanted bytes) ∨
    disk.readAt count position few = .error .invalidArgument ∧
      2 ^ 63 ≤ position + wanted := by
  rw [DiskFile.readAt]
  by_cases outside : 2 ^ 63 ≤ position + few
  · rw [if_pos outside]
    exact .inr ⟨rfl, by omega⟩
  · rw [if_neg outside]
    exact .inl ⟨_, rfl, .of_take (by omega) (by omega)⟩

/-- Only ranges that leave the signed offsets are refused. -/
def DiskFile.RefusesRange (position wanted : Nat) (failure : IoError) : Prop :=
  failure = .invalidArgument ∧ 2 ^ 63 ≤ position + wanted

theorem DiskFile.readAt_serves (disk : DiskFile) (counts : Nat → Nat) :
    ExactRead.Serves disk.bytes
      (fun call position wanted =>
        (disk.readAt (counts call) position wanted, call + 1))
      DiskFile.RefusesRange where
  answers call position wanted wantsSome := by
    rcases disk.readAt_answers (counts call) position wantsSome
      (Nat.le_refl wanted) with found | ⟨refused, far⟩
    · exact .inl found
    · exact .inr ⟨_, refused, rfl, far⟩
  beyond refused := by
    have fits := disk.fits
    have signed := disk.signed
    have far := refused.2
    omega
  earlier fewer _ _ refused := by
    have far := refused.2
    exact ⟨refused.1, by omega⟩

namespace MmapHybridState

theorem readExactAtSync_of_within
    (counts : Nat → Nat) {offset length : Nat}
    (within : offset + length ≤ disk.bytes.length) :
    readExactAtSync disk counts offset length =
      .ok ((disk.bytes.drop offset).take length) :=
  ExactRead.readLoop_of_within (disk.readAt_serves counts) _ _ _ _
    (Nat.le_refl length) (.inr within)

/-- What is copied from the mapping is what the file holds, whatever the bits
say of the pages. -/
theorem tryMmapRead_eq_some
    {state : MmapHybridState disk} {asked : Residency} {offset length : Nat}
    {bytes : Bytes}
    (copied : (state.tryMmapRead asked offset length).1 = some bytes) :
    bytes = (disk.bytes.drop offset).take length := by
  rw [tryMmapRead] at copied
  split at copied
  · cases copied
  · case h_2 mapping _ =>
      split at copied
      · cases copied
      · dsimp only at copied
        split at copied
        · cases copied
        · case isFalse inside =>
            cases copied
            rw [MmapMapping.slice, List.drop_take, List.take_take,
              Nat.min_eq_left (by omega)]

theorem readViaSyscall_of_within
    (state : MmapHybridState disk) (met : Encounter disk)
    {offset length : Nat} (within : offset + length ≤ disk.bytes.length) :
    (state.readViaSyscall met offset length).1 =
      .ok ((disk.bytes.drop offset).take length) := by
  rw [readViaSyscall]
  split
  · case h_1 bytes _ copied =>
      rw [tryMmapRead_eq_some (congrArg Prod.fst copied)]
  · rw [readExactAtSync_of_within met.counts within]

/-- A read is short only at the end of the file. -/
theorem readAt_eq
    (state : MmapHybridState disk) (met : Encounter disk)
    (offset length : Nat) :
    (state.readAt met offset length).1 =
      .ok ((disk.bytes.drop offset).take length) := by
  rw [readAt]
  by_cases nothing : length = 0
  · rw [if_pos nothing, nothing, List.take_zero]
  rw [if_neg nothing]
  dsimp only
  by_cases atEnd : (met.others .beforeRead state).fileSize ≤ offset
  · rw [if_pos atEnd]
    rw [fileSize_eq] at atEnd
    rw [List.drop_of_length_le atEnd, List.take_nil]
  rw [if_neg atEnd]
  rw [fileSize_eq] at atEnd ⊢
  have whole : (disk.bytes.drop offset).take
      (min length (disk.bytes.length - offset)) =
        (disk.bytes.drop offset).take length := by
    rw [← List.length_drop, List.take_eq_take_iff]
    omega
  split
  · case h_1 bytes _ copied =>
      rw [tryMmapRead_eq_some (congrArg Prod.fst copied), whole]
  · rw [readViaSyscall_of_within _ met (by omega), whole]

end MmapHybridState

end F4kvsLsm
