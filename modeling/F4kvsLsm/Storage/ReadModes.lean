import F4kvsLsm.Storage.FileReader
import F4kvsLsm.Storage.SstableFile

/-!
# Read modes

Exact reads give the same in every mode, whatever is mapped and marked and
however short the reads are.  The modes differ only in the error for offsets
that no file can have.
-/

namespace F4kvsLsm

open ByteCodec

namespace SstableFileReader

variable {disk : DiskFile}

/-- What an exact read is for: the bytes of the range, or the end of the
file. -/
def exactBytes (disk : DiskFile) (offset length : Nat) :
    Except ReadError Bytes :=
  if length = 0 ∨ offset + length ≤ disk.bytes.length then
    .ok ((disk.bytes.drop offset).take length)
  else .error (eofWhileReading length offset)

/-- The kernel takes the offset and every offset of the range. -/
def Addressable (disk : DiskFile) (offset length : Nat) : Prop :=
  offset ≤ disk.maxBytes ∧ offset + length < 2 ^ 63

theorem Refuses.not_addressable
    {mode : SstableReadMode} {offset length : Nat} {failure : ReadError}
    (refused : Refuses disk mode offset length failure) :
    ¬ Addressable disk offset length := by
  rintro ⟨near, signed⟩
  have far := refused.far
  omega

/-- A result is the exact one, or the kernel refused a read of this mode. -/
def Settles (disk : DiskFile) (mode : SstableReadMode) (offset length : Nat)
    (result : Except ReadError Bytes) : Prop :=
  result = exactBytes disk offset length ∨
    length ≠ 0 ∧ ∃ failure,
      result = .error failure ∧ Refuses disk mode offset length failure

namespace Settles

variable {mode : SstableReadMode} {offset length : Nat}
  {result : Except ReadError Bytes}

theorem eq_exactBytes (settles : Settles disk mode offset length result)
    (accepted : Addressable disk offset length ∨ mode = .mmapHybrid) :
    result = exactBytes disk offset length := by
  rcases settles with exact | ⟨-, failure, -, refused⟩
  · exact exact
  · rcases accepted with addressable | rfl
    · exact absurd addressable refused.not_addressable
    · exact refused.2.elim

theorem of_within (settles : Settles disk mode offset length result)
    (within : length = 0 ∨ offset + length ≤ disk.bytes.length) :
    result = .ok ((disk.bytes.drop offset).take length) := by
  rcases settles with exact | ⟨wantsSome, failure, -, refused⟩
  · rw [exact, exactBytes, if_pos within]
  · have inside := within.resolve_left wantsSome
    have beyond := refused.beyond
    omega

theorem of_beyond (settles : Settles disk mode offset length result)
    (wantsSome : length ≠ 0)
    (beyond : disk.bytes.length < offset + length) :
    (Addressable disk offset length ∨ mode = .mmapHybrid →
      result = .error (eofWhileReading length offset)) ∧
    (result = .error (eofWhileReading length offset) ∨
      result = .error (.io .invalidArgument)) := by
  have ends : exactBytes disk offset length =
      .error (eofWhileReading length offset) :=
    if_neg (not_or.mpr ⟨wantsSome, by omega⟩)
  constructor
  · intro accepted
    rw [settles.eq_exactBytes accepted, ends]
  · rcases settles with exact | ⟨-, failure, failed, rfl, -⟩
    · exact .inl (exact.trans ends)
    · exact .inr failed

end Settles

theorem readExactAt_settles
    (reader : SstableFileReader) (calls : ReadCalls disk)
    (handles : Handles disk) (offset length : Nat) :
    Settles disk reader.mode offset length
      (reader.readExactAt calls handles offset length).1 :=
  ExactRead.readExact_eq_or_refused (readAt_serves reader calls) (handles, 0)
    offset length

theorem readExactAtBlocking_settles
    (counts : Nat → Nat) (handles : Handles disk) (offset length : Nat) :
    Settles disk .positionedRead offset length
      (readExactAtBlocking counts handles offset length).1 := by
  obtain ⟨handles', opened, isOpen⟩ := ensureSyncOpen_resilient handles
  simp only [readExactAtBlocking, opened, isOpen, if_true]
  exact ExactRead.readExact_eq_or_refused (readAtOnce_serves counts) 0 offset
    length

/-- The reads are what lookups assume of them. -/
theorem readExactAt_refines
    (reader : SstableFileReader) (calls : ReadCalls disk)
    (handles : Handles disk) (offset : UInt64) (length : Nat)
    (addressable : Addressable disk offset.toNat length) :
    (reader.readExactAt calls handles offset.toNat length).1.mapError
        ReadError.toLsmError =
      F4kvsLsm.readExactAt disk.bytes offset length := by
  rw [(readExactAt_settles reader calls handles offset.toNat
    length).eq_exactBytes (.inl addressable), exactBytes,
    F4kvsLsm.readExactAt]
  split
  · rfl
  · rfl

/-- Every mode and the blocking read return the bytes of a range that is empty
or lies in the file, and fail on all others: with the end of the file, unless
the kernel refuses the offset.  The mapping takes every offset. -/
theorem read_modes_agree
    (disk : DiskFile) (reader : SstableFileReader) (calls : ReadCalls disk)
    (handles : Handles disk) (offset length : Nat) :
    let read := (reader.readExactAt calls handles offset length).1
    let blocking :=
      (readExactAtBlocking calls.counts handles offset length).1
    let eof := Except.error (eofWhileReading length offset)
    let refused := Except.error (.io .invalidArgument)
    (length = 0 ∨ offset + length ≤ disk.bytes.length →
      read = .ok ((disk.bytes.drop offset).take length) ∧
        blocking = .ok ((disk.bytes.drop offset).take length)) ∧
    (length ≠ 0 → disk.bytes.length < offset + length →
      (Addressable disk offset length → read = eof ∧ blocking = eof) ∧
      (reader.mode = .mmapHybrid → read = eof) ∧
      (read = eof ∨ read = refused) ∧
      (blocking = eof ∨ blocking = refused)) := by
  have settles := readExactAt_settles reader calls handles offset length
  have settles' :=
    readExactAtBlocking_settles calls.counts handles offset length
  refine ⟨fun within => ⟨settles.of_within within, settles'.of_within within⟩,
    fun wantsSome beyond => ?_⟩
  obtain ⟨ended, failed⟩ := settles.of_beyond wantsSome beyond
  obtain ⟨ended', failed'⟩ := settles'.of_beyond wantsSome beyond
  exact ⟨fun addressable =>
      ⟨ended (.inl addressable), ended' (.inl addressable)⟩,
    fun hybrid => ended (.inr hybrid), failed, failed'⟩

/-- A file on a file system with files of up to 16 TiB. -/
def smallFile (bytes : Bytes) (small : bytes.length ≤ 2 ^ 44) : DiskFile where
  bytes := bytes
  maxBytes := 2 ^ 44
  fits := small
  signed := by decide

/-- The letters from `a` to `j`. -/
def tenLetters : DiskFile :=
  smallFile [97, 98, 99, 100, 101, 102, 103, 104, 105, 106] (by decide)

def emptyFile : DiskFile :=
  smallFile [] (by decide)

def noHandles (disk : DiskFile) : Handles disk where
  asyncFile := none
  syncFile := false
  mmapReader := none

/-- Every system call gives one byte, and no page is in memory. -/
def byteCalls (disk : DiskFile) : ReadCalls disk where
  sysconf := 4096
  counts _ := 1
  buffered := 2 ^ 21
  hybrid _ :=
    { first := { now := 1700000000, mincore := fun _ => false }
      second := { now := 1700000000, mincore := fun _ => false }
      counts := fun _ => 1
      others := fun _ state => state }

theorem four_letters_in_seek_mode :
    ((⟨.seekRead, 60⟩ : SstableFileReader).readExactAt (byteCalls tenLetters)
        (noHandles tenLetters) 3 4).1 = .ok [100, 101, 102, 103] ∧
      ((⟨.seekRead, 60⟩ : SstableFileReader).readExactAt
        (byteCalls tenLetters) (noHandles tenLetters) 8 4).1 =
          .error (eofWhileReading 4 8) :=
  ⟨((read_modes_agree tenLetters ⟨.seekRead, 60⟩ (byteCalls tenLetters)
      (noHandles tenLetters) 3 4).1 (.inr (by decide))).1,
    (((read_modes_agree tenLetters ⟨.seekRead, 60⟩ (byteCalls tenLetters)
      (noHandles tenLetters) 8 4).2 (by decide) (by decide)).1
        ⟨by decide, by decide⟩).1⟩

/-- An empty range is read behind the end of the file in every mode, and an
offset that no file can have gives another error where `pread` is called. -/
theorem empty_range_behind_end :
    emptyFile.bytes.length < 1 + 0 ∧
      ((⟨.mmapHybrid, 60⟩ : SstableFileReader).readExactAt
        (byteCalls emptyFile) (noHandles emptyFile) 1 0).1 = .ok [] ∧
      ((⟨.positionedRead, 60⟩ : SstableFileReader).readExactAt
        (byteCalls emptyFile) (noHandles emptyFile) 1 0).1 = .ok [] ∧
      ((⟨.seekRead, 60⟩ : SstableFileReader).readExactAt
        (byteCalls emptyFile) (noHandles emptyFile) 1 0).1 = .ok [] ∧
      (readExactAtBlocking (byteCalls emptyFile).counts
        (noHandles emptyFile) 1 0).1 = .ok [] ∧
      ((⟨.mmapHybrid, 60⟩ : SstableFileReader).readExactAt
        (byteCalls emptyFile) (noHandles emptyFile) (2 ^ 63) 1).1 =
          .error (eofWhileReading 1 (2 ^ 63)) ∧
      ((⟨.positionedRead, 60⟩ : SstableFileReader).readExactAt
        (byteCalls emptyFile) (noHandles emptyFile) (2 ^ 63) 1).1 =
          .error (.io .invalidArgument) :=
  ⟨by decide, rfl, rfl, rfl, rfl, rfl, rfl⟩

end SstableFileReader

end F4kvsLsm
