import F4kvsLsm.Lib.Crc32
import F4kvsLsm.Lib.DoubleBuffer
import F4kvsLsm.Wal.IndexedWrites

/-!
# `wal.idx` byte by byte

The file is two slots of 4 KiB.  A commit stamps the header with the next
generation and a checksum and overwrites the slot of that generation's parity.
A reader takes the slot that passes its checks and has the higher generation.
-/

namespace F4kvsLsm

open ByteCodec DoubleBuffer

namespace WalIndexFile

/-- The bytes of `WIDX`. -/
def walIndexMagic : Bytes := [87, 73, 68, 88]

def walIndexVersion : UInt8 := 1

def walIndexSlotSize : Nat := 4096

def walIndexFileSize : Nat := walIndexSlotSize * 2

/-- `WalIndexHeader` with its machine integers and its checksum. -/
structure Header where
  generation : UInt64
  segmentId : UInt32
  frameSize : UInt32
  committedFrame : UInt32
  committedOffset : UInt32
  entryCount : UInt64
  checksum : UInt32
  deriving DecidableEq

namespace Header

/-- What the hasher is given. -/
def checked (header : Header) : Bytes :=
  walIndexMagic ++ [walIndexVersion] ++
    toLeBytes 8 header.generation.toNat ++
    toLeBytes 4 header.segmentId.toNat ++
    toLeBytes 4 header.frameSize.toNat ++
    toLeBytes 4 header.committedFrame.toNat ++
    toLeBytes 4 header.committedOffset.toNat ++
    toLeBytes 8 header.entryCount.toNat

def computeChecksum (header : Header) : UInt32 :=
  crc32 header.checked

def new (segmentId frameSize : UInt32) : Header :=
  let header : Header := ⟨0, segmentId, frameSize, 0, 0, 0, 0⟩
  { header with checksum := header.computeChecksum }

def verify (header : Header) : Bool :=
  header.checksum = header.computeChecksum

/-- The slot; bytes 5 to 8 and everything behind the checksum are zero. -/
def toSlotBytes (header : Header) : Bytes :=
  (walIndexMagic ++ [walIndexVersion, 0, 0, 0]) ++
    (toLeBytes 8 header.generation.toNat ++
    (toLeBytes 4 header.segmentId.toNat ++
    (toLeBytes 4 header.frameSize.toNat ++
    (toLeBytes 4 header.committedFrame.toNat ++
    (toLeBytes 4 header.committedOffset.toNat ++
    (toLeBytes 8 header.entryCount.toNat ++
    (toLeBytes 4 header.checksum.toNat ++
      List.replicate (walIndexSlotSize - 44) 0)))))))

/-- The integer in the bytes from `start` on. -/
def field (slot : Bytes) (start width : Nat) : Nat :=
  fromLeBytes ((slot.drop start).take width)

/-- The fields of a slot as they stand there. -/
def ofFields (slot : Bytes) : Header :=
  { generation := UInt64.ofNat (field slot 8 8)
    segmentId := UInt32.ofNat (field slot 16 4)
    frameSize := UInt32.ofNat (field slot 20 4)
    committedFrame := UInt32.ofNat (field slot 24 4)
    committedOffset := UInt32.ofNat (field slot 28 4)
    entryCount := UInt64.ofNat (field slot 32 8)
    checksum := UInt32.ofNat (field slot 40 4) }

def fromSlotBytes (slot : Bytes) : Except LsmError Header :=
  if slot.length < 44 then .error (.corruption "wal.idx slot too small")
  else if slot.take 4 ≠ walIndexMagic then
    .error (.corruption "wal.idx bad magic")
  else if slot.getD 4 0 ≠ walIndexVersion then
    .error (.corruption
      ("wal.idx unsupported version " ++ toString (slot.getD 4 0)))
  else if ¬ (ofFields slot).verify then
    .error (.corruption "wal.idx checksum mismatch")
  else .ok (ofFields slot)

end Header

/-- The open index file with its bytes on disk. -/
structure IndexFile where
  file : Bytes
  latest : Header

/-- The slot of a generation's parity. -/
def slotAt (file : Bytes) (n : Nat) : Bytes :=
  (file.drop (n % 2 * walIndexSlotSize)).take walIndexSlotSize

/-- `seek` and `write_all`. -/
def writeAt (file : Bytes) (offset : Nat) (bytes : Bytes) : Bytes :=
  file.take offset ++ bytes ++ file.drop (offset + bytes.length)

/-- A slot without the magic is no candidate. -/
def candidate (slot : Bytes) : Option Header :=
  if slot.take 4 = walIndexMagic then
    match Header.fromSlotBytes slot with
    | .ok header => some header
    | .error _ => none
  else none

/-- What the two slots read as. -/
def decoded (file : Bytes) : Buffer Header :=
  ⟨candidate (slotAt file 0), candidate (slotAt file 1)⟩

/-- `read_latest`: `max_by_key` keeps the last of equal generations. -/
def readLatest (file : Bytes) : Except LsmError Header :=
  if file.length < walIndexFileSize then .error (.io "early eof")
  else
    match (decoded file).latest (fun header => header.generation.toNat) with
    | some header => .ok header
    | none => .error (.corruption "wal.idx has no valid slot")

/-- `set_len` of a file that is too short. -/
def extendFile (file : Bytes) : Bytes :=
  if file.length < walIndexFileSize then
    file ++ List.replicate (walIndexFileSize - file.length) 0
  else file

/-- `WalIndexFile::open`; `none` is a file that does not exist. -/
def openFile (disk : Option Bytes) (segmentId frameSize : UInt32) :
    IndexFile :=
  let file := extendFile (disk.getD [])
  { file := file
    latest :=
      match readLatest file with
      | .ok header => header
      | .error _ => Header.new segmentId frameSize }

/-- `saturating_add(1)`. -/
def nextGeneration (generation : UInt64) : UInt64 :=
  if generation.toNat + 1 < 2 ^ 64 then generation + 1 else generation

/-- The header as `write_slot` writes it. -/
def stamped (index : IndexFile) (header : Header) : Header :=
  let header :=
    { header with generation := nextGeneration index.latest.generation }
  { header with checksum := header.computeChecksum }

/-- `write_slot`, the whole of `commit` and `commit_volatile` but for the
sync. -/
def writeSlot (index : IndexFile) (header : Header) : IndexFile :=
  let header := stamped index header
  let slot := header.generation.toNat % 2
  { file := writeAt index.file (slot * walIndexSlotSize) header.toSlotBytes
    latest := header }

namespace Header

theorem toSlotBytes_length (header : Header) :
    header.toSlotBytes.length = walIndexSlotSize := by
  simp only [toSlotBytes, walIndexMagic, walIndexSlotSize, List.length_append,
    List.length_cons, List.length_nil, toLeBytes_length, List.length_replicate]

theorem field_of_append
    {front rest : Bytes} {start width n : Nat} (start_eq : front.length = start)
    (fits : n < 256 ^ width) :
    field (front ++ (toLeBytes width n ++ rest)) start width = n := by
  have taken : (toLeBytes width n ++ rest).take width = toLeBytes width n := by
    rw [List.take_append_of_le_length (by simp), List.take_of_length_le
      (by simp)]
  rw [field, ← start_eq, List.drop_left, taken, fromLeBytes_toLeBytes fits]

theorem ofFields_toSlotBytes (header : Header) :
    ofFields header.toSlotBytes = header := by
  have generation : field header.toSlotBytes 8 8 =
      header.generation.toNat :=
    field_of_append rfl header.generation.toNat_lt
  have segmentId : field header.toSlotBytes 16 4 =
      header.segmentId.toNat := by
    rw [toSlotBytes, ← List.append_assoc]
    exact field_of_append (by simp [walIndexMagic]) header.segmentId.toNat_lt
  have frameSize : field header.toSlotBytes 20 4 =
      header.frameSize.toNat := by
    rw [toSlotBytes, ← List.append_assoc, ← List.append_assoc]
    exact field_of_append (by simp [walIndexMagic]) header.frameSize.toNat_lt
  have committedFrame : field header.toSlotBytes 24 4 =
      header.committedFrame.toNat := by
    rw [toSlotBytes, ← List.append_assoc, ← List.append_assoc,
      ← List.append_assoc]
    exact field_of_append (by simp [walIndexMagic])
      header.committedFrame.toNat_lt
  have committedOffset : field header.toSlotBytes 28 4 =
      header.committedOffset.toNat := by
    rw [toSlotBytes, ← List.append_assoc, ← List.append_assoc,
      ← List.append_assoc, ← List.append_assoc]
    exact field_of_append (by simp [walIndexMagic])
      header.committedOffset.toNat_lt
  have entryCount : field header.toSlotBytes 32 8 =
      header.entryCount.toNat := by
    rw [toSlotBytes, ← List.append_assoc, ← List.append_assoc,
      ← List.append_assoc, ← List.append_assoc, ← List.append_assoc]
    exact field_of_append (by simp [walIndexMagic])
      header.entryCount.toNat_lt
  have checksum : field header.toSlotBytes 40 4 =
      header.checksum.toNat := by
    rw [toSlotBytes, ← List.append_assoc, ← List.append_assoc,
      ← List.append_assoc, ← List.append_assoc, ← List.append_assoc,
      ← List.append_assoc]
    exact field_of_append (by simp [walIndexMagic]) header.checksum.toNat_lt
  rw [ofFields, generation, segmentId, frameSize, committedFrame,
    committedOffset, entryCount, checksum]
  simp only [UInt64.ofNat_toNat, UInt32.ofNat_toNat]

theorem take_toSlotBytes (header : Header) :
    header.toSlotBytes.take 4 = walIndexMagic := rfl

theorem fromSlotBytes_toSlotBytes
    {header : Header} (verified : header.verify = true) :
    fromSlotBytes header.toSlotBytes = .ok header := by
  have long : ¬ header.toSlotBytes.length < 44 := by
    rw [toSlotBytes_length, walIndexSlotSize]
    omega
  have version : header.toSlotBytes.getD 4 0 = walIndexVersion := rfl
  rw [fromSlotBytes, if_neg long, if_neg (not_not.mpr header.take_toSlotBytes),
    if_neg (not_not.mpr version), ofFields_toSlotBytes,
    if_neg (not_not.mpr verified)]

end Header

theorem candidate_toSlotBytes
    {header : Header} (verified : header.verify = true) :
    candidate header.toSlotBytes = some header := by
  rw [candidate, if_pos header.take_toSlotBytes,
    Header.fromSlotBytes_toSlotBytes verified]

/-! ## Writing a slot -/

section

variable {file bytes : Bytes} {n : Nat}

theorem writeAt_length
    (whole : file.length = walIndexFileSize)
    (short : bytes.length ≤ walIndexSlotSize) :
    (writeAt file (n % 2 * walIndexSlotSize) bytes).length =
      walIndexFileSize := by
  have parity : n % 2 < 2 := Nat.mod_lt n (by decide)
  simp only [writeAt, List.length_append, List.length_take,
    List.length_drop, walIndexFileSize, walIndexSlotSize] at *
  omega

/-- The written slot: the new bytes over the old ones. -/
theorem slotAt_writeAt_self
    (whole : file.length = walIndexFileSize)
    (short : bytes.length ≤ walIndexSlotSize) :
    slotAt (writeAt file (n % 2 * walIndexSlotSize) bytes) n =
      bytes ++ (slotAt file n).drop bytes.length := by
  have parity : n % 2 < 2 := Nat.mod_lt n (by decide)
  have start : (file.take (n % 2 * walIndexSlotSize)).length =
      n % 2 * walIndexSlotSize := by
    simp only [List.length_take, walIndexFileSize, walIndexSlotSize] at *
    omega
  rw [slotAt, writeAt, List.append_assoc]
  nth_rewrite 1 [← start]
  rw [List.drop_left, List.take_append, List.take_of_length_le short,
    slotAt, List.drop_take, List.drop_drop]

/-- The other slot is left alone. -/
theorem slotAt_writeAt_succ
    (whole : file.length = walIndexFileSize)
    (short : bytes.length ≤ walIndexSlotSize) :
    slotAt (writeAt file (n % 2 * walIndexSlotSize) bytes) (n + 1) =
      slotAt file (n + 1) := by
  rcases Nat.mod_two_eq_zero_or_one n with even | odd
  · have other : (n + 1) % 2 = 1 := by omega
    have behind : bytes.length + (walIndexSlotSize - bytes.length) =
        walIndexSlotSize := by omega
    rw [slotAt, slotAt, writeAt, even, other, Nat.zero_mul, Nat.one_mul,
      List.take_zero, List.nil_append, Nat.zero_add, List.drop_append,
      List.drop_of_length_le short, List.nil_append, List.drop_drop, behind]
  · have other : (n + 1) % 2 = 0 := by omega
    have front : (file.take walIndexSlotSize).length = walIndexSlotSize := by
      simp only [List.length_take, walIndexFileSize, walIndexSlotSize] at *
      omega
    rw [slotAt, slotAt, writeAt, odd, other, Nat.zero_mul, Nat.one_mul,
      List.drop_zero, List.drop_zero, List.append_assoc]
    nth_rewrite 1 [← front]
    exact List.take_left

end

/-! ## The file as a double buffer -/

/-- The stamp of the double buffer. -/
def stamp (header : Header) : Nat := header.generation.toNat

theorem decoded_writeAt
    {file bytes : Bytes} (whole : file.length = walIndexFileSize)
    (short : bytes.length ≤ walIndexSlotSize) (n : Nat) :
    decoded (writeAt file (n % 2 * walIndexSlotSize) bytes) =
      (decoded file).put n
        (candidate (bytes ++ (slotAt file n).drop bytes.length)) := by
  have written := slotAt_writeAt_self (n := n) whole short
  have other := slotAt_writeAt_succ (n := n) whole short
  rcases Nat.mod_two_eq_zero_or_one n with even | odd
  · have next : (n + 1) % 2 = 1 := by omega
    have here : ∀ file, slotAt file n = slotAt file 0 := by
      intro file
      rw [slotAt, slotAt, even]
    have there : ∀ file, slotAt file (n + 1) = slotAt file 1 := by
      intro file
      rw [slotAt, slotAt, next]
    rw [here] at written
    rw [there, there] at other
    simp only [decoded, Buffer.put, even, if_true] at written other ⊢
    rw [written, other]
  · have next : (n + 1) % 2 = 0 := by omega
    have here : ∀ file, slotAt file n = slotAt file 1 := by
      intro file
      rw [slotAt, slotAt, odd]
    have there : ∀ file, slotAt file (n + 1) = slotAt file 0 := by
      intro file
      rw [slotAt, slotAt, next]
    rw [here] at written
    rw [there, there] at other
    have notEven : ¬ (1 : Nat) = 0 := by decide
    simp only [decoded, Buffer.put, odd, if_neg notEven] at written other ⊢
    rw [written, other]

theorem stamped_verify (index : IndexFile) (header : Header) :
    (stamped index header).verify = true :=
  decide_eq_true rfl

theorem stamped_next
    {index : IndexFile} (header : Header)
    (below : index.latest.generation.toNat + 1 < 2 ^ 64) :
    stamp (stamped index header) = stamp index.latest + 1 := by
  have sum : (index.latest.generation + 1).toNat =
      index.latest.generation.toNat + 1 := by
    rw [UInt64.toNat_add]
    exact Nat.mod_eq_of_lt below
  simp only [stamp, stamped, nextGeneration, if_pos below]
  exact sum

/-- At the last generation there is no next one. -/
theorem stamped_saturated
    {index : IndexFile} (header : Header)
    (top : ¬ index.latest.generation.toNat + 1 < 2 ^ 64) :
    stamp (stamped index header) = stamp index.latest := by
  simp only [stamp, stamped, nextGeneration, if_neg top]

theorem readLatest_of_holds
    {file : Bytes} (whole : file.length = walIndexFileSize) {last : Header}
    (holds : (decoded file).Holds stamp last) :
    readLatest file = .ok last := by
  have found : (decoded file).latest
      (fun header => header.generation.toNat) = some last :=
    holds.latest_eq
  rw [readLatest, if_neg (by omega), found]

/-- The open file after the commits of `history`. -/
structure Committed (index : IndexFile) (history : List Header) : Prop where
  whole : index.file.length = walIndexFileSize
  blank : history = [] →
    decoded index.file = ⟨none, none⟩ ∧ index.latest.generation = 0
  latest : ∀ last, history.getLast? = some last →
    index.latest = last ∧ (decoded index.file).Holds stamp last

section

variable {index : IndexFile} {history : List Header}

theorem decoded_writeSlot
    (whole : index.file.length = walIndexFileSize) (header : Header) :
    decoded (writeSlot index header).file =
      (decoded index.file).put (stamp (stamped index header))
        (some (stamped index header)) := by
  have full := (stamped index header).toSlotBytes_length
  have behind : ((slotAt index.file (stamp (stamped index header))).drop
      walIndexSlotSize) = [] := by
    apply List.drop_of_length_le
    exact List.length_take_le _ _
  have written := decoded_writeAt whole (Nat.le_of_eq full)
    (stamp (stamped index header))
  rw [full, behind, List.append_nil,
    candidate_toSlotBytes (stamped_verify index header)] at written
  exact written

/-- A commit is what counts from then on. -/
theorem Committed.writeSlot
    (committed : Committed index history) (header : Header) :
    Committed (writeSlot index header)
      (history ++ [stamped index header]) := by
  refine ⟨?_, by simp, ?_⟩
  · exact writeAt_length committed.whole
      (Nat.le_of_eq (stamped index header).toSlotBytes_length)
  · intro last found
    rw [List.getLast?_append, List.getLast?_singleton, Option.some_or,
      Option.some.injEq] at found
    subst found
    refine ⟨rfl, ?_⟩
    rw [decoded_writeSlot committed.whole]
    cases previous : history.getLast? with
    | none =>
        have nothing := List.getLast?_eq_none_iff.mp previous
        rw [(committed.blank nothing).1]
        exact Buffer.holds_first _
    | some latest =>
        obtain ⟨same, holds⟩ := committed.latest latest previous
        subst same
        by_cases below : index.latest.generation.toNat + 1 < 2 ^ 64
        · exact holds.next (stamped_next header below)
        · exact holds.again (stamped_saturated header below)

theorem extendFile_whole
    {file : Bytes} (whole : file.length = walIndexFileSize) :
    extendFile file = file := by
  rw [extendFile, if_neg (by omega)]

theorem readLatest_blank
    {file : Bytes} (whole : file.length = walIndexFileSize)
    (blank : decoded file = ⟨none, none⟩) :
    readLatest file = .error (.corruption "wal.idx has no valid slot") := by
  rw [readLatest, if_neg (by omega), blank]
  rfl

/-- Opening the file again finds the last commit, whatever it is opened
with. -/
theorem Committed.reopen
    (committed : Committed index history) (segmentId frameSize : UInt32) :
    Committed (openFile (some index.file) segmentId frameSize) history := by
  have same := extendFile_whole committed.whole
  refine ⟨?_, ?_, ?_⟩
  · simp only [openFile, Option.getD_some, same]
    exact committed.whole
  · intro nothing
    have blank := (committed.blank nothing).1
    simp only [openFile, Option.getD_some, same,
      readLatest_blank committed.whole blank]
    exact ⟨blank, rfl⟩
  · intro last found
    obtain ⟨-, holds⟩ := committed.latest last found
    simp only [openFile, Option.getD_some, same,
      readLatest_of_holds committed.whole holds]
    exact ⟨trivial, holds⟩

end

inductive IndexCall where
  | commit (header : Header)
  | commitVolatile (header : Header)
  | reopen (segmentId frameSize : UInt32)

/-- One call; the list holds the headers as they were written. -/
def call (state : IndexFile × List Header) :
    IndexCall → IndexFile × List Header
  | .commit header =>
      (writeSlot state.1 header, state.2 ++ [stamped state.1 header])
  | .commitVolatile header =>
      (writeSlot state.1 header, state.2 ++ [stamped state.1 header])
  | .reopen segmentId frameSize =>
      (openFile (some state.1.file) segmentId frameSize, state.2)

/-- Calls on a new file. -/
def run (segmentId frameSize : UInt32) (calls : List IndexCall) :
    IndexFile × List Header :=
  calls.foldl call (openFile none segmentId frameSize, [])

/-- The first `cut` bytes of the new slot over the old one. -/
def mixed (old new : Bytes) (cut : Nat) : Bytes :=
  new.take cut ++ old.drop (new.take cut).length

/-- The header without its checksum, in natural numbers. -/
def Header.plain (header : Header) : WalIndexHeader :=
  { generation := header.generation.toNat
    segmentId := header.segmentId.toNat
    frameSize := header.frameSize.toNat
    committedFrame := header.committedFrame.toNat
    committedOffset := header.committedOffset.toNat
    entryCount := header.entryCount.toNat }

def slots (file : Bytes) : IndexSlots :=
  ⟨(decoded file).even.map Header.plain,
    (decoded file).odd.map Header.plain⟩

theorem slots_readLatest (file : Bytes) :
    (slots file).readLatest =
      ((decoded file).latest stamp).map Header.plain := by
  cases even : (decoded file).even with
  | none =>
      cases odd : (decoded file).odd with
      | none => simp [slots, IndexSlots.readLatest, Buffer.latest,
          Buffer.candidates, even, odd]
      | some odd' => simp [slots, IndexSlots.readLatest, Buffer.latest,
          Buffer.candidates, even, odd, Versions.newest, Versions.keepNewer]
  | some even' =>
      cases odd : (decoded file).odd with
      | none => simp [slots, IndexSlots.readLatest, Buffer.latest,
          Buffer.candidates, even, odd, Versions.newest, Versions.keepNewer]
      | some odd' =>
          by_cases newer : stamp even' ≤ stamp odd'
          · have newer' : even'.plain.generation ≤ odd'.plain.generation :=
              newer
            simp [slots, IndexSlots.readLatest, Buffer.latest,
              Buffer.candidates, even, odd, Versions.newest,
              Versions.keepNewer, newer, newer']
          · have newer' : ¬ even'.plain.generation ≤ odd'.plain.generation :=
              newer
            simp [slots, IndexSlots.readLatest, Buffer.latest,
              Buffer.candidates, even, odd, Versions.newest,
              Versions.keepNewer, newer, newer']

theorem slots_writeSlot
    {index : IndexFile} (whole : index.file.length = walIndexFileSize)
    (header : Header)
    (below : index.latest.generation.toNat + 1 < 2 ^ 64) :
    (slots index.file).commit index.latest.plain header.plain =
      (slots (writeSlot index header).file,
        (writeSlot index header).latest.plain) := by
  have next : (stamped index header).generation.toNat =
      index.latest.generation.toNat + 1 := stamped_next header below
  have written := decoded_writeSlot whole header
  have plain : (stamped index header).plain =
      { header.plain with
        generation := index.latest.generation.toNat + 1 } := by
    rw [← next]
    rfl
  have latest : (writeSlot index header).latest = stamped index header := rfl
  have before : index.latest.plain.generation =
      index.latest.generation.toNat := rfl
  by_cases even : (index.latest.generation.toNat + 1) % 2 = 0
  · have parity : stamp (stamped index header) % 2 = 0 := by
      rw [stamp, next]
      exact even
    simp only [IndexSlots.commit, slots, written, latest, Buffer.put, plain,
      before, even, parity, if_true, Option.map_some]
  · have parity : ¬ stamp (stamped index header) % 2 = 0 := by
      rw [stamp, next]
      exact even
    simp only [IndexSlots.commit, slots, written, latest, Buffer.put, plain,
      before, even, parity, if_false, Option.map_some]

end WalIndexFile

end F4kvsLsm
