import Std.Data.TreeMap.Lemmas
import F4kvsLsm.Lib.Fallible
import F4kvsLsm.Lib.FallibleSearch
import F4kvsLsm.Lib.OrderedCode
import F4kvsLsm.Storage.Memtable
import F4kvsLsm.Storage.SstableFile

/-!
# The bytes of a table index

`FlatIndex` as it lies in memory and on disk: records one after the other, and
the offset of each record.  A lookup slices the records where the offsets
point; a slice out of range is a panic, which ends the call with an error of
its own.  An index whose records can all be read refines the list of its
records.
-/

namespace F4kvsLsm

open ByteCodec BinarySearch Fallible OrderedCode

/-! ## Keys as bytes -/

theorem strBytes_eq (s : String) :
    strBytes s = s.toList.flatMap String.utf8EncodeChar := by
  have encoded : s.toByteArray = s.toList.utf8Encode := by
    conv => lhs; rw [← String.ofList_toList (s := s)]
    exact String.toByteArray_ofList
  rw [strBytes, encoded, List.utf8Encode, List.data_toByteArray]

theorem strBytes_lt_iff {first second : String} :
    strBytes first < strBytes second ↔ first < second := by
  rw [strBytes_eq, strBytes_eq]
  exact utf8_keepsOrder.flatMap_lt_iff

theorem strBytes_inj {first second : String} :
    strBytes first = strBytes second ↔ first = second := by
  refine ⟨fun same => ?_, congrArg strBytes⟩
  have decoded := congrArg strFromBytes same
  simpa using decoded

/-! ## The index in memory -/

/-- A slice index out of range: the end of the range and the length of the
slice. -/
structure SlicePanic where
  stop : Nat
  length : Nat
  deriving DecidableEq, Repr

/-- `data[start..start + count]` -/
def sliceBytes (data : Bytes) (start count : Nat) :
    Except SlicePanic Bytes :=
  if start + count ≤ data.length then .ok ((data.drop start).take count)
  else .error ⟨start + count, data.length⟩

/-- A record of the index: key, file offset and size. -/
abbrev IndexRecord := Bytes × UInt64 × UInt32

/-- `FlatIndex`: the packed records and the offset of each. -/
structure PackedIndex where
  data : Bytes
  recOff : List UInt32
  deriving DecidableEq, Repr

/-- A key with its file offset and size, as an index is built from them. -/
abbrev IndexPair := String × UInt64 × UInt32

namespace PackedIndex

/-- The bytes of one record; the length of the key is cut to 32 bits. -/
def encodeRecord (pair : IndexPair) : Bytes :=
  encodeU32 (strBytes pair.1).length ++ strBytes pair.1 ++
    encodeU64 pair.2.1.toNat ++ encodeU32 pair.2.2.toNat

/-- The loop body of `from_sorted`; the offset is cut to 32 bits. -/
def pushRecord (index : PackedIndex) (pair : IndexPair) : PackedIndex where
  data := index.data ++ encodeRecord pair
  recOff := index.recOff ++ [UInt32.ofNat index.data.length]

def fromSorted (pairs : List IndexPair) : PackedIndex :=
  pairs.foldl pushRecord ⟨[], []⟩

def recordAtOff (index : PackedIndex) (off : Nat) :
    Except SlicePanic IndexRecord := do
  let rawLen ← sliceBytes index.data off 4
  let klen := fromLeBytes rawLen
  let key ← sliceBytes index.data (off + 4) klen
  let loc := off + 4 + klen
  let fileOff ← sliceBytes index.data loc 8
  let size ← sliceBytes index.data (loc + 8) 4
  pure (key, UInt64.ofNat (fromLeBytes fileOff),
    UInt32.ofNat (fromLeBytes size))

/-- `key_at_off(off) < key` -/
def keyBelow (index : PackedIndex) (key : Bytes) (off : UInt32) :
    Except SlicePanic Bool :=
  (index.recordAtOff off.toNat).map fun record => record.1 < key

/-- First index whose key is not below `key`. -/
def partitionPoint (index : PackedIndex) (key : Bytes) :
    Except SlicePanic Nat :=
  tryPartitionPoint (index.keyBelow key) index.recOff

def «at» (index : PackedIndex) (i : Nat) :
    Except SlicePanic (Option IndexRecord) :=
  match index.recOff[i]? with
  | some off => (index.recordAtOff off.toNat).map some
  | none => .ok none

def get (index : PackedIndex) (key : String) :
    Except SlicePanic (Option (UInt64 × UInt32)) := do
  let i ← index.partitionPoint (strBytes key)
  let found ← index.at i
  match found with
  | some (k, loc) => pure (if k = strBytes key then some loc else none)
  | none => pure none

/-! ## The index on disk -/

/-- `F4IX` -/
def magic : Bytes := [0x46, 0x34, 0x49, 0x58]

def version : UInt8 := 1

def encode (index : PackedIndex) : Bytes :=
  magic ++ [version] ++ encodeU32 index.recOff.length ++
    index.recOff.flatMap (fun off => encodeU32 off.toNat) ++ index.data

/-- The number at a place of the offset table. -/
def offsetAt (buf : Bytes) (i : Nat) : UInt32 :=
  UInt32.ofNat (fromLeBytes ((buf.drop (9 + i * 4)).take 4))

/-- The number of records that a header names. -/
def headerCount (buf : Bytes) : Nat :=
  fromLeBytes ((buf.drop 5).take 4)

def decodeV1 (buf : Bytes) : Except LsmError PackedIndex :=
  if buf[4]? ≠ some version then
    .error (.serialization ("unsupported F4IX version " ++
      toString (buf[4]?.getD 0)))
  else if buf.length < 9 then
    .error (.serialization "truncated F4IX header")
  else
    let count := headerCount buf
    let records := 9 + count * 4
    if buf.length < records then
      .error (.serialization "truncated F4IX offset table")
    else
      .ok ⟨buf.drop records, (List.range count).map (offsetAt buf)⟩

def decodeU32 : Decoder UInt32 := fun input => do
  let (n, input) ← natLe 4 input
  pure (UInt32.ofNat n, input)

/-- One entry of the map that legacy files hold. -/
def decodePair : Decoder IndexPair := fun input => do
  let (key, input) ← decodeStr input
  let (off, input) ← WALEntry.decodeU64 input
  let (size, input) ← decodeU32 input
  pure ((key, off, size), input)

def decodePairs : Nat → Decoder (List IndexPair)
  | 0 => fun input => some ([], input)
  | count + 1 => fun input => do
      let (pair, input) ← decodePair input
      let (rest, input) ← decodePairs count input
      pure (pair :: rest, input)

/-- A map, into which the entries are inserted as they are read. -/
def decodeMap : Decoder (Std.TreeMap String (UInt64 × UInt32)) :=
  fun input => do
    let (count, input) ← natLe 8 input
    let (pairs, input) ← decodePairs count input
    pure (Std.TreeMap.ofList pairs, input)

/-- The reason that the decoder gives is left out of the text. -/
def decodeBincode (buf : Bytes) : Except LsmError PackedIndex :=
  match deserialize decodeMap buf with
  | some map => .ok (fromSorted map.toList)
  | none => .error (.serialization "Failed to deserialize index")

/-- The bytes are an index of the current format. -/
def isV1 (buf : Bytes) : Bool :=
  buf.length ≥ 5 ∧ magic.isPrefixOf buf

def decode (buf : Bytes) : Except LsmError PackedIndex :=
  if isV1 buf then decodeV1 buf else decodeBincode buf

/-! ## Records -/

theorem sliceBytes_eq_ok_iff {data bytes : Bytes} {start count : Nat} :
    sliceBytes data start count = .ok bytes ↔
      start + count ≤ data.length ∧
        (data.drop start).take count = bytes := by
  rw [sliceBytes]
  by_cases inside : start + count ≤ data.length
  · rw [if_pos inside, Except.ok.injEq, and_iff_right inside]
  · rw [if_neg inside]
    exact iff_of_false nofun fun both => inside both.1

/-- A record begins at the offset and ends inside the data. -/
def RecordInside (data : Bytes) (off : Nat) : Prop :=
  off + 4 ≤ data.length ∧
    off + 4 + fromLeBytes ((data.drop off).take 4) + 12 ≤ data.length

instance (data : Bytes) (off : Nat) : Decidable (RecordInside data off) :=
  inferInstanceAs (Decidable (_ ∧ _))

theorem recordAtOff_ok_iff {index : PackedIndex} {off : Nat} :
    (∃ record, index.recordAtOff off = .ok record) ↔
      RecordInside index.data off := by
  simp only [recordAtOff, bind_eq_ok_iff, sliceBytes_eq_ok_iff, RecordInside]
  constructor
  · rintro ⟨record, rawLen, ⟨inside, rfl⟩, key, ⟨-, -⟩, fileOff, ⟨-, -⟩,
      size, ⟨last, -⟩, -⟩
    exact ⟨inside, by omega⟩
  · rintro ⟨inside, last⟩
    exact ⟨_, _, ⟨inside, rfl⟩, _, ⟨by omega, rfl⟩, _, ⟨by omega, rfl⟩, _,
      ⟨by omega, rfl⟩, rfl⟩

theorem sliceBytes_middle
    {data part : Bytes} {start count : Nat} (front back : Bytes)
    (split : data = front ++ part ++ back) (starts : start = front.length)
    (counts : count = part.length) :
    sliceBytes data start count = .ok part := by
  subst split starts counts
  rw [sliceBytes_eq_ok_iff]
  constructor
  · rw [List.length_append, List.length_append]
    omega
  · rw [List.append_assoc, List.drop_left, List.take_left]

/-- A pair as its record gives it back. -/
def toRecord (pair : IndexPair) : IndexRecord :=
  (strBytes pair.1, pair.2)

theorem recordAtOff_middle
    {index : PackedIndex} {front back : Bytes} {pair : IndexPair}
    (short : (strBytes pair.1).length < 2 ^ 32)
    (split : index.data = front ++ encodeRecord pair ++ back) :
    index.recordAtOff front.length = .ok (toRecord pair) := by
  let sized := encodeU32 (strBytes pair.1).length
  let offset := encodeU64 pair.2.1.toNat
  let size := encodeU32 pair.2.2.toNat
  have four : sized.length = 4 := toLeBytes_length 4 _
  have eight : offset.length = 8 := toLeBytes_length 8 _
  have four' : size.length = 4 := toLeBytes_length 4 _
  have key : fromLeBytes sized = (strBytes pair.1).length :=
    fromLeBytes_encodeU32 short
  have whole : index.data =
      front ++ sized ++ strBytes pair.1 ++ offset ++ size ++ back := by
    rw [split, encodeRecord]
    simp only [List.append_assoc, sized, offset, size]
  simp only [recordAtOff, bind_eq_ok_iff]
  refine ⟨sized, ?_, strBytes pair.1, ?_, offset, ?_, size, ?_, ?_⟩
  · refine sliceBytes_middle front
      (strBytes pair.1 ++ offset ++ size ++ back) ?_ rfl four.symm
    rw [whole]
    simp only [List.append_assoc]
  · refine sliceBytes_middle (front ++ sized)
      (offset ++ size ++ back) ?_ ?_ key
    · rw [whole]
      simp only [List.append_assoc]
    · rw [List.length_append, four]
  · refine sliceBytes_middle (front ++ sized ++ strBytes pair.1)
      (size ++ back) ?_ ?_ eight.symm
    · rw [whole]
      simp only [List.append_assoc]
    · rw [List.length_append, List.length_append, four, key]
  · refine sliceBytes_middle
      (front ++ sized ++ strBytes pair.1 ++ offset) back whole ?_ four'.symm
    simp only [List.length_append, four, key, eight]
  · have location : UInt64.ofNat (fromLeBytes offset) = pair.2.1 := by
      rw [show fromLeBytes offset = pair.2.1.toNat from
        fromLeBytes_toLeBytes (by
          rw [pow_256_eight]
          exact pair.2.1.toNat_lt), UInt64.ofNat_toNat]
    have length : UInt32.ofNat (fromLeBytes size) = pair.2.2 := by
      rw [show fromLeBytes size = pair.2.2.toNat from
        fromLeBytes_encodeU32 pair.2.2.toNat_lt, UInt32.ofNat_toNat]
    rw [location, length]
    rfl

/-! ## Refinement of the list of records -/

/-- The offsets point to these records. -/
def Holds (index : PackedIndex) (records : List IndexRecord) : Prop :=
  List.Forall₂ (fun (off : UInt32) record =>
    index.recordAtOff off.toNat = .ok record) index.recOff records

theorem exists_holds_iff {index : PackedIndex} :
    (∃ records, index.Holds records) ↔
      ∀ off ∈ index.recOff, RecordInside index.data off.toNat := by
  simp only [← recordAtOff_ok_iff, Holds]
  generalize index.recOff = offsets
  induction offsets with
  | nil => simp
  | cons off rest inductionHypothesis =>
      simp only [List.forall_mem_cons, ← inductionHypothesis,
        List.forall₂_cons_left_iff]
      constructor
      · rintro ⟨_, record, records, here, behind, rfl⟩
        exact ⟨⟨record, here⟩, records, behind⟩
      · rintro ⟨⟨record, here⟩, records, behind⟩
        exact ⟨_, record, records, here, behind, rfl⟩

section

variable {index : PackedIndex} {records : List IndexRecord}

theorem Holds.at_eq (holds : index.Holds records) (i : Nat) :
    index.at i = .ok records[i]? := by
  rw [PackedIndex.at]
  rw [Holds] at holds
  generalize index.recOff = offsets at holds ⊢
  induction holds generalizing i with
  | nil => rfl
  | cons here _ inductionHypothesis =>
      cases i with
      | zero => simp [here, Except.map]
      | succ i => simpa using inductionHypothesis i

theorem Holds.partitionPoint_eq (holds : index.Holds records) (key : Bytes) :
    index.partitionPoint key =
      .ok ((FlatIndex.mk records).partitionPoint key) := by
  refine Decides.tryPartitionPoint_eq (List.Forall₂.imp ?_ holds)
  intro off record here
  rw [keyBelow, here]
  rfl

/-- An index that holds some records answers like the list of them. -/
theorem Holds.get_eq (holds : index.Holds records) (key : String) :
    index.get key = .ok ((FlatIndex.mk records).get key) := by
  rw [get, holds.partitionPoint_eq, FlatIndex.get]
  change (do
    let found ← index.at _
    match found with
    | some (k, loc) => pure (if k = strBytes key then some loc else none)
    | none => pure none) = _
  rw [holds.at_eq]
  cases records[(FlatIndex.mk records).partitionPoint (strBytes key)]? with
  | none => rfl
  | some record => rfl

end

end PackedIndex

end F4kvsLsm
