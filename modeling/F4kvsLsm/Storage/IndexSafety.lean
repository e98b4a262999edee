import F4kvsLsm.Storage.IndexAnswers

/-!
# Reading a decoded index

The decoder checks the length of the offset table and not where the offsets
point.  Whether the calls on the decoded index stay inside its data is decided
by the bytes that were decoded: the place that the table gives for each record
and the length of the key that stands there.
-/

namespace F4kvsLsm

open ByteCodec

namespace PackedIndex

/-- Every call returns, and no slice is out of range. -/
structure Safe (index : PackedIndex) : Prop where
  get : ∀ key, ∃ found, index.get key = .ok found
  «at» : ∀ i, ∃ record, index.at i = .ok record
  partitionPoint : ∀ key, ∃ point, index.partitionPoint key = .ok point

theorem safe_iff {index : PackedIndex} :
    index.Safe ↔
      ∀ off ∈ index.recOff, RecordInside index.data off.toNat := by
  constructor
  · intro safe off member
    obtain ⟨i, here⟩ := List.mem_iff_getElem?.mp member
    obtain ⟨record, read⟩ := safe.at i
    rw [← recordAtOff_ok_iff]
    rw [PackedIndex.at, here] at read
    cases found : index.recordAtOff off.toNat with
    | ok record => exact ⟨record, rfl⟩
    | error panic =>
        simp only [found, Except.map] at read
        cases read
  · intro inside
    obtain ⟨records, holds⟩ := exists_holds_iff.mpr inside
    exact ⟨fun key => ⟨_, holds.get_eq key⟩, fun i => ⟨_, holds.at_eq i⟩,
      fun key => ⟨_, holds.partitionPoint_eq key⟩⟩

/-- In the current format every offset of the table leads to a record that
ends inside the file.  In the legacy format the records of the entries are
laid out anew, and the 32 bits of each start have to lead to a record. -/
def IntactIndex (buf : Bytes) : Prop :=
  if isV1 buf then
    ∀ i < headerCount buf,
      RecordInside (buf.drop (9 + headerCount buf * 4)) (offsetAt buf i).toNat
  else
    ∀ map, deserialize decodeMap buf = some map →
      ∀ i < map.toList.length,
        RecordInside (packed map.toList)
          (recordStart map.toList i % 2 ^ 32)

theorem intactIndex_of_legacy
    {buf : Bytes} (legacy : isV1 buf = false)
    (small : ∀ map, deserialize decodeMap buf = some map →
      (packed map.toList).length < 2 ^ 32) : IntactIndex buf := by
  rw [IntactIndex, legacy]
  simp only [Bool.false_eq_true, if_false]
  intro map read i below
  have holds := fromSorted_holds (small map read)
  have inside := exists_holds_iff.mp ⟨_, holds⟩
  rw [fromSorted_eq] at inside
  have member : UInt32.ofNat (recordStart map.toList i) ∈
      (List.range map.toList.length).map fun i =>
        UInt32.ofNat (recordStart map.toList i) :=
    List.mem_map_of_mem (List.mem_range.mpr below)
  have here := inside _ member
  rwa [UInt32.toNat_ofNat'] at here

theorem decodeV1_eq_ok
    {buf : Bytes} {index : PackedIndex} (decoded : decodeV1 buf = .ok index) :
    index = ⟨buf.drop (9 + headerCount buf * 4),
      (List.range (headerCount buf)).map (offsetAt buf)⟩ := by
  rw [decodeV1] at decoded
  split at decoded
  · cases decoded
  · split at decoded
    · cases decoded
    · dsimp only at decoded
      split at decoded
      · cases decoded
      · exact (Except.ok.inj decoded).symm

theorem decodeBincode_eq_ok_iff
    {buf : Bytes} {index : PackedIndex} :
    decodeBincode buf = .ok index ↔
      ∃ map, deserialize decodeMap buf = some map ∧
        index = fromSorted map.toList := by
  rw [decodeBincode]
  cases deserialize decodeMap buf with
  | none => simp only [reduceCtorEq, false_and, exists_false]
  | some map =>
      simp only [Except.ok.injEq, Option.some.injEq, exists_eq_left']
      exact eq_comm

/-- A decoded index is safe to use exactly when the bytes are an intact
index. -/
theorem decoded_index_safe_iff
    {buf : Bytes} {index : PackedIndex} (decoded : decode buf = .ok index) :
    index.Safe ↔ IntactIndex buf := by
  rw [safe_iff, IntactIndex]
  rw [decode] at decoded
  by_cases current : isV1 buf = true
  · rw [if_pos current] at decoded ⊢
    rw [decodeV1_eq_ok decoded]
    simp only [List.forall_mem_map, List.mem_range]
  · rw [if_neg current] at decoded ⊢
    obtain ⟨map, read, rfl⟩ := decodeBincode_eq_ok_iff.mp decoded
    rw [fromSorted_eq, read]
    simp only [List.forall_mem_map, List.mem_range, UInt32.toNat_ofNat',
      Option.some.injEq, forall_eq']

/-- One record, whose offset lies behind the end of an empty data part. -/
def strayIndexBytes : Bytes :=
  [0x46, 0x34, 0x49, 0x58, 1, 1, 0, 0, 0, 0, 0, 0, 0]

/-- The file is decoded, and the first read of it panics. -/
theorem stray_offset_panics :
    decode strayIndexBytes = .ok ⟨[], [0]⟩ ∧
      (PackedIndex.mk [] [0]).at 0 = .error ⟨4, 0⟩ ∧
      (PackedIndex.mk [] [0]).get "k" = .error ⟨4, 0⟩ := by
  decide

/-- The bytes of an index of one record are intact. -/
theorem written_index_is_safe :
    (fromSorted [("k", 10, 4)]).Safe := by
  have decoded : decode (fromSorted [("k", 10, 4)]).encode =
      .ok (fromSorted [("k", 10, 4)]) := decode_encode (by decide)
  refine (decoded_index_safe_iff decoded).mpr ?_
  rw [IntactIndex, if_pos (by decide)]
  decide

end PackedIndex

end F4kvsLsm
