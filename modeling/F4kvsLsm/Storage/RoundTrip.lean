import F4kvsLsm.Storage.FramedEntry
import F4kvsLsm.Wal.FileWalInvariant
import F4kvsLsm.Wal.Indexed

/-!
# Which values come back from the disk

A value leaves memory in two records: a log entry and a table entry.  Both
decode to themselves exactly when the value is not a JSON document, whose
encoding no reader of the store accepts.  The readers differ in what they make
of such a record: the log files skip it, the frame files and the table blocks
report an error.
-/

namespace F4kvsLsm

open ByteCodec

/-- A value that is stored under `key` comes back from its log entry and from
its table entry, through the decoder and through every reader. -/
structure RoundTrips (key : String) (value : Value) (timestamp : UInt64)
    (sequence : UInt64) (deleted : Bool) : Prop where
  logEntry :
    let entry := WALEntry.put key value timestamp
    deserialize WALEntry.decode entry.encode = some entry
  tableEntry :
    let entry : SSTableEntry := ⟨key, value, sequence.toNat, deleted⟩
    deserialize SSTableEntry.decode entry.encode = some entry
  logFile : ∀ (engine : FileEngine) (maxSize : Nat) (header : Bytes),
    let entry := WALEntry.put key value timestamp
    engine.Headed header → entry.encode.length < 2 ^ 32 →
      engine.accepts maxSize entry.encode.length = true →
      engine.readEntries maxSize (header ++ frame entry.encode) =
        .ok [entry]
  frameFile :
    let entry := WALEntry.put key value timestamp
    entry.encode.length < 2 ^ 32 →
      IndexedWalSegment.decodeFrames (frame entry.encode) = .ok [entry]
  tableBlock : ∀ front back : Bytes,
    let entry : SSTableEntry := ⟨key, value, sequence.toNat, deleted⟩
    entry.encode.length ≤ maxFramedEntry →
      parseFramedEntry (front ++ framedEntry entry ++ back) front.length =
        .ok entry

theorem decodeFrames_frame
    {entry : WALEntry} (fits : entry.encode.length < 2 ^ 32) :
    IndexedWalSegment.decodeFrames (frame entry.encode) =
      if entry.holdsJson then .error (.serialization "decode wal entry")
      else .ok [entry] := by
  have framable : Framable (fun _ => true) entry.encode :=
    ⟨entry.encode_length_ne_zero, fits, rfl⟩
  have scanned := scanFrames_frame_append framable []
  rw [List.append_nil, scanFrames_nil] at scanned
  have bound : entry.encode.length < 2 ^ 64 := by omega
  have decoded :=
    WALEntry.deserialize_encode (WALEntry.fits_of_encode_length bound)
  simp only [IndexedWalSegment.decodeFrames, scanned, List.mapM_cons,
    List.mapM_nil, decoded]
  cases entry.holdsJson <;> rfl

/-- The table reader on the record of one entry. -/
theorem parseFramedEntry_value
    {entry : SSTableEntry} (fits : entry.Fits)
    (small : entry.encode.length ≤ maxFramedEntry) (front back : Bytes) :
    parseFramedEntry (front ++ framedEntry entry ++ back) front.length =
      if entry.value.isJson then
        .error (.serialization "Failed to deserialize entry")
      else .ok entry := by
  rw [parseFramedEntry_framedEntry small,
    SSTableEntry.deserialize_encode fits]
  cases entry.value.isJson <;> rfl

/-- A put comes back from the disk exactly when its value is not a JSON
document.  Lengths of strings and byte vectors in memory are below `2 ^ 64`. -/
theorem roundTrips_iff_not_json
    (key : String) (value : Value) (timestamp sequence : UInt64)
    (deleted : Bool) (keyFits : key.utf8ByteSize < 2 ^ 64)
    (valueFits : value.Fits) :
    RoundTrips key value timestamp sequence deleted ↔
      value.isJson = false := by
  have logFits : (WALEntry.put key value timestamp).Fits :=
    ⟨keyFits, valueFits⟩
  have tableFits :
      SSTableEntry.Fits ⟨key, value, sequence.toNat, deleted⟩ :=
    ⟨keyFits, valueFits, sequence.toNat_lt⟩
  have logDecoded := WALEntry.deserialize_encode logFits
  change deserialize _ _ = if value.isJson then none else _ at logDecoded
  constructor
  · intro roundTrips
    have back : deserialize WALEntry.decode
        (WALEntry.put key value timestamp).encode = some _ :=
      roundTrips.logEntry
    rw [logDecoded] at back
    by_contra json
    rw [Bool.not_eq_false] at json
    rw [if_pos json] at back
    exact absurd back (by simp)
  · intro notJson
    have notTagged : ¬ value.isJson = true := by simp [notJson]
    refine ⟨?_, ?_, ?_, ?_, ?_⟩
    · rw [if_neg notTagged] at logDecoded
      exact logDecoded
    · have decoded := SSTableEntry.deserialize_encode tableFits
      rw [if_neg notTagged] at decoded
      exact decoded
    · intro engine maxSize header entry headed fits accepted
      have clean : engine.Clean maxSize
          (header ++ frame entry.encode) [entry] := by
        refine ⟨header, headed, by rw [records_singleton], ?_⟩
        intro other member
        rw [List.mem_singleton] at member
        subst member
        exact ⟨fits, accepted, notJson⟩
      exact clean.readEntries
    · intro entry fits
      rw [decodeFrames_frame fits]
      exact if_neg notTagged
    · intro front back entry small
      rw [parseFramedEntry_value tableFits small]
      exact if_neg notTagged

theorem float_put_roundTrips :
    RoundTrips "k" (.float64 0x7FF8000000000000) 7 1 false :=
  (roundTrips_iff_not_json "k" (.float64 0x7FF8000000000000) 7 1 false
    (by decide) trivial).mpr rfl

/-- Neither record of a put of the JSON document `null` is readable. -/
theorem json_null_is_lost :
    (let entry := WALEntry.put "k" (.json .null) 7
     deserialize WALEntry.decode entry.encode = none) ∧
    (let entry : SSTableEntry := ⟨"k", .json .null, 1, false⟩
     deserialize SSTableEntry.decode entry.encode = none) ∧
    ¬ RoundTrips "k" (.json .null) 7 1 false := by
  have logLost : deserialize WALEntry.decode
      (WALEntry.put "k" (.json .null) 7).encode = none :=
    WALEntry.deserialize_encode ⟨by decide, trivial⟩
  have tableLost : deserialize SSTableEntry.decode
      (SSTableEntry.mk "k" (.json .null) 1 false).encode = none :=
    SSTableEntry.deserialize_encode ⟨by decide, trivial, by decide⟩
  refine ⟨logLost, tableLost, ?_⟩
  intro roundTrips
  have back : deserialize WALEntry.decode
      (WALEntry.put "k" (.json .null) 7).encode = some _ :=
    roundTrips.logEntry
  rw [logLost] at back
  exact absurd back (by simp)

end F4kvsLsm
