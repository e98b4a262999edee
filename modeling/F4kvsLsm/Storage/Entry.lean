import F4kvsLsm.Bincode

/-!
# Log entries and table entries

The two records that reach the disk, with their derived binary encodings.
Timestamps of log entries are seconds of the clock; timestamps of table
entries are sequence numbers.
-/

namespace F4kvsLsm

open ByteCodec

/-- Read a value from the front of a buffer; trailing bytes are allowed. -/
def deserialize {α : Type} (decode : Decoder α) (buffer : Bytes) : Option α :=
  (decode buffer).map Prod.fst

theorem deserialize_of_reads
    {α : Type} {decode : Decoder α} {bytes : Bytes} {value : α}
    (reads : Reads decode bytes value) (rest : Bytes) :
    deserialize decode (bytes ++ rest) = some value := by
  simp [deserialize, reads rest]

/-! ## Log entries -/

/-- WAL entry types. -/
inductive WALEntry where
  | put (key : String) (value : Value) (timestamp : UInt64)
  | delete (key : String) (timestamp : UInt64)
  | flush (memtableId : UInt64) (timestamp : UInt64)
  | checkpoint (timestamp : UInt64)

namespace WALEntry

def timestamp : WALEntry → UInt64
  | .put _ _ timestamp => timestamp
  | .delete _ timestamp => timestamp
  | .flush _ timestamp => timestamp
  | .checkpoint timestamp => timestamp

def encode : WALEntry → Bytes
  | .put key value timestamp =>
      encodeU32 0 ++ encodeStr key ++ value.encode ++
        encodeU64 timestamp.toNat
  | .delete key timestamp =>
      encodeU32 1 ++ encodeStr key ++ encodeU64 timestamp.toNat
  | .flush memtableId timestamp =>
      encodeU32 2 ++ encodeU64 memtableId.toNat ++ encodeU64 timestamp.toNat
  | .checkpoint timestamp => encodeU32 3 ++ encodeU64 timestamp.toNat

def decodeU64 : Decoder UInt64 := fun input => do
  let (n, input) ← natLe 8 input
  pure (UInt64.ofNat n, input)

def decode : Decoder WALEntry := fun input => do
  let (variant, input) ← natLe 4 input
  match variant with
  | 0 => do
      let (key, input) ← decodeStr input
      let (value, input) ← Value.decode input
      let (timestamp, input) ← decodeU64 input
      pure (.put key value timestamp, input)
  | 1 => do
      let (key, input) ← decodeStr input
      let (timestamp, input) ← decodeU64 input
      pure (.delete key timestamp, input)
  | 2 => do
      let (memtableId, input) ← decodeU64 input
      let (timestamp, input) ← decodeU64 input
      pure (.flush memtableId timestamp, input)
  | 3 => do
      let (timestamp, input) ← decodeU64 input
      pure (.checkpoint timestamp, input)
  | _ => none

/-- Lengths of the payload fit their length fields. -/
def Fits : WALEntry → Prop
  | .put key value _ => key.utf8ByteSize < 2 ^ 64 ∧ value.Fits
  | .delete key _ => key.utf8ByteSize < 2 ^ 64
  | _ => True

def holdsJson : WALEntry → Bool
  | .put _ value _ => value.isJson
  | _ => false

theorem decodeU64_reads (n : UInt64) :
    Reads decodeU64 (encodeU64 n.toNat) n := by
  intro rest
  have field := encodeU64_reads n.toNat_lt rest
  simp [decodeU64, field]

theorem decode_reads
    {entry : WALEntry} (fits : entry.Fits)
    (notJson : entry.holdsJson = false) :
    Reads decode entry.encode entry := by
  intro rest
  cases entry with
  | put key value timestamp =>
      obtain ⟨keyFits, valueFits⟩ := fits
      have variant := encodeU32_reads (n := 0) (by norm_num)
      have keyReads := decodeStr_reads keyFits
      have valueReads := Value.decode_reads valueFits notJson
      have timestampReads := decodeU64_reads timestamp
      simp only [decode, encode, List.append_assoc, variant _, keyReads _,
        valueReads _, timestampReads _, Option.bind_eq_bind,
        Option.bind_some, Option.pure_def]
  | delete key timestamp =>
      have variant := encodeU32_reads (n := 1) (by norm_num)
      have keyReads := decodeStr_reads fits
      have timestampReads := decodeU64_reads timestamp
      simp only [decode, encode, List.append_assoc, variant _, keyReads _,
        timestampReads _, Option.bind_eq_bind, Option.bind_some,
        Option.pure_def]
  | flush memtableId timestamp =>
      have variant := encodeU32_reads (n := 2) (by norm_num)
      have idReads := decodeU64_reads memtableId
      have timestampReads := decodeU64_reads timestamp
      simp only [decode, encode, List.append_assoc, variant _, idReads _,
        timestampReads _, Option.bind_eq_bind, Option.bind_some,
        Option.pure_def]
  | checkpoint timestamp =>
      have variant := encodeU32_reads (n := 3) (by norm_num)
      have timestampReads := decodeU64_reads timestamp
      simp only [decode, encode, List.append_assoc, variant _,
        timestampReads _, Option.bind_eq_bind, Option.bind_some,
        Option.pure_def]

/-- No buffer that starts with the encoding of a JSON put is readable. -/
theorem decode_json
    {entry : WALEntry} (fits : entry.Fits) (json : entry.holdsJson = true)
    (rest : Bytes) :
    decode (entry.encode ++ rest) = none := by
  cases entry with
  | put key value timestamp =>
      cases value with
      | json doc =>
          have variant := encodeU32_reads (n := 0) (by norm_num)
          have keyReads := decodeStr_reads fits.1
          simp only [decode, encode, List.append_assoc, variant _,
            keyReads _, Value.decode_json, Option.bind_eq_bind,
            Option.bind_some, Option.bind_none]
      | _ => simp [holdsJson, Value.isJson] at json
  | _ => simp [holdsJson] at json

/-- What a reader gets from the bytes of one entry. -/
theorem deserialize_encode
    {entry : WALEntry} (fits : entry.Fits) :
    deserialize decode entry.encode =
      if entry.holdsJson then none else some entry := by
  cases json : entry.holdsJson with
  | false =>
      have reads := deserialize_of_reads (decode_reads fits json) []
      simpa using reads
  | true =>
      have refused := decode_json fits json []
      rw [List.append_nil] at refused
      simp [deserialize, refused]

theorem encode_length_ne_zero (entry : WALEntry) :
    entry.encode.length ≠ 0 := by
  cases entry <;> simp [encode, encodeU32]

/-- An entry whose encoding is within the 8-byte range has fitting fields. -/
theorem fits_of_encode_length
    {entry : WALEntry} (bound : entry.encode.length < 2 ^ 64) :
    entry.Fits := by
  cases entry with
  | put key value timestamp =>
      simp only [encode, encodeU32, encodeU64, encodeStr, encodeByteVec,
        List.length_append, toLeBytes_length, strBytes_length] at bound
      refine ⟨by omega, ?_⟩
      cases value with
      | string s =>
          simp only [Value.encode, encodeU32, encodeU64, encodeStr,
            encodeByteVec, List.length_append, toLeBytes_length,
            strBytes_length] at bound
          simp only [Value.Fits]
          omega
      | bytes b =>
          simp only [Value.encode, encodeU32, encodeU64, encodeByteVec,
            List.length_append, toLeBytes_length] at bound
          simp only [Value.Fits]
          omega
      | _ => trivial
  | delete key timestamp =>
      simp only [encode, encodeU32, encodeU64, encodeStr, encodeByteVec,
        List.length_append, toLeBytes_length, strBytes_length] at bound
      simp only [Fits]
      omega
  | flush memtableId timestamp => trivial
  | checkpoint timestamp => trivial

end WALEntry

/-! ## Table entries -/

/-- An entry of a table file; `timestamp` is a 64-bit sequence number. -/
structure SSTableEntry where
  key : String
  value : Value
  timestamp : Nat
  deleted : Bool

namespace SSTableEntry

def encode (entry : SSTableEntry) : Bytes :=
  encodeStr entry.key ++ entry.value.encode ++ encodeU64 entry.timestamp ++
    encodeBool entry.deleted

def decode : Decoder SSTableEntry := fun input => do
  let (key, input) ← decodeStr input
  let (value, input) ← Value.decode input
  let (timestamp, input) ← natLe 8 input
  let (deleted, input) ← decodeBool input
  pure (⟨key, value, timestamp, deleted⟩, input)

structure Fits (entry : SSTableEntry) : Prop where
  key : entry.key.utf8ByteSize < 2 ^ 64
  value : entry.value.Fits
  timestamp : entry.timestamp < 2 ^ 64

theorem decode_reads
    {entry : SSTableEntry} (fits : entry.Fits)
    (notJson : entry.value.isJson = false) :
    Reads decode entry.encode entry := by
  intro rest
  have keyReads := decodeStr_reads fits.key
  have valueReads := Value.decode_reads fits.value notJson
  have timestampReads := encodeU64_reads fits.timestamp
  have deletedReads := decodeBool_reads entry.deleted
  simp only [decode, encode, List.append_assoc, keyReads _, valueReads _,
    timestampReads _, deletedReads _, Option.bind_eq_bind, Option.bind_some,
    Option.pure_def]

theorem decode_json
    {entry : SSTableEntry} (fits : entry.Fits)
    (json : entry.value.isJson = true) (rest : Bytes) :
    decode (entry.encode ++ rest) = none := by
  have keyReads := decodeStr_reads fits.key
  obtain ⟨key, value, timestamp, deleted⟩ := entry
  cases value with
  | json doc =>
      simp only [decode, encode, List.append_assoc, keyReads _,
        Value.decode_json, Option.bind_eq_bind, Option.bind_some,
        Option.bind_none]
  | _ => simp [Value.isJson] at json

theorem deserialize_encode
    {entry : SSTableEntry} (fits : entry.Fits) :
    deserialize decode entry.encode =
      if entry.value.isJson then none else some entry := by
  cases json : entry.value.isJson with
  | false =>
      have reads := deserialize_of_reads (decode_reads fits json) []
      simpa using reads
  | true =>
      have refused := decode_json fits json []
      rw [List.append_nil] at refused
      simp [deserialize, refused]

end SSTableEntry

end F4kvsLsm
