import F4kvsLsm.Value

/-!
# Binary encoding of values

The serializer writes fixed-width little-endian integers, an 8-byte length
before strings, byte vectors, sequences and maps, and a 4-byte variant number
before the fields of an enum variant.  Values are written through a derived
wrapper enum and read by a hand-written visitor over variant numbers.  The
format is not self-describing, so the JSON library's own reader, which asks
the format what comes next, is refused.
-/

namespace F4kvsLsm

open ByteCodec

/-! ## Integers and strings -/

def encodeU32 (n : Nat) : Bytes := toLeBytes 4 n

def encodeU64 (n : Nat) : Bytes := toLeBytes 8 n

/-- The UTF-8 bytes of a key or of a string value. -/
def strBytes (s : String) : Bytes :=
  s.toByteArray.data.toList

/-- Check and convert UTF-8 bytes. -/
def strFromBytes (raw : Bytes) : Option String :=
  String.fromUTF8? ⟨raw.toArray⟩

/-- A length-prefixed byte vector. -/
def encodeByteVec (raw : Bytes) : Bytes :=
  encodeU64 raw.length ++ raw

def decodeByteVec : Decoder Bytes := fun input => do
  let (count, input) ← natLe 8 input
  takeBytes count input

def encodeStr (s : String) : Bytes :=
  encodeByteVec (strBytes s)

def decodeStr : Decoder String := fun input => do
  let (raw, input) ← decodeByteVec input
  let s ← strFromBytes raw
  pure (s, input)

def encodeBool (b : Bool) : Bytes :=
  [if b then 1 else 0]

/-- Any byte other than 0 and 1 is refused. -/
def decodeBool : Decoder Bool := fun input =>
  match input with
  | byte :: rest =>
      if byte = 0 then some (false, rest)
      else if byte = 1 then some (true, rest)
      else none
  | [] => none

@[simp]
theorem strFromBytes_strBytes (s : String) :
    strFromBytes (strBytes s) = some s := by
  have sameArray : (⟨(strBytes s).toArray⟩ : ByteArray) = s.toByteArray := by
    simp [strBytes]
  have valid : s.toByteArray.IsValidUTF8 := s.isValidUTF8
  rw [strFromBytes, sameArray, String.fromUTF8?, dif_pos valid]
  rfl

@[simp]
theorem strBytes_length (s : String) :
    (strBytes s).length = s.utf8ByteSize := by
  simp [strBytes]

theorem pow_256_eight : (256 : Nat) ^ 8 = 2 ^ 64 := by norm_num

theorem pow_256_four : (256 : Nat) ^ 4 = 2 ^ 32 := by norm_num

theorem encodeU64_reads {n : Nat} (fits : n < 2 ^ 64) :
    Reads (natLe 8) (encodeU64 n) n :=
  natLe_reads (by rw [pow_256_eight]; exact fits)

theorem encodeU32_reads {n : Nat} (fits : n < 2 ^ 32) :
    Reads (natLe 4) (encodeU32 n) n :=
  natLe_reads (by rw [pow_256_four]; exact fits)

theorem decodeByteVec_reads
    {raw : Bytes} (fits : raw.length < 2 ^ 64) :
    Reads decodeByteVec (encodeByteVec raw) raw := by
  intro rest
  have count := encodeU64_reads fits (raw ++ rest)
  have body := takeBytes_reads (rfl : raw.length = raw.length) rest
  simp [decodeByteVec, encodeByteVec, List.append_assoc, count, body]

theorem decodeStr_reads
    {s : String} (fits : s.utf8ByteSize < 2 ^ 64) :
    Reads decodeStr (encodeStr s) s := by
  intro rest
  have body : decodeByteVec (encodeByteVec (strBytes s) ++ rest) = _ :=
    decodeByteVec_reads (by simpa using fits) rest
  simp [decodeStr, encodeStr, body]

theorem decodeBool_reads (b : Bool) :
    Reads decodeBool (encodeBool b) b := by
  intro rest
  cases b <;> simp [decodeBool, encodeBool]

/-! ## JSON documents -/

mutual

/-- A JSON tree is written with the format's own primitives and no tags. -/
def encodeJson : SerdeJsonValue → Bytes
  | .null => []
  | .bool b => encodeBool b
  | .number (.posInt n) => encodeU64 n.toNat
  | .number (.negInt n) => encodeU64 n.toUInt64.toNat
  | .number (.float bits) => encodeU64 bits.toNat
  | .string s => encodeStr s
  | .array items => encodeU64 items.length ++ encodeJsonItems items
  | .object members =>
      encodeU64 members.length ++ encodeJsonMembers members

def encodeJsonItems : List SerdeJsonValue → Bytes
  | [] => []
  | item :: rest => encodeJson item ++ encodeJsonItems rest

def encodeJsonMembers : List (String × SerdeJsonValue) → Bytes
  | [] => []
  | (name, item) :: rest =>
      encodeStr name ++ encodeJson item ++ encodeJsonMembers rest

end

/-- The JSON reader asks for `deserialize_any`, which this format refuses. -/
def decodeJson : Decoder SerdeJsonValue := fun _ => none

/-! ## Values -/

namespace Value

def encode : Value → Bytes
  | .string s => encodeU32 0 ++ encodeStr s
  | .int64 n => encodeU32 1 ++ encodeU64 n.toUInt64.toNat
  | .uint64 n => encodeU32 2 ++ encodeU64 n.toNat
  | .float64 bits => encodeU32 3 ++ encodeU64 bits.toNat
  | .bool b => encodeU32 4 ++ encodeBool b
  | .bytes b => encodeU32 5 ++ encodeByteVec b
  | .json doc => encodeU32 6 ++ encodeJson doc
  | .null => encodeU32 7

/-- The visitor: a variant number, then that variant's field. -/
def decode : Decoder Value := fun input => do
  let (variant, input) ← natLe 4 input
  match variant with
  | 0 => do
      let (s, input) ← decodeStr input
      pure (.string s, input)
  | 1 => do
      let (n, input) ← natLe 8 input
      pure (.int64 (UInt64.ofNat n).toInt64, input)
  | 2 => do
      let (n, input) ← natLe 8 input
      pure (.uint64 (UInt64.ofNat n), input)
  | 3 => do
      let (n, input) ← natLe 8 input
      pure (.float64 (UInt64.ofNat n), input)
  | 4 => do
      let (b, input) ← decodeBool input
      pure (.bool b, input)
  | 5 => do
      let (b, input) ← decodeByteVec input
      pure (.bytes b, input)
  | 6 => do
      let (doc, input) ← decodeJson input
      pure (.json doc, input)
  | 7 => pure (.null, input)
  | _ => none

/-- Lengths fit the 8-byte length field, as every length in memory does. -/
def Fits : Value → Prop
  | .string s => s.utf8ByteSize < 2 ^ 64
  | .bytes b => b.length < 2 ^ 64
  | _ => True

theorem uint64_fits (n : UInt64) : n.toNat < 2 ^ 64 :=
  n.toNat_lt

theorem decode_reads
    {value : Value} (fits : value.Fits) (notJson : value.isJson = false) :
    Reads decode value.encode value := by
  intro rest
  cases value with
  | string s =>
      have field := decodeStr_reads (s := s) fits rest
      have variant :=
        encodeU32_reads (n := 0) (by norm_num) (encodeStr s ++ rest)
      simp [decode, encode, variant, field]
  | int64 n =>
      have field := encodeU64_reads (uint64_fits n.toUInt64) rest
      have variant :=
        encodeU32_reads (n := 1) (by norm_num)
          (encodeU64 n.toUInt64.toNat ++ rest)
      have signed : (UInt64.ofNat n.toUInt64.toNat).toInt64 = n := by
        rw [UInt64.ofNat_toNat]
        rfl
      simp only [decode, encode, List.append_assoc, variant, field,
        Option.bind_eq_bind, Option.bind_some, Option.pure_def, signed]
  | uint64 n =>
      have field := encodeU64_reads (uint64_fits n) rest
      have variant :=
        encodeU32_reads (n := 2) (by norm_num) (encodeU64 n.toNat ++ rest)
      simp [decode, encode, variant, field]
  | float64 bits =>
      have field := encodeU64_reads (uint64_fits bits) rest
      have variant :=
        encodeU32_reads (n := 3) (by norm_num) (encodeU64 bits.toNat ++ rest)
      simp [decode, encode, variant, field]
  | bool b =>
      have field := decodeBool_reads b rest
      have variant :=
        encodeU32_reads (n := 4) (by norm_num) (encodeBool b ++ rest)
      simp [decode, encode, variant, field]
  | bytes b =>
      have field : decodeByteVec (encodeByteVec b ++ rest) = _ :=
        decodeByteVec_reads fits rest
      have variant :=
        encodeU32_reads (n := 5) (by norm_num) (encodeByteVec b ++ rest)
      simp [decode, encode, variant, field]
  | json doc => simp [isJson] at notJson
  | null =>
      have variant := encodeU32_reads (n := 7) (by norm_num) rest
      simp [decode, encode, variant]

/-- A JSON value is written but never read back. -/
theorem decode_json (doc : SerdeJsonValue) (rest : Bytes) :
    decode ((Value.json doc).encode ++ rest) = none := by
  have variant :=
    encodeU32_reads (n := 6) (by norm_num) (encodeJson doc ++ rest)
  simp [decode, encode, variant, decodeJson]

end Value

end F4kvsLsm
