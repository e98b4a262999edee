import F4kvsLsm.Bincode
import F4kvsLsm.Error
import F4kvsLsm.Lib.Fallible

/-!
# JSON text of values

A value is written as an object with the name of its variant, or as the string
`Null`, and read back by a guess on objects of one member and on that string.
Text and documents are turned into each other by the JSON library, which
writes a float that is not finite as `null`.
-/

namespace F4kvsLsm

open ByteCodec

/-- The JSON library: the text of a document, the document at the front of a
text with what follows it, and the check that nothing else follows. -/
structure SerdeJson where
  toString : SerdeJsonValue → String
  parse : String → Except String (SerdeJsonValue × String)
  atEnd : String → Except String Unit

/-- The text that is written for a document is read as this document. -/
def SerdeJson.ParsesBack (serde : SerdeJson) (doc : SerdeJsonValue) : Prop :=
  ∃ rest, serde.parse (serde.toString doc) = .ok (doc, rest) ∧
    serde.atEnd rest = .ok ()

/-! ## Numbers -/

namespace JsonNumber

/-- The number with which a signed integer is written. -/
def ofInt64 (n : Int64) : JsonNumber :=
  if n < 0 then .negInt n else .posInt n.toUInt64

def asI64 : JsonNumber → Option Int64
  | .posInt n => if n.toNat < 2 ^ 63 then some n.toInt64 else none
  | .negInt n => some n
  | .float _ => none

def asU64 : JsonNumber → Option UInt64
  | .posInt n => some n
  | .negInt _ => none
  | .float _ => none

/-- The bits of the float; an integer is rounded to one. -/
def asF64 : JsonNumber → Option UInt64
  | .posInt n => some n.toFloat.toBits
  | .negInt n => some n.toFloat.toBits
  | .float bits => some bits

theorem asI64_ofInt64 (n : Int64) : (ofInt64 n).asI64 = some n := by
  rw [ofInt64]
  by_cases negative : n < 0
  · rw [if_pos negative, asI64]
  · rw [if_neg negative, asI64]
    have small : n.toUInt64.toNat < 2 ^ 63 := by
      have sign : 0 ≤ n.toBitVec.toInt := by
        simpa [Int64.lt_iff_toInt_lt] using negative
      have bits : n.toUInt64.toNat = n.toBitVec.toNat := rfl
      rw [BitVec.toInt_eq_toNat_cond] at sign
      split at sign <;> omega
    rw [if_pos small]
    rfl

end JsonNumber

def SerdeJsonValue.asU64 : SerdeJsonValue → Option UInt64
  | .number n => n.asU64
  | _ => none

namespace Value

/-- The exponent is not all ones. -/
def finiteBits (bits : UInt64) : Bool :=
  (bits >>> 52) &&& 0x7ff ≠ 0x7ff

/-- The value is not an infinite float and not NaN. -/
def isFinite : Value → Bool
  | .float64 bits => finiteBits bits
  | _ => true

/-! ## Writing -/

/-- The document that the serializer of a value writes. -/
def toSerde : Value → SerdeJsonValue
  | .string s => .object [("String", .string s)]
  | .int64 n => .object [("Int64", .number (.ofInt64 n))]
  | .uint64 n => .object [("UInt64", .number (.posInt n))]
  | .float64 bits => .object [("Float64",
      if finiteBits bits then .number (.float bits) else .null)]
  | .bool b => .object [("Bool", .bool b)]
  | .bytes b => .object [("Bytes",
      .array (b.map fun byte => .number (.posInt byte.toUInt64)))]
  | .json doc => .object [("Json", doc)]
  | .null => .string "Null"

section

variable (serde : SerdeJson)

def toJsonString (value : Value) : Except F4KvsError String :=
  .ok (serde.toString value.toSerde)

/-! ## Reading -/

/-- The error of a variant whose field is of another kind. -/
def unexpected (variant expected : String) (got : SerdeJsonValue) :
    F4KvsError :=
  .serializationWithFormat ("Value::" ++ variant)
    ("expected " ++ expected ++ ", got " ++ serde.toString got)

/-- A field that has to be a number of one kind. -/
def numberField {α : Type} (variant expected : String)
    (convert : JsonNumber → Option α) (make : α → Value) :
    SerdeJsonValue → Except F4KvsError Value
  | .number n =>
      match convert n with
      | some v => .ok (make v)
      | none => .error (unexpected serde variant expected (.number n))
  | other => .error (unexpected serde variant "number" other)

def byteItem (item : SerdeJsonValue) : Except F4KvsError UInt8 :=
  match item.asU64 with
  | some n =>
      if n.toNat < 256 then .ok n.toUInt8
      else .error (unexpected serde "Bytes" "byte array" item)
  | none => .error (unexpected serde "Bytes" "byte array" item)

/-- An object with a single member. -/
def fromMember (key : String) (value : SerdeJsonValue) :
    Except F4KvsError Value :=
  if key = "String" then
    match value with
    | .string s => .ok (.string s)
    | other => .error (unexpected serde "String" "string" other)
  else if key = "Int64" then
    numberField serde "Int64" "i64" JsonNumber.asI64 .int64 value
  else if key = "UInt64" then
    numberField serde "UInt64" "u64" JsonNumber.asU64 .uint64 value
  else if key = "Float64" then
    numberField serde "Float64" "float" JsonNumber.asF64 .float64 value
  else if key = "Bool" then
    match value with
    | .bool b => .ok (.bool b)
    | other => .error (unexpected serde "Bool" "bool" other)
  else if key = "Bytes" then
    match value with
    | .array arr => (arr.mapM (byteItem serde)).map .bytes
    | other => .error (unexpected serde "Bytes" "array" other)
  else if key = "Json" then .ok (.json value)
  else if key = "Null" then
    match value with
    | .null => .ok .null
    | other => .error (unexpected serde "Null" "null" other)
  else .ok (.json (.object [(key, value)]))

def fromSerdeJsonValue : SerdeJsonValue → Except F4KvsError Value
  | .object [(key, value)] => fromMember serde key value
  | .string s => if s = "Null" then .ok .null else .ok (.json (.string s))
  | other => .ok (.json other)

def fromJsonString (json : String) : Except F4KvsError Value :=
  match serde.parse json with
  | .error text => .error (.serialization text)
  | .ok (doc, rest) =>
      match fromSerdeJsonValue serde doc with
      | .error failure => .error (.serialization failure.display)
      | .ok value =>
          match serde.atEnd rest with
          | .error text => .error (.serialization text)
          | .ok () => .ok value

end

/-! ## Round trip -/

variable {serde : SerdeJson}

theorem byteItem_posInt (byte : UInt8) :
    byteItem serde (.number (.posInt byte.toUInt64)) = .ok byte := by
  have small : byte.toUInt64.toNat < 256 := by
    rw [UInt8.toNat_toUInt64]
    exact byte.toNat_lt
  simp only [byteItem, SerdeJsonValue.asU64, JsonNumber.asU64, if_pos small,
    UInt8.toUInt8_toUInt64]

theorem mapM_byteItem (serde : SerdeJson) (b : Bytes) :
    (b.map fun byte => SerdeJsonValue.number (.posInt byte.toUInt64)).mapM
      (byteItem serde) = .ok b := by
  apply Fallible.mapM_eq_ok_iff.mpr
  rw [List.forall₂_map_left_iff, List.forall₂_same]
  exact fun byte _ => byteItem_posInt byte

/-- The document of a value is read as this value, unless it is the document
of a float that is not finite. -/
theorem fromSerde_toSerde_iff (value : Value) :
    fromSerdeJsonValue serde value.toSerde = .ok value ↔
      value.isFinite = true := by
  cases value with
  | string s => simp [toSerde, fromSerdeJsonValue, fromMember, isFinite]
  | int64 n =>
      simp [toSerde, fromSerdeJsonValue, fromMember, numberField,
        JsonNumber.asI64_ofInt64, isFinite]
  | uint64 n =>
      simp [toSerde, fromSerdeJsonValue, fromMember, numberField,
        JsonNumber.asU64, isFinite]
  | float64 bits =>
      cases finite : finiteBits bits with
      | true =>
          simp [toSerde, fromSerdeJsonValue, fromMember, numberField,
            JsonNumber.asF64, isFinite, finite]
      | false =>
          simp [toSerde, fromSerdeJsonValue, fromMember, numberField,
            isFinite, finite]
  | bool b => simp [toSerde, fromSerdeJsonValue, fromMember, isFinite]
  | bytes b =>
      have items := mapM_byteItem serde b
      simp only [toSerde, fromSerdeJsonValue, fromMember, isFinite]
      simp [items, Except.map]
  | json doc => simp [toSerde, fromSerdeJsonValue, fromMember, isFinite]
  | null => simp [toSerde, fromSerdeJsonValue, isFinite]

/-- What is read back of a document that the library parses. -/
theorem fromJsonString_of_parses {doc : SerdeJsonValue}
    (parses : serde.ParsesBack doc) (value : Value) :
    fromJsonString serde (serde.toString doc) = .ok value ↔
      fromSerdeJsonValue serde doc = .ok value := by
  obtain ⟨rest, parsed, ended⟩ := parses
  rw [fromJsonString, parsed]
  dsimp only
  cases read : fromSerdeJsonValue serde doc with
  | error failure => simp
  | ok found => simp [ended]

/-- A value is always written, and it is read back from its text exactly if it
is not a float without a finite value. -/
theorem json_round_trip_iff (serde : SerdeJson) (value : Value)
    (parses : serde.ParsesBack value.toSerde) :
    ∃ text, value.toJsonString serde = .ok text ∧
      (fromJsonString serde text = .ok value ↔ value.isFinite = true) := by
  refine ⟨serde.toString value.toSerde, rfl, ?_⟩
  rw [fromJsonString_of_parses parses]
  exact fromSerde_toSerde_iff value

/-- The library on the texts of a truth value and of an infinite float. -/
def twoDocuments : SerdeJson where
  toString
    | .object [("Bool", .bool true)] => "\x7b\"Bool\":true\x7d"
    | .object [("Float64", .null)] => "\x7b\"Float64\":null\x7d"
    | _ => "null"
  parse text :=
    if text = "\x7b\"Bool\":true\x7d" then
      .ok (.object [("Bool", .bool true)], "")
    else if text = "\x7b\"Float64\":null\x7d" then
      .ok (.object [("Float64", .null)], "")
    else if text = "null" then .ok (.null, "")
    else .error "expected value at line 1 column 1"
  atEnd rest := if rest = "" then .ok () else
    .error "trailing characters at line 1 column 1"

theorem bool_round_trip :
    ∃ text, (Value.bool true).toJsonString twoDocuments = .ok text ∧
      (fromJsonString twoDocuments text = .ok (.bool true) ↔
        (Value.bool true).isFinite = true) :=
  json_round_trip_iff twoDocuments (.bool true)
    ⟨"", by simp [toSerde, twoDocuments], by simp [twoDocuments]⟩

/-- Positive infinity is written as a null, which is then refused. -/
theorem infinity_is_not_read_back :
    (Value.float64 0x7ff0000000000000).toJsonString twoDocuments =
        .ok "\x7b\"Float64\":null\x7d" ∧
      twoDocuments.ParsesBack (Value.float64 0x7ff0000000000000).toSerde ∧
      fromJsonString twoDocuments "\x7b\"Float64\":null\x7d" =
        .error (.serialization ("Serialization error: " ++
          "Serialization error for format 'Value::Float64': " ++
          "expected number, got null")) := by
  have written : (Value.float64 0x7ff0000000000000).toSerde =
      .object [("Float64", .null)] := by
    rw [toSerde, if_neg (by decide)]
  have text : twoDocuments.toString (.object [("Float64", .null)]) =
      "\x7b\"Float64\":null\x7d" := rfl
  have parsed : twoDocuments.parse "\x7b\"Float64\":null\x7d" =
      .ok (.object [("Float64", .null)], "") := by
    simp [twoDocuments]
  have refused : fromSerdeJsonValue twoDocuments
      (.object [("Float64", .null)]) =
        .error (unexpected twoDocuments "Float64" "number" .null) := by
    simp [fromSerdeJsonValue, fromMember, numberField]
  refine ⟨?_, ⟨"", ?_, by simp [twoDocuments]⟩, ?_⟩
  · rw [toJsonString, written, text]
  · rw [written, text, parsed]
  · rw [fromJsonString, parsed]
    dsimp only
    rw [refused]
    rfl

end Value

end F4kvsLsm
