import F4kvsLsm.Lib.Decoder

/-!
# Stored values

`Value` is the payload type of the store.  A float is its IEEE bit pattern,
which is what the binary format writes and what a round trip has to keep.
JSON payloads are trees of the JSON library's value type.
-/

namespace F4kvsLsm

open ByteCodec

/-- A JSON number: a non-negative or a negative integer, or a float. -/
inductive JsonNumber where
  | posInt (n : UInt64)
  | negInt (n : Int64)
  | float (bits : UInt64)
  deriving DecidableEq, Repr

/-- A JSON document; object members keep their order. -/
inductive SerdeJsonValue where
  | null
  | bool (b : Bool)
  | number (n : JsonNumber)
  | string (s : String)
  | array (items : List SerdeJsonValue)
  | object (members : List (String × SerdeJsonValue))

/-- Core value types. -/
inductive Value where
  | string (s : String)
  | int64 (n : Int64)
  | uint64 (n : UInt64)
  | float64 (bits : UInt64)
  | bool (b : Bool)
  | bytes (b : Bytes)
  | json (doc : SerdeJsonValue)
  | null

namespace Value

/-- The value that memtables use as a tombstone. -/
def isNull : Value → Bool
  | .null => true
  | _ => false

def isJson : Value → Bool
  | .json _ => true
  | _ => false

/-- Size in bytes of the payload; `jsonLen` is the length of the JSON text
that the JSON library prints. -/
def serializedSize (jsonLen : SerdeJsonValue → Nat) : Value → Nat
  | .string s => s.utf8ByteSize
  | .int64 _ => 8
  | .uint64 _ => 8
  | .float64 _ => 8
  | .bool _ => 1
  | .bytes b => b.length
  | .json doc => jsonLen doc
  | .null => 0

@[simp]
theorem isNull_eq_true_iff (value : Value) :
    value.isNull = true ↔ value = .null := by
  cases value <;> simp [isNull]

end Value

end F4kvsLsm
