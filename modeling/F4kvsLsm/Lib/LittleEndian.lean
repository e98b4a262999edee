import Mathlib.Data.List.Basic
import Mathlib.Tactic.Ring
import Mathlib.Tactic.NormNum

/-!
# Little-endian integers as byte lists

A natural number is written as exactly `width` bytes, least significant
byte first.  Bits above the width are dropped, as a cast to a fixed-width
integer drops them.
-/

namespace ByteCodec

/-- Raw file contents and message bodies. -/
abbrev Bytes := List UInt8

/-- The `width` little-endian bytes of `n`. -/
def toLeBytes : Nat → Nat → Bytes
  | 0, _ => []
  | width + 1, n => UInt8.ofNat (n % 256) :: toLeBytes width (n / 256)

/-- The number a little-endian byte string stands for. -/
def fromLeBytes : Bytes → Nat
  | [] => 0
  | byte :: rest => byte.toNat + 256 * fromLeBytes rest

@[simp]
theorem toLeBytes_length (width n : Nat) :
    (toLeBytes width n).length = width := by
  induction width generalizing n with
  | zero => rfl
  | succ width inductionHypothesis =>
      simp [toLeBytes, inductionHypothesis]

theorem fromLeBytes_toLeBytes_mod (width n : Nat) :
    fromLeBytes (toLeBytes width n) = n % 256 ^ width := by
  induction width generalizing n with
  | zero => simp [toLeBytes, fromLeBytes, Nat.mod_one]
  | succ width inductionHypothesis =>
      have lowByte : (UInt8.ofNat (n % 256)).toNat = n % 256 := by
        simp
      rw [toLeBytes, fromLeBytes, lowByte, inductionHypothesis, pow_succ',
        Nat.mod_mul]

/-- A number that fits its width is read back unchanged. -/
theorem fromLeBytes_toLeBytes
    {width n : Nat} (fits : n < 256 ^ width) :
    fromLeBytes (toLeBytes width n) = n := by
  rw [fromLeBytes_toLeBytes_mod, Nat.mod_eq_of_lt fits]

theorem fromLeBytes_lt (bytes : Bytes) :
    fromLeBytes bytes < 256 ^ bytes.length := by
  induction bytes with
  | nil => simp [fromLeBytes]
  | cons byte rest inductionHypothesis =>
      have byteBound : byte.toNat < 256 := byte.toNat_lt
      rw [fromLeBytes, List.length_cons, pow_succ]
      omega

theorem toLeBytes_fromLeBytes (bytes : Bytes) :
    toLeBytes bytes.length (fromLeBytes bytes) = bytes := by
  induction bytes with
  | nil => rfl
  | cons byte rest inductionHypothesis =>
      have byteBound : byte.toNat < 256 := byte.toNat_lt
      have lowPart : fromLeBytes (byte :: rest) % 256 = byte.toNat := by
        simp only [fromLeBytes]
        omega
      have highPart :
          fromLeBytes (byte :: rest) / 256 = fromLeBytes rest := by
        simp only [fromLeBytes]
        omega
      simp only [List.length_cons, toLeBytes, lowPart, highPart,
        inductionHypothesis, UInt8.ofNat_toNat]

/-- Every byte string of the right length is the encoding of its value. -/
theorem toLeBytes_fromLeBytes_of_length
    {width : Nat} {bytes : Bytes} (sameLength : bytes.length = width) :
    toLeBytes width (fromLeBytes bytes) = bytes := by
  subst sameLength
  exact toLeBytes_fromLeBytes bytes

end ByteCodec
