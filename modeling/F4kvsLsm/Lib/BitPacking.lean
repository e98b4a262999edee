import Mathlib.Data.List.Induction
import Mathlib.Data.Nat.Bitwise
import F4kvsLsm.Lib.LittleEndian

/-!
# Bits packed into bytes

Eight bits go into a byte, least significant first; the last byte is filled up
with zeros.  Unpacking gives back the bits that were packed, with the filling
behind them.
-/

namespace BitPacking

open ByteCodec

/-- Bit `index` of a byte. -/
def byteBit (byte : UInt8) (index : Nat) : Bool :=
  (byte &&& (1 <<< UInt8.ofNat index)) != 0

/-- The byte in which exactly the given bits are set. -/
def packByte (chunk : List Bool) : UInt8 :=
  chunk.zipIdx.foldl
    (fun byte item =>
      if item.1 then byte ||| (1 <<< UInt8.ofNat item.2) else byte) 0

def unpackByte (byte : UInt8) : List Bool :=
  (List.range 8).map (byteBit byte)

/-- One byte for each eight bits, and one for what is left. -/
def packBits (bits : List Bool) : Bytes :=
  (List.range ((bits.length + 7) / 8)).map fun index =>
    packByte ((bits.drop (8 * index)).take 8)

def unpackBits (bytes : Bytes) : List Bool :=
  bytes.flatMap unpackByte

/-! ## One byte -/

theorem toNat_one_shiftLeft {index : Nat} (small : index < 8) :
    (1 <<< UInt8.ofNat index : UInt8).toNat = 2 ^ index := by
  have bound : 2 ^ index < 2 ^ 8 := Nat.pow_lt_pow_right (by omega) small
  rw [UInt8.toNat_shiftLeft, UInt8.toNat_ofNat', UInt8.toNat_one,
    Nat.mod_eq_of_lt (show index < 2 ^ 8 by omega),
    Nat.mod_eq_of_lt small, Nat.one_shiftLeft, Nat.mod_eq_of_lt bound]

theorem byteBit_eq_testBit (byte : UInt8) {index : Nat} (small : index < 8) :
    byteBit byte index = byte.toNat.testBit index := by
  rw [byteBit, bne, Bool.eq_iff_iff, Bool.not_eq_true', beq_eq_false_iff_ne,
    ne_eq, ← UInt8.toNat_inj, UInt8.toNat_and, toNat_one_shiftLeft small,
    Nat.and_two_pow]
  cases byte.toNat.testBit index <;> simp

theorem byteBit_or_shiftLeft
    (byte : UInt8) {index position : Nat} (small : index < 8)
    (small' : position < 8) :
    byteBit (byte ||| (1 <<< UInt8.ofNat position)) index =
      (byteBit byte index || decide (position = index)) := by
  rw [byteBit_eq_testBit _ small, byteBit_eq_testBit _ small,
    UInt8.toNat_or, Nat.testBit_or, toNat_one_shiftLeft small',
    Nat.testBit_two_pow]

theorem packByte_append_singleton (front : List Bool) (bit : Bool) :
    packByte (front ++ [bit]) =
      if bit then packByte front ||| (1 <<< UInt8.ofNat front.length)
      else packByte front := by
  rw [packByte, List.zipIdx_append, List.foldl_append]
  simp [packByte]

theorem byteBit_packByte
    {chunk : List Bool} (short : chunk.length ≤ 8) {index : Nat}
    (small : index < 8) :
    byteBit (packByte chunk) index = chunk.getD index false := by
  induction chunk using List.reverseRecOn with
  | nil =>
      rw [byteBit_eq_testBit _ small]
      simp [packByte]
  | append_singleton front bit inductionHypothesis =>
      rw [List.length_append, List.length_singleton] at short
      have before := inductionHypothesis (by omega)
      have last : (front ++ [bit]).getD index false =
          (front.getD index false || (bit && decide (front.length = index))) := by
        rcases Nat.lt_trichotomy index front.length with inside | here | past
        · have other : front.length ≠ index := by omega
          simp [List.getElem?_append_left inside, other]
        · simp [here]
        · have other : front.length ≠ index := by omega
          have outside : (front ++ [bit]).length ≤ index := by
            rw [List.length_append, List.length_singleton]
            omega
          have outside' : front.length ≤ index := by omega
          simp [List.getElem?_eq_none outside, List.getElem?_eq_none outside',
            other]
      rw [packByte_append_singleton, last, ← before]
      cases bit with
      | true =>
          rw [if_pos rfl, byteBit_or_shiftLeft _ small (by omega),
            Bool.true_and]
      | false => simp

@[simp]
theorem unpackByte_length (byte : UInt8) : (unpackByte byte).length = 8 := by
  simp [unpackByte]

theorem take_unpackByte_packByte
    {chunk : List Bool} (short : chunk.length ≤ 8) :
    (unpackByte (packByte chunk)).take chunk.length = chunk := by
  apply List.ext_getElem
  · rw [List.length_take, unpackByte_length]
    omega
  · intro index bound bound'
    have small : index < 8 := by omega
    rw [List.getElem_take]
    simp [unpackByte, byteBit_packByte short small, bound']

/-! ## All bytes -/

theorem packBits_of_ne_nil {bits : List Bool} (nonempty : bits ≠ []) :
    packBits bits = packByte (bits.take 8) :: packBits (bits.drop 8) := by
  have positive := List.length_pos_iff.mpr nonempty
  have count : (bits.length + 7) / 8 = (bits.length - 8 + 7) / 8 + 1 := by
    omega
  rw [packBits, packBits, count, List.range_succ_eq_map, List.map_cons,
    List.map_map, List.length_drop]
  simp only [Nat.mul_zero, List.drop_zero, List.cons.injEq, true_and]
  apply List.map_congr_left
  intro index _
  simp only [Function.comp_apply, List.drop_drop]
  congr 3
  omega

theorem unpackBits_cons (byte : UInt8) (bytes : Bytes) :
    unpackBits (byte :: bytes) = unpackByte byte ++ unpackBits bytes := rfl

theorem take_unpackBits_packBits (bits : List Bool) :
    (unpackBits (packBits bits)).take bits.length = bits := by
  induction size : bits.length using Nat.strong_induction_on
    generalizing bits with
  | _ size inductionHypothesis =>
      subst size
      by_cases empty : bits = []
      · simp [empty]
      · have positive := List.length_pos_iff.mpr empty
        rw [packBits_of_ne_nil empty, unpackBits_cons, List.take_append,
          unpackByte_length]
        have rest := inductionHypothesis (bits.drop 8).length
          (by rw [List.length_drop]; omega) (bits.drop 8) rfl
        rw [List.length_drop] at rest
        rw [rest]
        have atMost : (bits.take 8).length ≤ 8 := List.length_take_le _ _
        have first := take_unpackByte_packByte atMost
        rw [List.length_take] at first
        by_cases short : bits.length ≤ 8
        · rw [Nat.min_eq_right short] at first
          rw [first, List.drop_eq_nil_of_le short, List.append_nil,
            List.take_of_length_le short]
        · have full := unpackByte_length (packByte (bits.take 8))
          rw [Nat.min_eq_left (by omega), List.take_of_length_le (by omega)]
            at first
          rw [List.take_of_length_le (by omega), first,
            List.take_append_drop]

theorem le_unpackBits_packBits_length (bits : List Bool) :
    bits.length ≤ (unpackBits (packBits bits)).length := by
  have taken := congrArg List.length (take_unpackBits_packBits bits)
  rw [List.length_take] at taken
  omega

end BitPacking
