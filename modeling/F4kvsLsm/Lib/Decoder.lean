import F4kvsLsm.Lib.LittleEndian

/-!
# Prefix decoders

A decoder consumes a prefix of its input and returns the decoded value with
the rest of the input.  `Reads` says that a byte string decodes to a value
whatever follows it.
-/

namespace ByteCodec

universe u

/-- Consume a prefix of the input, or fail. -/
abbrev Decoder (α : Type u) := Bytes → Option (α × Bytes)

variable {α : Type u}

/-- `bytes` decodes to `value` in front of any continuation. -/
def Reads (decode : Decoder α) (bytes : Bytes) (value : α) : Prop :=
  ∀ rest, decode (bytes ++ rest) = some (value, rest)

/-- The next `count` bytes. -/
def takeBytes (count : Nat) : Decoder Bytes := fun input =>
  if count ≤ input.length then
    some (input.take count, input.drop count)
  else
    none

/-- A little-endian integer of `width` bytes. -/
def natLe (width : Nat) : Decoder Nat := fun input => do
  let (raw, rest) ← takeBytes width input
  pure (fromLeBytes raw, rest)

theorem takeBytes_reads
    {count : Nat} {bytes : Bytes} (sameLength : bytes.length = count) :
    Reads (takeBytes count) bytes bytes := by
  intro rest
  subst sameLength
  simp [takeBytes]

theorem takeBytes_eq_some
    {count : Nat} {input raw rest : Bytes}
    (taken : takeBytes count input = some (raw, rest)) :
    input = raw ++ rest ∧ raw.length = count := by
  unfold takeBytes at taken
  split at taken
  · case isTrue enough =>
      simp only [Option.some.injEq, Prod.mk.injEq] at taken
      obtain ⟨rfl, rfl⟩ := taken
      exact ⟨(List.take_append_drop count input).symm, by simpa using enough⟩
  · exact absurd taken (by simp)

theorem takeBytes_eq_none
    {count : Nat} {input : Bytes} (short : input.length < count) :
    takeBytes count input = none := by
  simp [takeBytes, Nat.not_le.mpr short]

theorem natLe_reads
    {width n : Nat} (fits : n < 256 ^ width) :
    Reads (natLe width) (toLeBytes width n) n := by
  intro rest
  have taken := takeBytes_reads (toLeBytes_length width n) rest
  simp only [natLe, taken, Option.bind_eq_bind, Option.bind_some,
    Option.pure_def, fromLeBytes_toLeBytes fits]

theorem natLe_eq_some
    {width n : Nat} {input rest : Bytes}
    (read : natLe width input = some (n, rest)) :
    input = toLeBytes width n ++ rest ∧ n < 256 ^ width := by
  simp only [natLe, Option.bind_eq_bind, Option.pure_def,
    Option.bind_eq_some_iff, Option.some.injEq, Prod.mk.injEq,
    Prod.exists] at read
  obtain ⟨raw, remaining, taken, rfl, rfl⟩ := read
  obtain ⟨split, sameLength⟩ := takeBytes_eq_some taken
  constructor
  · rw [toLeBytes_fromLeBytes_of_length sameLength]
    exact split
  · simpa [sameLength] using fromLeBytes_lt raw

theorem natLe_eq_none
    {width : Nat} {input : Bytes} (short : input.length < width) :
    natLe width input = none := by
  simp [natLe, takeBytes_eq_none short]

theorem natLe_of_le_length
    {width : Nat} {input : Bytes} (enough : width ≤ input.length) :
    natLe width input =
      some (fromLeBytes (input.take width), input.drop width) := by
  simp [natLe, takeBytes, enough]

end ByteCodec
