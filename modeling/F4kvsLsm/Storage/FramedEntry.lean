import F4kvsLsm.Error
import F4kvsLsm.Lib.Crc32
import F4kvsLsm.Storage.Entry

/-!
# Framed table entries

A block of a table file holds its entries one after the other: a 4-byte size,
the encoded entry, and a checksum of both.  The reader goes to the offset that
the index gives and checks size and checksum before it decodes the entry.
-/

namespace F4kvsLsm

open ByteCodec

/-- The largest entry that a block reader takes, 100 MiB. -/
def maxFramedEntry : Nat := 100 * 1024 * 1024

/-- The record of one entry in a block, as `write_entries` appends it. -/
def framedEntry (entry : SSTableEntry) : Bytes :=
  let entryData := entry.encode
  encodeU32 entryData.length ++ entryData ++
    encodeU32 (crc32 (encodeU32 entryData.length ++ entryData)).toNat

def parseFramedEntry (buf : Bytes) (offset : Nat) :
    Except LsmError SSTableEntry :=
  if offset + 8 > buf.length then
    .error (.corruption
      ("framed entry header past block end at " ++ toString offset))
  else
    let entrySize := fromLeBytes ((buf.drop offset).take 4)
    if entrySize = 0 ∨ entrySize > maxFramedEntry then
      .error (.corruption ("invalid framed entry size " ++
        toString entrySize ++ " at " ++ toString offset))
    else
      let dataEnd := offset + 4 + entrySize
      if dataEnd + 4 > buf.length then
        .error (.corruption
          ("framed entry body past block end at " ++ toString offset))
      else
        let entryBuffer := (buf.drop (offset + 4)).take entrySize
        let stored := fromLeBytes ((buf.drop dataEnd).take 4)
        if stored ≠ (crc32 (encodeU32 entrySize ++ entryBuffer)).toNat then
          .error (.corruption
            ("framed entry checksum mismatch at " ++ toString offset))
        else
          match deserialize SSTableEntry.decode entryBuffer with
          | some entry => .ok entry
          | none => .error (.serialization "Failed to deserialize entry")

theorem SSTableEntry.encode_length_ne_zero (entry : SSTableEntry) :
    entry.encode.length ≠ 0 := by
  simp [encode, encodeU64]

@[simp]
theorem framedEntry_length (entry : SSTableEntry) :
    (framedEntry entry).length = entry.encode.length + 8 := by
  simp only [framedEntry, encodeU32, List.length_append, toLeBytes_length]
  omega

theorem fromLeBytes_encodeU32 {n : Nat} (fits : n < 2 ^ 32) :
    fromLeBytes (encodeU32 n) = n :=
  fromLeBytes_toLeBytes (by rw [pow_256_four]; exact fits)

/-- The size that a reader sees at the offset of a record. -/
theorem fromLeBytes_framedEntry {entry : SSTableEntry}
    (fits : entry.encode.length < 2 ^ 32) (front back : Bytes) :
    fromLeBytes
      (((front ++ framedEntry entry ++ back).drop front.length).take 4) =
        entry.encode.length := by
  let size := encodeU32 entry.encode.length
  have sizeLength : size.length = 4 := toLeBytes_length _ _
  have whole : front ++ framedEntry entry ++ back =
      front ++ (size ++ (entry.encode ++
        (encodeU32 (crc32 (size ++ entry.encode)).toNat ++ back))) := by
    simp [framedEntry, size]
  rw [whole, List.drop_left, ← sizeLength, List.take_left]
  exact fromLeBytes_encodeU32 fits

/-- No reader takes a record that is too large. -/
theorem parseFramedEntry_large {entry : SSTableEntry}
    (large : maxFramedEntry < entry.encode.length)
    (fits : entry.encode.length < 2 ^ 32) (front back : Bytes) :
    parseFramedEntry (front ++ framedEntry entry ++ back) front.length =
      .error (.corruption ("invalid framed entry size " ++
        toString entry.encode.length ++ " at " ++
          toString front.length)) := by
  have header : ¬ front.length + 8 >
      (front ++ framedEntry entry ++ back).length := by
    simp
    omega
  rw [parseFramedEntry, if_neg header]
  simp only [fromLeBytes_framedEntry fits, if_pos (Or.inr large)]

/-- Reading a record at its own offset sees exactly the bytes that were
written, so only the size bound and the decoder decide. -/
theorem parseFramedEntry_framedEntry
    {entry : SSTableEntry} (small : entry.encode.length ≤ maxFramedEntry)
    (front back : Bytes) :
    parseFramedEntry (front ++ framedEntry entry ++ back) front.length =
      match deserialize SSTableEntry.decode entry.encode with
      | some entry => .ok entry
      | none => .error (.serialization "Failed to deserialize entry") := by
  have nonempty := entry.encode_length_ne_zero
  have fits : entry.encode.length < 2 ^ 32 := by
    rw [maxFramedEntry] at small
    omega
  let size := encodeU32 entry.encode.length
  let sum := encodeU32 (crc32 (size ++ entry.encode)).toNat
  have sizeLength : size.length = 4 := toLeBytes_length _ _
  have sumLength : sum.length = 4 := toLeBytes_length _ _
  have whole : front ++ framedEntry entry ++ back =
      front ++ (size ++ (entry.encode ++ (sum ++ back))) := by
    simp [framedEntry, size, sum]
  have long : (front ++ framedEntry entry ++ back).length =
      front.length + (entry.encode.length + 8) + back.length := by
    simp
    omega
  have atSize : (front ++ framedEntry entry ++ back).drop front.length =
      size ++ (entry.encode ++ (sum ++ back)) := by
    rw [whole, List.drop_left]
  have atData : (front ++ framedEntry entry ++ back).drop
      (front.length + 4) = entry.encode ++ (sum ++ back) := by
    rw [← List.drop_drop, atSize, ← sizeLength, List.drop_left]
  have atSum : (front ++ framedEntry entry ++ back).drop
      (front.length + 4 + entry.encode.length) = sum ++ back := by
    rw [← List.drop_drop, atData, List.drop_left]
  have readSize := fromLeBytes_framedEntry fits front back
  have readSum : fromLeBytes
      (((front ++ framedEntry entry ++ back).drop
        (front.length + 4 + entry.encode.length)).take 4) =
        (crc32 (size ++ entry.encode)).toNat := by
    rw [atSum, ← sumLength, List.take_left]
    exact fromLeBytes_encodeU32 (UInt32.toNat_lt _)
  have header : ¬ front.length + 8 >
      (front ++ framedEntry entry ++ back).length := by omega
  have sizeOk : ¬ (entry.encode.length = 0 ∨
      entry.encode.length > maxFramedEntry) := by omega
  have body : ¬ front.length + 4 + entry.encode.length + 4 >
      (front ++ framedEntry entry ++ back).length := by omega
  simp only [parseFramedEntry, if_neg header, readSize, if_neg sizeOk,
    if_neg body, readSum, atData, List.take_left, size, ne_eq,
    not_true_eq_false, if_false]

end F4kvsLsm
