import F4kvsLsm.Lib.LittleEndian

/-!
# CRC-32

The reflected checksum with polynomial `0xEDB88320`, one bit at a time.  A
hasher that is updated in pieces computes the checksum of all it was given,
so there is one function on the concatenation.
-/

namespace ByteCodec

def crcBit (crc : UInt32) : UInt32 :=
  if crc &&& 1 = 1 then (crc >>> 1) ^^^ 0xEDB88320 else crc >>> 1

def crcByte (crc : UInt32) (byte : UInt8) : UInt32 :=
  crcBit (crcBit (crcBit (crcBit (crcBit (crcBit (crcBit (crcBit
    (crc ^^^ byte.toUInt32))))))))

def crc32 (bytes : Bytes) : UInt32 :=
  bytes.foldl crcByte 0xFFFFFFFF ^^^ 0xFFFFFFFF

/-- The check value of the nine ASCII digits. -/
example : crc32 [49, 50, 51, 52, 53, 54, 55, 56, 57] = 0xCBF43926 := by
  decide +kernel

end ByteCodec
