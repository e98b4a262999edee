import Mathlib.Tactic.IntervalCases
import F4kvsLsm.Storage.IndexAnswers

/-!
# Table metadata

A table file ends with its metadata and their checksum.  Nothing says where
the metadata begin: a reader tries to decode them from the last positions of
the file backwards.  It finds the right place exactly when no later one begins
like metadata, and what a place begins like is up to the two keys.
-/

namespace F4kvsLsm

open ByteCodec

/-! ## What the decoders accept -/

theorem strBytes_of_strFromBytes {raw : Bytes} {s : String}
    (valid : strFromBytes raw = some s) : strBytes s = raw := by
  rw [strFromBytes, String.fromUTF8?] at valid
  split at valid
  · cases valid
    rfl
  · cases valid

theorem decodeU64_eq_some_iff {input rest : Bytes} {n : UInt64} :
    WALEntry.decodeU64 input = some (n, rest) ↔
      input = encodeU64 n.toNat ++ rest := by
  constructor
  · intro read
    simp only [WALEntry.decodeU64, Option.bind_eq_bind, Option.pure_def,
      Option.bind_eq_some_iff, Option.some.injEq, Prod.mk.injEq,
      Prod.exists] at read
    obtain ⟨raw, remaining, taken, rfl, rfl⟩ := read
    obtain ⟨split, fits⟩ := natLe_eq_some taken
    rw [pow_256_eight] at fits
    rw [UInt64.toNat_ofNat', Nat.mod_eq_of_lt fits]
    exact split
  · rintro rfl
    exact WALEntry.decodeU64_reads n rest

theorem decodeU32_eq_some_iff {input rest : Bytes} {n : UInt32} :
    PackedIndex.decodeU32 input = some (n, rest) ↔
      input = encodeU32 n.toNat ++ rest := by
  constructor
  · intro read
    simp only [PackedIndex.decodeU32, Option.bind_eq_bind, Option.pure_def,
      Option.bind_eq_some_iff, Option.some.injEq, Prod.mk.injEq,
      Prod.exists] at read
    obtain ⟨raw, remaining, taken, rfl, rfl⟩ := read
    obtain ⟨split, fits⟩ := natLe_eq_some taken
    rw [pow_256_four] at fits
    rw [UInt32.toNat_ofNat', Nat.mod_eq_of_lt fits]
    exact split
  · rintro rfl
    have field := encodeU32_reads n.toNat_lt rest
    simp [PackedIndex.decodeU32, field]

theorem decodeStr_eq_some_iff {input rest : Bytes} {s : String} :
    decodeStr input = some (s, rest) ↔
      s.utf8ByteSize < 2 ^ 64 ∧ input = encodeStr s ++ rest := by
  constructor
  · intro read
    simp only [decodeStr, decodeByteVec, Option.bind_eq_bind,
      Option.pure_def, Option.bind_eq_some_iff, Option.some.injEq,
      Prod.mk.injEq, Prod.exists] at read
    obtain ⟨raw, behind, ⟨count, body, counted, taken⟩, s, valid, rfl, rfl⟩ :=
      read
    obtain ⟨head, fits⟩ := natLe_eq_some counted
    obtain ⟨split, sized⟩ := takeBytes_eq_some taken
    have same := strBytes_of_strFromBytes valid
    have length := strBytes_length s
    rw [same, sized] at length
    rw [pow_256_eight, length] at fits
    refine ⟨fits, ?_⟩
    rw [head, split, encodeStr, encodeByteVec, same, sized, encodeU64,
      List.append_assoc]
  · rintro ⟨fits, rfl⟩
    exact decodeStr_reads fits rest

namespace TableFile

/-- SSTable metadata, as they are stored at the end of the file. -/
structure SSTableMetadata where
  entryCount : UInt64
  fileSize : UInt64
  smallestKey : String
  largestKey : String
  level : UInt64
  checksum : UInt32
  createdAt : UInt64
  indexOffset : UInt64
  indexSize : UInt64
  bloomFilterOffset : UInt64
  bloomFilterSize : UInt64
  bloomFilterHashCount : UInt64
  deriving DecidableEq

namespace SSTableMetadata

/-- The fields in front of the two keys. -/
def encodeFront (metadata : SSTableMetadata) : Bytes :=
  encodeU64 metadata.entryCount.toNat ++ encodeU64 metadata.fileSize.toNat

/-- The fields behind the two keys. -/
def encodeBack (metadata : SSTableMetadata) : Bytes :=
  encodeU64 metadata.level.toNat ++ encodeU32 metadata.checksum.toNat ++
    encodeU64 metadata.createdAt.toNat ++
    encodeU64 metadata.indexOffset.toNat ++
    encodeU64 metadata.indexSize.toNat ++
    encodeU64 metadata.bloomFilterOffset.toNat ++
    encodeU64 metadata.bloomFilterSize.toNat ++
    encodeU64 metadata.bloomFilterHashCount.toNat

/-- The two keys, one after the other. -/
def encodeKeys (metadata : SSTableMetadata) : Bytes :=
  encodeStr metadata.smallestKey ++ encodeStr metadata.largestKey

def encode (metadata : SSTableMetadata) : Bytes :=
  metadata.encodeFront ++ metadata.encodeKeys ++ metadata.encodeBack

def decode : Decoder SSTableMetadata := fun input => do
  let (entryCount, input) ← WALEntry.decodeU64 input
  let (fileSize, input) ← WALEntry.decodeU64 input
  let (smallestKey, input) ← decodeStr input
  let (largestKey, input) ← decodeStr input
  let (level, input) ← WALEntry.decodeU64 input
  let (checksum, input) ← PackedIndex.decodeU32 input
  let (createdAt, input) ← WALEntry.decodeU64 input
  let (indexOffset, input) ← WALEntry.decodeU64 input
  let (indexSize, input) ← WALEntry.decodeU64 input
  let (bloomFilterOffset, input) ← WALEntry.decodeU64 input
  let (bloomFilterSize, input) ← WALEntry.decodeU64 input
  let (bloomFilterHashCount, input) ← WALEntry.decodeU64 input
  pure (⟨entryCount, fileSize, smallestKey, largestKey, level, checksum,
    createdAt, indexOffset, indexSize, bloomFilterOffset, bloomFilterSize,
    bloomFilterHashCount⟩, input)

/-- Lengths of the keys fit their length fields. -/
structure Fits (metadata : SSTableMetadata) : Prop where
  smallest : metadata.smallestKey.utf8ByteSize < 2 ^ 64
  largest : metadata.largestKey.utf8ByteSize < 2 ^ 64

theorem encodeFront_length (metadata : SSTableMetadata) :
    metadata.encodeFront.length = 16 := by
  simp only [encodeFront, encodeU64, List.length_append, toLeBytes_length]

theorem encodeBack_length (metadata : SSTableMetadata) :
    metadata.encodeBack.length = 60 := by
  simp only [encodeBack, encodeU64, encodeU32, List.length_append,
    toLeBytes_length]

theorem encodeKeys_length (metadata : SSTableMetadata) :
    metadata.encodeKeys.length =
      16 + metadata.smallestKey.utf8ByteSize +
        metadata.largestKey.utf8ByteSize := by
  simp only [encodeKeys, encodeStr, encodeByteVec, encodeU64,
    List.length_append, toLeBytes_length, strBytes_length]
  omega

theorem encode_length (metadata : SSTableMetadata) :
    metadata.encode.length =
      92 + metadata.smallestKey.utf8ByteSize +
        metadata.largestKey.utf8ByteSize := by
  rw [encode, List.length_append, List.length_append, encodeFront_length,
    encodeKeys_length, encodeBack_length]
  omega

theorem exists_of_field {α β : Type} {decode : Decoder α}
    {encode : α → Bytes} {Fits : α → Prop}
    (accepts : ∀ {input rest value}, decode input = some (value, rest) ↔
      Fits value ∧ input = encode value ++ rest)
    {next : α × Bytes → Option β} {input : Bytes} {result : β}
    (read : (decode input >>= next) = some result) :
    ∃ value rest, Fits value ∧ input = encode value ++ rest ∧
      next (value, rest) = some result := by
  obtain ⟨⟨value, rest⟩, field, behind⟩ := Option.bind_eq_some_iff.mp read
  obtain ⟨fits, split⟩ := accepts.mp field
  exact ⟨value, rest, fits, split, behind⟩

theorem bind_of_reads {α β : Type} {decode : Decoder α} {bytes : Bytes}
    {value : α} (reads : Reads decode bytes value) (rest : Bytes)
    (next : α × Bytes → Option β) :
    (decode (bytes ++ rest) >>= next) = next (value, rest) := by
  rw [reads rest]
  rfl

theorem decode_reads {metadata : SSTableMetadata} (fits : metadata.Fits) :
    Reads decode metadata.encode metadata := by
  intro rest
  have wide := WALEntry.decodeU64_reads
  simp only [encode, encodeFront, encodeKeys, encodeBack,
    List.append_assoc]
  refine (bind_of_reads (wide _) _ _).trans ?_
  refine (bind_of_reads (wide _) _ _).trans ?_
  refine (bind_of_reads (decodeStr_reads fits.smallest) _ _).trans ?_
  refine (bind_of_reads (decodeStr_reads fits.largest) _ _).trans ?_
  refine (bind_of_reads (wide _) _ _).trans ?_
  refine (bind_of_reads (PackedIndex.decodeU32_reads _) _ _).trans ?_
  refine (bind_of_reads (wide _) _ _).trans ?_
  refine (bind_of_reads (wide _) _ _).trans ?_
  refine (bind_of_reads (wide _) _ _).trans ?_
  refine (bind_of_reads (wide _) _ _).trans ?_
  refine (bind_of_reads (wide _) _ _).trans ?_
  exact bind_of_reads (wide _) _ _

/-- The decoder accepts exactly the encodings, in front of anything. -/
theorem decode_eq_some_iff
    {input rest : Bytes} {metadata : SSTableMetadata} :
    decode input = some (metadata, rest) ↔
      metadata.Fits ∧ input = metadata.encode ++ rest := by
  constructor
  · intro read
    have wide : ∀ {input rest : Bytes} {n : UInt64},
        WALEntry.decodeU64 input = some (n, rest) ↔
          True ∧ input = encodeU64 n.toNat ++ rest :=
      decodeU64_eq_some_iff.trans (and_iff_right trivial).symm
    have narrow : ∀ {input rest : Bytes} {n : UInt32},
        PackedIndex.decodeU32 input = some (n, rest) ↔
          True ∧ input = encodeU32 n.toNat ++ rest :=
      decodeU32_eq_some_iff.trans (and_iff_right trivial).symm
    obtain ⟨entryCount, _, -, field₁, read⟩ := exists_of_field wide read
    obtain ⟨fileSize, _, -, field₂, read⟩ := exists_of_field wide read
    obtain ⟨smallestKey, _, smallest, field₃, read⟩ :=
      exists_of_field decodeStr_eq_some_iff read
    obtain ⟨largestKey, _, largest, field₄, read⟩ :=
      exists_of_field decodeStr_eq_some_iff read
    obtain ⟨level, _, -, field₅, read⟩ := exists_of_field wide read
    obtain ⟨checksum, _, -, field₆, read⟩ := exists_of_field narrow read
    obtain ⟨createdAt, _, -, field₇, read⟩ := exists_of_field wide read
    obtain ⟨indexOffset, _, -, field₈, read⟩ := exists_of_field wide read
    obtain ⟨indexSize, _, -, field₉, read⟩ := exists_of_field wide read
    obtain ⟨bloomFilterOffset, _, -, field₁₀, read⟩ :=
      exists_of_field wide read
    obtain ⟨bloomFilterSize, _, -, field₁₁, read⟩ :=
      exists_of_field wide read
    obtain ⟨bloomFilterHashCount, _, -, field₁₂, read⟩ :=
      exists_of_field wide read
    cases read
    refine ⟨⟨smallest, largest⟩, ?_⟩
    simp only [encode, encodeFront, encodeKeys, encodeBack,
      List.append_assoc, field₁, field₂, field₃, field₄, field₅, field₆,
      field₇, field₈, field₉, field₁₀, field₁₁, field₁₂]
  · rintro ⟨fits, rfl⟩
    exact decode_reads fits rest

/-! ## What later places begin like -/

theorem exists_u64_front (bytes : Bytes) (enough : 8 ≤ bytes.length) :
    ∃ (n : UInt64) (rest : Bytes), bytes = encodeU64 n.toNat ++ rest ∧
      rest.length = bytes.length - 8 := by
  have read := natLe_of_le_length enough
  have field : WALEntry.decodeU64 bytes =
      some (UInt64.ofNat (fromLeBytes (bytes.take 8)), bytes.drop 8) := by
    simp [WALEntry.decodeU64, read]
  exact ⟨_, _, decodeU64_eq_some_iff.mp field, List.length_drop⟩

theorem exists_u32_front (bytes : Bytes) (enough : 4 ≤ bytes.length) :
    ∃ (n : UInt32) (rest : Bytes), bytes = encodeU32 n.toNat ++ rest ∧
      rest.length = bytes.length - 4 := by
  have read := natLe_of_le_length enough
  have field : PackedIndex.decodeU32 bytes =
      some (UInt32.ofNat (fromLeBytes (bytes.take 4)), bytes.drop 4) := by
    simp [PackedIndex.decodeU32, read]
  exact ⟨_, _, decodeU32_eq_some_iff.mp field, List.length_drop⟩

theorem exists_metadata (front back : Bytes) (smallest largest : String)
    (sixteen : front.length = 16) (sixty : 60 ≤ back.length) :
    ∃ (metadata : SSTableMetadata) (rest : Bytes),
      metadata.smallestKey = smallest ∧ metadata.largestKey = largest ∧
      front ++ (encodeStr smallest ++ encodeStr largest) ++ back =
        metadata.encode ++ rest := by
  obtain ⟨entryCount, front, rfl, left⟩ :=
    exists_u64_front front (by omega)
  obtain ⟨fileSize, front, rfl, left⟩ :=
    exists_u64_front front (by omega)
  obtain ⟨level, back, rfl, right⟩ :=
    exists_u64_front back (by omega)
  obtain ⟨checksum, back, rfl, right⟩ :=
    exists_u32_front back (by omega)
  obtain ⟨createdAt, back, rfl, right⟩ :=
    exists_u64_front back (by omega)
  obtain ⟨indexOffset, back, rfl, right⟩ :=
    exists_u64_front back (by omega)
  obtain ⟨indexSize, back, rfl, right⟩ :=
    exists_u64_front back (by omega)
  obtain ⟨bloomFilterOffset, back, rfl, right⟩ :=
    exists_u64_front back (by omega)
  obtain ⟨bloomFilterSize, back, rfl, right⟩ :=
    exists_u64_front back (by omega)
  obtain ⟨bloomFilterHashCount, back, rfl, right⟩ :=
    exists_u64_front back (by omega)
  have empty : front = [] := List.length_eq_zero_iff.mp (by omega)
  refine ⟨⟨entryCount, fileSize, smallest, largest, level, checksum,
    createdAt, indexOffset, indexSize, bloomFilterOffset, bloomFilterSize,
    bloomFilterHashCount⟩, back, rfl, rfl, ?_⟩
  simp only [encode, encodeFront, encodeKeys, encodeBack, empty,
    List.append_nil, List.append_assoc]

/-- Nowhere behind the beginning of the keys do two encoded strings lie one
behind the other. -/
def KeysClear (keys : Bytes) : Prop :=
  ∀ front first second back, front ≠ [] →
    keys ≠ front ++ (encodeStr first ++ encodeStr second) ++ back

/-- A later place of the encoding decodes exactly when two encoded strings
lie in the keys behind their beginning. -/
theorem exists_decode_drop_iff {metadata : SSTableMetadata}
    (short : metadata.encode.length < 2 ^ 64) :
    (∃ d, 0 < d ∧ d < metadata.encode.length ∧
        (deserialize decode (metadata.encode.drop d)).isSome) ↔
      ¬ KeysClear metadata.encodeKeys := by
  have whole : metadata.encode =
      metadata.encodeFront ++ metadata.encodeKeys ++ metadata.encodeBack :=
    rfl
  have sixteen := metadata.encodeFront_length
  have sixty := metadata.encodeBack_length
  constructor
  · rintro ⟨d, positive, inside, decoded⟩ clear
    obtain ⟨_, found⟩ := Option.isSome_iff_exists.mp decoded
    obtain ⟨⟨other, rest⟩, read, -⟩ := Option.map_eq_some_iff.mp found
    obtain ⟨-, split⟩ := decode_eq_some_iff.mp read
    let back := other.encodeBack ++ rest
    let front := metadata.encode.take d ++ other.encodeFront
    have same : metadata.encodeFront ++
        (metadata.encodeKeys ++ metadata.encodeBack) =
        front.take 16 ++ (front.drop 16 ++ other.encodeKeys ++
          back.take (back.length - 60) ++ back.drop (back.length - 60)) := by
      have joined := List.take_append_drop d metadata.encode
      rw [split] at joined
      have cut := List.take_append_drop (back.length - 60) back
      have start := List.take_append_drop 16 front
      rw [← List.append_assoc, ← whole, ← joined]
      rw [List.append_assoc (front.drop 16 ++ other.encodeKeys), cut,
        List.append_assoc, ← List.append_assoc (front.take 16), start]
      simp only [encode, front, back, List.append_assoc]
    have long : front.length = d + 16 := by
      rw [List.length_append, List.length_take, Nat.min_eq_left inside.le,
        other.encodeFront_length]
    have behind : 60 ≤ back.length := by
      rw [List.length_append, other.encodeBack_length]
      exact Nat.le_add_right _ _
    have keysBack := (List.append_inj same (by
      rw [sixteen, List.length_take]
      omega)).2
    have keys := (List.append_inj' keysBack (by
      rw [sixty, List.length_drop]
      omega)).1
    refine clear (front.drop 16) other.smallestKey other.largestKey _ ?_ keys
    intro empty
    have lengths := congrArg List.length empty
    rw [List.length_drop, long, List.length_nil] at lengths
    omega
  · intro unclear
    simp only [KeysClear, not_forall, ne_eq, not_not] at unclear
    obtain ⟨front, first, second, back, nonempty, keys⟩ := unclear
    let start := metadata.encodeFront ++ front
    have positive := List.length_pos_iff.mpr nonempty
    have lengths := congrArg List.length keys
    rw [List.length_append, List.length_append] at lengths
    obtain ⟨other, rest, smallest, largest, same⟩ := exists_metadata
      (start.drop front.length) (back ++ metadata.encodeBack) first second
      (by rw [List.length_drop, List.length_append, sixteen]; omega)
      (by rw [List.length_append, sixty]; omega)
    have dropped : metadata.encode.drop front.length =
        other.encode ++ rest := by
      rw [← same, whole, keys]
      have early : front.length ≤ start.length := by
        rw [List.length_append]
        omega
      have split : metadata.encodeFront ++
          (front ++ (encodeStr first ++ encodeStr second) ++ back) ++
            metadata.encodeBack =
          start ++ (encodeStr first ++ encodeStr second ++
            (back ++ metadata.encodeBack)) := by
        simp only [start, List.append_assoc]
      rw [split, List.drop_append_of_le_length early]
      simp only [List.append_assoc]
    have total := congrArg List.length dropped
    rw [List.length_drop, List.length_append, encode_length other] at total
    have fits : other.Fits := ⟨by omega, by omega⟩
    refine ⟨front.length, positive, ?_, ?_⟩
    · rw [whole, List.length_append, List.length_append]
      omega
    · rw [dropped, deserialize_of_reads (decode_reads fits)]
      rfl

/-! ## Keys without zero bytes -/

/-- A short length is two bytes in front of six zeros. -/
theorem encodeU64_of_short {n : Nat} (short : n < 2 ^ 16) :
    ∃ low high : UInt8, encodeU64 n = [low, high, 0, 0, 0, 0, 0, 0] ∧
      n = low.toNat + 256 * high.toNat := by
  refine ⟨UInt8.ofNat (n % 256), UInt8.ofNat (n / 256 % 256), ?_, ?_⟩
  · have third : n / 256 / 256 = 0 := by omega
    simp [encodeU64, toLeBytes, third]
  · have low : (UInt8.ofNat (n % 256)).toNat = n % 256 := by simp
    have high : (UInt8.ofNat (n / 256 % 256)).toNat = n / 256 % 256 := by
      simp
    rw [low, high]
    omega

theorem getElem?_middle (front part back : Bytes) {i : Nat}
    (inside : i < part.length) :
    (front ++ (part ++ back))[front.length + i]? = part[i]? := by
  rw [List.getElem?_append_right (Nat.le_add_right _ _),
    Nat.add_sub_cancel_left, List.getElem?_append_left inside]

/-- A zero byte of the encoded keys belongs to one of the two lengths. -/
theorem zero_in_lengths {first second countFirst countSecond : Bytes} {i : Nat}
    (eight : countFirst.length = 8) (eight' : countSecond.length = 8)
    (clean : 0 ∉ first) (clean' : 0 ∉ second)
    (zero : (countFirst ++ (first ++ (countSecond ++ second)))[i]? =
      some 0) :
    i < 8 ∨ (8 + first.length ≤ i ∧ i < 16 + first.length) := by
  by_contra outside
  rw [not_or, not_and, Nat.not_lt, Nat.not_lt] at outside
  rw [List.getElem?_append_right (by omega), eight] at zero
  by_cases early : i - 8 < first.length
  · rw [List.getElem?_append_left early] at zero
    exact clean (List.mem_of_getElem? zero)
  · have behind := outside.2 (by omega)
    rw [List.getElem?_append_right (by omega),
      List.getElem?_append_right (by omega)] at zero
    exact clean' (List.mem_of_getElem? zero)

/-- Short keys without zero bytes are clear: a length has zeros where a key
cannot have any. -/
theorem keysClear_of_no_zero {smallest largest : String}
    (clean : 0 ∉ strBytes smallest) (clean' : 0 ∉ strBytes largest)
    (short : smallest.utf8ByteSize + largest.utf8ByteSize < 2 ^ 16) :
    KeysClear (encodeStr smallest ++ encodeStr largest) := by
  intro front first second back nonempty keys
  have positive := List.length_pos_iff.mpr nonempty
  have lengths := congrArg List.length keys
  simp only [encodeStr, encodeByteVec, List.length_append, encodeU64,
    toLeBytes_length, strBytes_length] at lengths
  obtain ⟨a, b, countSmallest, sizeSmallest⟩ :=
    encodeU64_of_short (n := smallest.utf8ByteSize) (by omega)
  obtain ⟨c, e, countLargest, sizeLargest⟩ :=
    encodeU64_of_short (n := largest.utf8ByteSize) (by omega)
  obtain ⟨u, v, countFirst, sizeFirst⟩ :=
    encodeU64_of_short (n := first.utf8ByteSize) (by omega)
  obtain ⟨w, x, countSecond, -⟩ :=
    encodeU64_of_short (n := second.utf8ByteSize) (by omega)
  let whole := encodeStr smallest ++ encodeStr largest
  have left : whole = [a, b, 0, 0, 0, 0, 0, 0] ++ (strBytes smallest ++
      ([c, e, 0, 0, 0, 0, 0, 0] ++ strBytes largest)) := by
    simp only [whole, encodeStr, encodeByteVec, strBytes_length,
      countSmallest, countLargest, List.append_assoc]
  have right : whole = front ++ ([u, v, 0, 0, 0, 0, 0, 0] ++
      (strBytes first ++ ([w, x, 0, 0, 0, 0, 0, 0] ++
        (strBytes second ++ back)))) := by
    simp only [whole, keys, encodeStr, encodeByteVec, strBytes_length,
      countFirst, countSecond, List.append_assoc]
  have zeros : ∀ i, whole[i]? = some 0 →
      i < 8 ∨ (8 + smallest.utf8ByteSize ≤ i ∧
        i < 16 + smallest.utf8ByteSize) := by
    intro i zero
    rw [left] at zero
    have inside := zero_in_lengths rfl rfl clean clean' zero
    rwa [strBytes_length] at inside
  have atFirst : ∀ i, i < 8 → whole[front.length + i]? =
      [u, v, 0, 0, 0, 0, 0, 0][i]? := by
    intro i below
    rw [right]
    exact getElem?_middle front [u, v, 0, 0, 0, 0, 0, 0] _ below
  have atLargest : ∀ i, i < 8 → whole[8 + smallest.utf8ByteSize + i]? =
      [c, e, 0, 0, 0, 0, 0, 0][i]? := by
    intro i below
    have place : 8 + smallest.utf8ByteSize =
        ([a, b, 0, 0, 0, 0, 0, 0] ++ strBytes smallest).length := by
      rw [List.length_append, strBytes_length]
      rfl
    rw [place, left, ← List.append_assoc]
    exact getElem?_middle _ [c, e, 0, 0, 0, 0, 0, 0] _ below
  have zero2 := zeros _ (atFirst 2 (by omega))
  have zero3 := zeros _ (atFirst 3 (by omega))
  have zero4 := zeros _ (atFirst 4 (by omega))
  have zero5 := zeros _ (atFirst 5 (by omega))
  have zero6 := zeros _ (atFirst 6 (by omega))
  have zero7 := zeros _ (atFirst 7 (by omega))
  obtain ⟨k, place⟩ : ∃ k, 8 + smallest.utf8ByteSize = front.length + k :=
    ⟨8 + smallest.utf8ByteSize - front.length, by omega⟩
  have near : k < 8 := by omega
  have low := atFirst k near
  rw [← place] at low
  rw [show 8 + smallest.utf8ByteSize = 8 + smallest.utf8ByteSize + 0 from rfl,
    atLargest 0 (by omega)] at low
  have none : (0 : UInt8).toNat = 0 := rfl
  by_cases last : k = 7
  · have empty : smallest.utf8ByteSize = 0 := by omega
    have here : front.length = 1 := by omega
    have first₀ := atFirst 0 (by omega)
    have first₁ := atFirst 1 (by omega)
    simp [here, left] at first₀ first₁
    have noFirst : first.utf8ByteSize = 0 := by
      rw [sizeFirst, ← first₀, ← first₁]
      omega
    have inSecond : whole[front.length + 8 + first.utf8ByteSize + 7]? =
        some 0 := by
      have start : front.length + 8 + first.utf8ByteSize =
          (front ++ [u, v, 0, 0, 0, 0, 0, 0] ++ strBytes first).length := by
        simp only [List.length_append, strBytes_length]
        rfl
      rw [right, start]
      simp only [← List.append_assoc]
      rw [List.append_assoc _ _ back, List.append_assoc _ _ (_ ++ back)]
      exact getElem?_middle _ [w, x, 0, 0, 0, 0, 0, 0] _ (by simp)
    have second := zeros _ inSecond
    omega
  · have high := atFirst (k + 1) (by omega)
    rw [← Nat.add_assoc, ← place, atLargest 1 (by omega)] at high
    have bound : k < 7 := by omega
    interval_cases k <;> simp at low high <;> subst_vars <;> omega

end SSTableMetadata

end TableFile

end F4kvsLsm
