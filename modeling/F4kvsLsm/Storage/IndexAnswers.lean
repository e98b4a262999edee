import F4kvsLsm.Lib.KeyOrder
import F4kvsLsm.Storage.PackedIndex

/-!
# What a built index answers

An index that is built from ascending keys, that is written and decoded, or
that is decoded from a legacy file finds exactly the keys it was built from.
All offsets fit 32 bits as long as the records take less than 4 GiB.
-/

namespace F4kvsLsm

open ByteCodec KeyOrder

namespace PackedIndex

/-! ## The layout of the records -/

/-- The records one after the other. -/
def packed (pairs : List IndexPair) : Bytes :=
  pairs.flatMap encodeRecord

def recordStart (pairs : List IndexPair) (i : Nat) : Nat :=
  (packed (pairs.take i)).length

theorem encodeRecord_length (pair : IndexPair) :
    (encodeRecord pair).length = 16 + (strBytes pair.1).length := by
  simp only [encodeRecord, encodeU32, encodeU64, List.length_append,
    toLeBytes_length]
  omega

theorem fromSorted_eq (pairs : List IndexPair) :
    fromSorted pairs =
      ⟨packed pairs, (List.range pairs.length).map fun i =>
        UInt32.ofNat (recordStart pairs i)⟩ := by
  induction pairs using List.reverseRecOn with
  | nil => rfl
  | append_singleton front pair inductionHypothesis =>
      have step : fromSorted (front ++ [pair]) =
          pushRecord (fromSorted front) pair := by
        rw [fromSorted, List.foldl_append]
        rfl
      have before : ∀ i ∈ List.range front.length,
          recordStart (front ++ [pair]) i = recordStart front i := by
        intro i member
        have below := List.mem_range.mp member
        rw [recordStart, recordStart, List.take_append_of_le_length below.le]
      have last : recordStart (front ++ [pair]) front.length =
          (packed front).length := by
        rw [recordStart, List.take_left]
      rw [step, inductionHypothesis, pushRecord, List.length_append,
        List.length_singleton, List.range_succ, List.map_append]
      simp only [List.map_cons, List.map_nil, last, packed,
        List.flatMap_append, List.flatMap_singleton, mk.injEq, true_and]
      congr 1
      apply List.map_congr_left
      intro i member
      rw [before i member]

theorem packed_split {pairs : List IndexPair} {i : Nat} {pair : IndexPair}
    (here : pairs[i]? = some pair) :
    packed pairs = packed (pairs.take i) ++ encodeRecord pair ++
      packed (pairs.drop (i + 1)) := by
  obtain ⟨bound, rfl⟩ := List.getElem?_eq_some_iff.mp here
  have cut : pairs = pairs.take i ++ pairs[i] :: pairs.drop (i + 1) := by
    rw [List.getElem_cons_drop, List.take_append_drop]
  conv => lhs; rw [cut]
  simp only [packed, List.flatMap_append, List.flatMap_cons,
    List.append_assoc]

theorem length_le_packed_length (pairs : List IndexPair) :
    16 * pairs.length ≤ (packed pairs).length := by
  induction pairs with
  | nil => simp [packed]
  | cons pair rest inductionHypothesis =>
      have record := encodeRecord_length pair
      rw [packed, List.flatMap_cons, List.length_append, List.length_cons]
      change _ ≤ _ + (packed rest).length
      omega

/-- The index of less than 4 GiB holds the pairs that it was built from. -/
theorem fromSorted_holds {pairs : List IndexPair}
    (small : (packed pairs).length < 2 ^ 32) :
    (fromSorted pairs).Holds (pairs.map toRecord) := by
  rw [Holds, fromSorted_eq, List.forall₂_iff_get]
  refine ⟨by simp, ?_⟩
  intro i bound _
  have inside : i < pairs.length := by simpa using bound
  have here := List.getElem?_eq_getElem inside
  have split := packed_split here
  have lengths := congrArg List.length split
  rw [List.length_append, List.length_append, encodeRecord_length] at lengths
  have start : (UInt32.ofNat (recordStart pairs i)).toNat =
      (packed (pairs.take i)).length := by
    rw [UInt32.toNat_ofNat', recordStart]
    exact Nat.mod_eq_of_lt (by omega)
  simp only [List.get_eq_getElem, List.getElem_map, List.getElem_range, start]
  exact recordAtOff_middle (by omega) split

/-! ## Searching ascending keys -/

section

variable {pairs : List IndexPair}

theorem downward_strBytes (bound : Bytes) (pairs : List IndexPair) :
    Downward Prod.fst (fun pair => decide (strBytes pair.1 < bound))
      pairs := by
  intro first _ second _ less below
  rw [decide_eq_true_eq] at below ⊢
  exact List.lt_trans (strBytes_lt_iff.mpr less) below

theorem partitionPoint_of_ascending
    (ascending : Ascending Prod.fst pairs) (bound : Bytes) :
    (FlatIndex.mk (pairs.map toRecord)).partitionPoint bound =
      pairs.countP fun pair => strBytes pair.1 < bound := by
  let below := fun pair : IndexPair => decide (strBytes pair.1 < bound)
  have downward := downward_strBytes bound pairs
  have front := takeWhile_eq_filter ascending downward
  have back := dropWhile_eq_filter ascending downward
  have partitioned : BinarySearch.Partitioned
      (fun record : IndexRecord => decide (record.1 < bound))
      ((pairs.filter below).map toRecord)
      ((pairs.filter (!below ·)).map toRecord) := by
    constructor
    · intro record member
      obtain ⟨pair, inFront, rfl⟩ := List.mem_map.mp member
      exact (List.mem_filter.mp inFront).2
    · intro record member
      obtain ⟨pair, inBack, rfl⟩ := List.mem_map.mp member
      exact Bool.not_eq_true' _ ▸ (List.mem_filter.mp inBack).2
  have point := BinarySearch.partitionPoint_eq partitioned
  rw [← List.map_append, ← front, ← back,
    List.takeWhile_append_dropWhile, List.length_map, front] at point
  rw [FlatIndex.partitionPoint, point, List.countP_eq_length_filter]

/-- The pair at the partition point is the first whose key is not smaller. -/
theorem getElem?_partitionPoint
    (ascending : Ascending Prod.fst pairs) (bound : Bytes) :
    pairs[pairs.countP fun pair => strBytes pair.1 < bound]? =
      (pairs.filter fun pair => !decide (strBytes pair.1 < bound)).head? := by
  have downward := downward_strBytes bound pairs
  let below := pairs.filter fun pair => decide (strBytes pair.1 < bound)
  let others := pairs.filter fun pair => !decide (strBytes pair.1 < bound)
  have cut : pairs = below ++ others := by
    dsimp only [below, others]
    rw [← takeWhile_eq_filter ascending downward,
      ← dropWhile_eq_filter ascending downward,
      List.takeWhile_append_dropWhile]
  have here : (below ++ others)[below.length]? =
      others[below.length - below.length]? :=
    List.getElem?_append_right (Nat.le_refl below.length)
  rw [← cut, Nat.sub_self, ← List.head?_eq_getElem?] at here
  rw [List.countP_eq_length_filter]
  exact here

theorem get_of_ascending
    (ascending : Ascending Prod.fst pairs) {key : String}
    {location : UInt64 × UInt32} :
    (FlatIndex.mk (pairs.map toRecord)).get key = some location ↔
      (key, location) ∈ pairs := by
  have found := getElem?_partitionPoint ascending (strBytes key)
  rw [FlatIndex.get, partitionPoint_of_ascending ascending,
    List.getElem?_map, found]
  cases back : pairs.filter
      (fun pair => !decide (strBytes pair.1 < strBytes key)) with
  | nil =>
      constructor
      · intro hit
        cases hit
      · intro member
        have inBack : (key, location) ∈ pairs.filter
            (fun pair => !decide (strBytes pair.1 < strBytes key)) := by
          refine List.mem_filter.mpr ⟨member, ?_⟩
          simp [List.lt_irrefl]
        rw [back] at inBack
        exact absurd inBack List.not_mem_nil
  | cons first rest =>
      have firstBack : first ∈ pairs.filter
          (fun pair => !decide (strBytes pair.1 < strBytes key)) := by
        rw [back]
        exact List.mem_cons_self
      obtain ⟨firstMember, above⟩ := List.mem_filter.mp firstBack
      simp only [strBytes_lt_iff, Bool.not_eq_true', decide_eq_false_iff_not,
        not_lt] at above
      simp only [List.head?_cons, Option.map_some, toRecord, strBytes_inj]
      constructor
      · intro hit
        by_cases same : first.1 = key
        · rw [if_pos same, Option.some.injEq] at hit
          rw [← same, ← hit]
          exact firstMember
        · rw [if_neg same] at hit
          cases hit
      · intro member
        have inBack : (key, location) ∈ first :: rest := by
          rw [← back]
          refine List.mem_filter.mpr ⟨member, ?_⟩
          simp [List.lt_irrefl]
        have sorted := ascending.filter
          fun pair => !decide (strBytes pair.1 < strBytes key)
        rw [back] at sorted
        have least : first.1 ≤ key := by
          rcases List.mem_cons.mp inBack with here | behind
          · rw [← here]
          · exact ((List.pairwise_cons.mp sorted).1 _ behind).le
        have same : first.1 = key := le_antisymm least above
        have pair := ascending.eq_of_key_eq firstMember member same
        rw [pair, if_pos rfl]

end

/-! ## Writing and decoding -/

theorem take_drop_table
    (offsets : List UInt32) (back : Bytes) {i : Nat} {off : UInt32}
    (here : offsets[i]? = some off) :
    ((offsets.flatMap (fun off => encodeU32 off.toNat) ++ back).drop
      (i * 4)).take 4 = encodeU32 off.toNat := by
  induction offsets generalizing i with
  | nil => simp at here
  | cons first rest inductionHypothesis =>
      have four : (encodeU32 first.toNat).length = 4 := toLeBytes_length 4 _
      rw [List.flatMap_cons, List.append_assoc]
      cases i with
      | zero =>
          rw [List.getElem?_cons_zero, Option.some.injEq] at here
          rw [Nat.zero_mul, List.drop_zero, ← four, List.take_left, here]
      | succ i =>
          rw [List.getElem?_cons_succ] at here
          rw [Nat.succ_mul, Nat.add_comm, ← List.drop_drop, ← four,
            List.drop_left, four]
          exact inductionHypothesis here

theorem flatMap_offsets_length (offsets : List UInt32) :
    (offsets.flatMap fun off => encodeU32 off.toNat).length =
      offsets.length * 4 := by
  induction offsets with
  | nil => rfl
  | cons first rest inductionHypothesis =>
      have four : (encodeU32 first.toNat).length = 4 := toLeBytes_length 4 _
      rw [List.flatMap_cons, List.length_append, inductionHypothesis, four,
        List.length_cons]
      omega

/-- An index comes back from its bytes, whatever its records are. -/
theorem decode_encode {index : PackedIndex}
    (few : index.recOff.length < 2 ^ 32) :
    decode index.encode = .ok index := by
  let table := index.recOff.flatMap fun off => encodeU32 off.toNat
  let header := magic ++ [version] ++ encodeU32 index.recOff.length
  have four : (encodeU32 index.recOff.length).length = 4 :=
    toLeBytes_length 4 _
  have nine : header.length = 9 := by
    simp only [header, List.length_append, four]
    rfl
  have tableLength : table.length = index.recOff.length * 4 :=
    flatMap_offsets_length _
  have whole : index.encode = header ++ (table ++ index.data) := by
    simp only [encode, header, table, List.append_assoc]
  have length : index.encode.length =
      9 + index.recOff.length * 4 + index.data.length := by
    rw [whole, List.length_append, nine, List.length_append, tableLength]
    omega
  have current : isV1 index.encode = true := by
    rw [isV1, decide_eq_true_eq]
    refine ⟨by omega, ?_⟩
    rw [encode, List.append_assoc, List.append_assoc, List.append_assoc]
    exact List.isPrefixOf_iff_prefix.mpr (List.prefix_append _ _)
  have versioned : index.encode[4]? = some version := by
    rw [whole]
    rfl
  have count : headerCount index.encode = index.recOff.length := by
    have body : index.encode.drop 5 =
        encodeU32 index.recOff.length ++ (table ++ index.data) := by
      rw [whole]
      rfl
    rw [headerCount, body, ← four, List.take_left]
    exact fromLeBytes_encodeU32 few
  have rest : index.encode.drop 9 = table ++ index.data := by
    rw [whole, ← nine, List.drop_left]
  have data : index.encode.drop (9 + index.recOff.length * 4) =
      index.data := by
    rw [← List.drop_drop, rest, ← tableLength, List.drop_left]
  have offsets : (List.range index.recOff.length).map
      (offsetAt index.encode) = index.recOff := by
    apply List.ext_getElem?
    intro i
    by_cases inside : i < index.recOff.length
    · have here := List.getElem?_eq_getElem inside
      rw [List.getElem?_map, List.getElem?_range inside, Option.map_some,
        here, offsetAt, ← List.drop_drop, rest,
        take_drop_table _ _ here, fromLeBytes_encodeU32 (UInt32.toNat_lt _),
        UInt32.ofNat_toNat]
    · rw [List.getElem?_eq_none (by simpa using inside),
        List.getElem?_eq_none (by omega)]
  rw [decode, if_pos current, decodeV1, if_neg (not_not.mpr versioned),
    if_neg (by omega)]
  dsimp only
  rw [count, if_neg (by omega), data, offsets]

/-! ## Legacy files -/

/-- An entry of a serialized map. -/
def encodePair (pair : IndexPair) : Bytes :=
  encodeStr pair.1 ++ encodeU64 pair.2.1.toNat ++ encodeU32 pair.2.2.toNat

/-- `bincode::serialize` of the map with these entries. -/
def encodeMap (pairs : List IndexPair) : Bytes :=
  encodeU64 pairs.length ++ pairs.flatMap encodePair

theorem decodeU32_reads (n : UInt32) :
    Reads decodeU32 (encodeU32 n.toNat) n := by
  intro rest
  have field := encodeU32_reads n.toNat_lt rest
  simp [decodeU32, field]

theorem decodePair_reads {pair : IndexPair}
    (fits : pair.1.utf8ByteSize < 2 ^ 64) :
    Reads decodePair (encodePair pair) pair := by
  intro rest
  have keyReads := decodeStr_reads fits
  have offReads := WALEntry.decodeU64_reads pair.2.1
  have sizeReads := decodeU32_reads pair.2.2
  simp only [decodePair, encodePair, List.append_assoc, keyReads _,
    offReads _, sizeReads _, Option.bind_eq_bind, Option.bind_some,
    Option.pure_def]

theorem decodePairs_reads {pairs : List IndexPair}
    (fit : ∀ pair ∈ pairs, pair.1.utf8ByteSize < 2 ^ 64) :
    Reads (decodePairs pairs.length) (pairs.flatMap encodePair) pairs := by
  intro rest
  induction pairs with
  | nil => rfl
  | cons pair behind inductionHypothesis =>
      have first := decodePair_reads (fit pair List.mem_cons_self)
      have others := inductionHypothesis fun other member =>
        fit other (List.mem_cons_of_mem pair member)
      rw [List.length_cons, decodePairs, List.flatMap_cons,
        List.append_assoc]
      simp only [first _, others, Option.bind_eq_bind, Option.bind_some,
        Option.pure_def]

/-- A map keeps ascending entries in their order. -/
theorem toList_ofList {pairs : List IndexPair}
    (ascending : Ascending Prod.fst pairs) :
    (Std.TreeMap.ofList pairs).toList = pairs := by
  have different : pairs.Pairwise fun first second =>
      ¬ compare first.1 second.1 = .eq :=
    ascending.imp fun less same => less.ne (Std.compare_eq_iff_eq.mp same)
  have sorted : Ascending Prod.fst (Std.TreeMap.ofList pairs).toList :=
    Std.TreeMap.ordered_keys_toList.imp fun less =>
      Memtable.lt_of_compare less
  refine sorted.eq_of_mem_iff ascending fun pair => ?_
  rw [show pair = (pair.1, pair.2) from rfl,
    Std.TreeMap.mem_toList_iff_getElem?_eq_some]
  have lookup : ∀ key location, (key, location) ∈ pairs →
      (Std.TreeMap.ofList pairs)[key]? = some location :=
    fun key location member => Std.TreeMap.getElem?_ofList_of_mem
      (Std.compare_eq_iff_eq.mpr rfl) different member
  refine ⟨fun found => ?_, lookup pair.1 pair.2⟩
  cases held : (pairs.map Prod.fst).contains pair.1 with
  | true =>
      obtain ⟨other, member, same⟩ :=
        List.mem_map.mp (List.contains_iff_mem.mp held)
      have there := lookup other.1 other.2 member
      rw [same, found, Option.some.injEq] at there
      rw [show pair = other from Prod.ext same.symm there]
      exact member
  | false =>
      rw [Std.TreeMap.getElem?_ofList_of_contains_eq_false held] at found
      cases found

theorem length_of_mem_packed {pairs : List IndexPair} {pair : IndexPair}
    (member : pair ∈ pairs) :
    16 + pair.1.utf8ByteSize ≤ (packed pairs).length := by
  obtain ⟨i, here⟩ := List.mem_iff_getElem?.mp member
  have lengths := congrArg List.length (packed_split here)
  rw [List.length_append, List.length_append, encodeRecord_length,
    strBytes_length] at lengths
  omega

/-- The count of a map that small does not look like the current format. -/
theorem isV1_encodeMap {pairs : List IndexPair}
    (small : (packed pairs).length < 2 ^ 32) :
    isV1 (encodeMap pairs) = false := by
  have few := length_le_packed_length pairs
  rw [isV1, decide_eq_false_iff_not]
  rintro ⟨-, starts⟩
  have front : (encodeMap pairs).take 4 = encodeU32 pairs.length := rfl
  have count : (encodeMap pairs).take 4 = magic :=
    (List.prefix_iff_eq_take.mp (List.isPrefixOf_iff_prefix.mp starts)).symm
  have same := congrArg fromLeBytes (front.symm.trans count)
  rw [fromLeBytes_encodeU32 (by omega),
    show fromLeBytes magic = 1481192518 from rfl] at same
  omega

/-- A legacy file gives the index of its entries. -/
theorem decode_encodeMap {pairs : List IndexPair}
    (ascending : Ascending Prod.fst pairs)
    (small : (packed pairs).length < 2 ^ 32) :
    decode (encodeMap pairs) = .ok (fromSorted pairs) := by
  have few := length_le_packed_length pairs
  have fit : ∀ pair ∈ pairs, pair.1.utf8ByteSize < 2 ^ 64 := by
    intro pair member
    have bound := length_of_mem_packed member
    omega
  have count := encodeU64_reads (n := pairs.length) (by omega)
  have entries := decodePairs_reads fit []
  rw [List.append_nil] at entries
  have map : decodeMap (encodeMap pairs) =
      some (Std.TreeMap.ofList pairs, []) := by
    simp only [decodeMap, encodeMap, count _, entries, Option.bind_eq_bind,
      Option.bind_some, Option.pure_def]
  rw [decode, isV1_encodeMap small, decodeBincode, deserialize, map]
  simp only [Bool.false_eq_true, if_false, Option.map_some]
  rw [toList_ofList ascending]

/-! ## Answers -/

/-- The index finds exactly the listed keys, lists them in order, and counts
the keys below a bound. -/
structure Answers (index : PackedIndex) (pairs : List IndexPair) : Prop where
  get : ∀ key, ∃ found, index.get key = .ok found ∧
    ∀ location, found = some location ↔ (key, location) ∈ pairs
  «at» : ∀ i, index.at i = .ok (pairs[i]?.map toRecord)
  partitionPoint : ∀ bound, index.partitionPoint bound =
    .ok (pairs.countP fun pair => strBytes pair.1 < bound)

theorem Holds.answers {index : PackedIndex} {pairs : List IndexPair}
    (holds : index.Holds (pairs.map toRecord))
    (ascending : Ascending Prod.fst pairs) : index.Answers pairs := by
  constructor
  · intro key
    exact ⟨_, holds.get_eq key, fun location => get_of_ascending ascending⟩
  · intro i
    rw [holds.at_eq, List.getElem?_map]
  · intro bound
    rw [holds.partitionPoint_eq, partitionPoint_of_ascending ascending]

/-- The index that is built from ascending keys, the one decoded from its
bytes and the one decoded from the legacy map give the same answers. -/
theorem built_and_decoded_indexes_answer
    {pairs : List IndexPair} (ascending : Ascending Prod.fst pairs)
    (small : (packed pairs).length < 2 ^ 32) :
    ∃ decoded legacy,
      decode (fromSorted pairs).encode = .ok decoded ∧
      decode (encodeMap pairs) = .ok legacy ∧
      (fromSorted pairs).Answers pairs ∧ decoded.Answers pairs ∧
      legacy.Answers pairs := by
  have few : (fromSorted pairs).recOff.length < 2 ^ 32 := by
    have bound := length_le_packed_length pairs
    rw [fromSorted_eq]
    simp only [List.length_map, List.length_range]
    omega
  have answers := (fromSorted_holds small).answers ascending
  exact ⟨fromSorted pairs, fromSorted pairs, decode_encode few,
    decode_encodeMap ascending small, answers, answers, answers⟩

/-- The empty key, and a key that begins like another. -/
theorem nested_keys_answer :
    (fromSorted [("", 10, 4), ("a", 20, 8), ("abc", 30, 2)]).Answers
      [("", 10, 4), ("a", 20, 8), ("abc", 30, 2)] := by
  have ascending : Ascending Prod.fst
      ([("", 10, 4), ("a", 20, 8), ("abc", 30, 2)] : List IndexPair) := by
    simp only [Ascending, List.pairwise_cons, List.mem_cons,
      List.not_mem_nil, or_false, forall_eq_or_imp, forall_eq,
      false_imp_iff, implies_true, and_true, List.Pairwise.nil]
    decide
  obtain ⟨_, _, _, _, answers, _⟩ :=
    built_and_decoded_indexes_answer ascending (by decide)
  exact answers

end PackedIndex

end F4kvsLsm
