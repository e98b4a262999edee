import F4kvsLsm.Storage.TableReader

/-!
# A written table opens again

The search for the metadata looks at one window when the metadata fit into it.
It ends where they begin exactly when the keys are clear, and then their
checksum is right.
-/

namespace F4kvsLsm

open ByteCodec

/-! ## Reading parts of a file -/

section

variable {file front part back : Bytes} {offset : UInt64}

theorem readExactAt_middle (split : file = front ++ part ++ back)
    (starts : offset.toNat = front.length) :
    readExactAt file offset part.length = .ok part := by
  subst split
  rw [readExactAt, if_pos, starts, List.append_assoc, List.drop_left,
    List.take_left]
  rw [starts, List.length_append, List.length_append]
  exact Or.inr (Nat.le_add_right _ _)

theorem readU32LeAt_middle {n : Nat} (fits : n < 2 ^ 32)
    (split : file = front ++ encodeU32 n ++ back)
    (starts : offset.toNat = front.length) :
    readU32LeAt file offset = .ok n := by
  have read := readExactAt_middle split starts
  have four : (encodeU32 n).length = 4 := toLeBytes_length 4 n
  rw [four] at read
  rw [readU32LeAt, read, Except.map, fromLeBytes_encodeU32 fits]

end

theorem toNat_ofNat_of_lt {n : Nat} (fits : n < 2 ^ 64) :
    (UInt64.ofNat n).toNat = n := by
  rw [UInt64.toNat_ofNat', Nat.mod_eq_of_lt fits]

open TableFile.SSTableMetadata

namespace TableFile

variable {metadata : SSTableMetadata}

theorem checksummed_length (raw : Bytes) :
    (checksummed raw).length = raw.length + 4 := by
  rw [checksummed, List.length_append]
  exact congrArg _ (toLeBytes_length 4 _)

/-! ## The search in the last window -/

def FitsWindow (metadata : SSTableMetadata) : Prop :=
  metadata.encode.length + 4 ≤ metadataWindow

theorem FitsWindow.fits (window : FitsWindow metadata) : metadata.Fits := by
  rw [FitsWindow, encode_length, metadataWindow] at window
  exact ⟨by omega, by omega⟩

/-- The search ends at the metadata, or at a later place that decodes. -/
theorem lastMetadata_eq (front : Bytes) {sum : Bytes}
    (window : FitsWindow metadata) (four : sum.length = 4) :
    (KeysClear metadata.encodeKeys ∧
      lastMetadata (front ++ metadata.encode ++ sum) =
        some (front.length, metadata)) ∨
    (¬ KeysClear metadata.encodeKeys ∧ ∃ i other,
      lastMetadata (front ++ metadata.encode ++ sum) = some (i, other) ∧
        other ≠ metadata) := by
  have short : metadata.encode.length < 2 ^ 64 := by
    rw [FitsWindow, metadataWindow] at window
    omega
  have positive : 0 < metadata.encode.length := by
    rw [encode_length]
    omega
  let whole := front ++ metadata.encode
  have fields : (front ++ metadata.encode ++ sum).take
      ((front ++ metadata.encode ++ sum).length - 4) = whole := by
    rw [List.length_append, four, Nat.add_sub_cancel]
    exact List.take_left
  have length : whole.length = front.length + metadata.encode.length :=
    List.length_append
  have dropped : ∀ d, whole.drop (front.length + d) =
      metadata.encode.drop d := by
    intro d
    rw [← List.drop_drop, List.drop_left]
  have here : deserialize decode (whole.drop front.length) =
      some metadata := by
    have start := dropped 0
    rw [Nat.add_zero, List.drop_zero] at start
    have decoded := deserialize_of_reads (decode_reads window.fits) []
    rw [start]
    rwa [List.append_nil] at decoded
  have later := exists_decode_drop_iff short
  simp only [lastMetadata, fields]
  by_cases clear : KeysClear metadata.encodeKeys
  · refine .inl ⟨clear, ?_⟩
    rw [LastMatch.lastBelow_eq_some_iff]
    refine ⟨by omega, here, fun i above below => ?_⟩
    by_contra decodes
    refine absurd clear (later.mp ⟨i - front.length, by omega, by omega, ?_⟩)
    rw [← dropped, Nat.add_sub_cancel' above.le]
    exact Option.ne_none_iff_isSome.mp decodes
  · refine .inr ⟨clear, ?_⟩
    obtain ⟨d, behind, inside, decodes⟩ := later.mpr clear
    cases found : LastMatch.lastBelow
        (fun i => deserialize decode (whole.drop i)) whole.length with
    | none =>
        have nothing := LastMatch.lastBelow_eq_none_iff.mp found front.length
          (by omega)
        rw [here] at nothing
        cases nothing
    | some last =>
        obtain ⟨i, other⟩ := last
        obtain ⟨below, hit, nothing⟩ :=
          LastMatch.lastBelow_eq_some_iff.mp found
        have late : front.length < i := by
          by_contra early
          have seen := nothing (front.length + d) (by omega) (by omega)
          rw [dropped] at seen
          rw [seen] at decodes
          cases decodes
        refine ⟨i, other, rfl, fun same => ?_⟩
        obtain ⟨⟨_, rest⟩, read, decoded⟩ := Option.map_eq_some_iff.mp hit
        obtain ⟨-, split⟩ := decode_eq_some_iff.mp read
        have total := congrArg List.length split
        dsimp only at decoded
        rw [List.length_drop, length, decoded, same, List.length_append]
          at total
        omega

theorem searchMetadata_eq {file body sum : Bytes} {i : Nat}
    {found : SSTableMetadata}
    (split : file = body ++ metadata.encode ++ sum) (four : sum.length = 4)
    (short : file.length < 2 ^ 63) (window : FitsWindow metadata)
    (last : lastMetadata
      (body.drop (file.length - metadataWindow) ++ metadata.encode ++ sum) =
        some (i, found)) :
    searchMetadata file file.length file.length =
      .ok (some (found, file.length - metadataWindow + i,
        file.length - (file.length - metadataWindow) - 4 - i)) := by
  have length : file.length = body.length + metadata.encode.length + 4 := by
    rw [split, List.length_append, List.length_append, four]
  rw [FitsWindow] at window
  obtain ⟨fuel, size⟩ : ∃ fuel, file.length = fuel + 1 :=
    ⟨file.length - 1, by omega⟩
  let pos := file.length - metadataWindow
  have readSize : min file.length metadataWindow = file.length - pos := by
    omega
  have back : file.length - (file.length - pos) = pos := by omega
  have part : file = body.take pos ++
      (body.drop pos ++ metadata.encode ++ sum) ++ [] := by
    rw [List.append_nil, ← List.append_assoc, ← List.append_assoc,
      List.take_append_drop]
    exact split
  have front : (body.take pos).length = pos := by
    rw [List.length_take]
    omega
  have read := @readExactAt_middle _ _ _ _ (UInt64.ofNat pos) part (by
    rw [front, toNat_ofNat_of_lt]
    omega)
  have whole : (body.drop pos ++ metadata.encode ++ sum).length =
      file.length - pos := by
    have total := congrArg List.length part
    rw [List.append_nil, List.length_append, front] at total
    omega
  rw [whole] at read
  have nonzero : file.length ≠ 0 := by omega
  conv => lhs; arg 2; rw [size]
  simp only [searchMetadata, if_neg nonzero, readSize, back, read, last, pos]

/-- What a round of the search that found something makes of it. -/
theorem tryReadMetadata_metadata {file : Bytes} {found : SSTableMetadata}
    {offset size : Nat} {opened : OpenedTable}
    (searched : searchMetadata file file.length file.length =
      .ok (some (found, offset, size)))
    (ended : tryReadMetadata file = .ok opened) :
    opened.metadata = found := by
  rw [tryReadMetadata, searched] at ended
  obtain ⟨_, here, ended⟩ := Fallible.bind_eq_ok_iff.mp ended
  cases here
  obtain ⟨stored, -, ended⟩ := Fallible.bind_eq_ok_iff.mp ended
  obtain ⟨buffer, -, ended⟩ := Fallible.bind_eq_ok_iff.mp ended
  dsimp only at ended
  split at ended
  · cases ended
  · cases ended
    rfl

theorem tryReadMetadata_eq_ok_iff {body : Bytes}
    (short : (body ++ checksummed metadata.encode).length < 2 ^ 63)
    (window : FitsWindow metadata) :
    tryReadMetadata (body ++ checksummed metadata.encode) =
        .ok ⟨metadata, isCompressed (body ++ checksummed metadata.encode)⟩ ↔
      KeysClear metadata.encodeKeys := by
  let sum := encodeU32 (crc32 metadata.encode).toNat
  have four : sum.length = 4 := toLeBytes_length 4 _
  have split : body ++ checksummed metadata.encode =
      body ++ metadata.encode ++ sum := (List.append_assoc ..).symm
  rw [split] at short ⊢
  let file := body ++ metadata.encode ++ sum
  have length : file.length = body.length + metadata.encode.length + 4 := by
    rw [List.length_append, List.length_append, four]
  have below : file.length < 2 ^ 63 := short
  have inside := window
  rw [FitsWindow] at inside
  rcases lastMetadata_eq (body.drop (file.length - metadataWindow))
      window four with ⟨clear, last⟩ | ⟨unclear, i, other, last, different⟩
  · refine iff_of_true ?_ clear
    have searched := searchMetadata_eq rfl four short window last
    have start : file.length - metadataWindow +
        (body.drop (file.length - metadataWindow)).length = body.length := by
      rw [List.length_drop]
      omega
    have size : file.length - (file.length - metadataWindow) - 4 -
        (body.drop (file.length - metadataWindow)).length =
          metadata.encode.length := by
      rw [List.length_drop]
      omega
    rw [start, size] at searched
    have stored : readU32LeAt file
        (UInt64.ofNat (body.length + metadata.encode.length)) =
          .ok (crc32 metadata.encode).toNat :=
      readU32LeAt_middle (UInt32.toNat_lt _) (List.append_nil _).symm (by
        rw [toNat_ofNat_of_lt (by omega), List.length_append])
    have buffer : readExactAt file (UInt64.ofNat body.length)
        metadata.encode.length = .ok metadata.encode :=
      readExactAt_middle rfl (toNat_ofNat_of_lt (by omega))
    rw [tryReadMetadata, searched]
    change (readU32LeAt file _ >>= fun stored => _) = _
    rw [stored]
    change (readExactAt file _ _ >>= fun buffer => _) = _
    rw [buffer]
    exact if_neg (not_not.mpr rfl)
  · refine iff_of_false (fun ended => ?_) unclear
    have searched := searchMetadata_eq rfl four short window last
    exact different (tryReadMetadata_metadata searched ended).symm

/-! ## Written tables -/

variable {compressVec : Bytes → Except String Bytes}
  {hash : String → Nat → Nat} {entries : List SSTableEntry} {written : WrittenTable}
  {writer : BlockWriter} {indexData : Bytes}

theorem Consists.exists_body
    (parts : Consists compressVec hash entries written writer indexData) :
    ∃ rest, written.file =
      BlockWriter.start.out ++ rest ++ checksummed written.metadata.encode := by
  obtain ⟨rest, out⟩ := BlockWriter.writeBlocks_out parts.blocks
  refine ⟨rest ++ checksummed indexData ++
    checksummed written.bloomFilter.toBytes, ?_⟩
  rw [parts.file, ← out]
  simp only [List.append_assoc]

theorem Consists.isCompressed
    (parts : Consists compressVec hash entries written writer indexData) :
    isCompressed written.file = true := by
  obtain ⟨rest, file⟩ := parts.exists_body
  have split : written.file = [] ++ compressedMagic ++ ([1, 0, 0, 0] ++
      (rest ++ checksummed written.metadata.encode)) := by
    rw [file]
    simp only [BlockWriter.start, List.append_assoc, List.nil_append]
  have magic := @readExactAt_middle _ _ _ _ 0 split rfl
  have four : compressedMagic.length = 4 := rfl
  rw [four] at magic
  rw [TableFile.isCompressed, magic]
  exact decide_eq_true rfl

theorem Consists.tryReadMetadata_eq_ok_iff
    (parts : Consists compressVec hash entries written writer indexData)
    (short : written.file.length < 2 ^ 63)
    (room : written.metadata.smallestKey.utf8ByteSize +
      written.metadata.largestKey.utf8ByteSize ≤ 1952) :
    tryReadMetadata written.file = .ok ⟨written.metadata, true⟩ ↔
      KeysClear written.metadata.encodeKeys := by
  obtain ⟨rest, file⟩ := parts.exists_body
  have window : FitsWindow written.metadata := by
    rw [FitsWindow, encode_length, metadataWindow]
    omega
  have magic := parts.isCompressed
  rw [file] at short magic ⊢
  rw [← TableFile.tryReadMetadata_eq_ok_iff short window, magic]

/-- Where the two keys leave room in the window, a written file opens with its
own metadata exactly when no two encoded strings lie in the encoded keys
behind their beginning.  Keys without zero bytes are such keys. -/
theorem written_table_opens_iff
    (compressVec : Bytes → Except String Bytes) (hash : String → Nat → Nat)
    {level createdAt : UInt64} {entries : List SSTableEntry}
    {written : WrittenTable}
    (wrote : writeEntries compressVec hash level createdAt entries =
      .ok (some written))
    (short : written.file.length < 2 ^ 63)
    (room : written.metadata.smallestKey.utf8ByteSize +
      written.metadata.largestKey.utf8ByteSize ≤ 1952) :
    (tryReadMetadata written.file = .ok ⟨written.metadata, true⟩ ↔
      KeysClear written.metadata.encodeKeys) ∧
    (0 ∉ strBytes written.metadata.smallestKey →
      0 ∉ strBytes written.metadata.largestKey →
        tryReadMetadata written.file = .ok ⟨written.metadata, true⟩) := by
  obtain ⟨writer, indexData, parts⟩ := writeEntries_consists wrote
  have opens := parts.tryReadMetadata_eq_ok_iff short room
  refine ⟨opens, fun clean clean' => opens.mpr ?_⟩
  exact keysClear_of_no_zero clean clean' (by omega)

/-- A live entry and a tombstone. -/
def twoEntries : List SSTableEntry :=
  [⟨"a", .string "x", 1, false⟩, ⟨"b", .null, 2, true⟩]

def compressedBlock : Bytes :=
  [69, 20, 31, 0, 0, 0, 1, 0, 9, 1, 0, 97, 1, 7, 17, 13, 0, 120, 17, 9, 20, 0,
   161, 175, 2, 0, 22, 29, 39, 68, 98, 7, 0, 0, 0, 2, 0, 0, 0, 0, 0, 0, 0, 1,
   247, 9, 121, 100]

def compressedIndex : Bytes :=
  [51, 24, 70, 52, 73, 88, 1, 2, 0, 9, 1, 36, 17, 0, 0, 0, 1, 0, 0, 0, 97, 8,
   9, 16, 5, 1, 1, 17, 48, 98, 8, 0, 0, 0, 0, 0, 0, 0, 39, 0, 0, 0]

/-- The index of the two entries. -/
def rawIndex : Bytes :=
  [70, 52, 73, 88, 1, 2, 0, 0, 0, 0, 0, 0, 0, 17, 0, 0, 0, 1, 0, 0, 0, 97, 8,
   0, 0, 0, 0, 0, 0, 0, 0, 0, 0, 0, 1, 0, 0, 0, 98, 8, 0, 0, 0, 0, 0, 0, 0,
   39, 0, 0, 0]

/-- A compressor for a few sections that are known. -/
def compressBy (book : List (Bytes × Bytes)) (raw : Bytes) :
    Except String Bytes :=
  match book.find? (·.1 = raw) with
  | some pair => .ok pair.2
  | none => .error "not in the book"

/-- What the compressor makes of the block and of the index. -/
def compressTwo : Bytes → Except String Bytes :=
  compressBy [(twoEntries.flatMap framedEntry, compressedBlock),
    (rawIndex, compressedIndex)]

theorem exists_two_written :
    ∃ written, writeEntries compressTwo (fun key i => key.length + i) 0 1
        twoEntries = .ok (some written) ∧
      written.file.length < 2 ^ 63 ∧ written.metadata.smallestKey = "a" ∧
        written.metadata.largestKey = "b" := by
  have ran : (writeEntries compressTwo (fun key i => key.length + i) 0 1
      twoEntries).toOption.join.any (fun written =>
        decide (written.file.length < 2 ^ 63 ∧
          written.metadata.smallestKey = "a" ∧
          written.metadata.largestKey = "b")) = true := by decide +kernel
  obtain ⟨written, found, holds⟩ := (Option.any_eq_true _ _).mp ran
  refine ⟨written, ?_, of_decide_eq_true holds⟩
  rw [← Fallible.toOption_eq_some_iff, ← Option.join_eq_some_iff]
  exact found

/-- The table of the two entries opens. -/
theorem two_entries_open :
    ∃ written, writeEntries compressTwo (fun key i => key.length + i) 0 1
        twoEntries = .ok (some written) ∧
      tryReadMetadata written.file = .ok ⟨written.metadata, true⟩ := by
  obtain ⟨written, wrote, short, smallest, largest⟩ := exists_two_written
  have room : written.metadata.smallestKey.utf8ByteSize +
      written.metadata.largestKey.utf8ByteSize ≤ 1952 := by
    rw [smallest, largest]
    decide
  refine ⟨written, wrote,
    (written_table_opens_iff compressTwo _ wrote short room).2 ?_ ?_⟩
  · rw [smallest]
    decide
  · rw [largest]
    decide

end TableFile

end F4kvsLsm
