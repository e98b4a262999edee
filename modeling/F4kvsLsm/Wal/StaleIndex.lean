import F4kvsLsm.Lib.StableSort
import F4kvsLsm.Wal.ResumeFrames

/-!
# Recovery with an index that is older than the frame files

A rotation leaves the watermark of the old segment in the header of the new
one.  When a power loss brings that header back, a recovery applies it to the
new segment, and if the last frame there has the same number, it is cut at the
offset of the other frame.
-/

namespace F4kvsLsm

open ByteCodec Fallible Versions

namespace IndexedWal

open IndexedWalSegment

/-- The bytes of the whole records of a frame file. -/
def usedBytes (content : Bytes) : Nat :=
  (frames (scanFrames (fun _ => true) content).1).length

/-- The watermark is not on the last frame of its segment, or it leaves all
records of that frame in front of it and does not lie behind the file. -/
def WatermarkCovers (disk : IndexedDisk) : Prop :=
  ∀ header, disk.latest = some header →
    ∀ dir ∈ disk.dirs, dir.segmentId = header.segmentId →
      ∀ content, frameContent dir (lastScanned dir) = some content →
        lastScanned dir = header.committedFrame →
          header.committedOffset = 0 ∨
            usedBytes content ≤ header.committedOffset ∧
              header.committedOffset ≤ content.length

/-! ## One frame file -/

section

variable {config : WalConfig} {entries : List WALEntry}

theorem bodies_frameFile
    (recordable : ∀ entry ∈ entries, entry.Recordable) :
    (scanFrames (fun _ => true) (frameFile config (records entries))).1 =
      entries.map WALEntry.encode := by
  have framable : ∀ body ∈ entries.map WALEntry.encode,
      Framable (fun _ => true) body := by
    intro body member
    obtain ⟨entry, inside, rfl⟩ := List.mem_map.mp member
    exact ⟨entry.encode_length_ne_zero, (recordable entry inside).fits, rfl⟩
  rw [frameFile, records, scanFrames_frames_append framable,
    scanFrames_zeros, List.append_nil]

theorem usedBytes_frameFile
    (recordable : ∀ entry ∈ entries, entry.Recordable) :
    usedBytes (frameFile config (records entries)) =
      (records entries).length := by
  rw [usedBytes, bodies_frameFile recordable, records]

theorem decodeFrames_cut
    (recordable : ∀ entry ∈ entries, entry.Recordable) {limit : Nat}
    (cut : limit < (records entries).length) :
    ∃ count, count < entries.length ∧
      decodeFrames ((records entries).take limit) =
        .ok (entries.take count) := by
  have bodies : ∃ count, count < entries.length ∧
      (scanFrames (fun _ => true) ((records entries).take limit)).1 =
        (entries.take count).map WALEntry.encode := by
    induction entries generalizing limit with
    | nil => simp at cut
    | cons entry entries inductionHypothesis =>
        have first := recordable entry (by simp)
        have framable : Framable (fun _ => true) entry.encode :=
          ⟨entry.encode_length_ne_zero, first.fits, rfl⟩
        rw [records_cons] at cut ⊢
        by_cases torn : limit < (frame entry.encode).length
        · refine ⟨0, Nat.succ_pos _, ?_⟩
          rw [List.take_append_of_le_length torn.le,
            scanFrames_take_frame framable torn]
          rfl
        · have shorter : limit - (frame entry.encode).length <
              (records entries).length := by
            rw [List.length_append] at cut
            omega
          obtain ⟨count, less, rest⟩ := inductionHypothesis
            (fun other member => recordable other (by simp [member])) shorter
          refine ⟨count + 1, Nat.succ_lt_succ less, ?_⟩
          rw [List.take_append,
            List.take_of_length_le (Nat.le_of_not_lt torn),
            scanFrames_frame_append framable, rest]
          rfl
  obtain ⟨count, less, scanned⟩ := bodies
  refine ⟨count, less, decodeFrames_of_bodies ?_ scanned⟩
  intro entry member
  exact recordable entry (List.mem_of_mem_take member)

/-- A limit within the file leaves the first entries of the frame, and all of
them only if it is behind the records. -/
theorem decodeFrames_take
    (config : WalConfig)
    (recordable : ∀ entry ∈ entries, entry.Recordable) (limit : Nat) :
    ∃ result,
      decodeFrames ((frameFile config (records entries)).take limit) =
        .ok result ∧
      result.length ≤ entries.length ∧
      (limit < (records entries).length →
        result.length < entries.length) ∧
      ((records entries).length ≤ limit → result = entries) := by
  by_cases cut : limit < (records entries).length
  · obtain ⟨count, less, decoded⟩ := decodeFrames_cut recordable cut
    have size : (entries.take count).length < entries.length := by
      rw [List.length_take]
      omega
    refine ⟨entries.take count, ?_, size.le, fun _ => size, ?_⟩
    · rw [frameFile, List.take_append_of_le_length cut.le, decoded]
    · intro whole
      omega
  · refine ⟨entries, ?_, Nat.le_refl _, fun inside => absurd inside cut,
      fun _ => rfl⟩
    rw [frameFile, List.take_append,
      List.take_of_length_le (Nat.le_of_not_lt cut), List.take_replicate]
    exact decodeFrames_records recordable _

end

/-! ## Parts that are read -/

section

variable {α β : Type} {read : α → Except LsmError (List β)}
variable {whole : α → List β} {values : List α} {parts : List (List β)}

/-- Parts that are no longer than they should be are together no longer, and
shorter if one of them is. -/
theorem mapM_shorter
    (bound : ∀ a ∈ values, ∀ result, read a = .ok result →
      result.length ≤ (whole a).length)
    (all : values.mapM read = .ok parts) :
    parts.flatten.length ≤ (values.flatMap whole).length ∧
      ((∃ a ∈ values, ∀ result, read a = .ok result →
          result.length < (whole a).length) →
        parts.flatten.length < (values.flatMap whole).length) := by
  induction values generalizing parts with
  | nil =>
      cases all
      simp
  | cons first values inductionHypothesis =>
      rw [List.mapM_cons] at all
      cases here : read first with
      | error e =>
          rw [here] at all
          cases all
      | ok result =>
          cases rest : values.mapM read with
          | error e =>
              rw [here, rest] at all
              cases all
          | ok results =>
              rw [here, rest] at all
              cases all
              have front := bound first (by simp) result here
              obtain ⟨back, strict⟩ := inductionHypothesis
                (fun a member => bound a (by simp [member])) rest
              simp only [List.flatten_cons, List.flatMap_cons,
                List.length_append]
              constructor
              · omega
              · rintro ⟨a, member, less⟩
                rcases List.mem_cons.mp member with rfl | tail
                · have := less result here
                  omega
                · have := strict ⟨a, tail, less⟩
                  omega

end

/-! ## A segment -/

/-- A segment whose frames can be read back. -/
structure SegmentLog.Readable (log : SegmentLog) : Prop where
  numbered : log.chunks.Pairwise fun a b => a.1 < b.1
  numberedFrom : ∀ chunk ∈ log.chunks, 1 ≤ chunk.1
  recordable : ∀ entry ∈ log.entries, entry.Recordable

section

variable {config : WalConfig} {log : SegmentLog} {state : WalIndexHeader}

theorem SegmentLog.Readable.chunk
    (readable : log.Readable) {chunk : Nat × List WALEntry}
    (member : chunk ∈ log.chunks) :
    ∀ entry ∈ chunk.2, entry.Recordable :=
  fun entry inside =>
    readable.recordable entry (List.mem_flatMap.mpr ⟨chunk, member, inside⟩)

theorem SegmentLog.content_eq
    {id : Nat} {content : Bytes}
    (found : frameContent (log.dir config) id = some content) :
    ∃ chunk ∈ log.chunks, chunk.1 = id ∧
      content = frameFile config (records chunk.2) := by
  obtain ⟨chunk, member, same⟩ :=
    List.mem_map.mp (frameContent_eq_some found)
  rw [Prod.mk.injEq] at same
  exact ⟨chunk, member, same.1, same.2.symm⟩

theorem frameEntries_chunk
    (readable : log.Readable) {chunk : Nat × List WALEntry}
    (member : chunk ∈ log.chunks) :
    frameEntries (frameFile config (records chunk.2)) = chunk.2 := by
  rw [frameEntries, frameFile_decodes (readable.chunk member)]

theorem readFrameAt_short
    (readable : log.Readable) {lastFrame id : Nat} {result : List WALEntry}
    (read : readFrameAt (frameSize config) (log.dir config) state lastFrame
      id = .ok result) :
    result.length ≤ (entriesAt (log.dir config) id).length := by
  cases found : frameContent (log.dir config) id with
  | none =>
      simp only [readFrameAt, found] at read
      cases read
      simp
  | some content =>
      obtain ⟨chunk, member, -, rfl⟩ := SegmentLog.content_eq found
      obtain ⟨front, decoded, short, -, -⟩ :=
        decodeFrames_take config (readable.chunk member)
          (frameLimit state lastFrame id
            (frameFile config (records chunk.2)))
      have size : ¬ (frameFile config (records chunk.2)).length <
          frameSize config := Nat.not_lt.mpr (frameFile_long _)
      simp only [entriesAt, found, frameEntries_chunk readable member]
      simp only [readFrameAt, found, readFrame, if_neg size, decoded]
        at read
      split at read
      · cases read
      · cases read
        exact short

/-- A watermark that cuts the last frame, or lies behind its file. -/
structure Cuts (config : WalConfig) (state : WalIndexHeader)
    (log : SegmentLog) (content : Bytes) : Prop where
  last : frameContent (log.dir config) (lastScanned (log.dir config)) =
    some content
  named : lastScanned (log.dir config) = state.committedFrame
  positive : state.committedOffset ≠ 0
  outside : state.committedOffset < usedBytes content ∨
    content.length < state.committedOffset

theorem Cuts.readFrameAt
    (readable : log.Readable) {content : Bytes}
    (cuts : Cuts config state log content) {result : List WALEntry}
    (read : readFrameAt (frameSize config) (log.dir config) state
      (lastScanned (log.dir config)) (lastScanned (log.dir config)) =
        .ok result) :
    result.length <
      (entriesAt (log.dir config) (lastScanned (log.dir config))).length := by
  obtain ⟨last, named, positive, outside⟩ := cuts
  obtain ⟨chunk, member, -, rfl⟩ := SegmentLog.content_eq last
  have limit : frameLimit state (lastScanned (log.dir config))
      (lastScanned (log.dir config))
      (frameFile config (records chunk.2)) = state.committedOffset := by
    rw [frameLimit, if_pos ⟨rfl, named.symm, Nat.pos_of_ne_zero positive⟩]
  obtain ⟨front, decoded, -, strict, -⟩ :=
    decodeFrames_take config (readable.chunk member)
      state.committedOffset
  have size : ¬ (frameFile config (records chunk.2)).length <
      frameSize config := Nat.not_lt.mpr (frameFile_long _)
  simp only [entriesAt, last, frameEntries_chunk readable member]
  simp only [IndexedWalSegment.readFrameAt, last, readFrame, if_neg size,
    limit, decoded] at read
  rw [usedBytes_frameFile (readable.chunk member)] at outside
  split at read
  · cases read
  · case isFalse inside =>
      cases read
      rcases outside with cut | behind
      · exact strict cut
      · exact absurd behind inside

theorem flatMap_entriesAt
    (readable : log.Readable) (state : WalIndexHeader) :
    (List.range' 1 (max state.committedFrame
        (lastScanned (log.dir config)))).flatMap
      (entriesAt (log.dir config)) = log.entries := by
  obtain ⟨dirOk, entries⟩ := SegmentLog.dirOk config readable.numbered
    readable.numberedFrom readable.recordable
  rw [← entries]
  apply flatMap_range_entriesAt _ 1 dirOk.ascending
  intro file member
  have positive := dirOk.positive file member
  have bound := le_lastScanned member
  change file.1 ≤ lastScanned (log.dir config) at bound
  omega

/-- A segment is never read as more entries than it holds, and as fewer if
the watermark cuts its last frame. -/
theorem readCommittedEntries_short
    (readable : log.Readable) {result : List WALEntry}
    (read : readCommittedEntries (frameSize config) (log.dir config) state =
      .ok result) :
    result.length ≤ log.entries.length ∧
      ∀ content, Cuts config state log content →
        result.length < log.entries.length := by
  rw [readCommittedEntries] at read
  cases walked : (List.range' 1 (max state.committedFrame
      (lastScanned (log.dir config)))).mapM
      (IndexedWalSegment.readFrameAt (frameSize config) (log.dir config)
        state (max state.committedFrame (lastScanned (log.dir config)))) with
  | error e =>
      rw [walked] at read
      cases read
  | ok parts =>
      rw [walked] at read
      cases read
      have bound : ∀ id ∈ List.range' 1 (max state.committedFrame
          (lastScanned (log.dir config))), ∀ part,
          IndexedWalSegment.readFrameAt (frameSize config) (log.dir config)
            state (max state.committedFrame (lastScanned (log.dir config)))
            id = .ok part →
          part.length ≤ (entriesAt (log.dir config) id).length :=
        fun id _ part here => readFrameAt_short readable here
      obtain ⟨short, strict⟩ := mapM_shorter bound walked
      rw [flatMap_entriesAt readable] at short strict
      refine ⟨short, ?_⟩
      intro content cuts
      apply strict
      have top : max state.committedFrame (lastScanned (log.dir config)) =
          lastScanned (log.dir config) := by
        have := cuts.named
        omega
      have inside := frameContent_eq_some cuts.last
      obtain ⟨chunk, member, same⟩ := List.mem_map.mp inside
      have positive := readable.numberedFrom chunk member
      rw [Prod.mk.injEq] at same
      refine ⟨lastScanned (log.dir config), ?_, ?_⟩
      · rw [List.mem_range'_1]
        omega
      · intro result here
        rw [top] at here
        exact cuts.readFrameAt readable here

/-- Where the watermark cuts nothing the segment is read in full. -/
theorem readCommittedEntries_covers
    (readable : log.Readable)
    (covers : ∀ content, ¬ Cuts config state log content) :
    readCommittedEntries (frameSize config) (log.dir config) state =
      .ok log.entries := by
  obtain ⟨dirOk, entries⟩ := SegmentLog.dirOk config readable.numbered
    readable.numberedFrom readable.recordable
  have lastOk : LastOk state (log.dir config) := by
    intro file member named last positive
    have found := frameContent_of_mem dirOk.ascending member
    obtain ⟨chunk, inside, rfl⟩ := List.mem_map.mp member
    have recordable := readable.chunk inside
    have uncut := covers (frameFile config (records chunk.2))
    have within :
        (records chunk.2).length ≤ state.committedOffset ∧
          state.committedOffset ≤
            (frameFile config (records chunk.2)).length := by
      by_contra outside
      apply uncut
      refine ⟨last ▸ found, last.symm.trans named,
        Nat.pos_iff_ne_zero.mp positive, ?_⟩
      rw [usedBytes_frameFile recordable]
      omega
    obtain ⟨result, decoded, -, -, full⟩ :=
      decodeFrames_take config recordable state.committedOffset
    refine ⟨within.2, ?_⟩
    rw [decoded, full within.1, frameFile_decodes recordable]
  rw [readCommittedEntries_whole dirOk lastOk, entries]

end

/-! ## All segments -/

/-- A log directory whose frame files are described by `logs`. -/
structure Described (config : WalConfig) (disk : IndexedDisk)
    (logs : List SegmentLog) : Prop where
  dirs : disk.dirs = logs.map (SegmentLog.dir config)
  ascending : logs.Pairwise fun a b => a.id < b.id
  readable : ∀ log ∈ logs, log.Readable

section

variable {config : WalConfig} {disk : IndexedDisk} {logs : List SegmentLog}

theorem Described.sortDirs_eq
    (described : Described config disk logs) :
    sortDirs disk.dirs = logs.map (SegmentLog.dir config) := by
  rw [described.dirs]
  exact sortDirs_eq_self (ascendingDirs_map described.ascending)

theorem Cuts.header
    {active : Option WalIndexHeader} {log : SegmentLog} {content : Bytes}
    (cuts : Cuts config
      (readState (frameSize config) active (log.dir config)) log content) :
    ∃ header, active = some header ∧ header.segmentId = log.id ∧
      readState (frameSize config) active (log.dir config) = header := by
  cases active with
  | none => exact absurd rfl cuts.positive
  | some header =>
      by_cases here : header.segmentId = log.id
      · exact ⟨header, rfl, here, if_pos here⟩
      · have other : readState (frameSize config) (some header)
            (log.dir config) = { WalIndexHeader.new log.id
              (frameSize config) with
              committedFrame := lastScanned (log.dir config) } :=
          if_neg here
        have positive := cuts.positive
        rw [other] at positive
        exact absurd rfl positive

theorem WatermarkCovers.not_cuts
    (covers : WatermarkCovers disk) (described : Described config disk logs)
    {log : SegmentLog} (member : log ∈ logs) (content : Bytes) :
    ¬ Cuts config (readState (frameSize config) disk.latest
      (log.dir config)) log content := by
  intro cuts
  obtain ⟨header, latest, name, state⟩ := cuts.header
  rw [state] at cuts
  have inside : log.dir config ∈ disk.dirs := by
    rw [described.dirs]
    exact List.mem_map_of_mem member
  rcases covers header latest (log.dir config) inside name.symm content
    cuts.last cuts.named with zero | within
  · exact cuts.positive zero
  · have := cuts.outside
    omega

theorem Described.named
    (described : Described config disk logs) {last : SegmentLog}
    (lastMember : last ∈ logs) {dir : FramesDir} (inside : dir ∈ disk.dirs)
    (here : dir.segmentId = last.id) : dir = last.dir config := by
  rw [described.dirs] at inside
  obtain ⟨log, member, rfl⟩ := List.mem_map.mp inside
  have distinct : (logs.map SegmentLog.id).Nodup :=
    List.pairwise_map.mpr (described.ascending.imp Nat.ne_of_lt)
  rw [List.inj_on_of_nodup_map distinct member lastMember here]

/-- The frame of a header's own segment that a commit has named is covered,
unless its offset has wrapped around. -/
theorem Described.covers
    (described : Described config disk logs) {last : SegmentLog}
    (lastMember : last ∈ logs) {header : WalIndexHeader}
    (latest : disk.latest = some header)
    (name : header.segmentId = last.id) {chunk : Nat × List WALEntry}
    (member : chunk ∈ last.chunks)
    (marked : mark header = (chunk.1, (records chunk.2).length % 2 ^ 32))
    (small : (records chunk.2).length ≤ 2 ^ 32) : WatermarkCovers disk := by
  have readable := described.readable last lastMember
  intro header' latest' dir inside here content found scanned
  rw [latest, Option.some.injEq] at latest'
  subst latest'
  have dirEq := described.named lastMember inside (here.trans name)
  subst dirEq
  have number := congrArg Prod.fst marked
  have offset := congrArg Prod.snd marked
  simp only [mark] at number offset
  have ascending : (last.dir config).frames.Pairwise fun a b => a.1 < b.1 :=
    List.pairwise_map.mpr readable.numbered
  have inFrames : (chunk.1, frameFile config (records chunk.2)) ∈
      (last.dir config).frames := List.mem_map.mpr ⟨chunk, member, rfl⟩
  have own := frameContent_of_mem ascending inFrames
  rw [scanned, number, own, Option.some.injEq] at found
  subst found
  rw [usedBytes_frameFile (readable.chunk member), offset]
  by_cases wraps : (records chunk.2).length = 2 ^ 32
  · left
    rw [wraps, Nat.mod_self]
  · right
    rw [Nat.mod_eq_of_lt (by omega), frameFile, List.length_append]
    omega

theorem Described.covers_empty
    (described : Described config disk logs) {last : SegmentLog}
    (lastMember : last ∈ logs) {header : WalIndexHeader}
    (latest : disk.latest = some header)
    (name : header.segmentId = last.id) (empty : last.chunks = []) :
    WatermarkCovers disk := by
  intro header' latest' dir inside here content found scanned
  rw [latest, Option.some.injEq] at latest'
  subst latest'
  have dirEq := described.named lastMember inside (here.trans name)
  subst dirEq
  obtain ⟨chunk, member, -⟩ := SegmentLog.content_eq found
  rw [empty] at member
  cases member

theorem readEntriesFromDisk_covers
    (described : Described config disk logs)
    (covers : WatermarkCovers disk) :
    readEntriesFromDisk config disk =
      .ok (sortByTimestamp (logs.flatMap SegmentLog.entries)) := by
  have each : ∀ log ∈ logs,
      readCommittedEntries (frameSize config) (log.dir config)
        (readState (frameSize config) disk.latest (log.dir config)) =
          .ok log.entries := by
    intro log member
    exact readCommittedEntries_covers (described.readable log member)
      (covers.not_cuts described member)
  rw [readEntriesFromDisk, described.sortDirs_eq, List.mapM_map]
  change (logs.mapM fun log => readCommittedEntries (frameSize config)
    (log.dir config) (readState (frameSize config) disk.latest
      (log.dir config))) >>= _ = _
  rw [mapM_eq_ok each]
  rfl

theorem readEntriesFromDisk_short
    (described : Described config disk logs)
    (uncovered : ¬ WatermarkCovers disk) {result : List WALEntry}
    (read : readEntriesFromDisk config disk = .ok result) :
    result.length < (logs.flatMap SegmentLog.entries).length := by
  obtain ⟨log, member, content, cuts⟩ : ∃ log ∈ logs, ∃ content,
      Cuts config (readState (frameSize config) disk.latest
        (log.dir config)) log content := by
    by_contra uncut
    apply uncovered
    intro header latest dir inside name content last named
    rw [described.dirs] at inside
    obtain ⟨log, member, rfl⟩ := List.mem_map.mp inside
    by_contra outside
    apply uncut
    have state : readState (frameSize config) disk.latest (log.dir config) =
        header := by
      rw [latest]
      exact if_pos name.symm
    refine ⟨log, member, content, ?_⟩
    rw [state]
    exact ⟨last, named, by omega, by omega⟩
  rw [readEntriesFromDisk, described.sortDirs_eq, List.mapM_map] at read
  cases walked : (logs.mapM fun log =>
      readCommittedEntries (frameSize config) (log.dir config)
        (readState (frameSize config) disk.latest (log.dir config))) with
  | error e =>
      change (logs.mapM fun log => readCommittedEntries (frameSize config)
        (log.dir config) (readState (frameSize config) disk.latest
          (log.dir config))) >>= _ = _ at read
      rw [walked] at read
      cases read
  | ok parts =>
      change (logs.mapM fun log => readCommittedEntries (frameSize config)
        (log.dir config) (readState (frameSize config) disk.latest
          (log.dir config))) >>= _ = _ at read
      rw [walked] at read
      cases read
      have bound : ∀ log ∈ logs, ∀ part,
          readCommittedEntries (frameSize config) (log.dir config)
            (readState (frameSize config) disk.latest (log.dir config)) =
              .ok part →
          part.length ≤ log.entries.length :=
        fun log member part here => (readCommittedEntries_short
          (described.readable log member) here).1
      obtain ⟨-, strict⟩ := mapM_shorter bound walked
      rw [sortByTimestamp, List.length_insertionSort]
      apply strict
      refine ⟨log, member, ?_⟩
      intro part here
      exact (readCommittedEntries_short (described.readable log member)
        here).2 content cuts

/-- Everything is returned in the order of the frames exactly if the
watermark covers its segment and the timestamps never decrease. -/
theorem readEntriesFromDisk_iff
    (described : Described config disk logs) :
    readEntriesFromDisk config disk =
        .ok (logs.flatMap SegmentLog.entries) ↔
      WatermarkCovers disk ∧
        Nondecreasing (fun entry : WALEntry => entry.timestamp.toNat)
          (logs.flatMap SegmentLog.entries) := by
  constructor
  · intro read
    have covers : WatermarkCovers disk := by
      by_contra uncovered
      exact absurd (readEntriesFromDisk_short described uncovered read)
        (Nat.lt_irrefl _)
    refine ⟨covers, ?_⟩
    rw [readEntriesFromDisk_covers described covers, Except.ok.injEq] at read
    rw [← read]
    exact sortByStamp_nondecreasing _ _
  · rintro ⟨covers, ordered⟩
    rw [readEntriesFromDisk_covers described covers]
    exact congrArg Except.ok (sortByStamp_eq_self ordered)

end

end IndexedWal

end F4kvsLsm
