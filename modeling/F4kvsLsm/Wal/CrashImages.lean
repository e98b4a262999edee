import F4kvsLsm.Wal.Sessions

/-!
# What a crash leaves of a write to the segment log

A write closes the open segment and starts a new one when there is no room,
and then appends its records.  A crash between two of these steps, or in the
middle of the new header or of the records, leaves a directory that holds
what it held before followed by the first records of the write.
-/

namespace F4kvsLsm

open ByteCodec

/-! ## Records that are cut -/

/-- The entries whose records end within the first `cut` bytes. -/
def wholeEntries : List WALEntry → Nat → List WALEntry
  | [], _ => []
  | entry :: entries, cut =>
      if cut < (frame entry.encode).length then []
      else entry :: wholeEntries entries (cut - (frame entry.encode).length)

/-- The cut is behind the length field of a record and before its end. -/
def cutsBody : List WALEntry → Nat → Bool
  | [], _ => false
  | entry :: entries, cut =>
      if cut < (frame entry.encode).length then 4 ≤ cut
      else cutsBody entries (cut - (frame entry.encode).length)

section

variable {engine : FileEngine} {maxSize : Nat} {entries : List WALEntry}

theorem take_records
    (storable : ∀ entry ∈ entries, engine.Storable maxSize entry)
    (cut : Nat) :
    ∃ rest reason,
      (records entries).take cut =
        records (wholeEntries entries cut) ++ rest ∧
      scanFrames (engine.accepts maxSize) rest = ([], reason) ∧
      (reason = .shortBody ↔ cutsBody entries cut = true) := by
  induction entries generalizing cut with
  | nil =>
      refine ⟨[], .shortLength, ?_, scanFrames_nil, ?_⟩
      · simp [wholeEntries]
      · simp [cutsBody]
  | cons entry entries inductionHypothesis =>
      rw [records_cons, wholeEntries, cutsBody]
      by_cases torn : cut < (frame entry.encode).length
      · rw [if_pos torn, if_pos torn]
        have first := (storable entry (List.mem_cons_self ..)).framable
        refine ⟨(frame entry.encode).take cut, _, ?_,
          scanFrames_take_frame first torn, ?_⟩
        · rw [List.take_append_of_le_length torn.le, records_nil,
            List.nil_append]
        · by_cases short : cut < 4
          · simp [short]
          · simp [short, Nat.le_of_not_lt short]
      · rw [if_neg torn, if_neg torn]
        have later := inductionHypothesis
          (fun other member => storable other (List.mem_cons_of_mem _ member))
          (cut - (frame entry.encode).length)
        rcases later with ⟨rest, reason, split, scanned, inBody⟩
        refine ⟨rest, reason, ?_, scanned, inBody⟩
        rw [List.take_append,
          List.take_of_length_le (Nat.le_of_not_lt torn), split, records_cons,
          List.append_assoc]

theorem wholeEntries_isPrefix (entries : List WALEntry) (cut : Nat) :
    wholeEntries entries cut <+: entries := by
  induction entries generalizing cut with
  | nil => exact List.prefix_rfl
  | cons entry entries inductionHypothesis =>
      rw [wholeEntries]
      split
      · exact List.nil_prefix
      · exact List.cons_prefix_cons.mpr ⟨rfl, inductionHypothesis _⟩

/-- A file behind which some bytes of the records have been written. -/
theorem entriesOf_cut
    {file : WalFile} {own : List WALEntry}
    (clean : engine.Clean maxSize file.content own)
    (storable : ∀ entry ∈ entries, engine.Storable maxSize entry)
    (cut : Nat) :
    engine.entriesOf maxSize
        { file with content := file.content ++ (records entries).take cut } =
      if engine = .frame ∧ cutsBody entries cut then []
      else own ++ wholeEntries entries cut := by
  rcases take_records storable cut with ⟨rest, reason, split, scanned, inBody⟩
  rcases clean.append fun entry member =>
    storable entry ((wholeEntries_isPrefix entries cut).subset member) with
    ⟨header, headed, content, stored⟩
  have read := FileEngine.readEntries_append headed stored scanned
  rw [← content, List.append_assoc, ← split] at read
  rw [FileEngine.entriesOf, read]
  by_cases lost : engine = .frame ∧ cutsBody entries cut
  · rw [if_pos lost, if_pos ⟨lost.1, inBody.mpr lost.2⟩]
  · have whole : ¬ (engine = .frame ∧ reason = .shortBody) :=
      fun torn => lost ⟨torn.1, inBody.mp torn.2⟩
    rw [if_neg lost, if_neg whole]

end

/-! ## Writes that a crash ends -/

/-- The log directory at some point of a write of `entries`. -/
inductive LogImage (config : WalConfig) (entries : List WALEntry) :
    FileWal → List WalFile → Prop
  | before {m : FileWal} : LogImage config entries m m.dir
  | closed {m : FileWal} :
      LogImage config entries m (FileWal.flush .segment m).dir
  | created {m : FileWal} {now : UInt64} {cut : Nat} :
      LogImage config entries m ((FileWal.flush .segment m).dir ++
        [⟨m.counter, now, (FileEngine.segment.encodeHeader
          (FileWal.newHeader config now)).take cut⟩])
  | rotated {m : FileWal} {now : UInt64} {dir : List WalFile} :
      LogImage config entries (FileWal.rotateSegment .segment config m now)
        dir →
      LogImage config entries m dir
  | appended {m : FileWal} {segment : OpenSegment} {cut : Nat} :
      m.current = some segment →
      LogImage config entries m (FileWal.updateFile m.dir segment.id
        (· ++ (records entries).take cut))

namespace FileWal

variable {config : WalConfig} {m : FileWal}

/-- `dir'` holds what `dir` holds and some of the first entries behind it. -/
structure HoldsPrefix (config : WalConfig) (entries : List WALEntry)
    (dir dir' : List WalFile) : Prop where
  onDisk : OnDisk .segment dir'
  recovered : ∃ front, front <+: entries ∧
    recovered .segment config dir' = recovered .segment config dir ++ front

theorem Survives.holdsPrefix
    {dir dir' : List WalFile} (survives : Survives .segment config dir dir')
    (entries : List WALEntry) : HoldsPrefix config entries dir dir' := by
  refine ⟨survives.onDisk, [], List.nil_prefix, ?_⟩
  rw [survives.recovered, List.append_nil]

theorem entriesOf_tornRecords
    {file : WalFile} {own entries : List WALEntry}
    (clean : FileEngine.segment.Clean config.segmentSize file.content own)
    (storable : ∀ entry ∈ entries,
      FileEngine.segment.Storable config.segmentSize entry) (cut : Nat) :
    ∃ front, front <+: entries ∧
      FileEngine.segment.entriesOf config.segmentSize
        { file with content := file.content ++ (records entries).take cut } =
          own ++ front := by
  refine ⟨_, wholeEntries_isPrefix entries cut, ?_⟩
  rw [entriesOf_cut clean storable cut, if_neg (by simp)]

/-- The open file may grow. -/
theorem Layout.onDisk_append
    {engine : FileEngine} {older : List WalFile} {last : WalFile}
    {own : List WALEntry} (layout : Layout engine config m older last own)
    (bytes : Bytes) :
    OnDisk engine
      (older ++ [{ last with content := last.content ++ bytes }]) := by
  constructor
  · exact ascending_replace_last layout.ascending rfl
  · intro file member
    rcases List.mem_append.mp member with old | new
    · exact layout.headed file old
    · rw [List.mem_singleton.mp new]
      intro _
      rw [List.take_append_of_le_length
        (engine.four_le_headerSize.trans layout.clean.headerSize_le)]
      exact Clean.headedFile layout.clean layout.clean.headerSize_le

theorem appended_holdsPrefix
    {entries : List WALEntry} (ready : Ready .segment config m)
    (storable : ∀ entry ∈ entries,
      FileEngine.segment.Storable config.segmentSize entry)
    {segment : OpenSegment} (current : m.current = some segment)
    (cut : Nat) :
    HoldsPrefix config entries m.dir
      (updateFile m.dir segment.id (· ++ (records entries).take cut)) := by
  obtain ⟨older, last, own, layout⟩ := ready
  obtain ⟨header, current'⟩ := layout.current
  rw [current', Option.some.injEq] at current
  subst current
  have dirAfter : updateFile m.dir last.id
      (· ++ (records entries).take cut) =
        older ++ [{ last with
          content := last.content ++ (records entries).take cut }] := by
    rw [layout.dir]
    exact updateFile_append_singleton layout.ascending _
  obtain ⟨front, isPrefix, read⟩ :=
    entriesOf_tornRecords layout.clean storable cut
  rw [dirAfter]
  refine ⟨layout.onDisk_append _, front, isPrefix, ?_⟩
  rw [recovered_append, recovered_singleton, read, layout.recovered_eq,
    List.append_assoc]

theorem created_survives
    {engine : FileEngine} {dir : List WalFile} (onDisk : OnDisk engine dir)
    {id : Nat} (above : ∀ other ∈ dir, other.id < id) (now : UInt64)
    (cut : Nat) :
    Survives engine config dir
      (dir ++ [⟨id, now, (engine.encodeHeader
        (newHeader config now)).take cut⟩]) := by
  by_cases short : cut < engine.headerSize
  · exact tornHeader_survives onDisk above (take_headerSize_short _ short)
  · have whole : (engine.encodeHeader (newHeader config now)).take cut =
        engine.encodeHeader (newHeader config now) := by
      refine List.take_of_length_le ?_
      rw [FileEngine.encodeHeader_length]
      omega
    have fresh : engine.Clean config.segmentSize
        (freshFile engine config id now).content [] :=
      clean_freshFile id now
    rw [whole]
    refine ⟨⟨ascending_append_singleton onDisk.ascending above, ?_⟩, ?_,
      Extends.append_right _ _⟩
    · intro file member
      rcases List.mem_append.mp member with old | new
      · exact onDisk.headed file old
      · rw [List.mem_singleton.mp new]
        exact Clean.headedFile fresh
    · rw [recovered_append, recovered_singleton]
      exact (congrArg _ fresh.entriesOf).trans (List.append_nil _)

theorem flush_counter (engine : FileEngine) (m : FileWal) :
    (flush engine m).counter = m.counter := by
  cases current : m.current <;> simp only [flush, current]

end FileWal

open FileWal

theorem LogImage.holdsPrefix
    {config : WalConfig} {m : FileWal}
    {entries : List WALEntry} {dir : List WalFile}
    (image : LogImage config entries m dir)
    (ready : Ready .segment config m)
    (storable : ∀ entry ∈ entries,
      FileEngine.segment.Storable config.segmentSize entry) :
    HoldsPrefix config entries m.dir dir := by
  induction image with
  | @before m =>
      have same : Survives .segment config m.dir m.dir :=
        ⟨ready.onDisk, rfl, Extends.refl _⟩
      exact same.holdsPrefix entries
  | @closed m =>
      have flushed := flush_grows ready
      refine ⟨flushed.ready.onDisk, [], List.nil_prefix, ?_⟩
      rw [flushed.recovered]
  | @created m now cut =>
      have flushed := flush_grows ready
      have above := flushed.ready.above
      rw [flush_counter] at above
      have survives : Survives .segment config (flush .segment m).dir _ :=
        created_survives flushed.ready.onDisk above now cut
      refine ⟨survives.onDisk, [], List.nil_prefix, ?_⟩
      rw [survives.recovered, flushed.recovered, List.append_nil]
  | @rotated m now dir image inductionHypothesis =>
      have rotation := rotateSegment_grows ready now
      have holds := inductionHypothesis rotation.ready
      obtain ⟨front, isPrefix, read⟩ := holds.recovered
      refine ⟨holds.onDisk, front, isPrefix, ?_⟩
      rw [read, rotation.recovered, List.append_nil]
  | appended current => exact appended_holdsPrefix ready storable current _

/-! ## What a crash leaves of a start -/

namespace WalDisk

variable {config : WalConfig}

/-- The directory can be opened and holds the same entries. -/
structure SameLog (config : WalConfig) (disk disk' : WalDisk) :
    Prop where
  onDisk : disk'.OnDisk config
  recovered : disk'.recovered config = disk.recovered config

theorem created_sameLog
    {dir : List WalFile} (onDisk : (WalDisk.segment dir).OnDisk config)
    (now : UInt64) (cut : Nat) :
    SameLog config (.segment dir)
      (.segment (dir ++ [⟨scanExistingSegments dir, now,
        (FileEngine.segment.encodeHeader (newHeader config now)).take
          cut⟩])) := by
  have survives : FileWal.Survives .segment config dir _ :=
    created_survives onDisk (scanExistingSegments_above dir) now cut
  exact ⟨survives.onDisk, survives.recovered⟩

theorem opened_sameLog
    {disk : WalDisk} (onDisk : disk.OnDisk config) {now : UInt64}
    {handle : WalHandle} (opened : disk.openWal config now = .ok handle) :
    SameLog config disk handle.disk := by
  obtain ⟨wal, result, -, ready, same, -⟩ :=
    WalHandle.openWal_grows onDisk now
  cases opened.symm.trans result
  exact ⟨ready.onDisk, same⟩

end WalDisk

end F4kvsLsm
