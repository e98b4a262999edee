import Mathlib.Data.List.DropRight
import F4kvsLsm.Engine.DurableRuns

/-!
# Recovery behind a checkpoint

Recovery skips what the last checkpoint covers.  It compares timestamps, not
positions in the log, and timestamps count seconds: the writes that follow a
checkpoint within its second are skipped with those before it.
-/

namespace F4kvsLsm

open Versions

/-! ## What the loop applies -/

def WALEntry.isCheckpoint (entry : WALEntry) : Bool := entry.checkpoint?.isSome

def WALEntry.isWrite (entry : WALEntry) : Bool := entry.write?.isSome

/-- One turn of the replay loop: the memtable and the entries that have been
applied to it. -/
def replayTurn (jsonLen : SerdeJsonValue → Nat)
    (state : Memtable × List WALEntry) (entry : WALEntry) :
    Memtable × List WALEntry :=
  match entry with
  | .put key value _ => (state.1.put jsonLen key value, state.2 ++ [entry])
  | .delete key _ => (state.1.delete jsonLen key, state.2 ++ [entry])
  | _ => state

/-- `recover_from_wal` with the list of the entries that it applies. -/
def EngineDisk.recoverApplied (config : EngineConfig) (log : WalDisk) :
    Except LsmError (WalDisk × Memtable × List WALEntry) :=
  match log.readEntriesForRecovery config.wal with
  | .ok entries =>
      .ok (log, (entriesToRecover entries).foldl
        (replayTurn config.tree.jsonLen) (.new, []))
  | .error error =>
      if config.allowRecoveryFailure then .ok (.empty log.engine, .new, [])
      else .error (.wal ("Failed to read WAL entries during recovery: " ++
        error.display))

/-- The entries behind the last checkpoint, all of them where there is
none. -/
def afterCheckpoint (entries : List WALEntry) : List WALEntry :=
  entries.rtakeWhile fun entry => !entry.isCheckpoint

theorem replayTurns_eq
    (jsonLen : SerdeJsonValue → Nat) (memtable : Memtable)
    (applied entries : List WALEntry) :
    entries.foldl (replayTurn jsonLen) (memtable, applied) =
      (replay jsonLen memtable entries,
        applied ++ entries.filter WALEntry.isWrite) := by
  induction entries generalizing memtable applied with
  | nil => simp [replay]
  | cons entry entries inductionHypothesis =>
      rw [List.foldl_cons]
      cases entry with
      | put key value timestamp =>
          rw [replayTurn, inductionHypothesis, List.append_assoc]
          rfl
      | delete key timestamp =>
          rw [replayTurn, inductionHypothesis, List.append_assoc]
          rfl
      | flush memtableId timestamp => exact inductionHypothesis _ _
      | checkpoint timestamp => exact inductionHypothesis _ _

/-- The list is an observation only. -/
theorem EngineDisk.recoverFromWal_eq
    (config : EngineConfig) (log : WalDisk) :
    recoverFromWal config log =
      (recoverApplied config log).map
        fun recovered => (recovered.1, recovered.2.1) := by
  rw [recoverFromWal, recoverApplied]
  cases log.readEntriesForRecovery config.wal with
  | ok entries =>
      simp only [replayTurns_eq]
      rfl
  | error error =>
      cases config.allowRecoveryFailure with
      | true => rfl
      | false => rfl

/-- Skipped entries change nothing. -/
theorem replay_filter_isWrite
    (jsonLen : SerdeJsonValue → Nat) (memtable : Memtable)
    (entries : List WALEntry) :
    replay jsonLen memtable (entries.filter WALEntry.isWrite) =
      replay jsonLen memtable entries := by
  induction entries generalizing memtable with
  | nil => rfl
  | cons entry entries inductionHypothesis =>
      cases entry with
      | put key value timestamp => exact inductionHypothesis _
      | delete key timestamp => exact inductionHypothesis _
      | flush memtableId timestamp => exact inductionHypothesis _
      | checkpoint timestamp => exact inductionHypothesis _

/-! ## The cut -/

theorem afterCheckpoint_eq_self
    {entries : List WALEntry}
    (noCheckpoint : lastCheckpointTimestamp entries = none) :
    afterCheckpoint entries = entries := by
  rw [lastCheckpointTimestamp, List.findSome?_eq_none_iff] at noCheckpoint
  rw [afterCheckpoint, List.rtakeWhile_eq_self_iff]
  intro entry member
  rw [WALEntry.isCheckpoint, noCheckpoint entry (List.mem_reverse.mpr member)]
  rfl

theorem append_afterCheckpoint
    {entries : List WALEntry} {checkpoint : UInt64}
    (last : lastCheckpointTimestamp entries = some checkpoint) :
    ∃ front, entries =
      front ++ .checkpoint checkpoint :: afterCheckpoint entries := by
  induction entries using List.reverseRecOn with
  | nil => exact absurd last (by simp [lastCheckpointTimestamp])
  | append_singleton entries entry inductionHypothesis =>
      rw [lastCheckpointTimestamp, List.reverse_append] at last
      cases entry with
      | checkpoint timestamp =>
          have here : timestamp = checkpoint := Option.some.inj last
          refine ⟨entries, ?_⟩
          rw [afterCheckpoint, List.rtakeWhile_concat_neg _ _ _ (by
            simp [WALEntry.isCheckpoint, WALEntry.checkpoint?]), here]
      | _ =>
          obtain ⟨front, split⟩ := inductionHypothesis last
          refine ⟨front, ?_⟩
          rw [afterCheckpoint, List.rtakeWhile_concat_pos _ _ _ (by
            simp [WALEntry.isCheckpoint, WALEntry.checkpoint?]),
            ← afterCheckpoint]
          exact congrArg (· ++ [_]) split |>.trans (by simp)

/-- In time order recovery takes from behind the checkpoint what is later
than it. -/
theorem entriesToRecover_filter_isWrite
    {entries : List WALEntry}
    (sorted : Nondecreasing WALEntry.stamp entries) :
    (entriesToRecover entries).filter WALEntry.isWrite =
      ((afterCheckpoint entries).filter WALEntry.isWrite).filter fun entry =>
        lastCheckpointTimestamp entries ≠ some entry.timestamp := by
  rw [entriesToRecover]
  cases last : lastCheckpointTimestamp entries with
  | none =>
      rw [afterCheckpoint_eq_self last]
      simp
  | some checkpoint =>
      obtain ⟨front, split⟩ := append_afterCheckpoint last
      have cross := sorted
      rw [split, Nondecreasing, List.pairwise_append] at cross
      have skipped : front.filter (fun entry => entry.timestamp > checkpoint) =
          [] := by
        rw [List.filter_eq_nil_iff]
        intro entry member
        have early : entry.stamp ≤ checkpoint.toNat :=
          cross.2.2 entry member _ List.mem_cons_self
        rw [decide_eq_true_eq, gt_iff_lt, UInt64.lt_iff_toNat_lt, not_lt]
        exact early
      have itself : ¬ (WALEntry.checkpoint checkpoint).timestamp >
          checkpoint := UInt64.lt_irrefl checkpoint
      have behind : entries.filter (fun entry => entry.timestamp > checkpoint) =
          (afterCheckpoint entries).filter
            fun entry => entry.timestamp > checkpoint := by
        conv_lhs => rw [split]
        rw [List.filter_append, skipped, List.nil_append,
          List.filter_cons_of_neg (by simpa using itself)]
      simp only
      rw [behind, List.filter_comm]
      apply List.filter_congr
      intro entry member
      have late : checkpoint.toNat ≤ entry.stamp :=
        (List.pairwise_cons.mp cross.2.1).1 entry
          (List.mem_of_mem_filter member)
      rw [Bool.eq_iff_iff, decide_eq_true_eq, decide_eq_true_eq, gt_iff_lt,
        UInt64.lt_iff_toNat_lt]
      constructor
      · intro later same
        rw [Option.some.inj same] at later
        exact Nat.lt_irrefl _ later
      · intro different
        apply lt_of_le_of_ne late
        intro same
        exact different (congrArg some (UInt64.toNat_inj.mp same))

/-! ## What recovery applies -/

section

variable {config : EngineConfig} {log : WalDisk}

theorem recoverApplied_eq
    (onDisk : log.OnDisk config.wal)
    (ordered : Nondecreasing WALEntry.stamp (log.recovered config.wal)) :
    EngineDisk.recoverApplied config log =
      let applied := ((afterCheckpoint (log.recovered config.wal)).filter
        WALEntry.isWrite).filter fun entry =>
          lastCheckpointTimestamp (log.recovered config.wal) ≠
            some entry.timestamp
      .ok (log, replay config.tree.jsonLen .new applied, applied) := by
  have unsorted : sortByTimestamp (log.recovered config.wal) =
      log.recovered config.wal := sortByStamp_eq_self ordered
  rw [EngineDisk.recoverApplied,
    WalDisk.readEntriesForRecovery_onDisk onDisk, unsorted]
  simp only [replayTurns_eq, List.nil_append]
  rw [← replay_filter_isWrite, entriesToRecover_filter_isWrite ordered]

/-- Recovery applies the writes behind the last checkpoint, in order. -/
def RecoversAfterCheckpoint (config : EngineConfig) (log : WalDisk) : Prop :=
  let applied := (afterCheckpoint (log.recovered config.wal)).filter
    WALEntry.isWrite
  EngineDisk.recoverApplied config log =
    .ok (log, replay config.tree.jsonLen .new applied, applied)

/-- Recovery applies the writes behind the last checkpoint exactly when none
of them is of the second of the checkpoint. -/
theorem recovers_after_checkpoint_iff
    (onDisk : log.OnDisk config.wal)
    (ordered : Nondecreasing WALEntry.stamp (log.recovered config.wal)) :
    RecoversAfterCheckpoint config log ↔
      ∀ entry ∈ afterCheckpoint (log.recovered config.wal), entry.isWrite →
        lastCheckpointTimestamp (log.recovered config.wal) ≠
          some entry.timestamp := by
  rw [RecoversAfterCheckpoint, recoverApplied_eq onDisk ordered]
  simp only [Except.ok.injEq, Prod.mk.injEq, true_and]
  constructor
  · intro applies entry member write
    have kept := List.filter_eq_self.mp applies.2 entry
      (List.mem_filter.mpr ⟨member, write⟩)
    exact of_decide_eq_true kept
  · intro apart
    rw [List.filter_eq_self.mpr]
    · exact ⟨rfl, rfl⟩
    · intro entry member
      have parts := List.mem_filter.mp member
      exact decide_eq_true (apart entry parts.1 parts.2)

end

/-! ## A session in the second of a checkpoint -/

/-- A shutdown that is cut off between its checkpoint and the truncation, and
a session that opens the same log and puts a key. -/
structure ResumedLog (shutdown put : UInt64) (log : WalDisk) : Prop where
  session : ∃ first closing second third,
    (WalDisk.empty .segment).openWal smallEngine.wal 1 =
      .ok (.segment first) ∧
    FileWal.writeEntry .segment smallEngine.wal first (.checkpoint shutdown)
      shutdown = .ok closing ∧
    (WalDisk.segment (FileWal.flush .segment closing).dir).openWal
      smallEngine.wal put = .ok second ∧
    second.call smallEngine.wal (.writeOperation "k" (.bool true) put) =
      .ok third ∧ third.disk = log
  onDisk : log.OnDisk smallEngine.wal
  recovered : log.recovered smallEngine.wal =
    [.checkpoint shutdown, .put "k" (.bool true) put]

theorem resumedLog_left
    (shutdown put : UInt64)
    (checkpoint : FileWal.Writable .segment smallEngine.wal
      (.checkpoint shutdown))
    (write : FileWal.Writable .segment smallEngine.wal
      (.put "k" (.bool true) put)) :
    ∃ log, ResumedLog shutdown put log := by
  have opens : FileWal.Opens .segment smallEngine.wal [] _ :=
    FileWal.initializeWal_opens ⟨List.Pairwise.nil, by simp⟩ 1
  rcases FileWal.writeEntry_grows opens.ready checkpoint shutdown with
    ⟨closing, written, closed⟩
  have flushed : FileWal.Grows .segment smallEngine.wal closing _ [] :=
    FileWal.flush_grows closed.ready
  have onDisk : (WalDisk.segment (FileWal.flush .segment closing).dir).OnDisk
      smallEngine.wal := flushed.ready.onDisk
  rcases WalHandle.openWal_grows onDisk put with
    ⟨second, opened, engine, ready, recovered, -⟩
  have admissible : WalHandle.Admissible smallEngine.wal second.disk.engine
      (.writeOperation "k" (.bool true) put) := by
    rw [engine]
    intro entry member
    rw [WalCall.entries, List.mem_singleton] at member
    rw [member]
    exact write
  rcases WalHandle.call_grows ready admissible with ⟨third, called, grows⟩
  refine ⟨third.disk, ⟨_, closing, second, third, rfl, written, opened,
    called, rfl⟩, grows.ready.onDisk, ?_⟩
  have before : (WalDisk.segment (FileWal.flush .segment closing).dir).recovered
      smallEngine.wal = [.checkpoint shutdown] := by
    change FileWal.recovered .segment smallEngine.wal _ = _
    rw [flushed.recovered, closed.recovered, opens.recovered]
    rfl
  rw [grows.recovered, recovered, before]
  rfl

theorem ResumedLog.ordered
    {shutdown put : UInt64} {log : WalDisk}
    (resumed : ResumedLog shutdown put log) (later : shutdown ≤ put) :
    Nondecreasing WALEntry.stamp (log.recovered smallEngine.wal) := by
  rw [resumed.recovered]
  exact List.pairwise_pair.mpr (UInt64.le_iff_toNat_le.mp later)

/-- A put in a later second is recovered. -/
theorem later_put_is_recovered :
    ∃ log, ResumedLog 5 6 log ∧ RecoversAfterCheckpoint smallEngine log := by
  rcases resumedLog_left 5 6 ⟨by decide, by decide, rfl⟩
    ⟨by decide, by decide, rfl⟩ with ⟨log, resumed⟩
  refine ⟨log, resumed, (recovers_after_checkpoint_iff resumed.onDisk
    (resumed.ordered (by decide))).mpr ?_⟩
  rw [resumed.recovered]
  decide

/-- A put that has been acknowledged in the second of the checkpoint is
skipped. -/
theorem put_in_second_is_skipped :
    ∃ log, ResumedLog 5 5 log ∧
      Nondecreasing WALEntry.stamp (log.recovered smallEngine.wal) ∧
      EngineDisk.recoverApplied smallEngine log = .ok (log, .new, []) ∧
      ¬ RecoversAfterCheckpoint smallEngine log := by
  rcases resumedLog_left 5 5 ⟨by decide, by decide, rfl⟩
    ⟨by decide, by decide, rfl⟩ with ⟨log, resumed⟩
  have ordered := resumed.ordered (UInt64.le_refl 5)
  have skipped : EngineDisk.recoverApplied smallEngine log =
      .ok (log, .new, []) := by
    rw [recoverApplied_eq resumed.onDisk ordered, resumed.recovered]
    rfl
  refine ⟨log, resumed, ordered, skipped, ?_⟩
  rw [RecoversAfterCheckpoint, skipped, resumed.recovered]
  intro applied
  have same := congrArg (·.2.2) (Except.ok.inj applied)
  simp [afterCheckpoint, List.rtakeWhile, WALEntry.isCheckpoint,
    WALEntry.checkpoint?, WALEntry.isWrite, WALEntry.write?] at same

end F4kvsLsm
