import F4kvsLsm.Compaction.Selection

/-!
# Adaptive compaction

With an adaptive manager the decision whether to compact a level follows the
workload: it picks a strategy and its own limits.  The selection of the
tables follows the configured strategy all the same.
-/

namespace F4kvsLsm

inductive WorkloadType where
  | writeHeavy
  | readHeavy
  | mixed
  | unknown

/-- What a decision reads of the workload. -/
structure WorkloadCharacteristics where
  workloadType : WorkloadType
  writeAmplification : Float
  p99ReadLatencyMs : Float

/-- What a decision reads of the metrics; times are in nanoseconds. -/
structure PerformanceMetrics where
  writeAmplification : Float
  readLatencyP99 : Nat

structure AdaptiveCompactionConfig where
  enableAdaptiveScheduling : Bool
  writeAmplificationThreshold : Float
  readPerformanceThreshold : Nat
  adaptationSensitivity : Float

/-- The base, level and table configurations are those of the manager that
made it; the multiplier is the one of the levels. -/
structure AdaptiveCompactionManager where
  config : AdaptiveCompactionConfig
  baseConfig : CompactionConfig
  sizeMultiplier : Float
  workloadCharacteristics : WorkloadCharacteristics
  performanceMetrics : PerformanceMetrics

structure AdaptiveLevelConfig where
  level : Nat
  sizeMultiplier : Float
  maxSstablesPerLevel : Nat
  compactionRatio : Float
  enableCompaction : Bool

namespace AdaptiveCompactionManager

def getOptimalStrategy (manager : AdaptiveCompactionManager) :
    CompactionStrategy :=
  if !manager.config.enableAdaptiveScheduling then
    manager.baseConfig.strategy
  else
    let characteristics := manager.workloadCharacteristics
    match characteristics.workloadType with
    | .writeHeavy =>
        if characteristics.writeAmplification >
            manager.config.writeAmplificationThreshold then .sizeTiered
        else .leveled
    | .readHeavy =>
        if characteristics.p99ReadLatencyMs >
            Float.ofNat
              (manager.config.readPerformanceThreshold / 1000000) then
          .leveled
        else .hybrid
    | .mixed => .hybrid
    | .unknown => manager.baseConfig.strategy

/-- Calculate adaptive size multiplier based on workload characteristics. -/
def calculateAdaptiveMultiplier (manager : AdaptiveCompactionManager) :
    Float :=
  let multiplier :=
    match manager.workloadCharacteristics.workloadType with
    | .writeHeavy => 1.0 * 1.2
    | .readHeavy => 1.0 * 0.8
    | .mixed => 1.0 * 1.05
    | .unknown => 1.0
  let multiplier :=
    if manager.performanceMetrics.writeAmplification >
        manager.config.writeAmplificationThreshold then multiplier * 1.1
    else multiplier
  let multiplier :=
    if manager.performanceMetrics.readLatencyP99 >
        manager.config.readPerformanceThreshold then multiplier * 0.9
    else multiplier
  let multiplier :=
    1.0 + (multiplier - 1.0) * manager.config.adaptationSensitivity
  if multiplier < 0.5 then 0.5
  else if multiplier > 2.0 then 2.0
  else multiplier

def calculateAdaptiveMaxSstables (manager : AdaptiveCompactionManager) :
    Nat :=
  let baseMax := manager.baseConfig.maxSstablesPerLevel
  match manager.workloadCharacteristics.workloadType with
  | .writeHeavy => (Float.ofNat baseMax * 1.5).toUInt64.toNat
  | .readHeavy => (Float.ofNat baseMax * 0.7).toUInt64.toNat
  | .mixed => (Float.ofNat baseMax * 1.1).toUInt64.toNat
  | .unknown => baseMax

def calculateCompactionRatio (manager : AdaptiveCompactionManager) : Float :=
  match manager.workloadCharacteristics.workloadType with
  | .writeHeavy => 0.1 * 1.5
  | .readHeavy => 0.1 * 0.7
  | .mixed => 0.1 * 1.1
  | .unknown => 0.1

def shouldEnableLevelCompaction (manager : AdaptiveCompactionManager)
    (level : Nat) : Bool :=
  if level = 0 then true
  else
    match manager.workloadCharacteristics.workloadType with
    | .writeHeavy => true
    | .readHeavy => level ≤ 3
    | .mixed => level ≤ 5
    | .unknown => true

def getAdaptiveLevelConfig (manager : AdaptiveCompactionManager)
    (level : Nat) : AdaptiveLevelConfig where
  level := level
  sizeMultiplier := manager.sizeMultiplier *
    manager.calculateAdaptiveMultiplier
  maxSstablesPerLevel := manager.calculateAdaptiveMaxSstables
  compactionRatio := manager.calculateCompactionRatio
  enableCompaction := manager.shouldEnableLevelCompaction level

end AdaptiveCompactionManager

structure CompactionManager where
  config : CompactionConfig
  adaptiveManager : Option AdaptiveCompactionManager

namespace CompactionManager

def strategy (manager : CompactionManager) : CompactionStrategy :=
  match manager.adaptiveManager with
  | some adaptive => adaptive.getOptimalStrategy
  | none => manager.config.strategy

def levelEnabled (manager : CompactionManager) (level : Nat) : Bool :=
  match manager.adaptiveManager with
  | some adaptive => (adaptive.getAdaptiveLevelConfig level).enableCompaction
  | none => true

def maxSstables (manager : CompactionManager) (level : Nat) : Nat :=
  match manager.adaptiveManager with
  | some adaptive =>
      (adaptive.getAdaptiveLevelConfig level).maxSstablesPerLevel
  | none => manager.config.maxSstablesPerLevel

def levelThreshold (manager : CompactionManager) (level : Nat) : Nat :=
  match manager.adaptiveManager with
  | some adaptive =>
      (Float.ofNat manager.config.targetSize *
        Float.pow (adaptive.getAdaptiveLevelConfig level).sizeMultiplier
          (Float.ofNat level)).toUInt64.toNat
  | none => manager.config.levelThreshold level

/-- Leveled compaction decision logic. -/
def shouldCompactLeveled (manager : CompactionManager) (level : Nat)
    (files : List SSTable) : Bool :=
  if level = 0 then files.length > manager.maxSstables level
  else (files.map (·.fileSize)).sum > manager.levelThreshold level

/-- Check if compaction is needed for a specific level. -/
def shouldCompactLevel (manager : CompactionManager) (order : List Nat)
    (level : Nat) (files : List SSTable) : Bool :=
  if files.isEmpty then false
  else if !manager.levelEnabled level then false
  else
    match manager.strategy with
    | .leveled => manager.shouldCompactLeveled level files
    | .sizeTiered => shouldCompactSizeTiered order files
    | .timeWindowed => shouldCompactTimeWindowed files
    | .hybrid =>
        if level = 0 then manager.shouldCompactLeveled level files
        else shouldCompactSizeTiered order files

/-- The configuration by which the decision goes. -/
def decidingConfig (manager : CompactionManager) : CompactionConfig :=
  { manager.config with
    strategy := manager.strategy
    maxSstablesPerLevel := manager.maxSstables 0
    levelThreshold := manager.levelThreshold }

variable {manager : CompactionManager} {order : List Nat} {level : Nat}
  {files : List SSTable}

theorem maxSstables_eq (manager : CompactionManager) (level : Nat) :
    manager.maxSstables level = manager.maxSstables 0 := by
  rw [maxSstables, maxSstables]
  cases manager.adaptiveManager <;> rfl

theorem shouldCompactLevel_eq (enabled : manager.levelEnabled level = true) :
    manager.shouldCompactLevel order level files =
      F4kvsLsm.shouldCompactLevel manager.decidingConfig order level
        files := by
  have leveled : manager.shouldCompactLeveled level files =
      F4kvsLsm.shouldCompactLeveled manager.decidingConfig level files := by
    rw [shouldCompactLeveled, maxSstables_eq]
    rfl
  have same : manager.decidingConfig.strategy = manager.strategy := rfl
  rw [shouldCompactLevel, F4kvsLsm.shouldCompactLevel, enabled, leveled,
    same]
  cases manager.strategy <;> rfl

/-- Without an adaptive manager the decision is that of the configuration. -/
theorem shouldCompactLevel_static (config : CompactionConfig) :
    (CompactionManager.mk config none).shouldCompactLevel order level files =
      F4kvsLsm.shouldCompactLevel config order level files :=
  shouldCompactLevel_eq rfl

/-- The decision is made by a strategy under which the level calls for a
compaction. -/
def Triggered (manager : CompactionManager) (level : Nat)
    (files : List SSTable) : Prop :=
  manager.levelEnabled level = true ∧
    (manager.strategy.groupingAt level).Triggers (manager.maxSstables level)
      (manager.levelThreshold level) level files

theorem shouldCompactLevel_iff_triggered
    (visits : (manager.strategy.groupingAt level).Visits order files) :
    manager.shouldCompactLevel order level files = true ↔
      manager.Triggered level files := by
  rw [Triggered]
  cases enabled : manager.levelEnabled level with
  | false =>
      refine iff_of_false ?_ fun triggered => Bool.false_ne_true triggered.1
      rw [shouldCompactLevel, enabled]
      split
      · exact Bool.false_ne_true
      · exact Bool.false_ne_true
  | true =>
      rw [shouldCompactLevel_eq enabled,
        F4kvsLsm.shouldCompactLevel_iff manager.decidingConfig level visits,
        maxSstables_eq]
      exact (and_iff_right rfl).symm

/-- What triggers a compaction is selected when both strategies group the
level in the same way. -/
theorem selects_of_same_grouping
    (same : manager.strategy.groupingAt level =
      manager.config.strategy.groupingAt level)
    (triggered : manager.Triggered level files) :
    (manager.config.strategy.groupingAt level).Selects files := by
  rw [← same]
  exact Grouping.selects_of_triggers _ triggered.2

/-- The tables that are selected are always tables of the level.  A level
that is to be compacted has some selected exactly when the configured
strategy finds a group in it, or the strategy that decides does not call for
a compaction. -/
theorem selection_follows_decision_iff
    (manager : CompactionManager) (level : Nat) (files : List SSTable)
    (decides selects : List Nat)
    (decision : (manager.strategy.groupingAt level).Visits decides files)
    (selection :
      (manager.config.strategy.groupingAt level).Visits selects files) :
    (manager.shouldCompactLevel decides level files = true →
      selectSstablesForCompaction manager.config selects level files ≠ [] ∧
        (selectSstablesForCompaction manager.config selects level
          files).Sublist files) ↔
      ¬ manager.Triggered level files ∨
        (manager.config.strategy.groupingAt level).Selects files := by
  rw [shouldCompactLevel_iff_triggered decision,
    selected_ne_nil_iff manager.config level selection, ← imp_iff_not_or]
  have part := selected_sublist manager.config selects level files
  exact imp_congr_right fun _ => and_iff_left part

/-- Tables of one byte, one created in each of four hours. -/
def hourlyTables : List SSTable :=
  [0, 3600, 7200, 10800].map fun created =>
    { name := .flush 1 created
      entries := [⟨"k", .bool true, created, false⟩]
      fileSize := 1
      createdAt := created
      blockCompressed := true }

/-- Tables are grouped by the hour, under a workload of reads and writes. -/
def mixedManager (strategy : CompactionStrategy) : CompactionManager :=
  let config : CompactionConfig := ⟨strategy, 7, 10, fun _ => 1, 1, fun _ => 0⟩
  { config := config
    adaptiveManager := some
      { config := ⟨true, 2.0, 10000000, 0.5⟩
        baseConfig := config
        sizeMultiplier := 10.0
        workloadCharacteristics := ⟨.mixed, 1.0, 0.0⟩
        performanceMetrics := ⟨1.0, 10000000⟩ } }

/-- The size-tiered decision of a mixed workload, and the size-tiered
selection. -/
theorem size_tiered_selection_follows :
    selectSstablesForCompaction (mixedManager .sizeTiered).config [0] 1
      hourlyTables ≠ [] := by
  have crowded : Crowded sizeBucket 4 hourlyTables := ⟨0, by decide⟩
  have visits : ∀ table ∈ hourlyTables, sizeBucket table ∈ [0] := by decide
  have follows := (selection_follows_decision_iff (mixedManager .sizeTiered) 1
    hourlyTables [0] [0] visits visits).mpr (Or.inr crowded)
  exact (follows rfl).1

/-- A mixed workload decides by size, where four tables of one size trigger a
compaction.  The configuration selects by the hour and finds no two tables
of one. -/
theorem triggered_compaction_selects_nothing :
    (mixedManager .timeWindowed).shouldCompactLevel [0] 1 hourlyTables =
        true ∧
      selectSstablesForCompaction (mixedManager .timeWindowed).config
        [0, 1, 2, 3] 1 hourlyTables = [] :=
  ⟨rfl, rfl⟩

end CompactionManager

end F4kvsLsm
