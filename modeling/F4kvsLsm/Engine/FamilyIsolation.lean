import F4kvsLsm.Engine.ColumnFamilies
import F4kvsLsm.Engine.KeyCount
import F4kvsLsm.Engine.KeyScans

/-!
# Isolation of column families

A name may hold the `#` that ends the names of families.  The keys of two
families are therefore apart exactly when neither name begins with the other
and a `#`; then a write to the one that does not fill the memtable leaves all
reads of the other as they are, except that a range that ends below its start
panics as soon as the memtable holds any key at all.
-/

namespace F4kvsLsm

open KeyOrder

/-! ## Writes of a family -/

/-- The limits of the engine that a write meets. -/
structure WriteLimits where
  memtableMaxSize : Nat
  maxBatchSize : Nat
  bulkImport : Bool

/-- What the log, the file system and the clock do during a write, the error
that a failing flush reports, and whether a compaction comes to its end. -/
structure WriteEnvironment where
  logFailure : Option LsmError
  existing : List SstableName
  info : TableInfo
  outcome : FlushOutcome
  flushFailure : LsmError
  order : List Nat
  output : OutputFiles
  compacts : Bool

/-- `batch_put` refuses a batch that is too large. -/
def batchTooLarge (limits : WriteLimits) (items : List (String × Value)) :
    ScanFailure :=
  .storage ("Batch size " ++ toString items.length ++
    " exceeds maximum allowed size of " ++ toString limits.maxBatchSize ++
    " items. This limit prevents DoS attacks.")

namespace LsmTree

variable (config : CompactionConfig) (limits : WriteLimits)
variable (environment : WriteEnvironment) (families : List String)
variable (tree : LsmTree)

/-- `check_memtable_flush`; a compaction after the flush that fails leaves the
tables as they are and the write succeeds. -/
def checkMemtableFlush : LsmTree × Except ScanFailure Unit :=
  if limits.memtableMaxSize ≤ tree.active.size then
    match tree.flushMemtableInternal environment.existing environment.info
        environment.outcome with
    | (flushed, true) =>
        (if limits.bulkImport || !environment.compacts then flushed
          else { flushed with
            levels := compactIfNeeded config environment.order
              environment.output flushed.levels }, .ok ())
    | (flushed, false) =>
        (flushed, .error (.error environment.flushFailure))
  else (tree, .ok ())

/-- Log an operation, write it into the memtable and flush that when it is
full. -/
def writeThrough (write : Memtable → Memtable) :
    LsmTree × Except ScanFailure Unit :=
  match environment.logFailure with
  | some failure => (tree, .error (.error failure))
  | none =>
      checkMemtableFlush config limits environment
        { tree with active := write tree.active }

def putCf (key : String) (value : Value) (family : String) :
    LsmTree × Except ScanFailure Unit :=
  match checkFamily families family with
  | .error failure => (tree, .error failure)
  | .ok () =>
      writeThrough config limits environment tree
        fun memtable => memtable.put config.jsonLen (familyKey family key) value

def deleteCf (key family : String) : LsmTree × Except ScanFailure Unit :=
  match checkFamily families family with
  | .error failure => (tree, .error failure)
  | .ok () =>
      writeThrough config limits environment tree
        fun memtable => memtable.delete config.jsonLen (familyKey family key)

def familyItems (family : String) (items : List (String × Value)) :
    List (String × Value) :=
  items.map fun item => (familyKey family item.1, item.2)

def batchPutCf (items : List (String × Value)) (family : String) :
    LsmTree × Except ScanFailure Unit :=
  match checkFamily families family with
  | .error failure => (tree, .error failure)
  | .ok () =>
      if limits.maxBatchSize < items.length then
        (tree, .error (batchTooLarge limits items))
      else
        writeThrough config limits environment tree
          fun memtable =>
            (memtable.batchPut config.jsonLen (familyItems family items)).1

end LsmTree

/-! ## Operations -/

/-- The writes of a family. -/
inductive CfWrite where
  | put (key : String) (value : Value)
  | delete (key : String)
  | batchPut (items : List (String × Value))

inductive CfRead where
  | get (key : String)
  | existsKey (key : String)
  | batchGet (keys : List String)
  | scanPrefix (keyPrefix : String)
  | scanRange (start rangeEnd : String)
  | scanRangeLimit (start rangeEnd : String) (limit : Nat)
  | scanAll
  | scanPrefixWithValues (keyPrefix : String)
  | scanRangeWithValues (start rangeEnd : String)
  | iterRange (start rangeEnd : String)

def CfWrite.memtable (jsonLen : SerdeJsonValue → Nat) (family : String) :
    CfWrite → Memtable → Memtable
  | .put key value, m => m.put jsonLen (familyKey family key) value
  | .delete key, m => m.delete jsonLen (familyKey family key)
  | .batchPut items, m =>
      (m.batchPut jsonLen (LsmTree.familyItems family items)).1

def CfWrite.run (config : CompactionConfig) (limits : WriteLimits)
    (environment : WriteEnvironment) (families : List String)
    (family : String) (tree : LsmTree) :
    CfWrite → LsmTree × Except ScanFailure Unit
  | .put key value =>
      tree.putCf config limits environment families key value family
  | .delete key =>
      tree.deleteCf config limits environment families key family
  | .batchPut items =>
      tree.batchPutCf config limits environment families items family

def CfRead.Answer : CfRead → Type
  | .get _ => Option Value
  | .existsKey _ => Bool
  | .batchGet _ => List (Option Value)
  | .scanPrefix _ | .scanRange _ _ | .scanRangeLimit _ _ _ => List String
  | .scanAll | .scanPrefixWithValues _ | .scanRangeWithValues _ _
  | .iterRange _ _ => List (String × Value)

def CfRead.run (faults : ReadFaults) (levelCount : Nat)
    (families : List String) (family : String) (tree : LsmTree) :
    (read : CfRead) → Except ScanFailure read.Answer
  | .get key => tree.getCf levelCount families key family
  | .existsKey key => tree.existsCf levelCount families key family
  | .batchGet keys => tree.batchGetCf levelCount families keys family
  | .scanPrefix keyPrefix =>
      tree.scanPrefixCf faults levelCount families keyPrefix family
  | .scanRange start rangeEnd =>
      tree.scanRangeCf faults levelCount families start rangeEnd family
  | .scanRangeLimit start rangeEnd limit =>
      tree.scanRangeLimitCf faults levelCount families start rangeEnd limit
        family
  | .scanAll => tree.scanAllCf faults levelCount families family
  | .scanPrefixWithValues keyPrefix =>
      tree.scanPrefixWithValuesCf faults levelCount families keyPrefix family
  | .scanRangeWithValues start rangeEnd =>
      tree.scanRangeWithValuesCf faults levelCount families start rangeEnd
        family
  | .iterRange start rangeEnd =>
      tree.iterRangeCf faults levelCount families start rangeEnd family

/-- The write leaves the memtable below its limit, so nothing is flushed. -/
def CfWrite.Fits (jsonLen : SerdeJsonValue → Nat) (limits : WriteLimits)
    (family : String) (tree : LsmTree) (write : CfWrite) : Prop :=
  (write.memtable jsonLen family tree.active).size < limits.memtableMaxSize

/-- A range scan whose range ends below its start. -/
def CfRead.reversed (family : String) : CfRead → Bool
  | .scanRange start rangeEnd | .scanRangeLimit start rangeEnd _
  | .scanRangeWithValues start rangeEnd | .iterRange start rangeEnd =>
      rangeReversed (familyKey family start)
        (LsmTree.familyEnd family rangeEnd)
  | _ => false

/-- One of the names begins with the other and a `#`. -/
def namesNest (first second : String) : Bool :=
  startsWith first (second ++ "#") || startsWith second (first ++ "#")

/-! ## The keys of two families -/

section

variable {first second : String}

theorem toList_familyKey_front (family key : String) :
    (familyKey family key).toList = (family ++ "#").toList ++ key.toList :=
  String.toList_append

theorem startsWith_append (front rest : String) :
    startsWith (front ++ rest) front = true := by
  rw [startsWith_iff, String.toList_append]
  exact List.prefix_append _ _

theorem startsWith_front_familyKey (family key : String) :
    startsWith (familyKey family key) (family ++ "#") = true :=
  startsWith_append _ _

/-- A key of one family with the front of another comes from names that
nest. -/
theorem namesNest_of_startsWith (distinct : first ≠ second) {key : String}
    (starts : startsWith (familyKey second key) (first ++ "#") = true) :
    namesNest first second = true := by
  have ofFirst := startsWith_iff.mp starts
  have ofSecond := startsWith_iff.mp (startsWith_front_familyKey second key)
  have concat : ∀ name : String, (name ++ "#").toList =
      name.toList ++ ['#'] := fun name => String.toList_append
  rw [concat] at ofFirst ofSecond
  rw [namesNest, Bool.or_eq_true, startsWith_iff, startsWith_iff, concat,
    concat]
  rcases List.prefix_or_prefix_of_prefix ofFirst ofSecond with
    shorter | longer
  · rcases List.prefix_concat_iff.mp shorter with same | inside
    · have names := List.append_cancel_right same
      exact absurd (String.toList_inj.mp names) distinct
    · exact Or.inr inside
  · rcases List.prefix_concat_iff.mp longer with same | inside
    · have names := List.append_cancel_right same
      exact absurd (String.toList_inj.mp names) distinct.symm
    · exact Or.inl inside

theorem exists_shared_key (nest : namesNest first second = true) :
    ∃ key key', familyKey first key = familyKey second key' := by
  have inside : ∀ {outer inner : String},
      startsWith outer (inner ++ "#") = true →
        ∃ key, familyKey outer "" = familyKey inner key := by
    intro outer inner starts
    have front : inner ++ "#" = familyKey inner "" := by simp [familyKey]
    rw [front] at starts
    rcases exists_familyKey starts with ⟨rest, whole⟩
    refine ⟨rest ++ "#", ?_⟩
    rw [whole]
    simp [familyKey, String.append_assoc]
  rcases (Bool.or_eq_true _ _).mp nest with inSecond | inFirst
  · rcases inside inSecond with ⟨key, same⟩
    exact ⟨"", key, same⟩
  · rcases inside inFirst with ⟨key, same⟩
    exact ⟨key, "", same.symm⟩

end

/-! ## The keys that a read of a family asks for -/

theorem startsWith_exclusiveRangeEnd {front rangeEnd bound : String}
    {more : List Char} (whole : rangeEnd.toList = front.toList ++ more)
    (nonempty : more ≠ [])
    (found : exclusiveRangeEnd rangeEnd = some bound) :
    startsWith bound front = true := by
  rw [exclusiveRangeEnd] at found
  rw [startsWith_iff]
  cases lastChar : rangeEnd.toList.getLast? with
  | none => simp [lastChar] at found
  | some last =>
      rw [lastChar] at found
      simp only at found
      split at found
      · rw [← Option.some.inj found, String.toList_ofList, whole,
          List.dropLast_append_of_ne_nil nonempty, List.append_assoc]
        exact List.prefix_append _ _
      · rw [← Option.some.inj found, String.toList_append, whole,
          List.append_assoc]
        exact List.prefix_append _ _

/-- `#` and `$` follow each other, so nothing but the family is between
them. -/
theorem startsWith_front_of_between {family key : String}
    (above : family ++ "#" ≤ key) (below : key < family ++ "$") :
    startsWith key (family ++ "#") = true := by
  have inName : startsWith key family = true :=
    startsWith_of_between (startsWith_append family "$")
      ((le_of_startsWith (startsWith_append family "#")).trans above) below.le
  rcases startsWith_iff.mp inName with ⟨rest, whole⟩
  have least : ¬ rest < ['#'] := by
    rw [← append_lt_append_iff family.toList, whole]
    intro less
    rw [String.le_iff_toList_le, String.toList_append] at above
    exact absurd less above.not_gt
  have most : rest < ['$'] := by
    rw [← append_lt_append_iff family.toList, whole]
    rw [String.lt_iff_toList_lt, String.toList_append] at below
    exact below
  rw [startsWith_iff, String.toList_append, ← whole]
  apply (List.prefix_append_right_inj _).mpr
  cases rest with
  | nil => exact absurd (List.nil_lt_cons _ _) least
  | cons c others =>
      rw [cons_lt_cons_iff] at least most
      have small : c < '$' := by
        rcases most with less | same
        · exact less
        · exact absurd same.2 (List.not_lt_nil _)
      have same : c = '#' := by
        have large : ¬ c < '#' := fun less => least (Or.inl less)
        apply Char.ext
        change c.val < 36 at small
        change ¬ c.val < 35 at large
        change c.val = 35
        rw [UInt32.lt_iff_toNat_lt] at small large
        apply UInt32.toNat_inj.mp
        change c.val.toNat < 36 at small
        change ¬ c.val.toNat < 35 at large
        change c.val.toNat = 35
        omega
      rw [same]
      exact ⟨others, rfl⟩

theorem exclusiveRangeEnd_front (family : String) :
    exclusiveRangeEnd (family ++ "#") = some (family ++ "$") := by
  have chars : (family ++ "#").toList = family.toList ++ ['#'] :=
    String.toList_append
  rw [exclusiveRangeEnd, chars, List.getLast?_concat]
  have next : nextChar '#' = some '$' := by decide
  simp only [next, List.dropLast_concat]
  congr 1
  rw [← String.toList_inj, String.toList_ofList, String.toList_append]
  rfl

theorem startsWith_front_of_inRange {family start rangeEnd key : String}
    (asked : inRange (familyKey family start)
      (LsmTree.familyEnd family rangeEnd) key = true) :
    startsWith key (family ++ "#") = true := by
  rw [inRange, Bool.and_eq_true, decide_eq_true_eq] at asked
  have above : family ++ "#" ≤ key :=
    (le_of_startsWith (startsWith_front_familyKey family start)).trans
      asked.1
  have below := asked.2
  rw [belowEnd, LsmTree.familyEnd] at below
  by_cases empty : rangeEnd = ""
  · rw [if_pos empty, exclusiveRangeEnd_front] at below
    exact startsWith_front_of_between above (of_decide_eq_true below)
  · rw [if_neg empty] at below
    have chars := toList_familyKey_front family rangeEnd
    have more : rangeEnd.toList ≠ [] := by
      rwa [ne_eq, String.toList_eq_nil_iff]
    cases found : exclusiveRangeEnd (familyKey family rangeEnd) with
    | none =>
        rw [exclusiveRangeEnd_eq_none_iff] at found
        rw [found] at chars
        exact absurd (List.append_eq_nil_iff.mp chars.symm).2 more
    | some bound =>
        rw [found] at below
        exact startsWith_of_between
          (startsWith_exclusiveRangeEnd chars more found) above
          (of_decide_eq_true below).le

/-! ## Memtables that agree on a family -/

/-- Two memtables hold the same of every key with the front. -/
def SameBehind (front : String) (first second : Memtable) : Prop :=
  ∀ key, startsWith key front = true →
    first.data[key]? = second.data[key]?

theorem Memtable.filter_congr {first second : Memtable}
    (wanted : String → Bool)
    (same : ∀ key, wanted key = true →
      first.data[key]? = second.data[key]?) :
    (first.getAllEntries.filter fun entry => wanted entry.1) =
      second.getAllEntries.filter fun entry => wanted entry.1 := by
  have listing : ∀ memtable : Memtable,
      Listing (fun key => wanted key = true)
        (fun key => (memtable.data[key]?).map fun value =>
          (value, value.isNull))
        (memtable.getAllEntries.filter fun entry => wanted entry.1) := by
    intro memtable
    constructor
    case ascending => exact memtable.ascending.filter _
    case mem_iff =>
      intro key found
      rcases found with ⟨value, deleted⟩
      rw [List.mem_filter, Memtable.mem_getAllEntries, Option.map_eq_some_iff]
      constructor
      · intro member
        exact ⟨member.2, value, member.1.1, by rw [member.1.2]⟩
      · intro held
        rcases held with ⟨isWanted, other, found, pair⟩
        rw [Prod.mk.injEq] at pair
        rw [← pair.1]
        exact ⟨⟨found, pair.2.symm⟩, isWanted⟩
  apply (listing first).unique
  apply (listing second).iff_agree.mpr
  intro key isWanted
  rw [same key isWanted]

section

variable {family : String} {first second : Memtable}

theorem SameBehind.scanPrefixLayer (same : SameBehind (family ++ "#") first
      second) (keyPrefix : String) :
    first.scanPrefixLayer (familyKey family keyPrefix) =
      second.scanPrefixLayer (familyKey family keyPrefix) := by
  rw [Memtable.scanPrefixLayer_eq, Memtable.scanPrefixLayer_eq]
  apply Memtable.filter_congr (startsWith · (familyKey family keyPrefix))
  intro key starts
  apply same
  rw [startsWith_iff] at starts ⊢
  have front := startsWith_iff.mp (startsWith_front_familyKey family keyPrefix)
  exact front.trans starts

theorem SameBehind.scanRangeLayer (same : SameBehind (family ++ "#") first
      second) {start rangeEnd : String}
    (forward : rangeReversed (familyKey family start)
      (LsmTree.familyEnd family rangeEnd) = false) :
    first.scanRangeLayer (familyKey family start)
        (LsmTree.familyEnd family rangeEnd) =
      second.scanRangeLayer (familyKey family start)
        (LsmTree.familyEnd family rangeEnd) := by
  rw [Memtable.scanRangeLayer_eq, Memtable.scanRangeLayer_eq, forward]
  simp only [Bool.false_eq_true, and_false, if_false]
  rw [Memtable.filter_congr _ fun key asked =>
    same key (startsWith_front_of_inRange asked)]

theorem SameBehind.get {tree : LsmTree} {active : Memtable}
    (same : SameBehind (family ++ "#") active tree.active)
    (levelCount : Nat) (key : String) :
    LsmTree.get levelCount { tree with active := active }
        (familyKey family key) =
      tree.get levelCount (familyKey family key) := by
  have held := same _ (startsWith_front_familyKey family key)
  rw [LsmTree.get_eq, LsmTree.get_eq, memtableValue_cons,
    memtableValue_cons, held]

end

/-- Every read of a family depends on the active memtable through the keys of
the family alone, unless its range ends below its start. -/
theorem SameBehind.run {family : String} {tree : LsmTree} {active : Memtable}
    (same : SameBehind (family ++ "#") active tree.active)
    (faults : ReadFaults) (levelCount : Nat) (families : List String)
    {read : CfRead} (forward : read.reversed family = false) :
    read.run faults levelCount families family
        { tree with active := active } =
      read.run faults levelCount families family tree := by
  cases read with
  | get key =>
      simp only [CfRead.run, LsmTree.getCf, same.get levelCount key]
      rfl
  | existsKey key =>
      simp only [CfRead.run, LsmTree.existsCf, LsmTree.existsKey_eq,
        same.get levelCount key]
      rfl
  | batchGet keys =>
      simp only [CfRead.run, LsmTree.batchGetCf, same.get levelCount]
      rfl
  | scanPrefix keyPrefix =>
      simp only [CfRead.run, LsmTree.scanPrefixCf, LsmTree.scanPrefix,
        List.flatMap_cons, Memtable.scanPrefix,
        same.scanPrefixLayer keyPrefix]
      rfl
  | scanRange start rangeEnd =>
      simp only [CfRead.run, LsmTree.scanRangeCf, LsmTree.scanRange,
        List.mapM_cons, Memtable.scanRange, same.scanRangeLayer forward]
      rfl
  | scanRangeLimit start rangeEnd limit =>
      simp only [CfRead.run, LsmTree.scanRangeLimitCf,
        LsmTree.scanRangeLimit, List.map_cons, Memtable.scanRange,
        same.scanRangeLayer forward]
      rfl
  | scanAll =>
      have layer := same.scanPrefixLayer ""
      have front : familyKey family "" = family ++ "#" := by
        simp [familyKey]
      rw [front] at layer
      simp only [CfRead.run, LsmTree.scanAllCf, LsmTree.scanPrefixWithValues,
        LsmTree.mergeScan, layer]
      rfl
  | scanPrefixWithValues keyPrefix =>
      simp only [CfRead.run, LsmTree.scanPrefixWithValuesCf,
        LsmTree.scanPrefixWithValues, LsmTree.mergeScan,
        same.scanPrefixLayer keyPrefix]
      rfl
  | scanRangeWithValues start rangeEnd =>
      simp only [CfRead.run, LsmTree.scanRangeWithValuesCf,
        LsmTree.scanRangeWithValues, LsmTree.mergeScan,
        same.scanRangeLayer forward]
      rfl
  | iterRange start rangeEnd =>
      simp only [CfRead.run, LsmTree.iterRangeCf,
        LsmTree.scanRangeWithValuesCf, LsmTree.scanRangeWithValues,
        LsmTree.mergeScan, same.scanRangeLayer forward]
      rfl

/-! ## What a write changes -/

theorem Memtable.batchPut_get (jsonLen : SerdeJsonValue → Nat)
    (items : List (String × Value)) (m : Memtable) {key : String}
    (other : ∀ item ∈ items, item.1 ≠ key) :
    (m.batchPut jsonLen items).1.data[key]? = m.data[key]? := by
  induction items generalizing m with
  | nil => rfl
  | cons item rest inductionHypothesis =>
      rw [Memtable.batchPut, inductionHypothesis _ fun other' member =>
        other other' (List.mem_cons_of_mem _ member), Memtable.put_get,
        if_neg (other item List.mem_cons_self)]

theorem CfWrite.memtable_get (jsonLen : SerdeJsonValue → Nat)
    (family : String) (write : CfWrite) (m : Memtable) {key : String}
    (other : ∀ own, familyKey family own ≠ key) :
    (write.memtable jsonLen family m).data[key]? = m.data[key]? := by
  cases write with
  | put own value =>
      rw [CfWrite.memtable, Memtable.put_get, if_neg (other own)]
  | delete own =>
      rw [CfWrite.memtable, Memtable.delete_get, if_neg (other own)]
  | batchPut items =>
      apply Memtable.batchPut_get
      intro item member
      rcases List.mem_map.mp member with ⟨source, _, same⟩
      rw [← same]
      exact other source.1

section

variable {config : CompactionConfig} {limits : WriteLimits}
variable {environment : WriteEnvironment} {families : List String}
variable {family : String} {tree : LsmTree}

theorem LsmTree.writeThrough_of_lt {write : Memtable → Memtable}
    (fits : (write tree.active).size < limits.memtableMaxSize) :
    (tree.writeThrough config limits environment write).1 = tree ∨
      (tree.writeThrough config limits environment write).1 =
        { tree with active := write tree.active } := by
  rw [LsmTree.writeThrough]
  cases environment.logFailure with
  | some failure => exact Or.inl rfl
  | none =>
      rw [LsmTree.checkMemtableFlush, if_neg (not_le.mpr fits)]
      exact Or.inr rfl

theorem CfWrite.run_of_fits (environment : WriteEnvironment)
    (families : List String) {write : CfWrite}
    (fits : write.Fits config.jsonLen limits family tree) :
    (write.run config limits environment families family tree).1 = tree ∨
      (write.run config limits environment families family tree).1 =
        { tree with
          active := write.memtable config.jsonLen family tree.active } := by
  cases write with
  | put key value =>
      rw [CfWrite.run, LsmTree.putCf]
      split
      · exact Or.inl rfl
      · exact LsmTree.writeThrough_of_lt fits
  | delete key =>
      rw [CfWrite.run, LsmTree.deleteCf]
      split
      · exact Or.inl rfl
      · exact LsmTree.writeThrough_of_lt fits
  | batchPut items =>
      rw [CfWrite.run, LsmTree.batchPutCf]
      split
      · exact Or.inl rfl
      · split
        · exact Or.inl rfl
        · exact LsmTree.writeThrough_of_lt fits

end

theorem CfWrite.run_unchanged {config : CompactionConfig}
    {limits : WriteLimits} {environment : WriteEnvironment}
    {families : List String} {first second : String} {tree : LsmTree}
    {write : CfWrite} {read : CfRead} (distinct : first ≠ second)
    (apart : namesNest first second = false)
    (fits : write.Fits config.jsonLen limits second tree)
    (forward : read.reversed first = false) (faults : ReadFaults) :
    read.run faults config.levelCount families first
        (write.run config limits environment families second tree).1 =
      read.run faults config.levelCount families first tree := by
  have same : SameBehind (first ++ "#")
      (write.memtable config.jsonLen second tree.active) tree.active := by
    intro key starts
    apply CfWrite.memtable_get
    intro own here
    rw [← here] at starts
    have nest := namesNest_of_startsWith distinct starts
    rw [apart] at nest
    exact absurd nest (by simp)
  rcases CfWrite.run_of_fits environment families fits with
    refused | written
  · rw [refused]
  · rw [written]
    exact same.run faults config.levelCount families forward

/-! ## The writes and reads that are not isolated -/

/-- Nothing fails and there are no other files. -/
def freeEnvironment : WriteEnvironment :=
  ⟨none, [], smallTable, .done, .internal "", [], outputFiles 1, true⟩

theorem checkFamily_of_mem {families : List String} {family : String}
    (known : family ∈ families) : checkFamily families family = .ok () := by
  rw [checkFamily, if_pos known]

theorem put_shows_in_both (config : CompactionConfig) {first second key
    key' : String} (shared : familyKey first key = familyKey second key')
    (faults : ReadFaults) :
    ∃ limits, (CfWrite.put key' (.bool true)).Fits config.jsonLen limits
        second LsmTree.empty ∧
      (CfRead.get key).run faults config.levelCount [first, second] first
          ((CfWrite.put key' (.bool true)).run config limits freeEnvironment
            [first, second] second LsmTree.empty).1 =
        .ok (some (.bool true)) := by
  have knownFirst : checkFamily [first, second] first = .ok () :=
    checkFamily_of_mem (by simp)
  have knownSecond : checkFamily [first, second] second = .ok () :=
    checkFamily_of_mem (by simp)
  let written := LsmTree.empty.active.put config.jsonLen
    (familyKey second key') (.bool true)
  refine ⟨⟨written.size + 1, 1, false⟩, Nat.lt_succ_self _, ?_⟩
  have full : ¬ written.size + 1 ≤ written.size := Nat.not_succ_le_self _
  simp only [CfWrite.run, LsmTree.putCf, knownSecond, LsmTree.writeThrough,
    freeEnvironment, LsmTree.checkMemtableFlush]
  rw [if_neg full]
  simp only [CfRead.run, LsmTree.getCf, knownFirst, ok_bind]
  rw [LsmTree.get_eq, memtableValue_cons, Memtable.put_get,
    if_pos shared.symm]
  rfl

section

variable {config : CompactionConfig}

theorem compactIfNeeded_single (several : 0 < config.maxSstablesPerLevel)
    (order : List Nat) (output : OutputFiles) (table : SSTable) :
    compactIfNeeded config order output
        (LsmTree.publish (fun _ => []) table) =
      LsmTree.publish (fun _ => []) table := by
  have never : ∀ level, shouldCompactLevel config order level
      (LsmTree.publish (fun _ => []) table level) = false := by
    intro level
    cases level with
    | zero =>
        have few : ¬ 1 > config.maxSstablesPerLevel := by omega
        rw [shouldCompactLevel, LsmTree.publish, Function.update_self]
        cases config.strategy <;>
          simp [shouldCompactLeveled, shouldCompactSizeTiered,
            shouldCompactTimeWindowed] <;> omega
    | succ level => rfl
  rw [compactIfNeeded, levelToCompact]
  have none : (List.range config.levelCount).find? (fun level =>
      shouldCompactLevel config order level
        (LsmTree.publish (fun _ => []) table level)) = none := by
    apply List.find?_eq_none.mpr
    intro level _
    rw [never level]
    simp
  rw [none]

/-- A deleted key of `first` that the memtable holds. -/
def deletedKey (config : CompactionConfig) (first : String) : LsmTree :=
  LsmTree.empty.delete config.jsonLen (familyKey first "")

theorem deletedKey_invariant (first : String) :
    (deletedKey config first).Invariant config :=
  (LsmTree.empty_invariant config).advance _ _ le_rfl

def fillingPut (limits : WriteLimits) : CfWrite :=
  .put "" (.bytes (List.replicate limits.memtableMaxSize 0))

theorem fillingPut_full (limits : WriteLimits) (family : String)
    (m : Memtable) : limits.memtableMaxSize ≤
      ((fillingPut limits).memtable config.jsonLen family m).size := by
  simp only [fillingPut, CfWrite.memtable, Memtable.put,
    Value.serializedSize]
  split <;> simp <;> omega

theorem fillingPut_get (limits : WriteLimits) {first second : String}
    (distinct : first ≠ second) :
    ((fillingPut limits).memtable config.jsonLen second
      (deletedKey config first).active).data[familyKey first ""]? =
        some .null := by
  have other : familyKey second "" ≠ familyKey first "" := by
    intro same
    rw [← String.toList_inj, familyKey, familyKey] at same
    simp only [String.append_empty, String.toList_append] at same
    exact distinct (String.toList_inj.mp
      (List.append_cancel_right same)).symm
  rw [fillingPut, CfWrite.memtable, Memtable.put_get, if_neg other,
    deletedKey, LsmTree.delete, Memtable.delete_get, if_pos rfl]

theorem run_fillingPut (several : 0 < config.maxSstablesPerLevel)
    (limits : WriteLimits) {first second : String}
    (distinct : first ≠ second) :
    ∃ after, (fillingPut limits).run config limits freeEnvironment
        [first, second] second (deletedKey config first) =
          (after, .ok ()) ∧
      after.Invariant config ∧ ∃ table,
        after.levels = LsmTree.publish (fun _ => []) table ∧
        ∃ entry ∈ table.entries, entry.key = familyKey first "" := by
  let written : LsmTree := { deletedKey config first with
    active := (fillingPut limits).memtable config.jsonLen second
      (deletedKey config first).active }
  have held : written.active.data[familyKey first ""]? = some .null :=
    fillingPut_get limits distinct
  have nonempty : written.active.entryCount > 0 := by
    by_contra empty
    rw [Memtable.get_of_entryCount empty] at held
    exact absurd held (by simp)
  have full : limits.memtableMaxSize ≤ written.active.size :=
    fillingPut_full limits second _
  let table := LsmTree.flushedTable [] smallTable written
  let after := (written.flushMemtableInternal [] smallTable .done).1
  have invariant : written.Invariant config :=
    (deletedKey_invariant first).advance _ _ le_rfl
  have flushedHere : written.flushMemtableInternal [] smallTable .done =
      (after, true) := by
    simp only [after, LsmTree.flushMemtableInternal, if_pos nonempty]
  have levels : after.levels = LsmTree.publish (fun _ => []) table := by
    simp only [after, LsmTree.flushMemtableInternal, if_pos nonempty]
    rfl
  have kept : compactIfNeeded config [] (outputFiles 1) after.levels =
      after.levels := by
    rw [levels]
    exact compactIfNeeded_single several _ _ table
  have known : checkFamily [first, second] second = .ok () :=
    checkFamily_of_mem (by simp)
  refine ⟨after, ?_, invariant.flush _ _ _, table, levels, ?_⟩
  · have ran : (fillingPut limits).run config limits freeEnvironment
        [first, second] second (deletedKey config first) =
          written.checkMemtableFlush config limits freeEnvironment := by
      simp only [fillingPut, CfWrite.run, LsmTree.putCf, known,
        LsmTree.writeThrough, freeEnvironment]
      rfl
    rw [ran, LsmTree.checkMemtableFlush, if_pos full]
    simp only [freeEnvironment, flushedHere, kept, ite_self]
  · rcases LsmTree.exists_mem_flushedTable held with
      ⟨entry, member, sameKey, _⟩
    exact ⟨entry, member, sameKey⟩

theorem deletedKey_not_listed (first : String) :
    ¬ ((deletedKey config first).MemtableHolds (familyKey first "") ∨
      (deletedKey config first).TableHolds config.levelCount
        (familyKey first "")) := by
  intro held
  rcases held with inMemtable | inTable
  · rcases inMemtable with ⟨memtable, member, value, found, live⟩
    have active : memtable = (deletedKey config first).active :=
      List.mem_singleton.mp member
    rw [active, deletedKey, LsmTree.delete, Memtable.delete_get, if_pos rfl,
      Option.some.injEq] at found
    rw [← found] at live
    exact absurd live (by simp [Value.isNull])
  · rcases inTable with ⟨entry, member, _⟩
    rcases mem_allEntries.mp member with ⟨table, listed, _⟩
    rcases List.mem_flatMap.mp listed with ⟨level, _, here⟩
    exact absurd here List.not_mem_nil

/-- A put into `second` that fills a memtable with a deleted key of `first`
brings this key into a scan of `first`. -/
theorem full_put_lists_deleted_key (levels : 0 < config.levelCount)
    (several : 0 < config.maxSstablesPerLevel) (limits : WriteLimits)
    {first second : String} (distinct : first ≠ second) :
    ∃ keys keys' after,
      (fillingPut limits).run config limits freeEnvironment [first, second]
        second (deletedKey config first) = (after, .ok ()) ∧
      (deletedKey config first).scanPrefixCf .none config.levelCount
        [first, second] "" first = .ok keys ∧
      after.scanPrefixCf .none config.levelCount [first, second] "" first =
        .ok keys' ∧
      "" ∉ keys ∧ "" ∈ keys' := by
  have known : checkFamily [first, second] first = .ok () :=
    checkFamily_of_mem (by simp)
  have invariant : (deletedKey config first).Invariant config :=
    deletedKey_invariant first
  rcases run_fillingPut several limits distinct with
    ⟨after, ran, invariant', table, tables, entry, inTable, sameKey⟩
  rcases scanPrefix_listsKeys invariant (familyKey first "") with
    ⟨keys, scanned, listing⟩
  rcases scanPrefix_listsKeys invariant' (familyKey first "") with
    ⟨keys', scanned', listing'⟩
  refine ⟨withoutFront (familyKey first "") keys,
    withoutFront (familyKey first "") keys', after, ran, ?_, ?_, ?_, ?_⟩
  · simp only [LsmTree.scanPrefixCf, known, ok_bind, scanned]
    rfl
  · simp only [LsmTree.scanPrefixCf, known, ok_bind, scanned']
    rfl
  · rw [mem_withoutFront, String.append_empty, listing.2]
    intro listed
    exact deletedKey_not_listed first listed.2
  · rw [mem_withoutFront, String.append_empty, listing'.2]
    have starts := startsWith_append (familyKey first "") ""
    rw [String.append_empty] at starts
    refine ⟨starts, Or.inr ⟨entry, ?_, sameKey⟩⟩
    refine mem_allEntries.mpr ⟨table, ?_, inTable⟩
    rw [tables, LsmTree.scanTables, List.mem_flatMap]
    refine ⟨0, List.mem_range.mpr levels, ?_⟩
    rw [LsmTree.publish, Function.update_self]
    exact List.mem_singleton_self table

end

theorem rangeReversed_c_a (family : String) :
    rangeReversed (familyKey family "c") (LsmTree.familyEnd family "a") =
      true := by
  have chars : (familyKey family "a").toList =
      (family ++ "#").toList ++ ['a'] := toList_familyKey_front family "a"
  have next : nextChar 'a' = some 'b' := by decide
  rw [rangeReversed, LsmTree.familyEnd, if_neg (by decide),
    exclusiveRangeEnd, chars, List.getLast?_concat]
  simp only [next, List.dropLast_concat]
  rw [decide_eq_true_eq, String.lt_iff_toList_lt, String.toList_ofList,
    toList_familyKey_front, append_lt_append_iff]
  decide

/-- A range that ends below its start is empty while the memtable is, and
panics after any put. -/
theorem reversed_range_panics (config : CompactionConfig)
    (faults : ReadFaults) (first second : String) :
    ∃ limits, (CfWrite.put "" (.bool true)).Fits config.jsonLen limits second
        LsmTree.empty ∧
      LsmTree.empty.scanRangeCf faults config.levelCount [first, second] "c"
          "a" first = .ok [] ∧
      ((CfWrite.put "" (.bool true)).run config limits freeEnvironment
          [first, second] second LsmTree.empty).1.scanRangeCf faults
          config.levelCount [first, second] "c" "a" first =
        .error .panicked := by
  have knownFirst : checkFamily [first, second] first = .ok () :=
    checkFamily_of_mem (by simp)
  have knownSecond : checkFamily [first, second] second = .ok () :=
    checkFamily_of_mem (by simp)
  have reversed := rangeReversed_c_a first
  let written := LsmTree.empty.active.put config.jsonLen
    (familyKey second "") (.bool true)
  have noTable : LsmTree.scanTables config.levelCount LsmTree.empty.levels =
      [] := List.flatMap_eq_nil_iff.mpr fun _ _ => rfl
  refine ⟨⟨written.size + 1, 1, false⟩, Nat.lt_succ_self _, ?_, ?_⟩
  · simp only [LsmTree.scanRangeCf, knownFirst, ok_bind, LsmTree.scanRange,
      Memtable.scanRange, Memtable.scanRangeLayer_eq, noTable]
    rfl
  · have full : ¬ written.size + 1 ≤ written.size :=
      Nat.not_succ_le_self _
    simp only [CfWrite.run, LsmTree.putCf, knownSecond,
      LsmTree.writeThrough, freeEnvironment, LsmTree.checkMemtableFlush]
    rw [if_neg full]
    have held : written.entryCount > 0 := by
      by_contra empty
      have missing := Memtable.get_of_entryCount empty (familyKey second "")
      rw [Memtable.put_get, if_pos rfl] at missing
      exact absurd missing (by simp)
    simp only [LsmTree.scanRangeCf, knownFirst, ok_bind, LsmTree.scanRange,
      List.mapM_cons, Memtable.scanRange, Memtable.scanRangeLayer_eq]
    rw [if_pos ⟨held, reversed⟩]
    rfl

/-- Writes that fit leave all reads of the other family as they are, but for
reversed ranges, exactly when the names do not nest.  For every two names
there are a put that fills the memtable and a reversed range that break it. -/
theorem families_isolated_iff (config : CompactionConfig)
    (faults : ReadFaults) {first second : String}
    (distinct : first ≠ second) :
    ((∀ limits environment families tree, ∀ write : CfWrite,
        ∀ read : CfRead, write.Fits config.jsonLen limits second tree →
          read.reversed first = false →
          read.run faults config.levelCount families first
              (write.run config limits environment families second tree).1 =
            read.run faults config.levelCount families first tree) ↔
      namesNest first second = false) ∧
    (0 < config.levelCount → 0 < config.maxSstablesPerLevel →
      ∀ limits, ∃ families environment tree keys keys' after,
        ∃ write : CfWrite,
          write.run config limits environment families second tree =
            (after, .ok ()) ∧
          tree.scanPrefixCf .none config.levelCount families "" first =
            .ok keys ∧
          after.scanPrefixCf .none config.levelCount families "" first =
            .ok keys' ∧ "" ∉ keys ∧ "" ∈ keys') ∧
    ∃ limits environment families tree, ∃ write : CfWrite,
      write.Fits config.jsonLen limits second tree ∧
      tree.scanRangeCf faults config.levelCount families "c" "a" first =
        .ok [] ∧
      (write.run config limits environment families second
          tree).1.scanRangeCf faults config.levelCount families "c" "a"
          first =
        .error .panicked := by
  refine ⟨⟨?_, ?_⟩, ?_, ?_⟩
  · intro isolated
    by_contra nest
    rcases exists_shared_key (Bool.of_not_eq_false nest) with
      ⟨key, key', shared⟩
    rcases put_shows_in_both config shared faults with ⟨limits, fits, shown⟩
    have unchanged := isolated limits freeEnvironment [first, second]
      LsmTree.empty _ (.get key) fits rfl
    rw [shown] at unchanged
    have known : checkFamily [first, second] first = .ok () :=
      checkFamily_of_mem (by simp)
    simp only [CfRead.run, LsmTree.getCf, known, ok_bind,
      LsmTree.empty_get] at unchanged
    exact absurd (Except.ok.inj unchanged) (by simp)
  · intro apart limits environment families tree write read fits forward
    exact CfWrite.run_unchanged distinct apart fits forward faults
  · intro levels several limits
    rcases full_put_lists_deleted_key levels several limits distinct with
      ⟨keys, keys', after, broken⟩
    exact ⟨_, _, _, keys, keys', after, _, broken⟩
  · rcases reversed_range_panics config faults first second with
      ⟨limits, broken⟩
    exact ⟨limits, _, _, _, _, broken⟩

/-- Families `a` and `b`. -/
theorem families_a_b_isolated :
    namesNest "a" "b" = false ∧
      ∀ tree, ∀ write : CfWrite, ∀ read : CfRead,
        write.Fits leveledConfig.jsonLen ⟨1024, 10, false⟩ "b" tree →
          read.reversed "a" = false →
          read.run .none 7 ["a", "b"] "a"
              (write.run leveledConfig ⟨1024, 10, false⟩ freeEnvironment
                ["a", "b"] "b" tree).1 =
            read.run .none 7 ["a", "b"] "a" tree := by
  have apart : namesNest "a" "b" = false := by decide
  apply And.intro apart
  exact (families_isolated_iff leveledConfig .none
    (by decide)).1.mpr apart ⟨1024, 10, false⟩ freeEnvironment ["a", "b"]

/-- A put into `a#b` shows in `a`. -/
theorem nested_family_is_read :
    LsmTree.empty.getCf 7 ["a", "a#b"] "b#k" "a" = .ok none ∧
      ((CfWrite.put "k" (.bool true)).run leveledConfig ⟨1024, 10, false⟩
          freeEnvironment ["a", "a#b"] "a#b" LsmTree.empty).2 = .ok () ∧
      ((CfWrite.put "k" (.bool true)).run leveledConfig ⟨1024, 10, false⟩
          freeEnvironment ["a", "a#b"] "a#b" LsmTree.empty).1.getCf 7
          ["a", "a#b"] "b#k" "a" =
        .ok (some (.bool true)) :=
  ⟨rfl, rfl, rfl⟩

end F4kvsLsm
