import F4kvsLsm.Lib.NumberTexts
import F4kvsLsm.Compaction.OutputNames
import F4kvsLsm.Core.Load

/-!
# Reading the names of table files

There is no manifest: the level of a table, and the number of its flush, are
read off the name of its file.
-/

namespace F4kvsLsm

open Digits

def sstExtension : List Char := ['.', 's', 's', 't']

/-- How the name of an output of a compaction begins. -/
def compactionPrefix : List Char :=
  ['s', 's', 't', 'a', 'b', 'l', 'e', '_', 'l']

/-- The numbers of 64 bits. -/
def u64Limit : Nat := 2 ^ 64

def levelInName (name : List Char) : Option Nat :=
  if ¬ sstExtension <:+ name then none
  else
    match name.dropPrefix? compactionPrefix with
    | some rest =>
        fromStrRadix 10 u64Limit (rest.takeWhile (· ≠ '_'))
    | none =>
        if name.head? = some 'L' then
          ((name.takeWhile (· ≠ '_')).dropPrefix? ['L']).bind
            (fromStrRadix 10 u64Limit)
        else none

def parseSstableLevelFromFilename (fileName : String) : Option Nat :=
  levelInName fileName.toList

def flushSequenceInName (name : List Char) : Option Nat :=
  if ¬ sstExtension <:+ name ∨ ¬ name.head? = some 'L' then none
  else do
    let rest ← name.dropPrefix? ['L']
    let (_, seqAndExt) ← splitOnce '_' rest
    let seqHex ← seqAndExt.dropSuffix? sstExtension
    fromStrRadix 16 u64Limit seqHex

/-- Names of outputs of a compaction have none. -/
def parseSstableFlushSequenceFromFilename (fileName : String) : Option Nat :=
  flushSequenceInName fileName.toList

/-! ## The names that are written -/

/-- The numbers that are read off a name have 64 bits. -/
def SstableName.Fits : SstableName → Prop
  | .flush level sequence => level < u64Limit ∧ sequence < u64Limit
  | .compaction level _ _ => level < u64Limit

theorem fileName_flush_toList (level sequence : Nat) :
    (SstableName.flush level sequence).fileName.toList =
      'L' :: (Nat.toDigits 10 level ++ '_' ::
        ((List.replicate (16 - (Nat.toDigits 16 sequence).length) '0' ++
          Nat.toDigits 16 sequence) ++ sstExtension)) := by
  simp [SstableName.fileName, hexDigits, String.toList_append, sstExtension]

theorem dropPrefix?_append {α : Type} [DecidableEq α] (front back : List α) :
    (front ++ back).dropPrefix? front = some back :=
  List.dropPrefix?_append_of_beq back BEq.rfl

theorem dropSuffix?_append {α : Type} [DecidableEq α] (front back : List α) :
    (front ++ back).dropSuffix? back = some front :=
  List.dropSuffix?_eq_some_iff.mpr ⟨back, rfl, BEq.rfl⟩

/-- The name of a flush is no name of an output of a compaction. -/
theorem dropPrefix?_flush (rest : List Char) :
    ('L' :: rest).dropPrefix? compactionPrefix = none := rfl

theorem sstExtension_fileName (name : SstableName) :
    sstExtension <:+ name.fileName.toList := by
  cases name with
  | flush level sequence =>
      refine ⟨'L' :: (Nat.toDigits 10 level ++ '_' ::
        (List.replicate (16 - (Nat.toDigits 16 sequence).length) '0' ++
          Nat.toDigits 16 sequence)), ?_⟩
      rw [fileName_flush_toList, List.cons_append, List.append_assoc,
        List.cons_append]
  | compaction level timestamp uniq =>
      refine ⟨compactionPrefix ++ (Nat.toDigits 10 level ++ '_' :: 't' ::
        (Nat.toDigits 10 timestamp ++ '_' :: Nat.toDigits 16 uniq)), ?_⟩
      rw [fileName_compaction_toList]
      simp only [List.append_assoc, List.cons_append]
      rfl

theorem readLevel {level : Nat} (fits : level < u64Limit) :
    fromStrRadix 10 u64Limit (Nat.toDigits 10 level) = some level :=
  fromStrRadix_toDigits (by decide) (by decide) fits

theorem parseSstableLevelFromFilename_fileName
    {name : SstableName} (fits : name.Fits) :
    parseSstableLevelFromFilename name.fileName = some name.level := by
  rw [parseSstableLevelFromFilename, levelInName,
    if_neg (not_not.mpr (sstExtension_fileName name))]
  cases name with
  | flush level sequence =>
      have free : '_' ∉ 'L' :: Nat.toDigits 10 level := by
        rw [List.mem_cons, not_or]
        exact ⟨by decide, Nat.underscore_not_in_toDigits⟩
      rw [fileName_flush_toList, dropPrefix?_flush]
      dsimp only
      rw [List.head?_cons, if_pos rfl, ← List.cons_append,
        takeWhile_append_separator free, ← List.singleton_append,
        dropPrefix?_append]
      exact readLevel fits.1
  | compaction level timestamp uniq =>
      have same : "sstable_l".toList = compactionPrefix := rfl
      rw [fileName_compaction_toList, same, dropPrefix?_append]
      dsimp only
      rw [takeWhile_append_separator Nat.underscore_not_in_toDigits]
      exact readLevel fits

/-- So is the number of a flush; an output of a compaction has none. -/
theorem parseSstableFlushSequenceFromFilename_fileName
    {name : SstableName} (fits : name.Fits) :
    parseSstableFlushSequenceFromFilename name.fileName =
      name.flushSequence := by
  rw [parseSstableFlushSequenceFromFilename, flushSequenceInName]
  cases name with
  | flush level sequence =>
      have plain : ¬ (¬ sstExtension <:+
          (SstableName.flush level sequence).fileName.toList ∨
          ¬ (SstableName.flush level sequence).fileName.toList.head? =
            some 'L') := by
        rw [not_or, not_not, not_not]
        refine ⟨sstExtension_fileName _, ?_⟩
        rw [fileName_flush_toList]
        rfl
      have number : fromStrRadix 16 u64Limit
          (List.replicate (16 - (Nat.toDigits 16 sequence).length) '0' ++
            Nat.toDigits 16 sequence) = some sequence :=
        fromStrRadix_zeros_toDigits (by decide) (by decide) fits.2 _
      rw [if_neg plain, fileName_flush_toList, ← List.singleton_append,
        dropPrefix?_append, Option.bind_eq_bind, Option.bind_some,
        splitOnce_append Nat.underscore_not_in_toDigits,
        Option.bind_eq_bind, Option.bind_some]
      dsimp only
      rw [dropSuffix?_append]
      exact number
  | compaction level timestamp uniq =>
      rw [if_pos]
      · rfl
      · refine Or.inr ?_
        rw [fileName_compaction_toList]
        exact fun same => absurd (Option.some.inj same) (by decide)

end F4kvsLsm
