import Mathlib.Data.List.Induction

/-!
# The last write of a key

A log of keyed writes stands for the map that sends a key to its last write.
Replaying a log on top of another one is reading their concatenation.
-/

namespace KeyedLog

universe u v

variable {κ : Type u} {ν : Type v} [DecidableEq κ]

/-- The last write of `key`, when there is one. -/
def lastWrite (writes : List (κ × ν)) (key : κ) : Option ν :=
  writes.foldl
    (fun found write => if write.1 = key then some write.2 else found) none

@[simp]
theorem lastWrite_nil (key : κ) :
    lastWrite ([] : List (κ × ν)) key = none := rfl

private theorem foldl_eq
    (writes : List (κ × ν)) (key : κ) (start : Option ν) :
    writes.foldl
      (fun found write => if write.1 = key then some write.2 else found)
      start = (lastWrite writes key).or start := by
  induction writes generalizing start with
  | nil => rfl
  | cons write writes inductionHypothesis =>
      rw [lastWrite, List.foldl_cons, List.foldl_cons, inductionHypothesis,
        inductionHypothesis (if write.1 = key then some write.2 else none)]
      by_cases same : write.1 = key
      · simp [same]
      · simp [same]

theorem lastWrite_append (front back : List (κ × ν)) (key : κ) :
    lastWrite (front ++ back) key =
      (lastWrite back key).or (lastWrite front key) := by
  rw [lastWrite, List.foldl_append, foldl_eq]
  rfl

theorem lastWrite_singleton (write : κ × ν) (key : κ) :
    lastWrite [write] key =
      if write.1 = key then some write.2 else none := rfl

theorem lastWrite_cons (write : κ × ν) (writes : List (κ × ν)) (key : κ) :
    lastWrite (write :: writes) key =
      (lastWrite writes key).or
        (if write.1 = key then some write.2 else none) :=
  lastWrite_append [write] writes key

theorem lastWrite_eq_none_iff {writes : List (κ × ν)} {key : κ} :
    lastWrite writes key = none ↔ ∀ write ∈ writes, write.1 ≠ key := by
  induction writes with
  | nil => simp
  | cons write writes inductionHypothesis =>
      rw [lastWrite_cons, Option.or_eq_none_iff, inductionHypothesis]
      by_cases same : write.1 = key
      · simp [same]
      · simp [same]

/-- The last write stands in the log with no write of the same key behind
it. -/
theorem lastWrite_eq_some_iff
    {writes : List (κ × ν)} {key : κ} {value : ν} :
    lastWrite writes key = some value ↔
      ∃ front back, writes = front ++ (key, value) :: back ∧
        ∀ write ∈ back, write.1 ≠ key := by
  constructor
  · intro found
    induction writes using List.reverseRecOn with
    | nil => exact absurd found (by simp)
    | append_singleton writes write inductionHypothesis =>
        rw [lastWrite_append, lastWrite_singleton] at found
        by_cases same : write.1 = key
        · rw [if_pos same, Option.some_or, Option.some.injEq] at found
          refine ⟨writes, [], ?_, by simp⟩
          rw [← same, ← found]
        · rw [if_neg same, Option.none_or] at found
          obtain ⟨front, back, rfl, others⟩ := inductionHypothesis found
          refine ⟨front, back ++ [write], by simp, ?_⟩
          intro other member
          rcases List.mem_append.mp member with old | new
          · exact others other old
          · rw [List.mem_singleton] at new
            rw [new]
            exact same
  · rintro ⟨front, back, rfl, others⟩
    rw [lastWrite_append, lastWrite_cons,
      lastWrite_eq_none_iff.mpr others, Option.none_or, if_pos rfl,
      Option.some_or]

end KeyedLog
