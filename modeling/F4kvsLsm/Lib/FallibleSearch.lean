import Mathlib.Data.List.Forall2
import F4kvsLsm.Lib.PartitionPoint

/-!
# Binary search with a predicate that may fail

The search evaluates the predicate on the items that it touches and fails with
the first failure.  Over items on which the predicate never fails it is the
search of `partitionPoint`.
-/

namespace BinarySearch

universe u v w

variable {ε : Type u} {α : Type v} {β : Type w}

section

variable (predicate : α → Except ε Bool)

/-- Whether the element at `index` satisfies the predicate. -/
def tryHoldsAt (items : List α) (index : Nat) : Except ε Bool :=
  match items[index]? with
  | some item => predicate item
  | none => .ok false

/-- `narrow` with a predicate that may fail. -/
def tryNarrow (items : List α) : Nat → Nat → Nat → Except ε Nat
  | 0, base, _ => .ok base
  | fuel + 1, base, size =>
      if size ≤ 1 then .ok base
      else
        let half := size / 2
        let middle := base + half
        match tryHoldsAt predicate items middle with
        | .ok holds =>
            tryNarrow items fuel (if holds then middle else base)
              (size - half)
        | .error failure => .error failure

def tryPartitionPoint (items : List α) : Except ε Nat :=
  if items.isEmpty then .ok 0
  else
    match tryNarrow predicate items items.length 0 items.length with
    | .ok base =>
        match tryHoldsAt predicate items base with
        | .ok holds => .ok (if holds then base + 1 else base)
        | .error failure => .error failure
    | .error failure => .error failure

end

variable {predicate : α → Except ε Bool} {decided : β → Bool}

/-- The predicate never fails and decides like another one on other items. -/
abbrev Decides (predicate : α → Except ε Bool) (decided : β → Bool) :
    List α → List β → Prop :=
  List.Forall₂ fun item item' => predicate item = .ok (decided item')

theorem Decides.tryHoldsAt_eq
    {items : List α} {items' : List β}
    (decides : Decides predicate decided items items') (index : Nat) :
    tryHoldsAt predicate items index = .ok (holdsAt decided items' index) := by
  induction decides generalizing index with
  | nil => simp [tryHoldsAt, holdsAt]
  | cons here _ inductionHypothesis =>
      cases index with
      | zero => simpa [tryHoldsAt, holdsAt] using here
      | succ index => simpa [tryHoldsAt, holdsAt] using
          inductionHypothesis index

private theorem Decides.tryNarrow_eq
    {items : List α} {items' : List β}
    (decides : Decides predicate decided items items') (fuel base size : Nat) :
    tryNarrow predicate items fuel base size =
      .ok (narrow decided items' fuel base size) := by
  induction fuel generalizing base size with
  | zero => rfl
  | succ fuel inductionHypothesis =>
      rw [tryNarrow, narrow]
      by_cases single : size ≤ 1
      · rw [if_pos single, if_pos single]
      · rw [if_neg single, if_neg single]
        simp only [decides.tryHoldsAt_eq]
        exact inductionHypothesis _ _

theorem Decides.tryPartitionPoint_eq
    {items : List α} {items' : List β}
    (decides : Decides predicate decided items items') :
    tryPartitionPoint predicate items =
      .ok (partitionPoint decided items') := by
  have sameLength : items.length = items'.length :=
    List.Forall₂.length_eq decides
  rw [tryPartitionPoint, partitionPoint]
  by_cases empty : items = []
  · have empty' : items' = [] := by
      rw [← List.length_eq_zero_iff, ← sameLength, empty]
      rfl
    simp [empty, empty']
  · have nonempty' : items' ≠ [] := by
      rw [← List.length_pos_iff, ← sameLength, List.length_pos_iff]
      exact empty
    rw [if_neg (by simpa using empty), if_neg (by simpa using nonempty'),
      decides.tryNarrow_eq, sameLength]
    simp only [decides.tryHoldsAt_eq]

end BinarySearch
