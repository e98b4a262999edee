import Mathlib.Data.List.Basic

/-!
# Binary search for a partition point

`partitionPoint` halves a window of a list until one element is left.  On a
list whose front satisfies a predicate and whose back does not, it returns the
length of the front.
-/

namespace BinarySearch

universe u

variable {α : Type u} (predicate : α → Bool)

/-- Whether the element at `index` satisfies the predicate. -/
def holdsAt (items : List α) (index : Nat) : Bool :=
  (items[index]?).any predicate

/-- Narrow the window of `size` elements from `base`; every round uses one
unit of fuel. -/
def narrow (items : List α) : Nat → Nat → Nat → Nat
  | 0, base, _ => base
  | fuel + 1, base, size =>
      if size ≤ 1 then base
      else
        let half := size / 2
        let middle := base + half
        narrow items fuel
          (if holdsAt predicate items middle then middle else base)
          (size - half)

def partitionPoint (items : List α) : Nat :=
  if items.isEmpty then 0
  else
    let base := narrow predicate items items.length 0 items.length
    if holdsAt predicate items base then base + 1 else base

/-- The front satisfies the predicate and the back does not. -/
structure Partitioned (front back : List α) : Prop where
  front : ∀ item ∈ front, predicate item = true
  back : ∀ item ∈ back, predicate item = false

variable {predicate}

theorem Partitioned.holdsAt_iff
    {front back : List α} (partitioned : Partitioned predicate front back)
    (index : Nat) :
    holdsAt predicate (front ++ back) index = true ↔
      index < front.length := by
  rw [holdsAt, List.getElem?_append]
  by_cases inFront : index < front.length
  · rw [if_pos inFront, List.getElem?_eq_getElem inFront, Option.any_some]
    simp only [inFront, iff_true]
    exact partitioned.front _ (List.getElem_mem inFront)
  · rw [if_neg inFront]
    simp only [inFront, iff_false, Bool.not_eq_true]
    cases found : back[index - front.length]? with
    | none => rfl
    | some item =>
        exact partitioned.back item (List.mem_of_getElem? found)

/-- The window always contains the last element of the front. -/
private theorem narrow_spec
    {front back : List α} (partitioned : Partitioned predicate front back)
    {fuel base size : Nat} (enough : size ≤ fuel) (nonempty : 0 < size)
    (below : base = 0 ∨ base < front.length)
    (above : front.length ≤ base + size) :
    let base' := narrow predicate (front ++ back) fuel base size
    (base' = 0 ∨ base' < front.length) ∧ front.length ≤ base' + 1 := by
  induction fuel generalizing base size with
  | zero => omega
  | succ fuel inductionHypothesis =>
      simp only [narrow]
      by_cases single : size ≤ 1
      · rw [if_pos single]
        exact ⟨below, by omega⟩
      · rw [if_neg single]
        by_cases inFront : base + size / 2 < front.length
        · rw [if_pos ((partitioned.holdsAt_iff _).mpr inFront)]
          exact inductionHypothesis (by omega) (by omega) (by omega)
            (by omega)
        · rw [if_neg (by rwa [partitioned.holdsAt_iff])]
          exact inductionHypothesis (by omega) (by omega) below (by omega)

theorem partitionPoint_eq
    {front back : List α} (partitioned : Partitioned predicate front back) :
    partitionPoint predicate (front ++ back) = front.length := by
  rw [partitionPoint]
  by_cases empty : (front ++ back).isEmpty
  · rw [if_pos empty]
    rw [List.isEmpty_iff, List.append_eq_nil_iff] at empty
    simp [empty.1]
  · rw [if_neg empty]
    have nonempty : 0 < (front ++ back).length := by
      rw [List.isEmpty_iff] at empty
      exact List.length_pos_iff.mpr empty
    have window := narrow_spec partitioned (Nat.le_refl _) nonempty (Or.inl rfl)
      (by simp)
    obtain ⟨below, above⟩ := window
    simp only
    by_cases inFront :
        narrow predicate (front ++ back) (front ++ back).length 0
          (front ++ back).length < front.length
    · rw [if_pos ((partitioned.holdsAt_iff _).mpr inFront)]
      omega
    · rw [if_neg (by rwa [partitioned.holdsAt_iff])]
      omega

end BinarySearch
