import Mathlib.Order.Lattice
import F4kvsLsm.Lib.PartitionPoint

/-!
# Searching disjoint intervals

Items stand for closed intervals of keys.  When no two of them share a key,
sorting by the upper bounds sorts the lower bounds as well, so the partition
point of the upper bounds is the only item that can cover a key.
-/

namespace Intervals

open BinarySearch

universe u v

variable {α : Type u} {κ : Type v} [LinearOrder κ] (low high : α → κ)

/-- The key lies in the interval of the item. -/
def Covers (item : α) (key : κ) : Prop :=
  low item ≤ key ∧ key ≤ high item

/-- No key lies in both intervals. -/
def Apart (first second : α) : Prop :=
  ∀ key, Covers low high first key → ¬ Covers low high second key

variable {low high}

theorem Apart.symm
    {first second : α} (apart : Apart low high first second) :
    Apart low high second first :=
  fun key covers covers' => apart key covers' covers

theorem apart_of_high_lt_low
    {first second : α} (before : high first < low second) :
    Apart low high first second :=
  fun _ covers covers' => absurd (covers'.1.trans covers.2) before.not_ge

/-- Of two intervals without a common key the one that ends first ends before
the other begins. -/
theorem Apart.high_lt_low
    {first second : α} (apart : Apart low high first second)
    (proper : low first ≤ high first) (order : high first ≤ high second) :
    high first < low second := by
  by_contra overlap
  rw [not_lt] at overlap
  exact apart (high first) ⟨proper, le_refl _⟩ ⟨overlap, order⟩

theorem high_lt_low_of_sorted
    {items : List α} (proper : ∀ item ∈ items, low item ≤ high item)
    (apart : items.Pairwise (Apart low high))
    (sorted : items.Pairwise fun first second => high first ≤ high second) :
    items.Pairwise fun first second => high first < low second := by
  refine (apart.and sorted).imp_of_mem ?_
  intro first second firstMember _ both
  exact both.1.high_lt_low (proper first firstMember) both.2

theorem partitionPoint_eq_of_covers
    {items : List α} {key : κ}
    (ordered : items.Pairwise fun first second => high first < low second)
    (sorted : items.Pairwise fun first second => high first ≤ high second)
    {index : Nat} (bound : index < items.length)
    (covers : Covers low high items[index] key) :
    partitionPoint (fun item => decide (high item < key)) items = index := by
  rw [List.pairwise_iff_getElem] at ordered sorted
  have partitioned : Partitioned (fun item => decide (high item < key))
      (items.take index) (items.drop index) := by
    constructor
    · intro item member
      obtain ⟨before, inFront, rfl⟩ := List.mem_take_iff_getElem.mp member
      have less := ordered before index (by omega) bound (by omega)
      exact decide_eq_true (less.trans_le covers.1)
    · intro item member
      obtain ⟨behind, inBack, rfl⟩ := List.mem_drop_iff_getElem.mp member
      rw [decide_eq_false_iff_not, not_lt]
      by_cases here : behind = 0
      · subst here
        exact covers.2
      · have above := sorted index (index + behind) bound (by omega) (by omega)
        exact covers.2.trans above
  have point := partitionPoint_eq partitioned
  rw [List.take_append_drop, List.length_take] at point
  omega

end Intervals
