import Mathlib.Algebra.BigOperators.Group.List.Lemmas
import Mathlib.Algebra.FreeMonoid.Basic

/-!
# Blocks that may be exchanged

Two lists may be exchanged when their concatenation does not depend on their
order: one of them is empty, or both repeat one list.  A sequence of blocks
adds up to the same list in every order exactly when any two of them may be
exchanged.
-/

namespace Exchange

universe u v

variable {ι : Type u} {α : Type v}

def Exchangeable (first second : List α) : Prop :=
  first ++ second = second ++ first

theorem exchangeable_nil_left (block : List α) : Exchangeable [] block :=
  (List.append_nil block).symm

theorem exchangeable_nil_right (block : List α) : Exchangeable block [] :=
  (exchangeable_nil_left block).symm

/-- Blocks any two of which may be exchanged. -/
theorem flatMap_eq_of_perm
    {block : ι → List α} {items order : List ι}
    (exchangeable : items.Pairwise fun first second =>
      Exchangeable (block first) (block second))
    (perm : order.Perm items) :
    order.flatMap block = items.flatMap block := by
  have commute : ((items.map block).map FreeMonoid.ofList).Pairwise
      Commute := by
    rw [List.map_map, List.pairwise_map]
    exact exchangeable.imp id
  have products :=
    ((perm.map block).symm.map FreeMonoid.ofList).prod_eq' commute
  rw [← FreeMonoid.ofList_flatten, ← FreeMonoid.ofList_flatten] at products
  rw [List.flatMap_def, List.flatMap_def]
  exact FreeMonoid.ofList.injective products.symm

/-- A block in front of the others, in any order of theirs, adds up to the
same as behind them exactly when it may be exchanged with all of them together
and any two of them with each other. -/
theorem forall_perm_iff
    (own : List α) (block : ι → List α) (items : List ι) :
    (∀ order : List ι, order.Perm items →
        own ++ order.flatMap block = items.flatMap block ++ own) ↔
      items.Pairwise (fun first second =>
        Exchangeable (block first) (block second)) ∧
      Exchangeable own (items.flatMap block) := by
  constructor
  · intro all
    have whole := all items (List.Perm.refl items)
    refine ⟨List.pairwise_iff_forall_sublist.mpr ?_, whole⟩
    intro first second part
    obtain ⟨rest, perm⟩ := part.exists_perm_append
    have there := all _ perm.symm
    have back := all _
      (((List.Perm.swap first second []).append_right rest).trans perm.symm)
    have same := List.append_cancel_left (there.trans back.symm)
    simp only [List.cons_append, List.nil_append, List.flatMap_cons,
      ← List.append_assoc] at same
    exact List.append_cancel_right same
  · rintro ⟨exchangeable, whole⟩ order perm
    rw [flatMap_eq_of_perm exchangeable perm]
    exact whole

end Exchange
