import Mathlib.Data.List.Forall2
import Mathlib.Data.List.Sort
import F4kvsLsm.Lib.FallibleSearch

/-!
# Lists that correspond

Two lists correspond when their items are related one by one.  What only looks
at things that related items have in common does the same to both lists.
-/

namespace Corresponding

universe u v

variable {α : Type u} {β : Type v} {R : α → β → Prop}
  {items : List α} {items' : List β}

/-- What holds of the items of one list is a part of the relation. -/
theorem with_left {P : α → Prop} (all : ∀ item ∈ items, P item)
    (related : List.Forall₂ R items items') :
    List.Forall₂ (fun item item' => P item ∧ R item item') items items' := by
  induction related with
  | nil => exact .nil
  | cons here _ inductionHypothesis =>
      rw [List.forall_mem_cons] at all
      exact .cons ⟨all.1, here⟩ (inductionHypothesis all.2)

theorem exists_right (related : List.Forall₂ R items items') {item : α}
    (member : item ∈ items) : ∃ item' ∈ items', R item item' := by
  induction related with
  | nil => cases member
  | cons here _ inductionHypothesis =>
      rcases List.mem_cons.mp member with rfl | behind
      · exact ⟨_, List.mem_cons_self, here⟩
      · obtain ⟨item', member', there⟩ := inductionHypothesis behind
        exact ⟨item', List.mem_cons_of_mem _ member', there⟩

theorem exists_left (related : List.Forall₂ R items items') {item' : β}
    (member : item' ∈ items') : ∃ item ∈ items, R item item' :=
  exists_right (List.Forall₂.flip related) member

theorem with_members (related : List.Forall₂ R items items') :
    List.Forall₂ (fun item item' =>
      item ∈ items ∧ item' ∈ items' ∧ R item item') items items' := by
  have left := with_left (fun _ member => member) related
  have right := with_left (fun _ member => member) left.flip
  exact right.flip.imp fun _ _ here => ⟨here.2.1, here.1, here.2.2⟩

theorem takeWhile {first : α → Bool} {second : β → Bool}
    (agree : ∀ item item', R item item' → first item = second item')
    (related : List.Forall₂ R items items') :
    List.Forall₂ R (items.takeWhile first) (items'.takeWhile second) := by
  induction related with
  | nil => exact .nil
  | cons here _ inductionHypothesis =>
      rw [List.takeWhile_cons, List.takeWhile_cons, agree _ _ here]
      split
      · exact .cons here inductionHypothesis
      · exact .nil

theorem getElem? (related : List.Forall₂ R items items') (i : Nat) :
    Option.Rel R items[i]? items'[i]? := by
  induction related generalizing i with
  | nil => exact .none
  | cons here _ inductionHypothesis =>
      cases i with
      | zero => exact .some here
      | succ i => exact inductionHypothesis i

theorem orderedInsert {before : α → α → Prop} {before' : β → β → Prop}
    [DecidableRel before] [DecidableRel before'] {item : α} {item' : β}
    (agree : ∀ first first', R first first' → ∀ second second',
      R second second' → (before first second ↔ before' first' second'))
    (here : R item item') (related : List.Forall₂ R items items') :
    List.Forall₂ R (items.orderedInsert before item)
      (items'.orderedInsert before' item') := by
  induction related with
  | nil => exact .cons here .nil
  | @cons first first' rest rest' there others inductionHypothesis =>
      have same := agree _ _ here _ _ there
      rw [List.orderedInsert_cons, List.orderedInsert_cons]
      by_cases early : before item first
      · rw [if_pos early, if_pos (same.mp early)]
        exact .cons here (.cons there others)
      · rw [if_neg early, if_neg fun early' => early (same.mpr early')]
        exact .cons there inductionHypothesis

/-- Sorting keeps the correspondence when the orders agree. -/
theorem insertionSort {before : α → α → Prop} {before' : β → β → Prop}
    [DecidableRel before] [DecidableRel before']
    (agree : ∀ first first', R first first' → ∀ second second',
      R second second' → (before first second ↔ before' first' second'))
    (related : List.Forall₂ R items items') :
    List.Forall₂ R (items.insertionSort before)
      (items'.insertionSort before') := by
  induction related with
  | nil => exact .nil
  | cons here _ inductionHypothesis =>
      rw [List.insertionSort_cons, List.insertionSort_cons]
      exact orderedInsert agree here inductionHypothesis

/-- A search in two lists with the same answers ends at the same place. -/
theorem partitionPoint_eq {first : α → Bool} {second : β → Bool}
    (agree : List.Forall₂ (fun item item' => first item = second item')
      items items') :
    BinarySearch.partitionPoint first items =
      BinarySearch.partitionPoint second items' := by
  let answer (item : α) : Except Unit Bool := .ok (first item)
  have itself := @BinarySearch.Decides.tryPartitionPoint_eq _ _ _ answer first
    items items (List.forall₂_same.mpr fun _ _ => rfl)
  have other := @BinarySearch.Decides.tryPartitionPoint_eq _ _ _ answer second
    items items' (agree.imp fun _ _ same => congrArg Except.ok same)
  rw [itself] at other
  exact Except.ok.inj other

end Corresponding
