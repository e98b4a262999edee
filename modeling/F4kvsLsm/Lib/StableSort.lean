import Mathlib.Data.List.Sort
import F4kvsLsm.Lib.Newest

/-!
# Stable sorting by a stamp

Sorting by a stamp keeps the order of equal stamps, so it commutes with
selecting some of the elements, and its last element is the newest one.
-/

namespace Versions

universe u

variable {α : Type u} (stamp : α → Nat)

/-- Sort by the stamp; elements with equal stamps keep their order. -/
def sortByStamp (versions : List α) : List α :=
  versions.insertionSort (fun first second => stamp first ≤ stamp second)

/-- Stamps that do not decrease. -/
def Nondecreasing (versions : List α) : Prop :=
  versions.Pairwise (fun first second => stamp first ≤ stamp second)

theorem sortByStamp_nondecreasing (versions : List α) :
    Nondecreasing stamp (sortByStamp stamp versions) := by
  have total : Std.Total (fun first second : α => stamp first ≤ stamp second) :=
    ⟨fun first second => Nat.le_total _ _⟩
  have trans : IsTrans α (fun first second => stamp first ≤ stamp second) :=
    ⟨fun _ _ _ => Nat.le_trans⟩
  exact List.pairwise_insertionSort _ versions

variable {stamp}

theorem sortByStamp_eq_self
    {versions : List α} (sorted : Nondecreasing stamp versions) :
    sortByStamp stamp versions = versions :=
  List.Pairwise.insertionSort_eq sorted

@[simp]
theorem mem_sortByStamp {versions : List α} {version : α} :
    version ∈ sortByStamp stamp versions ↔ version ∈ versions :=
  List.mem_insertionSort _

private theorem orderedInsert_of_forall_le
    {version : α} {versions : List α}
    (least : ∀ other ∈ versions, stamp version ≤ stamp other) :
    versions.orderedInsert
      (fun first second => stamp first ≤ stamp second) version =
        version :: versions := by
  cases versions with
  | nil => rfl
  | cons first rest =>
      rw [List.orderedInsert_cons, if_pos (least first (by simp))]

private theorem filter_orderedInsert
    (selected : α → Bool) (version : α) {versions : List α}
    (sorted : Nondecreasing stamp versions) :
    (versions.orderedInsert
      (fun first second => stamp first ≤ stamp second) version).filter
        selected =
      if selected version then
        (versions.filter selected).orderedInsert
          (fun first second => stamp first ≤ stamp second) version
      else versions.filter selected := by
  induction versions with
  | nil => cases chosen : selected version <;> simp [chosen]
  | cons first rest inductionHypothesis =>
      obtain ⟨firstLeast, restSorted⟩ := List.pairwise_cons.mp sorted
      rw [List.orderedInsert_cons]
      by_cases before : stamp version ≤ stamp first
      · rw [if_pos before, List.filter_cons]
        have least : ∀ other ∈ (first :: rest).filter selected,
            stamp version ≤ stamp other := by
          intro other member
          rcases List.mem_cons.mp (List.mem_of_mem_filter member) with
            here | behind
          · rw [here]
            exact before
          · exact before.trans (firstLeast other behind)
        rw [orderedInsert_of_forall_le least]
      · rw [if_neg before, List.filter_cons, inductionHypothesis restSorted]
        cases chosen : selected version <;>
          cases chosenFirst : selected first <;>
            simp [chosenFirst, before]

/-- Sorting and selecting may be done in either order. -/
theorem filter_sortByStamp (selected : α → Bool) (versions : List α) :
    (sortByStamp stamp versions).filter selected =
      sortByStamp stamp (versions.filter selected) := by
  induction versions with
  | nil => rfl
  | cons first rest inductionHypothesis =>
      have inserted := filter_orderedInsert selected first
        (sortByStamp_nondecreasing stamp rest)
      rw [inductionHypothesis] at inserted
      rw [sortByStamp, List.insertionSort_cons, List.filter_cons]
      refine inserted.trans ?_
      cases selected first <;> rfl

/-- Elements with equal stamps keep their order. -/
theorem filter_stamp_sortByStamp (versions : List α) (value : Nat) :
    (sortByStamp stamp versions).filter (fun version => stamp version = value) =
      versions.filter (fun version => stamp version = value) := by
  rw [filter_sortByStamp]
  apply sortByStamp_eq_self
  apply List.pairwise_of_forall_mem_list
  intro first inFirst second inSecond
  have here := List.of_mem_filter inFirst
  have there := List.of_mem_filter inSecond
  simp only [decide_eq_true_eq] at here there
  omega

theorem Nondecreasing.head_le
    {first version : α} {rest : List α}
    (sorted : Nondecreasing stamp (first :: rest))
    (member : version ∈ first :: rest) : stamp first ≤ stamp version := by
  rcases List.mem_cons.mp member with rfl | behind
  · exact Nat.le_refl _
  · exact List.rel_of_pairwise_cons sorted behind

theorem eq_of_filter_stamp_eq
    {versions versions' : List α} (sorted : Nondecreasing stamp versions)
    (sorted' : Nondecreasing stamp versions')
    (same : ∀ value,
      versions.filter (fun version => stamp version = value) =
        versions'.filter (fun version => stamp version = value)) :
    versions = versions' := by
  have members : ∀ version, version ∈ versions ↔ version ∈ versions' := by
    intro version
    have here := congrArg (version ∈ ·) (same (stamp version))
    simpa using here
  induction versions generalizing versions' with
  | nil =>
      refine (List.eq_nil_iff_forall_not_mem.mpr fun version member => ?_).symm
      exact absurd ((members version).mpr member) List.not_mem_nil
  | cons first rest inductionHypothesis =>
      cases versions' with
      | nil => exact absurd ((members first).mp List.mem_cons_self) (by simp)
      | cons first' rest' =>
          have stamps : stamp first' = stamp first := Nat.le_antisymm
            (sorted'.head_le ((members first).mp List.mem_cons_self))
            (sorted.head_le ((members first').mpr List.mem_cons_self))
          have heads := same (stamp first)
          rw [List.filter_cons_of_pos (by simp),
            List.filter_cons_of_pos (by simp [stamps])] at heads
          obtain ⟨rfl, -⟩ := List.cons.inj heads
          have tails : ∀ value,
              rest.filter (fun version => stamp version = value) =
                rest'.filter (fun version => stamp version = value) := by
            intro value
            have whole := same value
            rw [List.filter_cons, List.filter_cons] at whole
            split at whole
            · exact (List.cons.inj whole).2
            · exact whole
          rw [inductionHypothesis (List.Pairwise.of_cons sorted)
            (List.Pairwise.of_cons sorted') tails]
          intro version
          have here := congrArg (version ∈ ·) (tails (stamp version))
          simpa using here

/-- Sorting gives the same list exactly when each stamp has the same elements
in the same order. -/
theorem sortByStamp_eq_iff (versions versions' : List α) :
    sortByStamp stamp versions = sortByStamp stamp versions' ↔
      ∀ value,
        versions.filter (fun version => stamp version = value) =
          versions'.filter (fun version => stamp version = value) := by
  constructor
  · intro same value
    rw [← filter_stamp_sortByStamp, ← filter_stamp_sortByStamp versions',
      same]
  · intro same
    refine eq_of_filter_stamp_eq (sortByStamp_nondecreasing stamp _)
      (sortByStamp_nondecreasing stamp _) fun value => ?_
    rw [filter_stamp_sortByStamp, filter_stamp_sortByStamp]
    exact same value

theorem newest_cons (first : α) (rest : List α) :
    newest stamp (first :: rest) =
      match newest stamp rest with
      | none => some first
      | some best =>
          if stamp first ≤ stamp best then some best else some first := by
  induction rest using List.reverseRecOn with
  | nil => rfl
  | append_singleton rest last inductionHypothesis =>
      rw [← List.cons_append, newest_append_singleton,
        newest_append_singleton, inductionHypothesis]
      cases newest stamp rest with
      | none => rfl
      | some best =>
          by_cases kept : stamp first ≤ stamp best
          · by_cases replaced : stamp best ≤ stamp last
            · have through := Nat.le_trans kept replaced
              simp [keepNewer, kept, replaced, through]
            · simp [keepNewer, kept, replaced]
          · by_cases replaced : stamp best ≤ stamp last
            · simp [keepNewer, kept, replaced]
            · have below : ¬ stamp first ≤ stamp last := by omega
              simp [keepNewer, kept, replaced, below]

private theorem getLast?_orderedInsert
    (version : α) {versions : List α}
    (sorted : Nondecreasing stamp versions) :
    (versions.orderedInsert
      (fun first second => stamp first ≤ stamp second) version).getLast? =
      match versions.getLast? with
      | none => some version
      | some best =>
          if stamp version ≤ stamp best then some best
          else some version := by
  induction versions with
  | nil => rfl
  | cons first rest inductionHypothesis =>
      obtain ⟨least, restSorted⟩ := List.pairwise_cons.mp sorted
      rw [List.orderedInsert_cons]
      by_cases before : stamp version ≤ stamp first
      · rw [if_pos before, List.getLast?_cons_cons]
        cases last : (first :: rest).getLast? with
        | none => simp at last
        | some best =>
            have above : stamp first ≤ stamp best := by
              rcases List.mem_cons.mp (List.mem_of_getLast? last) with
                here | behind
              · rw [here]
              · exact least best behind
            simp [Nat.le_trans before above]
      · rw [if_neg before, List.getLast?_cons,
          inductionHypothesis restSorted, List.getLast?_cons]
        cases rest.getLast? with
        | none => simp [before]
        | some best =>
            by_cases kept : stamp version ≤ stamp best
            · simp [kept]
            · simp [kept]

theorem getLast?_sortByStamp (versions : List α) :
    (sortByStamp stamp versions).getLast? = newest stamp versions := by
  induction versions with
  | nil => rfl
  | cons first rest inductionHypothesis =>
      have inserted := getLast?_orderedInsert first
        (sortByStamp_nondecreasing stamp rest)
      rw [inductionHypothesis] at inserted
      rw [newest_cons, sortByStamp, List.insertionSort_cons]
      exact inserted

end Versions
