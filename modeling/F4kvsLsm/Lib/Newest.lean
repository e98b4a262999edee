import Mathlib.Data.List.Induction

/-!
# The newest of several versions

A fold that keeps a version until one with an equal or a later stamp comes.
The result is a version with the latest stamp, and when the stamps are
distinct it does not depend on the order in which the versions are met.
-/

namespace Versions

universe u

variable {α : Type u} (stamp : α → Nat)

/-- One step of the fold. -/
def keepNewer (best : Option α) (version : α) : Option α :=
  match best with
  | none => some version
  | some kept => if stamp kept ≤ stamp version then some version else best

def newest (versions : List α) : Option α :=
  versions.foldl (keepNewer stamp) none

/-- No two different versions have one stamp. -/
def Distinct (versions : List α) : Prop :=
  ∀ first ∈ versions, ∀ second ∈ versions,
    stamp first = stamp second → first = second

variable {stamp}

@[simp]
theorem newest_nil : newest stamp ([] : List α) = none := rfl

theorem newest_append_singleton (versions : List α) (version : α) :
    newest stamp (versions ++ [version]) =
      keepNewer stamp (newest stamp versions) version := by
  rw [newest, List.foldl_append]
  rfl

theorem newest_eq_none_iff {versions : List α} :
    newest stamp versions = none ↔ versions = [] := by
  constructor
  · intro missing
    induction versions using List.reverseRecOn with
    | nil => rfl
    | append_singleton versions last _ =>
        rw [newest_append_singleton] at missing
        cases before : newest stamp versions with
        | none => simp [before, keepNewer] at missing
        | some kept =>
            simp only [before, keepNewer] at missing
            split at missing <;> exact absurd missing (by simp)
  · rintro rfl
    rfl

theorem newest_spec
    {versions : List α} {version : α}
    (found : newest stamp versions = some version) :
    version ∈ versions ∧ ∀ other ∈ versions, stamp other ≤ stamp version := by
  induction versions using List.reverseRecOn generalizing version with
  | nil => exact absurd found (by simp)
  | append_singleton versions last inductionHypothesis =>
      rw [newest_append_singleton] at found
      cases before : newest stamp versions with
      | none =>
          rw [before, keepNewer, Option.some.injEq] at found
          subst found
          rw [newest_eq_none_iff] at before
          subst before
          simp
      | some kept =>
          obtain ⟨keptMember, keptNewest⟩ := inductionHypothesis before
          rw [before, keepNewer] at found
          split at found
          · case isTrue later =>
              rw [Option.some.injEq] at found
              subst found
              refine ⟨by simp, ?_⟩
              intro other member
              rcases List.mem_append.mp member with old | new
              · exact Nat.le_trans (keptNewest other old) later
              · exact Nat.le_of_eq (congrArg stamp (List.mem_singleton.mp new))
          · case isFalse earlier =>
              rw [Option.some.injEq] at found
              subst found
              refine ⟨by simp [keptMember], ?_⟩
              intro other member
              rcases List.mem_append.mp member with old | new
              · exact keptNewest other old
              · rw [List.mem_singleton.mp new]
                omega

/-- With distinct stamps the newest version is the one that no other is
newer than. -/
theorem newest_eq_some_iff
    {versions : List α} (distinct : Distinct stamp versions) {version : α} :
    newest stamp versions = some version ↔
      version ∈ versions ∧
        ∀ other ∈ versions, stamp other ≤ stamp version := by
  constructor
  · exact newest_spec
  · rintro ⟨member, latest⟩
    cases found : newest stamp versions with
    | none =>
        rw [newest_eq_none_iff] at found
        subst found
        exact absurd member (by simp)
    | some best =>
        obtain ⟨bestMember, bestLatest⟩ := newest_spec found
        have sameStamp : stamp best = stamp version :=
          Nat.le_antisymm (latest best bestMember) (bestLatest version member)
        rw [distinct best bestMember version member sameStamp]

theorem Distinct.mono
    {versions part : List α} (distinct : Distinct stamp versions)
    (subset : ∀ version ∈ part, version ∈ versions) : Distinct stamp part :=
  fun first firstMember second secondMember =>
    distinct first (subset first firstMember) second
      (subset second secondMember)

/-- The order of the versions does not matter, nor does their number. -/
theorem newest_congr
    {versions versions' : List α} (distinct : Distinct stamp versions)
    (same : ∀ version, version ∈ versions' ↔ version ∈ versions) :
    newest stamp versions' = newest stamp versions := by
  have distinct' : Distinct stamp versions' :=
    distinct.mono fun version => (same version).mp
  cases found : newest stamp versions with
  | none =>
      rw [newest_eq_none_iff] at found ⊢
      subst found
      exact List.eq_nil_iff_forall_not_mem.mpr
        fun version member => absurd ((same version).mp member) (by simp)
  | some version =>
      rw [newest_eq_some_iff distinct] at found
      rw [newest_eq_some_iff distinct', same]
      exact ⟨found.1, fun other member =>
        found.2 other ((same other).mp member)⟩

theorem newest_map {β : Type u} (image : β → α) (versions : List β) :
    newest stamp (versions.map image) =
      (newest (stamp ∘ image) versions).map image := by
  induction versions using List.reverseRecOn with
  | nil => rfl
  | append_singleton versions last inductionHypothesis =>
      rw [List.map_append, List.map_singleton, newest_append_singleton,
        newest_append_singleton, inductionHypothesis]
      cases newest (stamp ∘ image) versions with
      | none => rfl
      | some kept =>
          simp only [keepNewer, Option.map_some, Function.comp_apply]
          split <;> rfl

end Versions
