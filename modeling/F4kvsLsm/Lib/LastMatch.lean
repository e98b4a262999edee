import Mathlib.Data.List.Basic

/-!
# The last position that matches

A partial test is tried at the positions below a bound, from the last to the
first, until it gives something.
-/

namespace LastMatch

universe u

variable {α : Type u}

/-- The last position below `bound` where `test` gives something. -/
def lastBelow (test : Nat → Option α) : Nat → Option (Nat × α)
  | 0 => none
  | bound + 1 =>
      match test bound with
      | some found => some (bound, found)
      | none => lastBelow test bound

variable {test : Nat → Option α} {bound position : Nat} {found : α}

theorem lastBelow_eq_none_iff :
    lastBelow test bound = none ↔ ∀ i < bound, test i = none := by
  induction bound with
  | zero => simp [lastBelow]
  | succ bound inductionHypothesis =>
      rw [lastBelow]
      cases here : test bound with
      | some other =>
          refine iff_of_false (by simp) fun nothing => ?_
          have empty := nothing bound (Nat.lt_succ_self bound)
          rw [here] at empty
          cases empty
      | none =>
          dsimp only
          rw [inductionHypothesis]
          constructor
          · intro nothing i below
            rcases Nat.lt_succ_iff_lt_or_eq.mp below with before | last
            · exact nothing i before
            · rw [last, here]
          · intro nothing i below
            exact nothing i (Nat.lt_succ_of_lt below)

/-- The search ends where the test gives something and, behind it, nothing. -/
theorem lastBelow_eq_some_iff :
    lastBelow test bound = some (position, found) ↔
      position < bound ∧ test position = some found ∧
        ∀ i, position < i → i < bound → test i = none := by
  induction bound with
  | zero => simp [lastBelow]
  | succ bound inductionHypothesis =>
      rw [lastBelow]
      cases here : test bound with
      | some other =>
          simp only [Option.some.injEq, Prod.mk.injEq]
          constructor
          · rintro ⟨rfl, rfl⟩
            exact ⟨Nat.lt_succ_self _, here, fun i above below => by omega⟩
          · rintro ⟨below, hit, nothing⟩
            have last : bound = position := by
              by_contra different
              have empty := nothing bound (by omega) (Nat.lt_succ_self bound)
              rw [here] at empty
              cases empty
            subst last
            rw [here, Option.some.injEq] at hit
            exact ⟨rfl, hit⟩
      | none =>
          dsimp only
          rw [inductionHypothesis]
          constructor
          · rintro ⟨below, hit, nothing⟩
            refine ⟨Nat.lt_succ_of_lt below, hit, fun i above under => ?_⟩
            rcases Nat.lt_succ_iff_lt_or_eq.mp under with before | last
            · exact nothing i above before
            · rw [last, here]
          · rintro ⟨below, hit, nothing⟩
            have different : position ≠ bound := by
              rintro rfl
              rw [here] at hit
              cases hit
            exact ⟨by omega, hit,
              fun i above under => nothing i above (Nat.lt_succ_of_lt under)⟩

end LastMatch
