import Mathlib.Data.List.Basic
import Mathlib.Data.Nat.Basic

/-!
# Numbers in texts

The digits of a number determine it, in any base up to sixteen.  A text that
is put together from parts with a separator between them determines the part
before the first separator, as long as the separator does not occur in it.
-/

namespace Digits

universe u

variable {α : Type u}

/-- Sixteen digits have sixteen characters. -/
theorem digitChar_inj
    {first second : Nat} (small : first < 16)
    (same : first.digitChar = second.digitChar) : first = second := by
  by_cases small' : second < 16
  · have all : ∀ first < 16, ∀ second < 16,
        Nat.digitChar first = Nat.digitChar second → first = second := by
      decide
    exact all first small second small' same
  · rw [Nat.digitChar_eq_star.mpr (Nat.le_of_not_lt small'),
      Nat.digitChar_eq_star] at same
    exact absurd small (Nat.not_lt_of_ge same)

theorem toDigits_length_of_base_le
    {base number : Nat} (base_gt : 1 < base) (large : base ≤ number) :
    1 < (Nat.toDigits base number).length := by
  rw [Nat.toDigits_of_base_le base_gt large, List.length_append,
    List.length_singleton]
  exact Nat.succ_lt_succ Nat.length_toDigits_pos

/-- By recursion on the number: the last digit is what is left of a division
by the base, the digits before it are those of the quotient. -/
theorem toDigits_inj
    {base : Nat} (base_gt : 1 < base) (base_le : base ≤ 16)
    {first second : Nat}
    (same : Nat.toDigits base first = Nat.toDigits base second) :
    first = second := by
  induction first using Nat.strongRecOn generalizing second with
  | ind first inductionHypothesis =>
      have lengths := congrArg List.length same
      by_cases short : first < base
      · by_cases short' : second < base
        · rw [Nat.toDigits_of_lt_base short, Nat.toDigits_of_lt_base short',
            List.cons.injEq] at same
          exact digitChar_inj (Nat.lt_of_lt_of_le short base_le) same.1
        · have longer := toDigits_length_of_base_le base_gt
            (Nat.le_of_not_lt short')
          rw [← lengths, Nat.toDigits_of_lt_base short] at longer
          exact absurd longer (Nat.lt_irrefl 1)
      · by_cases short' : second < base
        · have longer := toDigits_length_of_base_le base_gt
            (Nat.le_of_not_lt short)
          rw [lengths, Nat.toDigits_of_lt_base short'] at longer
          exact absurd longer (Nat.lt_irrefl 1)
        · have large := Nat.le_of_not_lt short
          rw [Nat.toDigits_of_base_le base_gt large,
            Nat.toDigits_of_base_le base_gt (Nat.le_of_not_lt short')] at same
          obtain ⟨front, last⟩ := List.append_inj' same rfl
          rw [List.cons.injEq] at last
          have positive : 0 < base := Nat.zero_lt_of_lt base_gt
          have quotients := inductionHypothesis (first / base)
            (Nat.div_lt_self (Nat.lt_of_lt_of_le positive large) base_gt)
            front
          have remainders := digitChar_inj (Nat.lt_of_lt_of_le
            (Nat.mod_lt first positive) base_le) last.1
          rw [← Nat.div_add_mod first base, ← Nat.div_add_mod second base,
            quotients, remainders]

/-- What stands before the first separator, and what comes after it. -/
theorem append_separator_inj
    {separator : α} {first second rest rest' : List α}
    (free : separator ∉ first) (free' : separator ∉ second)
    (same : first ++ separator :: rest = second ++ separator :: rest') :
    first = second ∧ rest = rest' := by
  induction first generalizing second with
  | nil =>
      cases second with
      | nil => exact ⟨rfl, (List.cons.inj same).2⟩
      | cons head tail =>
          obtain ⟨rfl, -⟩ := List.cons.inj same
          exact absurd List.mem_cons_self free'
  | cons head tail inductionHypothesis =>
      cases second with
      | nil =>
          obtain ⟨rfl, -⟩ := List.cons.inj same
          exact absurd List.mem_cons_self free
      | cons head' tail' =>
          obtain ⟨rfl, tails⟩ := List.cons.inj same
          obtain ⟨rfl, rests⟩ := inductionHypothesis
            (fun member => free (List.mem_cons_of_mem _ member))
            (fun member => free' (List.mem_cons_of_mem _ member)) tails
          exact ⟨rfl, rests⟩

end Digits
