import Mathlib.Algebra.BigOperators.Finsupp.Basic
import Mathlib.Algebra.Order.BigOperators.Group.Finset
import F4kvsLsm.Lib.LiveCount

/-!
# Counting the keys that have a value, with updates under way

Several parties update a partial map and move the counter later.  What they
still owe a key is apart from what has been counted for it, and the counter is
the sum of what has been counted.  With nothing counted below zero for any key
the counter is not below zero, and with nothing owed it is the number of keys
that have a value.
-/

namespace LiveCount

universe u v

variable {κ : Type u} {β : Type v}

/-- The counter is the sum of what has been counted for each key, which is
whether the key has a value less what is owed to it. -/
def Tallied (value : κ → Option β) (owed : κ → Int) (count : Int) : Prop :=
  ∃ counted : κ →₀ Int,
    (∀ key, counted key = present (value key) - owed key) ∧
    (∀ key, 0 ≤ counted key) ∧ count = counted.sum fun _ amount => amount

variable {value value' : κ → Option β} {owed owed' : κ → Int} {count : Int}

theorem present_nonneg (found : Option β) : 0 ≤ present found := by
  unfold present
  split
  · exact Int.one_nonneg
  · exact le_rfl

theorem Tallied.nonneg (tallied : Tallied value owed count) : 0 ≤ count := by
  rcases tallied with ⟨counted, -, nonneg, total⟩
  rw [total]
  exact Finset.sum_nonneg fun key _ => nonneg key

theorem Tallied.owed_le (tallied : Tallied value owed count) (key : κ) :
    owed key ≤ present (value key) := by
  rcases tallied with ⟨counted, amounts, nonneg, -⟩
  have known := nonneg key
  rw [amounts key] at known
  omega

/-- What a step does not change together. -/
theorem Tallied.congr (tallied : Tallied value owed count)
    (same : ∀ key, present (value' key) - owed' key =
      present (value key) - owed key) : Tallied value' owed' count := by
  rcases tallied with ⟨counted, amounts, nonneg, total⟩
  refine ⟨counted, ?_, nonneg, total⟩
  intro key
  rw [amounts key, same key]

/-- Paying what is owed to a key moves the counter. -/
theorem Tallied.settle [DecidableEq κ] (tallied : Tallied value owed count)
    (key : κ) (amount : Int)
    (enough : owed key - amount ≤ present (value key))
    (paid : ∀ other, owed' other =
      if other = key then owed other - amount else owed other) :
    Tallied value owed' (count + amount) := by
  rcases tallied with ⟨counted, amounts, nonneg, total⟩
  have added : ∀ other, (counted + Finsupp.single key amount) other =
      present (value other) - owed' other := by
    intro other
    rw [Finsupp.add_apply, amounts other, paid other]
    by_cases same : other = key
    · rw [if_pos same, same, Finsupp.single_eq_same]
      omega
    · rw [if_neg same, Finsupp.single_eq_of_ne same]
      omega
  refine ⟨counted + Finsupp.single key amount, added, ?_, ?_⟩
  · intro other
    rw [added other, paid other]
    by_cases same : other = key
    · rw [if_pos same, same]
      omega
    · have before := nonneg other
      rw [amounts other] at before
      rw [if_neg same]
      exact before
  · rw [Finsupp.sum_add_index' (fun _ => rfl) (fun _ _ _ => rfl),
      Finsupp.sum_single_index rfl, total]

theorem sum_present (counted : κ →₀ Int)
    (amounts : ∀ key, counted key = present (value key)) :
    (live value).Finite ∧
      (counted.sum fun _ amount => amount) = ((live value).ncard : Int) := by
  have support : live value = ↑counted.support := by
    ext key
    rw [Finset.mem_coe, Finsupp.mem_support_iff, amounts key]
    cases found : value key with
    | none => simp [live, present, found]
    | some shown => simp [live, present, found]
  have ones : ∀ key ∈ counted.support, counted key = 1 := by
    intro key member
    rw [Finsupp.mem_support_iff, amounts key] at member
    rw [amounts key]
    unfold present at member ⊢
    split at member
    · rename_i held
      rw [if_pos held]
    · exact absurd rfl member
  constructor
  · rw [support]
    exact counted.support.finite_toSet
  · rw [support, Set.ncard_coe_finset, Finsupp.sum,
      Finset.sum_congr rfl ones]
    simp

theorem Tallied.counts (tallied : Tallied value owed count)
    (nothing : ∀ key, owed key = 0) : Counts value count := by
  rcases tallied with ⟨counted, amounts, -, total⟩
  have amounts' : ∀ key, counted key = present (value key) := by
    intro key
    rw [amounts key, nothing key, sub_zero]
  have known := sum_present counted amounts'
  exact ⟨known.1, total.trans known.2⟩

theorem Counts.tallied (counts : Counts value count) :
    Tallied value (fun _ => 0) count := by
  have supported : ∀ key, present (value key) ≠ 0 →
      key ∈ counts.finite.toFinset := by
    intro key amount
    rw [Set.Finite.mem_toFinset]
    unfold present at amount
    split at amount
    · rename_i held
      exact held
    · exact absurd rfl amount
  let counted : κ →₀ Int :=
    Finsupp.onFinset counts.finite.toFinset (fun key => present (value key))
      supported
  have amounts : ∀ key, counted key = present (value key) := fun _ => rfl
  refine ⟨counted, ?_, ?_, ?_⟩
  · intro key
    rw [amounts key, sub_zero]
  · intro key
    rw [amounts key]
    exact present_nonneg _
  · rw [(sum_present counted amounts).2]
    exact counts.count_eq

end LiveCount
