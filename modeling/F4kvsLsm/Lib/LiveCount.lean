import Mathlib.Data.Set.Card
import Mathlib.Logic.Function.Basic

/-!
# Counting the keys that have a value

A counter of the keys that a partial map holds stays right when it is moved,
at every update of one key, by whether the key has a value afterwards less
whether it had one before.
-/

namespace LiveCount

universe u v

variable {κ : Type u} {β : Type v}

def live (value : κ → Option β) : Set κ := {key | (value key).isSome = true}

/-- How much a key adds to the count. -/
def present (found : Option β) : Int := if found.isSome then 1 else 0

/-- The number of keys with a value. -/
structure Counts (value : κ → Option β) (count : Int) : Prop where
  finite : (live value).Finite
  count_eq : count = ((live value).ncard : Int)

variable {value value' : κ → Option β} {count : Int}

theorem Counts.nothing : Counts (fun _ : κ => (none : Option β)) 0 := by
  have empty : live (fun _ : κ => (none : Option β)) = ∅ := by
    ext key
    simp [live]
  constructor
  · rw [empty]
    exact Set.finite_empty
  · rw [empty, Set.ncard_empty]
    rfl

theorem Counts.congr (counts : Counts value count)
    (same : ∀ key, value' key = value key) : Counts value' count := by
  have equal : value' = value := funext same
  rw [equal]
  exact counts

theorem live_update_some [DecidableEq κ] (value : κ → Option β) (key : κ)
    (shown : β) :
    live (Function.update value key (some shown)) =
      insert key (live value) := by
  ext other
  by_cases same : other = key
  · simp [live, same]
  · simp [live, same]

theorem live_update_none [DecidableEq κ] (value : κ → Option β) (key : κ) :
    live (Function.update value key none) = live value \ {key} := by
  ext other
  by_cases same : other = key
  · simp [live, same]
  · simp [live, same]

/-- One update moves the count by what the key adds afterwards less what it
added before. -/
theorem Counts.update [DecidableEq κ] (counts : Counts value count)
    (key : κ) (found : Option β) :
    Counts (Function.update value key found)
      (count + present found - present (value key)) := by
  have finite := counts.finite
  cases found with
  | some shown =>
      constructor
      · rw [live_update_some]
        exact finite.insert key
      · rw [live_update_some, counts.count_eq]
        by_cases member : key ∈ live value
        · have held : (value key).isSome = true := member
          rw [Set.insert_eq_of_mem member]
          simp [present, held]
        · have missing : (value key).isSome = false :=
            Bool.eq_false_iff.mpr member
          rw [Set.ncard_insert_of_notMem member finite]
          simp [present, missing]
  | none =>
      constructor
      · rw [live_update_none]
        exact finite.sdiff
      · rw [live_update_none, counts.count_eq]
        by_cases member : key ∈ live value
        · have held : (value key).isSome = true := member
          have size := Set.ncard_sdiff_singleton_add_one member finite
          simp only [present, held, Option.isSome_none, Bool.false_eq_true,
            if_false, if_true, add_zero]
          omega
        · have missing : (value key).isSome = false :=
            Bool.eq_false_iff.mpr member
          rw [Set.sdiff_singleton_eq_self member]
          simp [present, missing]

end LiveCount
