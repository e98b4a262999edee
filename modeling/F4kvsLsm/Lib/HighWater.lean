import Mathlib.Order.Lattice

/-!
# High-water marks

Numbers are handed out in order and end up in files.  After a crash the next
number is found again from a mark that may be behind and from what the names
of the files promise about their numbers.  That is enough as long as each file
is behind the mark or keeps within the promise of its name.
-/

namespace HighWater

variable {φ : Type}

/-- The greatest of some numbers. -/
def highest (numbers : List Nat) : Nat :=
  numbers.foldr max 0

theorem le_highest {number : Nat} {numbers : List Nat}
    (member : number ∈ numbers) : number ≤ highest numbers := by
  induction numbers with
  | nil => exact absurd member List.not_mem_nil
  | cons first rest inductionHypothesis =>
      rw [highest, List.foldr_cons]
      rcases List.mem_cons.mp member with here | behind
      · rw [here]
        exact le_max_left _ _
      · exact (inductionHypothesis behind).trans (le_max_right _ _)

theorem highest_le {numbers : List Nat} {bound : Nat}
    (below : ∀ number ∈ numbers, number ≤ bound) :
    highest numbers ≤ bound := by
  induction numbers with
  | nil => exact Nat.zero_le bound
  | cons number rest inductionHypothesis =>
      rw [List.forall_mem_cons] at below
      exact max_le below.1 (inductionHypothesis below.2)

theorem le_foldl_max (values : List Nat) (bound : Nat) :
    bound ≤ values.foldl max bound ∧
      ∀ value ∈ values, value ≤ values.foldl max bound := by
  induction values generalizing bound with
  | nil => simp
  | cons value values inductionHypothesis =>
      obtain ⟨start, members⟩ := inductionHypothesis (max bound value)
      rw [List.foldl_cons]
      refine ⟨by omega, ?_⟩
      intro other member
      rcases List.mem_cons.mp member with rfl | tail
      · omega
      · exact members other tail

/-- A scan ends with the last number when the others are below it. -/
theorem foldl_max_concat
    {values : List Nat} {last bound : Nat}
    (below : ∀ value ∈ values, value ≤ last) (small : bound ≤ last) :
    (values ++ [last]).foldl max bound = last := by
  induction values generalizing bound with
  | nil => simpa using small
  | cons value values inductionHypothesis =>
      have first := below value (by simp)
      exact inductionHypothesis
        (fun other member => below other (by simp [member])) (by omega)

/-- Each number in a file is below the mark or within the promise of the
file's name. -/
def Covered (numbers : φ → List Nat) (promise : φ → Option Nat) (mark : Nat)
    (files : List φ) : Prop :=
  ∀ file ∈ files, (∀ number ∈ numbers file, number < mark) ∨
    ∃ bound, promise file = some bound ∧
      ∀ number ∈ numbers file, number ≤ bound

section

variable {numbers : φ → List Nat} {promise : φ → Option Nat}
variable {mark mark' : Nat} {files files' : List φ}

theorem Covered.nil : Covered numbers promise mark [] :=
  fun _ member => absurd member List.not_mem_nil

theorem Covered.raise (covered : Covered numbers promise mark files)
    (up : mark ≤ mark') : Covered numbers promise mark' files := by
  intro file member
  rcases covered file member with below | promised
  · left
    intro number inFile
    exact (below number inFile).trans_le up
  · exact Or.inr promised

theorem Covered.mono (covered : Covered numbers promise mark files)
    (sub : ∀ file ∈ files', file ∈ files) :
    Covered numbers promise mark files' :=
  fun file member => covered file (sub file member)

theorem Covered.append (covered : Covered numbers promise mark files)
    (covered' : Covered numbers promise mark files') :
    Covered numbers promise mark (files ++ files') := by
  intro file member
  rcases List.mem_append.mp member with front | back
  · exact covered file front
  · exact covered' file back

theorem Covered.of_below
    (below : ∀ file ∈ files, ∀ number ∈ numbers file, number < mark) :
    Covered numbers promise mark files :=
  fun file member => Or.inl (below file member)

/-- A next number that is above the promises and not below the mark is above
all numbers in the files. -/
theorem Covered.lt_next (covered : Covered numbers promise mark files)
    {next : Nat} (marked : mark ≤ next)
    (promised : highest (files.filterMap promise) < next) :
    ∀ file ∈ files, ∀ number ∈ numbers file, number < next := by
  intro file member number inFile
  rcases covered file member with below | within
  · exact (below number inFile).trans_le marked
  · rcases within with ⟨bound, found, most⟩
    have listed : bound ∈ files.filterMap promise :=
      List.mem_filterMap.mpr ⟨file, member, found⟩
    exact ((most number inFile).trans (le_highest listed)).trans_lt promised

end

end HighWater
