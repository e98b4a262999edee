import Mathlib.Data.List.Basic
import Mathlib.Logic.Basic

/-!
# Locks that are not waited for

A computation that tries its locks gives up at the first one that is taken.
Its attempts are numbered, and whether an attempt gets its lock is a function
of the number.  A computation that makes a fixed number of attempts depends on
nothing else but whether all of them get their locks.
-/

namespace LockAttempts

variable {free : Nat → Bool}

def tryRead (free : Nat → Bool) : StateT Nat Option Unit :=
  fun time => if free time then some ((), time + 1) else none

def Granted (free : Nat → Bool) (start count : Nat) : Prop :=
  ∀ i < count, free (start + i) = true

instance (free : Nat → Bool) (start count : Nat) :
    Decidable (Granted free start count) :=
  inferInstanceAs (Decidable (∀ i < count, free (start + i) = true))

theorem granted_zero (start : Nat) : Granted free start 0 :=
  fun _ absurdly => absurd absurdly (Nat.not_lt_zero _)

theorem granted_one_iff {start : Nat} :
    Granted free start 1 ↔ free start = true := by
  constructor
  · intro granted
    exact granted 0 Nat.one_pos
  · intro isFree i less
    rw [Nat.lt_one_iff.mp less, Nat.add_zero]
    exact isFree

theorem granted_add_iff {start count more : Nat} :
    Granted free start (count + more) ↔
      Granted free start count ∧ Granted free (start + count) more := by
  constructor
  · intro granted
    constructor
    · exact fun i less => granted i (Nat.lt_add_right more less)
    · intro i less
      rw [Nat.add_assoc]
      exact granted (count + i) (Nat.add_lt_add_left less count)
  · rintro ⟨first, second⟩ i less
    rcases Nat.lt_or_ge i count with early | late
    · exact first i early
    · have behind := second (i - count) (by omega)
      rw [Nat.add_assoc, Nat.add_sub_cancel' late] at behind
      exact behind

/-- The computation makes so many attempts, and has this result if all of
them get their locks. -/
def Takes {α : Type} (free : Nat → Bool) (op : StateT Nat Option α)
    (count : Nat) (result : α) : Prop :=
  ∀ start, op.run start =
    if Granted free start count then some (result, start + count) else none

section

variable {α β : Type} {op : StateT Nat Option α} {count : Nat} {result : α}

theorem Takes.run_granted
    (takes : Takes free op count result) {start : Nat}
    (granted : Granted free start count) :
    op.run start = some (result, start + count) := by
  rw [takes start, if_pos granted]

theorem Takes.run_refused
    (takes : Takes free op count result) {start : Nat}
    (refused : ¬ Granted free start count) : op.run start = none := by
  rw [takes start, if_neg refused]

theorem takes_pure (result : α) : Takes free (pure result) 0 result := by
  intro start
  rw [if_pos (granted_zero start)]
  rfl

theorem takes_tryRead : Takes free (tryRead free) 1 () := by
  intro start
  simp only [granted_one_iff]
  rfl

/-- The attempts of two computations, one after the other. -/
theorem Takes.bind
    {next : α → StateT Nat Option β} {more : Nat} {result' : β}
    (first : Takes free op count result)
    (second : Takes free (next result) more result') :
    Takes free (op >>= next) (count + more) result' := by
  intro start
  rw [StateT.run_bind]
  by_cases granted : Granted free start count
  · rw [first.run_granted granted]
    change (next result).run (start + count) = _
    rw [second (start + count)]
    simp only [granted_add_iff, granted, true_and, Nat.add_assoc]
  · rw [first.run_refused granted, if_neg]
    · rfl
    · exact fun both => granted (granted_add_iff.mp both).1

/-- What follows makes no attempts. -/
theorem Takes.bind_pure
    {next : α → StateT Nat Option β} {result' : β}
    (first : Takes free op count result)
    (second : Takes free (next result) 0 result') :
    Takes free (op >>= next) count result' :=
  first.bind second

theorem Takes.after_tryRead (takes : Takes free op count result) :
    Takes free (do tryRead free; op) (1 + count) result :=
  @Takes.bind _ _ _ _ _ _ (fun _ => op) _ _ takes_tryRead takes

theorem Takes.of_eq
    (takes : Takes free op count result) {count' : Nat}
    (same : count = count') : Takes free op count' result :=
  same ▸ takes

/-- A fold whose steps make the same number of attempts. -/
theorem takes_foldlM
    {step : β → α → StateT Nat Option β} {pureStep : β → α → β}
    (each : ∀ state item,
      Takes free (step state item) count (pureStep state item))
    (items : List α) (state : β) :
    Takes free (items.foldlM step state) (items.length * count)
      (items.foldl pureStep state) := by
  induction items generalizing state with
  | nil =>
      rw [List.length_nil, Nat.zero_mul]
      exact takes_pure state
  | cons item rest inductionHypothesis =>
      rw [List.foldlM_cons, List.length_cons]
      exact ((each state item).bind
        (inductionHypothesis (pureStep state item))).of_eq (by
          rw [Nat.succ_mul, Nat.add_comm])

end

end LockAttempts
