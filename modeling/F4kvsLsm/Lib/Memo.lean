import Mathlib.Data.List.Basic

/-!
# Memories in front of a function

A memory keeps results of a function that may fail, and drops some of them.
A machine that answers questions with a memory that holds only what the
function gives answers as it would without one.
-/

namespace Memo

universe u v w

/-! ## What a memory holds -/

section

variable {Key : Type u} {Value : Type v} {Error : Type w}
  {f : Key → Except Error Value} {find find' : Key → Option Value}
  {key : Key} {value : Value}

/-- What is found under a key is what the function gives for it. -/
def Recalls (f : Key → Except Error Value) (find : Key → Option Value) :
    Prop :=
  ∀ key value, find key = some value → f key = .ok value

theorem recalls_none : Recalls f fun _ => none :=
  fun _ _ found => by cases found

/-- A memory may learn a result, and forget others on the way. -/
theorem Recalls.learn (recalls : Recalls f find) (gives : f key = .ok value)
    (known : ∀ other found, find' other = some found →
      (other = key ∧ found = value) ∨ find other = some found) :
    Recalls f find' := by
  intro other found held
  rcases known other found held with new | old
  · rw [new.1, new.2, gives]
  · exact recalls other found old

end

/-! ## Answers -/

section

variable {State : Type u} {Question : Type v} {Answer : Type w}

/-- The answers to some questions, one after the other. -/
def answers (ask : State → Question → Answer × State) :
    State → List Question → List Answer
  | _, [] => []
  | state, question :: rest =>
      (ask state question).1 :: answers ask (ask state question).2 rest

/-- When the answer is the plain one in every state that holds what it should,
and such a state is left behind, all answers are plain. -/
theorem answers_eq_map {ask : State → Question → Answer × State}
    {plain : Question → Answer} {Holds : State → Prop}
    (right : ∀ state question, Holds state →
      (ask state question).1 = plain question)
    (keeps : ∀ state question, Holds state → Holds (ask state question).2)
    {state : State} (holds : Holds state) (questions : List Question) :
    answers ask state questions = questions.map plain := by
  induction questions generalizing state with
  | nil => rfl
  | cons question rest inductionHypothesis =>
      rw [answers, List.map_cons, right state question holds,
        inductionHypothesis (keeps state question holds)]

end

end Memo
