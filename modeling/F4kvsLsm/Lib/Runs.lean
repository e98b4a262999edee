import Mathlib.Logic.Relation

/-!
# Runs of transition systems

A transition system is a relation between states, labelled by the action that
is taken.  Its runs are all finite sequences of steps, so an interleaving of
several parties is a run of the system whose actions name the party.  A
condition on steps is a predicate on the action and the state before it.
-/

namespace Transitions

universe u v w

variable {σ : Type u} {α : Type v} {τ : Type w}

/-- The states that runs with allowed steps lead to. -/
def Reaches (step : σ → α → σ → Prop) (allowed : σ → α → Prop) :
    σ → σ → Prop :=
  Relation.ReflTransGen fun state state' =>
    ∃ action, allowed state action ∧ step state action state'

variable {step : σ → α → σ → Prop} {allowed : σ → α → Prop}

theorem Reaches.start (state : σ) : Reaches step allowed state state :=
  Relation.ReflTransGen.refl

theorem Reaches.next
    {start state state' : σ} (run : Reaches step allowed start state)
    (action : α) (meets : allowed state action)
    (taken : step state action state') : Reaches step allowed start state' :=
  Relation.ReflTransGen.tail run ⟨action, meets, taken⟩

/-- What holds at the start and is kept by every allowed step holds in every
state of a run. -/
theorem Reaches.invariant
    {start state : σ} (run : Reaches step allowed start state)
    (holds : σ → Prop) (initially : holds start)
    (keeps : ∀ before action after, holds before → allowed before action →
      step before action after → holds after) : holds state := by
  induction run with
  | refl => exact initially
  | tail _ taken inductionHypothesis =>
      obtain ⟨action, meets, taken⟩ := taken
      exact keeps _ action _ inductionHypothesis meets taken

theorem Reaches.mono
    {start state : σ} (run : Reaches step allowed start state)
    {allowed' : σ → α → Prop}
    (weaker : ∀ state action, allowed state action → allowed' state action) :
    Reaches step allowed' start state :=
  Relation.ReflTransGen.mono
    (fun state _ ⟨action, meets, taken⟩ =>
      ⟨action, weaker state action meets, taken⟩) _ _ run

theorem Reaches.within
    {start state : σ} (run : Reaches step allowed start state)
    (holds : σ → Prop) (initially : holds start)
    (keeps : ∀ before action after, holds before → allowed before action →
      step before action after → holds after) :
    Reaches step (fun state action => holds state ∧ allowed state action)
      start state := by
  induction run with
  | refl => exact Reaches.start start
  | tail run taken inductionHypothesis =>
      obtain ⟨action, meets, taken⟩ := taken
      have kept := Reaches.invariant run holds initially keeps
      exact Reaches.next inductionHypothesis action ⟨kept, meets⟩ taken

/-- A run of a system is a run of a part of it, when each step is a run of
the part. -/
theorem Reaches.project
    {β : Type*} {step' : τ → β → τ → Prop} {allowed' : τ → β → Prop}
    {start state : σ} (run : Reaches step allowed start state) (part : σ → τ)
    (simulates : ∀ before action after, allowed before action →
      step before action after →
        Reaches step' allowed' (part before) (part after)) :
    Reaches step' allowed' (part start) (part state) := by
  induction run with
  | refl => exact Reaches.start _
  | tail _ taken inductionHypothesis =>
      obtain ⟨action, meets, taken⟩ := taken
      exact Relation.ReflTransGen.trans inductionHypothesis
        (simulates _ action _ meets taken)

/-- A list of actions that a step function takes one after the other, each
where it is allowed. -/
theorem Reaches.of_foldlM
    {step : σ → α → Option σ} {allowed : σ → α → Prop}
    [∀ state action, Decidable (allowed state action)]
    {actions : List α} {start state : σ}
    (result : actions.foldlM
      (fun state action =>
        if allowed state action then step state action else none) start =
      some state) :
    Reaches (fun state action state' => step state action = some state')
      allowed start state := by
  induction actions generalizing start with
  | nil =>
      cases result
      exact Reaches.start _
  | cons action actions inductionHypothesis =>
      rw [List.foldlM_cons] at result
      split at result
      · rename_i meets
        cases taken : step start action with
        | none =>
            rw [taken] at result
            cases result
        | some middle =>
            rw [taken] at result
            exact Relation.ReflTransGen.head ⟨action, meets, taken⟩
              (inductionHypothesis result)
      · cases result

/-- The run that takes these actions one after the other. -/
inductive Trace (step : σ → α → σ → Prop) : σ → List α → σ → Prop
  | done (state : σ) : Trace step state [] state
  | act {state middle state' : σ} {action : α} {actions : List α} :
      step state action middle → Trace step middle actions state' →
        Trace step state (action :: actions) state'

/-! ## Runs of a step function -/

section

variable {move : σ → α → σ} {holds : σ → Prop} {meets : σ → α → Prop}

/-- The property holds at the start and after each of the actions. -/
def Throughout (move : σ → α → σ) (holds : σ → Prop) :
    σ → List α → Prop
  | state, [] => holds state
  | state, action :: actions =>
      holds state ∧ Throughout move holds (move state action) actions

/-- Each action meets the condition in the state in which it is taken. -/
def EachMeets (move : σ → α → σ) (meets : σ → α → Prop) :
    σ → List α → Prop
  | _, [] => True
  | state, action :: actions =>
      meets state action ∧ EachMeets move meets (move state action) actions

theorem Throughout.first
    {start : σ} {actions : List α}
    (run : Throughout move holds start actions) : holds start := by
  cases actions with
  | nil => exact run
  | cons action actions => exact run.1

theorem Throughout.last
    {start : σ} {actions : List α}
    (run : Throughout move holds start actions) :
    holds (actions.foldl move start) := by
  induction actions generalizing start with
  | nil => exact run
  | cons action actions inductionHypothesis => exact inductionHypothesis run.2

theorem Throughout.mono
    {holds' : σ → Prop} (weaker : ∀ state, holds state → holds' state)
    {start : σ} {actions : List α}
    (run : Throughout move holds start actions) :
    Throughout move holds' start actions := by
  induction actions generalizing start with
  | nil => exact weaker start run
  | cons action actions inductionHypothesis =>
      exact ⟨weaker start run.1, inductionHypothesis run.2⟩

theorem throughout_of_keeps
    (keeps : ∀ state action, holds state → holds (move state action))
    {start : σ} (initially : holds start) (actions : List α) :
    Throughout move holds start actions := by
  induction actions generalizing start with
  | nil => exact initially
  | cons action actions inductionHypothesis =>
      exact ⟨initially, inductionHypothesis (keeps start action initially)⟩

/-- When the condition says exactly which actions keep the property, it says
exactly which runs keep it throughout. -/
theorem throughout_iff
    (exact_step : ∀ state action, holds state →
      (holds (move state action) ↔ meets state action))
    {start : σ} (initially : holds start) (actions : List α) :
    Throughout move holds start actions ↔
      EachMeets move meets start actions := by
  induction actions generalizing start with
  | nil => exact iff_of_true initially trivial
  | cons action actions inductionHypothesis =>
      have here := exact_step start action initially
      constructor
      · rintro ⟨-, rest⟩
        exact ⟨here.mp rest.first, (inductionHypothesis rest.first).mp rest⟩
      · rintro ⟨met, rest⟩
        exact ⟨initially, (inductionHypothesis (here.mpr met)).mpr rest⟩

end

/-! ## Sequences that come to rest -/

/-- A sequence comes to rest when from some point on each state at which it is
not at rest is followed by a smaller one. -/
theorem exists_rest_of_decreases
    {below : τ → τ → Prop} (wellFounded : WellFounded below)
    {states : Nat → σ} {rest : σ → Prop} (weight : σ → τ) {first : Nat}
    (decreases : ∀ n, first ≤ n → ¬ rest (states n) →
      below (weight (states (n + 1))) (weight (states n))) :
    ∃ n, rest (states n) := by
  suffices later : ∀ value n, first ≤ n → weight (states n) = value →
      ∃ n, rest (states n) from later _ first (Nat.le_refl _) rfl
  intro value
  induction value using wellFounded.induction with
  | _ value inductionHypothesis =>
      rintro n past rfl
      by_cases here : rest (states n)
      · exact ⟨n, here⟩
      · exact inductionHypothesis _ (decreases n past here) (n + 1)
          (Nat.le_succ_of_le past) rfl

/-- Rest that is kept lasts. -/
theorem rest_of_le
    {states : Nat → σ} {rest : σ → Prop}
    (keeps : ∀ n, rest (states n) → rest (states (n + 1))) {n m : Nat}
    (reached : rest (states n)) (later : n ≤ m) : rest (states m) := by
  induction later with
  | refl => exact reached
  | step _ inductionHypothesis => exact keeps _ inductionHypothesis

end Transitions
