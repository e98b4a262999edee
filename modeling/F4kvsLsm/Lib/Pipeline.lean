import Mathlib.Data.List.Perm.Basic
import F4kvsLsm.Lib.Runs

/-!
# A queue that is drained in batches

Items are pushed on a queue.  Whoever drains it takes all of it at once, and
writes what was taken in a later step, so several batches can be on their way.
A batch may also be brought along without the queue, and a batch may be given
up.  Whatever the order of the steps, every item is in one place.  The order
in which items are written is that of their arrival when each batch is written
before the batches that were taken after it.
-/

universe u

/-- `taken` lists the batches on their way, the oldest first. -/
structure Pipeline (α : Type u) where
  history : List α
  queue : List α
  taken : List (List α)
  written : List α
  lost : List α

namespace Pipeline

variable {α : Type u}

/-- `before` lists the batches that are older than the one that leaves. -/
inductive Action (α : Type u) where
  | push (item : α)
  | take
  | bring (batch : List α)
  | write (before : List (List α)) (batch : List α)
  | lose (before : List (List α)) (batch : List α)

inductive Step : Pipeline α → Action α → Pipeline α → Prop where
  | push (p : Pipeline α) (item : α) :
      Step p (.push item)
        { p with
          history := p.history ++ [item]
          queue := p.queue ++ [item] }
  | take (p : Pipeline α) :
      Step p .take { p with queue := [], taken := p.taken ++ [p.queue] }
  | bring (p : Pipeline α) (batch : List α) :
      Step p (.bring batch)
        { p with
          history := p.history ++ batch
          taken := p.taken ++ [batch] }
  | write (p : Pipeline α) (before : List (List α)) (batch : List α)
      (after : List (List α)) (split : p.taken = before ++ batch :: after) :
      Step p (.write before batch)
        { p with
          taken := before ++ after
          written := p.written ++ batch }
  | lose (p : Pipeline α) (before : List (List α)) (batch : List α)
      (after : List (List α)) (split : p.taken = before ++ batch :: after) :
      Step p (.lose before batch)
        { p with
          taken := before ++ after
          lost := p.lost ++ batch }

/-! ## Every item is in one place -/

def Accounted (p : Pipeline α) : Prop :=
  (p.written ++ p.lost ++ p.taken.flatten ++ p.queue).Perm p.history

theorem Step.accounted
    {p p' : Pipeline α} {action : Action α} (step : Step p action p')
    (accounted : Accounted p) : Accounted p' := by
  classical
  rw [Accounted, List.perm_iff_count] at accounted ⊢
  intro item
  have counted := accounted item
  cases step with
  | push =>
      simp only [List.count_append] at counted ⊢
      omega
  | take =>
      simp only [List.count_append, List.flatten_append, List.flatten_cons,
        List.flatten_nil, List.count_nil] at counted ⊢
      omega
  | bring =>
      simp only [List.count_append, List.flatten_append, List.flatten_cons,
        List.flatten_nil, List.count_nil] at counted ⊢
      omega
  | write before batch after split =>
      simp only [split, List.count_append, List.flatten_append,
        List.flatten_cons] at counted ⊢
      omega
  | lose before batch after split =>
      simp only [split, List.count_append, List.flatten_append,
        List.flatten_cons] at counted ⊢
      omega

/-! ## The order of writing -/

section

variable (ordered : α → Bool)

/-- The ordered items that are written, on their way and queued, in this
order, are those that have arrived. -/
def InOrder (p : Pipeline α) : Prop :=
  (p.written ++ p.taken.flatten ++ p.queue).filter ordered =
    p.history.filter ordered

/-- A batch that leaves has no ordered items, or there are none in the older
batches.  Ordered items are neither brought along nor lost. -/
def InTurn : Action α → Prop
  | .push _ => True
  | .take => True
  | .bring batch => batch.filter ordered = []
  | .write before batch =>
      batch.filter ordered = [] ∨ before.flatten.filter ordered = []
  | .lose _ batch => batch.filter ordered = []

variable {ordered}

theorem Step.inOrder
    {p p' : Pipeline α} {action : Action α} (step : Step p action p')
    (turn : InTurn ordered action) (order : InOrder ordered p) :
    InOrder ordered p' := by
  unfold InOrder at order ⊢
  cases step with
  | push item =>
      simp only [List.filter_append] at order ⊢
      rw [← order, List.append_assoc _ _ (List.filter ordered [item])]
  | take =>
      simpa [List.filter_append] using order
  | bring batch =>
      have unordered : batch.filter ordered = [] := turn
      simpa [List.filter_append, unordered] using order
  | write before batch after split =>
      rw [split] at order
      simp only [List.flatten_append, List.flatten_cons,
        List.filter_append] at order ⊢
      rcases turn with unordered | first
      · rw [unordered] at order ⊢
        simpa using order
      · rw [first] at order ⊢
        simpa using order
  | lose before batch after split =>
      have unordered : batch.filter ordered = [] := turn
      rw [split] at order
      simp only [List.flatten_append, List.flatten_cons,
        List.filter_append, unordered, List.nil_append] at order ⊢
      exact order

end

/-! ## Runs -/

section

variable {p p' : Pipeline α} {allowed : Pipeline α → Action α → Prop}

theorem accounted_of_reaches
    (run : Transitions.Reaches Step allowed p p')
    (accounted : Accounted p) : Accounted p' :=
  run.invariant Accounted accounted
    fun _ _ _ holds _ step => step.accounted holds

theorem Accounted.written_perm
    (accounted : Accounted p) (ordered : α → Bool)
    (idle : p.taken = []) (empty : p.queue = [])
    (kept : p.lost.filter ordered = []) :
    (p.written.filter ordered).Perm (p.history.filter ordered) := by
  have all := List.Perm.filter ordered accounted
  rw [idle, empty] at all
  simpa [List.filter_append, kept] using all

theorem inOrder_of_reaches
    {ordered : α → Bool}
    (run : Transitions.Reaches Step (fun _ => InTurn ordered) p p')
    (order : InOrder ordered p) : InOrder ordered p' :=
  run.invariant (InOrder ordered) order
    fun _ _ _ holds turn step => step.inOrder turn holds

/-- What is written is a beginning of what has arrived. -/
theorem InOrder.begins
    {ordered : α → Bool} (order : InOrder ordered p) :
    p.written.filter ordered <+: p.history.filter ordered := by
  rw [← order, List.append_assoc, List.filter_append]
  exact List.prefix_append _ _

end

end Pipeline
