import Mathlib.Data.List.Forall2

/-!
# Steps that may fail, over a list

Reading every item of a list succeeds exactly when every item can be read, and
then it gives what the items give, in their order.
-/

namespace Fallible

variable {ε α β : Type} {read : α → Except ε β}

/-- Two steps succeed when the first does and the second does on its
result. -/
theorem bind_eq_ok_iff {first : Except ε α} {second : α → Except ε β}
    {result : β} :
    (first >>= second) = .ok result ↔
      ∃ middle, first = .ok middle ∧ second middle = .ok result := by
  cases first with
  | error failure => exact iff_of_false nofun nofun
  | ok middle =>
      constructor
      · exact fun succeeds => ⟨middle, rfl, succeeds⟩
      · rintro ⟨_, same, succeeds⟩
        cases same
        exact succeeds

theorem toOption_eq_some_iff {step : Except ε α} {result : α} :
    step.toOption = some result ↔ step = .ok result := by
  cases step with
  | error failure => exact iff_of_false nofun nofun
  | ok value =>
      constructor
      · exact fun same => congrArg Except.ok (Option.some.inj same)
      · exact fun same => congrArg some (Except.ok.inj same)

theorem mapM_eq_ok_iff {items : List α} {results : List β} :
    items.mapM read = .ok results ↔
      List.Forall₂ (fun item result => read item = .ok result) items
        results := by
  induction items generalizing results with
  | nil =>
      rw [List.mapM_nil, List.forall₂_nil_left_iff]
      constructor
      · exact fun same => (Except.ok.inj same).symm
      · exact fun same => congrArg Except.ok same.symm
  | cons item rest inductionHypothesis =>
      rw [List.mapM_cons, List.forall₂_cons_left_iff]
      constructor
      · intro all
        cases here : read item with
        | error failure =>
            rw [here] at all
            cases all
        | ok result =>
            cases behind : rest.mapM read with
            | error failure =>
                rw [here, behind] at all
                cases all
            | ok others =>
                rw [here, behind] at all
                exact ⟨result, others, rfl, inductionHypothesis.mp behind,
                  (Except.ok.inj all).symm⟩
      · intro parts
        rcases parts with ⟨result, others, here, behind, same⟩
        rw [here, inductionHypothesis.mpr behind, same]
        rfl

theorem mapM_congr
    {read' : α → Except ε β} {items : List α}
    (same : ∀ item ∈ items, read item = read' item) :
    items.mapM read = items.mapM read' := by
  induction items with
  | nil => rfl
  | cons item rest inductionHypothesis =>
      rw [List.mapM_cons, List.mapM_cons, same item List.mem_cons_self,
        inductionHypothesis fun other member =>
          same other (List.mem_cons_of_mem _ member)]

theorem mapM_eq_ok
    {expected : α → β} {items : List α}
    (all : ∀ item ∈ items, read item = .ok (expected item)) :
    items.mapM read = .ok (items.map expected) := by
  apply mapM_eq_ok_iff.mpr
  rw [List.forall₂_map_right_iff, List.forall₂_same]
  exact all

theorem mapM_item
    {items : List α} {results : List β}
    (all : items.mapM read = .ok results) :
    ∀ item ∈ items, ∃ result, read item = .ok result := by
  intro item member
  rw [mapM_eq_ok_iff] at all
  induction all with
  | nil => exact absurd member List.not_mem_nil
  | cons here _ inductionHypothesis =>
      rcases List.mem_cons.mp member with same | behind
      · exact ⟨_, same ▸ here⟩
      · exact inductionHypothesis behind

theorem mapM_result
    {items : List α} {results : List β}
    (all : items.mapM read = .ok results) :
    ∀ result ∈ results, ∃ item ∈ items, read item = .ok result := by
  intro result member
  rw [mapM_eq_ok_iff] at all
  induction all with
  | nil => exact absurd member List.not_mem_nil
  | cons here _ inductionHypothesis =>
      rcases List.mem_cons.mp member with same | behind
      · exact ⟨_, List.mem_cons_self, same ▸ here⟩
      · rcases inductionHypothesis behind with ⟨item, inItems, read⟩
        exact ⟨item, List.mem_cons_of_mem _ inItems, read⟩

/-- What every step keeps, with the items that are done, holds at the end of a
loop that succeeds. -/
theorem foldlM_keeps {σ : Type} {step : σ → α → Except ε σ}
    (Keeps : σ → List α → Prop) {items : List α} {start last : σ}
    (done : List α)
    (preserved : ∀ state done item next, item ∈ items → Keeps state done →
      step state item = .ok next → Keeps next (done ++ [item]))
    (initial : Keeps start done) (ran : items.foldlM step start = .ok last) :
    Keeps last (done ++ items) := by
  induction items generalizing start done with
  | nil =>
      cases ran
      rw [List.append_nil]
      exact initial
  | cons item rest inductionHypothesis =>
      rw [List.foldlM_cons] at ran
      obtain ⟨next, first, behind⟩ := bind_eq_ok_iff.mp ran
      have kept := inductionHypothesis _
        (fun state done other next member =>
          preserved state done other next (List.mem_cons_of_mem _ member))
        (preserved start done item next List.mem_cons_self initial first)
        behind
      rwa [List.append_assoc] at kept

end Fallible
