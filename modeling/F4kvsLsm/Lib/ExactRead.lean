import Mathlib.Data.List.Basic

/-!
# Exact reads from short reads

A source of items is asked for a number of them at a position and may give
fewer.  The loop asks again behind the items that it has, until it has all of
them, and reports the end of the source when a read gives none.
-/

namespace ExactRead

universe u v w

variable {σ : Type u} {α : Type v} {ε : Type w}

/-- `atEnd` is the error for a read at the given position that gives nothing.
Each round takes one item of fuel and at least one of the wanted items. -/
def readLoop (read : σ → Nat → Nat → Except ε (List α) × σ)
    (atEnd : Nat → ε) : Nat → σ → Nat → Nat → Except ε (List α) × σ
  | 0, state, _, _ => (.ok [], state)
  | fuel + 1, state, position, wanted =>
      if wanted = 0 then (.ok [], state)
      else
        match read state position wanted with
        | (.error failure, state) => (.error failure, state)
        | (.ok items, state) =>
            if items = [] then (.error (atEnd position), state)
            else
              match readLoop read atEnd fuel state
                (position + items.length) (wanted - items.length) with
              | (.error failure, state) => (.error failure, state)
              | (.ok rest, state) => (.ok (items ++ rest), state)

/-- A number of items at a position. -/
def readExact (read : σ → Nat → Nat → Except ε (List α) × σ)
    (atEnd : Nat → ε) (state : σ) (position wanted : Nat) :
    Except ε (List α) × σ :=
  readLoop read atEnd wanted state position wanted

/-- `items` are the first of the wanted items, and they are none only at the
end of the data. -/
structure IsChunk (data : List α) (position wanted : Nat)
    (items : List α) : Prop where
  front : items <+: (data.drop position).take wanted
  atEnd : items = [] → data.length ≤ position

/-- From every state the source gives a chunk of the data or refuses.  It
refuses only reads past the end of the data, and a read that it refuses in a
later round it would have refused in the first. -/
structure Serves (data : List α)
    (read : σ → Nat → Nat → Except ε (List α) × σ)
    (Refuses : Nat → Nat → ε → Prop) : Prop where
  answers : ∀ state position wanted, wanted ≠ 0 →
    (∃ items, (read state position wanted).1 = .ok items ∧
      IsChunk data position wanted items) ∨
    ∃ failure, (read state position wanted).1 = .error failure ∧
      Refuses position wanted failure
  beyond : ∀ {position wanted failure}, Refuses position wanted failure →
    data.length < position + wanted
  earlier : ∀ {position wanted count failure},
    count ≤ wanted → position + count ≤ data.length → count ≠ 0 →
    Refuses (position + count) (wanted - count) failure →
    Refuses position wanted failure

namespace IsChunk

variable {data items : List α} {position wanted : Nat}

theorem length_le (chunk : IsChunk data position wanted items) :
    items.length ≤ wanted ∧
      items.length ≤ data.length - position := by
  have short := chunk.front.length_le
  rw [List.length_take, List.length_drop] at short
  omega

theorem append_rest (chunk : IsChunk data position wanted items) :
    items ++ (data.drop (position + items.length)).take
        (wanted - items.length) =
      (data.drop position).take wanted := by
  obtain ⟨rest, whole⟩ := chunk.front
  have behind : (data.drop (position + items.length)).take
      (wanted - items.length) = rest := by
    rw [← List.drop_drop, ← List.drop_take, ← whole, List.drop_left]
  rw [behind, whole]

/-- The first items that are there form a chunk, whatever their number. -/
theorem of_take {count : Nat} (counted : count ≠ 0) (few : count ≤ wanted) :
    IsChunk data position wanted ((data.drop position).take count) where
  front := List.take_prefix_take_left few
  atEnd := by
    intro empty
    rw [List.take_eq_nil_iff, List.drop_eq_nil_iff] at empty
    exact empty.resolve_left counted

end IsChunk

section

variable {data : List α} {read : σ → Nat → Nat → Except ε (List α) × σ}
  {atEnd : Nat → ε} {Refuses : Nat → Nat → ε → Prop}

theorem readLoop_of_within (serves : Serves data read Refuses)
    (fuel : Nat) (state : σ) (position wanted : Nat)
    (enough : wanted ≤ fuel)
    (within : wanted = 0 ∨ position + wanted ≤ data.length) :
    (readLoop read atEnd fuel state position wanted).1 =
      .ok ((data.drop position).take wanted) := by
  induction fuel generalizing state position wanted with
  | zero =>
      rw [Nat.le_zero.mp enough, List.take_zero]
      rfl
  | succ fuel inductionHypothesis =>
      rw [readLoop]
      by_cases nothing : wanted = 0
      · rw [if_pos nothing, nothing, List.take_zero]
      rw [if_neg nothing]
      have inside := within.resolve_left nothing
      rcases serves.answers state position wanted nothing with
        ⟨items, answered, chunk⟩ | ⟨failure, _, refused⟩
      · have gained : items ≠ [] := by
          intro empty
          have atEnd := chunk.atEnd empty
          omega
        have positive := List.length_pos_iff.mpr gained
        have short := chunk.length_le
        have rest := inductionHypothesis (read state position wanted).2
          (position + items.length) (wanted - items.length)
          (by omega) (by omega)
        rw [← Prod.eta (read state position wanted), answered]
        dsimp only
        rw [if_neg gained, ← Prod.eta (readLoop read atEnd fuel _ _ _), rest]
        dsimp only
        rw [chunk.append_rest]
      · have beyond := serves.beyond refused
        omega

/-- The loop on items that are not all there: it fails at the end of the data,
unless the source refuses the read. -/
theorem readLoop_of_beyond (serves : Serves data read Refuses)
    (fuel : Nat) (state : σ) (position wanted : Nat)
    (enough : wanted ≤ fuel) (wantsSome : wanted ≠ 0)
    (beyond : data.length < position + wanted) :
    (readLoop read atEnd fuel state position wanted).1 =
        .error (atEnd (max position data.length)) ∨
      ∃ failure,
        (readLoop read atEnd fuel state position wanted).1 =
          .error failure ∧ Refuses position wanted failure := by
  induction fuel generalizing state position wanted with
  | zero => exact absurd (Nat.le_zero.mp enough) wantsSome
  | succ fuel inductionHypothesis =>
      rw [readLoop, if_neg wantsSome]
      rcases serves.answers state position wanted wantsSome with
        ⟨items, answered, chunk⟩ | ⟨failure, answered, refused⟩
      · rw [← Prod.eta (read state position wanted), answered]
        dsimp only
        by_cases empty : items = []
        · rw [if_pos empty, Nat.max_eq_left (chunk.atEnd empty)]
          exact .inl rfl
        · rw [if_neg empty]
          have positive := List.length_pos_iff.mpr empty
          have short := chunk.length_le
          have rest := inductionHypothesis (read state position wanted).2
            (position + items.length) (wanted - items.length)
            (by omega) (by omega) (by omega)
          have farthest : max (position + items.length) data.length =
              max position data.length := by omega
          rw [farthest] at rest
          rw [← Prod.eta (readLoop read atEnd fuel _ _ _)]
          rcases rest with ended | ⟨failure, failed, refused⟩
          · rw [ended]
            exact .inl rfl
          · rw [failed]
            exact .inr ⟨failure, rfl, serves.earlier short.1 (by omega)
              (by omega) refused⟩
      · rw [← Prod.eta (read state position wanted), answered]
        exact .inr ⟨failure, rfl, refused⟩

theorem readExact_eq_or_refused (serves : Serves data read Refuses)
    (state : σ) (position wanted : Nat) :
    (readExact read atEnd state position wanted).1 =
        (if wanted = 0 ∨ position + wanted ≤ data.length then
          .ok ((data.drop position).take wanted)
        else .error (atEnd (max position data.length))) ∨
      wanted ≠ 0 ∧ ∃ failure,
        (readExact read atEnd state position wanted).1 = .error failure ∧
          Refuses position wanted failure := by
  by_cases within : wanted = 0 ∨ position + wanted ≤ data.length
  · rw [if_pos within]
    exact .inl
      (readLoop_of_within serves _ _ _ _ (Nat.le_refl wanted) within)
  · rw [if_neg within]
    rw [not_or] at within
    exact (readLoop_of_beyond serves wanted state position wanted
      (Nat.le_refl wanted) within.1 (by omega)).imp_right
        fun refused => ⟨within.1, refused⟩

end

end ExactRead
