import Mathlib.Data.List.Basic
import Mathlib.Order.Defs.LinearOrder

/-!
# Cursors over a list of keys

A cursor finds its next key, resolves it to a value, to nothing or to a
failure, and moves on.  Three loops use one: the next item, a page of items
and a visit of all items.  A relation tells which keys a state has still to
come to; when every part of the cursor respects it, the loops give the items
of these keys up to the first failure.
-/

namespace Cursors

universe u v w x y

/-- What the loops do in one round. -/
structure Cursor (σ : Type u) (κ : Type v) (β : Type w) (ε : Type x) where
  nextKey : σ → Option κ
  resolve : σ → κ → Except ε (Option β)
  advance : σ → κ → σ

variable {σ : Type u} {κ : Type v} {β : Type w} {ε : Type x}

/-! ## The loops -/

namespace Cursor

variable (cursor : Cursor σ κ β ε)

/-- The next key that has a value; `none` is a loop that ran out of fuel. -/
def next : Nat → σ → Option (Except ε (Option (κ × β)) × σ)
  | 0, _ => none
  | fuel + 1, state =>
      match cursor.nextKey state with
      | none => some (.ok none, state)
      | some key =>
          match cursor.resolve state key with
          | .error failure => some (.error failure, state)
          | .ok (some value) =>
              some (.ok (some (key, value)), cursor.advance state key)
          | .ok none => next fuel (cursor.advance state key)

/-- Add up to `max` items to a page, and tell whether the keys ran out. -/
def page (max : Nat) :
    Nat → σ → List (κ × β) → Option (Except ε (List (κ × β) × Bool) × σ)
  | 0, _, _ => none
  | fuel + 1, state, items =>
      if items.length < max then
        match cursor.nextKey state with
        | none => some (.ok (items, true), state)
        | some key =>
            match cursor.resolve state key with
            | .error failure => some (.error failure, state)
            | .ok (some value) =>
                page max fuel (cursor.advance state key)
                  (items ++ [(key, value)])
            | .ok none => page max fuel (cursor.advance state key) items
      else some (.ok (items, false), state)

/-- Show the payload of every item that has one to a visitor with a state of
its own, until the visitor says `false`. -/
def forEach {ω : Type y} {π : Type w} (payload : β → Option π)
    (visit : ω → κ → π → Bool × ω) :
    Nat → σ → ω → Option (Except ε Unit × ω)
  | 0, _, _ => none
  | fuel + 1, state, visitor =>
      match cursor.nextKey state with
      | none => some (.ok (), visitor)
      | some key =>
          match cursor.resolve state key with
          | .error failure => some (.error failure, visitor)
          | .ok resolved =>
              match resolved.bind payload with
              | none =>
                  forEach payload visit fuel (cursor.advance state key)
                    visitor
              | some shown =>
                  match visit visitor key shown with
                  | (true, visitor') =>
                      forEach payload visit fuel (cursor.advance state key)
                        visitor'
                  | (false, visitor') => some (.ok (), visitor')

theorem next_congr {cursor : Cursor σ κ β ε}
    {resolve : σ → κ → Except ε (Option β)} (Kept : σ → Prop)
    (alike : ∀ state key, Kept state →
      cursor.resolve state key = resolve state key)
    (kept : ∀ state key, Kept state → Kept (cursor.advance state key))
    (fuel : Nat) {state : σ} (start : Kept state) :
    cursor.next fuel state =
      { cursor with resolve := resolve }.next fuel state := by
  induction fuel generalizing state with
  | zero => rfl
  | succ fuel inductionHypothesis =>
      simp only [next]
      cases cursor.nextKey state with
      | none => rfl
      | some key =>
          simp only [alike state key start]
          cases resolve state key with
          | error failure => rfl
          | ok found =>
              cases found with
              | some value => rfl
              | none => exact inductionHypothesis (kept state key start)

end Cursor

/-- Calls that answer with these items one by one, and then with the end or
with a failure. -/
inductive Answers {α : Type y} (next : σ → Option (Except ε (Option α) × σ)) :
    σ → List α → Option ε → Prop
  | ended {state state' : σ} (call : next state = some (.ok none, state')) :
      Answers next state [] none
  | failed {state state' : σ} {failure : ε}
      (call : next state = some (.error failure, state')) :
      Answers next state [] (some failure)
  | answered {state state' : σ} {item : α} {items : List α}
      {outcome : Option ε}
      (call : next state = some (.ok (some item), state'))
      (rest : Answers next state' items outcome) :
      Answers next state (item :: items) outcome

/-- The answers of one page call after the other. -/
def pages {α : Type y}
    (page : Nat → σ → Option (Except ε (List α × Bool) × σ)) :
    List Nat → σ → Option (List (Except ε (List α × Bool)))
  | [], _ => some []
  | max :: sizes, state =>
      match page max state with
      | none => none
      | some (answer, state') =>
          (pages page sizes state').map (answer :: ·)

/-! ## What the loops should give -/

/-- The items of some keys, up to the first failure. -/
def collect (value : κ → Except ε (Option β)) :
    List κ → List (κ × β) × Option ε
  | [] => ([], none)
  | key :: rest =>
      match value key with
      | .error failure => ([], some failure)
      | .ok none => collect value rest
      | .ok (some found) =>
          ((key, found) :: (collect value rest).1, (collect value rest).2)

/-- One page of a list that ends or fails. -/
def cutPage {α : Type y} (max : Nat) (items : List α) (outcome : Option ε) :
    Except ε (List α × Bool) :=
  if max ≤ items.length then .ok (items.take max, false)
  else
    match outcome with
    | none => .ok (items, true)
    | some failure => .error failure

/-- Such a list in pages of these sizes. -/
def cut {α : Type y} (outcome : Option ε) :
    List Nat → List α → List (Except ε (List α × Bool))
  | [], _ => []
  | max :: sizes, items =>
      cutPage max items outcome :: cut outcome sizes (items.drop max)

/-- The visitor after it has seen the items, and whether it let them all
pass. -/
def visitAll {ω : Type y} {π : Type w} (payload : β → Option π)
    (visit : ω → κ → π → Bool × ω) : List (κ × β) → ω → Bool × ω
  | [], visitor => (true, visitor)
  | (key, value) :: rest, visitor =>
      match payload value with
      | none => visitAll payload visit rest visitor
      | some shown =>
          match visit visitor key shown with
          | (true, visitor') => visitAll payload visit rest visitor'
          | (false, visitor') => (false, visitor')

/-- A visitor that stops has seen no failure. -/
def visitResult {ω : Type y} (visited : Bool × ω) (outcome : Option ε) :
    Except ε Unit × ω :=
  match visited, outcome with
  | (true, visitor), some failure => (.error failure, visitor)
  | (_, visitor), _ => (.ok (), visitor)

/-! ## Cursors that walk along pending keys -/

/-- `Pending state keys` says which keys the cursor has still to come to. -/
structure Walks (cursor : Cursor σ κ β ε) (Pending : σ → List κ → Prop)
    (value : κ → Except ε (Option β)) : Prop where
  nextKey : ∀ {state : σ} {keys : List κ}, Pending state keys →
    cursor.nextKey state = keys.head?
  resolve : ∀ {state : σ} {key : κ} {rest : List κ},
    Pending state (key :: rest) → cursor.resolve state key = value key
  advance : ∀ {state : σ} {key : κ} {rest : List κ},
    Pending state (key :: rest) → Pending (cursor.advance state key) rest

variable {cursor : Cursor σ κ β ε} {Pending : σ → List κ → Prop}
variable {value : κ → Except ε (Option β)}

theorem Walks.next_fuel
    (walks : Walks cursor Pending value) {state : σ} {keys : List κ}
    (pending : Pending state keys) {fuel fuel' : Nat}
    (enough : keys.length < fuel) (enough' : keys.length < fuel') :
    cursor.next fuel state = cursor.next fuel' state := by
  induction keys generalizing state fuel fuel' with
  | nil =>
      cases fuel with
      | zero => exact absurd enough (Nat.not_lt_zero _)
      | succ fuel =>
          cases fuel' with
          | zero => exact absurd enough' (Nat.not_lt_zero _)
          | succ fuel' =>
              rw [Cursor.next, Cursor.next, walks.nextKey pending]
              rfl
  | cons key rest inductionHypothesis =>
      cases fuel with
      | zero => exact absurd enough (Nat.not_lt_zero _)
      | succ fuel =>
          cases fuel' with
          | zero => exact absurd enough' (Nat.not_lt_zero _)
          | succ fuel' =>
              have behind := inductionHypothesis (walks.advance pending)
                (Nat.lt_of_succ_lt_succ enough)
                (Nat.lt_of_succ_lt_succ enough')
              rw [Cursor.next, Cursor.next, walks.nextKey pending,
                List.head?_cons]
              simp only
              rw [behind]

/-- The next item of a list that ends or fails. -/
def nextItem {α : Type y} (items : List α) (outcome : Option ε) :
    Except ε (Option α) :=
  match items, outcome with
  | item :: _, _ => .ok (some item)
  | [], none => .ok none
  | [], some failure => .error failure

theorem Walks.next
    (walks : Walks cursor Pending value) {state : σ} {keys : List κ}
    (pending : Pending state keys) {fuel : Nat}
    (enough : keys.length < fuel) :
    ∃ state', cursor.next fuel state =
      some (nextItem (collect value keys).1 (collect value keys).2,
        state') := by
  induction keys generalizing state fuel with
  | nil =>
      cases fuel with
      | zero => exact absurd enough (Nat.not_lt_zero _)
      | succ fuel =>
          refine ⟨state, ?_⟩
          rw [Cursor.next, walks.nextKey pending]
          rfl
  | cons key rest inductionHypothesis =>
      cases fuel with
      | zero => exact absurd enough (Nat.not_lt_zero _)
      | succ fuel =>
          rw [Cursor.next, walks.nextKey pending, List.head?_cons]
          simp only
          rw [walks.resolve pending, collect]
          cases value key with
          | error failure => exact ⟨state, rfl⟩
          | ok result =>
              cases result with
              | some found => exact ⟨cursor.advance state key, rfl⟩
              | none =>
                  exact inductionHypothesis (walks.advance pending)
                    (Nat.lt_of_succ_lt_succ enough)

/-- States from which all rounds go alike. -/
structure Alike (cursor : Cursor σ κ β ε) (related : σ → σ → Prop) :
    Prop where
  nextKey : ∀ {state state' : σ}, related state state' →
    cursor.nextKey state = cursor.nextKey state'
  resolve : ∀ {state state' : σ} {key : κ}, related state state' →
    cursor.nextKey state = some key →
      cursor.resolve state key = cursor.resolve state' key
  advance : ∀ {state state' : σ} {key : κ}, related state state' →
    cursor.nextKey state = some key →
      related (cursor.advance state key) (cursor.advance state' key)

theorem Alike.next
    {related : σ → σ → Prop} (alike : Alike cursor related)
    {state state' : σ} (start : related state state') (fuel : Nat) :
    (cursor.next fuel state).map Prod.fst =
      (cursor.next fuel state').map Prod.fst := by
  induction fuel generalizing state state' with
  | zero => rfl
  | succ fuel inductionHypothesis =>
      rw [Cursor.next, Cursor.next, ← alike.nextKey start]
      cases offered : cursor.nextKey state with
      | none => rfl
      | some key =>
          simp only
          rw [← alike.resolve start offered]
          cases cursor.resolve state key with
          | error failure => rfl
          | ok result =>
              cases result with
              | some found => rfl
              | none => exact inductionHypothesis (alike.advance start offered)

theorem Answers.of_next_eq {α : Type y}
    {next : σ → Option (Except ε (Option α) × σ)} {state state' : σ}
    (same : next state = next state') {items : List α} {outcome : Option ε}
    (answers : Answers next state' items outcome) :
    Answers next state items outcome := by
  cases answers with
  | ended call => exact .ended (same.trans call)
  | failed call => exact .failed (same.trans call)
  | answered call rest => exact .answered (same.trans call) rest

/-- What the calls give is determined by the state. -/
theorem Answers.unique {α : Type y}
    {next : σ → Option (Except ε (Option α) × σ)} {state : σ}
    {items items' : List α} {outcome outcome' : Option ε}
    (answers : Answers next state items outcome)
    (answers' : Answers next state items' outcome') :
    items = items' ∧ outcome = outcome' := by
  induction answers generalizing items' with
  | ended call =>
      cases answers' with
      | ended => exact ⟨rfl, rfl⟩
      | failed call' => simp [call] at call'
      | answered call' => simp [call] at call'
  | failed call =>
      cases answers' with
      | ended call' => simp [call] at call'
      | failed call' =>
          simp only [call, Option.some.injEq, Prod.mk.injEq,
            Except.error.injEq] at call'
          exact ⟨rfl, congrArg some call'.1⟩
      | answered call' => simp [call] at call'
  | answered call _ inductionHypothesis =>
      cases answers' with
      | ended call' => simp [call] at call'
      | failed call' => simp [call] at call'
      | answered call' rest' =>
          simp only [call, Option.some.injEq, Prod.mk.injEq,
            Except.ok.injEq] at call'
          rw [← call'.2] at rest'
          obtain ⟨same, ends⟩ := inductionHypothesis rest'
          rw [call'.1, same]
          exact ⟨rfl, ends⟩

theorem Walks.answers
    (walks : Walks cursor Pending value) {rounds : σ → Nat}
    (enough : ∀ state keys, Pending state keys → keys.length < rounds state)
    {state : σ} {keys : List κ} (pending : Pending state keys) :
    Answers (fun state => cursor.next (rounds state) state) state
      (collect value keys).1 (collect value keys).2 := by
  induction keys generalizing state with
  | nil =>
      apply @Answers.ended _ _ _ _ state state
      have positive := enough state [] pending
      cases fuel : rounds state with
      | zero =>
          rw [fuel] at positive
          exact absurd positive (Nat.not_lt_zero _)
      | succ fuel' =>
          simp only [Cursor.next, walks.nextKey pending, List.head?]
  | cons key rest inductionHypothesis =>
      have behind := inductionHypothesis (walks.advance pending)
      have positive := enough state (key :: rest) pending
      cases fuel : rounds state with
      | zero =>
          rw [fuel] at positive
          exact absurd positive (Nat.not_lt_zero _)
      | succ fuel' =>
          rw [fuel] at positive
          have round : cursor.next (rounds state) state =
              match value key with
              | .error failure => some (.error failure, state)
              | .ok (some found) =>
                  some (.ok (some (key, found)), cursor.advance state key)
              | .ok none => cursor.next fuel' (cursor.advance state key) := by
            rw [fuel, Cursor.next, walks.nextKey pending,
              List.head?_cons]
            simp only
            rw [walks.resolve pending]
          rw [collect]
          cases resolved : value key with
          | error failure =>
              rw [resolved] at round
              exact Answers.failed round
          | ok result =>
              rw [resolved] at round
              cases result with
              | some found => exact Answers.answered round behind
              | none =>
                  apply Answers.of_next_eq _ behind
                  exact round.trans (walks.next_fuel (walks.advance pending)
                    (Nat.lt_of_succ_lt_succ positive)
                    (enough _ _ (walks.advance pending)))

theorem Walks.page
    (walks : Walks cursor Pending value) (max : Nat) {state : σ}
    {keys : List κ} (pending : Pending state keys) {fuel : Nat}
    (enough : keys.length < fuel) (items : List (κ × β))
    (within : items.length ≤ max) :
    ∃ state' keys', Pending state' keys' ∧
      collect value keys' =
        ((collect value keys).1.drop (max - items.length),
          (collect value keys).2) ∧
      cursor.page max fuel state items =
        some (cutPage max (items ++ (collect value keys).1)
          (collect value keys).2, state') := by
  induction keys generalizing state fuel items with
  | nil =>
      cases fuel with
      | zero => exact absurd enough (Nat.not_lt_zero _)
      | succ fuel =>
          refine ⟨state, [], pending, by simp [collect], ?_⟩
          rw [Cursor.page, walks.nextKey pending, collect, List.append_nil,
            cutPage]
          by_cases room : items.length < max
          · rw [if_pos room, if_neg (Nat.not_le.mpr room)]
            rfl
          · rw [if_neg room, if_pos (Nat.not_lt.mp room),
              List.take_of_length_le within]
  | cons key rest inductionHypothesis =>
      cases fuel with
      | zero => exact absurd enough (Nat.not_lt_zero _)
      | succ fuel =>
          have fuelLeft := Nat.lt_of_succ_lt_succ enough
          rw [Cursor.page]
          by_cases room : items.length < max
          · rw [if_pos room, walks.nextKey pending, List.head?_cons]
            simp only
            rw [walks.resolve pending, collect]
            cases resolved : value key with
            | error failure =>
                refine ⟨state, key :: rest, pending, ?_, ?_⟩
                · rw [collect, resolved]
                  simp
                · simp only [List.append_nil, cutPage, if_neg (Nat.not_le.mpr room)]
            | ok result =>
                cases result with
                | none =>
                    exact inductionHypothesis (walks.advance pending)
                      fuelLeft items within
                | some found =>
                    have longer :
                        (items ++ [(key, found)]).length ≤ max := by
                      rw [List.length_append]
                      exact room
                    have split := inductionHypothesis
                      (walks.advance pending) fuelLeft
                      (items ++ [(key, found)]) longer
                    rcases split with ⟨state', keys', after, left, call⟩
                    refine ⟨state', keys', after, ?_, ?_⟩
                    · rw [left, List.length_append]
                      have positive : max - items.length =
                          max - (items.length + [(key, found)].length) +
                            1 := by
                        rw [List.length_singleton]
                        omega
                      rw [positive, List.drop_succ_cons]
                    · rw [List.append_assoc] at call
                      exact call
          · have full : items.length = max :=
              Nat.le_antisymm within (Nat.not_lt.mp room)
            refine ⟨state, key :: rest, pending, ?_, ?_⟩
            · rw [full, Nat.sub_self, List.drop_zero]
            · have whole : max ≤
                  (items ++ (collect value (key :: rest)).1).length := by
                rw [List.length_append, full]
                exact Nat.le_add_right _ _
              unfold cutPage
              rw [if_neg room, if_pos whole, ← full, List.take_left]

theorem Walks.pages
    (walks : Walks cursor Pending value) {rounds : σ → Nat}
    (enough : ∀ state keys, Pending state keys → keys.length < rounds state)
    (sizes : List Nat) {state : σ} {keys : List κ}
    (pending : Pending state keys) :
    pages (fun max state => cursor.page max (rounds state) state []) sizes
        state =
      some (cut (collect value keys).2 sizes (collect value keys).1) := by
  induction sizes generalizing state keys with
  | nil => rfl
  | cons max sizes inductionHypothesis =>
      have first := walks.page max pending (enough state keys pending) []
        (Nat.zero_le max)
      rcases first with ⟨state', keys', after, left, call⟩
      have behind := inductionHypothesis after
      rw [left, List.length_nil, Nat.sub_zero] at behind
      simp only [Cursors.pages, call, behind, Option.map_some,
        List.nil_append, cut]

theorem Walks.forEach
    (walks : Walks cursor Pending value) {ω : Type y} {π : Type w}
    (payload : β → Option π) (visit : ω → κ → π → Bool × ω) {state : σ}
    {keys : List κ} (pending : Pending state keys) {fuel : Nat}
    (enough : keys.length < fuel) (visitor : ω) :
    cursor.forEach payload visit fuel state visitor =
      some (visitResult (visitAll payload visit (collect value keys).1 visitor)
        (collect value keys).2) := by
  induction keys generalizing state fuel visitor with
  | nil =>
      cases fuel with
      | zero => exact absurd enough (Nat.not_lt_zero _)
      | succ fuel =>
          rw [Cursor.forEach, walks.nextKey pending]
          rfl
  | cons key rest inductionHypothesis =>
      cases fuel with
      | zero => exact absurd enough (Nat.not_lt_zero _)
      | succ fuel =>
          have behind := inductionHypothesis (walks.advance pending)
            (Nat.lt_of_succ_lt_succ enough)
          rw [Cursor.forEach, walks.nextKey pending, List.head?_cons]
          simp only
          rw [walks.resolve pending, collect]
          cases resolved : value key with
          | error failure => rfl
          | ok result =>
              cases result with
              | none => exact behind visitor
              | some found =>
                  simp only [Option.bind_some, visitAll]
                  cases payload found with
                  | none => exact behind visitor
                  | some shown =>
                      simp only
                      rcases visit visitor key shown with ⟨goes, visitor'⟩
                      cases goes with
                      | true => exact behind visitor'
                      | false => rfl

/-! ## What is collected from keys in order -/

section

variable {keys : List κ}

theorem collect_eq_none_iff :
    (collect value keys).2 = none ↔
      ∀ key ∈ keys, ∀ failure, value key ≠ .error failure := by
  induction keys with
  | nil => simp [collect]
  | cons key rest inductionHypothesis =>
      rw [collect, List.forall_mem_cons]
      cases resolved : value key with
      | error failure =>
          simp only [reduceCtorEq, false_iff, not_and]
          intro fine
          exact absurd rfl (fine failure)
      | ok result =>
          cases result with
          | none => simpa using inductionHypothesis
          | some found => simpa using inductionHypothesis

theorem collect_of_ok
    {shown : κ → Option β} (all : ∀ key ∈ keys, value key = .ok (shown key)) :
    collect value keys =
      (keys.filterMap fun key => (shown key).map (key, ·), none) := by
  induction keys with
  | nil => rfl
  | cons key rest inductionHypothesis =>
      have behind := inductionHypothesis
        fun other member => all other (List.mem_cons_of_mem _ member)
      rw [collect, all key List.mem_cons_self, List.filterMap_cons, behind]
      cases shown key <;> rfl

theorem collect_sublist (value : κ → Except ε (Option β)) :
    ((collect value keys).1.map Prod.fst).Sublist keys := by
  induction keys with
  | nil => exact List.Sublist.slnil
  | cons key rest inductionHypothesis =>
      rw [collect]
      cases value key with
      | error failure => exact List.nil_sublist _
      | ok result =>
          cases result with
          | none => exact inductionHypothesis.cons key
          | some found => exact inductionHypothesis.cons_cons key

theorem mem_collect [Preorder κ]
    (ascending : keys.Pairwise (· < ·)) {key : κ} {found : β} :
    (key, found) ∈ (collect value keys).1 ↔
      (key ∈ keys ∧ value key = .ok (some found)) ∧
        ∀ other ∈ keys, other < key →
          ∀ failure, value other ≠ .error failure := by
  induction keys with
  | nil => simp [collect]
  | cons first rest inductionHypothesis =>
      have ordered := List.pairwise_cons.mp ascending
      have behind := inductionHypothesis ordered.2
      rw [List.forall_mem_cons, List.mem_cons]
      rw [collect]
      cases resolved : value first with
      | error failure =>
          simp only [List.not_mem_nil, false_iff, not_and]
          rintro ⟨here | later, hit⟩ fine
          · rw [here, resolved] at hit
            exact absurd hit (by simp)
          · exact absurd rfl (fine (ordered.1 key later) failure)
      | ok result =>
          have skipped : (key, found) ∈ (collect value rest).1 ↔
              (key ∈ rest ∧ value key = .ok (some found)) ∧
                (first < key → ∀ failure, Except.ok result ≠
                  (Except.error failure : Except ε (Option β))) ∧
                ∀ other ∈ rest, other < key →
                  ∀ failure, value other ≠ .error failure := by
            rw [behind]
            simp
          cases result with
          | none =>
              simp only
              rw [skipped]
              constructor
              · rintro ⟨⟨later, hit⟩, fine⟩
                exact ⟨⟨Or.inr later, hit⟩, fine⟩
              · rintro ⟨⟨here | later, hit⟩, fine⟩
                · rw [here, resolved] at hit
                  exact absurd hit (by simp)
                · exact ⟨⟨later, hit⟩, fine⟩
          | some shown =>
              simp only [List.mem_cons, Prod.mk.injEq]
              rw [skipped]
              constructor
              · rintro (⟨here, same⟩ | ⟨⟨later, hit⟩, fine⟩)
                · refine ⟨⟨Or.inl here, by rw [here, resolved, same]⟩, ?_, ?_⟩
                  · exact fun _ _ => by simp
                  · intro other member less
                    rw [here] at less
                    exact absurd (ordered.1 other member)
                      (lt_asymm less)
                · exact ⟨⟨Or.inr later, hit⟩, fine⟩
              · rintro ⟨⟨here | later, hit⟩, fine⟩
                · rw [here, resolved] at hit
                  simp only [Except.ok.injEq, Option.some.injEq] at hit
                  exact Or.inl ⟨here, hit.symm⟩
                · exact Or.inr ⟨⟨later, hit⟩, fine⟩

end

end Cursors
