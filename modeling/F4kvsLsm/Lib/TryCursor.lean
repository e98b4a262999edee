import Mathlib.Algebra.GroupWithZero.Nat
import F4kvsLsm.Lib.Cursor
import F4kvsLsm.Lib.LockAttempts

/-!
# Cursors that do not wait for locks

A round of such a cursor is a round of a cursor, but every lock on its way is
only tried, and the loop gives up at the first one that it does not get.  When
the number of attempts of a round depends on the key alone, the attempts of
some rounds follow from the keys, so it is known from the pending keys in
which round a loop gives up and what it has done until then.
-/

namespace Cursors

open LockAttempts

variable {σ κ β ε ω π α : Type}

structure TryCursor (σ κ β ε : Type) where
  nextKey : σ → StateT Nat Option (Option κ)
  resolve : σ → κ → StateT Nat Option (Except ε (Option β))
  advance : σ → κ → σ

/-- Why a loop leaves without an answer. -/
inductive GiveUp (ε : Type) where
  | unavailable
  | failed (failure : ε)

inductive LoopEnd (ε : Type) where
  | gaveUp (reason : GiveUp ε)
  | exhausted
  | full
  | stopped

/-- The answer without an answer: nothing, or the failure. -/
def GiveUp.answer : GiveUp ε → Option (Except ε α)
  | unavailable => none
  | failed failure => some (.error failure)

/-! ## The loops -/

namespace TryCursor

variable (cursor : TryCursor σ κ β ε)

/-- Rounds until `full` holds before a round, or until `take` says `false`
about a key and what it resolved to.  The state is a reference that the caller
keeps; `none` is a loop that ran out of fuel. -/
def loop (full : ω → Bool) (take : ω → κ → Option β → Bool × ω) :
    Nat → σ → Nat → ω → Option (LoopEnd ε × σ × ω)
  | 0, _, _, _ => none
  | fuel + 1, state, time, gathered =>
      if full gathered then some (.full, state, gathered)
      else
        match (cursor.nextKey state).run time with
        | none => some (.gaveUp .unavailable, state, gathered)
        | some (none, _) => some (.exhausted, state, gathered)
        | some (some key, time) =>
            match (cursor.resolve state key).run time with
            | none => some (.gaveUp .unavailable, state, gathered)
            | some (.error failure, _) =>
                some (.gaveUp (.failed failure), state, gathered)
            | some (.ok resolved, time) =>
                match take gathered key resolved with
                | (true, gathered) =>
                    loop full take fuel (cursor.advance state key) time
                      gathered
                | (false, gathered) =>
                    some (.stopped, cursor.advance state key, gathered)

end TryCursor

/-- A page grows by the keys that resolve to a value. -/
def pageTake (items : List (κ × β)) (key : κ) (resolved : Option β) :
    Bool × List (κ × β) :=
  match resolved with
  | some value => (true, items ++ [(key, value)])
  | none => (true, items)

def pageAnswer (items : List (κ × β)) :
    LoopEnd ε → Option (Except ε (List (κ × β) × Bool))
  | .gaveUp reason => reason.answer
  | .exhausted => some (.ok (items, true))
  | .full | .stopped => some (.ok (items, false))

/-- A visitor is shown the payloads. -/
def visitTake (payload : β → Option π) (visit : ω → κ → π → Bool × ω)
    (visitor : ω) (key : κ) (resolved : Option β) : Bool × ω :=
  match resolved.bind payload with
  | some shown => visit visitor key shown
  | none => (true, visitor)

def visitAnswer : LoopEnd ε → Option (Except ε Unit)
  | .gaveUp reason => reason.answer
  | .exhausted | .full | .stopped => some (.ok ())

namespace TryCursor

variable (cursor : TryCursor σ κ β ε)

/-- `none` in the answer is a lock that was taken. -/
def page (max fuel : Nat) (state : σ) (time : Nat) :
    Option (Option (Except ε (List (κ × β) × Bool)) × σ) :=
  (cursor.loop (fun items => decide (max ≤ items.length)) pageTake fuel state
    time []).map fun ended => (pageAnswer ended.2.2 ended.1, ended.2.1)

def forEach (payload : β → Option π) (visit : ω → κ → π → Bool × ω)
    (fuel : Nat) (state : σ) (time : Nat) (visitor : ω) :
    Option (Option (Except ε Unit) × ω) :=
  (cursor.loop (fun _ => false) (visitTake payload visit) fuel state time
    visitor).map fun ended => (visitAnswer ended.1, ended.2.2)

end TryCursor

/-! ## Counted attempts -/

/-- The attempts for the next key, and to resolve a key. -/
structure LockCosts (κ : Type) where
  nextKey : Nat
  resolve : κ → Nat

namespace LockCosts

variable (costs : LockCosts κ)

def round (key : κ) : Nat :=
  costs.nextKey + costs.resolve key

/-- The attempts of the rounds for these keys. -/
def rounds (keys : List κ) : Nat :=
  (keys.map costs.round).sum

/-- The round that comes to the first of these keys gives up. -/
def GivesUp (free : Nat → Bool) (value : κ → Except ε (Option β))
    (start : Nat) : List κ → GiveUp ε → Prop
  | [], .unavailable => ¬ Granted free start costs.nextKey
  | key :: _, .unavailable => ¬ Granted free start (costs.round key)
  | [], .failed _ => False
  | key :: _, .failed failure =>
      Granted free start (costs.round key) ∧ value key = .error failure

end LockCosts

/-- The cursor does the rounds of another one, with these attempts. -/
structure Tries (free : Nat → Bool) (cursor : TryCursor σ κ β ε)
    (costs : LockCosts κ) (plain : Cursor σ κ β ε) : Prop where
  nextKey : ∀ state, Takes free (cursor.nextKey state) costs.nextKey
    (plain.nextKey state)
  resolve : ∀ state key, Takes free (cursor.resolve state key)
    (costs.resolve key) (plain.resolve state key)
  advance : ∀ state key, cursor.advance state key = plain.advance state key

/-- What a loop has gathered when it goes on after the rounds for these
keys. -/
def passes (full : ω → Bool) (take : ω → κ → Option β → Bool × ω)
    (value : κ → Except ε (Option β)) : List κ → ω → Option ω
  | [], gathered => some gathered
  | key :: rest, gathered =>
      if full gathered then none
      else
        match value key with
        | .error _ => none
        | .ok resolved =>
            match take gathered key resolved with
            | (true, gathered) => passes full take value rest gathered
            | (false, _) => none

/-! ## In which round a loop gives up -/

section

variable {free : Nat → Bool} {cursor : TryCursor σ κ β ε}
variable {costs : LockCosts κ} {plain : Cursor σ κ β ε}
variable {Pending : σ → List κ → Prop} {value : κ → Except ε (Option β)}
variable {full : ω → Bool} {take : ω → κ → Option β → Bool × ω}

/-- A round that is not refused a lock and does not fail. -/
theorem Tries.loop_round
    (tries : Tries free cursor costs plain)
    (walks : Walks plain Pending value) {state : σ} {key : κ} {rest : List κ}
    (pending : Pending state (key :: rest)) {start : Nat}
    (granted : Granted free start (costs.round key)) (fuel : Nat)
    {gathered : ω} (room : full gathered = false) :
    cursor.loop full take (fuel + 1) state start gathered =
      match value key with
      | .error failure =>
          some (.gaveUp (.failed failure), state, gathered)
      | .ok resolved =>
          match take gathered key resolved with
          | (true, gathered) =>
              cursor.loop full take fuel (plain.advance state key)
                (start + costs.round key) gathered
          | (false, gathered) =>
              some (.stopped, plain.advance state key, gathered) := by
  have parts := granted_add_iff.mp granted
  have offered := (tries.nextKey state).run_granted parts.1
  rw [walks.nextKey pending, List.head?_cons] at offered
  have resolved := (tries.resolve state key).run_granted parts.2
  rw [walks.resolve pending, Nat.add_assoc] at resolved
  rw [TryCursor.loop, room, if_neg Bool.false_ne_true, offered]
  simp only
  rw [resolved]
  cases value key with
  | error failure => rfl
  | ok found =>
      simp only
      rw [tries.advance]
      rfl

theorem Tries.loop_refused
    (tries : Tries free cursor costs plain)
    (walks : Walks plain Pending value) {state : σ} {key : κ} {rest : List κ}
    (pending : Pending state (key :: rest)) {start : Nat}
    (refused : ¬ Granted free start (costs.round key)) (fuel : Nat)
    {gathered : ω} (room : full gathered = false) :
    cursor.loop full take (fuel + 1) state start gathered =
      some (.gaveUp .unavailable, state, gathered) := by
  rw [TryCursor.loop, room, if_neg Bool.false_ne_true]
  by_cases first : Granted free start costs.nextKey
  · have offered := (tries.nextKey state).run_granted first
    rw [walks.nextKey pending, List.head?_cons] at offered
    rw [offered]
    simp only
    rw [(tries.resolve state key).run_refused
      fun second => refused (granted_add_iff.mpr ⟨first, second⟩)]
  · rw [(tries.nextKey state).run_refused first]

theorem Tries.loop_last
    (tries : Tries free cursor costs plain)
    (walks : Walks plain Pending value) {state : σ}
    (pending : Pending state []) (start fuel : Nat) {gathered : ω}
    (room : full gathered = false) :
    cursor.loop full take (fuel + 1) state start gathered =
      if Granted free start costs.nextKey then
        some (.exhausted, state, gathered)
      else some (.gaveUp .unavailable, state, gathered) := by
  rw [TryCursor.loop, room, if_neg Bool.false_ne_true]
  by_cases granted : Granted free start costs.nextKey
  · have offered := (tries.nextKey state).run_granted granted
    rw [walks.nextKey pending, List.head?_nil] at offered
    rw [offered, if_pos granted]
  · rw [(tries.nextKey state).run_refused granted, if_neg granted]

theorem TryCursor.loop_full
    {state : σ} {start fuel : Nat} {gathered : ω}
    (isFull : full gathered = true) :
    cursor.loop full take (fuel + 1) state start gathered =
      some (.full, state, gathered) := by
  rw [TryCursor.loop, isFull, if_pos rfl]

theorem Tries.loop_ends
    (tries : Tries free cursor costs plain)
    (walks : Walks plain Pending value) {state : σ} {keys : List κ}
    (pending : Pending state keys) {fuel : Nat} (enough : keys.length < fuel)
    (start : Nat) (gathered : ω) :
    ∃ ended, cursor.loop full take fuel state start gathered = some ended := by
  induction keys generalizing state fuel start gathered with
  | nil =>
      cases fuel with
      | zero => exact absurd enough (Nat.not_lt_zero _)
      | succ fuel =>
          cases isFull : full gathered with
          | true => exact ⟨_, cursor.loop_full isFull⟩
          | false =>
              rw [tries.loop_last walks pending start fuel isFull]
              split
              · exact ⟨_, rfl⟩
              · exact ⟨_, rfl⟩
  | cons key rest inductionHypothesis =>
      cases fuel with
      | zero => exact absurd enough (Nat.not_lt_zero _)
      | succ fuel =>
          cases isFull : full gathered with
          | true => exact ⟨_, cursor.loop_full isFull⟩
          | false =>
              by_cases granted : Granted free start (costs.round key)
              · rw [tries.loop_round walks pending granted fuel isFull]
                cases value key with
                | error failure => exact ⟨_, rfl⟩
                | ok resolved =>
                    simp only
                    rcases take gathered key resolved with ⟨goes, gathered'⟩
                    cases goes with
                    | true =>
                        exact inductionHypothesis (walks.advance pending)
                          (Nat.lt_of_succ_lt_succ enough) _ _
                    | false => exact ⟨_, rfl⟩
              · rw [tries.loop_refused walks pending granted fuel isFull]
                exact ⟨_, rfl⟩

/-- The loop goes on after the rounds for the first keys, and the round after
them gives up. -/
structure GivesUpAfter (free : Nat → Bool) (costs : LockCosts κ)
    (value : κ → Except ε (Option β)) (full : ω → Bool)
    (take : ω → κ → Option β → Bool × ω) (start : Nat) (gathered : ω)
    (front back : List κ) (reason : GiveUp ε) (gathered' : ω) : Prop where
  passed : passes full take value front gathered = some gathered'
  granted : Granted free start (costs.rounds front)
  room : full gathered' = false
  givesUp : costs.GivesUp free value (start + costs.rounds front) back reason

theorem LockCosts.rounds_cons (costs : LockCosts κ) (key : κ)
    (rest : List κ) :
    costs.rounds (key :: rest) = costs.round key + costs.rounds rest :=
  List.sum_cons

theorem givesUpAfter_nil_iff
    {start : Nat} {gathered gathered' : ω} {back : List κ}
    {reason : GiveUp ε} :
    GivesUpAfter free costs value full take start gathered [] back reason
        gathered' ↔
      gathered' = gathered ∧ full gathered = false ∧
        costs.GivesUp free value start back reason := by
  constructor
  · rintro ⟨passed, -, room, givesUp⟩
    have same := Option.some.inj passed
    rw [← same] at room
    exact ⟨same.symm, room, givesUp⟩
  · rintro ⟨rfl, room, givesUp⟩
    exact ⟨rfl, granted_zero start, room, givesUp⟩

theorem givesUpAfter_cons_iff
    {start : Nat} {gathered gathered' : ω} {key : κ} {front back : List κ}
    {reason : GiveUp ε} :
    GivesUpAfter free costs value full take start gathered (key :: front) back
        reason gathered' ↔
      full gathered = false ∧ Granted free start (costs.round key) ∧
        ∃ resolved, value key = .ok resolved ∧
          ∃ taken, take gathered key resolved = (true, taken) ∧
            GivesUpAfter free costs value full take
              (start + costs.round key) taken front back reason
              gathered' := by
  constructor
  · rintro ⟨passed, granted, room, givesUp⟩
    rw [costs.rounds_cons] at granted givesUp
    have parts := granted_add_iff.mp granted
    rw [passes] at passed
    cases isFull : full gathered with
    | true =>
        rw [isFull, if_pos rfl] at passed
        exact absurd passed (by simp)
    | false =>
        rw [isFull, if_neg Bool.false_ne_true] at passed
        cases resolved : value key with
        | error failure =>
            rw [resolved] at passed
            exact absurd passed (by simp)
        | ok found =>
            rw [resolved] at passed
            simp only at passed
            rcases taken : take gathered key found with ⟨goes, gathered''⟩
            rw [taken] at passed
            cases goes with
            | false => exact absurd passed (by simp)
            | true =>
                rw [← Nat.add_assoc] at givesUp
                exact ⟨rfl, parts.1, found, rfl, gathered'', taken, passed,
                  parts.2, room, givesUp⟩
  · rintro ⟨isRoom, granted, found, resolved, taken, takes, behind⟩
    constructor
    case passed =>
      rw [passes, isRoom, if_neg Bool.false_ne_true, resolved]
      simp only
      rw [takes]
      exact behind.passed
    case granted =>
      rw [costs.rounds_cons]
      exact granted_add_iff.mpr ⟨granted, behind.granted⟩
    case room => exact behind.room
    case givesUp =>
      rw [costs.rounds_cons, ← Nat.add_assoc]
      exact behind.givesUp

/-- A loop gives up in the round for the first key, or goes on after it and
gives up later. -/
theorem exists_givesUpAfter_cons_iff
    {start : Nat} {gathered gathered' : ω} {key : κ} {rest : List κ}
    {reason : GiveUp ε} {state state' : σ} :
    (∃ front back, key :: rest = front ++ back ∧
        GivesUpAfter free costs value full take start gathered front back
          reason gathered' ∧
        state' = front.foldl plain.advance state) ↔
      (gathered' = gathered ∧ full gathered = false ∧
          costs.GivesUp free value start (key :: rest) reason ∧
          state' = state) ∨
        full gathered = false ∧ Granted free start (costs.round key) ∧
          ∃ resolved, value key = .ok resolved ∧
            ∃ taken, take gathered key resolved = (true, taken) ∧
              ∃ front back, rest = front ++ back ∧
                GivesUpAfter free costs value full take
                  (start + costs.round key) taken front back reason
                  gathered' ∧
                state' = front.foldl plain.advance
                  (plain.advance state key) := by
  constructor
  · rintro ⟨front, back, split, givesUp, left⟩
    rcases List.cons_eq_append_iff.mp split with
      ⟨rfl, rfl⟩ | ⟨behind, rfl, cutRest⟩
    · rcases givesUpAfter_nil_iff.mp givesUp with ⟨same, room, here⟩
      exact Or.inl ⟨same, room, here, left⟩
    · rcases givesUpAfter_cons_iff.mp givesUp with
        ⟨room, granted, resolved, found, taken, takes, later⟩
      exact Or.inr ⟨room, granted, resolved, found, taken, takes, behind,
        back, cutRest, later, left⟩
  · rintro (⟨same, room, here, left⟩ |
      ⟨room, granted, resolved, found, taken, takes, front, back, split,
        later, left⟩)
    · exact ⟨[], key :: rest, rfl,
        givesUpAfter_nil_iff.mpr ⟨same, room, here⟩, left⟩
    · refine ⟨key :: front, back, by rw [split, List.cons_append], ?_, left⟩
      exact givesUpAfter_cons_iff.mpr
        ⟨room, granted, resolved, found, taken, takes, later⟩

/-- Where a loop gives up, and what it leaves. -/
theorem Tries.loop_gaveUp_iff
    (tries : Tries free cursor costs plain)
    (walks : Walks plain Pending value) {state : σ} {keys : List κ}
    (pending : Pending state keys) {fuel : Nat} (enough : keys.length < fuel)
    (start : Nat) (gathered : ω) {reason : GiveUp ε} {state' : σ}
    {gathered' : ω} :
    cursor.loop full take fuel state start gathered =
        some (.gaveUp reason, state', gathered') ↔
      ∃ front back, keys = front ++ back ∧
        GivesUpAfter free costs value full take start gathered front back
          reason gathered' ∧
        state' = front.foldl plain.advance state := by
  induction keys generalizing state fuel start gathered with
  | nil =>
      cases fuel with
      | zero => exact absurd enough (Nat.not_lt_zero _)
      | succ fuel =>
          simp only [List.nil_eq, List.append_eq_nil_iff, and_assoc,
            exists_and_left, exists_eq_left, givesUpAfter_nil_iff,
            List.foldl_nil]
          cases isFull : full gathered with
          | true =>
              rw [cursor.loop_full isFull]
              simp
          | false =>
              rw [tries.loop_last walks pending start fuel isFull]
              by_cases granted : Granted free start costs.nextKey
              · rw [if_pos granted]
                cases reason with
                | unavailable => simp [LockCosts.GivesUp, granted]
                | failed failure => simp [LockCosts.GivesUp]
              · rw [if_neg granted]
                cases reason with
                | unavailable =>
                    simp only [LockCosts.GivesUp, granted, Option.some.injEq,
                      Prod.mk.injEq, true_and]
                    constructor
                    · rintro ⟨rfl, rfl⟩
                      simp
                    · rintro ⟨rfl, -, rfl⟩
                      simp
                | failed failure => simp [LockCosts.GivesUp]
  | cons key rest inductionHypothesis =>
      rw [exists_givesUpAfter_cons_iff]
      cases fuel with
      | zero => exact absurd enough (Nat.not_lt_zero _)
      | succ fuel =>
          have behind := fun start gathered => @inductionHypothesis
            (plain.advance state key) (walks.advance pending) fuel
            (Nat.lt_of_succ_lt_succ enough) start gathered
          cases isFull : full gathered with
          | true =>
              rw [cursor.loop_full isFull]
              simp
          | false =>
              by_cases granted : Granted free start (costs.round key)
              · rw [tries.loop_round walks pending granted fuel isFull]
                cases resolved : value key with
                | error failure =>
                    cases reason with
                    | unavailable => simp [LockCosts.GivesUp, granted]
                    | failed other =>
                        simp only [LockCosts.GivesUp, granted, resolved]
                        constructor
                        · intro same
                          simp only [Option.some.injEq, Prod.mk.injEq,
                            LoopEnd.gaveUp.injEq, GiveUp.failed.injEq] at same
                          rcases same with ⟨rfl, rfl, rfl⟩
                          simp
                        · rintro (⟨rfl, -, ⟨-, same⟩, rfl⟩ | ⟨-, -, later⟩)
                          · rw [Except.error.inj same]
                          · simp at later
                | ok found =>
                    have apart : ¬ costs.GivesUp free value start
                        (key :: rest) reason := by
                      cases reason with
                      | unavailable => simp [LockCosts.GivesUp, granted]
                      | failed failure =>
                          simp [LockCosts.GivesUp, resolved]
                    simp only [apart, false_and, and_false, false_or,
                      granted, true_and, Except.ok.injEq, exists_eq_left']
                    rcases taken : take gathered key found with
                      ⟨goes, gathered''⟩
                    cases goes with
                    | true =>
                        simp only [Prod.mk.injEq, true_and, exists_eq_left']
                        exact behind _ _
                    | false => simp
              · rw [tries.loop_refused walks pending granted fuel isFull]
                cases reason with
                | unavailable =>
                    simp only [LockCosts.GivesUp, granted, Option.some.injEq,
                      Prod.mk.injEq, true_and, false_and, and_false,
                      not_false_eq_true, or_false]
                    constructor
                    · rintro ⟨rfl, rfl⟩
                      exact ⟨rfl, rfl⟩
                    · rintro ⟨rfl, rfl⟩
                      exact ⟨rfl, rfl⟩
                | failed failure => simp [LockCosts.GivesUp, granted]

/-! ## Pages and visits that give up -/

/-- The rounds for the first keys finish, and the round after them gives
up. -/
structure LeavesAfter (free : Nat → Bool) (costs : LockCosts κ)
    (value : κ → Except ε (Option β)) (start : Nat) (front back : List κ)
    (reason : GiveUp ε) : Prop where
  resolved : (collect value front).2 = none
  granted : Granted free start (costs.rounds front)
  givesUp : costs.GivesUp free value (start + costs.rounds front) back reason

theorem passes_page_iff
    {max : Nat} {keys : List κ} {items items' : List (κ × β)}
    (room : items'.length < max) :
    passes (fun items => decide (max ≤ items.length)) pageTake value keys
        items = some items' ↔
      (collect value keys).2 = none ∧
        items ++ (collect value keys).1 = items' := by
  induction keys generalizing items with
  | nil => simp [passes, collect]
  | cons key rest inductionHypothesis =>
      rw [passes, collect]
      by_cases isFull : max ≤ items.length
      · rw [decide_eq_true isFull, if_pos rfl]
        constructor
        · exact fun absurdly => absurd absurdly (by simp)
        · rintro ⟨-, rfl⟩
          rw [List.length_append] at room
          omega
      · rw [decide_eq_false isFull, if_neg Bool.false_ne_true]
        cases value key with
        | error failure => simp
        | ok resolved =>
            cases resolved with
            | none => exact inductionHypothesis
            | some found =>
                refine Iff.trans inductionHypothesis ?_
                rw [List.append_assoc, List.singleton_append]

theorem passes_visit_iff
    {payload : β → Option π} {visit : ω → κ → π → Bool × ω} {keys : List κ}
    {visitor visitor' : ω} :
    passes (fun _ => false) (visitTake payload visit) value keys visitor =
        some visitor' ↔
      (collect value keys).2 = none ∧
        visitAll payload visit (collect value keys).1 visitor =
          (true, visitor') := by
  induction keys generalizing visitor with
  | nil => simp [passes, collect, visitAll]
  | cons key rest inductionHypothesis =>
      rw [passes, collect, if_neg Bool.false_ne_true]
      cases value key with
      | error failure => simp
      | ok resolved =>
          cases resolved with
          | none => exact inductionHypothesis
          | some found =>
              simp only [visitTake, Option.bind_some, visitAll]
              cases payload found with
              | none => exact inductionHypothesis
              | some shown =>
                  simp only
                  rcases visit visitor key shown with ⟨goes, visitor''⟩
                  cases goes with
                  | true => exact inductionHypothesis
                  | false => simp

theorem GiveUp.answer_inj {reason reason' : GiveUp ε} :
    (reason.answer : Option (Except ε α)) = reason'.answer ↔
      reason = reason' := by
  cases reason <;> cases reason' <;> simp [GiveUp.answer]

theorem GiveUp.exists_answer_of_ne_ok
    {answer : Option (Except ε α)}
    (noResult : ∀ result, answer ≠ some (.ok result)) :
    ∃ reason : GiveUp ε, answer = reason.answer := by
  match answer with
  | none => exact ⟨.unavailable, rfl⟩
  | some (.error failure) => exact ⟨.failed failure, rfl⟩
  | some (.ok result) => exact absurd rfl (noResult result)

theorem GiveUp.answer_ne_ok (reason : GiveUp ε) (result : α) :
    reason.answer ≠ some (.ok result) := by
  cases reason <;> simp [GiveUp.answer]

theorem pageAnswer_eq_iff
    {items : List (κ × β)} {ended : LoopEnd ε} {reason : GiveUp ε} :
    pageAnswer items ended = reason.answer ↔ ended = .gaveUp reason := by
  cases ended with
  | gaveUp other => simp [pageAnswer, GiveUp.answer_inj]
  | exhausted => simp [pageAnswer, (reason.answer_ne_ok _).symm]
  | full => simp [pageAnswer, (reason.answer_ne_ok _).symm]
  | stopped => simp [pageAnswer, (reason.answer_ne_ok _).symm]

theorem visitAnswer_eq_iff
    {ended : LoopEnd ε} {reason : GiveUp ε} :
    visitAnswer ended = reason.answer ↔ ended = .gaveUp reason := by
  cases ended with
  | gaveUp other => simp [visitAnswer, GiveUp.answer_inj]
  | exhausted => simp [visitAnswer, (reason.answer_ne_ok _).symm]
  | full => simp [visitAnswer, (reason.answer_ne_ok _).symm]
  | stopped => simp [visitAnswer, (reason.answer_ne_ok _).symm]

theorem Tries.page_gaveUp_iff
    (tries : Tries free cursor costs plain)
    (walks : Walks plain Pending value) {state : σ} {keys : List κ}
    (pending : Pending state keys) {fuel : Nat} (enough : keys.length < fuel)
    (start max : Nat) {reason : GiveUp ε} {state' : σ} :
    cursor.page max fuel state start = some (reason.answer, state') ↔
      ∃ front back, keys = front ++ back ∧
        LeavesAfter free costs value start front back reason ∧
        (collect value front).1.length < max ∧
        state' = front.foldl plain.advance state := by
  rw [TryCursor.page, Option.map_eq_some_iff]
  constructor
  · rintro ⟨⟨ended, left, items⟩, run, same⟩
    simp only [Prod.mk.injEq, pageAnswer_eq_iff] at same
    rcases same with ⟨rfl, rfl⟩
    rcases (tries.loop_gaveUp_iff walks pending enough start []).mp run with
      ⟨front, back, cutKeys, givesUp, left⟩
    have room := of_decide_eq_false givesUp.room
    rw [Nat.not_le] at room
    have gathered := (passes_page_iff room).mp givesUp.passed
    refine ⟨front, back, cutKeys,
      ⟨gathered.1, givesUp.granted, givesUp.givesUp⟩, ?_, left⟩
    rw [← List.nil_append (collect value front).1, gathered.2]
    exact room
  · rintro ⟨front, back, cutKeys, leaves, room, left⟩
    refine ⟨(.gaveUp reason, state', (collect value front).1), ?_,
      by simp [pageAnswer]⟩
    apply (tries.loop_gaveUp_iff walks pending enough start []).mpr
    refine ⟨front, back, cutKeys, ⟨?_, leaves.granted,
      decide_eq_false (Nat.not_le.mpr room), leaves.givesUp⟩, left⟩
    exact (passes_page_iff room).mpr ⟨leaves.resolved, List.nil_append _⟩

theorem Tries.page_returns
    (tries : Tries free cursor costs plain)
    (walks : Walks plain Pending value) {state : σ} {keys : List κ}
    (pending : Pending state keys) {fuel : Nat} (enough : keys.length < fuel)
    (start max : Nat) :
    ∃ answer state', cursor.page max fuel state start =
      some (answer, state') := by
  rcases tries.loop_ends walks pending enough start [] with ⟨ended, run⟩
  rw [TryCursor.page, run]
  exact ⟨_, _, rfl⟩

theorem Tries.forEach_returns
    (tries : Tries free cursor costs plain)
    (walks : Walks plain Pending value) (payload : β → Option π)
    (visit : ω → κ → π → Bool × ω) {state : σ} {keys : List κ}
    (pending : Pending state keys) {fuel : Nat} (enough : keys.length < fuel)
    (start : Nat) (visitor : ω) :
    ∃ answer visitor', cursor.forEach payload visit fuel state start visitor =
      some (answer, visitor') := by
  rcases tries.loop_ends walks pending enough start visitor with ⟨ended, run⟩
  rw [TryCursor.forEach, run]
  exact ⟨_, _, rfl⟩

theorem Tries.forEach_gaveUp_iff
    (tries : Tries free cursor costs plain)
    (walks : Walks plain Pending value) (payload : β → Option π)
    (visit : ω → κ → π → Bool × ω) {state : σ} {keys : List κ}
    (pending : Pending state keys) {fuel : Nat} (enough : keys.length < fuel)
    (start : Nat) {visitor visitor' : ω} {reason : GiveUp ε} :
    cursor.forEach payload visit fuel state start visitor =
        some (reason.answer, visitor') ↔
      ∃ front back, keys = front ++ back ∧
        LeavesAfter free costs value start front back reason ∧
        visitAll payload visit (collect value front).1 visitor =
          (true, visitor') := by
  rw [TryCursor.forEach, Option.map_eq_some_iff]
  constructor
  · rintro ⟨⟨ended, left, gathered⟩, run, same⟩
    simp only [Prod.mk.injEq, visitAnswer_eq_iff] at same
    rcases same with ⟨rfl, rfl⟩
    rcases (tries.loop_gaveUp_iff walks pending enough start visitor).mp run
      with ⟨front, back, cutKeys, givesUp, -⟩
    have shown := passes_visit_iff.mp givesUp.passed
    exact ⟨front, back, cutKeys,
      ⟨shown.1, givesUp.granted, givesUp.givesUp⟩, shown.2⟩
  · rintro ⟨front, back, cutKeys, leaves, shown⟩
    refine ⟨(.gaveUp reason, front.foldl plain.advance state, visitor'), ?_,
      by simp [visitAnswer]⟩
    apply (tries.loop_gaveUp_iff walks pending enough start visitor).mpr
    exact ⟨front, back, cutKeys, ⟨passes_visit_iff.mpr
      ⟨leaves.resolved, shown⟩, leaves.granted, rfl, leaves.givesUp⟩, rfl⟩

end

end Cursors
