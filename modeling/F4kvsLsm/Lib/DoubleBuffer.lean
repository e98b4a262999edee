import F4kvsLsm.Lib.Newest

/-!
# Double buffering

A record with a stamp is kept in two slots.  Every version goes to the slot of
its stamp's parity, and the readable slot of the higher stamp counts.  While
the next version is being written its slot may hold anything that does not
read as a newer one.
-/

namespace DoubleBuffer

open Versions

universe u

/-- What the two slots read as; a slot that cannot be read is `none`. -/
structure Buffer (α : Type u) where
  even : Option α
  odd : Option α

variable {α : Type u} (stamp : α → Nat)

namespace Buffer

/-- The slot of a parity. -/
def get (buffer : Buffer α) (n : Nat) : Option α :=
  if n % 2 = 0 then buffer.even else buffer.odd

def put (buffer : Buffer α) (n : Nat) (slot : Option α) : Buffer α :=
  if n % 2 = 0 then { buffer with even := slot }
  else { buffer with odd := slot }

def candidates (buffer : Buffer α) : List α :=
  buffer.even.toList ++ buffer.odd.toList

/-- The version that counts. -/
def latest (buffer : Buffer α) : Option α :=
  newest stamp buffer.candidates

@[simp]
theorem get_put_self (buffer : Buffer α) (n : Nat) (slot : Option α) :
    (buffer.put n slot).get n = slot := by
  by_cases parity : n % 2 = 0
  · simp [get, put, parity]
  · simp [get, put, parity]

@[simp]
theorem get_put_succ (buffer : Buffer α) (n : Nat) (slot : Option α) :
    (buffer.put n slot).get (n + 1) = buffer.get (n + 1) := by
  by_cases parity : n % 2 = 0
  · have other : ¬ (n + 1) % 2 = 0 := by omega
    simp [get, put, parity, other]
  · have other : (n + 1) % 2 = 0 := by omega
    simp [get, put, parity, other]

theorem get_add_two (buffer : Buffer α) (n : Nat) :
    buffer.get (n + 2) = buffer.get n := by
  simp [get]

theorem mem_candidates {buffer : Buffer α} (n : Nat) {version : α} :
    version ∈ buffer.candidates ↔
      buffer.get n = some version ∨ buffer.get (n + 1) = some version := by
  by_cases parity : n % 2 = 0
  · have other : ¬ (n + 1) % 2 = 0 := by omega
    simp [candidates, get, parity, other]
  · have other : (n + 1) % 2 = 0 := by omega
    simp [candidates, get, parity, other, or_comm]

/-- `current` is in its slot, and the other slot is older or unreadable. -/
structure Holds (buffer : Buffer α) (current : α) : Prop where
  present : buffer.get (stamp current) = some current
  older : ∀ other, buffer.get (stamp current + 1) = some other →
    stamp other < stamp current

variable {stamp} {buffer : Buffer α} {current : α}

/-- What is held is what counts. -/
theorem Holds.latest_eq (holds : buffer.Holds stamp current) :
    buffer.latest stamp = some current := by
  cases found : buffer.latest stamp with
  | none =>
      have none := newest_eq_none_iff.mp found
      have member := (mem_candidates (stamp current)).mpr
        (Or.inl holds.present)
      rw [none] at member
      simp at member
  | some best =>
      obtain ⟨member, newest⟩ := newest_spec found
      have least := newest current
        ((mem_candidates (stamp current)).mpr (Or.inl holds.present))
      rcases (mem_candidates (stamp current)).mp member with here | behind
      · rw [← here, holds.present]
      · have := holds.older best behind
        omega

theorem holds_first (version : α) :
    ((⟨none, none⟩ : Buffer α).put (stamp version) (some version)).Holds
      stamp version := by
  constructor
  · exact get_put_self _ _ _
  · intro other found
    rw [get_put_succ] at found
    simp [get] at found

/-- The next version takes the other slot. -/
theorem Holds.next
    (holds : buffer.Holds stamp current) {version : α}
    (succ : stamp version = stamp current + 1) :
    (buffer.put (stamp version) (some version)).Holds stamp version := by
  constructor
  · exact get_put_self _ _ _
  · intro other found
    rw [get_put_succ, succ, get_add_two, holds.present,
      Option.some.injEq] at found
    rw [← found, succ]
    exact Nat.lt_succ_self _

theorem Holds.again
    (holds : buffer.Holds stamp current) {version : α}
    (same : stamp version = stamp current) :
    (buffer.put (stamp version) (some version)).Holds stamp version := by
  constructor
  · exact get_put_self _ _ _
  · intro other found
    rw [get_put_succ, same] at found
    rw [same]
    exact holds.older other found

/-- As long as the next version cannot be read, the current one counts. -/
theorem Holds.torn
    (holds : buffer.Holds stamp current) {slot : Option α}
    (unread : slot = none ∨ slot = buffer.get (stamp current + 1)) :
    (buffer.put (stamp current + 1) slot).Holds stamp current := by
  constructor
  · rw [← get_add_two, get_put_succ, get_add_two]
    exact holds.present
  · intro other found
    rw [get_put_self] at found
    rcases unread with lost | old
    · rw [lost] at found
      cases found
    · exact holds.older other (old ▸ found)

end Buffer

end DoubleBuffer
