import F4kvsLsm.Bincode
import F4kvsLsm.Lib.BitPacking

/-!
# Bloom filters

A table keeps a filter of its keys.  A lookup that the filter rules out does
not look any further, so the filter must not rule out a key that was added:
neither when it is empty or oversized, nor after it was written and read.
The hash of a key and a hash index is the first argument where it is used.
-/

namespace F4kvsLsm

open ByteCodec BitPacking

/-- Simple bloom filter implementation. -/
structure BloomFilter where
  bits : List Bool
  hashCount : Nat
  size : Nat
  deriving DecidableEq, Repr

namespace BloomFilter

/-- `size` is the number of bits, `hashCount` the number of hash functions. -/
def new (size hashCount : Nat) : BloomFilter :=
  ⟨List.replicate size false, hashCount, size⟩

/-- `Vec::resize` with `false`, and `Vec::truncate`. -/
def resizeBits (bits : List Bool) (size : Nat) : List Bool :=
  if bits.length < size then
    bits ++ List.replicate (size - bits.length) false
  else bits.take size

def validateAndFixInvariant (filter : BloomFilter) : BloomFilter :=
  if filter.bits.length ≠ filter.size then
    { filter with bits := resizeBits filter.bits filter.size }
  else filter

def isValid (filter : BloomFilter) : Bool :=
  filter.bits.length = filter.size ∧ filter.size > 0

/-- Set one bit, after a fix when it is out of bounds. -/
def setBit (filter : BloomFilter) (index : Nat) : BloomFilter :=
  if index < filter.bits.length then
    { filter with bits := filter.bits.set index true }
  else
    let filter := filter.validateAndFixInvariant
    if index < filter.bits.length then
      { filter with bits := filter.bits.set index true }
    else filter

section

variable (hash : String → Nat → Nat)

def add (filter : BloomFilter) (key : String) : BloomFilter :=
  let filter := filter.validateAndFixInvariant
  if filter.bits.isEmpty ∨ filter.size = 0 then filter
  else
    (List.range filter.hashCount).foldl
      (fun filter i => filter.setBit (hash key i % filter.size)) filter

/-- The bits of the remaining hash indices; a bit that is out of bounds ends
the loop as if the key might be present. -/
def testBits (filter : BloomFilter) (key : String) : List Nat → Bool
  | [] => true
  | i :: rest =>
      match filter.bits[hash key i % filter.size]? with
      | none => true
      | some bit => if !bit then false else testBits filter key rest

def mightContain (filter : BloomFilter) (key : String) : Bool :=
  if !filter.isValid then true
  else filter.testBits hash key (List.range filter.hashCount)

end

def toBytes (filter : BloomFilter) : Bytes :=
  encodeU32 filter.size ++ packBits filter.bits

/-- The largest filter that is read back, in bits. -/
def maxBloomSize : Nat := 100000000

/-- The last check of `from_bytes`. -/
def orEmpty (filter : BloomFilter) : BloomFilter :=
  let filter := filter.validateAndFixInvariant
  if !filter.isValid then new 0 filter.hashCount else filter

/-- Deserialize bloom filter from bytes; less than four bytes are an old
format without the size. -/
def fromBytes (bytes : Bytes) (hashCount : Nat) : BloomFilter :=
  if bytes.isEmpty then new 0 hashCount
  else if bytes.length < 4 then
    orEmpty ⟨unpackBits bytes, hashCount, bytes.length * 8⟩
  else
    let size := fromLeBytes (bytes.take 4)
    if size > maxBloomSize then new 0 hashCount
    else
      orEmpty ⟨resizeBits (unpackBits (bytes.drop 4)) size, hashCount, size⟩

/-! ## Single operations -/

/-- What every filter that the operations make satisfies. -/
structure Consistent (filter : BloomFilter) : Prop where
  length : filter.bits.length = filter.size
  short : filter.size < 2 ^ 32

theorem Consistent.fixed {filter : BloomFilter}
    (consistent : filter.Consistent) :
    filter.validateAndFixInvariant = filter := by
  rw [validateAndFixInvariant, if_neg (not_not.mpr consistent.length)]

theorem Consistent.isValid_iff {filter : BloomFilter}
    (consistent : filter.Consistent) :
    filter.isValid = true ↔ 0 < filter.size := by
  simp [isValid, consistent.length]

theorem new_consistent {size : Nat} (small : size < 2 ^ 32) (hashCount : Nat) :
    (new size hashCount).Consistent :=
  ⟨List.length_replicate, small⟩

/-- Every bit of the key is set, if the filter has any bits. -/
def Marks (hash : String → Nat → Nat) (filter : BloomFilter) (key : String) :
    Prop :=
  0 < filter.size → ∀ i < filter.hashCount,
    filter.bits[hash key i % filter.size]? = some true

theorem Consistent.setBit_eq {filter : BloomFilter} {index : Nat}
    (consistent : filter.Consistent) (inside : index < filter.size) :
    filter.setBit index =
      { filter with bits := filter.bits.set index true } := by
  rw [setBit, if_pos (consistent.length.symm ▸ inside)]

section

variable {hash : String → Nat → Nat} {filter : BloomFilter}

theorem testBits_of_marked {key : String} {indices : List Nat}
    (marked : ∀ i ∈ indices,
      filter.bits[hash key i % filter.size]? = some true) :
    filter.testBits hash key indices = true := by
  induction indices with
  | nil => rfl
  | cons i rest inductionHypothesis =>
      rw [testBits, marked i List.mem_cons_self]
      exact inductionHypothesis fun j member =>
        marked j (List.mem_cons_of_mem i member)

theorem Marks.mightContain {key : String}
    (marks : filter.Marks hash key) :
    filter.mightContain hash key = true := by
  rw [BloomFilter.mightContain]
  cases valid : filter.isValid with
  | false => rfl
  | true =>
      have positive : 0 < filter.size := by
        simp only [isValid, decide_eq_true_eq] at valid
        exact valid.2
      simp only [Bool.not_true, Bool.false_eq_true, if_false]
      apply testBits_of_marked
      intro i member
      exact marks positive i (List.mem_range.mp member)

/-- What the loop of `add` does to a filter with at least one bit. -/
theorem Consistent.setBits (consistent : filter.Consistent)
    (positive : 0 < filter.size) (hash : String → Nat → Nat) (key : String)
    (indices : List Nat) :
    let filter' := indices.foldl
      (fun filter i => filter.setBit (hash key i % filter.size)) filter
    filter'.Consistent ∧ filter'.size = filter.size ∧
      filter'.hashCount = filter.hashCount ∧
      (∀ position : Nat, filter.bits[position]? = some true →
        filter'.bits[position]? = some true) ∧
      ∀ i ∈ indices, filter'.bits[hash key i % filter.size]? = some true := by
  induction indices generalizing filter with
  | nil =>
      refine ⟨consistent, rfl, rfl, fun _ set => set, ?_⟩
      intro i member
      exact absurd member List.not_mem_nil
  | cons i rest inductionHypothesis =>
      have inside : hash key i % filter.size < filter.size :=
        Nat.mod_lt _ positive
      have step := consistent.setBit_eq inside
      have consistent' :
          (filter.setBit (hash key i % filter.size)).Consistent := by
        rw [step]
        exact ⟨by simp [consistent.length], consistent.short⟩
      have size : (filter.setBit (hash key i % filter.size)).size =
          filter.size := by
        rw [step]
      have kept : ∀ position : Nat, filter.bits[position]? = some true →
          (filter.setBit (hash key i % filter.size)).bits[position]? =
            some true := by
        intro position set
        obtain ⟨bound, -⟩ := List.getElem?_eq_some_iff.mp set
        rw [step, List.getElem?_set]
        split
        · rw [if_pos (by omega)]
        · exact set
      have done : (filter.setBit (hash key i % filter.size)).bits[
          hash key i % filter.size]? = some true := by
        rw [step, List.getElem?_set_self (consistent.length.symm ▸ inside)]
      have later := inductionHypothesis consistent' (size.symm ▸ positive)
      rw [size] at later
      obtain ⟨last, lastSize, lastCount, lastKept, lastDone⟩ := later
      refine ⟨last, lastSize, ?_, fun position set => ?_, fun j member => ?_⟩
      · rw [List.foldl_cons, lastCount, step]
      · exact lastKept position (kept position set)
      · rcases List.mem_cons.mp member with here | behind
        · subst here
          exact lastKept _ done
        · exact lastDone j behind

theorem Consistent.add_of_pos {key : String} (consistent : filter.Consistent)
    (positive : 0 < filter.size) :
    filter.add hash key =
      (List.range filter.hashCount).foldl
        (fun filter i => filter.setBit (hash key i % filter.size)) filter := by
  have nonempty : ¬ (filter.bits.isEmpty ∨ filter.size = 0) := by
    rw [List.isEmpty_iff, ← List.length_eq_zero_iff, consistent.length]
    omega
  rw [add, consistent.fixed]
  exact if_neg nonempty

theorem Consistent.add_of_empty {key : String} (consistent : filter.Consistent)
    (empty : filter.size = 0) : filter.add hash key = filter := by
  rw [add, consistent.fixed]
  exact if_pos (Or.inr empty)

theorem Consistent.add {key : String} (consistent : filter.Consistent) :
    (filter.add hash key).Consistent := by
  rcases Nat.eq_zero_or_pos filter.size with empty | positive
  · rw [consistent.add_of_empty empty]
    exact consistent
  · rw [consistent.add_of_pos positive]
    exact (consistent.setBits positive hash key _).1

theorem Consistent.add_marks {key : String} (consistent : filter.Consistent) :
    (filter.add hash key).Marks hash key := by
  rcases Nat.eq_zero_or_pos filter.size with empty | positive
  · rw [consistent.add_of_empty empty]
    intro some
    omega
  · obtain ⟨-, size, count, -, done⟩ := consistent.setBits positive
      hash key (List.range filter.hashCount)
    rw [consistent.add_of_pos positive]
    intro _ i below
    rw [count] at below
    rw [size]
    exact done i (List.mem_range.mpr below)

theorem Marks.add {key other : String} (marks : filter.Marks hash other)
    (consistent : filter.Consistent) :
    (filter.add hash key).Marks hash other := by
  rcases Nat.eq_zero_or_pos filter.size with empty | positive
  · rw [consistent.add_of_empty empty]
    exact marks
  · obtain ⟨-, size, count, kept, -⟩ := consistent.setBits positive
      hash key (List.range filter.hashCount)
    rw [consistent.add_of_pos positive]
    intro _ i below
    rw [count] at below
    rw [size]
    exact kept _ (marks positive i below)

end

/-! ## Writing and reading -/

theorem Consistent.orEmpty_eq {filter : BloomFilter}
    (consistent : filter.Consistent) :
    filter.orEmpty =
      if 0 < filter.size then filter else new 0 filter.hashCount := by
  rw [orEmpty, consistent.fixed]
  by_cases positive : 0 < filter.size
  · simp [consistent.isValid_iff.mpr positive, positive]
  · have invalid : filter.isValid = false := by
      rw [Bool.eq_false_iff, ne_eq, consistent.isValid_iff]
      exact positive
    simp [invalid, positive]

/-- A filter comes back from its bytes unless it is empty or too large, and
then an empty one comes back. -/
theorem Consistent.fromBytes_toBytes {filter : BloomFilter}
    (consistent : filter.Consistent) :
    fromBytes filter.toBytes filter.hashCount =
      if 0 < filter.size ∧ filter.size ≤ maxBloomSize then filter
      else new 0 filter.hashCount := by
  have header : (encodeU32 filter.size).length = 4 := toLeBytes_length 4 _
  have nonempty : ¬ filter.toBytes.isEmpty := by
    rw [List.isEmpty_iff, ← List.length_eq_zero_iff, toBytes,
      List.length_append]
    omega
  have long : ¬ filter.toBytes.length < 4 := by
    rw [toBytes, List.length_append]
    omega
  have size : fromLeBytes (filter.toBytes.take 4) = filter.size := by
    rw [toBytes, ← header, List.take_left]
    exact fromLeBytes_toLeBytes (by rw [pow_256_four]; exact consistent.short)
  have body : filter.toBytes.drop 4 = packBits filter.bits := by
    rw [toBytes, ← header, List.drop_left]
  rw [fromBytes, if_neg nonempty, if_neg long]
  dsimp only
  rw [size, body]
  by_cases large : filter.size > maxBloomSize
  · rw [if_pos large, if_neg (by omega)]
  · have bits : resizeBits (unpackBits (packBits filter.bits)) filter.size =
        filter.bits := by
      have enough := le_unpackBits_packBits_length filter.bits
      rw [resizeBits, if_neg (by rw [← consistent.length]; omega),
        ← consistent.length, take_unpackBits_packBits]
    rw [if_neg large, bits]
    change filter.orEmpty = _
    have small : filter.size ≤ maxBloomSize := by omega
    rw [consistent.orEmpty_eq]
    simp only [small, and_true]

theorem Consistent.reload {filter : BloomFilter}
    (consistent : filter.Consistent) :
    (fromBytes filter.toBytes filter.hashCount).Consistent := by
  rw [consistent.fromBytes_toBytes]
  split
  · exact consistent
  · exact new_consistent (by norm_num) _

theorem Marks.reload {hash : String → Nat → Nat} {filter : BloomFilter}
    {key : String} (marks : filter.Marks hash key)
    (consistent : filter.Consistent) :
    (fromBytes filter.toBytes filter.hashCount).Marks hash key := by
  rw [consistent.fromBytes_toBytes]
  split
  · exact marks
  · intro some
    simp [new] at some

/-! ## Runs -/

/-- Adding a key, or writing the filter out and reading it back. -/
inductive BloomStep where
  | add (key : String)
  | reload

section

variable (hash : String → Nat → Nat)

def step (filter : BloomFilter) : BloomStep → BloomFilter
  | .add key => filter.add hash key
  | .reload => fromBytes filter.toBytes filter.hashCount

def run (filter : BloomFilter) (steps : List BloomStep) : BloomFilter :=
  steps.foldl (step hash) filter

end

variable {hash : String → Nat → Nat} {filter : BloomFilter}

theorem Consistent.step (consistent : filter.Consistent)
    (action : BloomStep) : (filter.step hash action).Consistent := by
  cases action with
  | add key => exact consistent.add
  | reload => exact consistent.reload

theorem Marks.step {key : String} (marks : filter.Marks hash key)
    (consistent : filter.Consistent) (action : BloomStep) :
    (filter.step hash action).Marks hash key := by
  cases action with
  | add other => exact marks.add consistent
  | reload => exact marks.reload consistent

theorem Marks.run {key : String} (marks : filter.Marks hash key)
    (consistent : filter.Consistent) (steps : List BloomStep) :
    (filter.run hash steps).Marks hash key := by
  induction steps generalizing filter with
  | nil => exact marks
  | cons action rest inductionHypothesis =>
      exact inductionHypothesis (marks.step consistent action)
        (consistent.step action)

theorem Consistent.run_marks {key : String} (consistent : filter.Consistent)
    {steps : List BloomStep} (added : .add key ∈ steps) :
    (filter.run hash steps).Marks hash key := by
  induction steps generalizing filter with
  | nil => exact absurd added List.not_mem_nil
  | cons action rest inductionHypothesis =>
      rcases List.mem_cons.mp added with here | behind
      · subst here
        exact consistent.add_marks.run consistent.add rest
      · exact inductionHypothesis (consistent.step action) behind

/-- No false negatives: a filter of any size below 2^32, with any number of
hash functions, might contain every key that was added to it, however often
it was written and read in between and at the end. -/
theorem bloom_filter_forgets_nothing (hash : String → Nat → Nat)
    {size : Nat} (small : size < 2 ^ 32) (hashCount : Nat)
    {steps : List BloomStep} {key : String} (added : .add key ∈ steps) :
    ((new size hashCount).run hash steps).mightContain hash key = true := by
  have consistent := new_consistent small hashCount
  have marks : ((new size hashCount).run hash steps).Marks hash key :=
    consistent.run_marks added
  exact marks.mightContain

/-- A filter of twelve bits that is written and read between two keys. -/
theorem reloaded_filter_keeps_first_key :
    ((new 12 7).run (fun key i => key.length + i)
      [.add "a", .reload, .add "abc", .reload]).mightContain
        (fun key i => key.length + i) "a" = true :=
  bloom_filter_forgets_nothing _ (by norm_num) 7 (by simp)

end BloomFilter

end F4kvsLsm
