import F4kvsLsm.Lib.LittleEndian
import F4kvsLsm.Lib.MapTotal
import F4kvsLsm.Lib.Runs

/-!
# The block cache

Blocks by key with their total size, and the keys in the order of their last
use.  A put makes room by evicting blocks from the front of that order.  It
does not look whether the key is cached already: the size and the order then
count the block twice.
-/

namespace F4kvsLsm

open ByteCodec MapTotal Transitions

structure CachedBlock where
  data : Bytes
  accessCount : Nat

structure BlockCache where
  maxSize : Nat
  currentSize : Nat
  blocks : Std.TreeMap String CachedBlock
  accessOrder : List String
  hitCount : Nat
  missCount : Nat
  evictionCount : Nat

namespace BlockCache

def new (maxSize : Nat) : BlockCache :=
  ⟨maxSize, 0, ∅, [], 0, 0, 0⟩

/-- Remove the key from its position and add it at the end. -/
def updateAccessOrder (cache : BlockCache) (key : String) : BlockCache :=
  { cache with accessOrder := cache.accessOrder.erase key ++ [key] }

/-- The cache after a lookup and the data that is found. -/
def get (cache : BlockCache) (key : String) : BlockCache × Option Bytes :=
  match cache.blocks[key]? with
  | some block =>
      (updateAccessOrder
        { cache with
          blocks := cache.blocks.insert key
            { block with accessCount := block.accessCount + 1 }
          hitCount := cache.hitCount + 1 } key,
        some block.data)
  | none => ({ cache with missCount := cache.missCount + 1 }, none)

/-- Evict the least recently used block. -/
def evictLru (cache : BlockCache) : BlockCache :=
  match cache.accessOrder with
  | [] => cache
  | key :: rest =>
      match cache.blocks[key]? with
      | some block =>
          { cache with
            blocks := cache.blocks.erase key
            currentSize := cache.currentSize - block.data.length
            evictionCount := cache.evictionCount + 1
            accessOrder := rest }
      | none => { cache with accessOrder := rest }

/-- The loop of a put goes on: the block does not fit and there are blocks
to evict. -/
def needsRoom (cache : BlockCache) (dataSize : Nat) : Bool :=
  cache.currentSize + dataSize > cache.maxSize && !cache.blocks.isEmpty

/-- Evict until the block fits or nothing is left. -/
def evictFor (dataSize : Nat) : Nat → BlockCache → BlockCache
  | 0, cache => cache
  | fuel + 1, cache =>
      if cache.needsRoom dataSize then evictFor dataSize fuel cache.evictLru
      else cache

/-- The cache when the loop of a put has ended: each round takes a key from
the order. -/
def madeRoom (cache : BlockCache) (dataSize : Nat) : BlockCache :=
  evictFor dataSize cache.accessOrder.length cache

def put (cache : BlockCache) (key : String) (data : Bytes) : BlockCache :=
  let cache := cache.madeRoom data.length
  { cache with
    blocks := cache.blocks.insert key ⟨data, 1⟩
    currentSize := cache.currentSize + data.length
    accessOrder := cache.accessOrder ++ [key] }

def clear (cache : BlockCache) : BlockCache :=
  { cache with blocks := ∅, accessOrder := [], currentSize := 0 }

/-- The cache after the removal and the data that was removed. -/
def remove (cache : BlockCache) (key : String) : BlockCache × Option Bytes :=
  match cache.blocks[key]? with
  | some block =>
      ({ cache with
          blocks := cache.blocks.erase key
          currentSize := cache.currentSize - block.data.length
          accessOrder := cache.accessOrder.erase key },
        some block.data)
  | none => (cache, none)

end BlockCache

/-- The operations of a cache. -/
inductive CacheOp where
  | get (key : String)
  | put (key : String) (data : Bytes)
  | remove (key : String)
  | clear

def CacheOp.uses (key : String) : CacheOp → Bool
  | .get used => used = key
  | .put used _ => used = key
  | _ => false

/-- When the key was last used, counted from the start; the latest operation
is the first of the list. -/
def lastUse : List CacheOp → String → Nat
  | [], _ => 0
  | op :: earlier, key =>
      if op.uses key then earlier.length + 1 else lastUse earlier key

/-- A cache, the operations that have led to it, the latest first, and for
each key the data of its last put, when it was not evicted or removed
since. -/
structure CacheRun where
  cache : BlockCache
  history : List CacheOp
  expected : String → Option Bytes

namespace BlockCache

def apply (cache : BlockCache) : CacheOp → BlockCache
  | .get key => (cache.get key).1
  | .put key data => cache.put key data
  | .remove key => (cache.remove key).1
  | .clear => cache.clear

/-- Making room evicts the key. -/
def evicts (cache : BlockCache) (dataSize : Nat) (key : String) : Bool :=
  cache.blocks.contains key && !(cache.madeRoom dataSize).blocks.contains key

def storedSize (cache : BlockCache) : Nat :=
  total (fun _ block => block.data.length) cache.blocks

/-- The length of the block of one key, when it is stored. -/
def sizeAt (cache : BlockCache) (key : String) : Nat :=
  weightAt (fun _ block => block.data.length) cache.blocks key

/-- The lengths of the block of a key and of all that were used after it. -/
def sizeFrom (cache : BlockCache) (key : String) : Nat :=
  ((cache.accessOrder.dropWhile (· ≠ key)).map cache.sizeAt).sum

end BlockCache

namespace CacheRun

def start (maxSize : Nat) : CacheRun :=
  ⟨.new maxSize, [], fun _ => none⟩

def expectedAfter (run : CacheRun) (key : String) : CacheOp → Option Bytes
  | .get _ => run.expected key
  | .put written data =>
      if written = key then some data
      else if run.cache.evicts data.length key then none
      else run.expected key
  | .remove removed => if removed = key then none else run.expected key
  | .clear => none

def move (run : CacheRun) (op : CacheOp) : CacheRun :=
  ⟨run.cache.apply op, op :: run.history, (run.expectedAfter · op)⟩

/-- The limit stays the one that was set, a put's loop ends, no subtraction
from the size goes below zero, and a lookup finds the data of the last put,
unless it was evicted or removed. -/
structure Answers (maxSize : Nat) (run : CacheRun) : Prop where
  limit : run.cache.maxSize = maxSize
  ends : ∀ dataSize,
    (run.cache.madeRoom dataSize).needsRoom dataSize = false
  counted : run.cache.storedSize ≤ run.cache.currentSize
  recalls : ∀ key, (run.cache.get key).2 = run.expected key

/-- The size is that of the blocks and within the limit, and the order holds
each stored key once, from the least to the most recently used. -/
structure Sound (run : CacheRun) : Prop where
  sized : run.cache.currentSize = run.cache.storedSize
  bounded : run.cache.currentSize ≤ run.cache.maxSize
  unique : run.cache.accessOrder.Nodup
  stored : ∀ key, key ∈ run.cache.accessOrder ↔ key ∈ run.cache.blocks
  recency : run.cache.accessOrder.Pairwise fun first second =>
    lastUse run.history first < lastUse run.history second

/-- A put of a block that is not larger than the cache, under a key that is
not cached, or whose block and those used after it leave no room for the
new block. -/
def Fits (run : CacheRun) : CacheOp → Prop
  | .put key data =>
      data.length ≤ run.cache.maxSize ∧
        (key ∈ run.cache.blocks →
          run.cache.maxSize < run.cache.sizeFrom key + data.length)
  | _ => True

end CacheRun

namespace BlockCache

variable {cache : BlockCache} {key : String}

/-! ## Evictions -/

/-- The counter is not below what is stored, and each stored key is in the
order, if not once. -/
structure Covered (cache : BlockCache) : Prop where
  counted : cache.storedSize ≤ cache.currentSize
  ordered : ∀ key ∈ cache.blocks, key ∈ cache.accessOrder

/-- The counter is what is stored, and each stored key is in the order
once. -/
structure Exact (cache : BlockCache) : Prop where
  sized : cache.currentSize = cache.storedSize
  unique : cache.accessOrder.Nodup
  stored : ∀ key, key ∈ cache.accessOrder ↔ key ∈ cache.blocks

theorem mem_blocks_iff : key ∈ cache.blocks ↔ ∃ block,
    cache.blocks[key]? = some block := by
  rw [Std.TreeMap.mem_iff_isSome_getElem?, Option.isSome_iff_exists]

theorem not_mem_blocks_iff :
    key ∉ cache.blocks ↔ cache.blocks[key]? = none := by
  rw [Std.TreeMap.mem_iff_isSome_getElem?, Bool.not_eq_true,
    Option.isSome_eq_false_iff, Option.isNone_iff_eq_none]

/-- What is left when one key is gone. -/
theorem storedSize_erase {block : CachedBlock}
    (found : cache.blocks[key]? = some block) :
    total (fun _ block => block.data.length) (cache.blocks.erase key) +
      block.data.length = cache.storedSize := by
  have gone := total_erase (fun _ block => block.data.length)
    cache.blocks key
  rw [weightAt_of_some found] at gone
  exact gone

theorem mem_erase {other : String} :
    other ∈ cache.blocks.erase key ↔ other ≠ key ∧ other ∈ cache.blocks := by
  rw [Std.TreeMap.mem_erase, ne_eq, Std.compare_eq_iff_eq, eq_comm]

theorem mem_insert {other : String} {block : CachedBlock} :
    other ∈ cache.blocks.insert key block ↔
      other = key ∨ other ∈ cache.blocks := by
  rw [Std.TreeMap.mem_insert, Std.compare_eq_iff_eq, eq_comm]

theorem evictLru_maxSize (cache : BlockCache) :
    cache.evictLru.maxSize = cache.maxSize := by
  unfold evictLru
  split
  · rfl
  · split <;> rfl

theorem evictLru_accessOrder (cache : BlockCache) :
    cache.evictLru.accessOrder = cache.accessOrder.tail := by
  unfold evictLru
  split
  · case h_1 nothing => rw [nothing, List.tail_nil]
  · case h_2 first rest listed => split <;> rw [listed, List.tail_cons]

theorem evictLru_blocks
    {first : String} {rest : List String}
    (listed : cache.accessOrder = first :: rest) :
    ∀ other, cache.evictLru.blocks[other]? =
      if other = first then none else cache.blocks[other]? := by
  intro other
  cases found : cache.blocks[first]? with
  | some block =>
      simp only [evictLru, listed, found]
      by_cases same : other = first
      · rw [if_pos same, same, Std.TreeMap.getElem?_erase_self]
      · rw [if_neg same, Std.TreeMap.getElem?_erase, if_neg]
        rw [Std.compare_eq_iff_eq]
        exact fun equal => same equal.symm
  | none =>
      simp only [evictLru, listed, found]
      by_cases same : other = first
      · rw [if_pos same, same, found]
      · rw [if_neg same]

theorem Covered.evictLru (covered : cache.Covered) :
    cache.evictLru.Covered := by
  cases listed : cache.accessOrder with
  | nil =>
      have same : cache.evictLru = cache := by
        simp only [BlockCache.evictLru, listed]
      rw [same]
      exact covered
  | cons first rest =>
      constructor
      case counted =>
        have counted := covered.counted
        cases found : cache.blocks[first]? with
        | some block =>
            have left := storedSize_erase found
            simp only [BlockCache.evictLru, listed, found, storedSize] at *
            omega
        | none =>
            simp only [BlockCache.evictLru, listed, found]
            exact counted
      case ordered =>
        intro key member
        obtain ⟨block, held⟩ := mem_blocks_iff.mp member
        rw [evictLru_blocks listed] at held
        split at held
        · cases held
        · case isFalse different =>
            have old := covered.ordered key (mem_blocks_iff.mpr ⟨block, held⟩)
            rw [listed, List.mem_cons] at old
            rw [evictLru_accessOrder, listed, List.tail_cons]
            exact old.resolve_left different

theorem Exact.covered (sound : cache.Exact) : cache.Covered :=
  ⟨Nat.le_of_eq sound.sized.symm, fun key => (sound.stored key).mpr⟩

theorem Exact.evictLru (sound : cache.Exact) : cache.evictLru.Exact := by
  cases listed : cache.accessOrder with
  | nil =>
      have same : cache.evictLru = cache := by
        simp only [BlockCache.evictLru, listed]
      rw [same]
      exact sound
  | cons first rest =>
      have unique := sound.unique
      rw [listed, List.nodup_cons] at unique
      have held := (sound.stored first).mp (by rw [listed]; simp)
      obtain ⟨block, found⟩ := mem_blocks_iff.mp held
      constructor
      case sized =>
        have left := storedSize_erase found
        have sized := sound.sized
        simp only [BlockCache.evictLru, listed, found, storedSize] at *
        omega
      case unique =>
        rw [evictLru_accessOrder, listed]
        exact unique.2
      case stored =>
        intro key
        have before := sound.stored key
        rw [listed, List.mem_cons] at before
        rw [evictLru_accessOrder, listed, List.tail_cons]
        simp only [BlockCache.evictLru, listed, found]
        rw [mem_erase, ← before]
        constructor
        · intro member
          refine ⟨?_, Or.inr member⟩
          rintro rfl
          exact unique.1 member
        · rintro ⟨different, member⟩
          exact member.resolve_left different

theorem evictFor_keeps
    (holds : BlockCache → Prop) (keeps : ∀ cache, holds cache →
      holds cache.evictLru) (dataSize fuel : Nat) (initially : holds cache) :
    holds (evictFor dataSize fuel cache) := by
  induction fuel generalizing cache with
  | zero => exact initially
  | succ fuel inductionHypothesis =>
      rw [evictFor]
      split
      · exact inductionHypothesis (keeps cache initially)
      · exact initially

/-- The loop ends: with no key left in the order nothing is stored. -/
theorem evictFor_ends
    (covered : cache.Covered) (dataSize : Nat) {fuel : Nat}
    (enough : cache.accessOrder.length ≤ fuel) :
    (evictFor dataSize fuel cache).needsRoom dataSize = false := by
  induction fuel generalizing cache with
  | zero =>
      have nothing := List.eq_nil_of_length_eq_zero (Nat.le_zero.mp enough)
      have empty : cache.blocks.isEmpty = true := by
        rw [Std.TreeMap.isEmpty_iff_forall_not_mem]
        intro key member
        have ordered := covered.ordered key member
        rw [nothing] at ordered
        exact absurd ordered List.not_mem_nil
      rw [evictFor, needsRoom, empty, Bool.not_true, Bool.and_false]
  | succ fuel inductionHypothesis =>
      rw [evictFor]
      split
      · apply inductionHypothesis covered.evictLru
        rw [evictLru_accessOrder, List.length_tail]
        omega
      · case isFalse enoughRoom => exact Bool.eq_false_iff.mpr enoughRoom

variable {dataSize : Nat}

theorem Covered.madeRoom (covered : cache.Covered) (dataSize : Nat) :
    (cache.madeRoom dataSize).Covered :=
  evictFor_keeps Covered (fun _ covered => covered.evictLru) _ _ covered

theorem Exact.madeRoom (sound : cache.Exact) (dataSize : Nat) :
    (cache.madeRoom dataSize).Exact :=
  evictFor_keeps Exact (fun _ sound => sound.evictLru) _ _ sound

theorem madeRoom_maxSize (cache : BlockCache) (dataSize : Nat) :
    (cache.madeRoom dataSize).maxSize = cache.maxSize :=
  evictFor_keeps (fun later => later.maxSize = cache.maxSize)
    (fun later same => (evictLru_maxSize later).trans same) _ _ rfl

theorem madeRoom_accessOrder (cache : BlockCache) (dataSize : Nat) :
    (cache.madeRoom dataSize).accessOrder <:+ cache.accessOrder := by
  apply evictFor_keeps (fun later => later.accessOrder <:+ cache.accessOrder)
  · intro later suffix
    rw [evictLru_accessOrder]
    exact (List.tail_suffix _).trans suffix
  · exact List.suffix_refl _

theorem evictLru_held
    {block : CachedBlock} (held : cache.evictLru.blocks[key]? = some block) :
    cache.blocks[key]? = some block := by
  cases listed : cache.accessOrder with
  | nil =>
      rw [evictLru, listed] at held
      exact held
  | cons first rest =>
      rw [evictLru_blocks listed] at held
      split at held
      · cases held
      · exact held

/-- What making room leaves is as it was. -/
theorem madeRoom_held
    {block : CachedBlock}
    (held : (cache.madeRoom dataSize).blocks[key]? = some block) :
    cache.blocks[key]? = some block :=
  evictFor_keeps
    (fun later => ∀ block,
      later.blocks[key]? = some block → cache.blocks[key]? = some block)
    (fun _ earlier block held => earlier block (evictLru_held held)) _ _
    (fun _ held => held) block held

theorem madeRoom_ends (covered : cache.Covered) (dataSize : Nat) :
    (cache.madeRoom dataSize).needsRoom dataSize = false :=
  evictFor_ends covered dataSize (Nat.le_refl _)

theorem madeRoom_found (key : String) (dataSize : Nat) :
    (cache.madeRoom dataSize).blocks[key]? =
      if cache.evicts dataSize key then none else cache.blocks[key]? := by
  cases left : (cache.madeRoom dataSize).blocks[key]? with
  | some block =>
      have there := mem_blocks_iff.mpr ⟨block, left⟩
      rw [evicts, Std.TreeMap.contains_iff_mem.mpr there, Bool.not_true,
        Bool.and_false, if_neg Bool.false_ne_true, madeRoom_held left]
  | none =>
      have gone : (cache.madeRoom dataSize).blocks.contains key = false :=
        Bool.eq_false_iff.mpr (mt Std.TreeMap.contains_iff_mem.mp
          (not_mem_blocks_iff.mpr left))
      rw [evicts, gone, Bool.not_false, Bool.and_true]
      split
      · rfl
      · case isFalse absent =>
          rw [Std.TreeMap.contains_iff_mem] at absent
          rw [not_mem_blocks_iff.mp absent]

/-! ## Which keys are evicted -/

theorem evictLru_sizeAt
    {first other : String} {rest : List String}
    (listed : cache.accessOrder = first :: rest) (different : other ≠ first) :
    cache.evictLru.sizeAt other = cache.sizeAt other := by
  rw [sizeAt, sizeAt, weightAt, weightAt, evictLru_blocks listed,
    if_neg different]

/-- What the keys of the order take together is all that is stored. -/
theorem Exact.sum_sizeAt (sound : cache.Exact) :
    (cache.accessOrder.map cache.sizeAt).sum = cache.storedSize := by
  induction listed : cache.accessOrder generalizing cache with
  | nil =>
      have empty : cache.blocks.isEmpty = true := by
        rw [Std.TreeMap.isEmpty_iff_forall_not_mem]
        intro key member
        have ordered := (sound.stored key).mpr member
        rw [listed] at ordered
        exact absurd ordered List.not_mem_nil
      rw [storedSize, total_of_isEmpty _ empty, List.map_nil, List.sum_nil]
  | cons first rest inductionHypothesis =>
      have unique := sound.unique
      rw [listed, List.nodup_cons] at unique
      have stored := (sound.stored first).mp (by rw [listed]; simp)
      obtain ⟨block, found⟩ := mem_blocks_iff.mp stored
      have left : cache.evictLru.storedSize + cache.sizeAt first =
          cache.storedSize := by
        rw [sizeAt, weightAt_of_some found, ← storedSize_erase found]
        simp only [BlockCache.evictLru, listed, found, storedSize]
      have others : rest.map cache.evictLru.sizeAt =
          rest.map cache.sizeAt := by
        apply List.map_congr_left
        intro other member
        apply evictLru_sizeAt listed
        rintro rfl
        exact unique.1 member
      have order : cache.evictLru.accessOrder = rest := by
        rw [evictLru_accessOrder, listed, List.tail_cons]
      have rest_sum := inductionHypothesis sound.evictLru order
      rw [others] at rest_sum
      rw [List.map_cons, List.sum_cons, rest_sum, Nat.add_comm]
      exact left

theorem Exact.sizeFrom_le (sound : cache.Exact) (key : String) :
    cache.sizeFrom key ≤ cache.currentSize := by
  rw [sound.sized, ← sound.sum_sizeAt, sizeFrom]
  exact ((List.dropWhile_sublist _).map _).sum_le_sum
    fun _ _ => Nat.zero_le _

theorem needsRoom_of_mem (member : key ∈ cache.blocks) (dataSize : Nat) :
    cache.needsRoom dataSize = true ↔
      cache.maxSize < cache.currentSize + dataSize := by
  have some_key : cache.blocks.isEmpty = false :=
    Std.TreeMap.isEmpty_eq_false_iff_exists_mem.mpr ⟨key, member⟩
  rw [needsRoom, some_key, Bool.not_false, Bool.and_true, decide_eq_true_eq,
    gt_iff_lt]

theorem Exact.sizeFrom_evictLru
    (sound : cache.Exact) {first : String} {rest : List String}
    (listed : cache.accessOrder = first :: rest) (different : key ≠ first) :
    cache.evictLru.sizeFrom key = cache.sizeFrom key := by
  have unique := sound.unique
  rw [listed, List.nodup_cons] at unique
  rw [sizeFrom, sizeFrom, evictLru_accessOrder, listed, List.tail_cons,
    List.dropWhile_cons_of_pos (by simp [Ne.symm different])]
  congr 1
  apply List.map_congr_left
  intro other member
  apply evictLru_sizeAt listed
  rintro rfl
  exact unique.1 ((List.dropWhile_sublist _).mem member)

theorem evictFor_absent
    (absent : cache.blocks[key]? = none) (dataSize fuel : Nat) :
    (evictFor dataSize fuel cache).blocks[key]? = none := by
  apply evictFor_keeps (fun later => later.blocks[key]? = none)
  · intro later absent
    cases held : later.evictLru.blocks[key]? with
    | none => rfl
    | some block =>
        rw [evictLru_held held] at absent
        cases absent
  · exact absent

/-- A round of the loop evicts the key, or takes nothing that counts for
it. -/
theorem Exact.mem_evictFor_iff
    (sound : cache.Exact) (dataSize : Nat) {fuel : Nat}
    (enough : cache.accessOrder.length ≤ fuel) (member : key ∈ cache.blocks) :
    key ∈ (evictFor dataSize fuel cache).blocks ↔
      cache.sizeFrom key + dataSize ≤ cache.maxSize := by
  induction fuel generalizing cache with
  | zero =>
      have nothing := List.eq_nil_of_length_eq_zero (Nat.le_zero.mp enough)
      have ordered := (sound.stored key).mpr member
      rw [nothing] at ordered
      exact absurd ordered List.not_mem_nil
  | succ fuel inductionHypothesis =>
      have needs := needsRoom_of_mem member dataSize
      have within := sound.sizeFrom_le key
      rw [evictFor]
      split
      · case isTrue full =>
          rw [needs] at full
          cases listed : cache.accessOrder with
          | nil =>
              have ordered := (sound.stored key).mpr member
              rw [listed] at ordered
              exact absurd ordered List.not_mem_nil
          | cons first rest =>
              have blocks := evictLru_blocks listed key
              by_cases here : key = first
              · have whole : cache.sizeFrom key = cache.currentSize := by
                  rw [sound.sized, ← sound.sum_sizeAt, sizeFrom, listed,
                    List.dropWhile_cons_of_neg (by simp [here])]
                rw [if_pos here] at blocks
                have gone := evictFor_absent blocks dataSize fuel
                exact iff_of_false (not_mem_blocks_iff.mpr gone) (by omega)
              · rw [if_neg here] at blocks
                have shorter : cache.evictLru.accessOrder.length ≤ fuel := by
                  rw [evictLru_accessOrder, List.length_tail]
                  omega
                have still : key ∈ cache.evictLru.blocks := by
                  rw [mem_blocks_iff, blocks, ← mem_blocks_iff]
                  exact member
                rw [inductionHypothesis sound.evictLru shorter still,
                  sound.sizeFrom_evictLru listed here, evictLru_maxSize]
      · case isFalse enoughRoom =>
          rw [needs] at enoughRoom
          exact iff_of_true member (by omega)

theorem Exact.mem_madeRoom_iff
    (sound : cache.Exact) (dataSize : Nat) (key : String) :
    key ∈ (cache.madeRoom dataSize).blocks ↔ key ∈ cache.blocks ∧
      cache.sizeFrom key + dataSize ≤ cache.maxSize := by
  by_cases member : key ∈ cache.blocks
  · rw [BlockCache.madeRoom, sound.mem_evictFor_iff dataSize (Nat.le_refl _) member]
    exact (and_iff_right member).symm
  · rw [not_mem_blocks_iff] at member
    have absent := evictFor_absent member dataSize cache.accessOrder.length
    rw [← not_mem_blocks_iff] at member absent
    exact iff_of_false absent fun there => member there.1

/-! ## What an operation leaves of a key -/

theorem get_data (cache : BlockCache) (key : String) :
    (cache.get key).2 = (cache.blocks[key]?).map CachedBlock.data := by
  rw [get]
  cases cache.blocks[key]? <;> rfl

theorem get_found (cache : BlockCache) (key other : String) :
    ((cache.get key).1.blocks[other]?).map CachedBlock.data =
      (cache.blocks[other]?).map CachedBlock.data := by
  cases found : cache.blocks[key]? with
  | none => simp only [get, found]
  | some block =>
      simp only [get, found, updateAccessOrder]
      by_cases same : key = other
      · rw [← same, Std.TreeMap.getElem?_insert_self, found]
        rfl
      · simp only [Std.TreeMap.getElem?_insert, Std.compare_eq_iff_eq,
          if_neg same]

theorem put_found (cache : BlockCache) (key other : String) (data : Bytes) :
    (cache.put key data).blocks[other]? =
      if key = other then some ⟨data, 1⟩
      else if cache.evicts data.length other then none
      else cache.blocks[other]? := by
  simp only [put, Std.TreeMap.getElem?_insert, Std.compare_eq_iff_eq,
    madeRoom_found]

theorem remove_found (cache : BlockCache) (key other : String) :
    (cache.remove key).1.blocks[other]? =
      if key = other then none else cache.blocks[other]? := by
  cases found : cache.blocks[key]? with
  | none =>
      simp only [remove, found]
      split
      · case isTrue same => rw [← same, found]
      · rfl
  | some block =>
      simp only [remove, found, Std.TreeMap.getElem?_erase,
        Std.compare_eq_iff_eq]

/-! ## What an operation leaves of the counts -/

theorem mem_moved {order : List String} {other : String} :
    other ∈ order.erase key ++ [key] ↔ other = key ∨ other ∈ order := by
  rw [List.mem_append, List.mem_singleton, or_comm]
  constructor
  · rintro (same | member)
    · exact Or.inl same
    · exact Or.inr (List.mem_of_mem_erase member)
  · rintro (same | member)
    · exact Or.inl same
    · by_cases same : other = key
      · exact Or.inl same
      · exact Or.inr ((List.mem_erase_of_ne same).mpr member)

/-- A lookup changes nothing of a block but how often it was accessed. -/
theorem storedSize_get (cache : BlockCache) (key : String) :
    (cache.get key).1.storedSize = cache.storedSize := by
  cases found : cache.blocks[key]? with
  | none => simp only [get, found, storedSize]
  | some block =>
      have rewritten := total_insert (fun _ block => block.data.length)
        cache.blocks key { block with accessCount := block.accessCount + 1 }
      rw [weightAt_of_some found] at rewritten
      simp only [get, found, storedSize, updateAccessOrder]
      exact Nat.add_right_cancel rewritten

theorem get_currentSize (cache : BlockCache) (key : String) :
    (cache.get key).1.currentSize = cache.currentSize := by
  cases found : cache.blocks[key]? <;>
    simp only [get, found, updateAccessOrder]

theorem get_maxSize (cache : BlockCache) (key : String) :
    (cache.get key).1.maxSize = cache.maxSize := by
  cases found : cache.blocks[key]? <;>
    simp only [get, found, updateAccessOrder]

theorem mem_get {other : String} :
    other ∈ (cache.get key).1.blocks ↔ other ∈ cache.blocks := by
  rw [mem_blocks_iff, mem_blocks_iff, ← Option.isSome_iff_exists,
    ← Option.isSome_iff_exists]
  have found := congrArg Option.isSome (get_found cache key other)
  rw [Option.isSome_map, Option.isSome_map] at found
  rw [found]

theorem remove_maxSize (cache : BlockCache) (key : String) :
    (cache.remove key).1.maxSize = cache.maxSize := by
  cases found : cache.blocks[key]? <;> simp only [remove, found]

theorem apply_maxSize (cache : BlockCache) (op : CacheOp) :
    (cache.apply op).maxSize = cache.maxSize := by
  cases op with
  | get key => exact get_maxSize cache key
  | put key data => exact madeRoom_maxSize cache data.length
  | remove key => exact remove_maxSize cache key
  | clear => rfl

theorem Covered.get (covered : cache.Covered) (key : String) :
    (cache.get key).1.Covered := by
  constructor
  case counted =>
    rw [storedSize_get, get_currentSize]
    exact covered.counted
  case ordered =>
    intro other member
    have old := covered.ordered other (mem_get.mp member)
    cases found : cache.blocks[key]? with
    | none =>
        simp only [BlockCache.get, found]
        exact old
    | some block =>
        simp only [BlockCache.get, found, updateAccessOrder]
        exact mem_moved.mpr (Or.inr old)

theorem Covered.put (covered : cache.Covered) (key : String) (data : Bytes) :
    (cache.put key data).Covered := by
  have left := covered.madeRoom data.length
  constructor
  case counted =>
    have written := total_insert (fun _ block => block.data.length)
      (cache.madeRoom data.length).blocks key ⟨data, 1⟩
    have counted := left.counted
    simp only [BlockCache.put, storedSize] at written counted ⊢
    omega
  case ordered =>
    intro other member
    rcases mem_insert.mp member with rfl | member
    · exact List.mem_append_right _ (List.mem_singleton_self _)
    · exact List.mem_append_left _ (left.ordered other member)

theorem Covered.remove (covered : cache.Covered) (key : String) :
    (cache.remove key).1.Covered := by
  cases found : cache.blocks[key]? with
  | none =>
      have same : (cache.remove key).1 = cache := by
        simp only [BlockCache.remove, found]
      rw [same]
      exact covered
  | some block =>
      constructor
      case counted =>
        have left := storedSize_erase found
        have counted := covered.counted
        simp only [BlockCache.remove, found, storedSize] at *
        omega
      case ordered =>
        intro other member
        simp only [BlockCache.remove, found] at member ⊢
        obtain ⟨different, member⟩ := mem_erase.mp member
        exact (List.mem_erase_of_ne different).mpr
          (covered.ordered other member)

theorem Covered.clear (cache : BlockCache) : cache.clear.Covered :=
  ⟨Nat.le_refl 0, fun _ member => absurd member Std.TreeMap.not_mem_emptyc⟩

theorem Covered.apply (covered : cache.Covered) (op : CacheOp) :
    (cache.apply op).Covered := by
  cases op with
  | get key => exact covered.get key
  | put key data => exact covered.put key data
  | remove key => exact covered.remove key
  | clear => exact Covered.clear cache

theorem Exact.get (sound : cache.Exact) (key : String) :
    (cache.get key).1.Exact := by
  constructor
  case sized =>
    rw [storedSize_get, get_currentSize]
    exact sound.sized
  case unique =>
    cases found : cache.blocks[key]? with
    | none =>
        simp only [BlockCache.get, found]
        exact sound.unique
    | some block =>
        simp only [BlockCache.get, found, updateAccessOrder]
        rw [← List.concat_eq_append]
        exact (sound.unique.erase key).concat sound.unique.not_mem_erase
  case stored =>
    intro other
    rw [mem_get, ← sound.stored other]
    cases found : cache.blocks[key]? with
    | none => simp only [BlockCache.get, found]
    | some block =>
        simp only [BlockCache.get, found, updateAccessOrder]
        rw [mem_moved]
        constructor
        · rintro (rfl | member)
          · exact (sound.stored other).mpr
              (mem_blocks_iff.mpr ⟨block, found⟩)
          · exact member
        · exact Or.inr

theorem Exact.remove (sound : cache.Exact) (key : String) :
    (cache.remove key).1.Exact := by
  cases found : cache.blocks[key]? with
  | none =>
      have same : (cache.remove key).1 = cache := by
        simp only [BlockCache.remove, found]
      rw [same]
      exact sound
  | some block =>
      constructor
      case sized =>
        have left := storedSize_erase found
        have sized := sound.sized
        simp only [BlockCache.remove, found, storedSize] at *
        omega
      case unique =>
        simp only [BlockCache.remove, found]
        exact sound.unique.erase key
      case stored =>
        intro other
        simp only [BlockCache.remove, found]
        rw [sound.unique.mem_erase_iff, mem_erase, sound.stored]

theorem Exact.clear (cache : BlockCache) : cache.clear.Exact :=
  ⟨rfl, List.nodup_nil, fun _ => iff_of_false List.not_mem_nil
    Std.TreeMap.not_mem_emptyc⟩

theorem Exact.put_iff_absent
    (sound : cache.Exact) (key : String) (data : Bytes) :
    (cache.put key data).Exact ↔
      key ∉ (cache.madeRoom data.length).blocks := by
  have left := sound.madeRoom data.length
  constructor
  · intro exactly there
    have twice := exactly.unique
    rw [BlockCache.put, List.nodup_append] at twice
    exact twice.2.2 key ((left.stored key).mpr there) key
      (List.mem_singleton_self key) rfl
  · intro absent
    constructor
    case sized =>
      have written := total_insert (fun _ block => block.data.length)
        (cache.madeRoom data.length).blocks key ⟨data, 1⟩
      rw [weightAt_of_none (not_mem_blocks_iff.mp absent)] at written
      have sized := left.sized
      simp only [BlockCache.put, storedSize] at written sized ⊢
      omega
    case unique =>
      simp only [BlockCache.put]
      rw [← List.concat_eq_append]
      exact left.unique.concat (mt (left.stored key).mp absent)
    case stored =>
      intro other
      simp only [BlockCache.put]
      rw [List.mem_append, List.mem_singleton, mem_insert, left.stored,
        or_comm]

/-- A put stays within the limit when its block does: the loop has made
room, or nothing else is left. -/
theorem Exact.put_bounded_iff
    (sound : cache.Exact) (key : String) (data : Bytes) :
    (cache.put key data).currentSize ≤ cache.maxSize ↔
      data.length ≤ cache.maxSize := by
  have left := sound.madeRoom data.length
  have ends := madeRoom_ends sound.covered data.length
  simp only [BlockCache.put]
  constructor
  · intro bounded
    omega
  · intro small
    rw [needsRoom, Bool.and_eq_false_iff, decide_eq_false_iff_not,
      madeRoom_maxSize, Bool.not_eq_false'] at ends
    rcases ends with fits | empty
    · exact Nat.le_of_not_gt fits
    · rw [left.sized, storedSize, total_of_isEmpty _ empty, Nat.zero_add]
      exact small

end BlockCache

/-! ## The order of use -/

section

variable {history : List CacheOp} {key : String} {op : CacheOp}
  {order : List String}

theorem lastUse_le (history : List CacheOp) (key : String) :
    lastUse history key ≤ history.length := by
  induction history with
  | nil => exact Nat.le_refl 0
  | cons op earlier inductionHypothesis =>
      rw [lastUse, List.length_cons]
      split
      · exact Nat.le_refl _
      · exact Nat.le_succ_of_le inductionHypothesis

theorem lastUse_of_uses (uses : op.uses key = true) :
    lastUse (op :: history) key = history.length + 1 := by
  rw [lastUse, if_pos uses]

theorem lastUse_of_not_uses (unused : op.uses key = false) :
    lastUse (op :: history) key = lastUse history key := by
  rw [lastUse, unused, if_neg Bool.false_ne_true]

/-- From the least to the most recently used. -/
def Recent (history : List CacheOp) (order : List String) : Prop :=
  order.Pairwise fun first second =>
    lastUse history first < lastUse history second

theorem Recent.unused
    (recent : Recent history order)
    (unused : ∀ other ∈ order, op.uses other = false) :
    Recent (op :: history) order := by
  apply List.Pairwise.imp_of_mem _ recent
  intro first second first_mem second_mem earlier
  rw [lastUse_of_not_uses (unused first first_mem),
    lastUse_of_not_uses (unused second second_mem)]
  exact earlier

/-- The key that is used goes to the end. -/
theorem Recent.concat
    (recent : Recent history order)
    (unused : ∀ other ∈ order, op.uses other = false)
    (uses : op.uses key = true) :
    Recent (op :: history) (order ++ [key]) := by
  refine List.pairwise_append.mpr
    ⟨recent.unused unused, List.pairwise_singleton _ key, ?_⟩
  intro other member last last_mem
  rw [List.mem_singleton] at last_mem
  rw [last_mem, lastUse_of_uses uses,
    lastUse_of_not_uses (unused other member)]
  exact Nat.lt_succ_of_le (lastUse_le history other)

end

namespace CacheRun

variable {run : CacheRun}

theorem Sound.exact (sound : run.Sound) : run.cache.Exact :=
  ⟨sound.sized, sound.unique, sound.stored⟩

theorem sound_iff (run : CacheRun) : run.Sound ↔
    run.cache.Exact ∧ run.cache.currentSize ≤ run.cache.maxSize ∧
      Recent run.history run.cache.accessOrder :=
  ⟨fun sound => ⟨sound.exact, sound.bounded, sound.recency⟩,
    fun ⟨exactly, bounded, recency⟩ =>
      ⟨exactly.sized, bounded, exactly.unique, exactly.stored, recency⟩⟩

theorem move_get (sound : run.Sound) (key : String) :
    (run.move (.get key)).Sound := by
  refine (sound_iff _).mpr ⟨sound.exact.get key, ?_, ?_⟩
  · simp only [move, BlockCache.apply]
    rw [BlockCache.get_currentSize, BlockCache.get_maxSize]
    exact sound.bounded
  · cases found : run.cache.blocks[key]? with
    | none =>
        simp only [move, BlockCache.apply, BlockCache.get, found]
        refine Recent.unused sound.recency fun other member => ?_
        have absent := BlockCache.not_mem_blocks_iff.mpr found
        rw [CacheOp.uses, decide_eq_false_iff_not]
        rintro rfl
        exact absent ((sound.stored key).mp member)
    | some block =>
        simp only [move, BlockCache.apply, BlockCache.get, found,
          BlockCache.updateAccessOrder]
        have recent : Recent run.history (run.cache.accessOrder.erase key) :=
          sound.recency.sublist List.erase_sublist
        refine recent.concat (fun other member => ?_)
          (decide_eq_true rfl)
        rw [sound.unique.mem_erase_iff] at member
        exact decide_eq_false member.1.symm

theorem move_put (sound : run.Sound) (key : String) (data : Bytes) :
    (run.move (.put key data)).Sound ↔ run.Fits (.put key data) := by
  have size := sound.exact.put_bounded_iff key data
  have once := sound.exact.put_iff_absent key data
  have left := sound.exact.mem_madeRoom_iff data.length key
  have limit : (run.cache.put key data).maxSize = run.cache.maxSize :=
    BlockCache.madeRoom_maxSize run.cache data.length
  have evicted : key ∉ (run.cache.madeRoom data.length).blocks ↔
      (key ∈ run.cache.blocks →
        run.cache.maxSize < run.cache.sizeFrom key + data.length) := by
    rw [left, not_and, Nat.not_le]
  rw [sound_iff]
  simp only [move, BlockCache.apply, Fits]
  rw [once, limit, size, ← evicted]
  constructor
  · rintro ⟨absent, small, -⟩
    exact ⟨small, absent⟩
  · rintro ⟨small, absent⟩
    refine ⟨absent, small, ?_⟩
    have recent : Recent run.history
        (run.cache.madeRoom data.length).accessOrder :=
      sound.recency.sublist
        (BlockCache.madeRoom_accessOrder run.cache data.length).sublist
    refine recent.concat (fun other member => ?_) (decide_eq_true rfl)
    rw [CacheOp.uses, decide_eq_false_iff_not]
    rintro rfl
    exact absent (((sound.exact.madeRoom data.length).stored key).mp member)

theorem move_remove (sound : run.Sound) (key : String) :
    (run.move (.remove key)).Sound := by
  refine (sound_iff _).mpr ⟨sound.exact.remove key, ?_, ?_⟩
  · have bounded := sound.bounded
    cases found : run.cache.blocks[key]? with
    | none =>
        simp only [move, BlockCache.apply, BlockCache.remove, found]
        exact bounded
    | some block =>
        simp only [move, BlockCache.apply, BlockCache.remove, found]
        omega
  · refine Recent.unused ?_ fun _ _ => rfl
    cases found : run.cache.blocks[key]? with
    | none =>
        simp only [move, BlockCache.apply, BlockCache.remove, found]
        exact sound.recency
    | some block =>
        simp only [move, BlockCache.apply, BlockCache.remove, found]
        exact sound.recency.sublist List.erase_sublist

theorem move_clear (run : CacheRun) : (run.move .clear).Sound :=
  (sound_iff _).mpr
    ⟨BlockCache.Exact.clear run.cache, Nat.zero_le _, List.Pairwise.nil⟩

theorem sound_move_iff
    (run : CacheRun) (op : CacheOp) (sound : run.Sound) :
    (run.move op).Sound ↔ run.Fits op := by
  cases op with
  | get key => exact iff_of_true (move_get sound key) trivial
  | put key data => exact move_put sound key data
  | remove key => exact iff_of_true (move_remove sound key) trivial
  | clear => exact iff_of_true (move_clear run) trivial

theorem sound_start (maxSize : Nat) : (start maxSize).Sound :=
  (sound_iff _).mpr
    ⟨BlockCache.Exact.clear (.new maxSize), Nat.zero_le _,
      List.Pairwise.nil⟩

/-! ## All runs -/

/-- What a lookup finds follows the expectation over each operation. -/
theorem recalls_move
    (recalls : ∀ key, (run.cache.get key).2 = run.expected key)
    (op : CacheOp) (key : String) :
    ((run.move op).cache.get key).2 = (run.move op).expected key := by
  have before := recalls key
  rw [BlockCache.get_data] at before ⊢
  cases op with
  | get used =>
      exact (BlockCache.get_found run.cache used key).trans before
  | put written data =>
      simp only [move, BlockCache.apply, expectedAfter, BlockCache.put_found]
      rw [← before]
      split
      · rfl
      · split <;> rfl
  | remove removed =>
      simp only [move, BlockCache.apply, expectedAfter,
        BlockCache.remove_found]
      rw [← before]
      split <;> rfl
  | clear =>
      simp only [move, BlockCache.apply, expectedAfter, BlockCache.clear,
        Std.TreeMap.getElem?_emptyc, Option.map_none]

theorem answers_of
    {maxSize : Nat} (limit : run.cache.maxSize = maxSize)
    (covered : run.cache.Covered)
    (recalls : ∀ key, (run.cache.get key).2 = run.expected key) :
    run.Answers maxSize :=
  ⟨limit, BlockCache.madeRoom_ends covered, covered.counted, recalls⟩

theorem answers_throughout (maxSize : Nat) (ops : List CacheOp) :
    Throughout move (Answers maxSize) (start maxSize) ops := by
  have kept : Throughout move
      (fun run => run.cache.maxSize = maxSize ∧ run.cache.Covered ∧
        ∀ key, (run.cache.get key).2 = run.expected key)
      (start maxSize) ops := by
    apply throughout_of_keeps
    · rintro run op ⟨limit, covered, recalls⟩
      exact ⟨(BlockCache.apply_maxSize run.cache op).trans limit,
        covered.apply op, recalls_move recalls op⟩
    · refine ⟨rfl, BlockCache.Covered.clear (.new maxSize), fun key => ?_⟩
      rw [BlockCache.get_data]
      rfl
  exact kept.mono fun run ⟨limit, covered, recalls⟩ =>
    answers_of limit covered recalls

/-- In every run a lookup finds the data of the last put, unless it was
evicted or removed.  The size and the order are right throughout a run
exactly when each put fits: its block is not larger than the cache, and its
key is not cached, or is among those that leave no room for the block. -/
theorem cache_sound_iff_puts_fit (maxSize : Nat) (ops : List CacheOp) :
    Throughout move (Answers maxSize) (start maxSize) ops ∧
      (Throughout move Sound (start maxSize) ops ↔
        EachMeets move Fits (start maxSize) ops) :=
  ⟨answers_throughout maxSize ops,
    throughout_iff sound_move_iff (sound_start maxSize) ops⟩

/-- The same block of four bytes is put twice: the size is eight and the key
stands twice in the order. -/
theorem replaced_block_counts_twice :
    ¬ ∀ maxSize ops, Throughout move Sound (start maxSize) ops := by
  intro sound
  have twice := (sound 10
    [.put "a" [1, 2, 3, 4], .put "a" [1, 2, 3, 4]]).last.unique
  have order : ([CacheOp.put "a" [1, 2, 3, 4], .put "a" [1, 2, 3, 4]].foldl
      move (start 10)).cache.accessOrder = ["a", "a"] := rfl
  rw [order] at twice
  exact absurd twice (by decide)

end CacheRun

end F4kvsLsm
