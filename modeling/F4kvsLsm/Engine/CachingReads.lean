import F4kvsLsm.Engine.StoreRuns
import F4kvsLsm.Storage.CachedReads

/-!
# Reads of an engine with what they leave in memory

A read that waits looks into clones of the tables, whose last blocks go with
them; a read that does not wait looks into the tables of the live map, whose
last blocks stay.  Both go through the block cache.  With blocks and entries of
the files in memory they find what they would find without.
-/

namespace F4kvsLsm

open ByteCodec TableFile Versions

/-! ## The reads -/

namespace LoadedTables

variable (decompressVec : Bytes → Except String Bytes) (key : String)

/-- The lookups of `get_from_sstables` in some tables: by clones, and an error
is logged only. -/
def lookupsPinned : List SstableFile → SharedMemory String →
    List SstableLookupResult × SharedMemory String
  | [], shared => ([], shared)
  | table :: rest, shared =>
      let lookup : TableLookup String := ⟨table.path, key, true, true, true⟩
      let (answer, memory) :=
        table.lookupPinnedCaching decompressVec key (shared.forLookup lookup)
      let (hits, shared) := lookupsPinned rest (shared.after lookup memory)
      ((answer.toOption.bind SstableLookupResult.hit).toList ++ hits, shared)

/-- The lookups of `get_from_sstables_sync`: by the tables of the live map, and
an error ends the read. -/
def lookupsSync : List SstableFile → SharedMemory String →
    Except LsmError (List SstableLookupResult) × SharedMemory String
  | [], shared => (.ok [], shared)
  | table :: rest, shared =>
      let lookup : TableLookup String := ⟨table.path, key, false, false, true⟩
      let (answer, memory) :=
        table.lookupSyncCaching decompressVec key (shared.forLookup lookup)
      let shared := shared.after lookup memory
      match answer with
      | .error failure => (.error failure, shared)
      | .ok answer =>
          let (hits, shared) := lookupsSync rest shared
          (hits.map (answer.hit.toList ++ ·), shared)

/-- In level 0 the newest version, below it the first one. -/
def best (level : Nat) (hits : List SstableLookupResult) :
    Option SstableLookupResult :=
  if level = 0 then newest SstableLookupResult.timestamp hits
  else hits.head?

/-- `get_from_sstables` -/
def getFromSstablesCaching (loaded : LoadedTables) :
    List Nat → SharedMemory String → Option Value × SharedMemory String
  | [], shared => (none, shared)
  | level :: rest, shared =>
      let (hits, shared) := lookupsPinned decompressVec key
        (candidates level (loaded.levels level) key) shared
      match best level hits with
      | some hit => (hit.value, shared)
      | none => getFromSstablesCaching loaded rest shared

/-- `get_from_sstables_sync` -/
def getFromSstablesSyncCaching (loaded : LoadedTables) :
    List Nat → SharedMemory String →
      Except LsmError (Option Value) × SharedMemory String
  | [], shared => (.ok none, shared)
  | level :: rest, shared =>
      match lookupsSync decompressVec key
          (candidates level (loaded.levels level) key) shared with
      | (.error failure, shared) => (.error failure, shared)
      | (.ok hits, shared) =>
          match best level hits with
          | some hit => (.ok hit.value, shared)
          | none => getFromSstablesSyncCaching loaded rest shared

end LoadedTables

namespace Store

variable (config : StoreConfig) (store : Store) (key : String)
  (shared : SharedMemory String)

/-- `get` -/
def getCaching : Option Value × SharedMemory String :=
  match getFromMemtables (store.active :: store.immutables) key with
  | .found value => (some value, shared)
  | .tombstone => (none, shared)
  | .missing =>
      store.loaded.getFromSstablesCaching config.decompressVec key
        (List.range config.compaction.levelCount) shared

/-- `try_get_sync` when every lock is free. -/
def tryGetSyncCaching :
    Except LsmError (Option Value) × SharedMemory String :=
  match getFromMemtables (store.active :: store.immutables) key with
  | .found value => (.ok (some value), shared)
  | .tombstone => (.ok none, shared)
  | .missing =>
      store.loaded.getFromSstablesSyncCaching config.decompressVec key
        (List.range config.compaction.levelCount) shared

end Store

/-! ## Tables by their paths -/

/-- Some tables, which lie under paths of their own. -/
abbrev Among (seen : Set SstableFile) : seen → SstableFile :=
  Subtype.val

/-- What an engine has in memory is what the files of these tables give: the
last blocks, under the paths of the tables, and the cache. -/
structure SharedMemory.Fits (decompressVec : Bytes → Except String Bytes)
    (seen : Set SstableFile) (shared : SharedMemory String) : Prop where
  blocks : ∀ table : seen, BlockHolds decompressVec (Among seen) table
    ⟨shared.lastBlock table.1.path, none⟩
  unseen : ∀ path, (∀ table ∈ seen, table.path ≠ path) →
    shared.lastBlock path = none
  cache : CacheHolds decompressVec (Among seen) shared.blockCache

section

variable {decompressVec : Bytes → Except String Bytes}
  {seen : Set SstableFile} {shared : SharedMemory String}
  {table : SstableFile} {key : String}

theorem SstableFile.forgotten_eq
    (noBlock : table.decompressedBlock = none) : table.forgotten = table := by
  rw [SstableFile.forgotten, ← noBlock]

theorem SharedMemory.fits_new (maxSize : Nat) :
    Fits decompressVec seen (.new maxSize) :=
  ⟨fun _ => Memo.recalls_none, fun _ _ => rfl, CacheHolds.new maxSize⟩

theorem SharedMemory.Fits.forLookup (fits : Fits decompressVec seen shared)
    (table : seen) (key : String) (pinned clone cached : Bool) :
    Remembers decompressVec (Among seen) table
      (shared.forLookup ⟨table.1.path, key, pinned, clone, cached⟩) := by
  constructor
  · intro offset data found
    cases clone with
    | true => cases found
    | false => exact fits.blocks table offset data found
  · intro cache given
    cases cached with
    | true =>
        cases given
        exact fits.cache
    | false => cases given

theorem SharedMemory.Fits.after (paths : TablePaths (Among seen))
    (fits : Fits decompressVec seen shared) {table : seen} (key : String)
    (pinned clone cached : Bool) {memory : ReadMemory}
    (remembers : Remembers decompressVec (Among seen) table memory) :
    Fits decompressVec seen
      (shared.after ⟨table.1.path, key, pinned, clone, cached⟩ memory) := by
  constructor
  · intro other
    cases clone with
    | true => exact fits.blocks other
    | false =>
        rw [SharedMemory.after]
        dsimp only
        rw [if_neg Bool.false_ne_true]
        by_cases same : other.1.path = table.1.path
        · rw [same, Function.update_self, paths.apart other table same]
          exact remembers.block
        · rw [Function.update_of_ne same]
          exact fits.blocks other
  · intro path none
    cases clone with
    | true => exact fits.unseen path none
    | false =>
        rw [SharedMemory.after]
        dsimp only
        rw [if_neg Bool.false_ne_true,
          Function.update_of_ne (none table.1 table.2).symm]
        exact fits.unseen path none
  · rw [SharedMemory.after]
    dsimp only
    cases held : memory.blockCache with
    | some cache => exact remembers.cache cache held
    | none => exact fits.cache

/-! ## What the reads find -/

namespace LoadedTables

variable (paths : TablePaths (Among seen))

include paths

theorem lookupsPinned_plain {tables : List SstableFile}
    (among : ∀ table ∈ tables, table ∈ seen ∧ table.decompressedBlock = none)
    (fits : shared.Fits decompressVec seen) :
    (lookupsPinned decompressVec key tables shared).1 =
        tables.filterMap (lookupLogged decompressVec none · key) ∧
      (lookupsPinned decompressVec key tables shared).2.Fits decompressVec
        seen := by
  induction tables generalizing shared with
  | nil => exact ⟨rfl, fits⟩
  | cons table rest inductionHypothesis =>
      obtain ⟨member, noBlock⟩ := among table List.mem_cons_self
      obtain ⟨answer, remembers⟩ := SstableFile.lookupPinnedCaching_plain paths
        (fits.forLookup ⟨table, member⟩ key true true true) key
      have after := fits.after paths key true true true remembers
      obtain ⟨hits, fits'⟩ := inductionHypothesis
        (fun other there => among other (List.mem_cons_of_mem _ there)) after
      have plain : table.forgotten = table :=
        SstableFile.forgotten_eq noBlock
      refine ⟨?_, fits'⟩
      rw [lookupsPinned]
      dsimp only at answer hits ⊢
      rw [answer, plain, hits, List.filterMap_cons, lookupLogged]
      cases table.lookupPinned decompressVec key none with
      | error failure => rfl
      | ok found => cases found <;> rfl

theorem lookupsSync_plain {tables : List SstableFile}
    (among : ∀ table ∈ tables, table ∈ seen ∧ table.decompressedBlock = none)
    (fits : shared.Fits decompressVec seen) :
    (lookupsSync decompressVec key tables shared).1 =
        (tables.mapM (SstableFile.lookupSync · decompressVec key none)).map
          (·.filterMap SstableLookupResult.hit) ∧
      (lookupsSync decompressVec key tables shared).2.Fits decompressVec
        seen := by
  induction tables generalizing shared with
  | nil => exact ⟨rfl, fits⟩
  | cons table rest inductionHypothesis =>
      obtain ⟨member, noBlock⟩ := among table List.mem_cons_self
      obtain ⟨answer, remembers⟩ := SstableFile.lookupSyncCaching_plain paths
        (fits.forLookup ⟨table, member⟩ key false false true) key
      have after := fits.after paths key false false true remembers
      obtain ⟨hits, fits'⟩ := inductionHypothesis
        (fun other there => among other (List.mem_cons_of_mem _ there)) after
      have plain : table.forgotten = table :=
        SstableFile.forgotten_eq noBlock
      rw [lookupsSync, List.mapM_cons]
      dsimp only at answer hits fits' ⊢
      rw [answer, plain]
      cases table.lookupSync decompressVec key none with
      | error failure => exact ⟨rfl, after⟩
      | ok found =>
          refine ⟨?_, fits'⟩
          dsimp only
          rw [hits]
          cases rest.mapM (SstableFile.lookupSync · decompressVec key
              none) with
          | error failure => rfl
          | ok answers =>
              cases found <;> rfl

omit paths in
theorem mem_of_mem_candidates {level : Nat} {files : List SstableFile}
    (member : table ∈ candidates level files key) : table ∈ files := by
  rw [candidates] at member
  split at member
  · exact (List.mem_filter.mp member).1
  · have found := (Option.filter_eq_some_iff.mp
      (Option.mem_toList.mp member)).1
    rw [SstableFile.findForKey] at found
    split at found
    · case h_1 there =>
        split at found
        · cases found
          exact List.mem_of_getElem? there
        · cases found
    · cases found

variable {loaded : LoadedTables}
  (among : ∀ level, ∀ table ∈ loaded.levels level,
    table ∈ seen ∧ table.decompressedBlock = none)

include among

theorem getFromSstablesCaching_plain (levels : List Nat)
    (fits : shared.Fits decompressVec seen) :
    (loaded.getFromSstablesCaching decompressVec key levels shared).1 =
        (levels.findSome? fun level => getFromLevel decompressVec none level
          (loaded.levels level) key).bind SstableLookupResult.value ∧
      (loaded.getFromSstablesCaching decompressVec key levels
        shared).2.Fits decompressVec seen := by
  induction levels generalizing shared with
  | nil => exact ⟨rfl, fits⟩
  | cons level rest inductionHypothesis =>
      obtain ⟨hits, fits'⟩ := @lookupsPinned_plain decompressVec seen shared
        key paths (candidates level (loaded.levels level) key)
        (fun table member => among level table (mem_of_mem_candidates member))
        fits
      have here : best level (lookupsPinned decompressVec key
          (candidates level (loaded.levels level) key) shared).1 =
          getFromLevel decompressVec none level (loaded.levels level) key := by
        rw [hits]
        rfl
      rw [getFromSstablesCaching, List.findSome?_cons]
      dsimp only
      rw [here]
      cases getFromLevel decompressVec none level (loaded.levels level)
          key with
      | some hit => exact ⟨rfl, fits'⟩
      | none => exact inductionHypothesis fits'

theorem getFromSstablesSyncCaching_plain (levels : List Nat)
    (fits : shared.Fits decompressVec seen) :
    (loaded.getFromSstablesSyncCaching decompressVec key levels shared).1 =
        loaded.getFromSstablesSync decompressVec none key levels ∧
      (loaded.getFromSstablesSyncCaching decompressVec key levels
        shared).2.Fits decompressVec seen := by
  induction levels generalizing shared with
  | nil => exact ⟨rfl, fits⟩
  | cons level rest inductionHypothesis =>
      obtain ⟨hits, fits'⟩ := @lookupsSync_plain decompressVec seen shared
        key paths (candidates level (loaded.levels level) key)
        (fun table member => among level table (mem_of_mem_candidates member))
        fits
      rw [getFromSstablesSyncCaching, getFromSstablesSync, getFromLevelSync]
      cases asked : lookupsSync decompressVec key
          (candidates level (loaded.levels level) key) shared with
      | mk answer shared' =>
          rw [asked] at hits fits'
          dsimp only at hits fits' ⊢
          rw [hits]
          cases (candidates level (loaded.levels level) key).mapM
              (SstableFile.lookupSync · decompressVec key none) with
          | error failure => exact ⟨rfl, fits'⟩
          | ok answers =>
              change _ = (match best level (answers.filterMap _) with
                | some hit => _
                | none => _) ∧ _
              dsimp only [Except.map]
              cases best level (answers.filterMap
                  SstableLookupResult.hit) with
              | some hit => exact ⟨rfl, fits'⟩
              | none => exact inductionHypothesis fits'

end LoadedTables

namespace Store

variable {config : StoreConfig} {store : Store}

/-- The reads of an engine find what they would find with nothing in
memory. -/
theorem caching_plain (paths : TablePaths (Among seen))
    (among : ∀ level, ∀ table ∈ store.levels level,
      table.handle ∈ seen ∧ table.handle.decompressedBlock = none)
    (fits : shared.Fits config.decompressVec seen) (key : String) :
    ((store.getCaching config key shared).1 = store.get config none key ∧
        (store.getCaching config key shared).2.Fits config.decompressVec
          seen) ∧
      (store.tryGetSyncCaching config key shared).1 =
          store.tryGetSync config none key ∧
        (store.tryGetSyncCaching config key shared).2.Fits
          config.decompressVec seen := by
  have here : ∀ level, ∀ table ∈ store.loaded.levels level,
      table ∈ seen ∧ table.decompressedBlock = none := by
    intro level table member
    obtain ⟨live, listed, rfl⟩ := List.mem_map.mp member
    exact among level live listed
  rw [getCaching, tryGetSyncCaching, get, tryGetSync]
  cases getFromMemtables (store.active :: store.immutables) key with
  | found value => exact ⟨⟨rfl, fits⟩, rfl, fits⟩
  | tombstone => exact ⟨⟨rfl, fits⟩, rfl, fits⟩
  | missing =>
      exact ⟨LoadedTables.getFromSstablesCaching_plain paths here _ fits,
        LoadedTables.getFromSstablesSyncCaching_plain paths here _ fits⟩

end Store

end

end F4kvsLsm
