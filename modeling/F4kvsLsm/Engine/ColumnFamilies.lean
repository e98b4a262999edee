import F4kvsLsm.Engine.Scans

/-!
# Column families

A column family is a name.  Its keys are kept among all others, behind the
name and `#`, and its scans take that front off again.
-/

namespace F4kvsLsm

open KeyOrder

/-! ## Keys of a family -/

/-- `format!("{}#{}", column_family, key)` -/
def familyKey (family key : String) : String :=
  family ++ "#" ++ key

/-- `key[front.len()..]`, for a key that starts with `front`. -/
def dropFront (front key : String) : String :=
  String.ofList (key.toList.drop front.toList.length)

def withoutFront (front : String) (keys : List String) : List String :=
  keys.filterMap fun key =>
    if startsWith key front then some (dropFront front key) else none

def itemsWithoutFront (front : String) (items : List (String × Value)) :
    List (String × Value) :=
  items.filterMap fun item =>
    if startsWith item.1 front then some (dropFront front item.1, item.2)
    else none

theorem toList_familyKey (family key : String) :
    (familyKey family key).toList =
      (familyKey family "").toList ++ key.toList := by
  simp [familyKey]

theorem startsWith_familyKey (family key rest : String) :
    startsWith (familyKey family (key ++ rest)) (familyKey family key) =
      true := by
  rw [startsWith_iff, toList_familyKey family (key ++ rest),
    toList_familyKey family key, String.toList_append, ← List.append_assoc]
  exact List.prefix_append _ _

theorem exists_familyKey {family front key : String}
    (starts : startsWith key (familyKey family front) = true) :
    ∃ rest, key = familyKey family (front ++ rest) := by
  obtain ⟨rest, whole⟩ := startsWith_iff.mp starts
  refine ⟨String.ofList rest, ?_⟩
  rw [← String.toList_inj, toList_familyKey, String.toList_append,
    String.toList_ofList, ← List.append_assoc, ← toList_familyKey, whole]

theorem dropFront_familyKey (family front rest : String) :
    dropFront (familyKey family front) (familyKey family (front ++ rest)) =
      rest := by
  rw [dropFront, toList_familyKey family (front ++ rest),
    String.toList_append, ← List.append_assoc, ← toList_familyKey,
    List.drop_left, String.ofList_toList]

theorem familyKey_lt_familyKey_iff {family first second : String} :
    familyKey family first < familyKey family second ↔ first < second := by
  rw [String.lt_iff_toList_lt, toList_familyKey, toList_familyKey family second,
    append_lt_append_iff, ← String.lt_iff_toList_lt]

theorem familyKey_injective {family first second : String}
    (same : familyKey family first = familyKey family second) :
    first = second := by
  rw [← String.toList_inj, toList_familyKey, toList_familyKey family second]
    at same
  exact String.toList_inj.mp (List.append_cancel_left same)

theorem append_lt_append_left_iff {front first second : String} :
    front ++ first < front ++ second ↔ first < second := by
  rw [String.lt_iff_toList_lt, String.toList_append, String.toList_append,
    append_lt_append_iff, ← String.lt_iff_toList_lt]

theorem familyKey_empty (family : String) :
    familyKey family "" = family ++ "#" := by
  rw [familyKey, String.append_empty]

/-- Taking a front off keeps the keys with this front apart. -/
theorem dropFront_injOn (family front : String) :
    Set.InjOn (dropFront (familyKey family front))
      {key | startsWith key (familyKey family front) = true} := by
  intro first firstStarts second secondStarts same
  rcases exists_familyKey firstStarts with ⟨rest, rfl⟩
  rcases exists_familyKey secondStarts with ⟨rest', rfl⟩
  rw [dropFront_familyKey, dropFront_familyKey] at same
  rw [same]

theorem dropFront_lt_dropFront
    {family front first second : String}
    (firstStarts : startsWith first (familyKey family front) = true)
    (secondStarts : startsWith second (familyKey family front) = true)
    (less : first < second) :
    dropFront (familyKey family front) first <
      dropFront (familyKey family front) second := by
  rcases exists_familyKey firstStarts with ⟨rest, rfl⟩
  rcases exists_familyKey secondStarts with ⟨rest', rfl⟩
  rw [dropFront_familyKey, dropFront_familyKey]
  exact append_lt_append_left_iff.mp (familyKey_lt_familyKey_iff.mp less)

theorem withoutFront_eq_map
    {front : String} {keys : List String}
    (starts : ∀ key ∈ keys, startsWith key front = true) :
    withoutFront front keys = keys.map (dropFront front) := by
  rw [withoutFront, ← List.filterMap_eq_map]
  apply List.filterMap_congr
  intro key member
  rw [if_pos (starts key member)]
  rfl

theorem itemsWithoutFront_eq_map
    {front : String} {items : List (String × Value)}
    (starts : ∀ item ∈ items, startsWith item.1 front = true) :
    itemsWithoutFront front items =
      items.map fun item => (dropFront front item.1, item.2) := by
  rw [itemsWithoutFront, ← List.filterMap_eq_map]
  apply List.filterMap_congr
  intro item member
  rw [if_pos (starts item member)]
  rfl

theorem startsWith_dropFront_iff {family front key rest : String} :
    startsWith key (familyKey family front) = true ∧
        dropFront (familyKey family front) key = rest ↔
      key = familyKey family (front ++ rest) := by
  constructor
  · rintro ⟨starts, rfl⟩
    rcases exists_familyKey starts with ⟨behind, rfl⟩
    rw [dropFront_familyKey]
  · rintro rfl
    exact ⟨startsWith_familyKey family front rest,
      dropFront_familyKey family front rest⟩

theorem mem_withoutFront
    {family front rest : String} {keys : List String} :
    rest ∈ withoutFront (familyKey family front) keys ↔
      familyKey family (front ++ rest) ∈ keys := by
  rw [withoutFront, List.mem_filterMap]
  simp only [Option.ite_none_right_eq_some, Option.some.injEq,
    startsWith_dropFront_iff, exists_eq_right]

theorem mem_itemsWithoutFront
    {family front : String} {items : List (String × Value)}
    {item : String × Value} :
    item ∈ itemsWithoutFront (familyKey family front) items ↔
      (familyKey family (front ++ item.1), item.2) ∈ items := by
  obtain ⟨rest, value⟩ := item
  rw [itemsWithoutFront, List.mem_filterMap]
  simp only [Option.ite_none_right_eq_some, Option.some.injEq,
    Prod.mk.injEq, ← and_assoc, startsWith_dropFront_iff]
  constructor
  · rintro ⟨⟨key, value⟩, ⟨member, rfl⟩, rfl⟩
    exact member
  · exact fun member => ⟨_, ⟨member, rfl⟩, rfl⟩

theorem mem_map_dropFront
    {keys : List String} {family front key : String}
    (starts : ∀ other ∈ keys,
      startsWith other (familyKey family front) = true) :
    key ∈ keys.map (dropFront (familyKey family front)) ↔
      familyKey family (front ++ key) ∈ keys := by
  rw [List.mem_map]
  constructor
  · rintro ⟨other, member, rfl⟩
    rcases exists_familyKey (starts other member) with ⟨rest, rfl⟩
    rw [dropFront_familyKey]
    exact member
  · exact fun member => ⟨_, member, dropFront_familyKey family front key⟩

/-! ## Reads and writes of a family -/

/-- Every operation looks the family up first. -/
def checkFamily (families : List String) (family : String) :
    Except ScanFailure Unit :=
  if family ∈ families then .ok ()
  else .error (.storage ("Column family not found: " ++ family))

namespace LsmTree

variable (faults : ReadFaults) (levelCount : Nat) (families : List String)
variable (tree : LsmTree)

def getCf (key family : String) : Except ScanFailure (Option Value) := do
  checkFamily families family
  return tree.get levelCount (familyKey family key)

def existsCf (key family : String) : Except ScanFailure Bool := do
  checkFamily families family
  return tree.existsKey levelCount (familyKey family key)

def batchGetCf (keys : List String) (family : String) :
    Except ScanFailure (List (Option Value)) := do
  checkFamily families family
  return keys.map fun key => tree.get levelCount (familyKey family key)

def scanPrefixCf (keyPrefix family : String) :
    Except ScanFailure (List String) := do
  checkFamily families family
  let keys ← tree.scanPrefix faults levelCount (familyKey family keyPrefix)
  return withoutFront (familyKey family keyPrefix) keys

/-- The end of a range of the family; without one it is the front of the
family itself. -/
def familyEnd (family rangeEnd : String) : String :=
  if rangeEnd = "" then family ++ "#" else familyKey family rangeEnd

def scanRangeCf (start rangeEnd family : String) :
    Except ScanFailure (List String) := do
  checkFamily families family
  let keys ← tree.scanRange faults levelCount (familyKey family start)
    (familyEnd family rangeEnd)
  return withoutFront (family ++ "#") keys

def scanRangeLimitCf (start rangeEnd : String) (limit : Nat)
    (family : String) : Except ScanFailure (List String) := do
  checkFamily families family
  let keys ← tree.scanRangeLimit faults levelCount (familyKey family start)
    (familyEnd family rangeEnd) limit
  return withoutFront (family ++ "#") keys

def scanAllCf (family : String) :
    Except ScanFailure (List (String × Value)) := do
  checkFamily families family
  let items ← tree.scanPrefixWithValues faults levelCount (family ++ "#")
  return itemsWithoutFront (family ++ "#") items

def scanPrefixWithValuesCf (keyPrefix family : String) :
    Except ScanFailure (List (String × Value)) := do
  checkFamily families family
  let items ← tree.scanPrefixWithValues faults levelCount
    (familyKey family keyPrefix)
  return itemsWithoutFront (familyKey family keyPrefix) items

def scanRangeWithValuesCf (start rangeEnd family : String) :
    Except ScanFailure (List (String × Value)) := do
  checkFamily families family
  let items ← tree.scanRangeWithValues faults levelCount
    (familyKey family start) (familyEnd family rangeEnd)
  return itemsWithoutFront (family ++ "#") items

/-- The test of `iter_range_cf` on a key without its front. -/
def iterKeeps (start rangeEnd key : String) : Bool :=
  if start = "" ∧ rangeEnd = "" then true
  else if start = "" then key ≤ rangeEnd
  else if rangeEnd = "" then start ≤ key
  else start ≤ key ∧ key ≤ rangeEnd

def iterRangeCf (start rangeEnd family : String) :
    Except ScanFailure (List (String × Value)) := do
  let items ←
    tree.scanRangeWithValuesCf faults levelCount families start rangeEnd family
  return items.filter fun item => iterKeeps start rangeEnd item.1

end LsmTree

end F4kvsLsm
