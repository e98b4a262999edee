import Std.Data.TreeMap.Lemmas
import Mathlib.Algebra.GroupWithZero.Nat
import Mathlib.Algebra.Order.BigOperators.Group.List
import Mathlib.Data.List.Nodup
import Mathlib.Data.List.Perm.Basic

/-!
# The total weight of a map

Each entry of a map weighs something that depends on its key and its value.
Writing or removing one key changes the total by the weight of that key's
entry alone, so a counter that is kept beside a map can be compared with the
total one operation at a time.
-/

namespace MapTotal

universe u v

variable {κ : Type u} {ν : Type v} [Ord κ]

/-- The sum of the weights of all entries. -/
def total (weigh : κ → ν → Nat) (map : Std.TreeMap κ ν) : Nat :=
  (map.toList.map fun item => weigh item.1 item.2).sum

/-- The weight of the entry of one key, when there is one. -/
def weightAt (weigh : κ → ν → Nat) (map : Std.TreeMap κ ν) (key : κ) : Nat :=
  match map[key]? with
  | some value => weigh key value
  | none => 0

/-- The entries of all other keys. -/
def others [DecidableEq κ] (map : Std.TreeMap κ ν) (key : κ) :
    List (κ × ν) :=
  map.toList.filter fun item => item.1 ≠ key

variable {weigh : κ → ν → Nat} {map : Std.TreeMap κ ν} {key : κ} {value : ν}

@[simp]
theorem total_empty (weigh : κ → ν → Nat) :
    total weigh (∅ : Std.TreeMap κ ν) = 0 := rfl

theorem weightAt_of_some (found : map[key]? = some value) :
    weightAt weigh map key = weigh key value := by
  rw [weightAt, found]

theorem weightAt_of_none (missing : map[key]? = none) :
    weightAt weigh map key = 0 := by
  rw [weightAt, missing]

theorem total_of_isEmpty
    (weigh : κ → ν → Nat) (empty : map.isEmpty = true) :
    total weigh map = 0 := by
  rw [← Std.TreeMap.isEmpty_toList, List.isEmpty_iff] at empty
  rw [total, empty, List.map_nil, List.sum_nil]

variable [Std.TransOrd κ] [Std.LawfulEqOrd κ]

theorem nodup_toList (map : Std.TreeMap κ ν) : map.toList.Nodup := by
  refine map.distinct_keys_toList.imp ?_
  intro first second apart same
  exact apart (Std.compare_eq_iff_eq.mpr (congrArg Prod.fst same))

variable [DecidableEq κ]

theorem mem_others {item : κ × ν} :
    item ∈ others map key ↔ map[item.1]? = some item.2 ∧ item.1 ≠ key := by
  rw [others, List.mem_filter, decide_eq_true_eq]
  exact and_congr_left fun _ => Std.TreeMap.mem_toList_iff_getElem?_eq_some

theorem nodup_others (map : Std.TreeMap κ ν) (key : κ) :
    (others map key).Nodup :=
  (nodup_toList map).filter _

theorem toList_perm_of_some (found : map[key]? = some value) :
    map.toList.Perm ((key, value) :: others map key) := by
  have apart : (key, value) ∉ others map key := fun member =>
    (mem_others.mp member).2 rfl
  rw [List.perm_ext_iff_of_nodup (nodup_toList map)
    (List.nodup_cons.mpr ⟨apart, nodup_others map key⟩)]
  rintro ⟨other, held⟩
  rw [List.mem_cons, mem_others,
    Std.TreeMap.mem_toList_iff_getElem?_eq_some, Prod.mk.injEq]
  by_cases same : other = key
  · subst same
    rw [found]
    simp [eq_comm]
  · simp [same]

theorem others_of_none (missing : map[key]? = none) :
    others map key = map.toList := by
  rw [others, List.filter_eq_self]
  rintro ⟨other, held⟩ member
  rw [decide_eq_true_eq]
  rintro rfl
  rw [Std.TreeMap.mem_toList_iff_getElem?_eq_some, missing] at member
  cases member

theorem others_congr
    {map' : Std.TreeMap κ ν}
    (same : ∀ other, other ≠ key → map'[other]? = map[other]?) :
    (others map' key).Perm (others map key) := by
  rw [List.perm_ext_iff_of_nodup (nodup_others map' key)
    (nodup_others map key)]
  rintro ⟨other, held⟩
  rw [mem_others, mem_others]
  exact and_congr_left fun different => by rw [same other different]

theorem total_eq (weigh : κ → ν → Nat) (map : Std.TreeMap κ ν) (key : κ) :
    total weigh map = weightAt weigh map key +
      ((others map key).map fun item => weigh item.1 item.2).sum := by
  cases found : map[key]? with
  | none =>
      rw [total, weightAt_of_none found, others_of_none found, Nat.zero_add]
  | some value =>
      have split := (toList_perm_of_some found).map
        fun item => weigh item.1 item.2
      rw [total, split.sum_eq, weightAt_of_some found, List.map_cons,
        List.sum_cons]

theorem weightAt_le_total (weigh : κ → ν → Nat) (map : Std.TreeMap κ ν)
    (key : κ) : weightAt weigh map key ≤ total weigh map := by
  rw [total_eq weigh map key]
  exact Nat.le_add_right _ _

/-- Two maps that differ at most at one key. -/
theorem total_congr
    {map' : Std.TreeMap κ ν}
    (same : ∀ other, other ≠ key → map'[other]? = map[other]?) :
    total weigh map' + weightAt weigh map key =
      total weigh map + weightAt weigh map' key := by
  have rest := ((others_congr same).map
    fun item => weigh item.1 item.2).sum_eq
  rw [total_eq weigh map key, total_eq weigh map' key, rest]
  omega

/-- What is written takes the place of what was there. -/
theorem total_insert
    (weigh : κ → ν → Nat) (map : Std.TreeMap κ ν) (key : κ) (value : ν) :
    total weigh (map.insert key value) + weightAt weigh map key =
      total weigh map + weigh key value := by
  have here : (map.insert key value)[key]? = some value := by
    simp
  have weight : weightAt weigh (map.insert key value) key =
      weigh key value := weightAt_of_some here
  rw [← weight]
  apply total_congr
  intro other different
  rw [Std.TreeMap.getElem?_insert,
    if_neg fun same => different (Std.compare_eq_iff_eq.mp same).symm]

theorem total_erase
    (weigh : κ → ν → Nat) (map : Std.TreeMap κ ν) (key : κ) :
    total weigh (map.erase key) + weightAt weigh map key =
      total weigh map := by
  have gone : (map.erase key)[key]? = none := by
    simp
  have changed : total weigh (map.erase key) + weightAt weigh map key =
      total weigh map + weightAt weigh (map.erase key) key := by
    apply total_congr
    intro other different
    rw [Std.TreeMap.getElem?_erase,
      if_neg fun same => different (Std.compare_eq_iff_eq.mp same).symm]
  rw [changed, weightAt_of_none gone, Nat.add_zero]

end MapTotal
