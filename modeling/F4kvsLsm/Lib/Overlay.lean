import Std.Data.TreeMap.Lemmas
import Mathlib.Data.List.Nodup

/-!
# Overlaying layers of versions

A layer gives some keys a version, which is a value or the mark of a deletion.
Laying one layer on top of another replaces the versions that it has.  What is
left of a stack of layers is, for each key, the version in the topmost layer
that has one.
-/

namespace Overlay

universe u v

variable {κ : Type u} {ν : Type v}

/-- The version of a key in a layer; a deletion has no value. -/
def version [DecidableEq κ] (layer : List (κ × ν × Bool)) (key : κ) :
    Option (Option ν) :=
  (layer.find? fun entry => entry.1 = key).map fun entry =>
    if entry.2.2 then none else some entry.2.1

/-- The version of a key in the topmost layer that has one; the topmost layer
is the last. -/
def topmost [DecidableEq κ] (layers : List (List (κ × ν × Bool))) (key : κ) :
    Option (Option ν) :=
  layers.reverse.findSome? (version · key)

section

variable [DecidableEq κ] {layers : List (List (κ × ν × Bool))}
variable {layer : List (κ × ν × Bool)} {key : κ}

@[simp]
theorem version_nil (key : κ) :
    version ([] : List (κ × ν × Bool)) key = none := rfl

@[simp]
theorem topmost_nil (key : κ) :
    topmost ([] : List (List (κ × ν × Bool))) key = none := rfl

theorem version_cons (entry : κ × ν × Bool) (rest : List (κ × ν × Bool))
    (key : κ) :
    version (entry :: rest) key =
      if entry.1 = key then some (if entry.2.2 then none else some entry.2.1)
      else version rest key := by
  rw [version, List.find?_cons]
  by_cases same : entry.1 = key
  · simp [same]
  · simp [same, version]

theorem version_eq_none_iff :
    version layer key = none ↔ ∀ entry ∈ layer, entry.1 ≠ key := by
  simp [version]

/-- A part of a layer that is chosen by key has the versions of its keys. -/
theorem version_filter (chosen : κ → Bool) (layer : List (κ × ν × Bool))
    (key : κ) :
    version (layer.filter (chosen ·.1)) key =
      if chosen key then version layer key else none := by
  induction layer with
  | nil => simp
  | cons entry rest inductionHypothesis =>
      rw [List.filter_cons, version_cons]
      by_cases same : entry.1 = key
      · subst same
        cases holds : chosen entry.1 with
        | true =>
            rw [if_pos rfl, version_cons, if_pos rfl, if_pos rfl, if_pos rfl]
        | false =>
            rw [if_neg (by simp), inductionHypothesis, holds]
            rfl
      · rw [if_neg same]
        split
        · rw [version_cons, if_neg same, inductionHypothesis]
        · exact inductionHypothesis

theorem topmost_append (below above : List (List (κ × ν × Bool)))
    (key : κ) :
    topmost (below ++ above) key =
      (topmost above key).or (topmost below key) := by
  rw [topmost, List.reverse_append, List.findSome?_append]
  rfl

theorem topmost_singleton (layer : List (κ × ν × Bool)) (key : κ) :
    topmost [layer] key = version layer key := by
  rw [topmost, List.reverse_singleton, List.findSome?_singleton]

theorem topmost_map_filter (chosen : κ → Bool)
    (layers : List (List (κ × ν × Bool))) {key : κ}
    (holds : chosen key = true) :
    topmost (layers.map (List.filter (chosen ·.1))) key =
      topmost layers key := by
  rw [topmost, topmost, ← List.map_reverse, List.findSome?_map]
  congr 1
  funext layer
  rw [Function.comp, version_filter, if_pos holds]

end

/-! ## Merging into an ordered map -/

section

variable [Ord κ] [Std.TransOrd κ] [Std.LawfulEqOrd κ]

/-- Lay one layer on top of what has been merged. -/
def applyLayer (merged : Std.TreeMap κ ν) (layer : List (κ × ν × Bool)) :
    Std.TreeMap κ ν :=
  layer.foldl
    (fun merged entry =>
      if entry.2.2 then merged.erase entry.1
      else merged.insert entry.1 entry.2.1) merged

/-- What holds of all values below and of those of the layer holds of all
values afterwards. -/
theorem applyLayer_forall
    {holds : κ → ν → Prop} {layer : List (κ × ν × Bool)}
    (ofLayer : ∀ entry ∈ layer, holds entry.1 entry.2.1)
    {merged : Std.TreeMap κ ν}
    (below : ∀ key value, merged[key]? = some value → holds key value) :
    ∀ key value, (applyLayer merged layer)[key]? = some value →
      holds key value := by
  induction layer generalizing merged with
  | nil => exact below
  | cons entry rest inductionHypothesis =>
      rw [applyLayer, List.foldl_cons]
      apply inductionHypothesis fun other member =>
        ofLayer other (List.mem_cons_of_mem _ member)
      intro key value found
      split at found
      · rw [Std.TreeMap.getElem?_erase] at found
        split at found
        · exact absurd found (by simp)
        · exact below key value found
      · rw [Std.TreeMap.getElem?_insert] at found
        split at found
        · case isTrue same =>
            rw [← Option.some.inj found,
              ← Std.LawfulEqOrd.compare_eq_iff_eq.mp same]
            exact ofLayer entry List.mem_cons_self
        · exact below key value found

variable [DecidableEq κ]

/-- A layer has one version of a key at most. -/
def OneVersion (layer : List (κ × ν × Bool)) : Prop :=
  (layer.map Prod.fst).Nodup

theorem applyLayer_get {layer : List (κ × ν × Bool)}
    (single : OneVersion layer) (merged : Std.TreeMap κ ν) (key : κ) :
    (applyLayer merged layer)[key]? =
      (version layer key).getD merged[key]? := by
  induction layer generalizing merged with
  | nil => rfl
  | cons entry rest inductionHypothesis =>
      rw [OneVersion, List.map_cons, List.nodup_cons] at single
      rw [applyLayer, List.foldl_cons]
      change (applyLayer _ rest)[key]? = _
      rw [inductionHypothesis single.2, version_cons]
      by_cases same : entry.1 = key
      · have behind : version rest key = none := by
          apply version_eq_none_iff.mpr
          intro other member sameKey
          apply single.1
          rw [same, ← sameKey]
          exact List.mem_map_of_mem member
        rw [behind, if_pos same, Option.getD_none, Option.getD_some]
        split
        · rw [Std.TreeMap.getElem?_erase, if_pos (by simp [same])]
        · rw [Std.TreeMap.getElem?_insert, if_pos (by simp [same])]
      · rw [if_neg same]
        congr 1
        split
        · rw [Std.TreeMap.getElem?_erase, if_neg (by simpa using same)]
        · rw [Std.TreeMap.getElem?_insert, if_neg (by simpa using same)]

theorem foldl_applyLayer_get {layers : List (List (κ × ν × Bool))}
    (single : ∀ layer ∈ layers, OneVersion layer)
    (merged : Std.TreeMap κ ν) (key : κ) :
    (layers.foldl applyLayer merged)[key]? =
      (topmost layers key).getD merged[key]? := by
  induction layers generalizing merged with
  | nil => rfl
  | cons layer rest inductionHypothesis =>
      rw [List.foldl_cons, inductionHypothesis fun other member =>
          single other (List.mem_cons_of_mem _ member),
        applyLayer_get (single layer List.mem_cons_self)]
      have split : topmost (layer :: rest) key =
          (topmost rest key).or (version layer key) := by
        rw [← topmost_singleton]
        exact topmost_append [layer] rest key
      rw [split]
      cases topmost rest key with
      | none => rfl
      | some found => rfl

/-- What is left of a stack of layers. -/
theorem overlay_get {layers : List (List (κ × ν × Bool))}
    (single : ∀ layer ∈ layers, OneVersion layer) (key : κ) :
    (layers.foldl applyLayer (∅ : Std.TreeMap κ ν))[key]? =
      (topmost layers key).join := by
  rw [foldl_applyLayer_get single]
  cases topmost layers key with
  | none => simp
  | some found => rfl

end

end Overlay
