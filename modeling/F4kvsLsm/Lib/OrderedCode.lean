import Mathlib.Data.List.Lex
import Mathlib.Data.String.Basic
import Mathlib.Data.UInt

/-!
# Codes that keep the order

A code gives every item a word.  When the words of two different items first
differ in favour of the smaller item, writing a list as one long word keeps
the lexicographic order.  UTF-8 is such a code for characters.
-/

namespace OrderedCode

universe u v

variable {α : Type u} {β : Type v} [LinearOrder α] [LT β]

/-- The words have a common front and then a smaller and a greater letter. -/
def FirstDiffers (low high : List β) : Prop :=
  ∃ common small great rest rest', small < great ∧
    low = common ++ small :: rest ∧ high = common ++ great :: rest'

/-- The code keeps the order of any two items, and uses no empty word. -/
structure KeepsOrder (code : α → List β) : Prop where
  differs : ∀ low high, low < high → FirstDiffers (code low) (code high)
  nonempty : ∀ item, code item ≠ []

theorem FirstDiffers.append_lt
    {low high : List β} (differs : FirstDiffers low high)
    (rest rest' : List β) : low ++ rest < high ++ rest' := by
  obtain ⟨common, small, great, behind, behind', less, rfl, rfl⟩ := differs
  rw [List.append_assoc, List.append_assoc]
  apply List.append_left_lt
  exact List.cons_lt_cons_iff.mpr (Or.inl less)

theorem KeepsOrder.flatMap_lt
    {code : α → List β} (keeps : KeepsOrder code) {items items' : List α}
    (less : items < items') : items.flatMap code < items'.flatMap code := by
  induction items generalizing items' with
  | nil =>
      cases items' with
      | nil => exact absurd less (List.not_lt_nil [])
      | cons first rest =>
          cases word : code first with
          | nil => exact absurd word (keeps.nonempty first)
          | cons letter letters =>
              rw [List.flatMap_nil, List.flatMap_cons, word]
              exact List.nil_lt_cons _ _
  | cons first rest inductionHypothesis =>
      cases items' with
      | nil => exact absurd less (List.not_lt_nil _)
      | cons first' rest' =>
          rw [List.flatMap_cons, List.flatMap_cons]
          rcases List.cons_lt_cons_iff.mp less with here | ⟨same, behind⟩
          · exact (keeps.differs first first' here).append_lt _ _
          · subst same
            exact List.append_left_lt (inductionHypothesis behind)

/-- The words of two lists are in the order of the lists. -/
theorem KeepsOrder.flatMap_lt_iff
    [Std.Asymm (α := β) (· < ·)]
    {code : α → List β} (keeps : KeepsOrder code) {items items' : List α} :
    items.flatMap code < items'.flatMap code ↔ items < items' := by
  refine ⟨fun less => ?_, keeps.flatMap_lt⟩
  rcases lt_trichotomy items items' with before | same | behind
  · exact before
  · subst same
    exact absurd less (List.lt_asymm less)
  · exact absurd less (List.lt_asymm (keeps.flatMap_lt behind))

theorem FirstDiffers.not_isPrefix [Std.Irrefl (α := β) (· < ·)]
    {low high : List β} (differs : FirstDiffers low high)
    (rest rest' : List β) :
    ¬ low ++ rest <+: high ++ rest' ∧ ¬ high ++ rest <+: low ++ rest' := by
  obtain ⟨common, small, great, behind, behind', less, rfl, rfl⟩ := differs
  have different : small ≠ great := by
    rintro rfl
    exact Std.Irrefl.irrefl small less
  simp only [List.append_assoc, List.prefix_append_right_inj,
    List.cons_append, List.cons_prefix_cons]
  exact ⟨fun starts => different starts.1,
    fun starts => different starts.1.symm⟩

/-- The words of one list begin the words of another exactly when the list
begins the other. -/
theorem KeepsOrder.flatMap_isPrefix_iff [Std.Irrefl (α := β) (· < ·)]
    {code : α → List β} (keeps : KeepsOrder code) {items items' : List α} :
    items.flatMap code <+: items'.flatMap code ↔ items <+: items' := by
  induction items generalizing items' with
  | nil => exact iff_of_true List.nil_prefix List.nil_prefix
  | cons first rest inductionHypothesis =>
      rw [List.flatMap_cons]
      cases items' with
      | nil =>
          refine iff_of_false (fun starts => ?_) (by simp)
          rw [List.flatMap_nil, List.prefix_nil, List.append_eq_nil_iff]
            at starts
          exact keeps.nonempty first starts.1
      | cons first' rest' =>
          rw [List.flatMap_cons, List.cons_prefix_cons]
          rcases lt_trichotomy first first' with before | same | behind
          · refine iff_of_false ?_ fun both => before.ne both.1
            exact ((keeps.differs _ _ before).not_isPrefix _ _).1
          · subst same
            rw [List.prefix_append_right_inj, inductionHypothesis,
              and_iff_right rfl]
          · refine iff_of_false ?_ fun both => behind.ne both.1.symm
            exact ((keeps.differs _ _ behind).not_isPrefix _ _).2

/-! ## UTF-8 -/

private theorem letter_lt {n m : Nat} (less : n < m) (small : m < 256)
    (rest rest' : List UInt8) :
    FirstDiffers (UInt8.ofNat n :: rest) (UInt8.ofNat m :: rest') := by
  refine ⟨[], _, _, rest, rest', ?_, rfl, rfl⟩
  rw [UInt8.lt_iff_toNat_lt, UInt8.toNat_ofNat', UInt8.toNat_ofNat']
  omega

private theorem letter_le {n m : Nat} (order : n ≤ m) (small : m < 256)
    {rest rest' : List UInt8}
    (behind : n = m → FirstDiffers rest rest') :
    FirstDiffers (UInt8.ofNat n :: rest) (UInt8.ofNat m :: rest') := by
  by_cases same : n = m
  · obtain ⟨common, small, great, back, back', less, here, there⟩ :=
      behind same
    refine ⟨UInt8.ofNat n :: common, small, great, back, back', less, ?_, ?_⟩
    · rw [here, List.cons_append]
    · rw [there, same, List.cons_append]
  · exact letter_lt (by omega) small rest rest'

private theorem utf8_differs {low high : Char} (less : low < high) :
    FirstDiffers (String.utf8EncodeChar low) (String.utf8EncodeChar high) := by
  have order : low.val.toNat < high.val.toNat := less
  have bound : high.val.toNat < 0x110000 := by
    have valid := high.valid
    rw [UInt32.isValidChar, Nat.isValidChar] at valid
    omega
  simp only [String.utf8EncodeChar]
  generalize low.val.toNat = n at order ⊢
  generalize high.val.toNat = m at order bound ⊢
  by_cases one : m ≤ 0x7f
  · rw [if_pos one, if_pos (show n ≤ 0x7f by omega)]
    exact letter_lt order (by omega) [] []
  · rw [if_neg one]
    by_cases two : m ≤ 0x7ff
    · rw [if_pos two]
      by_cases short : n ≤ 0x7f
      · rw [if_pos short]
        exact letter_lt (by omega) (by omega) _ _
      · rw [if_neg short, if_pos (show n ≤ 0x7ff by omega)]
        refine letter_le (by omega) (by omega) fun first => ?_
        exact letter_lt (by omega) (by omega) _ _
    · rw [if_neg two]
      by_cases three : m ≤ 0xffff
      · rw [if_pos three]
        by_cases short : n ≤ 0x7f
        · rw [if_pos short]
          exact letter_lt (by omega) (by omega) _ _
        · rw [if_neg short]
          by_cases middle : n ≤ 0x7ff
          · rw [if_pos middle]
            exact letter_lt (by omega) (by omega) _ _
          · rw [if_neg middle, if_pos (show n ≤ 0xffff by omega)]
            refine letter_le (by omega) (by omega) fun first => ?_
            refine letter_le (by omega) (by omega) fun second => ?_
            exact letter_lt (by omega) (by omega) _ _
      · rw [if_neg three]
        by_cases short : n ≤ 0x7f
        · rw [if_pos short]
          exact letter_lt (by omega) (by omega) _ _
        · rw [if_neg short]
          by_cases middle : n ≤ 0x7ff
          · rw [if_pos middle]
            exact letter_lt (by omega) (by omega) _ _
          · rw [if_neg middle]
            by_cases long : n ≤ 0xffff
            · rw [if_pos long]
              exact letter_lt (by omega) (by omega) _ _
            · rw [if_neg long]
              refine letter_le (by omega) (by omega) fun first => ?_
              refine letter_le (by omega) (by omega) fun second => ?_
              refine letter_le (by omega) (by omega) fun third => ?_
              exact letter_lt (by omega) (by omega) _ _

theorem utf8_keepsOrder : KeepsOrder String.utf8EncodeChar := by
  refine ⟨fun low high => utf8_differs, fun item => ?_⟩
  rw [String.utf8EncodeChar]
  split
  · simp
  · split
    · simp
    · split <;> simp

end OrderedCode
