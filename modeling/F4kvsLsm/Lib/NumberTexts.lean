import Mathlib.Data.List.Basic
import F4kvsLsm.Lib.Digits

/-!
# Reading numbers

A text is read as a number digit by digit, in any base up to sixteen and below
a limit.  The digits of a number are read as that number, with any number of
zeros before them.  Parts of a text are found by what stands before and behind
them.
-/

namespace Digits

/-! ## Digits -/

/-- The value of a digit, in either case; there is none that the base does
not have. -/
def toDigit (base : Nat) (c : Char) : Option Nat :=
  let value :=
    if '0' ≤ c ∧ c ≤ '9' then c.toNat - '0'.toNat
    else if 'a' ≤ c ∧ c ≤ 'z' then c.toNat - 'a'.toNat + 10
    else if 'A' ≤ c ∧ c ≤ 'Z' then c.toNat - 'A'.toNat + 10
    else base
  if value < base then some value else none

/-- The loop over the digits; a number that reaches the limit is none. -/
def readDigits (base limit : Nat) : List Char → Nat → Option Nat
  | [], number => some number
  | c :: rest, number =>
      match toDigit base c with
      | none => none
      | some digit =>
          if number * base + digit < limit then
            readDigits base limit rest (number * base + digit)
          else none

def withoutSign (text : List Char) : List Char :=
  if text.head? = some '+' then text.tail else text

/-- An optional sign, and then at least one digit. -/
def fromStrRadix (base limit : Nat) (text : List Char) : Option Nat :=
  if withoutSign text = [] then none
  else readDigits base limit (withoutSign text) 0

theorem toDigit_digitChar {base digit : Nat} (base_le : base ≤ 16)
    (small : digit < base) : toDigit base digit.digitChar = some digit := by
  have all : ∀ base ≤ 16, ∀ digit < base,
      toDigit base (Nat.digitChar digit) = some digit := by decide
  exact all base base_le digit small

theorem readDigits_append
    {base limit number : Nat} (front back : List Char) :
    readDigits base limit (front ++ back) number =
      (readDigits base limit front number).bind
        (readDigits base limit back) := by
  induction front generalizing number with
  | nil => rfl
  | cons c rest inductionHypothesis =>
      rw [List.cons_append, readDigits, readDigits]
      cases toDigit base c with
      | none => rfl
      | some digit =>
          dsimp only
          split
          · exact inductionHypothesis
          · rfl

theorem readDigits_lt {base limit number result : Nat} {text : List Char}
    (small : number < limit)
    (read : readDigits base limit text number = some result) :
    result < limit := by
  induction text generalizing number with
  | nil =>
      cases read
      exact small
  | cons c rest inductionHypothesis =>
      rw [readDigits] at read
      split at read
      · cases read
      · split at read
        · case isTrue below => exact inductionHypothesis below read
        · cases read

theorem fromStrRadix_lt {base limit result : Nat} {text : List Char}
    (read : fromStrRadix base limit text = some result) :
    result < limit := by
  have positive : 0 < limit := by
    rw [fromStrRadix] at read
    split at read
    · cases read
    · case isFalse nonempty =>
        rw [Nat.pos_iff_ne_zero]
        rintro rfl
        obtain ⟨c, rest, digits⟩ := List.exists_cons_of_ne_nil nonempty
        rw [digits, readDigits] at read
        split at read
        · cases read
        · rw [if_neg (Nat.not_lt_zero _)] at read
          cases read
  rw [fromStrRadix] at read
  split at read
  · cases read
  · exact readDigits_lt positive read

theorem readDigits_singleton {base limit number digit : Nat}
    (base_le : base ≤ 16) (small : digit < base)
    (below : number * base + digit < limit) :
    readDigits base limit [digit.digitChar] number =
      some (number * base + digit) := by
  rw [readDigits, toDigit_digitChar base_le small]
  dsimp only
  rw [if_pos below]
  rfl

theorem readDigits_toDigits {base limit number : Nat} (base_gt : 1 < base)
    (base_le : base ≤ 16) (small : number < limit) :
    readDigits base limit (Nat.toDigits base number) 0 = some number := by
  induction number using Nat.strongRecOn with
  | ind number inductionHypothesis =>
      by_cases short : number < base
      · rw [Nat.toDigits_of_lt_base short,
          readDigits_singleton base_le short (by omega), Nat.zero_mul,
          Nat.zero_add]
      · have large := Nat.le_of_not_lt short
        have less : number / base < number :=
          Nat.div_lt_self (by omega) base_gt
        have parts : number / base * base + number % base = number := by
          rw [Nat.mul_comm]
          exact Nat.div_add_mod number base
        have digit := Nat.mod_lt number (Nat.zero_lt_of_lt base_gt)
        rw [Nat.toDigits_of_base_le base_gt large, readDigits_append,
          inductionHypothesis _ less (by omega)]
        dsimp only [Option.bind_some]
        rw [readDigits_singleton base_le digit (by omega), parts]

theorem readDigits_zeros {base limit : Nat} (positive : 0 < base)
    (base_le : base ≤ 16) (limited : 0 < limit) (count : Nat) :
    readDigits base limit (List.replicate count '0') 0 = some 0 := by
  induction count with
  | zero => rfl
  | succ count inductionHypothesis =>
      rw [List.replicate_succ, readDigits,
        show toDigit base '0' = some 0 from
          toDigit_digitChar base_le positive]
      dsimp only
      rw [Nat.zero_mul, if_pos limited]
      exact inductionHypothesis

theorem digitChar_ne_plus {digit : Nat} (small : digit < 16) :
    digit.digitChar ≠ '+' := by
  have all : ∀ digit < 16, Nat.digitChar digit ≠ '+' := by decide
  exact all digit small

theorem mem_toDigits {base number : Nat} (base_gt : 1 < base) {c : Char}
    (member : c ∈ Nat.toDigits base number) :
    ∃ digit < base, c = digit.digitChar := by
  induction number using Nat.strongRecOn with
  | ind number inductionHypothesis =>
      by_cases short : number < base
      · rw [Nat.toDigits_of_lt_base short, List.mem_singleton] at member
        exact ⟨number, short, member⟩
      · have large := Nat.le_of_not_lt short
        rw [Nat.toDigits_of_base_le base_gt large, List.mem_append,
          List.mem_singleton] at member
        rcases member with before | last
        · exact inductionHypothesis _
            (Nat.div_lt_self (by omega) base_gt) before
        · exact ⟨_, Nat.mod_lt number (Nat.zero_lt_of_lt base_gt), last⟩

/-- A number below the limit is read back, whatever zeros stand before it. -/
theorem fromStrRadix_zeros_toDigits {base limit number : Nat}
    (base_gt : 1 < base) (base_le : base ≤ 16) (small : number < limit)
    (count : Nat) :
    fromStrRadix base limit
      (List.replicate count '0' ++ Nat.toDigits base number) =
        some number := by
  let text := List.replicate count '0' ++ Nat.toDigits base number
  have nonempty : text ≠ [] :=
    List.append_ne_nil_of_right_ne_nil _ Nat.toDigits_ne_nil
  have unsigned : ¬ text.head? = some '+' := by
    intro sign
    rcases List.mem_append.mp (List.mem_of_mem_head? sign) with zero | digit
    · exact absurd (List.eq_of_mem_replicate zero) (by decide)
    · obtain ⟨digit, below, same⟩ := mem_toDigits base_gt digit
      exact digitChar_ne_plus (by omega) same.symm
  have zeros := readDigits_zeros (by omega) base_le
    (Nat.zero_lt_of_lt small) count
  rw [fromStrRadix, withoutSign, if_neg unsigned, if_neg nonempty,
    readDigits_append, zeros]
  exact readDigits_toDigits base_gt base_le small

theorem fromStrRadix_toDigits {base limit number : Nat} (base_gt : 1 < base)
    (base_le : base ≤ 16) (small : number < limit) :
    fromStrRadix base limit (Nat.toDigits base number) = some number :=
  fromStrRadix_zeros_toDigits base_gt base_le small 0

/-! ## Parts of a text -/

section

universe u

variable {α : Type u}

/-- What stands before the last separator, and what comes after it. -/
theorem append_last_separator_inj {separator : α}
    {first second rest rest' : List α} (free : separator ∉ rest)
    (free' : separator ∉ rest')
    (same : first ++ separator :: rest = second ++ separator :: rest') :
    first = second ∧ rest = rest' := by
  have reversed := congrArg List.reverse same
  rw [List.reverse_append, List.reverse_append, List.reverse_cons,
    List.reverse_cons, List.append_assoc, List.append_assoc,
    List.singleton_append, List.singleton_append] at reversed
  obtain ⟨rests, firsts⟩ := append_separator_inj
    (mt List.mem_reverse.mp free) (mt List.mem_reverse.mp free') reversed
  exact ⟨List.reverse_injective firsts, List.reverse_injective rests⟩

variable [DecidableEq α]

/-- What stands before and behind the first separator. -/
def splitOnce (separator : α) : List α → Option (List α × List α)
  | [] => none
  | item :: rest =>
      if item = separator then some ([], rest)
      else (splitOnce separator rest).map fun (front, back) =>
        (item :: front, back)

theorem splitOnce_append {separator : α} {front back : List α}
    (free : separator ∉ front) :
    splitOnce separator (front ++ separator :: back) =
      some (front, back) := by
  induction front with
  | nil => exact if_pos rfl
  | cons item rest inductionHypothesis =>
      rw [List.mem_cons, not_or] at free
      obtain ⟨other, behind⟩ := free
      rw [List.cons_append, splitOnce, if_neg (Ne.symm other),
        inductionHypothesis behind]
      rfl

theorem takeWhile_append_separator {separator : α} {front back : List α}
    (free : separator ∉ front) :
    (front ++ separator :: back).takeWhile (· ≠ separator) = front := by
  induction front with
  | nil => simp
  | cons item rest inductionHypothesis =>
      rw [List.mem_cons, not_or] at free
      obtain ⟨other, behind⟩ := free
      rw [List.cons_append, List.takeWhile_cons_of_pos (by simp [Ne.symm other]),
        inductionHypothesis behind]

end

end Digits
