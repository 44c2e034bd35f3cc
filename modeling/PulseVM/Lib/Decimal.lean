import Mathlib.Data.List.Basic
import Mathlib.Tactic.Ring

/-! Decimal numerals as texts, and the integers a text parser takes them for. -/

namespace PulseVM.Lib.Decimal

abbrev Text := List Char

def value (digits : Text) : Nat := Nat.ofDigitChars 10 digits 0

def numeral (n : Nat) : Text := Nat.toDigits 10 n

/-- An unsigned integer below a limit: digits behind an optional plus sign. -/
def parseUnsigned (limit : Nat) (text : Text) : Option Nat :=
  let digits := match text with
    | '+' :: rest => rest
    | text => text
  if digits ≠ [] ∧ digits.all Char.isDigit ∧ value digits < limit then some (value digits) else none

theorem value_numeral (n : Nat) : value (numeral n) = n :=
  Nat.ofDigitChars_toDigits (by decide) (by decide)

theorem numeral_ne_nil (n : Nat) : numeral n ≠ [] := Nat.toDigits_ne_nil

theorem isDigit_of_mem_numeral {n : Nat} {c : Char} (member : c ∈ numeral n) : c.isDigit :=
  Nat.isDigit_of_mem_toDigits (by decide) (by decide) member

theorem isDigit_iff (c : Char) : c.isDigit ↔ 48 ≤ c.toNat ∧ c.toNat ≤ 57 := by
  simp only [Char.isDigit, Bool.and_eq_true, decide_eq_true_eq, ge_iff_le, UInt32.le_iff_toNat_le]
  rfl

theorem parseUnsigned_some {limit n : Nat} {text : Text} (read : parseUnsigned limit text = some n) :
    ∃ digits, (text = digits ∨ text = '+' :: digits) ∧ digits ≠ [] ∧ (∀ c ∈ digits, c.isDigit) ∧
      value digits < limit ∧ n = value digits := by
  unfold parseUnsigned at read
  dsimp only at read
  split_ifs at read with fits
  refine ⟨_, ?_, fits.1, List.all_eq_true.mp fits.2.1, fits.2.2, (Option.some.inj read).symm⟩
  split
  · exact .inr rfl
  · exact .inl rfl

theorem parseUnsigned_digits {limit : Nat} {digits : Text} (nonempty : digits ≠ [])
    (all : ∀ c ∈ digits, c.isDigit) :
    parseUnsigned limit digits = if value digits < limit then some (value digits) else none := by
  have unsigned : ∀ rest, digits ≠ '+' :: rest := by
    intro rest signed
    have digit := all '+' (by simp [signed])
    simp at digit
  unfold parseUnsigned
  split
  · next rest => exact absurd rfl (unsigned rest)
  · have each : digits.all Char.isDigit := List.all_eq_true.mpr all
    simp only [ne_eq, nonempty, not_false_eq_true, each, true_and]

theorem value_append (front back : Text) :
    value (front ++ back) = value front * 10 ^ back.length + value back := by
  unfold value
  rw [Nat.ofDigitChars_append]
  generalize Nat.ofDigitChars 10 front 0 = start
  suffices shifted : ∀ start, Nat.ofDigitChars 10 back start =
      start * 10 ^ back.length + Nat.ofDigitChars 10 back 0 from shifted start
  induction back with
  | nil => simp [Nat.ofDigitChars]
  | cons c rest ih =>
    intro start
    rw [Nat.ofDigitChars_cons, Nat.ofDigitChars_cons, ih (10 * start + _), ih (10 * 0 + _),
      List.length_cons, pow_succ]
    ring

theorem value_lt {digits : Text} (all : ∀ c ∈ digits, c.isDigit) :
    value digits < 10 ^ digits.length := by
  induction digits with
  | nil => simp [value, Nat.ofDigitChars]
  | cons c rest ih =>
    have split := value_append [c] rest
    have small := ih fun c member => all c (List.mem_cons_of_mem _ member)
    have digit := (isDigit_iff c).mp (all c List.mem_cons_self)
    have first : value [c] = c.toNat - 48 := by simp [value, Nat.ofDigitChars]
    have low : value [c] * 10 ^ rest.length ≤ 9 * 10 ^ rest.length :=
      Nat.mul_le_mul_right _ (by omega)
    rw [List.singleton_append] at split
    rw [split, List.length_cons, pow_succ]
    omega

theorem value_zeros (count : Nat) (digits : Text) :
    value (List.replicate count '0' ++ digits) = value digits := by
  rw [value_append]
  suffices zero : value (List.replicate count '0') = 0 by rw [zero]; omega
  induction count with
  | zero => rfl
  | succ count ih =>
    rw [List.replicate_succ', value_append, ih]
    rfl

end PulseVM.Lib.Decimal
