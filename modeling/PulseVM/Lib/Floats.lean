import Mathlib

/-! Binary interchange formats: a sign bit over an exponent field over a fraction. A pattern is a
natural number; its magnitude is counted in units of the least subnormal, and the values are ordered
as the signed magnitudes are. -/

namespace PulseVM.Floats

structure Format where
  exponentBits : Nat
  fractionBits : Nat
  wide : 1 < exponentBits

namespace Format

variable (F : Format)

def bias : Nat := 2 ^ (F.exponentBits - 1) - 1

def infinity : Nat := (2 ^ F.exponentBits - 1) * 2 ^ F.fractionBits

def magnitude (bits : Nat) : Nat := bits % 2 ^ (F.exponentBits + F.fractionBits)

def negative (bits : Nat) : Bool := bits.testBit (F.exponentBits + F.fractionBits)

def Finite (bits : Nat) : Prop := F.magnitude bits < F.infinity

def IsNan (bits : Nat) : Prop := F.infinity < F.magnitude bits

def field (magnitude : Nat) : Nat := magnitude / 2 ^ F.fractionBits

/-- A magnitude in units of the least subnormal: only from the second exponent on is there an
implicit leading bit. -/
def units (magnitude : Nat) : Nat :=
  if F.field magnitude = 0 then magnitude
  else (2 ^ F.fractionBits + magnitude % 2 ^ F.fractionBits) * 2 ^ (F.field magnitude - 1)

/-- One is this power of two in units. -/
def scale : Nat := F.bias + F.fractionBits - 1

def signed (bits count : Nat) : Int := if F.negative bits then -count else count

/-- What a finite pattern denotes. -/
def value (bits : Nat) : ℚ := F.signed bits (F.units (F.magnitude bits)) / 2 ^ F.scale

/-- What a pattern that is not a NaN denotes. -/
noncomputable def denote (bits : Nat) : EReal :=
  open Classical in
  if F.Finite bits then ((F.value bits : ℝ) : EReal) else if F.negative bits then ⊥ else ⊤

theorem bias_pos : 0 < F.bias := by
  have grows := Nat.pow_le_pow_right (n := 2) (by decide) (Nat.le_sub_one_of_lt F.wide)
  unfold bias
  omega

theorem infinity_pos : 0 < F.infinity := by
  have grows := Nat.pow_le_pow_right (n := 2) (by decide) F.wide.le
  exact Nat.mul_pos (by omega) (by positivity)

theorem units_lt (magnitude : Nat) :
    F.units magnitude < 2 ^ F.fractionBits * 2 ^ F.field magnitude := by
  have below := Nat.mod_lt magnitude (Nat.two_pow_pos F.fractionBits)
  unfold units
  split
  case isTrue subnormal =>
    rw [subnormal, pow_zero, mul_one,
      ← Nat.mod_eq_of_lt ((Nat.div_eq_zero_iff_lt (by positivity)).mp subnormal)]
    exact below
  case isFalse normal =>
    have split : 2 ^ F.field magnitude = 2 * 2 ^ (F.field magnitude - 1) := by
      rw [← pow_succ', Nat.sub_add_cancel (Nat.pos_of_ne_zero normal)]
    rw [split, ← mul_assoc]
    exact Nat.mul_lt_mul_of_pos_right (by omega) (by positivity)

theorem le_units {magnitude : Nat} (normal : F.field magnitude ≠ 0) :
    2 ^ F.fractionBits * 2 ^ (F.field magnitude - 1) ≤ F.units magnitude := by
  rw [units, if_neg normal]
  exact Nat.mul_le_mul_right _ (by omega)

/-- A larger magnitude either has a larger exponent, or a larger fraction under the same one. -/
theorem units_strictMono : StrictMono F.units := by
  intro small large less
  have fields : F.field small ≤ F.field large := Nat.div_le_div_right less.le
  rcases fields.eq_or_lt with same | smaller
  · have low := Nat.div_add_mod small (2 ^ F.fractionBits)
    have high := Nat.div_add_mod large (2 ^ F.fractionBits)
    have sameQuotient : small / 2 ^ F.fractionBits = large / 2 ^ F.fractionBits := same
    rw [sameQuotient] at low
    unfold units
    rw [same]
    split
    · exact less
    · exact Nat.mul_lt_mul_of_pos_right (by omega) (by positivity)
  · calc F.units small < 2 ^ F.fractionBits * 2 ^ F.field small := F.units_lt small
      _ ≤ 2 ^ F.fractionBits * 2 ^ (F.field large - 1) :=
        Nat.mul_le_mul_left _ (Nat.pow_le_pow_right (by decide) (by omega))
      _ ≤ F.units large := F.le_units (by omega)

@[simp]
theorem units_zero : F.units 0 = 0 := by simp [units, field]

def key (bits : Nat) : Int := F.signed bits (F.magnitude bits)

theorem signed_units_lt {a b : Nat} (less : F.key a < F.key b) :
    F.signed a (F.units (F.magnitude a)) < F.signed b (F.units (F.magnitude b)) := by
  have mono := fun x y => (F.units_strictMono.lt_iff_lt (a := x) (b := y)).mpr
  have above := mono 0 (F.magnitude a)
  have over' := mono 0 (F.magnitude b)
  unfold key signed at *
  split at less <;> split at less <;> simp_all <;> omega

theorem denote_lt {a b : Nat} (number : ¬ F.IsNan a) (number' : ¬ F.IsNan b)
    (less : F.key a < F.key b) : F.denote a < F.denote b := by
  have positive := F.infinity_pos
  unfold denote
  by_cases finite : F.Finite a <;> by_cases finite' : F.Finite b
  · rw [if_pos finite, if_pos finite', EReal.coe_lt_coe_iff, Rat.cast_lt]
    exact div_lt_div_of_pos_right (by exact_mod_cast F.signed_units_lt less) (by positivity)
  · rw [if_pos finite, if_neg finite', if_neg]
    · exact EReal.coe_lt_top _
    · intro negative
      simp only [key, signed, negative, IsNan, Finite] at *
      split at less <;> omega
  · rw [if_neg finite, if_pos finite', if_pos]
    · exact EReal.bot_lt_coe _
    · by_contra negative
      simp only [key, signed, negative, IsNan, Finite] at *
      split at less <;> omega
  · rw [if_neg finite, if_neg finite']
    simp only [key, signed, IsNan, Finite] at *
    split at less <;> split at less <;> simp_all <;> omega

theorem denote_congr {a b : Nat} (same : F.key a = F.key b) : F.denote a = F.denote b := by
  have positive := F.infinity_pos
  have magnitudes : F.magnitude a = F.magnitude b := by
    unfold key signed at same
    split at same <;> split at same <;> omega
  by_cases zero : F.magnitude b = 0
  · simp [denote, value, signed, Finite, magnitudes, zero, positive]
  · have signs : F.negative a = F.negative b := by
      unfold key signed at same
      split at same <;> split at same <;> simp_all
    simp [denote, value, signed, Finite, magnitudes, signs]

theorem denote_lt_iff {a b : Nat} (number : ¬ F.IsNan a) (number' : ¬ F.IsNan b) :
    F.denote a < F.denote b ↔ F.key a < F.key b := by
  constructor
  · intro less
    rcases lt_trichotomy (F.key a) (F.key b) with below | same | above
    · exact below
    · exact absurd less (F.denote_congr same).not_lt
    · exact absurd less (F.denote_lt number' number above).asymm
  · exact F.denote_lt number number'

theorem denote_eq_iff {a b : Nat} (number : ¬ F.IsNan a) (number' : ¬ F.IsNan b) :
    F.denote a = F.denote b ↔ F.key a = F.key b := by
  rw [← not_iff_not, ← ne_eq, ← ne_eq, ne_iff_lt_or_gt, ne_iff_lt_or_gt,
    F.denote_lt_iff number number', F.denote_lt_iff number' number]

end Format

end PulseVM.Floats
