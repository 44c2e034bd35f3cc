import PulseVM.Softfloat.Compare

/-! Truncation of floats to 128-bit integers. One shift of the significand serves the exponents on
both sides of its width, and a pattern is truncated by its units alone. -/

namespace PulseVM.Softfloat
open Floats Format

def single : Format := ⟨8, 23, by decide⟩

def double : Format := ⟨11, 52, by decide⟩

structure Fields where
  sign : Int
  exponent : Int
  significand : Nat

def fields (typeWidth significandBits exponentBias aRep : Nat) : Fields :=
  let signBit := 1 <<< (typeWidth - 1)
  let aAbs := aRep &&& (signBit - 1)
  { sign := if aRep &&& signBit ≠ 0 then -1 else 1
    exponent := (aAbs >>> significandBits : Nat) - (exponentBias : Int)
    significand := aAbs &&& (1 <<< significandBits - 1) ||| 1 <<< significandBits }

/-- The significand moved to the units, in 128 bits. -/
def shifted (significandBits : Nat) (exponent : Int) (significand : Nat) : Nat :=
  if exponent < significandBits then significand >>> (significandBits - exponent).toNat
  else significand <<< (exponent - significandBits).toNat % 2 ^ 128

def fixSigned (typeWidth significandBits exponentBias aRep : Nat) : Int :=
  let ⟨sign, exponent, significand⟩ := fields typeWidth significandBits exponentBias aRep
  if exponent < 0 then 0
  else if 128 ≤ exponent then if sign = 1 then 2 ^ 127 - 1 else -2 ^ 127
  else (sign * shifted significandBits exponent significand).bmod (2 ^ 128)

def fixUnsigned (typeWidth significandBits exponentBias aRep : Nat) : Nat :=
  let ⟨sign, exponent, significand⟩ := fields typeWidth significandBits exponentBias aRep
  if sign = -1 ∨ exponent < 0 then 0
  else if 128 ≤ exponent then 2 ^ 128 - 1
  else shifted significandBits exponent significand

def typeWidth (significandBits : Nat) : Nat := if significandBits = 23 then 32 else 64

def fixSignedTi (aRep significandBits exponentBias : Nat) : Int :=
  fixSigned (typeWidth significandBits) significandBits exponentBias aRep

def fixUnsignedTi (aRep significandBits exponentBias : Nat) : Nat :=
  fixUnsigned (typeWidth significandBits) significandBits exponentBias aRep

def fixtfti (lo hi : UInt64) : Int := fixSigned 128 112 16383 (compose lo hi)

def fixunstfti (lo hi : UInt64) : Nat := fixUnsigned 128 112 16383 (compose lo hi)

def fixsfti (bits : UInt32) : Int := fixSignedTi bits.toNat 23 127

def fixdfti (bits : UInt64) : Int := fixSignedTi bits.toNat 52 1023

def fixunssfti (bits : UInt32) : Nat := fixUnsignedTi bits.toNat 23 127

def fixunsdfti (bits : UInt64) : Nat := fixUnsignedTi bits.toNat 52 1023

/-- Rounding toward zero. -/
def truncate (v : ℚ) : Int := if v < 0 then ⌈v⌉ else ⌊v⌋

section Whole

variable (F : Format)

/-- The integer part of a pattern's absolute value. -/
def whole (bits : Nat) : Nat := F.units (F.magnitude bits) / 2 ^ F.scale

theorem fields_eq (bits : Nat) :
    fields (F.exponentBits + F.fractionBits + 1) F.fractionBits F.bias bits =
      ⟨if F.negative bits then -1 else 1, F.field (F.magnitude bits) - F.bias,
        2 ^ F.fractionBits + F.magnitude bits % 2 ^ F.fractionBits⟩ := by
  have low := Nat.mod_lt (F.magnitude bits) (Nat.two_pow_pos F.fractionBits)
  have leading := Nat.two_pow_add_eq_or_of_lt low 1
  have sign : bits &&& 2 ^ (F.exponentBits + F.fractionBits) ≠ 0 ↔ F.negative bits = true := by
    rw [Nat.and_two_pow, negative]
    cases bits.testBit (F.exponentBits + F.fractionBits) <;> simp
  simp only [fields, Nat.one_shiftLeft, Nat.add_sub_cancel, Nat.and_two_pow_sub_one_eq_mod,
    Nat.shiftRight_eq_div_pow, sign]
  rw [Nat.or_comm, ← magnitude]
  rw [mul_one] at leading
  rw [← leading]
  rfl

variable {bits : Nat}

theorem units_normal (large : F.bias ≤ F.field (F.magnitude bits)) :
    F.units (F.magnitude bits) = (2 ^ F.fractionBits + F.magnitude bits % 2 ^ F.fractionBits) *
      2 ^ (F.field (F.magnitude bits) - 1) :=
  if_neg (by have := F.bias_pos; omega)

theorem whole_lt (bits bound : Nat) (small : F.field (F.magnitude bits) < F.bias + bound) :
    whole F bits < 2 ^ bound := by
  have positive := F.bias_pos
  rw [whole, Nat.div_lt_iff_lt_mul (by positivity), ← pow_add]
  apply (F.units_lt _).trans_le
  rw [← pow_add]
  exact Nat.pow_le_pow_right (by decide) (by unfold Format.scale; omega)

theorem le_whole (bits bound : Nat) (large : F.bias + bound ≤ F.field (F.magnitude bits)) :
    2 ^ bound ≤ whole F bits := by
  have positive := F.bias_pos
  rw [whole, Nat.le_div_iff_mul_le (by positivity), ← pow_add]
  apply le_trans _ (F.le_units (by omega))
  rw [← pow_add]
  exact Nat.pow_le_pow_right (by decide) (by unfold Format.scale; omega)

/-- The shift right drops what is left of the fraction, the shift left fills it up. -/
theorem shifted_eq (large : F.bias ≤ F.field (F.magnitude bits))
    (small : F.field (F.magnitude bits) < F.bias + 128) :
    shifted F.fractionBits (F.field (F.magnitude bits) - F.bias)
      (2 ^ F.fractionBits + F.magnitude bits % 2 ^ F.fractionBits) = whole F bits := by
  have positive := F.bias_pos
  have fits := whole_lt F _ _ small
  rw [whole, units_normal F large, scale] at *
  generalize F.field (F.magnitude bits) = field at *
  unfold shifted
  split
  case isTrue short =>
    have exponents : F.bias + F.fractionBits - 1 =
        (F.fractionBits - ((field : Int) - F.bias)).toNat + (field - 1) := by omega
    rw [exponents, pow_add, Nat.mul_div_mul_right _ _ (by positivity), Nat.shiftRight_eq_div_pow]
  case isFalse long =>
    have exponents : field - 1 =
        ((field : Int) - F.bias - F.fractionBits).toNat + (F.bias + F.fractionBits - 1) := by omega
    rw [exponents, pow_add, ← mul_assoc, Nat.mul_div_cancel _ (by positivity)] at fits ⊢
    rw [Nat.shiftLeft_eq, Nat.mod_eq_of_lt fits]

theorem fixUnsigned_eq (bits : Nat) :
    fixUnsigned (F.exponentBits + F.fractionBits + 1) F.fractionBits F.bias bits =
      if F.negative bits then 0 else min (whole F bits) (2 ^ 128 - 1) := by
  simp only [fixUnsigned, fields_eq]
  cases F.negative bits with
  | true => simp
  | false =>
    simp only [Bool.false_eq_true, ↓reduceIte, show ¬ (1 : Int) = -1 by decide, false_or]
    split_ifs with small huge
    · have zero := whole_lt F bits 0 (by omega)
      omega
    · have top := le_whole F bits 128 (by omega)
      omega
    · have fits := whole_lt F bits 128 (by omega)
      rw [shifted_eq F (by omega) (by omega)]
      omega

theorem fixSigned_eq (small : whole F bits < 2 ^ 127) :
    fixSigned (F.exponentBits + F.fractionBits + 1) F.fractionBits F.bias bits =
      F.signed bits (whole F bits) := by
  have notHuge : ¬ F.bias + 128 ≤ F.field (F.magnitude bits) := fun huge => by
    have top := le_whole F _ _ huge
    omega
  simp only [fixSigned, fields_eq]
  by_cases fraction : F.field (F.magnitude bits) < F.bias
  · have zero := whole_lt F bits 0 (by omega)
    rw [if_pos (by omega), signed, Nat.lt_one_iff.mp zero]
    simp
  · rw [if_neg (by omega), if_neg (by omega), shifted_eq F (by omega) (by omega), signed]
    cases F.negative bits <;> simp <;> exact Int.bmod_eq_of_le (by omega) (by omega)

theorem whole_lt_iff (bits bound : Nat) :
    whole F bits < bound ↔ (F.units (F.magnitude bits) : ℚ) / 2 ^ F.scale < bound := by
  rw [whole, Nat.div_lt_iff_lt_mul (by positivity), div_lt_iff₀ (by positivity)]
  exact_mod_cast Iff.rfl

theorem truncate_value (bits : Nat) : truncate (F.value bits) = F.signed bits (whole F bits) := by
  have floor : ⌊(F.units (F.magnitude bits) : ℚ) / 2 ^ F.scale⌋ = whole F bits := by
    exact_mod_cast Rat.floor_natCast_div_natCast (F.units (F.magnitude bits)) (2 ^ F.scale)
  have nonneg : (0 : ℚ) ≤ (F.units (F.magnitude bits) : ℚ) / 2 ^ F.scale := by positivity
  unfold truncate value signed
  cases F.negative bits
  · simpa [not_lt.mpr nonneg] using floor
  · simp only [↓reduceIte, Int.cast_neg, Int.cast_natCast, neg_div, Int.ceil_neg, floor]
    split
    case isTrue => rfl
    case isFalse zero =>
      have zero : (F.units (F.magnitude bits) : ℚ) / 2 ^ F.scale = 0 := by linarith
      rw [zero, Int.floor_zero] at floor
      rw [zero, Int.floor_neg, Int.ceil_zero, neg_zero, ← floor, neg_zero]

/-- What the two truncations of a format return, by the value of the pattern. -/
structure Truncates {Pattern : Type} (bits : Pattern → Nat) (fix : Pattern → Int)
    (fixuns : Pattern → Nat) : Prop where
  signed : ∀ p, F.Finite (bits p) → |F.value (bits p)| < 2 ^ 127 →
    fix p = truncate (F.value (bits p))
  negative : ∀ p, F.negative (bits p) = true → fixuns p = 0
  below : ∀ p, F.Finite (bits p) → F.value (bits p) < 1 → fixuns p = 0
  unsigned : ∀ p, F.Finite (bits p) → F.negative (bits p) = false → F.value (bits p) < 2 ^ 128 →
    fixuns p = truncate (F.value (bits p))
  beyond : ∀ p, F.negative (bits p) = false →
    ¬ F.Finite (bits p) ∨ 2 ^ 128 ≤ F.value (bits p) → fixuns p = 2 ^ 128 - 1

theorem field_infinite (wide : 8 ≤ F.exponentBits) (infinite : ¬ F.Finite bits) :
    F.bias + 128 ≤ F.field (F.magnitude bits) := by
  have top : 2 ^ F.exponentBits - 1 ≤ F.field (F.magnitude bits) :=
    (Nat.le_div_iff_mul_le (by positivity)).mpr (not_lt.mp infinite)
  have double : 2 ^ F.exponentBits = 2 * 2 ^ (F.exponentBits - 1) := by
    rw [← pow_succ', Nat.sub_add_cancel (by omega)]
  have large : 2 ^ 7 ≤ 2 ^ (F.exponentBits - 1) := Nat.pow_le_pow_right (by decide) (by omega)
  unfold Format.bias
  omega

theorem value_negative (negative : F.negative bits = true) :
    F.value bits = -((F.units (F.magnitude bits) : ℚ) / 2 ^ F.scale) := by
  simp [value, signed, negative, neg_div]

theorem value_positive (positive : F.negative bits = false) :
    F.value bits = (F.units (F.magnitude bits) : ℚ) / 2 ^ F.scale := by
  simp [value, signed, positive]

theorem truncates {Pattern : Type} (bits : Pattern → Nat) (wide : 8 ≤ F.exponentBits) :
    Truncates F bits
      (fun p => fixSigned (F.exponentBits + F.fractionBits + 1) F.fractionBits F.bias (bits p))
      (fun p => fixUnsigned (F.exponentBits + F.fractionBits + 1) F.fractionBits F.bias (bits p)) where
  signed p _ small := by
    rw [truncate_value]
    apply fixSigned_eq
    rw [whole_lt_iff]
    cases sign : F.negative (bits p)
    · rw [value_positive F sign] at small
      exact_mod_cast (abs_lt.mp small).2
    · rw [value_negative F sign, abs_neg] at small
      exact_mod_cast (abs_lt.mp small).2
  negative p negative := by rw [fixUnsigned_eq, if_pos negative]
  below p _ small := by
    rw [fixUnsigned_eq]
    split
    case isTrue => rfl
    case isFalse sign =>
      rw [value_positive F (Bool.eq_false_of_not_eq_true sign)] at small
      have zero := (whole_lt_iff F (bits p) 1).mpr (by exact_mod_cast small)
      omega
  unsigned p _ sign small := by
    rw [fixUnsigned_eq, truncate_value, signed, sign]
    rw [value_positive F sign] at small
    have fits := (whole_lt_iff F (bits p) (2 ^ 128)).mpr (by exact_mod_cast small)
    simp only [Bool.false_eq_true, ↓reduceIte]
    omega
  beyond p sign large := by
    rw [fixUnsigned_eq, sign]
    have top : 2 ^ 128 ≤ whole F (bits p) := by
      rcases large with infinite | large
      · exact le_whole F _ _ (field_infinite F wide infinite)
      · rw [value_positive F sign] at large
        by_contra small
        have fits := (whole_lt_iff F (bits p) (2 ^ 128)).mp (by omega)
        push_cast at fits
        linarith
    simp only [Bool.false_eq_true, ↓reduceIte]
    omega

end Whole

theorem fix_truncates :
    Truncates single UInt32.toNat fixsfti fixunssfti ∧
    Truncates double UInt64.toNat fixdfti fixunsdfti ∧
    Truncates quad (fun q : Quad => compose q.lo q.hi) (fun q => fixtfti q.lo q.hi)
      (fun q => fixunstfti q.lo q.hi) :=
  ⟨truncates single _ (by decide), truncates double _ (by decide), truncates quad _ (by decide)⟩

end PulseVM.Softfloat
