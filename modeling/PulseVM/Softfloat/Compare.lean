import PulseVM.Lib.Floats

/-! Comparison of quads on the words they are passed in. The order of the words is the order of the
values once the sign is taken off, and the two zeros are one value. -/

namespace PulseVM.Softfloat
open Floats

def quad : Format := ⟨15, 112, by decide⟩

def compose (lo hi : UInt64) : Nat := hi.toNat <<< 64 ||| lo.toNat

def signF128 (hi : UInt64) : Bool := hi >>> 63 != 0

def isNanF128 (hi lo : UInt64) : Bool :=
  (~~~hi &&& 0x7FFF000000000000) == 0 && (lo != 0 || (hi &&& 0x0000FFFFFFFFFFFF) != 0)

def lt128 (a64 a0 b64 b0 : UInt64) : Bool := a64 < b64 || (a64 == b64 && a0 < b0)

def f128Lt (aLo aHi bLo bHi : UInt64) : Bool :=
  if signF128 aHi != signF128 bHi then
    signF128 aHi && (((aHi ||| bHi) &&& 0x7FFFFFFFFFFFFFFF) ||| aLo ||| bLo) != 0
  else
    (aHi != bHi || aLo != bLo) && (signF128 aHi ^^ lt128 aHi aLo bHi bLo)

def f128Eq (aLo aHi bLo bHi : UInt64) : Bool :=
  aLo == bLo && (aHi == bHi || (aLo == 0 && ((aHi ||| bHi) &&& 0x7FFFFFFFFFFFFFFF) == 0))

def cmptf2Impl (la ha lb hb : UInt64) (retIfNan : Int32) : Int32 :=
  if isNanF128 ha la || isNanF128 hb lb then retIfNan
  else if f128Lt la ha lb hb then -1
  else if f128Eq la ha lb hb then 0
  else 1

section Wrappers

variable (la ha lb hb : UInt64)

def unordtf2 : Int32 := if isNanF128 ha la || isNanF128 hb lb then 1 else 0

def eqtf2 : Int32 := cmptf2Impl la ha lb hb 1

def netf2 : Int32 := cmptf2Impl la ha lb hb 1

def getf2 : Int32 := cmptf2Impl la ha lb hb (-1)

def gttf2 : Int32 := cmptf2Impl la ha lb hb 0

def letf2 : Int32 := cmptf2Impl la ha lb hb 1

def lttf2 : Int32 := cmptf2Impl la ha lb hb 0

def cmptf2 : Int32 := cmptf2Impl la ha lb hb 1

end Wrappers

theorem compose_eq (lo hi : UInt64) : compose lo hi = hi.toNat * 2 ^ 64 + lo.toNat := by
  rw [compose, ← Nat.shiftLeft_add_eq_or_of_lt lo.toNat_lt, Nat.shiftLeft_eq]

theorem compose_magnitude (lo hi : UInt64) :
    quad.magnitude (compose lo hi) = hi.toNat % 2 ^ 63 * 2 ^ 64 + lo.toNat := by
  have bound := lo.toNat_lt
  rw [compose_eq, Format.magnitude]
  change (hi.toNat * 2 ^ 64 + lo.toNat) % 2 ^ 127 = _
  omega

theorem signF128_iff (hi : UInt64) : signF128 hi = true ↔ 2 ^ 63 ≤ hi.toNat := by
  simp only [signF128, bne_iff_ne, ne_eq, ← UInt64.toNat_inj, UInt64.toNat_shiftRight]
  simp [Nat.shiftRight_eq_div_pow]

theorem compose_negative (lo hi : UInt64) :
    quad.negative (compose lo hi) = signF128 hi := by
  have bound := lo.toNat_lt
  have bound' := hi.toNat_lt
  rw [Bool.eq_iff_iff, signF128_iff, compose_eq, Format.negative,
    Nat.testBit_eq_decide_div_mod_eq, decide_eq_true_iff]
  change (hi.toNat * 2 ^ 64 + lo.toNat) / 2 ^ 127 % 2 = 1 ↔ _
  omega

theorem and_low_toNat (hi : UInt64) : (hi &&& 0x7FFFFFFFFFFFFFFF).toNat = hi.toNat % 2 ^ 63 :=
  (UInt64.toNat_and ..).trans (Nat.and_two_pow_sub_one_eq_mod hi.toNat 63)

theorem or_low_eq_zero (a b : UInt64) : (a ||| b) &&& 0x7FFFFFFFFFFFFFFF = 0 ↔
    a.toNat % 2 ^ 63 = 0 ∧ b.toNat % 2 ^ 63 = 0 := by
  rw [← UInt64.toNat_inj, and_low_toNat, UInt64.toNat_or, Nat.or_mod_two_pow]
  exact Nat.or_eq_zero_iff

theorem and_exponent_toNat (word : UInt64) :
    (word &&& 0x7FFF000000000000).toNat = word.toNat / 2 ^ 48 % 2 ^ 15 * 2 ^ 48 := by
  have high : (word.toNat &&& 0x7FFF000000000000) / 2 ^ 48 = word.toNat / 2 ^ 48 % 2 ^ 15 := by
    rw [← Nat.shiftRight_eq_div_pow, Nat.shiftRight_and_distrib, Nat.shiftRight_eq_div_pow]
    exact Nat.and_two_pow_sub_one_eq_mod _ 15
  have low : (word.toNat &&& 0x7FFF000000000000) % 2 ^ 48 = 0 := by
    rw [Nat.and_mod_two_pow]
    exact Nat.and_zero _
  rw [UInt64.toNat_and]
  change word.toNat &&& 0x7FFF000000000000 = _
  omega

theorem isNanF128_iff (lo hi : UInt64) :
    isNanF128 hi lo = true ↔ quad.IsNan (compose lo hi) := by
  have bound := lo.toNat_lt
  have bound' := hi.toNat_lt
  have fraction : (hi &&& 0x0000FFFFFFFFFFFF).toNat = hi.toNat % 2 ^ 48 :=
    (UInt64.toNat_and ..).trans (Nat.and_two_pow_sub_one_eq_mod hi.toNat 48)
  have complement : (~~~hi).toNat = 2 ^ 64 - 1 - hi.toNat := UInt64.toNat_not ..
  rw [Format.IsNan, compose_magnitude]
  change _ ↔ (2 ^ 15 - 1) * 2 ^ 112 < _
  simp only [isNanF128, Bool.and_eq_true, Bool.or_eq_true, beq_iff_eq, bne_iff_ne, ne_eq,
    ← UInt64.toNat_inj, and_exponent_toNat, fraction, complement]
  change (_ = 0 ∧ (¬ _ = 0 ∨ ¬ _ = 0)) ↔ _
  omega

theorem compose_key (lo hi : UInt64) : quad.key (compose lo hi) =
    if signF128 hi then -((hi.toNat % 2 ^ 63 * 2 ^ 64 + lo.toNat : Nat) : Int)
    else (hi.toNat % 2 ^ 63 * 2 ^ 64 + lo.toNat : Nat) := by
  rw [Format.key, Format.signed, compose_magnitude, compose_negative]

theorem lt128_eq (a64 a0 b64 b0 : UInt64) : lt128 a64 a0 b64 b0 =
    decide (a64.toNat * 2 ^ 64 + a0.toNat < b64.toNat * 2 ^ 64 + b0.toNat) := by
  have lowA := a0.toNat_lt
  have lowB := b0.toNat_lt
  rw [Bool.eq_iff_iff, decide_eq_true_iff]
  simp only [lt128, Bool.or_eq_true, Bool.and_eq_true, decide_eq_true_eq, beq_iff_eq,
    UInt64.lt_iff_toNat_lt, ← UInt64.toNat_inj]
  omega

theorem f128Lt_iff (aLo aHi bLo bHi : UInt64) : f128Lt aLo aHi bLo bHi = true ↔
    quad.key (compose aLo aHi) < quad.key (compose bLo bHi) := by
  have boundA := aHi.toNat_lt
  have boundB := bHi.toNat_lt
  have lowA := aLo.toNat_lt
  have lowB := bLo.toNat_lt
  have signA := signF128_iff aHi
  have signB := signF128_iff bHi
  have zeros : (((aHi ||| bHi) &&& 0x7FFFFFFFFFFFFFFF) ||| aLo ||| bLo) = 0 ↔
      ((aHi.toNat % 2 ^ 63 = 0 ∧ bHi.toNat % 2 ^ 63 = 0) ∧ aLo.toNat = 0) ∧ bLo.toNat = 0 := by
    rw [UInt64.or_eq_zero_iff, UInt64.or_eq_zero_iff, or_low_eq_zero, ← UInt64.toNat_inj,
      ← UInt64.toNat_inj]
    rfl
  rw [compose_key, compose_key, f128Lt, lt128_eq]
  cases sign : signF128 aHi <;> cases sign' : signF128 bHi <;>
    simp only [sign, sign', Bool.false_eq_true, false_iff, true_iff, not_le] at signA signB <;>
    simp [zeros, ← UInt64.toNat_inj] <;> omega

theorem f128Eq_iff (aLo aHi bLo bHi : UInt64) : f128Eq aLo aHi bLo bHi = true ↔
    quad.key (compose aLo aHi) = quad.key (compose bLo bHi) := by
  have boundA := aHi.toNat_lt
  have boundB := bHi.toNat_lt
  have lowA := aLo.toNat_lt
  have lowB := bLo.toNat_lt
  have signA := signF128_iff aHi
  have signB := signF128_iff bHi
  have zero : aLo = 0 ↔ aLo.toNat = 0 := UInt64.toNat_inj.symm
  rw [compose_key, compose_key]
  simp only [f128Eq, Bool.and_eq_true, Bool.or_eq_true, beq_iff_eq, or_low_eq_zero, zero]
  rw [← UInt64.toNat_inj, ← UInt64.toNat_inj]
  cases sign : signF128 aHi <;> cases sign' : signF128 bHi <;>
    simp only [sign, sign', Bool.false_eq_true, false_iff, true_iff, not_le] at signA signB <;>
    simp only [Bool.false_eq_true, ↓reduceIte] <;> omega

/-- A quad as the two words it is passed in. -/
structure Quad where
  lo : UInt64
  hi : UInt64

namespace Quad

def IsNan (q : Quad) : Prop := quad.IsNan (compose q.lo q.hi)

noncomputable def denote (q : Quad) : EReal := quad.denote (compose q.lo q.hi)

def compare (a b : Quad) (retIfNan : Int32) : Int32 := cmptf2Impl a.lo a.hi b.lo b.hi retIfNan

/-- The three results of a comparison, by the order of the values. -/
structure Compares (a b : Quad) (lt eq : Bool) (three : Int32) : Prop where
  lt : lt = true ↔ a.denote < b.denote
  eq : eq = true ↔ a.denote = b.denote
  less : three = -1 ↔ a.denote < b.denote
  equal : three = 0 ↔ a.denote = b.denote
  greater : three = 1 ↔ b.denote < a.denote

theorem unordered_iff (a b : Quad) :
    (isNanF128 a.hi a.lo || isNanF128 b.hi b.lo) = true ↔ a.IsNan ∨ b.IsNan := by
  rw [Bool.or_eq_true, isNanF128_iff, isNanF128_iff]
  rfl

theorem cmptf2_nan {a b : Quad} (nan : a.IsNan ∨ b.IsNan) (retIfNan : Int32) :
    a.compare b retIfNan = retIfNan := by
  rw [compare, cmptf2Impl, if_pos ((unordered_iff a b).mpr nan)]

theorem cmptf2_compares {a b : Quad} (number : ¬ a.IsNan) (number' : ¬ b.IsNan)
    (retIfNan : Int32) : Compares a b (f128Lt a.lo a.hi b.lo b.hi) (f128Eq a.lo a.hi b.lo b.hi)
      (a.compare b retIfNan) := by
  have lt : f128Lt a.lo a.hi b.lo b.hi = true ↔ a.denote < b.denote :=
    (f128Lt_iff ..).trans (quad.denote_lt_iff number number').symm
  have eq : f128Eq a.lo a.hi b.lo b.hi = true ↔ a.denote = b.denote :=
    (f128Eq_iff ..).trans (quad.denote_eq_iff number number').symm
  rw [compare, cmptf2Impl, if_neg (mt (unordered_iff a b).mp (not_or.mpr ⟨number, number'⟩))]
  rcases lt_trichotomy a.denote b.denote with below | same | above
  · rw [if_pos (lt.mpr below)]
    exact ⟨lt, eq, by simp [below], by simp [below.ne], by simp [below.not_gt]⟩
  · rw [if_neg (mt lt.mp same.not_lt), if_pos (eq.mpr same)]
    exact ⟨lt, eq, by simp [same], by simp [same], by simp [same]⟩
  · rw [if_neg (mt lt.mp above.not_gt), if_neg (mt eq.mp above.ne')]
    exact ⟨lt, eq, by simp [above.not_gt], by simp [above.ne'], by simp [above]⟩

theorem cmptf2_le_iff {a b : Quad} (number : ¬ a.IsNan) (number' : ¬ b.IsNan) (retIfNan : Int32) :
    a.compare b retIfNan ≤ 0 ↔ a.denote ≤ b.denote := by
  have compares := cmptf2_compares number number' retIfNan
  rcases lt_trichotomy a.denote b.denote with below | same | above
  · simp [compares.less.mpr below, below.le]
  · simp [compares.equal.mpr same, same]
  · simp [compares.greater.mpr above, above]

/-- Numbers compare as the extended reals they denote, which makes the order total and transitive;
with a NaN the designated code is returned. -/
theorem cmptf2_order (retIfNan : Int32) :
    (∀ a b : Quad, ¬ a.IsNan → ¬ b.IsNan → Compares a b (f128Lt a.lo a.hi b.lo b.hi)
      (f128Eq a.lo a.hi b.lo b.hi) (a.compare b retIfNan)) ∧
    (∀ a b : Quad, ¬ a.IsNan → ¬ b.IsNan → a.compare b retIfNan ≤ 0 ∨ b.compare a retIfNan ≤ 0) ∧
    (∀ a b c : Quad, ¬ a.IsNan → ¬ b.IsNan → ¬ c.IsNan → a.compare b retIfNan ≤ 0 →
      b.compare c retIfNan ≤ 0 → a.compare c retIfNan ≤ 0) ∧
    ∀ a b : Quad, a.IsNan ∨ b.IsNan → a.compare b retIfNan = retIfNan := by
  refine ⟨fun a b na nb => cmptf2_compares na nb retIfNan, fun a b na nb => ?_,
    fun a b c na nb nc => ?_, fun a b nan => cmptf2_nan nan retIfNan⟩
  · rw [cmptf2_le_iff na nb, cmptf2_le_iff nb na]
    exact le_total ..
  · rw [cmptf2_le_iff na nb, cmptf2_le_iff nb nc, cmptf2_le_iff na nc]
    exact le_trans

/-- The wrappers test the code against 0. The code for a NaN fails each test but that of `netf2`,
which is not `eqtf2`. -/
theorem wrappers_iff (a b : Quad) :
    let on (f : UInt64 → UInt64 → UInt64 → UInt64 → Int32) := f a.lo a.hi b.lo b.hi
    let numbers := ¬(a.IsNan ∨ b.IsNan)
    (on unordtf2 = 0 ↔ numbers) ∧ (on eqtf2 = 0 ↔ numbers ∧ a.denote = b.denote) ∧
      (on netf2 = 0 ↔ on eqtf2 = 0) ∧ (on letf2 ≤ 0 ↔ numbers ∧ a.denote ≤ b.denote) ∧
      (on lttf2 < 0 ↔ numbers ∧ a.denote < b.denote) ∧
      (0 ≤ on getf2 ↔ numbers ∧ b.denote ≤ a.denote) ∧
      (0 < on gttf2 ↔ numbers ∧ b.denote < a.denote) := by
  intro on numbers
  simp only [on, unordtf2, eqtf2, netf2, letf2, lttf2, getf2, gttf2]
  by_cases nan : a.IsNan ∨ b.IsNan
  · have fails : ¬numbers := not_not.mpr nan
    have code (retIfNan : Int32) : cmptf2Impl a.lo a.hi b.lo b.hi retIfNan = retIfNan :=
      cmptf2_nan nan retIfNan
    rw [if_pos ((unordered_iff a b).mpr nan)]
    clear_value numbers
    simp [fails, code]
  · have holds : numbers := nan
    have compares := cmptf2_compares (not_or.mp nan).1 (not_or.mp nan).2
    unfold compare at compares
    rw [if_neg (mt (unordered_iff a b).mp nan)]
    clear_value numbers
    rcases lt_trichotomy a.denote b.denote with below | same | above
    · simp [holds, fun code => (compares code).less.mpr below, below, below.le, below.ne]
    · simp [holds, fun code => (compares code).equal.mpr same, same]
    · simp [holds, fun code => (compares code).greater.mpr above, above, above.le, above.ne']

end Quad

end PulseVM.Softfloat
