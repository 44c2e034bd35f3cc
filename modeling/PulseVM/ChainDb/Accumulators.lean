import PulseVM.ChainDb.Resources

/-!
Usage averages over whole histories. What is left of the old value is rounded down and what
is added is rounded up; a bound that a full slot cannot leave absorbs both.
-/

namespace PulseVM.ChainDb
open List

theorem integerDivideCeil_mul (num : Nat) {den : Nat} (pos : 0 < den) :
    num ≤ integerDivideCeil num den * den ∧ integerDivideCeil num den * den < num + den := by
  have whole := Nat.div_add_mod' num den
  have rest := Nat.mod_lt num pos
  unfold integerDivideCeil
  rw [Nat.add_mul]
  split_ifs <;> omega

theorem integerDivideCeil_le (num : Nat) {den : Nat} (pos : 0 < den) :
    integerDivideCeil num den ≤ num := by
  by_contra more
  have upper := (integerDivideCeil_mul num pos).2
  have high := Nat.mul_le_mul_right den (Nat.succ_le_of_lt (not_le.mp more))
  have scaled := Nat.le_mul_of_pos_right num pos
  rw [Nat.succ_mul] at high
  omega

namespace UsageAccumulator

structure Charge where
  units : UInt64
  ordinal : UInt32

/-- What stays of the value, in unbounded arithmetic. -/
def left (a : UsageAccumulator) (ordinal window : UInt32) : Nat :=
  a.valueEx.toNat * (window.toNat - (ordinal.toNat - a.lastOrdinal.toNat)) / window.toNat

def contribution (units : UInt64) (window : UInt32) : Nat :=
  integerDivideCeil (units.toNat * rateLimitingPrecision) window.toNat

variable {a : UsageAccumulator} {c : Charge} {ordinal window : UInt32}

theorem left_le (a : UsageAccumulator) (ordinal window : UInt32) :
    a.left ordinal window ≤ a.valueEx.toNat := by
  apply Nat.div_le_of_le_mul
  rw [Nat.mul_comm window.toNat]
  exact Nat.mul_le_mul_left _ (Nat.sub_le _ _)

theorem left_same (pos : 0 < window) : a.left a.lastOrdinal window = a.valueEx.toNat := by
  rw [left, Nat.sub_self, Nat.sub_zero, Nat.mul_div_cancel _ (UInt32.lt_iff_toNat_lt.mp pos)]

theorem toNat_decayed (order : a.lastOrdinal ≤ ordinal) :
    (a.decayed ordinal window).toNat = a.left ordinal window := by
  have small := (left_le a ordinal window).trans_lt a.valueEx.toNat_lt
  have before := UInt32.le_iff_toNat_le.mp order
  unfold decayed
  split_ifs with inside
  · have gap := UInt32.toNat_sub_of_le _ _ order
    have rest : (window - (ordinal - a.lastOrdinal)).toNat =
        window.toNat - (ordinal.toNat - a.lastOrdinal.toNat) := by
      rw [UInt32.toNat_sub_of_le _ _ (by rw [UInt32.le_iff_toNat_le]; omega), gap]
    rw [rest, UInt64.toNat_ofNat']
    exact Nat.mod_eq_of_lt small
  · have zero : window.toNat - (ordinal.toNat - a.lastOrdinal.toNat) = 0 := by omega
    simp [left, zero]

theorem toNat_average (a : UsageAccumulator) :
    a.average.toNat = integerDivideCeil a.valueEx.toNat rateLimitingPrecision := by
  rw [average, UInt64.toNat_ofNat', Nat.mod_eq_of_lt]
  exact (integerDivideCeil_le _ (by decide)).trans_lt a.valueEx.toNat_lt

theorem rewound_advanced (pos : 0 < window) (order : a.lastOrdinal ≤ ordinal) :
    ((a.rewound ordinal).advanced ordinal window).lastOrdinal = ordinal ∧
    ((a.rewound ordinal).advanced ordinal window).valueEx.toNat = a.left ordinal window ∧
    ((a.rewound ordinal).advanced ordinal window).consumed.toNat =
      if a.lastOrdinal = ordinal then a.consumed.toNat
      else integerDivideCeil (a.left ordinal window) rateLimitingPrecision := by
  rw [rewound, if_neg (UInt32.not_lt.mpr order), advanced]
  by_cases same : a.lastOrdinal = ordinal
  · rw [if_neg (not_not.mpr same), if_pos same]
    subst same
    exact ⟨rfl, (left_same pos).symm, rfl⟩
  · rw [if_pos same, if_neg same, ← toNat_decayed order]
    exact ⟨rfl, rfl, toNat_average _⟩

theorem add_valueEx (pos : 0 < window) (order : a.lastOrdinal ≤ c.ordinal)
    (fits : a.left c.ordinal window + contribution c.units window < 2 ^ 64) :
    (a.add c.units c.ordinal window).valueEx.toNat =
      a.left c.ordinal window + contribution c.units window := by
  simp only [add, UInt64.toNat_add, UInt64.toNat_ofNat', (rewound_advanced pos order).2.1]
  rw [← contribution, Nat.add_mod_mod, Nat.mod_eq_of_lt fits]

/-- The units used in the slot so far. -/
def spent (a : UsageAccumulator) (ordinal window : UInt32) : Nat :=
  if a.lastOrdinal = ordinal then a.consumed.toNat
  else integerDivideCeil (a.left ordinal window) rateLimitingPrecision

theorem add_consumed (pos : 0 < window) (order : a.lastOrdinal ≤ c.ordinal)
    (fits : a.spent c.ordinal window + c.units.toNat < 2 ^ 64) :
    (a.add c.units c.ordinal window).consumed.toNat = a.spent c.ordinal window + c.units.toNat := by
  simp only [add, UInt64.toNat_add, (rewound_advanced pos order).2.2]
  exact Nat.mod_eq_of_lt fits

theorem contribution_mul (pos : 0 < window) (units : UInt64) :
    units.toNat * rateLimitingPrecision ≤ contribution units window * window.toNat ∧
      contribution units window * window.toNat ≤
        rateLimitingPrecision * units.toNat + window.toNat * if units ≠ 0 then 1 else 0 := by
  have bounds := integerDivideCeil_mul (units.toNat * rateLimitingPrecision)
    (UInt32.lt_iff_toNat_lt.mp pos)
  refine ⟨bounds.1, ?_⟩
  split_ifs with positive
  · rw [Nat.mul_comm rateLimitingPrecision, Nat.mul_one]
    exact bounds.2.le
  · rw [not_not.mp positive]
    simp [contribution, integerDivideCeil]

/-! Histories. -/

def after (window : UInt32) (adds : List Charge) : UsageAccumulator :=
  adds.foldl (fun a c => a.add c.units c.ordinal window) zero

def slotTotal (adds : List Charge) (ordinal : UInt32) : Nat :=
  ((adds.filter (·.ordinal = ordinal)).map (·.units.toNat)).sum

def slotCount (adds : List Charge) (ordinal : UInt32) : Nat :=
  adds.countP fun c => c.ordinal = ordinal ∧ c.units ≠ 0

/-- The value that comes into a slot from the slots before. -/
def carriedIn (window : UInt32) (adds : List Charge) (ordinal : UInt32) : Nat :=
  (after window (adds.filter (·.ordinal < ordinal))).left ordinal window

/-- The windows and amounts in question. -/
structure Admitted (window : UInt32) (adds : List Charge) : Prop where
  window_pos : 0 < window
  window_le : window ≤ 2 ^ 20
  ordered : adds.Pairwise (·.ordinal ≤ ·.ordinal)
  light : ∀ ordinal, slotTotal adds ordinal < 2 ^ 40

variable {adds : List Charge} {total count : Nat}

theorem slotTotal_concat : slotTotal (adds ++ [c]) ordinal =
    slotTotal adds ordinal + if c.ordinal = ordinal then c.units.toNat else 0 := by
  unfold slotTotal
  split_ifs with here <;> simp [here]

theorem slotCount_concat : slotCount (adds ++ [c]) ordinal =
    slotCount adds ordinal + if c.ordinal = ordinal ∧ c.units ≠ 0 then 1 else 0 := by
  simp [slotCount, countP_append, countP_singleton]

theorem slotCount_le (adds : List Charge) (ordinal : UInt32) :
    slotCount adds ordinal ≤ slotTotal adds ordinal := by
  induction adds using List.reverseRecOn with
  | nil => exact le_rfl
  | append_singleton adds c ih =>
    have positive : c.units ≠ 0 → 0 < c.units.toNat := fun positive => by
      rw [Nat.pos_iff_ne_zero, Ne, ← UInt64.toNat_zero, UInt64.toNat_inj]
      exact positive
    rw [slotTotal_concat, slotCount_concat]
    split_ifs with counted here here
    · have one := positive counted.2
      omega
    · exact absurd counted.1 here
    · omega
    · exact ih

theorem after_concat : after window (adds ++ [c]) = (after window adds).add c.units c.ordinal window := by
  rw [after, foldl_append]
  rfl

theorem Admitted.init (admitted : Admitted window (adds ++ [c])) : Admitted window adds where
  window_pos := admitted.window_pos
  window_le := admitted.window_le
  ordered := (pairwise_append.mp admitted.ordered).1
  light ordinal := by
    have whole := admitted.light ordinal
    rw [slotTotal_concat] at whole
    omega

/-- What is known after a history. No full slot leads out of `bound`. -/
structure Known (window : UInt32) (adds : List Charge) : Prop where
  upper : ∀ c ∈ adds, c.ordinal ≤ (after window adds).lastOrdinal
  least : ∀ o, (∀ c ∈ adds, c.ordinal ≤ o) → (after window adds).lastOrdinal ≤ o
  bound : ∀ total count, (∀ o, slotTotal adds o ≤ total) → (∀ o, slotCount adds o ≤ count) →
    (after window adds).valueEx.toNat * window.toNat ≤
      (rateLimitingPrecision * total + window.toNat * count) * (window.toNat - 1) +
        (rateLimitingPrecision * slotTotal adds (after window adds).lastOrdinal +
          window.toNat * slotCount adds (after window adds).lastOrdinal)
  consumed : (after window adds).consumed.toNat =
    integerDivideCeil (carriedIn window adds (after window adds).lastOrdinal) rateLimitingPrecision +
      slotTotal adds (after window adds).lastOrdinal

section

variable (known : Known window adds)

include known

theorem Known.value_le (pos : 0 < window)
    (totals : ∀ o, slotTotal adds o ≤ total) (counts : ∀ o, slotCount adds o ≤ count) :
    (after window adds).valueEx.toNat ≤ rateLimitingPrecision * total + window.toNat * count := by
  have positive : 0 < window.toNat := UInt32.lt_iff_toNat_lt.mp pos
  have bound := known.bound total count totals counts
  have slot := Nat.add_le_add
    (Nat.mul_le_mul_left rateLimitingPrecision (totals (after window adds).lastOrdinal))
    (Nat.mul_le_mul_left window.toNat (counts (after window adds).lastOrdinal))
  apply Nat.le_of_mul_le_mul_right _ positive
  calc _ ≤ _ := bound
    _ ≤ (rateLimitingPrecision * total + window.toNat * count) * (window.toNat - 1) +
        (rateLimitingPrecision * total + window.toNat * count) := Nat.add_le_add_left slot _
    _ = _ := by
      rw [← Nat.mul_succ, Nat.succ_eq_add_one, Nat.sub_add_cancel positive]

theorem Known.value_lt (admitted : Admitted window adds) :
    (after window adds).valueEx.toNat < 2 ^ 61 := by
  have light : ∀ o, slotTotal adds o ≤ 2 ^ 40 - 1 := fun o => Nat.le_pred_of_lt (admitted.light o)
  have value := known.value_le admitted.window_pos light fun o => (slotCount_le adds o).trans (light o)
  have window_le : window.toNat ≤ 2 ^ 20 := UInt32.le_iff_toNat_le.mp admitted.window_le
  unfold rateLimitingPrecision at value
  omega

/-- One add, with the numbers it is made of. -/
structure ExactAdd (a : UsageAccumulator) (c : Charge) (window : UInt32) : Prop where
  lastOrdinal : (a.add c.units c.ordinal window).lastOrdinal = c.ordinal
  valueEx : (a.add c.units c.ordinal window).valueEx.toNat =
    a.left c.ordinal window + contribution c.units window
  consumed : (a.add c.units c.ordinal window).consumed.toNat =
    a.spent c.ordinal window + c.units.toNat

theorem Known.spent (later : ∀ other ∈ adds, other.ordinal ≤ c.ordinal) :
    (after window adds).spent c.ordinal window =
      integerDivideCeil (carriedIn window (adds ++ [c]) c.ordinal) rateLimitingPrecision +
        slotTotal adds c.ordinal := by
  unfold UsageAccumulator.spent
  split_ifs with same
  · rw [known.consumed, same, carriedIn, carriedIn, filter_append, filter_singleton]
    simp
  · have before : ∀ other ∈ adds, other.ordinal < c.ordinal := by
      intro other member
      exact UInt32.lt_of_le_of_ne (later other member) fun equal => same
        (UInt32.le_antisymm (known.least _ later) (equal ▸ known.upper other member))
    have all : (adds ++ [c]).filter (·.ordinal < c.ordinal) = adds := by
      rw [filter_append, filter_eq_self.mpr (by simpa using before)]
      simp
    have idle : slotTotal adds c.ordinal = 0 := by
      rw [slotTotal, filter_eq_nil_iff.mpr]
      · rfl
      · intro other member equal
        exact UInt32.lt_irrefl _ (of_decide_eq_true equal ▸ before other member)
    rw [carriedIn, all, idle, Nat.add_zero]

theorem Known.exactAdd (admitted : Admitted window (adds ++ [c])) :
    ExactAdd (after window adds) c window := by
  have later : ∀ other ∈ adds, other.ordinal ≤ c.ordinal := fun other member =>
    (pairwise_append.mp admitted.ordered).2.2 other member c mem_cons_self
  have order := known.least c.ordinal later
  have light := admitted.light c.ordinal
  rw [slotTotal_concat, if_pos rfl] at light
  have value := known.value_lt admitted.init
  have left := left_le (after window adds) c.ordinal window
  have added : contribution c.units window ≤ c.units.toNat * rateLimitingPrecision :=
    integerDivideCeil_le _ (UInt32.lt_iff_toNat_lt.mp admitted.window_pos)
  have carried : carriedIn window (adds ++ [c]) c.ordinal < 2 ^ 64 :=
    (left_le _ _ _).trans_lt (UInt64.toNat_lt _)
  have average := (integerDivideCeil_mul (carriedIn window (adds ++ [c]) c.ordinal)
    (by decide : 0 < rateLimitingPrecision)).2
  have spent := known.spent later
  unfold rateLimitingPrecision at added average spent
  -- the kernel is slow to unfold the sum
  exact ⟨by simp only [add, (rewound_advanced admitted.window_pos order).1],
    add_valueEx admitted.window_pos order (by omega),
    add_consumed admitted.window_pos order (by omega)⟩

theorem Known.left_mul (pos : 0 < window)
    (order : (after window adds).lastOrdinal ≤ ordinal) (totals : ∀ o, slotTotal adds o ≤ total)
    (counts : ∀ o, slotCount adds o ≤ count) :
    (after window adds).left ordinal window * window.toNat ≤
      (rateLimitingPrecision * total + window.toNat * count) * (window.toNat - 1) +
        (rateLimitingPrecision * slotTotal adds ordinal + window.toNat * slotCount adds ordinal) := by
  by_cases same : (after window adds).lastOrdinal = ordinal
  · subst same
    rw [left_same pos]
    exact known.bound total count totals counts
  · have before : (after window adds).lastOrdinal.toNat < ordinal.toNat :=
      UInt32.lt_iff_toNat_lt.mp (UInt32.lt_of_le_of_ne order same)
    apply Nat.le_add_right_of_le
    calc _ ≤ _ := Nat.div_mul_le_self _ _
      _ ≤ _ := Nat.mul_le_mul (known.value_le pos totals counts) (by omega)

theorem known_concat (admitted : Admitted window (adds ++ [c])) :
    Known window (adds ++ [c]) := by
  have later : ∀ other ∈ adds, other.ordinal ≤ c.ordinal := fun other member =>
    (pairwise_append.mp admitted.ordered).2.2 other member c mem_cons_self
  obtain ⟨last, value, consumed⟩ := known.exactAdd admitted
  rw [← after_concat] at last value consumed
  constructor
  · intro other member
    rw [last]
    rcases mem_append.mp member with old | new
    · exact later other old
    · rw [mem_singleton.mp new]
      exact UInt32.le_refl _
  · intro o all
    rw [last]
    exact all c (by simp)
  · intro total count totals counts
    have left := known.left_mul admitted.window_pos (known.least c.ordinal later)
      (fun o => (Nat.le_add_right _ _).trans (slotTotal_concat.symm.trans_le (totals o)))
      fun o => (Nat.le_add_right _ _).trans (slotCount_concat.symm.trans_le (counts o))
    have added := (contribution_mul admitted.window_pos c.units).2
    rw [last, value, slotTotal_concat, slotCount_concat, if_pos rfl, Nat.add_mul, Nat.mul_add, Nat.mul_add]
    simp only [true_and]
    omega
  · rw [last, consumed, known.spent later, slotTotal_concat, if_pos rfl, Nat.add_assoc]

end

theorem known (admitted : Admitted window adds) : Known window adds := by
  induction adds using List.reverseRecOn with
  | nil =>
    refine ⟨by simp, fun o _ => ?_, by simp [after, zero],
      by simp [after, zero, carriedIn, left, integerDivideCeil, slotTotal]⟩
    exact UInt32.le_iff_toNat_le.mpr (Nat.zero_le _)
  | append_singleton adds c ih => exact known_concat (ih admitted.init) admitted

/-! The exact average. -/

/-- The recurrence without rounding. -/
structure Ideal where
  value : ℚ
  last : Nat
  decays : Nat

def Ideal.add (window : UInt32) (i : Ideal) (c : Charge) : Ideal where
  value := i.value * ((window.toNat - (c.ordinal.toNat - i.last) : Nat) / window.toNat) +
    c.units.toNat * rateLimitingPrecision / window.toNat
  last := c.ordinal.toNat
  decays := if i.last = c.ordinal.toNat then i.decays else i.decays + 1

def ideal (window : UInt32) (adds : List Charge) : Ideal := adds.foldl (Ideal.add window) ⟨0, 0, 0⟩

/-- Less than one below for each decay, less than one above for each add. -/
structure Near (value : Nat) (i : Ideal) (adds : Nat) : Prop where
  below : i.value - i.decays ≤ value
  below_lt : 0 < i.decays → i.value - i.decays < value
  above : value ≤ i.value + adds
  above_lt : 0 < adds → value < i.value + adds

theorem near_concat (pos : 0 < window) {i : Ideal} {adds : Nat} (near : Near a.valueEx.toNat i adds)
    (last : i.last = a.lastOrdinal.toNat) :
    Near (a.left c.ordinal window + contribution c.units window) (i.add window c) (adds + 1) := by
  have positive : 0 < window.toNat := UInt32.lt_iff_toNat_lt.mp pos
  have positive' : (0 : ℚ) < window.toNat := by exact_mod_cast positive
  set rest := window.toNat - (c.ordinal.toNat - i.last) with rest_eq
  have rest_nonneg : (0 : ℚ) ≤ rest := Nat.cast_nonneg rest
  have less : (rest : ℚ) ≤ window.toNat := by exact_mod_cast Nat.sub_le _ _
  have value : (i.add window c).value =
      (i.value * rest + c.units.toNat * rateLimitingPrecision) / window.toNat := by
    rw [Ideal.add]
    ring
  -- both roundings, with the window multiplied out
  have down : (a.left c.ordinal window : ℚ) * window.toNat ≤ a.valueEx.toNat * rest := by
    rw [left, ← last, ← rest_eq]
    exact_mod_cast Nat.div_mul_le_self _ _
  have down_lt : (a.valueEx.toNat : ℚ) * rest < (a.left c.ordinal window + 1) * window.toNat := by
    rw [left, ← last, ← rest_eq, mul_comm _ (window.toNat : ℚ)]
    exact_mod_cast Nat.lt_mul_div_succ _ positive
  have up : (c.units.toNat : ℚ) * rateLimitingPrecision ≤
      contribution c.units window * window.toNat := by
    exact_mod_cast (integerDivideCeil_mul _ positive).1
  have up_lt : (contribution c.units window : ℚ) * window.toNat <
      c.units.toNat * rateLimitingPrecision + window.toNat := by
    exact_mod_cast (integerDivideCeil_mul (c.units.toNat * rateLimitingPrecision) positive).2
  have above_lt : ((a.left c.ordinal window + contribution c.units window : Nat) : ℚ) <
      (i.add window c).value + (adds + 1 : Nat) := by
    have grown := mul_le_mul_of_nonneg_right near.above rest_nonneg
    have scaled := mul_le_mul_of_nonneg_left less adds.cast_nonneg
    rw [value, div_add' _ _ _ positive'.ne', lt_div_iff₀ positive']
    push_cast
    linarith
  by_cases same : i.last = c.ordinal.toNat
  · have decays : (i.add window c).decays = i.decays := if_pos same
    have whole : (rest : ℚ) = window.toNat := by rw [rest_eq, same, Nat.sub_self, Nat.sub_zero]
    have kept : a.left c.ordinal window = a.valueEx.toNat := by
      rw [← UInt32.toNat_inj.mp (last.symm.trans same), left_same pos]
    have value : (i.add window c).value ≤ i.value + contribution c.units window := by
      rw [value, whole, div_le_iff₀ positive']
      linarith
    rw [kept] at above_lt ⊢
    refine ⟨?_, fun positive => ?_, above_lt.le, fun _ => above_lt⟩
    · have below := near.below
      rw [decays]
      push_cast
      linarith
    · have below := near.below_lt (decays ▸ positive)
      rw [decays]
      push_cast
      linarith
  · have decays : (i.add window c).decays = i.decays + 1 := if_neg same
    have below_lt : (i.add window c).value - (i.add window c).decays <
        (a.left c.ordinal window + contribution c.units window : Nat) := by
      have shrunk := mul_le_mul_of_nonneg_right near.below rest_nonneg
      have scaled := mul_le_mul_of_nonneg_left less i.decays.cast_nonneg
      rw [value, decays, sub_lt_iff_lt_add, div_lt_iff₀ positive']
      push_cast
      linarith
    exact ⟨below_lt.le, fun _ => below_lt, above_lt.le, fun _ => above_lt⟩

theorem near_after (admitted : Admitted window adds) :
    Near (after window adds).valueEx.toNat (ideal window adds) adds.length ∧
      (ideal window adds).last = (after window adds).lastOrdinal.toNat := by
  induction adds using List.reverseRecOn with
  | nil => exact ⟨⟨by simp [ideal, after, zero], by simp [ideal], by simp [ideal, after, zero], by simp⟩, rfl⟩
  | append_singleton adds c ih =>
    obtain ⟨near, last⟩ := ih admitted.init
    have exact_ := (known admitted.init).exactAdd admitted
    have step := near_concat (c := c) admitted.window_pos near last
    rw [after_concat, exact_.valueEx, exact_.lastOrdinal, ideal, foldl_append, length_append]
    exact ⟨step, rfl⟩

/-- Nothing wraps in a history with windows and amounts in range; the value stays near the
exact average and below a bound that does not grow with the number of adds; and what a slot
has consumed is what came in, rounded up, and its own units. -/
theorem after_accurate (admitted : Admitted window (adds ++ [c])) :
    ExactAdd (after window adds) c window ∧
    Near (after window (adds ++ [c])).valueEx.toNat (ideal window (adds ++ [c])) (adds ++ [c]).length ∧
    (∀ total count, (∀ o, slotTotal (adds ++ [c]) o ≤ total) →
      (∀ o, slotCount (adds ++ [c]) o ≤ count) →
      (after window (adds ++ [c])).valueEx.toNat ≤
        rateLimitingPrecision * total + window.toNat * count) ∧
    (c.units = 0 → (after window (adds ++ [c])).valueEx ≤ (after window adds).valueEx ∧
      ((after window adds).lastOrdinal.toNat + window.toNat ≤ c.ordinal.toNat →
        (after window (adds ++ [c])).valueEx = 0)) ∧
    (after window (adds ++ [c])).consumed.toNat =
      integerDivideCeil (carriedIn window (adds ++ [c]) c.ordinal) rateLimitingPrecision +
        slotTotal (adds ++ [c]) c.ordinal := by
  have all := known admitted
  have step := (known admitted.init).exactAdd admitted
  have last : (after window (adds ++ [c])).lastOrdinal = c.ordinal := by
    rw [after_concat]
    exact step.lastOrdinal
  refine ⟨step, (near_after admitted).1, fun total count => all.value_le admitted.window_pos, ?_, ?_⟩
  · intro zero
    have value : (after window (adds ++ [c])).valueEx.toNat = (after window adds).left c.ordinal window := by
      rw [after_concat, step.valueEx, zero]
      simp [contribution, integerDivideCeil]
    constructor
    · rw [UInt64.le_iff_toNat_le, value]
      exact left_le _ _ _
    · intro late
      rw [← UInt64.toNat_inj, value, left, Nat.sub_eq_zero_of_le (by omega)]
      simp
  · rw [← last]
    exact all.consumed

/-- Two adds in one slot, two more in a later one, and a whole window without any. -/
def busy : List Charge := [⟨6, 3⟩, ⟨5, 3⟩, ⟨7, 50⟩, ⟨8, 50⟩, ⟨0, 170⟩]

theorem admitted_busy {n : Nat} : Admitted 120 (busy.take n) where
  window_pos := by decide
  window_le := by decide
  ordered := List.Pairwise.sublist (List.take_sublist n busy) (by decide)
  light _ := ((((List.filter_sublist).trans (List.take_sublist n busy)).map
    fun c : Charge => c.units.toNat).sum_le_sum fun _ _ => Nat.zero_le _).trans_lt (by decide)

/-- Of the 91667 that slot 3 leaves, 55764 come into slot 50; slot 170 starts anew. -/
theorem after_accurate_busy :
    (after 120 (busy.take 4)).consumed.toNat = 1 + 15 ∧
      (after 120 (busy.take 4)).valueEx.toNat ≤ rateLimitingPrecision * 15 + 120 * 2 ∧
      (after 120 busy).valueEx = 0 := by
  obtain ⟨-, -, bound, -, consumed⟩ := @after_accurate ⟨8, 50⟩ 120 (busy.take 3) (@admitted_busy 4)
  obtain ⟨-, -, -, idle, -⟩ := @after_accurate ⟨0, 170⟩ 120 (busy.take 4) (@admitted_busy 5)
  refine ⟨consumed.trans (by decide +kernel), bound 15 2 ?_ ?_, (idle rfl).2 (by decide +kernel)⟩
  all_goals
    intro o
    by_cases first : (3 : UInt32) = o
    · subst first
      decide
    · by_cases second : (50 : UInt32) = o
      · subst second
        decide
      · simp [slotTotal, slotCount, busy, first, second]

end UsageAccumulator

end PulseVM.ChainDb
