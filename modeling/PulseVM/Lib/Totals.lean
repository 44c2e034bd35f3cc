import Mathlib.Algebra.BigOperators.Group.Finset.Basic
import PulseVM.Lib.Undo

/-!
Totals over the rows of a slab: every row has a weight, and storing, replacing or
removing a row changes the total by the weights concerned and nothing else.
-/

namespace PulseVM.Lib.Undo.Slab

variable {T M : Type*} [AddCommMonoid M]

def total (s : Slab T) (weight : T → M) : M :=
  ∑ i ∈ Finset.range s.len, (s.get i).elim 0 weight

@[simp] theorem total_empty (weight : T → M) : (empty : Slab T).total weight = 0 := rfl

/-- Two slabs that differ in one slot have totals that differ by its weights. -/
theorem total_differ {s t : Slab T} {slot : Nat} (weight : T → M) (len : t.len = s.len)
    (inside : slot < s.len) (same : ∀ i, i ≠ slot → t.get i = s.get i) :
    t.total weight + (s.get slot).elim 0 weight = s.total weight + (t.get slot).elim 0 weight := by
  have member : slot ∈ Finset.range s.len := Finset.mem_range.mpr inside
  have others : ∑ i ∈ (Finset.range s.len).erase slot, (t.get i).elim 0 weight =
      ∑ i ∈ (Finset.range s.len).erase slot, (s.get i).elim 0 weight := by
    apply Finset.sum_congr rfl
    intro i listed
    rw [same i (Finset.ne_of_mem_erase listed)]
  unfold total
  rw [len, ← Finset.add_sum_erase _ _ member, ← Finset.add_sum_erase _ _ member, others,
    add_right_comm, add_comm ((t.get slot).elim 0 weight), add_right_comm]

theorem total_push (s : Slab T) (row : T) (weight : T → M) :
    (s.push row).total weight = s.total weight + weight row := by
  have before : ∑ i ∈ Finset.range s.len, ((s.push row).get i).elim 0 weight = s.total weight := by
    apply Finset.sum_congr rfl
    intro i listed
    have here : (s.push row).get i = s.get i := if_neg (Nat.ne_of_lt (Finset.mem_range.mp listed))
    rw [here]
  have last : (s.push row).get s.len = some row := if_pos rfl
  change ∑ i ∈ Finset.range (s.len + 1), _ = _
  rw [Finset.sum_range_succ, before, last]
  rfl

theorem total_set {s : Slab T} {slot : Nat} {old : T} (held : s.get slot = some old) (row : T)
    (weight : T → M) :
    (s.set slot row (lt_of_get held)).total weight + weight old = s.total weight + weight row := by
  have change := total_differ (s := s) (t := s.set slot row (lt_of_get held)) weight rfl
    (lt_of_get held) fun i other => if_neg other
  rw [held, show (s.set slot row (lt_of_get held)).get slot = some row from if_pos rfl] at change
  exact change

theorem total_erase {s : Slab T} {slot : Nat} {row : T} (held : s.get slot = some row)
    (weight : T → M) : (s.erase slot).total weight + weight row = s.total weight := by
  have change := total_differ (s := s) (t := s.erase slot) weight rfl (lt_of_get held)
    fun i other => if_neg other
  rw [held, show (s.erase slot).get slot = none from if_pos rfl] at change
  exact change.trans (add_zero _)

theorem total_eq_zero {s : Slab T} {weight : T → M}
    (zero : ∀ i row, s.get i = some row → weight row = 0) : s.total weight = 0 := by
  apply Finset.sum_eq_zero
  intro i _
  cases held : s.get i with
  | none => rfl
  | some row => exact zero i row held

end PulseVM.Lib.Undo.Slab
