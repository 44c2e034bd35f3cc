import Mathlib.Logic.Relation

/-!
Climbing a forest that is stored as a map from keys to the keys of their parents. One key
is no node: it stands where a parent is missing. A rank that falls along every step bounds
the climb.
-/

namespace PulseVM.Lib

section Climb

variable {κ : Type} {up : κ → Option κ} {root target : κ}

/-- One step up, which does not leave the forest. -/
def Up (up : κ → Option κ) (root : κ) (k q : κ) : Prop := up k = some q ∧ q ≠ root

/-- Climb from a key and look for another above it. Without an answer the climb still
goes on. -/
def climb [DecidableEq κ] (up : κ → Option κ) (root target : κ) : Nat → κ → Option Bool
  | 0, _ => none
  | fuel + 1, k =>
    match up k with
    | none => some false
    | some q =>
      if target = q then some true
      else if q = root then some false
      else climb up root target fuel q

theorem Up.unique {k q r : κ} (first : Up up root k q) (second : Up up root k r) : q = r :=
  Option.some.inj (first.1.symm.trans second.1)

theorem not_transGen_of_top {k : κ} (top : ∀ q, ¬Up up root k q) :
    ¬Relation.TransGen (Up up root) k target := by
  intro above
  obtain ⟨q, step, -⟩ := Relation.TransGen.head'_iff.mp above
  exact top q step

theorem transGen_up_iff {k q : κ} (step : Up up root k q) :
    Relation.TransGen (Up up root) k target ↔
      q = target ∨ Relation.TransGen (Up up root) q target := by
  rw [Relation.TransGen.head'_iff]
  constructor
  · rintro ⟨r, first, rest⟩
    cases step.unique first
    exact Relation.reflTransGen_iff_eq_or_transGen.mp rest |>.imp Eq.symm id
  · rintro (rfl | above)
    · exact ⟨q, step, .refl⟩
    · exact ⟨q, step, above.to_reflTransGen⟩

/-- A climb with more steps than its rank ends, and finds exactly what lies above. -/
theorem climb_ends [DecidableEq κ] {rank : κ → Nat}
    (falls : ∀ k q, Up up root k q → rank q < rank k) (inside : target ≠ root) {fuel : Nat} {k : κ}
    (enough : rank k < fuel) :
    ∃ answer, climb up root target fuel k = some answer ∧
      (answer = true ↔ Relation.TransGen (Up up root) k target) := by
  induction fuel generalizing k with
  | zero => omega
  | succ fuel ih =>
    cases parent : up k with
    | none =>
      have top : ∀ q, ¬Up up root k q := by simp [Up, parent]
      exact ⟨false, by simp [climb, parent], by simp [not_transGen_of_top top]⟩
    | some q =>
      by_cases found : target = q
      · have step : Up up root k target := ⟨by rw [parent, found], inside⟩
        exact ⟨true, by simp [climb, parent, found], by simp [Relation.TransGen.single step]⟩
      · by_cases top : q = root
        · have stays : ∀ r, ¬Up up root k r := by simp [Up, parent, top]
          exact ⟨false, by simp [climb, parent, top, inside],
            by simp [not_transGen_of_top stays]⟩
        · have step : Up up root k q := ⟨parent, top⟩
          have lower := falls k q step
          obtain ⟨answer, done, above⟩ := ih (k := q) (by omega)
          refine ⟨answer, by simp [climb, parent, found, top, done], ?_⟩
          rw [above, transGen_up_iff step]
          simp [Ne.symm found]

end Climb

end PulseVM.Lib
