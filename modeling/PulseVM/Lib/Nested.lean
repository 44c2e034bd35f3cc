import Mathlib.Order.Nat

/-!
Computations in which calls are nested, with room for so many of them. One that needs more
room gives no answer at all. Room never changes an answer, so that with enough of it a
computation answers as if there were no bound.
-/

namespace PulseVM.Lib

variable {σ ε α β : Type}

/-- A result with the state behind it, an error, or no answer. -/
def Nested (σ ε α : Type) := σ → Option (Except ε (α × σ))

namespace Nested

/-- Errors end a computation. -/
def follow (next : α → Nested σ ε β) : Except ε (α × σ) → Option (Except ε (β × σ))
  | .ok (a, s) => next a s
  | .error e => some (.error e)

instance : Monad (Nested σ ε) where
  pure a := fun s => some (.ok (a, s))
  bind d next := fun s => (d s).bind (follow next)

theorem bind_apply (d : Nested σ ε α) (next : α → Nested σ ε β) (s : σ) :
    (d >>= next) s = (d s).bind (follow next) := rfl

/-- No room for another call. -/
def exhausted : Nested σ ε α := fun _ => none

def fail (e : ε) : Nested σ ε α := fun _ => some (.error e)

/-- A computation without nested calls. -/
def flat (d : StateT σ (Except ε) α) : Nested σ ε α := fun s => some (d s)

instance : MonadLift (StateT σ (Except ε)) (Nested σ ε) where
  monadLift := flat

theorem bind_exhausted {d : Nested σ ε α} {s : σ} (stuck : d s = none) (next : α → Nested σ ε β) :
    (d >>= next) s = none := by
  rw [bind_apply, stuck, Option.bind_none]

/-! Answers. -/

/-- Whatever the state, there is an answer. -/
def Returns (d : Nested σ ε α) : Prop := ∀ s, (d s).isSome

theorem returns_pure (a : α) : Returns (pure a : Nested σ ε α) := fun _ => rfl

theorem returns_fail (e : ε) : Returns (fail e : Nested σ ε α) := fun _ => rfl

theorem returns_flat (d : StateT σ (Except ε) α) : Returns (flat d) := fun _ => rfl

theorem Returns.bind {d : Nested σ ε α} {next : α → Nested σ ε β} (first : Returns d)
    (rest : ∀ a, Returns (next a)) : Returns (d >>= next) := by
  intro s
  obtain ⟨result, found⟩ := Option.isSome_iff_exists.mp (first s)
  rw [bind_apply, found, Option.bind_some]
  cases result with
  | ok pair => exact rest pair.1 pair.2
  | error e => rfl

/-! More room. -/

/-- Answers stay what they are. -/
def Extends (d e : Nested σ ε α) : Prop := ∀ s answer, d s = some answer → e s = some answer

theorem Extends.refl (d : Nested σ ε α) : Extends d d := fun _ _ answered => answered

theorem extends_exhausted (d : Nested σ ε α) : Extends exhausted d := by
  intro s answer answered
  cases answered

theorem Extends.bind {d e : Nested σ ε α} {next next' : α → Nested σ ε β} (first : Extends d e)
    (rest : ∀ a, Extends (next a) (next' a)) : Extends (d >>= next) (e >>= next') := by
  intro s answer answered
  rw [bind_apply] at answered ⊢
  obtain ⟨result, found, followed⟩ := Option.bind_eq_some_iff.mp answered
  rw [first s result found, Option.bind_some]
  cases result with
  | ok pair => exact rest pair.1 pair.2 answer followed
  | error e => exact followed

/-- Steps that extend each other answer alike as soon as one of them answers. -/
theorem answers_of_extends {d : Nat → Nested σ ε α} (grows : ∀ n, Extends (d n) (d (n + 1)))
    {enough : Nat} (returns : Returns (d enough)) (s : σ) :
    ∃ answer, ∀ room ≥ enough, d room s = some answer := by
  obtain ⟨answer, answered⟩ := Option.isSome_iff_exists.mp (returns s)
  refine ⟨answer, fun room large => ?_⟩
  induction room, large using Nat.le_induction with
  | base => exact answered
  | succ room _ ih => exact grows room s answer ih

end Nested

end PulseVM.Lib
