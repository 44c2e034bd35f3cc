import Mathlib.Logic.Function.Basic

/-!
Nested undo sessions over an arbitrary state. A machine has ordinary calls and
three session operations; a body is a balanced program for it. Two rules carry an
invariant, a frame or a simulation over every run of a body, so a client proves one
fact per call and one per session, never an induction. Machines can be run side by
side; then a run of all of them is a run of each.
-/

namespace PulseVM.Lib.Sessions

/-- How a nested session ends inside a balanced body. -/
inductive Close where
  | undo
  | squash
  deriving DecidableEq, Repr

/-- A balanced program: ordinary calls and properly closed nested sessions. -/
inductive Body (Op : Type*) where
  | done
  | call (op : Op) (rest : Body Op)
  | session (inner : Body Op) (close : Close) (rest : Body Op)

structure Machine (C : Type*) (Op : Type*) where
  step : C → Op → C
  start : C → C
  undo : C → C
  squash : C → C

namespace Machine

variable {C : Type*} {Op : Type*} (m : Machine C Op)

def close : Close → C → C
  | .undo => m.undo
  | .squash => m.squash

def run : Body Op → C → C
  | .done, c => c
  | .call op rest, c => run rest (m.step c op)
  | .session inner ending rest, c => run rest (m.close ending (run inner (m.start c)))

/-- Every call of the body meets `ok` in the state where it is made. -/
def Admits (ok : C → Op → Prop) : Body Op → C → Prop
  | .done, _ => True
  | .call op rest, c => ok c op ∧ Admits ok rest (m.step c op)
  | .session inner ending rest, c =>
      Admits ok inner (m.start c) ∧ Admits ok rest (m.close ending (m.run inner (m.start c)))

instance decidableAdmits {ok : C → Op → Prop} [∀ c op, Decidable (ok c op)] :
    (body : Body Op) → (c : C) → Decidable (m.Admits ok body c)
  | .done, _ => isTrue trivial
  | .call op rest, c => @instDecidableAnd (ok c op) _ _ (decidableAdmits rest (m.step c op))
  | .session inner ending rest, c =>
    @instDecidableAnd _ _ (decidableAdmits inner (m.start c))
      (decidableAdmits rest (m.close ending (m.run inner (m.start c))))

variable {m}

/-- The invariant is carried through every state of a run, and the frame relates
the first state of the run to its last. -/
theorem run_frame (ok : C → Op → Prop) (inv : C → Prop) (frame : C → C → Prop)
    (refl : ∀ c, inv c → frame c c)
    (trans : ∀ {a b c}, frame a b → frame b c → frame a c)
    (step : ∀ c op, inv c → ok c op → inv (m.step c op) ∧ frame c (m.step c op))
    (start : ∀ c, inv c → inv (m.start c))
    (close : ∀ c d ending, inv c → inv d → frame (m.start c) d →
      inv (m.close ending d) ∧ frame c (m.close ending d))
    (body : Body Op) (c : C) (admits : m.Admits ok body c) (holds : inv c) :
    inv (m.run body c) ∧ frame c (m.run body c) := by
  induction body generalizing c with
  | done => exact ⟨holds, refl c holds⟩
  | call op rest ih =>
    obtain ⟨allowed, later⟩ := admits
    obtain ⟨next, first⟩ := step c op holds allowed
    obtain ⟨last, others⟩ := ih _ later next
    exact ⟨last, trans first others⟩
  | session inner ending rest ihInner ihRest =>
    obtain ⟨inside, after⟩ := admits
    obtain ⟨innerHolds, innerFrame⟩ := ihInner _ inside (start c holds)
    obtain ⟨closed, closedFrame⟩ := close c _ ending holds innerHolds innerFrame
    obtain ⟨last, others⟩ := ihRest _ after closed
    exact ⟨last, trans closedFrame others⟩

theorem admits_true (body : Body Op) (c : C) : m.Admits (fun _ _ => True) body c := by
  induction body generalizing c with
  | done => trivial
  | call op rest ih => exact ⟨trivial, ih _⟩
  | session inner ending rest ihInner ihRest => exact ⟨ihInner _, ihRest _⟩

/-- Two machines that stay related under every call and session operation are related after
every body; the relation may count the sessions that the body has open. -/
theorem run_simulate_depth {D : Type*} {n : Machine D Op} (related : Nat → C → D → Prop)
    (step : ∀ k c d op, related k c d → related k (m.step c op) (n.step d op))
    (start : ∀ k c d, related k c d → related (k + 1) (m.start c) (n.start d))
    (close : ∀ k c d ending, related (k + 1) c d →
      related k (m.close ending c) (n.close ending d))
    (body : Body Op) {k : Nat} (c : C) (d : D) (first : related k c d) :
    related k (m.run body c) (n.run body d) := by
  induction body generalizing k c d with
  | done => exact first
  | call op rest ih => exact ih _ _ (step k c d op first)
  | session inner ending rest ihInner ihRest =>
    have inside := ihInner _ _ (start k c d first)
    exact ihRest _ _ (close k _ _ ending inside)

theorem run_simulate {D : Type*} {n : Machine D Op} (related : C → D → Prop)
    (step : ∀ c d op, related c d → related (m.step c op) (n.step d op))
    (start : ∀ c d, related c d → related (m.start c) (n.start d))
    (undo : ∀ c d, related c d → related (m.undo c) (n.undo d))
    (squash : ∀ c d, related c d → related (m.squash c) (n.squash d))
    (body : Body Op) (c : C) (d : D) (first : related c d) :
    related (m.run body c) (n.run body d) := by
  apply run_simulate_depth (k := 0) (fun _ => related) (fun _ => step) (fun _ => start) _ body c d first
  rintro _ c d (_ | _) inside
  · exact undo c d inside
  · exact squash c d inside

section Family

variable {ι : Type*} [DecidableEq ι] {D : ι → Type*} {Call : ι → Type*}

/-- Machines side by side: a call concerns one of them, a session all of them. -/
def family (each : ∀ i, Machine (D i) (Call i)) : Machine (∀ i, D i) (Σ i, Call i) where
  step c call := Function.update c call.1 ((each call.1).step (c call.1) call.2)
  start c i := (each i).start (c i)
  undo c i := (each i).undo (c i)
  squash c i := (each i).squash (c i)

end Family

end Machine

/-- What a body for machines side by side asks of one of them. -/
def Body.project {ι : Type*} [DecidableEq ι] {Call : ι → Type*} (i : ι) :
    Body (Σ i, Call i) → Body (Call i)
  | .done => .done
  | .call asked rest =>
    if here : asked.1 = i then .call (here ▸ asked.2) (rest.project i) else rest.project i
  | .session inner ending rest => .session (inner.project i) ending (rest.project i)

theorem Body.project_self {ι : Type*} [DecidableEq ι] {Call : ι → Type*} {i : ι} (op : Call i)
    (rest : Body (Σ i, Call i)) :
    (Body.call ⟨i, op⟩ rest).project i = .call op (rest.project i) := dif_pos rfl

theorem Body.project_other {ι : Type*} [DecidableEq ι] {Call : ι → Type*} {i j : ι}
    (other : j ≠ i) (op : Call j) (rest : Body (Σ i, Call i)) :
    (Body.call ⟨j, op⟩ rest).project i = rest.project i := dif_neg other

namespace Machine

section Family

variable {ι : Type*} [DecidableEq ι] {D : ι → Type*} {Call : ι → Type*}
  (each : ∀ i, Machine (D i) (Call i))

theorem family_close (ending : Close) (c : ∀ i, D i) (i : ι) :
    (family each).close ending c i = (each i).close ending (c i) := by
  cases ending <;> rfl

theorem family_run (body : Body (Σ i, Call i)) (c : ∀ i, D i) (i : ι) :
    (family each).run body c i = (each i).run (body.project i) (c i) := by
  induction body generalizing c with
  | done => rfl
  | call call rest ih =>
    obtain ⟨j, op⟩ := call
    rw [run, ih]
    by_cases here : j = i
    · subst here
      rw [Body.project_self]
      simp only [family, run, Function.update_self]
    · rw [Body.project_other here]
      simp only [family, Function.update_of_ne (Ne.symm here)]
  | session inner ending rest ihInner ihRest =>
    rw [run, ihRest, family_close, ihInner]
    rfl

theorem family_admits (ok : ∀ i, D i → Call i → Prop) (body : Body (Σ i, Call i)) (c : ∀ i, D i)
    (admits : (family each).Admits (fun c call => ok call.1 (c call.1) call.2) body c) (i : ι) :
    (each i).Admits (ok i) (body.project i) (c i) := by
  induction body generalizing c with
  | done => trivial
  | call call rest ih =>
    obtain ⟨j, op⟩ := call
    obtain ⟨allowed, later⟩ := admits
    have others := ih _ later
    by_cases here : j = i
    · subst here
      rw [Body.project_self]
      simp only [family, Function.update_self] at others
      exact ⟨allowed, others⟩
    · rw [Body.project_other here]
      simp only [family, Function.update_of_ne (Ne.symm here)] at others
      exact others
  | session inner ending rest ihInner ihRest =>
    obtain ⟨inside, after⟩ := admits
    have last := ihRest _ after
    rw [family_close, family_run] at last
    exact ⟨ihInner _ inside, last⟩

end Family

end Machine

end PulseVM.Lib.Sessions
