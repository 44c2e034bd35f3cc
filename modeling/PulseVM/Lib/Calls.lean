import Mathlib.Data.List.Basic
import Mathlib.Order.Defs.Unbundled

/-!
Fallible calls on a state. A call returns its verdict beside the state it leaves behind,
also when it fails, so what an early return has already written stays written. A run is
a list of steps, each of which may be asked to meet a condition where it is taken.
-/

namespace PulseVM.Lib.Calls

universe u v w

/-- A call on a state `σ` that yields `α` or fails with `ε`. -/
def Call (ε : Type u) (σ : Type w) (α : Type v) : Type (max u v w) := σ → Except ε α × σ

namespace Call

variable {ε : Type u} {σ : Type w} {α β : Type v}

instance : Monad (Call ε σ) where
  pure a := fun s => (.ok a, s)
  bind call next := fun s =>
    match call s with
    | (.ok a, s) => next a s
    | (.error e, s) => (.error e, s)

def throw (e : ε) : Call ε σ α := fun s => (.error e, s)

def read (f : σ → α) : Call ε σ α := fun s => (.ok (f s), s)

theorem pure_run (a : α) (s : σ) : (pure a : Call ε σ α) s = (.ok a, s) := rfl

theorem read_bind (f : σ → α) (next : α → Call ε σ β) (s : σ) :
    (read f >>= next : Call ε σ β) s = next (f s) s := rfl

variable {call : Call ε σ α} {s : σ}

theorem bind_ok {t : σ} {a : α} (done : call s = (.ok a, t)) (next : α → Call ε σ β) :
    (call >>= next) s = next a t := by
  change (match call s with
    | (.ok a, s) => next a s
    | (.error e, s) => (.error e, s)) = _
  rw [done]

theorem bind_error {t : σ} {e : ε} (failed : call s = (.error e, t)) (next : α → Call ε σ β) :
    (call >>= next) s = (.error e, t) := by
  change (match call s with
    | (.ok a, s) => next a s
    | (.error e, s) => (.error e, s)) = _
  rw [failed]

theorem bind_pure' (call : Call ε σ α) : call >>= pure = call := by
  funext s
  rcases result : call s with ⟨e | a, t⟩
  · rw [bind_error result]
  · rw [bind_ok result, pure_run]

theorem bind_assoc' {γ : Type v} (call : Call ε σ α) (next : α → Call ε σ β)
    (last : β → Call ε σ γ) : call >>= next >>= last = call >>= fun a => next a >>= last := by
  funext s
  rcases result : call s with ⟨e | a, t⟩
  · rw [bind_error (bind_error result next), bind_error result]
  · rw [bind_ok result]
    rcases second : next a t with ⟨e | b, u⟩
    · rw [bind_error ((bind_ok result next).trans second), bind_error second]
    · rw [bind_ok ((bind_ok result next).trans second), bind_ok second]

instance : LawfulMonad (Call ε σ) :=
  LawfulMonad.mk' _ bind_pure' (fun _ _ => rfl) bind_assoc'

theorem forM_cons {ι : Type u} (f : ι → Call ε σ PUnit) (i : ι) (rest : List ι) :
    (i :: rest).forM f = f i >>= fun _ => rest.forM f := rfl

/-- What holds of the states that two calls leave behind, one after the other. -/
theorem bind_after {next : α → Call ε σ β} {p : σ → Prop}
    (first : ∀ e, (call s).1 = .error e → p (call s).2)
    (second : ∀ a, (call s).1 = .ok a → p (next a (call s).2).2) : p ((call >>= next) s).2 := by
  rcases result : call s with ⟨verdict, t⟩
  rw [result] at first second
  cases verdict with
  | ok a =>
    rw [bind_ok result]
    exact second a rfl
  | error e =>
    rw [bind_error result]
    exact first e rfl

/-- Where the call succeeds from `s`, its result and the state it leaves satisfy `post`. -/
structure Yields (s : σ) (call : Call ε σ α) (post : α → σ → Prop) : Prop where
  post : ∀ a t, call s = (.ok a, t) → post a t

namespace Yields

variable {s t : σ} {call : Call ε σ α} {next : α → Call ε σ β} {post : α → σ → Prop} {a : α}

theorem of_ok (done : call s = (.ok a, t)) (holds : post a t) : Yields s call post where
  post b u result := by
    obtain ⟨same, rfl⟩ := Prod.mk.inj (done.symm.trans result)
    exact Except.ok.inj same ▸ holds

theorem of_error {e : ε} (failed : call s = (.error e, t)) : Yields s call post where
  post b u result := by cases failed.symm.trans result

theorem of_pure (holds : post a s) : Yields s (pure a : Call ε σ α) post := of_ok rfl holds

theorem of_throw (e : ε) : Yields s (throw e) post := of_error rfl

theorem of_read {f : σ → α} (holds : post (f s) s) : Yields s (read f : Call ε σ α) post :=
  of_ok rfl holds

theorem of_run {verdict : Except ε α} (ran : call s = (verdict, t))
    (holds : ∀ a, verdict = .ok a → post a t) : Yields s call post where
  post a u done := by
    obtain ⟨ok, rfl⟩ := Prod.mk.inj (ran.symm.trans done)
    exact holds a ok

theorem of_assert {condition : Bool} {error : ε} {post : PUnit → σ → Prop}
    (holds : condition = true → post ⟨⟩ s) :
    Yields s (if condition then pure ⟨⟩ else throw error : Call ε σ PUnit) post := by
  split
  · next met => exact of_pure (holds met)
  · exact of_throw error

theorem imp {post' : α → σ → Prop} (holds : Yields s call post)
    (weaker : ∀ a t, post a t → post' a t) : Yields s call post' where
  post a t done := weaker a t (holds.post a t done)

theorem bind {post : β → σ → Prop} (first : Yields s call fun a t => Yields t (next a) post) :
    Yields s (call >>= next) post where
  post b u done := by
    rcases result : call s with ⟨e | a, t⟩
    · rw [bind_error result] at done
      cases done
    · rw [bind_ok result] at done
      exact (first.post a t result).post b u done

variable {last : β → σ → Prop}

theorem seq {post : α → σ → Prop} (first : Yields s call post)
    (second : ∀ a t, post a t → Yields t (next a) last) : Yields s (call >>= next) last :=
  bind (first.imp second)

theorem read_bind {f : σ → α} (second : Yields s (next (f s)) last) :
    Yields s (read f >>= next) last := bind (of_read second)

theorem ok_bind (done : call s = (.ok a, t)) (second : Yields t (next a) last) :
    Yields s (call >>= next) last := bind (of_ok done second)

theorem run_bind {verdict : Except ε α} (ran : call s = (verdict, t))
    (second : ∀ a, verdict = .ok a → Yields t (next a) last) : Yields s (call >>= next) last :=
  bind (of_run ran second)

theorem assert_bind {condition : Bool} {error : ε} {next : PUnit → Call ε σ β}
    (second : condition = true → Yields s (next ⟨⟩) last) :
    Yields s ((if condition then pure ⟨⟩ else throw error : Call ε σ PUnit) >>= next) last :=
  bind (of_assert second)

theorem bind_any {post : β → σ → Prop} (second : ∀ a t, Yields t (next a) post) :
    Yields s (call >>= next) post := bind ⟨fun a t _ => second a t⟩

end Yields

/-! Where a call can lead, also if it fails. -/

/-- Whatever its verdict, the call leads from a state only to states related to it. -/
def Moves (R : σ → σ → Prop) (call : Call ε σ α) : Prop := ∀ s, R s (call s).2

/-- A part of the state is the same. -/
def Same {γ : Sort*} (view : σ → γ) (s t : σ) : Prop := view t = view s

instance {γ : Sort*} (view : σ → γ) : IsPreorder σ (Same view) where
  refl _ := rfl
  trans _ _ _ first second := Eq.trans second first

section Moves

variable {R : σ → σ → Prop} {call : Call ε σ α} {next : α → Call ε σ β}

theorem Moves.mono {S : σ → σ → Prop} (moves : Moves R call) (weaker : ∀ s t, R s t → S s t) :
    Moves S call := fun s => weaker s _ (moves s)

theorem moves_ite {p : Prop} [Decidable p] {yes no : Call ε σ α} (first : Moves R yes)
    (second : Moves R no) : Moves R (if p then yes else no) := by
  split
  · exact first
  · exact second

theorem Moves.yields {s : σ} {post : α → σ → Prop} (moves : Moves R call)
    (holds : ∀ a t, R s t → post a t) : Yields s call post where
  post a t done := by
    have related := moves s
    rw [done] at related
    exact holds a t related

variable [IsPreorder σ R]

theorem moves_pure (a : α) : Moves R (pure a : Call ε σ α) := fun s => refl_of R s

theorem moves_throw (e : ε) : Moves R (throw e : Call ε σ α) := fun s => refl_of R s

theorem moves_read (f : σ → α) : Moves R (read f : Call ε σ α) := fun s => refl_of R s

theorem Moves.bind (first : Moves R call) (second : ∀ a, Moves R (next a)) :
    Moves R (call >>= next) := by
  intro s
  apply bind_after
  · intro e _
    exact first s
  · intro a _
    exact trans_of R (first s) (second a _)

theorem Moves.bind_option {call : Call ε σ (Option α)} {next : Option α → Call ε σ β}
    (first : Moves R call) (absent : Moves R (next none))
    (present : ∀ a, Moves R (next (some a))) : Moves R (call >>= next) :=
  first.bind (Option.rec absent present)

theorem moves_foldlM {ι : Type v} {f : α → ι → Call ε σ α} (each : ∀ a i, Moves R (f a i))
    (a : α) (items : List ι) : Moves R (items.foldlM f a) := by
  induction items generalizing a with
  | nil => exact moves_pure a
  | cons i rest ih =>
    rw [List.foldlM_cons]
    exact (each a i).bind fun b => ih b

theorem moves_forM {ι : Type u} {f : ι → Call ε σ PUnit} (each : ∀ i, Moves R (f i))
    (items : List ι) : Moves R (items.forM f) := by
  induction items with
  | nil => exact moves_pure _
  | cons i rest ih =>
    rw [forM_cons]
    exact (each i).bind fun _ => ih

end Moves

/-! Where a call can lead if it succeeds. -/

/-- Where it succeeds, the call leads from a state only to states related to it. -/
def Leads (R : σ → σ → Prop) (call : Call ε σ α) : Prop := ∀ s, Yields s call fun _ t => R s t

section Leads

variable {R : σ → σ → Prop} {call : Call ε σ α} {next : α → Call ε σ β}

theorem Moves.leads (moves : Moves R call) : Leads R call := fun _ => moves.yields fun _ _ => id

theorem Leads.ok (leads : Leads R call) {s t : σ} {a : α} (done : call s = (.ok a, t)) : R s t :=
  (leads s).post a t done

theorem leads_throw (e : ε) : Leads R (throw e : Call ε σ α) := fun _ => Yields.of_throw e

theorem leads_ite {p : Prop} [Decidable p] {yes no : Call ε σ α} (first : Leads R yes)
    (second : Leads R no) : Leads R (if p then yes else no) := by
  split
  · exact first
  · exact second

variable [IsPreorder σ R]

theorem leads_pure (a : α) : Leads R (pure a : Call ε σ α) := (moves_pure a).leads

theorem leads_read (f : σ → α) : Leads R (read f : Call ε σ α) := (moves_read f).leads

theorem Leads.bind (first : Leads R call) (second : ∀ a, Leads R (next a)) :
    Leads R (call >>= next) := by
  intro s
  apply Yields.bind
  apply (first s).imp
  intro a t here
  apply (second a t).imp
  intro _ u there
  exact trans_of R here there

theorem Leads.bind_option {call : Call ε σ (Option α)} {next : Option α → Call ε σ β}
    (first : Leads R call) (absent : Leads R (next none))
    (present : ∀ a, Leads R (next (some a))) : Leads R (call >>= next) :=
  first.bind (Option.rec absent present)

theorem leads_forM {ι : Type u} {f : ι → Call ε σ PUnit} (each : ∀ i, Leads R (f i))
    (items : List ι) : Leads R (items.forM f) := by
  induction items with
  | nil => exact leads_pure _
  | cons i rest ih =>
    rw [forM_cons]
    exact (each i).bind fun _ => ih

end Leads

end Call

section Runs

variable {σ : Type u} {Op : Type v} {step : σ → Op → σ} {ok : σ → Op → Prop}

/-- Every step of a run meets a condition in the state where it is taken. -/
def Along (step : σ → Op → σ) (ok : σ → Op → Prop) : σ → List Op → Prop
  | _, [] => True
  | s, op :: rest => ok s op ∧ Along step ok (step s op) rest

instance decidableAlong [∀ s op, Decidable (ok s op)] :
    (s : σ) → (ops : List Op) → Decidable (Along step ok s ops)
  | _, [] => isTrue trivial
  | s, op :: rest => @instDecidableAnd (ok s op) _ _ (decidableAlong (step s op) rest)

variable {p : σ → Prop} {ops : List Op} {s : σ}

theorem Along.foldl (keeps : ∀ s op, p s → ok s op → p (step s op)) (along : Along step ok s ops)
    (holds : p s) : p (ops.foldl step s) := by
  induction ops generalizing s with
  | nil => exact holds
  | cons op rest ih => exact ih along.2 (keeps s op holds along.1)

/-- Under an invariant that it keeps, one condition along a run gives another. -/
theorem Along.imp {ok' : σ → Op → Prop} (each : ∀ s op, p s → ok s op → ok' s op ∧ p (step s op))
    (holds : p s) (along : Along step ok s ops) : Along step ok' s ops := by
  induction ops generalizing s with
  | nil => trivial
  | cons op rest ih =>
    obtain ⟨here, next⟩ := each s op holds along.1
    exact ⟨here, ih next along.2⟩

/-- Where an invariant makes two conditions agree, the same runs meet them. -/
theorem Along.congr {ok' : σ → Op → Prop} (agree : ∀ s op, p s → (ok s op ↔ ok' s op))
    (keeps : ∀ s op, p s → ok s op → p (step s op)) (holds : p s) :
    Along step ok s ops ↔ Along step ok' s ops := by
  induction ops generalizing s with
  | nil => exact Iff.rfl
  | cons op rest ih =>
    have here := agree s op holds
    constructor
    · exact fun along => ⟨here.mp along.1, (ih (keeps s op holds along.1)).mp along.2⟩
    · intro along
      have first := here.mpr along.1
      exact ⟨first, (ih (keeps s op holds first)).mpr along.2⟩

end Runs

end PulseVM.Lib.Calls
