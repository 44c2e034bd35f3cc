import PulseVM.Lib.Spans
import PulseVM.Lib.Undo

/-!
Accounts of a span allocator with nested sessions. Every span of the arena is held
by a client, kept back by an open session that saw it freed, or free. A session
remembers which free spans were handed out while it was open, so that undoing it
finds the spans held at its start, those kept back by older sessions and the free
ones, all apart and below its mark. Each operation only moves spans between these
owners, so it permutes the lists and keeps the accounts.
-/

namespace PulseVM.Lib.Leases
open Spans Undo
open List

/-- What an open session knows: the size of the arena at its start, the spans freed
and the free spans handed out since. -/
structure Frame where
  mark : Nat
  freed : List Span
  reused : List Span

/-- Spans kept back by open sessions. -/
def pending (frames : List Frame) : List Span := frames.flatMap Frame.freed

/-- Undoing the sessions one after the other always finds a layout. The pool are the
free spans plus those handed out by newer sessions. Newest session first. -/
def Backed : Nat → List Span → List Frame → List (List Span) → Prop
  | _, _, [], [] => True
  | size, pool, f :: frames, held :: saved =>
      f.mark ≤ size ∧ Layout (held ++ pending frames ++ (pool ++ f.reused)) f.mark ∧
        Backed f.mark (pool ++ f.reused) frames saved
  | _, _, _, _ => False

structure Accounted (size : Nat) (free : List Span) (frames : List Frame) (held : List Span)
    (saved : List (List Span)) : Prop where
  layout : Layout (held ++ pending frames ++ free) size
  backed : Backed size free frames saved

theorem perm_of_counts {a b : List Span} (same : ∀ s, a.count s = b.count s) : a.Perm b :=
  perm_iff_count.mpr same

variable {frames : List Frame} {saved : List (List Span)} {pool : List Span} {size : Nat}

section

variable (backed : Backed size pool frames saved)

include backed

theorem Backed.perm {other : List Span}
    (same : pool.Perm other) : Backed size other frames saved := by
  induction frames generalizing size pool other saved with
  | nil =>
    cases saved with
    | nil => trivial
    | cons held rest => exact backed
  | cons f frames ih =>
    cases saved with
    | nil => exact backed
    | cons held rest =>
      obtain ⟨small, layout, deeper⟩ := backed
      have moved := same.append_right f.reused
      exact ⟨small, layout.perm (moved.append_left _), ih deeper moved⟩

theorem Backed.grow {larger : Nat} (le : size ≤ larger) :
    Backed larger pool frames saved := by
  cases frames with
  | nil =>
    cases saved with
    | nil => trivial
    | cons held rest => exact backed
  | cons f frames =>
    cases saved with
    | nil => exact backed
    | cons held rest => exact ⟨Nat.le_trans backed.1 le, backed.2⟩

theorem Backed.length_eq :
    frames.length = saved.length := by
  induction frames generalizing size pool saved with
  | nil =>
    cases saved with
    | nil => rfl
    | cons held rest => exact backed.elim
  | cons f frames ih =>
    cases saved with
    | nil => exact backed.elim
    | cons held rest => rw [length_cons, length_cons, ih backed.2.2]

theorem Backed.inside {held : List Span}
    (session : held ∈ saved) {a : Span} (member : a ∈ held) : a.off + a.len ≤ size := by
  induction frames generalizing size pool saved with
  | nil =>
    cases saved with
    | nil => cases session
    | cons other rest => exact backed.elim
  | cons f frames ih =>
    cases saved with
    | nil => cases session
    | cons other rest =>
      obtain ⟨small, layout, deeper⟩ := backed
      rcases mem_cons.mp session with here | older
      · subst here
        exact Nat.le_trans
          (layout.inside a (mem_append_left _ (mem_append_left _ member))) small
      · exact Nat.le_trans (ih deeper older) small

theorem Backed.apart {held : List Span}
    (session : held ∈ saved) {a b : Span} (memberA : a ∈ held) (memberB : b ∈ pool) :
    a.Apart b := by
  induction frames generalizing size pool saved with
  | nil =>
    cases saved with
    | nil => cases session
    | cons other rest => exact backed.elim
  | cons f frames ih =>
    cases saved with
    | nil => cases session
    | cons other rest =>
      obtain ⟨_, layout, deeper⟩ := backed
      rcases mem_cons.mp session with here | older
      · subst here
        exact (pairwise_append.mp layout.apart).2.2 a (mem_append_left _ memberA) b
          (mem_append_left _ memberB)
      · exact ih deeper older (mem_append_left _ memberB)

end

namespace Accounted

variable {size : Nat} {free other : List Span} {frames : List Frame} {held : List Span}
  {saved : List (List Span)} {r : Span}

theorem empty : Accounted 0 [] [] [] [] := ⟨Layout.nil 0, trivial⟩

theorem reuse (accounted : Accounted size free frames held saved) (taken : free.Perm (r :: other)) :
    Accounted size other (onTop (fun f => { f with reused := f.reused ++ [r] }) frames)
      (r :: held) saved := by
  have counts := perm_iff_count.mp taken
  cases frames with
  | nil =>
    refine ⟨accounted.layout.perm (perm_of_counts fun s => ?_), ?_⟩
    · have here := counts s
      simp only [onTop, count_append, count_cons] at here ⊢
      omega
    · cases saved with
      | nil => trivial
      | cons first rest => exact accounted.backed.elim
  | cons f frames =>
    refine ⟨accounted.layout.perm (perm_of_counts fun s => ?_), ?_⟩
    · have here := counts s
      simp only [onTop, pending, flatMap_cons, count_append, count_cons] at here ⊢
      omega
    · cases saved with
      | nil => exact accounted.backed.elim
      | cons first rest =>
        obtain ⟨small, layout, deeper⟩ := accounted.backed
        have pool : (free ++ f.reused).Perm (other ++ (f.reused ++ [r])) := by
          apply perm_of_counts
          intro s
          have here := counts s
          simp only [count_append, count_cons, count_nil] at here ⊢
          omega
        exact ⟨small, layout.perm (pool.append_left _), deeper.perm pool⟩

theorem append (accounted : Accounted size free frames held saved) {len : Nat}
    (positive : 0 < len) :
    Accounted (size + len) free frames (⟨size, len⟩ :: held) saved where
  layout := accounted.layout.append_end positive
  backed := accounted.backed.grow (Nat.le_add_right _ _)

variable {f : Frame}

theorem keepBack (accounted : Accounted size free (f :: frames) held saved) (member : r ∈ held) :
    Accounted size free ({ f with freed := f.freed ++ [r] } :: frames) (held.erase r) saved where
  layout := by
    apply accounted.layout.perm
    apply perm_of_counts
    intro s
    have here := perm_iff_count.mp (perm_cons_erase member) s
    simp only [pending, flatMap_cons, count_append, count_cons,
      count_nil] at here ⊢
    omega
  backed := by
    cases saved with
    | nil => exact accounted.backed
    | cons first rest => exact accounted.backed

theorem release (accounted : Accounted size free [] held saved) (member : r ∈ held) :
    Accounted size (r :: free) [] (held.erase r) saved where
  layout := by
    apply accounted.layout.perm
    apply perm_of_counts
    intro s
    have here := perm_iff_count.mp (perm_cons_erase member) s
    simp only [pending, flatMap_nil, count_append, count_cons,
      count_nil] at here ⊢
    omega
  backed := by
    cases saved with
    | nil => trivial
    | cons first rest => exact accounted.backed.elim

theorem start (accounted : Accounted size free frames held saved) :
    Accounted size free (⟨size, [], []⟩ :: frames) held (held :: saved) where
  layout := accounted.layout
  backed := by
    refine ⟨Nat.le_refl _, ?_, ?_⟩
    · rw [append_nil]
      exact accounted.layout
    · rw [append_nil]
      exact accounted.backed

/-- Undo: the spans the session handed out are free again, those held at its start
are held again. -/
theorem undo {before : List Span} {older : List (List Span)}
    (accounted : Accounted size free (f :: frames) held (before :: older))
    (released : other.Perm (free ++ f.reused)) : Accounted f.mark other frames before older where
  layout := accounted.backed.2.1.perm (released.symm.append_left _)
  backed := accounted.backed.2.2.perm released.symm

theorem squash {g : Frame} {first second : List Span} {older : List (List Span)}
    (accounted : Accounted size free (g :: f :: frames) held (second :: first :: older)) :
    Accounted size free (⟨f.mark, f.freed ++ g.freed, f.reused ++ g.reused⟩ :: frames) held
      (first :: older) where
  layout := by
    apply accounted.layout.perm
    apply perm_of_counts
    intro s
    simp only [pending, flatMap_cons, count_append]
    omega
  backed := by
    obtain ⟨smallG, _, smallF, layout, deeper⟩ := accounted.backed
    have pool : (free ++ g.reused ++ f.reused).Perm (free ++ (f.reused ++ g.reused)) := by
      apply perm_of_counts
      intro s
      simp only [count_append]
      omega
    exact ⟨Nat.le_trans smallF smallG, layout.perm (pool.append_left _), deeper.perm pool⟩

theorem backed_take {pool dropped : List Span} {k : Nat}
    (backed : Backed size pool frames saved) (released : dropped.Perm (pending (frames.drop k))) :
    Backed size (pool ++ dropped) (frames.take k) (saved.take k) := by
  induction frames generalizing size pool saved k with
  | nil =>
    cases saved with
    | nil =>
      rw [take_nil, take_nil]
      trivial
    | cons held rest => exact backed.elim
  | cons f frames ih =>
    cases saved with
    | nil => exact backed.elim
    | cons held rest =>
      cases k with
      | zero => trivial
      | succ k =>
        obtain ⟨small, layout, deeper⟩ := backed
        have counts := perm_iff_count.mp released
        have split : pending frames = pending (frames.take k) ++ pending (frames.drop k) := by
          unfold pending
          rw [← flatMap_append, take_append_drop]
        have pool' : (pool ++ f.reused ++ dropped).Perm (pool ++ dropped ++ f.reused) := by
          apply perm_of_counts
          intro s
          simp only [count_append]
          omega
        refine ⟨small, layout.perm (perm_of_counts fun s => ?_), (ih deeper released).perm pool'⟩
        have here := counts s
        simp only [drop_succ_cons] at here
        simp only [split, count_append, here]
        omega

theorem commit {k : Nat} (accounted : Accounted size free frames held saved)
    (released : other.Perm (free ++ pending (frames.drop k))) :
    Accounted size other (frames.take k) held (saved.take k) where
  layout := by
    have split : pending frames = pending (frames.take k) ++ pending (frames.drop k) := by
      unfold pending
      rw [← flatMap_append, take_append_drop]
    apply accounted.layout.perm
    apply perm_of_counts
    intro s
    have here := perm_iff_count.mp released s
    simp only [split, count_append] at here ⊢
    omega
  backed := (backed_take accounted.backed (List.Perm.refl _)).perm released.symm

end Accounted

end PulseVM.Lib.Leases
