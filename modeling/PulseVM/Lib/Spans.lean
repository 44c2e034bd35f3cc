import Mathlib.Data.List.Basic
import Mathlib.Data.List.Pairwise
import Mathlib.Data.List.Perm.Basic

/-!
Spans of an arena that are owned by different parties. A layout is a list of
nonempty spans that lie inside the arena and do not overlap; moving a span from
one owner to another permutes the list, so every such move keeps the layout.
-/

namespace PulseVM.Lib.Spans

structure Span where
  off : Nat
  len : Nat
  deriving DecidableEq, Repr

def Span.Apart (a b : Span) : Prop := a.off + a.len ≤ b.off ∨ b.off + b.len ≤ a.off

theorem Span.Apart.symm {a b : Span} (apart : a.Apart b) : b.Apart a := Or.symm apart

instance : Std.Symm Span.Apart := ⟨fun _ _ apart => apart.symm⟩

structure Layout (spans : List Span) (size : Nat) : Prop where
  apart : spans.Pairwise Span.Apart
  nonempty : ∀ s ∈ spans, 0 < s.len
  inside : ∀ s ∈ spans, s.off + s.len ≤ size

namespace Layout

variable {spans others : List Span} {size : Nat}

theorem nil (size : Nat) : Layout [] size where
  apart := List.Pairwise.nil
  nonempty s member := by cases member
  inside s member := by cases member

section

variable (layout : Layout spans size)

include layout

theorem perm (same : spans.Perm others) : Layout others size where
  apart := (same.pairwise_iff fun apart => Span.Apart.symm apart).mp layout.apart
  nonempty s member := layout.nonempty s (same.mem_iff.mpr member)
  inside s member := layout.inside s (same.mem_iff.mpr member)

theorem sublist (part : others.Sublist spans) : Layout others size where
  apart := layout.apart.sublist part
  nonempty s member := layout.nonempty s (part.subset member)
  inside s member := layout.inside s (part.subset member)

theorem subperm (part : others.Subperm spans) : Layout others size := by
  obtain ⟨same, perm, below⟩ := part
  exact (layout.sublist below).perm perm

/-- A span appended at the end of the arena is apart from all earlier ones. -/
theorem append_end {len : Nat} (positive : 0 < len) :
    Layout (⟨size, len⟩ :: spans) (size + len) where
  apart := List.pairwise_cons.mpr
    ⟨fun s member => .inr (layout.inside s member), layout.apart⟩
  nonempty s member := by
    rcases List.mem_cons.mp member with rfl | member
    · exact positive
    · exact layout.nonempty s member
  inside s member := by
    rcases List.mem_cons.mp member with rfl | member
    · exact Nat.le_refl _
    · exact Nat.le_trans (layout.inside s member) (Nat.le_add_right _ _)

theorem apart_of_mem {a b : Span} (memberA : a ∈ spans)
    (memberB : b ∈ spans) (different : a ≠ b) : a.Apart b :=
  layout.apart.forall memberA memberB different

theorem eq_of_off {a b : Span} (memberA : a ∈ spans)
    (memberB : b ∈ spans) (same : a.off = b.off) : a = b := by
  by_contra different
  have positiveA := layout.nonempty a memberA
  have positiveB := layout.nonempty b memberB
  rcases layout.apart_of_mem memberA memberB different with before | after
  · omega
  · omega

end

end Layout

end PulseVM.Lib.Spans
