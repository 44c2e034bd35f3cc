import Mathlib

/-!
Cursors over sorted entries: the ranges of an ordered map, and what a search in a sorted
list finds beside one of its members. A search over several groups that lie one after the
other can be confined to one group, whether the range ends with the group or the hit is
checked afterwards.
-/

namespace PulseVM.Lib.Cursors

variable {α β : Type}

/-- One end of a range of keys. -/
inductive Bound (α : Type) where
  | included (k : α)
  | excluded (k : α)
  | unbounded

namespace Bound

variable (cmp : α → α → Ordering)

/-- The key is not before the lower end of a range. -/
def below : Bound α → α → Bool
  | included lower, k => (cmp lower k).isLE
  | excluded lower, k => cmp lower k == .lt
  | unbounded, _ => true

/-- The key is not after the upper end of a range. -/
def above : Bound α → α → Bool
  | included upper, k => (cmp k upper).isLE
  | excluded upper, k => cmp k upper == .lt
  | unbounded, _ => true

/-- The key lies between the two ends. -/
def within (lower upper : Bound α) (k : α) : Bool := lower.below cmp k && upper.above cmp k

variable {cmp} [Std.TransCmp cmp]

theorem within_congr {lower upper : Bound α} {a b : α} (same : cmp a b = .eq) :
    within cmp lower upper a = within cmp lower upper b := by
  have fromLeft (k : α) : cmp k a = cmp k b := Std.TransCmp.congr_right same
  have fromRight (k : α) : cmp a k = cmp b k := Std.TransCmp.congr_left same
  unfold within
  congr 1
  · cases lower <;> simp [below, fromLeft]
  · cases upper <;> simp [above, fromRight]

end Bound

/-- Searching two related lists with tests that agree finds related members. -/
theorem rel_find? {R : α → β → Prop} {l : List α} {m : List β} {p : α → Bool} {q : β → Bool}
    (related : List.Forall₂ R l m) (agree : ∀ a b, R a b → p a = q b) :
    Option.Rel R (l.find? p) (m.find? q) := by
  induction related with
  | nil => exact .none
  | cons first _ ih =>
    rw [List.find?_cons, List.find?_cons, agree _ _ first]
    split
    · exact .some first
    · exact ih

theorem forall₂_filterMap {R : α → β → Prop} {f : α → Option β} (l : List α)
    (total : ∀ a ∈ l, ∃ b, f a = some b ∧ R a b) : List.Forall₂ R l (l.filterMap f) := by
  induction l with
  | nil => exact .nil
  | cons a rest ih =>
    obtain ⟨b, defined, related⟩ := total a (List.mem_cons_self ..)
    rw [List.filterMap_cons_some defined]
    exact .cons related (ih fun c member => total c (List.mem_cons_of_mem a member))

/-- A hit that is checked for its group afterwards is the hit of a search in the group, if
no member of another group is met before. -/
theorem find?_filter_of_later {l : List α} {p g : α → Bool}
    (later : l.Pairwise fun a b => p a → g b → g a) :
    (l.find? p).filter g = (l.filter g).find? p := by
  induction l with
  | nil => rfl
  | cons a rest ih =>
    obtain ⟨first, others⟩ := List.pairwise_cons.mp later
    cases hit : p a with
    | false =>
      rw [List.find?_cons, hit, ih others]
      cases member : g a <;> simp [member, hit]
    | true =>
      cases member : g a with
      | true => simp [hit, member]
      | false =>
        have empty : rest.filter g = [] := by
          rw [List.filter_eq_nil_iff]
          intro b listed inGroup
          exact absurd (first b listed hit inGroup) (by simp [member])
        simp [hit, member, empty]

section Sorted

variable {cmp : β → β → Ordering} [Std.TransCmp cmp] {key : α → β} {before after : List α} {a : α}
  {k : β}

theorem find?_after
    (sorted : (before ++ a :: after).Pairwise fun x y => cmp (key x) (key y) = .lt)
    (same : cmp k (key a) = .eq) :
    (before ++ a :: after).find? (fun x => cmp k (key x) == .lt) = after.head? := by
  obtain ⟨_, right, across⟩ := List.pairwise_append.mp sorted
  have skipped : before.find? (fun x => cmp k (key x) == .lt) = none := by
    rw [List.find?_eq_none]
    intro b listed
    have earlier : cmp (key b) (key a) = .lt := across b listed a (List.mem_cons_self ..)
    simp [Std.TransCmp.congr_left same, Std.OrientedCmp.gt_of_lt earlier]
  rw [List.find?_append, skipped, Option.none_or, List.find?_cons, same]
  cases after with
  | nil => rfl
  | cons b rest =>
    have later : cmp (key a) (key b) = .lt :=
      (List.pairwise_cons.mp right).1 b (List.mem_cons_self ..)
    simp [Std.TransCmp.congr_left same, later]

theorem find?_before
    (sorted : (before ++ a :: after).Pairwise fun x y => cmp (key x) (key y) = .lt)
    (same : cmp k (key a) = .eq) :
    (before ++ a :: after).reverse.find? (fun x => cmp (key x) k == .lt) = before.getLast? := by
  have flipped : (before ++ a :: after).reverse = after.reverse ++ a :: before.reverse := by simp
  have backward : (after.reverse ++ a :: before.reverse).Pairwise fun x y =>
      cmp (key y) (key x) = .lt := by
    rw [← flipped]
    exact List.pairwise_reverse.mpr sorted
  rw [flipped, ← List.head?_reverse]
  exact @find?_after _ _ (fun x y => cmp y x) _ key _ _ _ k backward (Std.OrientedCmp.eq_symm same)

end Sorted

theorem find?_of_forall {l : List α} {p : α → Bool} (all : ∀ a ∈ l, p a = true) :
    l.find? p = l.head? := by
  cases l with
  | nil => rfl
  | cons a rest => simp [all a (List.mem_cons_self ..)]

end PulseVM.Lib.Cursors
