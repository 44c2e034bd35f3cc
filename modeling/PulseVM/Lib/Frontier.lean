import Mathlib.Data.Nat.Log
import Mathlib.Data.List.Basic

/-!
Binary trees over a list of leaves, level by level from below. A level of odd length is
completed with its last node. The complete subtrees that a list is made of are its frontier;
they are all that is needed to find the root of a longer list.
-/

namespace PulseVM.Lib.Frontier
open List

variable {α : Type} (join : α → α → α)

/-- The nodes over a level that are complete. -/
def pairs : List α → List α
  | a :: b :: rest => join a b :: pairs rest
  | [_] => []
  | [] => []

/-- A level of even length. -/
def completed (nodes : List α) : List α :=
  if nodes.length % 2 = 0 then nodes else nodes ++ nodes.getLast?.toList

@[simp] theorem length_pairs (nodes : List α) : (pairs join nodes).length = nodes.length / 2 := by
  fun_induction pairs join nodes with
  | case1 a b rest ih =>
    simp only [length_cons, ih]
    omega
  | case2 => simp
  | case3 => simp

theorem length_completed (nodes : List α) :
    (completed nodes).length = nodes.length + nodes.length % 2 := by
  unfold completed
  split_ifs with even
  · rw [even, Nat.add_zero]
  · cases nodes with
    | nil => rfl
    | cons a rest =>
      simp only [length_append, getLast?_cons, Option.toList_some, length_singleton]
      omega

def root (absent : α) : List α → α
  | [] => absent
  | [a] => a
  | a :: b :: rest => root absent (pairs join (completed (a :: b :: rest)))
termination_by nodes => nodes.length
decreasing_by
  simp only [length_pairs, length_completed, length_cons]
  omega

/-- The complete subtrees from the last to the first, each under a larger one. -/
def subtrees (nodes : List α) : List α :=
  if empty : nodes = [] then []
  else if nodes.length % 2 = 0 then subtrees (pairs join nodes)
  else nodes.getLast empty :: subtrees (pairs join nodes)
termination_by nodes.length
decreasing_by
  all_goals
    have := length_pos_of_ne_nil empty
    rw [length_pairs]
    omega

variable {join} {nodes : List α} {a b absent : α}

theorem pairs_append (even : nodes.length % 2 = 0) (more : List α) :
    pairs join (nodes ++ more) = pairs join nodes ++ pairs join more := by
  fun_induction pairs join nodes with
  | case1 c d rest ih =>
    simp only [length_cons] at even
    simp [pairs, ih (by omega)]
  | case2 => simp at even
  | case3 => rfl

theorem root_two (two : 2 ≤ nodes.length) :
    root join absent nodes = root join absent (pairs join (completed nodes)) := by
  match nodes, two with
  | c :: d :: rest, _ => rw [root]

theorem subtrees_even (even : nodes.length % 2 = 0) :
    subtrees join nodes = subtrees join (pairs join nodes) := by
  by_cases empty : nodes = []
  · rw [empty, pairs]
  · conv_lhs => rw [subtrees, dif_neg empty, if_pos even]

theorem subtrees_concat (even : nodes.length % 2 = 0) :
    subtrees join (nodes ++ [a]) = a :: subtrees join (pairs join nodes) := by
  rw [subtrees, dif_neg (by simp), if_neg (by simp; omega), getLast_concat, pairs_append even,
    pairs, append_nil]

theorem root_concat (nonempty : 1 ≤ nodes.length) (even : nodes.length % 2 = 0) :
    root join absent (nodes ++ [a]) = root join absent (pairs join nodes ++ [join a a]) := by
  rw [root_two (by simp; omega), completed, if_neg (by simp; omega), getLast?_concat,
    append_assoc, pairs_append even]
  rfl

/-- In a level of odd length the last node is complete and waits for the one that is next. -/
theorem exists_waiting (odd : nodes.length % 2 ≠ 0) :
    ∃ left, subtrees join nodes = left :: subtrees join (pairs join nodes) ∧
      ∀ a absent, root join absent (nodes ++ [a]) = root join absent (pairs join nodes ++ [join left a]) ∧
        subtrees join (nodes ++ [a]) = subtrees join (pairs join nodes ++ [join left a]) := by
  obtain rfl | ⟨front, left, rfl⟩ := eq_nil_or_concat' nodes
  · simp at odd
  rw [length_append, length_singleton] at odd
  have even : front.length % 2 = 0 := by omega
  have up : pairs join (front ++ [left]) = pairs join front := by
    rw [pairs_append even, pairs, append_nil]
  refine ⟨left, by rw [up, subtrees_concat even], fun a absent => ?_⟩
  have both : (front ++ [left] ++ [a]).length % 2 = 0 := by simp; omega
  have next : pairs join (front ++ [left] ++ [a]) = pairs join front ++ [join left a] := by
    rw [append_assoc, pairs_append even]
    rfl
  constructor
  · rw [root_two (by simp), completed, if_pos both, next, up]
  · rw [subtrees_even both, next, up]

theorem clog_half {n depth : Nat} (deep : Nat.clog 2 (n + 1) = depth + 1) :
    1 ≤ n ∧ Nat.clog 2 (n / 2 + 1) = depth := by
  have nonempty : 1 ≤ n := by
    by_contra zero
    rw [Nat.lt_one_iff.mp (not_le.mp zero)] at deep
    simp at deep
  rw [Nat.clog_of_two_le (by omega) (by omega)] at deep
  refine ⟨nonempty, ?_⟩
  rw [← Nat.add_right_cancel deep]
  congr 1
  omega

theorem eq_nil_of_clog (flat : Nat.clog 2 (nodes.length + 1) = 0) : nodes = [] := by
  by_contra empty
  have long := length_pos_of_ne_nil empty
  have deep := Nat.clog_pos (by omega : 1 < 2) (by omega : 2 ≤ nodes.length + 1)
  omega

end PulseVM.Lib.Frontier
