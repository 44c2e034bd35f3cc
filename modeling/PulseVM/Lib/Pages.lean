import Mathlib.Data.List.Basic
import Mathlib.Data.Option.Basic

/-!
A growable vector of optional pages. Reading past its end and reading an absent
page look the same, so growing the vector or dropping an empty page cannot be
observed through `cell`.
-/

namespace PulseVM.Lib.Pages

variable {P : Type*}

def cell (pages : List (Option P)) (i : Nat) : Option P := pages[i]?.join

def grow (n : Nat) (pages : List (Option P)) : List (Option P) :=
  pages ++ List.replicate (n - pages.length) none

def put (pages : List (Option P)) (i : Nat) (page : Option P) : List (Option P) :=
  (grow (i + 1) pages).set i page

theorem cell_grow (n : Nat) (pages : List (Option P)) (i : Nat) :
    cell (grow n pages) i = cell pages i := by
  unfold cell grow
  by_cases inside : i < pages.length
  · rw [List.getElem?_append_left inside]
  · rw [List.getElem?_append_right (by omega), List.getElem?_replicate,
      List.getElem?_eq_none (show pages.length ≤ i by omega)]
    split <;> rfl

theorem cell_set_lt {pages : List (Option P)} {i : Nat} (inside : i < pages.length)
    (page : Option P) (j : Nat) :
    cell (pages.set i page) j = if j = i then page else cell pages j := by
  unfold cell
  by_cases same : j = i
  · subst same
    rw [if_pos rfl, List.getElem?_set_self inside]
    rfl
  · rw [if_neg same, List.getElem?_set_ne (fun eq => same eq.symm)]

theorem cell_put (pages : List (Option P)) (i : Nat) (page : Option P) (j : Nat) :
    cell (put pages i page) j = if j = i then page else cell pages j := by
  have inside : i < (grow (i + 1) pages).length := by
    simp only [grow, List.length_append, List.length_replicate]
    omega
  unfold put
  rw [cell_set_lt inside, cell_grow]

theorem lt_of_cell {pages : List (Option P)} {i : Nat} {page : P}
    (found : cell pages i = some page) : i < pages.length := by
  by_contra outside
  rw [cell, List.getElem?_eq_none (by omega)] at found
  cases found

theorem cell_take (pages : List (Option P)) (n i : Nat) :
    cell (pages.take n) i = if i < n then cell pages i else none := by
  unfold cell
  rw [List.getElem?_take]
  split <;> rfl

end PulseVM.Lib.Pages
