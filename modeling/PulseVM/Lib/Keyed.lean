import Mathlib.Algebra.BigOperators.Group.List.Basic
import Mathlib.Data.List.Nodup
import Mathlib.Tactic.Abel

/-!
Tables whose rows are found by a key that no two of them share. Rows stand in the order
in which they were stored, and every stored row takes the next id.
-/

namespace PulseVM.Lib

/-- Rows `ρ` under the keys that `key` gives them. -/
structure Keyed {ρ κ : Type} (key : ρ → κ) where
  rows : List ρ
  nextId : Nat
  unique : (rows.map key).Nodup

namespace Keyed
open List

variable {ρ κ : Type} {key : ρ → κ}

def empty : Keyed key := ⟨[], 0, nodup_nil⟩

def sum {M : Type} [AddCommMonoid M] (t : Keyed key) (weight : ρ → M) : M :=
  (t.rows.map weight).sum

variable [DecidableEq κ]

def find (t : Keyed key) (k : κ) : Option ρ := t.rows.find? fun row => key row = k

/-- Store a row under the next id; a taken key refuses it. -/
def insert (t : Keyed key) (make : Nat → ρ) : Option (Keyed key) :=
  if free : key (make t.nextId) ∈ t.rows.map key then none
  else some
    { rows := t.rows ++ [make t.nextId]
      nextId := t.nextId + 1
      unique := by
        rw [map_append]
        exact t.unique.append (nodup_singleton _) (by simpa using free) }

def modify (t : Keyed key) (k : κ) (f : ρ → ρ) (keeps : ∀ row, key (f row) = key row) :
    Keyed key where
  rows := t.rows.map fun row => if key row = k then f row else row
  nextId := t.nextId
  unique := by
    have same : (t.rows.map fun row => if key row = k then f row else row).map key =
        t.rows.map key := by
      rw [map_map]
      apply map_congr_left
      intro row _
      by_cases here : key row = k
      · simp [here, keeps]
      · simp [here]
    rw [same]
    exact t.unique

def erase (t : Keyed key) (k : κ) : Keyed key where
  rows := t.rows.filter fun row => key row ≠ k
  nextId := t.nextId
  unique := t.unique.sublist (filter_sublist.map key)

variable {t u : Keyed key} {k l : κ} {row : ρ}

theorem mem_of_find (found : t.find k = some row) : row ∈ t.rows := mem_of_find?_eq_some found

theorem key_of_find (found : t.find k = some row) : key row = k := by
  simpa using find?_some found

theorem find_eq_some_iff : t.find k = some row ↔ row ∈ t.rows ∧ key row = k := by
  constructor
  · exact fun found => ⟨mem_of_find found, key_of_find found⟩
  · rintro ⟨member, named⟩
    cases found : t.find k with
    | none => exact absurd named (by simpa using find?_eq_none.mp found row member)
    | some other =>
      have same : key other = key row := (key_of_find found).trans named.symm
      rw [inj_on_of_nodup_map t.unique (mem_of_find found) member same]

theorem find_eq_none_iff : t.find k = none ↔ k ∉ t.rows.map key := by
  simp [find, find?_eq_none]

theorem find_of_mem (member : row ∈ t.rows) : t.find (key row) = some row :=
  find_eq_some_iff.mpr ⟨member, rfl⟩

theorem rows_insert {make : Nat → ρ} (done : t.insert make = some u) :
    u.rows = t.rows ++ [make t.nextId] := by
  unfold insert at done
  split at done
  · cases done
  · cases done
    rfl

theorem find_insert {make : Nat → ρ} (done : t.insert make = some u) :
    u.find l = if key (make t.nextId) = l then some (make t.nextId) else t.find l := by
  split_ifs with here
  · apply find_eq_some_iff.mpr
    exact ⟨by simp [rows_insert done], here⟩
  · unfold find
    rw [rows_insert done, find?_append]
    simp [here]

theorem rows_modify {f : ρ → ρ} {keeps : ∀ row, key (f row) = key row} :
    (t.modify k f keeps).rows = t.rows.map fun row => if key row = k then f row else row := rfl

theorem find_modify {f : ρ → ρ} {keeps : ∀ row, key (f row) = key row} :
    (t.modify k f keeps).find l = if l = k then (t.find l).map f else t.find l := by
  have keyed : ∀ row, key (if key row = k then f row else row) = key row := by
    intro row
    split
    · exact keeps row
    · rfl
  unfold find
  rw [rows_modify, find?_map]
  have same : ((fun row => decide (key row = l)) ∘ fun row => if key row = k then f row else row) =
      fun row => decide (key row = l) := by
    funext row
    simp only [Function.comp_apply, keyed]
  rw [same]
  cases found : t.rows.find? fun row => key row = l with
  | none => simp
  | some row =>
    have named : key row = l := by simpa using find?_some found
    by_cases here : l = k
    · simp [here, named]
    · simp [here, named]

theorem rows_erase : (t.erase k).rows = t.rows.filter fun row => key row ≠ k := rfl

theorem find_erase : (t.erase k).find l = if l = k then none else t.find l := by
  split_ifs with here
  · apply find_eq_none_iff.mpr
    simp [erase, here]
  · unfold find
    rw [rows_erase, find?_filter]
    congr 1
    funext row
    by_cases named : key row = l
    · simp [named, here]
    · simp [named]

theorem split_of_find (found : t.find k = some row) :
    ∃ before after, t.rows = before ++ row :: after ∧ ∀ other ∈ before ++ after, key other ≠ k := by
  obtain ⟨before, after, split⟩ := append_of_mem (mem_of_find found)
  refine ⟨before, after, split, ?_⟩
  intro other member same
  have apart := t.unique
  rw [split, map_append, map_cons, key_of_find found, nodup_middle,
    nodup_cons, ← map_append] at apart
  exact apart.1 (same ▸ mem_map_of_mem member)

section Sums

variable {M : Type} [AddCommMonoid M]

theorem sum_insert {make : Nat → ρ} (done : t.insert make = some u) (weight : ρ → M) :
    u.sum weight = t.sum weight + weight (make t.nextId) := by
  simp [sum, rows_insert done]

theorem sum_modify (found : t.find k = some row) (f : ρ → ρ)
    (keeps : ∀ row, key (f row) = key row) (weight : ρ → M) :
    (t.modify k f keeps).sum weight + weight row = t.sum weight + weight (f row) := by
  obtain ⟨before, after, split, others⟩ := split_of_find found
  have stays : ∀ other ∈ before ++ after, (if key other = k then f other else other) = other :=
    fun other member => if_neg (others other member)
  have front := map_congr_left fun other member =>
    stays other (mem_append_left after member)
  have back := map_congr_left fun other member =>
    stays other (mem_append_right before member)
  unfold sum
  rw [rows_modify, split, map_append, map_cons, front, back, if_pos (key_of_find found)]
  simp only [map_id', map_append, map_cons, sum_append, sum_cons]
  abel

theorem sum_erase (found : t.find k = some row) (weight : ρ → M) :
    (t.erase k).sum weight + weight row = t.sum weight := by
  obtain ⟨before, after, split, others⟩ := split_of_find found
  have front : before.filter (fun row => key row ≠ k) = before :=
    filter_eq_self.mpr fun other member => by
      simpa using others other (mem_append_left after member)
  have back : after.filter (fun row => key row ≠ k) = after :=
    filter_eq_self.mpr fun other member => by
      simpa using others other (mem_append_right before member)
  unfold sum
  rw [rows_erase, split, filter_append, filter_cons, front, back]
  simp only [key_of_find found, ne_eq, not_true_eq_false, decide_false, Bool.false_eq_true,
    ↓reduceIte, map_append, map_cons, sum_append, sum_cons]
  abel

end Sums

end Keyed

end PulseVM.Lib
