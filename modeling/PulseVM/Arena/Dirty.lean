import PulseVM.Arena.Primary

/-!
The ids a delta flush has to write: a list in touch order and a paged bitmap that
keeps each id from being listed twice.
-/

namespace PulseVM.Arena
open Lib.Pages

/-- One bitmap page of the dirty set. -/
structure DirtyPage where
  flags : List Bool
  flags_length : flags.length = primaryPageSize

namespace DirtyPage

def new : DirtyPage := ⟨List.replicate primaryPageSize false, List.length_replicate⟩

def flag (page : DirtyPage) (j : Nat) : Bool := page.flags.getD j false

def write (page : DirtyPage) (j : Nat) (value : Bool) : DirtyPage :=
  ⟨page.flags.set j value, by rw [List.length_set, page.flags_length]⟩

theorem flag_new (j : Nat) : new.flag j = false := by
  simp only [flag, new, List.getD_eq_getElem?_getD, List.getElem?_replicate]
  split <;> rfl

theorem flag_write (page : DirtyPage) {j : Nat} (inside : j < primaryPageSize) (value : Bool)
    (k : Nat) : (page.write j value).flag k = if k = j then value else page.flag k := by
  have bound : j < page.flags.length := by rw [page.flags_length]; exact inside
  simp only [flag, write, List.getD_eq_getElem?_getD]
  by_cases same : k = j
  · subst same
    rw [if_pos rfl, List.getElem?_set_self bound]
    rfl
  · rw [if_neg same, List.getElem?_set_ne (fun eq => same eq.symm)]

end DirtyPage

structure DirtyPages where
  pages : List (Option DirtyPage)

namespace DirtyPages

def new : DirtyPages := ⟨[]⟩

def contains (d : DirtyPages) (id : Nat) : Bool :=
  match cell d.pages (id / primaryPageSize) with
  | none => false
  | some page => page.flag (id % primaryPageSize)

/-- Set the flag of `id`; the result also tells whether it was clear. -/
def insert (d : DirtyPages) (id : Nat) : DirtyPages × Bool :=
  let page := (cell d.pages (id / primaryPageSize)).getD DirtyPage.new
  (⟨put d.pages (id / primaryPageSize) (some (page.write (id % primaryPageSize) true))⟩,
    !page.flag (id % primaryPageSize))

/-- Clear the flag of `id`, dropping a page without flags. -/
def remove (d : DirtyPages) (id : Nat) : DirtyPages :=
  match cell d.pages (id / primaryPageSize) with
  | none => d
  | some page =>
    let cleared := page.write (id % primaryPageSize) false
    ⟨d.pages.set (id / primaryPageSize) (if cleared.flags.all (!·) then none else some cleared)⟩

theorem contains_new (id : Nat) : new.contains id = false := rfl

theorem insert_absent (d : DirtyPages) (id : Nat) : (d.insert id).2 = !d.contains id := by
  unfold insert contains
  cases cell d.pages (id / primaryPageSize) with
  | none => simp [DirtyPage.flag_new]
  | some page => rfl

theorem contains_insert (d : DirtyPages) (id j : Nat) :
    (d.insert id).1.contains j = (decide (j = id) || d.contains j) := by
  unfold insert contains
  rw [cell_put]
  split_ifs with here
  · dsimp only
    rw [DirtyPage.flag_write _ (mod_page_lt id), here]
    by_cases same : j = id
    · rw [if_pos (by rw [same]), decide_eq_true same, Bool.true_or]
    · rw [if_neg (fun offset => same (eq_of_div_mod here offset)), decide_eq_false same,
        Bool.false_or]
      cases cell d.pages (id / primaryPageSize) with
      | none => exact DirtyPage.flag_new _
      | some page => rfl
  · rw [decide_eq_false (fun same => here (by rw [same])), Bool.false_or]

theorem contains_remove (d : DirtyPages) (id j : Nat) :
    (d.remove id).contains j = (!decide (j = id) && d.contains j) := by
  unfold remove contains
  cases found : cell d.pages (id / primaryPageSize) with
  | none =>
    by_cases same : j = id
    · rw [same, found]
      simp
    · simp [same]
  | some page =>
    rw [cell_set_lt (lt_of_cell found)]
    by_cases here : j / primaryPageSize = id / primaryPageSize
    · have flag := DirtyPage.flag_write page (mod_page_lt id) false (j % primaryPageSize)
      have cleared : (page.write (id % primaryPageSize) false).flag (j % primaryPageSize) =
          (!decide (j = id) && page.flag (j % primaryPageSize)) := by
        rw [flag]
        by_cases same : j = id
        · rw [if_pos (by rw [same]), decide_eq_true same]
          rfl
        · rw [if_neg (fun offset => same (eq_of_div_mod here offset)), decide_eq_false same]
          rfl
      rw [if_pos here, here, found]
      split
      · next absent =>
        split at absent
        · next empty =>
          rw [← cleared, DirtyPage.flag, List.getD_eq_getElem?_getD]
          cases entry : (page.write (id % primaryPageSize) false).flags[j % primaryPageSize]? with
          | none => rfl
          | some value =>
            have off := List.all_eq_true.mp empty value (List.mem_of_getElem? entry)
            simpa using off.symm
        · cases absent
      · next kept =>
        split at kept
        · cases kept
        · cases kept
          exact cleared
    · rw [if_neg here, decide_eq_false (fun same => here (by rw [same]))]
      rfl

end DirtyPages

/-- Ids touched since the last flush, in touch order, each at most once: the flags
are set exactly for the listed ids. -/
structure DirtyIds where
  order : List Nat
  pages : DirtyPages
  agree : ∀ id, pages.contains id = true ↔ id ∈ order
  nodup : order.Nodup

namespace DirtyIds

def new : DirtyIds where
  order := []
  pages := DirtyPages.new
  agree id := by simp [DirtyPages.contains_new]
  nodup := List.nodup_nil

def mark (d : DirtyIds) (id : Nat) : DirtyIds where
  order := if (d.pages.insert id).2 then d.order ++ [id] else d.order
  pages := (d.pages.insert id).1
  agree j := by
    have known := d.agree id
    rw [DirtyPages.contains_insert, DirtyPages.insert_absent, Bool.or_eq_true,
      decide_eq_true_eq, d.agree j]
    cases seen : d.pages.contains id with
    | false => simp [or_comm]
    | true =>
      have member : id ∈ d.order := known.mp seen
      simp only [Bool.not_true, Bool.false_eq_true, ↓reduceIte]
      constructor
      · rintro (rfl | listed)
        · exact member
        · exact listed
      · exact .inr
  nodup := by
    rw [DirtyPages.insert_absent]
    cases seen : d.pages.contains id with
    | true => exact d.nodup
    | false =>
      have absent : id ∉ d.order := fun member => by simp [(d.agree id).mpr member] at seen
      apply List.nodup_append.mpr
      exact ⟨d.nodup, List.pairwise_singleton _ id, fun a listed b last same =>
        absent (List.mem_singleton.mp last ▸ same ▸ listed)⟩

theorem contains_foldl_remove (ids : List Nat) (d : DirtyPages) (j : Nat) :
    (ids.foldl DirtyPages.remove d).contains j = (!decide (j ∈ ids) && d.contains j) := by
  induction ids generalizing d with
  | nil => simp
  | cons id rest ih =>
    rw [List.foldl_cons, ih, DirtyPages.contains_remove]
    by_cases same : j = id
    · simp [same]
    · simp [same]

/-- Forget every id, clearing its flag. -/
def flush (d : DirtyIds) : DirtyIds where
  order := []
  pages := d.order.foldl DirtyPages.remove d.pages
  agree j := by
    have known := d.agree j
    rw [contains_foldl_remove]
    cases seen : d.pages.contains j with
    | false => simp
    | true => simp [known.mp seen]
  nodup := List.nodup_nil

theorem order_mark (d : DirtyIds) (id : Nat) :
    (d.mark id).order = if id ∈ d.order then d.order else d.order ++ [id] := by
  have known := d.agree id
  simp only [mark, DirtyPages.insert_absent]
  cases seen : d.pages.contains id with
  | false =>
    have absent : id ∉ d.order := fun member => by simp [known.mpr member] at seen
    simp [absent]
  | true => simp [known.mp seen]

end DirtyIds

end PulseVM.Arena
