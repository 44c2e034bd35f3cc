import Mathlib.Tactic.Ring
import PulseVM.Lib.Pages
import PulseVM.Lib.Undo

/-!
Sparse primary storage: rows are addressed by id, and slots are allocated in
fixed-size pages near the ids that are live. `slab` forgets the pages; the rest
of the development reads rows only through it and through `iterWithIds`.
-/

namespace PulseVM.Arena
open Lib.Pages Lib.Undo

def primaryPageSize : Nat := 1024

/-- A page carries the number of rows stored in it. -/
structure PrimaryPage (T : Type) where
  slots : List (Option T)
  live : Nat
  slots_length : slots.length = primaryPageSize
  live_eq : live = slots.countP Option.isSome

namespace PrimaryPage

variable {T : Type}

def new : PrimaryPage T where
  slots := List.replicate primaryPageSize none
  live := 0
  slots_length := List.length_replicate
  live_eq := by simp [List.countP_replicate]

def slot (page : PrimaryPage T) (j : Nat) : Option T := page.slots[j]?.join

theorem slot_eq_getElem (page : PrimaryPage T) {j : Nat} (inside : j < page.slots.length) :
    page.slot j = page.slots[j] := by
  rw [slot, List.getElem?_eq_getElem inside]
  rfl

/-- Store a row, counting it when the slot was empty. -/
def write (page : PrimaryPage T) (j : Nat) (inside : j < primaryPageSize) (obj : T) :
    PrimaryPage T where
  slots := page.slots.set j (some obj)
  live := if (page.slot j).isSome then page.live else page.live + 1
  slots_length := by rw [List.length_set, page.slots_length]
  live_eq := by
    have bound : j < page.slots.length := by rw [page.slots_length]; exact inside
    have counted := page.live_eq
    rw [List.countP_set bound, slot_eq_getElem page bound]
    cases held : page.slots[j] with
    | none => simp [counted]
    | some row =>
      have positive : 0 < page.slots.countP Option.isSome :=
        List.countP_pos_iff.mpr ⟨some row, held ▸ List.getElem_mem bound, rfl⟩
      simp only [Option.isSome_some, ↓reduceIte]
      omega

def clear (page : PrimaryPage T) (j : Nat) (inside : j < primaryPageSize)
    (held : (page.slot j).isSome) : PrimaryPage T where
  slots := page.slots.set j none
  live := page.live - 1
  slots_length := by rw [List.length_set, page.slots_length]
  live_eq := by
    have bound : j < page.slots.length := by rw [page.slots_length]; exact inside
    have counted := page.live_eq
    rw [slot_eq_getElem page bound] at held
    rw [List.countP_set bound, held]
    simp [counted]

def clearFrom (page : PrimaryPage T) (j : Nat) : PrimaryPage T where
  slots := page.slots.take j ++ (page.slots.drop j).map fun _ => none
  live := page.live - (page.slots.drop j).countP Option.isSome
  slots_length := by
    have size := page.slots_length
    simp only [List.length_append, List.length_take, List.length_map, List.length_drop]
    omega
  live_eq := by
    have counted := page.live_eq
    have split : page.slots.countP Option.isSome =
        (page.slots.take j).countP Option.isSome + (page.slots.drop j).countP Option.isSome := by
      rw [← List.countP_append, List.take_append_drop]
    have cleared : ((page.slots.drop j).map fun _ => (none : Option T)).countP Option.isSome = 0 := by
      rw [List.countP_map, List.countP_eq_zero]
      simp
    rw [List.countP_append, cleared]
    omega

theorem slot_new (j : Nat) : (new : PrimaryPage T).slot j = none := by
  simp only [slot, new, List.getElem?_replicate]
  split <;> rfl

theorem slot_write (page : PrimaryPage T) {j : Nat} (inside : j < primaryPageSize) (obj : T)
    (k : Nat) : (page.write j inside obj).slot k = if k = j then some obj else page.slot k := by
  have bound : j < page.slots.length := by rw [page.slots_length]; exact inside
  simp only [slot, write]
  by_cases same : k = j
  · subst same
    rw [if_pos rfl, List.getElem?_set_self bound]
    rfl
  · rw [if_neg same, List.getElem?_set_ne (fun eq => same eq.symm)]

theorem slot_clear (page : PrimaryPage T) {j : Nat} (inside : j < primaryPageSize)
    (held : (page.slot j).isSome) (k : Nat) :
    (page.clear j inside held).slot k = if k = j then none else page.slot k := by
  have bound : j < page.slots.length := by rw [page.slots_length]; exact inside
  simp only [slot, clear]
  by_cases same : k = j
  · subst same
    rw [if_pos rfl, List.getElem?_set_self bound]
    rfl
  · rw [if_neg same, List.getElem?_set_ne (fun eq => same eq.symm)]

theorem slot_clearFrom (page : PrimaryPage T) {j : Nat} (inside : j ≤ primaryPageSize) (k : Nat) :
    (page.clearFrom j).slot k = if k < j then page.slot k else none := by
  have front : (page.slots.take j).length = j := by
    rw [List.length_take, page.slots_length]
    omega
  simp only [slot, clearFrom]
  by_cases before : k < j
  · rw [if_pos before, List.getElem?_append_left (by omega), List.getElem?_take, if_pos before]
  · rw [if_neg before, List.getElem?_append_right (by omega), List.getElem?_map]
    cases (page.slots.drop j)[k - (page.slots.take j).length]? <;> rfl

theorem slot_of_live_zero (page : PrimaryPage T) (empty : page.live = 0) (j : Nat) :
    page.slot j = none := by
  have none_live : page.slots.countP Option.isSome = 0 := by rw [← page.live_eq, empty]
  rw [List.countP_eq_zero] at none_live
  rw [slot]
  cases found : page.slots[j]? with
  | none => rfl
  | some cell =>
    have absent := none_live cell (List.mem_of_getElem? found)
    simpa using absent

end PrimaryPage

section Slots

variable {T : Type}

def slotAt (pages : List (Option (PrimaryPage T))) (id : Nat) : Option T :=
  (cell pages (id / primaryPageSize)).bind fun page => page.slot (id % primaryPageSize)

theorem mod_page_lt (id : Nat) : id % primaryPageSize < primaryPageSize :=
  Nat.mod_lt id (by decide)

theorem eq_of_div_mod {a b : Nat} (page : a / primaryPageSize = b / primaryPageSize)
    (offset : a % primaryPageSize = b % primaryPageSize) : a = b := by
  rw [← Nat.div_add_mod a primaryPageSize, ← Nat.div_add_mod b primaryPageSize, page, offset]

/-- Replacing the page of `id` by one that differs from it only in the slot of `id`
changes the row at `id` and no other. -/
theorem slotAt_replace {pages changed : List (Option (PrimaryPage T))} {id : Nat}
    {page : Option (PrimaryPage T)} {value : Option T}
    (cells : ∀ i, cell changed i = if i = id / primaryPageSize then page else cell pages i)
    (slots : ∀ k, (page.bind fun p => p.slot k) = if k = id % primaryPageSize then value else
      (cell pages (id / primaryPageSize)).bind fun p => p.slot k) (j : Nat) :
    slotAt changed j = if j = id then value else slotAt pages j := by
  unfold slotAt
  rw [cells]
  by_cases here : j / primaryPageSize = id / primaryPageSize
  · rw [if_pos here, slots]
    by_cases same : j = id
    · rw [if_pos same, if_pos (by rw [same])]
    · rw [if_neg same, if_neg (fun offset => same (eq_of_div_mod here offset)), here]
  · rw [if_neg here, if_neg (by rintro rfl; exact here rfl)]

end Slots

/-- Pages of rows below the next id; nothing is stored past it. -/
structure PagedPrimary (T : Type) where
  pages : List (Option (PrimaryPage T))
  len : Nat
  empty_past : ∀ id, len ≤ id → slotAt pages id = none

namespace PagedPrimary

variable {T : Type}

def new : PagedPrimary T := ⟨[], 0, fun _ _ => rfl⟩

def get (p : PagedPrimary T) (id : Nat) : Option T :=
  if p.len ≤ id then none else slotAt p.pages id

theorem get_eq_slotAt (p : PagedPrimary T) (id : Nat) : p.get id = slotAt p.pages id := by
  unfold get
  split
  · next past => rw [p.empty_past id past]
  · rfl

def slab (p : PagedPrimary T) : Slab T := ⟨p.len, p.get, fun _ past => if_pos past⟩

/-- A page that lost its last row is dropped. -/
def keepLive (page : PrimaryPage T) : Option (PrimaryPage T) :=
  if page.live = 0 then none else some page

theorem keepLive_slot (page : PrimaryPage T) (k : Nat) :
    ((keepLive page).bind fun p => p.slot k) = page.slot k := by
  unfold keepLive
  split
  · next empty => rw [page.slot_of_live_zero empty k]; rfl
  · rfl

theorem lt_iff_page (id len : Nat) :
    id < len ↔ id / primaryPageSize < len / primaryPageSize ∨
      id / primaryPageSize = len / primaryPageSize ∧
        id % primaryPageSize < len % primaryPageSize := by
  unfold primaryPageSize
  omega

theorem page_kept_iff (id len : Nat) :
    id / primaryPageSize < (len + primaryPageSize - 1) / primaryPageSize ↔
      id / primaryPageSize < len / primaryPageSize ∨
      id / primaryPageSize = len / primaryPageSize ∧ len % primaryPageSize ≠ 0 := by
  unfold primaryPageSize
  omega

/-- On a shrink to `len` the page that holds the boundary loses its rows from
`len` on. -/
def trimBoundary (pages : List (Option (PrimaryPage T))) (len : Nat) :
    List (Option (PrimaryPage T)) :=
  if len % primaryPageSize = 0 then pages
  else
    match cell pages (len / primaryPageSize) with
    | none => pages
    | some page =>
      pages.set (len / primaryPageSize) (keepLive (page.clearFrom (len % primaryPageSize)))

theorem slotAt_trimBoundary (pages : List (Option (PrimaryPage T))) (len id : Nat) :
    slotAt (trimBoundary pages len) id =
      if id / primaryPageSize = len / primaryPageSize ∧ len % primaryPageSize ≠ 0 ∧
        len % primaryPageSize ≤ id % primaryPageSize then none else slotAt pages id := by
  unfold trimBoundary
  by_cases aligned : len % primaryPageSize = 0
  · rw [if_pos aligned, if_neg (by omega)]
  · rw [if_neg aligned]
    cases found : cell pages (len / primaryPageSize) with
    | none =>
      dsimp only
      split
      · next boundary => rw [slotAt, boundary.1, found]; rfl
      · rfl
    | some page =>
      simp only [slotAt]
      rw [cell_set_lt (lt_of_cell found)]
      by_cases boundary : id / primaryPageSize = len / primaryPageSize
      · rw [if_pos boundary, keepLive_slot, page.slot_clearFrom (Nat.le_of_lt (mod_page_lt len)),
          boundary, found]
        by_cases kept : id % primaryPageSize < len % primaryPageSize
        · rw [if_pos kept, if_neg (by omega)]
          rfl
        · rw [if_neg kept, if_pos ⟨rfl, aligned, by omega⟩]
      · rw [if_neg boundary, if_neg (fun both => boundary both.1)]

def shrinkPages (pages : List (Option (PrimaryPage T))) (len : Nat) :
    List (Option (PrimaryPage T)) :=
  (trimBoundary pages len).take ((len + primaryPageSize - 1) / primaryPageSize)

theorem slotAt_shrinkPages (pages : List (Option (PrimaryPage T))) (len id : Nat) :
    slotAt (shrinkPages pages len) id = if id < len then slotAt pages id else none := by
  have below := lt_iff_page id len
  have keep := page_kept_iff id len
  have trimmed := slotAt_trimBoundary pages len id
  simp only [slotAt] at trimmed
  simp only [slotAt, shrinkPages]
  rw [cell_take]
  by_cases kept : id / primaryPageSize < (len + primaryPageSize - 1) / primaryPageSize
  · rw [if_pos kept, trimmed]
    by_cases inside : id < len
    · rw [if_pos inside, if_neg (by omega)]
    · rw [if_neg inside, if_pos (by omega)]
  · rw [if_neg kept, if_neg (by omega)]
    rfl

def setLen (p : PagedPrimary T) (len : Nat) : PagedPrimary T :=
  if smaller : len < p.len then
    { pages := shrinkPages p.pages len
      len := len
      empty_past := fun id past => by rw [slotAt_shrinkPages, if_neg (by omega)] }
  else
    { p with len := len, empty_past := fun id past => p.empty_past id (by omega) }

def insertPages (pages : List (Option (PrimaryPage T))) (id : Nat) (obj : T) :
    List (Option (PrimaryPage T)) :=
  let page := (cell pages (id / primaryPageSize)).getD PrimaryPage.new
  put pages (id / primaryPageSize)
    (some (page.write (id % primaryPageSize) (mod_page_lt id) obj))

theorem slotAt_insertPages (pages : List (Option (PrimaryPage T))) (id : Nat) (obj : T) (j : Nat) :
    slotAt (insertPages pages id obj) j = if j = id then some obj else slotAt pages j := by
  refine slotAt_replace (fun i => cell_put pages _ _ i) (fun k => ?_) j
  rw [Option.bind_some, PrimaryPage.slot_write]
  cases cell pages (id / primaryPageSize) with
  | none => simp [PrimaryPage.slot_new]
  | some page => rfl

/-- Store a row at an id below the next one; the flag tells whether the slot was
empty. The source asserts the bound, so past it nothing is stored here. -/
def insert (p : PagedPrimary T) (id : Nat) (obj : T) : PagedPrimary T × Bool :=
  if inside : id < p.len then
    ({ pages := insertPages p.pages id obj
       len := p.len
       empty_past := fun j past => by
        rw [slotAt_insertPages, if_neg (by omega)]
        exact p.empty_past j past },
      (slotAt p.pages id).isNone)
  else (p, false)

def push (p : PagedPrimary T) (obj : T) : PagedPrimary T :=
  ((p.setLen (p.len + 1)).insert p.len obj).1

def takePages (pages : List (Option (PrimaryPage T))) (id : Nat) : List (Option (PrimaryPage T)) :=
  match cell pages (id / primaryPageSize) with
  | none => pages
  | some page =>
    if held : (page.slot (id % primaryPageSize)).isSome then
      pages.set (id / primaryPageSize)
        (keepLive (page.clear (id % primaryPageSize) (mod_page_lt id) held))
    else pages

theorem slotAt_takePages (pages : List (Option (PrimaryPage T))) (id j : Nat) :
    slotAt (takePages pages id) j = if j = id then none else slotAt pages j := by
  unfold takePages
  cases found : cell pages (id / primaryPageSize) with
  | none =>
    by_cases same : j = id
    · rw [if_pos same, same, slotAt, found]
      rfl
    · rw [if_neg same]
  | some page =>
    dsimp only
    split
    · next held =>
      refine slotAt_replace (fun i => cell_set_lt (lt_of_cell found) _ i) (fun k => ?_) j
      rw [keepLive_slot, page.slot_clear, found]
      rfl
    · next absent =>
      by_cases same : j = id
      · rw [if_pos same, same, slotAt, found]
        simpa using absent
      · rw [if_neg same]

def take (p : PagedPrimary T) (id : Nat) : Option T × PagedPrimary T :=
  (p.get id,
    { pages := if p.len ≤ id then p.pages else takePages p.pages id
      len := p.len
      empty_past := fun j past => by
        split
        · exact p.empty_past j past
        · rw [slotAt_takePages, if_neg (by omega)]
          exact p.empty_past j past })

def iterWithIds (p : PagedPrimary T) : List (Nat × T) :=
  p.pages.zipIdx.flatMap fun (page, pageId) =>
    match page with
    | none => []
    | some page =>
      page.slots.zipIdx.filterMap fun (obj, slot) =>
        obj.map fun row => (pageId * primaryPageSize + slot, row)

variable (p : PagedPrimary T)

@[simp] theorem slab_len : p.slab.len = p.len := rfl

@[simp] theorem slab_get (id : Nat) : p.slab.get id = p.get id := rfl

@[simp] theorem len_setLen (len : Nat) : (p.setLen len).len = len := by
  unfold setLen
  split <;> rfl

theorem get_setLen (len id : Nat) :
    (p.setLen len).get id = if id < len then p.get id else none := by
  rw [get_eq_slotAt, get_eq_slotAt]
  unfold setLen
  split
  · exact slotAt_shrinkPages p.pages len id
  · next larger =>
    split
    · rfl
    · exact p.empty_past id (by omega)

@[simp] theorem len_insert (id : Nat) (obj : T) :
    (p.insert id obj).1.len = p.len := by
  unfold insert
  split <;> rfl

theorem get_insert {id : Nat} (inside : id < p.len) (obj : T) (j : Nat) :
    (p.insert id obj).1.get j = if j = id then some obj else p.get j := by
  rw [get_eq_slotAt, get_eq_slotAt]
  unfold insert
  rw [dif_pos inside]
  exact slotAt_insertPages p.pages id obj j

theorem insert_absent {id : Nat} (inside : id < p.len) (obj : T) :
    (p.insert id obj).2 = (p.get id).isNone := by
  rw [get_eq_slotAt]
  unfold insert
  rw [dif_pos inside]

theorem slab_new : (new : PagedPrimary T).slab = Slab.empty :=
  Slab.eq_of_get rfl fun id => get_eq_slotAt new id

theorem slab_push (obj : T) : (p.push obj).slab = p.slab.push obj := by
  refine Slab.eq_of_get ?_ fun id => ?_
  · simp only [slab_len, push, len_insert, len_setLen, Slab.push]
  · have inside : p.len < (p.setLen (p.len + 1)).len := by
      rw [len_setLen]
      omega
    change ((p.setLen (p.len + 1)).insert p.len obj).1.get id =
      if id = p.len then some obj else p.get id
    rw [get_insert _ inside]
    by_cases same : id = p.len
    · rw [if_pos same, if_pos same]
    · rw [if_neg same, if_neg same, get_setLen]
      by_cases small : id < p.len + 1
      · rw [if_pos small]
      · rw [if_neg small]
        exact (p.slab.get_past id (by simp only [slab_len]; omega)).symm

theorem slab_insert {id : Nat} (inside : id < p.slab.len) (obj : T) :
    (p.insert id obj).1.slab = p.slab.set id obj inside :=
  Slab.eq_of_get (len_insert p id obj) fun j => get_insert p inside obj j

theorem slab_take (id : Nat) : (p.take id).2.slab = p.slab.erase id := by
  refine Slab.eq_of_get rfl fun j => ?_
  simp only [slab_get, Slab.erase]
  rw [get_eq_slotAt, get_eq_slotAt]
  unfold take
  by_cases past : p.len ≤ id
  · simp only [if_pos past]
    split
    · next same => rw [same]; exact p.empty_past id past
    · rfl
  · simp only [if_neg past]
    exact slotAt_takePages p.pages id j

section Iteration

/-- A filtered range does not depend on its bound once nothing lies past it. -/
theorem filterMap_range_grow {β : Type} {f : Nat → Option β} {n m : Nat} (le : n ≤ m)
    (past : ∀ j, n ≤ j → f j = none) : (List.range m).filterMap f = (List.range n).filterMap f := by
  obtain ⟨extra, rfl⟩ := Nat.exists_eq_add_of_le le
  rw [List.range_add, List.filterMap_append, List.filterMap_map]
  have nothing : (List.range extra).filterMap (f ∘ fun j => n + j) = [] := by
    rw [List.filterMap_eq_nil_iff]
    intro j _
    exact past (n + j) (Nat.le_add_right n j)
  rw [nothing, List.append_nil]

theorem filterMap_range_eq {β : Type} {f : Nat → Option β} {n m : Nat}
    (pastN : ∀ j, n ≤ j → f j = none) (pastM : ∀ j, m ≤ j → f j = none) :
    (List.range n).filterMap f = (List.range m).filterMap f := by
  rcases Nat.le_total n m with le | le
  · exact (filterMap_range_grow le pastN).symm
  · exact filterMap_range_grow le pastM

theorem zipIdx_filterMap {α β : Type} (l : List (Option α)) (f : Nat → α → β) (start : Nat) :
    ((l.zipIdx start).filterMap fun (obj, slot) => obj.map (f slot)) =
      (List.range l.length).filterMap fun j => l[j]?.join.map (f (start + j)) := by
  induction l generalizing start with
  | nil => rfl
  | cons head rest ih =>
    have shifted : ∀ j, start + 1 + j = start + (j + 1) := fun j => by omega
    rw [List.zipIdx_cons, List.filterMap_cons, ih, List.length_cons, List.range_succ_eq_map,
      List.filterMap_cons, List.filterMap_map]
    simp only [Function.comp_def, List.getElem?_cons_succ, List.getElem?_cons_zero,
      Option.join_some, Nat.add_zero, shifted]

/-- The rows of consecutive pages, the first of which is numbered `start`. -/
theorem pages_iter (pages : List (Option (PrimaryPage T))) (start : Nat) :
    ((pages.zipIdx start).flatMap fun (page, pageId) =>
      match page with
      | none => []
      | some page => page.slots.zipIdx.filterMap fun (obj, slot) =>
          obj.map fun row => (pageId * primaryPageSize + slot, row)) =
      (List.range (pages.length * primaryPageSize)).filterMap fun j =>
        (slotAt pages j).map fun row => (start * primaryPageSize + j, row) := by
  induction pages generalizing start with
  | nil => simp
  | cons head rest ih =>
    have size : (rest.length + 1) * primaryPageSize =
        primaryPageSize + rest.length * primaryPageSize := by ring
    have first : ∀ j, j < primaryPageSize →
        slotAt (head :: rest) j = head.bind fun page => page.slot j := by
      intro j small
      rw [slotAt, Nat.div_eq_of_lt small, Nat.mod_eq_of_lt small]
      rfl
    have later : ∀ j, slotAt (head :: rest) (primaryPageSize + j) = slotAt rest j := by
      intro j
      rw [slotAt, Nat.add_div_left j (by decide), Nat.add_mod_left]
      rfl
    rw [List.zipIdx_cons, List.flatMap_cons, ih, List.length_cons, size, List.range_add,
      List.filterMap_append, List.filterMap_map]
    refine congrArg₂ (· ++ ·) ?_ ?_
    · cases head with
      | none =>
        symm
        rw [List.filterMap_eq_nil_iff]
        intro j member
        rw [first j (List.mem_range.mp member)]
        rfl
      | some page =>
        have rows := zipIdx_filterMap page.slots
          (fun slot row => (start * primaryPageSize + slot, row)) 0
        simp only [page.slots_length, Nat.zero_add] at rows
        dsimp only
        rw [rows]
        refine List.filterMap_congr fun j member => ?_
        rw [first j (List.mem_range.mp member)]
        rfl
    · refine List.filterMap_congr fun j _ => ?_
      have shifted : (start + 1) * primaryPageSize + j =
          start * primaryPageSize + (primaryPageSize + j) := by ring
      rw [Function.comp_apply, later, shifted]

theorem iterWithIds_eq :
    p.iterWithIds = (List.range p.len).filterMap fun id => (p.get id).map fun row => (id, row) := by
  have walk := pages_iter p.pages 0
  simp only [Nat.zero_mul, Nat.zero_add] at walk
  have rows : ∀ id, p.get id = slotAt p.pages id := p.get_eq_slotAt
  simp only [rows]
  unfold iterWithIds
  rw [walk]
  refine filterMap_range_eq (fun j past => ?_) (fun j past => ?_)
  · have absent : cell p.pages (j / primaryPageSize) = none := by
      rw [cell, List.getElem?_eq_none]
      · rfl
      · exact (Nat.le_div_iff_mul_le (by decide)).mpr past
    rw [slotAt, absent]
    rfl
  · rw [p.empty_past j past]
    rfl

theorem ids_of_rows (get : Nat → Option T) (ids : List Nat) :
    (ids.filterMap fun id => (get id).map fun row => (id, row)).map Prod.fst =
      ids.filter fun id => (get id).isSome := by
  induction ids with
  | nil => rfl
  | cons id rest ih =>
    cases held : get id with
    | none => simp [held, ih]
    | some row => simp [held, ih]

theorem ids_iterWithIds :
    p.iterWithIds.map Prod.fst = (List.range p.len).filter fun id => (p.get id).isSome := by
  rw [iterWithIds_eq, ids_of_rows]

theorem nodup_iterWithIds : (p.iterWithIds.map Prod.fst).Nodup := by
  rw [ids_iterWithIds]
  exact List.nodup_range.filter _

theorem length_iterWithIds : p.iterWithIds.length = p.slab.live := by
  rw [← List.length_map (f := Prod.fst), ids_iterWithIds, ← List.countP_eq_length_filter]
  rfl

theorem mem_iterWithIds (id : Nat) (row : T) :
    (id, row) ∈ p.iterWithIds ↔ p.get id = some row := by
  rw [iterWithIds_eq, List.mem_filterMap]
  constructor
  · intro ⟨other, _, found⟩
    obtain ⟨held, live, same⟩ := Option.map_eq_some_iff.mp found
    cases same
    exact live
  · intro live
    have inside : id < p.len := Slab.lt_of_get (s := p.slab) live
    exact ⟨id, List.mem_range.mpr inside, by rw [live]; rfl⟩

end Iteration

end PagedPrimary

end PulseVM.Arena
