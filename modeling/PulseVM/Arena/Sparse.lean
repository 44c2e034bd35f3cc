import Mathlib
import PulseVM.Arena.Primary

/-! Paged storage is a vector of optional rows to its callers. -/

namespace PulseVM.Arena
open Lib.Undo
open List

variable {T : Type}

/-- Change the row at `id` through the reference that `get_mut` returns. Its slot is full, so
the page has counted it. -/
def PagedPrimary.getMut (p : PagedPrimary T) (id : Nat) (change : T → T) : PagedPrimary T :=
  match p.get id with
  | none => p
  | some row => (p.insert id (change row)).1

inductive PrimaryOp (T : Type) where
  | setLen (len : Nat)
  | insert (id : Nat) (obj : T)
  | push (obj : T)
  | take (id : Nat)
  | getMut (id : Nat) (change : T → T)

inductive PrimaryAnswer (T : Type) where
  | done
  | wasAbsent (absent : Bool)
  | row (found : Option T)

/-- An insert at or past the length panics. -/
def PagedPrimary.step (p : PagedPrimary T) :
    PrimaryOp T → Option (PrimaryAnswer T × PagedPrimary T)
  | .setLen len => some (.done, p.setLen len)
  | .insert id obj =>
    if id < p.len then some (.wasAbsent (p.insert id obj).2, (p.insert id obj).1) else none
  | .push obj => some (.done, p.push obj)
  | .take id => some (.row (p.take id).1, (p.take id).2)
  | .getMut id change => some (.row (p.get id), p.getMut id change)

/-- What the same calls do to a plain vector. -/
def vectorStep (rows : List (Option T)) :
    PrimaryOp T → Option (PrimaryAnswer T × List (Option T))
  | .setLen len => some (.done, rows.take len ++ List.replicate (len - rows.length) none)
  | .insert id obj =>
    if id < rows.length then some (.wasAbsent rows[id]?.join.isNone, rows.set id (some obj))
    else none
  | .push obj => some (.done, rows ++ [some obj])
  | .take id => some (.row rows[id]?.join, rows.set id none)
  | .getMut id change => some (.row rows[id]?.join, rows.modify id (Option.map change))

/-- The answers to calls, and what they leave. -/
def answers {S : Type} (step : S → PrimaryOp T → Option (PrimaryAnswer T × S)) :
    List (PrimaryOp T) → S → Option (List (PrimaryAnswer T) × S)
  | [], s => some ([], s)
  | op :: rest, s => do
    let (answer, s) ← step s op
    let (later, s) ← answers step rest s
    return (answer :: later, s)

namespace PagedPrimary

def rows (p : PagedPrimary T) : List (Option T) := (List.range p.len).map p.get

@[simp] theorem length_rows (p : PagedPrimary T) : p.rows.length = p.len := by simp [rows]

theorem join_rows (p : PagedPrimary T) (id : Nat) : p.rows[id]?.join = p.get id := by
  by_cases inside : id < p.len
  · simp [rows, inside]
  · rw [get, if_pos (not_lt.mp inside), getElem?_eq_none (by simpa using inside)]
    rfl

theorem rows_eq {p : PagedPrimary T} {rows : List (Option T)} (len : p.len = rows.length)
    (get : ∀ id, p.get id = rows[id]?.join) : p.rows = rows := by
  apply ext_getElem
  · rw [length_rows, len]
  · intro id inside bound
    have own := get id
    rw [getElem?_eq_getElem bound] at own
    simpa [PagedPrimary.rows] using own

theorem getMut_spec (p : PagedPrimary T) (id : Nat) (change : T → T) :
    (p.getMut id change).len = p.len ∧ ∀ j, (p.getMut id change).get j =
      if j = id then (p.get id).map change else p.get j := by
  unfold getMut
  cases held : p.get id with
  | none =>
    refine ⟨rfl, fun j => ?_⟩
    by_cases same : j = id
    · rw [if_pos same, same]
      exact held
    · rw [if_neg same]
  | some row =>
    have inside : id < p.len := Slab.lt_of_get (s := p.slab) held
    exact ⟨p.len_insert id _, p.get_insert inside _⟩

theorem join_set {rows : List (Option T)} {i : Nat} (inside : i < rows.length) (row : Option T)
    (j : Nat) : (rows.set i row)[j]?.join = if j = i then row else rows[j]?.join := by
  by_cases same : j = i
  · simp [same, inside]
  · rw [if_neg same, getElem?_set_ne (Ne.symm same)]

/-- A call answers as on the vector and does to it what it does there. -/
theorem rows_step (p : PagedPrimary T) (op : PrimaryOp T) :
    (p.step op).map (fun a => (a.1, a.2.rows)) = vectorStep p.rows op := by
  cases op with
  | setLen len =>
    refine congrArg (fun rows => some (_, rows)) (rows_eq ?_ fun id => ?_)
    · simp only [len_setLen, length_append, length_take, length_replicate, length_rows]
      omega
    · rw [get_setLen, ← join_rows, getElem?_append, getElem?_replicate]
      by_cases kept : id < len ∧ id < p.len
      · simp [kept]
      · have front : ¬id < (p.rows.take len).length := by simpa using kept
        have nothing : (if id < len then p.rows[id]?.join else none) = none := by
          split
          · rw [getElem?_eq_none (by simp; omega)]
            rfl
          · rfl
        rw [if_neg front, nothing]
        split <;> rfl
  | insert id obj =>
    unfold step vectorStep
    dsimp only
    rw [length_rows]
    split_ifs with inside
    · rw [Option.map_some, p.insert_absent inside, join_rows]
      refine congrArg (fun rows => some (_, rows)) (rows_eq (by simp) fun j => ?_)
      rw [p.get_insert inside, join_set (by simpa using inside), join_rows]
    · rw [Option.map_none]
  | push obj =>
    have pushed := p.slab_push obj
    refine congrArg (fun rows => some (_, rows)) (rows_eq ?_ fun id => ?_)
    · rw [length_append, length_rows]
      exact congrArg Slab.len pushed
    · have shown : (p.push obj).get id = if id = p.len then some obj else p.get id :=
        congrArg (·.get id) pushed
      rw [shown, ← join_rows, getElem?_append, length_rows]
      by_cases early : id < p.len
      · rw [if_neg (by omega), if_pos early]
      · by_cases last : id = p.len
        · simp [last]
        · rw [if_neg last, if_neg early, getElem?_eq_none (by simp; omega),
            getElem?_eq_none (by simp; omega)]
  | take id =>
    have shown : ∀ j, (p.take id).2.get j = if j = id then none else p.get j :=
      fun j => congrArg (·.get j) (p.slab_take id)
    unfold step vectorStep
    dsimp only
    rw [Option.map_some, join_rows]
    refine congrArg (fun rows => some (_, rows)) (rows_eq (by simp; rfl) fun j => ?_)
    rw [shown]
    by_cases inside : id < p.len
    · rw [join_set (by simpa using inside), join_rows]
    · rw [set_eq_of_length_le (by simpa using inside), join_rows]
      by_cases same : j = id
      · rw [if_pos same, same, get, if_pos (not_lt.mp inside)]
      · rw [if_neg same]
  | getMut id change =>
    obtain ⟨len, shown⟩ := p.getMut_spec id change
    unfold step vectorStep
    dsimp only
    rw [Option.map_some, join_rows]
    refine congrArg (fun rows => some (_, rows)) (rows_eq (by simp [len]) fun j => ?_)
    rw [shown, getElem?_modify]
    by_cases same : j = id
    · subst same
      rw [← join_rows]
      cases p.rows[j]? <;> simp
    · simp [same, Ne.symm same, join_rows]

theorem rows_answers (p : PagedPrimary T) (ops : List (PrimaryOp T)) :
    (answers step ops p).map (fun a => (a.1, a.2.rows)) = answers vectorStep ops p.rows := by
  induction ops generalizing p with
  | nil => rfl
  | cons op rest ih =>
    simp only [answers, ← rows_step]
    cases p.step op with
    | none => rfl
    | some first =>
      simp only [Option.bind_eq_bind, Option.map_some, Option.bind_some, ← ih]
      cases answers step rest first.2 <;> rfl

end PagedPrimary

/-- What can be seen of the storage is what the vector shows. -/
structure Mirrors (p : PagedPrimary T) (rows : List (Option T)) : Prop where
  len : p.len = rows.length
  get : ∀ id, p.get id = rows[id]?.join
  iterWithIds : p.iterWithIds = rows.zipIdx.filterMap fun (obj, id) => obj.map fun row => (id, row)
  forgotten : ∀ len longer id, len ≤ id → ((p.setLen len).setLen longer).get id = none
  live : ∀ page, some page ∈ p.pages → page.live = page.slots.countP Option.isSome

/-- From empty storage on, every run of calls answers as on a vector and panics where it would;
what it leaves shows the rows of the vector, and no others after a truncation. -/
theorem primary_refines_vector (ops : List (PrimaryOp T)) :
    (answers PagedPrimary.step ops .new).map (fun a => (a.1, a.2.rows)) = answers vectorStep ops [] ∧
      ∀ p : PagedPrimary T, Mirrors p p.rows := by
  refine ⟨PagedPrimary.rows_answers .new ops, fun p => ⟨p.length_rows.symm, fun id =>
    (p.join_rows id).symm, ?_, fun len longer id past => ?_, fun page _ => page.live_eq⟩⟩
  · rw [p.iterWithIds_eq, PagedPrimary.zipIdx_filterMap p.rows fun id row => (id, row)]
    simp only [p.length_rows, p.join_rows, Nat.zero_add]
  · rw [PagedPrimary.get_setLen, PagedPrimary.get_setLen, if_neg (not_lt.mpr past), ite_self]

end PulseVM.Arena
