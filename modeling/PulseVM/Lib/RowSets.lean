import Mathlib.Data.List.Basic
import Mathlib.Logic.Function.Basic

/-!
Sets of rows by key, and the stream of present and removed rows that takes one set to
the next. Rows live in numbered slots; a delta first lists the slots that changed, then
those that were emptied, then those that were filled. Because a slot keeps its key and
no two slots of one set share a key, applying the list in this order is exact.
-/

namespace PulseVM.Lib.RowSets

variable {K P : Type*} [DecidableEq K] (key : P → K)

/-- A present row replaces the row of its key, a removed one deletes it. -/
def applyRow (set : K → Option P) (row : Bool × P) : K → Option P :=
  Function.update set (key row.2) (if row.1 then some row.2 else none)

def applyRows (set : K → Option P) (rows : List (Bool × P)) : K → Option P :=
  rows.foldl (applyRow key) set

def ofRows (rows : List (Bool × P)) : K → Option P := applyRows key (fun _ => none) rows

variable {key} {set : K → Option P}

theorem applyRows_append (first second : List (Bool × P)) :
    applyRows key set (first ++ second) = applyRows key (applyRows key set first) second :=
  List.foldl_append

variable {k : K} {rows : List (Bool × P)} {slots : Nat → Option P}

theorem applyRows_untouched (other : ∀ row ∈ rows, key row.2 ≠ k) :
    applyRows key set rows k = set k := by
  induction rows generalizing set with
  | nil => rfl
  | cons row rows ih =>
    have first : applyRow key set row k = set k :=
      Function.update_of_ne (other row List.mem_cons_self).symm _ _
    calc applyRows key set (row :: rows) k
        = applyRow key set row k := ih fun row member => other row (List.mem_cons_of_mem _ member)
      _ = set k := first

theorem applyRows_agree {value : Option P} (touched : ∃ row ∈ rows, key row.2 = k)
    (agree : ∀ row ∈ rows, key row.2 = k → (if row.1 then some row.2 else none) = value) :
    applyRows key set rows k = value := by
  induction rows generalizing set with
  | nil => simp at touched
  | cons row rows ih =>
    have rest : ∀ row ∈ rows, key row.2 = k → (if row.1 then some row.2 else none) = value :=
      fun row member => agree row (List.mem_cons_of_mem _ member)
    by_cases later : ∃ row ∈ rows, key row.2 = k
    · exact ih later rest
    · have first : key row.2 = k := by
        obtain ⟨found, member, same⟩ := touched
        cases member with
        | head => exact same
        | tail _ member => exact absurd ⟨found, member, same⟩ later
      calc applyRows key set (row :: rows) k
          = applyRow key set row k := applyRows_untouched fun row member same => later ⟨row, member, same⟩
        _ = value := by
          rw [applyRow, first, Function.update_self]
          exact agree row List.mem_cons_self first

/-- No two slots hold rows of one key. -/
def Distinct (key : P → K) (slots : Nat → Option P) : Prop :=
  ∀ i j a b, slots i = some a → slots j = some b → key a = key b → i = j

/-- The listing holds the rows of the slots, all present. -/
structure Lists (rows : List (Bool × P)) (slots : Nat → Option P) : Prop where
  present : ∀ row ∈ rows, row.1 = true ∧ ∃ i, slots i = some row.2
  listed : ∀ i p, slots i = some p → (true, p) ∈ rows

theorem Lists.ofRows_eq (lists : Lists rows slots) (distinct : Distinct key slots) {i : Nat} {p : P}
    (here : slots i = some p) : ofRows key rows (key p) = some p := by
  apply applyRows_agree ⟨_, lists.listed i p here, rfl⟩
  intro row member same
  obtain ⟨present, j, there⟩ := lists.present row member
  have slot : i = j := distinct i j p row.2 here there same.symm
  rw [present, if_pos rfl, ← there, ← slot, here]

theorem Lists.ofRows_none (lists : Lists rows slots)
    (absent : ∀ i p, slots i = some p → key p ≠ k) : ofRows key rows k = none := by
  apply applyRows_untouched
  intro row member
  obtain ⟨_, i, here⟩ := lists.present row member
  exact absent i row.2 here

/-- What the three groups of a delta hold, for slots that go from `before` to `after`. -/
structure Delta (key : P → K) (before after : Nat → Option P)
    (modified removed created : List P) : Prop where
  stable : ∀ i a b, before i = some a → after i = some b → key a = key b
  modified_from : ∀ p ∈ modified, ∃ i a, before i = some a ∧ after i = some p
  removed_from : ∀ p ∈ removed, ∃ i a, before i = some a ∧ after i = none ∧ key a = key p
  created_from : ∀ p ∈ created, ∃ i, before i = none ∧ after i = some p
  modified_all : ∀ i a b, before i = some a → after i = some b → a ≠ b → b ∈ modified
  removed_all : ∀ i a, before i = some a → after i = none → ∃ p ∈ removed, key p = key a
  created_all : ∀ i b, before i = none → after i = some b → b ∈ created

/-- Present rows and removed rows in the order of the stream. -/
def stream (modified removed created : List P) : List (Bool × P) :=
  modified.map (true, ·) ++ removed.map (false, ·) ++ created.map (true, ·)

theorem applyRows_group_other {group : List P} {flag : Bool} (other : ¬∃ p ∈ group, key p = k) :
    applyRows key set (group.map (flag, ·)) k = set k := by
  apply applyRows_untouched
  intro row listed same
  obtain ⟨q, inside, rfl⟩ := List.mem_map.mp listed
  exact other ⟨q, inside, same⟩

theorem applyRows_group_present {group : List P} (distinct : Distinct key slots)
    (held : ∀ p ∈ group, ∃ i, slots i = some p) {p : P} (member : p ∈ group) :
    applyRows key set (group.map (true, ·)) (key p) = some p := by
  apply applyRows_agree ⟨(true, p), List.mem_map_of_mem member, rfl⟩
  intro row listed same
  obtain ⟨q, inside, rfl⟩ := List.mem_map.mp listed
  obtain ⟨i, here⟩ := held p member
  obtain ⟨j, there⟩ := held q inside
  have slot : i = j := distinct i j p q here there same.symm
  rw [slot, there] at here
  simpa using here

section Law

variable {before after : Nat → Option P} {modified removed created : List P}

omit [DecidableEq K] in
/-- No row with the key of a removed one is left, unless it is new: the slot of a removed row
kept its key, and no other slot had that key before. -/
theorem Delta.emptied (delta : Delta key before after modified removed created)
    (oldKeys : Distinct key before) {p : P} (member : p ∈ removed)
    (unfilled : ¬∃ q ∈ created, key q = key p) (i : Nat) (b : P) (here : after i = some b) :
    key b ≠ key p := by
  intro same
  obtain ⟨j, c, there, empty, keyed⟩ := delta.removed_from p member
  cases start : before i with
  | none => exact unfilled ⟨b, delta.created_all i b start here, same⟩
  | some a =>
    have kept := delta.stable i a b start here
    have slot : i = j := oldKeys i j a c start there (by rw [kept, same, keyed])
    rw [slot, empty] at here
    cases here

theorem Delta.unmentioned (delta : Delta key before after modified removed created)
    {old new : List (Bool × P)} (oldRows : Lists old before) (newRows : Lists new after)
    (oldKeys : Distinct key before) (newKeys : Distinct key after) {k : K}
    (unfilled : ¬∃ p ∈ created, key p = k) (unemptied : ¬∃ p ∈ removed, key p = k)
    (unchanged : ¬∃ p ∈ modified, key p = k) : ofRows key old k = ofRows key new k := by
  by_cases held : ∃ i a, before i = some a ∧ key a = k
  · obtain ⟨i, a, here, rfl⟩ := held
    cases finish : after i with
    | none => exact absurd (delta.removed_all i a here finish) unemptied
    | some b =>
      have kept := delta.stable i a b here finish
      have same : a = b := by
        by_contra differ
        exact unchanged ⟨b, delta.modified_all i a b here finish differ, kept.symm⟩
      calc ofRows key old (key a)
          = some a := oldRows.ofRows_eq oldKeys here
        _ = some b := by rw [same]
        _ = ofRows key new (key b) := (newRows.ofRows_eq newKeys finish).symm
        _ = ofRows key new (key a) := by rw [kept]
  · rw [oldRows.ofRows_none fun i a here same => held ⟨i, a, here, same⟩, newRows.ofRows_none]
    rintro i b here rfl
    cases start : before i with
    | none => exact unfilled ⟨b, delta.created_all i b start here, rfl⟩
    | some a => exact held ⟨i, a, start, delta.stable i a b start here⟩

/-- Applying the delta to a set with the rows of `before` gives the rows of `after`. -/
theorem Delta.apply (delta : Delta key before after modified removed created)
    {old new : List (Bool × P)} (oldRows : Lists old before) (newRows : Lists new after)
    (oldKeys : Distinct key before) (newKeys : Distinct key after) :
    applyRows key (ofRows key old) (stream modified removed created) = ofRows key new := by
  funext k
  rw [stream, applyRows_append, applyRows_append]
  -- the last group that mentions the key decides
  by_cases filled : ∃ p ∈ created, key p = k
  · obtain ⟨p, member, rfl⟩ := filled
    have held : ∀ q ∈ created, ∃ i, after i = some q := fun q inside =>
      (delta.created_from q inside).imp fun _ both => both.2
    obtain ⟨i, here⟩ := held p member
    rw [applyRows_group_present newKeys held member, newRows.ofRows_eq newKeys here]
  rw [applyRows_group_other filled]
  by_cases emptied : ∃ p ∈ removed, key p = k
  · obtain ⟨p, member, rfl⟩ := emptied
    rw [newRows.ofRows_none (delta.emptied oldKeys member filled)]
    apply applyRows_agree ⟨(false, p), List.mem_map_of_mem member, rfl⟩
    intro row listed _
    obtain ⟨q, _, rfl⟩ := List.mem_map.mp listed
    rfl
  rw [applyRows_group_other emptied]
  by_cases changed : ∃ p ∈ modified, key p = k
  · obtain ⟨p, member, rfl⟩ := changed
    have held : ∀ q ∈ modified, ∃ i, after i = some q := fun q inside =>
      (delta.modified_from q inside).imp fun _ both => both.choose_spec.2
    obtain ⟨i, here⟩ := held p member
    rw [applyRows_group_present newKeys held member, newRows.ofRows_eq newKeys here]
  rw [applyRows_group_other changed]
  exact delta.unmentioned oldRows newRows oldKeys newKeys filled emptied changed

end Law

end PulseVM.Lib.RowSets
