import PulseVM.Arena.Exactness

/-!
Indices that hold the keys of their rows bit for bit. The order of an index may take two
keys for one, and replacing a row by one with such a key leaves the old key in place; as
long as no modification does that, every key in an index is the key of the row it leads
to, and rebuilding the index from the rows gives the same entries.
-/

namespace PulseVM.Arena
open Lib.Encoding Lib.Undo
open ArenaObject hiding id

variable {T : Type}

namespace IndexedBy

variable {decl : IndexedBy T} {entries : decl.Entries} {rows : Nat → Option T} {n : Nat}
  {obj old new : T}

/-- Every row is entered under its own key, not only under one of the same order. -/
def Literal (entries : decl.Entries) (rows : Nat → Option T) : Prop :=
  ∀ n row, rows n = some row → entries.getKey? (decl.key row) = some (decl.key row)

section

variable (literal : Literal entries rows)

include literal

theorem Literal.insert (vacant : ¬decl.Clashes rows n obj)
    (id : Int) : Literal (entries.insert (decl.key obj) id) (Function.update rows n (some obj)) := by
  intro m row live
  rw [Std.ExtTreeMap.getKey?_insert]
  by_cases here : m = n
  · subst here
    rw [Function.update_self] at live
    cases live
    exact if_pos (decl.matches_refl obj)
  · rw [Function.update_of_ne here] at live
    rw [if_neg, literal m row live]
    intro same
    exact vacant ⟨m, row, here, live, matches_symm same⟩

theorem Literal.erase (exact : Exact entries rows)
    (held : rows n = some obj) :
    Literal (entries.erase (decl.key obj)) (Function.update rows n none) := by
  intro m row live
  have here : m ≠ n := by
    rintro rfl
    rw [Function.update_self] at live
    cases live
  rw [Function.update_of_ne here] at live
  rw [Std.ExtTreeMap.getKey?_erase, if_neg, literal m row live]
  intro same
  exact here (exact.unique live held (matches_symm same))

theorem Literal.same_key (held : rows n = some old)
    (same : decl.key old = decl.key new) : Literal entries (Function.update rows n (some new)) := by
  intro m row live
  by_cases here : m = n
  · subst here
    rw [Function.update_self] at live
    cases live
    rw [← same]
    exact literal m old held
  · rw [Function.update_of_ne here] at live
    exact literal m row live

theorem Literal.move (exact : Exact entries rows)
    (held : rows n = some old) (apart : ¬decl.Matches old (decl.key new))
    (vacant : ¬decl.Clashes rows n new) (id : Int) :
    Literal ((entries.insert (decl.key new) id).erase (decl.key old))
      (Function.update rows n (some new)) := by
  intro m row live
  have entered := literal.insert vacant id m row live
  rw [Std.ExtTreeMap.getKey?_erase, if_neg, entered]
  intro same
  by_cases here : m = n
  · subst here
    rw [Function.update_self] at live
    cases live
    exact apart same
  · rw [Function.update_of_ne here] at live
    exact here (exact.unique live held (matches_symm same))

theorem Literal.eq {other : decl.Entries}
    (exact : Exact entries rows) (literal' : Literal other rows) (exact' : Exact other rows) :
    entries = other := by
  have lookups : ∀ k : decl.Key, entries[k]? = other[k]? := by
    intro k
    apply Option.ext
    intro id
    rw [exact k id, exact' k id]
  apply Std.ExtTreeMap.ext_getKey_getElem? _ lookups
  intro k member member'
  rw [Std.ExtTreeMap.mem_iff_isSome_getElem?, Option.isSome_iff_exists] at member
  obtain ⟨id, found⟩ := member
  obtain ⟨n, row, _, live, same⟩ := (exact k id).mp found
  have first : entries.getKey? k = some (decl.key row) := by
    rw [← Std.ExtTreeMap.getKey?_congr same]
    exact literal n row live
  have second : other.getKey? k = some (decl.key row) := by
    rw [← Std.ExtTreeMap.getKey?_congr same]
    exact literal' n row live
  rw [Std.ExtTreeMap.getKey?_eq_some_getKey (by assumption)] at first second
  exact Option.some.inj (first.trans second.symm)

theorem Literal.entry (exact : Exact entries rows)
    {k : decl.Key} {id : Int} (listed : (k, id) ∈ entries.toList) :
    ∃ (n : Nat) (row : T), id = n ∧ rows n = some row ∧ k = decl.key row := by
  obtain ⟨stored, found⟩ :=
    Std.ExtTreeMap.mem_toList_iff_getKey?_eq_some_and_getElem?_eq_some.mp listed
  obtain ⟨n, row, named, live, same⟩ := (exact k id).mp found
  rw [← Std.ExtTreeMap.getKey?_congr same, literal n row live] at stored
  exact ⟨n, row, named, live, (Option.some.inj stored).symm⟩

end

theorem getKey?_enter (todo : List (Nat × T)) (entries : decl.Entries) {k : decl.Key}
    (listed : ∃ r ∈ todo, decl.Matches r.2 k) :
    ∃ r ∈ todo, decl.Matches r.2 k ∧
      (todo.foldl (fun m r => m.insert (decl.key r.2) (r.1 : Int)) entries).getKey? k =
        some (decl.key r.2) := by
  induction todo generalizing entries with
  | nil => simp at listed
  | cons r rest ih =>
    by_cases later : ∃ r ∈ rest, decl.Matches r.2 k
    · obtain ⟨s, member, same, stored⟩ := ih _ later
      exact ⟨s, List.mem_cons_of_mem r member, same, stored⟩
    · have first : decl.Matches r.2 k := by
        obtain ⟨s, member, same⟩ := listed
        cases member with
        | head => exact same
        | tail _ member => exact absurd ⟨s, member, same⟩ later
      refine ⟨r, List.mem_cons_self, first, ?_⟩
      have kept : ∀ (todo : List (Nat × T)) (entries : decl.Entries),
          (∀ s ∈ todo, ¬decl.Matches s.2 k) →
          (todo.foldl (fun m r => m.insert (decl.key r.2) (r.1 : Int)) entries).getKey? k =
            entries.getKey? k := by
        intro todo
        induction todo with
        | nil => exact fun _ _ => rfl
        | cons s todo ih =>
          intro entries apart
          rw [List.foldl_cons, ih _ fun s member => apart s (List.mem_cons_of_mem _ member),
            Std.ExtTreeMap.getKey?_insert]
          exact if_neg (apart s List.mem_cons_self)
      rw [List.foldl_cons, kept rest _ fun s member same => later ⟨s, member, same⟩,
        Std.ExtTreeMap.getKey?_insert]
      exact if_pos first

end IndexedBy

namespace KeyIndex

variable {ix : KeyIndex T} {rows : Nat → Option T} {n : Nat} {obj old new : T}

def Literal (ix : KeyIndex T) (rows : Nat → Option T) : Prop := IndexedBy.Literal ix.map rows

theorem literal_bulkBuild (ix : KeyIndex T) {listed : List (Nat × T)} {get : Nat → Option T}
    (live : ∀ n row, (n, row) ∈ listed ↔ get n = some row)
    (exact : (ix.bulkBuild listed).1.Exact get) : (ix.bulkBuild listed).1.Literal get := by
  intro n row here
  obtain ⟨r, member, same, stored⟩ := IndexedBy.getKey?_enter listed ∅
    ⟨(n, row), (live n row).mpr here, ix.decl.matches_refl row⟩
  have there := (live r.1 r.2).mp member
  have slot : r.1 = n := IndexedBy.Exact.unique exact there here same
  rw [slot, here] at there
  cases there
  exact stored

variable [ArenaObject T]

theorem literal_replaced (literal : ix.Literal rows) (exact : ix.Exact rows)
    (held : rows n = some old) (vacant : ¬ix.decl.Clashes rows n new)
    (keeps : ix.decl.Matches old (ix.decl.key new) → ix.decl.key old = ix.decl.key new) :
    (ix.replaced old new).Literal (Function.update rows n (some new)) := by
  have allowed : ix.replace old new ≠ none := fun refused =>
    vacant ((replace_eq_none_iff new exact held).mp refused)
  unfold replaced replace at *
  by_cases same : ix.decl.Matches old (ix.decl.key new)
  · rw [if_pos same]
    exact IndexedBy.Literal.same_key literal held (keeps same)
  · rw [if_neg same] at allowed ⊢
    split at allowed
    · exact absurd rfl allowed
    · next free =>
      rw [if_neg free]
      exact IndexedBy.Literal.move literal exact held same vacant _

end KeyIndex

variable [ArenaObject T]

instance : Followed (T := T) fun ix rows => ix.Exact rows ∧ ix.Literal rows where
  allows decl old new := decl.Matches old (decl.key new) → decl.key old = decl.key new
  allows_symm keeps same := (keeps (IndexedBy.matches_symm same)).symm
  exact both := both.1
  erase both live := ⟨KeyIndex.exact_erase both.1 live, IndexedBy.Literal.erase both.2 both.1 live⟩
  add both empty named vacant :=
    ⟨KeyIndex.exact_add both.1 empty named vacant, IndexedBy.Literal.insert both.2 vacant _⟩
  replaced both live named vacant keeps :=
    ⟨KeyIndex.exact_replaced both.1 live named vacant,
      KeyIndex.literal_replaced both.2 both.1 live vacant keeps⟩

/-- Replacing the first row by the second leaves no other bits of a key behind: where an
index takes the two keys for one, they are one. -/
def KeepsKeys (old new : T) : Prop :=
  ∀ decl ∈ secondaryIndices (T := T), decl.Matches old (decl.key new) → decl.key old = decl.key new

namespace Table

variable {t : Table T}

/-- Every index of the table holds the keys of the live rows literally. -/
def Literal (t : Table T) : Prop := ∀ ix ∈ t.secondaries, ix.Literal t.primary.get

omit [ArenaObject T] in
theorem Literal.squash (literal : t.Literal) : t.squash.Literal := by
  unfold Table.squash
  split <;> exact literal

theorem Literal.both (literal : t.Literal) (sound : t.Sound) :
    Follow (fun ix rows => ix.Exact rows ∧ ix.Literal rows) t.secondaries t.primary.get :=
  ⟨sound.indexed.decls, fun ix member => ⟨sound.indexed.exact ix member, literal ix member⟩⟩

theorem literal_of_both {u : Table T} {ixs : List (KeyIndex T)} {rows : Nat → Option T}
    (both : Follow (fun ix rows => ix.Exact rows ∧ ix.Literal rows) ixs rows)
    (indices : u.secondaries = ixs) (same : ∀ i, rows i = u.primary.get i) : u.Literal := by
  intro ix member
  rw [indices] at member
  exact ((both.congr same).each ix member).2

theorem literal_new : (new : Table T).Literal := by
  intro ix _ n row live
  cases live

theorem Literal.emplace (literal : t.Literal) (sound : t.Sound) (f : T → T) :
    (t.emplace f).2.Literal := by
  obtain ⟨name, _, result⟩ | ⟨verdict, _, result⟩ := emplace_cases sound f
  · rw [result]
    exact literal
  · rw [result]
    have empty : t.primary.get t.nextId = none := t.primary.slab.get_past _ (Nat.le_refl _)
    apply literal_of_both ((literal.both sound).add empty (id_setId _ _) verdict) rfl
    intro i
    rw [Function.update_apply]
    exact (congrArg (fun s : Slab T => s.get i) (t.primary.slab_push _)).symm

theorem Literal.modify (literal : t.Literal) (sound : t.Sound) (raw : Int) (m : T → T)
    (keeps : ∀ current, t.find raw = some current → KeepsKeys current (m current)) :
    (t.modify raw m).2.Literal := by
  have modified := modify_cases (literal.both sound) sound.named raw m fun current held ix member =>
    keeps current held ix.decl (sound.indexed.decl_mem member)
  generalize t.modify raw m = result at modified
  cases modified with
  | missing | renamed => exact literal
  | clashed _ _ _ rolled => exact literal_of_both rolled rfl fun _ => rfl
  | replaced held _ _ moved =>
    apply literal_of_both moved rfl
    intro i
    rw [Function.update_apply]
    exact (PagedPrimary.get_insert _ (Slab.lt_of_get (s := t.primary.slab) held) _ i).symm

theorem Literal.remove (literal : t.Literal) (sound : t.Sound) (raw : Int) :
    (t.remove raw).2.Literal := by
  cases raw with
  | negSucc n => exact literal
  | ofNat slot =>
    unfold Table.remove
    cases held : t.find (Int.ofNat slot) with
    | none => exact literal
    | some obj =>
      apply literal_of_both ((literal.both sound).erase held) rfl
      intro i
      rw [Function.update_apply]
      exact (congrArg (fun s : Slab T => s.get i) (t.primary.slab_take slot)).symm

theorem Literal.undo (literal : t.Literal) (sound : t.Sound) : t.undo.Literal := by
  cases stack : t.undoStack with
  | nil =>
    rw [show t.undo = t by simp only [Table.undo, stack]]
    exact literal
  | cons state rest =>
    have chain := sound.chain
    rw [stack, List.map_cons] at chain
    obtain ⟨_, tracks, deeper⟩ := chain
    have both : Follow (fun ix rows => ix.Exact rows ∧ ix.Literal rows)
        (t.revertHeap state rest).secondaries (t.revertHeap state rest).primary.get :=
      literal.both sound
    obtain ⟨_, reverted, _⟩ := revertRows_spec (t := t.revertHeap state rest) tracks
      deeper.valid_top both sound.counted
    have result : t.undo = { (t.revertHeap state rest).revertRows state with
        revision := ((t.revertHeap state rest).revertRows state).revision - 1 } := by
      simp only [Table.undo, stack]
    rw [result]
    exact literal_of_both reverted rfl fun _ => rfl

theorem literal_loadFrom {bytes : Bytes} (read : (new : Table T).loadFrom bytes = (.ok (), t)) :
    t.Literal := by
  obtain ⟨loaded, _, rows, listed, built⟩ := loadFrom_ok read
  intro ix member
  obtain ⟨blank, rfl⟩ := built ix member
  exact blank.literal_bulkBuild listed (loaded.indexed.exact _ member)

end Table

end PulseVM.Arena
