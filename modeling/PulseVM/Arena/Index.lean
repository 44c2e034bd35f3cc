import PulseVM.Arena.Table

/-!
What the secondary indices mean: the entries of an index are exact for a set of
rows when looking up a key finds the id of the row with that key and nothing else.
Each index operation is shown to follow the rows, first for one index, then for the
loops over all of them, and the verdict of a loop is read off the rows alone.
-/

namespace PulseVM.Arena
open ArenaObject hiding id
open Function (comp_apply update update_eq_self update_idem update_of_ne update_self)

namespace IndexedBy

variable {T : Type} (decl : IndexedBy T)

abbrev Entries := Std.ExtTreeMap decl.Key Int decl.cmp

theorem matches_refl (a : T) : decl.Matches a (decl.key a) := Std.ReflCmp.compare_self

variable {decl}

theorem matches_symm {a b : T} (same : decl.Matches a (decl.key b)) :
    decl.Matches b (decl.key a) :=
  Std.OrientedCmp.eq_symm same

theorem matches_congr {a b : T} (same : decl.Matches a (decl.key b)) (k : decl.Key) :
    decl.Matches a k ↔ decl.Matches b k := by
  unfold Matches at same ⊢
  rw [Std.TransCmp.congr_left same]

theorem matches_of_common {a b : T} {k : decl.Key} (first : decl.Matches a k)
    (second : decl.Matches b k) : decl.Matches a (decl.key b) :=
  Std.TransCmp.eq_trans first (Std.OrientedCmp.eq_symm second)

/-- Looking up a key finds the id of the row that has this key, and nothing else. -/
def Exact (entries : decl.Entries) (rows : Nat → Option T) : Prop :=
  ∀ (k : decl.Key) (id : Int), entries[k]? = some id ↔
    ∃ (n : Nat) (row : T), id = n ∧ rows n = some row ∧ decl.Matches row k

/-- Another row than the one at `n` has the key of `obj`. -/
def Clashes (decl : IndexedBy T) (rows : Nat → Option T) (n : Nat) (obj : T) : Prop :=
  ∃ m row, m ≠ n ∧ rows m = some row ∧ decl.Matches row (decl.key obj)

variable {entries : decl.Entries} {rows : Nat → Option T} {n : Nat} {obj old new : T}

theorem exact_empty : Exact (∅ : decl.Entries) fun _ => none := by
  intro k id
  simp

section

variable (exact : Exact entries rows)

include exact

theorem Exact.unique {m : Nat} {a b : T} (liveA : rows n = some a)
    (liveB : rows m = some b) (same : decl.Matches a (decl.key b)) : n = m := by
  have first := (exact (decl.key b) n).mpr ⟨n, a, rfl, liveA, same⟩
  have second := (exact (decl.key b) m).mpr ⟨m, b, rfl, liveB, decl.matches_refl b⟩
  rw [first] at second
  simpa using second

theorem Exact.isSome_iff (k : decl.Key) :
    entries[k]?.isSome = true ↔ ∃ m row, rows m = some row ∧ decl.Matches row k := by
  rw [Option.isSome_iff_exists]
  constructor
  · intro ⟨id, found⟩
    obtain ⟨m, row, _, live, same⟩ := (exact k id).mp found
    exact ⟨m, row, live, same⟩
  · intro ⟨m, row, live, same⟩
    exact ⟨m, (exact k m).mpr ⟨m, row, rfl, live, same⟩⟩

theorem Exact.insert (empty : rows n = none)
    (vacant : ¬decl.Clashes rows n obj) :
    Exact (entries.insert (decl.key obj) (n : Int)) (update rows n (some obj)) := by
  intro k id
  rw [Std.ExtTreeMap.getElem?_insert]
  split_ifs with same
  · constructor
    · intro found
      exact ⟨n, obj, (Option.some.inj found).symm, update_self .., same⟩
    · intro ⟨m, row, named, live, other⟩
      by_cases here : m = n
      · rw [named, here]
      · rw [update_of_ne here] at live
        exact absurd ⟨m, row, here, live, matches_of_common other same⟩ vacant
  · rw [exact k id]
    constructor
    · intro ⟨m, row, named, live, other⟩
      have here : m ≠ n := fun here => by simp [here, empty] at live
      exact ⟨m, row, named, by rw [update_of_ne here]; exact live, other⟩
    · intro ⟨m, row, named, live, other⟩
      by_cases here : m = n
      · rw [here, update_self] at live
        cases live
        exact absurd other same
      · rw [update_of_ne here] at live
        exact ⟨m, row, named, live, other⟩

theorem Exact.erase (live : rows n = some obj) :
    Exact (entries.erase (decl.key obj)) (update rows n none) := by
  intro k id
  rw [Std.ExtTreeMap.getElem?_erase]
  by_cases same : decl.cmp (decl.key obj) k = .eq
  · rw [if_pos same]
    constructor
    · intro found
      cases found
    · intro ⟨m, row, _, other, shared⟩
      have here : m ≠ n := fun here => by simp [here] at other
      rw [update_of_ne here] at other
      exact absurd (exact.unique other live (matches_of_common shared same)) here
  · rw [if_neg same, exact k id]
    constructor
    · intro ⟨m, row, named, other, shared⟩
      have here : m ≠ n := by
        intro here
        rw [here, live] at other
        cases other
        exact same shared
      exact ⟨m, row, named, by rw [update_of_ne here]; exact other, shared⟩
    · intro ⟨m, row, named, other, shared⟩
      have here : m ≠ n := fun here => by simp [here] at other
      rw [update_of_ne here] at other
      exact ⟨m, row, named, other, shared⟩

theorem Exact.same_key (live : rows n = some old)
    (same : decl.Matches old (decl.key new)) :
    Exact entries (update rows n (some new)) := by
  intro k id
  rw [exact k id]
  constructor
  · intro ⟨m, row, named, other, shared⟩
    by_cases here : m = n
    · rw [here, live] at other
      cases other
      exact ⟨n, new, by rw [named, here], update_self .., (matches_congr same k).mp shared⟩
    · exact ⟨m, row, named, by rw [update_of_ne here]; exact other, shared⟩
  · intro ⟨m, row, named, other, shared⟩
    by_cases here : m = n
    · rw [here, update_self] at other
      cases other
      exact ⟨n, old, by rw [named, here], live, (matches_congr same k).mpr shared⟩
    · rw [update_of_ne here] at other
      exact ⟨m, row, named, other, shared⟩

/-- Entering the new key and then erasing the old one moves the row. -/
theorem Exact.move (live : rows n = some old)
    (changed : ¬decl.Matches old (decl.key new)) (vacant : ¬decl.Clashes rows n new) :
    Exact ((entries.insert (decl.key new) (n : Int)).erase (decl.key old))
      (update rows n (some new)) := by
  have commute : ∀ k : decl.Key,
      ((entries.insert (decl.key new) (n : Int)).erase (decl.key old))[k]? =
        ((entries.erase (decl.key old)).insert (decl.key new) (n : Int))[k]? := by
    intro k
    rw [Std.ExtTreeMap.getElem?_erase, Std.ExtTreeMap.getElem?_insert,
      Std.ExtTreeMap.getElem?_insert, Std.ExtTreeMap.getElem?_erase]
    by_cases onOld : decl.cmp (decl.key old) k = .eq
    · have offNew : ¬decl.cmp (decl.key new) k = .eq := fun onNew =>
        changed (matches_of_common onOld onNew)
      rw [if_pos onOld, if_neg offNew, if_pos onOld]
    · rw [if_neg onOld, if_neg onOld]
  have alone : ¬decl.Clashes (update rows n none) n new := by
    intro ⟨m, row, here, other, shared⟩
    rw [update_of_ne here] at other
    exact vacant ⟨m, row, here, other, shared⟩
  have moved := (exact.erase live).insert (update_self ..) alone
  rw [update_idem] at moved
  intro k id
  rw [commute k]
  exact moved k id

end

theorem erase_insert (absent : entries[decl.key obj]? = none) (id : Int) :
    (entries.insert (decl.key obj) id).erase (decl.key obj) = entries := by
  have distinct (m : decl.Entries) : m.toList.Nodup := by
    apply Std.ExtTreeMap.distinct_keys_toList.imp
    intro a b apart same
    exact apart (same ▸ Std.ReflCmp.compare_self)
  apply Std.ExtTreeMap.ext_toList
  rw [List.perm_ext_iff_of_nodup (distinct _) (distinct _)]
  intro entry
  obtain ⟨k, v⟩ := entry
  rw [Std.ExtTreeMap.mem_toList_iff_getKey?_eq_some_and_getElem?_eq_some,
    Std.ExtTreeMap.mem_toList_iff_getKey?_eq_some_and_getElem?_eq_some,
    Std.ExtTreeMap.getKey?_erase, Std.ExtTreeMap.getElem?_erase,
    Std.ExtTreeMap.getKey?_insert, Std.ExtTreeMap.getElem?_insert]
  by_cases same : decl.cmp (decl.key obj) k = .eq
  · have missing : entries[k]? = none := by
      rw [← Std.ExtTreeMap.getElem?_congr same]
      exact absent
    simp [same, missing]
  · simp [same]

end IndexedBy

variable {T : Type}

namespace KeyIndex

def Exact (ix : KeyIndex T) (rows : Nat → Option T) : Prop := IndexedBy.Exact ix.map rows

variable {ix : KeyIndex T} {rows : Nat → Option T} {n : Nat} {obj old new : T}

theorem taken_iff (obj : T) (exact : ix.Exact rows) (empty : rows n = none) :
    ix.taken obj = true ↔ ix.decl.Clashes rows n obj := by
  apply (IndexedBy.Exact.isSome_iff exact (ix.decl.key obj)).trans
  constructor
  · intro ⟨m, row, live, same⟩
    exact ⟨m, row, fun here => by simp [here, empty] at live, live, same⟩
  · intro ⟨m, row, _, live, same⟩
    exact ⟨m, row, live, same⟩

theorem exact_erase (exact : ix.Exact rows) (live : rows n = some obj) :
    (ix.erase obj).Exact (update rows n none) :=
  IndexedBy.Exact.erase exact live

/-- The first index of a list with a property of its declaration, by name. -/
theorem find_decl {ixs : List (KeyIndex T)} {p : KeyIndex T → Bool} {q : IndexedBy T → Bool}
    (same : ∀ ix ∈ ixs, p ix = q ix.decl) :
    (ixs.find? p).map (fun ix => ix.decl.name) =
      ((ixs.map KeyIndex.decl).find? q).map IndexedBy.name := by
  induction ixs with
  | nil => rfl
  | cons ix rest ih =>
    have first : p ix = q ix.decl := same ix (List.mem_cons_self ..)
    have others := ih fun other member => same other (List.mem_cons_of_mem ix member)
    rw [List.map_cons, List.find?_cons, List.find?_cons, first]
    cases q ix.decl with
    | true => rfl
    | false => exact others

variable [ArenaObject T]

/-- The index after a move, or the same index when the new key is taken. -/
def replaced (ix : KeyIndex T) (old new : T) : KeyIndex T := (ix.replace old new).getD ix

theorem exact_add (exact : ix.Exact rows) (empty : rows n = none)
    (named : ArenaObject.id obj = n) (vacant : ¬ix.decl.Clashes rows n obj) :
    (ix.add obj).Exact (update rows n (some obj)) := by
  have entered := IndexedBy.Exact.insert exact empty vacant
  rw [← named] at entered
  exact entered

theorem erase_add (vacant : ix.taken obj = false) : (ix.add obj).erase obj = ix := by
  have absent : ix.map[ix.decl.key obj]? = none := by
    simpa only [taken, lookup, Option.isSome_eq_false_iff, Option.isNone_iff_eq_none] using vacant
  unfold erase add
  simp only [IndexedBy.erase_insert absent]

theorem entry_add (ix : KeyIndex T) (obj : T) :
    (ix.decl.key obj, ArenaObject.id obj) ∈ (ix.add obj).map.toList := by
  have listed : (ix.decl.key obj, ArenaObject.id obj) ∈
      (ix.map.insert (ix.decl.key obj) (ArenaObject.id obj)).toList :=
    Std.ExtTreeMap.mem_toList_iff_getKey?_eq_some_and_getElem?_eq_some.mpr
      ⟨Std.ExtTreeMap.getKey?_insert_self, Std.ExtTreeMap.getElem?_insert_self⟩
  exact listed

theorem key_of_single (decl : IndexedBy T) (obj : T) {entry : decl.Key × Int}
    (listed : entry ∈ ((KeyIndex.new decl).add obj).map.toList) : entry.1 = decl.key obj := by
  have inserted : entry ∈ ((∅ : decl.Entries).insert (decl.key obj) (ArenaObject.id obj)).toList :=
    listed
  obtain ⟨k, id⟩ := entry
  have stored :=
    (Std.ExtTreeMap.mem_toList_iff_getKey?_eq_some_and_getElem?_eq_some.mp inserted).1
  rw [Std.ExtTreeMap.getKey?_insert] at stored
  split at stored
  · exact (Option.some.inj stored).symm
  · simp at stored

theorem replace_eq_none_iff (new : T) (exact : ix.Exact rows) (live : rows n = some old) :
    ix.replace old new = none ↔ ix.decl.Clashes rows n new := by
  have found := IndexedBy.Exact.isSome_iff exact (ix.decl.key new)
  unfold replace
  by_cases same : ix.decl.Matches old (ix.decl.key new)
  · rw [if_pos same]
    constructor
    · intro impossible
      cases impossible
    · intro ⟨m, row, here, other, shared⟩
      exact absurd (IndexedBy.Exact.unique exact other live
        (IndexedBy.matches_of_common shared same)) here
  · rw [if_neg same]
    constructor
    · intro refused
      split at refused
      · next taken =>
        obtain ⟨m, row, other, shared⟩ := found.mp taken
        refine ⟨m, row, ?_, other, shared⟩
        intro here
        rw [here, live] at other
        cases other
        exact same shared
      · cases refused
    · intro ⟨m, row, _, other, shared⟩
      exact if_pos (found.mpr ⟨m, row, other, shared⟩)

theorem decl_replaced (ix : KeyIndex T) (old new : T) : (ix.replaced old new).decl = ix.decl := by
  unfold replaced replace
  split
  · rfl
  · split <;> rfl

theorem exact_replaced (exact : ix.Exact rows) (live : rows n = some old)
    (named : ArenaObject.id old = n) (vacant : ¬ix.decl.Clashes rows n new) :
    (ix.replaced old new).Exact (update rows n (some new)) := by
  have allowed : ix.replace old new ≠ none := fun refused =>
    vacant ((replace_eq_none_iff new exact live).mp refused)
  unfold replaced replace at *
  by_cases same : ix.decl.Matches old (ix.decl.key new)
  · rw [if_pos same]
    exact IndexedBy.Exact.same_key exact live same
  · rw [if_neg same] at allowed ⊢
    split at allowed
    · exact absurd rfl allowed
    · next free =>
      rw [if_neg free]
      have moved := IndexedBy.Exact.move exact live same vacant
      rw [← named] at moved
      exact moved

end KeyIndex

variable [ArenaObject T]

/-- A property of an index that follows the rows, where a row is replaced by one that the
property allows for it. -/
class Followed (good : KeyIndex T → (Nat → Option T) → Prop) where
  allows : IndexedBy T → T → T → Prop
  allows_symm : ∀ {decl old new}, allows decl old new → allows decl new old
  exact : ∀ {ix rows}, good ix rows → ix.Exact rows
  erase : ∀ {ix rows n obj}, good ix rows → rows n = some obj →
    good (ix.erase obj) (update rows n none)
  add : ∀ {ix rows n obj}, good ix rows → rows n = none → ArenaObject.id obj = n →
    ¬ix.decl.Clashes rows n obj → good (ix.add obj) (update rows n (some obj))
  replaced : ∀ {ix rows n old new}, good ix rows → rows n = some old → ArenaObject.id old = n →
    ¬ix.decl.Clashes rows n new → allows ix.decl old new →
    good (ix.replaced old new) (update rows n (some new))

instance : Followed (T := T) KeyIndex.Exact where
  allows _ _ _ := True
  allows_symm := id
  exact := id
  erase := KeyIndex.exact_erase
  add := KeyIndex.exact_add
  replaced exact live named vacant _ := KeyIndex.exact_replaced exact live named vacant

theorem Followed.rolled_back {good : KeyIndex T → (Nat → Option T) → Prop} [Followed good]
    {ix : KeyIndex T} {rows : Nat → Option T} {n : Nat} {old new : T} (holds : good ix rows)
    (live : rows n = some old) (namedOld : ArenaObject.id old = n)
    (namedNew : ArenaObject.id new = n) (vacant : ¬ix.decl.Clashes rows n new)
    (allowed : allows good ix.decl old new) :
    good ((ix.replaced old new).replaced new old) rows := by
  have there := replaced holds live namedOld vacant allowed
  have free : ¬(ix.replaced old new).decl.Clashes (update rows n (some new)) n old := by
    rw [KeyIndex.decl_replaced]
    intro ⟨m, row, here, other, shared⟩
    rw [update_of_ne here] at other
    exact here (IndexedBy.Exact.unique (exact holds) other live shared)
  have back := replaced there (update_self ..) namedNew free (by
    rw [KeyIndex.decl_replaced]
    exact allows_symm allowed)
  rw [update_idem, ← live, update_eq_self] at back
  exact back

/-- The declared indices, all with a property for the same rows. -/
structure Follow (good : KeyIndex T → (Nat → Option T) → Prop) (ixs : List (KeyIndex T))
    (rows : Nat → Option T) : Prop where
  decls : ixs.map KeyIndex.decl = secondaryIndices
  each : ∀ ix ∈ ixs, good ix rows

/-- The declared indices, all exact for the same rows. -/
abbrev Indexed : List (KeyIndex T) → (Nat → Option T) → Prop := Follow KeyIndex.Exact

open Classical in
/-- The first declared index in which `obj`, stored at `n`, would share a key with
another row. -/
noncomputable def clash (rows : Nat → Option T) (n : Nat) (obj : T) : Option String :=
  ((secondaryIndices (T := T)).find? fun decl => decl.Clashes rows n obj).map IndexedBy.name

theorem clash_eq_none_iff {rows : Nat → Option T} {n : Nat} {obj : T} :
    clash rows n obj = none ↔ ∀ decl ∈ secondaryIndices (T := T), ¬decl.Clashes rows n obj := by
  unfold clash
  simp only [Option.map_eq_none_iff, List.find?_eq_none, decide_eq_true_eq]

section Loops

variable {good : KeyIndex T → (Nat → Option T) → Prop} {ixs : List (KeyIndex T)}
  {rows : Nat → Option T} {n : Nat} {obj old new : T}

theorem Follow.congr {other : Nat → Option T} (indexed : Follow good ixs rows)
    (same : ∀ i, rows i = other i) : Follow good ixs other := by
  rw [← funext same]
  exact indexed

theorem Follow.map {f : KeyIndex T → KeyIndex T} {other : Nat → Option T}
    (indexed : Follow good ixs rows) (keeps : ∀ ix, (f ix).decl = ix.decl)
    (step : ∀ ix ∈ ixs, good ix rows → good (f ix) other) : Follow good (ixs.map f) other where
  decls := by
    rw [List.map_map, ← indexed.decls]
    exact List.map_congr_left fun ix _ => keeps ix
  each := by
    intro ix member
    obtain ⟨before, listed, rfl⟩ := List.mem_map.mp member
    exact step before listed (indexed.each before listed)

theorem Follow.decl_mem (indexed : Follow good ixs rows) {ix : KeyIndex T} (member : ix ∈ ixs) :
    ix.decl ∈ secondaryIndices (T := T) := by
  rw [← indexed.decls]
  exact List.mem_map_of_mem member

theorem Follow.vacant (indexed : Follow good ixs rows) (free : clash rows n obj = none)
    {ix : KeyIndex T} (member : ix ∈ ixs) : ¬ix.decl.Clashes rows n obj :=
  clash_eq_none_iff.mp free ix.decl (indexed.decl_mem member)

theorem indexed_new : Indexed ((secondaryIndices (T := T)).map KeyIndex.new) fun _ => none where
  decls := by
    rw [List.map_map]
    exact List.map_id' _
  each := by
    intro ix member
    obtain ⟨decl, _, rfl⟩ := List.mem_map.mp member
    exact IndexedBy.exact_empty

variable [Followed good]

theorem Follow.exact (indexed : Follow good ixs rows) : ∀ ix ∈ ixs, ix.Exact rows :=
  fun ix member => Followed.exact (indexed.each ix member)

theorem Follow.erase (indexed : Follow good ixs rows) (live : rows n = some obj) :
    Follow good (ixs.map (·.erase obj)) (update rows n none) :=
  indexed.map (fun _ => rfl) fun _ _ holds => Followed.erase holds live

theorem Follow.add (indexed : Follow good ixs rows) (empty : rows n = none)
    (named : ArenaObject.id obj = n) (free : clash rows n obj = none) :
    Follow good (ixs.map (·.add obj)) (update rows n (some obj)) :=
  indexed.map (fun _ => rfl) fun _ member holds =>
    Followed.add holds empty named (indexed.vacant free member)

/-- The insertion loop either enters the row everywhere or, once the entries made so
far are taken back, leaves the very same indices. -/
theorem tryInsertAll_eq (obj : T) (done todo : List (KeyIndex T))
    (vacant : ∀ ix ∈ done, ix.taken obj = false) :
    tryInsertAll obj (done.map (·.add obj)) todo =
      match todo.find? (·.taken obj) with
      | none => ((done ++ todo).map (·.add obj), none)
      | some ix => (done ++ todo, some ix.decl.name) := by
  induction todo generalizing done with
  | nil => simp [tryInsertAll]
  | cons ix rest ih =>
    cases free : ix.taken obj with
    | true =>
      have undone : (done.map (·.add obj)).map (·.erase obj) = done := by
        rw [List.map_map]
        calc done.map ((·.erase obj) ∘ (·.add obj)) = done.map (fun ix => ix) :=
              List.map_congr_left fun ix member => KeyIndex.erase_add (vacant ix member)
          _ = done := List.map_id' done
      simp only [tryInsertAll, KeyIndex.tryInsert, free, ↓reduceIte, List.find?_cons, undone]
    | false =>
      have extended : ∀ p ∈ done ++ [ix], p.taken obj = false := by
        intro p member
        rcases List.mem_append.mp member with before | last
        · exact vacant p before
        · rw [List.mem_singleton.mp last]
          exact free
      have later := ih (done ++ [ix]) extended
      rw [List.map_append, List.map_singleton, List.append_assoc, List.singleton_append] at later
      simp only [tryInsertAll, KeyIndex.tryInsert, free, Bool.false_eq_true, ↓reduceIte,
        List.find?_cons]
      exact later

theorem find_taken (obj : T) (indexed : Follow good ixs rows) (empty : rows n = none) :
    (ixs.find? (·.taken obj)).map (fun ix => ix.decl.name) = clash rows n obj := by
  classical
  unfold clash
  rw [← indexed.decls]
  apply KeyIndex.find_decl
  intro ix member
  have same := KeyIndex.taken_iff obj (indexed.exact ix member) empty
  by_cases taken : ix.taken obj = true
  · rw [taken, decide_eq_true (same.mp taken)]
  · rw [Bool.eq_false_iff.mpr taken, decide_eq_false (fun clashes => taken (same.mpr clashes))]

/-- The insertion loop follows the rows: it succeeds exactly without a clash. -/
theorem tryInsertAll_free (indexed : Indexed ixs rows) (empty : rows n = none)
    (named : ArenaObject.id obj = n) (free : clash rows n obj = none) :
    tryInsertAll obj [] ixs = (ixs.map (·.add obj), none) ∧
      Indexed (ixs.map (·.add obj)) (update rows n (some obj)) := by
  have first : ixs.find? (·.taken obj) = none := by
    have found := find_taken obj indexed empty
    rw [free] at found
    exact Option.map_eq_none_iff.mp found
  have loop := tryInsertAll_eq obj [] ixs (fun _ member => absurd member List.not_mem_nil)
  rw [first] at loop
  exact ⟨loop, indexed.add empty named free⟩

theorem tryInsertAll_clash (indexed : Indexed ixs rows) (empty : rows n = none) {name : String}
    (clashes : clash rows n obj = some name) : tryInsertAll obj [] ixs = (ixs, some name) := by
  have found := find_taken obj indexed empty
  have loop := tryInsertAll_eq obj [] ixs (fun _ member => absurd member List.not_mem_nil)
  rw [clashes] at found
  obtain ⟨ix, first, named⟩ := Option.map_eq_some_iff.mp found
  rw [first] at loop
  rw [← named]
  exact loop

/-- What the restore loop of an undo does to the indices when no key is taken. -/
theorem Follow.restore (indexed : Follow good ixs rows) (empty : rows n = none)
    (named : ArenaObject.id obj = n) (free : clash rows n obj = none) :
    Follow good (ixs.map fun ix => (ix.tryInsert obj).getD ix)
      (update rows n (some obj)) := by
  apply indexed.map
  · intro ix
    unfold KeyIndex.tryInsert
    split <;> rfl
  · intro ix member holds
    have vacant := indexed.vacant free member
    have open' : ix.taken obj ≠ true := fun taken =>
      vacant ((KeyIndex.taken_iff obj (Followed.exact holds) empty).mp taken)
    rw [KeyIndex.tryInsert, if_neg open']
    exact Followed.add holds empty named vacant

/-- The replacement loop stops at the first index whose new key is taken and moves the
earlier ones back. -/
theorem replaceAll_eq (old new : T) (done todo : List (KeyIndex T)) :
    replaceAll old new (done.map (·.replaced old new)) todo =
      match todo.span (fun ix => (ix.replace old new).isSome) with
      | (moved, []) => ((done ++ moved).map (·.replaced old new), none)
      | (moved, ix :: rest) =>
        ((done ++ moved).map (fun p => (p.replaced old new).replaced new old) ++ ix :: rest,
          some ix.decl.name) := by
  induction todo generalizing done with
  | nil => simp [replaceAll]
  | cons ix rest ih =>
    rw [List.span_eq_takeWhile_dropWhile] at ih ⊢
    cases moved : ix.replace old new with
    | none =>
      simp only [replaceAll, moved, List.takeWhile_cons, List.dropWhile_cons, Option.isSome_none,
        Bool.false_eq_true, ↓reduceIte, List.append_nil, List.map_map]
      rfl
    | some there =>
      have later := ih (done ++ [ix])
      have kept : ix.replaced old new = there := by rw [KeyIndex.replaced, moved]; rfl
      rw [List.map_append, List.map_singleton, kept] at later
      simp only [replaceAll, moved, List.takeWhile_cons, List.dropWhile_cons, Option.isSome_some,
        ↓reduceIte]
      rw [later]
      cases List.dropWhile (fun ix => (ix.replace old new).isSome) rest with
      | nil => simp only [List.append_assoc, List.singleton_append]
      | cons stop others => simp only [List.append_assoc, List.singleton_append]

/-- The index at which the replacement loop stops is the first that clashes. -/
theorem find_refused (new : T) (indexed : Follow good ixs rows) (live : rows n = some old) :
    ((ixs.dropWhile fun ix => (ix.replace old new).isSome).head?).map
      (fun ix => ix.decl.name) = clash rows n new := by
  classical
  have stop : (ixs.dropWhile fun ix => (ix.replace old new).isSome).head? =
      ixs.find? fun ix => (ix.replace old new).isNone := by
    rw [List.find?_eq_head?_dropWhile_not]
    simp only [Option.not_isNone]
  unfold clash
  rw [stop, ← indexed.decls]
  apply KeyIndex.find_decl
  intro ix member
  have same := KeyIndex.replace_eq_none_iff new (indexed.exact ix member) live
  by_cases refused : ix.replace old new = none
  · rw [refused, decide_eq_true (same.mp refused)]
    rfl
  · rw [decide_eq_false (fun clashes => refused (same.mpr clashes)), Option.isNone_eq_false_iff]
    exact Option.isSome_iff_ne_none.mpr refused

/-- The replacement loop follows the rows: it succeeds exactly without a clash. -/
theorem replaceAll_free (indexed : Follow good ixs rows) (live : rows n = some old)
    (named : ArenaObject.id old = n) (free : clash rows n new = none)
    (allowed : ∀ ix ∈ ixs, Followed.allows good ix.decl old new) :
    replaceAll old new [] ixs = (ixs.map (·.replaced old new), none) ∧
      Follow good (ixs.map (·.replaced old new)) (update rows n (some new)) := by
  have loop := replaceAll_eq old new [] ixs
  have stop := find_refused new indexed live
  rw [List.span_eq_takeWhile_dropWhile] at loop
  rw [free, Option.map_eq_none_iff, List.head?_eq_none_iff] at stop
  have all : ixs.takeWhile (fun ix => (ix.replace old new).isSome) = ixs := by
    have split := List.takeWhile_append_dropWhile
      (p := fun ix : KeyIndex T => (ix.replace old new).isSome) (l := ixs)
    rw [stop, List.append_nil] at split
    exact split
  rw [stop, all] at loop
  refine ⟨loop, ?_⟩
  exact indexed.map (fun ix => ix.decl_replaced old new) fun ix member holds =>
    Followed.replaced holds live named (indexed.vacant free member) (allowed ix member)

/-- On a clash the indices answer every lookup as before: each is left alone or was moved
there and back. -/
theorem replaceAll_clash (indexed : Follow good ixs rows) (live : rows n = some old)
    (namedOld : ArenaObject.id old = n) (namedNew : ArenaObject.id new = n) {name : String}
    (clashes : clash rows n new = some name)
    (allowed : ∀ ix ∈ ixs, Followed.allows good ix.decl old new) :
    ∃ rolled, replaceAll old new [] ixs = (rolled, some name) ∧ Follow good rolled rows := by
  have loop := replaceAll_eq old new [] ixs
  have stop := find_refused new indexed live
  rw [List.span_eq_takeWhile_dropWhile] at loop
  rw [clashes] at stop
  obtain ⟨ix, first, named⟩ := Option.map_eq_some_iff.mp stop
  have split := List.takeWhile_append_dropWhile
    (p := fun ix : KeyIndex T => (ix.replace old new).isSome) (l := ixs)
  cases others : ixs.dropWhile fun ix => (ix.replace old new).isSome with
  | nil => simp [others] at first
  | cons refused rest =>
    rw [others, List.head?_cons, Option.some_inj] at first
    subst first
    rw [others] at loop split
    refine ⟨_, by rw [← named]; exact loop, ?_, ?_⟩
    · rw [← indexed.decls]
      conv_rhs => rw [← split]
      simp only [List.nil_append, List.map_append, List.map_map, List.map_cons]
      congr 1
      apply List.map_congr_left
      intro p _
      rw [comp_apply, KeyIndex.decl_replaced, KeyIndex.decl_replaced]
    · intro p member
      rcases List.mem_append.mp member with rolled | kept
      · obtain ⟨before, listed, rfl⟩ := List.mem_map.mp rolled
        have accepted := List.mem_takeWhile_imp listed
        have inside : before ∈ ixs := (List.takeWhile_sublist _).mem listed
        refine Followed.rolled_back (indexed.each before inside) live namedOld namedNew ?_
          (allowed before inside)
        intro clash
        rw [(KeyIndex.replace_eq_none_iff new (indexed.exact before inside) live).mpr clash]
          at accepted
        cases accepted
      · apply indexed.each
        rw [← split]
        exact List.mem_append_right _ kept

end Loops

end PulseVM.Arena
