import PulseVM.Arena.Literal

/-!
Tables as a client sees them: with the indices their row type declares, so that a lookup
can name an index and give a key of its type. Every operation keeps the declared indices.
What a call does is said once here, in terms of the rows alone.
-/

namespace PulseVM.Arena
open Lib.Encoding Lib.Undo
open ArenaObject hiding id
open List KeyIndex

section Decls

variable {T : Type}

theorem decls_map {f : KeyIndex T → KeyIndex T} (keeps : ∀ ix, (f ix).decl = ix.decl)
    (ixs : List (KeyIndex T)) : (ixs.map f).map decl = ixs.map decl := by
  rw [map_map]
  exact map_congr_left fun ix _ => keeps ix

theorem decls_erase (obj : T) (ixs : List (KeyIndex T)) :
    (ixs.map (·.erase obj)).map decl = ixs.map decl :=
  decls_map (f := fun ix => ix.erase obj) (fun _ => rfl) ixs

theorem decls_eraseRows (get : Nat → Option T) (ids : List Nat) (ixs : List (KeyIndex T)) :
    (eraseRows get ids ixs).map decl = ixs.map decl := by
  induction ids generalizing ixs with
  | nil => rfl
  | cons id rest ih =>
    unfold eraseRows
    rw [foldl_cons]
    refine (ih _).trans ?_
    cases get id with
    | none => rfl
    | some obj => exact decls_erase obj ixs

variable [ArenaObject T]

theorem decls_tryInsertAll (obj : T) (prior todo : List (KeyIndex T)) :
    (tryInsertAll obj prior todo).1.map decl = (prior ++ todo).map decl := by
  induction todo generalizing prior with
  | nil => simp [tryInsertAll]
  | cons ix rest ih =>
    unfold tryInsertAll tryInsert
    by_cases taken : ix.taken obj = true
    · simp [taken, erase]
    · simp only [taken, Bool.false_eq_true, ↓reduceIte, ih, map_append, map_cons,
        append_assoc, singleton_append]
      rfl

theorem decl_replace {ix moved : KeyIndex T} {old new : T} (done : ix.replace old new = some moved) :
    moved.decl = ix.decl := by
  have kept := ix.decl_replaced old new
  rw [replaced, done] at kept
  exact kept

theorem decls_replaceAll (old new : T) (prior todo : List (KeyIndex T)) :
    (replaceAll old new prior todo).1.map decl = (prior ++ todo).map decl := by
  induction todo generalizing prior with
  | nil => simp [replaceAll]
  | cons ix rest ih =>
    unfold replaceAll
    cases done : ix.replace old new with
    | none =>
      rw [map_append, map_append]
      congr 1
      exact decls_map (fun p => p.decl_replaced new old) prior
    | some moved =>
      simp only [ih, map_append, map_cons, append_assoc, singleton_append,
        decl_replace done]

end Decls

namespace Table

variable {T : Type} {t : Table T}

variable [ArenaObject T]

def Declared (t : Table T) : Prop := t.secondaries.map decl = secondaryIndices

theorem declared_new : (new : Table T).Declared := indexed_new.decls

theorem Declared.apply (declared : t.Declared) (op : TableOp T) : (t.apply op).Declared := by
  have same : (t.apply op).secondaries.map decl = t.secondaries.map decl := by
    cases op with
    | emplace f =>
      dsimp only [Table.apply, emplace]
      have kept := decls_tryInsertAll (constructed t.nextId f) [] t.secondaries
      split <;> next loop => rw [loop] at kept; exact kept
    | modify id m =>
      dsimp only [Table.apply]
      unfold modify
      split
      · next current _ =>
        dsimp only
        have kept := decls_replaceAll current (m current) [] t.secondaries
        split
        · rfl
        · split <;> next loop => rw [loop] at kept; exact kept
      · rfl
    | remove id =>
      dsimp only [Table.apply]
      unfold remove
      split
      · exact decls_erase _ t.secondaries
      · rfl
    | allocBlob bytes => rw [Table.apply, (t.allocBlob_sameRows bytes).secondaries]
    | freeBlob r => rw [Table.apply, (t.freeBlob_sameRows r).secondaries]
    | reallocBlob old bytes => rw [Table.apply, (t.reallocBlob_sameRows old bytes).secondaries]
  exact same.trans declared

theorem Declared.restoreRow (declared : t.Declared) (obj : T) : (t.restoreRow obj).Declared := by
  unfold Table.restoreRow
  split
  · refine (decls_map (fun ix => ?_) t.secondaries).trans declared
    unfold KeyIndex.tryInsert
    split <;> rfl
  · exact declared

theorem Declared.undo (declared : t.Declared) : t.undo.Declared := by
  unfold Table.undo
  split
  · exact declared
  · next state below _ =>
    have vacant : ((t.revertHeap state below).vacated state).Declared := by
      rw [Declared, vacated_eq, decls_eraseRows, decls_eraseRows]
      exact declared
    have final : ((t.revertHeap state below).revertRows state).Declared := by
      rw [revertRows_eq]
      generalize (modifiedRestore state ++ removedPairs state).map Prod.snd = rows
      revert vacant
      generalize (t.revertHeap state below).vacated state = u
      intro declaredU
      induction rows generalizing u with
      | nil => exact declaredU
      | cons row rest ih => exact ih _ (declaredU.restoreRow row)
    exact final

theorem Declared.squash (declared : t.Declared) : t.squash.Declared := by
  unfold Table.squash
  split <;> exact declared

end Table

/-- An index that the row type declares, by its position. -/
class DeclaredIndex (T : Type) [ArenaObject T] (decl : IndexedBy T) where
  pos : Nat
  found : (secondaryIndices (T := T))[pos]? = some decl

/-- A table with the declared indices. -/
@[ext]
structure Registered (T : Type) [ArenaObject T] where
  table : Table T
  declared : table.Declared

namespace Registered

variable {T : Type} [ArenaObject T]

def new : Registered T := ⟨Table.new, Table.declared_new⟩

def create (t : Registered T) (f : T → T) : Except TableError T × Registered T :=
  ((t.table.emplace f).1, ⟨(t.table.emplace f).2, t.declared.apply (.emplace f)⟩)

theorem create_refused {t : Registered T} {f : T → T} {e : TableError}
    (refused : t.table.emplace f = (.error e, t.table)) : t.create f = (.error e, t) := by
  have verdict : (t.table.emplace f).1 = .error e := congrArg Prod.fst refused
  have kept : (t.table.emplace f).2 = t.table := congrArg Prod.snd refused
  exact Prod.ext verdict (Registered.ext kept)

def modify (t : Registered T) (id : Int) (m : T → T) : Except TableError Unit × Registered T :=
  ((t.table.modify id m).1, ⟨(t.table.modify id m).2, t.declared.apply (.modify id m)⟩)

def remove (t : Registered T) (id : Int) : Except TableError Unit × Registered T :=
  ((t.table.remove id).1, ⟨(t.table.remove id).2, t.declared.apply (.remove id)⟩)

def allocBlob (t : Registered T) (bytes : Bytes) : BlobRef × Registered T :=
  ((t.table.allocBlob bytes).1, ⟨(t.table.allocBlob bytes).2, t.declared.apply (.allocBlob bytes)⟩)

def reallocBlob (t : Registered T) (old : BlobRef) (bytes : Bytes) : BlobRef × Registered T :=
  ((t.table.reallocBlob old bytes).1,
    ⟨(t.table.reallocBlob old bytes).2, t.declared.apply (.reallocBlob old bytes)⟩)

def freeBlob (t : Registered T) (r : BlobRef) : Registered T :=
  ⟨t.table.freeBlob r, t.declared.apply (.freeBlob r)⟩

def startUndoSession (t : Registered T) : Registered T := ⟨t.table.startUndoSession, t.declared⟩

def undo (t : Registered T) : Registered T := ⟨t.table.undo, t.declared.undo⟩

def squash (t : Registered T) : Registered T := ⟨t.table.squash, t.declared.squash⟩

def commit (t : Registered T) (revision : Int) : Registered T :=
  ⟨t.table.commit revision, t.declared⟩

def get (t : Registered T) (id : Int) : Except TableError T :=
  (t.table.find id).elim (.error (.notFound (typeName T) id)) .ok

section Index

variable (t : Registered T) (decl : IndexedBy T) [at' : DeclaredIndex T decl]

theorem decl_eq {ix : KeyIndex T} (held : t.table.secondaries[at'.pos]? = some ix) :
    ix.decl = decl := by
  have declared := congrArg (fun l => l[at'.pos]?) t.declared
  rw [getElem?_map, held, at'.found] at declared
  exact Option.some.inj declared

def index : decl.Entries :=
  match held : t.table.secondaries[at'.pos]? with
  | some ix => (t.decl_eq decl held) ▸ ix.map
  | none => ∅

def findBy (k : decl.Key) : Option T := (t.index decl)[k]?.bind t.table.find

variable {t} {decl}

/-- What holds of every index of the table holds of the one that is named. -/
theorem index_of_all {p : (decl : IndexedBy T) → decl.Entries → Prop}
    (all : ∀ ix ∈ t.table.secondaries, p ix.decl ix.map) : p decl (t.index decl) := by
  unfold index
  split
  · next ix held =>
    have named := t.decl_eq decl held
    subst named
    exact all ix (mem_of_getElem? held)
  · next missing =>
    have declared := congrArg (fun l => l[at'.pos]?) t.declared
    rw [getElem?_map, missing, at'.found] at declared
    cases declared

theorem index_exact (sound : t.table.Sound) :
    IndexedBy.Exact (t.index decl) t.table.primary.get :=
  index_of_all (p := fun _ entries => IndexedBy.Exact entries t.table.primary.get)
    fun ix member => sound.indexed.exact ix member

theorem index_literal (literal : t.table.Literal) :
    IndexedBy.Literal (t.index decl) t.table.primary.get :=
  index_of_all (p := fun _ entries => IndexedBy.Literal entries t.table.primary.get)
    fun ix member => literal ix member

theorem findBy_eq_some_iff (sound : t.table.Sound) {k : decl.Key} {row : T} :
    t.findBy decl k = some row ↔ ∃ n, t.table.primary.get n = some row ∧ decl.Matches row k := by
  have exact : IndexedBy.Exact (t.index decl) t.table.primary.get := index_exact sound
  unfold findBy
  rw [Option.bind_eq_some_iff]
  constructor
  · rintro ⟨id, found, held⟩
    obtain ⟨n, other, rfl, live, same⟩ := (exact k id).mp found
    have here : some other = some row := live.symm.trans held
    exact ⟨n, held, Option.some.inj here ▸ same⟩
  · rintro ⟨n, live, same⟩
    exact ⟨n, (exact k n).mpr ⟨n, row, rfl, live, same⟩, live⟩

theorem findBy_eq_none_iff (sound : t.table.Sound) {k : decl.Key} :
    t.findBy decl k = none ↔ ∀ n row, t.table.primary.get n = some row → ¬decl.Matches row k := by
  rw [Option.eq_none_iff_forall_ne_some]
  constructor
  · intro absent n row live same
    exact absent row ((findBy_eq_some_iff sound).mpr ⟨n, live, same⟩)
  · intro apart row found
    obtain ⟨n, live, same⟩ := (findBy_eq_some_iff sound).mp found
    exact apart n row live same

theorem index_eq {u : Registered T} (sound : t.table.Sound) (literal : t.table.Literal)
    (sound' : u.table.Sound) (literal' : u.table.Literal)
    (same : u.table.primary.get = t.table.primary.get) : u.index decl = t.index decl := by
  have exact' : IndexedBy.Exact (u.index decl) u.table.primary.get := index_exact sound'
  have literalIndex' : IndexedBy.Literal (u.index decl) u.table.primary.get :=
    index_literal literal'
  rw [same] at exact' literalIndex'
  exact IndexedBy.Literal.eq literalIndex' exact' (index_literal literal) (index_exact sound)

end Index

end Registered

namespace Table

variable {T : Type} [ArenaObject T] {t : Table T} {s : RowStore T}

/-- What an insertion does: refused without a trace, or one row more. -/
theorem Refines.emplace (refines : t.Refines s) (f : T → T) :
    (∃ name, clash s.rows.get s.rows.len (constructed s.rows.len f) = some name ∧
      t.emplace f = (.error (.uniquenessViolation (typeName T) name), t)) ∨
    (clash s.rows.get s.rows.len (constructed s.rows.len f) = none ∧
      (t.emplace f).1 = .ok (constructed s.rows.len f) ∧
      (t.emplace f).2.Refines { s with rows := s.rows.push (constructed s.rows.len f) }) := by
  obtain ⟨sound, rfl⟩ := refines
  obtain refused | ⟨verdict, _, result⟩ := emplace_cases sound f
  · exact .inl refused
  · refine .inr ⟨verdict, congrArg Prod.fst result, ?_⟩
    have refined := emplace_refines sound f
    rw [RowStore.emplace_free verdict] at refined
    exact refined

/-- What a modification of a live row does when the row keeps its id: refused with the
rows as before, or the row replaced. -/
theorem Refines.modify (refines : t.Refines s) {slot : Nat} {current : T} (m : T → T)
    (held : s.rows.get slot = some current) (named : ArenaObject.id (m current) = slot) :
    (∃ name, clash s.rows.get slot (m current) = some name ∧
      (t.modify slot m).1 = .error (.uniquenessViolation (typeName T) name) ∧
      (t.modify slot m).2.Refines s) ∨
    (clash s.rows.get slot (m current) = none ∧ (t.modify slot m).1 = .ok () ∧
      (t.modify slot m).2.Refines
        { s with rows := s.rows.set slot (m current) (Slab.lt_of_get held) }) := by
  obtain ⟨sound, rfl⟩ := refines
  have modified := sound.modify_cases slot m
  generalize raw : (slot : Int) = id at modified ⊢
  generalize t.modify id m = result at modified ⊢
  cases modified with
  | missing absent =>
    rw [← raw] at absent
    cases absent.symm.trans held
  | renamed other renamed =>
    obtain rfl := Int.ofNat.inj raw
    cases other.symm.trans held
    exact absurd named renamed
  | clashed other _ clashes indexed =>
    obtain rfl := Int.ofNat.inj raw
    cases other.symm.trans held
    exact .inl ⟨_, clashes, rfl, sound.refines_of_rows rfl indexed rfl rfl rfl⟩
  | replaced other _ free indexed =>
    obtain rfl := Int.ofNat.inj raw
    cases other.symm.trans held
    exact .inr ⟨free, rfl, replace_refines sound other named indexed⟩

theorem Refines.remove (refines : t.Refines s) {slot : Nat} {row : T}
    (held : s.rows.get slot = some row) :
    (t.remove slot).1 = .ok () ∧ (t.remove slot).2.Refines { s with rows := s.rows.erase slot } := by
  obtain ⟨sound, rfl⟩ := refines
  have found : t.find (Int.ofNat slot) = some row := held
  refine ⟨?_, remove_refines sound slot⟩
  change (t.remove (Int.ofNat slot)).1 = _
  unfold Table.remove
  rw [found]

end Table

namespace Registered

variable {T : Type} [ArenaObject T] {t u : Registered T}

def loadFrom (bytes : Bytes) : Except TableError (Registered T) :=
  match read : (Table.new : Table T).loadFrom bytes with
  | (.ok _, t) => .ok ⟨t, (Table.loadFrom_ok read).1.indexed.decls⟩
  | (.error e, _) => .error e

/-- A sound table whose indices hold the keys of the rows bit for bit. -/
structure Faithful (t : Registered T) : Prop where
  sound : t.table.Sound
  literal : t.table.Literal

namespace Faithful

theorem new : (Registered.new : Registered T).Faithful :=
  ⟨Table.new_refines.sound, Table.literal_new⟩

section

variable (faithful : t.Faithful)

include faithful

theorem create (f : T → T) : (t.create f).2.Faithful :=
  ⟨(Table.emplace_refines faithful.sound f).sound, faithful.literal.emplace faithful.sound f⟩

theorem modify {id : Int} {m : T → T}
    (keeps : ∀ current, t.table.find id = some current → KeepsKeys current (m current)) :
    (t.modify id m).2.Faithful :=
  ⟨(Table.modify_refines faithful.sound id m).sound,
    faithful.literal.modify faithful.sound id m keeps⟩

theorem remove (id : Int) : (t.remove id).2.Faithful :=
  ⟨(Table.remove_refines faithful.sound id).sound, faithful.literal.remove faithful.sound id⟩

theorem startUndoSession : t.startUndoSession.Faithful :=
  ⟨(Table.startUndoSession_refines faithful.sound).sound, faithful.literal⟩

theorem undo : t.undo.Faithful :=
  ⟨(Table.undo_refines faithful.sound).sound, faithful.literal.undo faithful.sound⟩

theorem squash : t.squash.Faithful :=
  ⟨(Table.squash_refines faithful.sound).sound, faithful.literal.squash⟩

theorem commit (revision : Int) : (t.commit revision).Faithful :=
  ⟨(Table.commit_refines faithful.sound revision).sound, faithful.literal⟩

end

end Faithful

structure Alike (t u : Registered T) : Prop where
  find : u.table.find = t.table.find
  index : ∀ (decl : IndexedBy T) [DeclaredIndex T decl], u.index decl = t.index decl

theorem Alike.findBy (alike : t.Alike u) (decl : IndexedBy T) [DeclaredIndex T decl]
    (k : decl.Key) : u.findBy decl k = t.findBy decl k := by
  unfold Registered.findBy
  rw [alike.index decl, alike.find]

theorem Faithful.alike (faithful : t.Faithful) (other : u.Faithful)
    (rows : u.table.primary.get = t.table.primary.get) : t.Alike u := by
  refine ⟨?_, ?_⟩
  · funext id
    cases id with
    | ofNat n => exact congrFun rows n
    | negSucc n => rfl
  · intro decl _
    exact index_eq faithful.sound faithful.literal other.sound other.literal rows

/-- A sound table comes back from its snapshot with its rows and literal indices. -/
theorem loadFrom_packInto (sound : t.table.Sound) (fits : t.table.Fits) :
    ∃ u : Registered T, loadFrom t.table.packInto = .ok u ∧ u.Faithful ∧
      u.table.primary.get = t.table.primary.get := by
  obtain ⟨v, read, loaded, _⟩ := Table.loadFrom_packInto sound fits
  have done : loadFrom t.table.packInto = .ok ⟨v, loaded.indexed.decls⟩ := by
    unfold loadFrom
    split
    · next other => cases read.symm.trans other; rfl
    · next other => cases read.symm.trans other
  refine ⟨_, done, ⟨?_, Table.literal_loadFrom read⟩,
    congrArg (fun s : Slab T => s.get) loaded.slab⟩
  exact {
    chain := by
      rw [loaded.undoStack, loaded.slab]
      exact sound.valid
    indexed := loaded.indexed
    counted := loaded.counted }

end Registered

end PulseVM.Arena
