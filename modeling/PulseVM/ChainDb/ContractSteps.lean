import PulseVM.ChainDb.Contract

/-!
What the contract calls do to the rows, said once: the database stands for the content of
its tables now and at the start of every open session. A call changes the content in
one of a few ways, and a session operation moves between contents.
-/

namespace PulseVM.ChainDb
open Arena Lib.Encoding Lib.Calls Lib.Calls.Call Lib.Undo
open ArenaObject hiding id
open ContractRow (byPrimary matches_iff fill rewrite id_rewrite)

structure Content where
  tables : Slab ContractTableRow
  rows : (f : Family) → Slab f.Row

namespace Content

def empty : Content := ⟨Slab.empty, fun _ => Slab.empty⟩

def withTables (c : Content) (tables : Slab ContractTableRow) : Content := { c with tables := tables }

def withRows (c : Content) (f : Family) (rows : Slab f.Row) : Content :=
  { c with rows := Function.update c.rows f rows }

@[simp] theorem rows_withRows_self (c : Content) (f : Family) (rows : Slab f.Row) :
    (c.withRows f rows).rows f = rows :=
  Function.update_self _ _ _

theorem rows_withRows_of_ne {f g : Family} (other : g ≠ f) (c : Content) (rows : Slab f.Row) :
    (c.withRows f rows).rows g = c.rows g :=
  Function.update_of_ne other _ _

structure TableAt (c : Content) (code scope table : UInt64) (n : Nat) (t : ContractTableRow) :
    Prop where
  live : c.tables.get n = some t
  code : t.code = code
  scope : t.scope = scope
  table : t.table = table

structure RowAt (c : Content) (f : Family) (tId : Int64) (primaryKey : UInt64) (n : Nat)
    (row : f.Row) : Prop where
  live : (c.rows f).get n = some row
  tId : ContractRow.tId row = tId
  primaryKey : ContractRow.primaryKey row = primaryKey

def newTable (c : Content) (code scope table payer : UInt64) : ContractTableRow :=
  ⟨c.tables.len, code, scope, table, payer, 0⟩

def newRow (c : Content) (f : Family) (tId : Int64) (primaryKey payer : UInt64)
    (stored : ContractRow.Stored f.Row) : f.Row :=
  Table.constructed (c.rows f).len (fill tId primaryKey payer stored)

end Content

/-- The content now and at the start of every open session, newest first. -/
structure History where
  now : Content
  saved : List Content
  revision : Int

namespace History

def moved (h : History) (c : Content) : History := { h with now := c }

def withTables (h : History) (tables : Slab ContractTableRow) : History :=
  { h with now := h.now.withTables tables }

def withRows (h : History) (f : Family) (rows : Slab f.Row) : History :=
  { h with now := h.now.withRows f rows }

/-- One kind of rows through the history, as a store with snapshots. -/
def store {T : Type} (part : Content → Slab T) (h : History) : RowStore T :=
  ⟨part h.now, h.saved.map part, h.revision⟩

def startUndoSession (h : History) : History := ⟨h.now, h.now :: h.saved, h.revision + 1⟩

def undo (h : History) : History :=
  match h.saved with
  | [] => h
  | first :: rest => ⟨first, rest, h.revision - 1⟩

def squash (h : History) : History :=
  match h.saved with
  | [] => h
  | _ :: rest => ⟨h.now, rest, h.revision - 1⟩

/-- How many of the oldest sessions a commit up to `revision` makes permanent. -/
def commitCount (h : History) (revision : Int) : Nat :=
  let revision := min revision h.revision
  if revision = h.revision then h.saved.length
  else if h.revision - revision < h.saved.length then
    h.saved.length - (h.revision - revision).toNat
  else 0

def commit (h : History) (revision : Int) : History :=
  { h with saved := h.saved.take (h.saved.length - h.commitCount revision) }

section Store

variable {T : Type} (part : Content → Slab T) (h : History)

theorem store_undo : h.undo.store part = (h.store part).undo := by
  obtain ⟨now, saved, revision⟩ := h
  cases saved <;> rfl

theorem store_squash : h.squash.store part = (h.store part).squash := by
  obtain ⟨now, saved, revision⟩ := h
  cases saved <;> rfl

variable [ArenaObject T] {part h} {t : Table T}

theorem startUndoSession_refines (refines : t.Refines (h.store part)) :
    t.startUndoSession.Refines (h.startUndoSession.store part) := by
  have opened := Table.startUndoSession_refines refines.sound
  rw [refines.view] at opened
  exact opened

theorem undo_refines (refines : t.Refines (h.store part)) :
    t.undo.Refines (h.undo.store part) := by
  have undone := Table.undo_refines refines.sound
  rw [refines.view] at undone
  rw [store_undo]
  exact undone

theorem squash_refines (refines : t.Refines (h.store part)) :
    t.squash.Refines (h.squash.store part) := by
  have squashed := Table.squash_refines refines.sound
  rw [refines.view] at squashed
  rw [store_squash]
  exact squashed

theorem commit_refines (refines : t.Refines (h.store part)) (revision : Int) :
    (t.commit revision).Refines ((h.commit revision).store part) := by
  have committed := Table.commit_refines refines.sound revision
  have depth : t.undoStack.length = h.saved.length := by
    have saved := congrArg (fun s : RowStore T => s.saved.length) refines.view
    simpa [Table.view, store, length_saved] using saved
  have current : t.revision = h.revision := congrArg RowStore.revision refines.view
  have count : t.commitCount revision = h.commitCount revision := by
    unfold Table.commitCount commitCount
    rw [depth, current]
  rw [refines.view, depth, count] at committed
  unfold commit store RowStore.keep at *
  rw [List.map_take]
  exact committed

end Store

end History

/-- Every table of the database is sound and holds its part of the history. -/
structure ContractDb.Stands (db : ContractDb) (h : History) : Prop where
  tables : db.tables.table.Refines (h.store Content.tables)
  rows : ∀ f, (db.rows f).table.Refines (h.store (·.rows f))

namespace ContractDb.Stands

variable {db : ContractDb} {h : History}

theorem new : ContractDb.new.Stands ⟨Content.empty, [], 0⟩ where
  tables := Table.new_refines
  rows _ := Table.new_refines

section

variable (stands : db.Stands h)

include stands

theorem get_tables :
    db.tables.table.primary.get = h.now.tables.get :=
  congrArg (fun s : RowStore ContractTableRow => s.rows.get) stands.tables.view

theorem get_rows (f : Family) :
    (db.rows f).table.primary.get = (h.now.rows f).get :=
  congrArg (fun s : RowStore f.Row => s.rows.get) (stands.rows f).view

theorem id_table {n : Nat} {t : ContractTableRow}
    (live : h.now.tables.get n = some t) : t.id = n :=
  stands.tables.sound.named (by rw [stands.get_tables]; exact live)

theorem id_row {f : Family} {n : Nat} {row : f.Row}
    (live : (h.now.rows f).get n = some row) : ArenaObject.id row = n :=
  (stands.rows f).sound.named (by rw [stands.get_rows]; exact live)

theorem withTables {t : Registered ContractTableRow}
    {tables : Slab ContractTableRow}
    (refines : t.table.Refines { h.store Content.tables with rows := tables }) :
    ContractDb.Stands { db with tables := t } (h.withTables tables) where
  tables := refines
  rows := stands.rows

theorem withRows {f : Family} {t : Registered f.Row} {rows : Slab f.Row}
    (refines : t.table.Refines { h.store (·.rows f) with rows := rows }) :
    ContractDb.Stands { db with rows := Function.update db.rows f t } (h.withRows f rows) where
  tables := stands.tables
  rows g := by
    have here : (h.withRows f rows).store (·.rows g) =
        { h.store (·.rows g) with rows := Function.update h.now.rows f rows g } := rfl
    rw [here]
    dsimp only
    by_cases same : g = f
    · subst same
      rw [Function.update_self, Function.update_self]
      exact refines
    · rw [Function.update_of_ne same, Function.update_of_ne same]
      exact stands.rows g

theorem startUndoSession :
    db.startUndoSession.Stands h.startUndoSession where
  tables := History.startUndoSession_refines stands.tables
  rows f := History.startUndoSession_refines (stands.rows f)

theorem undo : db.undo.Stands h.undo where
  tables := History.undo_refines stands.tables
  rows f := History.undo_refines (stands.rows f)

theorem squash : db.squash.Stands h.squash where
  tables := History.squash_refines stands.tables
  rows f := History.squash_refines (stands.rows f)

theorem commit (revision : Int) :
    (db.commit revision).Stands (h.commit revision) where
  tables := History.commit_refines stands.tables revision
  rows f := History.commit_refines (stands.rows f) revision

end

end ContractDb.Stands

theorem toInt_ofInt {n : Nat} (small : n < 2 ^ 63) : (Int64.ofInt n).toInt = n :=
  Int64.toInt_ofInt_of_le (by omega) (by omega)

theorem slot_unique {T : Type} [ArenaObject T] {t : Registered T} (sound : t.table.Sound)
    (decl : IndexedBy T) [DeclaredIndex T decl] (k : decl.Key) {n m : Nat} {row other : T}
    (here : t.table.primary.get n = some row) (matchesHere : decl.Matches row k)
    (there : t.table.primary.get m = some other) (matchesThere : decl.Matches other k) :
    n = m ∧ row = other := by
  have first := (Registered.findBy_eq_some_iff sound).mpr ⟨n, here, matchesHere⟩
  have second := (Registered.findBy_eq_some_iff sound).mpr ⟨m, there, matchesThere⟩
  have same : row = other := Option.some.inj (first.symm.trans second)
  have named : ArenaObject.id row = n := sound.named here
  rw [same, sound.named there] at named
  exact ⟨(Int.ofNat.inj named).symm, same⟩

namespace Content

variable {db : ContractDb} {h : History} {code scope table primaryKey : UInt64} {f : Family}
  {tId : Int64} {n m : Nat}

theorem TableAt.unique {t u : ContractTableRow} (here : h.now.TableAt code scope table n t)
    (stands : db.Stands h) (there : h.now.TableAt code scope table m u) : n = m ∧ t = u := by
  apply slot_unique stands.tables.sound ContractTableRow.byCodeScopeTable (code, scope, table)
  · rw [stands.get_tables]
    exact here.live
  · exact ContractTableRow.matches_iff.mpr ⟨here.code, here.scope, here.table⟩
  · rw [stands.get_tables]
    exact there.live
  · exact ContractTableRow.matches_iff.mpr ⟨there.code, there.scope, there.table⟩

theorem RowAt.unique {row other : f.Row} (here : h.now.RowAt f tId primaryKey n row)
    (stands : db.Stands h) (there : h.now.RowAt f tId primaryKey m other) :
    n = m ∧ row = other := by
  apply slot_unique (stands.rows f).sound (byPrimary f.Row) (tId, primaryKey)
  · rw [stands.get_rows]
    exact here.live
  · exact matches_iff.mpr ⟨here.tId, here.primaryKey⟩
  · rw [stands.get_rows]
    exact there.live
  · exact matches_iff.mpr ⟨there.tId, there.primaryKey⟩

end Content

theorem History.withRows_self (h : History) (f : Family) : h.withRows f (h.now.rows f) = h := by
  unfold History.withRows Content.withRows
  rw [Function.update_eq_self]

namespace ContractCall

variable {db : ContractDb} {h : History} {code scope table payer primaryKey : UInt64}
  {f : Family} {tId : Int64} {n : Nat} {t : ContractTableRow}

section

variable (stands : db.Stands h)

include stands

theorem findTable_cases (code scope table : UInt64) :
    (∃ n t, h.now.TableAt code scope table n t ∧
      findTable code scope table db = (.ok (some t), db)) ∨
    ((∀ n t, ¬h.now.TableAt code scope table n t) ∧
      findTable code scope table db = (.ok none, db)) := by
  have sound := stands.tables.sound
  unfold findTable Call.read
  dsimp only
  cases found : db.tables.findBy ContractTableRow.byCodeScopeTable (code, scope, table) with
  | some t =>
    obtain ⟨n, live, same⟩ := (Registered.findBy_eq_some_iff sound).mp found
    rw [stands.get_tables] at live
    obtain ⟨hasCode, hasScope, hasTable⟩ := ContractTableRow.matches_iff.mp same
    exact .inl ⟨n, t, ⟨live, hasCode, hasScope, hasTable⟩, rfl⟩
  | none =>
    refine .inr ⟨?_, rfl⟩
    intro n t here
    have apart := (Registered.findBy_eq_none_iff sound).mp found n t
      (by rw [stands.get_tables]; exact here.live)
    exact apart (ContractTableRow.matches_iff.mpr ⟨here.code, here.scope, here.table⟩)

theorem findRow_cases (f : Family) (tId : Int64) (primaryKey : UInt64) :
    (∃ n row, h.now.RowAt f tId primaryKey n row ∧
      findRow f tId primaryKey db = (.ok (some row), db)) ∨
    ((∀ n row, ¬h.now.RowAt f tId primaryKey n row) ∧
      findRow f tId primaryKey db = (.ok none, db)) := by
  have sound := (stands.rows f).sound
  unfold findRow Call.read
  dsimp only
  cases found : (db.rows f).findBy (byPrimary f.Row) (tId, primaryKey) with
  | some row =>
    obtain ⟨n, live, same⟩ := (Registered.findBy_eq_some_iff sound).mp found
    rw [stands.get_rows] at live
    obtain ⟨hasTable, hasKey⟩ := matches_iff.mp same
    exact .inl ⟨n, row, ⟨live, hasTable, hasKey⟩, rfl⟩
  | none =>
    refine .inr ⟨?_, rfl⟩
    intro n row here
    have apart := (Registered.findBy_eq_none_iff sound).mp found n row
      (by rw [stands.get_rows]; exact here.live)
    exact apart (matches_iff.mpr ⟨here.tId, here.primaryKey⟩)

theorem contractTableOid_cases (code scope table payer : UInt64) :
    (∃ n t, h.now.TableAt code scope table n t ∧
      contractTableOid code scope table payer db = (.ok (Int64.ofInt n), db)) ∨
    ((∀ n t, ¬h.now.TableAt code scope table n t) ∧ ∃ db' : ContractDb,
      contractTableOid code scope table payer db =
        (.ok (Int64.ofInt h.now.tables.len), db') ∧
      db'.Stands (h.withTables (h.now.tables.push (h.now.newTable code scope table payer)))) := by
  unfold contractTableOid
  rcases findTable_cases stands code scope table with ⟨n, t, here, found⟩ | ⟨absent, found⟩
  · refine .inl ⟨n, t, here, ?_⟩
    rw [bind_ok found]
    dsimp only
    rw [stands.id_table here.live]
    rfl
  · refine .inr ⟨absent, ?_⟩
    rw [bind_ok found]
    dsimp only
    have free : clash h.now.tables.get h.now.tables.len (h.now.newTable code scope table payer) =
        none := by
      rw [clash_eq_none_iff]
      intro decl member
      rw [List.mem_singleton.mp member]
      rintro ⟨m, row, _, live, same⟩
      obtain ⟨hasCode, hasScope, hasTable⟩ := ContractTableRow.matches_iff.mp same
      exact absent m row ⟨live, hasCode, hasScope, hasTable⟩
    rcases stands.tables.emplace fun t : ContractTableRow =>
        { t with code := code, scope := scope, table := table, payer := payer, count := 0 } with
      ⟨name, clashes, _⟩ | ⟨_, verdict, refines⟩
    · exact absurd (free.symm.trans clashes) (by simp)
    · have stored : onTables (·.create fun t : ContractTableRow =>
          { t with code := code, scope := scope, table := table, payer := payer, count := 0 }) db =
          (.ok (h.now.newTable code scope table payer), _) :=
        Prod.ext verdict rfl
      rw [bind_ok stored]
      exact ⟨_, rfl, stands.withTables refines⟩

theorem setCount (live : h.now.tables.get n = some t) (small : n < 2 ^ 63)
    (count : UInt32 → UInt32) :
    ∃ db' : ContractDb,
      onTables (·.modify (Int64.ofInt n).toInt fun t => { t with count := count t.count }) db =
        (.ok (), db') ∧
      db'.Stands (h.withTables
        (h.now.tables.set n { t with count := count t.count } (Slab.lt_of_get live))) := by
  rw [toInt_ofInt small]
  have named : t.id = n := stands.id_table live
  have distinct := stands.tables.sound.valid.distinct n t
    (by rw [PagedPrimary.slab_get, stands.get_tables]; exact live)
  rcases stands.tables.modify (fun t : ContractTableRow => { t with count := count t.count }) live
      named with ⟨name, clashes, _⟩ | ⟨_, verdict, refines⟩
  · have same : clash h.now.tables.get n t = none := by
      rw [← stands.get_tables]
      exact distinct
    rw [clash_eq_none_iff] at same
    have free : clash h.now.tables.get n { t with count := count t.count } = none := by
      rw [clash_eq_none_iff]
      intro decl member
      have apart := same decl member
      rw [List.mem_singleton.mp member] at apart ⊢
      exact apart
    exact absurd (free.symm.trans clashes) (by simp)
  · exact ⟨_, Prod.ext verdict rfl, stands.withTables refines⟩

def decremented (tables : Slab ContractTableRow) (n : Nat) (t : ContractTableRow)
    (live : tables.get n = some t) : Slab ContractTableRow :=
  if saturatingPred t.count = 0 then tables.erase n
  else tables.set n { t with count := saturatingPred t.count } (Slab.lt_of_get live)

theorem contractTableDecr_ok (live : h.now.tables.get n = some t)
    (small : n < 2 ^ 63) : ∃ db' : ContractDb, contractTableDecr (Int64.ofInt n) db = (.ok (), db') ∧
      db'.Stands (h.withTables (decremented h.now.tables n t live)) := by
  obtain ⟨counted, first, standsCounted⟩ := setCount stands live small saturatingPred
  unfold contractTableDecr
  rw [bind_ok first]
  have held : (h.withTables (h.now.tables.set n { t with count := saturatingPred t.count }
      (Slab.lt_of_get live))).now.tables.get n = some { t with count := saturatingPred t.count } :=
    if_pos rfl
  have found : counted.tables.get (Int64.ofInt n).toInt =
      .ok { t with count := saturatingPred t.count } := by
    have here : counted.tables.table.find (n : Int) =
        some { t with count := saturatingPred t.count } :=
      (congrFun standsCounted.get_tables n).trans held
    rw [toInt_ofInt small, Registered.get, here]
    rfl
  have second : onTables (fun t => (t.get (Int64.ofInt n).toInt, t)) counted =
      (.ok { t with count := saturatingPred t.count }, counted) := Prod.ext found rfl
  rw [bind_ok second]
  unfold decremented
  split
  · obtain ⟨verdict, refines⟩ := standsCounted.tables.remove held
    have moved : ContractDb.Stands { counted with tables := (counted.tables.remove n).2 }
        (h.withTables ((h.now.tables.set n { t with count := saturatingPred t.count }
          (Slab.lt_of_get live)).erase n)) := standsCounted.withTables refines
    rw [Slab.erase_set] at moved
    refine ⟨_, Prod.ext (by rw [toInt_ofInt small]; exact verdict) rfl, ?_⟩
    rw [toInt_ofInt small]
    exact moved
  · exact ⟨counted, rfl, standsCounted⟩

/-- What is stored for a value: a blob of its length, or the key itself. -/
def Stores : (f : Family) → f.Value → ContractRow.Stored f.Row → Prop
  | .primary, value, (stored : BlobRef) => stored.len = UInt32.ofNat value.length
  | .idx64, key, stored => stored = key
  | .idx128, key, stored => stored = key
  | .idx256, key, stored => stored = key
  | .idxDouble, bits, stored => stored = bits
  | .idxLongDouble, words, stored => stored = words

theorem stands_blobs {t : Registered f.Row}
    (refines : t.table.Refines (db.rows f).table.view) :
    ContractDb.Stands { db with rows := Function.update db.rows f t } h := by
  rw [(stands.rows f).view] at refines
  have moved : ContractDb.Stands { db with rows := Function.update db.rows f t }
      (h.withRows f (h.now.rows f)) := stands.withRows refines
  rw [History.withRows_self] at moved
  exact moved

theorem store_ok (f : Family) (value : f.Value) :
    ∃ stored, ∃ db' : ContractDb, store f value db = (.ok stored, db') ∧ db'.Stands h ∧
      Stores f value stored := by
  cases f with
  | primary =>
    exact ⟨_, _, rfl, stands_blobs stands (Table.allocBlob_refines (stands.rows .primary).sound value),
      Table.len_allocBlob _ value⟩
  | idx64 | idx128 | idx256 | idxDouble | idxLongDouble => exact ⟨value, db, rfl, stands, rfl⟩

theorem restore_ok (f : Family) (row : f.Row) (value : f.Value) :
    ∃ stored, ∃ db' : ContractDb, restore f row value db = (.ok stored, db') ∧ db'.Stands h ∧
      Stores f value stored := by
  cases f with
  | primary =>
    have freed := Table.freeBlob_refines (stands.rows .primary).sound
      (ContractKeyValueRow.value row)
    have stored := Table.allocBlob_refines freed.sound value
    rw [freed.view] at stored
    exact ⟨_, _, rfl, stands_blobs stands stored, Table.len_allocBlob _ value⟩
  | idx64 | idx128 | idx256 | idxDouble | idxLongDouble => exact ⟨value, db, rfl, stands, rfl⟩

theorem release_ok (f : Family) (row : f.Row) :
    ∃ db' : ContractDb, release f row db = (.ok (), db') ∧ db'.Stands h := by
  cases f with
  | primary =>
    exact ⟨_, rfl, stands_blobs stands (Table.freeBlob_refines (stands.rows .primary).sound _)⟩
  | idx64 | idx128 | idx256 | idxDouble | idxLongDouble => exact ⟨db, rfl, stands⟩

def firstTable (c : Content) (code scope table payer : UInt64) : ContractTableRow :=
  { c.newTable code scope table payer with count := 1 }

/-- What storing a row does to the content. A refused row leaves the table that was made
for it behind. -/
inductive Created (c : Content) (f : Family) (code scope table payer primaryKey : UInt64)
    (value : f.Value) : Except TableError Unit → Content → Prop
  | refused {n t name stored} (here : c.TableAt code scope table n t)
      (stores : Stores f value stored)
      (clashes : clash (c.rows f).get (c.rows f).len
        (c.newRow f (Int64.ofInt n) primaryKey payer stored) = some name) :
      Created c f code scope table payer primaryKey value
        (.error (.uniquenessViolation (typeName f.Row) name)) c
  | under {n t stored} (here : c.TableAt code scope table n t) (stores : Stores f value stored)
      (free : clash (c.rows f).get (c.rows f).len
        (c.newRow f (Int64.ofInt n) primaryKey payer stored) = none) :
      Created c f code scope table payer primaryKey value (.ok ())
        ((c.withRows f ((c.rows f).push (c.newRow f (Int64.ofInt n) primaryKey payer stored))).withTables
          (c.tables.set n { t with count := t.count + 1 } (Slab.lt_of_get here.live)))
  | orphan {name stored} (absent : ∀ n t, ¬c.TableAt code scope table n t)
      (stores : Stores f value stored)
      (clashes : clash (c.rows f).get (c.rows f).len
        (c.newRow f (Int64.ofInt c.tables.len) primaryKey payer stored) = some name) :
      Created c f code scope table payer primaryKey value
        (.error (.uniquenessViolation (typeName f.Row) name))
        (c.withTables (c.tables.push (c.newTable code scope table payer)))
  | first {stored} (absent : ∀ n t, ¬c.TableAt code scope table n t)
      (stores : Stores f value stored)
      (free : clash (c.rows f).get (c.rows f).len
        (c.newRow f (Int64.ofInt c.tables.len) primaryKey payer stored) = none) :
      Created c f code scope table payer primaryKey value (.ok ())
        ((c.withRows f ((c.rows f).push
          (c.newRow f (Int64.ofInt c.tables.len) primaryKey payer stored))).withTables
          (c.tables.push (firstTable c code scope table payer)))

/-- The part of a creation that comes after the table is resolved. -/
def storeUnder (f : Family) (tId : Int64) (primaryKey payer : UInt64) (value : f.Value) :
    ContractCall Unit := do
  let stored ← store f value
  let _ ← onRows f (·.create (fill tId primaryKey payer stored))
  contractTableIncr tId

/-- Storing a row under a table that is there: refused without a trace, or one row more
in the family and one more on the count. -/
theorem storeUnder_spec (live : h.now.tables.get n = some t)
    (small : n < 2 ^ 63) (f : Family) (primaryKey payer : UInt64) (value : f.Value) :
    ∃ stored, ∃ db' : ContractDb, Stores f value stored ∧
      ((∃ name, clash (h.now.rows f).get (h.now.rows f).len
            (h.now.newRow f (Int64.ofInt n) primaryKey payer stored) = some name ∧
          storeUnder f (Int64.ofInt n) primaryKey payer value db =
            (.error (.uniquenessViolation (typeName f.Row) name), db') ∧ db'.Stands h) ∨
        (clash (h.now.rows f).get (h.now.rows f).len
            (h.now.newRow f (Int64.ofInt n) primaryKey payer stored) = none ∧
          storeUnder f (Int64.ofInt n) primaryKey payer value db = (.ok (), db') ∧
          db'.Stands ((h.withRows f ((h.now.rows f).push
            (h.now.newRow f (Int64.ofInt n) primaryKey payer stored))).withTables
            (h.now.tables.set n { t with count := t.count + 1 } (Slab.lt_of_get live))))) := by
  obtain ⟨stored, prepared, done, standsPrepared, stores⟩ := store_ok stands f value
  refine ⟨stored, ?_⟩
  unfold storeUnder
  rw [bind_ok done]
  rcases (standsPrepared.rows f).emplace
      (fill (Int64.ofInt n) primaryKey payer stored) with
    ⟨name, clashes, refused⟩ | ⟨free, verdict, refines⟩
  · have failed : onRows f (·.create (fill (Int64.ofInt n) primaryKey payer stored))
        prepared = (.error (.uniquenessViolation (typeName f.Row) name), prepared) := by
      have kept := Registered.create_refused refused
      unfold onRows
      dsimp only
      rw [kept, Function.update_eq_self]
    rw [bind_error failed]
    exact ⟨prepared, stores, .inl ⟨name, clashes, rfl, standsPrepared⟩⟩
  · have pushed : onRows f (·.create (fill (Int64.ofInt n) primaryKey payer stored))
        prepared = (.ok (h.now.newRow f (Int64.ofInt n) primaryKey payer stored), _) :=
      Prod.ext verdict rfl
    have standsPushed := standsPrepared.withRows
      (t := ((prepared.rows f).create (fill (Int64.ofInt n) primaryKey payer stored)).2)
      refines
    obtain ⟨db', counted, standsCounted⟩ := setCount standsPushed live small (· + 1)
    rw [bind_ok pushed]
    exact ⟨db', stores, .inr ⟨free, counted, standsCounted⟩⟩

theorem createObject_spec (small : h.now.tables.len < 2 ^ 63) (f : Family)
    (code scope table payer primaryKey : UInt64) (value : f.Value) :
    ∃ verdict, ∃ db' : ContractDb, ∃ c,
      createObject f code scope table payer primaryKey value db = (verdict, db') ∧
      db'.Stands (h.moved c) ∧
      Created h.now f code scope table payer primaryKey value verdict c := by
  unfold createObject
  rcases contractTableOid_cases stands code scope table payer with
    ⟨n, t, here, found⟩ | ⟨absent, opened, found, standsOpened⟩
  · rw [bind_ok found]
    obtain ⟨stored, db', stores, ⟨name, clashes, refused, standsRefused⟩ | ⟨free, done, standsDone⟩⟩ :=
      storeUnder_spec stands here.live ((Slab.lt_of_get here.live).trans small) f primaryKey payer
        value
    · exact ⟨_, db', h.now, refused, standsRefused, .refused here stores clashes⟩
    · exact ⟨_, db', _, done, standsDone, .under here stores free⟩
  · rw [bind_ok found]
    obtain ⟨stored, db', stores, ⟨name, clashes, refused, standsRefused⟩ | ⟨free, done, standsDone⟩⟩ :=
      storeUnder_spec standsOpened (if_pos rfl) small f primaryKey payer value
    · exact ⟨_, db', _, refused, standsRefused, .orphan absent stores clashes⟩
    · refine ⟨_, db', _, done, ?_, .first absent stores free⟩
      change db'.Stands (((h.withTables _).withRows f _).withTables
        (Slab.set (h.now.tables.push (h.now.newTable code scope table payer)) h.now.tables.len
          (firstTable h.now code scope table payer) _)) at standsDone
      rw [Slab.set_push] at standsDone
      exact standsDone

end

/-- No row with this key is stored under the table. -/
def Missing (c : Content) (f : Family) (code scope table primaryKey : UInt64) : Prop :=
  ∀ n t, c.TableAt code scope table n t → ∀ m row, ¬c.RowAt f (Int64.ofInt n) primaryKey m row

inductive Updated (c : Content) (f : Family) (code scope table primaryKey payer : UInt64)
    (value : f.Value) : Except TableError Unit → Content → Prop
  | missing (gone : Missing c f code scope table primaryKey) :
      Updated c f code scope table primaryKey payer value (.ok ()) c
  | refused {n t m row name stored} (here : c.TableAt code scope table n t)
      (found : c.RowAt f (Int64.ofInt n) primaryKey m row) (stores : Stores f value stored)
      (clashes : clash (c.rows f).get m (rewrite payer stored row) = some name) :
      Updated c f code scope table primaryKey payer value
        (.error (.uniquenessViolation (typeName f.Row) name)) c
  | rewritten {n t m row stored} (here : c.TableAt code scope table n t)
      (found : c.RowAt f (Int64.ofInt n) primaryKey m row) (stores : Stores f value stored)
      (free : clash (c.rows f).get m (rewrite payer stored row) = none) :
      Updated c f code scope table primaryKey payer value (.ok ())
        (c.withRows f ((c.rows f).set m (rewrite payer stored row)
          (Slab.lt_of_get found.live)))

inductive Removed (c : Content) (f : Family) (code scope table primaryKey : UInt64) :
    Except TableError Unit → Content → Prop
  | missing (gone : Missing c f code scope table primaryKey) :
      Removed c f code scope table primaryKey (.ok ()) c
  | removed {n t m row} (here : c.TableAt code scope table n t)
      (found : c.RowAt f (Int64.ofInt n) primaryKey m row) :
      Removed c f code scope table primaryKey (.ok ())
        ((c.withRows f ((c.rows f).erase m)).withTables (decremented c.tables n t here.live))

theorem missing_of_absent {c : Content} (absent : ∀ n t, ¬c.TableAt code scope table n t) :
    Missing c f code scope table primaryKey :=
  fun n t here => absurd here (absent n t)

theorem missing_of_no_row (stands : db.Stands h) (here : h.now.TableAt code scope table n t)
    (gone : ∀ m row, ¬h.now.RowAt f (Int64.ofInt n) primaryKey m row) :
    Missing h.now f code scope table primaryKey := by
  intro other u there
  rw [← (here.unique stands there).1]
  exact gone

theorem updateObject_spec (stands : db.Stands h) (f : Family)
    (code scope table primaryKey payer : UInt64) (value : f.Value) :
    ∃ verdict, ∃ db' : ContractDb, ∃ c,
      updateObject f code scope table primaryKey payer value db = (verdict, db') ∧
      db'.Stands (h.moved c) ∧
      Updated h.now f code scope table primaryKey payer value verdict c := by
  unfold updateObject
  rcases findTable_cases stands code scope table with ⟨n, t, here, found⟩ | ⟨absent, found⟩
  · rw [bind_ok found]
    dsimp only
    rw [stands.id_table here.live]
    rcases findRow_cases stands f (Int64.ofInt n) primaryKey with
      ⟨m, row, at', located⟩ | ⟨none, located⟩
    · rw [bind_ok located]
      dsimp only
      obtain ⟨stored, prepared, done, standsPrepared, stores⟩ := restore_ok stands f row value
      rw [bind_ok done, stands.id_row at'.live]
      have named : ArenaObject.id (rewrite payer stored row) = m := by
        rw [id_rewrite, stands.id_row at'.live]
      rcases (standsPrepared.rows f).modify (rewrite payer stored) at'.live named with
        ⟨name, clashes, verdict, refines⟩ | ⟨free, verdict, refines⟩
      · refine ⟨_, _, h.now, Prod.ext verdict rfl, ?_, .refused here at' stores clashes⟩
        exact stands_blobs standsPrepared (by rw [(standsPrepared.rows f).view]; exact refines)
      · exact ⟨_, _, _, Prod.ext verdict rfl, standsPrepared.withRows refines,
          .rewritten here at' stores free⟩
    · rw [bind_ok located]
      exact ⟨_, db, h.now, rfl, stands, .missing (missing_of_no_row stands here none)⟩
  · rw [bind_ok found]
    exact ⟨_, db, h.now, rfl, stands, .missing (missing_of_absent absent)⟩

theorem removeObject_spec (stands : db.Stands h) (small : h.now.tables.len ≤ 2 ^ 63) (f : Family)
    (code scope table primaryKey : UInt64) :
    ∃ verdict, ∃ db' : ContractDb, ∃ c,
      removeObject f code scope table primaryKey db = (verdict, db') ∧
      db'.Stands (h.moved c) ∧ Removed h.now f code scope table primaryKey verdict c := by
  unfold removeObject
  rcases findTable_cases stands code scope table with ⟨n, t, here, found⟩ | ⟨absent, found⟩
  · rw [bind_ok found]
    dsimp only
    rw [stands.id_table here.live]
    rcases findRow_cases stands f (Int64.ofInt n) primaryKey with
      ⟨m, row, at', located⟩ | ⟨none, located⟩
    · rw [bind_ok located]
      dsimp only
      rw [stands.id_row at'.live]
      obtain ⟨verdict, refines⟩ := (stands.rows f).remove at'.live
      have standsErased := stands.withRows (t := ((db.rows f).remove m).2) refines
      have erased : onRows f (·.remove m) db =
          (.ok (), { db with rows := Function.update db.rows f ((db.rows f).remove m).2 }) :=
        Prod.ext verdict rfl
      rw [bind_ok erased]
      obtain ⟨freed, released, standsFreed⟩ := release_ok standsErased f row
      rw [bind_ok released]
      obtain ⟨db', counted, standsCounted⟩ := contractTableDecr_ok standsFreed here.live
        (lt_of_lt_of_le (Slab.lt_of_get here.live) small)
      exact ⟨_, db', _, counted, standsCounted, .removed here at'⟩
    · rw [bind_ok located]
      exact ⟨_, db, h.now, rfl, stands, .missing (missing_of_no_row stands here none)⟩
  · rw [bind_ok found]
    exact ⟨_, db, h.now, rfl, stands, .missing (missing_of_absent absent)⟩

/-- Contract rows rewritten one after the other. -/
inductive Rewritten : Content → Content → Prop
  | done (c : Content) : Rewritten c c
  | step {c c' : Content} {m : Nat} {row : ContractKeyValueRow} {value : Bytes} {stored : BlobRef}
      {payer : UInt64} (live : (c.rows .primary).get m = some row)
      (stores : Stores .primary value stored)
      (rest : Rewritten (c.withRows .primary ((c.rows .primary).set m
        (rewrite (T := ContractKeyValueRow) payer stored row) (Slab.lt_of_get live))) c') :
      Rewritten c c'

theorem resolve_state (update : ContractRowUpdate) (db : ContractDb) :
    (resolve update db).2 = db := by
  refine bind_after (p := (· = db)) (fun _ _ => rfl) fun found _ => ?_
  cases found with
  | none => rfl
  | some t =>
    refine bind_after (p := (· = db)) (fun _ _ => rfl) fun row _ => ?_
    cases row <;> rfl

theorem resolve_live (stands : db.Stands h) {update : ContractRowUpdate} {row : ContractKeyValueRow}
    (found : (resolve update db).1 = .ok row) :
    ∃ m : Nat, row.id = m ∧ (h.now.rows .primary).get m = some row := by
  unfold resolve at found
  rcases findTable_cases stands update.code update.scope update.table with
    ⟨n, t, here, first⟩ | ⟨_, first⟩
  · rw [bind_ok first] at found
    dsimp only at found
    rcases findRow_cases stands .primary (Int64.ofInt t.id) update.primaryKey with
      ⟨m, other, at', second⟩ | ⟨_, second⟩
    · rw [bind_ok second] at found
      have same : other = row := Except.ok.inj found
      exact ⟨m, same ▸ stands.id_row at'.live, same ▸ at'.live⟩
    · rw [bind_ok second] at found
      cases found
  · rw [bind_ok first] at found
    cases found

theorem mapM_resolve (stands : db.Stands h) (updates : List ContractRowUpdate) :
    (updates.mapM resolve db).2 = db ∧ ∀ rows, (updates.mapM resolve db).1 = .ok rows →
      ∀ row ∈ rows, ∃ m : Nat, row.id = m ∧ ((h.now.rows .primary).get m).isSome := by
  induction updates with
  | nil =>
    refine ⟨rfl, ?_⟩
    rintro rows ⟨⟩ row ⟨⟩
  | cons update rest ih =>
    rw [List.mapM_cons]
    have state := resolve_state update db
    rcases first : resolve update db with ⟨e | row, db'⟩
    · rw [first] at state
      rw [bind_error first]
      exact ⟨state, nofun⟩
    · rw [first] at state
      obtain ⟨m, named, live⟩ := resolve_live stands (congrArg Prod.fst first)
      rw [bind_ok first, show db' = db from state]
      rcases second : List.mapM resolve rest db with ⟨e | rows, db''⟩
      · rw [second] at ih
        rw [bind_error second]
        exact ⟨ih.1, nofun⟩
      · rw [second] at ih
        rw [bind_ok second]
        refine ⟨ih.1, ?_⟩
        rintro all ⟨⟩ other member
        rcases List.mem_cons.mp member with rfl | later
        · exact ⟨m, named, by rw [live]; rfl⟩
        · exact ih.2 rows rfl other later

theorem forM_rewriteRow (stands : db.Stands h) (work : List (ContractRowUpdate × ContractKeyValueRow))
    (live : ∀ p ∈ work, ∃ m : Nat, p.2.id = m ∧ ((h.now.rows .primary).get m).isSome) :
    ∃ verdict, ∃ db' : ContractDb, ∃ c,
      (work.forM fun (update, row) => rewriteRow update row) db = (verdict, db') ∧
      db'.Stands (h.moved c) ∧ Rewritten h.now c := by
  induction work generalizing db h with
  | nil => exact ⟨_, db, h.now, rfl, stands, .done _⟩
  | cons p rest ih =>
    obtain ⟨update, row⟩ := p
    obtain ⟨m, named, present⟩ := live _ List.mem_cons_self
    obtain ⟨current, held⟩ := Option.isSome_iff_exists.mp present
    have later := fun q member => live q (List.mem_cons_of_mem _ member)
    change ∃ verdict, ∃ db' : ContractDb, ∃ c, (rewriteRow update row >>= fun _ =>
      rest.forM fun (update, row) => rewriteRow update row) db = (verdict, db') ∧ _
    obtain ⟨stored, prepared, done, standsPrepared, stores⟩ :=
      restore_ok stands .primary row update.value
    have first : rewriteRow update row db = onRows .primary
        (·.modify row.id (rewrite update.payer stored)) prepared :=
      bind_ok done _
    rw [named] at first
    have kept : ArenaObject.id (rewrite update.payer stored current) = m := by
      rw [id_rewrite]
      exact stands.id_row held
    rcases (standsPrepared.rows .primary).modify (rewrite update.payer stored) held kept
      with ⟨name, _, verdict, refines⟩ | ⟨_, verdict, refines⟩
    · rw [bind_error (first.trans (Prod.ext verdict rfl))]
      refine ⟨_, _, h.now, rfl, ?_, .done _⟩
      exact stands_blobs standsPrepared (by rw [(standsPrepared.rows .primary).view]; exact refines)
    · rw [bind_ok (first.trans (Prod.ext verdict rfl))]
      have standsRewritten := standsPrepared.withRows
        (t := ((prepared.rows .primary).modify m (rewrite update.payer stored)).2) refines
      obtain ⟨last, db', c, ran, standsLast, rewritten⟩ := ih standsRewritten fun q member => by
        obtain ⟨k, named', present'⟩ := later q member
        refine ⟨k, named', ?_⟩
        change (Slab.get (Function.update h.now.rows .primary _ .primary) k).isSome
        rw [Function.update_self]
        exact Slab.isSome_set _ (Slab.lt_of_get held) present'
      exact ⟨last, db', c, ran, standsLast, .step held stores rewritten⟩

theorem updateKeyValueObjects_spec (stands : db.Stands h) (updates : List ContractRowUpdate) :
    ∃ verdict, ∃ db' : ContractDb, ∃ c, updateKeyValueObjects updates db = (verdict, db') ∧
      db'.Stands (h.moved c) ∧ Rewritten h.now c := by
  unfold updateKeyValueObjects
  obtain ⟨state, live⟩ := mapM_resolve stands updates
  rcases found : updates.mapM resolve db with ⟨e | rows, db'⟩
  · rw [found] at state
    rw [bind_error found, show db' = db from state]
    exact ⟨_, db, h.now, rfl, stands, .done _⟩
  · rw [found] at state live
    rw [bind_ok found, show db' = db from state]
    apply forM_rewriteRow stands
    intro p member
    exact live rows rfl p.2 (List.of_mem_zip member).2

end ContractCall

end PulseVM.ChainDb
