import PulseVM.ChainDb.Contract

/-!
Positioning reads in the secondary indices over floating-point keys. The order of these
indices takes both zeros for one key, and an index does not replace an entry whose key
compares equal. The bounds return the key of the entry, so they return the bits of the
row exactly as long as no update writes one zero over the other.
-/

namespace PulseVM.ChainDb
open Arena Lib.Encoding Lib.Calls Lib.Undo
open ArenaObject hiding id
open ContractRow (byPrimary matches_iff primaryKey rewrite)

/-- What the two families with floating-point secondaries share: the bits of the
secondary, their order and the bits of positive infinity. -/
class FloatRow (T : Type) [ArenaObject T] [ContractRow T] where
  Bits : Type
  bits : T → Bits
  order : Bits → Int
  infinity : Bits
  ofStored : ContractRow.Stored T → Bits
  secondaryName : String

namespace FloatRow
open ContractDb

/-- Both families have an index by table, secondary and primary key. -/
def bySecondary (T : Type) [ArenaObject T] [ContractRow T] [FloatRow T] : IndexedBy T where
  name := secondaryName T
  Key := Int64 × Bits T × UInt64
  key row := (ContractRow.tId row, bits row, primaryKey row)
  cmp := compareLex (compareOn fun k => k.1.toInt)
    (compareLex (compareOn fun k => order k.2.1) (compareOn fun k => k.2.2.toNat))

end FloatRow

open FloatRow in
/-- The rows have these two indices, and rewriting a row replaces its bits. -/
class LawfulFloatRow (T : Type) [ArenaObject T] [ContractRow T] [FloatRow T] : Prop where
  indices : secondaryIndices (T := T) = [byPrimary T, bySecondary T] := by rfl
  bits_rewrite : ∀ (row : T) payer stored,
    bits (rewrite payer stored row) = ofStored stored := by intros; rfl

instance : FloatRow ContractIndexDoubleRow where
  Bits := DoubleKey
  bits row := ⟨row.secondaryKey⟩
  order k := DoubleKey.rank k.canonical
  infinity := ⟨0x7FF0000000000000⟩
  ofStored bits := ⟨bits⟩
  secondaryName := "ContractIdxDoubleBySecondary"

instance : FloatRow ContractIndexLongDoubleRow where
  Bits := LongDoubleKey
  bits row := ⟨row.secLo, row.secHi⟩
  order := LongDoubleKey.orderingKey
  infinity := ⟨0, 0x7FFF000000000000⟩
  ofStored words := ⟨words.1, words.2⟩
  secondaryName := "ContractIdxLongDoubleBySecondary"

instance : LawfulFloatRow ContractIndexDoubleRow where

instance : LawfulFloatRow ContractIndexLongDoubleRow where

namespace FloatRow

variable {T : Type} [ArenaObject T] [ContractRow T] [LawfulContractRow T] [FloatRow T]
  [LawfulFloatRow T]

instance : DeclaredIndex T (bySecondary T) := ⟨1, by rw [LawfulFloatRow.indices]; rfl⟩

section Reads

variable (tables : Registered ContractTableRow) (rows : Registered T) (code scope table : UInt64)

/-- The first entry of the index, in its order, that lies within a range. -/
def firstEntry (within : (bySecondary T).Key → Bool) : Option ((bySecondary T).Key × Int) :=
  (rows.index (bySecondary T)).toList.find? fun e => within e.1

def lastEntry (within : (bySecondary T).Key → Bool) : Option ((bySecondary T).Key × Int) :=
  (rows.index (bySecondary T)).toList.reverse.find? fun e => within e.1

/-- Keep a hit only if it stayed in the table. -/
def inTable (tId : Int64) : Option ((bySecondary T).Key × Int) → Option (UInt64 × Bits T)
  | some ((rt, bits, primary), _) => if rt = tId then some (primary, bits) else none
  | none => none

def lowerBound (secondary : Bits T) : Option (UInt64 × Bits T) := do
  let tId ← resolveTId tables code scope table
  inTable tId (firstEntry rows fun k => ((bySecondary T).cmp (tId, secondary, 0) k).isLE)

def upperBound (secondary : Bits T) : Option (UInt64 × Bits T) := do
  let tId ← resolveTId tables code scope table
  inTable tId (firstEntry rows fun k =>
    (bySecondary T).cmp (tId, secondary, 0xFFFFFFFFFFFFFFFF) k == .lt)

def findSecondary (secondary : Bits T) : Option UInt64 :=
  ((lowerBound tables rows code scope table secondary).filter fun hit =>
    order hit.2 == order secondary).map Prod.fst

def findPrimary (primary : UInt64) : Option (Bits T) := do
  let tId ← resolveTId tables code scope table
  (rows.findBy (byPrimary T) (tId, primary)).map bits

def next (primary : UInt64) : Option UInt64 := do
  let tId ← resolveTId tables code scope table
  let secondary ← (rows.findBy (byPrimary T) (tId, primary)).map bits
  (inTable tId (firstEntry rows fun k =>
    (bySecondary T).cmp (tId, secondary, primary) k == .lt)).map Prod.fst

def previous (primary : UInt64) : Option UInt64 := do
  let tId ← resolveTId tables code scope table
  let secondary ← (rows.findBy (byPrimary T) (tId, primary)).map bits
  (inTable tId (lastEntry rows fun k =>
    (bySecondary T).cmp k (tId, secondary, primary) == .lt)).map Prod.fst

def last : Option UInt64 := do
  let tId ← resolveTId tables code scope table
  (inTable tId (lastEntry rows fun k =>
    ((bySecondary T).cmp k (tId, infinity, 0xFFFFFFFFFFFFFFFF)).isLE)).map Prod.fst

end Reads

section Exact

variable {tables tables' : Registered ContractTableRow} {rows rows' : Registered T}
  {code scope table primary : UInt64} {tId : Int64} {b : Bits T}

/-- The reads return the bits that are stored in the row they land on. -/
structure ReadsExact (tables : Registered ContractTableRow) (rows : Registered T) : Prop where
  lowerBound : ∀ code scope table secondary primary b,
    lowerBound tables rows code scope table secondary = some (primary, b) →
      findPrimary tables rows code scope table primary = some b
  upperBound : ∀ code scope table secondary primary b,
    upperBound tables rows code scope table secondary = some (primary, b) →
      findPrimary tables rows code scope table primary = some b
  findSecondary : ∀ code scope table secondary primary,
    findSecondary tables rows code scope table secondary = some primary →
      ∃ b, findPrimary tables rows code scope table primary = some b ∧ order b = order secondary
  next : ∀ code scope table from' primary,
    next tables rows code scope table from' = some primary →
      ∃ b, findPrimary tables rows code scope table primary = some b
  previous : ∀ code scope table from' primary,
    previous tables rows code scope table from' = some primary →
      ∃ b, findPrimary tables rows code scope table primary = some b
  last : ∀ code scope table primary,
    last tables rows code scope table = some primary →
      ∃ b, findPrimary tables rows code scope table primary = some b

/-- The same results of all reads. -/
structure SameReads (tables : Registered ContractTableRow) (rows : Registered T)
    (tables' : Registered ContractTableRow) (rows' : Registered T) : Prop where
  lowerBound : lowerBound tables' rows' = lowerBound tables rows
  upperBound : upperBound tables' rows' = upperBound tables rows
  findSecondary : findSecondary tables' rows' = findSecondary tables rows
  findPrimary : findPrimary tables' rows' = findPrimary tables rows
  next : next tables' rows' = next tables rows
  previous : previous tables' rows' = previous tables rows
  last : last tables' rows' = last tables rows

omit [LawfulFloatRow T] in
theorem findPrimary_eq {row : T} (resolved : resolveTId tables code scope table = some tId)
    (found : rows.findBy (byPrimary T) (tId, primary) = some row) :
    findPrimary tables rows code scope table primary = some (bits row) := by
  unfold findPrimary
  rw [resolved]
  exact congrArg (Option.map bits) found

omit [LawfulContractRow T] in
theorem mem_of_firstEntry {within : (bySecondary T).Key → Bool} {e : (bySecondary T).Key × Int}
    (found : firstEntry rows within = some e) : e ∈ (rows.index (bySecondary T)).toList :=
  List.mem_of_find?_eq_some found

omit [LawfulContractRow T] in
theorem mem_of_lastEntry {within : (bySecondary T).Key → Bool} {e : (bySecondary T).Key × Int}
    (found : lastEntry rows within = some e) : e ∈ (rows.index (bySecondary T)).toList :=
  List.mem_reverse.mp (List.mem_of_find?_eq_some found)

theorem inTable_stored (faithful : rows.Faithful)
    (resolved : resolveTId tables code scope table = some tId)
    {hit : Option ((bySecondary T).Key × Int)}
    (listed : ∀ {e}, hit = some e → e ∈ (rows.index (bySecondary T)).toList)
    (kept : inTable tId hit = some (primary, b)) :
    findPrimary tables rows code scope table primary = some b := by
  cases hit with
  | none => cases kept
  | some e =>
    obtain ⟨⟨rt, stored, key⟩, id⟩ := e
    by_cases same : rt = tId
    · have landed : some (key, stored) = some (primary, b) := (if_pos same).symm.trans kept
      obtain ⟨rfl, rfl⟩ := Prod.mk.inj (Option.some.inj landed)
      obtain ⟨n, row, _, live, literal⟩ := IndexedBy.Literal.entry
        (Registered.index_literal faithful.literal) (Registered.index_exact faithful.sound)
        (listed rfl)
      obtain ⟨hasTable, hasBits, hasKey⟩ : rt = ContractRow.tId row ∧ stored = bits row ∧
          key = primaryKey row := by
        simpa [bySecondary, Prod.ext_iff] using literal
      have found := (Registered.findBy_eq_some_iff faithful.sound).mpr
        ⟨n, live, matches_iff.mpr ⟨hasTable.symm.trans same, hasKey.symm⟩⟩
      rw [findPrimary_eq resolved found, hasBits]
    · cases (if_neg same).symm.trans kept

theorem readsExact (faithful : rows.Faithful) : ReadsExact tables rows := by
  have landed : ∀ (code scope table : UInt64) (secondary : Bits T) primary b,
      lowerBound tables rows code scope table secondary = some (primary, b) →
        findPrimary tables rows code scope table primary = some b := by
    intro code scope table secondary primary b found
    obtain ⟨tId, resolved, kept⟩ := Option.bind_eq_some_iff.mp found
    exact inTable_stored faithful resolved mem_of_firstEntry kept
  refine ⟨landed, ?_, ?_, ?_, ?_, ?_⟩
  · intro code scope table secondary primary b found
    obtain ⟨tId, resolved, kept⟩ := Option.bind_eq_some_iff.mp found
    exact inTable_stored faithful resolved mem_of_firstEntry kept
  · intro code scope table secondary primary found
    obtain ⟨⟨key, b⟩, kept, rfl⟩ := Option.map_eq_some_iff.mp found
    obtain ⟨lower, equal⟩ := Option.filter_eq_some_iff.mp kept
    exact ⟨b, landed code scope table secondary key b lower, beq_iff_eq.mp equal⟩
  · intro code scope table from' primary found
    obtain ⟨tId, resolved, rest⟩ := Option.bind_eq_some_iff.mp found
    obtain ⟨secondary, _, step⟩ := Option.bind_eq_some_iff.mp rest
    obtain ⟨⟨key, b⟩, kept, rfl⟩ := Option.map_eq_some_iff.mp step
    exact ⟨b, inTable_stored faithful resolved mem_of_firstEntry kept⟩
  · intro code scope table from' primary found
    obtain ⟨tId, resolved, rest⟩ := Option.bind_eq_some_iff.mp found
    obtain ⟨secondary, _, step⟩ := Option.bind_eq_some_iff.mp rest
    obtain ⟨⟨key, b⟩, kept, rfl⟩ := Option.map_eq_some_iff.mp step
    exact ⟨b, inTable_stored faithful resolved mem_of_lastEntry kept⟩
  · intro code scope table primary found
    obtain ⟨tId, resolved, step⟩ := Option.bind_eq_some_iff.mp found
    obtain ⟨⟨key, b⟩, kept, rfl⟩ := Option.map_eq_some_iff.mp step
    exact ⟨b, inTable_stored faithful resolved mem_of_lastEntry kept⟩

theorem sameReads (alikeTables : tables.Alike tables') (alikeRows : rows.Alike rows') :
    SameReads tables rows tables' rows' := by
  have resolve : resolveTId tables' = resolveTId tables := by
    funext code scope table
    exact congrArg (Option.map (Int64.ofInt ·.id))
      (alikeTables.findBy ContractTableRow.byCodeScopeTable (code, scope, table))
  have primary : rows'.findBy (byPrimary T) = rows.findBy (byPrimary T) :=
    funext fun k => alikeRows.findBy _ k
  have first : firstEntry rows' = firstEntry rows := by
    funext within
    unfold firstEntry
    rw [alikeRows.index (bySecondary T)]
  have last : lastEntry rows' = lastEntry rows := by
    funext within
    unfold lastEntry
    rw [alikeRows.index (bySecondary T)]
  have lower : lowerBound tables' rows' = lowerBound tables rows := by
    funext code scope table secondary
    unfold lowerBound
    rw [resolve, first]
  refine ⟨lower, ?_, ?_, ?_, ?_, ?_, ?_⟩
  · funext code scope table secondary
    unfold upperBound
    rw [resolve, first]
  · funext code scope table secondary
    unfold findSecondary
    rw [lower]
  · funext code scope table key
    unfold findPrimary
    rw [resolve, primary]
  · funext code scope table key
    unfold next
    rw [resolve, primary, first]
  · funext code scope table key
    unfold previous
    rw [resolve, primary, last]
  · funext code scope table
    unfold FloatRow.last
    rw [resolve, last]

end Exact

end FloatRow

open FloatRow

namespace ContractDb

section Double

variable (db : ContractDb) (code scope table : UInt64)

def doubles : Registered ContractIndexDoubleRow := db.rows .idxDouble

def idxDoubleLowerBound (secondary : DoubleKey) : Option (UInt64 × DoubleKey) :=
  lowerBound db.tables db.doubles code scope table secondary

def idxDoubleUpperBound (secondary : DoubleKey) : Option (UInt64 × DoubleKey) :=
  upperBound db.tables db.doubles code scope table secondary

def idxDoubleFindSecondary (secondary : DoubleKey) : Option UInt64 :=
  findSecondary db.tables db.doubles code scope table secondary

def idxDoubleFindPrimary (primary : UInt64) : Option DoubleKey :=
  findPrimary db.tables db.doubles code scope table primary

def idxDoubleNext (primary : UInt64) : Option UInt64 :=
  next db.tables db.doubles code scope table primary

def idxDoublePrevious (primary : UInt64) : Option UInt64 :=
  previous db.tables db.doubles code scope table primary

def idxDoubleLast : Option UInt64 := last db.tables db.doubles code scope table

def longDoubles : Registered ContractIndexLongDoubleRow := db.rows .idxLongDouble

def idxLongDoubleLowerBound (secondary : LongDoubleKey) : Option (UInt64 × LongDoubleKey) :=
  lowerBound db.tables db.longDoubles code scope table secondary

def idxLongDoubleUpperBound (secondary : LongDoubleKey) : Option (UInt64 × LongDoubleKey) :=
  upperBound db.tables db.longDoubles code scope table secondary

def idxLongDoubleFindSecondary (secondary : LongDoubleKey) : Option UInt64 :=
  findSecondary db.tables db.longDoubles code scope table secondary

def idxLongDoubleFindPrimary (primary : UInt64) : Option LongDoubleKey :=
  findPrimary db.tables db.longDoubles code scope table primary

def idxLongDoubleNext (primary : UInt64) : Option UInt64 :=
  next db.tables db.longDoubles code scope table primary

def idxLongDoublePrevious (primary : UInt64) : Option UInt64 :=
  previous db.tables db.longDoubles code scope table primary

def idxLongDoubleLast : Option UInt64 := last db.tables db.longDoubles code scope table

end Double

def loadFamilies (load : (f : Family) → Except TableError (Registered f.Row)) :
    Except TableError ((f : Family) → Registered f.Row) := do
  let primary ← load .primary
  let idx64 ← load .idx64
  let idx128 ← load .idx128
  let idx256 ← load .idx256
  let idxDouble ← load .idxDouble
  let idxLongDouble ← load .idxLongDouble
  return fun
    | .primary => primary
    | .idx64 => idx64
    | .idx128 => idx128
    | .idx256 => idx256
    | .idxDouble => idxDouble
    | .idxLongDouble => idxLongDouble

theorem loadFamilies_ok {load : (f : Family) → Except TableError (Registered f.Row)}
    {rows : (f : Family) → Registered f.Row} (each : ∀ f, load f = .ok (rows f)) :
    loadFamilies load = .ok rows := by
  unfold loadFamilies
  rw [each, each, each, each, each, each]
  apply congrArg Except.ok
  funext f
  cases f <;> rfl

/-- A checkpoint holds every table in a section of its own; loading reads each section
into the empty table of its type. -/
def reload (db : ContractDb) : Except TableError ContractDb := do
  let tables ← Registered.loadFrom db.tables.table.packInto
  let rows ← loadFamilies fun f => Registered.loadFrom (db.rows f).table.packInto
  return ⟨tables, rows⟩

/-- Ids and arenas are within the widths of their fields. -/
structure Fits (db : ContractDb) : Prop where
  tables : db.tables.table.Fits
  rows : ∀ f, (db.rows f).table.Fits

end ContractDb

/-- The families with floating-point secondaries. -/
def Family.IsFloat (f : Family) : Prop := f = .idxDouble ∨ f = .idxLongDouble

/-- A property of a table that rows keep as they come and go, inside and around sessions. -/
structure Steady {T : Type} [ArenaObject T] (p : Registered T → Prop) : Prop where
  new : p .new
  create : ∀ t m, p t → p (t.create m).2
  remove : ∀ t id, p t → p (t.remove id).2
  startUndoSession : ∀ t, p t → p t.startUndoSession
  undo : ∀ t, p t → p t.undo
  squash : ∀ t, p t → p t.squash
  commit : ∀ t revision, p t → p (t.commit revision)

theorem steady_sound {T : Type} [ArenaObject T] :
    Steady fun t : Registered T => t.table.Sound where
  new := Table.new_refines.sound
  create _ m sound := (Table.emplace_refines sound m).sound
  remove _ id sound := (Table.remove_refines sound id).sound
  startUndoSession _ sound := (Table.startUndoSession_refines sound).sound
  undo _ sound := (Table.undo_refines sound).sound
  squash _ sound := (Table.squash_refines sound).sound
  commit _ revision sound := (Table.commit_refines sound revision).sound

theorem steady_faithful {T : Type} [ArenaObject T] :
    Steady fun t : Registered T => t.Faithful where
  new := Registered.Faithful.new
  create _ m faithful := faithful.create m
  remove _ id faithful := faithful.remove id
  startUndoSession _ faithful := faithful.startUndoSession
  undo _ faithful := faithful.undo
  squash _ faithful := faithful.squash
  commit _ revision faithful := faithful.commit revision

/-- Every table of the database has its property. -/
structure ContractDb.Each (tables : Registered ContractTableRow → Prop)
    (rows : (f : Family) → Registered f.Row → Prop) (db : ContractDb) : Prop where
  tables : tables db.tables
  rows : ∀ f, rows f (db.rows f)

/-- What every write of a contract call keeps, except for rewrites: those are only allowed
in some families. -/
structure ContractDb.Lasting (tables : Registered ContractTableRow → Prop)
    (rows : (f : Family) → Registered f.Row → Prop) (rewritten : Family → Prop) : Prop where
  steadyTables : Steady tables
  steadyRows : ∀ f, Steady (rows f)
  setCount : ∀ t id (count : UInt32 → UInt32), tables t →
    tables (t.modify id fun row => { row with count := count row.count }).2
  rewrite : ∀ f, rewritten f → ∀ t id m, rows f t → rows f (t.modify id m).2
  allocBlob : ∀ t value, rows .primary t → rows .primary (t.allocBlob value).2
  freeBlob : ∀ t value, rows .primary t → rows .primary (t.freeBlob value)

namespace ContractDb.Lasting

open ContractCall Lib.Calls.Call

variable {α : Type} {db : ContractDb} {f : Family} {rewritten : Family → Prop}
  {tables : Registered ContractTableRow → Prop} {rows : (f : Family) → Registered f.Row → Prop}

def Keeps (tables : Registered ContractTableRow → Prop)
    (rows : (f : Family) → Registered f.Row → Prop) (call : ContractCall α) : Prop :=
  Moves (fun db db' => db.Each tables rows → db'.Each tables rows) call

instance : IsPreorder ContractDb fun db db' => db.Each tables rows → db'.Each tables rows where
  refl _ := id
  trans _ _ _ first second := second ∘ first

theorem onTables
    {op : Registered ContractTableRow → Except TableError α × Registered ContractTableRow}
    (keeps : ∀ t, tables t → tables (op t).2) : Keeps tables rows (onTables op) :=
  fun _ each => ⟨keeps _ each.tables, each.rows⟩

theorem each_onRows {t : Registered f.Row} (each : db.Each tables rows) (holds : rows f t) :
    ContractDb.Each tables rows { db with rows := Function.update db.rows f t } := by
  refine ⟨each.tables, fun g => ?_⟩
  dsimp only
  by_cases same : g = f
  · subst same
    rw [Function.update_self]
    exact holds
  · rw [Function.update_of_ne same]
    exact each.rows g

theorem onRows {op : Registered f.Row → Except TableError α × Registered f.Row}
    (keeps : ∀ t, rows f t → rows f (op t).2) : Keeps tables rows (onRows f op) :=
  fun _ each => each_onRows each (keeps _ (each.rows f))

variable (lasting : Lasting tables rows rewritten)
include lasting

theorem contractTableOid (code scope table payer : UInt64) :
    Keeps tables rows (contractTableOid code scope table payer) := by
  refine (moves_read _).bind_option ?_ fun t => moves_pure _
  exact Moves.bind (onTables fun t => lasting.steadyTables.create t _) fun _ => moves_pure _

theorem contractTableDecr (tId : Int64) : Keeps tables rows (contractTableDecr tId) := by
  refine Moves.bind (onTables fun t => lasting.setCount t _ saturatingPred) fun _ => ?_
  refine Moves.bind (onTables fun _ => id) fun t => ?_
  exact moves_ite (onTables fun t => lasting.steadyTables.remove t _) (moves_pure _)

theorem store (f : Family) (value : f.Value) : Keeps tables rows (store f value) := by
  cases f with
  | primary => exact onRows fun t => lasting.allocBlob t value
  | idx64 | idx128 | idx256 | idxDouble | idxLongDouble => exact moves_pure _

theorem restore (f : Family) (row : f.Row) (value : f.Value) :
    Keeps tables rows (restore f row value) := by
  cases f with
  | primary => exact onRows fun t holds => lasting.allocBlob _ value (lasting.freeBlob t _ holds)
  | idx64 | idx128 | idx256 | idxDouble | idxLongDouble => exact moves_pure _

theorem release (f : Family) (row : f.Row) : Keeps tables rows (release f row) := by
  cases f with
  | primary => exact onRows fun t => lasting.freeBlob t _
  | idx64 | idx128 | idx256 | idxDouble | idxLongDouble => exact moves_pure _

theorem createObject (f : Family) (code scope table payer primaryKey : UInt64) (value : f.Value) :
    Keeps tables rows (createObject f code scope table payer primaryKey value) := by
  refine Moves.bind (lasting.contractTableOid code scope table payer) fun tId => ?_
  refine Moves.bind (lasting.store f value) fun stored => ?_
  refine Moves.bind (onRows fun t => (lasting.steadyRows f).create t _) fun _ => ?_
  exact onTables fun t => lasting.setCount t _ (· + 1)

theorem updateObject (allowed : rewritten f) (code scope table primaryKey payer : UInt64)
    (value : f.Value) :
    Keeps tables rows (updateObject f code scope table primaryKey payer value) := by
  refine (moves_read _).bind_option (moves_pure _) fun t => ?_
  refine (moves_read _).bind_option (moves_pure _) fun row => ?_
  refine Moves.bind (lasting.restore f row value) fun _ => ?_
  exact onRows fun t => lasting.rewrite f allowed t _ _

theorem removeObject (f : Family) (code scope table primaryKey : UInt64) :
    Keeps tables rows (removeObject f code scope table primaryKey) := by
  refine (moves_read _).bind_option (moves_pure _) fun t => ?_
  refine (moves_read _).bind_option (moves_pure _) fun row => ?_
  refine Moves.bind (onRows fun t => (lasting.steadyRows f).remove t _) fun _ => ?_
  exact Moves.bind (lasting.release f row) fun _ => lasting.contractTableDecr _

omit lasting in
theorem mapM_resolve (updates : List ContractRowUpdate) :
    Keeps tables rows (updates.mapM resolve) := by
  induction updates with
  | nil => exact moves_pure _
  | cons update rest ih =>
    rw [List.mapM_cons]
    refine Moves.bind ?_ fun _ => Moves.bind ih fun _ => moves_pure _
    refine (moves_read _).bind_option (moves_throw _) fun t => ?_
    exact (moves_read _).bind_option (moves_throw _) fun row => moves_pure _

theorem updateKeyValueObjects (allowed : rewritten .primary) (updates : List ContractRowUpdate) :
    Keeps tables rows (updateKeyValueObjects updates) := by
  refine Moves.bind (mapM_resolve updates) fun found => moves_forM (fun work => ?_) _
  refine Moves.bind (lasting.restore .primary work.2 work.1.value) fun _ => ?_
  exact onRows fun t => lasting.rewrite .primary allowed t _ _

theorem apply (allowed : rewritten .primary) (each : db.Each tables rows) (op : ContractOp)
    (rewrites : ∀ f code scope table primaryKey payer value,
      op = .update f code scope table primaryKey payer value → rewritten f) :
    (db.apply op).Each tables rows := by
  cases op with
  | create f code scope table payer primaryKey value =>
    exact lasting.createObject f code scope table payer primaryKey value db each
  | update f code scope table primaryKey payer value =>
    exact lasting.updateObject (rewrites f _ _ _ _ _ _ rfl) code scope table primaryKey payer value
      db each
  | updateMany updates => exact lasting.updateKeyValueObjects allowed updates db each
  | remove f code scope table primaryKey =>
    exact lasting.removeObject f code scope table primaryKey db each
  | startUndoSession =>
    exact ⟨lasting.steadyTables.startUndoSession _ each.tables,
      fun f => (lasting.steadyRows f).startUndoSession _ (each.rows f)⟩
  | undo =>
    exact ⟨lasting.steadyTables.undo _ each.tables, fun f => (lasting.steadyRows f).undo _ (each.rows f)⟩
  | squash =>
    exact ⟨lasting.steadyTables.squash _ each.tables, fun f => (lasting.steadyRows f).squash _ (each.rows f)⟩
  | commit revision =>
    exact ⟨lasting.steadyTables.commit _ revision each.tables,
      fun f => (lasting.steadyRows f).commit _ revision (each.rows f)⟩

theorem new : new.Each tables rows :=
  ⟨lasting.steadyTables.new, fun f => (lasting.steadyRows f).new⟩

end ContractDb.Lasting

/-- A sound table, with the keys of its indices bit for bit in the families with
floating-point secondaries. -/
def Family.Faithful (f : Family) (t : Registered f.Row) : Prop :=
  t.table.Sound ∧ (f.IsFloat → t.Faithful)

/-- All tables are sound, and the indices that the reads use hold their keys bit for
bit. -/
abbrev ContractDb.Faithful (db : ContractDb) : Prop :=
  db.Each Registered.Faithful Family.Faithful

theorem Family.steady_faithful (f : Family) : Steady f.Faithful where
  new := ⟨steady_sound.new, fun _ => ChainDb.steady_faithful.new⟩
  create t m holds := ⟨steady_sound.create t m holds.1, fun float => (holds.2 float).create m⟩
  remove t id holds := ⟨steady_sound.remove t id holds.1, fun float => (holds.2 float).remove id⟩
  startUndoSession t holds :=
    ⟨steady_sound.startUndoSession t holds.1, fun float => (holds.2 float).startUndoSession⟩
  undo t holds := ⟨steady_sound.undo t holds.1, fun float => (holds.2 float).undo⟩
  squash t holds := ⟨steady_sound.squash t holds.1, fun float => (holds.2 float).squash⟩
  commit t revision holds :=
    ⟨steady_sound.commit t revision holds.1, fun float => (holds.2 float).commit revision⟩

/-- The count is no part of a key, and contract rows have no floating-point keys. -/
theorem ContractDb.lasting_faithful :
    Lasting Registered.Faithful Family.Faithful fun f => ¬f.IsFloat where
  steadyTables := steady_faithful
  steadyRows := Family.steady_faithful
  setCount t id count faithful := faithful.modify fun current _ decl member _ => by
    rw [List.mem_singleton.mp member]
    rfl
  rewrite f notFloat t id m holds :=
    ⟨(Table.modify_refines holds.1 id m).sound, fun float => absurd float notFloat⟩
  allocBlob t value holds :=
    ⟨(Table.allocBlob_refines holds.1 value).sound, by rintro (same | same) <;> cases same⟩
  freeBlob t value holds :=
    ⟨(Table.freeBlob_refines holds.1 value).sound, by rintro (same | same) <;> cases same⟩

namespace ContractCall

variable {db : ContractDb} {f : Family}

/-- Where nothing has to be prepared, an update keeps the keys literal if the row it
finds keeps the bits that the order does not tell apart. -/
theorem faithful_updateObject (faithful : db.Faithful) {code scope table primaryKey payer : UInt64}
    {value : f.Value} {stored : ContractRow.Stored f.Row}
    (prepared : ∀ row, restore f row value = pure stored)
    (keeps : ∀ tId row, resolveTId db.tables code scope table = some tId →
      (db.rows f).findBy (byPrimary f.Row) (tId, primaryKey) = some row →
      KeepsKeys row (rewrite payer stored row)) :
    (updateObject f code scope table primaryKey payer value db).2.Faithful := by
  unfold updateObject findTable
  rw [Call.read_bind]
  cases table? : db.tables.findBy ContractTableRow.byCodeScopeTable (code, scope, table) with
  | none => exact faithful
  | some t =>
    dsimp only
    unfold findRow
    rw [Call.read_bind]
    cases row? : (db.rows f).findBy (byPrimary f.Row) (Int64.ofInt t.id, primaryKey) with
    | none => exact faithful
    | some row =>
      dsimp only
      rw [prepared row, pure_bind]
      have sound := (faithful.rows f).1
      refine ContractDb.Lasting.each_onRows faithful ⟨(Table.modify_refines sound _ _).sound, fun float =>
        ((faithful.rows f).2 float).modify ?_⟩
      intro current held
      obtain ⟨n, live, _⟩ := (Registered.findBy_eq_some_iff sound).mp row?
      have here : (db.rows f).table.find (ArenaObject.id row) = some row := by
        rw [sound.named live]
        exact live
      have same : current = row := Option.some.inj (held.symm.trans here)
      rw [same]
      refine keeps (Int64.ofInt t.id) row ?_ row?
      exact congrArg (Option.map (Int64.ofInt ·.id)) table?

end ContractCall

namespace FloatRow

variable {T : Type} [ArenaObject T] [ContractRow T] [FloatRow T]

/-- The new bits are not other bits that the order takes for the old ones. -/
def KeepsBits (old new : Bits T) : Prop := order old = order new → old = new

variable [LawfulFloatRow T] [LawfulContractRow T]

theorem keepsKeys_rewrite {row : T} {payer : UInt64} {stored : ContractRow.Stored T}
    (keeps : KeepsBits (bits row) (ofStored stored)) :
    KeepsKeys row (rewrite payer stored row) := by
  intro decl member same
  rw [LawfulFloatRow.indices, List.mem_cons, List.mem_singleton] at member
  rcases member with rfl | rfl
  · simp [byPrimary, byTableAndKey]
  · have equal : order (bits row) = order (ofStored stored) := by
      have keys := same
      simp only [IndexedBy.Matches, bySecondary, compareLex_eq_eq, compareOn,
        LawfulFloatRow.bits_rewrite] at keys
      exact compare_eq_iff_eq.mp keys.2.1
    simp [bySecondary, LawfulFloatRow.bits_rewrite, keeps equal]

end FloatRow

namespace ContractDb

/-- No update writes other bits over ones that compare equal: one zero over the other. -/
def Admits (db : ContractDb) : ContractOp → Prop
  | .update .idxDouble code scope table primaryKey _ (bits : UInt64) =>
    ∀ key ∈ db.idxDoubleFindPrimary code scope table primaryKey,
      KeepsBits (T := ContractIndexDoubleRow) key ⟨bits⟩
  | .update .idxLongDouble code scope table primaryKey _ (words : UInt64 × UInt64) =>
    ∀ key ∈ db.idxLongDoubleFindPrimary code scope table primaryKey,
      KeepsBits (T := ContractIndexLongDoubleRow) key ⟨words.1, words.2⟩
  | _ => True

variable {db : ContractDb}

theorem Faithful.apply (faithful : db.Faithful) (op : ContractOp) (admits : db.Admits op) :
    (db.apply op).Faithful := by
  cases op with
  | update f code scope table primaryKey payer value =>
    cases f with
    | idxDouble =>
      refine ContractCall.faithful_updateObject faithful (fun _ => rfl) fun tId row resolved found => ?_
      have known : findPrimary db.tables db.doubles code scope table primaryKey =
          some (bits (T := ContractIndexDoubleRow) row) :=
        findPrimary_eq (T := ContractIndexDoubleRow) resolved found
      exact keepsKeys_rewrite (T := ContractIndexDoubleRow) (admits _ known)
    | idxLongDouble =>
      refine ContractCall.faithful_updateObject faithful (fun _ => rfl) fun tId row resolved found => ?_
      have known : findPrimary db.tables db.longDoubles code scope table primaryKey =
          some (bits (T := ContractIndexLongDoubleRow) row) :=
        findPrimary_eq (T := ContractIndexLongDoubleRow) resolved found
      exact keepsKeys_rewrite (T := ContractIndexLongDoubleRow) (admits _ known)
    | primary | idx64 | idx128 | idx256 =>
      apply lasting_faithful.apply (by simp [Family.IsFloat]) faithful
      rintro _ _ _ _ _ _ _ ⟨⟩
      simp [Family.IsFloat]
  | create | updateMany | remove | startUndoSession | undo | squash | commit =>
    exact lasting_faithful.apply (by simp [Family.IsFloat]) faithful _ nofun

/-- The reads of both families return the bits of the rows they land on, and a checkpoint
and reload brings back a database with the same results. -/
structure FloatReads (db : ContractDb) : Prop where
  doubles : ReadsExact db.tables db.doubles
  longDoubles : ReadsExact db.tables db.longDoubles
  reload : db.Fits → ∃ u, db.reload = .ok u ∧
    SameReads db.tables db.doubles u.tables u.doubles ∧
    SameReads db.tables db.longDoubles u.tables u.longDoubles

theorem Faithful.floatReads (faithful : db.Faithful) : db.FloatReads := by
  have double : db.doubles.Faithful := (faithful.rows .idxDouble).2 (.inl rfl)
  have longDouble : db.longDoubles.Faithful := (faithful.rows .idxLongDouble).2 (.inr rfl)
  refine ⟨readsExact double, readsExact longDouble, fun fits => ?_⟩
  have comes := fun f => Registered.loadFrom_packInto (faithful.rows f).1 (fits.rows f)
  choose rows read loaded same using comes
  obtain ⟨tables, readTables, loadedTables, sameTables⟩ :=
    Registered.loadFrom_packInto faithful.tables.sound fits.tables
  have reloaded : db.reload = .ok ⟨tables, rows⟩ := by
    unfold ContractDb.reload
    rw [readTables, loadFamilies_ok read]
    rfl
  have alike := faithful.tables.alike loadedTables sameTables
  exact ⟨_, reloaded,
    sameReads alike (double.alike (loaded .idxDouble) (same .idxDouble)),
    sameReads alike (longDouble.alike (loaded .idxLongDouble) (same .idxLongDouble))⟩

/-- In every run in which no update writes one zero over the other, the reads are exact
after every step. -/
theorem run_floatReads (ops : List ContractOp)
    (admits : Along apply Admits new ops) :
    (new.run ops).FloatReads :=
  (admits.foldl (p := Faithful) (fun _ op faithful allowed => faithful.apply op allowed)
    lasting_faithful.new).floatReads

/-- A zero, then one, then the other zero. -/
theorem run_floatReads_through_one :
    (new.run [.create .idxDouble 1 2 3 4 5 (0 : UInt64),
      .update .idxDouble 1 2 3 5 4 (0x3FF0000000000000 : UInt64),
      .update .idxDouble 1 2 3 5 4 (0x8000000000000000 : UInt64)]).FloatReads := by
  refine run_floatReads _ ⟨trivial, ?_, ?_, trivial⟩
  · intro key found
    have zero : key = ⟨0⟩ := Option.some.inj (found.symm.trans (by decide +kernel))
    rw [zero]
    exact fun equal => absurd equal (by decide)
  · intro key found
    have one : key = ⟨0x3FF0000000000000⟩ := Option.some.inj (found.symm.trans (by decide +kernel))
    rw [one]
    exact fun equal => absurd equal (by decide)

/-- One zero written over the other, in both families. -/
def zeroSwap : List ContractOp :=
  [.create .idxDouble 1 2 3 4 5 (0 : UInt64),
    .update .idxDouble 1 2 3 5 4 (0x8000000000000000 : UInt64),
    .create .idxLongDouble 1 2 3 4 5 ((0, 0) : UInt64 × UInt64),
    .update .idxLongDouble 1 2 3 5 4 ((0, 0x8000000000000000) : UInt64 × UInt64)]

/-- The bounds return the old zero, the row holds the new one, and after a reload the
bounds return that. -/
theorem zeroSwap_reads :
    (new.run zeroSwap).idxDoubleLowerBound 1 2 3 ⟨0⟩ = some (5, ⟨0⟩) ∧
    (new.run zeroSwap).idxDoubleFindPrimary 1 2 3 5 = some ⟨0x8000000000000000⟩ ∧
    (new.run zeroSwap).reload.toOption.map (·.idxDoubleLowerBound 1 2 3 ⟨0⟩) =
      some (some (5, ⟨0x8000000000000000⟩)) ∧
    (new.run zeroSwap).idxLongDoubleLowerBound 1 2 3 ⟨0, 0⟩ = some (5, ⟨0, 0⟩) ∧
    (new.run zeroSwap).idxLongDoubleFindPrimary 1 2 3 5 =
      some ⟨0, 0x8000000000000000⟩ ∧
    (new.run zeroSwap).reload.toOption.map (·.idxLongDoubleLowerBound 1 2 3 ⟨0, 0⟩) =
      some (some (5, ⟨0, 0x8000000000000000⟩)) := by
  decide +kernel

end ContractDb

end PulseVM.ChainDb
