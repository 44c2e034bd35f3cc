import PulseVM.ChainDb.ContractRows
import PulseVM.Lib.Calls

/-!
The contract part of the chain database: rows are created, rewritten and removed under
their table, which is created with its first row and dropped with its last. A call
returns its verdict beside the state it leaves behind, also when it fails.
-/

namespace PulseVM.ChainDb
open Arena Lib.Encoding Lib.Calls
open ArenaObject hiding id

structure ContractDb where
  tables : Registered ContractTableRow
  rows : (f : Family) → Registered f.Row

def ContractDb.new : ContractDb := ⟨.new, fun _ => .new⟩

def resolveTId (tables : Registered ContractTableRow) (code scope table : UInt64) : Option Int64 :=
  (tables.findBy ContractTableRow.byCodeScopeTable (code, scope, table)).map (Int64.ofInt ·.id)

abbrev ContractCall := Call TableError ContractDb

namespace ContractCall

variable {α : Type}

def onTables (op : Registered ContractTableRow → Except TableError α × Registered ContractTableRow) :
    ContractCall α := fun db => ((op db.tables).1, { db with tables := (op db.tables).2 })

def onRows (f : Family) (op : Registered f.Row → Except TableError α × Registered f.Row) :
    ContractCall α := fun db =>
  ((op (db.rows f)).1, { db with rows := Function.update db.rows f (op (db.rows f)).2 })

def findTable (code scope table : UInt64) : ContractCall (Option ContractTableRow) :=
  Call.read (·.tables.findBy ContractTableRow.byCodeScopeTable (code, scope, table))

def findRow (f : Family) (tId : Int64) (primaryKey : UInt64) : ContractCall (Option f.Row) :=
  Call.read fun db => (db.rows f).findBy (ContractRow.byPrimary f.Row) (tId, primaryKey)

/-- Resolve the id of a table, creating its row without children the first time it is
seen. -/
def contractTableOid (code scope table payer : UInt64) : ContractCall Int64 := do
  match ← findTable code scope table with
  | some t => return Int64.ofInt t.id
  | none =>
    let t ← onTables (·.create fun t =>
      { t with code := code, scope := scope, table := table, payer := payer, count := 0 })
    return Int64.ofInt t.id

/-- One row more. -/
def contractTableIncr (tId : Int64) : ContractCall Unit :=
  onTables (·.modify tId.toInt fun t => { t with count := t.count + 1 })

def saturatingPred (count : UInt32) : UInt32 := if count = 0 then 0 else count - 1

/-- One row less; the table goes with its last row. -/
def contractTableDecr (tId : Int64) : ContractCall Unit := do
  onTables (·.modify tId.toInt fun t => { t with count := saturatingPred t.count })
  let t ← onTables fun t => (t.get tId.toInt, t)
  if t.count = 0 then onTables (·.remove tId.toInt)

/-- Prepare a value for a new row: a contract row's value goes to the blob arena. -/
def store : (f : Family) → f.Value → ContractCall (ContractRow.Stored f.Row)
  | .primary, value => onRows .primary fun t => (.ok (t.allocBlob value).1, (t.allocBlob value).2)
  | .idx64, key => pure key
  | .idx128, key => pure key
  | .idx256, key => pure key
  | .idxDouble, bits => pure bits
  | .idxLongDouble, words => pure words

/-- Prepare a value for a row that is there: the span of the old value may be reused. -/
def restore : (f : Family) → f.Row → f.Value → ContractCall (ContractRow.Stored f.Row)
  | .primary, row, value =>
    onRows .primary fun t => (.ok (t.reallocBlob row.value value).1, (t.reallocBlob row.value value).2)
  | .idx64, _, key => pure key
  | .idx128, _, key => pure key
  | .idx256, _, key => pure key
  | .idxDouble, _, bits => pure bits
  | .idxLongDouble, _, words => pure words

def release : (f : Family) → f.Row → ContractCall Unit
  | .primary, row => onRows .primary fun t => (.ok (), t.freeBlob row.value)
  | _, _ => pure ()

def createObject (f : Family) (code scope table payer primaryKey : UInt64) (value : f.Value) :
    ContractCall Unit := do
  let tId ← contractTableOid code scope table payer
  let stored ← store f value
  let _ ← onRows f (·.create (ContractRow.fill tId primaryKey payer stored))
  contractTableIncr tId

/-- Rewrite value and payer of a row; nothing happens when there is none. -/
def updateObject (f : Family) (code scope table primaryKey payer : UInt64) (value : f.Value) :
    ContractCall Unit := do
  match ← findTable code scope table with
  | none => pure ()
  | some t =>
    match ← findRow f (Int64.ofInt t.id) primaryKey with
    | none => pure ()
    | some row =>
      let stored ← restore f row value
      onRows f (·.modify (ArenaObject.id row) (ContractRow.rewrite payer stored))

def removeObject (f : Family) (code scope table primaryKey : UInt64) : ContractCall Unit := do
  match ← findTable code scope table with
  | none => pure ()
  | some t =>
    match ← findRow f (Int64.ofInt t.id) primaryKey with
    | none => pure ()
    | some row =>
      onRows f (·.remove (ArenaObject.id row))
      release f row
      contractTableDecr (Int64.ofInt t.id)

def createKeyValueObject := createObject .primary
def updateKeyValueObject := updateObject .primary
def removeKeyValueObject := removeObject .primary

def createIndex64Object := createObject .idx64
def updateIndex64Object := updateObject .idx64
def removeIndex64Object := removeObject .idx64

def createIndex128Object := createObject .idx128
def updateIndex128Object := updateObject .idx128
def removeIndex128Object := removeObject .idx128

def createIndex256Object := createObject .idx256
def updateIndex256Object := updateObject .idx256
def removeIndex256Object := removeObject .idx256

def createIdxDoubleObject := createObject .idxDouble
def updateIdxDoubleObject := updateObject .idxDouble
def removeIdxDoubleObject := removeObject .idxDouble

def createIdxLongDoubleObject := createObject .idxLongDouble
def updateIdxLongDoubleObject := updateObject .idxLongDouble
def removeIdxLongDoubleObject := removeObject .idxLongDouble

structure ContractRowUpdate where
  code : UInt64
  scope : UInt64
  table : UInt64
  primaryKey : UInt64
  payer : UInt64
  value : Bytes

def resolve (update : ContractRowUpdate) : ContractCall ContractKeyValueRow := do
  match ← findTable update.code update.scope update.table with
  | none =>
    Call.throw (.corrupted s!"replay update references missing contract table ({update.code}, {update.scope}, {update.table})")
  | some t =>
    match ← findRow .primary (Int64.ofInt t.id) update.primaryKey with
    | none =>
      Call.throw (.corrupted s!"replay update references missing primary row {update.primaryKey} in ({update.code}, {update.scope}, {update.table})")
    | some row => return row

def rewriteRow (update : ContractRowUpdate) (row : ContractKeyValueRow) : ContractCall Unit := do
  let stored ← restore .primary row update.value
  onRows .primary (·.modify row.id (ContractRow.rewrite update.payer stored))

/-- Rewrite many contract rows: all are found before the first is changed. -/
def updateKeyValueObjects (updates : List ContractRowUpdate) : ContractCall Unit := do
  let resolved ← updates.mapM resolve
  (updates.zip resolved).forM fun (update, row) => rewriteRow update row

end ContractCall

namespace ContractDb

def startUndoSession (db : ContractDb) : ContractDb :=
  ⟨db.tables.startUndoSession, fun f => (db.rows f).startUndoSession⟩

def undo (db : ContractDb) : ContractDb := ⟨db.tables.undo, fun f => (db.rows f).undo⟩

def squash (db : ContractDb) : ContractDb := ⟨db.tables.squash, fun f => (db.rows f).squash⟩

def commit (db : ContractDb) (revision : Int) : ContractDb :=
  ⟨db.tables.commit revision, fun f => (db.rows f).commit revision⟩

end ContractDb

/-- The operations on contract rows and the session operations around them. -/
inductive ContractOp where
  | create (f : Family) (code scope table payer primaryKey : UInt64) (value : f.Value)
  | update (f : Family) (code scope table primaryKey payer : UInt64) (value : f.Value)
  | updateMany (updates : List ContractCall.ContractRowUpdate)
  | remove (f : Family) (code scope table primaryKey : UInt64)
  | startUndoSession
  | undo
  | squash
  | commit (revision : Int)

namespace ContractDb

/-- The state a call leaves behind, whatever its verdict. -/
def after {α : Type} (db : ContractDb) (call : ContractCall α) : ContractDb := (call db).2

def apply (db : ContractDb) : ContractOp → ContractDb
  | .create f code scope table payer primaryKey value =>
    db.after (ContractCall.createObject f code scope table payer primaryKey value)
  | .update f code scope table primaryKey payer value =>
    db.after (ContractCall.updateObject f code scope table primaryKey payer value)
  | .updateMany updates => db.after (ContractCall.updateKeyValueObjects updates)
  | .remove f code scope table primaryKey =>
    db.after (ContractCall.removeObject f code scope table primaryKey)
  | .startUndoSession => db.startUndoSession
  | .undo => db.undo
  | .squash => db.squash
  | .commit revision => db.commit revision

def run (db : ContractDb) (ops : List ContractOp) : ContractDb := ops.foldl apply db

end ContractDb

end PulseVM.ChainDb
