import PulseVM.ChainDb.Contract

/-!
The database calls of an action. A contract reaches its rows by handles that the action's
caches hand out, and every row, table and deferred transaction is billed to the account
that pays for it. An action and the notifications it sends share one context.
-/

namespace PulseVM.Arena

/-- The bytes of a ref; slicing past the end of the arena panics. -/
def Registered.blob {T : Type} [ArenaObject T] (t : Registered T) (r : BlobRef) :
    Option Lib.Encoding.Bytes :=
  if r.off.toNat + r.len.toNat ≤ t.table.blobs.length then some (t.table.blob r) else none

namespace DeferredTransactionRow

instance : DeclaredIndex DeferredTransactionRow byTrxId := ⟨0, rfl⟩

instance : DeclaredIndex DeferredTransactionRow bySenderId := ⟨1, rfl⟩

end DeferredTransactionRow

end PulseVM.Arena

namespace PulseVM.Chain
open Arena ChainDb Lib.Encoding Lib.Calls
open ArenaObject hiding id

/-- Why a call fails. Errors of the database are wrapped with the name of the call, and a
panic ends the action like an error. -/
inductive ChainError where
  | transactionError (message : String)
  | internalError (message : String)
  | actionValidationError (message : String)
  | ramUsageOverflow (account : UInt64)
  | missingAuthority (account : UInt64)
  | payerDoesNotExist (account : UInt64)
  | ramInNotification (receiver account actionAccount actionName : UInt64)
  | ramNotAuthorized (account : UInt64)
  | inlineCodeDoesNotExist (account : UInt64)
  | arena (call : String) (error : TableError)
  | panicked
  deriving DecidableEq, Repr

/-! What is billed. -/

def billableAlignment : Nat := 16

def overheadPerRowPerIndexRamBytes : Nat := 32

def billableSize (value : Nat) : Nat :=
  (value + billableAlignment - 1) / billableAlignment * billableAlignment

def tableObjectSize : Nat := billableSize (44 + 2 * overheadPerRowPerIndexRamBytes)

def objectSize : Family → Nat
  | .primary => billableSize (32 + 8 + 4 + 2 * overheadPerRowPerIndexRamBytes)
  | .idx64 => billableSize (24 + 8 + 3 * overheadPerRowPerIndexRamBytes)
  | .idx128 => billableSize (24 + 16 + 3 * overheadPerRowPerIndexRamBytes)
  | .idx256 => billableSize (24 + 32 + 3 * overheadPerRowPerIndexRamBytes)
  | .idxDouble => billableSize (24 + 8 + 3 * overheadPerRowPerIndexRamBytes)
  | .idxLongDouble => billableSize (24 + 16 + 3 * overheadPerRowPerIndexRamBytes)

/-- Contract rows also pay for the bytes they store. -/
def valueSize : (f : Family) → f.Value → Nat
  | .primary, value => List.length (α := UInt8) value
  | .idx64, _ => 0
  | .idx128, _ => 0
  | .idx256, _ => 0
  | .idxDouble, _ => 0
  | .idxLongDouble, _ => 0

def generatedTransactionBillableSize (packedTrxLen : Nat) : Except ChainError Int :=
  if 2 ^ 63 ≤ packedTrxLen then
    .error (.transactionError "deferred transaction is too large to bill RAM")
  else if 2 ^ 63 ≤ 272 + packedTrxLen then
    .error (.transactionError "deferred transaction RAM bill overflows")
  else .ok (272 + packedTrxLen)

/-! Handles. -/

abbrev TableKey := UInt64 × UInt64 × UInt64

abbrev RowKey := UInt64 × UInt64 × UInt64 × UInt64

/-- Rows have the handles from zero on in the order they were first seen, tables the end
iterators from minus two down. A removed row leaves an empty slot. -/
structure ArenaIteratorCache where
  endToTable : List TableKey
  tableToEnd : TableKey → Option Int32
  iterToRow : List (Option RowKey)
  rowToIter : RowKey → Option Int32

namespace ArenaIteratorCache

def empty : ArenaIteratorCache := ⟨[], fun _ => none, [], fun _ => none⟩

/-- The end iterator of a table, given out on first use. -/
def cacheTable (c : ArenaIteratorCache) (t : TableKey) : Int32 × ArenaIteratorCache :=
  match c.tableToEnd t with
  | some ei => (ei, c)
  | none =>
    let ei := -(Int32.ofNat c.endToTable.length + 2)
    (ei, { c with
      endToTable := c.endToTable ++ [t]
      tableToEnd := Function.update c.tableToEnd t (some ei) })

def add (c : ArenaIteratorCache) (row : RowKey) : Int32 × ArenaIteratorCache :=
  match c.rowToIter row with
  | some h => (h, c)
  | none =>
    let h := Int32.ofNat c.iterToRow.length
    (h, { c with
      iterToRow := c.iterToRow ++ [some row]
      rowToIter := Function.update c.rowToIter row (some h) })

def rowOf (c : ArenaIteratorCache) (handle : Int32) : Option RowKey :=
  if handle < 0 then none else (c.iterToRow[handle.toInt.toNat]?).join

/-- Drop the handle of a row; its slot is not used again. -/
def remove (c : ArenaIteratorCache) (handle : Int32) : ArenaIteratorCache :=
  if handle < 0 then c
  else
    match (c.iterToRow[handle.toInt.toNat]?).join with
    | some row => { c with
        iterToRow := c.iterToRow.set handle.toInt.toNat none
        rowToIter := Function.update c.rowToIter row none }
    | none => c

end ArenaIteratorCache

/-! What a call can see of its surroundings. -/

inductive ProtocolFeature where
  | ramRestrictions
  | disableDeferredTrxsStage1
  | noDuplicateDeferredId
  | replaceDeferred
  deriving DecidableEq, Repr

structure Transaction (Action : Type) where
  expiration : UInt32
  refBlockNum : UInt16
  refBlockPrefix : UInt32
  maxNetUsageWords : UInt32
  maxCpuUsage : UInt8
  delaySec : UInt32
  contextFreeActions : List Action
  actions : List Action
  transactionExtensions : List (UInt16 × Bytes)

/-- The receiver and the action it receives, the chain around them, and what the call asks
of serialization and authorization. -/
structure ApplyEnv (Action : Type) where
  receiver : UInt64
  privileged : Bool
  actionAccount : UInt64
  authorizers : List UInt64
  activated : ProtocolFeature → Bool
  trxId : Vector UInt8 32
  pendingBlockMicros : Int64
  deferredTrxExpirationWindow : UInt32
  basePerTransactionNetUsage : UInt32
  checkNetUsage : UInt64 → Except ChainError Unit
  isAccount : UInt64 → Bool
  read : Bytes → Except String (Transaction Action × Bytes)
  pack : Transaction Action → Bytes
  trxIdOf : Transaction Action → Vector UInt8 32
  validateReferencedAccounts : Transaction Action → Except ChainError Unit
  checkAuthorization : List Action → Int → Except ChainError Unit
  transactionExists : Vector UInt8 32 → Bool

/-- The database as far as it is billed for, and what the context of an action holds. The
accounts with an entry among the deltas are listed, one for each charge. -/
structure ApplyState where
  contract : ContractDb
  deferred : Registered DeferredTransactionRow
  ramUsage : UInt64 → Option UInt64
  netUsage : UInt64
  caches : Family → ArenaIteratorCache
  accountRamDeltas : UInt64 → Int
  chargedAccounts : List UInt64

def ApplyState.enter (contract : ContractDb) (deferred : Registered DeferredTransactionRow)
    (ramUsage : UInt64 → Option UInt64) (netUsage : UInt64) : ApplyState :=
  ⟨contract, deferred, ramUsage, netUsage, fun _ => .empty, fun _ => 0, []⟩

abbrev ApplyCall := Call ChainError ApplyState

namespace ApplyCall

variable {α Action : Type}

def lift (verdict : Except ChainError α) : ApplyCall α := fun s => (verdict, s)

def pulseAssert (condition : Bool) (error : ChainError) : ApplyCall Unit :=
  if condition then pure () else Call.throw error

def onContract (name : String) (call : ContractCall α) : ApplyCall α := fun s =>
  match call s.contract with
  | (.ok a, db) => (.ok a, { s with contract := db })
  | (.error e, db) => (.error (.arena name e), { s with contract := db })

def onCache (f : Family) (op : ArenaIteratorCache → α × ArenaIteratorCache) : ApplyCall α :=
  fun s => (.ok (op (s.caches f)).1,
    { s with caches := Function.update s.caches f (op (s.caches f)).2 })

/-! Reads of the database. -/

def arenaTable (code scope table : UInt64) : ApplyCall (Option ContractTableRow) :=
  Call.read (·.contract.tables.findBy ContractTableRow.byCodeScopeTable (code, scope, table))

def arenaTableExists (code scope table : UInt64) : ApplyCall Bool :=
  return (← arenaTable code scope table).isSome

def arenaTablePayer (code scope table : UInt64) : ApplyCall (Option UInt64) :=
  return (← arenaTable code scope table).map (·.payer)

def arenaRow (f : Family) (code scope table primary : UInt64) : ApplyCall (Option f.Row) :=
  Call.read fun s => do
    let tId ← resolveTId s.contract.tables code scope table
    (s.contract.rows f).findBy (ContractRow.byPrimary f.Row) (tId, primary)

def arenaKvRow (code scope table primary : UInt64) : ApplyCall (Option (UInt64 × Bytes)) := do
  match ← arenaRow .primary code scope table primary with
  | none => return none
  | some (row : ContractKeyValueRow) =>
    match ← Call.read fun s => (s.contract.rows .primary).blob row.value with
    | none => Call.throw .panicked
    | some value => return some (row.payer, value)

def arenaIdxPayer (f : Family) (code scope table primary : UInt64) :
    ApplyCall (Option UInt64) :=
  return (← arenaRow f code scope table primary).map ContractRow.payer

/-! Charging. -/

/-- An account without usage is skipped. -/
def addPendingRamUsage (owner : UInt64) (ramDelta : Int) : ApplyCall Unit := fun s =>
  (.ok (), { s with
    ramUsage := Function.update s.ramUsage owner
      ((s.ramUsage owner).map (· + UInt64.ofInt ramDelta)) })

def addRamUsage (account : UInt64) (ramDelta : Int) : ApplyCall Unit := do
  addPendingRamUsage account ramDelta
  let sum ← Call.read fun s => s.accountRamDeltas account + ramDelta
  pulseAssert (-2 ^ 63 ≤ sum ∧ sum < 2 ^ 63) (.ramUsageOverflow account)
  fun s => (.ok (), { s with
    accountRamDeltas := Function.update s.accountRamDeltas account sum
    chargedAccounts := s.chargedAccounts ++ [account] })

def requiresLegacyEagerRamCheck (delta : Int) (ramRestrictionsActivated : Bool) : Bool :=
  0 < delta && !ramRestrictionsActivated

/-- Before `RAM_RESTRICTIONS` every increase is authorized where it is charged. -/
def eagerRamCheck (env : ApplyEnv Action) (payer : UInt64) (delta : Int) : ApplyCall Unit :=
  if requiresLegacyEagerRamCheck delta (env.activated .ramRestrictions) &&
      !(env.privileged || payer == env.receiver) then do
    pulseAssert (env.receiver = env.actionAccount)
      (.transactionError "cannot charge RAM to other accounts during notify")
    pulseAssert (payer ∈ env.authorizers)
      (.transactionError "cannot charge RAM to other accounts during notify")
  else pure ()

def updateDbUsage (env : ApplyEnv Action) (payer : UInt64) (delta : Int) : ApplyCall Unit := do
  eagerRamCheck env payer delta
  addRamUsage payer delta

/-! Contract rows. -/

/-- The name of a family in the texts of errors. -/
def rowText : Family → String
  | .primary => "key_value_object"
  | .idx64 => "index64"
  | .idx128 => "index128"
  | .idx256 => "index256"
  | .idxDouble => "idx_double"
  | .idxLongDouble => "idx_long_double"

def noRowText (f : Family) (iterator : Int32) : String :=
  match f with
  | .primary => s!"arena has no row for iterator {iterator}"
  | .idx64 => s!"arena has no idx64 row for {iterator}"
  | .idx128 => s!"arena has no idx128 row for {iterator}"
  | .idx256 => s!"arena has no idx256 row for {iterator}"
  | .idxDouble => s!"arena has no idx_double row for {iterator}"
  | .idxLongDouble => s!"arena has no idx_long_double row for {iterator}"

variable (env : ApplyEnv Action) (f : Family)

def storeRow (scope table payer primaryKey : UInt64) (value : f.Value) : ApplyCall Int32 := do
  onContract ("arena create_" ++ rowText f)
    (ContractCall.createObject f env.receiver scope table payer primaryKey value)
  let _ ← onCache f (·.cacheTable (env.receiver, scope, table))
  let res ← onCache f (·.add (env.receiver, scope, table, primaryKey))
  updateDbUsage env payer (valueSize f value + objectSize f)
  return res

/-- Store a row. The table is billed before the row, and only when it is not there yet. -/
def dbStore (scope table payer primaryKey : UInt64) (value : f.Value) : ApplyCall Int32 := do
  pulseAssert (payer ≠ 0)
    (.transactionError "must specify a valid account to pay for new record")
  let there ← arenaTableExists env.receiver scope table
  if there then pure () else updateDbUsage env payer tableObjectSize
  storeRow env f scope table payer primaryKey value

/-- The row of a handle, which only its own contract may change. -/
def rowOfOwn (iterator : Int32) : ApplyCall RowKey := do
  match ← Call.read fun s => (s.caches f).rowOf iterator with
  | none => Call.throw (.internalError s!"invalid iterator {iterator}")
  | some row =>
    pulseAssert (row.1 = env.receiver) (.transactionError "db access violation")
    return row

def rebill (oldPayer newPayer : UInt64) (oldSize newSize : Int) : ApplyCall Unit :=
  if oldPayer ≠ newPayer then do
    updateDbUsage env oldPayer (-oldSize)
    updateDbUsage env newPayer newSize
  else if oldSize ≠ newSize then updateDbUsage env newPayer (newSize - oldSize)
  else pure ()

def dbUpdateI64 (iterator : Int32) (payer : UInt64) (data : Bytes) : ApplyCall Unit := do
  let (code, scope, table, primary) ← rowOfOwn env .primary iterator
  match ← arenaKvRow code scope table primary with
  | none => Call.throw (.internalError (noRowText .primary iterator))
  | some (rowPayer, value) =>
    let newPayer := if payer = 0 then rowPayer else payer
    onContract "arena update_key_value_object"
      (ContractCall.updateObject .primary code scope table primary newPayer data)
    rebill env rowPayer newPayer (value.length + objectSize .primary)
      (data.length + objectSize .primary)

/-- The rows of an index all have the same size, so only a change of the payer is billed. -/
def dbIdxUpdate (iterator : Int32) (payer : UInt64) (secondary : f.Value) : ApplyCall Unit := do
  let (code, scope, table, primary) ← rowOfOwn env f iterator
  match ← arenaIdxPayer f code scope table primary with
  | none => Call.throw (.internalError (noRowText f iterator))
  | some oldPayer =>
    let newPayer := if payer = 0 then oldPayer else payer
    onContract ("arena update_" ++ rowText f)
      (ContractCall.updateObject f code scope table primary newPayer secondary)
    rebill env oldPayer newPayer (objectSize f) (objectSize f)

/-- Refund the table to the account that paid for it when its last row is gone. -/
def refundTableIfEmptied (code scope table tablePayer : UInt64) : ApplyCall Unit := do
  let there ← arenaTableExists code scope table
  if there then pure () else updateDbUsage env tablePayer (-tableObjectSize)

/-- Remove the row of a handle and the handle, then refund row and table. -/
def dropRow (iterator : Int32) (row : RowKey) (payer : UInt64) (size : Int) : ApplyCall Unit := do
  let (code, scope, table, primary) := row
  let tablePayer := (← arenaTablePayer code scope table).getD payer
  onContract ("arena remove_" ++ rowText f)
    (ContractCall.removeObject f code scope table primary)
  onCache f fun c => ((), c.remove iterator)
  updateDbUsage env payer (-size)
  refundTableIfEmptied env code scope table tablePayer

def dbRemoveI64 (iterator : Int32) : ApplyCall Unit := do
  let (code, scope, table, primary) ← rowOfOwn env .primary iterator
  match ← arenaKvRow code scope table primary with
  | none => Call.throw (.internalError (noRowText .primary iterator))
  | some (payer, value) =>
    dropRow env .primary iterator (code, scope, table, primary) payer
      (value.length + objectSize .primary)

/-- Where the row of an index is missing, the receiver stands in for its payer. -/
def dbIdxRemove (iterator : Int32) : ApplyCall Unit := do
  let (code, scope, table, primary) ← rowOfOwn env f iterator
  let payer := (← arenaIdxPayer f code scope table primary).getD env.receiver
  dropRow env f iterator (code, scope, table, primary) payer (objectSize f)

def dbFindI64 (code scope table primary : UInt64) : ApplyCall Int32 := do
  let there ← arenaTableExists code scope table
  if there then
    let row ← arenaKvRow code scope table primary
    if row.isSome then onCache .primary (·.add (code, scope, table, primary))
    else onCache .primary (·.cacheTable (code, scope, table))
  else return -1

def dbIdxFindPrimary (code scope table primary : UInt64) : ApplyCall Int32 := do
  let row ← arenaRow f code scope table primary
  if row.isSome then
    let _ ← onCache f (·.cacheTable (code, scope, table))
    onCache f (·.add (code, scope, table, primary))
  else
    let there ← arenaTableExists code scope table
    if there then onCache f (·.cacheTable (code, scope, table)) else return -1

def dbStoreI64 := dbStore env .primary

def dbIdx64Store := dbStore env .idx64
def dbIdx64Update := dbIdxUpdate env .idx64
def dbIdx64Remove := dbIdxRemove env .idx64
def dbIdx64FindPrimary := dbIdxFindPrimary .idx64

def dbIdx128Store := dbStore env .idx128
def dbIdx128Update := dbIdxUpdate env .idx128
def dbIdx128Remove := dbIdxRemove env .idx128
def dbIdx128FindPrimary := dbIdxFindPrimary .idx128

def dbIdx256Store := dbStore env .idx256
def dbIdx256Update := dbIdxUpdate env .idx256
def dbIdx256Remove := dbIdxRemove env .idx256
def dbIdx256FindPrimary := dbIdxFindPrimary .idx256

def dbIdxDoubleStore := dbStore env .idxDouble
def dbIdxDoubleUpdate := dbIdxUpdate env .idxDouble
def dbIdxDoubleRemove := dbIdxRemove env .idxDouble
def dbIdxDoubleFindPrimary := dbIdxFindPrimary .idxDouble

def dbIdxLongDoubleStore := dbStore env .idxLongDouble
def dbIdxLongDoubleUpdate := dbIdxUpdate env .idxLongDouble
def dbIdxLongDoubleRemove := dbIdxRemove env .idxLongDouble
def dbIdxLongDoubleFindPrimary := dbIdxFindPrimary .idxLongDouble

/-! Deferred transactions. -/

structure DeferredTransaction where
  payer : UInt64
  trxId : Vector UInt8 32
  packedTrx : Bytes

def senderKey (sender : UInt64) (senderId : BitVec 128) : UInt64 × UInt64 × UInt64 :=
  (sender, ⟨(senderId >>> 64).setWidth 64⟩, ⟨senderId.setWidth 64⟩)

def materialize (row : DeferredTransactionRow) : ApplyCall DeferredTransaction := do
  match ← Call.read fun s => s.deferred.blob row.packedTrx with
  | none => Call.throw .panicked
  | some packedTrx => return ⟨row.payer, row.trxId, packedTrx⟩

def arenaDeferredTransaction (trxId : Vector UInt8 32) : ApplyCall (Option DeferredTransaction) := do
  match ← Call.read fun s => s.deferred.findBy DeferredTransactionRow.byTrxId trxId with
  | none => return none
  | some row => return some (← materialize row)

def arenaDeferredTransactionBySenderId (sender : UInt64) (senderId : BitVec 128) :
    ApplyCall (Option DeferredTransaction) := do
  match ← Call.read fun s =>
      s.deferred.findBy DeferredTransactionRow.bySenderId (senderKey sender senderId) with
  | none => return none
  | some row => return some (← materialize row)

def onDeferred (name : String) (op : Registered DeferredTransactionRow →
    Except TableError α × Registered DeferredTransactionRow) : ApplyCall α := fun s =>
  ((op s.deferred).1.mapError (.arena name), { s with deferred := (op s.deferred).2 })

def arenaRemoveDeferredTransactionBySenderId (sender : UInt64) (senderId : BitVec 128) :
    ApplyCall (Option DeferredTransaction) := do
  match ← Call.read fun s =>
      s.deferred.findBy DeferredTransactionRow.bySenderId (senderKey sender senderId) with
  | none => return none
  | some row =>
    let removed ← materialize row
    onDeferred "arena remove deferred transaction by sender id" (·.remove row.id)
    return some removed

def fillDeferred (sender : UInt64) (senderId : BitVec 128) (payer : UInt64)
    (trxId : Vector UInt8 32) (delayUntil expiration published : Int64) (packedTrx : BlobRef)
    (row : DeferredTransactionRow) : DeferredTransactionRow :=
  { row with
    sender := sender
    senderIdLo := (senderKey sender senderId).2.2
    senderIdHi := (senderKey sender senderId).2.1
    payer := payer
    trxId := trxId
    delayUntil := delayUntil
    expiration := expiration
    published := published
    packedTrx := packedTrx }

def xprImportDeferredTransaction (sender : UInt64) (senderId : BitVec 128) (payer : UInt64)
    (trxId : Vector UInt8 32) (delayUntil expiration published : Int64) (packedTrx : Bytes) :
    ApplyCall Unit := do
  let packedTrxRef ← onDeferred "XPR import deferred transaction" fun t =>
    (.ok (t.allocBlob packedTrx).1, (t.allocBlob packedTrx).2)
  let _ ← onDeferred "XPR import deferred transaction" (·.create
    (fillDeferred sender senderId payer trxId delayUntil expiration published packedTrxRef))
  pure ()

def addNetUsage (netUsage : UInt64) : ApplyCall Unit := do
  let before ← Call.read (·.netUsage)
  pulseAssert (before.toNat + netUsage.toNat < 2 ^ 64) (.actionValidationError "net usage overflow")
  fun s => (.ok (), { s with netUsage := before + netUsage })
  lift (env.checkNetUsage (before + netUsage))

def assertThat (condition : Bool) (error : ChainError) : Except ChainError Unit :=
  if condition then .ok () else .error error

/-- The generation context of a deferred transaction, part of its identity once
`NO_DUPLICATE_DEFERRED_ID` is active. -/
def generationContext (senderId : BitVec 128) : Bytes :=
  env.trxId.toList ++ leBytes 16 senderId.toNat ++ leBytes 8 env.receiver.toNat

/-- The transaction that is stored for the one that was sent. -/
def generated (senderId : BitVec 128) (trx : Transaction Action) : Transaction Action :=
  if env.activated .noDuplicateDeferredId && trx.transactionExtensions.isEmpty then
    { trx with
      transactionExtensions := [(0, generationContext env senderId)]
      expiration := 0
      refBlockNum := 0
      refBlockPrefix := 0 }
  else trx

/-- The rules for the extensions of a deferred transaction. -/
def checkExtensions (senderId : BitVec 128) (trx : Transaction Action) : Except ChainError Unit := do
  if env.activated .noDuplicateDeferredId then
    match (generated env senderId trx).transactionExtensions with
    | [(0, extension)] =>
      assertThat (extension.length = 56) (.transactionError
        "only the deferred transaction generation context extension is supported")
      assertThat ((extension.drop 32).take 16 = leBytes 16 senderId.toNat ∧
          (extension.drop 48).take 8 = leBytes 8 env.receiver.toNat)
        (.transactionError "deferred transaction generation context does not match sender")
      assertThat (extension.take 32 = env.trxId.toList) (.transactionError
        "deferred transaction generation context does not match parent transaction")
    | _ => .error (.transactionError
        "only the deferred transaction generation context extension is supported")
  else
    assertThat trx.transactionExtensions.isEmpty (.transactionError
      "transaction extensions are not supported for deferred transactions")

/-- Everything that is asked of a deferred transaction before the database is looked at. -/
def checkSent (senderId : BitVec 128) (payer : UInt64) (trx : Transaction Action) (rest : Bytes) :
    Except ChainError Unit := do
  assertThat rest.isEmpty (.transactionError "deferred transaction contains trailing bytes")
  assertThat (!trx.actions.isEmpty) (.transactionError "deferred transaction has no actions")
  assertThat trx.contextFreeActions.isEmpty
    (.transactionError "context free actions are not allowed in deferred transactions")
  env.validateReferencedAccounts trx
  assertThat (env.isAccount payer) (.payerDoesNotExist payer)
  assertThat (payer = env.receiver ∨ payer ∈ env.authorizers) (.missingAuthority payer)
  if !env.privileged then env.checkAuthorization trx.actions (trx.delaySec.toNat * 1000000)
  checkExtensions env senderId trx

def checkDeferred (senderId : BitVec 128) (payer : UInt64) (packedTrx : Bytes) :
    Except ChainError (Transaction Action) :=
  match env.read packedTrx with
  | .error e => .error (.transactionError ("failed to deserialize deferred transaction: " ++ e))
  | .ok (trx, rest) =>
    match checkSent env senderId payer trx rest with
    | .error e => .error e
    | .ok () => .ok (generated env senderId trx)

def checkedAdd (a b : Int) (message : String) : Except ChainError Int :=
  if a + b < 2 ^ 63 then .ok (a + b) else .error (.transactionError message)

/-- Once `NO_DUPLICATE_DEFERRED_ID` is active, only a replacement may keep its id. -/
def checkDuplicate (existing : Option (Vector UInt8 32)) (trxId : Vector UInt8 32) :
    ApplyCall Unit :=
  if env.activated .noDuplicateDeferredId then do
    let pending ← arenaDeferredTransaction trxId
    pulseAssert (!((pending.isSome || env.transactionExists trxId) && existing != some trxId))
      (.transactionError "deferred transaction id is already pending")
  else pure ()

def refundDeferred (old : DeferredTransaction) : ApplyCall Unit := do
  let size ← lift (generatedTransactionBillableSize old.packedTrx.length)
  updateDbUsage env old.payer (-size)

def dropExisting (senderId : BitVec 128) : Option DeferredTransaction → ApplyCall Unit
  | none => pure ()
  | some old => do
    let _ ← arenaRemoveDeferredTransactionBySenderId env.receiver senderId
    refundDeferred env old

def enqueueDeferred (senderId : BitVec 128) (payer : UInt64) (trx : Transaction Action)
    (delayUntil expiration : Int64) : ApplyCall Unit := do
  xprImportDeferredTransaction env.receiver senderId payer (env.trxIdOf trx) delayUntil expiration
    env.pendingBlockMicros (env.pack trx)
  addNetUsage env (UInt64.ofNat (env.basePerTransactionNetUsage.toNat + 32))
  let size ← lift (generatedTransactionBillableSize (env.pack trx).length)
  updateDbUsage env payer size

/-- Queue a checked transaction in the place of the one that is queued under its sender
id. -/
def queueDeferred (senderId : BitVec 128) (payer : UInt64) (trx : Transaction Action)
    (replaceExisting : Bool) (existing : Option DeferredTransaction) : ApplyCall Unit := do
  pulseAssert (existing.isNone || replaceExisting)
    (.transactionError "deferred transaction with this sender id already exists")
  pulseAssert (existing.isNone || env.activated .replaceDeferred) (.transactionError
    "replacing deferred transactions requires the REPLACE_DEFERRED protocol feature")
  checkDuplicate env (existing.map (·.trxId)) (env.trxIdOf trx)
  let delayUntil ← lift (checkedAdd env.pendingBlockMicros.toInt (trx.delaySec.toNat * 1000000)
    "deferred delay overflows timestamp")
  let expiration ← lift (checkedAdd delayUntil
    (env.deferredTrxExpirationWindow.toNat * 1000000) "deferred expiration overflows timestamp")
  dropExisting env senderId existing
  enqueueDeferred env senderId payer trx (Int64.ofInt delayUntil) (Int64.ofInt expiration)

def scheduleDeferred (senderId : BitVec 128) (payer : UInt64) (packedTrx : Bytes)
    (replaceExisting : Bool) : ApplyCall Unit :=
  if env.activated .disableDeferredTrxsStage1 then pure ()
  else do
    let trx ← lift (checkDeferred env senderId payer packedTrx)
    let existing ← arenaDeferredTransactionBySenderId env.receiver senderId
    queueDeferred env senderId payer trx replaceExisting existing

def cancelDeferred (senderId : BitVec 128) : ApplyCall Bool :=
  if env.activated .disableDeferredTrxsStage1 then return false
  else do
    match ← arenaRemoveDeferredTransactionBySenderId env.receiver senderId with
    | none => return false
    | some existing =>
      refundDeferred env existing
      return true

end ApplyCall

/-- The calls of a contract that change what is billed, and the lookups that give out
handles. -/
inductive ApplyOp where
  | store (f : Family) (scope table payer primaryKey : UInt64) (value : f.Value)
  | updateI64 (iterator : Int32) (payer : UInt64) (data : Bytes)
  | idxUpdate (f : Family) (index : f ≠ .primary) (iterator : Int32) (payer : UInt64)
      (secondary : f.Value)
  | removeI64 (iterator : Int32)
  | idxRemove (f : Family) (index : f ≠ .primary) (iterator : Int32)
  | findI64 (code scope table primary : UInt64)
  | idxFindPrimary (f : Family) (index : f ≠ .primary) (code scope table primary : UInt64)
  | scheduleDeferred (senderId : BitVec 128) (payer : UInt64) (packedTrx : Bytes)
      (replaceExisting : Bool)
  | cancelDeferred (senderId : BitVec 128)

namespace ApplyCall

def perform {Action : Type} (env : ApplyEnv Action) : ApplyOp → ApplyCall Unit
  | .store f scope table payer primaryKey value => do
    let _ ← dbStore env f scope table payer primaryKey value
  | .updateI64 iterator payer data => dbUpdateI64 env iterator payer data
  | .idxUpdate f _ iterator payer secondary => dbIdxUpdate env f iterator payer secondary
  | .removeI64 iterator => dbRemoveI64 env iterator
  | .idxRemove f _ iterator => dbIdxRemove env f iterator
  | .findI64 code scope table primary => do
    let _ ← dbFindI64 code scope table primary
  | .idxFindPrimary f _ code scope table primary => do
    let _ ← dbIdxFindPrimary f code scope table primary
  | .scheduleDeferred senderId payer packedTrx replaceExisting =>
    scheduleDeferred env senderId payer packedTrx replaceExisting
  | .cancelDeferred senderId => do
    let _ ← cancelDeferred env senderId

/-- The calls of an action and of the notifications it sends, each with what it sees; the
first that fails ends the action. -/
def performAll {Action : Type} (calls : List (ApplyEnv Action × ApplyOp)) : ApplyCall Unit :=
  calls.forM fun (env, op) => perform env op

end ApplyCall

end PulseVM.Chain
