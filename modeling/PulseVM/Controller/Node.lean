import PulseVM.Lib.Keyed
import PulseVM.Controller.Blocks

/-!
The controller and what it stands on. How a transaction runs is left open: a machine runs
it on the database and reports what came of it. The controller decides what runs when, in
which undo session, and which of it becomes part of a block.
-/

namespace PulseVM.Controller
open Lib Lib.Encoding Lib.Calls

/-! The database. -/

/-- A generated transaction that waits for its time. -/
structure DeferredTransaction where
  sender : UInt64
  senderId : Nat
  payer : UInt64
  trxId : Id
  delayUntil : Int64
  expiration : Int64
  published : Int64
  packedTrx : Bytes
  deriving DecidableEq, Repr

/-- The tables that the controller itself works on, and the rest. -/
structure Database (ρ : Type) where
  features : ProtocolFeatures
  proposedSchedule : Option (UInt32 × Bytes)
  deferred : Keyed DeferredTransaction.trxId
  ramUsage : UInt64 → Option UInt64
  rest : ρ

variable {ρ lam sig : Type}

namespace Database

variable (db : Database ρ)

/-- What is due, by the time it was due and then in the order it was stored. -/
def dueDeferredTransactions (now : Int64) : List DeferredTransaction :=
  (db.deferred.rows.filter fun row => row.delayUntil ≤ now).insertionSort fun a b =>
    a.delayUntil ≤ b.delayUntil

def deferredTransactions : List DeferredTransaction :=
  db.deferred.rows.insertionSort fun a b =>
    a.trxId.toList.map UInt8.toNat ≤ b.trxId.toList.map UInt8.toNat

/-- An account without usage is skipped. -/
def addPendingRamUsage (owner : UInt64) (ramDelta : Int) : Database ρ :=
  { db with
    ramUsage := Function.update db.ramUsage owner
      ((db.ramUsage owner).map (· + UInt64.ofInt ramDelta)) }

def retireDeferredTransaction (trxId : Id) (payer : UInt64) (packedTrxLen : Nat) :
    Except ChainError Unit × Database ρ :=
  match Chain.generatedTransactionBillableSize packedTrxLen with
  | .error e => (.error (.apply e), db)
  | .ok size =>
    let refunded := db.addPendingRamUsage payer (-size)
    match refunded.deferred.find trxId with
    | none => (.error (.internalError
        s!"cannot retire missing deferred transaction {hexEncode trxId}"), refunded)
    | some _ => (.ok (), { refunded with deferred := refunded.deferred.erase trxId })

end Database

/-- A database and what its open undo sessions go back to, innermost first. -/
structure Arena (ρ : Type) where
  now : Database ρ
  saved : List (Database ρ)

namespace Arena

def startUndoSession (arena : Arena ρ) : Arena ρ := ⟨arena.now, arena.now :: arena.saved⟩

def undo (arena : Arena ρ) : Arena ρ :=
  match arena.saved with
  | before :: outer => ⟨before, outer⟩
  | [] => arena

def squash (arena : Arena ρ) : Arena ρ := { arena with saved := arena.saved.tail }

end Arena

/-! What is left open. -/

inductive BlockStatus where
  | building
  | verifying
  | accepting
  | benchmarking
  deriving DecidableEq, Repr

inductive AuthorizationCheck where
  | required
  | alreadyValidated
  deriving DecidableEq, Repr

inductive BlockResourceMode where
  | validateReceipts
  | replayValidatedReceipts
  | replayHistoricalReceipts
  deriving DecidableEq, Repr

inductive TransactionResourceMode where
  | measure
  | validateReceipt (cpuUs netWords : UInt32)
  | replayReceipt (cpuUs netWords : UInt32) (billFirstAuthorizer : Bool)
  deriving DecidableEq, Repr

/-- What a transaction can see of the block it runs in. -/
structure BlockContext where
  height : UInt32
  timestamp : UInt32
  status : BlockStatus
  schedules : ProducerScheduleState

/-- How transactions run and what surrounds the controller. Calls that are given `ρ` reach
only the tables the controller does not look at; `lam` is what a node remembers of failed
transactions, which no session undoes; `sig` is the state that signatures commit to. -/
structure Machine (ρ lam sig : Type) extends Wire where
  supports : UInt32 → Except ChainError Unit
  upgrades : List (Digest × UInt32)
  /-- An input transaction. -/
  input : BlockContext → TransactionResourceMode → AuthorizationCheck → PackedTransaction →
    Database ρ → lam → Except ChainError TransactionResult × Database ρ × lam
  /-- A generated transaction, published at a time; a failure says what it is billed. -/
  deferred : BlockContext → TransactionResourceMode → Int64 → PackedTransaction → Database ρ →
    Except (ChainError × UInt32) TransactionResult × Database ρ
  /-- The callback of a generated transaction that failed. -/
  onerror : BlockContext → DeferredTransaction → Database ρ →
    Except ChainError TransactionResult × Database ρ
  /-- The action at the head of every block, given the packed header of its parent. -/
  onblock : BlockContext → Bytes → Database ρ → Except ChainError TransactionResult × Database ρ
  contextSchedules : ProducerScheduleState → Except ChainError Unit
  clearExpiredInputTransactions : Int64 → ρ → Except ChainError Unit × ρ
  addTransactionUsage : UInt64 → UInt32 → UInt32 → Bool → ρ → Except ChainError Unit × ρ
  finalizeBlockResources : UInt32 → ρ → Except ChainError Unit × ρ
  updateProducersAuthority : List ProducerKey → ρ → Except ChainError Unit × ρ
  isAccount : UInt64 → ρ → Except ChainError Bool
  trxMerkle : List TransactionReceipt → Except ChainError Digest
  actionMerkle : List Digest → Digest
  signingDigest : sig → BlockHeader → Except ChainError Digest
  acceptSigning : sig → SignedBlock → Except ChainError sig
  recover : Bytes → Digest → Except ChainError PublicKey
  sign : Digest → Except ChainError Bytes
  producerName : UInt64
  publicKey : PublicKey
  antelopeBlockSignatures : Bool

/-! The controller. -/

structure PendingBlock where
  id : Id
  parent : Id
  traces : List TransactionTrace

/-- A controller with the pool it was called with. `dropped` is what the log says of
transactions that failed while a block was built. -/
structure Node (ρ lam sig : Type) where
  arena : Arena ρ
  protocolRecords : List (Digest × UInt32)
  lastAcceptedBlock : SignedBlock
  lastAcceptedBlockId : Id
  preferredId : Id
  verifiedBlocks : List (Id × SignedBlock)
  blockLog : UInt32 → Option SignedBlock
  activeSchedule : ProducerSchedule
  pendingSchedule : Option ProducerSchedule
  headerSigningState : sig
  blockSchedules : ProducerScheduleState
  pendingChain : List PendingBlock
  subjectiveBilling : lam
  mempool : Mempool
  dropped : List PackedTransaction

abbrev NodeCall (ρ lam sig : Type) := Lib.Calls.Call ChainError (Node ρ lam sig)

def Node.verified (node : Node ρ lam sig) (id : Id) : Option SignedBlock :=
  (node.verifiedBlocks.find? (·.1 = id)).map (·.2)

namespace NodeCall

variable {α : Type} (m : Machine ρ lam sig)

def lift (verdict : Except ChainError α) : NodeCall ρ lam sig α := fun node => (verdict, node)

def update (f : Node ρ lam sig → Node ρ lam sig) : NodeCall ρ lam sig Unit := fun node =>
  (.ok (), f node)

def onArena (f : Arena ρ → Arena ρ) : NodeCall ρ lam sig Unit :=
  update fun node => { node with arena := f node.arena }

def startUndoSession : NodeCall ρ lam sig Unit := onArena Arena.startUndoSession

def arenaUndo : NodeCall ρ lam sig Unit := onArena Arena.undo

def arenaSquash : NodeCall ρ lam sig Unit := onArena Arena.squash

def onDatabase (call : Database ρ → Except ChainError α × Database ρ) : NodeCall ρ lam sig α :=
  fun node =>
    let (verdict, db) := call node.arena.now
    (verdict, { node with arena := { node.arena with now := db } })

def onRest (call : ρ → Except ChainError α × ρ) : NodeCall ρ lam sig α :=
  onDatabase fun db =>
    let (verdict, rest) := call db.rest
    (verdict, { db with rest := rest })

theorem lift_bind_ok {β : Type} {verdict : Except ChainError α} {a : α} (ok : verdict = .ok a)
    (next : α → NodeCall ρ lam sig β) (node : Node ρ lam sig) :
    (lift verdict >>= next) node = next a node := by
  rw [ok]
  rfl

theorem onDatabase_run {call : Database ρ → Except ChainError α × Database ρ}
    {node : Node ρ lam sig} {verdict : Except ChainError α} {db : Database ρ}
    (ran : call node.arena.now = (verdict, db)) :
    onDatabase call node = (verdict, { node with arena := { node.arena with now := db } }) := by
  unfold onDatabase
  rw [ran]

/-- Run a call and look at its verdict; what it wrote stays. -/
def attempt (call : NodeCall ρ lam sig α) : NodeCall ρ lam sig (Except ChainError α) := fun node =>
  let (verdict, node) := call node
  (.ok verdict, node)

theorem attempt_run {call : NodeCall ρ lam sig α} {node after : Node ρ lam sig}
    {verdict : Except ChainError α} (ran : call node = (verdict, after)) :
    attempt call node = (.ok verdict, after) := by
  unfold attempt
  rw [ran]

def ensureProtocolVersionSupported (height : UInt32) : NodeCall ρ lam sig Unit :=
  lift (m.supports height)

/-- The upgrades that are active at a height; they are listed by their heights. -/
def configuredProtocolRecords (height : UInt32) : List (Digest × UInt32) :=
  m.upgrades.takeWhile fun upgrade => upgrade.2 ≤ height

/-- The persisted upgrades have to be those configured for the parent. -/
def prepareProtocolExecution (height : UInt32) : NodeCall ρ lam sig Unit := do
  let parent := if height = 0 then 0 else height - 1
  let stored ← Call.read (·.protocolRecords)
  lift (pulseAssert (stored = configuredProtocolRecords m parent) (.blockError
    s!"configured protocol upgrade schedule does not match the {stored.length} activation record(s) persisted at chain height {parent}"))

/-! What is derived for a parent. -/

/-- Apply the headers of the pending chain up to the parent. -/
def scheduleAlong (node : Node ρ lam sig) (parent : Id) :
    List PendingBlock → ProducerScheduleState → Except ChainError ProducerScheduleState
  | [], _ => .error (.blockError
      s!"cannot resolve producer schedule: parent {hexEncode parent} is unknown")
  | pending :: rest, state =>
    match node.verified pending.id with
    | none => .error (.blockError
        s!"pending block {hexEncode pending.id} is missing while deriving producer schedule state")
    | some block => do
      let (_, state) ← state.applyHeader m.toWire block.header
      if pending.id = parent then .ok state else scheduleAlong node parent rest state

def scheduleStateForParent (parent : Id) : NodeCall ρ lam sig ProducerScheduleState := fun node =>
  let state := ⟨node.activeSchedule, node.pendingSchedule⟩
  if parent = node.lastAcceptedBlockId then (.ok state, node)
  else (scheduleAlong m node parent node.pendingChain state, node)

def signingAlong (node : Node ρ lam sig) (parent : Id) :
    List PendingBlock → sig → Except ChainError sig
  | [], _ => .error (.blockError
      s!"cannot resolve Antelope signing state for unknown parent {hexEncode parent}")
  | pending :: rest, state =>
    match node.verified pending.id with
    | none => .error (.blockError
        s!"pending block {hexEncode pending.id} is missing while deriving Antelope signing state")
    | some block => do
      let state ← m.acceptSigning state block
      if pending.id = parent then .ok state else signingAlong node parent rest state

def headerSigningStateForParent (parent : Id) : NodeCall ρ lam sig sig := fun node =>
  if parent = node.lastAcceptedBlockId then (.ok node.headerSigningState, node)
  else (signingAlong m node parent node.pendingChain node.headerSigningState, node)

def timestampForParent (parent : Id) : NodeCall ρ lam sig UInt32 := fun node =>
  if parent = node.lastAcceptedBlockId then (.ok node.lastAcceptedBlock.header.timestamp, node)
  else
    match node.verified parent with
    | some block => (.ok block.header.timestamp, node)
    | none => (.error (.blockError
        s!"cannot resolve timestamp: parent {hexEncode parent} is unknown"), node)

def pendingTipId (node : Node ρ lam sig) : Id :=
  (node.pendingChain.getLast?.map (·.id)).getD node.lastAcceptedBlockId

/-! Running transactions. -/

/-- The context of a transaction; a generated one asks for the height of the pending tip. -/
def blockContext (height timestamp : UInt32) (status : BlockStatus) :
    NodeCall ρ lam sig BlockContext :=
  Call.read fun node => ⟨height, timestamp, status, node.blockSchedules⟩

/-- First-time validation compares what was measured with what the block declares. -/
def compareReceipt (mode : TransactionResourceMode) (id : Id) (result : TransactionResult) :
    Except ChainError Unit :=
  match mode with
  | .validateReceipt cpuUs netWords =>
    pulseAssert (result.trace.receipt.cpuUsageUs = cpuUs ∧
      result.trace.receipt.netUsageWords = netWords) (.blockError
        s!"transaction {hexEncode id} resource receipt mismatch: block declares CPU {cpuUs} and NET {netWords}, measured CPU {result.trace.receipt.cpuUsageUs} and NET {result.trace.receipt.netUsageWords}")
  | _ => .ok ()

def executeTransactionWithProtocol (transaction : PackedTransaction) (height timestamp : UInt32)
    (status : BlockStatus) (mode : TransactionResourceMode) (check : AuthorizationCheck) :
    NodeCall ρ lam sig TransactionResult := do
  let context ← blockContext height timestamp status
  let result ← fun node =>
    let (verdict, db, bills) :=
      m.input context mode check transaction node.arena.now node.subjectiveBilling
    (verdict, { node with arena := { node.arena with now := db }, subjectiveBilling := bills })
  lift (compareReceipt mode transaction.id result)
  return result

/-- Run a generated transaction of a block; it counts as published when the block is. -/
def executeDeferredFromBlock (transaction : PackedTransaction) (height timestamp : UInt32)
    (status : BlockStatus) (mode : TransactionResourceMode) : NodeCall ρ lam sig TransactionResult := do
  let context ← blockContext height timestamp status
  lift (m.contextSchedules context.schedules)
  let result ← onDatabase fun db =>
    let (verdict, db) := m.deferred context mode (slotMicros timestamp) transaction db
    (verdict.mapError Prod.fst, db)
  lift (compareReceipt mode transaction.id result)
  return result

/-- Run a generated transaction while a block is built, keeping what a failure is billed. -/
def executeDeferredTransactionWithFailure (transaction : PackedTransaction) (timestamp : UInt32)
    (status : BlockStatus) (published : Int64) :
    NodeCall ρ lam sig (Except (ChainError × UInt32) TransactionResult) := fun node =>
  let height := numFromId (pendingTipId node) + 1
  match m.supports height with
  | .error e => (.ok (.error (e, 0)), node)
  | .ok () =>
    match m.contextSchedules node.blockSchedules with
    | .error e => (.ok (.error (e, 0)), node)
    | .ok () =>
      let context := ⟨height, timestamp, status, node.blockSchedules⟩
      let (verdict, db) := m.deferred context .measure published transaction node.arena.now
      (.ok verdict, { node with arena := { node.arena with now := db } })

/-- The callback of a failed generated transaction, as a soft failure. -/
def executeDeferredOnerror (scheduled : DeferredTransaction) (timestamp : UInt32)
    (status : BlockStatus) : NodeCall ρ lam sig TransactionResult := do
  let height ← Call.read fun node => numFromId (pendingTipId node) + 1
  ensureProtocolVersionSupported m height
  let context ← blockContext height timestamp status
  lift (m.contextSchedules context.schedules)
  let result ← onDatabase (m.onerror context scheduled)
  return { result with trace := { result.trace with
    receipt := { result.trace.receipt with status := .softFail } } }

/-! The head of a block. -/

def getBlockByHeight (height : UInt32) : NodeCall ρ lam sig (Option SignedBlock) :=
  Call.read fun node =>
    if height = node.lastAcceptedBlock.blockNum then some node.lastAcceptedBlock
    else node.blockLog height

def getBlock (id : Id) : NodeCall ρ lam sig (Option SignedBlock) := do
  match ← Call.read (·.verified id) with
  | some block => return some block
  | none => getBlockByHeight (numFromId id)

def parentHeader (previous : Id) : NodeCall ρ lam sig BlockHeader := do
  let node ← Call.read id
  if previous = node.lastAcceptedBlockId then return node.lastAcceptedBlock.header
  else
    match ← getBlock previous with
    | some block => return block.header
    | none => Call.throw (.blockError
        s!"cannot execute onblock without parent block {hexEncode previous}")

/-- The action at the head of a block; if it fails it leaves no trace. -/
def runOnblock (height timestamp : UInt32) (previous : Id) (status : BlockStatus)
    (historicalReplay : Bool) : NodeCall ρ lam sig (List Digest × Option (List ProducerKey)) := do
  let header ← parentHeader previous
  let header := if historicalReplay then { header with timestamp := timestamp } else header
  let headerBytes ← lift ((m.packHeader header).mapError fun e =>
    .serializationError s!"failed to pack onblock header: {e}")
  startUndoSession
  let context ← blockContext height timestamp status
  lift (m.contextSchedules context.schedules)
  match ← attempt (onDatabase (m.onblock context headerBytes)) with
  | .ok result =>
    arenaSquash
    return (result.actionReceiptDigests, result.proposedSchedule)
  | .error _ =>
    arenaUndo
    return ([], none)

end NodeCall

end PulseVM.Controller
