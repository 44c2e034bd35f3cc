import PulseVM.Controller.Node

/-!
Executing a block: what its header changes, the action at its head, and then the
transaction of every receipt, generated ones from the table and others from the block.
-/

namespace PulseVM.Controller
open Lib Lib.Encoding Lib.Calls

variable {ρ lam sig : Type}

structure Draft where
  receipts : List TransactionReceipt
  traces : List TransactionTrace
  digests : List Digest
  deriving DecidableEq, Repr

namespace NodeCall

variable (m : Machine ρ lam sig)

def getProtocolFeatures : NodeCall ρ lam sig ProtocolFeatures := Call.read (·.arena.now.features)

/-- Features change as a whole or not at all. -/
def onFeatures (change : ProtocolFeatures → Except ChainError ProtocolFeatures) :
    NodeCall ρ lam sig Unit :=
  onDatabase fun db =>
    match change db.features with
    | .ok features => (.ok (), { db with features := features })
    | .error e => (.error e, db)

/-- A header without activations leaves the queue alone. -/
def activateFeatures (digests : List Digest) (blockNum : UInt32) : NodeCall ρ lam sig Unit :=
  if digests = [] then pure ()
  else onFeatures (·.activateProtocolFeatures digests blockNum)

def clearProposedSchedule : NodeCall ρ lam sig Unit :=
  onDatabase fun db => (.ok (), { db with proposedSchedule := none })

def readProposed (packed : Bytes) : NodeCall ρ lam sig ProducerSchedule :=
  lift ((m.readSchedule packed).mapError fun error =>
    .blockError s!"invalid stored proposed schedule: {error}")

def firstDifference (proposed header : ProducerSchedule) : String :=
  match (proposed.producers.zip header.producers).findIdx? fun pair => pair.1 ≠ pair.2 with
  | none =>
    s!"producer count differs: proposed {proposed.producers.length}, header {header.producers.length}"
  | some index =>
    s!"producer {index} differs: proposed {reprStr proposed.producers[index]?}, header {reprStr header.producers[index]?}"

/-- A schedule that a header announces has to be the one proposed in an earlier block. -/
def consumeProposal (block : SignedBlock) : NodeCall ρ lam sig Unit := do
  match ← lift (m.newSchedule block.header) with
  | none => pure ()
  | some headerSchedule =>
    match ← Call.read (·.arena.now.proposedSchedule) with
    | none => Call.throw (.blockError
        "block carries new_producers without an on-chain proposed schedule")
    | some (proposalBlock, packed) =>
      lift (pulseAssert (proposalBlock < block.blockNum) (.blockError
        s!"block {block.blockNum} promotes a schedule proposed in non-prior block {proposalBlock}"))
      let proposed ← readProposed m packed
      lift (pulseAssert (proposed = headerSchedule) (.blockError
        s!"block new_producers does not match the on-chain proposed schedule: proposed version {proposed.version}, header version {headerSchedule.version}; {firstDifference proposed headerSchedule}"))
      clearProposedSchedule

def retireDeferredTransaction (scheduled : DeferredTransaction) : NodeCall ρ lam sig Unit :=
  onDatabase fun db =>
    db.retireDeferredTransaction scheduled.trxId scheduled.payer scheduled.packedTrx.length

/-- A result without execution. -/
def retired (node : Node ρ lam sig) (id : Id) (timestamp : UInt32)
    (receipt : TransactionReceiptHeader) : TransactionResult where
  trace := ⟨id, node.lastAcceptedBlock.blockNum + 1, timestamp, true, receipt, []⟩
  billedCpuTimeUs := receipt.cpuUsageUs
  actionReceiptDigests := []
  proposedSchedule := none

/-- How the receipts of a block are billed. -/
def transactionResourceMode (mode : BlockResourceMode) (receipt : TransactionReceipt) :
    TransactionResourceMode :=
  match mode with
  | .validateReceipts =>
    .validateReceipt receipt.header.cpuUsageUs receipt.header.netUsageWords
  | .replayValidatedReceipts =>
    .replayReceipt receipt.header.cpuUsageUs receipt.header.netUsageWords false
  | .replayHistoricalReceipts =>
    .replayReceipt receipt.header.cpuUsageUs receipt.header.netUsageWords true

/-- Generated transactions: the receipt says what became of it, and the table what it is. -/
def executeScheduled (receipt : TransactionReceipt) (scheduled : DeferredTransaction)
    (height timestamp : UInt32) (status : BlockStatus) (mode : TransactionResourceMode) :
    NodeCall ρ lam sig TransactionResult := do
  let now := slotMicros timestamp
  let stage1 := (← getProtocolFeatures).protocolFeatureActivated disableDeferredTrxsStage1
  let id := receipt.transactionId
  lift (pulseAssert (stage1 ∨ scheduled.delayUntil ≤ now) (.blockError
    s!"block includes deferred transaction {hexEncode id} before its delay_until"))
  lift (pulseAssert receipt.packedTrx.isNone (.blockError
    s!"block embeds generated transaction {hexEncode id} instead of using its ID receipt"))
  retireDeferredTransaction scheduled
  let ended : Bool := stage1 ∨ scheduled.expiration < now
  match receipt.header.status with
  | .expired =>
    lift (pulseAssert (ended ∧ receipt.header.cpuUsageUs = 0 ∧ receipt.header.netUsageWords = 0)
      (.blockError
        s!"block has an invalid expired receipt for generated transaction {hexEncode id}"))
    Call.read fun node => retired node id timestamp ⟨.expired, 0, 0⟩
  | .executed =>
    lift (pulseAssert (!ended)
      (.blockError s!"block executes expired generated transaction {hexEncode id}"))
    let transaction ← lift (m.fromDeferredTransactionBytes scheduled.packedTrx)
    lift (pulseAssert (transaction.id = scheduled.trxId) (.blockError
      s!"Arena generated transaction {hexEncode id} does not match its packed bytes"))
    executeDeferredFromBlock m transaction height timestamp status mode
  | .softFail =>
    lift (pulseAssert (!ended)
      (.blockError s!"block soft-fails expired generated transaction {hexEncode id}"))
    executeDeferredOnerror m scheduled timestamp status
  | .hardFail =>
    lift (pulseAssert (!ended ∧ receipt.header.netUsageWords = 0) (.blockError
      s!"block has an invalid hard_fail receipt for generated transaction {hexEncode id}"))
    let transaction ← lift (m.fromDeferredTransactionBytes scheduled.packedTrx)
    match transaction.firstAuthorizer with
    | none => Call.throw (.blockError "hard_fail generated transaction has no authorizer")
    | some account =>
      onRest (m.addTransactionUsage account receipt.header.cpuUsageUs timestamp false)
      Call.read fun node => retired node id timestamp ⟨.hardFail, receipt.header.cpuUsageUs, 0⟩
  | .delayed => Call.throw (.blockError
      s!"block marks generated transaction {hexEncode id} as delayed")

/-- Run the transaction of a receipt: a generated one if the table has it. -/
def executeTransactionOf (height timestamp : UInt32) (status : BlockStatus)
    (check : AuthorizationCheck) (mode : TransactionResourceMode) (receipt : TransactionReceipt) :
    NodeCall ρ lam sig TransactionResult := do
  match ← Call.read fun node => node.arena.now.deferred.find receipt.transactionId with
  | some scheduled => executeScheduled m receipt scheduled height timestamp status mode
  | none =>
    match receipt.packedTrx with
    | none => Call.throw (.blockError
        s!"block references unknown generated transaction {hexEncode receipt.transactionId}")
    | some transaction =>
      executeTransactionWithProtocol m transaction height timestamp status mode check

/-- The pool forgets the transactions of a block that is being accepted. -/
def removeIncluded (status : BlockStatus) (receipt : TransactionReceipt) :
    NodeCall ρ lam sig Unit :=
  update fun node =>
    match status, receipt.packedTrx with
    | .accepting, some transaction =>
      { node with mempool := node.mempool.removeTransaction transaction.id }
    | _, _ => node

/-- The transaction of one receipt; its result has to match the receipt. -/
def executeReceipt (height timestamp : UInt32) (status : BlockStatus)
    (check : AuthorizationCheck) (mode : BlockResourceMode) (draft : Draft)
    (receipt : TransactionReceipt) : NodeCall ρ lam sig Draft := do
  let result ← executeTransactionOf m height timestamp status check
    (transactionResourceMode mode receipt) receipt
  lift (pulseAssert (result.trace.receipt = receipt.header) (.blockError
    s!"replayed transaction receipt {hexEncode receipt.transactionId} differs from the source header"))
  removeIncluded status receipt
  return ⟨draft.receipts ++ [receipt], draft.traces ++ [result.trace],
    draft.digests ++ result.actionReceiptDigests⟩

/-- A promoted schedule takes over the authority of the producers. -/
def promoteAuthority (promoted : Bool) (producers : List ProducerKey) : NodeCall ρ lam sig Unit :=
  if promoted then onRest (m.updateProducersAuthority producers) else pure ()

/-- The transactions of all receipts, and the roots. -/
def executeReceipts (block : SignedBlock) (digests : List Digest) (status : BlockStatus)
    (check : AuthorizationCheck) (mode : BlockResourceMode) :
    NodeCall ρ lam sig (List TransactionTrace × Digest × Digest) := do
  let draft ← block.transactions.foldlM
    (executeReceipt m block.blockNum block.header.timestamp status check mode) ⟨[], [], digests⟩
  let transactionMroot ← lift (m.trxMerkle draft.receipts)
  onRest (m.finalizeBlockResources block.blockNum)
  return (draft.traces, transactionMroot, m.actionMerkle draft.digests)

/-- What follows the activation of features. -/
def executeBody (block : SignedBlock) (promoted : Bool) (schedules : ProducerScheduleState)
    (status : BlockStatus) (check : AuthorizationCheck) (mode : BlockResourceMode) :
    NodeCall ρ lam sig (List TransactionTrace × Digest × Digest) := do
  consumeProposal m block
  onRest (m.clearExpiredInputTransactions (slotMicros block.header.timestamp))
  let (digests, _) ← runOnblock m block.blockNum block.header.timestamp block.header.previous status
    (mode = .replayHistoricalReceipts)
  promoteAuthority m promoted schedules.active.producers
  executeReceipts m block digests status check mode

def executeBlock (block : SignedBlock) (status : BlockStatus) (check : AuthorizationCheck)
    (mode : BlockResourceMode) : NodeCall ρ lam sig (List TransactionTrace × Digest × Digest) := do
  let height := block.blockNum
  ensureProtocolVersionSupported m height
  prepareProtocolExecution m height
  let parent ← scheduleStateForParent m block.header.previous
  let (promoted, schedules) ← lift (parent.applyHeader m.toWire block.header)
  update fun node => { node with blockSchedules := schedules }
  let activations ← lift block.header.protocolFeatureActivations
  activateFeatures activations height
  executeBody m block promoted schedules status check mode

/-! The pending chain. -/

/-- Undo pending blocks from the tip down until `len` of them remain. -/
def unwindPendingTo (len : Nat) : NodeCall ρ lam sig Unit :=
  update fun node => { node with
    arena := Arena.undo^[node.pendingChain.length - len] node.arena
    pendingChain := node.pendingChain.take len }

/-- The blocks from the last accepted one to the target, which all have to be verified.
There are at most as many as verified blocks unless they form a cycle. -/
def pathTo (node : Node ρ lam sig) : Nat → Id → List SignedBlock →
    Except ChainError (List SignedBlock)
  | 0, cursor, _ => .error (.networkError s!"block {hexEncode cursor} not found in verified blocks")
  | fuel + 1, cursor, path =>
    if cursor = node.lastAcceptedBlockId then .ok path
    else
      match node.verified cursor with
      | none => .error (.networkError s!"block {hexEncode cursor} not found in verified blocks")
      | some block => pathTo node fuel block.header.previous (block :: path)

/-- How far the pending chain already is the path. -/
def commonPrefix : List PendingBlock → List SignedBlock → Except ChainError Nat
  | pending :: chain, block :: path => do
    let id ← m.blockId block
    if pending.id = id then return (← commonPrefix chain path) + 1 else return 0
  | _, _ => .ok 0

def replayBlock (status : BlockStatus) (block : SignedBlock) : NodeCall ρ lam sig Unit := do
  startUndoSession
  match ← attempt (executeBlock m block status .alreadyValidated .replayValidatedReceipts) with
  | .error e =>
    arenaUndo
    Call.throw e
  | .ok (traces, _, _) =>
    let id ← lift (m.blockId block)
    update fun node => { node with
      pendingChain := node.pendingChain ++ [⟨id, block.header.previous, traces⟩] }

/-- Bring the pending chain to a verified block, keeping the part that is already there. -/
def replayAcceptedStateTo (target : Id) (status : BlockStatus) : NodeCall ρ lam sig Unit := do
  let node ← Call.read id
  let path ← lift (pathTo node (node.verifiedBlocks.length + 1) target [])
  let common ← lift (commonPrefix m node.pendingChain path)
  unwindPendingTo common
  (path.drop common).forM (replayBlock m status)

/-! Verification. -/

def validateHeader (header : BlockHeader) : NodeCall ρ lam sig Unit := do
  let producer ← onRest fun rest => (m.isAccount header.producer rest, rest)
  lift (pulseAssert producer (.blockError "producer account does not exist"))
  match ← lift (m.newSchedule header) with
  | some schedule =>
    lift (pulseAssert (schedule.producers ≠ []) (.blockError "new producer schedule is empty"))
  | none => pure ()
  let _ ← lift header.protocolFeatureActivations

def validateSyntactically (block : SignedBlock) : NodeCall ρ lam sig Unit := do
  validateHeader m block.header
  lift (pulseAssert (block.blockExtensions = []) (.blockError "block extensions not supported"))

def verifyBlockSigner (block : SignedBlock) (schedule : ProducerSchedule) (signer : PublicKey) :
    Except ChainError Unit :=
  match schedule.blockSigningKey block.header.producer with
  | none => .error (.blockError
      s!"block producer {block.header.producer} is not in the active schedule")
  | some expected => pulseAssert (signer = expected) (.blockError
      s!"block signature recovered {signer}, expected {expected} for producer {block.header.producer} in schedule version {schedule.version}")

def verifyBlockSignature (block : SignedBlock) (schedule : ProducerSchedule) (state : sig) :
    Except ChainError Unit := do
  let digest ← if m.antelopeBlockSignatures then m.signingDigest state block.header
    else m.sigDigest block.header
  verifyBlockSigner block schedule (← m.recover block.signature digest)

/-- Whether a block was verified or accepted before; another block of its height in the log
refuses it. -/
def alreadyKnown (block : SignedBlock) (id : Id) : NodeCall ρ lam sig Bool := do
  let node ← Call.read fun node => node
  if (node.verified id).isSome then return true
  else
    match node.blockLog block.blockNum with
    | none => return false
    | some existing =>
      let existingId ← lift (m.blockId existing)
      if existingId = id then
        update fun node => { node with verifiedBlocks := (id, block) :: node.verifiedBlocks }
        return true
      else Call.throw (.networkError
        s!"block with id {hexEncode id} has same block number as existing block in block log but different id")

/-- Authenticate a block against the schedule of its parent. -/
def authenticate (block : SignedBlock) (now : UInt32) : NodeCall ρ lam sig Unit := do
  ensureProtocolVersionSupported m block.blockNum
  validateSyntactically m block
  let parent ← scheduleStateForParent m block.header.previous
  let (_, schedules) ← lift (parent.applyHeader m.toWire block.header)
  let signing ← headerSigningStateForParent m block.header.previous
  let parentTimestamp ← timestampForParent block.header.previous
  lift (block.header.validateTimestamp parentTimestamp now)
  lift (verifyBlockSignature m block schedules.active signing)
  update fun node => { node with blockSchedules := schedules }

/-- Execute a block in a session of its own on its parent's state and keep it pending. -/
def applyBlock (block : SignedBlock) : NodeCall ρ lam sig Unit := do
  startUndoSession
  match ← attempt (executeBlock m block .verifying .required .validateReceipts) with
  | .error e =>
    arenaUndo
    Call.throw e
  | .ok (traces, transactionMroot, actionMroot) =>
    match block.validateSemantically transactionMroot actionMroot with
    | .error e =>
      arenaUndo
      Call.throw e
    | .ok () =>
      let id ← lift (m.blockId block)
      update fun node => { node with
        verifiedBlocks := (id, block) :: node.verifiedBlocks
        pendingChain := node.pendingChain ++ [⟨id, block.header.previous, traces⟩] }

def verifyBlock (block : SignedBlock) (now : UInt32) : NodeCall ρ lam sig Unit := do
  let id ← lift (m.blockId block)
  if ← alreadyKnown m block id then pure ()
  else
    authenticate m block now
    replayAcceptedStateTo m block.header.previous .verifying
    applyBlock m block

end NodeCall

end PulseVM.Controller
