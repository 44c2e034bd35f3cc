import PulseVM.Controller.Execute

/-!
Building a block: generated transactions that are due come first, then what the pool holds.
A transaction that is already part of a verified block waits for that block's fate.
-/

namespace PulseVM.Controller
open Lib Lib.Encoding Lib.Calls

variable {ρ lam sig : Type}

def Draft.add (draft : Draft) (receipt : TransactionReceipt) (result : TransactionResult) : Draft :=
  ⟨draft.receipts ++ [receipt], draft.traces ++ [result.trace],
    draft.digests ++ result.actionReceiptDigests⟩

namespace NodeCall

variable (m : Machine ρ lam sig)

/-! Generated transactions. -/

/-- An expired one is retired without running. -/
def expireScheduled (timestamp : UInt32) (draft : Draft) (scheduled : DeferredTransaction) :
    NodeCall ρ lam sig Draft := do
  retireDeferredTransaction scheduled
  let receipt := ⟨.expired, 0, 0⟩
  let result ← Call.read fun node => retired node scheduled.trxId timestamp receipt
  return draft.add ⟨receipt, .id scheduled.trxId⟩ result

/-- Both the transaction and its callback failed: it is retired and its authorizer billed. -/
def hardFail (timestamp : UInt32) (draft : Draft) (scheduled : DeferredTransaction)
    (transaction : PackedTransaction) (failureCpuUs : UInt32) : NodeCall ρ lam sig Draft := do
  match transaction.firstAuthorizer with
  | none => Call.throw (.transactionError "deferred transaction has no authorizer")
  | some account =>
    onRest (m.addTransactionUsage account failureCpuUs timestamp true)
    let receipt := ⟨.hardFail, failureCpuUs, 0⟩
    let result ← Call.read fun node => retired node scheduled.trxId timestamp receipt
    arenaSquash
    return draft.add ⟨receipt, .id scheduled.trxId⟩ result

/-- Retirement stays in an outer session while the transaction, and then its callback, run
in inner ones. -/
def runScheduled (timestamp : UInt32) (draft : Draft) (scheduled : DeferredTransaction)
    (transaction : PackedTransaction) : NodeCall ρ lam sig Draft := do
  startUndoSession
  match ← executeDeferredTransactionWithFailure m transaction timestamp .building
      scheduled.published with
  | .ok result =>
    arenaSquash
    arenaSquash
    return draft.add ⟨result.trace.receipt, .id scheduled.trxId⟩ result
  | .error (_, failureCpuUs) =>
    arenaUndo
    startUndoSession
    match ← attempt (executeDeferredOnerror m scheduled timestamp .building) with
    | .ok result =>
      arenaSquash
      arenaSquash
      return draft.add ⟨result.trace.receipt, .id scheduled.trxId⟩ result
    | .error _ =>
      arenaUndo
      hardFail m timestamp draft scheduled transaction failureCpuUs

/-- One generated transaction of the list that was read before any of them ran. -/
def buildScheduled (timestamp : UInt32) (stage1 : Bool) (draft : Draft)
    (scheduled : DeferredTransaction) : NodeCall ρ lam sig Draft := do
  if stage1 ∨ scheduled.expiration < slotMicros timestamp then
    expireScheduled timestamp draft scheduled
  else
    match m.fromDeferredTransactionBytes scheduled.packedTrx with
    | .error error => Call.throw (.transactionError
        s!"cannot decode deferred transaction {hexEncode scheduled.trxId}: {reprStr error}")
    | .ok transaction =>
      if transaction.id ≠ scheduled.trxId then
        arenaUndo
        Call.throw (.transactionError
          s!"deferred transaction {hexEncode scheduled.trxId} has an id that does not match its packed bytes")
      else
        startUndoSession
        match ← attempt (retireDeferredTransaction scheduled) with
        | .error e =>
          arenaUndo
          Call.throw e
        | .ok () => runScheduled m timestamp draft scheduled transaction

/-- What is due; from stage 1 on everything is, and expires. -/
def scheduledTransactions (timestamp : UInt32) (stage1 : Bool) :
    NodeCall ρ lam sig (List DeferredTransaction) :=
  Call.read fun node =>
    if stage1 then node.arena.now.deferredTransactions
    else node.arena.now.dueDeferredTransactions (slotMicros timestamp)

/-! Transactions of the pool. -/

/-- Run one transaction in a session of its own. -/
def buildTransaction (height timestamp : UInt32) (draft : Draft) (transaction : PackedTransaction) :
    NodeCall ρ lam sig Draft := do
  startUndoSession
  match ← attempt (executeTransactionWithProtocol m transaction height timestamp .building .measure
      .required) with
  | .ok result =>
    arenaSquash
    return draft.add ⟨result.trace.receipt, .packed transaction⟩ result
  | .error _ =>
    update fun node => { node with dropped := node.dropped ++ [transaction] }
    arenaUndo
    return draft

/-- Pop transactions until the pool is empty, which takes as many rounds as it holds. Those
of pending blocks are set aside. -/
def fillBlock (height timestamp : UInt32) (pendingTxIds : List Id) :
    Nat → Draft → List PackedTransaction → NodeCall ρ lam sig (Draft × List PackedTransaction)
  | 0, draft, aside => pure (draft, aside)
  | rounds + 1, draft, aside => do
    match ← Call.read (·.mempool.popTransaction) with
    | none => return (draft, aside)
    | some (transaction, mempool) =>
      update fun node => { node with mempool := mempool }
      if transaction.id ∈ pendingTxIds then
        fillBlock height timestamp pendingTxIds rounds draft (aside ++ [transaction])
      else
        let draft ← buildTransaction m height timestamp draft transaction
        fillBlock height timestamp pendingTxIds rounds draft aside

def returnAside (receivedAt : PackedTransaction → UInt32) (aside : List PackedTransaction) :
    NodeCall ρ lam sig Unit :=
  update fun node => { node with
    mempool := aside.foldl (fun pool t => pool.addTransactionAt t (receivedAt t)) node.mempool }

def pendingTxIds (node : Node ρ lam sig) : List Id :=
  node.verifiedBlocks.flatMap fun entry => entry.2.transactions.map (·.transactionId)

/-! The block around them. -/

/-- The schedule of the new block: an accepted pending one is promoted. -/
def blockSchedule (node : Node ρ lam sig) (parent : ProducerScheduleState) : ProducerSchedule :=
  match node.pendingSchedule with
  | some accepted => if parent.active.version < accepted.version then accepted else parent.active
  | none => parent.active

/-- A schedule proposed in an earlier block is announced if none is pending. -/
def announcedSchedule (height : UInt32) (parent : ProducerScheduleState) :
    NodeCall ρ lam sig (Option ProducerSchedule) := do
  if parent.pending.isSome then return none
  else
    match ← Call.read (·.arena.now.proposedSchedule) with
    | some (proposalBlock, packed) =>
      if proposalBlock < height then
        let schedule ← readProposed m packed
        clearProposedSchedule
        return some schedule
      else return none
    | none => return none

/-- What a block starts with: schedules, features, and the action at its head. -/
def openBlock (height timestamp : UInt32) :
    NodeCall ρ lam sig (ProducerSchedule × Option ProducerSchedule × List Digest × List Digest) := do
  onRest (m.clearExpiredInputTransactions (slotMicros timestamp))
  let previous ← Call.read (·.preferredId)
  let parent ← scheduleStateForParent m previous
  let schedule ← Call.read fun node => blockSchedule node parent
  update fun node => { node with blockSchedules := { node.blockSchedules with active := schedule } }
  let activations := (← getProtocolFeatures).preactivated
  activateFeatures activations (numFromId previous + 1)
  let announced ← announcedSchedule m height parent
  let pending :=
    if announced.isSome then announced
    else if schedule.version = parent.active.version then parent.pending
    else none
  update fun node => { node with blockSchedules := { node.blockSchedules with pending := pending } }
  let (digests, _) ← runOnblock m height timestamp previous .building false
  return (schedule, announced, activations, digests)

def sigDigestOn (previous : Id) (header : BlockHeader) : NodeCall ρ lam sig Digest := do
  if m.antelopeBlockSignatures then
    let state ← headerSigningStateForParent m previous
    lift (m.signingDigest state header)
  else lift (m.sigDigest header)

/-- Put a draft into a block, sign it, and keep it pending. -/
def sealBlock (timestamp : UInt32) (schedule : ProducerSchedule)
    (announced : Option ProducerSchedule) (activations : List Digest) (draft : Draft) :
    NodeCall ρ lam sig SignedBlock := do
  let previous ← Call.read (·.preferredId)
  let transactionMroot ← lift (m.trxMerkle draft.receipts)
  let header : BlockHeader := ⟨timestamp, m.producerName, 0, previous, transactionMroot,
    m.actionMerkle draft.digests, 0, none, []⟩
  let header ← lift (header.setProtocolFeatureActivations activations)
  if schedule.blockSigningKey m.producerName ≠ some m.publicKey then
    arenaUndo
    Call.throw (.blockError
      s!"node key is not the active schedule key for producer {m.producerName}; refusing to produce")
  else
    let header := { header with scheduleVersion := schedule.version, newProducers := announced }
    let sigDigest ← sigDigestOn m previous header
    let signature ← lift (m.sign sigDigest)
    let block := ⟨header, signature, draft.receipts, []⟩
    let id ← lift (m.blockId block)
    onRest (m.finalizeBlockResources block.blockNum)
    update fun node => { node with
      verifiedBlocks := (id, block) :: node.verifiedBlocks
      pendingChain := node.pendingChain ++ [⟨id, previous, draft.traces⟩] }
    return block

/-- The wall clock, but at least the slot after the parent's; the sum saturates. -/
def nextTimestamp (wallClock parentTimestamp : UInt32) : UInt32 :=
  max wallClock (UInt32.ofNat (min (parentTimestamp.toNat + 1) (2 ^ 32 - 1)))

/-- Open the block's session, and run what comes before the transactions of the pool. -/
def startBlock (height timestamp : UInt32) :
    NodeCall ρ lam sig (UInt32 × ProducerSchedule × Option ProducerSchedule × List Digest × Draft) := do
  startUndoSession
  match ← attempt (prepareProtocolExecution m height) with
  | .error e =>
    arenaUndo
    Call.throw e
  | .ok () =>
    let (schedule, announced, activations, digests) ← openBlock m height timestamp
    let stage1 := (← getProtocolFeatures).protocolFeatureActivated disableDeferredTrxsStage1
    let scheduled ← scheduledTransactions timestamp stage1
    let draft ← scheduled.foldlM (buildScheduled m timestamp stage1) ⟨[], [], digests⟩
    return (timestamp, schedule, announced, activations, draft)

/-- Everything up to the transactions of the pool; expired ones leave the pool. -/
def beginBlock (wallClock : UInt32) :
    NodeCall ρ lam sig (UInt32 × ProducerSchedule × Option ProducerSchedule × List Digest × Draft) := do
  let previous ← Call.read (·.preferredId)
  let height := numFromId previous + 1
  ensureProtocolVersionSupported m height
  replayAcceptedStateTo m previous .building
  let parentTimestamp ← timestampForParent previous
  let timestamp := nextTimestamp wallClock parentTimestamp
  update fun node => { node with mempool := node.mempool.pruneExpired (slotSeconds timestamp) }
  startBlock m height timestamp

def finishBlock (timestamp : UInt32) (schedule : ProducerSchedule)
    (announced : Option ProducerSchedule) (activations : List Digest) (draft : Draft) :
    NodeCall ρ lam sig SignedBlock := do
  if draft.receipts = [] then
    arenaUndo
    Call.throw (.networkError "built block has no transactions")
  else sealBlock m timestamp schedule announced activations draft

/-- Everything that is put into a block: what it begins with and what the pool holds. -/
def assembleBlock (wallClock : UInt32) (receivedAt : PackedTransaction → UInt32) :
    NodeCall ρ lam sig (UInt32 × ProducerSchedule × Option ProducerSchedule × List Digest × Draft) := do
  let pending ← Call.read pendingTxIds
  let height ← Call.read fun node => numFromId node.preferredId + 1
  let (timestamp, schedule, announced, activations, draft) ← beginBlock m wallClock
  let rounds ← Call.read (·.mempool.transactionsList.length)
  let (draft, aside) ← fillBlock m height timestamp pending rounds draft []
  returnAside receivedAt aside
  return (timestamp, schedule, announced, activations, draft)

def buildBlock (wallClock : UInt32) (receivedAt : PackedTransaction → UInt32) :
    NodeCall ρ lam sig SignedBlock := do
  let (timestamp, schedule, announced, activations, draft) ← assembleBlock m wallClock receivedAt
  finishBlock m timestamp schedule announced activations draft

end NodeCall

/-! A small chain to evaluate. -/

def idleResult (id : Id) : TransactionResult :=
  ⟨⟨id, 0, 0, false, ⟨.executed, 0, 0⟩, []⟩, 0, [], none⟩

def zeroId : Id := Vector.replicate 32 0

/-- Every transaction succeeds and does nothing; the node signs as producer 1 with a key. -/
def idleMachine (publicKey : PublicKey) : Machine Unit Unit Unit where
  readSchedule _ := .error "no schedule"
  readAuthoritySchedule _ := .error "no schedule"
  packHeader _ := .ok []
  hash _ := zeroId
  fromDeferredTransactionBytes bytes := .ok ⟨zeroId, 0, some 1, bytes⟩
  supports _ := .ok ()
  upgrades := []
  input _ _ _ t db lam := (.ok (idleResult t.id), db, lam)
  deferred _ _ _ t db := (.ok (idleResult t.id), db)
  onerror _ row db := (.ok (idleResult row.trxId), db)
  onblock _ _ db := (.ok (idleResult zeroId), db)
  contextSchedules _ := .ok ()
  clearExpiredInputTransactions _ rest := (.ok (), rest)
  addTransactionUsage _ _ _ _ rest := (.ok (), rest)
  finalizeBlockResources _ rest := (.ok (), rest)
  updateProducersAuthority _ rest := (.ok (), rest)
  isAccount _ _ := .ok true
  trxMerkle _ := .ok zeroId
  actionMerkle _ := zeroId
  signingDigest _ _ := .ok zeroId
  acceptSigning _ _ := .ok ()
  recover _ _ := .ok publicKey
  sign _ := .ok []
  producerName := 1
  publicKey := publicKey
  antelopeBlockSignatures := false

def bareDatabase : Database Unit := ⟨⟨[], []⟩, none, Keyed.empty, fun _ => none, ()⟩

/-- A node at the first block; producer 1 signs with the key 1. -/
def genesisNode (db : Database Unit) (pool : Mempool) : Node Unit Unit Unit where
  arena := ⟨db, []⟩
  protocolRecords := []
  lastAcceptedBlock := ⟨⟨0, 1, 0, zeroId, zeroId, zeroId, 0, none, []⟩, [], [], []⟩
  lastAcceptedBlockId := zeroId
  preferredId := zeroId
  verifiedBlocks := []
  blockLog _ := none
  activeSchedule := ⟨0, [⟨1, [1]⟩]⟩
  pendingSchedule := none
  headerSigningState := ()
  blockSchedules := ⟨⟨0, [⟨1, [1]⟩]⟩, none⟩
  pendingChain := []
  subjectiveBilling := ()
  mempool := pool
  dropped := []

end PulseVM.Controller
