import PulseVM.Chain.ApplyContext
import PulseVM.Chain.Authority
import PulseVM.ChainDb.Resources

/-!
The context in which a transaction runs, as far as its CPU and NET are concerned: whom it
bills, how much they can pay, what it has used so far and what is charged at the end.
-/

namespace PulseVM.Chain
open ChainDb Lib Lib.Calls Arena

/-- Why a transaction is refused. A database error is wrapped with the call that met it and
the account it was about. -/
inductive TransactionError where
  | transactionError (message : String)
  | internalError (message : String)
  | actionValidationError (message : String)
  | databaseError (message : String) (account : UInt64) (cause : TransactionError)
  | arena (call : String) (error : TableError)
  deriving DecidableEq, Repr

structure Action where
  account : UInt64
  name : UInt64
  authorization : List PermissionLevel

structure PackedTransaction where
  transaction : Transaction Action
  packedTrxLen : Nat
  signaturesLen : Nat
  packedContextFreeDataLen : Nat

namespace PackedTransaction

def fixedNetOverheadOfPackedTrx : Nat := 16

/-- Sizes above 32 bits are refused. -/
def sized (size : Nat) : Except TransactionError UInt64 :=
  if size < 2 ^ 32 then .ok (.ofNat size)
  else .error (.transactionError "packed_transaction is too big")

def unprunableSize (trx : PackedTransaction) : Except TransactionError UInt64 :=
  sized (fixedNetOverheadOfPackedTrx + trx.packedTrxLen)

def prunableSize (trx : PackedTransaction) : Except TransactionError UInt64 :=
  sized (trx.signaturesLen + trx.packedContextFreeDataLen)

end PackedTransaction

def firstAuthorizer (trx : Transaction Action) : Option UInt64 :=
  trx.actions.findSome? fun action => action.authorization.head?.map (·.actor)

def orderedSet (names : List UInt64) : List UInt64 := names.dedup.insertionSort (· ≤ ·)

def billedAccountsForTransaction (trx : Transaction Action) (firstAuthorizer : UInt64)
    (onlyBillFirst : Bool) : List UInt64 :=
  if onlyBillFirst then [firstAuthorizer]
  else orderedSet (trx.actions.flatMap fun action => action.authorization.map (·.actor))

/-! The resource calls of the database. -/

def getAccountNetLimit (db : ResourceDb) (account : UInt64) (greylistLimit : UInt32) :
    Except TransactionError (Int64 × Bool) :=
  match db.accountNetLimit account greylistLimit with
  | some limit => .ok limit
  | none => .error (.databaseError "failed to get net limit" account
      (.internalError s!"resource state not found for {account}"))

def getAccountCpuLimit (db : ResourceDb) (account : UInt64) (greylistLimit : UInt32) :
    Except TransactionError (Int64 × Bool) :=
  match db.accountCpuLimit account greylistLimit with
  | some limit => .ok limit
  | none => .error (.databaseError "failed to get cpu limit" account
      (.internalError s!"resource state not found for {account}"))

/-- Refuse what the account or the block can no longer afford. -/
def checkAvailable (context : AccountUsageContext) (cpuUsage netUsage : UInt64) :
    Except TransactionError Unit :=
  if 0 ≤ context.netAvailable ∧ context.netAvailable.toUInt64 < netUsage then
    .error (.transactionError
      s!"transaction net usage is too high: {netUsage} > {context.netAvailable}")
  else if 0 ≤ context.cpuAvailable ∧ context.cpuAvailable.toUInt64 < cpuUsage then
    .error (.transactionError
      s!"transaction CPU usage is too high: {cpuUsage} > {context.cpuAvailable}")
  else if context.blockCpuAvailable < cpuUsage then
    .error (.transactionError
      s!"block has insufficient CPU resources: {cpuUsage} > {context.blockCpuAvailable}")
  else if context.blockNetAvailable < netUsage then
    .error (.transactionError
      s!"block has insufficient NET resources: {netUsage} > {context.blockNetAvailable}")
  else .ok ()

abbrev UsageCall := Call TransactionError ResourceDb

namespace UsageCall

/-- Advance an account's averages to a slot and charge it and the block. -/
def accountUsage (account cpuUsage netUsage : UInt64) (timeSlot : UInt32) (validate : Bool) :
    UsageCall Unit := fun db =>
  match db.accountUsageContext account maximumElasticResourceMultiplier with
  | none => (.error (.internalError
      s!"resource state not found while billing account {account}"), db)
  | some context =>
    match if validate then checkAvailable context cpuUsage netUsage else .ok () with
    | .error e => (.error e, db)
    | .ok () =>
      match ResourceCall.addTransactionAndBlockUsage account cpuUsage netUsage timeSlot
          context.netWindow context.cpuWindow db with
      | (.ok (), db) => (.ok (), db)
      | (.error e, db) => (.error (.arena "arena add_transaction_usage" e), db)

def wrapped (message : String) (account : UInt64) (call : UsageCall Unit) : UsageCall Unit :=
  fun db =>
    match call db with
    | (.ok (), db) => (.ok (), db)
    | (.error e, db) => (.error (.databaseError message account e), db)

def updateAccountUsage (account : UInt64) (timeSlot : UInt32) : UsageCall Unit :=
  wrapped "failed to update account usage" account (accountUsage account 0 0 timeSlot false)

def addTransactionUsage (account cpuUsage netUsage : UInt64) (timeSlot : UInt32)
    (validate : Bool) : UsageCall Unit :=
  wrapped "failed to add transaction usage" account
    (accountUsage account cpuUsage netUsage timeSlot validate)

end UsageCall

/-- An account may not use more RAM than its quota, if it has one. -/
def verifyAccountRamUsage (db : ResourceDb) (account : UInt64) : Except TransactionError Unit :=
  let verdict : Except TransactionError Unit :=
    match db.accountLimits account, db.usage.find account with
    | none, _ => .error (.internalError s!"resource limits not found for account: {account}")
    | some _, none => .error (.internalError s!"resource usage not found for account: {account}")
    | some (ramBytes, _, _), some row =>
      if 2 ^ 63 ≤ row.ramUsage.toNat then
        .error (.internalError
          s!"RAM usage for account {account} exceeds the supported range: {row.ramUsage}")
      else if 0 ≤ ramBytes ∧ ramBytes.toInt < row.ramUsage.toNat then
        .error (.internalError
          s!"account {account} has insufficient ram; needs {row.ramUsage} bytes has {ramBytes} bytes")
      else .ok ()
  verdict.mapError (.databaseError "failed to verify ram usage" account)

/-! The context. -/

/-- Verdicts of the calls that only touch other tables. -/
structure TransactionEnv where
  validateExpiration : Except TransactionError Unit
  validateReferencedAccounts : Except TransactionError Unit
  validateDeferredReferencedAccounts : Except TransactionError Unit
  recordTransaction : Except TransactionError Unit
  updatePermissionUsage : Except TransactionError Unit

structure TransactionContext where
  db : ResourceDb
  chainConfig : Option GlobalPropertyRow
  onlyBillFirstAuthorizer : Bool
  benchmarking : Bool
  subjectiveCpuBill : UInt64
  subjectiveNetBill : UInt64
  pendingSlot : UInt32
  initialized : Bool
  isInput : Bool
  billToAccounts : List UInt64
  validateRamUsage : List UInt64
  explicitBilledCpuTime : Bool
  explicitCpuUs : UInt32
  explicitNetWords : UInt32
  cpuUsageUs : UInt32
  netUsage : UInt64
  netUsageWords : UInt32
  eagerNetLimit : UInt64
  netLimit : UInt64
  netLimitDueToGreylist : Bool
  netLimitDueToBlock : Bool
  cpuLimit : Int64
  cpuLimitDueToGreylist : Bool
  cpuLimitDueToBlock : Bool

def TransactionContext.new (db : ResourceDb) (chainConfig : Option GlobalPropertyRow)
    (onlyBillFirstAuthorizer benchmarking : Bool) (pendingSlot : UInt32)
    (subjectiveCpuBill subjectiveNetBill : UInt64) : TransactionContext where
  db := db
  chainConfig := chainConfig
  onlyBillFirstAuthorizer := onlyBillFirstAuthorizer
  benchmarking := benchmarking
  subjectiveCpuBill := subjectiveCpuBill
  subjectiveNetBill := subjectiveNetBill
  pendingSlot := pendingSlot
  initialized := false
  isInput := false
  billToAccounts := []
  validateRamUsage := []
  explicitBilledCpuTime := false
  explicitCpuUs := 0
  explicitNetWords := 0
  cpuUsageUs := 0
  netUsage := 0
  netUsageWords := 0
  eagerNetLimit := 0
  netLimit := 0
  netLimitDueToGreylist := false
  netLimitDueToBlock := true
  cpuLimit := 0
  cpuLimitDueToGreylist := false
  cpuLimitDueToBlock := true

abbrev TransactionCall := Call TransactionError TransactionContext

namespace TransactionCall

variable {α : Type}

def lift (verdict : Except TransactionError α) : TransactionCall α := fun c => (verdict, c)

def update (f : TransactionContext → TransactionContext) : TransactionCall Unit :=
  fun c => (.ok (), f c)

def pulseAssert (condition : Bool) (error : TransactionError) : TransactionCall Unit :=
  if condition then pure () else Call.throw error

def onDb (call : UsageCall α) : TransactionCall α := fun c =>
  ((call c.db).1, { c with db := (call c.db).2 })

def getChainConfig : TransactionCall GlobalPropertyRow := fun c =>
  match c.chainConfig with
  | some config => (.ok config, c)
  | none => (.error (.internalError "arena chain_config not seeded"), c)

def getBlockLimits : TransactionCall (UInt64 × UInt64) := fun c =>
  match c.db.config, c.db.state with
  | some config, some state =>
    (.ok (saturatingSub config.cpuMax state.pendingCpuUsage,
      saturatingSub config.netMax state.pendingNetUsage), c)
  | _, _ => (.error (.internalError "resource state not found"), c)

def setExplicitBilled (cpuUs netWords : UInt32) : TransactionCall Unit := update fun c =>
  { c with explicitBilledCpuTime := true, explicitCpuUs := cpuUs, explicitNetWords := netWords }

/-! Net and CPU. -/

def checkNetUsage (c : TransactionContext) : Except TransactionError Unit :=
  if c.explicitBilledCpuTime then .ok ()
  else if c.eagerNetLimit < c.netUsage then
    if c.netLimitDueToBlock then
      .error (.transactionError
        s!"not enough space left in block: {c.netUsage} > {c.eagerNetLimit}")
    else if c.netLimitDueToGreylist then
      .error (.transactionError
        s!"greylisted transaction net usage is too high: {c.netUsage} > {c.eagerNetLimit}")
    else
      .error (.transactionError
        s!"transaction net usage is too high: {c.netUsage} > {c.eagerNetLimit}")
  else .ok ()

def addNetUsage (netUsage : UInt64) : TransactionCall Unit := do
  let used ← Call.read (·.netUsage)
  pulseAssert (used.toNat + netUsage.toNat < 2 ^ 64) (.actionValidationError "net usage overflow")
  update fun c => { c with netUsage := c.netUsage + netUsage }
  lift (← Call.read checkNetUsage)

/-- Metered work counts unless the bill is explicit. -/
def addCpuUsage (cpuUsage : UInt64) : TransactionCall Unit := do
  let c ← Call.read id
  if c.explicitBilledCpuTime then pure ()
  else
    pulseAssert (c.cpuUsageUs.toNat + cpuUsage.toNat < 2 ^ 32)
      (.actionValidationError "CPU usage overflow")
    update fun c => { c with cpuUsageUs := c.cpuUsageUs + .ofNat cpuUsage.toNat }

/-! Whom to bill and what they can pay. -/

structure Bandwidth where
  net : Int64
  cpu : Int64
  netGreylisted : Bool
  cpuGreylisted : Bool
  deriving DecidableEq, Repr

def largeNumberNoOverflow : Int64 := 4611686018427387903

namespace Bandwidth

/-- An account without a limit does not narrow anything. -/
def narrowNet (b : Bandwidth) (limit : Int64 × Bool) : Bandwidth :=
  if 0 ≤ limit.1 then
    { b with net := min b.net limit.1, netGreylisted := b.netGreylisted || limit.2 }
  else b

def narrowCpu (b : Bandwidth) (limit : Int64 × Bool) : Bandwidth :=
  if 0 ≤ limit.1 then
    { b with cpu := min b.cpu limit.1, cpuGreylisted := b.cpuGreylisted || limit.2 }
  else b

def least (db : ResourceDb) : Bandwidth → List UInt64 → Except TransactionError Bandwidth
  | b, [] => .ok b
  | b, account :: rest => do
    let net ← getAccountNetLimit db account maximumElasticResourceMultiplier
    let cpu ← getAccountCpuLimit db account maximumElasticResourceMultiplier
    least db ((b.narrowNet net).narrowCpu cpu) rest

end Bandwidth

/-- A limit less what this node holds against the payer. -/
def lessSubjective (limit : Int64) (bill : UInt64) : Int64 :=
  let subjective : Int := if bill.toNat < 2 ^ 63 then bill.toNat else 2 ^ 63 - 1
  .ofInt (max 0 (max (-2 ^ 63) (limit.toInt - subjective)))

def maxBandwidthBilledAccountsCanPay (c : TransactionContext) (accounts : List UInt64) :
    Except TransactionError Bandwidth := do
  let least ← Bandwidth.least c.db ⟨largeNumberNoOverflow, largeNumberNoOverflow, false, false⟩
    accounts
  return { least with
    net := lessSubjective least.net c.subjectiveNetBill
    cpu := lessSubjective least.cpu c.subjectiveCpuBill }

/-- The block's limits come first; only an input transaction has a CPU limit. -/
def limitByBlock (isInput : Bool) : TransactionCall Unit := do
  let (cpu, net) ← getBlockLimits
  update fun c => { c with
    cpuLimit := if isInput then cpu.toInt64 else c.cpuLimit
    netLimit := net }

/-- The most a transaction may be billed. -/
def limitByConfig (config : GlobalPropertyRow) : TransactionCall Unit := update fun c =>
  let c := if config.maxTransactionNetUsage.toUInt64 ≤ c.netLimit then
    { c with netLimit := config.maxTransactionNetUsage.toUInt64, netLimitDueToBlock := false } else c
  if c.isInput ∧ config.maxTransactionCpuUsage.toUInt64 ≤ c.cpuLimit.toUInt64 then
    { c with cpuLimit := config.maxTransactionCpuUsage.toUInt64.toInt64, cpuLimitDueToBlock := false }
  else c

def limitByHeader (trx : Transaction Action) : TransactionCall Unit := update fun c =>
  let words := trx.maxNetUsageWords.toUInt64 * 8
  let c := if 0 < words ∧ words ≤ c.netLimit then
    { c with netLimit := words, netLimitDueToBlock := false } else c
  if 0 < trx.maxCpuUsage ∧ trx.maxCpuUsage.toUInt64.toInt64 ≤ c.cpuLimit then
    { c with cpuLimit := trx.maxCpuUsage.toUInt64.toInt64, cpuLimitDueToBlock := false }
  else c

def billedAccounts (trx : Transaction Action) (firstAuthorizer : Option UInt64)
    (onlyBillFirst : TransactionContext → Bool) : TransactionCall (List UInt64) := do
  match firstAuthorizer with
  | none => Call.throw (.transactionError "transaction has no authorizations")
  | some authorizer =>
    return billedAccountsForTransaction trx authorizer (← Call.read onlyBillFirst)

def assertBilled (billed : List UInt64) : TransactionCall Unit :=
  pulseAssert (billed ≠ []) (.transactionError "transaction has no authorizations")

/-- Bring the averages of the billed accounts to the slot of the block. -/
def decayBilled : TransactionCall Unit := do
  let c ← Call.read id
  onDb (c.billToAccounts.forM fun account => UsageCall.updateAccountUsage account c.pendingSlot)

def startBilling (trx : Transaction Action) (firstAuthorizer : Option UInt64) :
    TransactionCall Unit := do
  let billed ← billedAccounts trx firstAuthorizer (·.onlyBillFirstAuthorizer)
  update fun c => { c with billToAccounts := billed }
  assertBilled billed
  decayBilled

/-- What the billed accounts can pay, with some leeway for NET until the end. -/
def limitByPayers (netUsageLeeway : UInt32) : TransactionCall Unit := do
  update fun c => { c with eagerNetLimit := c.netLimit }
  let c ← Call.read id
  if c.explicitBilledCpuTime then pure ()
  else
    let payable ← lift (maxBandwidthBilledAccountsCanPay c c.billToAccounts)
    update fun c => { c with
      netLimitDueToGreylist := payable.netGreylisted
      cpuLimitDueToGreylist := payable.cpuGreylisted
      eagerNetLimit := min c.eagerNetLimit (payable.net + netUsageLeeway.toUInt64.toInt64).toUInt64
      cpuLimit := min c.cpuLimit payable.cpu }
  update fun c => { c with eagerNetLimit := c.eagerNetLimit / 8 * 8 }

def init (trx : Transaction Action) (initialNetUsage : UInt64) (firstAuthorizer : Option UInt64)
    (isInput : Bool) : TransactionCall Unit := do
  let initialized ← Call.read (·.initialized)
  pulseAssert (!initialized) (.transactionError "cannot initialize twice")
  update fun c => { c with initialized := true, isInput := isInput }
  limitByBlock isInput
  let config ← getChainConfig
  limitByConfig config
  limitByHeader trx
  startBilling trx firstAuthorizer
  limitByPayers config.netUsageLeeway
  if 0 < initialNetUsage then addNetUsage initialNetUsage else pure ()

/-! Ways to start. -/

/-- Data that can be pruned is discounted, rounded up. -/
def initialNetUsage (config : GlobalPropertyRow) (unprunable prunable : UInt64) : UInt64 :=
  let num := config.contextFreeDiscountNetUsageNum.toUInt64
  let den := config.contextFreeDiscountNetUsageDen.toUInt64
  let discounted := if 0 < den ∧ num < den then (prunable * num + den - 1) / den else prunable
  config.basePerTransactionNetUsage.toUInt64 + unprunable + discounted

variable (env : TransactionEnv)

def initForInputTrx (unprunable prunable : UInt64) (trx : Transaction Action) :
    TransactionCall Unit := do
  let config ← getChainConfig
  lift env.validateExpiration
  lift env.validateReferencedAccounts
  init trx (initialNetUsage config unprunable prunable) (firstAuthorizer trx) true
  lift env.recordTransaction

/-- A transaction of an accepted block: its receipt says what it used. -/
def initForInputTrxFromBlock (trx : Transaction Action) (billFirstAuthorizer : Bool) :
    TransactionCall Unit := do
  lift env.validateExpiration
  lift env.validateReferencedAccounts
  let billed ← billedAccounts trx (firstAuthorizer trx) fun c =>
    billFirstAuthorizer || c.onlyBillFirstAuthorizer
  assertBilled billed
  let c ← Call.read id
  pulseAssert (!c.initialized) (.transactionError "cannot initialize twice")
  pulseAssert c.explicitBilledCpuTime
    (.internalError "accepted-block transaction is missing explicit billing")
  update fun c => { c with initialized := true, isInput := true, billToAccounts := billed }
  decayBilled
  lift env.recordTransaction

def initForDeferredTrx (unprunable prunable : UInt64) (trx : Transaction Action) :
    TransactionCall Unit := do
  let config ← getChainConfig
  lift env.validateDeferredReferencedAccounts
  init trx (initialNetUsage config unprunable prunable) (firstAuthorizer trx) true
  lift env.recordTransaction

/-- A system transaction is billed the least there is and has no limit. -/
def initForImplicitTrx (trx : Transaction Action) : TransactionCall Unit := do
  let config ← getChainConfig
  update fun c => { c with
    explicitBilledCpuTime := true
    explicitCpuUs := config.minTransactionCpuUsage
    cpuLimit := -1 }
  init trx 0 (firstAuthorizer trx) false

/-! The end. -/

def roundUpToWords (netUsage : UInt64) : UInt64 := (netUsage + 7) / 8 * 8

/-- What the receipt records of NET: on replay what the block's receipt says. -/
def recordNetUsage : TransactionCall Unit := do
  update fun c => if c.explicitBilledCpuTime then
    { c with cpuUsageUs := c.explicitCpuUs, netUsage := c.explicitNetWords.toUInt64 * 8 } else c
  update fun c => { c with netUsage := roundUpToWords c.netUsage }
  update fun c => { c with netUsageWords := (c.netUsage / 8).toUInt32 }

/-- The accounts must be able to pay without leeway. -/
def enforcePayers : TransactionCall Unit := do
  let c ← Call.read id
  if c.explicitBilledCpuTime then pure ()
  else
    let payable ← lift (maxBandwidthBilledAccountsCanPay c c.billToAccounts)
    update fun c => { c with
      netLimitDueToGreylist := payable.netGreylisted
      cpuLimitDueToGreylist := payable.cpuGreylisted }
    if payable.net.toUInt64 ≤ (← Call.read (·.netLimit)) then
      update fun c => { c with
        netLimit := payable.net.toUInt64
        netLimitDueToBlock := false
        eagerNetLimit := payable.net.toUInt64 }
      lift (← Call.read checkNetUsage)
    update fun c => if payable.cpu ≤ c.cpuLimit then
      { c with cpuLimit := payable.cpu, cpuLimitDueToBlock := false } else c

def updateBilledCpuTime : TransactionCall Unit := do
  if ← Call.read (·.explicitBilledCpuTime) then
    update fun c => { c with cpuUsageUs := c.explicitCpuUs }
  else
    let config ← getChainConfig
    update fun c => { c with cpuUsageUs := max c.cpuUsageUs config.minTransactionCpuUsage }

/-- The limit is cut to 32 bits before it is compared. -/
def validateAccountCpuUsage (c : TransactionContext) : Except TransactionError Unit :=
  if c.explicitBilledCpuTime then .ok ()
  else if c.cpuLimit.toUInt64.toUInt32 < c.cpuUsageUs then
    if c.cpuLimitDueToBlock then
      .error (.transactionError
        s!"not enough CPU left in block: {c.cpuUsageUs} > {c.cpuLimit}")
    else if c.cpuLimitDueToGreylist then
      .error (.transactionError
        s!"greylisted transaction CPU usage is too high: {c.cpuUsageUs} > {c.cpuLimit}")
    else
      .error (.transactionError
        s!"transaction CPU usage is too high: {c.cpuUsageUs} > {c.cpuLimit}")
  else .ok ()

def validateCpuUsageToBill (checkMinimum : Bool) : TransactionCall Unit := do
  if checkMinimum then
    let config ← getChainConfig
    let used ← Call.read (·.cpuUsageUs)
    pulseAssert (config.minTransactionCpuUsage ≤ used) (.transactionError
      s!"cannot bill CPU time less than the minimum of {config.minTransactionCpuUsage}")
  lift (← Call.read validateAccountCpuUsage)

/-- Charge every billed account, and with each of them the block. -/
def chargeBilled : TransactionCall Unit := do
  let c ← Call.read id
  if c.benchmarking then pure ()
  else
    onDb (c.billToAccounts.forM fun account =>
      UsageCall.addTransactionUsage account c.cpuUsageUs.toUInt64 c.netUsage c.pendingSlot
        (!c.explicitBilledCpuTime))

/-- Close the transaction; the CPU billed is what its receipt records. -/
def finalize : TransactionCall UInt32 := do
  recordNetUsage
  if ← Call.read (·.isInput) then lift env.updatePermissionUsage
  let c ← Call.read id
  lift (c.validateRamUsage.forM (verifyAccountRamUsage c.db))
  pulseAssert (c.billToAccounts ≠ []) (.transactionError "bill to accounts are not set")
  enforcePayers
  updateBilledCpuTime
  validateCpuUsageToBill (!c.explicitBilledCpuTime)
  chargeBilled
  Call.read (·.cpuUsageUs)

end TransactionCall

end PulseVM.Chain
