import PulseVM.Arena.ChainRows

/-!
The row types of the chain-state tables, field for field; padding is left out. Names and
account names are 64-bit numbers, digests and wide keys are arrays of 32 bytes, and
every row carries the id of its slot.
-/

namespace PulseVM.ChainDb
open Arena

structure AccountMetaRow where
  id : Int
  name : UInt64
  recvSequence : UInt64
  authSequence : UInt64
  codeSequence : UInt64
  abiSequence : UInt64
  lastCodeUpdate : Int64
  codeHash : Vector UInt8 32
  flags : UInt32
  vmType : UInt8
  vmVersion : UInt8
  deriving DecidableEq, Repr

structure AccountRow where
  id : Int
  name : UInt64
  creationDate : UInt32
  abi : BlobRef
  deriving DecidableEq, Repr

/-- A decaying average: the last period it was advanced to and the scaled value. -/
structure UsageAccumulator where
  lastOrdinal : UInt32
  valueEx : UInt64
  consumed : UInt64
  deriving DecidableEq, Repr

structure ResourceUsageRow where
  id : Int
  owner : UInt64
  ramUsage : UInt64
  netUsage : UsageAccumulator
  cpuUsage : UsageAccumulator
  deriving DecidableEq, Repr

structure ResourceLimitsRow where
  id : Int
  owner : UInt64
  ramBytes : Int64
  netWeight : Int64
  cpuWeight : Int64
  pending : UInt8
  deriving DecidableEq, Repr

structure ResourceStateRow where
  id : Int
  averageBlockNetUsage : UsageAccumulator
  averageBlockCpuUsage : UsageAccumulator
  pendingNetUsage : UInt64
  pendingCpuUsage : UInt64
  totalNetWeight : UInt64
  totalCpuWeight : UInt64
  totalRamBytes : UInt64
  virtualNetLimit : UInt64
  virtualCpuLimit : UInt64
  deriving DecidableEq, Repr

structure PermissionRow where
  id : Int
  cbId : Int64
  usageId : Int64
  parent : Int64
  owner : UInt64
  permName : UInt64
  lastUpdated : Int64
  auth : BlobRef
  deriving DecidableEq, Repr

structure PermissionLinkRow where
  id : Int
  account : UInt64
  code : UInt64
  messageType : UInt64
  requiredPermission : UInt64
  deriving DecidableEq, Repr

structure CodeRow where
  id : Int
  codeRefCount : UInt64
  code : BlobRef
  firstBlockUsed : UInt32
  vmType : UInt8
  vmVersion : UInt8
  codeHash : Vector UInt8 32
  deriving DecidableEq, Repr

structure GlobalPropertyRow where
  id : Int
  maxBlockNetUsage : UInt64
  targetBlockNetUsagePct : UInt32
  maxTransactionNetUsage : UInt32
  basePerTransactionNetUsage : UInt32
  netUsageLeeway : UInt32
  contextFreeDiscountNetUsageNum : UInt32
  contextFreeDiscountNetUsageDen : UInt32
  maxBlockCpuUsage : UInt32
  targetBlockCpuUsagePct : UInt32
  maxTransactionCpuUsage : UInt32
  minTransactionCpuUsage : UInt32
  maxTransactionLifetime : UInt32
  deferredTrxExpirationWindow : UInt32
  maxTransactionDelay : UInt32
  maxInlineActionSize : UInt32
  maxInlineActionDepth : UInt16
  maxAuthorityDepth : UInt16
  deriving DecidableEq, Repr

structure ProtocolFeatureRow where
  id : Int
  featureDigest : Vector UInt8 32
  activationBlockNum : UInt32
  deriving DecidableEq, Repr

structure ResourceConfigRow where
  id : Int
  cpuTarget : UInt64
  cpuMax : UInt64
  cpuContractNum : UInt64
  cpuContractDen : UInt64
  cpuExpandNum : UInt64
  cpuExpandDen : UInt64
  netTarget : UInt64
  netMax : UInt64
  netContractNum : UInt64
  netContractDen : UInt64
  netExpandNum : UInt64
  netExpandDen : UInt64
  cpuPeriods : UInt32
  cpuMaxMultiplier : UInt32
  netPeriods : UInt32
  netMaxMultiplier : UInt32
  accountCpuUsageAverageWindow : UInt32
  accountNetUsageAverageWindow : UInt32
  deriving DecidableEq, Repr

/-- A table of a contract; `count` is the number of rows stored under it. -/
structure ContractTableRow where
  id : Int
  code : UInt64
  scope : UInt64
  table : UInt64
  payer : UInt64
  count : UInt32
  deriving DecidableEq, Repr

structure ContractIndex64Row where
  id : Int
  tId : Int64
  primaryKey : UInt64
  secondaryKey : UInt64
  payer : UInt64
  deriving DecidableEq, Repr

structure ContractIndex128Row where
  id : Int
  tId : Int64
  primaryKey : UInt64
  secLo : UInt64
  secHi : UInt64
  payer : UInt64
  deriving DecidableEq, Repr

structure ContractIndex256Row where
  id : Int
  tId : Int64
  primaryKey : UInt64
  payer : UInt64
  secondaryKey : Vector UInt8 32
  deriving DecidableEq, Repr

structure ContractIndexLongDoubleRow where
  id : Int
  tId : Int64
  primaryKey : UInt64
  secLo : UInt64
  secHi : UInt64
  payer : UInt64
  deriving DecidableEq, Repr

end PulseVM.ChainDb
