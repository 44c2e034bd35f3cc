import PulseVM.ChainDb.Rows
import PulseVM.Lib.Leb128

/-!
The state-history encoding of one row of each chain-state table. A contract row is
announced under the code, scope and table its `t_id` stands for and a permission under
its parent's name, so these serializers take the lookup they need. An authority is
copied out of its stored blob; a blob that ends early stops the packer.
-/

namespace PulseVM.History
open Arena ChainDb Lib.Encoding Lib.Leb128

def u8 (n : UInt8) : Bytes := [n]

def bool (b : Bool) : Bytes := [if b then 1 else 0]

def u16 (n : UInt16) : Bytes := leBytes 2 n.toNat

def u32 (n : UInt32) : Bytes := leBytes 4 n.toNat

def u64 (n : UInt64) : Bytes := leBytes 8 n.toNat

def i64 (n : Int64) : Bytes := leBytes 8 n.toUInt64.toNat

@[simp] theorem length_u64 (n : UInt64) : (u64 n).length = 8 := length_leBytes 8 n.toNat

abbrev TableIds := Int64 → Option (UInt64 × UInt64 × UInt64)

abbrev ParentNames := Int64 → Option UInt64

def wasmConfig : List UInt32 :=
  [1024, 1024, 8192, 65536, 8192, 1024, 8192, 20971520, 20971520, 528, 251]

def maxActionReturnValueSize : UInt32 := 256

def serUsageAccumulator (a : UsageAccumulator) : Bytes :=
  uvar 0 ++ u32 a.lastOrdinal ++ u64 a.valueEx ++ u64 a.consumed

def serAccount (blob : BlobRef → Bytes) (r : AccountRow) : Bytes :=
  uvar 0 ++ u64 r.name ++ u32 r.creationDate ++ packBytes (blob r.abi)

def serAccountMetadata (r : AccountMetaRow) : Bytes :=
  let hasCode : Bool := r.codeHash ≠ Vector.replicate 32 0
  uvar 0 ++ u64 r.name ++ bool (r.flags &&& 1 ≠ 0) ++ i64 r.lastCodeUpdate ++ bool hasCode ++
    if hasCode then u8 r.vmType ++ u8 r.vmVersion ++ r.codeHash.toList else []

def serCode (blob : BlobRef → Bytes) (r : CodeRow) : Bytes :=
  uvar 0 ++ u8 r.vmType ++ u8 r.vmVersion ++ r.codeHash.toList ++ packBytes (blob r.code)

def serContractTable (r : ContractTableRow) : Bytes :=
  uvar 0 ++ u64 r.code ++ u64 r.scope ++ u64 r.table ++ u64 r.payer

def tableIdContext (ids : TableIds) (tId : Int64) : UInt64 × UInt64 × UInt64 :=
  (ids tId).getD (0, 0, 0)

/-- The five fields every contract row starts with. -/
def serSecondaryHeader (ids : TableIds) (tId : Int64) (primaryKey payer : UInt64) : Bytes :=
  let (code, scope, table) := tableIdContext ids tId
  uvar 0 ++ u64 code ++ u64 scope ++ u64 table ++ u64 primaryKey ++ u64 payer

def serContractRow (blob : BlobRef → Bytes) (ids : TableIds) (r : ContractKeyValueRow) : Bytes :=
  serSecondaryHeader ids r.tId r.primaryKey r.payer ++ packBytes (blob r.value)

def serIndex64 (ids : TableIds) (r : ContractIndex64Row) : Bytes :=
  serSecondaryHeader ids r.tId r.primaryKey r.payer ++ u64 r.secondaryKey

def serIndex128 (ids : TableIds) (r : ContractIndex128Row) : Bytes :=
  serSecondaryHeader ids r.tId r.primaryKey r.payer ++ u64 r.secLo ++ u64 r.secHi

/-- Each 16-byte word of the key is reversed. -/
def serIndex256 (ids : TableIds) (r : ContractIndex256Row) : Bytes :=
  serSecondaryHeader ids r.tId r.primaryKey r.payer ++
    (r.secondaryKey.toList.take 16).reverse ++ (r.secondaryKey.toList.drop 16).reverse

def serIndexDouble (ids : TableIds) (r : ContractIndexDoubleRow) : Bytes :=
  serSecondaryHeader ids r.tId r.primaryKey r.payer ++ u64 r.secondaryKey

def serIndexLongDouble (ids : TableIds) (r : ContractIndexLongDoubleRow) : Bytes :=
  serSecondaryHeader ids r.tId r.primaryKey r.payer ++ u64 r.secLo ++ u64 r.secHi

def serGeneratedTransaction (blob : BlobRef → Bytes) (r : DeferredTransactionRow) : Bytes :=
  uvar 0 ++ u64 r.sender ++ u64 r.senderIdLo ++ u64 r.senderIdHi ++ u64 r.payer ++
    r.trxId.toList ++ packBytes (blob r.packedTrx)

def serGlobalProperty (chainId : Vector UInt8 32) (r : GlobalPropertyRow) : Bytes :=
  uvar 1 ++ uvar 1 ++
    u64 r.maxBlockNetUsage ++ u32 r.targetBlockNetUsagePct ++ u32 r.maxTransactionNetUsage ++
    u32 r.basePerTransactionNetUsage ++ u32 r.netUsageLeeway ++
    u32 r.contextFreeDiscountNetUsageNum ++ u32 r.contextFreeDiscountNetUsageDen ++
    u32 r.maxBlockCpuUsage ++ u32 r.targetBlockCpuUsagePct ++ u32 r.maxTransactionCpuUsage ++
    u32 r.minTransactionCpuUsage ++ u32 r.maxTransactionLifetime ++ u32 r.maxInlineActionSize ++
    u16 r.maxInlineActionDepth ++ u16 r.maxAuthorityDepth ++ u32 maxActionReturnValueSize ++
    chainId.toList ++ uvar 0 ++ wasmConfig.flatMap u32

section Authority

/-- Copy a length-prefixed key and its weight. -/
def copyKey (blob : Bytes) : Option (Bytes × Bytes) := do
  let (len, blob) ← readNat 4 blob
  let (key, blob) ← takeExact len blob
  let (weight, blob) ← readNat 2 blob
  some (key ++ leBytes 2 weight, blob)

def copyAccount (blob : Bytes) : Option (Bytes × Bytes) := do
  let (actor, blob) ← readNat 8 blob
  let (permission, blob) ← readNat 8 blob
  let (weight, blob) ← readNat 2 blob
  some (leBytes 8 actor ++ leBytes 8 permission ++ leBytes 2 weight, blob)

def copyWait (blob : Bytes) : Option (Bytes × Bytes) := do
  let (waitSec, blob) ← readNat 4 blob
  let (weight, blob) ← readNat 2 blob
  some (leBytes 4 waitSec ++ leBytes 2 weight, blob)

/-- One container: a stored count of four bytes becomes a variable-length one. -/
def copyContainer (copy : Bytes → Option (Bytes × Bytes)) (blob : Bytes) :
    Option (Bytes × Bytes) := do
  let (count, blob) ← readNat 4 blob
  let (items, blob) ← readMany copy count blob
  some (uvar count ++ items.flatten, blob)

/-- `none` where the source reads past the end of the blob. -/
def serAuthority (blob : Bytes) : Option Bytes :=
  if blob = [] then some (u32 0 ++ uvar 0 ++ uvar 0 ++ uvar 0)
  else do
    let (threshold, blob) ← readNat 4 blob
    let (keys, blob) ← copyContainer copyKey blob
    let (accounts, blob) ← copyContainer copyAccount blob
    let (waits, _) ← copyContainer copyWait blob
    some (leBytes 4 threshold ++ keys ++ accounts ++ waits)

end Authority

def parentName (names : ParentNames) (parent : Int64) : UInt64 :=
  if parent ≠ 0 then (names parent).getD 0 else 0

def serPermission (blob : BlobRef → Bytes) (names : ParentNames) (r : PermissionRow) :
    Option Bytes :=
  (serAuthority (blob r.auth)).map fun auth =>
    uvar 0 ++ u64 r.owner ++ u64 r.permName ++ u64 (parentName names r.parent) ++
      i64 r.lastUpdated ++ auth

def serPermissionLink (r : PermissionLinkRow) : Bytes :=
  uvar 0 ++ u64 r.account ++ u64 r.code ++ u64 r.messageType ++ u64 r.requiredPermission

def serResourceLimits (r : ResourceLimitsRow) : Bytes :=
  uvar 0 ++ u64 r.owner ++ i64 r.netWeight ++ i64 r.cpuWeight ++ i64 r.ramBytes

def serResourceUsage (r : ResourceUsageRow) : Bytes :=
  uvar 0 ++ u64 r.owner ++ serUsageAccumulator r.netUsage ++ serUsageAccumulator r.cpuUsage ++
    u64 r.ramUsage

def serResourceLimitsState (r : ResourceStateRow) : Bytes :=
  uvar 0 ++ serUsageAccumulator r.averageBlockNetUsage ++
    serUsageAccumulator r.averageBlockCpuUsage ++ u64 r.totalNetWeight ++ u64 r.totalCpuWeight ++
    u64 r.totalRamBytes ++ u64 r.virtualNetLimit ++ u64 r.virtualCpuLimit

def serRatio (num den : UInt64) : Bytes := uvar 0 ++ u64 num ++ u64 den

def serResourceLimitsConfig (r : ResourceConfigRow) : Bytes :=
  uvar 0 ++
    uvar 0 ++ u64 r.cpuTarget ++ u64 r.cpuMax ++ u32 r.cpuPeriods ++ u32 r.cpuMaxMultiplier ++
    serRatio r.cpuContractNum r.cpuContractDen ++ serRatio r.cpuExpandNum r.cpuExpandDen ++
    uvar 0 ++ u64 r.netTarget ++ u64 r.netMax ++ u32 r.netPeriods ++ u32 r.netMaxMultiplier ++
    serRatio r.netContractNum r.netContractDen ++ serRatio r.netExpandNum r.netExpandDen ++
    u32 r.accountCpuUsageAverageWindow ++ u32 r.accountNetUsageAverageWindow

/-- The singleton row of all activated features. -/
def serProtocolState (features : List ProtocolFeatureRow) : Bytes :=
  uvar 0 ++ packMany (fun feature =>
    uvar 0 ++ feature.featureDigest.toList ++ u32 feature.activationBlockNum) features

section IncludeDelta

/-- The default: every modification is announced. -/
def always {T : Type} (_ _ : T) : Bool := true

def includeAccountMeta (o c : AccountMetaRow) : Bool :=
  o.name ≠ c.name || o.flags &&& 1 ≠ c.flags &&& 1 || o.lastCodeUpdate ≠ c.lastCodeUpdate ||
    o.vmType ≠ c.vmType || o.vmVersion ≠ c.vmVersion || o.codeHash ≠ c.codeHash

/-- The history data of a code row is created and deleted, never modified. -/
def includeCode (_ _ : CodeRow) : Bool := false

def includeContractTable (o c : ContractTableRow) : Bool := o.payer ≠ c.payer

def includeResourceLimits (o c : ResourceLimitsRow) : Bool :=
  o.netWeight ≠ c.netWeight || o.cpuWeight ≠ c.cpuWeight || o.ramBytes ≠ c.ramBytes

def includeResourceState (o c : ResourceStateRow) : Bool :=
  o.averageBlockNetUsage ≠ c.averageBlockNetUsage ||
    o.averageBlockCpuUsage ≠ c.averageBlockCpuUsage || o.totalNetWeight ≠ c.totalNetWeight ||
    o.totalCpuWeight ≠ c.totalCpuWeight || o.totalRamBytes ≠ c.totalRamBytes ||
    o.virtualNetLimit ≠ c.virtualNetLimit || o.virtualCpuLimit ≠ c.virtualCpuLimit

def includeResourceConfig (o c : ResourceConfigRow) : Bool :=
  o.cpuTarget ≠ c.cpuTarget || o.cpuMax ≠ c.cpuMax || o.cpuContractNum ≠ c.cpuContractNum ||
    o.cpuContractDen ≠ c.cpuContractDen || o.cpuExpandNum ≠ c.cpuExpandNum ||
    o.cpuExpandDen ≠ c.cpuExpandDen || o.cpuPeriods ≠ c.cpuPeriods ||
    o.cpuMaxMultiplier ≠ c.cpuMaxMultiplier || o.netTarget ≠ c.netTarget ||
    o.netMax ≠ c.netMax || o.netContractNum ≠ c.netContractNum ||
    o.netContractDen ≠ c.netContractDen || o.netExpandNum ≠ c.netExpandNum ||
    o.netExpandDen ≠ c.netExpandDen || o.netPeriods ≠ c.netPeriods ||
    o.netMaxMultiplier ≠ c.netMaxMultiplier ||
    o.accountCpuUsageAverageWindow ≠ c.accountCpuUsageAverageWindow ||
    o.accountNetUsageAverageWindow ≠ c.accountNetUsageAverageWindow

end IncludeDelta

end PulseVM.History
