import PulseVM.ChainDb.Rows
import PulseVM.Lib.Calls
import PulseVM.Lib.Keyed

/-!
Resource accounting. Every account has a row with its usage and one with its committed
limits; a change of its limits waits on a second, pending row until the end of the block.
Usage of CPU and NET is a decaying average over a window of block slots, and the block as
a whole has averages and elastic limits of its own.
-/

namespace PulseVM.ChainDb
open Arena Lib Lib.Calls

/-- An account's limits and its pending change have different keys. -/
def ResourceLimitsRow.byOwner (row : ResourceLimitsRow) : UInt8 × UInt64 := (row.pending, row.owner)

def ResourceLimitsRow.withLimits (row : ResourceLimitsRow) (ramBytes netWeight cpuWeight : Int64) :
    ResourceLimitsRow :=
  { row with ramBytes := ramBytes, netWeight := netWeight, cpuWeight := cpuWeight }

theorem ResourceLimitsRow.byOwner_withLimits (row : ResourceLimitsRow)
    (ramBytes netWeight cpuWeight : Int64) :
    (row.withLimits ramBytes netWeight cpuWeight).byOwner = row.byOwner := rfl

/-- The stored elastic parameters and averaging windows. Nothing divides by zero: windows
are seeded at genesis, and parameters without periods or with an undefined ratio are
refused before they are stored. -/
structure ResourceConfig extends ResourceConfigRow where
  cpuWindowPos : 0 < accountCpuUsageAverageWindow
  netWindowPos : 0 < accountNetUsageAverageWindow
  cpuPeriodsPos : 0 < cpuPeriods
  netPeriodsPos : 0 < netPeriods
  cpuRatios : 0 < cpuContractDen ∧ 0 < cpuExpandDen
  netRatios : 0 < netContractDen ∧ 0 < netExpandDen

structure ResourceDb where
  limits : Keyed ResourceLimitsRow.byOwner
  usage : Keyed ResourceUsageRow.owner
  state : Option ResourceStateRow
  config : Option ResourceConfig

/-! Decaying averages. -/

def rateLimitingPrecision : Nat := 1000000

def integerDivideCeil (num den : Nat) : Nat := num / den + if num % den = 0 then 0 else 1

namespace UsageAccumulator

def zero : UsageAccumulator := ⟨0, 0, 0⟩

def average (a : UsageAccumulator) : UInt64 :=
  .ofNat (integerDivideCeil a.valueEx.toNat rateLimitingPrecision)

/-- Start over if the ordinal runs backwards. -/
def rewound (a : UsageAccumulator) (ordinal : UInt32) : UsageAccumulator :=
  if ordinal < a.lastOrdinal then ⟨ordinal, 0, 0⟩ else a

/-- The share of the value that is left after the time from the last ordinal to this one. -/
def decayed (a : UsageAccumulator) (ordinal windowSize : UInt32) : UInt64 :=
  if ordinal.toNat < a.lastOrdinal.toNat + windowSize.toNat then
    .ofNat (a.valueEx.toNat * (windowSize - (ordinal - a.lastOrdinal)).toNat / windowSize.toNat)
  else 0

def advanced (a : UsageAccumulator) (ordinal windowSize : UInt32) : UsageAccumulator :=
  if a.lastOrdinal ≠ ordinal then
    let moved := { a with valueEx := a.decayed ordinal windowSize, lastOrdinal := ordinal }
    { moved with consumed := moved.average }
  else a

def add (a : UsageAccumulator) (units : UInt64) (ordinal windowSize : UInt32) : UsageAccumulator :=
  let contribution : UInt64 :=
    .ofNat (integerDivideCeil (units.toNat * rateLimitingPrecision) windowSize.toNat)
  let now := (a.rewound ordinal).advanced ordinal windowSize
  { now with consumed := now.consumed + units, valueEx := now.valueEx + contribution }

end UsageAccumulator

/-! Limits. -/

abbrev ResourceCall := Call TableError ResourceDb

namespace ResourceCall

def createUsage (make : Nat → ResourceUsageRow) : ResourceCall Unit := fun db =>
  match db.usage.insert make with
  | some usage => (.ok (), { db with usage := usage })
  | none => (.error (.uniquenessViolation "ResourceUsageRow" "ResourceUsageRowByOwner"), db)

def createLimits (make : Nat → ResourceLimitsRow) : ResourceCall Unit := fun db =>
  match db.limits.insert make with
  | some limits => (.ok (), { db with limits := limits })
  | none => (.error (.uniquenessViolation "ResourceLimitsRow" "LimitsByOwner"), db)

/-- A new account has no limits. -/
def initializeAccountResourceLimits (owner : UInt64) : ResourceCall Unit := do
  createUsage fun id => ⟨id, owner, 0, .zero, .zero⟩
  createLimits fun id => ⟨id, owner, -1, -1, -1, 0⟩

def modifyLimits (pending : UInt8) (owner : UInt64) (ramBytes netWeight cpuWeight : Int64) :
    ResourceCall Unit := fun db =>
  (.ok (), { db with
    limits := db.limits.modify (pending, owner) (·.withLimits ramBytes netWeight cpuWeight)
      (·.byOwner_withLimits ramBytes netWeight cpuWeight) })

/-- Stage new limits on the pending row, which starts as a copy of the committed one. An
unknown account is ignored. -/
def setAccountLimits (account : UInt64) (ramBytes netWeight cpuWeight : Int64) :
    ResourceCall Unit := do
  match ← Call.read fun db => db.limits.find (1, account) with
  | some _ => modifyLimits 1 account ramBytes netWeight cpuWeight
  | none =>
    match ← Call.read fun db => db.limits.find (0, account) with
    | none => pure ()
    | some actual =>
      createLimits fun id =>
        ⟨id, account, actual.ramBytes, actual.netWeight, actual.cpuWeight, 1⟩
      modifyLimits 1 account ramBytes netWeight cpuWeight

end ResourceCall

/-- Take the old limit out of a total and put the new one in; unlimited counts nothing. -/
def updateTotal (total : UInt64) (old new : Int64) : UInt64 :=
  let reverted := if 0 < old then total - old.toUInt64 else total
  if 0 < new then reverted + new.toUInt64 else reverted

namespace ResourceDb

def new (config : ResourceConfig) : ResourceDb := ⟨.empty, .empty, none, some config⟩

/-- The elastic limits start at the maximum, everything else at zero. A second call is
ignored. -/
def initializeResourceState (db : ResourceDb) (cpuMax netMax : UInt64) : ResourceDb :=
  match db.state with
  | some _ => db
  | none => { db with state := some ⟨0, .zero, .zero, 0, 0, 0, 0, 0, netMax, cpuMax⟩ }

def pendings (db : ResourceDb) : List ResourceLimitsRow :=
  (db.limits.rows.filter fun row => row.pending = 1).insertionSort fun a b => a.owner ≤ b.owner

def updateTotals (state : ResourceStateRow) (actual pending : ResourceLimitsRow) :
    ResourceStateRow :=
  { state with
    totalRamBytes := updateTotal state.totalRamBytes actual.ramBytes pending.ramBytes
    totalNetWeight := updateTotal state.totalNetWeight actual.netWeight pending.netWeight
    totalCpuWeight := updateTotal state.totalCpuWeight actual.cpuWeight pending.cpuWeight }

def foldPending (db : ResourceDb) (pending : ResourceLimitsRow) : ResourceDb :=
  let folded :=
    match db.limits.find (0, pending.owner) with
    | some actual =>
      { db with
        limits := db.limits.modify (0, pending.owner)
          (·.withLimits pending.ramBytes pending.netWeight pending.cpuWeight)
          (·.byOwner_withLimits pending.ramBytes pending.netWeight pending.cpuWeight)
        state := db.state.map fun state => updateTotals state actual pending }
    | none => db
  { folded with limits := folded.limits.erase (1, pending.owner) }

def processAccountLimitUpdates (db : ResourceDb) : ResourceDb := db.pendings.foldl foldPending db

/-- The limits in force: the pending ones if a change is staged. -/
def accountLimits (db : ResourceDb) (account : UInt64) : Option (Int64 × Int64 × Int64) :=
  match db.limits.find (1, account) with
  | some row => some (row.ramBytes, row.netWeight, row.cpuWeight)
  | none => (db.limits.find (0, account)).map fun row => (row.ramBytes, row.netWeight, row.cpuWeight)

end ResourceDb

/-! What an account may still use. -/

structure AccountResourceLimit where
  used : Int64
  available : Int64
  max : Int64
  lastOrdinal : UInt32
  currentUsed : Int64
  deriving DecidableEq, Repr

def maximumElasticResourceMultiplier : UInt32 := 1000

/-- The window's capacity: a greylisted account gets a multiple of the parameter's maximum
instead of the elastic limit where that is less. -/
def capacityInWindow (virtualLimit : UInt64) (window : UInt32) (paramMax : UInt64)
    (greylistLimit : UInt32) : Nat × Bool :=
  if greylistLimit < maximumElasticResourceMultiplier then
    let greylistedVirtual := paramMax * greylistLimit.toUInt64
    if greylistedVirtual < virtualLimit then (window.toNat * greylistedVirtual.toNat, true)
    else (window.toNat * virtualLimit.toNat, false)
  else (window.toNat * virtualLimit.toNat, false)

/-- The use that stands in an accumulator, in units. -/
def usedInWindow (usage : UsageAccumulator) (window : UInt32) : Nat :=
  integerDivideCeil (usage.valueEx.toNat * window.toNat) rateLimitingPrecision

/-- The account's share of the window. The product is a 128-bit number. -/
def maxUserUse (weight : Int64) (totalWeight : UInt64) (capacity : Nat) : Nat :=
  capacity * weight.toInt.toNat % 2 ^ 128 / totalWeight.toNat

def elasticAccountLimitInfo (weight : Int64) (totalWeight virtualLimit : UInt64) (window : UInt32)
    (paramMax : UInt64) (usage : UsageAccumulator) (greylistLimit : UInt32)
    (currentSlot : Option UInt32) : AccountResourceLimit × Bool :=
  if weight < 0 ∨ totalWeight = 0 then (⟨-1, -1, -1, usage.lastOrdinal, -1⟩, false)
  else
    let (capacity, greylisted) := capacityInWindow virtualLimit window paramMax greylistLimit
    let most := maxUserUse weight totalWeight capacity
    let used := usedInWindow usage window
    let available : Int64 := if most ≤ used then 0 else .ofInt (most - used : Nat)
    let currentUsed :=
      match currentSlot with
      | some slot =>
        if usage.lastOrdinal < slot then usedInWindow (usage.add 0 slot window) window else used
      | none => used
    (⟨.ofInt used, available, .ofInt most, usage.lastOrdinal, .ofInt currentUsed⟩, greylisted)

namespace ResourceDb

def accountNetLimitInfo (db : ResourceDb) (account : UInt64) (greylistLimit : UInt32)
    (currentSlot : Option UInt32) : Option (AccountResourceLimit × Bool) := do
  let (_, netWeight, _) ← db.accountLimits account
  let state ← db.state
  let config ← db.config
  let usage ← db.usage.find account
  return elasticAccountLimitInfo netWeight state.totalNetWeight state.virtualNetLimit
    config.accountNetUsageAverageWindow config.netMax usage.netUsage greylistLimit currentSlot

def accountCpuLimitInfo (db : ResourceDb) (account : UInt64) (greylistLimit : UInt32)
    (currentSlot : Option UInt32) : Option (AccountResourceLimit × Bool) := do
  let (_, _, cpuWeight) ← db.accountLimits account
  let state ← db.state
  let config ← db.config
  let usage ← db.usage.find account
  return elasticAccountLimitInfo cpuWeight state.totalCpuWeight state.virtualCpuLimit
    config.accountCpuUsageAverageWindow config.cpuMax usage.cpuUsage greylistLimit currentSlot

def accountNetLimit (db : ResourceDb) (account : UInt64) (greylistLimit : UInt32) :
    Option (Int64 × Bool) :=
  (db.accountNetLimitInfo account greylistLimit none).map fun (limit, greylisted) =>
    (limit.available, greylisted)

def accountCpuLimit (db : ResourceDb) (account : UInt64) (greylistLimit : UInt32) :
    Option (Int64 × Bool) :=
  (db.accountCpuLimitInfo account greylistLimit none).map fun (limit, greylisted) =>
    (limit.available, greylisted)

end ResourceDb

/-! Use. -/

/-- What a usage update reads: the windows and what the account and the block may still use. -/
structure AccountUsageContext where
  netWindow : UInt32
  cpuWindow : UInt32
  netAvailable : Int64
  cpuAvailable : Int64
  blockCpuAvailable : UInt64
  blockNetAvailable : UInt64
  deriving DecidableEq, Repr

def saturatingSub (a b : UInt64) : UInt64 := if b ≤ a then a - b else 0

namespace ResourceDb

def accountUsageContext (db : ResourceDb) (account : UInt64) (greylistLimit : UInt32) :
    Option AccountUsageContext := do
  let effective ← (db.limits.find (1, account)).or (db.limits.find (0, account))
  let state ← db.state
  let config ← db.config
  let usage ← db.usage.find account
  let net := elasticAccountLimitInfo effective.netWeight state.totalNetWeight state.virtualNetLimit
    config.accountNetUsageAverageWindow config.netMax usage.netUsage greylistLimit none
  let cpu := elasticAccountLimitInfo effective.cpuWeight state.totalCpuWeight state.virtualCpuLimit
    config.accountCpuUsageAverageWindow config.cpuMax usage.cpuUsage greylistLimit none
  return ⟨config.accountNetUsageAverageWindow, config.accountCpuUsageAverageWindow,
    net.1.available, cpu.1.available, saturatingSub config.cpuMax state.pendingCpuUsage,
    saturatingSub config.netMax state.pendingNetUsage⟩

end ResourceDb

/-- Advance both averages to a slot and add to them. -/
def ResourceUsageRow.charged (row : ResourceUsageRow) (cpuUsage netUsage : UInt64)
    (timeSlot netWindow cpuWindow : UInt32) : ResourceUsageRow :=
  { row with
    netUsage := row.netUsage.add netUsage timeSlot netWindow
    cpuUsage := row.cpuUsage.add cpuUsage timeSlot cpuWindow }

theorem ResourceUsageRow.owner_charged (row : ResourceUsageRow) (cpuUsage netUsage : UInt64)
    (timeSlot netWindow cpuWindow : UInt32) :
    (row.charged cpuUsage netUsage timeSlot netWindow cpuWindow).owner = row.owner := rfl

namespace ResourceCall

/-- Advance the account's averages and add the same amounts to the block's. -/
def addTransactionAndBlockUsage (owner cpuUsage netUsage : UInt64)
    (timeSlot netWindow cpuWindow : UInt32) : ResourceCall Unit := fun db =>
  match db.usage.find owner, db.state with
  | none, _ =>
    (.error (.corrupted s!"resource usage row is missing for account {owner}"), db)
  | some _, none => (.error (.corrupted "resource state row is missing"), db)
  | some _, some state =>
    (.ok (), { db with
      usage := db.usage.modify owner (·.charged cpuUsage netUsage timeSlot netWindow cpuWindow)
        (·.owner_charged cpuUsage netUsage timeSlot netWindow cpuWindow)
      state := some { state with
        pendingCpuUsage := state.pendingCpuUsage + cpuUsage
        pendingNetUsage := state.pendingNetUsage + netUsage } })

end ResourceCall

end PulseVM.ChainDb
