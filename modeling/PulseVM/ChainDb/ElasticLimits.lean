import PulseVM.ChainDb.Accumulators

/-!
What an account may use and what a block may use. An account has a share of the window by its
weight; the limits of a block are stretched while blocks are small and fall back when they
are not.
-/

namespace PulseVM.ChainDb
open Lib.Calls

/-! Shares of accounts. -/

/-- The numbers are those of unbounded arithmetic. -/
structure ExactShare (info : AccountResourceLimit) (most used : Nat) : Prop where
  max_eq : info.max.toInt = most
  used_eq : info.used.toInt = used
  available_eq : info.available.toInt = max 0 ((most : Int) - used)

theorem toInt_ofNat {n : Nat} (small : n < 2 ^ 63) : (Int64.ofInt n).toInt = n :=
  Int64.toInt_ofInt_of_le (by omega) (by omega)

theorem maxUserUse_eq {weight : Int64} {totalWeight : UInt64} {capacity : Nat}
    (staked : totalWeight ≠ 0) (small : capacity * weight.toInt.toNat / totalWeight.toNat < 2 ^ 63) :
    maxUserUse weight totalWeight capacity = capacity * weight.toInt.toNat / totalWeight.toNat := by
  have bound := totalWeight.toNat_lt
  have pos : 0 < totalWeight.toNat := by
    rw [Nat.pos_iff_ne_zero, Ne, ← UInt64.toNat_zero, UInt64.toNat_inj]
    exact staked
  rw [Nat.div_lt_iff_lt_mul pos] at small
  rw [maxUserUse, Nat.mod_eq_of_lt]
  calc _ < _ := small
    _ ≤ 2 ^ 63 * 2 ^ 64 := Nat.mul_le_mul_left _ bound.le
    _ ≤ _ := by decide

/-- Without any weight in the total an account is unlimited. Otherwise the window is exact
for just the shares and uses that are 63-bit numbers. -/
theorem elasticAccountLimitInfo_exact_iff {weight : Int64} (nonneg : 0 ≤ weight)
    (totalWeight virtualLimit : UInt64) (window : UInt32) (paramMax : UInt64) (usage : UsageAccumulator)
    (greylistLimit : UInt32) (currentSlot : Option UInt32) :
    let info := (elasticAccountLimitInfo weight totalWeight virtualLimit window paramMax usage
      greylistLimit currentSlot).1
    let most := (capacityInWindow virtualLimit window paramMax greylistLimit).1 * weight.toInt.toNat /
      totalWeight.toNat
    let used := integerDivideCeil (usage.valueEx.toNat * window.toNat) rateLimitingPrecision
    (totalWeight = 0 → info.max = -1 ∧ info.used = -1 ∧ info.available = -1) ∧
    (totalWeight ≠ 0 → (ExactShare info most used ↔ most < 2 ^ 63 ∧ used < 2 ^ 63)) := by
  intro info most used
  constructor
  · intro unstaked
    simp [info, elasticAccountLimitInfo, unstaked]
  · intro staked
    set share := maxUserUse weight totalWeight
      (capacityInWindow virtualLimit window paramMax greylistLimit).1 with share_eq
    have form : info.max = .ofInt share ∧ info.used = .ofInt used ∧
        info.available = if share ≤ used then 0 else .ofInt (share - used : Nat) := by
      simp only [info, elasticAccountLimitInfo]
      rw [if_neg (not_or.mpr ⟨Int64.not_lt.mpr nonneg, staked⟩)]
      exact ⟨rfl, rfl, rfl⟩
    constructor
    · intro exact_
      have high := info.max.toInt_lt
      have high' := info.used.toInt_lt
      rw [exact_.max_eq] at high
      rw [exact_.used_eq] at high'
      omega
    · intro ⟨smallMost, smallUsed⟩
      rw [share_eq, maxUserUse_eq staked smallMost] at form
      obtain ⟨hasMax, hasUsed, available⟩ := form
      refine ⟨hasMax ▸ toInt_ofNat smallMost, hasUsed ▸ toInt_ofNat smallUsed, ?_⟩
      rw [available]
      split_ifs with spent
      · rw [max_eq_left (by omega : (most : Int) - used ≤ 0)]
        rfl
      · rw [toInt_ofNat (by omega : most - used < 2 ^ 63),
          max_eq_right (by omega : (0 : Int) ≤ most - used)]
        omega

theorem elasticAccountLimitInfo_exact_half :
    ExactShare (elasticAccountLimitInfo 1 2 200000 172800 200000 ⟨0, 7, 0⟩ 1000 none).1 17280000000 2 :=
  ((elasticAccountLimitInfo_exact_iff (by decide : (0 : Int64) ≤ 1) 2 200000 172800 200000 ⟨0, 7, 0⟩
    1000 none).2 (by decide)).mpr (by decide)

/-- A large weight that is staged but not in the total yet counts for nothing, and the first
weight of all for no limit. -/
theorem elasticAccountLimitInfo_truncates :
    (elasticAccountLimitInfo (2 ^ 62) 1 200000 172800 200000 .zero 1000 none).1 = ⟨0, 0, 0, 0, 0⟩ ∧
    (elasticAccountLimitInfo 1 0 200000 172800 200000 .zero 1000 none).1.max = -1 := by
  decide +kernel

/-! Limits of blocks. -/

structure ElasticParams where
  target : UInt64
  max : UInt64
  periods : UInt32
  maxMultiplier : UInt32
  contract : UInt64 × UInt64
  expand : UInt64 × UInt64

def updateElasticLimit (current average : UInt64) (p : ElasticParams) : UInt64 :=
  let (num, den) := if p.target < average then p.contract else p.expand
  let result : UInt64 := .ofNat (current.toNat * num.toNat / den.toNat)
  min (max result p.max) (p.max * p.maxMultiplier.toUInt64)

def processBlockUsage (s : ResourceStateRow) (blockNum : UInt32) (cpu net : ElasticParams) :
    ResourceStateRow :=
  let cpuUsage := s.averageBlockCpuUsage.add s.pendingCpuUsage blockNum cpu.periods
  let netUsage := s.averageBlockNetUsage.add s.pendingNetUsage blockNum net.periods
  { s with
    averageBlockCpuUsage := cpuUsage
    virtualCpuLimit := updateElasticLimit s.virtualCpuLimit cpuUsage.average cpu
    pendingCpuUsage := 0
    averageBlockNetUsage := netUsage
    virtualNetLimit := updateElasticLimit s.virtualNetLimit netUsage.average net
    pendingNetUsage := 0 }

def percent100 : UInt64 := 10000

def eosPercent (value : UInt64) (percentage : UInt32) : UInt64 :=
  value * percentage.toUInt64 / percent100

/-- The same for both resources: windows of a minute of half-second blocks. -/
def elasticLimitParameters (max : UInt64) (targetPct : UInt32) : ElasticParams :=
  ⟨eosPercent max targetPct, max, 60 * 1000 / 500, maximumElasticResourceMultiplier, (99, 100), (1000, 999)⟩

def blockElasticParameters (config : GlobalPropertyRow) : ElasticParams × ElasticParams :=
  (elasticLimitParameters config.maxBlockCpuUsage.toUInt64 config.targetBlockCpuUsagePct,
    elasticLimitParameters config.maxBlockNetUsage config.targetBlockNetUsagePct)

def ensure (condition : Bool) (message : String) : Except String Unit :=
  if condition then .ok () else .error message

def GlobalPropertyRow.validate (c : GlobalPropertyRow) : Except String Unit := do
  ensure (c.targetBlockNetUsagePct ≤ 10000) "target block net usage percentage cannot exceed 100%"
  ensure (100 / 10 ≤ c.targetBlockNetUsagePct)
    "target block net usage percentage must be at least 0.1%"
  ensure (c.targetBlockCpuUsagePct ≤ 10000) "target block cpu usage percentage cannot exceed 100%"
  ensure (100 / 10 ≤ c.targetBlockCpuUsagePct)
    "target block cpu usage percentage must be at least 0.1%"
  ensure (c.maxTransactionNetUsage.toUInt64 < c.maxBlockNetUsage)
    "max transaction net usage must be less than max block net usage"
  ensure (c.maxTransactionCpuUsage < c.maxBlockCpuUsage)
    "max transaction cpu usage must be less than max block cpu usage"
  ensure (c.basePerTransactionNetUsage < c.maxTransactionNetUsage)
    "base net usage per transaction must be less than the max transaction net usage"
  ensure (10240 ≤ c.maxTransactionNetUsage - c.basePerTransactionNetUsage)
    "max transaction net usage must be at least 10240 bytes larger than base net usage per transaction"
  ensure (0 < c.contextFreeDiscountNetUsageDen)
    "net usage discount ratio for context free data cannot have a 0 denominator"
  ensure (c.contextFreeDiscountNetUsageNum ≤ c.contextFreeDiscountNetUsageDen)
    "net usage discount ratio for context free data cannot exceed 1"
  ensure (c.minTransactionCpuUsage ≤ c.maxTransactionCpuUsage)
    "min transaction cpu usage cannot exceed max transaction cpu usage"
  ensure (c.maxTransactionCpuUsage < c.maxBlockCpuUsage - c.minTransactionCpuUsage)
    "max transaction cpu usage must be at less than the difference between the max block cpu usage and the min transaction cpu usage"
  ensure (1 ≤ c.maxAuthorityDepth) "max authority depth should be at least 1"

/-- The end of a block, with the configuration in force and what its transactions used. -/
structure Block where
  config : GlobalPropertyRow
  valid : config.validate = .ok ()
  blockNum : UInt32
  cpuUsage : UInt64
  netUsage : UInt64

def finalizeBlockResources (s : ResourceStateRow) (b : Block) : ResourceStateRow :=
  processBlockUsage { s with pendingCpuUsage := b.cpuUsage, pendingNetUsage := b.netUsage }
    b.blockNum (blockElasticParameters b.config).1 (blockElasticParameters b.config).2

/-! In unbounded arithmetic. -/

def exactAverage (usage : UsageAccumulator) (units : UInt64) (blockNum : UInt32) : Nat :=
  integerDivideCeil (usage.left blockNum 120 + UsageAccumulator.contribution units 120)
    rateLimitingPrecision

def exactLimit (current average most targetPct : Nat) : Nat :=
  let moved :=
    if most * targetPct / 10000 < average then current * 99 / 100 else current * 1000 / 999
  min (max moved most) (most * 1000)

/-- One resource at the end of a block: the limit moves by the exact ratio, and into range. -/
structure ExactElastic (usage : UsageAccumulator) (current after : UInt64) (units most : UInt64)
    (targetPct blockNum : UInt32) : Prop where
  moved : after.toNat = exactLimit current.toNat (exactAverage usage units blockNum) most.toNat
    targetPct.toNat
  low : most ≤ after
  high : after.toNat ≤ most.toNat * 1000

/-- What one resource needs: blocks in order, an average that fits, a maximum whose target and
ceiling can be computed. -/
structure Roomy (usage : UsageAccumulator) (units most : UInt64) (targetPct blockNum : UInt32) :
    Prop where
  order : usage.lastOrdinal ≤ blockNum
  average : usage.left blockNum 120 + UsageAccumulator.contribution units 120 < 2 ^ 64
  target : most.toNat * targetPct.toNat < 2 ^ 64
  ceiling : most.toNat * 1000 * 1000 / 999 < 2 ^ 64

/-- A limit that can be expanded once. -/
structure Expandable (current : UInt64) : Prop where
  room : current.toNat * 1000 / 999 < 2 ^ 64

section
variable {usage : UsageAccumulator} {current units most : UInt64} {targetPct blockNum : UInt32}

theorem toNat_eosPercent (target : most.toNat * targetPct.toNat < 2 ^ 64) :
    (eosPercent most targetPct).toNat = most.toNat * targetPct.toNat / 10000 := by
  rw [eosPercent, UInt64.toNat_div, UInt64.toNat_mul, UInt32.toNat_toUInt64, Nat.mod_eq_of_lt target]
  rfl

theorem toNat_updateElasticLimit {average : UInt64} (expandable : Expandable current)
    (target : most.toNat * targetPct.toNat < 2 ^ 64) (ceiling : most.toNat * 1000 < 2 ^ 64) :
    (updateElasticLimit current average (elasticLimitParameters most targetPct)).toNat =
      exactLimit current.toNat average.toNat most.toNat targetPct.toNat := by
  have small := current.toNat_lt
  have cap : (most * maximumElasticResourceMultiplier.toUInt64).toNat = most.toNat * 1000 := by
    rw [UInt64.toNat_mul]
    exact Nat.mod_eq_of_lt ceiling
  have branch : eosPercent most targetPct < average ↔
      most.toNat * targetPct.toNat / 10000 < average.toNat := by
    rw [UInt64.lt_iff_toNat_lt, toNat_eosPercent target]
  unfold updateElasticLimit exactLimit elasticLimitParameters
  rw [UInt64.toNat_min, UInt64.toNat_max, UInt64.toNat_ofNat', cap]
  by_cases busy : most.toNat * targetPct.toNat / 10000 < average.toNat
  · have lower : current.toNat * 99 / 100 < 2 ^ 64 := by omega
    rw [if_pos (branch.mpr busy), if_pos busy]
    exact congrArg (fun moved => min (max moved most.toNat) (most.toNat * 1000)) (Nat.mod_eq_of_lt lower)
  · rw [if_neg (mt branch.mp busy), if_neg busy]
    exact congrArg (fun moved => min (max moved most.toNat) (most.toNat * 1000))
      (Nat.mod_eq_of_lt expandable.room)

theorem updateElasticLimit_exact (roomy : Roomy usage units most targetPct blockNum)
    (expandable : Expandable current) {after : UInt64} (done : after = updateElasticLimit current
      (usage.add units blockNum (elasticLimitParameters most targetPct).periods).average
      (elasticLimitParameters most targetPct)) :
    ExactElastic usage current after units most targetPct blockNum ∧ Expandable after := by
  have periods : (elasticLimitParameters most targetPct).periods = 120 := by
    change (60 * 1000 / 500 : UInt32) = 120
    decide
  have average : (usage.add units blockNum 120).average.toNat = exactAverage usage units blockNum := by
    rw [UsageAccumulator.toNat_average, exactAverage,
      @UsageAccumulator.add_valueEx usage ⟨units, blockNum⟩ 120 (by decide) roomy.order roomy.average]
  have ceiling : most.toNat * 1000 < 2 ^ 64 := by
    have ceiling := roomy.ceiling
    omega
  have moved := @toNat_updateElasticLimit current most targetPct (usage.add units blockNum 120).average
    expandable roomy.target ceiling
  rw [periods] at done
  rw [← done, average] at moved
  have low : most.toNat ≤ after.toNat := moved ▸ le_min (le_max_right _ _) (by omega)
  have high : after.toNat ≤ most.toNat * 1000 := moved ▸ min_le_right _ _
  exact ⟨⟨moved, UInt64.le_iff_toNat_le.mpr low, high⟩,
    ⟨(Nat.div_le_div_right (Nat.mul_le_mul_right 1000 high)).trans_lt roomy.ceiling⟩⟩

end

/-! Over blocks. -/

def RoomyBlock (s : ResourceStateRow) (b : Block) : Prop :=
  Roomy s.averageBlockCpuUsage b.cpuUsage b.config.maxBlockCpuUsage.toUInt64
    b.config.targetBlockCpuUsagePct b.blockNum ∧
  Roomy s.averageBlockNetUsage b.netUsage b.config.maxBlockNetUsage
    b.config.targetBlockNetUsagePct b.blockNum

def ExactBlock (s : ResourceStateRow) (b : Block) : Prop :=
  ExactElastic s.averageBlockCpuUsage s.virtualCpuLimit (finalizeBlockResources s b).virtualCpuLimit
    b.cpuUsage b.config.maxBlockCpuUsage.toUInt64 b.config.targetBlockCpuUsagePct b.blockNum ∧
  ExactElastic s.averageBlockNetUsage s.virtualNetLimit (finalizeBlockResources s b).virtualNetLimit
    b.netUsage b.config.maxBlockNetUsage b.config.targetBlockNetUsagePct b.blockNum

/-- In every run of blocks with room for the numbers, each limit moves by the exact ratio and
is in the range of the block's configuration. -/
theorem finalizeBlockResources_exact {s : ResourceStateRow} {blocks : List Block}
    (cpu : Expandable s.virtualCpuLimit) (net : Expandable s.virtualNetLimit)
    (roomy : Along finalizeBlockResources RoomyBlock s blocks) :
    Along finalizeBlockResources ExactBlock s blocks := by
  refine Along.imp (p := fun s => Expandable s.virtualCpuLimit ∧ Expandable s.virtualNetLimit)
    (fun s b expandable roomy => ?_) ⟨cpu, net⟩ roomy
  have cpu := updateElasticLimit_exact roomy.1 expandable.1
    (rfl : (finalizeBlockResources s b).virtualCpuLimit = _)
  have net := updateElasticLimit_exact roomy.2 expandable.2
    (rfl : (finalizeBlockResources s b).virtualNetLimit = _)
  exact ⟨⟨cpu.1, net.1⟩, cpu.2, net.2⟩

def plainConfig : GlobalPropertyRow :=
  ⟨0, 1048576, 1000, 524288, 12, 500, 20, 100, 200000, 1000, 150000, 100, 3600, 600, 3888000, 4096, 4, 6⟩

/-- A quiet block, and a busy one with a new configuration. -/
theorem finalizeBlockResources_exact_genesis :
    Along finalizeBlockResources ExactBlock ⟨0, .zero, .zero, 0, 0, 0, 0, 0, 1048576, 200000⟩
      [⟨plainConfig, by decide +kernel, 1, 5000, 800⟩,
        ⟨{ plainConfig with maxBlockCpuUsage := 400000, targetBlockNetUsagePct := 10 },
          by decide +kernel, 3, 399000, 900000⟩] :=
  finalizeBlockResources_exact ⟨by decide⟩ ⟨by decide⟩
    ⟨⟨⟨by decide, by decide, by decide, by decide⟩, ⟨by decide, by decide, by decide, by decide⟩⟩,
      ⟨⟨by decide +kernel, by decide +kernel, by decide, by decide⟩,
        ⟨by decide +kernel, by decide +kernel, by decide, by decide⟩⟩, trivial⟩

/-- A configuration that is accepted, with so large a maximum that its ceiling wraps to zero. -/
def vastConfig : GlobalPropertyRow := { plainConfig with maxBlockNetUsage := 2 ^ 61 }

/-- From a limit at its maximum, one empty block takes it to zero. -/
theorem finalizeBlockResources_wraps :
    (finalizeBlockResources ⟨0, .zero, .zero, 0, 0, 0, 0, 0, 2 ^ 61, 200000⟩
      ⟨vastConfig, by decide +kernel, 1, 0, 0⟩).virtualNetLimit = 0 := by
  decide +kernel

end PulseVM.ChainDb
