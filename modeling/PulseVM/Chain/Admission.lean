import PulseVM.Chain.TransactionContext
import PulseVM.ChainDb.LimitTotals

/-!
Admission to the mempool. A node refuses a transaction whose payer cannot afford it, from
the averages as they are stored. Execution first brings the averages of the billed
accounts to the slot of the block, and only then asks what they can pay.
-/

namespace PulseVM.ChainDb.ResourceDb
open Lib

/-- What an account may use of CPU once its average stands at a slot. -/
def decayedCpuLimit (db : ResourceDb) (slot : UInt32) (account : UInt64) : Option Int64 := do
  let (_, _, cpuWeight) ← db.accountLimits account
  let state ← db.state
  let config ← db.config
  let row ← db.usage.find account
  return (elasticAccountLimitInfo cpuWeight state.totalCpuWeight state.virtualCpuLimit
    config.accountCpuUsageAverageWindow config.cpuMax
    (row.cpuUsage.add 0 slot config.accountCpuUsageAverageWindow)
    maximumElasticResourceMultiplier none).1.available

def decayedNetLimit (db : ResourceDb) (slot : UInt32) (account : UInt64) : Option Int64 := do
  let (_, netWeight, _) ← db.accountLimits account
  let state ← db.state
  let config ← db.config
  let row ← db.usage.find account
  return (elasticAccountLimitInfo netWeight state.totalNetWeight state.virtualNetLimit
    config.accountNetUsageAverageWindow config.netMax
    (row.netUsage.add 0 slot config.accountNetUsageAverageWindow)
    maximumElasticResourceMultiplier none).1.available

end PulseVM.ChainDb.ResourceDb

namespace PulseVM.Chain
open ChainDb Lib Lib.Calls Lib.Calls.Call Arena TransactionCall

/-! The check. -/

def checkPayerResourceWindow (db : ResourceDb) (chainConfig : Option GlobalPropertyRow)
    (packed : PackedTransaction) : Except TransactionError Unit := do
  match firstAuthorizer packed.transaction with
  | none => pure ()
  | some payer =>
    match chainConfig with
    | none => .error (.internalError "arena chain_config not seeded")
    | some config =>
      let (cpuLimit, _) ← getAccountCpuLimit db payer maximumElasticResourceMultiplier
      let minCpu := config.minTransactionCpuUsage.toUInt64
      if 0 ≤ cpuLimit ∧ cpuLimit.toUInt64 < minCpu then
        .error (.transactionError
          s!"payer {payer} cannot afford the transaction: available CPU {cpuLimit} is below the {minCpu} minimum")
      else
        let unprunable ← packed.unprunableSize
        let prunable ← packed.prunableSize
        let netUsage := roundUpToWords (initialNetUsage config unprunable prunable)
        let (netLimit, _) ← getAccountNetLimit db payer maximumElasticResourceMultiplier
        if 0 ≤ netLimit ∧ netLimit.toUInt64 < netUsage then
          .error (.transactionError
            s!"payer {payer} cannot afford the transaction: available NET {netLimit} is below its {netUsage} bytes")
        else pure ()

/-! What execution finds. -/

namespace TransactionCall

/-- What the billed accounts can pay, as a transaction learns it when it starts. -/
def payable (trx : Transaction Action) (firstAuthorizer : Option UInt64) :
    TransactionCall Bandwidth := do
  startBilling trx firstAuthorizer
  let c ← Call.read id
  lift (maxBandwidthBilledAccountsCanPay c c.billToAccounts)

end TransactionCall

/-- The least a transaction is billed is more than its payers have. -/
def CannotPay (b : Bandwidth) (minCpu : UInt32) (netUsage : UInt64) : Prop :=
  b.cpu.toInt < minCpu.toNat ∨ b.net.toInt < netUsage.toNat

instance (b : Bandwidth) (minCpu : UInt32) (netUsage : UInt64) :
    Decidable (CannotPay b minCpu netUsage) := inferInstanceAs (Decidable (_ ∨ _))

/-- Whether a transaction that starts in a context finds its payers able to pay. The sizes
are taken before it starts. -/
def payersAble (c : TransactionContext) (packed : PackedTransaction) :
    Except TransactionError Bool := do
  let unprunable ← packed.unprunableSize
  let prunable ← packed.prunableSize
  let config ← (getChainConfig c).1
  let b ← (payable packed.transaction (firstAuthorizer packed.transaction) c).1
  return !decide (CannotPay b config.minTransactionCpuUsage
    (roundUpToWords (initialNetUsage config unprunable prunable)))

/-! One account, and then all of them, brought to the slot. -/

namespace UsageCall

variable {db : ResourceDb} {account cpu net : UInt64} {slot : UInt32}

def charge (cpu net : UInt64) (slot : UInt32) (config : ResourceConfig) (db : ResourceDb)
    (account : UInt64) : ResourceDb :=
  { db with
    usage := db.usage.modify account
      (·.charged cpu net slot config.accountNetUsageAverageWindow
        config.accountCpuUsageAverageWindow)
      (·.owner_charged cpu net slot config.accountNetUsageAverageWindow
        config.accountCpuUsageAverageWindow)
    state := db.state.map fun state => { state with
      pendingCpuUsage := state.pendingCpuUsage + cpu
      pendingNetUsage := state.pendingNetUsage + net } }

/-- Advancing the averages is charging nothing. -/
abbrev decay : UInt32 → ResourceConfig → ResourceDb → UInt64 → ResourceDb := charge 0 0

@[simp] theorem config_charge (config : ResourceConfig) :
    (charge cpu net slot config db account).config = db.config := rfl

/-- An account can be billed if all rows the bill reads are there. -/
def Billable (db : ResourceDb) (account : UInt64) : Prop :=
  (db.accountUsageContext account maximumElasticResourceMultiplier).isSome

theorem billable_iff : Billable db account ↔
    (db.accountLimits account).isSome ∧ db.state.isSome ∧ db.config.isSome ∧
      (db.usage.find account).isSome := by
  unfold Billable ResourceDb.accountUsageContext ResourceDb.accountLimits
  cases db.limits.find (1, account) <;> cases db.limits.find (0, account) <;>
    cases db.state <;> cases db.config <;> cases db.usage.find account <;> simp

/-- With the windows that a bill reads, the tables are charged. -/
theorem addTransactionAndBlockUsage_ok {config : ResourceConfig} {context : AccountUsageContext}
    (configured : db.config = some config)
    (known : db.accountUsageContext account maximumElasticResourceMultiplier = some context) :
    ResourceCall.addTransactionAndBlockUsage account cpu net slot context.netWindow
      context.cpuWindow db = (.ok (), charge cpu net slot config db account) := by
  obtain ⟨-, seeded, -, used⟩ := billable_iff.mp (Option.isSome_of_eq_some known)
  obtain ⟨state, hasState⟩ := Option.isSome_iff_exists.mp seeded
  obtain ⟨row, found⟩ := Option.isSome_iff_exists.mp used
  have windows : context.netWindow = config.accountNetUsageAverageWindow ∧
      context.cpuWindow = config.accountCpuUsageAverageWindow := by
    unfold ResourceDb.accountUsageContext at known
    rw [hasState, configured, found] at known
    cases effective : (db.limits.find (1, account)).or (db.limits.find (0, account)) with
    | none => simp [effective] at known
    | some limits =>
      simp only [effective, Option.bind_eq_bind, Option.bind_some, Option.pure_def,
        Option.some.injEq] at known
      subst known
      exact ⟨rfl, rfl⟩
  simp [ResourceCall.addTransactionAndBlockUsage, windows, found, hasState, charge]

theorem updateAccountUsage_ok {config : ResourceConfig} (configured : db.config = some config)
    (billable : Billable db account) :
    updateAccountUsage account slot db = (.ok (), decay slot config db account) := by
  obtain ⟨context, known⟩ := Option.isSome_iff_exists.mp billable
  simp [updateAccountUsage, wrapped, accountUsage, known,
    addTransactionAndBlockUsage_ok configured known]

theorem updateAccountUsage_error (missing : ¬ Billable db account) :
    ∃ e, updateAccountUsage account slot db = (.error e, db) := by
  have unknown : db.accountUsageContext account maximumElasticResourceMultiplier = none := by
    simpa [Billable] using missing
  simp [updateAccountUsage, wrapped, accountUsage, unknown]

theorem billable_decay (config : ResourceConfig) (other : UInt64) :
    Billable (decay slot config db account) other ↔ Billable db other := by
  rw [billable_iff, billable_iff]
  have kept : ((decay slot config db account).usage.find other).isSome =
      (db.usage.find other).isSome := by
    rw [decay, charge, Keyed.find_modify]
    split <;> simp
  rw [kept]
  simp [charge, ResourceDb.accountLimits]

theorem forM_decay {config : ResourceConfig} {accounts : List UInt64}
    (configured : db.config = some config) (billable : ∀ a ∈ accounts, Billable db a) :
    accounts.forM (updateAccountUsage · slot) db =
      (.ok (), accounts.foldl (decay slot config) db) := by
  induction accounts generalizing db with
  | nil => rfl
  | cons account rest ih =>
    have first : updateAccountUsage account slot db = (.ok (), decay slot config db account) :=
      updateAccountUsage_ok configured (billable account (by simp))
    rw [forM_cons, bind_ok first, List.foldl_cons]
    apply ih ((config_charge config).trans configured)
    intro a member
    exact (billable_decay config a).mpr (billable a (by simp [member]))

theorem forM_decay_error {accounts : List UInt64} (missing : ¬ ∀ a ∈ accounts, Billable db a) :
    ∃ e t, accounts.forM (updateAccountUsage · slot) db = (.error e, t) := by
  induction accounts generalizing db with
  | nil => simp at missing
  | cons account rest ih =>
    rw [forM_cons]
    by_cases here : Billable db account
    · obtain ⟨config, configured⟩ := Option.isSome_iff_exists.mp (billable_iff.mp here).2.2.1
      rw [bind_ok (updateAccountUsage_ok configured here)]
      apply ih
      simpa [here, billable_decay] using missing
    · obtain ⟨e, failed⟩ : ∃ e, updateAccountUsage account slot db = (.error e, db) :=
        updateAccountUsage_error here
      exact ⟨e, db, bind_error failed _⟩

section Frame

variable {config : ResourceConfig} {accounts : List UInt64}

theorem limits_foldl_charge : (accounts.foldl (charge cpu net slot config) db).limits = db.limits := by
  induction accounts generalizing db with
  | nil => rfl
  | cons account rest ih => simp [ih, charge]

theorem config_foldl_charge : (accounts.foldl (charge cpu net slot config) db).config = db.config := by
  induction accounts generalizing db with
  | nil => rfl
  | cons account rest ih => simp [ih]

/-- The block is charged once for every account. -/
theorem state_foldl_charge : (accounts.foldl (charge cpu net slot config) db).state =
    db.state.map fun state => { state with
      pendingCpuUsage := state.pendingCpuUsage + .ofNat accounts.length * cpu
      pendingNetUsage := state.pendingNetUsage + .ofNat accounts.length * net } := by
  induction accounts generalizing db with
  | nil => cases held : db.state <;> simp [held]
  | cons account rest ih =>
    rw [List.foldl_cons, ih, charge, Option.map_map]
    congr 1
    funext state
    simp only [Function.comp, List.length_cons, UInt64.ofNat_add]
    congr 1 <;> grind

theorem find_foldl_charge (nodup : accounts.Nodup) (a : UInt64) :
    (accounts.foldl (charge cpu net slot config) db).usage.find a =
      if a ∈ accounts then (db.usage.find a).map (·.charged cpu net slot
        config.accountNetUsageAverageWindow config.accountCpuUsageAverageWindow)
      else db.usage.find a := by
  induction accounts generalizing db with
  | nil => simp
  | cons account rest ih =>
    obtain ⟨fresh, nodup⟩ := List.nodup_cons.mp nodup
    rw [List.foldl_cons, ih nodup, charge, Keyed.find_modify]
    by_cases same : a = account
    · subst same
      simp [fresh]
    · simp [same]

/-- After the loop an account's limits are those that the rows before it decay to. -/
theorem accountLimits_foldl_decay (configured : db.config = some config)
    (nodup : accounts.Nodup) {a : UInt64} (member : a ∈ accounts) :
    ((accounts.foldl (decay slot config) db).accountCpuLimit a
        maximumElasticResourceMultiplier).map Prod.fst = db.decayedCpuLimit slot a ∧
      ((accounts.foldl (decay slot config) db).accountNetLimit a
        maximumElasticResourceMultiplier).map Prod.fst = db.decayedNetLimit slot a := by
  unfold ResourceDb.accountCpuLimit ResourceDb.accountCpuLimitInfo ResourceDb.decayedCpuLimit
    ResourceDb.accountNetLimit ResourceDb.accountNetLimitInfo ResourceDb.decayedNetLimit
    ResourceDb.accountLimits
  rw [limits_foldl_charge, state_foldl_charge, config_foldl_charge, find_foldl_charge nodup,
    if_pos member, configured]
  cases db.limits.find (1, a) <;> cases db.limits.find (0, a) <;> cases db.state <;>
    cases db.usage.find a <;> simp [ResourceUsageRow.charged]

end Frame

theorem billable_iff_decayed (slot : UInt32) : Billable db account ↔
    (db.decayedCpuLimit slot account).isSome ∧ (db.decayedNetLimit slot account).isSome := by
  rw [billable_iff]
  unfold ResourceDb.decayedCpuLimit ResourceDb.decayedNetLimit
  cases db.accountLimits account <;> cases db.state <;> cases db.config <;>
    cases db.usage.find account <;> simp

end UsageCall

open UsageCall

/-! The least limit. -/

/-- What this node holds against a payer, as it is taken from a limit. -/
def subjective (bill : UInt64) : Int := if bill.toNat < 2 ^ 63 then bill.toNat else 2 ^ 63 - 1

theorem toInt_lessSubjective (limit : Int64) (bill : UInt64) :
    (lessSubjective limit bill).toInt = max 0 (limit.toInt - subjective bill) := by
  have upper := limit.toInt_lt
  have lower := limit.le_toInt
  have nonneg : 0 ≤ subjective bill := by
    unfold subjective
    split <;> omega
  have same : lessSubjective limit bill =
      .ofInt (max 0 (max (-2 ^ 63) (limit.toInt - subjective bill))) := rfl
  rw [same, Int64.toInt_ofInt_of_le (by omega) (by omega)]
  omega

/-- A limit that is not enough once the bills are taken from it. -/
def Falls (limit : Int64) (bill : UInt64) (needed : Nat) : Prop :=
  0 ≤ limit ∧ (lessSubjective limit bill).toInt < needed

theorem lessSubjective_lt_iff (limit : Int64) (bill : UInt64) (needed : Nat) :
    (lessSubjective limit bill).toInt < needed ↔
      0 < needed ∧ limit.toInt < needed + subjective bill := by
  rw [toInt_lessSubjective]
  omega

/-- Taking the bills from the least of some limits is as taking them from each. -/
theorem least_falls_iff {accounts : List UInt64} {limit : UInt64 → Int64} {least cap : Int64}
    (capped : 0 ≤ cap)
    (less : ∀ m : Int, least.toInt < m ↔
      cap.toInt < m ∨ ∃ a ∈ accounts, 0 ≤ limit a ∧ (limit a).toInt < m)
    (bill : UInt64) (needed : Nat) :
    (lessSubjective least bill).toInt < needed ↔
      Falls cap bill needed ∨ ∃ a ∈ accounts, Falls (limit a) bill needed := by
  simp only [Falls, lessSubjective_lt_iff, less, capped, true_and]
  constructor
  · rintro ⟨positive, short | ⟨a, member, limited, short⟩⟩
    · exact .inl ⟨positive, short⟩
    · exact .inr ⟨a, member, limited, positive, short⟩
  · rintro (⟨positive, short⟩ | ⟨a, member, limited, positive, short⟩)
    · exact ⟨positive, .inl short⟩
    · exact ⟨positive, .inr ⟨a, member, limited, short⟩⟩

structure Limits (accounts : List UInt64) (cpuOf netOf : UInt64 → Option Int64)
    (cpu net : UInt64 → Int64) : Prop where
  cpu : ∀ a ∈ accounts, cpuOf a = some (cpu a)
  net : ∀ a ∈ accounts, netOf a = some (net a)

theorem toInt_min_lt (a b : Int64) (m : Int) :
    (min a b).toInt < m ↔ a.toInt < m ∨ b.toInt < m := by
  rw [show min a b = if a ≤ b then a else b from rfl]
  split <;> rename_i less <;> simp only [Int64.le_iff_toInt_le] at * <;> omega

namespace TransactionCall.Bandwidth

variable {db : ResourceDb} {accounts : List UInt64} {cpu net : UInt64 → Int64}

theorem toInt_narrowCpu_lt (b : Bandwidth) (limit : Int64 × Bool) (m : Int) :
    (b.narrowCpu limit).cpu.toInt < m ↔ b.cpu.toInt < m ∨ 0 ≤ limit.1 ∧ limit.1.toInt < m := by
  unfold narrowCpu
  split
  · next limited => simp [limited, toInt_min_lt]
  · next unlimited => simp [unlimited]

theorem toInt_narrowNet_lt (b : Bandwidth) (limit : Int64 × Bool) (m : Int) :
    (b.narrowNet limit).net.toInt < m ↔ b.net.toInt < m ∨ 0 ≤ limit.1 ∧ limit.1.toInt < m := by
  unfold narrowNet
  split
  · next limited => simp [limited, toInt_min_lt]
  · next unlimited => simp [unlimited]

/-- Something is more than the least of the limits if it is more than one of them. -/
theorem least_lt_iff (b : Bandwidth)
    (known : Limits accounts
      (fun a => (db.accountCpuLimit a maximumElasticResourceMultiplier).map Prod.fst)
      (fun a => (db.accountNetLimit a maximumElasticResourceMultiplier).map Prod.fst) cpu net) :
    ∃ r, least db b accounts = .ok r ∧
      (∀ m : Int, r.cpu.toInt < m ↔
        b.cpu.toInt < m ∨ ∃ a ∈ accounts, 0 ≤ cpu a ∧ (cpu a).toInt < m) ∧
      ∀ m : Int, r.net.toInt < m ↔
        b.net.toInt < m ∨ ∃ a ∈ accounts, 0 ≤ net a ∧ (net a).toInt < m := by
  induction accounts generalizing b with
  | nil => exact ⟨b, rfl, by simp, by simp⟩
  | cons account rest ih =>
    obtain ⟨⟨_, cpuGrey⟩, hasCpu, rfl⟩ := Option.map_eq_some_iff.mp (known.cpu account (by simp))
    obtain ⟨⟨_, netGrey⟩, hasNet, rfl⟩ := Option.map_eq_some_iff.mp (known.net account (by simp))
    obtain ⟨r, done, cpuLess, netLess⟩ :=
      ih ((b.narrowNet (net account, netGrey)).narrowCpu (cpu account, cpuGrey))
        ⟨fun a member => known.cpu a (by simp [member]),
          fun a member => known.net a (by simp [member])⟩
    have cpuKept : (b.narrowNet (net account, netGrey)).cpu = b.cpu := by
      unfold narrowNet
      split <;> rfl
    have netKept : ((b.narrowNet (net account, netGrey)).narrowCpu (cpu account, cpuGrey)).net =
        (b.narrowNet (net account, netGrey)).net := by
      unfold narrowCpu
      split <;> rfl
    refine ⟨r, ?_, fun m => ?_, fun m => ?_⟩
    · rw [least, getAccountNetLimit, getAccountCpuLimit, hasNet, hasCpu]
      exact done
    · rw [cpuLess, toInt_narrowCpu_lt, cpuKept]
      simp [or_assoc]
    · rw [netLess, netKept, toInt_narrowNet_lt]
      simp [or_assoc]

end TransactionCall.Bandwidth

/-- What the billed accounts can pay is too little if one limit, or the cap, is. -/
structure Affords (c : TransactionContext) (accounts : List UInt64) (cpu net : UInt64 → Int64)
    (b : Bandwidth) : Prop where
  cpu : ∀ needed : Nat, b.cpu.toInt < needed ↔
    Falls largeNumberNoOverflow c.subjectiveCpuBill needed ∨
      ∃ a ∈ accounts, Falls (cpu a) c.subjectiveCpuBill needed
  net : ∀ needed : Nat, b.net.toInt < needed ↔
    Falls largeNumberNoOverflow c.subjectiveNetBill needed ∨
      ∃ a ∈ accounts, Falls (net a) c.subjectiveNetBill needed

theorem maxBandwidth_affords (c : TransactionContext) {accounts : List UInt64}
    {cpu net : UInt64 → Int64}
    (known : Limits accounts
      (fun a => (c.db.accountCpuLimit a maximumElasticResourceMultiplier).map Prod.fst)
      (fun a => (c.db.accountNetLimit a maximumElasticResourceMultiplier).map Prod.fst) cpu net) :
    ∃ b, maxBandwidthBilledAccountsCanPay c accounts = .ok b ∧ Affords c accounts cpu net b := by
  obtain ⟨r, done, cpuLess, netLess⟩ := Bandwidth.least_lt_iff
    ⟨largeNumberNoOverflow, largeNumberNoOverflow, false, false⟩ known
  have capped : (0 : Int64) ≤ largeNumberNoOverflow := by decide
  unfold maxBandwidthBilledAccountsCanPay
  rw [done]
  exact ⟨_, rfl, least_falls_iff capped cpuLess c.subjectiveCpuBill,
    least_falls_iff capped netLess c.subjectiveNetBill⟩

/-! The condition. -/

/-- An account that cannot pay at a slot, judged by its rows before anything runs. -/
def AccountShort (c : TransactionContext) (minCpu : UInt32) (netUsage account : UInt64) : Prop :=
  match c.db.decayedCpuLimit c.pendingSlot account, c.db.decayedNetLimit c.pendingSlot account with
  | some cpu, some net =>
    Falls cpu c.subjectiveCpuBill minCpu.toNat ∨ Falls net c.subjectiveNetBill netUsage.toNat
  | _, _ => True

/-- Some billed account is short, or the bills this node holds are beyond any limit. -/
def PayersShort (c : TransactionContext) (trx : Transaction Action) (payer : UInt64)
    (minCpu : UInt32) (netUsage : UInt64) : Prop :=
  Falls largeNumberNoOverflow c.subjectiveCpuBill minCpu.toNat ∨
    Falls largeNumberNoOverflow c.subjectiveNetBill netUsage.toNat ∨
    ∃ account ∈ billedAccountsForTransaction trx payer c.onlyBillFirstAuthorizer,
      AccountShort c minCpu netUsage account

/-- The payer is short by its averages as they are stored. -/
def StoredShort (db : ResourceDb) (minCpu : UInt32) (netUsage payer : UInt64) : Prop :=
  match db.accountCpuLimit payer maximumElasticResourceMultiplier,
    db.accountNetLimit payer maximumElasticResourceMultiplier with
  | some (cpu, _), some (net, _) =>
    0 ≤ cpu ∧ cpu.toInt < minCpu.toNat ∨ 0 ≤ net ∧ net.toInt < netUsage.toNat
  | _, _ => True

/-- If the stored limits of the payer are too small, so are those of the billed accounts with
their averages at the slot. -/
def SameSide (c : TransactionContext) (packed : PackedTransaction) : Prop :=
  ∀ config unprunable prunable payer, c.chainConfig = some config →
    packed.unprunableSize = .ok unprunable → packed.prunableSize = .ok prunable →
    firstAuthorizer packed.transaction = some payer →
    StoredShort c.db config.minTransactionCpuUsage
      (roundUpToWords (initialNetUsage config unprunable prunable)) payer →
    PayersShort c packed.transaction payer config.minTransactionCpuUsage
      (roundUpToWords (initialNetUsage config unprunable prunable))

def Rejected (c : TransactionContext) (packed : PackedTransaction) : Prop :=
  checkPayerResourceWindow c.db c.chainConfig packed ≠ .ok ()

/-- Execution finds that the payers cannot pay. -/
def UnableToPay (c : TransactionContext) (packed : PackedTransaction) : Prop :=
  payersAble c packed ≠ .ok true

theorem nodup_billedAccounts (trx : Transaction Action) (payer : UInt64) (onlyFirst : Bool) :
    (billedAccountsForTransaction trx payer onlyFirst).Nodup := by
  unfold billedAccountsForTransaction
  split
  · exact List.nodup_singleton payer
  · exact (List.perm_insertionSort _ _).nodup_iff.mpr (List.nodup_dedup _)

theorem mem_billedAccounts {trx : Transaction Action} {payer : UInt64} (onlyFirst : Bool)
    (first : firstAuthorizer trx = some payer) :
    payer ∈ billedAccountsForTransaction trx payer onlyFirst := by
  unfold billedAccountsForTransaction
  split
  · exact List.mem_singleton_self payer
  · obtain ⟨action, listed, head⟩ := List.exists_of_findSome?_eq_some first
    obtain ⟨level, isHead, rfl⟩ := Option.map_eq_some_iff.mp head
    have authorized : level ∈ action.authorization := List.mem_of_mem_head? isHead
    simp only [orderedSet, List.mem_insertionSort, List.mem_dedup, List.mem_flatMap, List.mem_map]
    exact ⟨action, listed, level, authorized, rfl⟩

/-! What execution finds, in terms of the rows before it. -/

section Payable

variable {c : TransactionContext} {trx : Transaction Action} {payer : UInt64}

abbrev TransactionContext.billed (c : TransactionContext) (trx : Transaction Action)
    (payer : UInt64) : List UInt64 :=
  billedAccountsForTransaction trx payer c.onlyBillFirstAuthorizer

def TransactionContext.billing (c : TransactionContext) (billed : List UInt64) :
    TransactionContext := { c with billToAccounts := billed }

/-- The loop runs on the tables of the context and leaves the rest of it alone. -/
theorem decayBilled_of {verdict : Except TransactionError PUnit} {t : ResourceDb}
    (done : c.billToAccounts.forM (updateAccountUsage · c.pendingSlot) c.db =
      (verdict, t)) : decayBilled c = (verdict, { c with db := t }) := by
  change ((c.billToAccounts.forM (updateAccountUsage · c.pendingSlot) c.db).1,
    { c with db := (c.billToAccounts.forM (updateAccountUsage · c.pendingSlot) c.db).2 })
    = _
  rw [done]

theorem startBilling_eq (first : firstAuthorizer trx = some payer) :
    startBilling trx (some payer) c = decayBilled (c.billing (c.billed trx payer)) := by
  have nonempty := List.ne_nil_of_mem (mem_billedAccounts c.onlyBillFirstAuthorizer first)
  have asserted : assertBilled (c.billed trx payer) = pure () := by
    simp [assertBilled, pulseAssert, nonempty]
  change (assertBilled (c.billed trx payer) >>= fun _ => decayBilled) (c.billing _) = _
  rw [asserted, pure_bind]

theorem payable_error (first : firstAuthorizer trx = some payer)
    (missing : ¬ ∀ a ∈ c.billed trx payer, UsageCall.Billable c.db a) :
    ∃ e, (payable trx (some payer) c).1 = .error e := by
  let billing := c.billing (c.billed trx payer)
  obtain ⟨e, t, failed⟩ : ∃ e t, billing.billToAccounts.forM
      (updateAccountUsage · billing.pendingSlot) billing.db = (.error e, t) :=
    forM_decay_error missing
  have stopped := (startBilling_eq first).trans (decayBilled_of failed)
  exact ⟨e, by rw [payable, bind_error stopped]⟩

/-- Otherwise a demand is more than the payers have exactly if it is more than one decayed
limit, or more than the cap, allows. -/
theorem payable_ok (first : firstAuthorizer trx = some payer) {cpu net : UInt64 → Int64}
    (known : Limits (c.billed trx payer) (c.db.decayedCpuLimit c.pendingSlot)
      (c.db.decayedNetLimit c.pendingSlot) cpu net) :
    ∃ b, (payable trx (some payer) c).1 = .ok b ∧ Affords c (c.billed trx payer) cpu net b := by
  let billing := c.billing (c.billed trx payer)
  have billable : ∀ a ∈ billing.billToAccounts, UsageCall.Billable billing.db a := by
    intro a member
    apply (billable_iff_decayed c.pendingSlot).mpr
    exact ⟨Option.isSome_of_eq_some (known.cpu a member),
      Option.isSome_of_eq_some (known.net a member)⟩
  have payerBilled := mem_billedAccounts c.onlyBillFirstAuthorizer first
  obtain ⟨config, configured⟩ : ∃ config, billing.db.config = some config :=
    Option.isSome_iff_exists.mp (billable_iff.mp (billable payer payerBilled)).2.2.1
  have advanced : billing.billToAccounts.forM
      (updateAccountUsage · billing.pendingSlot) billing.db =
        (.ok (), billing.billToAccounts.foldl (decay billing.pendingSlot config) billing.db) :=
    forM_decay configured billable
  have nodup : billing.billToAccounts.Nodup := nodup_billedAccounts trx payer _
  rw [payable, bind_ok ((startBilling_eq first).trans (decayBilled_of advanced)),
    read_bind]
  obtain ⟨b, found, affords⟩ := maxBandwidth_affords
    { billing with
      db := billing.billToAccounts.foldl (decay billing.pendingSlot config) billing.db }
    ⟨fun a member => (accountLimits_foldl_decay configured nodup member).1.trans
        (known.cpu a member),
      fun a member => (accountLimits_foldl_decay configured nodup member).2.trans
        (known.net a member)⟩
  exact ⟨b, found, affords.cpu, affords.net⟩

end Payable

/-! Admission against execution. -/

section Verdict

variable {c : TransactionContext} {packed : PackedTransaction} {payer : UInt64}

/-- Once everything that is read is there, the verdict is about the payers. -/
theorem unableToPay_iff_cannotPay {config : GlobalPropertyRow} {unprunable prunable : UInt64}
    (configured : c.chainConfig = some config)
    (hasUnprunable : packed.unprunableSize = .ok unprunable)
    (hasPrunable : packed.prunableSize = .ok prunable)
    (first : firstAuthorizer packed.transaction = some payer) :
    UnableToPay c packed ↔ ∀ b, (payable packed.transaction (some payer) c).1 = .ok b →
      CannotPay b config.minTransactionCpuUsage
        (roundUpToWords (initialNetUsage config unprunable prunable)) := by
  have hasConfig : (getChainConfig c).1 = .ok config := by simp [getChainConfig, configured]
  unfold UnableToPay payersAble
  rw [hasUnprunable, hasPrunable, hasConfig, first]
  cases (payable packed.transaction (some payer) c).1 with
  | error e => simp [bind, Except.bind]
  | ok b => simp [bind, Except.bind, pure, Except.pure]

theorem accountShort_of_missing {minCpu : UInt32} {netUsage account : UInt64}
    (missing : ¬ UsageCall.Billable c.db account) : AccountShort c minCpu netUsage account := by
  have unknown := mt (billable_iff_decayed c.pendingSlot).mpr missing
  unfold AccountShort
  split
  · rename_i cpu net hasCpu hasNet
    exact absurd ⟨Option.isSome_of_eq_some hasCpu, Option.isSome_of_eq_some hasNet⟩ unknown
  · trivial

theorem decayed_known {accounts : List UInt64}
    (billable : ∀ a ∈ accounts, UsageCall.Billable c.db a) :
    ∃ cpu net, Limits accounts (c.db.decayedCpuLimit c.pendingSlot)
      (c.db.decayedNetLimit c.pendingSlot) cpu net := by
  have known := fun a member =>
    (billable_iff_decayed c.pendingSlot).mp (billable a member)
  refine ⟨fun a => (c.db.decayedCpuLimit c.pendingSlot a).getD 0,
    fun a => (c.db.decayedNetLimit c.pendingSlot a).getD 0, fun a member => ?_, fun a member => ?_⟩
  · obtain ⟨limit, found⟩ := Option.isSome_iff_exists.mp (known a member).1
    simp [found]
  · obtain ⟨limit, found⟩ := Option.isSome_iff_exists.mp (known a member).2
    simp [found]

/-- What the payers can pay, compared with the rows before they were advanced. -/
theorem cannotPay_iff_payersShort (first : firstAuthorizer packed.transaction = some payer)
    (minCpu : UInt32) (netUsage : UInt64) :
    (∀ b, (payable packed.transaction (some payer) c).1 = .ok b → CannotPay b minCpu netUsage) ↔
      PayersShort c packed.transaction payer minCpu netUsage := by
  by_cases billable : ∀ a ∈ c.billed packed.transaction payer, UsageCall.Billable c.db a
  · -- every limit is known, so both sides speak about the same numbers
    obtain ⟨cpu, net, known⟩ := decayed_known billable
    obtain ⟨b, found, affords⟩ := payable_ok first known
    have short : ∀ a ∈ c.billed packed.transaction payer, AccountShort c minCpu netUsage a ↔
        Falls (cpu a) c.subjectiveCpuBill minCpu.toNat ∨
          Falls (net a) c.subjectiveNetBill netUsage.toNat := by
      intro a member
      simp only [AccountShort, known.cpu a member, known.net a member]
    simp only [found, Except.ok.injEq, forall_eq', CannotPay, affords.cpu, affords.net, PayersShort]
    rw [exists_congr fun a => and_congr_right (short a)]
    simp only [and_or_left, exists_or]
    rw [or_or_or_comm, or_assoc]
  · -- an account without its rows fails the loop, and counts as short
    obtain ⟨e, failed⟩ := payable_error first billable
    push Not at billable
    obtain ⟨a, member, missing⟩ := billable
    have isShort : PayersShort c packed.transaction payer minCpu netUsage :=
      .inr (.inr ⟨a, member, accountShort_of_missing missing⟩)
    simp [failed, isShort]

theorem limited_iff (limit : Int64) (needed : UInt64) :
    0 ≤ limit ∧ limit.toUInt64 < needed ↔ 0 ≤ limit ∧ limit.toInt < needed.toNat := by
  apply and_congr_right
  intro nonneg
  have sign : 0 ≤ limit.toInt := Int64.le_iff_toInt_le.mp nonneg
  have bits : limit.toUInt64.toNat = limit.toBitVec.toNat := rfl
  have value : limit.toInt = limit.toBitVec.toInt := rfl
  rw [BitVec.toInt_eq_toNat_cond] at value
  rw [UInt64.lt_iff_toNat_lt]
  split at value <;> omega

/-- Once everything that is read is there, admission goes by the limits as stored. -/
theorem rejected_iff_storedShort {config : GlobalPropertyRow} {unprunable prunable : UInt64}
    (configured : c.chainConfig = some config)
    (hasUnprunable : packed.unprunableSize = .ok unprunable)
    (hasPrunable : packed.prunableSize = .ok prunable)
    (first : firstAuthorizer packed.transaction = some payer) :
    Rejected c packed ↔ StoredShort c.db config.minTransactionCpuUsage
      (roundUpToWords (initialNetUsage config unprunable prunable)) payer := by
  have minimum := UInt32.toNat_toUInt64 config.minTransactionCpuUsage
  unfold Rejected checkPayerResourceWindow StoredShort getAccountCpuLimit getAccountNetLimit
  rw [first, configured, hasUnprunable, hasPrunable]
  dsimp only
  cases c.db.accountCpuLimit payer maximumElasticResourceMultiplier with
  | none => simp [bind, Except.bind]
  | some cpu =>
  simp only [limited_iff, minimum, bind, Except.bind, pure, Except.pure]
  by_cases shortCpu : 0 ≤ cpu.1 ∧ cpu.1.toInt < config.minTransactionCpuUsage.toNat
  · cases c.db.accountNetLimit payer maximumElasticResourceMultiplier <;> simp [shortCpu]
  · cases c.db.accountNetLimit payer maximumElasticResourceMultiplier with
    | none => simp [shortCpu]
    | some net => simp [shortCpu]

end Verdict

/-- Admission refuses only what execution would refuse, exactly where the limits as stored
and those at the slot lie on the same side of what the transaction needs. -/
theorem rejected_unable_iff (c : TransactionContext) (packed : PackedTransaction) :
    (Rejected c packed → UnableToPay c packed) ↔ SameSide c packed := by
  cases first : firstAuthorizer packed.transaction with
  | none =>
    have admitted : ¬Rejected c packed := by
      simp [Rejected, checkPayerResourceWindow, first, pure, Except.pure]
    simp [admitted, SameSide, first]
  | some payer =>
  cases hasUnprunable : packed.unprunableSize with
  | error e => simp [UnableToPay, payersAble, SameSide, hasUnprunable, bind, Except.bind]
  | ok unprunable =>
  cases hasPrunable : packed.prunableSize with
  | error e =>
    simp [UnableToPay, payersAble, SameSide, hasUnprunable, hasPrunable, bind, Except.bind]
  | ok prunable =>
  cases configured : c.chainConfig with
  | none =>
    simp [UnableToPay, payersAble, SameSide, hasUnprunable, hasPrunable, configured,
      getChainConfig, bind, Except.bind]
  | some config =>
  rw [unableToPay_iff_cannotPay configured hasUnprunable hasPrunable first,
    cannotPay_iff_payersShort first,
    rejected_iff_storedShort configured hasUnprunable hasPrunable first]
  constructor
  · intro same config' unprunable' prunable' payer' hasConfig hasU hasP hasPayer
    cases configured.symm.trans hasConfig
    cases hasUnprunable.symm.trans hasU
    cases hasPrunable.symm.trans hasP
    cases first.symm.trans hasPayer
    exact same
  · intro same
    exact same config unprunable prunable payer configured hasUnprunable hasPrunable first

/-- One account with all the weight there is, which used its whole CPU window at slot 0. -/
def exhaustedDb : ResourceDb where
  limits := ⟨[⟨0, 1, -1, 1, 1, 0⟩], 1, by decide⟩
  usage := ⟨[⟨0, 1, 0, .zero, ⟨0, 2000000000000, 0⟩⟩], 1, by decide⟩
  state := some ⟨0, .zero, .zero, 0, 0, 1, 1, 0, 1048576, 2000000⟩
  config := some ResourceDb.sampleConfig

def sampleChainConfig : GlobalPropertyRow where
  id := 0
  maxBlockNetUsage := 1048576
  targetBlockNetUsagePct := 1000
  maxTransactionNetUsage := 524288
  basePerTransactionNetUsage := 12
  netUsageLeeway := 500
  contextFreeDiscountNetUsageNum := 20
  contextFreeDiscountNetUsageDen := 100
  maxBlockCpuUsage := 2000000
  targetBlockCpuUsagePct := 1000
  maxTransactionCpuUsage := 150000
  minTransactionCpuUsage := 100
  maxTransactionLifetime := 3600
  deferredTrxExpirationWindow := 600
  maxTransactionDelay := 3888000
  maxInlineActionSize := 4096
  maxInlineActionDepth := 4
  maxAuthorityDepth := 6

def samplePacked : PackedTransaction where
  transaction := ⟨0, 0, 0, 0, 0, 0, [], [⟨1, 1, [⟨1, 1⟩]⟩], []⟩
  packedTrxLen := 100
  signaturesLen := 66
  packedContextFreeDataLen := 0

/-- The window has passed: execution would find the whole of it free again. -/
theorem recovered_payer_rejected :
    let c := TransactionContext.new exhaustedDb (some sampleChainConfig) true false 172800 0 0
    Rejected c samplePacked ∧ ¬UnableToPay c samplePacked := by
  unfold Rejected UnableToPay
  decide +kernel

end PulseVM.Chain
