import PulseVM.Chain.Admission

/-!
What a transaction is charged when it is closed: the accounts to bill, and the block with each
of them, pay what a block's receipt says, or else what was used.
-/

namespace PulseVM.Chain
open ChainDb Lib Lib.Calls Lib.Calls.Call TransactionCall UsageCall

/-- The part of the context that a bill depends on. -/
structure Ledger where
  db : ResourceDb
  chain : Option GlobalPropertyRow
  billed : List UInt64
  slot : UInt32
  benchmarking : Bool
  explicit : Bool
  explicitCpuUs : UInt32
  explicitNetWords : UInt32
  cpu : UInt32
  net : UInt64

def TransactionContext.ledger (c : TransactionContext) : Ledger :=
  ⟨c.db, c.chainConfig, c.billToAccounts, c.pendingSlot, c.benchmarking, c.explicitBilledCpuTime,
    c.explicitCpuUs, c.explicitNetWords, c.cpuUsageUs, c.netUsage⟩

namespace Ledger

/-- NET is settled first: an explicit bill replaces what was used, and only whole words count. -/
def recorded (l : Ledger) : Ledger :=
  { l with
    cpu := if l.explicit then l.explicitCpuUs else l.cpu
    net := roundUpToWords (if l.explicit then l.explicitNetWords.toUInt64 * 8 else l.net) }

/-- CPU is settled last: what was measured is raised to the minimum. -/
def measured (l : Ledger) (chain : GlobalPropertyRow) : Ledger :=
  { l with cpu := if l.explicit then l.explicitCpuUs else max l.cpu chain.minTransactionCpuUsage }

def paid (l : Ledger) (config : ResourceConfig) : Ledger :=
  { l with db := l.billed.foldl (charge l.cpu.toUInt64 l.net l.slot config) l.db }

end Ledger

/-- Where it succeeds, the call takes one ledger to another. -/
def Takes {α : Type} (a b : Ledger) (call : TransactionCall α) : Prop :=
  ∀ c : TransactionContext, c.ledger = a → Yields c call fun _ t => t.ledger = b

/-- The call does not touch the ledger. -/
abbrev Aside {α : Type} (call : TransactionCall α) : Prop := Moves (Same TransactionContext.ledger) call

section Steps

variable {env : TransactionEnv} {α β : Type} {a b d : Ledger} {config : ResourceConfig}
  {chain : GlobalPropertyRow}

theorem Takes.bind {call : TransactionCall α} {next : α → TransactionCall β} (first : Takes a b call)
    (second : ∀ x, Takes b d (next x)) : Takes a d (call >>= next) :=
  fun c here => (first c here).seq fun x t there => second x t there

theorem takes_aside {call : TransactionCall α} (aside : Aside call) : Takes a a call :=
  fun _ here => aside.yields fun _ _ same => same.trans here

theorem Takes.after {call : TransactionCall α} {next : α → TransactionCall β} (aside : Aside call)
    (rest : ∀ x, Takes a d (next x)) : Takes a d (call >>= next) := (takes_aside aside).bind rest

theorem takes_when {p : Prop} [Decidable p] {side : TransactionCall Unit}
    {next : Unit → TransactionCall α} (aside : Aside side) (rest : Takes a d (next ())) :
    Takes a d (if p then side >>= next else next ()) := by
  split_ifs
  · exact .after aside fun _ => rest
  · exact rest

theorem aside_assert (condition : Bool) (e : TransactionError) : Aside (pulseAssert condition e) :=
  moves_ite (moves_pure _) (moves_throw e)

theorem aside_update {f : TransactionContext → TransactionContext}
    (same : ∀ c, (f c).ledger = c.ledger) : Aside (update f) := same

theorem aside_lift (verdict : Except TransactionError α) : Aside (lift verdict) := fun _ => rfl

theorem takes_update {f : TransactionContext → TransactionContext} (g : Ledger → Ledger)
    (takes : ∀ c : TransactionContext, (f c).ledger = g c.ledger) : Takes a (g a) (update f) :=
  fun c here => Yields.of_ok rfl (here ▸ takes c)

theorem takes_getChainConfig (seeded : a.chain = some chain) {next : GlobalPropertyRow → TransactionCall β}
    (rest : Takes a d (next chain)) : Takes a d (getChainConfig >>= next) := by
  rintro c rfl
  have known : c.chainConfig = some chain := seeded
  exact Yields.ok_bind (by simp only [getChainConfig, known]) (rest c rfl)

/-- Charging some accounts one after the other, under whatever message. -/
theorem yields_charges {db : ResourceDb} (configured : db.config = some config) {message : String}
    {cpu net : UInt64} {slot : UInt32} {validate : Bool} (accounts : List UInt64) :
    Yields db (accounts.forM fun account =>
        wrapped message account (accountUsage account cpu net slot validate)) fun _ t =>
      t = accounts.foldl (charge cpu net slot config) db := by
  induction accounts generalizing db with
  | nil => exact Yields.of_pure rfl
  | cons account rest ih =>
    rw [forM_cons]
    have step : Yields db (wrapped message account (accountUsage account cpu net slot validate))
        fun _ t => t = charge cpu net slot config db account := by
      constructor
      intro _ t done
      unfold wrapped accountUsage at done
      cases known : db.accountUsageContext account maximumElasticResourceMultiplier with
      | none => simp [known] at done
      | some context =>
        simp only [known, addTransactionAndBlockUsage_ok configured known] at done
        generalize (if validate then checkAvailable context cpu net else .ok ()) = verdict at done
        cases verdict with
        | error e => cases done
        | ok => exact (Prod.mk.inj done).2.symm
    apply step.seq
    rintro _ t rfl
    exact ih ((config_charge config).trans configured)

theorem takes_onDb {call : UsageCall Unit} {db : ResourceDb}
    (yields : Yields a.db call fun _ t => t = db) : Takes a { a with db := db } (onDb call) := by
  rintro c rfl
  refine ⟨fun _ t done => ?_⟩
  obtain ⟨ok, rfl⟩ := Prod.mk.inj done
  exact congrArg (fun db => { c.ledger with db := db }) (yields.post () _ (Prod.ext ok rfl))

theorem takes_chargeBilled (configured : a.db.config = some config) (bills : a.benchmarking = false) :
    Takes a (a.paid config) chargeBilled := by
  rintro c rfl
  refine Yields.read_bind ?_
  dsimp only [id]
  rw [if_neg (show ¬c.benchmarking = true from Bool.eq_false_iff.mp bills)]
  exact takes_onDb (yields_charges configured _) c rfl

theorem takes_recordNetUsage (a : Ledger) : Takes a a.recorded recordNetUsage := by
  rintro c rfl
  refine Yields.of_ok rfl ?_
  by_cases explicit : c.explicitBilledCpuTime = true <;>
    simp [TransactionContext.ledger, Ledger.recorded, explicit]

theorem aside_enforcePayers : Aside enforcePayers := by
  refine (moves_read _).bind fun c => moves_ite (moves_pure _) ?_
  refine (aside_lift _).bind fun payable => Moves.bind (fun _ => rfl) fun _ => (moves_read _).bind fun _ => ?_
  have narrows : Aside (update fun c => if payable.cpu ≤ c.cpuLimit then
      { c with cpuLimit := payable.cpu, cpuLimitDueToBlock := false } else c) :=
    aside_update fun c => by split_ifs <;> rfl
  refine moves_ite ?_ narrows
  exact Moves.bind (fun _ => rfl) fun _ => (moves_read _).bind fun _ => (aside_lift _).bind fun _ => narrows

theorem takes_updateBilledCpuTime (seeded : a.chain = some chain) :
    Takes a (a.measured chain) updateBilledCpuTime := by
  rintro c rfl
  refine Yields.read_bind ?_
  by_cases explicit : c.explicitBilledCpuTime = true
  · rw [if_pos explicit]
    exact Yields.of_ok rfl (by simp [TransactionContext.ledger, Ledger.measured, explicit])
  · rw [if_neg explicit, Ledger.measured, if_neg (show ¬c.ledger.explicit = true from explicit)]
    exact takes_getChainConfig seeded (takes_update
      (fun l => { l with cpu := max l.cpu chain.minTransactionCpuUsage }) fun _ => rfl) c rfl

theorem aside_validateCpuUsageToBill (checkMinimum : Bool) :
    Aside (validateCpuUsageToBill checkMinimum) := by
  have checks : Aside (Call.read validateAccountCpuUsage >>= lift) :=
    (moves_read _).bind fun _ => aside_lift _
  refine moves_ite ?_ checks
  refine Moves.bind (fun c => ?_) fun _ => (moves_read _).bind fun _ => (aside_assert _ _).bind fun _ => checks
  unfold getChainConfig
  split <;> exact refl_of _ c

theorem takes_finalize (configured : a.db.config = some config) (seeded : a.chain = some chain)
    (bills : a.benchmarking = false) :
    Takes a ((a.recorded.measured chain).paid config) (finalize env) :=
  (takes_recordNetUsage a).bind fun _ => .after (moves_read _) fun _ =>
    takes_when (aside_lift _) <| .after (moves_read _) fun _ => .after (aside_lift _) fun _ =>
    .after (aside_assert _ _) fun _ => .after aside_enforcePayers fun _ =>
    (takes_updateBilledCpuTime (a := a.recorded) seeded).bind fun _ =>
    .after (aside_validateCpuUsageToBill _) fun _ =>
    (takes_chargeBilled (a := a.recorded.measured chain) configured bills).bind fun _ =>
    takes_aside (moves_read _)

end Steps

/-- Closing a transaction charges whom it bills, and nobody else: what its block's receipt says,
or else what it used, no less than the minimum of CPU and whole words of NET. -/
theorem finalize_charges {env : TransactionEnv} {c t : TransactionContext} {config : ResourceConfig}
    {chain : GlobalPropertyRow} {cpu : UInt32} (configured : c.db.config = some config)
    (seeded : c.chainConfig = some chain) (bills : c.benchmarking = false)
    (closed : finalize env c = (.ok cpu, t)) :
    cpu = (if c.explicitBilledCpuTime then c.explicitCpuUs
      else max c.cpuUsageUs chain.minTransactionCpuUsage) ∧
    t.netUsage = roundUpToWords (if c.explicitBilledCpuTime then c.explicitNetWords.toUInt64 * 8
      else c.netUsage) ∧
    t.db = c.billToAccounts.foldl (charge cpu.toUInt64 t.netUsage c.pendingSlot config) c.db := by
  have ends := (takes_finalize configured seeded bills c rfl).post cpu t closed
  have returned : cpu = t.cpuUsageUs := by
    refine Yields.post (?_ : Yields c (finalize env) fun cpu t => cpu = t.cpuUsageUs) cpu t closed
    refine Yields.bind_any fun _ _ => Yields.read_bind ?_
    split_ifs
    all_goals
      repeat refine Yields.bind_any fun _ _ => ?_
      exact Yields.of_read rfl
  have cpuPaid : cpu = (c.ledger.recorded.measured chain).cpu :=
    returned.trans (congrArg Ledger.cpu ends)
  have netPaid : t.netUsage = c.ledger.recorded.net := congrArg Ledger.net ends
  refine ⟨cpuPaid.trans ?_, netPaid, ?_⟩
  · by_cases explicit : c.explicitBilledCpuTime = true <;>
      simp [Ledger.measured, Ledger.recorded, TransactionContext.ledger, explicit]
  · rw [cpuPaid, netPaid]
    exact congrArg Ledger.db ends

/-- 142 bytes are declared and 30 more are written while it computes for 250 microseconds. -/
theorem finalize_charges_sample :
    let env : TransactionEnv := ⟨.ok (), .ok (), .ok (), .ok (), .ok ()⟩
    let c := ((do
      initForInputTrx env 116 66 samplePacked.transaction
      addNetUsage 30
      addCpuUsage 250 : TransactionCall Unit)
        (.new exhaustedDb (some sampleChainConfig) true false 172800 0 0)).2
    ∃ t, finalize env c = (.ok 250, t) ∧ t.netUsage = 176 ∧
      t.db.state.map (·.pendingCpuUsage) = some 250 ∧
      (t.db.usage.find 1).map (·.netUsage.consumed) = some 176 := by
  intro env c
  have configured : c.db.config = some ResourceDb.sampleConfig := rfl
  have seeded : c.chainConfig = some sampleChainConfig := by decide +kernel
  have ok : (finalize env c).1 = .ok 250 := by decide +kernel
  generalize run : finalize env c = ran at ok ⊢
  obtain ⟨verdict, t⟩ := ran
  cases ok
  obtain ⟨_, net, charged⟩ := finalize_charges configured seeded (by decide +kernel) run
  rw [net] at charged
  refine ⟨t, rfl, net.trans (by decide +kernel), ?_, ?_⟩ <;> rw [charged] <;> decide +kernel

end PulseVM.Chain
