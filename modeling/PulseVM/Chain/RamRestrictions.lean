import PulseVM.Chain.Exec
import PulseVM.ChainDb.ContractSteps

/-!
What an execution charges. Every charge is booked twice: on the usage of the account and
among the deltas of the context, which `RAM_RESTRICTIONS` judges when the receiver is done.
The deltas are the real charges, so the judgement is about them.
-/

namespace PulseVM.Chain
open Arena ChainDb Lib.Encoding Lib.Calls Lib.Calls.Call
open Yields hiding bind read_bind
open ArenaObject hiding id

theorem ofInt_zero : UInt64.ofInt 0 = 0 := rfl

namespace ApplyState

def IsI64 (n : Int) : Prop := -2 ^ 63 ≤ n ∧ n < 2 ^ 63

/-- Usage moves by what the deltas move, and every account with a new delta is listed. -/
structure Charged (s t : ApplyState) : Prop where
  usage : ∀ a u, s.ramUsage a = some u →
    t.ramUsage a = some (u + UInt64.ofInt (t.accountRamDeltas a - s.accountRamDeltas a))
  listed : ∀ a, t.accountRamDeltas a ≠ s.accountRamDeltas a → a ∈ t.chargedAccounts
  kept : ∀ a ∈ s.chargedAccounts, a ∈ t.chargedAccounts
  fits : (∀ a, IsI64 (s.accountRamDeltas a)) → ∀ a, IsI64 (t.accountRamDeltas a)

theorem Charged.of_same {s t : ApplyState} (usage : t.ramUsage = s.ramUsage)
    (deltas : t.accountRamDeltas = s.accountRamDeltas)
    (listed : t.chargedAccounts = s.chargedAccounts) : s.Charged t where
  usage a u before := by
    rw [usage, deltas, before, sub_self, ofInt_zero, add_zero]
  listed a differs := absurd (congrFun deltas a) differs
  kept a member := by
    rw [listed]
    exact member
  fits all := by
    rw [deltas]
    exact all

instance : IsPreorder ApplyState Charged where
  refl _ := Charged.of_same rfl rfl rfl
  trans s t u first second :=
    { usage := by
        intro a before known
        rw [second.usage a _ (first.usage a before known), add_assoc, ← UInt64.ofInt_add]
        congr 3
        omega
      listed := by
        intro a differs
        by_cases late : u.accountRamDeltas a = t.accountRamDeltas a
        · exact second.kept a (first.listed a (late ▸ differs))
        · exact second.listed a late
      kept := fun a member => second.kept a (first.kept a member)
      fits := fun all => second.fits (first.fits all) }

end ApplyState

open ApplyState

namespace ApplyCall

variable {α Action : Type} {env : ApplyEnv Action} {f : Family}

theorem leads_lift (verdict : Except ChainError α) : Leads Charged (lift verdict) :=
  Moves.leads fun s => refl_of Charged s

theorem leads_pulseAssert (condition : Bool) (error : ChainError) :
    Leads Charged (pulseAssert condition error) :=
  leads_ite (leads_pure ()) (leads_throw error)

theorem leads_onContract (name : String) (call : ContractCall α) :
    Leads Charged (onContract name call) := by
  apply Moves.leads
  intro s
  unfold onContract
  split <;> exact Charged.of_same rfl rfl rfl

theorem leads_onCache (op : ArenaIteratorCache → α × ArenaIteratorCache) :
    Leads Charged (onCache f op) := Moves.leads fun _ => Charged.of_same rfl rfl rfl

theorem leads_onDeferred (name : String) (op : Registered DeferredTransactionRow →
    Except TableError α × Registered DeferredTransactionRow) :
    Leads Charged (onDeferred name op) := Moves.leads fun _ => Charged.of_same rfl rfl rfl

theorem leads_addRamUsage (account : UInt64) (delta : Int) :
    Leads Charged (addRamUsage account delta) := by
  intro s
  refine ok_bind rfl ?_
  apply Yields.read_bind
  apply Yields.bind
  unfold pulseAssert
  split
  · next fits =>
    apply of_pure
    refine of_ok rfl ⟨fun a u before => ?_, fun a differs => ?_,
      fun a member => List.mem_append_left _ member, fun all a => ?_⟩
    · by_cases same : a = account
      · subst same
        simp [before]
      · simp [same, before, ofInt_zero]
    · by_cases same : a = account
      · simp [same]
      · simp [same] at differs
    · by_cases same : a = account
      · subst same
        simpa [IsI64] using fits
      · simpa [same] using all a
  · exact of_throw _

theorem leads_updateDbUsage (payer : UInt64) (delta : Int) :
    Leads Charged (updateDbUsage env payer delta) := by
  apply Leads.bind
  · apply leads_ite
    · exact (leads_pulseAssert _ _).bind fun _ => leads_pulseAssert _ _
    · exact leads_pure ()
  · exact fun _ => leads_addRamUsage payer delta

/-! Contract rows. -/

theorem leads_arenaTableExists (code scope table : UInt64) :
    Leads Charged (arenaTableExists code scope table) :=
  (leads_read _).bind fun _ => leads_pure _

theorem leads_arenaKvRow (code scope table primary : UInt64) :
    Leads Charged (arenaKvRow code scope table primary) := by
  refine (leads_read _).bind_option (leads_pure _) fun row => ?_
  exact (leads_read _).bind_option (leads_throw _) fun value => leads_pure _

theorem leads_arenaIdxPayer (code scope table primary : UInt64) :
    Leads Charged (arenaIdxPayer f code scope table primary) :=
  (leads_read _).bind fun _ => leads_pure _

theorem leads_storeRow (scope table payer primaryKey : UInt64) (value : f.Value) :
    Leads Charged (storeRow env f scope table payer primaryKey value) := by
  apply (leads_onContract _ _).bind
  intro _
  apply (leads_onCache _).bind
  intro _
  apply (leads_onCache _).bind
  intro res
  exact (leads_updateDbUsage _ _).bind fun _ => leads_pure res

theorem leads_dbStore (scope table payer primaryKey : UInt64) (value : f.Value) :
    Leads Charged (dbStore env f scope table payer primaryKey value) := by
  have stored : Leads Charged (storeRow env f scope table payer primaryKey value) :=
    leads_storeRow _ _ _ _ _
  apply (leads_pulseAssert _ _).bind
  intro _
  apply (leads_arenaTableExists _ _ _).bind
  intro there
  exact leads_ite stored ((leads_updateDbUsage _ _).bind fun _ => stored)

theorem leads_rowOfOwn (iterator : Int32) : Leads Charged (rowOfOwn env f iterator) := by
  refine (leads_read _).bind_option (leads_throw _) fun row => ?_
  exact (leads_pulseAssert _ _).bind fun _ => leads_pure row

theorem leads_rebill (oldPayer newPayer : UInt64) (oldSize newSize : Int) :
    Leads Charged (rebill env oldPayer newPayer oldSize newSize) := by
  apply leads_ite
  · exact (leads_updateDbUsage _ _).bind fun _ => leads_updateDbUsage _ _
  · exact leads_ite (leads_updateDbUsage _ _) (leads_pure ())

theorem leads_dbUpdateI64 (iterator : Int32) (payer : UInt64) (data : Bytes) :
    Leads Charged (dbUpdateI64 env iterator payer data) := by
  apply (leads_rowOfOwn iterator).bind
  rintro ⟨code, scope, table, primary⟩
  refine (leads_arenaKvRow _ _ _ _).bind_option (leads_throw _) fun row => ?_
  exact (leads_onContract _ _).bind fun _ => leads_rebill _ _ _ _

theorem leads_dbIdxUpdate (iterator : Int32) (payer : UInt64) (secondary : f.Value) :
    Leads Charged (dbIdxUpdate env f iterator payer secondary) := by
  apply (leads_rowOfOwn iterator).bind
  rintro ⟨code, scope, table, primary⟩
  refine (leads_arenaIdxPayer _ _ _ _).bind_option (leads_throw _) fun row => ?_
  exact (leads_onContract _ _).bind fun _ => leads_rebill _ _ _ _

theorem leads_dropRow (iterator : Int32) (row : RowKey) (payer : UInt64) (size : Int) :
    Leads Charged (dropRow env f iterator row payer size) := by
  obtain ⟨code, scope, table, primary⟩ := row
  apply ((leads_read _).bind fun _ => leads_pure _).bind
  intro tablePayer
  apply (leads_onContract _ _).bind
  intro _
  apply (leads_onCache _).bind
  intro _
  apply (leads_updateDbUsage _ _).bind
  intro _
  apply (leads_arenaTableExists _ _ _).bind
  intro there
  exact leads_ite (leads_pure ()) (leads_updateDbUsage _ _)

theorem leads_dbRemoveI64 (iterator : Int32) : Leads Charged (dbRemoveI64 env iterator) := by
  apply (leads_rowOfOwn iterator).bind
  rintro ⟨code, scope, table, primary⟩
  refine (leads_arenaKvRow _ _ _ _).bind_option (leads_throw _) fun row => ?_
  exact leads_dropRow _ _ _ _

theorem leads_dbIdxRemove (iterator : Int32) : Leads Charged (dbIdxRemove env f iterator) := by
  apply (leads_rowOfOwn iterator).bind
  rintro ⟨code, scope, table, primary⟩
  exact (leads_arenaIdxPayer _ _ _ _).bind fun payer => leads_dropRow _ _ _ _

theorem leads_dbFindI64 (code scope table primary : UInt64) :
    Leads Charged (dbFindI64 code scope table primary) := by
  apply (leads_arenaTableExists _ _ _).bind
  intro there
  apply leads_ite
  · apply (leads_arenaKvRow _ _ _ _).bind
    intro row
    exact leads_ite (leads_onCache _) (leads_onCache _)
  · exact leads_pure _

theorem leads_dbIdxFindPrimary (code scope table primary : UInt64) :
    Leads Charged (dbIdxFindPrimary f code scope table primary) := by
  apply (leads_read _).bind
  intro row
  apply leads_ite
  · exact (leads_onCache _).bind fun _ => leads_onCache _
  · apply (leads_arenaTableExists _ _ _).bind
    intro there
    exact leads_ite (leads_onCache _) (leads_pure _)

/-! Deferred transactions. -/

theorem leads_materialize (row : DeferredTransactionRow) :
    Leads Charged (materialize row) := by
  refine (leads_read _).bind_option (leads_throw _) fun bytes => ?_
  exact leads_pure _

theorem leads_arenaDeferredTransaction (trxId : Vector UInt8 32) :
    Leads Charged (arenaDeferredTransaction trxId) := by
  refine (leads_read _).bind_option (leads_pure _) fun row => ?_
  exact (leads_materialize row).bind fun _ => leads_pure _

theorem leads_bySenderId (sender : UInt64) (senderId : BitVec 128) :
    Leads Charged (arenaDeferredTransactionBySenderId sender senderId) := by
  refine (leads_read _).bind_option (leads_pure _) fun row => ?_
  exact (leads_materialize row).bind fun _ => leads_pure _

theorem leads_removeBySenderId (sender : UInt64) (senderId : BitVec 128) :
    Leads Charged (arenaRemoveDeferredTransactionBySenderId sender senderId) := by
  refine (leads_read _).bind_option (leads_pure _) fun row => ?_
  apply (leads_materialize row).bind
  intro removed
  exact (leads_onDeferred _ _).bind fun _ => leads_pure _

theorem leads_refundDeferred (old : DeferredTransaction) :
    Leads Charged (refundDeferred env old) :=
  (leads_lift _).bind fun _ => leads_updateDbUsage _ _

theorem leads_addNetUsage (net : UInt64) : Leads Charged (addNetUsage env net) := by
  apply (leads_read _).bind
  intro before
  apply (leads_pulseAssert _ _).bind
  intro _
  have moved : Leads Charged
      (fun s => (.ok (), { s with netUsage := before + net }) : ApplyCall Unit) :=
    Moves.leads fun s => Charged.of_same rfl rfl rfl
  exact moved.bind fun _ => leads_lift _

theorem leads_enqueueDeferred (senderId : BitVec 128) (payer : UInt64) (trx : Transaction Action)
    (delayUntil expiration : Int64) :
    Leads Charged (enqueueDeferred env senderId payer trx delayUntil expiration) := by
  apply Leads.bind
  · apply (leads_onDeferred _ _).bind
    intro stored
    exact (leads_onDeferred _ _).bind fun _ => leads_pure ()
  · intro _
    apply (leads_addNetUsage _).bind
    intro _
    exact (leads_lift _).bind fun _ => leads_updateDbUsage _ _

theorem leads_queueDeferred (senderId : BitVec 128) (payer : UInt64) (trx : Transaction Action)
    (replaceExisting : Bool) (existing : Option DeferredTransaction) :
    Leads Charged (queueDeferred env senderId payer trx replaceExisting existing) := by
  have duplicate : Leads Charged
      (checkDuplicate env (existing.map (·.trxId)) (env.trxIdOf trx)) := by
    apply leads_ite
    · exact (leads_arenaDeferredTransaction _).bind fun _ => leads_pulseAssert _ _
    · exact leads_pure ()
  have dropped : Leads Charged (dropExisting env senderId existing) := by
    cases existing with
    | none => exact leads_pure ()
    | some old => exact (leads_removeBySenderId _ _).bind fun _ => leads_refundDeferred old
  apply (leads_pulseAssert _ _).bind
  intro _
  apply (leads_pulseAssert _ _).bind
  intro _
  apply duplicate.bind
  intro _
  apply (leads_lift _).bind
  intro delayUntil
  apply (leads_lift _).bind
  intro expiration
  exact dropped.bind fun _ => leads_enqueueDeferred _ _ _ _ _

theorem leads_scheduleDeferred (senderId : BitVec 128) (payer : UInt64) (packedTrx : Bytes)
    (replaceExisting : Bool) :
    Leads Charged (scheduleDeferred env senderId payer packedTrx replaceExisting) := by
  apply leads_ite
  · exact leads_pure ()
  · apply (leads_lift _).bind
    intro trx
    exact (leads_bySenderId _ _).bind fun existing => leads_queueDeferred _ _ _ _ _

theorem leads_cancelDeferred (senderId : BitVec 128) :
    Leads Charged (cancelDeferred env senderId) := by
  apply leads_ite
  · exact leads_pure _
  · refine (leads_removeBySenderId _ _).bind_option (leads_pure _) fun old => ?_
    exact (leads_refundDeferred old).bind fun _ => leads_pure _

/-- Whatever a contract asks of its context, charges are booked on both sides. -/
theorem leads_perform (op : ApplyOp) : Leads Charged (perform env op) := by
  cases op with
  | store f scope table payer primaryKey value =>
    exact (leads_dbStore _ _ _ _ _).bind fun _ => leads_pure ()
  | updateI64 iterator payer data => exact leads_dbUpdateI64 _ _ _
  | idxUpdate f index iterator payer secondary => exact leads_dbIdxUpdate _ _ _
  | removeI64 iterator => exact leads_dbRemoveI64 _
  | idxRemove f index iterator => exact leads_dbIdxRemove _
  | findI64 code scope table primary =>
    exact (leads_dbFindI64 _ _ _ _).bind fun _ => leads_pure ()
  | idxFindPrimary f index code scope table primary =>
    exact (leads_dbIdxFindPrimary _ _ _ _).bind fun _ => leads_pure ()
  | scheduleDeferred senderId payer packedTrx replaceExisting =>
    exact leads_scheduleDeferred _ _ _ _
  | cancelDeferred senderId =>
    exact (leads_cancelDeferred _).bind fun _ => leads_pure ()

end ApplyCall

/-! Executions. -/

/-- The deltas of the receiver are what was charged to the accounts that have usage. An
unprivileged one has increased the RAM of another account only with its authorization, and
only in its own action. -/
def Event.Restricted : Event → Prop
  | .finished receiver action privileged deltas before after =>
    (∀ account, IsI64 (deltas account)) ∧
    (∀ account usage, before account = some usage →
      after account = some (usage + UInt64.ofInt (deltas account))) ∧
    (privileged = false → ∀ account, account ≠ receiver → 0 < deltas account →
      account ∈ action.authorization.map (·.actor) ∧ receiver = action.account)
  | _ => True

namespace ExecState

/-- The log grows by events that are restricted. -/
def Lawful (s t : ExecState) : Prop :=
  ∃ events, t.log = s.log ++ events ∧ ∀ e ∈ events, e.Restricted

/-- The same while a receiver runs, with its charges booked. -/
def Working (s t : ExecState) : Prop := s.apply.Charged t.apply ∧ s.Lawful t

theorem Lawful.of_same {s t : ExecState} (log : t.log = s.log) : s.Lawful t :=
  ⟨[], by rw [log, List.append_nil], by simp⟩

instance : IsPreorder ExecState Lawful where
  refl _ := Lawful.of_same rfl
  trans s t u first second := by
    obtain ⟨one, grown, lawful⟩ := first
    obtain ⟨two, more, later⟩ := second
    refine ⟨one ++ two, by rw [more, grown, List.append_assoc], fun e member => ?_⟩
    exact (List.mem_append.mp member).elim (lawful e) (later e)

instance : IsPreorder ExecState Working where
  refl s := ⟨refl_of Charged s.apply, refl_of Lawful s⟩
  trans _ _ _ first second :=
    ⟨trans_of Charged first.1 second.1, trans_of Lawful first.2 second.2⟩

end ExecState

namespace ExecCall
open ExecState

variable {α : Type} {w : World}

theorem working_quiet {call : ExecCall α}
    (quiet : Moves (Same fun s => (s.apply, s.log)) call) : Leads Working call := by
  apply Moves.leads
  intro s
  obtain ⟨apply, log⟩ := Prod.mk.inj (quiet s)
  exact ⟨by rw [apply]; exact refl_of Charged _, Lawful.of_same log⟩

theorem working_onApply {call : ApplyCall α} (charges : Leads Charged call) :
    Leads Working (onApply call) := by
  intro s
  refine of_run rfl fun a verdict => ?_
  exact ⟨charges.ok (Prod.ext verdict rfl), Lawful.of_same rfl⟩

theorem working_record (event : Event) (lawful : event.Restricted) :
    Leads Working (record event) := by
  apply Moves.leads
  intro s
  exact ⟨refl_of Charged s.apply, [event], rfl, by simpa using lawful⟩

theorem working_reloadAction (ordinal : Nat) : Leads Working (reloadAction ordinal) :=
  (leads_getActionTrace ordinal).bind fun _ => working_quiet fun _ => rfl

theorem working_requireRecipient (ordinal : Nat) (recipient : UInt64) :
    Leads Working (requireRecipient ordinal recipient) := by
  have scheduled : Leads Working
      (scheduleActionFromOrdinal ordinal recipient false ordinal 0) := by
    apply (leads_getActionTrace _).bind
    exact fun _ => working_quiet fun _ => rfl
  apply (working_record (.notified recipient) trivial).bind
  intro _
  apply (leads_read _).bind
  intro known
  apply leads_ite
  · exact leads_pure ()
  · apply scheduled.bind
    intro new
    apply (working_reloadAction _).bind
    exact fun _ => working_quiet fun _ => rfl

theorem working_executeInline (ordinal : Nat) (action : Action)
    (validated : Except ChainError Unit) :
    Leads Working (executeInline ordinal action validated) := by
  have scheduled : Leads Working
      (scheduleAction action action.account false ordinal 0) := working_quiet fun _ => rfl
  apply (leads_lift _).bind
  intro _
  apply scheduled.bind
  intro new
  apply (working_reloadAction _).bind
  intro _
  apply (working_record (.scheduled false action) trivial).bind
  exact fun _ => working_quiet fun _ => rfl

theorem working_executeContextFreeInline (env : ApplyEnv Action) (ordinal : Nat)
    (action : Action) : Leads Working (executeContextFreeInline env ordinal action) := by
  have scheduled : Leads Working
      (scheduleAction action action.account true ordinal 0) := working_quiet fun _ => rfl
  apply (leads_pulseAssert _ _).bind
  intro _
  apply (leads_pulseAssert _ _).bind
  intro _
  apply scheduled.bind
  intro new
  apply (working_reloadAction _).bind
  intro _
  apply (working_record (.scheduled true action) trivial).bind
  exact fun _ => working_quiet fun _ => rfl

theorem charged_initializeUsage (account : UInt64) :
    Leads Charged (initializeUsage account) := by
  apply Moves.leads
  intro s
  refine ⟨fun a u before => ?_, fun a differs => absurd rfl differs, fun a member => member,
    fun all => all⟩
  by_cases same : a = account
  · subst same
    simp [initializeUsage, before, ofInt_zero]
  · simp [initializeUsage, same, before, ofInt_zero]

theorem working_host (receiver : UInt64) (ordinal : Nat) (call : ApplyEnv Action × HostCall) :
    Leads Working (host w receiver ordinal call) := by
  apply (leads_read _).bind
  intro env
  cases call.2 with
  | database op => exact working_onApply (ApplyCall.leads_perform op)
  | addRamUsage account delta => exact working_onApply (ApplyCall.leads_addRamUsage _ _)
  | initializeAccountResourceLimits account =>
    exact working_onApply (charged_initializeUsage account)
  | requireRecipient recipient => exact working_requireRecipient _ _
  | executeInline action validated => exact working_executeInline _ _ _
  | executeContextFreeInline action => exact working_executeContextFreeInline _ _ _

/-! The judgement. -/

variable {s : ExecState}

theorem yields_checkRamDelta (receiver : UInt64) (action : Action) (account : UInt64) :
    Yields s (checkRamDelta receiver action account) fun _ t => t = s ∧
      (account ≠ receiver → 0 < s.apply.accountRamDeltas account →
        account ∈ action.authorization.map (·.actor) ∧ receiver = action.account) := by
  apply Yields.read_bind
  split
  · apply assert_bind
    intro own
    apply of_assert
    intro authorized
    exact ⟨rfl, fun _ _ => ⟨of_decide_eq_true authorized, of_decide_eq_true own⟩⟩
  · next fine => exact of_pure ⟨rfl, fun other more => absurd ⟨more, other⟩ fine⟩

theorem yields_checkAll (receiver : UInt64) (action : Action) (accounts : List UInt64) :
    Yields s (accounts.forM (checkRamDelta receiver action)) fun _ t => t = s ∧
      ∀ account ∈ accounts, account ≠ receiver → 0 < s.apply.accountRamDeltas account →
        account ∈ action.authorization.map (·.actor) ∧ receiver = action.account := by
  induction accounts with
  | nil => exact of_pure ⟨rfl, by simp⟩
  | cons first rest ih =>
    rw [forM_cons]
    apply (yields_checkRamDelta receiver action first).seq
    rintro _ t ⟨rfl, here⟩
    apply ih.imp
    rintro _ u ⟨rfl, others⟩
    exact ⟨rfl, List.forall_mem_cons.mpr ⟨here, others⟩⟩

theorem mem_orderedSet {name : UInt64} {names : List UInt64} :
    name ∈ orderedSet names ↔ name ∈ names := by
  simp [orderedSet]

theorem yields_checkRamRestrictions (active : w.activated .ramRestrictions = true)
    (listed : ∀ a, s.apply.accountRamDeltas a ≠ 0 → a ∈ s.apply.chargedAccounts) (receiver : UInt64)
    (action : Action) (privileged : Bool) :
    Yields s (checkRamRestrictions w receiver action privileged) fun _ t => t = s ∧
      (privileged = false → ∀ account, account ≠ receiver →
        0 < s.apply.accountRamDeltas account →
        account ∈ action.authorization.map (·.actor) ∧ receiver = action.account) := by
  unfold checkRamRestrictions
  split
  · apply Yields.read_bind
    apply (yields_checkAll receiver action _).imp
    rintro _ t ⟨rfl, all⟩
    refine ⟨rfl, fun _ account other more => ?_⟩
    have known : account ∈ t.apply.chargedAccounts := listed account (by omega)
    exact all account (mem_orderedSet.mpr known) other more
  · next trusted =>
    refine of_pure ⟨rfl, fun plain => ?_⟩
    simp [plain, active] at trusted

/-! Receivers and actions. -/

/-- No receiver is in the middle of its charges. -/
def Idle (s : ExecState) : Prop := s.apply.accountRamDeltas = fun _ => 0

theorem yields_finalizeTrace (ordinal : Nat) (receipt : ActionReceipt) :
    Yields s (finalizeTrace ordinal receipt) fun _ t => Idle t ∧ t.log = s.log := by
  apply Yields.read_bind
  refine ok_bind rfl ?_
  constructor
  intro _ t done
  unfold modifyActionTrace at done
  split at done
  · obtain ⟨-, rfl⟩ := Prod.mk.inj done
    exact ⟨rfl, rfl⟩
  · cases done

section

variable (active : w.activated .ramRestrictions = true)

include active

theorem yields_closeReceiver {start : ExecState}
    (idle : Idle start) (working : start.Working s) (receiver : UInt64) (ordinal : Nat)
    (action : Action) (privileged : Bool) (receipt : Except ChainError ActionReceipt) :
    Yields s (closeReceiver w receiver ordinal action privileged receipt start.apply.ramUsage)
      fun _ t => Idle t ∧ start.Lawful t := by
  obtain ⟨charged, events, grown, lawful⟩ := working
  have zero : ∀ a, start.apply.accountRamDeltas a = 0 := fun a => congrFun idle a
  have listed : ∀ a, s.apply.accountRamDeltas a ≠ 0 → a ∈ s.apply.chargedAccounts := by
    intro a owes
    apply charged.listed
    rw [zero]
    exact owes
  have fits : ∀ a, IsI64 (s.apply.accountRamDeltas a) := by
    apply charged.fits
    intro a
    rw [zero]
    exact ⟨by norm_num, by norm_num⟩
  apply (yields_checkRamRestrictions active listed receiver action privileged).seq
  rintro _ t ⟨rfl, judged⟩
  apply run_bind rfl
  intro receipt _
  refine ok_bind rfl ?_
  refine ok_bind rfl ?_
  apply (yields_finalizeTrace ordinal _).imp
  intro _ u done
  have last : Event.Restricted (.finished receiver action privileged t.apply.accountRamDeltas
      start.apply.ramUsage t.apply.ramUsage) := by
    refine ⟨fits, fun a u before => ?_, judged⟩
    rw [charged.usage a u before, zero, sub_zero]
  refine ⟨done.1, events ++ [_], ?_, List.forall_mem_append.mpr
    ⟨lawful, List.forall_mem_singleton.mpr last⟩⟩
  rw [done.2, ← List.append_assoc, ← grown]

theorem lawful_execOne (idle : Idle s)
    (receiver : UInt64) (ordinal : Nat) :
    Yields s (execOne w receiver ordinal) fun _ t => Idle t ∧ s.Lawful t := by
  apply Yields.read_bind
  apply Yields.read_bind
  apply Yields.read_bind
  -- up to the end of its code the receiver only works
  have begun : Leads Working (record (.began receiver s.action)) := working_record _ trivial
  have known (privileged : Bool) : Leads Working
      (update fun s => { s with privileged := privileged }) := working_quiet fun _ => rfl
  apply (begun s).seq
  intro _ t here
  apply run_bind rfl
  intro privileged _
  apply (known privileged t).seq
  intro _ u there
  apply (leads_forM (working_host receiver ordinal) _ u).seq
  intro _ v calls
  apply run_bind rfl
  intro _ _
  have working : s.Working v := trans_of Working here (trans_of Working there calls)
  exact yields_closeReceiver active idle working receiver ordinal s.action privileged _

theorem lawful_execNotified (idle : Idle s)
    (fuel index : Nat) : Yields s (execNotified w fuel index) fun _ t => s.Lawful t := by
  induction fuel generalizing s index with
  | zero => exact of_pure (refl_of Lawful s)
  | succ fuel ih =>
    apply Yields.read_bind
    cases s.notified[index]? with
    | none => exact of_pure (refl_of Lawful s)
    | some entry =>
      apply (lawful_execOne active idle entry.1 entry.2).seq
      intro _ t ⟨done, lawful⟩
      apply (ih done (index + 1)).imp
      intro _ u rest
      exact trans_of Lawful lawful rest

theorem lawful_execReceivers (idle : Idle s)
    (receiver : UInt64) (ordinal : Nat) :
    Yields s (execReceivers w receiver ordinal) fun _ t => s.Lawful t := by
  have queued : Idle { s with notified := s.notified ++ [(receiver, ordinal)] } := idle
  refine ok_bind rfl ?_
  apply (lawful_execOne active queued receiver ordinal).seq
  intro _ t ⟨done, lawful⟩
  apply (lawful_execNotified active done _ 1).imp
  intro _ u rest
  exact trans_of Lawful lawful rest

end

theorem lawful_quiet {call : ExecCall α} (quiet : Moves (Same ExecState.log) call) :
    Leads Lawful call :=
  Moves.leads fun s => Lawful.of_same (quiet s)

theorem lawful_exec (active : w.activated .ramRestrictions = true) (idle : Idle s)
    {nested : Nat → ExecCall Unit} (inner : ∀ ordinal, Leads Lawful (nested ordinal))
    (receiver : UInt64) (ordinal depth : Nat) :
    Yields s (exec w nested receiver ordinal depth) fun _ t => s.Lawful t := by
  apply (lawful_execReceivers active idle receiver ordinal).seq
  intro _ t own
  have rest : Leads Lawful (do
      let inlineActions ← Call.read (·.inlineActions)
      let contextFree ← Call.read (·.contextFreeInlineActions)
      checkDepth w depth (!inlineActions.isEmpty || !contextFree.isEmpty)
      contextFree.forM nested
      inlineActions.forM nested : ExecCall Unit) := by
    apply (leads_read _).bind
    intro inlineActions
    apply (leads_read _).bind
    intro contextFree
    apply (leads_checkDepth w _ _).bind
    intro _
    exact (leads_forM inner _).bind fun _ => leads_forM inner _
  apply (rest t).imp
  intro _ u later
  exact trans_of Lawful own later

theorem lawful_executeAction (active : w.activated .ramRestrictions = true)
    (fuel ordinal depth : Nat) : Leads Lawful (executeActionWith w fuel ordinal depth) := by
  induction fuel generalizing ordinal depth with
  | zero => exact leads_throw _
  | succ fuel ih =>
    apply (leads_read _).bind
    intro time
    apply (leads_lift _).bind
    intro _
    apply (leads_getActionTrace _).bind
    intro trace s
    have idle : Idle (newContext trace.act s) := rfl
    have inner := fun nested => ih nested (depth + 1)
    refine ok_bind rfl ?_
    exact lawful_exec active idle inner trace.receiver ordinal depth

theorem lawful_scheduleAll (contextFree : Bool) (actions : List Action) :
    Leads Lawful (scheduleAll contextFree actions) := by
  apply leads_forM
  intro action
  have scheduled : Leads Lawful
      (scheduleAction action action.account contextFree 0 0) := lawful_quiet fun _ => rfl
  exact scheduled.bind fun _ => leads_pure ()

theorem lawful_execTransaction (active : w.activated .ramRestrictions = true)
    (trx : Transaction Action) : Leads Lawful (execTransaction w trx) := by
  apply (lawful_scheduleAll _ _).bind
  intro _
  apply (lawful_scheduleAll _ _).bind
  intro _
  apply (leads_read _).bind
  intro count
  exact leads_forM (fun ordinal => lawful_executeAction active _ ordinal 0) _

/-- The arena keeps no copy of the state that `transact` goes back to. It undoes the session of
the transaction, and whatever its tables hold by then, they stand for the old content again. -/
theorem transact_undone {call : ExecCall Unit} {s t : ExecState} {e : ChainError} {h : History}
    (stands : s.apply.contract.Stands h) (failed : transact call s = (.error e, t))
    {inside : ContractDb} {c : Content} (session : inside.Stands (h.startUndoSession.moved c)) :
    t.apply.contract.Stands h ∧ inside.undo.Stands h := by
  have back : (h.startUndoSession.moved c).undo = h := by
    simp [History.undo, History.moved, History.startUndoSession]
  constructor
  · unfold transact at failed
    split at failed
    · cases failed
    · obtain ⟨_, rfl⟩ := Prod.mk.inj failed
      exact stands
  · have undone := session.undo
    rwa [back] at undone

/-- With `RAM_RESTRICTIONS` active, whatever the contracts of a transaction do: if it goes
through, the deltas of every receiver that ran are what it charged, and an unprivileged one
has increased only its own RAM and, in its own action, that of accounts that authorized it.
Otherwise the transaction fails and nothing it has charged or stored remains. -/
theorem transact_ramRestricted (w : World) (active : w.activated .ramRestrictions = true)
    (trx : Transaction Action) (s : ExecState) :
    match transact (execTransaction w trx) s with
    | (.ok _, t) => ∃ events, t.log = s.log ++ events ∧ ∀ e ∈ events, e.Restricted
    | (.error _, t) => t.apply = s.apply := by
  unfold transact
  rcases done : execTransaction w trx s with ⟨e | a, t⟩
  · rfl
  · exact (lawful_execTransaction active trx).ok done

/-- The contract `5` stores a row that `6` pays for; nobody else does anything. -/
def storingWorld : World where
  activated _ := true
  execution _ receiver _ := {
    metadata := .ok false
    calls := if receiver = 5 then [(lenientEnv, .database (.store .primary 2 3 6 7 [8, 9]))] else []
    ended := .ok ()
    receipt := .ok ⟨0, Vector.replicate 32 0, 0, 0, [], 0, 0⟩ }
  checktime _ := .ok ()
  maxInlineActionDepth _ := .ok 4

def authorizedBy (actor : UInt64) : Transaction Action :=
  ⟨0, 0, 0, 0, 0, 0, [], [⟨5, 1, [⟨actor, 1⟩]⟩], []⟩

/-- With the authorization of `6` the row is stored, without it the transaction fails. -/
theorem transact_ramRestricted_store :
    (∃ t, transact (execTransaction storingWorld (authorizedBy 6)) emptyRun = (.ok (), t) ∧
      t.apply.ramUsage 6 = some 1226 ∧
      ∃ events, t.log = [] ++ events ∧ ∀ e ∈ events, e.Restricted) ∧
    ∃ t, transact (execTransaction storingWorld (authorizedBy 7)) emptyRun =
        (.error (.ramNotAuthorized 6), t) ∧ t.apply = emptyRun.apply := by
  have accepted : (transact (execTransaction storingWorld (authorizedBy 6)) emptyRun).1 = .ok () ∧
      (transact (execTransaction storingWorld (authorizedBy 6)) emptyRun).2.apply.ramUsage 6 =
        some 1226 := by decide +kernel
  have refused : (transact (execTransaction storingWorld (authorizedBy 7)) emptyRun).1 =
      .error (.ramNotAuthorized 6) := by decide +kernel
  have kept := transact_ramRestricted storingWorld rfl (authorizedBy 6) emptyRun
  have undone := transact_ramRestricted storingWorld rfl (authorizedBy 7) emptyRun
  rcases first : transact (execTransaction storingWorld (authorizedBy 6)) emptyRun with ⟨v, t⟩
  rcases second : transact (execTransaction storingWorld (authorizedBy 7)) emptyRun with ⟨v', t'⟩
  rw [first] at accepted kept
  rw [second] at refused undone
  obtain ⟨rfl, usage⟩ := accepted
  cases refused
  exact ⟨⟨t, rfl, usage, kept⟩, t', rfl, undone⟩

end ExecCall

end PulseVM.Chain
