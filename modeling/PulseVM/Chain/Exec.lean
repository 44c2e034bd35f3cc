import PulseVM.Chain.TransactionContext

/-!
The execution of an action: its receiver, then the accounts that are notified of it, then
the inline actions they have sent. What a contract does is not known; a world says for
every state which host calls the code of a receiver makes and how it ends. The log of
events is not in the source: it says in which order things happened.
-/

namespace PulseVM.Chain
open Lib.Calls

structure ActionReceipt where
  receiver : UInt64
  actDigest : Vector UInt8 32
  globalSequence : UInt64
  recvSequence : UInt64
  authSequence : List (UInt64 × UInt64)
  codeSequence : UInt32
  abiSequence : UInt32

structure ActionTrace where
  act : Action
  receiver : UInt64
  contextFree : Bool
  actionOrdinal : Nat
  creatorActionOrdinal : Nat
  closestUnnotifiedAncestorActionOrdinal : Nat
  receipt : Option ActionReceipt
  accountRamDeltas : UInt64 → Int

/-- What happens while actions run. A receiver that is done leaves its deltas and the usage
that was recorded before and after it. -/
inductive Event where
  | began (receiver : UInt64) (action : Action)
  | notified (recipient : UInt64)
  | scheduled (contextFree : Bool) (action : Action)
  | finished (receiver : UInt64) (action : Action) (privileged : Bool) (deltas : UInt64 → Int)
      (before after : UInt64 → Option UInt64)

/-- The database and the transaction with its traces, and the context of the action that
runs. Ordinals count the traces from one on. -/
structure ExecState where
  apply : ApplyState
  traces : List ActionTrace
  executedActionReceipts : List ActionReceipt
  action : Action
  privileged : Bool
  notified : List (UInt64 × Nat)
  inlineActions : List Nat
  contextFreeInlineActions : List Nat
  log : List Event

/-- What native handlers and contracts ask of the context. The verdict on an inline action is
that of its authorization. -/
inductive HostCall where
  | database (op : ApplyOp)
  | addRamUsage (account : UInt64) (delta : Int)
  | initializeAccountResourceLimits (account : UInt64)
  | requireRecipient (recipient : UInt64)
  | executeInline (action : Action) (validated : Except ChainError Unit)
  | executeContextFreeInline (action : Action)

/-- One execution of a receiver: whether its account is privileged, the calls it makes, each
with the chain around it, how it ends, and the receipt. -/
structure Execution where
  metadata : Except ChainError Bool
  calls : List (ApplyEnv Action × HostCall)
  ended : Except ChainError Unit
  receipt : Except ChainError ActionReceipt

/-- Everything outside the contexts. -/
structure World where
  activated : ProtocolFeature → Bool
  execution : ExecState → UInt64 → Nat → Execution
  checktime : ExecState → Except ChainError Unit
  maxInlineActionDepth : ExecState → Except ChainError UInt16

abbrev ExecCall := Call ChainError ExecState

namespace ExecCall

variable {α : Type}

def lift (verdict : Except ChainError α) : ExecCall α := fun s => (verdict, s)

def update (f : ExecState → ExecState) : ExecCall Unit := fun s => (.ok (), f s)

def pulseAssert (condition : Bool) (error : ChainError) : ExecCall Unit :=
  if condition then pure () else Call.throw error

def onApply (call : ApplyCall α) : ExecCall α := fun s =>
  ((call s.apply).1, { s with apply := (call s.apply).2 })

def record (event : Event) : ExecCall Unit := update fun s => { s with log := s.log ++ [event] }

/-! Traces. -/

def getActionTrace (ordinal : Nat) : ExecCall ActionTrace := fun s =>
  match s.traces[ordinal - 1]? with
  | some trace => (.ok trace, s)
  | none => (.error (.transactionError s!"failed to get action trace by ordinal {ordinal}"), s)

def modifyActionTrace (ordinal : Nat) (f : ActionTrace → ActionTrace) : ExecCall Unit := fun s =>
  if ordinal - 1 < s.traces.length then
    (.ok (), { s with traces := s.traces.modify (ordinal - 1) f })
  else
    (.error (.transactionError s!"failed to update action trace by ordinal {ordinal}"), s)

/-- A new trace at the end; its ordinal is returned. -/
def scheduleAction (act : Action) (receiver : UInt64) (contextFree : Bool)
    (creator closest : Nat) : ExecCall Nat := fun s =>
  (.ok (s.traces.length + 1), { s with
    traces := s.traces ++ [{
      act := act
      receiver := receiver
      contextFree := contextFree
      actionOrdinal := s.traces.length + 1
      creatorActionOrdinal := creator
      closestUnnotifiedAncestorActionOrdinal := closest
      receipt := none
      accountRamDeltas := fun _ => 0 }] })

def scheduleActionFromOrdinal (ordinal : Nat) (receiver : UInt64) (contextFree : Bool)
    (creator closest : Nat) : ExecCall Nat := do
  let provided ← getActionTrace ordinal
  scheduleAction provided.act receiver contextFree creator closest

def reloadAction (ordinal : Nat) : ExecCall Unit := do
  let trace ← getActionTrace ordinal
  update fun s => { s with action := trace.act }

/-! Host calls. The ordinal is that of the receiver that runs. -/

/-- An account is queued once. -/
def queueRecipient (ordinal : Nat) (recipient : UInt64) : ExecCall Unit := do
  let known ← Call.read fun s => s.notified.any (·.1 == recipient)
  if known then pure ()
  else do
    let scheduled ← scheduleActionFromOrdinal ordinal recipient false ordinal 0
    reloadAction ordinal
    update fun s => { s with notified := s.notified ++ [(recipient, scheduled)] }

def requireRecipient (ordinal : Nat) (recipient : UInt64) : ExecCall Unit := do
  record (.notified recipient)
  queueRecipient ordinal recipient

def executeInline (ordinal : Nat) (action : Action) (validated : Except ChainError Unit) :
    ExecCall Unit := do
  lift validated
  let scheduled ← scheduleAction action action.account false ordinal 0
  reloadAction ordinal
  record (.scheduled false action)
  update fun s => { s with inlineActions := s.inlineActions ++ [scheduled] }

def executeContextFreeInline (env : ApplyEnv Action) (ordinal : Nat) (action : Action) :
    ExecCall Unit := do
  pulseAssert (env.isAccount action.account) (.inlineCodeDoesNotExist action.account)
  pulseAssert action.authorization.isEmpty
    (.transactionError "context-free actions cannot have authorizations")
  let scheduled ← scheduleAction action action.account true ordinal 0
  reloadAction ordinal
  record (.scheduled true action)
  update fun s => { s with contextFreeInlineActions := s.contextFreeInlineActions ++ [scheduled] }

/-- Usage starts at zero with the account. -/
def initializeUsage (account : UInt64) : ApplyCall Unit := fun s =>
  (.ok (), { s with
    ramUsage := Function.update s.ramUsage account (some ((s.ramUsage account).getD 0)) })

variable (w : World)

/-- What a call of the receiver sees. -/
def envOf (s : ExecState) (receiver : UInt64) (env : ApplyEnv Action) : ApplyEnv Action :=
  { env with
    receiver := receiver
    privileged := s.privileged
    actionAccount := s.action.account
    authorizers := s.action.authorization.map (·.actor)
    activated := w.activated }

def host (receiver : UInt64) (ordinal : Nat) (call : ApplyEnv Action × HostCall) :
    ExecCall Unit := do
  let env ← Call.read fun s => envOf w s receiver call.1
  match call.2 with
  | .database op => onApply (ApplyCall.perform env op)
  | .addRamUsage account delta => onApply (ApplyCall.addRamUsage account delta)
  | .initializeAccountResourceLimits account => onApply (initializeUsage account)
  | .requireRecipient recipient => requireRecipient ordinal recipient
  | .executeInline action validated => executeInline ordinal action validated
  | .executeContextFreeInline action => executeContextFreeInline env ordinal action

/-! One receiver. -/

/-- `RAM_RESTRICTIONS` for one account. -/
def checkRamDelta (receiver : UInt64) (action : Action) (account : UInt64) : ExecCall Unit := do
  let delta ← Call.read fun s => s.apply.accountRamDeltas account
  if 0 < delta ∧ account ≠ receiver then do
    pulseAssert (receiver = action.account)
      (.ramInNotification receiver account action.account action.name)
    pulseAssert (account ∈ action.authorization.map (·.actor)) (.ramNotAuthorized account)
  else pure ()

/-- An unprivileged contract must not increase the RAM of another account without its
authorization, and in a notification not at all. -/
def checkRamRestrictions (receiver : UInt64) (action : Action) (privileged : Bool) :
    ExecCall Unit :=
  if !privileged && w.activated .ramRestrictions then do
    let charged ← Call.read fun s => orderedSet s.apply.chargedAccounts
    charged.forM (checkRamDelta receiver action)
  else pure ()

def finalizeTrace (ordinal : Nat) (receipt : ActionReceipt) : ExecCall Unit := do
  let deltas ← Call.read fun s => s.apply.accountRamDeltas
  update fun s => { s with
    apply := { s.apply with accountRamDeltas := fun _ => 0, chargedAccounts := [] } }
  modifyActionTrace ordinal fun trace =>
    { trace with receipt := some receipt, accountRamDeltas := deltas }

/-- What is left to do when the code of the receiver has returned. -/
def closeReceiver (receiver : UInt64) (ordinal : Nat) (action : Action) (privileged : Bool)
    (receipt : Except ChainError ActionReceipt) (before : UInt64 → Option UInt64) :
    ExecCall Unit := do
  checkRamRestrictions w receiver action privileged
  let receipt ← lift receipt
  update fun s => { s with
    executedActionReceipts := s.executedActionReceipts ++ [{ receipt with receiver := receiver }] }
  update fun s => { s with
    log := s.log ++ [.finished receiver action privileged s.apply.accountRamDeltas before
      s.apply.ramUsage] }
  finalizeTrace ordinal { receipt with receiver := receiver }

def execOne (receiver : UInt64) (ordinal : Nat) : ExecCall Unit := do
  let action ← Call.read (·.action)
  let before ← Call.read (·.apply.ramUsage)
  let run ← Call.read fun s => w.execution s receiver ordinal
  record (.began receiver action)
  let privileged ← lift run.metadata
  update fun s => { s with privileged := privileged }
  run.calls.forM (host w receiver ordinal)
  lift run.ended
  closeReceiver w receiver ordinal action privileged run.receipt before

/-! One action. -/

/-- The accounts that are notified, one after the other while the queue grows. Each name is
queued once, so the queue is never longer than there are names. -/
def execNotified : Nat → Nat → ExecCall Unit
  | 0, _ => pure ()
  | fuel + 1, index => do
    match ← Call.read (·.notified[index]?) with
    | none => pure ()
    | some (receiver, ordinal) => do
      execOne w receiver ordinal
      execNotified fuel (index + 1)

def execReceivers (receiver : UInt64) (ordinal : Nat) : ExecCall Unit := do
  update fun s => { s with notified := s.notified ++ [(receiver, ordinal)] }
  execOne w receiver ordinal
  execNotified w (2 ^ 64) 1

def checkDepth (depth : Nat) (nested : Bool) : ExecCall Unit :=
  if nested then do
    let most ← Call.read w.maxInlineActionDepth
    let most ← lift most
    pulseAssert (depth < most.toNat)
      (.transactionError "max inline action depth per transaction reached")
  else pure ()

/-- The receivers, then the context free inline actions, then the others. -/
def exec (nested : Nat → ExecCall Unit) (receiver : UInt64) (ordinal depth : Nat) :
    ExecCall Unit := do
  execReceivers w receiver ordinal
  let inlineActions ← Call.read (·.inlineActions)
  let contextFree ← Call.read (·.contextFreeInlineActions)
  checkDepth w depth (!inlineActions.isEmpty || !contextFree.isEmpty)
  contextFree.forM nested
  inlineActions.forM nested

def newContext (action : Action) (s : ExecState) : ExecState :=
  { s with
    apply := { s.apply with
      caches := fun _ => .empty
      accountRamDeltas := fun _ => 0
      chargedAccounts := [] }
    action := action
    privileged := false
    notified := []
    inlineActions := []
    contextFreeInlineActions := [] }

/-- Execute the action of a trace in a context of its own. The depth stays below the limit, a
16-bit number, so there is fuel for every depth. -/
def executeActionWith : Nat → Nat → Nat → ExecCall Unit
  | 0, _, _ =>
    Call.throw (.transactionError "max inline action depth per transaction reached")
  | fuel + 1, ordinal, depth => do
    let time ← Call.read w.checktime
    lift time
    let trace ← getActionTrace ordinal
    update (newContext trace.act)
    exec w (fun ordinal => executeActionWith fuel ordinal (depth + 1)) trace.receiver ordinal depth

def executeAction (ordinal depth : Nat) : ExecCall Unit :=
  executeActionWith w (2 ^ 16) ordinal depth

/-! What only looks at the state. -/

section Still
open Lib.Calls.Call

variable {R : ExecState → ExecState → Prop} [IsPreorder ExecState R]

theorem leads_lift (verdict : Except ChainError α) : Leads R (lift verdict) :=
  Moves.leads fun s => refl_of R s

theorem leads_pulseAssert (condition : Bool) (error : ChainError) :
    Leads R (pulseAssert condition error) := leads_ite (leads_pure ()) (leads_throw error)

theorem leads_getActionTrace (ordinal : Nat) : Leads R (getActionTrace ordinal) := by
  apply Moves.leads
  intro s
  unfold getActionTrace
  split <;> exact refl_of R s

theorem leads_checkDepth (depth : Nat) (nested : Bool) : Leads R (checkDepth w depth nested) := by
  apply leads_ite _ (leads_pure ())
  apply (leads_read _).bind
  intro most
  exact (leads_lift _).bind fun _ => leads_pulseAssert _ _

theorem leads_checkRamRestrictions (receiver : UInt64) (action : Action) (privileged : Bool) :
    Leads R (checkRamRestrictions w receiver action privileged) := by
  apply leads_ite _ (leads_pure ())
  apply (leads_read _).bind
  intro charged
  apply leads_forM
  intro account
  apply (leads_read _).bind
  intro delta
  exact leads_ite ((leads_pulseAssert _ _).bind fun _ => leads_pulseAssert _ _) (leads_pure ())

end Still

/-! A transaction. -/

def scheduleAll (contextFree : Bool) (actions : List Action) : ExecCall Unit :=
  actions.forM fun action => do
    let _ ← scheduleAction action action.account contextFree 0 0
    pure ()

def execTransaction (trx : Transaction Action) : ExecCall Unit := do
  scheduleAll true trx.contextFreeActions
  scheduleAll false trx.actions
  let count ← Call.read (·.traces.length)
  (List.range' 1 count).forM fun ordinal => executeAction w ordinal 0

/-- The session of a transaction that fails is undone. -/
def transact (call : ExecCall Unit) (s : ExecState) : Except ChainError Unit × ExecState :=
  match call s with
  | (.ok (), t) => (.ok (), t)
  | (.error e, t) => (.error e, { t with apply := s.apply })

/-- A chain on which every check outside the contexts passes. -/
def lenientEnv : ApplyEnv Action where
  receiver := 0
  privileged := false
  actionAccount := 0
  authorizers := []
  activated _ := true
  trxId := Vector.replicate 32 0
  pendingBlockMicros := 0
  deferredTrxExpirationWindow := 600
  basePerTransactionNetUsage := 12
  checkNetUsage _ := .ok ()
  isAccount _ := true
  read bytes := .ok (⟨0, 0, 0, 0, 0, 0, [], [], []⟩, bytes)
  pack _ := []
  trxIdOf _ := Vector.replicate 32 0
  validateReferencedAccounts _ := .ok ()
  checkAuthorization _ _ := .ok ()
  transactionExists _ := false

def emptyRun : ExecState where
  apply := .enter .new .new (fun _ => some 1000) 0
  traces := []
  executedActionReceipts := []
  action := ⟨0, 0, []⟩
  privileged := false
  notified := []
  inlineActions := []
  contextFreeInlineActions := []
  log := []

end ExecCall

end PulseVM.Chain
