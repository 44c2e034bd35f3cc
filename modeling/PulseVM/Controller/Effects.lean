import PulseVM.Controller.Build

/-!
What executing a block can do to a node. Unless the block is accepted it leaves alone what is
outside the database, and contracts reach the protocol features only to queue some.
-/

namespace PulseVM.Controller
open Lib Lib.Encoding Lib.Calls Lib.Calls.Call
open Yields hiding bind read_bind

variable {ρ lam sig α : Type}

/-- What executing blocks and transactions leaves alone, unless a block is accepted. -/
def Node.outside (node : Node ρ lam sig) :=
  (node.mempool, node.dropped, node.lastAcceptedBlock, node.lastAcceptedBlockId,
    node.verifiedBlocks, node.preferredId, node.blockLog)

def Node.features (node : Node ρ lam sig) : ProtocolFeatures := node.arena.now.features

/-- Contracts reach the features only to queue some. -/
structure Machine.OnlyQueues (m : Machine ρ lam sig) : Prop where
  input : ∀ context mode check t (db : Database ρ) bills,
    db.features.Queues (m.input context mode check t db bills).2.1.features
  deferred : ∀ context mode published t (db : Database ρ),
    db.features.Queues (m.deferred context mode published t db).2.features
  onerror : ∀ context scheduled (db : Database ρ),
    db.features.Queues (m.onerror context scheduled db).2.features
  onblock : ∀ context header (db : Database ρ),
    db.features.Queues (m.onblock context header db).2.features

/-- Features may have been queued in between. -/
def Node.Queues (before after : Node ρ lam sig) : Prop := before.features.Queues after.features

instance : IsPreorder (Node ρ lam sig) Node.Queues where
  refl node := refl_of ProtocolFeatures.Queues node.features
  trans _ _ _ first second := trans_of ProtocolFeatures.Queues first second

variable {m : Machine ρ lam sig} {status : BlockStatus}

/-- What the receipts of a block of the given status can do. -/
structure Node.Executes (m : Machine ρ lam sig) (status : BlockStatus)
    (before after : Node ρ lam sig) : Prop where
  outside : status ≠ .accepting → Same Node.outside before after
  queues : m.OnlyQueues → before.Queues after

instance : IsPreorder (Node ρ lam sig) (Node.Executes m status) where
  refl node := ⟨fun _ => rfl, fun _ => refl_of Node.Queues node⟩
  trans _ _ _ first second :=
    ⟨fun left => (second.outside left).trans (first.outside left),
      fun only => trans_of Node.Queues (first.queues only) (second.queues only)⟩

theorem Node.Executes.of_same {before after : Node ρ lam sig}
    (outside : status ≠ .accepting → after.outside = before.outside)
    (features : after.features = before.features) : Node.Executes m status before after where
  outside := outside
  queues _ := by
    unfold Node.Queues
    rw [features]
    exact refl_of ProtocolFeatures.Queues _

namespace NodeCall

/-! What only looks at a node leads nowhere else. -/

section Still

variable {R : Node ρ lam sig → Node ρ lam sig → Prop} [IsPreorder (Node ρ lam sig) R]

theorem moves_lift (verdict : Except ChainError α) :
    Moves R (lift verdict : NodeCall ρ lam sig α) := fun node => refl_of R node

theorem moves_prepareProtocolExecution (height : UInt32) :
    Moves R (prepareProtocolExecution m height) := (moves_read _).bind fun _ => moves_lift _

theorem moves_scheduleStateForParent (parent : Id) : Moves R (scheduleStateForParent m parent) := by
  intro node
  unfold scheduleStateForParent
  split <;> exact refl_of R node

theorem moves_headerSigningStateForParent (parent : Id) :
    Moves R (headerSigningStateForParent m parent) := by
  intro node
  unfold headerSigningStateForParent
  split <;> exact refl_of R node

theorem moves_timestampForParent (parent : Id) :
    Moves R (timestampForParent parent : NodeCall ρ lam sig UInt32) := by
  intro node
  unfold timestampForParent
  split
  · exact refl_of R node
  · split <;> exact refl_of R node

end Still

variable {call : NodeCall ρ lam sig α}

theorem moves_attempt {R : Node ρ lam sig → Node ρ lam sig → Prop} (moves : Moves R call) :
    Moves R (attempt call) := moves

/-- A call that runs on the database only. -/
abbrev Inside (call : NodeCall ρ lam sig α) : Prop := Moves (Same Node.outside) call

/-- A call that can queue features. -/
abbrev Queues (call : NodeCall ρ lam sig α) : Prop := Moves Node.Queues call

/-- A call that does no more than the receipts of a block can. -/
abbrev Executes (m : Machine ρ lam sig) (status : BlockStatus) (call : NodeCall ρ lam sig α) : Prop :=
  Moves (Node.Executes m status) call

theorem Executes.inside (executes : Executes m status call) (left : status ≠ .accepting) : Inside call :=
  Moves.mono executes fun _ _ step => step.outside left

theorem Executes.queues (executes : Executes m status call) (only : m.OnlyQueues) : Queues call :=
  Moves.mono executes fun _ _ step => step.queues only

theorem executes_onDatabase {call : Database ρ → Except ChainError α × Database ρ}
    (queues : m.OnlyQueues → ∀ db : Database ρ, db.features.Queues (call db).2.features) :
    Executes m status (onDatabase call : NodeCall ρ lam sig α) :=
  fun node => ⟨fun _ => rfl, fun only => queues only node.arena.now⟩

theorem executes_onRest (call : ρ → Except ChainError α × ρ) :
    Executes m status (onRest call : NodeCall ρ lam sig α) :=
  fun _ => .of_same (fun _ => rfl) rfl

theorem executes_retireDeferredTransaction (scheduled : DeferredTransaction) :
    Executes m status (retireDeferredTransaction scheduled : NodeCall ρ lam sig Unit) := by
  intro node
  refine Node.Executes.of_same (fun _ => rfl) ?_
  unfold retireDeferredTransaction onDatabase Database.retireDeferredTransaction Node.features
  dsimp only
  split
  · rfl
  · split <;> rfl

variable (m)

theorem executes_executeTransactionWithProtocol (transaction : PackedTransaction)
    (height timestamp : UInt32) (status : BlockStatus) (mode : TransactionResourceMode)
    (check : AuthorizationCheck) :
    Executes m status
      (executeTransactionWithProtocol m transaction height timestamp status mode check) := by
  refine (moves_read _).bind ?_
  intro context
  apply Moves.bind
  · exact fun node => ⟨fun _ => rfl, fun only =>
      only.input context mode check transaction node.arena.now node.subjectiveBilling⟩
  · exact fun result => (moves_lift _).bind fun _ => moves_pure _

theorem executes_executeDeferredFromBlock (transaction : PackedTransaction)
    (height timestamp : UInt32) (status : BlockStatus) (mode : TransactionResourceMode) :
    Executes m status (executeDeferredFromBlock m transaction height timestamp status mode) := by
  refine (moves_read _).bind ?_
  intro context
  refine (moves_lift _).bind ?_
  intro _
  apply (executes_onDatabase fun only => only.deferred context mode _ transaction).bind
  exact fun result => (moves_lift _).bind fun _ => moves_pure _

theorem executes_executeDeferredOnerror (scheduled : DeferredTransaction) (timestamp : UInt32)
    (status : BlockStatus) :
    Executes m status (executeDeferredOnerror m scheduled timestamp status) := by
  refine (moves_read _).bind ?_
  intro height
  refine (moves_lift _).bind ?_
  intro _
  refine (moves_read _).bind ?_
  intro context
  refine (moves_lift _).bind ?_
  intro _
  exact (executes_onDatabase fun only => only.onerror context scheduled).bind fun _ => moves_pure _

theorem executes_consumeProposal (block : SignedBlock) :
    Executes m status (consumeProposal m block) := by
  refine (moves_lift _).bind ?_
  rintro (_ | schedule)
  · exact moves_pure _
  refine (moves_read _).bind ?_
  rintro (_ | ⟨proposalBlock, packed⟩)
  · exact moves_throw _
  refine (moves_lift _).bind ?_
  intro _
  refine (moves_lift _).bind ?_
  intro proposed
  exact (moves_lift _).bind fun _ _ => .of_same (fun _ => rfl) rfl

theorem executes_executeScheduled (receipt : TransactionReceipt) (scheduled : DeferredTransaction)
    (height timestamp : UInt32) (status : BlockStatus) (mode : TransactionResourceMode) :
    Executes m status (executeScheduled m receipt scheduled height timestamp status mode) := by
  refine (moves_read _).bind ?_
  intro features
  refine (moves_lift _).bind ?_
  intro _
  refine (moves_lift _).bind ?_
  intro _
  apply (executes_retireDeferredTransaction scheduled).bind
  intro _
  cases receipt.header.status with
  | expired => exact (moves_lift _).bind fun _ => moves_read _
  | executed =>
    refine (moves_lift _).bind ?_
    intro _
    refine (moves_lift _).bind ?_
    intro transaction
    exact (moves_lift _).bind fun _ => executes_executeDeferredFromBlock m transaction _ _ _ _
  | softFail =>
    exact (moves_lift _).bind fun _ => executes_executeDeferredOnerror m scheduled timestamp status
  | hardFail =>
    refine (moves_lift _).bind ?_
    intro _
    refine (moves_lift _).bind ?_
    intro transaction
    cases transaction.firstAuthorizer with
    | none => exact moves_throw _
    | some account => exact (executes_onRest _).bind fun _ => moves_read _
  | delayed => exact moves_throw _

theorem executes_executeTransactionOf (height timestamp : UInt32) (status : BlockStatus)
    (check : AuthorizationCheck) (mode : TransactionResourceMode) (receipt : TransactionReceipt) :
    Executes m status (executeTransactionOf m height timestamp status check mode receipt) := by
  refine (moves_read _).bind ?_
  rintro (_ | scheduled)
  · cases receipt.packedTrx with
    | none => exact moves_throw _
    | some transaction => exact executes_executeTransactionWithProtocol m transaction _ _ _ _ _
  · exact executes_executeScheduled m receipt scheduled _ _ _ _

theorem executes_executeReceipt (height timestamp : UInt32) (status : BlockStatus)
    (check : AuthorizationCheck) (mode : BlockResourceMode) (draft : Draft)
    (receipt : TransactionReceipt) :
    Executes m status (executeReceipt m height timestamp status check mode draft receipt) := by
  apply (executes_executeTransactionOf m _ _ status check _ receipt).bind
  intro result
  refine (moves_lift _).bind ?_
  intro _
  have removed : Executes m status (removeIncluded status receipt) := by
    intro node
    unfold removeIncluded update
    apply Node.Executes.of_same
    · intro left
      cases status <;> simp at left ⊢
    · split <;> rfl
  exact removed.bind fun _ => moves_pure _

theorem executes_parentHeader (previous : Id) :
    Executes m status (parentHeader previous : NodeCall ρ lam sig BlockHeader) := by
  refine (moves_read _).bind ?_
  intro node
  refine moves_ite (moves_pure _) ?_
  apply Moves.bind
  · refine (moves_read _).bind ?_
    rintro (_ | block)
    · exact moves_read _
    · exact moves_pure _
  · rintro (_ | block)
    · exact moves_throw _
    · exact moves_pure _

/-- If the action at the head of a block fails, its session takes back what it did. -/
theorem executes_runOnblock (height timestamp : UInt32) (previous : Id) (status : BlockStatus)
    (historicalReplay : Bool) :
    Executes m status (runOnblock m height timestamp previous status historicalReplay) := by
  apply (executes_parentHeader m previous).bind
  intro header
  refine (moves_lift _).bind ?_
  intro bytes node
  have started : startUndoSession node = (.ok (),
    { node with arena := node.arena.startUndoSession }) := rfl
  rw [bind_ok started, blockContext, read_bind]
  apply bind_after
  · exact fun e _ => .of_same (fun _ => rfl) rfl
  intro _ _
  apply bind_after
  · intro e failed
    cases failed
  rintro (e | result) _
  · exact .of_same (fun _ => rfl) rfl
  · exact ⟨fun _ => rfl, fun only => only.onblock _ bytes node.arena.now⟩

theorem executes_executeBody (block : SignedBlock) (promoted : Bool)
    (schedules : ProducerScheduleState) (status : BlockStatus) (check : AuthorizationCheck)
    (mode : BlockResourceMode) :
    Executes m status (executeBody m block promoted schedules status check mode) := by
  apply (executes_consumeProposal m block).bind
  intro _
  apply (executes_onRest _).bind
  intro _
  apply (executes_runOnblock m _ _ _ _ _).bind
  rintro ⟨digests, proposed⟩
  apply (moves_ite (executes_onRest _) (moves_pure _) :
    Executes m status (promoteAuthority m promoted schedules.active.producers)).bind
  intro _
  apply Moves.bind (moves_foldlM (executes_executeReceipt m _ _ status check mode) _ _)
  exact fun _ => (moves_lift _).bind fun _ => (executes_onRest _).bind fun _ => moves_pure _

/-- A sealed block has the receipts of the draft, and its header activates what it was told to. -/
theorem sealBlock_draft (timestamp : UInt32) (schedule : ProducerSchedule)
    (announced : Option ProducerSchedule) (activations : List Digest) (draft : Draft)
    (node : Node ρ lam sig) : Yields node (sealBlock m timestamp schedule announced activations draft)
      fun block _ => block.transactions = draft.receipts ∧
        ∃ header filled : BlockHeader, header.setProtocolFeatureActivations activations = .ok filled ∧
          block.header.headerExtensions = filled.headerExtensions := by
  apply bind_any
  intro previous _
  apply bind_any
  intro mroot _
  apply run_bind rfl
  intro filled set
  split
  · exact bind_any fun _ _ => of_throw _
  apply bind_any
  intro digest _
  apply bind_any
  intro signature _
  apply bind_any
  intro id _
  apply bind_any
  intro _ _
  apply bind_any
  exact fun _ _ => of_pure ⟨rfl, _, filled, set, rfl⟩

end NodeCall

end PulseVM.Controller
