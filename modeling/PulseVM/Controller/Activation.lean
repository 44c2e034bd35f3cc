import PulseVM.Controller.Effects

/-!
When queued protocol features become active. Contracts only queue features; a block
activates them, all at once, if its header says so. A header that does not is accepted too.
-/

namespace PulseVM.Controller
open Lib Lib.Encoding Lib.Calls Lib.Calls.Call
open Yields hiding bind read_bind

variable {ρ lam sig α : Type}

namespace NodeCall

variable {m : Machine ρ lam sig}

/-- What a block does to the features: its header activates some, and then contracts queue
some. -/
def Activates (block : SignedBlock) (before after : ProtocolFeatures) : Prop :=
  ∃ activations mid, block.header.protocolFeatureActivations = .ok activations ∧
    (if activations = [] then mid = before
      else before.activateProtocolFeatures activations block.blockNum = .ok mid) ∧
    mid.Queues after

theorem yields_activateFeatures (activations : List Digest) (blockNum : UInt32)
    (node : Node ρ lam sig) : Yields node (activateFeatures activations blockNum) fun _ after =>
      if activations = [] then after.features = node.features
      else node.features.activateProtocolFeatures activations blockNum = .ok after.features := by
  unfold activateFeatures
  split
  · exact of_pure rfl
  · constructor
    intro _ after done
    unfold onFeatures onDatabase at done
    dsimp only at done
    cases activated : node.arena.now.features.activateProtocolFeatures activations blockNum with
    | error e =>
      rw [activated] at done
      cases done
    | ok features =>
      rw [activated] at done
      cases done
      exact activated

theorem executeBlock_features (only : m.OnlyQueues) (block : SignedBlock) (status : BlockStatus)
    (check : AuthorizationCheck) (mode : BlockResourceMode) (node : Node ρ lam sig) :
    Yields node (executeBlock m block status check mode) fun _ after =>
      Activates block node.features after.features := by
  apply run_bind rfl
  intro _ _
  apply Yields.bind
  apply (moves_prepareProtocolExecution (R := Same Node.features) _).yields
  intro _ node₁ same₁
  apply Yields.bind
  apply (moves_scheduleStateForParent (R := Same Node.features) _).yields
  intro parent node₂ same₂
  apply run_bind rfl
  rintro ⟨promoted, schedules⟩ _
  apply Yields.bind
  have updates : Moves (Same Node.features) (update fun node : Node ρ lam sig =>
      { node with blockSchedules := schedules }) := fun _ => rfl
  apply updates.yields
  intro _ node₃ same₃
  apply run_bind rfl
  intro activations decoded
  apply (yields_activateFeatures activations block.blockNum node₃).seq
  intro _ node₄ activated
  have kept : node₃.features = node.features := same₃.trans (same₂.trans same₁)
  rw [kept] at activated
  apply ((executes_executeBody m block promoted schedules status check mode).queues only).yields
  intro _ after queued
  exact ⟨activations, node₄.features, decoded, activated, queued⟩

/-! A block that is built. -/

theorem openBlock_activations (height timestamp : UInt32) (node : Node ρ lam sig) :
    Yields node (openBlock m height timestamp) fun opened _ =>
      opened.2.2.1 = node.features.preactivated := by
  have clears : Moves (Same Node.features)
      (onRest (m.clearExpiredInputTransactions (slotMicros timestamp)) : NodeCall ρ lam sig Unit) :=
    fun _ => rfl
  apply Yields.bind
  apply clears.yields
  intro _ node₁ same₁
  apply Yields.read_bind
  apply Yields.bind
  apply (moves_scheduleStateForParent (R := Same Node.features) _).yields
  intro parent node₂ same₂
  apply Yields.read_bind
  generalize blockSchedule node₂ parent = schedule
  have updates : Moves (Same Node.features) (update fun node : Node ρ lam sig =>
      { node with blockSchedules := { node.blockSchedules with active := schedule } }) := fun _ => rfl
  apply Yields.bind
  apply updates.yields
  intro _ node₃ same₃
  apply Yields.read_bind
  have kept : node₃.features = node.features := same₃.trans (same₂.trans same₁)
  apply bind_any
  intro _ _
  apply bind_any
  intro announced _
  apply bind_any
  intro _ _
  apply bind_any
  intro onblock _
  exact of_pure (congrArg (·.preactivated) kept)

theorem startBlock_activations (height timestamp : UInt32) (node : Node ρ lam sig) :
    Yields node (startBlock m height timestamp) fun started _ =>
      started.2.2.2.1 = node.features.preactivated := by
  have starts : Moves (Same Node.features) (startUndoSession : NodeCall ρ lam sig Unit) := fun _ => rfl
  have prepares : Moves (Same Node.features)
      (attempt (prepareProtocolExecution m height) : NodeCall ρ lam sig _) := fun _ => rfl
  apply Yields.bind
  apply starts.yields
  intro _ node₁ same₁
  apply Yields.bind
  apply prepares.yields
  rintro (e | _) node₂ same₂
  · exact bind_any fun _ _ => of_throw _
  apply (openBlock_activations height timestamp node₂).seq
  rintro ⟨schedule, announced, activations, digests⟩ _ opened
  apply bind_any
  intro _ _
  apply bind_any
  intro _ _
  apply bind_any
  intro _ _
  exact of_pure (opened.trans (congrArg (·.preactivated) (same₂.trans same₁)))

def parentState (m : Machine ρ lam sig) (node : Node ρ lam sig) : Database ρ :=
  (replayAcceptedStateTo m node.preferredId .building node).2.arena.now

theorem assembleBlock_activations (wallClock : UInt32) (receivedAt : PackedTransaction → UInt32)
    (node : Node ρ lam sig) : Yields node (assembleBlock m wallClock receivedAt) fun assembled _ =>
      assembled.2.2.2.1 = (parentState m node).features.preactivated := by
  have begins : Yields node (beginBlock m wallClock) fun begun _ =>
      begun.2.2.2.1 = (parentState m node).features.preactivated := by
    apply Yields.read_bind
    apply run_bind rfl
    intro _ _
    apply Yields.bind
    constructor
    intro _ node₁ replayed
    have state : node₁.features = (parentState m node).features := by
      unfold parentState
      rw [replayed]
      rfl
    apply Yields.bind
    apply (moves_timestampForParent (R := Same Node.features) _).yields
    intro parent node₂ same₂
    generalize nextTimestamp wallClock parent = timestamp
    have prunes : Moves (Same Node.features) (update fun node : Node ρ lam sig =>
        { node with mempool := node.mempool.pruneExpired (slotSeconds timestamp) }) := fun _ => rfl
    apply Yields.bind
    apply prunes.yields
    intro _ node₃ same₃
    apply (startBlock_activations _ timestamp node₃).imp
    intro started _ listed
    exact listed.trans (congrArg (·.preactivated) (same₃.trans (same₂.trans state)))
  apply Yields.read_bind
  apply Yields.read_bind
  apply begins.seq
  rintro ⟨timestamp, schedule, announced, activations, draft⟩ _ listed
  apply bind_any
  intro _ _
  apply bind_any
  rintro ⟨filled, aside⟩ _
  apply bind_any
  intro _ _
  exact of_pure listed

/-- The header of a block that is built activates all that waits in its parent's state, and
it is read that way. -/
theorem buildBlock_activations (wallClock : UInt32) (receivedAt : PackedTransaction → UInt32)
    (node : Node ρ lam sig) : Yields node (buildBlock m wallClock receivedAt) fun block _ =>
      let waiting := (parentState m node).features.preactivated
      (∃ header filled : BlockHeader, header.setProtocolFeatureActivations waiting = .ok filled ∧
        block.header.headerExtensions = filled.headerExtensions) ∧
      (waiting.Nodup → waiting.length < 2 ^ 32 →
        block.header.protocolFeatureActivations = .ok waiting) := by
  apply (assembleBlock_activations wallClock receivedAt node).seq
  rintro ⟨timestamp, schedule, announced, activations, draft⟩ node₁ listed
  rw [← listed]
  dsimp only
  unfold finishBlock
  split
  · exact bind_any fun _ _ => of_throw _
  · apply (sealBlock_draft m timestamp schedule announced activations draft node₁).imp
    rintro block _ ⟨_, header, filled, set, same⟩
    refine ⟨⟨header, filled, set, same⟩, fun distinct fits => ?_⟩
    have read := BlockHeader.activations_of_set distinct fits set
    rwa [BlockHeader.protocolFeatureActivations, ← same] at read

/-! One block. -/

section Activates

variable {block : SignedBlock} {before after : ProtocolFeatures} {digest : Digest}

theorem Activates.sound (activates : Activates block before after) (sound : before.Sound) :
    after.Sound := by
  obtain ⟨activations, mid, _, changed, queued⟩ := activates
  split at changed
  · exact queued.sound (changed ▸ sound)
  · exact queued.sound (ProtocolFeatures.sound_activate changed sound)

theorem Activates.active (activates : Activates block before after)
    (active : before.protocolFeatureActivated digest) : after.protocolFeatureActivated digest := by
  obtain ⟨activations, mid, _, changed, queued⟩ := activates
  have mid_active : mid.protocolFeatureActivated digest := by
    split at changed
    · exact changed ▸ active
    · exact ProtocolFeatures.activated_of_queued changed (.inr active)
  unfold ProtocolFeatures.protocolFeatureActivated at mid_active ⊢
  rw [queued.kept.1]
  exact mid_active

/-- A block activates what waits exactly if its header activates anything. -/
theorem Activates.queued_iff (activates : Activates block before after) (sound : before.Sound)
    (waits : digest ∈ before.preactivated) : after.protocolFeatureActivated digest ↔
      block.header.protocolFeatureActivations ≠ .ok [] := by
  obtain ⟨activations, mid, decoded, changed, queued⟩ := activates
  have same : after.protocolFeatureActivated digest = mid.protocolFeatureActivated digest := by
    unfold ProtocolFeatures.protocolFeatureActivated
    rw [queued.kept.1]
  rw [same, decoded]
  split at changed
  · rename_i silent
    subst changed
    simp [sound.apart digest waits, silent]
  · rename_i speaks
    simp [ProtocolFeatures.activated_of_queued changed (.inl waits), speaks]

end Activates

/-! Chains of accepted blocks. -/

/-- What verification does before it executes a block. -/
def prepareVerification (m : Machine ρ lam sig) (block : SignedBlock) (now : UInt32) :
    NodeCall ρ lam sig Unit := do
  authenticate m block now
  replayAcceptedStateTo m block.header.previous .verifying

/-- What verification looks at before it executes a block. -/
def Node.tree (node : Node ρ lam sig) :=
  (node.arena, node.verifiedBlocks, node.lastAcceptedBlockId, node.pendingChain)

theorem same_authenticate (block : SignedBlock) (now : UInt32) :
    Moves (Same Node.tree) (authenticate m block now) := by
  have asks : Moves (Same Node.tree) (onRest fun rest => (m.isAccount block.header.producer rest, rest) :
      NodeCall ρ lam sig Bool) := fun _ => rfl
  have header : Moves (Same Node.tree) (validateHeader m block.header) := by
    apply asks.bind
    intro producer
    refine (moves_lift _).bind ?_
    intro _
    refine (moves_lift _).bind ?_
    rintro (_ | schedule)
    · exact (moves_lift _).bind fun _ => moves_pure _
    · exact (moves_lift _).bind fun _ => (moves_lift _).bind fun _ => moves_pure _
  refine (moves_lift _).bind ?_
  intro _
  apply Moves.bind (header.bind fun _ => moves_lift _)
  intro _
  refine (moves_scheduleStateForParent _).bind ?_
  intro parent
  refine (moves_lift _).bind ?_
  rintro ⟨promoted, schedules⟩
  refine (moves_headerSigningStateForParent _).bind ?_
  intro state
  refine (moves_timestampForParent _).bind ?_
  intro parentTimestamp
  refine (moves_lift _).bind ?_
  intro _
  refine (moves_lift _).bind ?_
  exact fun _ _ => rfl

variable {node : Node ρ lam sig} {block : SignedBlock}

theorem pathTo_tree {other : Node ρ lam sig} (same : Same Node.tree node other) (fuel : Nat)
    (cursor : Id) (path : List SignedBlock) :
    pathTo other fuel cursor path = pathTo node fuel cursor path := by
  simp only [Same, Node.tree, Prod.mk.injEq] at same
  obtain ⟨_, verified, accepted, _⟩ := same
  induction fuel generalizing cursor path with
  | zero => rfl
  | succ fuel ih => simp only [pathTo, Node.verified, accepted, verified, ih]

/-- A block on the tip of the pending chain is executed where the node stands. -/
theorem prepareVerification_tip {path : List SignedBlock}
    (leads : pathTo node (node.verifiedBlocks.length + 1) block.header.previous [] = .ok path)
    (pending : commonPrefix m node.pendingChain path = .ok path.length)
    (whole : node.pendingChain.length ≤ path.length) (now : UInt32) :
    Same Node.arena node (prepareVerification m block now node).2 := by
  have same := same_authenticate (m := m) block now node
  apply bind_after
  · intro e _
    exact congrArg (·.1) same
  intro _ _
  generalize (authenticate m block now node).2 = mid at same
  rw [← pathTo_tree same] at leads
  simp only [Same, Node.tree, Prod.mk.injEq] at same
  obtain ⟨arena, verified, _, chain⟩ := same
  rw [← verified] at leads
  rw [← chain] at pending whole
  have stays : replayAcceptedStateTo m block.header.previous .verifying mid =
      unwindPendingTo path.length mid := by
    unfold replayAcceptedStateTo
    rw [read_bind]
    dsimp only [id]
    rw [leads, bind_ok (rfl : lift (.ok path) mid = _), pending,
      bind_ok (rfl : lift (.ok path.length) mid = _), List.drop_length]
    rfl
  rw [stays]
  have zero : mid.pendingChain.length - path.length = 0 := by omega
  simp only [Same, unwindPendingTo, update, zero, Function.iterate_zero, id, arena]

/-- A node that does not know a block yet verifies it on the state of its parent. -/
structure Verified (m : Machine ρ lam sig) (block : SignedBlock) (now : UInt32)
    (node : Node ρ lam sig) (before after : Database ρ) : Prop where
  fresh : ∀ id, m.blockId block = .ok id → (alreadyKnown m block id node).1 = .ok false
  accepted : (verifyBlock m block now node).1 = .ok ()
  onParent : (prepareVerification m block now node).2.arena.now = before
  leaves : (verifyBlock m block now node).2.arena.now = after

/-- Some node accepts a block on a state, which leaves another state. -/
def AcceptedOn (m : Machine ρ lam sig) (block : SignedBlock) (before after : Database ρ) : Prop :=
  ∃ now node, Verified m block now node before after

theorem acceptedOn_tip (now : UInt32) (node : Node ρ lam sig) (id : Id) (path : List SignedBlock)
    (named : m.blockId block = .ok id) (fresh : (alreadyKnown m block id node).1 = .ok false)
    (leads : pathTo node (node.verifiedBlocks.length + 1) block.header.previous [] = .ok path)
    (pending : commonPrefix m node.pendingChain path = .ok path.length)
    (whole : node.pendingChain.length ≤ path.length)
    (accepted : (verifyBlock m block now node).1 = .ok ()) :
    AcceptedOn m block node.arena.now (verifyBlock m block now node).2.arena.now := by
  refine ⟨now, node, ?_, accepted, ?_, rfl⟩
  · intro other same
    cases named.symm.trans same
    exact fresh
  · have tip := prepareVerification_tip leads pending whole now
    exact congrArg (·.now) tip

theorem alreadyKnown_false {id : Id} (fresh : (alreadyKnown m block id node).1 = .ok false) :
    alreadyKnown m block id node = (.ok false, node) := by
  unfold alreadyKnown at fresh ⊢
  rw [read_bind] at fresh ⊢
  split at fresh
  · cases fresh
  · rename_i unverified
    rw [if_neg unverified]
    cases logged : node.blockLog block.blockNum with
    | none => rfl
    | some existing =>
      rw [logged] at fresh
      dsimp only at fresh
      cases named : m.blockId existing with
      | error e =>
        rw [named] at fresh
        cases fresh
      | ok existingId =>
        have lifted : (lift (m.blockId existing) : NodeCall ρ lam sig Id) node =
          (.ok existingId, node) := by rw [named]; rfl
        rw [bind_ok lifted] at fresh
        split at fresh
        · cases fresh
        · cases fresh

theorem applyBlock_features (only : m.OnlyQueues) (block : SignedBlock) (node : Node ρ lam sig) :
    Yields node (applyBlock m block) fun _ after =>
      Activates block node.features after.features := by
  have starts : Moves (Same Node.features) (startUndoSession : NodeCall ρ lam sig Unit) := fun _ => rfl
  apply Yields.bind
  apply starts.yields
  intro _ open_ same
  constructor
  intro _ after done
  have features := executeBlock_features only block .verifying .required .validateReceipts open_
  rcases ran : executeBlock m block .verifying .required .validateReceipts open_ with
    ⟨e | ⟨traces, transactionMroot, actionMroot⟩, mid⟩
  · rw [bind_ok (attempt_run ran)] at done
    cases done
  · rw [bind_ok (attempt_run ran)] at done
    dsimp only at done
    have activates := features.post _ _ ran
    rw [same] at activates
    cases valid : block.validateSemantically transactionMroot actionMroot with
    | error e =>
      rw [valid] at done
      cases done
    | ok _ =>
      rw [valid] at done
      cases named : m.blockId block with
      | error e =>
        rw [named] at done
        cases done
      | ok id =>
        rw [named] at done
        cases done
        exact activates

theorem AcceptedOn.activates (only : m.OnlyQueues) {before after : Database ρ}
    (accepted : AcceptedOn m block before after) :
    Activates block before.features after.features := by
  obtain ⟨now, node, fresh, accepted, rfl, rfl⟩ := accepted
  cases named : m.blockId block with
  | error e =>
    unfold verifyBlock at accepted
    rw [named] at accepted
    cases accepted
  | ok id =>
    have lifted : (lift (m.blockId block) : NodeCall ρ lam sig Id) node = (.ok id, node) := by
      rw [named]
      rfl
    have unknown := alreadyKnown_false (fresh id named)
    have whole : verifyBlock m block now node =
        (prepareVerification m block now >>= fun _ => applyBlock m block) node := by
      unfold verifyBlock prepareVerification
      rw [bind_ok lifted, bind_ok unknown, bind_assoc]
      rfl
    rw [whole] at accepted ⊢
    rcases prepared : prepareVerification m block now node with ⟨e | _, parent⟩
    · rw [bind_error prepared] at accepted
      cases accepted
    · rw [bind_ok prepared] at accepted ⊢
      exact (applyBlock_features only block parent).post () _ (Prod.ext accepted rfl)

end NodeCall

open NodeCall

/-- Blocks that build on each other and were accepted, with the state before the first and
after each of them. -/
structure AcceptedChain (m : Machine ρ lam sig) (length : Nat) (states : Nat → Database ρ)
    (blocks : Nat → SignedBlock) : Prop where
  linked : ∀ n, n + 1 < length → m.blockId (blocks n) = .ok (blocks (n + 1)).header.previous
  accepted : ∀ n < length, AcceptedOn m (blocks n) (states n) (states (n + 1))

variable {m : Machine ρ lam sig} {length : Nat} {states : Nat → Database ρ}
  {blocks : Nat → SignedBlock}

theorem AcceptedChain.sound (chain : AcceptedChain m length states blocks) (only : m.OnlyQueues)
    (start : (states 0).features.Sound) {n : Nat} (bound : n ≤ length) :
    (states n).features.Sound := by
  induction n with
  | zero => exact start
  | succ n ih => exact ((chain.accepted n bound).activates only).sound (ih (by omega))

theorem AcceptedChain.active (chain : AcceptedChain m length states blocks) (only : m.OnlyQueues)
    {n k : Nat} (order : n ≤ k) (bound : k ≤ length) {digest : Digest}
    (active : (states n).features.protocolFeatureActivated digest) :
    (states k).features.protocolFeatureActivated digest := by
  induction k, order using Nat.le_induction with
  | base => exact active
  | succ k _ ih => exact ((chain.accepted k bound).activates only).active (ih (by omega))

/-- Every queued feature is active from the next block on exactly if no header that has to
activate something is silent. -/
theorem queued_active_iff (only : m.OnlyQueues) (start : (states 0).features.Sound)
    (chain : AcceptedChain m length states blocks) :
    (∀ n ≤ length, ∀ digest ∈ (states n).features.preactivated, ∀ k, n < k → k ≤ length →
      (states k).features.protocolFeatureActivated digest) ↔
    ∀ n < length, (states n).features.preactivated ≠ [] →
      (blocks n).header.protocolFeatureActivations ≠ .ok [] := by
  have step : ∀ n < length, ∀ digest ∈ (states n).features.preactivated,
      ((states (n + 1)).features.protocolFeatureActivated digest ↔
        (blocks n).header.protocolFeatureActivations ≠ .ok []) := by
    intro n inside digest waits
    exact ((chain.accepted n inside).activates only).queued_iff
      (chain.sound only start (by omega)) waits
  constructor
  · intro activated n inside nonempty
    obtain ⟨digest, waits⟩ := List.exists_mem_of_ne_nil _ nonempty
    exact (step n inside digest waits).mp
      (activated n (by omega) digest waits (n + 1) (by omega) (by omega))
  · intro speak n _ digest waits k later bound
    have inside : n < length := by omega
    have next := (step n inside digest waits).mpr (speak n inside (List.ne_nil_of_mem waits))
    exact chain.active only later bound next

/-! A chain of two blocks. -/

/-- Every input transaction queues the same feature. -/
def queueingMachine : Machine Unit Unit Unit where
  __ := idleMachine [1]
  input _ _ _ t db bills :=
    match db.features.preactivateProtocolFeature replaceDeferred with
    | .ok features => (.ok (idleResult t.id), { db with features := features }, bills)
    | .error e => (.error e, db, bills)

def firstId : Id := Vector.ofFn fun i => if i.val = 3 then 1 else 0

def queueingBlock : SignedBlock :=
  ⟨⟨1, 1, 0, zeroId, zeroId, zeroId, 0, none, []⟩, [],
    [⟨⟨.executed, 0, 0⟩, .packed ⟨firstId, 4294967295, some 1, []⟩⟩], []⟩

def nextBlock (extensions : List (UInt16 × Bytes)) : SignedBlock :=
  ⟨⟨2, 1, 0, firstId, zeroId, zeroId, 0, none, extensions⟩, [], [], []⟩

def genesis : Node Unit Unit Unit := genesisNode bareDatabase Mempool.new

def afterQueueing : Node Unit Unit Unit := (verifyBlock queueingMachine queueingBlock 10 genesis).2

def twoBlocks (extensions : List (UInt16 × Bytes)) : Nat → SignedBlock
  | 0 => queueingBlock
  | _ => nextBlock extensions

/-- The state before the first block and after each of the two. -/
def stateAt (extensions : List (UInt16 × Bytes)) : Nat → Database Unit
  | 0 => genesis.arena.now
  | 1 => afterQueueing.arena.now
  | _ => (verifyBlock queueingMachine (nextBlock extensions) 10 afterQueueing).2.arena.now

theorem onlyQueues_queueingMachine : queueingMachine.OnlyQueues := by
  constructor
  · intro context mode check t db bills
    change db.features.Queues (match db.features.preactivateProtocolFeature replaceDeferred with
      | .ok features => (Except.ok (idleResult t.id), { db with features := features }, bills)
      | .error e => (.error e, db, bills)).2.1.features
    cases queued : db.features.preactivateProtocolFeature replaceDeferred with
    | error e => exact refl_of ProtocolFeatures.Queues _
    | ok features => exact .single ⟨replaceDeferred, queued⟩
  · exact fun _ _ _ _ db => refl_of ProtocolFeatures.Queues db.features
  · exact fun _ _ db => refl_of ProtocolFeatures.Queues db.features
  · exact fun _ _ db => refl_of ProtocolFeatures.Queues db.features

theorem acceptedOn_queueing :
    AcceptedOn queueingMachine queueingBlock genesis.arena.now afterQueueing.arena.now :=
  acceptedOn_tip 10 genesis firstId [] (by decide +kernel) (by decide +kernel) (by decide +kernel)
    (by decide +kernel) (by decide +kernel) (by decide +kernel)

def secondId : Id := Vector.ofFn fun i => if i.val = 3 then 2 else 0

theorem acceptedChain_two {extensions : List (UInt16 × Bytes)}
    (named : queueingMachine.blockId (nextBlock extensions) = .ok secondId)
    (fresh : (alreadyKnown queueingMachine (nextBlock extensions) secondId afterQueueing).1 =
      .ok false)
    (accepted : (verifyBlock queueingMachine (nextBlock extensions) 10 afterQueueing).1 = .ok ()) :
    AcceptedChain queueingMachine 2 (stateAt extensions) (twoBlocks extensions) := by
  have first : queueingMachine.blockId queueingBlock = .ok firstId := by decide +kernel
  have leads : pathTo afterQueueing (afterQueueing.verifiedBlocks.length + 1) firstId [] =
    .ok [queueingBlock] := by decide +kernel
  have pending : commonPrefix queueingMachine afterQueueing.pendingChain [queueingBlock] = .ok 1 := by
    decide +kernel
  have whole : afterQueueing.pendingChain.length ≤ 1 := by decide +kernel
  have second := acceptedOn_tip 10 afterQueueing secondId [queueingBlock] named fresh leads pending
    whole accepted
  constructor
  · intro n bound
    obtain rfl : n = 0 := by omega
    exact first
  · intro n bound
    obtain rfl | rfl : n = 0 ∨ n = 1 := by omega
    · exact acceptedOn_queueing
    · exact second

theorem sound_start (extensions : List (UInt16 × Bytes)) :
    (stateAt extensions 0).features.Sound :=
  ⟨List.nodup_nil, fun _ waits => absurd waits List.not_mem_nil⟩

def speaking : List (UInt16 × Bytes) :=
  [(protocolFeatureActivationExtensionId, 1 :: replaceDeferred.toList)]

theorem queued_active_speaking :
    AcceptedChain queueingMachine 2 (stateAt speaking) (twoBlocks speaking) ∧
      replaceDeferred ∈ (stateAt speaking 1).features.preactivated ∧
      (stateAt speaking 2).features.protocolFeatureActivated replaceDeferred := by
  have chain : AcceptedChain queueingMachine 2 (stateAt speaking) (twoBlocks speaking) :=
    acceptedChain_two (by decide +kernel) (by decide +kernel) (by decide +kernel)
  have waits : replaceDeferred ∈ (stateAt speaking 1).features.preactivated := by decide +kernel
  have speaks : ∀ n < 2, (stateAt speaking n).features.preactivated ≠ [] →
      (twoBlocks speaking n).header.protocolFeatureActivations ≠ .ok [] := by
    intro n bound nonempty
    obtain rfl | rfl : n = 0 ∨ n = 1 := by omega
    · exact absurd rfl nonempty
    · decide +kernel
  exact ⟨chain, waits, (queued_active_iff onlyQueues_queueingMachine (sound_start speaking)
    chain).mpr speaks 1 (by omega) replaceDeferred waits 2 (by omega) (by omega)⟩

/-- A silent header is accepted too, and the feature goes on waiting. -/
theorem silent_header_accepted :
    queueingMachine.OnlyQueues ∧ (stateAt [] 0).features.Sound ∧
      AcceptedChain queueingMachine 2 (stateAt []) (twoBlocks []) ∧
      replaceDeferred ∈ (stateAt [] 1).features.preactivated ∧
      (stateAt [] 2).features.protocolFeatureActivated replaceDeferred = false :=
  ⟨onlyQueues_queueingMachine, sound_start [], acceptedChain_two (by decide +kernel)
    (by decide +kernel) (by decide +kernel), by decide +kernel, by decide +kernel⟩

end PulseVM.Controller
