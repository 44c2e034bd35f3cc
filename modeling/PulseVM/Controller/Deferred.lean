import PulseVM.Controller.Build

/-!
The generated transactions of a block that is built. The list of those that are due is read
once; by the time one of them has its turn, the ones before it may have cancelled or replaced
it. A turn is exact if it settles what is still scheduled and passes over what is not.
-/

namespace PulseVM.Controller
open Lib Lib.Encoding Lib.Calls Lib.Calls.Call
open Yields hiding bind read_bind

variable {ρ lam sig : Type}

/-- The database without a generated transaction, whose RAM is given back to its payer. -/
def Database.without (db : Database ρ) (e : DeferredTransaction) (size : Int) : Database ρ :=
  { db.addPendingRamUsage e.payer (-size) with deferred := db.deferred.erase e.trxId }

namespace Node

/-- A listed transaction is still in the table as it was listed. -/
def Schedules (node : Node ρ lam sig) (e : DeferredTransaction) : Prop :=
  node.arena.now.deferred.find e.trxId = some e

/-- Retired in an outer session, and ready to run in an inner one. -/
def retiring (node : Node ρ lam sig) (e : DeferredTransaction) (size : Int) : Node ρ lam sig :=
  let base := node.arena.now.without e size
  { node with arena := ⟨base, base :: node.arena.now :: node.arena.saved⟩ }

end Node

namespace NodeCall

variable (m : Machine ρ lam sig)

/-- What can be left of a database once a transaction was retired from it. -/
inductive Settled (timestamp : UInt32) (e : DeferredTransaction) (base : Database ρ) :
    Database ρ → Prop
  | expired : Settled timestamp e base base
  | executed {context : BlockContext} {t : PackedTransaction} {result : TransactionResult}
    {db : Database ρ} (ran : m.deferred context .measure e.published t base = (.ok result, db)) :
    Settled timestamp e base db
  | softFailed {context : BlockContext} {result : TransactionResult} {db : Database ρ}
    (ran : m.onerror context e base = (.ok result, db)) : Settled timestamp e base db
  | hardFailed (account : UInt64) (cpuUs : UInt32) : Settled timestamp e base
    { base with rest := (m.addTransactionUsage account cpuUs timestamp true base.rest).2 }

variable (timestamp : UInt32) (stage1 : Bool) (draft : Draft)

/-- The turn succeeds; the transaction is retired once, with one refund and one receipt, and
no session stays open. -/
def SettlesOnce (e : DeferredTransaction) (node : Node ρ lam sig) : Prop :=
  ∃ draft' after size receipt,
    buildScheduled m timestamp stage1 draft e node = (.ok draft', after) ∧
    Chain.generatedTransactionBillableSize e.packedTrx.length = .ok size ∧
    Settled m timestamp e (node.arena.now.without e size) after.arena.now ∧
    after.arena.saved = node.arena.saved ∧
    receipt.trx = .id e.trxId ∧ draft'.receipts = draft.receipts ++ [receipt]

/-- What a turn should do. -/
def ExactTurn (e : DeferredTransaction) (node : Node ρ lam sig) : Prop :=
  (node.Schedules e → SettlesOnce m timestamp stage1 draft e node) ∧
    (¬ node.Schedules e → buildScheduled m timestamp stage1 draft e node = (.ok draft, node))

/-- A transaction and its callback both fail. -/
def BothFail (t : PackedTransaction) (e : DeferredTransaction) (node : Node ρ lam sig)
    (cpuUs : UInt32) : Prop :=
  (∃ error, (executeDeferredTransactionWithFailure m t timestamp .building e.published node).1 =
    .ok (.error (error, cpuUs))) ∧
  ∃ error, (executeDeferredOnerror m e timestamp .building node).1 = .error error

/-- What a turn relies on: the transaction is still scheduled and can be refunded; unless it
has expired it can be read, and if everything fails its authorizer can be billed. -/
def Ready (e : DeferredTransaction) (node : Node ρ lam sig) : Prop :=
  node.Schedules e ∧ ∃ size, Chain.generatedTransactionBillableSize e.packedTrx.length = .ok size ∧
    ((stage1 ∨ e.expiration < slotMicros timestamp) ∨
      ∃ t, m.fromDeferredTransactionBytes e.packedTrx = .ok t ∧ t.id = e.trxId ∧
        ∀ cpuUs, BothFail m timestamp t e (node.retiring e size) cpuUs →
          ∃ account, t.firstAuthorizer = some account ∧
            (m.addTransactionUsage account cpuUs timestamp true node.arena.now.rest).1 = .ok ())

/-! The calls of a turn. -/

variable {e : DeferredTransaction} {node : Node ρ lam sig}

theorem retire_scheduled {size : Int} (scheduled : node.Schedules e)
    (billed : Chain.generatedTransactionBillableSize e.packedTrx.length = .ok size) :
    retireDeferredTransaction e node = (.ok (), { node with arena := { node.arena with
      now := node.arena.now.without e size } }) := by
  have retires : node.arena.now.retireDeferredTransaction e.trxId e.payer e.packedTrx.length =
      (.ok (), node.arena.now.without e size) := by
    unfold Database.retireDeferredTransaction
    rw [billed]
    dsimp only
    have still : (node.arena.now.addPendingRamUsage e.payer (-size)).deferred.find e.trxId = some e :=
      scheduled
    rw [still]
    rfl
  exact onDatabase_run retires

theorem retire_unbillable {error : Chain.ChainError}
    (unbillable : Chain.generatedTransactionBillableSize e.packedTrx.length = .error error) :
    retireDeferredTransaction e node = (.error (.apply error), node) := by
  have refuses : node.arena.now.retireDeferredTransaction e.trxId e.payer e.packedTrx.length =
      (.error (.apply error), node.arena.now) := by
    unfold Database.retireDeferredTransaction
    rw [unbillable]
  exact onDatabase_run refuses

theorem executeDeferred_run (t : PackedTransaction) (timestamp : UInt32) (published : Int64)
    (node : Node ρ lam sig) : ∃ verdict db,
      executeDeferredTransactionWithFailure m t timestamp .building published node =
        (.ok verdict, { node with arena := { node.arena with now := db } }) ∧
      ∀ result, verdict = .ok result →
        ∃ context, m.deferred context .measure published t node.arena.now = (.ok result, db) := by
  unfold executeDeferredTransactionWithFailure
  dsimp only
  split
  · rename_i e _
    exact ⟨.error (e, 0), node.arena.now, rfl, by simp⟩
  · split
    · rename_i e _
      exact ⟨.error (e, 0), node.arena.now, rfl, by simp⟩
    · refine ⟨_, _, rfl, ?_⟩
      intro result ok
      exact ⟨_, Prod.ext ok rfl⟩

theorem executeOnerror_run (e : DeferredTransaction) (timestamp : UInt32) (node : Node ρ lam sig) :
    ∃ verdict db, executeDeferredOnerror m e timestamp .building node =
        (verdict, { node with arena := { node.arena with now := db } }) ∧
      ∀ result, verdict = .ok result →
        ∃ context raw, m.onerror context e node.arena.now = (.ok raw, db) := by
  unfold executeDeferredOnerror ensureProtocolVersionSupported blockContext
  rw [read_bind]
  cases supported : m.supports (numFromId (pendingTipId node) + 1) with
  | error error => exact ⟨.error error, node.arena.now, rfl, by simp⟩
  | ok _ =>
    rw [lift_bind_ok rfl, read_bind]
    cases legal : m.contextSchedules node.blockSchedules with
    | error error => exact ⟨.error error, node.arena.now, rfl, by simp⟩
    | ok _ =>
      generalize (⟨numFromId (pendingTipId node) + 1, timestamp, .building, node.blockSchedules⟩ :
        BlockContext) = context
      rcases ran : m.onerror context e node.arena.now with ⟨error | raw, db⟩
      · exact ⟨.error error, db, bind_error (onDatabase_run ran) _, by simp⟩
      · exact ⟨_, db, bind_ok (onDatabase_run ran) _, fun _ _ => ⟨context, raw, ran⟩⟩

/-- Both ended and failed: the authorizer is billed if there is one and it can be. -/
theorem hardFail_run (e : DeferredTransaction) (t : PackedTransaction) (cpuUs : UInt32)
    (node : Node ρ lam sig) :
    (∃ error after, hardFail m timestamp draft e t cpuUs node = (.error error, after) ∧
      ¬ ∃ account, t.firstAuthorizer = some account ∧
        (m.addTransactionUsage account cpuUs timestamp true node.arena.now.rest).1 = .ok ()) ∨
    ∃ account result, t.firstAuthorizer = some account ∧
      (m.addTransactionUsage account cpuUs timestamp true node.arena.now.rest).1 = .ok () ∧
      hardFail m timestamp draft e t cpuUs node =
        (.ok (draft.add ⟨⟨.hardFail, cpuUs, 0⟩, .id e.trxId⟩ result),
          { node with arena := ⟨{ node.arena.now with
              rest := (m.addTransactionUsage account cpuUs timestamp true node.arena.now.rest).2 },
            node.arena.saved.tail⟩ }) := by
  unfold hardFail
  cases authorizer : t.firstAuthorizer with
  | none => exact .inl ⟨_, node, rfl, by simp⟩
  | some account =>
    dsimp only
    rcases billed : m.addTransactionUsage account cpuUs timestamp true node.arena.now.rest with
      ⟨verdict, rest⟩
    have ran : onRest (m.addTransactionUsage account cpuUs timestamp true) node = (verdict,
        { node with arena := { node.arena with now := { node.arena.now with rest := rest } } }) := by
      apply onDatabase_run
      rw [billed]
    cases verdict with
    | error error => exact .inl ⟨error, _, bind_error ran _, by simp [billed]⟩
    | ok _ =>
      right
      refine ⟨account, retired node e.trxId timestamp ⟨.hardFail, cpuUs, 0⟩, rfl, by rw [billed], ?_⟩
      rw [bind_ok ran, billed]
      rfl

/-! A whole turn. -/

/-- From retirement on, a turn settles the transaction or fails to bill it. -/
theorem runScheduled_run (e : DeferredTransaction) (t : PackedTransaction) {before : Database ρ}
    {saved : List (Database ρ)} (session : node.arena.saved = before :: saved) :
    let inner := { node with arena := node.arena.startUndoSession }
    (∃ error after, runScheduled m timestamp draft e t node = (.error error, after) ∧
      ¬ ∀ cpuUs, BothFail m timestamp t e inner cpuUs → ∃ account, t.firstAuthorizer = some account ∧
        (m.addTransactionUsage account cpuUs timestamp true node.arena.now.rest).1 = .ok ()) ∨
    ((∀ cpuUs, BothFail m timestamp t e inner cpuUs → ∃ account, t.firstAuthorizer = some account ∧
        (m.addTransactionUsage account cpuUs timestamp true node.arena.now.rest).1 = .ok ()) ∧
      ∃ draft' after receipt, runScheduled m timestamp draft e t node = (.ok draft', after) ∧
        Settled m timestamp e node.arena.now after.arena.now ∧ after.arena.saved = saved ∧
        receipt.trx = .id e.trxId ∧ draft'.receipts = draft.receipts ++ [receipt]) := by
  intro inner
  have starts : startUndoSession node = (.ok (), inner) := rfl
  obtain ⟨verdict, db, ran, payload⟩ := executeDeferred_run m t timestamp e.published inner
  obtain ⟨answer, db', called, callback⟩ := executeOnerror_run m e timestamp inner
  unfold runScheduled
  rw [bind_ok starts, bind_ok ran]
  cases verdict with
  | ok result =>
    right
    obtain ⟨context, deferred⟩ := payload result rfl
    refine ⟨?_, _, _, _, rfl, .executed deferred, ?_, rfl, rfl⟩
    · rintro cpuUs ⟨⟨error, failed⟩, _⟩
      rw [ran] at failed
      cases failed
    · exact congrArg List.tail session
  | error failure =>
    obtain ⟨error, cpuUs⟩ := failure
    -- the inner session is undone and opened again, which leaves the same node
    have both : ∀ {α : Type} (next : NodeCall ρ lam sig α),
        (do arenaUndo; startUndoSession; next) { inner with arena := { inner.arena with now := db } } =
          next inner := fun _ => rfl
    dsimp only
    rw [both, bind_ok (attempt_run called)]
    cases answer with
    | ok result =>
      right
      obtain ⟨context, raw, onerror⟩ := callback result rfl
      refine ⟨?_, _, _, _, rfl, .softFailed onerror, ?_, rfl, rfl⟩
      · rintro cpuUs ⟨_, ⟨error, failed⟩⟩
        rw [called] at failed
        cases failed
      · exact congrArg List.tail session
    | error error' =>
      have undone : ∀ (next : NodeCall ρ lam sig Draft),
          (do arenaUndo; next) { inner with arena := { inner.arena with now := db' } } =
            next node := fun _ => rfl
      dsimp only
      have fails : BothFail m timestamp t e inner cpuUs :=
        ⟨⟨error, by rw [ran]⟩, ⟨error', by rw [called]⟩⟩
      rcases hardFail_run m timestamp draft e t cpuUs node with
        ⟨last, after, failed, unbilled⟩ | ⟨account, result, authorizer, billed, done⟩
      · exact .inl ⟨last, after, failed, fun payable => unbilled (payable cpuUs fails)⟩
      · right
        refine ⟨?_, _, _, _, done, .hardFailed account cpuUs, ?_, rfl, rfl⟩
        · rintro other ⟨⟨_, failed⟩, _⟩
          rw [ran] at failed
          cases failed
          exact ⟨account, authorizer, billed⟩
        · exact congrArg List.tail session

/-- A turn succeeds exactly if its transaction is ready, and then it settles it. -/
def DecidedTurn (e : DeferredTransaction) (node : Node ρ lam sig) : Prop :=
  (∃ error after, buildScheduled m timestamp stage1 draft e node = (.error error, after) ∧
    ¬ Ready m timestamp stage1 e node) ∨
  (Ready m timestamp stage1 e node ∧ SettlesOnce m timestamp stage1 draft e node)

theorem decidedTurn_ended (scheduled : node.Schedules e)
    (ended : stage1 ∨ e.expiration < slotMicros timestamp) :
    DecidedTurn m timestamp stage1 draft e node := by
  have turn : buildScheduled m timestamp stage1 draft e node =
      expireScheduled timestamp draft e node := by
    unfold buildScheduled
    rw [if_pos ended]
  cases billed : Chain.generatedTransactionBillableSize e.packedTrx.length with
  | error error =>
    refine .inl ⟨_, _, turn.trans (bind_error (retire_unbillable billed) _), ?_⟩
    rintro ⟨_, size, other, _⟩
    cases billed.symm.trans other
  | ok size =>
    exact .inr ⟨⟨scheduled, size, billed, .inl ended⟩, _, _, size, _,
      turn.trans (bind_ok (retire_scheduled scheduled billed) _), billed, .expired, rfl, rfl, rfl⟩

/-- A transaction that can be read is retired in a session of its own, and runs in it. -/
theorem decidedTurn_readable {t : PackedTransaction} (scheduled : node.Schedules e)
    (ended : ¬(stage1 ∨ e.expiration < slotMicros timestamp))
    (decoded : m.fromDeferredTransactionBytes e.packedTrx = .ok t) (same : t.id = e.trxId) :
    DecidedTurn m timestamp stage1 draft e node := by
  obtain ⟨next, turn, undoes, runs⟩ : ∃ next : _ → NodeCall ρ lam sig Draft,
      buildScheduled m timestamp stage1 draft e node =
        (attempt (retireDeferredTransaction e) >>= next)
          { node with arena := node.arena.startUndoSession } ∧
      (∀ error, next (.error error) = (arenaUndo >>= fun _ => Call.throw error)) ∧
      next (.ok ()) = runScheduled m timestamp draft e t := by
    unfold buildScheduled
    rw [if_neg ended, decoded]
    dsimp only
    rw [if_neg (not_not.mpr same)]
    exact ⟨_, bind_ok rfl _, fun _ => rfl, rfl⟩
  cases billed : Chain.generatedTransactionBillableSize e.packedTrx.length with
  | error error =>
    rw [bind_ok (attempt_run (retire_unbillable billed)), undoes] at turn
    refine .inl ⟨_, _, turn, ?_⟩
    rintro ⟨_, size, other, _⟩
    cases billed.symm.trans other
  | ok size =>
    have opened : ({ node with arena := node.arena.startUndoSession } :
      Node ρ lam sig).Schedules e := scheduled
    rw [bind_ok (attempt_run (retire_scheduled opened billed)), runs] at turn
    let open_ : Node ρ lam sig := { node with arena :=
      ⟨node.arena.now.without e size, node.arena.now :: node.arena.saved⟩ }
    have session : open_.arena.saved = node.arena.now :: node.arena.saved := rfl
    rcases runScheduled_run m timestamp draft e t session with
      ⟨error, after, failed, unpaid⟩ | ⟨payable, draft', after, receipt, done, settled, closed,
        names, receipts⟩
    · refine .inl ⟨error, after, turn.trans failed, ?_⟩
      rintro ⟨_, other, sized, over_ | ⟨u, readable, _, pays⟩⟩
      · exact ended over_
      · cases billed.symm.trans sized
        cases decoded.symm.trans readable
        exact unpaid pays
    · exact .inr ⟨⟨scheduled, size, billed, .inr ⟨t, decoded, same, payable⟩⟩, draft', after,
        size, receipt, turn.trans done, billed, settled, closed, names, receipts⟩

theorem buildScheduled_scheduled (scheduled : node.Schedules e) :
    DecidedTurn m timestamp stage1 draft e node := by
  by_cases ended : stage1 ∨ e.expiration < slotMicros timestamp
  · exact decidedTurn_ended m timestamp stage1 draft scheduled ended
  cases decoded : m.fromDeferredTransactionBytes e.packedTrx with
  | error error =>
    have failed : buildScheduled m timestamp stage1 draft e node = (.error (.transactionError
        s!"cannot decode deferred transaction {hexEncode e.trxId}: {reprStr error}"), node) := by
      unfold buildScheduled
      rw [if_neg ended, decoded]
      rfl
    refine .inl ⟨_, node, failed, ?_⟩
    rintro ⟨_, size, _, over_ | ⟨t, readable, _⟩⟩
    · exact ended over_
    · cases decoded.symm.trans readable
  | ok t =>
    by_cases same : t.id = e.trxId
    · exact decidedTurn_readable m timestamp stage1 draft scheduled ended decoded same
    have failed : buildScheduled m timestamp stage1 draft e node = (.error (.transactionError
        s!"deferred transaction {hexEncode e.trxId} has an id that does not match its packed bytes"),
        { node with arena := node.arena.undo }) := by
      unfold buildScheduled
      rw [if_neg ended, decoded]
      dsimp only
      rw [if_pos same]
      rfl
    refine .inl ⟨_, _, failed, ?_⟩
    rintro ⟨_, size, _, over_ | ⟨u, readable, names, _⟩⟩
    · exact ended over_
    · cases decoded.symm.trans readable
      exact same names

/-- Every turn that succeeds adds a receipt. -/
theorem buildScheduled_grows (e : DeferredTransaction) (node : Node ρ lam sig) :
    Yields node (buildScheduled m timestamp stage1 draft e) fun draft' _ =>
      draft'.receipts.length = draft.receipts.length + 1 := by
  have adds : ∀ receipt result, (draft.add receipt result).receipts.length =
      draft.receipts.length + 1 := by
    intro receipt result
    simp [Draft.add]
  unfold buildScheduled
  split
  · apply bind_any
    intro _ _
    exact bind_any fun _ _ => of_pure (adds _ _)
  split
  · exact of_throw _
  split
  · exact bind_any fun _ _ => of_throw _
  apply bind_any
  intro _ _
  apply bind_any
  rintro (error | _) _
  · exact bind_any fun _ _ => of_throw _
  -- the outcomes of running it
  apply bind_any
  intro _ _
  apply bind_any
  rintro (⟨error, cpuUs⟩ | result) _
  · apply bind_any
    intro _ _
    apply bind_any
    intro _ _
    apply bind_any
    rintro (error | result) _
    · apply bind_any
      intro _ _
      unfold hardFail
      split
      · exact of_throw _
      apply bind_any
      intro _ _
      apply bind_any
      intro _ _
      exact bind_any fun _ _ => of_pure (adds _ _)
    · apply bind_any
      intro _ _
      exact bind_any fun _ _ => of_pure (adds _ _)
  · apply bind_any
    intro _ _
    exact bind_any fun _ _ => of_pure (adds _ _)

theorem exactTurn_iff (e : DeferredTransaction) (node : Node ρ lam sig) :
    ExactTurn m timestamp stage1 draft e node ↔ Ready m timestamp stage1 e node := by
  constructor
  · rintro ⟨settles, skips⟩
    by_cases scheduled : node.Schedules e
    · rcases buildScheduled_scheduled m timestamp stage1 draft scheduled with
        ⟨error, after, failed, _⟩ | ⟨ready, _⟩
      · obtain ⟨draft', after', _, _, done, _⟩ := settles scheduled
        cases failed.symm.trans done
      · exact ready
    · have grows := (buildScheduled_grows m timestamp stage1 draft e node).post _ _ (skips scheduled)
      omega
  · intro ready
    refine ⟨fun scheduled => ?_, fun gone => absurd ready.1 gone⟩
    rcases buildScheduled_scheduled m timestamp stage1 draft scheduled with
      ⟨_, _, _, unready⟩ | ⟨_, settles⟩
    · exact absurd ready unready
    · exact settles

/-! The loop. -/

/-- The transactions that a block is going to settle, as they stand when it begins. -/
def listed (node : Node ρ lam sig) : List DeferredTransaction :=
  if stage1 then node.arena.now.deferredTransactions
  else node.arena.now.dueDeferredTransactions (slotMicros timestamp)

theorem nodup_listed (node : Node ρ lam sig) :
    ((listed timestamp stage1 node).map (·.trxId)).Nodup := by
  have unique := node.arena.now.deferred.unique
  unfold listed
  split
  · exact ((List.perm_insertionSort _ _).map _).nodup_iff.mpr unique
  · exact ((List.perm_insertionSort _ _).map _).nodup_iff.mpr (unique.sublist (List.filter_sublist.map _))

def ExactRun (timestamp : UInt32) (stage1 : Bool) :
    List DeferredTransaction → Draft → Node ρ lam sig → Prop
  | [], _, _ => True
  | e :: rest, draft, node => ExactTurn m timestamp stage1 draft e node ∧
    ∀ draft' after, buildScheduled m timestamp stage1 draft e node = (.ok draft', after) →
      ExactRun timestamp stage1 rest draft' after

/-- Every transaction is ready when it has its turn. -/
def ReadyRun (timestamp : UInt32) (stage1 : Bool) :
    List DeferredTransaction → Draft → Node ρ lam sig → Prop
  | [], _, _ => True
  | e :: rest, draft, node => Ready m timestamp stage1 e node ∧
    ∀ draft' after, buildScheduled m timestamp stage1 draft e node = (.ok draft', after) →
      ReadyRun timestamp stage1 rest draft' after

theorem exactRun_iff (timestamp : UInt32) (stage1 : Bool) (due : List DeferredTransaction)
    (draft : Draft) (node : Node ρ lam sig) :
    ExactRun m timestamp stage1 due draft node ↔ ReadyRun m timestamp stage1 due draft node := by
  induction due generalizing draft node with
  | nil => exact Iff.rfl
  | cons e rest ih => simp only [ExactRun, ReadyRun, exactTurn_iff, ih]

theorem exactRun_ok (timestamp : UInt32) (stage1 : Bool) (due : List DeferredTransaction)
    (draft : Draft) (node : Node ρ lam sig) (exact_ : ExactRun m timestamp stage1 due draft node) :
    ∃ draft' after, due.foldlM (buildScheduled m timestamp stage1) draft node = (.ok draft', after) ∧
      draft'.receipts.map (·.transactionId) =
        draft.receipts.map (·.transactionId) ++ due.map (·.trxId) ∧
      after.arena.saved = node.arena.saved := by
  induction due generalizing draft node with
  | nil => exact ⟨draft, node, rfl, by simp, rfl⟩
  | cons e rest ih =>
    obtain ⟨turn, later⟩ := exact_
    have ready := (exactTurn_iff m timestamp stage1 draft e node).mp turn
    obtain ⟨draft₁, mid, size, receipt, done, _, _, closed, names, receipts⟩ := turn.1 ready.1
    obtain ⟨draft', after, finished, ids, sessions⟩ := ih draft₁ mid (later draft₁ mid done)
    refine ⟨draft', after, ?_, ?_, sessions.trans closed⟩
    · rw [List.foldlM_cons, bind_ok done, finished]
    · have named : receipt.transactionId = e.trxId := by
        unfold TransactionReceipt.transactionId
        rw [names]
      rw [ids, receipts]
      simp [named]

/-- What is due is settled exactly, one by one, if and only if each of them is ready when it
has its turn. Then the loop succeeds and each has one receipt. -/
theorem deferred_exact_iff (timestamp : UInt32) (stage1 : Bool) (draft : Draft)
    (node : Node ρ lam sig) :
    ((listed timestamp stage1 node).map (·.trxId)).Nodup ∧
    (ExactRun m timestamp stage1 (listed timestamp stage1 node) draft node ↔
      ReadyRun m timestamp stage1 (listed timestamp stage1 node) draft node) ∧
    (ExactRun m timestamp stage1 (listed timestamp stage1 node) draft node →
      ∃ draft' after, (listed timestamp stage1 node).foldlM (buildScheduled m timestamp stage1) draft
          node = (.ok draft', after) ∧
        draft'.receipts.map (·.transactionId) =
          draft.receipts.map (·.transactionId) ++ (listed timestamp stage1 node).map (·.trxId)) := by
  refine ⟨nodup_listed timestamp stage1 node, exactRun_iff m timestamp stage1 _ draft node, ?_⟩
  intro exact_
  obtain ⟨draft', after, done, ids, _⟩ := exactRun_ok m timestamp stage1 _ draft node exact_
  exact ⟨draft', after, done, ids⟩

/-! Two transactions that are due, one of which looks after the other. -/

def idOf (byte : UInt8) : Id := Vector.replicate 32 byte

/-- A generated transaction of account 7, named by its one byte, that a payer is billed for.
It is due one second after it was published, and expires ten minutes later. -/
def generated (byte : UInt8) (payer : UInt64) (published : Int64) : DeferredTransaction :=
  ⟨7, byte.toNat, payer, idOf byte, published + 1000000, published + 601000000, published, [byte]⟩

def secondBefore : Int64 := slotMicros 0 - 1000000

/-- Transactions are named by their first byte; the first generated one does something to the
table, and all others do nothing. -/
def meddlingMachine (meddle : Database Unit → Database Unit) : Machine Unit Unit Unit where
  toWire := { (idleMachine [1]).toWire with
    fromDeferredTransactionBytes := fun bytes => .ok ⟨idOf (bytes.headD 0), 0, some 7, bytes⟩ }
  __ := idleMachine [1]
  deferred _ _ _ t db := (.ok (idleResult t.id), if t.id = idOf 1 then meddle db else db)

/-- Two transactions are due; accounts 7 and 8 have used 1000 bytes each. -/
def twoDue : Database Unit where
  features := ⟨[], []⟩
  proposedSchedule := none
  deferred := ⟨[generated 1 7 secondBefore, generated 2 7 secondBefore], 2, by decide⟩
  ramUsage account := if account = 7 ∨ account = 8 then some 1000 else none
  rest := ()

def cancelSecond (db : Database Unit) : Database Unit := db.without (generated 2 7 secondBefore) 273

/-- Schedule the second transaction again in its place, billed to account 8. It is published
in the block that is built, and due a second later. -/
def replaceSecond (db : Database Unit) : Database Unit :=
  let cancelled := cancelSecond db
  match cancelled.deferred.insert fun _ => generated 2 8 (slotMicros 1) with
  | some deferred => { cancelled.addPendingRamUsage 8 273 with deferred := deferred }
  | none => db

/-- The first block after the two became due, when one of them meddles with the other. -/
def builtWith (meddle : Database Unit → Database Unit) :
    Except ChainError SignedBlock × Node Unit Unit Unit :=
  buildBlock (meddlingMachine meddle) 0 (fun _ => 0) (genesisNode twoDue Mempool.new)

/-- If the first transaction cancels the second, no block can be built. If it replaces it by
one that is not due, that one runs at once; account 7 is refunded three times for two
transactions, and account 8 never. -/
theorem stale_list_fails :
    (builtWith id).1.toOption.isSome ∧
    (builtWith cancelSecond).1 = .error (.internalError
      s!"cannot retire missing deferred transaction {hexEncode (idOf 2)}") ∧
    (builtWith replaceSecond).1.toOption.map (fun block => block.transactions.map (·.trx)) =
      some [.id (idOf 1), .id (idOf 2)] ∧
    (builtWith replaceSecond).2.arena.now.deferred.rows = [] ∧
    (builtWith replaceSecond).2.arena.now.ramUsage 7 = some (1000 - 3 * 273) ∧
    (builtWith replaceSecond).2.arena.now.ramUsage 8 = some (1000 + 273) := by
  decide +kernel

end NodeCall

end PulseVM.Controller
