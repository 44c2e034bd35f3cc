import PulseVM.Controller.Effects

/-!
Building accounts for every transaction of the pool. Whatever runs on the database leaves
the pool alone; the loop over the pool pops each transaction once and either runs it or sets
it aside, and nothing in the loop can end it early.
-/

namespace PulseVM.Controller
open Lib Lib.Encoding Lib.Calls Lib.Calls.Call

variable {ρ lam sig : Type} {α : Type}

/-- The pool, and the log of the transactions that failed. -/
def Node.books (node : Node ρ lam sig) := (node.mempool, node.dropped)

namespace NodeCall
open Mempool hiding new
open List

theorem inside_onArena (f : Arena ρ → Arena ρ) : Inside (onArena f : NodeCall ρ lam sig Unit) :=
  fun _ => rfl

theorem inside_onDatabase (call : Database ρ → Except ChainError α × Database ρ) :
    Inside (onDatabase call : NodeCall ρ lam sig α) := fun _ => rfl

theorem inside_onRest (call : ρ → Except ChainError α × ρ) :
    Inside (onRest call : NodeCall ρ lam sig α) := inside_onDatabase _

theorem inside_startUndoSession : Inside (startUndoSession : NodeCall ρ lam sig Unit) :=
  inside_onArena _

theorem inside_arenaUndo : Inside (arenaUndo : NodeCall ρ lam sig Unit) := inside_onArena _

theorem inside_arenaSquash : Inside (arenaSquash : NodeCall ρ lam sig Unit) := inside_onArena _

variable (m : Machine ρ lam sig)

theorem inside_executeDeferredTransactionWithFailure (transaction : PackedTransaction)
    (timestamp : UInt32) (status : BlockStatus) (published : Int64) :
    Inside (executeDeferredTransactionWithFailure m transaction timestamp status published) := by
  intro node
  unfold executeDeferredTransactionWithFailure
  dsimp only
  split
  · rfl
  · split <;> rfl

theorem inside_activateFeatures (digests : List Digest) (blockNum : UInt32) :
    Inside (activateFeatures digests blockNum : NodeCall ρ lam sig Unit) :=
  moves_ite (moves_pure _) (inside_onDatabase _)

variable {status : BlockStatus} {node : Node ρ lam sig}

theorem inside_executeBlock (block : SignedBlock) (open_ : status ≠ .accepting)
    (check : AuthorizationCheck) (mode : BlockResourceMode) :
    Inside (executeBlock m block status check mode) := by
  refine (moves_lift _).bind ?_
  intro _
  refine (moves_prepareProtocolExecution _).bind ?_
  intro _
  refine (moves_scheduleStateForParent _).bind ?_
  intro parent
  refine (moves_lift _).bind ?_
  rintro ⟨promoted, schedules⟩
  apply Moves.bind
  · intro node
    rfl
  intro _
  refine (moves_lift _).bind ?_
  intro activations
  apply (inside_activateFeatures _ _).bind
  exact fun _ => (executes_executeBody m block promoted schedules status check mode).inside open_

theorem inside_replayBlock (open_ : status ≠ .accepting) (block : SignedBlock) :
    Inside (replayBlock m status block) := by
  apply inside_startUndoSession.bind
  intro _
  apply (moves_attempt (inside_executeBlock m block open_ _ _)).bind
  rintro (e | ⟨traces, roots⟩)
  · exact inside_arenaUndo.bind fun _ => moves_throw _
  · refine (moves_lift _).bind ?_
    intro id node
    rfl

theorem inside_replayAcceptedStateTo (open_ : status ≠ .accepting) (target : Id) :
    Inside (replayAcceptedStateTo m target status) := by
  refine (moves_read _).bind ?_
  intro node
  refine (moves_lift _).bind ?_
  intro path
  refine (moves_lift _).bind ?_
  intro common
  apply Moves.bind
  · intro node
    rfl
  · intro _
    exact moves_forM (inside_replayBlock m open_) _

/-! Building. -/

theorem inside_hardFail (timestamp : UInt32) (draft : Draft) (scheduled : DeferredTransaction)
    (transaction : PackedTransaction) (failureCpuUs : UInt32) :
    Inside (hardFail m timestamp draft scheduled transaction failureCpuUs) := by
  unfold hardFail
  cases transaction.firstAuthorizer with
  | none => exact moves_throw _
  | some account =>
    exact (inside_onRest _).bind fun _ => (moves_read _).bind fun _ =>
      inside_arenaSquash.bind fun _ => moves_pure _

theorem inside_runScheduled (timestamp : UInt32) (draft : Draft) (scheduled : DeferredTransaction)
    (transaction : PackedTransaction) :
    Inside (runScheduled m timestamp draft scheduled transaction) := by
  have squashed : ∀ draft : Draft,
      Inside (do arenaSquash; arenaSquash; return draft : NodeCall ρ lam sig Draft) := fun _ =>
    inside_arenaSquash.bind fun _ => inside_arenaSquash.bind fun _ => moves_pure _
  apply inside_startUndoSession.bind
  intro _
  apply (inside_executeDeferredTransactionWithFailure m _ _ _ _).bind
  rintro (⟨e, failureCpuUs⟩ | result)
  · apply inside_arenaUndo.bind
    intro _
    apply inside_startUndoSession.bind
    intro _
    apply (moves_attempt ((executes_executeDeferredOnerror m _ _ _).inside (by decide))).bind
    rintro (e | result)
    · exact inside_arenaUndo.bind fun _ => inside_hardFail m _ _ _ _ _
    · exact squashed _
  · exact squashed _

theorem inside_buildScheduled (timestamp : UInt32) (stage1 : Bool) (draft : Draft)
    (scheduled : DeferredTransaction) :
    Inside (buildScheduled m timestamp stage1 draft scheduled) := by
  apply moves_ite ((inside_onDatabase _).bind fun _ => (moves_read _).bind fun _ => moves_pure _)
  split
  · exact moves_throw _
  · apply moves_ite (inside_arenaUndo.bind fun _ => moves_throw _)
    apply inside_startUndoSession.bind
    intro _
    apply (moves_attempt (inside_onDatabase _)).bind
    rintro (e | _)
    · exact inside_arenaUndo.bind fun _ => moves_throw _
    · exact inside_runScheduled m _ _ _ _

theorem inside_announcedSchedule (height : UInt32) (parent : ProducerScheduleState) :
    Inside (announcedSchedule m height parent) := by
  refine moves_ite (moves_pure _) ?_
  refine (moves_read _).bind ?_
  rintro (_ | ⟨proposalBlock, packed⟩)
  · exact moves_pure _
  · exact moves_ite ((moves_lift _).bind fun _ => (inside_onDatabase _).bind fun _ =>
      moves_pure _) (moves_pure _)

theorem inside_openBlock (height timestamp : UInt32) : Inside (openBlock m height timestamp) := by
  apply (inside_onRest _).bind
  intro _
  refine (moves_read _).bind ?_
  intro previous
  refine (moves_scheduleStateForParent previous).bind ?_
  intro parent
  refine (moves_read _).bind ?_
  intro schedule
  apply Moves.bind
  · intro node
    rfl
  intro _
  refine (moves_read _).bind ?_
  intro features
  apply (inside_activateFeatures _ _).bind
  intro _
  apply (inside_announcedSchedule m height parent).bind
  intro announced
  apply Moves.bind
  · intro node
    rfl
  intro _
  exact ((executes_runOnblock m _ _ _ _ _).inside (by decide)).bind fun _ => moves_pure _

theorem inside_startBlock (height timestamp : UInt32) : Inside (startBlock m height timestamp) := by
  apply inside_startUndoSession.bind
  intro _
  refine (moves_attempt (moves_prepareProtocolExecution height)).bind ?_
  rintro (e | _)
  · exact inside_arenaUndo.bind fun _ => moves_throw _
  · apply (inside_openBlock m height timestamp).bind
    rintro ⟨schedule, announced, activations, digests⟩
    refine (moves_read _).bind ?_
    intro features
    refine (moves_read _).bind ?_
    intro scheduled
    exact (moves_foldlM (inside_buildScheduled m _ _) _ _).bind fun _ => moves_pure _

/-! The loop over the pool. -/

/-- Running a transaction for a block fails in some state. -/
def Fails (t : PackedTransaction) : Prop :=
  ∃ height timestamp node e,
    (executeTransactionWithProtocol m t height timestamp .building .measure .required node).1 =
      .error e

/-- A draft has a receipt of an input transaction. -/
def Included (receipts : List TransactionReceipt) (t : PackedTransaction) : Prop :=
  ∃ receipt ∈ receipts, receipt.trx = .packed t

/-- Each transaction that was run failed, and the log says so, or it is in the draft. -/
structure Ran (ran : List PackedTransaction) (draft draft' : Draft)
    (node node' : Node ρ lam sig) : Prop where
  grows : draft.receipts <+: draft'.receipts
  outcomes : ∃ failed, node'.dropped = node.dropped ++ failed ∧ (∀ t ∈ failed, Fails m t) ∧
    ∀ t ∈ ran, t ∈ failed ∨ Included draft'.receipts t

variable {m}

theorem Included.mono {receipts more : List TransactionReceipt} {t : PackedTransaction}
    (included : Included receipts t) (grows : receipts <+: more) : Included more t := by
  obtain ⟨receipt, member, isPacked⟩ := included
  exact ⟨receipt, grows.subset member, isPacked⟩

theorem Ran.trans {first second : List PackedTransaction} {a b c : Draft}
    {x y z : Node ρ lam sig} (one : Ran m first a b x y) (two : Ran m second b c y z) :
    Ran m (first ++ second) a c x z := by
  obtain ⟨failed, logged, fails, outcome⟩ := one.outcomes
  obtain ⟨failed', logged', fails', outcome'⟩ := two.outcomes
  refine ⟨one.grows.trans two.grows, failed ++ failed', ?_, ?_, ?_⟩
  · rw [logged', logged, append_assoc]
  · simp only [mem_append]
    rintro t (before | after)
    · exact fails t before
    · exact fails' t after
  · simp only [mem_append]
    rintro t (before | after)
    · rcases outcome t before with failing | included
      · exact .inl (.inl failing)
      · exact .inr (included.mono two.grows)
    · rcases outcome' t after with failing | included
      · exact .inl (.inr failing)
      · exact .inr included

variable (m)

theorem buildTransaction_ok (height timestamp : UInt32) (draft : Draft) (t : PackedTransaction)
    (node : Node ρ lam sig) : ∃ draft' node',
      buildTransaction m height timestamp draft t node = (.ok draft', node') ∧
      node'.mempool = node.mempool ∧ Ran m [t] draft draft' node node' := by
  have started : startUndoSession node = (.ok (),
    { node with arena := node.arena.startUndoSession }) := rfl
  unfold buildTransaction
  rw [bind_ok started]
  generalize before : { node with arena := node.arena.startUndoSession } = open_
  have inside := (executes_executeTransactionWithProtocol m t height timestamp .building .measure
    .required).inside (by decide) open_
  rcases run : executeTransactionWithProtocol m t height timestamp .building .measure .required
    open_ with ⟨verdict, after⟩
  rw [run] at inside
  rw [bind_ok (attempt_run run)]
  have pool : after.mempool = node.mempool := by
    rw [← before] at inside
    exact congrArg (·.1) inside
  have log : after.dropped = node.dropped := by
    rw [← before] at inside
    exact congrArg (·.2.1) inside
  cases verdict with
  | ok result =>
    refine ⟨_, _, rfl, pool, ?_, [], ?_, by simp, ?_⟩
    · exact prefix_append _ _
    · simpa using log
    · intro other member
      rw [mem_singleton.mp member]
      exact .inr ⟨_, mem_append_right _ (mem_singleton_self _), rfl⟩
  | error e =>
    refine ⟨_, _, rfl, pool, prefix_rfl, [t], ?_, ?_, ?_⟩
    · exact congrArg (· ++ [t]) log
    · intro other member
      rw [mem_singleton.mp member]
      exact ⟨height, timestamp, open_, e, by rw [run]⟩
    · intro other member
      exact .inl member

/-- The loop pops every transaction once; those of pending blocks are set aside in order, and
the others are run. -/
theorem fillBlock_ok (height timestamp : UInt32) (pending : List Id) (rounds : Nat) (draft : Draft)
    (aside : List PackedTransaction) (node : Node ρ lam sig) (sound : node.mempool.Sound)
    (enough : node.mempool.transactionsList.length = rounds) : ∃ draft' node',
      fillBlock m height timestamp pending rounds draft aside node =
        (.ok (draft', aside ++ node.mempool.transactionsList.filter (·.id ∈ pending)), node') ∧
      node'.mempool.Sound ∧ node'.mempool.transactionsList = [] ∧
      node'.mempool.reservedIds = node.mempool.reservedIds ∧
      Ran m (node.mempool.transactionsList.filter (·.id ∉ pending)) draft draft' node node' := by
  induction rounds generalizing draft aside node with
  | zero =>
    have empty := eq_nil_of_length_eq_zero enough
    refine ⟨draft, node, ?_, sound, empty, rfl, prefix_rfl, [], ?_, ?_, ?_⟩
    · simp [fillBlock, empty, pure_run]
    all_goals simp [empty]
  | succ rounds ih =>
    obtain ⟨t, rest, list⟩ := exists_cons_of_length_eq_add_one enough
    have popped : node.mempool.popTransaction =
        some (t, { node.mempool with transactionsList := rest }.forget t.id) := by
      simp [popTransaction, list]
    generalize left : { node.mempool with transactionsList := rest }.forget t.id = pool at popped
    have poolSound := (popTransaction_shrinks popped).sound sound
    have poolList : pool.transactionsList = rest := by simp [← left]
    have poolReserved : pool.reservedIds = node.mempool.reservedIds := by simp [← left]
    have shorter : pool.transactionsList.length = rounds := by
      simpa [poolList, list] using enough
    have step : fillBlock m height timestamp pending (rounds + 1) draft aside node =
        (if t.id ∈ pending then fillBlock m height timestamp pending rounds draft (aside ++ [t])
        else do
          let draft ← buildTransaction m height timestamp draft t
          fillBlock m height timestamp pending rounds draft aside) { node with mempool := pool } := by
      rw [fillBlock, read_bind, popped]
      rfl
    rw [step]
    split_ifs with waits
    · obtain ⟨draft', node', done, sound', empty, reserved, ran⟩ := ih draft (aside ++ [t])
        { node with mempool := pool } poolSound shorter
      have same : node.mempool.transactionsList.filter (·.id ∉ pending) =
          pool.transactionsList.filter (·.id ∉ pending) := by simp [list, poolList, waits]
      refine ⟨draft', node', ?_, sound', empty, reserved.trans poolReserved, ?_⟩
      · rw [done]
        simp [list, poolList, waits]
      · rw [same]
        exact ⟨ran.grows, ran.outcomes⟩
    · obtain ⟨draft₁, node₁, ran, pool₁, first⟩ :=
        buildTransaction_ok m height timestamp draft t { node with mempool := pool }
      rw [bind_ok ran]
      obtain ⟨draft', node', done, sound', empty, reserved, second⟩ := ih draft₁ aside node₁
        (pool₁ ▸ poolSound) (pool₁ ▸ shorter)
      refine ⟨draft', node', ?_, sound', empty, ?_, ?_⟩
      · rw [done]
        simp [list, pool₁, poolList, waits]
      · rw [reserved, pool₁, poolReserved]
      · have both := first.trans second
        rw [pool₁, poolList] at both
        have same : node.mempool.transactionsList.filter (·.id ∉ pending) =
            [t] ++ rest.filter (·.id ∉ pending) := by simp [list, waits]
        rw [same]
        exact ⟨both.grows, both.outcomes⟩

/-! Around the loop. -/

theorem foldl_addTransactionAt (receivedAt : PackedTransaction → UInt32)
    (aside : List PackedTransaction) {pool : Mempool} (sound : pool.Sound)
    (nodup : ((pool.transactionsList ++ aside).map (·.id)).Nodup)
    (apart : ∀ t ∈ aside, t.id ∉ pool.reservedIds)
    (room : pool.transactionsList.length + aside.length + pool.reservedIds.card ≤
      maxMempoolSize) :
    let full := aside.foldl (fun pool t => pool.addTransactionAt t (receivedAt t)) pool
    full.transactionsList = pool.transactionsList ++ aside ∧ full.Sound ∧
      full.reservedIds = pool.reservedIds := by
  induction aside generalizing pool with
  | nil => simpa using sound
  | cons t rest ih =>
    simp only [length_cons] at room
    have fresh : t.id ∉ pool.transactionsMap := by
      rw [mem_map_iff sound]
      rintro ⟨other, waits, same⟩
      rw [map_append, nodup_append] at nodup
      exact nodup.2.2 _ (mem_map_of_mem waits) _ (by simp) same
    have added : (pool.addTransactionAt t (receivedAt t)).transactionsList =
        pool.transactionsList ++ [t] := by
      have free : ¬ maxMempoolSize ≤ pool.transactionsList.length + pool.reservedIds.card := by omega
      have absent : ¬ (t.id ∈ pool.reservedIds ∨ t.id ∈ pool.transactionsMap) := by
        simp [fresh, apart t mem_cons_self]
      simp [addTransactionAt, tryAddTransactionAt, absent, free,
        recordExpiration]
    have next := @ih (pool.addTransactionAt t (receivedAt t))
      (sound_add sound t (receivedAt t)) (by simpa [added] using nodup)
      (by intro u waits; simpa using apart u (mem_cons_of_mem _ waits))
      (by simp only [added, length_append, length_singleton,
            addTransactionAt_reserved]; omega)
    simpa [added] using next

/-- The time of the block that is built on the preferred one. -/
def BuildsAt (wallClock : UInt32) (node : Node ρ lam sig) (timestamp : UInt32) : Prop :=
  ∃ parent, (timestampForParent node.preferredId node).1 = .ok parent ∧
    timestamp = nextTimestamp wallClock parent

/-- Nothing failed yet, and only what has expired may have left the pool. -/
def Began (wallClock : UInt32) (node after : Node ρ lam sig) : Prop :=
  after.dropped = node.dropped ∧ (after.mempool = node.mempool ∨ ∃ timestamp,
    BuildsAt wallClock node timestamp ∧
      after.mempool = node.mempool.pruneExpired (slotSeconds timestamp))

theorem timestampForParent_outside {after : Node ρ lam sig} (same : Same Node.outside node after)
    (parent : Id) : (timestampForParent parent after).1 = (timestampForParent parent node).1 := by
  simp only [Same, Node.outside, Prod.mk.injEq] at same
  obtain ⟨_, _, accepted, acceptedId, verified, _, _⟩ := same
  unfold timestampForParent Node.verified
  rw [accepted, acceptedId, verified]
  split
  · rfl
  · split <;> rfl

theorem Began.of_outside {wallClock : UInt32} {after : Node ρ lam sig}
    (same : Same Node.outside node after) : Began wallClock node after := by
  simp only [Same, Node.outside, Prod.mk.injEq] at same
  exact ⟨same.2.1, .inl same.1⟩

/-- What follows a call on the database starts from a node that is the same outside. -/
theorem Inside.after {β : Type} {call : NodeCall ρ lam sig α} {next : α → NodeCall ρ lam sig β}
    {p : Node ρ lam sig → Prop} (inside : Inside call)
    (failed : ∀ mid, Same Node.outside node mid → p mid)
    (done : ∀ a mid, call node = (.ok a, mid) → Same Node.outside node mid → p (next a mid).2) :
    p ((call >>= next) node).2 := by
  have kept := inside node
  apply bind_after
  · intro e _
    exact failed _ kept
  · intro a verdict
    exact done a _ (Prod.ext verdict rfl) kept

theorem beginBlock_began (wallClock : UInt32) (node : Node ρ lam sig) :
    Began wallClock node (beginBlock m wallClock node).2 := by
  unfold beginBlock
  rw [read_bind]
  apply Inside.after (moves_lift _)
  · exact fun mid => Began.of_outside
  intro _ mid _ supported
  apply Inside.after (inside_replayAcceptedStateTo m (by decide) _)
  · exact fun mid replayed => Began.of_outside (replayed.trans supported)
  intro _ mid' _ replayed
  have same : Same Node.outside node mid' := replayed.trans supported
  apply Inside.after (moves_timestampForParent _)
  · exact fun mid timed => Began.of_outside (timed.trans same)
  intro parent last resolved timed
  have now := timestampForParent_outside same node.preferredId
  rw [resolved] at now
  have kept : Same Node.outside node last := timed.trans same
  -- from here on only the database changes
  have started := inside_startBlock m (numFromId node.preferredId + 1) (nextTimestamp wallClock parent)
    { last with mempool := last.mempool.pruneExpired (slotSeconds (nextTimestamp wallClock parent)) }
  simp only [Same, Node.outside, Prod.mk.injEq] at kept started
  refine ⟨started.2.1.trans kept.2.1, .inr ⟨_, ⟨parent, now.symm, rfl⟩, ?_⟩⟩
  rw [← kept.1]
  exact started.1

/-! Sealing. -/

theorem Inside.books {call : NodeCall ρ lam sig α} (inside : Inside call) :
    Moves (Same Node.books) call := by
  intro node
  have same := inside node
  simp only [Same, Node.outside, Node.books, Prod.mk.injEq] at same ⊢
  exact ⟨same.1, same.2.1⟩

theorem books_sealBlock (timestamp : UInt32) (schedule : ProducerSchedule)
    (announced : Option ProducerSchedule) (activations : List Digest) (draft : Draft) :
    Moves (Same Node.books) (sealBlock m timestamp schedule announced activations draft) := by
  refine (moves_read _).bind ?_
  intro previous
  refine (moves_lift _).bind ?_
  intro mroot
  refine (moves_lift _).bind ?_
  intro header
  apply moves_ite
  · exact inside_arenaUndo.books.bind fun _ => moves_throw _
  have digested : ∀ header, Inside (sigDigestOn m previous header) := fun _ =>
    moves_ite ((moves_headerSigningStateForParent _).bind fun _ => moves_lift _) (moves_lift _)
  apply (digested _).books.bind
  intro digest
  refine (moves_lift _).bind ?_
  intro signature
  refine (moves_lift _).bind ?_
  intro id
  apply (inside_onRest _).books.bind
  intro _
  apply Moves.bind
  · intro node
    rfl
  exact fun _ => moves_pure _

theorem books_finishBlock (timestamp : UInt32) (schedule : ProducerSchedule)
    (announced : Option ProducerSchedule) (activations : List Digest) (draft : Draft) :
    Moves (Same Node.books) (finishBlock m timestamp schedule announced activations draft) :=
  moves_ite (inside_arenaUndo.books.bind fun _ => moves_throw _)
    (books_sealBlock m timestamp schedule announced activations draft)

/-! The whole block. -/

section Began

variable {wallClock : UInt32} {node began : Node ρ lam sig}

theorem Began.sound (start : Began wallClock node began) (sound : node.mempool.Sound) :
    began.mempool.Sound := by
  rcases start.2 with same | ⟨timestamp, _, pruned⟩
  · exact same ▸ sound
  · exact pruned ▸ (pruneExpired_shrinks _ _).sound sound

theorem Began.reserved (start : Began wallClock node began) :
    began.mempool.reservedIds = node.mempool.reservedIds := by
  rcases start.2 with same | ⟨timestamp, _, pruned⟩
  · rw [same]
  · rw [pruned, (pruneExpired_shrinks _ _).reserved]

theorem Began.part (start : Began wallClock node began) :
    began.mempool.transactionsList ⊆ node.mempool.transactionsList := by
  rcases start.2 with same | ⟨timestamp, _, pruned⟩
  · rw [same]
    exact List.Subset.refl _
  · exact pruned ▸ (pruneExpired_shrinks _ _).fewer.subset

/-- The pool drops a transaction at a time: some deadline is over, and this transaction has
none that is not. -/
def Prunes (pool : Mempool) (now : UInt32) (t : PackedTransaction) : Prop :=
  pool.hasExpired now ∧ ¬ pool.alive now t

theorem Began.survives (start : Began wallClock node began) {t : PackedTransaction}
    (waiting : t ∈ node.mempool.transactionsList) : t ∈ began.mempool.transactionsList ∨
      ∃ timestamp, BuildsAt wallClock node timestamp ∧
        Prunes node.mempool (slotSeconds timestamp) t := by
  rcases start.2 with same | ⟨timestamp, time, pruned⟩
  · exact .inl (same ▸ waiting)
  · by_cases drops : Prunes node.mempool (slotSeconds timestamp) t
    · exact .inr ⟨timestamp, time, drops⟩
    · left
      rw [pruned]
      unfold pruneExpired
      split
      · rename_i expired
        have lives : node.mempool.alive (slotSeconds timestamp) t := by
          by_contra over_
          exact drops ⟨expired, over_⟩
        exact mem_filter.mpr ⟨waiting, lives⟩
      · exact waiting

end Began

/-- What is left in the pool when a draft is complete. -/
structure Assembled (wallClock : UInt32) (node after : Node ρ lam sig) (draft : Draft) : Prop where
  sound : after.mempool.Sound
  reserved : after.mempool.reservedIds = node.mempool.reservedIds
  rest : ∃ began start, Began wallClock node began ∧
    after.mempool.transactionsList =
      began.mempool.transactionsList.filter (·.id ∈ pendingTxIds node) ∧
    Ran m (began.mempool.transactionsList.filter (·.id ∉ pendingTxIds node)) start draft began after

variable {node : Node ρ lam sig}

theorem assembleBlock_cases (wallClock : UInt32) (receivedAt : PackedTransaction → UInt32)
    (sound : node.mempool.Sound) :
    (∃ e after, assembleBlock m wallClock receivedAt node = (.error e, after) ∧
      Began wallClock node after) ∨
    ∃ timestamp schedule announced activations draft after,
      assembleBlock m wallClock receivedAt node =
        (.ok (timestamp, schedule, announced, activations, draft), after) ∧
      Assembled m wallClock node after draft := by
  have start := beginBlock_began m wallClock node
  unfold assembleBlock
  rw [read_bind, read_bind]
  rcases begins : beginBlock m wallClock node with
    ⟨e | ⟨timestamp, schedule, announced, activations, draft⟩, began⟩
  · rw [begins] at start
    exact .inl ⟨e, began, bind_error begins _, start⟩
  · rw [begins] at start
    right
    have soundBegan : began.mempool.Sound := start.sound sound
    obtain ⟨draft', filled, fills, soundFilled, empty, reserved, ran⟩ :=
      fillBlock_ok m (numFromId node.preferredId + 1) timestamp (pendingTxIds node) _ draft []
        began soundBegan rfl
    have room := soundBegan.room
    have shorter := length_filter_le (fun t : PackedTransaction => decide (t.id ∈ pendingTxIds node))
      began.mempool.transactionsList
    obtain ⟨list, soundFull, reservedFull⟩ := foldl_addTransactionAt receivedAt
      (began.mempool.transactionsList.filter (·.id ∈ pendingTxIds node)) soundFilled
      (by
        rw [empty, nil_append]
        exact soundBegan.nodup.sublist (filter_sublist.map _))
      (by
        intro t waits
        rw [reserved]
        have indexed := (mem_map_iff soundBegan).mpr ⟨t, mem_of_mem_filter waits, rfl⟩
        exact Finset.disjoint_left.mp soundBegan.apart indexed)
      (by rw [empty, reserved, length_nil]; omega)
    rw [empty, nil_append] at list
    refine ⟨timestamp, schedule, announced, activations, draft', { filled with mempool := _ }, ?_,
      soundFull, ?_, began, draft, start, list, ran.grows, ran.outcomes⟩
    · rw [bind_ok begins]
      dsimp only
      rw [read_bind, bind_ok fills]
      rfl
    · rw [← start.reserved, ← reserved]
      exact reservedFull

theorem buildBlock_left (wallClock : UInt32) (receivedAt : PackedTransaction → UInt32)
    (sound : node.mempool.Sound) : (buildBlock m wallClock receivedAt node).2.mempool.Sound ∧
      (buildBlock m wallClock receivedAt node).2.mempool.transactionsList ⊆
        node.mempool.transactionsList := by
  unfold buildBlock
  rcases assembleBlock_cases m wallClock receivedAt sound with
    ⟨e, failedAt, assembles, start⟩ |
    ⟨timestamp, schedule, announced, activations, draft, assembled, assembles, parts⟩
  · rw [bind_error assembles]
    exact ⟨start.sound sound, start.part⟩
  · rw [bind_ok assembles]
    have books := books_finishBlock m timestamp schedule announced activations draft assembled
    obtain ⟨pool, _⟩ := Prod.mk.inj books
    obtain ⟨began, draft₀, start, list, _⟩ := parts.rest
    rw [pool]
    refine ⟨parts.sound, ?_⟩
    rw [list]
    exact List.Subset.trans (filter_subset_self _) start.part

/-- A batch that is built on and then finished comes back in front of what has arrived since,
and the pool is again one that calls on an empty pool lead to. -/
theorem finish_buildBlock (wallClock : UInt32) (receivedAt : PackedTransaction → UInt32)
    {c : Custody} (reached : c.Reached) {batch : MempoolBatch} {front back : List MempoolBatch}
    (out : c.batches = front ++ batch :: back) (lent : node.mempool = batch.transactions)
    (now : UInt32) :
    let left := (buildBlock m wallClock receivedAt node).2.mempool
    let live := c.live.finishBatch ⟨left, batch.reservations⟩ now
    live.transactionsList = left.transactionsList ++ c.live.transactionsList ∧
      Custody.Reached ⟨live, front ++ back⟩ := by
  have sound := (reached.fair.lent batch (by simp [out])).1
  obtain ⟨left, part⟩ := buildBlock_left m wallClock receivedAt (lent ▸ sound)
  -- building is one of the things the holder of a batch may do
  have built := reached.tail (.work out left (lent ▸ part))
  exact ⟨Custody.finish_returns built (by simp) now, built.tail (.finish now rfl)⟩

/-- A block with transactions was put together and could not be sealed. -/
def SealFails (wallClock : UInt32) (receivedAt : PackedTransaction → UInt32)
    (node : Node ρ lam sig) : Prop :=
  ∃ timestamp schedule announced activations draft assembled e,
    assembleBlock m wallClock receivedAt node =
      (.ok (timestamp, schedule, announced, activations, draft), assembled) ∧
    draft.receipts ≠ [] ∧
    (sealBlock m timestamp schedule announced activations draft assembled).1 = .error e

/-- Whatever comes of building a block that is not lost in sealing, each transaction that
waited until a deadline still waits, is in the block, or failed when it was run; or its
deadline was over. -/
theorem build_accounts (wallClock : UInt32) (receivedAt : PackedTransaction → UInt32)
    {node after : Node ρ lam sig} {result : Except ChainError SignedBlock}
    (held : Custody.Held node.mempool) (seals : ¬SealFails m wallClock receivedAt node)
    (run : buildBlock m wallClock receivedAt node = (result, after)) {t : PackedTransaction}
    (waiting : t ∈ node.mempool.transactionsList) {deadline : UInt32}
    (recorded : node.mempool.expirationById t.id = some deadline) :
    t ∈ after.mempool.transactionsList ∨
    (∃ block, result = .ok block ∧ Included block.transactions t) ∨
    (∃ failed, after.dropped = node.dropped ++ failed ∧ t ∈ failed ∧ Fails m t) ∨
    ∃ timestamp, BuildsAt wallClock node timestamp ∧ deadline < slotSeconds timestamp := by
  have survives : ∀ {began}, Began wallClock node began → t ∈ began.mempool.transactionsList ∨
      ∃ timestamp, BuildsAt wallClock node timestamp ∧ deadline < slotSeconds timestamp :=
    fun start => (start.survives waiting).imp_right fun ⟨timestamp, time, _, over_⟩ =>
      ⟨timestamp, time, by simpa [alive, recorded] using over_⟩
  unfold buildBlock at run
  rcases assembleBlock_cases m wallClock receivedAt held.sound with
    ⟨e, failedAt, assembles, start⟩ |
    ⟨timestamp, schedule, announced, activations, draft, assembled, assembles, parts⟩
  · rw [bind_error assembles] at run
    cases run
    exact (survives start).imp_right fun expired => .inr (.inr expired)
  · rw [bind_ok assembles] at run
    dsimp only at run
    obtain ⟨began, draft₀, start, list, grows, failed, logged, fails, outcomes⟩ := parts.rest
    have books := books_finishBlock m timestamp schedule announced activations draft assembled
    rw [run] at books
    obtain ⟨pool, log⟩ := Prod.mk.inj books
    rcases survives start with waits | expired
    · by_cases pending : t.id ∈ pendingTxIds node
      · left
        rw [pool, list]
        exact mem_filter.mpr ⟨waits, by simpa using pending⟩
      · right
        rcases outcomes t (mem_filter.mpr ⟨waits, by simpa using pending⟩) with
          failing | included
        · right
          left
          refine ⟨failed, ?_, failing, fails t failing⟩
          rw [log, logged, start.1]
        · have filled : draft.receipts ≠ [] := by
            obtain ⟨receipt, member, _⟩ := included
            exact ne_nil_of_mem member
          rw [finishBlock, if_neg filled] at run
          cases result with
          | ok block =>
            left
            have same := ((sealBlock_draft m timestamp schedule announced activations draft
              assembled).post block after run).1
            exact ⟨block, rfl, same ▸ included⟩
          | error e =>
            exact absurd ⟨timestamp, schedule, announced, activations, draft, assembled, e,
              assembles, filled, congrArg Prod.fst run⟩ seals
    · exact .inr (.inr (.inr expired))

/-- An input transaction that is signed to live as long as possible. -/
def longLived (byte : UInt8) : PackedTransaction := ⟨Vector.replicate 32 byte, 4294967295, some 1, []⟩

/-- A pool in the first block's second. -/
def freshPool : Mempool := Mempool.new.addTransactionAt (longLived 1) 946684800

theorem held_freshPool : Custody.Held freshPool :=
  ⟨⟨freshPool, []⟩, Relation.ReflTransGen.single (.add _ _), .inl rfl⟩

/-- Two transactions are lent, and a third one arrives meanwhile. -/
def lentPool : Mempool := freshPool.addTransactionAt (longLived 2) 946684800

def arrivedPool : Mempool := lentPool.takeAll.2.addTransactionAt (longLived 3) 946684800

/-- A node that has verified a block with the first one. -/
def verifyingNode (pool : Mempool) : Node Unit Unit Unit :=
  let genesis := genesisNode bareDatabase pool
  { genesis with
    verifiedBlocks := [(Vector.replicate 32 9, { genesis.lastAcceptedBlock with
      transactions := [⟨⟨.executed, 100, 8⟩, .packed (longLived 1)⟩] })] }

theorem finish_buildBlock_lent :
    let batch := lentPool.takeAll.1
    let left := (buildBlock (idleMachine [1]) 0 (fun _ => 0)
      (verifyingNode batch.transactions)).2.mempool
    left.transactionsList = [longLived 1] ∧
      (arrivedPool.finishBatch ⟨left, batch.reservations⟩ 0).transactionsList =
        [longLived 1, longLived 3] := by
  have added : Custody.Reached ⟨lentPool, []⟩ :=
    (Relation.ReflTransGen.single (.add (longLived 1) 946684800)).tail (.add (longLived 2) 946684800)
  have lent : Custody.Reached ⟨arrivedPool, [lentPool.takeAll.1]⟩ :=
    (added.tail .take).tail (.add (longLived 3) 946684800)
  have given : (buildBlock (idleMachine [1]) 0 (fun _ => 0)
      (verifyingNode lentPool.takeAll.1.transactions)).2.mempool.transactionsList =
        [longLived 1] := by
    decide +kernel
  have live : arrivedPool.transactionsList = [longLived 3] := by
    decide +kernel
  refine ⟨given, ?_⟩
  rw [(@finish_buildBlock _ _ _ (idleMachine [1]) (verifyingNode lentPool.takeAll.1.transactions)
    0 (fun _ => 0) _ lent _ [] [] rfl rfl 0).1, given, live]
  rfl

/-- What comes of building the first block with the key of a schedule or another one. -/
def firstBlock (key : PublicKey) (pool : Mempool) : Except ChainError SignedBlock × Node Unit Unit Unit :=
  buildBlock (idleMachine key) 0 (fun _ => 0) (genesisNode bareDatabase pool)

theorem build_accounts_fresh : longLived 1 ∈ freshPool.transactionsList ∧
    ∃ block, (firstBlock [1] freshPool).1 = .ok block ∧ Included block.transactions (longLived 1) := by
  have waiting : longLived 1 ∈ freshPool.transactionsList := by decide
  have noError : ∀ e, (firstBlock [1] freshPool).1 ≠ .error e := by
    have ok : (firstBlock [1] freshPool).1.toOption.isSome := by decide +kernel
    intro e failed
    rw [failed] at ok
    cases ok
  have seals : ¬SealFails (idleMachine [1]) 0 (fun _ => 0) (genesisNode bareDatabase freshPool) := by
    rintro ⟨_, _, _, _, _, _, e, assembles, filled, failed⟩
    apply noError e
    rw [firstBlock, buildBlock, bind_ok assembles]
    dsimp only
    rw [finishBlock, if_neg filled, failed]
  have run : buildBlock (idleMachine [1]) 0 (fun _ => 0) (genesisNode bareDatabase freshPool) =
      ((firstBlock [1] freshPool).1, (firstBlock [1] freshPool).2) := by
    exact Prod.mk.eta.symm
  have accounts := build_accounts (idleMachine [1]) 0 (fun _ => 0) held_freshPool seals run waiting
    (show _ = some 946685100 by decide)
  refine ⟨waiting, ?_⟩
  rcases accounts with waits | included | ⟨failed, log, member, _⟩ |
    ⟨timestamp, ⟨parent, resolved, rfl⟩, over_⟩
  · exact absurd waits (by decide +kernel)
  · exact included
  · have kept : (firstBlock [1] freshPool).2.dropped = [] := by decide +kernel
    rw [kept] at log
    have empty : failed = [] := by simpa [genesisNode] using log.symm
    simp [empty] at member
  · have genesis : parent = 0 := Except.ok.inj resolved.symm
    subst genesis
    exact absurd over_ (by decide +kernel)

/-- A pool with a transaction that came long ago. -/
def stalePool : Mempool := Mempool.new.addTransactionAt (longLived 1) 0

/-- A transaction whose deadline is over leaves the pool: no block is built, the pool is
empty afterwards, and nothing failed. -/
theorem build_loses :
    Custody.Held stalePool ∧ longLived 1 ∈ stalePool.transactionsList ∧
      (firstBlock [1] stalePool).1.toOption.isNone ∧
      (firstBlock [1] stalePool).2.mempool.transactionsList = [] ∧
      (firstBlock [1] stalePool).2.dropped = [] :=
  ⟨⟨⟨stalePool, []⟩, Relation.ReflTransGen.single (.add _ _), .inl rfl⟩, by decide +kernel⟩

end NodeCall

end PulseVM.Controller
