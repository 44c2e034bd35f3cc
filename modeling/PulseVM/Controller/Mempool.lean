import Mathlib
import PulseVM.Lib.Encoding

/-!
The pool of transactions that wait for a block. Builders and verifiers detach the whole
queue as a batch and merge back what is left of it; while a batch is out, its ids stay
reserved, so that nothing is admitted twice and there is room for its return.
-/

namespace PulseVM.Controller
open Lib.Encoding Finset

abbrev Digest := Vector UInt8 32

instance : LawfulBEq Digest := inferInstance

abbrev Id := Digest

/-- A transaction as far as pool and controller look into it. -/
structure PackedTransaction where
  id : Id
  expiration : UInt32
  firstAuthorizer : Option UInt64
  packedTrx : Bytes
  deriving DecidableEq, Repr

inductive MempoolError where
  | full
  deriving DecidableEq, Repr

/-- Deadlines are counted apart from the transactions they belong to: a deadline stands in
`expirationCounts` as often as transactions were recorded with it. -/
structure Mempool where
  transactionsList : List PackedTransaction
  transactionsMap : Finset Id
  reservedIds : Finset Id
  expirationById : Id → Option UInt32
  expirationCounts : Multiset UInt32

/-- A detached queue and the ids that stay reserved for it. -/
structure MempoolBatch where
  transactions : Mempool
  reservations : Finset Id

def maxMempoolSize : Nat := 10000

def defaultMempoolTransactionTtlSecs : Nat := 300

/-- The earlier of the signed expiration and the local lifetime; the sum saturates. -/
def PackedTransaction.deadline (transaction : PackedTransaction) (receivedAt : UInt32) : UInt32 :=
  min transaction.expiration
    (UInt32.ofNat (min (receivedAt.toNat + defaultMempoolTransactionTtlSecs) (2 ^ 32 - 1)))

namespace Mempool

def new : Mempool := ⟨[], ∅, ∅, fun _ => none, 0⟩

def recordExpiration (pool : Mempool) (expiration : UInt32) : Mempool :=
  { pool with expirationCounts := expiration ::ₘ pool.expirationCounts }

def removeExpiration (pool : Mempool) (expiration : UInt32) : Mempool :=
  { pool with expirationCounts := pool.expirationCounts.erase expiration }

/-- Admit a transaction; one that is there or detached is already present. -/
def tryAddTransactionAt (pool : Mempool) (transaction : PackedTransaction) (receivedAt : UInt32) :
    Except MempoolError Bool × Mempool :=
  if transaction.id ∈ pool.reservedIds ∨ transaction.id ∈ pool.transactionsMap then
    (.ok false, pool)
  else if maxMempoolSize ≤ pool.transactionsList.length + pool.reservedIds.card then
    (.error .full, pool)
  else
    let expiration := transaction.deadline receivedAt
    (.ok true, recordExpiration
      { pool with
        transactionsMap := insert transaction.id pool.transactionsMap
        expirationById := Function.update pool.expirationById transaction.id (some expiration)
        transactionsList := pool.transactionsList ++ [transaction] } expiration)

def addTransactionAt (pool : Mempool) (transaction : PackedTransaction) (receivedAt : UInt32) :
    Mempool := (pool.tryAddTransactionAt transaction receivedAt).2

/-- Drop a transaction's id and its deadline, if it has one. -/
def forget (pool : Mempool) (id : Id) : Mempool :=
  let pool' := { pool with
    transactionsMap := pool.transactionsMap.erase id
    expirationById := Function.update pool.expirationById id none }
  match pool.expirationById id with
  | some expiration => pool'.removeExpiration expiration
  | none => pool'

def popTransaction (pool : Mempool) : Option (PackedTransaction × Mempool) :=
  match pool.transactionsList with
  | transaction :: rest =>
    some (transaction, { pool with transactionsList := rest }.forget transaction.id)
  | [] => none

def removeTransaction (pool : Mempool) (id : Id) : Mempool :=
  if ∃ transaction ∈ pool.transactionsList, transaction.id = id then
    { pool with
      transactionsList := pool.transactionsList.eraseP fun transaction => transaction.id = id }.forget id
  else pool

def hasExpired (pool : Mempool) (now : UInt32) : Bool := 0 < pool.expirationCounts.countP (· < now)

def takeAll (pool : Mempool) : MempoolBatch × Mempool :=
  (⟨{ pool with reservedIds := ∅ }, pool.transactionsMap⟩,
    ⟨[], ∅, pool.reservedIds ∪ pool.transactionsMap, fun _ => none, 0⟩)

/-- Put one transaction back in front. Its deadline is counted, but not kept with it. -/
def prependOne (now : UInt32) (state : (Id → Option UInt32) × Mempool)
    (transaction : PackedTransaction) : (Id → Option UInt32) × Mempool :=
  let (byId, pool) := state
  let expiration := (byId transaction.id).getD (transaction.deadline now)
  (Function.update byId transaction.id none,
    if pool.transactionsList.length + pool.reservedIds.card < maxMempoolSize ∧
        transaction.id ∉ pool.transactionsMap then
      recordExpiration
        { pool with
          transactionsMap := insert transaction.id pool.transactionsMap
          transactionsList := transaction :: pool.transactionsList } expiration
    else pool)

/-- Put an older queue in front, last transaction first. -/
def prependMissing (pool older : Mempool) (now : UInt32) : Mempool :=
  (older.transactionsList.reverse.foldl (prependOne now) (older.expirationById, pool)).2

/-- Release the reservations of a batch and merge what is left of it. -/
def finishBatch (pool : Mempool) (batch : MempoolBatch) (now : UInt32) : Mempool :=
  prependMissing { pool with reservedIds := pool.reservedIds \ batch.reservations }
    batch.transactions now

def refreshIndex (pool : Mempool) : Mempool :=
  let ids := (pool.transactionsList.map (·.id)).toFinset
  { pool with
    transactionsMap := ids
    expirationById := fun id => if id ∈ ids then pool.expirationById id else none
    expirationCounts := ids.val.filterMap pool.expirationById }

/-- Whether a transaction has a deadline that is not over. -/
def alive (pool : Mempool) (now : UInt32) (transaction : PackedTransaction) : Bool :=
  ∃ expiration ∈ pool.expirationById transaction.id, now ≤ expiration

def pruneExpired (pool : Mempool) (now : UInt32) : Mempool :=
  if pool.hasExpired now then
    { pool with transactionsList := pool.transactionsList.filter (pool.alive now) }.refreshIndex
  else pool

def prune (pool : Mempool) (pendingIds : Finset Id) : Mempool :=
  { pool with
    transactionsList := pool.transactionsList.filter fun t => t.id ∉ pendingIds }.refreshIndex

/-! What every pool keeps. -/

/-- Each id once, indexed, apart from the reserved ones, and room for all of them. -/
structure Sound (pool : Mempool) : Prop where
  nodup : (pool.transactionsList.map (·.id)).Nodup
  indexed : pool.transactionsMap = (pool.transactionsList.map (·.id)).toFinset
  apart : Disjoint pool.transactionsMap pool.reservedIds
  room : pool.transactionsList.length + pool.reservedIds.card ≤ maxMempoolSize

variable {pool : Mempool}

theorem sound_new : new.Sound := ⟨List.nodup_nil, rfl, by simp [new], by simp [new]⟩

theorem mem_map_iff (sound : pool.Sound) {id : Id} :
    id ∈ pool.transactionsMap ↔ ∃ t ∈ pool.transactionsList, t.id = id := by
  simp [sound.indexed]

@[simp] theorem forget_list (pool : Mempool) (id : Id) :
    (pool.forget id).transactionsList = pool.transactionsList := by
  unfold forget
  split <;> rfl

@[simp] theorem forget_map (pool : Mempool) (id : Id) :
    (pool.forget id).transactionsMap = pool.transactionsMap.erase id := by
  unfold forget
  split <;> rfl

@[simp] theorem forget_reserved (pool : Mempool) (id : Id) :
    (pool.forget id).reservedIds = pool.reservedIds := by
  unfold forget
  split <;> rfl

theorem sound_add (sound : pool.Sound) (transaction : PackedTransaction) (receivedAt : UInt32) :
    (pool.addTransactionAt transaction receivedAt).Sound := by
  unfold addTransactionAt tryAddTransactionAt
  split
  · exact sound
  · rename_i absent
    rw [not_or] at absent
    split
    · exact sound
    · rename_i free
      have fresh : ∀ t ∈ pool.transactionsList, t.id ≠ transaction.id := by
        intro t member same
        exact absent.2 ((mem_map_iff sound).mpr ⟨t, member, same⟩)
      constructor
      · simpa [recordExpiration, List.nodup_append, sound.nodup] using fresh
      · ext id
        simp [recordExpiration, sound.indexed, eq_comm]
      · simp [recordExpiration, sound.apart, absent.1]
      · simp only [recordExpiration, List.length_append, List.length_singleton]
        omega

/-- What is left of a pool when transactions are taken out of it. -/
structure Shrinks (pool rest : Mempool) : Prop where
  fewer : rest.transactionsList.Sublist pool.transactionsList
  indexed : pool.Sound → rest.transactionsMap = (rest.transactionsList.map (·.id)).toFinset
  reserved : rest.reservedIds = pool.reservedIds

theorem Shrinks.refl (pool : Mempool) : pool.Shrinks pool :=
  ⟨List.Sublist.refl _, Sound.indexed, rfl⟩

theorem Shrinks.sound {rest : Mempool} (shrinks : pool.Shrinks rest) (sound : pool.Sound) :
    rest.Sound where
  nodup := sound.nodup.sublist (shrinks.fewer.map _)
  indexed := shrinks.indexed sound
  apart := by
    rw [shrinks.indexed sound, shrinks.reserved]
    apply disjoint_of_subset_left _ sound.apart
    rw [sound.indexed]
    intro id member
    exact List.mem_toFinset.mpr ((shrinks.fewer.map _).subset (List.mem_toFinset.mp member))
  room := by
    have shorter := shrinks.fewer.length_le
    have room := sound.room
    rw [shrinks.reserved]
    omega

theorem popTransaction_shrinks {transaction : PackedTransaction} {rest : Mempool}
    (popped : pool.popTransaction = some (transaction, rest)) : pool.Shrinks rest := by
  obtain ⟨list, map, reserved, byId, counts⟩ := pool
  cases list with
  | nil => cases popped
  | cons head tail =>
    cases popped
    refine ⟨by simp, fun sound => ?_, by simp⟩
    have fresh := (List.nodup_cons.mp sound.nodup).1
    have indexed := sound.indexed
    simp only [List.map_cons, List.toFinset_cons] at indexed
    simp only [forget_map, forget_list]
    rw [indexed, erase_insert (by simpa using fresh)]

theorem refreshIndex_shrinks {list : List PackedTransaction}
    (fewer : list.Sublist pool.transactionsList) :
    pool.Shrinks { pool with transactionsList := list }.refreshIndex := ⟨fewer, fun _ => rfl, rfl⟩

theorem pruneExpired_shrinks (pool : Mempool) (now : UInt32) :
    pool.Shrinks (pool.pruneExpired now) := by
  unfold pruneExpired
  split
  · exact refreshIndex_shrinks List.filter_sublist
  · exact .refl pool

theorem prune_shrinks (pool : Mempool) (pendingIds : Finset Id) :
    pool.Shrinks (pool.prune pendingIds) := refreshIndex_shrinks List.filter_sublist

theorem removeTransaction_shrinks (pool : Mempool) (id : Id) :
    pool.Shrinks (pool.removeTransaction id) := by
  unfold removeTransaction
  split
  · refine ⟨by simpa using List.eraseP_sublist, fun sound => ?_, by simp⟩
    have left : ((pool.transactionsList.eraseP fun t => t.id = id).map (·.id)) =
        (pool.transactionsList.map (·.id)).erase id := by
      rw [List.erase_eq_eraseP, List.eraseP_map]
      congr 2
      funext t
      rw [Bool.eq_iff_iff, Function.comp_apply, beq_iff_eq, decide_eq_true_iff]
      exact eq_comm
    simp only [forget_map, forget_list]
    rw [sound.indexed, left]
    ext other
    simp [sound.nodup.mem_erase_iff]
  · exact .refl pool

/-! Batches. -/

theorem sound_takeAll (sound : pool.Sound) :
    pool.takeAll.1.transactions.Sound ∧ pool.takeAll.2.Sound := by
  have ids : pool.transactionsMap.card = pool.transactionsList.length := by
    rw [sound.indexed, List.toFinset_card_of_nodup sound.nodup, List.length_map]
  have room := sound.room
  constructor
  · exact ⟨sound.nodup, sound.indexed, by simp [takeAll], by simp only [takeAll, card_empty]; omega⟩
  · refine ⟨List.nodup_nil, rfl, by simp [takeAll], ?_⟩
    have sum := card_union_le pool.reservedIds pool.transactionsMap
    simp only [takeAll, List.length_nil]
    omega

/-- A batch that is out: what is left of it is reserved for it. -/
structure Lends (pool : Mempool) (batch : MempoolBatch) : Prop where
  nodup : (batch.transactions.transactionsList.map (·.id)).Nodup
  own : ∀ t ∈ batch.transactions.transactionsList, t.id ∈ batch.reservations
  reserved : batch.reservations ⊆ pool.reservedIds

theorem lends_takeAll (sound : pool.Sound) : pool.takeAll.2.Lends pool.takeAll.1 where
  nodup := sound.nodup
  own t member := (mem_map_iff sound).mpr ⟨t, member, rfl⟩
  reserved := subset_union_right

theorem foldr_prependOne (pool : Mempool) (now : UInt32) (byId : Id → Option UInt32)
    (older : List PackedTransaction) (nodup : (older.map (·.id)).Nodup)
    (fresh : ∀ t ∈ older, t.id ∉ pool.transactionsMap)
    (room : older.length + pool.transactionsList.length + pool.reservedIds.card ≤ maxMempoolSize) :
    let merged := (older.foldr (fun t state => prependOne now state t) (byId, pool)).2
    merged.transactionsList = older ++ pool.transactionsList ∧
      merged.transactionsMap = (older.map (·.id)).toFinset ∪ pool.transactionsMap ∧
      merged.reservedIds = pool.reservedIds := by
  induction older with
  | nil => simp
  | cons t rest ih =>
    obtain ⟨distinct, nodup⟩ := List.nodup_cons.mp nodup
    simp only [List.length_cons] at room
    obtain ⟨list, map, reserved⟩ := ih nodup (fun t member => fresh t (List.mem_cons_of_mem _ member))
      (by omega)
    rw [List.foldr_cons]
    generalize rest.foldr (fun t state => prependOne now state t) (byId, pool) = state at *
    have free : state.2.transactionsList.length + state.2.reservedIds.card < maxMempoolSize := by
      rw [list, reserved, List.length_append]
      omega
    have absent : t.id ∉ state.2.transactionsMap := by
      simpa [map, fresh t List.mem_cons_self] using distinct
    simp only [prependOne, free, absent, not_false_eq_true, and_self, if_true, recordExpiration]
    exact ⟨by rw [list, List.cons_append], by simp [map], reserved⟩

/-- What is left of a batch returns ahead of what came meanwhile, and nothing is displaced. -/
theorem finishBatch_list (sound : pool.Sound) {batch : MempoolBatch} (lends : pool.Lends batch)
    (now : UInt32) :
    (pool.finishBatch batch now).transactionsList =
      batch.transactions.transactionsList ++ pool.transactionsList ∧
      (pool.finishBatch batch now).Sound := by
  have released : (pool.reservedIds \ batch.reservations).card + batch.reservations.card =
      pool.reservedIds.card := card_sdiff_add_card_eq_card lends.reserved
  have fits : batch.transactions.transactionsList.length ≤ batch.reservations.card := by
    have ids := List.toFinset_card_of_nodup lends.nodup
    rw [List.length_map] at ids
    rw [← ids]
    apply card_le_card
    intro id member
    simp only [List.mem_toFinset, List.mem_map] at member
    obtain ⟨t, listed, rfl⟩ := member
    exact lends.own t listed
  have room := sound.room
  have fresh : ∀ t ∈ batch.transactions.transactionsList, t.id ∉ pool.transactionsMap := by
    intro t member inside
    exact disjoint_left.mp sound.apart inside (lends.reserved (lends.own t member))
  obtain ⟨list, map, reserved⟩ := foldr_prependOne
    { pool with reservedIds := pool.reservedIds \ batch.reservations } now
    batch.transactions.expirationById batch.transactions.transactionsList lends.nodup fresh
    (by dsimp only; omega)
  have merged : (batch.transactions.transactionsList.foldr (fun t state => prependOne now state t)
      (batch.transactions.expirationById,
        { pool with reservedIds := pool.reservedIds \ batch.reservations })).2 =
      pool.finishBatch batch now := by
    rw [finishBatch, prependMissing, List.foldl_reverse]
  rw [merged] at list map reserved
  refine ⟨list, ?_⟩
  constructor
  · rw [list, List.map_append, List.nodup_append]
    refine ⟨lends.nodup, sound.nodup, ?_⟩
    intro a first b second same
    obtain ⟨t, listed, rfl⟩ := List.mem_map.mp first
    exact fresh t listed (by rw [sound.indexed, List.mem_toFinset]; exact same ▸ second)
  · rw [list, map, List.map_append, List.toFinset_append, sound.indexed]
  · rw [map, reserved, disjoint_union_left]
    constructor
    · rw [disjoint_left]
      intro id member
      simp only [List.mem_toFinset, List.mem_map] at member
      obtain ⟨t, listed, rfl⟩ := member
      simp [lends.own t listed]
    · exact disjoint_of_subset_right sdiff_subset sound.apart
  · rw [list, reserved, List.length_append]
    dsimp only
    omega

@[simp] theorem addTransactionAt_reserved (pool : Mempool) (t : PackedTransaction)
    (receivedAt : UInt32) : (pool.addTransactionAt t receivedAt).reservedIds = pool.reservedIds := by
  unfold addTransactionAt tryAddTransactionAt
  split_ifs <;> rfl

theorem finishBatch_reserved (pool : Mempool) (batch : MempoolBatch) (now : UInt32) :
    (pool.finishBatch batch now).reservedIds = pool.reservedIds \ batch.reservations := by
  suffices unchanged : ∀ (older : List PackedTransaction) (state : (Id → Option UInt32) × Mempool),
      (older.foldl (prependOne now) state).2.reservedIds = state.2.reservedIds from unchanged _ _
  intro older
  induction older with
  | nil => exact fun _ => rfl
  | cons t rest ih =>
    intro state
    rw [List.foldl_cons, ih]
    unfold prependOne
    dsimp only
    split_ifs <;> rfl

theorem Lends.mono {other : Mempool} {batch : MempoolBatch} (lends : pool.Lends batch)
    (more : pool.reservedIds ⊆ other.reservedIds) : other.Lends batch :=
  ⟨lends.nodup, lends.own, lends.reserved.trans more⟩

end Mempool

/-! The shared pool and the batches that are out at the same time. -/

structure Custody where
  live : Mempool
  batches : List MempoolBatch

namespace Custody

/-- Blocks are built and verified on batches while the shared pool goes on. Whoever holds a
batch may leave any part of it behind. -/
inductive Step (c : Custody) : Custody → Prop
  | add (t : PackedTransaction) (receivedAt : UInt32) :
    Step c { c with live := c.live.addTransactionAt t receivedAt }
  | pop {t : PackedTransaction} {rest : Mempool} (popped : c.live.popTransaction = some (t, rest)) :
    Step c { c with live := rest }
  | remove (id : Id) : Step c { c with live := c.live.removeTransaction id }
  | prune (ids : Finset Id) : Step c { c with live := c.live.prune ids }
  | pruneExpired (now : UInt32) : Step c { c with live := c.live.pruneExpired now }
  | take : Step c ⟨c.live.takeAll.2, c.live.takeAll.1 :: c.batches⟩
  | work {batch : MempoolBatch} {front back : List MempoolBatch} {left : Mempool}
    (out : c.batches = front ++ batch :: back) (sound : left.Sound)
    (part : left.transactionsList ⊆ batch.transactions.transactionsList) :
    Step c ⟨c.live, front ++ ⟨left, batch.reservations⟩ :: back⟩
  | finish {batch : MempoolBatch} {front back : List MempoolBatch} (now : UInt32)
    (out : c.batches = front ++ batch :: back) :
    Step c ⟨c.live.finishBatch batch now, front ++ back⟩

/-- What can come of an empty pool. -/
def Reached (c : Custody) : Prop := Relation.ReflTransGen (fun a b => Step a b) ⟨Mempool.new, []⟩ c

/-- Every pool is sound, and the batches are lent from disjoint parts of what is reserved. -/
structure Fair (c : Custody) : Prop where
  live : c.live.Sound
  lent : ∀ batch ∈ c.batches, batch.transactions.Sound ∧ c.live.Lends batch
  apart : c.batches.Pairwise fun a b => Disjoint a.reservations b.reservations

variable {c c' : Custody}

/-- A sound pool with the same reservations can take the place of the shared one. -/
theorem Fair.swap (fair : Fair c) {live : Mempool} (sound : live.Sound)
    (reserved : live.reservedIds = c.live.reservedIds) : Fair { c with live := live } where
  live := sound
  lent batch out := ⟨(fair.lent batch out).1, (fair.lent batch out).2.mono reserved.ge⟩
  apart := fair.apart

theorem Fair.shrink (fair : Fair c) {live : Mempool} (shrinks : c.live.Shrinks live) :
    Fair { c with live := live } := fair.swap (shrinks.sound fair.live) shrinks.reserved

theorem Fair.take (fair : Fair c) : Fair ⟨c.live.takeAll.2, c.live.takeAll.1 :: c.batches⟩ := by
  obtain ⟨batchSound, liveSound⟩ := Mempool.sound_takeAll fair.live
  refine ⟨liveSound, ?_, List.pairwise_cons.mpr ⟨?_, fair.apart⟩⟩
  · intro batch out
    rcases List.mem_cons.mp out with rfl | older
    · exact ⟨batchSound, Mempool.lends_takeAll fair.live⟩
    · exact ⟨(fair.lent batch older).1, (fair.lent batch older).2.mono subset_union_left⟩
  · intro batch older
    exact disjoint_of_subset_right (fair.lent batch older).2.reserved fair.live.apart

/-- Whoever holds a batch may go on with another pool of transactions reserved for it. -/
theorem Fair.hold (fair : Fair c) {batch : MempoolBatch} {front back : List MempoolBatch}
    {left : Mempool} (out : c.batches = front ++ batch :: back) (sound : left.Sound)
    (own : ∀ t ∈ left.transactionsList, t.id ∈ batch.reservations) :
    Fair ⟨c.live, front ++ ⟨left, batch.reservations⟩ :: back⟩ := by
  have lends := (fair.lent batch (by simp [out])).2
  refine ⟨fair.live, ?_, ?_⟩
  · intro other member
    simp only [List.mem_append, List.mem_cons] at member
    rcases member with before | rfl | after
    · exact fair.lent other (by simp [out, before])
    · exact ⟨sound, sound.nodup, own, lends.reserved⟩
    · exact fair.lent other (by simp [out, after])
  · have apart := fair.apart
    rw [out] at apart
    simpa [List.pairwise_append, List.pairwise_cons] using apart

theorem Fair.finish (fair : Fair c) {batch : MempoolBatch} {front back : List MempoolBatch}
    (now : UInt32) (out : c.batches = front ++ batch :: back) :
    Fair ⟨c.live.finishBatch batch now, front ++ back⟩ := by
  have lends := (fair.lent batch (by simp [out])).2
  have apart := fair.apart
  rw [out] at apart
  refine ⟨(Mempool.finishBatch_list fair.live lends now).2, ?_, ?_⟩
  · intro other member
    have still : other ∈ c.batches := by
      simp only [out, List.mem_append, List.mem_cons] at member ⊢
      tauto
    obtain ⟨sound, nodup, own, reserved⟩ := fair.lent other still
    refine ⟨sound, nodup, own, ?_⟩
    rw [Mempool.finishBatch_reserved]
    apply subset_sdiff.mpr ⟨reserved, ?_⟩
    rcases List.mem_append.mp member with before | after
    · exact (List.pairwise_append.mp apart).2.2 other before batch List.mem_cons_self
    · have tail := (List.pairwise_append.mp apart).2.1
      exact ((List.pairwise_cons.mp tail).1 other after).symm
  · exact apart.sublist ((List.sublist_cons_self batch back).append_left front)

theorem Step.fair (step : Step c c') (fair : Fair c) : Fair c' := by
  cases step with
  | add t receivedAt => exact fair.swap (Mempool.sound_add fair.live t receivedAt) (by simp)
  | pop popped => exact fair.shrink (Mempool.popTransaction_shrinks popped)
  | remove id => exact fair.shrink (c.live.removeTransaction_shrinks id)
  | prune ids => exact fair.shrink (c.live.prune_shrinks ids)
  | pruneExpired now => exact fair.shrink (c.live.pruneExpired_shrinks now)
  | take => exact fair.take
  | @work batch _ _ _ out sound part =>
    have lends := (fair.lent batch (by simp [out])).2
    exact fair.hold out sound fun t waits => lends.own t (part waits)
  | finish now out => exact fair.finish now out

theorem Reached.fair (reached : Reached c) : Fair c := by
  induction reached with
  | refl => exact ⟨Mempool.sound_new, by simp, List.Pairwise.nil⟩
  | tail _ step ih => exact step.fair ih

/-- In every run, what is left of a batch comes back in front of the shared pool. -/
theorem finish_returns (reached : Reached c) {batch : MempoolBatch} (out : batch ∈ c.batches)
    (now : UInt32) : (c.live.finishBatch batch now).transactionsList =
      batch.transactions.transactionsList ++ c.live.transactionsList :=
  (Mempool.finishBatch_list reached.fair.live (reached.fair.lent batch out).2 now).1

/-- The pools that a caller can hold: the shared one, or the one of a batch. -/
def Held (pool : Mempool) : Prop :=
  ∃ c, Reached c ∧ (pool = c.live ∨ ∃ batch ∈ c.batches, pool = batch.transactions)

theorem Held.sound {pool : Mempool} (held : Held pool) : pool.Sound := by
  obtain ⟨c, reached, rfl | ⟨batch, out, rfl⟩⟩ := held
  · exact reached.fair.live
  · exact (reached.fair.lent batch out).1

end Custody

end PulseVM.Controller
