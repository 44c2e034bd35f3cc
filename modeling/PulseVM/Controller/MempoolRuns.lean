import PulseVM.Controller.Mempool

/-!
Runs of the pool with any number of batches out. Besides the pool itself a run remembers
when each transaction was first received, what each batch was taken with and which of it has
left the batch since.
-/

namespace PulseVM.Controller

/-- The calls that take transactions out of a pool. -/
inductive Call where
  | pop
  | remove (id : Id)
  | prune (pendingIds : Finset Id)
  | pruneExpired (now : UInt32)

namespace Mempool

def serve (pool : Mempool) : Call → Mempool
  | .pop => (pool.popTransaction.map (·.2)).getD pool
  | .remove id => pool.removeTransaction id
  | .prune pendingIds => pool.prune pendingIds
  | .pruneExpired now => pool.pruneExpired now

variable {pool : Mempool}

theorem serve_shrinks (pool : Mempool) (call : Call) : pool.Shrinks (pool.serve call) := by
  cases call with
  | pop =>
    cases popped : pool.popTransaction with
    | none => simpa [serve, popped] using Shrinks.refl pool
    | some parts => simpa [serve, popped] using popTransaction_shrinks popped
  | remove id => exact removeTransaction_shrinks pool id
  | prune pendingIds => exact prune_shrinks pool pendingIds
  | pruneExpired now => exact pruneExpired_shrinks pool now

theorem addTransactionAt_sublist (pool : Mempool) (t : PackedTransaction) (receivedAt : UInt32) :
    pool.transactionsList.Sublist (pool.addTransactionAt t receivedAt).transactionsList := by
  unfold addTransactionAt tryAddTransactionAt
  split_ifs
  · exact List.Sublist.refl _
  · exact List.Sublist.refl _
  · exact List.sublist_append_left _ _

theorem addTransactionAt_subset (pool : Mempool) (t : PackedTransaction) (receivedAt : UInt32) :
    ∀ u ∈ (pool.addTransactionAt t receivedAt).transactionsList,
      u = t ∨ u ∈ pool.transactionsList := by
  unfold addTransactionAt tryAddTransactionAt
  split_ifs <;> simp [recordExpiration] <;> tauto

theorem tryAddTransactionAt_refused (pool : Mempool) (t : PackedTransaction) (receivedAt : UInt32)
    (refused : (pool.tryAddTransactionAt t receivedAt).1 ≠ .ok true) :
    (pool.tryAddTransactionAt t receivedAt).2 = pool := by
  unfold tryAddTransactionAt at refused ⊢
  split_ifs at refused ⊢
  · rfl
  · rfl
  · exact absurd rfl refused

/-! Deadlines. -/

/-- The deadlines kept in the pool are those of its transactions. -/
structure Dated (pool : Mempool) (due : PackedTransaction → UInt32) : Prop where
  kept : ∀ t ∈ pool.transactionsList, pool.expirationById t.id = some (due t)
  counted : pool.expirationCounts = (pool.transactionsList.map due : Multiset UInt32)

variable {due : PackedTransaction → UInt32}

theorem Dated.hasExpired_iff (dated : pool.Dated due) (now : UInt32) :
    pool.hasExpired now ↔ ∃ t ∈ pool.transactionsList, due t < now := by
  simp [hasExpired, dated.counted]

theorem Dated.pruneExpired_list (dated : pool.Dated due) (now : UInt32) :
    (pool.pruneExpired now).transactionsList =
      pool.transactionsList.filter fun t => now ≤ due t := by
  have same : pool.transactionsList.filter (pool.alive now) =
      pool.transactionsList.filter fun t => now ≤ due t := by
    apply List.filter_congr
    intro t waits
    simp [alive, dated.kept t waits]
  unfold pruneExpired
  split
  · exact same
  · next fresh =>
    rw [dated.hasExpired_iff] at fresh
    push Not at fresh
    exact (List.filter_eq_self.mpr fun t waits => by simpa using fresh t waits).symm

theorem dated_new : new.Dated due := ⟨by simp [new], rfl⟩

/-- Rebuilding the indices for a part of the queue keeps the deadlines of that part. -/
theorem dated_refresh {list : List PackedTransaction} (sound : pool.Sound) (dated : pool.Dated due)
    (fewer : list.Sublist pool.transactionsList) :
    ({ pool with transactionsList := list }.refreshIndex).Dated due := by
  have nodup : (list.map (·.id)).Nodup := sound.nodup.sublist (fewer.map _)
  have kept : ∀ t ∈ list, pool.expirationById t.id = some (due t) :=
    fun t waits => dated.kept t (fewer.subset waits)
  constructor
  · intro t waits
    have known : ∃ u ∈ list, u.id = t.id := ⟨t, waits, rfl⟩
    simp only [refreshIndex, List.mem_toFinset, List.mem_map, if_pos known]
    exact kept t waits
  · have counts : list.filterMap (fun t => pool.expirationById t.id) = list.map due := by
      rw [← List.filterMap_eq_map]
      exact List.filterMap_congr kept
    simp only [refreshIndex, List.toFinset_val, nodup.dedup, Multiset.filterMap_coe,
      List.filterMap_map]
    exact congrArg _ counts

theorem dated_forget (front back : List PackedTransaction) {t : PackedTransaction}
    (nodup : (pool.transactionsList.map (·.id)).Nodup) (dated : pool.Dated due)
    (list : pool.transactionsList = front ++ t :: back) :
    ({ pool with transactionsList := front ++ back }.forget t.id).Dated due := by
  have known : pool.expirationById t.id = some (due t) := dated.kept t (by simp [list])
  have counts := dated.counted
  rw [list] at counts nodup
  simp only [List.map_append, List.map_cons, List.nodup_middle, List.nodup_cons,
    List.mem_append, List.mem_map] at nodup
  simp only [forget, known, removeExpiration]
  constructor
  · intro u waits
    dsimp only at waits ⊢
    have other : u.id ≠ t.id := by
      intro same
      apply nodup.1
      rcases List.mem_append.mp waits with before | after
      · exact .inl ⟨u, before, same⟩
      · exact .inr ⟨u, after, same⟩
    rw [Function.update_of_ne other]
    apply dated.kept u
    simp only [list, List.mem_append, List.mem_cons] at waits ⊢
    tauto
  · simp only [counts, List.map_append, List.map_cons, Multiset.coe_erase]
    apply Multiset.coe_eq_coe.mpr
    have moved : (front.map due ++ due t :: back.map due).Perm
        (due t :: (front.map due ++ back.map due)) := List.perm_middle
    simpa using moved.erase (due t)

theorem dated_serve (sound : pool.Sound) (dated : pool.Dated due) (call : Call) :
    (pool.serve call).Dated due := by
  cases call with
  | pop =>
    simp only [serve, popTransaction]
    split
    · next t rest waits =>
      exact dated_forget [] rest sound.nodup dated waits
    · exact dated
  | remove id =>
    simp only [serve, removeTransaction]
    split
    · next there =>
      obtain ⟨t, waits, same⟩ := there
      obtain ⟨u, front, back, -, found, list, rest⟩ :=
        List.exists_of_eraseP (p := fun t => t.id = id) waits (by simpa using same)
      have own : u.id = id := by simpa using found
      rw [rest, ← own]
      exact dated_forget front back sound.nodup dated list
    · exact dated
  | prune pendingIds => exact dated_refresh sound dated List.filter_sublist
  | pruneExpired now =>
    simp only [serve, pruneExpired]
    split
    · exact dated_refresh sound dated List.filter_sublist
    · exact dated

/-- An admitted transaction brings its deadline; those that wait have other ids. -/
theorem dated_add (sound : pool.Sound) {due' : PackedTransaction → UInt32} {t : PackedTransaction}
    {receivedAt : UInt32} {live : Mempool} (dated : pool.Dated due)
    (own : due' t = t.deadline receivedAt) (others : ∀ u, u.id ≠ t.id → due' u = due u)
    (admitted : pool.tryAddTransactionAt t receivedAt = (.ok true, live)) : live.Dated due' := by
  unfold tryAddTransactionAt at admitted
  split at admitted
  · simp at admitted
  · next absent =>
    rw [not_or] at absent
    split at admitted
    · simp at admitted
    · have list := (Prod.mk.inj admitted).2
      subst list
      have fresh : ∀ u ∈ pool.transactionsList, u.id ≠ t.id :=
        fun u waits same => absent.2 ((mem_map_iff sound).mpr ⟨u, waits, same⟩)
      have same : pool.transactionsList.map due' = pool.transactionsList.map due :=
        List.map_congr_left fun u waits => others u (fresh u waits)
      constructor
      · intro u waits
        simp only [recordExpiration, List.mem_append, List.mem_singleton] at waits ⊢
        rcases waits with older | rfl
        · rw [Function.update_of_ne (fresh u older), others u (fresh u older)]
          exact dated.kept u older
        · rw [Function.update_self, own]
      · simp only [recordExpiration, dated.counted, List.map_append, same, own, List.map_cons,
          List.map_nil, Multiset.cons_coe]
        exact Multiset.coe_eq_coe.mpr (List.perm_append_singleton _ _).symm

end Mempool

open Mempool

/-- A batch that is out, what it was taken with, and the ids that left it at some time. -/
structure Lot where
  batch : MempoolBatch
  taken : List PackedTransaction
  gone : Finset Id

namespace Lot

/-- The holder of a batch goes on with another pool in its place. -/
def hold (lot : Lot) (pool : Mempool) : Lot where
  batch := { lot.batch with transactions := pool }
  taken := lot.taken
  gone := lot.gone ∪ (lot.batch.transactions.transactionsMap \ pool.transactionsMap)

def stayed (lot : Lot) : List PackedTransaction := lot.taken.filter fun t => t.id ∉ lot.gone

end Lot

structure Ledger where
  live : Mempool
  lots : List Lot
  received : Id → UInt32

inductive Op where
  | add (transaction : PackedTransaction) (receivedAt : UInt32)
  | call (call : Call)
  | take
  /-- A batch is a pool of its own to the block that works on it. -/
  | work (index : Nat) (call : Call)
  /-- A block puts a transaction back that it has popped from its batch. -/
  | putBack (index : Nat) (transaction : PackedTransaction) (receivedAt : UInt32)
  | finish (index : Nat) (now : UInt32)

namespace Ledger

def new : Ledger := ⟨Mempool.new, [], fun _ => 0⟩

def step (ledger : Ledger) : Op → Ledger
  | .add transaction receivedAt =>
    match ledger.live.tryAddTransactionAt transaction receivedAt with
    | (.ok true, live) =>
      { ledger with
        live
        received := Function.update ledger.received transaction.id receivedAt }
    | (_, live) => { ledger with live }
  | .call call => { ledger with live := ledger.live.serve call }
  | .take =>
    { ledger with
      live := ledger.live.takeAll.2
      lots := ⟨ledger.live.takeAll.1, ledger.live.transactionsList, ∅⟩ :: ledger.lots }
  | .work index call =>
    { ledger with
      lots := ledger.lots.modify index fun lot => lot.hold (lot.batch.transactions.serve call) }
  | .putBack index transaction receivedAt =>
    { ledger with
      lots := ledger.lots.modify index fun lot =>
        if transaction.id ∈ lot.batch.reservations then
          lot.hold (lot.batch.transactions.addTransactionAt transaction receivedAt)
        else lot }
  | .finish index now =>
    match ledger.lots[index]? with
    | some lot =>
      { ledger with
        live := ledger.live.finishBatch lot.batch now
        lots := ledger.lots.eraseIdx index }
    | none => ledger

def run (ops : List Op) : Ledger := ops.foldl step new

def custody (ledger : Ledger) : Custody := ⟨ledger.live, ledger.lots.map (·.batch)⟩

/-- When the pool has to give a transaction up. -/
def due (ledger : Ledger) (transaction : PackedTransaction) : UInt32 :=
  transaction.deadline (ledger.received transaction.id)

structure Kept (ledger : Ledger) : Prop where
  fair : ledger.custody.Fair
  ordered : ∀ lot ∈ ledger.lots, lot.stayed.Sublist lot.batch.transactions.transactionsList

variable {ledger : Ledger}

/-- The place of an entry, and what becomes of the list when it is changed or taken out. -/
theorem exists_split {α : Type*} {list : List α} {index : Nat} {a : α}
    (there : list[index]? = some a) :
    ∃ front back, list = front ++ a :: back ∧ list.eraseIdx index = front ++ back ∧
      ∀ f, list.modify index f = front ++ f a :: back := by
  induction list generalizing index with
  | nil => simp at there
  | cons head tail ih =>
    cases index with
    | zero =>
      simp only [List.getElem?_cons_zero, Option.some.injEq] at there
      subst there
      exact ⟨[], tail, rfl, rfl, fun f => rfl⟩
    | succ index =>
      obtain ⟨front, back, list, erased, modified⟩ := ih there
      refine ⟨head :: front, back, by rw [list]; rfl, ?_, fun f => ?_⟩
      · rw [List.eraseIdx_cons_succ, erased, List.cons_append]
      · rw [List.modify_succ_cons, modified, List.cons_append]

theorem Kept.modify (kept : Kept ledger) (index : Nat) (f : Lot → Lot)
    (same : ∀ lot, (f lot).batch.reservations = lot.batch.reservations)
    (sound : ∀ lot ∈ ledger.lots, (f lot).batch.transactions.Sound)
    (own : ∀ lot ∈ ledger.lots, ∀ t ∈ (f lot).batch.transactions.transactionsList,
      t.id ∈ lot.batch.reservations)
    (ordered : ∀ lot ∈ ledger.lots,
      (f lot).stayed.Sublist (f lot).batch.transactions.transactionsList) :
    Kept { ledger with lots := ledger.lots.modify index f } := by
  cases there : ledger.lots[index]? with
  | none => rwa [List.modify_eq_self (List.getElem?_eq_none_iff.mp there)]
  | some lot =>
    obtain ⟨front, back, list, -, modified⟩ := exists_split there
    have member : lot ∈ ledger.lots := by simp [list]
    rw [modified f]
    constructor
    · have out : ledger.custody.batches =
          front.map (·.batch) ++ lot.batch :: back.map (·.batch) := by simp [custody, list]
      have fair := kept.fair.hold out (sound lot member) (own lot member)
      simpa [custody, ← same lot] using fair
    · intro other out
      simp only [List.mem_append, List.mem_cons] at out
      rcases out with before | rfl | after
      · exact kept.ordered other (by simp [list, before])
      · exact ordered lot member
      · exact kept.ordered other (by simp [list, after])

theorem filter_of_sublist {α κ : Type*} [DecidableEq κ] {key : α → κ} {list part : List α}
    (shorter : part.Sublist list) (nodup : (list.map key).Nodup) :
    (list.filter fun a => key a ∈ part.map key) = part := by
  induction shorter with
  | slnil => rfl
  | @cons part tail head fewer ih =>
    obtain ⟨distinct, nodup⟩ := List.nodup_cons.mp nodup
    have absent : key head ∉ part.map key := fun inside => distinct ((fewer.map key).subset inside)
    rw [List.filter_cons_of_neg (by simpa using absent)]
    exact ih nodup
  | @cons_cons part tail head fewer ih =>
    obtain ⟨distinct, nodup⟩ := List.nodup_cons.mp nodup
    rw [List.filter_cons_of_pos (by simp)]
    congr 1
    apply Eq.trans (List.filter_congr _) (ih nodup)
    intro a member
    have other : key a ≠ key head :=
      fun same => distinct (same ▸ List.mem_map_of_mem member)
    simp [other]

theorem stayed_hold_shrunk {lot : Lot} {pool : Mempool} (sound : lot.batch.transactions.Sound)
    (shrinks : lot.batch.transactions.Shrinks pool)
    (ordered : lot.stayed.Sublist lot.batch.transactions.transactionsList) :
    (lot.hold pool).stayed.Sublist pool.transactionsList := by
  have later : (lot.hold pool).stayed.Sublist (lot.stayed.filter fun t =>
      t.id ∉ lot.batch.transactions.transactionsMap \ pool.transactionsMap) := by
    rw [Lot.stayed, Lot.stayed, List.filter_filter]
    apply List.monotone_filter_right
    intro t
    simp [Lot.hold]
    tauto
  have left : (lot.batch.transactions.transactionsList.filter fun t =>
      t.id ∉ lot.batch.transactions.transactionsMap \ pool.transactionsMap) =
      pool.transactionsList := by
    apply Eq.trans (List.filter_congr _) (filter_of_sublist shrinks.fewer sound.nodup)
    intro t waits
    have known : t.id ∈ lot.batch.transactions.transactionsMap :=
      (mem_map_iff sound).mpr ⟨t, waits, rfl⟩
    simp [known, shrinks.indexed sound]
  rw [← left]
  exact later.trans (ordered.filter _)

theorem stayed_hold_grown {lot : Lot} {pool : Mempool}
    (longer : lot.batch.transactions.transactionsList.Sublist pool.transactionsList)
    (ordered : lot.stayed.Sublist lot.batch.transactions.transactionsList) :
    (lot.hold pool).stayed.Sublist pool.transactionsList := by
  have later : (lot.hold pool).stayed.Sublist lot.stayed := by
    apply List.monotone_filter_right
    intro t
    simp only [Lot.hold, Finset.mem_union, decide_eq_true_iff]
    exact fun apart inside => apart (.inl inside)
  exact (later.trans ordered).trans longer

theorem kept_new : Kept new :=
  ⟨⟨sound_new, by simp [custody, new], List.Pairwise.nil⟩, by simp [new]⟩

theorem Kept.swap (kept : Kept ledger) {live : Mempool} (sound : live.Sound)
    (reserved : live.reservedIds = ledger.live.reservedIds) (received : Id → UInt32) :
    Kept { ledger with live := live, received := received } :=
  ⟨kept.fair.swap sound reserved, kept.ordered⟩

theorem Kept.lent (kept : Kept ledger) {lot : Lot} (out : lot ∈ ledger.lots) :
    lot.batch.transactions.Sound ∧ ledger.live.Lends lot.batch :=
  kept.fair.lent lot.batch (List.mem_map_of_mem out)

theorem Kept.step (kept : Kept ledger) (op : Op) : Kept (ledger.step op) := by
  cases op with
  | add transaction receivedAt =>
    have sound : (ledger.live.addTransactionAt transaction receivedAt).Sound :=
      sound_add kept.fair.live transaction receivedAt
    have reserved := ledger.live.addTransactionAt_reserved transaction receivedAt
    unfold addTransactionAt at sound reserved
    unfold Ledger.step
    dsimp only
    generalize ledger.live.tryAddTransactionAt transaction receivedAt = answer at sound reserved
    obtain ⟨result, live⟩ := answer
    split
    · next admitted =>
      cases admitted
      exact kept.swap sound reserved _
    · next refused =>
      cases refused
      exact kept.swap sound reserved _
  | call call =>
    have served := ledger.live.serve_shrinks call
    exact kept.swap (served.sound kept.fair.live) served.reserved _
  | take =>
    refine ⟨kept.fair.take, ?_⟩
    intro lot out
    rcases List.mem_cons.mp out with rfl | older
    · exact List.filter_sublist
    · exact kept.ordered lot older
  | work index call =>
    apply kept.modify index
    · exact fun lot => rfl
    · exact fun lot out => (serve_shrinks _ call).sound (kept.lent out).1
    · intro lot out t waits
      exact (kept.lent out).2.own t ((serve_shrinks _ call).fewer.subset waits)
    · intro lot out
      exact stayed_hold_shrunk (kept.lent out).1 (serve_shrinks _ call)
        (kept.ordered lot out)
  | putBack index transaction receivedAt =>
    apply kept.modify index
    · intro lot
      split_ifs <;> rfl
    · intro lot out
      split_ifs
      · exact sound_add (kept.lent out).1 transaction receivedAt
      · exact (kept.lent out).1
    · intro lot out t waits
      split_ifs at waits with own
      · rcases addTransactionAt_subset _ _ _ t waits with rfl | older
        · exact own
        · exact (kept.lent out).2.own t older
      · exact (kept.lent out).2.own t waits
    · intro lot out
      split_ifs
      · exact stayed_hold_grown (addTransactionAt_sublist _ _ _) (kept.ordered lot out)
      · exact kept.ordered lot out
  | finish index now =>
    unfold Ledger.step
    dsimp only
    split
    · next lot there =>
      obtain ⟨front, back, list, erased, -⟩ := exists_split there
      have out : ledger.custody.batches =
          front.map (·.batch) ++ lot.batch :: back.map (·.batch) := by simp [custody, list]
      constructor
      · simpa [custody, erased] using kept.fair.finish now out
      · intro other member
        exact kept.ordered other (List.mem_of_mem_eraseIdx member)
    · exact kept

theorem kept_run (ops : List Op) : Kept (run ops) := by
  suffices from_any : ∀ ledger, Kept ledger → Kept (ops.foldl step ledger) from
    from_any new kept_new
  induction ops with
  | nil => exact fun _ kept => kept
  | cons op ops ih => exact fun ledger kept => ih _ (kept.step op)

/-- Whatever is admitted, taken out, detached and returned in whatever order: no id waits
twice or waits while it is detached, there is room for all, and a batch returns whole, ahead
of the pool, with what never left it in the order it was taken. -/
theorem detached_return (ops : List Op) :
    ((run ops).live.transactionsList.map (·.id)).Nodup ∧
    (∀ t ∈ (run ops).live.transactionsList, t.id ∉ (run ops).live.reservedIds ∧
      ∀ lot ∈ (run ops).lots, ∀ u ∈ lot.batch.transactions.transactionsList, t.id ≠ u.id) ∧
    (run ops).live.transactionsList.length + (run ops).live.reservedIds.card ≤ maxMempoolSize ∧
    ∀ lot ∈ (run ops).lots, ∀ now,
      ((run ops).live.finishBatch lot.batch now).transactionsList =
        lot.batch.transactions.transactionsList ++ (run ops).live.transactionsList ∧
      lot.stayed.Sublist lot.batch.transactions.transactionsList := by
  have kept := kept_run ops
  have live := kept.fair.live
  have apart : ∀ t ∈ (run ops).live.transactionsList, t.id ∉ (run ops).live.reservedIds :=
    fun t waits reserved => Finset.disjoint_left.mp live.apart
      ((mem_map_iff live).mpr ⟨t, waits, rfl⟩) reserved
  refine ⟨live.nodup, fun t waits => ⟨apart t waits, ?_⟩, live.room, fun lot out now => ⟨?_, ?_⟩⟩
  · intro lot out u detached same
    have lends := (kept.lent out).2
    exact apart t waits (same ▸ lends.reserved (lends.own u detached))
  · exact (finishBatch_list live (kept.lent out).2 now).1
  · exact kept.ordered lot out

/-! Deadlines hold as long as nothing is returned. -/

/-- An operation that returns no transaction to the pool. -/
def ReturnsNothing (ledger : Ledger) : Op → Prop
  | .finish index _ =>
    ∀ lot ∈ ledger.lots[index]?, lot.batch.transactions.transactionsList = []
  | _ => True

/-- Every batch that a run finishes is empty by then. -/
def FinishesEmpty (ledger : Ledger) : List Op → Prop
  | [] => True
  | op :: ops => ledger.ReturnsNothing op ∧ FinishesEmpty (ledger.step op) ops

instance (ledger : Ledger) (op : Op) : Decidable (ledger.ReturnsNothing op) :=
  match op with
  | .finish index _ => inferInstanceAs
    (Decidable (∀ lot ∈ ledger.lots[index]?, lot.batch.transactions.transactionsList = []))
  | .add _ _ | .call _ | .take | .work _ _ | .putBack _ _ _ => inferInstanceAs (Decidable True)

instance FinishesEmpty.decidable : ∀ (ops : List Op) (ledger : Ledger),
    Decidable (ledger.FinishesEmpty ops)
  | [], _ => inferInstanceAs (Decidable True)
  | op :: ops, ledger =>
    haveI := FinishesEmpty.decidable ops (ledger.step op)
    inferInstanceAs (Decidable (ledger.ReturnsNothing op ∧ (ledger.step op).FinishesEmpty ops))

theorem dated_step (kept : Kept ledger) (dated : ledger.live.Dated ledger.due) {op : Op}
    (nothing : ledger.ReturnsNothing op) : (ledger.step op).live.Dated (ledger.step op).due := by
  cases op with
  | add transaction receivedAt =>
    unfold Ledger.step
    dsimp only
    split
    · next live admitted =>
      apply dated_add kept.fair.live dated _ _ admitted
      · simp [due]
      · intro u other
        simp [due, Function.update_of_ne other]
    · next result live refused answer =>
      have unchanged := tryAddTransactionAt_refused ledger.live transaction receivedAt
      rw [answer] at unchanged
      have same : live = ledger.live := unchanged refused
      rw [same]
      exact dated
  | call call => exact dated_serve kept.fair.live dated call
  | take => exact ⟨by simp [Ledger.step, takeAll], rfl⟩
  | work index call => exact dated
  | putBack index transaction receivedAt => exact dated
  | finish index now =>
    unfold Ledger.step
    dsimp only
    split
    · next lot there =>
      have empty := nothing lot there
      have same : ledger.live.finishBatch lot.batch now =
          { ledger.live with
            reservedIds := ledger.live.reservedIds \ lot.batch.reservations } := by
        simp [finishBatch, prependMissing, empty]
      rw [same]
      exact ⟨dated.kept, dated.counted⟩
    · exact dated

theorem dated_run {ops : List Op} (empty : FinishesEmpty new ops) :
    (run ops).live.Dated (run ops).due := by
  suffices from_any : ∀ ledger, Kept ledger → ledger.live.Dated ledger.due →
      FinishesEmpty ledger ops →
      (ops.foldl step ledger).live.Dated (ops.foldl step ledger).due from
    from_any new kept_new dated_new empty
  clear empty
  induction ops with
  | nil => exact fun _ _ dated _ => dated
  | cons op ops ih =>
    exact fun ledger kept dated empty =>
      ih _ (kept.step op) (dated_step kept dated empty.1) empty.2

/-- While every finished batch is empty, the pool knows when something is due and gives up
exactly what is due. -/
theorem expiry_of_finishesEmpty (ops : List Op) (empty : FinishesEmpty new ops) (now : UInt32) :
    ((run ops).live.hasExpired now ↔
      ∃ t ∈ (run ops).live.transactionsList, (run ops).due t < now) ∧
    ((run ops).live.pruneExpired now).transactionsList =
      (run ops).live.transactionsList.filter fun t => now ≤ (run ops).due t :=
  ⟨(dated_run empty).hasExpired_iff now, (dated_run empty).pruneExpired_list now⟩

def sampleTransaction (first : UInt8) (expiration : UInt32) : PackedTransaction :=
  ⟨Vector.replicate 31 0 |>.push first, expiration, none, []⟩

/-- A transaction is received and popped for a block that ends up empty; two more come. -/
def emptyFinish : List Op :=
  [.add (sampleTransaction 1 1000) 0, .take, .work 0 .pop, .finish 0 5,
    .add (sampleTransaction 2 10) 5, .add (sampleTransaction 3 1000) 6]

theorem expiry_of_emptyFinish : (run emptyFinish).live.hasExpired 20 ∧
    ((run emptyFinish).live.pruneExpired 20).transactionsList = [sampleTransaction 3 1000] := by
  have empty : FinishesEmpty new emptyFinish := by decide +kernel
  obtain ⟨expired, pruned⟩ := expiry_of_finishesEmpty emptyFinish empty 20
  refine ⟨expired.mpr (by decide +kernel), ?_⟩
  rw [pruned]
  decide +kernel

/-- A transaction is received, detached and returned before another one comes. -/
def returned : List Op :=
  [.add (sampleTransaction 1 1000) 0, .take, .finish 0 5, .add (sampleTransaction 2 10) 5]

/-- A returned transaction is given up with the first one that is due, long before its own
deadline. -/
theorem expiry_after_return :
    (run returned).live.transactionsList = [sampleTransaction 1 1000, sampleTransaction 2 10] ∧
    (run returned).due (sampleTransaction 1 1000) = 300 ∧
    ((run returned).live.pruneExpired 20).transactionsList = [] := by
  decide +kernel

end Ledger

end PulseVM.Controller
