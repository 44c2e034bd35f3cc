import PulseVM.Chain.RamBills

/-!
What the accounts are charged is what they pay for. A call that succeeds charges the
difference between the bills after it and before it, whichever rows, tables and deferred
transactions it makes, rewrites or removes.
-/

namespace PulseVM.Chain
open Arena ChainDb Lib.Encoding Lib.Calls Lib.Calls.Call Lib.Undo
open Yields hiding bind read_bind
open ArenaObject hiding id
open ContractCall

namespace ApplyCall

variable {s : ApplyState} {h : History} {d : RowStore DeferredTransactionRow}
  {opening due : UInt64 → Int} {usage : UInt64 → Option UInt64} {Action : Type}
  {env : ApplyEnv Action} {f : Family} {code scope table primary payer : UInt64}

/-! Contract rows. -/

theorem storeRow_kept {primaryKey : UInt64} {value : f.Value} (holds : s.Holds h d)
    (books : s.Books opening usage due)
    (ahead : (∃ n t, h.now.TableAt env.receiver scope table n t) ∧ due = 0 ∨
      (∀ n t, ¬h.now.TableAt env.receiver scope table n t) ∧
        due = Pi.single payer (tableObjectSize : Int))
    (room : s.contract.HasRoom (.create f env.receiver scope table payer primaryKey value))
    (small : valueSize f value < 2 ^ 32) :
    Yields s (storeRow env f scope table payer primaryKey value)
      fun _ t => t.Kept opening usage := by
  have stands := holds.keeps.stands
  obtain ⟨nextId, places⟩ := room
  rw [ContractDb.nextId_eq stands] at nextId
  obtain ⟨verdict, db, c, ran, moves, created⟩ := createObject_spec stands nextId f
    env.receiver scope table payer primaryKey value
  apply Yields.bind
  apply yields_onContract ran
  rintro ⟨⟩ rfl
  have counted : Counted c := by
    apply holds.keeps.now.created nextId _ created
    intro n t here
    have free := places t ((ContractDb.find_table stands _ scope table t).mpr ⟨n, here⟩)
    rw [ContractDb.children_eq stands, stands.id_table here.live] at free
    exact free
  obtain ⟨new, old⟩ := listed_created created
  have stored := holds.withContract moves counted fun g => (holds.coherent g).mono (old g)
  have bill : contentBill c - valueBill f payer value = contentBill h.now + due := by
    obtain ⟨tId, value', stores, ⟨there, bill⟩ | ⟨absent, bill⟩⟩ := contentBill_created created
    · rw [rowBill_newRow stores small] at bill
      rcases ahead with ⟨_, settled⟩ | ⟨absent, _⟩
      · rw [bill, settled]
        abel
      · obtain ⟨n, t, here⟩ := there
        exact absurd here (absent n t)
    · rw [rowBill_newRow stores small] at bill
      rcases ahead with ⟨⟨n, t, here⟩, _⟩ | ⟨_, charged⟩
      · exact absurd here (absent n t)
      · rw [bill, charged]
        abel
  have moved : ApplyState.Books { s with contract := db } opening usage (-valueBill f payer value) := by
    refine books.move rfl rfl ?_
    rw [stored.billed_eq, holds.billed_eq]
    change contentBill c + _ + _ = _
    rw [add_right_comm, ← sub_eq_add_neg, bill, add_right_comm]
  apply Yields.bind
  apply yields_onCache
  have tableCached := stored.withCache ((stored.coherent f).cacheTable (env.receiver, scope, table))
  apply Yields.bind
  apply yields_onCache
  have rowCached := tableCached.withCache ((tableCached.coherent f).add new)
  apply Yields.bind
  apply yields_updateDbUsage
  apply of_pure
  exact (rowCached.charge _ _).kept (((moved.withCaches _).withCaches _).charge _ _)
    (neg_add_cancel _)

/-- After a rewrite the old bill is charged back and the new one is charged. -/
theorem rebill_kept {oldPayer newPayer : UInt64} {oldSize newSize : Int} (holds : s.Holds h d)
    (books : s.Books opening usage (Pi.single oldPayer oldSize - Pi.single newPayer newSize)) :
    Yields s (rebill env oldPayer newPayer oldSize newSize)
      fun _ t => t.Kept opening usage := by
  unfold rebill
  split
  · apply Yields.bind
    apply yields_updateDbUsage
    apply yields_updateDbUsage
    refine ((holds.charge _ _).charge _ _).kept ((books.charge _ _).charge _ _) ?_
    rw [Pi.single_neg]
    abel
  · next same =>
    obtain rfl : oldPayer = newPayer := not_not.mp same
    split
    · apply yields_updateDbUsage
      refine (holds.charge _ _).kept (books.charge _ _) ?_
      rw [Pi.single_sub]
      abel
    · next equal =>
      obtain rfl : oldSize = newSize := not_not.mp equal
      exact of_pure (holds.kept books (sub_self _))

theorem storedSize_index (index : f ≠ .primary) (row : f.Row) : storedSize f row = 0 := by
  cases f with
  | primary => exact absurd rfl index
  | _ => rfl

theorem valueSize_index (index : f ≠ .primary) (value : f.Value) : valueSize f value = 0 := by
  cases f with
  | primary => exact absurd rfl index
  | _ => rfl

def withoutRow (c : Content) (f : Family) {n : Nat} {t : ContractTableRow}
    (held : c.tables.get n = some t) (m : Nat) : Content :=
  (c.withRows f ((c.rows f).erase m)).withTables (decremented c.tables n t held)

theorem table_withoutRow {n m : Nat} {t : ContractTableRow} (stands : s.contract.Stands h)
    (here : h.now.TableAt code scope table n t) :
    if saturatingPred t.count = 0 then
      ∀ k u, ¬(withoutRow h.now f here.live m).TableAt code scope table k u
    else ∃ k u, (withoutRow h.now f here.live m).TableAt code scope table k u := by
  have tables : (withoutRow h.now f here.live m).tables =
      decremented h.now.tables n t here.live := rfl
  split
  · next last =>
    intro k u left
    obtain ⟨v, before, sameCode, sameScope, sameTable⟩ := decremented_get here.live left.live
    have there : h.now.TableAt code scope table k v :=
      ⟨before, sameCode.symm.trans left.code, sameScope.symm.trans left.scope,
        sameTable.symm.trans left.table⟩
    obtain ⟨rfl, rfl⟩ := here.unique stands there
    have live := left.live
    rw [tables, decremented, if_pos last] at live
    cases (if_pos rfl).symm.trans live
  · next more =>
    refine ⟨n, { t with count := saturatingPred t.count }, ?_, here.code, here.scope,
      here.table⟩
    rw [tables, decremented, if_neg more]
    exact if_pos rfl

variable {iterator : Int32} {k : RowKey}

/-- A row leaves together with its handle. -/
theorem holds_withoutRow (holds : s.Holds h d) {n m : Nat} {t : ContractTableRow} {row : f.Row}
    (handle : (s.caches f).rowOf iterator = some k) (here : h.now.TableAt k.1 k.2.1 k.2.2.1 n t)
    (found : h.now.RowAt f (Int64.ofInt n) k.2.2.2 m row) {db : ContractDb}
    (stands : db.Stands (h.moved (withoutRow h.now f here.live m)))
    (counted : Counted (withoutRow h.now f here.live m)) : ApplyState.Holds { s with
      contract := db
      caches := Function.update s.caches f ((s.caches f).remove iterator) }
      (h.moved (withoutRow h.now f here.live m)) d := by
  refine ⟨holds.keeps.moved stands counted, holds.deferred, fun g => ?_⟩
  dsimp only
  by_cases same : g = f
  · subst same
    rw [Function.update_self]
    exact ((holds.coherent g).remove handle).mono fun k' ⟨listed, other⟩ =>
      listed_removed holds.keeps.now here found counted listed fun _ => other
  · rw [Function.update_of_ne same]
    exact (holds.coherent g).mono fun k' listed =>
      listed_removed holds.keeps.now here found counted listed fun equal => absurd equal same

theorem refundTableIfEmptied_kept {emptied : Prop} [Decidable emptied] (holds : s.Holds h d)
    (left : if emptied then ∀ n t, ¬h.now.TableAt code scope table n t
      else ∃ n t, h.now.TableAt code scope table n t)
    (books : s.Books opening usage
      (if emptied then Pi.single payer (tableObjectSize : Int) else 0)) :
    Yields s (refundTableIfEmptied env code scope table payer)
      fun _ t => t.Kept opening usage := by
  apply Yields.bind
  apply yields_arenaTableExists holds.keeps.stands
  · intro n t there
    split at left
    · exact absurd there (left n t)
    · next more => exact of_pure (holds.kept books (if_neg more))
  · intro gone
    split at left
    · next last =>
      rw [if_pos last] at books
      apply yields_updateDbUsage
      refine (holds.charge _ _).kept (books.charge _ _) ?_
      rw [Pi.single_neg, add_neg_cancel]
    · obtain ⟨n, t, there⟩ := left
      exact absurd there (gone n t)

section Settled

variable (holds : s.Holds h d) (books : s.Books opening usage 0)

include holds books

theorem dbStore_kept {primaryKey : UInt64} {value : f.Value}
    (room : s.contract.HasRoom (.create f env.receiver scope table payer primaryKey value))
    (small : valueSize f value < 2 ^ 32) :
    Yields s (dbStore env f scope table payer primaryKey value)
      fun _ t => t.Kept opening usage := by
  apply assert_bind
  intro _
  apply Yields.bind
  apply yields_arenaTableExists holds.keeps.stands
  · intro n t here
    exact storeRow_kept holds books (.inl ⟨⟨n, t, here⟩, rfl⟩) room small
  · intro absent
    apply Yields.bind
    apply yields_updateDbUsage
    exact storeRow_kept (holds.charge _ _) (books.charge _ _) (.inr ⟨absent, zero_add _⟩) room
      small

theorem update_kept (env : ApplyEnv Action) (name : String) (newPayer : UInt64) {value : f.Value}
    {n m : Nat} {t : ContractTableRow} {row : f.Row} (here : h.now.TableAt k.1 k.2.1 k.2.2.1 n t)
    (found : h.now.RowAt f (Int64.ofInt n) k.2.2.2 m row) (small : valueSize f value < 2 ^ 32) :
    Yields s (onContract name
        (ContractCall.updateObject f k.1 k.2.1 k.2.2.1 k.2.2.2 newPayer value) >>= fun _ =>
          rebill env (ContractRow.payer row) newPayer (storedSize f row + objectSize f)
            (valueSize f value + objectSize f))
      fun _ t => t.Kept opening usage := by
  have stands := holds.keeps.stands
  obtain ⟨verdict, db, c, ran, moves, updated⟩ := updateObject_spec stands f
    k.1 k.2.1 k.2.2.1 k.2.2.2 newPayer value
  apply Yields.bind
  apply yields_onContract ran
  rintro ⟨⟩ rfl
  cases updated with
  | missing gone => exact absurd found (gone n t here m row)
  | @rewritten n' t' m' row' stored here' found' stores free =>
    obtain ⟨rfl, rfl⟩ := here.unique stands here'
    obtain ⟨rfl, rfl⟩ := found.unique stands found'
    have rewritten := holds.withContract moves (holds.keeps.now.rewrite found.live _ _)
      fun g => (holds.coherent g).mono fun _ => listed_rewritten found.live
    have bill := contentBill_rewritten newPayer found.live stores small
    refine rebill_kept rewritten (books.move rfl rfl ?_)
    rw [rewritten.billed_eq, holds.billed_eq, add_zero, add_right_comm]
    congr 1
    change contentBill (h.now.withRows f _) + (rowBill f row - valueBill f newPayer value) = _
    rw [eq_sub_of_add_eq bill]
    abel

theorem dbUpdateI64_kept {data : Bytes} (small : data.length < 2 ^ 32) :
    Yields s (dbUpdateI64 env iterator payer data) fun _ t => t.Kept opening usage := by
  apply Yields.bind
  apply yields_rowOfOwn
  intro k _
  apply Yields.bind
  apply yields_arenaKvRow holds.keeps.stands
  · intro n t m row value here found length
    have kept := update_kept holds books env "arena update_key_value_object"
      (if payer = 0 then row.payer else payer) here found small
    rw [← length] at kept
    exact kept
  · intro _
    exact of_throw _

theorem dbIdxUpdate_kept {secondary : f.Value} (index : f ≠ .primary) :
    Yields s (dbIdxUpdate env f iterator payer secondary)
      fun _ t => t.Kept opening usage := by
  apply Yields.bind
  apply yields_rowOfOwn
  intro k _
  apply Yields.bind
  apply yields_arenaIdxPayer holds.keeps.stands
  · intro n t m row here found
    have small : valueSize f secondary < 2 ^ 32 := by
      rw [valueSize_index index]
      decide
    have kept := update_kept holds books env ("arena update_" ++ rowText f)
      (if payer = 0 then ContractRow.payer row else payer) here found small
    rw [storedSize_index index, valueSize_index index, Nat.cast_zero, zero_add] at kept
    exact kept
  · intro _
    exact of_throw _

/-- Removing the row of a handle settles its bill, and that of its table with the last. -/
theorem dropRow_kept (env : ApplyEnv Action) {n m : Nat} {t : ContractTableRow} {row : f.Row}
    (handle : (s.caches f).rowOf iterator = some k) (here : h.now.TableAt k.1 k.2.1 k.2.2.1 n t)
    (found : h.now.RowAt f (Int64.ofInt n) k.2.2.2 m row) :
    Yields s (dropRow env f iterator k (ContractRow.payer row)
      (storedSize f row + objectSize f)) fun _ t => t.Kept opening usage := by
  have stands := holds.keeps.stands
  apply Yields.bind
  apply Yields.bind
  apply yields_arenaTable stands
  swap
  · intro absent
    exact absurd here (absent n t)
  intro n' t' here'
  obtain ⟨rfl, rfl⟩ := here.unique stands here'
  apply of_pure
  obtain ⟨verdict, db, c, ran, moves, removed⟩ := removeObject_spec stands
    holds.keeps.now.bounded f k.1 k.2.1 k.2.2.1 k.2.2.2
  apply Yields.bind
  apply yields_onContract ran
  rintro ⟨⟩ rfl
  have counted := holds.keeps.now.removed removed
  cases removed with
  | missing gone => exact absurd found (gone n t here m row)
  | @removed n' t' m' row' here' found' =>
    obtain ⟨rfl, rfl⟩ := here.unique stands here'
    obtain ⟨rfl, rfl⟩ := found.unique stands found'
    apply Yields.bind
    apply yields_onCache
    have dropped := holds_withoutRow holds handle here found moves counted
    have bill := contentBill_removed here.live found.live
    have owed : ApplyState.Books { s with
        contract := db
        caches := Function.update s.caches f ((s.caches f).remove iterator) } opening usage
        (rowBill f row + if saturatingPred t.count = 0 then tableBill t else 0) := by
      refine books.move rfl rfl ?_
      rw [dropped.billed_eq, holds.billed_eq, add_zero, ← bill]
      change contentBill (withoutRow h.now f here.live m) + _ + _ = _
      unfold withoutRow
      abel
    apply Yields.bind
    apply yields_updateDbUsage
    have refunded := owed.charge (ContractRow.payer row) (-(storedSize f row + objectSize f))
    rw [Pi.single_neg, rowBill, add_right_comm, add_neg_cancel, zero_add] at refunded
    exact refundTableIfEmptied_kept (dropped.charge _ _) (table_withoutRow stands here) refunded

theorem dbRemoveI64_kept :
    Yields s (dbRemoveI64 env iterator) fun _ t => t.Kept opening usage := by
  apply Yields.bind
  apply yields_rowOfOwn
  intro k handle
  apply Yields.bind
  apply yields_arenaKvRow holds.keeps.stands
  · intro n t m row value here found length
    have kept := dropRow_kept holds books env handle here found
    rw [← length] at kept
    exact kept
  · intro _
    exact of_throw _

/-- The handle of an index leads to a row that is there, so the receiver never stands in
for its payer. -/
theorem dbIdxRemove_kept (index : f ≠ .primary) :
    Yields s (dbIdxRemove env f iterator) fun _ t => t.Kept opening usage := by
  apply Yields.bind
  apply yields_rowOfOwn
  intro k handle
  apply Yields.bind
  apply yields_arenaIdxPayer holds.keeps.stands
  · intro n t m row here found
    have kept := dropRow_kept holds books env handle here found
    rw [storedSize_index index, Nat.cast_zero, zero_add] at kept
    exact kept
  · intro gone
    obtain ⟨n, t, m, row, here, found⟩ := (holds.coherent f).rowOf handle
    exact absurd found (gone n t here m row)

theorem add_kept (listed : Listed h.now f k) :
    Yields s (onCache f (·.add k)) fun _ t => t.Kept opening usage :=
  yields_onCache ((holds.withCache ((holds.coherent f).add listed)).kept (books.withCaches _) rfl)

theorem cacheTable_kept (t : TableKey) :
    Yields s (onCache f (·.cacheTable t)) fun _ t => t.Kept opening usage :=
  yields_onCache ((holds.withCache ((holds.coherent f).cacheTable t)).kept (books.withCaches _) rfl)

theorem dbFindI64_kept :
    Yields s (dbFindI64 code scope table primary) fun _ t => t.Kept opening usage := by
  apply Yields.bind
  apply yields_arenaTableExists holds.keeps.stands
  · intro _ _ _
    apply Yields.bind
    apply yields_arenaKvRow holds.keeps.stands
    · intro n t m row value here found _
      exact add_kept holds books ⟨n, t, m, row, here, found⟩
    · intro _
      exact cacheTable_kept holds books _
  · intro _
    exact of_pure (holds.kept books rfl)

theorem dbIdxFindPrimary_kept :
    Yields s (dbIdxFindPrimary f code scope table primary)
      fun _ t => t.Kept opening usage := by
  apply Yields.bind
  apply yields_arenaRow holds.keeps.stands
  · intro n t m row here found
    apply Yields.bind
    apply yields_onCache
    exact add_kept (holds.withCache ((holds.coherent f).cacheTable _)) (books.withCaches _)
      ⟨n, t, m, row, here, found⟩
  · intro _
    apply Yields.bind
    apply yields_arenaTableExists holds.keeps.stands
    · intro _ _ _
      exact cacheTable_kept holds books _
    · intro _
      exact of_pure (holds.kept books rfl)

end Settled

/-! Deferred transactions. -/

section Deferred

variable {senderId : BitVec 128} {row : DeferredTransactionRow}

theorem yields_materialize {post : DeferredTransaction → ApplyState → Prop}
    (holds : ∀ bytes, bytes.length = row.packedTrx.len.toNat →
      post ⟨row.payer, row.trxId, bytes⟩ s) : Yields s (materialize row) post := by
  apply Yields.read_bind
  split
  · exact of_throw _
  · next bytes read => exact of_pure (holds bytes (length_of_blob read))

variable {trxId : Vector UInt8 32} {post : Unit → ApplyState → Prop} {packedTrx : Bytes}
  {trx : Transaction Action}

theorem yields_arenaDeferredTransaction {post : Option DeferredTransaction → ApplyState → Prop}
    (holds : ∀ found, post found s) : Yields s (arenaDeferredTransaction trxId) post := by
  apply Yields.read_bind
  split
  · exact of_pure (holds none)
  · apply Yields.bind
    apply yields_materialize
    intro bytes _
    exact of_pure (holds _)

/-- The deferred transaction that is queued under a sender id, as a row. -/
abbrev queued (s : ApplyState) (sender : UInt64) (senderId : BitVec 128) :
    Option DeferredTransactionRow :=
  s.deferred.findBy DeferredTransactionRow.bySenderId (senderKey sender senderId)

theorem yields_bySenderId {sender : UInt64} {post : Option DeferredTransaction → ApplyState → Prop}
    (missing : queued s sender senderId = none → post none s)
    (found : ∀ row bytes, queued s sender senderId = some row →
      bytes.length = row.packedTrx.len.toNat → post (some ⟨row.payer, row.trxId, bytes⟩) s) :
    Yields s (arenaDeferredTransactionBySenderId sender senderId) post := by
  apply Yields.read_bind
  split
  · next absent => exact of_pure (missing absent)
  · next row here =>
    apply Yields.bind
    apply yields_materialize
    intro bytes length
    exact of_pure (found row bytes here length)

/-- The deferred transactions move on; what is due moves with their bills. -/
theorem withDeferred (db : Registered DeferredTransactionRow) {rows : Slab DeferredTransactionRow}
    (due' : UInt64 → Int) (holds : s.Holds h d) (books : s.Books opening usage due)
    (refines : db.table.Refines { d with rows := rows })
    (moves : rows.total deferredBill + due' = d.rows.total deferredBill + due) :
    ApplyState.Holds { s with deferred := db } h { d with rows := rows } ∧
      ApplyState.Books { s with deferred := db } opening usage due' := by
  have moved : ApplyState.Holds { s with deferred := db } h { d with rows := rows } :=
    ⟨holds.keeps, refines, holds.coherent⟩
  refine ⟨moved, books.move rfl rfl ?_⟩
  rw [moved.billed_eq, holds.billed_eq, add_assoc, moves, add_assoc]

theorem yields_removeBySenderId {sender : UInt64}
    {post : Option DeferredTransaction → ApplyState → Prop} (holds : s.Holds h d)
    (books : s.Books opening usage due) (missing : queued s sender senderId = none → post none s)
    (removed : ∀ row bytes t d', queued s sender senderId = some row →
      bytes.length = row.packedTrx.len.toNat → t.Holds h d' →
      t.Books opening usage (due + deferredBill row) →
      post (some ⟨row.payer, row.trxId, bytes⟩) t) :
    Yields s (arenaRemoveDeferredTransactionBySenderId sender senderId) post := by
  apply Yields.read_bind
  split
  · next absent => exact of_pure (missing absent)
  · next row here =>
    apply Yields.bind
    apply yields_materialize
    intro bytes length
    have view : s.deferred.table.primary.get = d.rows.get :=
      congrArg (fun store : RowStore DeferredTransactionRow => store.rows.get) holds.deferred.view
    obtain ⟨n, live, _⟩ := (Registered.findBy_eq_some_iff holds.deferred.sound).mp here
    have named : row.id = n := holds.deferred.sound.named live
    rw [view] at live
    obtain ⟨verdict, refines⟩ := holds.deferred.remove live
    have ran : onDeferred "arena remove deferred transaction by sender id" (·.remove row.id) s =
        (.ok (), { s with deferred := (s.deferred.remove row.id).2 }) := by
      rw [named]
      exact Prod.ext (congrArg (Except.mapError _) verdict) rfl
    rw [named] at ran
    have total := Slab.total_erase live deferredBill
    obtain ⟨moved, owed⟩ := withDeferred (s.deferred.remove n).2 (due + deferredBill row) holds books
      refines (by rw [← total]; abel)
    apply Yields.bind
    rw [named]
    refine of_ok ran ?_
    exact of_pure (removed row bytes _ _ here length moved owed)

theorem yields_lift_size {length : Nat} {post : Int → ApplyState → Prop}
    (holds : post (272 + length) s) :
    Yields s (lift (generatedTransactionBillableSize length)) post := by
  apply of_run rfl
  intro size billed
  unfold generatedTransactionBillableSize at billed
  split at billed
  · cases billed
  · split at billed
    · cases billed
    · rw [← Except.ok.inj billed]
      exact holds

theorem refundDeferred_kept {bytes : Bytes} (holds : s.Holds h d)
    (length : bytes.length = row.packedTrx.len.toNat)
    (books : s.Books opening usage (0 + deferredBill row)) :
    Yields s (refundDeferred env ⟨row.payer, row.trxId, bytes⟩)
      fun _ t => t.Kept opening usage := by
  apply Yields.bind
  apply yields_lift_size
  apply yields_updateDbUsage
  refine (holds.charge _ _).kept (books.charge _ _) ?_
  rw [deferredBill, length, Pi.single_neg]
  abel

/-- Storing a deferred transaction that fits into its blob: one bill more. -/
theorem yields_import {delayUntil expiration published : Int64} (holds : s.Holds h d)
    (books : s.Books opening usage due) (small : packedTrx.length < 2 ^ 32)
    (stored : ∀ t d', t.Holds h d' →
      t.Books opening usage (due - Pi.single payer (272 + packedTrx.length : Int)) → post () t) :
    Yields s (xprImportDeferredTransaction env.receiver senderId payer trxId delayUntil
      expiration published packedTrx) post := by
  refine ok_bind rfl ?_
  have written := Table.allocBlob_refines holds.deferred.sound packedTrx
  rw [holds.deferred.view] at written
  apply Yields.bind
  rcases written.emplace (fillDeferred env.receiver senderId payer trxId delayUntil expiration
      published (s.deferred.allocBlob packedTrx).1) with
    ⟨name, _, refused⟩ | ⟨_, verdict, refines⟩
  · exact of_error (Prod.ext (congrArg (Except.mapError _) (congrArg Prod.fst refused)) rfl)
  · refine of_ok (Prod.ext (congrArg (Except.mapError _) verdict) rfl) ?_
    apply of_pure
    have bill : deferredBill (Table.constructed d.rows.len (fillDeferred env.receiver senderId payer
        trxId delayUntil expiration published (s.deferred.allocBlob packedTrx).1)) =
        Pi.single payer (272 + packedTrx.length : Int) := by
      have len : (s.deferred.allocBlob packedTrx).1.len = UInt32.ofNat packedTrx.length :=
        Table.len_allocBlob _ packedTrx
      change (Pi.single payer (272 + (s.deferred.allocBlob packedTrx).1.len.toNat : Int) :
        UInt64 → Int) = _
      rw [len, Table.toNat_ofNat_small small]
    obtain ⟨moved, owed⟩ := withDeferred
      ((s.deferred.allocBlob packedTrx).2.create (fillDeferred env.receiver senderId payer
        trxId delayUntil expiration published (s.deferred.allocBlob packedTrx).1)).2
      (due - Pi.single payer (272 + packedTrx.length : Int)) holds books refines
      (by rw [Slab.total_push, bill]; abel)
    exact stored _ _ moved owed

theorem yields_addNetUsage {net : UInt64} (holds : s.Holds h d) (books : s.Books opening usage due)
    (added : ∀ t, t.Holds h d → t.Books opening usage due → post () t) :
    Yields s (addNetUsage env net) post := by
  apply Yields.read_bind
  apply assert_bind
  intro _
  refine ok_bind rfl ?_
  apply of_run rfl
  intro _ _
  exact added _ ⟨holds.keeps, holds.deferred, holds.coherent⟩ (books.move rfl rfl rfl)

/-- What is stored is the transaction that was sent, with its generation context. -/
theorem checkDeferred_ok (checked : checkDeferred env senderId payer packedTrx = .ok trx) :
    ∃ sent rest, env.read packedTrx = .ok (sent, rest) ∧ trx = generated env senderId sent := by
  unfold checkDeferred at checked
  split at checked
  · cases checked
  · next sent rest read =>
    split at checked
    · cases checked
    · exact ⟨sent, rest, read, (Except.ok.inj checked).symm⟩

theorem yields_checkDuplicate {existing : Option (Vector UInt8 32)} (holds : post () s) :
    Yields s (checkDuplicate env existing trxId) post := by
  unfold checkDuplicate
  split
  · apply Yields.bind
    apply yields_arenaDeferredTransaction
    intro _
    apply of_assert
    intro _
    exact holds
  · exact of_pure holds

variable (holds : s.Holds h d) (books : s.Books opening usage 0)

include holds books

theorem cancelDeferred_kept :
    Yields s (cancelDeferred env senderId) fun _ t => t.Kept opening usage := by
  unfold cancelDeferred
  split
  · exact of_pure (holds.kept books rfl)
  · apply Yields.bind
    apply yields_removeBySenderId holds books
    · intro _
      exact of_pure (holds.kept books rfl)
    · intro row bytes t d' _ length moved owed
      apply Yields.bind
      exact ⟨fun _ u done => of_pure
        ((refundDeferred_kept moved length owed).post _ u done)⟩

theorem dropExisting_kept {row bytes}
    (here : queued s env.receiver senderId = some row)
    (length : List.length (α := UInt8) bytes = row.packedTrx.len.toNat) :
    Yields s (dropExisting env senderId (some ⟨row.payer, row.trxId, bytes⟩))
      fun _ t => t.Kept opening usage := by
  apply Yields.bind
  apply yields_removeBySenderId holds books
  · intro absent
    cases absent.symm.trans here
  · intro row' bytes' t d' here' _ moved owed
    obtain rfl : row' = row := Option.some.inj (here'.symm.trans here)
    exact refundDeferred_kept moved length owed

theorem enqueueDeferred_kept {delayUntil expiration : Int64}
    (small : (env.pack trx).length < 2 ^ 32) :
    Yields s (enqueueDeferred env senderId payer trx delayUntil expiration)
      fun _ t => t.Kept opening usage := by
  apply Yields.bind
  apply yields_import holds books small
  intro t d' moved owed
  apply Yields.bind
  apply yields_addNetUsage moved owed
  intro u kept still
  apply Yields.bind
  apply yields_lift_size
  apply yields_updateDbUsage
  refine (kept.charge _ _).kept (still.charge _ _) ?_
  abel

omit holds books in
theorem queueDeferred_kept {replaceExisting : Bool} {existing : Option DeferredTransaction}
    (small : (env.pack trx).length < 2 ^ 32)
    (dropped : Yields s (dropExisting env senderId existing) fun _ t => t.Kept opening usage) :
    Yields s (queueDeferred env senderId payer trx replaceExisting existing)
      fun _ t => t.Kept opening usage := by
  apply assert_bind
  intro _
  apply assert_bind
  intro _
  apply Yields.bind
  apply yields_checkDuplicate
  apply run_bind rfl
  intro delayUntil _
  apply run_bind rfl
  intro expiration _
  apply Yields.bind
  refine ⟨fun _ t done => ?_⟩
  obtain ⟨⟨h', d', moved⟩, settled⟩ := dropped.post _ t done
  exact enqueueDeferred_kept moved settled small

theorem scheduleDeferred_kept {replaceExisting : Bool}
    (small : ∀ sent rest, env.read packedTrx = .ok (sent, rest) →
      (env.pack (generated env senderId sent)).length < 2 ^ 32) :
    Yields s (scheduleDeferred env senderId payer packedTrx replaceExisting)
      fun _ t => t.Kept opening usage := by
  unfold scheduleDeferred
  split
  · exact of_pure (holds.kept books rfl)
  · apply run_bind rfl
    intro trx checked
    obtain ⟨sent, rest, read, rfl⟩ := checkDeferred_ok checked
    apply Yields.bind
    apply yields_bySenderId
    · intro _
      exact queueDeferred_kept (small sent rest read)
        (of_pure (holds.kept books rfl))
    · intro row bytes here length
      exact queueDeferred_kept (small sent rest read) (dropExisting_kept holds books here length)

end Deferred

end ApplyCall

open ApplyCall

/-- Where a value is stored, it is shorter than the 32 bits of its length can say, and the
table has room for another row. -/
def ApplyState.Fits {Action : Type} (s : ApplyState) : ApplyEnv Action × ApplyOp → Prop
  | (env, .store f scope table payer primaryKey value) =>
    s.contract.HasRoom (.create f env.receiver scope table payer primaryKey value) ∧
      valueSize f value < 2 ^ 32
  | (_, .updateI64 _ _ data) => data.length < 2 ^ 32
  | (env, .scheduleDeferred senderId _ packedTrx _) =>
    match env.read packedTrx with
    | .ok (sent, _) => (env.pack (generated env senderId sent)).length < 2 ^ 32
    | .error _ => True
  | _ => True

instance {Action : Type} (s : ApplyState) :
    (call : ApplyEnv Action × ApplyOp) → Decidable (s.Fits call)
  | (_, .store ..) => inferInstanceAs (Decidable (_ ∧ _))
  | (_, .updateI64 ..) => inferInstanceAs (Decidable (_ < _))
  | (env, .scheduleDeferred senderId _ packedTrx _) =>
    match read : env.read packedTrx with
    | .ok (sent, _) =>
      decidable_of_iff ((env.pack (generated env senderId sent)).length < 2 ^ 32)
        (by simp only [ApplyState.Fits, read])
    | .error _ => isTrue (by simp only [ApplyState.Fits, read])
  | (_, .idxUpdate ..) => isTrue trivial
  | (_, .removeI64 _) => isTrue trivial
  | (_, .idxRemove ..) => isTrue trivial
  | (_, .findI64 ..) => isTrue trivial
  | (_, .idxFindPrimary ..) => isTrue trivial
  | (_, .cancelDeferred _) => isTrue trivial

namespace ApplyCall

variable {s : ApplyState} {opening : UInt64 → Int} {usage : UInt64 → Option UInt64} {Action : Type}

theorem perform_kept {env : ApplyEnv Action} {op : ApplyOp} (kept : s.Kept opening usage)
    (fits : s.Fits (env, op)) :
    Yields s (perform env op) fun _ t => t.Kept opening usage := by
  obtain ⟨⟨h, d, holds⟩, books⟩ := kept
  have discard : ∀ {α : Type} {call : ApplyCall α},
      Yields s call (fun _ t => t.Kept opening usage) →
      Yields s (call >>= fun _ => pure ()) fun _ t => t.Kept opening usage :=
    fun yields => Yields.bind ⟨fun _ t done => of_pure (yields.post _ t done)⟩
  cases op with
  | store f scope table payer primaryKey value =>
    exact discard (dbStore_kept holds books fits.1 fits.2)
  | updateI64 iterator payer data => exact dbUpdateI64_kept holds books fits
  | idxUpdate f index iterator payer secondary => exact dbIdxUpdate_kept holds books index
  | removeI64 iterator => exact dbRemoveI64_kept holds books
  | idxRemove f index iterator => exact dbIdxRemove_kept holds books index
  | findI64 code scope table primary => exact discard (dbFindI64_kept holds books)
  | idxFindPrimary f index code scope table primary =>
    exact discard (dbIdxFindPrimary_kept holds books)
  | scheduleDeferred senderId payer packedTrx replaceExisting =>
    apply scheduleDeferred_kept holds books
    intro sent rest read
    simp only [ApplyState.Fits, read] at fits
    exact fits
  | cancelDeferred senderId => exact discard (cancelDeferred_kept holds books)

def after (s : ApplyState) (call : ApplyEnv Action × ApplyOp) : ApplyState :=
  (perform call.1 call.2 s).2

theorem performAll_kept {calls : List (ApplyEnv Action × ApplyOp)} (kept : s.Kept opening usage)
    (fits : Along after ApplyState.Fits s calls) :
    Yields s (performAll calls) fun _ t => t.Kept opening usage := by
  induction calls generalizing s with
  | nil => exact of_pure kept
  | cons call rest ih =>
    obtain ⟨env, op⟩ := call
    apply Yields.bind
    refine ⟨fun _ t done => ?_⟩
    have here : after s (env, op) = t := congrArg Prod.snd done
    exact ih ((perform_kept kept fits.1).post _ t done) (here ▸ fits.2)

end ApplyCall

theorem ApplyState.enter_kept {ops : List ContractOp}
    (room : Along ContractDb.apply ContractDb.HasRoom ContractDb.new ops)
    {deferred : Registered DeferredTransactionRow} (sound : deferred.table.Sound)
    (ramUsage : UInt64 → Option UInt64) (netUsage : UInt64) :
    (ApplyState.enter (ContractDb.new.run ops) deferred ramUsage netUsage).Kept
      (ApplyState.enter (ContractDb.new.run ops) deferred ramUsage netUsage).billed ramUsage := by
  obtain ⟨h, keeps⟩ : ∃ h, (ContractDb.new.run ops).KeepsCounts h :=
    room.foldl (p := fun db => ∃ h, db.KeepsCounts h)
      (fun db op ⟨h, keeps⟩ allowed => keeps.apply op allowed) ⟨_, ContractDb.KeepsCounts.new⟩
  refine ⟨⟨h, _, keeps, ⟨sound, rfl⟩, fun _ => ArenaIteratorCache.Coherent.empty⟩, ?_, ?_⟩
  · exact (zero_add _).trans (add_zero _).symm
  · intro a
    have zero : UInt64.ofInt 0 = 0 := rfl
    simp [ApplyState.enter, zero]

/-- What an action charges to an account is what the account pays for afterwards less what
it paid for before, and its usage moves by that. -/
theorem performAll_ramConserved {Action : Type} (ops : List ContractOp)
    (room : Along ContractDb.apply ContractDb.HasRoom ContractDb.new ops)
    (deferred : Registered DeferredTransactionRow) (sound : deferred.table.Sound)
    (ramUsage : UInt64 → Option UInt64) (netUsage : UInt64) (before after : ApplyState)
    (entered : before = ApplyState.enter (ContractDb.new.run ops) deferred ramUsage netUsage)
    (calls : List (ApplyEnv Action × ApplyOp))
    (fits : Along ApplyCall.after ApplyState.Fits before calls)
    (done : performAll calls before = (.ok (), after)) (account : UInt64) :
    after.accountRamDeltas account = after.billed account - before.billed account ∧
      after.ramUsage account =
        (ramUsage account).map (· + UInt64.ofInt (after.accountRamDeltas account)) := by
  subst entered
  have kept := ApplyState.enter_kept room sound ramUsage netUsage
  obtain ⟨_, books⟩ := (performAll_kept kept fits).post _ _ done
  refine ⟨?_, books.paid account⟩
  have charged := congrFun books.charged account
  simp only [Pi.add_apply, Pi.zero_apply, add_zero] at charged
  omega

/-- A privileged contract `1` that packs every transaction into three bytes. -/
def plainEnv : ApplyEnv Unit where
  receiver := 1
  privileged := true
  actionAccount := 1
  authorizers := [5, 6]
  activated feature := feature == .replaceDeferred
  trxId := Vector.replicate 32 0
  pendingBlockMicros := 0
  deferredTrxExpirationWindow := 600
  basePerTransactionNetUsage := 12
  checkNetUsage _ := .ok ()
  isAccount _ := true
  read bytes := .ok (⟨0, 0, 0, 0, 0, 0, [], [()], []⟩, bytes.drop 3)
  pack _ := [1, 2, 3]
  trxIdOf _ := Vector.replicate 32 7
  validateReferencedAccounts _ := .ok ()
  checkAuthorization _ _ := .ok ()
  transactionExists _ := false

/-- Rows of two families change their payer, one of them goes, and a deferred transaction
is replaced. -/
def sampleCalls : List (ApplyEnv Unit × ApplyOp) :=
  [(plainEnv, .store .primary 2 3 5 7 [8, 9]),
    (plainEnv, .store .idx64 2 3 5 7 (11 : UInt64)),
    (plainEnv, .updateI64 0 6 [8]),
    (plainEnv, .idxRemove .idx64 (by decide) 0),
    (plainEnv, .scheduleDeferred 4 5 [1, 2, 3] false),
    (plainEnv, .scheduleDeferred 4 6 [1, 2, 3] true)]

def sampleUsage : UInt64 → Option UInt64 := fun _ => some 1000

def sampleStart : ApplyState := .enter (ContractDb.new.run []) .new sampleUsage 0

def sampleEnd : ApplyState := (performAll sampleCalls sampleStart).2

theorem sampleCalls_done : performAll sampleCalls sampleStart = (.ok (), sampleEnd) := by
  have verdict : (performAll sampleCalls sampleStart).1 = .ok () := by decide +kernel
  unfold sampleEnd
  rw [← verdict]

/-- Account `6` pays for the contract row and the deferred transaction, `5` for the table. -/
theorem performAll_ramConserved_sample :
    (sampleEnd.accountRamDeltas 6 = 113 + 275 ∧ sampleEnd.accountRamDeltas 5 = 112) ∧
    sampleEnd.accountRamDeltas 6 = sampleEnd.billed 6 - sampleStart.billed 6 ∧
      sampleEnd.ramUsage 6 =
        (sampleUsage 6).map (· + UInt64.ofInt (sampleEnd.accountRamDeltas 6)) :=
  ⟨by decide +kernel, performAll_ramConserved [] trivial .new Table.new_refines.sound sampleUsage 0
    sampleStart sampleEnd rfl sampleCalls (by decide +kernel) sampleCalls_done 6⟩

/-! A value of `2 ^ 32` bytes is charged with its length, but its row says that it has none. -/

section Long

variable {s : ApplyState} {payer : UInt64} {delta : Int}

theorem updateDbUsage_plainEnv (low : -2 ^ 63 ≤ s.accountRamDeltas payer + delta)
    (high : s.accountRamDeltas payer + delta < 2 ^ 63) :
    updateDbUsage plainEnv payer delta s = (.ok (), s.charge payer delta) := by
  have checked : eagerRamCheck plainEnv payer delta s = (.ok (), s) := by
    simp [eagerRamCheck, plainEnv, pure_run]
  have fits : (decide (-2 ^ 63 ≤ s.accountRamDeltas payer + delta ∧
      s.accountRamDeltas payer + delta < 2 ^ 63)) = true := decide_eq_true ⟨low, high⟩
  unfold updateDbUsage
  rw [bind_ok checked]
  unfold addRamUsage
  rw [bind_ok (rfl : addPendingRamUsage payer delta s = _), read_bind]
  unfold pulseAssert
  rw [if_pos fits]
  rfl

theorem storeRow_plainEnv {f : Family} {scope table primaryKey : UInt64} {value : f.Value}
    {db : ContractDb}
    (ran : ContractCall.createObject f 1 scope table payer primaryKey value s.contract = (.ok (), db))
    (low : -2 ^ 63 ≤ s.accountRamDeltas payer + (valueSize f value + objectSize f))
    (high : s.accountRamDeltas payer + (valueSize f value + objectSize f) < 2 ^ 63) :
    ∃ handle t, storeRow plainEnv f scope table payer primaryKey value s = (.ok handle, t) ∧
      t.contract = db ∧ t.deferred = s.deferred ∧
      t.accountRamDeltas payer = s.accountRamDeltas payer + (valueSize f value + objectSize f) := by
  have create : onContract ("arena create_" ++ rowText f)
      (ContractCall.createObject f plainEnv.receiver scope table payer primaryKey value) s =
      (.ok (), { s with contract := db }) := by
    unfold onContract
    rw [show plainEnv.receiver = 1 from rfl, ran]
  -- the two caches that are written one after the other
  let tableCached : ApplyState :=
    { s with
      contract := db
      caches := Function.update s.caches f ((s.caches f).cacheTable (1, scope, table)).2 }
  let cached : ApplyState :=
    { s with
      contract := db
      caches := Function.update s.caches f
        ((((s.caches f).cacheTable (1, scope, table)).2).add (1, scope, table, primaryKey)).2 }
  have first : onCache f (·.cacheTable (plainEnv.receiver, scope, table))
      { s with contract := db } = (.ok ((s.caches f).cacheTable (1, scope, table)).1, tableCached) := rfl
  have second : onCache f (·.add (plainEnv.receiver, scope, table, primaryKey)) tableCached =
      (.ok ((((s.caches f).cacheTable (1, scope, table)).2).add (1, scope, table, primaryKey)).1,
        cached) := by
    have receiver : plainEnv.receiver = 1 := rfl
    simp [onCache, tableCached, cached, receiver]
  have charged : updateDbUsage plainEnv payer (valueSize f value + objectSize f) cached = _ :=
    updateDbUsage_plainEnv low high
  refine ⟨((((s.caches f).cacheTable (1, scope, table)).2).add (1, scope, table, primaryKey)).1,
    cached.charge payer (valueSize f value + objectSize f), ?_, rfl, rfl, ?_⟩
  · unfold storeRow
    rw [bind_ok create, bind_ok first, bind_ok second, bind_ok charged]
    rfl
  · exact Function.update_self _ _ _

/-- The first row of a table, as long as is wanted. -/
def longStore (n : Nat) : List (ApplyEnv Unit × ApplyOp) :=
  [(plainEnv, .store .primary 2 3 5 7 (List.replicate n 0))]

theorem contentBill_empty : contentBill Content.empty = 0 := by
  unfold contentBill Content.sum Content.empty
  simp

/-- A first row is charged with its length and billed with what is left of it in 32 bits. -/
theorem longStore_charged {n : Nat} (small : n < 2 ^ 62) :
    ∃ after, performAll (longStore n) sampleStart = (.ok (), after) ∧
      after.accountRamDeltas 5 = n + 224 ∧ after.billed 5 = (UInt32.ofNat n).toNat + 224 := by
  have zero : sampleStart.accountRamDeltas 5 = 0 := rfl
  have asserted : pulseAssert (decide ((5 : UInt64) ≠ 0))
      (.transactionError "must specify a valid account to pay for new record") sampleStart =
      (.ok (), sampleStart) := rfl
  have absent : arenaTableExists plainEnv.receiver 2 3 sampleStart =
      (.ok false, sampleStart) := Prod.ext (by decide +kernel) rfl
  have table : updateDbUsage plainEnv 5 tableObjectSize sampleStart = _ :=
    updateDbUsage_plainEnv (by rw [zero]; decide) (by rw [zero]; decide)
  have charged : (sampleStart.charge 5 tableObjectSize).accountRamDeltas 5 = 112 := by
    decide +kernel
  have length : valueSize .primary (List.replicate n 0) = n := List.length_replicate
  have size : objectSize .primary = 112 := rfl
  have tableSize : tableObjectSize = 112 := rfl
  obtain ⟨verdict, db, c, ran, moves, created⟩ := createObject_spec
    ContractDb.Stands.new (by decide) .primary 1 2 3 5 7 (List.replicate n 0)
  have accepted : verdict = .ok () := by
    cases created with
    | refused here => cases here.live
    | under here => rfl
    | @orphan _ stored _ _ clashes =>
      have free := Counted.empty.fresh_free (by decide)
        (Counted.tId_newRow Content.empty .primary (Int64.ofInt Content.empty.tables.len) 7 5 stored)
      cases free.symm.trans clashes
    | first => rfl
  subst accepted
  obtain ⟨handle, t, done, contract, deferred, deltas⟩ := storeRow_plainEnv
    (s := sampleStart.charge 5 tableObjectSize) ran (by rw [charged, length, size]; omega)
    (by rw [charged, length, size]; omega)
  have stored : dbStore plainEnv .primary 2 3 5 7 (List.replicate n 0) sampleStart =
      (.ok handle, t) := by
    unfold dbStore
    rw [bind_ok asserted, bind_ok absent]
    change (updateDbUsage plainEnv 5 tableObjectSize >>= fun _ => _) sampleStart = _
    rw [bind_ok table]
    exact done
  refine ⟨t, ?_, ?_, ?_⟩
  · change ((dbStore plainEnv .primary 2 3 5 7 (List.replicate n 0) >>= fun _ => pure ()) >>=
      fun _ => pure ()) sampleStart = _
    rw [Call.bind_assoc', bind_ok stored]
    rfl
  · rw [deltas, charged, length, size]
    omega
  · have stands : t.contract.Stands _ := contract ▸ moves
    have refines : t.deferred.table.Refines (Table.new (T := DeferredTransactionRow)).view := by
      rw [deferred]
      exact ⟨Table.new_refines.sound, rfl⟩
    obtain ⟨tId, stored, stores, ⟨⟨_, _, here⟩, _⟩ | ⟨_, bill⟩⟩ := contentBill_created created
    · cases here.live
    · have len : BlobRef.len stored = UInt32.ofNat n := stores.trans (congrArg UInt32.ofNat length)
      have row : rowBill .primary (Content.empty.newRow .primary tId 7 5 stored) =
          Pi.single 5 ((BlobRef.len stored).toNat + objectSize .primary : Int) := rfl
      rw [ApplyState.billed_of_stands stands refines]
      change (contentBill c + 0) 5 = _
      rw [bill, row, len, size, tableSize]
      rw [contentBill_empty]
      simp
      omega

/-- A value of `2 ^ 32` bytes is charged, but not billed; and a table of `2 ^ 32` rows counts
none, so that the next removal refunds it under the others. -/
theorem longStore_not_conserved :
    (∃ after, performAll (longStore (2 ^ 32)) sampleStart = (.ok (), after) ∧
      after.accountRamDeltas 5 ≠ after.billed 5 - sampleStart.billed 5) ∧
    ¬(ContractDb.new.run (ContractDb.manyRows (2 ^ 32))).TablesMatchRows := by
  obtain ⟨after, done, charged, billed⟩ := longStore_charged (n := 2 ^ 32) (by decide)
  have before : sampleStart.billed 5 = 0 := by decide +kernel
  refine ⟨⟨after, done, ?_⟩,
    ContractDb.not_tablesMatchRows_of_wrap (by decide) (by decide) (by decide)⟩
  rw [charged, billed, before]
  decide

end Long

end PulseVM.Chain
