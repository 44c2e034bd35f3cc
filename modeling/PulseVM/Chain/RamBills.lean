import PulseVM.Chain.ApplyContext
import PulseVM.ChainDb.TableCounts

/-!
Every row, table and deferred transaction has a bill on the account of its payer. The
books of an action say what was charged against what is billed, and its handles only lead
to rows that are there, so no row is refunded twice.
-/

namespace PulseVM.Chain
open Arena ChainDb Lib.Encoding Lib.Calls Lib.Calls.Call Lib.Undo
open Yields hiding bind read_bind
open ArenaObject hiding id
open ContractCall ContractRow Content

/-- The bytes a row holds beside its fixed size. -/
def storedSize : (f : Family) → f.Row → Nat
  | .primary, row => (ContractKeyValueRow.value row).len.toNat
  | .idx64, _ => 0
  | .idx128, _ => 0
  | .idx256, _ => 0
  | .idxDouble, _ => 0
  | .idxLongDouble, _ => 0

/-- The bill of a row, on the account of its payer. -/
def rowBill (f : Family) (row : f.Row) : UInt64 → Int :=
  Pi.single (ContractRow.payer row) (storedSize f row + objectSize f : Int)

def tableBill (t : ContractTableRow) : UInt64 → Int := Pi.single t.payer (tableObjectSize : Int)

def deferredBill (row : DeferredTransactionRow) : UInt64 → Int :=
  Pi.single row.payer (272 + row.packedTrx.len.toNat : Int)

/-- What every account pays for. -/
def ApplyState.billed (s : ApplyState) : UInt64 → Int :=
  ∑ f, (s.contract.rows f).table.primary.slab.total (rowBill f) +
    s.contract.tables.table.primary.slab.total tableBill +
    s.deferred.table.primary.slab.total deferredBill

namespace ArenaIteratorCache

/-- Every handle leads to a row that is there, and no two to the same. -/
structure Coherent (c : ArenaIteratorCache) (there : RowKey → Prop) : Prop where
  stored : ∀ (i : Nat) k, c.iterToRow[i]? = some (some k) → there k
  distinct : ∀ (i j : Nat) k, c.iterToRow[i]? = some (some k) → c.iterToRow[j]? = some (some k) → i = j
  mapped : ∀ (i : Nat) k, c.iterToRow[i]? = some (some k) → (c.rowToIter k).isSome

namespace Coherent

variable {c : ArenaIteratorCache} {there there' : RowKey → Prop}

theorem empty : ArenaIteratorCache.empty.Coherent there where
  stored := nofun
  distinct := nofun
  mapped := nofun

section

variable (coherent : c.Coherent there)

include coherent

theorem mono (imp : ∀ k, there k → there' k) : c.Coherent there' where
  stored i k held := imp k (coherent.stored i k held)
  distinct := coherent.distinct
  mapped := coherent.mapped

theorem cacheTable (t : TableKey) :
    (c.cacheTable t).2.Coherent there := by
  unfold ArenaIteratorCache.cacheTable
  split
  · exact coherent
  · exact ⟨coherent.stored, coherent.distinct, coherent.mapped⟩

variable {row : RowKey}

omit coherent in
theorem getElem?_snoc {slots : List (Option RowKey)} {k : RowKey} {i : Nat} :
    (slots ++ [some row])[i]? = some (some k) ↔
      slots[i]? = some (some k) ∨ i = slots.length ∧ row = k := by
  rw [List.getElem?_append]
  split
  · next inside => simp; omega
  · next past =>
    rw [List.getElem?_eq_none (Nat.le_of_not_lt past), List.getElem?_singleton]
    by_cases first : i = slots.length
    · simp [first]
    · simp [first]
      omega

theorem add (new : there row) : (c.add row).2.Coherent there := by
  unfold ArenaIteratorCache.add
  split
  · exact coherent
  · next unmapped =>
    have absent : ∀ i : Nat, c.iterToRow[i]? ≠ some (some row) := by
      intro i held
      have mapped := coherent.mapped i row held
      rw [unmapped] at mapped
      cases mapped
    refine ⟨?_, ?_, ?_⟩
    · intro i k held
      rcases getElem?_snoc.mp held with old | ⟨_, rfl⟩
      · exact coherent.stored i k old
      · exact new
    · intro i j k first second
      rcases getElem?_snoc.mp first with old | ⟨last, rfl⟩ <;>
        rcases getElem?_snoc.mp second with old' | ⟨last', same⟩
      · exact coherent.distinct i j k old old'
      · exact absurd (same ▸ old) (absent i)
      · exact absurd old' (absent j)
      · omega
    · intro i k held
      by_cases same : k = row
      · simp [same]
      · rcases getElem?_snoc.mp held with old | ⟨_, rfl⟩
        · simpa [Function.update_of_ne same] using coherent.mapped i k old
        · exact absurd rfl same

theorem remove {handle : Int32} (found : c.rowOf handle = some row) :
    (c.remove handle).Coherent fun k => there k ∧ k ≠ row := by
  unfold rowOf at found
  unfold ArenaIteratorCache.remove
  split at found
  · cases found
  · next positive =>
    rw [if_neg positive, found]
    have here : c.iterToRow[handle.toInt.toNat]? = some (some row) := Option.join_eq_some_iff.mp found
    have before : ∀ (i : Nat) k, (c.iterToRow.set handle.toInt.toNat none)[i]? = some (some k) →
        c.iterToRow[i]? = some (some k) ∧ k ≠ row := by
      intro i k held
      rw [List.getElem?_set] at held
      split at held
      · split at held <;> cases held
      · next other =>
        refine ⟨held, ?_⟩
        rintro rfl
        exact other (coherent.distinct _ _ _ here held)
    refine ⟨?_, ?_, ?_⟩
    · intro i k held
      exact ⟨coherent.stored i k (before i k held).1, (before i k held).2⟩
    · intro i j k first second
      exact coherent.distinct i j k (before i k first).1 (before j k second).1
    · intro i k held
      obtain ⟨old, other⟩ := before i k held
      simpa [Function.update_of_ne other] using coherent.mapped i k old

theorem rowOf {handle : Int32} (found : c.rowOf handle = some row) : there row := by
  unfold ArenaIteratorCache.rowOf at found
  split at found
  · cases found
  · exact coherent.stored _ _ (Option.join_eq_some_iff.mp found)

end

end Coherent

end ArenaIteratorCache

/-! The bills of a content. -/

/-- What every account pays for among tables and rows. -/
def contentBill (c : Content) : UInt64 → Int := c.sum rowBill + c.tables.total tableBill

section Content

variable {c c' : Content} {f : Family} {code scope table payer primaryKey : UInt64}
  {value : f.Value} {n m : Nat} {t : ContractTableRow} {row : f.Row}

theorem contentBill_withTables (c : Content) (tables : Slab ContractTableRow) :
    contentBill (c.withTables tables) = c.sum rowBill + tables.total tableBill := rfl

theorem len_of_stores {value : Bytes} {stored : BlobRef}
    (stores : ContractCall.Stores .primary value stored) (small : value.length < 2 ^ 32) :
    stored.len.toNat = value.length := by
  have kept : stored.len = UInt32.ofNat value.length := stores
  rw [kept]
  exact Table.toNat_ofNat_small small

def valueBill (f : Family) (payer : UInt64) (value : f.Value) : UInt64 → Int :=
  Pi.single payer (valueSize f value + objectSize f : Int)

variable {stored : ContractRow.Stored f.Row}

theorem rowBill_newRow {tId : Int64} (stores : ContractCall.Stores f value stored)
    (small : valueSize f value < 2 ^ 32) :
    rowBill f (c.newRow f tId primaryKey payer stored) = valueBill f payer value := by
  have size : storedSize f (c.newRow f tId primaryKey payer stored) = valueSize f value := by
    cases f with
    | primary => exact len_of_stores stores small
    | _ => rfl
  have paid : ContractRow.payer (c.newRow f tId primaryKey payer stored) = payer := by
    simp [newRow, Table.constructed]
  unfold rowBill valueBill
  rw [size, paid]

theorem rowBill_rewrite (stores : ContractCall.Stores f value stored)
    (small : valueSize f value < 2 ^ 32) :
    rowBill f (rewrite payer stored row) = valueBill f payer value := by
  have size : storedSize f (rewrite payer stored row) = valueSize f value := by
    cases f with
    | primary => exact len_of_stores stores small
    | _ => rfl
  unfold rowBill valueBill
  rw [size, payer_rewrite]

theorem total_setCount {tables : Slab ContractTableRow} (live : tables.get n = some t)
    (count : UInt32) :
    (tables.set n { t with count := count } (Slab.lt_of_get live)).total tableBill =
      tables.total tableBill :=
  add_right_cancel (Slab.total_set live { t with count := count } tableBill)

theorem contentBill_created
    (created : ContractCall.Created c f code scope table payer primaryKey value (.ok ()) c') :
    ∃ tId stored, ContractCall.Stores f value stored ∧
      ((∃ n t, c.TableAt code scope table n t) ∧
        contentBill c' = contentBill c + rowBill f (c.newRow f tId primaryKey payer stored) ∨
      (∀ n t, ¬c.TableAt code scope table n t) ∧
        contentBill c' = contentBill c + Pi.single payer (tableObjectSize : Int) +
          rowBill f (c.newRow f tId primaryKey payer stored)) := by
  cases created with
  | @under n t stored here stores free =>
    refine ⟨Int64.ofInt n, stored, stores, .inl ⟨⟨n, t, here⟩, ?_⟩⟩
    have tables := total_setCount here.live (t.count + 1)
    rw [contentBill_withTables, sum_push, tables, contentBill]
    abel
  | @first stored absent stores free =>
    refine ⟨Int64.ofInt c.tables.len, stored, stores, .inr ⟨absent, ?_⟩⟩
    have tables : (c.tables.push (firstTable c code scope table payer)).total
        tableBill = c.tables.total tableBill + Pi.single payer (tableObjectSize : Int) :=
      c.tables.total_push _ tableBill
    rw [contentBill_withTables, sum_push, tables, contentBill]
    abel

theorem contentBill_rewritten (payer : UInt64) (live : (c.rows f).get m = some row)
    (stores : ContractCall.Stores f value stored) (small : valueSize f value < 2 ^ 32) :
    contentBill (c.withRows f ((c.rows f).set m (rewrite payer stored row)
      (Slab.lt_of_get live))) + rowBill f row = contentBill c + valueBill f payer value := by
  have rows := sum_set live (rewrite payer stored row) rowBill
  rw [rowBill_rewrite stores small] at rows
  change (c.withRows f _).sum rowBill + c.tables.total tableBill + _ = _
  rw [add_right_comm, rows, contentBill]
  abel

/-- A removed row is no longer billed, nor is its table when it was the last. -/
theorem contentBill_removed (held : c.tables.get n = some t) (live : (c.rows f).get m = some row) :
    contentBill ((c.withRows f ((c.rows f).erase m)).withTables
        (decremented c.tables n t held)) + rowBill f row +
      (if saturatingPred t.count = 0 then tableBill t else 0) = contentBill c := by
  have rows := sum_erase live rowBill
  have tables : (decremented c.tables n t held).total tableBill +
      (if saturatingPred t.count = 0 then tableBill t else 0) =
      c.tables.total tableBill := by
    unfold decremented
    split
    · exact Slab.total_erase held tableBill
    · rw [add_zero]
      exact total_setCount held _
  rw [contentBill_withTables, contentBill, ← rows, ← tables]
  abel

def Listed (c : Content) (f : Family) (k : RowKey) : Prop :=
  ∃ n t m row, c.TableAt k.1 k.2.1 k.2.2.1 n t ∧ c.RowAt f (Int64.ofInt n) k.2.2.2 m row

theorem Listed.moved {k : RowKey} (listed : Listed c f k)
    (tables : ∀ n t, c.tables.get n = some t → ∃ u, c'.tables.get n = some u ∧
      u.code = t.code ∧ u.scope = t.scope ∧ u.table = t.table)
    (rows : ∀ m (row : f.Row), (c.rows f).get m = some row → ∃ moved, (c'.rows f).get m = some moved ∧
      ContractRow.tId moved = ContractRow.tId row ∧
      ContractRow.primaryKey moved = ContractRow.primaryKey row) : Listed c' f k := by
  obtain ⟨n, t, m, row, here, found⟩ := listed
  obtain ⟨u, held, code, scope, table⟩ := tables n t here.live
  obtain ⟨moved, live, tId, primaryKey⟩ := rows m row found.live
  exact ⟨n, u, m, moved, ⟨held, code.trans here.code, scope.trans here.scope,
    table.trans here.table⟩, live, tId.trans found.tId, primaryKey.trans found.primaryKey⟩

theorem get_push_of_live {T : Type} {s : Slab T} {k : Nat} {old : T} (live : s.get k = some old)
    (new : T) : (s.push new).get k = some old :=
  (if_neg (Nat.ne_of_lt (Slab.lt_of_get live))).trans live

section Slots

variable {g : Family} {k : Nat} {other : g.Row}

theorem rows_push (live : (c.rows g).get k = some other) (new : f.Row) :
    ((c.withRows f ((c.rows f).push new)).rows g).get k = some other := by
  by_cases same : g = f
  · subst same
    rw [rows_withRows_self]
    exact get_push_of_live live new
  · rw [rows_withRows_of_ne same]
    exact live

theorem rows_erase (live : (c.rows g).get k = some other) (apart : g = f → k ≠ m) :
    ((c.withRows f ((c.rows f).erase m)).rows g).get k = some other := by
  by_cases same : g = f
  · subst same
    rw [rows_withRows_self]
    exact (if_neg (apart rfl)).trans live
  · rw [rows_withRows_of_ne same]
    exact live

end Slots

theorem listed_created
    (created : ContractCall.Created c f code scope table payer primaryKey value (.ok ()) c') :
    Listed c' f (code, scope, table, primaryKey) ∧ ∀ g k, Listed c g k → Listed c' g k := by
  have key : ∀ tId stored, ContractRow.primaryKey
      (c.newRow f tId primaryKey payer stored) = primaryKey := by
    intro tId stored
    simp [newRow, Table.constructed]
  have last : ∀ new : f.Row,
      ((c.withRows f ((c.rows f).push new)).rows f).get (c.rows f).len = some new := by
    intro new
    rw [rows_withRows_self]
    exact if_pos rfl
  cases created with
  | @under n t stored here stores free =>
    refine ⟨⟨n, { t with count := t.count + 1 }, (c.rows f).len, _,
      ⟨if_pos rfl, here.code, here.scope, here.table⟩,
      last _, Counted.tId_newRow _ _ _ _ _ _, key _ _⟩, ?_⟩
    intro g k listed
    refine listed.moved ?_ fun m row live => ⟨row, rows_push live _, rfl, rfl⟩
    intro other u held
    by_cases same : other = n
    · subst same
      obtain rfl : t = u := Option.some.inj (here.live.symm.trans held)
      exact ⟨_, if_pos rfl, rfl, rfl, rfl⟩
    · exact ⟨u, (if_neg same).trans held, rfl, rfl, rfl⟩
  | @first stored absent stores free =>
    refine ⟨⟨c.tables.len, firstTable c code scope table payer, (c.rows f).len, _,
      ⟨if_pos rfl, rfl, rfl, rfl⟩, last _, Counted.tId_newRow _ _ _ _ _ _, key _ _⟩, ?_⟩
    intro g k listed
    refine listed.moved ?_ fun m row live => ⟨row, rows_push live _, rfl, rfl⟩
    intro other u held
    exact ⟨u, get_push_of_live held _, rfl, rfl, rfl⟩

theorem listed_rewritten (live : (c.rows f).get m = some row) {stored : ContractRow.Stored f.Row}
    {g : Family} {k : RowKey} (listed : Listed c g k) :
    Listed (c.withRows f ((c.rows f).set m (rewrite payer stored row)
      (Slab.lt_of_get live))) g k :=
  listed.moved (fun _ t held => ⟨t, held, rfl, rfl, rfl⟩) fun k other held => by
    by_cases same : g = f
    · subst same
      rw [rows_withRows_self]
      by_cases here : k = m
      · subst here
        obtain rfl : row = other := Option.some.inj (live.symm.trans held)
        exact ⟨_, if_pos rfl, tId_rewrite _ _ _, primaryKey_rewrite _ _ _⟩
      · exact ⟨other, (if_neg here).trans held, rfl, rfl⟩
    · rw [rows_withRows_of_ne same]
      exact ⟨other, held, rfl, rfl⟩

/-- A table that is left after one row less is the table it was, up to its count. -/
theorem decremented_get (held : c.tables.get n = some t) {k : Nat} {u : ContractTableRow}
    (left : (decremented c.tables n t held).get k = some u) :
    ∃ v, c.tables.get k = some v ∧ u.code = v.code ∧ u.scope = v.scope ∧ u.table = v.table := by
  unfold decremented at left
  by_cases same : k = n
  · subst same
    refine ⟨t, held, ?_⟩
    split at left
    · cases (if_pos rfl).symm.trans left
    · obtain rfl := Option.some.inj ((if_pos rfl).symm.trans left)
      exact ⟨rfl, rfl, rfl⟩
  · refine ⟨u, ?_, rfl, rfl, rfl⟩
    split at left
    · exact (if_neg same).symm.trans left
    · exact (if_neg same).symm.trans left

/-- Only the removed row is no longer listed: its table stays as long as rows are left. -/
theorem listed_removed (counted : Counted c) (here : c.TableAt code scope table n t)
    (found : c.RowAt f (Int64.ofInt n) primaryKey m row)
    (counted' : Counted ((c.withRows f ((c.rows f).erase m)).withTables
      (decremented c.tables n t here.live))) {g : Family} {k : RowKey}
    (listed : Listed c g k) (other : g = f → k ≠ (code, scope, table, primaryKey)) :
    Listed ((c.withRows f ((c.rows f).erase m)).withTables
      (decremented c.tables n t here.live)) g k := by
  obtain ⟨n', t', m', row', there, found'⟩ := listed
  have small := Tallied.small counted here.live
  have small' := Tallied.small counted there.live
  have apart : g = f → m' ≠ m := by
    rintro rfl rfl
    obtain rfl : row = row' := Option.some.inj (found.live.symm.trans found'.live)
    obtain rfl : n = n' := ofInt_inj small small' (found.tId.symm.trans found'.tId)
    obtain rfl : t = t' := Option.some.inj (here.live.symm.trans there.live)
    apply other rfl
    rw [← here.code, ← here.scope, ← here.table, ← found.primaryKey, there.code, there.scope,
      there.table, found'.primaryKey]
  have live := rows_erase (f := f) found'.live apart
  obtain ⟨n'', u, held, refers⟩ := counted'.owner live
  obtain rfl : n' = n'' :=
    ofInt_inj small' (Tallied.small counted' held) (found'.tId.symm.trans refers)
  obtain ⟨v, before, code, scope, table⟩ := decremented_get here.live held
  obtain rfl : t' = v := Option.some.inj (there.live.symm.trans before)
  exact ⟨n', u, m', row', ⟨held, code.trans there.code, scope.trans there.scope,
    table.trans there.table⟩, live, found'.tId, found'.primaryKey⟩

end Content

/-! The books of a context. -/

namespace ApplyState

/-- The database stands for its content, tables count their rows, and the handles of the
context lead to rows that are there. -/
structure Holds (s : ApplyState) (h : History) (d : RowStore DeferredTransactionRow) : Prop where
  keeps : s.contract.KeepsCounts h
  deferred : s.deferred.table.Refines d
  coherent : ∀ f, (s.caches f).Coherent (Listed h.now f)

/-- What was charged is what is billed since the opening, up to what is due; the usage of
an account moves by what it was charged. -/
structure Books (s : ApplyState) (opening : UInt64 → Int) (usage : UInt64 → Option UInt64)
    (due : UInt64 → Int) : Prop where
  charged : s.accountRamDeltas + opening = s.billed + due
  paid : ∀ a, s.ramUsage a = (usage a).map (· + UInt64.ofInt (s.accountRamDeltas a))

variable {s t : ApplyState} {h h' : History} {d d' : RowStore DeferredTransactionRow}
  {opening due due' : UInt64 → Int} {usage : UInt64 → Option UInt64}

theorem billed_of_stands (stands : s.contract.Stands h) (refines : s.deferred.table.Refines d) :
    s.billed = contentBill h.now + d.rows.total deferredBill := by
  have rows : ∀ f, (s.contract.rows f).table.primary.slab = h.now.rows f :=
    fun f => ContractDb.slab_rows stands f
  have tables : s.contract.tables.table.primary.slab = h.now.tables :=
    congrArg RowStore.rows stands.tables.view
  have deferred : s.deferred.table.primary.slab = d.rows := congrArg RowStore.rows refines.view
  unfold billed contentBill sum
  simp only [rows, tables, deferred]

theorem Holds.billed_eq (holds : s.Holds h d) :
    s.billed = contentBill h.now + d.rows.total deferredBill :=
  billed_of_stands holds.keeps.stands holds.deferred

theorem Books.move (books : s.Books opening usage due)
    (deltas : t.accountRamDeltas = s.accountRamDeltas) (paid : t.ramUsage = s.ramUsage)
    (moves : t.billed + due' = s.billed + due) : t.Books opening usage due' where
  charged := by rw [deltas, books.charged, moves]
  paid a := by rw [deltas, paid, books.paid a]

def charge (s : ApplyState) (payer : UInt64) (delta : Int) : ApplyState :=
  { s with
    ramUsage := Function.update s.ramUsage payer
      ((s.ramUsage payer).map (· + UInt64.ofInt delta))
    accountRamDeltas := Function.update s.accountRamDeltas payer (s.accountRamDeltas payer + delta)
    chargedAccounts := s.chargedAccounts ++ [payer] }

theorem Holds.charge (holds : s.Holds h d) (payer : UInt64) (delta : Int) :
    (s.charge payer delta).Holds h d :=
  ⟨holds.keeps, holds.deferred, holds.coherent⟩

theorem Books.charge (books : s.Books opening usage due) (payer : UInt64) (delta : Int) :
    (s.charge payer delta).Books opening usage (due + Pi.single payer delta) := by
  have deltas : (s.charge payer delta).accountRamDeltas =
      s.accountRamDeltas + Pi.single payer delta := by
    ext a
    by_cases same : a = payer
    · subst same
      simp [ApplyState.charge]
    · simp [ApplyState.charge, same]
  constructor
  · rw [deltas, add_right_comm, books.charged, add_assoc]
    rfl
  · intro a
    by_cases same : a = payer
    · subst same
      simp [ApplyState.charge, books.paid a, Function.comp_def, UInt64.ofInt_add, add_assoc]
    · simp [ApplyState.charge, same, books.paid a]

theorem Books.withCaches (books : s.Books opening usage due)
    (caches : Family → ArenaIteratorCache) :
    ApplyState.Books { s with caches := caches } opening usage due :=
  books.move rfl rfl rfl

theorem Holds.withCache (holds : s.Holds h d) {f : Family} {c : ArenaIteratorCache}
    (coherent : c.Coherent (Listed h.now f)) :
    ApplyState.Holds { s with caches := Function.update s.caches f c } h d where
  keeps := holds.keeps
  deferred := holds.deferred
  coherent g := by
    dsimp only
    by_cases same : g = f
    · subst same
      rw [Function.update_self]
      exact coherent
    · rw [Function.update_of_ne same]
      exact holds.coherent g

theorem Holds.withContract (holds : s.Holds h d) {db : ContractDb} {c : Content}
    (stands : db.Stands (h.moved c)) (counted : Counted c)
    (coherent : ∀ f, (s.caches f).Coherent (Listed c f)) :
    ApplyState.Holds { s with contract := db } (h.moved c) d :=
  ⟨holds.keeps.moved stands counted, holds.deferred, coherent⟩

def Kept (s : ApplyState) (opening : UInt64 → Int) (usage : UInt64 → Option UInt64) : Prop :=
  (∃ h d, s.Holds h d) ∧ s.Books opening usage 0

theorem Holds.kept (holds : s.Holds h d) (books : s.Books opening usage due) (settled : due = 0) :
    s.Kept opening usage :=
  ⟨⟨h, d, holds⟩, settled ▸ books⟩

end ApplyState

namespace ApplyCall

variable {s : ApplyState} {h : History} {d : RowStore DeferredTransactionRow}
  {opening due : UInt64 → Int} {usage : UInt64 → Option UInt64} {α Action : Type}
  {post : α → ApplyState → Prop} {env : ApplyEnv Action} {f : Family}
  {code scope table primary payer : UInt64}

theorem yields_onContract {name : String} {call : ContractCall α} {verdict : Except TableError α}
    {db : ContractDb} (ran : call s.contract = (verdict, db))
    (holds : ∀ a, verdict = .ok a → post a { s with contract := db }) :
    Yields s (onContract name call) post := by
  cases verdict with
  | ok a =>
    refine of_ok (a := a) (t := { s with contract := db }) ?_ (holds a rfl)
    unfold onContract
    rw [ran]
  | error e =>
    refine of_error (e := .arena name e) (t := { s with contract := db }) ?_
    unfold onContract
    rw [ran]

theorem yields_onCache {op : ArenaIteratorCache → α × ArenaIteratorCache}
    (holds : post (op (s.caches f)).1
      { s with caches := Function.update s.caches f (op (s.caches f)).2 }) :
    Yields s (onCache f op) post :=
  of_ok rfl holds

theorem yields_updateDbUsage {delta : Int} {post : Unit → ApplyState → Prop}
    (holds : post () (s.charge payer delta)) :
    Yields s (updateDbUsage env payer delta) post := by
  have check : ∀ {next : Unit → ApplyState → Prop}, next () s →
      Yields s (eagerRamCheck env payer delta) next := by
    intro next here
    unfold eagerRamCheck
    split
    · apply assert_bind
      intro _
      apply of_assert
      intro _
      exact here
    · exact of_pure here
  apply Yields.bind
  apply check
  refine ok_bind rfl ?_
  apply Yields.read_bind
  apply assert_bind
  intro _
  exact of_ok rfl holds

theorem yields_arenaTable {post : Option ContractTableRow → ApplyState → Prop}
    (stands : s.contract.Stands h)
    (found : ∀ n t, h.now.TableAt code scope table n t → post (some t) s)
    (missing : (∀ n t, ¬h.now.TableAt code scope table n t) → post none s) :
    Yields s (arenaTable code scope table) post := by
  apply of_read
  cases result : s.contract.tables.findBy ContractTableRow.byCodeScopeTable (code, scope, table) with
  | some t =>
    obtain ⟨n, here⟩ := (ContractDb.find_table stands code scope table t).mp result
    exact found n t here
  | none =>
    apply missing
    intro n t here
    have known := (ContractDb.find_table stands code scope table t).mpr ⟨n, here⟩
    cases result.symm.trans known

theorem yields_arenaRow {post : Option f.Row → ApplyState → Prop} (stands : s.contract.Stands h)
    (found : ∀ n t m row, h.now.TableAt code scope table n t →
      h.now.RowAt f (Int64.ofInt n) primary m row → post (some row) s)
    (missing : ContractCall.Missing h.now f code scope table primary → post none s) :
    Yields s (arenaRow f code scope table primary) post := by
  apply of_read
  rcases findTable_cases stands code scope table with ⟨n, t, here, ran⟩ | ⟨absent, ran⟩
  · have resolved : resolveTId s.contract.tables code scope table = some (Int64.ofInt t.id) :=
      congrArg (Option.map fun t : ContractTableRow => Int64.ofInt t.id)
        (Except.ok.inj (congrArg Prod.fst ran))
    rw [resolved, stands.id_table here.live]
    rcases findRow_cases stands f (Int64.ofInt n) primary with
      ⟨m, row, at', ran'⟩ | ⟨none, ran'⟩
    · have result := Except.ok.inj (congrArg Prod.fst ran')
      exact (congrArg (post · s) result).mpr (found n t m row here at')
    · have result := Except.ok.inj (congrArg Prod.fst ran')
      exact (congrArg (post · s) result).mpr
        (missing (missing_of_no_row stands here none))
  · have resolved : resolveTId s.contract.tables code scope table = none :=
      congrArg (Option.map fun t : ContractTableRow => Int64.ofInt t.id)
        (Except.ok.inj (congrArg Prod.fst ran))
    rw [resolved]
    exact missing (missing_of_absent absent)

theorem yields_arenaTableExists {post : Bool → ApplyState → Prop} (stands : s.contract.Stands h)
    (found : ∀ n t, h.now.TableAt code scope table n t → post true s)
    (missing : (∀ n t, ¬h.now.TableAt code scope table n t) → post false s) :
    Yields s (arenaTableExists code scope table) post := by
  apply Yields.bind
  apply yields_arenaTable stands
  · intro n t here
    exact of_pure (found n t here)
  · intro absent
    exact of_pure (missing absent)

theorem length_of_blob {T : Type} [ArenaObject T] {t : Registered T} {r : BlobRef} {bytes : Bytes}
    (found : t.blob r = some bytes) : bytes.length = r.len.toNat := by
  unfold Registered.blob at found
  split at found
  · next inside =>
    rw [← Option.some.inj found]
    simp only [Table.blob, slice, List.length_take, List.length_drop]
    omega
  · cases found

theorem yields_arenaKvRow {post : Option (UInt64 × Bytes) → ApplyState → Prop}
    (stands : s.contract.Stands h)
    (found : ∀ n t m (row : ContractKeyValueRow) value, h.now.TableAt code scope table n t →
      h.now.RowAt .primary (Int64.ofInt n) primary m row →
      value.length = storedSize .primary row → post (some (row.payer, value)) s)
    (missing : ContractCall.Missing h.now .primary code scope table primary → post none s) :
    Yields s (arenaKvRow code scope table primary) post := by
  apply Yields.bind
  apply yields_arenaRow stands
  · intro n t m row here at'
    apply Yields.read_bind
    split
    · exact of_throw _
    · next value read =>
      exact of_pure (found n t m row value here at' (length_of_blob read))
  · intro gone
    exact of_pure (missing gone)

theorem yields_arenaIdxPayer {post : Option UInt64 → ApplyState → Prop}
    (stands : s.contract.Stands h)
    (found : ∀ n t m (row : f.Row), h.now.TableAt code scope table n t →
      h.now.RowAt f (Int64.ofInt n) primary m row → post (some (ContractRow.payer row)) s)
    (missing : ContractCall.Missing h.now f code scope table primary → post none s) :
    Yields s (arenaIdxPayer f code scope table primary) post := by
  apply Yields.bind
  apply yields_arenaRow stands
  · intro n t m row here at'
    exact of_pure (found n t m row here at')
  · intro gone
    exact of_pure (missing gone)

theorem yields_rowOfOwn {iterator : Int32} {post : RowKey → ApplyState → Prop}
    (found : ∀ k, (s.caches f).rowOf iterator = some k → post k s) :
    Yields s (rowOfOwn env f iterator) post := by
  apply Yields.read_bind
  split
  · exact of_throw _
  · next k here =>
    apply assert_bind
    intro _
    exact of_pure (found k here)

end ApplyCall

end PulseVM.Chain
