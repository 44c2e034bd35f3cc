import PulseVM.ChainDb.ContractSteps
import PulseVM.Lib.Totals

/-!
A contract table is there exactly as long as rows refer to it, and its count is their
number. Every call keeps this for the content now, and a session operation only moves
between contents for which it was kept before. The count has 32 bits and an id 63, so
both are asked to have room where a row is stored.
-/

namespace PulseVM.ChainDb
open Arena Lib.Encoding Lib.Calls Lib.Undo
open ArenaObject hiding id
open ContractCall

namespace Content
open ContractDb

section Sums

variable {M : Type} [AddCommMonoid M]

/-- The sum of the weights of all rows, family by family. -/
def sum (c : Content) (weight : (f : Family) → f.Row → M) : M := ∑ f, (c.rows f).total (weight f)

variable {c : Content} {f : Family} {rows : Slab f.Row} {weight : (f : Family) → f.Row → M}

theorem sum_withRows {a b : M} (moves : rows.total (weight f) + a = (c.rows f).total (weight f) + b) :
    (c.withRows f rows).sum weight + a = c.sum weight + b := by
  have member : f ∈ (Finset.univ : Finset Family) := Finset.mem_univ f
  have others : ∑ g ∈ Finset.univ.erase f, ((c.withRows f rows).rows g).total (weight g) =
      ∑ g ∈ Finset.univ.erase f, (c.rows g).total (weight g) := by
    apply Finset.sum_congr rfl
    intro g listed
    rw [rows_withRows_of_ne (Finset.ne_of_mem_erase listed)]
  unfold sum
  rw [← Finset.add_sum_erase _ _ member, ← Finset.add_sum_erase _ _ member, others,
    rows_withRows_self, add_right_comm, moves, add_right_comm]

theorem sum_push (c : Content) (row : f.Row) (weight : (f : Family) → f.Row → M) :
    (c.withRows f ((c.rows f).push row)).sum weight = c.sum weight + weight f row := by
  have moved : (c.withRows f ((c.rows f).push row)).sum weight + 0 = c.sum weight + weight f row :=
    sum_withRows (by rw [Slab.total_push, add_zero])
  rw [add_zero] at moved
  exact moved

theorem sum_set {m : Nat} {old : f.Row} (held : (c.rows f).get m = some old) (row : f.Row)
    (weight : (f : Family) → f.Row → M) :
    (c.withRows f ((c.rows f).set m row (Slab.lt_of_get held))).sum weight + weight f old =
      c.sum weight + weight f row :=
  sum_withRows (Slab.total_set held row (weight f))

theorem sum_erase {m : Nat} {row : f.Row} (held : (c.rows f).get m = some row)
    (weight : (f : Family) → f.Row → M) :
    (c.withRows f ((c.rows f).erase m)).sum weight + weight f row = c.sum weight := by
  have moved : (c.withRows f ((c.rows f).erase m)).sum weight + weight f row = c.sum weight + 0 :=
    sum_withRows (by rw [Slab.total_erase held, add_zero])
  rw [add_zero] at moved
  exact moved

end Sums

def children (c : Content) (tId : Int64) : Nat :=
  c.sum fun _ row => if ContractRow.tId row = tId then 1 else 0

theorem children_pos {c : Content} {f : Family} {m : Nat} {row : f.Row}
    (live : (c.rows f).get m = some row) : 0 < c.children (ContractRow.tId row) := by
  have one := sum_erase live fun _ other =>
    if ContractRow.tId other = ContractRow.tId row then 1 else 0
  rw [if_pos rfl] at one
  unfold children
  omega

theorem children_eq_zero {c : Content} {tId : Int64}
    (free : ∀ f m (row : f.Row), (c.rows f).get m = some row → ContractRow.tId row ≠ tId) :
    c.children tId = 0 := by
  unfold children sum
  apply Finset.sum_eq_zero
  intro f _
  apply Slab.total_eq_zero
  intro m row live
  exact if_neg (free f m row live)

end Content

theorem ofInt_inj {n m : Nat} (smallN : n < 2 ^ 63) (smallM : m < 2 ^ 63)
    (same : Int64.ofInt n = Int64.ofInt m) : n = m := by
  have both := congrArg Int64.toInt same
  rw [toInt_ofInt smallN, toInt_ofInt smallM] at both
  exact Int.ofNat.inj both

/-- Every table counts what refers to it, at least one row, and what is referred to is a
table. -/
structure Tallied (tables : Slab ContractTableRow) (children : Int64 → Nat) : Prop where
  bounded : tables.len ≤ 2 ^ 63
  counted : ∀ n t, tables.get n = some t → t.count.toNat = children (Int64.ofInt n)
  used : ∀ n t, tables.get n = some t → 0 < children (Int64.ofInt n)
  owned : ∀ tId, 0 < children tId → ∃ n t, tables.get n = some t ∧ tId = Int64.ofInt n

namespace Tallied

variable {tables : Slab ContractTableRow} {children children' : Int64 → Nat} {n : Nat}
  {t : ContractTableRow}

theorem empty : Tallied Slab.empty fun _ => 0 where
  bounded := Nat.zero_le _
  counted := nofun
  used := nofun
  owned := nofun

section

variable (tallied : Tallied tables children)

include tallied

theorem small (live : tables.get n = some t) : n < 2 ^ 63 :=
  lt_of_lt_of_le (Slab.lt_of_get live) tallied.bounded

theorem unused (room : tables.len < 2 ^ 63) :
    children (Int64.ofInt tables.len) = 0 := by
  by_contra some
  obtain ⟨k, u, live, same⟩ := tallied.owned _ (Nat.pos_of_ne_zero some)
  have inside := Slab.lt_of_get live
  have equal := ofInt_inj room (inside.trans room) same
  omega

/-- When one slot changes and with it only what refers to its id, that slot decides. -/
theorem moved {tables' : Slab ContractTableRow}
    (bounded : tables'.len ≤ 2 ^ 63) (small : n < 2 ^ 63)
    (elsewhere : ∀ k, k ≠ n → tables'.get k = tables.get k)
    (rest : ∀ tId, tId ≠ Int64.ofInt n → children' tId = children tId)
    (here : ∀ u, tables'.get n = some u →
      u.count.toNat = children' (Int64.ofInt n) ∧ 0 < children' (Int64.ofInt n))
    (gone : tables'.get n = none → children' (Int64.ofInt n) = 0) : Tallied tables' children' := by
  have each : ∀ k u, tables'.get k = some u →
      u.count.toNat = children' (Int64.ofInt k) ∧ 0 < children' (Int64.ofInt k) := by
    intro k u held
    by_cases same : k = n
    · subst same
      exact here u held
    · have before : tables.get k = some u := (elsewhere k same).symm.trans held
      have apart : Int64.ofInt k ≠ Int64.ofInt n :=
        fun equal => same (ofInt_inj (tallied.small before) small equal)
      rw [rest _ apart]
      exact ⟨tallied.counted k u before, tallied.used k u before⟩
  refine ⟨bounded, fun k u held => (each k u held).1, fun k u held => (each k u held).2, ?_⟩
  intro tId positive
  by_cases same : tId = Int64.ofInt n
  · cases held : tables'.get n with
    | some u => exact ⟨n, u, held, same⟩
    | none =>
      rw [same, gone held] at positive
      omega
  · rw [rest tId same] at positive
    obtain ⟨k, u, before, refers⟩ := tallied.owned tId positive
    have other : k ≠ n := fun equal => same (equal ▸ refers)
    exact ⟨k, u, (elsewhere k other).trans before, refers⟩

theorem more (live : tables.get n = some t)
    (room : children (Int64.ofInt n) + 1 < 2 ^ 32)
    (one : children' (Int64.ofInt n) = children (Int64.ofInt n) + 1)
    (rest : ∀ tId, tId ≠ Int64.ofInt n → children' tId = children tId) :
    Tallied (tables.set n { t with count := t.count + 1 } (Slab.lt_of_get live)) children' := by
  have now : (tables.set n { t with count := t.count + 1 } (Slab.lt_of_get live)).get n =
      some { t with count := t.count + 1 } := if_pos rfl
  have before := tallied.counted n t live
  have sum : (t.count + 1).toNat = (t.count.toNat + 1) % 2 ^ 32 := UInt32.toNat_add t.count 1
  refine tallied.moved tallied.bounded (tallied.small live) (fun k other => if_neg other) rest
      ?_ ?_
  · intro u held
    rw [← Option.some.inj (now.symm.trans held)]
    dsimp only
    omega
  · intro gone
    cases now.symm.trans gone

theorem first (room : tables.len < 2 ^ 63) (single : t.count = 1)
    (one : children' (Int64.ofInt tables.len) = 1)
    (rest : ∀ tId, tId ≠ Int64.ofInt tables.len → children' tId = children tId) :
    Tallied (tables.push t) children' := by
  have now : (tables.push t).get tables.len = some t := if_pos rfl
  refine tallied.moved room room (fun k other => if_neg other) rest ?_ ?_
  · intro u held
    rw [← Option.some.inj (now.symm.trans held), single, one]
    decide
  · intro gone
    cases now.symm.trans gone

omit tallied in
theorem toNat_saturatingPred {count : UInt32} {k : Nat} (counts : count.toNat = k + 1) :
    (saturatingPred count).toNat = k := by
  have used : count ≠ 0 := by
    rintro rfl
    cases counts
  have least : (1 : UInt32) ≤ count := by
    rw [UInt32.le_iff_toNat_le, counts]
    exact Nat.le_add_left _ _
  rw [saturatingPred, if_neg used, UInt32.toNat_sub_of_le _ _ least, counts]
  rfl

theorem less (live : tables.get n = some t)
    (one : children' (Int64.ofInt n) + 1 = children (Int64.ofInt n))
    (rest : ∀ tId, tId ≠ Int64.ofInt n → children' tId = children tId) :
    Tallied (decremented tables n t live) children' := by
  have pred := toNat_saturatingPred ((tallied.counted n t live).trans one.symm)
  unfold decremented
  split
  · next last =>
    rw [last] at pred
    have now : (tables.erase n).get n = none := if_pos rfl
    refine tallied.moved tallied.bounded (tallied.small live) (fun k other => if_neg other) rest
      ?_ ?_
    · intro u held
      cases now.symm.trans held
    · intro _
      exact pred.symm
  · next left =>
    have now : (tables.set n { t with count := saturatingPred t.count }
        (Slab.lt_of_get live)).get n =
        some { t with count := saturatingPred t.count } := if_pos rfl
    have used : (saturatingPred t.count).toNat ≠ 0 := fun zero =>
      left (UInt32.toNat_inj.mp zero)
    refine tallied.moved tallied.bounded (tallied.small live) (fun k other => if_neg other) rest
      ?_ ?_
    · intro u held
      rw [← Option.some.inj (now.symm.trans held)]
      dsimp only
      omega
    · intro gone
      cases now.symm.trans gone

end

end Tallied

/-- The tables of a content count its rows. -/
def Counted (c : Content) : Prop := Tallied c.tables c.children

namespace Counted

variable {c c' : Content} {f : Family} {n : Nat} {code scope table payer primaryKey : UInt64}
  {value : f.Value} {verdict : Except TableError Unit}

theorem empty : Counted Content.empty := by
  have zero : Content.empty.children = fun _ => 0 :=
    funext fun _ => Content.children_eq_zero nofun
  unfold Counted
  rw [zero]
  exact Tallied.empty

theorem owner (counted : Counted c) {m : Nat} {row : f.Row} (live : (c.rows f).get m = some row) :
    ∃ n t, c.tables.get n = some t ∧ ContractRow.tId row = Int64.ofInt n :=
  counted.owned _ (Content.children_pos live)

theorem fresh_free (counted : Counted c) (room : c.tables.len < 2 ^ 63) {row : f.Row}
    (fresh : ContractRow.tId row = Int64.ofInt c.tables.len) :
    clash (c.rows f).get (c.rows f).len row = none := by
  rw [clash_eq_none_iff]
  rintro decl member ⟨m, other, _, live, same⟩
  have refers := LawfulContractRow.sameTable decl member other row same
  have used := Content.children_pos live
  rw [refers, fresh, counted.unused room] at used
  omega

theorem tId_newRow (c : Content) (f : Family) (tId : Int64) (primaryKey payer : UInt64)
    (stored : ContractRow.Stored f.Row) :
    ContractRow.tId (c.newRow f tId primaryKey payer stored) = tId := by
  simp [Content.newRow, Table.constructed]

theorem children_push (c : Content) (row : f.Row) (tables : Slab ContractTableRow) (tId : Int64) :
    ((c.withRows f ((c.rows f).push row)).withTables tables).children tId =
      c.children tId + if ContractRow.tId row = tId then 1 else 0 :=
  Content.sum_push c row _

theorem created (counted : Counted c) (room : c.tables.len < 2 ^ 63)
    (places : ∀ n t, c.TableAt code scope table n t → c.children (Int64.ofInt n) + 1 < 2 ^ 32)
    (created : ContractCall.Created c f code scope table payer primaryKey value verdict c') :
    Counted c' := by
  cases created with
  | refused => exact counted
  | @under n t stored here stores free =>
    apply Tallied.more counted here.live (places n t here)
    · rw [children_push, tId_newRow, if_pos rfl]
    · intro tId other
      rw [children_push, tId_newRow, if_neg other.symm, Nat.add_zero]
  | @orphan name stored absent stores clashes =>
    have free := counted.fresh_free room
      (tId_newRow c f (Int64.ofInt c.tables.len) primaryKey payer stored)
    cases free.symm.trans clashes
  | @first stored absent stores free =>
    apply Tallied.first counted room rfl
    · rw [children_push, tId_newRow, if_pos rfl, counted.unused room]
    · intro tId other
      rw [children_push, tId_newRow, if_neg other.symm, Nat.add_zero]

theorem rewrite (counted : Counted c) {m : Nat} {row : f.Row} (live : (c.rows f).get m = some row)
    (payer : UInt64) (stored : ContractRow.Stored f.Row) :
    Counted (c.withRows f
      ((c.rows f).set m (ContractRow.rewrite payer stored row) (Slab.lt_of_get live))) := by
  have same : (c.withRows f ((c.rows f).set m (ContractRow.rewrite payer stored row)
      (Slab.lt_of_get live))).children = c.children := by
    funext tId
    have moved := Content.sum_set live (ContractRow.rewrite payer stored row)
      fun _ other => if ContractRow.tId other = tId then 1 else 0
    rw [ContractRow.tId_rewrite] at moved
    exact Nat.add_right_cancel moved
  unfold Counted
  rw [same]
  exact counted

theorem updated (counted : Counted c)
    (updated : ContractCall.Updated c f code scope table primaryKey payer value verdict c') :
    Counted c' := by
  cases updated with
  | missing => exact counted
  | refused => exact counted
  | rewritten _ found => exact counted.rewrite found.live _ _

theorem rewritten (counted : Counted c) (rewritten : ContractCall.Rewritten c c') : Counted c' := by
  induction rewritten with
  | done => exact counted
  | step live _ _ ih => exact ih (counted.rewrite live _ _)

theorem removed (counted : Counted c)
    (removed : ContractCall.Removed c f code scope table primaryKey verdict c') : Counted c' := by
  cases removed with
  | missing => exact counted
  | @removed n t m row here found =>
    have children := fun tId => Content.sum_erase found.live fun _ other =>
      if ContractRow.tId other = tId then 1 else 0
    apply Tallied.less counted here.live
    · have one := children (Int64.ofInt n)
      rw [if_pos found.tId] at one
      exact one
    · intro tId other
      have same := children tId
      rw [found.tId, if_neg other.symm] at same
      exact same

end Counted

namespace ContractDb

def children (db : ContractDb) (tId : Int64) : Nat :=
  ∑ f, (db.rows f).table.primary.slab.total fun row => if ContractRow.tId row = tId then 1 else 0

/-- A row of the database refers to the table `(code, scope, table)`. -/
def Refers (db : ContractDb) (code scope table : UInt64) : Prop :=
  ∃ f m row t, (db.rows f).table.primary.get m = some row ∧
    db.tables.table.find (ContractRow.tId row).toInt = some t ∧
    t.code = code ∧ t.scope = scope ∧ t.table = table

/-- The tables are those that rows refer to, with the number of these rows, and every row
refers to a table that is there. -/
structure TablesMatchRows (db : ContractDb) : Prop where
  exists_iff : ∀ code scope table,
    (db.tables.findBy ContractTableRow.byCodeScopeTable (code, scope, table)).isSome ↔
      db.Refers code scope table
  counted : ∀ code scope table t,
    db.tables.findBy ContractTableRow.byCodeScopeTable (code, scope, table) = some t →
      t.count.toNat = db.children (Int64.ofInt t.id)
  owned : ∀ f m row, (db.rows f).table.primary.get m = some row →
    (db.tables.table.find (ContractRow.tId row).toInt).isSome

/-- Where a row is stored, another table id can be given out and the count of its table
does not run over. -/
def HasRoom (db : ContractDb) : ContractOp → Prop
  | .create _ code scope table _ _ _ => db.tables.table.nextId < 2 ^ 63 ∧
      ∀ t ∈ db.tables.findBy ContractTableRow.byCodeScopeTable (code, scope, table),
        db.children (Int64.ofInt t.id) + 1 < 2 ^ 32
  | _ => True

instance (db : ContractDb) : (op : ContractOp) → Decidable (db.HasRoom op)
  | .create _ _ _ _ _ _ _ => inferInstanceAs (Decidable (_ ∧ _))
  | .update .. => isTrue trivial
  | .updateMany _ => isTrue trivial
  | .remove .. => isTrue trivial
  | .startUndoSession => isTrue trivial
  | .undo => isTrue trivial
  | .squash => isTrue trivial
  | .commit _ => isTrue trivial

/-- Every content of the history is counted, so undoing a session finds one that is. -/
structure KeepsCounts (db : ContractDb) (h : History) : Prop where
  stands : db.Stands h
  now : Counted h.now
  saved : ∀ c ∈ h.saved, Counted c

variable {db : ContractDb} {h : History}

theorem slab_rows (stands : db.Stands h) (f : Family) :
    (db.rows f).table.primary.slab = h.now.rows f :=
  congrArg RowStore.rows (stands.rows f).view

theorem children_eq (stands : db.Stands h) : db.children = h.now.children := by
  funext tId
  unfold children Content.children Content.sum
  apply Finset.sum_congr rfl
  intro f _
  rw [slab_rows stands f]

theorem nextId_eq (stands : db.Stands h) : db.tables.table.nextId = h.now.tables.len :=
  congrArg (fun s : RowStore ContractTableRow => s.rows.len) stands.tables.view

theorem find_table (stands : db.Stands h) (code scope table : UInt64) (t : ContractTableRow) :
    db.tables.findBy ContractTableRow.byCodeScopeTable (code, scope, table) = some t ↔
      ∃ n, h.now.TableAt code scope table n t := by
  refine (Registered.findBy_eq_some_iff stands.tables.sound).trans ?_
  rw [stands.get_tables]
  constructor
  · rintro ⟨n, live, same⟩
    obtain ⟨hasCode, hasScope, hasTable⟩ := ContractTableRow.matches_iff.mp same
    exact ⟨n, live, hasCode, hasScope, hasTable⟩
  · rintro ⟨n, live, hasCode, hasScope, hasTable⟩
    exact ⟨n, live, ContractTableRow.matches_iff.mpr ⟨hasCode, hasScope, hasTable⟩⟩

namespace KeepsCounts

section

variable (keeps : db.KeepsCounts h)

include keeps

theorem moved {c : Content} {db' : ContractDb}
    (stands : db'.Stands (h.moved c)) (counted : Counted c) : db'.KeepsCounts (h.moved c) :=
  ⟨stands, counted, keeps.saved⟩

omit keeps in
theorem new : new.KeepsCounts ⟨Content.empty, [], 0⟩ :=
  ⟨Stands.new, Counted.empty, nofun⟩

theorem undo : db.undo.KeepsCounts h.undo := by
  refine ⟨keeps.stands.undo, ?_, ?_⟩
  · unfold History.undo
    split
    · exact keeps.now
    · next first rest saved => exact keeps.saved first (saved ▸ List.mem_cons_self)
  · intro c member
    unfold History.undo at member
    split at member
    · exact keeps.saved c member
    · next first rest saved => exact keeps.saved c (saved ▸ List.mem_cons_of_mem _ member)

theorem squash : db.squash.KeepsCounts h.squash := by
  refine ⟨keeps.stands.squash, ?_, ?_⟩
  · unfold History.squash
    split <;> exact keeps.now
  · intro c member
    unfold History.squash at member
    split at member
    · exact keeps.saved c member
    · next first rest saved => exact keeps.saved c (saved ▸ List.mem_cons_of_mem _ member)

theorem startUndoSession :
    db.startUndoSession.KeepsCounts h.startUndoSession := by
  refine ⟨keeps.stands.startUndoSession, keeps.now, ?_⟩
  intro c member
  rcases List.mem_cons.mp member with rfl | below
  · exact keeps.now
  · exact keeps.saved c below

theorem commit (revision : Int) :
    (db.commit revision).KeepsCounts (h.commit revision) :=
  ⟨keeps.stands.commit revision, keeps.now, fun c member => keeps.saved c (List.mem_of_mem_take member)⟩

theorem apply (op : ContractOp) (room : db.HasRoom op) :
    ∃ h', (db.apply op).KeepsCounts h' := by
  have stands := keeps.stands
  cases op with
  | create f code scope table payer primaryKey value =>
    obtain ⟨nextId, places⟩ := room
    rw [nextId_eq stands] at nextId
    obtain ⟨verdict, db', c, ran, moves, created⟩ := createObject_spec stands nextId f
      code scope table payer primaryKey value
    have state : db.apply (.create f code scope table payer primaryKey value) = db' :=
      congrArg Prod.snd ran
    rw [state]
    refine ⟨_, keeps.moved moves (keeps.now.created nextId ?_ created)⟩
    intro n t here
    have free := places t ((find_table stands code scope table t).mpr ⟨n, here⟩)
    rw [children_eq stands, stands.id_table here.live] at free
    exact free
  | update f code scope table primaryKey payer value =>
    obtain ⟨verdict, db', c, ran, moves, updated⟩ := updateObject_spec stands f
      code scope table primaryKey payer value
    have state : db.apply (.update f code scope table primaryKey payer value) = db' :=
      congrArg Prod.snd ran
    rw [state]
    exact ⟨_, keeps.moved moves (keeps.now.updated updated)⟩
  | updateMany updates =>
    obtain ⟨verdict, db', c, ran, moves, rewritten⟩ :=
      updateKeyValueObjects_spec stands updates
    have state : db.apply (.updateMany updates) = db' := congrArg Prod.snd ran
    rw [state]
    exact ⟨_, keeps.moved moves (keeps.now.rewritten rewritten)⟩
  | remove f code scope table primaryKey =>
    obtain ⟨verdict, db', c, ran, moves, removed⟩ := removeObject_spec stands
      keeps.now.bounded f code scope table primaryKey
    have state : db.apply (.remove f code scope table primaryKey) = db' := congrArg Prod.snd ran
    rw [state]
    exact ⟨_, keeps.moved moves (keeps.now.removed removed)⟩
  | startUndoSession => exact ⟨_, keeps.startUndoSession⟩
  | undo => exact ⟨_, keeps.undo⟩
  | squash => exact ⟨_, keeps.squash⟩
  | commit revision => exact ⟨_, keeps.commit revision⟩

theorem tablesMatchRows : db.TablesMatchRows := by
  have stands := keeps.stands
  have owner : ∀ f m row, (db.rows f).table.primary.get m = some row →
      ∃ n t, h.now.tables.get n = some t ∧
        db.tables.table.find (ContractRow.tId row).toInt = some t := by
    intro f m row live
    rw [stands.get_rows] at live
    obtain ⟨n, t, held, refers⟩ := keeps.now.owner live
    refine ⟨n, t, held, ?_⟩
    rw [refers, toInt_ofInt (Tallied.small keeps.now held)]
    exact (congrFun stands.get_tables n).trans held
  refine ⟨?_, ?_, ?_⟩
  · intro code scope table
    rw [Option.isSome_iff_exists]
    constructor
    · rintro ⟨t, found⟩
      obtain ⟨n, here⟩ := (find_table stands code scope table t).mp found
      have used := Tallied.used keeps.now n t here.live
      obtain ⟨f, m, row, live, refers⟩ : ∃ f m row, (h.now.rows f).get m = some row ∧
          ContractRow.tId row = Int64.ofInt n := by
        by_contra none
        rw [Content.children_eq_zero fun f m row live refers => none ⟨f, m, row, live, refers⟩] at used
        omega
      refine ⟨f, m, row, t, ?_, ?_, here.code, here.scope, here.table⟩
      · rw [stands.get_rows]
        exact live
      · rw [refers, toInt_ofInt (Tallied.small keeps.now here.live)]
        exact (congrFun stands.get_tables n).trans here.live
    · rintro ⟨f, m, row, t, live, found, hasCode, hasScope, hasTable⟩
      obtain ⟨n, u, held, same⟩ := owner f m row live
      have equal : u = t := Option.some.inj (same.symm.trans found)
      exact ⟨t, (find_table stands code scope table t).mpr
        ⟨n, equal ▸ held, hasCode, hasScope, hasTable⟩⟩
  · intro code scope table t found
    obtain ⟨n, here⟩ := (find_table stands code scope table t).mp found
    rw [children_eq stands, stands.id_table here.live]
    exact Tallied.counted keeps.now n t here.live
  · intro f m row live
    obtain ⟨n, t, _, found⟩ := owner f m row live
    rw [found]
    rfl

end

end KeepsCounts

/-- After every run in which the counts and the ids have room, the tables match the rows. -/
theorem run_tablesMatchRows (ops : List ContractOp)
    (room : Along apply HasRoom new ops) :
    (new.run ops).TablesMatchRows := by
  obtain ⟨h, keeps⟩ : ∃ h, (new.run ops).KeepsCounts h :=
    room.foldl (p := fun db => ∃ h, db.KeepsCounts h)
      (fun db op ⟨h, keeps⟩ allowed => keeps.apply op allowed) ⟨_, KeepsCounts.new⟩
  exact keeps.tablesMatchRows

theorem run_tablesMatchRows_two_families :
    (new.run [.create .primary 1 2 3 4 5 [6], .startUndoSession,
      .create .idxDouble 1 2 3 4 5 (7 : UInt64), .remove .primary 1 2 3 5]).TablesMatchRows :=
  run_tablesMatchRows _ (by decide +kernel)

/-- Rows under one table, each with the next primary key and no value. -/
def manyRows (n : Nat) : List ContractOp :=
  (List.range n).map fun k => .create .primary 1 2 3 4 (UInt64.ofNat k) []

/-- One table holds all rows, their keys were given in order and the count has its 32
bits. -/
structure Crowded (db : ContractDb) (h : History) (n : Nat) (t : ContractTableRow) : Prop where
  stands : db.Stands h
  single : h.now.tables.len = 1
  here : h.now.TableAt 1 2 3 0 t
  count : t.count = UInt32.ofNat n
  keys : ∀ m (row : ContractKeyValueRow), (h.now.rows .primary).get m = some row →
    row.primaryKey.toNat < n
  held : ∃ m row, (h.now.rows .primary).get m = some row ∧ ContractRow.tId row = Int64.ofInt (0 : Nat)

theorem keys_push {c : Content} {n : Nat} (small : n < 2 ^ 64)
    (keys : ∀ m (row : ContractKeyValueRow), (c.rows .primary).get m = some row →
      row.primaryKey.toNat < n)
    (tId : Int64) (stored : BlobRef) {m : Nat} {row : ContractKeyValueRow}
    (live : ((c.rows .primary).push (c.newRow .primary tId (UInt64.ofNat n) 4 stored)).get m =
      some row) : row.primaryKey.toNat < n + 1 := by
  by_cases last : m = (c.rows .primary).len
  · rw [← Option.some.inj ((if_pos last).symm.trans live)]
    have key : (c.newRow .primary tId (UInt64.ofNat n) 4 stored).primaryKey.toNat = n :=
      UInt64.toNat_ofNat_of_lt' small
    rw [key]
    exact Nat.lt_succ_self n
  · exact (keys m row ((if_neg last).symm.trans live)).trans (Nat.lt_succ_self n)

theorem clash_next {c : Content} {n : Nat} (small : n < 2 ^ 64)
    (keys : ∀ m (row : ContractKeyValueRow), (c.rows .primary).get m = some row →
      row.primaryKey.toNat < n)
    (tId : Int64) (stored : BlobRef) :
    clash (c.rows .primary).get (c.rows .primary).len
      (c.newRow .primary tId (UInt64.ofNat n) 4 stored) = none := by
  rw [clash_eq_none_iff]
  rintro decl member ⟨m, row, _, live, same⟩
  rw [List.mem_singleton.mp member] at same
  have equal := (ContractRow.matches_iff.mp same).2
  have key : (UInt64.ofNat n).toNat = n := UInt64.toNat_ofNat_of_lt' small
  have below := keys m row live
  have number : row.primaryKey = UInt64.ofNat n := equal
  rw [number, key] at below
  omega

theorem crowded_first : ∃ h t, (new.run (manyRows 1)).Crowded h 1 t := by
  obtain ⟨verdict, db', c, ran, moves, created⟩ := createObject_spec Stands.new
    (by decide) .primary 1 2 3 4 0 []
  have state : new.run (manyRows 1) = db' := congrArg Prod.snd ran
  have noKeys : ∀ m (row : ContractKeyValueRow), (Content.empty.rows .primary).get m = some row →
      row.primaryKey.toNat < 0 := nofun
  rw [state]
  cases created with
  | refused here => cases here.live
  | under here => cases here.live
  | @orphan name stored absent stores clashes =>
    cases (clash_next (n := 0) (by decide) noKeys _ stored).symm.trans clashes
  | @first stored absent stores free =>
    refine ⟨_, _, moves, rfl, ⟨rfl, rfl, rfl, rfl⟩, rfl, ?_, 0, _, rfl, ?_⟩
    · intro m row live
      exact keys_push (n := 0) (by decide) noKeys _ stored live
    · exact Counted.tId_newRow _ _ _ _ _ _

theorem Crowded.next {n : Nat} {t : ContractTableRow} (crowded : db.Crowded h n t)
    (small : n < 2 ^ 64) :
    ∃ h' t', (db.apply (.create .primary 1 2 3 4 (UInt64.ofNat n) [])).Crowded h' (n + 1) t' := by
  obtain ⟨stands, single, there, count, keys, k, other, live, refers⟩ := crowded
  obtain ⟨verdict, db', c, ran, moves, created⟩ := createObject_spec stands
    (by rw [single]; decide) .primary 1 2 3 4 (UInt64.ofNat n) []
  have state : db.apply (.create .primary 1 2 3 4 (UInt64.ofNat n) []) = db' :=
    congrArg Prod.snd ran
  rw [state]
  cases created with
  | @refused slot u name stored here stores clashes =>
    cases (clash_next small keys _ stored).symm.trans clashes
  | @under slot u stored here stores free =>
    have zero : slot = 0 := by
      have inside := Slab.lt_of_get here.live
      omega
    subst zero
    have same : u = t := Option.some.inj (here.live.symm.trans there.live)
    refine ⟨_, { u with count := u.count + 1 }, moves, single,
      ⟨rfl, here.code, here.scope, here.table⟩, ?_, ?_, k, other, ?_, refers⟩
    · rw [same, count, UInt32.ofNat_add]
      rfl
    · intro m row held
      exact keys_push small keys _ stored held
    · exact (if_neg (Nat.ne_of_lt (Slab.lt_of_get live))).trans live
  | orphan absent => exact absurd there (absent 0 t)
  | first absent => exact absurd there (absent 0 t)

theorem crowded_run (n : Nat) (pos : 0 < n) (small : n ≤ 2 ^ 64) :
    ∃ h t, (new.run (manyRows n)).Crowded h n t := by
  induction n with
  | zero => omega
  | succ n ih =>
    by_cases first : n = 0
    · subst first
      exact crowded_first
    · obtain ⟨h, t, crowded⟩ := ih (by omega) (by omega)
      have last : new.run (manyRows (n + 1)) =
          (new.run (manyRows n)).apply
            (.create .primary 1 2 3 4 (UInt64.ofNat n) []) := by
        unfold run manyRows
        rw [List.range_succ, List.map_append, List.foldl_append]
        rfl
      rw [last]
      exact crowded.next small

/-- Where the count comes back to zero, it is not the number of rows. -/
theorem not_tablesMatchRows_of_wrap {n : Nat} (pos : 0 < n) (small : n ≤ 2 ^ 64)
    (wraps : (UInt32.ofNat n).toNat = 0) :
    ¬(new.run (manyRows n)).TablesMatchRows := by
  intro matched
  obtain ⟨h, t, stands, _, here, count, _, m, row, live, refers⟩ := crowded_run n pos small
  have found := (find_table stands 1 2 3 t).mpr ⟨0, here⟩
  have counted := matched.counted 1 2 3 t found
  have positive := Content.children_pos live
  rw [children_eq stands, stands.id_table here.live, ← refers, count] at counted
  omega

/-- With the row number `2 ^ 32` the count of a table is back at zero. -/
theorem manyRows_not_tablesMatchRows :
    ¬(new.run (manyRows (2 ^ 32))).TablesMatchRows :=
  not_tablesMatchRows_of_wrap (by decide) (by decide) (by decide)

end ContractDb

end PulseVM.ChainDb
