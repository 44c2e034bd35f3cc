import PulseVM.Arena.Isolation
import PulseVM.Lib.Sha256

/-!
A set of tables with one revision and one stack of sessions. Calls concern one table,
session operations all of them, so a run of the database is a run of each table. The
state root hashes the live rows and the whole blob arena of every table.
-/

namespace PulseVM.Arena
open Lib Lib.Encoding Lib.Spans Lib.Leases Lib.Sessions Lib.Undo
open ArenaObject hiding id
open List

structure RowType where
  Row : Type
  object : ArenaObject Row

attribute [instance] RowType.object

/-- The registered row types, in registration order. -/
structure Schema where
  types : List RowType
  distinct : (types.map fun r => typeId r.Row).Nodup
  small : ∀ r ∈ types, typeId r.Row < 2 ^ 16

namespace Schema

abbrev Pos (S : Schema) := Fin S.types.length

abbrev Row (S : Schema) (i : S.Pos) : Type := (S.types.get i).Row

def typeIdNum (S : Schema) (i : S.Pos) : Nat := typeId (S.Row i)

/-- Tables in `typeId` order. -/
def ordered (S : Schema) : List S.Pos :=
  (List.finRange S.types.length).insertionSort fun i j => S.typeIdNum i ≤ S.typeIdNum j

theorem mem_ordered (S : Schema) (i : S.Pos) : i ∈ S.ordered :=
  (mem_insertionSort _).mpr (mem_finRange i)

def single (T : Type) [object : ArenaObject T] (small : typeId T < 2 ^ 16) : Schema where
  types := [⟨T, object⟩]
  distinct := pairwise_singleton _ _
  small r member := by
    rw [mem_singleton.mp member]
    exact small

end Schema

variable {S : Schema}

abbrev Db (S : Schema) := (i : S.Pos) → Table (S.Row i)

abbrev DbOp (S : Schema) := (i : S.Pos) × TableOp (S.Row i)

namespace Db

def new : Db S := fun _ => Table.new

/-- The revision of the first table stands for all. -/
def revision (db : Db S) : Int :=
  if h : 0 < S.types.length then (db ⟨0, h⟩).revision else 0

def apply (db : Db S) (op : DbOp S) : Db S :=
  Function.update db op.1 ((db op.1).apply op.2)

def startUndoSession (db : Db S) : Db S := fun i => (db i).startUndoSession

def undo (db : Db S) : Db S := fun i => (db i).undo

def squash (db : Db S) : Db S := fun i => (db i).squash

def commit (db : Db S) (revision : Int) : Db S := fun i => (db i).commit revision

def machine : Machine (Db S) (DbOp S) where
  step := apply
  start := startUndoSession
  undo := undo
  squash := squash

/-- What the tables' clients hold, table by table. -/
def accounts : Machine ((i : S.Pos) → Account (S.Row i)) (DbOp S) :=
  Machine.family fun _ => Account.machine

/-- The bytes the state root covers. -/
def rootInput (db : Db S) : Bytes :=
  S.ordered.flatMap fun i => leBytes 2 (S.typeIdNum i) ++ (db i).hashState

def rootWith {D : Type} (digest : Bytes → D) (db : Db S) : D := digest db.rootInput

def stateRoot (db : Db S) : Bytes := db.rootWith Sha256.digest

end Db

section Restore

variable {nodes : (i : S.Pos) → Node (S.Row i)}

/-- The client of each table keeps its discipline through the body of a session. -/
def Disciplined (nodes : (i : S.Pos) → Node (S.Row i)) (body : Body (DbOp S)) : Prop :=
  Db.accounts.Admits (fun c op => (c op.1).Allows op.2) body fun i =>
    (nodes i).account.startUndoSession

instance (nodes : (i : S.Pos) → Node (S.Row i)) (body : Body (DbOp S)) :
    Decidable (Disciplined nodes body) := Machine.decidableAdmits _ body _

instance {T : Type} [ArenaObject T] (c : Account T) : Decidable (Node.RowsHold c) :=
  inferInstanceAs (Decidable (List.Subperm _ _))

/-- Undo puts every table back as it was when the session started. -/
theorem session_undo_restores (nodes : (i : S.Pos) → Node (S.Row i))
    (reachable : ∀ i, (nodes i).Reachable) (hold : ∀ i, Node.RowsHold (nodes i).account)
    (body : Body (DbOp S)) (disciplined : Disciplined nodes body) (i : S.Pos) :
    (nodes i).table.Restored
      ((Db.machine.run body (Db.startUndoSession fun i => (nodes i).table)).undo i) := by
  have admits := Machine.family_admits (fun _ => Account.machine) (fun _ c op => c.Allows op)
    body _ disciplined i
  have ran := Machine.family_run (fun i => Table.machine (T := S.Row i)) body
    (Db.startUndoSession fun i => (nodes i).table) i
  have restored := (reachable i).good.kept.undo_restores (hold i) admits
  change (nodes i).table.Restored
    ((Machine.family fun _ => Table.machine).run body _ i).undo
  rw [ran]
  exact restored

section Single

variable {T : Type} [ArenaObject T] {small : typeId T < 2 ^ 16}

def Schema.only : (Schema.single T small).Pos := ⟨0, Nat.one_pos⟩

def Schema.call (op : TableOp T) : DbOp (Schema.single T small) := ⟨Schema.only, op⟩

def Schema.one (n : Node T) : (i : (Schema.single T small).Pos) → Node ((Schema.single T small).Row i)
  | ⟨0, _⟩ => n

theorem Schema.forall_only {p : (Schema.single T small).Pos → Prop} (first : p Schema.only) (i) :
    p i := by
  obtain ⟨k, bound⟩ := i
  have zero : k = 0 := Nat.lt_one_iff.mp bound
  subst zero
  exact first

end Single

abbrev keyValues : Schema := Schema.single ContractKeyValueRow (by decide)

abbrev keyValueDb (n : Node ContractKeyValueRow) : Db keyValues := fun i => (Schema.one n i).table

/-- A session that overwrites a blob, nests a kept and a dropped session and is undone. -/
theorem session_undo_restores_key_value : ∃ n : Node ContractKeyValueRow,
    Node.new.follow [.call (.allocBlob [1, 2, 3]),
      .call (.emplace fun row => { row with value := ⟨0, 3⟩ })] = some n ∧
    n.table.Restored ((Db.machine.run
      (.call (Schema.call (.reallocBlob ⟨0, 3⟩ [4, 5, 6]))
        (.session (.call (Schema.call (.modify 0 fun row => { row with value := ⟨3, 3⟩ })) .done)
          .squash (.session (.call (Schema.call (.remove 0)) .done) .undo .done)))
      (keyValueDb n).startUndoSession).undo
        Schema.only) := by
  have shape : ((Node.new : Node ContractKeyValueRow).follow [.call (.allocBlob [1, 2, 3]),
      .call (.emplace fun row => { row with value := ⟨0, 3⟩ })]).map (fun n =>
        decide (Node.RowsHold n.account ∧ Disciplined (Schema.one n)
          (.call (Schema.call (.reallocBlob ⟨0, 3⟩ [4, 5, 6]))
            (.session (.call (Schema.call (.modify 0 fun row => { row with value := ⟨3, 3⟩ })) .done)
              .squash (.session (.call (Schema.call (.remove 0)) .done) .undo .done)) :
                Body (DbOp keyValues)))) = some true := by
    decide +kernel
  obtain ⟨n, followed, both⟩ := Option.map_eq_some_iff.mp shape
  obtain ⟨hold, disciplined⟩ := of_decide_eq_true both
  refine ⟨n, followed, ?_⟩
  exact session_undo_restores (Schema.one n)
    (Schema.forall_only (Node.Reachable.new.follow followed)) (Schema.forall_only hold) _
    disciplined Schema.only

theorem Table.apply_arena {T : Type} [ArenaObject T] (t : Table T) (arena : Bytes) (op : TableOp T)
    (rows : ∀ bytes, op ≠ .allocBlob bytes) (others : ∀ old bytes, op ≠ .reallocBlob old bytes) :
    Table.apply { t with blobs := arena } op = { t.apply op with blobs := arena } := by
  cases op with
  | emplace f =>
    dsimp only [Table.apply, Table.emplace, Table.nextId]
    split <;> rfl
  | modify id m =>
    dsimp only [Table.apply]
    unfold Table.modify Table.find
    cases id with
    | negSucc n => rfl
    | ofNat slot =>
      dsimp only
      cases t.primary.get slot with
      | none => rfl
      | some current =>
        dsimp only
        split
        · rfl
        · split <;> rfl
  | remove id =>
    dsimp only [Table.apply]
    unfold Table.remove Table.find
    cases id with
    | negSucc n => rfl
    | ofNat slot =>
      dsimp only
      cases t.primary.get slot <;> rfl
  | allocBlob bytes => exact absurd rfl (rows bytes)
  | freeBlob r =>
    dsimp only [Table.apply, Table.freeBlob]
    split
    · rfl
    · split <;> rfl
  | reallocBlob old bytes => exact absurd rfl (others old bytes)

/-- Bytes written into a free span stay there when the session is undone. -/
theorem Table.undo_leaves_bytes {T : Type} [ArenaObject T] {t : Table T} {bytes : Bytes}
    (nonempty : bytes ≠ []) {r : BlobRef} {rest : List BlobRef}
    (taken : takeFree (UInt32.ofNat bytes.length) t.free = some (r, rest))
    (room : r.off.toNat + bytes.length ≤ t.blobs.length) :
    (Table.machine.run (.call (.allocBlob bytes) .done) t.startUndoSession).undo.blobs =
      splice t.blobs r.off.toNat bytes := by
  have length := length_splice room
  change (t.startUndoSession.allocBlob bytes).2.undo.blobs = _
  rw [Table.allocBlob_reuse nonempty (show takeFree _ t.startUndoSession.free = _ from taken),
    (Table.undo_heap rfl).1]
  change (splice t.blobs r.off.toNat bytes).take t.blobs.length = _
  rw [← length, take_length]

/-- Two rows were stored; the first was removed and its blob freed. -/
def dropFirst : List (TableOp ContractKeyValueRow) :=
  [.emplace fun row => { row with primaryKey := 1, value := ⟨0, 4⟩ },
    .emplace fun row => { row with primaryKey := 2, value := ⟨0, 4⟩ }, .remove 0,
    .freeBlob ⟨0, 4⟩]

theorem foldl_dropFirst (t : Table ContractKeyValueRow) (arena : Bytes) :
    dropFirst.foldl Table.apply { t with blobs := arena } =
      { dropFirst.foldl Table.apply t with blobs := arena } := by
  have step : ∀ (ops : List (TableOp ContractKeyValueRow)) (t : Table ContractKeyValueRow),
      (∀ op ∈ ops, (∀ bytes, op ≠ .allocBlob bytes) ∧ ∀ old bytes, op ≠ .reallocBlob old bytes) →
      ops.foldl Table.apply { t with blobs := arena } =
        { ops.foldl Table.apply t with blobs := arena } := by
    intro ops
    induction ops with
    | nil =>
      intro t _
      rfl
    | cons op rest ih =>
      intro t plain
      obtain ⟨rows, others⟩ := plain op (mem_cons_self ..)
      rw [foldl_cons, t.apply_arena arena op rows others]
      exact ih (t.apply op) fun other member => plain other (mem_cons_of_mem op member)
  apply step
  intro op member
  simp only [dropFirst, mem_cons, not_mem_nil, or_false] at member
  rcases member with rfl | rfl | rfl | rfl <;> simp

/-- Past 2^32 bytes an offset wraps: a blob is handed out where another one lies, and a
session that is undone has written into it. -/
theorem undo_wrapped_offset (filler : Bytes) (size : filler.length = 2 ^ 32 - 4) :
    let grown := ((Table.new : Table ContractKeyValueRow).apply (.allocBlob [1, 1, 1, 1])).apply
      (.allocBlob filler)
    let t := dropFirst.foldl Table.apply (grown.apply (.allocBlob [2, 2, 2, 2]))
    (grown.allocBlob [2, 2, 2, 2]).1 = ⟨0, 4⟩ ∧ t.find 1 = some ⟨1, 0, 2, 0, ⟨0, 4⟩⟩ ∧
      (Table.machine.run (.call (.allocBlob [3, 3, 3, 3]) .done) t.startUndoSession).undo.blob
        ⟨0, 4⟩ ≠ t.blob ⟨0, 4⟩ := by
  intro grown t
  have nonempty : filler ≠ [] := by
    intro empty
    rw [empty] at size
    cases size
  have first : grown = { Table.new with blobs := [1, 1, 1, 1] ++ filler } := by
    change (Table.allocBlob _ filler).2 = _
    rw [Table.allocBlob_append nonempty rfl]
    rfl
  have wrapped : UInt32.ofNat ([1, 1, 1, 1] ++ filler : Bytes).length = 0 := by
    rw [length_append, size]
    decide
  have second : grown.allocBlob [2, 2, 2, 2] = (⟨0, 4⟩,
      { Table.new with blobs := [1, 1, 1, 1] ++ (filler ++ [2, 2, 2, 2]) }) := by
    rw [Table.allocBlob_append (cons_ne_nil _ _) (by rw [first]; rfl), first]
    rw [wrapped, append_assoc]
    rfl
  have table : t = { dropFirst.foldl Table.apply Table.new with
      blobs := [1, 1, 1, 1] ++ (filler ++ [2, 2, 2, 2]) } := by
    change dropFirst.foldl Table.apply (grown.allocBlob [2, 2, 2, 2]).2 = _
    rw [second]
    exact foldl_dropFirst _ _
  have free : t.free = [⟨0, 4⟩] := by
    rw [table]
    change (dropFirst.foldl Table.apply Table.new).free = _
    decide +kernel
  have blobs : t.blobs = [1, 1, 1, 1] ++ (filler ++ [2, 2, 2, 2]) := by rw [table]
  have row : t.find 1 = some ⟨1, 0, 2, 0, ⟨0, 4⟩⟩ := by
    rw [table]
    change (dropFirst.foldl Table.apply Table.new).find 1 = _
    decide +kernel
  clear_value t
  refine ⟨congrArg Prod.fst second, row, ?_⟩
  have room : 0 + ([3, 3, 3, 3] : Bytes).length ≤ t.blobs.length := by
    rw [blobs, length_append]
    exact Nat.le_add_right _ _
  have taken : takeFree (UInt32.ofNat ([3, 3, 3, 3] : Bytes).length) t.free = some (⟨0, 4⟩, []) := by
    rw [free]
    rfl
  have left := Table.undo_leaves_bytes (cons_ne_nil _ _) taken room
  have after : slice (splice t.blobs 0 [3, 3, 3, 3]) 0 4 = [3, 3, 3, 3] := slice_splice_same room
  have before : slice t.blobs 0 4 = [1, 1, 1, 1] := by
    rw [blobs]
    rfl
  unfold Table.blob
  rw [left]
  change slice (splice t.blobs 0 [3, 3, 3, 3]) 0 4 ≠ slice t.blobs 0 4
  rw [after, before]
  decide

/-- What an undo does not bring back: the stored bits of a key that only its order takes
for the same, and blobs of an arena past 2^32 bytes. -/
theorem session_undo_leaves_traces :
    (∃ n : Node ContractIndexDoubleRow, n.Reachable ∧ Node.RowsHold n.account ∧
      (Table.machine.run (.call (.modify 0 fun row => { row with secondaryKey := 1 }) .done)
        n.table.startUndoSession).undo.secondaries ≠ n.table.secondaries) ∧
    ∃ filler : Bytes,
      let grown := ((Table.new : Table ContractKeyValueRow).apply (.allocBlob [1, 1, 1, 1])).apply
        (.allocBlob filler)
      let t := dropFirst.foldl Table.apply (grown.apply (.allocBlob [2, 2, 2, 2]))
      (grown.allocBlob [2, 2, 2, 2]).1 = ⟨0, 4⟩ ∧ t.find 1 = some ⟨1, 0, 2, 0, ⟨0, 4⟩⟩ ∧
        (Table.machine.run (.call (.allocBlob [3, 3, 3, 3]) .done) t.startUndoSession).undo.blob
          ⟨0, 4⟩ ≠ t.blob ⟨0, 4⟩ := by
  constructor
  · let n : Node ContractIndexDoubleRow := { Node.new with
      account := (Node.new.account.apply (.emplace fun row => row)).apply
        (.modify 0 fun row => { row with secondaryKey := 0x8000000000000000 }) }
    have reachable : n.Reachable := by
      refine (Node.Reachable.new.step (.call (.emplace fun row => row)) (by decide +kernel) rfl).step
        (.call (.modify 0 fun row => { row with secondaryKey := 0x8000000000000000 }))
        (by decide +kernel) rfl
    refine ⟨n, reachable, by decide +kernel, ?_⟩
    intro same
    have before : n.table.secondaries =
        [(KeyIndex.new ContractIndexDoubleRow.byPrimary).add ⟨0, 0, 0, 0, 0⟩,
          (KeyIndex.new ContractIndexDoubleRow.bySecondary).add ⟨0, 0, 0, 0, 0⟩] := rfl
    have after : ∃ a b : KeyIndex ContractIndexDoubleRow,
        (Table.machine.run (.call (.modify 0 fun row => { row with secondaryKey := 1 }) .done)
          n.table.startUndoSession).undo.secondaries =
        [a, b.add ⟨0, 0, 0, 0x8000000000000000, 0⟩] := ⟨_, _, rfl⟩
    obtain ⟨a, b, restored⟩ := after
    rw [same, before] at restored
    have index := (List.cons.inj (List.cons.inj restored).2).1
    have listed := b.entry_add ⟨0, 0, 0, 0x8000000000000000, 0⟩
    have bits : ∀ ix : KeyIndex ContractIndexDoubleRow,
        (KeyIndex.new ContractIndexDoubleRow.bySecondary).add ⟨0, 0, 0, 0, 0⟩ = ix →
        (ix.decl.key ⟨0, 0, 0, 0x8000000000000000, 0⟩, 0) ∈ ix.map.toList → False := by
      intro ix named member
      subst named
      have key := KeyIndex.key_of_single ContractIndexDoubleRow.bySecondary _ member
      have word := congrArg (fun k : Int64 × DoubleKey × UInt64 => k.2.1.bits) key
      exact absurd word (by decide)
    exact bits _ index listed
  · exact ⟨List.replicate (2 ^ 32 - 4) 0, undo_wrapped_offset _ length_replicate⟩

end Restore

end PulseVM.Arena
