import PulseVM.Arena.Rows
import PulseVM.History.Serialize
import PulseVM.Lib.RowSets

/-!
The `table_delta` stream of a block: every chain-state table is collected into its own
bucket of present and removed rows, and the buckets named in a fixed order are framed
one after the other. A snapshot lists the live rows, a delta what the open undo
session recorded. The stream reads back to exactly the framed buckets.
-/

namespace PulseVM.History
open Arena ChainDb Lib.Encoding Lib.Leb128 Lib.Undo Lib.RowSets UndoState Patch Slab

/-- What the packer reads of a table: its rows by id, its blob arena and the newest undo
session, which describes the history that led to the rows. -/
structure View (T : Type) where
  rows : Slab T
  blobs : Bytes
  session : Option (UndoState T)
  tracked : ∀ state, session = some state → state.patch.Tracks rows

def ofTable {T : Type} [ArenaObject T] (t : Table T) (sound : t.Sound) : View T where
  rows := t.primary.slab
  blobs := t.blobs
  session := t.undoStack.head?
  tracked state top := by
    have chain := sound.chain
    cases stack : t.undoStack with
    | nil =>
      rw [stack] at top
      cases top
    | cons head below =>
      rw [stack] at top chain
      cases top
      exact chain.2.1

structure UndoSessionChanges (T : Type) where
  oldNextId : Nat
  oldValues : List (Nat × T)
  removedValues : List (Nat × T)

namespace View

variable {T : Type} {v : View T}

def blob (v : View T) (r : BlobRef) : Bytes := slice v.blobs r.off.toNat r.len.toNat

def iter (v : View T) : List (Nat × T) :=
  (List.range v.rows.len).filterMap fun id => (v.rows.get id).map (id, ·)

/-- The change sets of the newest session, in reverse first-touch order. -/
def lastUndoSessionChanges (v : View T) : Option (UndoSessionChanges T) :=
  v.session.map fun state => {
    oldNextId := state.oldNextId
    oldValues := state.oldOrder.reverse.filterMap fun id => state.oldValues[id]?.map (id, ·)
    removedValues := state.removedOrder.reverse.filterMap fun id =>
      state.removedValues[id]?.map (id, ·) }

/-- The rows a table contributes, each with whether it is present: modified rows that the
filter lets through, then removed rows, then new rows. -/
def touched (v : View T) (full : Bool) (includeDelta : T → T → Bool) : List (Bool × T) :=
  if full then v.iter.map fun r => (true, r.2)
  else match v.lastUndoSessionChanges with
    | none => []
    | some changes =>
      (changes.oldValues.filterMap fun (id, old) =>
        (v.rows.get id).bind fun curr => if includeDelta old curr then some (true, curr) else none) ++
      (changes.removedValues.map fun r => (false, r.2)) ++
      ((v.iter.filter fun r => changes.oldNextId ≤ r.1).map fun r => (true, r.2))

/-- The rows as they were when the session started. -/
def before (v : View T) : Slab T := v.session.elim v.rows fun state => state.patch.restore v.rows

/-- The value a row had when the session removed it. -/
def removedRow (v : View T) (id : Nat) : Option T := v.session.bind fun state => state.removedValues[id]?

/-- Whatever the session did to a row that was there before, `same` relates the two values. -/
def Keeps (v : View T) (same : T → T → Prop) : Prop :=
  ∀ id old row, v.before.get id = some old → v.rows.get id = some row ∨ v.removedRow id = some row →
    same old row

theorem mem_iter {id : Nat} {row : T} : (id, row) ∈ v.iter ↔ v.rows.get id = some row := by
  unfold iter
  simp only [List.mem_filterMap, List.mem_range, Option.map_eq_some_iff, Prod.mk.injEq]
  constructor
  · rintro ⟨slot, _, value, found, rfl, rfl⟩
    exact found
  · intro found
    exact ⟨id, lt_of_get found, row, found, rfl, rfl⟩

section Groups

variable {state : UndoState T} {row : T}

/-- Rows that existed before, are still there and pass the filter. -/
def modifiedRows (v : View T) (state : UndoState T) (includeDelta : T → T → Bool) : List T :=
  state.oldOrder.reverse.filterMap fun id => state.oldValues[id]?.bind fun old =>
    (v.rows.get id).bind fun curr => if includeDelta old curr then some curr else none

def removedRows (state : UndoState T) : List T :=
  state.removedOrder.reverse.filterMap fun id => state.removedValues[id]?

def createdRows (v : View T) (state : UndoState T) : List T :=
  (v.iter.filter fun r => state.oldNextId ≤ r.1).map Prod.snd

theorem mem_modifiedRows {includeDelta : T → T → Bool} :
    row ∈ v.modifiedRows state includeDelta ↔ ∃ (id : Nat) (old : T),
      state.oldValues[id]? = some old ∧ v.rows.get id = some row ∧ includeDelta old row = true := by
  simp only [modifiedRows, List.mem_filterMap, List.mem_reverse, state.old_order,
    Option.bind_eq_some_iff, Option.ite_none_right_eq_some, Option.some.injEq]
  constructor
  · rintro ⟨id, _, old, recorded, curr, now, passes, rfl⟩
    exact ⟨id, old, recorded, now, passes⟩
  · rintro ⟨id, old, recorded, now, passes⟩
    have listed : id ∈ state.oldValues := by
      rw [Std.ExtTreeMap.mem_iff_isSome_getElem?, recorded]
      rfl
    exact ⟨id, listed, old, recorded, row, now, passes, rfl⟩

theorem mem_removedRows : row ∈ removedRows state ↔ ∃ id : Nat, state.removedValues[id]? = some row := by
  simp only [removedRows, List.mem_filterMap, List.mem_reverse, state.removed_order]
  constructor
  · rintro ⟨id, _, recorded⟩
    exact ⟨id, recorded⟩
  · rintro ⟨id, recorded⟩
    have listed : id ∈ state.removedValues := by
      rw [Std.ExtTreeMap.mem_iff_isSome_getElem?, recorded]
      rfl
    exact ⟨id, listed, recorded⟩

theorem mem_createdRows :
    row ∈ v.createdRows state ↔ ∃ id, state.oldNextId ≤ id ∧ v.rows.get id = some row := by
  simp only [createdRows, List.mem_map, List.mem_filter, decide_eq_true_eq, Prod.exists, mem_iter]
  constructor
  · rintro ⟨id, _, ⟨now, new⟩, rfl⟩
    exact ⟨id, new, now⟩
  · rintro ⟨id, new, now⟩
    exact ⟨id, row, ⟨now, new⟩, rfl⟩

end Groups

section Session

variable {state : UndoState T} (opened : v.session = some state)

include opened

theorem before_eq : v.before = state.patch.restore v.rows := by
  simp only [before, opened, Option.elim_some]

theorem removedRow_eq (id : Nat) : v.removedRow id = state.removedValues[id]? := by
  simp only [removedRow, opened, Option.bind_some]

variable {id : Nat} {row : T}

theorem removed_of_gone {old : T} (live : v.before.get id = some old)
    (gone : v.rows.get id = none) : ∃ row, v.removedRow id = some row := by
  have tracks := v.tracked state opened
  rw [before_eq opened] at live
  have inside : id < state.patch.base := lt_of_get live
  rw [restore_get_lt _ _ inside, gone, Option.or_none] at live
  rw [removedRow_eq opened]
  apply Option.ne_none_iff_exists'.mp
  intro absent
  have absent : state.patch.removed id = none := absent
  rw [absent, Option.or_none] at live
  exact tracks.modified_present id (by rw [live]; simp) absent gone

theorem old_of_changed {old : T} (live : v.before.get id = some old)
    (now : v.rows.get id = some row) (changed : old ≠ row) : state.oldValues[id]? = some old := by
  rw [before_eq opened] at live
  have inside : id < state.patch.base := lt_of_get live
  have kept := removed_none_of_live (v.tracked state opened) now
  rw [restore_get_lt _ _ inside, kept, now, Option.none_or] at live
  have recorded : state.patch.old id = state.oldValues[id]? := rfl
  rw [← recorded]
  cases first : state.patch.old id with
  | none =>
    rw [first, Option.none_or] at live
    exact absurd (Option.some.inj live).symm changed
  | some value =>
    rw [first, Option.some_or] at live
    exact live

theorem base_le_of_created (absent : v.before.get id = none) (now : v.rows.get id = some row) :
    state.oldNextId ≤ id := by
  by_contra inside
  rw [before_eq opened, restore_get_lt _ _ (show id < state.patch.base by
    exact Nat.lt_of_not_le inside), now] at absent
  simp at absent

theorem touched_eq (includeDelta : T → T → Bool) : v.touched false includeDelta =
    stream (v.modifiedRows state includeDelta) (removedRows state) (v.createdRows state) := by
  simp only [touched, lastUndoSessionChanges, opened, Option.map_some, Bool.false_eq_true,
    ↓reduceIte, stream, modifiedRows, removedRows, createdRows, List.filterMap_filterMap,
    List.map_filterMap, List.map_map]
  congr 2
  · congr 1
    funext id
    cases state.oldValues[id]? with
    | none => rfl
    | some old =>
      simp only [Option.map_some, Option.bind_some]
      cases v.rows.get id with
      | none => rfl
      | some curr => cases passes : includeDelta old curr <;> simp [passes]
  · congr 1
    funext id
    cases state.removedValues[id]? <;> rfl

theorem mem_touched {includeDelta : T → T → Bool} {present : Bool} :
    (present, row) ∈ v.touched false includeDelta ↔
      (row ∈ v.modifiedRows state includeDelta ∧ present = true) ∨
      (row ∈ removedRows state ∧ present = false) ∨
      (row ∈ v.createdRows state ∧ present = true) := by
  rw [touched_eq opened]
  cases present <;> simp [stream]

end Session

def opened : View T where
  rows := empty
  blobs := []
  session := some (new 0 0)
  tracked state top := by
    cases top
    rw [patch_new]
    exact tracks_fresh empty

def created (row : T) : View T where
  rows := empty.push row
  blobs := []
  session := some (new 0 0)
  tracked state top := by
    cases top
    rw [patch_new]
    exact tracks_push (tracks_fresh empty) row

def held (row : T) : View T where
  rows := empty.push row
  blobs := []
  session := none
  tracked state top := by cases top

def removed (row : T) : View T where
  rows := (empty.push row).erase 0
  blobs := []
  session := some ((new 1 0).keepRemoved 0 row)
  tracked state top := by
    cases top
    rw [patch_keepRemoved, patch_new]
    exact tracks_recordRemoved (tracks_fresh (empty.push row)) 0 row

theorem removed_before (row : T) : (removed row).before = (held row).rows := by
  have live : (empty.push row).get 0 = some row := rfl
  have tracks := tracks_fresh (empty.push row)
  calc (removed row).before
      = (((fresh 1).recordRemoved 0 row).restore ((empty.push row).erase 0)) := by
        simp only [before, removed, Option.elim_some, patch_keepRemoved, patch_new]
    _ = (fresh 1).restore (empty.push row) := restore_recordRemoved tracks live
    _ = empty.push row := restore_fresh (empty.push row)

variable {row : T} {ser : T → Option Bytes} {present : Bool}

theorem removed_removedRow {last : T} {id : Nat} (gone : (removed row).removedRow id = some last) :
    last = row := by
  simp only [removedRow, removed, Option.bind_some, keepRemoved, new] at gone
  simp only [Nat.lt_add_one, ↓reduceIte, Std.ExtTreeMap.getElem?_insert] at gone
  split at gone
  · exact (Option.some.inj gone).symm
  · simp at gone

theorem removed_rows (row : T) (id : Nat) : (removed row).rows.get id = none := by
  cases id with
  | zero => rfl
  | succ n => rfl

theorem opened_before (id : Nat) : (opened : View T).before.get id = none := by
  simp [opened, before, patch_new, restore, fresh]

theorem created_before (row : T) (id : Nat) : (created row).before.get id = none := by
  simp [created, before, patch_new, restore, fresh]

/-- A row of the session with its last value: created, removed, or changed in what history
says of it. -/
inductive Change (v : View T) (ser : T → Option Bytes) : Bool → T → Prop
  | created {id : Nat} {row : T} (absent : v.before.get id = none)
      (now : v.rows.get id = some row) : Change v ser true row
  | removed {id : Nat} {old row : T} (live : v.before.get id = some old)
      (gone : v.rows.get id = none) (last : v.removedRow id = some row) : Change v ser false row
  | modified {id : Nat} {old row : T} (live : v.before.get id = some old)
      (now : v.rows.get id = some row) (differ : ser old ≠ ser row) : Change v ser true row

theorem Change.opened (change : v.Change ser present row) : ∃ state, v.session = some state := by
  apply Option.ne_none_iff_exists'.mp
  intro closed
  have same : v.before = v.rows := by simp only [before, closed, Option.elim_none]
  cases change with
  | created absent now => simp [same, now] at absent
  | removed live gone last => simp [same, gone] at live
  | modified live now differ =>
    rw [same, now] at live
    exact differ (congrArg ser (Option.some.inj live).symm)

theorem opened_quiet :
    ¬(opened : View T).Change ser present row := by
  intro change
  cases change with
  | created _ now => cases now
  | removed live _ _ =>
    rw [opened_before] at live
    cases live
  | modified live _ _ =>
    rw [opened_before] at live
    cases live

/-- A filter that stops only modifications history does not show loses no change. -/
theorem Change.touched {includeDelta : T → T → Bool} (change : v.Change ser present row)
    (faithful : ∀ id old row, v.before.get id = some old → v.rows.get id = some row →
      includeDelta old row = false → ser old = ser row) :
    (present, row) ∈ v.touched false includeDelta := by
  obtain ⟨state, opened⟩ := change.opened
  rw [mem_touched opened]
  cases change with
  | created absent now =>
    have new := base_le_of_created opened absent now
    exact .inr (.inr ⟨mem_createdRows.mpr ⟨_, new, now⟩, rfl⟩)
  | removed live gone last =>
    rw [removedRow_eq opened] at last
    exact .inr (.inl ⟨mem_removedRows.mpr ⟨_, last⟩, rfl⟩)
  | @modified id old _ live now differ =>
    have changed : old ≠ row := fun same => differ (congrArg ser same)
    have passes : includeDelta old row = true := by
      by_contra stopped
      exact differ (faithful id old row live now (Bool.eq_false_iff.mpr stopped))
    have recorded := old_of_changed opened live now changed
    exact .inl ⟨mem_modifiedRows.mpr ⟨id, old, recorded, now, passes⟩, rfl⟩

end View

/-- The tables of the stream, by the names the state-history ABI gives them. -/
inductive TableName where
  | account
  | accountMetadata
  | code
  | contractTable
  | contractRow
  | contractIndex64
  | contractIndex128
  | contractIndex256
  | contractIndexDouble
  | contractIndexLongDouble
  | globalProperty
  | generatedTransaction
  | protocolState
  | permission
  | permissionLink
  | resourceLimits
  | resourceUsage
  | resourceLimitsState
  | resourceLimitsConfig
  deriving DecidableEq, Repr

namespace TableName

def label : TableName → String
  | account => "account"
  | accountMetadata => "account_metadata"
  | code => "code"
  | contractTable => "contract_table"
  | contractRow => "contract_row"
  | contractIndex64 => "contract_index64"
  | contractIndex128 => "contract_index128"
  | contractIndex256 => "contract_index256"
  | contractIndexDouble => "contract_index_double"
  | contractIndexLongDouble => "contract_index_long_double"
  | globalProperty => "global_property"
  | generatedTransaction => "generated_transaction"
  | protocolState => "protocol_state"
  | permission => "permission"
  | permissionLink => "permission_link"
  | resourceLimits => "resource_limits"
  | resourceUsage => "resource_usage"
  | resourceLimitsState => "resource_limits_state"
  | resourceLimitsConfig => "resource_limits_config"

/-- The labels are ASCII. -/
def asBytes (name : TableName) : Bytes := name.label.toList.map fun c => UInt8.ofNat c.toNat

def all : List TableName :=
  [account, accountMetadata, code, contractTable, contractRow, contractIndex64, contractIndex128,
    contractIndex256, contractIndexDouble, contractIndexLongDouble, globalProperty,
    generatedTransaction, protocolState, permission, permissionLink, resourceLimits,
    resourceUsage, resourceLimitsState, resourceLimitsConfig]

def ofBytes (bytes : Bytes) : Option TableName := all.find? fun name => name.asBytes = bytes

@[simp] theorem ofBytes_asBytes (name : TableName) : ofBytes name.asBytes = some name := by
  cases name <;> decide

/-- The tables that are framed, in the order of the stream. -/
def order : List TableName :=
  [account, accountMetadata, code, contractTable, contractRow, contractIndex64, contractIndex128,
    contractIndex256, globalProperty, protocolState, permission, permissionLink, resourceLimits,
    resourceUsage, resourceLimitsState, resourceLimitsConfig]

end TableName

/-- Rows ready to frame: whether each is present, and its payload. -/
abbrev Rows := List (Bool × Bytes)

abbrev Frame := TableName × Rows

section Stream

def packRow (row : Bool × Bytes) : Bytes := bool row.1 ++ packBytes row.2

def frameTable (frame : Frame) : Bytes :=
  uvar 0 ++ packBytes frame.1.asBytes ++ packMany packRow frame.2

def readRow : Bytes → Option ((Bool × Bytes) × Bytes)
  | [] => none
  | b :: bytes => (readBytes bytes).map fun parts => ((decide (b ≠ 0), parts.1), parts.2)

def readFrame (bytes : Bytes) : Option (Frame × Bytes) := do
  let (version, bytes) ← readUvar bytes
  if version ≠ 0 then none
  else
    let (label, bytes) ← readBytes bytes
    let name ← TableName.ofBytes label
    let (rows, bytes) ← readCounted readRow bytes
    some ((name, rows), bytes)

/-- The consumer's side of the stream; no bytes may be left over. -/
def unpackTables (bytes : Bytes) : Option (List Frame) :=
  (readCounted readFrame bytes).bind fun parts => if parts.2 = [] then some parts.1 else none

theorem readRow_packRow (row : Bool × Bytes) (rest : Bytes) :
    readRow (packRow row ++ rest) = some (row, rest) := by
  obtain ⟨present, payload⟩ := row
  cases present <;> simp [packRow, bool, readRow]

theorem readFrame_frameTable (frame : Frame) (rest : Bytes) :
    readFrame (frameTable frame ++ rest) = some (frame, rest) := by
  obtain ⟨name, rows⟩ := frame
  have back := readCounted_packMany rows (fun row _ => readRow_packRow row) rest
  simp [frameTable, readFrame, List.append_assoc, back]

theorem unpackTables_packMany (frames : List Frame) :
    unpackTables (packMany frameTable frames) = some frames := by
  have back := readCounted_packMany frames (fun frame _ => readFrame_frameTable frame) []
  rw [List.append_nil] at back
  simp only [unpackTables, back, Option.bind_some, ↓reduceIte]

end Stream

/-- A table with the filter and the serializer it is collected with. -/
structure Bucket where
  Row : Type
  name : TableName
  table : View Row
  includeDelta : Row → Row → Bool
  ser : Row → Option Bytes

namespace Bucket

def touched (b : Bucket) (full : Bool) : List (Bool × b.Row) := b.table.touched full b.includeDelta

def collectTable (b : Bucket) (full : Bool) : Option Rows :=
  (b.touched full).mapM fun entry => (b.ser entry.2).map (entry.1, ·)

def Change (b : Bucket) : Bool → b.Row → Prop := b.table.Change b.ser

end Bucket

structure ChainState where
  account : View AccountRow
  accountMetadata : View AccountMetaRow
  code : View CodeRow
  contractTable : View ContractTableRow
  contractRow : View ContractKeyValueRow
  contractIndex64 : View ContractIndex64Row
  contractIndex128 : View ContractIndex128Row
  contractIndex256 : View ContractIndex256Row
  contractIndexDouble : View ContractIndexDoubleRow
  contractIndexLongDouble : View ContractIndexLongDoubleRow
  globalProperty : View GlobalPropertyRow
  generatedTransaction : View DeferredTransactionRow
  protocolFeature : View ProtocolFeatureRow
  permission : View PermissionRow
  permissionLink : View PermissionLinkRow
  resourceLimits : View ResourceLimitsRow
  resourceUsage : View ResourceUsageRow
  resourceState : View ResourceStateRow
  resourceConfig : View ResourceConfigRow

namespace ChainState

def opened : ChainState where
  account := .opened
  accountMetadata := .opened
  code := .opened
  contractTable := .opened
  contractRow := .opened
  contractIndex64 := .opened
  contractIndex128 := .opened
  contractIndex256 := .opened
  contractIndexDouble := .opened
  contractIndexLongDouble := .opened
  globalProperty := .opened
  generatedTransaction := .opened
  protocolFeature := .opened
  permission := .opened
  permissionLink := .opened
  resourceLimits := .opened
  resourceUsage := .opened
  resourceState := .opened
  resourceConfig := .opened

/-- The slot a table id names, if it can name one. -/
def slot (tId : Int64) : Option Nat := if 0 ≤ tId.toInt then some tId.toInt.toNat else none

/-- Live tables by id; a delta also knows those its session removed. -/
def tableIdMap (db : ChainState) (full : Bool) : TableIds := fun tId =>
  (slot tId).bind fun id =>
    ((db.contractTable.rows.get id).or
      (if full then none else db.contractTable.removedRow id)).map fun r => (r.code, r.scope, r.table)

/-- Of live permissions with one chain id the last one counts, of removed ones the first. -/
def permissionParentNames (db : ChainState) (full : Bool) : ParentNames := fun cbId =>
  let removed := if full then [] else
    (db.permission.lastUndoSessionChanges.elim [] UndoSessionChanges.removedValues)
  ((db.permission.iter.reverse ++ removed).find? fun r => r.2.cbId = cbId).map fun r => r.2.permName

def buckets (db : ChainState) (full : Bool) (chainId : Vector UInt8 32) : List Bucket :=
  let ids := db.tableIdMap full
  let names := db.permissionParentNames full
  [⟨_, .account, db.account, always, some ∘ serAccount db.account.blob⟩,
    ⟨_, .accountMetadata, db.accountMetadata, includeAccountMeta, some ∘ serAccountMetadata⟩,
    ⟨_, .code, db.code, includeCode, some ∘ serCode db.code.blob⟩,
    ⟨_, .contractTable, db.contractTable, includeContractTable, some ∘ serContractTable⟩,
    ⟨_, .contractRow, db.contractRow, always, some ∘ serContractRow db.contractRow.blob ids⟩,
    ⟨_, .contractIndex64, db.contractIndex64, always, some ∘ serIndex64 ids⟩,
    ⟨_, .contractIndex128, db.contractIndex128, always, some ∘ serIndex128 ids⟩,
    ⟨_, .contractIndex256, db.contractIndex256, always, some ∘ serIndex256 ids⟩,
    ⟨_, .contractIndexDouble, db.contractIndexDouble, always, some ∘ serIndexDouble ids⟩,
    ⟨_, .contractIndexLongDouble, db.contractIndexLongDouble, always,
      some ∘ serIndexLongDouble ids⟩,
    ⟨_, .globalProperty, db.globalProperty, always, some ∘ serGlobalProperty chainId⟩,
    ⟨_, .generatedTransaction, db.generatedTransaction, always,
      some ∘ serGeneratedTransaction db.generatedTransaction.blob⟩,
    ⟨_, .permission, db.permission, always, serPermission db.permission.blob names⟩,
    ⟨_, .permissionLink, db.permissionLink, always, some ∘ serPermissionLink⟩,
    ⟨_, .resourceLimits, db.resourceLimits, includeResourceLimits, some ∘ serResourceLimits⟩,
    ⟨_, .resourceUsage, db.resourceUsage, always, some ∘ serResourceUsage⟩,
    ⟨_, .resourceLimitsState, db.resourceState, includeResourceState,
      some ∘ serResourceLimitsState⟩,
    ⟨_, .resourceLimitsConfig, db.resourceConfig, includeResourceConfig,
      some ∘ serResourceLimitsConfig⟩]

/-- The payload of the `protocol_state` row over the given feature rows. -/
def protocolState (features : Slab ProtocolFeatureRow) : Bytes :=
  serProtocolState ((List.range features.len).filterMap features.get)

def collectProtocolState (db : ChainState) (full : Bool) : Rows :=
  if full then [(true, protocolState db.protocolFeature.rows)] else []

/-- Every bucket by name; `none` where a serializer stops. -/
def perTable (db : ChainState) (full : Bool) (chainId : Vector UInt8 32) : Option (List Frame) :=
  ((db.buckets full chainId).mapM fun (b : Bucket) => (b.collectTable full).map (b.name, ·)).map
    ((.protocolState, db.collectProtocolState full) :: ·)

def framed (perTable : List Frame) : List Frame :=
  TableName.order.filterMap fun name =>
    ((perTable.lookup name).filter fun rows => !rows.isEmpty).map (name, ·)

def packDeltas (db : ChainState) (full : Bool) (chainId : Vector UInt8 32) : Option Bytes :=
  (db.perTable full chainId).map fun perTable => packMany frameTable (framed perTable)

end ChainState

end PulseVM.History
