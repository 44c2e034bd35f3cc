import PulseVM.History.PackDeltas

/-!
Which changes of a session reach the stream. The filters lose nothing that history
shows, and a bucket that is framed delivers all its rows; three collected buckets are not
in the framing order, and the `protocol_state` bucket of a delta is always empty.
-/

namespace PulseVM.History
open Arena ChainDb Lib.Encoding Lib.Leb128 Lib.Undo

section Lists

variable {α β : Type*}

variable {items : List α}

theorem mapM_eq_some {f : α → Option β} {out : List β} :
    items.mapM f = some out ↔ List.Forall₂ (fun a b => f a = some b) items out := by
  induction items generalizing out with
  | nil => simp [eq_comm]
  | cons a items ih =>
    simp only [List.mapM_cons, Option.pure_def, Option.bind_eq_bind, Option.bind_eq_some_iff, ih,
      Option.some.injEq, List.forall₂_cons_left_iff]
    constructor
    · rintro ⟨b, first, tail, rest, rfl⟩
      exact ⟨b, tail, first, rest, rfl⟩
    · rintro ⟨b, tail, first, rest, rfl⟩
      exact ⟨b, first, tail, rest, rfl⟩

theorem mapM_exists {f : α → Option β} (each : ∀ a ∈ items, ∃ b, f a = some b) :
    ∃ out, items.mapM f = some out := by
  induction items with
  | nil => exact ⟨[], rfl⟩
  | cons a items ih =>
    obtain ⟨b, first⟩ := each a List.mem_cons_self
    obtain ⟨out, rest⟩ := ih fun a member => each a (List.mem_cons_of_mem _ member)
    exact ⟨b :: out, by simp [List.mapM_cons, first, rest]⟩

theorem forall₂_exists {R : α → β → Prop} {out : List β} (related : List.Forall₂ R items out)
    {a : α} (member : a ∈ items) : ∃ b ∈ out, R a b := by
  induction related with
  | nil => cases member
  | cons head _ ih =>
    cases member with
    | head => exact ⟨_, List.mem_cons_self, head⟩
    | tail _ later =>
      obtain ⟨b, inside, holds⟩ := ih later
      exact ⟨b, List.mem_cons_of_mem _ inside, holds⟩

theorem lookup_of_mem [DecidableEq α] {entries : List (α × β)} {k : α} {b : β}
    (distinct : (entries.map Prod.fst).Nodup) (member : (k, b) ∈ entries) :
    entries.lookup k = some b := by
  induction entries with
  | nil => cases member
  | cons entry entries ih =>
    rw [List.map_cons, List.nodup_cons] at distinct
    cases member with
    | head => simp
    | tail _ later =>
      have other : k ≠ entry.1 := by
        rintro rfl
        exact distinct.1 (List.mem_map.mpr ⟨_, later, rfl⟩)
      rw [List.lookup_cons, beq_false_of_ne other]
      exact ih distinct.2 later

end Lists

section Filters

theorem serAccountMetadata_stopped {o c : AccountMetaRow} (stopped : includeAccountMeta o c = false) :
    serAccountMetadata o = serAccountMetadata c := by
  simp_all [includeAccountMeta, serAccountMetadata]

theorem serResourceLimits_stopped {o c : ResourceLimitsRow} (owner : o.owner = c.owner)
    (stopped : includeResourceLimits o c = false) : serResourceLimits o = serResourceLimits c := by
  simp_all [includeResourceLimits, serResourceLimits]

theorem serResourceLimitsState_stopped {o c : ResourceStateRow}
    (stopped : includeResourceState o c = false) :
    serResourceLimitsState o = serResourceLimitsState c := by
  simp_all [includeResourceState, serResourceLimitsState]

theorem serResourceLimitsConfig_stopped {o c : ResourceConfigRow}
    (stopped : includeResourceConfig o c = false) :
    serResourceLimitsConfig o = serResourceLimitsConfig c := by
  simp_all [includeResourceConfig, serResourceLimitsConfig]

end Filters

/-- The row stands in the frame of its table. -/
def Delivered (frames : List Frame) (name : TableName) (row : Bool × Bytes) : Prop :=
  ∃ rows, (name, rows) ∈ frames ∧ row ∈ rows

namespace ChainState

variable {db : ChainState} {chainId : Vector UInt8 32} {full : Bool}

/-- What operations never change in place: the key of a contract table, the image of a
code row and the owner of a limits row. -/
structure KeysKept (db : ChainState) : Prop where
  contractTable : db.contractTable.Keeps fun o c => o.code = c.code ∧ o.scope = c.scope ∧
    o.table = c.table
  code : db.code.Keeps fun o c => o.vmType = c.vmType ∧ o.vmVersion = c.vmVersion ∧
    o.codeHash = c.codeHash ∧ db.code.blob o.code = db.code.blob c.code
  resourceLimits : db.resourceLimits.Keeps fun o c => o.owner = c.owner

variable {b : Bucket} {tables : List Frame}

theorem KeysKept.faithful (kept : db.KeysKept) (member : b ∈ db.buckets full chainId) {id : Nat}
    {old row : b.Row} (live : b.table.before.get id = some old)
    (now : b.table.rows.get id = some row) (stopped : b.includeDelta old row = false) :
    b.ser old = b.ser row := by
  fin_cases member
  · cases stopped
  · exact congrArg some (serAccountMetadata_stopped stopped)
  · obtain ⟨vmType, vmVersion, codeHash, image⟩ := kept.code id old row live (.inl now)
    simp only [Function.comp_apply, serCode, vmType, vmVersion, codeHash, image]
  · obtain ⟨code, scope, table⟩ := kept.contractTable id old row live (.inl now)
    have payer : old.payer = row.payer := by simpa [includeContractTable] using stopped
    simp only [Function.comp_apply, serContractTable, code, scope, table, payer]
  · cases stopped
  · cases stopped
  · cases stopped
  · cases stopped
  · cases stopped
  · cases stopped
  · cases stopped
  · cases stopped
  · cases stopped
  · cases stopped
  · exact congrArg some
      (serResourceLimits_stopped (kept.resourceLimits id old row live (.inl now)) stopped)
  · cases stopped
  · exact congrArg some (serResourceLimitsState_stopped stopped)
  · exact congrArg some (serResourceLimitsConfig_stopped stopped)

theorem perTable_eq_some (collected : db.perTable full chainId = some tables) :
    (tables.map Prod.fst).Nodup ∧
      (TableName.protocolState, db.collectProtocolState full) ∈ tables ∧
      ∀ b ∈ db.buckets full chainId, ∃ rows, b.collectTable full = some rows ∧ (b.name, rows) ∈ tables := by
  obtain ⟨rest, each, rfl⟩ := Option.map_eq_some_iff.mp collected
  rw [mapM_eq_some] at each
  have names : rest.map Prod.fst = (db.buckets full chainId).map Bucket.name := by
    symm
    rw [← List.forall₂_eq_eq_eq, List.forall₂_map_left_iff, List.forall₂_map_right_iff]
    apply each.imp
    intro b frame collected
    obtain ⟨rows, _, rfl⟩ := Option.map_eq_some_iff.mp collected
    rfl
  refine ⟨?_, List.mem_cons_self, fun b member => ?_⟩
  · rw [List.map_cons, names]
    simp only [buckets, List.map_cons, List.map_nil]
    decide
  · obtain ⟨frame, inside, collected⟩ := forall₂_exists each member
    obtain ⟨rows, found, rfl⟩ := Option.map_eq_some_iff.mp collected
    exact ⟨rows, found, List.mem_cons_of_mem _ inside⟩

theorem mem_framed {name : TableName} {rows : Rows} : (name, rows) ∈ framed tables ↔
      name ∈ TableName.order ∧ tables.lookup name = some rows ∧ rows ≠ [] := by
  simp [framed, List.mem_filterMap, Option.filter_eq_some_iff, and_assoc]

/-- A row of a bucket is delivered exactly if the bucket's name is in the framing order. -/
theorem delivered_iff (distinct : (tables.map Prod.fst).Nodup) {name : TableName} {rows : Rows}
    (member : (name, rows) ∈ tables) {row : Bool × Bytes} :
    Delivered (framed tables) name row ↔ name ∈ TableName.order ∧ row ∈ rows := by
  have found := lookup_of_mem distinct member
  constructor
  · rintro ⟨others, inside, listed⟩
    obtain ⟨ordered, same, _⟩ := mem_framed.mp inside
    rw [found] at same
    exact ⟨ordered, Option.some.inj same ▸ listed⟩
  · rintro ⟨ordered, listed⟩
    exact ⟨rows, mem_framed.mpr ⟨ordered, found, List.ne_nil_of_mem listed⟩, listed⟩

/-- Every authority that is about to be serialized can be read to its end. -/
def AuthoritiesRead (db : ChainState) (full : Bool) : Prop :=
  ∀ entry ∈ db.permission.touched full always,
    ∃ auth, serAuthority (db.permission.blob entry.2.auth) = some auth

theorem permission_mem : ⟨_, .permission, db.permission, always,
    serPermission db.permission.blob (db.permissionParentNames full)⟩ ∈ db.buckets full chainId := by
  simp [buckets]

theorem ser_or_permission (member : b ∈ db.buckets full chainId) :
    (∀ row, ∃ payload, b.ser row = some payload) ∨
      b = ⟨_, .permission, db.permission, always,
        serPermission db.permission.blob (db.permissionParentNames full)⟩ := by
  fin_cases member
  all_goals first
    | exact .inl fun row => ⟨_, rfl⟩
    | exact .inr rfl

theorem perTable_isSome_iff :
    (∃ tables, db.perTable full chainId = some tables) ↔ db.AuthoritiesRead full := by
  constructor
  · rintro ⟨tables, collected⟩ entry touched
    obtain ⟨_, _, each⟩ := perTable_eq_some collected
    obtain ⟨rows, found, _⟩ := each _ permission_mem
    obtain ⟨row, _, packed⟩ := forall₂_exists (mapM_eq_some.mp found) touched
    obtain ⟨payload, written, _⟩ := Option.map_eq_some_iff.mp packed
    obtain ⟨auth, read, _⟩ := Option.map_eq_some_iff.mp written
    exact ⟨auth, read⟩
  · intro read
    have collect : ∀ b ∈ db.buckets full chainId, ∃ frame,
        (b.collectTable full).map (b.name, ·) = some frame := by
      intro b member
      have each : ∀ entry ∈ b.touched full, ∃ row, (b.ser entry.2).map (entry.1, ·) = some row := by
        intro entry touched
        obtain total | rfl := ser_or_permission member
        · obtain ⟨payload, written⟩ := total entry.2
          exact ⟨_, by rw [written]; rfl⟩
        · obtain ⟨auth, parsed⟩ := read entry touched
          exact ⟨_, by simp only [serPermission, parsed, Option.map_some]; rfl⟩
      obtain ⟨rows, found⟩ := mapM_exists each
      exact ⟨_, by rw [Bucket.collectTable, found]; rfl⟩
    obtain ⟨rest, found⟩ := mapM_exists collect
    exact ⟨_, by rw [perTable, found]; rfl⟩

/-- Every row of every collected table that the session created, removed or changed can be
read from the bytes of the delta, and so can the `protocol_state` row if it changed. -/
def Reports (db : ChainState) (chainId : Vector UInt8 32) : Prop :=
  ∃ bytes frames, db.packDeltas false chainId = some bytes ∧ unpackTables bytes = some frames ∧
    (∀ b ∈ db.buckets false chainId, ∀ present row, b.Change present row →
      ∃ payload, b.ser row = some payload ∧ Delivered frames b.name (present, payload)) ∧
    (protocolState db.protocolFeature.before ≠ protocolState db.protocolFeature.rows →
      Delivered frames .protocolState (true, protocolState db.protocolFeature.rows))

/-- The buckets that are collected and not framed. -/
def unframed : List TableName := [.contractIndexDouble, .contractIndexLongDouble, .generatedTransaction]

theorem mem_order_iff (member : b ∈ db.buckets full chainId) :
    b.name ∈ TableName.order ↔ b.name ∉ unframed := by
  have name : b.name ∈ (db.buckets full chainId).map Bucket.name := List.mem_map_of_mem member
  simp only [buckets, List.map_cons, List.map_nil] at name
  generalize b.name = label at name
  revert label
  decide

theorem collect_delivered (collected : db.perTable full chainId = some tables)
    (member : b ∈ db.buckets full chainId) (ordered : b.name ∈ TableName.order) {present : Bool}
    {row : b.Row} (touched : (present, row) ∈ b.touched full) :
    ∃ payload, b.ser row = some payload ∧ Delivered (framed tables) b.name (present, payload) := by
  obtain ⟨distinct, _, each⟩ := perTable_eq_some collected
  obtain ⟨rows, found, inside⟩ := each b member
  obtain ⟨packed, listed, written⟩ := forall₂_exists (mapM_eq_some.mp found) touched
  obtain ⟨payload, ser, rfl⟩ := Option.map_eq_some_iff.mp written
  exact ⟨payload, ser, (delivered_iff distinct inside).mpr ⟨ordered, listed⟩⟩

/-- The delta is complete exactly if its authorities can be read, nothing happened to the
tables that are never framed, and no protocol feature was activated. -/
theorem packDeltas_reports_iff (db : ChainState) (chainId : Vector UInt8 32) (kept : db.KeysKept) :
    db.Reports chainId ↔ db.AuthoritiesRead false ∧
      (∀ b ∈ db.buckets false chainId, b.name ∈ unframed → ∀ present row, ¬b.Change present row) ∧
      protocolState db.protocolFeature.before = protocolState db.protocolFeature.rows := by
  constructor
  · rintro ⟨bytes, frames, packed, unpacked, rows, feature⟩
    obtain ⟨tables, collected, rfl⟩ := Option.map_eq_some_iff.mp packed
    rw [unpackTables_packMany, Option.some.injEq] at unpacked
    subst unpacked
    obtain ⟨distinct, protocol, each⟩ := perTable_eq_some collected
    refine ⟨perTable_isSome_iff.mp ⟨tables, collected⟩, ?_, ?_⟩
    · intro b member outside present row change
      obtain ⟨payload, _, delivered⟩ := rows b member present row change
      obtain ⟨bucket, _, inside⟩ := each b member
      have ordered := ((delivered_iff distinct inside).mp delivered).1
      exact (mem_order_iff member).mp ordered outside
    · by_contra changed
      -- the bucket of a delta is empty
      have delivered := (delivered_iff distinct protocol).mp (feature changed)
      exact List.not_mem_nil delivered.2
  · rintro ⟨read, quiet, same⟩
    have collects : ∃ tables, db.perTable false chainId = some tables := perTable_isSome_iff.mpr read
    obtain ⟨tables, collected⟩ := collects
    refine ⟨_, framed tables, by rw [packDeltas, collected]; rfl, unpackTables_packMany _, ?_,
      fun changed => absurd same changed⟩
    intro b member present row change
    have ordered : b.name ∈ TableName.order := by
      rw [mem_order_iff member]
      intro outside
      exact quiet b member outside present row change
    have touched : (present, row) ∈ b.touched false :=
      View.Change.touched change fun id old row live now stopped =>
        kept.faithful member live now stopped
    exact collect_delivered collected member ordered touched

def storesRow : ChainState :=
  { opened with
    contractTable := .created ⟨0, 1, 2, 3, 4, 1⟩
    contractRow := .created ⟨0, 0, 5, 4, BlobRef.empty⟩ }

theorem packDeltas_reports_iff_stored :
    storesRow.KeysKept ∧ storesRow.Reports (Vector.replicate 32 0) := by
  have kept : storesRow.KeysKept := by
    refine ⟨fun id old row live => ?_, fun id old row live => ?_, fun id old row live => ?_⟩
    · exact absurd live (by rw [storesRow, View.created_before]; simp)
    · exact absurd live (by rw [storesRow, opened, View.opened_before]; simp)
    · exact absurd live (by rw [storesRow, opened, View.opened_before]; simp)
  refine ⟨kept, (packDeltas_reports_iff storesRow _ kept).mpr ⟨?_, ?_, ?_⟩⟩
  · intro entry touched
    exact absurd touched List.not_mem_nil
  · intro b member outside present row change
    fin_cases member
    all_goals first
      | exact absurd outside (by decide)
      | exact View.opened_quiet change
  · decide +kernel

/-- A session that stores a row under a `double` index and activates a feature. -/
def storesDouble : ChainState :=
  { opened with
    contractTable := .created ⟨0, 1, 2, 3, 4, 1⟩
    contractIndexDouble := .created ⟨0, 0, 5, 6, 4⟩
    protocolFeature := .created ⟨0, Vector.replicate 32 7, 42⟩ }

/-- The new index row and the new `protocol_state` are in no frame: the stream holds the
row of the contract table and nothing else. -/
theorem packDeltas_misses_rows : ∃ bytes row,
    storesDouble.packDeltas false (Vector.replicate 32 0) = some bytes ∧
    unpackTables bytes = some [(.contractTable,
      [(true, serContractTable ⟨0, 1, 2, 3, 4, 1⟩)])] ∧
    storesDouble.contractIndexDouble.before.get 0 = none ∧
    storesDouble.contractIndexDouble.rows.get 0 = some row ∧
    protocolState storesDouble.protocolFeature.before ≠
      protocolState storesDouble.protocolFeature.rows ∧
    ¬storesDouble.Reports (Vector.replicate 32 0) := by
  have packed : (storesDouble.packDeltas false (Vector.replicate 32 0)).bind unpackTables =
      some [(.contractTable, [(true, serContractTable ⟨0, 1, 2, 3, 4, 1⟩)])] := by
    decide +kernel
  obtain ⟨bytes, written, read⟩ := Option.bind_eq_some_iff.mp packed
  refine ⟨bytes, ⟨0, 0, 5, 6, 4⟩, written, read, View.created_before _ 0, rfl, by decide +kernel, ?_⟩
  rintro ⟨others, frames, again, unpacked, rows, feature⟩
  rw [written, Option.some.injEq] at again
  rw [← again, read, Option.some.injEq] at unpacked
  obtain ⟨_, framed, _⟩ := feature (by decide +kernel)
  rw [← unpacked] at framed
  simp at framed

end ChainState

end PulseVM.History
