import PulseVM.History.DeltaLaw

/-!
Block sessions over the framed tables and the delta law for them. What the tables owe
each other is stated once for a state (`Wellformed`) and once for a session
(`BlockSession`); each table then carries its part of the law, and the only frame that
can break it is `protocol_state`, which a delta never holds.
-/

namespace PulseVM.History
open Arena ChainDb Lib.Encoding Lib.Leb128 Lib.Undo Lib.RowSets

namespace ChainState

/-- The id names a live contract table. -/
def HasTable (db : ChainState) (tId : Int64) : Prop :=
  ∃ id row, slot tId = some id ∧ db.contractTable.rows.get id = some row

/-- The unique keys of the tables, and the references between them. No limit change is
pending at the end of a block, so limits are unique by owner. -/
structure Wellformed (db : ChainState) : Prop where
  account : db.account.Unique (·.name)
  accountMetadata : db.accountMetadata.Unique (·.name)
  code : db.code.Unique fun r => (r.vmType, r.vmVersion, r.codeHash)
  contractTable : db.contractTable.Unique fun r => (r.code, r.scope, r.table)
  contractRow : db.contractRow.Unique fun r => (r.tId, r.primaryKey)
  contractRow_table : ∀ i r, db.contractRow.rows.get i = some r → db.HasTable r.tId
  contractIndex64 : db.contractIndex64.Unique fun r => (r.tId, r.primaryKey)
  contractIndex64_table : ∀ i r, db.contractIndex64.rows.get i = some r → db.HasTable r.tId
  contractIndex128 : db.contractIndex128.Unique fun r => (r.tId, r.primaryKey)
  contractIndex128_table : ∀ i r, db.contractIndex128.rows.get i = some r → db.HasTable r.tId
  contractIndex256 : db.contractIndex256.Unique fun r => (r.tId, r.primaryKey)
  contractIndex256_table : ∀ i r, db.contractIndex256.rows.get i = some r → db.HasTable r.tId
  globalProperty : db.globalProperty.Unique fun _ => ()
  permission : db.permission.Unique fun r => (r.owner, r.permName)
  permission_cbId : db.permission.Unique (·.cbId)
  permission_parent : ∀ i r, db.permission.rows.get i = some r → r.parent ≠ 0 →
    ∃ j p, db.permission.rows.get j = some p ∧ p.cbId = r.parent
  permission_auth : db.AuthoritiesRead true
  permissionLink : db.permissionLink.Unique fun r => (r.account, r.code, r.messageType)
  resourceLimits : db.resourceLimits.Unique (·.owner)
  resourceUsage : db.resourceUsage.Unique (·.owner)
  resourceState : db.resourceState.Unique fun _ => ()
  resourceConfig : db.resourceConfig.Unique fun _ => ()

/-- A session that leads from one state to another. Operations change neither the key fields
of a row nor the image of a code row, and a permission id is not given out again. -/
structure BlockSession (before after : ChainState) : Prop where
  started : before.Wellformed
  ended : after.Wellformed
  account : before.account.Evolves after.account (fun r => [r.abi]) fun o c => o.name = c.name
  accountMetadata : before.accountMetadata.Evolves after.accountMetadata (fun _ => [])
    fun o c => o.name = c.name
  code : before.code.Evolves after.code (fun r => [r.code]) fun o c =>
    (o.vmType, o.vmVersion, o.codeHash) = (c.vmType, c.vmVersion, c.codeHash)
  code_image : after.code.Keeps fun o c => after.code.blob o.code = after.code.blob c.code
  contractTable : before.contractTable.Evolves after.contractTable (fun _ => []) fun o c =>
    (o.code, o.scope, o.table) = (c.code, c.scope, c.table)
  contractRow : before.contractRow.Evolves after.contractRow (fun r => [r.value]) fun o c =>
    (o.tId, o.primaryKey) = (c.tId, c.primaryKey)
  contractIndex64 : before.contractIndex64.Evolves after.contractIndex64 (fun _ => []) fun o c =>
    (o.tId, o.primaryKey) = (c.tId, c.primaryKey)
  contractIndex128 : before.contractIndex128.Evolves after.contractIndex128 (fun _ => [])
    fun o c => (o.tId, o.primaryKey) = (c.tId, c.primaryKey)
  contractIndex256 : before.contractIndex256.Evolves after.contractIndex256 (fun _ => [])
    fun o c => (o.tId, o.primaryKey) = (c.tId, c.primaryKey)
  globalProperty : before.globalProperty.Evolves after.globalProperty (fun _ => []) fun _ _ => True
  permission : before.permission.Evolves after.permission (fun r => [r.auth]) fun o c =>
    (o.owner, o.permName, o.cbId) = (c.owner, c.permName, c.cbId)
  permission_fresh : ∀ i j p q, before.permission.rows.get i = some p →
    after.permission.rows.get j = some q → p.cbId = q.cbId → i = j
  permission_auth : after.AuthoritiesRead false
  permissionLink : before.permissionLink.Evolves after.permissionLink (fun _ => []) fun o c =>
    (o.account, o.code, o.messageType) = (c.account, c.code, c.messageType)
  resourceLimits : before.resourceLimits.Evolves after.resourceLimits (fun _ => [])
    fun o c => o.owner = c.owner
  resourceUsage : before.resourceUsage.Evolves after.resourceUsage (fun _ => [])
    fun o c => o.owner = c.owner
  resourceState : before.resourceState.Evolves after.resourceState (fun _ => []) fun _ _ => True
  resourceConfig : before.resourceConfig.Evolves after.resourceConfig (fun _ => []) fun _ _ => True

section Keys

variable (blob : BlobRef → Bytes) (names : ParentNames) (ids : TableIds)

theorem keyOf_of_shape {name : TableName} {words : List UInt64} {bytes : Bytes} (rest : Bytes)
    (size : name.keyLen = 1 + 8 * words.length) (shape : bytes = keyWords words ++ rest) :
    name.keyOf bytes = keyWords words := by
  rw [TableName.keyOf, shape]
  exact take_keyWords words rest size

theorem key_serAccount (r : AccountRow) :
    TableName.account.keyOf (serAccount blob r) = keyWords [r.name] :=
  keyOf_of_shape (u32 r.creationDate ++ packBytes (blob r.abi)) rfl
    (by simp [serAccount, keyWords, uvar, digits])

theorem key_serAccountMetadata (r : AccountMetaRow) :
    TableName.accountMetadata.keyOf (serAccountMetadata r) = keyWords [r.name] :=
  keyOf_of_shape _ rfl (by
    simp only [serAccountMetadata, keyWords, uvar, digits, List.flatMap_cons, List.flatMap_nil,
      List.append_nil, List.append_assoc, List.cons_append]
    rfl)

def codeKey (key : UInt8 × UInt8 × Vector UInt8 32) : Bytes :=
  0 :: key.1 :: key.2.1 :: key.2.2.toList

theorem codeKey_injective : Function.Injective codeKey := by
  rintro ⟨vmType, vmVersion, hash⟩ ⟨vmType', vmVersion', hash'⟩ same
  simp only [codeKey, List.cons.injEq, true_and, Vector.toList_inj] at same
  obtain ⟨rfl, rfl, rfl⟩ := same
  rfl

theorem key_serCode (r : CodeRow) :
    TableName.code.keyOf (serCode blob r) = codeKey (r.vmType, r.vmVersion, r.codeHash) := by
  have shape : serCode blob r = codeKey (r.vmType, r.vmVersion, r.codeHash) ++ packBytes (blob r.code) := by
    simp [serCode, codeKey, uvar, digits, u8]
  rw [TableName.keyOf, shape]
  apply List.take_left'
  simp [codeKey, TableName.keyLen]

/-- The key of a contract row: where its table id leads, and its primary key. -/
def contractKey (tId : Int64) (primaryKey : UInt64) : List UInt64 :=
  [(tableIdContext ids tId).1, (tableIdContext ids tId).2.1, (tableIdContext ids tId).2.2, primaryKey]

theorem key_header {name : TableName} (size : name.keyLen = 33) (tId : Int64)
    (primaryKey payer : UInt64) (rest : Bytes) :
    name.keyOf (serSecondaryHeader ids tId primaryKey payer ++ rest) =
      keyWords (contractKey ids tId primaryKey) :=
  keyOf_of_shape (u64 payer ++ rest) size
    (by simp [serSecondaryHeader, contractKey, keyWords, uvar, digits])

/-- What a permission is written as when its authority can be read. -/
def permissionPayload (r : PermissionRow) : Bytes :=
  uvar 0 ++ u64 r.owner ++ u64 r.permName ++ u64 (parentName names r.parent) ++
    i64 r.lastUpdated ++ (serAuthority (blob r.auth)).getD []

theorem serPermission_eq {r : PermissionRow}
    (read : ∃ auth, serAuthority (blob r.auth) = some auth) :
    serPermission blob names r = some (permissionPayload blob names r) := by
  obtain ⟨auth, parsed⟩ := read
  simp only [serPermission, permissionPayload, parsed, Option.map_some, Option.getD_some]

theorem key_permissionPayload (r : PermissionRow) :
    TableName.permission.keyOf (permissionPayload blob names r) = keyWords [r.owner, r.permName] :=
  keyOf_of_shape (u64 (parentName names r.parent) ++ (i64 r.lastUpdated ++
    (serAuthority (blob r.auth)).getD [])) rfl (by simp [permissionPayload, keyWords, uvar, digits])

theorem key_serResourceLimits (r : ResourceLimitsRow) :
    TableName.resourceLimits.keyOf (serResourceLimits r) = keyWords [r.owner] :=
  keyOf_of_shape (i64 r.netWeight ++ (i64 r.cpuWeight ++ i64 r.ramBytes)) rfl
    (by simp [serResourceLimits, keyWords, uvar, digits])

theorem key_serResourceUsage (r : ResourceUsageRow) :
    TableName.resourceUsage.keyOf (serResourceUsage r) = keyWords [r.owner] :=
  keyOf_of_shape (serUsageAccumulator r.netUsage ++ (serUsageAccumulator r.cpuUsage ++
    u64 r.ramUsage)) rfl (by simp [serResourceUsage, keyWords, uvar, digits])

theorem word_injective : Function.Injective fun a : UInt64 => keyWords [a] := by
  intro a b same
  exact List.cons.inj (keyWords_inj (by rfl) same) |>.1

theorem pair_injective : Function.Injective fun k : UInt64 × UInt64 => keyWords [k.1, k.2] := by
  rintro ⟨a, b⟩ ⟨c, d⟩ same
  simpa using keyWords_inj (by rfl) same

theorem triple_injective :
    Function.Injective fun k : UInt64 × UInt64 × UInt64 => keyWords [k.1, k.2.1, k.2.2] := by
  rintro ⟨a, b, c⟩ ⟨d, e, f⟩ same
  simpa using keyWords_inj (by rfl) same

end Keys

section Tables

variable {before after db : ChainState}

variable {id : Nat} {row : ContractTableRow} {tId : Int64} {full : Bool}

theorem slot_injective {a b : Int64} (first : slot a = some id) (second : slot b = some id) : a = b := by
  apply Int64.toInt_inj.mp
  simp only [slot, Option.ite_none_right_eq_some, Option.some.injEq] at first second
  omega

theorem tableIdMap_live (named : slot tId = some id)
    (live : db.contractTable.rows.get id = some row) :
    db.tableIdMap full tId = some (row.code, row.scope, row.table) := by
  simp only [tableIdMap, named, Option.bind_some, live, Option.some_or, Option.map_some]

/-- A table id leads to the same place for the whole session, although its table may be gone. -/
theorem BlockSession.tableIdMap_delta (session : BlockSession before after)
    (named : slot tId = some id) (live : before.contractTable.rows.get id = some row) :
    after.tableIdMap false tId = some (row.code, row.scope, row.table) := by
  have start : after.contractTable.before.get id = some row := by
    rw [session.contractTable.rows]
    exact live
  cases now : after.contractTable.rows.get id with
  | some other =>
    rw [tableIdMap_live named now]
    exact congrArg some (session.contractTable.keeps id row other start (.inl now)).symm
  | none =>
    have opened : ∃ state, after.contractTable.session = some state := by
      apply Option.ne_none_iff_exists'.mp
      intro closed
      rw [View.before, closed, Option.elim_none, now] at start
      cases start
    obtain ⟨state, opened⟩ := opened
    obtain ⟨last, removed⟩ := View.removed_of_gone opened start now
    have same := session.contractTable.keeps id row last start (.inr removed)
    simp only [tableIdMap, named, Option.bind_some, now, Option.none_or, Bool.false_eq_true,
      ↓reduceIte, removed, Option.map_some]
    exact congrArg some same.symm

theorem contractKey_live {primaryKey : UInt64} (named : slot tId = some id)
    (live : db.contractTable.rows.get id = some row) :
    contractKey (db.tableIdMap full) tId primaryKey = [row.code, row.scope, row.table, primaryKey] := by
  simp only [contractKey, tableIdContext, tableIdMap_live named live, Option.getD_some]

theorem Wellformed.contractKey_injective (wellformed : db.Wellformed) {tId' : Int64}
    {primaryKey primaryKey' : UInt64} (table : db.HasTable tId) (table' : db.HasTable tId')
    (same : keyWords (contractKey (db.tableIdMap full) tId primaryKey) =
      keyWords (contractKey (db.tableIdMap full) tId' primaryKey')) :
    tId = tId' ∧ primaryKey = primaryKey' := by
  obtain ⟨id, row, named, live⟩ := table
  obtain ⟨id', row', named', live'⟩ := table'
  rw [contractKey_live named live, contractKey_live named' live'] at same
  have words := keyWords_inj (by simp only [List.length_cons]) same
  simp only [List.cons.injEq, and_true] at words
  obtain ⟨code, scope, name, key⟩ := words
  have slots : id = id' := wellformed.contractTable id id' row row' live live'
    (by simp only [code, scope, name])
  subst slots
  exact ⟨slot_injective named named', key⟩

/-- The four framed families of contract rows: a header under the key of the table, and a tail
that does not depend on it. -/
theorem BlockSession.family (session : BlockSession before after) {T : Type} {v u : View T}
    {name : TableName} (size : name.keyLen = 33) {refs : T → List BlobRef} {tId : T → Int64}
    {primaryKey payer : T → UInt64} {tail tail' : T → Bytes} {ser ser' : TableIds → T → Bytes}
    (shape : ∀ ids r, ser ids r = serSecondaryHeader ids (tId r) (primaryKey r) (payer r) ++ tail r)
    (shape' : ∀ ids r, ser' ids r = serSecondaryHeader ids (tId r) (primaryKey r) (payer r) ++ tail' r)
    (evolves : v.Evolves u refs fun o c => (tId o, primaryKey o) = (tId c, primaryKey c))
    (tails : ∀ i row, v.rows.get i = some row → tail row = tail' row)
    (tables : ∀ i row, v.rows.get i = some row → before.HasTable (tId row))
    (tables' : ∀ i row, u.rows.get i = some row → after.HasTable (tId row))
    (unique : v.Unique fun row => (tId row, primaryKey row))
    (unique' : u.Unique fun row => (tId row, primaryKey row)) :
    Carries v u name always (ser (before.tableIdMap true)) (ser' (after.tableIdMap true))
      (ser' (after.tableIdMap false)) where
  rows := evolves.rows
  live i row now := by
    obtain ⟨id, table, named, live⟩ := tables' i row now
    simp only [shape', serSecondaryHeader, tableIdContext, tableIdMap_live named live]
  same i row start now := by
    obtain ⟨id, table, named, live⟩ := tables i row start
    obtain ⟨id', table', named', live'⟩ := tables' i row now
    have delta := session.tableIdMap_delta named live
    rw [tableIdMap_live named' live'] at delta
    simp only [shape, shape', serSecondaryHeader, tableIdContext, tableIdMap_live named live,
      tableIdMap_live named' live', delta, tails i row start]
  keys i a b start later := by
    obtain ⟨id, table, named, live⟩ := tables i a start
    have kept := evolves.keeps i a b (by rw [evolves.rows]; exact start) later
    obtain ⟨sameTable, sameKey⟩ := Prod.mk.inj kept
    simp only [shape, shape', key_header _ size, contractKey, tableIdContext,
      tableIdMap_live named live, ← sameTable, ← sameKey, session.tableIdMap_delta named live]
  filter i a b _ _ stopped := by cases stopped
  oldKeys i j a b here there same := by
    simp only [shape, key_header _ size] at same
    obtain ⟨sameTable, sameKey⟩ :=
      session.started.contractKey_injective (tables i a here) (tables j b there) same
    exact unique i j a b here there (Prod.ext sameTable sameKey)
  newKeys i j a b here there same := by
    simp only [shape', key_header _ size] at same
    obtain ⟨sameTable, sameKey⟩ :=
      session.ended.contractKey_injective (tables' i a here) (tables' j b there) same
    exact unique' i j a b here there (Prod.ext sameTable sameKey)

end Tables

section Permissions

variable {before after db : ChainState}

theorem Wellformed.parentNames_live (wellformed : db.Wellformed) {full : Bool} {j : Nat}
    {p : PermissionRow} (live : db.permission.rows.get j = some p) :
    db.permissionParentNames full p.cbId = some p.permName := by
  have listed : (j, p) ∈ db.permission.iter.reverse := List.mem_reverse.mpr (View.mem_iter.mpr live)
  have found : ∃ r, db.permission.iter.reverse.find? (fun r => r.2.cbId = p.cbId) = some r := by
    apply Option.isSome_iff_exists.mp
    rw [List.find?_isSome]
    exact ⟨(j, p), listed, by simp⟩
  obtain ⟨⟨i, q⟩, found⟩ := found
  have here := View.mem_iter.mp (List.mem_reverse.mp (List.mem_of_find?_eq_some found))
  have keyed : q.cbId = p.cbId := by simpa using List.find?_some found
  have slots : i = j := wellformed.permission_cbId i j q p here live keyed
  rw [slots, live] at here
  obtain rfl : p = q := Option.some.inj here
  simp only [permissionParentNames, List.find?_append, found, Option.some_or, Option.map_some]

theorem Wellformed.parentName_delta (wellformed : db.Wellformed) {i : Nat} {row : PermissionRow}
    (live : db.permission.rows.get i = some row) :
    parentName (db.permissionParentNames false) row.parent =
      parentName (db.permissionParentNames true) row.parent := by
  by_cases root : row.parent = 0
  · simp only [parentName, root, ne_eq, not_true_eq_false, ↓reduceIte]
  · obtain ⟨j, p, held, keyed⟩ := wellformed.permission_parent i row live root
    simp only [parentName, ← keyed, wellformed.parentNames_live held]

theorem BlockSession.parentName_same (session : BlockSession before after) {i : Nat}
    {row : PermissionRow} (start : before.permission.rows.get i = some row)
    (now : after.permission.rows.get i = some row) :
    parentName (before.permissionParentNames true) row.parent =
      parentName (after.permissionParentNames true) row.parent := by
  by_cases root : row.parent = 0
  · simp only [parentName, root, ne_eq, not_true_eq_false, ↓reduceIte]
  · obtain ⟨j, p, held, keyed⟩ := session.started.permission_parent i row start root
    obtain ⟨k, q, held', keyed'⟩ := session.ended.permission_parent i row now root
    have slots := session.permission_fresh j k p q held held' (keyed.trans keyed'.symm)
    subst slots
    have kept := session.permission.keeps j p q (by rw [session.permission.rows]; exact held) (.inl held')
    simp only [Prod.mk.injEq] at kept
    have first : before.permissionParentNames true row.parent = some p.permName := by
      rw [← keyed]
      exact session.started.parentNames_live held
    have second : after.permissionParentNames true row.parent = some q.permName := by
      rw [← keyed']
      exact session.ended.parentNames_live held'
    simp only [parentName, first, second, kept.2.1]

end Permissions

namespace BlockSession

variable {before after : ChainState} (session : BlockSession before after)

include session

theorem account_carries : Carries before.account after.account .account always
    (serAccount before.account.blob) (serAccount after.account.blob) (serAccount after.account.blob) := by
  apply Carries.ofKey session.account word_injective (key_serAccount _) (key_serAccount _)
    (key_serAccount _) _ _ _ session.started.account session.ended.account
  · exact fun _ _ _ => rfl
  · intro i row start _
    simp only [serAccount, session.account.blobs i row start row.abi List.mem_cons_self]
  · intro i a b _ _ stopped
    cases stopped

theorem accountMetadata_carries : Carries before.accountMetadata after.accountMetadata
    .accountMetadata includeAccountMeta serAccountMetadata serAccountMetadata serAccountMetadata := by
  apply Carries.ofRow session.accountMetadata word_injective key_serAccountMetadata
    session.started.accountMetadata session.ended.accountMetadata
  exact fun _ _ _ stopped => serAccountMetadata_stopped stopped

theorem code_carries : Carries before.code after.code .code includeCode
    (serCode before.code.blob) (serCode after.code.blob) (serCode after.code.blob) := by
  apply Carries.ofKey session.code codeKey_injective (key_serCode _) (key_serCode _)
    (key_serCode _) _ _ _ session.started.code session.ended.code
  · exact fun _ _ _ => rfl
  · intro i row start _
    simp only [serCode, session.code.blobs i row start row.code List.mem_cons_self]
  · -- the image of a code row is never replaced by another one
    intro i a b start now _
    have held : after.code.before.get i = some a := by
      rw [session.code.rows]
      exact start
    have kept := session.code.keeps i a b held (.inl now)
    have image := session.code_image i a b held (.inl now)
    simp only [Prod.mk.injEq] at kept
    simp only [serCode, kept.1, kept.2.1, kept.2.2, ← image,
      session.code.blobs i a start a.code List.mem_cons_self]

theorem contractTable_carries : Carries before.contractTable after.contractTable .contractTable
    includeContractTable serContractTable serContractTable serContractTable := by
  apply Carries.ofRow session.contractTable triple_injective (fun r =>
    keyOf_of_shape (u64 r.payer) rfl (by simp [serContractTable, keyWords, uvar, digits]))
    session.started.contractTable session.ended.contractTable
  intro a b kept stopped
  have payer : a.payer = b.payer := by simpa [includeContractTable] using stopped
  simp only [Prod.mk.injEq] at kept
  simp only [serContractTable, kept.1, kept.2.1, kept.2.2, payer]

theorem permission_carries : Carries before.permission after.permission .permission always
    (permissionPayload before.permission.blob (before.permissionParentNames true))
    (permissionPayload after.permission.blob (after.permissionParentNames true))
    (permissionPayload after.permission.blob (after.permissionParentNames false)) := by
  have named : before.permission.Evolves after.permission (fun r => [r.auth])
      fun o c => (o.owner, o.permName) = (c.owner, c.permName) := by
    apply session.permission.imp
    intro o c same
    simp only [Prod.mk.injEq] at same
    exact Prod.ext same.1 same.2.1
  apply Carries.ofKey named pair_injective (key_permissionPayload _ _) (key_permissionPayload _ _)
    (key_permissionPayload _ _) _ _ _ session.started.permission session.ended.permission
  · intro i row now
    simp only [permissionPayload, session.ended.parentName_delta now]
  · intro i row start now
    simp only [permissionPayload, session.parentName_same start now,
      session.permission.blobs i row start row.auth List.mem_cons_self]
  · intro i a b _ _ stopped
    cases stopped

theorem permissionLink_carries : Carries before.permissionLink after.permissionLink
    .permissionLink always serPermissionLink serPermissionLink serPermissionLink := by
  apply Carries.ofRow session.permissionLink triple_injective (fun r =>
    keyOf_of_shape (u64 r.requiredPermission) rfl
      (by simp [serPermissionLink, keyWords, uvar, digits]))
    session.started.permissionLink session.ended.permissionLink
  intro a b _ stopped
  cases stopped

theorem resourceLimits_carries : Carries before.resourceLimits after.resourceLimits
    .resourceLimits includeResourceLimits serResourceLimits serResourceLimits serResourceLimits := by
  apply Carries.ofRow session.resourceLimits word_injective key_serResourceLimits
    session.started.resourceLimits session.ended.resourceLimits
  exact fun _ _ kept stopped => serResourceLimits_stopped kept stopped

theorem resourceUsage_carries : Carries before.resourceUsage after.resourceUsage .resourceUsage
    always serResourceUsage serResourceUsage serResourceUsage := by
  apply Carries.ofRow session.resourceUsage word_injective key_serResourceUsage
    session.started.resourceUsage session.ended.resourceUsage
  intro a b _ stopped
  cases stopped

omit session in
theorem singleton_carries {T : Type} {v u : View T} {name : TableName} (size : name.keyLen = 0)
    {includeDelta : T → T → Bool} {ser : T → Bytes} {refs : T → List BlobRef}
    (evolves : v.Evolves u refs fun _ _ => True)
    (stopped : ∀ a b, includeDelta a b = false → ser a = ser b)
    (unique : v.Unique fun _ => ()) (unique' : u.Unique fun _ => ()) :
    Carries v u name includeDelta ser ser ser := by
  have empty : ∀ row, name.keyOf (ser row) = [] := by
    intro row
    rw [TableName.keyOf, size, List.take_zero]
  have one : Function.Injective fun _ : Unit => ([] : Bytes) := fun _ _ _ => rfl
  exact Carries.ofRow (evolves.imp fun _ _ _ => rfl) one empty unique unique'
    fun a b _ => stopped a b

theorem globalProperty_carries (chainId : Vector UInt8 32) :
    Carries before.globalProperty after.globalProperty .globalProperty always
      (serGlobalProperty chainId) (serGlobalProperty chainId) (serGlobalProperty chainId) :=
  singleton_carries rfl session.globalProperty (fun _ _ stopped => by cases stopped)
    session.started.globalProperty session.ended.globalProperty

theorem resourceState_carries : Carries before.resourceState after.resourceState
    .resourceLimitsState includeResourceState serResourceLimitsState serResourceLimitsState
    serResourceLimitsState :=
  singleton_carries rfl session.resourceState (fun _ _ => serResourceLimitsState_stopped)
    session.started.resourceState session.ended.resourceState

theorem resourceConfig_carries : Carries before.resourceConfig after.resourceConfig
    .resourceLimitsConfig includeResourceConfig serResourceLimitsConfig serResourceLimitsConfig
    serResourceLimitsConfig :=
  singleton_carries rfl session.resourceConfig (fun _ _ => serResourceLimitsConfig_stopped)
    session.started.resourceConfig session.ended.resourceConfig

theorem contractRow_carries : Carries before.contractRow after.contractRow .contractRow always
    (serContractRow before.contractRow.blob (before.tableIdMap true))
    (serContractRow after.contractRow.blob (after.tableIdMap true))
    (serContractRow after.contractRow.blob (after.tableIdMap false)) := by
  apply session.family rfl (fun _ _ => rfl) (fun _ _ => rfl) session.contractRow _
    session.started.contractRow_table session.ended.contractRow_table
    session.started.contractRow session.ended.contractRow
  intro i row start
  rw [session.contractRow.blobs i row start row.value List.mem_cons_self]

theorem contractIndex64_carries : Carries before.contractIndex64 after.contractIndex64
    .contractIndex64 always (serIndex64 (before.tableIdMap true))
    (serIndex64 (after.tableIdMap true)) (serIndex64 (after.tableIdMap false)) :=
  session.family rfl (fun _ _ => rfl) (fun _ _ => rfl) session.contractIndex64 (fun _ _ _ => rfl)
    session.started.contractIndex64_table session.ended.contractIndex64_table
    session.started.contractIndex64 session.ended.contractIndex64

theorem contractIndex128_carries : Carries before.contractIndex128 after.contractIndex128
    .contractIndex128 always (serIndex128 (before.tableIdMap true))
    (serIndex128 (after.tableIdMap true)) (serIndex128 (after.tableIdMap false)) :=
  session.family rfl (fun _ _ => List.append_assoc _ _ _) (fun _ _ => List.append_assoc _ _ _)
    session.contractIndex128 (fun _ _ _ => rfl) session.started.contractIndex128_table
    session.ended.contractIndex128_table session.started.contractIndex128
    session.ended.contractIndex128

theorem contractIndex256_carries : Carries before.contractIndex256 after.contractIndex256
    .contractIndex256 always (serIndex256 (before.tableIdMap true))
    (serIndex256 (after.tableIdMap true)) (serIndex256 (after.tableIdMap false)) :=
  session.family rfl (fun _ _ => List.append_assoc _ _ _) (fun _ _ => List.append_assoc _ _ _)
    session.contractIndex256 (fun _ _ _ => rfl) session.started.contractIndex256_table
    session.ended.contractIndex256_table session.started.contractIndex256
    session.ended.contractIndex256

end BlockSession

section Samples

variable {T κ : Type} {refs : T → List BlobRef} {same : T → T → Prop}

theorem opened_unique (key : T → κ) : (View.opened : View T).Unique key := by
  intro i j a b here
  cases here

theorem opened_keeps : (View.opened : View T).Keeps same := by
  intro id old row live
  rw [View.opened_before] at live
  cases live

theorem opened_evolves : (View.opened : View T).Evolves View.opened refs same where
  rows := Patch.restore_fresh Slab.empty
  blobs id row live := by cases live
  keeps := opened_keeps

theorem held_get {row a : T} {i : Nat} (here : (View.held row).rows.get i = some a) :
    i = 0 ∧ row = a := by
  have small : i < 1 := Slab.lt_of_get here
  obtain rfl : i = 0 := by omega
  exact ⟨rfl, Option.some.inj here⟩

theorem held_unique (row : T) (key : T → κ) : (View.held row).Unique key :=
  fun _ _ _ _ here there _ => (held_get here).1.trans (held_get there).1.symm

theorem removed_none {row a : T} {i : Nat} : (View.removed row).rows.get i ≠ some a := by
  rw [View.removed_rows]
  exact nofun

theorem removed_evolves (row : T) (refl : same row row)
    (empty : ∀ r ∈ refs row, r.len = 0) : (View.held row).Evolves (View.removed row) refs same where
  rows := View.removed_before row
  blobs id other live r member := by
    obtain ⟨rfl, rfl⟩ := held_get live
    simp [View.blob, slice, empty r member]
  keeps id old last live later := by
    rw [View.removed_before] at live
    obtain ⟨rfl, rfl⟩ := held_get live
    obtain now | gone := later
    · exact absurd now removed_none
    · rw [View.removed_removedRow gone]
      exact refl

/-- Contract tables, their rows and the features may hold something, the other tables are empty. -/
theorem opened_wellformed_with {tables : View ContractTableRow} {rows : View ContractKeyValueRow}
    (features : View ProtocolFeatureRow) (unique : tables.Unique fun r => (r.code, r.scope, r.table))
    (unique' : rows.Unique fun r => (r.tId, r.primaryKey))
    (home : ∀ i r, rows.rows.get i = some r →
      HasTable { opened with contractTable := tables } r.tId) :
    Wellformed { opened with
      contractTable := tables, contractRow := rows, protocolFeature := features } where
  account := opened_unique _
  accountMetadata := opened_unique _
  code := opened_unique _
  contractTable := unique
  contractRow := unique'
  contractRow_table := home
  contractIndex64 := opened_unique _
  contractIndex64_table i r live := by cases live
  contractIndex128 := opened_unique _
  contractIndex128_table i r live := by cases live
  contractIndex256 := opened_unique _
  contractIndex256_table i r live := by cases live
  globalProperty := opened_unique _
  permission := opened_unique _
  permission_cbId := opened_unique _
  permission_parent i r live := by cases live
  permission_auth entry touched := absurd touched List.not_mem_nil
  permissionLink := opened_unique _
  resourceLimits := opened_unique _
  resourceUsage := opened_unique _
  resourceState := opened_unique _
  resourceConfig := opened_unique _

theorem opened_wellformed (features : View ProtocolFeatureRow) :
    Wellformed { opened with protocolFeature := features } :=
  opened_wellformed_with features (opened_unique _) (opened_unique _) fun _ _ live => by cases live

theorem opened_session : BlockSession opened opened where
  started := opened_wellformed _
  ended := opened_wellformed _
  account := opened_evolves
  accountMetadata := opened_evolves
  code := opened_evolves
  code_image := opened_keeps
  contractTable := opened_evolves
  contractRow := opened_evolves
  contractIndex64 := opened_evolves
  contractIndex128 := opened_evolves
  contractIndex256 := opened_evolves
  globalProperty := opened_evolves
  permission := opened_evolves
  permission_fresh i j p q here := by cases here
  permission_auth entry touched := absurd touched List.not_mem_nil
  permissionLink := opened_evolves
  resourceLimits := opened_evolves
  resourceUsage := opened_evolves
  resourceState := opened_evolves
  resourceConfig := opened_evolves

def sampleTable : ContractTableRow := ⟨0, 1, 2, 3, 4, 1⟩

def sampleRow : ContractKeyValueRow := ⟨0, 0, 5, 4, BlobRef.empty⟩

/-- A table with one row, and the session that removes the row and the table with it. -/
def holdsRow : ChainState :=
  { opened with contractTable := .held sampleTable, contractRow := .held sampleRow }

def removesRow : ChainState :=
  { opened with contractTable := .removed sampleTable, contractRow := .removed sampleRow }

theorem removesRow_session : BlockSession holdsRow removesRow :=
  { opened_session with
    started := opened_wellformed_with _ (held_unique _ _) (held_unique _ _) (by
      intro i r live
      obtain ⟨rfl, rfl⟩ := held_get live
      exact ⟨0, sampleTable, by decide, rfl⟩)
    ended := opened_wellformed_with _ (fun _ _ _ _ here => absurd here removed_none)
      (fun _ _ _ _ here => absurd here removed_none) fun _ _ here => absurd here removed_none
    contractTable := removed_evolves _ rfl (fun r member => absurd member List.not_mem_nil)
    contractRow := removed_evolves _ rfl (by decide) }

/-- A session that activates a protocol feature and does nothing else. -/
def activates : ChainState :=
  { opened with protocolFeature := .created ⟨0, Vector.replicate 32 7, 42⟩ }

theorem activates_session : BlockSession opened activates :=
  { opened_session with ended := opened_wellformed _ }

end Samples

section Law

variable {before after db : ChainState} {chainId : Vector UInt8 32}

theorem nodup_framed (tables : List Frame) : ((framed tables).map Prod.fst).Nodup := by
  rw [framed, List.map_filterMap]
  apply List.Nodup.filterMap
  · intro a b name first second
    simp only [Option.map_map, Option.mem_def, Option.map_eq_some_iff, Function.comp_apply] at first second
    obtain ⟨_, _, rfl⟩ := first
    obtain ⟨_, _, rfl⟩ := second
    rfl
  · decide

variable {name : TableName}

theorem rowsOf_framed (tables : List Frame) (ordered : name ∈ TableName.order) :
    rowsOf (framed tables) name = rowsOf tables name := by
  by_cases present : ∃ rows, tables.lookup name = some rows ∧ rows ≠ []
  · obtain ⟨rows, found, filled⟩ := present
    have member : (name, rows) ∈ framed tables := mem_framed.mpr ⟨ordered, found, filled⟩
    rw [rowsOf, rowsOf, lookup_of_mem (nodup_framed tables) member, found]
  · have absent : (framed tables).lookup name = none := by
      rw [List.lookup_eq_none_iff]
      intro frame member
      by_contra same
      have name_eq : name = frame.1 := by simpa using same
      obtain ⟨_, found, filled⟩ := mem_framed.mp (show (frame.1, frame.2) ∈ framed tables from member)
      exact present ⟨frame.2, by rw [name_eq]; exact found, filled⟩
    have empty : rowsOf tables name = [] := by
      unfold rowsOf
      cases found : tables.lookup name with
      | none => rfl
      | some rows =>
        by_contra filled
        exact present ⟨rows, found, filled⟩
    rw [rowsOf, absent, empty]
    rfl

theorem rowsOf_bucket {full : Bool} {tables : List Frame}
    (collected : db.perTable full chainId = some tables) {b : Bucket}
    (member : b ∈ db.buckets full chainId) (ordered : b.name ∈ TableName.order)
    {payload : b.Row → Bytes}
    (total : ∀ entry ∈ b.touched full, b.ser entry.2 = some (payload entry.2)) :
    rowsOf (framed tables) b.name = written b.table full b.includeDelta payload := by
  obtain ⟨distinct, _, each⟩ := perTable_eq_some collected
  obtain ⟨rows, found, inside⟩ := each b member
  have all : b.collectTable full = some (written b.table full b.includeDelta payload) := by
    rw [Bucket.collectTable, mapM_eq_some, written, List.forall₂_map_right_iff]
    apply List.forall₂_same.mpr
    intro entry touched
    rw [total entry touched]
    rfl
  rw [rowsOf_framed tables ordered, rowsOf, lookup_of_mem distinct inside, Option.getD_some]
  exact Option.some.inj (found.symm.trans all)

/-- The law for one table of three decoded streams, and the keys of its removed rows. -/
def LawAt (start changes finish : List Frame) (name : TableName) : Prop :=
  applyRows name.keyOf (ofRows name.keyOf (rowsOf start name)) (rowsOf changes name) =
      ofRows name.keyOf (rowsOf finish name) ∧
    ∀ payload, (false, payload) ∈ rowsOf changes name →
      ∃ row ∈ rowsOf start name, name.keyOf row.2 = name.keyOf payload

/-- The delta applied to the snapshot before the session gives the snapshot after it. -/
def DeltaLaw (before after : ChainState) (chainId : Vector UInt8 32) : Prop :=
  ∃ start changes finish,
    (before.packDeltas true chainId).bind unpackTables = some start ∧
    (after.packDeltas false chainId).bind unpackTables = some changes ∧
    (after.packDeltas true chainId).bind unpackTables = some finish ∧
    ∀ name ∈ TableName.order, LawAt start changes finish name

variable {start changes finish : List Frame}

/-- The three streams as they are collected. -/
structure Streams (before after : ChainState) (chainId : Vector UInt8 32)
    (start changes finish : List Frame) : Prop where
  start : before.perTable true chainId = some start
  changes : after.perTable false chainId = some changes
  finish : after.perTable true chainId = some finish

theorem Streams.lawAt (streams : Streams before after chainId start changes finish) {T : Type}
    {v u : View T} {includeDelta : T → T → Bool} {serOld serDelta serNew : T → Option Bytes}
    {old new delta : T → Bytes} (carries : Carries v u name includeDelta old new delta)
    (ordered : name ∈ TableName.order)
    (inFirst : ⟨T, name, v, includeDelta, serOld⟩ ∈ before.buckets true chainId)
    (inSecond : ⟨T, name, u, includeDelta, serDelta⟩ ∈ after.buckets false chainId)
    (inThird : ⟨T, name, u, includeDelta, serNew⟩ ∈ after.buckets true chainId)
    (totalOld : ∀ entry ∈ v.touched true includeDelta, serOld entry.2 = some (old entry.2))
    (totalDelta : ∀ entry ∈ u.touched false includeDelta, serDelta entry.2 = some (delta entry.2))
    (totalNew : ∀ entry ∈ u.touched true includeDelta, serNew entry.2 = some (new entry.2)) :
    LawAt (framed start) (framed changes) (framed finish) name := by
  have oldRows := rowsOf_bucket streams.start inFirst ordered totalOld
  have deltaRows := rowsOf_bucket streams.changes inSecond ordered totalDelta
  have newRows := rowsOf_bucket streams.finish inThird ordered totalNew
  rw [LawAt, oldRows, deltaRows, newRows]
  exact ⟨carries.law, fun payload gone => carries.removed_announced gone⟩

theorem Streams.total (streams : Streams before after chainId start changes finish) {T : Type}
    {v u : View T} {includeDelta : T → T → Bool} {old new delta : T → Bytes}
    (carries : Carries v u name includeDelta old new delta) (ordered : name ∈ TableName.order)
    (inFirst : ⟨T, name, v, includeDelta, some ∘ old⟩ ∈ before.buckets true chainId)
    (inSecond : ⟨T, name, u, includeDelta, some ∘ delta⟩ ∈ after.buckets false chainId)
    (inThird : ⟨T, name, u, includeDelta, some ∘ new⟩ ∈ after.buckets true chainId) :
    LawAt (framed start) (framed changes) (framed finish) name :=
  streams.lawAt carries ordered inFirst inSecond inThird (fun _ _ => rfl) (fun _ _ => rfl)
    fun _ _ => rfl

theorem BlockSession.lawAt (session : BlockSession before after)
    (streams : Streams before after chainId start changes finish) (ordered : name ∈ TableName.order)
    (other : name ≠ .protocolState) :
    LawAt (framed start) (framed changes) (framed finish) name := by
  cases name with
  | account => apply streams.total session.account_carries ordered <;> simp [buckets]
  | accountMetadata =>
    apply streams.total session.accountMetadata_carries ordered <;> simp [buckets]
  | code => apply streams.total session.code_carries ordered <;> simp [buckets]
  | contractTable => apply streams.total session.contractTable_carries ordered <;> simp [buckets]
  | contractRow => apply streams.total session.contractRow_carries ordered <;> simp [buckets]
  | contractIndex64 =>
    apply streams.total session.contractIndex64_carries ordered <;> simp [buckets]
  | contractIndex128 =>
    apply streams.total session.contractIndex128_carries ordered <;> simp [buckets]
  | contractIndex256 =>
    apply streams.total session.contractIndex256_carries ordered <;> simp [buckets]
  | globalProperty =>
    apply streams.total (session.globalProperty_carries chainId) ordered <;> simp [buckets]
  | protocolState => exact absurd rfl other
  | permission =>
    apply streams.lawAt session.permission_carries ordered permission_mem permission_mem
      permission_mem
    · exact fun entry touched => serPermission_eq _ _ (session.started.permission_auth entry touched)
    · exact fun entry touched => serPermission_eq _ _ (session.permission_auth entry touched)
    · exact fun entry touched => serPermission_eq _ _ (session.ended.permission_auth entry touched)
  | permissionLink => apply streams.total session.permissionLink_carries ordered <;> simp [buckets]
  | resourceLimits => apply streams.total session.resourceLimits_carries ordered <;> simp [buckets]
  | resourceUsage => apply streams.total session.resourceUsage_carries ordered <;> simp [buckets]
  | resourceLimitsState =>
    apply streams.total session.resourceState_carries ordered <;> simp [buckets]
  | resourceLimitsConfig =>
    apply streams.total session.resourceConfig_carries ordered <;> simp [buckets]
  | contractIndexDouble | contractIndexLongDouble | generatedTransaction =>
    exact absurd ordered (by decide)

theorem lawAt_protocolState (streams : Streams before after chainId start changes finish) :
    LawAt (framed start) (framed changes) (framed finish) .protocolState ↔
      protocolState before.protocolFeature.rows = protocolState after.protocolFeature.rows := by
  have ordered : TableName.protocolState ∈ TableName.order := by decide
  have rows : ∀ {db : ChainState} {full : Bool} {tables : List Frame},
      db.perTable full chainId = some tables →
      rowsOf (framed tables) .protocolState = db.collectProtocolState full := by
    intro db full tables collected
    obtain ⟨distinct, inside, _⟩ := perTable_eq_some collected
    rw [rowsOf_framed tables ordered, rowsOf, lookup_of_mem distinct inside, Option.getD_some]
  rw [LawAt, rows streams.start, rows streams.changes, rows streams.finish]
  simp only [collectProtocolState, ↓reduceIte, Bool.false_eq_true, List.not_mem_nil,
    IsEmpty.forall_iff, implies_true, and_true]
  constructor
  · intro law
    have here := congrFun law []
    simpa [applyRows, ofRows, applyRow, TableName.keyOf, TableName.keyLen] using here
  · intro same
    rw [same]
    rfl

/-- The delta law holds exactly if the session activated no protocol feature. -/
theorem deltaLaw_iff (before after : ChainState) (chainId : Vector UInt8 32)
    (session : BlockSession before after) :
    DeltaLaw before after chainId ↔
      protocolState before.protocolFeature.rows = protocolState after.protocolFeature.rows := by
  obtain ⟨start, first⟩ := perTable_isSome_iff.mpr session.started.permission_auth
  obtain ⟨changes, second⟩ := perTable_isSome_iff.mpr session.permission_auth
  obtain ⟨finish, third⟩ := perTable_isSome_iff.mpr session.ended.permission_auth
  have streams : Streams before after chainId start changes finish := ⟨first, second, third⟩
  have unpack : ∀ {db : ChainState} {full : Bool} {tables : List Frame},
      db.perTable full chainId = some tables →
      (db.packDeltas full chainId).bind unpackTables = some (framed tables) := by
    intro db full tables collected
    rw [packDeltas, collected, Option.map_some, Option.bind_some, unpackTables_packMany]
  constructor
  · rintro ⟨one, two, three, isOne, isTwo, isThree, law⟩
    rw [unpack first, Option.some.injEq] at isOne
    rw [unpack second, Option.some.injEq] at isTwo
    rw [unpack third, Option.some.injEq] at isThree
    subst isOne isTwo isThree
    exact (lawAt_protocolState streams).mp (law .protocolState (by decide))
  · intro same
    refine ⟨framed start, framed changes, framed finish, unpack first, unpack second, unpack third, ?_⟩
    intro name ordered
    by_cases feature : name = .protocolState
    · subst feature
      exact (lawAt_protocolState streams).mpr same
    · exact session.lawAt streams ordered feature

/-- A row and its table that go in one session are announced under the old key. -/
theorem deltaLaw_iff_removed : BlockSession holdsRow removesRow ∧
    DeltaLaw holdsRow removesRow (Vector.replicate 32 0) :=
  ⟨removesRow_session, (deltaLaw_iff _ _ _ removesRow_session).mpr (by decide +kernel)⟩

/-- The delta of a feature activation is empty, and the snapshots differ. -/
theorem deltaLaw_fails_activated : BlockSession opened activates ∧
    activates.packDeltas false (Vector.replicate 32 0) = some [0] ∧
    ¬DeltaLaw opened activates (Vector.replicate 32 0) := by
  refine ⟨activates_session, by decide +kernel, ?_⟩
  rintro ⟨start, changes, finish, first, second, third, law⟩
  have noRows : (activates.packDeltas false (Vector.replicate 32 0)).bind unpackTables = some [] := by
    decide +kernel
  have isStart : (opened.packDeltas true (Vector.replicate 32 0)).bind unpackTables =
      some [(.protocolState, [(true, [0, 0])])] := by
    decide +kernel
  have isFinish : (activates.packDeltas true (Vector.replicate 32 0)).bind unpackTables =
      some [(.protocolState,
        [(true, serProtocolState [⟨0, Vector.replicate 32 7, 42⟩])])] := by
    decide +kernel
  rw [noRows, Option.some.injEq] at second
  rw [isStart, Option.some.injEq] at first
  rw [isFinish, Option.some.injEq] at third
  subst first second third
  have here := congrFun (law .protocolState (by decide)).1 []
  revert here
  decide +kernel

end Law

end ChainState

end PulseVM.History
