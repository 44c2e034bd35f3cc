import PulseVM.Chain.Permissions

/-!
The native actions on accounts, permissions and links: `newaccount`, `updateauth`,
`deleteauth`, `linkauth` and `unlinkauth`, and the accounts that a chain starts with.
-/

namespace PulseVM.Chain
open Arena Lib Lib.Calls

/-! Billed sizes. -/

def billable (value : Nat) : Nat := (value + 15) / 16 * 16

/-- A variable-length integer takes a byte for seven bits. -/
def varuintSize (value : Nat) : Nat := max 1 ((Nat.size value + 6) / 7)

def AuthorityPublicKey.packedSize : AuthorityPublicKey → Nat
  | k1 _ => 34
  | r1 _ => 34
  | webAuthn _ _ rpid => 35 + varuintSize rpid.utf8ByteSize + rpid.utf8ByteSize

def Authority.billableSize (a : Authority) : Nat :=
  (a.keys.map fun k => billable 8 + k.key.packedSize).sum + a.accounts.length * billable 24 +
    a.waits.length * billable 16

def permissionObjectSize : Nat := billable (billable (3 * 16 + 4) + 64 + 5 * 32)

def overheadPerAccountRamBytes : Nat := 2048

def permissionLinkObjectBillable : Int := 144

/-! Calls on the tables. -/

/-- What an action knows of the block and of itself. -/
structure ActionEnv where
  systemAccounts : SystemAccountNames
  authorization : List PermissionLevel
  pendingSlot : UInt32
  pendingMicros : Int64
  onlyLinkToExistingPermission : Bool
  fixLinkauthRestriction : Bool
  deriving Repr

abbrev AuthCall := Call AuthError AuthDb

namespace AuthCall

variable {α : Type}

def update (f : AuthDb → AuthDb) : AuthCall Unit := fun db => (.ok (), f db)

def pulseAssert (condition : Bool) (error : AuthError) : AuthCall Unit :=
  if condition then pure () else Call.throw error

def isAccount (account : UInt64) : AuthCall Bool := Call.read (·.isAccount account)

def createAccount (name : UInt64) (creationDate : UInt32) (privileged : Bool) : AuthCall Unit :=
  fun db =>
    match db.accounts.insert fun id => ⟨id, name, creationDate, privileged⟩ with
    | some accounts => (.ok (), { db with accounts := accounts })
    | none => (.error (.arena "arena create_account"
        (.uniquenessViolation "AccountRow" "AccountRowByName")), db)

/-- The counter starts at 1, since 0 is reserved. -/
def nextPermissionId : AuthCall Int64 := fun db =>
  let current := db.permSeq.getD 1
  (.ok current, { db with permSeq := some (current + 1) })

/-- Usage is stored first, so that the permission can refer to it. -/
def createUsage (lastUsed : Int64) : AuthCall Nat := fun db =>
  match db.usage.insert fun id => ⟨id, lastUsed⟩ with
  | some usage => (.ok db.usage.nextId, { db with usage := usage })
  | none => (.error (.arena "arena create_permission" (.corrupted "primary")), db)

def insertPermission (make : Nat → Permission) (slot : ∀ id, (make id).id = id) : AuthCall Unit :=
  fun db =>
    match db.permissions.insert make slot with
    | .ok permissions => (.ok (), { db with permissions := permissions })
    | .error e => (.error (.arena "arena create_permission" e), db)

def createPermission (account name : UInt64) (parent : Int64) (auth : Authority)
    (creationTime : Int64) : AuthCall Int64 := do
  let cbId ← nextPermissionId
  let usageId ← createUsage creationTime
  insertPermission (fun id =>
    ⟨id, cbId, usageId, parent, account, name, creationTime, some auth⟩) fun _ => rfl
  return cbId

/-- A row that is absent is left absent. -/
def modifyPermission (actor permission : UInt64) (auth : Authority) (lastUpdated : Int64) :
    AuthCall Unit :=
  update fun db => { db with
    permissions := db.permissions.update actor permission auth lastUpdated }

def removePermission (owner permName : UInt64) : AuthCall Unit := fun db =>
  match db.permissions.find (owner, permName) with
  | none => (.ok (), db)
  | some row =>
    match db.usage.find row.usageId with
    | none => (.error (.arena "arena delete_auth" (.notFound "PermissionUsageRow" row.usageId)), db)
    | some _ => (.ok (), { db with
        usage := db.usage.erase row.usageId
        permissions := db.permissions.erase owner permName })

/-- A new account starts with no RAM in use. -/
def initializeAccount (account : UInt64) : AuthCall Unit := fun db =>
  match db.ramUsage account with
  | some _ => (.error (.arena s!"failed to initialize resource limits for account {account}"
      (.uniquenessViolation "ResourceUsageRow" "ResourceUsageRowByOwner")), db)
  | none => (.ok (), { db with ramUsage := Function.update db.ramUsage account (some 0) })

/-- An account without usage is skipped. -/
def addRamUsage (account : UInt64) (delta : Int) : AuthCall Unit :=
  update fun db => { db with
    ramUsage := Function.update db.ramUsage account
      ((db.ramUsage account).map (· + UInt64.ofInt delta)) }

def requireAuthorization (env : ActionEnv) (account : UInt64) : AuthCall Unit :=
  pulseAssert (env.authorization.any fun level => level.actor = account)
    (.missingAuthError account)

/-- The id, the parent and the billed size of a permission that has an authority. -/
def findPermission (actor permission : UInt64) : AuthCall (Option (Permission × Authority)) := do
  pulseAssert (actor ≠ 0 ∧ permission ≠ 0) (.authorizationError "invalid permission")
  Call.read fun db => do
    let row ← db.permissions.find (actor, permission)
    let auth ← row.auth
    return (row, auth)

def getPermission (actor permission : UInt64) : AuthCall (Permission × Authority) := do
  match ← findPermission actor permission with
  | some found => return found
  | none => Call.throw (.authorizationError
      s!"permission {nameToString actor}/{nameToString permission} does not exist")

/-- Every account and permission that an authority names has to exist. -/
def validateAuthorityPrecondition (env : ActionEnv) (auth : Authority) : AuthCall Unit :=
  auth.accounts.forM fun a => do
    pulseAssert (← isAccount a.permission.actor)
      (.transactionError s!"account {a.permission.actor} does not exist")
    if a.permission.permission = ownerName ∨ a.permission.permission = activeName ∨
        a.permission.permission = env.systemAccounts.code then pure ()
    else
      fun db =>
        match getPermission a.permission.actor a.permission.permission db with
        | (.ok _, db) => (.ok (), db)
        | (.error _, db) => (.error (.transactionError
            s!"permission {a.permission.actor}@{a.permission.permission} does not exist"), db)

/-! The actions. -/

variable (env : ActionEnv)

/-- Names below the system account's are reserved. -/
def isReserved (name : UInt64) : Bool :=
  (nameToString env.systemAccounts.system ++ ".").isPrefixOf (nameToString name)

def newaccount (creator name : UInt64) (owner active : Authority) : AuthCall Unit := do
  requireAuthorization env creator
  pulseAssert owner.validate (.transactionError "invalid owner authority")
  pulseAssert active.validate (.transactionError "invalid active authority")
  pulseAssert (name ≠ 0) (.transactionError "account name cannot be empty")
  pulseAssert ((nameToString name).length ≤ 12)
    (.transactionError "account names can only be 12 chars long")
  match ← Call.read (·.accounts.find creator) with
  | none => Call.throw (.internalError s!"account metadata not found for account: {creator}")
  | some creating =>
    pulseAssert (creating.privileged || !isReserved env name) (.transactionError
      s!"only privileged accounts can have names that start with '{nameToString env.systemAccounts.system}.'")
    pulseAssert (!(← isAccount name)) (.transactionError
      s!"cannot create account named {nameToString name}, as that name is already taken")
    createAccount name env.pendingSlot false
    validateAuthorityPrecondition env owner
    validateAuthorityPrecondition env active
    let ownerId ← createPermission name ownerName 0 owner env.pendingMicros
    let _ ← createPermission name activeName ownerId active env.pendingMicros
    initializeAccount name
    addRamUsage name (overheadPerAccountRamBytes + 2 * permissionObjectSize + owner.billableSize +
      active.billableSize)

/-- The parent's id; only `owner` has none. -/
def parentId (account permission parent : UInt64) : AuthCall Int64 := do
  if permission = ownerName then return 0
  else return (← getPermission account parent).1.cbId

/-- What an update has to satisfy before it looks at the tables. -/
def validateUpdate (account permission parent : UInt64) (auth : Authority) : AuthCall Unit := do
  requireAuthorization env account
  pulseAssert (permission ≠ 0)
    (.actionValidationError "cannot create authority with empty name")
  pulseAssert (!isReserved env permission) (.actionValidationError
    s!"permission names that start with '{nameToString env.systemAccounts.system}.' are reserved")
  pulseAssert (permission ≠ parent)
    (.actionValidationError "cannot set an authority as its own parent")
  pulseAssert (← isAccount account)
    (.transactionError s!"failed to find account {nameToString account}")
  pulseAssert auth.validate (.transactionError s!"invalid authority: {auth.display}")
  if permission = activeName then
    pulseAssert (parent = ownerName)
      (.transactionError "cannot change active authority's parent from owner")
  else if permission = ownerName then
    pulseAssert (parent = 0) (.transactionError "cannot change owner authority's parent")
  else
    -- the parent is not looked at here; an empty one is refused when it is resolved
    pulseAssert (permission ≠ 0)
      (.transactionError "only owner permission can have empty parent")
  validateAuthorityPrecondition env auth

def updateauth (account permission parent : UInt64) (auth : Authority) : AuthCall Unit := do
  validateUpdate env account permission parent auth
  let parent ← parentId account permission parent
  match ← findPermission account permission with
  | some (row, old) =>
    pulseAssert (parent = row.parent)
      (.actionValidationError "changing parent authority is not currently supported")
    modifyPermission account permission auth env.pendingMicros
    addRamUsage account (auth.billableSize - old.billableSize)
  | none =>
    let _ ← createPermission account permission parent auth env.pendingMicros
    addRamUsage account (permissionObjectSize + auth.billableSize)

def deleteAuth (account permission : UInt64) : AuthCall Int := do
  if ← Call.read (·.hasChildren account permission) then
    Call.throw (.internalError
      s!"cannot delete permission '{nameToString account}@{nameToString permission}' because it has child permissions")
  else
    match ← Call.read (·.firstLinkToPermission account permission) with
    | some (code, messageType) => Call.throw (.actionValidationError
        s!"cannot delete a linked authority; unlink it first. '{nameToString account}@{nameToString permission}' is linked to {nameToString code}::{nameToString messageType}")
    | none =>
      match ← Call.read fun db => (db.permissions.find (account, permission)).bind (·.auth) with
      | none => Call.throw (.internalError
          s!"permission authority not found for '{nameToString account}@{nameToString permission}'")
      | some auth =>
        removePermission account permission
        return permissionObjectSize + auth.billableSize

def deleteauth (account permission : UInt64) : AuthCall Unit := do
  requireAuthorization env account
  pulseAssert (permission ≠ activeName)
    (.actionValidationError "cannot delete active authority")
  pulseAssert (permission ≠ ownerName)
    (.actionValidationError "cannot delete owner authority")
  let oldSize ← deleteAuth account permission
  addRamUsage account (-oldSize)

/-- A new link is billed, a changed one is free, and the same one again is refused. -/
def linkAuth (account code requirement messageType : UInt64) : AuthCall Int := do
  match ← Call.read (·.links.find (account, code, messageType)) with
  | some link =>
    pulseAssert (link.requiredPermission ≠ requirement) (.actionValidationError
      "attempting to update required authority, but new requirement is same as old")
    update fun db => { db with
      links := db.links.modify (account, code, messageType) (·.requiring requirement)
        (·.byActionName_requiring requirement) }
    return 0
  | none => fun db =>
    match db.links.insert fun id => ⟨id, account, code, messageType, requirement⟩ with
    | some links => (.ok permissionLinkObjectBillable, { db with links := links })
    | none => (.error (.arena "arena link_auth"
        (.uniquenessViolation "PermissionLinkRow" "LinkByActionName")), db)

def linkauth (account code messageType requirement : UInt64) : AuthCall Unit := do
  pulseAssert (requirement ≠ 0) (.transactionError "required permission cannot be empty")
  requireAuthorization env account
  pulseAssert (← isAccount code)
    (.transactionError s!"failed to retrieve code for account: {nameToString code}")
  if env.onlyLinkToExistingPermission ∧ requirement ≠ anyName then
    pulseAssert (← Call.read fun db => (db.permissions.find (account, requirement)).isSome)
      (.transactionError s!"failed to retrieve permission: {nameToString requirement}")
  let delta ← linkAuth account code requirement messageType
  if delta ≠ 0 then addRamUsage account delta

/-- A missing link is nothing to remove. -/
def unlinkAuth (account code messageType : UInt64) : AuthCall Int := do
  let existed ← Call.read fun db => (db.links.find (account, code, messageType)).isSome
  update fun db => { db with links := db.links.erase (account, code, messageType) }
  return if existed then -permissionLinkObjectBillable else 0

def unlinkauth (account code messageType : UInt64) : AuthCall Unit := do
  requireAuthorization env account
  let delta ← unlinkAuth account code messageType
  if delta ≠ 0 then addRamUsage account delta

/-! Genesis. -/

def reservePermissionZero : AuthCall Unit := do
  match ← Call.read (·.permissions.find (0, 0)) with
  | some _ => pure ()
  | none => insertPermission (fun id => ⟨id, 0, 0, 0, 0, 0, 0, none⟩) fun _ => rfl

/-- An account with its two permissions; the id of `active` is returned. -/
def genesisNativeAccount (name : UInt64) (owner active : Authority) (privileged : Bool) :
    AuthCall Int64 := do
  createAccount name env.pendingSlot privileged
  let ownerId ← createPermission name ownerName 0 owner env.pendingMicros
  let activeId ← createPermission name activeName ownerId active env.pendingMicros
  initializeAccount name
  addRamUsage name (overheadPerAccountRamBytes + 2 * permissionObjectSize + owner.billableSize +
    active.billableSize)
  return activeId

def prodMajor : UInt64 := 12531424605554196480

def prodMinor : UInt64 := 12531424609916272640

def initializeGenesis (key : AuthorityPublicKey) : AuthCall Unit := do
  let names := env.systemAccounts
  let systemAuth : Authority := ⟨1, [⟨key, 1⟩], [], []⟩
  let emptyAuth : Authority := ⟨1, [], [], []⟩
  let activeProducersAuth : Authority := ⟨1, [], [⟨⟨names.system, activeName⟩, 1⟩], []⟩
  reservePermissionZero
  let _ ← genesisNativeAccount env names.system systemAuth systemAuth true
  let _ ← genesisNativeAccount env names.null emptyAuth emptyAuth false
  let prodsActive ← genesisNativeAccount env names.prods emptyAuth activeProducersAuth false
  let major ← createPermission names.prods prodMajor prodsActive activeProducersAuth
    env.pendingMicros
  let _ ← createPermission names.prods prodMinor major activeProducersAuth env.pendingMicros

end AuthCall

/-! Runs. -/

inductive AuthAction where
  | newaccount (creator name : UInt64) (owner active : Authority)
  | updateauth (account permission parent : UInt64) (auth : Authority)
  | deleteauth (account permission : UInt64)
  | linkauth (account code messageType requirement : UInt64)
  | unlinkauth (account code messageType : UInt64)
  deriving DecidableEq, Repr

def AuthAction.call (env : ActionEnv) : AuthAction → AuthCall Unit
  | newaccount creator name owner active => AuthCall.newaccount env creator name owner active
  | updateauth account permission parent auth =>
    AuthCall.updateauth env account permission parent auth
  | deleteauth account permission => AuthCall.deleteauth env account permission
  | linkauth account code messageType requirement =>
    AuthCall.linkauth env account code messageType requirement
  | unlinkauth account code messageType => AuthCall.unlinkauth env account code messageType

/-- What a failed action wrote is undone with its transaction. -/
def AuthDb.perform (db : AuthDb) (step : ActionEnv × AuthAction) : AuthDb :=
  match step.2.call step.1 db with
  | (.ok (), db) => db
  | (.error _, _) => db

/-- A chain that has started, and then any actions. -/
inductive AuthDb.Reachable : AuthDb → Prop
  | genesis {env : ActionEnv} {key : AuthorityPublicKey} {db : AuthDb}
      (started : AuthCall.initializeGenesis env key AuthDb.new = (.ok (), db)) : Reachable db
  | perform {db : AuthDb} (before : Reachable db) (step : ActionEnv × AuthAction) :
      Reachable (db.perform step)

end PulseVM.Chain
