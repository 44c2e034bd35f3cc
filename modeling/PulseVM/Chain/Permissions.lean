import PulseVM.Arena.Object
import PulseVM.Chain.Authority
import PulseVM.Lib.Calls
import PulseVM.Lib.Climb
import PulseVM.Lib.Keyed

/-!
Accounts, their permissions and the links from actions to permissions. A permission stores
the id of its parent; ids are drawn from a counter, and id 0 is taken by a row that stands
for no permission.
-/

namespace PulseVM.Chain
open Arena Lib Lib.Calls

/-- Why a call fails. `stillWalking` is no error of the source: a walk up the permissions
was given too few steps to end. -/
inductive AuthError where
  | stillWalking
  | transactionError (message : String)
  | actionValidationError (message : String)
  | authorizationError (message : String)
  | internalError (message : String)
  | missingAuthError (account : UInt64)
  | arena (call : String) (error : TableError)
  deriving DecidableEq, Repr

/-! Names. -/

def ownerName : UInt64 := 12044502819693133824

def activeName : UInt64 := 3617214756542218240

/-- The name `pulse.any`, whatever the system account is called. -/
def anyName : UInt64 := 12584048022405513216

structure SystemAccountNames where
  system : UInt64
  null : UInt64
  prods : UInt64
  any : UInt64
  code : UInt64
  deriving DecidableEq, Repr

def nameChars : List Char := ".12345abcdefghijklmnopqrstuvwxyz".toList

/-- Twelve characters of five bits, then one of four. -/
def nameToChars (name : UInt64) : List Char :=
  (List.range 13).map fun i =>
    let code := if i < 12 then name.toNat / 2 ^ (59 - 5 * i) % 32 else name.toNat % 16
    nameChars.getD code '.'

/-- Dots at the end are not shown. -/
def nameToString (name : UInt64) : String :=
  String.ofList ((nameToChars name).reverse.dropWhile (· = '.')).reverse

/-! Rows. -/

structure Account where
  id : Nat
  name : UInt64
  creationDate : UInt32
  privileged : Bool
  deriving DecidableEq, Repr

structure PermissionUsage where
  id : Nat
  lastUsed : Int64
  deriving DecidableEq, Repr

/-- A permission. Only the row under id 0 has no authority. -/
structure Permission where
  id : Nat
  cbId : Int64
  usageId : Nat
  parent : Int64
  owner : UInt64
  permName : UInt64
  lastUpdated : Int64
  auth : Option Authority
  deriving DecidableEq, Repr

structure PermissionLink where
  id : Nat
  account : UInt64
  code : UInt64
  messageType : UInt64
  requiredPermission : UInt64
  deriving DecidableEq, Repr

def Permission.byOwner (row : Permission) : UInt64 × UInt64 := (row.owner, row.permName)

def Permission.updated (row : Permission) (auth : Authority) (lastUpdated : Int64) : Permission :=
  { row with auth := some auth, lastUpdated := lastUpdated }

theorem Permission.byOwner_updated (row : Permission) (auth : Authority) (lastUpdated : Int64) :
    (row.updated auth lastUpdated).byOwner = row.byOwner := rfl

def PermissionLink.byActionName (row : PermissionLink) : UInt64 × UInt64 × UInt64 :=
  (row.account, row.code, row.messageType)

def PermissionLink.requiring (row : PermissionLink) (permission : UInt64) : PermissionLink :=
  { row with requiredPermission := permission }

theorem PermissionLink.byActionName_requiring (row : PermissionLink) (permission : UInt64) :
    (row.requiring permission).byActionName = row.byActionName := rfl

/-! The permission table. -/

/-- Names are unique within an owner, ids everywhere, and every row has taken a slot. -/
structure PermissionTable extends Keyed Permission.byOwner where
  cbUnique : (rows.map Permission.cbId).Nodup
  allotted : ∀ row ∈ rows, row.id < nextId

namespace PermissionTable

def empty : PermissionTable := ⟨.empty, List.nodup_nil, by simp [Keyed.empty]⟩

def findByCbId (t : PermissionTable) (cbId : Int64) : Option Permission :=
  t.rows.find? fun row => row.cbId = cbId

/-- The first index a new row would collide in. An id that is taken collides with the same
parent first, then by name, then alone. -/
def collision (t : PermissionTable) (row : Permission) : Option String :=
  if t.rows.any fun r => r.parent = row.parent ∧ r.cbId = row.cbId then some "PermByParent"
  else if t.rows.any fun r => r.byOwner = row.byOwner then some "PermByOwner"
  else if t.rows.any fun r => r.permName = row.permName ∧ r.cbId = row.cbId then some "PermByName"
  else if t.rows.any fun r => r.cbId = row.cbId then some "PermByCbId"
  else none

theorem fresh_of_collision {t : PermissionTable} {row : Permission}
    (free : t.collision row = none) :
    row.byOwner ∉ t.rows.map Permission.byOwner ∧ row.cbId ∉ t.rows.map Permission.cbId := by
  unfold collision at free
  split at free
  · cases free
  · split at free
    · cases free
    · rename_i named
      split at free
      · cases free
      · split at free
        · cases free
        · rename_i numbered
          exact ⟨by simpa using named, by simpa using numbered⟩

def insert (t : PermissionTable) (make : Nat → Permission) (slot : ∀ id, (make id).id = id) :
    Except TableError PermissionTable :=
  match free : t.collision (make t.nextId) with
  | some index => .error (.uniquenessViolation "PermissionRow" index)
  | none => .ok
    { rows := t.rows ++ [make t.nextId]
      nextId := t.nextId + 1
      unique := by
        rw [List.map_append]
        exact t.unique.append (List.nodup_singleton _) (by simpa using (fresh_of_collision free).1)
      cbUnique := by
        rw [List.map_append]
        exact t.cbUnique.append (List.nodup_singleton _)
          (by simpa using (fresh_of_collision free).2)
      allotted := by
        intro row member
        rcases List.mem_append.mp member with old | new
        · have := t.allotted row old
          omega
        · rw [List.mem_singleton.mp new, slot]
          omega }

def update (t : PermissionTable) (owner permName : UInt64) (auth : Authority)
    (lastUpdated : Int64) : PermissionTable where
  toKeyed := t.toKeyed.modify (owner, permName) (·.updated auth lastUpdated)
    (·.byOwner_updated auth lastUpdated)
  cbUnique := by
    have same : ((t.toKeyed.modify (owner, permName) (·.updated auth lastUpdated)
        (·.byOwner_updated auth lastUpdated)).rows.map Permission.cbId) =
        t.rows.map Permission.cbId := by
      rw [Keyed.rows_modify, List.map_map]
      apply List.map_congr_left
      intro row _
      by_cases here : row.byOwner = (owner, permName) <;> simp [here, Permission.updated]
    rw [same]
    exact t.cbUnique
  allotted := by
    intro row member
    rw [Keyed.rows_modify] at member
    obtain ⟨old, listed, rfl⟩ := List.mem_map.mp member
    have := t.allotted old listed
    split
    · exact this
    · exact this

def erase (t : PermissionTable) (owner permName : UInt64) : PermissionTable where
  toKeyed := t.toKeyed.erase (owner, permName)
  cbUnique := t.cbUnique.sublist (List.filter_sublist.map Permission.cbId)
  allotted := fun row member => t.allotted row (List.mem_of_mem_filter member)

end PermissionTable

/-! The tables together. -/

/-- What the native actions on accounts read and write. -/
structure AuthDb where
  accounts : Keyed Account.name
  permissions : PermissionTable
  usage : Keyed PermissionUsage.id
  permSeq : Option Int64
  links : Keyed PermissionLink.byActionName
  ramUsage : UInt64 → Option UInt64

namespace AuthDb

def new : AuthDb := ⟨.empty, .empty, .empty, none, .empty, fun _ => none⟩

def isAccount (db : AuthDb) (account : UInt64) : Bool := (db.accounts.find account).isSome

/-- The name of the parent, 0 if there is none. -/
def parentName (db : AuthDb) (row : Permission) : UInt64 :=
  if row.parent = 0 then 0
  else ((db.permissions.findByCbId row.parent).map Permission.permName).getD 0

def hasChildren (db : AuthDb) (account permission : UInt64) : Bool :=
  db.permissions.rows.any fun row => row.owner = account ∧ db.parentName row = permission

def firstLinkToPermission (db : AuthDb) (account permission : UInt64) : Option (UInt64 × UInt64) :=
  (db.links.rows.find? fun row => row.account = account ∧ row.requiredPermission = permission).map
    fun row => (row.code, row.messageType)

def permissionLink (db : AuthDb) (account code messageType : UInt64) : Option UInt64 :=
  (db.links.find (account, code, messageType)).map PermissionLink.requiredPermission

def up (db : AuthDb) (cbId : Int64) : Option Int64 :=
  (db.permissions.findByCbId cbId).map Permission.parent

/-- Whether one permission is another or stands above it. The inner `none` is the answer
where one of them is absent, the outer one says that the walk has not ended yet. -/
def permissionSatisfies (db : AuthDb) (fuel : Nat) (ownerA nameA ownerB nameB : UInt64) :
    Option (Option Bool) :=
  match db.permissions.find (ownerA, nameA), db.permissions.find (ownerB, nameB) with
  | some a, some b =>
    if a.owner ≠ b.owner then some (some false)
    else if a.cbId = b.cbId ∨ a.cbId = b.parent then some (some true)
    else (climb db.up 0 a.cbId fuel b.parent).map some
  | _, _ => some none

end AuthDb

end PulseVM.Chain
