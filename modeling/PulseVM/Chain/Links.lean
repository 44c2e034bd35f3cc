import PulseVM.Chain.PermissionForest

/-!
Links from actions to permissions. An account can ask for a permission of its own choice
where its `active` one would be needed, and the authorization of `linkauth` and
`unlinkauth` depends on the link as it stands.
-/

namespace PulseVM.Chain
open Arena Lib Lib.Calls Lib.Calls.Call

namespace AuthCall

/-! What an action needs. -/

def updateauthName : UInt64 := 15371467950649982976

def deleteauthName : UInt64 := 5378050746259030016

def linkauthName : UInt64 := 10063015651234021376

def unlinkauthName : UInt64 := 15340080295291076608

def canceldelayName : UInt64 := 4730614990712192000

/-- The actions that cannot be linked. -/
def nativeNames : List UInt64 :=
  [updateauthName, deleteauthName, linkauthName, unlinkauthName, canceldelayName]

/-- A link of the action itself, or else the link of all actions of the contract. -/
def lookupLinkedPermission (account scope actName : UInt64) : AuthCall (Option UInt64) :=
  Call.read fun db => (db.permissionLink account scope actName).or (db.permissionLink account scope 0)

/-- None if anything will do. -/
def lookupMinimumPermission (env : ActionEnv) (account scope actName : UInt64) :
    AuthCall (Option UInt64) := do
  pulseAssert (scope ≠ env.systemAccounts.system ∨ actName ∉ nativeNames) (.authorizationError
    "cannot call lookup_minimum_permission on native actions that are not allowed to be linked to minimum permissions")
  match ← lookupLinkedPermission account scope actName with
  | some linked => return if linked = env.systemAccounts.any then none else some linked
  | none => return some activeName

def satisfies (fuel : Nat) (a b : Permission) : AuthCall Bool := fun db =>
  match db.permissionSatisfies fuel a.owner a.permName b.owner b.permName with
  | some (some answer) => (.ok answer, db)
  | some none =>
    (.error (.internalError "permission_satisfies: permission absent from arena"), db)
  | none => (.error .stillWalking, db)

/-- The declared permission has to be the needed one or above it. -/
def checkDeclared (fuel : Nat) (what : String) (auth : PermissionLevel) (account needed : UInt64) :
    AuthCall Unit := do
  let minimum ← getPermission account needed
  let declared ← getPermission auth.actor auth.permission
  pulseAssert (← satisfies fuel declared.1 minimum.1) (.authorizationError
    s!"{what} action declares irrelevant authority '{nameToString auth.actor}@{nameToString auth.permission}'; minimum authority is {nameToString account}@{nameToString needed}")

/-- The one level that the action declares, of the account it is about. -/
def declaredLevel (env : ActionEnv) (what : String) (account : UInt64) :
    AuthCall PermissionLevel := do
  match env.authorization with
  | [auth] =>
    pulseAssert (auth.actor = account) (.authorizationError
      "the owner of the linked permission needs to be the actor of the declared authorization")
    return auth
  | _ => Call.throw (.authorizationError
      s!"{what} action should only have one declared authorization")

def checkLinkauthAuthorization (fuel : Nat) (env : ActionEnv) (account code messageType : UInt64) :
    AuthCall Unit := do
  let auth ← declaredLevel env "link" account
  pulseAssert (code ≠ env.systemAccounts.system ∧ env.fixLinkauthRestriction ∨
    messageType ∉ nativeNames) (.authorizationError
      s!"cannot link {nameToString env.systemAccounts.system}::{nameToString messageType} to a minimum permission")
  match ← lookupMinimumPermission env account code messageType with
  | none => pure ()
  | some needed => checkDeclared fuel "link" auth account needed

def checkUnlinkauthAuthorization (fuel : Nat) (env : ActionEnv)
    (account code messageType : UInt64) : AuthCall Unit := do
  let auth ← declaredLevel env "unlink" account
  match ← lookupMinimumPermission env account code messageType with
  | none => Call.throw (.authorizationError
      s!"cannot unlink non-existent permission link of account '{nameToString account}' for actions matching '{nameToString code}::{nameToString messageType}'")
  | some needed =>
    if needed = env.systemAccounts.any then pure ()
    else checkDeclared fuel "unlink" auth account needed

end AuthCall

/-- One permission of an account is another or above it. -/
def AuthDb.Above (db : AuthDb) (account upper lower : UInt64) : Prop :=
  ∃ a ∈ db.permissions.rows, ∃ b ∈ db.permissions.rows,
    a.byOwner = (account, upper) ∧ b.byOwner = (account, lower) ∧ db.Covers a b

namespace PermissionTable

variable {t u : PermissionTable}

theorem isSome_find_iff {k : UInt64 × UInt64} :
    (t.find k).isSome ↔ ∃ row ∈ t.rows, row.byOwner = k := by
  constructor
  · intro used
    obtain ⟨row, found⟩ := Option.isSome_iff_exists.mp used
    exact ⟨row, Keyed.mem_of_find found, Keyed.key_of_find found⟩
  · rintro ⟨row, member, rfl⟩
    rw [Keyed.find_of_mem member]
    rfl

end PermissionTable

namespace AuthCall

variable {α : Type} {db : AuthDb}

theorem yields_update {f : AuthDb → AuthDb} {post : Unit → AuthDb → Prop}
    (holds : post () (f db)) : Yields db (update f) post := Yields.of_ok rfl holds

/-! What a link relies on. -/

section Effects

variable {link : Option (UInt64 × UInt64 × UInt64)}
  {before after : PermissionTable × Keyed PermissionLink.byActionName}

theorem Effect.find_link (effect : Effect link before after) {k : UInt64 × UInt64 × UInt64}
    (other : link ≠ some k) : after.2.find k = before.2.find k := by
  cases effect with
  | grown | erased => rfl
  | relinked here others => exact others k fun same => other (same ▸ here)

theorem Grows.isSome_find {t u : PermissionTable} (grows : Grows t u) {k : UInt64 × UInt64}
    (used : (t.find k).isSome) : (u.find k).isSome := by
  cases grows with
  | insert done =>
    obtain ⟨row, member, named⟩ := PermissionTable.isSome_find_iff.mp used
    refine PermissionTable.isSome_find_iff.mpr ⟨row, ?_, named⟩
    rw [PermissionTable.rows_insert done]
    exact List.mem_append_left _ member
  | update owner permName auth lastUpdated =>
    change ((t.toKeyed.modify (owner, permName) (·.updated auth lastUpdated)
      (·.byOwner_updated auth lastUpdated)).find k).isSome
    rw [Keyed.find_modify]
    split
    · simpa using used
    · exact used

theorem Effect.isSome_find (effect : Effect link before after) {l : PermissionLink}
    (linked : l ∈ before.2.rows) (used : (before.1.find (l.account, l.requiredPermission)).isSome) :
    (after.1.find (l.account, l.requiredPermission)).isSome := by
  cases effect with
  | grown grows =>
    induction grows with
    | refl => exact used
    | tail _ step ih => exact step.isSome_find ih
  | erased named childless unlinked =>
    change ((before.1.toKeyed.erase _).find _).isSome
    rw [Keyed.find_erase, if_neg (unlinked l linked)]
    exact used
  | relinked => exact used

end Effects

/-! What the two actions do. -/

def charged (ram : UInt64 → Option UInt64) (account : UInt64) (delta : Int) : UInt64 → Option UInt64 :=
  Function.update ram account ((ram account).map (· + UInt64.ofInt delta))

theorem charged_zero (ram : UInt64 → Option UInt64) (account : UInt64) :
    charged ram account 0 = ram := by
  unfold charged
  have same : (ram account).map (· + UInt64.ofInt 0) = ram account := by
    cases ram account <;> simp [UInt64.ofInt]
  rw [same, Function.update_eq_self]

theorem yields_bill (account : UInt64) (delta : Int) :
    Yields db (if delta ≠ 0 then addRamUsage account delta else pure PUnit.unit) fun _ t =>
      t = { db with ramUsage := charged db.ramUsage account delta } := by
  split
  · exact yields_update rfl
  · rename_i nothing
    apply Yields.of_pure
    rw [not_not.mp nothing, charged_zero]

theorem yields_linkAuth (account code requirement messageType : UInt64) :
    Yields db (linkAuth account code requirement messageType) fun delta t =>
      t.permissions = db.permissions ∧ t.ramUsage = db.ramUsage ∧
      t.permissionLink account code messageType = some requirement ∧
      delta = if (db.permissionLink account code messageType).isNone
        then permissionLinkObjectBillable else 0 := by
  apply Yields.read_bind
  cases found : db.links.find (account, code, messageType) with
  | some link =>
    apply Yields.assert_bind
    intro _
    apply Yields.bind
    apply yields_update
    apply Yields.of_pure
    refine ⟨rfl, rfl, ?_, ?_⟩
    · change ((db.links.modify (account, code, messageType) (·.requiring requirement)
        (·.byActionName_requiring requirement)).find (account, code, messageType)).map _ = _
      rw [Keyed.find_modify, if_pos rfl, found]
      rfl
    · simp [AuthDb.permissionLink, found]
  | none =>
    constructor
    intro delta t done
    dsimp only at done
    split at done
    · rename_i links inserted
      cases done
      refine ⟨rfl, rfl, ?_, ?_⟩
      · change (links.find _).map _ = _
        rw [Keyed.find_insert inserted]
        simp [PermissionLink.byActionName]
      · simp [AuthDb.permissionLink, found]
    · cases done

theorem yields_linkauth (env : ActionEnv) (account code messageType requirement : UInt64) :
    Yields db (linkauth env account code messageType requirement) fun _ t =>
      requirement ≠ 0 ∧ t.permissions = db.permissions ∧
      (env.onlyLinkToExistingPermission = true → requirement ≠ anyName →
        (db.permissions.find (account, requirement)).isSome) ∧
      t.permissionLink account code messageType = some requirement ∧
      t.ramUsage = charged db.ramUsage account
        (if (db.permissionLink account code messageType).isNone then permissionLinkObjectBillable
          else 0) := by
  apply Yields.assert_bind
  intro nonempty
  apply Yields.assert_bind
  intro _
  apply Yields.read_bind
  apply Yields.assert_bind
  intro _
  have last : ∀ {p : Prop}, p → Yields db (do
      let delta ← linkAuth account code requirement messageType
      if delta ≠ 0 then addRamUsage account delta else pure PUnit.unit) fun _ t =>
        requirement ≠ 0 ∧ t.permissions = db.permissions ∧ p ∧
        t.permissionLink account code messageType = some requirement ∧
        t.ramUsage = charged db.ramUsage account
          (if (db.permissionLink account code messageType).isNone then permissionLinkObjectBillable
            else 0) := by
    intro p holds
    apply (yields_linkAuth account code requirement messageType).seq
    rintro delta t ⟨permissions, ram, linked, rfl⟩
    apply (yields_bill account _).imp
    rintro _ u rfl
    exact ⟨of_decide_eq_true nonempty, permissions, holds, linked, by rw [ram]⟩
  split
  · apply Yields.read_bind
    apply Yields.assert_bind
    intro exist
    exact last fun _ _ => exist
  · rename_i unchecked
    exact last fun active other => absurd ⟨active, other⟩ unchecked

variable {code messageType : UInt64} {env : ActionEnv} {account : UInt64}

theorem unlinkauth_ok (authorized : env.authorization.any fun level => level.actor = account)
    (linked : (db.links.find (account, code, messageType)).isSome) :
    unlinkauth env account code messageType db = (.ok (), { db with
      links := db.links.erase (account, code, messageType)
      ramUsage := charged db.ramUsage account (-permissionLinkObjectBillable) }) := by
  have allowed : requireAuthorization env account db = (.ok (), db) := by
    simp [requireAuthorization, pulseAssert, authorized, pure_run]
  have removed : unlinkAuth account code messageType db = (.ok (-permissionLinkObjectBillable),
      { db with links := db.links.erase (account, code, messageType) }) := by
    change (Except.ok (if (db.links.find (account, code, messageType)).isSome then _ else _), _) = _
    rw [linked]
    rfl
  unfold unlinkauth
  rw [bind_ok allowed, bind_ok removed]
  rfl

/-! What the checks ask. -/

theorem pulseAssert_ok {condition : Bool} (error : AuthError) (met : condition = true) :
    pulseAssert condition error db = (.ok (), db) := by
  rw [pulseAssert, if_pos met]
  rfl

theorem getPermission_ok {row : Permission} (forest : db.permissions.Forest)
    (member : row ∈ db.permissions.rows) (owned : row.owner ≠ 0) (named : row.permName ≠ 0) :
    ∃ auth, getPermission row.owner row.permName db = (.ok (row, auth), db) := by
  have proper := forest.proper row member fun unnamed => owned (congrArg Prod.fst unnamed)
  obtain ⟨auth, has⟩ := Option.isSome_iff_exists.mp proper.1
  have found : db.permissions.find (row.owner, row.permName) = some row := Keyed.find_of_mem member
  refine ⟨auth, ?_⟩
  simp [getPermission, findPermission, pulseAssert, owned, named, Call.read, bind, found, has, pure]

/-- With enough fuel, a declared level passes exactly if it is the needed one or above it. -/
theorem checkDeclared_iff (forest : db.permissions.Forest) (what : String) (level : PermissionLevel)
    {row : Permission} (member : row ∈ db.permissions.rows) (owned : row.owner ≠ 0)
    (named : row.permName ≠ 0) (same : level.actor = row.owner) (declares : level.permission ≠ 0)
    {fuel : Nat} (enough : db.rank row.parent < fuel) :
    checkDeclared fuel what level row.owner row.permName db = (.ok (), db) ↔
      db.Above row.owner level.permission row.permName := by
  obtain ⟨auth, minimum⟩ := getPermission_ok forest member owned named
  unfold checkDeclared
  rw [bind_ok minimum, same]
  constructor
  · intro passed
    rcases result : getPermission row.owner level.permission db with ⟨e | found, t⟩
    · rw [bind_error result] at passed
      cases passed
    · obtain ⟨rfl, -, listed, isDeclared⟩ :=
        (yields_getPermission row.owner level.permission).post _ _ result
      rw [bind_ok result] at passed
      have differs : found.1.byOwner ≠ (0, 0) := by simp [isDeclared, owned]
      obtain ⟨answer, done, above⟩ := AuthDb.permissionSatisfies_ends forest listed member differs enough
      have satisfied : satisfies fuel found.1 row t = (.ok answer, t) := by
        simp [satisfies, done]
      rw [bind_ok satisfied] at passed
      cases answer with
      | false => cases passed
      | true => exact ⟨found.1, listed, row, member, isDeclared, rfl, above.mp rfl⟩
  · rintro ⟨a, listed, b, lower, isDeclared, isRow, covers⟩
    have isB : b = row := List.inj_on_of_nodup_map db.permissions.unique lower member isRow
    subst isB
    obtain ⟨owns, calls⟩ := Prod.mk.inj isDeclared
    obtain ⟨auth, declared⟩ := getPermission_ok forest listed (owns ▸ owned) (calls ▸ declares)
    rw [← owns, ← calls, bind_ok declared]
    have differs : a.byOwner ≠ (0, 0) := by simp [isDeclared, owned]
    obtain ⟨answer, done, above⟩ := AuthDb.permissionSatisfies_ends forest listed lower differs enough
    have satisfied : satisfies fuel a b db = (.ok answer, db) := by simp [satisfies, done]
    rw [bind_ok satisfied, above.mpr covers]
    rfl

theorem lookupMinimumPermission_ok {requirement : UInt64}
    (linkable : code ≠ env.systemAccounts.system ∨ messageType ∉ nativeNames)
    (linked : db.permissionLink account code messageType = some requirement) :
    lookupMinimumPermission env account code messageType db =
      (.ok (if requirement = env.systemAccounts.any then none else some requirement), db) := by
  unfold lookupMinimumPermission lookupLinkedPermission
  rw [bind_ok (pulseAssert_ok _ (decide_eq_true linkable)), read_bind, linked]
  rfl

theorem declaredLevel_ok {permission : UInt64} (what : String)
    (declares : env.authorization = [⟨account, permission⟩]) :
    declaredLevel env what account db = (.ok ⟨account, permission⟩, db) := by
  unfold declaredLevel
  rw [declares]
  simp [pulseAssert, bind, pure]

theorem linkable_of_check {fuel : Nat} :
    Yields db (checkLinkauthAuthorization fuel env account code messageType) fun _ _ =>
      code ≠ env.systemAccounts.system ∨ messageType ∉ nativeNames := by
  apply Yields.bind
  constructor
  intro level t _
  apply Yields.assert_bind
  intro allowed
  constructor
  intro _ _ _
  rcases of_decide_eq_true allowed with ⟨other, -⟩ | other
  · exact .inl other
  · exact .inr other

end AuthCall

namespace AuthDb
open AuthCall

variable {db : AuthDb}

theorem owner_covers (forest : db.permissions.Forest) {row : Permission}
    (member : row ∈ db.permissions.rows) (named : row.byOwner ≠ (0, 0)) :
    ∃ top ∈ db.permissions.rows, top.byOwner = (row.owner, ownerName) ∧ db.Covers top row := by
  induction row using (wellFounded_parentOf forest).induction with
  | _ row ih =>
    rcases forest.parents row member with top | ⟨p, listed, isParent, owns, -⟩
    · have isOwner := (forest.proper row member named).2 top
      exact ⟨row, member, by simp [Permission.byOwner, isOwner], .refl⟩
    · by_cases top : row.parent = 0
      · have isOwner := (forest.proper row member named).2 top
        exact ⟨row, member, by simp [Permission.byOwner, isOwner], .refl⟩
      · have step : db.ParentOf row p := ⟨member, listed, top, isParent⟩
        have parentNamed : p.byOwner ≠ (0, 0) := by
          intro unnamed
          obtain ⟨zeroth, there, isZeroth, zero, -⟩ := forest.reserved
          have same := List.inj_on_of_nodup_map db.permissions.unique listed there
            (unnamed.trans isZeroth.symm)
          exact top (isParent.symm.trans (same ▸ zero))
        obtain ⟨owner, highest, isOwner, covers⟩ := ih p step listed parentNamed
        exact ⟨owner, highest, by rw [isOwner, owns], Relation.ReflTransGen.head step covers⟩

theorem owner_above (forest : db.permissions.Forest) {row : Permission}
    (member : row ∈ db.permissions.rows) (owned : row.owner ≠ 0) :
    db.Above row.owner ownerName row.permName := by
  have named : row.byOwner ≠ (0, 0) := fun unnamed => owned (congrArg Prod.fst unnamed)
  obtain ⟨top, highest, isOwner, covers⟩ := owner_covers forest member named
  exact ⟨top, highest, row, member, isOwner, rfl, covers⟩

/-! Runs. -/

variable {link : PermissionLink}

/-- A step about something else leaves a link where it is, and what it asks for. -/
theorem linked_perform (reachable : db.Reachable) {step : ActionEnv × AuthAction}
    {k : UInt64 × UInt64 × UInt64} (other : step.2.link ≠ some k)
    (linked : db.links.find k = some link) :
    (db.perform step).links.find k = some link ∧
      ((db.permissions.find (link.account, link.requiredPermission)).isSome →
        ((db.perform step).permissions.find (link.account, link.requiredPermission)).isSome) := by
  unfold perform
  split
  · rename_i t done
    have effect := (effect_call step.1 step.2 reachable.forest).post () t done
    exact ⟨(effect.find_link other).trans linked, effect.isSome_find (Keyed.mem_of_find linked)⟩
  · exact ⟨linked, id⟩

theorem linked_foldl (reachable : db.Reachable) {steps : List (ActionEnv × AuthAction)}
    {k : UInt64 × UInt64 × UInt64} (others : ∀ step ∈ steps, step.2.link ≠ some k)
    (linked : db.links.find k = some link) :
    (steps.foldl perform db).links.find k = some link ∧
      ((db.permissions.find (link.account, link.requiredPermission)).isSome →
        ((steps.foldl perform db).permissions.find
          (link.account, link.requiredPermission)).isSome) := by
  induction steps generalizing db with
  | nil => exact ⟨linked, id⟩
  | cons step rest ih =>
    obtain ⟨stays, used⟩ := linked_perform reachable (others step List.mem_cons_self) linked
    obtain ⟨ends, kept⟩ := ih (reachable.perform step)
      (fun later member => others later (List.mem_cons_of_mem _ member)) stays
    exact ⟨ends, fun before => kept (used before)⟩

/-- A link to a permission that exists can be removed. However much happens to other links
and to permissions in between, the account's `owner` passes the check, its `active` passes
exactly where it is the linked permission or above it, and the action then removes the link
and gives back what a new link is charged. -/
theorem link_removable {env later : ActionEnv} {linkedDb checkedDb : AuthDb} {checkFuel : Nat}
    {account code messageType requirement permission : UInt64}
    {steps : List (ActionEnv × AuthAction)} (reachable : db.Reachable) (isName : account ≠ 0)
    (checked : checkLinkauthAuthorization checkFuel env account code messageType checkedDb =
      (.ok (), checkedDb))
    (linked : linkauth env account code messageType requirement db = (.ok (), linkedDb))
    (others : ∀ step ∈ steps, step.2.link ≠ some (account, code, messageType))
    (names : later.systemAccounts = env.systemAccounts)
    (declares : later.authorization = [⟨account, permission⟩])
    (ownerOrActive : permission = ownerName ∨ permission = activeName)
    (notAny : requirement ≠ env.systemAccounts.any)
    (real : env.onlyLinkToExistingPermission = true ∧ requirement ≠ anyName ∨
      ((steps.foldl perform linkedDb).permissions.find (account, requirement)).isSome) :
    (∃ bound, ∀ fuel, bound ≤ fuel →
      (checkUnlinkauthAuthorization fuel later account code messageType
          (steps.foldl perform linkedDb) = (.ok (), steps.foldl perform linkedDb) ↔
        permission = ownerName ∨
          (steps.foldl perform linkedDb).Above account activeName requirement)) ∧
    (∃ unlinked, unlinkauth later account code messageType
        (steps.foldl perform linkedDb) = (.ok (), unlinked) ∧
      unlinked.permissionLink account code messageType = none ∧
      unlinked.ramUsage = charged (steps.foldl perform linkedDb).ramUsage account
        (-permissionLinkObjectBillable)) ∧
    linkedDb.ramUsage = charged db.ramUsage account
      (if (db.permissionLink account code messageType).isNone then permissionLinkObjectBillable
        else 0) := by
  have linkable := linkable_of_check.post () checkedDb checked
  obtain ⟨nonempty, permissions, exist, requires, ram⟩ :=
    (yields_linkauth env account code messageType requirement).post () linkedDb linked
  obtain ⟨link, found, rfl⟩ := Option.map_eq_some_iff.mp requires
  have isAccount : link.account = account := congrArg Prod.fst (Keyed.key_of_find found)
  have performed : db.perform (env, .linkauth account code messageType link.requiredPermission) =
      linkedDb := by
    simp only [perform, AuthAction.call, linked]
  have reached : linkedDb.Reachable := performed ▸ reachable.perform _
  obtain ⟨stands, kept⟩ := linked_foldl reached others found
  have forest := (reached.foldl steps).forest
  generalize steps.foldl perform linkedDb = last at *
  have used : (last.permissions.find (account, link.requiredPermission)).isSome := by
    rcases real with ⟨feature, notDefault⟩ | used
    · rw [isAccount, permissions] at kept
      exact kept (exist feature notDefault)
    · exact used
  refine ⟨?_, ?_, ram⟩
  · obtain ⟨row, member, named⟩ := PermissionTable.isSome_find_iff.mp used
    obtain ⟨rfl, name⟩ := Prod.mk.inj named
    have inUse : row.permName ≠ 0 := name ▸ nonempty
    have declared : permission ≠ 0 := by
      rcases ownerOrActive with rfl | rfl <;> decide
    refine ⟨last.rank row.parent + 1, ?_⟩
    intro fuel enough
    have some_permission : link.requiredPermission ≠ later.systemAccounts.any := names ▸ notAny
    unfold checkUnlinkauthAuthorization
    rw [bind_ok (declaredLevel_ok "unlink" declares),
      bind_ok (lookupMinimumPermission_ok (names ▸ linkable)
        (Option.map_eq_some_iff.mpr ⟨link, stands, rfl⟩)), if_neg some_permission]
    simp only [some_permission, if_false]
    rw [← name, checkDeclared_iff forest "unlink" ⟨row.owner, permission⟩ member
      isName inUse rfl declared enough]
    have above := owner_above forest member isName
    rcases ownerOrActive with rfl | rfl
    · simp [above]
    · simp [show activeName ≠ ownerName by decide]
  · have authorized : later.authorization.any fun level => level.actor = account := by
      simp [declares]
    refine ⟨_, unlinkauth_ok authorized (by rw [stands]; rfl), ?_, rfl⟩
    change ((last.links.erase (account, code, messageType)).find _).map _ = none
    rw [Keyed.find_erase, if_pos rfl]
    rfl

/-- The system account links the actions `1` of the producers' account. -/
def sampleLinked (requirement : UInt64) : AuthDb :=
  (linkauth (systemEnv activeName) sampleNames.system sampleNames.prods 1 requirement
    sampleGenesis).2

/-- Between the two actions, another permission comes under `active`. -/
def sampleSteps : List (ActionEnv × AuthAction) :=
  [(systemEnv activeName, .updateauth sampleNames.system 5 activeName ⟨1, [⟨.k1 [], 1⟩], [], []⟩)]

theorem link_removable_active :
    (sampleSteps.foldl perform (sampleLinked activeName)).permissions.rows.length = 10 ∧
    ∃ unlinked, unlinkauth (systemEnv activeName) sampleNames.system sampleNames.prods 1
        (sampleSteps.foldl perform (sampleLinked activeName)) = (.ok (), unlinked) ∧
      unlinked.permissionLink sampleNames.system sampleNames.prods 1 = none ∧
      unlinked.ramUsage = charged
        (sampleSteps.foldl perform (sampleLinked activeName)).ramUsage sampleNames.system
        (-permissionLinkObjectBillable) := by
  have checked : (checkLinkauthAuthorization 9 (systemEnv activeName) sampleNames.system
      sampleNames.prods 1 sampleGenesis).1 = .ok () := by decide +kernel
  have linked : (linkauth (systemEnv activeName) sampleNames.system sampleNames.prods 1
      activeName sampleGenesis).1 = .ok () := by decide +kernel
  have declares : (systemEnv activeName).authorization = [⟨sampleNames.system, activeName⟩] := rfl
  refine ⟨by decide +kernel, ?_⟩
  exact (link_removable sampleGenesis_reachable (by decide) (Prod.ext checked rfl)
    (Prod.ext linked rfl) (by decide) rfl declares (.inr rfl) (by decide)
    (.inl ⟨rfl, by decide⟩)).2.1

/-- The account links an action to any permission, and to `owner`. Neither of its two
permissions removes the first link, and `active` does not remove the second. -/
theorem link_stays :
    (linkauth (systemEnv activeName) sampleNames.system sampleNames.prods 1
      sampleNames.any sampleGenesis).1 = .ok () ∧
    (∀ fuel, ∀ permission ∈ [ownerName, activeName],
      (checkUnlinkauthAuthorization fuel (systemEnv permission) sampleNames.system
        sampleNames.prods 1 (sampleLinked sampleNames.any)).1 ≠ .ok ()) ∧
    (linkauth (systemEnv activeName) sampleNames.system sampleNames.prods 1
      ownerName sampleGenesis).1 = .ok () ∧
    (checkUnlinkauthAuthorization 9 (systemEnv activeName) sampleNames.system
      sampleNames.prods 1 (sampleLinked ownerName)).1 ≠ .ok () := by
  refine ⟨by decide +kernel, ?_, by decide +kernel, by decide +kernel⟩
  intro fuel permission _
  have linked : (sampleLinked sampleNames.any).permissionLink sampleNames.system
      sampleNames.prods 1 = some sampleNames.any := by decide +kernel
  have declares : (systemEnv permission).authorization = [⟨sampleNames.system, permission⟩] := rfl
  unfold checkUnlinkauthAuthorization
  rw [bind_ok (declaredLevel_ok "unlink" declares),
    bind_ok (lookupMinimumPermission_ok (.inr (by decide)) linked),
    if_pos (show sampleNames.any = (systemEnv permission).systemAccounts.any from rfl)]
  exact nofun

/-- Every link names a permission that exists, or `any`. -/
def LinksResolve (db : AuthDb) : Prop := ∀ l ∈ db.links.rows, l.requiredPermission = anyName ∨
  (db.permissions.find (l.account, l.requiredPermission)).isSome

theorem unlinkauth_gone (env : ActionEnv) (account code messageType : UInt64) :
    Yields db (unlinkauth env account code messageType) fun _ t =>
      t.links.find (account, code, messageType) = none := by
  apply checked
  refine Yields.ok_bind rfl ?_
  exact yields_spared (p := fun c => c.2.find (account, code, messageType) = none)
    (leads_ite (spares_addRamUsage account _) (leads_pure _)) (Keyed.find_erase.trans (if_pos rfl))

theorem linksResolve_call {t : AuthDb} {env : ActionEnv} {action : AuthAction}
    (reachable : db.Reachable) (resolve : db.LinksResolve)
    (on : env.onlyLinkToExistingPermission = true) (done : action.call env db = (.ok (), t)) :
    t.LinksResolve := by
  intro l listed
  have found := Keyed.find_of_mem listed
  by_cases own : action.link = some l.byActionName
  · cases action with
    | linkauth account =>
      obtain ⟨-, same, exist, linked, -⟩ := (yields_linkauth _ _ _ _ _).post () t done
      rw [permissionLink, Option.some.inj own, found] at linked
      cases linked
      have owner : account = l.account := congrArg Prod.fst (Option.some.inj own)
      rw [same, ← owner]
      exact or_iff_not_imp_left.mpr (exist on)
    | unlinkauth =>
      have gone := (unlinkauth_gone _ _ _ _).post () t done
      rw [Option.some.inj own, found] at gone
      cases gone
    | newaccount | updateauth | deleteauth => cases own
  · have effect := (effect_call env action reachable.forest).post () t done
    have held := Keyed.mem_of_find ((effect.find_link own).symm.trans found)
    exact (resolve l held).imp_right (effect.isSome_find held)

/-- While links are only made to permissions that exist, none comes to name one that does not. -/
theorem links_resolve {steps : List (ActionEnv × AuthAction)} (reachable : db.Reachable)
    (resolve : db.LinksResolve)
    (on : ∀ step ∈ steps, step.1.onlyLinkToExistingPermission = true) :
    (steps.foldl perform db).LinksResolve := by
  induction steps generalizing db with
  | nil => exact resolve
  | cons step rest ih =>
    apply ih (reachable.perform step) _ fun later member => on later (List.mem_cons_of_mem _ member)
    unfold perform
    split
    · exact linksResolve_call reachable resolve (on step List.mem_cons_self) ‹_›
    · exact resolve

/-- The new permission is linked, and cannot be deleted until it is unlinked. -/
theorem links_resolve_unlinked :
    let act (action : AuthAction) := (systemEnv activeName, action)
    let linked := sampleSteps ++ [act (.linkauth sampleNames.system sampleNames.prods 1 5)]
    (deleteauth (systemEnv activeName) sampleNames.system 5 (linked.foldl perform sampleGenesis)).1 ≠
      .ok () ∧
    ((linked ++ [act (.deleteauth sampleNames.system 5),
      act (.unlinkauth sampleNames.system sampleNames.prods 1),
      act (.deleteauth sampleNames.system 5)]).foldl perform sampleGenesis).LinksResolve := by
  have unlinked : sampleGenesis.links.rows = [] := by decide +kernel
  refine ⟨by decide +kernel, ?_⟩
  exact links_resolve sampleGenesis_reachable (by simp [LinksResolve, unlinked]) (by decide)

end AuthDb

end PulseVM.Chain
