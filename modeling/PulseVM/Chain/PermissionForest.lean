import PulseVM.Chain.NativeAuth

/-!
Permissions form a forest. A parent is stored by its id, so it has to stay where it is
while something refers to it; and since it was there first, no permission is above itself.
-/

namespace PulseVM.Chain
open Arena Lib Lib.Calls Lib.Calls.Call
open Yields hiding bind read_bind

namespace PermissionTable

variable {t u : PermissionTable} {row : Permission}

/-- The parent of a row stands in the table, belongs to the same owner and was stored
before it. -/
def HasParent (t : PermissionTable) (row : Permission) : Prop :=
  row.parent = 0 ∨ ∃ p ∈ t.rows, p.cbId = row.parent ∧ p.owner = row.owner ∧ p.id < row.id

/-- A permission has an authority, and only `owner` stands below none. -/
def Proper (row : Permission) : Prop :=
  row.auth.isSome ∧ (row.parent = 0 → row.permName = ownerName)

/-- Id 0 is taken by the row without a name, and every row has its parent. -/
structure Forest (t : PermissionTable) : Prop where
  reserved : ∃ row ∈ t.rows, row.byOwner = (0, 0) ∧ row.cbId = 0 ∧ row.parent = 0
  parents : ∀ row ∈ t.rows, t.HasParent row
  proper : ∀ row ∈ t.rows, row.byOwner ≠ (0, 0) → Proper row

theorem mem_of_findByCbId {cbId : Int64} (found : t.findByCbId cbId = some row) : row ∈ t.rows :=
  List.mem_of_find?_eq_some found

theorem cbId_of_findByCbId {cbId : Int64} (found : t.findByCbId cbId = some row) :
    row.cbId = cbId := by
  simpa using List.find?_some found

theorem eq_of_cbId {p q : Permission} (first : p ∈ t.rows) (second : q ∈ t.rows)
    (same : p.cbId = q.cbId) : p = q :=
  List.inj_on_of_nodup_map t.cbUnique first second same

theorem findByCbId_of_mem (member : row ∈ t.rows) : t.findByCbId row.cbId = some row := by
  cases found : t.findByCbId row.cbId with
  | none =>
    have absent := List.find?_eq_none.mp found row member
    simp at absent
  | some other =>
    rw [eq_of_cbId (mem_of_findByCbId found) member (cbId_of_findByCbId found)]

theorem Forest.cbId_ne_zero (forest : t.Forest) (member : row ∈ t.rows)
    (named : row.byOwner ≠ (0, 0)) : row.cbId ≠ 0 := by
  intro zero
  obtain ⟨zeroth, listed, unnamed, hasZero, -⟩ := forest.reserved
  have same := eq_of_cbId member listed (zero.trans hasZero.symm)
  exact named (same ▸ unnamed)

/-! What the operations keep. -/

variable {make : Nat → Permission} {slot : ∀ id, (make id).id = id}

theorem rows_insert (done : t.insert make slot = .ok u) : u.rows = t.rows ++ [make t.nextId] := by
  unfold insert at done
  split at done
  · cases done
  · cases done
    rfl

theorem mem_insert (done : t.insert make slot = .ok u) : make t.nextId ∈ u.rows := by
  rw [rows_insert done]
  exact List.mem_append_right _ (List.mem_singleton_self _)

theorem HasParent.mono (has : t.HasParent row) (more : ∀ p ∈ t.rows, p ∈ u.rows) :
    u.HasParent row := by
  rcases has with root | ⟨p, member, parent⟩
  · exact .inl root
  · exact .inr ⟨p, more p member, parent⟩

theorem Forest.insert (forest : t.Forest) (done : t.insert make slot = .ok u)
    (known : (make t.nextId).parent = 0 ∨ ∃ p ∈ t.rows, p.cbId = (make t.nextId).parent ∧
      p.owner = (make t.nextId).owner)
    (proper : Proper (make t.nextId)) : u.Forest := by
  have rows := rows_insert done
  have more : ∀ p ∈ t.rows, p ∈ u.rows := by
    intro p member
    rw [rows]
    exact List.mem_append_left _ member
  constructor
  · obtain ⟨zeroth, listed, facts⟩ := forest.reserved
    exact ⟨zeroth, more zeroth listed, facts⟩
  · intro row member
    rw [rows] at member
    rcases List.mem_append.mp member with old | new
    · exact (forest.parents row old).mono more
    · rw [List.mem_singleton.mp new]
      rcases known with root | ⟨p, listed, parent, owner⟩
      · exact .inl root
      · have before := t.allotted p listed
        exact .inr ⟨p, more p listed, parent, owner, by rw [slot]; exact before⟩
  · intro row member named
    rw [rows] at member
    rcases List.mem_append.mp member with old | new
    · exact forest.proper row old named
    · rw [List.mem_singleton.mp new]
      exact proper

theorem Forest.update (forest : t.Forest) (owner permName : UInt64) (auth : Authority)
    (lastUpdated : Int64) : (t.update owner permName auth lastUpdated).Forest := by
  let after := fun row : Permission =>
    if row.byOwner = (owner, permName) then row.updated auth lastUpdated else row
  have rows : (t.update owner permName auth lastUpdated).rows = t.rows.map after := rfl
  have kept : ∀ row, (after row).cbId = row.cbId ∧ (after row).parent = row.parent ∧
      (after row).byOwner = row.byOwner ∧ (after row).owner = row.owner ∧
      (after row).id = row.id := by
    intro row
    simp only [after]
    split <;> simp [Permission.updated, Permission.byOwner]
  have moved : ∀ row ∈ t.rows, after row ∈ (t.update owner permName auth lastUpdated).rows := by
    intro row member
    rw [rows]
    exact List.mem_map_of_mem member
  constructor
  · obtain ⟨zeroth, listed, unnamed, zero, top⟩ := forest.reserved
    obtain ⟨cbId, parent, named, -, -⟩ := kept zeroth
    exact ⟨after zeroth, moved zeroth listed, named.trans unnamed, cbId.trans zero,
      parent.trans top⟩
  · intro row member
    rw [rows] at member
    obtain ⟨old, listed, rfl⟩ := List.mem_map.mp member
    obtain ⟨-, parent, -, owns, slot⟩ := kept old
    rcases forest.parents old listed with root | ⟨p, there, isParent, sameOwner, before⟩
    · exact .inl (parent.trans root)
    · obtain ⟨cbId, -, -, parentOwns, parentSlot⟩ := kept p
      exact .inr ⟨after p, moved p there, by rw [cbId, parent, isParent],
        by rw [parentOwns, owns, sameOwner], by rw [parentSlot, slot]; exact before⟩
  · intro row member named
    rw [rows] at member
    obtain ⟨old, listed, rfl⟩ := List.mem_map.mp member
    obtain ⟨-, -, sameName, -, -⟩ := kept old
    have proper := forest.proper old listed (sameName ▸ named)
    simp only [after]
    split
    · exact ⟨rfl, proper.2⟩
    · exact proper

/-- A row that is nobody's parent can go, if it is not the reserved one. -/
theorem Forest.erase (forest : t.Forest) {owner permName : UInt64}
    (named : (owner, permName) ≠ (0, 0))
    (childless : ∀ p ∈ t.rows, p.byOwner = (owner, permName) →
      ∀ row ∈ t.rows, row.parent = p.cbId → row.owner = p.owner → row.parent = 0) :
    (t.erase owner permName).Forest := by
  have rows : ∀ row, row ∈ (t.erase owner permName).rows ↔
      row ∈ t.rows ∧ row.byOwner ≠ (owner, permName) := by
    intro row
    change row ∈ t.rows.filter _ ↔ _
    simp
  constructor
  · obtain ⟨zeroth, listed, unnamed, facts⟩ := forest.reserved
    exact ⟨zeroth, (rows zeroth).mpr ⟨listed, unnamed ▸ named.symm⟩, unnamed, facts⟩
  · intro row member
    obtain ⟨listed, -⟩ := (rows row).mp member
    rcases forest.parents row listed with root | ⟨p, there, parent, owns, before⟩
    · exact .inl root
    · by_cases gone : p.byOwner = (owner, permName)
      · exact .inl (childless p there gone row listed parent.symm owns.symm)
      · exact .inr ⟨p, (rows p).mpr ⟨there, gone⟩, parent, owns, before⟩
  · intro row member
    exact forest.proper row ((rows row).mp member).1

end PermissionTable

/-- The link an action is about. -/
def AuthAction.link : AuthAction → Option (UInt64 × UInt64 × UInt64)
  | linkauth account code messageType _ => some (account, code, messageType)
  | unlinkauth account code messageType => some (account, code, messageType)
  | _ => none

namespace AuthCall
open PermissionTable

variable {α β : Type} {db : AuthDb} {post : α → AuthDb → Prop} (env : ActionEnv)

/-! What a call leaves alone. -/

def tables (db : AuthDb) : PermissionTable × Keyed PermissionLink.byActionName :=
  (db.permissions, db.links)

/-- Where it succeeds, the call has touched neither a permission nor a link. -/
abbrev Spares (call : AuthCall α) : Prop := Leads (Same tables) call

theorem checked {condition : Bool} {error : AuthError} {next : Unit → AuthCall α}
    (rest : Yields db (next ()) post) : Yields db (pulseAssert condition error >>= next) post :=
  assert_bind fun _ => rest

theorem spares_pulseAssert (condition : Bool) (error : AuthError) :
    Spares (pulseAssert condition error) :=
  leads_ite (leads_pure ()) (leads_throw error)

theorem spares_createAccount (name : UInt64) (creationDate : UInt32) (privileged : Bool) :
    Spares (createAccount name creationDate privileged) := by
  apply Moves.leads
  intro db
  unfold createAccount
  split <;> rfl

theorem spares_initializeAccount (account : UInt64) : Spares (initializeAccount account) := by
  apply Moves.leads
  intro db
  unfold initializeAccount
  split <;> rfl

theorem spares_addRamUsage (account : UInt64) (delta : Int) : Spares (addRamUsage account delta) :=
  fun _ => of_ok rfl rfl

theorem spares_createUsage (lastUsed : Int64) : Spares (createUsage lastUsed) := by
  apply Moves.leads
  intro db
  unfold createUsage
  split <;> rfl

theorem spares_findPermission (actor permission : UInt64) :
    Spares (findPermission actor permission) :=
  (spares_pulseAssert _ _).bind fun _ => leads_read _

theorem spares_getPermission (actor permission : UInt64) :
    Spares (getPermission actor permission) := by
  apply (spares_findPermission actor permission).bind
  rintro (_ | found)
  · exact leads_throw _
  · exact leads_pure found

theorem spares_validateAuthorityPrecondition (auth : Authority) :
    Spares (validateAuthorityPrecondition env auth) := by
  apply leads_forM
  intro a
  apply (leads_read _).bind
  intro exist
  apply (spares_pulseAssert _ _).bind
  intro _
  apply leads_ite (leads_pure ())
  intro db
  constructor
  intro _ t done
  split at done
  · rename_i found u run
    cases done
    exact (spares_getPermission _ _ db).post found _ run
  · cases done

theorem spares_validateUpdate (account permission parent : UInt64)
    (auth : Authority) : Spares (validateUpdate env account permission parent auth) := by
  intro db
  iterate 4 apply checked
  apply Yields.read_bind
  iterate 2 apply checked
  have last := spares_validateAuthorityPrecondition env auth db
  split
  · exact checked last
  · split <;> exact checked last

/-! What an action does to the tables. -/

/-- The id is that of a permission of the account. -/
def Owns (t : PermissionTable) (account : UInt64) (cbId : Int64) : Prop :=
  cbId ≠ 0 ∧ ∃ p ∈ t.rows, p.cbId = cbId ∧ p.owner = account

/-- A permission is added below one of its account, or gets another authority. -/
inductive Grows : PermissionTable → PermissionTable → Prop
  | insert {t u : PermissionTable} {make : Nat → Permission} {slot : ∀ id, (make id).id = id}
      (done : t.insert make slot = .ok u)
      (known : (make t.nextId).parent = 0 ∧ (make t.nextId).permName = ownerName ∨
        Owns t (make t.nextId).owner (make t.nextId).parent)
      (authorized : (make t.nextId).auth.isSome) : Grows t u
  | update {t : PermissionTable} (owner permName : UInt64) (auth : Authority)
      (lastUpdated : Int64) : Grows t (t.update owner permName auth lastUpdated)

theorem Grows.forest {t u : PermissionTable} (grows : Grows t u) (forest : t.Forest) :
    u.Forest := by
  cases grows with
  | insert done known authorized =>
    refine forest.insert done (known.imp And.left And.right) ⟨authorized, fun top => ?_⟩
    exact known.elim And.right fun owned => absurd top owned.1
  | update owner permName auth lastUpdated => exact forest.update owner permName auth lastUpdated

/-- Permissions grow, one goes that nothing refers to, or the link that the action is about
changes. -/
inductive Effect (link : Option (UInt64 × UInt64 × UInt64))
    (before : PermissionTable × Keyed PermissionLink.byActionName) :
    PermissionTable × Keyed PermissionLink.byActionName → Prop
  | grown {permissions : PermissionTable}
      (grows : Relation.ReflTransGen Grows before.1 permissions) :
      Effect link before (permissions, before.2)
  | erased {owner permName : UInt64} (named : (owner, permName) ≠ (0, 0))
      (childless : ∀ p ∈ before.1.rows, p.byOwner = (owner, permName) →
        ∀ row ∈ before.1.rows, row.parent = p.cbId → row.owner = p.owner → row.parent = 0)
      (unlinked : ∀ l ∈ before.2.rows, (l.account, l.requiredPermission) ≠ (owner, permName)) :
      Effect link before (before.1.erase owner permName, before.2)
  | relinked {k : UInt64 × UInt64 × UInt64} {links : Keyed PermissionLink.byActionName}
      (here : link = some k) (others : ∀ other ≠ k, links.find other = before.2.find other) :
      Effect link before (before.1, links)

theorem Effect.forest {link : Option (UInt64 × UInt64 × UInt64)}
    {before after : PermissionTable × Keyed PermissionLink.byActionName}
    (effect : Effect link before after) (forest : before.1.Forest) : after.1.Forest := by
  cases effect with
  | grown grows =>
    induction grows with
    | refl => exact forest
    | tail _ step ih => exact step.forest ih
  | erased named childless _ => exact forest.erase named childless
  | relinked here others => exact forest

theorem yields_spared {call : AuthCall α} (spares : Spares call)
    {p : PermissionTable × Keyed PermissionLink.byActionName → Prop} (holds : p (tables db)) :
    Yields db call fun _ t => p (tables t) :=
  (spares db).imp fun _ _ same => same ▸ holds

theorem bind_tables {call : AuthCall β} {next : β → AuthCall α}
    {c : PermissionTable × Keyed PermissionLink.byActionName} (here : tables db = c)
    (spares : Spares call) (rest : ∀ b t, tables t = c → Yields t (next b) post) :
    Yields db (call >>= next) post := by
  apply (spares db).seq
  exact fun b t same => rest b t (same.trans here)

variable {account : UInt64}

theorem grows_createPermission {name : UInt64} {parent : Int64} {auth : Authority}
    {creationTime : Int64} (forest : db.permissions.Forest) (nonempty : name ≠ 0)
    (known : parent = 0 ∧ name = ownerName ∨ Owns db.permissions account parent) :
    Yields db (createPermission account name parent auth creationTime) fun cbId t =>
      Grows db.permissions t.permissions ∧ t.links = db.links ∧
        Owns t.permissions account cbId := by
  refine ok_bind rfl ?_
  apply bind_tables rfl (spares_createUsage creationTime)
  intro usageId u same
  obtain ⟨permissions, links⟩ := Prod.mk.inj same
  apply Yields.bind
  constructor
  intro _ t inserted
  unfold insertPermission at inserted
  split at inserted
  · rename_i after done
    cases inserted
    rw [permissions] at done
    apply of_pure
    have grows : Grows db.permissions after := .insert done known rfl
    have added := mem_insert done
    have inside := (grows.forest forest).cbId_ne_zero added (by simp [Permission.byOwner, nonempty])
    exact ⟨grows, links, inside, _, added, rfl, rfl⟩
  · cases inserted

theorem grows_createTwo {name : UInt64} {owner active : Authority} {time : Int64}
    (forest : db.permissions.Forest) {next : Int64 → AuthCall α}
    (rest : ∀ activeId t, Effect none (tables db) (tables t) → Owns t.permissions name activeId →
      Yields t (next activeId) post) :
    Yields db (do
      let ownerId ← createPermission name ownerName 0 owner time
      let activeId ← createPermission name activeName ownerId active time
      next activeId) post := by
  apply (grows_createPermission forest (by decide) (.inl ⟨rfl, rfl⟩)).seq
  rintro ownerId t ⟨first, links, owned⟩
  apply (grows_createPermission (first.forest forest) (by decide) (.inr owned)).seq
  rintro activeId u ⟨second, links', owned⟩
  apply rest activeId u _ owned
  have shape : tables u = (u.permissions, (tables db).2) := by rw [tables, links', links]; rfl
  rw [shape]
  exact .grown (.tail (.single first) second)

theorem effect_newaccount (creator name : UInt64) (owner active : Authority)
    (forest : db.permissions.Forest) :
    Yields db (newaccount env creator name owner active) fun _ t =>
      Effect none (tables db) (tables t) := by
  iterate 5 apply checked
  apply Yields.read_bind
  cases db.accounts.find creator with
  | none => exact of_throw _
  | some creating =>
  apply checked
  apply Yields.read_bind
  apply checked
  apply bind_tables rfl (spares_createAccount _ _ _)
  intro _ _ same
  apply bind_tables same (spares_validateAuthorityPrecondition env owner)
  intro _ _ same
  apply bind_tables same (spares_validateAuthorityPrecondition env active)
  intro _ t same
  -- up to here neither table has changed
  have kept : t.permissions = db.permissions := congrArg Prod.fst same
  apply grows_createTwo (kept ▸ forest)
  intro _ _ effect _
  rw [same] at effect
  exact yields_spared ((spares_initializeAccount name).bind fun _ => spares_addRamUsage _ _) effect

/-- Only names that are not empty are looked up, and what is found is a row with an
authority. -/
theorem yields_findPermission (actor permission : UInt64) :
    Yields db (findPermission actor permission) fun found t =>
      t = db ∧ permission ≠ 0 ∧ ∀ row auth, found = some (row, auth) →
        row ∈ db.permissions.rows ∧ row.byOwner = (actor, permission) := by
  apply Yields.bind
  unfold pulseAssert
  split
  · rename_i nonempty
    apply of_pure
    apply of_read
    refine ⟨rfl, (of_decide_eq_true nonempty).2, ?_⟩
    intro row auth found
    obtain ⟨row, isRow, rest⟩ := Option.bind_eq_some_iff.mp found
    obtain ⟨auth, -, same⟩ := Option.bind_eq_some_iff.mp rest
    cases same
    exact ⟨Keyed.mem_of_find isRow, Keyed.key_of_find isRow⟩
  · exact of_throw _

theorem yields_getPermission (actor permission : UInt64) :
    Yields db (getPermission actor permission) fun found t =>
      t = db ∧ permission ≠ 0 ∧ found.1 ∈ db.permissions.rows ∧
        found.1.byOwner = (actor, permission) := by
  apply (yields_findPermission actor permission).seq
  rintro found t ⟨rfl, nonempty, isRow⟩
  cases found with
  | none => exact of_throw _
  | some found => exact of_pure ⟨rfl, nonempty, isRow found.1 found.2 rfl⟩

/-- The parent of an update is none, for `owner`, or belongs to the account. -/
theorem yields_parentId (forest : db.permissions.Forest) (account permission parent : UInt64) :
    Yields db (parentId account permission parent) fun id t =>
      t = db ∧ (id = 0 ∧ permission = ownerName ∨ Owns db.permissions account id) := by
  unfold parentId
  split
  · rename_i isOwner
    exact of_pure ⟨rfl, .inl ⟨rfl, isOwner⟩⟩
  · apply (yields_getPermission account parent).seq
    rintro found t ⟨rfl, nonempty, listed, named⟩
    have inside := forest.cbId_ne_zero listed (by simp [named, nonempty])
    exact of_pure ⟨rfl, .inr ⟨inside, found.1, listed, rfl, congrArg Prod.fst named⟩⟩

theorem effect_updateauth (account permission parent : UInt64)
    (auth : Authority) (forest : db.permissions.Forest) :
    Yields db (updateauth env account permission parent auth) fun _ t =>
      Effect none (tables db) (tables t) := by
  apply bind_tables rfl (spares_validateUpdate env account permission parent auth)
  intro _ s same
  have kept : s.permissions = db.permissions := congrArg Prod.fst same
  apply (yields_parentId (kept ▸ forest) account permission parent).seq
  rintro id _ ⟨rfl, known⟩
  apply (yields_findPermission account permission).seq
  rintro found _ ⟨rfl, nonempty, -⟩
  rw [← same]
  cases found with
  | some found =>
    apply checked
    refine ok_bind rfl ?_
    exact yields_spared (spares_addRamUsage _ _) (.grown (.single (.update _ _ _ _)))
  | none =>
    apply (grows_createPermission (kept ▸ forest) nonempty known).seq
    rintro _ u ⟨grows, links, -⟩
    apply yields_spared (spares_addRamUsage _ _)
    rw [show tables u = (u.permissions, u.links) from rfl, links]
    exact .grown (.single grows)

theorem hasChildren_of_mem {row : Permission} {permission : UInt64}
    (member : row ∈ db.permissions.rows) (owns : row.owner = account)
    (named : db.parentName row = permission) : db.hasChildren account permission = true :=
  List.any_eq_true.mpr ⟨row, member, by simp [owns, named]⟩

theorem childless_of_hasChildren {permission : UInt64}
    (leaf : db.hasChildren account permission = false) :
    ∀ p ∈ db.permissions.rows, p.byOwner = (account, permission) →
      ∀ row ∈ db.permissions.rows, row.parent = p.cbId → row.owner = p.owner → row.parent = 0 := by
  intro p listed named row member parent owns
  by_contra inside
  have owner : p.owner = account := congrArg Prod.fst named
  have name : p.permName = permission := congrArg Prod.snd named
  have parentNamed : db.parentName row = permission := by
    unfold AuthDb.parentName
    rw [if_neg inside, parent, findByCbId_of_mem listed]
    exact name
  rw [hasChildren_of_mem member (owns.trans owner) parentNamed] at leaf
  cases leaf

/-- A permission goes only if it is nobody's parent and nothing is linked to it. -/
theorem effect_deleteAuth (account permission : UInt64) (forest : db.permissions.Forest) :
    Yields db (deleteAuth account permission) fun _ t =>
      Effect none (tables db) (tables t) := by
  apply Yields.read_bind
  cases childless : db.hasChildren account permission with
  | true => exact of_throw _
  | false =>
    apply Yields.read_bind
    cases first : db.firstLinkToPermission account permission with
    | some link => exact of_throw _
    | none =>
      apply Yields.read_bind
      cases hasAuth : (db.permissions.find (account, permission)).bind (·.auth) with
      | none => exact of_throw _
      | some auth =>
        apply Yields.bind
        constructor
        intro _ t removed
        -- the reserved row is its own namesake's child, so it cannot be the one removed
        have named : (account, permission) ≠ (0, 0) := by
          intro zero
          obtain ⟨zeroth, listed, unnamed, -, top⟩ := forest.reserved
          obtain ⟨rfl, rfl⟩ := Prod.mk.inj zero
          rw [hasChildren_of_mem listed (congrArg Prod.fst unnamed)
            (by simp [AuthDb.parentName, top])] at childless
          cases childless
        have unlinked : ∀ l ∈ db.links.rows, (l.account, l.requiredPermission) ≠
            (account, permission) := by
          intro link linked same
          obtain ⟨sameAccount, sameName⟩ := Prod.mk.inj same
          have absent := List.find?_eq_none.mp (Option.map_eq_none_iff.mp first) link linked
          simp [sameAccount, sameName] at absent
        apply of_pure
        unfold removePermission at removed
        split at removed
        · cases removed
          exact .grown .refl
        · split at removed <;> cases removed
          exact .erased named (childless_of_hasChildren childless) unlinked

theorem effect_deleteauth (account permission : UInt64)
    (forest : db.permissions.Forest) :
    Yields db (deleteauth env account permission) fun _ t =>
      Effect none (tables db) (tables t) := by
  iterate 3 apply checked
  apply (effect_deleteAuth account permission forest).seq
  intro _ _ effect
  exact yields_spared (spares_addRamUsage _ _) effect

theorem effect_linkAuth (account code requirement messageType : UInt64) :
    Yields db (linkAuth account code requirement messageType) fun _ t =>
      Effect (some (account, code, messageType)) (tables db) (tables t) := by
  apply Yields.read_bind
  cases db.links.find (account, code, messageType) with
  | none =>
    constructor
    intro _ t done
    dsimp only at done
    split at done
    · rename_i links inserted
      cases done
      refine .relinked rfl fun other differs => ?_
      rw [Keyed.find_insert inserted]
      simp [PermissionLink.byActionName, differs.symm]
      rfl
    · cases done
  | some link =>
    apply checked
    apply Yields.bind
    refine of_ok rfl (of_pure (.relinked rfl fun other differs => ?_))
    rw [Keyed.find_modify, if_neg differs]
    rfl

theorem effect_linkauth (account code messageType requirement : UInt64) :
    Yields db (linkauth env account code messageType requirement) fun _ t =>
      Effect (some (account, code, messageType)) (tables db) (tables t) := by
  have last : Yields db (do
      let delta ← linkAuth account code requirement messageType
      if delta ≠ 0 then addRamUsage account delta else pure PUnit.unit) fun _ u =>
        Effect (some (account, code, messageType)) (tables db) (tables u) := by
    apply (effect_linkAuth account code requirement messageType).seq
    intro delta _ effect
    exact yields_spared (leads_ite (spares_addRamUsage account delta) (leads_pure _)) effect
  iterate 2 apply checked
  apply Yields.read_bind
  apply checked
  split
  · exact Yields.read_bind (checked last)
  · exact last

theorem effect_unlinkauth (account code messageType : UInt64) :
    Yields db (unlinkauth env account code messageType) fun _ t =>
      Effect (some (account, code, messageType)) (tables db) (tables t) := by
  apply checked
  refine ok_bind rfl ?_
  apply yields_spared (leads_ite (spares_addRamUsage account _) (leads_pure _))
  refine .relinked rfl fun other differs => ?_
  rw [Keyed.find_erase, if_neg differs]
  rfl

/-- Whatever an action does, it is one of these effects. -/
theorem effect_call (action : AuthAction) (forest : db.permissions.Forest) :
    Yields db (action.call env) fun _ t => Effect action.link (tables db) (tables t) := by
  cases action with
  | newaccount creator name owner active =>
    exact effect_newaccount env creator name owner active forest
  | updateauth account permission parent auth =>
    exact effect_updateauth env account permission parent auth forest
  | deleteauth account permission => exact effect_deleteauth env account permission forest
  | linkauth account code messageType requirement =>
    exact effect_linkauth env account code messageType requirement
  | unlinkauth account code messageType => exact effect_unlinkauth env account code messageType

/-! Genesis and runs. -/

theorem forest_reservePermissionZero :
    Yields AuthDb.new reservePermissionZero fun _ t => t.permissions.Forest := by
  constructor
  intro _ t done
  cases done
  constructor
  · exact ⟨_, List.mem_singleton_self _, rfl, rfl, rfl⟩
  · intro row member
    rw [List.mem_singleton.mp member]
    exact .inl rfl
  · intro row member named
    rw [List.mem_singleton.mp member] at named
    exact absurd rfl named

theorem forest_genesisNativeAccount (name : UInt64) (owner active : Authority)
    (privileged : Bool) (forest : db.permissions.Forest) :
    Yields db (genesisNativeAccount env name owner active privileged) fun activeId t =>
      t.permissions.Forest ∧ Owns t.permissions name activeId := by
  apply bind_tables rfl (spares_createAccount _ _ _)
  intro _ t same
  have kept : t.permissions = db.permissions := congrArg Prod.fst same
  apply grows_createTwo (kept ▸ forest)
  intro activeId t effect owned
  have grown : t.permissions.Forest := effect.forest (by rw [same]; exact forest)
  apply bind_tables rfl (spares_initializeAccount name)
  intro _ _ same
  apply bind_tables same (spares_addRamUsage name _)
  intro _ u same
  have last : u.permissions = t.permissions := congrArg Prod.fst same
  exact of_pure ⟨last ▸ grown, last ▸ owned⟩

theorem forest_initializeGenesis (key : AuthorityPublicKey) :
    Yields AuthDb.new (initializeGenesis env key) fun _ t => t.permissions.Forest := by
  apply forest_reservePermissionZero.seq
  intro _ _ forest
  apply (forest_genesisNativeAccount env _ _ _ _ forest).seq
  rintro _ _ ⟨forest, -⟩
  apply (forest_genesisNativeAccount env _ _ _ _ forest).seq
  rintro _ _ ⟨forest, -⟩
  apply (forest_genesisNativeAccount env _ _ _ _ forest).seq
  rintro _ _ ⟨forest, owned⟩
  apply (grows_createPermission forest (by decide) (.inr owned)).seq
  rintro _ _ ⟨first, -, owned⟩
  have forest := first.forest forest
  apply (grows_createPermission forest (by decide) (.inr owned)).seq
  rintro _ _ ⟨second, -, -⟩
  exact of_pure (second.forest forest)

end AuthCall

namespace AuthDb
open PermissionTable

variable {db : AuthDb}

theorem forest_perform (forest : db.permissions.Forest) (step : ActionEnv × AuthAction) :
    (db.perform step).permissions.Forest := by
  unfold perform
  split
  · rename_i t done
    exact ((AuthCall.effect_call step.1 step.2 forest).post () t done).forest forest
  · exact forest

theorem Reachable.forest (reachable : db.Reachable) : db.permissions.Forest := by
  induction reachable with
  | genesis started => exact (AuthCall.forest_initializeGenesis _ _).post () _ started
  | perform before step ih => exact forest_perform ih step

/-! Ancestors. -/

def ParentOf (db : AuthDb) (row parent : Permission) : Prop :=
  row ∈ db.permissions.rows ∧ parent ∈ db.permissions.rows ∧ row.parent ≠ 0 ∧
    parent.cbId = row.parent

def Covers (db : AuthDb) (upper lower : Permission) : Prop :=
  Relation.ReflTransGen db.ParentOf lower upper

variable {row a b : Permission}

theorem up_of_mem (member : row ∈ db.permissions.rows) : db.up row.cbId = some row.parent := by
  simp [up, findByCbId_of_mem member]

theorem parentOf_iff {parent : Permission} (member : row ∈ db.permissions.rows)
    (listed : parent ∈ db.permissions.rows) :
    db.ParentOf row parent ↔ Up db.up 0 row.cbId parent.cbId := by
  unfold ParentOf Up
  rw [up_of_mem member, Option.some.injEq]
  constructor
  · rintro ⟨-, -, inside, isParent⟩
    exact ⟨isParent.symm, isParent ▸ inside⟩
  · rintro ⟨isParent, inside⟩
    exact ⟨member, listed, isParent ▸ inside, isParent.symm⟩

section

variable (forest : db.permissions.Forest)

include forest

theorem exists_parentOf {q : Int64}
    (member : row ∈ db.permissions.rows) (step : Up db.up 0 row.cbId q) :
    ∃ p, db.ParentOf row p ∧ p.cbId = q ∧ p.owner = row.owner ∧ p.id < row.id := by
  have isParent : row.parent = q := Option.some.inj ((up_of_mem member).symm.trans step.1)
  rcases forest.parents row member with top | ⟨p, listed, same, owns, before⟩
  · exact absurd (isParent ▸ top) step.2
  · exact ⟨p, ⟨member, listed, isParent ▸ step.2, same⟩, same.trans isParent, owns, before⟩

theorem ParentOf.owner_and_id {parent : Permission}
    (step : db.ParentOf row parent) : parent.owner = row.owner ∧ parent.id < row.id := by
  obtain ⟨p, isParent, same, owns, before⟩ :=
    exists_parentOf forest step.1 ((parentOf_iff step.1 step.2.1).mp step)
  have equal := eq_of_cbId isParent.2.1 step.2.1 same
  exact equal ▸ ⟨owns, before⟩

theorem Covers.owner_eq {upper lower : Permission}
    (covers : db.Covers upper lower) : upper.owner = lower.owner := by
  induction covers with
  | refl => rfl
  | tail _ step ih => exact (step.owner_and_id forest).1.trans ih

theorem wellFounded_parentOf :
    WellFounded fun parent row => db.ParentOf row parent :=
  Subrelation.wf (fun step => (step.owner_and_id forest).2) (measure Permission.id).wf

theorem transGen_parentOf_iff (upper : a ∈ db.permissions.rows)
    (lower : b ∈ db.permissions.rows) :
    Relation.TransGen db.ParentOf b a ↔ Relation.TransGen (Up db.up 0) b.cbId a.cbId := by
  constructor
  · intro above
    exact above.lift Permission.cbId fun _ _ step => (parentOf_iff step.1 step.2.1).mp step
  · intro above
    generalize start : b.cbId = k at above
    induction above using Relation.TransGen.head_induction_on generalizing b with
    | single step =>
      subst start
      obtain ⟨p, isParent, same, -⟩ := exists_parentOf forest lower step
      exact .single (eq_of_cbId isParent.2.1 upper same ▸ isParent)
    | head step _ ih =>
      subst start
      obtain ⟨p, isParent, same, -⟩ := exists_parentOf forest lower step
      exact .head isParent (ih isParent.2.1 same)

/-- How late the row of an id was stored. -/
def rank (db : AuthDb) (cbId : Int64) : Nat :=
  ((db.permissions.findByCbId cbId).map Permission.id).getD 0

theorem rank_falls (k q : Int64) (step : Up db.up 0 k q) :
    db.rank q < db.rank k := by
  obtain ⟨row, found, -⟩ := Option.map_eq_some_iff.mp step.1
  have member := mem_of_findByCbId found
  cases cbId_of_findByCbId found
  obtain ⟨p, isParent, rfl, -, before⟩ := exists_parentOf forest member step
  simp only [rank, findByCbId_of_mem member,
    findByCbId_of_mem isParent.2.1]
  exact before

theorem not_above_zero (target : Int64) :
    ¬Relation.TransGen (Up db.up 0) 0 target := by
  apply not_transGen_of_top
  rintro q ⟨parent, inside⟩
  obtain ⟨zeroth, listed, -, zero, top⟩ := forest.reserved
  have leads := up_of_mem listed
  rw [zero, top, parent] at leads
  exact inside (Option.some.inj leads)

/-- Above a row is its parent, and what is above that. -/
theorem covers_iff (upper : a ∈ db.permissions.rows)
    (lower : b ∈ db.permissions.rows) (inside : a.cbId ≠ 0) :
    db.Covers a b ↔ a.cbId = b.cbId ∨ a.cbId = b.parent ∨
      Relation.TransGen (Up db.up 0) b.parent a.cbId := by
  rw [Covers, Relation.reflTransGen_iff_eq_or_transGen, transGen_parentOf_iff forest upper lower]
  have sameRow : a = b ↔ a.cbId = b.cbId :=
    ⟨congrArg Permission.cbId, eq_of_cbId upper lower⟩
  rw [sameRow]
  by_cases top : b.parent = 0
  · have stays : ∀ q, ¬Up db.up 0 b.cbId q := by
      rintro q ⟨parent, nonzero⟩
      rw [up_of_mem lower, top] at parent
      exact nonzero (Option.some.inj parent).symm
    simp [top, not_transGen_of_top stays, not_above_zero forest, inside]
  · have step : Up db.up 0 b.cbId b.parent := ⟨up_of_mem lower, top⟩
    rw [transGen_up_iff step]
    simp only [eq_comm]

/-- The walk ends, and answers whether one permission is the other or above it. -/
theorem permissionSatisfies_ends (upper : a ∈ db.permissions.rows)
    (lower : b ∈ db.permissions.rows) (named : a.byOwner ≠ (0, 0)) {fuel : Nat}
    (enough : db.rank b.parent < fuel) :
    ∃ answer, db.permissionSatisfies fuel a.owner a.permName b.owner b.permName =
      some (some answer) ∧ (answer = true ↔ db.Covers a b) := by
  have inside := forest.cbId_ne_zero upper named
  have foundA : db.permissions.find (a.owner, a.permName) = some a := Keyed.find_of_mem upper
  have foundB : db.permissions.find (b.owner, b.permName) = some b := Keyed.find_of_mem lower
  unfold permissionSatisfies
  rw [foundA, foundB]
  dsimp only
  by_cases owners : a.owner = b.owner
  · rw [if_neg (not_not.mpr owners), covers_iff forest upper lower inside]
    by_cases near : a.cbId = b.cbId ∨ a.cbId = b.parent
    · exact ⟨true, by rw [if_pos near], by rcases near with same | parent <;> simp [*]⟩
    · obtain ⟨answer, done, above⟩ := climb_ends (rank_falls forest) inside enough
      rw [not_or] at near
      exact ⟨answer, by simp [near, done], by simp [near, above]⟩
  · refine ⟨false, by rw [if_pos owners], ?_⟩
    simp only [Bool.false_eq_true, false_iff]
    exact fun covers => owners (covers.owner_eq forest)

end

/-- In every reachable state the parent of a permission is none or an older permission of
the same owner, so that going up ends; and the walk answers exactly whether one permission
is another or one of its ancestors. -/
theorem permission_forest (reachable : db.Reachable) :
    (∀ row ∈ db.permissions.rows, row.parent = 0 ∨ ∃ p ∈ db.permissions.rows,
      p.cbId = row.parent ∧ p.owner = row.owner ∧ p.id < row.id) ∧
    (WellFounded fun parent row => db.ParentOf row parent) ∧
    ∀ a ∈ db.permissions.rows, a.byOwner ≠ (0, 0) → ∀ b ∈ db.permissions.rows,
      (db.Covers a b → a.owner = b.owner) ∧
      ∃ bound, ∀ fuel, bound ≤ fuel → ∃ answer,
        db.permissionSatisfies fuel a.owner a.permName b.owner b.permName = some (some answer) ∧
          (answer = true ↔ db.Covers a b) := by
  have forest := reachable.forest
  refine ⟨forest.parents, wellFounded_parentOf forest, ?_⟩
  intro a upper named b lower
  refine ⟨Covers.owner_eq forest, db.rank b.parent + 1, ?_⟩
  intro fuel enough
  exact permissionSatisfies_ends forest upper lower named enough

theorem Reachable.foldl (reachable : db.Reachable) (steps : List (ActionEnv × AuthAction)) :
    (steps.foldl AuthDb.perform db).Reachable :=
  List.foldlRecOn steps AuthDb.perform reachable fun _ before step _ => before.perform step

/-- The default names of the system accounts. -/
def sampleNames : SystemAccountNames where
  system := 12584048018849792000
  null := 12584048029495738368
  prods := 12584048030520602624
  any := 12584048022405513216
  code := 12584048023485186048

def sampleEnv : ActionEnv := ⟨sampleNames, [], 0, 0, true, true⟩

def sampleGenesis : AuthDb := (AuthCall.initializeGenesis sampleEnv (.k1 []) AuthDb.new).2

theorem sampleGenesis_reachable : sampleGenesis.Reachable := by
  have started : (AuthCall.initializeGenesis sampleEnv (.k1 []) AuthDb.new).1 = .ok () := by
    decide +kernel
  have all : AuthCall.initializeGenesis sampleEnv (.k1 []) AuthDb.new = (.ok (), sampleGenesis) :=
    Prod.ext started rfl
  exact .genesis all

/-- The system account acting under one of its permissions. -/
def systemEnv (permission : UInt64) : ActionEnv :=
  { sampleEnv with authorization := [⟨sampleNames.system, permission⟩] }

/-- It creates an account, and two permissions in a row of which it removes the lower. -/
def sampleGrown : List AuthAction :=
  let auth : Authority := ⟨1, [⟨.k1 [], 1⟩], [], []⟩
  [.newaccount sampleNames.system (2 ^ 59) auth auth,
    .updateauth sampleNames.system 5 activeName auth, .updateauth sampleNames.system 6 5 auth,
    .deleteauth sampleNames.system 6]

theorem permission_forest_grown :
    ∃ db : AuthDb, db.permissions.rows.length = 12 ∧
      (db.permissions.find (sampleNames.system, 5)).isSome ∧
      WellFounded fun parent row => db.ParentOf row parent := by
  let steps := sampleGrown.map fun action => (systemEnv activeName, action)
  refine ⟨steps.foldl perform sampleGenesis, by decide +kernel, by decide +kernel, ?_⟩
  exact (permission_forest (sampleGenesis_reachable.foldl steps)).2.1

end AuthDb

end PulseVM.Chain
