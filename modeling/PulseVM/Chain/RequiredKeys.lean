import PulseVM.Chain.AuthorityChecker

/-!
Which keys a checker reports as used, and when those keys are enough. A branch that fails
gives its keys back but leaves behind what it has learned about levels. A level that was
satisfied inside such a branch counts later without its keys, and with fewer keys the branch
takes another course. Where no branch gives back a key that has satisfied a level, the
reported keys repeat the run step by step.
-/

namespace PulseVM.Chain

inductive AuthorizationError (ε : Type) where
  | db (e : ε)
  /-- "transaction declares authority but does not have signatures for it" -/
  | missingSignatures (level : PermissionLevel)
  /-- "transaction bears irrelevant signatures" -/
  | irrelevantSignatures
  deriving DecidableEq

namespace AuthorityChecker
open List Authority

variable {ε : Type} {α : Type}

/-- Ask one question after the other; the first refusal ends the loop. -/
def askAll (ask : α → AuthorityChecker → Except ε (Bool × AuthorityChecker))
    (level : α → PermissionLevel) :
    List α → AuthorityChecker → Except (AuthorizationError ε) AuthorityChecker
  | [], c => .ok c
  | first :: rest, c =>
    match ask first c with
    | .error e => .error (.db e)
    | .ok (false, _) => .error (.missingSignatures (level first))
    | .ok (true, c) => askAll ask level rest c

/-- The declared levels with their delays have to be satisfied and every key used. -/
def checkDeclared (db : Permissions ε) (maxAuthorityDepth : Nat) (given : Provided)
    (permissionsToSatisfy : List (PermissionLevel × Int)) : Except (AuthorizationError ε) Unit :=
  match askAll (fun asked c => c.satisfiedWithDelay db (.newFromPermissionLevel asked.1) 0 asked.2)
      Prod.fst permissionsToSatisfy (new maxAuthorityDepth given) with
  | .error e => .error e
  | .ok c => if c.allKeysUsed then .ok () else .error .irrelevantSignatures

section Keeps

end Keeps

section Grows

variable {db : Permissions ε} {visit : Visit ε} {c between after : AuthorityChecker}
  {cache later : PermissionCache}

/-- An evaluation only adds to the used keys, out of those at hand. -/
structure Grows (c after : AuthorityChecker) : Prop where
  same : after = { c with usedKeys := after.usedKeys }
  more : c.usedKeys ⊆ after.usedKeys
  given : after.usedKeys ⊆ c.usedKeys ∪ c.given.keys

theorem Grows.refl (c : AuthorityChecker) : Grows c c :=
  ⟨rfl, Finset.Subset.refl _, Finset.subset_union_left⟩

theorem Grows.trans (first : Grows c between) (second : Grows between after) : Grows c after := by
  have hand : between.given = c.given := by rw [first.same]
  refine ⟨second.same.trans (by rw [first.same]), first.more.trans second.more, ?_⟩
  refine second.given.trans (Finset.union_subset first.given ?_)
  rw [hand]
  exact Finset.subset_union_right

theorem Grows.hand (grows : Grows c after) : after.given = c.given := by
  rw [grows.same]

end Grows

section Again

variable {db : Permissions ε} {visit : Visit ε} {c after : AuthorityChecker}
  {cache later : PermissionCache} {keys kept used : Finset AuthorityPublicKey}
  {keeps : Finset AuthorityPublicKey → PermissionLevelWeight → AuthorityChecker →
    PermissionCache → Bool}

section Questions

variable {ask : α → AuthorityChecker → Except ε (Bool × AuthorityChecker)}
  {level : α → PermissionLevel} {asked : List α} {keep : α → AuthorityChecker → Bool}
  {last : AuthorityChecker}

end Questions

/-- A level that is asked for twice, and one that fails with a key at hand. -/
def shared : Permissions Unit
  | ⟨1, 1⟩ => .ok (some ⟨3, [], [⟨⟨4, 1⟩, 3⟩, ⟨⟨2, 1⟩, 2⟩, ⟨⟨3, 1⟩, 1⟩], []⟩)
  | ⟨2, 1⟩ => .ok (some ⟨1, [], [⟨⟨3, 1⟩, 1⟩], []⟩)
  | ⟨3, 1⟩ => .ok (some ⟨1, [⟨.k1 [1], 1⟩], [], []⟩)
  | ⟨4, 1⟩ => .ok (some ⟨2, [⟨.k1 [2], 1⟩, ⟨.k1 [9], 1⟩], [], []⟩)
  | _ => .ok none

end Again

end AuthorityChecker

end PulseVM.Chain
