import Mathlib

/-!
Authorities: keys, other permission levels and waits with weights, and a threshold that
the weights have to reach. What it means that an authority holds is a least relation
over a graph of permission levels; cycles in the graph support nothing.
-/

namespace PulseVM.Chain

/-- The 33 bytes of a curve point. Nothing reads their number. -/
abbrev Point := List UInt8

/-- A signing key. `userPresence` is 0 for none, 1 for presence, 2 for verification. -/
inductive AuthorityPublicKey where
  | k1 (point : Point)
  | r1 (point : Point)
  | webAuthn (point : Point) (userPresence : UInt8) (rpid : String)
  deriving DecidableEq, Repr

namespace AuthorityPublicKey

/-- Variant, then fields: the order the source derives. -/
def ranked : AuthorityPublicKey → Nat ×ₗ List Nat ×ₗ Nat ×ₗ String
  | k1 point => toLex (0, toLex (point.map UInt8.toNat, toLex (0, "")))
  | r1 point => toLex (1, toLex (point.map UInt8.toNat, toLex (0, "")))
  | webAuthn point userPresence rpid =>
    toLex (2, toLex (point.map UInt8.toNat, toLex (userPresence.toNat, rpid)))

theorem ranked_injective : Function.Injective ranked := by
  have points : Function.Injective (List.map UInt8.toNat) :=
    List.map_injective_iff.mpr fun _ _ same => UInt8.toNat_inj.mp same
  intro a b same
  cases a <;> cases b <;> simp_all [ranked, points.eq_iff, UInt8.toNat_inj]

instance : LinearOrder AuthorityPublicKey := LinearOrder.lift' ranked ranked_injective

end AuthorityPublicKey

structure PermissionLevel where
  actor : UInt64
  permission : UInt64
  deriving DecidableEq, Repr

namespace PermissionLevel

def ranked (p : PermissionLevel) : Nat ×ₗ Nat := toLex (p.actor.toNat, p.permission.toNat)

theorem ranked_injective : Function.Injective ranked := by
  intro a b same
  cases a
  cases b
  simp_all [ranked, UInt64.toNat_inj]

instance : LinearOrder PermissionLevel := LinearOrder.lift' ranked ranked_injective

/-- The level with the empty name, which stands for every level of its actor. -/
def wildcard (p : PermissionLevel) : PermissionLevel := ⟨p.actor, 0⟩

end PermissionLevel

structure KeyWeight where
  key : AuthorityPublicKey
  weight : UInt16
  deriving DecidableEq, Repr

structure PermissionLevelWeight where
  permission : PermissionLevel
  weight : UInt16
  deriving DecidableEq, Repr

structure WaitWeight where
  waitSec : UInt32
  weight : UInt16
  deriving DecidableEq, Repr

structure Authority where
  threshold : UInt32
  keys : List KeyWeight
  accounts : List PermissionLevelWeight
  waits : List WaitWeight
  deriving DecidableEq, Repr

inductive AuthorityFactor where
  | permission (value : PermissionLevelWeight)
  | key (value : KeyWeight)
  | wait (value : WaitWeight)
  deriving DecidableEq, Repr

namespace AuthorityFactor

def weight : AuthorityFactor → UInt16
  | permission value => value.weight
  | key value => value.weight
  | wait value => value.weight

/-- Among equal weights waits come first, then keys, then permission levels. -/
def priority : AuthorityFactor → Nat
  | permission _ => 1
  | key _ => 2
  | wait _ => 3

def key? : AuthorityFactor → Option AuthorityPublicKey
  | key value => some value.key
  | _ => none

def Before (left right : AuthorityFactor) : Prop :=
  right.weight < left.weight ∨ right.weight = left.weight ∧ right.priority ≤ left.priority

instance : DecidableRel Before := fun _ _ =>
  inferInstanceAs (Decidable (_ ∨ _ ∧ _))

end AuthorityFactor

namespace Authority

def newFromPermissionLevel (level : PermissionLevel) : Authority := ⟨1, [], [⟨level, 1⟩], []⟩

def listed (a : Authority) : List AuthorityFactor :=
  a.accounts.map .permission ++ a.keys.map .key ++ a.waits.map .wait

/-- The entries in the order they are evaluated; the sort is stable. -/
def factors (a : Authority) : List AuthorityFactor :=
  a.listed.insertionSort AuthorityFactor.Before

theorem factors_perm (a : Authority) : a.factors.Perm a.listed := List.perm_insertionSort _ _

/-- What an authority has to satisfy to be stored. -/
def validate (a : Authority) : Bool :=
  a.keys.length + a.accounts.length + a.waits.length ≤ 2 ^ 16 ∧ a.threshold ≠ 0 ∧
    (a.keys.map KeyWeight.key).IsChain (· < ·) ∧
    (a.accounts.map PermissionLevelWeight.permission).IsChain (· < ·) ∧
    (a.waits.head?.map WaitWeight.waitSec ≠ some 0) ∧
    (a.waits.map fun w => w.waitSec.toNat).IsChain (· < ·) ∧
    a.threshold.toNat ≤ (a.listed.map fun f => f.weight.toNat).sum

/-- An authority in a message, its entries as records. -/
def display (a : Authority) : String :=
  s!"Authority(threshold: {a.threshold}, keys: {reprStr a.keys}, accounts: {reprStr a.accounts}, waits: {reprStr a.waits})"

theorem filterMap_key_listed (a : Authority) :
    a.listed.filterMap AuthorityFactor.key? = a.keys.map KeyWeight.key := by
  have accounts : (a.accounts.map AuthorityFactor.permission).filterMap AuthorityFactor.key? = [] := by
    rw [List.filterMap_map]
    exact List.filterMap_eq_nil_iff.mpr fun _ _ => rfl
  have waits : (a.waits.map AuthorityFactor.wait).filterMap AuthorityFactor.key? = [] := by
    rw [List.filterMap_map]
    exact List.filterMap_eq_nil_iff.mpr fun _ _ => rfl
  have keys : (a.keys.map AuthorityFactor.key).filterMap AuthorityFactor.key? =
      a.keys.map KeyWeight.key := by
    rw [List.filterMap_map, ← List.filterMap_eq_map]
    rfl
  rw [listed, List.filterMap_append, List.filterMap_append, accounts, keys, waits,
    List.nil_append, List.append_nil]

theorem keys_nodup {a : Authority} (valid : a.validate = true) :
    (a.keys.map KeyWeight.key).Nodup := by
  obtain ⟨_, _, ascending, _⟩ := of_decide_eq_true valid
  exact (List.isChain_iff_pairwise.mp ascending).imp fun below => ne_of_lt below

end Authority

/-- The stored authority of a level; reading it can fail. -/
abbrev Permissions (ε : Type) := PermissionLevel → Except ε (Option Authority)

/-- What is brought along to satisfy an authority. -/
structure Provided where
  keys : Finset AuthorityPublicKey
  permissions : Finset PermissionLevel
  /-- In microseconds. -/
  delay : Int

/-- How strictly entries are counted: which level stands in for which, and in which
authorities a key counts once however often it is listed. -/
structure Reading where
  StandsFor : PermissionLevel → PermissionLevel → Prop
  Once : Authority → Prop

/-- A level stands for itself alone and a key counts once. -/
def Reading.literal : Reading := ⟨Eq, fun _ => True⟩

/-- The empty name stands for every level of its actor, and listings count one by one
in authorities that `validate` refuses. -/
def Reading.chain : Reading :=
  ⟨fun q p => q = p ∨ q = p.wildcard, fun a => a.validate = true⟩

section Relation

variable {ε : Type} (R : Reading) (db : Permissions ε) (given : Provided)

mutual

/-- Entries that count have weights that reach the threshold. -/
inductive Authority.Holds : Authority → Prop
  | intro {a : Authority} (chosen : List AuthorityFactor) (listed : chosen.Subperm a.listed)
      (counts : ∀ f ∈ chosen, AuthorityFactor.Counts f)
      (once : R.Once a → (chosen.filterMap AuthorityFactor.key?).Nodup)
      (enough : a.threshold.toNat ≤ (chosen.map fun f => f.weight.toNat).sum) :
      Authority.Holds a

inductive AuthorityFactor.Counts : AuthorityFactor → Prop
  | key {value : KeyWeight} (provided : value.key ∈ given.keys) :
      AuthorityFactor.Counts (.key value)
  | wait {value : WaitWeight} (elapsed : (value.waitSec.toNat : Int) * 1000000 ≤ given.delay) :
      AuthorityFactor.Counts (.wait value)
  | permission {value : PermissionLevelWeight} {level : PermissionLevel}
      (stands : R.StandsFor level value.permission) (granted : PermissionLevel.Granted level) :
      AuthorityFactor.Counts (.permission value)

/-- A level that was provided, or whose authority holds. -/
inductive PermissionLevel.Granted : PermissionLevel → Prop
  | provided {level : PermissionLevel} (provided : level ∈ given.permissions) :
      PermissionLevel.Granted level
  | derived {level : PermissionLevel} {authority : Authority}
      (stored : db level = .ok (some authority)) (holds : Authority.Holds authority) :
      PermissionLevel.Granted level

end

end Relation

end PulseVM.Chain
