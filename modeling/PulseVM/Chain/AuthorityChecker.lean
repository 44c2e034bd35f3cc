import PulseVM.Chain.Authority

/-!
The search that decides whether an authority is satisfied. It remembers the outcome of
every level it has evaluated, marks the levels it is inside of, stops at a depth limit and
takes back the keys of a branch that fails. What it remembers as satisfied is granted,
whatever happens around it.
-/

namespace PulseVM.Chain

inductive PermissionCacheStatus where
  | beingEvaluated
  | permissionUnsatisfied
  | permissionSatisfied
  deriving DecidableEq, Repr

/-- What is known about a level so far. -/
abbrev PermissionCache := PermissionLevel → Option PermissionCacheStatus

namespace PermissionCache

/-- The entry of a level, or of the level with the empty name. -/
def status (cache : PermissionCache) (level : PermissionLevel) : Option PermissionCacheStatus :=
  (cache level).or (cache level.wildcard)

def insert (cache : PermissionCache) (level : PermissionLevel) (status : PermissionCacheStatus) :
    PermissionCache :=
  Function.update cache level (some status)

/-- Provided levels count as satisfied from the start. -/
def initial (provided : Finset PermissionLevel) : PermissionCache := fun level =>
  if level ∈ provided then some .permissionSatisfied else none

end PermissionCache

structure AuthorityChecker where
  recursionDepthLimit : Nat
  given : Provided
  usedKeys : Finset AuthorityPublicKey

namespace AuthorityChecker

def new (recursionDepthLimit : Nat) (given : Provided) : AuthorityChecker :=
  ⟨recursionDepthLimit, given, ∅⟩

def allKeysUsed (c : AuthorityChecker) : Bool := c.given.keys = c.usedKeys

def visitKeyWeight (c : AuthorityChecker) (value : KeyWeight) : UInt16 × AuthorityChecker :=
  if value.key ∈ c.given.keys then
    (value.weight, { c with usedKeys := insert value.key c.usedKeys })
  else (0, c)

def visitWaitWeight (c : AuthorityChecker) (value : WaitWeight) : UInt16 :=
  if (value.waitSec.toNat : Int) * 1000000 ≤ c.given.delay then value.weight else 0

variable {ε : Type}

abbrev Visit (ε : Type) := PermissionLevelWeight → AuthorityChecker → PermissionCache →
  Except ε (UInt16 × AuthorityChecker × PermissionCache)

def visitFactor (visit : Visit ε) (c : AuthorityChecker) (cache : PermissionCache) :
    AuthorityFactor → Except ε (UInt16 × AuthorityChecker × PermissionCache)
  | .permission value => visit value c cache
  | .key value => .ok ((c.visitKeyWeight value).1, (c.visitKeyWeight value).2, cache)
  | .wait value => .ok (c.visitWaitWeight value, c, cache)

/-- Add up weights until they reach the threshold. -/
def visitFactors (visit : Visit ε) (threshold : UInt32) :
    List AuthorityFactor → UInt32 → AuthorityChecker → PermissionCache →
      Except ε (Bool × AuthorityChecker × PermissionCache)
  | [], _, c, cache => .ok (false, c, cache)
  | factor :: rest, total, c, cache =>
    match visitFactor visit c cache factor with
    | .error e => .error e
    | .ok (weight, c, cache) =>
      if threshold ≤ total + weight.toUInt32 then .ok (true, c, cache)
      else visitFactors visit threshold rest (total + weight.toUInt32) c cache

/-- A branch that fails gives its keys back; what it learned about levels stays. -/
def satisfiedWithCache (visit : Visit ε) (a : Authority) (c : AuthorityChecker)
    (cache : PermissionCache) : Except ε (Bool × AuthorityChecker × PermissionCache) :=
  match visitFactors visit a.threshold a.factors 0 c cache with
  | .error e => .error e
  | .ok (true, after, cache) => .ok (true, after, cache)
  | .ok (false, after, cache) => .ok (false, { after with usedKeys := c.usedKeys }, cache)

/-- Evaluate a level unless its outcome is known. `levels` is how far the depth limit is
away. -/
def visitPermissionLevelWeight (db : Permissions ε) : Nat → Visit ε
  | levels, value, c, cache =>
    match cache.status value.permission with
    | some .beingEvaluated => .ok (0, c, cache)
    | some .permissionSatisfied => .ok (value.weight, c, cache)
    | some .permissionUnsatisfied => .ok (0, c, cache)
    | none =>
      match levels with
      | 0 => .ok (0, c, cache)
      | levels + 1 =>
        match db value.permission with
        | .error e => .error e
        | .ok none => .ok (0, c, cache)
        | .ok (some authority) =>
          match satisfiedWithCache (visitPermissionLevelWeight db levels) authority c
              (cache.insert value.permission .beingEvaluated) with
          | .error e => .error e
          | .ok (true, c, cache) =>
            .ok (value.weight, c, cache.insert value.permission .permissionSatisfied)
          | .ok (false, c, cache) =>
            .ok (0, c, cache.insert value.permission .permissionUnsatisfied)

/-- Every question starts from a cache of its own. -/
def satisfied (c : AuthorityChecker) (db : Permissions ε) (a : Authority) (recursionDepth : Nat) :
    Except ε (Bool × AuthorityChecker) :=
  match satisfiedWithCache (visitPermissionLevelWeight db (c.recursionDepthLimit - recursionDepth))
      a c (PermissionCache.initial c.given.permissions) with
  | .error e => .error e
  | .ok (verdict, after, _) => .ok (verdict, after)

def satisfiedWithDelay (c : AuthorityChecker) (db : Permissions ε) (a : Authority)
    (recursionDepth : Nat) (delay : Int) : Except ε (Bool × AuthorityChecker) :=
  match satisfied { c with given := { c.given with delay := delay } } db a recursionDepth with
  | .error e => .error e
  | .ok (verdict, after) =>
    .ok (verdict, { after with given := { after.given with delay := c.given.delay } })

section Soundness

variable {db : Permissions ε} {given : Provided}

/-- What is remembered as satisfied is granted. -/
def CacheSound (db : Permissions ε) (given : Provided) (cache : PermissionCache) : Prop :=
  ∀ level, cache level = some .permissionSatisfied →
    PermissionLevel.Granted .chain db given level

theorem cacheSound_initial :
    CacheSound db given (PermissionCache.initial given.permissions) := by
  intro level known
  unfold PermissionCache.initial at known
  split at known
  · next provided => exact .provided provided
  · cases known

variable {cache : PermissionCache} {visit : Visit ε} {after : AuthorityChecker}
  {later : PermissionCache} {c : AuthorityChecker}

theorem CacheSound.insert (sound : CacheSound db given cache) {level : PermissionLevel}
    {status : PermissionCacheStatus}
    (granted : status = .permissionSatisfied → PermissionLevel.Granted .chain db given level) :
    CacheSound db given (cache.insert level status) := by
  intro other known
  unfold PermissionCache.insert at known
  by_cases same : other = level
  · subst same
    rw [Function.update_self] at known
    exact granted (Option.some.inj known)
  · rw [Function.update_of_ne same] at known
    exact sound other known

theorem CacheSound.counts (sound : CacheSound db given cache) {value : PermissionLevelWeight}
    (known : cache.status value.permission = some .permissionSatisfied) :
    AuthorityFactor.Counts .chain db given (.permission value) := by
  unfold PermissionCache.status at known
  cases own : cache value.permission with
  | some status =>
    rw [own] at known
    exact .permission (.inl rfl) (sound _ (own.trans known))
  | none =>
    rw [own] at known
    exact .permission (.inr rfl) (sound _ known)

/-- What an evaluation leaves behind: only the used keys of the checker may differ, and
the cache stays sound. -/
structure Leaves (db : Permissions ε) (c after : AuthorityChecker) (cache : PermissionCache) :
    Prop where
  given : after.given = c.given
  cache : CacheSound db c.given cache

/-- An evaluation adds the weight of an entry only if the entry counts. -/
def VisitSound (db : Permissions ε) (visit : Visit ε) : Prop :=
  ∀ value c cache weight after later, CacheSound db c.given cache →
    visit value c cache = .ok (weight, after, later) → Leaves db c after later ∧
      (weight = 0 ∨ weight = value.weight ∧
        AuthorityFactor.Counts .chain db c.given (.permission value))

theorem visitFactor_sound (sound : VisitSound db visit) (cached : CacheSound db c.given cache)
    {f : AuthorityFactor} {weight : UInt16}
    (ran : visitFactor visit c cache f = .ok (weight, after, later)) : Leaves db c after later ∧
      (weight = 0 ∨ weight = f.weight ∧ AuthorityFactor.Counts .chain db c.given f) := by
  cases f with
  | permission value => exact sound value c cache weight after later cached ran
  | key value =>
    cases ran
    unfold visitKeyWeight
    split
    · next provided => exact ⟨⟨rfl, cached⟩, .inr ⟨rfl, .key provided⟩⟩
    · exact ⟨⟨rfl, cached⟩, .inl rfl⟩
  | wait value =>
    cases ran
    unfold visitWaitWeight
    split
    · next elapsed => exact ⟨⟨rfl, cached⟩, .inr ⟨rfl, .wait elapsed⟩⟩
    · exact ⟨⟨rfl, cached⟩, .inl rfl⟩

theorem toNat_add_weight_le (total : UInt32) (weight : UInt16) :
    (total + weight.toUInt32).toNat ≤ total.toNat + weight.toNat := by
  rw [UInt32.toNat_add, UInt16.toNat_toUInt32]
  exact Nat.mod_le _ _

theorem visitFactors_sound (sound : VisitSound db visit) {threshold : UInt32}
    {fs : List AuthorityFactor} {total : UInt32} {verdict : Bool}
    (cached : CacheSound db c.given cache)
    (ran : visitFactors visit threshold fs total c cache = .ok (verdict, after, later)) :
    Leaves db c after later ∧ (verdict = true → ∃ chosen : List AuthorityFactor,
      chosen.Sublist fs ∧ (∀ f ∈ chosen, AuthorityFactor.Counts .chain db c.given f) ∧
      threshold.toNat ≤ total.toNat + (chosen.map fun f => f.weight.toNat).sum) := by
  induction fs generalizing total c cache with
  | nil =>
    cases ran
    exact ⟨⟨rfl, cached⟩, fun yes => by cases yes⟩
  | cons f rest ih =>
    unfold visitFactors at ran
    cases step : visitFactor visit c cache f with
    | error e =>
      rw [step] at ran
      cases ran
    | ok result =>
      obtain ⟨weight, next, between⟩ := result
      rw [step] at ran
      dsimp only at ran
      obtain ⟨leaves, counted⟩ := visitFactor_sound sound cached step
      have sum := toNat_add_weight_le total weight
      -- an entry that adds nothing is not chosen
      have extend : ∀ chosen : List AuthorityFactor, chosen.Sublist rest →
          (∀ g ∈ chosen, AuthorityFactor.Counts .chain db c.given g) →
          threshold.toNat ≤ (total + weight.toUInt32).toNat +
            (chosen.map fun g => g.weight.toNat).sum →
          ∃ more : List AuthorityFactor, more.Sublist (f :: rest) ∧
            (∀ g ∈ more, AuthorityFactor.Counts .chain db c.given g) ∧
            threshold.toNat ≤ total.toNat + (more.map fun g => g.weight.toNat).sum := by
        intro chosen part counts enough
        rcases counted with zero | ⟨own, here⟩
        · refine ⟨chosen, part.cons f, counts, ?_⟩
          rw [zero] at enough sum
          change _ ≤ total.toNat + 0 at sum
          omega
        · refine ⟨f :: chosen, part.cons_cons f, ?_, ?_⟩
          · intro g member
            rcases List.mem_cons.mp member with rfl | member
            · exact here
            · exact counts g member
          · rw [own] at enough sum
            rw [List.map_cons, List.sum_cons]
            omega
      split_ifs at ran with reached
      · cases ran
        refine ⟨leaves, fun _ => extend [] (List.nil_sublist _) (fun _ member => by cases member) ?_⟩
        exact UInt32.le_iff_toNat_le.mp reached
      · obtain ⟨last, rest⟩ := ih (by rw [leaves.given]; exact leaves.cache) ran
        rw [leaves.given] at rest
        refine ⟨⟨last.given.trans leaves.given, ?_⟩, ?_⟩
        · rw [← leaves.given]
          exact last.cache
        · intro yes
          obtain ⟨chosen, part, counts, enough⟩ := rest yes
          exact extend chosen part counts enough

theorem satisfiedWithCache_sound (sound : VisitSound db visit) {a : Authority} {verdict : Bool}
    (cached : CacheSound db c.given cache)
    (ran : satisfiedWithCache visit a c cache = .ok (verdict, after, later)) :
    Leaves db c after later ∧ (verdict = true → Authority.Holds .chain db c.given a) := by
  unfold satisfiedWithCache at ran
  cases outcome : visitFactors visit a.threshold a.factors 0 c cache with
  | error e =>
    rw [outcome] at ran
    cases ran
  | ok result =>
    obtain ⟨reached, last, known⟩ := result
    obtain ⟨leaves, chooses⟩ := visitFactors_sound sound cached outcome
    rw [outcome] at ran
    cases reached with
    | false =>
      cases ran
      exact ⟨⟨leaves.given, leaves.cache⟩, fun yes => by cases yes⟩
    | true =>
      cases ran
      refine ⟨leaves, fun _ => ?_⟩
      obtain ⟨chosen, part, counts, enough⟩ := chooses rfl
      have listed : chosen.Subperm a.listed := part.subperm.trans a.factors_perm.subperm
      refine .intro chosen listed counts ?_ (by simpa using enough)
      intro valid
      obtain ⟨same, perm, sub⟩ := listed
      have keys := sub.filterMap AuthorityFactor.key?
      rw [a.filterMap_key_listed] at keys
      exact (perm.filterMap _).nodup_iff.mp ((Authority.keys_nodup valid).sublist keys)

theorem visit_known {value : PermissionLevelWeight} {status : PermissionCacheStatus}
    (known : cache.status value.permission = some status) (levels : Nat) (c : AuthorityChecker) :
    visitPermissionLevelWeight db levels value c cache =
      .ok (if status = .permissionSatisfied then value.weight else 0, c, cache) := by
  unfold visitPermissionLevelWeight
  rw [known]
  cases status <;> rfl

/-- Neither the depth limit nor the marks make an evaluation unsound. -/
theorem visitPermissionLevelWeight_sound (db : Permissions ε) (levels : Nat) :
    VisitSound db (visitPermissionLevelWeight db levels) := by
  intro value c cache weight after later cached ran
  cases known : cache.status value.permission with
  | some status =>
    rw [visit_known known] at ran
    cases ran
    refine ⟨⟨rfl, cached⟩, ?_⟩
    split
    · next satisfied => exact .inr ⟨rfl, cached.counts (satisfied ▸ known)⟩
    · exact .inl rfl
  | none =>
    cases levels with
    | zero =>
      unfold visitPermissionLevelWeight at ran
      rw [known] at ran
      cases ran
      exact ⟨⟨rfl, cached⟩, .inl rfl⟩
    | succ levels =>
      have ih := visitPermissionLevelWeight_sound db levels
      unfold visitPermissionLevelWeight at ran
      rw [known] at ran
      dsimp only at ran
      have marked : CacheSound db c.given (cache.insert value.permission .beingEvaluated) :=
        cached.insert fun impossible => by cases impossible
      split at ran
      · cases ran
      · cases ran
        exact ⟨⟨rfl, cached⟩, .inl rfl⟩
      · next authority stored =>
        split at ran
        · cases ran
        · next next between outcome =>
          cases ran
          obtain ⟨leaves, holds⟩ := satisfiedWithCache_sound ih marked outcome
          have granted : PermissionLevel.Granted .chain db c.given value.permission :=
            .derived stored (holds rfl)
          exact ⟨⟨leaves.given, leaves.cache.insert fun _ => granted⟩,
            .inr ⟨rfl, .permission (.inl rfl) granted⟩⟩
        · next next between outcome =>
          cases ran
          obtain ⟨leaves, _⟩ := satisfiedWithCache_sound ih marked outcome
          exact ⟨⟨leaves.given, leaves.cache.insert fun impossible => by cases impossible⟩,
            .inl rfl⟩

theorem satisfied_holds {a : Authority} {recursionDepth : Nat}
    (ran : c.satisfied db a recursionDepth = .ok (true, after)) :
    after.given = c.given ∧ Authority.Holds .chain db c.given a := by
  unfold satisfied at ran
  split at ran
  · cases ran
  · next verdict last known outcome =>
    cases ran
    obtain ⟨leaves, holds⟩ := satisfiedWithCache_sound
      (visitPermissionLevelWeight_sound db _) cacheSound_initial outcome
    exact ⟨leaves.given, holds rfl⟩

theorem holds_newFromPermissionLevel {reading : Reading} {level : PermissionLevel}
    (holds : Authority.Holds reading db given (.newFromPermissionLevel level)) :
    ∃ by', reading.StandsFor by' level ∧ PermissionLevel.Granted reading db given by' := by
  obtain ⟨chosen, listed, counts, _, enough⟩ := holds
  cases chosen with
  | nil =>
    change 1 ≤ 0 at enough
    exact absurd enough (by decide)
  | cons f rest =>
    have only : f = .permission ⟨level, 1⟩ := List.mem_singleton.mp (listed.subset (List.mem_cons_self ..))
    have here := counts f (List.mem_cons_self ..)
    rw [only] at here
    cases here with
    | permission stands granted => exact ⟨_, stands, granted⟩

/-- Whatever the checker says is satisfied can be derived from what was provided. -/
theorem satisfied_sound (c : AuthorityChecker) (db : Permissions ε) (recursionDepth : Nat) :
    (∀ a after, c.satisfied db a recursionDepth = .ok (true, after) →
      Authority.Holds .chain db c.given a) ∧
    (∀ a after delay, c.satisfiedWithDelay db a recursionDepth delay = .ok (true, after) →
      Authority.Holds .chain db { c.given with delay := delay } a) ∧
    ∀ level after,
      c.satisfied db (.newFromPermissionLevel level) recursionDepth = .ok (true, after) →
        ∃ by', Reading.chain.StandsFor by' level ∧ PermissionLevel.Granted .chain db c.given by' := by
  refine ⟨fun a after ran => (satisfied_holds ran).2, ?_, ?_⟩
  · intro a after delay ran
    unfold satisfiedWithDelay at ran
    split at ran
    · cases ran
    · next verdict last outcome =>
      cases ran
      exact (satisfied_holds outcome).2
  · intro level after ran
    exact holds_newFromPermissionLevel (satisfied_holds ran).2

/-- Two levels that refer to each other; the second one also has a key. -/
def ring : Permissions Unit
  | ⟨1, 1⟩ => .ok (some ⟨1, [], [⟨⟨2, 1⟩, 1⟩], []⟩)
  | ⟨2, 1⟩ => .ok (some ⟨2, [⟨.k1 [7], 1⟩], [⟨⟨1, 1⟩, 1⟩], [⟨60, 1⟩]⟩)
  | _ => .ok none

theorem satisfied_sound_ring : ∃ by', Reading.chain.StandsFor by' ⟨1, 1⟩ ∧
    PermissionLevel.Granted .chain ring ⟨{.k1 [7]}, ∅, 60000000⟩ by' := by
  have yes : ((new 6 ⟨{.k1 [7]}, ∅, 60000000⟩).satisfied ring
      (.newFromPermissionLevel ⟨1, 1⟩) 0).map Prod.fst = .ok true := by
    decide +kernel
  cases ran : (new 6 ⟨{.k1 [7]}, ∅, 60000000⟩).satisfied ring (.newFromPermissionLevel ⟨1, 1⟩) 0 with
  | error e =>
    rw [ran] at yes
    cases yes
  | ok result =>
    obtain ⟨verdict, after⟩ := result
    rw [ran] at yes
    cases yes
    exact (satisfied_sound (new 6 ⟨{.k1 [7]}, ∅, 60000000⟩) ring 0).2.2 ⟨1, 1⟩ after ran

/-- Nothing but a level of its own name grants a level in the literal reading. -/
theorem not_literal_of_wildcard : ¬Authority.Holds .literal (fun _ => .ok none : Permissions Unit)
    ⟨∅, {⟨5, 0⟩}, 0⟩ (.newFromPermissionLevel ⟨5, 7⟩) := by
  intro holds
  obtain ⟨_, stands, granted⟩ := holds_newFromPermissionLevel holds
  cases stands
  cases granted with
  | provided provided => exact absurd provided (by decide)
  | derived stored _ => cases stored

/-- A key counts once in the literal reading. -/
theorem not_literal_of_twice : ¬Authority.Holds .literal (fun _ => .ok none : Permissions Unit)
    ⟨{.k1 [7]}, ∅, 0⟩ ⟨2, [⟨.k1 [7], 1⟩, ⟨.k1 [7], 1⟩], [], []⟩ := by
  intro ⟨chosen, listed, _, once, enough⟩
  have same : chosen = List.replicate chosen.length (.key ⟨.k1 [7], 1⟩) := by
    apply List.eq_replicate_of_mem
    intro f member
    have inside := listed.subset member
    simpa [Authority.listed] using inside
  have distinct := once trivial
  rw [same, List.filterMap_replicate_of_some (show AuthorityFactor.key?
    (.key ⟨.k1 [7], 1⟩) = some (.k1 [7]) from rfl)] at distinct
  have single := List.nodup_replicate.mp distinct
  rw [same, List.map_replicate, List.sum_replicate] at enough
  change 2 ≤ chosen.length * 1 at enough
  omega

/-- Read literally, the checker accepts more: a provided level with the empty name stands
for every level of its actor, and a key that an authority lists twice counts twice. -/
theorem satisfied_beyond_literal :
    (((new 6 ⟨∅, {⟨5, 0⟩}, 0⟩).satisfied (fun _ => .ok none : Permissions Unit)
        (.newFromPermissionLevel ⟨5, 7⟩) 0).map Prod.fst = .ok true ∧
      ¬Authority.Holds .literal (fun _ => .ok none : Permissions Unit) ⟨∅, {⟨5, 0⟩}, 0⟩
        (.newFromPermissionLevel ⟨5, 7⟩)) ∧
    ((new 6 ⟨{.k1 [7]}, ∅, 0⟩).satisfied (fun _ => .ok none : Permissions Unit)
        ⟨2, [⟨.k1 [7], 1⟩, ⟨.k1 [7], 1⟩], [], []⟩ 0).map Prod.fst = .ok true ∧
      ¬Authority.Holds .literal (fun _ => .ok none : Permissions Unit) ⟨{.k1 [7]}, ∅, 0⟩
        ⟨2, [⟨.k1 [7], 1⟩, ⟨.k1 [7], 1⟩], [], []⟩ :=
  ⟨⟨by decide +kernel, not_literal_of_wildcard⟩, by decide +kernel, not_literal_of_twice⟩

end Soundness

end AuthorityChecker

end PulseVM.Chain
