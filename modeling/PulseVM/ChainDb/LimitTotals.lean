import PulseVM.ChainDb.Resources

/-!
The stored totals of RAM, NET and CPU are kept incrementally: a pending change is folded
into them by taking the old limit out and putting the new one in. They are the sums of the
committed limits as long as these sums are 64-bit numbers.
-/

namespace PulseVM.ChainDb
open Lib Lib.Calls ResourceCall
open List ResourceLimitsRow Keyed

inductive Resource where
  | ram
  | net
  | cpu
  deriving DecidableEq, Repr

instance : Fintype Resource := ⟨{.ram, .net, .cpu}, by rintro (_ | _ | _) <;> decide⟩

def ResourceLimitsRow.limit (row : ResourceLimitsRow) : Resource → Int64
  | .ram => row.ramBytes
  | .net => row.netWeight
  | .cpu => row.cpuWeight

def ResourceStateRow.total (state : ResourceStateRow) : Resource → UInt64
  | .ram => state.totalRamBytes
  | .net => state.totalNetWeight
  | .cpu => state.totalCpuWeight

/-- What a limit adds to a total; a negative one is no limit and adds nothing. -/
def counted (limit : Int64) : Nat := limit.toInt.toNat

/-- Neither the subtraction nor the addition leaves the 64-bit numbers. -/
def UpdateFits (total : UInt64) (old new : Int64) : Prop :=
  (0 < old → old.toUInt64 ≤ total) ∧
    (0 < new → (if 0 < old then total - old.toUInt64 else total).toNat + new.toUInt64.toNat < 2 ^ 64)

section Arithmetic

variable {total : UInt64} {old new : Int64}

theorem toNat_toUInt64 {limit : Int64} (pos : 0 < limit) : limit.toUInt64.toNat = counted limit := by
  have sign : 0 < limit.toInt := Int64.lt_iff_toInt_lt.mp pos
  have bits : limit.toUInt64.toNat = limit.toBitVec.toNat := rfl
  have value : limit.toInt = limit.toBitVec.toInt := rfl
  rw [BitVec.toInt_eq_toNat_cond] at value
  unfold counted
  split at value <;> omega

theorem counted_of_not_pos {limit : Int64} (neg : ¬0 < limit) : counted limit = 0 := by
  have sign : ¬0 < limit.toInt := fun pos => neg (Int64.lt_iff_toInt_lt.mpr pos)
  unfold counted
  omega

theorem toNat_reverted (held : counted old ≤ total.toNat) :
    (if 0 < old then total - old.toUInt64 else total).toNat = total.toNat - counted old := by
  by_cases pos : 0 < old
  · have amount := toNat_toUInt64 pos
    rw [if_pos pos, UInt64.toNat_sub_of_le, amount]
    exact UInt64.le_iff_toNat_le.mpr (by omega)
  · rw [if_neg pos, counted_of_not_pos pos, Nat.sub_zero]

theorem updateFits_iff (held : counted old ≤ total.toNat) :
    UpdateFits total old new ↔ total.toNat - counted old + counted new < 2 ^ 64 := by
  have below := total.toNat_lt
  unfold UpdateFits
  rw [toNat_reverted held]
  constructor
  · rintro ⟨-, fits⟩
    by_cases pos : 0 < new
    · rw [← toNat_toUInt64 pos]
      exact fits pos
    · rw [counted_of_not_pos pos]
      omega
  · intro fits
    constructor
    · intro pos
      rw [UInt64.le_iff_toNat_le, toNat_toUInt64 pos]
      exact held
    · intro pos
      rw [toNat_toUInt64 pos]
      exact fits

theorem toNat_updateTotal (held : counted old ≤ total.toNat)
    (fits : total.toNat - counted old + counted new < 2 ^ 64) :
    (updateTotal total old new).toNat = total.toNat - counted old + counted new := by
  have reverted := toNat_reverted held
  unfold updateTotal
  by_cases pos : 0 < new
  · have amount := toNat_toUInt64 pos
    rw [if_pos pos, UInt64.toNat_add, reverted, amount, Nat.mod_eq_of_lt fits]
  · rw [if_neg pos, reverted, counted_of_not_pos pos, Nat.add_zero]

end Arithmetic

namespace ResourceDb

def committed (db : ResourceDb) (r : Resource) : Nat :=
  db.limits.sum fun row => if row.pending = 0 then counted (row.limit r) else 0

/-- The stored totals are the sums of the committed limits. -/
def TotalsMatch (db : ResourceDb) : Prop :=
  ∃ state ∈ db.state, ∀ r, (state.total r).toNat = db.committed r

instance (db : ResourceDb) : Decidable db.TotalsMatch :=
  inferInstanceAs (Decidable (∃ state ∈ db.state, ∀ r, (state.total r).toNat = db.committed r))

/-- No update of a total leaves the 64-bit numbers while a pending row is folded in. -/
def FoldFits (db : ResourceDb) (pending : ResourceLimitsRow) : Prop :=
  ∀ state ∈ db.state, ∀ actual ∈ db.limits.find (0, pending.owner),
    ∀ r, UpdateFits (state.total r) (actual.limit r) (pending.limit r)

/-- Limits are committed or pending, and a pending one changes a committed one. -/
structure Staged (db : ResourceDb) : Prop where
  kind : ∀ k, db.limits.find k ≠ none → k.1 = 0 ∨ k.1 = 1
  base : ∀ account, db.limits.find (1, account) ≠ none → db.limits.find (0, account) ≠ none

section Fold

variable {db : ResourceDb} {pending actual : ResourceLimitsRow}

theorem foldPending_eq (known : db.limits.find (0, pending.owner) = some actual) :
    db.foldPending pending =
      { db with
        limits := (db.limits.modify (0, pending.owner)
          (·.withLimits pending.ramBytes pending.netWeight pending.cpuWeight)
          (·.byOwner_withLimits pending.ramBytes pending.netWeight pending.cpuWeight)).erase
            (1, pending.owner)
        state := db.state.map fun state => updateTotals state actual pending } := by
  unfold foldPending
  rw [known]

theorem find_foldPending (known : db.limits.find (0, pending.owner) = some actual)
    (k : UInt8 × UInt64) :
    (db.foldPending pending).limits.find k =
      if k = (1, pending.owner) then none
      else if k = (0, pending.owner) then
        some (actual.withLimits pending.ramBytes pending.netWeight pending.cpuWeight)
      else db.limits.find k := by
  rw [foldPending_eq known, find_erase, find_modify]
  by_cases here : k = (0, pending.owner)
  · simp [here, known]
  · simp [here]

theorem total_updateTotals (state : ResourceStateRow) (actual pending : ResourceLimitsRow)
    (r : Resource) : (updateTotals state actual pending).total r =
      updateTotal (state.total r) (actual.limit r) (pending.limit r) := by
  cases r <;> rfl

theorem committed_foldPending (known : db.limits.find (0, pending.owner) = some actual)
    (staged : db.limits.find (1, pending.owner) = some pending) (r : Resource) :
    (db.foldPending pending).committed r + counted (actual.limit r) =
      db.committed r + counted (pending.limit r) := by
  have committedRow : actual.pending = 0 := congrArg Prod.fst (key_of_find known)
  have pendingRow : pending.pending = 1 := congrArg Prod.fst (key_of_find staged)
  let weight (row : ResourceLimitsRow) : Nat := if row.pending = 0 then counted (row.limit r) else 0
  have exchanged := sum_modify known
    (·.withLimits pending.ramBytes pending.netWeight pending.cpuWeight)
    (·.byOwner_withLimits pending.ramBytes pending.netWeight pending.cpuWeight) weight
  have stays : (db.limits.modify (0, pending.owner)
      (·.withLimits pending.ramBytes pending.netWeight pending.cpuWeight)
      (·.byOwner_withLimits pending.ramBytes pending.netWeight pending.cpuWeight)).find
        (1, pending.owner) = some pending := by
    rw [find_modify]
    simp [staged]
  have dropped := sum_erase stays weight
  have newWeight : weight (actual.withLimits pending.ramBytes pending.netWeight pending.cpuWeight) =
      counted (pending.limit r) := by
    cases r <;> simp [weight, withLimits, committedRow, limit]
  have oldWeight : weight actual = counted (actual.limit r) := if_pos committedRow
  have noWeight : weight pending = 0 := if_neg (by simp [pendingRow])
  rw [foldPending_eq known]
  change Keyed.sum _ weight + _ = db.limits.sum weight + _
  dsimp only
  omega

theorem counted_le_committed (known : db.limits.find (0, pending.owner) = some actual)
    (r : Resource) : counted (actual.limit r) ≤ db.committed r := by
  have committedRow : actual.pending = 0 := congrArg Prod.fst (key_of_find known)
  have dropped := sum_erase known
    fun row => if row.pending = 0 then counted (row.limit r) else 0
  rw [if_pos committedRow] at dropped
  unfold committed
  omega

/-- One change is folded in without overflow exactly if the sums with it are 64-bit numbers. -/
theorem foldFits_iff (totals : db.TotalsMatch)
    (known : db.limits.find (0, pending.owner) = some actual)
    (staged : db.limits.find (1, pending.owner) = some pending) :
    db.FoldFits pending ↔ ∀ r, (db.foldPending pending).committed r < 2 ^ 64 := by
  obtain ⟨state, present, sums⟩ := totals
  have step (r : Resource) : UpdateFits (state.total r) (actual.limit r) (pending.limit r) ↔
      (db.foldPending pending).committed r < 2 ^ 64 := by
    have held := counted_le_committed known r
    have exchanged := committed_foldPending known staged r
    rw [updateFits_iff (by rw [sums]; exact held), sums]
    have result : db.committed r - counted (actual.limit r) + counted (pending.limit r) =
        (db.foldPending pending).committed r := by omega
    rw [result]
  constructor
  · exact fun fits r => (step r).mp (fits state present actual known r)
  · rintro fits other found row rowFound r
    obtain rfl := Option.some.inj (present.symm.trans found)
    obtain rfl := Option.some.inj (known.symm.trans rowFound)
    exact (step r).mpr (fits r)

theorem totalsMatch_foldPending (totals : db.TotalsMatch)
    (known : db.limits.find (0, pending.owner) = some actual)
    (staged : db.limits.find (1, pending.owner) = some pending)
    (fits : ∀ r, (db.foldPending pending).committed r < 2 ^ 64) :
    (db.foldPending pending).TotalsMatch := by
  obtain ⟨state, present, sums⟩ := totals
  refine ⟨updateTotals state actual pending, ?_, ?_⟩
  · rw [foldPending_eq known, Option.mem_def]
    rw [Option.mem_def.mp present, Option.map_some]
  · intro r
    have held := counted_le_committed known r
    have exchanged := committed_foldPending known staged r
    have small := fits r
    rw [total_updateTotals, toNat_updateTotal (by rw [sums]; exact held) (by rw [sums]; omega), sums]
    omega

theorem staged_foldPending (staged : db.Staged)
    (known : db.limits.find (0, pending.owner) = some actual) : (db.foldPending pending).Staged where
  kind k := by
    rw [find_foldPending known]
    split
    · exact fun other => absurd rfl other
    · split
      · next here => exact fun _ => .inl (by rw [here])
      · exact staged.kind k
  base account := by
    rw [find_foldPending known, find_foldPending known]
    split
    · exact fun other => absurd rfl other
    · next other =>
      have apart : account ≠ pending.owner := fun same => other (by rw [same])
      simpa [apart] using staged.base account

end Fold

section Process

variable {db : ResourceDb} {pending : ResourceLimitsRow} {rest : List ResourceLimitsRow}

/-- Pending rows that still stand in the table, at most one for an account. -/
structure Waiting (db : ResourceDb) (rest : List ResourceLimitsRow) : Prop where
  owners : (rest.map owner).Nodup
  found : ∀ row ∈ rest, db.limits.find (1, row.owner) = some row

theorem Waiting.tail (waiting : db.Waiting (pending :: rest)) {actual : ResourceLimitsRow}
    (known : db.limits.find (0, pending.owner) = some actual) :
    (db.foldPending pending).Waiting rest where
  owners := (nodup_cons.mp waiting.owners).2
  found row member := by
    have apart : row.owner ≠ pending.owner := by
      intro same
      apply (nodup_cons.mp waiting.owners).1
      rw [← same]
      exact mem_map_of_mem member
    rw [find_foldPending known]
    simpa [apart] using waiting.found row (mem_cons_of_mem _ member)

theorem Waiting.known (waiting : db.Waiting (pending :: rest)) (staged : db.Staged) :
    ∃ actual, db.limits.find (0, pending.owner) = some actual := by
  have here := waiting.found pending mem_cons_self
  exact Option.ne_none_iff_exists'.mp (staged.base _ (by simp [here]))

/-- The sums after one change is folded in are 64-bit numbers. -/
def SumsFitFold (db : ResourceDb) (pending : ResourceLimitsRow) : Prop :=
  ∀ r, (db.foldPending pending).committed r < 2 ^ 64

theorem along_foldFits_iff (staged : db.Staged) (totals : db.TotalsMatch)
    (waiting : db.Waiting rest) :
    Along foldPending FoldFits db rest ↔ Along foldPending SumsFitFold db rest := by
  induction rest generalizing db with
  | nil => exact Iff.rfl
  | cons pending rest ih =>
    obtain ⟨actual, known⟩ := waiting.known staged
    have here := waiting.found pending mem_cons_self
    have step := foldFits_iff totals known here
    constructor
    · intro along
      have fits := step.mp along.1
      have later := totalsMatch_foldPending totals known here fits
      exact ⟨fits, (ih (staged_foldPending staged known) later (waiting.tail known)).mp along.2⟩
    · intro along
      have later := totalsMatch_foldPending totals known here along.1
      exact ⟨step.mpr along.1,
        (ih (staged_foldPending staged known) later (waiting.tail known)).mpr along.2⟩

theorem foldl_foldPending (staged : db.Staged) (waiting : db.Waiting rest) :
    (rest.foldl foldPending db).Staged ∧
    (∀ account, (rest.foldl foldPending db).limits.find (1, account) =
      if account ∈ rest.map owner then none else db.limits.find (1, account)) ∧
    (db.TotalsMatch → Along foldPending SumsFitFold db rest →
      (rest.foldl foldPending db).TotalsMatch) := by
  induction rest generalizing db with
  | nil => exact ⟨staged, fun _ => by simp, fun totals _ => totals⟩
  | cons pending rest ih =>
    obtain ⟨actual, known⟩ := waiting.known staged
    obtain ⟨later, gone, follow⟩ := ih (staged_foldPending staged known) (waiting.tail known)
    refine ⟨later, ?_, ?_⟩
    · intro account
      rw [foldl_cons, gone, find_foldPending known]
      by_cases here : account = pending.owner
      · simp [here]
      · simp [here]
    · intro totals along
      have first := totalsMatch_foldPending totals known
        (waiting.found pending mem_cons_self) along.1
      exact follow first along.2

theorem mem_pendings {row : ResourceLimitsRow} :
    row ∈ db.pendings ↔ row ∈ db.limits.rows ∧ row.pending = 1 := by
  unfold pendings
  rw [(perm_insertionSort _ _).mem_iff, mem_filter, decide_eq_true_eq]

theorem waiting_pendings (db : ResourceDb) : db.Waiting db.pendings where
  owners := by
    have keys : (db.pendings.map byOwner).Nodup := by
      unfold pendings
      rw [((perm_insertionSort _ _).map _).nodup_iff]
      exact db.limits.unique.sublist (filter_sublist.map _)
    have paired : db.pendings.map byOwner =
        (db.pendings.map owner).map fun owner => (1, owner) := by
      rw [map_map]
      apply map_congr_left
      intro row member
      exact Prod.ext (mem_pendings.mp member).2 rfl
    rw [paired] at keys
    exact keys.of_map _
  found row member := by
    obtain ⟨stored, waits⟩ := mem_pendings.mp member
    exact find_eq_some_iff.mpr ⟨stored, Prod.ext waits rfl⟩

theorem none_pending (staged : db.Staged) {row : ResourceLimitsRow}
    (member : row ∈ db.processAccountLimitUpdates.limits.rows) : row.pending = 0 := by
  obtain ⟨later, gone, -⟩ := foldl_foldPending staged db.waiting_pendings
  have found := find_of_mem member
  refine (later.kind row.byOwner (by simp [processAccountLimitUpdates, found] at found ⊢)).resolve_right ?_
  intro waits
  have here : db.processAccountLimitUpdates.limits.find (1, row.owner) = some row :=
    find_eq_some_iff.mpr ⟨member, Prod.ext waits rfl⟩
  unfold processAccountLimitUpdates at here
  rw [gone] at here
  split at here
  · cases here
  · next absent =>
    obtain ⟨stored, named⟩ := find_eq_some_iff.mp here
    exact absent (mem_map_of_mem (mem_pendings.mpr ⟨stored, waits⟩))

end Process

end ResourceDb

/-! Whole runs. -/

inductive LimitOp where
  | initializeAccountResourceLimits (owner : UInt64)
  | setAccountLimits (account : UInt64) (ramBytes netWeight cpuWeight : Int64)
  | processAccountLimitUpdates
  deriving DecidableEq, Repr

namespace ResourceDb

def applyLimitOp (db : ResourceDb) : LimitOp → ResourceDb
  | .initializeAccountResourceLimits owner => (initializeAccountResourceLimits owner db).2
  | .setAccountLimits account ramBytes netWeight cpuWeight =>
    (setAccountLimits account ramBytes netWeight cpuWeight db).2
  | .processAccountLimitUpdates => db.processAccountLimitUpdates

/-- Genesis: the state row, no accounts. -/
def genesis (config : ResourceConfig) (cpuMax netMax : UInt64) : ResourceDb :=
  (new config).initializeResourceState cpuMax netMax

/-- At the end of a block the totals are the sums, nothing is pending, and nothing
overflowed on the way. -/
def TotalsExact (db : ResourceDb) : LimitOp → Prop
  | .processAccountLimitUpdates =>
    Along foldPending FoldFits db db.pendings ∧ db.processAccountLimitUpdates.TotalsMatch ∧
      ∀ row ∈ db.processAccountLimitUpdates.limits.rows, row.pending = 0
  | _ => True

/-- After each change that is folded in, the committed limits sum up to 64-bit numbers. -/
def SumsFit (db : ResourceDb) : LimitOp → Prop
  | .processAccountLimitUpdates => Along foldPending SumsFitFold db db.pendings
  | _ => True

section Runs

variable {db : ResourceDb}

/-- What holds between calls. -/
structure Kept (db : ResourceDb) : Prop where
  staged : db.Staged
  totals : db.TotalsMatch

theorem kept_genesis (config : ResourceConfig) (cpuMax netMax : UInt64) :
    (genesis config cpuMax netMax).Kept where
  staged := ⟨fun k known => absurd rfl known, fun account known => absurd rfl known⟩
  totals := ⟨_, rfl, by rintro (_ | _ | _) <;> rfl⟩

theorem Kept.of_same {after : ResourceDb} (kept : db.Kept) (staged : after.Staged)
    (state : after.state = db.state) (sums : ∀ r, after.committed r = db.committed r) :
    after.Kept where
  staged := staged
  totals := by
    obtain ⟨row, present, totals⟩ := kept.totals
    exact ⟨row, state ▸ present, fun r => (totals r).trans (sums r).symm⟩

theorem Kept.created (kept : db.Kept) {make : Nat → ResourceLimitsRow}
    {limits : Keyed byOwner} (done : db.limits.insert make = some limits)
    (kind : (make db.limits.nextId).pending = 0 ∨
      (make db.limits.nextId).pending = 1 ∧
        db.limits.find (0, (make db.limits.nextId).owner) ≠ none)
    (weightless : ∀ r, (make db.limits.nextId).pending = 0 →
      counted ((make db.limits.nextId).limit r) = 0) : { db with limits := limits }.Kept := by
  apply kept.of_same
  · constructor
    · intro k
      rw [find_insert done]
      split
      · next here =>
        intro _
        rw [← here]
        exact kind.imp id And.left
      · exact kept.staged.kind k
    · intro account
      dsimp only
      rw [find_insert done, find_insert done]
      intro known
      by_cases zero : (make db.limits.nextId).byOwner = (0, account)
      · simp [zero]
      · rw [if_neg zero]
        by_cases one : (make db.limits.nextId).byOwner = (1, account)
        · have pending : (make db.limits.nextId).pending = 1 := congrArg Prod.fst one
          have owner : (make db.limits.nextId).owner = account := congrArg Prod.snd one
          rw [← owner]
          exact (kind.resolve_left (by simp [pending])).2
        · rw [if_neg one] at known
          exact kept.staged.base account known
  · rfl
  · intro r
    unfold committed
    rw [sum_insert done]
    split
    · next zero => rw [weightless r zero, Nat.add_zero]
    · rfl

theorem Kept.initialize (kept : db.Kept) (owner : UInt64) :
    (initializeAccountResourceLimits owner db).2.Kept := by
  have first : (createUsage (fun id => ⟨id, owner, 0, .zero, .zero⟩) db).2.Kept := by
    unfold createUsage
    split
    · exact kept.of_same ⟨kept.staged.kind, kept.staged.base⟩ rfl fun _ => rfl
    · exact kept
  apply Call.bind_after
  · exact fun _ _ => first
  · intro _ _
    unfold createLimits
    split
    · next done =>
      have unlimited : counted (-1) = 0 := by decide
      exact first.created done (.inl rfl) (by rintro (_ | _ | _) _ <;> exact unlimited)
    · exact first

theorem Kept.modifyPending (kept : db.Kept) (account : UInt64)
    (ramBytes netWeight cpuWeight : Int64) :
    (modifyLimits 1 account ramBytes netWeight cpuWeight db).2.Kept := by
  unfold modifyLimits
  have keys (k : UInt8 × UInt64) : ((db.limits.modify (1, account)
      (·.withLimits ramBytes netWeight cpuWeight)
      (·.byOwner_withLimits ramBytes netWeight cpuWeight)).find k ≠ none) ↔
        db.limits.find k ≠ none := by
    rw [find_modify]
    split <;> simp
  apply kept.of_same
  · constructor
    · exact fun k known => kept.staged.kind k ((keys k).mp known)
    · exact fun owner known => (keys (0, owner)).mpr (kept.staged.base owner ((keys _).mp known))
  · rfl
  · intro r
    unfold committed Keyed.sum
    rw [Keyed.rows_modify, map_map]
    congr 1
    apply map_congr_left
    intro row _
    simp only [Function.comp_apply]
    split
    · next here =>
      have waits : row.pending = 1 := congrArg Prod.fst here
      simp [withLimits, waits]
    · rfl

theorem Kept.setAccountLimits (kept : db.Kept) (account : UInt64)
    (ramBytes netWeight cpuWeight : Int64) :
    (setAccountLimits account ramBytes netWeight cpuWeight db).2.Kept := by
  unfold ResourceCall.setAccountLimits
  rw [Call.read_bind]
  cases db.limits.find (1, account) with
  | some row => exact kept.modifyPending account ramBytes netWeight cpuWeight
  | none =>
    dsimp only
    rw [Call.read_bind]
    cases known : db.limits.find (0, account) with
    | none => exact kept
    | some actual =>
      have first : (createLimits (fun id =>
          ⟨id, account, actual.ramBytes, actual.netWeight, actual.cpuWeight, 1⟩) db).2.Kept := by
        unfold createLimits
        split
        · next done =>
          exact kept.created done (.inr ⟨rfl, by simp [known]⟩) fun r zero => by simp at zero
        · exact kept
      apply Call.bind_after
      · exact fun _ _ => first
      · exact fun _ _ => first.modifyPending account ramBytes netWeight cpuWeight

theorem totalsExact_iff (kept : db.Kept) (op : LimitOp) : db.TotalsExact op ↔ db.SumsFit op := by
  cases op with
  | initializeAccountResourceLimits owner => exact Iff.rfl
  | setAccountLimits account ramBytes netWeight cpuWeight => exact Iff.rfl
  | processAccountLimitUpdates =>
    have same := along_foldFits_iff kept.staged kept.totals db.waiting_pendings
    obtain ⟨-, -, follow⟩ := foldl_foldPending kept.staged db.waiting_pendings
    constructor
    · exact fun exact => same.mp exact.1
    · exact fun fits => ⟨same.mpr fits, follow kept.totals fits, fun _ => none_pending kept.staged⟩

theorem Kept.apply (kept : db.Kept) (op : LimitOp) (exact : db.TotalsExact op) :
    (db.applyLimitOp op).Kept := by
  cases op with
  | initializeAccountResourceLimits owner => exact kept.initialize owner
  | setAccountLimits account ramBytes netWeight cpuWeight =>
    exact kept.setAccountLimits account ramBytes netWeight cpuWeight
  | processAccountLimitUpdates =>
    exact ⟨(foldl_foldPending kept.staged db.waiting_pendings).1, exact.2.1⟩

end Runs

/-- In every run of limit changes from genesis, the totals are exact after every fold if
and only if the limits never sum up to more than a 64-bit number while they are folded. -/
theorem limitTotals_exact_iff (config : ResourceConfig) (cpuMax netMax : UInt64)
    (ops : List LimitOp) :
    Along applyLimitOp TotalsExact (genesis config cpuMax netMax) ops ↔
      Along applyLimitOp SumsFit (genesis config cpuMax netMax) ops :=
  Along.congr (fun _ op kept => totalsExact_iff kept op) (fun _ op kept exact => kept.apply op exact)
    (kept_genesis config cpuMax netMax)

def sampleConfig : ResourceConfig where
  id := 0
  cpuTarget := 200000
  cpuMax := 2000000
  cpuContractNum := 99
  cpuContractDen := 100
  cpuExpandNum := 1000
  cpuExpandDen := 999
  netTarget := 104857
  netMax := 1048576
  netContractNum := 99
  netContractDen := 100
  netExpandNum := 1000
  netExpandDen := 999
  cpuPeriods := 120
  cpuMaxMultiplier := 1000
  netPeriods := 120
  netMaxMultiplier := 1000
  accountCpuUsageAverageWindow := 172800
  accountNetUsageAverageWindow := 172800
  cpuWindowPos := by decide
  netWindowPos := by decide
  cpuPeriodsPos := by decide
  netPeriodsPos := by decide
  cpuRatios := by decide
  netRatios := by decide

/-- Three accounts that may use as much RAM as a limit can say. -/
def largeLimits : List LimitOp :=
  [.initializeAccountResourceLimits 1, .initializeAccountResourceLimits 2,
    .initializeAccountResourceLimits 3, .setAccountLimits 1 Int64.maxValue 0 0,
    .setAccountLimits 2 Int64.maxValue 0 0, .setAccountLimits 3 Int64.maxValue 0 0]

/-- The third limit wraps the total. -/
theorem largeLimits_not_exact :
    ¬Along applyLimitOp TotalsExact (genesis sampleConfig 2000000 1048576)
      (largeLimits ++ [.processAccountLimitUpdates]) := by
  intro along
  have totals := along.2.2.2.2.2.2.1.2.1
  revert totals
  decide +kernel

end ResourceDb

end PulseVM.ChainDb
