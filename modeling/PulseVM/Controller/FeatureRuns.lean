import PulseVM.Controller.Features

/-!
The feature tables over whole runs. The calls check everything before they write, and then
write row by row; a row that cannot be removed would leave the loop half way.
-/

namespace PulseVM.Controller
open Lib.Calls Lib.Codec

/-- Rows in the order of their ids, which are never given twice. -/
structure IdRows (α : Type) where
  rows : List (Nat × α)
  nextId : Nat
  below : ∀ row ∈ rows, row.1 < nextId
  distinct : rows.Pairwise (·.1 ≠ ·.1)

namespace IdRows

variable {α : Type} (t : IdRows α)

def empty : IdRows α := ⟨[], 0, by simp, .nil⟩

def values : List α := t.rows.map Prod.snd

def create (a : α) : IdRows α where
  rows := t.rows ++ [(t.nextId, a)]
  nextId := t.nextId + 1
  below row member := by
    rcases List.mem_append.mp member with old | new
    · exact (t.below row old).trans (Nat.lt_succ_self _)
    · rw [List.mem_singleton.mp new]
      exact Nat.lt_succ_self _
  distinct := List.pairwise_append.mpr ⟨t.distinct, List.pairwise_singleton _ _, by
    intro row old new member
    rw [List.mem_singleton.mp member]
    exact (t.below row old).ne⟩

def remove (id : Nat) : IdRows α where
  rows := t.rows.filter (·.1 ≠ id)
  nextId := t.nextId
  below row member := t.below row (List.mem_of_mem_filter member)
  distinct := t.distinct.filter _

end IdRows

structure FeatureDb where
  active : IdRows (Digest × UInt32)
  queued : IdRows Digest

namespace FeatureDb

def empty : FeatureDb := ⟨.empty, .empty⟩

def features (db : FeatureDb) : ProtocolFeatures := ⟨db.active.values, db.queued.values⟩

end FeatureDb

abbrev FeatureCall := Lib.Calls.Call ChainError FeatureDb

namespace FeatureCall

def removeQueued (id : Nat) : FeatureCall Unit := fun db =>
  if db.queued.rows.any (·.1 = id) then (.ok (), { db with queued := db.queued.remove id })
  else (.error (.blockError s!"protocol feature activation: Table(NotFound \x7b type_name: \"pulsevm_chaindb::PreactivatedProtocolFeatureRow\", id: {id} \x7d)"), db)

/-- Move one feature; the queue is the one that the call started with. -/
def activateRow (queued : List (Nat × Digest)) (activationBlockNum : UInt32) (digest : Digest) :
    FeatureCall Unit := do
  match queued.find? (·.2 = digest) with
  | some row => removeQueued row.1
  | none => pure ()
  fun db => (.ok (), { db with active := db.active.create (digest, activationBlockNum) })

def preactivate (digest : Digest) : FeatureCall Unit := fun db =>
  match db.features.preactivateProtocolFeature digest with
  | .error e => (.error e, db)
  | .ok _ => (.ok (), { db with queued := db.queued.create digest })

/-- The checks of both layers, and then the writes. -/
def activate (digests : List Digest) (activationBlockNum : UInt32) : FeatureCall Unit := fun db =>
  match db.features.activateProtocolFeatures digests activationBlockNum with
  | .error e => (.error e, db)
  | .ok _ => digests.forM (activateRow db.queued.rows activationBlockNum) db

/-! The loop of writes. -/

variable {rows : List (Nat × Digest)} {row : Nat × Digest} {digest : Digest}

/-- Of rows with different ids, one is taken away: the first with its digest. -/
theorem filter_ne_id (distinct : rows.Pairwise (·.1 ≠ ·.1))
    (found : rows.find? (·.2 = digest) = some row) :
    (rows.filter (·.1 ≠ row.1)).map Prod.snd = (rows.map Prod.snd).erase digest ∧
      ∀ other ≠ digest, (rows.filter (·.1 ≠ row.1)).find? (·.2 = other) =
        rows.find? (·.2 = other) := by
  induction rows with
  | nil => cases found
  | cons first rest ih =>
    obtain ⟨apart, distinct⟩ := List.pairwise_cons.mp distinct
    by_cases here : first.2 = digest
    · rw [List.find?_cons_of_pos (by simpa using here)] at found
      cases found
      have others : rest.filter (·.1 ≠ row.1) = rest :=
        List.filter_eq_self.mpr fun next member => by simpa using (apart next member).symm
      rw [List.filter_cons_of_neg (by simp), others, List.map_cons, here, List.erase_cons_head]
      refine ⟨rfl, fun other different => ?_⟩
      rw [List.find?_cons_of_neg (by simpa [here] using different.symm)]
    · rw [List.find?_cons_of_neg (by simpa using here)] at found
      obtain ⟨values, finds⟩ := ih distinct found
      have other := apart row (List.mem_of_find?_eq_some found)
      rw [List.filter_cons_of_pos (by simpa using other), List.map_cons, List.map_cons,
        List.erase_cons_tail (by simpa using here), values]
      refine ⟨rfl, fun other different => ?_⟩
      rw [List.find?_cons, List.find?_cons, finds other different]

theorem activateRow_ok {db : FeatureDb} (activationBlockNum : UInt32)
    (same : db.queued.rows.find? (·.2 = digest) = rows.find? (·.2 = digest)) :
    ∃ after, activateRow rows activationBlockNum digest db = (.ok (), after) ∧
      after.features = db.features.activateOne activationBlockNum digest ∧
      ∀ other ≠ digest, after.queued.rows.find? (·.2 = other) =
        db.queued.rows.find? (·.2 = other) := by
  unfold activateRow
  rw [← same]
  cases found : db.queued.rows.find? (·.2 = digest) with
  | none =>
    refine ⟨_, rfl, ?_, fun _ _ => rfl⟩
    have absent : digest ∉ db.queued.rows.map Prod.snd := by
      intro member
      obtain ⟨row, stored, rfl⟩ := List.mem_map.mp member
      simpa using List.find?_eq_none.mp found row stored
    simp [FeatureDb.features, ProtocolFeatures.activateOne, IdRows.values, IdRows.create,
      List.erase_of_not_mem absent]
  | some row =>
    obtain ⟨values, finds⟩ := filter_ne_id db.queued.distinct found
    have removed : removeQueued row.1 db = (.ok (), { db with queued := db.queued.remove row.1 }) :=
      if_pos (List.any_eq_true.mpr ⟨row, List.mem_of_find?_eq_some found, by simp⟩)
    refine ⟨_, Call.bind_ok removed _, ?_, finds⟩
    simp only [FeatureDb.features, ProtocolFeatures.activateOne, IdRows.values, IdRows.create,
      IdRows.remove, values, List.map_append, List.map_cons, List.map_nil]

theorem forM_activateRow {db : FeatureDb} {digests : List Digest} (nodup : digests.Nodup)
    (activationBlockNum : UInt32) (same : ∀ digest ∈ digests,
      db.queued.rows.find? (·.2 = digest) = rows.find? (·.2 = digest)) :
    ∃ after, digests.forM (activateRow rows activationBlockNum) db = (.ok (), after) ∧
      after.features = digests.foldl (·.activateOne activationBlockNum) db.features := by
  induction digests generalizing db with
  | nil => exact ⟨db, rfl, rfl⟩
  | cons digest rest ih =>
    obtain ⟨apart, nodup⟩ := List.nodup_cons.mp nodup
    obtain ⟨next, moved, step, finds⟩ := activateRow_ok activationBlockNum (same digest List.mem_cons_self)
    obtain ⟨after, done, features⟩ := ih nodup fun other member =>
      (finds other fun equal => apart (equal ▸ member)).trans (same other (List.mem_cons_of_mem _ member))
    refine ⟨after, ?_, ?_⟩
    · rw [Call.forM_cons, Call.bind_ok moved]
      exact done
    · rw [features, step, List.foldl_cons]

end FeatureCall

/-! What a run keeps. -/

/-- Every feature comes after those it depends on. -/
def DependenciesFirst (digests : List Digest) : Prop :=
  ∀ before digest after, digests = before ++ digest :: after →
    ∀ spec ∈ protocolFeatureSpec digest, ∀ dependency ∈ spec.dependencies, dependency ∈ before

theorem DependenciesFirst.concat {digests : List Digest} {digest : Digest}
    (ordered : DependenciesFirst digests)
    (met : ∀ spec ∈ protocolFeatureSpec digest, ∀ dependency ∈ spec.dependencies,
      dependency ∈ digests) : DependenciesFirst (digests ++ [digest]) := by
  intro before other after split
  obtain rfl | ⟨more, last, rfl⟩ := List.eq_nil_or_concat' after
  · obtain ⟨rfl, same⟩ := List.append_inj' split rfl
    cases same
    exact met
  · rw [← List.cons_append, ← List.append_assoc] at split
    exact ordered _ _ _ (List.append_inj' split rfl).1

namespace ProtocolFeatures

variable {features after : ProtocolFeatures} {earlier digests : List Digest} {digest : Digest}

/-- No feature is recorded twice, and the active ones are in an order that they allow. -/
structure Kept (features : ProtocolFeatures) : Prop where
  once : (features.activated.map Prod.fst ++ features.preactivated).Nodup
  ordered : DependenciesFirst (features.activated.map Prod.fst)

theorem activated_iff : features.protocolFeatureActivated digest ↔
    digest ∈ features.activated.map Prod.fst := by
  simp [protocolFeatureActivated]

theorem checkActivation_ok (done : features.checkActivation earlier digest = .ok ()) :
    digest ∉ features.activated.map Prod.fst ++ earlier ∧
      ∀ spec ∈ protocolFeatureSpec digest, ∀ dependency ∈ spec.dependencies,
        dependency ∈ features.activated.map Prod.fst ++ earlier := by
  unfold checkActivation at done
  split at done
  · cases done
  · rename_i spec known
    split_ifs at done with listed active required
    split at done
    · cases done
    · rename_i met
      rw [activated_iff] at active
      refine ⟨by simp only [List.mem_append, not_or]; exact ⟨active, listed⟩, ?_⟩
      intro other same dependency needed
      cases known.symm.trans same
      have found := List.find?_eq_none.mp met dependency needed
      simp only [Bool.and_eq_true, Bool.not_eq_true', decide_eq_true_eq, not_and, not_not,
        ← Bool.not_eq_true, activated_iff] at found
      rw [List.mem_append]
      tauto

theorem checkActivations_ok (done : features.checkActivations earlier digests = .ok ())
    (once : (features.activated.map Prod.fst ++ earlier).Nodup)
    (ordered : DependenciesFirst (features.activated.map Prod.fst ++ earlier)) :
    (features.activated.map Prod.fst ++ (earlier ++ digests)).Nodup ∧
      DependenciesFirst (features.activated.map Prod.fst ++ (earlier ++ digests)) := by
  induction digests generalizing earlier with
  | nil => exact ⟨by simpa using once, by simpa using ordered⟩
  | cons digest rest ih =>
    obtain ⟨_, checked, later⟩ := bind_eq_ok.mp done
    obtain ⟨fresh, met⟩ := checkActivation_ok checked
    have all := ih later (by rw [← List.append_assoc, ← List.concat_eq_append]; exact once.concat fresh)
      (by rw [← List.append_assoc]; exact ordered.concat met)
    simpa using all

theorem kept_activate {activationBlockNum : UInt32} (kept : features.Kept)
    (done : features.activateProtocolFeatures digests activationBlockNum = .ok after) :
    digests.Nodup ∧ after.Kept ∧ after = digests.foldl (·.activateOne activationBlockNum) features := by
  obtain ⟨checked, complete, rfl⟩ := activateProtocolFeatures_ok done
  have parts := List.nodup_append'.mp kept.once
  obtain ⟨once, ordered⟩ := checkActivations_ok checked (by simpa using parts.1) (by simpa using kept.ordered)
  have names : ((digests.foldl (·.activateOne activationBlockNum) features).activated).map Prod.fst =
      features.activated.map Prod.fst ++ digests := by
    rw [activated_foldl_eq, List.map_append, List.map_map]
    simp [Function.comp_def]
  have empty := preactivated_foldl_nil activationBlockNum parts.2.1 complete
  refine ⟨(List.nodup_append'.mp once).2.1, ⟨?_, ?_⟩, rfl⟩
  · rw [names, empty, List.append_nil]
    exact once
  · rw [names]
    exact ordered

theorem kept_preactivate (kept : features.Kept)
    (done : features.preactivateProtocolFeature digest = .ok after) :
    after = { features with preactivated := features.preactivated ++ [digest] } ∧ after.Kept := by
  obtain ⟨rfl, inactive, fresh⟩ := preactivateProtocolFeature_ok done
  refine ⟨rfl, ?_, kept.ordered⟩
  rw [← List.append_assoc, ← List.concat_eq_append]
  refine kept.once.concat ?_
  rw [List.mem_append, ← activated_iff, inactive]
  simpa using fresh

end ProtocolFeatures

inductive FeatureOp where
  | preactivate (digest : Digest)
  | activate (digests : List Digest) (activationBlockNum : UInt32)

namespace FeatureOp

def call : FeatureOp → FeatureCall Unit
  | preactivate digest => FeatureCall.preactivate digest
  | activate digests activationBlockNum => FeatureCall.activate digests activationBlockNum

/-- What a call that succeeds activates, in the order of its list. -/
def activates (db : FeatureDb) : FeatureOp → List (Digest × UInt32)
  | preactivate _ => []
  | activate digests activationBlockNum =>
    match FeatureCall.activate digests activationBlockNum db with
    | (.ok _, _) => digests.map (·, activationBlockNum)
    | (.error _, _) => []

theorem call_kept (op : FeatureOp) {db : FeatureDb} (kept : db.features.Kept) :
    (op.call db).2.features.Kept ∧
      (op.call db).2.features.activated = db.features.activated ++ op.activates db ∧
      ∀ e, (op.call db).1 = .error e → (op.call db).2 = db := by
  cases op with
  | preactivate digest =>
    rcases result : db.features.preactivateProtocolFeature digest with e | after
    · simp [call, FeatureCall.preactivate, activates, result, kept]
    · obtain ⟨rfl, kept⟩ := ProtocolFeatures.kept_preactivate kept result
      simp only [call, FeatureCall.preactivate, activates, result, List.append_nil]
      refine ⟨?_, rfl, by simp⟩
      simpa [FeatureDb.features, IdRows.values, IdRows.create] using kept
  | activate digests activationBlockNum =>
    rcases result : db.features.activateProtocolFeatures digests activationBlockNum with e | after
    · simp [call, FeatureCall.activate, activates, result, kept]
    · obtain ⟨nodup, kept, rfl⟩ := ProtocolFeatures.kept_activate kept result
      obtain ⟨next, done, features⟩ :=
        @FeatureCall.forM_activateRow db.queued.rows db digests nodup activationBlockNum fun _ _ => rfl
      simp only [call, FeatureCall.activate, activates, result, done, features]
      exact ⟨kept, ProtocolFeatures.activated_foldl_eq _ _, by simp⟩

end FeatureOp

namespace FeatureDb

def run (db : FeatureDb) (ops : List FeatureOp) : FeatureDb :=
  ops.foldl (fun db op => (op.call db).2) db

/-- What the calls of a run activate, call after call. -/
def activations (db : FeatureDb) : List FeatureOp → List (Digest × UInt32)
  | [] => []
  | op :: rest => op.activates db ++ activations (op.call db).2 rest

theorem run_features {db : FeatureDb} (kept : db.features.Kept) (ops : List FeatureOp) :
    (db.run ops).features.Kept ∧
      (db.run ops).features.activated = db.features.activated ++ db.activations ops := by
  induction ops generalizing db with
  | nil => exact ⟨kept, by simp [run, activations]⟩
  | cons op rest ih =>
    obtain ⟨next, added, -⟩ := op.call_kept kept
    obtain ⟨kept, all⟩ := ih next
    exact ⟨kept, by rw [activations, ← List.append_assoc, ← added]; exact all⟩

/-- After every run, no feature is recorded twice, in one table or in both, every active one
comes after what it depends on, the active ones stand in the order of their activation, and a
call that fails changes nothing. -/
theorem run_bookkeeping (ops : List FeatureOp) :
    (empty.run ops).features.Kept ∧
      (empty.run ops).features.activated = empty.activations ops ∧
      ∀ op : FeatureOp, ∀ e, (op.call (empty.run ops)).1 = .error e →
        (op.call (empty.run ops)).2 = empty.run ops := by
  have start : empty.features.Kept :=
    ⟨.nil, fun before digest after split => by cases before <;> cases split⟩
  obtain ⟨kept, order⟩ := run_features start ops
  exact ⟨kept, order, fun op => (op.call_kept kept).2.2⟩

end FeatureDb

end PulseVM.Controller
