import PulseVM.Arena.Db
import PulseVM.ChainDb.ContractRows
import PulseVM.Lib.Calls

/-!
Tables registered while the database runs. Each counts its revision and keeps its
sessions for itself; a late table rebuilds them from the range of the first one.
Revisions are signed 64-bit numbers, and sums of them wrap around.
-/

namespace PulseVM.Arena
open Lib.Calls
open ArenaObject hiding id

def wrap (n : Int) : Int := n.bmod (2 ^ 64)

namespace Table
variable {T : Type} [ArenaObject T]

def wrapped (t : Table T) : Table T := { t with revision := wrap t.revision }

/-- The distance to a revision far below overflows, and then all sessions are dropped. -/
def commitWrapped (t : Table T) (revision : Int) : Table T :=
  t.commit (if 2 ^ 63 ≤ t.revision - revision then t.revision else revision)

/-- The revisions below the oldest open session and at the newest. -/
def undoStackRevisionRange (t : Table T) : Int × Int :=
  (wrap (t.revision - t.undoStack.length), t.revision)

/-- What tables in lockstep share. -/
def clock (t : Table T) : Int × Nat := (t.revision, t.undoStack.length)

/-- One session fewer, where there is one. -/
def back (clock : Int × Nat) : Int × Nat :=
  (if clock.2 = 0 then clock.1 else clock.1 - 1, clock.2 - 1)

theorem undo_clock (t : Table T) : t.undo.clock = back t.clock := by
  cases stack : t.undoStack with
  | nil =>
    rw [undo_nil stack]
    simp [clock, back, stack]
  | cons state below =>
    obtain ⟨_, _, left, revision, _⟩ := undo_heap stack
    simp [clock, back, stack, left, revision]

omit [ArenaObject T] in
theorem squash_clock (t : Table T) : t.squash.clock = back t.clock := by
  unfold squash
  split <;> next stack => simp [clock, back, stack]

theorem undoAll_clock (t : Table T) : t.undoAll.clock = back^[t.clock.2] t.clock :=
  Function.Semiconj.iterate_right (undo_clock (T := T)) _ t

omit [ArenaObject T] in
theorem start_clock (n : Nat) (t : Table T) :
    (startUndoSession^[n] t).clock = (t.clock.1 + n, t.clock.2 + n) := by
  induction n generalizing t with
  | zero => simp
  | succ n ih =>
    rw [Function.iterate_succ_apply, ih]
    simp only [clock, startUndoSession, List.length_cons, Nat.cast_succ]
    exact Prod.ext (by ring) (by ring)

end Table

inductive DbError where
  | typeIdInUse (typeId : Nat) (typeName : String)
  | table (error : TableError)

/-- The registered tables, in order of registration. -/
abbrev Tables := List ((r : RowType) × Table r.Row)

namespace Tables

def each (db : Tables) (f : (r : RowType) → Table r.Row → Table r.Row) : Tables :=
  db.map fun entry => ⟨entry.1, f entry.1 entry.2⟩

def addTable (db : Tables) (r : RowType) : Except DbError Unit × Tables :=
  if ∃ entry ∈ db, typeId entry.1.Row = typeId r.Row then
    (.error (.typeIdInUse (typeId r.Row) (typeName r.Row)), db)
  else
    match db.head? with
    | none => (.ok (), db ++ [⟨r, .new⟩])
    | some first =>
      let (lo, hi) := first.2.undoStackRevisionRange
      match (Table.new : Table r.Row).setRevision lo with
      | (.error error, _) => (.error (.table error), db)
      | (.ok _, table) =>
        -- sessions are started until the revision is `hi`, so none of them overflows
        (.ok (), db ++ [⟨r, Table.startUndoSession^[(hi - lo).toNat] table⟩])

def setRevision (revision : Int) : Tables → Except DbError Unit × Tables
  | [] => (.ok (), [])
  | ⟨r, t⟩ :: rest =>
    match t.setRevision revision with
    | (.error error, t) => (.error (.table error), ⟨r, t⟩ :: rest)
    | (.ok _, t) => ((setRevision revision rest).1, ⟨r, t⟩ :: (setRevision revision rest).2)

end Tables

inductive DbCall where
  | addTable (r : RowType)
  | startUndoSession
  | undo
  | squash
  | commit (revision : Int)
  | undoAll
  | setRevision (revision : Int)

namespace Tables

def step (db : Tables) : DbCall → Except DbError Unit × Tables
  | .addTable r => db.addTable r
  | .startUndoSession => (.ok (), db.each fun _ t => t.startUndoSession.wrapped)
  | .undo => (.ok (), db.each fun _ t => t.undo.wrapped)
  | .squash => (.ok (), db.each fun _ t => t.squash.wrapped)
  | .commit revision => (.ok (), db.each fun _ t => t.commitWrapped revision)
  | .undoAll => (.ok (), db.each fun _ t => t.undoAll.wrapped)
  | .setRevision revision => db.setRevision revision

def next (db : Tables) (call : DbCall) : Tables := (db.step call).2

def run : Tables → List DbCall → Tables := List.foldl next

def Lockstep (db : Tables) : Prop :=
  ∀ entry ∈ db, ∀ other ∈ db, entry.2.clock = other.2.clock

/-- A table is added only where the first one's range does not overflow. -/
def Counts (db : Tables) : DbCall → Prop
  | .addTable _ => ∀ first ∈ db.head?,
      wrap (first.2.revision - first.2.undoStack.length) =
        first.2.revision - first.2.undoStack.length
  | _ => True

instance (db : Tables) : Decidable db.Lockstep :=
  inferInstanceAs (Decidable (∀ entry ∈ db, ∀ other ∈ db, _ = _))

def sessions (db : Tables) : List ((r : RowType) × List (UndoState r.Row)) :=
  db.map fun entry => ⟨entry.1, entry.2.undoStack⟩

variable {db : Tables}

theorem Lockstep.each (same : db.Lockstep) {f : (r : RowType) → Table r.Row → Table r.Row}
    (acts : ∀ r r' (t : Table r.Row) (u : Table r'.Row), t.clock = u.clock →
      (f r t).clock = (f r' u).clock) : Lockstep (db.each f) := by
  intro entry member other member'
  obtain ⟨entry, there, rfl⟩ := List.mem_map.mp member
  obtain ⟨other, there', rfl⟩ := List.mem_map.mp member'
  exact acts _ _ _ _ (same entry there other there')

theorem Lockstep.push (same : db.Lockstep) {r : RowType} {t : Table r.Row}
    (like : ∀ first ∈ db.head?, t.clock = first.2.clock) : Lockstep (db ++ [⟨r, t⟩]) := by
  have each : ∀ entry ∈ db ++ [⟨r, t⟩], entry.2.clock = t.clock := by
    intro entry member
    rcases List.mem_append.mp member with before | added
    · have first := List.head?_eq_some_head (List.ne_nil_of_mem before)
      exact (same entry before _ (List.head_mem _)).trans (like _ first).symm
    · rw [List.mem_singleton.mp added]
  exact fun entry member other member' => (each entry member).trans (each other member').symm

theorem Lockstep.addTable (same : db.Lockstep) (r : RowType) (counts : db.Counts (.addTable r)) :
    Lockstep (db.addTable r).2 := by
  unfold Tables.addTable
  split
  · exact same
  cases head : db.head? with
  | none => exact same.push fun first found => nomatch head.symm.trans found
  | some first =>
    simp only [Table.undoStackRevisionRange, counts first head]
    unfold Table.setRevision
    split_ifs with open_ earlier
    · exact same
    · exact same
    -- the late table has one session for each of the first one's
    · refine same.push fun other first' => ?_
      obtain rfl := Option.some.inj (head.symm.trans first')
      rw [Table.start_clock, sub_sub_cancel, Int.toNat_natCast]
      simp [Table.clock, Table.new]

theorem setRevision_ok {revision : Int}
    (free : ∀ entry ∈ db, entry.2.undoStack = [] ∧ ¬revision < entry.2.revision) :
    db.setRevision revision = (.ok (), db.each fun _ t => { t with revision := revision }) := by
  induction db with
  | nil => rfl
  | cons entry rest ih =>
    obtain ⟨closed, later⟩ := free entry List.mem_cons_self
    have tail := ih fun entry member => free entry (List.mem_cons_of_mem _ member)
    have head : entry.2.setRevision revision = (.ok (), { entry.2 with revision := revision }) :=
      (if_neg (not_not.mpr closed)).trans (if_neg later)
    simp only [setRevision, head, tail]
    rfl

/-- The first table decides: the others are in its state and answer as it does. -/
theorem Lockstep.setRevision (same : db.Lockstep) (revision : Int) :
    (∃ error, db.setRevision revision = (.error error, db)) ∨
      db.setRevision revision = (.ok (), db.each fun _ t => { t with revision := revision }) := by
  cases db with
  | nil => exact .inr rfl
  | cons first rest =>
    by_cases free : first.2.undoStack = [] ∧ ¬revision < first.2.revision
    · refine .inr (setRevision_ok fun entry member => ?_)
      have clock := same entry member first List.mem_cons_self
      obtain ⟨revisions, depths⟩ := Prod.ext_iff.mp clock
      refine ⟨List.length_eq_zero_iff.mp (depths.trans (List.length_eq_zero_iff.mpr free.1)), ?_⟩
      exact (show entry.2.revision = first.2.revision from revisions) ▸ free.2
    · refine .inl ?_
      simp only [Tables.setRevision, Table.setRevision]
      split_ifs with open_ earlier
      · exact ⟨_, rfl⟩
      · exact ⟨_, rfl⟩
      · exact absurd ⟨not_not.mp open_, earlier⟩ free

theorem Lockstep.next (db : Tables) (call : DbCall) (same : db.Lockstep) (counts : db.Counts call) :
    (db.next call).Lockstep := by
  have wrapping {r r' : RowType} {t : Table r.Row} {u : Table r'.Row} (clock : t.clock = u.clock) :
      t.wrapped.clock = u.wrapped.clock := congrArg (fun c => (wrap c.1, c.2)) clock
  cases call <;> dsimp only [Tables.next, Tables.step]
  case addTable r => exact same.addTable r counts
  case startUndoSession =>
    refine same.each fun r r' t u clock => wrapping ?_
    exact congrArg (fun c => (c.1 + 1, c.2 + 1)) clock
  case undo =>
    refine same.each fun r r' t u clock => wrapping ?_
    rw [Table.undo_clock, Table.undo_clock, clock]
  case squash =>
    refine same.each fun r r' t u clock => wrapping ?_
    rw [Table.squash_clock, Table.squash_clock, clock]
  case commit revision =>
    refine same.each fun r r' t u clock => ?_
    obtain ⟨revisions, depths⟩ := Prod.ext_iff.mp clock
    simp only [Table.clock] at revisions depths
    simp only [Table.commitWrapped, Table.commit, Table.commitCount, Table.clock, revisions, depths,
      List.length_take]
  case undoAll =>
    refine same.each fun r r' t u clock => wrapping ?_
    rw [Table.undoAll_clock, Table.undoAll_clock, clock]
  case setRevision revision =>
    rcases same.setRevision revision with ⟨error, failed⟩ | set
    · rw [failed]
      exact same
    · rw [set]
      dsimp only
      refine same.each fun r r' t u clock => ?_
      exact congrArg (fun c => (revision, c.2)) clock

/-- In a run where no range overflows all tables stay in lockstep: an undo takes the newest
session from each of them, and a revision that is refused changes none. -/
theorem run_lockstep (calls : List DbCall) (counts : Along next Counts [] calls) :
    let db := run [] calls
    db.Lockstep ∧
    sessions (db.step .undo).2 = db.sessions.map (fun s => ⟨s.1, s.2.tail⟩) ∧
    ∀ revision error, (db.step (.setRevision revision)).1 = .error error →
      (db.step (.setRevision revision)).2 = db := by
  intro db
  have same : db.Lockstep := counts.foldl Lockstep.next fun _ member => nomatch member
  refine ⟨same, ?_, fun revision error failed => ?_⟩
  · simp only [step, sessions, Tables.each, List.map_map]
    refine List.map_congr_left fun entry _ => ?_
    simp only [Function.comp, Table.wrapped, Table.undo_below]
  · rcases same.setRevision revision with ⟨_, refused⟩ | set
    · exact congrArg Prod.snd refused
    · cases failed.symm.trans (congrArg Prod.fst set)

theorem run_lockstep_late :
    let db := run [] [.addTable ⟨ContractKeyValueRow, inferInstance⟩, .startUndoSession,
      .addTable ⟨ChainDb.ContractTableRow, inferInstance⟩]
    db.length = 2 ∧ db.Lockstep := by
  refine ⟨rfl, (run_lockstep _ ?_).1⟩
  exact ⟨by rintro _ ⟨⟩, trivial, by rintro _ ⟨⟩; rfl, trivial⟩

/-- The session wraps the revision around, and the table added in it gets no session. -/
theorem overflow_breaks_lockstep : ¬Lockstep (run []
    [.addTable ⟨ContractKeyValueRow, inferInstance⟩, .setRevision (2 ^ 63 - 1), .startUndoSession,
      .addTable ⟨ChainDb.ContractTableRow, inferInstance⟩]) := by
  decide +kernel

end Tables

end PulseVM.Arena
